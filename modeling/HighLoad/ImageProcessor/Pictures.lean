import HighLoad.ImageProcessor.Program

/-!
# What runs of the program leave on a disk

A `Picture` is a file with headers that the reader accepts, all its rows and zero padding. Every command line, right or
wrong, is run to its end (`main_total`), and whatever file the program reads, a truncated one included, what it writes is
a picture (`writeFile_picture`). So over any sequence of command lines every file stays as it was or is a picture in the
end (`runs_pictures`).
-/

namespace HighLoad.ImageProcessor

open ByteString Transition

/-- A complete file. -/
structure Picture (bytes : Bytes) : Prop where
  readable : Readable bytes
  height : fileHeight bytes < 2 ^ 31
  length : bytes.length = fullLength bytes
  padding : ∀ i j, i < fileHeight bytes → 3 * fileWidth bytes ≤ j → j < stride (fileWidth bytes) →
    bytes[54 + (i * stride (fileWidth bytes) + j)]? = some 0

theorem Picture.moderate {bytes : Bytes} (h : Picture bytes) : Moderate bytes := fun _ => ⟨h.readable.width, h.height⟩

variable {F : Type} [Field F] [LinearOrder F] [FloorRing F] [IsStrictOrderedRing F] {libm : Libm F}

/-! ## What is written -/

omit [IsStrictOrderedRing F] in
/-- **What `WriteFile` writes is a picture.** -/
theorem writeFile_picture {fs : FileSystem} {path : Bytes} {p : Process F} {file : OFStream} (hs : Shaped p)
    (hw : p.image.width.toNat ≤ maxWidth) (hcheck : check p.image.toFileHeader p.image.toInfoHeader = none)
    (hdevice : fs.device path = some none) (h : writeFile fs path p.image = some (.ok file)) : Picture file.written := by
  obtain ⟨rows, hwrite, hrows⟩ := writeFile_bytes hdevice hw hs.pixels
  rw [hwrite] at h
  cases h
  have hwidth : fileWidth (p.image.toFileHeader.bytes ++ (p.image.toInfoHeader.bytes ++ rows)) =
      p.image.width.toNat := by
    rw [fileWidth, readHeaders_file]
  have hheight : fileHeight (p.image.toFileHeader.bytes ++ (p.image.toInfoHeader.bytes ++ rows)) =
      p.image.height.toNat := by
    rw [fileHeight, readHeaders_file]
  refine ⟨⟨?_, ?_, ?_⟩, ?_, ?_, fun i j hi hj hj' => ?_⟩
  · rw [length_file]
    exact Nat.le_add_right _ _
  · rw [readHeaders_file]
    exact hcheck
  · rw [readHeaders_file]
    exact hw
  · rw [hheight]
    exact hs.height
  · rw [fullLength, hwidth, hheight, length_file, hrows.length]
  · rw [hwidth] at hj hj' ⊢
    rw [hheight] at hi
    rw [getElem?_file]
    exact hrows.padding i j hi hj hj'

/-! ## Sequences of command lines -/

/-- A command line, run to its end. -/
def Disk.step (libm : Libm F) (disk : Disk) (argv : List Bytes) : Option Disk := (main libm argv disk).map Ending.disk

/-- No device is ever full, and no accepted file has sides beyond what the program can handle. -/
structure Ordinary (disk : Disk) : Prop where
  devices : ∀ f room, disk.device f = some room → room = none
  sides : ∀ f bytes, disk.content f = some bytes → Moderate bytes

/-- The sigmas of the blurs are below `2 ^ 29`. -/
structure ShortBlurs (F : Type) [Field F] [LinearOrder F] (disk : Disk) (argv : List Bytes) : Prop where
  sigma : ∀ (parser : Parser F) (sigma : F), parse disk.paths argv = some (.parser parser) →
    .gaussianBlur sigma ∈ parser.filters → 4 * sigma < 2 ^ 31

omit [FloorRing F] [IsStrictOrderedRing F] in
theorem ShortBlurs.admitted {disk : Disk} {argv : List Bytes} {parser : Parser F} (h : ShortBlurs F disk argv)
    (hparse : parse disk.paths argv = some (.parser parser)) : ∀ f ∈ parser.filters, Admitted f :=
  fun f hf => ⟨parse_built hparse f hf, fun sigma hblur => h.sigma parser sigma hparse (hblur ▸ hf)⟩

/-- What one or more command lines change: the outputs that they name, to pictures. -/
structure Changes (commands : List (List Bytes)) (disk disk' : Disk) : Prop where
  file : disk'.file = disk.file
  content : ∀ f, disk'.content f = disk.content f ∨
    (∃ bytes, disk'.content f = some bytes ∧ Picture bytes) ∧
      ∃ argv ∈ commands, ∃ path, argv[2]? = some path ∧ disk.file path = f

theorem Changes.refl (commands : List (List Bytes)) (disk : Disk) : Changes commands disk disk := ⟨rfl, fun _ => .inl rfl⟩

variable {disk disk' : Disk} {argv : List Bytes} {commands : List (List Bytes)}

/-- **Every command line is run to its end**, right or wrong. -/
theorem main_total (libm : Libm F) (hd : Ordinary disk) (hblur : ShortBlurs F disk argv) :
    ∃ ending, main libm argv disk = some ending := by
  obtain ⟨r, hparse⟩ := parse_total F disk.paths argv
  cases r with
  | exit output => exact ⟨_, by simp only [main, hparse]; rfl⟩
  | threw e => exact ⟨_, by simp only [main, hparse]; rfl⟩
  | parser parser =>
    have hadmitted := hblur.admitted hparse
    obtain ⟨-, -, -, hpath, -⟩ := parse_inv hparse
    obtain ⟨bytes, hbytes⟩ := content_of_pathCheck hpath
    have hmoderate := hd.sides _ bytes hbytes
    by_cases hs : Succeeds disk parser.inputPath parser.outputPath bytes parser.filters
    · obtain ⟨disk', hmain, -⟩ := main_succeeds libm hparse hadmitted hbytes hmoderate hs
      exact ⟨_, hmain⟩
    · obtain ⟨e, hmain⟩ := main_ends libm hparse hadmitted hbytes hmoderate (hd.devices _) hs
      exact ⟨_, hmain⟩

/-- **One command line**: its output, if it writes one, is a picture. -/
theorem step_pictures (libm : Libm F) (hd : Ordinary disk) (hblur : ShortBlurs F disk argv) :
    ∃ disk', disk.step libm argv = some disk' ∧ Ordinary disk' ∧ Changes [argv] disk disk' := by
  obtain ⟨ending, hmain⟩ := main_total libm hd hblur
  refine ⟨ending.disk, by rw [Disk.step, hmain, Option.map_some], ?_⟩
  cases main_inv hmain with
  | help | threw => exact ⟨hd, .refl _ _⟩
  | wrote parser img buffer p file hparse hread hfilters hwrite =>
    unfold Disk.store
    split
    case isTrue => exact ⟨hd, .refl _ _⟩
    case isFalse =>
      obtain ⟨rest, hfile, -⟩ := readFile_ok hread
      have hcontent := (Option.ite_none_right_eq_some.mp hfile).2
      obtain ⟨hs, hw, hcheck⟩ :=
        filters_accepted hfile (hd.sides _ _ hcontent) hread (hblur.admitted hparse) hfilters
      have hopen : disk.fileSystem.device parser.outputPath = some none := by
        cases hdev : disk.fileSystem.device parser.outputPath with
        | none =>
          rw [writeFile, hdev] at hwrite
          cases hwrite
        | some room => rw [hd.devices _ room hdev]
      have hpicture := writeFile_picture hs hw hcheck hopen hwrite
      refine ⟨⟨hd.devices, fun f bytes hbytes => ?_⟩, rfl, fun f => ?_⟩
      · dsimp only at hbytes
        by_cases hf : f = disk.file parser.outputPath
        · rw [hf, Function.update_self] at hbytes
          cases hbytes
          exact hpicture.moderate
        · rw [Function.update_of_ne hf] at hbytes
          exact hd.sides f bytes hbytes
      · by_cases hf : f = disk.file parser.outputPath
        · refine .inr ⟨⟨file.written, ?_, hpicture⟩, argv, List.mem_singleton_self argv, ?_⟩
          · rw [hf]
            exact Function.update_self _ _ _
          · exact ⟨parser.outputPath, (parse_inv hparse).2.2.1, hf.symm⟩
        · exact .inl (Function.update_of_ne hf _ _)

/-- **Over any sequence of command lines**, each run to its end, every file stays as it was, or is the output that one
of them names and a picture: complete, with headers that the reader accepts and zero padding. -/
theorem runs_pictures (libm : Libm F) (hd : Ordinary disk)
    (hblur : Meets (Disk.step libm) (ShortBlurs F) disk commands) :
    ∃ disk', run (Disk.step libm) disk commands = some disk' ∧ Ordinary disk' ∧ Changes commands disk disk' := by
  induction commands generalizing disk with
  | nil => exact ⟨disk, rfl, hd, .refl _ _⟩
  | cons argv commands ih =>
    obtain ⟨disk₁, h₁, hd₁, hchanges₁⟩ := step_pictures libm hd hblur.1
    obtain ⟨disk', h, hd', hchanges⟩ := ih hd₁ (hblur.2 disk₁ h₁)
    refine ⟨disk', run_cons.mpr ⟨disk₁, h₁, h⟩, hd', hchanges.file.trans hchanges₁.file, fun f => ?_⟩
    rcases hchanges.content f with hsame | ⟨hpicture, argv', hmem, path, hpath, hf⟩
    · rw [hsame]
      rcases hchanges₁.content f with hsame₁ | ⟨hpicture, argv', hmem, hpath⟩
      · exact .inl hsame₁
      · exact .inr ⟨hpicture, argv', by rw [List.mem_singleton.mp hmem]; exact List.mem_cons_self, hpath⟩
    · rw [hchanges₁.file] at hf
      exact .inr ⟨hpicture, argv', List.mem_cons_of_mem _ hmem, path, hpath, hf⟩

theorem shelf_ordinary : Ordinary shelf where
  devices f room h := (Option.some.inj h).symm
  sides f bytes h := by
    obtain ⟨-, h⟩ := Option.ite_none_right_eq_some.mp h
    exact Option.some.inj h ▸ fourPixels_moderate

/-- `-gs` on what `-neg` has written. -/
def greyArgs : List Bytes := [ascii "image_processor", ascii "out.bmp", ascii "grey.bmp", ascii "-gs"]

theorem greyCommand : Command greyArgs (ascii "out.bmp") (ascii "grey.bmp") [(.grayscale : Filter ℚ)] :=
  ⟨by decide, rfl, rfl, [.gs], rfl, rfl⟩

/-- A command line without a blur. -/
theorem shortBlurs_of_command {input output : Bytes} {filters : List (Filter ℚ)} {argv : List Bytes} {disk : Disk}
    (hc : Command argv input output filters) (hpath : pathCheck disk.paths input = .ok ())
    (hno : ∀ sigma, .gaussianBlur sigma ∉ filters) : ShortBlurs ℚ disk argv := by
  refine ⟨fun parser sigma hparse hf => ?_⟩
  rw [hc.parse hpath] at hparse
  cases hparse
  exact absurd hf (hno sigma)

/-- `-neg` on the picture of four pixels, and then `-gs`. -/
theorem twoCommands_pictures : ∃ disk', run (Disk.step noLibm) shelf [paintCommand [ascii "-neg"], greyArgs] =
      some disk' ∧ Ordinary disk' ∧ Changes [paintCommand [ascii "-neg"], greyArgs] shelf disk' := by
  have hneg : ShortBlurs ℚ shelf (paintCommand [ascii "-neg"]) := shortBlurs_of_command negCommand rfl (by simp)
  refine runs_pictures noLibm shelf_ordinary ⟨hneg, fun disk hdisk => ⟨?_, fun _ _ => trivial⟩⟩
  obtain ⟨disk₁, hmain, -, -, -, file, -, -, rfl, -⟩ :=
    main_succeeds noLibm (negCommand.parse rfl) (negCommand.admitted (by simp)) rfl fourPixels_moderate
      negCommand_succeeds
  rw [Disk.step, hmain] at hdisk
  cases hdisk
  exact shortBlurs_of_command greyCommand rfl (by simp)

end HighLoad.ImageProcessor
