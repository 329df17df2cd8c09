import HighLoad.ImageProcessor.BufferShape
import HighLoad.ImageProcessor.CommandLine
import HighLoad.ImageProcessor.Failure
import HighLoad.ImageProcessor.FileSize

/-!
# The program

`main` parses the command line, reads the input, applies the filters and only then opens the output. `Disk` is what it
works on: several paths may name one file, the input and the output among them. `none` is a call whose behaviour the
language does not define.

`Run` says how `main` can end (`main_inv`): the disk changes only if nothing was thrown, and then in one file. A command
line of invocations is run to the end, and leaves its output behind, exactly when the input has readable headers, no
filter fails on the sides that it finds, and the output can be opened (`main_writes_iff`).
-/

namespace HighLoad.ImageProcessor

open ByteString

/-! ## The disk -/

structure Disk where
  /-- The file that a path names, whether it exists or not. -/
  file : Bytes → Nat
  /-- The bytes of a regular file. -/
  content : Nat → Option Bytes
  /-- It exists and is not a regular file. -/
  special : Nat → Bool
  readable : Nat → Bool
  /-- What it accepts when it is opened for writing. -/
  device : Nat → Option (Option Nat)

namespace Disk

def paths (disk : Disk) : Paths where
  pathExists s := (disk.content (disk.file s)).isSome || disk.special (disk.file s)
  isRegularFile s := (disk.content (disk.file s)).isSome

def fileSystem (disk : Disk) : FileSystem where
  content path := if disk.readable (disk.file path) then disk.content (disk.file path) else none
  device path := disk.device (disk.file path)

/-- The output is truncated when it is opened. -/
def store (disk : Disk) (path written : Bytes) : Disk :=
  if disk.special (disk.file path) then disk
  else { disk with content := Function.update disk.content (disk.file path) (some written) }

end Disk

/-! ## `main` -/

/-- The message, as a C string. -/
def Exn.what : Exn → Bytes
  | .parser message | .readImage message | .writeImage message | .applyFilter message => message.takeWhile (· ≠ 0)

/-- How the process ends; the exit status is 0 in any case. -/
structure Ending where
  disk : Disk
  out : String
  err : Option Bytes

/-- Both `catch` clauses. -/
def caught (disk : Disk) (e : Exn) : Ending := ⟨disk, "", some (e.what ++ [10])⟩

variable {F : Type} [Field F] [LinearOrder F] [FloorRing F]

def main (libm : Libm F) (argv : List Bytes) (disk : Disk) : Option Ending :=
  match parse (F := F) disk.paths argv with
  | none => none
  | some (.exit output) => some ⟨disk, output, none⟩
  | some (.threw e) => some (caught disk e)
  | some (.parser parser) =>
    match readFile disk.fileSystem parser.inputPath [] with
    | none => none
    | some (.error e) => some (caught disk e)
    | some (.ok (img, buffer)) =>
      match applyFilters libm parser.filters ⟨img, buffer, []⟩ with
      | none => none
      | some (_, some e) => some (caught disk e)
      | some (p, none) =>
        match writeFile disk.fileSystem parser.outputPath p.image with
        | none => none
        | some (.error e) => some (caught disk e)
        | some (.ok file) => some ⟨disk.store parser.outputPath file.written, "", none⟩

/-! ## How it ends -/

/-- Everything `main` can do, one constructor for each way to end. -/
inductive Run (libm : Libm F) (argv : List Bytes) (disk : Disk) : Ending → Prop
  | help (output : String) : parse (F := F) disk.paths argv = some (.exit output) → Run libm argv disk ⟨disk, output, none⟩
  | threw (e : Exn) : Run libm argv disk (caught disk e)
  | wrote (parser : Parser F) (img : Image F) (buffer : Grid (Pixel F)) (p : Process F) (file : OFStream) :
      parse disk.paths argv = some (.parser parser) →
      readFile disk.fileSystem parser.inputPath [] = some (.ok (img, buffer)) →
      applyFilters libm parser.filters ⟨img, buffer, []⟩ = some (p, none) →
      writeFile disk.fileSystem parser.outputPath p.image = some (.ok file) →
      Run libm argv disk ⟨disk.store parser.outputPath file.written, "", none⟩

variable {libm : Libm F} {argv : List Bytes} {disk : Disk} {ending : Ending}

theorem main_inv (h : main libm argv disk = some ending) : Run libm argv disk ending := by
  unfold main at h
  split at h
  case h_1 => cases h
  case h_2 output hparse =>
    cases h
    exact .help output hparse
  case h_3 e _ =>
    cases h
    exact .threw e
  case h_4 parser hparse =>
    split at h
    case h_1 => cases h
    case h_2 e _ =>
      cases h
      exact .threw e
    case h_3 img buffer hread =>
      split at h
      case h_1 => cases h
      case h_2 e _ =>
        cases h
        exact .threw e
      case h_3 p hfilters =>
        split at h
        case h_1 => cases h
        case h_2 e _ =>
          cases h
          exact .threw e
        case h_3 file hwrite =>
          cases h
          exact .wrote parser img buffer p file hparse hread hfilters hwrite

/-! ## Headers -/

/-- A filter leaves the headers alone, or it is a crop. -/
theorem apply_headers {f : Filter F} {p q : Process F} {e : Option Exn} (h : f.apply libm p = some (q, e)) :
    SameHeaders p q ∨ ∃ width height, f = .crop width height ∧ crop width height p = some q := by
  cases f with
  | crop width height =>
    rw [Filter.apply] at h
    exact .inr ⟨width, height, rfl, (map_none_some h).1⟩
  | grayscale | negative =>
    cases h
    exact .inl ⟨rfl, rfl⟩
  | sharpening =>
    rw [Filter.apply] at h
    exact .inl (multiply_headers (map_none_some h).1)
  | edgeDetection threshold =>
    rw [Filter.apply] at h
    obtain ⟨p₁, px, h₁, -, rfl⟩ := edgeDetection_some (map_none_some h).1
    have hgray : SameHeaders p (grayscale p) := ⟨rfl, rfl⟩
    exact .inl ((hgray.trans (multiply_headers h₁)).trans ⟨rfl, rfl⟩)
  | gaussianBlur sigma =>
    rw [Filter.apply] at h
    rcases gaussianBlur_some h with ⟨-, -, rfl, -⟩ | ⟨kernel, p₁, kernel', p₂, -, h₁, -, h₂, rfl, -⟩
    · exact .inl ⟨rfl, rfl⟩
    · exact .inl (((multiply_headers h₁).trans (multiply_headers h₂)).trans ⟨rfl, rfl⟩)
  | tunnel centerH centerW strength radius =>
    rw [Filter.apply] at h
    rcases tunnel_some h with ⟨-, rfl, -⟩ | ⟨-, -, px, -, rfl⟩
    · exact .inl ⟨rfl, rfl⟩
    · exact .inl ⟨rfl, rfl⟩

omit [LinearOrder F] [FloorRing F] in
theorem crop_check {width height : Int16} {p q : Process F} (h : crop width height p = some q) :
    check q.image.toFileHeader q.image.toInfoHeader = check p.image.toFileHeader p.image.toInfoHeader := by
  obtain ⟨p₁, h₁, h⟩ := Option.bind_eq_some_iff.mp h
  obtain ⟨p₂, h₂, rfl⟩ := Option.map_eq_some_iff.mp h
  have hcheck₁ : check p₁.image.toFileHeader p₁.image.toInfoHeader =
      check p.image.toFileHeader p.image.toInfoHeader := by
    rcases cropHeight_cases h₁ with ⟨-, rfl⟩ | ⟨-, rfl⟩
    · rfl
    · rfl
  rw [← hcheck₁]
  rcases cropWidth_cases h₂ with ⟨-, rfl⟩ | ⟨-, rfl⟩
  · rfl
  · rfl

/-- **What the reader has checked still holds after the filters.** -/
theorem applyFilters_check {filters : List (Filter F)} {p q : Process F} {e : Option Exn}
    (h : applyFilters libm filters p = some (q, e)) :
    check q.image.toFileHeader q.image.toInfoHeader = check p.image.toFileHeader p.image.toInfoHeader := by
  refine applyFilters_inv (I := fun q => check q.image.toFileHeader q.image.toInfoHeader =
    check p.image.toFileHeader p.image.toInfoHeader) ?_ rfl h
  intro f _ r s e hr hs
  refine Eq.trans ?_ hr
  rcases apply_headers hs with hsame | ⟨width, height, -, hcrop⟩
  · rw [hsame.file, hsame.info]
  · exact crop_check hcrop

/-! ## The filters of a command line -/

section Parse

variable {F : Type} [Field F] {paths : Paths} {argv : List Bytes} {parser : Parser F}

theorem Invocation.make_built {i : Invocation} {f : Filter F} (h : i.make = .ok f) : Built f := by
  cases i with
  | crop => exact .crop h
  | gs =>
    cases h
    exact .gs
  | neg =>
    cases h
    exact .neg
  | sharp =>
    cases h
    exact .sharp
  | edge => exact .edge h
  | blur => exact .blur h
  | tunnel => exact .tunnel h

/-- What a parser was built of. -/
theorem parse_inv (h : parse paths argv = some (.parser parser)) :
    3 ≤ argv.length ∧ argv[1]? = some parser.inputPath ∧ argv[2]? = some parser.outputPath ∧
      pathCheck paths parser.inputPath = .ok () ∧ parseLoop argv 3 [] = some (.ok parser.filters) := by
  unfold parse at h
  split at h
  case isTrue => cases h
  case isFalse =>
    split at h
    case isTrue => cases h
    case isFalse hargc =>
      obtain ⟨inputPath, hin, h⟩ := Option.bind_eq_some_iff.mp h
      obtain ⟨outputPath, hout, h⟩ := Option.bind_eq_some_iff.mp h
      split at h
      case h_1 => cases h
      case h_2 hpath =>
        obtain ⟨r, hr, h⟩ := Option.map_eq_some_iff.mp h
        cases r with
        | error e => cases h
        | ok filters =>
          cases h
          exact ⟨Nat.not_lt.mp hargc, hin, hout, hpath, hr⟩

/-- **The filters of a parser were built by the fabrics.** -/
theorem parse_built (h : parse paths argv = some (.parser parser)) : ∀ f ∈ parser.filters, Built f := by
  obtain ⟨-, -, -, -, hloop⟩ := parse_inv h
  obtain ⟨items, made, -, hmade, hfilters⟩ := parseLoop_sound hloop
  intro f hf
  rw [hfilters, List.nil_append] at hf
  obtain ⟨filter, hfilter, hmem⟩ := List.mem_flatMap.mp hf
  obtain rfl := Option.mem_toList.mp hmem
  have hok : .ok (some f) ∈ items.map (Item.make (F := F)) := by
    rw [hmade]
    exact List.mem_map_of_mem hfilter
  obtain ⟨item, -, hitem⟩ := List.mem_map.mp hok
  cases item with
  | unknown => cases hitem
  | known i =>
    cases hmake : (i.make : Except Exn (Filter F)) with
    | error e =>
      rw [Item.make, hmake] at hitem
      cases hitem
    | ok f' =>
      rw [Item.make, hmake] at hitem
      cases hitem
      exact Invocation.make_built hmake

end Parse

/-! ## Accepted files -/

/-- A file that is accepted has sides that the program can handle. -/
def Moderate (bytes : Bytes) : Prop := Accepted bytes → fileWidth bytes ≤ maxWidth ∧ fileHeight bytes < 2 ^ 31

section Accepted

theorem content_of_pathCheck {path : Bytes} (h : pathCheck disk.paths path = .ok ()) :
    ∃ bytes, disk.content (disk.file path) = some bytes := by
  cases hbytes : disk.content (disk.file path) with
  | some bytes => exact ⟨bytes, rfl⟩
  | none =>
    exfalso
    unfold pathCheck at h
    split at h
    case isTrue => cases h
    case isFalse => simp [Disk.paths, hbytes] at h

omit [LinearOrder F] [FloorRing F] in
/-- So the sides that are read are such. -/
theorem sides_accepted {fs : FileSystem} {path bytes : Bytes} {img : Image F} {buffer buffer' : Grid (Pixel F)}
    (hfile : fs.content path = some bytes) (hmoderate : Moderate bytes)
    (hread : readFile fs path buffer = some (.ok (img, buffer'))) :
    img.width.toNat ≤ maxWidth ∧ img.height.toNat < 2 ^ 31 := by
  obtain ⟨hwidth, hheight⟩ := readFile_headers hfile hread
  rw [← hwidth, ← hheight]
  exact hmoderate (accepted_of_ok hfile hread)

variable [IsStrictOrderedRing F]

/-- The filters of an accepted file keep its shape and what the reader has checked. -/
theorem filters_accepted {fs : FileSystem} {path bytes : Bytes} {img : Image F} {buffer : Grid (Pixel F)}
    {filters : List (Filter F)} {p : Process F} {e : Option Exn} (hfile : fs.content path = some bytes)
    (hmoderate : Moderate bytes) (hread : readFile fs path [] = some (.ok (img, buffer)))
    (hf : ∀ f ∈ filters, Admitted f) (h : applyFilters libm filters ⟨img, buffer, []⟩ = some (p, e)) :
    Shaped p ∧ p.image.width.toNat ≤ maxWidth ∧ check p.image.toFileHeader p.image.toInfoHeader = none := by
  obtain ⟨hw, hh⟩ := sides_accepted hfile hmoderate hread
  have hs : Shaped ⟨img, buffer, []⟩ := readFile_shaped hread hw hh []
  obtain ⟨q, e', hq, hsq⟩ : ∃ q e, applyFilters libm filters ⟨img, buffer, []⟩ = some (q, e) ∧ Shaped q :=
    applyFilters_shaped hs hf
  rw [h] at hq
  cases hq
  obtain ⟨rest, -, hcheck⟩ := readFile_ok hread
  refine ⟨hsq, ?_, (applyFilters_check h).trans hcheck⟩
  refine applyFilters_inv (I := fun p => p.image.width.toNat ≤ maxWidth) ?_ hw h
  intro f _ r s e hr hrs
  rw [(apply_sides hrs).2.1]
  exact (widthAfter_le [f] _).trans hr

omit [LinearOrder F] [FloorRing F] [IsStrictOrderedRing F] in
/-- What is not accepted is an exception. -/
theorem readFile_rejected {fs : FileSystem} {path bytes : Bytes} (hfile : fs.content path = some bytes)
    (hno : ¬Accepted bytes) (buffer : Grid (Pixel F)) : ∃ e, readFile fs path buffer = some (.error e) := by
  unfold readFile
  rw [hfile]
  dsimp only
  split
  case isTrue => exact ⟨_, rfl⟩
  case isFalse hlen =>
    split
    case h_1 e _ => exact ⟨e, rfl⟩
    case h_2 hcheck => exact absurd ⟨Nat.not_lt.mp hlen, hcheck⟩ hno

/-! ## Command lines of invocations -/

/-- Two paths and invocations that make these filters. -/
structure Command (argv : List Bytes) (input output : Bytes) (filters : List (Filter F)) : Prop where
  argc : 3 ≤ argv.length
  input : argv[1]? = some input
  output : argv[2]? = some output
  words : ∃ invocations : List Invocation, argv.drop 3 = invocations.flatMap Invocation.words ∧
    invocations.map Invocation.make = filters.map Except.ok

variable {input output bytes : Bytes} {filters : List (Filter F)}

omit [LinearOrder F] [FloorRing F] [IsStrictOrderedRing F] in
theorem Command.parse (hc : Command argv input output filters) {paths : Paths}
    (hpath : pathCheck paths input = .ok ()) :
    ImageProcessor.parse paths argv = some (.parser ⟨input, output, filters⟩) := by
  obtain ⟨invocations, hwords, hmake⟩ := hc.words
  obtain ⟨output', hout, hok, -⟩ := parse_loop (F := F) hc.argc hc.input hpath
  obtain rfl := Option.some.inj (hc.output.symm.trans hout)
  refine hok filters ?_
  have hitems : argv.drop 3 = (invocations.map Item.known).flatMap Item.words := by rw [hwords, flatMap_known]
  rw [parseLoop_complete hitems (made_known hmake), List.nil_append, List.flatMap_map]
  simp [List.flatMap_singleton']

omit [LinearOrder F] [FloorRing F] [IsStrictOrderedRing F] in
theorem Command.built (hc : Command argv input output filters) : ∀ f ∈ filters, Built f := by
  obtain ⟨invocations, -, hmake⟩ := hc.words
  intro f hf
  have hok : .ok f ∈ invocations.map (Invocation.make (F := F)) := by
    rw [hmake]
    exact List.mem_map_of_mem hf
  obtain ⟨i, -, hi⟩ := List.mem_map.mp hok
  exact Invocation.make_built hi

omit [FloorRing F] [IsStrictOrderedRing F] in
theorem Command.admitted (hc : Command argv input output filters)
    (hsigma : ∀ sigma, .gaussianBlur sigma ∈ filters → 4 * sigma < 2 ^ 31) : ∀ f ∈ filters, Admitted f :=
  fun f hf => ⟨hc.built f hf, fun sigma hblur => hsigma sigma (hblur ▸ hf)⟩

/-- What a command line needs to write its output. -/
structure Succeeds (disk : Disk) (input output bytes : Bytes) (filters : List (Filter F)) : Prop where
  readable : disk.readable (disk.file input) = true
  accepted : Accepted bytes
  applies : ∀ i, ¬FailsAt filters (fileHeight bytes) (fileWidth bytes) i
  opens : disk.device (disk.file output) = some none

/-- What a command line that succeeds leaves behind: a file that is read back as the image that its filters make of the
input, with the components cut to bytes. -/
def Leaves (libm : Libm F) (disk disk' : Disk) (input output : Bytes) (filters : List (Filter F)) : Prop :=
  ∃ (img : Image F) (buffer : Grid (Pixel F)) (p : Process F) (file : OFStream),
    readFile disk.fileSystem input [] = some (.ok (img, buffer)) ∧
    applyFilters libm filters ⟨img, buffer, []⟩ = some (p, none) ∧ disk' = disk.store output file.written ∧
    ∀ (fs : FileSystem) (path : Bytes) (buffer : Grid (Pixel F)), fs.content path = some file.written → ∃ buffer',
      readFile fs path buffer = some (.ok ({ p.image with pixels := p.image.pixels.map Pixel.quantize }, buffer'))

/-- A command line that is parsed and succeeds. -/
theorem main_succeeds (libm : Libm F) (hparse : parse disk.paths argv = some (.parser ⟨input, output, filters⟩))
    (hadmitted : ∀ f ∈ filters, Admitted f) (hbytes : disk.content (disk.file input) = some bytes) (hmoderate : Moderate bytes)
    (hs : Succeeds disk input output bytes filters) :
    ∃ disk', main libm argv disk = some ⟨disk', "", none⟩ ∧ Leaves libm disk disk' input output filters := by
  have hfile : disk.fileSystem.content input = some bytes := (if_pos hs.readable).trans hbytes
  obtain ⟨hw, hh⟩ := hmoderate hs.accepted
  obtain ⟨img, buffer, hread⟩ := readFile_readable (F := F) hfile ⟨hs.accepted.length, hs.accepted.check, hw⟩ []
  obtain ⟨hwidth, hheight⟩ := readFile_headers hfile hread
  have happlies := hs.applies
  rw [hwidth] at hw happlies
  rw [hheight] at hh happlies
  have hshaped : Shaped ⟨img, buffer, []⟩ := readFile_shaped hread hw hh []
  obtain ⟨p, hp⟩ := applyFilters_returns libm hshaped hadmitted happlies
  obtain ⟨hsp, hpw, hcheck⟩ := filters_accepted hfile hmoderate hread hadmitted hp
  have hunit := (applyFilters_all unit_kept hshaped (readFile_unit hread hw) hp).2
  have hopens : disk.fileSystem.device output = some none := hs.opens
  obtain ⟨file, hwrite, -, hback⟩ := read_written hcheck hpw hsp.pixels (fun row col px hpx => hunit.get hpx) hopens
  refine ⟨disk.store output file.written, ?_, img, buffer, p, file, hread, hp, rfl, hback⟩
  simp only [main, hparse, hread, hp, hwrite]

/-- A command line that is parsed is run to its end: it succeeds, or an exception is caught. -/
theorem main_ends (libm : Libm F) (hparse : parse disk.paths argv = some (.parser ⟨input, output, filters⟩))
    (hadmitted : ∀ f ∈ filters, Admitted f) (hbytes : disk.content (disk.file input) = some bytes) (hmoderate : Moderate bytes)
    (hdevice : ∀ room, disk.device (disk.file output) = some room → room = none)
    (hno : ¬Succeeds disk input output bytes filters) : ∃ e, main libm argv disk = some (caught disk e) := by
  by_cases hreadable : disk.readable (disk.file input) = true
  case neg =>
    have hfile : disk.fileSystem.content input = none := if_neg hreadable
    have hread : readFile (F := F) disk.fileSystem input [] =
        some (.error (.readImage (ascii "Cannot open read file." ++ input))) := by rw [readFile, hfile]
    exact ⟨_, by simp only [main, hparse, hread]; rfl⟩
  have hfile : disk.fileSystem.content input = some bytes := (if_pos hreadable).trans hbytes
  by_cases haccepted : Accepted bytes
  case neg =>
    obtain ⟨e, he⟩ := readFile_rejected (F := F) hfile haccepted []
    exact ⟨e, by simp only [main, hparse, he]⟩
  obtain ⟨hw, hh⟩ := hmoderate haccepted
  obtain ⟨img, buffer, hread⟩ := readFile_readable (F := F) hfile ⟨haccepted.length, haccepted.check, hw⟩ []
  obtain ⟨hwidth, hheight⟩ := readFile_headers hfile hread
  have hshaped : Shaped ⟨img, buffer, []⟩ := readFile_shaped hread (hwidth ▸ hw) (hheight ▸ hh) []
  by_cases hfail : ∃ i, FailsAt filters img.height.toNat img.width.toNat i
  case pos =>
    classical
    obtain ⟨q, m, -, hq⟩ := applyFilters_throws libm hshaped hadmitted (Nat.find_spec hfail) fun j hj =>
      Nat.find_min hfail hj
    exact ⟨.applyFilter m, by simp only [main, hparse, hread, hq]⟩
  have happlies := not_exists.mp hfail
  cases hopen : disk.device (disk.file output) with
  | some room =>
    rw [hdevice room hopen] at hopen
    rw [← hheight, ← hwidth] at happlies
    exact absurd ⟨hreadable, haccepted, happlies, hopen⟩ hno
  | none =>
    obtain ⟨p, hp⟩ := applyFilters_returns libm hshaped hadmitted happlies
    have hclosed : disk.fileSystem.device output = none := hopen
    have hwrite : writeFile disk.fileSystem output p.image =
        some (.error (.writeImage (ascii "Cannot open write file."))) := by rw [writeFile, hclosed]
    exact ⟨_, by simp only [main, hparse, hread, hp, hwrite]; rfl⟩

end Accepted

/-! ### One command line -/

/-- `in.bmp` is the picture of four pixels; `out.bmp` and every other path name files that are not there yet. -/
def shelf : Disk where
  file path := if path = ascii "in.bmp" then 0 else if path = ascii "out.bmp" then 1 else 2
  content f := if f = 0 then some fourPixels else none
  special _ := false
  readable _ := true
  device _ := some none

theorem fourPixels_moderate : Moderate fourPixels := fun _ => ⟨by decide, by decide⟩

theorem negCommand : Command (paintCommand [ascii "-neg"]) (ascii "in.bmp") (ascii "out.bmp") [(.negative : Filter ℚ)] where
  argc := by decide
  input := rfl
  output := rfl
  words := ⟨[.neg], rfl, rfl⟩

theorem negCommand_succeeds :
    Succeeds shelf (ascii "in.bmp") (ascii "out.bmp") fourPixels [(.negative : Filter ℚ)] where
  readable := rfl
  accepted := ⟨fourPixels_readable.length, fourPixels_readable.check⟩
  applies := by
    rintro i ⟨f, hget, hfail⟩
    cases i with
    | zero =>
      cases hget
      exact hfail
    | succ i => cases hget
  opens := rfl

end HighLoad.ImageProcessor
