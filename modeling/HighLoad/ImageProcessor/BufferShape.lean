import HighLoad.Lib.Transition
import HighLoad.ImageProcessor.Pixels

/-!
# The static buffer over a process

A process reads images and applies filters to them in any order (`Session.step`); all share `Image::buffer`. `ReadFile`
resizes the buffer to the new height, but gives only the rows it adds the new width. So a read leaves the buffer in the
shape of its image exactly when the rows that stay have that width already (`readFile_shape_iff`), and all reads of a
run do so exactly when each finds such rows (`reads_establish_iff`).
-/

namespace HighLoad.ImageProcessor

open ByteString Transition

variable {F : Type} [Field F]

/-! ## Processes -/

/-- The images of a process, and its static members. -/
structure Session (F : Type) where
  images : List (Image F)
  buffer : Grid (Pixel F)
  matrix : Matrix F

def Session.start : Session F := ⟨[], [], []⟩

/-- A read, of whatever is found at the path then, or a filter on one of the images. -/
inductive Call (F : Type) where
  | read (fs : FileSystem) (path : Bytes)
  | apply (i : Nat) (filter : Filter F)

/-- An exception ends the call only; a call that leaves a vector ends the process. -/
def Session.step [LinearOrder F] [FloorRing F] (libm : Libm F) (s : Session F) : Call F → Option (Session F)
  | .read fs path => (readFile fs path s.buffer).map fun
    | .error _ => s
    | .ok (img, buffer) => { s with images := s.images ++ [img], buffer }
  | .apply i filter => (s.images[i]?).bind fun img => (filter.apply libm ⟨img, s.buffer, s.matrix⟩).map fun (p, _) =>
    ⟨s.images.set i p.image, p.buffer, p.matrix⟩

/-! ## One read -/

section Read

variable {fs : FileSystem} {path bytes : Bytes} {img : Image F} {buffer buffer' : Grid (Pixel F)}

/-- **After a read** the buffer has the shape of the image exactly when the rows that stay have its width. -/
theorem readFile_shape_iff (hok : readFile fs path buffer = some (.ok (img, buffer'))) :
    Grid.Shape img.height.toNat img.width.toNat buffer' ↔
      ∀ row ∈ buffer.take img.height.toNat, row.length = img.width.toNat := by
  rw [(readFile_resizes hok).2]
  exact Grid.shape_resize_iff _ _ _ _

/-- A file that the reader accepts. -/
structure Accepted (bytes : Bytes) : Prop where
  length : 54 ≤ bytes.length
  check : check (readHeaders bytes).1 (readHeaders bytes).2.1 = none

theorem accepted_of_ok (hfile : fs.content path = some bytes)
    (hok : readFile fs path buffer = some (.ok (img, buffer'))) : Accepted bytes := by
  obtain ⟨rest, hbytes, hcheck⟩ := readFile_ok hok
  obtain rfl := Option.some.inj (hfile.symm.trans hbytes)
  refine ⟨?_, ?_⟩
  · rw [length_file]
    omega
  · rw [readHeaders_file]
    exact hcheck

theorem readFile_accepted (hfile : fs.content path = some bytes) (hacc : Accepted bytes) (buffer : Grid (Pixel F))
    (e : Exn) : readFile fs path buffer ≠ some (.error e) := by
  intro hthrow
  obtain ⟨file, info, rest, rfl⟩ := exists_headers bytes hacc.length
  have hlen : ¬(file.bytes ++ (info.bytes ++ rest)).length < 54 := Nat.not_lt.mpr hacc.length
  have hcheck := hacc.check
  rw [readHeaders_file] at hcheck
  simp only [readFile, hfile, if_neg hlen, readHeaders_file, hcheck] at hthrow
  obtain ⟨px, -, hok⟩ := Option.map_eq_some_iff.mp hthrow
  cases hok

/-- With the shape established, the filters on the new image stay within it and the buffer. -/
theorem readFile_established (hok : readFile fs path buffer = some (.ok (img, buffer')))
    (hshape : Grid.Shape img.height.toNat img.width.toNat buffer') (hw : img.width.toNat ≤ maxWidth)
    (hh : img.height.toNat < 2 ^ 31) (matrix : Matrix F) : Shaped ⟨img, buffer', matrix⟩ := by
  obtain ⟨rest, hfile, hcheck⟩ := readFile_ok hok
  obtain ⟨px, hread, hpx, -⟩ := readFile_file hfile hcheck hw buffer
  rw [hok, Option.some.injEq, Except.ok.injEq, Prod.mk.injEq] at hread
  have hpixels : img.pixels = px := by rw [hread.1]
  refine ⟨?_, hshape, hh, ?_⟩
  · rw [hpixels]
    exact hpx
  · unfold maxWidth at hw
    show img.width.toNat < 2 ^ 31
    omega

/-- Without it they can leave the buffer: `Multiply` needs every cell of the new image in it. -/
theorem multiply_reaches [LinearOrder F] {p q : Process F} {matrix : Matrix F} (h : p.multiply matrix = some q)
    (hh : p.image.height.toNat < 2 ^ 31) (hw : p.image.width.toNat < 2 ^ 31) {row col : Nat}
    (hrow : row < p.image.height.toNat) (hcol : col < p.image.width.toNat) : (p.buffer.get row col).isSome := by
  obtain ⟨midRow, midCol, px, hsweep, -⟩ := multiply_some h
  rw [wrap32_side hh, wrap32_side hw] at hsweep
  exact Grid.sweep_isSome hsweep row col hrow hcol

end Read

/-! ## Runs -/

/-- A read, if it returns an image, leaves the buffer in its shape. -/
def Establishes (s : Session F) : Call F → Prop
  | .read fs path => ∀ img buffer, readFile fs path s.buffer = some (.ok (img, buffer)) →
    Grid.Shape img.height.toNat img.width.toNat buffer
  | .apply _ _ => True

/-- The rows of the buffer that an accepted file keeps have its width. -/
def BufferFits (s : Session F) : Call F → Prop
  | .read fs path => ∀ bytes, fs.content path = some bytes → Accepted bytes →
    ∀ row ∈ s.buffer.take (fileHeight bytes), row.length = fileWidth bytes
  | .apply _ _ => True

variable [LinearOrder F] [FloorRing F] {libm : Libm F} {s t : Session F} {call : Call F} {calls : List (Call F)}

theorem establishes_iff (h : Session.step libm s call = some t) : Establishes s call ↔ BufferFits s call := by
  cases call with
  | apply i filter => exact Iff.rfl
  | read fs path =>
    obtain ⟨result, hread, -⟩ := Option.map_eq_some_iff.mp h
    unfold Establishes BufferFits
    constructor
    · intro hest bytes hfile hacc
      cases result with
      | error e => exact absurd hread (readFile_accepted hfile hacc s.buffer e)
      | ok r =>
        obtain ⟨img, buffer⟩ := r
        obtain ⟨hwidth, hheight⟩ := readFile_headers hfile hread
        rw [hwidth, hheight]
        exact (readFile_shape_iff hread).mp (hest img buffer hread)
    · intro hfits img buffer hok
      obtain ⟨rest, hfile, -⟩ := readFile_ok hok
      obtain ⟨hwidth, hheight⟩ := readFile_headers hfile hok
      have hrows := hfits _ hfile (accepted_of_ok hfile hok)
      rw [hwidth, hheight] at hrows
      exact (readFile_shape_iff hok).mpr hrows

/-- **In every run the reads leave the buffer in the shape of their images exactly when each finds rows that fit.** -/
theorem reads_establish_iff (h : run (Session.step libm) Session.start calls = some s) :
    Meets (Session.step libm) Establishes Session.start calls ↔
      Meets (Session.step libm) BufferFits Session.start calls :=
  meets_congr (fun _ _ _ hs => establishes_iff hs) h

/-! ## Two pictures -/

/-- A complete picture of two pixels in a row. -/
def twoPixels : Bytes := sampleHeaders 54 2 1 ++ [3, 2, 1, 6, 5, 4, 0, 0]

/-- A picture, read. -/
theorem read_step {bytes : Bytes} (hb : Readable bytes) (libm : Libm F) (s : Session F) :
    ∃ (img : Image F) (t : Session F),
    Session.step libm s (.read (FileSystem.holding bytes) []) = some t ∧ t.images = s.images ++ [img] ∧
      img.height.toNat = fileHeight bytes ∧ img.width.toNat = fileWidth bytes ∧
      t.buffer = Grid.resize s.buffer (fileHeight bytes) (List.replicate (fileWidth bytes) Pixel.zero) := by
  have hfile : (FileSystem.holding bytes).content [] = some bytes := rfl
  obtain ⟨img, buffer, hok⟩ := readFile_readable hfile hb s.buffer
  obtain ⟨hwidth, hheight⟩ := readFile_headers hfile hok
  refine ⟨img, { s with images := s.images ++ [img], buffer }, ?_, rfl, hheight.symm, hwidth.symm, ?_⟩
  · rw [Session.step, hok, Option.map_some]
  · rw [hheight, hwidth]
    exact (readFile_resizes hok).2

/-- The same picture twice. -/
theorem samePicture_established : ∃ s : Session ℚ,
    run (Session.step noLibm) Session.start
      [.read (FileSystem.holding onePixel) [], .read (FileSystem.holding onePixel) []] = some s ∧
    Meets (Session.step noLibm) Establishes Session.start
      [.read (FileSystem.holding onePixel) [], .read (FileSystem.holding onePixel) []] := by
  obtain ⟨img, s, hs, -, -, -, hbuffer⟩ := read_step onePixel_readable noLibm Session.start
  obtain ⟨img', t, ht, -⟩ := read_step onePixel_readable noLibm s
  have hrun : run (Session.step noLibm) Session.start
      [.read (FileSystem.holding onePixel) [], .read (FileSystem.holding onePixel) []] = some t :=
    run_cons.mpr ⟨s, hs, run_cons.mpr ⟨t, ht, rfl⟩⟩
  refine ⟨t, hrun, (reads_establish_iff hrun).mpr ⟨?_, fun s' hs' => ⟨?_, fun _ _ => trivial⟩⟩⟩
  · intro bytes _ _ row hrow
    cases List.mem_of_mem_take hrow
  · intro bytes hbytes _ row hrow
    obtain rfl := Option.some.inj (hs.symm.trans hs')
    obtain rfl := Option.some.inj hbytes
    rw [hbuffer] at hrow
    have hrow' := List.mem_of_mem_take hrow
    rw [Session.start, Grid.resize_nil] at hrow'
    rw [List.eq_of_mem_replicate hrow', List.length_replicate]

/-- A picture of one pixel, and then one of two pixels in a row: the buffer has one pixel, and sharpening the second
picture leaves it. -/
theorem widerPicture_fails : ∃ (img₁ img₂ : Image ℚ) (s : Session ℚ),
    run (Session.step noLibm) Session.start
      [.read (FileSystem.holding onePixel) [], .read (FileSystem.holding twoPixels) []] = some s ∧
    s.images = [img₁, img₂] ∧ ¬Grid.Shape img₂.height.toNat img₂.width.toNat s.buffer ∧
    Session.step noLibm s (.apply 1 .sharpening) = none := by
  obtain ⟨img₁, s, hs, himgs, -, -, hbuffer⟩ := read_step onePixel_readable noLibm Session.start
  have htwo : Readable twoPixels := ⟨by decide, by decide, by decide⟩
  obtain ⟨img₂, t, ht, himgt, hheight, hwidth, hbuffer'⟩ := read_step htwo noLibm s
  have hone : t.buffer = [[Pixel.zero]] := by
    rw [hbuffer', hbuffer]
    rfl
  refine ⟨img₁, img₂, t, run_cons.mpr ⟨s, hs, run_cons.mpr ⟨t, ht, rfl⟩⟩, ?_, ?_, ?_⟩
  · rw [himgt, himgs]
    rfl
  · intro hshape
    have hlen := hshape.row [Pixel.zero] (by rw [hone]; exact List.mem_cons_self)
    rw [hwidth] at hlen
    exact absurd hlen (by decide)
  · have himg : t.images[1]? = some img₂ := by
      rw [himgt, himgs]
      rfl
    rw [Session.step, himg, Option.bind_some, Filter.apply, Option.map_map]
    refine Option.map_eq_none_iff.mpr (Option.eq_none_iff_forall_ne_some.mpr fun q hq => ?_)
    have hfirst : 0 < img₂.height.toNat := by rw [hheight]; decide
    have hsecond : 1 < img₂.width.toNat := by rw [hwidth]; decide
    have hcell := multiply_reaches hq (by rw [hheight]; decide) (by rw [hwidth]; decide) hfirst hsecond
    rw [hone] at hcell
    cases hcell

end HighLoad.ImageProcessor
