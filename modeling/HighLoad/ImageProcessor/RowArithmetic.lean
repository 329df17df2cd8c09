import Mathlib.Data.Rat.Floor
import HighLoad.ImageProcessor.Writer

/-!
# Row arithmetic

`ReadPixels` and `WritePixels` compute the size of a row in `uint32_t` and the index of a byte in `int`, and `Check`
bounds neither side of an image. `RowSafe` says that this arithmetic neither wraps nor leaves the row buffer. It holds
up to a width of 715827882 and for no greater one, and is just what the two functions need (`row_arithmetic_iff`).
-/

namespace HighLoad.ImageProcessor

open ByteString Loop

/-- The size of a row does not wrap, no offset overflows, and every index is within the row buffer. -/
structure RowSafe (width : UInt32) : Prop where
  line : (lineSize width).toNat = width.toNat * 3
  index : ∀ col k, col < width.toNat → k < 3 →
    ∃ pos, offset col = some pos ∧ pos + k < 2 ^ 31 ∧ pos + k < bufferSize width

theorem rowSafe_iff (width : UInt32) : RowSafe width ↔ width.toNat ≤ maxWidth := by
  constructor
  · intro h
    refine Nat.not_lt.mp fun hlt => ?_
    obtain ⟨pos, hpos, hint, -⟩ := h.index maxWidth 2 hlt (by decide)
    obtain rfl := Option.some.inj (Option.ite_none_right_eq_some.mp hpos).2
    unfold maxWidth at hint
    omega
  · intro hw
    refine ⟨lineSize_eq hw, fun col k hcol hk => ⟨col * 3, offset_eq hw hcol, ?_, ?_⟩⟩
    · unfold maxWidth at hw
      omega
    · have hs := le_stride width.toNat
      rw [bufferSize_eq hw]
      omega

/-- The first column whose last byte no `int` can index. -/
theorem pixelOffset_maxWidth : pixelOffset maxWidth = none := by decide

variable {F : Type} [Field F] {info : InfoHeader} {pixels : Grid (Pixel F)}

/-! ## Reading -/

theorem readPixels_wide (hheight : 1 ≤ info.height.toNat) (hw : maxWidth < info.width.toNat) (file : IFStream)
    (pixels : Grid (Pixel F)) : readPixels file info pixels = none := by
  have hrow : ∀ s, (readRow info 0 s : Option (IFStream × Bytes × Grid (Pixel F))) = none := by
    intro s
    refine Option.map_eq_none_iff.mpr (upTo_none hw fun g => ?_)
    refine Option.bind_eq_none_iff.mpr fun px _ => ?_
    show (decodePixel _ maxWidth).bind _ = none
    rw [decodePixel, pixelOffset_maxWidth, Option.bind_none, Option.bind_none]
  rw [readPixels, upTo_none hheight hrow]
  rfl

/-- Reading is safe exactly when the row arithmetic is. -/
theorem readPixels_isSome_iff (hheight : 1 ≤ info.height.toNat)
    (hpx : Grid.Shape info.height.toNat info.width.toNat pixels) (file : IFStream) :
    (∃ px, readPixels file info pixels = some px) ↔ RowSafe info.width := by
  rw [rowSafe_iff]
  constructor
  · rintro ⟨px, hread⟩
    refine Nat.not_lt.mp fun hw => ?_
    rw [readPixels_wide hheight hw file pixels] at hread
    cases hread
  · intro hw
    obtain ⟨px, hread, -⟩ := readPixels_spec hw hpx file
    exact ⟨px, hread⟩

/-! ## Writing -/

variable [LinearOrder F] [FloorRing F]

theorem writePixels_wide (hheight : 1 ≤ info.height.toNat) (hw : maxWidth < info.width.toNat) (file : OFStream)
    (pixels : Grid (Pixel F)) : writePixels file info pixels = none := by
  have hrow : ∀ s, writeRow info pixels 0 s = none := by
    intro s
    refine Option.map_eq_none_iff.mpr (upTo_none hw fun buffer => ?_)
    rw [encodePixel, pixelOffset_maxWidth, Option.bind_none]
  rw [writePixels, upTo_none hheight hrow]
  rfl

/-- Writing is safe exactly when the row arithmetic is. -/
theorem writePixels_isSome_iff (hheight : 1 ≤ info.height.toNat)
    (hpx : Grid.Shape info.height.toNat info.width.toNat pixels) (file : OFStream) :
    (∃ file', writePixels file info pixels = some file') ↔ RowSafe info.width := by
  rw [rowSafe_iff]
  constructor
  · rintro ⟨file', hwrite⟩
    refine Nat.not_lt.mp fun hw => ?_
    rw [writePixels_wide hheight hw file pixels] at hwrite
    cases hwrite
  · intro hw
    -- the row buffer keeps its size
    obtain ⟨s, hrun, -⟩ := upTo_rule (writeRow info pixels) (n := info.height.toNat)
      (s := (file, List.replicate (bufferSize info.width) 0)) (fun _ s => s.2.length = stride info.width.toNat)
      (by rw [List.length_replicate, bufferSize_eq hw]) fun n s hn hs => by
        obtain ⟨buffer, hcols, hlen, -⟩ := encodeRow_spec hw hpx (r := info.height.toNat - n - 1) (by omega) hs
        exact ⟨(s.1.write buffer, buffer), by rw [writeRow, hcols, Option.map_some], hlen.trans hs⟩
    exact ⟨s.1, by rw [writePixels, hrun, Option.map_some]⟩

/-- **The row arithmetic is safe exactly up to a width of 715827882**, and reading and writing need it to be. -/
theorem row_arithmetic_iff (hheight : 1 ≤ info.height.toNat)
    (hpx : Grid.Shape info.height.toNat info.width.toNat pixels) (file : IFStream) (out : OFStream) :
    (RowSafe info.width ↔ info.width.toNat ≤ maxWidth) ∧
      ((∃ px, readPixels file info pixels = some px) ↔ RowSafe info.width) ∧
      ((∃ out', writePixels out info pixels = some out') ↔ RowSafe info.width) :=
  ⟨rowSafe_iff info.width, readPixels_isSome_iff hheight hpx file, writePixels_isSome_iff hheight hpx out⟩

/-- A header that passes the check, with one row. -/
def rowHeader (width : UInt32) : InfoHeader := ⟨40, width, 1, 1, 24, 0, 0, 0, 0, 0, 0⟩

theorem twoPixels_rowSafe : RowSafe (rowHeader 2).width := by
  have hpx : Grid.Shape (rowHeader 2).height.toNat (rowHeader 2).width.toNat [[Pixel.zero, (Pixel.zero : Pixel ℚ)]] :=
    Grid.shape_replicate 1 2 Pixel.zero
  exact (row_arithmetic_iff (by decide) hpx ⟨[], false⟩ ⟨[], none, false⟩).1.mpr (by decide)

/-- With 1431655766 columns the row buffer has four bytes. -/
theorem wideRow_unsafe : ∃ (file : FileHeader) (info : InfoHeader), check file info = none ∧ 1 ≤ info.height.toNat ∧
    bufferSize info.width = 4 ∧ ¬RowSafe info.width := by
  refine ⟨⟨0x4D42, 54, 0, 0, 54⟩, rowHeader 1431655766, by decide, by decide, by decide, fun h => ?_⟩
  exact absurd h.line (by decide)

end HighLoad.ImageProcessor
