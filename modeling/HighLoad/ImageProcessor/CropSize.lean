import HighLoad.ImageProcessor.FileSize
import HighLoad.ImageProcessor.NormalForm

/-!
# Sides and image size after a crop

The fabric hands an `int` over to the `int16_t` sides of a crop. Per side, the requested value narrowed in this way
decides what is cut (`sideAfter`), and the crop has the requested effect exactly on the values and sides of `Fits`
(`crop_fits_iff`).

`image_size` is computed in `int` from the requested sides. It is that of the cropped picture exactly when the crop asks
for no more rows and no longer padded rows than there are and the product is below `2 ^ 31` (`crop_imageSize_iff`).
-/

namespace HighLoad.ImageProcessor

open ByteString

variable {F : Type} {p q : Process F} {width height : Int16}

/-! ## One side -/

/-- The side that is left of one; `none` when the vector would be resized to a negative size. -/
def sideAfter (n : Int16) (side : Nat) : Option Nat := if toU32 n.toInt < side then vectorSize n.toInt else some side

theorem cropHeight_side (height : Int16) (p : Process F) :
    (cropHeight height p).map (·.image.height.toNat) = sideAfter height p.image.height.toNat := by
  unfold cropHeight sideAfter
  split
  case isTrue hlt =>
    rw [Option.map_map]
    cases hn : vectorSize height.toInt with
    | none => rfl
    | some n =>
      rw [← vectorSize_some hn] at hlt
      show some (UInt32.ofNat n).toNat = some n
      rw [UInt32.toNat_ofNat_of_lt' (hlt.trans p.image.height.toNat_lt)]
  case isFalse => rfl

/-- The values for which an `int16_t` side does what the value asks of a side: those that an `int16_t` holds, those
whose narrowed value is not less than the side, and those narrowed to a negative one, which cuts nothing off a side that
the value would leave as well. -/
def Fits (value side : Nat) : Prop :=
  value ≤ 32767 ∨ side ≤ value % 65536 ∨ 32768 ≤ value % 65536 ∧ side ≤ value

instance (value side : Nat) : Decidable (Fits value side) := by
  unfold Fits
  infer_instance

/-- The conversions `int` to `int16_t` to `uint32_t`. -/
theorem toInt_narrow (value : Nat) : (Int16.ofInt value).toInt =
    if value % 65536 < 32768 then ((value % 65536 : Nat) : Int) else (value % 65536 : Nat) - 65536 := by
  have hsize : Int16.size = 65536 := rfl
  rw [Int16.toInt_ofInt, hsize]
  unfold Int.bmod
  dsimp only
  split
  · split
    · omega
    · omega
  · split
    · omega
    · omega

/-- **A side after a crop to a value** is the smaller of the two exactly where the value fits. -/
theorem sideAfter_iff {value side : Nat} (hvalue : value ≤ 999999999) :
    sideAfter (Int16.ofInt value) side = some (min value side) ↔ Fits value side := by
  unfold sideAfter vectorSize toU32 Fits
  rw [toInt_narrow]
  generalize hr : value % 65536 = r
  have hle : r ≤ value := hr ▸ Nat.mod_le value 65536
  have hself : value ≤ 32767 → r = value := fun h => by omega
  split
  case isTrue hlow =>
    have hcast : ((r : Int) % 2 ^ 32).toNat = r := by omega
    have hpos : 0 ≤ (r : Int) := by omega
    rw [hcast, if_pos hpos]
    split
    case isTrue hlt =>
      rw [Int.toNat_natCast, Option.some.injEq]
      omega
    case isFalse hge =>
      rw [Option.some.injEq]
      omega
  case isFalse hhigh =>
    have hr' : r < 65536 := hr ▸ Nat.mod_lt value (by decide)
    have hneg : ¬0 ≤ (r : Int) - 65536 := by omega
    rw [if_neg hneg]
    split
    case isTrue hlt =>
      have hfalse : ¬(value ≤ 32767 ∨ side ≤ r ∨ 32768 ≤ r ∧ side ≤ value) := by omega
      exact iff_of_false (fun h => by cases h) hfalse
    case isFalse hge =>
      rw [Option.some.injEq]
      omega

variable [Field F]

theorem cropWidth_side (width : Int16) (p : Process F) :
    (cropWidth width p).map (·.image.width.toNat) = sideAfter width p.image.width.toNat := by
  unfold cropWidth sideAfter
  split
  case isTrue hlt =>
    rw [Option.map_map]
    cases hn : vectorSize width.toInt with
    | none => rfl
    | some n =>
      rw [← vectorSize_some hn] at hlt
      show some (UInt32.ofNat n).toNat = some n
      rw [UInt32.toNat_ofNat_of_lt' (hlt.trans p.image.width.toNat_lt)]
  case isFalse => rfl

/-! ## Both sides -/

/-- A crop returns when both sides can be resized. -/
theorem crop_sides {h w : Nat} : (∃ q, crop width height p = some q ∧ q.image.height.toNat = h ∧
    q.image.width.toNat = w) ↔ sideAfter height p.image.height.toNat = some h ∧
      sideAfter width p.image.width.toNat = some w := by
  rw [← cropHeight_side, ← cropWidth_side]
  constructor
  · rintro ⟨q, hq, hh, hw⟩
    obtain ⟨p₁, h₁, hq⟩ := Option.bind_eq_some_iff.mp hq
    obtain ⟨p₂, h₂, rfl⟩ := Option.map_eq_some_iff.mp hq
    obtain ⟨-, hw₁, -⟩ := cropHeight_some h₁
    obtain ⟨-, hh₂, -⟩ := cropWidth_some h₂
    rw [cropWidth_side, ← hw₁, ← cropWidth_side, h₁, h₂]
    exact ⟨congrArg some ((congrArg UInt32.toNat hh₂).symm.trans hh), congrArg some hw⟩
  · rintro ⟨hh, hw⟩
    obtain ⟨p₁, h₁, hh⟩ := Option.map_eq_some_iff.mp hh
    obtain ⟨-, hw₁, -⟩ := cropHeight_some h₁
    rw [cropWidth_side, ← hw₁, ← cropWidth_side] at hw
    obtain ⟨p₂, h₂, hw⟩ := Option.map_eq_some_iff.mp hw
    obtain ⟨-, hh₂, -⟩ := cropWidth_some h₂
    refine ⟨{ p₂ with image := { p₂.image with imageSize := UInt32.ofNat (toU32 (cropImageSize width height)) } },
      by rw [crop, h₁, Option.bind_some, h₂, Option.map_some], ?_, hw⟩
    show p₂.image.height.toNat = h
    rw [hh₂, hh]

/-- The picture that a crop to `h` rows and `w` columns should leave of `p`. -/
structure Cropped (h w : Nat) (p q : Process F) : Prop where
  height : q.image.height.toNat = min h p.image.height.toNat
  width : q.image.width.toNat = min w p.image.width.toNat
  cell : ∀ row col, row < q.image.height.toNat → col < q.image.width.toNat →
    ∃ px, q.image.pixels.get row col = some px ∧ p.image.pixels.get row col = some px

variable [LinearOrder F] [FloorRing F] {f : Filter F} {width height : Bytes}

/-- **A crop from the command line yields the requested size exactly when both values fit.** -/
theorem crop_fits_iff (libm : Libm F) (hmake : CropFabric.make width height = .ok f)
    (hpx : Grid.Shape p.image.height.toNat p.image.width.toNat p.image.pixels) :
    (1 ≤ digitsValue width ∧ digitsValue width ≤ 999999999) ∧
      (1 ≤ digitsValue height ∧ digitsValue height ≤ 999999999) ∧
      ((∃ q, f.apply libm p = some (q, none) ∧ Cropped (digitsValue height) (digitsValue width) p q) ↔
        Fits (digitsValue height) p.image.height.toNat ∧ Fits (digitsValue width) p.image.width.toNat) := by
  obtain ⟨⟨hwi, hwn⟩, ⟨hhi, hhn⟩, rfl⟩ := CropFabric.make_ok hmake
  obtain ⟨hw, hwpos, hwle⟩ := positive_ok hwi hwn
  obtain ⟨hh, hhpos, hhle⟩ := positive_ok hhi hhn
  refine ⟨⟨hwpos, hwle⟩, ⟨hhpos, hhle⟩, ?_⟩
  rw [hw, hh, ← sideAfter_iff hhle, ← sideAfter_iff hwle, ← crop_sides]
  constructor
  · rintro ⟨q, hq, hc⟩
    obtain ⟨hq, -⟩ := map_none_some hq
    exact ⟨q, hq, hc.height, hc.width⟩
  · rintro ⟨q, hq, hheight, hwidth⟩
    have hcuts := crop_some_cuts hpx hq
    refine ⟨q, by rw [Filter.apply, hq, Option.map_some], hheight, hwidth, fun row col hrow hcol => ?_⟩
    obtain ⟨px, hget⟩ := hcuts.shape.get hrow hcol
    have hcell := hcuts.cell row col hrow hcol
    rw [Option.map_id_apply] at hcell
    exact ⟨px, hget, hcell ▸ hget⟩

theorem twoPixels_cropped : ∃ q, Filter.apply noLibm (.crop 1 1) (oneRow 2 ⟨1, 0, 0⟩ ⟨0, 0, 1⟩) = some (q, none) ∧
    Cropped (digitsValue (ascii "1")) (digitsValue (ascii "1")) (oneRow 2 ⟨1, 0, 0⟩ ⟨0, 0, 1⟩) q := by
  have hmake : CropFabric.make (ascii "1") (ascii "1") = .ok (.crop 1 1 : Filter ℚ) := rfl
  have hs : Shaped (oneRow 2 ⟨1, 0, 0⟩ ⟨0, 0, 1⟩) := oneRow_shaped (by decide) _ _
  exact (crop_fits_iff noLibm hmake hs.pixels).2.2.mpr ⟨by decide, by decide⟩

/-- `-crop 65537 1` cuts two columns to one. -/
theorem twoPixels_narrowed : ∃ (f : Filter ℚ) (p : Process ℚ), CropFabric.make (ascii "65537") (ascii "1") = .ok f ∧
    Grid.Shape p.image.height.toNat p.image.width.toNat p.image.pixels ∧
    Grid.Shape p.image.height.toNat p.image.width.toNat p.buffer ∧
    ¬∃ q, f.apply noLibm p = some (q, none) ∧ Cropped (digitsValue (ascii "1")) (digitsValue (ascii "65537")) p q := by
  refine ⟨.crop 1 1, oneRow 2 ⟨1, 0, 0⟩ ⟨0, 0, 1⟩, rfl, Grid.shape_replicate _ _ _, Grid.shape_replicate _ _ _, ?_⟩
  rintro ⟨q, hq, hc⟩
  rw [Filter.apply] at hq
  obtain ⟨hq, -⟩ := map_none_some hq
  obtain ⟨-, hwidth, -⟩ := crop_some hq
  have hone : q.image.width.toNat = 1 := hwidth
  have htwo : q.image.width.toNat = 2 := hc.width.trans (by decide)
  omega

/-! ## `image_size` -/

section ImageSize

variable {width height : Int16}

omit [LinearOrder F] [FloorRing F] in
theorem crop_imageSize (h : crop width height p = some q) :
    q.image.imageSize.toNat = toU32 (cropImageSize width height) := by
  obtain ⟨p₁, -, h⟩ := Option.bind_eq_some_iff.mp h
  obtain ⟨p₂, -, rfl⟩ := Option.map_eq_some_iff.mp h
  refine UInt32.toNat_ofNat_of_lt' ?_
  have hsize : UInt32.size = 2 ^ 32 := rfl
  unfold toU32
  omega

/-- No step of `height_ * ((width_ * 3 + 3) / 4 * 4)` overflows. -/
structure CropArithmetic (width height : Int16) : Prop where
  triple : InInt (width.toInt * 3)
  sum : InInt (width.toInt * 3 + 3)
  quotient : InInt ((width.toInt * 3 + 3).tdiv 4)
  row : InInt ((width.toInt * 3 + 3).tdiv 4 * 4)
  product : InInt (cropImageSize width height)

theorem tdiv_stride {w : Nat} : ((w : Int) * 3 + 3).tdiv 4 * 4 = (stride w : Nat) := by
  rw [Int.tdiv_eq_ediv_of_nonneg (by omega)]
  unfold stride
  omega

theorem cropImageSize_eq {w h : Nat} (hw : width.toInt = w) (hh : height.toInt = h) :
    cropImageSize width height = (h * stride w : Nat) := by
  rw [cropImageSize, hw, hh, tdiv_stride, Nat.cast_mul]

theorem cropArithmetic_iff {w h : Nat} (hw : width.toInt = w) (hh : height.toInt = h) :
    CropArithmetic width height ↔ h * stride w < 2 ^ 31 := by
  have hlt := width.toInt_lt
  constructor
  · intro ha
    have hproduct := ha.product.2
    rw [cropImageSize_eq hw hh] at hproduct
    omega
  · intro hlow
    have hquot : ((w : Int) * 3 + 3).tdiv 4 = ((w : Int) * 3 + 3) / 4 := Int.tdiv_eq_ediv_of_nonneg (by omega)
    refine ⟨?_, ?_, ?_, ?_, ?_⟩
    · rw [hw]
      constructor <;> omega
    · rw [hw]
      constructor <;> omega
    · rw [hw, hquot]
      constructor <;> omega
    · rw [hw, hquot]
      constructor <;> omega
    · rw [cropImageSize_eq hw hh]
      constructor <;> omega

omit [LinearOrder F] [FloorRing F] in
/-- **`image_size` stays consistent exactly** for crops to no more rows and no longer padded rows than there are, whose
size is an `int`. -/
theorem crop_imageSize_iff (hpx : Grid.Shape p.image.height.toNat p.image.width.toNat p.image.pixels)
    (hw : 1 ≤ width.toInt) (hh : 1 ≤ height.toInt) :
    (∃ q, crop width height p = some q ∧ CropArithmetic width height ∧
      q.image.imageSize.toNat = q.image.height.toNat * stride q.image.width.toNat) ↔
      height.toInt.toNat ≤ p.image.height.toNat ∧
        stride width.toInt.toNat ≤ stride p.image.width.toNat ∧
        height.toInt.toNat * stride width.toInt.toNat < 2 ^ 31 := by
  obtain ⟨w, hwi⟩ : ∃ w : Nat, width.toInt = w := ⟨width.toInt.toNat, by omega⟩
  obtain ⟨h, hhi⟩ : ∃ h : Nat, height.toInt = h := ⟨height.toInt.toNat, by omega⟩
  have hwlt := width.toInt_lt
  have hhlt := height.toInt_lt
  obtain ⟨q, hq, -⟩ := crop_cuts hpx hw hh
  obtain ⟨hqh, hqw, -⟩ := crop_some hq
  have hsize := crop_imageSize hq
  rw [cropImageSize_eq hwi hhi] at hsize
  rw [toU32_pos hh, hhi, Int.toNat_natCast] at hqh
  rw [toU32_pos hw, hwi, Int.toNat_natCast] at hqw
  have hmono : stride q.image.width.toNat ≤ stride w := stride_mono (hqw ▸ Nat.min_le_right _ _)
  have hstride : stride q.image.width.toNat = stride w ↔ stride w ≤ stride p.image.width.toNat := by
    rw [hqw, stride_mono.map_min]
    exact min_eq_right_iff
  have hheight : q.image.height.toNat = h ↔ h ≤ p.image.height.toNat := by
    rw [hqh]
    exact min_eq_right_iff
  -- the size is that of the requested sides, so both sides have to be left as requested
  have hsides : h * stride w = q.image.height.toNat * stride q.image.width.toNat ↔
      h ≤ p.image.height.toNat ∧ stride w ≤ stride p.image.width.toNat := by
    rw [mul_eq_mul_iff_of_le (hqh ▸ Nat.min_le_right _ _) hmono, stride_eq_zero, hheight, hstride]
    constructor
    · rintro (h0 | h0 | hboth)
      · omega
      · omega
      · exact hboth
    · exact fun hboth => .inr (.inr hboth)
  have hsame : h * stride w < 2 ^ 31 → toU32 (h * stride w : Nat) = h * stride w := by
    intro hlow
    unfold toU32
    omega
  rw [hhi, hwi, Int.toNat_natCast, Int.toNat_natCast, ← and_assoc, ← hsides]
  constructor
  · rintro ⟨q', hq', hfits, heq⟩
    obtain rfl := Option.some.inj (hq.symm.trans hq')
    have hlow := (cropArithmetic_iff hwi hhi).mp hfits
    exact ⟨by rw [← heq, hsize, hsame hlow], hlow⟩
  · rintro ⟨heq, hlow⟩
    exact ⟨q, hq, (cropArithmetic_iff hwi hhi).mpr hlow, by rw [hsize, hsame hlow, heq]⟩

theorem twoPixels_imageSize : ∃ q, crop 1 1 (oneRow 2 ⟨1, 0, 0⟩ ⟨0, 0, 1⟩) = some q ∧ CropArithmetic 1 1 ∧
    q.image.imageSize.toNat = q.image.height.toNat * stride q.image.width.toNat := by
  have hs : Shaped (oneRow 2 ⟨1, 0, 0⟩ ⟨0, 0, 1⟩) := oneRow_shaped (by decide) _ _
  exact (crop_imageSize_iff hs.pixels (by decide) (by decide)).mpr ⟨by decide, by decide, by decide⟩

/-- One pixel, with its `image_size`. -/
def onePixelSized : Process ℚ :=
  let p := oneRow 1 ⟨1, 0, 0⟩ ⟨0, 0, 1⟩
  { p with image := { p.image with imageSize := 4 } }

/-- Cropped to two rows of two columns, one pixel has the size of two rows. -/
theorem onePixel_oversized : ∃ (p : Process ℚ) (width height : Int16),
    Grid.Shape p.image.height.toNat p.image.width.toNat p.image.pixels ∧
      Grid.Shape p.image.height.toNat p.image.width.toNat p.buffer ∧
      p.image.imageSize.toNat = p.image.height.toNat * stride p.image.width.toNat ∧
      (1 ≤ width.toInt ∧ 1 ≤ height.toInt) ∧
      ¬∃ q, crop width height p = some q ∧ CropArithmetic width height ∧
        q.image.imageSize.toNat = q.image.height.toNat * stride q.image.width.toNat := by
  refine ⟨onePixelSized, 2, 2, Grid.shape_replicate _ _ _, Grid.shape_replicate _ _ _, rfl, by decide, ?_⟩
  rintro ⟨q, hq, -, hsize⟩
  cases hq
  exact absurd hsize (by decide)

end ImageSize

end HighLoad.ImageProcessor
