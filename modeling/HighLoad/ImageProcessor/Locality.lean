import HighLoad.ImageProcessor.Neighbours
import HighLoad.ImageProcessor.NormalForm

/-!
# Convolution and cropping

A pixel that a crop leaves at least `a` rows and `b` columns from the cut has the same neighbours before and after it:
none is beyond the cut, and the reflection at 0 of one before the image reaches no further than the pixel's own distance
(`source_cut`). So there it does not matter which of the crop and a convolution with a kernel of `2a + 1` rows and
`2b + 1` columns comes first (`crop_multiply_local`).
-/

namespace HighLoad.ImageProcessor

variable {F : Type} {p q : Process F} {matrix : Matrix F} {a b row col : Nat}

/-- On an axis cut to `side'` an index and its reflection short of the cut are as before. -/
theorem mirror_cut {side side' : Nat} {x : Int} (hle : side' ≤ side) (hhi : x < side') (hlo : -x < side') :
    mirror side' x = mirror side x := by
  unfold mirror
  by_cases hx : 0 ≤ x
  · rw [if_pos ⟨hx, hhi⟩, if_pos ⟨hx, by omega⟩]
  · rw [if_neg (by omega), if_pos (by omega), if_neg (by omega), if_pos (by omega)]

/-- The neighbours short of the cut, and where they are. -/
theorem source_cut {info info' : InfoHeader} {dRow dCol : Int} (hh : info.height.toNat < 2 ^ 31)
    (hw : info.width.toNat < 2 ^ 31) (hh' : info'.height.toNat ≤ info.height.toNat)
    (hw' : info'.width.toNat ≤ info.width.toNat) (hrow : row + a < info'.height.toNat)
    (hcol : col + b < info'.width.toNat) (hr : -a ≤ dRow ∧ dRow ≤ a) (hc : -b ≤ dCol ∧ dCol ≤ b) :
    source info' row col dRow dCol = source info row col dRow dCol := by
  rw [source_eq (by omega) (by omega) (by omega) (by omega), source_eq hh hw (by omega) (by omega)]
  unfold neighbour
  rw [mirror_cut (x := row + dRow) hh' (by omega) (by omega), mirror_cut (x := col + dCol) hw' (by omega) (by omega)]

variable [Field F]

/-- The weighted sums before and after a cut. -/
theorem windowSum_cut (hs : Shaped p) (hcuts : Cuts id p q) (hrow : row + a < q.image.height.toNat)
    (hcol : col + b < q.image.width.toNat) (ch : Channel) :
    windowSum matrix q.image.toInfoHeader q.image.pixels a b row col ch =
      windowSum matrix p.image.toInfoHeader p.image.pixels a b row col ch := by
  refine weightedSum_congr fun i j hi hj => ?_
  have hsource : source q.image.toInfoHeader row col (i - a) (j - b) =
      source p.image.toInfoHeader row col (i - a) (j - b) :=
    source_cut hs.height hs.width hcuts.height hcuts.width hrow hcol (by omega) (by omega)
  have hheight := hs.height
  have hwidth := hs.width
  have hle := hcuts.height
  have hle' := hcuts.width
  have hheight' : q.image.height.toNat < 2 ^ 31 := by omega
  have hwidth' : q.image.width.toNat < 2 ^ 31 := by omega
  have hrow' : row < q.image.height.toNat := by omega
  have hcol' : col < q.image.width.toNat := by omega
  obtain ⟨hr, hc⟩ := source_mem hheight' hwidth' hrow' hcol' (i - a) (j - b)
  obtain ⟨r, c, hplace, hr', hc'⟩ := place_nat hr hc
  rw [← hsource, hplace]
  refine congrArg (entry matrix i j * Pixel.channel · ch) (cell_congr ?_)
  rw [hcuts.cell r c hr' hc', Option.map_id_apply]

/-- A kernel that a crop has room for. -/
theorem side_odd {n : Int16} {k c : Nat} (hn : 1 ≤ n.toInt) (hc : k + c < toU32 n.toInt) : 2 * c + 1 < 2 ^ 31 := by
  have hlt := n.toInt_lt
  rw [toU32_pos hn] at hc
  omega

variable [LinearOrder F]

/-- **Convolution is local**: with sides below `2 ^ 31`, cropping first and convolving first give the same pixel
wherever the kernel stays short of the cut. -/
theorem crop_multiply_local (hs : Shaped p) (hm : Grid.Shape (2 * a + 1) (2 * b + 1) matrix) {width height : Int16}
    (hw : 1 ≤ width.toInt) (hh : 1 ≤ height.toInt) :
    ∃ p₁ q₁ p₂ q₂, crop width height p = some p₁ ∧ p₁.multiply matrix = some q₁ ∧ p.multiply matrix = some p₂ ∧
      crop width height p₂ = some q₂ ∧ ∀ row col, row + a < min height.toInt.toNat p.image.height.toNat →
        col + b < min width.toInt.toNat p.image.width.toNat →
        ∃ px, q₁.image.pixels.get row col = some px ∧ q₂.image.pixels.get row col = some px := by
  obtain ⟨p₁, hp₁, hs₁⟩ := crop_shaped hs width height
  obtain ⟨px₁, hq₁, hpx₁, hcells₁⟩ := multiply_window hs₁ hm (by omega) (by omega)
  obtain ⟨px₂, hp₂, hpx₂, hcells₂⟩ := multiply_window hs hm (by omega) (by omega)
  obtain ⟨q₂, hq₂, hsq₂⟩ := crop_shaped (hs.swapped hpx₂) width height
  refine ⟨p₁, _, _, q₂, hp₁, hq₁, hp₂, hq₂, fun row col hrow hcol => ?_⟩
  have hcuts := crop_some_cuts hs.pixels hp₁
  have hcuts₂ := crop_some_cuts (p := p.swapped px₂) hpx₂ hq₂
  obtain ⟨hh₁, hw₁, -⟩ := crop_some hp₁
  obtain ⟨hh₂, hw₂, -⟩ := crop_some hq₂
  rw [← toU32_pos hh] at hrow
  rw [← toU32_pos hw] at hcol
  -- the pixel is short of the cut of both pictures
  have hcut : row + a < p₁.image.height.toNat := by rwa [hh₁, Nat.min_comm]
  have hcut' : col + b < p₁.image.width.toNat := by rwa [hw₁, Nat.min_comm]
  have hrow₁ : row < p₁.image.height.toNat := (Nat.le_add_right row a).trans_lt hcut
  have hcol₁ : col < p₁.image.width.toNat := (Nat.le_add_right col b).trans_lt hcut'
  have hrow₂ : row < q₂.image.height.toNat := hh₂ ▸ hh₁ ▸ hrow₁
  have hcol₂ : col < q₂.image.width.toNat := hw₂ ▸ hw₁ ▸ hcol₁
  have hrow₀ : row < p.image.height.toNat := hrow₁.trans_le hcuts.height
  have hcol₀ : col < p.image.width.toNat := hcol₁.trans_le hcuts.width
  have ha : half (2 * a + 1) = a := half_odd (side_odd hh (hrow.trans_le (Nat.min_le_left _ _)))
  have hb : half (2 * b + 1) = b := half_odd (side_odd hw (hcol.trans_le (Nat.min_le_left _ _)))
  have hcell₂ := hcuts₂.cell row col hrow₂ hcol₂
  rw [Option.map_id_apply] at hcell₂
  refine ⟨cell px₁ (row, col), get_cell hpx₁ hrow₁ hcol₁, hcell₂.trans ((get_cell hpx₂ hrow₀ hcol₀).trans ?_)⟩
  refine congrArg some (Pixel.ext_channel fun ch => ?_)
  rw [hcells₁ row col ch hrow₁ hcol₁, hcells₂ row col ch hrow₀ hcol₀, ha, hb]
  exact congrArg normalize (windowSum_cut hs hcuts hcut hcut' ch).symm

/-! ## A small picture and a huge one -/

theorem smallPicture_local : ∃ p₁ q₁ p₂ q₂, crop 3 3 (uniform 4 5 ⟨1, 0, 0⟩ ⟨0, 0, 1⟩) = some p₁ ∧
    p₁.multiply sharpeningMatrix = some q₁ ∧ (uniform 4 5 ⟨1, 0, 0⟩ ⟨0, 0, 1⟩).multiply sharpeningMatrix = some p₂ ∧
    crop 3 3 p₂ = some q₂ ∧ ∀ row col, row + 1 < min (3 : Int16).toInt.toNat 4 →
      col + 1 < min (3 : Int16).toInt.toNat 5 →
      ∃ px, q₁.image.pixels.get row col = some px ∧ q₂.image.pixels.get row col = some px := by
  have hs : Shaped (uniform 4 5 ⟨1, 0, 0⟩ ⟨0, 0, 1⟩) := uniform_shaped (by decide) (by decide) _ _
  exact crop_multiply_local (a := 1) (b := 1) hs (shape_three ..) (by decide) (by decide)

/-- What is left of a picture of one colour cropped to one pixel. -/
def pixelLeft (pixel buffer : Pixel ℚ) : Process ℚ :=
  { uniform 1 1 pixel buffer with image := { (uniform 1 1 pixel buffer).image with imageSize := 4 } }

theorem pixelLeft_shaped (pixel buffer : Pixel ℚ) : Shaped (pixelLeft pixel buffer) :=
  ⟨Grid.shape_replicate 1 1 pixel, Grid.shape_replicate 1 1 buffer, Nat.one_lt_two_pow (by decide),
    Nat.one_lt_two_pow (by decide)⟩

theorem uniform_crop (pixel buffer : Pixel ℚ) :
    crop 1 1 (uniform 1 2147483648 pixel buffer) = some (pixelLeft pixel buffer) := by
  have hge : ¬toU32 (1 : Int16).toInt < (1 : UInt32).toNat := by decide
  have hheight : cropHeight 1 (uniform 1 2147483648 pixel buffer) = some (uniform 1 2147483648 pixel buffer) :=
    if_neg hge
  have hwidth : cropWidth 1 (uniform 1 2147483648 pixel buffer) = some (uniform 1 1 pixel buffer) := by
    have hsize : vectorSize (1 : Int16).toInt = some 1 := rfl
    have hlt : toU32 (1 : Int16).toInt < (2147483648 : UInt32).toNat := by decide
    have hcut : toU32 (1 : Int16).toInt < (uniform 1 2147483648 pixel buffer).image.width.toNat := hlt
    rw [cropWidth, if_pos hcut, hsize, Option.map_some]
    simp only [uniform, List.map_replicate]
    rw [Grid.resize_replicate (by decide), Grid.resize_replicate (by decide)]
    rfl
  rw [crop, hheight, Option.bind_some, hwidth, Option.map_some]
  rfl

/-- On a row of `2 ^ 31` black pixels the convolution swaps in the static buffer, blue; after the crop it does not. -/
theorem hugePicture_notLocal : ∃ (p : Process ℚ) (matrix : Matrix ℚ),
    Grid.Shape p.image.height.toNat p.image.width.toNat p.image.pixels ∧
    Grid.Shape p.image.height.toNat p.image.width.toNat p.buffer ∧ Grid.Shape (2 * 0 + 1) (2 * 0 + 1) matrix ∧
    ¬∃ p₁ q₁ p₂ q₂, crop 1 1 p = some p₁ ∧ p₁.multiply matrix = some q₁ ∧ p.multiply matrix = some p₂ ∧
      crop 1 1 p₂ = some q₂ ∧ ∀ row col, row + 0 < min (1 : Int16).toInt.toNat p.image.height.toNat →
        col + 0 < min (1 : Int16).toInt.toNat p.image.width.toNat →
        ∃ px, q₁.image.pixels.get row col = some px ∧ q₂.image.pixels.get row col = some px := by
  refine ⟨uniform 1 2147483648 ⟨0, 0, 0⟩ ⟨0, 0, 1⟩, [[1]], Grid.shape_replicate _ _ _, Grid.shape_replicate _ _ _,
    ⟨rfl, by simp⟩, ?_⟩
  rintro ⟨p₁, q₁, p₂, q₂, hp₁, hq₁, hp₂, hq₂, hall⟩
  obtain ⟨px, hblack, hblue⟩ := hall 0 0 (by decide) (by decide)
  obtain rfl := Option.some.inj ((uniform_crop _ _).symm.trans hp₁)
  obtain rfl := Option.some.inj ((uniform_multiply (.inr (by decide)) _ _ rfl).symm.trans hp₂)
  obtain rfl := Option.some.inj ((uniform_crop _ _).symm.trans hq₂)
  cases hblue
  -- without blue pixels no sum is blue
  obtain ⟨-, midRow, midCol, hcells⟩ := multiply_cells (pixelLeft_shaped _ _) hq₁
  obtain ⟨acc, hacc, hpx⟩ := hcells 0 0 _ hblack
  have hdark : acc.b = 0 := by
    refine multiplyAt_inv (P := fun px => px.b = 0) (A := fun acc => acc.b = 0) rfl ?_ (.replicate 1 1 rfl) hacc
    intro acc coeff px ha hp
    rw [Pixel.addMul, ha, hp, mul_zero, add_zero]
  have hblue : 1 = normalize acc.b := congrArg Pixel.b hpx
  rw [hdark] at hblue
  exact absurd hblue (by decide)

end HighLoad.ImageProcessor
