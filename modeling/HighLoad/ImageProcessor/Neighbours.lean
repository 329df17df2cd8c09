import HighLoad.ImageProcessor.Effects
import HighLoad.ImageProcessor.Pipeline

/-!
# Neighbours and weighted sums

Without overflow the border rule of `Multiply` is: on each axis a neighbour is taken at its index, or at its reflection
at 0 (`mirror`), and where one axis has neither, the pixel itself is taken (`neighbour`, `source_eq`). The reflection at
the other end never applies.

`multiply_window` is `Multiply` in these terms: every component is the clamped weighted sum over the neighbours.
-/

namespace HighLoad.ImageProcessor

/-! ## The border rule -/

/-- An index inside the image, or its reflection at 0. -/
def mirror (side : Nat) (x : Int) : Option Int :=
  if 0 ≤ x ∧ x < side then some x else if x < 0 ∧ -x < side then some (-x) else none

/-- Where the neighbour of `(row, col)` at a distance is read, in an image of `h` rows and `w` columns. -/
def neighbour (h w row col : Nat) (dRow dCol : Int) : Int × Int :=
  match mirror h (row + dRow), mirror w (col + dCol) with
  | some r, some c => (r, c)
  | _, _ => (row, col)

theorem mirror_mem {side : Nat} {x y : Int} (h : mirror side x = some y) : 0 ≤ y ∧ y < side := by
  unfold mirror at h
  split at h
  case isTrue hin =>
    obtain rfl := Option.some.inj h
    exact hin
  case isFalse =>
    obtain ⟨hneg, h⟩ := Option.ite_none_right_eq_some.mp h
    obtain rfl := Option.some.inj h
    omega

theorem mirror_inside {side : Nat} {x : Int} (h : 0 ≤ x) (h' : x < side) : mirror side x = some x := if_pos ⟨h, h'⟩

/-- Beyond the far end nothing is reflected. -/
theorem mirror_beyond {side : Nat} {x : Int} (h : side ≤ x) : mirror side x = none := by
  unfold mirror
  rw [if_neg (by omega), if_neg (by omega)]

/-- The two reflections on one axis, without overflow. -/
theorem reflect_eq {side : UInt32} {x : Int} (hs : side.toNat < 2 ^ 31) (hlo : -2 ^ 31 < x) (hhi : x < 2 ^ 31) :
    reflect side x = if x.natAbs < side.toNat then (x.natAbs : Int) else side.toNat - 1 - x.natAbs := by
  have hside : wrap32 (side.toNat : Int) = side.toNat := wrap32_eq (by omega) (by omega)
  have hneg : wrap32 (-x) = -x := wrap32_eq (by omega) (by omega)
  have habs : (if x < 0 then wrap32 (-x) else x) = x.natAbs := by
    rw [hneg]
    split
    · omega
    · omega
  have hcast : toU32 x.natAbs = x.natAbs := by
    unfold toU32
    omega
  have hfar : wrap32 (side.toNat - 1 - x.natAbs) = side.toNat - 1 - x.natAbs := wrap32_eq (by omega) (by omega)
  unfold reflect
  rw [habs, hside]
  dsimp only
  rw [hcast, hfar]
  split
  case isTrue hge => rw [if_neg (Nat.not_lt.mpr hge)]
  case isFalse hlt => rw [if_pos (Nat.not_le.mp hlt)]

/-- A reflection at the far end lies before the image. -/
theorem reflect_mirror {side : UInt32} {x : Int} (hs : side.toNat < 2 ^ 31) (hlo : -2 ^ 31 < x) (hhi : x < 2 ^ 31) :
    (if 0 ≤ reflect side x ∧ reflect side x < side.toNat then some (reflect side x) else none) =
      mirror side.toNat x := by
  rw [reflect_eq hs hlo hhi]
  unfold mirror
  by_cases hin : x.natAbs < side.toNat
  · rw [if_pos hin, if_pos (by omega)]
    by_cases hx : 0 ≤ x
    · rw [if_pos (by omega), Int.natAbs_of_nonneg hx]
    · rw [if_neg (by omega), if_pos (by omega), Int.ofNat_natAbs_of_nonpos (by omega)]
  · rw [if_neg hin, if_neg (by omega), if_neg (by omega), if_neg (by omega)]

/-- **The border rule without overflow.** -/
theorem source_eq {info : InfoHeader} {row col : Nat} {dRow dCol : Int} (hh : info.height.toNat < 2 ^ 31)
    (hw : info.width.toNat < 2 ^ 31) (hr : -2 ^ 31 < row + dRow ∧ row + dRow < 2 ^ 31)
    (hc : -2 ^ 31 < col + dCol ∧ col + dCol < 2 ^ 31) :
    source info row col dRow dCol = neighbour info.height.toNat info.width.toNat row col dRow dCol := by
  have hheight : wrap32 (info.height.toNat : Int) = info.height.toNat := wrap32_eq (by omega) (by omega)
  have hwidth : wrap32 (info.width.toNat : Int) = info.width.toNat := wrap32_eq (by omega) (by omega)
  have hrow : wrap32 (row + dRow) = row + dRow := wrap32_eq (by omega) (by omega)
  have hcol : wrap32 (col + dCol) = col + dCol := wrap32_eq (by omega) (by omega)
  unfold source neighbour
  rw [hheight, hwidth, hrow, hcol, ← reflect_mirror hh hr.1 hr.2, ← reflect_mirror hw hc.1 hc.2]
  generalize reflect info.height (row + dRow) = r
  generalize reflect info.width (col + dCol) = c
  simp only [inSquare, Bool.and_eq_true, decide_eq_true_eq]
  by_cases hrin : 0 ≤ r ∧ r < info.height.toNat
  · by_cases hcin : 0 ≤ c ∧ c < info.width.toNat
    · rw [if_pos hrin, if_pos hcin, if_pos ⟨⟨hrin, hcin.1⟩, hcin.2⟩]
    · rw [if_pos hrin, if_neg hcin, if_neg fun h => hcin ⟨h.1.2, h.2⟩]
  · rw [if_neg hrin, if_neg fun h => hrin h.1.1]

/-! ## Cells -/

section Cells

variable {F : Type} [Field F] {g : Grid (Pixel F)} {h w row col : Nat}

theorem getAt_nat {α : Type*} (g : Grid α) (row col : Nat) : getAt g row col = g.get row col :=
  if_pos ⟨Int.natCast_nonneg row, Int.natCast_nonneg col⟩

/-- A cell of a grid of a shape. -/
theorem get_cell (hg : Grid.Shape h w g) (hrow : row < h) (hcol : col < w) :
    g.get row col = some (cell g (row, col)) := by
  obtain ⟨px, hpx⟩ := hg.get hrow hcol
  rw [cell, getAt_nat, hpx, Option.getD_some]

/-- A signed place within an image. -/
theorem place_nat {place : Int × Int} (hr : 0 ≤ place.1 ∧ place.1 < h) (hc : 0 ≤ place.2 ∧ place.2 < w) :
    ∃ row col : Nat, place = (↑row, ↑col) ∧ row < h ∧ col < w :=
  ⟨place.1.toNat, place.2.toNat, Prod.ext (Int.toNat_of_nonneg hr.1).symm (Int.toNat_of_nonneg hc.1).symm,
    by omega, by omega⟩

theorem cell_congr {g' : Grid (Pixel F)} {row' col' : Nat} (h : g.get row col = g'.get row' col') :
    cell g (row, col) = cell g' (row', col') := by
  rw [cell, cell, getAt_nat, getAt_nat, h]

end Cells

/-! ## `Multiply` as a convolution -/

section Window

variable {F : Type} {p : Process F} {px : Grid (Pixel F)}

/-- New pixels, and the old ones in the static buffer. -/
def Process.swapped (p : Process F) (px : Grid (Pixel F)) : Process F :=
  { p with image := { p.image with pixels := px }, buffer := p.image.pixels }

theorem Shaped.swapped (hs : Shaped p) (hpx : Grid.Shape p.image.height.toNat p.image.width.toNat px) :
    Shaped (p.swapped px) := ⟨hpx, hs.pixels, hs.height, hs.width⟩

variable [Field F] {matrix : Matrix F} {m n row col : Nat}

/-- The weighted sum over the neighbours of `(row, col)`. -/
def windowSum (matrix : Matrix F) (info : InfoHeader) (pixels : Grid (Pixel F)) (midRow midCol : Int) (row col : Nat)
    (ch : Channel) : F :=
  weightedSum (2 * midRow + 1).toNat (2 * midCol + 1).toNat (entry matrix) fun i j =>
    (cell pixels (source info row col (i - midRow) (j - midCol))).channel ch

variable [LinearOrder F]

@[simp] theorem Pixel.channel_normalize (px : Pixel F) (ch : Channel) :
    px.normalize.channel ch = ImageProcessor.normalize (px.channel ch) := by
  cases ch with
  | r => rfl
  | g => rfl
  | b => rfl

/-- **`Multiply` with an odd kernel**: every component is the clamped weighted sum over the neighbours, and the old
pixels are in the static buffer. -/
theorem multiply_window (hs : Shaped p) (hm : Grid.Shape m n matrix) (hmodd : m % 2 = 1) (hnodd : n % 2 = 1) :
    ∃ px, p.multiply matrix = some (p.swapped px) ∧ Grid.Shape p.image.height.toNat p.image.width.toNat px ∧
      ∀ row col ch, row < p.image.height.toNat → col < p.image.width.toNat →
        (cell px (row, col)).channel ch =
          normalize (windowSum matrix p.image.toInfoHeader p.image.pixels (half m) (half n) row col ch) := by
  obtain ⟨px, hmul, hpx, hcells⟩ := multiply_fills hm hmodd hnodd hs.pixels hs.buffer hs.height hs.width
  refine ⟨px, by rw [Process.multiply, hmul, Option.map_some]; rfl, hpx, fun row col ch hrow hcol => ?_⟩
  obtain ⟨sum, hsum, hchannel⟩ := multiplyAt_window (fun i j hi hj =>
    hm.get (hi.trans_le (half_le hmodd)) (hj.trans_le (half_le hnodd))) hs.pixels hs.height hs.width hrow hcol
  have hcell := hcells row col hrow hcol
  rw [hsum, Option.map_some, get_cell hpx hrow hcol, Option.some.injEq] at hcell
  rw [hcell, Pixel.channel_normalize, hchannel]
  rfl

end Window

/-! ## Pictures -/

/-- A picture of given pixels, and a static buffer of given ones. -/
def painted {F : Type} (height width : UInt32) (pixel buffer : Nat → Nat → Pixel F) : Process F where
  image :=
    { toFileHeader := ⟨0x4D42, 54, 0, 0, 54⟩
      toInfoHeader := ⟨40, width, height, 1, 24, 0, 0, 0, 0, 0, 0⟩
      pixels := Grid.tabulate height.toNat width.toNat pixel }
  buffer := Grid.tabulate height.toNat width.toNat buffer
  matrix := []

theorem painted_shape {F : Type} (height width : UInt32) (pixel buffer : Nat → Nat → Pixel F) :
    Grid.Shape height.toNat width.toNat (painted height width pixel buffer).image.pixels := Grid.shape_tabulate _ _ _

/-- Pixels of one colour, and a static buffer of one colour. -/
def uniform (height width : UInt32) (pixel buffer : Pixel ℚ) : Process ℚ where
  image :=
    { toFileHeader := ⟨0x4D42, 54, 0, 0, 54⟩
      toInfoHeader := ⟨40, width, height, 1, 24, 0, 0, 0, 0, 0, 0⟩
      pixels := List.replicate height.toNat (List.replicate width.toNat pixel) }
  buffer := List.replicate height.toNat (List.replicate width.toNat buffer)
  matrix := []

theorem uniform_shaped {height width : UInt32} (hh : height.toNat < 2 ^ 31) (hw : width.toNat < 2 ^ 31)
    (pixel buffer : Pixel ℚ) : Shaped (uniform height width pixel buffer) :=
  ⟨Grid.shape_replicate _ _ _, Grid.shape_replicate _ _ _, hh, hw⟩

/-- From a side of `2 ^ 31` on the static buffer is swapped in. -/
theorem uniform_multiply {height width : UInt32} {matrix : Matrix ℚ}
    (hside : 2 ^ 31 ≤ height.toNat ∨ 2 ^ 31 ≤ width.toNat)
    (pixel buffer : Pixel ℚ) {row : List ℚ} (hm : matrix.head? = some row) :
    (uniform height width pixel buffer).multiply matrix = some (uniform height width buffer pixel) :=
  multiply_huge hside hm

end HighLoad.ImageProcessor
