import HighLoad.ImageProcessor.Neighbours
import HighLoad.ImageProcessor.Pixels

/-!
# The two passes of a blur

A kernel of one row whose entries are not negative and sum to 1 is a mean, so on components in `[0, 1]` the clamp of
`Multiply` is inert (`multiply_mean`). In a pass along one axis the border rule falls back to the pixel itself on that
axis only (`windowSum_row`, `windowSum_column`), and the two passes of the blur are the double sum over the products of
the entries, with the border rule on each axis for itself, in either order (`multiply_separable`).

The bounds exclude what `int32_t` cannot count: with `2 ^ 31` columns no pixel is visited, and beyond a sum of width and
half the kernel of `2 ^ 31` the index of a neighbour overflows (`huge_notSeparable`).
-/

namespace HighLoad.ImageProcessor

open Finset

variable {F : Type} {b row col : Nat}

/-- The border rule on one axis: `x + d`, its reflection at 0, or `x`. -/
def mirrored (side x : Nat) (d : Int) : Int := (mirror side (x + d)).getD x

theorem mirrored_mem {side x : Nat} (hx : x < side) (d : Int) : 0 ≤ mirrored side x d ∧ mirrored side x d < side := by
  unfold mirrored
  cases h : mirror side (x + d) with
  | none => exact ⟨Int.natCast_nonneg x, Int.ofNat_lt.mpr hx⟩
  | some y => exact mirror_mem h

theorem mirrored_inside {side x : Nat} {d : Int} (h : 0 ≤ x + d) (h' : x + d < side) : mirrored side x d = x + d := by
  rw [mirrored, mirror_inside h h', Option.getD_some]

/-- In a pass along the rows the fallback is harmless. -/
theorem neighbour_row {h w : Nat} (hrow : row < h) (dCol : Int) :
    neighbour h w row col 0 dCol = (↑row, mirrored w col dCol) := by
  unfold neighbour mirrored
  rw [add_zero, mirror_inside (Int.natCast_nonneg row) (Int.ofNat_lt.mpr hrow)]
  cases mirror w (col + dCol) with
  | none => rfl
  | some c => rfl

theorem neighbour_column {h w : Nat} (hcol : col < w) (dRow : Int) :
    neighbour h w row col dRow 0 = (mirrored h row dRow, ↑col) := by
  unfold neighbour mirrored
  rw [add_zero, mirror_inside (Int.natCast_nonneg col) (Int.ofNat_lt.mpr hcol)]
  cases mirror h (row + dRow) with
  | none => rfl
  | some r => rfl

variable [Field F] {p : Process F} {matrix : Matrix F} {m n : Nat}

/-! ## One pass -/

section Pass

theorem half_one : half 1 = 0 := half_odd (n := 0) (by decide)

/-- A pass with a kernel of one row. -/
theorem windowSum_row (hs : Shaped p) (hb : 2 * b + 1 < 2 ^ 31) (hwb : p.image.width.toNat + b ≤ 2 ^ 31)
    (hrow : row < p.image.height.toNat) (hcol : col < p.image.width.toNat) (ch : Channel) :
    windowSum matrix p.image.toInfoHeader p.image.pixels (half 1) (half (2 * b + 1)) row col ch =
      ∑ j ∈ range (2 * b + 1), entry matrix 0 j *
        (cell p.image.pixels (↑row, mirrored p.image.width.toNat col (j - b))).channel ch := by
  have hheight := hs.height
  have hwidth := hs.width
  have hcols : (2 * (b : Int) + 1).toNat = 2 * b + 1 := by omega
  rw [windowSum, half_one, half_odd hb, hcols]
  refine (weightedSum_row _ _ _).trans (sum_congr rfl fun j hj => ?_)
  rw [mem_range] at hj
  rw [Nat.cast_zero, sub_zero, source_eq hheight hwidth (by omega) (by omega), neighbour_row hrow]

/-- A pass with a kernel of one column. -/
theorem windowSum_column (hs : Shaped p) (hb : 2 * b + 1 < 2 ^ 31) (hhb : p.image.height.toNat + b ≤ 2 ^ 31)
    (hrow : row < p.image.height.toNat) (hcol : col < p.image.width.toNat) (ch : Channel) :
    windowSum matrix p.image.toInfoHeader p.image.pixels (half (2 * b + 1)) (half 1) row col ch =
      ∑ i ∈ range (2 * b + 1), entry matrix i 0 *
        (cell p.image.pixels (mirrored p.image.height.toNat row (i - b), ↑col)).channel ch := by
  have hheight := hs.height
  have hwidth := hs.width
  have hrows : (2 * (b : Int) + 1).toNat = 2 * b + 1 := by omega
  rw [windowSum, half_one, half_odd hb, hrows]
  refine (weightedSum_column _ _ _).trans (sum_congr rfl fun i hi => ?_)
  rw [mem_range] at hi
  rw [Nat.cast_zero, sub_zero, source_eq hheight hwidth (by omega) (by omega), neighbour_column hcol]

variable [LinearOrder F]

theorem normalize_eq {x : F} (h : 0 ≤ x ∧ x ≤ 1) : normalize x = x := by
  rw [normalize, max_eq_right h.1, min_eq_right h.2]

theorem Pixel.Unit.channel {px : Pixel F} (h : px.Unit) (ch : Channel) : 0 ≤ px.channel ch ∧ px.channel ch ≤ 1 := by
  cases ch with
  | r => exact h.r
  | g => exact h.g
  | b => exact h.b

/-- A mean: entries that are not negative and sum to 1. -/
structure Mean (m n : Nat) (matrix : Matrix F) : Prop where
  shape : Grid.Shape m n matrix
  odd : m % 2 = 1 ∧ n % 2 = 1
  small : m < 2 ^ 31 ∧ n < 2 ^ 31
  nonneg : ∀ i j, i < m → j < n → 0 ≤ entry matrix i j
  sum : ∑ i ∈ range m, ∑ j ∈ range n, entry matrix i j = 1

variable [IsStrictOrderedRing F]

/-- The clamp changes no sum. -/
def ClampInert (m n : Nat) (matrix : Matrix F) (p : Process F) : Prop :=
  ∀ row col ch, row < p.image.height.toNat → col < p.image.width.toNat →
    normalize (windowSum matrix p.image.toInfoHeader p.image.pixels (half m) (half n) row col ch) =
      windowSum matrix p.image.toInfoHeader p.image.pixels (half m) (half n) row col ch

theorem mean_inert (hs : Shaped p) (hunit : Grid.All Pixel.Unit p.image.pixels) (hm : Mean m n matrix) :
    ClampInert m n matrix p := by
  intro row col ch hrow hcol
  have hside : ∀ {k : Nat}, k % 2 = 1 → k < 2 ^ 31 → (2 * half k + 1).toNat = k := by
    intro k hodd hlt
    obtain ⟨c, rfl⟩ : ∃ c, k = 2 * c + 1 := ⟨k / 2, by omega⟩
    rw [half_odd hlt]
    omega
  refine normalize_eq ?_
  rw [windowSum, hside hm.odd.1 hm.small.1, hside hm.odd.2 hm.small.2]
  refine weightedSum_mem hm.nonneg hm.sum fun i j _ _ => ?_
  obtain ⟨hr, hc⟩ := source_mem hs.height hs.width hrow hcol (i - half m) (j - half n)
  obtain ⟨r, c, hplace, hr', hc'⟩ := place_nat hr hc
  rw [hplace]
  exact (hunit.get (get_cell hs.pixels hr' hc')).channel ch

/-- **With a mean the clamp is inert**, and components stay in `[0, 1]`. -/
theorem multiply_mean (hs : Shaped p) (hunit : Grid.All Pixel.Unit p.image.pixels) (hm : Mean m n matrix) :
    ∃ px, p.multiply matrix = some (p.swapped px) ∧ Grid.Shape p.image.height.toNat p.image.width.toNat px ∧
      Grid.All Pixel.Unit px ∧ ∀ row col ch, row < p.image.height.toNat → col < p.image.width.toNat →
        (cell px (row, col)).channel ch =
          windowSum matrix p.image.toInfoHeader p.image.pixels (half m) (half n) row col ch := by
  obtain ⟨px, hq, hpx, hcells⟩ := multiply_window hs hm.shape hm.odd.1 hm.odd.2
  refine ⟨px, hq, hpx, (multiply_all unit_kept hs hunit hq).2, fun row col ch hrow hcol => ?_⟩
  rw [hcells row col ch hrow hcol]
  exact mean_inert hs hunit hm row col ch hrow hcol

end Pass

/-! ## Two passes -/

section Passes

variable [LinearOrder F]

/-- The transpose of a mean of one row is one of one column. -/
theorem Mean.transpose (hm : Mean 1 n matrix) : ∃ matrix', ImageProcessor.transpose matrix = some matrix' ∧
    Mean n 1 matrix' ∧ ∀ i, i < n → entry matrix' i 0 = entry matrix 0 i := by
  obtain ⟨matrix', ht, hm', hentry⟩ := transpose_spec hm.shape one_pos hm.small.1 hm.small.2
  have hcolumn : ∀ i, i < n → entry matrix' i 0 = entry matrix 0 i := fun i hi => by
    rw [entry, hentry 0 i one_pos hi, entry]
  refine ⟨matrix', ht, ⟨hm', hm.odd.symm, hm.small.symm, fun i j hi hj => ?_, ?_⟩, hcolumn⟩
  · obtain rfl : j = 0 := by omega
    rw [hcolumn i hi]
    exact hm.nonneg 0 i one_pos hi
  · have hsum := hm.sum
    rw [sum_range_one] at hsum
    rw [← hsum]
    refine sum_congr rfl fun i hi => ?_
    rw [sum_range_one, hcolumn i (mem_range.mp hi)]

variable [IsStrictOrderedRing F]

/-- One pass along the rows. -/
theorem multiply_row (hs : Shaped p) (hunit : Grid.All Pixel.Unit p.image.pixels) (hm : Mean 1 (2 * b + 1) matrix)
    (hwb : p.image.width.toNat + b ≤ 2 ^ 31) :
    ∃ px, p.multiply matrix = some (p.swapped px) ∧ Grid.Shape p.image.height.toNat p.image.width.toNat px ∧
      Grid.All Pixel.Unit px ∧ ∀ row col ch, row < p.image.height.toNat → col < p.image.width.toNat →
        (cell px (row, col)).channel ch = ∑ j ∈ range (2 * b + 1), entry matrix 0 j *
          (cell p.image.pixels (↑row, mirrored p.image.width.toNat col (j - b))).channel ch := by
  obtain ⟨px, hq, hpx, hunit', hcells⟩ := multiply_mean hs hunit hm
  refine ⟨px, hq, hpx, hunit', fun row col ch hrow hcol => ?_⟩
  rw [hcells row col ch hrow hcol, windowSum_row hs hm.small.2 hwb hrow hcol]

/-- One pass along the columns. -/
theorem multiply_column (hs : Shaped p) (hunit : Grid.All Pixel.Unit p.image.pixels) (hm : Mean (2 * b + 1) 1 matrix)
    (hhb : p.image.height.toNat + b ≤ 2 ^ 31) :
    ∃ px, p.multiply matrix = some (p.swapped px) ∧ Grid.Shape p.image.height.toNat p.image.width.toNat px ∧
      Grid.All Pixel.Unit px ∧ ∀ row col ch, row < p.image.height.toNat → col < p.image.width.toNat →
        (cell px (row, col)).channel ch = ∑ i ∈ range (2 * b + 1), entry matrix i 0 *
          (cell p.image.pixels (mirrored p.image.height.toNat row (i - b), ↑col)).channel ch := by
  obtain ⟨px, hq, hpx, hunit', hcells⟩ := multiply_mean hs hunit hm
  refine ⟨px, hq, hpx, hunit', fun row col ch hrow hcol => ?_⟩
  rw [hcells row col ch hrow hcol, windowSum_column hs hm.small.1 hhb hrow hcol]

/-- The double sum at `(row, col)`, with the border rule on each axis for itself. -/
def blurSum (matrix : Matrix F) (b : Nat) (p : Process F) (row col : Nat) (ch : Channel) : F :=
  ∑ i ∈ range (2 * b + 1), ∑ j ∈ range (2 * b + 1), entry matrix 0 i * entry matrix 0 j *
    (cell p.image.pixels (mirrored p.image.height.toNat row (i - b), mirrored p.image.width.toNat col (j - b))).channel ch

/-- Along the rows first. -/
theorem blur_rows (hs : Shaped p) (hunit : Grid.All Pixel.Unit p.image.pixels) (hm : Mean 1 (2 * b + 1) matrix)
    (hhb : p.image.height.toNat + b ≤ 2 ^ 31) (hwb : p.image.width.toNat + b ≤ 2 ^ 31) {matrix' : Matrix F}
    (hm' : Mean (2 * b + 1) 1 matrix') (hcolumn : ∀ i, i < 2 * b + 1 → entry matrix' i 0 = entry matrix 0 i) :
    ∃ p₁ p₂, p.multiply matrix = some p₁ ∧ p₁.multiply matrix' = some p₂ ∧ ClampInert (2 * b + 1) 1 matrix' p₁ ∧
      Grid.Shape p.image.height.toNat p.image.width.toNat p₂.image.pixels ∧
      ∀ row col ch, row < p.image.height.toNat → col < p.image.width.toNat →
        (cell p₂.image.pixels (row, col)).channel ch = blurSum matrix b p row col ch := by
  obtain ⟨px₁, hp₁, hpx₁, hunit₁, hcells₁⟩ := multiply_row hs hunit hm hwb
  have hs₁ := hs.swapped hpx₁
  obtain ⟨px₂, hp₂, hpx₂, -, hcells₂⟩ := multiply_column hs₁ hunit₁ hm' hhb
  refine ⟨_, _, hp₁, hp₂, mean_inert hs₁ hunit₁ hm', hpx₂, fun row col ch hrow hcol => ?_⟩
  refine (hcells₂ row col ch hrow hcol).trans ?_
  refine (sum_congr rfl fun i hi => ?_).trans (weightedSum_separable _ _ _ _ _)
  obtain ⟨r, hr, hr'⟩ : ∃ r : Nat, mirrored p.image.height.toNat row (i - b) = r ∧ r < p.image.height.toNat := by
    obtain ⟨hr, hr'⟩ := mirrored_mem hrow (i - b)
    exact ⟨_, (Int.toNat_of_nonneg hr).symm, by omega⟩
  have hcell := hcells₁ r col ch hr' hcol
  rw [← hr] at hcell
  rw [hcolumn i (mem_range.mp hi)]
  exact congrArg (entry matrix 0 i * ·) hcell

/-- Along the columns first. -/
theorem blur_columns (hs : Shaped p) (hunit : Grid.All Pixel.Unit p.image.pixels) (hm : Mean 1 (2 * b + 1) matrix)
    (hhb : p.image.height.toNat + b ≤ 2 ^ 31) (hwb : p.image.width.toNat + b ≤ 2 ^ 31) {matrix' : Matrix F}
    (hm' : Mean (2 * b + 1) 1 matrix') (hcolumn : ∀ i, i < 2 * b + 1 → entry matrix' i 0 = entry matrix 0 i) :
    ∃ q₁ q₂, p.multiply matrix' = some q₁ ∧ q₁.multiply matrix = some q₂ ∧
      Grid.Shape p.image.height.toNat p.image.width.toNat q₂.image.pixels ∧
      ∀ row col ch, row < p.image.height.toNat → col < p.image.width.toNat →
        (cell q₂.image.pixels (row, col)).channel ch = blurSum matrix b p row col ch := by
  obtain ⟨px₁, hq₁, hpx₁, hunit₁, hcells₁⟩ := multiply_column hs hunit hm' hhb
  obtain ⟨px₂, hq₂, hpx₂, -, hcells₂⟩ := multiply_row (hs.swapped hpx₁) hunit₁ hm hwb
  refine ⟨_, _, hq₁, hq₂, hpx₂, fun row col ch hrow hcol => ?_⟩
  refine (hcells₂ row col ch hrow hcol).trans ?_
  rw [blurSum, sum_comm]
  refine (sum_congr rfl fun j _ => ?_).trans
    ((weightedSum_separable _ _ (entry matrix 0) (entry matrix 0) _).trans
      (weightedSum_congr fun j i _ _ => congrArg (· * _) (mul_comm _ _)))
  obtain ⟨c, hc, hc'⟩ : ∃ c : Nat, mirrored p.image.width.toNat col (j - b) = c ∧ c < p.image.width.toNat := by
    obtain ⟨hc, hc'⟩ := mirrored_mem hcol (j - b)
    exact ⟨_, (Int.toNat_of_nonneg hc).symm, by omega⟩
  have hcell := hcells₁ row c ch hrow hc'
  rw [← hc] at hcell
  refine congrArg (entry matrix 0 j * ·) (hcell.trans (sum_congr rfl fun i hi => ?_))
  rw [hcolumn i (mem_range.mp hi)]

/-- **The two passes of a blur are the separable blur**, in either order and without clamping; where the window is
within the image they are the plain convolution. The sides, and their sums with half the length of the kernel, are such
that no index overflows. -/
theorem multiply_separable (hs : Shaped p) (hunit : Grid.All Pixel.Unit p.image.pixels) (hm : Mean 1 (2 * b + 1) matrix)
    (hhb : p.image.height.toNat + b ≤ 2 ^ 31) (hwb : p.image.width.toNat + b ≤ 2 ^ 31) :
    ∃ matrix' p₁ p₂ q₁ q₂, transpose matrix = some matrix' ∧ p.multiply matrix = some p₁ ∧
      p₁.multiply matrix' = some p₂ ∧ p.multiply matrix' = some q₁ ∧ q₁.multiply matrix = some q₂ ∧
      q₂.image.pixels = p₂.image.pixels ∧ ClampInert 1 (2 * b + 1) matrix p ∧ ClampInert (2 * b + 1) 1 matrix' p₁ ∧
      ∀ row col, row < p.image.height.toNat → col < p.image.width.toNat →
        ∃ px, p₂.image.pixels.get row col = some px ∧ ∀ ch, px.channel ch = blurSum matrix b p row col ch ∧
          (b ≤ row → row + b < p.image.height.toNat → b ≤ col → col + b < p.image.width.toNat →
            px.channel ch = ∑ i ∈ range (2 * b + 1), ∑ j ∈ range (2 * b + 1), entry matrix 0 i * entry matrix 0 j *
              (cell p.image.pixels (↑(row + i - b), ↑(col + j - b))).channel ch) := by
  obtain ⟨matrix', ht, hm', hcolumn⟩ := hm.transpose
  obtain ⟨p₁, p₂, hp₁, hp₂, hinert, hshape, hcells⟩ := blur_rows hs hunit hm hhb hwb hm' hcolumn
  obtain ⟨q₁, q₂, hq₁, hq₂, hshape', hcells'⟩ := blur_columns hs hunit hm hhb hwb hm' hcolumn
  refine ⟨matrix', p₁, p₂, q₁, q₂, ht, hp₁, hp₂, hq₁, hq₂, ?_, mean_inert hs hunit hm, hinert, ?_⟩
  · refine hshape'.ext hshape fun row col hrow hcol => ?_
    rw [get_cell hshape hrow hcol, get_cell hshape' hrow hcol]
    refine congrArg some (Pixel.ext_channel fun ch => ?_)
    rw [hcells row col ch hrow hcol, hcells' row col ch hrow hcol]
  · intro row col hrow hcol
    refine ⟨_, get_cell hshape hrow hcol, fun ch => ⟨hcells row col ch hrow hcol, fun hr hr' hc hc' => ?_⟩⟩
    rw [hcells row col ch hrow hcol]
    refine sum_congr rfl fun i hi => sum_congr rfl fun j hj => ?_
    rw [mem_range] at hi hj
    have hplace : (mirrored p.image.height.toNat row (i - b), mirrored p.image.width.toNat col (j - b)) =
        ((↑(row + i - b) : Int), (↑(col + j - b) : Int)) := by
      rw [mirrored_inside (by omega) (by omega), mirrored_inside (by omega) (by omega), Prod.mk.injEq]
      omega
    rw [hplace]

end Passes

/-! ## A small picture and huge ones -/

section Examples

/-- A black row with one white pixel. -/
def spot (width : UInt32) (c : Nat) : Process ℚ :=
  let p := uniform 1 width ⟨0, 0, 0⟩ ⟨0, 0, 1⟩
  { p with image := { p.image with pixels := [(List.replicate width.toNat ⟨0, 0, 0⟩).set c ⟨1, 1, 1⟩] } }

variable {width : UInt32} {c : Nat}

theorem spot_shape (width : UInt32) (c : Nat) : Grid.Shape 1 width.toNat (spot width c).image.pixels := by
  refine ⟨rfl, fun l hl => ?_⟩
  rw [List.mem_singleton.mp hl, List.length_set, List.length_replicate]

theorem spot_shaped (hw : width.toNat < 2 ^ 31) (c : Nat) : Shaped (spot width c) :=
  ⟨spot_shape width c, Grid.shape_replicate _ _ _, Nat.one_lt_two_pow (by decide), hw⟩

theorem spot_unit (width : UInt32) (c : Nat) : Grid.All Pixel.Unit (spot width c).image.pixels := by
  intro l hl px hpx
  rw [List.mem_singleton.mp hl] at hpx
  rcases List.mem_or_eq_of_mem_set hpx with hpx | rfl
  · rw [List.eq_of_mem_replicate hpx]
    exact unit_const ⟨le_refl 0, zero_le_one⟩
  · exact unit_const ⟨zero_le_one, le_refl 1⟩

theorem spot_cell {c' : Nat} (hc' : c' < width.toNat) (ch : Channel) :
    (cell (spot width c).image.pixels (↑(0 : Nat), ↑c')).channel ch = if c = c' then 1 else 0 := by
  have hget : (spot width c).image.pixels.get 0 c' =
      ((List.replicate width.toNat (⟨0, 0, 0⟩ : Pixel ℚ)).set c ⟨1, 1, 1⟩)[c']? := rfl
  rw [cell, getAt_nat, hget, List.getElem?_set]
  by_cases heq : c = c'
  · rw [if_pos heq, if_pos (by rw [List.length_replicate]; omega), if_pos heq]
    cases ch with
    | r => rfl
    | g => rfl
    | b => rfl
  · rw [if_neg heq, List.getElem?_replicate_of_lt hc', if_neg heq, Option.getD_some, Pixel.channel_start]

/-- One entry of a kernel of one row is 1, the others are 0. -/
structure Single (b k : Nat) (matrix : Matrix ℚ) : Prop where
  shape : Grid.Shape 1 (2 * b + 1) matrix
  small : 2 * b + 1 < 2 ^ 31
  lt : k < 2 * b + 1
  one : entry matrix 0 k = 1
  zero : ∀ j, j < 2 * b + 1 → j ≠ k → entry matrix 0 j = 0

variable {matrix : Matrix ℚ} {b k : Nat}

theorem Single.mean (h : Single b k matrix) : Mean 1 (2 * b + 1) matrix where
  shape := h.shape
  odd := by omega
  small := ⟨by decide, h.small⟩
  nonneg i j hi hj := by
    obtain rfl : i = 0 := by omega
    by_cases hjk : j = k
    · rw [hjk, h.one]
      exact zero_le_one
    · rw [h.zero j hj hjk]
  sum := by
    rw [sum_range_one, sum_eq_single_of_mem k (mem_range.mpr h.lt), h.one]
    exact fun j hj hne => h.zero j (mem_range.mp hj) hne

/-- The double sum is then a pixel. -/
theorem Single.blurSum (h : Single b k matrix) (p : Process ℚ) (row col : Nat) (ch : Channel) :
    blurSum matrix b p row col ch = (cell p.image.pixels
      (mirrored p.image.height.toNat row (k - b), mirrored p.image.width.toNat col (k - b))).channel ch := by
  refine (weightedSum_single h.lt h.lt fun i j hi hj hne => ?_).trans ?_
  · by_cases hik : i = k
    · have hjk : j ≠ k := fun hjk => hne (by rw [hik, hjk])
      rw [h.zero j hj hjk, mul_zero]
    · rw [h.zero i hi hik, zero_mul]
  · rw [h.one, one_mul, one_mul]

/-- One pass is then a neighbour. -/
theorem Single.windowSum_row (h : Single b k matrix) (info : InfoHeader) (pixels : Grid (Pixel ℚ)) (row col : Nat)
    (ch : Channel) : windowSum matrix info pixels (half 1) (half (2 * b + 1)) row col ch =
      (cell pixels (source info row col 0 (k - b))).channel ch := by
  have hcols : (2 * (b : Int) + 1).toNat = 2 * b + 1 := by omega
  rw [windowSum, half_one, half_odd h.small, hcols]
  refine (weightedSum_single (i := 0) (j := k) one_pos h.lt fun i j hi hj hne => ?_).trans ?_
  · obtain rfl : i = 0 := Nat.lt_one_iff.mp hi
    exact h.zero j hj fun hjk => hne (by rw [hjk])
  · rw [h.one, one_mul, Nat.cast_zero, sub_zero]

theorem Single.windowSum_column (h : Single b k matrix) {matrix' : Matrix ℚ}
    (hcolumn : ∀ i, i < 2 * b + 1 → entry matrix' i 0 = entry matrix 0 i) (info : InfoHeader) (pixels : Grid (Pixel ℚ))
    (row col : Nat) (ch : Channel) : windowSum matrix' info pixels (half (2 * b + 1)) (half 1) row col ch =
      (cell pixels (source info row col (k - b) 0)).channel ch := by
  have hrows : (2 * (b : Int) + 1).toNat = 2 * b + 1 := by omega
  rw [windowSum, half_one, half_odd h.small, hrows]
  refine (weightedSum_single (i := k) (j := 0) h.lt one_pos fun i j hi hj hne => ?_).trans ?_
  · obtain rfl : j = 0 := Nat.lt_one_iff.mp hj
    rw [hcolumn i hi]
    exact h.zero i hi fun hik => hne (by rw [hik])
  · rw [hcolumn k h.lt, h.one, one_mul, Nat.cast_zero, sub_zero]

/-- The neighbour before. -/
theorem single_before : Single 1 0 [[1, 0, 0]] := ⟨⟨rfl, by simp⟩, by decide, by decide, rfl, by decide⟩

/-- The fifth neighbour after. -/
theorem single_after : Single 5 10 [[0, 0, 0, 0, 0, 0, 0, 0, 0, 0, 1]] :=
  ⟨⟨rfl, by simp⟩, by decide, by decide, rfl, by decide⟩

theorem spot_separable : ∃ matrix' p₁ p₂ q₁ q₂, transpose [[1, 0, 0]] = some matrix' ∧
    (spot 4 2).multiply [[1, 0, 0]] = some p₁ ∧ p₁.multiply matrix' = some p₂ ∧
    (spot 4 2).multiply matrix' = some q₁ ∧ q₁.multiply [[1, 0, 0]] = some q₂ ∧
    q₂.image.pixels = p₂.image.pixels := by
  obtain ⟨matrix', p₁, p₂, q₁, q₂, ht, hp₁, hp₂, hq₁, hq₂, hsame, -⟩ :=
    multiply_separable (spot_shaped (by decide) 2) (spot_unit 4 2) single_before.mean (by decide) (by decide)
  exact ⟨matrix', p₁, p₂, q₁, q₂, ht, hp₁, hp₂, hq₁, hq₂, hsame⟩

/-- Two passes give the double sums. -/
def Separates (p : Process ℚ) (matrix : Matrix ℚ) (b : Nat) : Prop :=
  ∃ matrix' p₁ p₂, transpose matrix = some matrix' ∧ p.multiply matrix = some p₁ ∧ p₁.multiply matrix' = some p₂ ∧
    ∀ row col ch, row < p.image.height.toNat → col < p.image.width.toNat →
      (cell p₂.image.pixels (row, col)).channel ch = ImageProcessor.blurSum matrix b p row col ch

/-- Two passes over `2 ^ 31` columns bring the pixels back as they were. -/
theorem huge_returns : ¬Separates (spot 2147483648 0) [[1, 0, 0]] 1 := by
  rintro ⟨matrix', p₁, p₂, ht, hp₁, hp₂, hall⟩
  obtain ⟨row, hrow⟩ : ∃ row, matrix'.head? = some row := by
    cases ht
    exact ⟨_, rfl⟩
  have hw : 2 ^ 31 ≤ (2147483648 : UInt32).toNat := by decide
  have hpos : 0 < (2147483648 : UInt32).toNat := by decide
  obtain rfl := Option.some.inj ((multiply_huge (p := spot 2147483648 0) (.inr hw) rfl).symm.trans hp₁)
  obtain rfl := Option.some.inj ((multiply_huge (.inr hw) hrow).symm.trans hp₂)
  have hsum := hall 0 0 .r (by decide) hpos
  have hfirst : (cell (spot 2147483648 0).image.pixels (↑(0 : Nat), ↑(0 : Nat))).channel .r =
      blurSum [[1, 0, 0]] 1 (spot 2147483648 0) 0 0 .r := hsum
  have htop : mirrored (spot 2147483648 0).image.height.toNat 0 ((0 : Nat) - (1 : Nat)) = (0 : Nat) := by decide +kernel
  have hright : mirrored (spot 2147483648 0).image.width.toNat 0 ((0 : Nat) - (1 : Nat)) = (1 : Nat) := by
    decide +kernel
  rw [single_before.blurSum, htop, hright, spot_cell (by decide), spot_cell (by decide), if_pos rfl,
    if_neg (by decide)] at hfirst
  exact one_ne_zero hfirst

/-- Two passes over `2 ^ 31 - 1` columns: the fifth neighbour after the last column but one is looked for at an index
that overflows. -/
theorem huge_overflows : ¬Separates (spot 2147483647 2147483645) [[0, 0, 0, 0, 0, 0, 0, 0, 0, 0, 1]] 5 := by
  rintro ⟨matrix', p₁, p₂, ht, hp₁, hp₂, hall⟩
  have hs : Shaped (spot 2147483647 2147483645) := spot_shaped (by decide) _
  obtain ⟨t, ht', hm', hcolumn⟩ := single_after.mean.transpose
  obtain rfl := Option.some.inj (ht'.symm.trans ht)
  obtain ⟨px₁, hq₁, hpx₁, hunit, hcells⟩ := multiply_mean hs (spot_unit _ _) single_after.mean
  obtain rfl := Option.some.inj (hq₁.symm.trans hp₁)
  obtain ⟨px₂, hq₂, -, -, hcells'⟩ := multiply_mean (hs.swapped hpx₁) hunit hm'
  obtain rfl := Option.some.inj (hq₂.symm.trans hp₂)
  have hrow : 0 < (1 : UInt32).toNat := by decide
  have hcol : 2147483646 < (2147483647 : UInt32).toNat := by decide
  -- the first pass reads the white pixel, the second one the pixel itself
  have hfirst := hcells 0 2147483646 .r hrow hcol
  rw [single_after.windowSum_row] at hfirst
  have hsecond := hcells' 0 2147483646 .r hrow hcol
  rw [single_after.windowSum_column hcolumn] at hsecond
  have hplace : source (spot 2147483647 2147483645).image.toInfoHeader 0 2147483646 0 ((10 : Nat) - (5 : Nat)) =
      (↑(0 : Nat), ↑(2147483645 : Nat)) := by decide +kernel
  have hplace' : source (spot 2147483647 2147483645).image.toInfoHeader 0 2147483646 ((10 : Nat) - (5 : Nat)) 0 =
      (↑(0 : Nat), ↑(2147483646 : Nat)) := by decide +kernel
  rw [hplace] at hfirst
  change _ = (cell px₁ (source (spot 2147483647 2147483645).image.toInfoHeader 0 2147483646 _ 0)).channel .r at hsecond
  rw [hplace'] at hsecond
  have hsum : (cell px₂ (↑(0 : Nat), ↑(2147483646 : Nat))).channel .r = _ := hall 0 2147483646 .r hrow hcol
  have htop : mirrored (spot 2147483647 2147483645).image.height.toNat 0 ((10 : Nat) - (5 : Nat)) = (0 : Nat) := by
    decide +kernel
  have hright : mirrored (spot 2147483647 2147483645).image.width.toNat 2147483646 ((10 : Nat) - (5 : Nat)) =
      (2147483646 : Nat) := by decide +kernel
  rw [single_after.blurSum, htop, hright, hsecond, hfirst, spot_cell (by decide), spot_cell (by decide), if_pos rfl,
    if_neg (by decide)] at hsum
  exact one_ne_zero hsum

/-- A kernel of one row whose weight is the first of `n + 1` entries. -/
def firstKernel (n : Nat) : Matrix ℚ := [1 :: List.replicate n 0]

theorem firstKernel_shape (n : Nat) : Grid.Shape 1 (n + 1) (firstKernel n) := by
  refine ⟨rfl, fun l hl => ?_⟩
  rw [List.mem_singleton.mp hl, List.length_cons, List.length_replicate]

theorem entry_firstKernel (n j : Nat) : entry (firstKernel n) 0 j = if j = 0 then 1 else 0 := by
  cases j with
  | zero => rfl
  | succ j =>
    rw [if_neg (Nat.succ_ne_zero j)]
    show ((List.replicate n (0 : ℚ))[j]?).getD 0 = 0
    rw [List.getElem?_replicate]
    split
    · rfl
    · rfl

theorem sum_firstKernel (n : Nat) : ∑ i ∈ range 1, ∑ j ∈ range (n + 1), entry (firstKernel n) i j = 1 := by
  simp only [sum_range_one, entry_firstKernel]
  rw [sum_ite_eq' (range (n + 1)) 0 fun _ => 1, if_pos (mem_range.mpr (Nat.succ_pos n))]

/-- **The bounds are needed**: with `2 ^ 31` columns, where an index overflows, and with a kernel of `2 ^ 31 + 1` entries
two passes do not give the double sums. -/
theorem huge_notSeparable : (∃ (p : Process ℚ) (matrix : Matrix ℚ) (b : Nat), 2 ^ 31 ≤ p.image.width.toNat ∧
      Grid.Shape p.image.height.toNat p.image.width.toNat p.image.pixels ∧
      Grid.Shape p.image.height.toNat p.image.width.toNat p.buffer ∧ Grid.All Pixel.Unit p.image.pixels ∧
      Mean 1 (2 * b + 1) matrix ∧ ¬Separates p matrix b) ∧
    (∃ (p : Process ℚ) (matrix : Matrix ℚ) (b : Nat), Shaped p ∧ Grid.All Pixel.Unit p.image.pixels ∧
      Mean 1 (2 * b + 1) matrix ∧ ¬Separates p matrix b) ∧
    ∃ (p : Process ℚ) (matrix : Matrix ℚ) (b : Nat), Shaped p ∧ Grid.All Pixel.Unit p.image.pixels ∧
      p.image.height.toNat + b ≤ 2 ^ 31 ∧ p.image.width.toNat + b ≤ 2 ^ 31 ∧ Grid.Shape 1 (2 * b + 1) matrix ∧
      (∀ i j, i < 1 → j < 2 * b + 1 → 0 ≤ entry matrix i j) ∧
      ∑ i ∈ range 1, ∑ j ∈ range (2 * b + 1), entry matrix i j = 1 ∧ ¬Separates p matrix b := by
  refine ⟨⟨spot 2147483648 0, _, 1, by decide, spot_shape _ _, Grid.shape_replicate _ _ _, spot_unit _ _,
      single_before.mean, huge_returns⟩,
    ⟨spot 2147483647 2147483645, _, 5, spot_shaped (by decide) _, spot_unit _ _, single_after.mean, huge_overflows⟩,
    spot 1 0, firstKernel (2 * 1073741824), 1073741824, spot_shaped (by decide) 0, spot_unit 1 0, by decide, by decide,
    firstKernel_shape _, fun i j hi _ => ?_, sum_firstKernel _, ?_⟩
  · obtain rfl : i = 0 := by omega
    rw [entry_firstKernel]
    split
    · exact zero_le_one
    · exact le_refl 0
  · rintro ⟨matrix', p₁, p₂, ht, -⟩
    rw [transpose_huge (firstKernel_shape _) (.inr (by decide))] at ht
    cases ht

end Examples

end HighLoad.ImageProcessor
