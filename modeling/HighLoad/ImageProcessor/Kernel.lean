import HighLoad.ImageProcessor.Libm
import HighLoad.ImageProcessor.Pipeline

/-!
# The Gaussian kernel

`CalcMatrix` weighs the columns of a kernel of odd length by their distance from the middle and divides by the sum, so
that the kernel is symmetric and a mean (`calcMatrix_mean`). The length grows with sigma, and the squares of the
distances with the length: they fit in an `int32_t` up to a sigma of 23170.5, and the kernel is well formed exactly
below it (`kernel_wellFormed_iff`).
-/

namespace HighLoad.ImageProcessor

open ByteString

variable {F : Type} [Field F] [LinearOrder F] [IsStrictOrderedRing F] {libm : Libm F} {sigma : F} {b col : Nat}

/-! ## The weights -/

omit [LinearOrder F] [IsStrictOrderedRing F] in
/-- The distance from the middle is the same from both ends. -/
theorem gaussianWeight_mirror (hcol : col ≤ 2 * b) :
    gaussianWeight libm sigma (2 * b + 1 : Nat) (2 * b - col) = gaussianWeight libm sigma (2 * b + 1 : Nat) col := by
  have hmid : ((2 * b + 1 : Nat) : Int).tdiv 2 = b := by
    rw [Int.tdiv_eq_ediv_of_nonneg (by omega)]
    omega
  have hdist : ((b : Int) - (2 * b - col : Nat)).natAbs = ((b : Int) - col).natAbs := by omega
  unfold gaussianWeight
  rw [hmid, hdist]

theorem gaussianWeight_nonneg (hlibm : libm.Powers) (size : Int) (col : Nat) :
    0 ≤ gaussianWeight libm sigma size col := by
  have hsquare : 0 ≤ 2 * sigma * sigma := by
    rw [mul_assoc]
    exact mul_nonneg zero_le_two (mul_self_nonneg sigma)
  exact div_nonneg (div_nonneg (hlibm.powf_nonneg _) hlibm.pi_pos.le) hsquare

theorem gaussianWeight_middle (hlibm : libm.Powers) (hne : sigma ≠ 0) :
    0 < gaussianWeight libm sigma (2 * b + 1 : Nat) b := by
  have hmid : ((2 * b + 1 : Nat) : Int).tdiv 2 - b = 0 := by
    rw [Int.tdiv_eq_ediv_of_nonneg (by omega)]
    omega
  have hsquare : 0 < 2 * sigma * sigma := by
    rw [mul_assoc]
    exact mul_pos zero_lt_two (mul_self_pos.mpr hne)
  have hwrap : wrap32 0 = 0 := rfl
  unfold gaussianWeight
  simp only [hmid, Int.natAbs_zero, Nat.cast_zero, mul_zero, hwrap, Int.cast_zero, neg_zero, zero_div,
    hlibm.toFloat_zero, hlibm.powf_zero]
  exact div_pos (div_pos zero_lt_one hlibm.pi_pos) hsquare

/-- The weights before the division. -/
def weights (libm : Libm F) (sigma : F) (size : Nat) : List F := (List.range size).map (gaussianWeight libm sigma size)

omit [LinearOrder F] [IsStrictOrderedRing F] in
@[simp] theorem length_weights (libm : Libm F) (sigma : F) (size : Nat) : (weights libm sigma size).length = size := by
  rw [weights, List.length_map, List.length_range]

omit [LinearOrder F] [IsStrictOrderedRing F] in
theorem weights_reverse (libm : Libm F) (sigma : F) (b : Nat) :
    (weights libm sigma (2 * b + 1)).reverse = weights libm sigma (2 * b + 1) := by
  refine List.ext_getElem List.length_reverse fun col h h' => ?_
  have hcol : col ≤ 2 * b := by
    rw [length_weights] at h'
    omega
  rw [List.getElem_reverse]
  simp only [weights, List.getElem_map, List.getElem_range, List.length_map, List.length_range, Nat.add_sub_cancel]
  exact gaussianWeight_mirror hcol

theorem weights_nonneg (hlibm : libm.Powers) (size : Nat) : ∀ x ∈ weights libm sigma size, 0 ≤ x := by
  intro x hx
  obtain ⟨col, -, rfl⟩ := List.mem_map.mp hx
  exact gaussianWeight_nonneg hlibm size col

theorem sum_weights_ne (hlibm : libm.Powers) (hne : sigma ≠ 0) : (weights libm sigma (2 * b + 1)).sum ≠ 0 := by
  have hmem : gaussianWeight libm sigma (2 * b + 1 : Nat) b ∈ weights libm sigma (2 * b + 1) :=
    List.mem_map.mpr ⟨b, List.mem_range.mpr (by omega), rfl⟩
  exact (sum_pos_of_mem (weights_nonneg hlibm _) hmem (gaussianWeight_middle hlibm hne)).ne'

/-- **A kernel of odd length is symmetric and a mean.** -/
theorem calcMatrix_mean (hlibm : libm.Powers) (hne : sigma ≠ 0) (b : Nat) :
    ∃ row, calcMatrix libm sigma (2 * b + 1 : Nat) = .ok [row] ∧ row.length = 2 * b + 1 ∧ row.reverse = row ∧
      (∀ x ∈ row, 0 ≤ x) ∧ row.sum = 1 := by
  refine ⟨(weights libm sigma (2 * b + 1)).map (· / (weights libm sigma (2 * b + 1)).sum), ?_, ?_, ?_, ?_, ?_⟩
  · rw [calcMatrix, if_neg hne, List.sum_eq_foldl]
    rfl
  · rw [List.length_map, length_weights]
  · rw [← List.map_reverse, weights_reverse]
  · exact scaled_nonneg (weights_nonneg hlibm _)
  · exact scaled_sum (sum_weights_ne hlibm hne)

/-! ## The size -/

section Size

variable [FloorRing F]

/-- The length of the kernel is the integer part of `4 * sigma`, made odd. -/
theorem kernelSize_eq (hpos : 0 ≤ sigma) (hlt : trunc (sigma * 4) < 2 ^ 31) :
    kernelSize sigma = 2 * (trunc (sigma * 4) / 2) + 1 := by
  have hnonneg : 0 ≤ trunc (sigma * 4) := by
    rw [trunc, if_pos (mul_nonneg hpos (by norm_num))]
    exact Int.floor_nonneg.mpr (mul_nonneg hpos (by norm_num))
  unfold kernelSize toInt32
  rw [wrap32_eq (by omega) hlt]
  dsimp only
  split
  · omega
  · omega

/-- The kernel of a sigma: no conversion and no square overflows, and the row is odd, symmetric and a mean. -/
structure WellFormed (libm : Libm F) (sigma : F) : Prop where
  cast : InInt (trunc (sigma * 4))
  square : ∀ col : Nat, col < kernelSize sigma →
    ((kernelSize sigma).tdiv 2 - col).natAbs * ((kernelSize sigma).tdiv 2 - col).natAbs < 2 ^ 31
  row : ∃ row, calcMatrix libm sigma (kernelSize sigma) = .ok [row] ∧ row.length % 2 = 1 ∧ row.reverse = row ∧
    (∀ x ∈ row, 0 ≤ x) ∧ row.sum = 1

/-- The squares of the distances fit while the middle is at most 46340. -/
theorem squares_iff (b : Nat) : (∀ col : Nat, (col : Int) < (2 * b + 1 : Nat) →
      (((2 * b + 1 : Nat) : Int).tdiv 2 - col).natAbs * (((2 * b + 1 : Nat) : Int).tdiv 2 - col).natAbs < 2 ^ 31) ↔
    b ≤ 46340 := by
  have hmid : ((2 * b + 1 : Nat) : Int).tdiv 2 = b := by
    rw [Int.tdiv_eq_ediv_of_nonneg (by omega)]
    omega
  rw [hmid]
  constructor
  · intro h
    have hfirst := h 0 (by omega)
    rw [Nat.cast_zero, sub_zero, Int.natAbs_natCast] at hfirst
    by_contra hgt
    have hle : 46341 * 46341 ≤ b * b := Nat.mul_le_mul (by omega) (by omega)
    omega
  · intro hb col hcol
    have hdist : ((b : Int) - col).natAbs ≤ 46340 := by omega
    calc _ ≤ 46340 * 46340 := Nat.mul_le_mul hdist hdist
      _ < 2 ^ 31 := by decide

/-- A kernel is well formed exactly below 23170.5. -/
theorem wellFormed_iff (hlibm : libm.Powers) (hpos : 0 ≤ sigma) (hne : sigma ≠ 0) :
    WellFormed libm sigma ↔ 2 * sigma < 46341 := by
  have hpos' : 0 ≤ sigma * 4 := mul_nonneg hpos (by norm_num)
  have htrunc : trunc (sigma * 4) = ⌊sigma * 4⌋ := if_pos hpos'
  have hfloor : 0 ≤ ⌊sigma * 4⌋ := Int.floor_nonneg.mpr hpos'
  obtain ⟨b, hb⟩ := Int.eq_ofNat_of_zero_le (by omega : 0 ≤ ⌊sigma * 4⌋ / 2)
  have hlimit : 2 * sigma < 46341 ↔ b ≤ 46340 := by
    have hiff : ⌊sigma * 4⌋ < 92682 ↔ b ≤ 46340 := by omega
    rw [← hiff, Int.floor_lt]
    push_cast
    constructor
    · intro h
      linarith
    · intro h
      linarith
  have hsize : trunc (sigma * 4) < 2 ^ 31 → kernelSize sigma = (2 * b + 1 : Nat) := by
    intro hlt
    rw [kernelSize_eq hpos hlt, htrunc, hb]
    rfl
  rw [hlimit]
  constructor
  · intro h
    have hsquare := h.square
    rw [hsize h.cast.2] at hsquare
    exact (squares_iff b).mp hsquare
  · intro hle
    have hlt : trunc (sigma * 4) < 2 ^ 31 := by omega
    obtain ⟨row, hrow, hlen, hmean⟩ := calcMatrix_mean hlibm hne b
    refine ⟨⟨by omega, hlt⟩, ?_, row, ?_, by omega, hmean⟩
    · rw [hsize hlt]
      exact (squares_iff b).mpr hle
    · rw [hsize hlt, hrow]

/-- **The kernel of an accepted sigma is well formed exactly below 23170.5.** -/
theorem kernel_wellFormed_iff (hlibm : libm.Powers) {value : Bytes}
    (hmake : BlurFabric.make value = .ok (.gaussianBlur sigma)) (hne : sigma ≠ 0) :
    WellFormed libm sigma ↔ 2 * sigma < 46341 := wellFormed_iff hlibm (built_sigma (.blur hmake)) hne

end Size

/-! ## Two sigmas -/

theorem half_value : (atof (ascii "0.5") : ℝ) = 1 / 2 := by
  show ((0 : Nat) : ℝ) + ((5 : Nat) : ℝ) / 10 ^ 1 = 1 / 2
  norm_num

/-- `-blur 0.5`. -/
theorem half_wellFormed : ∃ sigma : ℝ, BlurFabric.make (ascii "0.5") = .ok (.gaussianBlur sigma) ∧ sigma = 1 / 2 ∧
    WellFormed realLibm sigma := by
  have hmake : BlurFabric.make (ascii "0.5") = .ok (.gaussianBlur (atof (ascii "0.5")) : Filter ℝ) := rfl
  refine ⟨_, hmake, half_value, (kernel_wellFormed_iff realLibm_powers hmake ?_).mpr ?_⟩
  · rw [half_value]
    norm_num
  · rw [half_value]
    norm_num

/-- `-blur 23171`: the first distance is 46342, and its square no `int32_t`. -/
theorem wide_malformed : ∃ sigma : ℝ, BlurFabric.make (ascii "23171") = .ok (.gaussianBlur sigma) ∧ sigma = 23171 ∧
    realLibm.Powers ∧ ¬WellFormed realLibm sigma := by
  have hvalue : (atof (ascii "23171") : ℝ) = 23171 := by
    show ((23171 : Nat) : ℝ) + ((0 : Nat) : ℝ) / 10 ^ 0 = 23171
    norm_num
  refine ⟨atof (ascii "23171"), rfl, hvalue, realLibm_powers, fun h => ?_⟩
  have hlt := (wellFormed_iff realLibm_powers (atof_nonneg _) (by rw [hvalue]; norm_num)).mp h
  rw [hvalue] at hlt
  norm_num at hlt

end HighLoad.ImageProcessor
