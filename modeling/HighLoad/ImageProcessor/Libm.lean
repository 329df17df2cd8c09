import Mathlib.Analysis.SpecialFunctions.Complex.Arg
import Mathlib.Analysis.SpecialFunctions.Pow.Real
import HighLoad.ImageProcessor.Filters

/-!
# What the filters rely on in `<cmath>`

The blur needs a `powf` that is not negative and is 1 at the exponent 0 (`Libm.Powers`), the tunnel a `sqrt` that is the
root and a sine and a cosine between -1 and 1 (`Libm.Polar`). The real functions satisfy both (`realLibm`).
-/

namespace HighLoad.ImageProcessor

variable {F : Type} [Field F] [LinearOrder F]

/-- The powers of `M_E`. -/
structure Libm.Powers (libm : Libm F) : Prop where
  powf_nonneg : ∀ x, 0 ≤ libm.powf libm.e x
  powf_zero : libm.powf libm.e 0 = 1
  toFloat_zero : libm.toFloat 0 = 0
  pi_pos : 0 < libm.pi

/-- Polar coordinates. -/
structure Libm.Polar (libm : Libm F) : Prop where
  sqrt_nonneg : ∀ x, 0 ≤ x → 0 ≤ libm.sqrt x
  sqrt_mul_self : ∀ x, 0 ≤ x → libm.sqrt x * libm.sqrt x = x
  sin_mem : ∀ x, -1 ≤ libm.sin x ∧ libm.sin x ≤ 1
  cos_mem : ∀ x, -1 ≤ libm.cos x ∧ libm.cos x ≤ 1

/-- The functions themselves; nothing is rounded. -/
noncomputable def realLibm : Libm ℝ where
  powf := fun x y => x ^ y
  toFloat := id
  e := Real.exp 1
  pi := Real.pi
  sqrt := Real.sqrt
  atan2 := fun y x => Complex.arg ⟨x, y⟩
  sin := Real.sin
  cos := Real.cos

theorem realLibm_powers : realLibm.Powers where
  powf_nonneg x := Real.rpow_nonneg (Real.exp_nonneg 1) x
  powf_zero := Real.rpow_zero _
  toFloat_zero := rfl
  pi_pos := Real.pi_pos

theorem realLibm_polar : realLibm.Polar where
  sqrt_nonneg x _ := Real.sqrt_nonneg x
  sqrt_mul_self _ h := Real.mul_self_sqrt h
  sin_mem x := ⟨Real.neg_one_le_sin x, Real.sin_le_one x⟩
  cos_mem x := ⟨Real.neg_one_le_cos x, Real.cos_le_one x⟩

end HighLoad.ImageProcessor
