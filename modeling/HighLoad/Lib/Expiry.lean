import Mathlib.Order.Lattice
import Mathlib.Logic.Function.Basic
import Mathlib.Data.Option.Basic

/-!
# Tables with deadlines

An entry `e` is seen before `deadline e` only (`live`). Two tables agree from a time on when no look at them at that time
or later tells them apart (`Agree`). Time may pass (`Agree.mono`), both tables may take the same entry (`Agree.update`),
and a table may lose entries that are over (`Agree.drop`).
-/

namespace Expiry

variable {K E T : Type*} [LinearOrder T]

/-- What is seen of an entry at a time. -/
def live (deadline : E → T) (now : T) (entry : Option E) : Option E := entry.filter fun e => now < deadline e

/-- No look at `now` or later tells the tables apart. -/
def Agree (deadline : E → T) (now : T) (m m' : K → Option E) : Prop :=
  ∀ k t, now ≤ t → live deadline t (m k) = live deadline t (m' k)

variable {deadline : E → T} {now t : T} {m m' m₁ : K → Option E} {e : E}

@[simp] theorem live_none : live deadline now none = none := rfl

theorem live_some : live deadline now (some e) = if now < deadline e then some e else none := by
  simp only [live, Option.filter_some, decide_eq_true_eq]

theorem live_of_le (h : deadline e ≤ now) : live deadline now (some e) = none := by
  rw [live_some, if_neg h.not_gt]

theorem Agree.refl (now : T) (m : K → Option E) : Agree deadline now m m := fun _ _ _ => rfl

theorem Agree.live_eq (h : Agree deadline now m m') (k : K) : live deadline now (m k) = live deadline now (m' k) :=
  h k now le_rfl

/-- Time passes. -/
theorem Agree.mono (h : Agree deadline now m m') (ht : now ≤ t) : Agree deadline t m m' :=
  fun k t' ht' => h k t' (ht.trans ht')

/-- Both tables take an entry. -/
theorem Agree.update [DecidableEq K] (h : Agree deadline now m m') (k : K) (entry : Option E) :
    Agree deadline now (Function.update m k entry) (Function.update m' k entry) := by
  intro k' t ht
  by_cases hk : k' = k
  · rw [hk, Function.update_self, Function.update_self]
  · rw [Function.update_of_ne hk, Function.update_of_ne hk]
    exact h k' t ht

/-- A table loses entries that are over. -/
theorem Agree.drop (h : Agree deadline now m m') (hsub : ∀ k e, m₁ k = some e → m k = some e)
    (hkeep : ∀ k e, m k = some e → now < deadline e → m₁ k = some e) : Agree deadline now m₁ m' := by
  intro k t ht
  rw [← h k t ht]
  cases hm : m k with
  | none =>
    have hnone : m₁ k = none := Option.eq_none_iff_forall_ne_some.mpr fun e he => by
      rw [hsub k e he] at hm
      cases hm
    rw [hnone]
  | some e =>
    rcases lt_or_ge now (deadline e) with hlt | hge
    · rw [hkeep k e hm hlt]
    · rw [live_of_le (hge.trans ht)]
      cases hm₁ : m₁ k with
      | none => rfl
      | some e₁ =>
        obtain rfl : e₁ = e := Option.some.inj ((hsub k e₁ hm₁).symm.trans hm)
        exact live_of_le (hge.trans ht)

end Expiry
