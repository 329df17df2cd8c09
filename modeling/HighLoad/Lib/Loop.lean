import Mathlib.Data.List.Basic

/-!
# Counted loops

`upTo body n s` is `for (i = 0; i < n; ++i) body`, where a pass may fail (`none`). `upTo_rule` is the invariant rule: a
body that keeps an invariant never fails, and the invariant holds at the end. `upTo_inv` is its partial form, for bodies
that may fail. A translation of the states that the bodies respect is respected by their loops (`upTo_map`).
-/

namespace Loop

variable {σ : Type*} {body : Nat → σ → Option σ} {n : Nat} {s : σ}

/-- The state after the passes `0, …, n - 1`. -/
def upTo (body : Nat → σ → Option σ) : Nat → σ → Option σ
  | 0, s => some s
  | n + 1, s => (upTo body n s).bind (body n)

theorem upTo_succ : upTo body (n + 1) s = (upTo body n s).bind (body n) := rfl

/-- **Invariant rule.** -/
theorem upTo_rule (body : Nat → σ → Option σ) (I : Nat → σ → Prop) (h0 : I 0 s)
    (hstep : ∀ i s, i < n → I i s → ∃ t, body i s = some t ∧ I (i + 1) t) :
    ∃ t, upTo body n s = some t ∧ I n t := by
  induction n with
  | zero => exact ⟨s, rfl, h0⟩
  | succ n ih =>
    obtain ⟨t, ht, hI⟩ := ih fun i s hi => hstep i s (by omega)
    obtain ⟨u, hu, hI'⟩ := hstep n t (by omega) hI
    exact ⟨u, by rw [upTo_succ, ht, Option.bind_some, hu], hI'⟩

/-- **Invariant rule for a loop that did not fail.** -/
theorem upTo_inv {t : σ} (I : Nat → σ → Prop) (h0 : I 0 s)
    (hstep : ∀ i s t, i < n → I i s → body i s = some t → I (i + 1) t) (h : upTo body n s = some t) : I n t := by
  induction n generalizing t with
  | zero => cases h; exact h0
  | succ n ih =>
    obtain ⟨u, hu, hb⟩ := Option.bind_eq_some_iff.mp h
    exact hstep n u t (by omega) (ih (fun i s t hi => hstep i s t (by omega)) hu) hb

/-- **Translation rule.** Two bodies that a translation of the states takes to one another. -/
theorem upTo_map {τ : Type*} {body' : Nat → τ → Option τ} {f : σ → τ} (P : σ → Prop)
    (hP : ∀ i s t, P s → body i s = some t → P t) (hf : ∀ i s, P s → body' i (f s) = (body i s).map f) (hs : P s) :
    upTo body' n (f s) = (upTo body n s).map f := by
  induction n with
  | zero => rfl
  | succ n ih =>
    rw [upTo_succ, upTo_succ, ih]
    cases hrun : upTo body n s with
    | none => rfl
    | some t =>
      have ht : P t := upTo_inv (fun _ s => P s) hs (fun i s t _ => hP i s t) hrun
      exact hf n t ht

/-- A loop with a pass that always fails. -/
theorem upTo_none {i : Nat} (hi : i < n) (hfail : ∀ s, body i s = none) : upTo body n s = none := by
  induction n with
  | zero => exact absurd hi (Nat.not_lt_zero i)
  | succ n ih =>
    rcases Nat.lt_succ_iff_lt_or_eq.mp hi with hi | rfl
    · rw [upTo_succ, ih hi, Option.bind_none]
    · rw [upTo_succ]
      exact Option.bind_eq_none_iff.mpr fun t _ => hfail t

/-- A loop whose passes change nothing. -/
theorem upTo_id {s : σ} (h : ∀ i, i < n → body i s = some s) : upTo body n s = some s := by
  obtain ⟨t, ht, rfl⟩ := upTo_rule (n := n) (s := s) body (fun _ t => t = s) rfl fun i t hi ht => by
    subst ht
    exact ⟨t, h i hi, rfl⟩
  exact ht

end Loop
