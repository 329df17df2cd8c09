import HighLoad.Lib.Transition

/-!
# Systems made of parts

A step of a system moves a part by one of the part's own labels, or leaves it alone (`PartOf`). A run of the system is
then a run of each part (`PartOf.run`), which has the part's invariants (`PartOf.inv`) and meets what its steps meet
(`PartOf.meets`).
-/

namespace Transition

variable {σ α τ β : Type*} {step : σ → α → Option σ} {step' : τ → β → Option τ} {f : σ → τ} {label : σ → α → Option β}
  {s t : σ} {as : List α}

/-- A step that may be left out. -/
def stepMaybe (step : σ → α → Option σ) (s : σ) : Option α → Option σ
  | none => some s
  | some a => step s a

theorem stepMaybe_inv {I : σ → Prop} (hstep : ∀ s a t, I s → step s a = some t → I t) {a : Option α} (hs : I s)
    (h : stepMaybe step s a = some t) : I t := by
  cases a with
  | none => exact Option.some.inj h ▸ hs
  | some a => exact hstep s a t hs h

/-- `f` is a part, which a step moves as `label` says. -/
def PartOf (step : σ → α → Option σ) (step' : τ → β → Option τ) (f : σ → τ) (label : σ → α → Option β) : Prop :=
  ∀ s a t, step s a = some t → stepMaybe step' (f s) (label s a) = some (f t)

/-- The labels of the part along a run. -/
def partLabels (step : σ → α → Option σ) (label : σ → α → Option β) : σ → List α → List β
  | _, [] => []
  | s, a :: as => (label s a).toList ++ (step s a).elim [] fun t => partLabels step label t as

theorem run_toList {b : Option β} {x y : τ} : run step' x b.toList = some y ↔ stepMaybe step' x b = some y := by
  cases b with
  | none => rfl
  | some b => simp [run, stepMaybe]

/-- **A run of the system is a run of its part.** -/
theorem PartOf.run (hp : PartOf step step' f label) : ∀ {s : σ} {as : List α}, Transition.run step s as = some t →
    Transition.run step' (f s) (partLabels step label s as) = some (f t)
  | s, [], h => by
    cases h
    rfl
  | s, a :: as, h => by
    obtain ⟨u, hu, h⟩ := run_cons.mp h
    have hrest : partLabels step label s (a :: as) = (label s a).toList ++ partLabels step label u as := by
      rw [partLabels, hu, Option.elim_some]
    rw [hrest, run_append]
    exact ⟨f u, run_toList.mpr (hp s a u hu), hp.run h⟩

/-- What the part's steps preserve holds of the part. -/
theorem PartOf.inv (hp : PartOf step step' f label) {I : τ → Prop} (hstep : ∀ x b y, I x → step' x b = some y → I y)
    (hs : I (f s)) (h : Transition.run step s as = some t) : I (f t) :=
  run_inv hstep hs (hp.run h)

/-- A condition on the part's steps, along a run of the system. -/
theorem PartOf.meets (hp : PartOf step step' f label) (ok : τ → β → Prop) : ∀ {s : σ} {as : List α},
    Transition.run step s as = some t →
      (Meets step' ok (f s) (partLabels step label s as) ↔ Meets step (fun s a => ∀ b ∈ label s a, ok (f s) b) s as)
  | s, [], _ => Iff.rfl
  | s, a :: as, h => by
    obtain ⟨u, hu, h⟩ := run_cons.mp h
    have hmove := hp s a u hu
    have hrest := hp.meets ok h
    simp only [Meets, partLabels, hu, Option.elim_some, Option.some.injEq, forall_eq', ← hrest, meets_append]
    cases hlabel : label s a with
    | none =>
      rw [hlabel] at hmove
      obtain hf := Option.some.inj hmove
      simp [Meets, hf]
    | some b =>
      rw [hlabel] at hmove
      have hb : step' (f s) b = some (f u) := hmove
      simp [Meets, run_cons, hb]

end Transition
