import Mathlib.Logic.Function.Basic
import Mathlib.Data.List.Induction

/-!
# Runs of labelled transition functions

A transition function `step : σ → α → Option σ` gives the state after a label, when the label is enabled. `run` follows
a list of labels; the run rules below take what one step preserves to what a whole run preserves:

* `run_inv`: an invariant of the states;
* `run_hist`: a relation between the labels so far and the state;
* `meets_inv`: an invariant that only the steps meeting a side condition preserve;
* `meets_iff`: a property that a step keeps exactly when it meets a side condition;
* `meets_congr`: side conditions that agree on every step.

`interleave step` runs a family of components side by side, one label at a time; a component of an interleaved run is
a run of its own labels (`run_proj`).
-/

namespace Transition

variable {σ α : Type*} {step : σ → α → Option σ} {s t u : σ} {a : α} {as bs : List α}

/-! ## Runs -/

/-- The state after the labels `as`, each enabled in its turn. -/
def run (step : σ → α → Option σ) : σ → List α → Option σ
  | s, [] => some s
  | s, a :: as => (step s a).bind fun t => run step t as

@[simp] theorem run_nil : run step s [] = some s := rfl

theorem run_cons : run step s (a :: as) = some u ↔ ∃ t, step s a = some t ∧ run step t as = some u := by
  simp [run, Option.bind_eq_some_iff]

theorem run_append : ∀ {s : σ} {as bs : List α}, run step s (as ++ bs) = some u ↔
    ∃ t, run step s as = some t ∧ run step t bs = some u
  | s, [], bs => by simp
  | s, a :: as, bs => by
    simp only [List.cons_append, run_cons]
    constructor
    · rintro ⟨v, hv, h⟩
      obtain ⟨t, ht, hu⟩ := run_append.mp h
      exact ⟨t, ⟨v, hv, ht⟩, hu⟩
    · rintro ⟨t, ⟨v, hv, ht⟩, hu⟩
      exact ⟨v, hv, run_append.mpr ⟨t, ht, hu⟩⟩

theorem run_concat : run step s (as ++ [a]) = some u ↔ ∃ t, run step s as = some t ∧ step t a = some u := by
  simp [run_append, run_cons]

/-- A run of a system whose labels stand for labels of another. -/
theorem run_map {β : Type*} {f : β → α} : ∀ {s : σ} {bs : List β}, run (fun s b => step s (f b)) s bs = some u →
    run step s (bs.map f) = some u
  | s, [], h => h
  | s, b :: bs, h => by
    obtain ⟨t, ht, h⟩ := run_cons.mp h
    exact run_cons.mpr ⟨t, ht, run_map h⟩

/-- **Invariant rule.** What every step preserves holds at the end of every run. -/
theorem run_inv {I : σ → Prop} (hstep : ∀ s a t, I s → step s a = some t → I t) :
    ∀ {s : σ} {as : List α}, I s → run step s as = some u → I u
  | s, [], hs, h => by cases h; exact hs
  | s, a :: as, hs, h => by
    obtain ⟨t, ht, h⟩ := run_cons.mp h
    exact run_inv hstep (hstep s a t hs ht) h

/-- **History rule.** A relation between the labels so far and the state. -/
theorem run_hist {I : List α → σ → Prop} (h0 : I [] s)
    (hstep : ∀ as s a t, I as s → step s a = some t → I (as ++ [a]) t) (h : run step s as = some u) : I as u := by
  induction as using List.reverseRecOn generalizing u with
  | nil => cases h; exact h0
  | append_singleton as a ih =>
    obtain ⟨t, ht, hu⟩ := run_concat.mp h
    exact hstep as t a u (ih ht) hu

/-! ## Runs whose steps meet a condition -/

/-- Every step of the run from `s` along the labels meets `ok`, a condition on the state before it and its label. -/
def Meets (step : σ → α → Option σ) (ok : σ → α → Prop) : σ → List α → Prop
  | _, [] => True
  | s, a :: as => ok s a ∧ ∀ t, step s a = some t → Meets step ok t as

variable {ok : σ → α → Prop}

instance Meets.decidable [∀ s a, Decidable (ok s a)] : ∀ (s : σ) (as : List α), Decidable (Meets step ok s as)
  | _, [] => inferInstanceAs (Decidable True)
  | s, a :: as =>
    have : ∀ t, Decidable (Meets step ok t as) := fun t => Meets.decidable t as
    inferInstanceAs (Decidable (ok s a ∧ ∀ t ∈ step s a, Meets step ok t as))

theorem meets_append : ∀ {s : σ} {as bs : List α}, Meets step ok s (as ++ bs) ↔
    Meets step ok s as ∧ ∀ t, run step s as = some t → Meets step ok t bs
  | s, [], bs => by simp [Meets]
  | s, a :: as, bs => by
    simp only [List.cons_append, Meets, run_cons, meets_append]
    constructor
    · rintro ⟨ha, h⟩
      exact ⟨⟨ha, fun t ht => (h t ht).1⟩, fun u ⟨t, ht, hu⟩ => (h t ht).2 u hu⟩
    · rintro ⟨⟨ha, h⟩, h'⟩
      exact ⟨ha, fun t ht => ⟨h t ht, fun u hu => h' u ⟨t, ht, hu⟩⟩⟩

/-- Every step meets the condition when every split of the labels says so. -/
theorem meets_of_split : ∀ {as : List α} {s : σ},
    (∀ as₁ a as₂ t, as = as₁ ++ a :: as₂ → run step s as₁ = some t → ok t a) → Meets step ok s as
  | [], s, _ => trivial
  | a :: as, s, h => by
    refine ⟨h [] a as s rfl rfl, fun t ht => meets_of_split fun as₁ b as₂ u has hu => ?_⟩
    exact h (a :: as₁) b as₂ u (by rw [has]; rfl) (run_cons.mpr ⟨t, ht, hu⟩)

/-- Along a run two conditions that agree on the steps that are taken are one. -/
theorem meets_congr {ok' : σ → α → Prop} (hok : ∀ s a t, step s a = some t → (ok s a ↔ ok' s a)) :
    ∀ {s : σ} {as : List α}, run step s as = some u → (Meets step ok s as ↔ Meets step ok' s as)
  | s, [], _ => Iff.rfl
  | s, a :: as, h => by
    obtain ⟨t, ht, h⟩ := run_cons.mp h
    simp only [Meets, ht, Option.some.injEq, forall_eq']
    rw [hok s a t ht, meets_congr hok h]

/-- The invariant rule for runs whose steps meet a condition. -/
theorem meets_inv {I : σ → Prop} (hstep : ∀ s a t, I s → ok s a → step s a = some t → I t) :
    ∀ {s : σ} {as : List α}, I s → Meets step ok s as → run step s as = some u → I u
  | s, [], hs, _, h => by cases h; exact hs
  | s, a :: as, hs, hm, h => by
    obtain ⟨t, ht, h⟩ := run_cons.mp h
    exact meets_inv hstep (hstep s a t hs hm.1 ht) (hm.2 t ht) h

/-- **Exactness rule.** If, under an invariant, a step keeps a property exactly when it meets the condition, a run keeps
the property exactly when all its steps meet the condition. -/
theorem meets_iff {I P : σ → Prop} (hI : ∀ s a t, I s → step s a = some t → I t)
    (hP : ∀ s a t, I s → step s a = some t → (P t ↔ P s ∧ ok s a)) :
    ∀ {s : σ} {as : List α}, I s → run step s as = some u → (P u ↔ P s ∧ Meets step ok s as)
  | s, [], _, h => by
    cases h
    exact (and_iff_left trivial).symm
  | s, a :: as, hs, h => by
    obtain ⟨t, ht, h⟩ := run_cons.mp h
    have hrest : (∀ t', step s a = some t' → Meets step ok t' as) ↔ Meets step ok t as := by
      simp [ht]
    rw [meets_iff hI hP (hI s a t hs ht) h, hP s a t hs ht, and_assoc, Meets, hrest]

/-! ## Interleaving -/

section Interleave

variable {ι : Type*} [DecidableEq ι]

/-- Components side by side; a label names the component that moves. -/
def interleave (step : σ → α → Option σ) (s : ι → σ) (l : ι × α) : Option (ι → σ) :=
  (step (s l.1) l.2).map fun t => Function.update s l.1 t

/-- What every step of a component preserves holds of all components. -/
theorem interleave_inv {I : σ → Prop} (hstep : ∀ s a t, I s → step s a = some t → I t) {s t : ι → σ} {l : ι × α}
    (hs : ∀ i, I (s i)) (h : interleave step s l = some t) (i : ι) : I (t i) := by
  obtain ⟨u, hu, rfl⟩ := Option.map_eq_some_iff.mp h
  by_cases hi : i = l.1
  · subst hi
    rw [Function.update_self]
    exact hstep _ _ _ (hs l.1) hu
  · rw [Function.update_of_ne hi]
    exact hs i

/-- The labels of component `i`. -/
def proj (i : ι) (ls : List (ι × α)) : List α := ls.filterMap fun l => if l.1 = i then some l.2 else none

/-- A component of an interleaved run is a run of its own labels. -/
theorem run_proj : ∀ {ls : List (ι × α)} {s t : ι → σ}, run (interleave step) s ls = some t →
    ∀ i, run step (s i) (proj i ls) = some (t i)
  | [], s, t, h, i => by cases h; rfl
  | (j, a) :: ls, s, t, h, i => by
    obtain ⟨u, hu, h⟩ := run_cons.mp h
    obtain ⟨v, hv, rfl⟩ := Option.map_eq_some_iff.mp hu
    have ih := run_proj h i
    by_cases hij : j = i
    · subst hij
      simp only [proj, List.filterMap_cons, if_true, Function.update_self] at ih ⊢
      exact run_cons.mpr ⟨v, hv, ih⟩
    · simp only [proj, List.filterMap_cons, hij, if_false] at ih ⊢
      rwa [Function.update_of_ne (Ne.symm hij)] at ih

end Interleave

end Transition
