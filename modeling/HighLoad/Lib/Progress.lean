import Mathlib.Algebra.BigOperators.Fin
import Mathlib.Algebra.Order.BigOperators.Group.Finset
import HighLoad.Lib.Transition

/-!
# Runs that come to rest

Every step is charged to a measure of the states, which a label may raise by its `cost`. Then no run is longer than what
it starts with and what its labels bring (`run_length_le`). Labels without a cost are a system's own: left to these it
comes to rest in a state without a step of its own (`exists_rest`). A family side by side has the sum of the measures of
its members (`interleave_pays`).
-/

namespace Transition

variable {σ α : Type*} {step : σ → α → Option σ} {s t : σ} {a : α} {as : List α}

/-! ## Measures -/

/-- Under the invariant `I`, a step with label `a` takes at least one from the measure, apart from the `cost` of `a`. -/
structure Pays (step : σ → α → Option σ) (I : σ → Prop) (measure : σ → Nat) (cost : α → Nat) : Prop where
  inv : ∀ s a t, I s → step s a = some t → I t
  pays : ∀ s a t, I s → step s a = some t → measure t + 1 ≤ measure s + cost a

variable {I : σ → Prop} {measure : σ → Nat} {cost : α → Nat}

/-- **The length of a run.** -/
theorem run_length_le (hp : Pays step I measure cost) : ∀ {s : σ} {as : List α}, I s → run step s as = some t →
    as.length + measure t ≤ measure s + (as.map cost).sum
  | s, [], _, h => by
    cases h
    exact (Nat.zero_add _).le
  | s, a :: as, hs, h => by
    obtain ⟨u, hu, h⟩ := run_cons.mp h
    have hstep := hp.pays s a u hs hu
    have hrest := run_length_le hp (hp.inv s a u hs hu) h
    rw [List.length_cons, List.map_cons, List.sum_cons]
    omega

/-- A system whose labels stand for labels of another. -/
theorem Pays.map {β : Type*} (hp : Pays step I measure cost) (f : β → α) :
    Pays (fun s b => step s (f b)) I measure fun b => cost (f b) where
  inv s b t := hp.inv s (f b) t
  pays s b t := hp.pays s (f b) t

/-! ## Rest -/

/-- No label in `own` has a step. -/
def AtRest (step : σ → α → Option σ) (own : α → Prop) (s : σ) : Prop := ∀ a, own a → step s a = none

/-- **A system left to labels without a cost comes to rest.** -/
theorem exists_rest {own : α → Prop} (hp : Pays step I measure cost) (hown : ∀ a, own a → cost a = 0) (s : σ)
    (hs : I s) : ∃ as t, (∀ a ∈ as, own a) ∧ run step s as = some t ∧ AtRest step own t := by
  by_cases hrest : AtRest step own s
  · exact ⟨[], s, fun _ ha => absurd ha List.not_mem_nil, rfl, hrest⟩
  · obtain ⟨a, ha⟩ := not_forall.mp hrest
    obtain ⟨hown_a, hstep⟩ := Classical.not_imp.mp ha
    obtain ⟨u, hu⟩ := Option.ne_none_iff_exists'.mp hstep
    have hlt : measure u < measure s := by
      have hpays := hp.pays s a u hs hu
      rw [hown a hown_a] at hpays
      omega
    obtain ⟨as, t, has, hrun, ht⟩ := exists_rest hp hown u (hp.inv s a u hs hu)
    exact ⟨a :: as, t, List.forall_mem_cons.mpr ⟨hown_a, has⟩, run_cons.mpr ⟨u, hu, hrun⟩, ht⟩
termination_by measure s

/-- The invariant rule for runs of own labels. -/
theorem own_inv {own : α → Prop} {J : σ → Prop} (hstep : ∀ s a t, own a → J s → step s a = some t → J t) :
    ∀ {s : σ} {as : List α}, (∀ a ∈ as, own a) → J s → run step s as = some t → J t
  | s, [], _, hs, h => by
    cases h
    exact hs
  | s, a :: as, has, hs, h => by
    obtain ⟨u, hu, h⟩ := run_cons.mp h
    obtain ⟨ha, has⟩ := List.forall_mem_cons.mp has
    exact own_inv hstep has (hstep s a u ha hs hu) h

/-- A run of labels without a cost is no longer than the measure it starts with. -/
theorem own_length_le {own : α → Prop} (hp : Pays step I measure cost) (hown : ∀ a, own a → cost a = 0) (hs : I s)
    (has : ∀ a ∈ as, own a) (h : run step s as = some t) : as.length ≤ measure s := by
  have hlen := run_length_le hp hs h
  have hcost : (as.map cost).sum = 0 := by
    rw [List.sum_eq_zero_iff]
    intro c hc
    obtain ⟨a, ha, rfl⟩ := List.mem_map.mp hc
    exact hown a (has a ha)
  omega

/-! ## Families -/

section Interleave

variable {ι : Type*} [DecidableEq ι] [Fintype ι]

/-- Two sums that differ in one member. -/
theorem sum_others {M : Type*} [AddCommMonoid M] {f g : ι → M} (i : ι) (h : ∀ j, j ≠ i → g j = f j) :
    ∑ j, g j + f i = ∑ j, f j + g i := by
  have hothers : ∑ j ∈ Finset.univ.erase i, g j = ∑ j ∈ Finset.univ.erase i, f j :=
    Finset.sum_congr rfl fun j hj => h j (Finset.ne_of_mem_erase hj)
  rw [← Finset.add_sum_erase Finset.univ f (Finset.mem_univ i), ← Finset.add_sum_erase Finset.univ g (Finset.mem_univ i),
    hothers, add_right_comm, add_comm (g i), add_right_comm]

/-- What a new member changes of a sum over a family. -/
theorem sum_update {M : Type*} [AddCommMonoid M] (f : σ → M) (s : ι → σ) (i : ι) (u : σ) :
    ∑ j, f (Function.update s i u j) + f (s i) = ∑ j, f (s j) + f u := by
  have hsum := sum_others (f := fun j => f (s j)) (g := fun j => f (Function.update s i u j)) i fun j hj => by
    rw [Function.update_of_ne hj]
  rwa [Function.update_self] at hsum

/-- **The members of a family pay for its steps.** -/
theorem interleave_pays (hp : Pays step I measure cost) :
    Pays (interleave (ι := ι) step) (fun s => ∀ i, I (s i)) (fun s => ∑ i, measure (s i)) fun l => cost l.2 where
  inv _ _ _ hs h := interleave_inv hp.inv hs h
  pays s l t hs h := by
    obtain ⟨u, hu, rfl⟩ := Option.map_eq_some_iff.mp h
    have hstep := hp.pays _ _ _ (hs l.1) hu
    have hsum := sum_update measure s l.1 u
    omega

end Interleave

end Transition
