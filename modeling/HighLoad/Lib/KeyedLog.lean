import Mathlib.Logic.Function.Basic
import Mathlib.Data.List.Induction

/-!
# Logs of events on keyed entries

Every event `e` of a log acts by `eff e` on the entry of its key `key e` and on no other entry. `replay` applies a log to
a table of entries; the entry of `k` depends only on the events of `k` (`replay_eq_foldl`), so events of other keys may
be dropped (`replay_filter`), as may events without effect (`replay_filter_id`).
-/

namespace KeyedLog

variable {E K S : Type*} [DecidableEq K] (key : E → K) (eff : E → S → S) (s₀ : S)

/-- One event on the table. -/
def apply (m : K → S) (e : E) : K → S := Function.update m (key e) (eff e (m (key e)))

/-- The table after a log, every entry starting at `s₀`. -/
def replay (l : List E) : K → S := l.foldl (apply key eff) fun _ => s₀

variable {key eff s₀}

@[simp] theorem apply_self (m : K → S) (e : E) : apply key eff m e (key e) = eff e (m (key e)) := by simp [apply]

/-- An event leaves the entries of other keys alone. -/
theorem apply_of_ne (m : K → S) {e : E} {k : K} (h : k ≠ key e) : apply key eff m e k = m k := by
  simp [apply, Function.update_of_ne h]

@[simp] theorem replay_nil (k : K) : replay key eff s₀ [] k = s₀ := rfl

@[simp] theorem replay_concat (l : List E) (e : E) :
    replay key eff s₀ (l ++ [e]) = apply key eff (replay key eff s₀ l) e := by simp [replay]

/-- The entry of `k` is the fold of the events of `k`. -/
theorem replay_eq_foldl (l : List E) (k : K) :
    replay key eff s₀ l k = (l.filter (key · = k)).foldl (fun s e => eff e s) s₀ := by
  induction l using List.reverseRecOn with
  | nil => rfl
  | append_singleton l e ih =>
    rw [replay_concat, List.filter_append]
    by_cases h : key e = k
    · subst h; simp [ih]
    · simp [apply_of_ne _ (Ne.symm h), h, ih]

/-- A filter that keeps the events of `k` keeps the entry of `k`. -/
theorem replay_filter {p : E → Bool} {l : List E} {k : K} (hp : ∀ e ∈ l, key e = k → p e = true) :
    replay key eff s₀ (l.filter p) k = replay key eff s₀ l k := by
  rw [replay_eq_foldl, replay_eq_foldl, List.filter_filter]
  congr 1
  apply List.filter_congr
  intro e he
  by_cases h : key e = k
  · simp [h, hp e he h]
  · simp [h]

/-- A filter that drops events without effect only keeps every entry. -/
theorem replay_filter_id {p : E → Bool} (hp : ∀ e, p e = false → ∀ s, eff e s = s) (l : List E) :
    replay key eff s₀ (l.filter p) = replay key eff s₀ l := by
  induction l using List.reverseRecOn with
  | nil => rfl
  | append_singleton l e ih =>
    rw [List.filter_append, replay_concat]
    cases he : p e with
    | true => simp [he, ih]
    | false => simp [he, ih, apply, hp e he]

end KeyedLog
