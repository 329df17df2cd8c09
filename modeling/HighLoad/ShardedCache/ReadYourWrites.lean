import HighLoad.ShardedCache.Cache

/-!
# When `get_sync` sees the calls made before it

`get_sync` reads the storage while earlier calls may wait in the queue, so it answers as if only the calls already
executed had been made (`getSync_eq`). The calls on a key are those executed followed by those waiting (`calls_eq`), so
a client reads its own writes exactly when none waits, or the last one waiting leaves the key as the last one executed
did (`getSync_lastCall_iff`).
-/

namespace HighLoad.ShardedCache

open Transition

variable {K V : Type} [DecidableEq K] {n : Nat}

/-- `set_async` and `remove_async` calls on `k`. -/
def Task.writes (k : K) : Task K V → Bool
  | .set k' _ => k' = k
  | .remove k' => k' = k
  | .get _ _ => false

/-- The calls on `k` along a list of labels, in order. -/
def calls (k : K) (ls : List (Label K V n)) : List (Task K V) := (pushes ls).filter (Task.writes k)

/-- The value of the last call if it is a `set_async`, no value if it is a `remove_async` or there is none. -/
def lastValue (l : List (Task K V)) : Option V :=
  match l.getLast? with
  | some (.set _ v) => some v
  | _ => none

/-- The calls on `k` that its worker has not executed yet: the task in hand and the queue. -/
def waiting (k : K) (s : Shard K V) : List (Task K V) := (s.worker.inHand ++ s.tasks).filter (Task.writes k)

/-- The calls on `k` executed so far. -/
def executed (k : K) (ls : List (Label K V n)) (s : Shard K V) : List (Task K V) :=
  (calls k ls).take ((calls k ls).length - (waiting k s).length)

/-! ## The last call decides the entry -/

omit [DecidableEq K] in
theorem lastValue_concat (l : List (Task K V)) (t : Task K V) : lastValue (l ++ [t]) = t.eff none := by
  cases t <;> simp [lastValue, Task.eff]

omit [DecidableEq K] in
theorem lastValue_append {l₂ : List (Task K V)} (h : l₂ ≠ []) (l₁ : List (Task K V)) :
    lastValue (l₁ ++ l₂) = lastValue l₂ := by
  simp [lastValue, List.getLast?_append, List.getLast?_eq_some_getLast h]

/-- A call on `k` overwrites the entry; everything else leaves it alone. -/
theorem apply_writes (m : K → Option V) (t : Task K V) (k : K) :
    KeyedLog.apply Task.key Task.eff m t k = if t.writes k then t.eff none else m k := by
  by_cases hk : t.key = k
  · subst hk
    rw [KeyedLog.apply_self]
    cases t <;> simp [Task.eff, Task.writes, Task.key]
  · have hw : t.writes k = false := by
      cases t with
      | set k' v => exact decide_eq_false hk
      | remove k' => exact decide_eq_false hk
      | get k' p => rfl
    rw [KeyedLog.apply_of_ne _ (Ne.symm hk), hw]
    rfl

theorem mapAfter_eq_lastValue (l : List (Task K V)) (k : K) : mapAfter l k = lastValue (l.filter (Task.writes k)) := by
  induction l using List.reverseRecOn with
  | nil => rfl
  | append_singleton l t ih =>
    rw [mapAfter_concat, apply_writes, List.filter_append]
    by_cases hw : t.writes k = true
    · simp [hw, lastValue_concat]
    · simp [hw, ih]

/-! ## The fast path -/

variable {hn : 0 < n} {hash : K → Nat} {ls : List (Label K V n)} {c : Fin n → Shard K V}

/-- The calls on `k` all go to the shard of `k`. -/
theorem calls_eq_pushed (hn : 0 < n) (hash : K → Nat) (k : K) (ls : List (Label K V n)) :
    calls k ls = (pushed (proj (Cache.getId hn hash k) (ls.map (Cache.route hn hash)))).filter (Task.writes k) := by
  rw [pushed_proj, List.filter_filter, calls]
  apply List.filter_congr
  intro t _
  cases t <;> simp +contextual [Task.writes, Task.key]

/-- The calls on `k` are those its worker has called, then those that wait. -/
theorem calls_eq_ran (h : run (Cache.step hn hash) Cache.init ls = some c) (k : K) :
    calls k ls = (c (Cache.getId hn hash k)).ran.filter (Task.writes k) ++ waiting k (c (Cache.getId hn hash k)) := by
  rw [calls_eq_pushed hn hash, (run_shard h _).log, List.append_assoc, List.filter_append]
  rfl

theorem executed_eq_ran (h : run (Cache.step hn hash) Cache.init ls = some c) (k : K) :
    executed k ls (c (Cache.getId hn hash k)) = (c (Cache.getId hn hash k)).ran.filter (Task.writes k) := by
  simp [executed, calls_eq_ran h]

theorem calls_eq (h : run (Cache.step hn hash) Cache.init ls = some c) (k : K) :
    calls k ls = executed k ls (c (Cache.getId hn hash k)) ++ waiting k (c (Cache.getId hn hash k)) := by
  rw [executed_eq_ran h]
  exact calls_eq_ran h k

/-- `get_sync` answers as if only the executed calls had been made. -/
theorem getSync_eq (h : run (Cache.step hn hash) Cache.init ls = some c) (k : K) :
    Cache.getSync hn hash c k = lastValue (executed k ls (c (Cache.getId hn hash k))) := by
  rw [executed_eq_ran h, ← mapAfter_eq_lastValue, ← (run_shard h _).storage]
  rfl

/-- **When a client reads its own writes.** After any run, `get_sync(k)` gives the value of the last `set_async` on `k`,
or no value if the last call was `remove_async`, if and only if no call on `k` waits in its shard or the last one
waiting leaves `k` as the last one executed did. -/
theorem getSync_lastCall_iff (h : run (Cache.step hn hash) Cache.init ls = some c) (k : K) :
    Cache.getSync hn hash c k = lastValue (calls k ls) ↔
      waiting k (c (Cache.getId hn hash k)) = [] ∨
        lastValue (waiting k (c (Cache.getId hn hash k))) =
          lastValue (executed k ls (c (Cache.getId hn hash k))) := by
  rw [getSync_eq h, calls_eq h k]
  by_cases hw : waiting k (c (Cache.getId hn hash k)) = []
  · simp [hw]
  · rw [lastValue_append hw]
    constructor
    · intro he
      exact .inr he.symm
    · rintro (hn | he)
      · exact absurd hn hw
      · exact he.symm

/-- `basic_set_get` on a worker that has not started: `set_async(1, 100)` has returned, `get_sync(1)` finds nothing. -/
theorem basic_set_get_stale :
    ∃ c, run (Cache.step (n := 4) (by decide) id) Cache.init [setAsync 1 100, .sys 1 .notifyOne] = some c ∧
      lastValue (calls 1 [(setAsync 1 100 : Label Nat Nat 4), .sys 1 .notifyOne]) = some 100 ∧
      Cache.getSync (by decide) id c 1 = none :=
  ⟨_, rfl, rfl, rfl⟩

/-- `basic_set_get` with a worker that has run before the read. -/
def executedRun : List (Label Nat Nat 4) :=
  [setAsync 1 100, .sys 1 .notifyOne] ++ List.replicate 6 (.sys 1 .worker)

/-- No call waits. -/
theorem basic_set_get_executed :
    ∃ c, run (Cache.step (by decide) id) Cache.init executedRun = some c ∧
      Cache.getSync (by decide) id c 1 = some 100 :=
  ⟨_, rfl, (getSync_lastCall_iff (show run (Cache.step (by decide) id) Cache.init executedRun = some _ from rfl) 1).mpr
    (.inl rfl)⟩

end HighLoad.ShardedCache
