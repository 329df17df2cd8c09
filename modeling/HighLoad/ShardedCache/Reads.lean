import HighLoad.ShardedCache.Cache

/-!
# What `get_sync` promises

`get_sync` bypasses the queue, but the storage it reads is the map after the first `seen` of the `set_async` and
`remove_async` tasks pushed to the shard, those its worker has executed. That number never goes down, and once the
future of a `get_async` is ready it covers everything pushed to the shard before that call (`getSync_prefix`).
-/

namespace HighLoad.ShardedCache

open Transition

variable {K V : Type} [DecidableEq K] {n : Nat}

/-- `set_async` and `remove_async` tasks. -/
def Task.changes : Task K V → Bool
  | .set _ _ | .remove _ => true
  | .get _ _ => false

/-- The `set_async` and `remove_async` tasks pushed to shard `i`, in order. -/
def writesTo (hn : 0 < n) (hash : K → Nat) (i : Fin n) (ls : List (Label K V n)) : List (Task K V) :=
  (pushes ls).filter fun t => t.changes && Cache.getId hn hash t.key = i

/-- How many `set_async` and `remove_async` tasks the worker has executed. -/
def Shard.seen (s : Shard K V) : Nat := (s.ran.filter Task.changes).length

/-! ## One shard -/

variable {s s' : Shard K V} {a : Act K V} {as : List (Act K V)}

/-- Calls of `get` do not change the map. -/
theorem mapAfter_changes (l : List (Task K V)) : mapAfter (l.filter Task.changes) = mapAfter l := by
  refine KeyedLog.replay_filter_id ?_ l
  intro t ht o
  cases t with
  | set | remove => cases ht
  | get k p => rfl

/-- The tasks called so far are called for good. -/
theorem ran_prefix_run (h : run Shard.step s as = some s') : s.ran <+: s'.ran := by
  refine run_inv (I := fun t : Shard K V => s.ran <+: t.ran) ?_ List.prefix_rfl h
  intro t a t' hI ht
  rcases step_cases ht with ⟨_, -, -, -, rfl⟩ | ⟨_, _, -, -, -, rfl⟩ | ⟨u, -, -, rfl⟩ | ⟨_, -, hq⟩
  · exact hI
  · exact hI
  · exact hI.trans (List.prefix_append _ _)
  · rw [hq.ran]; exact hI

omit [DecidableEq K] in
theorem seen_mono (h : s.ran <+: s'.ran) : s.seen ≤ s'.seen := (h.filter _).length_le

/-- The promise of a `get` that was pushed stays allocated. -/
theorem step_allocated {p : Nat} (h : s.step a = some s')
    (hp : s.promises p ≠ .unallocated ∨ ∃ k, a = .push (.get k p)) : s'.promises p ≠ .unallocated := by
  rcases step_cases h with ⟨t, rfl, -, -, rfl⟩ | ⟨_, _, rfl, -, -, rfl⟩ | ⟨t, rfl, -, rfl⟩ | ⟨_, rfl, hq⟩
  · cases t with
    | set | remove => simpa [Shard.pushTask, Shard.allocate] using hp
    | get k q =>
      by_cases hq : p = q
      · subst hq; simp [Shard.pushTask, Shard.allocate]
      · simpa [Shard.pushTask, Shard.allocate, Function.update_of_ne hq, Ne.symm hq] using hp
  · simpa using hp
  · rcases call_promises s t p with ⟨-, hc⟩ | ⟨-, hc⟩
    · simp [hc]
    · simpa [hc] using hp
  · simpa [hq.promises] using hp

theorem run_allocated (h : run Shard.step Shard.init as = some s) :
    ∀ k p, .get k p ∈ pushed as → s.promises p ≠ .unallocated := by
  refine run_hist (I := fun as (s : Shard K V) => ∀ k p, .get k p ∈ pushed as → s.promises p ≠ .unallocated)
    (fun k p h => by cases h) ?_ h
  intro as s a t hI ht k p hk
  refine step_allocated ht ?_
  rw [pushed_append, List.mem_append] at hk
  rcases hk with hk | hk
  · exact .inl (hI k p hk)
  · cases a with
    | push u => exact .inr ⟨k, by rw [List.mem_singleton.mp hk]⟩
    | sys e => cases hk

/-- When the promise of a `get` is ready, everything pushed before it has been called. -/
theorem ready_prefix {as₁ as₂ : List (Act K V)} {k : K} {p : Nat} {v : Option V}
    (h : run Shard.step Shard.init (as₁ ++ .push (.get k p) :: as₂) = some s) (hp : s.promises p = .ready v) :
    pushed as₁ <+: s.ran := by
  obtain ⟨s₁, h₁, hrest⟩ := run_append.mp h
  obtain ⟨s₂, hpush, -⟩ := run_cons.mp hrest
  have hI := run_logInv h
  obtain ⟨pre, k', post, hran, -⟩ := hI.ready p v hp
  have hran' : pre <+: s.ran := ⟨.get k' p :: post, hran.symm⟩
  have hpre : pre ++ [.get k' p] <+: s.ran := ⟨post, by simp [hran]⟩
  have hall : pushed (as₁ ++ .push (.get k p) :: as₂) = s.ran ++ (s.worker.inHand ++ s.tasks) := by simp [hI.log]
  have hran₁ : s.ran <+: pushed (as₁ ++ .push (.get k p) :: as₂) := ⟨_, hall.symm⟩
  have has₁ : pushed as₁ <+: pushed (as₁ ++ .push (.get k p) :: as₂) := ⟨_, (pushed_append _ _).symm⟩
  rcases Nat.lt_or_ge pre.length (pushed as₁).length with hlt | hge
  · -- Then `p` was pushed before, and is not fresh at this push.
    have hmem : pre ++ [.get k' p] <+: pushed as₁ :=
      List.prefix_of_prefix_length_le (hpre.trans hran₁) has₁ (by simpa using Nat.succ_le_of_lt hlt)
    have hno := run_allocated h₁ k' p (hmem.subset (by simp))
    cases step_inv hpush with
    | push _ _ _ hf => cases hq : s₁.promises p <;> simp_all [Shard.fresh]
  · exact (List.prefix_of_prefix_length_le has₁ (hran'.trans hran₁) hge).trans hran'

/-! ## The cache -/

variable {hn : 0 < n} {hash : K → Nat} {ls : List (Label K V n)} {c : Fin n → Shard K V}

omit [DecidableEq K] in
/-- The `set` and `remove` tasks among those pushed to shard `i`. -/
theorem writesTo_eq (hn : 0 < n) (hash : K → Nat) (i : Fin n) (ls : List (Label K V n)) :
    writesTo hn hash i ls = (pushed (proj i (ls.map (Cache.route hn hash)))).filter Task.changes := by
  rw [pushed_proj, List.filter_filter]
  rfl

omit [DecidableEq K] in
/-- A `get_async` among the labels of its shard. -/
theorem proj_getAsync (hn : 0 < n) (hash : K → Nat) (ls₁ ls₂ : List (Label K V n)) (k : K) (p : Nat) :
    proj (Cache.getId hn hash k) ((ls₁ ++ getAsync k p :: ls₂).map (Cache.route hn hash)) =
      proj (Cache.getId hn hash k) (ls₁.map (Cache.route hn hash)) ++
        .push (.get k p) :: proj (Cache.getId hn hash k) (ls₂.map (Cache.route hn hash)) := by
  simp [proj, getAsync, Cache.route, Task.key]

/-- The tasks a shard has executed are the first ones pushed to it. -/
theorem ran_changes (h : run (Cache.step hn hash) Cache.init ls = some c) (i : Fin n) :
    (c i).ran.filter Task.changes <+: writesTo hn hash i ls := by
  rw [writesTo_eq, (run_shard h i).log, List.append_assoc, List.filter_append]
  exact List.prefix_append _ _

/-- **`get_sync` is prefix-consistent and monotone.** In every state that a run reaches, `get_sync` on a key of shard
`i` answers from the map after the first `seen` of the `set_async` and `remove_async` tasks pushed to the shard; `seen`
never goes down as the run goes on, and it counts everything pushed to the shard before any `get_async` on it whose
future is ready. -/
theorem getSync_prefix (h : run (Cache.step hn hash) Cache.init ls = some c) (i : Fin n) :
    (c i).seen ≤ (writesTo hn hash i ls).length ∧
    (∀ k, Cache.getId hn hash k = i →
      Cache.getSync hn hash c k = mapAfter ((writesTo hn hash i ls).take (c i).seen) k) ∧
    (∀ ls' c', run (Cache.step hn hash) c ls' = some c' → (c i).seen ≤ (c' i).seen) ∧
    (∀ ls₁ k p ls₂ v, ls = ls₁ ++ getAsync k p :: ls₂ → Cache.getId hn hash k = i →
      (c i).promises p = .ready v → (writesTo hn hash i ls₁).length ≤ (c i).seen) := by
  have hpre := ran_changes h i
  refine ⟨hpre.length_le, ?_, ?_, ?_⟩
  · rintro k rfl
    rw [Shard.seen, ← List.prefix_iff_eq_take.mp hpre, mapAfter_changes, ← (run_shard h _).storage]
    rfl
  · intro ls' c' h'
    exact seen_mono (ran_prefix_run (run_proj (run_map h') i))
  · rintro ls₁ k p ls₂ v rfl rfl hp
    have hs := run_proj (run_map h) (Cache.getId hn hash k)
    rw [proj_getAsync] at hs
    have hready := ready_prefix hs hp
    rw [writesTo_eq]
    exact (hready.filter _).length_le

/-- In `parityRun` the future of `get(1)` is ready, so `get_sync(1)` covers the `set(1, 10)` before it. -/
theorem parityRun_reads :
    ∃ c, run (Cache.step (by decide) id) Cache.init parityRun = some c ∧
      1 ≤ (c 1).seen ∧
      Cache.getSync (by decide) id c 1 = mapAfter ((writesTo (by decide) id 1 parityRun).take (c 1).seen) 1 := by
  have hrun : run (Cache.step (by decide) id) Cache.init parityRun = some _ := rfl
  obtain ⟨-, hread, -, hready⟩ := getSync_prefix hrun 1
  exact ⟨_, hrun, hready [setAsync 1 10, setAsync 2 20] 1 0 _ (some 10) rfl rfl rfl, hread 1 rfl⟩

end HighLoad.ShardedCache
