import HighLoad.ShardedCache.Invariant

/-!
# The sharded cache refines one map

A `Cache` is `n` shards side by side; `getId` sends every task on a key to one shard. Each shard runs its own queue, so
the shards drain in any relative order; since a key lives in one shard, the order across shards cannot be seen: the
log of a shard is the part of the log of all pushes whose keys it owns (`pushed_proj`), and the entry of a key depends
on that part only. Hence a `get_async` answers like one sequential map to which all earlier pushes were applied
(`get_async_refines`), and no step reads or changes the entry of a key other than that of the task it calls
(`step_frame`, `call_local`).
-/

namespace HighLoad.ShardedCache

open Transition

variable {K V : Type} {n : Nat}

/-- A step of the cache: a client's `push_task`, through `set_async`, `remove_async` or `get_async`, or another step
of shard `i`. -/
inductive Label (K V : Type) (n : Nat) where
  | push (task : Task K V)
  | sys (i : Fin n) (e : Sys)
  deriving DecidableEq, Repr

def setAsync (key : K) (value : V) : Label K V n := .push (.set key value)

def removeAsync (key : K) : Label K V n := .push (.remove key)

/-- `promise` is where `make_shared` put the promise. -/
def getAsync (key : K) (promise : Nat) : Label K V n := .push (.get key promise)

/-- The tasks pushed along a list of labels, in push order over all shards. -/
def pushes (ls : List (Label K V n)) : List (Task K V) :=
  ls.filterMap fun
    | .push t => some t
    | .sys _ _ => none

namespace Cache

/-- `hash` is `std::hash<KeyType>`; the cache has at least one shard. -/
def getId (hn : 0 < n) (hash : K → Nat) (key : K) : Fin n := ⟨hash key % n, Nat.mod_lt _ hn⟩

/-- The shard a label belongs to, and its step there. -/
def route (hn : 0 < n) (hash : K → Nat) : Label K V n → Fin n × Act K V
  | .push t => (getId hn hash t.key, .push t)
  | .sys i e => (i, .sys e)

def init : Fin n → Shard K V := fun _ => Shard.init

variable [DecidableEq K]

def step (hn : 0 < n) (hash : K → Nat) (c : Fin n → Shard K V) (l : Label K V n) : Option (Fin n → Shard K V) :=
  interleave Shard.step c (route hn hash l)

/-- The fast path: reads the storage, not the queue. -/
def getSync (hn : 0 < n) (hash : K → Nat) (c : Fin n → Shard K V) (key : K) : Option V :=
  (c (getId hn hash key)).get key

end Cache

variable {hn : 0 < n} {hash : K → Nat} {ls : List (Label K V n)}

/-! ## The log of a shard -/

/-- The tasks pushed to shard `i` are those of all pushes whose keys it owns, in the same order. -/
theorem pushed_proj (i : Fin n) (ls : List (Label K V n)) :
    pushed (proj i (ls.map (Cache.route hn hash))) = (pushes ls).filter (Cache.getId hn hash ·.key = i) := by
  induction ls with
  | nil => rfl
  | cons l ls ih =>
    cases l with
    | push t =>
      by_cases h : Cache.getId hn hash t.key = i
      · simpa [proj, pushed, pushes, Cache.route, h] using ih
      · simpa [proj, pushed, pushes, Cache.route, h] using ih
    | sys j e =>
      by_cases h : j = i
      · simpa [proj, pushed, pushes, Cache.route, h] using ih
      · simpa [proj, pushed, pushes, Cache.route, h] using ih

/-- A task of the log stands at a push, with the log before it pushed before. -/
theorem pushes_split {pre post : List (Task K V)} {t : Task K V} {p : Task K V → Bool}
    (h : (pushes ls).filter p = pre ++ t :: post) :
    ∃ ls₁ ls₂, ls = ls₁ ++ .push t :: ls₂ ∧ (pushes ls₁).filter p = pre ∧ p t = true := by
  induction ls generalizing pre with
  | nil => simp [pushes] at h
  | cons l ls ih =>
    cases l with
    | sys j e =>
      obtain ⟨ls₁, ls₂, rfl, h₁, ht⟩ := ih h
      exact ⟨.sys j e :: ls₁, ls₂, rfl, h₁, ht⟩
    | push u =>
      have hu : pushes (.push u :: ls) = u :: pushes ls := rfl
      rw [hu, List.filter_cons] at h
      split at h
      case isFalse hp =>
        obtain ⟨ls₁, ls₂, rfl, h₁, ht⟩ := ih h
        exact ⟨.push u :: ls₁, ls₂, rfl, by simpa [pushes, hp] using h₁, ht⟩
      case isTrue hp =>
        cases pre with
        | nil =>
          obtain ⟨rfl, -⟩ := List.cons.inj h
          exact ⟨[], ls, rfl, rfl, hp⟩
        | cons v pre =>
          obtain ⟨rfl, hl⟩ := List.cons.inj h
          obtain ⟨ls₁, ls₂, rfl, h₁, ht⟩ := ih hl
          exact ⟨.push u :: ls₁, ls₂, rfl, by simpa [pushes, hp] using h₁, ht⟩

variable [DecidableEq K] {c c' : Fin n → Shard K V} {l : Label K V n}

/-- Each shard of a run keeps the log invariant over its part of the pushes. -/
theorem run_shard (h : run (Cache.step hn hash) Cache.init ls = some c) (i : Fin n) :
    LogInv (proj i (ls.map (Cache.route hn hash))) (c i) :=
  run_logInv (run_proj (run_map h) i)

/-- The entry of a key is that of the log of its shard. -/
theorem mapAfter_filter (l : List (Task K V)) (k : K) :
    mapAfter (l.filter (Cache.getId hn hash ·.key = Cache.getId hn hash k)) k = mapAfter l k :=
  KeyedLog.replay_filter fun t _ ht => by simp [ht]

/-- A `get` task of shard `i` with the log before it: its push, and the entry it must find. -/
theorem get_split {i : Fin n} {k : K} {p : Nat} {pre post : List (Task K V)}
    (h : pushed (proj i (ls.map (Cache.route hn hash))) = pre ++ .get k p :: post) :
    ∃ ls₁ ls₂, ls = ls₁ ++ getAsync k p :: ls₂ ∧ Cache.getId hn hash k = i ∧
      mapAfter pre k = mapAfter (pushes ls₁) k := by
  rw [pushed_proj] at h
  obtain ⟨ls₁, ls₂, hls, rfl, hk⟩ := pushes_split h
  obtain rfl : Cache.getId hn hash k = i := of_decide_eq_true hk
  exact ⟨ls₁, ls₂, hls, rfl, mapAfter_filter _ _⟩

/-! ## Frames -/

/-- A step changes an entry only by calling a task on its key, in the shard of the label. -/
theorem step_frame (h : Cache.step hn hash c l = some c') {i : Fin n} {k : K}
    (hk : (c' i).storage k ≠ (c i).storage k) : ∃ t, l = .sys i .worker ∧ (c i).worker = .call t ∧ t.key = k := by
  obtain ⟨s', hs, rfl⟩ := Option.map_eq_some_iff.mp h
  by_cases hi : i = (Cache.route hn hash l).1
  · subst hi
    rw [Function.update_self] at hk
    rcases step_cases hs with ⟨t, -, -, -, rfl⟩ | ⟨t, ts, -, -, -, rfl⟩ | ⟨t, ha, hw, rfl⟩ | ⟨e, -, hq⟩
    · exact absurd rfl hk
    · exact absurd rfl hk
    · refine ⟨t, ?_, hw, ?_⟩
      · cases l with
        | push u => cases ha
        | sys j e => cases ha; rfl
      · by_contra hne
        refine hk ?_
        rw [Shard.call_storage, KeyedLog.apply_of_ne _ (Ne.symm hne)]
    · exact absurd (by rw [hq.storage]) hk
  · rw [Function.update_of_ne hi] at hk
    exact absurd rfl hk

/-- What a call does depends on no entry but that of its key. -/
theorem call_local (s : Shard K V) (t : Task K V) (m : K → Option V) (hm : m t.key = s.storage t.key) :
    (Shard.call { s with storage := m } t).promises = (s.call t).promises ∧
      (Shard.call { s with storage := m } t).storage t.key = (s.call t).storage t.key := by
  constructor
  · cases t with
    | set | remove => rfl
    | get k p =>
      have hk : m k = s.storage k := hm
      simp [Shard.call, Shard.get, hk]
  · simp [Shard.call_storage, hm]

/-! ## Refinement -/

/-- **The sharded cache refines one sequential map.** After any run: the next task of a `get_async` to be called puts
in its promise the entry of the map to which all earlier pushes were applied; so it is with every promise that is ready;
a step changes only the entry of the key of the task it calls, and a call reads no other entry. -/
theorem get_async_refines (h : run (Cache.step hn hash) Cache.init ls = some c) :
    (∀ i k p c', (c i).worker = .call (.get k p) → Cache.step hn hash c (.sys i .worker) = some c' →
      ∃ ls₁ ls₂, ls = ls₁ ++ getAsync k p :: ls₂ ∧ Cache.getId hn hash k = i ∧
        (c' i).promises p = .ready (mapAfter (pushes ls₁) k)) ∧
    (∀ i p v, (c i).promises p = .ready v → ∃ ls₁ k ls₂, ls = ls₁ ++ getAsync k p :: ls₂ ∧
      Cache.getId hn hash k = i ∧ v = mapAfter (pushes ls₁) k) ∧
    (∀ l c', Cache.step hn hash c l = some c' → ∀ i k, (c' i).storage k ≠ (c i).storage k →
      ∃ t, l = .sys i .worker ∧ (c i).worker = .call t ∧ t.key = k) ∧
    (∀ i (t : Task K V) (m : K → Option V), m t.key = (c i).storage t.key →
      (Shard.call { c i with storage := m } t).promises = ((c i).call t).promises ∧
        (Shard.call { c i with storage := m } t).storage t.key = ((c i).call t).storage t.key) := by
  refine ⟨fun i k p c' hw hs => ?_, fun i p v hp => ?_, fun l c' hs i k hk => step_frame hs hk,
    fun i t m hm => call_local (c i) t m hm⟩
  · have hI := run_shard h i
    have hlog := hI.log
    rw [hw] at hlog
    obtain ⟨ls₁, ls₂, hls, hi, he⟩ := get_split (by simpa [Pc.inHand] using hlog)
    refine ⟨ls₁, ls₂, hls, hi, ?_⟩
    obtain ⟨s', hs', rfl⟩ := Option.map_eq_some_iff.mp hs
    have hs'' : (c i).step (.sys .worker) = some s' := hs'
    simp only [Shard.step, Shard.workerStep, hw, Option.some.injEq] at hs''
    subst hs''
    simp [Cache.route, Shard.call, Shard.get, hI.storage, he]
  · have hI := run_shard h i
    obtain ⟨pre, k, post, hr, rfl⟩ := hI.ready p v hp
    have hlog : pushed (proj i (ls.map (Cache.route hn hash))) =
        pre ++ .get k p :: (post ++ (c i).worker.inHand ++ (c i).tasks) := by simp [hI.log, hr]
    obtain ⟨ls₁, ls₂, hls, hi, he⟩ := get_split hlog
    exact ⟨ls₁, k, ls₂, hls, hi, he⟩

/-- Two shards, keys by parity: `set(1, 10)`, `set(2, 20)` and `get(1)` are pushed, shard 1 runs before shard 0. -/
def parityRun : List (Label Nat Nat 2) :=
  [setAsync 1 10, setAsync 2 20, getAsync 1 0] ++ List.replicate 10 (.sys (Fin.last 1) .worker)

theorem parityRun_refines :
    ∃ c, run (Cache.step (by decide) id) Cache.init parityRun = some c ∧
      ∃ ls₁ k ls₂, parityRun = ls₁ ++ getAsync k 0 :: ls₂ ∧ Cache.getId (by decide) id k = (1 : Fin 2) ∧
        some 10 = mapAfter (pushes ls₁) k :=
  ⟨_, rfl, (get_async_refines (show run (Cache.step (by decide) id) Cache.init parityRun = some _ from rfl)).2.1
    1 0 (some 10) rfl⟩

end HighLoad.ShardedCache
