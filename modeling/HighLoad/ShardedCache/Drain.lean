import HighLoad.Lib.Progress
import HighLoad.ShardedCache.Reads

/-!
# No task is forgotten and no worker spins

While a shard lives, no wakeup of `push_task` is lost: a worker that is blocked with tasks in its queue has a `notify_one`
still to come (`Wakeful`). Each step of a worker takes a unit off the work of its shard, which only a push or a wakeup
brings (`shard_pays`); so workers do not spin (`workers_bounded`), and a cache left to its workers comes to rest. What it
rests in is the sequential map after all calls, with every future answered as of its call (`cache_drains`).
-/

namespace HighLoad.ShardedCache

open Transition

variable {K V : Type}

/-! ## The work of a shard -/

/-- The steps to the next blocking, when there is no task. -/
def Pc.rank : Pc K V → Nat
  | .call _ => 5
  | .loopHead => 4
  | .lock => 3
  | .wait => 2
  | .block | .waited => 1
  | .blocked | .exited => 0

/-- What the worker has to do at most: five steps a task, and a round without a task after each `notify_one`. -/
def Shard.work (s : Shard K V) : Nat := 5 * s.tasks.length + 4 * s.notifies + s.worker.rank

/-- Steps of the worker, and those that finish a `push_task`. -/
def Sys.Own (e : Sys) : Prop := e = .worker ∨ e = .notifyOne

/-- Wakeups that no `push_task` has asked for. -/
def Sys.Wakes (e : Sys) : Prop := e = .spuriousWakeup ∨ e = .notifyAll

instance (e : Sys) : Decidable e.Own := inferInstanceAs (Decidable (_ ∨ _))

instance (e : Sys) : Decidable e.Wakes := inferInstanceAs (Decidable (_ ∨ _))

def Act.Own : Act K V → Prop
  | .push _ => False
  | .sys e => e.Own

/-- The work that a label brings, and its own step. -/
def Act.cost : Act K V → Nat
  | .push _ => 10
  | .sys .worker | .sys .notifyOne => 0
  | .sys .spuriousWakeup | .sys .notifyAll => 4
  | .sys .storeStop | .sys .join => 1

theorem rank_notify (pc : Pc K V) : pc.notify.rank ≤ pc.rank + 3 := by
  cases pc <;> simp [Pc.notify, Pc.rank]

/-! ## No wakeup is lost -/

/-- A worker blocks without a task, stays blocked only until a `notify_one` comes, and returns only when told to. -/
structure Wakeful (s : Shard K V) : Prop where
  block : s.worker = .block → s.tasks = []
  blocked : s.worker = .blocked → s.tasks ≠ [] → s.notifies ≠ 0
  waited : s.worker = .waited → s.tasks = [] → s.stop = true
  exited : s.worker = .exited → s.stop = true
  alive : s.dtor = .alive → s.stop = false

theorem init_wakeful : Wakeful (Shard.init : Shard K V) := by
  constructor <;> simp [Shard.init]

variable [DecidableEq K] {s s' : Shard K V} {a : Act K V} {as : List (Act K V)}

omit [DecidableEq K] in
/-- Moving the worker to a place where nothing is asked of it. -/
theorem Wakeful.move (hw : Wakeful s) {pc : Pc K V} (hpc : pc ≠ .block ∧ pc ≠ .blocked ∧ pc ≠ .waited ∧ pc ≠ .exited) :
    Wakeful { s with worker := pc } :=
  ⟨fun h => absurd h hpc.1, fun h => absurd h hpc.2.1, fun h => absurd h hpc.2.2.1, fun h => absurd h hpc.2.2.2, hw.alive⟩

theorem step_wakeful (hw : Wakeful s) (h : s.step a = some s') : Wakeful s' := by
  cases step_inv h with
  | push t hm hd =>
    refine ⟨fun hb => ?_, fun _ _ => Nat.succ_ne_zero _, fun hb => ?_, hw.exited, hw.alive⟩
    · have hb : s.worker = .block := hb
      rw [hb] at hm
      cases hm
    · have hb : s.worker = .waited := hb
      rw [hb] at hm
      cases hm
  | notifyOne =>
    cases hpc : s.worker with
    | blocked => exact ⟨by simp [Pc.notify], by simp [Pc.notify], by simp [Pc.notify], by simp [Pc.notify], hw.alive⟩
    | loopHead | lock | wait | call => exact ⟨nofun, nofun, nofun, nofun, hw.alive⟩
    | block => exact ⟨fun _ => hw.block hpc, nofun, nofun, nofun, hw.alive⟩
    | waited => exact ⟨nofun, nofun, fun _ => hw.waited hpc, nofun, hw.alive⟩
    | exited => exact ⟨nofun, nofun, nofun, fun _ => hw.exited hpc, hw.alive⟩
  | loopHead hpc =>
    split
    case isTrue hstop => exact ⟨nofun, nofun, nofun, fun _ => hstop, hw.alive⟩
    case isFalse => exact hw.move ⟨nofun, nofun, nofun, nofun⟩
  | lock | wakeup => exact hw.move ⟨nofun, nofun, nofun, nofun⟩
  | wait hpc =>
    split
    case isTrue hready =>
      refine ⟨nofun, nofun, fun _ hnil => ?_, nofun, hw.alive⟩
      have hnil : s.tasks = [] := hnil
      simpa [hnil] using hready
    case isFalse hready =>
      refine ⟨fun _ => ?_, nofun, nofun, nofun, hw.alive⟩
      rw [Bool.or_eq_true, not_or] at hready
      simpa using hready.1
  | block hpc => exact ⟨nofun, fun _ hne => absurd (hw.block hpc) hne, nofun, nofun, hw.alive⟩
  | noTask hpc htasks =>
    have hstop := hw.waited hpc htasks
    rw [if_pos hstop]
    exact ⟨nofun, nofun, nofun, fun _ => hstop, hw.alive⟩
  | pop => exact ⟨nofun, nofun, nofun, nofun, hw.alive⟩
  | call t => exact ⟨nofun, nofun, nofun, nofun, by simpa using hw.alive⟩
  | storeStop => exact ⟨hw.block, hw.blocked, fun _ _ => rfl, fun _ => rfl, nofun⟩
  | notifyAll =>
    cases hpc : s.worker with
    | blocked | loopHead | lock | wait | call => exact ⟨nofun, nofun, nofun, nofun, nofun⟩
    | block => exact ⟨fun _ => hw.block hpc, nofun, nofun, nofun, nofun⟩
    | waited => exact ⟨nofun, nofun, fun _ => hw.waited hpc, nofun, nofun⟩
    | exited => exact ⟨nofun, nofun, nofun, fun _ => hw.exited hpc, nofun⟩
  | join => exact ⟨hw.block, hw.blocked, hw.waited, hw.exited, nofun⟩

theorem run_wakeful (h : run Shard.step Shard.init as = some s) : Wakeful s :=
  run_inv (fun _ _ _ => step_wakeful) init_wakeful h

/-! ## Every step is paid for -/

theorem step_pays (hw : Wakeful s) (h : s.step a = some s') : s'.work + 1 ≤ s.work + a.cost := by
  cases step_inv h with
  | push t =>
    simp only [Shard.work, Shard.pushTask, Act.cost, List.length_append, List.length_singleton]
    omega
  | notifyOne hn =>
    have hrank := rank_notify s.worker
    simp only [Shard.work]
    omega
  | loopHead hpc =>
    simp only [Shard.work, hpc]
    split <;> simp only [Pc.rank] <;> omega
  | lock hpc | block hpc => simp [Shard.work, hpc, Pc.rank]
  | wait hpc =>
    simp only [Shard.work, hpc]
    split <;> simp [Pc.rank]
  | noTask hpc htasks =>
    simp [Shard.work, hpc, htasks, hw.waited hpc htasks, Pc.rank]
  | pop t ts hpc htasks => simp [Shard.work, hpc, htasks, Pc.rank]; omega
  | call t hpc =>
    have hn : (s.call t).notifies = s.notifies := by cases t <;> rfl
    simp [Shard.work, hpc, hn, Pc.rank]
  | wakeup hpc => simp [Shard.work, hpc, Act.cost, Pc.rank]
  | storeStop | join => simp [Shard.work, Act.cost]
  | notifyAll =>
    have hrank := rank_notify s.worker
    simp only [Shard.work, Act.cost]
    omega

theorem shard_pays : Pays (Shard.step (K := K) (V := V)) Wakeful Shard.work Act.cost :=
  ⟨fun _ _ _ => step_wakeful, fun _ _ _ => step_pays⟩

/-! ## A shard at rest -/

/-- **A shard at rest has done everything.** -/
theorem rest_ran (hw : Wakeful s) (hd : s.dtor = .alive) (hrest : AtRest Shard.step Act.Own s) :
    s.tasks = [] ∧ s.worker = .blocked := by
  have hworker : s.workerStep = none := hrest (.sys .worker) (.inl rfl)
  have hnotify : s.step (.sys .notifyOne) = none := hrest (.sys .notifyOne) (.inr rfl)
  have hstop := hw.alive hd
  have hpc : s.worker = .blocked := by
    cases hpc : s.worker with
    | blocked => rfl
    | exited => rw [hw.exited hpc] at hstop; cases hstop
    | waited =>
      rw [Shard.workerStep, hpc] at hworker
      cases htasks : s.tasks <;> simp [htasks] at hworker
    | loopHead | lock | wait | block | call => simp [Shard.workerStep, hpc] at hworker
  refine ⟨?_, hpc⟩
  by_contra hne
  simp [Shard.step, hw.blocked hpc hne] at hnotify

theorem own_alive (ha : a.Own) (hd : s.dtor = .alive) (h : s.step a = some s') : s'.dtor = .alive := by
  cases step_inv h with
  | push | notifyOne | loopHead | lock | wait | block | noTask | pop | wakeup => exact hd
  | call t => simpa using hd
  | storeStop | notifyAll | join => rcases ha with ha | ha <;> cases ha

/-! ## The answer of a call -/

/-- No two calls of `get_async` share a promise. -/
theorem run_promises_unique (h : run Shard.step Shard.init as = some s) :
    (pushed as).Pairwise fun t u => ∀ k k' p, t = .get k p → u ≠ .get k' p := by
  induction as using List.reverseRecOn generalizing s with
  | nil => exact List.Pairwise.nil
  | append_singleton as a ih =>
    obtain ⟨s₁, h₁, hstep⟩ := run_concat.mp h
    rw [pushed_append, List.pairwise_append]
    cases a with
    | sys e => exact ⟨ih h₁, List.Pairwise.nil, fun _ _ _ hu => absurd hu List.not_mem_nil⟩
    | push u =>
      refine ⟨ih h₁, List.pairwise_singleton _ _, fun t ht u' hu k k' p hget hget' => ?_⟩
      obtain rfl := List.mem_singleton.mp hu
      subst hget hget'
      have hallocated := run_allocated h₁ k p ht
      cases step_inv hstep with
      | push _ _ _ hf => cases hq : s₁.promises p <;> simp_all [Shard.fresh]

omit [DecidableEq K] in
/-- A task found twice in a list without equal promises is found at one place. -/
theorem split_unique {l₁ l₂ m₁ m₂ : List (Task K V)} {k k' : K} {p : Nat}
    (hl : (l₁ ++ .get k p :: l₂).Pairwise fun t u => ∀ k k' p, t = .get k p → u ≠ .get k' p)
    (h : l₁ ++ .get k p :: l₂ = m₁ ++ .get k' p :: m₂) : l₁ = m₁ ∧ k = k' := by
  have hm := hl
  rw [h] at hm
  rcases List.append_eq_append_iff.mp h with ⟨l, hm₁, hrest⟩ | ⟨m, hl₁, hrest⟩
  · cases l with
    | nil =>
      obtain ⟨hget, -⟩ := List.cons.inj hrest
      cases hget
      exact ⟨by rw [hm₁, List.append_nil], rfl⟩
    | cons t l =>
      obtain ⟨rfl, -⟩ := List.cons.inj hrest
      have hmem : .get k p ∈ m₁ := by simp [hm₁]
      exact absurd rfl ((List.pairwise_append.mp hm).2.2 _ hmem _ List.mem_cons_self k k' p rfl)
  · cases m with
    | nil =>
      obtain ⟨hget, -⟩ := List.cons.inj hrest
      cases hget
      exact ⟨by rw [hl₁, List.append_nil], rfl⟩
    | cons t m =>
      obtain ⟨rfl, -⟩ := List.cons.inj hrest
      have hmem : .get k' p ∈ l₁ := by simp [hl₁]
      exact absurd rfl ((List.pairwise_append.mp hl).2.2 _ hmem _ List.mem_cons_self k' k p rfl)

/-- A future holds the entry of its key as of its own call. -/
theorem ready_value {as₁ as₂ : List (Act K V)} {k : K} {p : Nat} {v : Option V}
    (h : run Shard.step Shard.init (as₁ ++ .push (.get k p) :: as₂) = some s) (hp : s.promises p = .ready v) :
    v = mapAfter (pushed as₁) k := by
  have hI := run_logInv h
  obtain ⟨pre, k', post, hran, rfl⟩ := hI.ready p v hp
  have hunique := run_promises_unique h
  have hlog := hI.log
  have hpushed : pushed (as₁ ++ .push (.get k p) :: as₂) = pushed as₁ ++ .get k p :: pushed as₂ := by
    rw [pushed_append]
    rfl
  rw [hpushed] at hunique hlog
  rw [hran, List.append_assoc, List.append_assoc, List.cons_append] at hlog
  obtain ⟨rfl, rfl⟩ := split_unique hunique hlog
  rfl

/-! ## The cache -/

variable {n : Nat} {hn : 0 < n} {hash : K → Nat} {ls : List (Label K V n)} {c : Fin n → Shard K V}

/-- Steps of the workers, and those that finish a call. -/
def Label.Own : Label K V n → Prop
  | .push _ => False
  | .sys _ e => e.Own

def Label.Wakes : Label K V n → Prop
  | .push _ => False
  | .sys _ e => e.Wakes

instance : DecidablePred (Label.Own : Label K V n → Prop)
  | .push _ => inferInstanceAs (Decidable False)
  | .sys _ e => inferInstanceAs (Decidable e.Own)

instance : DecidablePred (Label.Wakes : Label K V n → Prop)
  | .push _ => inferInstanceAs (Decidable False)
  | .sys _ e => inferInstanceAs (Decidable e.Wakes)

theorem cache_pays (hn : 0 < n) (hash : K → Nat) :
    Pays (Cache.step (V := V) hn hash) (fun c => ∀ i, Wakeful (c i)) (fun c => ∑ i, (c i).work)
      fun l => (Cache.route hn hash l).2.cost :=
  (interleave_pays shard_pays).map (Cache.route hn hash)

theorem run_wakeful_all (h : run (Cache.step hn hash) Cache.init ls = some c) (i : Fin n) : Wakeful (c i) :=
  run_wakeful (run_proj (run_map h) i)

omit [DecidableEq K] in
theorem own_cost {l : Label K V n} (hl : l.Own) : (Cache.route hn hash l).2.cost = 0 := by
  cases l with
  | push => exact hl.elim
  | sys i e => rcases hl with rfl | rfl <;> rfl

omit [DecidableEq K] in
theorem cost_label (hn : 0 < n) (hash : K → Nat) (l : Label K V n) :
    (Cache.route hn hash l).2.cost + (if l.Own then 1 else 0) =
      1 + 9 * (pushes [l]).length + 3 * (if l.Wakes then 1 else 0) := by
  cases l with
  | push t => rfl
  | sys i e => cases e <;> rfl

omit [DecidableEq K] in
/-- What a list of labels costs beyond its own length. -/
theorem cost_sum (hn : 0 < n) (hash : K → Nat) (ls : List (Label K V n)) :
    (ls.map fun l => (Cache.route hn hash l).2.cost).sum + ls.countP (·.Own) =
      ls.length + 9 * (pushes ls).length + 3 * ls.countP (·.Wakes) := by
  induction ls with
  | nil => rfl
  | cons l ls ih =>
    have hlabel := cost_label hn hash l
    have hpushes : pushes (l :: ls) = pushes [l] ++ pushes ls := List.filterMap_append (l := [l])
    rw [List.map_cons, List.sum_cons, List.countP_cons, List.countP_cons, List.length_cons, hpushes, List.length_append]
    simp only [decide_eq_true_eq]
    omega

/-- **The workers do not spin**: over a whole run, from the first call to the return of the destructors, they take at
most four steps each at the start, nine for each call, and three for each wakeup that no call has asked for. -/
theorem workers_bounded (h : run (Cache.step hn hash) Cache.init ls = some c) :
    ls.countP (·.Own) ≤ 4 * n + 9 * (pushes ls).length + 3 * ls.countP (·.Wakes) := by
  have hlen : ls.length + ∑ i, (c i).work ≤ (∑ i : Fin n, (Cache.init i : Shard K V).work) +
      (ls.map fun l => (Cache.route hn hash l).2.cost).sum :=
    run_length_le (cache_pays hn hash) (fun _ => init_wakeful) h
  have hinit : (∑ i : Fin n, (Cache.init i : Shard K V).work) = 4 * n := by
    simp [Cache.init, Shard.init, Shard.work, Pc.rank, Nat.mul_comm]
  have hcost := cost_sum hn hash ls
  omega

/-! ### Rest -/

theorem rest_shard (h : AtRest (Cache.step hn hash) Label.Own c) (i : Fin n) : AtRest Shard.step Act.Own (c i) := by
  intro a ha
  cases a with
  | push => exact ha.elim
  | sys e => exact Option.map_eq_none_iff.mp (h (.sys i e) ha)

omit [DecidableEq K] in
theorem own_pushes (hls : ∀ l ∈ ls, l.Own) : pushes ls = [] := by
  refine List.filterMap_eq_nil_iff.mpr fun l hl => ?_
  cases l with
  | push => exact (hls _ hl).elim
  | sys => rfl

/-- What a cache rests in: every key has its entry of the sequential map after all calls, and every future holds the
entry of its key as of its call. -/
structure Settled (hn : 0 < n) (hash : K → Nat) (ls : List (Label K V n)) (c : Fin n → Shard K V) : Prop where
  entries : ∀ k, Cache.getSync hn hash c k = mapAfter (pushes ls) k
  futures : ∀ ls₁ k p ls₂, ls = ls₁ ++ getAsync k p :: ls₂ →
    (c (Cache.getId hn hash k)).promises p = .ready (mapAfter (pushes ls₁) k)

/-- With no task in a queue or in hand everything is settled. -/
theorem settled_of_idle (h : run (Cache.step hn hash) Cache.init ls = some c)
    (hidle : ∀ i, (c i).tasks = [] ∧ (c i).worker = .blocked) : Settled hn hash ls c := by
  have hran : ∀ i, (c i).ran = (pushes ls).filter (Cache.getId hn hash ·.key = i) := by
    intro i
    have hlog := (run_shard h i).log
    rw [(hidle i).1, (hidle i).2, List.append_nil, pushed_proj] at hlog
    exact (hlog.trans (List.append_nil _)).symm
  constructor
  · intro k
    have hstorage := (run_shard h (Cache.getId hn hash k)).storage
    rw [Cache.getSync, Shard.get, hstorage, hran, mapAfter_filter]
  · rintro ls₁ k p ls₂ rfl
    have hmem : .get k p ∈ (c (Cache.getId hn hash k)).ran := by
      rw [hran, List.mem_filter]
      exact ⟨by simp [pushes, getAsync], by simp [Task.key]⟩
    obtain ⟨v, hv⟩ := (run_shard h _).called k p hmem
    have hs := run_proj (run_map h) (Cache.getId hn hash k)
    rw [proj_getAsync] at hs
    rw [hv, ready_value hs hv, pushed_proj, mapAfter_filter]

/-- **A cache left to its workers settles.** From every state that a run reaches before a destructor starts, the workers
and the calls still to notify have a bounded number of steps; they reach a state of rest; and in every state of rest that
they reach, all calls of the run are done, as on one sequential map. -/
theorem cache_drains (h : run (Cache.step hn hash) Cache.init ls = some c) (hd : ∀ i, (c i).dtor = .alive) :
    (∀ ls' c', (∀ l ∈ ls', l.Own) → run (Cache.step hn hash) c ls' = some c' → ls'.length ≤ ∑ i, (c i).work) ∧
    (∃ ls' c', (∀ l ∈ ls', l.Own) ∧ run (Cache.step hn hash) c ls' = some c' ∧
      AtRest (Cache.step hn hash) Label.Own c') ∧
    ∀ ls' c', (∀ l ∈ ls', l.Own) → run (Cache.step hn hash) c ls' = some c' →
      AtRest (Cache.step hn hash) Label.Own c' → Settled hn hash ls c' := by
  have hw := run_wakeful_all h
  refine ⟨fun ls' c' hls' h' => ?_, ?_, fun ls' c' hls' h' hrest => ?_⟩
  · have hlen := own_length_le (cache_pays hn hash) (fun _ => own_cost) hw hls' h'
    exact hlen
  · exact exists_rest (cache_pays hn hash) (fun _ => own_cost) c hw
  · have hall : run (Cache.step hn hash) Cache.init (ls ++ ls') = some c' := run_append.mpr ⟨c, h, h'⟩
    have hd' : ∀ i, (c' i).dtor = .alive := by
      refine own_inv (J := fun c : Fin n → Shard K V => ∀ i, (c i).dtor = .alive) ?_ hls' hd h'
      intro c l d hl hc hstep i
      obtain ⟨s, hs, rfl⟩ := Option.map_eq_some_iff.mp hstep
      by_cases hi : i = (Cache.route hn hash l).1
      · subst hi
        rw [Function.update_self]
        refine own_alive ?_ (hc _) hs
        cases l with
        | push => exact hl.elim
        | sys => exact hl
      · rw [Function.update_of_ne hi]
        exact hc i
    have hsettled := settled_of_idle hall fun i => rest_ran (run_wakeful_all hall i) (hd' i) (rest_shard hrest i)
    refine ⟨fun k => ?_, fun ls₁ k p ls₂ hls => ?_⟩
    · rw [hsettled.entries, pushes, List.filterMap_append]
      exact congrArg (mapAfter · k) ((congrArg (pushes ls ++ ·) (own_pushes hls')).trans (List.append_nil _))
    · exact hsettled.futures ls₁ k p (ls₂ ++ ls') (by rw [hls, List.append_assoc, List.cons_append])

/-- `set_async(1, 100)` and `get_async(1)` on workers that have not started. -/
theorem startedCalls_settle : ∃ c, run (Cache.step (n := 4) (by decide) id) Cache.init
      [setAsync 1 100, (getAsync 1 0 : Label Nat Nat 4)] = some c ∧
    ∃ ls' c', run (Cache.step (by decide) id) c ls' = some c' ∧ (c' 1).promises 0 = .ready (some 100) := by
  have hrun : run (Cache.step (n := 4) (by decide) id) Cache.init [setAsync 1 100, (getAsync 1 0 : Label Nat Nat 4)] =
      some _ := rfl
  obtain ⟨-, ⟨ls', c', hls', h', hrest⟩, hsettled⟩ := cache_drains hrun (by decide)
  exact ⟨_, hrun, ls', c', h', (hsettled ls' c' hls' h' hrest).futures [setAsync 1 100] 1 0 [] rfl⟩

/-- The calls of `parityRun`. -/
theorem parityRun_bounded : ∃ c, run (Cache.step (by decide) id) Cache.init parityRun = some c ∧
    parityRun.countP (·.Own) ≤ 35 := by
  have hrun : run (Cache.step (by decide) id) Cache.init parityRun = some _ := rfl
  exact ⟨_, hrun, (workers_bounded hrun).trans (by decide)⟩

end HighLoad.ShardedCache
