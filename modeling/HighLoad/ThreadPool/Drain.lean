import HighLoad.Lib.Progress
import HighLoad.ThreadPool.Shutdown

/-!
# The pool comes to rest

Each step of the pool's threads takes a unit off its work, which only an `enqueue` or a spurious wakeup brings
(`pool_pays`). `notify_one` may find no worker blocked, yet while a job is queued some worker is awake or a `notify_one`
is still to come (`Awake`). So whatever the order of the threads, the pool comes to rest; alive, it has then run every
job, and in its destructor all workers are joined (`pool_settles`).
-/

namespace HighLoad.ThreadPool

open Transition

variable {n : Nat} {J : Type} {s s' : Pool n J} {a : Label n J} {as : List (Label n J)} {i : Fin n}

/-! ## The work of a pool -/

/-- The steps to the next blocking, when there is no job. -/
def Pc.rank : Pc J → Nat
  | .run _ => 4
  | .lock => 3
  | .wait => 2
  | .block | .waited => 1
  | .blocked | .returned => 0

/-- What the destructor has to do, with the rounds of the workers it wakes. -/
def Dtor.rank (n : Nat) : Dtor → Nat
  | .alive => 4 * n + 2
  | .stopped => 4 * n + 1
  | .joining k => n - k

/-- The steps of all workers. -/
def rounds (pc : Fin n → Pc J) : Nat := ∑ i, (pc i).rank

def Pool.work (s : Pool n J) : Nat := 4 * s.tasks.length + 4 * s.notifies + rounds s.pc + s.dtor.rank n

/-- The work that a label brings, and its own step. -/
def Label.cost : Label n J → Nat
  | .enqueue _ => 9
  | .spuriousWakeup _ => 4
  | _ => 0

/-- The steps of the pool's threads, and those that finish an `enqueue` or the destructor. -/
def Label.Own : Label n J → Prop
  | .enqueue _ | .spuriousWakeup _ | .storeStop => False
  | _ => True

theorem own_cost (ha : a.Own) : a.cost = 0 := by
  cases a with
  | enqueue | spuriousWakeup | storeStop => exact ha.elim
  | notifyOne | worker | notifyAll | join => rfl

/-- Moving one worker. -/
theorem rounds_update (pcs : Fin n → Pc J) (i : Fin n) (pc : Pc J) :
    rounds (Function.update pcs i pc) + (pcs i).rank = rounds pcs + pc.rank := sum_update Pc.rank pcs i pc

theorem rank_notify (pc : Pc J) : pc.notify.rank ≤ pc.rank + 3 := by
  cases pc <;> simp [Pc.notify, Pc.rank]

/-- `notify_all` brings a round for each worker. -/
theorem rounds_notify (pcs : Fin n → Pc J) : rounds (fun i => (pcs i).notify) ≤ rounds pcs + 3 * n := by
  calc rounds (fun i => (pcs i).notify)
      ≤ ∑ i, ((pcs i).rank + 3) := Finset.sum_le_sum fun i _ => rank_notify (pcs i)
    _ = rounds pcs + 3 * n := by simp [rounds, Finset.sum_add_distrib, Nat.mul_comm]

/-- **Every step is paid for.** -/
theorem step_pays (h : s.step a = some s') : s'.work + 1 ≤ s.work + a.cost := by
  cases step_inv h with
  | enqueue job =>
    simp only [Pool.work, Label.cost, List.length_append, List.length_singleton]
    omega
  | notifyNone hn =>
    simp only [Pool.work]
    omega
  | notifyOne i hn hpc =>
    have hr := rounds_update s.pc i .lock
    simp only [hpc, Pc.rank] at hr
    simp only [Pool.work, Pool.goto]
    omega
  | lock i hpc =>
    have hr := rounds_update s.pc i .wait
    simp only [hpc, Pc.rank] at hr
    simp only [Pool.work, Pool.goto]
    omega
  | wait i hpc =>
    have hr := rounds_update s.pc i (if s.stop || !s.tasks.isEmpty then .waited else .block)
    have hrank : (if s.stop || !s.tasks.isEmpty then Pc.waited else .block : Pc J).rank = 1 := by split <;> rfl
    rw [hrank, hpc] at hr
    simp only [Pool.work, Pool.goto, Pc.rank] at hr ⊢
    omega
  | block i hpc =>
    have hr := rounds_update s.pc i .blocked
    simp only [hpc, Pc.rank] at hr
    simp only [Pool.work, Pool.goto]
    omega
  | ret i hpc =>
    have hr := rounds_update s.pc i .returned
    simp only [hpc, Pc.rank] at hr
    simp only [Pool.work, Pool.goto]
    omega
  | pop i t ts hpc htasks =>
    have hr := rounds_update s.pc i (.run t)
    simp only [hpc, Pc.rank] at hr
    simp only [Pool.work, Pool.goto, htasks, List.length_cons]
    omega
  | run i t hpc =>
    have hr := rounds_update s.pc i .lock
    simp only [hpc, Pc.rank] at hr
    simp only [Pool.work, Pool.goto]
    omega
  | wakeup i hpc =>
    have hr := rounds_update s.pc i .lock
    simp only [hpc, Pc.rank] at hr
    simp only [Pool.work, Pool.goto, Label.cost]
    omega
  | storeStop _ hd =>
    simp only [Pool.work, hd, Dtor.rank]
    omega
  | notifyAll hd =>
    have hr := rounds_notify s.pc
    simp only [Pool.work, hd, Dtor.rank]
    omega
  | join k hk hd =>
    simp only [Pool.work, hd, Dtor.rank]
    omega

theorem pool_pays : Pays (Pool.step (n := n) (J := J)) (fun _ => True) Pool.work Label.cost :=
  ⟨fun _ _ _ _ _ => trivial, fun _ _ _ _ h => step_pays h⟩

/-! ## No wakeup is missed -/

/-- While a job is queued, a worker is awake or a `notify_one` is still to come; `join` stops at the last worker. -/
structure Awake (s : Pool n J) : Prop where
  awake : s.tasks ≠ [] → s.notifies ≠ 0 ∨ ∃ i, s.pc i ≠ .blocked
  joining : ∀ k, s.dtor = .joining k → k ≤ n

theorem init_awake : Awake (Pool.init n J) :=
  ⟨fun h => absurd rfl h, fun k hk => by cases hk⟩

/-- A worker is awake, whatever the queue. -/
theorem awake_update (pcs : Fin n → Pc J) (i : Fin n) {pc : Pc J} (hpc : pc ≠ .blocked) :
    ∃ j, Function.update pcs i pc j ≠ .blocked :=
  ⟨i, by rwa [Function.update_self]⟩

theorem step_awake (hn : 0 < n) (hI : MutexInv s) (hw : Awake s) (h : s.step a = some s') : Awake s' := by
  cases step_inv h with
  | enqueue job => exact ⟨fun _ => .inl (Nat.succ_ne_zero _), hw.joining⟩
  | notifyNone _ hnone => exact ⟨fun _ => .inr ⟨⟨0, hn⟩, hnone _⟩, hw.joining⟩
  | notifyOne i | run i | wakeup i =>
    have hlock : Pc.lock ≠ (.blocked : Pc J) := nofun
    exact ⟨fun _ => .inr (awake_update s.pc i hlock), hw.joining⟩
  | lock i =>
    have hwait : Pc.wait ≠ (.blocked : Pc J) := nofun
    exact ⟨fun _ => .inr (awake_update s.pc i hwait), hw.joining⟩
  | wait i =>
    have hnext : (if s.stop || !s.tasks.isEmpty then Pc.waited else .block) ≠ (.blocked : Pc J) := by
      split <;> nofun
    exact ⟨fun _ => .inr (awake_update s.pc i hnext), hw.joining⟩
  | block i hpc =>
    have hp := hI.place i
    rw [hpc] at hp
    exact ⟨fun hne => absurd hp.2 hne, hw.joining⟩
  | ret i =>
    have hreturned : Pc.returned ≠ (.blocked : Pc J) := nofun
    exact ⟨fun _ => .inr (awake_update s.pc i hreturned), hw.joining⟩
  | pop i t =>
    have hrun : Pc.run t ≠ .blocked := nofun
    exact ⟨fun _ => .inr (awake_update s.pc i hrun), hw.joining⟩
  | storeStop => exact ⟨hw.awake, nofun⟩
  | notifyAll =>
    refine ⟨fun _ => .inr ⟨⟨0, hn⟩, ?_⟩, fun k hk => ?_⟩
    · cases hpc : s.pc ⟨0, hn⟩ <;> simp [hpc, Pc.notify]
    · cases hk
      exact Nat.zero_le n
  | join k hk hd =>
    refine ⟨hw.awake, fun k' hk' => ?_⟩
    cases hk'
    exact hk

theorem run_awake (hn : 0 < n) (h : run Pool.step (Pool.init n J) as = some s) : MutexInv s ∧ Awake s :=
  run_inv (I := fun s => MutexInv s ∧ Awake s) (fun _ _ _ hI hs => ⟨step_mutexInv hI.1 hs, step_awake hn hI.1 hI.2 hs⟩)
    ⟨init_mutexInv, init_awake⟩ h

/-! ## A pool at rest -/

/-- At rest every worker is blocked or has returned. -/
theorem rest_pc (hI : MutexInv s) (hrest : AtRest Pool.step Label.Own s) (i : Fin n) :
    s.pc i = .blocked ∨ s.pc i = .returned := by
  have hstuck : ∀ i, s.workerStep i = none := fun i => hrest (.worker i) trivial
  -- Nobody is inside the critical section, so the mutex is free.
  have houtside : ∀ i, (s.pc i).holdsMutex = false := by
    intro i
    have hi := hstuck i
    have hp := hI.place i
    cases hpc : s.pc i with
    | wait | block => simp [Pool.workerStep, hpc] at hi
    | waited =>
      rw [hpc] at hp
      cases ht : s.tasks with
      | nil =>
        have hs : s.stop = true := by simpa [Pool.Place, ht] using hp
        simp [Pool.workerStep, hpc, ht, hs] at hi
      | cons t ts => simp [Pool.workerStep, hpc, ht] at hi
    | lock | blocked | run | returned => rfl
  have hfree : s.mtx = none := by
    cases hm : s.mtx with
    | none => rfl
    | some i =>
      have hi := houtside i
      rw [(hI.owner i).mpr hm] at hi
      cases hi
  have hi := hstuck i
  have hout := houtside i
  cases hpc : s.pc i with
  | blocked => exact .inl rfl
  | returned => exact .inr rfl
  | lock | run => simp [Pool.workerStep, hpc, hfree] at hi
  | wait | block | waited => rw [hpc] at hout; cases hout

/-- With empty hands, every job taken has been run. -/
theorem ran_perm (hL : LogInv as s) (hhands : ∀ i, (s.pc i).inHand = []) : s.ran.Perm s.dequeued := by
  refine perm_of_filter fun i => ?_
  rw [hL.mine, hhands, List.map_nil, List.append_nil]

/-- Every job enqueued has been run, each by one worker. -/
def RanAll (as : List (Label n J)) (s : Pool n J) : Prop :=
  s.tasks = [] ∧ s.ran.Perm s.dequeued ∧ s.dequeued.map Prod.snd = enqueued as

theorem ranAll_of_tasks (hL : LogInv as s) (hhands : ∀ i, (s.pc i).inHand = []) (ht : s.tasks = []) : RanAll as s := by
  refine ⟨ht, ran_perm hL hhands, ?_⟩
  rw [hL.log, ht, List.append_nil]

/-- **What a pool rests in**: before its destructor with all workers blocked, in its destructor with all workers joined,
and in both cases with every job run. -/
theorem rest_ran (hn : 0 < n) (h : run Pool.step (Pool.init n J) as = some s) (hrest : AtRest Pool.step Label.Own s) :
    RanAll as s ∧ ((s.dtor = .alive ∧ ∀ i, s.pc i = .blocked) ∨ (s.dtor = .joining n ∧ ∀ i, s.pc i = .returned)) := by
  obtain ⟨hI, hw⟩ := run_awake hn h
  have hL := run_logInv h
  have hpc := rest_pc hI hrest
  have hhands : ∀ i, (s.pc i).inHand = [] := by
    intro i
    rcases hpc i with hi | hi <;> rw [hi] <;> rfl
  cases hd : s.dtor with
  | alive =>
    have hblocked : ∀ i, s.pc i = .blocked := by
      intro i
      refine (hpc i).resolve_right fun hi => ?_
      have hp := hI.place i
      rw [hi] at hp
      exact absurd (hI.alive.mp hd) (by simp [hp.1])
    refine ⟨ranAll_of_tasks hL hhands ?_, .inl ⟨rfl, hblocked⟩⟩
    by_contra hne
    have hnotify : s.step (.notifyOne (some ⟨0, hn⟩)) = none := hrest (.notifyOne _) trivial
    rcases hw.awake hne with hcount | ⟨i, hi⟩
    · simp [Pool.step, hblocked, hcount] at hnotify
    · exact hi (hblocked i)
  | stopped =>
    have hnotify : s.step .notifyAll = none := hrest .notifyAll trivial
    simp [Pool.step, hd] at hnotify
  | joining k =>
    have hreturned : ∀ i, s.pc i = .returned := by
      intro i
      refine (hpc i).resolve_left fun hi => ?_
      have hp := hI.place i
      rw [hi] at hp
      exact hp k hd
    have htasks : s.tasks = [] := by
      have hp := hI.place ⟨0, hn⟩
      rw [hreturned] at hp
      exact hp.2
    have hk : k = n := by
      have hjoin : s.step .join = none := hrest .join trivial
      have hle := hw.joining k hd
      rcases Nat.lt_or_eq_of_le hle with hlt | heq
      · simp [Pool.step, hd, hlt, hreturned] at hjoin
      · exact heq
    exact ⟨ranAll_of_tasks hL hhands htasks, .inr ⟨by rw [hk], hreturned⟩⟩

/-! ## The pool -/

theorem own_enqueued (has : ∀ a ∈ as, a.Own) : enqueued as = [] := by
  refine List.filterMap_eq_nil_iff.mpr fun a ha => ?_
  cases a with
  | enqueue => exact (has _ ha).elim
  | notifyOne | worker | spuriousWakeup | storeStop | notifyAll | join => rfl

/-- No step of the pool's threads starts the destructor or undoes its start. -/
theorem own_dtor (ha : a.Own) (h : s.step a = some s') : s'.dtor = .alive ↔ s.dtor = .alive := by
  cases step_inv h with
  | enqueue | storeStop | wakeup => exact ha.elim
  | notifyNone | notifyOne | lock | wait | block | ret | pop | run => exact Iff.rfl
  | notifyAll hd | join _ _ hd => simp [hd]

/-- **The pool always comes to rest, and with every job run.** From every reachable state of a pool with a worker, its
threads have a bounded number of steps in any order; they reach a state of rest; and in every state of rest every job has
been run by one worker, all workers are blocked if the destructor has not started, and it has returned if it has. -/
theorem pool_settles (hn : 0 < n) (h : run Pool.step (Pool.init n J) as = some s) :
    (∀ bs t, (∀ b ∈ bs, b.Own) → run Pool.step s bs = some t → bs.length ≤ s.work) ∧
    (∃ bs t, (∀ b ∈ bs, b.Own) ∧ run Pool.step s bs = some t ∧ AtRest Pool.step Label.Own t) ∧
    ∀ bs t, (∀ b ∈ bs, b.Own) → run Pool.step s bs = some t → AtRest Pool.step Label.Own t →
      RanAll as t ∧ (s.dtor = .alive → ∀ i, t.pc i = .blocked) ∧ (s.dtor ≠ .alive → t.dtor = .joining n) := by
  refine ⟨fun bs t hbs ht => ?_, ?_, fun bs t hbs ht hrest => ?_⟩
  · exact own_length_le pool_pays (fun _ => own_cost) trivial hbs ht
  · exact exists_rest pool_pays (fun _ => own_cost) s trivial
  · have hall : run Pool.step (Pool.init n J) (as ++ bs) = some t := run_append.mpr ⟨s, h, ht⟩
    obtain ⟨hran, hend⟩ := rest_ran hn hall hrest
    rw [RanAll, enqueued_append, own_enqueued hbs, List.append_nil] at hran
    have hphase : t.dtor = .alive ↔ s.dtor = .alive := by
      refine own_inv (J := fun t : Pool n J => t.dtor = .alive ↔ s.dtor = .alive) ?_ hbs Iff.rfl ht
      exact fun u a v ha hu huv => (own_dtor ha huv).trans hu
    refine ⟨hran, fun hd => ?_, fun hd => ?_⟩
    · rcases hend with ⟨-, hblocked⟩ | ⟨hjoined, -⟩
      · exact hblocked
      · rw [hphase.mpr hd] at hjoined
        cases hjoined
    · rcases hend with ⟨halive, -⟩ | ⟨hjoined, -⟩
      · exact absurd (hphase.mp halive) hd
      · exact hjoined

/-- The destructor of a pool with two jobs queued and no worker started. -/
theorem twoJobs_settle : ∃ s, run Pool.step (Pool.init 2 Nat) [.enqueue 10, .notifyOne none, .enqueue 20, .notifyOne none,
      .storeStop] = some s ∧ ∃ bs t, run Pool.step s bs = some t ∧ t.dtor = .joining 2 ∧
        t.dequeued.map Prod.snd = [10, 20] := by
  have hrun : run Pool.step (Pool.init 2 Nat) [.enqueue 10, .notifyOne none, .enqueue 20, .notifyOne none, .storeStop] =
      some _ := rfl
  obtain ⟨-, ⟨bs, t, hbs, ht, hrest⟩, hsettled⟩ := pool_settles (by decide) hrun
  obtain ⟨⟨-, -, hdequeued⟩, -, hjoined⟩ := hsettled bs t hbs ht hrest
  exact ⟨_, hrun, bs, t, ht, hjoined nofun, hdequeued⟩

end HighLoad.ThreadPool
