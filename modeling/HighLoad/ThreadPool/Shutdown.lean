import HighLoad.ThreadPool.Pool
import Mathlib.Data.List.Perm.Basic

/-!
# Every job once, and no wakeup missed

The mutex has one holder, and what a holder has read of `stop` and of the queue stays true while it holds it
(`MutexInv`): `stop` is stored under the mutex, so no worker can fall between the store and `notify_all` with a stale
predicate. The queue is a FIFO log: the jobs enqueued are those taken, in order, and those queued, and a worker runs
what it takes (`LogInv`). Together: the pool runs every job once and its destructor misses no worker (`pool_runs_once`),
and always some step leads it on (`joining_progress`).
-/

namespace HighLoad.ThreadPool

open Transition

variable {n : Nat} {J : Type} {s s' : Pool n J} {a : Label n J} {as : List (Label n J)} {i j : Fin n}

/-! ## The mutex -/

/-- What the place of a worker says about the flag, the queue and the destructor. -/
def Pool.Place (s : Pool n J) : Pc J → Prop
  | .block => s.stop = false ∧ s.tasks = []
  | .blocked => ∀ k, s.dtor ≠ .joining k
  | .waited => s.stop = true ∨ s.tasks ≠ []
  | .returned => s.stop = true ∧ s.tasks = []
  | _ => True

structure MutexInv (s : Pool n J) : Prop where
  owner : ∀ i, (s.pc i).holdsMutex = true ↔ s.mtx = some i
  alive : s.dtor = .alive ↔ s.stop = false
  place : ∀ i, s.Place (s.pc i)

theorem init_mutexInv : MutexInv (Pool.init n J) :=
  ⟨fun _ => by simp [Pool.init, Pc.holdsMutex], by simp [Pool.init], fun _ => trivial⟩

/-- While nobody holds the mutex, no worker is inside its critical section. -/
theorem MutexInv.notHeld (hI : MutexInv s) (hm : s.mtx = none) (i : Fin n) : (s.pc i).holdsMutex = false := by
  cases h : (s.pc i).holdsMutex with
  | false => rfl
  | true => rw [(hI.owner i).mp h] at hm; cases hm

/-- Two workers are not inside together. -/
theorem MutexInv.alone (hI : MutexInv s) (hi : (s.pc i).holdsMutex = true) (hij : j ≠ i) :
    (s.pc j).holdsMutex = false := by
  cases h : (s.pc j).holdsMutex with
  | false => rfl
  | true =>
    have hm := (hI.owner i).mp hi
    rw [(hI.owner j).mp h] at hm
    exact absurd (Option.some.inj hm) hij

/-- Moving one worker keeps the invariant if its new place is right and the mutex went with it. -/
theorem goto_mutexInv (hI : MutexInv s) {pc : Pc J} {mtx : Option (Fin n)} (hp : s.Place pc)
    (hi : pc.holdsMutex = true ↔ mtx = some i) (hm : ∀ j, j ≠ i → (mtx = some j ↔ s.mtx = some j)) :
    MutexInv (s.goto i pc mtx) := by
  refine ⟨fun j => ?_, hI.alive, fun j => ?_⟩
  · by_cases hj : j = i
    · subst hj; simpa [Pool.goto] using hi
    · simp only [Pool.goto, Function.update_of_ne hj, hm j hj]
      exact hI.owner j
  · by_cases hj : j = i
    · subst hj
      simp only [Pool.goto, Function.update_self]
      exact hp
    · simp only [Pool.goto, Function.update_of_ne hj]
      exact hI.place j

/-- A worker inside leaves with the mutex released. -/
theorem goto_release (hI : MutexInv s) {pc : Pc J} (hi : (s.pc i).holdsMutex = true) (hp : s.Place pc)
    (hpc : pc.holdsMutex = false) : MutexInv (s.goto i pc none) := by
  refine goto_mutexInv hI hp (by simp [hpc]) fun j hj => ?_
  simp [(hI.owner i).mp hi, Ne.symm hj]

/-- A worker outside stays outside. -/
theorem goto_outside (hI : MutexInv s) {pc : Pc J} (hi : (s.pc i).holdsMutex = false) (hp : s.Place pc)
    (hpc : pc.holdsMutex = false) : MutexInv (s.goto i pc s.mtx) := by
  refine goto_mutexInv hI hp ?_ fun _ _ => Iff.rfl
  rw [← hI.owner i]
  simp [hi, hpc]

theorem step_mutexInv (hI : MutexInv s) (h : s.step a = some s') : MutexInv s' := by
  cases step_inv h with
  | enqueue job hm hd =>
    refine ⟨hI.owner, hI.alive, fun i => ?_⟩
    have hp := hI.place i
    have hout := hI.notHeld hm i
    have hstop := hI.alive.mp hd
    cases hpc : s.pc i <;> simp_all [Pool.Place, Pc.holdsMutex]
  | notifyNone => exact ⟨hI.owner, hI.alive, hI.place⟩
  | notifyOne i _ hw =>
    have hg : MutexInv (s.goto i .lock s.mtx) := goto_outside hI (by rw [hw]; rfl) trivial rfl
    exact ⟨hg.owner, hg.alive, hg.place⟩
  | lock i hw hm => exact goto_mutexInv hI trivial (by simp [Pc.holdsMutex]) (by simp [hm, eq_comm])
  | wait i hw =>
    have hmtx := (hI.owner i).mp (by rw [hw]; rfl)
    refine goto_mutexInv hI ?_ ?_ fun _ _ => Iff.rfl
    · cases hs : s.stop <;> cases ht : s.tasks <;> simp [Pool.Place, hs, ht]
    · split <;> simp [Pc.holdsMutex, hmtx]
  | block i hw =>
    have hp := hI.place i
    rw [hw] at hp
    refine goto_release hI (by rw [hw]; rfl) (fun k hk => ?_) rfl
    rw [hI.alive.mpr hp.1] at hk
    cases hk
  | ret i hw ht hs => exact goto_release hI (by rw [hw]; rfl) ⟨hs, ht⟩ rfl
  | pop i t ts hw ht =>
    have hg : MutexInv (s.goto i (.run t) none) := goto_release hI (by rw [hw]; rfl) trivial rfl
    refine ⟨hg.owner, hg.alive, fun j => ?_⟩
    by_cases hj : j = i
    · subst hj; simp [Pool.goto, Pool.Place]
    · have hp := hI.place j
      have hout := hI.alone (i := i) (by rw [hw]; rfl) hj
      simp only [Pool.goto, Function.update_of_ne hj]
      cases hpc : s.pc j <;> simp_all [Pool.Place, Pc.holdsMutex]
  | run i t hw =>
    have hg : MutexInv (s.goto i .lock s.mtx) := goto_outside hI (by rw [hw]; rfl) trivial rfl
    exact ⟨hg.owner, hg.alive, hg.place⟩
  | wakeup i hw => exact goto_outside hI (by rw [hw]; rfl) trivial rfl
  | storeStop hm hd =>
    refine ⟨hI.owner, by simp, fun i => ?_⟩
    have hp := hI.place i
    have hout := hI.notHeld hm i
    have hstop := hI.alive.mp hd
    cases hpc : s.pc i <;> simp_all [Pool.Place, Pc.holdsMutex]
  | notifyAll hd =>
    refine ⟨fun i => by simpa using hI.owner i, ?_, fun i => ?_⟩
    · have hstop := hI.alive
      simpa [hd] using hstop
    · have hp := hI.place i
      cases hpc : s.pc i <;> simp_all [Pool.Place, Pc.notify]
  | join k _ hd =>
    refine ⟨hI.owner, ?_, fun i => ?_⟩
    · have hstop := hI.alive
      simpa [hd] using hstop
    · have hp := hI.place i
      cases hpc : s.pc i <;> simp_all [Pool.Place]

theorem run_mutexInv (h : run Pool.step (Pool.init n J) as = some s) : MutexInv s :=
  run_inv (fun _ _ _ hI hs => step_mutexInv hI hs) init_mutexInv h

/-! ## The log -/

structure LogInv (as : List (Label n J)) (s : Pool n J) : Prop where
  log : enqueued as = s.dequeued.map Prod.snd ++ s.tasks
  mine : ∀ i, s.dequeued.filter (·.1 = i) = s.ran.filter (·.1 = i) ++ (s.pc i).inHand.map (i, ·)

theorem init_logInv : LogInv [] (Pool.init n J) := ⟨rfl, fun _ => rfl⟩

/-- A step that takes no job and returns from none. -/
theorem quiet_logInv (hI : LogInv as s) (ha : enqueued [a] = []) (htasks : s'.tasks = s.tasks)
    (hd : s'.dequeued = s.dequeued) (hr : s'.ran = s.ran) (hpc : ∀ i, (s'.pc i).inHand = (s.pc i).inHand) :
    LogInv (as ++ [a]) s' := by
  refine ⟨?_, fun i => ?_⟩
  · rw [enqueued_append, ha, List.append_nil, hd, htasks, hI.log]
  · rw [hd, hr, hpc, hI.mine]

/-- Moving a worker with empty hands. -/
theorem inHand_goto {pc : Pc J} (mtx : Option (Fin n)) (hi : (s.pc i).inHand = []) (hpc : pc.inHand = []) (j : Fin n) :
    ((s.goto i pc mtx).pc j).inHand = (s.pc j).inHand := by
  by_cases hj : j = i
  · subst hj; simp [Pool.goto, hi, hpc]
  · simp [Pool.goto, Function.update_of_ne hj]

theorem step_logInv (hI : LogInv as s) (h : s.step a = some s') : LogInv (as ++ [a]) s' := by
  cases step_inv h with
  | enqueue job =>
    refine ⟨?_, hI.mine⟩
    rw [enqueued_append, hI.log, enqueued_enqueue, List.append_assoc]
  | notifyNone | storeStop | join => exact quiet_logInv hI rfl rfl rfl rfl fun _ => rfl
  | notifyAll => exact quiet_logInv hI rfl rfl rfl rfl fun _ => Pc.inHand_notify _
  | notifyOne i _ hw => exact quiet_logInv hI rfl rfl rfl rfl (inHand_goto s.mtx (by rw [hw]; rfl) rfl)
  | lock i hw | block i hw | ret i hw | wakeup i hw =>
    exact quiet_logInv hI rfl rfl rfl rfl (inHand_goto _ (by rw [hw]; rfl) rfl)
  | wait i hw => exact quiet_logInv hI rfl rfl rfl rfl (inHand_goto _ (by rw [hw]; rfl) (by split <;> rfl))
  | pop i t ts hw ht =>
    refine ⟨?_, fun j => ?_⟩
    · simp [enqueued_append, hI.log, ht]
    · have hm := hI.mine j
      by_cases hj : j = i
      · subst hj
        rw [hw] at hm
        simp [Pool.goto, hm, Pc.inHand]
      · simp [Pool.goto, Function.update_of_ne hj, hm, Ne.symm hj]
  | run i t hw =>
    refine ⟨by simp [enqueued_append, hI.log, Pool.goto], fun j => ?_⟩
    have hm := hI.mine j
    by_cases hj : j = i
    · subst hj
      rw [hw] at hm
      simp [Pool.goto, hm, Pc.inHand]
    · simp [Pool.goto, Function.update_of_ne hj, hm, Ne.symm hj]

theorem run_logInv (h : run Pool.step (Pool.init n J) as = some s) : LogInv as s :=
  run_hist init_logInv (fun _ _ _ _ hI hs => step_logInv hI hs) h

/-- Two lists that agree for every worker have the same entries, each as often. -/
theorem perm_of_filter {l m : List (Fin n × J)} (h : ∀ i, l.filter (·.1 = i) = m.filter (·.1 = i)) : l.Perm m := by
  classical
  refine List.perm_iff_count.mpr fun x => ?_
  have hx := congrArg (List.count x) (h x.1)
  rwa [List.count_filter (by simp), List.count_filter (by simp)] at hx

/-! ## The pool -/

/-- **The pool runs every job once and shuts down cleanly.** In every reachable state of a pool with a worker: jobs are
taken in the order of the calls of `enqueue`, each by one worker, which runs what it takes; a worker has returned only
with `stop` set and the queue empty; once all have returned, every job enqueued has been run once; and after the
destructor's `notify_all` no worker is blocked. -/
theorem pool_runs_once (hn : 0 < n) (h : run Pool.step (Pool.init n J) as = some s) :
    enqueued as = s.dequeued.map Prod.snd ++ s.tasks ∧
    (∀ i, s.ran.filter (·.1 = i) <+: s.dequeued.filter (·.1 = i)) ∧
    (∀ i, s.pc i = .returned → s.stop = true ∧ s.tasks = []) ∧
    ((∀ i, s.pc i = .returned) → s.ran.Perm s.dequeued ∧ s.dequeued.map Prod.snd = enqueued as) ∧
    (s.stop = true → ∀ k, s.dtor = .joining k → ∀ i, s.pc i ≠ .blocked) := by
  have hI := run_mutexInv h
  have hL := run_logInv h
  have hreturned : ∀ i, s.pc i = .returned → s.stop = true ∧ s.tasks = [] := by
    intro i hi
    have hp := hI.place i
    rwa [hi] at hp
  refine ⟨hL.log, fun i => ⟨_, (hL.mine i).symm⟩, hreturned, fun hall => ⟨?_, ?_⟩, fun _ k hk i hi => ?_⟩
  · refine perm_of_filter fun i => ?_
    rw [hL.mine i, hall i]
    simp [Pc.inHand]
  · rw [hL.log, (hreturned ⟨0, hn⟩ (hall _)).2, List.append_nil]
  · have hp := hI.place i
    rw [hi] at hp
    exact hp k hk

/-- **The destructor never waits for nothing**: as long as a worker is to be joined, a worker can move or `join` can
return. -/
theorem joining_progress (h : run Pool.step (Pool.init n J) as = some s) {k : Nat} (hk : k < n)
    (hd : s.dtor = .joining k) : ∃ a s', (a = .join ∨ ∃ i, a = .worker i) ∧ s.step a = some s' := by
  have hI := run_mutexInv h
  -- A worker inside its critical section, or running a job, can go on.
  have hinside : ∀ i, (s.pc i).holdsMutex = true → ∃ s', s.step (.worker i) = some s' := by
    intro i hi
    have hp := hI.place i
    cases hpc : s.pc i with
    | wait => exact ⟨_, by simp [Pool.step, Pool.workerStep, hpc]; rfl⟩
    | block => exact ⟨_, by simp [Pool.step, Pool.workerStep, hpc]; rfl⟩
    | waited =>
      rw [hpc] at hp
      cases ht : s.tasks with
      | nil =>
        have hs : s.stop = true := by simpa [Pool.Place, ht] using hp
        exact ⟨_, by simp [Pool.step, Pool.workerStep, hpc, ht, hs]; rfl⟩
      | cons t ts => exact ⟨_, by simp [Pool.step, Pool.workerStep, hpc, ht]; rfl⟩
    | lock | blocked | run | returned => rw [hpc] at hi; cases hi
  cases hpc : s.pc ⟨k, hk⟩ with
  | returned => exact ⟨.join, _, .inl rfl, by simp [Pool.step, hd, hk, hpc]; rfl⟩
  | run t => exact ⟨.worker ⟨k, hk⟩, _, .inr ⟨_, rfl⟩, by simp [Pool.step, Pool.workerStep, hpc]; rfl⟩
  | blocked =>
    have hp := hI.place ⟨k, hk⟩
    rw [hpc] at hp
    exact absurd hd (hp k)
  | lock =>
    cases hm : s.mtx with
    | none => exact ⟨.worker ⟨k, hk⟩, _, .inr ⟨_, rfl⟩, by simp [Pool.step, Pool.workerStep, hpc, hm]; rfl⟩
    | some i =>
      obtain ⟨s', hs'⟩ := hinside i ((hI.owner i).mpr hm)
      exact ⟨.worker i, s', .inr ⟨i, rfl⟩, hs'⟩
  | wait | block | waited =>
    obtain ⟨s', hs'⟩ := hinside ⟨k, hk⟩ (by rw [hpc]; rfl)
    exact ⟨.worker ⟨k, hk⟩, s', .inr ⟨_, rfl⟩, hs'⟩

/-- Two workers, two jobs: worker `j` is blocked when they are enqueued, and the destructor comes before it is back. -/
def twoJobs : List (Label 2 Nat) :=
  let i : Fin 2 := ⟨0, Nat.zero_lt_two⟩
  let j : Fin 2 := ⟨1, Nat.one_lt_two⟩
  List.replicate 3 (.worker j) ++ [.enqueue 10, .enqueue 20, .notifyOne (some j), .notifyOne none] ++
    List.replicate 4 (.worker i) ++ [.storeStop, .notifyAll] ++ List.replicate 7 (.worker j) ++
    List.replicate 3 (.worker i) ++ [.join, .join]

theorem twoJobs_run : ∃ s, run Pool.step (Pool.init 2 Nat) twoJobs = some s ∧ (∀ i, s.pc i = .returned) ∧
    s.ran.Perm s.dequeued ∧ s.dequeued.map Prod.snd = enqueued twoJobs := by
  have hrun : run Pool.step (Pool.init 2 Nat) twoJobs = some _ := rfl
  have hall := (pool_runs_once (by decide) hrun).2.2.2.1
  exact ⟨_, hrun, by decide, hall (by decide)⟩

end HighLoad.ThreadPool
