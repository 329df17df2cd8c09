import HighLoad.Lib.Parts
import HighLoad.Http.EventLoop
import HighLoad.Http.SendLoop
import HighLoad.ThreadPool.Drain

/-!
# The whole server

`Service` puts the parts together: the event loop, the pool whose jobs are sockets, the response cache that the workers
share, and what each worker does with the socket of its job. A step moves each part by at most one of its own labels, so
a run of the service is a run of every part (`loop_partOf`, `pool_partOf`, `server_partOf`).

A socket that the loop hands over is a job of the pool until a worker closes it (`jobs_held`). So in every reachable
state an open client is watched by the loop, queued, or in the hands of one worker, and nowhere twice, exactly when
`FD_SET` had room for every socket accepted so far (`service_tracked`).
-/

namespace HighLoad

open ByteString Transition

/-! ## The jobs of a pool -/

namespace ThreadPool

variable {n : Nat} {J : Type} {s s' : Pool n J} {a : Label n J} {i : Fin n}

/-- The jobs in the hands of the workers. -/
def inHands (pcs : Fin n → Pc J) : Multiset J := ∑ i, ↑(pcs i).inHand

/-- The jobs that are queued or in the hands of a worker. -/
def Pool.held (s : Pool n J) : Multiset J := ↑s.tasks + inHands s.pc

/-- The job that a step of a worker ends. -/
def Pool.finishes (s : Pool n J) : Label n J → List J
  | .worker i => (s.pc i).inHand
  | _ => []

theorem inHands_update (pcs : Fin n → Pc J) (i : Fin n) (pc : Pc J) :
    inHands (Function.update pcs i pc) + ↑(pcs i).inHand = inHands pcs + ↑pc.inHand :=
  sum_update (fun pc => (pc.inHand : Multiset J)) pcs i pc

/-- Moving a worker with empty hands. -/
theorem held_goto (pc : Pc J) (mtx : Option (Fin n)) (hi : (s.pc i).inHand = []) (hpc : pc.inHand = []) :
    (s.goto i pc mtx).held = s.held := by
  have hhands := inHands_update s.pc i pc
  rw [hi, hpc] at hhands
  exact congrArg ((s.tasks : Multiset J) + ·) (add_right_cancel hhands)

/-- A step that neither brings nor ends a job. -/
theorem held_quiet (hfinishes : s.finishes a = []) (hbrings : enqueued [a] = []) (hheld : s'.held = s.held) :
    s'.held + ↑(s.finishes a) = s.held + ↑(enqueued [a]) := by
  rw [hfinishes, hbrings, hheld]

/-- **A job stays in the pool until its worker has run it.** -/
theorem held_step (h : s.step a = some s') : s'.held + ↑(s.finishes a) = s.held + ↑(enqueued [a]) := by
  cases step_inv h with
  | enqueue job =>
    have htasks : ((s.tasks ++ [job] : List J) : Multiset J) = ↑s.tasks + ↑[job] := rfl
    simp only [Pool.held, Pool.finishes, enqueued_enqueue, htasks, Multiset.coe_nil, add_zero]
    exact add_right_comm _ _ _
  | notifyNone | storeStop | join => rfl
  | notifyAll =>
    refine held_quiet rfl rfl ?_
    simp only [Pool.held, inHands, Pc.inHand_notify]
  | notifyOne i _ hpc => exact held_quiet rfl rfl (held_goto .lock s.mtx (by rw [hpc]; rfl) rfl)
  | wakeup i hpc => exact held_quiet rfl rfl (held_goto .lock s.mtx (by rw [hpc]; rfl) rfl)
  | lock i hpc | block i hpc | ret i hpc =>
    have hhand : (s.pc i).inHand = [] := by rw [hpc]; rfl
    exact held_quiet hhand rfl (held_goto _ _ hhand rfl)
  | wait i hpc =>
    have hhand : (s.pc i).inHand = [] := by rw [hpc]; rfl
    exact held_quiet hhand rfl (held_goto _ _ hhand (by split <;> rfl))
  | pop i t ts hpc htasks =>
    have hhands := inHands_update s.pc i (.run t)
    have hold : (s.tasks : Multiset J) = ↑[t] + ↑ts := congrArg _ htasks
    have hnew : inHands (Function.update s.pc i (.run t)) = inHands s.pc + ↑[t] := by simpa [hpc, Pc.inHand] using hhands
    refine congrArg₂ (· + ·) ?_ (by rw [Pool.finishes, hpc]; rfl)
    rw [Pool.held, Pool.held, hold]
    show ↑ts + inHands (Function.update s.pc i (.run t)) = _
    rw [hnew, add_comm (↑[t] : Multiset J), ← add_assoc, add_right_comm]
  | run i t hpc =>
    have hhands := inHands_update s.pc i .lock
    rw [hpc] at hhands
    simp only [Pool.held, Pool.finishes, Pool.goto, hpc, add_assoc, hhands]
    rfl

end ThreadPool

namespace Http

/-- `pool(4)`. -/
def workers : Nat := 4

/-- The socket that a pass of the scan hands to the pool. -/
def EventLoop.handed (s : EventLoop) : EventLoop.Label → Option Nat
  | .pass => s.i.filter (· ∈ s.readSet)
  | _ => none

/-- The socket that a job closes. -/
def EventLoop.closes : EventLoop.Label → List Nat
  | .closesocket fd => [fd]
  | _ => []

/-- The jobs are the sockets handed over and not closed. -/
theorem jobs_step {s t : EventLoop} {a : EventLoop.Label} (h : s.step a = some t) :
    (t.jobs : Multiset Nat) + ↑(EventLoop.closes a) = ↑s.jobs + ↑(s.handed a).toList := by
  cases EventLoop.step_inv h with
  | select | selectFailed | acceptFailed | accept | cleanup => rfl
  | enqueue i hi _ hr =>
    have hhanded : s.handed .pass = some i := by simp [EventLoop.handed, hi, hr]
    rw [hhanded]
    exact add_zero _
  | skip i hi _ hr =>
    have hhanded : s.handed .pass = none := by simp [EventLoop.handed, hi, hr]
    rw [hhanded]
    rfl
  | closesocket fd hfd =>
    show ↑(s.jobs.erase fd) + {fd} = (↑s.jobs : Multiset Nat) + 0
    rw [add_zero, add_comm, Multiset.singleton_add, Multiset.cons_coe]
    exact Multiset.coe_eq_coe.mpr (List.perm_cons_erase hfd).symm

structure Service where
  loop : EventLoop
  pool : ThreadPool.Pool workers Nat
  server : Server (Fin workers)
  /-- Where a worker with a job is in `handle_client`. -/
  client : Fin workers → Handling
  /-- History: the request that a worker has received. No step reads it. -/
  request : Fin workers → Bytes
  /-- History: the sockets that were closed, with what was received and done. No step reads it. -/
  served : List (Nat × Bytes × Handling)

namespace Service

inductive Label where
  /-- A step of `event_loop`. -/
  | loop (a : EventLoop.Label)
  /-- The `notify_one` that ends an `enqueue`. -/
  | notifyOne (woken : Option (Fin workers))
  /-- A step of a worker without a job. -/
  | worker (i : Fin workers)
  | spuriousWakeup (i : Fin workers)
  /-- `recv`, and `handle_request` up to its `Cache::put`. -/
  | recv (i : Fin workers) (received : Int) (buffer : Bytes)
  | put (i : Fin workers)
  | send (i : Fin workers) (sent : Int)
  /-- `closesocket`, and the end of the job. -/
  | closesocket (i : Fin workers)
  | tick (d : Nat)

def init (listenFd : Nat) : Service :=
  ⟨.init listenFd, .init workers Nat, .init (Fin workers), fun _ => .init, fun _ => [], []⟩

/-- The socket in the hands of a worker. -/
def job (s : Service) (i : Fin workers) : Option Nat :=
  match s.pool.pc i with
  | .run fd => some fd
  | _ => none

/-! ## The labels of the parts -/

def loopLabel (s : Service) : Label → Option EventLoop.Label
  | .loop a => some a
  | .closesocket i => (s.job i).map .closesocket
  | _ => none

def poolLabel (s : Service) : Label → Option (ThreadPool.Label workers Nat)
  | .loop a => (s.loop.handed a).map .enqueue
  | .notifyOne woken => some (.notifyOne woken)
  | .worker i => some (.worker i)
  | .closesocket i => some (.worker i)
  | .spuriousWakeup i => some (.spuriousWakeup i)
  | _ => none

def serverLabel (_ : Service) : Label → Option (Http.Label (Fin workers))
  | .loop .cleanup => some .cleanup
  | .recv i received buffer => if received ≤ 0 then none else some (.handle i (buffer.take received.toNat))
  | .put i => some (.put i)
  | .tick d => some (.tick d)
  | _ => none

/-! ## The steps -/

/-- `closesocket` is not the loop's. -/
def Scans : EventLoop.Label → Prop
  | .closesocket _ => False
  | _ => True

instance : ∀ a, Decidable (Scans a)
  | .closesocket _ => inferInstanceAs (Decidable False)
  | .select _ | .selectFailed | .accept _ | .pass | .cleanup => inferInstanceAs (Decidable True)

/-- The loop goes on when its `enqueue` has returned, and a worker sends when `handle_request` has returned. -/
def Enabled (s : Service) : Label → Prop
  | .loop a => s.pool.notifies = 0 ∧ Scans a
  | .worker i => s.job i = none
  | .recv i _ _ => s.job i ≠ none
  | .send i _ => s.job i ≠ none ∧ s.server.worker i = .idle
  | .closesocket i => s.job i ≠ none ∧ s.server.worker i = .idle
  | _ => True

instance (s : Service) : ∀ a, Decidable (s.Enabled a)
  | .loop a => inferInstanceAs (Decidable (s.pool.notifies = 0 ∧ Scans a))
  | .worker i => inferInstanceAs (Decidable (s.job i = none))
  | .recv i _ _ => inferInstanceAs (Decidable (s.job i ≠ none))
  | .send i _ => inferInstanceAs (Decidable (s.job i ≠ none ∧ s.server.worker i = .idle))
  | .closesocket i => inferInstanceAs (Decidable (s.job i ≠ none ∧ s.server.worker i = .idle))
  | .notifyOne _ | .spuriousWakeup _ | .put _ | .tick _ => inferInstanceAs (Decidable True)

variable (json : Bytes → Option (List (Bytes × Bytes)))

/-- What `handle_request` returns. -/
def respond (s : Service) (raw : Bytes) : Bytes := (s.server.handle json raw).1.response

/-- The part of `handle_client` in a step. -/
def clientStep (s : Service) : Label → Option Service
  | .recv i received buffer => ((s.client i).step (s.respond json) (.recv received buffer)).map fun c =>
    { s with
      client := Function.update s.client i c
      request := Function.update s.request i (buffer.take received.toNat) }
  | .send i sent => ((s.client i).step (s.respond json) (.send sent)).map fun c =>
    { s with client := Function.update s.client i c }
  | .closesocket i => (s.job i).bind fun fd => ((s.client i).step (s.respond json) .closesocket).map fun c =>
    { s with
      client := Function.update s.client i .init
      request := Function.update s.request i []
      served := s.served ++ [(fd, s.request i, c)] }
  | _ => some s

def step (s : Service) (a : Label) : Option Service :=
  if s.Enabled a then
    (s.clientStep json a).bind fun t => (stepMaybe EventLoop.step s.loop (s.loopLabel a)).bind fun loop =>
      (stepMaybe ThreadPool.Pool.step s.pool (s.poolLabel a)).bind fun pool =>
        (stepMaybe (Server.step json) s.server (s.serverLabel a)).map fun server => { t with loop, pool, server }
  else none

variable {json} {s t : Service} {a : Label} {as : List Label} {l : Nat}

/-- Everything a step does. -/
theorem step_inv (h : s.step json a = some t) : s.Enabled a ∧
    stepMaybe EventLoop.step s.loop (s.loopLabel a) = some t.loop ∧
    stepMaybe ThreadPool.Pool.step s.pool (s.poolLabel a) = some t.pool ∧
    stepMaybe (Server.step json) s.server (s.serverLabel a) = some t.server ∧
    ∃ u, s.clientStep json a = some u ∧ t.client = u.client ∧ t.request = u.request ∧ t.served = u.served := by
  obtain ⟨henabled, h⟩ := Option.ite_none_right_eq_some.mp h
  obtain ⟨u, hu, h⟩ := Option.bind_eq_some_iff.mp h
  obtain ⟨loop, hloop, h⟩ := Option.bind_eq_some_iff.mp h
  obtain ⟨pool, hpool, h⟩ := Option.bind_eq_some_iff.mp h
  obtain ⟨server, hserver, rfl⟩ := Option.map_eq_some_iff.mp h
  exact ⟨henabled, hloop, hpool, hserver, u, hu, rfl, rfl, rfl⟩

theorem loop_partOf : PartOf (step json) EventLoop.step Service.loop loopLabel := fun _ _ _ h => (step_inv h).2.1

theorem pool_partOf : PartOf (step json) ThreadPool.Pool.step Service.pool poolLabel := fun _ _ _ h => (step_inv h).2.2.1

theorem server_partOf : PartOf (step json) (Server.step json) Service.server serverLabel :=
  fun _ _ _ h => (step_inv h).2.2.2.1

/-! ## Handing over -/

theorem job_eq_none {i : Fin workers} : s.job i = none ↔ (s.pool.pc i).inHand = [] := by
  unfold job
  cases s.pool.pc i <;> simp [ThreadPool.Pc.inHand]

theorem job_eq_some {i : Fin workers} {fd : Nat} : s.job i = some fd ↔ s.pool.pc i = .run fd := by
  unfold job
  cases s.pool.pc i <;> simp

/-- The loop's jobs and the pool's are the same sockets. -/
theorem step_held (hs : (s.loop.jobs : Multiset Nat) = s.pool.held) (h : s.step json a = some t) :
    (t.loop.jobs : Multiset Nat) = t.pool.held := by
  obtain ⟨henabled, hloop, hpool, -⟩ := step_inv h
  cases a with
  | loop a =>
    have hjobs := jobs_step (show s.loop.step a = some t.loop from hloop)
    have hcloses : EventLoop.closes a = [] := by
      cases a with
      | closesocket => exact henabled.2.elim
      | _ => rfl
    rw [hcloses, Multiset.coe_nil, add_zero] at hjobs
    rw [hjobs, hs]
    rw [poolLabel] at hpool
    cases hhanded : s.loop.handed a with
    | none =>
      rw [hhanded] at hpool
      rw [← Option.some.inj hpool]
      exact add_zero _
    | some fd =>
      rw [hhanded] at hpool
      have hheld := ThreadPool.held_step (a := .enqueue fd) hpool
      exact hheld.symm.trans (add_zero _)
  | closesocket i =>
    obtain ⟨fd, hfd⟩ := Option.ne_none_iff_exists'.mp henabled.1
    have hjobs : (t.loop.jobs : Multiset Nat) + ↑[fd] = s.loop.jobs := by
      rw [loopLabel, hfd] at hloop
      exact (jobs_step (a := .closesocket fd) hloop).trans (add_zero _)
    have hheld : t.pool.held + ↑[fd] = s.pool.held := by
      have hheld := ThreadPool.held_step (a := .worker i) hpool
      rw [ThreadPool.Pool.finishes, job_eq_some.mp hfd] at hheld
      exact hheld.trans (add_zero _)
    exact add_right_cancel (hjobs.trans (hs.trans hheld.symm))
  | worker i =>
    have hheld := ThreadPool.held_step (a := .worker i) hpool
    rw [ThreadPool.Pool.finishes, job_eq_none.mp henabled] at hheld
    rw [← Option.some.inj hloop, hs]
    exact (add_right_cancel hheld).symm
  | notifyOne woken =>
    have hheld := ThreadPool.held_step (a := .notifyOne woken) hpool
    rw [← Option.some.inj hloop, hs]
    exact (add_right_cancel hheld).symm
  | spuriousWakeup i =>
    have hheld := ThreadPool.held_step (a := .spuriousWakeup i) hpool
    rw [← Option.some.inj hloop, hs]
    exact (add_right_cancel hheld).symm
  | recv | put | send | tick => rw [← Option.some.inj hloop, ← Option.some.inj hpool, hs]

theorem jobs_held (h : run (step json) (.init l) as = some s) : (s.loop.jobs : Multiset Nat) = s.pool.held :=
  run_inv (I := fun s : Service => (s.loop.jobs : Multiset Nat) = s.pool.held) (fun _ _ _ => step_held) rfl h

/-! ## Where the clients are -/

/-- How often a socket is queued or in the hands of a worker. -/
def jobsOf (s : Service) (fd : Nat) : Nat :=
  s.pool.tasks.count fd + (Finset.univ.filter fun i => s.job i = some fd).card

/-- A client is watched and in no job, or not watched and in one. -/
def Placed (s : Service) (fd : Nat) : Prop :=
  fd ∈ s.loop.masterSet ∧ s.jobsOf fd = 0 ∨ fd ∉ s.loop.masterSet ∧ s.jobsOf fd = 1

/-- `FD_SET` finds room for an accepted socket. -/
def hasRoom (s : Service) : Label → Prop
  | .loop a => s.loop.hasRoom a
  | _ => True

instance (s : Service) : ∀ a, Decidable (s.hasRoom a)
  | .loop a => inferInstanceAs (Decidable (s.loop.hasRoom a))
  | .notifyOne _ | .worker _ | .spuriousWakeup _ | .recv _ _ _ | .put _ | .send _ _ | .closesocket _ | .tick _ =>
    inferInstanceAs (Decidable True)

theorem count_held (s : Service) (fd : Nat) : s.pool.held.count fd = s.jobsOf fd := by
  have hhand : ∀ i, (↑(s.pool.pc i).inHand : Multiset Nat).count fd = if s.job i = some fd then 1 else 0 := by
    intro i
    unfold job
    cases s.pool.pc i with
    | run x => simp [ThreadPool.Pc.inHand, Multiset.count_singleton, eq_comm]
    | _ => simp [ThreadPool.Pc.inHand]
  rw [ThreadPool.Pool.held, Multiset.count_add, Multiset.coe_count, ThreadPool.inHands, Multiset.count_sum', jobsOf,
    Finset.card_filter]
  exact congrArg _ (Finset.sum_congr rfl fun i _ => hhand i)

/-- **Where the clients of the service are.** In every reachable state every open client is watched by the loop and in
no job, or not watched and in exactly one job, queued or in the hands of a worker, if and only if `FD_SET` had room for
every socket accepted so far. -/
theorem service_tracked (h : run (step json) (.init l) as = some s) :
    (∀ fd ∈ s.loop.clients, s.Placed fd) ↔ Meets (step json) hasRoom (.init l) as := by
  have hjobs := jobs_held h
  have hcount : ∀ fd, s.loop.jobs.count fd = s.jobsOf fd := by
    intro fd
    rw [← count_held, ← hjobs, Multiset.coe_count]
  have htracked : (∀ fd ∈ s.loop.clients, s.Placed fd) ↔ s.loop.Tracked := by
    unfold EventLoop.Tracked Placed
    simp only [hcount]
  have hloop : run EventLoop.step (.init l) (partLabels (step json) loopLabel (.init l) as) = some s.loop :=
    loop_partOf.run h
  have hmeets := loop_partOf.meets EventLoop.hasRoom h
  refine (htracked.trans (tracked_iff hloop)).trans (hmeets.trans (meets_congr (fun s a t hs => ?_) h))
  cases a with
  | loop a => simp [loopLabel, hasRoom]
  | closesocket i => simp [loopLabel, hasRoom, EventLoop.hasRoom]
  | _ => simp [loopLabel, hasRoom]

/-- One of the workers. -/
def oneWorker : Fin workers := ⟨0, by decide⟩

/-- The socket 1 is accepted, watched, found ready, handed over and taken by a worker. -/
def oneClient : List Label :=
  [.loop (.select [0]), .loop (.accept (some 1)), .loop .pass, .loop .cleanup, .loop (.select [1]), .loop .pass,
    .loop .pass, .notifyOne none, .loop .cleanup, .worker oneWorker, .worker oneWorker, .worker oneWorker]

theorem oneClient_tracked : ∃ s, run (step fun _ => none) (.init 0) oneClient = some s ∧
    (∀ fd ∈ s.loop.clients, s.Placed fd) ∧ s.loop.clients = [1] ∧ s.job oneWorker = some 1 := by
  have hrun : run (step fun _ => none) (.init 0) oneClient = some _ := rfl
  exact ⟨_, hrun, (service_tracked hrun).mpr (by decide), rfl, rfl⟩

end Service

end Http

end HighLoad
