import HighLoad.Http.Served
import Mathlib.Data.Set.Finite.List

/-!
# The service comes to rest

While no socket becomes ready, the threads of the pool go on alone. Each of their steps takes a unit off the work of the
service: the work of the pool, and for each worker the socket calls that its client may still cost (`step_pays`). A
worker with a job always has a call to make, so the service comes to rest, and then every socket that was handed over has
been closed (`service_settles`).
-/

namespace HighLoad

open ByteString Transition

namespace ThreadPool

variable {n : Nat} {J : Type} {s s' : Pool n J} {a : Label n J}

/-- Only the destructor ends a pool's life. -/
theorem step_alive (ha : a ≠ .storeStop) (hd : s.dtor = .alive) (h : s.step a = some s') : s'.dtor = .alive := by
  cases step_inv h with
  | enqueue | notifyNone | notifyOne | lock | wait | block | ret | pop | run | wakeup => exact hd
  | storeStop => exact absurd rfl ha
  | notifyAll hd' | join _ _ hd' => cases hd.symm.trans hd'

end ThreadPool

namespace Http

/-! ## The work of the service -/

/-- The calls that a client may still cost, when no answer is longer than `L`. -/
def Handling.work (L : Nat) (c : Handling) : Nat :=
  match c.phase with
  | .receiving => L + 3
  | .sending => c.response.length - c.totalSent + 1
  | .closing => 1
  | .returned => 0

/-- The `Cache::put` to come. -/
def Worker.work : Worker → Nat
  | .idle => 0
  | .putting .. => 1

namespace Service

variable {json : Bytes → Option (List (Bytes × Bytes))} {s t : Service} {a : Label} {as : List Label} {l L : Nat}
  {i : Fin workers} {c c' : Handling}

/-- A job brings a client, so a unit of the pool's work is worth one. -/
def work (L : Nat) (s : Service) : Nat :=
  (L + 3) * s.pool.work + ∑ i, (s.client i).work L + ∑ i, (s.server.worker i).work

/-- The steps of the pool's threads, and the `notify_one` of the loop. -/
def Label.Own : Label → Prop
  | .loop _ | .spuriousWakeup _ | .tick _ => False
  | _ => True

/-- The work that a label brings, and its own step. -/
def Label.cost (L : Nat) : Label → Nat
  | .loop _ => (L + 3) * 9 + 1
  | .spuriousWakeup _ => (L + 3) * 4
  | .tick _ => 1
  | _ => 0

theorem own_cost (ha : a.Own) : a.cost L = 0 := by
  cases a with
  | loop | spuriousWakeup | tick => exact ha.elim
  | notifyOne | worker | recv | put | send | closesocket => rfl

/-- No answer to what `recv` can read is longer than `L`. -/
def Bounds (json : Bytes → Option (List (Bytes × Bytes))) (L : Nat) : Prop :=
  ∀ raw : Bytes, raw.length ≤ recvSize → (answer json raw).length ≤ L

/-- There are only so many requests. -/
theorem exists_bounds (json : Bytes → Option (List (Bytes × Bytes))) : ∃ L, Bounds json L := by
  have hbyte : Finite UInt8 := Finite.of_injective UInt8.toFin fun _ _ h => UInt8.toFin_inj.mp h
  have hraws : {raw : Bytes | raw.length ≤ recvSize}.Finite := List.finite_length_le UInt8 recvSize
  obtain ⟨L, hL⟩ := (hraws.image fun raw => (answer json raw).length).bddAbove
  exact ⟨L, fun raw hraw => hL ⟨raw, hraw, rfl⟩⟩

/-! ## Every step is paid for -/

/-- The pool's step of a label. -/
theorem pool_pays (hpool : stepMaybe ThreadPool.Pool.step s.pool (s.poolLabel a) = some t.pool) {b}
    (hb : s.poolLabel a = some b) : t.pool.work + 1 ≤ s.pool.work + b.cost := by
  rw [hb] at hpool
  exact ThreadPool.step_pays hpool

/-- The calls of one client. -/
theorem clients_update (s : Service) (i : Fin workers) (c : Handling) :
    ∑ j, (Function.update s.client i c j).work L + (s.client i).work L = ∑ j, (s.client j).work L + c.work L :=
  sum_update (Handling.work L) s.client i c

theorem workers_update (server : Server (Fin workers)) (i : Fin workers) (w : Worker) :
    ∑ j, (Function.update server.worker i w j).work + (server.worker i).work =
      ∑ j, (server.worker j).work + w.work :=
  sum_update Worker.work server.worker i w

/-- Handling a request may leave a `put` to do. -/
theorem handle_workers {server server' : Server (Fin workers)} {raw : Bytes}
    (h : server.step json (.handle i raw) = some server') :
    ∑ j, (server'.worker j).work ≤ ∑ j, (server.worker j).work + 1 := by
  simp only [Server.step] at h
  split at h
  case h_1 => cases h
  case h_2 hidle =>
    split at h
    case h_1 =>
      cases h
      exact Nat.le_succ _
    case h_2 raw' response _ _ =>
      cases h
      have hsum := workers_update server i (.putting raw raw' response)
      rw [hidle] at hsum
      exact (Nat.le_add_right _ _).trans hsum.le

/-- A `put` does it. -/
theorem put_workers {server server' : Server (Fin workers)} (h : server.step json (.put i) = some server') :
    ∑ j, (server'.worker j).work + 1 = ∑ j, (server.worker j).work := by
  simp only [Server.step] at h
  split at h
  case h_1 => cases h
  case h_2 hputting =>
    cases h
    have hsum := workers_update server i .idle
    rw [hputting] at hsum
    exact hsum

/-- `recv` turns the costs of any answer into those of this one. -/
theorem recv_work (hL : Bounds json L) {received : Int} {buffer : Bytes} (hfresh : Fresh json s.server)
    (hc : Handling.Sound c) (h : c.step (s.respond json) (.recv received buffer) = some c') :
    c'.work L + 2 ≤ c.work L := by
  obtain ⟨hanswers, -⟩ := recv_answers hfresh hc h
  simp only [Handling.step, Option.ite_none_right_eq_some] at h
  obtain ⟨⟨hphase, hbuffer, -⟩, h⟩ := h
  have hlen : (buffer.take received.toNat).length ≤ recvSize := hbuffer ▸ List.length_take_le' _ _
  have hbound := hL _ hlen
  rw [← hanswers] at hbound
  split at h
  · cases h
    simp only [Handling.work, hphase]
    omega
  · cases h
    simp only [Handling.work, hphase] at hbound ⊢
    omega

/-- A `send` takes a byte, or is the last. -/
theorem send_work {respond : Bytes → Bytes} {sent : Int} (h : c.step respond (.send sent) = some c') :
    c'.work L + 1 ≤ c.work L := by
  simp only [Handling.step, Option.ite_none_right_eq_some] at h
  obtain ⟨⟨hphase, hlt, -⟩, h⟩ := h
  split at h
  · cases h
    simp only [Handling.work, hphase]
    omega
  · cases h
    simp only [Handling.work, hphase]
    omega

/-- `closesocket` is a call. -/
theorem closesocket_work {respond : Bytes → Bytes} (h : c.step respond .closesocket = some c') : 0 < c.work L := by
  simp only [Handling.step] at h
  split at h
  case h_1 hphase =>
    simp only [Handling.work, hphase]
    omega
  case h_2 hphase =>
    simp only [Handling.work, hphase]
    omega
  case h_3 => cases h

/-- **Every step is paid for.** -/
theorem step_pays (hL : Bounds json L) (hs : Serving json s) (h : s.step json a = some t) :
    t.work L + 1 ≤ s.work L + a.cost L := by
  obtain ⟨-, -, hpool, hserver, u, hu, hclient, -⟩ := step_inv h
  have hscale : ∀ {b}, s.poolLabel a = some b →
      (L + 3) * t.pool.work + (L + 3) ≤ (L + 3) * s.pool.work + (L + 3) * b.cost := by
    intro b hb
    rw [← Nat.mul_succ, ← Nat.mul_add]
    exact Nat.mul_le_mul_left _ (pool_pays hpool hb)
  unfold work
  cases a with
  | loop b =>
    cases hu
    have hworker : s.server.worker = t.server.worker := by
      cases b <;> rw [← Option.some.inj hserver]
    rw [hclient, ← hworker]
    cases hhanded : s.loop.handed b with
    | none =>
      rw [poolLabel, hhanded] at hpool
      rw [← Option.some.inj hpool, Label.cost]
      omega
    | some fd =>
      have hpaid := hscale (b := .enqueue fd) (by rw [poolLabel, hhanded]; rfl)
      simp only [ThreadPool.Label.cost, Label.cost] at hpaid ⊢
      omega
  | notifyOne | worker | spuriousWakeup =>
    cases hu
    have hpaid := hscale rfl
    rw [← Option.some.inj hserver, hclient]
    simp only [ThreadPool.Label.cost, Label.cost] at hpaid ⊢
    omega
  | recv i received buffer =>
    obtain ⟨c, hc, rfl⟩ := Option.map_eq_some_iff.mp hu
    have hcalls := recv_work hL hs.fresh (hs.sound i) hc
    have hclients := clients_update (L := L) s i c
    have hworkers : ∑ j, (t.server.worker j).work ≤ ∑ j, (s.server.worker j).work + 1 := by
      simp only [serverLabel] at hserver
      split at hserver
      · rw [← Option.some.inj hserver]
        exact Nat.le_succ _
      · exact handle_workers hserver
    rw [← Option.some.inj hpool, hclient]
    simp only [Label.cost]
    omega
  | put i =>
    cases hu
    have hput : s.server.step json (.put i) = some t.server := hserver
    have hworkers := put_workers hput
    rw [← Option.some.inj hpool, hclient]
    simp only [Label.cost]
    omega
  | send i sent =>
    obtain ⟨c, hc, rfl⟩ := Option.map_eq_some_iff.mp hu
    have hcalls := send_work (L := L) hc
    have hclients := clients_update (L := L) s i c
    rw [← Option.some.inj hpool, ← Option.some.inj hserver, hclient]
    simp only [Label.cost]
    omega
  | closesocket i =>
    obtain ⟨fd, hfd, hu⟩ := Option.bind_eq_some_iff.mp hu
    obtain ⟨c, hc, rfl⟩ := Option.map_eq_some_iff.mp hu
    have hpaid := hscale rfl
    have hcalls := closesocket_work (L := L) hc
    have hclients := clients_update (L := L) s i .init
    have hinit : Handling.init.work L = L + 3 := rfl
    rw [← Option.some.inj hserver, hclient]
    simp only [ThreadPool.Label.cost, Label.cost] at hpaid ⊢
    omega
  | tick d =>
    cases hu
    rw [← Option.some.inj hpool, ← Option.some.inj hserver, hclient]
    exact Nat.le_refl _

theorem service_pays (hL : Bounds json L) : Pays (step json) (Serving json) (work L) (Label.cost L) where
  inv _ _ _ hs h := step_serving hs h
  pays _ _ _ hs h := step_pays hL hs h

/-! ## A service at rest -/

/-- The pool is not destroyed. -/
theorem run_alive (h : run (step json) (.init l) as = some s) : s.pool.dtor = .alive := by
  refine run_inv (I := fun s : Service => s.pool.dtor = .alive) (fun s a t hs hstep => ?_) rfl h
  obtain ⟨-, -, hpool, -⟩ := step_inv hstep
  cases hlabel : s.poolLabel a with
  | none =>
    rw [hlabel] at hpool
    rw [← Option.some.inj hpool]
    exact hs
  | some b =>
    rw [hlabel] at hpool
    refine ThreadPool.step_alive (fun hb => ?_) hs hpool
    rw [hb] at hlabel
    cases a with
    | loop a => cases hhanded : s.loop.handed a <;> simp [poolLabel, hhanded] at hlabel
    | notifyOne | worker | spuriousWakeup | closesocket => cases hlabel
    | recv | put | send | tick => cases hlabel

/-- A step that each part can make. -/
theorem step_ne_none (henabled : s.Enabled a) (hu : s.clientStep json a ≠ none)
    (hloop : stepMaybe EventLoop.step s.loop (s.loopLabel a) ≠ none)
    (hpool : stepMaybe ThreadPool.Pool.step s.pool (s.poolLabel a) ≠ none)
    (hserver : stepMaybe (Server.step json) s.server (s.serverLabel a) ≠ none) : s.step json a ≠ none := by
  obtain ⟨u, hu⟩ := Option.ne_none_iff_exists'.mp hu
  obtain ⟨loop, hloop⟩ := Option.ne_none_iff_exists'.mp hloop
  obtain ⟨pool, hpool⟩ := Option.ne_none_iff_exists'.mp hpool
  obtain ⟨server, hserver⟩ := Option.ne_none_iff_exists'.mp hserver
  rw [step, if_pos henabled, hu, hloop, hpool, hserver]
  exact Option.some_ne_none _

/-- At rest no `put` is to come. -/
theorem rest_idle (hrest : AtRest (step json) Label.Own s) (i : Fin workers) : s.server.worker i = .idle := by
  cases hworker : s.server.worker i with
  | idle => rfl
  | putting raw path response =>
    refine absurd (hrest (.put i) trivial) (step_ne_none trivial nofun nofun nofun ?_)
    simp [serverLabel, stepMaybe, Server.step, hworker]

/-- The socket in the hands of a worker is a job of the loop. -/
theorem job_mem (hjobs : (s.loop.jobs : Multiset Nat) = s.pool.held) {fd : Nat} (hfd : s.job i = some fd) :
    fd ∈ s.loop.jobs := by
  have hhand : fd ∈ ThreadPool.inHands s.pool.pc := by
    refine Multiset.mem_sum.mpr ⟨i, Finset.mem_univ i, ?_⟩
    rw [job_eq_some.mp hfd]
    exact List.mem_singleton_self fd
  have hheld : fd ∈ s.pool.held := Multiset.mem_add.mpr (.inr hhand)
  rwa [← hjobs, Multiset.mem_coe] at hheld

/-- At rest no worker has a job: it would have a call to make. -/
theorem rest_job (hjobs : (s.loop.jobs : Multiset Nat) = s.pool.held) (hs : Serving json s)
    (hrest : AtRest (step json) Label.Own s) (i : Fin workers) : s.job i = none := by
  by_contra hjob
  obtain ⟨fd, hfd⟩ := Option.ne_none_iff_exists'.mp hjob
  have hidle := rest_idle hrest i
  obtain ⟨b, c, hc⟩ : ∃ b c, (s.client i).step (s.respond json) b = some c :=
    Handling.step_progress (s.client i) (hs.unfinished i)
  cases b with
  | recv received buffer =>
    refine absurd (hrest (.recv i received buffer) trivial)
      (step_ne_none hjob ?_ (Option.some_ne_none _) (Option.some_ne_none _) ?_)
    · simp [clientStep, hc]
    · simp only [serverLabel]
      split
      · exact Option.some_ne_none _
      · simp only [stepMaybe, Server.step, hidle]
        split <;> exact Option.some_ne_none _
  | send sent =>
    refine absurd (hrest (.send i sent) trivial)
      (step_ne_none ⟨hjob, hidle⟩ ?_ (Option.some_ne_none _) (Option.some_ne_none _) (Option.some_ne_none _))
    simp [clientStep, hc]
  | closesocket =>
    refine absurd (hrest (.closesocket i) trivial) (step_ne_none ⟨hjob, hidle⟩ ?_ ?_ ?_ (Option.some_ne_none _))
    · simp [clientStep, hfd, hc]
    · simp [loopLabel, hfd, stepMaybe, EventLoop.step, job_mem hjobs hfd]
    · simp [poolLabel, stepMaybe, ThreadPool.Pool.step, ThreadPool.Pool.workerStep, job_eq_some.mp hfd]

/-- Then the pool is at rest. -/
theorem rest_pool (halive : s.pool.dtor = .alive) (hjob : ∀ i, s.job i = none)
    (hrest : AtRest (step json) Label.Own s) : AtRest ThreadPool.Pool.step ThreadPool.Label.Own s.pool := by
  intro b hb
  cases b with
  | enqueue | spuriousWakeup | storeStop => exact hb.elim
  | notifyOne woken =>
    by_contra hstep
    exact absurd (hrest (.notifyOne woken) trivial) (step_ne_none trivial nofun nofun hstep nofun)
  | worker i =>
    by_contra hstep
    exact absurd (hrest (.worker i) trivial) (step_ne_none (hjob i) nofun nofun hstep nofun)
  | notifyAll => simp [ThreadPool.Pool.step, halive]
  | join => simp [ThreadPool.Pool.step, halive]

/-! ## The sockets -/

/-- The sockets that were closed or are to be closed by a worker. -/
def handedOver (s : Service) : Multiset Nat := ↑(s.served.map Prod.fst) + ↑s.loop.jobs

/-- The pool's threads take no socket and lose none. -/
theorem own_handedOver (ha : a.Own) (h : s.step json a = some t) : t.handedOver = s.handedOver := by
  obtain ⟨henabled, hloop, -, -, u, hu, -, -, hserved⟩ := step_inv h
  unfold handedOver
  rw [hserved]
  cases a with
  | loop | spuriousWakeup | tick => exact ha.elim
  | closesocket i =>
    obtain ⟨fd, hfd, hu⟩ := Option.bind_eq_some_iff.mp hu
    obtain ⟨c, -, rfl⟩ := Option.map_eq_some_iff.mp hu
    rw [loopLabel, hfd] at hloop
    have hjobs := jobs_step (a := .closesocket fd) hloop
    have hclosed : (↑(List.map Prod.fst (s.served ++ [(fd, s.request i, c)])) : Multiset Nat) =
        ↑(s.served.map Prod.fst) + ↑[fd] := by
      rw [List.map_append]
      rfl
    rw [hclosed, add_right_comm, add_assoc, ← add_zero (s.loop.jobs : Multiset Nat)]
    exact congrArg _ hjobs
  | recv | send =>
    obtain ⟨c, -, rfl⟩ := Option.map_eq_some_iff.mp hu
    rw [← Option.some.inj hloop]
  | notifyOne | worker | put =>
    cases hu
    rw [← Option.some.inj hloop]

/-- **The service comes to rest.** From every reachable state the pool's threads have a bounded number of steps in any
order; they reach a state of rest, as long as socket calls return; and in every state of rest every socket that was
queued or in the hands of a worker has been closed, once, no job is left and every worker is blocked. -/
theorem service_settles (h : run (step json) (.init l) as = some s) :
    (∃ k, ∀ bs t, (∀ b ∈ bs, b.Own) → run (step json) s bs = some t → bs.length ≤ k) ∧
    (∃ bs t, (∀ b ∈ bs, b.Own) ∧ run (step json) s bs = some t ∧ AtRest (step json) Label.Own t) ∧
    ∀ bs t, (∀ b ∈ bs, b.Own) → run (step json) s bs = some t → AtRest (step json) Label.Own t →
      (t.served.map Prod.fst).Perm (s.served.map Prod.fst ++ s.loop.jobs) ∧ t.loop.jobs = [] ∧
      ∀ i, t.pool.pc i = .blocked := by
  obtain ⟨L, hL⟩ := exists_bounds json
  have hs := run_serving h
  refine ⟨⟨s.work L, fun bs t hbs ht => ?_⟩, ?_, fun bs t hbs ht hrest => ?_⟩
  · exact own_length_le (service_pays hL) (fun _ => own_cost) hs hbs ht
  · exact exists_rest (service_pays hL) (fun _ => own_cost) s hs
  · have hall : run (step json) (.init l) (as ++ bs) = some t := run_append.mpr ⟨s, h, ht⟩
    have hheld := jobs_held hall
    have halive := run_alive hall
    have hjob := rest_job hheld (run_serving hall) hrest
    have hpool : run ThreadPool.Pool.step (.init workers Nat) _ = some t.pool := pool_partOf.run hall
    obtain ⟨⟨htasks, -⟩, hend⟩ := ThreadPool.rest_ran (by decide) hpool (rest_pool halive hjob hrest)
    have hblocked : ∀ i, t.pool.pc i = .blocked := by
      rcases hend with ⟨-, hblocked⟩ | ⟨hjoined, -⟩
      · exact hblocked
      · cases halive.symm.trans hjoined
    have hjobs : t.loop.jobs = [] := by
      rw [← Multiset.coe_eq_zero, hheld, ThreadPool.Pool.held, htasks, ThreadPool.inHands]
      simp [hblocked, ThreadPool.Pc.inHand]
    refine ⟨Multiset.coe_eq_coe.mp ?_, hjobs, hblocked⟩
    have hsame : t.handedOver = s.handedOver := by
      refine own_inv (J := fun t : Service => t.handedOver = s.handedOver) ?_ hbs rfl ht
      exact fun u a v ha hu huv => (own_handedOver ha huv).trans hu
    rw [handedOver, hjobs] at hsame
    exact (add_zero _).symm.trans hsame

/-- The client in the hands of a worker is closed. -/
theorem oneClient_settles : ∃ s, run (step fun _ => none) (.init 0) oneClient = some s ∧
    ∃ bs t, run (step fun _ => none) s bs = some t ∧ t.served.map Prod.fst = [1] ∧ t.loop.jobs = [] := by
  have hrun : run (step fun _ => none) (.init 0) oneClient = some _ := rfl
  obtain ⟨-, ⟨bs, t, hbs, ht, hrest⟩, hsettled⟩ := service_settles hrun
  obtain ⟨hserved, hjobs, -⟩ := hsettled bs t hbs ht hrest
  exact ⟨_, hrun, bs, t, ht, List.perm_singleton.mp hserved, hjobs⟩

end Service

end Http

end HighLoad
