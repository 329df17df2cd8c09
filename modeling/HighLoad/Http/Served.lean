import HighLoad.Http.Service

/-!
# What the clients of the service get

Whatever the loop, the pool, the workers and the clients do, and however often the cache hits: the bytes on a socket are
a part of the answer that a server without a cache gives to the request received on it, from its beginning, and every
accepted socket is open or was closed once (`service_answers`).
-/

namespace HighLoad

open ByteString Transition

namespace ThreadPool

variable {n : Nat} {J : Type} {s s' : Pool n J} {a : Label n J} {i : Fin n} {x : J}

/-- A job stays in a worker's hands until the worker moves. -/
theorem run_stays (h : s.step a = some s') (hpc : s.pc i = .run x) : s'.pc i = .run x ∨ a = .worker i := by
  have hother : ∀ {j : Fin n} {pc : Pc J}, j ≠ i → Function.update s.pc j pc i = .run x := fun hj =>
    (Function.update_of_ne (Ne.symm hj) _ _).trans hpc
  cases step_inv h with
  | enqueue | notifyNone | storeStop | join => exact .inl hpc
  | notifyAll =>
    left
    show (s.pc i).notify = .run x
    rw [hpc]
    rfl
  | notifyOne j _ hj | wakeup j hj =>
    refine .inl (hother ?_)
    rintro rfl
    cases hpc.symm.trans hj
  | lock j | wait j | block j | ret j | pop j | run j =>
    by_cases hj : j = i
    · exact .inr (by rw [hj])
    · exact .inl (hother hj)

end ThreadPool

namespace Http

namespace Service

variable {json : Bytes → Option (List (Bytes × Bytes))} {s t u : Service} {a : Label} {as : List Label} {l : Nat}
  {i : Fin workers} {raw : Bytes} {c c' : Handling}

/-! ## One client -/

/-- The answer of a server without a cache to what was received, if anything was. -/
def answer (json : Bytes → Option (List (Bytes × Bytes))) (raw : Bytes) : Bytes :=
  if raw = [] then [] else uncached json raw

def Answers (json : Bytes → Option (List (Bytes × Bytes))) (raw : Bytes) (c : Handling) : Prop :=
  c.response = answer json raw

/-- The response has not been touched. -/
theorem Answers.congr (h : Answers json raw c) (hsame : c'.response = c.response) : Answers json raw c' :=
  hsame.trans h

/-- `recv` with the answer to what it has read, from a cache of rendered responses. -/
theorem recv_answers {received : Int} {buffer : Bytes} (hfresh : Fresh json s.server) (hc : Handling.Sound c)
    (h : c.step (s.respond json) (.recv received buffer) = some c') :
    Answers json (buffer.take received.toNat) c' ∧ c'.phase ≠ .returned := by
  simp only [Handling.step, Option.ite_none_right_eq_some] at h
  obtain ⟨⟨hphase, hbuffer, -⟩, h⟩ := h
  split at h
  case isTrue hfail =>
    cases h
    refine ⟨?_, by simp⟩
    have hnone : buffer.take received.toNat = [] := by
      rw [Int.toNat_of_nonpos hfail, List.take_zero]
    rw [Answers, hnone, answer, if_pos rfl]
    exact (hc.receiving hphase).1
  case isFalse hpos =>
    cases h
    refine ⟨?_, by simp⟩
    have hsome : buffer.take received.toNat ≠ [] := by
      intro hnil
      have hlen := congrArg List.length hnil
      rw [List.length_take, hbuffer, List.length_nil] at hlen
      unfold recvSize at hlen
      omega
    rw [Answers, answer, if_neg hsome]
    exact handle_response hfresh _

/-- A `send` goes on with the response. -/
theorem send_response {respond : Bytes → Bytes} {sent : Int} (h : c.step respond (.send sent) = some c') :
    c'.response = c.response ∧ c'.phase ≠ .returned := by
  simp only [Handling.step, Option.ite_none_right_eq_some] at h
  obtain ⟨⟨hphase, -⟩, h⟩ := h
  split at h
  · cases h
    exact ⟨rfl, by simp⟩
  · cases h
    exact ⟨rfl, by simp [hphase]⟩

/-- `closesocket` is the end. -/
theorem closesocket_response {respond : Bytes → Bytes} (h : c.step respond .closesocket = some c') :
    c'.response = c.response ∧ c'.phase = .returned := by
  simp only [Handling.step] at h
  split at h
  case h_1 =>
    obtain ⟨-, h⟩ := Option.ite_none_left_eq_some.mp h
    cases h
    exact ⟨rfl, rfl⟩
  case h_2 =>
    cases h
    exact ⟨rfl, rfl⟩
  case h_3 => cases h

/-! ## The invariant -/

/-- What a worker does with its client is sound and answers the request; a worker without a job has no client. -/
structure Serving (json : Bytes → Option (List (Bytes × Bytes))) (s : Service) : Prop where
  fresh : Fresh json s.server
  sound : ∀ i, Handling.Sound (s.client i)
  answers : ∀ i, Answers json (s.request i) (s.client i)
  unfinished : ∀ i, (s.client i).phase ≠ .returned
  idle : ∀ i, s.job i = none → s.client i = .init
  served : ∀ fd raw c, (fd, raw, c) ∈ s.served → Handling.Sound c ∧ Answers json raw c ∧ c.phase = .returned

theorem init_serving (l : Nat) : Serving json (.init l) where
  fresh := fresh_init
  sound _ := Handling.init_sound
  answers _ := rfl
  unfinished _ := nofun
  idle _ _ := rfl
  served _ _ _ h := absurd h List.not_mem_nil

/-- Only the `closesocket` of a worker ends its job. -/
theorem job_stays (h : s.step json a = some t) (hi : t.job i = none) : s.job i = none ∨ a = .closesocket i := by
  cases hjob : s.job i with
  | none => exact .inl rfl
  | some fd =>
    obtain ⟨henabled, -, hpool, -⟩ := step_inv h
    have hpc := job_eq_some.mp hjob
    have hmoved : ∀ b, s.poolLabel a = some b → b = .worker i := by
      intro b hb
      rw [hb] at hpool
      refine (ThreadPool.run_stays hpool hpc).resolve_left fun hstays => ?_
      rw [job_eq_some.mpr hstays] at hi
      cases hi
    right
    cases hlabel : s.poolLabel a with
    | none =>
      rw [hlabel] at hpool
      rw [job, ← Option.some.inj hpool, hpc] at hi
      cases hi
    | some b =>
      obtain rfl := hmoved b hlabel
      cases a with
      | worker j =>
        cases hlabel
        have hnone : s.job i = none := henabled
        cases hjob.symm.trans hnone
      | closesocket j =>
        cases hlabel
        rfl
      | loop a => cases hhanded : s.loop.handed a <;> simp [poolLabel, hhanded] at hlabel
      | notifyOne | spuriousWakeup => cases hlabel
      | recv | put | send | tick => cases hlabel

/-- One client has moved. -/
theorem Serving.move (hs : Serving json s) (hfresh : Fresh json t.server)
    (hclient : t.client = Function.update s.client i c) (hrequest : t.request = Function.update s.request i raw)
    (hserved : t.served = s.served) (hc : Handling.Sound c) (hanswers : Answers json raw c) (hphase : c.phase ≠ .returned)
    (hbusy : s.job i ≠ none) (hjobs : ∀ j, t.job j = none → s.job j = none) : Serving json t := by
  have hi : t.client i = c := by rw [hclient, Function.update_self]
  have hraw : t.request i = raw := by rw [hrequest, Function.update_self]
  have hj : ∀ j, j ≠ i → t.client j = s.client j := fun j hj => by rw [hclient, Function.update_of_ne hj]
  have hrawj : ∀ j, j ≠ i → t.request j = s.request j := fun j hj => by rw [hrequest, Function.update_of_ne hj]
  refine ⟨hfresh, fun j => ?_, fun j => ?_, fun j => ?_, fun j hjob => ?_, hserved ▸ hs.served⟩
  · rcases eq_or_ne j i with rfl | hne
    · rw [hi]
      exact hc
    · rw [hj j hne]
      exact hs.sound j
  · rcases eq_or_ne j i with rfl | hne
    · rw [hi, hraw]
      exact hanswers
    · rw [hj j hne, hrawj j hne]
      exact hs.answers j
  · rcases eq_or_ne j i with rfl | hne
    · rw [hi]
      exact hphase
    · rw [hj j hne]
      exact hs.unfinished j
  · rcases eq_or_ne j i with rfl | hne
    · exact absurd (hjobs j hjob) hbusy
    · rw [hj j hne]
      exact hs.idle j (hjobs j hjob)

/-- One client is done. -/
theorem Serving.close (hs : Serving json s) (hfresh : Fresh json t.server)
    (hclient : t.client = Function.update s.client i .init) (hrequest : t.request = Function.update s.request i [])
    {fd : Nat} (hserved : t.served = s.served ++ [(fd, s.request i, c)]) (hc : Handling.Sound c)
    (hanswers : Answers json (s.request i) c) (hphase : c.phase = .returned)
    (hjobs : ∀ j, j ≠ i → t.job j = none → s.job j = none) : Serving json t := by
  have hi : t.client i = .init := by rw [hclient, Function.update_self]
  have hraw : t.request i = [] := by rw [hrequest, Function.update_self]
  have hj : ∀ j, j ≠ i → t.client j = s.client j := fun j hj => by rw [hclient, Function.update_of_ne hj]
  have hrawj : ∀ j, j ≠ i → t.request j = s.request j := fun j hj => by rw [hrequest, Function.update_of_ne hj]
  refine ⟨hfresh, fun j => ?_, fun j => ?_, fun j => ?_, fun j hjob => ?_, fun fd' raw c' hmem => ?_⟩
  · rcases eq_or_ne j i with rfl | hne
    · rw [hi]
      exact Handling.init_sound
    · rw [hj j hne]
      exact hs.sound j
  · rcases eq_or_ne j i with rfl | hne
    · rw [hi, hraw]
      rfl
    · rw [hj j hne, hrawj j hne]
      exact hs.answers j
  · rcases eq_or_ne j i with rfl | hne
    · rw [hi]
      nofun
    · rw [hj j hne]
      exact hs.unfinished j
  · rcases eq_or_ne j i with rfl | hne
    · exact hi
    · rw [hj j hne]
      exact hs.idle j (hjobs j hne hjob)
  · rw [hserved] at hmem
    rcases List.mem_append.mp hmem with hmem | hmem
    · exact hs.served fd' raw c' hmem
    · cases List.mem_singleton.mp hmem
      exact ⟨hc, hanswers, hphase⟩

theorem step_serving (hs : Serving json s) (h : s.step json a = some t) : Serving json t := by
  obtain ⟨henabled, -, -, hserver, u, hu, hclient, hrequest, hserved⟩ := step_inv h
  have hfresh : Fresh json t.server := by
    cases hlabel : s.serverLabel a with
    | none =>
      rw [hlabel] at hserver
      rw [← Option.some.inj hserver]
      exact hs.fresh
    | some b =>
      rw [hlabel] at hserver
      exact step_fresh hs.fresh hserver
  have hjobs : ∀ j, a ≠ .closesocket j → t.job j = none → s.job j = none := fun j hne hjob =>
    (job_stays h hjob).resolve_right hne
  cases a with
  | recv i received buffer =>
    obtain ⟨c, hc, rfl⟩ := Option.map_eq_some_iff.mp hu
    obtain ⟨hanswers, hphase⟩ := recv_answers hs.fresh (hs.sound i) hc
    exact hs.move hfresh hclient hrequest hserved (Handling.step_sound (hs.sound i) hc) hanswers hphase henabled
      fun j => hjobs j nofun
  | send i sent =>
    obtain ⟨c, hc, rfl⟩ := Option.map_eq_some_iff.mp hu
    obtain ⟨hresponse, hphase⟩ := send_response hc
    have hsame : t.request = Function.update s.request i (s.request i) := by rw [Function.update_eq_self, hrequest]
    exact hs.move hfresh hclient hsame hserved (Handling.step_sound (hs.sound i) hc) ((hs.answers i).congr hresponse)
      hphase henabled.1 fun j => hjobs j nofun
  | closesocket i =>
    obtain ⟨fd, hfd, hu⟩ := Option.bind_eq_some_iff.mp hu
    obtain ⟨c, hc, rfl⟩ := Option.map_eq_some_iff.mp hu
    obtain ⟨hresponse, hphase⟩ := closesocket_response hc
    refine hs.close hfresh hclient hrequest hserved (Handling.step_sound (hs.sound i) hc)
      ((hs.answers i).congr hresponse) hphase fun j hne => hjobs j ?_
    rintro ⟨⟩
    exact hne rfl
  | loop | notifyOne | worker | spuriousWakeup | put | tick =>
    cases hu
    refine ⟨hfresh, ?_, ?_, ?_, fun j hjob => ?_, hserved ▸ hs.served⟩
    · rw [hclient]
      exact hs.sound
    · rw [hclient, hrequest]
      exact hs.answers
    · rw [hclient]
      exact hs.unfinished
    · rw [hclient]
      exact hs.idle j (hjobs j nofun hjob)

theorem run_serving (h : run (step json) (.init l) as = some s) : Serving json s :=
  run_inv (fun _ _ _ => step_serving) (init_serving l) h

/-! ## Every socket once -/

/-- The sockets accepted along a list of labels. -/
def accepted (as : List Label) : List Nat :=
  as.filterMap fun
    | .loop (.accept clientFd) => clientFd
    | _ => none

theorem accepted_append (as bs : List Label) : accepted (as ++ bs) = accepted as ++ accepted bs :=
  List.filterMap_append

/-- An accepted socket is open or closed, and nowhere twice. -/
def Conserved (as : List Label) (s : Service) : Prop :=
  (accepted as : Multiset Nat) = ↑s.loop.clients + ↑(s.served.map Prod.fst)

/-- A step of the loop itself opens the socket that it accepts. -/
theorem scan_clients {loop loop' : EventLoop} {b : EventLoop.Label} (hb : Scans b) (h : loop.step b = some loop') :
    loop'.clients = loop.clients ++ accepted [.loop b] := by
  cases EventLoop.step_inv h with
  | select | selectFailed | acceptFailed | enqueue | skip | cleanup => exact (List.append_nil _).symm
  | accept => rfl
  | closesocket => exact hb.elim

theorem step_conserved (hbook : Bookkept s.loop) (hs : Conserved as s) (h : s.step json a = some t) :
    Conserved (as ++ [a]) t := by
  obtain ⟨henabled, hloop, -, -, u, hu, -, -, hserved⟩ := step_inv h
  unfold Conserved at hs ⊢
  rw [accepted_append, ← Multiset.coe_add, hs]
  cases a with
  | loop b =>
    cases hu
    rw [hserved, scan_clients henabled.2 hloop, ← Multiset.coe_add]
    exact add_right_comm _ _ _
  | closesocket i =>
    obtain ⟨fd, hfd, hu⟩ := Option.bind_eq_some_iff.mp hu
    obtain ⟨c, -, rfl⟩ := Option.map_eq_some_iff.mp hu
    rw [loopLabel, hfd] at hloop
    generalize t.loop = loop at hloop
    cases EventLoop.step_inv (a := .closesocket fd) hloop with
    | closesocket _ hjob =>
      have herase : (↑(s.loop.clients.erase fd) : Multiset Nat) + {fd} = ↑s.loop.clients := by
        rw [add_comm, Multiset.singleton_add, Multiset.cons_coe]
        exact Multiset.coe_eq_coe.mpr (List.perm_cons_erase (hbook.taken fd hjob)).symm
      have hnone : (↑(accepted [.closesocket i]) : Multiset Nat) = 0 := rfl
      have hclosed : (↑(List.map Prod.fst [(fd, s.request i, c)]) : Multiset Nat) = {fd} := rfl
      rw [hserved, List.map_append, ← Multiset.coe_add, ← herase, hnone, hclosed, add_zero, add_right_comm, add_assoc]
  | recv | send =>
    obtain ⟨c, -, rfl⟩ := Option.map_eq_some_iff.mp hu
    rw [hserved, ← Option.some.inj hloop]
    exact add_zero _
  | notifyOne | worker | spuriousWakeup | put | tick =>
    cases hu
    rw [hserved, ← Option.some.inj hloop]
    exact add_zero _

theorem run_conserved (h : run (step json) (.init l) as = some s) : Conserved as s := by
  have hinit : Conserved [] (.init l) := rfl
  have hboth : Bookkept s.loop ∧ Conserved as s := by
    refine run_hist (I := fun as (s : Service) => Bookkept s.loop ∧ Conserved as s) ⟨init_bookkept l, hinit⟩ ?_ h
    rintro as s a t ⟨hbook, hs⟩ hstep
    have hrun : run (step json) s [a] = some t := run_cons.mpr ⟨t, hstep, rfl⟩
    exact ⟨loop_partOf.inv (fun _ _ _ hI hb => step_bookkept hI hb) hbook hrun, step_conserved hbook hs hstep⟩
  exact hboth.2

/-- **What the clients of the service get.** In every reachable state every accepted socket is open, or was closed once;
what is on a socket is a part of the answer of a server without a cache to the request received on it, from its
beginning; a socket that was closed has the whole of it exactly when no `send` failed. -/
theorem service_answers (h : run (step json) (.init l) as = some s) :
    (accepted as).Perm (s.loop.clients ++ s.served.map Prod.fst) ∧
    (∀ i, (s.client i).accepted <+: answer json (s.request i)) ∧
    ∀ fd raw c, (fd, raw, c) ∈ s.served → c.closes = 1 ∧ c.accepted <+: answer json raw ∧
      (c.accepted = answer json raw ↔ ∀ r ∈ c.results, 0 < r) := by
  have hs := run_serving h
  have hpart : ∀ {raw c}, Handling.Sound c → Answers json raw c → c.accepted <+: answer json raw := by
    intro raw c hc hanswers
    rw [hc.accepted, ← hanswers]
    exact List.take_prefix _ _
  refine ⟨?_, fun i => hpart (hs.sound i) (hs.answers i), fun fd raw c hmem => ?_⟩
  · exact Multiset.coe_eq_coe.mp (run_conserved h)
  · obtain ⟨hc, hanswers, hphase⟩ := hs.served fd raw c hmem
    refine ⟨?_, hpart hc hanswers, ?_⟩
    · rw [hc.closes, if_pos hphase]
    · rw [← hanswers]
      exact hc.whole_iff (hc.ended (.inr hphase))

/-- What `recv` does to the service. -/
theorem recv_step {received : Int} {buffer : Bytes} {server : Server (Fin workers)} (hjob : s.job i ≠ none)
    (hc : (s.client i).step (s.respond json) (.recv received buffer) = some c)
    (hserver : stepMaybe (Server.step json) s.server (s.serverLabel (.recv i received buffer)) = some server) :
    s.step json (.recv i received buffer) = some
      { s with
        server
        client := Function.update s.client i c
        request := Function.update s.request i (buffer.take received.toNat) } := by
  have henabled : s.Enabled (.recv i received buffer) := hjob
  rw [step, if_pos henabled, clientStep, hc, hserver]
  rfl

/-- A request, and what is behind it in the buffer. -/
def getBuffer : Bytes := ascii "GET /a" ++ List.replicate (recvSize - 6) 0

theorem length_getBuffer : getBuffer.length = recvSize := by
  rw [getBuffer, List.length_append, List.length_replicate]
  rfl

/-- The service with the client in the hands of a worker. -/
def clientTaken : Service := (run (step fun _ => none) (.init 0) oneClient).getD (.init 0)

/-- The client is answered by two `send`s, of which the second fails. -/
theorem oneClient_answered : ∃ s, run (step fun _ => none) (.init 0) (oneClient ++ [.recv oneWorker 6 getBuffer,
      .put oneWorker, .send oneWorker 4, .send oneWorker 0, .closesocket oneWorker]) = some s ∧
    ∃ c, s.served = [(1, ascii "GET /a", c)] ∧ c.closes = 1 ∧ c.accepted <+: answer (fun _ => none) (ascii "GET /a") ∧
      c.accepted ≠ answer (fun _ => none) (ascii "GET /a") := by
  have hrun : run (step fun _ => none) (.init 0) oneClient = some clientTaken := rfl
  have hphase : (clientTaken.client oneWorker).phase = .receiving := rfl
  have hjob : clientTaken.job oneWorker ≠ none := by decide
  have hrecv : (clientTaken.client oneWorker).step (clientTaken.respond fun _ => none) (.recv 6 getBuffer) = some _ :=
    Handling.recv_response hphase length_getBuffer (by decide) (by decide)
  have hstep : clientTaken.step (fun _ => none) (.recv oneWorker 6 getBuffer) = some _ := recv_step hjob hrecv rfl
  have hall := run_append.mpr ⟨_, hrun, run_cons.mpr ⟨_, hstep, show run _ _ [.put oneWorker, .send oneWorker 4,
    .send oneWorker 0, .closesocket oneWorker] = some _ from rfl⟩⟩
  obtain ⟨-, -, hserved⟩ := service_answers hall
  obtain ⟨hcloses, hpart, hwhole⟩ := hserved 1 (ascii "GET /a") _ List.mem_cons_self
  exact ⟨_, hall, _, rfl, hcloses, hpart, fun h => absurd (hwhole.mp h 0 (by decide)) (by decide)⟩

end Service

end Http

end HighLoad
