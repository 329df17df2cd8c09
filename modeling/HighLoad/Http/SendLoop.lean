import HighLoad.Http.Client

/-!
# The calls of `Server::handle_client`

A step of `Handling` is a socket call that `handle_client` makes, with what it returns: the one `recv`, the `send`s of
the loop, each of which takes at most the bytes that it is offered, and `closesocket`. `respond` is `handle_request`.

Each `send` goes on where the last one stopped (`Sound`), so the socket holds a part of the response from its beginning,
the whole of it unless a `send` took nothing; a `send` that took nothing ends the loop, and every path closes the socket
once (`handleClient_delivers`). The bytes are those of `sendLoop` (`handleClient_run`).
-/

namespace HighLoad.Http

open ByteString Transition

/-- What `handle_client` does next. -/
inductive Phase where
  /-- `recv`. -/
  | receiving
  /-- Test `total_sent < length`. -/
  | sending
  /-- `closesocket`, after a failed `recv` or a `break`. -/
  | closing
  | returned
  deriving DecidableEq

structure Handling where
  phase : Phase
  response : Bytes
  totalSent : Nat
  /-- The bytes that the socket has accepted. -/
  accepted : Bytes
  /-- What the `send`s have returned. -/
  results : List Int
  /-- How often the socket was closed. -/
  closes : Nat

namespace Handling

inductive Label where
  /-- `recv` returns `received` and has written to `buffer`. -/
  | recv (received : Int) (buffer : Bytes)
  | send (sent : Int)
  | closesocket

def init : Handling := ⟨.receiving, [], 0, [], [], 0⟩

def closesocket (s : Handling) : Handling := { s with phase := .returned, closes := s.closes + 1 }

def step (respond : Bytes → Bytes) (s : Handling) : Label → Option Handling
  | .recv received buffer =>
    if s.phase = .receiving ∧ buffer.length = recvSize ∧ received ≤ recvSize then
      if received ≤ 0 then some { s with phase := .closing }
      else some { s with phase := .sending, response := respond (buffer.take received.toNat) }
    else none
  | .send sent =>
    let offered := s.response.drop s.totalSent
    if s.phase = .sending ∧ s.totalSent < s.response.length ∧ sent ≤ offered.length then
      if sent ≤ 0 then some { s with phase := .closing, results := s.results ++ [sent] }
      else some
        { s with
          totalSent := s.totalSent + sent.toNat
          accepted := s.accepted ++ offered.take sent.toNat
          results := s.results ++ [sent] }
    else none
  | .closesocket =>
    match s.phase with
    | .sending => if s.totalSent < s.response.length then none else some s.closesocket
    | .closing => some s.closesocket
    | _ => none

variable {respond : Bytes → Bytes} {s t : Handling} {l : Label}

/-- What a step can do. -/
theorem step_cases (h : s.step respond l = some t) :
    (s.phase = .receiving ∧ (t = { s with phase := .closing } ∨
      ∃ response, t = { s with phase := .sending, response })) ∨
    (∃ sent : Int, s.phase = .sending ∧ s.totalSent < s.response.length ∧ sent ≤ 0 ∧
      t = { s with phase := .closing, results := s.results ++ [sent] }) ∨
    (∃ k : Nat, s.phase = .sending ∧ 0 < k ∧ s.totalSent + k ≤ s.response.length ∧ t =
      { s with
        totalSent := s.totalSent + k
        accepted := s.accepted ++ (s.response.drop s.totalSent).take k
        results := s.results ++ [(k : Int)] }) ∨
    ((s.phase = .sending ∧ s.response.length ≤ s.totalSent ∨ s.phase = .closing) ∧ t = s.closesocket) := by
  cases l with
  | recv received buffer =>
    simp only [step, Option.ite_none_right_eq_some] at h
    obtain ⟨⟨hphase, -⟩, h⟩ := h
    split at h
    · cases h
      exact .inl ⟨hphase, .inl rfl⟩
    · cases h
      exact .inl ⟨hphase, .inr ⟨_, rfl⟩⟩
  | send sent =>
    simp only [step, Option.ite_none_right_eq_some, List.length_drop] at h
    obtain ⟨⟨hphase, hlt, hle⟩, h⟩ := h
    split at h
    case isTrue hfail =>
      cases h
      exact .inr (.inl ⟨sent, hphase, hlt, hfail, rfl⟩)
    case isFalse hpos =>
      cases h
      have hcast : ((sent.toNat : Nat) : Int) = sent := Int.toNat_of_nonneg (by omega)
      refine .inr (.inr (.inl ⟨sent.toNat, hphase, by omega, by omega, ?_⟩))
      rw [hcast]
  | closesocket =>
    simp only [step] at h
    split at h
    case h_1 hphase =>
      rw [Option.ite_none_left_eq_some] at h
      obtain ⟨hge, h⟩ := h
      cases h
      exact .inr (.inr (.inr ⟨.inl ⟨hphase, Nat.not_lt.mp hge⟩, rfl⟩))
    case h_2 hphase =>
      cases h
      exact .inr (.inr (.inr ⟨.inr hphase, rfl⟩))
    case h_3 => cases h

/-! ## The invariant -/

/-- Every `send` so far took at least a byte. -/
def Going (s : Handling) : Prop := s.results.length ≤ s.totalSent ∧ ∀ r ∈ s.results, 0 < r

/-- The last `send` took nothing, before the end of the response. -/
def Broken (s : Handling) : Prop :=
  s.results.length ≤ s.totalSent + 1 ∧ s.totalSent < s.response.length ∧ ∃ r ∈ s.results, r ≤ 0

/-- The loop is over. -/
def Ended (s : Handling) : Prop := Going s ∧ s.totalSent = s.response.length ∨ Broken s

structure Sound (s : Handling) : Prop where
  accepted : s.accepted = s.response.take s.totalSent
  totalSent : s.totalSent ≤ s.response.length
  receiving : s.phase = .receiving → s.response = [] ∧ s.results = []
  sending : s.phase = .sending → Going s
  ended : s.phase = .closing ∨ s.phase = .returned → Ended s
  closes : s.closes = if s.phase = .returned then 1 else 0

theorem init_sound : Sound init := by
  refine ⟨rfl, le_rfl, fun _ => ⟨rfl, rfl⟩, fun h => ?_, fun h => ?_, rfl⟩
  · cases h
  · rcases h with h | h
    · cases h
    · cases h

theorem step_sound (hs : Sound s) (h : s.step respond l = some t) : Sound t := by
  have hcloses := hs.closes
  rcases step_cases h with ⟨hphase, ht⟩ | ⟨sent, hphase, hlt, hfail, rfl⟩ | ⟨k, hphase, hk, hle, rfl⟩ |
    ⟨hphase, rfl⟩
  · -- nothing is sent before `recv` returns
    obtain ⟨hresponse, hresults⟩ := hs.receiving hphase
    have haccepted := hs.accepted
    have htotal := hs.totalSent
    rw [hresponse, List.take_nil] at haccepted
    rw [hresponse, List.length_nil, Nat.le_zero] at htotal
    have hgoing : s.results.length ≤ s.totalSent ∧ ∀ r ∈ s.results, 0 < r := by simp [hresults]
    rw [hphase, if_neg (by decide)] at hcloses
    rcases ht with rfl | ⟨response, rfl⟩
    · refine ⟨hs.accepted, hs.totalSent, fun h => ?_, fun h => ?_, fun _ => .inl ⟨hgoing, ?_⟩, hcloses⟩
      · cases h
      · cases h
      · rw [htotal, hresponse, List.length_nil]
    · refine ⟨?_, ?_, fun h => ?_, fun _ => hgoing, fun h => ?_, hcloses⟩
      · show s.accepted = response.take s.totalSent
        rw [haccepted, htotal, List.take_zero]
      · show s.totalSent ≤ response.length
        omega
      · cases h
      · rcases h with h | h
        · cases h
        · cases h
  · obtain ⟨hcount, -⟩ := hs.sending hphase
    rw [hphase, if_neg (by decide)] at hcloses
    refine ⟨hs.accepted, hs.totalSent, fun h => ?_, fun h => ?_, fun _ => .inr ⟨?_, hlt, sent, ?_, hfail⟩, hcloses⟩
    · cases h
    · cases h
    · rw [List.length_append, List.length_singleton]
      exact Nat.succ_le_succ hcount
    · exact List.mem_append_right _ List.mem_cons_self
  · obtain ⟨hcount, hpos⟩ := hs.sending hphase
    refine ⟨?_, hle, fun h => ?_, fun _ => ⟨?_, fun r hr => ?_⟩, fun h => ?_, hcloses⟩
    · show s.accepted ++ (s.response.drop s.totalSent).take k = s.response.take (s.totalSent + k)
      rw [hs.accepted, List.take_add]
    · exact absurd (hphase.symm.trans h) (by decide)
    · rw [List.length_append, List.length_singleton]
      show s.results.length + 1 ≤ s.totalSent + k
      omega
    · rcases List.mem_append.mp hr with hr | hr
      · exact hpos r hr
      · rw [List.mem_singleton.mp hr]
        omega
    · rcases h with h | h
      · exact absurd (hphase.symm.trans h) (by decide)
      · exact absurd (hphase.symm.trans h) (by decide)
  · have hended : Ended s := by
      rcases hphase with ⟨hphase, hge⟩ | hphase
      · exact .inl ⟨hs.sending hphase, Nat.le_antisymm hs.totalSent hge⟩
      · exact hs.ended (.inl hphase)
    have hopen : s.phase ≠ .returned := by
      rcases hphase with ⟨hphase, -⟩ | hphase
      · rw [hphase]
        decide
      · rw [hphase]
        decide
    rw [if_neg hopen] at hcloses
    refine ⟨hs.accepted, hs.totalSent, fun h => ?_, fun h => ?_, fun _ => hended, ?_⟩
    · cases h
    · cases h
    · show s.closes + 1 = 1
      rw [hcloses]

theorem run_sound {labels : List Label} (h : run (step respond) init labels = some s) : Sound s :=
  run_inv (fun _ _ _ => step_sound) init_sound h

/-! ## What every path does -/

/-- There are no more calls than bytes. -/
theorem Sound.results_le (hs : Sound s) : s.results.length ≤ s.response.length := by
  have htotal := hs.totalSent
  have hended : Ended s → s.results.length ≤ s.response.length := by
    rintro (⟨⟨hcount, -⟩, -⟩ | ⟨hcount, hlt, -⟩)
    · exact Nat.le_trans hcount htotal
    · exact Nat.le_trans hcount hlt
  cases hphase : s.phase with
  | receiving =>
    rw [(hs.receiving hphase).2]
    exact Nat.zero_le _
  | sending => exact Nat.le_trans (hs.sending hphase).1 htotal
  | closing => exact hended (hs.ended (.inl hphase))
  | returned => exact hended (hs.ended (.inr hphase))

/-- After the loop the response is there, or a `send` took nothing. -/
theorem Sound.whole_iff (hs : Sound s) (hended : Ended s) : s.accepted = s.response ↔ ∀ r ∈ s.results, 0 < r := by
  rcases hended with ⟨⟨-, hpos⟩, htotal⟩ | ⟨-, hlt, r, hr, hfail⟩
  · refine iff_of_true ?_ hpos
    rw [hs.accepted, htotal, List.take_length]
  · refine iff_of_false (fun h => ?_) fun h => absurd (h r hr) (by omega)
    have hlen := congrArg List.length (hs.accepted.symm.trans h)
    rw [List.length_take] at hlen
    omega

/-- The calls made so far: `recv`, the `send`s and `closesocket`. -/
theorem run_count {labels : List Label} (h : run (step respond) init labels = some s) :
    labels.length = (if s.phase = .receiving then 0 else 1) + s.results.length + s.closes := by
  refine run_hist (I := fun labels s =>
    labels.length = (if s.phase = .receiving then 0 else 1) + s.results.length + s.closes) rfl ?_ h
  intro labels s l t hs h
  rw [List.length_append, List.length_singleton, hs]
  rcases step_cases h with ⟨hphase, rfl | ⟨response, rfl⟩⟩ | ⟨sent, hphase, -, -, rfl⟩ | ⟨k, hphase, -, -, rfl⟩ |
    ⟨hphase, rfl⟩
  · simp +arith [hphase]
  · simp +arith [hphase]
  · simp +arith [hphase]
  · simp +arith [hphase]
  · have hne : s.phase ≠ .receiving := by
      rcases hphase with ⟨hphase, -⟩ | hphase
      · simp [hphase]
      · simp [hphase]
    simp +arith [closesocket, hne]

/-- What `recv` has read is answered. -/
theorem recv_response {received : Int} {buffer : Bytes} (hphase : s.phase = .receiving)
    (hbuffer : buffer.length = recvSize) (hpos : 0 < received) (hle : received ≤ recvSize) :
    s.step respond (.recv received buffer) =
      some { s with phase := .sending, response := respond (buffer.take received.toNat) } :=
  (if_pos ⟨hphase, hbuffer, hle⟩).trans (if_neg (by omega))

/-- The loop takes any result that `send` may return. -/
theorem send_isSome (hphase : s.phase = .sending) (hlt : s.totalSent < s.response.length) {sent : Int}
    (hsent : sent ≤ s.response.length - s.totalSent) : (s.step respond (.send sent)).isSome := by
  have hguard : s.phase = .sending ∧ s.totalSent < s.response.length ∧
      sent ≤ (s.response.drop s.totalSent).length := by
    rw [List.length_drop]
    exact ⟨hphase, hlt, by omega⟩
  simp only [step, if_pos hguard]
  split
  · rfl
  · rfl

/-- A path that has not returned goes on. -/
theorem step_progress (s : Handling) (hopen : s.phase ≠ .returned) : ∃ l t, s.step respond l = some t := by
  cases hphase : s.phase with
  | receiving =>
    have hguard : s.phase = .receiving ∧ (List.replicate recvSize (0 : UInt8)).length = recvSize ∧
        (0 : Int) ≤ recvSize := ⟨hphase, List.length_replicate, Int.natCast_nonneg _⟩
    refine ⟨.recv 0 (List.replicate recvSize 0), { s with phase := .closing }, ?_⟩
    exact (if_pos hguard).trans (if_pos (Int.le_refl 0))
  | sending =>
    by_cases hlt : s.totalSent < s.response.length
    · exact ⟨.send 0, Option.isSome_iff_exists.mp (send_isSome hphase hlt (by omega))⟩
    · exact ⟨.closesocket, s.closesocket, by simp only [step, hphase, if_neg hlt]⟩
  | closing => exact ⟨.closesocket, s.closesocket, by simp only [step, hphase]⟩
  | returned => exact absurd hphase hopen

/-- **The response is sent from its beginning, nothing skipped and nothing twice, and the socket is closed once**, on
every path and whatever `send` returns. -/
theorem handleClient_delivers {labels : List Label} (h : run (step respond) init labels = some s) :
    (s.results.length ≤ s.response.length ∧ labels.length ≤ s.response.length + 2) ∧
    (s.accepted = s.response.take s.totalSent ∧ s.accepted <+: s.response) ∧
    (s.phase = .closing ∨ s.phase = .returned → (s.accepted = s.response ↔ ∀ r ∈ s.results, 0 < r)) ∧
    (s.closes = if s.phase = .returned then 1 else 0) ∧
    (s.phase ≠ .returned → ∃ l t, s.step respond l = some t) := by
  have hs := run_sound h
  have hcount := run_count h
  have hresults := hs.results_le
  have hcloses := hs.closes
  refine ⟨⟨hresults, ?_⟩, ⟨hs.accepted, ?_⟩, fun hphase => hs.whole_iff (hs.ended hphase), hcloses, step_progress s⟩
  · split at hcount
    · split at hcloses
      · omega
      · omega
    · split at hcloses
      · omega
      · omega
  · rw [hs.accepted]
    exact List.take_prefix _ _

/-- Two writes for a response of three bytes. -/
theorem twoWrites_delivered : ∃ s, run (step fun _ => ascii "200") init
      [.recv 1 (List.replicate recvSize 0), .send 1, .send 2, .closesocket] = some s ∧
    s.accepted = ascii "200" ∧ s.closes = 1 := by
  have hrecv : init.step (fun _ => ascii "200") (.recv 1 (List.replicate recvSize 0)) =
      some { init with phase := .sending, response := ascii "200" } :=
    recv_response rfl List.length_replicate (by decide) (by decide)
  have h := run_cons.mpr ⟨_, hrecv, show run _ _ [.send 1, .send 2, .closesocket] = some _ from rfl⟩
  obtain ⟨-, -, hwhole, hcloses, -⟩ := handleClient_delivers h
  exact ⟨_, h, (hwhole (.inr rfl)).mpr (by decide), hcloses⟩

/-! ## The bytes sent -/

/-- The calls of the loop when `send` answers by the number of bytes offered. -/
theorem sendLoop_run {send : Nat → Int} (hsend : ∀ n, send n ≤ n) : ∀ {fuel : Nat} {s : Handling},
    s.phase = .sending → s.response.length - s.totalSent ≤ fuel →
    ∃ labels t, run (step respond) s labels = some t ∧ t.phase = .returned ∧
      t.accepted = s.accepted ++ sendLoop send fuel (s.response.drop s.totalSent)
  | 0, s, hphase, hfuel => by
    have hclose : s.step respond .closesocket = some s.closesocket := by
      simp only [step, hphase]
      exact if_neg (by omega)
    exact ⟨[.closesocket], _, run_cons.mpr ⟨_, hclose, rfl⟩, rfl, (List.append_nil _).symm⟩
  | fuel + 1, s, hphase, hfuel => by
    by_cases hlt : s.totalSent < s.response.length
    · have hne : s.response.drop s.totalSent ≠ [] := by
        rw [ne_eq, List.drop_eq_nil_iff]
        omega
      have hguard : s.phase = .sending ∧ s.totalSent < s.response.length ∧
          send (s.response.drop s.totalSent).length ≤ (s.response.drop s.totalSent).length := ⟨hphase, hlt, hsend _⟩
      unfold sendLoop
      rw [if_neg hne]
      generalize hsent : send (s.response.drop s.totalSent).length = sent at hguard
      split
      case isTrue hfail =>
        have hstep : s.step respond (.send sent) =
            some { s with phase := .closing, results := s.results ++ [sent] } :=
          (if_pos hguard).trans (if_pos hfail)
        exact ⟨[.send sent, .closesocket], _, run_cons.mpr ⟨_, hstep, rfl⟩, rfl, (List.append_nil _).symm⟩
      case isFalse hpos =>
        have hstep : s.step respond (.send sent) = some
            { s with
              totalSent := s.totalSent + sent.toNat
              accepted := s.accepted ++ (s.response.drop s.totalSent).take sent.toNat
              results := s.results ++ [sent] } := (if_pos hguard).trans (if_neg hpos)
        have hrest : s.response.length - (s.totalSent + sent.toNat) ≤ fuel := by omega
        obtain ⟨labels, t, hrun, hreturned, haccepted⟩ := sendLoop_run hsend
          (s := { s with
              totalSent := s.totalSent + sent.toNat
              accepted := s.accepted ++ (s.response.drop s.totalSent).take sent.toNat
              results := s.results ++ [sent] }) hphase hrest
        refine ⟨.send sent :: labels, t, run_cons.mpr ⟨_, hstep, hrun⟩, hreturned, haccepted.trans ?_⟩
        rw [List.append_assoc, List.drop_drop]
    · have hclose : s.step respond .closesocket = some s.closesocket := by
        simp only [step, hphase]
        exact if_neg hlt
      have hnil : s.response.drop s.totalSent = [] := List.drop_eq_nil_iff.mpr (Nat.not_lt.mp hlt)
      refine ⟨[.closesocket], _, run_cons.mpr ⟨_, hclose, rfl⟩, rfl, ?_⟩
      rw [hnil, sendLoop, if_pos rfl, List.append_nil]
      rfl

end Handling

/-- The bytes of `handleClient` are those of a path. -/
theorem handleClient_run {ι : Type} {json : Bytes → Option (List (Bytes × Bytes))} {send : Nat → Int}
    (hsend : ∀ n, send n ≤ n) (server : Server ι) {request : Bytes} (hne : request ≠ [])
    (hlen : request.length ≤ recvSize) (chunks : List Bytes) :
    ∃ labels s, run (Handling.step fun raw => (server.handle json raw).1.response) Handling.init labels = some s ∧
      s.phase = .returned ∧ s.accepted = handleClient json send server (request :: chunks) := by
  have hpos := List.length_pos_iff.mpr hne
  have hbuffer : (request ++ List.replicate (recvSize - request.length) 0).length = recvSize := by
    rw [List.length_append, List.length_replicate]
    omega
  have hrecv : Handling.init.step (fun raw => (server.handle json raw).1.response)
      (.recv request.length (request ++ List.replicate (recvSize - request.length) 0)) =
      some { Handling.init with phase := .sending, response := (server.handle json request).1.response } := by
    rw [Handling.recv_response rfl hbuffer (Int.natCast_pos.mpr hpos) (Int.ofNat_le.mpr hlen), Int.toNat_natCast,
      List.take_left]
  obtain ⟨labels, s, hrun, hreturned, haccepted⟩ := Handling.sendLoop_run (s := { Handling.init with
    phase := .sending, response := (server.handle json request).1.response }) hsend rfl (Nat.sub_le _ _)
  exact ⟨_, s, run_cons.mpr ⟨_, hrecv, hrun⟩, hreturned, haccepted⟩

end HighLoad.Http
