import HighLoad.Messenger.Members

/-!
# Every line to every other client, once

What was read of a socket is the lines broadcast for it, in order and each ended by its newline, and what the buffer
still holds (`ReadInv`); a handler is pending exactly while the buffer holds a newline. Each handler broadcasts one
line and calls `write` once for every other connection of the set, with the same message, whose only newline is its
last byte (`broadcast_exactly_once`).
-/

namespace HighLoad.Messenger

open ByteString Lines Transition

variable {s s' : Server} {a : Label} {as : List Label} {c d : Nat} {order : List Nat}

/-- The lines broadcast on behalf of connection `c`, in order. -/
def Server.linesOf (s : Server) (c : Nat) : List Bytes := (s.broadcasts.filter (·.1 = c)).map (·.2)

structure ReadInv (s : Server) : Prop where
  stream : ∀ c, s.received c = (s.linesOf c).flatMap (· ++ [newline]) ++ (s.conn c).buffer
  whole : ∀ b ∈ s.broadcasts, newline ∉ b.2
  ready : ∀ c, (s.conn c).reading = .ready ↔ newline ∈ (s.conn c).buffer
  username : ∀ c, newline ∉ (s.conn c).username

theorem init_readInv : ReadInv .init where
  stream c := rfl
  whole b h := by cases h
  ready c := by simp [Server.init, Connection.make]
  username c := by simp only [Server.init, Connection.make]; decide

theorem linesOf_append (bs : List (Nat × Bytes)) (line : Bytes) (c d : Nat) :
    ((bs ++ [(c, line)]).filter (·.1 = d)).map (·.2) =
      (bs.filter (·.1 = d)).map (·.2) ++ if c = d then [line] else [] := by
  by_cases h : c = d <;> simp [h]

/-- A completed read is pending exactly when the buffer has a newline. -/
theorem readRequest_ready (conn : Connection) : conn.readRequest.reading = .ready ↔ newline ∈ conn.buffer := by
  simp only [Connection.readRequest]
  split <;> simp_all

/-- Replacing a connection by one with the same buffer, login and readiness. -/
theorem setConn_readInv (hI : ReadInv s) {conn : Connection} (hb : conn.buffer = (s.conn c).buffer)
    (hu : conn.username = (s.conn c).username) (hr : conn.reading = .ready ↔ (s.conn c).reading = .ready) :
    ReadInv (s.setConn c conn) := by
  have hconn : ∀ d, ((s.setConn c conn).conn d).buffer = (s.conn d).buffer ∧
      ((s.setConn c conn).conn d).username = (s.conn d).username ∧
      (((s.setConn c conn).conn d).reading = .ready ↔ (s.conn d).reading = .ready) := by
    intro d
    by_cases hd : d = c
    · subst hd
      simpa using ⟨hb, hu, hr⟩
    · simp [hd]
  refine ⟨fun d => ?_, hI.whole, fun d => ?_, fun d => ?_⟩
  · rw [(hconn d).1]; exact hI.stream d
  · rw [(hconn d).1, (hconn d).2.2]; exact hI.ready d
  · rw [(hconn d).2.1]; exact hI.username d

theorem step_readInv (hI : ReadInv s) (hM : Members s) (h : s.step a = some s') : ReadInv s' := by
  cases step_inv h with
  | acceptError => exact hI
  | accept =>
    -- The new connection has the buffer and the login of the others that are not accepted yet.
    have hconn : ∀ d, (s.accept.conn d).buffer = (s.conn d).buffer ∧
        (s.accept.conn d).username = (s.conn d).username ∧
        ((s.accept.conn d).reading = .ready ↔ (s.conn d).reading = .ready) := by
      intro d
      by_cases hd : d = s.accepted
      · subst hd
        rw [Server.accept_self, hM.fresh s.accepted (Nat.le_refl _)]
        exact ⟨rfl, rfl, Iff.rfl⟩
      · rw [Server.accept_of_ne hd]
        exact ⟨rfl, rfl, Iff.rfl⟩
    refine ⟨fun d => ?_, hI.whole, fun d => ?_, fun d => ?_⟩
    · rw [(hconn d).1]; exact hI.stream d
    · rw [(hconn d).1, (hconn d).2.2]; exact hI.ready d
    · rw [(hconn d).2.1]; exact hI.username d
  | data c bytes =>
    refine ⟨fun d => ?_, hI.whole, fun d => ?_, fun d => ?_⟩
    · by_cases hd : d = c
      · subst hd
        have hs := hI.stream d
        simp only [Server.linesOf] at hs
        simp [Connection.readRequest, Server.linesOf, hs]
      · simpa [Server.linesOf, hd] using hI.stream d
    · by_cases hd : d = c
      · subst hd
        simp only [Server.setConn_self]
        exact readRequest_ready _
      · simpa [hd] using hI.ready d
    · by_cases hd : d = c
      · subst hd
        simpa [Connection.readRequest] using hI.username d
      · simpa [hd] using hI.username d
  | handleRead c order _ hr =>
    have hs := handleRead_handled s c order
    obtain ⟨writes, hself⟩ := hs.self
    have hmem := (hI.ready c).mp hr
    refine ⟨fun d => ?_, fun b hb => ?_, fun d => ?_, fun d => ?_⟩
    · rw [hs.received, Server.linesOf, hs.broadcasts, linesOf_append, hI.stream d, Server.linesOf]
      by_cases hd : d = c
      · subst hd
        rw [hself, if_pos rfl, List.flatMap_append]
        simpa [Connection.readRequest] using takeLine_eq hmem
      · obtain ⟨w, hw⟩ := hs.conn d hd
        rw [hw, if_neg (Ne.symm hd), List.append_nil]
    · rw [hs.broadcasts] at hb
      rcases List.mem_append.mp hb with hb | hb
      · exact hI.whole b hb
      · rw [List.mem_singleton.mp hb]
        exact takeLine_notMem _
    · by_cases hd : d = c
      · subst hd
        rw [hself]
        exact readRequest_ready _
      · obtain ⟨w, hw⟩ := hs.conn d hd
        rw [hw]
        exact hI.ready d
    · by_cases hd : d = c
      · subst hd
        rw [hself]
        exact hI.username d
      · obtain ⟨w, hw⟩ := hs.conn d hd
        rw [hw]
        exact hI.username d
  | readError c _ hr => exact setConn_readInv hI rfl rfl (by simp [hr])
  | writeSome c op count bytes writes =>
    have hw : ReadInv (s.setConn c { s.conn c with writes }) := setConn_readInv hI rfl rfl Iff.rfl
    exact ⟨hw.stream, hw.whole, hw.ready, hw.username⟩
  | writeError c op => exact setConn_readInv hI rfl rfl Iff.rfl

theorem run_readInv (h : run Server.step .init as = some s) : ReadInv s := by
  have hboth : ReadInv s ∧ Members s := by
    refine run_inv (I := fun s => ReadInv s ∧ Members s) ?_ ⟨init_readInv, init_members⟩ h
    rintro s a t ⟨hI, hM⟩ hs
    exact ⟨step_readInv hI hM hs, step_members hM hs⟩
  exact hboth.1

/-- Reading, waiting for room to write and errors broadcast nothing. -/
theorem step_quiet (h : s.step a = some s') (ha : ∀ c order, a ≠ .handleRead c order) :
    s'.broadcasts = s.broadcasts ∧ s'.written = s.written := by
  cases step_inv h with
  | handleRead c order => exact absurd rfl (ha c order)
  | accept | acceptError | data | readError | writeSome | writeError => exact ⟨rfl, rfl⟩

/-- The only newline of a message is its last byte. -/
theorem message_newline (hI : ReadInv s) (c : Nat) {line : Bytes} (hl : newline ∉ line) :
    (s.message c line).count newline = 1 ∧ (s.message c line).getLast? = some newline := by
  have hfrom : newline ∉ ascii "from " := by decide
  have hcolon : newline ∉ ascii ": " := by decide
  constructor
  · simp [Server.message, List.count_eq_zero_of_not_mem, hfrom, hcolon, hl, hI.username c]
  · simp [Server.message]

/-- **Every line is broadcast once, to every other client, once.** In every reachable state, the lines of what was read
of a socket are those broadcast for it, in order, and those still in its buffer, of which there are none unless a
handler is pending. The handler broadcasts one line: it calls `write` once for every connection in `connects` but the
sender, with a message whose only newline is its last byte. No other step broadcasts or calls `write`. -/
theorem broadcast_exactly_once (h : run Server.step .init as = some s) :
    (∀ c, lines newline (s.received c) = s.linesOf c ++ lines newline (s.conn c).buffer) ∧
    (∀ c, (s.conn c).reading ≠ .ready → s.linesOf c = lines newline (s.received c)) ∧
    (∀ c order s', s.step (.handleRead c order) = some s' → ∃ (line : Bytes) (clients : List Nat),
      s'.broadcasts = s.broadcasts ++ [(c, line)] ∧
      s'.written = s.written ++ clients.map (fun d => (d, s.message c line)) ∧
      clients.Nodup ∧ (∀ d, d ∈ clients ↔ d ∈ s.connects ∧ d ≠ c) ∧
      (s.message c line).count newline = 1 ∧ (s.message c line).getLast? = some newline) ∧
    (∀ a s', s.step a = some s' → (∀ c order, a ≠ .handleRead c order) →
      s'.broadcasts = s.broadcasts ∧ s'.written = s.written) := by
  have hI := run_readInv h
  have hM := run_members h
  have hlines : ∀ c, lines newline (s.received c) = s.linesOf c ++ lines newline (s.conn c).buffer := by
    intro c
    rw [hI.stream c]
    refine lines_append (fun l hl => ?_) _
    obtain ⟨b, hb, rfl⟩ := List.mem_map.mp hl
    exact hI.whole b (List.mem_filter.mp hb).1
  refine ⟨hlines, fun c hc => ?_, fun c order s' hs => ?_, fun a s' hs ha => step_quiet hs ha⟩
  · rw [hlines, lines_of_notMem (fun hm => hc ((hI.ready c).mpr hm)), List.append_nil]
  · cases step_inv hs with
    | handleRead _ _ _ _ ho =>
      have hH := handleRead_handled s c order
      refine ⟨_, _, hH.broadcasts, hH.written, ?_, fun d => ?_, message_newline hI c (takeLine_notMem _)⟩
      · exact (ho.nodup_iff.mpr hM.nodup).filter _
      · rw [List.mem_filter, ho.mem_iff, decide_eq_true_eq]

/-- A line over two reads, the second of which also holds a whole line and a tail. -/
def splitLines : List Label :=
  [.accept, .accept, .data 0 (ascii "he"), .data 0 (ascii "y\nyou\nth"), .handleRead 0 [1, 0], .handleRead 0 [0, 1]]

theorem splitLines_broadcast : ∃ s, run Server.step .init splitLines = some s ∧
    s.linesOf 0 = lines newline (s.received 0) ∧ s.linesOf 0 = [ascii "hey", ascii "you"] := by
  have hrun : run Server.step .init splitLines = some _ := rfl
  exact ⟨_, hrun, (broadcast_exactly_once hrun).2.1 0 (by decide), by decide⟩

end HighLoad.Messenger
