import HighLoad.Lib.Bytes
import HighLoad.Lib.Lines
import HighLoad.Lib.Transition

/-!
# The messenger

`Server` and `Connection` of the messenger, on one `io_context` thread: a step is one event, an accept, some bytes read
for an `async_read_until`, the call of its handler, a partial write of an `async_write`, or an error. Connection `c` is
the one accepted after `c` others.

`async_read_until` completes as soon as the buffer holds a newline, at once if it holds one already, and may leave bytes
after it in the buffer. `async_write` is made of partial writes; nothing orders those of two operations on one socket.
The order in which `broadcast` visits the set `connects` is not specified, so it is part of the label.

What a call of `Connection::write` leaves alone is `Frame`; a broadcast is a sequence of such calls (`writeAll_induct`).
-/

namespace HighLoad.Messenger

open ByteString Lines Transition

def newline : UInt8 := 10

/-- The read of a connection. -/
inductive Reading where
  /-- `async_read_until` is pending: the buffer has no newline. -/
  | waiting
  /-- It has completed: its handler is to be called. -/
  | ready
  /-- The handler was called with an error and started no other read. -/
  | ended
  deriving DecidableEq, Repr

structure Connection where
  buffer : Bytes
  username : Bytes
  reading : Reading
  /-- The `async_write` operations under way, the oldest first: what each has still to write, in a copy of its own. The
  source gives them the buffer of a temporary. -/
  writes : List Bytes
  /-- A write has failed, and so will all others. -/
  broken : Bool

structure Server where
  connects : List Nat
  accepted : Nat
  conn : Nat → Connection
  /-- The bytes each client has received. -/
  sent : Nat → Bytes
  /-- History: the bytes read from each socket. No step reads it. -/
  received : Nat → Bytes
  /-- History: the calls of `Server::broadcast`, each with its sender and line. No step reads it. -/
  broadcasts : List (Nat × Bytes)
  /-- History: the calls of `Connection::write`, each with its connection and message. No step reads it. -/
  written : List (Nat × Bytes)

inductive Label where
  | accept
  | acceptError
  /-- Bytes arrive for the pending read of `c`. -/
  | data (c : Nat) (bytes : Bytes)
  /-- The handler of a completed read of `c`; `order` is the order of `connects`. -/
  | handleRead (c : Nat) (order : List Nat)
  /-- The handler of a read of `c` that failed. -/
  | readError (c : Nat)
  /-- `count` bytes of the write number `op` of `c`, the oldest being 0. -/
  | writeSome (c op count : Nat)
  /-- The handler of a write of `c` that failed. -/
  | writeError (c op : Nat)
  deriving DecidableEq, Repr

/-- `new User("Anonimous")` on a fresh socket. -/
def Connection.make : Connection := ⟨[], ascii "Anonimous", .waiting, [], false⟩

/-- `async_read_until(socket, buffer, "\n", ...)`. -/
def Connection.readRequest (conn : Connection) : Connection :=
  { conn with reading := if newline ∈ conn.buffer then .ready else .waiting }

/-- A partial write: the bytes written and the operations left. -/
def partialWrite (writes : List Bytes) (op count : Nat) : Option (Bytes × List Bytes) :=
  match writes[op]? with
  | none => none
  | some rest =>
    if count = 0 ∨ rest.length < count then none
    else some (rest.take count, if rest.length = count then writes.eraseIdx op else writes.set op (rest.drop count))

namespace Server

def init : Server := ⟨[], 0, fun _ => .make, fun _ => [], fun _ => [], [], []⟩

def setConn (s : Server) (c : Nat) (conn : Connection) : Server := { s with conn := Function.update s.conn c conn }

/-- `"from " + login + ": " + msg + '\n'`. -/
def message (s : Server) (sender : Nat) (msg : Bytes) : Bytes :=
  ascii "from " ++ (s.conn sender).username ++ ascii ": " ++ msg ++ [newline]

/-- `Connection::write`. -/
def write (s : Server) (c : Nat) (message : Bytes) : Server :=
  { s.setConn c { s.conn c with writes := (s.conn c).writes ++ [message] } with
    written := s.written ++ [(c, message)] }

/-- The loop of `broadcast`, in the order of the set. -/
def writeAll (msg : Bytes) (sender : Nat) (s : Server) (order : List Nat) : Server :=
  order.foldl (fun s client => if client ≠ sender then s.write client (s.message sender msg) else s) s

def broadcast (s : Server) (msg : Bytes) (sender : Nat) (order : List Nat) : Server :=
  writeAll msg sender { s with broadcasts := s.broadcasts ++ [(sender, msg)] } order

/-- The handler of `read_request` without an error. -/
def handleRead (s : Server) (c : Nat) (order : List Nat) : Server :=
  let (line, rest) := takeLine newline (s.conn c).buffer
  let s := (s.setConn c { s.conn c with buffer := rest }).broadcast line c order
  s.setConn c (s.conn c).readRequest

/-- The handler of `async_accept`: a new connection is inserted and starts to read. -/
def accept (s : Server) : Server :=
  { s with
    connects := s.accepted :: s.connects
    accepted := s.accepted + 1
    conn := Function.update s.conn s.accepted Connection.make.readRequest }

def step (s : Server) : Label → Option Server
  | .accept => some s.accept
  | .acceptError => some s
  | .data c bytes =>
    if c < s.accepted ∧ (s.conn c).reading = .waiting then
      some { s.setConn c { s.conn c with buffer := (s.conn c).buffer ++ bytes }.readRequest with
        received := Function.update s.received c (s.received c ++ bytes) }
    else none
  | .handleRead c order =>
    if c < s.accepted ∧ (s.conn c).reading = .ready ∧ order.Perm s.connects then some (s.handleRead c order) else none
  | .readError c =>
    if c < s.accepted ∧ (s.conn c).reading = .waiting then some (s.setConn c { s.conn c with reading := .ended })
    else none
  | .writeSome c op count =>
    if (s.conn c).broken then none
    else match partialWrite (s.conn c).writes op count with
      | none => none
      | some (bytes, writes) =>
        some { s.setConn c { s.conn c with writes } with sent := Function.update s.sent c (s.sent c ++ bytes) }
  | .writeError c op =>
    if op < (s.conn c).writes.length then
      some (s.setConn c { s.conn c with writes := (s.conn c).writes.eraseIdx op, broken := true })
    else none

end Server

variable {s s' t : Server} {a : Label} {c d : Nat} {msg : Bytes} {order : List Nat} {conn : Connection}

@[simp] theorem Server.setConn_self : (s.setConn c conn).conn c = conn := Function.update_self ..

@[simp] theorem Server.setConn_of_ne (h : d ≠ c) : (s.setConn c conn).conn d = s.conn d := Function.update_of_ne h ..

@[simp] theorem Server.setConn_broadcasts : (s.setConn c conn).broadcasts = s.broadcasts := rfl

@[simp] theorem Server.setConn_sent : (s.setConn c conn).sent = s.sent := rfl

@[simp] theorem Server.accept_self : s.accept.conn s.accepted = Connection.make.readRequest := Function.update_self ..

@[simp] theorem Server.accept_of_ne (h : d ≠ s.accepted) : s.accept.conn d = s.conn d := Function.update_of_ne h ..

/-! ## Steps -/

/-- Everything one step can do, one constructor a branch of `Server.step`. -/
inductive Server.Step (s : Server) : Label → Server → Prop
  | accept : Step s .accept s.accept
  | acceptError : Step s .acceptError s
  | data (c : Nat) (bytes : Bytes) : c < s.accepted → (s.conn c).reading = .waiting →
      Step s (.data c bytes) { s.setConn c { s.conn c with buffer := (s.conn c).buffer ++ bytes }.readRequest with
        received := Function.update s.received c (s.received c ++ bytes) }
  | handleRead (c : Nat) (order : List Nat) : c < s.accepted → (s.conn c).reading = .ready → order.Perm s.connects →
      Step s (.handleRead c order) (s.handleRead c order)
  | readError (c : Nat) : c < s.accepted → (s.conn c).reading = .waiting →
      Step s (.readError c) (s.setConn c { s.conn c with reading := .ended })
  | writeSome (c op count : Nat) (bytes : Bytes) (writes : List Bytes) : (s.conn c).broken = false →
      partialWrite (s.conn c).writes op count = some (bytes, writes) →
      Step s (.writeSome c op count)
        { s.setConn c { s.conn c with writes } with sent := Function.update s.sent c (s.sent c ++ bytes) }
  | writeError (c op : Nat) : op < (s.conn c).writes.length →
      Step s (.writeError c op) (s.setConn c { s.conn c with writes := (s.conn c).writes.eraseIdx op, broken := true })

theorem step_inv (h : s.step a = some s') : s.Step a s' := by
  cases a with
  | accept => obtain rfl := Option.some.inj h; exact .accept
  | acceptError => obtain rfl := Option.some.inj h; exact .acceptError
  | data c bytes =>
    simp only [Server.step, Option.ite_none_right_eq_some, Option.some.injEq] at h
    obtain ⟨⟨hc, hr⟩, rfl⟩ := h
    exact .data c bytes hc hr
  | handleRead c order =>
    simp only [Server.step, Option.ite_none_right_eq_some, Option.some.injEq] at h
    obtain ⟨⟨hc, hr, ho⟩, rfl⟩ := h
    exact .handleRead c order hc hr ho
  | readError c =>
    simp only [Server.step, Option.ite_none_right_eq_some, Option.some.injEq] at h
    obtain ⟨⟨hc, hr⟩, rfl⟩ := h
    exact .readError c hc hr
  | writeSome c op count =>
    simp only [Server.step] at h
    split at h
    case isTrue => cases h
    case isFalse hb =>
      split at h
      case h_1 => cases h
      case h_2 bytes writes hw =>
        obtain rfl := Option.some.inj h
        exact .writeSome c op count bytes writes (by simpa using hb) hw
  | writeError c op =>
    simp only [Server.step, Option.ite_none_right_eq_some, Option.some.injEq] at h
    obtain ⟨ho, rfl⟩ := h
    exact .writeError c op ho

/-! ## Calls of `write` -/

/-- Nothing changed but the outstanding writes and the calls of `write`. -/
structure Frame (s s' : Server) : Prop where
  connects : s'.connects = s.connects
  accepted : s'.accepted = s.accepted
  sent : s'.sent = s.sent
  received : s'.received = s.received
  broadcasts : s'.broadcasts = s.broadcasts
  conn : ∀ c, ∃ writes, s'.conn c = { s.conn c with writes }

theorem Frame.refl (s : Server) : Frame s s := ⟨rfl, rfl, rfl, rfl, rfl, fun _ => ⟨_, rfl⟩⟩

theorem Frame.write (h : Frame s t) (c : Nat) (msg : Bytes) : Frame s (t.write c msg) := by
  refine ⟨h.connects, h.accepted, h.sent, h.received, h.broadcasts, fun d => ?_⟩
  obtain ⟨writes, hd⟩ := h.conn d
  by_cases hdc : d = c
  · subst hdc
    exact ⟨(t.conn d).writes ++ [msg], by simp [Server.write, hd]⟩
  · exact ⟨writes, by simp [Server.write, hdc, hd]⟩

/-- A message depends on the login of its sender only. -/
theorem Frame.message (h : Frame s t) (c : Nat) (msg : Bytes) : t.message c msg = s.message c msg := by
  obtain ⟨writes, hc⟩ := h.conn c
  simp only [Server.message, hc]

/-- **What every call of `write` preserves, a broadcast preserves.** -/
theorem writeAll_induct {I : Server → Prop} (hw : ∀ s c msg, I s → I (s.write c msg)) (hs : I s) :
    I (Server.writeAll msg c s order) := by
  induction order generalizing s with
  | nil => exact hs
  | cons d order ih =>
    rw [Server.writeAll, List.foldl_cons]
    by_cases hd : d ≠ c
    · rw [if_pos hd]; exact ih (hw s d _ hs)
    · rw [if_neg hd]; exact ih hs

theorem writeAll_frame (s : Server) (msg : Bytes) (c : Nat) (order : List Nat) :
    Frame s (Server.writeAll msg c s order) :=
  writeAll_induct (I := Frame s) (fun _ d m h => h.write d m) (Frame.refl s)

/-- A broadcast calls `write` for every connection of the set but the sender, with one message. -/
theorem writeAll_written (s : Server) (msg : Bytes) (c : Nat) (order : List Nat) :
    (Server.writeAll msg c s order).written =
      s.written ++ (order.filter (· ≠ c)).map fun d => (d, s.message c msg) := by
  induction order generalizing s with
  | nil => simp [Server.writeAll]
  | cons d order ih =>
    rw [Server.writeAll, List.foldl_cons]
    by_cases hd : d ≠ c
    · have hm := ((Frame.refl s).write d (s.message c msg)).message c msg
      rw [if_pos hd]
      refine (ih (s.write d (s.message c msg))).trans ?_
      rw [hm]
      simp [hd, Server.write]
    · rw [if_neg hd]
      refine (ih s).trans ?_
      simp [hd]

/-- The connections outside the order of the set are left alone. -/
theorem writeAll_conn (hd : d ∉ order) : (Server.writeAll msg c s order).conn d = s.conn d := by
  induction order generalizing s with
  | nil => rfl
  | cons e order ih =>
    rw [List.mem_cons, not_or] at hd
    rw [Server.writeAll, List.foldl_cons]
    refine (ih hd.2).trans ?_
    by_cases he : e ≠ c
    · rw [if_pos he]
      exact Server.setConn_of_ne hd.1
    · rw [if_neg he]

theorem handleRead_conn (hd : d ≠ c) (ho : d ∉ order) : (s.handleRead c order).conn d = s.conn d := by
  refine (Server.setConn_of_ne hd).trans ?_
  refine (writeAll_conn ho).trans ?_
  exact Server.setConn_of_ne hd

/-- Everything the handler of a read does, apart from the outstanding writes. -/
structure Handled (s : Server) (c : Nat) (order : List Nat) (s' : Server) : Prop where
  connects : s'.connects = s.connects
  accepted : s'.accepted = s.accepted
  sent : s'.sent = s.sent
  received : s'.received = s.received
  broadcasts : s'.broadcasts = s.broadcasts ++ [(c, (takeLine newline (s.conn c).buffer).1)]
  written : s'.written = s.written ++
    (order.filter (· ≠ c)).map fun d => (d, s.message c (takeLine newline (s.conn c).buffer).1)
  self : ∃ writes, s'.conn c =
    { s.conn c with buffer := (takeLine newline (s.conn c).buffer).2, writes }.readRequest
  conn : ∀ d, d ≠ c → ∃ writes, s'.conn d = { s.conn d with writes }

theorem handleRead_handled (s : Server) (c : Nat) (order : List Nat) : Handled s c order (s.handleRead c order) := by
  let line := (takeLine newline (s.conn c).buffer).1
  let s₁ : Server :=
    { s.setConn c { s.conn c with buffer := (takeLine newline (s.conn c).buffer).2 } with
      broadcasts := s.broadcasts ++ [(c, line)] }
  have hframe := writeAll_frame s₁ line c order
  have hconn : ∀ d, (s.handleRead c order).conn d =
      if d = c then ((Server.writeAll line c s₁ order).conn c).readRequest
      else (Server.writeAll line c s₁ order).conn d := by
    intro d
    by_cases hd : d = c
    · subst hd
      rw [if_pos rfl]
      exact Server.setConn_self
    · rw [if_neg hd]
      exact Server.setConn_of_ne hd
  have hmessage : s₁.message c line = s.message c line := by simp [s₁, Server.message]
  refine ⟨hframe.connects, hframe.accepted, hframe.sent, hframe.received, hframe.broadcasts, ?_, ?_, fun d hd => ?_⟩
  · have hwritten := writeAll_written s₁ line c order
    rw [hmessage] at hwritten
    exact hwritten
  · obtain ⟨writes, hc⟩ := hframe.conn c
    refine ⟨writes, ?_⟩
    rw [hconn, if_pos rfl, hc]
    simp [s₁]
  · obtain ⟨writes, hc⟩ := hframe.conn d
    refine ⟨writes, ?_⟩
    rw [hconn, if_neg hd, hc]
    simp [s₁, hd]

end HighLoad.Messenger
