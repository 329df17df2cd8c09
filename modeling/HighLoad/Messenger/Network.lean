import HighLoad.Lib.Parts
import HighLoad.Messenger.Broadcast
import HighLoad.Messenger.Streams

/-!
# The messenger and its clients

`n` client programs beside the server. A client reads lines from `std::cin` and starts an `async_write` for each; it
prints the lines that it reads from its socket, and at the end of `std::cin` it closes the socket and drops what it has
not written. The bytes that one side has written and the other has not read are in flight, in order and in any segments
(`toServer`, `toClient`). Client `c` is the one accepted after `c` others.

When partial writes are those of the oldest operation of their socket, what a client prints are the lines broadcast on
behalf of the others since it was accepted, in order and none twice, and the lines broadcast for a client are the first
ones typed there (`network_prints`).
-/

namespace HighLoad.Messenger

open ByteString Lines Transition

/-! ## The client -/

structure Client where
  buffer : Bytes
  reading : Reading
  /-- The `async_write` operations under way, the oldest first: what each has still to write, in a copy of its own. The
  source gives them the buffer of a temporary. -/
  writes : List Bytes
  /-- A write has failed, and so will all others. -/
  broken : Bool
  /-- `~Client` has run. -/
  closed : Bool
  /-- The bytes that its socket has taken. -/
  sent : Bytes
  /-- The lines that `read` has printed. -/
  printed : List Bytes
  /-- History: the bytes read from the socket. No step reads it. -/
  received : Bytes
  /-- History: the lines read from `std::cin`. No step reads it. -/
  typed : List Bytes

namespace Client

inductive Label where
  /-- A line of `std::cin`, and `send_message`. -/
  | typeLine (line : Bytes)
  /-- Bytes arrive for the pending read. -/
  | data (bytes : Bytes)
  /-- The handler of a completed read. -/
  | handleRead
  /-- The handler of a read that failed. -/
  | readError
  /-- `count` bytes of the write number `op`, the oldest being 0. -/
  | writeSome (op count : Nat)
  /-- The handler of a write that failed. -/
  | writeError (op : Nat)
  /-- The end of `std::cin`, and `~Client`. -/
  | exit

def init : Client := ⟨[], .waiting, [], false, false, [], [], [], []⟩

/-- `async_read_until(socket, buffer, "\n", ...)`. -/
def read (s : Client) : Client := { s with reading := if newline ∈ s.buffer then .ready else .waiting }

def sendMessage (s : Client) (msg : Bytes) : Client := { s with writes := s.writes ++ [msg ++ [newline]] }

/-- The handler of `read` without an error. -/
def handleRead (s : Client) : Client :=
  { s with
    buffer := (takeLine newline s.buffer).2
    printed := s.printed ++ [ascii "Server: " ++ (takeLine newline s.buffer).1] }.read

def step (s : Client) : Label → Option Client
  | .typeLine line =>
    if s.closed ∨ newline ∈ line then none else some { s.sendMessage line with typed := s.typed ++ [line] }
  | .data bytes =>
    if s.reading = .waiting then
      some { s with buffer := s.buffer ++ bytes, received := s.received ++ bytes }.read
    else none
  | .handleRead => if s.reading = .ready then some s.handleRead else none
  | .readError => if s.reading = .waiting then some { s with reading := .ended } else none
  | .writeSome op count =>
    if s.broken then none
    else (partialWrite s.writes op count).map fun w => { s with writes := w.2, sent := s.sent ++ w.1 }
  | .writeError op =>
    if op < s.writes.length then some { s with writes := s.writes.eraseIdx op, broken := true } else none
  -- `io.stop()`: no handler is called any more
  | .exit => if s.closed then none else some { s with reading := .ended, writes := [], broken := true, closed := true }

end Client

/-! ## What a client prints and sends -/

namespace Client

variable {s t : Client} {a : Label}

/-- Everything a step of a client can do. -/
inductive Step (s : Client) : Label → Client → Prop
  | typeLine (line : Bytes) : s.closed = false → newline ∉ line →
      Step s (.typeLine line) { s.sendMessage line with typed := s.typed ++ [line] }
  | data (bytes : Bytes) : s.reading = .waiting →
      Step s (.data bytes) { s with buffer := s.buffer ++ bytes, received := s.received ++ bytes }.read
  | handleRead : s.reading = .ready → Step s .handleRead s.handleRead
  | readError : s.reading = .waiting → Step s .readError { s with reading := .ended }
  | writeSome (op count : Nat) (bytes : Bytes) (writes : List Bytes) : s.broken = false →
      partialWrite s.writes op count = some (bytes, writes) →
      Step s (.writeSome op count) { s with writes, sent := s.sent ++ bytes }
  | writeError (op : Nat) : op < s.writes.length →
      Step s (.writeError op) { s with writes := s.writes.eraseIdx op, broken := true }
  | exit : s.closed = false →
      Step s .exit { s with reading := .ended, writes := [], broken := true, closed := true }

theorem step_inv (h : s.step a = some t) : s.Step a t := by
  cases a with
  | typeLine line =>
    obtain ⟨hno, h⟩ := Option.ite_none_left_eq_some.mp h
    obtain ⟨hopen, hline⟩ := not_or.mp hno
    cases h
    exact .typeLine line (by simpa using hopen) hline
  | data bytes =>
    obtain ⟨hwaiting, h⟩ := Option.ite_none_right_eq_some.mp h
    cases h
    exact .data bytes hwaiting
  | handleRead =>
    obtain ⟨hready, h⟩ := Option.ite_none_right_eq_some.mp h
    cases h
    exact .handleRead hready
  | readError =>
    obtain ⟨hwaiting, h⟩ := Option.ite_none_right_eq_some.mp h
    cases h
    exact .readError hwaiting
  | writeSome op count =>
    obtain ⟨hbroken, h⟩ := Option.ite_none_left_eq_some.mp h
    obtain ⟨w, hw, rfl⟩ := Option.map_eq_some_iff.mp h
    exact .writeSome op count w.1 w.2 (by simpa using hbroken) hw
  | writeError op =>
    obtain ⟨hop, h⟩ := Option.ite_none_right_eq_some.mp h
    cases h
    exact .writeError op hop
  | exit =>
    obtain ⟨hopen, h⟩ := Option.ite_none_left_eq_some.mp h
    cases h
    exact .exit (by simpa using hopen)

/-- What is read are the lines printed and the buffer. -/
structure Sound (s : Client) : Prop where
  typed : ∀ l ∈ s.typed, newline ∉ l
  stream : ∃ ls : List Bytes, (∀ l ∈ ls, newline ∉ l) ∧ s.printed = ls.map (ascii "Server: " ++ ·) ∧
    s.received = ls.flatMap (· ++ [newline]) ++ s.buffer
  ready : s.reading = .ready → newline ∈ s.buffer
  waiting : s.reading = .waiting → newline ∉ s.buffer

theorem init_sound : Sound init := by
  refine ⟨by simp [init], ⟨[], by simp, rfl, rfl⟩, by simp [init], by simp [init]⟩

theorem read_ready (h : s.read.reading = .ready) : newline ∈ s.buffer := by
  simp only [read] at h
  split at h <;> simp_all

theorem read_waiting (h : s.read.reading = .waiting) : newline ∉ s.buffer := by
  simp only [read] at h
  split at h <;> simp_all

theorem step_sound (hs : Sound s) (h : s.step a = some t) : Sound t := by
  cases step_inv h with
  | typeLine line _ hline =>
    refine ⟨fun l hl => ?_, hs.stream, hs.ready, hs.waiting⟩
    rcases List.mem_append.mp hl with hl | hl
    · exact hs.typed l hl
    · rw [List.mem_singleton.mp hl]
      exact hline
  | data bytes =>
    obtain ⟨ls, hls, hprinted, hreceived⟩ := hs.stream
    refine ⟨hs.typed, ⟨ls, hls, hprinted, ?_⟩, read_ready, read_waiting⟩
    show s.received ++ bytes = _ ++ (s.buffer ++ bytes)
    rw [hreceived, List.append_assoc]
  | handleRead hready =>
    obtain ⟨ls, hls, hprinted, hreceived⟩ := hs.stream
    have hline := takeLine_eq (hs.ready hready)
    refine ⟨hs.typed, ⟨ls ++ [(takeLine newline s.buffer).1], fun l hl => ?_, ?_, ?_⟩, read_ready, read_waiting⟩
    · rcases List.mem_append.mp hl with hl | hl
      · exact hls l hl
      · rw [List.mem_singleton.mp hl]
        exact takeLine_notMem _
    · rw [List.map_append, ← hprinted]
      rfl
    · show s.received = _ ++ (takeLine newline s.buffer).2
      rw [hreceived, List.flatMap_append, List.append_assoc]
      simpa using hline
  | readError | exit => exact ⟨hs.typed, hs.stream, by simp, by simp⟩
  | writeSome | writeError => exact ⟨hs.typed, hs.stream, hs.ready, hs.waiting⟩

/-- The lines typed, as bytes. -/
def input (s : Client) : Bytes := s.typed.flatMap (· ++ [newline])

/-- What the socket has taken are the first bytes typed; until a write fails or the input ends, the operations under way
hold the rest. -/
structure Whole (s : Client) : Prop where
  sent : s.sent <+: s.input
  left : s.broken = false → s.sent ++ s.writes.flatten = s.input

/-- The partial writes of a client are those of its oldest operation. -/
def oldestFirst : Label → Prop
  | .writeSome op _ => op = 0
  | _ => True

theorem step_whole (hs : Whole s) (hok : oldestFirst a) (h : s.step a = some t) : Whole t := by
  cases step_inv h with
  | typeLine line =>
    have hinput : ({ s.sendMessage line with typed := s.typed ++ [line] } : Client).input =
        s.input ++ (line ++ [newline]) := by
      simp [input]
    refine ⟨?_, fun hb => ?_⟩
    · rw [hinput]
      exact hs.sent.trans (List.prefix_append _ _)
    · rw [hinput, ← hs.left hb]
      simp [sendMessage]
  | data | handleRead | readError => exact ⟨hs.sent, hs.left⟩
  | writeSome op count bytes writes hb hw =>
    obtain rfl : op = 0 := hok
    have hleft : (s.sent ++ bytes) ++ writes.flatten = s.input := by
      rw [List.append_assoc, partialWrite_oldest hw]
      exact hs.left hb
    exact ⟨⟨_, hleft⟩, fun _ => hleft⟩
  | writeError | exit => exact ⟨hs.sent, by simp⟩

/-- Nothing is taken back. -/
theorem step_sent (h : s.step a = some t) : s.sent <+: t.sent := by
  cases step_inv h with
  | writeSome => exact List.prefix_append _ _
  | typeLine | data | handleRead | readError | writeError | exit => exact List.prefix_rfl

theorem step_data {bytes : Bytes} (h : s.step (.data bytes) = some t) :
    t.received = s.received ++ bytes ∧ t.sent = s.sent := by
  cases step_inv h with
  | data => exact ⟨rfl, rfl⟩

theorem step_received (ha : ∀ bytes, a ≠ .data bytes) (h : s.step a = some t) : t.received = s.received := by
  cases step_inv h with
  | data bytes => exact absurd rfl (ha bytes)
  | typeLine | handleRead | readError | writeSome | writeError | exit => rfl

end Client

/-! ## The network -/

structure Network (n : Nat) where
  server : Server
  client : Fin n → Client
  /-- History: how many lines had been broadcast when a connection was accepted. No step reads it. -/
  joined : Nat → Nat

namespace Network

inductive Label (n : Nat) where
  | accept
  /-- The server reads `count` bytes of client `c`. -/
  | toServer (c : Fin n) (count : Nat)
  /-- Client `c` reads `count` bytes of the server. -/
  | toClient (c : Fin n) (count : Nat)
  /-- Any other step of the server. -/
  | server (a : Messenger.Label)
  /-- Any other step of client `c`. -/
  | client (c : Fin n) (a : Client.Label)

variable {n : Nat}

def init (n : Nat) : Network n := ⟨.init, fun _ => .init, fun _ => 0⟩

/-- The bytes on their way to the server. -/
def up (s : Network n) (c : Fin n) : Bytes := (s.client c).sent.drop (s.server.received c).length

/-- The bytes on their way to a client. -/
def down (s : Network n) (c : Fin n) : Bytes := (s.server.sent c).drop (s.client c).received.length

def serverLabel (s : Network n) : Label n → Option Messenger.Label
  | .accept => some .accept
  | .toServer c count => some (.data c ((s.up c).take count))
  | .server a => some a
  | .toClient .. | .client .. => none

def clientLabel (s : Network n) : Label n → Option (Fin n × Client.Label)
  | .toClient c count => some (c, .data ((s.down c).take count))
  | .client c a => some (c, a)
  | .accept | .toServer .. | .server .. => none

/-- There are bytes to read, and only these are read; there is a client to accept. -/
def Enabled (s : Network n) : Label n → Prop
  | .accept => s.server.accepted < n
  | .toServer c count => 0 < count ∧ count ≤ (s.up c).length
  | .toClient c count => 0 < count ∧ count ≤ (s.down c).length
  | .server .accept | .server (.data ..) | .client _ (.data ..) => False
  | .server _ | .client .. => True

instance (s : Network n) : ∀ a, Decidable (s.Enabled a)
  | .accept => inferInstanceAs (Decidable (_ < _))
  | .toServer .. | .toClient .. => inferInstanceAs (Decidable (_ ∧ _))
  | .server .accept | .server (.data ..) | .client _ (.data ..) => inferInstanceAs (Decidable False)
  | .server .acceptError | .server (.handleRead ..) | .server (.readError ..) | .server (.writeSome ..) |
    .server (.writeError ..) => inferInstanceAs (Decidable True)
  | .client _ (.typeLine ..) | .client _ .handleRead | .client _ .readError | .client _ (.writeSome ..) |
    .client _ (.writeError ..) | .client _ .exit => inferInstanceAs (Decidable True)

def joins (s : Network n) : Label n → Nat → Nat
  | .accept => Function.update s.joined s.server.accepted s.server.broadcasts.length
  | _ => s.joined

def step (s : Network n) (a : Label n) : Option (Network n) :=
  if s.Enabled a then
    (stepMaybe Server.step s.server (s.serverLabel a)).bind fun server =>
      (stepMaybe (interleave Client.step) s.client (s.clientLabel a)).map fun client =>
        { server, client, joined := s.joins a }
  else none

variable {s t : Network n} {a : Label n} {as : List (Label n)} {c : Fin n}

/-- Everything a step does. -/
theorem step_inv (h : s.step a = some t) : s.Enabled a ∧
    stepMaybe Server.step s.server (s.serverLabel a) = some t.server ∧
    stepMaybe (interleave Client.step) s.client (s.clientLabel a) = some t.client ∧ t.joined = s.joins a := by
  obtain ⟨henabled, h⟩ := Option.ite_none_right_eq_some.mp h
  obtain ⟨server, hserver, h⟩ := Option.bind_eq_some_iff.mp h
  obtain ⟨client, hclient, rfl⟩ := Option.map_eq_some_iff.mp h
  exact ⟨henabled, hserver, hclient, rfl⟩

theorem server_partOf : PartOf step Server.step Network.server (serverLabel (n := n)) := fun _ _ _ h => (step_inv h).2.1

/-- One client has moved. -/
theorem client_moves {b : Client.Label} {client : Fin n → Client}
    (h : stepMaybe (interleave Client.step) s.client (some (c, b)) = some client) :
    ∃ u, (s.client c).step b = some u ∧ client = Function.update s.client c u := by
  obtain ⟨u, hu, rfl⟩ := Option.map_eq_some_iff.mp h
  exact ⟨u, hu, rfl⟩

/-! ## What is in flight -/

theorem take_flight {l m : Bytes} (h : l <+: m) (k : Nat) : l ++ (m.drop l.length).take k <+: m := by
  obtain ⟨r, rfl⟩ := h
  rw [List.drop_left, List.prefix_append_right_inj]
  exact List.take_prefix k r

end Network

/-- Nothing is taken back. -/
theorem step_sent {s t : Server} {a : Label} (h : s.step a = some t) (c : Nat) : s.sent c <+: t.sent c := by
  cases step_inv h with
  | writeSome d op count bytes =>
    by_cases hd : c = d
    · subst hd
      simp only [Function.update_self]
      exact List.prefix_append _ _
    · simp only [Function.update_of_ne hd]
      exact List.prefix_rfl
  | handleRead d order =>
    have hsent : (s.handleRead d order).sent = s.sent := (handleRead_handled s d order).sent
    exact hsent ▸ List.prefix_rfl
  | accept | acceptError | data | readError | writeError => exact List.prefix_rfl

theorem step_data {s t : Server} {c : Nat} {bytes : Bytes} (h : s.step (.data c bytes) = some t) :
    t.received = Function.update s.received c (s.received c ++ bytes) ∧ t.sent = s.sent := by
  cases step_inv h with
  | data => exact ⟨rfl, rfl⟩

theorem step_received {s t : Server} {a : Label} (ha : ∀ c bytes, a ≠ .data c bytes) (h : s.step a = some t) :
    t.received = s.received := by
  cases step_inv h with
  | data c bytes => exact absurd rfl (ha c bytes)
  | handleRead d order => exact (handleRead_handled s d order).received
  | accept | acceptError | readError | writeSome | writeError => rfl

theorem step_accepted {s t : Server} {a : Label} (ha : a ≠ .accept) (h : s.step a = some t) :
    t.accepted = s.accepted := by
  cases step_inv h with
  | accept => exact absurd rfl ha
  | handleRead d order => exact (handleRead_handled s d order).accepted
  | acceptError | data | readError | writeSome | writeError => rfl

theorem step_handleRead {s t : Server} {c : Nat} {order : List Nat} (h : s.step (.handleRead c order) = some t) :
    order.Perm s.connects ∧ Handled s c order t := by
  cases step_inv h with
  | handleRead _ _ _ _ ho => exact ⟨ho, handleRead_handled s c order⟩

/-- What a broadcast writes to one client. -/
theorem filter_written {order : List Nat} (ho : order.Nodup) (c d : Nat) (msg : Bytes) :
    ((order.filter (· ≠ c)).map fun e => (e, msg)).filter (·.1 = d) =
      if d ∈ order ∧ d ≠ c then [(d, msg)] else [] := by
  have hone : order.filter (· = d) = if d ∈ order then [d] else [] := by
    rw [List.filter_eq, ho.count]
    split <;> rfl
  have hswap : (order.filter (· ≠ c)).filter (· = d) = (order.filter (· = d)).filter (· ≠ c) := by
    rw [List.filter_filter, List.filter_filter]
    exact List.filter_congr fun e _ => Bool.and_comm _ _
  rw [List.filter_map]
  show ((order.filter (· ≠ c)).filter (· = d)).map _ = _
  rw [hswap, hone]
  by_cases hd : d ∈ order <;> by_cases hc : d = c <;> simp [hd, hc]

/-- Everybody is `Anonimous`. -/
theorem step_named {s t : Server} {a : Label} (hs : ∀ c, (s.conn c).username = ascii "Anonimous")
    (h : s.step a = some t) (c : Nat) : (t.conn c).username = ascii "Anonimous" := by
  have hset : ∀ {d conn}, conn.username = (s.conn d).username →
      ((s.setConn d conn).conn c).username = ascii "Anonimous" := by
    intro d conn hconn
    by_cases hd : c = d
    · subst hd
      rw [Server.setConn_self, hconn, hs]
    · rw [Server.setConn_of_ne hd, hs]
  cases step_inv h with
  | accept =>
    by_cases hc : c = s.accepted
    · subst hc
      rw [Server.accept_self]
      rfl
    · rw [Server.accept_of_ne hc, hs]
  | acceptError => exact hs c
  | handleRead d order =>
    have hH := handleRead_handled s d order
    by_cases hd : c = d
    · subst hd
      obtain ⟨writes, hself⟩ := hH.self
      rw [hself]
      exact hs c
    · obtain ⟨writes, hconn⟩ := hH.conn c hd
      rw [hconn]
      exact hs c
  | data | readError | writeSome | writeError => exact hset rfl

namespace Network

variable {n : Nat} {s t : Network n} {a : Label n} {as : List (Label n)} {c : Fin n}

/-- Each side has read the first bytes that the other has written. -/
structure Carried (s : Network n) : Prop where
  up : ∀ c : Fin n, s.server.received c <+: (s.client c).sent
  down : ∀ c : Fin n, (s.client c).received <+: s.server.sent c

/-- A step of the server that reads nothing. -/
theorem Carried.server {a : Messenger.Label} (hs : Carried s) (ha : ∀ c bytes, a ≠ .data c bytes)
    (hserver : s.server.step a = some t.server) (hclient : t.client = s.client) : Carried t := by
  refine ⟨fun c => ?_, fun c => ?_⟩
  · rw [hclient, step_received ha hserver]
    exact hs.up c
  · rw [hclient]
    exact (hs.down c).trans (step_sent hserver c)

/-- A step of a client. -/
theorem Carried.client {u : Client} (hs : Carried s) (hserver : t.server = s.server)
    (hclient : t.client = Function.update s.client c u) (hsent : (s.client c).sent <+: u.sent)
    (hreceived : u.received <+: s.server.sent c) : Carried t := by
  refine ⟨fun d => ?_, fun d => ?_⟩
  · rw [hclient, hserver]
    by_cases hd : d = c
    · subst hd
      rw [Function.update_self]
      exact (hs.up d).trans hsent
    · rw [Function.update_of_ne hd]
      exact hs.up d
  · rw [hclient, hserver]
    by_cases hd : d = c
    · subst hd
      rw [Function.update_self]
      exact hreceived
    · rw [Function.update_of_ne hd]
      exact hs.down d

theorem step_carried (hs : Carried s) (h : s.step a = some t) : Carried t := by
  obtain ⟨henabled, hserver, hclient, -⟩ := step_inv h
  cases a with
  | accept =>
    have haccept : s.server.step .accept = some t.server := hserver
    exact hs.server (by simp) haccept (Option.some.inj hclient).symm
  | server a =>
    refine hs.server ?_ hserver (Option.some.inj hclient).symm
    rintro c bytes rfl
    exact henabled
  | toServer c count =>
    obtain ⟨hreceived, hsent⟩ := step_data hserver
    have hsame : t.client = s.client := (Option.some.inj hclient).symm
    refine ⟨fun d => ?_, fun d => ?_⟩
    · rw [hsame, hreceived]
      by_cases hd : d = c
      · subst hd
        rw [Function.update_self]
        exact take_flight (hs.up d) count
      · rw [Function.update_of_ne (Fin.val_ne_of_ne hd)]
        exact hs.up d
    · rw [hsame, hsent]
      exact hs.down d
  | toClient c count =>
    obtain ⟨u, hu, hmoved⟩ := client_moves hclient
    obtain ⟨hreceived, hsent⟩ := Client.step_data hu
    refine hs.client (Option.some.inj hserver).symm hmoved (hsent ▸ List.prefix_rfl) ?_
    rw [hreceived]
    exact take_flight (hs.down c) count
  | client c a =>
    obtain ⟨u, hu, hmoved⟩ := client_moves hclient
    refine hs.client (Option.some.inj hserver).symm hmoved (Client.step_sent hu) ?_
    rw [Client.step_received ?_ hu]
    · exact hs.down c
    · rintro bytes rfl
      exact henabled

/-! ## What is written to a client -/

/-- The lines broadcast on behalf of the others since connection `d` was accepted, each with its sender. -/
def since (s : Network n) (d : Nat) : List (Nat × Bytes) := (s.server.broadcasts.drop (s.joined d)).filter (·.1 ≠ d)

/-- The message of a broadcast, without its newline. -/
def shown (b : Nat × Bytes) : Bytes := ascii "from Anonimous: " ++ b.2

structure Heard (s : Network n) : Prop where
  joined : ∀ d, s.joined d ≤ s.server.broadcasts.length
  written : ∀ d, s.server.written.filter (·.1 = d) =
    if d < s.server.accepted then (s.since d).map fun b => (d, shown b ++ [newline]) else []

theorem init_heard : Heard (init n) := ⟨fun _ => Nat.le_refl 0, fun _ => rfl⟩

/-- A step without an accept or a broadcast. -/
theorem Heard.congr (hs : Heard s) (hbroadcasts : t.server.broadcasts = s.server.broadcasts)
    (hwritten : t.server.written = s.server.written) (haccepted : t.server.accepted = s.server.accepted)
    (hjoined : t.joined = s.joined) : Heard t := by
  refine ⟨fun d => ?_, fun d => ?_⟩
  · rw [hjoined, hbroadcasts]
    exact hs.joined d
  · rw [hwritten, haccepted, since, hjoined, hbroadcasts]
    exact hs.written d

theorem step_heard (hs : Heard s) (hM : Members s.server) (hnamed : ∀ c, (s.server.conn c).username = ascii "Anonimous")
    (h : s.step a = some t) : Heard t := by
  obtain ⟨henabled, hserver, hclient, hjoined⟩ := step_inv h
  cases a with
  | accept =>
    have haccept : t.server = s.server.accept := (Option.some.inj hserver).symm
    have hjoins : t.joined = Function.update s.joined s.server.accepted s.server.broadcasts.length := hjoined
    refine ⟨fun d => ?_, fun d => ?_⟩
    · rw [hjoins, haccept]
      by_cases hd : d = s.server.accepted
      · rw [hd, Function.update_self]
        exact Nat.le_refl _
      · rw [Function.update_of_ne hd]
        exact hs.joined d
    · have hw := hs.written d
      rw [since, hjoins, haccept]
      by_cases hd : d = s.server.accepted
      · subst hd
        rw [if_neg (Nat.lt_irrefl _)] at hw
        have hlt : s.server.accepted < s.server.accept.accepted := Nat.lt_succ_self _
        rw [if_pos hlt, Function.update_self]
        simpa [Server.accept] using hw
      · have hlt : d < s.server.accept.accepted ↔ d < s.server.accepted :=
          ⟨fun h => Nat.lt_of_le_of_ne (Nat.le_of_lt_succ h) hd, fun h => Nat.lt_succ_of_lt h⟩
        rw [if_congr hlt rfl rfl, Function.update_of_ne hd]
        exact hw
  | toServer c count =>
    have hdata : s.server.step (.data c ((s.up c).take count)) = some t.server := hserver
    obtain ⟨hbroadcasts, hwritten⟩ := step_quiet hdata (by simp)
    exact hs.congr hbroadcasts hwritten (step_accepted (by simp) hdata) hjoined
  | server a =>
    have hstep : s.server.step a = some t.server := hserver
    cases a with
    | accept | data => exact henabled.elim
    | handleRead c order =>
      obtain ⟨ho, hH⟩ := step_handleRead hstep
      have hmessage : s.server.message c (takeLine newline (s.server.conn c).buffer).1 =
          shown (c, (takeLine newline (s.server.conn c).buffer).1) ++ [newline] := by
        rw [Server.message, hnamed]
        rfl
      have hjoins : t.joined = s.joined := hjoined
      refine ⟨fun d => ?_, fun d => ?_⟩
      · rw [hjoins, hH.broadcasts, List.length_append]
        exact Nat.le_add_right_of_le (hs.joined d)
      · have hmem : d ∈ order ↔ d < s.server.accepted := ho.mem_iff.trans (hM.mem d)
        rw [hH.written, List.filter_append, hs.written, filter_written (ho.nodup_iff.mpr hM.nodup), hH.accepted, hmessage,
          since, since, hjoins, hH.broadcasts, List.drop_append_of_le_length (hs.joined d), List.filter_append]
        by_cases hd : d < s.server.accepted
        · by_cases hc : c = d
          · simp [hmem, hd, hc]
          · simp [hmem, hd, hc, Ne.symm hc]
        · simp [hmem, hd]
    | acceptError | readError | writeSome | writeError =>
      obtain ⟨hbroadcasts, hwritten⟩ := step_quiet hstep (by simp)
      exact hs.congr hbroadcasts hwritten (step_accepted (by simp) hstep) hjoined
  | toClient | client =>
    have hsame : t.server = s.server := (Option.some.inj hserver).symm
    exact hs.congr (by rw [hsame]) (by rw [hsame]) (by rw [hsame]) hjoined

/-! ## What the clients print -/

/-- What holds in every reachable state. -/
structure Sound (s : Network n) : Prop where
  members : Members s.server
  read : ReadInv s.server
  named : ∀ c, (s.server.conn c).username = ascii "Anonimous"
  client : ∀ c, (s.client c).Sound
  carried : Carried s
  heard : Heard s

theorem init_sound : Sound (init n) where
  members := init_members
  read := init_readInv
  named _ := rfl
  client _ := Client.init_sound
  carried := ⟨fun _ => List.prefix_rfl, fun _ => List.prefix_rfl⟩
  heard := init_heard

theorem step_sound (hs : Sound s) (h : s.step a = some t) : Sound t := by
  obtain ⟨-, hserver, hclient, -⟩ := step_inv h
  have hboth : Members t.server ∧ ReadInv t.server := by
    refine stepMaybe_inv (I := fun s => Members s ∧ ReadInv s) ?_ ⟨hs.members, hs.read⟩ hserver
    rintro s a t ⟨hM, hR⟩ hstep
    exact ⟨step_members hM hstep, step_readInv hR hM hstep⟩
  refine ⟨hboth.1, hboth.2, ?_, ?_, step_carried hs.carried h, step_heard hs.heard hs.members hs.named h⟩
  · exact stepMaybe_inv (I := fun s : Server => ∀ c, (s.conn c).username = ascii "Anonimous")
      (fun _ _ _ hI hstep => step_named hI hstep) hs.named hserver
  · exact stepMaybe_inv (I := fun s : Fin n → Client => ∀ c, (s c).Sound)
      (fun _ _ _ hI hstep => interleave_inv (fun _ _ _ => Client.step_sound) hI hstep) hs.client hclient

theorem run_sound (h : run step (init n) as = some s) : Sound s :=
  run_inv (fun _ _ _ => step_sound) init_sound h

/-- Every partial write is one of the oldest operation under way on its socket. -/
def oldestFirst (s : Network n) : Label n → Prop
  | .server a => Messenger.oldestFirst s.server a
  | .client _ a => Client.oldestFirst a
  | _ => True

/-- Messages are whole on both sides. -/
structure Orderly (s : Network n) : Prop where
  server : Whole s.server
  client : ∀ c, (s.client c).Whole

theorem step_orderly (hM : Members s.server) (ho : Orderly s) (hok : oldestFirst s a) (h : s.step a = some t) :
    Orderly t := by
  obtain ⟨henabled, hserver, hclient, -⟩ := step_inv h
  have hmoved : ∀ {c b}, s.clientLabel a = some (c, b) → Client.oldestFirst b → ∀ d, (t.client d).Whole := by
    intro c b hlabel hb d
    rw [hlabel] at hclient
    obtain ⟨u, hu, hupdate⟩ := client_moves hclient
    rw [hupdate]
    by_cases hd : d = c
    · subst hd
      rw [Function.update_self]
      exact Client.step_whole (ho.client d) hb hu
    · rw [Function.update_of_ne hd]
      exact ho.client d
  cases a with
  | accept =>
    have haccept : s.server.step .accept = some t.server := hserver
    have hsame : t.client = s.client := (Option.some.inj hclient).symm
    exact ⟨step_whole (a := .accept) ho.server hM trivial haccept, by rw [hsame]; exact ho.client⟩
  | toServer c count =>
    have hdata : s.server.step (.data c ((s.up c).take count)) = some t.server := hserver
    have hsame : t.client = s.client := (Option.some.inj hclient).symm
    exact ⟨step_whole (a := .data c ((s.up c).take count)) ho.server hM trivial hdata, by rw [hsame]; exact ho.client⟩
  | server b =>
    have hsame : t.client = s.client := (Option.some.inj hclient).symm
    exact ⟨step_whole ho.server hM hok hserver, by rw [hsame]; exact ho.client⟩
  | toClient c count =>
    have hsame : t.server = s.server := (Option.some.inj hserver).symm
    exact ⟨by rw [hsame]; exact ho.server, hmoved rfl trivial⟩
  | client c b =>
    have hsame : t.server = s.server := (Option.some.inj hserver).symm
    exact ⟨by rw [hsame]; exact ho.server, hmoved rfl hok⟩

theorem run_orderly (h : run step (init n) as = some s) (hok : Meets step oldestFirst (init n) as) : Orderly s := by
  have hinit : Orderly (init n) := ⟨init_whole, fun _ => ⟨List.prefix_rfl, fun _ => rfl⟩⟩
  have hboth : Sound s ∧ Orderly s := by
    refine meets_inv (I := fun s : Network n => Sound s ∧ Orderly s) ?_ ⟨init_sound, hinit⟩ hok h
    rintro s a t ⟨hs, ho⟩ hok hstep
    exact ⟨step_sound hs hstep, step_orderly hs.members ho hok hstep⟩
  exact hboth.2

/-- The messages to a client are lines. -/
theorem messagesTo_eq (hs : Sound s) (d : Nat) : s.server.messagesTo d =
    (if d < s.server.accepted then (s.since d).map shown else []).flatMap (· ++ [newline]) := by
  rw [Server.messagesTo, hs.heard.written]
  split
  · rw [List.flatMap_map, List.flatMap_map]
  · rfl

theorem shown_notMem (hs : Sound s) {d : Nat} : ∀ l ∈ (s.since d).map shown, newline ∉ l := by
  intro l hl
  obtain ⟨b, hb, rfl⟩ := List.mem_map.mp hl
  have hline := hs.read.whole b (List.mem_of_mem_drop (List.mem_filter.mp hb).1)
  have htext : newline ∉ ascii "from Anonimous: " := by decide
  rw [shown, List.mem_append, not_or]
  exact ⟨htext, hline⟩

/-- **What the clients print.** In every run whose partial writes are those of the oldest operation of their socket,
each client has printed the first of the lines that were broadcast on behalf of the other clients since it was accepted,
in order and none twice, and the lines broadcast on behalf of a client are the first of those typed there. -/
theorem network_prints (h : run step (init n) as = some s) (hok : Meets step oldestFirst (init n) as) (c : Fin n) :
    (s.client c).printed <+: (s.since c).map (fun b => ascii "Server: " ++ shown b) ∧
    s.server.linesOf c <+: (s.client c).typed := by
  have hs := run_sound h
  have ho := run_orderly h hok
  constructor
  · obtain ⟨ls, hls, hprinted, hreceived⟩ := (hs.client c).stream
    have hprefix := (hs.carried.down c).trans (ho.server.sent c)
    rw [hreceived, messagesTo_eq hs] at hprefix
    have hlines : ls <+: (s.since c).map shown := by
      split at hprefix
      · exact lines_prefix hls (shown_notMem hs) hprefix
      · have hnil := lines_prefix hls (by simp) hprefix
        exact hnil.trans List.nil_prefix
    have hmap := hlines.map (ascii "Server: " ++ ·)
    rw [List.map_map] at hmap
    rw [hprinted]
    exact hmap
  · have hprefix := (hs.carried.up c).trans (ho.client c).sent
    rw [hs.read.stream] at hprefix
    refine lines_prefix (fun l hl => ?_) (hs.client c).typed hprefix
    obtain ⟨b, hb, rfl⟩ := List.mem_map.mp hl
    exact hs.read.whole b (List.mem_filter.mp hb).1

def talker : Fin 2 := ⟨0, by decide⟩

def listener : Fin 2 := ⟨1, by decide⟩

instance (s : Network n) : ∀ a, Decidable (oldestFirst s a)
  | .server a => inferInstanceAs (Decidable (Messenger.oldestFirst s.server a))
  | .client _ (.writeSome op _) => inferInstanceAs (Decidable (op = 0))
  | .accept | .toServer .. | .toClient .. | .client _ (.typeLine _) | .client _ (.data _) | .client _ .handleRead |
    .client _ .readError | .client _ (.writeError _) | .client _ .exit => inferInstanceAs (Decidable True)

/-- A line from one client to the other, in two segments on each way; the first client exits after it. -/
def oneMessage : List (Label 2) :=
  [.accept, .accept, .client talker (.typeLine (ascii "hi")), .client talker (.writeSome 0 3), .toServer talker 1,
    .client talker .exit, .toServer talker 2, .server (.handleRead 0 [0, 1]), .server (.writeSome 1 0 9), .server (.writeSome 1 0 10),
    .toClient listener 4, .toClient listener 15, .client listener .handleRead]

theorem oneMessage_printed : ∃ s, run step (init 2) oneMessage = some s ∧
    (s.client listener).printed <+: (s.since listener).map (fun b => ascii "Server: " ++ shown b) ∧
    (s.client listener).printed = [ascii "Server: from Anonimous: hi"] ∧
    s.server.linesOf talker <+: (s.client talker).typed := by
  have hrun : run step (init 2) oneMessage = some _ := rfl
  exact ⟨_, hrun, (network_prints hrun (by decide) listener).1, by decide, (network_prints hrun (by decide) talker).2⟩

end Network

end HighLoad.Messenger
