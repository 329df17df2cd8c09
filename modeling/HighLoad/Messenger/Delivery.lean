import Mathlib.Tactic.Ring
import HighLoad.Lib.Progress
import HighLoad.Messenger.Network

/-!
# Every line arrives

Once nobody types, the bytes of the lines go on alone: out of a client, through the server, where a line becomes a
message to each of the others, and on to a screen. Each step takes bytes nearer to their end (`step_pays`), so the
network comes to rest. If no read and no write has failed it has then printed every line at every other client
(`network_delivers`).
-/

namespace HighLoad.Messenger

open ByteString Lines Transition

/-! ## Bytes under way -/

variable {writes writes' : List Bytes} {bytes : Bytes} {op count : Nat}

/-- A write under way among the others. -/
theorem length_flatten_at {rest : Bytes} (h : writes[op]? = some rest) :
    writes.flatten.length = (writes.take op).flatten.length + rest.length + (writes.drop (op + 1)).flatten.length := by
  obtain ⟨hop, hrest⟩ := List.getElem?_eq_some_iff.mp h
  have hsplit : writes = writes.take op ++ rest :: writes.drop (op + 1) := by
    rw [← hrest, List.cons_getElem_drop_succ, List.take_append_drop]
  conv_lhs => rw [hsplit]
  simp only [List.flatten_append, List.flatten_cons, List.length_append]
  omega

/-- A partial write writes something, and the operations hold that much less. -/
theorem partialWrite_length (h : partialWrite writes op count = some (bytes, writes')) :
    0 < bytes.length ∧ bytes.length + writes'.flatten.length = writes.flatten.length := by
  unfold partialWrite at h
  split at h
  case h_1 => cases h
  case h_2 rest hrest =>
    obtain ⟨hcount, h⟩ := Option.ite_none_left_eq_some.mp h
    rw [not_or, Nat.not_lt] at hcount
    have hlen := length_flatten_at hrest
    cases h
    have htake : (rest.take count).length = count := List.length_take_of_le hcount.2
    refine ⟨by omega, ?_⟩
    split
    case isTrue hwhole =>
      rw [List.eraseIdx_eq_take_drop_succ, List.flatten_append, List.length_append]
      omega
    case isFalse =>
      have hop := (List.getElem?_eq_some_iff.mp hrest).1
      rw [List.set_eq_take_append_cons_drop, if_pos hop]
      simp only [List.flatten_append, List.flatten_cons, List.length_append, List.length_drop]
      omega

/-- An operation that fails takes its bytes along. -/
theorem eraseIdx_length (h : op < writes.length) : (writes.eraseIdx op).flatten.length ≤ writes.flatten.length := by
  have hlen := length_flatten_at (List.getElem?_eq_getElem h)
  rw [List.eraseIdx_eq_take_drop_succ, List.flatten_append, List.length_append]
  omega

/-- No operation under way has nothing left to write. -/
def Filled (writes : List Bytes) : Prop := [] ∉ writes

theorem partialWrite_filled (hw : Filled writes) (h : partialWrite writes op count = some (bytes, writes')) :
    Filled writes' := by
  unfold partialWrite at h
  split at h
  case h_1 => cases h
  case h_2 rest hrest =>
    obtain ⟨hcount, h⟩ := Option.ite_none_left_eq_some.mp h
    rw [not_or, Nat.not_lt] at hcount
    cases h
    split
    case isTrue => exact fun hnil => hw (List.mem_of_mem_eraseIdx hnil)
    case isFalse hpart =>
      intro hnil
      rcases List.mem_or_eq_of_mem_set hnil with hnil | hnil
      · exact hw hnil
      · have hlen := congrArg List.length hnil
        rw [List.length_nil, List.length_drop] at hlen
        omega

/-- Unless there is none, the oldest operation can be completed. -/
theorem partialWrite_whole (hw : Filled writes) (hne : writes ≠ []) :
    ∃ w ∈ writes, partialWrite writes 0 w.length = some (w, writes.tail) := by
  obtain ⟨w, ws, rfl⟩ := List.exists_cons_of_ne_nil hne
  have hpos : w ≠ [] := fun hnil => hw (hnil ▸ List.mem_cons_self)
  refine ⟨w, List.mem_cons_self, ?_⟩
  simp [partialWrite, hpos]

variable {s t : Server} {c d : Nat} {msg : Bytes} {order : List Nat}

/-- What a broadcast adds to the operations of a connection. -/
theorem writeAll_writes (ho : order.Nodup) : ((Server.writeAll msg c s order).conn d).writes =
    (s.conn d).writes ++ if d ∈ order ∧ d ≠ c then [s.message c msg] else [] := by
  induction order generalizing s with
  | nil => simp [Server.writeAll]
  | cons e order ih =>
    obtain ⟨he, ho⟩ := List.nodup_cons.mp ho
    rw [Server.writeAll, List.foldl_cons]
    by_cases hec : e ≠ c
    · have hm := ((Frame.refl s).write e (s.message c msg)).message c msg
      rw [if_pos hec]
      refine (ih ho).trans ?_
      rw [hm]
      by_cases hed : d = e
      · subst hed
        simp [he, hec, Server.write]
      · simp [hed, Server.write]
    · rw [if_neg hec]
      refine (ih ho).trans ?_
      obtain rfl := not_not.mp hec
      by_cases hed : d = e
      · simp [hed]
      · simp [hed]

theorem handleRead_writes (ho : order.Nodup) : ((s.handleRead c order).conn d).writes = (s.conn d).writes ++
    if d ∈ order ∧ d ≠ c then [s.message c (takeLine newline (s.conn c).buffer).1] else [] := by
  let line := (takeLine newline (s.conn c).buffer).1
  let s₁ : Server :=
    { s.setConn c { s.conn c with buffer := (takeLine newline (s.conn c).buffer).2 } with
      broadcasts := s.broadcasts ++ [(c, line)] }
  have hall : ((Server.writeAll line c s₁ order).conn d).writes =
      (s₁.conn d).writes ++ if d ∈ order ∧ d ≠ c then [s₁.message c line] else [] := writeAll_writes ho
  have hconn : ((s.handleRead c order).conn d).writes = ((Server.writeAll line c s₁ order).conn d).writes := by
    by_cases hd : d = c
    · subst hd
      have hself : (s.handleRead d order).conn d = ((Server.writeAll line d s₁ order).conn d).readRequest :=
        Server.setConn_self
      rw [hself]
      rfl
    · exact congrArg Connection.writes (Server.setConn_of_ne hd)
  have hfirst : (s₁.conn d).writes = (s.conn d).writes := by
    by_cases hd : d = c
    · subst hd
      have hself : s₁.conn d = { s.conn d with buffer := (takeLine newline (s.conn d).buffer).2 } := Server.setConn_self
      rw [hself]
    · exact congrArg Connection.writes (Server.setConn_of_ne hd)
  have hmessage : s₁.message c line = s.message c line := by simp [s₁, Server.message]
  rw [hconn, hall, hfirst, hmessage]

/-- Bytes that a client reads go to its buffer. -/
theorem Client.data_buffer {s t : Client} {bytes : Bytes} (h : s.step (.data bytes) = some t) :
    t.buffer = s.buffer ++ bytes ∧ t.writes = s.writes := by
  cases Client.step_inv h with
  | data => exact ⟨rfl, rfl⟩

theorem data_conn {bytes : Bytes} (h : s.step (.data c bytes) = some t) :
    (t.conn c).buffer = (s.conn c).buffer ++ bytes ∧ (t.conn c).writes = (s.conn c).writes ∧
      ∀ d, d ≠ c → t.conn d = s.conn d := by
  cases step_inv h with
  | data =>
    refine ⟨?_, ?_, fun d hd => Server.setConn_of_ne hd⟩
    · rw [Server.setConn_self]
      rfl
    · rw [Server.setConn_self]
      rfl

/-- A partial write moves the bytes to the socket. -/
theorem writeSome_conn (h : s.step (.writeSome c op count) = some t) : op < (s.conn c).writes.length ∧
    ∃ bytes, 0 < bytes.length ∧
    t.sent = Function.update s.sent c (s.sent c ++ bytes) ∧ t.received = s.received ∧
    (t.conn c).buffer = (s.conn c).buffer ∧
    bytes.length + (t.conn c).writes.flatten.length = (s.conn c).writes.flatten.length ∧
    ∀ d, d ≠ c → t.conn d = s.conn d := by
  cases step_inv h with
  | writeSome _ _ _ bytes writes _ hw =>
    obtain ⟨hpos, hlen⟩ := partialWrite_length hw
    refine ⟨partialWrite_lt hw, bytes, hpos, rfl, rfl, ?_, ?_, fun d hd => Server.setConn_of_ne hd⟩
    · rw [Server.setConn_self]
    · rw [Server.setConn_self]
      exact hlen

/-- Errors of the server and new connections. -/
theorem server_quiet {a : Label} (hM : Members s) (h : s.step a = some t)
    (ha : ∀ c order, a ≠ .handleRead c order) (hdata : ∀ c bytes, a ≠ .data c bytes)
    (hwrite : ∀ c op count, a ≠ .writeSome c op count) : t.sent = s.sent ∧ ∀ i,
      (t.conn i).buffer = (s.conn i).buffer ∧ (t.conn i).writes.flatten.length ≤ (s.conn i).writes.flatten.length := by
  have hset : ∀ {c conn}, conn.buffer = (s.conn c).buffer →
      conn.writes.flatten.length ≤ (s.conn c).writes.flatten.length → ∀ i,
        ((s.setConn c conn).conn i).buffer = (s.conn i).buffer ∧
        ((s.setConn c conn).conn i).writes.flatten.length ≤ (s.conn i).writes.flatten.length := by
    intro c conn hbuffer hwrites i
    by_cases hi : i = c
    · subst hi
      rw [Server.setConn_self]
      exact ⟨hbuffer, hwrites⟩
    · rw [Server.setConn_of_ne hi]
      exact ⟨rfl, Nat.le_refl _⟩
  cases step_inv h with
  | handleRead c order => exact absurd rfl (ha c order)
  | data c bytes => exact absurd rfl (hdata c bytes)
  | writeSome c op count => exact absurd rfl (hwrite c op count)
  | acceptError => exact ⟨rfl, fun i => ⟨rfl, Nat.le_refl _⟩⟩
  | readError c => exact ⟨rfl, hset rfl (Nat.le_refl _)⟩
  | writeError c op hop => exact ⟨rfl, hset rfl (eraseIdx_length hop)⟩
  | accept =>
    refine ⟨rfl, fun i => ?_⟩
    by_cases hi : i = s.accepted
    · subst hi
      rw [Server.accept_self, hM.fresh s.accepted (Nat.le_refl _)]
      exact ⟨rfl, Nat.le_refl _⟩
    · rw [Server.accept_of_ne hi]
      exact ⟨rfl, Nat.le_refl _⟩

/-! ## Connections without an error -/

theorem server_filled {a : Label} (hM : Members s) (hs : ∀ i, Filled (s.conn i).writes) (h : s.step a = some t) (i : Nat) :
    Filled (t.conn i).writes := by
  have hset : ∀ {c conn}, Filled conn.writes → Filled ((s.setConn c conn).conn i).writes := by
    intro c conn hconn
    by_cases hi : i = c
    · subst hi
      rw [Server.setConn_self]
      exact hconn
    · rw [Server.setConn_of_ne hi]
      exact hs i
  cases step_inv h with
  | acceptError => exact hs i
  | data c bytes => exact hset (hs c)
  | readError c => exact hset (hs c)
  | writeSome c op count bytes writes _ hw => exact hset (partialWrite_filled (hs c) hw)
  | writeError c op => exact hset fun hnil => hs c (List.mem_of_mem_eraseIdx hnil)
  | accept =>
    by_cases hi : i = s.accepted
    · subst hi
      rw [Server.accept_self]
      exact List.not_mem_nil
    · rw [Server.accept_of_ne hi]
      exact hs i
  | handleRead c order _ _ ho =>
    rw [handleRead_writes (ho.nodup_iff.mpr hM.nodup), Filled, List.mem_append, not_or]
    refine ⟨hs i, ?_⟩
    split
    · simp [Server.message]
    · exact List.not_mem_nil

/-- No read and no write of a connection has failed. -/
def Connection.Intact (conn : Connection) : Prop := conn.broken = false ∧ conn.reading ≠ .ended

theorem server_intact {a : Label} (hs : ∀ i, (s.conn i).Intact) (h : s.step a = some t) (hread : ∀ c, a ≠ .readError c)
    (hwrite : ∀ c op, a ≠ .writeError c op) (i : Nat) : (t.conn i).Intact := by
  have hset : ∀ {c conn}, conn.Intact → ((s.setConn c conn).conn i).Intact := by
    intro c conn hconn
    by_cases hi : i = c
    · subst hi
      rw [Server.setConn_self]
      exact hconn
    · rw [Server.setConn_of_ne hi]
      exact hs i
  cases step_inv h with
  | acceptError => exact hs i
  | readError c => exact absurd rfl (hread c)
  | writeError c op => exact absurd rfl (hwrite c op)
  | data c bytes => exact hset ⟨(hs c).1, readRequest_reading _⟩
  | writeSome c op count => exact hset (hs c)
  | accept =>
    by_cases hi : i = s.accepted
    · subst hi
      rw [Server.accept_self]
      exact ⟨rfl, readRequest_reading _⟩
    · rw [Server.accept_of_ne hi]
      exact hs i
  | handleRead c order =>
    have hH := handleRead_handled s c order
    by_cases hi : i = c
    · subst hi
      obtain ⟨writes, hself⟩ := hH.self
      rw [hself]
      exact ⟨(hs i).1, readRequest_reading _⟩
    · obtain ⟨writes, hconn⟩ := hH.conn i hi
      rw [hconn]
      exact hs i

namespace Client

variable {s t : Client} {a : Label}

theorem step_filled (hs : Filled s.writes) (h : s.step a = some t) : Filled t.writes := by
  cases step_inv h with
  | data | handleRead | readError => exact hs
  | typeLine line =>
    intro hnil
    rcases List.mem_append.mp hnil with hnil | hnil
    · exact hs hnil
    · simp at hnil
  | writeSome op count bytes writes _ hw => exact partialWrite_filled hs hw
  | writeError op => exact fun hnil => hs (List.mem_of_mem_eraseIdx hnil)
  | exit => exact List.not_mem_nil

/-- No read and no write of a client has failed, and its input has not ended. -/
def Intact (s : Client) : Prop := s.broken = false ∧ s.reading ≠ .ended

theorem read_reading (s : Client) : s.read.reading ≠ .ended := by
  simp only [read]
  split <;> simp

theorem step_intact (hs : s.Intact) (h : s.step a = some t) (hread : a ≠ .readError) (hwrite : ∀ op, a ≠ .writeError op)
    (hexit : a ≠ .exit) : t.Intact := by
  cases step_inv h with
  | typeLine | writeSome => exact hs
  | data | handleRead => exact ⟨hs.1, read_reading _⟩
  | readError => exact absurd rfl hread
  | writeError op => exact absurd rfl (hwrite op)
  | exit => exact absurd rfl hexit

end Client

namespace Network

variable {n : Nat} {s t : Network n} {a : Label n} {as : List (Label n)} {c : Fin n}

/-- What a byte is worth that the server has read: its line becomes up to `n` messages, each with 17 bytes more. -/
def byteCost (n : Nat) : Nat := 51 * n + 1

/-- What the bytes on the way from and to client `c` are worth. -/
def load (s : Network n) (c : Fin n) : Nat :=
  (byteCost n + 2) * (s.client c).writes.flatten.length + (byteCost n + 1) * (s.up c).length +
    byteCost n * (s.server.conn c).buffer.length + 3 * (s.server.conn c).writes.flatten.length +
    2 * (s.down c).length + (s.client c).buffer.length

def work (s : Network n) : Nat := ∑ c, s.load c

/-- Steps that bring no bytes and do not fail, with partial writes of the oldest operation. -/
def Label.Own : Label n → Prop
  | .toServer .. | .toClient .. | .server (.handleRead ..) | .client _ .handleRead => True
  | .server (.writeSome _ op _) | .client _ (.writeSome op _) => op = 0
  | _ => False

/-- What a line typed is worth, and the step of each label that is not the network's own. -/
def Label.cost : Label n → Nat
  | .client _ (.typeLine line) => (byteCost n + 2) * (line.length + 1) + 1
  | .accept | .server .acceptError | .server (.readError _) | .server (.writeError ..) | .client _ .readError |
    .client _ (.writeError _) | .client _ .exit => 1
  | _ => 0

theorem own_cost (ha : a.Own) : a.cost = 0 := by
  cases a with
  | accept => exact ha.elim
  | toServer | toClient => rfl
  | server a =>
    cases a with
    | accept | acceptError | data | readError | writeError => exact ha.elim
    | handleRead | writeSome => rfl
  | client c a =>
    cases a with
    | typeLine | data | readError | writeError | exit => exact ha.elim
    | handleRead | writeSome => rfl

theorem own_oldestFirst (ha : a.Own) : oldestFirst s a := by
  cases a with
  | accept | toServer | toClient => trivial
  | server a =>
    cases a with
    | writeSome => exact ha
    | accept | acceptError | data | handleRead | readError | writeError => trivial
  | client c a =>
    cases a with
    | writeSome => exact ha
    | typeLine | data | handleRead | readError | writeError | exit => trivial

/-! ## Every step is paid for -/

theorem load_congr (hclient : t.client c = s.client c)
    (hbuffer : (t.server.conn c).buffer = (s.server.conn c).buffer)
    (hwrites : (t.server.conn c).writes = (s.server.conn c).writes)
    (hreceived : t.server.received c = s.server.received c) (hsent : t.server.sent c = s.server.sent c) :
    t.load c = s.load c := by
  simp only [load, up, down, hclient, hbuffer, hwrites, hreceived, hsent]

/-- Only the bytes of one client move. -/
theorem work_one {k : Nat} (hothers : ∀ d, d ≠ c → t.load d = s.load d) (hc : t.load c + 1 ≤ s.load c + k) :
    t.work + 1 ≤ s.work + k := by
  have hsum := sum_others c hothers
  unfold work
  omega

/-- Bytes that one side reads leave the flight. -/
theorem drop_length {l m : Bytes} {k : Nat} (hk : k ≤ (m.drop l.length).length) :
    (m.drop (l ++ (m.drop l.length).take k).length).length + k = (m.drop l.length).length := by
  rw [List.length_append, List.length_take_of_le hk, List.length_drop, List.length_drop]
  rw [List.length_drop] at hk
  omega

/-- Bytes that one side writes join the flight. -/
theorem append_drop_length {l m : Bytes} (h : l <+: m) (bytes : Bytes) :
    ((m ++ bytes).drop l.length).length = (m.drop l.length).length + bytes.length := by
  rw [List.drop_append_of_le_length h.length_le, List.length_append]

theorem toServer_pays {count : Nat} (h : s.step (.toServer c count) = some t) : t.work + 1 ≤ s.work := by
  obtain ⟨⟨hpos, hle⟩, hserver, hclient, -⟩ := step_inv h
  have hsame : t.client = s.client := (Option.some.inj hclient).symm
  obtain ⟨hreceived, hsent⟩ := step_data hserver
  obtain ⟨hbuffer, hwrites, hconn⟩ := data_conn hserver
  refine work_one (k := 0) (c := c) (fun d hd => ?_) ?_
  · have hne := Fin.val_ne_of_ne hd
    exact load_congr (by rw [hsame]) (by rw [hconn _ hne]) (by rw [hconn _ hne])
      (by rw [hreceived, Function.update_of_ne hne]) (by rw [hsent])
  · have hlen : ((s.up c).take count).length = count := List.length_take_of_le hle
    have hup : (t.up c).length + count = (s.up c).length := by
      rw [up, hsame, hreceived, Function.update_self]
      exact drop_length hle
    have hdown : t.down c = s.down c := by rw [down, hsent, hsame, down]
    simp only [load, hsame, hwrites, hbuffer, hdown, ← hup, List.length_append, hlen, Nat.mul_add, Nat.add_mul]
    omega

theorem toClient_pays {count : Nat} (h : s.step (.toClient c count) = some t) : t.work + 1 ≤ s.work := by
  obtain ⟨⟨hpos, hle⟩, hserver, hclient, -⟩ := step_inv h
  have hsame : t.server = s.server := (Option.some.inj hserver).symm
  obtain ⟨u, hu, hmoved⟩ := client_moves hclient
  refine work_one (k := 0) (c := c) (fun d hd => ?_) ?_
  · exact load_congr (by rw [hmoved, Function.update_of_ne hd]) (by rw [hsame]) (by rw [hsame]) (by rw [hsame]) (by rw [hsame])
  · have hc : t.client c = u := by rw [hmoved, Function.update_self]
    have hlen : ((s.down c).take count).length = count := List.length_take_of_le hle
    obtain ⟨hreceived, hsent⟩ := Client.step_data hu
    obtain ⟨hbuffer, hwrites⟩ := Client.data_buffer hu
    have hdown : (t.down c).length + count = (s.down c).length := by
      rw [down, hsame, hc, hreceived]
      exact drop_length hle
    have hup : t.up c = s.up c := by rw [up, hsame, hc, hsent, up]
    simp only [load, hsame, hc, hwrites, hbuffer, hup, ← hdown, List.length_append, hlen, Nat.mul_add]
    omega

theorem writeSome_pays {i op count : Nat} (hs : Sound s) (hn : s.server.accepted ≤ n)
    (h : s.step (.server (.writeSome i op count)) = some t) : t.work + 1 ≤ s.work := by
  obtain ⟨-, hserver, hclient, -⟩ := step_inv h
  have hsame : t.client = s.client := (Option.some.inj hclient).symm
  obtain ⟨hop, bytes, hpos, hsent, hreceived, hbuffer, hwrites, hconn⟩ := writeSome_conn hserver
  have hi : i < n := Nat.lt_of_lt_of_le (hs.members.accepted_of_writes hop) hn
  obtain ⟨c, rfl⟩ : ∃ c : Fin n, c.val = i := ⟨⟨i, hi⟩, rfl⟩
  refine work_one (k := 0) (c := c) (fun d hd => ?_) ?_
  · have hne := Fin.val_ne_of_ne hd
    exact load_congr (by rw [hsame]) (by rw [hconn _ hne]) (by rw [hconn _ hne]) (by rw [hreceived])
      (by rw [hsent, Function.update_of_ne hne])
  · have hup : t.up c = s.up c := by rw [up, hreceived, hsame, up]
    have hdown : (t.down c).length = (s.down c).length + bytes.length := by
      rw [down, hsent, hsame, Function.update_self]
      exact append_drop_length (hs.carried.down c) bytes
    simp only [load, hsame, hbuffer, hup, hdown, ← hwrites, Nat.mul_add]
    omega

/-- The bytes that a line becomes are paid for by those it had. -/
theorem line_cost (n k : Nat) : n * (3 * (k + 17)) + 1 ≤ byteCost n * (k + 1) := by
  have hleft : n * (3 * (k + 17)) = 3 * (n * k) + 51 * n := by ring
  have hright : byteCost n * (k + 1) = 51 * (n * k) + 51 * n + k + 1 := by
    unfold byteCost
    ring
  omega

theorem handleRead_pays {i : Nat} {order : List Nat} (hs : Sound s) (hn : s.server.accepted ≤ n)
    (h : s.step (.server (.handleRead i order)) = some t) : t.work + 1 ≤ s.work := by
  obtain ⟨-, hserver, hclient, -⟩ := step_inv h
  have hsame : t.client = s.client := (Option.some.inj hclient).symm
  have hstep : s.server.step (.handleRead i order) = some t.server := hserver
  obtain ⟨hi, hline, hnew⟩ : i < n ∧ newline ∈ (s.server.conn i).buffer ∧ t.server = s.server.handleRead i order := by
    obtain ⟨⟨hi, hready, -⟩, hnew⟩ := Option.ite_none_right_eq_some.mp hstep
    exact ⟨Nat.lt_of_lt_of_le hi hn, (hs.read.ready i).mp hready, (Option.some.inj hnew).symm⟩
  obtain ⟨c, rfl⟩ : ∃ c : Fin n, c.val = i := ⟨⟨i, hi⟩, rfl⟩
  obtain ⟨ho, hH⟩ := step_handleRead hstep
  have hnodup := ho.nodup_iff.mpr hs.members.nodup
  let line := (takeLine newline (s.server.conn c).buffer).1
  have hmessage : (s.server.message c line).length = line.length + 17 := by
    have hfrom : (ascii "from ").length = 5 := rfl
    have hlogin : (ascii "Anonimous").length = 9 := rfl
    have hcolon : (ascii ": ").length = 2 := rfl
    rw [Server.message, hs.named]
    simp only [List.length_append, List.length_singleton, hfrom, hlogin, hcolon]
    omega
  have hbuffer : (t.server.conn c).buffer.length + (line.length + 1) = (s.server.conn c).buffer.length := by
    obtain ⟨writes, hself⟩ := hH.self
    have hlen := congrArg List.length (takeLine_eq hline)
    rw [List.length_append, List.length_cons] at hlen
    rw [hself, hlen]
    show (takeLine newline (s.server.conn c).buffer).2.length + (line.length + 1) = line.length + _
    omega
  have hload : ∀ d, t.load d + (if d = c then byteCost n * (line.length + 1) else 0) ≤
      s.load d + 3 * (line.length + 17) := by
    intro d
    have hup : t.up d = s.up d := by rw [up, hsame, hH.received, up]
    have hdown : t.down d = s.down d := by rw [down, hsame, hH.sent, down]
    have hwrites := handleRead_writes (s := s.server) (c := c) (d := d) hnodup
    rw [← hnew] at hwrites
    by_cases hd : d = c
    · subst hd
      rw [if_neg (fun h => h.2 rfl), List.append_nil] at hwrites
      rw [if_pos rfl]
      simp only [load, hsame, hup, hdown, hwrites, ← hbuffer, Nat.mul_add]
      omega
    · obtain ⟨writes, hconn⟩ := hH.conn d (Fin.val_ne_of_ne hd)
      have hkept : (t.server.conn d).buffer = (s.server.conn d).buffer := by rw [hconn]
      have hgrows : (t.server.conn d).writes.flatten.length ≤ (s.server.conn d).writes.flatten.length + (line.length + 17) := by
        rw [hwrites, List.flatten_append, List.length_append]
        split
        · simp only [List.flatten_singleton]
          exact Nat.add_le_add_left hmessage.le _
        · exact Nat.le_add_right _ _
      rw [if_neg hd]
      simp only [load, hsame, hup, hdown, hkept]
      omega
  have hsum := Finset.sum_le_sum fun d (_ : d ∈ Finset.univ) => hload d
  simp only [Finset.sum_add_distrib, Finset.sum_ite_eq', Finset.mem_univ, if_true, Finset.sum_const, Finset.card_univ,
    Fintype.card_fin, smul_eq_mul] at hsum
  have hcost := line_cost n line.length
  unfold work
  omega

theorem client_pays {b : Client.Label} (hs : Sound s) (h : s.step (.client c b) = some t) :
    t.work + 1 ≤ s.work + (Label.client c b).cost := by
  obtain ⟨henabled, hserver, hclient, -⟩ := step_inv h
  have hsame : t.server = s.server := (Option.some.inj hserver).symm
  obtain ⟨u, hu, hmoved⟩ := client_moves hclient
  have hc : t.client c = u := by rw [hmoved, Function.update_self]
  refine work_one (c := c) (fun d hd => ?_) ?_
  · exact load_congr (by rw [hmoved, Function.update_of_ne hd]) (by rw [hsame]) (by rw [hsame]) (by rw [hsame]) (by rw [hsame])
  have hdown : (s.client c).received = u.received → t.down c = s.down c := by
    intro hreceived
    rw [down, hsame, hc, ← hreceived, down]
  have hup : (s.client c).sent = u.sent → t.up c = s.up c := by
    intro hsent
    rw [up, hsame, hc, ← hsent, up]
  simp only [load, hsame, hc]
  cases Client.step_inv hu with
  | typeLine line =>
    rw [hdown rfl, hup rfl]
    simp only [Client.sendMessage, List.flatten_append, List.flatten_singleton, List.length_append,
      List.length_singleton, Nat.mul_add, Label.cost]
    omega
  | data => exact henabled.elim
  | handleRead hready =>
    have hlen := congrArg List.length (takeLine_eq ((hs.client c).ready hready))
    rw [List.length_append, List.length_cons] at hlen
    rw [hdown rfl, hup rfl, hlen]
    simp only [Client.handleRead, Client.read, Label.cost]
    omega
  | readError =>
    rw [hdown rfl, hup rfl]
    simp only [Label.cost]
    omega
  | writeSome op count bytes writes _ hw =>
    obtain ⟨hpos, hlen⟩ := partialWrite_length hw
    have hflight : (t.up c).length = (s.up c).length + bytes.length := by
      rw [up, hsame, hc]
      exact append_drop_length (hs.carried.up c) bytes
    rw [hdown rfl, hflight, ← hlen]
    simp only [Nat.mul_add, Nat.add_mul, Label.cost]
    omega
  | writeError op hop =>
    have hlen := Nat.mul_le_mul_left (byteCost n + 2) (eraseIdx_length hop)
    rw [hdown rfl, hup rfl]
    simp only [Label.cost]
    omega
  | exit =>
    rw [hdown rfl, hup rfl]
    simp only [Label.cost, List.flatten_nil, List.length_nil, Nat.mul_zero]
    omega

/-- The server moves no byte, or drops some. -/
theorem quiet_pays (hclient : t.client = s.client) (hreceived : t.server.received = s.server.received)
    (hsent : t.server.sent = s.server.sent) (hbuffer : ∀ i, (t.server.conn i).buffer = (s.server.conn i).buffer)
    (hwrites : ∀ i, (t.server.conn i).writes.flatten.length ≤ (s.server.conn i).writes.flatten.length) :
    t.work ≤ s.work := by
  refine Finset.sum_le_sum fun d _ => ?_
  have hd := hwrites d
  simp only [load, up, down, hclient, hreceived, hsent, hbuffer]
  omega

theorem step_pays (hs : Sound s) (hn : s.server.accepted ≤ n) (h : s.step a = some t) :
    t.work + 1 ≤ s.work + a.cost := by
  have hquiet : ∀ {b}, s.serverLabel a = some b → s.clientLabel a = none → (∀ c order, b ≠ .handleRead c order) →
      (∀ c bytes, b ≠ .data c bytes) → (∀ c op count, b ≠ .writeSome c op count) → t.work + 1 ≤ s.work + 1 := by
    intro b hb hnone hread hdata hwrite
    obtain ⟨-, hserver, hclient, -⟩ := step_inv h
    rw [hb] at hserver
    rw [hnone] at hclient
    obtain ⟨hsent, hconn⟩ := server_quiet hs.members hserver hread hdata hwrite
    exact Nat.succ_le_succ (quiet_pays (Option.some.inj hclient).symm (step_received hdata hserver) hsent
      (fun i => (hconn i).1) fun i => (hconn i).2)
  cases a with
  | toServer c count => exact toServer_pays h
  | toClient c count => exact toClient_pays h
  | client c b => exact client_pays hs h
  | accept => exact hquiet rfl rfl (by simp) (by simp) (by simp)
  | server b =>
    cases b with
    | handleRead i order => exact handleRead_pays hs hn h
    | writeSome i op count => exact writeSome_pays hs hn h
    | accept | data => exact (step_inv h).1.elim
    | acceptError | readError | writeError => exact hquiet rfl rfl (by simp) (by simp) (by simp)

/-- No more are accepted than there are clients. -/
theorem step_accepted (hn : s.server.accepted ≤ n) (h : s.step a = some t) : t.server.accepted ≤ n := by
  obtain ⟨henabled, hserver, -⟩ := step_inv h
  cases a with
  | accept =>
    rw [← Option.some.inj hserver]
    exact henabled
  | toServer c count =>
    have hdata : s.server.step (.data c ((s.up c).take count)) = some t.server := hserver
    rw [Messenger.step_accepted (by simp) hdata]
    exact hn
  | server b =>
    rw [Messenger.step_accepted (a := b) ?_ hserver]
    · exact hn
    · rintro rfl
      exact henabled
  | toClient | client =>
    rw [← Option.some.inj hserver]
    exact hn

theorem network_pays : Pays (step (n := n)) (fun s => Sound s ∧ s.server.accepted ≤ n) work Label.cost where
  inv _ _ _ hs h := ⟨step_sound hs.1 h, step_accepted hs.2 h⟩
  pays _ _ _ hs h := step_pays hs.1 hs.2 h

/-! ## A network at rest -/

structure Intact (s : Network n) : Prop where
  server : ∀ i, (s.server.conn i).Intact
  client : ∀ c, (s.client c).Intact

/-- No operation under way has nothing left to write, on either side. -/
structure AllFilled (s : Network n) : Prop where
  server : ∀ i, Filled (s.server.conn i).writes
  client : ∀ c, Filled (s.client c).writes

theorem step_allFilled (hM : Members s.server) (hs : AllFilled s) (h : s.step a = some t) : AllFilled t := by
  obtain ⟨-, hserver, hclient, -⟩ := step_inv h
  constructor
  · cases hlabel : s.serverLabel a with
    | none =>
      rw [hlabel] at hserver
      rw [← Option.some.inj hserver]
      exact hs.server
    | some b =>
      rw [hlabel] at hserver
      exact server_filled hM hs.server hserver
  · exact stepMaybe_inv (I := fun s : Fin n → Client => ∀ c, Filled (s c).writes)
      (fun _ _ _ hI hstep => interleave_inv (I := fun s : Client => Filled s.writes)
        (fun _ _ _ => Client.step_filled) hI hstep) hs.client hclient

theorem run_allFilled (h : run step (init n) as = some s) : AllFilled s := by
  have hinit : AllFilled (init n) := ⟨fun _ => List.not_mem_nil, fun _ => List.not_mem_nil⟩
  have hboth : Sound s ∧ AllFilled s := by
    refine run_inv (I := fun s : Network n => Sound s ∧ AllFilled s) ?_ ⟨init_sound, hinit⟩ h
    rintro s a t ⟨hs, hf⟩ hstep
    exact ⟨step_sound hs hstep, step_allFilled hs.members hf hstep⟩
  exact hboth.2

/-- The handlers that get an error, and the end of a client's input. -/
def Label.Fails : Label n → Prop
  | .server (.readError _) | .server (.writeError ..) | .client _ .readError | .client _ (.writeError _) |
    .client _ .exit => True
  | _ => False

theorem own_fails (ha : a.Own) : ¬a.Fails := by
  cases a with
  | accept | toServer | toClient => exact id
  | server b =>
    cases b with
    | accept | acceptError | data | handleRead | writeSome => exact id
    | readError | writeError => exact ha.elim
  | client c b =>
    cases b with
    | typeLine | data | handleRead | writeSome => exact id
    | readError | writeError | exit => exact ha.elim

theorem serverLabel_fails {b : Messenger.Label} (ha : ¬a.Fails) (hb : s.serverLabel a = some b) :
    (∀ i, b ≠ .readError i) ∧ ∀ i op, b ≠ .writeError i op := by
  cases a with
  | toClient | client => cases hb
  | accept | toServer =>
    cases hb
    simp
  | server =>
    cases hb
    refine ⟨?_, ?_⟩
    · rintro i rfl
      exact ha trivial
    · rintro i op rfl
      exact ha trivial

theorem clientLabel_fails {l : Fin n × Client.Label} (ha : ¬a.Fails) (hl : s.clientLabel a = some l) :
    l.2 ≠ .readError ∧ (∀ op, l.2 ≠ .writeError op) ∧ l.2 ≠ .exit := by
  cases a with
  | accept | toServer | server => cases hl
  | toClient =>
    cases hl
    simp
  | client c b =>
    cases hl
    refine ⟨?_, ?_, ?_⟩
    · rintro rfl
      exact ha trivial
    · rintro op rfl
      exact ha trivial
    · rintro rfl
      exact ha trivial

theorem step_intact (ha : ¬a.Fails) (hs : Intact s) (h : s.step a = some t) : Intact t := by
  obtain ⟨-, hserver, hclient, -⟩ := step_inv h
  constructor
  · cases hlabel : s.serverLabel a with
    | none =>
      rw [hlabel] at hserver
      rw [← Option.some.inj hserver]
      exact hs.server
    | some b =>
      rw [hlabel] at hserver
      obtain ⟨hread, hwrite⟩ := serverLabel_fails ha hlabel
      exact server_intact hs.server hserver hread hwrite
  · cases hlabel : s.clientLabel a with
    | none =>
      rw [hlabel] at hclient
      rw [← Option.some.inj hclient]
      exact hs.client
    | some l =>
      rw [hlabel] at hclient
      obtain ⟨hread, hwrite, hexit⟩ := clientLabel_fails ha hlabel
      obtain ⟨u, hu, hupdate⟩ := client_moves hclient
      intro d
      rw [hupdate]
      by_cases hd : d = l.1
      · subst hd
        rw [Function.update_self]
        exact Client.step_intact (hs.client l.1) hu hread hwrite hexit
      · rw [Function.update_of_ne hd]
        exact hs.client d

theorem run_intact (h : run step (init n) as = some s) (hfails : ∀ a ∈ as, ¬a.Fails) : Intact s := by
  have hended : Reading.waiting ≠ .ended := by decide
  have hinit : Intact (init n) := ⟨fun _ => ⟨rfl, hended⟩, fun _ => ⟨rfl, hended⟩⟩
  exact own_inv (fun _ _ _ => step_intact) hfails hinit h

theorem step_ne_none (henabled : s.Enabled a) (hserver : stepMaybe Server.step s.server (s.serverLabel a) ≠ none)
    (hclient : stepMaybe (interleave Client.step) s.client (s.clientLabel a) ≠ none) : s.step a ≠ none := by
  obtain ⟨server, hserver⟩ := Option.ne_none_iff_exists'.mp hserver
  obtain ⟨client, hclient⟩ := Option.ne_none_iff_exists'.mp hclient
  rw [step, if_pos henabled, hserver, hclient]
  exact Option.some_ne_none _

/-- No bytes are left in a client, nor on the way to it. -/
theorem rest_client (hs : Sound s) (hf : AllFilled s) (hi : Intact s) (hrest : AtRest step Label.Own s) (c : Fin n) :
    (s.client c).writes = [] ∧ newline ∉ (s.client c).buffer ∧ (s.client c).received = s.server.sent c := by
  obtain ⟨hbroken, hended⟩ := hi.client c
  have hready : (s.client c).reading ≠ .ready := by
    intro hready
    refine step_ne_none (a := .client c .handleRead) trivial (Option.some_ne_none _) ?_ (hrest (.client c .handleRead) trivial)
    simp [clientLabel, stepMaybe, interleave, Client.step, hready]
  have hwaiting : (s.client c).reading = .waiting := by
    cases hreading : (s.client c).reading with
    | waiting => rfl
    | ready => exact absurd hreading hready
    | ended => exact absurd hreading hended
  refine ⟨?_, (hs.client c).waiting hwaiting, ?_⟩
  · by_contra hne
    obtain ⟨w, -, hw⟩ := partialWrite_whole (hf.client c) hne
    refine step_ne_none (a := .client c (.writeSome 0 w.length)) trivial (Option.some_ne_none _) ?_
      (hrest (.client c (.writeSome 0 w.length)) rfl)
    simp [clientLabel, stepMaybe, interleave, Client.step, hbroken, hw]
  · refine (hs.carried.down c).eq_of_length_le ?_
    by_contra hlt
    have hpos : 0 < (s.down c).length := by
      rw [down, List.length_drop]
      omega
    refine step_ne_none (a := .toClient c (s.down c).length) ⟨hpos, Nat.le_refl _⟩ (Option.some_ne_none _) ?_
      (hrest (.toClient c (s.down c).length) trivial)
    simp [clientLabel, stepMaybe, interleave, Client.step, hwaiting]

/-- No bytes are left in an accepted connection, nor on the way to it. -/
theorem rest_server (hs : Sound s) (hf : AllFilled s) (hi : Intact s) (hrest : AtRest step Label.Own s) {c : Fin n}
    (hc : c < s.server.accepted) :
    (s.server.conn c).writes = [] ∧ newline ∉ (s.server.conn c).buffer ∧ s.server.received c = (s.client c).sent := by
  obtain ⟨hbroken, hended⟩ := hi.server c
  have hready : (s.server.conn c).reading ≠ .ready := by
    intro hready
    refine step_ne_none (a := .server (.handleRead c s.server.connects)) trivial ?_ (Option.some_ne_none _)
      (hrest (.server (.handleRead c s.server.connects)) trivial)
    simp [serverLabel, stepMaybe, Server.step, hready, hc]
  have hwaiting : (s.server.conn c).reading = .waiting := by
    cases hreading : (s.server.conn c).reading with
    | waiting => rfl
    | ready => exact absurd hreading hready
    | ended => exact absurd hreading hended
  refine ⟨?_, fun hmem => hready ((hs.read.ready c).mpr hmem), ?_⟩
  · by_contra hne
    obtain ⟨w, -, hw⟩ := partialWrite_whole (hf.server c) hne
    refine step_ne_none (a := .server (.writeSome c 0 w.length)) trivial ?_ (Option.some_ne_none _)
      (hrest (.server (.writeSome c 0 w.length)) rfl)
    simp [serverLabel, stepMaybe, Server.step, hbroken, hw]
  · refine (hs.carried.up c).eq_of_length_le ?_
    by_contra hlt
    have hpos : 0 < (s.up c).length := by
      rw [up, List.length_drop]
      omega
    refine step_ne_none (a := .toServer c (s.up c).length) ⟨hpos, Nat.le_refl _⟩ ?_ (Option.some_ne_none _)
      (hrest (.toServer c (s.up c).length) trivial)
    simp [serverLabel, stepMaybe, Server.step, hwaiting, hc]

/-- The network's own steps accept nobody, and nobody types. -/
theorem own_typed (ha : a.Own) (h : s.step a = some t) :
    t.server.accepted = s.server.accepted ∧ ∀ d, (t.client d).typed = (s.client d).typed := by
  obtain ⟨-, hserver, hclient, -⟩ := step_inv h
  have hmoved : ∀ {c b}, s.clientLabel a = some (c, b) → (∀ line, b ≠ .typeLine line) →
      ∀ d, (t.client d).typed = (s.client d).typed := by
    intro c b hlabel htype d
    rw [hlabel] at hclient
    obtain ⟨u, hu, hupdate⟩ := client_moves hclient
    rw [hupdate]
    by_cases hd : d = c
    · subst hd
      rw [Function.update_self]
      cases Client.step_inv hu with
      | typeLine line => exact absurd rfl (htype line)
      | data | handleRead | readError | writeSome | writeError | exit => rfl
    · rw [Function.update_of_ne hd]
  cases a with
  | accept => exact ha.elim
  | toServer c count =>
    have hdata : s.server.step (.data c ((s.up c).take count)) = some t.server := hserver
    exact ⟨Messenger.step_accepted (by simp) hdata, fun d => by rw [← Option.some.inj hclient]⟩
  | toClient c count => exact ⟨by rw [← Option.some.inj hserver], hmoved rfl (by simp)⟩
  | server b =>
    have hstep : s.server.step b = some t.server := hserver
    cases b with
    | accept | acceptError | data | readError | writeError => exact ha.elim
    | handleRead | writeSome =>
      exact ⟨Messenger.step_accepted (by simp) hstep, fun d => by rw [← Option.some.inj hclient]⟩
  | client c b =>
    cases b with
    | typeLine | data | readError | writeError | exit => exact ha.elim
    | handleRead | writeSome => exact ⟨by rw [← Option.some.inj hserver], hmoved rfl (by simp)⟩

/-- **At rest every line has arrived.** -/
theorem rest_delivered (hs : Sound s) (ho : Orderly s) (hf : AllFilled s) (hi : Intact s)
    (hrest : AtRest step Label.Own s) {c : Fin n} (hc : c < s.server.accepted) :
    (s.client c).printed = (s.since c).map (fun b => ascii "Server: " ++ shown b) ∧
    s.server.linesOf c = (s.client c).typed := by
  obtain ⟨hwrites, hbuffer, hreceived⟩ := rest_client hs hf hi hrest c
  obtain ⟨hwrites', hbuffer', hreceived'⟩ := rest_server hs hf hi hrest hc
  constructor
  · obtain ⟨ls, hls, hprinted, hstream⟩ := (hs.client c).stream
    have hsent := ho.server.left c (hi.server c).1
    rw [hwrites', List.flatten_nil, List.append_nil, ← hreceived, messagesTo_eq hs, if_pos hc, hstream] at hsent
    have hlines := lines_unique hls (shown_notMem hs) hbuffer hsent
    rw [hprinted, hlines, List.map_map]
    rfl
  · have hsent := (ho.client c).left (hi.client c).1
    rw [hwrites, List.flatten_nil, List.append_nil, ← hreceived', hs.read.stream] at hsent
    refine lines_unique (fun l hl => ?_) (hs.client c).typed hbuffer' hsent
    obtain ⟨b, hb, rfl⟩ := List.mem_map.mp hl
    exact hs.read.whole b (List.mem_filter.mp hb).1

/-- **Every line typed is printed at every other client, once.** From every state that is reached without a failed read
or write and without the end of an input, with partial writes of the oldest operation of their socket, the network left alone has a bounded number of
steps in any order; it reaches a state of rest; and in every state of rest that it reaches each accepted client has
printed all lines broadcast on behalf of the others since it was accepted, in order, and the lines broadcast on behalf of
a client are those typed there. -/
theorem network_delivers (h : run step (init n) as = some s) (hok : Meets step oldestFirst (init n) as)
    (hfails : ∀ a ∈ as, ¬a.Fails) :
    (∀ bs t, (∀ b ∈ bs, b.Own) → run step s bs = some t → bs.length ≤ s.work) ∧
    (∃ bs t, (∀ b ∈ bs, b.Own) ∧ run step s bs = some t ∧ AtRest step Label.Own t) ∧
    ∀ bs t, (∀ b ∈ bs, b.Own) → run step s bs = some t → AtRest step Label.Own t →
      ∀ c : Fin n, c < s.server.accepted →
        (t.client c).printed = (t.since c).map (fun b => ascii "Server: " ++ shown b) ∧
        t.server.linesOf c = (s.client c).typed := by
  have hs := run_sound h
  have hn : s.server.accepted ≤ n :=
    run_inv (I := fun s : Network n => s.server.accepted ≤ n) (fun _ _ _ => step_accepted) (Nat.zero_le n) h
  refine ⟨fun bs t hbs ht => ?_, ?_, fun bs t hbs ht hrest c hc => ?_⟩
  · exact own_length_le network_pays (fun _ => own_cost) ⟨hs, hn⟩ hbs ht
  · exact exists_rest network_pays (fun _ => own_cost) s ⟨hs, hn⟩
  · have hall : run step (init n) (as ++ bs) = some t := run_append.mpr ⟨s, h, ht⟩
    have hmeets : Meets step oldestFirst (init n) (as ++ bs) := by
      refine meets_append.mpr ⟨hok, fun u _ => meets_of_split fun as₁ b as₂ v hsplit _ => own_oldestFirst (hbs b ?_)⟩
      rw [hsplit]
      exact List.mem_append_right _ List.mem_cons_self
    have hintact : Intact t := run_intact hall fun b hb => by
      rcases List.mem_append.mp hb with hb | hb
      · exact hfails b hb
      · exact own_fails (hbs b hb)
    have hkept : t.server.accepted = s.server.accepted ∧ ∀ d, (t.client d).typed = (s.client d).typed := by
      refine own_inv (J := fun t : Network n => t.server.accepted = s.server.accepted ∧
        ∀ d, (t.client d).typed = (s.client d).typed) ?_ hbs ⟨rfl, fun _ => rfl⟩ ht
      rintro u b v hb ⟨haccepted, htyped⟩ hstep
      obtain ⟨haccepted', htyped'⟩ := own_typed hb hstep
      exact ⟨haccepted'.trans haccepted, fun d => (htyped' d).trans (htyped d)⟩
    obtain ⟨hprinted, hlines⟩ := rest_delivered (run_sound hall) (run_orderly hall hmeets) (run_allFilled hall) hintact
      hrest (hkept.1 ▸ hc)
    exact ⟨hprinted, hlines.trans (hkept.2 c)⟩

/-- A line is typed, and the network is left alone. -/
theorem typedLine_delivered : ∃ s, run step (init 2) [.accept, .accept, .client talker (.typeLine (ascii "hi"))] = some s ∧
    ∃ bs t, run step s bs = some t ∧ t.server.linesOf talker = [ascii "hi"] ∧
      (t.client listener).printed = (t.since listener).map (fun b => ascii "Server: " ++ shown b) := by
  have hrun : run step (init 2) [.accept, .accept, .client talker (.typeLine (ascii "hi"))] = some _ := rfl
  have hfails : ∀ a ∈ [.accept, .accept, .client talker (.typeLine (ascii "hi"))], ¬Label.Fails a := by
    simp [Label.Fails]
  obtain ⟨-, ⟨bs, t, hbs, ht, hrest⟩, hdelivered⟩ := network_delivers hrun (by decide) hfails
  exact ⟨_, hrun, bs, t, ht, (hdelivered bs t hbs ht hrest talker (by decide)).2,
    (hdelivered bs t hbs ht hrest listener (by decide)).1⟩

end Network

end HighLoad.Messenger
