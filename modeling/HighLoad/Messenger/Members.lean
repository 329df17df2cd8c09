import HighLoad.Messenger.Server

/-!
# Who is in `connects`

A connection is inserted when it is accepted, and nothing removes it: the set holds every connection ever accepted
(`run_members`). It is the set of the live ones exactly as long as no read has failed (`connects_live_iff`); after the
first disconnect, broadcasts write to a dead connection.
-/

namespace HighLoad.Messenger

open ByteString Lines Transition

variable {s s' : Server} {a : Label} {as : List Label} {c d : Nat} {order : List Nat}

/-- Accepted, and its chain of reads has not ended with an error. -/
def Server.Live (s : Server) (c : Nat) : Prop := c < s.accepted ∧ (s.conn c).reading ≠ .ended

/-- The set holds the live connections, and a broadcast writes to live connections only. -/
def Server.OnlyLive (s : Server) : Prop :=
  (∀ c, c ∈ s.connects ↔ s.Live c) ∧
    ∀ c order s', s.step (.handleRead c order) = some s' → ∀ w ∈ s'.written.drop s.written.length, s.Live w.1

/-- The set holds every connection ever accepted, once; the others are as at the start. -/
structure Members (s : Server) : Prop where
  nodup : s.connects.Nodup
  mem : ∀ c, c ∈ s.connects ↔ c < s.accepted
  fresh : ∀ c, s.accepted ≤ c → s.conn c = .make

theorem init_members : Members .init := ⟨List.nodup_nil, fun c => by simp [Server.init], fun _ _ => rfl⟩

theorem setConn_members (hI : Members s) {conn : Connection} (hc : c < s.accepted) : Members (s.setConn c conn) := by
  refine ⟨hI.nodup, hI.mem, fun d hd => ?_⟩
  have hdc : d ≠ c := (Nat.lt_of_lt_of_le hc hd).ne'
  rw [Server.setConn_of_ne hdc]
  exact hI.fresh d hd

/-- A connection with an operation under way has been accepted. -/
theorem Members.accepted_of_writes (hI : Members s) {op : Nat} (h : op < (s.conn c).writes.length) :
    c < s.accepted := by
  by_contra hc
  rw [hI.fresh c (Nat.le_of_not_lt hc)] at h
  exact absurd h (Nat.not_lt_zero op)

/-- A partial write is one of an operation under way. -/
theorem partialWrite_lt {writes writes' : List Bytes} {op count : Nat} {bytes : Bytes}
    (h : partialWrite writes op count = some (bytes, writes')) : op < writes.length := by
  by_contra hop
  rw [partialWrite, List.getElem?_eq_none (Nat.le_of_not_lt hop)] at h
  cases h

theorem step_members (hI : Members s) (h : s.step a = some s') : Members s' := by
  cases step_inv h with
  | accept =>
    refine ⟨List.nodup_cons.mpr ⟨?_, hI.nodup⟩, fun c => ?_, fun c hc => ?_⟩
    · rw [hI.mem]; omega
    · simp only [Server.accept, List.mem_cons, hI.mem]
      omega
    · rw [Server.accept_of_ne (Nat.lt_of_succ_le hc).ne']
      exact hI.fresh c (Nat.le_of_succ_le hc)
  | acceptError => exact hI
  | data c bytes hc =>
    have hs : Members (s.setConn c { s.conn c with buffer := (s.conn c).buffer ++ bytes }.readRequest) :=
      setConn_members hI hc
    exact ⟨hs.nodup, hs.mem, hs.fresh⟩
  | handleRead c order hc _ ho =>
    have hs := handleRead_handled s c order
    refine ⟨by rw [hs.connects]; exact hI.nodup, by rw [hs.connects, hs.accepted]; exact hI.mem, fun d hd => ?_⟩
    rw [hs.accepted] at hd
    have hdc : d ≠ c := (Nat.lt_of_lt_of_le hc hd).ne'
    have hdo : d ∉ order := by
      rw [ho.mem_iff, hI.mem]
      exact Nat.not_lt.mpr hd
    rw [handleRead_conn hdc hdo]
    exact hI.fresh d hd
  | readError c hc => exact setConn_members hI hc
  | writeSome c op count bytes writes _ hw =>
    have hs : Members (s.setConn c { s.conn c with writes }) :=
      setConn_members hI (hI.accepted_of_writes (partialWrite_lt hw))
    exact ⟨hs.nodup, hs.mem, hs.fresh⟩
  | writeError c op ho => exact setConn_members hI (hI.accepted_of_writes ho)

theorem run_members (h : run Server.step .init as = some s) : Members s :=
  run_inv (fun _ _ _ hI hs => step_members hI hs) init_members h

/-! ## Ended reads -/

/-- The reads that have ended are those that failed, of connections accepted before. -/
structure EndedInv (as : List Label) (s : Server) : Prop where
  ended : ∀ c, (s.conn c).reading = .ended ↔ .readError c ∈ as
  accepted : ∀ c, .readError c ∈ as → c < s.accepted

theorem init_endedInv : EndedInv [] .init :=
  ⟨fun c => by simp [Server.init, Connection.make], fun c h => by cases h⟩

/-- A new read is not one that has ended. -/
theorem readRequest_reading (conn : Connection) : conn.readRequest.reading ≠ .ended := by
  simp only [Connection.readRequest]
  split <;> simp

/-- A step that neither accepts nor fails a read keeps what has ended. -/
theorem endedInv_of_reading (hI : EndedInv as s) (hacc : s'.accepted = s.accepted)
    (hread : ∀ c, (s'.conn c).reading = .ended ↔ (s.conn c).reading = .ended) (ha : ∀ c, a ≠ .readError c) :
    EndedInv (as ++ [a]) s' := by
  have hmem : ∀ c, .readError c ∈ as ++ [a] ↔ .readError c ∈ as := by
    intro c
    rw [List.mem_append, List.mem_singleton]
    exact or_iff_left (Ne.symm (ha c))
  refine ⟨fun c => ?_, fun c hc => ?_⟩
  · rw [hmem, hread, hI.ended]
  · rw [hacc]
    exact hI.accepted c ((hmem c).mp hc)

/-- Replacing one connection by one whose read has ended exactly if it had. -/
theorem setConn_ended {conn : Connection} (hc : conn.reading = .ended ↔ (s.conn c).reading = .ended) (d : Nat) :
    ((s.setConn c conn).conn d).reading = .ended ↔ (s.conn d).reading = .ended := by
  by_cases hd : d = c
  · subst hd
    simpa using hc
  · simp [hd]

theorem step_endedInv (hI : EndedInv as s) (h : s.step a = some s') : EndedInv (as ++ [a]) s' := by
  cases step_inv h with
  | accept =>
    have hnot : .readError s.accepted ∉ as := fun hm => absurd (hI.accepted _ hm) (Nat.lt_irrefl _)
    refine ⟨fun c => ?_, fun c hc => ?_⟩
    · by_cases hc : c = s.accepted
      · subst hc
        simp [readRequest_reading, hnot]
      · simpa [hc] using hI.ended c
    · have hlt := hI.accepted c (by simpa using hc)
      simp only [Server.accept]
      omega
  | acceptError => exact endedInv_of_reading hI rfl (fun _ => Iff.rfl) (by simp)
  | data c bytes _ hr =>
    refine endedInv_of_reading hI rfl (setConn_ended ?_) (by simp)
    simp [readRequest_reading, hr]
  | handleRead c order _ hr =>
    have hs := handleRead_handled s c order
    refine endedInv_of_reading hI hs.accepted (fun d => ?_) (by simp)
    by_cases hd : d = c
    · subst hd
      obtain ⟨writes, hw⟩ := hs.self
      rw [hw]
      simp [readRequest_reading, hr]
    · obtain ⟨writes, hw⟩ := hs.conn d hd
      rw [hw]
  | readError c hacc hr =>
    refine ⟨fun d => ?_, fun d hd => ?_⟩
    · by_cases hd : d = c
      · subst hd
        simp
      · simpa [hd] using hI.ended d
    · rcases List.mem_append.mp hd with hd | hd
      · exact hI.accepted d hd
      · simp only [List.mem_singleton, Label.readError.injEq] at hd
        exact hd ▸ hacc
  | writeSome c => exact endedInv_of_reading hI rfl (setConn_ended Iff.rfl) (by simp)
  | writeError c => exact endedInv_of_reading hI rfl (setConn_ended Iff.rfl) (by simp)

theorem run_endedInv (h : run Server.step .init as = some s) : EndedInv as s :=
  run_hist init_endedInv (fun _ _ _ _ hI hs => step_endedInv hI hs) h

/-- **When only live clients are registered.** In every reachable state, `connects` is the set of live connections, and
broadcasts write to live connections only, if and only if no read has failed so far. -/
theorem connects_live_iff (h : run Server.step .init as = some s) : s.OnlyLive ↔ ∀ c, .readError c ∉ as := by
  have hM := run_members h
  have hE := run_endedInv h
  constructor
  · rintro ⟨hlive, -⟩ c hc
    have hmem := (hM.mem c).mpr (hE.accepted c hc)
    exact ((hlive c).mp hmem).2 ((hE.ended c).mpr hc)
  · intro hno
    have hlive : ∀ c, c ∈ s.connects ↔ s.Live c := by
      intro c
      rw [hM.mem, Server.Live, ne_eq, hE.ended]
      exact (and_iff_left (hno c)).symm
    refine ⟨hlive, fun c order s' hs w hw => ?_⟩
    cases step_inv hs with
    | handleRead _ _ _ _ ho =>
      rw [(handleRead_handled s c order).written, List.drop_left] at hw
      obtain ⟨d, hd, rfl⟩ := List.mem_map.mp hw
      exact (hlive d).mp (ho.mem_iff.mp (List.mem_filter.mp hd).1)

/-- Client 1 disconnects, then client 0 sends a line. -/
def deadClient : List Label :=
  [.accept, .accept, .readError 1, .data 0 (ascii "hi\n"), .handleRead 0 [1, 0]]

/-- The line is written to the dead connection, which stays in the set. -/
theorem deadClient_written : ∃ s, run Server.step .init deadClient = some s ∧ 1 ∈ s.connects ∧ ¬s.Live 1 ∧
    s.written = [(1, ascii "from Anonimous: hi\n")] ∧ ¬s.OnlyLive := by
  refine ⟨_, rfl, by decide, fun h => h.2 rfl, rfl, fun h => ?_⟩
  exact ((h.1 1).mp (by decide)).2 rfl

/-- Two clients, both alive. -/
theorem liveClients_onlyLive : ∃ s, run Server.step .init [.accept, .accept, .data 0 (ascii "hi\n")] = some s ∧
    s.OnlyLive := by
  have hrun : run Server.step .init [.accept, .accept, .data 0 (ascii "hi\n")] = some _ := rfl
  exact ⟨_, hrun, (connects_live_iff hrun).mpr (by simp)⟩

end HighLoad.Messenger
