import HighLoad.Messenger.Members

/-!
# The byte stream of a client

`Connection::write` starts an `async_write` at once, whether or not another one is under way on the socket. Until a
write fails, what a client has received and what its operations have still to write is what was passed to `write` for
it, provided that the partial writes are those of the oldest operation (`Whole`). The client then receives whole
messages, in order (`sent_of_oldestFirst`). Partial writes of a later operation cut into the message of an earlier one
(`cutIn_mixed`).
-/

namespace HighLoad.Messenger

open ByteString Lines Transition

variable {s s' : Server} {a : Label} {as : List Label} {c d op count : Nat} {msg bytes : Bytes} {order : List Nat}
  {conn : Connection}

/-- The messages passed to `Connection::write` for `c`, one after the other. -/
def Server.messagesTo (s : Server) (c : Nat) : Bytes := (s.written.filter (·.1 = c)).flatMap (·.2)

/-- Every partial write is one of the oldest operation under way on its socket. -/
def oldestFirst (_ : Server) : Label → Prop
  | .writeSome _ op _ => op = 0
  | _ => True

instance (s : Server) (a : Label) : Decidable (oldestFirst s a) := by
  cases a <;> unfold oldestFirst <;> infer_instance

/-! ## Calls of `write` -/

theorem messagesTo_write : (s.write c msg).messagesTo d = s.messagesTo d ++ if c = d then msg else [] := by
  by_cases h : c = d <;> simp [Server.messagesTo, Server.write, h]

/-- A partial write of the oldest operation writes the first of the bytes that are left. -/
theorem partialWrite_oldest {writes writes' : List Bytes} (h : partialWrite writes 0 count = some (bytes, writes')) :
    bytes ++ writes'.flatten = writes.flatten := by
  cases writes with
  | nil => cases h
  | cons rest writes =>
    simp only [partialWrite, List.getElem?_cons_zero, Option.ite_none_left_eq_some, Option.some.injEq,
      Prod.mk.injEq] at h
    obtain ⟨-, rfl, rfl⟩ := h
    by_cases hl : rest.length = count
    · simp [hl, List.take_of_length_le (Nat.le_of_eq hl)]
    · simp [hl, ← List.append_assoc]

/-! ## Whole messages -/

/-- What a client has received are the first bytes of the messages to it; until a write fails, the rest is what its
operations have still to write. -/
structure Whole (s : Server) : Prop where
  sent : ∀ c, s.sent c <+: s.messagesTo c
  left : ∀ c, (s.conn c).broken = false → s.sent c ++ (s.conn c).writes.flatten = s.messagesTo c

theorem init_whole : Whole .init := ⟨fun _ => List.nil_prefix, fun _ _ => rfl⟩

/-- Each call of `write` adds its message at the end. -/
theorem write_whole (hW : Whole s) (c : Nat) (msg : Bytes) : Whole (s.write c msg) := by
  refine ⟨fun d => ?_, fun d hd => ?_⟩
  · rw [messagesTo_write]
    exact (hW.sent d).trans (List.prefix_append _ _)
  · rw [messagesTo_write]
    by_cases hdc : c = d
    · subst hdc
      have hb : (s.conn c).broken = false := by simpa [Server.write] using hd
      have hleft := hW.left c hb
      simp [Server.write, ← hleft]
    · have hne : d ≠ c := Ne.symm hdc
      simp only [Server.write, Server.setConn_of_ne hne] at hd ⊢
      simpa [hdc] using hW.left d hd

/-- Replacing a connection by one with the same operations. -/
theorem setConn_whole (hW : Whole s) (hw : conn.writes = (s.conn c).writes) (hb : conn.broken = (s.conn c).broken) :
    Whole (s.setConn c conn) := by
  refine ⟨hW.sent, fun d hd => ?_⟩
  by_cases hdc : d = c
  · subst hdc
    rw [Server.setConn_self] at hd ⊢
    rw [hw]
    exact hW.left d (hb ▸ hd)
  · rw [Server.setConn_of_ne hdc] at hd ⊢
    exact hW.left d hd

theorem handleRead_whole (hW : Whole s) : Whole (s.handleRead c order) := by
  let line := (takeLine newline (s.conn c).buffer).1
  let s₁ : Server :=
    { s.setConn c { s.conn c with buffer := (takeLine newline (s.conn c).buffer).2 } with
      broadcasts := s.broadcasts ++ [(c, line)] }
  have hline : Whole (s.setConn c { s.conn c with buffer := (takeLine newline (s.conn c).buffer).2 }) :=
    setConn_whole hW rfl rfl
  have hs₁ : Whole s₁ := ⟨hline.sent, hline.left⟩
  have hall : Whole (Server.writeAll line c s₁ order) :=
    writeAll_induct (I := Whole) (fun _ d msg hW => write_whole hW d msg) hs₁
  exact setConn_whole hall rfl rfl

/-- Every step but a partial write of a later operation keeps the messages whole. -/
theorem step_whole (hW : Whole s) (hM : Members s) (hok : oldestFirst s a) (h : s.step a = some s') : Whole s' := by
  cases step_inv h with
  | accept =>
    refine ⟨hW.sent, fun d hd => ?_⟩
    by_cases hda : d = s.accepted
    · subst hda
      have hmake := hM.fresh s.accepted (Nat.le_refl _)
      have hleft := hW.left s.accepted (by rw [hmake]; rfl)
      rw [hmake] at hleft
      rw [Server.accept_self]
      exact hleft
    · rw [Server.accept_of_ne hda] at hd ⊢
      exact hW.left d hd
  | acceptError => exact hW
  | data c bytes =>
    have hc : Whole (s.setConn c { s.conn c with buffer := (s.conn c).buffer ++ bytes }.readRequest) :=
      setConn_whole hW rfl rfl
    exact ⟨hc.sent, hc.left⟩
  | handleRead c order => exact handleRead_whole hW
  | readError c => exact setConn_whole hW rfl rfl
  | writeSome c op count bytes writes hb hw =>
    obtain rfl : op = 0 := hok
    have hleft : (s.sent c ++ bytes) ++ writes.flatten = s.messagesTo c := by
      rw [List.append_assoc, partialWrite_oldest hw]
      exact hW.left c hb
    refine ⟨fun d => ?_, fun d hd => ?_⟩
    · by_cases hdc : d = c
      · subst hdc
        simp only [Function.update_self]
        exact ⟨writes.flatten, hleft⟩
      · simp only [Function.update_of_ne hdc]
        exact hW.sent d
    · by_cases hdc : d = c
      · subst hdc
        simp only [Server.setConn_self, Function.update_self]
        exact hleft
      · simp only [Server.setConn_of_ne hdc, Function.update_of_ne hdc] at hd ⊢
        exact hW.left d hd
  | writeError c op =>
    refine ⟨hW.sent, fun d hd => ?_⟩
    by_cases hdc : d = c
    · subst hdc
      simp at hd
    · rw [Server.setConn_of_ne hdc] at hd ⊢
      exact hW.left d hd

/-- **When no message is cut into.** In every run whose partial writes are those of the oldest operation of their
socket, what a client has received is at every moment a prefix of the messages to it, in the order of the broadcasts. -/
theorem sent_of_oldestFirst (h : run Server.step .init as = some s) (hok : Meets Server.step oldestFirst .init as)
    (c : Nat) : s.sent c <+: s.messagesTo c := by
  have hI : Whole s ∧ Members s := by
    refine meets_inv (I := fun s => Whole s ∧ Members s) ?_ ⟨init_whole, init_members⟩ hok h
    rintro s a t ⟨hW, hM⟩ hok hs
    exact ⟨step_whole hW hM hok hs, step_members hM hs⟩
  exact hI.1.sent c

/-- Two lines of client 0; the two messages to client 1 are under way together. -/
def twoMessages : List Label :=
  [.accept, .accept, .data 0 (ascii "a\nb\n"), .handleRead 0 [1, 0], .handleRead 0 [1, 0]]

/-- A short write of each. -/
def cutIn : List Label := twoMessages ++ [.writeSome 1 0 5, .writeSome 1 1 5]

theorem cutIn_mixed : ∃ s, run Server.step .init cutIn = some s ∧ s.sent 1 = ascii "from from " ∧
    s.messagesTo 1 = ascii "from Anonimous: a\nfrom Anonimous: b\n" ∧ ¬s.sent 1 <+: s.messagesTo 1 := by
  refine ⟨_, rfl, by decide, by decide, by decide⟩

/-- A short write of the first message, the rest of it, and a short write of the second. -/
theorem twoMessages_whole : ∃ s,
    run Server.step .init (twoMessages ++ [.writeSome 1 0 5, .writeSome 1 0 13, .writeSome 1 0 7]) = some s ∧
    s.sent 1 = ascii "from Anonimous: a\nfrom An" ∧ s.sent 1 <+: s.messagesTo 1 := by
  have hrun : run Server.step .init (twoMessages ++ [.writeSome 1 0 5, .writeSome 1 0 13, .writeSome 1 0 7]) =
    some _ := rfl
  exact ⟨_, hrun, by decide, sent_of_oldestFirst hrun (by decide) 1⟩

end HighLoad.Messenger
