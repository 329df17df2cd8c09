import HighLoad.Lib.Bytes

/-!
# HTTP messages as bytes

A `Message` is a status line, header lines and a body; its lines contain no CR and its header names no colon, so the
bytes of a message can be read in one way only (`Message.bytes_injective`): a line ends at its first CR, a name at its
first colon, and the header block at the first empty line. `Framed` says what a receiver needs to delimit a response
that closes its connection: one `Content-Length`, the decimal number of body bytes, and `Connection: close`.
-/

namespace HttpMessage

open ByteString

def crlf : Bytes := [13, 10]

/-! ## Lines -/

/-- A number is printed on one line. -/
theorem cr_notMem_decimal (n : Nat) : 13 ∉ decimal n := by
  intro h
  exact absurd (isDigit_decimal h) (by decide)

/-- A list is cut in one way at the first occurrence of `a`. -/
theorem append_cons_inj {α : Type*} {a : α} : ∀ {l₁ l₂ r₁ r₂ : List α}, a ∉ l₁ → a ∉ l₂ →
    l₁ ++ a :: r₁ = l₂ ++ a :: r₂ → l₁ = l₂ ∧ r₁ = r₂
  | [], [], _, _, _, _, h => ⟨rfl, (List.cons.inj h).2⟩
  | [], b :: l₂, _, _, _, h₂, h => absurd ((List.cons.inj h).1 ▸ List.mem_cons_self) h₂
  | b :: l₁, [], _, _, h₁, _, h => absurd ((List.cons.inj h).1 ▸ List.mem_cons_self) h₁
  | b :: l₁, c :: l₂, r₁, r₂, h₁, h₂, h => by
    obtain ⟨rfl, ht⟩ := List.cons.inj h
    have ih := append_cons_inj (fun m => h₁ (List.mem_cons_of_mem _ m)) (fun m => h₂ (List.mem_cons_of_mem _ m)) ht
    exact ⟨by rw [ih.1], ih.2⟩

/-- A line without CR ends where its CRLF starts. -/
theorem line_inj {l₁ l₂ r₁ r₂ : Bytes} (h₁ : 13 ∉ l₁) (h₂ : 13 ∉ l₂)
    (h : l₁ ++ (crlf ++ r₁) = l₂ ++ (crlf ++ r₂)) : l₁ = l₂ ∧ r₁ = r₂ := by
  obtain ⟨hl, hr⟩ := append_cons_inj h₁ h₂ h
  exact ⟨hl, (List.cons.inj hr).2⟩

/-! ## Headers -/

/-- A header line `name: value`. -/
@[ext] structure Header where
  name : Bytes
  value : Bytes
  name_ne : name ≠ []
  colon_notMem : 58 ∉ name
  name_cr : 13 ∉ name
  value_cr : 13 ∉ value

namespace Header

def line (h : Header) : Bytes := h.name ++ (ascii ": " ++ h.value)

theorem cr_notMem_line (h : Header) : 13 ∉ h.line := by
  have hsep : (13 : UInt8) ∉ ascii ": " := by decide
  simp [line, h.name_cr, h.value_cr, hsep]

theorem line_ne (h : Header) : h.line ≠ [] := by simp [line, h.name_ne]

theorem line_injective {h₁ h₂ : Header} (h : h₁.line = h₂.line) : h₁ = h₂ := by
  obtain ⟨hn, hv⟩ := append_cons_inj h₁.colon_notMem h₂.colon_notMem h
  exact Header.ext hn (List.cons.inj hv).2

/-- The lines of a header block. -/
def lines (hs : List Header) : Bytes := hs.flatMap fun h => h.line ++ crlf

theorem lines_cons (h : Header) (hs : List Header) (r : Bytes) :
    lines (h :: hs) ++ r = h.line ++ (crlf ++ (lines hs ++ r)) := by
  simp [lines]

/-- A header block ends at the first empty line. -/
theorem lines_inj : ∀ {hs₁ hs₂ : List Header} {b₁ b₂ : Bytes},
    lines hs₁ ++ (crlf ++ b₁) = lines hs₂ ++ (crlf ++ b₂) → hs₁ = hs₂ ∧ b₁ = b₂
  | [], [], b₁, b₂, h => by
    have h' : ([] : Bytes) ++ (crlf ++ b₁) = [] ++ (crlf ++ b₂) := h
    exact ⟨rfl, (line_inj (by simp) (by simp) h').2⟩
  | [], k :: hs, b₁, b₂, h => by
    have h' : ([] : Bytes) ++ (crlf ++ b₁) = k.line ++ (crlf ++ (lines hs ++ (crlf ++ b₂))) :=
      h.trans (lines_cons k hs _)
    exact absurd (line_inj (by simp) k.cr_notMem_line h').1.symm k.line_ne
  | k :: hs, [], b₁, b₂, h => by
    have h' : k.line ++ (crlf ++ (lines hs ++ (crlf ++ b₁))) = ([] : Bytes) ++ (crlf ++ b₂) :=
      (lines_cons k hs _).symm.trans h
    exact absurd (line_inj k.cr_notMem_line (by simp) h').1 k.line_ne
  | k₁ :: hs₁, k₂ :: hs₂, b₁, b₂, h => by
    rw [lines_cons, lines_cons] at h
    obtain ⟨hk, hr⟩ := line_inj k₁.cr_notMem_line k₂.cr_notMem_line h
    obtain ⟨rfl, rfl⟩ := lines_inj hr
    exact ⟨by rw [line_injective hk], rfl⟩

end Header

/-! ## Messages -/

@[ext] structure Message where
  status : Bytes
  headers : List Header
  body : Bytes
  status_ne : status ≠ []
  status_cr : 13 ∉ status

namespace Message

def bytes (m : Message) : Bytes := m.status ++ (crlf ++ (Header.lines m.headers ++ (crlf ++ m.body)))

/-- **A message is read in one way.** -/
theorem bytes_injective {m₁ m₂ : Message} (h : m₁.bytes = m₂.bytes) : m₁ = m₂ := by
  obtain ⟨hs, hr⟩ := line_inj m₁.status_cr m₂.status_cr h
  obtain ⟨hh, hb⟩ := Header.lines_inj hr
  exact Message.ext hs hh hb

/-- The values of the headers called `name`. -/
def values (m : Message) (name : Bytes) : List Bytes := (m.headers.filter (·.name = name)).map (·.value)

end Message

/-- A message with one `Content-Length`, the number of its body bytes, and `Connection: close`. -/
def Framed (bs : Bytes) : Prop :=
  ∃ m : Message, m.bytes = bs ∧
    (∃ v, m.values (ascii "Content-Length") = [v] ∧ parseDecimal v = some m.body.length) ∧
    ascii "close" ∈ m.values (ascii "Connection")

/-- The framing of a message is read off the message. -/
theorem framed_bytes_iff (m : Message) : Framed m.bytes ↔
    (∃ v, m.values (ascii "Content-Length") = [v] ∧ parseDecimal v = some m.body.length) ∧
      ascii "close" ∈ m.values (ascii "Connection") := by
  constructor
  · rintro ⟨m', hm, h⟩
    rwa [Message.bytes_injective hm] at h
  · intro h
    exact ⟨m, rfl, h⟩

end HttpMessage
