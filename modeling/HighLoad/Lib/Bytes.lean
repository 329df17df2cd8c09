import Mathlib.Algebra.Ring.Nat
import Mathlib.Data.List.Induction

/-!
# Byte strings

`ascii` are the bytes of a text literal. `decimal` prints a number and `parseDecimal` reads it back
(`parseDecimal_decimal`); what `k` digits stand for is below `10 ^ k` (`digitsValue_lt`). `toLE k n` are the `k` bytes
of `n`, the least significant first, and `ofLE` reads them back: the two are inverse on numbers below `256 ^ k` and on
`k` bytes (`ofLE_toLE`, `toLE_ofLE`).
-/

namespace ByteString

abbrev Bytes := List UInt8

def ascii (s : String) : Bytes := s.toList.map fun c => UInt8.ofNat c.toNat

/-! ## Decimal numbers -/

/-- The decimal digits of `n`, the most significant first. -/
def decimal (n : Nat) : Bytes := (Nat.toDigits 10 n).map fun c => UInt8.ofNat c.toNat

def isDigit (b : UInt8) : Bool := 48 ≤ b.toNat && b.toNat ≤ 57

/-- `isspace` of the C locale. -/
def isSpace (b : UInt8) : Bool := b == 32 || (9 ≤ b.toNat && b.toNat ≤ 13)

/-- The number that digits stand for. -/
def digitsValue (bs : Bytes) : Nat := bs.foldl (fun n b => 10 * n + (b.toNat - 48)) 0

/-- The number that a nonempty string of digits stands for. -/
def parseDecimal (bs : Bytes) : Option Nat := if bs ≠ [] ∧ bs.all isDigit then some (digitsValue bs) else none

theorem digitsValue_concat (bs : Bytes) (b : UInt8) :
    digitsValue (bs ++ [b]) = 10 * digitsValue bs + (b.toNat - 48) := by
  simp only [digitsValue, List.foldl_append, List.foldl_cons, List.foldl_nil]

theorem isDigit_iff {b : UInt8} : isDigit b ↔ 48 ≤ b.toNat ∧ b.toNat ≤ 57 := by
  simp [isDigit]

/-- What digits stand for. -/
theorem digitsValue_lt {bs : Bytes} (h : ∀ b ∈ bs, isDigit b) : digitsValue bs < 10 ^ bs.length := by
  induction bs using List.reverseRecOn with
  | nil => decide
  | append_singleton bs b ih =>
    have hb := isDigit_iff.mp (h b (List.mem_append_right _ List.mem_cons_self))
    have ih := ih fun b hm => h b (List.mem_append_left _ hm)
    rw [digitsValue_concat, List.length_append, List.length_singleton, pow_succ]
    omega

/-- A digit other than 0 counts. -/
theorem digitsValue_pos {bs : Bytes} (h : ∀ b ∈ bs, isDigit b) (hpos : ∃ b ∈ bs, b ≠ 48) : 1 ≤ digitsValue bs := by
  induction bs using List.reverseRecOn with
  | nil =>
    obtain ⟨b, hb, -⟩ := hpos
    cases hb
  | append_singleton bs c ih =>
    obtain ⟨b, hb, hne⟩ := hpos
    rw [digitsValue_concat]
    rcases List.mem_append.mp hb with hb | hb
    · have ih := ih (fun b hm => h b (List.mem_append_left _ hm)) ⟨b, hb, hne⟩
      omega
    · obtain rfl := List.mem_singleton.mp hb
      have hdigit := isDigit_iff.mp (h b (List.mem_append_right _ List.mem_cons_self))
      have hne' : b.toNat ≠ 48 := fun he => hne (UInt8.toNat_inj.mp he)
      omega

/-- Zeros do not count. -/
theorem digitsValue_zeros {bs : Bytes} (h : ∀ b ∈ bs, b = 48) : digitsValue bs = 0 := by
  induction bs using List.reverseRecOn with
  | nil => rfl
  | append_singleton bs b ih =>
    rw [digitsValue_concat, ih fun b hb => h b (List.mem_append_left _ hb),
      h b (List.mem_append_right _ List.mem_cons_self)]
    rfl

/-- A digit survives the narrowing to a byte. -/
theorem toNat_digit {c : Char} (hc : c.isDigit) :
    (UInt8.ofNat c.toNat).toNat = c.toNat ∧ 48 ≤ c.toNat ∧ c.toNat ≤ 57 := by
  simp only [Char.isDigit, ge_iff_le, UInt32.le_iff_toNat_le, Bool.and_eq_true, decide_eq_true_eq] at hc
  have h₁ : 48 ≤ c.toNat := hc.1
  have h₂ : c.toNat ≤ 57 := hc.2
  have hlt : c.toNat < 256 := by omega
  exact ⟨by simp [Nat.mod_eq_of_lt hlt], h₁, h₂⟩

/-- The value of the digit bytes is that of the digits. -/
theorem foldl_digits : ∀ {cs : List Char} (_ : ∀ c ∈ cs, c.isDigit) (n : Nat),
    (cs.map fun c => UInt8.ofNat c.toNat).foldl (fun n b => 10 * n + (b.toNat - 48)) n = Nat.ofDigitChars 10 cs n
  | [], _, n => by simp
  | c :: cs, h, n => by
    have hc := (toNat_digit (h c List.mem_cons_self)).1
    rw [List.map_cons, List.foldl_cons, Nat.ofDigitChars_cons, hc]
    exact foldl_digits (fun d hd => h d (List.mem_cons_of_mem _ hd)) _

theorem isDigit_decimal {n : Nat} {b : UInt8} (hb : b ∈ decimal n) : isDigit b := by
  obtain ⟨c, hc, rfl⟩ := List.mem_map.mp hb
  have h := toNat_digit (Nat.isDigit_of_mem_toDigits (by decide) (by decide) hc)
  unfold isDigit
  rw [h.1]
  simp [h.2]

/-- **Decimal round trip.** -/
theorem parseDecimal_decimal (n : Nat) : parseDecimal (decimal n) = some n := by
  have hne : decimal n ≠ [] := by simp [decimal, Nat.toDigits_ne_nil]
  have hall : (decimal n).all isDigit := List.all_eq_true.mpr fun b hb => isDigit_decimal hb
  have hdigits : ∀ c ∈ Nat.toDigits 10 n, c.isDigit := fun c hc =>
    Nat.isDigit_of_mem_toDigits (by decide) (by decide) hc
  have hval := foldl_digits hdigits 0
  rw [Nat.ofDigitChars_ten_toDigits] at hval
  unfold parseDecimal
  rw [if_pos ⟨hne, hall⟩]
  exact congrArg some hval

/-! ## Little-endian numbers -/

/-- The `k` low bytes of `n`, the least significant first. -/
def toLE : Nat → Nat → Bytes
  | 0, _ => []
  | k + 1, n => UInt8.ofNat n :: toLE k (n / 256)

def ofLE : Bytes → Nat
  | [] => 0
  | b :: bs => b.toNat + 256 * ofLE bs

@[simp] theorem length_toLE : ∀ k n, (toLE k n).length = k
  | 0, _ => rfl
  | k + 1, n => by simp [toLE, length_toLE k]

theorem ofLE_lt : ∀ bs : Bytes, ofLE bs < 256 ^ bs.length
  | [] => by simp [ofLE]
  | b :: bs => by
    have hb : b.toNat < 256 := b.toNat_lt
    have ih := ofLE_lt bs
    rw [ofLE, List.length_cons, pow_succ]
    omega

theorem ofLE_toLE : ∀ {k n : Nat}, n < 256 ^ k → ofLE (toLE k n) = n
  | 0, n, h => by
    have hn : n = 0 := by simpa using h
    rw [hn, toLE, ofLE]
  | k + 1, n, h => by
    rw [pow_succ] at h
    have hq : n / 256 < 256 ^ k := by omega
    have hr : (UInt8.ofNat n).toNat = n % 256 := by simp
    rw [toLE, ofLE, ofLE_toLE hq, hr]
    omega

theorem toLE_ofLE : ∀ bs : Bytes, toLE bs.length (ofLE bs) = bs
  | [] => rfl
  | b :: bs => by
    have hb : b.toNat < 256 := b.toNat_lt
    have hq : (b.toNat + 256 * ofLE bs) / 256 = ofLE bs := by omega
    have hr : UInt8.ofNat (b.toNat + 256 * ofLE bs) = b := by
      apply UInt8.toNat_inj.mp
      rw [UInt8.toNat_ofNat']
      omega
    rw [List.length_cons, ofLE, toLE, hq, hr, toLE_ofLE bs]

end ByteString
