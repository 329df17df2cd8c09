import HighLoad.ImageProcessor.Fabrics

/-!
# The numerals that the checks let through

`IsInteger` looks at every character of its argument and at nothing else, so it lets the empty string through, and
`IsFloat` lets through a dot without a digit as well. On all other strings the checks are exact: they accept the
numerals of `IntegerNumeral` and `DecimalNumeral`, which `atoi` and `atof` read to the end (`validators_exact_iff`).
-/

namespace HighLoad.ImageProcessor

open ByteString

variable {s : Bytes}

/-! ## Numerals -/

/-- One to nine digits. -/
structure IntegerNumeral (s : Bytes) : Prop where
  nonempty : 1 ≤ s.length
  short : s.length ≤ 9
  digits : ∀ b ∈ s, isDigit b

/-- At most nine digits, with at most one dot among them, and at least one digit. -/
structure DecimalNumeral (s : Bytes) : Prop where
  short : s.length ≤ 9
  bytes : ∀ b ∈ s, isDigit b ∨ b = 46
  dots : s.count 46 ≤ 1
  digit : ∃ b ∈ s, isDigit b

/-- What `atof` leaves of a string without signs and exponents: it takes digits, a dot and digits, and nothing at all
where there is no digit among them. -/
def atofRest (s : Bytes) : Bytes :=
  let rest := s.dropWhile isDigit
  if s.takeWhile isDigit = [] ∧ fraction rest = [] then s
  else match rest with
    | 46 :: rest => rest.dropWhile isDigit
    | rest => rest

/-! ## What the checks accept -/

theorem isInteger_iff : isInteger s = .ok () ↔ s.length ≤ 9 ∧ ∀ b ∈ s, isDigit b := by
  constructor
  · exact isInteger_ok
  · rintro ⟨hlen, hdigits⟩
    have hshort : ¬maxIntegerLength < s.length := Nat.not_lt.mpr hlen
    unfold isInteger
    rw [if_neg hshort, if_pos (List.all_eq_true.mpr hdigits)]

theorem isFloat_iff : isFloat s = .ok () ↔ s.length ≤ 9 ∧ (∀ b ∈ s, isDigit b ∨ b = 46) ∧ s.count 46 ≤ 1 := by
  have hall : s.all (fun c => isDigit c || c == 46) ↔ ∀ b ∈ s, isDigit b ∨ b = 46 := by
    simp only [List.all_eq_true, Bool.or_eq_true, beq_iff_eq]
  rw [← hall]
  unfold isFloat
  split
  case isTrue hlong => exact iff_of_false (fun h => by cases h) fun h => Nat.not_lt.mpr h.1 hlong
  case isFalse hshort =>
    have hlen : s.length ≤ 9 := Nat.not_lt.mp hshort
    split
    case isTrue hbad => exact iff_of_false (fun h => by cases h) fun h => by simp [h.2.1] at hbad
    case isFalse hgood =>
      split
      case isTrue hdots => exact iff_of_false (fun h => by cases h) fun h => Nat.not_lt.mpr h.2.2 hdots
      case isFalse hdots =>
        simp only [Bool.not_eq_true', Bool.not_eq_false] at hgood
        exact iff_of_true rfl ⟨hlen, hgood, Nat.not_lt.mp hdots⟩

theorem isNotNull_iff : isNotNull s = .ok () ↔ ∃ b ∈ s, b ≠ 46 ∧ b ≠ 48 := by
  constructor
  · exact isNotNull_ok
  · rintro ⟨b, hb, hne⟩
    refine if_pos (List.any_eq_true.mpr ⟨b, hb, ?_⟩)
    simp only [Bool.and_eq_true, bne_iff_ne, ne_eq]
    exact hne

/-- Digits that are not null have a positive value. -/
theorem isNotNull_digits (h : ∀ b ∈ s, isDigit b) : isNotNull s = .ok () ↔ 0 < digitsValue s := by
  rw [isNotNull_iff]
  constructor
  · rintro ⟨b, hb, -, hne⟩
    exact digitsValue_pos h ⟨b, hb, hne⟩
  · intro hpos
    by_contra hnone
    push Not at hnone
    have hzero : ∀ b ∈ s, b = 48 := by
      intro b hb
      refine hnone b hb fun hdot => ?_
      subst hdot
      exact absurd (h 46 hb) (by decide)
    rw [digitsValue_zeros hzero] at hpos
    exact absurd hpos (Nat.lt_irrefl 0)

/-! ## What `atoi` and `atof` make of them -/

/-- Nine digits stand for less than `10 ^ 9`. -/
theorem digitsValue_short (hlen : s.length ≤ 9) (hdigits : ∀ b ∈ s, isDigit b) : digitsValue s < 10 ^ 9 :=
  (digitsValue_lt hdigits).trans_le (Nat.pow_le_pow_right (by decide) hlen)

theorem IntegerNumeral.value (h : IntegerNumeral s) : atoi s = digitsValue s ∧ digitsValue s < 2 ^ 31 :=
  ⟨atoi_digits h.digits, (digitsValue_short h.short h.digits).trans (by decide)⟩

/-- Digits end at the end of the string or at the one dot, behind which there are digits only. -/
theorem digits_then_dot (hbytes : ∀ b ∈ s, isDigit b ∨ b = 46) (hdots : s.count 46 ≤ 1) :
    s.dropWhile isDigit = [] ∨ ∃ t, s.dropWhile isDigit = 46 :: t ∧ ∀ b ∈ t, isDigit b := by
  cases hrest : s.dropWhile isDigit with
  | nil => exact .inl rfl
  | cons c t =>
    have hsub : (c :: t).Sublist s := hrest ▸ List.dropWhile_sublist isDigit
    have hstop : ¬isDigit c := by
      have hhead := List.head_dropWhile_not isDigit (hrest ▸ List.cons_ne_nil c t)
      simp only [hrest, List.head_cons] at hhead
      simp [hhead]
    obtain rfl : c = 46 := (hbytes c (hsub.subset List.mem_cons_self)).resolve_left hstop
    refine .inr ⟨t, rfl, fun b hb => ?_⟩
    refine (hbytes b (hsub.subset (List.mem_cons_of_mem _ hb))).resolve_right fun hdot => ?_
    subst hdot
    have hcount := hsub.count_le 46
    have hpos : 0 < t.count 46 := List.count_pos_iff.mpr hb
    rw [List.count_cons_self] at hcount
    omega

/-- **`atof` reads a decimal numeral to its end.** -/
theorem DecimalNumeral.consumed (h : DecimalNumeral s) : atofRest s = [] := by
  obtain ⟨b, hb, hdigit⟩ := h.digit
  have hsplit : s.takeWhile isDigit ++ s.dropWhile isDigit = s := List.takeWhile_append_dropWhile
  have hstart : ¬(s.takeWhile isDigit = [] ∧ fraction (s.dropWhile isDigit) = []) := by
    rintro ⟨htake, hfraction⟩
    rw [htake, List.nil_append] at hsplit
    rcases digits_then_dot h.bytes h.dots with hnil | ⟨t, ht, hdigits⟩
    · rw [← hsplit, hnil] at hb
      cases hb
    · rw [ht, fraction, List.takeWhile_eq_self_iff.mpr hdigits] at hfraction
      rw [← hsplit, ht, hfraction] at hb
      obtain rfl := List.mem_singleton.mp hb
      exact absurd hdigit (by decide)
  unfold atofRest
  dsimp only
  rw [if_neg hstart]
  rcases digits_then_dot h.bytes h.dots with hnil | ⟨t, ht, hdigits⟩
  · rw [hnil]
  · rw [ht]
    exact List.dropWhile_eq_nil_iff.mpr hdigits

theorem fraction_digits (t : Bytes) : ∀ b ∈ fraction t, isDigit b := by
  unfold fraction
  split
  case h_1 t => exact fun b hb => List.mem_takeWhile_imp hb
  case h_2 => exact fun b hb => by cases hb

/-- A number that `IsFloat` accepts is below `10 ^ 9`. -/
theorem atof_lt {F : Type} [Field F] [LinearOrder F] [IsStrictOrderedRing F] (h : isFloat s = .ok ()) :
    (atof s : F) < 10 ^ 9 := by
  have hlen : (s.takeWhile isDigit).length ≤ 9 :=
    (List.takeWhile_sublist isDigit).length_le.trans (isFloat_iff.mp h).1
  have hint : digitsValue (s.takeWhile isDigit) + 1 ≤ 10 ^ 9 :=
    digitsValue_short hlen fun b hb => List.mem_takeWhile_imp hb
  have hint' : (digitsValue (s.takeWhile isDigit) : F) + 1 ≤ 10 ^ 9 := by exact_mod_cast hint
  have hfrac : (digitsValue (fraction (s.dropWhile isDigit)) : F) <
      10 ^ (fraction (s.dropWhile isDigit)).length := by
    exact_mod_cast digitsValue_lt (fraction_digits _)
  have hbelow := (div_lt_one (by positivity)).mpr hfrac
  calc (atof s : F) < digitsValue (s.takeWhile isDigit) + 1 := by
        unfold atof
        exact add_lt_add_right hbelow _
    _ ≤ 10 ^ 9 := hint'

/-! ## Where the checks are exact -/

/-- The checks accept exactly the numerals, and `atoi` and `atof` read what they accept. -/
structure ValidatorsExact (s : Bytes) : Prop where
  integers : isInteger s = .ok () ↔ IntegerNumeral s
  value : IntegerNumeral s → atoi s = digitsValue s ∧ digitsValue s < 2 ^ 31
  decimals : isFloat s = .ok () ↔ DecimalNumeral s
  consumed : DecimalNumeral s → atofRest s = []
  positives : ((isInteger s).bind fun _ => isNotNull s) = .ok () ↔ IntegerNumeral s ∧ 0 < digitsValue s

/-- The empty string is not null, so it never gets past both checks. -/
theorem positive_iff : ((isInteger s).bind fun _ => isNotNull s) = .ok () ↔ IntegerNumeral s ∧ 0 < digitsValue s := by
  constructor
  · intro h
    obtain ⟨hint, hnull⟩ := bind_ok h
    obtain ⟨hlen, hdigits⟩ := isInteger_iff.mp hint
    obtain ⟨b, hb, -⟩ := isNotNull_iff.mp hnull
    exact ⟨⟨List.length_pos_of_mem hb, hlen, hdigits⟩, (isNotNull_digits hdigits).mp hnull⟩
  · rintro ⟨h, hpos⟩
    rw [isInteger_iff.mpr ⟨h.short, h.digits⟩]
    exact (isNotNull_digits h.digits).mpr hpos

/-- Digits and a dot are no numeral when there is no digit: nothing, or the dot alone. -/
theorem digitless_iff (hbytes : ∀ b ∈ s, isDigit b ∨ b = 46) (hdots : s.count 46 ≤ 1) :
    (¬∃ b ∈ s, isDigit b) ↔ s = [] ∨ s = [46] := by
  constructor
  · intro hnone
    have hdot : ∀ b ∈ s, b = 46 := fun b hb => (hbytes b hb).resolve_left fun hd => hnone ⟨b, hb, hd⟩
    rw [List.eq_replicate_of_mem hdot, List.count_replicate_self] at hdots
    have hs := List.eq_replicate_of_mem hdot
    rcases Nat.le_one_iff_eq_zero_or_eq_one.mp hdots with h0 | h1
    · exact .inl (List.length_eq_zero_iff.mp h0)
    · rw [h1] at hs
      exact .inr hs
  · rintro (rfl | rfl) ⟨b, hb, hdigit⟩
    · cases hb
    · obtain rfl := List.mem_singleton.mp hb
      exact absurd hdigit (by decide)

/-- **The checks are exact** on every string but the empty one and the lone dot. -/
theorem validators_exact_iff (s : Bytes) : ValidatorsExact s ↔ s ≠ [] ∧ s ≠ [46] := by
  constructor
  · intro h
    constructor
    · rintro rfl
      exact absurd (h.integers.mp rfl).nonempty (by decide)
    · rintro rfl
      obtain ⟨b, hb, hdigit⟩ := (h.decimals.mp rfl).digit
      exact (digitless_iff (by simp) (by decide)).mpr (.inr rfl) ⟨b, hb, hdigit⟩
  · rintro ⟨hempty, hdot⟩
    refine ⟨?_, IntegerNumeral.value, ?_, DecimalNumeral.consumed, positive_iff⟩
    · rw [isInteger_iff]
      exact ⟨fun h => ⟨List.length_pos_of_ne_nil hempty, h.1, h.2⟩, fun h => ⟨h.short, h.digits⟩⟩
    · rw [isFloat_iff]
      constructor
      · rintro ⟨hlen, hbytes, hdots⟩
        refine ⟨hlen, hbytes, hdots, ?_⟩
        by_contra hnone
        exact ((digitless_iff hbytes hdots).mp hnone).elim hempty hdot
      · exact fun h => ⟨h.short, h.bytes, h.dots⟩

/-- `IsInteger` accepts the empty string and `IsFloat` the lone dot. -/
theorem emptyAndDot_accepted : ¬ValidatorsExact (ascii "") ∧ ¬ValidatorsExact (ascii ".") := by
  constructor
  · intro h
    exact absurd (h.integers.mp rfl).nonempty (by decide)
  · intro h
    obtain ⟨b, hb, hdigit⟩ := (h.decimals.mp rfl).digit
    have hbytes : ascii "." = [46] := rfl
    rw [hbytes] at hb
    obtain rfl := List.mem_singleton.mp hb
    exact absurd hdigit (by decide)

end HighLoad.ImageProcessor
