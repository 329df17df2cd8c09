import Mathlib.Data.List.TakeWhile
import HighLoad.ImageProcessor.Filters

/-!
# The fabrics

The fabrics check the operands of an option and build its filter. An operand is a C string: its bytes without the final
NUL.

`Built` are the filters that a fabric can build. A sigma so built is not negative (`atof_nonneg`, `built_sigma`);
nothing else is needed of the parameters.
-/

namespace HighLoad.ImageProcessor

open ByteString

/-! ## Numbers -/

/-- Whitespace, a sign and the digits up to the first other byte. -/
def atoi (s : Bytes) : Int :=
  match s.dropWhile isSpace with
  | 45 :: s => -digitsValue (s.takeWhile isDigit)
  | 43 :: s => digitsValue (s.takeWhile isDigit)
  | s => digitsValue (s.takeWhile isDigit)

/-- The digits after a dot. -/
def fraction : Bytes → Bytes
  | 46 :: s => s.takeWhile isDigit
  | _ => []

/-- `atof` on what `IsFloat` lets through: digits with at most one dot, neither sign nor exponent. -/
def atof {F : Type} [Field F] (s : Bytes) : F :=
  let digits := fraction (s.dropWhile isDigit)
  digitsValue (s.takeWhile isDigit) + digitsValue digits / 10 ^ digits.length

/-! ## Checks -/

def maxIntegerLength : Nat := 9

/-- `The argument "s" is …`. -/
def argumentError (s : Bytes) (what : String) : Exn :=
  .parser (ascii "The argument \"" ++ s ++ ascii "\" is " ++ ascii what)

def isInteger (s : Bytes) : Except Exn Unit :=
  if maxIntegerLength < s.length then .error (argumentError s "too long")
  else if s.all isDigit then .ok ()
  else .error (argumentError s "not integer")

def isFloat (s : Bytes) : Except Exn Unit :=
  if maxIntegerLength < s.length then .error (argumentError s "too long")
  else if ! s.all (fun c => isDigit c || c == 46) then .error (argumentError s "not integer")
  else if 1 < s.count 46 then .error (argumentError s "not float")
  else .ok ()

def isNotNull (s : Bytes) : Except Exn Unit :=
  if s.any fun c => c != 46 && c != 48 then .ok () else .error (argumentError s "null")

/-! ## Making filters -/

variable {F : Type} [Field F]

def CropFabric.make (width height : Bytes) : Except Exn (Filter F) := do
  isInteger height
  isNotNull height
  isInteger width
  isNotNull width
  return .crop (Int16.ofInt (atoi width)) (Int16.ofInt (atoi height))

def GrayScaleFabric.make : Filter F := .grayscale

def NegativeFabric.make : Filter F := .negative

def SharpFabric.make : Filter F := .sharpening

def EdgeFabric.make (value : Bytes) : Except Exn (Filter F) := do
  isFloat value
  return .edgeDetection (atof value)

def BlurFabric.make (value : Bytes) : Except Exn (Filter F) := do
  isFloat value
  return .gaussianBlur (atof value)

def TunnelFabric.make (pixelH pixelW strongth radius : Bytes) : Except Exn (Filter F) := do
  isInteger pixelH
  isInteger pixelW
  isFloat strongth
  isFloat radius
  return .tunnel (atoi pixelH) (atoi pixelW) (atof strongth) (atof radius)

/-- The filters that the fabrics build. -/
inductive Built : Filter F → Prop
  | crop {width height : Bytes} {f : Filter F} : CropFabric.make width height = .ok f → Built f
  | gs : Built GrayScaleFabric.make
  | neg : Built NegativeFabric.make
  | sharp : Built SharpFabric.make
  | edge {value : Bytes} {f : Filter F} : EdgeFabric.make value = .ok f → Built f
  | blur {value : Bytes} {f : Filter F} : BlurFabric.make value = .ok f → Built f
  | tunnel {pixelH pixelW strongth radius : Bytes} {f : Filter F} :
    TunnelFabric.make pixelH pixelW strongth radius = .ok f → Built f

/-! ## What the fabrics throw -/

/-- An exception can only be a `ParserException`. -/
def OnlyParser {α : Type} (r : Except Exn α) : Prop := ∀ e, r = .error e → ∃ m, e = .parser m

theorem OnlyParser.ok {α : Type} (a : α) : OnlyParser (.ok a) := by rintro e ⟨⟩

theorem OnlyParser.parser {α : Type} (m : Bytes) : OnlyParser (.error (.parser m) : Except Exn α) := by
  rintro e ⟨⟩
  exact ⟨m, rfl⟩

theorem OnlyParser.bind {α : Type} {check : Except Exn Unit} {k : Unit → Except Exn α} (h : OnlyParser check)
    (hk : OnlyParser (k ())) : OnlyParser (check.bind k) := by
  cases check with
  | error e => exact fun e' he => h e' (by cases he; rfl)
  | ok u => exact hk

theorem OnlyParser.map {α β : Type} {r : Except Exn α} (h : OnlyParser r) (f : α → β) : OnlyParser (r.map f) := by
  cases r with
  | error e => exact fun e' he => h e' (by cases he; rfl)
  | ok a => exact .ok _

theorem isInteger_onlyParser (s : Bytes) : OnlyParser (isInteger s) := by
  unfold isInteger
  split
  · exact .parser _
  · split
    · exact .ok _
    · exact .parser _

theorem isFloat_onlyParser (s : Bytes) : OnlyParser (isFloat s) := by
  unfold isFloat
  split
  · exact .parser _
  · split
    · exact .parser _
    · split
      · exact .parser _
      · exact .ok _

theorem isNotNull_onlyParser (s : Bytes) : OnlyParser (isNotNull s) := by
  unfold isNotNull
  split
  · exact .ok _
  · exact .parser _

/-! ## What the checks let through -/

/-- A check before a filter is made. -/
theorem bind_ok {α : Type} {check : Except Exn Unit} {k : Unit → Except Exn α} {a : α}
    (h : check.bind k = .ok a) : check = .ok () ∧ k () = .ok a := by
  cases check with
  | error e => cases h
  | ok u => exact ⟨rfl, h⟩

theorem isInteger_ok {s : Bytes} (h : isInteger s = .ok ()) : s.length ≤ maxIntegerLength ∧ ∀ b ∈ s, isDigit b := by
  unfold isInteger at h
  split at h
  case isTrue => cases h
  case isFalse hlen =>
    split at h
    case isTrue hall => exact ⟨Nat.not_lt.mp hlen, List.all_eq_true.mp hall⟩
    case isFalse => cases h

theorem isNotNull_ok {s : Bytes} (h : isNotNull s = .ok ()) : ∃ b ∈ s, b ≠ 46 ∧ b ≠ 48 := by
  unfold isNotNull at h
  split at h
  case isTrue hany =>
    obtain ⟨b, hb, hne⟩ := List.any_eq_true.mp hany
    simp only [Bool.and_eq_true, bne_iff_ne, ne_eq] at hne
    exact ⟨b, hb, hne⟩
  case isFalse => cases h

/-- A digit is neither whitespace nor a sign. -/
theorem atoi_digits {s : Bytes} (h : ∀ b ∈ s, isDigit b) : atoi s = digitsValue s := by
  have htake : s.takeWhile isDigit = s := List.takeWhile_eq_self_iff.mpr h
  have hdrop : s.dropWhile isSpace = s := by
    cases s with
    | nil => rfl
    | cons b s =>
      have hb := isDigit_iff.mp (h b List.mem_cons_self)
      have hspace : ¬isSpace b := by
        simp only [isSpace, Bool.or_eq_true, beq_iff_eq, Bool.and_eq_true, decide_eq_true_eq, not_or]
        refine ⟨fun he => ?_, by omega⟩
        subst he
        exact absurd hb (by decide)
      exact List.dropWhile_cons_of_neg hspace
  have hsign : ∀ c : UInt8, ¬isDigit c → ∀ s', s ≠ c :: s' := fun c hc s' hs =>
    hc (h c (hs ▸ List.mem_cons_self))
  unfold atoi
  rw [hdrop]
  split
  case h_1 s' => exact absurd rfl (hsign 45 (by decide) s')
  case h_2 s' => exact absurd rfl (hsign 43 (by decide) s')
  case h_3 => rw [htake]

/-- A number that is an integer and not null. -/
theorem positive_ok {s : Bytes} (hint : isInteger s = .ok ()) (hnull : isNotNull s = .ok ()) :
    atoi s = digitsValue s ∧ 1 ≤ digitsValue s ∧ digitsValue s ≤ 999999999 := by
  obtain ⟨hlen, hdigits⟩ := isInteger_ok hint
  obtain ⟨b, hb, -, hne⟩ := isNotNull_ok hnull
  have hlt := digitsValue_lt hdigits
  have hpow : 10 ^ s.length ≤ 10 ^ maxIntegerLength := Nat.pow_le_pow_right (by decide) hlen
  unfold maxIntegerLength at hpow
  exact ⟨atoi_digits hdigits, digitsValue_pos hdigits ⟨b, hb, hne⟩, by omega⟩

omit [Field F] in
/-- The operands of a crop. -/
theorem CropFabric.make_ok {width height : Bytes} {f : Filter F} (h : CropFabric.make width height = .ok f) :
    (isInteger width = .ok () ∧ isNotNull width = .ok ()) ∧ (isInteger height = .ok () ∧ isNotNull height = .ok ()) ∧
      f = .crop (Int16.ofInt (atoi width)) (Int16.ofInt (atoi height)) := by
  obtain ⟨hh, h⟩ := bind_ok h
  obtain ⟨hh', h⟩ := bind_ok h
  obtain ⟨hw, h⟩ := bind_ok h
  obtain ⟨hw', h⟩ := bind_ok h
  cases h
  exact ⟨⟨hw, hw'⟩, ⟨hh, hh'⟩, rfl⟩

/-! ## The sigma of a blur -/

/-- No number without a sign is negative. -/
theorem atof_nonneg [LinearOrder F] [IsStrictOrderedRing F] (s : Bytes) : 0 ≤ (atof s : F) := by
  unfold atof
  have hint : (0 : F) ≤ digitsValue (s.takeWhile isDigit) := Nat.cast_nonneg _
  have hfrac : (0 : F) ≤ digitsValue (fraction (s.dropWhile isDigit)) := Nat.cast_nonneg _
  have hpow : (0 : F) ≤ 10 ^ (fraction (s.dropWhile isDigit)).length := by positivity
  exact add_nonneg hint (div_nonneg hfrac hpow)

/-- The sigma of a built blur is not negative. -/
theorem built_sigma [LinearOrder F] [IsStrictOrderedRing F] {sigma : F} (h : Built (.gaussianBlur sigma)) :
    0 ≤ sigma := by
  generalize hf : Filter.gaussianBlur sigma = f at h
  cases h with
  | crop h =>
    obtain ⟨-, -, rfl⟩ := CropFabric.make_ok h
    cases hf
  | gs | neg | sharp => cases hf
  | edge h =>
    obtain ⟨-, h⟩ := bind_ok h
    cases h
    cases hf
  | blur h =>
    obtain ⟨-, h⟩ := bind_ok h
    cases h
    cases hf
    exact atof_nonneg _
  | tunnel h =>
    obtain ⟨-, h⟩ := bind_ok h
    obtain ⟨-, h⟩ := bind_ok h
    obtain ⟨-, h⟩ := bind_ok h
    obtain ⟨-, h⟩ := bind_ok h
    cases h
    cases hf

end HighLoad.ImageProcessor
