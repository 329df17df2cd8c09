import HighLoad.ImageProcessor.Pixels

/-!
# When a pipeline throws

A filter throws exactly when it is a blur with sigma 0 or a tunnel whose centre is not inside the image
(`Filter.Fails`), and each checks this before it changes anything (`apply_fails`). What the filters before it leave of
the sides decides about the centre: `FailsAt` follows the crops. So a list of filters throws exactly when some filter
fails on the sides that it finds, at the first one, with the image as the filters before it left it
(`pipeline_throws_iff`).
-/

namespace HighLoad.ImageProcessor

open ByteString

variable {F : Type}

/-- A coordinate of the centre: the given one, or half of the side where it is 0. -/
def effectiveCenter (center : Int) (side : Nat) : Int := if center ≠ 0 then center else (side / 2 : Nat)

/-- The filter cannot be applied to an image of these sides. -/
def Filter.Fails [Zero F] (f : Filter F) (h w : Nat) : Prop :=
  match f with
  | .gaussianBlur sigma => sigma = 0
  | .tunnel centerH centerW _ _ =>
    ¬((0 ≤ effectiveCenter centerH h ∧ effectiveCenter centerH h < h) ∧
      0 ≤ effectiveCenter centerW w ∧ effectiveCenter centerW w < w)
  | _ => False

/-- Filter `i` fails on the sides that the filters before it leave. -/
def FailsAt [Zero F] (filters : List (Filter F)) (h w i : Nat) : Prop :=
  ∃ f, filters[i]? = some f ∧ f.Fails (heightAfter (filters.take i) h) (widthAfter (filters.take i) w)

/-! ## One filter -/

/-- Half of a side is an `int32_t`. -/
theorem tunnelCenter_eq (center : Int) (side : UInt32) :
    tunnelCenter center side = effectiveCenter center side.toNat := by
  unfold tunnelCenter effectiveCenter
  have hside := side.toNat_lt
  split
  case isTrue => rfl
  case isFalse => exact wrap32_eq (by omega) (by omega)

variable [Field F] [LinearOrder F] [FloorRing F] {libm : Libm F} {p q : Process F} {e : Option Exn} {f : Filter F}

/-- **A filter throws exactly when it fails, and then changes nothing.** -/
theorem apply_fails (h : f.apply libm p = some (q, e)) :
    (e = none ∧ ¬f.Fails p.image.height.toNat p.image.width.toNat) ∨
      ∃ m, e = some (.applyFilter m) ∧ q = p ∧ f.Fails p.image.height.toNat p.image.width.toNat := by
  cases f with
  | crop | sharpening | edgeDetection =>
    rw [Filter.apply] at h
    obtain ⟨-, rfl⟩ := map_none_some h
    exact .inl ⟨rfl, id⟩
  | grayscale | negative =>
    cases h
    exact .inl ⟨rfl, id⟩
  | gaussianBlur sigma =>
    rw [Filter.apply] at h
    rcases gaussianBlur_some h with ⟨e', hcalc, rfl, rfl⟩ | ⟨kernel, _, _, _, hcalc, -, -, -, -, rfl⟩
    · unfold calcMatrix at hcalc
      split at hcalc
      case isTrue hsigma =>
        cases hcalc
        exact .inr ⟨_, rfl, rfl, hsigma⟩
      case isFalse => cases hcalc
    · unfold calcMatrix at hcalc
      split at hcalc
      case isTrue => cases hcalc
      case isFalse hsigma => exact .inl ⟨rfl, hsigma⟩
  | tunnel centerH centerW strength radius =>
    rw [Filter.apply] at h
    rcases tunnel_some h with ⟨hout, rfl, m, rfl⟩ | ⟨hin, rfl, -⟩
    · refine .inr ⟨m, rfl, rfl, ?_⟩
      rwa [CenterInside, tunnelCenter_eq, tunnelCenter_eq] at hout
    · rw [CenterInside, tunnelCenter_eq, tunnelCenter_eq] at hin
      exact .inl ⟨rfl, fun hout => hout hin⟩

/-! ## Lists of filters -/

variable [IsStrictOrderedRing F] {filters : List (Filter F)}

omit [LinearOrder F] [FloorRing F] [IsStrictOrderedRing F] in
/-- Failures of the rest of a list are failures on the sides after its head. -/
theorem failsAt_succ {h w i : Nat} :
    FailsAt (f :: filters) h w (i + 1) ↔ FailsAt filters (f.heightAfter h) (f.widthAfter w) i := Iff.rfl

/-- Without a failure the list returns. -/
theorem applyFilters_returns (libm : Libm F) (hs : Shaped p) (hf : ∀ f ∈ filters, Admitted f)
    (hno : ∀ i, ¬FailsAt filters p.image.height.toNat p.image.width.toNat i) :
    ∃ q, applyFilters libm filters p = some (q, none) := by
  induction filters generalizing p with
  | nil => exact ⟨p, rfl⟩
  | cons f filters ih =>
    obtain ⟨q, e, hq, hsq⟩ := apply_shaped libm hs (hf f List.mem_cons_self)
    rcases apply_fails hq with ⟨rfl, -⟩ | ⟨_, -, -, hfail⟩
    · obtain ⟨hh, hw, -⟩ := apply_sides hq
      rw [applyFilters_cons hq]
      refine ih hsq (fun f hm => hf f (List.mem_cons_of_mem _ hm)) fun i hi => ?_
      rw [hh, hw] at hi
      exact hno (i + 1) (failsAt_succ.mpr hi)
    · exact absurd ⟨f, rfl, hfail⟩ (hno 0)

/-- At the first failure the list throws, with what the filters before it made. -/
theorem applyFilters_throws (libm : Libm F) (hs : Shaped p) (hf : ∀ f ∈ filters, Admitted f) {i : Nat}
    (hi : FailsAt filters p.image.height.toNat p.image.width.toNat i)
    (hfirst : ∀ j, j < i → ¬FailsAt filters p.image.height.toNat p.image.width.toNat j) :
    ∃ q m, applyFilters libm (filters.take i) p = some (q, none) ∧
      applyFilters libm filters p = some (q, some (.applyFilter m)) := by
  induction filters generalizing p i with
  | nil =>
    obtain ⟨f, hget, -⟩ := hi
    cases hget
  | cons f filters ih =>
    obtain ⟨q, e, hq, hsq⟩ := apply_shaped libm hs (hf f List.mem_cons_self)
    cases i with
    | zero =>
      obtain ⟨f', hget, hfail⟩ := hi
      cases hget
      rcases apply_fails hq with ⟨-, hno⟩ | ⟨m, rfl, rfl, -⟩
      · exact absurd hfail hno
      · exact ⟨q, m, rfl, applyFilters_throw hq⟩
    | succ i =>
      rcases apply_fails hq with ⟨rfl, -⟩ | ⟨_, -, -, hfail⟩
      · obtain ⟨hh, hw, -⟩ := apply_sides hq
        rw [List.take_succ_cons, applyFilters_cons hq, applyFilters_cons hq]
        refine ih hsq (fun f hm => hf f (List.mem_cons_of_mem _ hm)) ?_ fun j hj hfail => ?_
        · rw [hh, hw]
          exact failsAt_succ.mp hi
        · rw [hh, hw] at hfail
          exact hfirst (j + 1) (Nat.succ_lt_succ hj) (failsAt_succ.mpr hfail)
      · exact absurd ⟨f, rfl, hfail⟩ (hfirst 0 (Nat.succ_pos i))

/-- **Exactly when a pipeline fails, and what it leaves behind.** It ends; it throws if and only if some filter fails on
the sides that the filters before it leave; and at the first such filter it throws an `ApplyFilterException`, and the
image is what exactly the filters before it made. -/
theorem pipeline_throws_iff (libm : Libm F) {img : Image F} {buffer : Grid (Pixel F)} (matrix : Matrix F)
    (hpx : Grid.Shape img.height.toNat img.width.toNat img.pixels)
    (hbuf : Grid.Shape img.height.toNat img.width.toNat buffer) (hw : img.width.toNat ≤ maxWidth)
    (hh : img.height.toNat < 2 ^ 31) (hf : ∀ f ∈ filters, Admitted f) :
    (∃ q e, applyFilters libm filters ⟨img, buffer, matrix⟩ = some (q, e) ∧
      ((∃ exn, e = some exn) ↔ ∃ i, FailsAt filters img.height.toNat img.width.toNat i)) ∧
    ∀ i, FailsAt filters img.height.toNat img.width.toNat i →
      (∀ j, j < i → ¬FailsAt filters img.height.toNat img.width.toNat j) →
        ∃ q m, applyFilters libm (filters.take i) ⟨img, buffer, matrix⟩ = some (q, none) ∧
          applyFilters libm filters ⟨img, buffer, matrix⟩ = some (q, some (.applyFilter m)) := by
  have hwidth : img.width.toNat < 2 ^ 31 := by
    unfold maxWidth at hw
    omega
  have hs : Shaped ⟨img, buffer, matrix⟩ := ⟨hpx, hbuf, hh, hwidth⟩
  refine ⟨?_, fun i hi hfirst => applyFilters_throws libm hs hf hi hfirst⟩
  by_cases hfail : ∃ i, FailsAt filters img.height.toNat img.width.toNat i
  · classical
    obtain ⟨q, m, -, hq⟩ := applyFilters_throws libm hs hf (Nat.find_spec hfail) fun j hj => Nat.find_min hfail hj
    exact ⟨q, some (.applyFilter m), hq, ⟨fun _ => hfail, fun _ => ⟨_, rfl⟩⟩⟩
  · obtain ⟨q, hq⟩ := applyFilters_returns libm hs hf fun i hi => hfail ⟨i, hi⟩
    refine ⟨q, none, hq, ⟨fun h => ?_, fun h => absurd h hfail⟩⟩
    obtain ⟨_, he⟩ := h
    cases he

/-- `-neg -blur 0` on a row of two pixels: thrown at the blur, after the negative. -/
theorem zeroBlur_throws : ∃ q m,
    applyFilters noLibm [.negative] (oneRow 2 Pixel.zero Pixel.zero) = some (q, none) ∧
      applyFilters noLibm [.negative, .gaussianBlur 0] (oneRow 2 Pixel.zero Pixel.zero) =
        some (q, some (.applyFilter m)) := by
  have hs : Shaped (oneRow 2 Pixel.zero Pixel.zero) := oneRow_shaped (by decide) _ _
  have hzero : (atof (ascii "0") : ℚ) = 0 := by
    have hbytes : ascii "0" = [48] := rfl
    simp [hbytes, atof, fraction, digitsValue, isDigit]
  have hmake : BlurFabric.make (ascii "0") = .ok (.gaussianBlur 0 : Filter ℚ) := by
    rw [← hzero]
    rfl
  have hf : ∀ f ∈ [.negative, .gaussianBlur 0], Admitted (f : Filter ℚ) := by
    intro f hm
    simp only [List.mem_cons, List.not_mem_nil, or_false] at hm
    rcases hm with rfl | rfl
    · exact ⟨.neg, fun _ h => by cases h⟩
    · refine ⟨.blur hmake, fun sigma h => ?_⟩
      cases h
      norm_num
  refine (pipeline_throws_iff noLibm [] hs.pixels hs.buffer (by decide) hs.height hf).2 1 ⟨_, rfl, rfl⟩ ?_
  intro j hj hfail
  obtain rfl : j = 0 := by omega
  obtain ⟨f, hget, hfail⟩ := hfail
  cases hget
  exact hfail

end HighLoad.ImageProcessor
