import Mathlib.Data.List.Basic
import Mathlib.Logic.Relation

/-!
# Lists that may stand for each other

`R xs ys` says that `xs` and `ys` may stand for each other. `Rewritten R` is what comes of replacing such lists within
longer ones, in both directions and any number of times. What holds across one replacement holds across all of them, for
a property that a replacement keeps (`Rewritten.keeps`) and for a relation that is an equivalence on lists with such a
property (`Rewritten.sound`). An entry that may change places with all entries of a list may be moved past the list
(`Rewritten.past`).
-/

namespace Rewriting

open Relation

variable {α : Type*} {R : List α → List α → Prop} {xs ys zs : List α}

/-- One replacement. -/
inductive Within (R : List α → List α → Prop) : List α → List α → Prop
  | intro (before after : List α) {xs ys : List α} : R xs ys → Within R (before ++ xs ++ after) (before ++ ys ++ after)

/-- Any number of replacements, in both directions. -/
def Rewritten (R : List α → List α → Prop) : List α → List α → Prop := EqvGen (Within R)

namespace Rewritten

theorem refl (xs : List α) : Rewritten R xs xs := EqvGen.refl xs

theorem symm (h : Rewritten R xs ys) : Rewritten R ys xs := EqvGen.symm _ _ h

theorem trans (h : Rewritten R xs ys) (h' : Rewritten R ys zs) : Rewritten R xs zs := EqvGen.trans _ _ _ h h'

theorem of (h : R xs ys) : Rewritten R xs ys := by
  have hwithin := Within.intro [] [] h
  rw [List.nil_append, List.append_nil, List.nil_append, List.append_nil] at hwithin
  exact EqvGen.rel _ _ hwithin

/-- Within longer lists. -/
theorem context (before after : List α) (h : Rewritten R xs ys) :
    Rewritten R (before ++ xs ++ after) (before ++ ys ++ after) := by
  induction h with
  | rel xs ys h =>
    obtain ⟨before', after', h⟩ := h
    have hwithin := Within.intro (before ++ before') (after' ++ after) h
    simp only [List.append_assoc] at hwithin ⊢
    exact EqvGen.rel _ _ hwithin
  | refl xs => exact refl _
  | symm xs ys _ ih => exact ih.symm
  | trans xs ys zs _ _ ih ih' => exact ih.trans ih'

theorem cons (a : α) (h : Rewritten R xs ys) : Rewritten R (a :: xs) (a :: ys) := by
  have hcontext := h.context [a] []
  rwa [List.append_nil, List.append_nil] at hcontext

theorem append (h : Rewritten R xs ys) (after : List α) : Rewritten R (xs ++ after) (ys ++ after) := h.context [] after

/-- An entry is moved past a list. -/
theorem past {a : α} : ∀ {xs : List α}, (∀ b ∈ xs, R [a, b] [b, a]) → Rewritten R (a :: xs) (xs ++ [a])
  | [], _ => refl [a]
  | b :: xs, h => by
    have hswap : Rewritten R (a :: b :: xs) (b :: a :: xs) := (of (h b List.mem_cons_self)).append xs
    exact hswap.trans ((past fun c hc => h c (List.mem_cons_of_mem b hc)).cons b)

/-! ## Across all replacements -/

variable {P : List α → Prop}

theorem keeps (hkeep : ∀ xs ys, Within R xs ys → (P xs ↔ P ys)) (h : Rewritten R xs ys) : P xs ↔ P ys := by
  induction h with
  | rel xs ys h => exact hkeep xs ys h
  | refl xs => exact Iff.rfl
  | symm xs ys _ ih => exact ih.symm
  | trans xs ys zs _ _ ih ih' => exact ih.trans ih'

/-- **Soundness rule.** -/
theorem sound {S : List α → List α → Prop} (hkeep : ∀ xs ys, Within R xs ys → (P xs ↔ P ys))
    (hrefl : ∀ xs, P xs → S xs xs) (hsymm : ∀ xs ys, S xs ys → S ys xs)
    (htrans : ∀ xs ys zs, S xs ys → S ys zs → S xs zs) (hstep : ∀ xs ys, Within R xs ys → P xs → S xs ys)
    (h : Rewritten R xs ys) (hP : P xs) : S xs ys := by
  induction h with
  | rel xs ys h => exact hstep xs ys h hP
  | refl xs => exact hrefl xs hP
  | symm xs ys h ih => exact hsymm _ _ (ih ((keeps hkeep h).mpr hP))
  | trans xs ys zs h _ ih ih' => exact htrans _ _ _ (ih hP) (ih' ((keeps hkeep h).mp hP))

end Rewritten

end Rewriting
