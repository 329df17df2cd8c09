import Mathlib.Data.List.TakeWhile

/-!
# Lines of a stream

`lines sep l` are the pieces of `l` that end with `sep`, without it; what follows the last `sep` is no line. A stream
made of lines and a rest has those lines and the lines of the rest (`lines_append`); `takeLine` takes the first line off
a stream (`takeLine_eq`).
-/

namespace Lines

variable {α : Type*} [DecidableEq α] {sep : α} {l rest : List α} {ls : List (List α)}

/-- The terminated lines, in order. -/
def lines (sep : α) (l : List α) : List (List α) := (l.splitOn sep).dropLast

/-- The first line and what follows its end. -/
def takeLine (sep : α) (l : List α) : List α × List α := (l.takeWhile (· ≠ sep), (l.dropWhile (· ≠ sep)).drop 1)

theorem lines_of_notMem (h : sep ∉ l) : lines sep l = [] := by
  rw [lines, List.splitOn_eq_singleton h]
  rfl

theorem lines_cons (h : sep ∉ l) (rest : List α) : lines sep (l ++ sep :: rest) = l :: lines sep rest := by
  rw [lines, List.splitOn_append_cons_self_of_not_mem h, List.dropLast_cons_of_ne_nil (List.splitOn_ne_nil _ _)]
  rfl

/-- **The lines of a stream cut at the end of a line.** -/
theorem lines_append (h : ∀ l ∈ ls, sep ∉ l) (rest : List α) :
    lines sep (ls.flatMap (· ++ [sep]) ++ rest) = ls ++ lines sep rest := by
  induction ls with
  | nil => rfl
  | cons l ls ih =>
    have hl := h l List.mem_cons_self
    have hls := ih fun l hm => h l (List.mem_cons_of_mem _ hm)
    rw [List.flatMap_cons, List.append_assoc, List.append_assoc, List.singleton_append, lines_cons hl, hls]
    rfl

/-- A stream of lines that begins with lines. -/
theorem lines_prefix {ms : List (List α)} (hl : ∀ l ∈ ls, sep ∉ l) (hm : ∀ m ∈ ms, sep ∉ m)
    (h : ls.flatMap (· ++ [sep]) ++ rest <+: ms.flatMap (· ++ [sep])) : ls <+: ms := by
  obtain ⟨more, h⟩ := h
  have hlines := congrArg (lines sep) h
  rw [List.append_assoc, lines_append hl, ← List.append_nil (ms.flatMap _), lines_append hm] at hlines
  exact ⟨_, hlines.trans (List.append_nil ms)⟩

/-- The lines of one stream, when nothing but lines is left of it. -/
theorem lines_unique {ms : List (List α)} (hl : ∀ l ∈ ls, sep ∉ l) (hm : ∀ m ∈ ms, sep ∉ m) (hrest : sep ∉ rest)
    (h : ls.flatMap (· ++ [sep]) ++ rest = ms.flatMap (· ++ [sep])) : ls = ms := by
  have hlines := congrArg (lines sep) h
  rw [lines_append hl, lines_of_notMem hrest, ← List.append_nil (ms.flatMap _), lines_append hm,
    lines_of_notMem List.not_mem_nil, List.append_nil, List.append_nil] at hlines
  exact hlines

theorem takeLine_notMem (l : List α) : sep ∉ (takeLine sep l).1 := by
  intro h
  have hne := List.mem_takeWhile_imp h
  simp at hne

/-- A stream with a `sep` is its first line, the `sep` and the rest. -/
theorem takeLine_eq (h : sep ∈ l) : l = (takeLine sep l).1 ++ sep :: (takeLine sep l).2 := by
  induction l with
  | nil => cases h
  | cons a l ih =>
    by_cases ha : a = sep
    · subst ha
      simp [takeLine]
    · have hl := ih ((List.mem_cons.mp h).resolve_left (Ne.symm ha))
      simpa [takeLine, ha] using hl

end Lines
