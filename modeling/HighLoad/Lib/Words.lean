import Mathlib.Data.List.TakeWhile

/-!
# Words

`words sep l` are the maximal runs of `l` without a separator. A separator is the end of a word, so the words of two
parts with one between them are the words of both (`words_append`). `takeWord` skips separators and takes a word off; it
gives the first of the words, and the other ones are those of what is left (`words_takeWord`).
-/

namespace Words

variable {α : Type*} {sep : α → Bool} {l r w : List α} {a : α}

/-- The nonempty pieces between separators. -/
def words (sep : α → Bool) (l : List α) : List (List α) := (l.splitOnP sep).filter (!·.isEmpty)

/-- The first word, empty at the end of the list, and what follows it. -/
def takeWord (sep : α → Bool) (l : List α) : List α × List α :=
  ((l.dropWhile sep).takeWhile (!sep ·), (l.dropWhile sep).dropWhile (!sep ·))

theorem words_nil : words sep [] = [] := by
  rw [words, List.splitOnP_nil]
  rfl

/-- **A separator between two parts.** -/
theorem words_append (h : sep a) (l r : List α) : words sep (l ++ a :: r) = words sep l ++ words sep r := by
  rw [words, List.splitOnP_append_cons l r h, List.filter_append]
  rfl

theorem words_cons_sep (h : sep a) (l : List α) : words sep (a :: l) = words sep l := by
  have hnil := words_append h [] l
  rwa [words_nil] at hnil

/-- A list without a separator is a word. -/
theorem words_single (h : ∀ a ∈ l, sep a = false) (hne : l ≠ []) : words sep l = [l] := by
  simp [words, List.splitOnP_eq_singleton h, hne]

theorem ne_nil_of_mem_words (h : w ∈ words sep l) : w ≠ [] := by
  have hempty := (List.mem_filter.mp h).2
  simpa using hempty

/-- Separators at the beginning do not count. -/
theorem words_dropWhile (l : List α) : words sep (l.dropWhile sep) = words sep l := by
  induction l with
  | nil => rfl
  | cons a l ih =>
    by_cases ha : sep a
    · rw [List.dropWhile_cons_of_pos ha, ih, words_cons_sep ha]
    · rw [List.dropWhile_cons_of_neg ha]

/-- The first word of a list that begins with one, up to the next separator. -/
theorem words_cons (ha : sep a = false) (l : List α) :
    words sep (a :: l) = (a :: l).takeWhile (!sep ·) :: words sep ((a :: l).dropWhile (!sep ·)) := by
  have hword : ∀ b ∈ (a :: l).takeWhile (!sep ·), sep b = false := fun b hb => by
    simpa using List.mem_takeWhile_imp hb
  have hne : (a :: l).takeWhile (!sep ·) ≠ [] := by simp [ha]
  have hcut : (a :: l).takeWhile (!sep ·) ++ (a :: l).dropWhile (!sep ·) = a :: l := List.takeWhile_append_dropWhile
  cases hrest : (a :: l).dropWhile (!sep ·) with
  | nil =>
    rw [hrest, List.append_nil] at hcut
    rw [hcut] at hword
    rw [hcut, words_nil, words_single hword (List.cons_ne_nil _ _)]
  | cons b r =>
    have hb : sep b := by
      have hhead := List.head?_dropWhile_not (!sep ·) (a :: l)
      rw [hrest] at hhead
      simpa using hhead
    rw [hrest] at hcut
    rw [words_cons_sep hb, ← hcut, words_append hb, words_single hword hne, hcut]
    rfl

/-- **Taking a word off.** -/
theorem words_takeWord (sep : α → Bool) (l : List α) :
    (takeWord sep l).1 = (words sep l).headD [] ∧ words sep (takeWord sep l).2 = (words sep l).tail := by
  rw [← words_dropWhile l, takeWord]
  cases hd : l.dropWhile sep with
  | nil => exact ⟨by rw [words_nil]; rfl, by rw [words_nil]; exact words_nil⟩
  | cons a r =>
    have ha : sep a = false := by
      have hhead := List.head?_dropWhile_not sep l
      rw [hd] at hhead
      simpa using hhead
    rw [words_cons ha]
    exact ⟨rfl, rfl⟩

end Words
