import HighLoad.Lib.Loop

/-!
# Grids

A `Grid` is a list of rows, like a `vector<vector<T>>`: nothing says that the rows are of one length, and reading or
writing outside a row fails. `Shape h w` says that there are `h` rows of `w` cells; then every cell can be read and
written (`Shape.get`, `Shape.set`), and grids of one shape are equal when their cells are (`Shape.ext`).

`sweep` rewrites every cell, row by row, by what a body makes of its old value: a body that succeeds on every cell
leaves in each what it makes of it (`sweep_spec`), and a sweep that returns has succeeded on every cell (`sweep_some`).
A grid that `Gathers` the cells of another commutes with every function of the cells (`Gathers.map`).
`All P` says that every cell has the property `P`.
-/

open Loop

abbrev Grid (α : Type*) := List (List α)

namespace Grid

variable {α β : Type*} {g g' : Grid α} {h w r c : Nat} {a : α}

/-! ## Cells -/

def get (g : Grid α) (r c : Nat) : Option α := g[r]?.bind (·[c]?)

def set (g : Grid α) (r c : Nat) (a : α) : Option (Grid α) :=
  g[r]?.bind fun row => if c < row.length then some (List.set g r (row.set c a)) else none

/-- Rewrites one cell by what `f` makes of it. -/
def modify (g : Grid α) (r c : Nat) (f : α → Option α) : Option (Grid α) :=
  (g.get r c).bind fun a => (f a).bind fun b => g.set r c b

/-- The cells after a write. -/
theorem get_set (h : g.set r c a = some g') (r' c' : Nat) :
    g'.get r' c' = if r' = r ∧ c' = c then some a else g.get r' c' := by
  obtain ⟨row, hrow, h⟩ := Option.bind_eq_some_iff.mp h
  obtain ⟨hcl, h⟩ := Option.ite_none_right_eq_some.mp h
  obtain rfl := Option.some.inj h
  have hlt : r < g.length := (List.getElem?_eq_some_iff.mp hrow).1
  unfold Grid.get
  by_cases hrr : r' = r
  · subst hrr
    rw [List.getElem?_set_self hlt, hrow, Option.bind_some, Option.bind_some]
    by_cases hcc : c' = c
    · subst hcc
      rw [List.getElem?_set_self hcl, if_pos ⟨rfl, rfl⟩]
    · rw [List.getElem?_set_ne (Ne.symm hcc), if_neg (by simp [hcc])]
  · rw [List.getElem?_set_ne (Ne.symm hrr), if_neg (by simp [hrr])]

/-- `h` rows of `w` cells. -/
structure Shape (h w : Nat) (g : Grid α) : Prop where
  length : g.length = h
  row : ∀ l ∈ g, l.length = w

namespace Shape

/-- A row of a grid of a shape. -/
theorem getRow (hg : Shape h w g) (hr : r < h) : ∃ row, g[r]? = some row ∧ row.length = w := by
  have hlt : r < g.length := by rw [hg.length]; exact hr
  exact ⟨g[r], List.getElem?_eq_getElem hlt, hg.row _ (List.getElem_mem hlt)⟩

theorem get (hg : Shape h w g) (hr : r < h) (hc : c < w) : ∃ a, g.get r c = some a := by
  obtain ⟨row, hrow, hl⟩ := hg.getRow hr
  have hlt : c < row.length := by omega
  exact ⟨row[c], by rw [Grid.get, hrow, Option.bind_some, List.getElem?_eq_getElem hlt]⟩

theorem head (hg : Shape h w g) (hpos : 0 < h) : ∃ row, g.head? = some row := by
  obtain ⟨row, hrow, -⟩ := hg.getRow hpos
  exact ⟨row, List.head?_eq_getElem?.trans hrow⟩

/-- A cell that can be read is one of the shape. -/
theorem lt_of_get (hg : Shape h w g) (ha : g.get r c = some a) : r < h ∧ c < w := by
  obtain ⟨row, hrow, ha⟩ := Option.bind_eq_some_iff.mp ha
  obtain ⟨hr, rfl⟩ := List.getElem?_eq_some_iff.mp hrow
  obtain ⟨hc, -⟩ := List.getElem?_eq_some_iff.mp ha
  rw [hg.row _ (List.getElem_mem hr)] at hc
  exact ⟨hg.length ▸ hr, hc⟩

/-- Writing a cell keeps the shape and the other cells. -/
theorem set (hg : Shape h w g) (hr : r < h) (hc : c < w) (a : α) : ∃ g', g.set r c a = some g' ∧ Shape h w g' ∧
    ∀ r' c', g'.get r' c' = if r' = r ∧ c' = c then some a else g.get r' c' := by
  obtain ⟨row, hrow, hl⟩ := hg.getRow hr
  have hcl : c < row.length := by omega
  have hset : g.set r c a = some (List.set g r (row.set c a)) := by
    rw [Grid.set, hrow, Option.bind_some, if_pos hcl]
  refine ⟨List.set g r (row.set c a), hset, ⟨?_, fun l hm => ?_⟩, get_set hset⟩
  · rw [List.length_set, hg.length]
  · rcases List.mem_or_eq_of_mem_set hm with hm | rfl
    · exact hg.row l hm
    · rw [List.length_set, hl]

/-- Grids of one shape with the same cells. -/
theorem ext (hg : Shape h w g) (hg' : Shape h w g')
    (hcells : ∀ r c, r < h → c < w → g.get r c = g'.get r c) : g = g' := by
  apply List.ext_getElem?
  intro r
  by_cases hr : r < h
  · obtain ⟨row, hrow, hl⟩ := hg.getRow hr
    obtain ⟨row', hrow', hl'⟩ := hg'.getRow hr
    rw [hrow, hrow']
    congr 1
    apply List.ext_getElem?
    intro c
    by_cases hc : c < w
    · have h := hcells r c hr hc
      unfold Grid.get at h
      rwa [hrow, hrow', Option.bind_some, Option.bind_some] at h
    · rw [List.getElem?_eq_none (by omega), List.getElem?_eq_none (by omega)]
  · rw [List.getElem?_eq_none (by rw [hg.length]; omega), List.getElem?_eq_none (by rw [hg'.length]; omega)]

end Shape

/-! ## Making grids -/

theorem shape_replicate (h w : Nat) (a : α) : Shape h w (List.replicate h (List.replicate w a)) where
  length := List.length_replicate
  row l hl := by rw [List.eq_of_mem_replicate hl, List.length_replicate]

theorem get_replicate (hr : r < h) (hc : c < w) (a : α) : get (List.replicate h (List.replicate w a)) r c = some a := by
  rw [get, List.getElem?_replicate_of_lt hr, Option.bind_some, List.getElem?_replicate_of_lt hc]

/-- The grid of a function of the row and the column. -/
def tabulate (h w : Nat) (f : Nat → Nat → α) : Grid α := (List.range h).map fun r => (List.range w).map (f r)

theorem shape_tabulate (h w : Nat) (f : Nat → Nat → α) : Shape h w (tabulate h w f) := by
  refine ⟨by rw [tabulate, List.length_map, List.length_range], fun l hl => ?_⟩
  obtain ⟨r, -, rfl⟩ := List.mem_map.mp hl
  rw [List.length_map, List.length_range]

theorem get_tabulate (hr : r < h) (hc : c < w) (f : Nat → Nat → α) : (tabulate h w f).get r c = some (f r c) := by
  simp only [get, tabulate, List.getElem?_map, List.getElem?_range hr, List.getElem?_range hc, Option.map_some,
    Option.bind_some]

/-- `vector::resize`: the first `n` entries, filled up with `a`. -/
def resize {α : Type*} (l : List α) (n : Nat) (a : α) : List α := l.take n ++ List.replicate (n - l.length) a

@[simp] theorem resize_nil (n : Nat) (b : β) : resize [] n b = List.replicate n b := by simp [resize]

@[simp] theorem length_resize (l : List β) (n : Nat) (b : β) : (resize l n b).length = n := by
  simp only [resize, List.length_append, List.length_take, List.length_replicate]
  omega

/-- Equal entries, cut. -/
theorem resize_replicate {k n : Nat} (hk : k ≤ n) (a b : β) :
    resize (List.replicate n a) k b = List.replicate k a := by
  rw [resize, List.take_replicate, Nat.min_eq_left hk, List.length_replicate, Nat.sub_eq_zero_of_le hk,
    List.replicate_zero, List.append_nil]

/-- Rows that are there already keep their length. -/
theorem shape_resize_iff (g : Grid α) (h w : Nat) (a : α) :
    Shape h w (resize g h (List.replicate w a)) ↔ ∀ l ∈ g.take h, l.length = w := by
  constructor
  · intro hg l hl
    exact hg.row l (List.mem_append_left _ hl)
  · intro hrows
    refine ⟨length_resize g h _, fun l hl => ?_⟩
    rcases List.mem_append.mp hl with hl | hl
    · exact hrows l hl
    · rw [List.eq_of_mem_replicate hl, List.length_replicate]

/-- Cutting off rows. -/
theorem Shape.resizeRows {n : Nat} (hg : Shape h w g) (hn : n ≤ h) (l : List α) : Shape n w (resize g n l) := by
  have hdrop : n - g.length = 0 := by rw [hg.length]; omega
  refine ⟨length_resize g n l, fun l' hl => hg.row l' ?_⟩
  rw [resize, hdrop, List.replicate_zero, List.append_nil] at hl
  exact List.mem_of_mem_take hl

/-- Resizing every row. -/
theorem Shape.mapResize (hg : Shape h w g) (n : Nat) (a : α) : Shape h n (g.map (resize · n a)) := by
  refine ⟨by rw [List.length_map, hg.length], fun l hl => ?_⟩
  obtain ⟨l', -, rfl⟩ := List.mem_map.mp hl
  exact length_resize l' n a

/-- What is not cut off stays. -/
theorem getElem?_resize {l : List β} {n i : Nat} (hn : n ≤ l.length) (hi : i < n) (b : β) :
    (resize l n b)[i]? = l[i]? := by
  have htake : i < (l.take n).length := by
    rw [List.length_take]
    omega
  rw [resize, List.getElem?_append_left htake, List.getElem?_take_of_lt hi]

theorem Shape.get_resizeRows {n : Nat} (hg : Shape h w g) (hn : n ≤ h) (hr : r < n) (l : List α) (c : Nat) :
    Grid.get (resize g n l) r c = g.get r c := by
  rw [Grid.get, getElem?_resize (by rw [hg.length]; exact hn) hr, Grid.get]

theorem Shape.get_mapResize {n : Nat} (hg : Shape h w g) (hn : n ≤ w) (hr : r < h) (hc : c < n) (a : α) :
    Grid.get (List.map (resize · n a) g) r c = g.get r c := by
  obtain ⟨row, hrow, hl⟩ := hg.getRow hr
  rw [Grid.get, List.getElem?_map, hrow, Grid.get, hrow]
  exact getElem?_resize (by rw [hl]; exact hn) hc a

/-- Rewriting every cell by a total function. -/
def map (f : α → β) (g : Grid α) : Grid β := List.map (List.map f) g

theorem Shape.map (hg : Shape h w g) (f : α → β) : Shape h w (g.map f) := by
  refine ⟨by rw [Grid.map, List.length_map, hg.length], fun l hl => ?_⟩
  obtain ⟨l', hl', rfl⟩ := List.mem_map.mp hl
  rw [List.length_map]
  exact hg.row l' hl'

theorem get_map (g : Grid α) (f : α → β) (r c : Nat) : (g.map f).get r c = (g.get r c).map f := by
  simp only [get, map, List.getElem?_map]
  cases g[r]? with
  | none => rfl
  | some row => simp

/-! ## Gathering -/

/-- Every cell of `g'` is a copy of the cell of `g` that `src` names, within the shape. -/
structure Gathers (h w : Nat) (src : Nat → Nat → Nat × Nat) (g g' : Grid α) : Prop where
  shape : Shape h w g'
  inside : ∀ r c, r < h → c < w → (src r c).1 < h ∧ (src r c).2 < w
  cell : ∀ r c, r < h → c < w → g'.get r c = g.get (src r c).1 (src r c).2

/-- Copying commutes with rewriting every cell. -/
theorem Gathers.map {src : Nat → Nat → Nat × Nat} (hg : Gathers h w src g g') (f : α → β) :
    Gathers h w src (g.map f) (g'.map f) where
  shape := hg.shape.map f
  inside := hg.inside
  cell r c hr hc := by rw [get_map, get_map, hg.cell r c hr hc]

/-- The copies are determined. -/
theorem Gathers.unique {src : Nat → Nat → Nat × Nat} {g'' : Grid α} (hg : Gathers h w src g g')
    (hg' : Gathers h w src g g'') : g' = g'' :=
  hg.shape.ext hg'.shape fun r c hr hc => (hg.cell r c hr hc).trans (hg'.cell r c hr hc).symm

/-! ## A property of every cell -/

def All (P : α → Prop) (g : Grid α) : Prop := ∀ l ∈ g, ∀ a ∈ l, P a

namespace All

variable {P : α → Prop} {Q : β → Prop}

theorem get (hP : All P g) (h : g.get r c = some a) : P a := by
  obtain ⟨l, hl, ha⟩ := Option.bind_eq_some_iff.mp h
  exact hP l (List.mem_of_getElem? hl) a (List.mem_of_getElem? ha)

/-- It is enough to look at the cells of the shape. -/
theorem of_get (hg : Shape h w g) (hP : ∀ r c a, r < h → c < w → g.get r c = some a → P a) : All P g := by
  intro l hl a ha
  obtain ⟨r, hr, rfl⟩ := List.mem_iff_getElem.mp hl
  obtain ⟨c, hc, rfl⟩ := List.mem_iff_getElem.mp ha
  have hw := hg.row _ hl
  have hget : g.get r c = some g[r][c] := by
    rw [Grid.get, List.getElem?_eq_getElem hr, Option.bind_some, List.getElem?_eq_getElem hc]
  exact hP r c _ (hg.length ▸ hr) (hw ▸ hc) hget

theorem map {f : α → β} (hP : All P g) (hf : ∀ a, P a → Q (f a)) : All Q (g.map f) := by
  intro l hl b hb
  obtain ⟨l', hl', rfl⟩ := List.mem_map.mp hl
  obtain ⟨a, ha, rfl⟩ := List.mem_map.mp hb
  exact hf a (hP l' hl' a ha)

theorem replicate (h w : Nat) (ha : P a) : All P (List.replicate h (List.replicate w a)) := by
  intro l hl b hb
  rw [List.eq_of_mem_replicate hl] at hb
  rwa [List.eq_of_mem_replicate hb]

/-- The entries of a resized list are old ones or the filler. -/
theorem mem_resize {γ : Type*} {l : List γ} {n : Nat} {x y : γ} (hy : y ∈ Grid.resize l n x) : y ∈ l ∨ y = x := by
  rcases List.mem_append.mp hy with hy | hy
  · exact .inl (List.mem_of_mem_take hy)
  · exact .inr (List.eq_of_mem_replicate hy)

/-- New rows are empty. -/
theorem resizeRows (hP : All P g) (n : Nat) : All P (Grid.resize g n []) := by
  intro l hl a ha
  rcases mem_resize hl with hl | rfl
  · exact hP l hl a ha
  · cases ha

theorem mapResize (hP : All P g) (n : Nat) (ha : P a) : All P (List.map (Grid.resize · n a) g) := by
  intro l hl b hb
  obtain ⟨l', hl', rfl⟩ := List.mem_map.mp hl
  rcases mem_resize hb with hb | rfl
  · exact hP l' hl' b hb
  · exact ha

end All

/-! ## Sweeps -/

/-- `for (c = 0; c < w; ++c)` rewrites cell `(r, c)` by `f c`. -/
def sweepRow (r w : Nat) (f : Nat → α → Option α) (g : Grid α) : Option (Grid α) :=
  upTo (fun c g => modify g r c (f c)) w g

/-- `for (r = 0; r < h; ++r) for (c = 0; c < w; ++c)` rewrites cell `(r, c)` by `f r c`. -/
def sweep (h w : Nat) (f : Nat → Nat → α → Option α) (g : Grid α) : Option (Grid α) :=
  upTo (fun r g => sweepRow r w (f r) g) h g

/-- One row of a sweep. -/
theorem sweepRow_spec {f : Nat → α → Option α} (hg : Shape h w g) (hr : r < h)
    (hf : ∀ c, c < w → ∃ b, (g.get r c).bind (f c) = some b) : ∃ g', sweepRow r w f g = some g' ∧ Shape h w g' ∧
      ∀ r' c, r' < h → c < w → g'.get r' c = if r' = r then (g.get r c).bind (f c) else g.get r' c := by
  -- after the passes before `c` the cells left of it are rewritten
  obtain ⟨g', hrun, hg', hcells⟩ := upTo_rule (s := g) (n := w) (fun c g => modify g r c (f c))
    (fun c g' => Shape h w g' ∧ ∀ r' c', r' < h → c' < w →
      g'.get r' c' = if r' = r ∧ c' < c then (g.get r c').bind (f c') else g.get r' c')
    ⟨hg, fun r' c' _ _ => by simp⟩ fun c g' hc ⟨hg', hI⟩ => by
      obtain ⟨b, hb⟩ := hf c hc
      obtain ⟨a, ha, hfa⟩ := Option.bind_eq_some_iff.mp hb
      have hold : g'.get r c = some a := by rw [hI r c hr hc, if_neg (by omega), ha]
      obtain ⟨g'', hset, hg'', hcells⟩ := hg'.set hr hc b
      refine ⟨g'', by rw [modify, hold, Option.bind_some, hfa, Option.bind_some, hset], hg'', fun r' c' hr' hc' => ?_⟩
      rw [hcells r' c', hI r' c' hr' hc']
      by_cases hrr : r' = r
      · subst hrr
        by_cases hcc : c' = c
        · subst hcc
          simp [hb]
        · have hiff : c' < c + 1 ↔ c' < c := by omega
          simp [hcc, hiff]
      · simp [hrr]
  refine ⟨g', hrun, hg', fun r' c hr' hc => ?_⟩
  rw [hcells r' c hr' hc]
  by_cases hrr : r' = r
  · subst hrr
    simp [hc]
  · simp [hrr]

/-- **A sweep rewrites every cell by what its body makes of it.** -/
theorem sweep_spec {f : Nat → Nat → α → Option α} (hg : Shape h w g)
    (hf : ∀ r c, r < h → c < w → ∃ b, (g.get r c).bind (f r c) = some b) : ∃ g', sweep h w f g = some g' ∧
      Shape h w g' ∧ ∀ r c, r < h → c < w → g'.get r c = (g.get r c).bind (f r c) := by
  -- after the passes before `r` the rows above it are rewritten
  obtain ⟨g', hrun, hg', hcells⟩ := upTo_rule (s := g) (n := h) (fun r g => sweepRow r w (f r) g)
    (fun r g' => Shape h w g' ∧ ∀ r' c, r' < h → c < w →
      g'.get r' c = if r' < r then (g.get r' c).bind (f r' c) else g.get r' c)
    ⟨hg, fun r' c _ _ => by simp⟩ fun r g' hr ⟨hg', hI⟩ => by
      have hold : ∀ c, c < w → g'.get r c = g.get r c := fun c hc => by rw [hI r c hr hc, if_neg (by omega)]
      obtain ⟨g'', hrow, hg'', hcells⟩ := sweepRow_spec hg' hr fun c hc => by rw [hold c hc]; exact hf r c hr hc
      refine ⟨g'', hrow, hg'', fun r' c hr' hc => ?_⟩
      rw [hcells r' c hr' hc, hI r' c hr' hc]
      by_cases hrr : r' = r
      · subst hrr
        simp [hold c hc]
      · have hiff : r' < r + 1 ↔ r' < r := by omega
        simp [hrr, hiff]
  refine ⟨g', hrun, hg', fun r c hr hc => ?_⟩
  rw [hcells r c hr hc, if_pos hr]

/-- What a pass that returns has done. -/
theorem modify_some {f : α → Option α} {g' : Grid α} (hg : Shape h w g) (hr : r < h) (hc : c < w)
    (hrun : modify g r c f = some g') : Shape h w g' ∧ ∃ b, (g.get r c).bind f = some b ∧
      ∀ r' c', g'.get r' c' = if r' = r ∧ c' = c then some b else g.get r' c' := by
  obtain ⟨a, ha, hrun⟩ := Option.bind_eq_some_iff.mp hrun
  obtain ⟨b, hb, hset⟩ := Option.bind_eq_some_iff.mp hrun
  obtain ⟨g'', hset', hg'', hcells⟩ := hg.set hr hc b
  obtain rfl : g'' = g' := Option.some.inj (hset'.symm.trans hset)
  exact ⟨hg'', b, by rw [ha, Option.bind_some, hb], hcells⟩

/-- One row of a sweep that returns. -/
theorem sweepRow_some {f : Nat → α → Option α} {g' : Grid α} (hg : Shape h w g) (hr : r < h)
    (hrun : sweepRow r w f g = some g') : ∀ c, c < w → ∃ b, (g.get r c).bind (f c) = some b := by
  have hI := upTo_inv (fun c g' => Shape h w g' ∧ (∀ c', c ≤ c' → g'.get r c' = g.get r c') ∧
      ∀ c', c' < c → ∃ b, (g.get r c').bind (f c') = some b)
    ⟨hg, fun _ _ => rfl, fun c' hc' => absurd hc' (Nat.not_lt_zero _)⟩ (fun c g₁ g₂ hc ⟨hg₁, hold, hdone⟩ hpass => by
      obtain ⟨hg₂, b, hb, hcells⟩ := modify_some hg₁ hr hc hpass
      rw [hold c (Nat.le_refl c)] at hb
      refine ⟨hg₂, fun c' hc' => ?_, fun c' hc' => ?_⟩
      · rw [hcells, if_neg (by omega), hold c' (by omega)]
      · rcases Nat.lt_succ_iff_lt_or_eq.mp hc' with hc' | rfl
        · exact hdone c' hc'
        · exact ⟨b, hb⟩) hrun
  exact hI.2.2

/-- **A sweep that returns succeeded on every cell**, and so rewrote every cell. -/
theorem sweep_some {f : Nat → Nat → α → Option α} {g' : Grid α} (hg : Shape h w g) (hrun : sweep h w f g = some g') :
    Shape h w g' ∧ ∀ r c, r < h → c < w → ∃ b, (g.get r c).bind (f r c) = some b ∧ g'.get r c = some b := by
  have hI := upTo_inv (fun r g' => Shape h w g' ∧ (∀ r' c, r ≤ r' → r' < h → c < w → g'.get r' c = g.get r' c) ∧
      ∀ r' c, r' < r → c < w → ∃ b, (g.get r' c).bind (f r' c) = some b)
    ⟨hg, fun _ _ _ _ _ => rfl, fun r' c hr' => absurd hr' (Nat.not_lt_zero _)⟩
    (fun r g₁ g₂ hr ⟨hg₁, hold, hdone⟩ hpass => by
      have hrow := sweepRow_some hg₁ hr hpass
      obtain ⟨g₃, hpass', hg₃, hcells⟩ := sweepRow_spec hg₁ hr hrow
      obtain rfl : g₃ = g₂ := Option.some.inj (hpass'.symm.trans hpass)
      refine ⟨hg₃, fun r' c hr' hr'' hc => ?_, fun r' c hr' hc => ?_⟩
      · rw [hcells r' c hr'' hc, if_neg (by omega), hold r' c (by omega) hr'' hc]
      · rcases Nat.lt_succ_iff_lt_or_eq.mp hr' with hr' | rfl
        · exact hdone r' c hr' hc
        · rw [← hold r' c (Nat.le_refl _) hr hc]
          exact hrow c hc) hrun
  obtain ⟨-, -, hdone⟩ := hI
  obtain ⟨g'', hrun', hg'', hcells⟩ := sweep_spec hg fun r c hr hc => hdone r c hr hc
  obtain rfl : g'' = g' := Option.some.inj (hrun'.symm.trans hrun)
  refine ⟨hg'', fun r c hr hc => ?_⟩
  obtain ⟨b, hb⟩ := hdone r c hr hc
  exact ⟨b, hb, by rw [hcells r c hr hc, hb]⟩

/-- A pass that returns found its cell, and leaves the cells that there are. -/
theorem modify_isSome {f : α → Option α} (hrun : modify g r c f = some g') :
    (g.get r c).isSome ∧ ∀ r' c', (g'.get r' c').isSome = (g.get r' c').isSome := by
  obtain ⟨a, ha, hrun⟩ := Option.bind_eq_some_iff.mp hrun
  obtain ⟨b, -, hset⟩ := Option.bind_eq_some_iff.mp hrun
  refine ⟨by rw [ha]; rfl, fun r' c' => ?_⟩
  rw [get_set hset]
  split
  case isTrue heq => rw [heq.1, heq.2, ha]; rfl
  case isFalse => rfl

/-- **A sweep that returns found all its cells**, whatever the shape of the grid. -/
theorem sweep_isSome {f : Nat → Nat → α → Option α} (hrun : sweep h w f g = some g') :
    ∀ r c, r < h → c < w → (g.get r c).isSome := by
  have hI := upTo_inv (fun r g' => (∀ r' c, (g'.get r' c).isSome = (g.get r' c).isSome) ∧
      ∀ r' c, r' < r → c < w → (g.get r' c).isSome)
    ⟨fun _ _ => rfl, fun r' c hr' => absurd hr' (Nat.not_lt_zero _)⟩ (fun r g₁ g₂ _ ⟨hsame, hdone⟩ hrow => by
      have hJ := upTo_inv (fun c g' => (∀ r' c', (g'.get r' c').isSome = (g.get r' c').isSome) ∧
          ∀ c', c' < c → (g.get r c').isSome)
        ⟨hsame, fun c' hc' => absurd hc' (Nat.not_lt_zero _)⟩ (fun c g₃ g₄ _ ⟨hsame, hdone⟩ hpass => by
          obtain ⟨hcell, hkeep⟩ := modify_isSome hpass
          refine ⟨fun r' c' => (hkeep r' c').trans (hsame r' c'), fun c' hc' => ?_⟩
          rcases Nat.lt_succ_iff_lt_or_eq.mp hc' with hc' | rfl
          · exact hdone c' hc'
          · rw [← hsame]
            exact hcell) hrow
      refine ⟨hJ.1, fun r' c hr' hc => ?_⟩
      rcases Nat.lt_succ_iff_lt_or_eq.mp hr' with hr' | rfl
      · exact hdone r' c hr' hc
      · exact hJ.2 c hc) hrun
  exact hI.2

/-- A sweep over rows without cells changes nothing. -/
theorem sweep_zero_width (h : Nat) (f : Nat → Nat → α → Option α) (g : Grid α) : sweep h 0 f g = some g :=
  upTo_id fun _ _ => rfl

end Grid
