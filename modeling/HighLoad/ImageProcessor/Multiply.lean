import HighLoad.Lib.Convolution
import HighLoad.ImageProcessor.Image

/-!
# `Image::Multiply`

`multiply` convolves the pixels with a kernel into the static buffer and swaps the two. A neighbour outside the image is
looked for at its mirror image (`reflect`); where that is outside too, the pixel itself is taken (`source`), so that
every index is within the image (`source_mem`). With an odd number of rows and of columns the kernel is read within its
bounds, and `multiply` fills an image of the same shape (`multiply_fills`) with the clamped weighted sums over the
neighbours (`multiplyAt_window`). `transpose` turns a kernel over (`transpose_spec`).

Of what C++ leaves undefined, an index outside a vector has no result (`none`), here and in all filters; signed overflow
and the cast of a value out of range are taken to wrap (`wrap32`, `toInt32`).
-/

namespace HighLoad.ImageProcessor

open Loop

/-! ## Machine integers -/

/-- The value of an `int32_t`; signed overflow wraps. -/
def wrap32 (x : Int) : Int := x.bmod (2 ^ 32)

/-- A value of `int32_t`, or `int`. -/
def InInt (x : Int) : Prop := -2 ^ 31 ≤ x ∧ x < 2 ^ 31

/-- The value of an `int32_t` converted to `uint32_t`. -/
def toU32 (x : Int) : Nat := (x % 2 ^ 32).toNat

theorem wrap32_eq {x : Int} (h₁ : -2 ^ 31 ≤ x) (h₂ : x < 2 ^ 31) : wrap32 x = x := by
  unfold wrap32 Int.bmod
  dsimp only
  split
  · omega
  · omega

/-- The `int32_t` of a side below `2 ^ 31`. -/
theorem wrap32_side {n : Nat} (h : n < 2 ^ 31) : (wrap32 n).toNat = n := by
  rw [wrap32_eq (by omega) (by omega)]
  omega

/-- From `2 ^ 31` on it is negative, and a loop up to it has no pass. -/
theorem wrap32_huge {n : Nat} (h : 2 ^ 31 ≤ n) (h' : n < 2 ^ 32) : (wrap32 n).toNat = 0 := by
  unfold wrap32 Int.bmod
  dsimp only
  split
  · omega
  · omega

/-- `g[r][c]` for signed indices: a negative one is a huge unsigned one. -/
def getAt {α : Type*} (g : Grid α) (r c : Int) : Option α := if 0 ≤ r ∧ 0 ≤ c then g.get r.toNat c.toNat else none

theorem getAt_isSome {α : Type*} {g : Grid α} {h w : Nat} {r c : Int} (hg : Grid.Shape h w g)
    (hr : 0 ≤ r ∧ r < h) (hc : 0 ≤ c ∧ c < w) : ∃ a, getAt g r c = some a := by
  unfold getAt
  rw [if_pos ⟨hr.1, hc.1⟩]
  exact hg.get (by omega) (by omega)

/-! ## The border rule -/

def inSquare (cRow cCol rows cols : Int) : Bool := 0 ≤ cRow && cRow < rows && 0 ≤ cCol && cCol < cols

/-- The two reflections on one axis, whose side is `side`. -/
def reflect (side : UInt32) (c : Int) : Int :=
  let c := if c < 0 then wrap32 (-c) else c
  if side.toNat ≤ toU32 c then wrap32 (wrap32 side.toNat - 1 - c) else c

/-- Where the neighbour of `(row, col)` at a distance is read. -/
def source (info : InfoHeader) (row col : Nat) (dRow dCol : Int) : Int × Int :=
  let cRow := reflect info.height (wrap32 (row + dRow))
  let cCol := reflect info.width (wrap32 (col + dCol))
  if inSquare cRow cCol (wrap32 info.height.toNat) (wrap32 info.width.toNat) then (cRow, cCol) else (row, col)

/-- A neighbour is read within the image. -/
theorem source_mem {info : InfoHeader} {row col : Nat} (hh : info.height.toNat < 2 ^ 31)
    (hw : info.width.toNat < 2 ^ 31) (hrow : row < info.height.toNat) (hcol : col < info.width.toNat)
    (dRow dCol : Int) :
    (0 ≤ (source info row col dRow dCol).1 ∧ (source info row col dRow dCol).1 < info.height.toNat) ∧
      0 ≤ (source info row col dRow dCol).2 ∧ (source info row col dRow dCol).2 < info.width.toNat := by
  have hheight : wrap32 (info.height.toNat : Int) = info.height.toNat := wrap32_eq (by omega) (by omega)
  have hwidth : wrap32 (info.width.toNat : Int) = info.width.toNat := wrap32_eq (by omega) (by omega)
  unfold source
  rw [hheight, hwidth]
  dsimp only
  split
  case isTrue hin =>
    simp only [inSquare, Bool.and_eq_true, decide_eq_true_eq] at hin
    exact ⟨⟨hin.1.1.1, hin.1.1.2⟩, hin.1.2, hin.2⟩
  case isFalse =>
    dsimp only
    omega

/-! ## Multiplying -/

section Multiply

variable {F : Type} [Field F]

/-- `struct Matrix`. -/
abbrev Matrix (F : Type) := Grid F

/-- Adds `coeff * px` to every component. -/
def Pixel.addMul (acc : Pixel F) (coeff : F) (px : Pixel F) : Pixel F :=
  ⟨acc.r + coeff * px.r, acc.g + coeff * px.g, acc.b + coeff * px.b⟩

/-- A pass of the innermost loop: `dRow` and `dCol` run from `-midRow` and `-midCol`. -/
def multiplyPass (matrix : Matrix F) (info : InfoHeader) (pixels : Grid (Pixel F)) (midRow midCol : Int)
    (row col i j : Nat) (acc : Pixel F) : Option (Pixel F) :=
  let dRow := i - midRow
  let dCol := j - midCol
  let (cRow, cCol) := source info row col dRow dCol
  (getAt matrix (dRow + midRow) (dCol + midCol)).bind fun coeff => (getAt pixels cRow cCol).bind fun px =>
    some (acc.addMul coeff px)

/-- The sum over the kernel at `(row, col)`, kept in `buffer[row][col]` by the source. -/
def multiplyAt (matrix : Matrix F) (info : InfoHeader) (pixels : Grid (Pixel F)) (midRow midCol : Int)
    (row col : Nat) : Option (Pixel F) :=
  upTo (fun i acc => upTo (multiplyPass matrix info pixels midRow midCol row col i) (2 * midCol + 1).toNat acc)
    (2 * midRow + 1).toNat ⟨0, 0, 0⟩

/-! ### The sum as a weighted sum -/

inductive Channel where
  | r
  | g
  | b

def Pixel.channel (p : Pixel F) : Channel → F
  | .r => p.r
  | .g => p.g
  | .b => p.b

omit [Field F] in
theorem Pixel.ext_channel {p q : Pixel F} (h : ∀ ch, p.channel ch = q.channel ch) : p = q :=
  Pixel.ext (h .r) (h .g) (h .b)

@[simp] theorem Pixel.channel_start (ch : Channel) : (⟨0, 0, 0⟩ : Pixel F).channel ch = 0 := by
  cases ch with
  | r => rfl
  | g => rfl
  | b => rfl

@[simp] theorem Pixel.channel_addMul (acc : Pixel F) (coeff : F) (px : Pixel F) (ch : Channel) :
    (acc.addMul coeff px).channel ch = acc.channel ch + coeff * px.channel ch := by
  cases ch with
  | r => rfl
  | g => rfl
  | b => rfl

/-- The pixel at a place; black outside the image. -/
def cell (pixels : Grid (Pixel F)) (place : Int × Int) : Pixel F := (getAt pixels place.1 place.2).getD Pixel.zero

/-- An entry of a kernel; 0 outside it. -/
def entry (matrix : Matrix F) (i j : Nat) : F := (matrix.get i j).getD 0

variable {matrix : Matrix F} {info : InfoHeader} {pixels buffer : Grid (Pixel F)} {midRow midCol : Int}
  {m n row col : Nat}

/-- A pass adds its term of the sum. -/
theorem multiplyPass_eq (hpx : Grid.Shape info.height.toNat info.width.toNat pixels) (hh : info.height.toNat < 2 ^ 31)
    (hw : info.width.toNat < 2 ^ 31) (hrow : row < info.height.toNat) (hcol : col < info.width.toNat) {i j : Nat}
    (hentry : ∃ x, matrix.get i j = some x) (acc : Pixel F) :
    multiplyPass matrix info pixels midRow midCol row col i j acc =
      some (acc.addMul (entry matrix i j) (cell pixels (source info row col (i - midRow) (j - midCol)))) := by
  obtain ⟨hr, hc⟩ := source_mem hh hw hrow hcol (i - midRow) (j - midCol)
  obtain ⟨px, hpx⟩ := getAt_isSome hpx hr hc
  obtain ⟨coeff, hcoeff⟩ := hentry
  have hread : getAt matrix (i - midRow + midRow) (j - midCol + midCol) = some coeff := by
    rw [sub_add_cancel, sub_add_cancel, getAt, if_pos ⟨Int.natCast_nonneg i, Int.natCast_nonneg j⟩]
    exact hcoeff
  simp only [multiplyPass, hread, hpx, Option.bind_some, entry, hcoeff, Option.getD_some, cell]

/-- **The kernel and the image are read within their bounds, and the sum is the weighted sum over the neighbours.** -/
theorem multiplyAt_window (hentry : ∀ i j, i < (2 * midRow + 1).toNat → j < (2 * midCol + 1).toNat →
      ∃ x, matrix.get i j = some x)
    (hpx : Grid.Shape info.height.toNat info.width.toNat pixels) (hh : info.height.toNat < 2 ^ 31)
    (hw : info.width.toNat < 2 ^ 31) (hrow : row < info.height.toNat) (hcol : col < info.width.toNat) :
    ∃ p, multiplyAt matrix info pixels midRow midCol row col = some p ∧ ∀ ch, p.channel ch =
      weightedSum (2 * midRow + 1).toNat (2 * midCol + 1).toNat (entry matrix) fun i j =>
        (cell pixels (source info row col (i - midRow) (j - midCol))).channel ch := by
  unfold multiplyAt weightedSum
  -- after the passes before `i` the sum has the first `i` rows of the kernel
  refine upTo_rule _ (fun i acc => ∀ ch, Pixel.channel acc ch =
      ∑ i ∈ Finset.range i, ∑ j ∈ Finset.range (2 * midCol + 1).toNat, entry matrix i j *
        (cell pixels (source info row col (i - midRow) (j - midCol))).channel ch) (by simp) fun i acc hi hacc => ?_
  obtain ⟨p, hp, hsum⟩ := upTo_rule (n := (2 * midCol + 1).toNat) (s := acc)
    (multiplyPass matrix info pixels midRow midCol row col i)
    (fun j p => ∀ ch, p.channel ch = acc.channel ch + ∑ j ∈ Finset.range j, entry matrix i j *
      (cell pixels (source info row col (i - midRow) (j - midCol))).channel ch) (by simp) fun j p hj hsum => by
      refine ⟨_, multiplyPass_eq hpx hh hw hrow hcol (hentry i j hi hj) p, fun ch => ?_⟩
      rw [Pixel.channel_addMul, hsum ch, Finset.sum_range_succ, add_assoc]
  exact ⟨p, hp, fun ch => by rw [hsum ch, hacc ch, Finset.sum_range_succ]⟩

/-- What a pixel read by signed indices has in common with all. -/
theorem getAt_all {α : Type*} {P : α → Prop} {g : Grid α} {r c : Int} {a : α} (hP : Grid.All P g)
    (h : getAt g r c = some a) : P a :=
  hP.get (Option.ite_none_right_eq_some.mp h).2

/-- **The sum over the kernel** has what sums of pixels have, if `0` has it and adding a multiple of a pixel keeps
it. -/
theorem multiplyAt_inv {P A : Pixel F → Prop} {acc : Pixel F} (h0 : A ⟨0, 0, 0⟩)
    (hadd : ∀ acc coeff px, A acc → P px → A (acc.addMul coeff px)) (hP : Grid.All P pixels)
    (h : multiplyAt matrix info pixels midRow midCol row col = some acc) : A acc := by
  refine upTo_inv (fun _ => A) h0 (fun i s t _ hs hrow => ?_) h
  refine upTo_inv (fun _ => A) hs (fun j s t _ hs hpass => ?_) hrow
  obtain ⟨coeff, -, hpass⟩ := Option.bind_eq_some_iff.mp hpass
  obtain ⟨px, hpx, hpass⟩ := Option.bind_eq_some_iff.mp hpass
  cases hpass
  exact hadd s coeff px hs (getAt_all hP hpx)

variable [LinearOrder F]

def normalize (x : F) : F := min 1 (max 0 x)

def Pixel.normalize (p : Pixel F) : Pixel F :=
  ⟨ImageProcessor.normalize p.r, ImageProcessor.normalize p.g, ImageProcessor.normalize p.b⟩

/-- The pixels and the static buffer after `Multiply`. -/
def multiply (matrix : Matrix F) (info : InfoHeader) (pixels buffer : Grid (Pixel F)) :
    Option (Grid (Pixel F) × Grid (Pixel F)) :=
  match matrix with
  | [] => none
  | first :: _ =>
    let midRow := (wrap32 matrix.length).tdiv 2
    let midCol := (wrap32 first.length).tdiv 2
    let maxh := wrap32 info.height.toNat
    let maxw := wrap32 info.width.toNat
    (Grid.sweep maxh.toNat maxw.toNat
      (fun row col _ => (multiplyAt matrix info pixels midRow midCol row col).map Pixel.normalize) buffer).map
      fun buffer => (buffer, pixels)

/-- `mid_row` for a kernel of `n` rows, and `mid_col` for one of `n` columns. -/
def half (n : Nat) : Int := (wrap32 n).tdiv 2

theorem half_odd {n : Nat} (hn : 2 * n + 1 < 2 ^ 31) : half (2 * n + 1) = n := by
  rw [half, wrap32_eq (by omega) (by omega), Int.tdiv_eq_ediv_of_nonneg (by omega)]
  omega

/-- An odd kernel has the rows from `-mid_row` to `mid_row`, even where its size wraps. -/
theorem half_le {n : Nat} (hn : n % 2 = 1) : (2 * half n + 1).toNat ≤ n := by
  have hrange : wrap32 n ≤ n := by
    unfold wrap32 Int.bmod
    dsimp only
    split
    · omega
    · omega
  have hodd : wrap32 n % 2 = 1 := by
    unfold wrap32 Int.bmod
    dsimp only
    split
    · omega
    · omega
  unfold half
  rcases Int.le_total 0 (wrap32 n) with hpos | hneg
  · rw [Int.tdiv_eq_ediv_of_nonneg hpos]
    omega
  · have hdiv : (wrap32 n).tdiv 2 = -(-wrap32 n / 2) := by
      rw [← Int.tdiv_eq_ediv_of_nonneg (by omega), Int.neg_tdiv, neg_neg]
    omega

/-- **`Multiply` with an odd kernel** keeps the shape: every pixel is the normalised sum at its place, and the static
buffer holds the old pixels. -/
theorem multiply_fills (hm : Grid.Shape m n matrix) (hmodd : m % 2 = 1) (hnodd : n % 2 = 1)
    (hpx : Grid.Shape info.height.toNat info.width.toNat pixels)
    (hbuf : Grid.Shape info.height.toNat info.width.toNat buffer) (hh : info.height.toNat < 2 ^ 31)
    (hw : info.width.toNat < 2 ^ 31) :
    ∃ px, multiply matrix info pixels buffer = some (px, pixels) ∧
      Grid.Shape info.height.toNat info.width.toNat px ∧
      ∀ row col, row < info.height.toNat → col < info.width.toNat →
        px.get row col = (multiplyAt matrix info pixels (half m) (half n) row col).map Pixel.normalize := by
  have hheight : (wrap32 (info.height.toNat : Int)).toNat = info.height.toNat := wrap32_side hh
  have hwidth : (wrap32 (info.width.toNat : Int)).toNat = info.width.toNat := wrap32_side hw
  obtain ⟨px, hsweep, hshape, hcells⟩ := Grid.sweep_spec hbuf
    (f := fun row col _ => (multiplyAt matrix info pixels (half m) (half n) row col).map Pixel.normalize)
    fun row col hrow hcol => by
      obtain ⟨old, hold⟩ := hbuf.get hrow hcol
      obtain ⟨p, hp, -⟩ := multiplyAt_window (fun i j hi hj =>
        hm.get (hi.trans_le (half_le hmodd)) (hj.trans_le (half_le hnodd))) hpx hh hw hrow hcol
      exact ⟨p.normalize, by rw [hold, Option.bind_some, hp, Option.map_some]⟩
  refine ⟨px, ?_, hshape, fun row col hrow hcol => ?_⟩
  · cases hmat : matrix with
    | nil =>
      have hlen := hm.length
      rw [hmat, List.length_nil] at hlen
      omega
    | cons first rest =>
      have hlen : (first :: rest).length = m := hmat ▸ hm.length
      have hfirst : first.length = n := hm.row first (hmat ▸ List.mem_cons_self)
      rw [hmat] at hsweep
      simp only [half] at hsweep
      simp only [multiply, hlen, hfirst, hheight, hwidth, hsweep, Option.map_some]
  · obtain ⟨old, hold⟩ := hbuf.get hrow hcol
    rw [hcells row col hrow hcol, hold, Option.bind_some]

/-- A kernel whose sides do not wrap. -/
theorem multiply_spec {a b : Nat} (hm : Grid.Shape (2 * a + 1) (2 * b + 1) matrix) (ha : 2 * a + 1 < 2 ^ 31)
    (hb : 2 * b + 1 < 2 ^ 31) (hpx : Grid.Shape info.height.toNat info.width.toNat pixels)
    (hbuf : Grid.Shape info.height.toNat info.width.toNat buffer) (hh : info.height.toNat < 2 ^ 31)
    (hw : info.width.toNat < 2 ^ 31) :
    ∃ px, multiply matrix info pixels buffer = some (px, pixels) ∧
      Grid.Shape info.height.toNat info.width.toNat px ∧
      ∀ row col, row < info.height.toNat → col < info.width.toNat →
        px.get row col = (multiplyAt matrix info pixels a b row col).map Pixel.normalize := by
  rw [← half_odd ha, ← half_odd hb]
  exact multiply_fills hm (by omega) (by omega) hpx hbuf hh hw

end Multiply

/-! ## Transposing -/

section Transpose

variable {F : Type} [Zero F]

/-- The `int32_t` indices run up to sides below `2 ^ 31` only. -/
def transpose (matrix : Grid F) : Option (Grid F) :=
  match matrix with
  | [] => none
  | first :: _ =>
    if matrix.length < 2 ^ 31 ∧ first.length < 2 ^ 31 then
      upTo (fun i n => upTo (fun j n => (matrix.get i j).bind fun x => n.set j i x) first.length n) matrix.length
        (List.replicate first.length (List.replicate matrix.length 0))
    else none

/-- **`Transpose`** of a kernel with a row. -/
theorem transpose_spec {matrix : Grid F} {m n : Nat} (hm : Grid.Shape m n matrix) (hpos : 0 < m) (hm31 : m < 2 ^ 31)
    (hn31 : n < 2 ^ 31) :
    ∃ t, transpose matrix = some t ∧ Grid.Shape n m t ∧ ∀ i j, i < m → j < n → t.get j i = matrix.get i j := by
  cases hmat : matrix with
  | nil =>
    have hlen := hm.length
    rw [hmat] at hlen
    simp at hlen
    omega
  | cons first rest =>
    have hlen : (first :: rest).length = m := hmat ▸ hm.length
    have hfirst : first.length = n := hm.row first (hmat ▸ List.mem_cons_self)
    unfold transpose
    dsimp only
    rw [hlen, hfirst, if_pos ⟨hm31, hn31⟩, ← hmat]
    -- the passes before `i` have filled the columns left of `i`, those before `j` the rows above `j` of column `i`
    obtain ⟨t, hrun, ht, hcells⟩ := upTo_rule (n := m) (s := List.replicate n (List.replicate m (0 : F)))
      (fun i t => upTo (fun j t => (matrix.get i j).bind fun x => Grid.set t j i x) n t)
      (fun i t => Grid.Shape n m t ∧ ∀ i' j, i' < i → j < n → Grid.get t j i' = matrix.get i' j)
      ⟨Grid.shape_replicate _ _ _, fun i' j hi => absurd hi (by omega)⟩ fun i t hi ⟨ht, hcells⟩ => by
        obtain ⟨t', hrun, ht', hold, hnew⟩ := upTo_rule (n := n) (s := t)
          (fun j t => (matrix.get i j).bind fun x => Grid.set t j i x)
          (fun j t' => Grid.Shape n m t' ∧ (∀ i' j', i' < i → j' < n → Grid.get t' j' i' = matrix.get i' j') ∧
            ∀ j', j' < j → Grid.get t' j' i = matrix.get i j')
          ⟨ht, hcells, fun j' hj => absurd hj (by omega)⟩ fun j t' hj ⟨ht', hold, hnew⟩ => by
            obtain ⟨x, hx⟩ := hm.get hi hj
            obtain ⟨t'', hset, ht'', hget⟩ := ht'.set hj hi x
            refine ⟨t'', by rw [hx, Option.bind_some, hset], ht'', fun i' j' hi' hj' => ?_, fun j' hj' => ?_⟩
            · rw [hget, if_neg (by omega)]
              exact hold i' j' hi' hj'
            · rw [hget]
              by_cases hjj : j' = j
              · rw [if_pos ⟨hjj, rfl⟩, hjj, hx]
              · rw [if_neg (by omega)]
                exact hnew j' (by omega)
        refine ⟨t', hrun, ht', fun i' j hi' hj => ?_⟩
        by_cases hii : i' = i
        · rw [hii]
          exact hnew j hj
        · exact hold i' j (by omega) hj
    exact ⟨t, hrun, ht, hcells⟩

theorem transpose_huge {matrix : Grid F} {m n : Nat} (hm : Grid.Shape m n matrix) (hside : 2 ^ 31 ≤ m ∨ 2 ^ 31 ≤ n) :
    transpose matrix = none := by
  cases hmat : matrix with
  | nil => rfl
  | cons first rest =>
    have hlen : (first :: rest).length = m := hmat ▸ hm.length
    have hfirst : first.length = n := hm.row first (hmat ▸ List.mem_cons_self)
    unfold transpose
    dsimp only
    rw [hlen, hfirst, if_neg (by omega)]

end Transpose

end HighLoad.ImageProcessor
