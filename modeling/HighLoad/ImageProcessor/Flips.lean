import HighLoad.ImageProcessor.Transposition

/-!
# Flipped images

`Multiply` treats the two ends of an axis differently: before the image a neighbour is taken at its reflection, beyond
it the reflection fails and the pixel itself is taken. So the flipped image does not give the flipped result, whatever
the symmetry of the kernel, as soon as the kernel reaches beyond its own row and the image has two rows
(`commutes_rows_iff`). Where it does not, the border rule reads the same row (`source_row`).

The columns are the rows of the transposed image (`commutes_swap`).
-/

namespace HighLoad.ImageProcessor

variable {F : Type} {p q : Process F} {matrix : Matrix F} {m n row col : Nat}

/-! ## Flips -/

/-- The place that a flip brings to a place, in a grid of a height and a width. -/
abbrev Flip := Nat → Nat → Nat → Nat → Nat × Nat

/-- The top-bottom flip. -/
def flipRows : Flip := fun height _ row col => (height - 1 - row, col)

/-- The left-right flip. -/
def flipColumns : Flip := fun _ width row col => (row, width - 1 - col)

/-- A flip stays within the grid. -/
def Flip.Inner (flip : Flip) : Prop :=
  ∀ height width row col, row < height → col < width →
    (flip height width row col).1 < height ∧ (flip height width row col).2 < width

theorem flipRows_inner : Flip.Inner flipRows := by
  intro height width row col hrow hcol
  show height - 1 - row < height ∧ col < width
  omega

theorem flipColumns_inner : Flip.Inner flipColumns := by
  intro height width row col hrow hcol
  show row < height ∧ width - 1 - col < width
  omega

/-- `q` has the image of `p`, flipped. -/
structure Flipped (flip : Flip) (p q : Process F) : Prop where
  height : q.image.height = p.image.height
  width : q.image.width = p.image.width
  cell : ∀ row col, row < p.image.height.toNat → col < p.image.width.toNat →
    q.image.pixels.get row col = p.image.pixels.get (flip p.image.height.toNat p.image.width.toNat row col).1
      (flip p.image.height.toNat p.image.width.toNat row col).2

/-- A kernel of `m` rows and `n` columns that is its own flip. -/
structure SelfFlipped (flip : Flip) (m n : Nat) (matrix : Matrix F) : Prop where
  shape : Grid.Shape m n matrix
  cell : ∀ i j, i < m → j < n → matrix.get i j = matrix.get (flip m n i j).1 (flip m n i j).2

/-- The pixels and the static buffer are `height` rows of `width` entries. -/
structure Filled (p : Process F) : Prop where
  pixels : Grid.Shape p.image.height.toNat p.image.width.toNat p.image.pixels
  buffer : Grid.Shape p.image.height.toNat p.image.width.toNat p.buffer

section Commutes

variable [Field F] [LinearOrder F] {flip flip' : Flip}

/-- `Multiply` of the flipped image is the flipped result, for all images of a size and all kernels of a size that are
their own flip. -/
def Commutes (F : Type) [Field F] [LinearOrder F] (flip : Flip) (height width : UInt32) (m n : Nat) : Prop :=
  ∀ (p q : Process F) (matrix : Matrix F), p.image.height = height → p.image.width = width → Filled p → Filled q →
    Flipped flip p q → SelfFlipped flip m n matrix →
    ∃ p' q', p.multiply matrix = some p' ∧ q.multiply matrix = some q' ∧ Flipped flip p' q'

/-- The results are flipped where the weighted sums are. -/
theorem multiply_flipped_iff (hinner : flip.Inner) (hp : Shaped p) (hq : Shaped q) (hpq : Flipped flip p q)
    (hm : Grid.Shape m n matrix) (hmodd : m % 2 = 1) (hnodd : n % 2 = 1) :
    (∃ p' q', p.multiply matrix = some p' ∧ q.multiply matrix = some q' ∧ Flipped flip p' q') ↔
      ∀ row col ch, row < p.image.height.toNat → col < p.image.width.toNat →
        normalize (windowSum matrix q.image.toInfoHeader q.image.pixels (half m) (half n) row col ch) =
          normalize (windowSum matrix p.image.toInfoHeader p.image.pixels (half m) (half n)
            (flip p.image.height.toNat p.image.width.toNat row col).1
            (flip p.image.height.toNat p.image.width.toNat row col).2 ch) := by
  obtain ⟨px, hp', hpx, hcells⟩ := multiply_window hp hm hmodd hnodd
  obtain ⟨qx, hq', hqx, hcells'⟩ := multiply_window hq hm hmodd hnodd
  rw [hpq.height, hpq.width] at hqx hcells'
  constructor
  · rintro ⟨p'', q'', hp'', hq'', hflip⟩ row col ch hrow hcol
    obtain rfl := Option.some.inj (hp'.symm.trans hp'')
    obtain rfl := Option.some.inj (hq'.symm.trans hq'')
    obtain ⟨hr, hc⟩ := hinner _ _ row col hrow hcol
    have hcell : qx.get row col = px.get (flip p.image.height.toNat p.image.width.toNat row col).1
      (flip p.image.height.toNat p.image.width.toNat row col).2 := hflip.cell row col hrow hcol
    rw [get_cell hqx hrow hcol, get_cell hpx hr hc, Option.some.injEq] at hcell
    rw [← hcells' row col ch hrow hcol, ← hcells _ _ ch hr hc, hcell]
  · intro hsum
    suffices hcell : ∀ row col, row < p.image.height.toNat → col < p.image.width.toNat →
        qx.get row col = px.get (flip p.image.height.toNat p.image.width.toNat row col).1
          (flip p.image.height.toNat p.image.width.toNat row col).2 from
      ⟨_, _, hp', hq', hpq.height, hpq.width, hcell⟩
    intro row col hrow hcol
    obtain ⟨hr, hc⟩ := hinner _ _ row col hrow hcol
    rw [get_cell hqx hrow hcol, get_cell hpx hr hc]
    refine congrArg some (Pixel.ext_channel fun ch => ?_)
    rw [hcells' row col ch hrow hcol, hcells _ _ ch hr hc]
    exact hsum row col ch hrow hcol

/-! ## Columns as rows -/

/-- The image and the static buffer, transposed. -/
def Process.turn (p : Process F) : Process F where
  image :=
    { p.image with
      height := p.image.width
      width := p.image.height
      pixels := Grid.tabulate p.image.width.toNat p.image.height.toNat fun row col => cell p.image.pixels (col, row) }
  buffer := Grid.tabulate p.image.width.toNat p.image.height.toNat fun row col => cell p.buffer (col, row)
  matrix := p.matrix

omit [LinearOrder F] in
theorem turn_filled (p : Process F) : Filled p.turn := ⟨Grid.shape_tabulate _ _ _, Grid.shape_tabulate _ _ _⟩

omit [LinearOrder F] in
theorem Filled.turn (hp : Filled p) : Transposed p p.turn where
  height := rfl
  width := rfl
  cell _ _ hrow hcol := (Grid.get_tabulate hcol hrow _).trans (get_cell hp.pixels hrow hcol).symm

omit [LinearOrder F] in
theorem Filled.turn_buffer (hp : Filled p) (hrow : row < p.image.height.toNat) (hcol : col < p.image.width.toNat) :
    p.turn.buffer.get col row = p.buffer.get row col :=
  (Grid.get_tabulate hcol hrow _).trans (get_cell hp.buffer hrow hcol).symm

omit [LinearOrder F] in
/-- The transpose of a flipped image is flipped along the other axis. -/
theorem Flipped.turn (hinner : flip'.Inner)
    (hswap : ∀ height width row col, flip height width row col = (flip' width height col row).swap) (hp : Filled p)
    (hq : Filled q) (hpq : Flipped flip' p q) : Flipped flip p.turn q.turn where
  height := hpq.width
  width := hpq.height
  cell row col hrow hcol := by
    obtain ⟨hr, hc⟩ := hinner _ _ col row hcol hrow
    have hqcell := hq.turn.cell col row (by rwa [hpq.height]) (by rwa [hpq.width])
    rw [hqcell, hpq.cell col row hcol hrow, hswap]
    exact (hp.turn.cell _ _ hr hc).symm

/-- **A flip along one axis is the flip along the other axis of the transposed image.** -/
theorem commutes_swap (hinner : flip.Inner) (hinner' : flip'.Inner)
    (hswap : ∀ height width row col, flip height width row col = (flip' width height col row).swap)
    {height width : UInt32} (hmodd : m % 2 = 1) (hnodd : n % 2 = 1) (h : Commutes F flip height width m n) :
    Commutes F flip' width height n m := by
  intro p q matrix hheight hwidth hp hq hpq hself
  obtain ⟨kernel, hkernel, hentry⟩ : ∃ kernel : Matrix F, Grid.Shape m n kernel ∧
      ∀ i j, i < m → j < n → kernel.get i j = matrix.get j i := by
    refine ⟨Grid.tabulate m n fun i j => entry matrix j i, Grid.shape_tabulate _ _ _, fun i j hi hj => ?_⟩
    obtain ⟨x, hx⟩ := hself.shape.get hj hi
    rw [Grid.get_tabulate hi hj, entry, hx, Option.getD_some]
  have hkernel' : SelfFlipped flip m n kernel := by
    refine ⟨hkernel, fun i j hi hj => ?_⟩
    obtain ⟨hi', hj'⟩ := hinner m n i j hi hj
    rw [hentry i j hi hj, hentry _ _ hi' hj', hself.cell j i hj hi, hswap]
    rfl
  have hturned := h p.turn q.turn kernel hwidth hheight (turn_filled p) (turn_filled q)
    (hpq.turn hinner' hswap hp hq) hkernel'
  by_cases hsmall : p.image.height.toNat < 2 ^ 31 ∧ p.image.width.toNat < 2 ^ 31
  · have hsp : Shaped p := ⟨hp.pixels, hp.buffer, hsmall.1, hsmall.2⟩
    have hsq : Shaped q := ⟨hq.pixels, hq.buffer, by rw [hpq.height]; exact hsmall.1, by rw [hpq.width]; exact hsmall.2⟩
    have hspt : Shaped p.turn := ⟨(turn_filled p).pixels, (turn_filled p).buffer, hsmall.2, hsmall.1⟩
    have hsqt : Shaped q.turn := ⟨(turn_filled q).pixels, (turn_filled q).buffer, hsq.width, hsq.height⟩
    have hwindow : ∀ i j, i < (2 * half n + 1).toNat → j < (2 * half m + 1).toNat → kernel.get j i = matrix.get i j :=
      fun i j hi hj => hentry j i (hj.trans_le (half_le hmodd)) (hi.trans_le (half_le hnodd))
    refine (multiply_flipped_iff hinner' hsp hsq hpq hself.shape hnodd hmodd).mpr fun row col ch hrow hcol => ?_
    obtain ⟨hr, hc⟩ := hinner' _ _ row col hrow hcol
    have hsum := (multiply_flipped_iff hinner hspt hsqt (hpq.turn hinner' hswap hp hq) hkernel hmodd hnodd).mp hturned
      col row ch hcol hrow
    rw [hswap] at hsum
    rw [← windowSum_transposed hsq hq.turn hwindow (by rwa [hpq.height]) (by rwa [hpq.width]),
      ← windowSum_transposed hsp hp.turn hwindow hr hc]
    exact hsum
  · obtain ⟨entries, hhead⟩ := hself.shape.head (by omega)
    obtain ⟨entries', hhead'⟩ := hkernel.head (by omega)
    have hside : 2 ^ 31 ≤ p.image.height.toNat ∨ 2 ^ 31 ≤ p.image.width.toNat := by omega
    have hside' : 2 ^ 31 ≤ q.image.height.toNat ∨ 2 ^ 31 ≤ q.image.width.toNat := by
      rw [hpq.height, hpq.width]
      exact hside
    obtain ⟨p', q', hp', hq', hflip⟩ := hturned
    obtain rfl := Option.some.inj ((multiply_huge (p := p.turn) hside.symm hhead').symm.trans hp')
    obtain rfl := Option.some.inj ((multiply_huge (p := q.turn) hside'.symm hhead').symm.trans hq')
    refine ⟨_, _, multiply_huge hside hhead, multiply_huge hside' hhead, hpq.height, hpq.width,
      fun row col hrow hcol => ?_⟩
    obtain ⟨hr, hc⟩ := hinner' _ _ row col hrow hcol
    have hcell := hflip.cell col row hcol hrow
    rw [hswap] at hcell
    exact (hq.turn_buffer (by rwa [hpq.height]) (by rwa [hpq.width])).symm.trans (hcell.trans (hp.turn_buffer hr hc))

end Commutes

/-! ## Kernels that reach no other row -/

/-- Half of the `int32_t` that a kernel's size is cast to. -/
theorem half_eq (n : Nat) :
    half n = if n % 2 ^ 32 < 2 ^ 31 then (n : Int) % 2 ^ 32 / 2 else -((2 ^ 32 - (n : Int) % 2 ^ 32) / 2) := by
  unfold half
  split
  case isTrue hlt =>
    have hwrap : wrap32 n = (n : Int) % 2 ^ 32 := Int.bmod_eq_emod_of_lt (by omega)
    rw [hwrap, Int.tdiv_eq_ediv_of_nonneg (by omega)]
  case isFalse hge =>
    have hwrap : wrap32 n = -(2 ^ 32 - (n : Int) % 2 ^ 32) := by
      rw [neg_sub]
      unfold wrap32
      rw [Int.bmod_eq_emod, if_pos (by omega)]
      rfl
    rw [hwrap, Int.neg_tdiv, Int.tdiv_eq_ediv_of_nonneg (by omega)]

/-- A kernel of `m` rows and `n` columns has no row but the middle one, or is empty: it has one row, or a size that is
cast to a negative `int32_t`. -/
def Flat (m n : Nat) : Prop := m % 2 ^ 32 = 1 ∨ 2 ^ 31 ≤ m % 2 ^ 32 ∨ 2 ^ 31 ≤ n % 2 ^ 32 ∧ n % 2 ^ 32 ≠ 2 ^ 32 - 1

theorem flat_iff (hm : m % 2 = 1) (hn : n % 2 = 1) : Flat m n ↔ half m ≤ 0 ∨ half n < 0 := by
  rw [Flat, half_eq, half_eq]
  constructor
  · intro h
    split
    · split
      · omega
      · omega
    · split
      · omega
      · omega
  · intro h
    split at h
    · split at h
      · omega
      · omega
    · split at h
      · omega
      · omega

/-- An index within the image is not reflected. -/
theorem reflect_own {side : UInt32} {x : Nat} (hs : side.toNat < 2 ^ 31) (hx : x < side.toNat) :
    reflect side (wrap32 (x + 0)) = x := by
  rw [Int.add_zero, wrap32_eq (by omega) (by omega), reflect_eq hs (by omega) (by omega), if_pos (by omega)]
  exact congrArg Nat.cast (Int.natAbs_natCast x)

theorem inSquare_own {rows cRow cCol cols : Int} (h : 0 ≤ cRow) (h' : cRow < rows) :
    inSquare cRow cCol rows cols = (0 ≤ cCol && cCol < cols) := by
  rw [inSquare, decide_eq_true h, decide_eq_true h', Bool.true_and, Bool.true_and]

/-- In its own row a neighbour is found by the column alone. -/
theorem source_row {info : InfoHeader} {row' : Nat} (hh : info.height.toNat < 2 ^ 31) (hrow : row < info.height.toNat)
    (hrow' : row' < info.height.toNat) (dCol : Int) :
    source info row' col 0 dCol = (↑row', (source info row col 0 dCol).2) := by
  have hheight : wrap32 (info.height.toNat : Int) = info.height.toNat := wrap32_eq (by omega) (by omega)
  unfold source
  rw [reflect_own hh hrow, reflect_own hh hrow', hheight]
  dsimp only
  rw [inSquare_own (Int.natCast_nonneg row) (Int.ofNat_lt.mpr hrow),
    inSquare_own (Int.natCast_nonneg row') (Int.ofNat_lt.mpr hrow')]
  split
  · rfl
  · rfl

theorem source_congr {info info' : InfoHeader} (hh : info'.height = info.height) (hw : info'.width = info.width)
    (row col : Nat) (dRow dCol : Int) : source info' row col dRow dCol = source info row col dRow dCol := by
  unfold source
  rw [hh, hw]

section Flat

variable [Field F]

/-- The sums of a kernel that reaches no other row. -/
theorem windowSum_flat (hp : Shaped p) (hpq : Flipped flipRows p q) {midRow midCol : Int} (hflat : midRow ≤ 0)
    (hrow : row < p.image.height.toNat) (hcol : col < p.image.width.toNat) (ch : Channel) :
    windowSum matrix q.image.toInfoHeader q.image.pixels midRow midCol row col ch =
      windowSum matrix p.image.toInfoHeader p.image.pixels midRow midCol (p.image.height.toNat - 1 - row) col ch := by
  refine weightedSum_congr fun i j hi hj => ?_
  have hdist : (i : Int) - midRow = 0 := by omega
  have hrow' : p.image.height.toNat - 1 - row < p.image.height.toNat := by omega
  obtain ⟨hr, hc⟩ := source_mem hp.height hp.width hrow' hcol 0 (j - midCol)
  obtain ⟨r, c, hplace, -, hc⟩ := place_nat hr hc
  have hown : ∀ row', row' < p.image.height.toNat →
      source p.image.toInfoHeader row' col 0 (j - midCol) = (↑row', ↑c) := by
    intro row' hlt
    rw [source_row hp.height hrow' hlt, hplace]
  rw [hdist, source_congr hpq.height hpq.width, hown row hrow, hown _ hrow']
  exact congrArg (entry matrix i j * Pixel.channel · ch) (cell_congr (hpq.cell row c hrow hc))

/-- The sums over an image of one row. -/
theorem windowSum_oneRow (hp : Shaped p) (hpq : Flipped flipRows p q) {midRow midCol : Int} (hone : p.image.height = 1)
    (hrow : row < p.image.height.toNat) (hcol : col < p.image.width.toNat) (ch : Channel) :
    windowSum matrix q.image.toInfoHeader q.image.pixels midRow midCol row col ch =
      windowSum matrix p.image.toInfoHeader p.image.pixels midRow midCol (p.image.height.toNat - 1 - row) col ch := by
  have hheight : p.image.height.toNat = 1 := congrArg UInt32.toNat hone
  have hsame : p.image.height.toNat - 1 - row = row := by omega
  rw [hsame]
  refine weightedSum_congr fun i j hi hj => ?_
  rw [source_congr hpq.height hpq.width]
  obtain ⟨hr, hc⟩ := source_mem hp.height hp.width hrow hcol (i - midRow) (j - midCol)
  obtain ⟨r, c, hplace, hr, hc⟩ := place_nat hr hc
  rw [hplace]
  refine congrArg (entry matrix i j * Pixel.channel · ch) (cell_congr ?_)
  have hcell := hpq.cell r c hr hc
  have hsame' : p.image.height.toNat - 1 - r = r := by omega
  rwa [flipRows, hsame'] at hcell

end Flat

/-! ## Kernels that reach another row -/

/-- Above the first row the second one is read. -/
theorem source_above {info : InfoHeader} (hh : info.height.toNat < 2 ^ 31) (hw : info.width.toNat < 2 ^ 31)
    (htwo : 2 ≤ info.height.toNat) (hone : 1 ≤ info.width.toNat) {d : Int} (hd : d = 1 ∨ d = -1) :
    source info 0 0 d 0 = (↑(1 : Nat), ↑(0 : Nat)) := by
  have hrow : mirror info.height.toNat d = some 1 := by
    rcases hd with rfl | rfl
    · exact mirror_inside (by omega) (by omega)
    · rw [mirror, if_neg (by omega), if_pos (by omega)]
      rfl
  have hcol : mirror info.width.toNat 0 = some 0 := mirror_inside (by omega) (by omega)
  rw [source_eq hh hw (by omega) (by omega), neighbour, Nat.cast_zero, zero_add, zero_add, hrow, hcol]
  rfl

/-- Below the last row the pixel itself is read. -/
theorem source_below {info : InfoHeader} (hh : info.height.toNat < 2 ^ 31) (hw : info.width.toNat < 2 ^ 31)
    (hone : 1 ≤ info.height.toNat) : source info (info.height.toNat - 1) 0 1 0 =
      (↑(info.height.toNat - 1), ↑(0 : Nat)) := by
  have hrow : mirror info.height.toNat (↑(info.height.toNat - 1) + 1) = none := mirror_beyond (by omega)
  rw [source_eq hh hw (by omega) (by omega), neighbour, hrow]

section Reach

variable {height width : UInt32} {a b : Nat}

theorem painted_filled (height width : UInt32) (pixel buffer : Nat → Nat → Pixel F) :
    Filled (painted height width pixel buffer) := ⟨painted_shape _ _ _ _, Grid.shape_tabulate _ _ _⟩

theorem painted_flipped {flip : Flip} (hinner : flip.Inner) (height width : UInt32)
    (pixel buffer buffer' : Nat → Nat → Pixel F) :
    Flipped flip (painted height width pixel buffer) (painted height width
      (fun row col => pixel (flip height.toNat width.toNat row col).1 (flip height.toNat width.toNat row col).2)
      buffer') where
  height := rfl
  width := rfl
  cell row col hrow hcol := by
    obtain ⟨hr, hc⟩ := hinner _ _ row col hrow hcol
    exact (Grid.get_tabulate hrow hcol _).trans (Grid.get_tabulate hr hc _).symm

variable [Field F]

theorem cell_painted (hrow : row < height.toNat) (hcol : col < width.toNat) (pixel buffer : Nat → Nat → Pixel F) :
    cell (painted height width pixel buffer).image.pixels (row, col) = pixel row col :=
  Option.some.inj ((get_cell (painted_shape _ _ _ _) hrow hcol).symm.trans (Grid.get_tabulate hrow hcol _))

/-- The first row white, the others black. -/
def topRow (row _col : Nat) : Pixel F := if row = 0 then ⟨1, 1, 1⟩ else ⟨0, 0, 0⟩

/-- A row of a kernel of `m` rows next to row `a`, or the flip of one. -/
def Beside (m a i : Nat) : Prop := i + 1 = a ∨ i = a + 1 ∨ m - 1 - i + 1 = a ∨ m - 1 - i = a + 1

instance (m a i : Nat) : Decidable (Beside m a i) := inferInstanceAs (Decidable (_ ∨ _ ∨ _ ∨ _))

/-- Ones in column `b` beside row `a`. -/
def besideKernel (m n a b : Nat) : Matrix F :=
  Grid.tabulate m n fun i j => if j = b ∧ Beside m a i then 1 else 0

theorem besideKernel_selfFlipped (m n a b : Nat) : SelfFlipped flipRows m n (besideKernel (F := F) m n a b) := by
  refine ⟨Grid.shape_tabulate _ _ _, fun i j hi hj => ?_⟩
  have hi' : m - 1 - i < m := by omega
  have hback : m - 1 - (m - 1 - i) = i := by omega
  have hsame : Beside m a (m - 1 - i) ↔ Beside m a i := by
    rw [Beside, Beside, hback]
    omega
  show _ = Grid.get (besideKernel m n a b) (m - 1 - i) j
  rw [besideKernel, Grid.get_tabulate hi hj, Grid.get_tabulate hi' hj]
  simp only [hsame]

theorem entry_besideKernel {i j : Nat} (hi : i < m) (hj : j < n) :
    entry (besideKernel (F := F) m n a b) i j = if j = b ∧ Beside m a i then 1 else 0 := by
  rw [entry, besideKernel, Grid.get_tabulate hi hj, Option.getD_some]

/-- The sum at the first pixel, when the one below is black. -/
theorem windowSum_above (hp : Shaped p) (htwo : 2 ≤ p.image.height.toNat) (hone : 1 ≤ p.image.width.toNat)
    (hm : m % 2 ^ 32 = 2 * a + 1) (hm31 : m % 2 ^ 32 < 2 ^ 31) (hn : 2 * b + 1 ≤ n) {ch : Channel}
    (hblack : (cell p.image.pixels (↑(1 : Nat), ↑(0 : Nat))).channel ch = 0) :
    windowSum (besideKernel m n a b) p.image.toInfoHeader p.image.pixels a b 0 0 ch = 0 := by
  refine weightedSum_eq_zero fun i j hi hj => ?_
  rw [entry_besideKernel (by omega) (by omega)]
  split
  case isFalse => rw [zero_mul]
  case isTrue hbeside =>
    obtain ⟨rfl, hbeside⟩ := hbeside
    -- the flips of the two rows are beyond the window
    have hdist : (i : Int) - a = 1 ∨ (i : Int) - a = -1 := by
      rcases hbeside with h | h | h | h
      · omega
      · omega
      · omega
      · omega
    rw [sub_self, source_above hp.height hp.width htwo hone hdist, hblack, mul_zero]

/-- The sum at the first pixel of the last row, when that is white. -/
theorem windowSum_below [LinearOrder F] [IsStrictOrderedRing F] (hp : Shaped p) (hone : 1 ≤ p.image.height.toNat)
    (hone' : 1 ≤ p.image.width.toNat) (hm : 2 * a + 1 ≤ m) (ha : 1 ≤ a) (hn : 2 * b + 1 ≤ n) {ch : Channel}
    (hwhite : (cell p.image.pixels (↑(p.image.height.toNat - 1), ↑(0 : Nat))).channel ch = 1)
    (hpos : ∀ row col : Nat, row < p.image.height.toNat → col < p.image.width.toNat →
      0 ≤ (cell p.image.pixels (row, col)).channel ch) :
    1 ≤ windowSum (besideKernel m n a b) p.image.toInfoHeader p.image.pixels a b (p.image.height.toNat - 1) 0 ch := by
  have hdist : ((a + 1 : Nat) : Int) - a = 1 := by omega
  have hterm : entry (besideKernel m n a b) (a + 1) b * (cell p.image.pixels (source p.image.toInfoHeader
      (p.image.height.toNat - 1) 0 ((a + 1 : Nat) - (a : Int)) (b - b))).channel ch = 1 := by
    have hi : a + 1 < m := by omega
    have hj : b < n := by omega
    rw [entry_besideKernel hi hj, if_pos ⟨rfl, .inr (.inl rfl)⟩, one_mul, hdist, sub_self,
      source_below hp.height hp.width hone, hwhite]
  have hlast : p.image.height.toNat - 1 < p.image.height.toNat := by omega
  have hnonneg : ∀ i j, i < (2 * (a : Int) + 1).toNat → j < (2 * (b : Int) + 1).toNat →
      0 ≤ entry (besideKernel m n a b) i j * (cell p.image.pixels (source p.image.toInfoHeader
        (p.image.height.toNat - 1) 0 (i - a) (j - b))).channel ch := by
    intro i j hi hj
    obtain ⟨hr, hc⟩ := source_mem hp.height hp.width hlast hone' (i - a) (j - b)
    obtain ⟨r, c, hplace, hr, hc⟩ := place_nat hr hc
    rw [entry_besideKernel (by omega) (by omega), hplace]
    split
    · exact mul_nonneg zero_le_one (hpos r c hr hc)
    · exact (zero_mul _).ge
  exact hterm.ge.trans (le_weightedSum (i := a + 1) (j := b) hnonneg (by omega) (by omega))

/-- A picture whose first row is white, and its flip. -/
theorem exists_topRow (F : Type) [Field F] [LinearOrder F] [IsStrictOrderedRing F] (htwo : 2 ≤ height.toNat)
    (hone : 1 ≤ width.toNat) : ∃ p q : Process F, p.image.height = height ∧ p.image.width = width ∧ Filled p ∧
      Filled q ∧ Flipped flipRows p q ∧ (cell p.image.pixels (↑(1 : Nat), ↑(0 : Nat))).channel .r = 0 ∧
      (cell q.image.pixels (↑(height.toNat - 1), ↑(0 : Nat))).channel .r = 1 ∧
      ∀ row col : Nat, row < height.toNat → col < width.toNat → 0 ≤ (cell q.image.pixels (row, col)).channel .r := by
  refine ⟨painted height width topRow topRow, _, rfl, rfl, painted_filled _ _ _ _, painted_filled _ _ _ topRow,
    painted_flipped flipRows_inner height width topRow topRow topRow, ?_, ?_, fun row col hrow hcol => ?_⟩
  · rw [cell_painted htwo hone]
    rfl
  · have hlast : height.toNat - 1 - (height.toNat - 1) = 0 := by omega
    rw [cell_painted (Nat.sub_one_lt_of_lt htwo) hone]
    show (topRow (height.toNat - 1 - (height.toNat - 1)) 0).r = 1
    rw [hlast]
    rfl
  · rw [cell_painted hrow hcol]
    unfold topRow
    split
    · exact zero_le_one
    · exact le_refl 0

/-- **A kernel that reaches another row tells the two ends apart.** -/
theorem not_commutes_rows [LinearOrder F] [IsStrictOrderedRing F] (hh : height.toNat < 2 ^ 31)
    (hw : width.toNat < 2 ^ 31) (htwo : 2 ≤ height.toNat) (hone : 1 ≤ width.toNat) (hmodd : m % 2 = 1)
    (hnodd : n % 2 = 1) (hm : half m = a) (ha : 1 ≤ a) (hn : half n = b) : ¬Commutes F flipRows height width m n := by
  intro hcomm
  have hmwrap : m % 2 ^ 32 = 2 * a + 1 ∧ m % 2 ^ 32 < 2 ^ 31 := by
    rw [half_eq] at hm
    split at hm
    · omega
    · omega
  have hmle := half_le hmodd
  have hnle := half_le hnodd
  rw [hm] at hmle
  rw [hn] at hnle
  obtain ⟨p, q, rfl, rfl, hp, hq, hpq, hblack, hwhite, hpos⟩ := exists_topRow F htwo hone
  have hself := besideKernel_selfFlipped (F := F) m n a b
  have hsp : Shaped p := ⟨hp.pixels, hp.buffer, hh, hw⟩
  have hsq : Shaped q := ⟨hq.pixels, hq.buffer, by rwa [hpq.height], by rwa [hpq.width]⟩
  have hzero := windowSum_above hsp htwo hone hmwrap.1 hmwrap.2 (by omega : 2 * b + 1 ≤ n) hblack
  rw [← hpq.height] at hwhite hpos
  rw [← hpq.width] at hpos
  have hge := windowSum_below hsq (by rw [hpq.height]; omega) (by rwa [hpq.width]) (by omega : 2 * a + 1 ≤ m) ha
    (by omega : 2 * b + 1 ≤ n) hwhite hpos
  have hlast : p.image.height.toNat - 1 - (p.image.height.toNat - 1) = 0 := by omega
  have hsum := (multiply_flipped_iff flipRows_inner hsp hsq hpq hself.shape hmodd hnodd).mp
    (hcomm _ _ _ rfl rfl hp hq hpq hself) (p.image.height.toNat - 1) 0 .r (Nat.sub_one_lt_of_lt htwo) hone
  rw [hm, hn, flipRows, hlast, hzero] at hsum
  rw [hpq.height] at hge
  rw [normalize, max_eq_right (zero_le_one.trans hge), min_eq_left hge] at hsum
  exact one_ne_zero (hsum.trans (by rw [normalize, max_self, min_eq_right zero_le_one]))

/-- With a side of `2 ^ 31` the flipped image may meet another static buffer. -/
theorem not_commutes_huge [LinearOrder F] (hhuge : 2 ^ 31 ≤ height.toNat ∨ 2 ^ 31 ≤ width.toNat)
    (hone : 1 ≤ height.toNat) (hone' : 1 ≤ width.toNat) (hmodd : m % 2 = 1) :
    ¬Commutes F flipRows height width m n := by
  intro hcomm
  have hp := painted_filled (F := F) height width (fun _ _ => ⟨0, 0, 0⟩) fun _ _ => ⟨0, 0, 0⟩
  have hq := painted_filled (F := F) height width (fun _ _ => ⟨0, 0, 0⟩) fun _ _ => ⟨1, 1, 1⟩
  have hpq := painted_flipped flipRows_inner height width (fun _ _ => (⟨0, 0, 0⟩ : Pixel F)) (fun _ _ => ⟨0, 0, 0⟩)
    fun _ _ => ⟨1, 1, 1⟩
  have hself := besideKernel_selfFlipped (F := F) m n 0 0
  obtain ⟨entries, hhead⟩ := hself.shape.head (by omega)
  obtain ⟨p', q', hp', hq', hflip⟩ := hcomm _ _ _ rfl rfl hp hq hpq hself
  obtain rfl := Option.some.inj ((multiply_huge (p := painted height width _ _) hhuge hhead).symm.trans hp')
  obtain rfl := Option.some.inj ((multiply_huge (p := painted height width _ _) hhuge hhead).symm.trans hq')
  have hcell := hflip.cell 0 0 hone hone'
  have hwhite : (painted height width (fun _ _ => (⟨0, 0, 0⟩ : Pixel F)) fun _ _ => ⟨1, 1, 1⟩).buffer.get 0 0 =
      some ⟨1, 1, 1⟩ := Grid.get_tabulate hone hone' _
  have hblack : (painted height width (fun _ _ => (⟨0, 0, 0⟩ : Pixel F)) fun _ _ => ⟨0, 0, 0⟩).buffer.get
      (height.toNat - 1 - 0) 0 = some ⟨0, 0, 0⟩ := Grid.get_tabulate (by omega) hone' _
  have heq := Option.some.inj (hwhite.symm.trans (hcell.trans hblack))
  exact one_ne_zero (congrArg Pixel.r heq)

end Reach

/-! ## The two flips -/

/-- The sizes at which `Multiply` treats the two ends alike: no pixel, one row, or a kernel that reaches no other row,
and no side of `2 ^ 31`. -/
def Mirrors (height width : UInt32) (m n : Nat) : Prop :=
  height = 0 ∨ width = 0 ∨ height.toNat < 2 ^ 31 ∧ width.toNat < 2 ^ 31 ∧ (height = 1 ∨ Flat m n)

instance (m n : Nat) : Decidable (Flat m n) := inferInstanceAs (Decidable (_ ∨ _ ∨ _ ∧ _))

instance (height width : UInt32) (m n : Nat) : Decidable (Mirrors height width m n) :=
  inferInstanceAs (Decidable (_ ∨ _ ∨ _ ∧ _ ∧ _))

section Flips

variable [Field F] [LinearOrder F] {height width : UInt32}

/-- Without a pixel there is nothing to flip. -/
theorem commutes_empty {flip : Flip} (hempty : height = 0 ∨ width = 0) (hmodd : m % 2 = 1) :
    Commutes F flip height width m n := by
  rintro p q matrix rfl rfl hp hq hpq hself
  obtain ⟨entries, hhead⟩ := hself.shape.head (by omega)
  have hside : (wrap32 p.image.height.toNat).toNat = 0 ∨ (wrap32 p.image.width.toNat).toNat = 0 := by
    rcases hempty with h | h
    · exact .inl (h ▸ wrap32_side (by decide))
    · exact .inr (h ▸ wrap32_side (by decide))
  have hside' : (wrap32 q.image.height.toNat).toNat = 0 ∨ (wrap32 q.image.width.toNat).toNat = 0 := by
    rwa [hpq.height, hpq.width]
  refine ⟨_, _, multiply_unvisited hside hhead, multiply_unvisited hside' hhead, hpq.height, hpq.width,
    fun row col hrow hcol => ?_⟩
  rcases hempty with h | h
  · have hzero : p.image.height.toNat = 0 := congrArg UInt32.toNat h
    exact absurd hrow (by show ¬row < p.image.height.toNat; omega)
  · have hzero : p.image.width.toNat = 0 := congrArg UInt32.toNat h
    exact absurd hcol (by show ¬col < p.image.width.toNat; omega)

/-- **The top-bottom flip.** -/
theorem commutes_rows_iff [IsStrictOrderedRing F] (hmodd : m % 2 = 1) (hnodd : n % 2 = 1) :
    Commutes F flipRows height width m n ↔ Mirrors height width m n := by
  constructor
  · intro hcomm
    by_contra hmirrors
    rw [Mirrors, flat_iff hmodd hnodd] at hmirrors
    obtain ⟨hheight, hmirrors⟩ := not_or.mp hmirrors
    obtain ⟨hwidth, hmirrors⟩ := not_or.mp hmirrors
    have hpos : 1 ≤ height.toNat := Nat.one_le_iff_ne_zero.mpr fun h => hheight (UInt32.toNat_inj.mp h)
    have hpos' : 1 ≤ width.toNat := Nat.one_le_iff_ne_zero.mpr fun h => hwidth (UInt32.toNat_inj.mp h)
    by_cases hsmall : height.toNat < 2 ^ 31 ∧ width.toNat < 2 ^ 31
    · have hreach : ¬(height = 1 ∨ half m ≤ 0 ∨ half n < 0) := fun h => hmirrors ⟨hsmall.1, hsmall.2, h⟩
      obtain ⟨hne, hreach⟩ := not_or.mp hreach
      have hne' : height.toNat ≠ 1 := fun h => hne (UInt32.toNat_inj.mp h)
      obtain ⟨a, ha⟩ := Int.eq_ofNat_of_zero_le (by omega : 0 ≤ half m)
      obtain ⟨b, hb⟩ := Int.eq_ofNat_of_zero_le (by omega : 0 ≤ half n)
      exact not_commutes_rows hsmall.1 hsmall.2 (by omega) hpos' hmodd hnodd ha (by omega) hb hcomm
    · exact not_commutes_huge (by omega) hpos hpos' hmodd hcomm
  · rintro (hheight | hwidth | ⟨hh, hw, hrow⟩)
    · exact commutes_empty (.inl hheight) hmodd
    · exact commutes_empty (.inr hwidth) hmodd
    rintro p q matrix rfl rfl hp hq hpq hself
    have hsp : Shaped p := ⟨hp.pixels, hp.buffer, hh, hw⟩
    have hsq : Shaped q := ⟨hq.pixels, hq.buffer, by rwa [hpq.height], by rwa [hpq.width]⟩
    refine (multiply_flipped_iff flipRows_inner hsp hsq hpq hself.shape hmodd hnodd).mpr fun row col ch hrow' hcol => ?_
    rcases hrow with hone | hflat
    · exact congrArg normalize (windowSum_oneRow hsp hpq hone hrow' hcol ch)
    · rcases (flat_iff hmodd hnodd).mp hflat with hm | hn
      · exact congrArg normalize (windowSum_flat hsp hpq hm hrow' hcol ch)
      · have hempty : (2 * half n + 1).toNat = 0 := by omega
        simp only [windowSum, weightedSum, hempty, Finset.range_zero, Finset.sum_empty, Finset.sum_const_zero]

/-- **Borders are mirror-symmetric at exactly these sizes.** -/
theorem multiply_flips_iff [IsStrictOrderedRing F] (height width : UInt32) (hmodd : m % 2 = 1) (hnodd : n % 2 = 1) :
    (Commutes F flipRows height width m n ↔ Mirrors height width m n) ∧
      (Commutes F flipColumns height width m n ↔ Mirrors width height n m) := by
  refine ⟨commutes_rows_iff hmodd hnodd, ?_⟩
  rw [← commutes_rows_iff (F := F) hnodd hmodd]
  constructor
  · exact commutes_swap flipColumns_inner flipRows_inner (fun _ _ _ _ => rfl) hmodd hnodd
  · exact commutes_swap flipRows_inner flipColumns_inner (fun _ _ _ _ => rfl) hnodd hmodd

end Flips

/-- With a kernel of one row the top-bottom flip is kept, the left-right flip is not. -/
theorem oneRow_flips : Commutes ℚ flipRows 3 3 1 3 ∧ ¬Commutes ℚ flipColumns 3 3 1 3 := by
  have hiff := multiply_flips_iff (F := ℚ) 3 3 (m := 1) (n := 3) (by decide) (by decide)
  exact ⟨hiff.1.mpr (by decide), fun h => absurd (hiff.2.mp h) (by decide)⟩

/-- A white pixel over a black one, under the neighbours above and below: the black pixel reads itself below, the white
one of the flipped image reads itself. -/
theorem twoPixels_unmirrored : ∃ (p q : Process ℚ) (matrix : Matrix ℚ),
    p.image.pixels = [[⟨1, 1, 1⟩], [⟨0, 0, 0⟩]] ∧ matrix = [[1], [0], [1]] ∧ Filled p ∧ Filled q ∧
    Flipped flipRows p q ∧ SelfFlipped flipRows 3 1 matrix ∧
    ¬∃ p' q', p.multiply matrix = some p' ∧ q.multiply matrix = some q' ∧ Flipped flipRows p' q' := by
  refine ⟨painted 2 1 topRow topRow, painted 2 1 (fun row col => topRow (2 - 1 - row) col) topRow,
    besideKernel 3 1 1 0, rfl, rfl, painted_filled _ _ _ _, painted_filled _ _ _ _,
    painted_flipped flipRows_inner 2 1 topRow topRow topRow, besideKernel_selfFlipped 3 1 1 0, ?_⟩
  rintro ⟨p', q', hp', hq', hflip⟩
  have hpcell : ((painted 2 1 topRow topRow).multiply (besideKernel 3 1 1 0)).bind (·.image.pixels.get 0 0) =
      some (⟨0, 0, 0⟩ : Pixel ℚ) := by decide +kernel
  have hqcell : ((painted 2 1 (fun row col => topRow (2 - 1 - row) col) topRow).multiply
      (besideKernel 3 1 1 0)).bind (·.image.pixels.get 1 0) = some (⟨1, 1, 1⟩ : Pixel ℚ) := by decide +kernel
  rw [hp', Option.bind_some] at hpcell
  rw [hq', Option.bind_some] at hqcell
  have hinfo : p'.image.toInfoHeader = _ := (multiply_headers hp').info
  have hheight : p'.image.height = 2 := congrArg InfoHeader.height hinfo
  have hwidth : p'.image.width = 1 := congrArg InfoHeader.width hinfo
  have hcell := hflip.cell 1 0 (by rw [hheight]; decide) (by rw [hwidth]; decide)
  rw [hheight, hqcell] at hcell
  exact absurd (Option.some.inj (hcell.trans hpcell)) (by decide)

end HighLoad.ImageProcessor
