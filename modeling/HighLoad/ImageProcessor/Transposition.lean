import HighLoad.ImageProcessor.Neighbours

/-!
# Rows and columns

`Multiply` treats the two axes alike: on the transposed image the transposed kernel gives the transposed result
(`multiply_transposed`). The border rule reads the transposed neighbour (`source_swap`), overflow included, and the two
sums over the kernel are exchanged. With a side of `2 ^ 31` the static buffers show, and no kernel with such a side can
be transposed (`huge_untransposed`).
-/

namespace HighLoad.ImageProcessor

variable {F : Type} {p q : Process F} {matrix matrix' : Matrix F} {m n : Nat}

/-- `q` has the image of `p`, transposed. -/
structure Transposed (p q : Process F) : Prop where
  height : q.image.height = p.image.width
  width : q.image.width = p.image.height
  cell : ∀ row col, row < p.image.height.toNat → col < p.image.width.toNat →
    q.image.pixels.get col row = p.image.pixels.get row col

theorem source_swap {info info' : InfoHeader} (hh : info'.height = info.width) (hw : info'.width = info.height)
    (row col : Nat) (dRow dCol : Int) : source info' col row dCol dRow = (source info row col dRow dCol).swap := by
  unfold source
  rw [hh, hw]
  generalize reflect info.height (wrap32 (row + dRow)) = r
  generalize reflect info.width (wrap32 (col + dCol)) = c
  have hsquare : ∀ h w : Int, inSquare c r w h = inSquare r c h w := by
    intro h w
    rw [Bool.eq_iff_iff]
    simp only [inSquare, Bool.and_eq_true, decide_eq_true_eq]
    constructor
    · rintro ⟨⟨hc, hr⟩, hr'⟩
      exact ⟨⟨⟨hr, hr'⟩, hc.1⟩, hc.2⟩
    · rintro ⟨⟨hr, hc⟩, hc'⟩
      exact ⟨⟨⟨hc, hc'⟩, hr.1⟩, hr.2⟩
  dsimp only
  rw [hsquare]
  split
  · rfl
  · rfl

variable [Field F]

/-- The cells of a transposed image at signed places. -/
theorem Transposed.swap (hT : Transposed p q) {place : Int × Int} (hr : 0 ≤ place.1 ∧ place.1 < p.image.height.toNat)
    (hc : 0 ≤ place.2 ∧ place.2 < p.image.width.toNat) :
    ImageProcessor.cell q.image.pixels place.swap = ImageProcessor.cell p.image.pixels place := by
  obtain ⟨row, col, rfl, hrow, hcol⟩ := place_nat hr hc
  exact cell_congr (hT.cell row col hrow hcol)

/-- The sums over the transposed kernel, exchanged. -/
theorem windowSum_transposed (hs : Shaped p) (hT : Transposed p q) {midRow midCol : Int}
    (hentry : ∀ i j, i < (2 * midRow + 1).toNat → j < (2 * midCol + 1).toNat → matrix'.get j i = matrix.get i j)
    {row col : Nat} (hrow : row < p.image.height.toNat) (hcol : col < p.image.width.toNat) (ch : Channel) :
    windowSum matrix' q.image.toInfoHeader q.image.pixels midCol midRow col row ch =
      windowSum matrix p.image.toInfoHeader p.image.pixels midRow midCol row col ch := by
  unfold windowSum
  rw [weightedSum_swap]
  refine weightedSum_congr fun i j hi hj => ?_
  obtain ⟨hr, hc⟩ := source_mem hs.height hs.width hrow hcol (i - midRow) (j - midCol)
  rw [entry, entry, hentry i j hi hj, source_swap hT.height hT.width, hT.swap hr hc]

variable [LinearOrder F]

/-- **Rows and columns are treated alike**, with sides of the image and of the kernel below `2 ^ 31`. -/
theorem multiply_transposed (hp : Shaped p) (hq : Shaped q) (hT : Transposed p q) (hm : Grid.Shape m n matrix)
    (hmodd : m % 2 = 1) (hnodd : n % 2 = 1) (hm31 : m < 2 ^ 31) (hn31 : n < 2 ^ 31) :
    ∃ matrix' p' q', transpose matrix = some matrix' ∧ p.multiply matrix = some p' ∧ q.multiply matrix' = some q' ∧
      Transposed p' q' := by
  obtain ⟨matrix', ht, hm', hentry⟩ := transpose_spec hm (by omega) hm31 hn31
  obtain ⟨px, hp', hpx, hcells⟩ := multiply_window hp hm hmodd hnodd
  obtain ⟨qx, hq', hqx, hcells'⟩ := multiply_window hq hm' hnodd hmodd
  rw [hT.height, hT.width] at hqx
  refine ⟨matrix', _, _, ht, hp', hq', hT.height, hT.width, fun row col hrow hcol => ?_⟩
  show qx.get col row = px.get row col
  rw [get_cell hpx hrow hcol, get_cell hqx hcol hrow]
  refine congrArg some (Pixel.ext_channel fun ch => ?_)
  rw [hcells row col ch hrow hcol, hcells' col row ch (by rwa [hT.height]) (by rwa [hT.width])]
  refine congrArg normalize (windowSum_transposed hp hT (fun i j hi hj => ?_) hrow hcol ch)
  exact hentry i j (hi.trans_le (half_le hmodd)) (hj.trans_le (half_le hnodd))

/-! ## A small picture and huge ones -/

theorem uniform_transposed (height width : UInt32) (pixel buffer buffer' : Pixel ℚ) :
    Transposed (uniform height width pixel buffer) (uniform width height pixel buffer') where
  height := rfl
  width := rfl
  cell _ _ hrow hcol := (Grid.get_replicate hcol hrow pixel).trans (Grid.get_replicate hrow hcol pixel).symm

theorem smallPicture_transposed : ∃ matrix' p' q', transpose [[1, 0, 1]] = some matrix' ∧
    (uniform 1 2 ⟨1, 0, 0⟩ ⟨0, 0, 1⟩).multiply [[1, 0, 1]] = some p' ∧
    (uniform 2 1 ⟨1, 0, 0⟩ ⟨0, 1, 0⟩).multiply matrix' = some q' ∧ Transposed p' q' := by
  have hp : Shaped (uniform 1 2 ⟨1, 0, 0⟩ ⟨0, 0, 1⟩) := uniform_shaped (by decide) (by decide) _ _
  have hq : Shaped (uniform 2 1 ⟨1, 0, 0⟩ ⟨0, 1, 0⟩) := uniform_shaped (by decide) (by decide) _ _
  have hm : Grid.Shape 1 3 ([[1, 0, 1]] : Matrix ℚ) := ⟨rfl, by simp⟩
  exact multiply_transposed hp hq (uniform_transposed 1 2 _ _ _) hm (by decide) (by decide) (by decide) (by decide)

/-- With `2 ^ 31` columns the two results have the colours of the static buffers, blue and green; and a kernel of
`2 ^ 31 + 1` rows has no transpose. -/
theorem huge_untransposed : (∃ (p q : Process ℚ) (matrix : Matrix ℚ),
      Grid.Shape p.image.height.toNat p.image.width.toNat p.image.pixels ∧
      Grid.Shape p.image.height.toNat p.image.width.toNat p.buffer ∧
      Grid.Shape q.image.height.toNat q.image.width.toNat q.image.pixels ∧
      Grid.Shape q.image.height.toNat q.image.width.toNat q.buffer ∧ Transposed p q ∧ Grid.Shape 1 1 matrix ∧
      ¬∃ matrix' p' q', transpose matrix = some matrix' ∧ p.multiply matrix = some p' ∧
        q.multiply matrix' = some q' ∧ Transposed p' q') ∧
    ∃ matrix : Matrix ℚ, Grid.Shape 2147483649 1 matrix ∧ transpose matrix = none := by
  constructor
  · refine ⟨uniform 1 2147483648 ⟨0, 0, 0⟩ ⟨0, 0, 1⟩, uniform 2147483648 1 ⟨0, 0, 0⟩ ⟨0, 1, 0⟩, [[1]],
      Grid.shape_replicate _ _ _, Grid.shape_replicate _ _ _, Grid.shape_replicate _ _ _,
      Grid.shape_replicate _ _ _, uniform_transposed _ _ _ _ _, ⟨rfl, by simp⟩, ?_⟩
    rintro ⟨matrix', p', q', ht, hp', hq', hT⟩
    obtain rfl : [[1]] = matrix' := Option.some.inj ht
    rw [uniform_multiply (.inr (by decide)) _ _ rfl] at hp'
    rw [uniform_multiply (.inl (by decide)) _ _ rfl] at hq'
    obtain rfl := Option.some.inj hp'
    obtain rfl := Option.some.inj hq'
    have hcell := hT.cell 0 0 (by decide) (by decide)
    have hblue := Grid.get_replicate (h := (1 : UInt32).toNat) (w := (2147483648 : UInt32).toNat) (r := 0) (c := 0)
      (by decide) (by decide) (⟨0, 0, 1⟩ : Pixel ℚ)
    have hgreen := Grid.get_replicate (h := (2147483648 : UInt32).toNat) (w := (1 : UInt32).toNat) (r := 0) (c := 0)
      (by decide) (by decide) (⟨0, 1, 0⟩ : Pixel ℚ)
    have heq := Option.some.inj (hgreen.symm.trans (hcell.trans hblue))
    exact one_ne_zero (congrArg Pixel.g heq)
  · exact ⟨_, Grid.shape_replicate 2147483649 1 1, transpose_huge (Grid.shape_replicate _ _ _) (.inl (by decide))⟩

end HighLoad.ImageProcessor
