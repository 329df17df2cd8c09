import Mathlib.Algebra.Group.Nat.Even
import Mathlib.Tactic.Linarith
import HighLoad.ImageProcessor.Pixels

/-!
# Pointwise pipelines

A crop cuts off the ends of rows and columns, `Grayscale` and `Negative` change every pixel for itself. So a list of
these filters applies to every pixel that is left the changes one after the other (`applyFilters_cuts`), and on
components in `[0, 1]` the changes have a normal form: grey when one of them is `Grayscale`, then negated when the
`Negative`s are odd (`pointwise_eq`). The sides are the minima that the crops leave, and nothing else of the order of
the filters shows in sides and pixels (`pointwise_pipeline`); of the headers `image_size` is what the last crop wrote.
-/

namespace HighLoad.ImageProcessor

variable {F : Type} {p q r : Process F} {change change' : Pixel F → Pixel F}

/-! ## Cuts -/

/-- `q` has the first rows and columns of `p`, with its pixels changed. -/
structure Cuts (change : Pixel F → Pixel F) (p q : Process F) : Prop where
  shape : Grid.Shape q.image.height.toNat q.image.width.toNat q.image.pixels
  height : q.image.height.toNat ≤ p.image.height.toNat
  width : q.image.width.toNat ≤ p.image.width.toNat
  cell : ∀ row col, row < q.image.height.toNat → col < q.image.width.toNat →
    q.image.pixels.get row col = (p.image.pixels.get row col).map change

theorem Cuts.refl (hpx : Grid.Shape p.image.height.toNat p.image.width.toNat p.image.pixels) : Cuts id p p where
  shape := hpx
  height := Nat.le_refl _
  width := Nat.le_refl _
  cell _ _ _ _ := (Option.map_id_apply).symm

theorem Cuts.trans (h : Cuts change p q) (h' : Cuts change' q r) : Cuts (change' ∘ change) p r where
  shape := h'.shape
  height := h'.height.trans h.height
  width := h'.width.trans h.width
  cell row col hrow hcol := by
    rw [h'.cell row col hrow hcol, h.cell row col (hrow.trans_le h'.height) (hcol.trans_le h'.width), Option.map_map]

theorem cuts_map (hpx : Grid.Shape p.image.height.toNat p.image.width.toNat p.image.pixels) :
    Cuts change p { p with image := { p.image with pixels := p.image.pixels.map change } } where
  shape := hpx.map change
  height := Nat.le_refl _
  width := Nat.le_refl _
  cell row col _ _ := Grid.get_map _ change row col

theorem cropHeight_cuts (hpx : Grid.Shape p.image.height.toNat p.image.width.toNat p.image.pixels) {height : Int16}
    (h : cropHeight height p = some q) : Cuts id p q := by
  rcases cropHeight_cases h with ⟨-, rfl⟩ | ⟨hlt, rfl⟩
  · exact .refl hpx
  · have hheight : (p.cutHeight (toU32 height.toInt)).image.height.toNat = toU32 height.toInt :=
      UInt32.toNat_ofNat_of_lt' (hlt.trans p.image.height.toNat_lt)
    refine ⟨?_, ?_, Nat.le_refl _, fun row col hrow hcol => ?_⟩
    · rw [hheight]
      exact hpx.resizeRows hlt.le []
    · rw [hheight]
      exact hlt.le
    · rw [hheight] at hrow
      rw [Option.map_id_apply]
      exact hpx.get_resizeRows hlt.le hrow [] col

variable [Field F]

theorem cropWidth_cuts (hpx : Grid.Shape p.image.height.toNat p.image.width.toNat p.image.pixels) {width : Int16}
    (h : cropWidth width p = some q) : Cuts id p q := by
  rcases cropWidth_cases h with ⟨-, rfl⟩ | ⟨hlt, rfl⟩
  · exact .refl hpx
  · have hwidth : (p.cutWidth (toU32 width.toInt)).image.width.toNat = toU32 width.toInt :=
      UInt32.toNat_ofNat_of_lt' (hlt.trans p.image.width.toNat_lt)
    refine ⟨?_, Nat.le_refl _, ?_, fun row col hrow hcol => ?_⟩
    · rw [hwidth]
      exact hpx.mapResize _ Pixel.zero
    · rw [hwidth]
      exact hlt.le
    · rw [hwidth] at hcol
      rw [Option.map_id_apply]
      exact hpx.get_mapResize hlt.le hrow hcol Pixel.zero

theorem crop_some_cuts (hpx : Grid.Shape p.image.height.toNat p.image.width.toNat p.image.pixels)
    {width height : Int16} (h : crop width height p = some q) : Cuts id p q := by
  obtain ⟨p₁, h₁, h⟩ := Option.bind_eq_some_iff.mp h
  obtain ⟨p₂, h₂, rfl⟩ := Option.map_eq_some_iff.mp h
  have hc₁ := cropHeight_cuts hpx h₁
  have hc₂ := hc₁.trans (cropWidth_cuts hc₁.shape h₂)
  exact ⟨hc₂.shape, hc₂.height, hc₂.width, hc₂.cell⟩

/-- A crop to sides that are not negative returns. -/
theorem crop_cuts (hpx : Grid.Shape p.image.height.toNat p.image.width.toNat p.image.pixels) {width height : Int16}
    (hw : 1 ≤ width.toInt) (hh : 1 ≤ height.toInt) : ∃ q, crop width height p = some q ∧ Cuts id p q := by
  have hsize : ∀ {n : Int16}, 1 ≤ n.toInt → vectorSize n.toInt = some n.toInt.toNat := fun hn => if_pos (by omega)
  obtain ⟨p₁, h₁⟩ : ∃ p₁, cropHeight height p = some p₁ := by
    unfold cropHeight
    rw [hsize hh]
    split
    · exact ⟨_, rfl⟩
    · exact ⟨_, rfl⟩
  obtain ⟨p₂, h₂⟩ : ∃ p₂, cropWidth width p₁ = some p₂ := by
    unfold cropWidth
    rw [hsize hw]
    split
    · exact ⟨_, rfl⟩
    · exact ⟨_, rfl⟩
  obtain ⟨q, hq⟩ : ∃ q, crop width height p = some q :=
    ⟨_, by rw [crop, h₁, Option.bind_some, h₂, Option.map_some]⟩
  exact ⟨q, hq, crop_some_cuts hpx hq⟩

variable [LinearOrder F]

/-- A crop to positive sides, `Grayscale` or `Negative`. -/
def Filter.Pointwise : Filter F → Prop
  | .crop width height => 1 ≤ width.toInt ∧ 1 ≤ height.toInt
  | .grayscale => True
  | .negative => True
  | _ => False

/-- What the filter does to a pixel. -/
def Filter.pixel : Filter F → Pixel F → Pixel F
  | .grayscale, px => px.gray
  | .negative, px => px.negative
  | _, px => px

/-- What a list of filters does to a pixel. -/
def pointwise (filters : List (Filter F)) (px : Pixel F) : Pixel F := filters.foldl (fun px f => f.pixel px) px

/-- The weighted mean of the components in all three of them. -/
def Pixel.greyed (px : Pixel F) : Pixel F :=
  let c := (299 / 1000 : ℚ) * px.r + (587 / 1000 : ℚ) * px.g + (114 / 1000 : ℚ) * px.b
  ⟨c, c, c⟩

/-- Grey once, and negated once. -/
def normalForm (filters : List (Filter F)) (px : Pixel F) : Pixel F :=
  let px := if .grayscale ∈ filters then px.greyed else px
  if Odd (filters.count .negative) then ⟨1 - px.r, 1 - px.g, 1 - px.b⟩ else px

/-! ## The laws of a pixel -/

section Laws

variable [IsStrictOrderedRing F] {px : Pixel F} {filters : List (Filter F)}

/-- The grey value before it is clamped. -/
def Pixel.luma (px : Pixel F) : F := px.r * rGray + px.g * gGray + px.b * bGray

/-- The weights sum to one. -/
theorem luma_mem (hu : px.Unit) : 0 ≤ px.luma ∧ px.luma ≤ 1 := by
  obtain ⟨⟨hr, hr'⟩, ⟨hg, hg'⟩, hb, hb'⟩ := hu
  unfold Pixel.luma rGray gGray bGray
  constructor
  · linarith
  · linarith

/-- The clamp is inert. -/
theorem gray_eq (hu : px.Unit) : px.gray = ⟨px.luma, px.luma, px.luma⟩ := by
  obtain ⟨hpos, hle⟩ := luma_mem hu
  have hclamp : max 0 (min 1 px.luma) = px.luma := by rw [min_eq_right hle, max_eq_right hpos]
  unfold Pixel.gray
  rw [← Pixel.luma, hclamp]

theorem luma_const (x : F) : Pixel.luma ⟨x, x, x⟩ = x := by
  unfold Pixel.luma rGray gGray bGray
  ring

theorem luma_negative (px : Pixel F) : px.negative.luma = 1 - px.luma := by
  unfold Pixel.luma Pixel.negative rGray gGray bGray
  ring

theorem gray_greyed (hu : px.Unit) : px.gray = px.greyed := by
  have hluma : px.luma = (299 / 1000 : ℚ) * px.r + (587 / 1000 : ℚ) * px.g + (114 / 1000 : ℚ) * px.b := by
    unfold Pixel.luma rGray gGray bGray
    push_cast
    ring
  rw [gray_eq hu, hluma, Pixel.greyed]

theorem gray_gray (hu : px.Unit) : px.gray.gray = px.gray := by
  rw [gray_eq (unit_kept.gray px hu), gray_eq hu, luma_const]

omit [LinearOrder F] [IsStrictOrderedRing F] in
theorem negative_negative (px : Pixel F) : px.negative.negative = px := by
  unfold Pixel.negative
  rw [sub_sub_cancel, sub_sub_cancel, sub_sub_cancel]

theorem gray_negative (hu : px.Unit) : px.negative.gray = px.gray.negative := by
  rw [gray_eq (unit_kept.negative px hu), gray_eq hu, luma_negative]
  rfl

/-! ## The normal form -/

omit [IsStrictOrderedRing F] in
/-- Whether there is a `Grayscale` and whether the `Negative`s are odd is all that counts. -/
theorem normalForm_congr {filters' : List (Filter F)} (hgray : .grayscale ∈ filters ↔ .grayscale ∈ filters')
    (hodd : Odd (filters.count .negative) ↔ Odd (filters'.count .negative)) (px : Pixel F) :
    normalForm filters px = normalForm filters' px := by
  unfold normalForm
  simp only [hgray, hodd]

/-- The normal form in the words of the filters. -/
theorem normalForm_eq (hu : px.Unit) : normalForm filters px =
    if Odd (filters.count .negative) then (if .grayscale ∈ filters then px.gray else px).negative
    else if .grayscale ∈ filters then px.gray else px := by
  rw [gray_greyed hu]
  rfl

theorem normalForm_grayscale (hu : px.Unit) :
    normalForm (.grayscale :: filters) px = normalForm filters px.gray := by
  rw [normalForm_eq hu, normalForm_eq (unit_kept.gray px hu), List.count_cons_of_ne (by simp),
    if_pos List.mem_cons_self]
  by_cases hg : (.grayscale : Filter F) ∈ filters
  · rw [if_pos hg, gray_gray hu]
  · rw [if_neg hg]

theorem normalForm_negative (hu : px.Unit) :
    normalForm (.negative :: filters) px = normalForm filters px.negative := by
  have hmem : (.grayscale : Filter F) ∈ .negative :: filters ↔ .grayscale ∈ filters := by simp
  -- gray before or after the first negation
  have hcomm : (if .grayscale ∈ filters then px.negative.gray else px.negative) =
      (if .grayscale ∈ filters then px.gray else px).negative := by
    by_cases hg : (.grayscale : Filter F) ∈ filters
    · rw [if_pos hg, if_pos hg, gray_negative hu]
    · rw [if_neg hg, if_neg hg]
  rw [normalForm_eq hu, normalForm_eq (unit_kept.negative px hu), List.count_cons_self, hcomm, if_congr hmem rfl rfl]
  by_cases hodd : Odd (filters.count .negative)
  · rw [if_pos hodd, if_neg (Nat.not_odd_iff_even.mpr hodd.add_one), negative_negative]
  · rw [if_neg hodd, if_pos (Nat.not_odd_iff_even.mp hodd).add_one]

omit [IsStrictOrderedRing F] in
theorem normalForm_crop (width height : Int16) :
    normalForm (.crop width height :: filters) px = normalForm filters px := by
  refine normalForm_congr ?_ ?_ px
  · simp
  · rw [List.count_cons_of_ne (by simp)]

/-- **The changes of a pixel have a normal form.** -/
theorem pointwise_eq (hf : ∀ f ∈ filters, f.Pointwise) (hu : px.Unit) :
    pointwise filters px = normalForm filters px := by
  induction filters generalizing px with
  | nil =>
    have hodd : ¬Odd 0 := by decide
    unfold normalForm
    rw [List.count_nil, if_neg List.not_mem_nil, if_neg hodd]
    rfl
  | cons f filters ih =>
    have hrest : ∀ f ∈ filters, f.Pointwise := fun f hm => hf f (List.mem_cons_of_mem _ hm)
    have hf := hf f List.mem_cons_self
    cases f with
    | crop width height =>
      rw [normalForm_crop width height]
      exact ih hrest hu
    | grayscale =>
      rw [normalForm_grayscale hu]
      exact ih hrest (unit_kept.gray px hu)
    | negative =>
      rw [normalForm_negative hu]
      exact ih hrest (unit_kept.negative px hu)
    | sharpening | edgeDetection | gaussianBlur | tunnel => exact hf.elim

end Laws

/-! ## Lists of filters -/

variable [FloorRing F] {f : Filter F} {filters : List (Filter F)}

theorem apply_cuts (libm : Libm F) (hpx : Grid.Shape p.image.height.toNat p.image.width.toNat p.image.pixels)
    (hf : f.Pointwise) : ∃ q, f.apply libm p = some (q, none) ∧ Cuts f.pixel p q := by
  cases f with
  | crop width height =>
    obtain ⟨q, hq, hcuts⟩ := crop_cuts hpx hf.1 hf.2
    exact ⟨q, by rw [Filter.apply, hq, Option.map_some], hcuts⟩
  | grayscale => exact ⟨_, rfl, cuts_map hpx⟩
  | negative => exact ⟨_, rfl, cuts_map hpx⟩
  | sharpening | edgeDetection | gaussianBlur | tunnel => exact hf.elim

/-- **Every pixel that is left is changed by one filter after the other.** -/
theorem applyFilters_cuts (libm : Libm F)
    (hpx : Grid.Shape p.image.height.toNat p.image.width.toNat p.image.pixels) (hf : ∀ f ∈ filters, f.Pointwise) :
    ∃ q, applyFilters libm filters p = some (q, none) ∧ Cuts (pointwise filters) p q := by
  induction filters generalizing p with
  | nil => exact ⟨p, rfl, .refl hpx⟩
  | cons f filters ih =>
    obtain ⟨r, hr, hcuts⟩ := apply_cuts libm hpx (hf f List.mem_cons_self)
    obtain ⟨q, hq, hcuts'⟩ := ih hcuts.shape fun f hm => hf f (List.mem_cons_of_mem _ hm)
    exact ⟨q, by rw [applyFilters_cons hr, hq], hcuts.trans hcuts'⟩

/-! ## The pipeline -/

/-- `q` has the minima of the sides, and every pixel that is left is in normal form. -/
structure Normalized (filters : List (Filter F)) (p q : Process F) : Prop where
  height : q.image.height.toNat = (filters.filterMap Filter.heightLimit).foldl min p.image.height.toNat
  width : q.image.width.toNat = (filters.filterMap Filter.widthLimit).foldl min p.image.width.toNat
  shape : Grid.Shape q.image.height.toNat q.image.width.toNat q.image.pixels
  cell : ∀ row col, row < q.image.height.toNat → col < q.image.width.toNat →
    ∃ px, p.image.pixels.get row col = some px ∧ q.image.pixels.get row col = some (normalForm filters px)

variable {filters' : List (Filter F)} {q' : Process F}

omit [FloorRing F] in
/-- One list's minima, `Grayscale` and parity of `Negative`s are all that shows. -/
theorem Normalized.same (h : Normalized filters p q) (h' : Normalized filters' p q')
    (hheights : (filters.filterMap Filter.heightLimit).foldl min p.image.height.toNat =
      (filters'.filterMap Filter.heightLimit).foldl min p.image.height.toNat)
    (hwidths : (filters.filterMap Filter.widthLimit).foldl min p.image.width.toNat =
      (filters'.filterMap Filter.widthLimit).foldl min p.image.width.toNat)
    (hgray : .grayscale ∈ filters ↔ .grayscale ∈ filters')
    (hodd : Odd (filters.count .negative) ↔ Odd (filters'.count .negative)) :
    q.image.height = q'.image.height ∧ q.image.width = q'.image.width ∧ q.image.pixels = q'.image.pixels := by
  have hheight : q.image.height.toNat = q'.image.height.toNat := by rw [h.height, h'.height, hheights]
  have hwidth : q.image.width.toNat = q'.image.width.toNat := by rw [h.width, h'.width, hwidths]
  refine ⟨UInt32.toNat_inj.mp hheight, UInt32.toNat_inj.mp hwidth, ?_⟩
  have hshape := h'.shape
  rw [← hheight, ← hwidth] at hshape
  refine h.shape.ext hshape fun row col hrow hcol => ?_
  obtain ⟨px, hget, hcell⟩ := h.cell row col hrow hcol
  obtain ⟨px', hget', hcell'⟩ := h'.cell row col (hheight ▸ hrow) (hwidth ▸ hcol)
  obtain rfl := Option.some.inj (hget.symm.trans hget')
  rw [hcell, hcell', normalForm_congr hgray hodd]

variable [IsStrictOrderedRing F]

theorem applyFilters_normalized (libm : Libm F)
    (hpx : Grid.Shape p.image.height.toNat p.image.width.toNat p.image.pixels)
    (hunit : Grid.All Pixel.Unit p.image.pixels) (hf : ∀ f ∈ filters, f.Pointwise) :
    ∃ q, applyFilters libm filters p = some (q, none) ∧ Normalized filters p q := by
  obtain ⟨q, hq, hcuts⟩ := applyFilters_cuts libm hpx hf
  obtain ⟨hh, hw, -⟩ := applyFilters_sides hq
  refine ⟨q, hq, hh.trans (heightAfter_eq filters _), hw.trans (widthAfter_eq filters _), hcuts.shape,
    fun row col hrow hcol => ?_⟩
  obtain ⟨px, hget⟩ := hpx.get (hrow.trans_le hcuts.height) (hcol.trans_le hcuts.width)
  refine ⟨px, hget, ?_⟩
  rw [hcuts.cell row col hrow hcol, hget, Option.map_some, pointwise_eq hf (hunit.get hget)]

/-- **The normal form of a pipeline of crops, `Grayscale` and `Negative`**, and so two such pipelines with the same
minima, both or neither with a `Grayscale`, and `Negative`s of one parity end with the same sides and pixels. -/
theorem pointwise_pipeline (libm : Libm F)
    (hpx : Grid.Shape p.image.height.toNat p.image.width.toNat p.image.pixels)
    (hunit : Grid.All Pixel.Unit p.image.pixels) :
    (∀ filters : List (Filter F), (∀ f ∈ filters, f.Pointwise) →
      ∃ q, applyFilters libm filters p = some (q, none) ∧ Normalized filters p q) ∧
    ∀ (filters filters' : List (Filter F)) (q q' : Process F),
      (∀ f ∈ filters, f.Pointwise) → (∀ f ∈ filters', f.Pointwise) →
      applyFilters libm filters p = some (q, none) → applyFilters libm filters' p = some (q', none) →
      (filters.filterMap Filter.heightLimit).foldl min p.image.height.toNat =
        (filters'.filterMap Filter.heightLimit).foldl min p.image.height.toNat →
      (filters.filterMap Filter.widthLimit).foldl min p.image.width.toNat =
        (filters'.filterMap Filter.widthLimit).foldl min p.image.width.toNat →
      (.grayscale ∈ filters ↔ .grayscale ∈ filters') →
      (Odd (filters.count .negative) ↔ Odd (filters'.count .negative)) →
      q.image.height = q'.image.height ∧ q.image.width = q'.image.width ∧ q.image.pixels = q'.image.pixels := by
  refine ⟨fun filters hf => applyFilters_normalized libm hpx hunit hf, ?_⟩
  intro filters filters' q q' hf hf' hq hq' hheights hwidths hgray hodd
  obtain ⟨r, hr, hnormal⟩ := applyFilters_normalized libm hpx hunit hf
  obtain ⟨r', hr', hnormal'⟩ := applyFilters_normalized libm hpx hunit hf'
  obtain ⟨rfl, -⟩ := Prod.mk.inj (Option.some.inj (hq.symm.trans hr))
  obtain ⟨rfl, -⟩ := Prod.mk.inj (Option.some.inj (hq'.symm.trans hr'))
  exact hnormal.same hnormal' hheights hwidths hgray hodd

/-- `-neg -crop 1 1 -gs` and `-gs -crop 2 1 -gs -neg -crop 1 3` on a row of two red pixels. -/
theorem redPixels_pipeline : ∃ q q',
    applyFilters noLibm [.negative, .crop 1 1, .grayscale] (oneRow 2 ⟨1, 0, 0⟩ ⟨0, 0, 1⟩) = some (q, none) ∧
      applyFilters noLibm [.grayscale, .crop 2 1, .grayscale, .negative, .crop 1 3] (oneRow 2 ⟨1, 0, 0⟩ ⟨0, 0, 1⟩) =
        some (q', none) ∧
      q.image.height = 1 ∧ q.image.width = 1 ∧
      q.image.pixels.get 0 0 = some ⟨701 / 1000, 701 / 1000, 701 / 1000⟩ ∧ q.image.pixels = q'.image.pixels := by
  have hred : (⟨1, 0, 0⟩ : Pixel ℚ).Unit := ⟨by norm_num, by norm_num, by norm_num⟩
  have hf : ∀ f ∈ [.negative, .crop 1 1, .grayscale], (f : Filter ℚ).Pointwise := by
    intro f hm
    simp only [List.mem_cons, List.not_mem_nil, or_false] at hm
    rcases hm with rfl | rfl | rfl
    · trivial
    · exact ⟨by decide, by decide⟩
    · trivial
  have hf' : ∀ f ∈ [.grayscale, .crop 2 1, .grayscale, .negative, .crop 1 3], (f : Filter ℚ).Pointwise := by
    intro f hm
    simp only [List.mem_cons, List.not_mem_nil, or_false] at hm
    rcases hm with rfl | rfl | rfl | rfl | rfl
    · trivial
    · exact ⟨by decide, by decide⟩
    · trivial
    · trivial
    · exact ⟨by decide, by decide⟩
  obtain ⟨hnormal, hsame⟩ := pointwise_pipeline (p := oneRow 2 ⟨1, 0, 0⟩ ⟨0, 0, 1⟩) noLibm (Grid.shape_replicate _ _ _)
    (.replicate _ _ hred)
  obtain ⟨q, hq, hnorm⟩ := hnormal _ hf
  obtain ⟨q', hq', -⟩ := hnormal _ hf'
  obtain ⟨-, -, hpixels⟩ := hsame _ _ q q' hf hf' hq hq' (by decide) (by decide) (by simp) (by decide)
  have hheight : q.image.height.toNat = 1 := hnorm.height.trans (by decide)
  have hwidth : q.image.width.toNat = 1 := hnorm.width.trans (by decide)
  obtain ⟨px, hpx, hcell⟩ := hnorm.cell 0 0 (by omega) (by omega)
  obtain rfl : ⟨1, 0, 0⟩ = px := Option.some.inj hpx
  refine ⟨q, q', hq, hq', UInt32.toNat_inj.mp hheight, UInt32.toNat_inj.mp hwidth, hcell.trans ?_, hpixels⟩
  have hgrey : (Filter.grayscale : Filter ℚ) ∈ [.negative, .crop 1 1, .grayscale] := by simp
  have hodd : Odd (List.count (.negative : Filter ℚ) [.negative, .crop 1 1, .grayscale]) := by decide
  rw [normalForm, if_pos hgrey, if_pos hodd, Pixel.greyed]
  norm_num

end HighLoad.ImageProcessor
