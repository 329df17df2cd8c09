import HighLoad.ImageProcessor.Effects
import HighLoad.ImageProcessor.Pipeline

/-!
# What pixels keep

A property of pixels that the pointwise operations keep, and that a normalised sum of pixels has, is kept by every
filter (`Kept`, `apply_all`): `Multiply` writes every cell of the static buffer before it swaps it in, so nothing of
earlier passes shows.

Two properties are of this kind: components in `[0, 1]`, which make the conversion to bytes safe (`pipeline_unit`), and
equal components (`pipeline_grey`). Neither depends on what `<cmath>` returns, nor on the values of a kernel, so both are
stated for kernels of any values; the calculated ones are among them (`applyFilters_eq_rows`). With a side of `2 ^ 31` or
more `Multiply` visits no pixel, and the second fails (`hugeImage_coloured`).
-/

namespace HighLoad.ImageProcessor

open ByteString

variable {F : Type} [Field F] [LinearOrder F] {P A : Pixel F → Prop} {p q : Process F} {e : Option Exn}
  {matrix : Matrix F}

/-- `P` is kept by what filters do to pixels; `A` is what sums of such pixels have. -/
structure Kept (P A : Pixel F → Prop) : Prop where
  zero : P Pixel.zero
  start : A ⟨0, 0, 0⟩
  addMul : ∀ acc coeff px, A acc → P px → A (acc.addMul coeff px)
  normalize : ∀ acc, A acc → P acc.normalize
  gray : ∀ px, P px → P px.gray
  negative : ∀ px, P px → P px.negative
  edge : ∀ threshold px, P px → P (px.edge threshold)

/-! ## Components in `[0, 1]` -/

section Unit

/-- A pixel of one value. -/
theorem unit_const {x : F} (h : 0 ≤ x ∧ x ≤ 1) : Pixel.Unit ⟨x, x, x⟩ := ⟨h, h, h⟩

variable [IsStrictOrderedRing F]

theorem normalize_mem (x : F) : 0 ≤ ImageProcessor.normalize x ∧ ImageProcessor.normalize x ≤ 1 :=
  ⟨le_min zero_le_one (le_max_left _ _), min_le_left _ _⟩

theorem negative_mem {x : F} (h : 0 ≤ x ∧ x ≤ 1) : 0 ≤ 1 - x ∧ 1 - x ≤ 1 :=
  ⟨sub_nonneg.mpr h.2, sub_le_self _ h.1⟩

theorem unit_kept : Kept (Pixel.Unit : Pixel F → Prop) fun _ => True where
  zero := unit_const ⟨le_refl 0, zero_le_one⟩
  start := trivial
  addMul _ _ _ _ _ := trivial
  normalize _ _ := ⟨normalize_mem _, normalize_mem _, normalize_mem _⟩
  gray _ _ := unit_const ⟨le_max_left _ _, max_le zero_le_one (min_le_left _ _)⟩
  negative _ h := ⟨negative_mem h.r, negative_mem h.g, negative_mem h.b⟩
  edge threshold px _ := by
    unfold Pixel.edge
    split
    · exact unit_const ⟨le_refl 0, zero_le_one⟩
    · exact unit_const ⟨zero_le_one, le_refl 1⟩

theorem byte_mem (b : UInt8) : 0 ≤ (b.toNat : F) / 255 ∧ (b.toNat : F) / 255 ≤ 1 := by
  have hle : (b.toNat : F) ≤ 255 := by
    have hb := b.toNat_lt
    exact_mod_cast (by omega : b.toNat ≤ 255)
  refine ⟨div_nonneg (Nat.cast_nonneg _) (by norm_num), ?_⟩
  rw [div_le_one (by norm_num)]
  exact hle

/-- Decoded components are in `[0, 1]`. -/
theorem pixelAt_unit {bytes : Bytes} {pos : Nat} {px : Pixel F} (h : pixelAt bytes pos = some px) : px.Unit := by
  obtain ⟨blue, -, h⟩ := Option.bind_eq_some_iff.mp h
  obtain ⟨green, -, h⟩ := Option.bind_eq_some_iff.mp h
  obtain ⟨red, -, h⟩ := Option.bind_eq_some_iff.mp h
  cases h
  exact ⟨byte_mem red, byte_mem green, byte_mem blue⟩

theorem readFile_unit {fs : FileSystem} {path : Bytes} {img : Image F} {buffer buffer' : Grid (Pixel F)}
    (hok : readFile fs path buffer = some (.ok (img, buffer'))) (hw : img.width.toNat ≤ maxWidth) :
    Grid.All Pixel.Unit img.pixels := by
  obtain ⟨rest, hfile, hcheck⟩ := readFile_ok hok
  obtain ⟨px, hread, hshape, hcells⟩ := readFile_file hfile hcheck hw buffer
  rw [hok, Option.some.injEq, Except.ok.injEq, Prod.mk.injEq] at hread
  have hpx : img.pixels = px := by rw [hread.1]
  rw [hpx]
  refine .of_get hshape fun row col p hrow hcol hp => ?_
  have hcell := hcells (img.height.toNat - 1 - row) col (by omega) hcol
  have hback : img.height.toNat - 1 - (img.height.toNat - 1 - row) = row := by omega
  rw [hback, hp] at hcell
  exact pixelAt_unit hcell.symm

end Unit

/-! ## Grey pixels -/

/-- All components are equal. -/
def Pixel.Grey (p : Pixel F) : Prop := p.r = p.g ∧ p.g = p.b

theorem grey_kept : Kept (Pixel.Grey : Pixel F → Prop) Pixel.Grey where
  zero := ⟨rfl, rfl⟩
  start := ⟨rfl, rfl⟩
  addMul acc coeff px ha hp := by
    obtain ⟨har, hag⟩ := ha
    obtain ⟨hpr, hpg⟩ := hp
    exact ⟨by rw [Pixel.addMul, har, hpr], by rw [Pixel.addMul, hag, hpg]⟩
  normalize acc h := ⟨congrArg ImageProcessor.normalize h.1, congrArg ImageProcessor.normalize h.2⟩
  gray _ _ := ⟨rfl, rfl⟩
  negative px h := ⟨congrArg (1 - ·) h.1, congrArg (1 - ·) h.2⟩
  edge threshold px _ := by
    unfold Pixel.edge
    split
    · exact ⟨rfl, rfl⟩
    · exact ⟨rfl, rfl⟩

/-- `Grayscale` makes every pixel grey. -/
theorem grayscale_grey (p : Process F) : Grid.All Pixel.Grey (grayscale p).image.pixels := by
  intro row hrow px hpx
  obtain ⟨row', -, rfl⟩ := List.mem_map.mp hrow
  obtain ⟨px', -, rfl⟩ := List.mem_map.mp hpx
  exact ⟨rfl, rfl⟩

/-! ## Every filter -/

/-- After `Multiply` the shape is kept and every pixel is a normalised sum. -/
theorem multiply_cells (hs : Shaped p) (h : p.multiply matrix = some q) : Shaped q ∧
    ∃ (midRow midCol : Int), ∀ row col px, q.image.pixels.get row col = some px →
      ∃ acc, multiplyAt matrix p.image.toInfoHeader p.image.pixels midRow midCol row col = some acc ∧
        px = acc.normalize := by
  obtain ⟨midRow, midCol, pixels, hsweep, rfl⟩ := multiply_some h
  rw [wrap32_side hs.height, wrap32_side hs.width] at hsweep
  obtain ⟨hshape, hcells⟩ := Grid.sweep_some hs.buffer hsweep
  refine ⟨⟨hshape, hs.pixels, hs.height, hs.width⟩, midRow, midCol, fun row col px hpx => ?_⟩
  obtain ⟨hrow, hcol⟩ := hshape.lt_of_get hpx
  obtain ⟨b, hb, hget⟩ := hcells row col hrow hcol
  obtain ⟨old, -, hb⟩ := Option.bind_eq_some_iff.mp hb
  obtain ⟨acc, hacc, rfl⟩ := Option.map_eq_some_iff.mp hb
  exact ⟨acc, hacc, Option.some.inj (hpx.symm.trans hget)⟩

theorem multiply_all (hk : Kept P A) (hs : Shaped p) (hP : Grid.All P p.image.pixels)
    (h : p.multiply matrix = some q) : Shaped q ∧ Grid.All P q.image.pixels := by
  obtain ⟨hsq, midRow, midCol, hcells⟩ := multiply_cells hs h
  refine ⟨hsq, .of_get hsq.pixels fun row col px _ _ hpx => ?_⟩
  obtain ⟨acc, hacc, rfl⟩ := hcells row col px hpx
  exact hk.normalize acc (multiplyAt_inv hk.start hk.addMul hP hacc)

theorem crop_all (hk : Kept P A) (hP : Grid.All P p.image.pixels) {width height : Int16}
    (h : crop width height p = some q) : Grid.All P q.image.pixels := by
  obtain ⟨p₁, h₁, h⟩ := Option.bind_eq_some_iff.mp h
  obtain ⟨p₂, h₂, rfl⟩ := Option.map_eq_some_iff.mp h
  have hP₁ : Grid.All P p₁.image.pixels := by
    rcases cropHeight_cases h₁ with ⟨-, rfl⟩ | ⟨-, rfl⟩
    · exact hP
    · exact hP.resizeRows _
  rcases cropWidth_cases h₂ with ⟨-, rfl⟩ | ⟨-, rfl⟩
  · exact hP₁
  · exact hP₁.mapResize _ hk.zero

/-- The last loop of `EdgeDetection` leaves black and white. -/
theorem edgeDetection_cells {threshold : F} (hs : Shaped p) (h : edgeDetection threshold p = some q) :
    ∃ p₁, (grayscale p).multiply edgeDetectionMatrix = some p₁ ∧ Shaped q ∧
      ∀ row col px, q.image.pixels.get row col = some px →
        ∃ px₁, p₁.image.pixels.get row col = some px₁ ∧ px = px₁.edge threshold := by
  obtain ⟨p₁, pixels, h₁, hsweep, rfl⟩ := edgeDetection_some h
  obtain ⟨hs₁, -⟩ := multiply_cells (grayscale_shaped hs) h₁
  obtain ⟨hshape, hcells⟩ := Grid.sweep_some hs₁.pixels hsweep
  refine ⟨p₁, h₁, hs₁.setPixels hshape, fun row col px hpx => ?_⟩
  obtain ⟨hrow, hcol⟩ := hshape.lt_of_get hpx
  obtain ⟨b, hb, hget⟩ := hcells row col hrow hcol
  obtain ⟨px₁, hpx₁, hb⟩ := Option.bind_eq_some_iff.mp hb
  cases hb
  exact ⟨px₁, hpx₁, Option.some.inj (hpx.symm.trans hget)⟩

variable [FloorRing F] {libm : Libm F}

/-- `Tunnel` moves pixels only. -/
theorem tunnelPixel_all (hP : Grid.All P p.image.pixels) {centerH centerW : Int} {strength radius : F} {row col : Nat}
    {px : Pixel F} (h : tunnelPixel libm centerH centerW strength radius p.image row col = some px) : P px := by
  obtain ⟨old, hold, h⟩ := Option.bind_eq_some_iff.mp h
  split at h
  · cases h
    exact hP.get hold
  · split at h
    · exact getAt_all hP h
    · cases h
      exact hP.get hold

theorem tunnel_all (hs : Shaped p) (hP : Grid.All P p.image.pixels) {centerH centerW : Int} {strength radius : F}
    (h : tunnel libm centerH centerW strength radius p = some (q, e)) : Shaped q ∧ Grid.All P q.image.pixels := by
  rcases tunnel_some h with ⟨-, rfl, -⟩ | ⟨-, -, pixels, hsweep, rfl⟩
  · exact ⟨hs, hP⟩
  · obtain ⟨hshape, hcells⟩ := Grid.sweep_some (Grid.shape_replicate _ _ _) hsweep
    refine ⟨hs.setPixels hshape, .of_get hshape fun row col px hrow hcol hpx => ?_⟩
    obtain ⟨b, hb, hget⟩ := hcells row col hrow hcol
    obtain ⟨old, -, hb⟩ := Option.bind_eq_some_iff.mp hb
    obtain rfl := Option.some.inj (hpx.symm.trans hget)
    exact tunnelPixel_all hP hb

omit [FloorRing F] in
/-- The two convolutions of a blur, whatever the kernel. -/
theorem blurWith_all (hk : Kept P A) (hs : Shaped p) (hP : Grid.All P p.image.pixels) (h : blurWith matrix p = some q) :
    Shaped q ∧ Grid.All P q.image.pixels := by
  obtain ⟨p₁, h₁, h⟩ := Option.bind_eq_some_iff.mp h
  obtain ⟨matrix', -, h⟩ := Option.bind_eq_some_iff.mp h
  obtain ⟨p₂, h₂, rfl⟩ := Option.map_eq_some_iff.mp h
  obtain ⟨hs₁, hP₁⟩ := multiply_all hk hs hP h₁
  obtain ⟨hs₂, hP₂⟩ := multiply_all hk hs₁ hP₁ h₂
  exact ⟨hs₂.setMatrix matrix', hP₂⟩

/-- **A filter keeps the shape and a property of this kind**, whatever its parameters, the kernel of the blur and the
functions of the tunnel. -/
theorem apply_all (hk : Kept P A) {f : Filter F} (hs : Shaped p) (hP : Grid.All P p.image.pixels)
    (h : f.apply libm p = some (q, e)) : Shaped q ∧ Grid.All P q.image.pixels := by
  cases f with
  | crop width height =>
    rw [Filter.apply] at h
    obtain ⟨hq, -⟩ := map_none_some h
    obtain ⟨q', hq', hs'⟩ := crop_shaped hs width height
    obtain rfl := Option.some.inj (hq'.symm.trans hq)
    exact ⟨hs', crop_all hk hP hq⟩
  | grayscale =>
    cases h
    exact ⟨grayscale_shaped hs, hP.map hk.gray⟩
  | negative =>
    cases h
    exact ⟨negative_shaped hs, hP.map hk.negative⟩
  | sharpening =>
    rw [Filter.apply] at h
    obtain ⟨hq, -⟩ := map_none_some h
    exact multiply_all hk hs hP hq
  | edgeDetection threshold =>
    rw [Filter.apply] at h
    obtain ⟨hq, -⟩ := map_none_some h
    obtain ⟨p₁, h₁, hsq, hcells⟩ := edgeDetection_cells hs hq
    obtain ⟨-, hP₁⟩ := multiply_all hk (grayscale_shaped hs) (hP.map hk.gray) h₁
    refine ⟨hsq, .of_get hsq.pixels fun row col px _ _ hpx => ?_⟩
    obtain ⟨px₁, hpx₁, rfl⟩ := hcells row col px hpx
    exact hk.edge threshold px₁ (hP₁.get hpx₁)
  | gaussianBlur sigma =>
    rw [Filter.apply, gaussianBlur_eq] at h
    split at h
    case h_1 =>
      cases h
      exact ⟨hs, hP⟩
    case h_2 => exact blurWith_all hk hs hP (map_none_some h).1
  | tunnel centerH centerW strength radius =>
    rw [Filter.apply] at h
    exact tunnel_all hs hP h

/-- **A list of filters keeps it.** -/
theorem applyFilters_all (hk : Kept P A) {filters : List (Filter F)} (hs : Shaped p) (hP : Grid.All P p.image.pixels)
    (h : applyFilters libm filters p = some (q, e)) : Shaped q ∧ Grid.All P q.image.pixels := by
  refine applyFilters_inv (I := fun p => Shaped p ∧ Grid.All P p.image.pixels) ?_ ⟨hs, hP⟩ h
  intro f _ p q e hI hf
  exact apply_all hk hI.1 hI.2 hf

/-- **So does a filter with a kernel of any values.** -/
theorem applyRow_all (hk : Kept P A) {f : Filter F} {row : List F} (hs : Shaped p) (hP : Grid.All P p.image.pixels)
    (h : f.applyRow libm row p = some (q, e)) : Shaped q ∧ Grid.All P q.image.pixels := by
  cases f with
  | gaussianBlur sigma =>
    rw [Filter.applyRow] at h
    split at h
    case h_1 =>
      cases h
      exact ⟨hs, hP⟩
    case h_2 => exact blurWith_all hk hs hP (map_none_some h).1
  | crop | grayscale | negative | sharpening | edgeDetection | tunnel =>
    rw [applyRow_of_ne (by simp)] at h
    exact apply_all hk hs hP h

/-- **And a list of filters with kernels of any values.** -/
theorem applyRows_all (hk : Kept P A) {items : List (Filter F × List F)} (hs : Shaped p)
    (hP : Grid.All P p.image.pixels) (h : applyRows libm items p = some (q, e)) :
    Shaped q ∧ Grid.All P q.image.pixels := by
  induction items generalizing p with
  | nil =>
    cases h
    exact ⟨hs, hP⟩
  | cons item items ih =>
    obtain ⟨f, row⟩ := item
    obtain ⟨⟨r, e'⟩, hr, h⟩ := Option.bind_eq_some_iff.mp h
    obtain ⟨hsr, hPr⟩ := applyRow_all hk hs hP hr
    cases e' with
    | none => exact ih hsr hPr h
    | some e' =>
      cases h
      exact ⟨hsr, hPr⟩

theorem applyRows_cons {f : Filter F} {row : List F} {items : List (Filter F × List F)}
    (h : f.applyRow libm row p = some (q, none)) : applyRows libm ((f, row) :: items) p = applyRows libm items q := by
  rw [applyRows, h]
  rfl

/-- A list that returns returned at every point. -/
theorem applyRows_split {items more : List (Filter F × List F)} (h : applyRows libm (items ++ more) p = some (q, none)) :
    ∃ r, applyRows libm items p = some (r, none) ∧ applyRows libm more r = some (q, none) := by
  induction items generalizing p with
  | nil => exact ⟨p, rfl, h⟩
  | cons item items ih =>
    obtain ⟨f, row⟩ := item
    obtain ⟨⟨r, e⟩, hr, h⟩ := Option.bind_eq_some_iff.mp h
    cases e with
    | none =>
      obtain ⟨s, hs, hq⟩ := ih h
      exact ⟨s, by rw [applyRows_cons hr, hs], hq⟩
    | some e => cases h

/-! ## The pipeline -/

section Pipeline

variable [IsStrictOrderedRing F]

/-- `GetByte` converts a value of `[0, 255]` and loses its fraction only. -/
structure ExactByte (x : F) : Prop where
  range : 0 ≤ x * 255 ∧ x * 255 ≤ 255
  value : ((getByte x).toNat : Int) = ⌊x * 255⌋

theorem exactByte {x : F} (h : 0 ≤ x ∧ x ≤ 1) : ExactByte x := ⟨scaled_mem h, getByte_floor h⟩

/-- Every pixel within `height` and `width` is there, its components lie in `[0, 1]`, and their conversion to bytes is
exact. -/
def InRange (p : Process F) : Prop :=
  ∀ row col, row < p.image.height.toNat → col < p.image.width.toNat →
    ∃ px, p.image.pixels.get row col = some px ∧ px.Unit ∧ ExactByte px.r ∧ ExactByte px.g ∧ ExactByte px.b

theorem inRange (hs : Shaped p) (hunit : Grid.All Pixel.Unit p.image.pixels) : InRange p := by
  intro row col hrow hcol
  obtain ⟨px, hpx⟩ := hs.pixels.get hrow hcol
  have hpx' := hunit.get hpx
  exact ⟨px, hpx, hpx', exactByte hpx'.r, exactByte hpx'.g, exactByte hpx'.b⟩

/-- **Components stay in `[0, 1]`**: in a fresh process, after `ReadFile` and after any number of filters built by the
fabrics, whatever the values of the kernels and of the functions of `<cmath>`. -/
theorem pipeline_unit {fs : FileSystem} {path : Bytes} {img : Image F} {buffer : Grid (Pixel F)} (libm : Libm F)
    (hok : readFile fs path [] = some (.ok (img, buffer))) (hw : img.width.toNat ≤ maxWidth)
    (hh : img.height.toNat < 2 ^ 31) :
    (∀ items : List (Filter F × List F), (∀ item ∈ items, RowFits item) → ∀ k,
      ∃ q e, applyRows libm (items.take k) ⟨img, buffer, []⟩ = some (q, e) ∧ InRange q) ∧
    ∀ filters : List (Filter F), (∀ f ∈ filters, Admitted f) → ∀ k,
      ∃ q e, applyFilters libm (filters.take k) ⟨img, buffer, []⟩ = some (q, e) ∧ InRange q := by
  have hs : Shaped ⟨img, buffer, []⟩ := readFile_shaped hok hw hh []
  have hrows : ∀ items : List (Filter F × List F), (∀ item ∈ items, RowFits item) →
      ∃ q e, applyRows libm items ⟨img, buffer, []⟩ = some (q, e) ∧ InRange q := by
    intro items hf
    obtain ⟨q, e, hq, hsq⟩ : ∃ q e, applyRows libm items ⟨img, buffer, []⟩ = some (q, e) ∧ Shaped q :=
      applyRows_shaped hs hf
    exact ⟨q, e, hq, inRange hsq (applyRows_all unit_kept hs (readFile_unit hok hw) hq).2⟩
  refine ⟨fun items hf k => hrows _ fun item hm => hf item (List.mem_of_mem_take hm), fun filters hf k => ?_⟩
  rw [applyFilters_eq_rows]
  refine hrows _ fun item hm => ?_
  obtain ⟨f, hmem, rfl⟩ := List.mem_map.mp hm
  exact rowFits_calculated libm (hf f (List.mem_of_mem_take hmem))

theorem half_kernelSize : kernelSize (1 / 2 : ℚ) = 3 := by decide +kernel

/-- A blur with a kernel that is no mean, a tunnel and `-neg` on a picture of four pixels. -/
theorem fourPixels_unit : ∃ img buffer q e,
    readFile (FileSystem.holding fourPixels) [] ([] : Grid (Pixel ℚ)) = some (.ok (img, buffer)) ∧
      applyRows noLibm [(.gaussianBlur (atof (ascii "0.5")), [2, -1, 3]),
        (.tunnel 0 0 (atof (ascii "1")) (atof (ascii "2")), []), (.negative, [])] ⟨img, buffer, []⟩ = some (q, e) ∧
      InRange q := by
  have hfile : (FileSystem.holding fourPixels).content [] = some fourPixels := rfl
  obtain ⟨img, buffer, hok⟩ := readFile_readable hfile fourPixels_readable ([] : Grid (Pixel ℚ))
  obtain ⟨hwidth, hheight⟩ := readFile_headers hfile hok
  have hvalue : (atof (ascii "0.5") : ℚ) = 1 / 2 := by
    show ((0 : Nat) : ℚ) + ((5 : Nat) : ℚ) / 10 ^ 1 = 1 / 2
    norm_num
  have hf : ∀ item ∈ [(.gaussianBlur (atof (ascii "0.5")), [2, -1, 3]),
      (.tunnel 0 0 (atof (ascii "1")) (atof (ascii "2")), []), (.negative, [])],
      RowFits (item : Filter ℚ × List ℚ) := by
    intro item hm
    simp only [List.mem_cons, List.not_mem_nil, or_false] at hm
    rcases hm with rfl | rfl | rfl
    · have hmake : BlurFabric.make (ascii "0.5") = .ok (.gaussianBlur (atof (ascii "0.5")) : Filter ℚ) := rfl
      refine ⟨⟨.blur hmake, fun sigma h => ?_⟩, fun sigma h _ => ?_⟩
      · cases h
        rw [hvalue]
        norm_num
      · cases h
        rw [hvalue]
        exact half_kernelSize.symm
    · have hmake : TunnelFabric.make (ascii "0") (ascii "0") (ascii "1") (ascii "2") =
          .ok (.tunnel 0 0 (atof (ascii "1")) (atof (ascii "2")) : Filter ℚ) := rfl
      exact ⟨⟨.tunnel hmake, fun _ h => by cases h⟩, fun _ h => by cases h⟩
    · exact ⟨⟨.neg, fun _ h => by cases h⟩, fun _ h => by cases h⟩
  obtain ⟨q, e, hq, hrange⟩ :=
    (pipeline_unit noLibm hok (by rw [← hwidth]; decide) (by rw [← hheight]; decide)).1 _ hf 3
  exact ⟨img, buffer, q, e, hok, hq, hrange⟩

end Pipeline

/-- **Once grey, always grey**, with sides below `2 ^ 31` and whatever the values of the kernels: grey pixels stay grey
through filters that return, a `Grayscale` makes them grey for all later filters, and the decision of `EdgeDetection` on
the red component is the one that green or blue would give, and leaves black and white. A pipeline of the program is one
of these, with the calculated values. -/
theorem pipeline_grey (libm : Libm F) :
    (∀ (p : Process F) (filters : List (Filter F)),
      applyFilters libm filters p = applyRows libm (filters.map fun f => (f, f.calculated libm)) p) ∧
    (∀ (p q : Process F) (items : List (Filter F × List F)), Shaped p → Grid.All Pixel.Grey p.image.pixels →
      applyRows libm items p = some (q, none) → Grid.All Pixel.Grey q.image.pixels) ∧
    (∀ (p q : Process F) (items later : List (Filter F × List F)) (row : List F), Shaped p →
      applyRows libm (items ++ (.grayscale, row) :: later) p = some (q, none) → Grid.All Pixel.Grey q.image.pixels) ∧
    ∀ (p q : Process F) (threshold : F), Shaped p → edgeDetection threshold p = some q →
      (∃ p₁, (grayscale p).multiply edgeDetectionMatrix = some p₁ ∧
        Grid.All (fun px => (px.r ≤ threshold ↔ px.g ≤ threshold) ∧ (px.r ≤ threshold ↔ px.b ≤ threshold))
          p₁.image.pixels) ∧
      Grid.All (fun px => px = ⟨0, 0, 0⟩ ∨ px = ⟨1, 1, 1⟩) q.image.pixels := by
  refine ⟨fun p filters => applyFilters_eq_rows libm filters p,
    fun p q items hs hgrey h => (applyRows_all grey_kept hs hgrey h).2, fun p q items later row hs h => ?_,
    fun p q threshold hs h => ?_⟩
  · obtain ⟨r, hr, h⟩ := applyRows_split h
    have hany : Kept (fun _ : Pixel F => True) fun _ => True := by constructor <;> simp
    obtain ⟨hsr, -⟩ := applyRows_all hany hs (fun _ _ _ _ => trivial) hr
    rw [applyRows_cons (q := grayscale r) rfl] at h
    exact (applyRows_all grey_kept (grayscale_shaped hsr) (grayscale_grey r) h).2
  · obtain ⟨p₁, h₁, hsq, hcells⟩ := edgeDetection_cells hs h
    obtain ⟨-, hgrey⟩ := multiply_all grey_kept (grayscale_shaped hs) (grayscale_grey p) h₁
    refine ⟨⟨p₁, h₁, fun row hrow px hpx => ?_⟩, .of_get hsq.pixels fun row col px _ _ hpx => ?_⟩
    · obtain ⟨hrg, hgb⟩ := hgrey row hrow px hpx
      exact ⟨by rw [hrg], by rw [hrg, hgb]⟩
    · obtain ⟨px₁, -, rfl⟩ := hcells row col px hpx
      unfold Pixel.edge
      split
      · exact .inl rfl
      · exact .inr rfl

/-! ## A small picture and a huge one -/

/-- One row of pixels of one colour, and what the static members hold. -/
def oneRow (width : UInt32) (pixel buffer : Pixel ℚ) : Process ℚ where
  image :=
    { toFileHeader := ⟨0x4D42, 54, 0, 0, 54⟩
      toInfoHeader := ⟨40, width, 1, 1, 24, 0, 0, 0, 0, 0, 0⟩
      pixels := List.replicate 1 (List.replicate width.toNat pixel) }
  buffer := List.replicate 1 (List.replicate width.toNat buffer)
  matrix := []

theorem oneRow_shaped {width : UInt32} (hw : width.toNat < 2 ^ 31) (pixel buffer : Pixel ℚ) :
    Shaped (oneRow width pixel buffer) :=
  ⟨Grid.shape_replicate _ _ _, Grid.shape_replicate _ _ _, Nat.one_lt_two_pow (by decide), hw⟩

/-- `-gs -neg`, and a blur with a kernel that is no mean, on a row of two red pixels. -/
theorem smallImage_grey : ∃ q,
    applyRows noLibm [(.grayscale, []), (.negative, []), (.gaussianBlur (1 / 2), [2, -1, 3])]
      (oneRow 2 ⟨1, 0, 0⟩ ⟨0, 0, 1⟩) = some (q, none) ∧ Grid.All Pixel.Grey q.image.pixels := by
  have hs : Shaped (oneRow 2 ⟨1, 0, 0⟩ ⟨0, 0, 1⟩) := oneRow_shaped (by decide) _ _
  have hshape : Grid.Shape 1 (2 * 1 + 1) [[(2 : ℚ), -1, 3]] := ⟨rfl, by simp⟩
  obtain ⟨q, hq, -⟩ := blurWith_shaped (negative_shaped (grayscale_shaped hs)) hshape (by decide)
  have hblur : Filter.applyRow noLibm [2, -1, 3] (.gaussianBlur (1 / 2))
      (negative (grayscale (oneRow 2 ⟨1, 0, 0⟩ ⟨0, 0, 1⟩))) = some (q, none) := by
    have hcalc : calcMatrix noLibm (1 / 2 : ℚ) (kernelSize (1 / 2 : ℚ)) = .ok _ := if_neg (by norm_num)
    rw [Filter.applyRow, hcalc]
    dsimp only
    rw [hq, Option.map_some]
  have hrun : applyRows noLibm [(.grayscale, []), (.negative, []), (.gaussianBlur (1 / 2), [2, -1, 3])]
      (oneRow 2 ⟨1, 0, 0⟩ ⟨0, 0, 1⟩) = some (q, none) := by
    rw [applyRows_cons (q := grayscale _) rfl, applyRows_cons (q := negative _) rfl, applyRows_cons hblur]
    rfl
  exact ⟨q, hrun, (pipeline_grey noLibm).2.2.1 _ _ [] _ [] hs hrun⟩

/-- On a row of `2 ^ 31` pixels a convolution swaps pixels and static buffer. -/
theorem sharpening_huge (pixel buffer : Pixel ℚ) :
    applyFilters noLibm [.sharpening] (oneRow 2147483648 pixel buffer) =
      some (oneRow 2147483648 buffer pixel, none) := by
  have hw : 2 ^ 31 ≤ (oneRow 2147483648 pixel buffer).image.width.toNat := Nat.le_refl _
  have hmul : (oneRow 2147483648 pixel buffer).multiply sharpeningMatrix = some (oneRow 2147483648 buffer pixel) :=
    multiply_huge (.inr hw) rfl
  have hsharp : Filter.sharpening.apply noLibm (oneRow 2147483648 pixel buffer) =
      some (oneRow 2147483648 buffer pixel, none) := by rw [Filter.apply, sharpening, hmul, Option.map_some]
  rw [applyFilters_cons hsharp]
  rfl

/-- Black pixels, and blue in the static buffer: sharpened, the row is blue. -/
theorem hugeImage_coloured : ∃ p q : Process ℚ,
    Grid.Shape p.image.height.toNat p.image.width.toNat p.image.pixels ∧
      Grid.Shape p.image.height.toNat p.image.width.toNat p.buffer ∧ Grid.All Pixel.Grey p.image.pixels ∧
      applyFilters noLibm [.sharpening] p = some (q, none) ∧ ¬Grid.All Pixel.Grey q.image.pixels := by
  refine ⟨_, _, Grid.shape_replicate _ _ _, Grid.shape_replicate _ _ _, .replicate _ _ ⟨rfl, rfl⟩,
    sharpening_huge Pixel.zero ⟨0, 0, 1⟩, ?_⟩
  intro hgrey
  have hblue : (⟨0, 0, 1⟩ : Pixel ℚ) ∈ List.replicate (2147483648 : UInt32).toNat (⟨0, 0, 1⟩ : Pixel ℚ) :=
    List.mem_replicate.mpr ⟨by decide, rfl⟩
  have h := (hgrey _ (List.mem_singleton.mpr rfl) _ hblue).2
  exact zero_ne_one h

end HighLoad.ImageProcessor
