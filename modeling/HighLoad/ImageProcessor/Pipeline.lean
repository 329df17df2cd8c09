import Mathlib.Data.Rat.Floor
import HighLoad.ImageProcessor.FilePositions
import HighLoad.ImageProcessor.Fabrics

/-!
# The shape invariant of the pipeline

`Shaped` says that pixels and static buffer have `height` rows of `width` pixels, with sides below `2 ^ 31`. `ReadFile`
establishes it in a fresh process (`readFile_shaped`), and every filter that a fabric can build keeps it, whether it
returns or throws (`apply_shaped`), a crop with a non-positive side included. Since a filter that reads or writes outside
a vector has no result, this is also the index safety of the pipeline (`pipeline_shaped`).
-/

namespace HighLoad.ImageProcessor

open ByteString

variable {F : Type}

/-- Pixels and static buffer have `height` rows of `width` pixels. -/
structure Shaped (p : Process F) : Prop where
  pixels : Grid.Shape p.image.height.toNat p.image.width.toNat p.image.pixels
  buffer : Grid.Shape p.image.height.toNat p.image.width.toNat p.buffer
  height : p.image.height.toNat < 2 ^ 31
  width : p.image.width.toNat < 2 ^ 31

variable {p : Process F} {matrix : Matrix F} {a b : Nat}

/-- New pixels of the old shape. -/
theorem Shaped.setPixels (hs : Shaped p) {pixels : Grid (Pixel F)}
    (hpx : Grid.Shape p.image.height.toNat p.image.width.toNat pixels) :
    Shaped { p with image := { p.image with pixels } } :=
  ⟨hpx, hs.buffer, hs.height, hs.width⟩

/-- The static kernel does not matter. -/
theorem Shaped.setMatrix (hs : Shaped p) (matrix : Matrix F) : Shaped { p with matrix } :=
  ⟨hs.pixels, hs.buffer, hs.height, hs.width⟩

/-- A kernel of three rows of three. -/
theorem shape_three (k₁ k₂ k₃ k₄ k₅ k₆ k₇ k₈ k₉ : F) :
    Grid.Shape (2 * 1 + 1) (2 * 1 + 1) [[k₁, k₂, k₃], [k₄, k₅, k₆], [k₇, k₈, k₉]] := by
  refine ⟨rfl, fun l hl => ?_⟩
  simp only [List.mem_cons, List.not_mem_nil, or_false] at hl
  rcases hl with rfl | rfl | rfl
  · rfl
  · rfl
  · rfl

/-! ## Crop -/

/-- A converted `int16_t` below a side is its own value. -/
theorem vectorSize_of_lt {n : Int16} {side : Nat} (hside : side < 2 ^ 31) (h : toU32 n.toInt < side) :
    ∃ k, vectorSize n.toInt = some k ∧ k < side := by
  have hlo := n.le_toInt
  have hhi := n.toInt_lt
  unfold toU32 at h
  have hpos : 0 ≤ n.toInt := by omega
  exact ⟨n.toInt.toNat, if_pos hpos, by omega⟩

/-- A side below an admitted one fits the header. -/
theorem toNat_ofNat_of_lt {n side : Nat} (hside : side < 2 ^ 31) (hn : n < side) : (UInt32.ofNat n).toNat = n := by
  have hsize : UInt32.size = 2 ^ 32 := rfl
  exact UInt32.toNat_ofNat_of_lt' (by omega)

theorem cropHeight_shaped (hs : Shaped p) (height : Int16) : ∃ q, cropHeight height p = some q ∧ Shaped q := by
  unfold cropHeight
  split
  case isFalse => exact ⟨p, rfl, hs⟩
  case isTrue hlt =>
    obtain ⟨n, hn, hle⟩ := vectorSize_of_lt hs.height hlt
    have hcast : (UInt32.ofNat n).toNat = n := toNat_ofNat_of_lt hs.height hle
    rw [hn]
    refine ⟨_, rfl, ?_, ?_, ?_, hs.width⟩
    · rw [hcast]
      exact hs.pixels.resizeRows hle.le []
    · rw [hcast]
      exact hs.buffer.resizeRows hle.le []
    · rw [hcast]
      exact hle.trans hs.height

variable [Field F]

theorem cropWidth_shaped (hs : Shaped p) (width : Int16) : ∃ q, cropWidth width p = some q ∧ Shaped q := by
  unfold cropWidth
  split
  case isFalse => exact ⟨p, rfl, hs⟩
  case isTrue hlt =>
    obtain ⟨n, hn, hle⟩ := vectorSize_of_lt hs.width hlt
    have hcast : (UInt32.ofNat n).toNat = n := toNat_ofNat_of_lt hs.width hle
    rw [hn]
    refine ⟨_, rfl, ?_, ?_, hs.height, ?_⟩
    · rw [hcast]
      exact hs.pixels.mapResize n Pixel.zero
    · rw [hcast]
      exact hs.buffer.mapResize n Pixel.zero
    · rw [hcast]
      exact hle.trans hs.width

theorem crop_shaped (hs : Shaped p) (width height : Int16) : ∃ q, crop width height p = some q ∧ Shaped q := by
  obtain ⟨p₁, h₁, hs₁⟩ := cropHeight_shaped hs height
  obtain ⟨p₂, h₂, hs₂⟩ := cropWidth_shaped hs₁ width
  refine ⟨_, by rw [crop, h₁, Option.bind_some, h₂, Option.map_some], ?_⟩
  exact ⟨hs₂.pixels, hs₂.buffer, hs₂.height, hs₂.width⟩

/-! ## Pointwise filters and convolutions -/

theorem negative_shaped (hs : Shaped p) : Shaped (negative p) := hs.setPixels (hs.pixels.map _)

variable [LinearOrder F]

theorem multiply_shaped (hs : Shaped p) (hm : Grid.Shape (2 * a + 1) (2 * b + 1) matrix) (ha : 2 * a + 1 < 2 ^ 31)
    (hb : 2 * b + 1 < 2 ^ 31) : ∃ q, p.multiply matrix = some q ∧ Shaped q := by
  obtain ⟨px, hmul, hpx, -⟩ := multiply_spec hm ha hb hs.pixels hs.buffer hs.height hs.width
  refine ⟨_, by rw [Process.multiply, hmul, Option.map_some], ?_⟩
  exact ⟨hpx, hs.pixels, hs.height, hs.width⟩

theorem grayscale_shaped (hs : Shaped p) : Shaped (grayscale p) := hs.setPixels (hs.pixels.map _)

theorem sharpening_shaped (hs : Shaped p) : ∃ q, sharpening p = some q ∧ Shaped q :=
  multiply_shaped hs (shape_three ..) (by decide) (by decide)

theorem edgeDetection_shaped (hs : Shaped p) (threshold : F) :
    ∃ q, edgeDetection threshold p = some q ∧ Shaped q := by
  obtain ⟨q, hq, hsq⟩ : ∃ q, (grayscale p).multiply edgeDetectionMatrix = some q ∧ Shaped q :=
    multiply_shaped (grayscale_shaped hs) (shape_three ..) (by decide) (by decide)
  obtain ⟨px, hsweep, hpx, -⟩ := Grid.sweep_spec (f := fun _ _ px => some (px.edge threshold)) hsq.pixels
    fun row col hrow hcol => by
      obtain ⟨px, hpx⟩ := hsq.pixels.get hrow hcol
      exact ⟨px.edge threshold, by rw [hpx, Option.bind_some]⟩
  exact ⟨_, by rw [edgeDetection, hq, Option.bind_some, hsweep, Option.map_some], hsq.setPixels hpx⟩

/-! ## Blur -/

section Blur

variable [FloorRing F] [IsStrictOrderedRing F] {libm : Libm F} {sigma : F}

/-- The kernel of an admitted sigma has an odd length. -/
theorem kernelSize_odd (hpos : 0 ≤ sigma) (hlt : 4 * sigma < 2 ^ 31) :
    ∃ b : Nat, kernelSize sigma = (2 * b + 1 : Nat) ∧ 2 * b + 1 < 2 ^ 31 := by
  have hpos' : 0 ≤ sigma * 4 := mul_nonneg hpos (by norm_num)
  have hf : 0 ≤ ⌊sigma * 4⌋ := Int.floor_nonneg.mpr hpos'
  have hf' : ⌊sigma * 4⌋ < 2 ^ 31 := by
    rw [Int.floor_lt, mul_comm]
    exact_mod_cast hlt
  have hsize : toInt32 (sigma * 4) = ⌊sigma * 4⌋ := by
    rw [toInt32, trunc, if_pos hpos']
    exact wrap32_eq (by omega) hf'
  unfold kernelSize
  rw [hsize]
  dsimp only
  split
  case isTrue heven => exact ⟨(⌊sigma * 4⌋ / 2).toNat, by omega, by omega⟩
  case isFalse hodd => exact ⟨(⌊sigma * 4⌋ / 2).toNat, by omega, by omega⟩

omit [FloorRing F] [IsStrictOrderedRing F] in
/-- The kernel is one row. -/
theorem calcMatrix_shape {size : Nat} (h : calcMatrix libm sigma size = .ok matrix) : Grid.Shape 1 size matrix := by
  unfold calcMatrix at h
  split at h
  · cases h
  · cases h
    refine ⟨rfl, fun l hl => ?_⟩
    rw [List.mem_singleton.mp hl]
    simp

omit [FloorRing F] [IsStrictOrderedRing F] in
/-- The two convolutions of a blur. -/
theorem blurWith_shaped (hs : Shaped p) (hshape : Grid.Shape 1 (2 * b + 1) matrix) (hb : 2 * b + 1 < 2 ^ 31) :
    ∃ q, blurWith matrix p = some q ∧ Shaped q := by
  have hshape : Grid.Shape (2 * 0 + 1) (2 * b + 1) matrix := hshape
  obtain ⟨p₁, h₁, hs₁⟩ := multiply_shaped hs hshape (by decide) hb
  obtain ⟨t, ht, hshape', -⟩ := transpose_spec hshape (by decide) (by decide) hb
  obtain ⟨p₂, h₂, hs₂⟩ := multiply_shaped hs₁ hshape' hb (by decide)
  refine ⟨{ p₂ with matrix := t }, ?_, hs₂.setMatrix t⟩
  rw [blurWith, h₁, Option.bind_some, ht, Option.bind_some, h₂, Option.map_some]

theorem gaussianBlur_shaped (hs : Shaped p) (hpos : 0 ≤ sigma) (hlt : 4 * sigma < 2 ^ 31) :
    ∃ q e, gaussianBlur libm sigma p = some (q, e) ∧ Shaped q := by
  obtain ⟨b, hsize, hb⟩ := kernelSize_odd hpos hlt
  rw [gaussianBlur_eq, hsize]
  cases hm : calcMatrix libm sigma (2 * b + 1 : Nat) with
  | error e => exact ⟨p, some e, rfl, hs⟩
  | ok matrix =>
    obtain ⟨q, hq, hsq⟩ := blurWith_shaped hs (calcMatrix_shape hm) hb
    exact ⟨q, none, by dsimp only; rw [hq, Option.map_some], hsq⟩

end Blur

/-! ## Tunnel -/

section Tunnel

variable [FloorRing F] {libm : Libm F} {centerH centerW : Int} {strength radius : F} {img : Image F} {row col : Nat}

/-- A pixel is taken from within the image. -/
theorem tunnelPixel_isSome (hpx : Grid.Shape img.height.toNat img.width.toNat img.pixels)
    (hrow : row < img.height.toNat) (hcol : col < img.width.toNat) :
    ∃ px, tunnelPixel libm centerH centerW strength radius img row col = some px := by
  obtain ⟨px, hget⟩ := hpx.get hrow hcol
  unfold tunnelPixel
  rw [hget, Option.bind_some]
  split
  case h_1 => exact ⟨px, rfl⟩
  case h_2 srcRow srcCol _ =>
    split
    case isFalse => exact ⟨px, rfl⟩
    case isTrue hin => exact getAt_isSome hpx ⟨hin.2.2.1, hin.2.2.2⟩ ⟨hin.1, hin.2.1⟩

theorem tunnel_shaped (hs : Shaped p) (centerH centerW : Int) (strength radius : F) :
    ∃ q e, tunnel libm centerH centerW strength radius p = some (q, e) ∧ Shaped q := by
  unfold tunnel
  dsimp only
  split
  case isTrue => exact ⟨p, _, rfl, hs⟩
  case isFalse =>
    split
    case isTrue => exact ⟨p, _, rfl, hs⟩
    case isFalse =>
      generalize tunnelCenter centerH p.image.height = centerH
      generalize tunnelCenter centerW p.image.width = centerW
      obtain ⟨px, hsweep, hpx, -⟩ := Grid.sweep_spec
        (f := fun row col _ => tunnelPixel libm centerH centerW strength radius p.image row col)
        (Grid.shape_replicate p.image.height.toNat p.image.width.toNat Pixel.zero) fun row col hrow hcol => by
          obtain ⟨old, hold⟩ := (Grid.shape_replicate p.image.height.toNat p.image.width.toNat
            (Pixel.zero : Pixel F)).get hrow hcol
          obtain ⟨px, hpx⟩ := tunnelPixel_isSome hs.pixels hrow hcol
          exact ⟨px, by rw [hold, Option.bind_some, hpx]⟩
      exact ⟨_, none, by rw [hsweep, Option.map_some], hs.setPixels hpx⟩

end Tunnel

/-! ## The pipeline -/

section Pipeline

variable [FloorRing F] [IsStrictOrderedRing F] {libm : Libm F} {f : Filter F} {filters : List (Filter F)}

/-- The filters of a pipeline: built by a fabric, and a sigma with `4 * sigma < 2 ^ 31`. -/
structure Admitted (f : Filter F) : Prop where
  built : Built f
  sigma : ∀ sigma, f = .gaussianBlur sigma → 4 * sigma < 2 ^ 31

/-- **A filter keeps the invariant**, whether it returns or throws. -/
theorem apply_shaped (libm : Libm F) (hs : Shaped p) (hf : Admitted f) : ∃ q e, f.apply libm p = some (q, e) ∧ Shaped q := by
  cases f with
  | crop width height =>
    obtain ⟨q, hq, hsq⟩ := crop_shaped hs width height
    exact ⟨q, none, by rw [Filter.apply, hq, Option.map_some], hsq⟩
  | grayscale => exact ⟨_, none, rfl, grayscale_shaped hs⟩
  | negative => exact ⟨_, none, rfl, negative_shaped hs⟩
  | sharpening =>
    obtain ⟨q, hq, hsq⟩ := sharpening_shaped hs
    exact ⟨q, none, by rw [Filter.apply, hq, Option.map_some], hsq⟩
  | edgeDetection threshold =>
    obtain ⟨q, hq, hsq⟩ := edgeDetection_shaped hs threshold
    exact ⟨q, none, by rw [Filter.apply, hq, Option.map_some], hsq⟩
  | gaussianBlur sigma => exact gaussianBlur_shaped hs (built_sigma hf.built) (hf.sigma sigma rfl)
  | tunnel centerH centerW strength radius => exact tunnel_shaped hs centerH centerW strength radius

/-- A list of filters keeps the invariant. -/
theorem applyFilters_shaped (hs : Shaped p) (hf : ∀ f ∈ filters, Admitted f) :
    ∃ q e, applyFilters libm filters p = some (q, e) ∧ Shaped q := by
  induction filters generalizing p with
  | nil => exact ⟨p, none, rfl, hs⟩
  | cons f filters ih =>
    obtain ⟨q, e, hq, hsq⟩ := apply_shaped libm hs (hf f List.mem_cons_self)
    cases e with
    | some e => exact ⟨q, some e, by rw [applyFilters, hq, Option.bind_some], hsq⟩
    | none =>
      obtain ⟨r, e, hr, hsr⟩ := ih hsq fun f hm => hf f (List.mem_cons_of_mem _ hm)
      refine ⟨r, e, ?_, hsr⟩
      rw [applyFilters, hq, Option.bind_some]
      exact hr

/-! ### Kernels of any values -/

/-- A filter of a pipeline with values for its kernel: for a blur that does not throw as many as the kernel is long. -/
structure RowFits (item : Filter F × List F) : Prop where
  admitted : Admitted item.1
  length : ∀ sigma, item.1 = .gaussianBlur sigma → sigma ≠ 0 → (item.2.length : Int) = kernelSize sigma

/-- The calculated values fit. -/
theorem rowFits_calculated (libm : Libm F) (hf : Admitted f) : RowFits (f, f.calculated libm) := by
  refine ⟨hf, fun sigma hsigma hne => ?_⟩
  dsimp only at hsigma
  subst hsigma
  obtain ⟨b, hsize, -⟩ := kernelSize_odd (built_sigma hf.built) (hf.sigma sigma rfl)
  obtain ⟨matrix, hm⟩ : ∃ matrix, calcMatrix libm sigma (kernelSize sigma) = .ok matrix := ⟨_, if_neg hne⟩
  obtain ⟨row, rfl, hlen⟩ := calcMatrix_row hm
  rw [Filter.calculated, hm]
  dsimp only
  omega

theorem applyRow_shaped (libm : Libm F) (hs : Shaped p) {row : List F} (hf : RowFits (f, row)) :
    ∃ q e, f.applyRow libm row p = some (q, e) ∧ Shaped q := by
  cases f with
  | gaussianBlur sigma =>
    rw [Filter.applyRow]
    cases hm : calcMatrix libm sigma (kernelSize sigma) with
    | error e => exact ⟨p, some e, rfl, hs⟩
    | ok matrix =>
      obtain ⟨b, hsize, hb⟩ := kernelSize_odd (built_sigma hf.admitted.built) (hf.admitted.sigma sigma rfl)
      have hne : sigma ≠ 0 := by
        rintro rfl
        rw [calcMatrix, if_pos rfl] at hm
        cases hm
      have hlen : (row.length : Int) = kernelSize sigma := hf.length sigma rfl hne
      have hshape : Grid.Shape 1 (2 * b + 1) [row] := by
        refine ⟨rfl, fun l hl => ?_⟩
        rw [List.mem_singleton.mp hl]
        omega
      obtain ⟨q, hq, hsq⟩ := blurWith_shaped hs hshape hb
      exact ⟨q, none, by dsimp only; rw [hq, Option.map_some], hsq⟩
  | crop | grayscale | negative | sharpening | edgeDetection | tunnel =>
    rw [applyRow_of_ne (by simp)]
    exact apply_shaped libm hs hf.admitted

theorem applyRows_shaped {items : List (Filter F × List F)} (hs : Shaped p) (hf : ∀ item ∈ items, RowFits item) :
    ∃ q e, applyRows libm items p = some (q, e) ∧ Shaped q := by
  induction items generalizing p with
  | nil => exact ⟨p, none, rfl, hs⟩
  | cons item items ih =>
    obtain ⟨f, row⟩ := item
    obtain ⟨q, e, hq, hsq⟩ := applyRow_shaped libm hs (hf (f, row) List.mem_cons_self)
    cases e with
    | some e => exact ⟨q, some e, by rw [applyRows, hq, Option.bind_some], hsq⟩
    | none =>
      obtain ⟨r, e, hr, hsr⟩ := ih hsq fun item hm => hf item (List.mem_cons_of_mem _ hm)
      refine ⟨r, e, ?_, hsr⟩
      rw [applyRows, hq, Option.bind_some]
      exact hr

variable {fs : FileSystem} {path : Bytes} {img : Image F} {buffer : Grid (Pixel F)}

omit [LinearOrder F] [FloorRing F] [IsStrictOrderedRing F] in
/-- `ReadFile` of a fresh process, whose static buffer is empty. -/
theorem readFile_shaped (hok : readFile fs path [] = some (.ok (img, buffer))) (hw : img.width.toNat ≤ maxWidth)
    (hh : img.height.toNat < 2 ^ 31) (matrix : Matrix F) : Shaped ⟨img, buffer, matrix⟩ := by
  obtain ⟨rest, hfile, hcheck⟩ := readFile_ok hok
  obtain ⟨px, hread, hshape, -⟩ := readFile_file hfile hcheck hw ([] : Grid (Pixel F))
  rw [hok, Option.some.injEq, Except.ok.injEq, Prod.mk.injEq] at hread
  obtain ⟨himg, hbuffer⟩ := hread
  have hpx : img.pixels = px := by rw [himg]
  have hwidth : img.width.toNat < 2 ^ 31 := by
    unfold maxWidth at hw
    omega
  refine ⟨?_, ?_, hh, hwidth⟩
  · rw [hpx]
    exact hshape
  · rw [hbuffer, Grid.resize_nil]
    exact Grid.shape_replicate _ _ _

/-- **The shape of the pipeline and the safety of its indices**: in a fresh process, after `ReadFile` and after any number
of filters built by the fabrics, pixels and static buffer have `height` rows of `width` pixels, and no filter has read or
written outside a vector. -/
theorem pipeline_shaped (hok : readFile fs path [] = some (.ok (img, buffer))) (hw : img.width.toNat ≤ maxWidth)
    (hh : img.height.toNat < 2 ^ 31) (hf : ∀ f ∈ filters, Admitted f) :
    Shaped ⟨img, buffer, []⟩ ∧
      ∀ k, ∃ q e, applyFilters libm (filters.take k) ⟨img, buffer, []⟩ = some (q, e) ∧ Shaped q := by
  have hs : Shaped ⟨img, buffer, []⟩ := readFile_shaped hok hw hh []
  exact ⟨hs, fun k => applyFilters_shaped hs fun f hm => hf f (List.mem_of_mem_take hm)⟩

/-- No `<cmath>` function is called where there is neither a blur nor a tunnel. -/
def noLibm : Libm ℚ := ⟨fun _ _ => 0, id, 0, 0, id, fun _ _ => 0, id, id⟩

/-- `-crop 1 1 -sharp -edge 0.5` on a picture of one pixel. -/
theorem onePixel_shaped : ∃ img buffer q e,
    readFile (FileSystem.holding onePixel) [] ([] : Grid (Pixel ℚ)) = some (.ok (img, buffer)) ∧
      applyFilters noLibm [.crop 1 1, .sharpening, .edgeDetection (atof (ascii "0.5"))] ⟨img, buffer, []⟩ = some (q, e) ∧
      Shaped q := by
  have hfile : (FileSystem.holding onePixel).content [] = some onePixel := rfl
  obtain ⟨img, buffer, hok⟩ := readFile_readable hfile onePixel_readable ([] : Grid (Pixel ℚ))
  obtain ⟨hwidth, hheight⟩ := readFile_headers hfile hok
  have hf : ∀ f ∈ [.crop 1 1, .sharpening, .edgeDetection (atof (ascii "0.5"))], Admitted (f : Filter ℚ) := by
    intro f hm
    simp only [List.mem_cons, List.not_mem_nil, or_false] at hm
    rcases hm with rfl | rfl | rfl
    · have hmake : CropFabric.make (ascii "1") (ascii "1") = .ok (.crop 1 1 : Filter ℚ) := rfl
      exact ⟨.crop hmake, fun _ h => by cases h⟩
    · exact ⟨.sharp, fun _ h => by cases h⟩
    · have hmake : EdgeFabric.make (ascii "0.5") = .ok (.edgeDetection (atof (ascii "0.5")) : Filter ℚ) := rfl
      exact ⟨.edge hmake, fun _ h => by cases h⟩
  obtain ⟨q, e, hq, hsq⟩ := (pipeline_shaped hok (by rw [← hwidth]; decide) (by rw [← hheight]; decide) hf).2 3
  exact ⟨img, buffer, q, e, hok, hq, hsq⟩

end Pipeline

end HighLoad.ImageProcessor
