import HighLoad.ImageProcessor.Pixels

/-!
# The static members

`Image::buffer` and `GaussianBlur::matrix` outlive an image. Two runs of a filter on one image, whatever the two members
hold, end alike (`apply_related`): every cell of the buffer is written before it is swapped in, and the kernel is built
anew before it is used. So do two runs of a list of filters (`pipeline_related`), with sides below `2 ^ 31`; from there
on the buffer shows (`hugeImage_leaks`).
-/

namespace HighLoad.ImageProcessor

variable {F : Type} {p₁ p₂ q₁ q₂ : Process F} {matrix : Matrix F} {a b : Nat}

/-- Two processes with one image; what the static members hold may differ. -/
structure Related (p₁ p₂ : Process F) : Prop where
  image : p₁.image = p₂.image
  left : Shaped p₁
  right : Shaped p₂

theorem Related.symm (hR : Related p₁ p₂) : Related p₂ p₁ := ⟨hR.image.symm, hR.right, hR.left⟩

theorem Related.trans {p₃ : Process F} (hR : Related p₁ p₂) (hR' : Related p₂ p₃) : Related p₁ p₃ :=
  ⟨hR.image.trans hR'.image, hR.left, hR'.right⟩

theorem Related.setMatrix (hR : Related p₁ p₂) (matrix : Matrix F) : Related { p₁ with matrix } { p₂ with matrix } :=
  ⟨hR.image, hR.left.setMatrix matrix, hR.right.setMatrix matrix⟩

/-! ## Every filter -/

theorem cropHeight_image {height : Int16} (hI : p₁.image = p₂.image) (h₁ : cropHeight height p₁ = some q₁)
    (h₂ : cropHeight height p₂ = some q₂) : q₁.image = q₂.image := by
  rcases cropHeight_cases h₁ with ⟨hge, rfl⟩ | ⟨hlt, rfl⟩
  · rcases cropHeight_cases h₂ with ⟨-, rfl⟩ | ⟨hlt, -⟩
    · exact hI
    · rw [← hI] at hlt
      exact absurd hlt (Nat.not_lt.mpr hge)
  · rcases cropHeight_cases h₂ with ⟨hge, -⟩ | ⟨-, rfl⟩
    · rw [← hI] at hge
      exact absurd hlt (Nat.not_lt.mpr hge)
    · unfold Process.cutHeight
      rw [hI]

variable [Field F]

theorem cropWidth_image {width : Int16} (hI : p₁.image = p₂.image) (h₁ : cropWidth width p₁ = some q₁)
    (h₂ : cropWidth width p₂ = some q₂) : q₁.image = q₂.image := by
  rcases cropWidth_cases h₁ with ⟨hge, rfl⟩ | ⟨hlt, rfl⟩
  · rcases cropWidth_cases h₂ with ⟨-, rfl⟩ | ⟨hlt, -⟩
    · exact hI
    · rw [← hI] at hlt
      exact absurd hlt (Nat.not_lt.mpr hge)
  · rcases cropWidth_cases h₂ with ⟨hge, -⟩ | ⟨-, rfl⟩
    · rw [← hI] at hge
      exact absurd hlt (Nat.not_lt.mpr hge)
    · unfold Process.cutWidth
      rw [hI]

/-- A crop of the image does not look at the buffer. -/
theorem crop_related (hR : Related p₁ p₂) (width height : Int16) :
    ∃ q₁ q₂, crop width height p₁ = some q₁ ∧ crop width height p₂ = some q₂ ∧ Related q₁ q₂ := by
  obtain ⟨q₁, h₁, hs₁⟩ := crop_shaped hR.left width height
  obtain ⟨q₂, h₂, hs₂⟩ := crop_shaped hR.right width height
  refine ⟨q₁, q₂, h₁, h₂, ?_, hs₁, hs₂⟩
  obtain ⟨r₁, hh₁, h₁⟩ := Option.bind_eq_some_iff.mp h₁
  obtain ⟨t₁, hw₁, rfl⟩ := Option.map_eq_some_iff.mp h₁
  obtain ⟨r₂, hh₂, h₂⟩ := Option.bind_eq_some_iff.mp h₂
  obtain ⟨t₂, hw₂, rfl⟩ := Option.map_eq_some_iff.mp h₂
  have hI : t₁.image = t₂.image := cropWidth_image (cropHeight_image hR.image hh₁ hh₂) hw₁ hw₂
  dsimp only
  rw [hI]

variable [LinearOrder F]

/-- **Every cell of the buffer is written before it is swapped in.** -/
theorem multiply_related (hR : Related p₁ p₂) (hm : Grid.Shape (2 * a + 1) (2 * b + 1) matrix)
    (ha : 2 * a + 1 < 2 ^ 31) (hb : 2 * b + 1 < 2 ^ 31) :
    ∃ q₁ q₂, p₁.multiply matrix = some q₁ ∧ p₂.multiply matrix = some q₂ ∧ Related q₁ q₂ := by
  obtain ⟨hI, hs₁, hs₂⟩ := hR
  obtain ⟨px₁, h₁, hshape₁, hcells₁⟩ := multiply_spec hm ha hb hs₁.pixels hs₁.buffer hs₁.height hs₁.width
  obtain ⟨px₂, h₂, hshape₂, hcells₂⟩ := multiply_spec hm ha hb hs₂.pixels hs₂.buffer hs₂.height hs₂.width
  obtain rfl : px₁ = px₂ := by
    rw [hI] at hshape₁
    refine hshape₁.ext hshape₂ fun row col hrow hcol => ?_
    rw [hcells₂ row col hrow hcol, ← hI]
    rw [← hI] at hrow hcol
    exact hcells₁ row col hrow hcol
  refine ⟨_, _, by rw [Process.multiply, h₁, Option.map_some], by rw [Process.multiply, h₂, Option.map_some],
    ?_, ?_, ?_⟩
  · dsimp only
    rw [hI]
  · exact ⟨hshape₁, hs₁.pixels, hs₁.height, hs₁.width⟩
  · exact ⟨hshape₂, hs₂.pixels, hs₂.height, hs₂.width⟩

theorem grayscale_related (hR : Related p₁ p₂) : Related (grayscale p₁) (grayscale p₂) := by
  refine ⟨?_, grayscale_shaped hR.left, grayscale_shaped hR.right⟩
  rw [grayscale, grayscale, hR.image]

theorem edgeDetection_related (hR : Related p₁ p₂) (threshold : F) :
    ∃ q₁ q₂, edgeDetection threshold p₁ = some q₁ ∧ edgeDetection threshold p₂ = some q₂ ∧ Related q₁ q₂ := by
  obtain ⟨q₁, h₁, hs₁⟩ := edgeDetection_shaped hR.left threshold
  obtain ⟨q₂, h₂, hs₂⟩ := edgeDetection_shaped hR.right threshold
  refine ⟨q₁, q₂, h₁, h₂, ?_, hs₁, hs₂⟩
  obtain ⟨r₁, px₁, hmul₁, hsweep₁, rfl⟩ := edgeDetection_some h₁
  obtain ⟨r₂, px₂, hmul₂, hsweep₂, rfl⟩ := edgeDetection_some h₂
  obtain ⟨r₁', r₂', hmul₁', hmul₂', hR'⟩ : ∃ r₁ r₂, (grayscale p₁).multiply edgeDetectionMatrix = some r₁ ∧
      (grayscale p₂).multiply edgeDetectionMatrix = some r₂ ∧ Related r₁ r₂ :=
    multiply_related (grayscale_related hR) (shape_three ..) (by decide) (by decide)
  obtain rfl := Option.some.inj (hmul₁'.symm.trans hmul₁)
  obtain rfl := Option.some.inj (hmul₂'.symm.trans hmul₂)
  rw [hR'.image] at hsweep₁ ⊢
  obtain rfl := Option.some.inj (hsweep₁.symm.trans hsweep₂)
  rfl

variable [FloorRing F] {libm : Libm F}

theorem tunnel_related (hR : Related p₁ p₂) (centerH centerW : Int) (strength radius : F) :
    ∃ q₁ q₂ e, tunnel libm centerH centerW strength radius p₁ = some (q₁, e) ∧
      tunnel libm centerH centerW strength radius p₂ = some (q₂, e) ∧ Related q₁ q₂ := by
  obtain ⟨q₁, e₁, h₁, hs₁⟩ := tunnel_shaped hR.left centerH centerW strength radius
  obtain ⟨q₂, e₂, h₂, hs₂⟩ := tunnel_shaped hR.right centerH centerW strength radius
  suffices hsame : e₁ = e₂ ∧ q₁.image = q₂.image by
    obtain ⟨rfl, hq⟩ := hsame
    exact ⟨q₁, q₂, e₁, h₁, h₂, hq, hs₁, hs₂⟩
  obtain ⟨img, b₁, m₁⟩ := p₁
  obtain ⟨_, b₂, m₂⟩ := p₂
  obtain rfl := hR.image
  unfold tunnel at h₁ h₂
  dsimp only at h₁ h₂
  split at h₁
  case isTrue hout =>
    rw [if_pos hout] at h₂
    cases h₁
    cases h₂
    exact ⟨rfl, rfl⟩
  case isFalse hin =>
    rw [if_neg hin] at h₂
    split at h₁
    case isTrue hout =>
      rw [if_pos hout] at h₂
      cases h₁
      cases h₂
      exact ⟨rfl, rfl⟩
    case isFalse hin =>
      rw [if_neg hin] at h₂
      obtain ⟨px₁, hsweep₁, he₁⟩ := Option.map_eq_some_iff.mp h₁
      obtain ⟨px₂, hsweep₂, he₂⟩ := Option.map_eq_some_iff.mp h₂
      obtain rfl := Option.some.inj (hsweep₁.symm.trans hsweep₂)
      cases he₁
      cases he₂
      exact ⟨rfl, rfl⟩

variable [IsStrictOrderedRing F]

/-- **The kernel is built anew before it is used.** -/
theorem gaussianBlur_related (hR : Related p₁ p₂) {sigma : F} (hpos : 0 ≤ sigma) (hlt : 4 * sigma < 2 ^ 31) :
    ∃ q₁ q₂ e, gaussianBlur libm sigma p₁ = some (q₁, e) ∧ gaussianBlur libm sigma p₂ = some (q₂, e) ∧
      Related q₁ q₂ := by
  obtain ⟨b, hsize, hb⟩ := kernelSize_odd hpos hlt
  unfold gaussianBlur
  rw [hsize]
  cases hm : calcMatrix libm sigma (2 * b + 1 : Nat) with
  | error e => exact ⟨p₁, p₂, some e, rfl, rfl, hR⟩
  | ok matrix =>
    have hshape : Grid.Shape (2 * 0 + 1) (2 * b + 1) matrix := calcMatrix_shape hm
    obtain ⟨q₁, q₂, h₁, h₂, hR⟩ := multiply_related hR hshape (by decide) hb
    obtain ⟨t, ht, hshape', -⟩ := transpose_spec hshape (by decide) (by decide) hb
    obtain ⟨r₁, r₂, h₁', h₂', hR⟩ := multiply_related hR hshape' hb (by decide)
    refine ⟨{ r₁ with matrix := t }, { r₂ with matrix := t }, none, ?_, ?_, hR.setMatrix t⟩
    · dsimp only
      rw [h₁, Option.bind_some, ht, Option.bind_some, h₁', Option.map_some]
    · dsimp only
      rw [h₂, Option.bind_some, ht, Option.bind_some, h₂', Option.map_some]

/-- **Two runs of a filter end alike.** -/
theorem apply_related (libm : Libm F) (hR : Related p₁ p₂) {f : Filter F} (hf : Admitted f) :
    ∃ q₁ q₂ e, f.apply libm p₁ = some (q₁, e) ∧ f.apply libm p₂ = some (q₂, e) ∧ Related q₁ q₂ := by
  cases f with
  | crop width height =>
    obtain ⟨q₁, q₂, h₁, h₂, hR⟩ := crop_related hR width height
    exact ⟨q₁, q₂, none, by rw [Filter.apply, h₁, Option.map_some], by rw [Filter.apply, h₂, Option.map_some], hR⟩
  | grayscale => exact ⟨_, _, none, rfl, rfl, grayscale_related hR⟩
  | negative =>
    refine ⟨_, _, none, rfl, rfl, ?_, negative_shaped hR.left, negative_shaped hR.right⟩
    rw [negative, negative, hR.image]
  | sharpening =>
    obtain ⟨q₁, q₂, h₁, h₂, hR⟩ : ∃ q₁ q₂, sharpening p₁ = some q₁ ∧ sharpening p₂ = some q₂ ∧ Related q₁ q₂ :=
      multiply_related hR (shape_three ..) (by decide) (by decide)
    exact ⟨q₁, q₂, none, by rw [Filter.apply, h₁, Option.map_some], by rw [Filter.apply, h₂, Option.map_some], hR⟩
  | edgeDetection threshold =>
    obtain ⟨q₁, q₂, h₁, h₂, hR⟩ := edgeDetection_related hR threshold
    exact ⟨q₁, q₂, none, by rw [Filter.apply, h₁, Option.map_some], by rw [Filter.apply, h₂, Option.map_some], hR⟩
  | gaussianBlur sigma => exact gaussianBlur_related hR (built_sigma hf.built) (hf.sigma sigma rfl)
  | tunnel centerH centerW strength radius => exact tunnel_related hR centerH centerW strength radius

/-- Two runs of a list of filters end alike. -/
theorem applyFilters_related (libm : Libm F) {filters : List (Filter F)} (hR : Related p₁ p₂)
    (hf : ∀ f ∈ filters, Admitted f) :
    ∃ q₁ q₂ e, applyFilters libm filters p₁ = some (q₁, e) ∧ applyFilters libm filters p₂ = some (q₂, e) ∧
      Related q₁ q₂ := by
  induction filters generalizing p₁ p₂ with
  | nil => exact ⟨p₁, p₂, none, rfl, rfl, hR⟩
  | cons f filters ih =>
    obtain ⟨q₁, q₂, e, h₁, h₂, hR⟩ := apply_related libm hR (hf f List.mem_cons_self)
    cases e with
    | some e => exact ⟨q₁, q₂, some e, applyFilters_throw h₁, applyFilters_throw h₂, hR⟩
    | none =>
      rw [applyFilters_cons h₁, applyFilters_cons h₂]
      exact ih hR fun f hm => hf f (List.mem_cons_of_mem _ hm)

/-- **The static members do not show**, with sides below `2 ^ 31`: for every image, whatever the static buffer of the
image's shape and the static kernel hold, every prefix of a list of filters built by the fabrics ends with the same
image and the same exception, if any. -/
theorem pipeline_related (libm : Libm F) {img : Image F} {filters : List (Filter F)}
    (hpx : Grid.Shape img.height.toNat img.width.toNat img.pixels) (hh : img.height.toNat < 2 ^ 31)
    (hw : img.width.toNat < 2 ^ 31) (hf : ∀ f ∈ filters, Admitted f) (b₁ b₂ : Grid (Pixel F)) (m₁ m₂ : Matrix F)
    (hb₁ : Grid.Shape img.height.toNat img.width.toNat b₁) (hb₂ : Grid.Shape img.height.toNat img.width.toNat b₂)
    (k : Nat) :
    ∃ q₁ q₂ e, applyFilters libm (filters.take k) ⟨img, b₁, m₁⟩ = some (q₁, e) ∧
      applyFilters libm (filters.take k) ⟨img, b₂, m₂⟩ = some (q₂, e) ∧ q₁.image = q₂.image := by
  have hR : Related ⟨img, b₁, m₁⟩ ⟨img, b₂, m₂⟩ := ⟨rfl, ⟨hpx, hb₁, hh, hw⟩, ⟨hpx, hb₂, hh, hw⟩⟩
  obtain ⟨q₁, q₂, e, h₁, h₂, hR⟩ := applyFilters_related libm hR fun f hm => hf f (List.mem_of_mem_take hm)
  exact ⟨q₁, q₂, e, h₁, h₂, hR.image⟩

/-- A row of two pixels is sharpened alike over a red and over a blue buffer. -/
theorem smallImage_related : ∃ q₁ q₂ e,
    applyFilters noLibm [.sharpening] (oneRow 2 Pixel.zero ⟨1, 0, 0⟩) = some (q₁, e) ∧
      applyFilters noLibm [.sharpening] (oneRow 2 Pixel.zero ⟨0, 0, 1⟩) = some (q₂, e) ∧ q₁.image = q₂.image := by
  have hf : ∀ f ∈ [.sharpening], Admitted (f : Filter ℚ) := by
    intro f hm
    rw [List.mem_singleton.mp hm]
    exact ⟨.sharp, fun _ h => by cases h⟩
  have hs₁ : Shaped (oneRow 2 Pixel.zero ⟨1, 0, 0⟩) := oneRow_shaped (by decide) _ _
  have hs₂ : Shaped (oneRow 2 Pixel.zero ⟨0, 0, 1⟩) := oneRow_shaped (by decide) _ _
  exact pipeline_related noLibm hs₁.pixels hs₁.height hs₁.width hf _ _ [] [] hs₁.buffer hs₂.buffer 1

/-- A row of `2 ^ 31` black pixels is sharpened to a red row over a red buffer, and to a blue one over a blue buffer. -/
theorem hugeImage_leaks : ∃ (img : Image ℚ) (b₁ b₂ : Grid (Pixel ℚ)) (q₁ q₂ : Process ℚ),
    Grid.Shape img.height.toNat img.width.toNat img.pixels ∧ Grid.Shape img.height.toNat img.width.toNat b₁ ∧
      Grid.Shape img.height.toNat img.width.toNat b₂ ∧ Admitted (.sharpening : Filter ℚ) ∧
      applyFilters noLibm [.sharpening] ⟨img, b₁, []⟩ = some (q₁, none) ∧
      applyFilters noLibm [.sharpening] ⟨img, b₂, []⟩ = some (q₂, none) ∧ q₁.image ≠ q₂.image := by
  refine ⟨_, _, _, _, _, Grid.shape_replicate _ _ _, Grid.shape_replicate _ _ _, Grid.shape_replicate _ _ _,
    ⟨.sharp, fun _ h => by cases h⟩, sharpening_huge Pixel.zero ⟨1, 0, 0⟩, sharpening_huge Pixel.zero ⟨0, 0, 1⟩, ?_⟩
  intro himage
  have hpx := congrArg Image.pixels himage
  have hrow := (List.replicate_inj.mp (List.head_eq_of_cons_eq hpx)).2
  rcases hrow with hw | hpx
  · exact absurd hw (by decide)
  · exact absurd (congrArg Pixel.r hpx) one_ne_zero

end HighLoad.ImageProcessor
