import HighLoad.ImageProcessor.Filters

/-!
# What a filter has done

Inversion lemmas for the filters of several steps, and what follows for every filter without any assumption on the
image: only a crop changes headers, and of the file header none does (`apply_sides`). `applyFilters_inv` takes what
every filter keeps to the whole list.
-/

namespace HighLoad.ImageProcessor

open ByteString

variable {F : Type} {p q : Process F} {e : Option Exn} {matrix : Matrix F}

/-- The height after a filter. -/
def Filter.heightAfter : Filter F → Nat → Nat
  | .crop _ height, h => min h (toU32 height.toInt)
  | _, h => h

/-- The width after a filter. -/
def Filter.widthAfter : Filter F → Nat → Nat
  | .crop width _, w => min w (toU32 width.toInt)
  | _, w => w

def heightAfter (filters : List (Filter F)) (h : Nat) : Nat := filters.foldl (fun h f => f.heightAfter h) h

def widthAfter (filters : List (Filter F)) (w : Nat) : Nat := filters.foldl (fun w f => f.widthAfter w) w

/-- The height that a crop cuts to. -/
def Filter.heightLimit : Filter F → Option Nat
  | .crop _ height => some (toU32 height.toInt)
  | _ => none

/-- The width that a crop cuts to. -/
def Filter.widthLimit : Filter F → Option Nat
  | .crop width _ => some (toU32 width.toInt)
  | _ => none

/-- The height after a list of filters is the minimum of the height and what its crops cut to. -/
theorem heightAfter_eq (filters : List (Filter F)) (h : Nat) :
    heightAfter filters h = (filters.filterMap Filter.heightLimit).foldl min h := by
  induction filters generalizing h with
  | nil => rfl
  | cons f filters ih =>
    cases f with
    | crop width height => exact ih (min h (toU32 height.toInt))
    | _ => exact ih h

theorem widthAfter_eq (filters : List (Filter F)) (w : Nat) :
    widthAfter filters w = (filters.filterMap Filter.widthLimit).foldl min w := by
  induction filters generalizing w with
  | nil => rfl
  | cons f filters ih =>
    cases f with
    | crop width height => exact ih (min w (toU32 width.toInt))
    | _ => exact ih w

/-- All headers are as before. -/
structure SameHeaders (p q : Process F) : Prop where
  file : q.image.toFileHeader = p.image.toFileHeader
  info : q.image.toInfoHeader = p.image.toInfoHeader

theorem SameHeaders.trans {p q r : Process F} (h : SameHeaders p q) (h' : SameHeaders q r) : SameHeaders p r :=
  ⟨h'.file.trans h.file, h'.info.trans h.info⟩

/-! ## Crop -/

/-- A side that is cut is cut to the given one. -/
theorem vectorSize_some {n : Int16} {k : Nat} (h : vectorSize n.toInt = some k) : k = toU32 n.toInt := by
  obtain ⟨hpos, hk⟩ := Option.ite_none_right_eq_some.mp h
  obtain rfl := Option.some.inj hk
  have hhi := n.toInt_lt
  unfold toU32
  omega

/-- A positive side. -/
theorem toU32_pos {n : Int16} (hn : 1 ≤ n.toInt) : toU32 n.toInt = n.toInt.toNat := by
  have hlt := n.toInt_lt
  unfold toU32
  omega

/-- The first `n` rows. -/
def Process.cutHeight (p : Process F) (n : Nat) : Process F :=
  { p with
    image := { p.image with pixels := Grid.resize p.image.pixels n [], height := UInt32.ofNat n }
    buffer := Grid.resize p.buffer n [] }

theorem cropHeight_cases {height : Int16} (h : cropHeight height p = some q) :
    (p.image.height.toNat ≤ toU32 height.toInt ∧ q = p) ∨
      toU32 height.toInt < p.image.height.toNat ∧ q = p.cutHeight (toU32 height.toInt) := by
  unfold cropHeight at h
  split at h
  case isFalse hge =>
    cases h
    exact .inl ⟨Nat.not_lt.mp hge, rfl⟩
  case isTrue hlt =>
    obtain ⟨n, hn, rfl⟩ := Option.map_eq_some_iff.mp h
    obtain rfl := vectorSize_some hn
    exact .inr ⟨hlt, rfl⟩

theorem cropHeight_some {height : Int16} (h : cropHeight height p = some q) :
    q.image.height.toNat = min p.image.height.toNat (toU32 height.toInt) ∧ q.image.width = p.image.width ∧
      q.image.toFileHeader = p.image.toFileHeader := by
  rcases cropHeight_cases h with ⟨hge, rfl⟩ | ⟨hlt, rfl⟩
  · exact ⟨(min_eq_left hge).symm, rfl, rfl⟩
  · refine ⟨?_, rfl, rfl⟩
    rw [min_eq_right hlt.le]
    exact UInt32.toNat_ofNat_of_lt' (hlt.trans p.image.height.toNat_lt)

variable [Field F]

/-- The first `n` columns. -/
def Process.cutWidth (p : Process F) (n : Nat) : Process F :=
  { p with
    image :=
      { p.image with
        pixels := List.map (Grid.resize · n Pixel.zero) p.image.pixels
        width := UInt32.ofNat n }
    buffer := List.map (Grid.resize · n Pixel.zero) p.buffer }

theorem cropWidth_cases {width : Int16} (h : cropWidth width p = some q) :
    (p.image.width.toNat ≤ toU32 width.toInt ∧ q = p) ∨
      toU32 width.toInt < p.image.width.toNat ∧ q = p.cutWidth (toU32 width.toInt) := by
  unfold cropWidth at h
  split at h
  case isFalse hge =>
    cases h
    exact .inl ⟨Nat.not_lt.mp hge, rfl⟩
  case isTrue hlt =>
    obtain ⟨n, hn, rfl⟩ := Option.map_eq_some_iff.mp h
    obtain rfl := vectorSize_some hn
    exact .inr ⟨hlt, rfl⟩

theorem cropWidth_some {width : Int16} (h : cropWidth width p = some q) :
    q.image.width.toNat = min p.image.width.toNat (toU32 width.toInt) ∧ q.image.height = p.image.height ∧
      q.image.toFileHeader = p.image.toFileHeader := by
  rcases cropWidth_cases h with ⟨hge, rfl⟩ | ⟨hlt, rfl⟩
  · exact ⟨(min_eq_left hge).symm, rfl, rfl⟩
  · refine ⟨?_, rfl, rfl⟩
    rw [min_eq_right hlt.le]
    exact UInt32.toNat_ofNat_of_lt' (hlt.trans p.image.width.toNat_lt)

/-- A crop cuts the sides and leaves the file header, `file_size` with it, alone. -/
theorem crop_some {width height : Int16} (h : crop width height p = some q) :
    q.image.height.toNat = min p.image.height.toNat (toU32 height.toInt) ∧
      q.image.width.toNat = min p.image.width.toNat (toU32 width.toInt) ∧
      q.image.toFileHeader = p.image.toFileHeader := by
  obtain ⟨p₁, h₁, h⟩ := Option.bind_eq_some_iff.mp h
  obtain ⟨p₂, h₂, rfl⟩ := Option.map_eq_some_iff.mp h
  obtain ⟨hh₁, hw₁, hf₁⟩ := cropHeight_some h₁
  obtain ⟨hw₂, hh₂, hf₂⟩ := cropWidth_some h₂
  exact ⟨by rw [hh₂, hh₁], by rw [hw₂, hw₁], hf₂.trans hf₁⟩

/-! ## Convolutions -/

variable [LinearOrder F]

/-- `Multiply` fills the static buffer and swaps it with the pixels. -/
theorem multiply_some (h : p.multiply matrix = some q) : ∃ (midRow midCol : Int) (px : Grid (Pixel F)),
    Grid.sweep (wrap32 p.image.height.toNat).toNat (wrap32 p.image.width.toNat).toNat
      (fun row col _ => (multiplyAt matrix p.image.toInfoHeader p.image.pixels midRow midCol row col).map
        Pixel.normalize) p.buffer = some px ∧
    q = { p with image := { p.image with pixels := px }, buffer := p.image.pixels } := by
  obtain ⟨⟨px, buffer⟩, hmul, rfl⟩ := Option.map_eq_some_iff.mp h
  unfold ImageProcessor.multiply at hmul
  split at hmul
  case h_1 => cases hmul
  case h_2 =>
    obtain ⟨px', hsweep, he⟩ := Option.map_eq_some_iff.mp hmul
    obtain ⟨rfl, rfl⟩ := Prod.mk.inj he
    exact ⟨_, _, px', hsweep, rfl⟩

/-- Where a loop over a side has no pass, `Multiply` visits no pixel and swaps in what the static buffer held. -/
theorem multiply_unvisited {row : List F} (hside : (wrap32 p.image.height.toNat).toNat = 0 ∨
      (wrap32 p.image.width.toNat).toNat = 0) (hm : matrix.head? = some row) :
    p.multiply matrix =
      some { p with image := { p.image with pixels := p.buffer }, buffer := p.image.pixels } := by
  obtain ⟨rest, rfl⟩ := List.head?_eq_some_iff.mp hm
  rw [Process.multiply, ImageProcessor.multiply]
  dsimp only
  rcases hside with hheight | hwidth
  · rw [hheight]
    rfl
  · rw [hwidth, Grid.sweep_zero_width]
    rfl

/-- **From a side of `2 ^ 31` on** that is so. -/
theorem multiply_huge {row : List F} (hside : 2 ^ 31 ≤ p.image.height.toNat ∨ 2 ^ 31 ≤ p.image.width.toNat)
    (hm : matrix.head? = some row) : p.multiply matrix =
      some { p with image := { p.image with pixels := p.buffer }, buffer := p.image.pixels } :=
  multiply_unvisited (hside.imp (wrap32_huge · p.image.height.toNat_lt) (wrap32_huge · p.image.width.toNat_lt)) hm

theorem multiply_headers (h : p.multiply matrix = some q) : SameHeaders p q := by
  obtain ⟨_, _, _, -, rfl⟩ := multiply_some h
  exact ⟨rfl, rfl⟩

theorem edgeDetection_some {threshold : F} (h : edgeDetection threshold p = some q) :
    ∃ p₁ px, (grayscale p).multiply edgeDetectionMatrix = some p₁ ∧
      Grid.sweep p₁.image.height.toNat p₁.image.width.toNat (fun _ _ px => some (px.edge threshold))
        p₁.image.pixels = some px ∧
      q = { p₁ with image := { p₁.image with pixels := px } } := by
  obtain ⟨p₁, h₁, h⟩ := Option.bind_eq_some_iff.mp h
  obtain ⟨px, hpx, rfl⟩ := Option.map_eq_some_iff.mp h
  exact ⟨p₁, px, h₁, hpx, rfl⟩

variable [FloorRing F] {libm : Libm F}

/-- A blur throws at once, or convolves with the kernel and then with its transpose. -/
theorem gaussianBlur_some {sigma : F} (h : gaussianBlur libm sigma p = some (q, e)) :
    (∃ e', calcMatrix libm sigma (kernelSize sigma) = .error e' ∧ q = p ∧ e = some e') ∨
      ∃ kernel p₁ kernel' p₂, calcMatrix libm sigma (kernelSize sigma) = .ok kernel ∧ p.multiply kernel = some p₁ ∧
        transpose kernel = some kernel' ∧ p₁.multiply kernel' = some p₂ ∧ q = { p₂ with matrix := kernel' } ∧
          e = none := by
  unfold gaussianBlur at h
  split at h
  case h_1 e' he =>
    cases h
    exact .inl ⟨e', he, rfl, rfl⟩
  case h_2 kernel hk =>
    obtain ⟨p₁, h₁, h⟩ := Option.bind_eq_some_iff.mp h
    obtain ⟨kernel', ht, h⟩ := Option.bind_eq_some_iff.mp h
    obtain ⟨p₂, h₂, he⟩ := Option.map_eq_some_iff.mp h
    cases he
    exact .inr ⟨kernel, p₁, kernel', p₂, hk, h₁, ht, h₂, rfl, rfl⟩

/-- The centre is inside the image. -/
def CenterInside (centerH centerW : Int) (img : Image F) : Prop :=
  (0 ≤ tunnelCenter centerH img.height ∧ tunnelCenter centerH img.height < img.height.toNat) ∧
    0 ≤ tunnelCenter centerW img.width ∧ tunnelCenter centerW img.width < img.width.toNat

/-- A tunnel throws when its centre is outside, and otherwise rewrites every pixel. -/
theorem tunnel_some {centerH centerW : Int} {strength radius : F}
    (h : tunnel libm centerH centerW strength radius p = some (q, e)) :
    (¬CenterInside centerH centerW p.image ∧ q = p ∧ ∃ m, e = some (.applyFilter m)) ∨
      CenterInside centerH centerW p.image ∧ e = none ∧ ∃ px,
        Grid.sweep p.image.height.toNat p.image.width.toNat
          (fun row col _ => tunnelPixel libm (tunnelCenter centerH p.image.height) (tunnelCenter centerW p.image.width)
            strength radius p.image row col)
          (List.replicate p.image.height.toNat (List.replicate p.image.width.toNat Pixel.zero)) = some px ∧
        q = { p with image := { p.image with pixels := px } } := by
  unfold tunnel at h
  dsimp only at h
  split at h
  case isTrue hout =>
    cases h
    exact .inl ⟨fun hin => by have := hin.1; omega, rfl, _, rfl⟩
  case isFalse hh =>
    split at h
    case isTrue hout =>
      cases h
      exact .inl ⟨fun hin => by have := hin.2; omega, rfl, _, rfl⟩
    case isFalse hw =>
      obtain ⟨px, hsweep, he⟩ := Option.map_eq_some_iff.mp h
      cases he
      exact .inr ⟨⟨by omega, by omega⟩, rfl, px, hsweep, rfl⟩

/-! ## Every filter -/

omit [Field F] [LinearOrder F] [FloorRing F] in
/-- A filter that cannot throw. -/
theorem map_none_some {result : Option (Process F)} (h : result.map (·, (none : Option Exn)) = some (q, e)) :
    result = some q ∧ e = none := by
  obtain ⟨q', hq, he⟩ := Option.map_eq_some_iff.mp h
  cases he
  exact ⟨hq, rfl⟩

/-- **A filter changes no headers but, as a crop, the sides and `image_size`.** -/
theorem apply_sides {f : Filter F} (h : f.apply libm p = some (q, e)) :
    q.image.height.toNat = f.heightAfter p.image.height.toNat ∧
      q.image.width.toNat = f.widthAfter p.image.width.toNat ∧ q.image.toFileHeader = p.image.toFileHeader := by
  have hsame : SameHeaders p q → q.image.height.toNat = p.image.height.toNat ∧
      q.image.width.toNat = p.image.width.toNat ∧ q.image.toFileHeader = p.image.toFileHeader :=
    fun hs => ⟨by rw [hs.info], by rw [hs.info], hs.file⟩
  cases f with
  | crop width height =>
    rw [Filter.apply] at h
    obtain ⟨hq, -⟩ := map_none_some h
    exact crop_some hq
  | grayscale =>
    cases h
    exact hsame ⟨rfl, rfl⟩
  | negative =>
    cases h
    exact hsame ⟨rfl, rfl⟩
  | sharpening =>
    rw [Filter.apply] at h
    obtain ⟨hq, -⟩ := map_none_some h
    exact hsame (multiply_headers hq)
  | edgeDetection threshold =>
    rw [Filter.apply] at h
    obtain ⟨hq, -⟩ := map_none_some h
    obtain ⟨p₁, px, h₁, -, rfl⟩ := edgeDetection_some hq
    have hgray : SameHeaders p (grayscale p) := ⟨rfl, rfl⟩
    exact hsame ((hgray.trans (multiply_headers h₁)).trans ⟨rfl, rfl⟩)
  | gaussianBlur sigma =>
    rw [Filter.apply] at h
    rcases gaussianBlur_some h with ⟨-, -, rfl, -⟩ | ⟨kernel, p₁, kernel', p₂, -, h₁, -, h₂, rfl, -⟩
    · exact hsame ⟨rfl, rfl⟩
    · exact hsame (((multiply_headers h₁).trans (multiply_headers h₂)).trans ⟨rfl, rfl⟩)
  | tunnel centerH centerW strength radius =>
    rw [Filter.apply] at h
    rcases tunnel_some h with ⟨-, rfl, -⟩ | ⟨-, -, px, -, rfl⟩
    · exact hsame ⟨rfl, rfl⟩
    · exact hsame ⟨rfl, rfl⟩

/-! ## Lists of filters -/

variable {f : Filter F} {filters more : List (Filter F)}

/-- After a filter that returns comes the rest. -/
theorem applyFilters_cons (h : f.apply libm p = some (q, none)) :
    applyFilters libm (f :: filters) p = applyFilters libm filters q := by
  rw [applyFilters, h]
  rfl

theorem applyFilters_throw {e : Exn} (h : f.apply libm p = some (q, some e)) :
    applyFilters libm (f :: filters) p = some (q, some e) := by
  rw [applyFilters, h]
  rfl

theorem applyFilters_one (libm : Libm F) (f : Filter F) (p : Process F) :
    applyFilters libm [f] p = f.apply libm p := by
  unfold applyFilters
  cases f.apply libm p with
  | none => rfl
  | some result =>
    obtain ⟨q, e⟩ := result
    cases e with
    | none => rfl
    | some e => rfl

/-- The first filter of a list returned or threw. -/
theorem applyFilters_cons_some (h : applyFilters libm (f :: filters) p = some (q, e)) :
    (∃ r, f.apply libm p = some (r, none) ∧ applyFilters libm filters r = some (q, e)) ∨
      ∃ e', f.apply libm p = some (q, some e') ∧ e = some e' := by
  obtain ⟨⟨r, e'⟩, hr, h⟩ := Option.bind_eq_some_iff.mp h
  cases e' with
  | none => exact .inl ⟨r, hr, h⟩
  | some e' =>
    cases h
    exact .inr ⟨e', hr, rfl⟩

/-- After a list that returns comes the rest. -/
theorem applyFilters_append (h : applyFilters libm filters p = some (q, none)) :
    applyFilters libm (filters ++ more) p = applyFilters libm more q := by
  induction filters generalizing p with
  | nil =>
    cases h
    rfl
  | cons f filters ih =>
    rcases applyFilters_cons_some h with ⟨r, hr, h⟩ | ⟨e', -, he⟩
    · rw [List.cons_append, applyFilters_cons hr]
      exact ih h
    · cases he

theorem applyFilters_append_throw {e : Exn} (h : applyFilters libm filters p = some (q, some e)) :
    applyFilters libm (filters ++ more) p = some (q, some e) := by
  induction filters generalizing p with
  | nil => cases h
  | cons f filters ih =>
    rcases applyFilters_cons_some h with ⟨r, hr, h⟩ | ⟨e', hr, he⟩
    · rw [List.cons_append, applyFilters_cons hr]
      exact ih h
    · cases he
      exact applyFilters_throw hr

/-- **Invariant rule for lists of filters.** -/
theorem applyFilters_inv {I : Process F → Prop}
    (hstep : ∀ f ∈ filters, ∀ p q e, I p → f.apply libm p = some (q, e) → I q) (hp : I p)
    (h : applyFilters libm filters p = some (q, e)) : I q := by
  induction filters generalizing p with
  | nil =>
    cases h
    exact hp
  | cons f filters ih =>
    have hf := hstep f List.mem_cons_self
    rcases applyFilters_cons_some h with ⟨r, hr, h⟩ | ⟨e', hq, -⟩
    · exact ih (fun f hm => hstep f (List.mem_cons_of_mem _ hm)) (hf p r _ hp hr) h
    · exact hf p q _ hp hq

theorem applyFilters_sides (h : applyFilters libm filters p = some (q, none)) :
    q.image.height.toNat = heightAfter filters p.image.height.toNat ∧
      q.image.width.toNat = widthAfter filters p.image.width.toNat ∧
      q.image.toFileHeader = p.image.toFileHeader := by
  induction filters generalizing p with
  | nil =>
    cases h
    exact ⟨rfl, rfl, rfl⟩
  | cons f filters ih =>
    rcases applyFilters_cons_some h with ⟨r, hr, h⟩ | ⟨e', -, he⟩
    · obtain ⟨hh, hw, hf⟩ := apply_sides hr
      obtain ⟨ihh, ihw, ihf⟩ := ih h
      exact ⟨by rw [ihh, hh]; rfl, by rw [ihw, hw]; rfl, ihf.trans hf⟩
    · cases he

end HighLoad.ImageProcessor
