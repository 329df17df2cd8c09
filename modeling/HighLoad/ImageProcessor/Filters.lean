import HighLoad.ImageProcessor.Multiply

/-!
# The filters

A `Process` is an image under work with the two static members that outlive it: `Image::buffer` and
`GaussianBlur::matrix`. A filter ends with the process after it and, when it throws, with the exception; an index outside
a vector is no end at all (`none`). `applyFilters` runs a list of filters up to the first exception.
-/

namespace HighLoad.ImageProcessor

open ByteString Loop

/-! ## State and functions of the filters -/

structure Process (F : Type) where
  image : Image F
  buffer : Grid (Pixel F)
  matrix : Matrix F

/-- The functions of `<cmath>` that the filters use, and `M_E` and `M_PI`. -/
structure Libm (F : Type) where
  powf : F → F → F
  toFloat : F → F
  e : F
  pi : F
  sqrt : F → F
  atan2 : F → F → F
  sin : F → F
  cos : F → F

inductive Filter (F : Type) where
  | crop (width height : Int16)
  | grayscale
  | negative
  | sharpening
  | edgeDetection (threshold : F)
  | gaussianBlur (sigma : F)
  | tunnel (centerH centerW : Int) (strength radius : F)
  deriving DecidableEq

/-! ## Crop -/

/-- The size of a vector; no vector is resized to a negative `int16_t`. -/
def vectorSize (n : Int) : Option Nat := if 0 ≤ n then some n.toNat else none

section Crop

variable {F : Type} [Field F]

def cropHeight (height : Int16) (p : Process F) : Option (Process F) :=
  if toU32 height.toInt < p.image.height.toNat then
    (vectorSize height.toInt).map fun n =>
      { p with
        image := { p.image with pixels := Grid.resize p.image.pixels n [], height := UInt32.ofNat n }
        buffer := Grid.resize p.buffer n [] }
  else some p

def cropWidth (width : Int16) (p : Process F) : Option (Process F) :=
  if toU32 width.toInt < p.image.width.toNat then
    (vectorSize width.toInt).map fun n =>
      { p with
        image :=
          { p.image with
            pixels := List.map (Grid.resize · n Pixel.zero) p.image.pixels
            width := UInt32.ofNat n }
        buffer := List.map (Grid.resize · n Pixel.zero) p.buffer }
  else some p

/-- `height_ * ((width_ * 3 + 3) / 4 * 4)`. -/
def cropImageSize (width height : Int16) : Int := height.toInt * ((width.toInt * 3 + 3).tdiv 4 * 4)

def crop (width height : Int16) (p : Process F) : Option (Process F) :=
  (cropHeight height p).bind fun p => (cropWidth width p).map fun p =>
    { p with image := { p.image with imageSize := UInt32.ofNat (toU32 (cropImageSize width height)) } }

end Crop

/-! ## The other filters -/

section Apply

variable {F : Type} [Field F] [LinearOrder F]

def rGray : F := 299 / 1000

def gGray : F := 587 / 1000

def bGray : F := 114 / 1000

def Pixel.gray (p : Pixel F) : Pixel F :=
  let color := max 0 (min 1 (p.r * rGray + p.g * gGray + p.b * bGray))
  ⟨color, color, color⟩

def grayscale (p : Process F) : Process F := { p with image := { p.image with pixels := p.image.pixels.map Pixel.gray } }

def Pixel.negative (p : Pixel F) : Pixel F := ⟨1 - p.r, 1 - p.g, 1 - p.b⟩

def negative (p : Process F) : Process F :=
  { p with image := { p.image with pixels := p.image.pixels.map Pixel.negative } }

/-- `img->Multiply(matrix)`. -/
def Process.multiply (p : Process F) (matrix : Matrix F) : Option (Process F) :=
  (ImageProcessor.multiply matrix p.image.toInfoHeader p.image.pixels p.buffer).map fun (pixels, buffer) =>
    { p with image := { p.image with pixels }, buffer }

def sharpeningMatrix : Matrix F := [[0, -1, 0], [-1, 5, -1], [0, -1, 0]]

def edgeDetectionMatrix : Matrix F := [[0, -1, 0], [-1, 4, -1], [0, -1, 0]]

def sharpening (p : Process F) : Option (Process F) := p.multiply sharpeningMatrix

/-- Black up to the threshold, white above it. -/
def Pixel.edge (threshold : F) (p : Pixel F) : Pixel F := if p.r ≤ threshold then ⟨0, 0, 0⟩ else ⟨1, 1, 1⟩

def edgeDetection (threshold : F) (p : Process F) : Option (Process F) :=
  ((grayscale p).multiply edgeDetectionMatrix).bind fun p =>
    (Grid.sweep p.image.height.toNat p.image.width.toNat (fun _ _ px => some (px.edge threshold)) p.image.pixels).map
      fun pixels => { p with image := { p.image with pixels } }

/-- The unscaled weight of column `col` of the kernel. -/
def gaussianWeight (libm : Libm F) (sigma : F) (size : Int) (col : Nat) : F :=
  let dCol : Int := (size.tdiv 2 - col).natAbs
  let dCol := wrap32 (dCol * dCol)
  let doubleSigma := 2 * sigma * sigma
  let e := libm.powf libm.e (libm.toFloat (-dCol / doubleSigma))
  e / libm.pi / doubleSigma

/-- The kernel after `CalcMatrix`. -/
def calcMatrix (libm : Libm F) (sigma : F) (size : Int) : Except Exn (Matrix F) :=
  if sigma = 0 then .error (.applyFilter (ascii "Sigma can't be zero"))
  else
    let row := (List.range size.toNat).map (gaussianWeight libm sigma size)
    let sum := row.foldl (· + ·) 0
    .ok [row.map (· / sum)]

variable [FloorRing F]

/-- `static_cast<int32_t>`; a value out of range wraps. -/
def toInt32 (x : F) : Int := wrap32 (trunc x)

/-- The length of the kernel: `4 * sigma`, made odd. -/
def kernelSize (sigma : F) : Int :=
  let size := toInt32 (sigma * 4)
  if size % 2 = 0 then size + 1 else size

def gaussianBlur (libm : Libm F) (sigma : F) (p : Process F) : Option (Process F × Option Exn) :=
  match calcMatrix libm sigma (kernelSize sigma) with
  | .error e => some (p, some e)
  | .ok matrix =>
    (p.multiply matrix).bind fun p => (transpose matrix).bind fun matrix => (p.multiply matrix).map fun p =>
      ({ p with matrix }, none)

/-- `std::to_string` of an `int`. -/
def intDecimal (n : Int) : Bytes := if n < 0 then ascii "-" ++ decimal n.natAbs else decimal n.natAbs

def tunnelCenterError (center : Int) : Exn :=
  .applyFilter (ascii "Incorrect center coordinates for -tunnel: " ++ intDecimal center ++ ascii "\n")

/-- Where the pixel `(row, col)` comes from; `none` when it stays. -/
def tunnelSource (libm : Libm F) (centerH centerW : Int) (strength radius : F) (row col : Nat) : Option (Int × Int) :=
  let dRow : F := ((row - centerH : Int) : F)
  let dCol : F := ((col - centerW : Int) : F)
  let distance := libm.sqrt (dRow * dRow + dCol * dCol)
  if distance < radius ∧ 0 < distance then
    let angle := libm.atan2 dRow dCol
    let newAngle := angle + strength * (1 - distance / radius)
    some (wrap32 (centerH + toInt32 (distance * libm.sin newAngle)),
      wrap32 (centerW + toInt32 (distance * libm.cos newAngle)))
  else none

/-- The pixel written to `(row, col)`. -/
def tunnelPixel (libm : Libm F) (centerH centerW : Int) (strength radius : F) (img : Image F) (row col : Nat) :
    Option (Pixel F) :=
  (img.pixels.get row col).bind fun px =>
    match tunnelSource libm centerH centerW strength radius row col with
    | none => some px
    | some (srcRow, srcCol) =>
      if 0 ≤ srcCol ∧ srcCol < img.width.toNat ∧ 0 ≤ srcRow ∧ srcRow < img.height.toNat then
        getAt img.pixels srcRow srcCol
      else some px

/-- A coordinate of the centre: the given one, or the middle of the side where it is 0. -/
def tunnelCenter (center : Int) (side : UInt32) : Int := if center ≠ 0 then center else wrap32 (side.toNat / 2 : Nat)

def tunnel (libm : Libm F) (centerH centerW : Int) (strength radius : F) (p : Process F) :
    Option (Process F × Option Exn) :=
  let img := p.image
  let centerH := tunnelCenter centerH img.height
  let centerW := tunnelCenter centerW img.width
  if centerH < 0 ∨ img.height.toNat ≤ centerH then some (p, some (tunnelCenterError centerH))
  else if centerW < 0 ∨ img.width.toNat ≤ centerW then some (p, some (tunnelCenterError centerW))
  else
    let buffer := List.replicate img.height.toNat (List.replicate img.width.toNat Pixel.zero)
    (Grid.sweep img.height.toNat img.width.toNat
      (fun row col _ => tunnelPixel libm centerH centerW strength radius img row col) buffer).map fun pixels =>
        ({ p with image := { img with pixels } }, none)

/-! ## Applying filters -/

def Filter.apply (libm : Libm F) : Filter F → Process F → Option (Process F × Option Exn)
  | .crop width height, p => (ImageProcessor.crop width height p).map (·, none)
  | .grayscale, p => some (ImageProcessor.grayscale p, none)
  | .negative, p => some (ImageProcessor.negative p, none)
  | .sharpening, p => (ImageProcessor.sharpening p).map (·, none)
  | .edgeDetection threshold, p => (ImageProcessor.edgeDetection threshold p).map (·, none)
  | .gaussianBlur sigma, p => ImageProcessor.gaussianBlur libm sigma p
  | .tunnel centerH centerW strength radius, p => ImageProcessor.tunnel libm centerH centerW strength radius p

/-- `ApplyFilters`: an exception ends the loop. -/
def applyFilters (libm : Libm F) : List (Filter F) → Process F → Option (Process F × Option Exn)
  | [], p => some (p, none)
  | filter :: filters, p => (filter.apply libm p).bind fun
    | (p, none) => applyFilters libm filters p
    | (p, some e) => some (p, some e)

/-! ## Kernels of any values -/

/-- The two convolutions of a blur, with the kernel that `CalcMatrix` has left. -/
def blurWith (matrix : Matrix F) (p : Process F) : Option (Process F) :=
  (p.multiply matrix).bind fun p => (transpose matrix).bind fun matrix => (p.multiply matrix).map fun p =>
    { p with matrix }

/-- A filter; the kernel of a blur has the values of `row`, whatever `CalcMatrix` calculates. -/
def Filter.applyRow (libm : Libm F) (row : List F) : Filter F → Process F → Option (Process F × Option Exn)
  | .gaussianBlur sigma, p =>
    match calcMatrix libm sigma (kernelSize sigma) with
    | .error e => some (p, some e)
    | .ok _ => (blurWith [row] p).map (·, none)
  | filter, p => filter.apply libm p

/-- `ApplyFilters`, where every filter comes with the values of its kernel. -/
def applyRows (libm : Libm F) : List (Filter F × List F) → Process F → Option (Process F × Option Exn)
  | [], p => some (p, none)
  | (filter, row) :: filters, p => (filter.applyRow libm row p).bind fun
    | (p, none) => applyRows libm filters p
    | (p, some e) => some (p, some e)

/-- The values that `CalcMatrix` calculates. -/
def Filter.calculated (libm : Libm F) : Filter F → List F
  | .gaussianBlur sigma =>
    match calcMatrix libm sigma (kernelSize sigma) with
    | .ok (row :: _) => row
    | _ => []
  | _ => []

omit [FloorRing F] in
/-- What `CalcMatrix` leaves is one row. -/
theorem calcMatrix_row {libm : Libm F} {sigma : F} {size : Int} {matrix : Matrix F}
    (h : calcMatrix libm sigma size = .ok matrix) :
    ∃ row, matrix = [row] ∧ row.length = size.toNat := by
  unfold calcMatrix at h
  split at h
  · cases h
  · cases h
    exact ⟨_, rfl, by rw [List.length_map, List.length_map, List.length_range]⟩

/-- The kernel of a blur, and what is done with it. -/
theorem gaussianBlur_eq (libm : Libm F) (sigma : F) (p : Process F) : gaussianBlur libm sigma p =
    match calcMatrix libm sigma (kernelSize sigma) with
    | .error e => some (p, some e)
    | .ok matrix => (blurWith matrix p).map (·, none) := by
  unfold gaussianBlur blurWith
  cases calcMatrix libm sigma (kernelSize sigma) with
  | error e => rfl
  | ok matrix => simp only [Option.map_bind, Option.map_map, Function.comp_def]

/-- A filter without a kernel of its own. -/
theorem applyRow_of_ne {libm : Libm F} {row : List F} {f : Filter F} {p : Process F}
    (hf : ∀ sigma, f ≠ .gaussianBlur sigma) : f.applyRow libm row p = f.apply libm p := by
  cases f with
  | gaussianBlur sigma => exact absurd rfl (hf sigma)
  | crop | grayscale | negative | sharpening | edgeDetection | tunnel => rfl

/-- The kernel that is calculated is one of those of any values. -/
theorem apply_eq_row (libm : Libm F) (f : Filter F) (p : Process F) :
    f.apply libm p = f.applyRow libm (f.calculated libm) p := by
  cases f with
  | gaussianBlur sigma =>
    rw [Filter.apply, gaussianBlur_eq, Filter.applyRow, Filter.calculated]
    cases hm : calcMatrix libm sigma (kernelSize sigma) with
    | error e => rfl
    | ok matrix =>
      obtain ⟨row, rfl, -⟩ := calcMatrix_row hm
      rfl
  | crop | grayscale | negative | sharpening | edgeDetection | tunnel => exact (applyRow_of_ne (by simp)).symm

/-- So is a pipeline one of those with kernels of any values. -/
theorem applyFilters_eq_rows (libm : Libm F) (filters : List (Filter F)) (p : Process F) :
    applyFilters libm filters p = applyRows libm (filters.map fun f => (f, f.calculated libm)) p := by
  induction filters generalizing p with
  | nil => rfl
  | cons f filters ih =>
    rw [applyFilters, List.map_cons, applyRows, apply_eq_row]
    refine congrArg (Option.bind _) (funext fun r => ?_)
    obtain ⟨q, e⟩ := r
    cases e with
    | none => exact ih q
    | some e => rfl

end Apply

end HighLoad.ImageProcessor
