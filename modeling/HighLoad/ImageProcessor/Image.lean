import Mathlib.Algebra.Order.Floor.Ring
import Mathlib.Tactic.FieldSimp
import HighLoad.Lib.Bytes
import HighLoad.Lib.Grid

/-!
# Images

The data of the image processor: exceptions, pixels, the two BMP headers, the image, and the size of a row in the file.
Components of pixels are numbers of an ordered field `F` instead of doubles. A call of the processor that reads or
writes outside a vector, or computes an index beyond `int`, has no result (`none`).

A byte is read back from the component it was decoded to (`getByte_div`), and a component in `[0, 1]` is written as
`⌊255 x⌋` (`ofBytes_getByte`); up to a width of 715827882 a row takes `stride` bytes (`bufferSize_eq`).
-/

namespace HighLoad.ImageProcessor

open ByteString

/-! ## Data -/

/-- The exceptions, with their messages. -/
inductive Exn where
  | parser (message : Bytes)
  | readImage (message : Bytes)
  | writeImage (message : Bytes)
  | applyFilter (message : Bytes)
  deriving DecidableEq

@[ext] structure Pixel (F : Type) where
  r : F
  g : F
  b : F
  deriving DecidableEq

structure FileHeader where
  signature : UInt16
  fileSize : UInt32
  reserved1 : UInt16
  reserved2 : UInt16
  dataOffset : UInt32
  deriving DecidableEq

structure InfoHeader where
  headerSize : UInt32
  width : UInt32
  height : UInt32
  planes : UInt16
  bitsPerPixel : UInt16
  compression : UInt32
  imageSize : UInt32
  xPixelsPerMeter : UInt32
  yPixelsPerMeter : UInt32
  colorsUsed : UInt32
  colorsImportant : UInt32
  deriving DecidableEq

/-- The static `buffer` is not part of an image; it is passed along. -/
structure Image (F : Type) extends FileHeader, InfoHeader where
  pixels : Grid (Pixel F)
  deriving DecidableEq

/-- `Check`: the exception for a header that the reader does not support. -/
def check (file : FileHeader) (info : InfoHeader) : Option Exn :=
  if file.signature ≠ 0x4D42 then some (.readImage (ascii "Incorrect signature"))
  else if info.headerSize ≠ 40 then some (.readImage (ascii "Incorrect header size"))
  else if info.bitsPerPixel ≠ 24 then some (.readImage (ascii "Incorrect size of pixels"))
  else if info.compression ≠ 0 then some (.readImage (ascii "There is compression"))
  else if info.colorsUsed ≠ 0 then some (.readImage (ascii "There is colors table"))
  else none

/-! ## Components and bytes -/

section Component

variable {F : Type} [Field F]

/-- `Pixel(uint8_t r, uint8_t g, uint8_t b)`. -/
def Pixel.ofBytes (r g b : UInt8) : Pixel F := ⟨r.toNat / 255, g.toNat / 255, b.toNat / 255⟩

/-- The pixels a `vector` starts with. -/
def Pixel.zero : Pixel F := ⟨0, 0, 0⟩

variable [LinearOrder F] [FloorRing F]

/-- The conversion of a double to an integer cuts the fraction off. -/
def trunc (x : F) : Int := if 0 ≤ x then ⌊x⌋ else ⌈x⌉

def getByte (x : F) : UInt8 := UInt8.ofInt (trunc (x * 255))

/-- What a component becomes on the way through a file. -/
def quantize (x : F) : F := ⌊255 * x⌋ / 255

def Pixel.quantize (p : Pixel F) : Pixel F :=
  ⟨ImageProcessor.quantize p.r, ImageProcessor.quantize p.g, ImageProcessor.quantize p.b⟩

/-- Every component lies in `[0, 1]`. -/
structure Pixel.Unit (p : Pixel F) : Prop where
  r : 0 ≤ p.r ∧ p.r ≤ 1
  g : 0 ≤ p.g ∧ p.g ≤ 1
  b : 0 ≤ p.b ∧ p.b ≤ 1

theorem toNat_ofInt {n : Nat} (h : n < 256) : (UInt8.ofInt n).toNat = n := by
  simp only [UInt8.ofInt, UInt8.toNat_ofNat']
  omega

variable [IsStrictOrderedRing F]

/-- The integer part of a value between two integers. -/
theorem trunc_mem {x : F} {n : Int} (h : -n ≤ x ∧ x ≤ n) : -n ≤ trunc x ∧ trunc x ≤ n := by
  unfold trunc
  split
  case isTrue hx =>
    have hfloor : 0 ≤ ⌊x⌋ := Int.floor_nonneg.mpr hx
    have hle : ⌊x⌋ ≤ n := by exact_mod_cast (Int.floor_le x).trans h.2
    omega
  case isFalse hx =>
    have hceil : ⌈x⌉ ≤ 0 := Int.ceil_le.mpr (by exact_mod_cast (not_le.mp hx).le)
    have hge : -n ≤ ⌈x⌉ := by exact_mod_cast h.1.trans (Int.le_ceil x)
    omega

/-- A byte survives the way through a component. -/
theorem getByte_div (b : UInt8) : getByte ((b.toNat : F) / 255) = b := by
  have h255 : (255 : F) ≠ 0 := by norm_num
  have hmul : (b.toNat : F) / 255 * 255 = b.toNat := div_mul_cancel₀ _ h255
  have hpos : (0 : F) ≤ b.toNat := Nat.cast_nonneg _
  rw [getByte, hmul, trunc, if_pos hpos, Int.floor_natCast]
  exact UInt8.toNat_inj.mp (toNat_ofInt b.toNat_lt)

omit [FloorRing F] in
/-- What `GetByte` converts for a component of `[0, 1]`. -/
theorem scaled_mem {x : F} (h : 0 ≤ x ∧ x ≤ 1) : 0 ≤ x * 255 ∧ x * 255 ≤ 255 := by
  have h1 := mul_le_mul_of_nonneg_right h.2 (by norm_num : (0 : F) ≤ 255)
  rw [one_mul] at h1
  exact ⟨mul_nonneg h.1 (by norm_num), h1⟩

/-- The conversion loses the fraction only. -/
theorem getByte_floor {x : F} (h : 0 ≤ x ∧ x ≤ 1) : ((getByte x).toNat : Int) = ⌊x * 255⌋ := by
  obtain ⟨hpos, hle⟩ := scaled_mem h
  have hf : 0 ≤ ⌊x * 255⌋ := Int.floor_nonneg.mpr hpos
  have hf' : ⌊x * 255⌋ ≤ 255 := by
    have h1 : ((⌊x * 255⌋ : Int) : F) ≤ ((255 : Int) : F) := (Int.floor_le _).trans (by exact_mod_cast hle)
    exact_mod_cast h1
  obtain ⟨n, hn⟩ := Int.eq_ofNat_of_zero_le hf
  rw [getByte, trunc, if_pos hpos, hn]
  exact congrArg Nat.cast (toNat_ofInt (by omega))

/-- A component of `[0, 1]` is written as `⌊255 x⌋`. -/
theorem toNat_getByte {x : F} (h : 0 ≤ x ∧ x ≤ 1) : (((getByte x).toNat : F)) / 255 = quantize x := by
  have hbyte : ((getByte x).toNat : F) = (⌊x * 255⌋ : Int) := by
    rw [← getByte_floor h, Int.cast_natCast]
  rw [hbyte, quantize, mul_comm 255 x]

theorem ofBytes_getByte {p : Pixel F} (h : p.Unit) :
    Pixel.ofBytes (getByte p.r) (getByte p.g) (getByte p.b) = p.quantize := by
  unfold Pixel.ofBytes Pixel.quantize
  rw [toNat_getByte h.r, toNat_getByte h.g, toNat_getByte h.b]

end Component

/-! ## Rows in the file -/

/-- `line_size`. -/
def lineSize (width : UInt32) : UInt32 := width * 3

def padding (width : UInt32) : UInt8 := ((4 - lineSize width % 4) % 4).toUInt8

/-- The size of the row buffer, `line_size + padding` in `uint32_t`. -/
def bufferSize (width : UInt32) : Nat := (lineSize width + (padding width).toUInt32).toNat

/-- `int offset = col * 3`. -/
def offset (col : Nat) : Option Nat := if col * 3 < 2 ^ 31 then some (col * 3) else none

/-- The offset of a pixel; its last byte, at `offset + 2`, needs an `int` index as well. -/
def pixelOffset (col : Nat) : Option Nat := (offset col).bind fun pos => if pos + 2 < 2 ^ 31 then some pos else none

/-- `3 * w` rounded up to a multiple of 4. -/
def stride (w : Nat) : Nat := (3 * w + 3) / 4 * 4

/-- The widths whose rows an `int` can index. -/
def maxWidth : Nat := 715827882

variable {width : UInt32}

theorem le_stride (w : Nat) : 3 * w ≤ stride w := by
  unfold stride
  omega

theorem lineSize_eq (hw : width.toNat ≤ maxWidth) : (lineSize width).toNat = width.toNat * 3 := by
  unfold maxWidth at hw
  rw [lineSize, UInt32.toNat_mul]
  exact Nat.mod_eq_of_lt (by simp; omega)

/-- No row arithmetic wraps. -/
theorem bufferSize_eq (hw : width.toNat ≤ maxWidth) : bufferSize width = stride width.toNat := by
  have hline := lineSize_eq hw
  unfold maxWidth at hw
  have hpad : (padding width).toUInt32.toNat = (4 - width.toNat * 3 % 4) % 4 := by
    have hmod : (lineSize width % 4).toNat = width.toNat * 3 % 4 := by rw [UInt32.toNat_mod, hline]; rfl
    have hsub : (4 - lineSize width % 4).toNat = 4 - width.toNat * 3 % 4 := by
      rw [UInt32.toNat_sub_of_le, hmod]
      · rfl
      · rw [UInt32.le_iff_toNat_le, hmod]
        simp
        omega
    have hpad' : ((4 - lineSize width % 4) % 4).toNat = (4 - width.toNat * 3 % 4) % 4 := by
      rw [UInt32.toNat_mod, hsub]; rfl
    simp only [padding, UInt8.toNat_toUInt32, UInt32.toNat_toUInt8, hpad']
    omega
  have hr : width.toNat * 3 % 4 < 4 := Nat.mod_lt _ (by decide)
  have hround : width.toNat * 3 + (4 - width.toNat * 3 % 4) % 4 = stride width.toNat := by
    unfold stride
    rcases Nat.eq_zero_or_pos (width.toNat * 3 % 4) with h0 | hpos
    · rw [h0]
      omega
    · rw [Nat.mod_eq_of_lt (by omega)]
      omega
  rw [bufferSize, UInt32.toNat_add, hline, hpad, hround]
  unfold stride
  omega

/-- The columns of a row have an `int` offset. -/
theorem offset_eq {col : Nat} (hw : width.toNat ≤ maxWidth) (hcol : col < width.toNat) :
    offset col = some (col * 3) := by
  unfold maxWidth at hw
  exact if_pos (by omega)

theorem pixelOffset_eq {col : Nat} (hw : width.toNat ≤ maxWidth) (hcol : col < width.toNat) :
    pixelOffset col = some (col * 3) := by
  rw [pixelOffset, offset_eq hw hcol, Option.bind_some]
  unfold maxWidth at hw
  exact if_pos (by omega)

end HighLoad.ImageProcessor
