import HighLoad.ImageProcessor.Image

/-!
# Streams and headers

An input stream holds the bytes still to be read, an output stream the bytes accepted so far. A short read stores the
bytes there are and sets `failbit`, a failed write keeps what was accepted; neither throws, and a stream that has failed
reads and writes nothing more. So a device with room for so many bytes gets the first ones of all that is written to it
(`write_limited`).

The two headers are read and written field by field, in little-endian order; reading a header that was written gives it
back (`readFileHeader_bytes`, `readInfoHeader_bytes`), and every byte string that is long enough is a header that was
written (`exists_fileHeader`, `exists_infoHeader`).
-/

namespace HighLoad.ImageProcessor

open ByteString

/-! ## Input -/

structure IFStream where
  rest : Bytes
  fail : Bool
  deriving DecidableEq

namespace IFStream

/-- An opened file, after `seekg(0, beg)`. -/
def openFile (bytes : Bytes) : IFStream := ⟨bytes, false⟩

/-- `file.read`: the new bytes of the object `obj`, and the stream after it. -/
def read (file : IFStream) (obj : Bytes) : Bytes × IFStream :=
  if file.fail then (obj, file)
  else
    let got := file.rest.take obj.length
    (got ++ obj.drop got.length, ⟨file.rest.drop obj.length, decide (got.length < obj.length)⟩)

/-- Reads a number that takes `k` bytes in memory. -/
def readNat (file : IFStream) (k obj : Nat) : Nat × IFStream :=
  let (bytes, file) := file.read (toLE k obj)
  (ofLE bytes, file)

def readU16 (file : IFStream) (obj : UInt16) : UInt16 × IFStream :=
  let (n, file) := file.readNat 2 obj.toNat
  (UInt16.ofNat n, file)

def readU32 (file : IFStream) (obj : UInt32) : UInt32 × IFStream :=
  let (n, file) := file.readNat 4 obj.toNat
  (UInt32.ofNat n, file)

/-- A read never changes the size of the object. -/
theorem length_read (file : IFStream) (obj : Bytes) : (file.read obj).1.length = obj.length := by
  unfold read
  split
  · rfl
  · simp only [List.length_append, List.length_take, List.length_drop]
    omega

/-- A read of bytes that are there. -/
theorem read_append {obj new : Bytes} (h : new.length = obj.length) (rest : Bytes) :
    read ⟨new ++ rest, false⟩ obj = (new, ⟨rest, false⟩) := by
  simp [read, ← h]

theorem readNat_append {k n : Nat} (hn : n < 256 ^ k) (obj : Nat) (rest : Bytes) :
    readNat ⟨toLE k n ++ rest, false⟩ k obj = (n, ⟨rest, false⟩) := by
  rw [readNat, read_append (by rw [length_toLE, length_toLE])]
  simp only [ofLE_toLE hn]

theorem readU16_append (n obj : UInt16) (rest : Bytes) :
    readU16 ⟨toLE 2 n.toNat ++ rest, false⟩ obj = (n, ⟨rest, false⟩) := by
  rw [readU16, readNat_append n.toNat_lt]
  simp

theorem readU32_append (n obj : UInt32) (rest : Bytes) :
    readU32 ⟨toLE 4 n.toNat ++ rest, false⟩ obj = (n, ⟨rest, false⟩) := by
  rw [readU32, readNat_append n.toNat_lt]
  simp

end IFStream

/-! ## Output -/

/-- `room` is what the device still accepts, `none` when it accepts everything. -/
structure OFStream where
  written : Bytes
  room : Option Nat
  fail : Bool
  deriving DecidableEq

namespace OFStream

def write (file : OFStream) (bytes : Bytes) : OFStream :=
  if file.fail then file
  else
    match file.room with
    | none => { file with written := file.written ++ bytes }
    | some room =>
      if bytes.length ≤ room then { file with written := file.written ++ bytes, room := some (room - bytes.length) }
      else { written := file.written ++ bytes.take room, room := some 0, fail := true }

def writeU16 (file : OFStream) (obj : UInt16) : OFStream := file.write (toLE 2 obj.toNat)

def writeU32 (file : OFStream) (obj : UInt32) : OFStream := file.write (toLE 4 obj.toNat)

/-- A device that accepts everything. -/
theorem write_unlimited (written bytes : Bytes) :
    write ⟨written, none, false⟩ bytes = ⟨written ++ bytes, none, false⟩ := rfl

/-- The stream on a device that accepts `room` bytes, after `written` was written to it. -/
def limited (room : Nat) (written : Bytes) : OFStream :=
  ⟨written.take room, some (room - written.length), decide (room < written.length)⟩

/-- **What a device that is full makes of the writes**: it has their first bytes. -/
theorem write_limited (room : Nat) (written bytes : Bytes) :
    (limited room written).write bytes = limited room (written ++ bytes) := by
  unfold write limited
  dsimp only
  by_cases hfull : room < written.length
  · have hlen : room < (written ++ bytes).length := by
      rw [List.length_append]
      omega
    rw [if_pos (decide_eq_true hfull), decide_eq_true hfull, decide_eq_true hlen,
      List.take_append_of_le_length hfull.le, Nat.sub_eq_zero_of_le hfull.le, Nat.sub_eq_zero_of_le hlen.le]
  · rw [if_neg (by rwa [decide_eq_true_eq]), List.take_of_length_le (Nat.not_lt.mp hfull), List.length_append]
    split
    case isTrue hfits =>
      have hlen : ¬room < written.length + bytes.length := by omega
      rw [List.take_of_length_le (by rw [List.length_append]; omega), decide_eq_false hlen, decide_eq_false hfull,
        Nat.sub_sub]
    case isFalse hshort =>
      have hlen : room < written.length + bytes.length := by omega
      rw [List.take_append, List.take_of_length_le (Nat.not_lt.mp hfull), decide_eq_true hlen,
        Nat.sub_eq_zero_of_le hlen.le]

end OFStream

/-! ## Headers -/

section Header

open IFStream OFStream

/-- `h` is what the object holds before. -/
def readFileHeader (file : IFStream) (h : FileHeader) : FileHeader × IFStream :=
  let (signature, file) := file.readU16 h.signature
  let (fileSize, file) := file.readU32 h.fileSize
  let (reserved1, file) := file.readU16 h.reserved1
  let (reserved2, file) := file.readU16 h.reserved2
  let (dataOffset, file) := file.readU32 h.dataOffset
  ({ signature, fileSize, reserved1, reserved2, dataOffset }, file)

def readInfoHeader (file : IFStream) (h : InfoHeader) : InfoHeader × IFStream :=
  let (headerSize, file) := file.readU32 h.headerSize
  let (width, file) := file.readU32 h.width
  let (height, file) := file.readU32 h.height
  let (planes, file) := file.readU16 h.planes
  let (bitsPerPixel, file) := file.readU16 h.bitsPerPixel
  let (compression, file) := file.readU32 h.compression
  let (imageSize, file) := file.readU32 h.imageSize
  let (xPixelsPerMeter, file) := file.readU32 h.xPixelsPerMeter
  let (yPixelsPerMeter, file) := file.readU32 h.yPixelsPerMeter
  let (colorsUsed, file) := file.readU32 h.colorsUsed
  let (colorsImportant, file) := file.readU32 h.colorsImportant
  ({ headerSize, width, height, planes, bitsPerPixel, compression, imageSize, xPixelsPerMeter, yPixelsPerMeter,
     colorsUsed, colorsImportant }, file)

def writeFileHeader (file : OFStream) (h : FileHeader) : OFStream :=
  let file := file.writeU16 h.signature
  let file := file.writeU32 h.fileSize
  let file := file.writeU16 h.reserved1
  let file := file.writeU16 h.reserved2
  file.writeU32 h.dataOffset

def writeInfoHeader (file : OFStream) (h : InfoHeader) : OFStream :=
  let file := file.writeU32 h.headerSize
  let file := file.writeU32 h.width
  let file := file.writeU32 h.height
  let file := file.writeU16 h.planes
  let file := file.writeU16 h.bitsPerPixel
  let file := file.writeU32 h.compression
  let file := file.writeU32 h.imageSize
  let file := file.writeU32 h.xPixelsPerMeter
  let file := file.writeU32 h.yPixelsPerMeter
  let file := file.writeU32 h.colorsUsed
  file.writeU32 h.colorsImportant

def FileHeader.bytes (h : FileHeader) : Bytes :=
  toLE 2 h.signature.toNat ++ (toLE 4 h.fileSize.toNat ++ (toLE 2 h.reserved1.toNat ++
    (toLE 2 h.reserved2.toNat ++ toLE 4 h.dataOffset.toNat)))

def InfoHeader.bytes (h : InfoHeader) : Bytes :=
  toLE 4 h.headerSize.toNat ++ (toLE 4 h.width.toNat ++ (toLE 4 h.height.toNat ++ (toLE 2 h.planes.toNat ++
    (toLE 2 h.bitsPerPixel.toNat ++ (toLE 4 h.compression.toNat ++ (toLE 4 h.imageSize.toNat ++
      (toLE 4 h.xPixelsPerMeter.toNat ++ (toLE 4 h.yPixelsPerMeter.toNat ++ (toLE 4 h.colorsUsed.toNat ++
        toLE 4 h.colorsImportant.toNat)))))))))

theorem FileHeader.length_bytes (h : FileHeader) : h.bytes.length = 14 := by simp [bytes]

theorem InfoHeader.length_bytes (h : InfoHeader) : h.bytes.length = 40 := by simp [bytes]

theorem readFileHeader_bytes (h old : FileHeader) (rest : Bytes) :
    readFileHeader ⟨h.bytes ++ rest, false⟩ old = (h, ⟨rest, false⟩) := by
  simp only [readFileHeader, FileHeader.bytes, List.append_assoc, readU16_append, readU32_append]

theorem readInfoHeader_bytes (h old : InfoHeader) (rest : Bytes) :
    readInfoHeader ⟨h.bytes ++ rest, false⟩ old = (h, ⟨rest, false⟩) := by
  simp only [readInfoHeader, InfoHeader.bytes, List.append_assoc, readU16_append, readU32_append]

theorem writeFileHeader_bytes (h : FileHeader) (written : Bytes) :
    writeFileHeader ⟨written, none, false⟩ h = ⟨written ++ h.bytes, none, false⟩ := by
  simp only [writeFileHeader, FileHeader.bytes, writeU16, writeU32, write_unlimited, List.append_assoc]

theorem writeInfoHeader_bytes (h : InfoHeader) (written : Bytes) :
    writeInfoHeader ⟨written, none, false⟩ h = ⟨written ++ h.bytes, none, false⟩ := by
  simp only [writeInfoHeader, InfoHeader.bytes, writeU16, writeU32, write_unlimited, List.append_assoc]

theorem writeFileHeader_limited (h : FileHeader) (room : Nat) (written : Bytes) :
    writeFileHeader (limited room written) h = limited room (written ++ h.bytes) := by
  simp only [writeFileHeader, FileHeader.bytes, writeU16, writeU32, write_limited, List.append_assoc]

theorem writeInfoHeader_limited (h : InfoHeader) (room : Nat) (written : Bytes) :
    writeInfoHeader (limited room written) h = limited room (written ++ h.bytes) := by
  simp only [writeInfoHeader, InfoHeader.bytes, writeU16, writeU32, write_limited, List.append_assoc]

/-- The first bytes of a byte string are a number. -/
theorem exists_toLE {k : Nat} {bytes : Bytes} (h : k ≤ bytes.length) :
    ∃ n rest, n < 256 ^ k ∧ bytes = toLE k n ++ rest ∧ rest.length = bytes.length - k := by
  have hk : (bytes.take k).length = k := by rw [List.length_take]; omega
  have hlt := ofLE_lt (bytes.take k)
  have hbytes := toLE_ofLE (bytes.take k)
  rw [hk] at hlt hbytes
  exact ⟨ofLE (bytes.take k), bytes.drop k, hlt, by rw [hbytes, List.take_append_drop], List.length_drop⟩

theorem exists_u16 (bytes : Bytes) (h : 2 ≤ bytes.length) :
    ∃ (n : UInt16) (rest : Bytes), bytes = toLE 2 n.toNat ++ rest ∧ rest.length = bytes.length - 2 := by
  obtain ⟨n, rest, hn, hb, hl⟩ := exists_toLE h
  refine ⟨UInt16.ofNat n, rest, ?_, hl⟩
  rw [UInt16.toNat_ofNat_of_lt' hn]
  exact hb

theorem exists_u32 (bytes : Bytes) (h : 4 ≤ bytes.length) :
    ∃ (n : UInt32) (rest : Bytes), bytes = toLE 4 n.toNat ++ rest ∧ rest.length = bytes.length - 4 := by
  obtain ⟨n, rest, hn, hb, hl⟩ := exists_toLE h
  refine ⟨UInt32.ofNat n, rest, ?_, hl⟩
  rw [UInt32.toNat_ofNat_of_lt' hn]
  exact hb

/-- Every 14 bytes are a file header. -/
theorem exists_fileHeader (bytes : Bytes) (h : 14 ≤ bytes.length) :
    ∃ (file : FileHeader) (rest : Bytes), bytes = file.bytes ++ rest ∧ rest.length = bytes.length - 14 := by
  obtain ⟨signature, r₁, h₁, l₁⟩ := exists_u16 bytes (by omega)
  obtain ⟨fileSize, r₂, h₂, l₂⟩ := exists_u32 r₁ (by omega)
  obtain ⟨reserved1, r₃, h₃, l₃⟩ := exists_u16 r₂ (by omega)
  obtain ⟨reserved2, r₄, h₄, l₄⟩ := exists_u16 r₃ (by omega)
  obtain ⟨dataOffset, r₅, h₅, l₅⟩ := exists_u32 r₄ (by omega)
  refine ⟨⟨signature, fileSize, reserved1, reserved2, dataOffset⟩, r₅, ?_, by omega⟩
  rw [h₁, h₂, h₃, h₄, h₅]
  simp only [FileHeader.bytes, List.append_assoc]

/-- Every 40 bytes are an info header. -/
theorem exists_infoHeader (bytes : Bytes) (h : 40 ≤ bytes.length) :
    ∃ (info : InfoHeader) (rest : Bytes), bytes = info.bytes ++ rest ∧ rest.length = bytes.length - 40 := by
  obtain ⟨headerSize, r₁, h₁, l₁⟩ := exists_u32 bytes (by omega)
  obtain ⟨width, r₂, h₂, l₂⟩ := exists_u32 r₁ (by omega)
  obtain ⟨height, r₃, h₃, l₃⟩ := exists_u32 r₂ (by omega)
  obtain ⟨planes, r₄, h₄, l₄⟩ := exists_u16 r₃ (by omega)
  obtain ⟨bitsPerPixel, r₅, h₅, l₅⟩ := exists_u16 r₄ (by omega)
  obtain ⟨compression, r₆, h₆, l₆⟩ := exists_u32 r₅ (by omega)
  obtain ⟨imageSize, r₇, h₇, l₇⟩ := exists_u32 r₆ (by omega)
  obtain ⟨xPixelsPerMeter, r₈, h₈, l₈⟩ := exists_u32 r₇ (by omega)
  obtain ⟨yPixelsPerMeter, r₉, h₉, l₉⟩ := exists_u32 r₈ (by omega)
  obtain ⟨colorsUsed, r₁₀, h₁₀, l₁₀⟩ := exists_u32 r₉ (by omega)
  obtain ⟨colorsImportant, r₁₁, h₁₁, l₁₁⟩ := exists_u32 r₁₀ (by omega)
  refine ⟨⟨headerSize, width, height, planes, bitsPerPixel, compression, imageSize, xPixelsPerMeter, yPixelsPerMeter,
    colorsUsed, colorsImportant⟩, r₁₁, ?_, by omega⟩
  rw [h₁, h₂, h₃, h₄, h₅, h₆, h₇, h₈, h₉, h₁₀, h₁₁]
  simp only [InfoHeader.bytes, List.append_assoc]

end Header

end HighLoad.ImageProcessor
