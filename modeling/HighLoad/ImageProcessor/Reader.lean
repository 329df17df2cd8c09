import HighLoad.ImageProcessor.Stream

/-!
# `ImageReader`

`readFile` reads the two headers, checks them, sizes the pixels and the static buffer, and decodes the rows, the lowest
first, through one row buffer. The reads never throw, so nothing is thrown after the check.

A file is its two headers and the bytes after them, and `readFile` accepts it exactly when the headers pass `check`
(`readFile_file`, `readFile_ok`). Whatever its length, the pixels of row `i` from below are decoded from the row buffer
after `i + 1` reads (`rowReads`), which holds the bytes of that row as far as the file goes (`rowReads_get`).
-/

namespace HighLoad.ImageProcessor

open ByteString Loop

/-! ## Reading -/

/-- What the streams find at a path: the content to read, and the bytes a device accepts (`none` without bound);
`none` when it cannot be opened. -/
structure FileSystem where
  content : Bytes → Option Bytes
  device : Bytes → Option (Option Nat)

section Read

variable {F : Type} [Field F]

/-- The pixel in the three bytes blue, green and red from `pos`. -/
def pixelAt (bytes : Bytes) (pos : Nat) : Option (Pixel F) :=
  bytes[pos]?.bind fun blue => bytes[pos + 1]?.bind fun green => bytes[pos + 2]?.bind fun red =>
    some (Pixel.ofBytes red green blue)

/-- The pixel of column `col` in the row buffer. -/
def decodePixel (buffer : Bytes) (col : Nat) : Option (Pixel F) := (pixelOffset col).bind fun pos => pixelAt buffer pos

/-- A pass of the loop over the rows; no unsigned subtraction wraps, since `row < height`. -/
def readRow (info : InfoHeader) (row : Nat) : IFStream × Bytes × Grid (Pixel F) →
    Option (IFStream × Bytes × Grid (Pixel F))
  | (file, buffer, pixels) =>
    let (buffer, file) := file.read buffer
    let realRow := info.height.toNat - row - 1
    (Grid.sweepRow realRow info.width.toNat (fun col _ => decodePixel buffer col) pixels).map fun pixels =>
      (file, buffer, pixels)

def readPixels (file : IFStream) (info : InfoHeader) (pixels : Grid (Pixel F)) : Option (Grid (Pixel F)) :=
  (upTo (readRow info) info.height.toNat (file, List.replicate (bufferSize info.width) 0, pixels)).map (·.2.2)

/-- The headers a byte string of at least 54 bytes starts with, read into a fresh `Image`. -/
def readHeaders (bytes : Bytes) : FileHeader × InfoHeader × IFStream :=
  let (file, stream) := readFileHeader (IFStream.openFile bytes) ⟨0, 0, 0, 0, 0⟩
  let (info, stream) := readInfoHeader stream ⟨0, 0, 0, 0, 0, 0, 0, 0, 0, 0, 0⟩
  (file, info, stream)

/-- The image and the static buffer after `ReadFile`; `buffer` is the static buffer before. -/
def readFile (fs : FileSystem) (path : Bytes) (buffer : Grid (Pixel F)) :
    Option (Except Exn (Image F × Grid (Pixel F))) :=
  match fs.content path with
  | none => some (.error (.readImage (ascii "Cannot open read file." ++ path)))
  | some bytes =>
    if bytes.length < 54 then some (.error (.readImage (ascii "File is incorrect, size is lower then need")))
    else
      let (file, info, stream) := readHeaders bytes
      match check file info with
      | some e => some (.error e)
      | none =>
        let row := List.replicate info.width.toNat Pixel.zero
        let pixels := Grid.resize [] info.height.toNat row
        let buffer := Grid.resize buffer info.height.toNat row
        (readPixels stream info pixels).map fun pixels =>
          .ok ({ toFileHeader := file, toInfoHeader := info, pixels }, buffer)

end Read

/-! ## The row buffer -/

/-- The row buffer and the stream after `n` reads. -/
def rowReads (size : Nat) (file : IFStream) : Nat → Bytes × IFStream
  | 0 => (List.replicate size 0, file)
  | n + 1 => (rowReads size file n).2.read (rowReads size file n).1

variable {size : Nat} {file : IFStream} {rest : Bytes} {i j n : Nat}

theorem length_rowReads (size : Nat) (file : IFStream) : ∀ n, (rowReads size file n).1.length = size
  | 0 => List.length_replicate
  | n + 1 => by rw [rowReads, IFStream.length_read, length_rowReads size file n]

/-- As long as the rows are there, reads take them off the stream. -/
theorem rowReads_stream : ∀ {n : Nat}, n * size ≤ rest.length →
    (rowReads size ⟨rest, false⟩ n).2 = ⟨rest.drop (n * size), false⟩
  | 0, _ => by simp [rowReads]
  | n + 1, h => by
    rw [Nat.succ_mul] at h
    have ih := rowReads_stream (n := n) (by omega)
    have hlen := length_rowReads size ⟨rest, false⟩ n
    have hgot : ((rest.drop (n * size)).take size).length = size := by
      rw [List.length_take, List.length_drop]
      omega
    rw [rowReads, ih, IFStream.read]
    simp only [Bool.false_eq_true, if_false, hlen, hgot, List.drop_drop, Nat.lt_irrefl, decide_false, Nat.succ_mul]

/-- **After the read of row `i` the row buffer holds the bytes of the row that are there.** -/
theorem rowReads_get (hj : j < size) (h : i * size + j < rest.length) :
    (rowReads size ⟨rest, false⟩ (i + 1)).1[j]? = rest[i * size + j]? := by
  have hlen := length_rowReads size ⟨rest, false⟩ i
  have hgot : j < ((rest.drop (i * size)).take size).length := by
    rw [List.length_take, List.length_drop]
    omega
  rw [rowReads, rowReads_stream (by omega), IFStream.read]
  simp only [Bool.false_eq_true, if_false, hlen]
  rw [List.getElem?_append_left hgot, List.getElem?_take_of_lt hj, List.getElem?_drop]

/-! ## The pixels -/

section Pixels

variable {F : Type} [Field F] {bytes : Bytes} {pos col : Nat} {info : InfoHeader} {pixels : Grid (Pixel F)}

/-- Three bytes are a pixel. -/
theorem pixelAt_isSome (h : pos + 2 < bytes.length) : ∃ p : Pixel F, pixelAt bytes pos = some p := by
  unfold pixelAt
  rw [List.getElem?_eq_getElem (by omega), List.getElem?_eq_getElem (by omega), List.getElem?_eq_getElem h]
  exact ⟨_, rfl⟩

/-- A pixel is decoded from bytes that are there. -/
theorem lt_of_pixelAt {p : Pixel F} (h : pixelAt bytes pos = some p) : pos + 2 < bytes.length := by
  obtain ⟨blue, -, h⟩ := Option.bind_eq_some_iff.mp h
  obtain ⟨green, -, h⟩ := Option.bind_eq_some_iff.mp h
  obtain ⟨red, hr, -⟩ := Option.bind_eq_some_iff.mp h
  exact (List.getElem?_eq_some_iff.mp hr).1

/-- Equal bytes are equal pixels. -/
theorem pixelAt_congr {bytes' : Bytes} {pos' : Nat}
    (h : ∀ k < 3, bytes[pos + k]? = bytes'[pos' + k]?) : (pixelAt bytes pos : Option (Pixel F)) = pixelAt bytes' pos' := by
  have h0 := h 0 (by omega)
  have h1 := h 1 (by omega)
  have h2 := h 2 (by omega)
  simp only [Nat.add_zero] at h0
  simp only [pixelAt, h0, h1, h2]

/-- Within the admitted widths a column is decoded from its three bytes. -/
theorem decodePixel_eq (hw : info.width.toNat ≤ maxWidth) (hcol : col < info.width.toNat) (buffer : Bytes) :
    (decodePixel buffer col : Option (Pixel F)) = pixelAt buffer (col * 3) := by
  rw [decodePixel, pixelOffset_eq hw hcol, Option.bind_some]

/-- **The pixels, whatever the length of the file**: row `i` from below is decoded from the row buffer after its
read. -/
theorem readPixels_spec (hw : info.width.toNat ≤ maxWidth)
    (hpx : Grid.Shape info.height.toNat info.width.toNat pixels) (file : IFStream) :
    ∃ px, readPixels file info pixels = some px ∧ Grid.Shape info.height.toNat info.width.toNat px ∧
      ∀ i c, i < info.height.toNat → c < info.width.toNat →
        px.get (info.height.toNat - 1 - i) c = pixelAt (rowReads (stride info.width.toNat) file (i + 1)).1 (c * 3) := by
  generalize hh : info.height.toNat = h at hpx ⊢
  generalize hwd : info.width.toNat = w at hpx ⊢
  have hw' : w ≤ maxWidth := hwd ▸ hw
  -- the passes before `n` filled the `n` lowest rows
  obtain ⟨⟨file', buffer, px⟩, hrun, -, hshape, hcells⟩ := upTo_rule (n := h)
    (s := (file, List.replicate (bufferSize info.width) 0, pixels)) (readRow info)
    (fun n s => (s.2.1, s.1) = rowReads (stride w) file n ∧ Grid.Shape h w s.2.2 ∧
      ∀ i c, i < n → c < w → s.2.2.get (h - 1 - i) c = pixelAt (rowReads (stride w) file (i + 1)).1 (c * 3))
    ⟨by rw [bufferSize_eq hw, hwd]; rfl, hpx, fun i c hi => by omega⟩
    fun n ⟨f, buf, g⟩ hn ⟨hread, hg, hcells⟩ => by
      have hread' : f.read buf = rowReads (stride w) file (n + 1) := by
        rw [rowReads, ← hread]
      have hlen := length_rowReads (stride w) file (n + 1)
      rw [← hread'] at hlen
      have hdecode : ∀ c, c < w → ∃ p : Pixel F,
          (g.get (h - n - 1) c).bind (fun _ => decodePixel (f.read buf).1 c) = some p := by
        intro c hc
        obtain ⟨a, ha⟩ := hg.get (r := h - n - 1) (by omega) hc
        have hs := le_stride w
        obtain ⟨p, hp⟩ : ∃ p : Pixel F, pixelAt (f.read buf).1 (c * 3) = some p := pixelAt_isSome (by omega)
        exact ⟨p, by rw [ha, Option.bind_some, decodePixel_eq hw (hwd ▸ hc), hp]⟩
      obtain ⟨g', hrow, hg', hcells'⟩ := Grid.sweepRow_spec hg (r := h - n - 1) (by omega) hdecode
      refine ⟨((f.read buf).2, (f.read buf).1, g'), ?_, ?_, hg', fun i c hi hc => ?_⟩
      · simp only [readRow, hh, hwd, hrow, Option.map_some]
      · exact hread'
      · rw [hcells' _ c (by omega) hc]
        by_cases hin : i = n
        · subst hin
          obtain ⟨a, ha⟩ := hg.get (r := h - i - 1) (by omega) hc
          rw [if_pos (by omega), ha, Option.bind_some, decodePixel_eq hw (hwd ▸ hc), hread']
        · rw [if_neg (by omega)]
          exact hcells i c (by omega) hc
  exact ⟨px, by rw [readPixels, hh, hrun]; rfl, hshape, hcells⟩

end Pixels

/-! ## Files -/

section File

variable {F : Type} [Field F] {fs : FileSystem} {path : Bytes} {buffer buffer' : Grid (Pixel F)} {img : Image F}
  {file : FileHeader} {info : InfoHeader}

/-- The headers of a file that starts with them. -/
theorem readHeaders_file (file : FileHeader) (info : InfoHeader) (rest : Bytes) :
    readHeaders (file.bytes ++ (info.bytes ++ rest)) = (file, info, ⟨rest, false⟩) := by
  unfold readHeaders IFStream.openFile
  rw [readFileHeader_bytes]
  dsimp only
  rw [readInfoHeader_bytes]

/-- Every file of 54 bytes or more is two headers and the bytes after them. -/
theorem exists_headers (bytes : Bytes) (h : 54 ≤ bytes.length) :
    ∃ (file : FileHeader) (info : InfoHeader) (rest : Bytes), bytes = file.bytes ++ (info.bytes ++ rest) := by
  obtain ⟨file, rest, hb, hl⟩ := exists_fileHeader bytes (by omega)
  obtain ⟨info, rest', hb', -⟩ := exists_infoHeader rest (by omega)
  exact ⟨file, info, rest', by rw [hb, hb']⟩

theorem length_file (file : FileHeader) (info : InfoHeader) (rest : Bytes) :
    (file.bytes ++ (info.bytes ++ rest)).length = 54 + rest.length := by
  rw [List.length_append, List.length_append, file.length_bytes, info.length_bytes]
  omega

/-- **A file whose headers pass the check is accepted, however long it is.** -/
theorem readFile_file (hfile : fs.content path = some (file.bytes ++ (info.bytes ++ rest)))
    (hcheck : check file info = none) (hw : info.width.toNat ≤ maxWidth) (buffer : Grid (Pixel F)) :
    ∃ px, readFile fs path buffer = some (.ok ({ toFileHeader := file, toInfoHeader := info, pixels := px },
        Grid.resize buffer info.height.toNat (List.replicate info.width.toNat Pixel.zero))) ∧
      Grid.Shape info.height.toNat info.width.toNat px ∧
      ∀ i c, i < info.height.toNat → c < info.width.toNat → px.get (info.height.toNat - 1 - i) c =
        pixelAt (rowReads (stride info.width.toNat) ⟨rest, false⟩ (i + 1)).1 (c * 3) := by
  have hpx : Grid.Shape info.height.toNat info.width.toNat
      (Grid.resize ([] : Grid (Pixel F)) info.height.toNat (List.replicate info.width.toNat Pixel.zero)) := by
    rw [Grid.resize_nil]
    exact Grid.shape_replicate _ _ _
  obtain ⟨px, hread, hshape, hcells⟩ := readPixels_spec hw hpx ⟨rest, false⟩
  refine ⟨px, ?_, hshape, hcells⟩
  have hlen : ¬ (file.bytes ++ (info.bytes ++ rest)).length < 54 := by
    rw [length_file]
    omega
  simp only [readFile, hfile, if_neg hlen, readHeaders_file, hcheck, hread, Option.map_some]

/-- What `readFile` accepts is a file whose headers pass the check; they are the headers of the image, and the static
buffer is resized to its height. -/
theorem readFile_resizes (h : readFile fs path buffer = some (.ok (img, buffer'))) :
    (∃ rest, fs.content path = some (img.toFileHeader.bytes ++ (img.toInfoHeader.bytes ++ rest)) ∧
      check img.toFileHeader img.toInfoHeader = none) ∧
    buffer' = Grid.resize buffer img.height.toNat (List.replicate img.width.toNat Pixel.zero) := by
  unfold readFile at h
  split at h
  case h_1 => cases h
  case h_2 bytes hbytes =>
    split at h
    case isTrue => cases h
    case isFalse hlen =>
      obtain ⟨file, info, rest, rfl⟩ := exists_headers bytes (by omega)
      rw [readHeaders_file] at h
      dsimp only at h
      split at h
      case h_1 => cases h
      case h_2 hcheck =>
        obtain ⟨px, -, hok⟩ := Option.map_eq_some_iff.mp h
        cases hok
        exact ⟨⟨rest, hbytes, hcheck⟩, rfl⟩

theorem readFile_ok (h : readFile fs path buffer = some (.ok (img, buffer'))) :
    ∃ rest, fs.content path = some (img.toFileHeader.bytes ++ (img.toInfoHeader.bytes ++ rest)) ∧
      check img.toFileHeader img.toInfoHeader = none := (readFile_resizes h).1

end File

end HighLoad.ImageProcessor
