import HighLoad.ImageProcessor.Reader

/-!
# `ImageWriter`

`writeFile` writes the two headers and the rows, the lowest first, through one row buffer whose padding stays zero. The
writes never throw.

`Encodes h w pixels rows` says what the bytes after the headers must be: every component as a byte at its place, zero
padding. There is only one such byte string (`Encodes.unique`), and to a device that accepts everything `writeFile`
writes it (`writeFile_bytes`).
-/

namespace HighLoad.ImageProcessor

open ByteString Loop

variable {F : Type} [Field F] [LinearOrder F] [FloorRing F]

/-! ## Writing -/

/-- `buffer[i] = b`. -/
def setByte (buffer : Bytes) (i : Nat) (b : UInt8) : Option Bytes :=
  if i < buffer.length then some (buffer.set i b) else none

/-- A pass of the loop over the columns. -/
def encodePixel (pixels : Grid (Pixel F)) (realRow col : Nat) (buffer : Bytes) : Option Bytes :=
  (pixelOffset col).bind fun pos => (pixels.get realRow col).bind fun p =>
    (setByte buffer pos (getByte p.b)).bind fun buffer =>
      (setByte buffer (pos + 1) (getByte p.g)).bind fun buffer => setByte buffer (pos + 2) (getByte p.r)

/-- A pass of the loop over the rows; no unsigned subtraction wraps, since `row < height`. -/
def writeRow (info : InfoHeader) (pixels : Grid (Pixel F)) (row : Nat) : OFStream × Bytes → Option (OFStream × Bytes)
  | (file, buffer) =>
    let realRow := info.height.toNat - row - 1
    (upTo (encodePixel pixels realRow) info.width.toNat buffer).map fun buffer => (file.write buffer, buffer)

def writePixels (file : OFStream) (info : InfoHeader) (pixels : Grid (Pixel F)) : Option OFStream :=
  (upTo (writeRow info pixels) info.height.toNat (file, List.replicate (bufferSize info.width) 0)).map (·.1)

/-- The output stream after `WriteFile`. -/
def writeFile (fs : FileSystem) (path : Bytes) (img : Image F) : Option (Except Exn OFStream) :=
  match fs.device path with
  | none => some (.error (.writeImage (ascii "Cannot open write file.")))
  | some room =>
    let file := writeFileHeader ⟨[], room, false⟩ img.toFileHeader
    let file := writeInfoHeader file img.toInfoHeader
    (writePixels file img.toInfoHeader img.pixels).map .ok

/-! ## The rows in a file -/

/-- The bytes of a pixel in the file: blue, green and red. -/
def Pixel.byte (p : Pixel F) : Nat → UInt8
  | 0 => getByte p.b
  | 1 => getByte p.g
  | _ => getByte p.r

/-- `rows` are the bytes of the pixels, the lowest row first, each row padded with zeros. -/
structure Encodes (h w : Nat) (pixels : Grid (Pixel F)) (rows : Bytes) : Prop where
  length : rows.length = h * stride w
  pixel : ∀ i c k p, i < h → c < w → k < 3 → pixels.get (h - 1 - i) c = some p →
    rows[i * stride w + (c * 3 + k)]? = some (p.byte k)
  padding : ∀ i j, i < h → 3 * w ≤ j → j < stride w → rows[i * stride w + j]? = some 0

variable {h w r n : Nat} {pixels : Grid (Pixel F)} {rows rows' buffer : Bytes} {info : InfoHeader}

/-- **There is one byte string with the pixels.** -/
theorem Encodes.unique (hpx : Grid.Shape h w pixels) (hr : Encodes h w pixels rows) (hr' : Encodes h w pixels rows') :
    rows = rows' := by
  apply List.ext_getElem?
  intro n
  by_cases hn : n < h * stride w
  · -- byte `j` of row `i`, which is byte `k` of pixel `c` or padding
    have hs : 0 < stride w := by
      refine Nat.pos_of_ne_zero fun h0 => ?_
      rw [h0, Nat.mul_zero] at hn
      omega
    obtain ⟨i, j, rfl, hi, hj⟩ : ∃ i j, n = i * stride w + j ∧ i < h ∧ j < stride w := by
      refine ⟨n / stride w, n % stride w, ?_, Nat.div_lt_of_lt_mul (by rwa [Nat.mul_comm]), Nat.mod_lt _ hs⟩
      rw [Nat.mul_comm]
      exact (Nat.div_add_mod _ _).symm
    by_cases hj3 : j < 3 * w
    · obtain ⟨c, k, rfl, hc, hk⟩ : ∃ c k, j = c * 3 + k ∧ c < w ∧ k < 3 :=
        ⟨j / 3, j % 3, by omega, by omega, by omega⟩
      obtain ⟨p, hp⟩ := hpx.get (r := h - 1 - i) (by omega) hc
      rw [hr.pixel i c k p hi hc hk hp, hr'.pixel i c k p hi hc hk hp]
    · rw [hr.padding i j hi (by omega) hj, hr'.padding i j hi (by omega) hj]
  · rw [List.getElem?_eq_none (by rw [hr.length]; omega), List.getElem?_eq_none (by rw [hr'.length]; omega)]

/-! ## What is written -/

theorem setByte_eq {i : Nat} (hi : i < buffer.length) (b : UInt8) : setByte buffer i b = some (buffer.set i b) :=
  if_pos hi

/-- A pass writes the three bytes of its pixel. -/
theorem encodePixel_eq {p : Pixel F} {col : Nat} (hw : info.width.toNat ≤ maxWidth) (hcol : col < info.width.toNat)
    (hp : pixels.get r col = some p) (hlen : col * 3 + 2 < buffer.length) : encodePixel pixels r col buffer =
      some (((buffer.set (col * 3) (p.byte 0)).set (col * 3 + 1) (p.byte 1)).set (col * 3 + 2) (p.byte 2)) := by
  unfold encodePixel
  rw [pixelOffset_eq hw hcol, Option.bind_some, hp, Option.bind_some, setByte_eq (by omega), Option.bind_some,
    setByte_eq (by rw [List.length_set]; omega), Option.bind_some,
    setByte_eq (by rw [List.length_set, List.length_set]; omega)]
  rfl

/-- The row buffer after the loop over the columns. -/
theorem encodeRow_spec (hw : info.width.toNat ≤ maxWidth) (hpx : Grid.Shape h info.width.toNat pixels) (hr : r < h)
    (hlen : buffer.length = stride info.width.toNat) :
    ∃ buffer', upTo (encodePixel pixels r) info.width.toNat buffer = some buffer' ∧ buffer'.length = buffer.length ∧
      (∀ c k p, c < info.width.toNat → k < 3 → pixels.get r c = some p → buffer'[c * 3 + k]? = some (p.byte k)) ∧
      ∀ j, 3 * info.width.toNat ≤ j → buffer'[j]? = buffer[j]? := by
  have hs := le_stride info.width.toNat
  -- the passes before `n` have written the first `n` pixels
  obtain ⟨buffer', hrun, hlen', hpixel, hpad⟩ := upTo_rule (n := info.width.toNat) (s := buffer) (encodePixel pixels r)
    (fun n buf => buf.length = buffer.length ∧
      (∀ c k p, c < n → k < 3 → pixels.get r c = some p → buf[c * 3 + k]? = some (p.byte k)) ∧
      ∀ j, 3 * info.width.toNat ≤ j → buf[j]? = buffer[j]?)
    ⟨rfl, fun c k p hc => absurd hc (by omega), fun j _ => rfl⟩ fun n buf hn ⟨hl, hpixel, hpad⟩ => by
      obtain ⟨p, hp⟩ := hpx.get hr hn
      refine ⟨_, encodePixel_eq hw hn hp (by omega), by simp only [List.length_set, hl], ?_, fun j hj => ?_⟩
      · intro c k q hc hk hq
        by_cases hcn : c = n
        · subst hcn
          rw [hp, Option.some.injEq] at hq
          subst hq
          match k, hk with
          | 0, _ =>
            have hlt : c * 3 < buf.length := by omega
            rw [List.getElem?_set_ne (by omega), List.getElem?_set_ne (by omega)]
            exact List.getElem?_set_self hlt
          | 1, _ => rw [List.getElem?_set_ne (by omega), List.getElem?_set_self (by rw [List.length_set]; omega)]
          | 2, _ => rw [List.getElem?_set_self (by rw [List.length_set, List.length_set]; omega)]
        · rw [List.getElem?_set_ne (by omega), List.getElem?_set_ne (by omega), List.getElem?_set_ne (by omega)]
          exact hpixel c k q (by omega) hk hq
      · rw [List.getElem?_set_ne (by omega), List.getElem?_set_ne (by omega), List.getElem?_set_ne (by omega)]
        exact hpad j hj
  exact ⟨buffer', hrun, hlen', hpixel, hpad⟩

/-- The rows written so far, `n` of them, and the row buffer. -/
structure RowsWritten (info : InfoHeader) (pixels : Grid (Pixel F)) (written : Bytes) (n : Nat)
    (s : OFStream × Bytes) : Prop where
  rows : ∃ rows, s.1 = ⟨written ++ rows, none, false⟩ ∧ rows.length = n * stride info.width.toNat ∧
    (∀ i c k p, i < n → c < info.width.toNat → k < 3 → pixels.get (info.height.toNat - 1 - i) c = some p →
      rows[i * stride info.width.toNat + (c * 3 + k)]? = some (p.byte k)) ∧
    ∀ i j, i < n → 3 * info.width.toNat ≤ j → j < stride info.width.toNat →
      rows[i * stride info.width.toNat + j]? = some 0
  length : s.2.length = stride info.width.toNat
  padding : ∀ j, 3 * info.width.toNat ≤ j → j < stride info.width.toNat → s.2[j]? = some 0

/-- One more row. -/
theorem writeRow_spec {written : Bytes} {s : OFStream × Bytes} (hw : info.width.toNat ≤ maxWidth)
    (hpx : Grid.Shape info.height.toNat info.width.toNat pixels) (hn : n < info.height.toNat)
    (hs : RowsWritten info pixels written n s) :
    ∃ t, writeRow info pixels n s = some t ∧ RowsWritten info pixels written (n + 1) t := by
  obtain ⟨file, buffer⟩ := s
  obtain ⟨⟨rows, hfile, hrows, hpixel, hpad⟩, hlen, hzero⟩ := hs
  dsimp only at hfile hlen hzero
  subst hfile
  obtain ⟨buffer', hrun, hlen', hpixel', hpad'⟩ := encodeRow_spec hw hpx (r := info.height.toNat - n - 1) (by omega) hlen
  rw [hlen] at hlen'
  have hsum : (n + 1) * stride info.width.toNat = n * stride info.width.toNat + stride info.width.toNat := Nat.succ_mul _ _
  -- a byte of an earlier row lies before the new one
  have hbefore : ∀ i j, i < n → j < stride info.width.toNat →
      (rows ++ buffer')[i * stride info.width.toNat + j]? = rows[i * stride info.width.toNat + j]? := by
    intro i j hi hj
    have hmul : (i + 1) * stride info.width.toNat ≤ n * stride info.width.toNat := Nat.mul_le_mul_right _ (by omega)
    rw [Nat.succ_mul] at hmul
    exact List.getElem?_append_left (by omega)
  have hnew : ∀ j, (rows ++ buffer')[n * stride info.width.toNat + j]? = buffer'[j]? := by
    intro j
    rw [List.getElem?_append_right (by omega), hrows]
    congr 1
    omega
  have hstride := le_stride info.width.toNat
  refine ⟨(⟨written ++ (rows ++ buffer'), none, false⟩, buffer'), ?_, ⟨rows ++ buffer', rfl, ?_, ?_, ?_⟩, hlen', ?_⟩
  · simp only [writeRow, hrun, Option.map_some, OFStream.write_unlimited, List.append_assoc]
  · rw [List.length_append, hrows, hlen', hsum]
  · intro i c k p hi hc hk hp
    by_cases hin : i = n
    · subst hin
      rw [hnew]
      refine hpixel' c k p hc hk ?_
      rw [← hp]
      congr 1
      omega
    · rw [hbefore i _ (by omega) (by omega)]
      exact hpixel i c k p (by omega) hc hk hp
  · intro i j hi hj hj'
    by_cases hin : i = n
    · subst hin
      rw [hnew, hpad' j hj]
      exact hzero j hj hj'
    · rw [hbefore i j (by omega) hj']
      exact hpad i j (by omega) hj hj'
  · intro j hj hj'
    rw [hpad' j hj]
    exact hzero j hj hj'

/-- The rows of a picture, after what is written already. -/
theorem writePixels_spec (hw : info.width.toNat ≤ maxWidth)
    (hpx : Grid.Shape info.height.toNat info.width.toNat pixels) (written : Bytes) :
    ∃ rows, writePixels ⟨written, none, false⟩ info pixels = some ⟨written ++ rows, none, false⟩ ∧
      Encodes info.height.toNat info.width.toNat pixels rows := by
  have hzero : RowsWritten info pixels written 0 (⟨written, none, false⟩, List.replicate (bufferSize info.width) 0) := by
    refine ⟨⟨[], by rw [List.append_nil], by rw [Nat.zero_mul]; rfl, ?_, ?_⟩, ?_, ?_⟩
    · exact fun i c k p hi => absurd hi (by omega)
    · exact fun i j hi => absurd hi (by omega)
    · rw [List.length_replicate, bufferSize_eq hw]
    · intro j _ hj
      rw [bufferSize_eq hw]
      exact List.getElem?_replicate_of_lt hj
  obtain ⟨⟨file, buffer⟩, hrun, ⟨rows, hfile, hlen, hpixel, hpad⟩, -, -⟩ :=
    upTo_rule (writeRow info pixels) (RowsWritten info pixels written) hzero fun n s hn hs => writeRow_spec hw hpx hn hs
  dsimp only at hfile
  subst hfile
  exact ⟨rows, by rw [writePixels, hrun]; rfl, hlen, hpixel, hpad⟩

/-- **What `WriteFile` writes** to a device that accepts everything: the headers and the rows. -/
theorem writeFile_bytes {fs : FileSystem} {path : Bytes} {img : Image F} (hdevice : fs.device path = some none)
    (hw : img.width.toNat ≤ maxWidth) (hpx : Grid.Shape img.height.toNat img.width.toNat img.pixels) :
    ∃ rows, writeFile fs path img =
        some (.ok ⟨img.toFileHeader.bytes ++ (img.toInfoHeader.bytes ++ rows), none, false⟩) ∧
      Encodes img.height.toNat img.width.toNat img.pixels rows := by
  obtain ⟨rows, hwrite, hrows⟩ := writePixels_spec hw hpx (img.toFileHeader.bytes ++ img.toInfoHeader.bytes)
  refine ⟨rows, ?_, hrows⟩
  unfold writeFile
  rw [hdevice]
  dsimp only
  rw [writeFileHeader_bytes, writeInfoHeader_bytes, List.nil_append, hwrite, Option.map_some, List.append_assoc]

end HighLoad.ImageProcessor
