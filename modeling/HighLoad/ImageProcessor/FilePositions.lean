import HighLoad.ImageProcessor.Reader

/-!
# Where in the file the pixels come from

`readFile` takes the pixel `(row, col)` from the three bytes at `54 + (height - 1 - row) * stride + 3 * col`, when the
file has them (`readFile_pixel`). Two things follow that the header promises otherwise:

* a file that ends early is not rejected: nothing throws after the check, and the rows that are missing are decoded from
  what the row buffer held before (`readFile_rejects_iff`);
* `data_offset` is not used: the pixels are those at `data_offset` only where the bytes happen to agree
  (`readFile_dataOffset_iff`).
-/

namespace HighLoad.ImageProcessor

open ByteString

/-- A byte string with two headers that pass `check` and a width that an `int` can index. -/
structure Readable (bytes : Bytes) : Prop where
  length : 54 ≤ bytes.length
  check : check (readHeaders bytes).1 (readHeaders bytes).2.1 = none
  width : (readHeaders bytes).2.1.width.toNat ≤ maxWidth

/-- `width` of the info header. -/
def fileWidth (bytes : Bytes) : Nat := (readHeaders bytes).2.1.width.toNat

/-- `height` of the info header. -/
def fileHeight (bytes : Bytes) : Nat := (readHeaders bytes).2.1.height.toNat

/-- `data_offset` of the file header. -/
def fileDataOffset (bytes : Bytes) : Nat := (readHeaders bytes).1.dataOffset.toNat

/-- The length of a file with all its rows. -/
def fullLength (bytes : Bytes) : Nat := 54 + fileHeight bytes * stride (fileWidth bytes)

/-- Where the pixel `(row, col)` of an image of height `h` and width `w` lies when the pixels start at `base`. -/
def pixelPos (base h w row col : Nat) : Nat := base + (h - 1 - row) * stride w + 3 * col

variable {F : Type} [Field F] {fs : FileSystem} {path bytes : Bytes} {buffer buffer' : Grid (Pixel F)} {img : Image F}
  {h w row col : Nat}

/-- The bytes after the headers. -/
theorem getElem?_file (file : FileHeader) (info : InfoHeader) (rest : Bytes) (n : Nat) :
    (file.bytes ++ (info.bytes ++ rest))[54 + n]? = rest[n]? := by
  have hf := file.length_bytes
  have hi := info.length_bytes
  rw [List.getElem?_append_right (by omega), List.getElem?_append_right (by omega), hf, hi]
  congr 1
  omega

/-- The rows below a pixel, and its own, end within the file. -/
theorem pixelPos_le (base : Nat) (hrow : row < h) (hcol : col < w) :
    pixelPos base h w row col + 3 ≤ base + (h - 1) * stride w + 3 * w := by
  have hmul : (h - 1 - row) * stride w ≤ (h - 1) * stride w := Nat.mul_le_mul_right _ (by omega)
  unfold pixelPos
  omega

theorem height_mul_stride (hh : 0 < h) : h * stride w = (h - 1) * stride w + stride w := by
  obtain ⟨k, rfl⟩ : ∃ k, h = k + 1 := ⟨h - 1, by omega⟩
  rw [Nat.add_sub_cancel, Nat.succ_mul]

/-- The header fields of an accepted file. -/
theorem readFile_headers (hfile : fs.content path = some bytes)
    (hok : readFile fs path buffer = some (.ok (img, buffer'))) :
    fileWidth bytes = img.width.toNat ∧ fileHeight bytes = img.height.toNat := by
  obtain ⟨rest, hbytes, -⟩ := readFile_ok hok
  rw [hfile, Option.some.injEq] at hbytes
  subst hbytes
  simp only [fileWidth, fileHeight, readHeaders_file, and_self]

/-- **The pixels of an accepted file**: those whose bytes are there are decoded from them, at their place behind the 54
bytes of the headers. -/
theorem readFile_pixel (hfile : fs.content path = some bytes)
    (hok : readFile fs path buffer = some (.ok (img, buffer'))) (hw : fileWidth bytes ≤ maxWidth) :
    Grid.Shape (fileHeight bytes) (fileWidth bytes) img.pixels ∧
      ∀ row col, row < fileHeight bytes → col < fileWidth bytes →
        pixelPos 54 (fileHeight bytes) (fileWidth bytes) row col + 3 ≤ bytes.length →
        img.pixels.get row col = pixelAt bytes (pixelPos 54 (fileHeight bytes) (fileWidth bytes) row col) := by
  obtain ⟨hwidth, hheight⟩ := readFile_headers hfile hok
  rw [hwidth] at hw ⊢
  rw [hheight]
  obtain ⟨rest, hbytes, hcheck⟩ := readFile_ok hok
  obtain ⟨px, hread, hshape, hcells⟩ := readFile_file hbytes hcheck hw buffer
  rw [hread, Option.some.injEq, Except.ok.injEq, Prod.mk.injEq] at hok
  have hpx : img.pixels = px := by rw [← hok.1]
  rw [hfile, Option.some.injEq] at hbytes
  subst hbytes
  rw [hpx]
  refine ⟨hshape, fun row col hrow hcol hpos => ?_⟩
  rw [length_file, pixelPos] at hpos
  have hback : img.height.toNat - 1 - (img.height.toNat - 1 - row) = row := by omega
  have hcell := hcells (img.height.toNat - 1 - row) col (by omega) hcol
  rw [hback] at hcell
  rw [hcell]
  have hs := le_stride img.width.toNat
  refine pixelAt_congr fun k hk => ?_
  have hcol3 : col * 3 + k < stride img.width.toNat := by omega
  have hrest : (img.height.toNat - 1 - row) * stride img.width.toNat + (col * 3 + k) < rest.length := by omega
  have hindex : pixelPos 54 img.height.toNat img.width.toNat row col + k =
      54 + ((img.height.toNat - 1 - row) * stride img.width.toNat + (col * 3 + k)) := by
    unfold pixelPos
    omega
  rw [rowReads_get hcol3 hrest, hindex, getElem?_file]

/-! ## Files that end early -/

/-- An admitted file is read without an exception. -/
theorem readFile_readable (hfile : fs.content path = some bytes) (hb : Readable bytes) (buffer : Grid (Pixel F)) :
    ∃ img buffer', readFile fs path buffer = some (.ok (img, buffer')) := by
  obtain ⟨file, info, rest, rfl⟩ := exists_headers _ hb.length
  have hcheck := hb.check
  have hw := hb.width
  rw [readHeaders_file] at hcheck hw
  obtain ⟨px, hread, -⟩ := readFile_file hfile hcheck hw buffer
  exact ⟨_, _, hread⟩

/-- **An incomplete file is never rejected.** A file that lacks part of its rows ought to be refused; that holds only of
the files that lack nothing, since every admitted file is read. All pixels are decoded from bytes of the file exactly
when nothing but padding of the last row is missing, or there is no pixel. -/
theorem readFile_rejects_iff (hfile : fs.content path = some bytes) (hb : Readable bytes) (buffer : Grid (Pixel F)) :
    ((bytes.length < fullLength bytes → ∃ message, readFile fs path buffer = some (.error (.readImage message))) ↔
      fullLength bytes ≤ bytes.length) ∧
    ((∀ img buffer', readFile fs path buffer = some (.ok (img, buffer')) →
        ∀ row col, row < fileHeight bytes → col < fileWidth bytes →
          img.pixels.get row col = pixelAt bytes (pixelPos 54 (fileHeight bytes) (fileWidth bytes) row col)) ↔
      fileHeight bytes = 0 ∨ fileWidth bytes = 0 ∨
        fullLength bytes ≤ bytes.length + (stride (fileWidth bytes) - 3 * fileWidth bytes)) := by
  obtain ⟨img, buffer', hok⟩ := readFile_readable hfile hb buffer
  obtain ⟨hshape, hpixel⟩ := readFile_pixel hfile hok hb.width
  have hs := le_stride (fileWidth bytes)
  refine ⟨⟨fun hthrow => ?_, fun hfull hshort => absurd hshort (by omega)⟩, fun hall => ?_, fun hrows => ?_⟩
  · by_contra hshort
    obtain ⟨message, herror⟩ := hthrow (by omega)
    rw [hok] at herror
    cases herror
  · by_cases hh : fileHeight bytes = 0
    · exact .inl hh
    by_cases hw : fileWidth bytes = 0
    · exact .inr (.inl hw)
    -- the last pixel of the highest row lies at the end of the file
    obtain ⟨p, hp⟩ := hshape.get (r := 0) (c := fileWidth bytes - 1) (by omega) (by omega)
    rw [hall img buffer' hok 0 _ (by omega) (by omega)] at hp
    have hlt := lt_of_pixelAt hp
    have hmul := height_mul_stride (w := fileWidth bytes) (Nat.pos_of_ne_zero hh)
    refine .inr (.inr ?_)
    unfold fullLength
    rw [pixelPos, Nat.sub_zero] at hlt
    omega
  · intro img' buffer'' hok' row col hrow hcol
    obtain ⟨-, hpixel'⟩ := readFile_pixel hfile hok' hb.width
    refine hpixel' row col hrow hcol ?_
    have hle := pixelPos_le 54 hrow hcol
    have hmul := height_mul_stride (w := fileWidth bytes) (h := fileHeight bytes) (by omega)
    unfold fullLength at hrows
    omega

/-- The headers of a picture of `w × h` pixels whose pixels start at `dataOffset`. -/
def sampleHeaders (dataOffset w h : UInt32) : Bytes :=
  FileHeader.bytes ⟨0x4D42, 58, 0, 0, dataOffset⟩ ++ InfoHeader.bytes ⟨40, w, h, 1, 24, 0, 4, 0, 0, 0, 0⟩

/-- One file at every path. -/
def FileSystem.holding (bytes : Bytes) : FileSystem := ⟨fun _ => some bytes, fun _ => some none⟩

/-- A complete picture of one pixel. -/
def onePixel : Bytes := sampleHeaders 54 1 1 ++ [3, 2, 1, 0]

theorem onePixel_readable : Readable onePixel := ⟨by decide, by decide, by decide⟩

/-- A complete picture of two rows of two pixels, the last row first. -/
def fourPixels : Bytes :=
  FileHeader.bytes ⟨0x4D42, 70, 0, 0, 54⟩ ++ InfoHeader.bytes ⟨40, 2, 2, 1, 24, 0, 16, 0, 0, 0, 0⟩ ++
    [3, 2, 1, 6, 5, 4, 0, 0, 9, 8, 7, 12, 11, 10, 0, 0]

theorem fourPixels_readable : Readable fourPixels := ⟨by decide, by decide, by decide⟩

/-- The pixel of a complete picture is decoded from its file. -/
theorem onePixel_read : ∃ img buffer',
    readFile (FileSystem.holding onePixel) [] ([] : Grid (Pixel ℚ)) = some (.ok (img, buffer')) ∧
      img.pixels.get 0 0 = pixelAt onePixel (pixelPos 54 (fileHeight onePixel) (fileWidth onePixel) 0 0) := by
  have hfile : (FileSystem.holding onePixel).content [] = some onePixel := rfl
  obtain ⟨img, buffer', hok⟩ := readFile_readable hfile onePixel_readable ([] : Grid (Pixel ℚ))
  have hall := (readFile_rejects_iff hfile onePixel_readable ([] : Grid (Pixel ℚ))).2.mpr (.inr (.inr (by decide)))
  exact ⟨img, buffer', hok, hall img buffer' hok 0 0 (by decide) (by decide)⟩

/-- A file without its only row is accepted. -/
theorem noRow_accepted : ¬ ∀ (fs : FileSystem) (path bytes : Bytes) (buffer : Grid (Pixel ℚ)),
    fs.content path = some bytes → Readable bytes → bytes.length < fullLength bytes →
      ∃ message, readFile fs path buffer = some (.error (.readImage message)) := by
  intro hclaim
  have hb : Readable (sampleHeaders 54 1 1) := ⟨by decide, by decide, by decide⟩
  have hfile : (FileSystem.holding (sampleHeaders 54 1 1)).content [] = some (sampleHeaders 54 1 1) := rfl
  obtain ⟨message, herror⟩ := hclaim _ [] _ [] hfile hb (by decide)
  obtain ⟨img, buffer', hok⟩ := readFile_readable hfile hb ([] : Grid (Pixel ℚ))
  rw [hok] at herror
  cases herror

/-! ## The data offset -/

/-- Equal components are equal bytes. -/
theorem toNat_div_inj [CharZero F] {a b : UInt8} (h : (a.toNat : F) / 255 = b.toNat / 255) : a = b := by
  have h255 : (255 : F) ≠ 0 := by norm_num
  have hcast := (div_left_inj' h255).mp h
  exact UInt8.toNat_inj.mp (Nat.cast_injective hcast)

/-- Equal pixels are equal bytes. -/
theorem pixelAt_inj [CharZero F] {bytes' : Bytes} {pos pos' : Nat} (hpos : pos + 2 < bytes.length)
    (h : (pixelAt bytes pos : Option (Pixel F)) = pixelAt bytes' pos') :
    ∀ k < 3, bytes[pos + k]? = bytes'[pos' + k]? := by
  obtain ⟨p, hp⟩ := pixelAt_isSome (F := F) hpos
  have hp' := hp
  rw [h] at hp'
  obtain ⟨blue, hblue, hp⟩ := Option.bind_eq_some_iff.mp hp
  obtain ⟨green, hgreen, hp⟩ := Option.bind_eq_some_iff.mp hp
  obtain ⟨red, hred, hp⟩ := Option.bind_eq_some_iff.mp hp
  obtain ⟨blue', hblue', hp'⟩ := Option.bind_eq_some_iff.mp hp'
  obtain ⟨green', hgreen', hp'⟩ := Option.bind_eq_some_iff.mp hp'
  obtain ⟨red', hred', hp'⟩ := Option.bind_eq_some_iff.mp hp'
  rw [Option.some.injEq] at hp hp'
  rw [← hp', Pixel.ofBytes, Pixel.ofBytes, Pixel.mk.injEq] at hp
  obtain ⟨hr, hg, hb⟩ := hp
  intro k hk
  match k, hk with
  | 0, _ => rw [Nat.add_zero, Nat.add_zero, hblue, hblue', toNat_div_inj hb]
  | 1, _ => rw [hgreen, hgreen', toNat_div_inj hg]
  | 2, _ => rw [hred, hred', toNat_div_inj hr]

/-- **When the pixels are those at `data_offset`**: exactly when every pixel has there the bytes it has behind the
headers, as in every file with `data_offset = 54`. -/
theorem readFile_dataOffset_iff [CharZero F] (hfile : fs.content path = some bytes)
    (hok : readFile fs path buffer = some (.ok (img, buffer'))) (hw : fileWidth bytes ≤ maxWidth)
    (hoffset : 54 ≤ fileDataOffset bytes)
    (hlen : fileDataOffset bytes + fileHeight bytes * stride (fileWidth bytes) ≤ bytes.length) :
    (∀ row col, row < fileHeight bytes → col < fileWidth bytes → img.pixels.get row col =
        pixelAt bytes (pixelPos (fileDataOffset bytes) (fileHeight bytes) (fileWidth bytes) row col)) ↔
      ∀ row col, row < fileHeight bytes → col < fileWidth bytes → ∀ k < 3,
        bytes[pixelPos 54 (fileHeight bytes) (fileWidth bytes) row col + k]? =
          bytes[pixelPos (fileDataOffset bytes) (fileHeight bytes) (fileWidth bytes) row col + k]? := by
  obtain ⟨-, hpixel⟩ := readFile_pixel hfile hok hw
  have hthere : ∀ row col, row < fileHeight bytes → col < fileWidth bytes →
      pixelPos 54 (fileHeight bytes) (fileWidth bytes) row col + 3 ≤ bytes.length := by
    intro row col hrow hcol
    have hle := pixelPos_le 54 hrow hcol
    have hmul := height_mul_stride (w := fileWidth bytes) (h := fileHeight bytes) (by omega)
    have hs := le_stride (fileWidth bytes)
    omega
  constructor
  · intro hall row col hrow hcol
    have heq := hall row col hrow hcol
    have hpos := hthere row col hrow hcol
    rw [hpixel row col hrow hcol hpos] at heq
    exact pixelAt_inj (by omega) heq
  · intro hbytes row col hrow hcol
    rw [hpixel row col hrow hcol (hthere row col hrow hcol)]
    exact pixelAt_congr (hbytes row col hrow hcol)

/-- A picture of four pixels with `data_offset = 58`, whose bytes repeat every four. -/
def shiftedPixels : Bytes :=
  sampleHeaders 58 2 2 ++ [9, 7, 5, 3, 9, 7, 5, 3, 9, 7, 5, 3, 9, 7, 5, 3, 9, 7, 5, 3]

/-- Behind the headers every pixel has the bytes that it has at `data_offset`. -/
theorem shiftedPixels_dataOffset : ∃ img buffer',
    readFile (FileSystem.holding shiftedPixels) [] ([] : Grid (Pixel ℚ)) = some (.ok (img, buffer')) ∧
      ∀ row col, row < 2 → col < 2 → img.pixels.get row col = pixelAt shiftedPixels (pixelPos 58 2 2 row col) := by
  have hfile : (FileSystem.holding shiftedPixels).content [] = some shiftedPixels := rfl
  have hb : Readable shiftedPixels := ⟨by decide, by decide, by decide⟩
  obtain ⟨img, buffer', hok⟩ := readFile_readable hfile hb ([] : Grid (Pixel ℚ))
  have hsides : fileDataOffset shiftedPixels = 58 ∧ fileHeight shiftedPixels = 2 ∧ fileWidth shiftedPixels = 2 := by
    decide
  obtain ⟨hoffset, hheight, hwidth⟩ := hsides
  have hsame := readFile_dataOffset_iff hfile hok (by decide) (by decide) (by decide)
  rw [hoffset, hheight, hwidth] at hsame
  have hperiod : ∀ row < 2, ∀ col < 2, ∀ k < 3, shiftedPixels[pixelPos 54 2 2 row col + k]? =
      shiftedPixels[pixelPos 58 2 2 row col + k]? := by decide
  exact ⟨img, buffer', hok, hsame.mpr fun row col hrow hcol => hperiod row hrow col hcol⟩

/-- Four bytes between the headers and the pixel. -/
def gapFile : Bytes := sampleHeaders 58 1 1 ++ [0, 0, 0, 0, 3, 2, 1, 0]

/-- The picture is read from the gap. -/
theorem gap_misread : ¬ ∀ (fs : FileSystem) (path bytes : Bytes) (buffer buffer' : Grid (Pixel ℚ)) (img : Image ℚ),
    fs.content path = some bytes → readFile fs path buffer = some (.ok (img, buffer')) →
    fileWidth bytes ≤ maxWidth → 54 ≤ fileDataOffset bytes →
    fileDataOffset bytes + fileHeight bytes * stride (fileWidth bytes) ≤ bytes.length →
    ∀ row col, row < fileHeight bytes → col < fileWidth bytes → img.pixels.get row col =
      pixelAt bytes (pixelPos (fileDataOffset bytes) (fileHeight bytes) (fileWidth bytes) row col) := by
  intro hclaim
  have hb : Readable gapFile := ⟨by decide, by decide, by decide⟩
  have hfile : (FileSystem.holding gapFile).content [] = some gapFile := rfl
  obtain ⟨img, buffer', hok⟩ := readFile_readable hfile hb ([] : Grid (Pixel ℚ))
  obtain ⟨-, hpixel⟩ := readFile_pixel hfile hok hb.width
  have hgap := hpixel 0 0 (by decide) (by decide) (by decide)
  have hpix := hclaim _ [] _ [] buffer' img hfile hok hb.width (by decide) (by decide) 0 0 (by decide) (by decide)
  have heq := pixelAt_inj (by decide) (hgap.symm.trans hpix)
  exact absurd (heq 0 (by decide)) (by decide)

end HighLoad.ImageProcessor
