import Mathlib.Data.Rat.Floor
import HighLoad.ImageProcessor.FilePositions
import HighLoad.ImageProcessor.Writer

/-!
# The BMP round trip

Reading what was written gives the image back with its components cut to bytes (`read_written`), and writing what was
read gives the file back when it has all its rows and zero padding (`written_read`): reader and writer agree on header
fields, row order, channel order and padding. `bmp_roundTrip` is both.
-/

namespace HighLoad.ImageProcessor

open ByteString

variable {F : Type} [Field F] {fs fs' : FileSystem} {path path' : Bytes} {buffer buffer' : Grid (Pixel F)}
  {img : Image F} {h w i c : Nat} {rest rows bytes : Bytes}

/-- A pixel of a file, counted from the end of the headers. -/
theorem pixelAt_file (file : FileHeader) (info : InfoHeader) (rest : Bytes) (n : Nat) :
    (pixelAt (file.bytes ++ (info.bytes ++ rest)) (54 + n) : Option (Pixel F)) = pixelAt rest n :=
  pixelAt_congr fun k _ => by rw [Nat.add_assoc, getElem?_file]

/-- The pixels of an accepted file with all its rows. -/
theorem readFile_rows (hok : readFile fs path buffer = some (.ok (img, buffer')))
    (hfile : fs.content path = some (img.toFileHeader.bytes ++ (img.toInfoHeader.bytes ++ rest)))
    (hw : img.width.toNat ≤ maxWidth)
    (hlen : rest.length = img.height.toNat * stride img.width.toNat) :
    Grid.Shape img.height.toNat img.width.toNat img.pixels ∧
      ∀ i c, i < img.height.toNat → c < img.width.toNat →
        img.pixels.get (img.height.toNat - 1 - i) c = pixelAt rest (i * stride img.width.toNat + c * 3) := by
  obtain ⟨hwidth, hheight⟩ := readFile_headers hfile hok
  obtain ⟨hshape, hpixel⟩ := readFile_pixel hfile hok (hwidth ▸ hw)
  rw [hwidth, hheight] at hshape hpixel
  refine ⟨hshape, fun i c hi hc => ?_⟩
  have hrow : img.height.toNat - 1 - i < img.height.toNat := by omega
  have hle := pixelPos_le 54 hrow hc
  have hmul := height_mul_stride (w := img.width.toNat) (h := img.height.toNat) (by omega)
  have hs := le_stride img.width.toNat
  have hindex : pixelPos 54 img.height.toNat img.width.toNat (img.height.toNat - 1 - i) c =
      54 + (i * stride img.width.toNat + c * 3) := by
    have hback : img.height.toNat - 1 - (img.height.toNat - 1 - i) = i := by omega
    rw [pixelPos, hback]
    omega
  rw [hpixel _ c hrow hc (by rw [length_file, hlen]; omega), hindex, pixelAt_file]

variable [LinearOrder F] [FloorRing F]

/-- The three bytes of an encoded pixel. -/
theorem Encodes.pixelAt {pixels : Grid (Pixel F)} {p : Pixel F} (hr : Encodes h w pixels rows) (hi : i < h) (hc : c < w)
    (hp : pixels.get (h - 1 - i) c = some p) : ImageProcessor.pixelAt rows (i * stride w + c * 3) =
      some (Pixel.ofBytes (getByte p.r) (getByte p.g) (getByte p.b) : Pixel F) := by
  have h0 := hr.pixel i c 0 p hi hc (by omega) hp
  have h1 := hr.pixel i c 1 p hi hc (by omega) hp
  have h2 := hr.pixel i c 2 p hi hc (by omega) hp
  unfold ImageProcessor.pixelAt
  rw [Nat.add_assoc, Nat.add_assoc, h1, h2, ← Nat.add_zero (c * 3), h0]
  rfl

variable [IsStrictOrderedRing F]

/-- A decoded pixel is written as the bytes it was decoded from. -/
theorem byte_pixelAt {pos k : Nat} {p : Pixel F} (hp : pixelAt bytes pos = some p) (hk : k < 3) :
    bytes[pos + k]? = some (p.byte k) := by
  obtain ⟨blue, hb, hp⟩ := Option.bind_eq_some_iff.mp hp
  obtain ⟨green, hg, hp⟩ := Option.bind_eq_some_iff.mp hp
  obtain ⟨red, hr, hp⟩ := Option.bind_eq_some_iff.mp hp
  rw [Option.some.injEq] at hp
  subst hp
  match k, hk with
  | 0, _ => exact hb.trans (congrArg some (getByte_div blue).symm)
  | 1, _ => exact hg.trans (congrArg some (getByte_div green).symm)
  | 2, _ => exact hr.trans (congrArg some (getByte_div red).symm)

/-- **Reading back what was written.** -/
theorem read_written (hcheck : check img.toFileHeader img.toInfoHeader = none) (hw : img.width.toNat ≤ maxWidth)
    (hpx : Grid.Shape img.height.toNat img.width.toNat img.pixels)
    (hunit : ∀ row col p, img.pixels.get row col = some p → p.Unit) (hdevice : fs.device path = some none) :
    ∃ file, writeFile fs path img = some (.ok file) ∧ file.fail = false ∧
      ∀ fs' path' (buffer : Grid (Pixel F)), FileSystem.content fs' path' = some file.written → ∃ buffer',
        readFile fs' path' buffer = some (.ok ({ img with pixels := img.pixels.map Pixel.quantize }, buffer')) := by
  obtain ⟨rows, hwrite, hrows⟩ := writeFile_bytes hdevice hw hpx
  refine ⟨_, hwrite, rfl, fun fs' path' buffer hfile => ?_⟩
  obtain ⟨px, hread, -⟩ := readFile_file hfile hcheck hw buffer
  let back : Image F := { img with pixels := px }
  have hback : readFile fs' path' buffer = some (.ok (back, _)) := hread
  obtain ⟨hshape, hcells⟩ : Grid.Shape img.height.toNat img.width.toNat px ∧
      ∀ i c, i < img.height.toNat → c < img.width.toNat →
        px.get (img.height.toNat - 1 - i) c = pixelAt rows (i * stride img.width.toNat + c * 3) :=
    readFile_rows hback hfile hw hrows.length
  have hpixels : px = img.pixels.map Pixel.quantize := by
    refine hshape.ext (hpx.map _) fun row col hrow hcol => ?_
    obtain ⟨p, hp⟩ := hpx.get hrow hcol
    have hrow' : img.height.toNat - 1 - (img.height.toNat - 1 - row) = row := by omega
    have hcell := hcells (img.height.toNat - 1 - row) col (by omega) hcol
    have hdecode := hrows.pixelAt (i := img.height.toNat - 1 - row) (by omega) hcol (by rw [hrow', hp])
    rw [hrow'] at hcell
    rw [hcell, hdecode, ofBytes_getByte (hunit row col p hp), Grid.get_map, hp]
    rfl
  exact ⟨_, by rw [hread, hpixels]⟩

/-- **Writing what was read.** -/
theorem written_read (hfile : fs.content path = some bytes) (hok : readFile fs path buffer = some (.ok (img, buffer')))
    (hw : img.width.toNat ≤ maxWidth) (hlen : bytes.length = 54 + img.height.toNat * stride img.width.toNat)
    (hpad : ∀ i j, i < img.height.toNat → 3 * img.width.toNat ≤ j → j < stride img.width.toNat →
      bytes[54 + (i * stride img.width.toNat + j)]? = some 0) (hdevice : fs'.device path' = some none) :
    ∃ file, writeFile fs' path' img = some (.ok file) ∧ file.fail = false ∧ file.written = bytes := by
  obtain ⟨rest, hbytes, -⟩ := readFile_ok hok
  rw [hfile, Option.some.injEq] at hbytes
  subst hbytes
  rw [length_file] at hlen
  obtain ⟨hshape, hcells⟩ := readFile_rows hok hfile hw (by omega)
  have hrest : Encodes img.height.toNat img.width.toNat img.pixels rest := by
    refine ⟨by omega, fun i c k p hi hc hk hp => ?_, fun i j hi hj hj' => ?_⟩
    · rw [hcells i c hi hc] at hp
      rw [← Nat.add_assoc]
      exact byte_pixelAt hp hk
    · rw [← getElem?_file img.toFileHeader img.toInfoHeader]
      exact hpad i j hi hj hj'
  obtain ⟨rows, hwrite, hrows⟩ := writeFile_bytes hdevice hw hshape
  exact ⟨_, hwrite, rfl, by rw [hrows.unique hshape hrest]⟩

omit fs fs' path path' buffer buffer' img h w i c rest rows bytes

/-- **The BMP round trip**: an image whose headers pass the check, with `height` rows of `width` pixels in `[0, 1]`, is
read back with every component `x` as `⌊255 x⌋ / 255`; an accepted file with all its rows and zero padding is written
back byte by byte. -/
theorem bmp_roundTrip :
    (∀ (img : Image F) (fs : FileSystem) (path : Bytes), check img.toFileHeader img.toInfoHeader = none →
      img.width.toNat ≤ maxWidth → Grid.Shape img.height.toNat img.width.toNat img.pixels →
      (∀ row col p, img.pixels.get row col = some p → p.Unit) → fs.device path = some none →
      ∃ file, writeFile fs path img = some (.ok file) ∧ file.fail = false ∧
        ∀ fs' path' (buffer : Grid (Pixel F)), FileSystem.content fs' path' = some file.written → ∃ buffer',
          readFile fs' path' buffer = some (.ok ({ img with pixels := img.pixels.map Pixel.quantize }, buffer'))) ∧
    (∀ (fs fs' : FileSystem) (path path' bytes : Bytes) (buffer buffer' : Grid (Pixel F)) (img : Image F),
      fs.content path = some bytes → readFile fs path buffer = some (.ok (img, buffer')) →
      img.width.toNat ≤ maxWidth → bytes.length = 54 + img.height.toNat * stride img.width.toNat →
      (∀ i j, i < img.height.toNat → 3 * img.width.toNat ≤ j → j < stride img.width.toNat →
        bytes[54 + (i * stride img.width.toNat + j)]? = some 0) → fs'.device path' = some none →
      ∃ file, writeFile fs' path' img = some (.ok file) ∧ file.fail = false ∧ file.written = bytes) :=
  ⟨fun _ _ _ hcheck hw hpx hunit hdevice => read_written hcheck hw hpx hunit hdevice,
    fun _ _ _ _ _ _ _ _ hfile hok hw hlen hpad hdevice => written_read hfile hok hw hlen hpad hdevice⟩

/-- A picture of two rows is written back. -/
theorem fourPixels_roundTrip : ∃ img buffer' file,
    readFile (FileSystem.holding fourPixels) [] ([] : Grid (Pixel ℚ)) = some (.ok (img, buffer')) ∧
      writeFile (FileSystem.holding fourPixels) [] img = some (.ok file) ∧ file.written = fourPixels := by
  have hfile : (FileSystem.holding fourPixels).content [] = some fourPixels := rfl
  obtain ⟨img, buffer', hok⟩ := readFile_readable hfile fourPixels_readable ([] : Grid (Pixel ℚ))
  obtain ⟨hwidth, hheight⟩ := readFile_headers hfile hok
  have hsides : fileWidth fourPixels = 2 ∧ fileHeight fourPixels = 2 := by decide
  rw [hsides.1] at hwidth
  rw [hsides.2] at hheight
  have hpad : ∀ i j, i < img.height.toNat → 3 * img.width.toNat ≤ j → j < stride img.width.toNat →
      fourPixels[54 + (i * stride img.width.toNat + j)]? = some 0 := by
    rw [← hwidth, ← hheight]
    have hzero : ∀ i < 2, ∀ j < 8, 6 ≤ j → fourPixels[54 + (i * 8 + j)]? = some 0 := by decide
    exact fun i j hi hj hj' => hzero i hi j hj' hj
  obtain ⟨file, hwrite, -, hwritten⟩ := bmp_roundTrip.2 _ (FileSystem.holding fourPixels) [] [] fourPixels [] buffer' img
    hfile hok (by rw [← hwidth]; decide) (by rw [← hwidth, ← hheight]; decide) hpad rfl
  exact ⟨img, buffer', file, hok, hwrite, hwritten⟩

end HighLoad.ImageProcessor
