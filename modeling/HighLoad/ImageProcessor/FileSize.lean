import Mathlib.Order.Monotone.Basic
import HighLoad.ImageProcessor.Effects
import HighLoad.ImageProcessor.Pipeline
import HighLoad.ImageProcessor.RoundTrip

/-!
# The size in the file header

A file that was written completely is its headers and `height` rows of `stride width` bytes, of the sides that the
filters left (`written_sizes`), while `file_size` is what `ReadFile` read: a crop updates `image_size` only. So the
two agree after a pipeline exactly when no crop made the rows fewer or their padded length smaller, or there are no
pixels (`fileSize_iff`).
-/

namespace HighLoad.ImageProcessor

open ByteString Loop

/-! ## Bytes written -/

/-- These bytes were written between the two, unless the later one has failed. -/
def Writes (bytes : Bytes) (file file' : OFStream) : Prop :=
  file'.fail = false → file.fail = false ∧ file'.written = file.written ++ bytes

theorem Writes.nil (file : OFStream) : Writes [] file file := fun hf => ⟨hf, (List.append_nil _).symm⟩

theorem Writes.trans {b b' : Bytes} {f₁ f₂ f₃ : OFStream} (h : Writes b f₁ f₂) (h' : Writes b' f₂ f₃) :
    Writes (b ++ b') f₁ f₃ := by
  intro hf
  obtain ⟨hf₂, hw'⟩ := h' hf
  obtain ⟨hf₁, hw⟩ := h hf₂
  exact ⟨hf₁, by rw [hw', hw, List.append_assoc]⟩

theorem write_writes (file : OFStream) (bytes : Bytes) : Writes bytes file (file.write bytes) := by
  intro hf
  unfold OFStream.write at hf ⊢
  split at hf
  case isTrue hfail => rw [hfail] at hf; cases hf
  case isFalse hok =>
    rw [if_neg hok]
    have hok' : file.fail = false := Bool.eq_false_iff.mpr hok
    split at hf
    case h_1 => exact ⟨hok', rfl⟩
    case h_2 room _ =>
      split at hf
      case isTrue hroom =>
        rw [if_pos hroom]
        exact ⟨hok', rfl⟩
      case isFalse => cases hf

theorem writeFileHeader_writes (file : OFStream) (h : FileHeader) : Writes h.bytes file (writeFileHeader file h) :=
  (write_writes _ _).trans ((write_writes _ _).trans ((write_writes _ _).trans ((write_writes _ _).trans
    (write_writes _ _))))

theorem writeInfoHeader_writes (file : OFStream) (h : InfoHeader) : Writes h.bytes file (writeInfoHeader file h) :=
  (write_writes _ _).trans ((write_writes _ _).trans ((write_writes _ _).trans ((write_writes _ _).trans
    ((write_writes _ _).trans ((write_writes _ _).trans ((write_writes _ _).trans ((write_writes _ _).trans
      ((write_writes _ _).trans ((write_writes _ _).trans (write_writes _ _))))))))))

section Write

variable {F : Type} [Field F] [LinearOrder F] [FloorRing F] {pixels : Grid (Pixel F)} {info : InfoHeader}

theorem setByte_length {buffer buffer' : Bytes} {i : Nat} {b : UInt8} (h : setByte buffer i b = some buffer') :
    buffer'.length = buffer.length := by
  obtain ⟨-, hb⟩ := Option.ite_none_right_eq_some.mp h
  rw [← Option.some.inj hb, List.length_set]

/-- A pass over the columns keeps the size of the row buffer. -/
theorem encodePixel_length {row col : Nat} {buffer buffer' : Bytes}
    (h : encodePixel pixels row col buffer = some buffer') : buffer'.length = buffer.length := by
  obtain ⟨pos, -, h⟩ := Option.bind_eq_some_iff.mp h
  obtain ⟨p, -, h⟩ := Option.bind_eq_some_iff.mp h
  obtain ⟨b₁, h₁, h⟩ := Option.bind_eq_some_iff.mp h
  obtain ⟨b₂, h₂, h⟩ := Option.bind_eq_some_iff.mp h
  rw [setByte_length h, setByte_length h₂, setByte_length h₁]

/-- Every row takes the size of the row buffer. -/
theorem writePixels_writes {file file' : OFStream} (h : writePixels file info pixels = some file') :
    ∃ rows, rows.length = info.height.toNat * bufferSize info.width ∧ Writes rows file file' := by
  obtain ⟨⟨file'', buffer⟩, hrun, rfl⟩ := Option.map_eq_some_iff.mp h
  have hI := upTo_inv (fun n (s : OFStream × Bytes) => s.2.length = bufferSize info.width ∧
      ∃ rows, rows.length = n * bufferSize info.width ∧ Writes rows file s.1)
    ⟨List.length_replicate, [], (Nat.zero_mul _).symm, .nil file⟩ (fun n s t hn ⟨hlen, rows, hrows, hw⟩ hrow => by
      obtain ⟨file₁, buffer₁⟩ := s
      obtain ⟨buffer₂, hcols, rfl⟩ := Option.map_eq_some_iff.mp hrow
      have hcol := upTo_inv (fun _ (b : Bytes) => b.length = buffer₁.length) rfl
        (fun c b b' _ hb hpass => (encodePixel_length hpass).trans hb) hcols
      have hlen₂ : buffer₂.length = bufferSize info.width := hcol.trans hlen
      refine ⟨hlen₂, rows ++ buffer₂, ?_, hw.trans (write_writes file₁ buffer₂)⟩
      rw [List.length_append, hrows, hlen₂, Nat.succ_mul]) hrun
  exact hI.2

/-- **A file that was written completely** is the headers and the rows. -/
theorem writeFile_writes {fs : FileSystem} {path : Bytes} {img : Image F} {file : OFStream}
    (h : writeFile fs path img = some (.ok file)) (hfail : file.fail = false) :
    ∃ rows, file.written = img.toFileHeader.bytes ++ (img.toInfoHeader.bytes ++ rows) ∧
      rows.length = img.height.toNat * bufferSize img.width := by
  unfold writeFile at h
  split at h
  case h_1 => cases h
  case h_2 room _ =>
    obtain ⟨file', hpx, he⟩ := Option.map_eq_some_iff.mp h
    cases he
    obtain ⟨rows, hlen, hrows⟩ := writePixels_writes hpx
    have hall := (writeFileHeader_writes ⟨[], room, false⟩ img.toFileHeader).trans
      ((writeInfoHeader_writes _ img.toInfoHeader).trans hrows)
    exact ⟨rows, (hall hfail).2, hlen⟩

end Write

/-! ## Sides after crops -/

/-- `file_size` of the file header. -/
def headerFileSize (bytes : Bytes) : Nat := (readHeaders bytes).1.fileSize.toNat

variable {F : Type}

/-- No crop makes the rows of the file fewer or their padded length smaller. -/
def KeepsRows (filters : List (Filter F)) (h w : Nat) : Prop :=
  ∀ width height, .crop width height ∈ filters →
    h ≤ toU32 height.toInt ∧ stride w ≤ stride (toU32 width.toInt)

theorem stride_mono : Monotone stride := by
  intro a b hab
  unfold stride
  omega

theorem stride_eq_zero {w : Nat} : stride w = 0 ↔ w = 0 := by
  unfold stride
  omega

theorem foldl_min_le (l : List Nat) (n : Nat) : l.foldl min n ≤ n := by
  induction l generalizing n with
  | nil => exact Nat.le_refl n
  | cons x l ih => exact (ih (min n x)).trans (Nat.min_le_left n x)

/-- A minimum whose image under a monotone function is that of the first number. -/
theorem foldl_min_eq_iff {g : Nat → Nat} (hg : Monotone g) (l : List Nat) (n : Nat) :
    g (l.foldl min n) = g n ↔ ∀ x ∈ l, g n ≤ g x := by
  induction l generalizing n with
  | nil =>
    simp only [List.foldl_nil, List.not_mem_nil, false_imp_iff, implies_true]
  | cons x l ih =>
    rw [List.foldl_cons, List.forall_mem_cons]
    rcases le_total n x with hle | hle
    · rw [min_eq_left hle, ih]
      exact (and_iff_right (hg hle)).symm
    · rw [min_eq_right hle]
      constructor
      · intro h
        have hlow : g (l.foldl min x) ≤ g x := hg (foldl_min_le l x)
        have heq : g x = g n := le_antisymm (hg hle) (h ▸ hlow)
        exact ⟨heq.ge, heq ▸ (ih x).mp (h.trans heq.symm)⟩
      · intro ⟨hx, hl⟩
        have heq : g x = g n := le_antisymm (hg hle) hx
        exact ((ih x).mpr (heq ▸ hl)).trans heq

/-- A product of two numbers that are not greater. -/
theorem mul_eq_mul_iff_of_le {a a' b b' : Nat} (ha : a' ≤ a) (hb : b' ≤ b) :
    a * b = a' * b' ↔ a = 0 ∨ b = 0 ∨ a' = a ∧ b' = b := by
  constructor
  · intro h
    rcases Nat.eq_zero_or_pos a with h0 | hapos
    · exact .inl h0
    rcases Nat.eq_zero_or_pos b with h0 | hbpos
    · exact .inr (.inl h0)
    have hmid : a' * b' ≤ a' * b := Nat.mul_le_mul_left a' hb
    have haa : a' = a := le_antisymm ha (Nat.le_of_mul_le_mul_right (h.trans_le hmid) hbpos)
    subst haa
    exact .inr (.inr ⟨rfl, (Nat.eq_of_mul_eq_mul_left hapos h).symm⟩)
  · rintro (rfl | rfl | ⟨rfl, rfl⟩)
    · rw [Nat.le_zero.mp ha, Nat.zero_mul, Nat.zero_mul]
    · rw [Nat.le_zero.mp hb, Nat.mul_zero, Nat.mul_zero]
    · rfl

theorem keepsRows_iff (filters : List (Filter F)) (h w : Nat) :
    KeepsRows filters h w ↔ heightAfter filters h = h ∧ stride (widthAfter filters w) = stride w := by
  have hheight : heightAfter filters h = h ↔ ∀ n ∈ filters.filterMap Filter.heightLimit, h ≤ n := by
    rw [heightAfter_eq]
    exact foldl_min_eq_iff (g := id) monotone_id _ h
  rw [hheight, widthAfter_eq, foldl_min_eq_iff stride_mono]
  constructor
  · intro hk
    constructor
    · intro n hn
      obtain ⟨f, hf, hlimit⟩ := List.mem_filterMap.mp hn
      cases f with
      | crop width height =>
        cases hlimit
        exact (hk width height hf).1
      | _ => cases hlimit
    · intro n hn
      obtain ⟨f, hf, hlimit⟩ := List.mem_filterMap.mp hn
      cases f with
      | crop width height =>
        cases hlimit
        exact (hk width height hf).2
      | _ => cases hlimit
  · intro ⟨hheights, hwidths⟩ width height hf
    exact ⟨hheights _ (List.mem_filterMap.mpr ⟨_, hf, rfl⟩), hwidths _ (List.mem_filterMap.mpr ⟨_, hf, rfl⟩)⟩

theorem heightAfter_le (filters : List (Filter F)) (h : Nat) : heightAfter filters h ≤ h := by
  rw [heightAfter_eq]
  exact foldl_min_le _ h

theorem widthAfter_le (filters : List (Filter F)) (w : Nat) : widthAfter filters w ≤ w := by
  rw [widthAfter_eq]
  exact foldl_min_le _ w

/-! ## The written file -/

section Pipeline

variable [Field F] [LinearOrder F] [FloorRing F] {libm : Libm F} {fs fs' : FileSystem} {path path' bytes : Bytes}
  {img : Image F} {buffer buffer' : Grid (Pixel F)} {matrix : Matrix F} {filters : List (Filter F)} {q : Process F}
  {file : OFStream}

/-- The header keeps the size that was read; the length is that of the sides after the crops. -/
theorem written_sizes (hfile : fs.content path = some bytes)
    (hok : readFile fs path buffer = some (.ok (img, buffer'))) (hw : fileWidth bytes ≤ maxWidth)
    (hrun : applyFilters libm filters ⟨img, buffer', matrix⟩ = some (q, none))
    (hwrite : writeFile fs' path' q.image = some (.ok file)) (hfail : file.fail = false) :
    headerFileSize file.written = headerFileSize bytes ∧ file.written.length =
      54 + heightAfter filters (fileHeight bytes) * stride (widthAfter filters (fileWidth bytes)) := by
  obtain ⟨hwidth, hheight⟩ := readFile_headers hfile hok
  obtain ⟨hqh, hqw, hqf⟩ := applyFilters_sides hrun
  dsimp only at hqh hqw hqf
  rw [← hheight] at hqh
  rw [← hwidth] at hqw
  obtain ⟨rows, hwritten, hrows⟩ := writeFile_writes hwrite hfail
  have hsize : headerFileSize bytes = img.fileSize.toNat := by
    obtain ⟨rest, hbytes, -⟩ := readFile_ok hok
    rw [hfile, Option.some.injEq] at hbytes
    rw [hbytes, headerFileSize, readHeaders_file]
  have hq : q.image.width.toNat ≤ maxWidth := by
    rw [hqw]
    exact (widthAfter_le filters _).trans hw
  constructor
  · rw [hsize, hwritten, headerFileSize, readHeaders_file, hqf]
  · rw [hwritten, length_file, hrows, bufferSize_eq hq, hqh, hqw]

/-- **A crop leaves `file_size` stale**: of a picture whose header gave its full length, the written file does exactly
when there was no pixel or no crop made the rows fewer or their padded length smaller. -/
theorem fileSize_iff (hfile : fs.content path = some bytes)
    (hok : readFile fs path buffer = some (.ok (img, buffer'))) (hsize : headerFileSize bytes = fullLength bytes)
    (hw : fileWidth bytes ≤ maxWidth) (hrun : applyFilters libm filters ⟨img, buffer', matrix⟩ = some (q, none))
    (hwrite : writeFile fs' path' q.image = some (.ok file)) (hfail : file.fail = false) :
    headerFileSize file.written = file.written.length ↔
      fileHeight bytes = 0 ∨ fileWidth bytes = 0 ∨ KeepsRows filters (fileHeight bytes) (fileWidth bytes) := by
  obtain ⟨hheader, hlength⟩ := written_sizes hfile hok hw hrun hwrite hfail
  have hmono : stride (widthAfter filters (fileWidth bytes)) ≤ stride (fileWidth bytes) :=
    stride_mono (widthAfter_le filters _)
  rw [hheader, hsize, hlength, fullLength, Nat.add_left_cancel_iff,
    mul_eq_mul_iff_of_le (heightAfter_le filters _) hmono, stride_eq_zero, keepsRows_iff]

end Pipeline

/-- `-crop 1 1` of a complete picture. -/
theorem crop_written (hr : Readable bytes) (hh : fileHeight bytes < 2 ^ 31) :
    ∃ (img : Image ℚ) (buffer' : Grid (Pixel ℚ)) (q : Process ℚ) (file : OFStream),
      readFile (FileSystem.holding bytes) [] [] = some (.ok (img, buffer')) ∧
        applyFilters noLibm [.crop 1 1] ⟨img, buffer', []⟩ = some (q, none) ∧
        writeFile (FileSystem.holding bytes) [] q.image = some (.ok file) ∧ file.fail = false := by
  have hfile : (FileSystem.holding bytes).content [] = some bytes := rfl
  obtain ⟨img, buffer', hok⟩ := readFile_readable hfile hr ([] : Grid (Pixel ℚ))
  obtain ⟨hwidth, hheight⟩ := readFile_headers hfile hok
  have hw : img.width.toNat ≤ maxWidth := hwidth ▸ hr.width
  have hs : Shaped ⟨img, buffer', []⟩ := readFile_shaped hok hw (hheight ▸ hh) []
  obtain ⟨q, hq, hsq⟩ := crop_shaped hs 1 1
  have hrun : applyFilters noLibm [.crop 1 1] ⟨img, buffer', []⟩ = some (q, none) := by
    rw [applyFilters, Filter.apply, hq]
    rfl
  obtain ⟨-, hqw, -⟩ := applyFilters_sides hrun
  have hle : q.image.width.toNat ≤ maxWidth := by
    rw [hqw]
    exact (widthAfter_le _ _).trans hw
  obtain ⟨rows, hwrite, -⟩ : ∃ rows, writeFile (FileSystem.holding bytes) [] q.image = _ ∧ _ :=
    writeFile_bytes rfl hle hsq.pixels
  exact ⟨img, buffer', q, _, hok, hrun, hwrite, rfl⟩

/-- A crop of the picture of one pixel that cuts nothing. -/
theorem onePixel_fileSize : ∃ img buffer' q file,
    readFile (FileSystem.holding onePixel) [] ([] : Grid (Pixel ℚ)) = some (.ok (img, buffer')) ∧
      applyFilters noLibm [.crop 1 1] ⟨img, buffer', []⟩ = some (q, none) ∧
      writeFile (FileSystem.holding onePixel) [] q.image = some (.ok file) ∧
      headerFileSize file.written = file.written.length := by
  obtain ⟨img, buffer', q, file, hok, hrun, hwrite, hfail⟩ := crop_written onePixel_readable (by decide)
  have hkeeps : KeepsRows [(.crop 1 1 : Filter ℚ)] (fileHeight onePixel) (fileWidth onePixel) := by
    rw [keepsRows_iff]
    decide
  exact ⟨img, buffer', q, file, hok, hrun, hwrite,
    (fileSize_iff rfl hok (by decide) (by decide) hrun hwrite hfail).mpr (.inr (.inr hkeeps))⟩

/-- A picture of two rows of one pixel. -/
def twoRows : Bytes :=
  FileHeader.bytes ⟨0x4D42, 62, 0, 0, 54⟩ ++ InfoHeader.bytes ⟨40, 1, 2, 1, 24, 0, 8, 0, 0, 0, 0⟩ ++
    [3, 2, 1, 0, 6, 5, 4, 0]

/-- Cropped to one row, the picture is written as 58 bytes, with 62 in the header. -/
theorem twoRows_stale : ¬ ∀ (fs fs' : FileSystem) (path path' bytes : Bytes) (img : Image ℚ)
    (buffer buffer' : Grid (Pixel ℚ)) (filters : List (Filter ℚ)) (q : Process ℚ) (file : OFStream),
    fs.content path = some bytes → readFile fs path buffer = some (.ok (img, buffer')) →
    headerFileSize bytes = fullLength bytes → fileWidth bytes ≤ maxWidth →
    fileHeight bytes * stride (fileWidth bytes) < 2 ^ 31 →
    applyFilters noLibm filters ⟨img, buffer', []⟩ = some (q, none) → writeFile fs' path' q.image = some (.ok file) →
    file.fail = false → headerFileSize file.written = file.written.length := by
  intro hclaim
  have hreadable : Readable twoRows := ⟨by decide, by decide, by decide⟩
  obtain ⟨img, buffer', q, file, hok, hrun, hwrite, hfail⟩ := crop_written hreadable (by decide)
  have hsizes :=
    hclaim _ _ [] [] _ img [] buffer' _ q file rfl hok (by decide) (by decide) (by decide) hrun hwrite hfail
  obtain ⟨hheader, hlength⟩ := written_sizes rfl hok (by decide) hrun hwrite hfail
  rw [hheader, hlength] at hsizes
  exact absurd hsizes (by decide)

end HighLoad.ImageProcessor
