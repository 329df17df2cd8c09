import HighLoad.ImageProcessor.Writer
import HighLoad.ImageProcessor.Pixels

/-!
# Writing to a device that is full

The `catch` clauses of `ImageWriter` wait for an exception that no write throws: a stream on a device that is full sets
its `badbit`, which nobody looks at. So `WriteFile` writes what fits and returns normally (`writeFile_limited`), at
whatever byte the device stops (`writeFile_unreported`).
-/

namespace HighLoad.ImageProcessor

open ByteString Loop OFStream

variable {F : Type} [Field F] [LinearOrder F] [FloorRing F] {info : InfoHeader} {pixels : Grid (Pixel F)} {room : Nat}
  {written : Bytes} {fs : FileSystem} {path : Bytes} {img : Image F}

/-! ## The rows -/

/-- Nothing has stopped the stream. -/
def Unlimited (s : OFStream × Bytes) : Prop := s.1 = ⟨s.1.written, none, false⟩

theorem writeRow_unlimited (row : Nat) {s t : OFStream × Bytes} (hs : Unlimited s)
    (h : writeRow info pixels row s = some t) : Unlimited t := by
  obtain ⟨file, buffer⟩ := s
  obtain ⟨buffer', -, rfl⟩ := Option.map_eq_some_iff.mp h
  have hfile : file = ⟨file.written, none, false⟩ := hs
  rw [hfile]
  rfl

/-- A row goes to both devices alike. -/
theorem writeRow_limited (row : Nat) {s : OFStream × Bytes} (hs : Unlimited s) :
    writeRow info pixels row (limited room s.1.written, s.2) =
      (writeRow info pixels row s).map fun s => (limited room s.1.written, s.2) := by
  obtain ⟨file, buffer⟩ := s
  have hfile : file = ⟨file.written, none, false⟩ := hs
  rw [hfile]
  unfold writeRow
  dsimp only
  rw [Option.map_map]
  refine congrArg (Option.map · _) (funext fun buffer' => ?_)
  rw [write_limited]
  rfl

theorem writePixels_limited (room : Nat) (written : Bytes) (info : InfoHeader) (pixels : Grid (Pixel F)) :
    writePixels (limited room written) info pixels =
      (writePixels ⟨written, none, false⟩ info pixels).map fun file => limited room file.written := by
  have hstart : Unlimited ((⟨written, none, false⟩ : OFStream), List.replicate (bufferSize info.width) 0) := rfl
  have hloop : upTo (writeRow info pixels) info.height.toNat
      (limited room written, List.replicate (bufferSize info.width) 0) =
      (upTo (writeRow info pixels) info.height.toNat
        (⟨written, none, false⟩, List.replicate (bufferSize info.width) 0)).map
        fun s => (limited room s.1.written, s.2) :=
    upTo_map (f := fun s => (limited room s.1.written, s.2)) Unlimited (fun i s t => writeRow_unlimited i)
      (fun i s => writeRow_limited i) hstart
  rw [writePixels, hloop, writePixels, Option.map_map, Option.map_map]
  rfl

/-! ## The file -/

/-- **What `WriteFile` leaves on a device that accepts `room` bytes**: the first ones of the headers and the rows. It
returns normally. -/
theorem writeFile_limited (hdevice : fs.device path = some (some room)) (hw : img.width.toNat ≤ maxWidth)
    (hpx : Grid.Shape img.height.toNat img.width.toNat img.pixels) :
    ∃ rows, writeFile fs path img =
        some (.ok (limited room (img.toFileHeader.bytes ++ (img.toInfoHeader.bytes ++ rows)))) ∧
      Encodes img.height.toNat img.width.toNat img.pixels rows := by
  obtain ⟨rows, hwrite, hrows⟩ := writePixels_spec hw hpx (img.toFileHeader.bytes ++ img.toInfoHeader.bytes)
  refine ⟨rows, ?_, hrows⟩
  have hstart : limited room [] = ⟨[], some room, false⟩ := by
    rw [limited, List.take_nil, List.length_nil, Nat.sub_zero, decide_eq_false (Nat.not_lt_zero room)]
  unfold writeFile
  rw [hdevice]
  dsimp only
  rw [← hstart, writeFileHeader_limited, writeInfoHeader_limited, List.nil_append, writePixels_limited, hwrite,
    Option.map_some, Option.map_some, List.append_assoc]

/-- The headers and the rows of an image. -/
def fileBytes (img : Image F) : Nat := 54 + img.height.toNat * stride img.width.toNat

/-- Its length is that of the file. -/
theorem length_written {rows : Bytes} (h : Encodes img.height.toNat img.width.toNat img.pixels rows) :
    (img.toFileHeader.bytes ++ (img.toInfoHeader.bytes ++ rows)).length = fileBytes img := by
  rw [List.length_append, List.length_append, FileHeader.length_bytes, InfoHeader.length_bytes, h.length, fileBytes,
    ← Nat.add_assoc]

/-- `WriteFile` throws a `WriteImageException`. -/
def Reports (fs : FileSystem) (path : Bytes) (img : Image F) : Prop :=
  ∃ m, writeFile fs path img = some (.error (.writeImage m))

/-- **No failed write is reported**: wherever the device stops before the end of the file, `WriteFile` throws nothing
and returns normally, with the bytes that were accepted and a stream that has failed. -/
theorem writeFile_unreported (hdevice : fs.device path = some (some room)) (hw : img.width.toNat ≤ maxWidth)
    (hpx : Grid.Shape img.height.toNat img.width.toNat img.pixels) (hroom : room < fileBytes img) :
    ¬Reports fs path img ∧ ∃ file, writeFile fs path img = some (.ok file) ∧ file.written.length = room ∧
      file.written.length ≠ fileBytes img ∧ file.fail = true := by
  obtain ⟨rows, hwrite, hrows⟩ := writeFile_limited hdevice hw hpx
  have hlen := length_written hrows
  refine ⟨?_, _, hwrite, ?_⟩
  · rintro ⟨m, hm⟩
    rw [hwrite] at hm
    cases hm
  · have haccepted : (limited room (img.toFileHeader.bytes ++ (img.toInfoHeader.bytes ++ rows))).written.length =
        room := by
      rw [limited, List.length_take, hlen]
      exact Nat.min_eq_left hroom.le
    refine ⟨haccepted, ?_, ?_⟩
    · rw [haccepted]
      exact hroom.ne
    · rw [limited, hlen]
      exact decide_eq_true hroom

/-- A device that accepts `room` bytes at every path. -/
def deviceOf (room : Nat) : FileSystem := ⟨fun _ => none, fun _ => some (some room)⟩

/-- One pixel on a device that stops in the last byte of its padding. -/
theorem onePixel_unreported : ¬Reports (deviceOf 57) [] (oneRow 1 Pixel.zero Pixel.zero).image := by
  have hs : Shaped (oneRow 1 Pixel.zero Pixel.zero) := oneRow_shaped (by decide) _ _
  have hdevice : (deviceOf 57).device [] = some (some 57) := rfl
  exact (writeFile_unreported hdevice (by decide) hs.pixels (by decide)).1

/-- One pixel on a device that accepts nothing. -/
theorem fullDevice_unreported : ¬∀ (fs : FileSystem) (path : Bytes) (img : Image ℚ) (room : Nat),
    fs.device path = some (some room) → img.width.toNat ≤ maxWidth → img.height.toNat < 2 ^ 31 →
      Grid.Shape img.height.toNat img.width.toNat img.pixels → room < fileBytes img → Reports fs path img := by
  intro h
  have hs : Shaped (oneRow 1 Pixel.zero Pixel.zero) := oneRow_shaped (by decide) _ _
  have hdevice : (deviceOf 0).device [] = some (some 0) := rfl
  obtain ⟨m, hm⟩ := h (deviceOf 0) [] _ 0 hdevice (by decide) hs.height hs.pixels (by decide)
  obtain ⟨rows, hwrite, -⟩ := writeFile_limited hdevice (by decide) hs.pixels
  rw [hwrite] at hm
  cases hm

end HighLoad.ImageProcessor
