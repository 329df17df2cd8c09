import HighLoad.ImageProcessor.CommandLine
import HighLoad.ImageProcessor.CropSize
import HighLoad.ImageProcessor.Numerals
import HighLoad.ImageProcessor.Tunnel

/-!
# The order of the operands

`HELP_INFO` gives the operands of a crop as height and width and the centre of a tunnel as x and y. The fabrics take the
width first and the row of the centre first. So both options do what the help says only where the order does not matter:
a crop to equal sides, or to sides none of which is less than one of the picture (`crop_documented_iff`), and a tunnel
whose centre is on the diagonal (`tunnel_documented_iff`).

The rotation is stated in the complex plane, with the columns as the real axis (`rotatedFrom`). With the operands that
the fabrics accept no cast of `Tunnel` overflows, and it computes this rotation (`tunnelOrigin_eq`).
-/

namespace HighLoad.ImageProcessor

open ByteString

/-! ## One option -/

section Command

variable {F : Type} [Field F] [LinearOrder F] [FloorRing F] {libm : Libm F} {paths : Paths}
  {inputPath : Bytes}

/-- The filters of a command line, applied to the image that was read. -/
def applyCommand (libm : Libm F) (paths : Paths) (argv : List Bytes) (p : Process F) :
    Option (Process F × Option Exn) :=
  match parse paths argv with
  | some (.parser parser) => applyFilters libm parser.filters p
  | _ => none

/-- A command line of one option applies its filter. -/
theorem applyCommand_one (libm : Libm F) (program outputPath : Bytes) (hpath : pathCheck paths inputPath = .ok ())
    (i : Invocation) {filter : Filter F} (hmake : i.make = .ok filter) (p : Process F) :
    applyCommand libm paths ([program, inputPath, outputPath] ++ i.words) p = filter.apply libm p := by
  have hargc : 3 ≤ ([program, inputPath, outputPath] ++ i.words).length := by simp
  have hwords : ([program, inputPath, outputPath] ++ i.words).drop 3 = [i].flatMap Invocation.words := by simp
  have hfilters : [i].map Invocation.make = [filter].map Except.ok := by simp [hmake]
  obtain ⟨output, -, hparse⟩ := (commandLine_complete F hargc rfl hpath).2 [i] [filter] hwords hfilters
  unfold applyCommand
  rw [hparse]
  exact applyFilters_one libm filter p

end Command

/-! ## Crop -/

section Crop

variable {F : Type} [Field F] [LinearOrder F] [FloorRing F] {libm : Libm F} {paths : Paths}
  {program inputPath outputPath a b : Bytes} {p : Process F}

/-- `-crop a b` leaves `a` rows of `b` columns, or as many as there are. -/
def CropAsDocumented (libm : Libm F) (paths : Paths) (command : List Bytes) (a b : Bytes) (p : Process F) : Prop :=
  ∃ q, applyCommand libm paths (command ++ [ascii "-crop", a, b]) p = some (q, none) ∧
    q.image.height.toNat = min (digitsValue a) p.image.height.toNat ∧
      q.image.width.toNat = min (digitsValue b) p.image.width.toNat

omit [Field F] [LinearOrder F] [FloorRing F] in
/-- The fabric takes the first operand for the width. -/
theorem CropFabric.make_positive (ha : isInteger a = .ok ()) (hb : isInteger b = .ok ()) (hapos : 1 ≤ digitsValue a)
    (hbpos : 1 ≤ digitsValue b) :
    CropFabric.make a b = .ok (.crop (Int16.ofInt (digitsValue a)) (Int16.ofInt (digitsValue b)) : Filter F) := by
  have hda := (isInteger_iff.mp ha).2
  have hdb := (isInteger_iff.mp hb).2
  rw [CropFabric.make, hb, (isNotNull_digits hdb).mpr hbpos, ha, (isNotNull_digits hda).mpr hapos, atoi_digits hda,
    atoi_digits hdb]
  rfl

/-- What exchanged limits leave of two sides. -/
theorem min_exchanged {m n h w : Nat} : min n h = min m h ∧ min m w = min n w ↔
    m = n ∨ h ≤ m ∧ h ≤ n ∧ w ≤ m ∧ w ≤ n := by
  omega

/-- **A crop is as documented** when its operands are equal or cut nothing off. -/
theorem crop_documented_iff (hpath : pathCheck paths inputPath = .ok ()) (ha : isInteger a = .ok ())
    (hb : isInteger b = .ok ()) (hapos : 1 ≤ digitsValue a) (hale : digitsValue a ≤ 32767) (hbpos : 1 ≤ digitsValue b)
    (hble : digitsValue b ≤ 32767) (p : Process F) :
    CropAsDocumented libm paths [program, inputPath, outputPath] a b p ↔
      digitsValue a = digitsValue b ∨ p.image.height.toNat ≤ digitsValue a ∧ p.image.height.toNat ≤ digitsValue b ∧
        p.image.width.toNat ≤ digitsValue a ∧ p.image.width.toNat ≤ digitsValue b := by
  have hrun : applyCommand libm paths ([program, inputPath, outputPath] ++ [ascii "-crop", a, b]) p = _ :=
    applyCommand_one libm program outputPath hpath (.crop a b) (CropFabric.make_positive ha hb hapos hbpos) p
  have hheight : sideAfter (Int16.ofInt (digitsValue b)) p.image.height.toNat =
      some (min (digitsValue b) p.image.height.toNat) := (sideAfter_iff (by omega)).mpr (.inl hble)
  have hwidth : sideAfter (Int16.ofInt (digitsValue a)) p.image.width.toNat =
      some (min (digitsValue a) p.image.width.toNat) := (sideAfter_iff (by omega)).mpr (.inl hale)
  rw [← min_exchanged, ← Option.some_inj (a := min (digitsValue b) _), ← hheight,
    ← Option.some_inj (a := min (digitsValue a) _), ← hwidth, ← crop_sides]
  constructor
  · rintro ⟨q, hq, hsides⟩
    rw [hrun] at hq
    exact ⟨q, (map_none_some hq).1, hsides⟩
  · rintro ⟨q, hq, hsides⟩
    refine ⟨q, hrun.trans ?_, hsides⟩
    rw [Filter.apply, hq, Option.map_some]

end Crop

/-! ## The rotation -/

/-- The pixel at `(row, col)`, seen from the centre. -/
def offsetFrom (centerRow centerCol row col : Nat) : ℂ := ⟨col - centerCol, row - centerRow⟩

/-- A place turned about the centre: by `strength` at the centre, and by less the nearer it is to the radius. -/
noncomputable def turned (strength radius : ℝ) (z : ℂ) : ℂ :=
  z * Complex.exp ((strength * (1 - ‖z‖ / radius) : ℝ) * Complex.I)

/-- Where a rotation takes the pixel at `(row, col)` from. A pixel stays that is the centre, is not within the radius,
or would come from outside. -/
noncomputable def rotatedFrom (h w centerRow centerCol : Nat) (strength radius : ℝ) (row col : Nat) : Nat × Nat :=
  let z := offsetFrom centerRow centerCol row col
  let srcRow := centerRow + trunc (turned strength radius z).im
  let srcCol := centerCol + trunc (turned strength radius z).re
  if (‖z‖ < radius ∧ 0 < ‖z‖) ∧ 0 ≤ srcCol ∧ srcCol < w ∧ 0 ≤ srcRow ∧ srcRow < h then (srcRow.toNat, srcCol.toNat)
  else (row, col)

/-- A pixel at the radius or beyond it stays. -/
theorem rotatedFrom_far {h w centerRow centerCol row col : Nat} {strength radius : ℝ}
    (hfar : radius ≤ ‖offsetFrom centerRow centerCol row col‖) :
    rotatedFrom h w centerRow centerCol strength radius row col = (row, col) := if_neg fun h => hfar.not_gt h.1.1

/-- Two columns away from the centre. -/
theorem offset_far_column (centerRow row : Nat) {centerCol col : Nat} (h : col + 2 ≤ centerCol) :
    3 / 2 ≤ ‖offsetFrom centerRow centerCol row col‖ := by
  have hcols : (col : ℝ) + 2 ≤ centerCol := by exact_mod_cast h
  calc (3 / 2 : ℝ) ≤ centerCol - col := by linarith
    _ ≤ |(centerCol : ℝ) - col| := le_abs_self _
    _ = |(offsetFrom centerRow centerCol row col).re| := abs_sub_comm _ _
    _ ≤ ‖offsetFrom centerRow centerCol row col‖ := Complex.abs_re_le_norm _

/-- Two rows away from the centre. -/
theorem offset_far_row (centerCol col : Nat) {centerRow row : Nat} (h : row + 2 ≤ centerRow) :
    3 / 2 ≤ ‖offsetFrom centerRow centerCol row col‖ := by
  have hrows : (row : ℝ) + 2 ≤ centerRow := by exact_mod_cast h
  calc (3 / 2 : ℝ) ≤ centerRow - row := by linarith
    _ ≤ |(centerRow : ℝ) - row| := le_abs_self _
    _ = |(offsetFrom centerRow centerCol row col).im| := abs_sub_comm _ _
    _ ≤ ‖offsetFrom centerRow centerCol row col‖ := Complex.abs_im_le_norm _

/-- Turning adds to the angle. -/
theorem turned_polar (strength radius : ℝ) (z : ℂ) :
    (turned strength radius z).re = ‖z‖ * Real.cos (z.arg + strength * (1 - ‖z‖ / radius)) ∧
      (turned strength radius z).im = ‖z‖ * Real.sin (z.arg + strength * (1 - ‖z‖ / radius)) := by
  generalize hangle : strength * (1 - ‖z‖ / radius) = angle
  have hpolar : turned strength radius z = ‖z‖ * Complex.exp ((z.arg + angle : ℝ) * Complex.I) := by
    rw [turned, hangle, Complex.ofReal_add, add_mul, Complex.exp_add, ← mul_assoc, Complex.norm_mul_exp_arg_mul_I]
  rw [hpolar, Complex.re_ofReal_mul, Complex.im_ofReal_mul, Complex.exp_ofReal_mul_I_re, Complex.exp_ofReal_mul_I_im]
  exact ⟨rfl, rfl⟩

theorem tunnelDistance_norm (centerRow centerCol row col : Nat) :
    tunnelDistance realLibm centerRow centerCol row col = ‖offsetFrom centerRow centerCol row col‖ := by
  rw [Complex.norm_def, offsetFrom, Complex.normSq_mk, add_comm]
  show Real.sqrt _ = _
  simp only [Int.cast_sub, Int.cast_natCast]

/-- A short leg of a distance leads from the centre to an `int32_t`. -/
theorem wrap32_leg {distance trig : ℝ} {center : Nat} (hd : 0 ≤ distance ∧ distance < 2 ^ 30)
    (ht : -1 ≤ trig ∧ trig ≤ 1) (hc : center < 2 ^ 30) :
    wrap32 (center + toInt32 (distance * trig)) = center + trunc (distance * trig) := by
  have hcenter : 0 ≤ (center : Int) ∧ (center : Int) < 2 ^ 30 := by omega
  obtain ⟨hleg, hsum⟩ := leg_inInt hd ht hcenter
  rw [toInt32, wrap32_eq hleg.1 hleg.2, wrap32_eq hsum.1 hsum.2]

/-- **The tunnel computes the rotation**: within the operands that the fabrics accept no cast and no sum overflows. -/
theorem tunnelOrigin_eq {height width : UInt32} {centerRow centerCol : Nat} {strength radius : ℝ}
    (hrow : centerRow < 2 ^ 30) (hcol : centerCol < 2 ^ 30) (hradius : radius ≤ 2 ^ 30) :
    tunnelOrigin realLibm height width centerRow centerCol strength radius =
      rotatedFrom height.toNat width.toNat centerRow centerCol strength radius := by
  funext row col
  have hdist := tunnelDistance_norm centerRow centerCol row col
  obtain ⟨hre, him⟩ := turned_polar strength radius (offsetFrom centerRow centerCol row col)
  by_cases hbetween : ‖offsetFrom centerRow centerCol row col‖ < radius ∧ 0 < ‖offsetFrom centerRow centerCol row col‖
  case neg =>
    rw [tunnelOrigin_own (by rwa [hdist]), rotatedFrom]
    exact (if_neg fun h => hbetween h.1).symm
  case pos =>
    have hd : 0 ≤ ‖offsetFrom centerRow centerCol row col‖ ∧ ‖offsetFrom centerRow centerCol row col‖ < 2 ^ 30 :=
      ⟨hbetween.2.le, hbetween.1.trans_le hradius⟩
    have hz : offsetFrom centerRow centerCol row col = ⟨((col - centerCol : Int) : ℝ), ((row - centerRow : Int) : ℝ)⟩ := by
      simp [offsetFrom]
    have hangle : (offsetFrom centerRow centerCol row col).arg =
        realLibm.atan2 ((row - centerRow : Int) : ℝ) ((col - centerCol : Int) : ℝ) := congrArg Complex.arg hz
    have hsource : tunnelSource realLibm centerRow centerCol strength radius row col =
        some (centerRow + trunc (turned strength radius (offsetFrom centerRow centerCol row col)).im,
          centerCol + trunc (turned strength radius (offsetFrom centerRow centerCol row col)).re) := by
      rw [him, hre, ← wrap32_leg hd ⟨Real.neg_one_le_sin _, Real.sin_le_one _⟩ hrow,
        ← wrap32_leg hd ⟨Real.neg_one_le_cos _, Real.cos_le_one _⟩ hcol, hangle, ← hdist]
      have hbetween' : tunnelDistance realLibm centerRow centerCol row col < radius ∧
          0 < tunnelDistance realLibm centerRow centerCol row col := by rwa [hdist]
      exact if_pos hbetween'
    unfold tunnelOrigin rotatedFrom
    rw [hsource]
    simp only [hbetween, true_and, and_self]

/-! ## A small turn -/

/-- A pixel whose place is less than a pixel away from the centre, in both directions, comes from the centre. -/
theorem rotatedFrom_center {h w centerRow centerCol row col : Nat} {strength radius : ℝ}
    (hbetween : ‖offsetFrom centerRow centerCol row col‖ < radius ∧ 0 < ‖offsetFrom centerRow centerCol row col‖)
    (hre : |(turned strength radius (offsetFrom centerRow centerCol row col)).re| < 1)
    (him : |(turned strength radius (offsetFrom centerRow centerCol row col)).im| < 1)
    (hrow : centerRow < h) (hcol : centerCol < w) :
    rotatedFrom h w centerRow centerCol strength radius row col = (centerRow, centerCol) := by
  have hzero : ∀ {x : ℝ}, |x| < 1 → trunc x = 0 := by
    intro x hx
    obtain ⟨hlo, hhi⟩ := abs_lt.mp hx
    unfold trunc
    split
    case isTrue hpos => exact Int.floor_eq_zero_iff.mpr ⟨hpos, hhi⟩
    case isFalse hneg => exact Int.ceil_eq_zero_iff.mpr ⟨hlo, (not_le.mp hneg).le⟩
  unfold rotatedFrom
  dsimp only
  rw [hzero hre, hzero him, add_zero, add_zero, if_pos ⟨hbetween, by omega⟩]
  rfl

/-- The turn of a neighbour of the centre, with strength 1 and radius 1.5. -/
theorem turned_neighbour {z : ℂ} (hz : ‖z‖ = 1) :
    turned 1 (3 / 2) z = z * ⟨Real.cos (1 / 3), Real.sin (1 / 3)⟩ := by
  have hangle : (1 : ℝ) * (1 - ‖z‖ / (3 / 2)) = 1 / 3 := by
    rw [hz]
    norm_num
  rw [turned, hangle]
  refine congrArg (z * ·) (Complex.ext ?_ ?_)
  · exact Complex.exp_ofReal_mul_I_re _
  · exact Complex.exp_ofReal_mul_I_im _

theorem abs_trig_lt_one : |Real.cos (1 / 3)| < 1 ∧ |Real.sin (1 / 3)| < 1 := by
  have hpi := Real.two_le_pi
  have hsin : 0 < Real.sin (1 / 3) := Real.sin_pos_of_pos_of_lt_pi (by norm_num) (by linarith)
  have hcos : 0 < Real.cos (1 / 3) := Real.cos_pos_of_mem_Ioo ⟨by linarith, by linarith⟩
  have hsquares := Real.sin_sq_add_cos_sq (1 / 3)
  rw [← sq_lt_one_iff_abs_lt_one, ← sq_lt_one_iff_abs_lt_one]
  exact ⟨by linarith [pow_pos hsin 2], by linarith [pow_pos hcos 2]⟩

/-- The pixel above the centre. -/
theorem rotatedFrom_above {h w row col : Nat} (hrow : row + 1 < h) (hcol : col < w) :
    rotatedFrom h w (row + 1) col 1 (3 / 2) row col = (row + 1, col) := by
  have hz : offsetFrom (row + 1) col row col = ⟨0, -1⟩ := by simp [offsetFrom]
  have hnorm : ‖(⟨0, -1⟩ : ℂ)‖ = 1 := by simp [Complex.norm_def, Complex.normSq_mk]
  obtain ⟨hcos, hsin⟩ := abs_trig_lt_one
  refine rotatedFrom_center ?_ ?_ ?_ hrow hcol
  · rw [hz, hnorm]
    norm_num
  · rw [hz, turned_neighbour hnorm, Complex.mul_re]
    simpa using hsin
  · rw [hz, turned_neighbour hnorm, Complex.mul_im]
    simpa using hcos

/-- The pixel left of the centre. -/
theorem rotatedFrom_left {h w row col : Nat} (hrow : row < h) (hcol : col + 1 < w) :
    rotatedFrom h w row (col + 1) 1 (3 / 2) row col = (row, col + 1) := by
  have hz : offsetFrom row (col + 1) row col = ⟨-1, 0⟩ := by simp [offsetFrom]
  have hnorm : ‖(⟨-1, 0⟩ : ℂ)‖ = 1 := by simp [Complex.norm_def, Complex.normSq_mk]
  obtain ⟨hcos, hsin⟩ := abs_trig_lt_one
  refine rotatedFrom_center ?_ ?_ ?_ hrow hcol
  · rw [hz, hnorm]
    norm_num
  · rw [hz, turned_neighbour hnorm, Complex.mul_re]
    simpa using hcos
  · rw [hz, turned_neighbour hnorm, Complex.mul_im]
    simpa using hsin

/-! ## Tunnel -/

section Tunnel

variable {paths : Paths} {program inputPath outputPath x y s r : Bytes} {height width : UInt32} {row col : Nat}

/-- `-tunnel x y s r` on images of a size: the counters of the loops get as far as the sides, nothing is thrown, and the
pixels are rotated about column `x` and row `y`. -/
def TunnelAsDocumented (paths : Paths) (command : List Bytes) (x y : Bytes) (height width : UInt32) : Prop :=
  ∀ s r : Bytes, isFloat s = .ok () → isFloat r = .ok () → ∀ p : Process ℝ, p.image.height = height →
    p.image.width = width → Grid.Shape height.toNat width.toNat p.image.pixels →
      (InInt height.toNat ∧ InInt width.toNat) ∧
        ∃ px, applyCommand realLibm paths (command ++ [ascii "-tunnel", x, y, s, r]) p =
            some ({ p with image := { p.image with pixels := px } }, none) ∧
          Grid.Gathers height.toNat width.toNat (rotatedFrom height.toNat width.toNat (digitsValue y) (digitsValue x)
            (atof s) (atof r)) p.image.pixels px

theorem tunnel_command (hpath : pathCheck paths inputPath = .ok ()) (hx : isInteger x = .ok ())
    (hy : isInteger y = .ok ()) (hs : isFloat s = .ok ()) (hr : isFloat r = .ok ()) (p : Process ℝ) :
    applyCommand realLibm paths ([program, inputPath, outputPath] ++ [ascii "-tunnel", x, y, s, r]) p =
      tunnel realLibm (digitsValue x) (digitsValue y) (atof s) (atof r) p := by
  have hmake : TunnelFabric.make x y s r =
      .ok (.tunnel (digitsValue x) (digitsValue y) (atof s) (atof r) : Filter ℝ) := by
    rw [TunnelFabric.make, hx, hy, hs, hr, atoi_digits (isInteger_iff.mp hx).2, atoi_digits (isInteger_iff.mp hy).2]
    rfl
  exact applyCommand_one realLibm program outputPath hpath (.tunnel x y s r) hmake p

theorem tunnelCenter_pos {n : Nat} (h : 1 ≤ n) (side : UInt32) : tunnelCenter n side = n := if_pos (by omega)

/-- **What the code computes**: a rotation about row `x` and column `y`. -/
theorem tunnel_exchanged {p : Process ℝ} {m n : Nat} (hm : 1 ≤ m) (hn : 1 ≤ n) (hmlt : m < p.image.height.toNat)
    (hnlt : n < p.image.width.toNat) (hm30 : m < 2 ^ 30) (hn30 : n < 2 ^ 30) {strength radius : ℝ}
    (hradius : radius ≤ 2 ^ 30) (hpx : Grid.Shape p.image.height.toNat p.image.width.toNat p.image.pixels) :
    ∃ px, tunnel realLibm m n strength radius p = some ({ p with image := { p.image with pixels := px } }, none) ∧
      Grid.Gathers p.image.height.toNat p.image.width.toNat
        (rotatedFrom p.image.height.toNat p.image.width.toNat m n strength radius) p.image.pixels px := by
  have hin : CenterInside m n p.image := by
    rw [CenterInside, tunnelCenter_pos hm, tunnelCenter_pos hn]
    omega
  obtain ⟨px, hrun, hgathers⟩ := tunnel_gathers realLibm strength radius hpx hin
  rw [tunnelCenter_pos hm, tunnelCenter_pos hn, tunnelOrigin_eq hm30 hn30 hradius] at hgathers
  exact ⟨px, hrun, hgathers⟩

/-- Every pixel carries its own place. -/
noncomputable def placed (height width : UInt32) : Process ℝ :=
  painted height width (fun row col => ⟨row, col, 0⟩) fun _ _ => Pixel.zero

/-- An integer operand is below `2 ^ 30`. -/
theorem operand_lt (h : isInteger s = .ok ()) : digitsValue s < 2 ^ 30 := by
  obtain ⟨hlen, hdigits⟩ := isInteger_iff.mp h
  exact (digitsValue_short hlen hdigits).trans (by decide)

/-- A pixel that a rotation about row `x` and column `y` leaves where it is, but the documented one does not, shows the
difference. -/
theorem tunnel_undocumented (hpath : pathCheck paths inputPath = .ok ()) (hx : isInteger x = .ok ())
    (hy : isInteger y = .ok ()) (hxpos : 1 ≤ digitsValue x) (hypos : 1 ≤ digitsValue y) (hrow : row < height.toNat)
    (hcol : col < width.toNat) (hfar : 3 / 2 ≤ ‖offsetFrom (digitsValue x) (digitsValue y) row col‖)
    (hmoved : rotatedFrom height.toNat width.toNat (digitsValue y) (digitsValue x) 1 (3 / 2) row col =
      (digitsValue y, digitsValue x)) (hne : row ≠ digitsValue y ∨ col ≠ digitsValue x) :
    ¬TunnelAsDocumented paths [program, inputPath, outputPath] x y height width := by
  intro h
  have hone : (atof (ascii "1") : ℝ) = 1 := by
    show ((1 : Nat) : ℝ) + ((0 : Nat) : ℝ) / 10 ^ 0 = 1
    norm_num
  have hhalf : (atof (ascii "1.5") : ℝ) = 3 / 2 := by
    show ((1 : Nat) : ℝ) + ((5 : Nat) : ℝ) / 10 ^ 1 = 3 / 2
    norm_num
  obtain ⟨-, px, hrun, hgathers⟩ := h (ascii "1") (ascii "1.5") rfl rfl (placed height width) rfl rfl
    (painted_shape _ _ _ _)
  rw [tunnel_command hpath hx hy rfl rfl, hone, hhalf] at hrun
  rw [hone, hhalf] at hgathers
  by_cases hin : CenterInside (digitsValue x) (digitsValue y) (placed height width).image
  case neg =>
    rw [tunnel_throws realLibm 1 (3 / 2) hin] at hrun
    cases hrun
  case pos =>
    rw [CenterInside, tunnelCenter_pos hxpos, tunnelCenter_pos hypos] at hin
    obtain ⟨px', hrun', hgathers'⟩ := tunnel_exchanged (p := placed height width) hxpos hypos (by omega) (by omega)
      (operand_lt hx) (operand_lt hy) (by norm_num : (3 / 2 : ℝ) ≤ 2 ^ 30) (painted_shape _ _ _ _)
    obtain rfl : px' = px := by
      have hpixels := congrArg (Option.map fun result => result.1.image.pixels) (hrun'.symm.trans hrun)
      exact Option.some.inj hpixels
    -- the two rotations read the pixel at two places
    have hcell := (hgathers'.cell row col hrow hcol).symm.trans (hgathers.cell row col hrow hcol)
    obtain ⟨hcenterRow, hcenterCol⟩ := hmoved ▸ hgathers.inside row col hrow hcol
    rw [rotatedFrom_far hfar, hmoved] at hcell
    have hplaces := (Grid.get_tabulate hrow hcol _).symm.trans
      (hcell.trans (Grid.get_tabulate hcenterRow hcenterCol _))
    obtain ⟨hr, hc⟩ := Pixel.mk.inj (Option.some.inj hplaces)
    rcases hne with hne | hne
    · exact hne (by exact_mod_cast hr)
    · exact hne (by exact_mod_cast hc.1)

/-- Off the diagonal a neighbour of the documented centre stays. -/
theorem tunnel_diagonal (hpath : pathCheck paths inputPath = .ok ()) (hx : isInteger x = .ok ())
    (hy : isInteger y = .ok ()) (hxpos : 1 ≤ digitsValue x) (hxlt : digitsValue x < width.toNat)
    (hypos : 1 ≤ digitsValue y) (hylt : digitsValue y < height.toNat)
    (h : TunnelAsDocumented paths [program, inputPath, outputPath] x y height width) :
    digitsValue x = digitsValue y := by
  rcases Nat.lt_trichotomy (digitsValue x) (digitsValue y) with hlt | heq | hgt
  · -- the pixel left of the documented centre is at least two columns from the other one
    exfalso
    obtain ⟨col, hcol⟩ := Nat.exists_eq_add_of_le' hxpos
    have hfar := offset_far_column (digitsValue x) (digitsValue y) (by omega : col + 2 ≤ digitsValue y)
    have hmoved := rotatedFrom_left (h := height.toNat) hylt (hcol ▸ hxlt)
    rw [← hcol] at hmoved
    exact tunnel_undocumented hpath hx hy hxpos hypos hylt (by omega) hfar hmoved (.inr (by omega)) h
  · exact heq
  · -- the pixel above the documented centre is at least two rows from the other one
    exfalso
    obtain ⟨row, hrow⟩ := Nat.exists_eq_add_of_le' hypos
    have hfar := offset_far_row (digitsValue y) (digitsValue x) (by omega : row + 2 ≤ digitsValue x)
    have hmoved := rotatedFrom_above (w := width.toNat) (hrow ▸ hylt) hxlt
    rw [← hrow] at hmoved
    exact tunnel_undocumented hpath hx hy hxpos hypos (by omega) hxlt hfar hmoved (.inl (by omega)) h

/-- **A tunnel is as documented** when its centre is on the diagonal and the counters reach the sides. -/
theorem tunnel_documented_iff (hpath : pathCheck paths inputPath = .ok ()) (hx : isInteger x = .ok ())
    (hy : isInteger y = .ok ()) (hxpos : 1 ≤ digitsValue x) (hxlt : digitsValue x < width.toNat)
    (hypos : 1 ≤ digitsValue y) (hylt : digitsValue y < height.toNat) :
    TunnelAsDocumented paths [program, inputPath, outputPath] x y height width ↔
      digitsValue x = digitsValue y ∧ height.toNat < 2 ^ 31 ∧ width.toNat < 2 ^ 31 := by
  constructor
  · intro h
    obtain ⟨⟨hheight, hwidth⟩, -⟩ := h (ascii "1") (ascii "1") rfl rfl (placed height width) rfl rfl
      (painted_shape _ _ _ _)
    exact ⟨tunnel_diagonal hpath hx hy hxpos hxlt hypos hylt h, by exact_mod_cast hheight.2,
      by exact_mod_cast hwidth.2⟩
  · rintro ⟨heq, hheight, hwidth⟩ s r hs hr p rfl rfl hpx
    have hradius : (atof r : ℝ) ≤ 2 ^ 30 := (atof_lt hr).le.trans (by norm_num)
    obtain ⟨px, hrun, hgathers⟩ := tunnel_exchanged hxpos hypos (heq ▸ hylt) (heq ▸ hxlt) (operand_lt hx)
      (operand_lt hy) hradius hpx
    refine ⟨⟨⟨by omega, by omega⟩, ⟨by omega, by omega⟩⟩, px, ?_, ?_⟩
    · rw [tunnel_command hpath hx hy hs hr, hrun]
    · rw [← heq] at hgathers ⊢
      exact hgathers

end Tunnel

/-! ## Both options -/

/-- **The operands bind as documented** exactly where the order of the operands makes no difference: for a crop, where
they are equal or cut nothing off; for a tunnel, where the centre is on the diagonal (and the counters reach the
sides). -/
theorem operands_documented_iff {paths : Paths} {inputPath : Bytes} (program outputPath : Bytes)
    (hpath : pathCheck paths inputPath = .ok ()) :
    (∀ a b : Bytes, isInteger a = .ok () → isInteger b = .ok () → 1 ≤ digitsValue a ∧ digitsValue a ≤ 32767 →
      1 ≤ digitsValue b ∧ digitsValue b ≤ 32767 → ∀ p : Process ℝ,
        (CropAsDocumented realLibm paths [program, inputPath, outputPath] a b p ↔
          digitsValue a = digitsValue b ∨ p.image.height.toNat ≤ digitsValue a ∧ p.image.height.toNat ≤ digitsValue b ∧
            p.image.width.toNat ≤ digitsValue a ∧ p.image.width.toNat ≤ digitsValue b)) ∧
    ∀ x y : Bytes, isInteger x = .ok () → isInteger y = .ok () → ∀ height width : UInt32,
      1 ≤ digitsValue x ∧ digitsValue x < width.toNat → 1 ≤ digitsValue y ∧ digitsValue y < height.toNat →
        (TunnelAsDocumented paths [program, inputPath, outputPath] x y height width ↔
          digitsValue x = digitsValue y ∧ height.toNat < 2 ^ 31 ∧ width.toNat < 2 ^ 31) := by
  constructor
  · intro a b ha hb haval hbval p
    exact crop_documented_iff hpath ha hb haval.1 haval.2 hbval.1 hbval.2 p
  · intro x y hx hy height width hxval hyval
    exact tunnel_documented_iff hpath hx hy hxval.1 hxval.2 hyval.1 hyval.2

/-- `-crop 2 2` on nine pixels and `-tunnel 1 1` on four. -/
theorem equalOperands_documented :
    CropAsDocumented realLibm allFiles [ascii "image_processor", ascii "in.bmp", ascii "out.bmp"] (ascii "2")
        (ascii "2") (placed 3 3) ∧
      TunnelAsDocumented allFiles [ascii "image_processor", ascii "in.bmp", ascii "out.bmp"] (ascii "1") (ascii "1")
        2 2 := by
  have hpath : pathCheck allFiles (ascii "in.bmp") = .ok () := rfl
  obtain ⟨hcrop, htunnel⟩ := operands_documented_iff (ascii "image_processor") (ascii "out.bmp") hpath
  constructor
  · exact (hcrop _ _ rfl rfl (by decide) (by decide) _).mpr (.inl rfl)
  · exact (htunnel _ _ rfl rfl 2 2 (by decide) (by decide)).mpr ⟨rfl, by decide, by decide⟩

/-- `-crop 1 2` on four pixels, and `-tunnel 2 1` on two rows of three. -/
theorem exchangedOperands_undocumented :
    ¬CropAsDocumented realLibm allFiles [ascii "image_processor", ascii "in.bmp", ascii "out.bmp"] (ascii "1")
        (ascii "2") (placed 2 2) ∧
      ¬TunnelAsDocumented allFiles [ascii "image_processor", ascii "in.bmp", ascii "out.bmp"] (ascii "2") (ascii "1")
        2 3 := by
  have hpath : pathCheck allFiles (ascii "in.bmp") = .ok () := rfl
  constructor
  · intro h
    have hcond := (crop_documented_iff hpath rfl rfl (by decide) (by decide) (by decide) (by decide) _).mp h
    exact absurd hcond (by decide)
  · intro h
    have hcond := (tunnel_documented_iff hpath rfl rfl (by decide) (by decide) (by decide) (by decide)).mp h
    exact absurd hcond (by decide)

end HighLoad.ImageProcessor
