import HighLoad.ImageProcessor.Libm
import HighLoad.ImageProcessor.Neighbours

/-!
# The tunnel

`Tunnel` gathers: every pixel is a copy of the pixel at a place that depends on the geometry only (`tunnelOrigin`),
itself where the place found lies outside the image (`tunnel_gathers`). So it commutes with every filter that rewrites
pixels one by one (`tunnel_map`). With sides below `2 ^ 29` no cast and no sum on the way overflows (`tunnel_defined`).
-/

namespace HighLoad.ImageProcessor

variable {F : Type} [Field F] [LinearOrder F] {libm : Libm F} {centerH centerW : Int} {strength radius : F}
  {p : Process F} {row col : Nat}

/-! ## Where a pixel comes from -/

/-- The distance of a pixel from the centre. -/
def tunnelDistance (libm : Libm F) (centerH centerW : Int) (row col : Nat) : F :=
  let dRow : F := ((row - centerH : Int) : F)
  let dCol : F := ((col - centerW : Int) : F)
  libm.sqrt (dRow * dRow + dCol * dCol)

section Origin

variable [FloorRing F]

/-- A pixel that is not between the centre and the radius stays. -/
theorem tunnelSource_none (h : ¬(tunnelDistance libm centerH centerW row col < radius ∧
      0 < tunnelDistance libm centerH centerW row col)) :
    tunnelSource libm centerH centerW strength radius row col = none := if_neg h

/-- The place that the pixel at `(row, col)` is copied from. -/
def tunnelOrigin (libm : Libm F) (height width : UInt32) (centerH centerW : Int) (strength radius : F) (row col : Nat) :
    Nat × Nat :=
  match tunnelSource libm centerH centerW strength radius row col with
  | none => (row, col)
  | some (srcRow, srcCol) =>
    if 0 ≤ srcCol ∧ srcCol < width.toNat ∧ 0 ≤ srcRow ∧ srcRow < height.toNat then (srcRow.toNat, srcCol.toNat)
    else (row, col)

/-- It lies within the image. -/
theorem tunnelOrigin_inside {height width : UInt32} (hrow : row < height.toNat) (hcol : col < width.toNat) :
    (tunnelOrigin libm height width centerH centerW strength radius row col).1 < height.toNat ∧
      (tunnelOrigin libm height width centerH centerW strength radius row col).2 < width.toNat := by
  unfold tunnelOrigin
  split
  case h_1 => exact ⟨hrow, hcol⟩
  case h_2 srcRow srcCol _ =>
    split
    case isFalse => exact ⟨hrow, hcol⟩
    case isTrue hin =>
      show srcRow.toNat < height.toNat ∧ srcCol.toNat < width.toNat
      omega

/-- The pixel written is the one there. -/
theorem tunnelPixel_eq {img : Image F} (hpx : Grid.Shape img.height.toNat img.width.toNat img.pixels)
    (hrow : row < img.height.toNat) (hcol : col < img.width.toNat) :
    tunnelPixel libm centerH centerW strength radius img row col =
      img.pixels.get (tunnelOrigin libm img.height img.width centerH centerW strength radius row col).1
        (tunnelOrigin libm img.height img.width centerH centerW strength radius row col).2 := by
  obtain ⟨px, hget⟩ := hpx.get hrow hcol
  unfold tunnelPixel tunnelOrigin
  rw [hget, Option.bind_some]
  cases tunnelSource libm centerH centerW strength radius row col with
  | none => exact hget.symm
  | some place =>
    obtain ⟨srcRow, srcCol⟩ := place
    dsimp only
    split
    case isTrue hin => exact if_pos ⟨hin.2.2.1, hin.1⟩
    case isFalse => exact hget.symm

/-- A pixel stays unless it is between the centre and the radius. -/
theorem tunnelOrigin_own {height width : UInt32} (h : ¬(tunnelDistance libm centerH centerW row col < radius ∧
      0 < tunnelDistance libm centerH centerW row col)) :
    tunnelOrigin libm height width centerH centerW strength radius row col = (row, col) := by
  unfold tunnelOrigin
  rw [tunnelSource_none h]

/-! ## The filter -/

/-- **A tunnel whose centre is inside the image gathers.** -/
theorem tunnel_gathers (libm : Libm F) (strength radius : F)
    (hpx : Grid.Shape p.image.height.toNat p.image.width.toNat p.image.pixels)
    (hin : CenterInside centerH centerW p.image) :
    ∃ px, tunnel libm centerH centerW strength radius p =
        some ({ p with image := { p.image with pixels := px } }, none) ∧
      Grid.Gathers p.image.height.toNat p.image.width.toNat
        (tunnelOrigin libm p.image.height p.image.width (tunnelCenter centerH p.image.height)
          (tunnelCenter centerW p.image.width) strength radius) p.image.pixels px := by
  obtain ⟨⟨hh, hh'⟩, hw, hw'⟩ := hin
  have hzero := Grid.shape_replicate p.image.height.toNat p.image.width.toNat (Pixel.zero : Pixel F)
  unfold tunnel
  dsimp only
  rw [if_neg (by omega), if_neg (by omega)]
  generalize tunnelCenter centerH p.image.height = centerH
  generalize tunnelCenter centerW p.image.width = centerW
  obtain ⟨px, hsweep, hshape, hcells⟩ := Grid.sweep_spec
    (f := fun row col _ => tunnelPixel libm centerH centerW strength radius p.image row col) hzero
    fun row col hrow hcol => by
      obtain ⟨old, hold⟩ := hzero.get hrow hcol
      obtain ⟨px, hpx⟩ := tunnelPixel_isSome hpx hrow hcol
      exact ⟨px, by rw [hold, Option.bind_some, hpx]⟩
  refine ⟨px, by rw [hsweep, Option.map_some], hshape, fun row col hrow hcol => tunnelOrigin_inside hrow hcol,
    fun row col hrow hcol => ?_⟩
  obtain ⟨old, hold⟩ := hzero.get hrow hcol
  rw [hcells row col hrow hcol, hold, Option.bind_some, tunnelPixel_eq hpx hrow hcol]

/-- Otherwise it throws, whatever the pixels are. -/
theorem tunnel_throws (libm : Libm F) (strength radius : F) (hout : ¬CenterInside centerH centerW p.image) :
    tunnel libm centerH centerW strength radius p = some (p, some (tunnelCenterError
      (if tunnelCenter centerH p.image.height < 0 ∨ p.image.height.toNat ≤ tunnelCenter centerH p.image.height then
        tunnelCenter centerH p.image.height else tunnelCenter centerW p.image.width))) := by
  unfold tunnel
  dsimp only
  split
  case isTrue => rfl
  case isFalse hh =>
    unfold CenterInside at hout
    rw [if_pos (by omega)]

/-- Rewrites every pixel. -/
def Process.mapPixels (f : Pixel F → Pixel F) (p : Process F) : Process F :=
  { p with image := { p.image with pixels := p.image.pixels.map f } }

/-- **The tunnel commutes with every filter that rewrites pixels one by one.** -/
theorem tunnel_map (libm : Libm F) (centerH centerW : Int) (strength radius : F) (f : Pixel F → Pixel F)
    (hpx : Grid.Shape p.image.height.toNat p.image.width.toNat p.image.pixels) :
    tunnel libm centerH centerW strength radius (p.mapPixels f) =
      (tunnel libm centerH centerW strength radius p).map (Prod.map (Process.mapPixels f) id) := by
  by_cases hin : CenterInside centerH centerW p.image
  · obtain ⟨px, htunnel, hgathers⟩ := tunnel_gathers libm strength radius hpx hin
    obtain ⟨px', htunnel', hgathers'⟩ := tunnel_gathers (p := p.mapPixels f) libm strength radius (hpx.map f) hin
    obtain rfl : px' = px.map f := hgathers'.unique (hgathers.map f)
    rw [htunnel, htunnel']
    rfl
  · rw [tunnel_throws libm strength radius hin, tunnel_throws (p := p.mapPixels f) libm strength radius hin]
    rfl

end Origin

/-! ## Casts and the division -/

section Defined

variable [IsStrictOrderedRing F]

/-- At the centre the distance is 0. -/
theorem tunnelDistance_center (hlibm : libm.Polar) (hrow : (row : Int) = centerH) (hcol : (col : Int) = centerW) :
    tunnelDistance libm centerH centerW row col = 0 := by
  have hzero := hlibm.sqrt_mul_self 0 (le_refl 0)
  unfold tunnelDistance
  simp only [hrow, hcol, sub_self, Int.cast_zero, mul_zero, add_zero]
  exact mul_self_eq_zero.mp hzero

/-- Within sides below `2 ^ 29` a distance is below `2 ^ 30`. -/
theorem tunnelDistance_mem (hlibm : libm.Polar) (hrow : |(row : Int) - centerH| ≤ 2 ^ 29)
    (hcol : |(col : Int) - centerW| ≤ 2 ^ 29) :
    0 ≤ tunnelDistance libm centerH centerW row col ∧ tunnelDistance libm centerH centerW row col < 2 ^ 30 := by
  have hsquare : ∀ d : Int, |d| ≤ 2 ^ 29 → (d : F) * d ≤ 2 ^ 58 := by
    intro d hd
    have hle : |d| * |d| ≤ 2 ^ 29 * 2 ^ 29 := mul_self_le_mul_self (abs_nonneg d) hd
    rw [abs_mul_abs_self, ← pow_add] at hle
    exact_mod_cast hle
  have hpos : 0 ≤ (((row : Int) - centerH : Int) : F) * ((row - centerH : Int) : F) +
      ((col - centerW : Int) : F) * ((col - centerW : Int) : F) := add_nonneg (mul_self_nonneg _) (mul_self_nonneg _)
  have hroot := hlibm.sqrt_mul_self _ hpos
  refine ⟨hlibm.sqrt_nonneg _ hpos, lt_of_mul_self_lt_mul_self₀ (by positivity) ?_⟩
  calc tunnelDistance libm centerH centerW row col * tunnelDistance libm centerH centerW row col
      = _ := hroot
    _ ≤ 2 ^ 58 + 2 ^ 58 := add_le_add (hsquare _ hrow) (hsquare _ hcol)
    _ < 2 ^ 30 * 2 ^ 30 := by norm_num

variable [FloorRing F]

/-- A leg of a distance, cut to an integer, and the coordinate that it leads to from the centre. -/
theorem leg_inInt {distance trig : F} {center : Int} (hd : 0 ≤ distance ∧ distance < 2 ^ 30)
    (ht : -1 ≤ trig ∧ trig ≤ 1) (hc : 0 ≤ center ∧ center < 2 ^ 30) :
    InInt (trunc (distance * trig)) ∧ InInt (center + trunc (distance * trig)) := by
  have hlo : -distance ≤ distance * trig := by
    rw [← mul_neg_one]
    exact mul_le_mul_of_nonneg_left ht.1 hd.1
  have hhi : distance * trig ≤ distance := mul_le_of_le_one_right hd.1 ht.2
  have hmem : -((2 ^ 30 : Int) : F) ≤ distance * trig ∧ distance * trig ≤ ((2 ^ 30 : Int) : F) := by
    have hcast : ((2 ^ 30 : Int) : F) = 2 ^ 30 := by norm_cast
    rw [hcast]
    exact ⟨(neg_le_neg hd.2.le).trans hlo, hhi.trans hd.2.le⟩
  obtain ⟨hge, hle⟩ := trunc_mem hmem
  unfold InInt
  omega

/-- What the code computes for a pixel is defined: it does not divide by a radius of 0, and at no angle a cast or a sum
leaves the `int32_t`. -/
structure TunnelDefined (libm : Libm F) (centerH centerW : Int) (radius : F) (row col : Nat) : Prop where
  division : tunnelDistance libm centerH centerW row col < radius → 0 < tunnelDistance libm centerH centerW row col →
    radius ≠ 0
  sine : ∀ angle, InInt (trunc (tunnelDistance libm centerH centerW row col * libm.sin angle)) ∧
    InInt (centerH + trunc (tunnelDistance libm centerH centerW row col * libm.sin angle))
  cosine : ∀ angle, InInt (trunc (tunnelDistance libm centerH centerW row col * libm.cos angle)) ∧
    InInt (centerW + trunc (tunnelDistance libm centerH centerW row col * libm.cos angle))

theorem tunnel_defined (hlibm : libm.Polar) {height width : UInt32} (hh : height.toNat < 2 ^ 29)
    (hw : width.toNat < 2 ^ 29) (hcenterH : 0 ≤ centerH ∧ centerH < height.toNat)
    (hcenterW : 0 ≤ centerW ∧ centerW < width.toNat) (radius : F) (hrow : row < height.toNat)
    (hcol : col < width.toNat) :
    TunnelDefined libm centerH centerW radius row col := by
  have hd : 0 ≤ tunnelDistance libm centerH centerW row col ∧ tunnelDistance libm centerH centerW row col < 2 ^ 30 := by
    refine tunnelDistance_mem hlibm (abs_le.mpr ?_) (abs_le.mpr ?_)
    · omega
    · omega
  refine ⟨fun hlt hpos => (hpos.trans hlt).ne', fun angle => ?_, fun angle => ?_⟩
  · exact leg_inInt hd (hlibm.sin_mem angle) (by omega)
  · exact leg_inInt hd (hlibm.cos_mem angle) (by omega)

/-- **The tunnel only moves pixels, and only inside its radius.** -/
theorem tunnel_moves (hlibm : libm.Polar) {height width : UInt32} (hh : height.toNat < 2 ^ 29)
    (hw : width.toNat < 2 ^ 29) (centerH centerW : Int) (strength radius : F) :
    ∃ src : Nat → Nat → Nat × Nat,
      (∀ row col : Nat, (row : Int) = tunnelCenter centerH height → (col : Int) = tunnelCenter centerW width →
        src row col = (row, col)) ∧
      (∀ row col, radius ≤ tunnelDistance libm (tunnelCenter centerH height) (tunnelCenter centerW width) row col →
        src row col = (row, col)) ∧
      ∀ p : Process F, p.image.height = height → p.image.width = width →
        Grid.Shape height.toNat width.toNat p.image.pixels →
        ((∃ e, tunnel libm centerH centerW strength radius p = some (p, some e)) ∨
          (∃ px, tunnel libm centerH centerW strength radius p =
              some ({ p with image := { p.image with pixels := px } }, none) ∧
            Grid.Gathers height.toNat width.toNat src p.image.pixels px) ∧
          ∀ row col, row < height.toNat → col < width.toNat →
            TunnelDefined libm (tunnelCenter centerH height) (tunnelCenter centerW width) radius row col) ∧
        tunnel libm centerH centerW strength radius (grayscale p) =
          (tunnel libm centerH centerW strength radius p).map (Prod.map grayscale id) ∧
        tunnel libm centerH centerW strength radius (negative p) =
          (tunnel libm centerH centerW strength radius p).map (Prod.map negative id) := by
  refine ⟨tunnelOrigin libm height width (tunnelCenter centerH height) (tunnelCenter centerW width) strength radius,
    fun row col hrow hcol => ?_, fun row col hfar => ?_, fun p hheight hwidth hpx => ?_⟩
  · exact tunnelOrigin_own fun h => h.2.ne' (tunnelDistance_center hlibm hrow hcol)
  · exact tunnelOrigin_own fun h => hfar.not_gt h.1
  subst hheight
  subst hwidth
  refine ⟨?_, tunnel_map libm centerH centerW strength radius Pixel.gray hpx,
    tunnel_map libm centerH centerW strength radius Pixel.negative hpx⟩
  by_cases hin : CenterInside centerH centerW p.image
  · refine .inr ⟨tunnel_gathers libm strength radius hpx hin, fun row col hrow hcol => ?_⟩
    exact tunnel_defined hlibm hh hw hin.1 hin.2 radius hrow hcol
  · exact .inl ⟨_, tunnel_throws libm strength radius hin⟩

end Defined

/-! ## A small picture -/

/-- Black beside white. -/
noncomputable def blackWhite : Process ℝ :=
  painted 1 2 (fun _ col => ⟨col, col, col⟩) fun _ col => ⟨col, col, col⟩

/-- The tunnel around the white pixel. -/
theorem blackWhite_moved : ∃ (src : Nat → Nat → Nat × Nat) (q : Process ℝ), src 0 1 = (0, 1) ∧
    tunnel realLibm 0 1 1 2 blackWhite = some (q, none) ∧
    Grid.Gathers 1 2 src blackWhite.image.pixels q.image.pixels := by
  have hh : (1 : UInt32).toNat < 2 ^ 29 := by decide
  have hw : (2 : UInt32).toNat < 2 ^ 29 := by decide
  have hpx : Grid.Shape (1 : UInt32).toNat (2 : UInt32).toNat blackWhite.image.pixels := painted_shape 1 2 _ _
  have hin : CenterInside 0 1 blackWhite.image := ⟨⟨by decide, by decide⟩, by decide, by decide⟩
  obtain ⟨src, hcenter, -, hmoves⟩ := tunnel_moves realLibm_polar hh hw 0 1 1 2
  obtain ⟨hresult | ⟨⟨px, hrun, hgathers⟩, -⟩, -⟩ := hmoves blackWhite rfl rfl hpx
  · obtain ⟨e, hthrow⟩ := hresult
    obtain ⟨px, hrun, -⟩ := tunnel_gathers (p := blackWhite) realLibm 1 2 hpx hin
    cases hthrow.symm.trans hrun
  · exact ⟨src, _, hcenter 0 1 (by decide) (by decide), hrun, hgathers⟩

end HighLoad.ImageProcessor
