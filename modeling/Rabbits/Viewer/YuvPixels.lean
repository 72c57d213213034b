/-
  File:      Rabbits/Viewer/YuvPixels.lean
  Subject:   The points that the YUV conversions show (conv.c: convert_YVYU_ARGB, convert_YV12_ARGB,
             convert_IYUV_ARGB, convert_YV16_ARGB).

  * `YuvFormat`, `place` -- what a format prescribes: the samples of the point in column x, row y;
  * `PixelsRight` -- **the property of a conversion**: every point is made of its samples;
  * `turn_at` -- the turn of a point, and the places that it reads;
  * `pixelsRight_iff` -- **for even sizes the property holds as long as nothing wraps**: up to 2^31
    points of YVYU, whose index counts bytes, and less than 2^32 points of the planar formats.
-/
import Rabbits.Viewer.ConvBounds

namespace Rabbits

open Lib ArrayCode

/-! ## 1. The formats -/

inductive YuvFormat where
  | YVYU
  | YV12
  | IYUV
  | YV16
  deriving DecidableEq

/-- The places of the samples of a point. -/
structure YuvPlace where
  luma : Nat
  u : Nat
  v : Nat

namespace YuvFormat

def mode : YuvFormat → ViewerMode
  | YVYU => .YVYU
  | YV12 => .YV12
  | IYUV => .IYUV
  | YV16 => .YV16

/-- The samples of the point in column `x`, row `y`: four bytes `Y V Y U` for two points of a row;
    or a luma plane, and behind it the planes V and U (YV12), or U and V (IYUV, YV16), with a sample
    for two points of a row and, in 4:2:0, of two rows. -/
def place (f : YuvFormat) (w h x y : Nat) : YuvPlace :=
  let block420 := y / 2 * (w / 2) + x / 2
  let block422 := y * (w / 2) + x / 2
  match f with
  | YVYU => ⟨4 * block422 + 2 * (x % 2), 4 * block422 + 3, 4 * block422 + 1⟩
  | YV12 => ⟨y * w + x, w * h + w / 2 * (h / 2) + block420, w * h + block420⟩
  | IYUV => ⟨y * w + x, w * h + block420, w * h + w / 2 * (h / 2) + block420⟩
  | YV16 => ⟨y * w + x, w * h + block422, w * h + w / 2 * h + block422⟩

/-- The numbers of points for which no index wraps. -/
def Fits (f : YuvFormat) (area : Nat) : Prop :=
  match f with
  | YVYU => area ≤ 2 ^ 31
  | YV12 | IYUV | YV16 => area < 2 ^ 32

end YuvFormat

/-- The surface behind a conversion. -/
def surface (m : ViewerMode) (order : PixelOrder) (w h : UInt32T) (mem : ConvArray → Nat → Byte) :
    Nat → Byte :=
  ((setConversion m order w h).run mem).mem .dst

/-- Every point is `yuv2rgb` of its samples. -/
def PixelsRight (f : YuvFormat) (w h : UInt32T) : Prop :=
  ∀ mem : ConvArray → Nat → Byte, ∀ x < w.toNat, ∀ y < h.toNat, ∀ k < 4,
    surface f.mode .ARGB w h mem (4 * (y * w.toNat + x) + k) =
      PixelOrder.ARGB.bytes (yuv2rgb (mem .src (f.place w.toNat h.toNat x y).luma)
        (mem .src (f.place w.toNat h.toNat x y).u) (mem .src (f.place w.toNat h.toNat x y).v)) k

/-! ## 2. The turn of a point -/

def YuvFormat.turns : YuvFormat → UInt32T → UInt32T → List YuvTurn
  | YVYU => turnsYVYU
  | YV12 => turnsYV12
  | IYUV => turnsIYUV
  | YV16 => turnsYV16

theorem setConversion_yuv (f : YuvFormat) (order : PixelOrder) (w h : UInt32T) :
    setConversion f.mode order w h = convertYuv order (f.turns w h) := by
  cases f <;> cases order <;> rfl

theorem surface_of_converts {m : ViewerMode} {order : PixelOrder} {w h : UInt32T} {n : Nat}
    {reads : List Nat} {data : (Nat → Byte) → Nat → Byte}
    (hf : Converts n reads data (setConversion m order w h)) (mem : ConvArray → Nat → Byte)
    (a : Nat) : surface m order w h mem a = if a < n then data (mem .src) a else mem .dst a := by
  rw [surface, hf.mem, Function.update_self, rangeWrite_apply]
  simp

theorem surface_yuv (f : YuvFormat) (order : PixelOrder) (w h : UInt32T)
    (mem : ConvArray → Nat → Byte) (a : Nat) :
    surface f.mode order w h mem a =
      if a < 8 * (f.turns w h).length then
        sweepData 8 (YuvTurn.bytes order) (f.turns w h) (mem .src) a
      else mem .dst a := by
  have hf := converts_yuv order (f.turns w h)
  rw [← setConversion_yuv] at hf
  exact surface_of_converts hf mem a

/-- Luma sample `e` of a turn. -/
def YuvTurn.luma (t : YuvTurn) (e : Nat) : Nat := if e = 0 then t.y0 else t.y1

/-- The two points of a turn. -/
theorem surface_turn {f : YuvFormat} {order : PixelOrder} {w h : UInt32T} {i : Nat} {t : YuvTurn}
    (ht : (f.turns w h)[i]? = some t) (mem : ConvArray → Nat → Byte) {e k : Nat} (he : e < 2)
    (hk : k < 4) : surface f.mode order w h mem (8 * i + (4 * e + k)) =
      order.bytes (yuv2rgb (mem .src (t.luma e)) (mem .src t.u) (mem .src t.v)) k := by
  have hi : i < (f.turns w h).length := (List.getElem?_eq_some_iff.mp ht).1
  rw [surface_yuv, if_pos (by omega), sweepData_eq ht _ (by omega), YuvTurn.bytes, YuvTurn.luma]
  rcases Nat.lt_succ_iff_lt_or_eq.mp he with hzero | hone
  · rw [if_pos (by omega), if_pos (by omega)]
    congr 1
    omega
  · subst hone
    rw [if_neg (by omega), if_neg (by decide), Nat.mul_one, Nat.add_sub_cancel_left]

/-- The place of a point on the surface, by its turn. -/
theorem point_index (b x y k : Nat) :
    4 * (y * (2 * b) + x) + k = 8 * (y * b + x / 2) + (4 * (x % 2) + k) := by
  have hrow : y * (2 * b) = 2 * (y * b) := by ring
  omega

theorem block_lt {b h x y : Nat} (hx : x < 2 * b) (hy : y < h) : y * b + x / 2 < h * b := by
  rw [Nat.add_comm, Nat.mul_comm h b]
  exact luma_lt (by omega) hy

theorem getElem?_turns420 {uBuf vBuf : Nat} {w h : UInt32T} {b x y : Nat} (hb : w.toNat = 2 * b)
    (hx : x < 2 * b) (hy : y < h.toNat) : (turns420 uBuf vBuf w h)[y * b + x / 2]? = some
      { y0 := u32 (x / 2 * 2 + y * w.toNat)
        y1 := u32 (x / 2 * 2 + y * w.toNat + 1)
        u := uBuf + u32 (x / 2 + u32 (y / 2 * w.toNat) / 2)
        v := vBuf + u32 (x / 2 + u32 (y / 2 * w.toNat) / 2) } := by
  have hhalf : w.toNat / 2 = b := by omega
  have hpos : 0 < b := by omega
  have hdiv : (y * b + x / 2) / b = y ∧ (y * b + x / 2) % b = x / 2 := by
    rw [Nat.mul_comm, Nat.mul_add_div hpos, Nat.mul_add_mod, Nat.div_eq_of_lt (by omega),
      Nat.mod_eq_of_lt (by omega)]
    exact ⟨rfl, rfl⟩
  rw [turns420, nested_range, List.getElem?_map, hhalf, List.getElem?_range (block_lt hx hy),
    Option.map_some, hdiv.1, hdiv.2]

theorem getElem?_pairs {turn : Nat → YuvTurn} {n i : Nat} (hi : i < n) :
    ((List.range n).map turn)[i]? = some (turn i) := by
  rw [List.getElem?_map, List.getElem?_range hi, Option.map_some]

/-- A turn reads the samples of its points. -/
structure ReadsPlace (t : YuvTurn) (e : Nat) (p : YuvPlace) : Prop where
  luma : t.luma e = p.luma
  u : t.u = p.u
  v : t.v = p.v

theorem luma_pair (t : YuvTurn) {e base : Nat} (he : e < 2) (h0 : t.y0 = base)
    (h1 : t.y1 = base + 1) : t.luma e = base + e := by
  rw [YuvTurn.luma]
  split <;> omega

section TurnAt

variable {w h : UInt32T} {b c x y : Nat} (hw : w.toNat = 2 * b) (hh : h.toNat = 2 * c)
  (hx : x < w.toNat) (hy : y < h.toNat)

include hw

section Area

include hh

theorem area_blocks : w.toNat * h.toNat = 4 * (b * c) := by
  rw [hw, hh]
  ring

end Area

include hx hy

/-- The turn of a point of a 4:2:0 frame. -/
theorem turn420_at (uBuf vBuf : Nat) (hlt : w.toNat * h.toNat < 2 ^ 32) :
    ∃ t, (turns420 uBuf vBuf w h)[y * b + x / 2]? = some t ∧
      t.luma (x % 2) = y * w.toNat + x ∧
      t.u = uBuf + (y / 2 * (w.toNat / 2) + x / 2) ∧
      t.v = vBuf + (y / 2 * (w.toNat / 2) + x / 2) := by
  have hxb : x < 2 * b := hw ▸ hx
  have hhalf : w.toNat / 2 = b := by omega
  have hchroma : x / 2 + y / 2 * w.toNat / 2 = y / 2 * (w.toNat / 2) + x / 2 := by
    rw [hhalf, hw, chroma_even, Nat.add_comm]
  obtain ⟨hy0, hy1, hplane, -⟩ := turn420_places hlt (show x / 2 < w.toNat / 2 by omega) hy
  rw [hchroma] at hplane
  refine ⟨_, getElem?_turns420 hw hxb hy, ?_, ?_, ?_⟩
  · rw [luma_pair _ (Nat.mod_lt x (by decide)) hy0 hy1]
    omega
  · rw [hplane]
  · rw [hplane]

include hh

/-- **The turn of a point reads its samples.** -/
theorem turn_at {f : YuvFormat} (hfit : f.Fits (w.toNat * h.toNat)) :
    ∃ t, (f.turns w h)[y * b + x / 2]? = some t ∧
      ReadsPlace t (x % 2) (f.place w.toNat h.toNat x y) := by
  have hxb : x < 2 * b := hw ▸ hx
  have hhalf : w.toNat / 2 = b := by omega
  have hblocks := area_blocks hw hh
  have hcols : h.toNat * b = 2 * (b * c) := by
    rw [hh]
    ring
  have hblock := block_lt hxb hy
  have hlt : w.toNat * h.toNat < 2 ^ 32 := by
    cases f <;> simp only [YuvFormat.Fits] at hfit <;> omega
  have harea : (w * h).toNat = w.toNat * h.toNat := by
    rw [BitVec.toNat_mul]
    exact Nat.mod_eq_of_lt hlt
  have hrow : y * w.toNat = 2 * (y * b) := by
    rw [hw]
    ring
  have hplane : w.toNat * h.toNat / 4 = w.toNat / 2 * (h.toNat / 2) := by
    rw [hblocks, hhalf, hh, Nat.mul_div_cancel_left _ (by decide),
      Nat.mul_div_cancel_left _ (by decide)]
  cases f with
  | YVYU =>
      have hsmall : w.toNat * h.toNat ≤ 2 ^ 31 := hfit
      refine ⟨_, getElem?_pairs (by omega), ?_, ?_, ?_⟩
      · simp only [YuvTurn.luma, YuvFormat.place, hhalf, u32]
        split <;> omega
      · simp only [YuvFormat.place, hhalf, u32]
        omega
      · simp only [YuvFormat.place, hhalf, u32]
        omega
  | YV16 =>
      refine ⟨_, getElem?_pairs (by omega), ?_, ?_, ?_⟩
      · rw [luma_pair _ (Nat.mod_lt x (by decide)) (u32_of_lt (by omega)) (u32_of_lt (by omega))]
        simp only [YuvFormat.place]
        omega
      · simp only [YuvFormat.place, hhalf, harea]
      · simp only [YuvFormat.place, hhalf, harea]
        rw [Nat.mul_comm b, hcols, hblocks]
        omega
  | YV12 =>
      obtain ⟨t, ht, hluma, hu, hv⟩ := turn420_at hw hx hy
        ((w * h).toNat + (w * h).toNat / 4) (w * h).toNat hlt
      rw [harea, hplane] at hu
      rw [harea] at hv
      exact ⟨t, ht, hluma, hu, hv⟩
  | IYUV =>
      obtain ⟨t, ht, hluma, hu, hv⟩ := turn420_at hw hx hy
        (w * h).toNat ((w * h).toNat + (w * h).toNat / 4) hlt
      rw [harea] at hu
      rw [harea, hplane] at hv
      exact ⟨t, ht, hluma, hu, hv⟩

end TurnAt

theorem pixelsRight_of_fits {f : YuvFormat} {w h : UInt32T} (hw : 2 ∣ w.toNat) (hh : 2 ∣ h.toNat)
    (hfit : f.Fits (w.toNat * h.toNat)) : PixelsRight f w h := by
  obtain ⟨b, hb⟩ := hw
  obtain ⟨c, hc⟩ := hh
  intro mem x hx y hy k hk
  obtain ⟨t, ht, hplace⟩ := turn_at hb hc hx hy hfit
  rw [hb, point_index, surface_turn ht mem (Nat.mod_lt x (by decide)) hk, hplace.luma, hplace.u,
    hplace.v, hb]

/-! ## 3. Indices that wrap -/

/-- A frame that is 0 up to byte `n` and 255 from there on, and a surface of ones. -/
def brightFrom (n : Nat) : ConvArray → Nat → Byte
  | .src, a => if a < n then 0#8 else 0xFF#8
  | .dst, _ => 1#8

/-- A point without a turn stays as it was, and its first byte is not zero. -/
theorem not_right_of_unwritten {f : YuvFormat} {w h : UInt32T} {x y n : Nat} (hx : x < w.toNat)
    (hy : y < h.toNat) (hlast : 8 * (f.turns w h).length ≤ 4 * (y * w.toNat + x))
    (hright : PixelsRight f w h) : n = 0 := by
  have hzero := hright (brightFrom n) x hx y hy 0 (by decide)
  rw [surface_yuv, if_neg (by omega)] at hzero
  exact absurd hzero (by simp [brightFrom, PixelOrder.bytes])

/-- From 2^31 points of YVYU on, the index of the first byte of a turn comes back to zero. -/
theorem not_right_YVYU {w h : UInt32T} (hw : 2 ∣ w.toNat) (hbig : 2 ^ 31 < w.toNat * h.toNat) :
    ¬ PixelsRight .YVYU w h := by
  intro hright
  obtain ⟨b, hb⟩ := hw
  have hpos : 0 < w.toNat := Nat.pos_of_ne_zero fun hzero => by simp [hzero] at hbig
  have hx : 2 ^ 31 % w.toNat < w.toNat := Nat.mod_lt _ hpos
  have hy : 2 ^ 31 / w.toNat < h.toNat := Nat.div_lt_of_lt_mul hbig
  have hpoint : 2 ^ 31 / w.toNat * w.toNat + 2 ^ 31 % w.toNat = 2 ^ 31 := Nat.div_add_mod' _ _
  generalize 2 ^ 31 / w.toNat = y at hy hpoint
  generalize 2 ^ 31 % w.toNat = x at hx hpoint
  by_cases hturn : 2 ^ 30 < (w * h).toNat / 2
  · -- the samples of point 2^31 are behind byte 2^32, and those at byte 0 are read for it
    have hblock : y * (w.toNat / 2) + x / 2 = 2 ^ 30 ∧ x % 2 = 0 := by
      have hrow : y * w.toNat = 2 * (y * b) := by
        rw [hb]
        ring
      have hhalf : w.toNat / 2 = b := by omega
      rw [hhalf]
      omega
    have hg := hright (brightFrom (2 ^ 32)) x hx y hy 2 (by decide)
    have hread := @surface_turn .YVYU .ARGB w h (2 ^ 30) _ (getElem?_pairs hturn)
      (brightFrom (2 ^ 32)) 0 2 (by decide) (by decide)
    rw [hpoint] at hg
    simp only [YuvFormat.place, hblock.1, hblock.2] at hg
    have hsame := hread.symm.trans hg
    revert hsame
    decide
  · refine absurd (not_right_of_unwritten (n := 1) hx hy ?_ hright) (by decide)
    rw [hpoint]
    simp only [YuvFormat.turns, turnsYVYU, List.length_map, List.length_range]
    omega

theorem red_of_dark (u : Byte) : (yuv2rgb 0#8 u 0#8).r = 0#8 := rfl

theorem blue_of_dark (v : Byte) : (yuv2rgb 0#8 0#8 v).b = 0#8 := rfl

/-- The first point of a planar frame is dark, with chroma samples that are not. -/
theorem first_point {f : YuvFormat} {w h : UInt32T} (hf : f ≠ .YVYU) (hw : 0 < w.toNat)
    (hh : 0 < h.toNat) (hright : PixelsRight f w h) {k : Nat} (hk : k < 4) :
    surface f.mode .ARGB w h (brightFrom (w.toNat * h.toNat)) k =
      PixelOrder.ARGB.bytes (yuv2rgb 0#8 0xFF#8 0xFF#8) k := by
  have hplace : (f.place w.toNat h.toNat 0 0).luma < w.toNat * h.toNat ∧
      w.toNat * h.toNat ≤ (f.place w.toNat h.toNat 0 0).u ∧
      w.toNat * h.toNat ≤ (f.place w.toNat h.toNat 0 0).v := by
    have harea : 0 < w.toNat * h.toNat := Nat.mul_pos hw hh
    cases f with
    | YVYU => exact absurd rfl hf
    | YV12 | IYUV | YV16 =>
        simp only [YuvFormat.place]
        omega
  have hpoint := hright (brightFrom (w.toNat * h.toNat)) 0 hw 0 hh k hk
  have hluma : brightFrom (w.toNat * h.toNat) .src (f.place w.toNat h.toNat 0 0).luma = 0#8 :=
    if_pos hplace.1
  have hu : brightFrom (w.toNat * h.toNat) .src (f.place w.toNat h.toNat 0 0).u = 0xFF#8 :=
    if_neg (Nat.not_lt.mpr hplace.2.1)
  have hv : brightFrom (w.toNat * h.toNat) .src (f.place w.toNat h.toNat 0 0).v = 0xFF#8 :=
    if_neg (Nat.not_lt.mpr hplace.2.2)
  rwa [Nat.zero_mul, Nat.add_zero, Nat.mul_zero, Nat.zero_add, hluma, hu, hv] at hpoint

/-- The first turn of a 4:2:0 frame. -/
theorem turns420_first {uBuf vBuf : Nat} {w h : UInt32T} (hw : 2 ∣ w.toNat) (hpos : 0 < w.toNat)
    (hh : 0 < h.toNat) : (turns420 uBuf vBuf w h)[0]? = some
      { y0 := u32 (0 * 2 + 0 * w.toNat)
        y1 := u32 (0 * 2 + 0 * w.toNat + 1)
        u := uBuf + u32 (0 + u32 (0 * w.toNat) / 2)
        v := vBuf + u32 (0 + u32 (0 * w.toNat) / 2) } := by
  obtain ⟨b, hb⟩ := hw
  have hfirst : (turns420 uBuf vBuf w h)[0 * b + 0 / 2]? = _ :=
    getElem?_turns420 hb (by omega) hh
  rwa [Nat.zero_mul] at hfirst

/-- From 2^32 points on, the first plane behind the luma plane is looked for inside it. -/
theorem not_right_planar {f : YuvFormat} {w h : UInt32T} (hf : f ≠ .YVYU)
    (hw : 2 ∣ w.toNat) (hbig : 2 ^ 32 ≤ w.toNat * h.toNat) : ¬ PixelsRight f w h := by
  intro hright
  have hwpos : 0 < w.toNat := Nat.pos_of_ne_zero fun hzero => by simp [hzero] at hbig
  have hhpos : 0 < h.toNat := Nat.pos_of_ne_zero fun hzero => by simp [hzero] at hbig
  have hin : (w * h).toNat < w.toNat * h.toNat := (w * h).isLt.trans_le hbig
  have hdark : ∀ a, a < w.toNat * h.toNat → brightFrom (w.toNat * h.toNat) .src a = 0#8 :=
    fun a ha => if_pos ha
  have hturn : ∀ t, (f.turns w h)[0]? = some t → ∀ k < 4, PixelOrder.ARGB.bytes
      (yuv2rgb (brightFrom (w.toNat * h.toNat) .src t.y0) (brightFrom (w.toNat * h.toNat) .src t.u)
        (brightFrom (w.toNat * h.toNat) .src t.v)) k =
      PixelOrder.ARGB.bytes (yuv2rgb 0#8 0xFF#8 0xFF#8) k := by
    intro t ht k hk
    have hwritten : surface f.mode .ARGB w h (brightFrom (w.toNat * h.toNat)) (8 * 0 + (4 * 0 + k)) =
        _ := surface_turn ht (brightFrom (w.toNat * h.toNat)) (by decide) hk
    rw [Nat.mul_zero, Nat.zero_add, Nat.zero_add, first_point hf hwpos hhpos hright hk] at hwritten
    exact hwritten.symm
  cases f with
  | YVYU => exact absurd rfl hf
  | YV12 =>
      -- the V plane, and so red
      have hr := hturn _ (turns420_first hw hwpos hhpos) 1 (by decide)
      simp only [Nat.zero_mul, u32, Nat.zero_mod, Nat.zero_div, Nat.add_zero] at hr
      rw [hdark 0 (by omega), hdark (w * h).toNat hin] at hr
      exact absurd ((red_of_dark _).symm.trans hr) (by decide)
  | IYUV =>
      have hr := hturn _ (turns420_first hw hwpos hhpos) 3 (by decide)
      simp only [Nat.zero_mul, u32, Nat.zero_mod, Nat.zero_div, Nat.add_zero] at hr
      rw [hdark 0 (by omega), hdark (w * h).toNat hin] at hr
      exact absurd ((blue_of_dark _).symm.trans hr) (by decide)
  | YV16 =>
      by_cases hsome : 0 < (w * h).toNat / 2
      · have hr := hturn _ (getElem?_pairs hsome) 3 (by decide)
        simp only [Nat.zero_mul, u32, Nat.zero_mod, Nat.add_zero] at hr
        rw [hdark 0 (by omega), hdark (w * h).toNat hin] at hr
        exact absurd ((blue_of_dark _).symm.trans hr) (by decide)
      · refine absurd (not_right_of_unwritten (n := 1) hwpos hhpos ?_ hright) (by decide)
        simp only [YuvFormat.turns, turnsYV16, List.length_map, List.length_range]
        omega

/-- **The points of the YUV conversions are right as long as nothing wraps**: for every even width
    and even height and every frame, each point of the ARGB surface is `yuv2rgb` of its luma sample
    and of the U and V samples of its block if and only if the picture has at most 2^31 points
    (YVYU), or less than 2^32 (YV12, IYUV, YV16). -/
theorem pixelsRight_iff (f : YuvFormat) {w h : UInt32T} (hw : 2 ∣ w.toNat) (hh : 2 ∣ h.toNat) :
    PixelsRight f w h ↔ f.Fits (w.toNat * h.toNat) := by
  refine ⟨fun hright => ?_, pixelsRight_of_fits hw hh⟩
  cases f with
  | YVYU => exact Nat.not_lt.mp fun hbig => not_right_YVYU hw hbig hright
  | YV12 => exact Nat.not_le.mp fun hbig => not_right_planar (by decide) hw hbig hright
  | IYUV => exact Nat.not_le.mp fun hbig => not_right_planar (by decide) hw hbig hright
  | YV16 => exact Nat.not_le.mp fun hbig => not_right_planar (by decide) hw hbig hright

/-- CIF. -/
theorem pixelsRight_cif : PixelsRight .YV12 352#32 288#32 :=
  (pixelsRight_iff .YV12 (by decide) (by decide)).mpr (by unfold YuvFormat.Fits; decide)

/-- The largest even size that 16 bits hold. -/
theorem pixelsRight_fails : ¬ PixelsRight .YVYU 65534#32 65534#32 :=
  not_right_YVYU (by decide) (by decide)

end Rabbits
