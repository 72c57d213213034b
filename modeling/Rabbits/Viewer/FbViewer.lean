/-
  File:      Rabbits/Viewer/FbViewer.lean
  Subject:   The picture formats of the viewer (fb_viewer.c: fb_mode, get_size, set_conversion).

  * `ViewerMode` -- the modes that have a conversion, `hasConversion` -- by their value;
  * `getSize` -- the bytes of a frame, as an `int`.
-/
import Mathlib.Data.BitVec

namespace Rabbits

/-- `uint32_t`. -/
abbrev UInt32T := BitVec 32

/-- The modes of `fb_mode` for which `set_conversion` has a conversion. -/
inductive ViewerMode where
  | RGB
  | BGR
  | ARGB
  | BGRA
  | YVYU
  | YV12
  | IYUV
  | YV16
  deriving DecidableEq

namespace ViewerMode

/-- The value of the enumeration. -/
def code : ViewerMode → UInt32T
  | RGB => 2#32
  | BGR => 3#32
  | ARGB => 4#32
  | BGRA => 5#32
  | YVYU => 6#32
  | YV12 => 7#32
  | IYUV => 8#32
  | YV16 => 9#32

end ViewerMode

/-- `set_conversion` has a function for the mode; it leaves `convert` at NULL for the others. -/
def hasConversion (mode : UInt32T) : Bool :=
  match mode.toNat with
  | 2 | 3 | 4 | 5 | 6 | 7 | 8 | 9 => true
  | _ => false

/-- These modes are those of `ViewerMode`. -/
theorem hasConversion_iff {mode : UInt32T} :
    hasConversion mode = true ↔ ∃ m : ViewerMode, m.code = mode := by
  constructor
  · intro h
    have hcode : ∀ m : ViewerMode, mode.toNat = m.code.toNat → ∃ m : ViewerMode, m.code = mode :=
      fun m heq => ⟨m, (BitVec.eq_of_toNat_eq heq).symm⟩
    unfold hasConversion at h
    split at h
    · exact hcode .RGB ‹_›
    · exact hcode .BGR ‹_›
    · exact hcode .ARGB ‹_›
    · exact hcode .BGRA ‹_›
    · exact hcode .YVYU ‹_›
    · exact hcode .YV12 ‹_›
    · exact hcode .IYUV ‹_›
    · exact hcode .YV16 ‹_›
    · cases h
  · rintro ⟨m, rfl⟩
    cases m <;> rfl

/-- What the viewer reads from its pipe: `width`, `height`, `mode`. -/
structure ViewerConfig where
  width : UInt32T
  height : UInt32T
  mode : UInt32T
  deriving DecidableEq

/-- `get_size`: unsigned products, and an `int` of the same bits. -/
def getSize (width height mode : UInt32T) : Int :=
  match mode.toNat with
  | 2 | 3 => (3#32 * width * height).toInt
  | 4 | 5 => (4#32 * width * height).toInt
  | 6 | 9 => (2#32 * width * height).toInt
  | 7 | 8 => ((3#32 * width * height) >>> 1).toInt
  | _ => 0

/-- The bytes of a frame of `area` points. -/
def ViewerMode.frameBytes (m : ViewerMode) (area : Nat) : Nat :=
  match m with
  | RGB | BGR => 3 * area
  | ARGB | BGRA => 4 * area
  | YVYU | YV16 => 2 * area
  | YV12 | IYUV => 3 * area / 2

theorem toNat_scaled {k : Nat} {w h : UInt32T} (hfit : k * (w.toNat * h.toNat) < 2 ^ 32) :
    (BitVec.ofNat 32 k * w * h).toNat = k * (w.toNat * h.toNat) := by
  rw [BitVec.toNat_mul, BitVec.toNat_mul, BitVec.toNat_ofNat, Nat.mod_mul_mod, Nat.mul_assoc]
  by_cases hzero : w.toNat * h.toNat = 0
  · simp [hzero]
  · have hk : k < 2 ^ 32 := lt_of_le_of_lt (Nat.le_mul_of_pos_right k (Nat.pos_of_ne_zero hzero)) hfit
    rw [Nat.mod_eq_of_lt hk, Nat.mod_eq_of_lt hfit]

/-- The size as an unsigned number. -/
theorem getSize_toInt (m : ViewerMode) {w h : UInt32T} (hfit : 4 * (w.toNat * h.toNat) < 2 ^ 32) :
    ∃ x : UInt32T, getSize w h m.code = x.toInt ∧ x.toNat = m.frameBytes (w.toNat * h.toNat) := by
  cases m with
  | RGB | BGR => exact ⟨_, rfl, toNat_scaled (k := 3) (by omega)⟩
  | ARGB | BGRA => exact ⟨_, rfl, toNat_scaled (k := 4) hfit⟩
  | YVYU | YV16 => exact ⟨_, rfl, toNat_scaled (k := 2) (by omega)⟩
  | YV12 | IYUV =>
      refine ⟨_, rfl, ?_⟩
      rw [BitVec.toNat_ushiftRight, toNat_scaled (k := 3) (by omega), Nat.shiftRight_eq_div_pow,
        pow_one, ViewerMode.frameBytes]

theorem getSize_eq {m : ViewerMode} {w h : UInt32T} (hfit : 4 * (w.toNat * h.toNat) < 2 ^ 32)
    (hint : m.frameBytes (w.toNat * h.toNat) < 2 ^ 31) :
    getSize w h m.code = m.frameBytes (w.toNat * h.toNat) := by
  obtain ⟨x, hx, hsize⟩ := getSize_toInt m hfit
  rw [hx, BitVec.toInt_eq_toNat_of_lt (by omega), hsize]

/-- A size from 2^31 on is negative as an `int`. -/
theorem getSize_neg {m : ViewerMode} {w h : UInt32T} (hfit : 4 * (w.toNat * h.toNat) < 2 ^ 32)
    (hint : 2 ^ 31 ≤ m.frameBytes (w.toNat * h.toNat)) : getSize w h m.code < 0 := by
  obtain ⟨x, hx, hsize⟩ := getSize_toInt m hfit
  rw [hx, BitVec.toInt_eq_toNat_cond]
  split <;> omega

end Rabbits
