/-
  File:      Rabbits/Fb/SlFbDevice.lean
  Subject:   The simple framebuffer (sl_framebuffer_device.cpp: the constructor, write, read,
             display, convert_frame_yv16).

  The device has two frames, of the picture as it is written and of the picture as it is shown; in
  the modes without conversion these are the same. A write to the first byte shows the frame and
  goes on to the other one.

  * `SlFbDevice` -- the device and its sizes;
  * `display` -- the conversion of a frame, and the change to the other one;
  * `write`, `read` -- the accesses, as code over the frames;
  * `write_inside_iff` -- **which writes stay inside the frame**: the bound is tested with `>`.

  The viewer, its pipe and the signal to it are left out.
-/
import Rabbits.Lib.ArrayCode
import Rabbits.Noc.MasterDevice
import Rabbits.Noc.SlaveDevice

namespace Rabbits

open Lib ArrayCode

/-! ## 1. The device -/

/-- `fb_mode`. -/
inductive SlFbMode where
  | GREY
  | RGB32
  | YVYU
  | YV12
  | YV16
  deriving DecidableEq

/-- `yuv_image` and `rgb_image`. -/
inductive SlFbArray where
  | yuvImage (i : Nat)
  | rgbImage (i : Nat)
  deriving DecidableEq

/-- `sl_fb_device`; its sizes are ints. -/
structure SlFbDevice where
  mode : SlFbMode
  width : Nat
  height : Nat
  bufIdx : Nat
  bufIdx_lt : bufIdx < 2
  size_lt : 3 * width * height < 2 ^ 31

namespace SlFbDevice

def rgbComponents (d : SlFbDevice) : Nat :=
  match d.mode with
  | .GREY => 1
  | .RGB32 | .YVYU | .YV16 | .YV12 => 3

def yuvSize (d : SlFbDevice) : Nat :=
  match d.mode with
  | .GREY | .RGB32 => 0
  | .YVYU | .YV16 => 2 * d.width * d.height
  | .YV12 => (3 * d.width * d.height) >>> 1

def rgbSize (d : SlFbDevice) : Nat := d.rgbComponents * d.height * d.width

/-- `write_buf[buf_idx]`. -/
def writeBuf (d : SlFbDevice) : SlFbArray :=
  match d.mode with
  | .GREY | .RGB32 => .rgbImage d.bufIdx
  | .YVYU | .YV16 | .YV12 => .yuvImage d.bufIdx

def memSize (d : SlFbDevice) : Nat :=
  match d.mode with
  | .GREY | .RGB32 => d.rgbSize
  | .YVYU | .YV16 | .YV12 => d.yuvSize

/-- The bytes allocated for each array. -/
def arraySize (d : SlFbDevice) : SlFbArray → Nat
  | .yuvImage _ => d.yuvSize
  | .rgbImage _ => d.rgbSize

theorem arraySize_writeBuf (d : SlFbDevice) : d.arraySize d.writeBuf = d.memSize := by
  unfold writeBuf memSize
  cases d.mode <;> rfl

/-! ## 2. The picture -/

/-- A colour value, cut to a byte. -/
def clipByte (x : Int) : Byte :=
  if x < 256 then (if 0 ≤ x then BitVec.ofInt 8 x else 0#8) else 0xFF#8

/-- `yuv2rgb`; `>> 8` rounds down. -/
def yuv2rgb (y u v : Byte) : Nat → Byte :=
  let yTmp := ((y.toNat : Int) - 16) * 298
  let uTmp := (u.toNat : Int) - 128
  let vTmp := (v.toNat : Int) - 128
  fun
    | 0 => clipByte ((yTmp + vTmp * 409 + 128) / 256)
    | 1 => clipByte ((yTmp + uTmp * (-100) + vTmp * (-208) + 128) / 256)
    | _ => clipByte ((yTmp + uTmp * 516 + 128) / 256)

/-- A turn of the loop of `convert_frame_yv16`: two points. -/
def convertPair (d : SlFbDevice) (i : Nat) : ArrayCode SlFbArray Byte Unit := do
  let yBuf := SlFbArray.yuvImage d.bufIdx
  let uBuf := d.width * d.height
  let vBuf := uBuf + d.width * d.height / 2
  let rgb := SlFbArray.rgbImage d.bufIdx
  let y ← load yBuf (i * 2) 1
  let u ← load yBuf (uBuf + i) 1
  let v ← load yBuf (vBuf + i) 1
  store rgb (6 * i) 3 (yuv2rgb (y 0) (u 0) (v 0))
  let y ← load yBuf (i * 2 + 1) 1
  store rgb (6 * i + 3) 3 (yuv2rgb (y 0) (u 0) (v 0))

def convertFrameYv16 (d : SlFbDevice) : ArrayCode SlFbArray Byte PUnit :=
  forM (List.range (d.width * d.height / 2)) d.convertPair

/-- `buf_idx = (buf_idx + 1) % 2`. -/
def nextBuf (d : SlFbDevice) : SlFbDevice :=
  { d with
    bufIdx := (d.bufIdx + 1) % 2
    bufIdx_lt := Nat.mod_lt _ (by decide) }

/-- The `switch` of `display`; `convert_frame_yvyu` and `convert_frame_yv12` are empty. -/
def convertFrame (d : SlFbDevice) : ArrayCode SlFbArray Byte PUnit :=
  match d.mode with
  | .YV16 => d.convertFrameYv16
  | .GREY | .RGB32 | .YVYU | .YV12 => pure ()

def display (d : SlFbDevice) : ArrayCode SlFbArray Byte SlFbDevice := do
  d.convertFrame
  return d.nextBuf

/-! ## 3. The accesses -/

/-- `s_mask`. -/
def sMask : List ULong :=
  [0x00000000, 0x000000FF, 0x0000FF00, 0x0000FFFF, 0x00FF0000, 0x00FF00FF, 0x00FFFF00, 0x00FFFFFF,
   0xFF000000, 0xFF0000FF, 0xFF00FF00, 0xFF00FFFF, 0xFFFF0000, 0xFFFF00FF, 0xFFFFFF00, 0xFFFFFFFF]

/-- "Each time we write at the zero position we update". -/
def displayAtZero (d : SlFbDevice) (ofs : ULong) (be : Byte) : ArrayCode SlFbArray Byte SlFbDevice :=
  if ofs = 0#32 ∧ be &&& 1#8 ≠ 0#8 then d.display else pure d

/-- `write`, which leaves `bErr` as false where it returns. -/
def write (d : SlFbDevice) (ofs : ULong) (be : Byte) (data : Fin 8 → Byte) :
    ArrayCode SlFbArray Byte SlFbDevice :=
  let lofs := (lofsOf ofs be).toNat
  if d.memSize >>> 2 < lofs then exit
  else do
    let d ← d.displayAtZero ofs be
    let tmp ← load d.writeBuf (4 * lofs) 4
    let mask := sMask.getD (lbeOf be).toNat 0#32
    store d.writeBuf (4 * lofs) 4 (byteOf (ulongOf tmp &&& ~~~mask ||| valueOf be data &&& mask))
    return d

/-- `read`: an error message, and no `bErr`. -/
def read : ArrayCode SlFbArray Byte Bool := return false

/-! ## 4. The bounds -/

variable {d : SlFbDevice} {mem : SlFbArray → Nat → Byte}

theorem returns_convertPair (d : SlFbDevice) (i : Nat) : Returns (d.convertPair i) := by
  unfold convertPair
  exact (returns_load _ _ _).bind fun _ => (returns_load _ _ _).bind fun _ =>
    (returns_load _ _ _).bind fun _ => (returns_store _ _ _ _).bind fun _ =>
    (returns_load _ _ _).bind fun _ => returns_store _ _ _ _

/-- Two points of a frame are inside it, before and after the conversion. -/
theorem inside_convertPair {i : Nat} (hmode : d.mode = .YV16) (hi : i < d.width * d.height / 2) :
    Inside d.arraySize (d.convertPair i) mem := by
  have hyuv : d.yuvSize = 2 * (d.width * d.height) := by
    simp only [yuvSize, hmode, Nat.mul_assoc]
  have hrgb : d.rgbSize = 3 * (d.width * d.height) := by
    simp only [rgbSize, rgbComponents, hmode, Nat.mul_assoc, Nat.mul_comm d.height]
  unfold convertPair
  simp only [inside_bind, inside_load, inside_store, arraySize, hyuv, hrgb]
  refine ⟨?_, fun _ _ => ⟨?_, fun _ _ => ⟨?_, fun _ _ => ⟨?_, fun _ _ => ⟨?_, fun _ _ => ?_⟩⟩⟩⟩⟩ <;>
    omega

theorem inside_convertFrame (d : SlFbDevice) (mem : SlFbArray → Nat → Byte) :
    Inside d.arraySize d.convertFrame mem := by
  unfold convertFrame
  split
  · rename_i hmode
    exact inside_forM fun i hi _ => inside_convertPair hmode (List.mem_range.mp hi)
  all_goals exact inside_pure _

theorem returns_convertFrame (d : SlFbDevice) : Returns d.convertFrame := by
  unfold convertFrame
  split
  · exact returns_forM fun i _ => d.returns_convertPair i
  all_goals exact returns_pure _

/-- The update stays inside both frames, and leaves a device of the same sizes. -/
theorem displayAtZero_spec (d : SlFbDevice) (ofs : ULong) (be : Byte)
    (mem : SlFbArray → Nat → Byte) :
    Inside d.arraySize (d.displayAtZero ofs be) mem ∧
      ∃ d', ((d.displayAtZero ofs be).run mem).result = some d' ∧
        d.arraySize d'.writeBuf = d.memSize := by
  unfold displayAtZero
  split
  · obtain ⟨x, hx⟩ := d.returns_convertFrame mem
    refine ⟨inside_bind.mpr ⟨d.inside_convertFrame mem, fun _ _ => inside_pure _⟩, d.nextBuf, ?_, ?_⟩
    · rw [display, run_bind_some hx, run_pure]
    · exact d.nextBuf.arraySize_writeBuf
  · exact ⟨inside_pure _, d, rfl, d.arraySize_writeBuf⟩

/-- A write either ends the program or stores one word. -/
theorem write_inside_word_iff (d : SlFbDevice) (ofs : ULong) (be : Byte) (data : Fin 8 → Byte)
    (mem : SlFbArray → Nat → Byte) :
    Inside d.arraySize (d.write ofs be data) mem ↔
      d.memSize >>> 2 < (lofsOf ofs be).toNat ∨ 4 * (lofsOf ofs be).toNat + 4 ≤ d.memSize := by
  obtain ⟨hshown, d', hd', hsize⟩ := d.displayAtZero_spec ofs be mem
  unfold write
  dsimp only
  split
  · rename_i hout
    exact iff_of_true inside_exit (.inl hout)
  · rename_i hin
    simp only [inside_bind, hshown, hd', inside_load, inside_store, inside_pure, true_and]
    simp [hin, load, hsize]

theorem toNat_lofsOf (ofs : ULong) (be : Byte) :
    (lofsOf ofs be).toNat = ofs.toNat / 4 + if be &&& 0xF0#8 = 0#8 then 0 else 1 := by
  have hlt := ofs.isLt
  unfold lofsOf
  split
  · simp [Nat.shiftRight_eq_div_pow]
  · rw [BitVec.toNat_add, BitVec.toNat_ushiftRight, Nat.shiftRight_eq_div_pow]
    exact Nat.mod_eq_of_lt (by simp; omega)

/-- **Which writes stay inside the frame**: all but those to the word behind it, with the lower
    lanes. -/
theorem write_inside_iff (d : SlFbDevice) {ofs : ULong} (be : Byte) (data : Fin 8 → Byte)
    (mem : SlFbArray → Nat → Byte) (hsize : 8 ∣ d.memSize) (hofs : 8 ∣ ofs.toNat) :
    Inside d.arraySize (d.write ofs be data) mem ↔
      ¬ (ofs.toNat = d.memSize ∧ be &&& 0xF0#8 = 0#8) := by
  rw [write_inside_word_iff, toNat_lofsOf, Nat.shiftRight_eq_div_pow]
  by_cases hbe : be &&& 0xF0#8 = 0#8
  · simp only [hbe, if_true, and_true]
    omega
  · simp only [hbe, if_false, and_false, not_false_iff, iff_true]
    omega

end SlFbDevice

end Rabbits
