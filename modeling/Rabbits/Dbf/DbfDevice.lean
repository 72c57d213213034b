/-
  File:      Rabbits/Dbf/DbfDevice.lean
  Subject:   The registers and the picture memory of the deblocking filter (dbf_device.cpp:
             dbf_device_link and the accessors of dbf_device; fpga.h).

  One byte array holds the macroblocks (512 bytes each: luma, chroma, motion vectors, coefficient
  counts, QP, mode) and, from REG_GLO_VER on, the registers.

  * `DbfM` -- the device's code: `none` is `exit (-1)`;
  * `getData`, `setData` -- the two accesses, with what a write to a register sets off;
  * `getOffset` ... `getMVy` -- the accessors the filter uses.

  `int` coordinates and addresses are natural numbers: no caller passes a negative one.
  Debug output and the files it writes are left out.
-/
import Rabbits.Noc.Vci
import Mathlib.Data.List.FinRange
import Mathlib.Logic.Function.Basic

namespace Rabbits

/-! ## 1. The memory map (fpga.h) -/

def FPGA_CHAR_SIZE : Nat := 0x40000
def MB_BLOCK_SIZE : Nat := 0x200
def SLICE_OFFSET : Nat := 0x10

def LUMA_OFFSET : Nat := 0x0
def CHROMA_OFFSET : Nat := 0x100
def MVX_OFFSET : Nat := 0x180
def MVY_OFFSET : Nat := 0x1A0
def COEFF_OFFSET : Nat := 0x1C0
def QUANT_OFFSET : Nat := 0x1D0
def MODE_OFFSET : Nat := 0x1D2

def REG_GLO_VER : Nat := 0x34000
def REG_GLO_CTRL : Nat := 0x34004

def REG_FRA_SRAM : Nat := 0x38008

def REG_SLI_OFFSET : Nat := 0x38010
def REG_SLI_LGTOFF : Nat := 0x38011
def REG_SLI_BETA : Nat := 0x38016
def REG_SLI_ALPHA : Nat := 0x38017
def REG_SLI_FILLOW : Nat := 0x38018
def REG_SLI_CLEAR : Nat := 0x3801C

def REG_NSLICES : Nat := 0x39000
def REG_INT_ACK : Nat := 0x39004
def REG_INT_STATUS : Nat := 0x39008
def REG_INT_ENABLE : Nat := 0x3900C

def N_SLICE_THREADS : Nat := 4

def MbWidth : Nat := 16

/-! ## 2. The device -/

/-- The events that a register write notifies. -/
inductive DbfEvent where
  | irqUpdate
  | slice (i : Fin N_SLICE_THREADS)
  | sendSram
  deriving DecidableEq

/-- `dbf_device_link` with `m_irq_stat`, the file's `PicWidthInMbs`, and the events notified so
    far, the last one first. -/
structure DbfDevice where
  mData : Nat → Byte
  irqStat : Bool
  picWidthInMbs : Nat
  notified : List DbfEvent

/-- The constructor and `init`. -/
def DbfDevice.new : DbfDevice where
  mData := Function.update (fun _ => 0#8) REG_NSLICES 4#8
  irqStat := false
  picWidthInMbs := 0
  notified := []

/-- The code of the device; `none` is `exit`. -/
abbrev DbfM := StateT DbfDevice Option

/-- An assignment to `m_data[address]`. -/
def DbfDevice.poke (d : DbfDevice) (address : Nat) (data : Byte) : DbfDevice :=
  { d with mData := Function.update d.mData address data }

/-- `*m_irq_stat = stat; m_ev_irq->notify()`. -/
def DbfDevice.setIrq (d : DbfDevice) (stat : Bool) : DbfDevice :=
  { d with irqStat := stat, notified := .irqUpdate :: d.notified }

def DbfDevice.notify (d : DbfDevice) (e : DbfEvent) : DbfDevice :=
  { d with notified := e :: d.notified }

/-! ## 3. The registers of a slice and the format -/

/-- The first macroblock of a slice, as its registers hold it. -/
def sliceOffset (lgtoff offset : Byte) : Nat := (lgtoff &&& 0x0F#8).toNat * 2 ^ 8 + offset.toNat

/-- The number of macroblocks of a slice, as its registers hold it. -/
def sliceLength (length lgtoff : Byte) : Nat :=
  length.toNat * 2 ^ 4 + ((lgtoff &&& 0xF0#8) >>> 4).toNat

/-- What `clear_slice` puts at an address. -/
def clearedByte (regAddr : Nat) : Byte :=
  if regAddr % MB_BLOCK_SIZE = QUANT_OFFSET ∨ regAddr % MB_BLOCK_SIZE = QUANT_OFFSET + 1 then
    0xFF#8
  else 0#8

def DbfDevice.clearSlice (d : DbfDevice) (slice : Nat) : DbfDevice :=
  let lgtoff := SLICE_OFFSET * slice + REG_SLI_LGTOFF
  let offset := sliceOffset (d.mData lgtoff) (d.mData (SLICE_OFFSET * slice + REG_SLI_OFFSET))
  let length := sliceLength (d.mData (lgtoff + 1)) (d.mData lgtoff)
  (List.range' (offset * MB_BLOCK_SIZE) (length * MB_BLOCK_SIZE)).foldl
    (fun d regAddr => d.poke regAddr (clearedByte regAddr)) d

/-! ## 4. The two accesses -/

def getData (address : Nat) : DbfM Byte := fun d =>
  if address > FPGA_CHAR_SIZE then none else some (d.mData address, d)

theorem getData_eq_some {a : Nat} {d d' : DbfDevice} {data : Byte}
    (h : (getData a).run d = some (data, d')) : data = d.mData a ∧ d' = d := by
  simp only [StateT.run, getData] at h
  split at h
  · cases h
  · cases h
    exact ⟨rfl, rfl⟩

/-- A write to REG_INT_ENABLE: the interrupt follows the change of the mask. -/
def DbfDevice.setIntEnable (d : DbfDevice) (data : Byte) : DbfDevice :=
  let status := d.mData REG_INT_STATUS
  let enable := d.mData REG_INT_ENABLE
  let data := data &&& 0x7F#8
  let d' :=
    if status &&& enable = 0#8 ∧ status &&& data ≠ 0#8 then d.setIrq true
    else if status &&& enable ≠ 0#8 ∧ status &&& data = 0#8 then d.setIrq false
    else d
  d'.poke REG_INT_ENABLE data

/-- A write to REG_INT_ACK. -/
def DbfDevice.setIntAck (d : DbfDevice) (data : Byte) : DbfDevice :=
  let status := d.mData REG_INT_STATUS
  let enable := d.mData REG_INT_ENABLE
  if data &&& status &&& enable ≠ 0#8 then
    let status := status &&& (~~~data ||| 0x80#8)
    let status := if status = 0x80#8 then 0#8 else status
    let d' := d.poke REG_INT_STATUS status
    if status &&& enable = 0#8 then d'.setIrq false else d'
  else d

/-- What a write to `address` sets off once `m_data[address]` holds `data`. -/
def DbfDevice.written (d : DbfDevice) (address : Nat) (data : Byte) : DbfDevice :=
  if address = REG_INT_ACK then d.setIntAck data
  else match (List.finRange N_SLICE_THREADS).find? fun (i : Fin N_SLICE_THREADS) =>
      address = REG_SLI_FILLOW + SLICE_OFFSET * i with
  | some i => d.notify (.slice i)
  | none => match (List.finRange N_SLICE_THREADS).find? fun (i : Fin N_SLICE_THREADS) =>
      address = REG_SLI_CLEAR + SLICE_OFFSET * i with
    | some i => (d.clearSlice i).poke address 0#8
    | none => if address = REG_FRA_SRAM ∧ data = 1#8 then d.notify .sendSram else d

def setData (address : Nat) (data : Byte) : DbfM Unit := fun d =>
  if address > FPGA_CHAR_SIZE then none
  else if address = REG_INT_STATUS ∨ address = REG_NSLICES then some ((), d)
  else if address = REG_INT_ENABLE then some ((), d.setIntEnable data)
  else some ((), (d.poke address data).written address data)

/-! ## 5. The accessors -/

def getFormat : DbfM Nat := do
  let ret ← getData REG_GLO_CTRL
  return ((ret &&& 0x30#8) >>> 4).toNat

/-- The width in pixels of each format: SQCIF, QCIF, CIF, 4CIF. -/
def picWidth : Nat → Nat
  | 0 => 128
  | 1 => 176
  | 2 => 352
  | 3 => 704
  | _ => 0

/-- The height in pixels of each format. -/
def picHeight : Nat → Nat
  | 0 => 96
  | 1 => 144
  | 2 => 288
  | 3 => 576
  | _ => 0

def getPicWidthInMbs : DbfM Nat := do
  let format ← getFormat
  return picWidth format / MbWidth

def getPicHeightInMbs : DbfM Nat := do
  let format ← getFormat
  return picHeight format / MbWidth

def getOffset (slice : Nat) : DbfM Nat := do
  let lgtoff ← getData (SLICE_OFFSET * slice + REG_SLI_LGTOFF)
  let offset ← getData (SLICE_OFFSET * slice + REG_SLI_OFFSET)
  return sliceOffset lgtoff offset

def getSliceLength (slice : Nat) : DbfM Nat := do
  let length ← getData (SLICE_OFFSET * slice + REG_SLI_LGTOFF + 1)
  let lgtoff ← getData (SLICE_OFFSET * slice + REG_SLI_LGTOFF)
  return sliceLength length lgtoff

/-- `PicWidthInMbs`, which `filter_slice` sets. -/
def PicWidthInMbs : DbfM Nat := fun d => some (d.picWidthInMbs, d)

/-- The address of a byte of the macroblock at `mbX`, `mbY`. -/
def mbAddr (picWidthInMbs mbX mbY byte : Nat) : Nat :=
  MB_BLOCK_SIZE * (mbY * picWidthInMbs + mbX) + byte

/-- The place of a luma pixel in its macroblock. -/
def lumaByte (x y : Nat) : Nat := y % 16 * MbWidth + x % 16 + LUMA_OFFSET

/-- The place of a chroma pixel in its macroblock. -/
def chromaByte (iCbCr x y : Nat) : Nat :=
  CHROMA_OFFSET + 64 * iCbCr + (y % 8 * MbWidth / 2 + x % 8)

/-- The place of a 4x4 block in its macroblock. -/
def pos4x4 (x y : Nat) : Nat := (y - y / 4 * 4) * 4 + (x - x / 4 * 4)

def getLPixel (x y : Nat) : DbfM Byte := do
  getData (mbAddr (← PicWidthInMbs) (x / 16) (y / 16) (lumaByte x y))

def setLPixel (x y : Nat) (val : Byte) : DbfM Unit := do
  setData (mbAddr (← PicWidthInMbs) (x / 16) (y / 16) (lumaByte x y)) val

def getCPixel (iCbCr x y : Nat) : DbfM Byte := do
  getData (mbAddr (← PicWidthInMbs) (x / 8) (y / 8) (chromaByte iCbCr x y))

def setCPixel (iCbCr x y : Nat) (val : Byte) : DbfM Unit := do
  setData (mbAddr (← PicWidthInMbs) (x / 8) (y / 8) (chromaByte iCbCr x y)) val

/-- A `char` is signed. -/
def getQP (x y qpType : Nat) : DbfM Int := do
  let byte := if qpType = 0 then QUANT_OFFSET else QUANT_OFFSET + 1
  let ret ← getData (mbAddr (← PicWidthInMbs) x y byte)
  return ret.toInt

def getAlpha (slice : Nat) : DbfM Byte := getData (SLICE_OFFSET * slice + REG_SLI_ALPHA)

def getBeta (slice : Nat) : DbfM Byte := getData (SLICE_OFFSET * slice + REG_SLI_BETA)

def getMode (x y : Nat) : DbfM Byte := do
  getData (mbAddr (← PicWidthInMbs) (x / 16) (y / 16) MODE_OFFSET)

def getTotalCoeffL (x y : Nat) : DbfM Byte := do
  getData (mbAddr (← PicWidthInMbs) (x / 4) (y / 4) (COEFF_OFFSET + pos4x4 x y))

/-- `get_MVx` and `get_MVy`, which differ in where the vectors lie: a `signed short`, the high
    byte at the higher address. -/
def getMV (mvOffset x y : Nat) : DbfM Int := do
  let picWidthInMbs ← PicWidthInMbs
  let tmpC1 ← getData (mbAddr picWidthInMbs (x / 4) (y / 4) (mvOffset + pos4x4 x y * 2 + 1))
  let tmpC2 ← getData (mbAddr picWidthInMbs (x / 4) (y / 4) (mvOffset + pos4x4 x y * 2))
  return (tmpC1 ++ tmpC2 : BitVec 16).toInt

def getMVx (x y : Nat) : DbfM Int := getMV MVX_OFFSET x y

def getMVy (x y : Nat) : DbfM Int := getMV MVY_OFFSET x y

end Rabbits
