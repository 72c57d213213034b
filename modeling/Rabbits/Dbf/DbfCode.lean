/-
  File:      Rabbits/Dbf/DbfCode.lean
  Subject:   The code of the deblocking filter with the indices of `m_data` that it uses
             (dbf_device.cpp: get_data, set_data, clear_slice, filter_slice and its accessors,
             master_request).

  This is the code of the other modules once more, over two steps that read and write one byte of
  `m_data` and leave its index on record.

  * `DbfCode` -- code with the record; `peek`, `poke` -- the two steps;
  * `DbfCode.getData`, `setData`, `clearSlice` -- the link;
  * `DbfCode.getLPixel` ... `filterSlice` -- the filter;
  * `DbfCode.masterRequest` -- the copy of the picture;
  * `erase_getData` ... `erase_masterRequest` -- **without the record it is that code**.
-/
import Rabbits.Dbf.EdgeCalls
import Rabbits.Dbf.SramCopy
import Rabbits.Lib.Recorded

namespace Rabbits

open Lib Recorded

/-! ## 1. Accesses -/

/-- An index of `m_data` that is used. -/
inductive DbfAccess where
  | read (index : Nat)
  | write (index : Nat)
  deriving DecidableEq

def DbfAccess.index : DbfAccess → Nat
  | read index => index
  | write index => index

abbrev DbfCode := Recorded DbfDevice DbfAccess

namespace DbfCode

/-- `m_data[index]`. -/
def peek (index : Nat) : DbfCode Byte := ⟨fun d => (some (d.mData index, d), [.read index])⟩

/-- `m_data[index] = data`. -/
def poke (index : Nat) (data : Byte) : DbfCode PUnit :=
  ⟨fun d => (some (⟨⟩, d.poke index data), [.write index])⟩

/-- What touches no byte. -/
def effect (f : DbfDevice → DbfDevice) : DbfCode PUnit := ⟨fun d => (some (⟨⟩, f d), [])⟩

def exit {v : Type} : DbfCode v := ⟨fun _ => (none, [])⟩

/-! ## 2. The link -/

def getData (address : Nat) : DbfCode Byte :=
  if address > FPGA_CHAR_SIZE then exit else peek address

def clearSlice (slice : Nat) : DbfCode PUnit := do
  let lgtoff ← peek (SLICE_OFFSET * slice + REG_SLI_LGTOFF)
  let offset ← peek (SLICE_OFFSET * slice + REG_SLI_OFFSET)
  let length ← peek (SLICE_OFFSET * slice + REG_SLI_LGTOFF + 1)
  let lgtoff' ← peek (SLICE_OFFSET * slice + REG_SLI_LGTOFF)
  forM (List.range' (sliceOffset lgtoff offset * MB_BLOCK_SIZE)
    (sliceLength length lgtoff' * MB_BLOCK_SIZE)) fun regAddr => poke regAddr (clearedByte regAddr)

def setIntEnable (data : Byte) : DbfCode PUnit := do
  let status ← peek REG_INT_STATUS
  let enable ← peek REG_INT_ENABLE
  let data := data &&& 0x7F#8
  if status &&& enable = 0#8 ∧ status &&& data ≠ 0#8 then effect fun d => d.setIrq true
  else if status &&& enable ≠ 0#8 ∧ status &&& data = 0#8 then effect fun d => d.setIrq false
  else pure ⟨⟩
  poke REG_INT_ENABLE data

def setIntAck (data : Byte) : DbfCode PUnit := do
  let status ← peek REG_INT_STATUS
  let enable ← peek REG_INT_ENABLE
  if data &&& status &&& enable ≠ 0#8 then
    let status := status &&& (~~~data ||| 0x80#8)
    let status := if status = 0x80#8 then 0#8 else status
    poke REG_INT_STATUS status
    if status &&& enable = 0#8 then effect fun d => d.setIrq false
    else pure ⟨⟩
  else pure ⟨⟩

def written (address : Nat) (data : Byte) : DbfCode PUnit :=
  if address = REG_INT_ACK then setIntAck data
  else match (List.finRange N_SLICE_THREADS).find? fun (i : Fin N_SLICE_THREADS) =>
      address = REG_SLI_FILLOW + SLICE_OFFSET * i with
  | some i => effect fun d => d.notify (.slice i)
  | none => match (List.finRange N_SLICE_THREADS).find? fun (i : Fin N_SLICE_THREADS) =>
      address = REG_SLI_CLEAR + SLICE_OFFSET * i with
    | some i => do
        clearSlice i
        poke address 0#8
    | none =>
        if address = REG_FRA_SRAM ∧ data = 1#8 then effect fun d => d.notify .sendSram
        else pure ⟨⟩

def setData (address : Nat) (data : Byte) : DbfCode PUnit :=
  if address > FPGA_CHAR_SIZE then exit
  else if address = REG_INT_STATUS ∨ address = REG_NSLICES then pure ⟨⟩
  else if address = REG_INT_ENABLE then setIntEnable data
  else do
    poke address data
    written address data

/-! ## 3. The accessors -/

def getFormat : DbfCode Nat := do
  let ret ← getData REG_GLO_CTRL
  return ((ret &&& 0x30#8) >>> 4).toNat

def getPicWidthInMbs : DbfCode Nat := do
  let format ← getFormat
  return picWidth format / MbWidth

def getPicHeightInMbs : DbfCode Nat := do
  let format ← getFormat
  return picHeight format / MbWidth

def getOffset (slice : Nat) : DbfCode Nat := do
  let lgtoff ← getData (SLICE_OFFSET * slice + REG_SLI_LGTOFF)
  let offset ← getData (SLICE_OFFSET * slice + REG_SLI_OFFSET)
  return sliceOffset lgtoff offset

def getSliceLength (slice : Nat) : DbfCode Nat := do
  let length ← getData (SLICE_OFFSET * slice + REG_SLI_LGTOFF + 1)
  let lgtoff ← getData (SLICE_OFFSET * slice + REG_SLI_LGTOFF)
  return sliceLength length lgtoff

def PicWidthInMbs : DbfCode Nat := ⟨fun d => (some (d.picWidthInMbs, d), [])⟩

/-- A read of a byte of the macroblock at `mbX`, `mbY`. -/
def getMbByte (mbX mbY byte : Nat) : DbfCode Byte := do
  let picWidthInMbs ← PicWidthInMbs
  getData (mbAddr picWidthInMbs mbX mbY byte)

def setMbByte (mbX mbY byte : Nat) (val : Byte) : DbfCode PUnit := do
  let picWidthInMbs ← PicWidthInMbs
  setData (mbAddr picWidthInMbs mbX mbY byte) val

def getLPixel (x y : Nat) : DbfCode Byte := getMbByte (x / 16) (y / 16) (lumaByte x y)

def setLPixel (x y : Nat) (val : Byte) : DbfCode PUnit :=
  setMbByte (x / 16) (y / 16) (lumaByte x y) val

def getCPixel (iCbCr x y : Nat) : DbfCode Byte := getMbByte (x / 8) (y / 8) (chromaByte iCbCr x y)

def setCPixel (iCbCr x y : Nat) (val : Byte) : DbfCode PUnit :=
  setMbByte (x / 8) (y / 8) (chromaByte iCbCr x y) val

def getQP (x y qpType : Nat) : DbfCode Int := do
  let ret ← getMbByte x y (if qpType = 0 then QUANT_OFFSET else QUANT_OFFSET + 1)
  return ret.toInt

def getAlpha (slice : Nat) : DbfCode Byte := getData (SLICE_OFFSET * slice + REG_SLI_ALPHA)

def getBeta (slice : Nat) : DbfCode Byte := getData (SLICE_OFFSET * slice + REG_SLI_BETA)

def getMode (x y : Nat) : DbfCode Byte := getMbByte (x / 16) (y / 16) MODE_OFFSET

def getTotalCoeffL (x y : Nat) : DbfCode Byte :=
  getMbByte (x / 4) (y / 4) (COEFF_OFFSET + pos4x4 x y)

def getMV (mvOffset x y : Nat) : DbfCode Int := do
  let picWidthInMbs ← PicWidthInMbs
  let tmpC1 ← getData (mbAddr picWidthInMbs (x / 4) (y / 4) (mvOffset + pos4x4 x y * 2 + 1))
  let tmpC2 ← getData (mbAddr picWidthInMbs (x / 4) (y / 4) (mvOffset + pos4x4 x y * 2))
  return (tmpC1 ++ tmpC2 : BitVec 16).toInt

/-! ## 4. The filter -/

def intraAt (x y : Nat) : DbfCode Bool := do
  return isIntra (← getMode x y)

def codedAt (x y : Nat) : DbfCode Bool := do
  return (← getTotalCoeffL (x / 4) (y / 4)) != 0#8

def movesApart (mvOffset qx qy px py : Nat) : DbfCode Bool := do
  let q ← getMV mvOffset (qx / 4) (qy / 4)
  let p ← getMV mvOffset (px / 4) (py / 4)
  return 4 < (q - p).natAbs

def getBS (qx qy px py : Nat) : DbfCode Nat := do
  if ← pure (qx % 16 == 0) <&&> (intraAt qx qy <||> intraAt px py) then
    return 4
  else if ← intraAt qx qy then
    return 3
  else if ← codedAt qx qy <||> codedAt px py then
    return 2
  else if ← movesApart MVX_OFFSET qx qy px py <||> movesApart MVY_OFFSET qx qy px py then
    return 1
  else
    return 0

def filterBlock (slice qx qy px py chromaFlag : Nat) (qp : SQp) (bS : Nat) : DbfCode SQp := do
  let qpType := if chromaFlag = 0 then 0 else 1
  let QPq ← getQP (qx / 16) (qy / 16) qpType
  let QPp ← getQP (px / 16) (py / 16) qpType
  let alphaOff ← getAlpha slice
  let betaOff ← getBeta slice
  return filterSamples QPq QPp alphaOff betaOff chromaFlag qp bS

/-- The part of an edge filter that reads. -/
def filteredSamples (slice chromaFlag : Nat) (getPixel : Nat × Nat → DbfCode Byte)
    (q p : Nat → Nat × Nat) (qx qy px py : Nat) : DbfCode SQp := do
  let q0 ← getPixel (q 0)
  let p0 ← getPixel (p 0)
  let q1 ← getPixel (q 1)
  let p1 ← getPixel (p 1)
  let q2 ← getPixel (q 2)
  let p2 ← getPixel (p 2)
  let q3 ← getPixel (q 3)
  let p3 ← getPixel (p 3)
  let bS ← getBS qx qy px py
  filterBlock slice qx qy px py chromaFlag ⟨![p0, p1, p2, p3], ![q0, q1, q2, q3]⟩ bS

def filterEdge (slice chromaFlag : Nat) (getPixel : Nat × Nat → DbfCode Byte)
    (setPixel : Nat × Nat → Byte → DbfCode PUnit) (q p : Nat → Nat × Nat) (qx qy px py : Nat) :
    DbfCode PUnit := do
  let res ← filteredSamples slice chromaFlag getPixel q p qx qy px py
  forM (List.finRange 4) fun (i : Fin 4) => do
    setPixel (q i) (res.q i)
    setPixel (p i) (res.p i)

def filterCall (slice : Nat) : EdgeCall → DbfCode PUnit
  | .luma dir x y =>
      filterEdge slice 0 (fun a => getLPixel a.1 a.2) (fun a => setLPixel a.1 a.2) (dir.q x y)
        (dir.p x y) x y (dir.other x y).1 (dir.other x y).2
  | .chroma dir iCbCr x y =>
      filterEdge slice 1 (fun a => getCPixel iCbCr a.1 a.2) (fun a => setCPixel iCbCr a.1 a.2)
        (dir.q (x / 2) (y / 2)) (dir.p (x / 2) (y / 2)) x y (dir.other x y).1 (dir.other x y).2

def filterMbs (slice picWidthInMbs offsetMb mbCount : Nat) : DbfCode PUnit :=
  forM (List.range' offsetMb mbCount) fun c =>
    forM (mbCallsAt picWidthInMbs offsetMb c) (filterCall slice)

def filterSlice (slice : Nat) : DbfCode Nat := do
  let picWidthInMbs ← getPicWidthInMbs
  effect fun d => { d with picWidthInMbs }
  let _picHeightInMbs ← getPicHeightInMbs
  let mbCount ← getSliceLength slice
  let offsetMb ← getOffset slice
  filterMbs slice picWidthInMbs offsetMb mbCount
  return offsetMb + mbCount

/-! ## 5. The copy -/

/-- `*(unsigned long *) (m_data + index)`. -/
def peekLong (index : Nat) : DbfCode ULong := do
  let b0 ← peek index
  let b1 ← peek (index + 1)
  let b2 ← peek (index + 2)
  let b3 ← peek (index + 3)
  return b3 ++ b2 ++ b1 ++ b0

def masterRequestStart : DbfCode SramCopy := do
  let nbMbHeight ← getPicHeightInMbs
  let nbMbWidth ← getPicWidthInMbs
  let adrDest ← peekLong REG_SRAM_ADDRESS
  let inc ← peek REG_INC_ADDRESS
  if adrDest &&& 0x3#32 ≠ 0#32 then exit
  else
    return {
      adrDest := adrDest
      b8alg := adrDest &&& 0x7#32 = 0#32
      bIncrementAddress := inc ≠ 0#8
      rest := copyAddrs nbMbHeight nbMbWidth }

def raiseStatus (bits : Byte) : DbfCode PUnit := do
  let status ← peek REG_INT_STATUS
  poke REG_INT_STATUS (status ||| bits)
  let status ← peek REG_INT_STATUS
  let enable ← peek REG_INT_ENABLE
  if status &&& enable ≠ 0#8 then
    let status ← peek REG_INT_STATUS
    poke REG_INT_STATUS (status ||| 0x80#8)
    effect fun d => d.setIrq true
  else pure ⟨⟩

def masterRequestEnd : DbfCode PUnit := do
  setData REG_FRA_SRAM 0#8
  raiseStatus (statusBit REG_STATUS_BIT_SRAM)

/-- `master_request` from its event to the end. Between two words the other threads run; the indices
    of the words are those computed at the start. -/
def masterRequest : DbfCode PUnit := do
  let c ← masterRequestStart
  forM c.rest fun regAddr => do
    let _word ← peekLong regAddr
    pure ⟨⟩
  masterRequestEnd

/-! ## 6. Without the record -/

section Steps

variable {v : Type} (d : DbfDevice)

theorem erase_peek_bind (index : Nat) (g : Byte → DbfCode v) :
    (peek index >>= g).erase d = (g (d.mData index)).erase d := rfl

theorem erase_poke_bind (index : Nat) (data : Byte) (g : PUnit → DbfCode v) :
    (poke index data >>= g).erase d = (g ⟨⟩).erase (d.poke index data) := rfl

end Steps

theorem erase_getData (address : Nat) : (getData address).erase = Rabbits.getData address := by
  funext d
  simp only [DbfCode.getData, Rabbits.getData]
  split <;> rfl

theorem erase_pokes (xs : List Nat) (f : Nat → Byte) (d : DbfDevice) :
    (forM xs fun a => poke a (f a)).erase d = some (⟨⟩, xs.foldl (fun d a => d.poke a (f a)) d) := by
  induction xs generalizing d with
  | nil => rfl
  | cons a xs ih => rw [List.forM_cons, List.foldl_cons, erase_poke_bind, ih]

theorem erase_clearSlice (slice : Nat) (d : DbfDevice) :
    (clearSlice slice).erase d = some (⟨⟩, d.clearSlice slice) := by
  rw [clearSlice, erase_peek_bind, erase_peek_bind, erase_peek_bind, erase_peek_bind, erase_pokes,
    DbfDevice.clearSlice]

theorem erase_setIntEnable (data : Byte) (d : DbfDevice) :
    (setIntEnable data).erase d = some (⟨⟩, d.setIntEnable data) := by
  rw [setIntEnable, erase_peek_bind, erase_peek_bind, DbfDevice.setIntEnable]
  simp only []
  split_ifs <;> rfl

theorem erase_setIntAck (data : Byte) (d : DbfDevice) :
    (setIntAck data).erase d = some (⟨⟩, d.setIntAck data) := by
  rw [setIntAck, erase_peek_bind, erase_peek_bind, DbfDevice.setIntAck]
  simp only []
  split_ifs <;> rfl

theorem erase_written (address : Nat) (data : Byte) (d : DbfDevice) :
    (written address data).erase d = some (⟨⟩, d.written address data) := by
  unfold written DbfDevice.written
  by_cases hack : address = REG_INT_ACK
  · rw [if_pos hack, if_pos hack]
    exact erase_setIntAck data d
  rw [if_neg hack, if_neg hack]
  cases (List.finRange N_SLICE_THREADS).find? fun (i : Fin N_SLICE_THREADS) =>
      address = REG_SLI_FILLOW + SLICE_OFFSET * i with
  | some i => rfl
  | none =>
      cases (List.finRange N_SLICE_THREADS).find? fun (i : Fin N_SLICE_THREADS) =>
          address = REG_SLI_CLEAR + SLICE_OFFSET * i with
      | some i =>
          refine (congrFun (erase_bind _ _) d).trans ?_
          exact run_bind_of (erase_clearSlice i d)
      | none =>
          simp only []
          split <;> rfl

theorem erase_setData (address : Nat) (data : Byte) :
    (setData address data).erase = Rabbits.setData address data := by
  funext d
  simp only [DbfCode.setData, Rabbits.setData]
  split
  · rfl
  · split
    · rfl
    · split
      · exact erase_setIntEnable data d
      · exact erase_written address data (d.poke address data)

theorem erase_getFormat : getFormat.erase = Rabbits.getFormat := by
  rw [getFormat, erase_bind, erase_getData]
  rfl

theorem erase_getPicWidthInMbs : getPicWidthInMbs.erase = Rabbits.getPicWidthInMbs := by
  rw [getPicWidthInMbs, erase_bind, erase_getFormat]
  rfl

theorem erase_getPicHeightInMbs : getPicHeightInMbs.erase = Rabbits.getPicHeightInMbs := by
  rw [getPicHeightInMbs, erase_bind, erase_getFormat]
  rfl

theorem erase_getOffset (slice : Nat) : (getOffset slice).erase = Rabbits.getOffset slice := by
  simp only [getOffset, erase_bind, erase_getData]
  rfl

theorem erase_getSliceLength (slice : Nat) :
    (getSliceLength slice).erase = Rabbits.getSliceLength slice := by
  simp only [getSliceLength, erase_bind, erase_getData]
  rfl

theorem erase_getMbByte (mbX mbY byte : Nat) : (getMbByte mbX mbY byte).erase =
    (do Rabbits.getData (mbAddr (← Rabbits.PicWidthInMbs) mbX mbY byte) : DbfM Byte) := by
  simp only [getMbByte, erase_bind, erase_getData]
  rfl

theorem erase_setMbByte (mbX mbY byte : Nat) (val : Byte) : (setMbByte mbX mbY byte val).erase =
    (do Rabbits.setData (mbAddr (← Rabbits.PicWidthInMbs) mbX mbY byte) val : DbfM Unit) := by
  simp only [setMbByte, erase_bind, erase_setData]
  rfl

theorem erase_getQP (x y qpType : Nat) : (getQP x y qpType).erase = Rabbits.getQP x y qpType := by
  simp only [getQP, erase_bind, erase_getMbByte]
  rfl

theorem erase_intraAt (x y : Nat) : (intraAt x y).erase = Rabbits.intraAt x y := by
  simp only [intraAt, getMode, erase_bind, erase_getMbByte]
  rfl

theorem erase_codedAt (x y : Nat) : (codedAt x y).erase = Rabbits.codedAt x y := by
  simp only [codedAt, getTotalCoeffL, erase_bind, erase_getMbByte]
  rfl

theorem erase_getMV (mvOffset x y : Nat) :
    (getMV mvOffset x y).erase = Rabbits.getMV mvOffset x y := by
  simp only [getMV, erase_bind, erase_getData]
  rfl

theorem erase_movesApart (mvOffset qx qy px py : Nat) :
    (movesApart mvOffset qx qy px py).erase =
      Rabbits.movesApart (Rabbits.getMV mvOffset) qx qy px py := by
  simp only [movesApart, erase_bind, erase_getMV]
  rfl

theorem erase_getBS (qx qy px py : Nat) :
    (getBS qx qy px py).erase = Rabbits.getBS qx qy px py := by
  simp only [getBS, erase_bind, erase_ite, erase_andM, erase_orM, erase_intraAt, erase_codedAt,
    erase_movesApart]
  rfl

theorem erase_getAlpha (slice : Nat) : (getAlpha slice).erase = Rabbits.getAlpha slice :=
  erase_getData _

theorem erase_getBeta (slice : Nat) : (getBeta slice).erase = Rabbits.getBeta slice :=
  erase_getData _

theorem erase_filterBlock (slice qx qy px py chromaFlag : Nat) (qp : SQp) (bS : Nat) :
    (filterBlock slice qx qy px py chromaFlag qp bS).erase =
      Rabbits.filterBlock slice qx qy px py chromaFlag qp bS := by
  simp only [filterBlock, Rabbits.filterBlock, erase_bind, erase_pure, erase_getQP, erase_getAlpha,
    erase_getBeta]

theorem erase_filterEdge {getPixel : Nat × Nat → DbfCode Byte} {getPixel' : Nat × Nat → DbfM Byte}
    {setPixel : Nat × Nat → Byte → DbfCode PUnit} {setPixel' : Nat × Nat → Byte → DbfM Unit}
    (hget : ∀ a, (getPixel a).erase = getPixel' a)
    (hset : ∀ a val, (setPixel a val).erase = setPixel' a val) (slice chromaFlag : Nat)
    (q p : Nat → Nat × Nat) (qx qy px py : Nat) :
    (filterEdge slice chromaFlag getPixel setPixel q p qx qy px py).erase =
      Rabbits.filterEdge slice chromaFlag getPixel' setPixel' q p qx qy px py := by
  simp only [filterEdge, filteredSamples, erase_bind, erase_forM, erase_getBS, erase_filterBlock,
    hget, hset, bind_assoc]
  rfl

theorem erase_filterCall (slice : Nat) (c : EdgeCall) :
    (filterCall slice c).erase = c.filter slice := by
  cases c with
  | luma dir x y =>
      rw [filter_luma, filterCall]
      exact erase_filterEdge (fun a => erase_getMbByte _ _ _) (fun a => erase_setMbByte _ _ _) ..
  | chroma dir iCbCr x y =>
      rw [filter_chroma, filterCall]
      exact erase_filterEdge (fun a => erase_getMbByte _ _ _) (fun a => erase_setMbByte _ _ _) ..

theorem erase_filterMbs (slice picWidthInMbs offsetMb mbCount : Nat) :
    (filterMbs slice picWidthInMbs offsetMb mbCount).erase =
      Rabbits.filterMbs slice picWidthInMbs offsetMb mbCount := by
  simp only [filterMbs, filterMbs_eq, sliceCalls, forM_flatMap, erase_forM, erase_filterCall]

theorem erase_filterSlice (slice : Nat) :
    (filterSlice slice).erase = Rabbits.filterSlice slice := by
  simp only [filterSlice, erase_bind, erase_getPicWidthInMbs, erase_getPicHeightInMbs,
    erase_getSliceLength, erase_getOffset, erase_filterMbs]
  rfl

theorem erase_masterRequestStart :
    DbfCode.masterRequestStart.erase = Rabbits.masterRequestStart := by
  simp only [masterRequestStart, Rabbits.masterRequestStart, erase_bind, erase_getPicWidthInMbs,
    erase_getPicHeightInMbs]
  congr 1
  funext nbMbHeight
  congr 1
  funext nbMbWidth d
  show (if d.adrDest &&& 0x3#32 ≠ 0#32 then exit else _ : DbfCode SramCopy).erase d =
    (if d.adrDest &&& 0x3#32 ≠ 0#32 then failure else _ : DbfM SramCopy) d
  split_ifs <;> rfl

theorem erase_raiseStatus (bits : Byte) (d : DbfDevice) :
    (raiseStatus bits).erase d = some (⟨⟩, d.raiseStatus bits) := by
  rw [raiseStatus, erase_peek_bind, erase_poke_bind, erase_peek_bind, erase_peek_bind,
    DbfDevice.raiseStatus]
  split_ifs <;> rfl

theorem erase_masterRequestEnd : DbfCode.masterRequestEnd.erase = Rabbits.masterRequestEnd := by
  rw [masterRequestEnd, erase_bind, erase_setData]
  congr 1
  funext _ d
  exact erase_raiseStatus _ d

/-- The words themselves change nothing. -/
theorem erase_masterRequest : masterRequest.erase = (do
    let _c ← Rabbits.masterRequestStart
    Rabbits.masterRequestEnd : DbfM Unit) := by
  have hwords : ∀ xs : List Nat, (forM xs fun regAddr => do
      let _word ← peekLong regAddr
      pure ⟨⟩ : DbfCode PUnit).erase = pure ⟨⟩ := by
    intro xs
    induction xs with
    | nil => rfl
    | cons x xs ih =>
        rw [List.forM_cons, erase_bind, ih]
        rfl
  rw [masterRequest, erase_bind, erase_masterRequestStart]
  congr 1
  funext c
  rw [erase_bind, hwords, erase_masterRequestEnd]
  rfl

end DbfCode

end Rabbits
