/-
  File:      Rabbits/Fb/Link.lean
  Subject:   What ties the framebuffer device to its viewer, and what each step does to it.

  Of the whole device only a few fields decide which buffer is filled, completed, signalled and
  shown. `FbLink` has these fields and the operations on them, without the registers; the functions
  of the device are these operations under conditions on the registers.

  * `FbLink` -- its operations `display`, `endRound`, `transfer`, `start`, `stop`;
  * `displays`, `roundEnd`, `fills` -- which accesses are display commands, which steps end a round
    of `display_thread`, and which store into a buffer that is attached;
  * `link_slaveWrite`, `link_runDisplay`, `link_response`, `link_runStartStop` -- **the functions of
    the device on the link**.
-/
import Rabbits.Fb.FbDevice

namespace Rabbits

open Lib

/-! ## 1. The link -/

/-- The fields of `FbDevice` on which device and viewer have to agree. -/
structure FbLink where
  status : FbStatus
  mem : FbMem
  memSize : ULong
  gen : Nat
  memIdx : Fin 2
  viewer : Viewer
  viewable : Bool
  displayThread : DisplayThread
  deriving DecidableEq

namespace FbLink

def display (c : FbLink) : FbLink :=
  { c with memIdx := otherBuf c.memIdx, displayThread := c.displayThread.wake }

def endRound (c : FbLink) : FbLink :=
  { c with viewer := FbDevice.signal c.viewer, displayThread := .waiting false }

def transfer (c : FbLink) (gen : Nat) (idx : Fin 2) (addr offset : ULong) : FbLink :=
  { c with displayThread := .dma gen idx addr offset }

def start (c : FbLink) (memSize : ULong) (viewable : Bool) : FbLink :=
  { c with
    status := .RUNNING, mem := .attached, memSize, gen := c.gen + 1, viewer := .starting, viewable }

def stop (c : FbLink) : FbLink :=
  { c with status := .STOPPED, mem := .detached, viewer := .reaped }

end FbLink

namespace FbDevice

def link (d : FbDevice) : FbLink :=
  ⟨d.regs.status, d.mem, d.memSize, d.gen, d.memIdx, d.viewer, d.viewable, d.displayThread⟩

/-! ## 2. What decides a step -/

/-- The write is a display command. -/
def displays (d : FbDevice) : Label → Bool
  | .write ofs be data =>
      match decodeFbRegister (lofsOf ofs be) with
      | some .CTRL => d.toggles (valueOf be data) FB_CTRL_DISPLAY
      | none => (d.frameOffset ofs be).any (d.wraps · be)
      | _ => false
  | _ => false

/-- The buffer of the round of `display_thread` that this step ends. -/
def roundEnd (d : FbDevice) : Label → Option (Fin 2)
  | .display => if d.regs.dmaen ∧ 0#32 < d.memSize then none else some d.procIdx
  | .response bErr _ =>
      match d.displayThread with
      | .dma _ idx _ offset => if ¬ bErr ∧ offset + 4#32 < d.memSize then none else some idx
      | .waiting _ => none
  | _ => none

/-- The buffer that this step stores into, when it is one of those the viewer has. -/
def fills (d : FbDevice) (l : Label) : Option (Fin 2) :=
  if d.mem = .attached then
    match l with
    | .write ofs be _ =>
        (d.frameOffset ofs be).map fun memOfs =>
          if d.wraps memOfs be then otherBuf d.memIdx else d.memIdx
    | .response _ _ =>
        match d.displayThread with
        | .dma gen idx _ _ => if gen = d.gen then some idx else none
        | .waiting _ => none
    | _ => none
  else none

/-! ## 3. The functions of the device on the link -/

@[simp] theorem link_store (d : FbDevice) (idx : Fin 2) (memOfs : Nat) (val : ULong) :
    (d.store idx memOfs val).link = d.link := by
  unfold store
  split <;> rfl

@[simp] theorem link_display (d : FbDevice) : d.display.link = d.link.display := rfl

theorem link_writeCtrl (d : FbDevice) (val : ULong) :
    (d.writeCtrl val).link = if d.toggles val FB_CTRL_DISPLAY then d.link.display else d.link := by
  simp only [writeCtrl]
  split <;> rfl

theorem link_writeFrame (d : FbDevice) (memOfs : ULong) (be : Byte) (val : ULong) :
    (d.writeFrame memOfs be val).link =
      if d.wraps memOfs be then d.link.display else d.link := by
  simp only [writeFrame, link_store]
  split <;> rfl

/-- **A write.** -/
theorem link_slaveWrite (d : FbDevice) (ofs : ULong) (be : Byte) (data : Fin 8 → Byte) :
    (d.slaveWrite ofs be data).link =
      if d.displays (.write ofs be data) then d.link.display else d.link := by
  cases hreg : decodeFbRegister (lofsOf ofs be) with
  | some r =>
      cases r with
      | CTRL => simp only [slaveWrite, displays, hreg, link_writeCtrl]
      | WH | BUF | IRQCLR | MODE =>
          simp only [slaveWrite, displays, hreg, Bool.false_eq_true, if_false]
          rfl
  | none =>
      cases hofs : d.frameOffset ofs be with
      | none =>
          simp only [slaveWrite, displays, hreg, hofs, Option.any_none, Bool.false_eq_true, if_false]
          rfl
      | some memOfs =>
          simp only [slaveWrite, displays, hreg, hofs, Option.any_some, link_writeFrame]

@[simp] theorem link_slaveRead (d : FbDevice) (ofs : ULong) (be : Byte) :
    (d.slaveRead ofs be).1.link = d.link := by
  unfold slaveRead
  split
  all_goals try rfl
  split <;> rfl

@[simp] theorem link_runIrqUpdate (d : FbDevice) : d.runIrqUpdate.link = d.link := by
  simp only [runIrqUpdate]
  split
  · split <;> rfl
  · rfl

@[simp] theorem link_refreshDone (d : FbDevice) : d.refreshDone.link = d.link.endRound := rfl

theorem link_dmaLoop (d : FbDevice) (gen : Nat) (idx : Fin 2) (addr offset : ULong) :
    (d.dmaLoop gen idx addr offset).link =
      if offset < d.memSize then d.link.transfer gen idx addr offset else d.link.endRound := by
  unfold dmaLoop
  split <;> rfl

/-- **A round of `display_thread`**: over at once, or a DMA into `proc_idx`. -/
theorem link_runDisplay (d : FbDevice) :
    d.runDisplay.link =
      if (d.roundEnd .display).isSome then d.link.endRound
      else d.link.transfer d.gen d.procIdx d.regs.bufAddr 0#32 := by
  unfold runDisplay roundEnd
  by_cases hdma : d.regs.dmaen = true
  · by_cases hsize : 0#32 < d.memSize
    · simp [hdma, hsize, link_dmaLoop]
    · simp [hdma, hsize, link_dmaLoop]
  · simp [hdma]

/-- **A response to the DMA**: the last one, or there is one more. -/
theorem link_response (d : FbDevice) {gen : Nat} {idx : Fin 2} {addr offset : ULong}
    (h : d.displayThread = .dma gen idx addr offset) (bErr : Bool) (data : ULong) :
    (d.response gen idx addr offset bErr data).link =
      if (d.roundEnd (.response bErr data)).isSome then d.link.endRound
      else d.link.transfer gen idx addr (offset + 4#32) := by
  obtain ⟨x, hx, hlink, hsize⟩ : ∃ x, (if gen = d.gen then d.store idx (offset.toNat / 4) data else d)
      = x ∧ x.link = d.link ∧ x.memSize = d.memSize := by
    refine ⟨_, rfl, ?_⟩
    split
    · exact ⟨link_store .., by unfold store; split <;> rfl⟩
    · exact ⟨rfl, rfl⟩
  simp only [response, hx, roundEnd, h]
  cases bErr with
  | true => simp [hlink]
  | false =>
      by_cases hlt : offset + 4#32 < d.memSize
      · simp [hlink, link_dmaLoop, hsize, hlt]
      · simp [hlink, link_dmaLoop, hsize, hlt]

theorem stopped_of_starts {d : FbDevice} (h : d.starts = true) : d.link.status = .STOPPED :=
  eq_of_beq (Bool.and_eq_true_iff.mp h).1

/-- An `int` is a size of shared memory. -/
def IsSize (n : ULong) : Prop := 0 < n.toInt

theorem IsSize.lt {n : ULong} (h : IsSize n) : n.toNat < 2 ^ 31 := by
  have := BitVec.toInt_pos_iff.mp (Int.le_of_lt h)
  omega

/-- A start has its shared memory, or the process comes to its end. -/
theorem link_init (d : FbDevice) :
    (∃ n v, IsSize n ∧ d.init.link = d.link.start n v ∧ d.init.halted = d.halted) ∨
      (d.init.halted = true ∧ d.init.link = d.link) := by
  simp only [init]
  split
  · exact .inr ⟨rfl, rfl⟩
  · next h => exact .inl ⟨_, _, Int.not_le.mp (not_or.mp h).2, rfl, rfl⟩

/-- **A round of `start_stop_thread`.** -/
theorem link_runStartStop (d : FbDevice) :
    (d.starts = true ∧ ∃ n v, IsSize n ∧ d.runStartStop.link = d.link.start n v) ∨
      (d.stops = true ∧ d.runStartStop.link = d.link.stop) ∨ d.runStartStop.link = d.link := by
  simp only [runStartStop]
  split
  · next h =>
      rcases link_init { d with startStopWoken := false } with ⟨n, v, hn, hi, -⟩ | ⟨-, hi⟩
      · exact .inl ⟨h, n, v, hn, hi⟩
      · exact .inr (.inr hi)
  · split
    · next h => exact .inr (.inl ⟨h, rfl⟩)
    · exact .inr (.inr rfl)

/-- A process that has halted takes no step. -/
theorem halted_of_next {d d' : FbDevice} {l : Label} (h : next d l = some d') : d.halted = false := by
  cases hh : d.halted with
  | false => rfl
  | true => simp [next, hh] at h

/-! ## 4. A device and accesses to it -/

/-- A write of CTRL, and one of the first word of the frame memory, on the low lanes. -/
def ctrlWrite (val : Byte) : Label := .write 12#32 0x0F#8 fun i => if i.val = 0 then val else 0#8

def frameWrite (val : Byte) : Label := .write 0x1000#32 0x0F#8 fun i => if i.val = 0 then val else 0#8

/-- Running from reset, with one point of ARGB. -/
def argbReset : FbReset := ⟨true, 1#16, 1#16, 4#32, false⟩

end FbDevice

end Rabbits
