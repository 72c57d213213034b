/-
  File:      Rabbits/Fb/FbDevice.lean
  Subject:   The framebuffer device (framebuffer_device.cpp) and its viewer process (fb_viewer.c).

  Device and viewer share two frame buffers. The slave writes one of them, `display_thread` may fill
  the other one by DMA and sends SIGUSR1, and the viewer shows the buffer whose turn it is. Each
  side counts for itself whose turn it is.

  * `FbRegs`, `FbDevice` -- the registers, the shared buffers, the threads and the viewer;
  * `slaveWrite`, `slaveRead` -- the accesses of masters, to registers and to frame memory;
  * `init`, `uninit`, `runStartStop` -- starting and stopping, with the viewer process;
  * `runDisplay`, `response` -- `display_thread`, and a response to its DMA;
  * `FbDevice.next` -- one step of the device or of the viewer.

  `halted`: the process has called `exit`, or asks `shmget` for ever for no bytes or for a negative
  number of them (the host has memory for every other size), or has written behind its tables of ten
  viewers: a platform has one framebuffer, each of its starts takes a place in them, and a stop gives
  none back. An access through a pointer that is not attached changes nothing here (the process would
  be killed).

  The viewer ends by itself when its frame is no part of the shared memory, and in a refresh without
  a conversion. Left out are the tables' entries, for `close_ramdacs`, which runs after `exit`, the
  pictures that the viewer makes of its copy of a buffer, and a conversion that leaves the copy.
-/
import Rabbits.Noc.MasterDevice
import Rabbits.Noc.SlaveDevice
import Rabbits.Lib.Labelled
import Rabbits.Viewer.FbViewer
import Mathlib.Logic.Function.Basic

namespace Rabbits

open Lib

/-! ## 1. The data -/

/-- `fb_status`. -/
inductive FbStatus where
  | STOPPED
  | RUNNING
  deriving DecidableEq

/-- `fb_registers`, by word offset; everything else is frame memory. -/
inductive FbRegister where
  | WH
  | BUF
  | IRQCLR
  | CTRL
  | MODE
  deriving DecidableEq

def FB_DEVICE_MEM : ULong := 0x400#32

def decodeFbRegister (lofs : ULong) : Option FbRegister :=
  match lofs.toNat with
  | 0 => some .WH
  | 1 => some .BUF
  | 2 => some .IRQCLR
  | 3 => some .CTRL
  | 4 => some .MODE
  | _ => none

def FB_CTRL_START : ULong := 1#32
def FB_CTRL_IRQEN : ULong := 2#32
def FB_CTRL_DMAEN : ULong := 4#32
def FB_CTRL_DISPLAY : ULong := 8#32
def FB_IRQ_GLOBAL : ULong := 0x80000000#32

/-- `fb_regs`. -/
structure FbRegs where
  imageW : BitVec 16
  imageH : BitVec 16
  mode : ULong
  bufAddr : ULong
  ctrl : ULong
  irqstat : ULong
  status : FbStatus
  dmaen : Bool
  dispWrap : Bool
  deriving DecidableEq

/-- What `m_io_res->mem` leads to: it is NULL before the first start, and leads to shared memory
    that is attached or has been detached by a stop. -/
inductive FbMem where
  | null
  | attached
  | detached
  deriving DecidableEq

/-- `mem_idx` and `buf_idx` begin with this one of the two buffers. -/
def firstBuf : Fin 2 := 0

/-- `(idx + 1) % 2`. -/
def otherBuf (idx : Fin 2) : Fin 2 := idx + 1

/-- `pids_ramdac`, `shm_addr` and `shmids` have places for this many viewers. -/
def viewerPlaces : Nat := 10

/-- The process that `m_pid` names: none yet, a viewer before and after it has installed its
    handler for SIGUSR1, a viewer in its handler, which copies buffer `bufIdx` while SIGUSR1 is
    blocked, a viewer that SIGUSR1 has terminated or that has ended by itself, or one that has been
    killed and waited for. -/
inductive Viewer where
  | unset
  | starting
  | ready (bufIdx : Fin 2) (pending : Bool)
  | refreshing (bufIdx : Fin 2) (pending : Bool)
  | terminated
  | reaped
  deriving DecidableEq

/-- `display_thread`: in `wait (m_ev_display)`, woken or not, or in a `cmd_read` of its DMA, with
    `data` (buffer `idx` of the start number `gen`), `addr` and `offset`. -/
inductive DisplayThread where
  | waiting (woken : Bool)
  | dma (gen : Nat) (idx : Fin 2) (addr offset : ULong)
  deriving DecidableEq

/-- A notification of `m_ev_display`: it is lost on a thread that is in its DMA. -/
def DisplayThread.wake : DisplayThread → DisplayThread
  | .waiting _ => .waiting true
  | t => t

/-- `fb_device` with its slave, its master and the viewer: the registers, `mem`, `mem_size`,
    `mem_idx` and `m_buf_size`, the number of starts, the words of the two buffers, the viewer and
    what it was given, the threads, and the line `irq`. -/
structure FbDevice where
  regs : FbRegs
  mem : FbMem
  memSize : ULong
  memIdx : Fin 2
  bufSize : ULong
  gen : Nat
  shm : Fin 2 → Nat → ULong
  viewer : Viewer
  config : ViewerConfig
  displayThread : DisplayThread
  startStopWoken : Bool
  irqWoken : Bool
  irqLine : Bool
  halted : Bool

namespace FbDevice

/-! ## 2. The slave -/

/-- `display`. -/
def display (d : FbDevice) : FbDevice :=
  { d with memIdx := otherBuf d.memIdx, displayThread := d.displayThread.wake }

/-- A write to CTRL toggles this bit. -/
def toggles (d : FbDevice) (val bit : ULong) : Bool := (d.regs.ctrl ^^^ val) &&& bit ≠ 0#32

/-- The CTRL case of `write`. -/
def writeCtrl (d : FbDevice) (val : ULong) : FbDevice :=
  let regs := { d.regs with
    ctrl := if d.toggles val FB_CTRL_DISPLAY then val &&& ~~~FB_CTRL_DISPLAY else val
    dmaen := if d.toggles val FB_CTRL_DMAEN then val &&& FB_CTRL_DMAEN ≠ 0#32 else d.regs.dmaen }
  let d' := { d with
    regs
    startStopWoken := d.startStopWoken || d.toggles val FB_CTRL_START
    irqWoken := d.irqWoken || d.toggles val FB_CTRL_IRQEN }
  if d.toggles val FB_CTRL_DISPLAY then d'.display else d'

/-- `s_mask`. -/
def maskOf (lbe : Byte) : ULong :=
  let lane (i : Nat) : Byte := if lbe.getLsbD i then 0xFF#8 else 0#8
  lane 3 ++ lane 2 ++ lane 1 ++ lane 0

/-- `ptr[mem_ofs] = val` in buffer `idx`. -/
def store (d : FbDevice) (idx : Fin 2) (memOfs : Nat) (val : ULong) : FbDevice :=
  if d.mem = .attached then
    { d with shm := Function.update d.shm idx (Function.update (d.shm idx) memOfs val) }
  else d

/-- `mem_ofs`, when it is inside the frame memory. -/
def frameOffset (d : FbDevice) (ofs : ULong) (be : Byte) : Option ULong :=
  if decodeFbRegister (lofsOf ofs be) = none ∧ lofsOf ofs be - FB_DEVICE_MEM < d.memSize >>> 2 then
    some (lofsOf ofs be - FB_DEVICE_MEM)
  else none

/-- A frame write that updates the display: "each time we write at the zero position". -/
def wraps (d : FbDevice) (memOfs : ULong) (be : Byte) : Bool :=
  d.regs.dispWrap && memOfs == 0#32 && be.getLsbD 0

/-- The frame write of `write`. -/
def writeFrame (d : FbDevice) (memOfs : ULong) (be : Byte) (val : ULong) : FbDevice :=
  let d := if d.wraps memOfs be then d.display else d
  let mask := maskOf (lbeOf be)
  d.store d.memIdx memOfs.toNat (d.shm d.memIdx memOfs.toNat &&& ~~~mask ||| val &&& mask)

/-- `fb_device_slave::write`. -/
def slaveWrite (d : FbDevice) (ofs : ULong) (be : Byte) (data : Fin 8 → Byte) : FbDevice :=
  let val := valueOf be data
  match decodeFbRegister (lofsOf ofs be) with
  | some .WH => { d with regs := { d.regs with
      imageW := val.extractLsb' 0 16, imageH := val.extractLsb' 16 16 } }
  | some .MODE => { d with regs := { d.regs with mode := val } }
  | some .BUF => { d with regs := { d.regs with bufAddr := val } }
  | some .IRQCLR =>
      { d with regs := { d.regs with irqstat := d.regs.irqstat &&& ~~~val }, irqWoken := true }
  | some .CTRL => d.writeCtrl val
  | none =>
      match d.frameOffset ofs be with
      | some memOfs => d.writeFrame memOfs be val
      | none => { d with halted := true }

/-- `fb_device_slave::read`: the device, and `*val`. -/
def slaveRead (d : FbDevice) (ofs : ULong) (be : Byte) : FbDevice × ULong :=
  match decodeFbRegister (lofsOf ofs be) with
  | some .WH => (d, d.regs.imageH ++ d.regs.imageW)
  | some .MODE => (d, d.regs.mode)
  | some .BUF => (d, d.regs.bufAddr)
  | some .IRQCLR => (d, d.regs.irqstat)
  | some .CTRL => (d, d.regs.ctrl)
  | none =>
      match d.frameOffset ofs be with
      | some memOfs => (d, d.shm d.memIdx memOfs.toNat &&& ~~~maskOf (lbeOf be))
      | none => ({ d with halted := true }, 0#32)

/-! ## 3. Start and stop -/

/-- `m_buf_size` for a picture; a mode without one leaves it as it is. -/
def bufSizeOf (w h : BitVec 16) (mode : ULong) (bufSize : ULong) : ULong :=
  let area := h.setWidth 32 * w.setWidth 32
  match mode.toNat with
  | 1 => area
  | 2 | 3 => 3#32 * area
  | 4 | 5 => 4#32 * area
  | 6 | 7 | 8 | 9 => 3#32 * area
  | _ => bufSize

/-- `init`, with `init_viewer`, which has no place for an eleventh viewer, and whose search for a key
    ends only for a positive `m_buf_size`. -/
def init (d : FbDevice) : FbDevice :=
  let bufSize := bufSizeOf d.regs.imageW d.regs.imageH d.regs.mode d.bufSize
  if viewerPlaces ≤ d.gen ∨ bufSize.toInt ≤ 0 then { d with bufSize, halted := true }
  else
    { d with
      bufSize
      viewer := .starting
      config := ⟨d.regs.imageW.setWidth 32, d.regs.imageH.setWidth 32, d.regs.mode⟩
      gen := d.gen + 1
      shm := fun _ _ => 0#32
      mem := .attached
      memSize := bufSize
      regs := { d.regs with status := .RUNNING } }

/-- `uninit`, with `close_viewer`. -/
def uninit (d : FbDevice) : FbDevice :=
  { d with
    bufSize := 0#32
    mem := .detached
    viewer := .reaped
    regs := { d.regs with status := .STOPPED } }

/-- A round of `start_stop_thread` starts, stops, or finds nothing to do. -/
def starts (d : FbDevice) : Bool :=
  d.regs.status == .STOPPED && d.regs.ctrl &&& FB_CTRL_START != 0#32

def stops (d : FbDevice) : Bool :=
  d.regs.status == .RUNNING && d.regs.ctrl &&& FB_CTRL_START == 0#32

/-- `start_stop_thread` up to its next wait. -/
def runStartStop (d : FbDevice) : FbDevice :=
  let d := { d with startStopWoken := false }
  if d.starts then d.init else if d.stops then d.uninit else d

/-! ## 4. The display thread and the viewer -/

/-- The viewer's `shmget` finds as many bytes as it asks for: `size` is the `int` of `get_size` as a
    `uint64_t`, which makes a negative one too large. -/
def viewerFits (d : FbDevice) : Bool :=
  let size := getSize d.config.width d.config.height d.config.mode
  decide (0 ≤ size) && decide (size ≤ d.memSize.toNat)

/-- The viewer of the last start can show a frame. -/
def viewable (d : FbDevice) : Bool := d.viewerFits && hasConversion d.config.mode

/-- SIGUSR1: a viewer without its handler is terminated; a second signal merges with a pending one. -/
def signal : Viewer → Viewer
  | .starting => .terminated
  | .ready bufIdx _ => .ready bufIdx true
  | .refreshing bufIdx _ => .refreshing bufIdx true
  | v => v

/-- The end of a round of `display_thread`. -/
def refreshDone (d : FbDevice) : FbDevice :=
  { d with
    viewer := signal d.viewer
    regs := { d.regs with irqstat := d.regs.irqstat ||| 1#32 }
    irqWoken := true
    displayThread := .waiting false }

/-- The DMA loop, from its test on. -/
def dmaLoop (d : FbDevice) (gen : Nat) (idx : Fin 2) (addr offset : ULong) : FbDevice :=
  if offset < d.memSize then { d with displayThread := .dma gen idx addr offset } else d.refreshDone

/-- `proc_idx`. -/
def procIdx (d : FbDevice) : Fin 2 := otherBuf d.memIdx

/-- `display_thread` from its wait on. -/
def runDisplay (d : FbDevice) : FbDevice :=
  if d.regs.dmaen then d.dmaLoop d.gen d.procIdx d.regs.bufAddr 0#32 else d.refreshDone

/-- A response to its DMA: the word goes into the buffer also after an error. -/
def response (d : FbDevice) (gen : Nat) (idx : Fin 2) (addr offset : ULong) (bErr : Bool)
    (data : ULong) : FbDevice :=
  let d := if gen = d.gen then d.store idx (offset.toNat / 4) data else d
  if bErr then d.refreshDone else d.dmaLoop gen idx addr (offset + 4#32)

/-- `irq_update_thread` up to its next wait. -/
def runIrqUpdate (d : FbDevice) : FbDevice :=
  let d := { d with irqWoken := false }
  if d.regs.ctrl &&& FB_CTRL_IRQEN ≠ 0#32 then
    if d.regs.irqstat &&& ~~~FB_IRQ_GLOBAL ≠ 0#32 then
      { d with regs := { d.regs with irqstat := d.regs.irqstat ||| FB_IRQ_GLOBAL }, irqLine := true }
    else
      { d with
        regs := { d.regs with irqstat := d.regs.irqstat &&& ~~~FB_IRQ_GLOBAL }, irqLine := false }
  else { d with irqLine := false }

/-! ## 5. Steps -/

/-- The accesses of any masters, the rounds of the threads, a response to the DMA, and the viewer:
    it installs its handler or exits, enters `refresh` on a signal, and leaves it or, calling NULL
    for `convert`, is killed in it. -/
inductive Label where
  | write (ofs : ULong) (be : Byte) (data : Fin 8 → Byte)
  | read (ofs : ULong) (be : Byte)
  | startStop
  | display
  | response (bErr : Bool) (data : ULong)
  | irqUpdate
  | viewerReady
  | refresh
  | refreshed

/-- One step. -/
def next (d : FbDevice) (l : Label) : Option FbDevice :=
  if d.halted then none
  else
    match l with
    | .write ofs be data => some (d.slaveWrite ofs be data)
    | .read ofs be => some (d.slaveRead ofs be).1
    | .startStop => if d.startStopWoken then some d.runStartStop else none
    | .display => if d.displayThread = .waiting true then some d.runDisplay else none
    | .response bErr data =>
        match d.displayThread with
        | .dma gen idx addr offset => some (d.response gen idx addr offset bErr data)
        | .waiting _ => none
    | .irqUpdate => if d.irqWoken then some d.runIrqUpdate else none
    | .viewerReady =>
        if d.viewer = .starting then
          some { d with viewer := if d.viewerFits then .ready firstBuf false else .terminated }
        else none
    | .refresh =>
        match d.viewer with
        | .ready bufIdx true => some { d with viewer := .refreshing bufIdx false }
        | _ => none
    | .refreshed =>
        match d.viewer with
        | .refreshing bufIdx pending =>
            some { d with
              viewer :=
                if hasConversion d.config.mode then .ready (otherBuf bufIdx) pending
                else .terminated }
        | _ => none

/-- `fb_reset_t`. -/
structure FbReset where
  fbStart : Bool
  fbW : BitVec 16
  fbH : BitVec 16
  fbMode : ULong
  fbDisplayOnWrap : Bool

/-- The constructor; nothing initialises `m_buf_size`. -/
def new (reset : FbReset) (bufSize : ULong) : FbDevice :=
  let d : FbDevice :=
    { regs :=
        if reset.fbStart then
          ⟨reset.fbW, reset.fbH, reset.fbMode, 0#32, FB_CTRL_START, 0#32, .RUNNING, false,
            reset.fbDisplayOnWrap⟩
        else ⟨0#16, 0#16, 0#32, 0#32, 0#32, 0#32, .STOPPED, false, false⟩
      mem := .null
      memSize := 0#32
      memIdx := firstBuf
      bufSize
      gen := 0
      shm := fun _ _ => 0#32
      viewer := .unset
      config := ⟨0#32, 0#32, 0#32⟩
      displayThread := .waiting false
      startStopWoken := false
      irqWoken := false
      irqLine := false
      halted := false }
  if reset.fbStart then d.init else d

end FbDevice

end Rabbits
