/-
  File:      Rabbits/Block/Status.lean
  Subject:   Status and interrupt of the block device over whole runs.

  A step of `control_thread` in an operation either suspends again, with the status, the opcode
  and the interrupt as they are, or ends the operation; no other step touches the status while it
  is BUSY. So an interrupt is only ever set together with a success, and the status read that
  takes the success back clears it.

  * `Goes` -- what one step of `control_thread` in an operation does, and `reply_goes`,
    `runControl_goes`;
  * `BlockInv` -- the invariant, kept by every step (`blockInv_next`);
  * `status_and_interrupt` -- **status and interrupt in every reachable state**.
-/
import Rabbits.Block.HostFile

namespace Rabbits

open Lib

variable {η : Type} {fs : HostFs η}

namespace BlockDevice

/-! ## 1. What a step of an operation does -/

/-- Where the registers put the range in the file. -/
def position (d : BlockDevice η) : ULong := d.regs.lba * d.regs.blockSize

/-- From `d`, in an operation, to the next wait. -/
inductive Goes (d d' : BlockDevice η) : Prop where
  | suspends (control : d'.control.busAccess.isSome) (status : d'.regs.status = d.regs.status)
      (op : d'.regs.op = d.regs.op) (irq : d'.regs.irq = d.regs.irq)
      (position : d'.position = d.position)
  | ends (control : d'.control = .waiting false) (op : d'.regs.op = 0#32)
      (idle : d'.regs.status ≠ .IDLE) (busy : d'.regs.status ≠ .BUSY)
      (irq : d'.regs.irq = d.regs.irq ∨ d'.regs.status = .READ_SUCCESS ∨
        d'.regs.status = .WRITE_SUCCESS)

/-- What decides how a step goes on is only in these fields. -/
theorem Goes.of_regs {d₁ d₂ d' : BlockDevice η} (h : Goes d₁ d')
    (status : d₁.regs.status = d₂.regs.status) (op : d₁.regs.op = d₂.regs.op)
    (irq : d₁.regs.irq = d₂.regs.irq) (position : d₁.position = d₂.position) : Goes d₂ d' := by
  cases h with
  | suspends hc hs ho hi hp =>
      exact .suspends hc (hs.trans status) (ho.trans op) (hi.trans irq) (hp.trans position)
  | ends hc ho hidle hbusy hi => exact .ends hc ho hidle hbusy (irq ▸ hi)

/-- The interrupt, and the thread that shows it. -/
theorem raiseIrq_eq (d : BlockDevice η) : ∃ irq irqWoken,
    d.raiseIrq = { d with regs := { d.regs with irq }, irqWoken } := by
  unfold raiseIrq
  split
  · exact ⟨_, _, rfl⟩
  · exact ⟨d.regs.irq, d.irqWoken, rfl⟩

theorem readDone_goes (d : BlockDevice η) (t : Transfer) : Goes d (d.readDone t) := by
  unfold readDone
  split
  · exact .ends rfl rfl (by simp [done]) (by simp [done]) (.inl rfl)
  · exact .ends rfl rfl (by simp [done]) (by simp [done]) (.inr (.inl rfl))

theorem byteLoop_goes (d : BlockDevice η) (t : Transfer) : Goes d (d.byteLoop t) := by
  unfold byteLoop
  split
  · exact .suspends rfl rfl rfl rfl rfl
  · exact readDone_goes d t

theorem wordLoop_goes (d : BlockDevice η) (t : Transfer) : Goes d (d.wordLoop t) := by
  unfold wordLoop
  split
  · exact .suspends rfl rfl rfl rfl rfl
  · exact byteLoop_goes d t

theorem writeDone_goes (d : BlockDevice η) (t : Transfer) : Goes d (d.writeDone fs t) := by
  unfold writeDone
  split
  · exact .ends rfl rfl (by simp [done]) (by simp [done]) (.inl rfl)
  · exact .ends rfl rfl (by simp [done]) (by simp [done]) (.inr (.inr rfl))

/-- Opening a file changes the descriptor, the host and the size. -/
theorem openHostFile_eq (fs : HostFs η) (d : BlockDevice η) (name : Nat → Byte) : ∃ fd host size,
    d.openHostFile fs name = { d with fd, host, regs := { d.regs with size } } := by
  unfold openHostFile
  generalize (if d.fd ≠ -1 then fs.close d.host d.fd else d.host) = host
  dsimp only
  split
  · exact ⟨_, _, d.regs.size, rfl⟩
  · exact ⟨_, _, _, rfl⟩

theorem fileNameDone_goes (d : BlockDevice η) (t : Transfer) :
    Goes d (d.fileNameDone fs t) := by
  obtain ⟨d₁, hd₁, hirq⟩ : ∃ d₁, (if d.funcRet ≠ 0#32 then d.openHostFile fs t.dataBuff else d) = d₁ ∧
      d₁.regs.irq = d.regs.irq := by
    refine ⟨_, rfl, ?_⟩
    split
    · obtain ⟨fd, host, size, h⟩ := openHostFile_eq fs d t.dataBuff
      rw [h]
    · rfl
  simp only [fileNameDone, hd₁]
  split
  · exact .ends rfl rfl (by simp [done]) (by simp [done]) (.inl hirq)
  · exact .ends rfl rfl (by simp [done]) (by simp [done]) (.inr (.inr rfl))

theorem readLoop_goes (d : BlockDevice η) (name : Bool) (t : Transfer) :
    Goes d (d.readLoop fs name t) := by
  unfold readLoop
  split
  · exact .suspends rfl rfl rfl rfl rfl
  · split
    · exact fileNameDone_goes d t
    · exact writeDone_goes d t

/-- **A response** in an operation. -/
theorem reply_goes {d d' : BlockDevice η} {bErr : Bool} {data : ULong}
    (h : d.reply fs bErr data = some d') : Goes d d' := by
  have hr : ∀ {x}, Goes (d.rcvRsp bErr) x → Goes d x := fun hx => hx.of_regs rfl rfl rfl rfl
  unfold reply at h
  split at h
  · cases h
    split
    · exact hr (byteLoop_goes ..)
    · exact hr (wordLoop_goes ..)
  · cases h
    split
    · exact hr (readDone_goes ..)
    · exact hr (byteLoop_goes ..)
  · cases h
    split
    · split
      · exact hr (fileNameDone_goes ..)
      · exact hr (writeDone_goes ..)
    · exact hr (readLoop_goes ..)
  · cases h
  · cases h

/-- The status at the start of an operation. -/
def busy (d : BlockDevice η) : BlockDevice η := { d with regs := { d.regs with status := .BUSY } }

theorem startRead_goes (d : BlockDevice η) (fresh : Nat → Byte) :
    Goes d.busy (d.startRead fs fresh) := by
  unfold startRead
  dsimp only
  split
  · exact .ends rfl rfl (by simp [done]) (by simp [done]) (.inl rfl)
  · exact (wordLoop_goes ..).of_regs rfl rfl rfl rfl

theorem startWrite_goes (d : BlockDevice η) (name : Bool) (fresh : Nat → Byte) :
    Goes d.busy (d.startWrite fs name fresh) := by
  unfold startWrite
  exact readLoop_goes ..

end BlockDevice

/-- READ, WRITE and FILE_NAME: the commands with an operation. -/
def commandOf (op : ULong) : Option SlBlockOp := (decodeOp op).filter (· ≠ .NOOP)

namespace BlockDevice

/-- **A round of `control_thread`** starts the operation of a command, or does nothing to the
    registers. -/
theorem runControl_goes (fs : HostFs η) (d : BlockDevice η) (fresh : Nat → Byte) :
    ((commandOf d.regs.op).isSome ∧ Goes d.busy (d.runControl fs fresh)) ∨
      (commandOf d.regs.op = none ∧ (d.runControl fs fresh).regs = d.regs ∧
        (d.runControl fs fresh).control.busAccess = none) := by
  unfold runControl commandOf
  split
  · next h => exact .inr ⟨by rw [h]; rfl, rfl, rfl⟩
  · next h => exact .inl ⟨by rw [h]; rfl, startRead_goes ..⟩
  · next h => exact .inl ⟨by rw [h]; rfl, startWrite_goes ..⟩
  · next h => exact .inl ⟨by rw [h]; rfl, startWrite_goes ..⟩
  · next h => exact .inr ⟨by rw [h]; rfl, rfl, rfl⟩

end BlockDevice

/-! ## 2. What an access does -/

/-- The write is to OP and finds the status IDLE. -/
def Accepts (regs : SlBlockRegs) (ofs : ULong) (be : Byte) : Prop :=
  registerOf ofs be = some .OP ∧ regs.status = .IDLE

instance (regs : SlBlockRegs) (ofs : ULong) (be : Byte) : Decidable (Accepts regs ofs be) :=
  inferInstanceAs (Decidable (_ ∧ _))

/-- What a write does to the status, the interrupt and the opcode. -/
structure SlaveWritten (regs : SlBlockRegs) (ofs : ULong) (be : Byte) (data : Fin 8 → Byte)
    (a : SlaveAccess) : Prop where
  status : a.regs.status = regs.status
  irq : a.regs.irq = regs.irq
  opStart : a.opStart = decide (Accepts regs ofs be)
  op : a.regs.op = if Accepts regs ofs be then valueOf be data else regs.op

theorem slaveWrite_spec (regs : SlBlockRegs) (ofs : ULong) (be : Byte) (data : Fin 8 → Byte) :
    SlaveWritten regs ofs be data (slaveWrite regs ofs be data) := by
  unfold slaveWrite
  cases hreg : registerOf ofs be with
  | none => exact ⟨rfl, rfl, by simp [Accepts, hreg], by simp [Accepts, hreg]⟩
  | some r =>
      cases r with
      | OP =>
          by_cases hidle : regs.status = .IDLE
          · simp only [hidle, ne_eq, not_true_eq_false, if_false]
            exact ⟨hidle.symm, rfl, by simp [Accepts, hreg, hidle], by simp [Accepts, hreg, hidle]⟩
          · simp only [hidle, ne_eq, not_false_eq_true, if_true]
            exact ⟨rfl, rfl, by simp [Accepts, hidle], by simp [Accepts, hidle]⟩
      | _ => exact ⟨rfl, rfl, by simp [Accepts, hreg], by simp [Accepts, hreg]⟩

/-- A read of the status that is not BUSY clears status and interrupt; no other read changes a
    register. -/
theorem slaveRead_spec (regs : SlBlockRegs) (ofs : ULong) (be : Byte) :
    (slaveRead regs ofs be).opStart = false ∧ (slaveRead regs ofs be).regs =
      if registerOf ofs be = some .STATUS ∧ regs.status ≠ .BUSY then
        { regs with status := .IDLE, irq := 0#32 } else regs := by
  unfold slaveRead
  cases hreg : registerOf ofs be with
  | none => exact ⟨rfl, by simp⟩
  | some r =>
      cases r with
      | STATUS => by_cases hb : regs.status = .BUSY <;> simp [hb]
      | _ => exact ⟨rfl, by simp⟩

/-! ## 3. The invariant -/

/-- A successful READ or WRITE is over. -/
def Succeeded (status : SlBlockStatus) : Prop := status = .READ_SUCCESS ∨ status = .WRITE_SUCCESS

/-- Suspended in an operation, the status is BUSY; the interrupt is set only after a success; and
    a command that waits for `control_thread` has woken it. -/
structure BlockInv (d : BlockDevice η) : Prop where
  busy : d.regs.status = .BUSY ↔ d.control.busAccess.isSome
  irq : d.regs.irq ≠ 0#32 → Succeeded d.regs.status
  command : d.control.busAccess = none → (commandOf d.regs.op).isSome →
    d.regs.status = .IDLE ∧ d.control = .waiting true

/-- In an operation or IDLE, the interrupt is clear. -/
theorem BlockInv.irq_eq_zero {d : BlockDevice η} (h : BlockInv d)
    (hs : d.regs.status = .IDLE ∨ d.regs.status = .BUSY) : d.regs.irq = 0#32 := by
  by_contra hne
  rcases h.irq hne with h' | h' <;> rcases hs with hs | hs <;> simp [hs] at h'

theorem commandOf_zero : commandOf 0#32 = none := by decide

namespace BlockDevice

/-- A step of an operation keeps the invariant. -/
theorem Goes.blockInv {d d' : BlockDevice η} (h : Goes d d') (hs : d.regs.status = .BUSY)
    (hi : d.regs.irq = 0#32) : BlockInv d' := by
  cases h with
  | suspends hc hstatus hop hirq _ =>
      refine ⟨by simp [hstatus, hs, hc], fun hne => absurd (hirq.trans hi) hne, fun hn => ?_⟩
      simp [hn] at hc
  | ends hc hop hidle hbusy hirq =>
      refine ⟨by simp [hc, hbusy, Control.busAccess], fun hne => ?_, fun _ hcmd => ?_⟩
      · exact hirq.resolve_left fun h' => hne (h'.trans hi)
      · simp [hop, commandOf_zero] at hcmd

theorem wake_eq (c : Control) : (wake c).busAccess = c.busAccess := by
  cases c <;> rfl

/-- Awake, the thread waits for a command or is in an operation. -/
theorem wake_of_none {c : Control} (hc : c.busAccess = none) (hs : c ≠ .spinning) :
    wake c = .waiting true := by
  cases c with
  | waiting w => rfl
  | spinning => exact absurd rfl hs
  | writeWord t => cases hc
  | writeByte t => cases hc
  | readWord name t => cases hc

/-- The labels, with what is true of the state where they happen. -/
theorem next_cases {d d' : BlockDevice η} {l : Label} (h : next fs d l = some d') :
    d.control ≠ .spinning ∧
    ((∃ ofs be data, l = .write ofs be data ∧ d' = d.access (slaveWrite d.regs ofs be data)) ∨
      (∃ ofs be, l = .read ofs be ∧ d' = d.access (slaveRead d.regs ofs be)) ∨
      (∃ fresh, l = .control fresh ∧ d.control = .waiting true ∧ d' = d.runControl fs fresh) ∨
      (∃ bErr data, l = .response bErr data ∧ d.control.busAccess.isSome ∧
        d.reply fs bErr data = some d') ∨
      (l = .irqUpdate ∧ d' = d.irqUpdate)) := by
  unfold next at h
  split at h
  · cases h
  · next hs =>
      cases h
      exact ⟨fun hc => hs hc, .inl ⟨_, _, _, rfl, rfl⟩⟩
  · next hs =>
      cases h
      exact ⟨fun hc => hs hc, .inr (.inl ⟨_, _, rfl, rfl⟩)⟩
  · next hc =>
      cases h
      exact ⟨by simp [hc], .inr (.inr (.inl ⟨_, rfl, hc, rfl⟩))⟩
  · cases h
  · next hs =>
      refine ⟨fun hc => hs hc, .inr (.inr (.inr (.inl ⟨_, _, rfl, ?_, h⟩)))⟩
      unfold reply at h
      split at h
      all_goals simp_all [Control.busAccess]
  · next hs =>
      refine ⟨fun hc => hs hc, .inr (.inr (.inr (.inr ⟨rfl, ?_⟩)))⟩
      split at h
      · cases h
        rfl
      · cases h

/-- **Every step keeps the invariant.** -/
theorem blockInv_next {d d' : BlockDevice η} {l : Label} (hi : BlockInv d)
    (h : next fs d l = some d') : BlockInv d' := by
  obtain ⟨hspin, ⟨ofs, be, data, rfl, rfl⟩ | ⟨ofs, be, rfl, rfl⟩ | ⟨fresh, rfl, hc, rfl⟩ |
    ⟨bErr, data, rfl, hc, hr⟩ | ⟨rfl, rfl⟩⟩ := next_cases h
  · -- a write: status and interrupt stay; an accepted opcode wakes the thread
    have hw := slaveWrite_spec d.regs ofs be data
    have hacc : (d.access (slaveWrite d.regs ofs be data)).control.busAccess =
        d.control.busAccess := by
      unfold access
      dsimp only
      split
      · exact wake_eq d.control
      · rfl
    refine ⟨?_, ?_, fun hn hcmd => ?_⟩
    · rw [hacc]
      exact hw.status ▸ hi.busy
    · intro hne
      have := hi.irq (hw.irq ▸ hne)
      exact hw.status ▸ this
    · rw [hacc] at hn
      simp only [access, hw.op, hw.opStart, hw.status] at hcmd ⊢
      by_cases ha : Accepts d.regs ofs be
      · simp only [ha, decide_true, if_true]
        exact ⟨ha.2, wake_of_none hn hspin⟩
      · simp only [ha, decide_false, Bool.false_eq_true, if_false] at hcmd ⊢
        exact hi.command hn hcmd
  · -- a read: a finished status goes to IDLE and the interrupt is cleared
    obtain ⟨hstart, hregs⟩ := slaveRead_spec d.regs ofs be
    simp only [access, hstart, hregs, Bool.false_eq_true, if_false]
    split
    · next hst =>
        have hnb : d.control.busAccess = none := by
          rw [← Option.not_isSome_iff_eq_none, ← hi.busy]
          exact hst.2
        exact ⟨by simp [hnb], fun hne => absurd rfl hne, fun hn hcmd =>
          ⟨rfl, (hi.command hn hcmd).2⟩⟩
    · exact ⟨hi.busy, hi.irq, hi.command⟩
  · -- `control_thread` takes a command, or goes back to its wait
    have hnone : d.control.busAccess = none := by rw [hc]; rfl
    rcases runControl_goes fs d fresh with ⟨hcmd, hgoes⟩ | ⟨hno, hregs, hcontrol⟩
    · exact hgoes.blockInv rfl (hi.irq_eq_zero (.inl (hi.command hnone hcmd).1))
    · refine ⟨?_, by rw [hregs]; exact hi.irq, fun _ hcmd => ?_⟩
      · rw [hregs, hi.busy, hnone, hcontrol]
      · simp [hregs, hno] at hcmd
  · -- a response in an operation
    have hbusy := hi.busy.mpr hc
    exact (reply_goes hr).blockInv hbusy (hi.irq_eq_zero (.inr hbusy))
  · exact ⟨hi.busy, hi.irq, hi.command⟩

/-- The registers that the constructor sets, and its thread. -/
theorem new_spec (fs : HostFs η) (host : η) (fname : Option (Nat → Byte))
    (blockSize funcRet : ULong) :
    let d := new fs host fname blockSize funcRet
    d.regs.status = .IDLE ∧ d.regs.irq = 0#32 ∧ d.regs.op = 0#32 ∧ d.control = .waiting true := by
  unfold new
  cases fname with
  | none => exact ⟨rfl, rfl, rfl, rfl⟩
  | some name =>
      obtain ⟨fd, host', size, h⟩ := openHostFile_eq fs _ name
      dsimp only
      rw [h]
      exact ⟨rfl, rfl, rfl, rfl⟩

theorem blockInv_new (host : η) (fname : Option (Nat → Byte)) (blockSize funcRet : ULong) :
    BlockInv (new fs host fname blockSize funcRet) := by
  obtain ⟨hs, hi, ho, hc⟩ := new_spec fs host fname blockSize funcRet
  refine ⟨by simp [hs, hc, Control.busAccess], fun hne => absurd hi hne, fun _ h => ?_⟩
  simp [ho, commandOf_zero] at h

/-! ## 4. Every reachable state -/

/-- What holds of status and interrupt. -/
structure StatusInterrupt (fs : HostFs η) (d : BlockDevice η) : Prop where
  /-- The interrupt is set only after a success. -/
  irq : d.regs.irq ≠ 0#32 → d.regs.status = .READ_SUCCESS ∨ d.regs.status = .WRITE_SUCCESS
  /-- The status is BUSY exactly while `control_thread` is suspended in an operation. -/
  busy : d.regs.status = .BUSY ↔ d.control.busAccess.isSome
  /-- A status read clears the interrupt and a finished status. -/
  statusRead : ∀ ofs be d', registerOf ofs be = some .STATUS → next fs d (.read ofs be) = some d' →
    d'.regs.irq = 0#32 ∧
      d'.regs.status = if d.regs.status = .BUSY then .BUSY else .IDLE
  /-- An operation starts with the interrupt clear. -/
  start : ∀ fresh d', (commandOf d.regs.op).isSome → next fs d (.control fresh) = some d' →
    d.regs.irq = 0#32 ∧ d.regs.status = .IDLE

theorem statusInterrupt_of_inv {d : BlockDevice η} (hi : BlockInv d) : StatusInterrupt fs d := by
  refine ⟨hi.irq, hi.busy, fun ofs be d' hreg h => ?_, fun fresh d' hcmd h => ?_⟩
  · have hi' := blockInv_next hi h
    obtain ⟨-, ⟨_, _, _, hl, -⟩ | ⟨_, _, hl, rfl⟩ | ⟨_, hl, -⟩ | ⟨_, _, hl, -⟩ | ⟨hl, -⟩⟩ :=
      next_cases h
    all_goals cases hl
    obtain ⟨-, hregs⟩ := slaveRead_spec d.regs ofs be
    have hstatus : (d.access (slaveRead d.regs ofs be)).regs.status =
        if d.regs.status = .BUSY then .BUSY else .IDLE := by
      show (slaveRead d.regs ofs be).regs.status = _
      rw [hregs]
      by_cases hb : d.regs.status = .BUSY <;> simp [hreg, hb]
    refine ⟨hi'.irq_eq_zero ?_, hstatus⟩
    rw [hstatus]
    split
    · exact .inr rfl
    · exact .inl rfl
  · obtain ⟨-, ⟨_, _, _, hl, -⟩ | ⟨_, _, hl, -⟩ | ⟨_, _, hc, -⟩ | ⟨_, _, hl, -⟩ | ⟨hl, -⟩⟩ :=
      next_cases h
    · cases hl
    · cases hl
    · have hidle := (hi.command (by rw [hc]; rfl) hcmd).1
      exact ⟨hi.irq_eq_zero (.inl hidle), hidle⟩
    · cases hl
    · cases hl

/-- **Status and interrupt in every reachable state.** -/
theorem status_and_interrupt (fs : HostFs η) (host : η) (fname : Option (Nat → Byte))
    (blockSize funcRet : ULong) {ls : List Label} {d : BlockDevice η}
    (h : exec (next fs) (new fs host fname blockSize funcRet) ls = some d) :
    StatusInterrupt fs d :=
  statusInterrupt_of_inv
    (exec_invariant (fun _ _ _ => blockInv_next) (blockInv_new host fname blockSize funcRet) h)

/-- A register write of the word at `4 * r`, for an even and for an odd `r`. -/
def writeReg (r : ULong) (val : ULong) : Label :=
  if r &&& 1#32 = 0#32 then .write (r <<< 2) 0x0F#8 fun j => byteOf val j.val
  else .write (r <<< 2 - 4#32) 0xF0#8 fun j => byteOf val (j.val - 4)

/-- A READ of one byte with the interrupt enabled, up to its end. -/
theorem status_and_interrupt_read : ∃ d,
    exec (next hostFile) (new hostFile ⟨[0x41#8], 0⟩ (some fun _ => 0#8) 1#32 0#32)
      [writeReg 2#32 1#32, writeReg 5#32 1#32, writeReg 3#32 1#32, .control fun _ => 0#8,
        .response false 0#32] = some d ∧
    d.regs.irq = 1#32 ∧ StatusInterrupt hostFile d := by
  have hrun : (exec (next hostFile) (new hostFile ⟨[0x41#8], 0⟩ (some fun _ => 0#8) 1#32 0#32)
      [writeReg 2#32 1#32, writeReg 5#32 1#32, writeReg 3#32 1#32, .control fun _ => 0#8,
        .response false 0#32]).map (·.regs.irq) = some 1#32 := by decide
  obtain ⟨d, hd, hirq⟩ := Option.map_eq_some_iff.mp hrun
  exact ⟨d, hd, hirq, status_and_interrupt hostFile _ _ _ _ hd⟩

end BlockDevice

end Rabbits
