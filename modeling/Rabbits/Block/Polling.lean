/-
  File:      Rabbits/Block/Polling.lean
  Subject:   An operation of the block device as a whole, with masters that read its registers.

  While an operation runs the status is BUSY: a register read changes nothing, and a round of
  `irq_update_thread` moves the interrupt line only. So whatever is read in between, the operation
  ends as it does alone.

  * `erase` -- the device without its interrupt line; `reply_erase` -- nothing else depends on it;
  * `OpStep`, `Completes` -- the steps of an operation up to its end;
  * `completes_unique` -- **an operation has one end**, up to the interrupt line.
-/
import Rabbits.Block.Dma

namespace Rabbits

open Lib Relation

variable {η : Type} {fs : HostFs η}

namespace BlockDevice

/-! ## 1. The interrupt line -/

/-- The device without what belongs to `irq_update_thread`. -/
def erase (d : BlockDevice η) : BlockDevice η := { d with irqWoken := false, irqLine := false }

theorem raiseIrq_erase (d : BlockDevice η) : d.erase.raiseIrq.erase = d.raiseIrq.erase := by
  unfold raiseIrq
  show erase (if d.regs.irqen ≠ 0#32 then _ else _) = _
  split <;> rfl

theorem done_erase {d e : BlockDevice η} (h : d.erase = e.erase) (s : SlBlockStatus) :
    (d.done s).erase = (e.done s).erase := congrArg (done · s) h

theorem readDone_erase (d : BlockDevice η) (t : Transfer) :
    (d.erase.readDone t).erase = (d.readDone t).erase := by
  unfold readDone
  show erase (if t.transferSize ≠ 0#32 ∧ d.funcRet = 0#32 then _ else _) = _
  split
  · rfl
  · exact done_erase (raiseIrq_erase d) _

theorem byteLoop_erase (d : BlockDevice η) (t : Transfer) :
    (d.erase.byteLoop t).erase = (d.byteLoop t).erase := by
  unfold byteLoop
  split
  · rfl
  · exact readDone_erase d t

theorem wordLoop_erase (d : BlockDevice η) (t : Transfer) :
    (d.erase.wordLoop t).erase = (d.wordLoop t).erase := by
  unfold wordLoop
  split
  · rfl
  · exact byteLoop_erase d t

theorem openHostFile_erase (fs : HostFs η) (d : BlockDevice η) (name : Nat → Byte) :
    d.erase.openHostFile fs name = (d.openHostFile fs name).erase := by
  have hhost : (if d.erase.fd ≠ -1 then fs.close d.erase.host d.erase.fd else d.erase.host) =
      if d.fd ≠ -1 then fs.close d.host d.fd else d.host := rfl
  unfold openHostFile
  rw [hhost]
  generalize (if d.fd ≠ -1 then fs.close d.host d.fd else d.host) = host
  show (if (fs.openFile host name).1 < 0 then _ else _) =
    erase (if (fs.openFile host name).1 < 0 then _ else _)
  split <;> rfl

theorem fileNameDone_erase (fs : HostFs η) (d : BlockDevice η) (t : Transfer) :
    (d.erase.fileNameDone fs t).erase = (d.fileNameDone fs t).erase := by
  have hopen : (if d.erase.funcRet ≠ 0#32 then d.erase.openHostFile fs t.dataBuff else d.erase) =
      (if d.funcRet ≠ 0#32 then d.openHostFile fs t.dataBuff else d).erase := by
    show (if d.funcRet ≠ 0#32 then _ else _) = _
    split
    · exact openHostFile_erase fs d _
    · rfl
  unfold fileNameDone
  rw [hopen]
  generalize (if d.funcRet ≠ 0#32 then d.openHostFile fs t.dataBuff else d) = d₁
  show erase (if d₁.funcRet = 0#32 ∨ d₁.fd = -1 then _ else _) = erase (if _ then _ else _)
  split <;> rfl

theorem writeDone_erase (fs : HostFs η) (d : BlockDevice η) (t : Transfer) :
    (d.erase.writeDone fs t).erase = (d.writeDone fs t).erase := by
  unfold writeDone
  show erase (if d.funcRet = 0#32 then _ else _) = _
  split
  · rfl
  · exact done_erase (raiseIrq_erase (d.writeFile fs t)) _

theorem readLoop_erase (fs : HostFs η) (d : BlockDevice η) (name : Bool) (t : Transfer) :
    (d.erase.readLoop fs name t).erase = (d.readLoop fs name t).erase := by
  unfold readLoop
  split
  · rfl
  · split
    · exact fileNameDone_erase fs d t
    · exact writeDone_erase fs d t

/-- **Nothing else depends on the interrupt line.** -/
theorem reply_erase (fs : HostFs η) (d : BlockDevice η) (bErr : Bool) (data : ULong) :
    (d.erase.reply fs bErr data).map erase = (d.reply fs bErr data).map erase := by
  have hc : d.erase.control = d.control := rfl
  unfold reply
  rw [hc]
  cases d.control with
  | waiting woken => rfl
  | spinning => rfl
  | writeWord t =>
      cases bErr with
      | true => exact congrArg some (byteLoop_erase (d.rcvRsp true) t)
      | false => exact congrArg some (wordLoop_erase (d.rcvRsp false) _)
  | writeByte t =>
      cases bErr with
      | true => exact congrArg some (readDone_erase (d.rcvRsp true) t)
      | false => exact congrArg some (byteLoop_erase (d.rcvRsp false) _)
  | readWord name t =>
      cases bErr with
      | false => exact congrArg some (readLoop_erase fs (d.rcvRsp false) name _)
      | true =>
          cases name with
          | true => exact congrArg some (fileNameDone_erase fs (d.rcvRsp true) (t.copy data))
          | false => exact congrArg some (writeDone_erase fs (d.rcvRsp true) (t.copy data))

end BlockDevice

/-- The system without the interrupt line. -/
def BlockSystem.erase (s : BlockSystem η) : BlockSystem η := ⟨s.dev.erase, s.mem⟩

theorem map_busStep (fs : HostFs η) (w : Wiring) (s : BlockSystem η) :
    (busStep fs w s).map BlockSystem.erase = s.dev.control.busAccess.bind fun a =>
      let req := w.request s.dev.crtTid a
      let (mem, bErr) := s.mem.rcvRqst req
      (responseThread w.nodeId (slaveRsp req mem.rdata bErr)).bind fun rsp =>
        ((s.dev.reply fs bErr rsp.2).map BlockDevice.erase).map fun dev => ⟨dev, mem⟩ := by
  simp only [busStep, Option.map_bind, Option.map_map, Function.comp_def]
  rfl

theorem busStep_erase (fs : HostFs η) (w : Wiring) (s : BlockSystem η) :
    (busStep fs w s.erase).map BlockSystem.erase = (busStep fs w s).map BlockSystem.erase := by
  rw [map_busStep, map_busStep]
  simp only [BlockSystem.erase, BlockDevice.reply_erase]
  rfl

/-- Devices that differ in the interrupt line take the same access. -/
theorem busStep_of_erase {w : Wiring} {s s' x : BlockSystem η} (h : busStep fs w s = some s')
    (hx : x.erase = s.erase) : ∃ x', busStep fs w x = some x' ∧ x'.erase = s'.erase := by
  have hs := busStep_erase fs w s
  rw [← hx, busStep_erase, h] at hs
  exact Option.map_eq_some_iff.mp hs

/-! ## 2. Operations -/

/-- A step while an operation runs: a bus access, or a register read or a round of
    `irq_update_thread` in between. -/
inductive OpStep (fs : HostFs η) (w : Wiring) : BlockSystem η → BlockSystem η → Prop where
  | bus {s s' : BlockSystem η} (h : busStep fs w s = some s') : OpStep fs w s s'
  | read {s : BlockSystem η} {d' : BlockDevice η} (ofs : ULong) (be : Byte)
      (hop : s.dev.control.busAccess.isSome) (h : s.dev.next fs (.read ofs be) = some d') :
      OpStep fs w s ⟨d', s.mem⟩
  | irqUpdate {s : BlockSystem η} {d' : BlockDevice η} (hop : s.dev.control.busAccess.isSome)
      (h : s.dev.next fs .irqUpdate = some d') : OpStep fs w s ⟨d', s.mem⟩

/-- `control_thread` takes the command in `m_op`, and the operation runs to its end. -/
def Completes (fs : HostFs η) (w : Wiring) (fresh : Nat → Byte) (s s' : BlockSystem η) : Prop :=
  ∃ d₀, s.dev.next fs (.control fresh) = some d₀ ∧
    ReflTransGen (OpStep fs w) ⟨d₀, s.mem⟩ s' ∧ s'.dev.control.busAccess = none

/-! ## 3. One end -/

section Ends

variable {w : Wiring}

/-- In an operation the status stays BUSY. -/
theorem busy_of_runs {s x : BlockSystem η} (h : Runs fs w s x)
    (hs : s.dev.control.busAccess.isSome → s.dev.regs.status = .BUSY) :
    x.dev.control.busAccess.isSome → x.dev.regs.status = .BUSY := by
  induction h with
  | refl => exact hs
  | @tail y x _ hstep ih =>
      intro hx
      obtain ⟨a, ha, hrest⟩ := Option.bind_eq_some_iff.mp hstep
      obtain ⟨rsp, -, hreply⟩ := Option.bind_eq_some_iff.mp hrest
      obtain ⟨d, hd, rfl⟩ := Option.map_eq_some_iff.mp hreply
      cases BlockDevice.reply_goes hd with
      | suspends _ hstatus _ _ _ => exact hstatus.trans (ih (by rw [ha]; rfl))
      | ends hc _ _ _ _ =>
          rw [hc] at hx
          cases hx

/-- A register read finds the status BUSY and clears nothing. -/
theorem erase_read {s : BlockSystem η} {d' : BlockDevice η} {ofs : ULong} {be : Byte}
    (h : s.dev.next fs (.read ofs be) = some d') (hs : s.dev.regs.status = .BUSY) :
    BlockSystem.erase ⟨d', s.mem⟩ = s.erase := by
  obtain ⟨-, ⟨_, _, _, hl, -⟩ | ⟨_, _, hl, rfl⟩ | ⟨_, hl, -⟩ | ⟨_, _, hl, -⟩ | ⟨hl, -⟩⟩ :=
    BlockDevice.next_cases h
  all_goals cases hl
  obtain ⟨hstart, hregs⟩ := slaveRead_spec s.dev.regs ofs be
  rw [if_neg fun hn => hn.2 hs] at hregs
  simp only [BlockSystem.erase, BlockDevice.erase, BlockDevice.access, hstart, hregs,
    Bool.false_eq_true, if_false]

theorem erase_irqUpdate {s : BlockSystem η} {d' : BlockDevice η}
    (h : s.dev.next fs .irqUpdate = some d') : BlockSystem.erase ⟨d', s.mem⟩ = s.erase := by
  obtain ⟨-, ⟨_, _, _, hl, -⟩ | ⟨_, _, hl, -⟩ | ⟨_, hl, -⟩ | ⟨_, _, hl, -⟩ | ⟨-, rfl⟩⟩ :=
    BlockDevice.next_cases h
  all_goals first | cases hl | rfl

/-- Whatever is read in between, the operation is where it is alone. -/
theorem runs_of_opSteps {s s' : BlockSystem η} (h : ReflTransGen (OpStep fs w) s s')
    (hs : s.dev.control.busAccess.isSome → s.dev.regs.status = .BUSY) :
    ∃ x, Runs fs w s x ∧ s'.erase = x.erase := by
  induction h with
  | refl => exact ⟨s, .refl, rfl⟩
  | tail _ hstep ih =>
      obtain ⟨x, hx, heq⟩ := ih
      have hbusy : ∀ {y : BlockSystem η}, y.erase = x.erase → y.dev.control.busAccess.isSome →
          y.dev.regs.status = .BUSY := by
        intro y hy hop
        have hcontrol : y.erase.dev.control = x.erase.dev.control := by rw [hy]
        have hregs : y.erase.dev.regs = x.erase.dev.regs := by rw [hy]
        have hx' := busy_of_runs hx hs (hcontrol ▸ hop)
        exact (congrArg SlBlockRegs.status hregs).trans hx'
      cases hstep with
      | bus h =>
          obtain ⟨x', hx', heq'⟩ := busStep_of_erase h heq.symm
          exact ⟨x', hx.tail hx', heq'.symm⟩
      | read ofs be hop h => exact ⟨x, hx, (erase_read h (hbusy heq hop)).trans heq⟩
      | irqUpdate hop h => exact ⟨x, hx, (erase_irqUpdate h).trans heq⟩

/-- Without a bus access there is no step. -/
theorem busStep_none {s : BlockSystem η} (h : s.dev.control.busAccess = none) :
    busStep fs w s = none := by
  rw [busStep, h]
  rfl

/-- **An operation has one end**, up to the interrupt line. -/
theorem completes_unique {fresh : Nat → Byte} {s e : BlockSystem η} {d₀ : BlockDevice η}
    (hstart : s.dev.next fs (.control fresh) = some d₀) (hrun : Runs fs w ⟨d₀, s.mem⟩ e)
    (hend : e.dev.control.busAccess = none)
    (hbusy : d₀.control.busAccess.isSome → d₀.regs.status = .BUSY) :
    Completes fs w fresh s e ∧ ∀ s', Completes fs w fresh s s' → s'.erase = e.erase := by
  refine ⟨⟨d₀, hstart, ReflTransGen.mono (fun _ _ h => OpStep.bus h) _ _ hrun, hend⟩,
    fun s' ⟨d₁, hd₁, hsteps, hend'⟩ => ?_⟩
  cases hstart.symm.trans hd₁
  obtain ⟨x, hx, heq⟩ := runs_of_opSteps hsteps hbusy
  have hxend : x.dev.control.busAccess = none := by
    have hc : s'.erase.dev.control = x.erase.dev.control := by rw [heq]
    exact hc ▸ hend'
  have hright : Relator.RightUnique fun s s' : BlockSystem η => busStep fs w s = some s' :=
    fun _ _ _ h h' => Option.some_inj.mp (h.symm.trans h')
  rcases ReflTransGen.total_of_right_unique hright hx hrun with h | h
  · rcases ReflTransGen.cases_head h with rfl | ⟨y, hy, -⟩
    · exact heq
    · rw [busStep_none hxend] at hy
      cases hy
  · rcases ReflTransGen.cases_head h with rfl | ⟨y, hy, -⟩
    · exact heq
    · rw [busStep_none hend] at hy
      cases hy

end Ends

end Rabbits
