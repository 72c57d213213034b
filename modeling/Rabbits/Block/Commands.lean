/-
  File:      Rabbits/Block/Commands.lean
  Subject:   Which runs of the block device execute every accepted command exactly once.

  The slave accepts an OP write while the status is IDLE. The status becomes BUSY when
  `control_thread` takes the command, and the slave may serve a second request before that: the
  second opcode then takes the place of the first.

  * `OpEvent`, `opEvent` -- an accepted OP write, and a command that `control_thread` takes;
  * `follow` -- the order of these events that the driver relies on;
  * `executed_once_iff` -- **every accepted command is executed once, with its own opcode and
    before the next is accepted, exactly in the runs that accept no OP write while `m_op` still
    holds a command**.
-/
import Rabbits.Block.Status

namespace Rabbits

open Lib

variable {η : Type} {fs : HostFs η}

/-! ## 1. The history of the commands -/

/-- An OP write accepted with this value; a command executed. -/
inductive OpEvent where
  | accepted (val : ULong)
  | executed (op : SlBlockOp)
  deriving DecidableEq

namespace BlockDevice

/-- What a step adds to the history. -/
def opEvent (d : BlockDevice η) : Label → List OpEvent
  | .write ofs be data => if Accepts d.regs ofs be then [.accepted (valueOf be data)] else []
  | .control _ => ((commandOf d.regs.op).map OpEvent.executed).toList
  | _ => []

/-- The device with its history. -/
def nextTraced (fs : HostFs η) : Traced (BlockDevice η) OpEvent → Label →
    Option (Traced (BlockDevice η) OpEvent) := Traced.step (next fs) opEvent

end BlockDevice

/-- The command that is accepted and not yet executed, after one more event. A command has to be
    executed before anything else is accepted, and what is executed has to be that command. -/
def follow : Option SlBlockOp → OpEvent → Option (Option SlBlockOp)
  | none, .accepted val => some (commandOf val)
  | some op, .executed op' => if op = op' then some none else none
  | none, .executed _ => none
  | some _, .accepted _ => none

/-- The command that a history leaves to be executed; `none` when it loses, merges or repeats one. -/
def pending (h : List OpEvent) : Option (Option SlBlockOp) := h.foldlM follow none

/-- So far every accepted command was executed once, and the one that is left is still in `m_op`
    and has woken `control_thread`. -/
def ExecutedOnce (s : Traced (BlockDevice η) OpEvent) : Prop :=
  ∃ p, pending s.trace = some p ∧
    ∀ op, p = some op → commandOf s.state.regs.op = some op ∧ s.state.control = .waiting true

/-- The step is no OP write that is accepted while `m_op` holds a command. -/
def KeepsCommand (d : BlockDevice η) : BlockDevice.Label → Prop
  | .write ofs be _ => Accepts d.regs ofs be → commandOf d.regs.op = none
  | _ => True

/-! ## 2. The exact condition -/

/-- The command to be executed is the one in `m_op`, when `control_thread` waits for one. -/
def leftOf (d : BlockDevice η) : Option SlBlockOp :=
  if d.control.busAccess = none then commandOf d.regs.op else none

/-- The invariant of the runs that keep their commands. -/
structure CommandInv (s : Traced (BlockDevice η) OpEvent) : Prop where
  block : BlockInv s.state
  pending : pending s.trace = some (leftOf s.state)

theorem CommandInv.executedOnce {s : Traced (BlockDevice η) OpEvent} (h : CommandInv s) :
    ExecutedOnce s := by
  refine ⟨_, h.pending, fun op hop => ?_⟩
  unfold leftOf at hop
  split at hop
  · next hn => exact ⟨hop, (h.block.command hn (by rw [hop]; rfl)).2⟩
  · cases hop

theorem pending_append (h h' : List OpEvent) :
    pending (h ++ h') = (pending h).bind fun p => h'.foldlM follow p := by
  simp [pending, List.foldlM_append, Option.bind_eq_bind]

/-- Outside an operation, an IDLE status: what `m_op` holds is to be executed. -/
theorem leftOf_of_idle {d : BlockDevice η} (hi : BlockInv d) (hs : d.regs.status = .IDLE) :
    d.control.busAccess = none ∧ leftOf d = commandOf d.regs.op := by
  have hn : d.control.busAccess = none := by
    rw [← Option.not_isSome_iff_eq_none, ← hi.busy, hs]
    decide
  exact ⟨hn, if_pos hn⟩

namespace BlockDevice

/-- After an operation's step no command is left. -/
theorem Goes.leftOf {d d' : BlockDevice η} (h : Goes d d') : leftOf d' = none := by
  cases h with
  | suspends hc _ _ _ _ =>
      refine if_neg fun hn => ?_
      simp [hn] at hc
  | ends hc hop _ _ _ => rw [Rabbits.leftOf, if_pos (by rw [hc]; rfl), hop, commandOf_zero]

/-- What a write does to the command that is left. -/
theorem leftOf_write {d : BlockDevice η} (hi : BlockInv d) (ofs : ULong) (be : Byte)
    (data : Fin 8 → Byte) : Rabbits.leftOf (d.access (slaveWrite d.regs ofs be data)) =
      if Accepts d.regs ofs be then commandOf (valueOf be data) else Rabbits.leftOf d := by
  have hw := slaveWrite_spec d.regs ofs be data
  simp only [Rabbits.leftOf, access, hw.op, hw.opStart]
  by_cases ha : Accepts d.regs ofs be
  · simp only [ha, decide_true, if_true, wake_eq, (leftOf_of_idle hi ha.2).1]
  · simp only [ha, decide_false, Bool.false_eq_true, if_false]

/-- **A step that keeps its command** keeps the history in order. -/
theorem commandInv_step {s s' : Traced (BlockDevice η) OpEvent} {l : Label} (hi : CommandInv s)
    (hk : KeepsCommand s.state l) (h : nextTraced fs s l = some s') : CommandInv s' := by
  obtain ⟨hnext, htrace⟩ := Traced.step_eq_some h
  refine ⟨blockInv_next hi.block hnext, ?_⟩
  rw [htrace, pending_append, hi.pending, Option.bind_some]
  obtain ⟨-, ⟨ofs, be, data, rfl, heq⟩ | ⟨ofs, be, rfl, heq⟩ | ⟨fresh, rfl, hc, heq⟩ |
    ⟨bErr, data, rfl, hc, hr⟩ | ⟨rfl, heq⟩⟩ := next_cases hnext
  · rw [heq, leftOf_write hi.block, opEvent]
    by_cases ha : Accepts s.state.regs ofs be
    · rw [if_pos ha, if_pos ha, (leftOf_of_idle hi.block ha.2).2, hk ha]
      rfl
    · rw [if_neg ha, if_neg ha]
      rfl
  · -- a read leaves opcode and thread
    obtain ⟨hstart, hregs⟩ := slaveRead_spec s.state.regs ofs be
    have hop : (slaveRead s.state.regs ofs be).regs.op = s.state.regs.op := by
      rw [hregs]
      split <;> rfl
    have hleft : leftOf s'.state = leftOf s.state := by
      simp only [heq, leftOf, access, hstart, hop, Bool.false_eq_true, if_false]
    rw [hleft]
    rfl
  · -- `control_thread` executes what is left
    have hn : s.state.control.busAccess = none := by rw [hc]; rfl
    rw [leftOf, if_pos hn, opEvent, heq]
    rcases runControl_goes fs s.state fresh with ⟨hcmd, hgoes⟩ | ⟨hno, hregs, hcontrol⟩
    · obtain ⟨op, hop⟩ := Option.isSome_iff_exists.mp hcmd
      rw [hgoes.leftOf, hop]
      simp [follow]
    · rw [leftOf, if_pos hcontrol, hregs, hno]
      rfl
  · -- in an operation nothing is left, before and after
    rw [(reply_goes hr).leftOf, leftOf, if_neg (fun hn => by simp [hn] at hc)]
    rfl
  · rw [heq]
    rfl

/-- A step that does not keep it loses the command. -/
theorem not_executedOnce_of_step {s s' : Traced (BlockDevice η) OpEvent} {l : Label}
    (hi : CommandInv s) (hk : ¬ KeepsCommand s.state l) (h : nextTraced fs s l = some s') :
    ¬ ExecutedOnce s' := by
  obtain ⟨-, htrace⟩ := Traced.step_eq_some h
  cases l with
  | write ofs be data =>
      simp only [KeepsCommand, Classical.not_imp] at hk
      obtain ⟨ha, hcmd⟩ := hk
      obtain ⟨op, hop⟩ := Option.ne_none_iff_exists'.mp hcmd
      intro hyp
      obtain ⟨p, hp, -⟩ := hyp
      rw [htrace, pending_append, hi.pending, (leftOf_of_idle hi.block ha.2).2, hop, opEvent,
        if_pos ha] at hp
      cases hp
  | _ => exact absurd trivial hk

theorem commandInv_new (host : η) (fname : Option (Nat → Byte)) (blockSize funcRet : ULong) :
    CommandInv ⟨new fs host fname blockSize funcRet, []⟩ := by
  obtain ⟨-, -, ho, hc⟩ := new_spec fs host fname blockSize funcRet
  refine ⟨blockInv_new host fname blockSize funcRet, ?_⟩
  rw [leftOf, if_pos (by rw [hc]; rfl), ho, commandOf_zero]
  rfl

/-- **Exactly the runs that execute every command once**: from the constructor on, every accepted
    READ, WRITE or FILE_NAME is executed once, with its own opcode and before the next OP write is
    accepted, if and only if no OP write is accepted while `m_op` holds a command. -/
theorem executed_once_iff (fs : HostFs η) (host : η) (fname : Option (Nat → Byte))
    (blockSize funcRet : ULong) (ls : List Label) :
    Along (nextTraced fs) ExecutedOnce ⟨new fs host fname blockSize funcRet, []⟩ ls ↔
      Steps (nextTraced fs) (fun s l => KeepsCommand s.state l)
        ⟨new fs host fname blockSize funcRet, []⟩ ls :=
  along_iff_steps (I := CommandInv) (fun _ h => h.executedOnce) (fun _ _ _ => commandInv_step)
    (fun _ _ _ => not_executedOnce_of_step) ls (commandInv_new host fname blockSize funcRet)

/-- A READ and, before `control_thread` has run, a WRITE: the READ is never executed. -/
theorem executed_once_fails :
    (exec (nextTraced hostFile) ⟨new hostFile ⟨[0x41#8], 0⟩ (some fun _ => 0#8) 1#32 0#32, []⟩
      [writeReg 3#32 SlBlockOp.READ.code, writeReg 3#32 SlBlockOp.WRITE.code,
        .control fun _ => 0#8]).map (·.trace) =
        some [.accepted 1#32, .accepted 2#32, .executed .WRITE] ∧
      ¬ Along (nextTraced hostFile) ExecutedOnce
        ⟨new hostFile ⟨[0x41#8], 0⟩ (some fun _ => 0#8) 1#32 0#32, []⟩
        [writeReg 3#32 SlBlockOp.READ.code, writeReg 3#32 SlBlockOp.WRITE.code,
          .control fun _ => 0#8] := by
  have hrun : (exec (nextTraced hostFile)
      ⟨new hostFile ⟨[0x41#8], 0⟩ (some fun _ => 0#8) 1#32 0#32, []⟩
      [writeReg 3#32 SlBlockOp.READ.code, writeReg 3#32 SlBlockOp.WRITE.code,
        .control fun _ => 0#8]).map (·.trace) =
        some [.accepted 1#32, .accepted 2#32, .executed .WRITE] := by decide
  refine ⟨hrun, fun h => ?_⟩
  obtain ⟨t, ht, htrace⟩ := Option.map_eq_some_iff.mp hrun
  obtain ⟨p, hp, -⟩ := h.last ht
  have hlost : pending [.accepted 1#32, .accepted 2#32, .executed .WRITE] = none := by decide
  rw [htrace, hlost] at hp
  cases hp

end BlockDevice

end Rabbits
