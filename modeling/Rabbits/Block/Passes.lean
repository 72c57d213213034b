/-
  File:      Rabbits/Block/Passes.lean
  Subject:   The rounds of the loop of `control_thread` between two waits (sl_block_device.cpp:
             control_thread).

  Every case of the switch waits or leaves NOOP in `m_op`, but for the default case: it prints a
  message and leaves `m_op` as it is.

  * `controlPass` -- the body of the loop once; `passes` -- up to the next wait;
  * `passes_command`, `passes_unknown` -- at most two rounds, or no end;
  * `Settled` -- the thread waits, with the right status, and takes another command;
  * `settles_iff` -- **the values of OP with which the thread settles, then and later**.
-/
import Rabbits.Block.Status

namespace Rabbits

open Lib

variable {η : Type} {fs : HostFs η}

/-! ## 1. The model -/

/-- The body of the loop: the thread is suspended, or goes on with the next round. -/
inductive Pass (η : Type) where
  | waits (d : BlockDevice η)
  | again (d : BlockDevice η)

namespace BlockDevice

/-- `switch (m_cs_regs->m_op)`. A command whose operation needs no bus access ends with a `break`. -/
def controlPass (fs : HostFs η) (fresh : Nat → Byte) (d : BlockDevice η) : Pass η :=
  match decodeOp d.regs.op with
  | some .NOOP => .waits { d with control := .waiting false }
  | none => .again d
  | some _ =>
      let d' := d.runControl fs fresh
      if d'.control.busAccess.isSome then .waits d' else .again d'

/-- `while (1)`, at most `n` rounds; `none` if the thread does not wait in them. -/
def passes (fs : HostFs η) (fresh : Nat → Byte) : Nat → BlockDevice η → Option (BlockDevice η)
  | 0, _ => none
  | n + 1, d =>
      match controlPass fs fresh d with
      | .waits d' => some d'
      | .again d' => passes fs fresh n d'

/-- The thread waits: in an operation the status is BUSY; for the next command it is not, and after a
    read of the status the device accepts that command. -/
structure Settled (fs : HostFs η) (d : BlockDevice η) : Prop where
  waits : d.control.busAccess.isSome ∨ d.control = .waiting false
  status : d.regs.status = .BUSY ↔ d.control.busAccess.isSome
  usable : d.control = .waiting false → ∀ ofs be d', registerOf ofs be = some .STATUS →
    next fs d (.read ofs be) = some d' → d'.regs.status = .IDLE

/-- No command is written. -/
def Label.NoOpWrite : Label → Prop
  | .write ofs be _ => registerOf ofs be ≠ some .OP
  | _ => True

/-! ## 2. The rounds of one command -/

/-- **A round for each command**, and one more if it has not waited. -/
theorem passes_command {d : BlockDevice η} (h : decodeOp d.regs.op ≠ none) (fresh : Nat → Byte) :
    passes fs fresh 2 d = some (d.runControl fs fresh) := by
  obtain ⟨op, hop⟩ := Option.ne_none_iff_exists'.mp h
  have hnoop : ∀ d' : BlockDevice η, d'.control = .waiting false → d'.regs.op = 0#32 →
      passes fs fresh 1 d' = some d' := by
    intro d' hc ho
    have hdecode : decodeOp d'.regs.op = some .NOOP := by rw [ho]; rfl
    obtain ⟨regs, fd, host, funcRet, crtTid, control, irqWoken, irqLine⟩ := d'
    cases hc
    simp only [passes, controlPass, hdecode]
  cases op with
  | NOOP => simp only [passes, controlPass, runControl, hop]
  | READ | WRITE | FILE_NAME =>
      have hgoes : Goes d.busy (d.runControl fs fresh) := by
        rcases runControl_goes fs d fresh with ⟨-, hgoes⟩ | ⟨hno, -⟩
        · exact hgoes
        · rw [commandOf, hop] at hno
          cases hno
      have hpass : controlPass fs fresh d =
          if (d.runControl fs fresh).control.busAccess.isSome then .waits (d.runControl fs fresh)
          else .again (d.runControl fs fresh) := by
        simp only [controlPass, hop]
      rw [passes, hpass]
      cases hgoes with
      | suspends hc _ _ _ _ => rw [if_pos hc]
      | ends hc ho _ _ _ =>
          rw [if_neg (by simp [hc, Control.busAccess])]
          exact hnoop _ hc ho

/-- **An unknown value is found again in every round.** -/
theorem passes_unknown {d : BlockDevice η} (h : decodeOp d.regs.op = none) (fresh : Nat → Byte)
    (n : Nat) : passes fs fresh n d = none := by
  induction n with
  | zero => rfl
  | succ n ih =>
      have hpass : controlPass fs fresh d = .again d := by simp only [controlPass, h]
      rw [passes, hpass]
      exact ih

/-! ## 3. The steps that follow -/

/-- In an operation, or waiting for a command that nobody has written. -/
structure SettledInv (d : BlockDevice η) : Prop where
  block : BlockInv d
  waits : d.control.busAccess.isSome ∨ d.control = .waiting false

theorem SettledInv.settled {d : BlockDevice η} (h : SettledInv d) : Settled fs d := by
  refine ⟨h.waits, h.block.busy, fun hc ofs be d' hreg hnext => ?_⟩
  have hbusy : d.regs.status ≠ .BUSY := by
    rw [Ne, h.block.busy, hc]
    decide
  have hinv : StatusInterrupt fs d := statusInterrupt_of_inv h.block
  have hread := hinv.statusRead ofs be d' hreg hnext
  rw [hread.2, if_neg hbusy]

theorem settledInv_next {d d' : BlockDevice η} {l : Label} (hi : SettledInv d) (hl : l.NoOpWrite)
    (h : next fs d l = some d') : SettledInv d' := by
  refine ⟨blockInv_next hi.block h, ?_⟩
  obtain ⟨-, ⟨ofs, be, data, rfl, rfl⟩ | ⟨ofs, be, rfl, rfl⟩ | ⟨fresh, rfl, hc, rfl⟩ |
    ⟨bErr, data, rfl, hc, hr⟩ | ⟨rfl, rfl⟩⟩ := next_cases h
  · have hstart : (slaveWrite d.regs ofs be data).opStart = false := by
      rw [(slaveWrite_spec d.regs ofs be data).opStart]
      exact decide_eq_false fun ha => hl ha.1
    simp only [access, hstart, Bool.false_eq_true, if_false]
    exact hi.waits
  · simp only [access, (slaveRead_spec d.regs ofs be).1, Bool.false_eq_true, if_false]
    exact hi.waits
  · -- no command has woken the thread
    rcases hi.waits with hw | hw <;> rw [hc] at hw <;> cases hw
  · cases reply_goes hr with
    | suspends hc' _ _ _ _ => exact .inl hc'
    | ends hc' _ _ _ _ => exact .inr hc'
  · exact hi.waits

/-! ## 4. The values of OP -/

theorem decodeOp_ne_none_iff (op : ULong) : decodeOp op ≠ none ↔ op.toNat < 4 := by
  unfold decodeOp
  generalize op.toNat = n
  match n with
  | 0 | 1 | 2 | 3 => simp
  | n + 4 => simp

/-- **The values with which the thread settles**: when a master writes the OP register of an idle
    device, `control_thread` comes to a wait after finitely many rounds, and has settled there and
    after all later steps without another command, exactly if the value is one of the four. -/
theorem settles_iff (fs : HostFs η) (host : η) (fname : Option (Nat → Byte))
    (blockSize funcRet : ULong) {ls : List Label} {d d₁ : BlockDevice η}
    (hrun : exec (next fs) (new fs host fname blockSize funcRet) ls = some d) {ofs : ULong}
    {be : Byte} {data : Fin 8 → Byte} (hacc : Accepts d.regs ofs be)
    (hwrite : next fs d (.write ofs be data) = some d₁) :
    (∀ fresh, ∃ n d₂, passes fs fresh n d₁ = some d₂ ∧
        ∀ ls d', (∀ l ∈ ls, Label.NoOpWrite l) → exec (next fs) d₂ ls = some d' → Settled fs d') ↔
      (valueOf be data).toNat < 4 := by
  have hinv : BlockInv d :=
    exec_invariant (fun _ _ _ => blockInv_next) (blockInv_new host fname blockSize funcRet) hrun
  have hinv₁ : BlockInv d₁ := blockInv_next hinv hwrite
  obtain ⟨hspin, ⟨_, _, _, hl, rfl⟩ | ⟨_, _, hl, -⟩ | ⟨_, hl, -⟩ | ⟨_, _, hl, -⟩ | ⟨hl, -⟩⟩ :=
    next_cases hwrite
  all_goals cases hl
  have hspec := slaveWrite_spec d.regs ofs be data
  have hop : (d.access (slaveWrite d.regs ofs be data)).regs.op = valueOf be data :=
    hspec.op.trans (if_pos hacc)
  have hwoken : (d.access (slaveWrite d.regs ofs be data)).control = .waiting true := by
    have hnone : d.control.busAccess = none := by
      rw [← Option.not_isSome_iff_eq_none, ← hinv.busy, hacc.2]
      decide
    simp only [access, hspec.opStart, decide_eq_true hacc, if_true]
    exact wake_of_none hnone hspin
  rw [← decodeOp_ne_none_iff, ← hop]
  constructor
  · intro h hunknown
    obtain ⟨n, d₂, hpasses, -⟩ := h fun _ => 0#8
    rw [passes_unknown hunknown] at hpasses
    cases hpasses
  · intro hknown fresh
    have hcontrol : next fs (d.access (slaveWrite d.regs ofs be data)) (.control fresh) =
        some ((d.access (slaveWrite d.regs ofs be data)).runControl fs fresh) := by
      simp only [next, hwoken]
    refine ⟨2, _, passes_command hknown fresh, fun ls d' hls hexec => ?_⟩
    refine SettledInv.settled (exec_invariant_of (I := SettledInv) (A := Label.NoOpWrite)
      (fun _ _ _ hi hl hn => settledInv_next hi hl hn) hls ⟨blockInv_next hinv₁ hcontrol, ?_⟩ hexec)
    rcases runControl_goes fs (d.access (slaveWrite d.regs ofs be data)) fresh with
      ⟨-, hgoes⟩ | ⟨hno, -, -⟩
    · cases hgoes with
      | suspends hc _ _ _ _ => exact .inl hc
      | ends hc _ _ _ _ => exact .inr hc
    · right
      obtain ⟨op, hdecode⟩ := Option.ne_none_iff_exists'.mp hknown
      cases op with
      | NOOP => simp only [runControl, hdecode]
      | READ | WRITE | FILE_NAME =>
          rw [commandOf, hdecode] at hno
          cases hno

/-- A device in whose OP register a master has written a value, its first access. -/
def commanded (val : ULong) : BlockDevice HostFile :=
  let d := new hostFile ⟨[], 0⟩ none 1#32 0#32
  d.access (slaveWrite d.regs 8#32 0xF0#8 fun j => byteOf val (j.val - 4))

theorem commanded_read_settles : (commanded 1#32).regs.op = 1#32 ∧ ∀ fresh, ∃ n d₂,
    passes hostFile fresh n (commanded 1#32) = some d₂ ∧
      ∀ ls d', (∀ l ∈ ls, Label.NoOpWrite l) → exec (next hostFile) d₂ ls = some d' →
        Settled hostFile d' :=
  ⟨by decide, (@settles_iff _ hostFile ⟨[], 0⟩ none 1#32 0#32 [] _ _ rfl _ 0xF0#8 _ (by decide)
    rfl).mpr (by decide)⟩

/-- The thread looks at 4 for ever. -/
theorem commanded_four_spins : ¬ ∀ fresh, ∃ n d₂,
    passes hostFile fresh n (commanded 4#32) = some d₂ := by
  intro h
  obtain ⟨n, d₂, hn⟩ := h fun _ => 0#8
  rw [passes_unknown (by decide)] at hn
  cases hn

end BlockDevice

end Rabbits
