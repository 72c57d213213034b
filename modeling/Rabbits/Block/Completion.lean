/-
  File:      Rabbits/Block/Completion.lean
  Subject:   How an operation of the block device ends: the interrupt and the transfer buffer
             (sl_block_device.cpp: control_thread).

  The three exits with an error leave the loop by a `break` of their own, before the lines that set
  the interrupt and release the buffer.

  * `operationOf` -- the operation that a step belongs to;
  * `Completed` -- what is asked of a step with which the status leaves BUSY;
  * `EndsWell` -- the step takes none of the three exits;
  * `completes_iff` -- **the runs in which every end is complete**.
-/
import Rabbits.Block.Buffer

namespace Rabbits

open Lib

variable {η : Type} {fs : HostFs η}

namespace BlockDevice

/-! ## 1. What is asked of an end -/

/-- The operation that a step begins or goes on with. -/
def operationOf (d : BlockDevice η) : Label → Option SlBlockOp
  | .control _ => decodeOp d.regs.op
  | .response _ _ =>
      match d.control with
      | .writeWord _ | .writeByte _ => some .READ
      | .readWord false _ => some .WRITE
      | .readWord true _ => some .FILE_NAME
      | .waiting _ | .spinning => none
  | _ => none

/-- The interrupt is set and `ev_irq_update` notified, if they are enabled, and the buffer is
    released. -/
def Ended (d d' : BlockDevice η) (us : List BufferUse) : Prop :=
  d'.regs.status ≠ .BUSY → d.regs.irqen ≠ 0#32 →
    d'.regs.irq = 1#32 ∧ d'.irqWoken = true ∧ .delete ∈ us

/-- A step of a READ or a WRITE with which the status leaves BUSY completes it. -/
def Completed (fs : HostFs η) (d : BlockDevice η) (l : Label) : Prop :=
  (operationOf d l = some .READ ∨ operationOf d l = some .WRITE) →
    ∀ d', next fs d l = some d' → Ended d d' (d.uses fs l)

/-- The step is not one of the exits, with the interrupt enabled: the `read` of the host fails; the
    access of a byte or of a WRITE fails; or a WRITE of no bytes finds a `func_ret` of 0. -/
def EndsWell (fs : HostFs η) (d : BlockDevice η) (l : Label) : Prop :=
  d.regs.irqen ≠ 0#32 →
    match l with
    | .control _ =>
        match decodeOp d.regs.op with
        | some .READ => (d.hostRead fs).1 ≠ none
        | some .WRITE => d.transferSize = 0#32 → d.funcRet ≠ 0#32
        | _ => True
    | .response bErr _ =>
        match d.control with
        | .writeByte _ | .readWord false _ => bErr = false
        | _ => True
    | _ => True

/-! ## 2. The ends -/

theorem ended_busy {d d' : BlockDevice η} {us : List BufferUse} (h : d'.regs.status = .BUSY) :
    Ended d d' us := fun hs => absurd h hs

theorem ended_of_irqen {d d' : BlockDevice η} {us : List BufferUse} (h : d.regs.irqen = 0#32) :
    Ended d d' us := fun _ hi => absurd h hi

/-- "Update everything". -/
theorem raiseIrq_on {d : BlockDevice η} (h : d.regs.irqen ≠ 0#32) :
    d.raiseIrq = { d with regs := { d.regs with irq := 1#32 }, irqWoken := true } := if_pos h

variable {d e : BlockDevice η} {t : Transfer}

theorem ended_readDone (he : e.regs.irqen = d.regs.irqen)
    (h : ¬ (t.transferSize ≠ 0#32 ∧ e.funcRet = 0#32)) : Ended d (e.readDone t) (e.readDoneUses t) := by
  intro _ hi
  rw [readDone, readDoneUses, if_neg h, if_neg h, raiseIrq_on (he ▸ hi)]
  exact ⟨rfl, rfl, List.mem_cons_self⟩

theorem ended_byteLoop (he : e.regs.irqen = d.regs.irqen) (hbusy : e.regs.status = .BUSY)
    (h : t.transferSize = 0#32 ∨ e.funcRet ≠ 0#32) : Ended d (e.byteLoop t) (e.byteLoopUses t) := by
  unfold byteLoop byteLoopUses
  split
  · exact ended_busy hbusy
  · exact ended_readDone he fun hn => h.elim hn.1 fun hne => hne hn.2

theorem ended_wordLoop (he : e.regs.irqen = d.regs.irqen) (hbusy : e.regs.status = .BUSY)
    (h : t.transferSize = 0#32 ∨ e.funcRet ≠ 0#32) : Ended d (e.wordLoop t) (e.wordLoopUses t) := by
  unfold wordLoop wordLoopUses
  split
  · exact ended_busy hbusy
  · exact ended_byteLoop he hbusy h

theorem irqen_writeFile (e : BlockDevice η) (t : Transfer) :
    (e.writeFile fs t).regs.irqen = e.regs.irqen := rfl

theorem ended_writeDone (he : e.regs.irqen = d.regs.irqen) (h : e.funcRet ≠ 0#32) :
    Ended d (e.writeDone fs t) (e.writeDoneUses t) := by
  intro _ hi
  rw [writeDone, writeDoneUses, if_neg h, if_neg h,
    raiseIrq_on ((irqen_writeFile e t).trans he ▸ hi)]
  exact ⟨rfl, rfl, by simp⟩

theorem ended_readLoop (he : e.regs.irqen = d.regs.irqen) (hbusy : e.regs.status = .BUSY)
    (h : ¬ t.offset < t.transferSize → e.funcRet ≠ 0#32) :
    Ended d (e.readLoop fs false t) (e.readLoopUses fs false t) := by
  unfold readLoop readLoopUses
  split
  · exact ended_busy hbusy
  · next hlt => exact ended_writeDone he (h hlt)

/-- An exit with an error leaves the buffer. -/
theorem not_ended {d' : BlockDevice η} {us : List BufferUse} (hi : d.regs.irqen ≠ 0#32)
    (hs : d'.regs.status ≠ .BUSY) (hus : .delete ∉ us) : ¬ Ended d d' us :=
  fun h => hus (h hs hi).2.2

theorem not_ended_readDone (hi : d.regs.irqen ≠ 0#32)
    (h : t.transferSize ≠ 0#32 ∧ e.funcRet = 0#32) :
    ¬ Ended d (e.readDone t) (e.readDoneUses t) := by
  rw [readDone, readDoneUses, if_pos h, if_pos h]
  exact not_ended hi (by simp [done]) List.not_mem_nil

theorem not_ended_writeDone (hi : d.regs.irqen ≠ 0#32) (h : e.funcRet = 0#32) :
    ¬ Ended d (e.writeDone fs t) (e.writeDoneUses t) := by
  rw [writeDone, writeDoneUses, if_pos h, if_pos h]
  exact not_ended hi (by simp [done]) List.not_mem_nil

/-! ## 3. The steps -/

/-- **A READ**, up to its first wait. -/
theorem ended_startRead_iff (d : BlockDevice η) (fresh : Nat → Byte) (hi : d.regs.irqen ≠ 0#32) :
    Ended d (d.startRead fs fresh) (d.startReadUses fs) ↔ (d.hostRead fs).1 ≠ none := by
  rcases hread : d.hostRead fs with ⟨_ | bytes, host⟩
  · obtain ⟨hregs, -, huses⟩ := startRead_fails hread fresh
    refine iff_of_false (not_ended hi ?_ ?_) fun h => h rfl
    · simp [hregs]
    · simp [huses]
  · obtain ⟨e, t, hregs, -, -, hret, rfl, hstart, huses⟩ := startRead_reads hread fresh
    refine iff_of_true ?_ (by simp)
    have hended := ended_wordLoop (d := d) (e := e)
      (t := ⟨d.regs.buffer, 0#32, BitVec.ofNat 32 bytes.length, fun i => bytes.getD i (fresh i)⟩)
      (by rw [hregs]) (by rw [hregs]) (by rw [hret]; exact Classical.em _)
    rw [hstart, huses]
    intro hs hi
    obtain ⟨hirq, hwoken, hdelete⟩ := hended hs hi
    exact ⟨hirq, hwoken, List.mem_append_right _ hdelete⟩

/-- **A WRITE**, up to its first wait. -/
theorem ended_startWrite_iff (d : BlockDevice η) (fresh : Nat → Byte) (hi : d.regs.irqen ≠ 0#32) :
    Ended d (d.startWrite fs false fresh) (d.startWriteUses fs false fresh) ↔
      (d.transferSize = 0#32 → d.funcRet ≠ 0#32) := by
  by_cases hstale : d.transferSize = 0#32 ∧ d.funcRet = 0#32
  · obtain ⟨hsize, hret⟩ := hstale
    have hlt : ¬ (0#32 : ULong) < d.transferSize := by
      rw [hsize]
      decide
    have hnot : ¬ Ended d (d.busy.writeDone fs ⟨d.regs.buffer, 0#32, d.transferSize, fresh⟩)
        (d.busy.writeDoneUses ⟨d.regs.buffer, 0#32, d.transferSize, fresh⟩) :=
      not_ended_writeDone hi hret
    obtain ⟨hdone, huses⟩ := readLoop_ends d.busy
      (t := ⟨d.regs.buffer, 0#32, d.transferSize, fresh⟩) hlt
    rw [← hdone, ← huses] at hnot
    refine iff_of_false (fun hended => hnot fun hs hi => ?_) fun h => h hsize hret
    obtain ⟨hirq, hwoken, hdelete⟩ := hended hs hi
    exact ⟨hirq, hwoken, (List.mem_cons.mp hdelete).resolve_left (by simp)⟩
  · refine iff_of_true ?_ fun hsize hret => hstale ⟨hsize, hret⟩
    have hended : Ended d (d.busy.readLoop fs false ⟨d.regs.buffer, 0#32, d.transferSize, fresh⟩)
        (d.busy.readLoopUses fs false ⟨d.regs.buffer, 0#32, d.transferSize, fresh⟩) := by
      refine ended_readLoop rfl rfl fun hlt hret => ?_
      refine hstale ⟨BitVec.eq_of_toNat_eq ?_, hret⟩
      simp only [BitVec.lt_def, BitVec.toNat_ofNat] at hlt ⊢
      omega
    intro hs hi
    obtain ⟨hirq, hwoken, hdelete⟩ := hended hs hi
    exact ⟨hirq, hwoken, List.mem_cons_of_mem _ hdelete⟩

/-- **A response** in a READ or a WRITE. -/
theorem ended_reply_iff {d d' : BlockDevice η} {bErr : Bool} {data : ULong}
    (hi : d.regs.irqen ≠ 0#32) (hbusy : d.regs.status = .BUSY) (hloop : d.control.InLoop)
    (hop : operationOf d (.response bErr data) = some .READ ∨
      operationOf d (.response bErr data) = some .WRITE) (h : d.reply fs bErr data = some d') :
    Ended d d' (d.replyUses fs bErr data) ↔ EndsWell fs d (.response bErr data) := by
  have hret : (d.rcvRsp false).funcRet ≠ 0#32 := by
    show (1#32 : ULong) ≠ 0#32
    decide
  have hret' : (d.rcvRsp true).funcRet = 0#32 := rfl
  rw [reply] at h
  rw [EndsWell, imp_iff_right hi]
  cases hc : d.control with
  | writeWord t =>
      rw [hc] at hloop
      simp only [hc, Option.some.injEq] at h
      simp only [replyUses, hc, iff_true]
      cases bErr with
      | false =>
          rw [← h]
          exact ended_wordLoop rfl hbusy (.inr hret)
      | true =>
          -- the byte loop makes a new attempt at the word
          have hlt : t.offset < t.transferSize := by
            rw [Control.InLoop, BitVec.lt_def, BitVec.toNat_and] at hloop
            exact lt_of_lt_of_le hloop Nat.and_le_left
          rw [← h]
          refine ended_busy ?_
          simp only [if_true, byteLoop, if_pos hlt]
          exact hbusy
  | writeByte t =>
      rw [hc] at hloop
      simp only [hc, Option.some.injEq] at h
      simp only [replyUses, hc]
      cases bErr with
      | false =>
          rw [← h]
          exact iff_of_true (ended_byteLoop rfl hbusy (.inr hret)) rfl
      | true =>
          have herr : t.transferSize ≠ 0#32 ∧ (d.rcvRsp true).funcRet = 0#32 :=
            ⟨fun h0 => absurd hloop (by rw [Control.InLoop, h0]; simp), hret'⟩
          rw [← h]
          exact iff_of_false (not_ended_readDone hi herr) (by decide)
  | readWord name t =>
      simp only [operationOf, hc] at hop
      cases name with
      | true => simp at hop
      | false =>
          simp only [hc, Option.some.injEq] at h
          simp only [replyUses, hc]
          cases bErr with
          | false =>
              rw [← h]
              exact iff_of_true (ended_readLoop rfl hbusy fun _ => hret) rfl
          | true =>
              rw [← h]
              exact iff_of_false (@not_ended_writeDone η fs d _ t hi hret') (by decide)
  | waiting woken =>
      rw [hc] at h
      cases h
  | spinning =>
      rw [hc] at h
      cases h

/-! ## 4. The runs -/

/-- A step that is no step of a READ or a WRITE. -/
theorem endsWell_of_operation {d : BlockDevice η} {l : Label}
    (h : ¬ (operationOf d l = some .READ ∨ operationOf d l = some .WRITE)) : EndsWell fs d l := by
  intro _
  cases l with
  | write ofs be data => trivial
  | read ofs be => trivial
  | irqUpdate => trivial
  | control fresh =>
      simp only [operationOf] at h
      dsimp only
      split <;> simp_all
  | response bErr data =>
      simp only [operationOf] at h
      dsimp only
      split <;> simp_all

theorem completed_iff {d d' : BlockDevice η} {l : Label} (hi : BlockInv d) (hloop : d.control.InLoop)
    (h : next fs d l = some d') : Completed fs d l ↔ EndsWell fs d l := by
  by_cases hop : operationOf d l = some .READ ∨ operationOf d l = some .WRITE
  · have hcompleted : Completed fs d l ↔ Ended d d' (d.uses fs l) := by
      refine ⟨fun hall => hall hop d' h, fun hended _ d'' h'' => ?_⟩
      cases h.symm.trans h''
      exact hended
    rw [hcompleted]
    by_cases hen : d.regs.irqen = 0#32
    · exact iff_of_true (ended_of_irqen hen) fun hne => absurd hen hne
    · obtain ⟨-, ⟨ofs, be, data, rfl, -⟩ | ⟨ofs, be, rfl, -⟩ | ⟨fresh, rfl, hc, rfl⟩ |
        ⟨bErr, data, rfl, hc, hr⟩ | ⟨rfl, -⟩⟩ := next_cases h
      · simp [operationOf] at hop
      · simp [operationOf] at hop
      · rcases hop with hread | hwrite
        · have hdecode : decodeOp d.regs.op = some .READ := hread
          rw [EndsWell, imp_iff_right hen]
          simp only [runControl, uses, controlUses, hdecode]
          exact ended_startRead_iff d fresh hen
        · have hdecode : decodeOp d.regs.op = some .WRITE := hwrite
          rw [EndsWell, imp_iff_right hen]
          simp only [runControl, uses, controlUses, hdecode]
          exact ended_startWrite_iff d fresh hen
      · exact ended_reply_iff hen (hi.busy.mpr hc) hloop hop hr
      · simp [operationOf] at hop
  · exact iff_of_true (fun h' => absurd h' hop) (endsWell_of_operation hop)

/-- **The ends of READ and WRITE**: in every run of the device, every step with which the status of
    a READ or a WRITE leaves BUSY sets and notifies the enabled interrupt and releases the buffer,
    exactly if no step takes one of the three exits with the interrupt enabled. -/
theorem completes_iff (fs : HostFs η) (host : η) (fname : Option (Nat → Byte))
    (blockSize funcRet : ULong) (ls : List Label) :
    Steps (next fs) (Completed fs) (new fs host fname blockSize funcRet) ls ↔
      Steps (next fs) (EndsWell fs) (new fs host fname blockSize funcRet) ls := by
  refine steps_iff_steps (I := fun d => BlockInv d ∧ d.control.InLoop) (A := fun _ => True)
    (fun d l d' hd _ h => ?_) (fun _ _ => trivial)
    ⟨blockInv_new host fname blockSize funcRet, inLoop_new fs host fname blockSize funcRet⟩
  obtain ⟨hi, hloop⟩ := hd
  exact ⟨completed_iff hi hloop h, blockInv_next hi h, inLoop_next hloop h⟩

/-- A WRITE of one byte whose bus access fails: its status leaves BUSY, and no interrupt comes. -/
theorem failed_write_incomplete : ¬ Steps (next hostFile) (Completed hostFile)
    (new hostFile ⟨[], 0⟩ (some fun _ => 0#8) 1#32 0#32)
    [writeReg 2#32 1#32, writeReg 5#32 1#32, writeReg 3#32 2#32, .control fun _ => 0#8,
      .response true 0#32] := by
  intro h
  have hlast := @Steps.last _ _ _ _ _ _ _ [writeReg 2#32 1#32, writeReg 5#32 1#32,
    writeReg 3#32 2#32, .control fun _ => 0#8] _ h rfl rfl
  exact absurd (hlast (.inr rfl) _ rfl (by decide) (by decide)).1 (by decide)

end BlockDevice

end Rabbits
