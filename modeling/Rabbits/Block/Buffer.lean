/-
  File:      Rabbits/Block/Buffer.lean
  Subject:   What an operation of the block device does with `data_buff` and with the file
             (sl_block_device.cpp: control_thread).

  Each function of `control_thread` has its list of uses, in the order of the source. The name that
  a FILE_NAME passes to the host is left out: how far it is read depends on its bytes.

  * `BufferUse` -- the allocation, an access, a seek and a transfer of the file, the release;
  * `controlUses`, `replyUses`, `uses` -- what a step does;
  * `Control.InLoop` -- inside a loop, its offset is below its bound; `inLoop_next`;
  * `byteLoop_rounds`, `readLoop_rounds` -- on a bus that completes, every round is reached.
-/
import Rabbits.Block.Dma
import Rabbits.Block.Sampling

namespace Rabbits

open Lib

variable {η : Type} {fs : HostFs η}

/-! ## 1. The uses -/

/-- `new uint8_t[size]`, an access to `n` bytes of the buffer, `lseek (.., SEEK_SET)`, the length of
    a `read` or `write`, and `delete data_buff`. -/
inductive BufferUse where
  | alloc (size : ULong)
  | access (index n : Nat)
  | seek (off : ULong)
  | transfer (n : Nat)
  | delete
  deriving DecidableEq

namespace BlockDevice

def readDoneUses (d : BlockDevice η) (t : Transfer) : List BufferUse :=
  if t.transferSize ≠ 0#32 ∧ d.funcRet = 0#32 then [] else [.delete]

def byteLoopUses (d : BlockDevice η) (t : Transfer) : List BufferUse :=
  if t.offset < t.transferSize then [.access t.offset.toNat 1] else d.readDoneUses t

def wordLoopUses (d : BlockDevice η) (t : Transfer) : List BufferUse :=
  if t.offset < t.transferSize &&& ~~~3#32 then [.access t.offset.toNat 4] else d.byteLoopUses t

def writeDoneUses (d : BlockDevice η) (t : Transfer) : List BufferUse :=
  if d.funcRet = 0#32 then []
  else
    [.seek (d.regs.lba * d.regs.blockSize), .transfer t.transferSize.toNat,
      .access 0 t.transferSize.toNat, .delete]

def fileNameDoneUses (fs : HostFs η) (d : BlockDevice η) (t : Transfer) : List BufferUse :=
  let d := if d.funcRet ≠ 0#32 then d.openHostFile fs t.dataBuff else d
  if d.funcRet = 0#32 ∨ d.fd = -1 then [] else [.delete]

def readLoopUses (fs : HostFs η) (d : BlockDevice η) (name : Bool) (t : Transfer) : List BufferUse :=
  if t.offset < t.transferSize then [.access t.offset.toNat 4]
  else if name then d.fileNameDoneUses fs t
  else d.writeDoneUses t

def startReadUses (fs : HostFs η) (d : BlockDevice η) : List BufferUse :=
  let pos := d.regs.lba * d.regs.blockSize
  [.alloc (d.transferSize + 4#32), .seek pos, .transfer d.transferSize.toNat] ++
    match (fs.read (fs.lseek d.host d.fd pos .SEEK_SET).2 d.fd d.transferSize).1 with
    | none => []
    | some bytes =>
        let funcRet := BitVec.ofNat 32 bytes.length
        .access 0 bytes.length ::
          { d with funcRet }.wordLoopUses ⟨d.regs.buffer, 0#32, funcRet, fun _ => 0#8⟩

def startWriteUses (fs : HostFs η) (d : BlockDevice η) (name : Bool) (fresh : Nat → Byte) :
    List BufferUse :=
  .alloc (d.transferSize + 4#32) ::
    d.readLoopUses fs name ⟨d.regs.buffer, 0#32, d.transferSize, fresh⟩

/-- A round of `control_thread`. -/
def controlUses (fs : HostFs η) (d : BlockDevice η) (fresh : Nat → Byte) : List BufferUse :=
  match decodeOp d.regs.op with
  | some .READ => d.startReadUses fs
  | some .WRITE => d.startWriteUses fs false fresh
  | some .FILE_NAME => d.startWriteUses fs true fresh
  | some .NOOP | none => []

/-- What `control_thread` does after a response. -/
def replyUses (fs : HostFs η) (d : BlockDevice η) (bErr : Bool) (data : ULong) : List BufferUse :=
  let r := d.rcvRsp bErr
  match d.control with
  | .writeWord t => if bErr then r.byteLoopUses t else r.wordLoopUses (t.advance 4#32)
  | .writeByte t => if bErr then r.readDoneUses t else r.byteLoopUses (t.advance 1#32)
  | .readWord name t =>
      let t := t.copy data
      if bErr then (if name then r.fileNameDoneUses fs t else r.writeDoneUses t)
      else r.readLoopUses fs name (t.advance 4#32)
  | .waiting _ | .spinning => []

/-- What a step does. -/
def uses (fs : HostFs η) (d : BlockDevice η) : Label → List BufferUse
  | .control fresh => d.controlUses fs fresh
  | .response bErr data => d.replyUses fs bErr data
  | _ => []

end BlockDevice

namespace BlockDevice

/-- The uses of a loop depend on `func_ret`, the offset and the bound. -/
theorem wordLoopUses_congr {d e : BlockDevice η} {t u : Transfer} (hret : d.funcRet = e.funcRet)
    (hoffset : t.offset = u.offset) (hsize : t.transferSize = u.transferSize) :
    d.wordLoopUses t = e.wordLoopUses u := by
  simp only [wordLoopUses, byteLoopUses, readDoneUses, hret, hoffset, hsize]

/-- The result of the `read` of a READ. -/
def hostRead (fs : HostFs η) (d : BlockDevice η) : Option (List Byte) × η :=
  fs.read (fs.lseek d.host d.fd d.position .SEEK_SET).2 d.fd d.transferSize

/-- A READ whose `read` fails. -/
theorem startRead_fails {d : BlockDevice η} {host : η} (h : d.hostRead fs = (none, host))
    (fresh : Nat → Byte) :
    (d.startRead fs fresh).regs = { d.regs with status := .READ_ERROR, op := 0#32, count := 0#32 } ∧
      (d.startRead fs fresh).control = .waiting false ∧
      d.startReadUses fs =
        [.alloc (d.transferSize + 4#32), .seek d.position, .transfer d.transferSize.toNat] := by
  have hread : fs.read (fs.lseek d.host d.fd (d.regs.lba * d.regs.blockSize) .SEEK_SET).2 d.fd
      (d.regs.count * d.regs.blockSize) = (none, host) := h
  simp only [startRead, startReadUses, transferSize, hread]
  exact ⟨rfl, rfl, rfl⟩

/-- A READ whose `read` returns some bytes. -/
theorem startRead_reads {d : BlockDevice η} {bytes : List Byte} {host : η}
    (h : d.hostRead fs = (some bytes, host)) (fresh : Nat → Byte) : ∃ e : BlockDevice η, ∃ t,
    e.regs = { d.regs with
      status := .BUSY, count := BitVec.ofNat 32 bytes.length / d.regs.blockSize } ∧
    e.fd = d.fd ∧ e.host = host ∧ e.funcRet = BitVec.ofNat 32 bytes.length ∧
    t = ⟨d.regs.buffer, 0#32, BitVec.ofNat 32 bytes.length, fun i => bytes.getD i (fresh i)⟩ ∧
    d.startRead fs fresh = e.wordLoop t ∧
    d.startReadUses fs =
      [.alloc (d.transferSize + 4#32), .seek d.position, .transfer d.transferSize.toNat,
        .access 0 bytes.length] ++ e.wordLoopUses t := by
  have hread : fs.read (fs.lseek d.host d.fd (d.regs.lba * d.regs.blockSize) .SEEK_SET).2 d.fd
      (d.regs.count * d.regs.blockSize) = (some bytes, host) := h
  refine ⟨{ d with
    host := host
    funcRet := BitVec.ofNat 32 bytes.length
    regs := { d.regs with
      status := .BUSY
      count := BitVec.ofNat 32 bytes.length / d.regs.blockSize } }, _, rfl, rfl, rfl, rfl, rfl, ?_, ?_⟩
  · simp only [startRead, transferSize, hread]
  · simp only [startReadUses, transferSize, hread, List.cons_append, List.nil_append]
    rw [wordLoopUses_congr rfl rfl rfl]
    rfl

/-- A WRITE or a FILE_NAME begins with its loop. -/
theorem startWrite_eq (d : BlockDevice η) (name : Bool) (fresh : Nat → Byte) :
    d.startWrite fs name fresh =
      d.busy.readLoop fs name ⟨d.regs.buffer, 0#32, d.transferSize, fresh⟩ := rfl

/-- Behind the loop of a WRITE. -/
theorem readLoop_ends (d : BlockDevice η) {t : Transfer} (h : ¬ t.offset < t.transferSize) :
    d.readLoop fs false t = d.writeDone fs t ∧ d.readLoopUses fs false t = d.writeDoneUses t := by
  rw [readLoop, readLoopUses, if_neg h, if_neg h]
  exact ⟨rfl, rfl⟩

theorem readLoop_goes_on (d : BlockDevice η) {t : Transfer} (h : t.offset < t.transferSize)
    (name : Bool) : d.readLoop fs name t = { d with control := .readWord name t } ∧
      d.readLoopUses fs name t = [.access t.offset.toNat 4] := by
  rw [readLoop, readLoopUses, if_pos h, if_pos h]
  exact ⟨rfl, rfl⟩

end BlockDevice

/-! ## 2. Inside the loops -/

/-- The loop that `control_thread` is suspended in has not come to its end. -/
def Control.InLoop : Control → Prop
  | .writeWord t => t.offset < t.transferSize &&& ~~~3#32
  | .writeByte t => t.offset < t.transferSize
  | .readWord _ t => t.offset < t.transferSize
  | .waiting _ | .spinning => True

namespace BlockDevice

theorem byteLoop_inLoop (d : BlockDevice η) (t : Transfer) : (d.byteLoop t).control.InLoop := by
  unfold byteLoop
  split
  · next h => exact h
  · unfold readDone
    split <;> trivial

theorem wordLoop_inLoop (d : BlockDevice η) (t : Transfer) : (d.wordLoop t).control.InLoop := by
  unfold wordLoop
  split
  · next h => exact h
  · exact byteLoop_inLoop d t

theorem control_readDone (d : BlockDevice η) (t : Transfer) :
    (d.readDone t).control = .waiting false := by
  unfold readDone
  split <;> rfl

theorem control_writeDone (d : BlockDevice η) (t : Transfer) :
    (d.writeDone fs t).control = .waiting false := by
  unfold writeDone
  split <;> rfl

theorem control_fileNameDone (d : BlockDevice η) (t : Transfer) :
    (d.fileNameDone fs t).control = .waiting false := by
  simp only [fileNameDone]
  generalize (if d.funcRet ≠ 0#32 then d.openHostFile fs t.dataBuff else d) = d₁
  split <;> rfl

theorem readLoop_inLoop (d : BlockDevice η) (name : Bool) (t : Transfer) :
    (d.readLoop fs name t).control.InLoop := by
  unfold readLoop
  split
  · next h => exact h
  · split
    · rw [control_fileNameDone]
      trivial
    · rw [control_writeDone]
      trivial

theorem runControl_inLoop (d : BlockDevice η) (fresh : Nat → Byte) :
    (d.runControl fs fresh).control.InLoop := by
  unfold runControl
  split
  · trivial
  · unfold startRead
    dsimp only
    split
    · trivial
    · exact wordLoop_inLoop _ _
  · exact readLoop_inLoop _ _ _
  · exact readLoop_inLoop _ _ _
  · trivial

theorem reply_inLoop {d d' : BlockDevice η} {bErr : Bool} {data : ULong}
    (h : d.reply fs bErr data = some d') : d'.control.InLoop := by
  unfold reply at h
  split at h
  · cases h
    split
    · exact byteLoop_inLoop _ _
    · exact wordLoop_inLoop _ _
  · cases h
    split
    · rw [control_readDone]
      trivial
    · exact byteLoop_inLoop _ _
  · cases h
    split
    · split
      · rw [control_fileNameDone]
        trivial
      · rw [control_writeDone]
        trivial
    · exact readLoop_inLoop _ _ _
  · cases h
  · cases h

theorem wake_inLoop {c : Control} (h : c.InLoop) : (wake c).InLoop := by
  cases c <;> exact h

theorem inLoop_next {d d' : BlockDevice η} {l : Label} (hd : d.control.InLoop)
    (h : next fs d l = some d') : d'.control.InLoop := by
  obtain ⟨-, ⟨ofs, be, data, rfl, rfl⟩ | ⟨ofs, be, rfl, rfl⟩ | ⟨fresh, rfl, hc, rfl⟩ |
    ⟨bErr, data, rfl, hc, hr⟩ | ⟨rfl, rfl⟩⟩ := next_cases h
  · simp only [access]
    split
    · exact wake_inLoop hd
    · exact hd
  · simp only [access]
    split
    · exact wake_inLoop hd
    · exact hd
  · exact runControl_inLoop d fresh
  · exact reply_inLoop hr
  · exact hd

theorem inLoop_new (fs : HostFs η) (host : η) (fname : Option (Nat → Byte))
    (blockSize funcRet : ULong) : (new fs host fname blockSize funcRet).control.InLoop := by
  rw [(new_spec fs host fname blockSize funcRet).2.2.2]
  trivial

/-! ## 3. The rounds of the loops -/

/-- A response, and the run behind it. -/
theorem exec_response {d d' d'' : BlockDevice η} {bErr : Bool} {data : ULong} {ls : List Label}
    (h : d.reply fs bErr data = some d') (hrun : exec (next fs) d' ls = some d'') :
    exec (next fs) d (.response bErr data :: ls) = some d'' := by
  rw [exec_cons (next_response h), hrun]

/-- The byte loop of a READ, `j` rounds on. -/
theorem byteLoop_rounds (fs : HostFs η) (e : BlockDevice η) (t : Transfer) (v : ULong) {j : Nat}
    (h : t.offset.toNat + j < t.transferSize.toNat) : ∃ d u,
    exec (next fs) (e.byteLoop t) (List.replicate j (.response false v)) = some d ∧
      d.control = .writeByte u ∧ u.addr = t.addr ∧ u.offset.toNat = t.offset.toNat + j := by
  have hlt : t.offset < t.transferSize := by
    rw [BitVec.lt_def]
    omega
  have hloop : e.byteLoop t = { e with control := .writeByte t } := if_pos hlt
  induction j generalizing e t with
  | zero => exact ⟨_, t, rfl, by rw [hloop], rfl, rfl⟩
  | succ j ih =>
      have hadd : (t.advance 1#32).offset.toNat = t.offset.toNat + 1 :=
        toNat_advance (by simp only [BitVec.toNat_ofNat]; omega)
      have hlt' : (t.advance 1#32).offset.toNat + j < (t.advance 1#32).transferSize.toNat := by
        rw [hadd]
        show _ < t.transferSize.toNat
        omega
      have hnext : (t.advance 1#32).offset < (t.advance 1#32).transferSize := by
        rw [BitVec.lt_def]
        omega
      obtain ⟨d, u, hrun, hc, haddr, hoff⟩ := ih ({ e with control := .writeByte t }.rcvRsp false)
        (t.advance 1#32) hlt' hnext (if_pos hnext)
      refine ⟨d, u, ?_, hc, haddr, by omega⟩
      rw [hloop]
      exact exec_response rfl hrun

/-- The loop of a WRITE, `j` rounds on; registers and file are those of its start. -/
theorem readLoop_rounds (fs : HostFs η) (e : BlockDevice η) (t : Transfer) (v : ULong) {j : Nat}
    (h : t.offset.toNat + 4 * j < t.transferSize.toNat) : ∃ d u,
    exec (next fs) (e.readLoop fs false t) (List.replicate j (.response false v)) = some d ∧
      d.control = .readWord false u ∧ u.addr = t.addr ∧ u.offset.toNat = t.offset.toNat + 4 * j ∧
      u.transferSize = t.transferSize ∧ Later e d := by
  have hlt : t.offset < t.transferSize := by
    rw [BitVec.lt_def]
    omega
  have hloop : e.readLoop fs false t = { e with control := .readWord false t } :=
    (readLoop_goes_on e hlt false).1
  induction j generalizing e t with
  | zero => exact ⟨_, t, rfl, by rw [hloop], rfl, rfl, rfl, by rw [hloop]; exact ⟨rfl, rfl, rfl⟩⟩
  | succ j ih =>
      have hadd : ((t.copy v).advance 4#32).offset.toNat = t.offset.toNat + 4 :=
        toNat_advance (t := t.copy v) (by
          show t.offset.toNat + 4 < 2 ^ 32
          omega)
      have hlt' : ((t.copy v).advance 4#32).offset.toNat + 4 * j <
          ((t.copy v).advance 4#32).transferSize.toNat := by
        rw [hadd]
        show _ < t.transferSize.toNat
        omega
      have hnext : ((t.copy v).advance 4#32).offset < ((t.copy v).advance 4#32).transferSize := by
        rw [BitVec.lt_def]
        omega
      obtain ⟨d, u, hrun, hc, haddr, hoff, hts, hlater⟩ :=
        ih ({ e with control := .readWord false t }.rcvRsp false) ((t.copy v).advance 4#32) hlt' hnext
          (readLoop_goes_on _ hnext false).1
      refine ⟨d, u, ?_, hc, haddr, by omega, hts, hlater.regs, hlater.fd, hlater.host⟩
      rw [hloop]
      exact exec_response rfl hrun

/-- The response to the last word of a WRITE. -/
theorem reply_last_word {d : BlockDevice η} {t : Transfer} (hc : d.control = .readWord false t)
    (hwrap : t.offset.toNat + 4 < 2 ^ 32) (hlast : t.transferSize.toNat ≤ t.offset.toNat + 4)
    (v : ULong) :
    d.reply fs false v = some ((d.rcvRsp false).writeDone fs ((t.copy v).advance 4#32)) ∧
      d.uses fs (.response false v) = (d.rcvRsp false).writeDoneUses ((t.copy v).advance 4#32) := by
  have hadd : ((t.copy v).advance 4#32).offset.toNat = t.offset.toNat + 4 :=
    toNat_advance (t := t.copy v) hwrap
  have hend : ¬ ((t.copy v).advance 4#32).offset < ((t.copy v).advance 4#32).transferSize := by
    show ¬ _ < t.transferSize
    rw [BitVec.lt_def, hadd]
    omega
  obtain ⟨hdone, huses⟩ : (d.rcvRsp false).readLoop fs false ((t.copy v).advance 4#32) = _ ∧ _ :=
    readLoop_ends _ hend
  constructor
  · simp only [reply, hc, Bool.false_eq_true, if_false, hdone]
  · simp only [uses, replyUses, hc, Bool.false_eq_true, if_false, huses]

end BlockDevice

end Rabbits
