/-
  File:      Rabbits/Block/HostErrors.lean
  Subject:   The status of a WRITE or a FILE_NAME when calls to the host fail (sl_block_device.cpp:
             control_thread, open_host_file).

  A WRITE looks at the bus only: it drops the results of `lseek` and of `write`, and does not ask
  whether a file is open.

  * `CallResult`, `faultyHost` -- a host of which every call can fail, and every write be short;
  * `Holds` -- the file is open and has all the bytes at their place;
  * `content_writeFile_faulty` -- what a WRITE leaves in the file, whatever the calls give;
  * `writeHonest_iff` -- **the calls with which a status of success is true, for every file**.
-/
import Rabbits.Block.Buffer
import Rabbits.Block.Transfer

namespace Rabbits

open Lib

/-! ## 1. A host that can fail -/

/-- The result of a call: it succeeds, fails, or (a write) takes only the first `k` bytes. -/
inductive CallResult where
  | succeeds
  | fails
  | short (k : Nat)
  deriving DecidableEq

/-- How many of `n` bytes a write takes. -/
def CallResult.takes (n : Nat) : CallResult → Nat
  | .succeeds => n
  | .fails => 0
  | .short k => min k n

/-- The file, its descriptor while it is open, and the number of calls up to now. -/
structure FaultyHost where
  file : HostFile
  opened : Option Int
  calls : Nat

namespace FaultyHost

/-- One more call. -/
def called (h : FaultyHost) : FaultyHost := { h with calls := h.calls + 1 }

/-- The call reaches the file. -/
def Reaches (res : Nat → CallResult) (h : FaultyHost) (fd : Int) : Prop :=
  h.opened = some fd ∧ res h.calls ≠ .fails

instance (res : Nat → CallResult) (h : FaultyHost) (fd : Int) : Decidable (h.Reaches res fd) := by
  unfold Reaches
  infer_instance

end FaultyHost

/-- The host; its one file has every name, and its descriptor is 3. -/
def faultyHost (res : Nat → CallResult) : HostFs FaultyHost where
  lseek h fd off whence :=
    if h.Reaches res fd then
      let r := h.file.lseek off whence
      (r.1, { h.called with file := r.2 })
    else (BitVec.allOnes 32, h.called)
  read h fd n :=
    if h.Reaches res fd then
      let r := h.file.read n
      (r.1, { h.called with file := r.2 })
    else (none, h.called)
  write h fd bytes :=
    if h.Reaches res fd then
      { h.called with file := h.file.write (bytes.take ((res h.calls).takes bytes.length)) }
    else h.called
  openFile h _ :=
    if res h.calls = .fails then (-1, h.called)
    else (3, { h.called with file := { h.file with pos := 0 }, opened := some 3 })
  close h _ := { h.called with opened := none }

variable {res : Nat → CallResult}

/-- A seek changes neither the bytes nor the descriptor. -/
theorem faulty_lseek (h : FaultyHost) (fd : Int) (off : ULong) (whence : Whence) :
    ((faultyHost res).lseek h fd off whence).2.file.content = h.file.content ∧
      ((faultyHost res).lseek h fd off whence).2.opened = h.opened ∧
      ((faultyHost res).lseek h fd off whence).2.calls = h.calls + 1 := by
  simp only [faultyHost]
  split
  · exact ⟨HostFile.lseek_content h.file off whence, rfl, rfl⟩
  · exact ⟨rfl, rfl, rfl⟩

theorem faulty_getFileSize (h : FaultyHost) (fd : Int) :
    (getFileSize (faultyHost res) h fd).2.file.content = h.file.content ∧
      (getFileSize (faultyHost res) h fd).2.opened = h.opened := by
  simp only [getFileSize, faulty_lseek, and_self]

/-- Where the write of a WRITE begins, when the file is open. -/
def seekTo (res : Nat → CallResult) (h : FaultyHost) (off : ULong) : Nat :=
  if res h.calls = .fails then h.file.pos else (h.file.lseek off .SEEK_SET).2.pos

/-- A seek to a position below 2^31 that succeeds goes there; another one goes nowhere. -/
theorem seekTo_eq (h : FaultyHost) (off : ULong) : seekTo res h off =
    if res h.calls ≠ .fails ∧ off.toNat < 2 ^ 31 then off.toNat else h.file.pos := by
  unfold seekTo
  by_cases hres : res h.calls = .fails
  · rw [if_pos hres, if_neg fun h' => h'.1 hres]
  · rw [if_neg hres]
    by_cases hoff : off.toNat < 2 ^ 31
    · rw [if_pos ⟨hres, hoff⟩, HostFile.lseek_set h.file off hoff]
    · rw [if_neg fun h' => hoff h'.2]
      have hneg : ((0 : Nat) : Int) + off.toInt < 0 := by
        rw [BitVec.toInt_eq_toNat_cond, if_neg (by omega)]
        have := off.isLt
        omega
      unfold HostFile.lseek HostFile.seekFrom
      dsimp only
      rw [if_pos hneg]

theorem faulty_seek {h : FaultyHost} {fd : Int} (hopen : h.opened = some fd) (off : ULong) :
    ((faultyHost res).lseek h fd off .SEEK_SET).2.file = ⟨h.file.content, seekTo res h off⟩ := by
  have hcontent := HostFile.lseek_content h.file off .SEEK_SET
  simp only [faultyHost, seekTo]
  by_cases hres : res h.calls = .fails
  · rw [if_neg fun h' => h'.2 hres, if_pos hres]
    rfl
  · rw [if_pos ⟨hopen, hres⟩, if_neg hres]
    exact congrArg (HostFile.mk · _) hcontent

/-- A write that fails takes no byte. -/
theorem faulty_write (h : FaultyHost) (fd : Int) (bytes : List Byte) :
    ((faultyHost res).write h fd bytes).opened = h.opened ∧
      (h.opened = some fd → ((faultyHost res).write h fd bytes).file =
        h.file.write (bytes.take ((res h.calls).takes bytes.length))) := by
  simp only [faultyHost]
  by_cases hreach : h.Reaches res fd
  · rw [if_pos hreach]
    exact ⟨rfl, fun _ => rfl⟩
  · rw [if_neg hreach]
    refine ⟨rfl, fun hopen => ?_⟩
    have hres : res h.calls = .fails := Classical.byContradiction fun hne => hreach ⟨hopen, hne⟩
    simp [hres, CallResult.takes, HostFile.write, FaultyHost.called]

/-- What `write` makes of the content. -/
theorem content_write (h : HostFile) (bytes : List Byte) : (h.write bytes).content =
    if bytes = [] then h.content else overwrite h.content h.pos bytes := by
  unfold HostFile.write
  split <;> rfl

namespace BlockDevice

/-- **What a WRITE leaves**: the bytes that the host takes, where the seek has gone. -/
theorem content_writeFile_faulty (d : BlockDevice FaultyHost) (t : Transfer) {bytes : List Byte}
    (hbytes : (List.range t.transferSize.toNat).map t.dataBuff = bytes) :
    (d.writeFile (faultyHost res) t).host.opened = d.host.opened ∧
      (d.host.opened = some d.fd → (d.writeFile (faultyHost res) t).host.file.content =
        (HostFile.write ⟨d.host.file.content, seekTo res d.host d.position⟩
          (bytes.take ((res (d.host.calls + 1)).takes bytes.length))).content) := by
  simp only [writeFile, faulty_getFileSize, hbytes, faulty_write, faulty_lseek, true_and]
  intro hopen
  rw [(faulty_write _ d.fd bytes).2 (by rw [(faulty_lseek d.host d.fd _ .SEEK_SET).2.1, hopen]),
    faulty_seek hopen, (faulty_lseek d.host d.fd _ .SEEK_SET).2.2]
  rfl

/-! ## 2. An honest status -/

/-- The bytes of a response to `cmd_read`. -/
def takenBytes (d : BlockDevice FaultyHost) : Label → List Byte
  | .response _ data =>
      match d.control with
      | .readWord _ _ => (List.range 4).map (byteOf data)
      | _ => []
  | _ => []

/-- The device that keeps the bytes taken from memory. -/
def nextTaken (res : Nat → CallResult) :
    Traced (BlockDevice FaultyHost) Byte → Label → Option (Traced (BlockDevice FaultyHost) Byte) :=
  Traced.step (next (faultyHost res)) takenBytes

/-- The file is open; after a WRITE with these registers it has all its bytes at their place. -/
structure Holds (r : SlBlockRegs) (s : Traced (BlockDevice FaultyHost) Byte) : Prop where
  opened : s.state.host.opened = some s.state.fd
  length : decodeOp r.op = some .WRITE → r.length ≤ s.trace.length
  content : decodeOp r.op = some .WRITE → ∀ i < r.length,
    s.state.host.file.content[r.position + i]? = s.trace[i]?

/-- Success only if it is true, and else an error. -/
structure StatusHonest (r : SlBlockRegs) (s : Traced (BlockDevice FaultyHost) Byte) : Prop where
  success : s.state.regs.status = .WRITE_SUCCESS → Holds r s
  failure : s.state.control.busAccess = none →
    s.state.regs.status = .WRITE_SUCCESS ∨ s.state.regs.status = .WRITE_ERROR

/-- No register is written, and the status is not read. -/
def Label.LeavesStatus : Label → Prop
  | .write _ _ _ => False
  | .read ofs be => registerOf ofs be ≠ some .STATUS
  | _ => True

/-- Honest, whatever the bus answers. -/
def AlwaysHonest (res : Nat → CallResult) (d₀ : BlockDevice FaultyHost) : Prop :=
  ∀ fresh ls s, (∀ l ∈ ls, Label.LeavesStatus l) →
    exec (nextTaken res) ⟨d₀, []⟩ (.control fresh :: ls) = some s → StatusHonest d₀.regs s

/-- The same host with another content and position of its file. -/
def withFile (d : BlockDevice FaultyHost) (file : HostFile) : BlockDevice FaultyHost :=
  { d with host := { d.host with file } }

/-- The calls of a WRITE that comes to its file: the file is open, and the seek goes to the position
    and the write takes all bytes. -/
structure Complete (res : Nat → CallResult) (d : BlockDevice FaultyHost) : Prop where
  opened : d.host.opened = some d.fd
  length : d.regs.length < 2 ^ 32
  calls : d.regs.length ≠ 0 → res d.host.calls ≠ .fails ∧ d.regs.position < 2 ^ 31 ∧
    d.regs.length ≤ (res (d.host.calls + 1)).takes d.regs.length

/-- The WRITE is complete; or it does not come to its file, because it has no byte and finds a
    `func_ret` of 0, or because no `offset` ends its loop. -/
def WriteHonest (res : Nat → CallResult) (d : BlockDevice FaultyHost) : Prop :=
  Complete res d ∨ d.transferSize = 0#32 ∧ d.funcRet = 0#32 ∨ 2 ^ 32 - 4 < d.transferSize.toNat

/-! ## 3. The operation -/

/-- In the loop of the operation that began in `d₀`: the file is as it was, and the bytes before the
    offset are those taken. -/
structure Running (d₀ : BlockDevice FaultyHost) (name : Bool) (t : Transfer)
    (s : Traced (BlockDevice FaultyHost) Byte) : Prop where
  control : s.state.control = .readWord name t
  op : name = true ↔ decodeOp d₀.regs.op = some .FILE_NAME
  size : t.transferSize = d₀.transferSize
  inLoop : t.offset < t.transferSize
  aligned : 4 ∣ t.offset.toNat
  fd : s.state.fd = d₀.fd
  host : s.state.host = d₀.host
  position : s.state.position = d₀.position
  busy : s.state.regs.status = .BUSY
  taken : t.transferSize.toNat ≤ 2 ^ 32 - 4 → s.trace.length = t.offset.toNat ∧
    ∀ i < t.offset.toNat, s.trace[i]? = some (t.dataBuff i)

/-- The operation goes on, or it is over with an honest status. -/
def HonestInv (d₀ : BlockDevice FaultyHost) (s : Traced (BlockDevice FaultyHost) Byte) : Prop :=
  (∃ name t, Running d₀ name t s) ∨
    s.state.control = .waiting false ∧ StatusHonest d₀.regs s

theorem HonestInv.honest {d₀ : BlockDevice FaultyHost} {s : Traced (BlockDevice FaultyHost) Byte}
    (h : HonestInv d₀ s) : StatusHonest d₀.regs s := by
  rcases h with ⟨name, t, hrun⟩ | ⟨-, hhonest⟩
  · refine ⟨fun hs => ?_, fun hn => ?_⟩
    · rw [hrun.busy] at hs
      cases hs
    · rw [hrun.control] at hn
      cases hn
  · exact hhonest

variable {d₀ d : BlockDevice FaultyHost} {t : Transfer} {tr : List Byte}

/-- The error exits. -/
theorem honest_done_error (d : BlockDevice FaultyHost) (tr : List Byte) (r : SlBlockRegs) :
    StatusHonest r ⟨d.done .WRITE_ERROR, tr⟩ :=
  ⟨fun h => (by cases h), fun _ => .inr rfl⟩

theorem host_raiseIrq (d : BlockDevice FaultyHost) :
    d.raiseIrq.host = d.host ∧ d.raiseIrq.fd = d.fd := by
  unfold raiseIrq
  split <;> exact ⟨rfl, rfl⟩

/-- **The end of a FILE_NAME**: `open_host_file` leaves -1 or an open file. -/
theorem honest_fileNameDone (d : BlockDevice FaultyHost) (t : Transfer) (tr : List Byte)
    {r : SlBlockRegs} (hop : decodeOp r.op = some .FILE_NAME) :
    StatusHonest r ⟨d.fileNameDone (faultyHost res) t, tr⟩ := by
  have hopen : ∀ d : BlockDevice FaultyHost,
      (d.openHostFile (faultyHost res) t.dataBuff).fd = -1 ∨
        (d.openHostFile (faultyHost res) t.dataBuff).host.opened =
          some (d.openHostFile (faultyHost res) t.dataBuff).fd := by
    intro d
    unfold openHostFile
    generalize (if d.fd ≠ -1 then (faultyHost res).close d.host d.fd else d.host) = host
    by_cases hres : res host.calls = .fails
    · left
      simp only [faultyHost, if_pos hres, if_pos (by decide : (-1 : Int) < 0)]
    · right
      simp only [faultyHost, if_neg hres, if_neg (by decide : ¬ (3 : Int) < 0)]
      exact (@faulty_getFileSize res _ 3).2
  unfold fileNameDone
  by_cases hret : d.funcRet = 0#32
  · simp only [hret, ne_eq, not_true_eq_false, if_false, true_or, if_true]
    exact honest_done_error d tr r
  · have hret' : (d.openHostFile (faultyHost res) t.dataBuff).funcRet = d.funcRet := by
      obtain ⟨fd, host, size, heq⟩ := openHostFile_eq (faultyHost res) d t.dataBuff
      rw [heq]
    simp only [ne_eq, hret, not_false_eq_true, if_true, hret', false_or]
    split
    · exact honest_done_error _ tr r
    · next hfd =>
        refine ⟨fun _ => ⟨(hopen d).resolve_left hfd, fun hw => ?_, fun hw => ?_⟩, fun _ => .inl rfl⟩
        · simp [hop] at hw
        · simp [hop] at hw

/-- **The end of a WRITE** whose words have all come. -/
theorem honest_writeDone {e : BlockDevice FaultyHost} (hfd : e.fd = d₀.fd)
    (hhost : e.host = d₀.host) (hpos : e.position = d₀.position)
    (hsize : t.transferSize = d₀.transferSize) (hcomplete : e.funcRet ≠ 0#32 → Complete res d₀)
    (htaken : e.funcRet ≠ 0#32 → t.transferSize.toNat ≤ tr.length ∧
      ∀ i < t.transferSize.toNat, tr[i]? = some (t.dataBuff i)) :
    StatusHonest d₀.regs ⟨e.writeDone (faultyHost res) t, tr⟩ := by
  by_cases hret : e.funcRet = 0#32
  · rw [writeDone, if_pos hret]
    exact honest_done_error e tr d₀.regs
  · obtain ⟨hopened, hlength, hcalls⟩ := hcomplete hret
    obtain ⟨hlen, hbytes⟩ := htaken hret
    have hts : t.transferSize.toNat = d₀.regs.length := hsize ▸ toNat_transferSize hlength
    obtain ⟨hsame, hcontent⟩ := @content_writeFile_faulty res e t _ rfl
    rw [writeDone, if_neg hret]
    refine ⟨fun _ => ⟨?_, fun _ => hts ▸ hlen, fun _ i hi => ?_⟩, fun _ => .inl rfl⟩
    · show (e.writeFile (faultyHost res) t).raiseIrq.host.opened =
        some (e.writeFile (faultyHost res) t).raiseIrq.fd
      rw [(host_raiseIrq _).1, (host_raiseIrq _).2, hsame, hhost, hopened]
      exact congrArg some hfd.symm
    · obtain ⟨hseek, hp, htakes⟩ := hcalls (by omega)
      have hoff : d₀.position.toNat = d₀.regs.position := toNat_position (hp.trans (by decide))
      have hto : seekTo res e.host e.position = d₀.regs.position := by
        rw [seekTo_eq, hhost, hpos, if_pos ⟨hseek, by rw [hoff]; exact hp⟩, hoff]
      have hall : ((List.range t.transferSize.toNat).map t.dataBuff).take
          ((res (e.host.calls + 1)).takes ((List.range t.transferSize.toNat).map t.dataBuff).length) =
          (List.range t.transferSize.toNat).map t.dataBuff := by
        refine List.take_of_length_le ?_
        simp only [List.length_map, List.length_range, hts, hhost]
        exact htakes
      have hne : (List.range t.transferSize.toNat).map t.dataBuff ≠ [] := by
        rw [Ne, List.map_eq_nil_iff, List.range_eq_nil]
        omega
      show (e.writeFile (faultyHost res) t).raiseIrq.host.file.content[_]? = tr[i]?
      rw [(host_raiseIrq _).1, hcontent (by rw [hhost, hopened, hfd]), hall, content_write, if_neg hne,
        hto, overwrite_at _ _ _ (by simpa [hts] using hi), hbytes i (by omega)]
      simp [hts, hi]

/-- The test of the loop. -/
theorem honestInv_readLoop {e : BlockDevice FaultyHost} {name : Bool}
    (hname : name = true ↔ decodeOp d₀.regs.op = some .FILE_NAME)
    (hsize : t.transferSize = d₀.transferSize) (haligned : 4 ∣ t.offset.toNat) (hfd : e.fd = d₀.fd)
    (hhost : e.host = d₀.host) (hpos : e.position = d₀.position) (hbusy : e.regs.status = .BUSY)
    (htaken : t.transferSize.toNat ≤ 2 ^ 32 - 4 → tr.length = t.offset.toNat ∧
      ∀ i < t.offset.toNat, tr[i]? = some (t.dataBuff i))
    (hcomplete : name = false → e.funcRet ≠ 0#32 → t.transferSize.toNat ≤ 2 ^ 32 - 4 →
      Complete res d₀) : HonestInv d₀ ⟨e.readLoop (faultyHost res) name t, tr⟩ := by
  by_cases hlt : t.offset < t.transferSize
  · rw [(readLoop_goes_on e hlt name).1]
    exact .inl ⟨name, t, rfl, hname, hsize, hlt, haligned, hfd, hhost, hpos, hbusy, htaken⟩
  · right
    cases name with
    | true =>
        simp only [readLoop, if_neg hlt, if_true]
        exact ⟨control_fileNameDone e t, honest_fileNameDone e t tr (hname.mp rfl)⟩
    | false =>
        rw [(readLoop_ends e hlt).1]
        refine ⟨control_writeDone e t, ?_⟩
        -- the offset is a multiple of 4 below 2^32
        have hend : t.transferSize.toNat ≤ 2 ^ 32 - 4 ∧ t.transferSize.toNat ≤ t.offset.toNat := by
          have := t.offset.isLt
          rw [BitVec.lt_def] at hlt
          omega
        obtain ⟨hlen, hbytes⟩ := htaken hend.1
        exact honest_writeDone hfd hhost hpos hsize (fun hne => hcomplete rfl hne hend.1)
          fun _ => ⟨by omega, fun i hi => hbytes i (by omega)⟩

/-- What a round with a word adds to the bytes taken. -/
theorem taken_word {data : ULong} (hwrap : t.offset.toNat + 4 < 2 ^ 32)
    (h : tr.length = t.offset.toNat ∧ ∀ i < t.offset.toNat, tr[i]? = some (t.dataBuff i)) :
    (tr ++ (List.range 4).map (byteOf data)).length = ((t.copy data).advance 4#32).offset.toNat ∧
      ∀ i < ((t.copy data).advance 4#32).offset.toNat,
        (tr ++ (List.range 4).map (byteOf data))[i]? =
          some (((t.copy data).advance 4#32).dataBuff i) := by
  obtain ⟨hlen, hbytes⟩ := h
  have hoff : ((t.copy data).advance 4#32).offset.toNat = t.offset.toNat + 4 :=
    toNat_advance (t := t.copy data) hwrap
  rw [hoff]
  refine ⟨by simp [hlen], fun i hi => ?_⟩
  show _ = some (if t.offset.toNat ≤ i ∧ i < t.offset.toNat + 4 then
    byteOf data (i - t.offset.toNat) else t.dataBuff i)
  by_cases hold : i < t.offset.toNat
  · rw [List.getElem?_append_left (by omega), if_neg (by omega)]
    exact hbytes i hold
  · rw [List.getElem?_append_right (by omega), if_pos ⟨by omega, hi⟩, hlen,
      List.getElem?_map, List.getElem?_range (by omega)]
    rfl

/-- **A response** in the operation. -/
theorem honestInv_reply {d' : BlockDevice FaultyHost} {name : Bool} {bErr : Bool} {data : ULong}
    (hrun : Running d₀ name t ⟨d, tr⟩) (hhonest : name = false → WriteHonest res d₀)
    (h : d.reply (faultyHost res) bErr data = some d') :
    HonestInv d₀ ⟨d', tr ++ (List.range 4).map (byteOf data)⟩ := by
  obtain ⟨hc, hname, hsize, hin, haligned, hfd, hhost, hpos, hbusy, htaken⟩ := hrun
  have hc' : d.control = .readWord name t := hc
  simp only [reply, hc', Option.some.injEq] at h
  rw [← h]
  cases bErr with
  | true =>
      right
      cases name with
      | true =>
          simp only [if_true]
          exact ⟨control_fileNameDone _ _, honest_fileNameDone _ _ _ (hname.mp rfl)⟩
      | false =>
          have herr : (d.rcvRsp true).funcRet = 0#32 := rfl
          simp only [if_true, Bool.false_eq_true, if_false, writeDone, if_pos herr]
          exact ⟨rfl, honest_done_error _ _ _⟩
  | false =>
      rw [BitVec.lt_def] at hin
      have hoff : ((t.copy data).advance 4#32).offset.toNat = (t.offset.toNat + 4) % 2 ^ 32 := by
        show (t.offset + 4#32).toNat = _
        rw [BitVec.toNat_add]
        rfl
      refine honestInv_readLoop hname hsize (by rw [hoff]; omega) hfd hhost hpos hbusy
        (fun hle => ?_) fun hw _ hle => ?_
      · have hle' : t.transferSize.toNat ≤ 2 ^ 32 - 4 := hle
        exact taken_word (by omega) (htaken hle')
      · rcases hhonest hw with hcomplete | ⟨hzero, -⟩ | hlong
        · exact hcomplete
        · rw [← hsize] at hzero
          rw [hzero] at hin
          simp at hin
        · rw [← hsize] at hlong
          have hle' : t.transferSize.toNat ≤ 2 ^ 32 - 4 := hle
          omega

/-- The steps behind the first. -/
theorem honestInv_next {s s' : Traced (BlockDevice FaultyHost) Byte} {l : Label}
    (hhonest : decodeOp d₀.regs.op = some .WRITE → WriteHonest res d₀)
    (hop : decodeOp d₀.regs.op = some .WRITE ∨ decodeOp d₀.regs.op = some .FILE_NAME)
    (hi : HonestInv d₀ s) (hl : l.LeavesStatus) (h : nextTaken res s l = some s') :
    HonestInv d₀ s' := by
  obtain ⟨hnext, htrace⟩ := Traced.step_eq_some h
  obtain ⟨d, tr⟩ := s
  obtain ⟨d', tr'⟩ := s'
  simp only at hnext htrace
  -- another thread changes nothing that the invariant speaks of
  have hother : takenBytes d l = [] → d'.control = d.control → d'.regs = d.regs → d'.fd = d.fd →
      d'.host = d.host → HonestInv d₀ ⟨d', tr'⟩ := by
    intro hnone hc hregs hfd hhost
    have hpos : d'.position = d.position := by simp only [position, hregs]
    rw [htrace, hnone, List.append_nil]
    rcases hi with ⟨name, t, hrun⟩ | ⟨hw, hs⟩
    · exact .inl ⟨name, t, hc.trans hrun.control, hrun.op, hrun.size, hrun.inLoop, hrun.aligned,
        hfd.trans hrun.fd, hhost.trans hrun.host, hpos.trans hrun.position,
        (congrArg SlBlockRegs.status hregs).trans hrun.busy, hrun.taken⟩
    · refine .inr ⟨hc.trans hw, fun hsuccess => ?_, fun _ => hregs ▸ hs.failure (by rw [hw]; rfl)⟩
      obtain ⟨hopened, hlen, hcontent⟩ := hs.success (hregs ▸ hsuccess)
      exact ⟨by rw [hhost, hfd]; exact hopened, hlen, fun hw i hi => hhost ▸ hcontent hw i hi⟩
  obtain ⟨-, ⟨ofs, be, data, rfl, -⟩ | ⟨ofs, be, rfl, hd'⟩ | ⟨fresh, rfl, hc, -⟩ |
    ⟨bErr, data, rfl, hbus, hr⟩ | ⟨rfl, hd'⟩⟩ := next_cases hnext
  · exact hl.elim
  · obtain ⟨hstart, hregs⟩ := slaveRead_spec d.regs ofs be
    have hsame : (slaveRead d.regs ofs be).regs = d.regs :=
      hregs.trans (if_neg fun hst => hl hst.1)
    refine hother rfl ?_ ?_ ?_ ?_
    · simp only [hd', access, hstart, Bool.false_eq_true, if_false]
    · simp only [hd', access, hsame]
    · rw [hd']
      rfl
    · rw [hd']
      rfl
  · rcases hi with ⟨name, t, hrun⟩ | ⟨hw, -⟩
    · exact absurd (hc.symm.trans hrun.control) (by simp)
    · exact absurd (hc.symm.trans hw) (by simp)
  · rcases hi with ⟨name, t, hrun⟩ | ⟨hw, -⟩
    · have htaken : takenBytes d (.response bErr data) = (List.range 4).map (byteOf data) := by
        have hc : d.control = .readWord name t := hrun.control
        simp only [takenBytes, hc]
      rw [htrace, htaken]
      refine honestInv_reply hrun (fun hname => hhonest (hop.resolve_right fun hfile => ?_)) hr
      rw [hrun.op.mpr hfile] at hname
      cases hname
    · have hw' : d.control = .waiting false := hw
      rw [hw'] at hbus
      cases hbus
  · refine hother rfl ?_ ?_ ?_ ?_ <;> rw [hd'] <;> rfl

/-- The first step. -/
theorem honestInv_control (hhonest : decodeOp d₀.regs.op = some .WRITE → WriteHonest res d₀)
    (hop : decodeOp d₀.regs.op = some .WRITE ∨ decodeOp d₀.regs.op = some .FILE_NAME)
    (fresh : Nat → Byte) : HonestInv d₀ ⟨d₀.runControl (faultyHost res) fresh, []⟩ := by
  have hstart : ∀ name, (name = true ↔ decodeOp d₀.regs.op = some .FILE_NAME) →
      HonestInv d₀ ⟨d₀.startWrite (faultyHost res) name fresh, []⟩ := by
    intro name hname
    refine honestInv_readLoop hname rfl (dvd_zero 4) rfl rfl rfl rfl
      (fun _ => ⟨rfl, fun i hi => absurd hi (Nat.not_lt_zero i)⟩) fun hw hret hle => ?_
    have hwrite : decodeOp d₀.regs.op = some .WRITE := hop.resolve_right fun hfile => by
      rw [hname.mpr hfile] at hw
      cases hw
    rcases hhonest hwrite with hcomplete | ⟨-, hzero⟩ | hlong
    · exact hcomplete
    · exact absurd hzero hret
    · have hle' : d₀.transferSize.toNat ≤ 2 ^ 32 - 4 := hle
      omega
  rcases hop with hop | hop
  · simp only [runControl, hop]
    exact hstart false (by simp [hop])
  · simp only [runControl, hop]
    exact hstart true (by simp [hop])

theorem nextTaken_control (hc : d₀.control = .waiting true) (fresh : Nat → Byte) :
    nextTaken res ⟨d₀, []⟩ (.control fresh) = some ⟨d₀.runControl (faultyHost res) fresh, []⟩ := by
  have hnext : next (faultyHost res) d₀ (.control fresh) =
      some (d₀.runControl (faultyHost res) fresh) := by
    simp only [next, hc]
  simp only [nextTaken, Traced.step, hnext, Option.map_some, takenBytes, List.append_nil]

/-- **An operation that is honest at its start is honest at its end.** -/
theorem always_of_writeHonest (hc : d₀.control = .waiting true)
    (hop : decodeOp d₀.regs.op = some .WRITE ∨ decodeOp d₀.regs.op = some .FILE_NAME)
    (hhonest : decodeOp d₀.regs.op = some .WRITE → WriteHonest res d₀) : AlwaysHonest res d₀ := by
  intro fresh ls s hls hrun
  rw [exec_cons (nextTaken_control hc fresh)] at hrun
  exact (exec_invariant_of (I := HonestInv d₀) (A := Label.LeavesStatus)
    (fun _ _ _ hi hl hn => honestInv_next hhonest hop hi hl hn) hls
    (honestInv_control hhonest hop fresh) hrun).honest

/-! ## 4. The exact condition -/

/-- A file of ones behind a gap of zeros: what is at `p` tells where the write has been. -/
theorem write_at {p n pos : Nat} {bytes : List Byte} (hn : 0 < n)
    (h : ∀ i < n, (HostFile.write ⟨[], pos⟩ bytes).content[p + i]? = some 1#8) :
    pos ≤ p ∧ p + n ≤ pos + bytes.length := by
  rw [content_write] at h
  by_cases hnil : bytes = []
  · have := h 0 hn
    simp [hnil] at this
  · simp only [if_neg hnil] at h
    constructor
    · by_contra hlt
      have := h 0 hn
      rw [overwrite_before [] pos bytes (by omega)] at this
      simp at this
    · by_contra hlt
      have := h (n - 1) (by omega)
      rw [overwrite_behind [] pos bytes (by omega)] at this
      simp at this

/-- A WRITE that has come to its success: what it says is so for an empty file only if the calls
    were complete. -/
theorem complete_of_holds {e : BlockDevice FaultyHost} (hop : decodeOp d₀.regs.op = some .WRITE)
    (hhost : e.host = (d₀.withFile ⟨[], d₀.regs.position + d₀.regs.length⟩).host) (hfd : e.fd = d₀.fd)
    (hpos : e.position = d₀.position) (hret : e.funcRet ≠ 0#32)
    (hsize : t.transferSize = d₀.transferSize) (hones : ∀ x ∈ tr, x = 1#8)
    (h : StatusHonest d₀.regs ⟨e.writeDone (faultyHost res) t, tr⟩) : Complete res d₀ := by
  obtain ⟨bytes, hmap⟩ : ∃ bytes, (List.range t.transferSize.toNat).map t.dataBuff = bytes := ⟨_, rfl⟩
  have hbyteLen : bytes.length = d₀.transferSize.toNat := by simp [← hmap, hsize]
  obtain ⟨hsame, hcontent⟩ := @content_writeFile_faulty res e t _ hmap
  obtain ⟨hraise, hraise'⟩ := host_raiseIrq (e.writeFile (faultyHost res) t)
  rw [writeDone, if_neg hret] at h
  obtain ⟨hopened, hlen, hbytes⟩ := h.success rfl
  have hopen : e.host.opened = some e.fd := by
    refine Eq.trans hsame.symm ?_
    rw [← hraise]
    exact hopened.trans (congrArg some hraise')
  have hlen' : d₀.regs.length ≤ tr.length := hlen hop
  have hopen' : d₀.host.opened = some d₀.fd := by
    rw [hfd, hhost] at hopen
    exact hopen
  by_cases hzero : d₀.regs.length = 0
  · exact ⟨hopen', by omega, fun hne => absurd hzero hne⟩
  · have hcontent' : (e.writeFile (faultyHost res) t).raiseIrq.host.file.content =
        (HostFile.write ⟨[], seekTo res e.host e.position⟩
          (bytes.take ((res (e.host.calls + 1)).takes bytes.length))).content := by
      rw [hraise, hcontent hopen, hhost]
      rfl
    obtain ⟨hle, hend⟩ := write_at (p := d₀.regs.position) (n := d₀.regs.length) (by omega)
      fun i hi => by
        have htr : tr[i]? = some 1#8 := by
          rw [List.getElem?_eq_getElem (by omega), hones _ (List.getElem_mem _)]
        rw [← hcontent', ← htr]
        exact hbytes hop i hi
    have hcalls : e.host.calls = d₀.host.calls := by
      rw [hhost]
      rfl
    have hfilePos : e.host.file.pos = d₀.regs.position + d₀.regs.length := by
      rw [hhost]
      rfl
    have hmodN : d₀.transferSize.toNat ≤ d₀.regs.length := by
      rw [transferSize, BitVec.toNat_mul]
      exact Nat.mod_le _ _
    rw [List.length_take, hbyteLen] at hend
    rw [seekTo_eq, hfilePos, hpos, hcalls] at hle hend
    by_cases hseek : res d₀.host.calls ≠ .fails ∧ d₀.position.toNat < 2 ^ 31
    · rw [if_pos hseek] at hle hend
      have hN : d₀.transferSize.toNat = d₀.regs.length := by omega
      rw [hN] at hend
      exact ⟨hopen', by omega, fun _ => ⟨hseek.1, by omega, by omega⟩⟩
    · rw [if_neg hseek] at hle
      omega

/-- A WRITE to which the bus answers with ones comes to its end, with nothing but ones taken. -/
theorem ones_written (res : Nat → CallResult) (d : BlockDevice FaultyHost)
    (hoff : t.offset.toNat = 0) (hne : t.transferSize.toNat ≠ 0)
    (hlong : t.transferSize.toNat ≤ 2 ^ 32 - 4) :
    ∃ n e u tr, exec (nextTaken res) ⟨d.readLoop (faultyHost res) false t, []⟩
        (List.replicate n (.response false 0x01010101#32)) =
        some ⟨writeDone (faultyHost res) e u, tr⟩ ∧ (∀ x ∈ tr, x = 1#8) ∧
      u.transferSize = t.transferSize ∧ e.funcRet ≠ 0#32 ∧ Later d e := by
  obtain ⟨e, u, hrun, hu, -, huoff, husize, hlater⟩ := readLoop_rounds (faultyHost res) d t
    0x01010101#32 (j := (t.transferSize.toNat - 1) / 4) (by omega)
  obtain ⟨hreply, -⟩ := @reply_last_word _ (faultyHost res) _ _ hu (by omega)
    (by rw [husize]; omega) 0x01010101#32
  have hwhole := (exec_append hrun [.response false 0x01010101#32]).trans (exec_response hreply rfl)
  rw [← List.replicate_succ'] at hwhole
  obtain ⟨tr, htraced, hmem⟩ := exec_traced takenBytes hwhole []
  have hret : (e.rcvRsp false).funcRet ≠ 0#32 := by
    show (1#32 : ULong) ≠ 0#32
    decide
  refine ⟨_, _, _, tr, htraced, fun x hx => ?_, husize, hret, hlater.regs, hlater.fd, hlater.host⟩
  obtain ⟨s', l, hl, hx⟩ := hmem x hx
  rw [List.eq_of_mem_replicate hl, takenBytes] at hx
  split at hx
  · obtain ⟨i, hi, rfl⟩ := List.mem_map.mp hx
    have hbyte : ∀ i < 4, byteOf 0x01010101#32 i = 1#8 := by decide
    exact hbyte i (List.mem_range.mp hi)
  · cases hx

theorem writeHonest_of_always (hc : d₀.control = .waiting true)
    (hop : decodeOp d₀.regs.op = some .WRITE) (h : ∀ file, AlwaysHonest res (d₀.withFile file)) :
    WriteHonest res d₀ := by
  by_cases hlong : 2 ^ 32 - 4 < d₀.transferSize.toNat
  · exact .inr (.inr hlong)
  by_cases hstale : d₀.transferSize = 0#32 ∧ d₀.funcRet = 0#32
  · exact .inr (.inl hstale)
  left
  obtain ⟨d, hd⟩ : ∃ d, d₀.withFile ⟨[], d₀.regs.position + d₀.regs.length⟩ = d := ⟨_, rfl⟩
  have halways : AlwaysHonest res d := hd ▸ h _
  have hregs : d.regs = d₀.regs := by rw [← hd]; rfl
  have hc' : d.control = .waiting true := by rw [← hd]; exact hc
  have hcontrol : d.runControl (faultyHost res) (fun _ => 0#8) =
      d.busy.readLoop (faultyHost res) false
        ⟨d₀.regs.buffer, 0#32, d₀.transferSize, fun _ => 0#8⟩ := by
    rw [← hd]
    have hop' : decodeOp (d₀.withFile ⟨[], d₀.regs.position + d₀.regs.length⟩).regs.op =
        some .WRITE := hop
    simp only [runControl, hop', startWrite_eq]
    rfl
  have hfd : d.fd = d₀.fd := by rw [← hd]; rfl
  have hpos : d.position = d₀.position := by rw [← hd]; rfl
  by_cases hzero : d₀.transferSize.toNat = 0
  · have hlt : ¬ (0#32 : ULong) < d₀.transferSize := by
      rw [BitVec.lt_def, hzero]
      decide
    have hfirst := halways (fun _ => 0#8) [] _ (List.forall_mem_nil _)
      (exec_cons (nextTaken_control hc' _) [])
    rw [hcontrol, (readLoop_ends _ hlt).1, hregs] at hfirst
    refine complete_of_holds (e := d.busy)
      (t := ⟨d₀.regs.buffer, 0#32, d₀.transferSize, fun _ => 0#8⟩) hop (hd ▸ rfl) hfd hpos ?_ rfl
      (List.forall_mem_nil _) hfirst
    intro hret
    refine hstale ⟨BitVec.eq_of_toNat_eq hzero, ?_⟩
    rw [← hd] at hret
    exact hret
  · obtain ⟨n, e, u, tr, hrun, hones, husize, hret, hlater⟩ := ones_written (t :=
      ⟨d₀.regs.buffer, 0#32, d₀.transferSize, fun _ => 0#8⟩) res d.busy rfl hzero
      (Nat.le_of_not_lt hlong)
    rw [← hcontrol] at hrun
    have hleaves : ∀ l ∈ List.replicate n (Label.response false 0x01010101#32), l.LeavesStatus := by
      intro l hl
      rw [List.eq_of_mem_replicate hl]
      trivial
    have hend := halways (fun _ => 0#8) _ _ hleaves ((exec_cons (nextTaken_control hc' _) _).trans hrun)
    rw [hregs] at hend
    refine complete_of_holds hop (hlater.host.trans (hd ▸ rfl)) (hlater.fd.trans hfd) ?_ hret husize
      hones hend
    rw [position, hlater.regs]
    exact hpos

/-- **The exact condition**: for every result of the calls to the host, a WRITE is told to be a
    success only if the file is open and has all its bytes at their place, whatever the file was and
    the bus answers, exactly if the calls of the WRITE are complete or it does not come to them. The
    status of a FILE_NAME is always right. -/
theorem writeHonest_iff (res : Nat → CallResult) {d₀ : BlockDevice FaultyHost}
    (hc : d₀.control = .waiting true)
    (hop : decodeOp d₀.regs.op = some .WRITE ∨ decodeOp d₀.regs.op = some .FILE_NAME) :
    (∀ file, AlwaysHonest res (d₀.withFile file)) ↔
      (decodeOp d₀.regs.op = some .WRITE → WriteHonest res d₀) := by
  constructor
  · intro h hwrite
    exact writeHonest_of_always hc hwrite h
  · intro h file
    have hhonest : decodeOp d₀.regs.op = some .WRITE → WriteHonest res (d₀.withFile file) := by
      intro hwrite
      rcases h hwrite with ⟨hopened, hlength, hcalls⟩ | hrest
      · exact .inl ⟨hopened, hlength, hcalls⟩
      · exact .inr hrest
    exact @always_of_writeHonest res (d₀.withFile file) hc hop hhonest

/-- A device with blocks of one byte before a WRITE of one block, on a host whose calls succeed. -/
def beforeWrite (fname : Option (Nat → Byte)) : BlockDevice FaultyHost :=
  let d := new (faultyHost fun _ => .succeeds) ⟨⟨[], 0⟩, none, 0⟩ fname 1#32 0#32
  { d with regs := { d.regs with op := SlBlockOp.WRITE.code, count := 1#32 } }

theorem opened_write_honest : (beforeWrite (some fun _ => 0#8)).fd = 3 ∧
    ∀ file, AlwaysHonest (fun _ => .succeeds) ((beforeWrite (some fun _ => 0#8)).withFile file) :=
  ⟨rfl, (writeHonest_iff (fun _ => .succeeds) rfl (.inl rfl)).mpr fun _ =>
    .inl ⟨rfl, by decide, fun _ => ⟨by decide, by decide, by decide⟩⟩⟩

/-- A WRITE without a file is told to be a success. -/
theorem unopened_write_dishonest :
    ¬ ∀ file, AlwaysHonest (fun _ => .succeeds) ((beforeWrite none).withFile file) := by
  intro h
  rcases writeHonest_of_always rfl rfl h with hcomplete | ⟨hsize, -⟩ | hlong
  · exact absurd hcomplete.opened (by decide)
  · exact absurd hsize (by decide)
  · exact absurd hlong (by decide)

end BlockDevice

end Rabbits
