/-
  File:      Rabbits/Driver/FileCalls.lean
  Subject:   A host file through the driver (rabbitsha_drv.c: rabbitsha_chr_read, rabbitsha_chr_write,
             rabbitsha_chr_llseek) as its users see it.

  Between the user and the file are the driver's buffer, four register writes, the operation of the
  block device over the bus, and a loop over its status. The descriptors of one file share all of
  it, and one call follows another.

  * `PosixFile` -- what the component is for: bytes, and a position for each descriptor;
  * `Commanded` -- the driver's commands, the operation, and the status that is not BUSY;
  * `FileStep` -- the calls of the driver; `Represents` -- the file behind driver, device and memory;
  * `write_commanded`, `read_commanded` -- what one operation leaves, and that it ends;
  * `files_refine` -- **every run of calls below 2^31 gives what the file gives, and there is one**.

  `control_thread` takes a command before the driver reads the status. A READ may overwrite what the
  user's buffer has behind the bytes it returns; the specification leaves those open. A write of no
  byte is left out: what the device makes of it depends on the operation before it. So is the default
  case of the switch over `whence`.
-/
import Rabbits.Block.FileSize
import Rabbits.Driver.ReadFile
import Rabbits.Lib.Calls

namespace Rabbits

open Lib Relation BlockDevice

/-! ## 1. The file -/

/-- A call on a descriptor, with what the user gives: the bytes to write, the buffer to read into. -/
inductive FileCall where
  | write (fd : Nat) (data : List Byte)
  | read (fd : Nat) (user : List Byte)
  | llseek (fd : Nat) (off : BitVec 64) (whence : Whence)

/-- What a call returns, and the user's buffer after it. -/
structure FileResult where
  ret : Except Errno (BitVec 64)
  user : List Byte

/-- The bytes of a file, and the positions of its descriptors. -/
structure PosixFile where
  content : List Byte
  pos : Nat → Nat

namespace PosixFile

/-- How many bytes a call transfers at most. -/
def chunk (n : Nat) : Nat := min n BLOCK_DEVICE_DRV_BUF_SIZE

/-- How many bytes a read gets. -/
def readable (a : PosixFile) (fd n : Nat) : Nat := min (chunk n) (a.content.length - a.pos fd)

/-- Where a seek counts from. -/
def origin (a : PosixFile) (fd : Nat) : Whence → Nat
  | .SEEK_SET => 0
  | .SEEK_CUR => a.pos fd
  | .SEEK_END => a.content.length

/-- The file after a call. -/
def after (a : PosixFile) : FileCall → PosixFile
  | .write fd data =>
      ⟨overwrite a.content (a.pos fd) (data.take BLOCK_DEVICE_DRV_BUF_SIZE),
        Function.update a.pos fd (a.pos fd + chunk data.length)⟩
  | .read fd user =>
      { a with pos := Function.update a.pos fd (a.pos fd + a.readable fd user.length) }
  | .llseek fd off whence =>
      { a with pos := Function.update a.pos fd (a.origin fd whence + off.toInt).toNat }

/-- A call whose positions stay below 2^31; a write has a byte at least. -/
def InRange (a : PosixFile) : FileCall → Prop
  | .write fd data => 0 < data.length ∧ data.length < 2 ^ 32 ∧
      a.pos fd + chunk data.length < 2 ^ 31
  | .read fd user => user.length < 2 ^ 32 ∧ a.pos fd < 2 ^ 31
  | .llseek fd off whence => 0 ≤ a.origin fd whence + off.toInt ∧
      a.origin fd whence + off.toInt < 2 ^ 63

/-- What a call gives: the number of bytes, and for a read the bytes; the new position. -/
def Gives (a : PosixFile) (c : FileCall) (r : FileResult) : Prop :=
  match c with
  | .write _ data => r.ret = .ok (BitVec.ofNat 64 (chunk data.length))
  | .read fd user =>
      r.ret = .ok (BitVec.ofNat 64 (a.readable fd user.length)) ∧
        r.user.length = user.length ∧
        r.user.take (a.readable fd user.length) =
          (a.content.drop (a.pos fd)).take (a.readable fd user.length) ∧
        r.user.drop (chunk user.length) = user.drop (chunk user.length)
  | .llseek fd off whence =>
      r.ret = .ok (BitVec.ofNat 64 (a.origin fd whence + off.toInt).toNat)

end PosixFile

/-! ## 2. The driver over the device -/

/-- The four register writes of a transfer. -/
def transferCommands (op : SlBlockOp) (buffer lba count : ULong) : List Label :=
  [writelLabel .BUFFER buffer, writelLabel .LBA lba, writelLabel .COUNT count,
    writelLabel .OP op.code]

/-- `readl (device->base_addr + BLOCK_DEVICE_STATUS)`. -/
def statusRead : Label := .read SlBlockRegister.STATUS.busOfs SlBlockRegister.STATUS.busBe

/-- The commands, the operation (with the reads of the status in between), and the read that finds
    it not BUSY; `irq_update_thread` may follow. -/
inductive Commanded (w : Wiring) (op : SlBlockOp) (buffer lba count : ULong)
    (s : BlockSystem HostFile) : ULong → BlockSystem HostFile → Prop where
  | mk {d d' d'' : BlockDevice HostFile} {fresh : Nat → Byte} {e : BlockSystem HostFile}
      (hcmd : exec (next hostFile) s.dev (transferCommands op buffer lba count) = some d)
      (hrun : Completes hostFile w fresh ⟨d, s.mem⟩ e)
      (hpoll : e.dev.next hostFile statusRead = some d')
      (hirq : d'' = d' ∨ d'.next hostFile .irqUpdate = some d'') :
      Commanded w op buffer lba count s e.dev.regs.status.code ⟨d'', e.mem⟩

/-- The driver, its device on a bus with the memory that has the buffer, and `file->f_pos` of the
    descriptors. -/
structure ShaFiles where
  device : RabbitshaDevice
  sys : BlockSystem HostFile
  pos : Nat → BitVec 64

/-- `COPY_FROM_USER` into the driver's buffer. -/
def copyFromUser (w : Wiring) (bufferPhys : ULong) (data : List Byte) (m : MemDevice) : MemDevice :=
  { m with mem := (rangeWrite (bufferPhys.toNat - w.base.toNat) data.length fun i =>
      data.getD i 0#8).apply m.mem }

namespace ShaFiles

/-- `rabbitsha_chr_write` behind its wait. -/
def writeEnd (f : ShaFiles) (fd : Nat) (data : List Byte) (status : ULong)
    (s : BlockSystem HostFile) : FileResult × ShaFiles :=
  let r := rabbitshaChrWrite f.device ((f.pos fd).setWidth 32) (BitVec.ofNat 32 data.length) data
    status
  let pos := match r.1 with
    | .ok n => Function.update f.pos fd (f.pos fd + n.setWidth 64)
    | .error _ => f.pos
  (⟨r.1.map (BitVec.setWidth 64), []⟩, ⟨r.2, s, pos⟩)

/-- `rabbitsha_chr_read` behind its wait. -/
def readEnd (w : Wiring) (f : ShaFiles) (fd : Nat) (user : List Byte) (status : ULong)
    (s : BlockSystem HostFile) : FileResult × ShaFiles :=
  let size := BitVec.ofNat 32 user.length
  let data := bufferBytes w s f.device.bufferPhys
  let r := chrRead f.device (f.pos fd) user size data status s.dev.regs.count
  let d := (rabbitshaChrRead f.device ((f.pos fd).setWidth 32) size data status s.dev.regs.count).2
  (⟨r.ret.map (BitVec.setWidth 64), r.user⟩, ⟨d, s, Function.update f.pos fd r.loff⟩)

/-- `newpos` of `rabbitsha_chr_llseek`. -/
def newpos (f : ShaFiles) (fd : Nat) (off : BitVec 64) : Whence → BitVec 64
  | .SEEK_SET => off
  | .SEEK_CUR => f.pos fd + off
  | .SEEK_END => f.sys.dev.regs.size.setWidth 64 + off

end ShaFiles

/-- One call. In state 3 a transfer goes to the device; in the other states it fails. -/
inductive FileStep (w : Wiring) (f : ShaFiles) : FileCall → FileResult → ShaFiles → Prop where
  | write {fd : Nat} {data : List Byte} {size status : ULong} {s : BlockSystem HostFile}
      (hopen : f.device.state = 3) (hsize : size = clampSize (BitVec.ofNat 32 data.length))
      (h : Commanded w .WRITE f.device.bufferPhys ((f.pos fd).setWidth 32) size
        ⟨f.sys.dev, copyFromUser w f.device.bufferPhys (data.take size.toNat) f.sys.mem⟩ status s) :
      FileStep w f (.write fd data) (f.writeEnd fd data status s).1 (f.writeEnd fd data status s).2
  | read {fd : Nat} {user : List Byte} {size status : ULong} {s : BlockSystem HostFile}
      (hopen : f.device.state = 3) (hsize : size = clampSize (BitVec.ofNat 32 user.length))
      (h : Commanded w .READ f.device.bufferPhys ((f.pos fd).setWidth 32) size f.sys status s) :
      FileStep w f (.read fd user) (f.readEnd w fd user status s).1 (f.readEnd w fd user status s).2
  | llseek {fd : Nat} {off : BitVec 64} {whence : Whence} (hopen : f.device.state ≠ 1) :
      FileStep w f (.llseek fd off whence) ⟨.ok (f.newpos fd off whence), []⟩
        { f with pos := Function.update f.pos fd (f.newpos fd off whence) }
  | closedWrite {fd : Nat} {data : List Byte} (hclosed : f.device.state ≠ 3) :
      FileStep w f (.write fd data) ⟨.error .enxio, []⟩ f
  | closedRead {fd : Nat} {user : List Byte} (hclosed : f.device.state ≠ 3) :
      FileStep w f (.read fd user) ⟨.error .enxio, user⟩ f
  | unnamedSeek {fd : Nat} {off : BitVec 64} {whence : Whence} (hnaming : f.device.state = 1) :
      FileStep w f (.llseek fd off whence) ⟨.error .enxio, []⟩ f

/-- The device waits for a command, with blocks of one byte and a buffer of the driver inside the
    memory. -/
structure Idle (w : Wiring) (bufferPhys : ULong) (s : BlockSystem HostFile) : Prop where
  status : s.dev.regs.status = .IDLE
  control : s.dev.control = .waiting false
  blockSize : s.dev.regs.blockSize = 1#32
  size : SizeRight HostFile.length s.dev
  aligned : 4 ∣ bufferPhys.toNat
  memory : 4 ∣ s.mem.size.toNat
  inside : w.Inside s.mem.size bufferPhys.toNat BLOCK_DEVICE_DRV_BUF_SIZE

/-- **The file behind driver, device and memory.** -/
structure Represents (w : Wiring) (f : ShaFiles) (a : PosixFile) : Prop where
  state : f.device.state = 3
  buffer : f.device.buffer = bufferBytes w f.sys f.device.bufferPhys
  idle : Idle w f.device.bufferPhys f.sys
  content : f.sys.dev.host.content = a.content
  small : a.content.length < 2 ^ 31
  pos : ∀ fd, (f.pos fd).toNat = a.pos fd

/-! ## 3. One operation -/

section Operation

variable {w : Wiring} {bufferPhys : ULong} {s : BlockSystem HostFile}

/-- The registers behind the commands. -/
theorem exec_transferCommands {d : BlockDevice HostFile} (hc : d.control = .waiting false)
    (hs : d.regs.status = .IDLE) (op : SlBlockOp) (buffer lba count : ULong) :
    ∃ d', exec (next hostFile) d (transferCommands op buffer lba count) = some d' ∧
      d'.control = .waiting true ∧ d'.regs = { d.regs with buffer, lba, count, op := op.code } ∧
      d'.host = d.host := by
  have hstep {d : BlockDevice HostFile} (reg : SlBlockRegister) (val : ULong)
      (hd : d.control = .waiting false) : next hostFile d (writelLabel reg val) =
        some (d.access (slaveWrite d.regs reg.busOfs reg.busBe (wordData val))) := by
    simp only [writelLabel, next, hd]
  obtain ⟨d₁, h₁, hc₁, hr₁, hh₁⟩ : ∃ d₁, next hostFile d (writelLabel .BUFFER buffer) = some d₁ ∧
      d₁.control = .waiting false ∧ d₁.regs = { d.regs with buffer } ∧ d₁.host = d.host := by
    refine ⟨_, hstep _ _ hc, ?_, ?_, rfl⟩ <;>
      simp [access, slaveWrite, registerOf_writel, valueOf_wordData, hc]
  obtain ⟨d₂, h₂, hc₂, hr₂, hh₂⟩ : ∃ d₂, next hostFile d₁ (writelLabel .LBA lba) = some d₂ ∧
      d₂.control = .waiting false ∧ d₂.regs = { d₁.regs with lba } ∧ d₂.host = d₁.host := by
    refine ⟨_, hstep _ _ hc₁, ?_, ?_, rfl⟩ <;>
      simp [access, slaveWrite, registerOf_writel, valueOf_wordData, hc₁]
  obtain ⟨d₃, h₃, hc₃, hr₃, hh₃⟩ : ∃ d₃, next hostFile d₂ (writelLabel .COUNT count) = some d₃ ∧
      d₃.control = .waiting false ∧ d₃.regs = { d₂.regs with count } ∧ d₃.host = d₂.host := by
    refine ⟨_, hstep _ _ hc₂, ?_, ?_, rfl⟩ <;>
      simp [access, slaveWrite, registerOf_writel, valueOf_wordData, hc₂]
  have hs₃ : d₃.regs.status = .IDLE := by
    rw [hr₃, hr₂, hr₁]
    exact hs
  obtain ⟨d₄, h₄, hc₄, hr₄, hh₄⟩ : ∃ d₄, next hostFile d₃ (writelLabel .OP op.code) = some d₄ ∧
      d₄.control = .waiting true ∧ d₄.regs = { d₃.regs with op := op.code } ∧
      d₄.host = d₃.host := by
    refine ⟨_, hstep _ _ hc₃, ?_, ?_, rfl⟩ <;>
      simp [access, slaveWrite, registerOf_writel, valueOf_wordData, hc₃, hs₃, wake]
  refine ⟨d₄, ?_, hc₄, ?_, hh₄.trans (hh₃.trans (hh₂.trans hh₁))⟩
  · rw [transferCommands, exec_cons h₁, exec_cons h₂, exec_cons h₃, exec_cons h₄, exec_nil]
  · rw [hr₄, hr₃, hr₂, hr₁]

/-- What any operation leaves: the memory as large as it was, the block size, and SIZE right. -/
structure Settles (s e : BlockSystem HostFile) : Prop where
  size : SizeKept (fun _ => True) HostFile.length s.dev e.dev
  memory : e.mem.size = s.mem.size

/-- No request changes the size of the memory. -/
theorem rcvRqst_size (m : MemDevice) (req : VciRequest) : (m.rcvRqst req).1.size = m.size := by
  unfold MemDevice.rcvRqst MemDevice.write MemDevice.read
  dsimp only
  repeat' split
  all_goals rfl

theorem busStep_settles {s' : BlockSystem HostFile} (h : busStep hostFile w s = some s') :
    Settles s s' := by
  obtain ⟨a, -, hrest⟩ := Option.bind_eq_some_iff.mp h
  obtain ⟨rsp, -, hreply⟩ := Option.bind_eq_some_iff.mp hrest
  obtain ⟨d, hd, rfl⟩ := Option.map_eq_some_iff.mp hreply
  exact ⟨reply_sizeKept hostFile_sized hd, rcvRqst_size _ _⟩

theorem completes_settles {fresh : Nat → Byte} {e : BlockSystem HostFile}
    (h : Completes hostFile w fresh s e) : Settles s e := by
  obtain ⟨d, hd, hsteps, -⟩ := h
  have h0 : Settles s ⟨d, s.mem⟩ := ⟨sizeKept_next hostFile_sized hd, rfl⟩
  induction hsteps with
  | refl => exact h0
  | tail _ hstep ih =>
      cases hstep with
      | bus hb =>
          have hs := busStep_settles hb
          exact ⟨ih.size.trans hs.size, hs.memory.trans ih.memory⟩
      | read ofs be hop hn => exact ⟨ih.size.trans (sizeKept_next hostFile_sized hn), ih.memory⟩
      | irqUpdate hop hn => exact ⟨ih.size.trans (sizeKept_next hostFile_sized hn), ih.memory⟩

/-- The device with the commands of a transfer of at most a buffer is ready for it. -/
theorem Idle.ready (h : Idle w bufferPhys s) {op : SlBlockOp} {lba count : ULong}
    (hlba : lba.toNat < 2 ^ 31) (hcount : count.toNat ≤ BLOCK_DEVICE_DRV_BUF_SIZE)
    {d : BlockDevice HostFile} (hc : d.control = .waiting true)
    (hregs : d.regs = { s.dev.regs with buffer := bufferPhys, lba, count, op := op.code }) :
    Ready w ⟨d, s.mem⟩ ∧ d.regs.position = lba.toNat ∧ d.regs.length = count.toNat := by
  have hbs : d.regs.blockSize = 1#32 := by
    rw [hregs]
    exact h.blockSize
  obtain ⟨hposition, hlength⟩ := mul_one_toNat hbs
  have hbuf : d.regs.buffer = bufferPhys := by rw [hregs]
  replace hposition : d.regs.position = lba.toNat := hposition.trans (by rw [hregs])
  replace hlength : d.regs.length = count.toNat := hlength.trans (by rw [hregs])
  obtain ⟨hin₁, hin₂, hin₃⟩ := h.inside
  refine ⟨⟨hc, ?_, hposition.trans_lt hlba, hlength.trans_lt (hcount.trans_lt (by decide)),
    hbuf ▸ h.aligned, h.memory, ?_⟩, hposition, hlength⟩
  · rw [hbs]
    decide
  · show w.Inside s.mem.size d.regs.buffer.toNat d.regs.length
    rw [hbuf, hlength]
    exact ⟨hin₁, by omega, by omega⟩

/-- The read that finds the end of an operation, and the interrupt line behind it. -/
theorem polled {e d' d'' : BlockDevice HostFile} (hc : e.control = .waiting false)
    (hs : e.regs.status ≠ .BUSY) (hpoll : e.next hostFile statusRead = some d')
    (hirq : d'' = d' ∨ d'.next hostFile .irqUpdate = some d'') :
    d''.control = .waiting false ∧ d''.regs = { e.regs with status := .IDLE, irq := 0#32 } ∧
      d''.host = e.host := by
  have hd' : d' = e.access (slaveRead e.regs SlBlockRegister.STATUS.busOfs
      SlBlockRegister.STATUS.busBe) := by
    simp only [statusRead, next, hc, Option.some.injEq] at hpoll
    exact hpoll.symm
  have hread : slaveRead e.regs SlBlockRegister.STATUS.busOfs SlBlockRegister.STATUS.busBe =
      ⟨{ e.regs with status := .IDLE, irq := 0#32 }, false, true, some e.regs.status.code⟩ := by
    simp only [slaveRead, registerOf_writel]
    rw [if_pos hs]
  rw [hread] at hd'
  subst hd'
  rcases hirq with rfl | hirq
  · exact ⟨hc, rfl, rfl⟩
  · obtain ⟨-, ⟨_, _, _, hl, -⟩ | ⟨_, _, hl, -⟩ | ⟨_, hl, -⟩ | ⟨_, _, hl, -⟩ | ⟨-, rfl⟩⟩ :=
      next_cases hirq
    all_goals first | cases hl | exact ⟨hc, rfl, rfl⟩

/-- Behind an operation that has ended the device is idle again. -/
theorem Idle.after (h : Idle w bufferPhys s) {d : BlockDevice HostFile} {buffer lba count op : ULong}
    (hregs : d.regs = { s.dev.regs with buffer, lba, count, op }) (hhost : d.host = s.dev.host)
    {fresh : Nat → Byte} {e : BlockSystem HostFile}
    (hrun : Completes hostFile w fresh ⟨d, s.mem⟩ e) (hc : e.dev.control = .waiting false)
    {d' d'' : BlockDevice HostFile} (hs : e.dev.regs.status ≠ .BUSY)
    (hpoll : e.dev.next hostFile statusRead = some d')
    (hirq : d'' = d' ∨ d'.next hostFile .irqUpdate = some d'') : Idle w bufferPhys ⟨d'', e.mem⟩ := by
  obtain ⟨hsize, hmemory⟩ := completes_settles hrun
  obtain ⟨hc'', hregs'', hhost''⟩ := polled hc hs hpoll hirq
  have hstart : SizeKept (fun _ => True) HostFile.length s.dev d :=
    sizeKept_of_same (by rw [hregs]) (by rw [hregs]) id
      (congrArg (fun f : HostFile => f.content.length) hhost)
  have hend : SizeKept (fun _ => True) HostFile.length e.dev d'' :=
    sizeKept_of_same (by rw [hregs'']) (by rw [hregs'']) id
      (congrArg (fun f : HostFile => f.content.length) hhost'')
  have hkept := (hstart.trans hsize).trans hend
  refine ⟨?_, hc'', hkept.blockSize.trans h.blockSize, hkept.size (fun _ => h.size) trivial,
    h.aligned, ?_, ?_⟩
  · show d''.regs.status = _
    rw [hregs'']
  · show 4 ∣ e.mem.size.toNat
    rw [hmemory]
    exact h.memory
  · show w.Inside e.mem.size _ _
    rw [hmemory]
    exact h.inside

/-- A poll has an answer. -/
theorem exists_poll {e : BlockDevice HostFile} (hc : e.control = .waiting false) :
    ∃ d', e.next hostFile statusRead = some d' := by
  simp only [statusRead, next, hc]
  exact ⟨_, rfl⟩

/-- **A WRITE of the driver** ends, and every end of it has the bytes of the buffer in the file. -/
theorem write_commanded (h : Idle w bufferPhys s) {lba count : ULong} (hlba : lba.toNat < 2 ^ 31)
    (hpos : 0 < count.toNat) (hcount : count.toNat ≤ BLOCK_DEVICE_DRV_BUF_SIZE) :
    (∃ status t, Commanded w .WRITE bufferPhys lba count s status t) ∧
      ∀ status t, Commanded w .WRITE bufferPhys lba count s status t →
        status = SlBlockStatus.WRITE_SUCCESS.code ∧ t.mem.mem = s.mem.mem ∧ Idle w bufferPhys t ∧
        t.dev.host.content = overwrite s.dev.host.content lba.toNat
          ((bufferBytes w s bufferPhys).take count.toNat) := by
  obtain ⟨d, hexec, hc, hregs, hhost⟩ :=
    exec_transferCommands h.control h.status .WRITE bufferPhys lba count
  obtain ⟨hready, hposition, hlength⟩ := h.ready hlba hcount hc hregs
  have hop : decodeOp d.regs.op = some .WRITE := by
    rw [hregs]
    rfl
  have hcnt : d.regs.count = count := by rw [hregs]
  have hbuf : d.regs.buffer = bufferPhys := by rw [hregs]
  have hall := write_completes hready hop (by rw [hcnt]; exact hpos)
  constructor
  · obtain ⟨e, he⟩ := (hall fun _ => 0#8).1
    obtain ⟨d', hd'⟩ := exists_poll ((hall _).2 e he).2.control
    exact ⟨_, _, .mk hexec he hd' (.inl rfl)⟩
  · rintro _ _ @⟨_, d', d'', fresh, e, hcmd, hrun, hpoll, hirq⟩
    cases hexec.symm.trans hcmd
    obtain ⟨hw, hk⟩ := (hall fresh).2 e hrun
    have hbusy : e.dev.regs.status ≠ .BUSY := fun hb => by
      rw [hw.status] at hb
      cases hb
    refine ⟨by rw [hw.status], hw.mem, h.after hregs hhost hrun hk.control hbusy hpoll hirq, ?_⟩
    refine (congrArg HostFile.content (polled hk.control hbusy hpoll hirq).2.2).trans ?_
    have hlen : ((bufferBytes w s bufferPhys).take count.toNat).length = count.toNat := by
      rw [List.length_take, length_bufferBytes, Nat.min_eq_left hcount]
    have hbefore := hw.before
    have hbytes := hw.bytes
    have hbehind := hw.behind
    dsimp only at hbefore hbytes hbehind
    rw [hposition, hhost] at hbefore
    rw [hposition, hlength, hbuf] at hbytes
    rw [hposition, hlength, hhost] at hbehind
    refine List.ext_getElem? fun i => ?_
    rcases lt_or_ge i lba.toNat with hi | hi
    · rw [hbefore i hi, overwrite_before _ _ _ hi]
    rcases lt_or_ge i (lba.toNat + count.toNat) with hi' | hi'
    · obtain ⟨j, rfl⟩ := Nat.exists_eq_add_of_le hi
      rw [hbytes j (by omega), overwrite_at _ _ _ (by omega), List.getElem?_take,
        if_pos (by omega), getElem?_bufferBytes _ _ _ (by omega)]
      rfl
    · rw [hbehind i hi', overwrite_behind _ _ _ (by omega)]

/-- Where `control_thread` is behind a READ. -/
theorem read_control (hready : Ready w s) (hop : decodeOp s.dev.regs.op = some .READ)
    {fresh : Nat → Byte} {e : BlockSystem HostFile} (he : Completes hostFile w fresh s e) :
    e.dev.control = .waiting false := by
  obtain ⟨x, hrun, hc, -⟩ := read_runs hready hop fresh
  have hcmd : (commandOf s.dev.regs.op).isSome := by rw [commandOf, hop]; rfl
  obtain ⟨-, huniq⟩ := completes_unique (hready.next_control fresh) hrun (by rw [hc]; rfl)
    (Ready.busy fresh hcmd)
  have hcontrol : e.dev.control = x.dev.control := congrArg (·.dev.control) (huniq e he)
  exact hcontrol.trans hc

/-- **A READ of the driver** ends, and every end of it has the bytes of the file in the buffer. -/
theorem read_commanded (h : Idle w bufferPhys s) {lba count : ULong} (hlba : lba.toNat < 2 ^ 31)
    (hcount : count.toNat ≤ BLOCK_DEVICE_DRV_BUF_SIZE) :
    (∃ status t, Commanded w .READ bufferPhys lba count s status t) ∧
      ∀ status t, Commanded w .READ bufferPhys lba count s status t →
        status = SlBlockStatus.READ_SUCCESS.code ∧ Idle w bufferPhys t ∧
        t.dev.host.content = s.dev.host.content ∧
        t.dev.regs.count.toNat = min count.toNat (s.dev.host.content.length - lba.toNat) ∧
        (bufferBytes w t bufferPhys).take t.dev.regs.count.toNat =
          (s.dev.host.content.drop lba.toNat).take t.dev.regs.count.toNat := by
  obtain ⟨d, hexec, hc, hregs, hhost⟩ :=
    exec_transferCommands h.control h.status .READ bufferPhys lba count
  obtain ⟨hready, hposition, hlength⟩ := h.ready hlba hcount hc hregs
  have hop : decodeOp d.regs.op = some .READ := by
    rw [hregs]
    rfl
  have hbuf : d.regs.buffer = bufferPhys := by rw [hregs]
  have hbs : d.regs.blockSize = 1#32 := by
    rw [hregs]
    exact h.blockSize
  have hall := read_completes hready hop
  constructor
  · obtain ⟨e, he⟩ := (hall fun _ => 0#8).1
    obtain ⟨d', hd'⟩ := exists_poll (read_control hready hop he)
    exact ⟨_, _, .mk hexec he hd' (.inl rfl)⟩
  · rintro _ _ @⟨_, d', d'', fresh, e, hcmd, hrun, hpoll, hirq⟩
    cases hexec.symm.trans hcmd
    have hr := (hall fresh).2 e hrun
    have hcontrol := read_control hready hop hrun
    have hbusy : e.dev.regs.status ≠ .BUSY := fun hb => by
      rw [hr.status] at hb
      cases hb
    obtain ⟨-, hregs'', hhost''⟩ := polled hcontrol hbusy hpoll hirq
    have havail : available ⟨d, s.mem⟩ = min count.toNat (s.dev.host.content.length - lba.toNat) := by
      rw [available]
      dsimp only
      rw [hlength, hposition, hhost]
    have hcnt := hr.count
    dsimp only at hcnt
    rw [hbs, havail] at hcnt
    replace hcnt := hcnt.trans (Nat.div_one _)
    have hbytes := hr.bytes
    dsimp only at hbytes
    rw [havail, hhost, hposition, hbuf] at hbytes
    refine ⟨by rw [hr.status], h.after hregs hhost hrun hcontrol hbusy hpoll hirq, ?_, ?_, ?_⟩
    · show d''.host.content = _
      rw [hhost'', hr.file]
      exact congrArg HostFile.content hhost
    · show d''.regs.count.toNat = _
      rw [hregs'']
      exact hcnt
    · have hcount'' : d''.regs.count.toNat = _ :=
        (by rw [hregs''] : _ = e.dev.regs.count.toNat).trans hcnt
      rw [hcount'']
      refine List.ext_getElem? fun i => ?_
      rw [List.getElem?_take, List.getElem?_take]
      split
      · next hi =>
          rw [getElem?_bufferBytes _ _ _ (by omega), List.getElem?_drop, hbytes i hi]
          rfl
      · rfl

end Operation

/-! ## 4. One call -/

theorem toNat_clampSize_length {n : Nat} (hn : n < 2 ^ 32) :
    (clampSize (BitVec.ofNat 32 n)).toNat = PosixFile.chunk n := by
  rw [clampSize_toNat, BitVec.toNat_ofNat, Nat.mod_eq_of_lt hn, PosixFile.chunk]

theorem PosixFile.chunk_le (n : Nat) : chunk n ≤ BLOCK_DEVICE_DRV_BUF_SIZE := Nat.min_le_right _ _

theorem toNat_lba {pos : BitVec 64} (h : pos.toNat < 2 ^ 31) : (pos.setWidth 32).toNat = pos.toNat := by
  rw [BitVec.toNat_setWidth]
  exact Nat.mod_eq_of_lt (by omega)

/-- A position that is moved on by the bytes of a transfer. -/
theorem toNat_pos_add {pos : BitVec 64} {n : ULong} (hpos : pos.toNat < 2 ^ 31) :
    (pos + n.setWidth 64).toNat = pos.toNat + n.toNat := by
  have hn := n.isLt
  rw [BitVec.toNat_add, BitVec.toNat_setWidth]
  omega

/-- A seek that ends at a position. -/
theorem toNat_seek {pos off : BitVec 64} (h0 : 0 ≤ (pos.toNat : Int) + off.toInt)
    (h1 : (pos.toNat : Int) + off.toInt < 2 ^ 63) :
    (pos + off).toNat = ((pos.toNat : Int) + off.toInt).toNat := by
  have ho := off.isLt
  rw [BitVec.toNat_add]
  rw [BitVec.toInt_eq_toNat_cond] at h0 h1 ⊢
  split at h0 <;> split at h1 <;> split <;> omega

theorem length_overwrite (content : List Byte) (pos : Nat) (bytes : List Byte) :
    (overwrite content pos bytes).length = max (pos + bytes.length) content.length := by
  rw [overwrite, List.length_append, List.length_append, length_rightpad_take, List.length_drop]
  omega

theorem fill_bufferPhys (device : RabbitshaDevice) (data : List Byte) :
    (device.fill data).bufferPhys = device.bufferPhys := rfl

section Call

variable {w : Wiring} {f : ShaFiles} {a : PosixFile}

/-- The positions after one of them has moved. -/
theorem pos_update (h : ∀ fd, (f.pos fd).toNat = a.pos fd) (fd : Nat) {p : BitVec 64} {q : Nat}
    (hp : p.toNat = q) (fd' : Nat) :
    (Function.update f.pos fd p fd').toNat = Function.update a.pos fd q fd' := by
  rcases eq_or_ne fd' fd with rfl | hne
  · rw [Function.update_self, Function.update_self, hp]
  · rw [Function.update_of_ne hne, Function.update_of_ne hne, h fd']

/-- The memory with the bytes of the user is one for the same operations. -/
theorem Idle.copyFromUser {bufferPhys : ULong} {s : BlockSystem HostFile} (h : Idle w bufferPhys s)
    (data : List Byte) :
    Idle w bufferPhys ⟨s.dev, Rabbits.copyFromUser w bufferPhys data s.mem⟩ :=
  ⟨h.status, h.control, h.blockSize, h.size, h.aligned, h.memory, h.inside⟩

/-- The driver's buffer with the bytes of the user. -/
theorem bufferBytes_copyFromUser {bufferPhys : ULong} {s : BlockSystem HostFile}
    (hbase : w.base.toNat ≤ bufferPhys.toNat) {data : List Byte}
    (hdata : data.length ≤ BLOCK_DEVICE_DRV_BUF_SIZE) :
    bufferBytes w ⟨s.dev, copyFromUser w bufferPhys data s.mem⟩ bufferPhys =
      data ++ (bufferBytes w s bufferPhys).drop data.length := by
  refine List.ext_getElem? fun i => ?_
  rcases lt_or_ge i BLOCK_DEVICE_DRV_BUF_SIZE with hi | hi
  · have hofs : bufferPhys.toNat + i - w.base.toNat - (bufferPhys.toNat - w.base.toNat) = i := by omega
    rw [getElem?_bufferBytes _ _ _ hi]
    show some ((rangeWrite _ _ _).apply s.mem.mem (bufferPhys.toNat + i - w.base.toNat)) = _
    rw [rangeWrite_apply]
    split
    · next hin =>
        rw [hofs, List.getElem?_append_left (by omega), List.getD_eq_getElem?_getD,
          List.getElem?_eq_getElem (by omega), Option.getD_some]
    · next hout =>
        have hsum : data.length + (i - data.length) = i := by omega
        rw [List.getElem?_append_right (by omega), List.getElem?_drop, hsum,
          getElem?_bufferBytes _ _ _ hi]
        rfl
  · rw [List.getElem?_eq_none (by rw [length_bufferBytes]; exact hi),
      List.getElem?_eq_none (by rw [List.length_append, List.length_drop, length_bufferBytes]; omega)]

/-- The open file of `rabbitsha_chr_read`. -/
def Represents.opened (h : Represents w f a) : OpenedFile ⟨a.content, h.small⟩ where
  device := f.device
  wiring := w
  sys := f.sys
  state := h.state
  buffer := h.buffer
  content := h.content
  status := h.idle.status
  control := h.idle.control
  blockSize := h.idle.blockSize
  aligned := h.idle.aligned
  memory := h.idle.memory
  inside := h.idle.inside

/-- A write. -/
theorem Represents.write (h : Represents w f a) {fd : Nat} {data : List Byte} {size status : ULong}
    {s : BlockSystem HostFile} (hpre : a.InRange (.write fd data))
    (hsize : size = clampSize (BitVec.ofNat 32 data.length))
    (hrun : Commanded w .WRITE f.device.bufferPhys ((f.pos fd).setWidth 32) size
      ⟨f.sys.dev, copyFromUser w f.device.bufferPhys (data.take size.toNat) f.sys.mem⟩ status s) :
    a.Gives (.write fd data) (f.writeEnd fd data status s).1 ∧
      Represents w (f.writeEnd fd data status s).2 (a.after (.write fd data)) := by
  obtain ⟨hdata, hlen, hrange⟩ := hpre
  have hn : size.toNat = PosixFile.chunk data.length := by rw [hsize, toNat_clampSize_length hlen]
  have hchunk := PosixFile.chunk_le data.length
  have hmin : PosixFile.chunk data.length = min data.length BLOCK_DEVICE_DRV_BUF_SIZE := rfl
  have hbuf : 0 < BLOCK_DEVICE_DRV_BUF_SIZE := by decide
  have hpos : (f.pos fd).toNat < 2 ^ 31 := by
    rw [h.pos]
    omega
  have hlba : ((f.pos fd).setWidth 32).toNat = a.pos fd := (toNat_lba hpos).trans (h.pos fd)
  have htake : data.take size.toNat = data.take BLOCK_DEVICE_DRV_BUF_SIZE := by
    rw [hn, hmin, ← List.take_take, List.take_of_length_le (by rw [List.length_take]; omega)]
  have hbytes : bufferBytes w ⟨f.sys.dev, copyFromUser w f.device.bufferPhys (data.take size.toNat)
      f.sys.mem⟩ f.device.bufferPhys = data.take size.toNat ++
        (bufferBytes w f.sys f.device.bufferPhys).drop (data.take size.toNat).length :=
    bufferBytes_copyFromUser h.idle.inside.base (by rw [List.length_take]; omega)
  obtain ⟨rfl, hmem, hidle, hcontent⟩ := (write_commanded (h.idle.copyFromUser _)
    (by rw [hlba]; omega) (by omega) (by omega)).2 _ _ hrun
  have hcall : rabbitshaChrWrite f.device ((f.pos fd).setWidth 32) (BitVec.ofNat 32 data.length) data
      SlBlockStatus.WRITE_SUCCESS.code = (.ok size,
        (f.device.fill (data.take size.toNat)).transfer .WRITE ((f.pos fd).setWidth 32) size) := by
    rw [rabbitshaChrWrite, if_neg (by rw [h.state]; decide), if_pos h.state,
      if_neg (not_not_intro rfl), ← hsize]
  have hkept : bufferBytes w s f.device.bufferPhys =
      (f.device.fill (data.take size.toNat)).buffer := by
    refine Eq.trans ?_ (hbytes.trans (by rw [← h.buffer]; rfl))
    simp only [bufferBytes, BlockSystem.byte, hmem]
  rw [ShaFiles.writeEnd, hcall]
  refine ⟨?_, ⟨h.state, hkept.symm, hidle, ?_, ?_, ?_⟩⟩
  · show Except.ok (size.setWidth 64) = _
    rw [← hn, BitVec.ofNat_toNat]
  · refine hcontent.trans ?_
    rw [hbytes, hlba]
    show overwrite f.sys.dev.host.content _ _ = overwrite a.content _ _
    rw [h.content, ← htake, List.take_append_of_le_length (by rw [List.length_take]; omega),
      List.take_of_length_le (by rw [List.length_take]; omega)]
  · have hsmall := h.small
    show (overwrite a.content _ _).length < _
    rw [length_overwrite, List.length_take]
    omega
  · exact fun fd' => pos_update h.pos fd (by rw [toNat_pos_add hpos, h.pos, hn]) fd'

/-- A read. -/
theorem Represents.read (h : Represents w f a) {fd : Nat} {user : List Byte} {size status : ULong}
    {s : BlockSystem HostFile} (hpre : a.InRange (.read fd user))
    (hsize : size = clampSize (BitVec.ofNat 32 user.length))
    (hrun : Commanded w .READ f.device.bufferPhys ((f.pos fd).setWidth 32) size f.sys status s) :
    a.Gives (.read fd user) (f.readEnd w fd user status s).1 ∧
      Represents w (f.readEnd w fd user status s).2 (a.after (.read fd user)) := by
  obtain ⟨hlen, hrange⟩ := hpre
  have hn : size.toNat = PosixFile.chunk user.length := by rw [hsize, toNat_clampSize_length hlen]
  have hchunk := PosixFile.chunk_le user.length
  have hle : PosixFile.chunk user.length ≤ user.length := Nat.min_le_left _ _
  have hpos : (f.pos fd).toNat < 2 ^ 31 := by rwa [h.pos]
  have hlba : ((f.pos fd).setWidth 32).toNat = a.pos fd := (toNat_lba hpos).trans (h.pos fd)
  obtain ⟨rfl, hidle, hcontent, hcount, hbytes⟩ :=
    (read_commanded h.idle (by rw [hlba]; exact hrange) (by omega)).2 _ _ hrun
  replace hcount : s.dev.regs.count.toNat = a.readable fd user.length := by
    rw [hcount, hn, hlba, h.content, PosixFile.readable]
  rw [hcount, hlba, h.content] at hbytes
  have hreadable : a.readable fd user.length ≤ PosixFile.chunk user.length := Nat.min_le_left _ _
  obtain ⟨d', hdevice, hstate, hphys, hbuffer⟩ : ∃ d', (rabbitshaChrRead f.device
      ((f.pos fd).setWidth 32) (BitVec.ofNat 32 user.length) (bufferBytes w s f.device.bufferPhys)
      SlBlockStatus.READ_SUCCESS.code s.dev.regs.count).2 = d' ∧ d'.state = 3 ∧
        d'.bufferPhys = f.device.bufferPhys ∧ d'.buffer = bufferBytes w s f.device.bufferPhys := by
    have hlength : (bufferBytes w s f.device.bufferPhys).length = f.device.buffer.length := by
      rw [h.buffer, length_bufferBytes, length_bufferBytes]
    refine ⟨(f.device.transfer .READ ((f.pos fd).setWidth 32) size).fill
      (bufferBytes w s f.device.bufferPhys), ?_, ?_, fill_bufferPhys _ _, ?_⟩
    · rw [rabbitshaChrRead, if_neg (by rw [h.state]; decide), if_pos h.state,
        if_neg (not_not_intro rfl), ← hsize]
    · rw [fill_state, transfer_state]
      exact h.state
    · show bufferBytes w s f.device.bufferPhys ++ f.device.buffer.drop _ = _
      rw [hlength, List.drop_length, List.append_nil]
  have hdata : ((bufferBytes w s f.device.bufferPhys).take (PosixFile.chunk user.length)).length =
      PosixFile.chunk user.length := by
    rw [List.length_take, length_bufferBytes, Nat.min_eq_left hchunk]
  have hcall : chrRead f.device (f.pos fd) user (BitVec.ofNat 32 user.length)
      (bufferBytes w s f.device.bufferPhys) SlBlockStatus.READ_SUCCESS.code s.dev.regs.count =
        ⟨.ok s.dev.regs.count, f.pos fd + s.dev.regs.count.setWidth 64,
          (bufferBytes w s f.device.bufferPhys).take (PosixFile.chunk user.length) ++
            user.drop (PosixFile.chunk user.length)⟩ := by
    have hsuccess : chrRead f.device (f.pos fd) user (BitVec.ofNat 32 user.length)
        (bufferBytes w s f.device.bufferPhys) SlBlockStatus.READ_SUCCESS.code s.dev.regs.count =
          ⟨.ok s.dev.regs.count, f.pos fd + s.dev.regs.count.setWidth 64,
            (bufferBytes w s f.device.bufferPhys).take (clampSize (BitVec.ofNat 32 user.length)).toNat ++
              user.drop ((bufferBytes w s f.device.bufferPhys).take
                (clampSize (BitVec.ofNat 32 user.length)).toNat).length⟩ :=
      chrRead_success h.opened (f.pos fd) user (BitVec.ofNat 32 user.length) s s.dev.regs.count
    rw [hsuccess, ← hsize, hn, hdata]
  rw [ShaFiles.readEnd, hcall, hdevice]
  have hrepresents : Represents w
      ⟨d', s, Function.update f.pos fd (f.pos fd + s.dev.regs.count.setWidth 64)⟩
      (a.after (.read fd user)) := by
    refine ⟨hstate, ?_, ?_, hcontent.trans h.content, h.small,
      pos_update h.pos fd (by rw [toNat_pos_add hpos, h.pos, hcount])⟩
    · rw [hphys]
      exact hbuffer
    · rw [hphys]
      exact hidle
  refine ⟨⟨?_, ?_, ?_, ?_⟩, hrepresents⟩
  · show Except.ok (s.dev.regs.count.setWidth 64) = _
    rw [← hcount, BitVec.ofNat_toNat]
  · show (List.take _ (bufferBytes w s f.device.bufferPhys) ++ user.drop _).length = _
    rw [List.length_append, hdata, List.length_drop]
    omega
  · show List.take _ (List.take _ (bufferBytes w s f.device.bufferPhys) ++ user.drop _) = _
    rw [List.take_append_of_le_length (by rw [hdata]; exact hreadable), List.take_take,
      Nat.min_eq_left hreadable, hbytes]
  · exact List.drop_left' hdata

/-- The position that a seek goes to. -/
theorem Represents.toNat_newpos (h : Represents w f a) {fd : Nat} {off : BitVec 64} {whence : Whence}
    (hpre : a.InRange (.llseek fd off whence)) :
    (f.newpos fd off whence).toNat = (a.origin fd whence + off.toInt).toNat := by
  obtain ⟨h0, h1⟩ := hpre
  have hseek : ∀ pos : BitVec 64, pos.toNat = a.origin fd whence →
      (pos + off).toNat = (a.origin fd whence + off.toInt).toNat := fun pos hp => by
    rw [← hp] at h0 h1 ⊢
    exact toNat_seek h0 h1
  cases whence with
  | SEEK_SET => exact (congrArg BitVec.toNat (BitVec.zero_add off).symm).trans (hseek 0#64 rfl)
  | SEEK_CUR => exact hseek _ (h.pos fd)
  | SEEK_END =>
      refine hseek _ ?_
      have hsize : f.sys.dev.regs.size = BitVec.ofNat 32 a.content.length := by
        refine h.idle.size.trans ?_
        rw [HostFile.length, h.content, h.idle.blockSize]
        exact BitVec.udiv_one
      have hsmall := h.small
      rw [hsize, BitVec.toNat_setWidth, BitVec.toNat_ofNat]
      show _ = a.content.length
      omega

/-- **One call.** -/
theorem represents_refines (w : Wiring) : Refines (Represents w) (FileStep w) PosixFile.after
    PosixFile.InRange PosixFile.Gives where
  kept {f a c r f'} h hpre hstep := by
    cases hstep with
    | write hopen hsize hrun => exact h.write hpre hsize hrun
    | read hopen hsize hrun => exact h.read hpre hsize hrun
    | @llseek fd off whence hopen =>
        have hnew := h.toNat_newpos hpre
        refine ⟨?_, ⟨h.state, h.buffer, h.idle, h.content, h.small, fun fd' =>
          pos_update h.pos fd hnew fd'⟩⟩
        show Except.ok _ = _
        rw [← hnew, BitVec.ofNat_toNat, BitVec.setWidth_eq]
    | closedWrite hclosed => exact absurd h.state hclosed
    | closedRead hclosed => exact absurd h.state hclosed
    | unnamedSeek hnaming =>
        rw [h.state] at hnaming
        cases hnaming
  ends {f a c} h hpre := by
    cases c with
    | write fd data =>
        obtain ⟨hdata, hlen, hrange⟩ := hpre
        have hn := toNat_clampSize_length hlen
        have hchunk := PosixFile.chunk_le data.length
        have hpositive : 0 < PosixFile.chunk data.length := lt_min hdata (by decide)
        have hlba : ((f.pos fd).setWidth 32).toNat = a.pos fd :=
          (toNat_lba (by rw [h.pos]; omega)).trans (h.pos fd)
        obtain ⟨status, s, hrun⟩ := (write_commanded (h.idle.copyFromUser
          (data.take (clampSize (BitVec.ofNat 32 data.length)).toNat))
          (by rw [hlba]; omega) (by rw [hn]; exact hpositive) (by rw [hn]; exact hchunk)).1
        exact ⟨_, _, .write h.state rfl hrun⟩
    | read fd user =>
        obtain ⟨hlen, hrange⟩ := hpre
        have hn := toNat_clampSize_length hlen
        have hlba : ((f.pos fd).setWidth 32).toNat = a.pos fd :=
          (toNat_lba (by rw [h.pos]; exact hrange)).trans (h.pos fd)
        obtain ⟨status, s, hrun⟩ := (read_commanded h.idle (by rw [hlba]; exact hrange)
          (by rw [hn]; exact PosixFile.chunk_le _)).1
        exact ⟨_, _, .read h.state rfl hrun⟩
    | llseek fd off whence =>
        exact ⟨_, _, .llseek (by rw [h.state]; decide)⟩

end Call

/-! ## 5. Every run -/

/-- **The calls of the descriptors, over whole runs.** Each list of calls in range has a run through
    driver, bus, memory and device; and in every run of them each call gives what the file gives
    behind the calls before it, whatever polls and rounds of the interrupt line are in between, and
    the file, the positions and SIZE are those of the specification at its end. -/
theorem files_refine {w : Wiring} {f : ShaFiles} {a : PosixFile} (h : Represents w f a)
    {cs : List FileCall} (hpre : allowed PosixFile.after PosixFile.InRange a cs) :
    (∃ hist t, hist.map Prod.fst = cs ∧ Calls (FileStep w) f hist t) ∧
      ∀ hist t, hist.map Prod.fst = cs → Calls (FileStep w) f hist t →
        answersRight PosixFile.after PosixFile.Gives a hist ∧
          Represents w t (cs.foldl PosixFile.after a) := by
  refine ⟨(represents_refines w).exists_run h hpre, fun hist t hcs hrun => ?_⟩
  subst hcs
  exact (represents_refines w).run hrun h hpre

/-- An empty file that is open. -/
def emptyFiles : ShaFiles where
  device := (sampleOpen ⟨[], by decide⟩).device
  sys := (sampleOpen ⟨[], by decide⟩).sys
  pos _ := 0#64

theorem represents_emptyFiles :
    Represents (sampleOpen ⟨[], by decide⟩).wiring emptyFiles ⟨[], fun _ => 0⟩ := by
  let o := sampleOpen ⟨[], by decide⟩
  exact ⟨o.state, o.buffer, ⟨o.status, o.control, o.blockSize, rfl, o.aligned, o.memory, o.inside⟩,
    rfl, by decide, fun _ => rfl⟩

/-- What descriptor 0 writes is what descriptor 1 reads. -/
theorem files_refine_two : ∃ user r t,
    Calls (FileStep (sampleOpen ⟨[], by decide⟩).wiring) emptyFiles
      [(.write 0 [0x61#8, 0x62#8], r), (.read 1 [0#8, 0#8, 0#8], ⟨.ok 2#64, user⟩)] t ∧
      user.take 2 = [0x61#8, 0x62#8] := by
  obtain ⟨⟨hist, t, hcs, hrun⟩, hall⟩ := @files_refine _ _ _ represents_emptyFiles
    [.write 0 [0x61#8, 0x62#8], .read 1 [0#8, 0#8, 0#8]]
    ⟨⟨by decide, by decide, by decide⟩, ⟨by decide, by decide⟩, trivial⟩
  obtain ⟨hright, -⟩ := hall hist t hcs hrun
  match hist, hcs with
  | [(c, r), (c', ⟨ret, user⟩)], hcs =>
    simp only [List.map_cons, List.map_nil, List.cons.injEq, and_true] at hcs
    obtain ⟨rfl, rfl⟩ := hcs
    obtain ⟨-, ⟨hret, -, huser, -⟩, -⟩ := hright
    cases hret
    exact ⟨user, r, t, hrun, huser⟩

end Rabbits
