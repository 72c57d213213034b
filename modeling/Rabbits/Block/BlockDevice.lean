/-
  File:      Rabbits/Block/BlockDevice.lean
  Subject:   The block device (sl_block_device.cpp).

  The slave's accesses, `control_thread` and `irq_update_thread` work on one register bank. A step
  runs until the next `wait`: `control_thread` waits for a command in `ev_op_start`, and in every
  `cmd_write` and `cmd_read` for the response of the bus.

  * `SlBlockRegs`, `slaveWrite`, `slaveRead` -- the register bank and the accesses to it;
  * `HostFs` -- the file calls, over any state of the host; `getFileSize`, `openHostFile`;
  * `Control` -- where `control_thread` is suspended, with its locals;
  * `runControl` -- one round of its loop, from the switch to the next `wait`;
  * `reply` -- what it does after the response of a bus access;
  * `BlockDevice.next` -- one step of the device.

  Left out: `data_buff` is as long as an access needs (the source allocates `transfer_size + 4`
  bytes modulo 2^32), and `rcv_rsp` copies 4 bytes (it copies `m_tr_nbytes`, uninitialised before
  the first `cmd_read`). A division by a block size of 0 gives 0.
-/
import Rabbits.Noc.MasterDevice
import Rabbits.Noc.SlaveDevice
import Rabbits.Lib.Labelled

namespace Rabbits

open Lib

/-! ## 1. The registers -/

/-- `sl_block_registers`. -/
inductive SlBlockRegister where
  | BUFFER
  | LBA
  | COUNT
  | OP
  | STATUS
  | IRQ_ENABLE
  | SIZE
  | BLOCK_SIZE
  deriving DecidableEq

/-- `sl_block_op`. -/
inductive SlBlockOp where
  | NOOP
  | READ
  | WRITE
  | FILE_NAME
  deriving DecidableEq

/-- `sl_block_status`. -/
inductive SlBlockStatus where
  | IDLE
  | BUSY
  | READ_SUCCESS
  | WRITE_SUCCESS
  | READ_ERROR
  | WRITE_ERROR
  | ERROR
  deriving DecidableEq

/-- What a read of the status register returns. -/
def SlBlockStatus.code : SlBlockStatus → ULong
  | IDLE => 0#32
  | BUSY => 1#32
  | READ_SUCCESS => 2#32
  | WRITE_SUCCESS => 3#32
  | READ_ERROR => 4#32
  | WRITE_ERROR => 5#32
  | ERROR => 6#32

def SlBlockOp.code : SlBlockOp → ULong
  | NOOP => 0#32
  | READ => 1#32
  | WRITE => 2#32
  | FILE_NAME => 3#32

/-- The switch of `control_thread`; `none` is its default case. -/
def decodeOp (op : ULong) : Option SlBlockOp :=
  match op.toNat with
  | 0 => some .NOOP
  | 1 => some .READ
  | 2 => some .WRITE
  | 3 => some .FILE_NAME
  | _ => none

/-- The registers by their word offset. -/
def decodeRegister (lofs : ULong) : Option SlBlockRegister :=
  match lofs.toNat with
  | 0 => some .BUFFER
  | 1 => some .LBA
  | 2 => some .COUNT
  | 3 => some .OP
  | 4 => some .STATUS
  | 5 => some .IRQ_ENABLE
  | 6 => some .SIZE
  | 7 => some .BLOCK_SIZE
  | _ => none

/-- `sl_block_device_CSregs`. -/
structure SlBlockRegs where
  status : SlBlockStatus
  buffer : ULong
  op : ULong
  lba : ULong
  count : ULong
  size : ULong
  blockSize : ULong
  irqen : ULong
  irq : ULong
  deriving DecidableEq

/-- The register that an access at `ofs` with these byte enables is to. -/
def registerOf (ofs : ULong) (be : Byte) : Option SlBlockRegister := decodeRegister (lofsOf ofs be)

/-- What an access does: the registers, whether it notifies `ev_op_start` and `ev_irq_update`, and
    the value that it reads. -/
structure SlaveAccess where
  regs : SlBlockRegs
  opStart : Bool
  irqUpdate : Bool
  val : Option ULong

/-- `sl_block_device_slave::write`; `bErr` stays false. -/
def slaveWrite (regs : SlBlockRegs) (ofs : ULong) (be : Byte) (data : Fin 8 → Byte) : SlaveAccess :=
  let val := valueOf be data
  match registerOf ofs be with
  | some .BUFFER => ⟨{ regs with buffer := val }, false, false, none⟩
  | some .LBA => ⟨{ regs with lba := val }, false, false, none⟩
  | some .COUNT => ⟨{ regs with count := val }, false, false, none⟩
  | some .OP =>
      -- "Got a command while executing another one"
      if regs.status ≠ .IDLE then ⟨regs, false, false, none⟩
      else ⟨{ regs with op := val }, true, false, none⟩
  | some .IRQ_ENABLE => ⟨{ regs with irqen := val }, false, true, none⟩
  | some .STATUS | some .SIZE | some .BLOCK_SIZE | none => ⟨regs, false, false, none⟩

/-- `sl_block_device_slave::read`; `bErr` stays false. -/
def slaveRead (regs : SlBlockRegs) (ofs : ULong) (be : Byte) : SlaveAccess :=
  match registerOf ofs be with
  | some .BUFFER => ⟨regs, false, false, some regs.buffer⟩
  | some .LBA => ⟨regs, false, false, some regs.lba⟩
  | some .COUNT => ⟨regs, false, false, some regs.count⟩
  | some .OP => ⟨regs, false, false, some regs.op⟩
  | some .STATUS =>
      if regs.status ≠ .BUSY then
        ⟨{ regs with status := .IDLE, irq := 0#32 }, false, true, some regs.status.code⟩
      else ⟨regs, false, false, some regs.status.code⟩
  | some .IRQ_ENABLE => ⟨regs, false, false, some regs.irqen⟩
  | some .SIZE => ⟨regs, false, false, some regs.size⟩
  | some .BLOCK_SIZE => ⟨regs, false, false, some regs.blockSize⟩
  | none => ⟨regs, false, false, none⟩

/-! ## 2. The host -/

inductive Whence where
  | SEEK_SET
  | SEEK_CUR
  | SEEK_END
  deriving DecidableEq

/-- The calls to the host, over its state `η`; a file descriptor below 0 is a failed `open`, a
    `read` without bytes a failed one. A file name is given by the address of its bytes. -/
structure HostFs (η : Type) where
  lseek : η → Int → ULong → Whence → ULong × η
  read : η → Int → ULong → Option (List Byte) × η
  write : η → Int → List Byte → η
  openFile : η → (Nat → Byte) → Int × η
  close : η → Int → η

/-- `get_file_size`. -/
def getFileSize {η : Type} (fs : HostFs η) (h : η) (fd : Int) : ULong × η :=
  let (oldPos, h₁) := fs.lseek h fd 0#32 .SEEK_CUR
  let (ret, h₂) := fs.lseek h₁ fd 0#32 .SEEK_END
  (ret, (fs.lseek h₂ fd oldPos .SEEK_SET).2)

/-! ## 3. The device -/

/-- The locals of `control_thread` in a loop over the bus: `addr`, `offset`, `transfer_size` and
    `data_buff`. -/
structure Transfer where
  addr : ULong
  offset : ULong
  transferSize : ULong
  dataBuff : Nat → Byte

/-- The bytes of a response in `data_buff`. -/
def Transfer.copy (t : Transfer) (data : ULong) : Transfer :=
  { t with dataBuff := fun i =>
      if t.offset.toNat ≤ i ∧ i < t.offset.toNat + 4 then byteOf data (i - t.offset.toNat)
      else t.dataBuff i }

/-- `offset` further on. -/
def Transfer.advance (t : Transfer) (n : ULong) : Transfer := { t with offset := t.offset + n }

/-- Where `control_thread` is suspended. -/
inductive Control where
  /-- In `wait (ev_op_start)`, woken or not. -/
  | waiting (woken : Bool)
  /-- In the `cmd_write` of the word loop of a READ. -/
  | writeWord (t : Transfer)
  /-- In the `cmd_write` of its byte loop. -/
  | writeByte (t : Transfer)
  /-- In the `cmd_read` of a WRITE or (`name`) of a FILE_NAME. -/
  | readWord (name : Bool) (t : Transfer)
  /-- In the loop over an unknown command, which never waits. -/
  | spinning

/-- `sl_block_device` with its master and its slave: the registers, `m_fd`, the host, `func_ret`
    (it keeps its value between commands), `m_crt_tid`, where `control_thread` is, whether
    `irq_update_thread` is woken, and the line `irq`. -/
structure BlockDevice (η : Type) where
  regs : SlBlockRegs
  fd : Int
  host : η
  funcRet : ULong
  crtTid : Byte
  control : Control
  irqWoken : Bool
  irqLine : Bool

variable {η : Type}

namespace BlockDevice

/-- `open_host_file`, with a name. -/
def openHostFile (fs : HostFs η) (d : BlockDevice η) (name : Nat → Byte) : BlockDevice η :=
  let host := if d.fd ≠ -1 then fs.close d.host d.fd else d.host
  let (fd, host) := fs.openFile host name
  if fd < 0 then { d with fd, host }
  else
    let (size, host) := getFileSize fs host fd
    { d with fd, host, regs := { d.regs with size := size / d.regs.blockSize } }

/-- The end of an operation: `m_op` and `m_status`, and back to the switch, which finds NOOP. -/
def done (d : BlockDevice η) (status : SlBlockStatus) : BlockDevice η :=
  { d with regs := { d.regs with op := 0#32, status }, control := .waiting false }

/-- "Update everything": the interrupt of a successful READ or WRITE. -/
def raiseIrq (d : BlockDevice η) : BlockDevice η :=
  if d.regs.irqen ≠ 0#32 then { d with regs := { d.regs with irq := 1#32 }, irqWoken := true }
  else d

/-- The end of a READ, from behind its loops. -/
def readDone (d : BlockDevice η) (t : Transfer) : BlockDevice η :=
  if t.transferSize ≠ 0#32 ∧ d.funcRet = 0#32 then
    let d := d.done .READ_ERROR
    { d with regs := { d.regs with count := t.offset / d.regs.blockSize } }
  else d.raiseIrq.done .READ_SUCCESS

/-- The byte loop of a READ, from its test on. -/
def byteLoop (d : BlockDevice η) (t : Transfer) : BlockDevice η :=
  if t.offset < t.transferSize then { d with control := .writeByte t } else d.readDone t

/-- The word loop of a READ, from its test on. -/
def wordLoop (d : BlockDevice η) (t : Transfer) : BlockDevice η :=
  if t.offset < t.transferSize &&& ~~~3#32 then { d with control := .writeWord t } else d.byteLoop t

/-- "Write in the device": the seek, the write and the new size. -/
def writeFile (fs : HostFs η) (d : BlockDevice η) (t : Transfer) : BlockDevice η :=
  let (_, host) := fs.lseek d.host d.fd (d.regs.lba * d.regs.blockSize) .SEEK_SET
  let host := fs.write host d.fd ((List.range t.transferSize.toNat).map t.dataBuff)
  let (size, host) := getFileSize fs host d.fd
  { d with host, regs := { d.regs with size := size / d.regs.blockSize } }

/-- The end of a WRITE, from behind its loop. -/
def writeDone (fs : HostFs η) (d : BlockDevice η) (t : Transfer) : BlockDevice η :=
  if d.funcRet = 0#32 then d.done .WRITE_ERROR
  else (d.writeFile fs t).raiseIrq.done .WRITE_SUCCESS

/-- The end of a FILE_NAME, from behind its loop. -/
def fileNameDone (fs : HostFs η) (d : BlockDevice η) (t : Transfer) : BlockDevice η :=
  let d := if d.funcRet ≠ 0#32 then d.openHostFile fs t.dataBuff else d
  if d.funcRet = 0#32 ∨ d.fd = -1 then d.done .WRITE_ERROR else d.done .WRITE_SUCCESS

/-- The loop of a WRITE or a FILE_NAME, from its test on. -/
def readLoop (fs : HostFs η) (d : BlockDevice η) (name : Bool) (t : Transfer) : BlockDevice η :=
  if t.offset < t.transferSize then { d with control := .readWord name t }
  else if name then d.fileNameDone fs t
  else d.writeDone fs t

/-- `count * block_size` of the registers. -/
def transferSize (d : BlockDevice η) : ULong := d.regs.count * d.regs.blockSize

/-- A READ up to its first wait; `fresh` is what `new` finds in `data_buff`. -/
def startRead (fs : HostFs η) (d : BlockDevice η) (fresh : Nat → Byte) : BlockDevice η :=
  let d := { d with regs := { d.regs with status := .BUSY } }
  let (_, host) := fs.lseek d.host d.fd (d.regs.lba * d.regs.blockSize) .SEEK_SET
  match fs.read host d.fd d.transferSize with
  | (none, host) =>
      let d := { d with host, funcRet := BitVec.allOnes 32 }.done .READ_ERROR
      { d with regs := { d.regs with count := 0#32 } }
  | (some bytes, host) =>
      let funcRet := BitVec.ofNat 32 bytes.length
      let d := { d with
        host, funcRet, regs := { d.regs with count := funcRet / d.regs.blockSize } }
      d.wordLoop ⟨d.regs.buffer, 0#32, funcRet, fun i => bytes.getD i (fresh i)⟩

/-- A WRITE or a FILE_NAME up to its first wait. -/
def startWrite (fs : HostFs η) (d : BlockDevice η) (name : Bool) (fresh : Nat → Byte) :
    BlockDevice η :=
  let d := { d with regs := { d.regs with status := .BUSY } }
  d.readLoop fs name ⟨d.regs.buffer, 0#32, d.transferSize, fresh⟩

/-- `control_thread` from the switch to its next wait. -/
def runControl (fs : HostFs η) (d : BlockDevice η) (fresh : Nat → Byte) : BlockDevice η :=
  match decodeOp d.regs.op with
  | some .NOOP => { d with control := .waiting false }
  | some .READ => d.startRead fs fresh
  | some .WRITE => d.startWrite fs false fresh
  | some .FILE_NAME => d.startWrite fs true fresh
  | none => { d with control := .spinning }

/-- `rcv_rsp`, as far as the next `cmd_done`: `func_ret` of the access, and its tid is used up. -/
def rcvRsp (d : BlockDevice η) (bErr : Bool) : BlockDevice η :=
  { d with funcRet := if bErr then 0#32 else 1#32, crtTid := d.crtTid + 1#8 }

/-- `control_thread` after the response of its bus access, up to its next wait. -/
def reply (fs : HostFs η) (d : BlockDevice η) (bErr : Bool) (data : ULong) :
    Option (BlockDevice η) :=
  let r := d.rcvRsp bErr
  match d.control with
  | .writeWord t => some (if bErr then r.byteLoop t else r.wordLoop (t.advance 4#32))
  | .writeByte t => some (if bErr then r.readDone t else r.byteLoop (t.advance 1#32))
  | .readWord name t =>
      let t := t.copy data
      some (if bErr then (if name then r.fileNameDone fs t else r.writeDone fs t)
        else r.readLoop fs name (t.advance 4#32))
  | .waiting _ | .spinning => none

/-! ## 4. Steps -/

/-- A notification of `ev_op_start`: it is lost on a thread that does not wait for it. -/
def wake (c : Control) : Control :=
  match c with
  | .waiting _ => .waiting true
  | c => c

/-- A register access of a master. -/
def access (d : BlockDevice η) (a : SlaveAccess) : BlockDevice η :=
  { d with
    regs := a.regs
    control := if a.opStart then wake d.control else d.control
    irqWoken := d.irqWoken || a.irqUpdate }

/-- `irq_update_thread`, once woken. -/
def irqUpdate (d : BlockDevice η) : BlockDevice η :=
  { d with irqWoken := false, irqLine := d.regs.irq == 1#32 }

/-- The register accesses of any masters, a round of `control_thread` (with what `new` finds in
    `data_buff`), the response to its bus access, and a round of `irq_update_thread`. -/
inductive Label where
  | write (ofs : ULong) (be : Byte) (data : Fin 8 → Byte)
  | read (ofs : ULong) (be : Byte)
  | control (fresh : Nat → Byte)
  | response (bErr : Bool) (data : ULong)
  | irqUpdate

/-- One step. `control_thread` in its endless loop lets no other thread run. -/
def next (fs : HostFs η) (d : BlockDevice η) (l : Label) : Option (BlockDevice η) :=
  match d.control, l with
  | .spinning, _ => none
  | _, .write ofs be data => some (d.access (slaveWrite d.regs ofs be data))
  | _, .read ofs be => some (d.access (slaveRead d.regs ofs be))
  | .waiting true, .control fresh => some (d.runControl fs fresh)
  | _, .control _ => none
  | _, .response bErr data => d.reply fs bErr data
  | _, .irqUpdate => if d.irqWoken then some d.irqUpdate else none

/-- The constructor; nothing initialises `func_ret`. -/
def new (fs : HostFs η) (host : η) (fname : Option (Nat → Byte)) (blockSize funcRet : ULong) :
    BlockDevice η :=
  let d : BlockDevice η :=
    { regs := ⟨.IDLE, 0#32, 0#32, 0#32, 0#32, 0#32, blockSize, 0#32, 0#32⟩
      fd := -1
      host
      funcRet
      crtTid := 0#8
      control := .waiting true
      irqWoken := false
      irqLine := false }
  match fname with
  | some name => d.openHostFile fs name
  | none => d

end BlockDevice

/-- An access that `control_thread` asks of its master. -/
structure BusAccess where
  addr : ULong
  nbytes : Nat
  bWrite : Bool
  data : Nat → Byte

/-- The `cmd_write` or `cmd_read` that `control_thread` waits in. -/
def Control.busAccess : Control → Option BusAccess
  | writeWord t => some ⟨t.addr + t.offset, 4, true, fun i => t.dataBuff (t.offset.toNat + i)⟩
  | writeByte t => some ⟨t.addr + t.offset, 1, true, fun i => t.dataBuff (t.offset.toNat + i)⟩
  | readWord _ t => some ⟨t.addr + t.offset, 4, false, fun _ => 0#8⟩
  | waiting _ | spinning => none

end Rabbits
