/-
  File:      Rabbits/Driver/ReadFile.lean
  Subject:   A read of an open host file, from the user to the file (rabbitsha_drv.c, with the READ
             of sl_block_device.cpp).

  * `chrRead` -- the call with its 64-bit position and the user's buffer;
  * `OpenedFile` -- a file that is open behind the driver, with blocks of one byte;
  * `ReadOutcome` -- what the block device makes of the driver's commands, or its error;
  * `ReadRight`, `AlwaysRight` -- the bytes of the file, nothing else, and the position behind them;
  * `alwaysRight_iff` -- **for which files, positions and sizes a read is right**.

  `RabbitshaDevice.buffer` are here the bytes that the memory has at `bufferPhys`.
-/
import Rabbits.Block.Transfer
import Rabbits.Driver.HostAccess

namespace Rabbits

open Lib Relation BlockDevice

/-! ## 1. The call -/

/-- What a read returns, and the position and the user's buffer after it. -/
structure ReadResult where
  ret : Except Errno ULong
  loff : BitVec 64
  user : List Byte

/-- `rabbitsha_chr_read` with `*loff` and the user's buffer of `size` bytes. -/
def chrRead (device : RabbitshaDevice) (loff : BitVec 64) (user : List Byte) (size : ULong)
    (data : List Byte) (status count : ULong) : ReadResult :=
  match (rabbitshaChrRead device (loff.setWidth 32) size data status count).1 with
  | .ok (n, bytes) => ⟨.ok n, loff + n.setWidth 64, bytes ++ user.drop bytes.length⟩
  | .error e => ⟨.error e, loff, user⟩

/-! ## 2. The block device behind it -/

/-- `BLOCK_DEVICE_...` as an offset of the registers. -/
def SlBlockRegister.ofs : SlBlockRegister → ULong
  | .BUFFER => 0x00#32
  | .LBA => 0x04#32
  | .COUNT => 0x08#32
  | .OP => 0x0C#32
  | .STATUS => 0x10#32
  | .IRQ_ENABLE => 0x14#32
  | .SIZE => 0x18#32
  | .BLOCK_SIZE => 0x1C#32

/-- The 8-byte word of a register, and its half. -/
def SlBlockRegister.busOfs (reg : SlBlockRegister) : ULong := reg.ofs &&& ~~~7#32

def SlBlockRegister.busBe (reg : SlBlockRegister) : Byte :=
  if reg.ofs &&& 4#32 = 0#32 then 0x0F#8 else 0xF0#8

/-- `writel (val, device->base_addr + reg)`, as it reaches the block device. -/
def writelLabel (reg : SlBlockRegister) (val : ULong) : Label :=
  .write reg.busOfs reg.busBe (wordData val)

/-- The four writes of a READ. -/
def readCommands (buffer lba count : ULong) : List Label :=
  [writelLabel .BUFFER buffer, writelLabel .LBA lba, writelLabel .COUNT count,
    writelLabel .OP SlBlockOp.READ.code]

/-- A file with a size of an `off_t`. -/
structure SmallFile where
  bytes : List Byte
  small : bytes.length < 2 ^ 31

/-- The bytes of the memory in the driver's buffer. -/
def bufferBytes (w : Wiring) (s : BlockSystem HostFile) (bufferPhys : ULong) : List Byte :=
  (List.range BLOCK_DEVICE_DRV_BUF_SIZE).map fun i => s.byte w (bufferPhys.toNat + i)

/-- A host file that is open: the driver, and the block device without a command, with blocks of one
    byte, on a bus with the memory that has the buffer. -/
structure OpenedFile (file : SmallFile) where
  device : RabbitshaDevice
  wiring : Wiring
  sys : BlockSystem HostFile
  state : device.state = 3
  buffer : device.buffer = bufferBytes wiring sys device.bufferPhys
  content : sys.dev.host.content = file.bytes
  status : sys.dev.regs.status = .IDLE
  control : sys.dev.control = .waiting false
  blockSize : sys.dev.regs.blockSize = 1#32
  aligned : 4 ∣ device.bufferPhys.toNat
  memory : 4 ∣ sys.mem.size.toNat
  inside : wiring.Inside sys.mem.size device.bufferPhys.toNat BLOCK_DEVICE_DRV_BUF_SIZE

variable {file : SmallFile}

/-- What the driver finds after its commands: the buffer, the first status that is not BUSY, and the
    count. An error (of the host or of the bus) may have filled the buffer in part. -/
inductive ReadOutcome (f : OpenedFile file) (lba size : ULong) : List Byte → ULong → ULong → Prop where
  | completed {d : BlockDevice HostFile} {fresh : Nat → Byte} {s : BlockSystem HostFile}
      (hcmd : exec (next hostFile) f.sys.dev (readCommands f.device.bufferPhys lba size) = some d)
      (h : Completes hostFile f.wiring fresh ⟨d, f.sys.mem⟩ s) :
      ReadOutcome f lba size (bufferBytes f.wiring s f.device.bufferPhys) s.dev.regs.status.code
        s.dev.regs.count
  | failed {data : List Byte} {status count : ULong} (hlen : data.length ≤ BLOCK_DEVICE_DRV_BUF_SIZE)
      (hstatus : status = SlBlockStatus.READ_ERROR.code) : ReadOutcome f lba size data status count

/-! ## 3. A read that is right -/

/-- A success returns some `n` and has put the bytes `[pos, pos + n)` of the file into the first `n`
    bytes of the user's buffer, has left its other bytes and has moved the position by `n`; an error
    leaves both. -/
structure ReadRight (file : SmallFile) (loff : BitVec 64) (user : List Byte) (r : ReadResult) : Prop
    where
  bytes : ∀ n, r.ret = .ok n → ∀ i < n.toNat, ∃ b, file.bytes[loff.toNat + i]? = some b ∧
    r.user[i]? = some b
  others : ∀ n, r.ret = .ok n → ∀ i, n.toNat ≤ i → r.user[i]? = user[i]?
  position : ∀ n, r.ret = .ok n → r.loff = loff + n.setWidth 64
  error : ∀ e, r.ret = .error e → r.loff = loff ∧ r.user = user

/-- Whatever was in the buffers and wherever the descriptor of the host is. -/
def AlwaysRight (file : SmallFile) (loff : BitVec 64) (size : ULong) : Prop :=
  ∀ f : OpenedFile file, ∀ user : List Byte, user.length = size.toNat →
    ∀ data status count, ReadOutcome f (loff.setWidth 32) (clampSize size) data status count →
      ReadRight file loff user (chrRead f.device loff user size data status count)

/-! ## 4. The commands -/

theorem registerOf_writel (reg : SlBlockRegister) :
    registerOf reg.busOfs reg.busBe = some reg := by
  cases reg <;> decide

theorem valueOf_wordData (be : Byte) (val : ULong) : valueOf be (wordData val) = val := by
  unfold valueOf
  split <;> exact ulongOf_byteOf val

/-- The registers behind the commands. -/
theorem exec_readCommands {d : BlockDevice HostFile} (hc : d.control = .waiting false)
    (hs : d.regs.status = .IDLE) (buffer lba count : ULong) :
    ∃ d', exec (next hostFile) d (readCommands buffer lba count) = some d' ∧
      d'.control = .waiting true ∧
      d'.regs = { d.regs with buffer, lba, count, op := SlBlockOp.READ.code } ∧
      d'.host = d.host := by
  have hstep : ∀ {d : BlockDevice HostFile} {reg : SlBlockRegister} {val : ULong},
      d.control = .waiting false → next hostFile d (writelLabel reg val) =
        some (d.access (slaveWrite d.regs reg.busOfs reg.busBe (wordData val))) := by
    intro d reg val hd
    simp only [writelLabel, next, hd]
  obtain ⟨d₁, h₁, hc₁, hr₁, hh₁⟩ : ∃ d₁, next hostFile d (writelLabel .BUFFER buffer) = some d₁ ∧
      d₁.control = .waiting false ∧ d₁.regs = { d.regs with buffer } ∧ d₁.host = d.host := by
    refine ⟨_, hstep hc, ?_, ?_, rfl⟩ <;>
      simp [access, slaveWrite, registerOf_writel, valueOf_wordData, hc]
  obtain ⟨d₂, h₂, hc₂, hr₂, hh₂⟩ : ∃ d₂, next hostFile d₁ (writelLabel .LBA lba) = some d₂ ∧
      d₂.control = .waiting false ∧ d₂.regs = { d₁.regs with lba } ∧ d₂.host = d₁.host := by
    refine ⟨_, hstep hc₁, ?_, ?_, rfl⟩ <;>
      simp [access, slaveWrite, registerOf_writel, valueOf_wordData, hc₁]
  obtain ⟨d₃, h₃, hc₃, hr₃, hh₃⟩ : ∃ d₃, next hostFile d₂ (writelLabel .COUNT count) = some d₃ ∧
      d₃.control = .waiting false ∧ d₃.regs = { d₂.regs with count } ∧ d₃.host = d₂.host := by
    refine ⟨_, hstep hc₂, ?_, ?_, rfl⟩ <;>
      simp [access, slaveWrite, registerOf_writel, valueOf_wordData, hc₂]
  have hs₃ : d₃.regs.status = .IDLE := by
    rw [hr₃, hr₂, hr₁]
    exact hs
  obtain ⟨d₄, h₄, hc₄, hr₄, hh₄⟩ : ∃ d₄,
      next hostFile d₃ (writelLabel .OP SlBlockOp.READ.code) = some d₄ ∧
      d₄.control = .waiting true ∧ d₄.regs = { d₃.regs with op := SlBlockOp.READ.code } ∧
      d₄.host = d₃.host := by
    refine ⟨_, hstep hc₃, ?_, ?_, rfl⟩ <;>
      simp [access, slaveWrite, registerOf_writel, valueOf_wordData, hc₃, hs₃, wake]
  refine ⟨d₄, ?_, hc₄, ?_, hh₄.trans (hh₃.trans (hh₂.trans hh₁))⟩
  · rw [readCommands, exec_cons h₁, exec_cons h₂, exec_cons h₃, exec_cons h₄, exec_nil]
  · rw [hr₄, hr₃, hr₂, hr₁]

/-! ## 5. What the block device does -/

section Device

variable {w : Wiring} {s s' : BlockSystem HostFile} {fresh : Nat → Byte}

/-- Where the descriptor is after the seek of a READ. -/
def seekPos (d : BlockDevice HostFile) : Nat :=
  (d.host.lseek (d.regs.lba * d.regs.blockSize) .SEEK_SET).2.pos

/-- A READ for which the host has no byte, up to its end. -/
theorem runControl_nothing (hop : decodeOp s.dev.regs.op = some .READ)
    (hnone : (s.dev.host.content.drop (seekPos s.dev)).take s.dev.transferSize.toNat = []) :
    ∃ host irq irqWoken, s.dev.runControl hostFile fresh =
      { s.dev with
        host, funcRet := 0#32, irqWoken, control := .waiting false
        regs := { s.dev.regs with
          status := .READ_SUCCESS, count := 0#32 / s.dev.regs.blockSize, irq, op := 0#32 } } := by
  obtain ⟨host, hread⟩ : ∃ host, hostFile.read (hostFile.lseek s.dev.host s.dev.fd
      (s.dev.regs.lba * s.dev.regs.blockSize) .SEEK_SET).2 s.dev.fd s.dev.transferSize =
        (some [], host) := by
    refine ⟨_, Prod.ext ?_ rfl⟩
    show some (((s.dev.host.lseek (s.dev.regs.lba * s.dev.regs.blockSize) .SEEK_SET).2.content.drop
      (seekPos s.dev)).take s.dev.transferSize.toNat) = some []
    rw [HostFile.lseek_content, hnone]
  have hstart : s.dev.runControl hostFile fresh = s.dev.startRead hostFile fresh := by
    simp only [runControl, hop]
  let d₁ : BlockDevice HostFile := { s.dev with
    host, funcRet := 0#32
    regs := { s.dev.regs with status := .BUSY, count := 0#32 / s.dev.regs.blockSize } }
  obtain ⟨irq, irqWoken, hirq⟩ := raiseIrq_eq d₁
  refine ⟨host, irq, irqWoken, hstart.trans ?_⟩
  have hread' : s.dev.startRead hostFile fresh =
      d₁.wordLoop ⟨s.dev.regs.buffer, 0#32, 0#32, fun i => [].getD i (fresh i)⟩ := by
    simp only [transferSize] at hread
    simp only [startRead, transferSize, hread]
    rfl
  have hloops : d₁.wordLoop ⟨s.dev.regs.buffer, 0#32, 0#32, fun i => [].getD i (fresh i)⟩ =
      d₁.raiseIrq.done .READ_SUCCESS := by
    simp [wordLoop, byteLoop, readDone]
  rw [hread', hloops, hirq]
  rfl

/-- **It ends at once**: the memory stays. -/
theorem completes_nothing {w : Wiring}
    (hc : s.dev.control = .waiting true) (hop : decodeOp s.dev.regs.op = some .READ)
    (hnone : (s.dev.host.content.drop (seekPos s.dev)).take s.dev.transferSize.toNat = []) :
    (∃ e, Completes hostFile w fresh s e) ∧
      ∀ s', Completes hostFile w fresh s s' → s'.dev.regs.status = .READ_SUCCESS ∧
        s'.dev.regs.count = 0#32 / s.dev.regs.blockSize ∧ s'.mem = s.mem := by
  obtain ⟨host, irq, irqWoken, hrun⟩ := @runControl_nothing _ fresh hop hnone
  have hstart : s.dev.next hostFile (.control fresh) = some (s.dev.runControl hostFile fresh) := by
    simp only [next, hc]
  rw [hrun] at hstart
  obtain ⟨hend, huniq⟩ := completes_unique (w := w) hstart .refl rfl (fun h => by cases h)
  refine ⟨⟨_, hend⟩, fun s' hs' => ?_⟩
  have hregs := congrArg (fun x => x.dev.regs) (huniq s' hs')
  have hmem := congrArg (fun x => x.mem) (huniq s' hs')
  have hregs' : s'.dev.regs = { s.dev.regs with
    status := .READ_SUCCESS, count := 0#32 / s.dev.regs.blockSize, irq, op := 0#32 } := hregs
  exact ⟨by rw [hregs'], by rw [hregs'], hmem⟩

end Device

/-! ## 6. The read as a whole -/

theorem clampSize_toNat (size : ULong) :
    (clampSize size).toNat = min size.toNat BLOCK_DEVICE_DRV_BUF_SIZE := by
  unfold clampSize
  split
  · show 1024 = _
    have : BLOCK_DEVICE_DRV_BUF_SIZE = 1024 := rfl
    omega
  · omega

@[simp] theorem length_bufferBytes (w : Wiring) (s : BlockSystem HostFile) (bufferPhys : ULong) :
    (bufferBytes w s bufferPhys).length = BLOCK_DEVICE_DRV_BUF_SIZE := by
  simp [bufferBytes]

theorem getElem?_bufferBytes (w : Wiring) (s : BlockSystem HostFile) (bufferPhys : ULong) {i : Nat}
    (hi : i < BLOCK_DEVICE_DRV_BUF_SIZE) :
    (bufferBytes w s bufferPhys)[i]? = some (s.byte w (bufferPhys.toNat + i)) := by
  rw [bufferBytes, List.getElem?_map, List.getElem?_range hi, Option.map_some]

/-- The user's buffer, byte by byte. -/
theorem getElem?_copied {data user : List Byte} {k : Nat} (hk : k ≤ data.length) (i : Nat) :
    (data.take k ++ user.drop (data.take k).length)[i]? =
      if i < k then data[i]? else user[i]? := by
  have hlen : (data.take k).length = k := by rw [List.length_take, Nat.min_eq_left hk]
  split
  · next hi =>
      rw [List.getElem?_append_left (by omega), List.getElem?_take, if_pos hi]
  · next hi =>
      rw [List.getElem?_append_right (by omega), hlen, List.getElem?_drop]
      congr 1
      omega

section Call

variable (f : OpenedFile file)

/-- What the call gives after a READ_SUCCESS. -/
theorem chrRead_success (loff : BitVec 64) (user : List Byte) (size : ULong)
    (s : BlockSystem HostFile) (count : ULong) :
    chrRead f.device loff user size (bufferBytes f.wiring s f.device.bufferPhys)
        SlBlockStatus.READ_SUCCESS.code count =
      let data := (bufferBytes f.wiring s f.device.bufferPhys).take (clampSize size).toNat
      ⟨.ok count, loff + count.setWidth 64, data ++ user.drop data.length⟩ := by
  have hbuffer : f.device.buffer.length = BLOCK_DEVICE_DRV_BUF_SIZE := by
    rw [f.buffer, length_bufferBytes]
  have hread : (rabbitshaChrRead f.device (loff.setWidth 32) size
      (bufferBytes f.wiring s f.device.bufferPhys) SlBlockStatus.READ_SUCCESS.code count).1 =
        .ok (count, (bufferBytes f.wiring s f.device.bufferPhys).take (clampSize size).toNat) := by
    have hfill : ((f.device.transfer .READ (loff.setWidth 32) (clampSize size)).fill
        (bufferBytes f.wiring s f.device.bufferPhys)).buffer =
          bufferBytes f.wiring s f.device.bufferPhys := by
      show bufferBytes f.wiring s f.device.bufferPhys ++ f.device.buffer.drop _ = _
      rw [length_bufferBytes, ← hbuffer, List.drop_length, List.append_nil]
    rw [rabbitshaChrRead, if_neg (by rw [f.state]; decide), if_pos f.state,
      if_neg (not_not_intro rfl), hfill]
  rw [chrRead, hread]

/-- An error. -/
theorem chrRead_error (loff : BitVec 64) (user : List Byte) (size : ULong) (data : List Byte)
    {status : ULong} (hstatus : status ≠ SlBlockStatus.READ_SUCCESS.code) (count : ULong) :
    chrRead f.device loff user size data status count = ⟨.error .enxio, loff, user⟩ := by
  have hread : (rabbitshaChrRead f.device (loff.setWidth 32) size data status count).1 =
      .error .enxio := by
    rw [rabbitshaChrRead, if_neg (by rw [f.state]; decide), if_pos f.state, if_pos hstatus]
  rw [chrRead, hread]

/-- The device that takes the command. -/
theorem commanded (lba size : ULong) :
    ∃ d, exec (next hostFile) f.sys.dev (readCommands f.device.bufferPhys lba size) = some d ∧
      d.control = .waiting true ∧ decodeOp d.regs.op = some .READ ∧
      d.regs.buffer = f.device.bufferPhys ∧ d.regs.lba = lba ∧ d.regs.count = size ∧
      d.regs.blockSize = 1#32 ∧ d.host = f.sys.dev.host := by
  obtain ⟨d, hexec, hc, hregs, hhost⟩ :=
    exec_readCommands f.control f.status f.device.bufferPhys lba size
  refine ⟨d, hexec, hc, ?_, ?_, ?_, ?_, ?_, hhost⟩
  · rw [hregs]
    rfl
  all_goals rw [hregs]
  exact f.blockSize

theorem mul_one_toNat {r : SlBlockRegs} (h : r.blockSize = 1#32) :
    r.position = r.lba.toNat ∧ r.length = r.count.toNat := by
  rw [SlBlockRegs.position, SlBlockRegs.length, h]
  exact ⟨Nat.mul_one _, Nat.mul_one _⟩

/-- **A READ of the driver**: it ends, and every end has the bytes that the file has from the
    position on in the buffer, and the rest of the buffer as it was. -/
theorem read_ends {lba size : ULong} (hlba : lba.toNat < 2 ^ 31)
    (hsize : size.toNat ≤ BLOCK_DEVICE_DRV_BUF_SIZE) {d : BlockDevice HostFile}
    (hexec : exec (next hostFile) f.sys.dev (readCommands f.device.bufferPhys lba size) = some d)
    (fresh : Nat → Byte) :
    (∃ s, Completes hostFile f.wiring fresh ⟨d, f.sys.mem⟩ s) ∧
      ∀ s, Completes hostFile f.wiring fresh ⟨d, f.sys.mem⟩ s →
        s.dev.regs.status = .READ_SUCCESS ∧
        s.dev.regs.count.toNat = min size.toNat (file.bytes.length - lba.toNat) ∧
        ∀ i < BLOCK_DEVICE_DRV_BUF_SIZE,
          (bufferBytes f.wiring s f.device.bufferPhys)[i]? =
            if i < min size.toNat (file.bytes.length - lba.toNat) then file.bytes[lba.toNat + i]?
            else (bufferBytes f.wiring f.sys f.device.bufferPhys)[i]? := by
  obtain ⟨d', hexec', hc, hop, hbuf, hlba', hcount, hbs, hhost⟩ := commanded f lba size
  obtain rfl : d' = d := Option.some.inj (hexec'.symm.trans hexec)
  obtain ⟨hposition, hlength⟩ := mul_one_toNat hbs
  rw [hlba'] at hposition
  rw [hcount] at hlength
  obtain ⟨hin₁, hin₂, hin₃⟩ := f.inside
  have hready : Ready f.wiring ⟨d', f.sys.mem⟩ := by
    refine ⟨hc, ?_, ?_, ?_, ?_, f.memory, ?_⟩
    · rw [hbs]
      decide
    · exact hposition.trans_lt hlba
    · exact hlength.trans_lt (hsize.trans_lt (by decide))
    · exact hbuf ▸ f.aligned
    · show f.wiring.Inside f.sys.mem.size d'.regs.buffer.toNat d'.regs.length
      rw [hbuf, hlength]
      exact ⟨hin₁, by omega, by omega⟩
  have havail : available ⟨d', f.sys.mem⟩ = min size.toNat (file.bytes.length - lba.toNat) := by
    rw [available, hlength, hposition, hhost, f.content]
  obtain ⟨hend, hall⟩ := read_completes hready hop fresh
  refine ⟨hend, fun s hs => ?_⟩
  obtain ⟨hstatus, hbytes, hothers, -, hcnt⟩ := hall s hs
  rw [havail] at hbytes hothers hcnt
  refine ⟨hstatus, ?_, fun i hi => ?_⟩
  · refine hcnt.trans ?_
    show _ / d'.regs.blockSize.toNat = _
    rw [hbs]
    exact Nat.div_one _
  · rw [getElem?_bufferBytes _ _ _ hi, getElem?_bufferBytes _ _ _ hi]
    split
    · next hlt =>
        have hbyte := hbytes i hlt
        rw [show (⟨d', f.sys.mem⟩ : BlockSystem HostFile).dev = d' from rfl, hhost, f.content,
          hposition, hbuf] at hbyte
        exact hbyte.symm
    · next hge =>
        refine congrArg some (hothers _ fun hin => hge ?_)
        rw [show (⟨d', f.sys.mem⟩ : BlockSystem HostFile).dev = d' from rfl, hbuf] at hin
        omega

end Call

/-! ## 7. Which reads are right -/

/-- A file that is open with its buffer at 0x400 in a memory of zeros, the descriptor of the host at
    its end. -/
def sampleOpen (file : SmallFile) : OpenedFile file where
  device := ⟨0x400#32, List.replicate BLOCK_DEVICE_DRV_BUF_SIZE 0#8, 3, 1, []⟩
  wiring := ⟨0, 0#32, by decide, by decide⟩
  sys :=
    { dev :=
        { regs := ⟨.IDLE, 0#32, 0#32, 0#32, 0#32, 0#32, 1#32, 0#32, 0#32⟩
          fd := 3
          host := ⟨file.bytes, file.bytes.length⟩
          funcRet := 0#32
          crtTid := 0#8
          control := .waiting false
          irqWoken := false
          irqLine := false }
      mem := ⟨0x1000#32, 0#32, fun _ => 0#8, fun _ => 0#8⟩ }
  state := rfl
  buffer := by
    refine (List.eq_replicate_iff.mpr ⟨length_bufferBytes _ _ _, fun b hb => ?_⟩).symm
    obtain ⟨i, -, rfl⟩ := List.mem_map.mp hb
    rfl
  content := rfl
  status := rfl
  control := rfl
  blockSize := rfl
  aligned := by decide
  memory := (by decide : 4 ∣ (0x1000#32).toNat)
  inside :=
    ⟨Nat.zero_le _, (by decide : 0x400 + 1024 ≤ 0 + 0x1000), (by decide : 0x400 + 1024 ≤ 2 ^ 32)⟩

/-- A byte of the sample's buffer reaches the user behind what was read. -/
theorem not_right_of_stale {loff : BitVec 64} {size count : ULong} {s : BlockSystem HostFile}
    (hstale : (bufferBytes (sampleOpen file).wiring s
      (sampleOpen file).device.bufferPhys)[count.toNat]? = some 0#8)
    (hlt : count.toNat < (clampSize size).toNat) :
    ¬ ReadRight file loff (List.replicate size.toNat 1#8) (chrRead (sampleOpen file).device loff
      (List.replicate size.toNat 1#8) size
      (bufferBytes (sampleOpen file).wiring s (sampleOpen file).device.bufferPhys)
      SlBlockStatus.READ_SUCCESS.code count) := by
  intro h
  have hclamp := clampSize_toNat size
  rw [chrRead_success] at h
  have hother := h.others count rfl count.toNat (le_refl _)
  have hk : (clampSize size).toNat ≤
      (bufferBytes (sampleOpen file).wiring s (sampleOpen file).device.bufferPhys).length := by
    rw [length_bufferBytes]
    omega
  simp only [getElem?_copied hk, if_pos hlt, hstale] at hother
  rw [List.getElem?_replicate, if_pos (by omega)] at hother
  exact absurd (Option.some.inj hother) (by decide)

/-- A seek to a position that is negative as an `off_t` leaves the descriptor where it is. -/
theorem seekPos_of_negative {d : BlockDevice HostFile} (hbs : d.regs.blockSize = 1#32)
    (h : 2 ^ 31 ≤ d.regs.lba.toNat) : seekPos d = d.host.pos := by
  have hint : d.regs.lba.toInt < 0 := by
    rw [BitVec.toInt_eq_toNat_cond, if_neg (by omega)]
    have := d.regs.lba.isLt
    omega
  have hneg : ((0 : Nat) : Int) + d.regs.lba.toInt < 0 := by omega
  rw [seekPos, hbs, BitVec.mul_one]
  unfold HostFile.lseek HostFile.seekFrom
  dsimp only
  rw [if_pos hneg]

section Short

variable {loff : BitVec 64} {size : ULong} {d : BlockDevice HostFile}

/-- What the caller of `read` gets of the sample, when the READ ends in this system. -/
abbrev SampleRight (file : SmallFile) (loff : BitVec 64) (size : ULong) (s : BlockSystem HostFile) :
    Prop :=
  ReadRight file loff (List.replicate size.toNat 1#8) (chrRead (sampleOpen file).device loff
    (List.replicate size.toNat 1#8) size
    (bufferBytes (sampleOpen file).wiring s (sampleOpen file).device.bufferPhys)
    s.dev.regs.status.code s.dev.regs.count)

/-- The seek goes to the position: behind the end of the file the buffer is as it was, and a position
    that is cut to 32 bits is another one. -/
theorem short_of_seek (hpos : 0 < size.toNat)
    (hout : file.bytes.length < loff.toNat + min size.toNat BLOCK_DEVICE_DRV_BUF_SIZE)
    (hrange : (loff.setWidth 32).toNat < 2 ^ 31)
    (hexec : exec (next hostFile) (sampleOpen file).sys.dev
      (readCommands (sampleOpen file).device.bufferPhys (loff.setWidth 32) (clampSize size)) =
        some d) :
    ∃ s, Completes hostFile (sampleOpen file).wiring (fun _ => 0#8) ⟨d, (sampleOpen file).sys.mem⟩ s ∧
      ¬ SampleRight file loff size s := by
  have hclamp := clampSize_toNat size
  have hbuf : 0 < BLOCK_DEVICE_DRV_BUF_SIZE := by decide
  obtain ⟨⟨s, hs⟩, hall⟩ := read_ends (sampleOpen file) hrange (by omega) hexec fun _ => 0#8
  obtain ⟨hstatus, hcnt, hbytes⟩ := hall s hs
  refine ⟨s, hs, fun hr => ?_⟩
  rw [SampleRight, hstatus] at hr
  by_cases hshort : s.dev.regs.count.toNat < (clampSize size).toNat
  · refine not_right_of_stale ?_ hshort hr
    rw [hbytes _ (by omega), if_neg (by omega)]
    exact getElem?_bufferBytes _ _ _ (by omega)
  · rw [chrRead_success] at hr
    obtain ⟨b, hb, -⟩ := hr.bytes s.dev.regs.count rfl 0 (by omega)
    have hlt := (List.getElem?_eq_some_iff.mp hb).1
    have hsame : (loff.setWidth 32).toNat = loff.toNat := by
      have hsmall := file.small
      rw [BitVec.toNat_setWidth]
      omega
    omega

/-- The seek fails: the descriptor stays at the end, and there is nothing behind it. -/
theorem short_of_negative (hpos : 0 < size.toNat) (hrange : 2 ^ 31 ≤ (loff.setWidth 32).toNat)
    (hexec : exec (next hostFile) (sampleOpen file).sys.dev
      (readCommands (sampleOpen file).device.bufferPhys (loff.setWidth 32) (clampSize size)) =
        some d) :
    ∃ s, Completes hostFile (sampleOpen file).wiring (fun _ => 0#8) ⟨d, (sampleOpen file).sys.mem⟩ s ∧
      ¬ SampleRight file loff size s := by
  have hclamp := clampSize_toNat size
  have hbuf : 0 < BLOCK_DEVICE_DRV_BUF_SIZE := by decide
  obtain ⟨d', hexec', hc, hop, -, hlba, -, hbs, hhost⟩ :=
    commanded (sampleOpen file) (loff.setWidth 32) (clampSize size)
  obtain rfl : d' = d := Option.some.inj (hexec'.symm.trans hexec)
  have hnone : (d'.host.content.drop (seekPos d')).take d'.transferSize.toNat = [] := by
    rw [seekPos_of_negative hbs (hlba ▸ hrange), hhost]
    show ((file.bytes).drop file.bytes.length).take _ = []
    rw [List.drop_length, List.take_nil]
  obtain ⟨⟨s, hs⟩, hall⟩ := @completes_nothing ⟨d', (sampleOpen file).sys.mem⟩ (fun _ => 0#8)
    (sampleOpen file).wiring hc hop hnone
  obtain ⟨hstatus, hcnt, hmem⟩ := hall s hs
  have hcnt0 : s.dev.regs.count = 0#32 := by
    rw [hcnt]
    show 0#32 / d'.regs.blockSize = 0#32
    rw [hbs]
    rfl
  refine ⟨s, hs, fun hr => ?_⟩
  rw [SampleRight, hstatus] at hr
  refine not_right_of_stale ?_ (by rw [hcnt0]; show 0 < _; omega) hr
  rw [hcnt0, getElem?_bufferBytes _ _ _ (by decide)]
  show some (s.mem.mem _) = _
  rw [hmem]
  rfl

/-- The bytes of a read that is not all in the file. -/
theorem not_alwaysRight (hsize : size ≠ 0#32)
    (hout : file.bytes.length < loff.toNat + min size.toNat BLOCK_DEVICE_DRV_BUF_SIZE) :
    ¬ AlwaysRight file loff size := by
  intro h
  have hpos : 0 < size.toNat := Nat.pos_of_ne_zero fun h0 => hsize (BitVec.eq_of_toNat_eq h0)
  obtain ⟨d, hexec, -⟩ := commanded (sampleOpen file) (loff.setWidth 32) (clampSize size)
  obtain ⟨s, hs, hwrong⟩ : ∃ s, Completes hostFile (sampleOpen file).wiring (fun _ => 0#8)
      ⟨d, (sampleOpen file).sys.mem⟩ s ∧ ¬ SampleRight file loff size s := by
    by_cases hrange : (loff.setWidth 32).toNat < 2 ^ 31
    · exact short_of_seek hpos hout hrange hexec
    · exact short_of_negative hpos (not_lt.mp hrange) hexec
  exact hwrong (h (sampleOpen file) _ List.length_replicate _ _ _ (.completed hexec hs))

end Short

section Fits

variable {f : OpenedFile file} {loff : BitVec 64} {size : ULong} {d : BlockDevice HostFile}
  {fresh : Nat → Byte} {s : BlockSystem HostFile}

/-- A READ that gives all the bytes of the user. -/
structure GivesAll (f : OpenedFile file) (loff : BitVec 64) (size : ULong)
    (s : BlockSystem HostFile) : Prop where
  status : s.dev.regs.status = .READ_SUCCESS
  count : s.dev.regs.count.toNat = (clampSize size).toNat
  bytes : ∀ i < (clampSize size).toNat, ∃ b, file.bytes[loff.toNat + i]? = some b ∧
    (bufferBytes f.wiring s f.device.bufferPhys)[i]? = some b

/-- A READ of no byte, from wherever. -/
theorem givesAll_of_zero (hzero : (clampSize size).toNat = 0)
    (hexec : exec (next hostFile) f.sys.dev
      (readCommands f.device.bufferPhys (loff.setWidth 32) (clampSize size)) = some d)
    (hs : Completes hostFile f.wiring fresh ⟨d, f.sys.mem⟩ s) : GivesAll f loff size s := by
  obtain ⟨d', hexec', hc, hop, -, -, hcount, hbs, -⟩ :=
    commanded f (loff.setWidth 32) (clampSize size)
  obtain rfl : d' = d := Option.some.inj (hexec'.symm.trans hexec)
  have hnone : (d'.host.content.drop (seekPos d')).take d'.transferSize.toNat = [] := by
    rw [transferSize, hcount, hbs, BitVec.mul_one, hzero]
    exact List.take_zero ..
  obtain ⟨hstatus, hcnt, -⟩ := (completes_nothing (w := f.wiring) (s := ⟨d', f.sys.mem⟩)
    hc hop hnone).2 s hs
  have hcnt0 : s.dev.regs.count = 0#32 := by
    rw [hcnt]
    show 0#32 / d'.regs.blockSize = 0#32
    rw [hbs]
    rfl
  refine ⟨hstatus, ?_, fun i hi => absurd hi (by omega)⟩
  rw [hcnt0, hzero]
  rfl

theorem givesAll_of_inside (hpos : 0 < (clampSize size).toNat)
    (hin : loff.toNat + (clampSize size).toNat ≤ file.bytes.length)
    (hexec : exec (next hostFile) f.sys.dev
      (readCommands f.device.bufferPhys (loff.setWidth 32) (clampSize size)) = some d)
    (hs : Completes hostFile f.wiring fresh ⟨d, f.sys.mem⟩ s) : GivesAll f loff size s := by
  have hsmall := file.small
  have hclamp := clampSize_toNat size
  have hsame : (loff.setWidth 32).toNat = loff.toNat := by
    rw [BitVec.toNat_setWidth]
    omega
  obtain ⟨hstatus, hcnt, hbytes⟩ := (read_ends f (by omega) (by omega) hexec fresh).2 s hs
  rw [hsame] at hcnt hbytes
  refine ⟨hstatus, by omega, fun i hi => ?_⟩
  have hlt : loff.toNat + i < file.bytes.length := by omega
  rw [hbytes i (by omega), if_pos (by omega)]
  exact ⟨_, List.getElem?_eq_getElem hlt, List.getElem?_eq_getElem hlt⟩

/-- The user gets these bytes and no other. -/
theorem GivesAll.right (h : GivesAll f loff size s) (user : List Byte) :
    ReadRight file loff user (chrRead f.device loff user size
      (bufferBytes f.wiring s f.device.bufferPhys) s.dev.regs.status.code s.dev.regs.count) := by
  have hcnt := h.count
  have hclamp := clampSize_toNat size
  have hk : (clampSize size).toNat ≤ (bufferBytes f.wiring s f.device.bufferPhys).length := by
    rw [length_bufferBytes]
    omega
  rw [h.status, chrRead_success]
  refine ⟨fun n hn i hi => ?_, fun n hn i hi => ?_, fun n hn => ?_, fun e he => by cases he⟩
  · cases hn
    obtain ⟨b, hb, hbuf⟩ := h.bytes i (by omega)
    refine ⟨b, hb, ?_⟩
    show (_ ++ _)[i]? = _
    rw [getElem?_copied hk, if_pos (by omega), hbuf]
  · cases hn
    show (_ ++ _)[i]? = _
    rw [getElem?_copied hk, if_neg (by omega)]
  · cases hn
    rfl

end Fits

/-- **Which reads are right on every system**: those of no byte, and those whose bytes, at most 1024
    of them, are all in the file. -/
theorem alwaysRight_iff (file : SmallFile) (loff : BitVec 64) (size : ULong) :
    AlwaysRight file loff size ↔
      size = 0#32 ∨ loff.toNat + min size.toNat BLOCK_DEVICE_DRV_BUF_SIZE ≤ file.bytes.length := by
  have hclamp := clampSize_toNat size
  constructor
  · intro h
    by_contra hne
    obtain ⟨hsize, hout⟩ := not_or.mp hne
    exact not_alwaysRight hsize (by omega) h
  · intro h f user huser data status count hout
    cases hout with
    | failed hlen hstatus =>
        rw [chrRead_error f loff user size data (by rw [hstatus]; decide) count]
        exact ⟨(fun _ hn => by cases hn), (fun _ hn => by cases hn), (fun _ hn => by cases hn),
          fun _ _ => ⟨rfl, rfl⟩⟩
    | completed hexec hs =>
        by_cases hzero : (clampSize size).toNat = 0
        · exact (givesAll_of_zero hzero hexec hs).right user
        · have hin := h.resolve_left fun h0 => hzero (by rw [hclamp, h0]; rfl)
          exact (givesAll_of_inside (by omega) (by omega) hexec hs).right user

/-- One byte in the file, two for the user: the second one is what was in the driver's buffer. -/
theorem short_read_overwrites : ¬ AlwaysRight ⟨[0x61#8], by decide⟩ 0#64 2#32 :=
  not_alwaysRight (by decide) (by decide)

end Rabbits
