/-
  File:      Rabbits/Block/FileSize.lean
  Subject:   The SIZE register of the block device (sl_block_device.cpp: get_file_size and its callers).

  The device asks the host for the length of the file when it opens one and after every WRITE; only
  these two can change it. No access writes SIZE or BLOCK_SIZE. An open that fails leaves SIZE as it
  was and no file; a WRITE without one sets it to what the host answers, until the next open.

  * `HostFs.Sized` -- what the device relies on in a host;
  * `SizeRight` -- SIZE is the length of the file in blocks;
  * `SizeKept` -- what every part of an operation does to it; `sizeKept_next` -- and every step;
  * `size_right` -- **what a read of SIZE finds in every run, while a file is open**.
-/
import Rabbits.Block.Status

namespace Rabbits

open Lib

variable {η : Type}

/-- The host knows how long the files behind its open descriptors are, in an `off_t`: a seek to the
    end says it, seeks and reads leave it, and an open returns such a descriptor or a negative one. -/
structure HostFs.Sized (fs : HostFs η) (opened : Int → Prop) (length : η → Int → Nat) : Prop where
  toEnd : ∀ h fd, opened fd → (fs.lseek h fd 0#32 .SEEK_END).1 = BitVec.ofNat 32 (length h fd)
  seeks : ∀ h fd off whence, length (fs.lseek h fd off whence).2 fd = length h fd
  reads : ∀ h fd n, length (fs.read h fd n).2 fd = length h fd
  opens : ∀ h name, opened (fs.openFile h name).1 ↔ 0 ≤ (fs.openFile h name).1

namespace HostFile

theorem lseek_nonneg (h : HostFile) (whence : Whence) :
    h.lseek 0#32 whence =
      (BitVec.ofNat 32 (h.seekFrom whence), { h with pos := h.seekFrom whence }) := by
  have hpos : ¬ ((h.seekFrom whence : Int) + (0#32).toInt < 0) := by
    rw [show (0#32).toInt = 0 from rfl]
    omega
  unfold lseek
  dsimp only
  rw [if_neg hpos, show (0#32).toInt = 0 from rfl, Int.add_zero, BitVec.ofInt_natCast,
    Int.toNat_natCast]

/-- The length of the one file. -/
def length (h : HostFile) (_ : Int) : Nat := h.content.length

end HostFile

theorem hostFile_sized : hostFile.Sized (fun _ => True) HostFile.length where
  toEnd h _ _ := by
    simp only [hostFile, HostFile.lseek_nonneg]
    rfl
  seeks h _ off whence := congrArg List.length (HostFile.lseek_content h off whence)
  reads _ _ _ := rfl
  opens _ _ := iff_of_true trivial (show (0 : Int) ≤ 3 by decide)

section Size

variable {fs : HostFs η} {opened : Int → Prop} {length : η → Int → Nat}

/-- `get_file_size`. -/
theorem getFileSize_sized (hfs : fs.Sized opened length) (h : η) {fd : Int} (hfd : opened fd) :
    (getFileSize fs h fd).1 = BitVec.ofNat 32 (length (getFileSize fs h fd).2 fd) := by
  have hseek : ∀ h off whence, length (fs.lseek h fd off whence).2 fd = length h fd :=
    fun h off whence => hfs.seeks h fd off whence
  simp only [getFileSize, hseek, hfs.toEnd _ fd hfd]

end Size

namespace BlockDevice

/-- SIZE is the length of the file in blocks. -/
def SizeRight (length : η → Int → Nat) (d : BlockDevice η) : Prop :=
  d.regs.size = BitVec.ofNat 32 (length d.host d.fd) / d.regs.blockSize

/-- The block size stays, and SIZE stays right while a file is open. -/
structure SizeKept (opened : Int → Prop) (length : η → Int → Nat) (d d' : BlockDevice η) : Prop where
  blockSize : d'.regs.blockSize = d.regs.blockSize
  size : (opened d.fd → SizeRight length d) → opened d'.fd → SizeRight length d'

section Parts

variable {fs : HostFs η} {opened : Int → Prop} {length : η → Int → Nat}

theorem SizeKept.trans {d d' d'' : BlockDevice η} (h : SizeKept opened length d d')
    (h' : SizeKept opened length d' d'') : SizeKept opened length d d'' :=
  ⟨h'.blockSize.trans h.blockSize, fun hs => h'.size (h.size hs)⟩

/-- The file, SIZE and the block size as they were. -/
theorem sizeKept_of_same {d d' : BlockDevice η} (hb : d'.regs.blockSize = d.regs.blockSize)
    (hs : d'.regs.size = d.regs.size) (ho : opened d'.fd → opened d.fd)
    (hl : length d'.host d'.fd = length d.host d.fd) : SizeKept opened length d d' := by
  refine ⟨hb, fun h hopen => ?_⟩
  unfold SizeRight
  rw [hs, hb, hl]
  exact h (ho hopen)

variable (d : BlockDevice η) (t : Transfer)

theorem done_sizeKept (status : SlBlockStatus) : SizeKept opened length d (d.done status) :=
  sizeKept_of_same rfl rfl id rfl

theorem raiseIrq_sizeKept : SizeKept opened length d d.raiseIrq := by
  obtain ⟨irq, irqWoken, h⟩ := raiseIrq_eq d
  rw [h]
  exact sizeKept_of_same rfl rfl id rfl

theorem readDone_sizeKept : SizeKept opened length d (d.readDone t) := by
  unfold readDone
  split
  · exact sizeKept_of_same rfl rfl id rfl
  · exact (raiseIrq_sizeKept d).trans (done_sizeKept _ _)

theorem byteLoop_sizeKept : SizeKept opened length d (d.byteLoop t) := by
  unfold byteLoop
  split
  · exact sizeKept_of_same rfl rfl id rfl
  · exact readDone_sizeKept d t

theorem wordLoop_sizeKept : SizeKept opened length d (d.wordLoop t) := by
  unfold wordLoop
  split
  · exact sizeKept_of_same rfl rfl id rfl
  · exact byteLoop_sizeKept d t

section Host

variable (hfs : fs.Sized opened length)

include hfs

/-- The file is another one, and SIZE is asked for again. -/
theorem writeFile_sizeKept : SizeKept opened length d (d.writeFile fs t) :=
  ⟨rfl, fun _ hopen => congrArg (· / d.regs.blockSize) (getFileSize_sized hfs _ hopen)⟩

theorem writeDone_sizeKept : SizeKept opened length d (d.writeDone fs t) := by
  unfold writeDone
  split
  · exact done_sizeKept _ _
  · exact (writeFile_sizeKept d t hfs).trans ((raiseIrq_sizeKept _).trans (done_sizeKept _ _))

/-- A file that is opened has its size taken. -/
theorem openHostFile_sizeRight (name : Nat → Byte) (hopen : opened (d.openHostFile fs name).fd) :
    SizeRight length (d.openHostFile fs name) := by
  unfold openHostFile at hopen ⊢
  generalize (if d.fd ≠ -1 then fs.close d.host d.fd else d.host) = host at hopen ⊢
  have hopens := hfs.opens host name
  dsimp only at hopen ⊢
  split
  · next hneg =>
      rw [if_pos hneg] at hopen
      exact absurd (hopens.mp hopen) (Int.not_le.mpr hneg)
  · next hpos =>
      exact congrArg (· / d.regs.blockSize)
        (getFileSize_sized hfs _ (hopens.mpr (Int.not_lt.mp hpos)))

theorem openHostFile_sizeKept (name : Nat → Byte) :
    SizeKept opened length d (d.openHostFile fs name) := by
  refine ⟨?_, fun _ => openHostFile_sizeRight d hfs name⟩
  obtain ⟨fd, host, size, h⟩ := openHostFile_eq fs d name
  rw [h]

theorem fileNameDone_sizeKept : SizeKept opened length d (d.fileNameDone fs t) := by
  have hopen : SizeKept opened length d
      (if d.funcRet ≠ 0#32 then d.openHostFile fs t.dataBuff else d) := by
    split
    · exact openHostFile_sizeKept d hfs _
    · exact sizeKept_of_same rfl rfl id rfl
  unfold fileNameDone
  generalize (if d.funcRet ≠ 0#32 then d.openHostFile fs t.dataBuff else d) = d₁ at hopen ⊢
  dsimp only
  split <;> exact hopen.trans (done_sizeKept _ _)

theorem readLoop_sizeKept (name : Bool) : SizeKept opened length d (d.readLoop fs name t) := by
  unfold readLoop
  split
  · exact sizeKept_of_same rfl rfl id rfl
  · split
    · exact fileNameDone_sizeKept d t hfs
    · exact writeDone_sizeKept d t hfs

/-- A READ moves the position of the file only. -/
theorem startRead_sizeKept (fresh : Nat → Byte) : SizeKept opened length d (d.startRead fs fresh) := by
  have hseek := hfs.seeks d.host d.fd (d.regs.lba * d.regs.blockSize) .SEEK_SET
  have hread := hfs.reads (fs.lseek d.host d.fd (d.regs.lba * d.regs.blockSize) .SEEK_SET).2 d.fd
    d.transferSize
  have hsize : transferSize { d with regs := { d.regs with status := .BUSY } } = d.transferSize := rfl
  unfold startRead
  dsimp only
  rw [hsize]
  split
  · next host heq =>
      rw [heq] at hread
      exact sizeKept_of_same rfl rfl id (hread.trans hseek)
  · next bytes host heq =>
      rw [heq] at hread
      refine SizeKept.trans ?_ (wordLoop_sizeKept _ _)
      exact sizeKept_of_same rfl rfl id (hread.trans hseek)

theorem runControl_sizeKept (fresh : Nat → Byte) :
    SizeKept opened length d (d.runControl fs fresh) := by
  have hbusy : SizeKept opened length d d.busy := sizeKept_of_same rfl rfl id rfl
  unfold runControl
  split
  · exact sizeKept_of_same rfl rfl id rfl
  · exact startRead_sizeKept d hfs fresh
  · exact hbusy.trans (readLoop_sizeKept _ _ hfs _)
  · exact hbusy.trans (readLoop_sizeKept _ _ hfs _)
  · exact sizeKept_of_same rfl rfl id rfl

end Host

end Parts

section Steps

variable {fs : HostFs η} {opened : Int → Prop} {length : η → Int → Nat}

theorem reply_sizeKept (hfs : fs.Sized opened length) {d d' : BlockDevice η} {bErr : Bool}
    {data : ULong} (h : d.reply fs bErr data = some d') : SizeKept opened length d d' := by
  have hr : SizeKept opened length d (d.rcvRsp bErr) := sizeKept_of_same rfl rfl id rfl
  unfold reply at h
  split at h
  · cases h
    split
    · exact hr.trans (byteLoop_sizeKept _ _)
    · exact hr.trans (wordLoop_sizeKept _ _)
  · cases h
    split
    · exact hr.trans (readDone_sizeKept _ _)
    · exact hr.trans (byteLoop_sizeKept _ _)
  · cases h
    split
    · split
      · exact hr.trans (fileNameDone_sizeKept _ _ hfs)
      · exact hr.trans (writeDone_sizeKept _ _ hfs)
    · exact hr.trans (readLoop_sizeKept _ _ hfs _)
  · cases h
  · cases h

/-- An access writes neither of the two registers. -/
theorem slaveWrite_size (regs : SlBlockRegs) (ofs : ULong) (be : Byte) (data : Fin 8 → Byte) :
    (slaveWrite regs ofs be data).regs.blockSize = regs.blockSize ∧
      (slaveWrite regs ofs be data).regs.size = regs.size := by
  unfold slaveWrite
  dsimp only
  split <;> try exact ⟨rfl, rfl⟩
  split <;> exact ⟨rfl, rfl⟩

theorem slaveRead_size (regs : SlBlockRegs) (ofs : ULong) (be : Byte) :
    (slaveRead regs ofs be).regs.blockSize = regs.blockSize ∧
      (slaveRead regs ofs be).regs.size = regs.size := by
  rw [(slaveRead_spec regs ofs be).2]
  split <;> exact ⟨rfl, rfl⟩

/-- **Every step.** -/
theorem sizeKept_next (hfs : fs.Sized opened length) {d d' : BlockDevice η} {l : Label}
    (h : next fs d l = some d') : SizeKept opened length d d' := by
  obtain ⟨-, ⟨ofs, be, data, rfl, rfl⟩ | ⟨ofs, be, rfl, rfl⟩ | ⟨fresh, rfl, hc, rfl⟩ |
    ⟨bErr, data, rfl, hc, hr⟩ | ⟨rfl, rfl⟩⟩ := next_cases h
  · obtain ⟨hb, hs⟩ := slaveWrite_size d.regs ofs be data
    exact sizeKept_of_same hb hs id rfl
  · obtain ⟨hb, hs⟩ := slaveRead_size d.regs ofs be
    exact sizeKept_of_same hb hs id rfl
  · exact runControl_sizeKept d hfs fresh
  · exact reply_sizeKept hfs hr
  · exact sizeKept_of_same rfl rfl id rfl

end Steps

/-- **The SIZE register, in every run**, whatever masters write and whatever the bus and the host
    answer: while a file is open, a read of it gives the length of the file in blocks. -/
theorem size_right {fs : HostFs η} {length : η → Int → Nat} (hfs : fs.Sized (0 ≤ ·) length) (host : η)
    (fname : Option (Nat → Byte)) (blockSize funcRet : ULong) (ls : List Label) :
    Along (next fs) (fun d => 0 ≤ d.fd → ∀ ofs be, registerOf ofs be = some .SIZE →
        (slaveRead d.regs ofs be).val = some (BitVec.ofNat 32 (length d.host d.fd) / blockSize))
      (.new fs host fname blockSize funcRet) ls := by
  refine along_of_invariant
    (I := fun d => (0 ≤ d.fd → SizeRight length d) ∧ d.regs.blockSize = blockSize)
    (fun d hd hopen ofs be hreg => ?_) (fun d l d' hd h => ?_) ?_ ls
  · obtain ⟨hsize, hb⟩ := hd
    unfold slaveRead
    simp only [hreg, (hsize hopen).trans (by rw [hb])]
  · have hkept := sizeKept_next hfs h
    exact ⟨hkept.size hd.1, hkept.blockSize.trans hd.2⟩
  · cases fname with
    | none => exact ⟨fun hopen => absurd hopen (show ¬ (0 : Int) ≤ -1 by decide), rfl⟩
    | some name =>
        exact ⟨openHostFile_sizeRight _ hfs name, (openHostFile_sizeKept _ hfs name).blockSize⟩

/-! ## A host with several files -/

/-- Files by the first byte of their name. -/
structure NamedFiles where
  content : Byte → Option (List Byte)
  pos : Nat

namespace NamedFiles

/-- The file of a descriptor, at its position. -/
def file (h : NamedFiles) (fd : Int) : HostFile := ⟨(h.content (BitVec.ofInt 8 fd)).getD [], h.pos⟩

def length (h : NamedFiles) (fd : Int) : Nat := (h.file fd).content.length

end NamedFiles

/-- The first byte of a name is the descriptor of its file; a name without a file is not opened. -/
def namedFiles : HostFs NamedFiles where
  lseek h fd off whence :=
    let (ret, file) := (h.file fd).lseek off whence
    (ret, { h with pos := file.pos })
  read h fd n :=
    let (bytes, file) := (h.file fd).read n
    (bytes, { h with pos := file.pos })
  write h fd bytes :=
    let file := (h.file fd).write bytes
    ⟨fun name => if name = BitVec.ofInt 8 fd then some file.content else h.content name, file.pos⟩
  openFile h name :=
    if (h.content (name 0)).isSome then ((name 0).toNat, { h with pos := 0 }) else (-1, h)
  close h _ := h

theorem namedFiles_sized : namedFiles.Sized (0 ≤ ·) NamedFiles.length where
  toEnd h fd _ := by
    simp only [namedFiles, HostFile.lseek_nonneg]
    rfl
  seeks _ _ _ _ := rfl
  reads _ _ _ := rfl
  opens _ _ := Iff.rfl

/-- The name of one byte. -/
def nameOf (c : Byte) : Nat → Byte := fun i => if i = 0 then c else 0#8

/-- Files A and B, of two bytes and of three. -/
def filesAB : NamedFiles :=
  ⟨fun name => if name = 0x41#8 then some [1#8, 2#8] else if name = 0x42#8 then some [3#8, 4#8, 5#8]
    else none, 0⟩

/-- A command of one block with the bus answering `data`. -/
def oneBlock (op : SlBlockOp) (data : ULong) : List Label :=
  [.write 8#32 0x0F#8 (wordData 1#32), .write 8#32 0xF0#8 (wordData op.code), .control fun _ => 0#8,
    .response false data, .read 16#32 0x0F#8]

/-- The device has file A open. -/
def withFileA : BlockDevice NamedFiles := .new namedFiles filesAB (some (nameOf 0x41#8)) 1#32 0#32

/-- Given a name that cannot be opened and then that of B, the device reads the size of A before and
    that of B behind it. -/
theorem size_right_renamed :
    (slaveRead withFileA.regs 24#32 0x0F#8).val = some 2#32 ∧
      ∃ d, exec (next namedFiles) withFileA
          (oneBlock .FILE_NAME 0x43#32 ++ oneBlock .FILE_NAME 0x42#32) = some d ∧
        (slaveRead d.regs 24#32 0x0F#8).val = some 3#32 := by
  have hright := size_right namedFiles_sized filesAB (some (nameOf 0x41#8)) 1#32 0#32
    (oneBlock .FILE_NAME 0x43#32 ++ oneBlock .FILE_NAME 0x42#32)
  have hrun : ((exec (next namedFiles) withFileA
      (oneBlock .FILE_NAME 0x43#32 ++ oneBlock .FILE_NAME 0x42#32)).any fun d =>
        d.fd == 0x42 && NamedFiles.length d.host 0x42 == 3) = true := by decide
  obtain ⟨d, hd, hfile⟩ := (Option.any_eq_true _ _).mp hrun
  simp only [Bool.and_eq_true, beq_iff_eq] at hfile
  refine ⟨hright.head (by decide) 24#32 0x0F#8 rfl, d, hd, ?_⟩
  have hread := hright.last hd (by rw [hfile.1]; decide) 24#32 0x0F#8 rfl
  rw [hfile.1, hfile.2] at hread
  exact hread

end BlockDevice

end Rabbits
