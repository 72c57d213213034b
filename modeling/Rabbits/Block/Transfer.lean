/-
  File:      Rabbits/Block/Transfer.lean
  Subject:   What a READ and a WRITE of the block device move between the memory and the file.

  The host completes every call up to the end of the file, every bus access is inside the memory,
  and no register is written during the operation (reads are allowed).

  * `Ready` -- a device with a command, a buffer and a range in the file;
  * `Written`, `write_completes` -- **a WRITE** puts the bytes of the buffer into the file;
  * `ReadIn`, `read_completes` -- **a READ** puts the bytes of the file into the buffer;
  * `transfers_exact` -- both, and a WRITE followed by a READ into another buffer.
-/
import Rabbits.Block.Polling

namespace Rabbits

open Lib Relation BlockDevice

/-! ## 1. Operations -/

/-- The bytes of a range: `count * block_size`. -/
def SlBlockRegs.length (r : SlBlockRegs) : Nat := r.count.toNat * r.blockSize.toNat

/-- The position of a range: `lba * block_size`. -/
def SlBlockRegs.position (r : SlBlockRegs) : Nat := r.lba.toNat * r.blockSize.toNat

theorem BlockDevice.toNat_transferSize {η : Type} {d : BlockDevice η}
    (h : d.regs.length < 2 ^ 32) : d.transferSize.toNat = d.regs.length := by
  rw [transferSize, BitVec.toNat_mul]
  exact Nat.mod_eq_of_lt h

theorem BlockDevice.toNat_position {η : Type} {d : BlockDevice η}
    (h : d.regs.position < 2 ^ 32) : d.position.toNat = d.regs.position := by
  rw [BlockDevice.position, BitVec.toNat_mul]
  exact Nat.mod_eq_of_lt h

/-- `control_thread` is about to take a command with a 4-aligned buffer inside the memory and
    products below 2^31. -/
structure Ready (w : Wiring) (s : BlockSystem HostFile) : Prop where
  waiting : s.dev.control = .waiting true
  blockSize : 0 < s.dev.regs.blockSize.toNat
  position : s.dev.regs.position < 2 ^ 31
  length : s.dev.regs.length < 2 ^ 31
  buffer : 4 ∣ s.dev.regs.buffer.toNat
  memory : 4 ∣ s.mem.size.toNat
  inside : w.Inside s.mem.size s.dev.regs.buffer.toNat s.dev.regs.length

/-- The byte of the memory at a bus address. -/
def BlockSystem.byte (w : Wiring) (s : BlockSystem HostFile) (addr : Nat) : Byte :=
  s.mem.mem (addr - w.base.toNat)

/-- How many bytes of a range the file has. -/
def available (s : BlockSystem HostFile) : Nat :=
  min s.dev.regs.length (s.dev.host.content.length - s.dev.regs.position)

/-- A WRITE from `s` has ended in `s'`. -/
structure Written (w : Wiring) (s s' : BlockSystem HostFile) : Prop where
  status : s'.dev.regs.status = .WRITE_SUCCESS
  /-- The bytes of the buffer are in their range of the file. -/
  bytes : ∀ i < s.dev.regs.length, s'.dev.host.content[s.dev.regs.position + i]? =
    some (s.byte w (s.dev.regs.buffer.toNat + i))
  /-- Before the range the file is as it was, with zeros behind its old end. -/
  before : ∀ i < s.dev.regs.position,
    s'.dev.host.content[i]? = some (s.dev.host.content.getD i 0#8)
  behind : ∀ i, s.dev.regs.position + s.dev.regs.length ≤ i →
    s'.dev.host.content[i]? = s.dev.host.content[i]?
  /-- No byte of the memory changes. -/
  mem : s'.mem.mem = s.mem.mem

/-- What a WRITE keeps for the next command. -/
structure Kept (s s' : BlockSystem HostFile) : Prop where
  control : s'.dev.control = .waiting false
  lba : s'.dev.regs.lba = s.dev.regs.lba
  count : s'.dev.regs.count = s.dev.regs.count
  blockSize : s'.dev.regs.blockSize = s.dev.regs.blockSize
  size : s'.mem.size = s.mem.size

/-- A READ from `s` has ended in `s'`. -/
structure ReadIn (w : Wiring) (s s' : BlockSystem HostFile) : Prop where
  status : s'.dev.regs.status = .READ_SUCCESS
  /-- The bytes that the file has are in the buffer. -/
  bytes : ∀ i < available s, s.dev.host.content[s.dev.regs.position + i]? =
    some (s'.byte w (s.dev.regs.buffer.toNat + i))
  /-- No other byte of the memory changes. -/
  others : ∀ b, ¬ (s.dev.regs.buffer.toNat - w.base.toNat ≤ b ∧
    b < s.dev.regs.buffer.toNat - w.base.toNat + available s) → s'.mem.mem b = s.mem.mem b
  file : s'.dev.host.content = s.dev.host.content
  count : s'.dev.regs.count.toNat = available s / s.dev.regs.blockSize.toNat

section

variable {w : Wiring} {s : BlockSystem HostFile} (h : Ready w s)
include h

theorem Ready.toNat_transferSize : s.dev.transferSize.toNat = s.dev.regs.length :=
  BlockDevice.toNat_transferSize (h.length.trans (by decide))

theorem Ready.toNat_position :
    (s.dev.regs.lba * s.dev.regs.blockSize).toNat = s.dev.regs.position :=
  BlockDevice.toNat_position (h.position.trans (by decide))

/-- The command is taken. -/
theorem Ready.next_control (fresh : Nat → Byte) : s.dev.next hostFile (.control fresh) =
    some (s.dev.runControl hostFile fresh) := by
  simp only [next, h.waiting]

/-- The range of the buffer, rounded up to words, is inside the memory. -/
theorem Ready.inside_words : w.Inside s.mem.size s.dev.regs.buffer.toNat
    ((s.dev.regs.length + 3) / 4 * 4) := by
  obtain ⟨hb, hs, hw⟩ := h.inside
  obtain ⟨q, hq⟩ := h.buffer
  obtain ⟨r, hr⟩ := h.memory
  obtain ⟨v, hv⟩ := w.aligned
  constructor <;> omega

omit h in
/-- In an operation just taken the status is BUSY. -/
theorem Ready.busy (fresh : Nat → Byte) (hcmd : (commandOf s.dev.regs.op).isSome)
    (hop : (s.dev.runControl hostFile fresh).control.busAccess.isSome) :
    (s.dev.runControl hostFile fresh).regs.status = .BUSY := by
  rcases runControl_goes hostFile s.dev fresh with ⟨-, hgoes⟩ | ⟨hno, -⟩
  · cases hgoes with
    | suspends _ hstatus _ _ _ => exact hstatus
    | ends hc _ _ _ _ =>
        rw [hc] at hop
        cases hop
  · rw [hno] at hcmd
    cases hcmd

/-! ## 2. WRITE -/

/-- **A WRITE**, alone on the bus. -/
theorem write_runs (hop : decodeOp s.dev.regs.op = some .WRITE) (hcount : 0 < s.dev.regs.count.toNat)
    (fresh : Nat → Byte) : ∃ e, Runs hostFile w ⟨s.dev.runControl hostFile fresh, s.mem⟩ e ∧
      e.dev.control = .waiting false ∧ Written w s e ∧ Kept s e := by
  have hlen : 0 < s.dev.regs.length := Nat.mul_pos hcount h.blockSize
  have hsize := h.toNat_transferSize
  have hpos := h.toNat_position
  have hlt := h.position
  obtain ⟨d', t', rdata, hl, hret, hts, hdata, hrun⟩ := readLoop_run hostFile
    (d := s.dev.busy) (t := ⟨s.dev.regs.buffer, 0#32, s.dev.transferSize, fresh⟩) (m := s.mem)
    (w := w) (q := 0) (j := (s.dev.transferSize.toNat + 3) / 4) rfl (Nat.zero_add _)
    (by rw [hsize]; exact h.length) h.buffer (by rw [hsize]; exact h.inside_words)
    (fun i hi => absurd hi (Nat.not_lt_zero i)) (fun hle => by simp [hsize] at hle; omega)
  have hstart : s.dev.runControl hostFile fresh =
      s.dev.busy.readLoop hostFile false ⟨s.dev.regs.buffer, 0#32, s.dev.transferSize, fresh⟩ := by
    simp only [runControl, hop]
    rfl
  have hn : t'.transferSize.toNat = s.dev.regs.length := by
    rw [hts]
    exact hsize
  have hregs : d'.regs = { s.dev.regs with status := .BUSY } := hl.regs
  have hdpos : (d'.regs.lba * d'.regs.blockSize).toNat = s.dev.regs.position := by
    rw [hregs]
    exact hpos
  have hhost : d'.host = s.dev.host := hl.host
  have hcontent := content_writeFile d' t' (by omega) (by omega)
  rw [hdpos, hhost, hn] at hcontent
  have hbytes : ((List.range s.dev.regs.length).map t'.dataBuff).length = s.dev.regs.length := by
    rw [List.length_map, List.length_range]
  have hdata' : ∀ i < s.dev.regs.length,
      t'.dataBuff i = s.byte w (s.dev.regs.buffer.toNat + i) := fun i hi => hdata i (by
    show i < s.dev.transferSize.toNat
    omega)
  obtain ⟨irq, woken, hirq⟩ := raiseIrq_eq (d'.writeFile hostFile t')
  refine ⟨_, hstart ▸ hrun, ?_⟩
  rw [writeDone, if_neg hret, hirq]
  refine ⟨rfl, ⟨rfl, fun i hi => ?_, fun i hi => ?_, fun i hi => ?_, rfl⟩, ?_⟩
  · show (d'.writeFile hostFile t').host.content[s.dev.regs.position + i]? = _
    rw [hcontent, overwrite_at _ _ _ (by rw [hbytes]; exact hi), List.getElem?_map,
      List.getElem?_range hi, Option.map_some, hdata' i hi]
  · show (d'.writeFile hostFile t').host.content[i]? = _
    rw [hcontent, overwrite_before _ _ _ hi]
  · show (d'.writeFile hostFile t').host.content[i]? = _
    rw [hcontent, overwrite_behind _ _ _ (by rw [hbytes]; exact hi)]
  · have hlba : d'.regs.lba = s.dev.regs.lba := by rw [hregs]
    have hcnt : d'.regs.count = s.dev.regs.count := by rw [hregs]
    have hbs : d'.regs.blockSize = s.dev.regs.blockSize := by rw [hregs]
    exact ⟨rfl, hlba, hcnt, hbs, rfl⟩

/-! ## 3. READ -/

/-- The bytes that the host reads. -/
def readBytes (s : BlockSystem HostFile) : List Byte :=
  (s.dev.host.content.drop s.dev.regs.position).take s.dev.regs.length

omit h in
theorem length_readBytes (s : BlockSystem HostFile) : (readBytes s).length = available s := by
  rw [readBytes, List.length_take, List.length_drop, available]

omit h in
/-- A byte that is read is the one in the file. -/
theorem getD_readBytes {i : Nat} (hi : i < available s) (b : Byte) :
    s.dev.host.content[s.dev.regs.position + i]? = some ((readBytes s).getD i b) := by
  have hle : available s ≤ s.dev.regs.length := Nat.min_le_left _ _
  have hlt : i < (readBytes s).length := by rwa [length_readBytes]
  have hget : (readBytes s)[i]? = s.dev.host.content[s.dev.regs.position + i]? := by
    rw [readBytes, List.getElem?_take, if_pos (by omega), List.getElem?_drop]
  rw [← hget, List.getD_eq_getElem?_getD, List.getElem?_eq_getElem hlt, Option.getD_some]

/-- A READ, up to its loops. -/
theorem Ready.startRead_eq (fresh : Nat → Byte) : s.dev.startRead hostFile fresh =
    { s.dev with
      host := { s.dev.host with pos := s.dev.regs.position + available s }
      funcRet := BitVec.ofNat 32 (available s)
      regs := { s.dev.regs with
        status := .BUSY, count := BitVec.ofNat 32 (available s) / s.dev.regs.blockSize } }.wordLoop
      ⟨s.dev.regs.buffer, 0#32, BitVec.ofNat 32 (available s),
        fun i => (readBytes s).getD i (fresh i)⟩ := by
  have hpos := h.toNat_position
  have hseek := HostFile.lseek_set s.dev.host (s.dev.regs.lba * s.dev.regs.blockSize)
    (by rw [hpos]; exact h.position)
  have hsize : (s.dev.regs.count * s.dev.regs.blockSize).toNat = s.dev.regs.length :=
    h.toNat_transferSize
  rw [← length_readBytes]
  simp only [startRead, hostFile, hseek, HostFile.read, transferSize, hpos, hsize, readBytes]

/-- **A READ**, alone on the bus. -/
theorem read_runs (hop : decodeOp s.dev.regs.op = some .READ) (fresh : Nat → Byte) :
    ∃ e, Runs hostFile w ⟨s.dev.runControl hostFile fresh, s.mem⟩ e ∧
      e.dev.control = .waiting false ∧ ReadIn w s e := by
  have havail : available s < 2 ^ 31 := (Nat.min_le_left _ _).trans_lt h.length
  have hn : (BitVec.ofNat 32 (available s)).toNat = available s := by
    rw [BitVec.toNat_ofNat, Nat.mod_eq_of_lt (by omega)]
  have hstart : s.dev.runControl hostFile fresh = s.dev.startRead hostFile fresh := by
    simp only [runControl, hop]
  obtain ⟨hbase, hsize, hwrap⟩ := h.inside
  have hle : available s ≤ s.dev.regs.length := Nat.min_le_left _ _
  have hin : w.Inside s.mem.size s.dev.regs.buffer.toNat (BitVec.ofNat 32 (available s)).toNat := by
    rw [hn]
    constructor <;> omega
  have hcontrol := h.startRead_eq fresh
  generalize hd₁ : ({ s.dev with
    host := { s.dev.host with pos := s.dev.regs.position + available s }
    funcRet := BitVec.ofNat 32 (available s)
    regs := { s.dev.regs with
      status := .BUSY
      count := BitVec.ofNat 32 (available s) / s.dev.regs.blockSize } } : BlockDevice HostFile) = d₁
    at hcontrol
  generalize ht₁ : (⟨s.dev.regs.buffer, 0#32, BitVec.ofNat 32 (available s),
    fun i => (readBytes s).getD i (fresh i)⟩ : Transfer) = t₁ at hcontrol
  obtain ⟨d', hl, hrun⟩ := wordLoop_run hostFile (d := d₁) (t := t₁) (m := s.mem) (w := w) (q := 0)
    (j := t₁.transferSize.toNat / 4) (by rw [← ht₁]; rfl) (Nat.zero_add _)
    (by rw [← ht₁]; exact h.buffer) (by rw [← ht₁]; exact hin)
    (by rw [← ht₁]; exact fun h0 hne => absurd h0.symm hne)
  have hoff : t₁.transferSize.toNat - t₁.offset.toNat = available s := by
    rw [← ht₁]
    exact hn
  rw [hoff] at hrun
  obtain ⟨irq, woken, hirq⟩ := raiseIrq_eq d'
  have hregs := hl.regs
  have hhost := hl.host
  have hmem : ∀ b, (placed w s.mem t₁ (available s)).mem b =
      if s.dev.regs.buffer.toNat - w.base.toNat ≤ b ∧
          b < s.dev.regs.buffer.toNat - w.base.toNat + available s then
        (readBytes s).getD (b - (s.dev.regs.buffer.toNat - w.base.toNat))
          (fresh (b - (s.dev.regs.buffer.toNat - w.base.toNat)))
      else s.mem.mem b := fun b => by
    rw [← ht₁]
    simp only [placed, rangeWrite_apply, BitVec.reduceToNat, Nat.add_zero, Nat.zero_add]
  refine ⟨_, hstart.trans hcontrol ▸ hrun, ?_⟩
  rw [hirq]
  refine ⟨rfl, rfl, fun i hi => ?_, fun b hb => ?_, ?_, ?_⟩
  · show _ = some ((placed w s.mem t₁ (available s)).mem (s.dev.regs.buffer.toNat + i - w.base.toNat))
    have hidx : s.dev.regs.buffer.toNat + i - w.base.toNat -
        (s.dev.regs.buffer.toNat - w.base.toNat) = i := by omega
    rw [hmem, if_pos (by omega), hidx]
    exact getD_readBytes hi _
  · show (placed w s.mem t₁ (available s)).mem b = _
    rw [hmem, if_neg hb]
  · show d'.host.content = s.dev.host.content
    rw [hhost, ← hd₁]
  · show d'.regs.count.toNat = _
    rw [hregs, ← hd₁]
    show (BitVec.ofNat 32 (available s) / s.dev.regs.blockSize).toNat = _
    rw [BitVec.toNat_udiv, hn]

end

/-! ## 4. Ends of operations -/

section Ends

variable {w : Wiring} {s s' e : BlockSystem HostFile}

theorem Written.of_erase (h : Written w s e) (he : s'.erase = e.erase) : Written w s s' := by
  have hregs : s'.dev.regs = e.dev.regs := congrArg (·.dev.regs) he
  have hhost : s'.dev.host = e.dev.host := congrArg (·.dev.host) he
  have hmem : s'.mem = e.mem := congrArg (·.mem) he
  obtain ⟨h1, h2, h3, h4, h5⟩ := h
  rw [← hregs] at h1
  rw [← hhost] at h2 h3 h4
  rw [← hmem] at h5
  exact ⟨h1, h2, h3, h4, h5⟩

theorem ReadIn.of_erase (h : ReadIn w s e) (he : s'.erase = e.erase) : ReadIn w s s' := by
  have hregs : s'.dev.regs = e.dev.regs := congrArg (·.dev.regs) he
  have hhost : s'.dev.host = e.dev.host := congrArg (·.dev.host) he
  have hmem : s'.mem = e.mem := congrArg (·.mem) he
  obtain ⟨h1, h2, h3, h4, h5⟩ := h
  rw [← hregs] at h1 h5
  rw [← hhost] at h4
  simp only [BlockSystem.byte] at h2
  rw [← hmem] at h2 h3
  exact ⟨h1, h2, h3, h4, h5⟩

theorem Kept.of_erase (h : Kept s e) (he : s'.erase = e.erase) : Kept s s' := by
  have hregs : s'.dev.regs = e.dev.regs := congrArg (·.dev.regs) he
  have hcontrol : s'.dev.control = e.dev.control := congrArg (·.dev.control) he
  have hmem : s'.mem = e.mem := congrArg (·.mem) he
  obtain ⟨h1, h2, h3, h4, h5⟩ := h
  exact ⟨hcontrol ▸ h1, hregs ▸ h2, hregs ▸ h3, hregs ▸ h4, hmem ▸ h5⟩

/-- **A WRITE** has an end, and every end of it is one. -/
theorem write_completes (h : Ready w s) (hop : decodeOp s.dev.regs.op = some .WRITE)
    (hcount : 0 < s.dev.regs.count.toNat) (fresh : Nat → Byte) :
    (∃ s', Completes hostFile w fresh s s') ∧
      ∀ s', Completes hostFile w fresh s s' → Written w s s' ∧ Kept s s' := by
  obtain ⟨e, hrun, hc, hw, hk⟩ := write_runs h hop hcount fresh
  have hcmd : (commandOf s.dev.regs.op).isSome := by rw [commandOf, hop]; rfl
  obtain ⟨hend, huniq⟩ := completes_unique (h.next_control fresh) hrun (by rw [hc]; rfl)
    (Ready.busy fresh hcmd)
  exact ⟨⟨e, hend⟩, fun s' hs' => ⟨hw.of_erase (huniq s' hs'), hk.of_erase (huniq s' hs')⟩⟩

/-- **A READ** has an end, and every end of it is one. -/
theorem read_completes (h : Ready w s) (hop : decodeOp s.dev.regs.op = some .READ)
    (fresh : Nat → Byte) : (∃ s', Completes hostFile w fresh s s') ∧
      ∀ s', Completes hostFile w fresh s s' → ReadIn w s s' := by
  obtain ⟨e, hrun, hc, hr⟩ := read_runs h hop fresh
  have hcmd : (commandOf s.dev.regs.op).isSome := by rw [commandOf, hop]; rfl
  obtain ⟨hend, huniq⟩ := completes_unique (h.next_control fresh) hrun (by rw [hc]; rfl)
    (Ready.busy fresh hcmd)
  exact ⟨⟨e, hend⟩, fun s' hs' => hr.of_erase (huniq s' hs')⟩

/-- A read of the status, a write of `b` to BUFFER and a write of READ to OP. -/
inductive Rearms (b : ULong) : List Label → Prop where
  | mk {ofs₁ ofs₂ ofs₃ : ULong} {be₁ be₂ be₃ : Byte} {data₂ data₃ : Fin 8 → Byte}
      (status : registerOf ofs₁ be₁ = some .STATUS)
      (buffer : registerOf ofs₂ be₂ = some .BUFFER) (val : valueOf be₂ data₂ = b)
      (op : registerOf ofs₃ be₃ = some .OP) (read : decodeOp (valueOf be₃ data₃) = some .READ) :
      Rearms b [.read ofs₁ be₁, .write ofs₂ be₂ data₂, .write ofs₃ be₃ data₃]

/-- After a WRITE these accesses make the device ready for a READ of the same range. -/
theorem rearm_exec {b : ULong} {ls : List Label} (hls : Rearms b ls) {d : BlockDevice HostFile}
    (hc : d.control = .waiting false) (hs : d.regs.status = .WRITE_SUCCESS) :
    ∃ d' op, exec (next hostFile) d ls = some d' ∧ d'.control = .waiting true ∧
      d'.regs = { d.regs with status := .IDLE, irq := 0#32, buffer := b, op } ∧
      d'.host = d.host ∧ decodeOp op = some .READ := by
  cases hls with
  | @mk ofs₁ ofs₂ ofs₃ be₁ be₂ be₃ data₂ data₃ status buffer val op read =>
      obtain ⟨d₁, h₁, hc₁, hr₁, hh₁⟩ : ∃ d₁, next hostFile d (.read ofs₁ be₁) = some d₁ ∧
          d₁.control = .waiting false ∧
          d₁.regs = { d.regs with status := .IDLE, irq := 0#32 } ∧ d₁.host = d.host := by
        refine ⟨d.access (slaveRead d.regs ofs₁ be₁), by simp only [next, hc], ?_, ?_, rfl⟩ <;>
          simp [access, slaveRead, status, hs, hc]
      obtain ⟨d₂, h₂, hc₂, hr₂, hh₂⟩ : ∃ d₂, next hostFile d₁ (.write ofs₂ be₂ data₂) = some d₂ ∧
          d₂.control = .waiting false ∧ d₂.regs = { d₁.regs with buffer := b } ∧
          d₂.host = d₁.host := by
        refine ⟨d₁.access (slaveWrite d₁.regs ofs₂ be₂ data₂), by simp only [next, hc₁], ?_, ?_,
          rfl⟩ <;>
          simp [access, slaveWrite, buffer, val, hc₁]
      obtain ⟨d₃, h₃, hc₃, hr₃, hh₃⟩ : ∃ d₃, next hostFile d₂ (.write ofs₃ be₃ data₃) = some d₃ ∧
          d₃.control = .waiting true ∧ d₃.regs = { d₂.regs with op := valueOf be₃ data₃ } ∧
          d₃.host = d₂.host := by
        refine ⟨d₂.access (slaveWrite d₂.regs ofs₃ be₃ data₃), by simp only [next, hc₂], ?_, ?_,
          rfl⟩ <;>
          simp [access, slaveWrite, op, hr₂, hr₁, hc₂, wake]
      refine ⟨d₃, valueOf be₃ data₃, ?_, hc₃, ?_, hh₃.trans (hh₂.trans hh₁), read⟩
      · rw [exec_cons h₁, exec_cons h₂, exec_cons h₃, exec_nil]
      · rw [hr₃, hr₂, hr₁]

/-- The range of a WRITE is in the file as a whole. -/
theorem Written.available_eq (h : Written w s s') {s₁ : BlockSystem HostFile}
    (hlength : s₁.dev.regs.length = s.dev.regs.length)
    (hposition : s₁.dev.regs.position = s.dev.regs.position)
    (hhost : s₁.dev.host = s'.dev.host) : available s₁ = s.dev.regs.length := by
  rw [available, hlength, hposition, hhost]
  by_cases h0 : s.dev.regs.length = 0
  · omega
  · have hlast := h.bytes (s.dev.regs.length - 1) (by omega)
    have hlt := (List.getElem?_eq_some_iff.mp hlast).1
    omega

/-- **A READ of the same range** into another buffer, after a WRITE. -/
theorem write_read (h : Ready w s) (hw : Written w s s')
    (hk : Kept s s') {b : ULong} {ls : List Label} (hls : Rearms b ls) (hb : 4 ∣ b.toNat)
    (hin : w.Inside s.mem.size b.toNat s.dev.regs.length) :
    ∃ d, exec (next hostFile) s'.dev ls = some d ∧ ∀ fresh,
      (∃ s'', Completes hostFile w fresh ⟨d, s'.mem⟩ s'') ∧
      ∀ s'', Completes hostFile w fresh ⟨d, s'.mem⟩ s'' → ∀ i < s.dev.regs.length,
        s''.byte w (b.toNat + i) = s.byte w (s.dev.regs.buffer.toNat + i) := by
  obtain ⟨d, op, hexec, hc, hregs, hhost, hop⟩ := rearm_exec hls hk.control hw.status
  have hlba : d.regs.lba = s.dev.regs.lba := by rw [hregs]; exact hk.lba
  have hcnt : d.regs.count = s.dev.regs.count := by rw [hregs]; exact hk.count
  have hbs : d.regs.blockSize = s.dev.regs.blockSize := by rw [hregs]; exact hk.blockSize
  have hbuf : d.regs.buffer = b := by rw [hregs]
  have hlength : d.regs.length = s.dev.regs.length := by
    rw [SlBlockRegs.length, hcnt, hbs, SlBlockRegs.length]
  have hposition : d.regs.position = s.dev.regs.position := by
    rw [SlBlockRegs.position, hlba, hbs, SlBlockRegs.position]
  have hready : Ready w ⟨d, s'.mem⟩ := by
    refine ⟨hc, ?_, ?_, ?_, ?_, ?_, ?_⟩ <;>
      simp only [hbs, hlength, hposition, hbuf, hk.size]
    · exact h.blockSize
    · exact h.position
    · exact h.length
    · exact hb
    · exact h.memory
    · exact hin
  have havail : available (⟨d, s'.mem⟩ : BlockSystem HostFile) = s.dev.regs.length :=
    hw.available_eq hlength hposition hhost
  refine ⟨d, hexec, fun fresh => ?_⟩
  obtain ⟨hend, hall⟩ := read_completes hready (by rw [hregs]; exact hop) fresh
  refine ⟨hend, fun s'' hs'' i hi => ?_⟩
  have hbytes := (hall s'' hs'').bytes i (by omega)
  rw [hposition, hhost, hw.bytes i hi, hbuf] at hbytes
  exact (Option.some_inj.mp hbytes).symm

end Ends

/-- **What the block device moves.** A READ ends with the bytes that the file has in the buffer and
    nothing else changed, a WRITE with the bytes of the buffer in the file and nothing else changed;
    and a READ of the same range after a WRITE reproduces its bytes in another buffer. -/
theorem transfers_exact {w : Wiring} {s : BlockSystem HostFile} (h : Ready w s)
    (fresh : Nat → Byte) :
    (decodeOp s.dev.regs.op = some .READ → (∃ s', Completes hostFile w fresh s s') ∧
      ∀ s', Completes hostFile w fresh s s' → ReadIn w s s') ∧
    (decodeOp s.dev.regs.op = some .WRITE → 0 < s.dev.regs.count.toNat →
      (∃ s', Completes hostFile w fresh s s') ∧
      ∀ s', Completes hostFile w fresh s s' → Written w s s' ∧
        ∀ b ls, Rearms b ls → 4 ∣ b.toNat → w.Inside s.mem.size b.toNat s.dev.regs.length →
          ∃ d, exec (next hostFile) s'.dev ls = some d ∧ ∀ fresh',
            (∃ s'', Completes hostFile w fresh' ⟨d, s'.mem⟩ s'') ∧
            ∀ s'', Completes hostFile w fresh' ⟨d, s'.mem⟩ s'' → ∀ i < s.dev.regs.length,
              s''.byte w (b.toNat + i) = s.byte w (s.dev.regs.buffer.toNat + i)) := by
  refine ⟨fun hop => read_completes h hop fresh, fun hop hcount => ?_⟩
  obtain ⟨hend, hall⟩ := write_completes h hop hcount fresh
  refine ⟨hend, fun s' hs' => ⟨(hall s' hs').1, fun b ls hls hb hin => ?_⟩⟩
  exact write_read h (hall s' hs').1 (hall s' hs').2 hls hb hin

/-- A memory of 64 bytes at 0x1000 that holds the offsets, and a WRITE of three two-byte blocks from
    0x1004 to block 2 of an empty file. -/
def sixByteWrite : BlockSystem HostFile where
  dev :=
    { regs := ⟨.IDLE, 0x1004#32, 2#32, 2#32, 3#32, 0#32, 2#32, 0#32, 0#32⟩
      fd := 3
      host := ⟨[], 0⟩
      funcRet := 0#32
      crtTid := 0#8
      control := .waiting true
      irqWoken := false
      irqLine := false }
  mem := ⟨64#32, 0#32, fun b => BitVec.ofNat 8 b, fun _ => 0#8⟩

theorem transfers_exact_write :
    ∃ s', Completes hostFile ⟨0, 0x1000#32, by decide, by decide⟩ (fun _ => 0#8) sixByteWrite s' ∧
      s'.dev.host.content[3]? = some 0#8 ∧ s'.dev.host.content[9]? = some 9#8 := by
  have h : Ready ⟨0, 0x1000#32, by decide, by decide⟩ sixByteWrite :=
    ⟨rfl, by decide, by decide, by decide, by decide, by decide, by decide, by decide, by decide⟩
  obtain ⟨⟨s', hs'⟩, hall⟩ := (transfers_exact h fun _ => 0#8).2 (by decide) (by decide)
  obtain ⟨hw, -⟩ := hall s' hs'
  exact ⟨s', hs', hw.before 3 (by decide), hw.bytes 5 (by decide)⟩

end Rabbits
