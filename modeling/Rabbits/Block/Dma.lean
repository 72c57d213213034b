/-
  File:      Rabbits/Block/Dma.lean
  Subject:   The loops of the block device over the bus, with a memory that answers.

  The memory is at an address of the bus; every access is the request that `send_req` makes, the
  response of the memory device to it, and what `response_thread` passes on.

  * `Wiring`, `busStep` -- one bus access of the device, from the request to the response;
  * `busStep_write`, `busStep_read` -- an aligned access inside the memory;
  * `wordLoop_run` -- **the word loop and the byte loop of a READ** store exactly their bytes;
  * `readLoop_run` -- **the rounded-up word loop of a WRITE** fetches exactly its bytes, and changes
    no byte of the memory.
-/
import Rabbits.Block.Status
import Rabbits.Mem.MemDevice
import Mathlib.Logic.Relation

namespace Rabbits

open Lib Relation

variable {η : Type} {fs : HostFs η}

/-! ## 1. One access -/

/-- The node id of the device's master, and the address of the memory. -/
structure Wiring where
  nodeId : Nat
  base : ULong
  nodeId_lt : nodeId < 2 ^ 16
  aligned : 8 ∣ base.toNat

/-- The device and the memory. -/
structure BlockSystem (η : Type) where
  dev : BlockDevice η
  mem : MemDevice

/-- The request of a bus access, as it reaches the memory. -/
def Wiring.request (w : Wiring) (tid : Byte) (a : BusAccess) : VciRequest :=
  let req := sendReq w.nodeId tid a.addr a.data a.nbytes a.bWrite
  { req with address := req.address - w.base }

/-- One bus access of the device: none while `control_thread` is not in one. -/
def busStep (fs : HostFs η) (w : Wiring) (s : BlockSystem η) : Option (BlockSystem η) :=
  s.dev.control.busAccess.bind fun a =>
    let req := w.request s.dev.crtTid a
    let (mem, bErr) := s.mem.rcvRqst req
    (responseThread w.nodeId (slaveRsp req mem.rdata bErr)).bind fun rsp =>
      (s.dev.reply fs bErr rsp.2).map fun dev => ⟨dev, mem⟩

/-- The accesses that follow each other. -/
def Runs (fs : HostFs η) (w : Wiring) : BlockSystem η → BlockSystem η → Prop :=
  ReflTransGen fun s s' => busStep fs w s = some s'

/-- The bytes are in a memory of this size, and their addresses do not wrap. -/
structure Wiring.Inside (w : Wiring) (size : ULong) (addr n : Nat) : Prop where
  base : w.base.toNat ≤ addr
  size : addr + n ≤ w.base.toNat + size.toNat
  wrap : addr + n ≤ 2 ^ 32

section Access

variable {w : Wiring} {s : BlockSystem η} {addr : ULong} {nbytes : Nat} {bWrite : Bool}
  {data : Nat → Byte}

theorem carries_request (w : Wiring) (bWrite : Bool) (data : Nat → Byte)
    (ha : Aligned addr nbytes) (tid : Byte) :
    Carries (w.request tid ⟨addr, nbytes, bWrite, data⟩) w.nodeId tid addr data nbytes bWrite :=
  ⟨rfl, rfl, rfl, rfl, rfl, rfl, ha⟩

/-- The offset of an access in the memory. -/
theorem ofs_request (hin : w.Inside s.mem.size addr.toNat nbytes) (tid : Byte) :
    (w.request tid ⟨addr, nbytes, bWrite, data⟩).address.toNat + laneOf addr =
      addr.toNat - w.base.toNat := by
  have hmask : (addr &&& 0xFFFFFFF8#32).toNat = addr.toNat / 8 * 8 := toNat_and_mask addr 3
  have hbase := hin.base
  obtain ⟨q, hq⟩ := w.aligned
  have hle : w.base ≤ addr &&& 0xFFFFFFF8#32 := by
    rw [BitVec.le_def, hmask]
    omega
  show ((addr &&& 0xFFFFFFF8#32) - w.base).toNat + laneOf addr = _
  rw [BitVec.toNat_sub_of_le hle, hmask, laneOf_eq]
  omega

theorem ofNat_nodeId (w : Wiring) : (BitVec.ofNat 16 w.nodeId).toNat = w.nodeId := by
  rw [BitVec.toNat_ofNat, Nat.mod_eq_of_lt w.nodeId_lt]

/-- **A write** stores its bytes. -/
theorem busStep_write (hc : s.dev.control.busAccess = some ⟨addr, nbytes, true, data⟩)
    (ha : Aligned addr nbytes) (hin : w.Inside s.mem.size addr.toNat nbytes) :
    ∃ v, ∀ d', s.dev.reply fs false v = some d' → busStep fs w s = some ⟨d', { s.mem with
      mem := (rangeWrite (addr.toNat - w.base.toNat) nbytes data).apply s.mem.mem }⟩ := by
  have hcar := carries_request w true data ha s.dev.crtTid
  obtain ⟨hofs, hn, hw, hdata⟩ := accessOf_eq hcar
  rw [ofs_request hin] at hofs
  have hinside : (accessOf (w.request s.dev.crtTid ⟨addr, nbytes, true, data⟩)).Inside s.mem.size := by
    have := hin.base
    have := hin.size
    rw [MemAccess.Inside, hofs, hn]
    omega
  have hstores : (accessOf (w.request s.dev.crtTid ⟨addr, nbytes, true, data⟩)).stores =
      rangeWrite (addr.toNat - w.base.toNat) nbytes data := by
    funext b
    simp only [MemAccess.stores, hofs, hn, hw, true_and, rangeWrite]
    split
    · next hb => rw [hdata rfl _ (by omega)]
    · rfl
  have hmem := rcvRqst_write hcar s.mem hinside
  rw [hstores] at hmem
  obtain ⟨v, hv, -⟩ := responseThread_lanes hcar (ofNat_nodeId w) s.mem.rdata false
  refine ⟨v, fun d' hd' => ?_⟩
  simp only [busStep, hc, Option.bind_some, hmem, hv, hd', Option.map_some]

/-- **A read** finds its bytes and changes none. -/
theorem busStep_read (hc : s.dev.control.busAccess = some ⟨addr, nbytes, false, data⟩)
    (ha : Aligned addr nbytes) (hin : w.Inside s.mem.size addr.toNat nbytes) :
    ∃ v rdata, (∀ i < nbytes, byteOf v i = s.mem.mem (addr.toNat - w.base.toNat + i)) ∧
      ∀ d', s.dev.reply fs false v = some d' →
        busStep fs w s = some ⟨d', { s.mem with rdata }⟩ := by
  have hcar := carries_request w false data ha s.dev.crtTid
  obtain ⟨hofs, hn, -, -⟩ := accessOf_eq hcar
  rw [ofs_request hin] at hofs
  have hinside : (accessOf (w.request s.dev.crtTid ⟨addr, nbytes, false, data⟩)).Inside
      s.mem.size := by
    have := hin.base
    have := hin.size
    rw [MemAccess.Inside, hofs, hn]
    omega
  obtain ⟨rdata, hmem, hlanes⟩ := rcvRqst_read hcar s.mem hinside
  obtain ⟨v, hv, hbytes⟩ := responseThread_lanes hcar (ofNat_nodeId w) rdata false
  refine ⟨v, rdata, fun i hi => ?_, fun d' hd' => ?_⟩
  · have h8 : laneOf addr + i < 8 := by
      have := ha.lane_add_le
      omega
    rw [hbytes i hi h8, hlanes i hi h8, hofs]
  · simp only [busStep, hc, Option.bind_some, hmem, hv, hd', Option.map_some]

end Access

/-! ## 2. The loops -/

/-- Between two responses of one operation: the registers, the file and its descriptor stay. -/
structure Later (d d' : BlockDevice η) : Prop where
  regs : d'.regs = d.regs
  fd : d'.fd = d.fd
  host : d'.host = d.host

theorem Later.refl (d : BlockDevice η) : Later d d := ⟨rfl, rfl, rfl⟩

theorem Runs.head {w : Wiring} {s s' s'' : BlockSystem η} (h : busStep fs w s = some s')
    (h' : Runs fs w s' s'') : Runs fs w s s'' := ReflTransGen.head h h'

/-- The memory with `n` bytes of `data_buff` from `i` on at their place. -/
def placed (w : Wiring) (mem : MemDevice) (t : Transfer) (n : Nat) : MemDevice :=
  { mem with mem := (rangeWrite (t.addr.toNat + t.offset.toNat - w.base.toNat) n
      fun j => t.dataBuff (t.offset.toNat + j)).apply mem.mem }

section Loops

variable {w : Wiring} {d : BlockDevice η} {t : Transfer} {m : MemDevice}

/-- `addr + offset` does not wrap. -/
theorem toNat_addr_add (hin : w.Inside m.size t.addr.toNat t.transferSize.toNat)
    (hlt : t.offset < t.transferSize) : (t.addr + t.offset).toNat = t.addr.toNat + t.offset.toNat := by
  have := hin.wrap
  rw [BitVec.lt_def] at hlt
  rw [BitVec.toNat_add, Nat.mod_eq_of_lt (by omega)]

/-- `offset` does not wrap. -/
theorem toNat_advance {n : ULong} (h : t.offset.toNat + n.toNat < 2 ^ 32) :
    (t.advance n).offset.toNat = t.offset.toNat + n.toNat := by
  rw [Transfer.advance, BitVec.toNat_add, Nat.mod_eq_of_lt h]

/-- The bytes of one access and of those behind it. -/
theorem placed_placed {n : ULong} {k : Nat} (hin : w.base.toNat ≤ t.addr.toNat)
    (h : t.offset.toNat + n.toNat < 2 ^ 32) :
    placed w (placed w m t n.toNat) (t.advance n) k = placed w m t (n.toNat + k) := by
  have hoff : t.addr.toNat + (t.offset.toNat + n.toNat) - w.base.toNat =
      t.addr.toNat + t.offset.toNat - w.base.toNat + n.toNat := by omega
  have hdata : (fun j => (t.advance n).dataBuff ((t.advance n).offset.toNat + j)) =
      fun j => t.dataBuff (t.offset.toNat + (n.toNat + j)) := by
    funext j
    rw [toNat_advance h, Nat.add_assoc]
    rfl
  have happend := rangeWrite_append (t.addr.toNat + t.offset.toNat - w.base.toNat) n.toNat k
    (fun j => t.dataBuff (t.offset.toNat + j)) m.mem
  unfold placed
  rw [hdata, toNat_advance h, ← happend]
  simp only [Transfer.advance, hoff]

/-- One `cmd_write` of `n` bytes of `data_buff`. -/
theorem cmdWrite_run {n : ULong} {d' : BlockDevice η}
    (hc : d.control.busAccess =
      some ⟨t.addr + t.offset, n.toNat, true, fun i => t.dataBuff (t.offset.toNat + i)⟩)
    (hal : Aligned (t.addr + t.offset) n.toNat)
    (hin : w.Inside m.size t.addr.toNat t.transferSize.toNat)
    (hn : 0 < n.toNat ∧ t.offset.toNat + n.toNat ≤ t.transferSize.toNat)
    (hreply : ∀ v, d.reply fs false v = some d') :
    busStep fs w ⟨d, m⟩ = some ⟨d', placed w m t n.toNat⟩ := by
  have hlt : t.offset < t.transferSize := by
    rw [BitVec.lt_def]
    omega
  have hadd := toNat_addr_add hin hlt
  have hin' : w.Inside m.size (t.addr + t.offset).toNat n.toNat := by
    obtain ⟨hb, hs, hw⟩ := hin
    constructor <;> omega
  obtain ⟨v, hv⟩ := busStep_write (s := ⟨d, m⟩) hc hal hin'
  rw [hv d' (hreply v), hadd]
  rfl

/-- The end of a READ whose last access succeeded, if there was one. -/
theorem readDone_eq (h : t.transferSize ≠ 0#32 → d.funcRet ≠ 0#32) :
    d.readDone t = d.raiseIrq.done .READ_SUCCESS := by
  rw [BlockDevice.readDone, if_neg fun hn => h hn.1 hn.2]

/-- **The byte loop** stores what is left. -/
theorem byteLoop_run (fs : HostFs η) {k : Nat} (hk : t.offset.toNat + k = t.transferSize.toNat)
    (hin : w.Inside m.size t.addr.toNat t.transferSize.toNat)
    (hret : t.offset = t.transferSize → t.transferSize ≠ 0#32 → d.funcRet ≠ 0#32) :
    ∃ d', Later d d' ∧ Runs fs w ⟨d.byteLoop t, m⟩
      ⟨d'.raiseIrq.done .READ_SUCCESS, placed w m t k⟩ := by
  induction k generalizing d t m with
  | zero =>
      have heq : t.offset = t.transferSize := BitVec.eq_of_toNat_eq (by omega)
      have hnlt : ¬ t.offset < t.transferSize := by
        rw [heq, BitVec.lt_def]
        omega
      have hmem : placed w m t 0 = m := by rw [placed, rangeWrite_zero]
      refine ⟨d, .refl d, ?_⟩
      rw [BlockDevice.byteLoop, if_neg hnlt, readDone_eq (hret heq), hmem]
      exact .refl
  | succ k ih =>
      have hlt : t.offset < t.transferSize := by
        rw [BitVec.lt_def]
        omega
      have hadv : t.offset.toNat + (1#32).toNat < 2 ^ 32 := by
        show t.offset.toNat + 1 < 2 ^ 32
        omega
      have hstep : busStep fs w ⟨d.byteLoop t, m⟩ =
          some ⟨({ d with control := .writeByte t }.rcvRsp false).byteLoop (t.advance 1#32),
            placed w m t 1⟩ := by
        rw [BlockDevice.byteLoop, if_pos hlt]
        exact cmdWrite_run (n := 1#32) rfl ⟨.inl rfl, one_dvd _⟩ hin
          ⟨by decide, show t.offset.toNat + 1 ≤ _ by omega⟩ fun _ => rfl
      have hk' : (t.advance 1#32).offset.toNat + k = (t.advance 1#32).transferSize.toNat := by
        rw [toNat_advance hadv]
        show t.offset.toNat + 1 + k = t.transferSize.toNat
        omega
      obtain ⟨d', hl, hrun⟩ := ih (d := { d with control := .writeByte t }.rcvRsp false)
        (m := placed w m t 1) hk' hin fun _ _ => (by decide : 1#32 ≠ 0#32)
      have hmem := placed_placed (n := 1#32) (k := k) (m := m) hin.base hadv
      refine ⟨d', ⟨hl.regs, hl.fd, hl.host⟩, .head hstep ?_⟩
      rw [Nat.add_comm k 1]
      exact hmem ▸ hrun

/-- A word of a 4-aligned buffer is aligned. -/
theorem aligned_word (hin : w.Inside m.size t.addr.toNat t.transferSize.toNat)
    (hlt : t.offset < t.transferSize) (h4 : 4 ∣ t.addr.toNat) {q : Nat}
    (hoff : t.offset.toNat = 4 * q) : Aligned (t.addr + t.offset) (4#32).toNat := by
  refine ⟨.inr (.inr rfl), ?_⟩
  rw [toNat_addr_add hin hlt, hoff]
  exact (Nat.dvd_add_right h4).mpr (Dvd.intro q rfl)

/-- **The word loop of a READ**, and the byte loop behind it. -/
theorem wordLoop_run (fs : HostFs η) {j q : Nat} (hq : t.offset.toNat = 4 * q)
    (hj : q + j = t.transferSize.toNat / 4) (h4 : 4 ∣ t.addr.toNat)
    (hin : w.Inside m.size t.addr.toNat t.transferSize.toNat)
    (hret : t.offset = t.transferSize → t.transferSize ≠ 0#32 → d.funcRet ≠ 0#32) :
    ∃ d', Later d d' ∧ Runs fs w ⟨d.wordLoop t, m⟩
      ⟨d'.raiseIrq.done .READ_SUCCESS, placed w m t (t.transferSize.toNat - t.offset.toNat)⟩ := by
  have hmask : (t.transferSize &&& ~~~3#32).toNat = t.transferSize.toNat / 4 * 4 :=
    toNat_and_mask t.transferSize 2
  induction j generalizing d t m q with
  | zero =>
      have hnlt : ¬ t.offset < t.transferSize &&& ~~~3#32 := by
        rw [BitVec.lt_def, hmask]
        omega
      rw [BlockDevice.wordLoop, if_neg hnlt]
      exact byteLoop_run fs (by omega) hin hret
  | succ j ih =>
      have hlt : t.offset < t.transferSize &&& ~~~3#32 := by
        rw [BitVec.lt_def, hmask]
        omega
      have hlt' : t.offset < t.transferSize := by
        rw [BitVec.lt_def]
        omega
      have hadv : t.offset.toNat + (4#32).toNat < 2 ^ 32 := by
        show t.offset.toNat + 4 < 2 ^ 32
        omega
      have hoff : (t.advance 4#32).offset.toNat = t.offset.toNat + 4 := toNat_advance hadv
      have hstep : busStep fs w ⟨d.wordLoop t, m⟩ =
          some ⟨({ d with control := .writeWord t }.rcvRsp false).wordLoop (t.advance 4#32),
            placed w m t 4⟩ := by
        rw [BlockDevice.wordLoop, if_pos hlt]
        exact cmdWrite_run (n := 4#32) rfl (aligned_word hin hlt' h4 hq) hin
          ⟨by decide, show t.offset.toNat + 4 ≤ _ by omega⟩ fun _ => rfl
      obtain ⟨d', hl, hrun⟩ := ih (d := { d with control := .writeWord t }.rcvRsp false)
        (t := t.advance 4#32) (m := placed w m t 4) (q := q + 1) (by omega)
        (by show q + 1 + j = t.transferSize.toNat / 4; omega) h4 hin
        (fun _ _ => (by decide : 1#32 ≠ 0#32)) hmask
      have hmem := placed_placed (n := 4#32) (m := m)
        (k := t.transferSize.toNat - (t.advance 4#32).offset.toNat) hin.base hadv
      have hlen : (4#32).toNat + (t.transferSize.toNat - (t.advance 4#32).offset.toNat) =
          t.transferSize.toNat - t.offset.toNat := by
        show 4 + (t.transferSize.toNat - (t.advance 4#32).offset.toNat) = _
        omega
      rw [hlen] at hmem
      exact ⟨d', ⟨hl.regs, hl.fd, hl.host⟩, .head hstep (hmem ▸ hrun)⟩

/-- `data_buff` holds the bytes of the memory up to `offset`. -/
def Fetched (w : Wiring) (m : MemDevice) (t : Transfer) : Prop :=
  ∀ i < t.offset.toNat, t.dataBuff i = m.mem (t.addr.toNat + i - w.base.toNat)

/-- One more word in `data_buff`. -/
theorem Fetched.copy {v : ULong} {rdata : Fin 8 → Byte} (hf : Fetched w m t)
    (hbase : w.base.toNat ≤ t.addr.toNat)
    (hadv : t.offset.toNat + (4#32).toNat < 2 ^ 32)
    (hv : ∀ i < 4, byteOf v i = m.mem (t.addr.toNat + t.offset.toNat - w.base.toNat + i)) :
    Fetched w { m with rdata } ((t.copy v).advance 4#32) := by
  intro i hi
  rw [toNat_advance (t := t.copy v) hadv] at hi
  have hi' : i < t.offset.toNat + 4 := hi
  show (if t.offset.toNat ≤ i ∧ i < t.offset.toNat + 4 then byteOf v (i - t.offset.toNat)
    else t.dataBuff i) = m.mem (t.addr.toNat + i - w.base.toNat)
  split
  · rw [hv _ (by omega)]
    congr 1
    omega
  · exact hf i (by omega)

/-- **The loop of a WRITE**: it ends with the bytes of the memory in `data_buff`. -/
theorem readLoop_run (fs : HostFs η) {j q : Nat} (hq : t.offset.toNat = 4 * q)
    (hj : q + j = (t.transferSize.toNat + 3) / 4) (hsize : t.transferSize.toNat < 2 ^ 31)
    (h4 : 4 ∣ t.addr.toNat)
    (hin : w.Inside m.size t.addr.toNat ((t.transferSize.toNat + 3) / 4 * 4))
    (hf : Fetched w m t) (hret : t.transferSize.toNat ≤ t.offset.toNat → d.funcRet ≠ 0#32) :
    ∃ d' t' rdata, Later d d' ∧ d'.funcRet ≠ 0#32 ∧ t'.transferSize = t.transferSize ∧
      (∀ i < t.transferSize.toNat, t'.dataBuff i = m.mem (t.addr.toNat + i - w.base.toNat)) ∧
      Runs fs w ⟨d.readLoop fs false t, m⟩ ⟨d'.writeDone fs t', { m with rdata }⟩ := by
  induction j generalizing d t m q with
  | zero =>
      have hnlt : ¬ t.offset < t.transferSize := by
        rw [BitVec.lt_def]
        omega
      refine ⟨d, t, m.rdata, .refl d, hret (by omega), rfl, fun i hi => hf i (by omega), ?_⟩
      rw [BlockDevice.readLoop, if_neg hnlt]
      exact .refl
  | succ j ih =>
      have hlt : t.offset < t.transferSize := by
        rw [BitVec.lt_def]
        omega
      have hadv : t.offset.toNat + (4#32).toNat < 2 ^ 32 := by
        show t.offset.toNat + 4 < 2 ^ 32
        omega
      obtain ⟨hbase, hinSize, hwrap⟩ := hin
      have hin' : w.Inside m.size t.addr.toNat t.transferSize.toNat := ⟨hbase, by omega, by omega⟩
      have hadd := toNat_addr_add hin' hlt
      have hinWord : w.Inside m.size (t.addr + t.offset).toNat (4#32).toNat := by
        rw [hadd]
        show w.Inside m.size (t.addr.toNat + t.offset.toNat) 4
        constructor <;> omega
      obtain ⟨v, rdata, hbytes, hv⟩ := busStep_read (s := ⟨{ d with control := .readWord false t }, m⟩)
        rfl (aligned_word hin' hlt h4 hq) hinWord
      have hstep : busStep fs w ⟨d.readLoop fs false t, m⟩ =
          some ⟨({ d with control := .readWord false t }.rcvRsp false).readLoop fs false
            ((t.copy v).advance 4#32), { m with rdata }⟩ := by
        rw [BlockDevice.readLoop, if_pos hlt]
        exact hv _ rfl
      have hoff : ((t.copy v).advance 4#32).offset.toNat = t.offset.toNat + 4 := toNat_advance hadv
      rw [hadd] at hbytes
      obtain ⟨d', t', rdata', hl, hret', hts, hdata, hrun⟩ :=
        ih (d := { d with control := .readWord false t }.rcvRsp false)
          (t := (t.copy v).advance 4#32) (m := { m with rdata }) (q := q + 1) (by omega)
          (by show q + 1 + j = (t.transferSize.toNat + 3) / 4; omega) hsize h4
          ⟨hbase, hinSize, hwrap⟩ (hf.copy hbase hadv hbytes) (fun _ => (by decide : 1#32 ≠ 0#32))
      exact ⟨d', t', rdata', ⟨hl.regs, hl.fd, hl.host⟩, hret', hts, hdata, .head hstep hrun⟩

end Loops

end Rabbits
