/-
  File:      Rabbits/Mem/MemDevice.lean
  Subject:   The memory device (mem_device.cpp: write, read, rcv_rqst).

  `be` says which lanes of the 8-byte word at `ofs` take part. The usual patterns go through a
  switch that turns `be` into an access width and an index in units of that width; a write with
  another pattern copies the first run of set lanes, a read with another pattern is an error.

  * `writeCase`, `readCase` -- the two switches;
  * `write`, `read`, `rcvRqst` -- the operations;
  * `accessOf` -- the access that a request asks for;
  * `rcvRqst_write`, `rcvRqst_read` -- what the device does with an aligned access inside it.

  A burst read (`plen > 1`) stores a pointer into the memory in the response.
-/
import Rabbits.Lib.Store
import Rabbits.Noc.Bus
import Rabbits.Noc.MasterDevice

namespace Rabbits

open Lib

/-! ## 1. The operations -/

/-- `mem_device`: `size`, the host address of `mem`, its bytes, and `m_rsp.rdata`. The bytes from `size`
    on are not of its array, but what the heap has behind it. -/
structure MemDevice where
  size : ULong
  base : ULong
  mem : Nat → Byte
  rdata : Fin 8 → Byte

/-- The constructor; nothing initialises `m_rsp`. -/
def MemDevice.new (size base : ULong) (rdata : Fin 8 → Byte) : MemDevice :=
  ⟨size, base, fun _ => 0#8, rdata⟩

/-- The switch of `write`: `offset_dd` and `mod`. -/
def writeCase (be : Byte) : Option (Nat × Nat) :=
  match be.toNat with
  | 0x01 => some (0, 1)
  | 0x02 => some (1, 1)
  | 0x04 => some (2, 1)
  | 0x08 => some (3, 1)
  | 0x10 => some (4, 1)
  | 0x20 => some (5, 1)
  | 0x40 => some (6, 1)
  | 0x80 => some (7, 1)
  | 0x03 => some (0, 2)
  | 0x0C => some (1, 2)
  | 0x30 => some (2, 2)
  | 0xC0 => some (3, 2)
  | 0x0F => some (0, 4)
  | 0xF0 => some (1, 4)
  | 0xFF => some (0, 8)
  | _ => none

/-- The switch of `read`: `loffs` and `lwid`. -/
def readCase (be : Byte) : Option (Nat × Nat) :=
  match be.toNat with
  | 0x01 => some (0, 1)
  | 0x02 => some (1, 1)
  | 0x04 => some (2, 1)
  | 0x08 => some (3, 1)
  | 0x10 => some (4, 1)
  | 0x20 => some (5, 1)
  | 0x40 => some (6, 1)
  | 0x80 => some (7, 1)
  | 0x03 => some (0, 2)
  | 0x0C => some (1, 2)
  | 0x30 => some (2, 2)
  | 0xC0 => some (3, 2)
  | 0x0F => some (0, 4)
  | 0xF0 => some (1, 4)
  | _ => none

/-- How many lanes are set in a row from `lane` on. -/
def laneRun (be : Byte) (lane : Nat) : Nat :=
  ((List.range (8 - lane)).takeWhile fun j => be.getLsbD (lane + j)).length

/-- The lanes from `lane` on, `count` of them, of the data word. -/
def lanesWrite (ofs lane count : Nat) (data : Fin 8 → Byte) : Write Nat Byte := fun b =>
  if h : ofs + lane ≤ b ∧ b < ofs + lane + count ∧ b - ofs < 8 then some (data ⟨b - ofs, h.2.2⟩)
  else none

namespace MemDevice

/-- `write`. -/
def write (d : MemDevice) (ofs : ULong) (be : Byte) (data : Fin 8 → Byte) : MemDevice :=
  if d.size < ofs || be == 0#8 then d
  else
    match writeCase be with
    | some (i, mod) => { d with mem := (lanesWrite ofs.toNat (mod * i) mod data).apply d.mem }
    | none =>
        let first := firstLane be
        { d with mem := (lanesWrite ofs.toNat first (laneRun be first) data).apply d.mem }

/-- `read`, and `bErr`. -/
def read (d : MemDevice) (ofs : ULong) (be plen : Byte) : MemDevice × Bool :=
  if 1#8 < plen then
    let beOff := if be = 0xF0#8 then 4 else 0
    ({ d with rdata := fun j =>
        if beOff ≤ j.val ∧ j.val < beOff + 4 then
          byteOf (d.base + ofs + BitVec.ofNat 32 beOff) (j.val - beOff)
        else d.rdata j }, false)
  else if d.size ≤ ofs || be == 0#8 then (d, true)
  else
    match readCase be with
    | some (i, wid) =>
        ({ d with rdata := fun j =>
            if wid * i ≤ j.val ∧ j.val < wid * i + wid then d.mem (ofs.toNat + j.val)
            else d.rdata j }, false)
    | none => (d, true)

/-- `rcv_rqst`, up to `send_rsp`: the device and `bErr`. -/
def rcvRqst (d : MemDevice) (req : VciRequest) : MemDevice × Bool :=
  if req.cmd = CMD_WRITE then (d.write req.address req.be req.wdata, false)
  else d.read req.address req.be req.plen

end MemDevice

/-! ## 2. What a request asks for -/

/-- An access to the bytes `ofs`, ..., `ofs + nbytes - 1` of the device. -/
structure MemAccess where
  ofs : Nat
  nbytes : Nat
  bWrite : Bool
  data : Nat → Byte

/-- The access is inside a device of this size. -/
def MemAccess.Inside (a : MemAccess) (size : ULong) : Prop := a.ofs + a.nbytes ≤ size.toNat

/-- What it writes. -/
def MemAccess.stores (a : MemAccess) : Write Nat Byte := fun b =>
  if a.bWrite ∧ a.ofs ≤ b ∧ b < a.ofs + a.nbytes then some (a.data (b - a.ofs)) else none

/-- The access that a request asks for: the lanes that `be` sets, from the first on. -/
def accessOf (req : VciRequest) : MemAccess where
  ofs := req.address.toNat + firstLane req.be
  nbytes := laneRun req.be (firstLane req.be)
  bWrite := req.cmd == CMD_WRITE
  data i := if h : firstLane req.be + i < 8 then req.wdata ⟨firstLane req.be + i, h⟩ else 0#8

/-- A naturally aligned access of 1, 2 or 4 bytes: its lane and its width. -/
structure Aligned (addr : ULong) (nbytes : Nat) : Prop where
  width : nbytes = 1 ∨ nbytes = 2 ∨ nbytes = 4
  aligned : nbytes ∣ addr.toNat

/-- The byte enables that `send_req` computes. -/
def beOf (addr : ULong) (nbytes : Nat) : Byte :=
  operationMaskBe.getD (min nbytes 4) 0 <<< laneOf addr

/-! ## 3. Aligned accesses -/

/-- What the byte enables of an aligned access say, to both switches and to the lane loops. -/
structure Lanes (be : Byte) (lane nbytes : Nat) : Prop where
  pos : be ≠ 0#8
  write : writeCase be = some (lane / nbytes, nbytes)
  read : readCase be = some (lane / nbytes, nbytes)
  first : firstLane be = lane
  run : laneRun be lane = nbytes

theorem lanes_all : ∀ lane < 8, ∀ nbytes ∈ [1, 2, 4], nbytes ∣ lane →
    let be : Byte := operationMaskBe.getD (min nbytes 4) 0 <<< lane
    be ≠ 0#8 ∧ writeCase be = some (lane / nbytes, nbytes) ∧
      readCase be = some (lane / nbytes, nbytes) ∧ firstLane be = lane ∧
      laneRun be lane = nbytes := by
  decide

theorem Aligned.dvd_lane {addr : ULong} {nbytes : Nat} (h : Aligned addr nbytes) :
    nbytes ∣ laneOf addr := by
  rw [laneOf_eq]
  have h8 : nbytes ∣ 8 := by rcases h.width with rfl | rfl | rfl <;> decide
  exact (Nat.dvd_mod_iff h8).mpr h.aligned

/-- An aligned access stays inside its word. -/
theorem Aligned.lane_add_le {addr : ULong} {nbytes : Nat} (h : Aligned addr nbytes) :
    laneOf addr + nbytes ≤ 8 := by
  have hlt := laneOf_lt addr
  obtain ⟨q, hq⟩ := h.dvd_lane
  rcases h.width with rfl | rfl | rfl <;> omega

theorem Aligned.lanes {addr : ULong} {nbytes : Nat} (h : Aligned addr nbytes) :
    Lanes (beOf addr nbytes) (laneOf addr) nbytes := by
  have hmem : nbytes ∈ [1, 2, 4] := by rcases h.width with rfl | rfl | rfl <;> decide
  obtain ⟨h1, h2, h3, h4, h5⟩ := lanes_all _ (laneOf_lt addr) nbytes hmem h.dvd_lane
  exact ⟨h1, h2, h3, h4, h5⟩

/-- A request that carries an aligned access of `nbytes` bytes: as `send_req` made it, up to its
    address. -/
structure Carries (req : VciRequest) (nodeId : Nat) (tid : Byte) (addr : ULong)
    (data : Nat → Byte) (nbytes : Nat) (bWrite : Bool) : Prop where
  srcid : req.srcid = BitVec.ofNat 16 nodeId
  trdid : req.trdid = tid
  cmd : req.cmd = if bWrite then CMD_WRITE else CMD_READ
  be : req.be = beOf addr nbytes
  wdata : req.wdata = (sendReq nodeId tid addr data nbytes bWrite).wdata
  plen : req.plen = BitVec.ofNat 8 ((nbytes + 3) / 4)
  aligned : Aligned addr nbytes

section Carries

variable {req : VciRequest} {nodeId : Nat} {tid : Byte} {addr : ULong} {data : Nat → Byte}
  {nbytes : Nat} {bWrite : Bool}

theorem cmd_eq_write_iff (h : Carries req nodeId tid addr data nbytes bWrite) :
    req.cmd = CMD_WRITE ↔ bWrite = true := by
  rw [h.cmd]
  cases bWrite <;> simp [CMD_READ, CMD_WRITE]

/-- **Decoding undoes encoding**: the bytes and the data of the access arrive. -/
theorem accessOf_eq (h : Carries req nodeId tid addr data nbytes bWrite) :
    (accessOf req).ofs = req.address.toNat + laneOf addr ∧ (accessOf req).nbytes = nbytes ∧
      (accessOf req).bWrite = bWrite ∧
      (bWrite = true → ∀ i < nbytes, (accessOf req).data i = data i) := by
  have hl := h.aligned.lanes
  have hw : (accessOf req).bWrite = bWrite := by
    have hiff := cmd_eq_write_iff h
    show (req.cmd == CMD_WRITE) = bWrite
    rw [Bool.eq_iff_iff, beq_iff_eq]
    exact hiff
  refine ⟨?_, ?_, hw, fun hb i hi => ?_⟩
  · show req.address.toNat + firstLane req.be = _
    rw [h.be, hl.first]
  · show laneRun req.be (firstLane req.be) = _
    rw [h.be, hl.first, hl.run]
  · have hle := h.aligned.lane_add_le
    have h4 : nbytes ≤ 4 := by rcases h.aligned.width with rfl | rfl | rfl <;> decide
    have hlane : laneOf addr + i < 8 := by omega
    simp only [accessOf, h.be, hl.first, hlane, dif_pos, h.wdata, sendReq, hb, Bool.true_and,
      Nat.min_eq_left h4]
    rw [if_pos (by simp; omega)]
    congr 1
    omega

/-- The switch picks the lanes of an aligned access. -/
theorem Aligned.mul_div {addr : ULong} {nbytes : Nat} (h : Aligned addr nbytes) :
    nbytes * (laneOf addr / nbytes) = laneOf addr := Nat.mul_div_cancel' h.dvd_lane

/-- **An aligned write inside the device** stores its bytes and nothing else. -/
theorem rcvRqst_write (h : Carries req nodeId tid addr data nbytes true) (d : MemDevice)
    (hin : (accessOf req).Inside d.size) :
    d.rcvRqst req = ({ d with mem := (accessOf req).stores.apply d.mem }, false) := by
  obtain ⟨hofs, hn, hw, -⟩ := accessOf_eq h
  have hl := h.aligned.lanes
  have hle := h.aligned.lane_add_le
  rw [MemAccess.Inside, hofs, hn] at hin
  have hsize : ¬ d.size < req.address := by
    rw [BitVec.lt_def]
    omega
  have hbe : (beOf addr nbytes == 0#8) = false := by simpa using hl.pos
  have hlanes : lanesWrite req.address.toNat (laneOf addr) nbytes req.wdata =
      (accessOf req).stores := by
    funext b
    simp only [lanesWrite, MemAccess.stores, hofs, hn, hw, true_and]
    by_cases hb : req.address.toNat + laneOf addr ≤ b ∧ b < req.address.toNat + laneOf addr + nbytes
    · rw [dif_pos ⟨hb.1, hb.2, by omega⟩, if_pos hb]
      simp only [accessOf, h.be, hl.first]
      rw [dif_pos (by omega)]
      congr 3
      omega
    · rw [dif_neg fun hb' => hb ⟨hb'.1, hb'.2.1⟩, if_neg hb]
  simp only [MemDevice.rcvRqst, h.cmd, if_true, MemDevice.write, hsize, h.be, hbe, decide_false,
    Bool.or_self, Bool.false_eq_true, if_false, hl.write, h.aligned.mul_div, hlanes]

/-- **An aligned read inside the device** changes no byte, and finds its bytes in its lanes. -/
theorem rcvRqst_read (h : Carries req nodeId tid addr data nbytes false) (d : MemDevice)
    (hin : (accessOf req).Inside d.size) : ∃ rdata,
    d.rcvRqst req = ({ d with rdata := rdata }, false) ∧
      ∀ i < nbytes, ∀ hi : laneOf addr + i < 8,
        rdata ⟨laneOf addr + i, hi⟩ = d.mem ((accessOf req).ofs + i) := by
  obtain ⟨hofs, hn, hw, -⟩ := accessOf_eq h
  have hl := h.aligned.lanes
  rw [MemAccess.Inside, hofs, hn] at hin
  have hpos : 0 < nbytes := by rcases h.aligned.width with rfl | rfl | rfl <;> decide
  have hsize : ¬ d.size ≤ req.address := by
    rw [BitVec.le_def]
    omega
  have hbe : (beOf addr nbytes == 0#8) = false := by simpa using hl.pos
  have hcmd : ¬ CMD_READ = CMD_WRITE := by decide
  have hplen : ¬ 1#8 < req.plen := by
    rw [h.plen]
    rcases h.aligned.width with rfl | rfl | rfl <;> decide
  refine ⟨fun j => if laneOf addr ≤ j.val ∧ j.val < laneOf addr + nbytes then
    d.mem (req.address.toNat + j.val) else d.rdata j, ?_, fun i hi h8 => ?_⟩
  · simp only [MemDevice.rcvRqst, h.cmd, Bool.false_eq_true, if_false, hcmd, MemDevice.read, hplen,
      hsize, h.be, hbe, decide_false, Bool.or_self, hl.read, h.aligned.mul_div]
  · simp only [Nat.le_add_right, Nat.add_lt_add_left hi, and_self, if_true, hofs, Nat.add_assoc]

theorem byteOf_append (b₃ b₂ b₁ b₀ : Byte) :
    byteOf (b₃ ++ b₂ ++ b₁ ++ b₀) 0 = b₀ ∧ byteOf (b₃ ++ b₂ ++ b₁ ++ b₀) 1 = b₁ ∧
      byteOf (b₃ ++ b₂ ++ b₁ ++ b₀) 2 = b₂ ∧ byteOf (b₃ ++ b₂ ++ b₁ ++ b₀) 3 = b₃ := by
  refine ⟨?_, ?_, ?_, ?_⟩ <;> ext j hj <;>
    simp only [byteOf, BitVec.getElem_extractLsb', BitVec.getLsbD_append] <;> grind

/-- The response thread passes on the lanes of the access. -/
theorem responseThread_lanes (h : Carries req nodeId tid addr data nbytes bWrite)
    (hid : (BitVec.ofNat 16 nodeId).toNat = nodeId) (rdata : Fin 8 → Byte) (bErr : Bool) :
    ∃ v, responseThread nodeId (slaveRsp req rdata bErr) = some (tid, v) ∧
      ∀ i < nbytes, ∀ hi : laneOf addr + i < 8, byteOf v i = rdata ⟨laneOf addr + i, hi⟩ := by
  have hl := h.aligned.lanes
  generalize hrsp : slaveRsp req rdata bErr = rsp
  have hr : responseThread nodeId rsp = some (tid,
      rspByte rsp (laneOf addr + 3) ++ rspByte rsp (laneOf addr + 2) ++
        rspByte rsp (laneOf addr + 1) ++ rspByte rsp (laneOf addr)) := by
    have hsrc : rsp.rsrcid.toNat = nodeId := by rw [← hrsp, slaveRsp, h.srcid, hid]
    have hreop : rsp.reop = true := by rw [← hrsp]; rfl
    have hbe : rsp.rbe = beOf addr nbytes := by rw [← hrsp, slaveRsp, h.be]
    have htid : rsp.rtrdid = tid := by rw [← hrsp, slaveRsp, h.trdid]
    simp [responseThread, hsrc, hreop, hbe, htid, hl.first]
  refine ⟨_, hr, fun i hi h8 => ?_⟩
  have hbyte : rspByte rsp (laneOf addr + i) = rdata ⟨laneOf addr + i, h8⟩ := by
    rw [rspByte, dif_pos h8, ← hrsp]
    rfl
  obtain ⟨h0, h1, h2, h3⟩ := byteOf_append (rspByte rsp (laneOf addr + 3))
    (rspByte rsp (laneOf addr + 2)) (rspByte rsp (laneOf addr + 1)) (rspByte rsp (laneOf addr))
  have h4 : i < 4 := by rcases h.aligned.width with rfl | rfl | rfl <;> omega
  rw [← hbyte]
  match i, h4 with
  | 0, _ => exact h0
  | 1, _ => exact h1
  | 2, _ => exact h2
  | 3, _ => exact h3

end Carries

end Rabbits
