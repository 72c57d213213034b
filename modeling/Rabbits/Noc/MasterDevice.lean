/-
  File:      Rabbits/Noc/MasterDevice.lean
  Subject:   What every bus master does with its requests and responses (master_device.cpp).

  * `sendReq` -- the request that `send_req` puts for an access: lane 0 of the 8-byte word is the
    lowest address, and `be` has a bit for every lane of the access;
  * `responseThread` -- what `response_thread` passes to `rcv_rsp`: the tid and the four bytes that
    start at the first lane of the response.

  The four bytes may reach past `rdata` into the fields behind it; `rspByte` follows the layout of
  `vci_response`. A lane past 7 is outside `wdata`, and `sendReq` leaves it out.
-/
import Rabbits.Noc.Vci

namespace Rabbits

/-- `s_operation_mask_be`. -/
def operationMaskBe : List Byte := [0xDE, 0x01, 0x03, 0xDE, 0x0F, 0xDE, 0xDE, 0xDE, 0xFF]

/-- Byte `i` of an `unsigned long` in memory. -/
def byteOf (x : ULong) (i : Nat) : Byte := x.extractLsb' (8 * i) 8

/-- Four bytes in memory as an `unsigned long`. -/
def ulongOf (b : Nat → Byte) : ULong := b 3 ++ b 2 ++ b 1 ++ b 0

theorem ulongOf_byteOf (x : ULong) : ulongOf (byteOf x) = x := by
  ext j hj
  simp only [ulongOf, byteOf]
  grind

theorem ulongOf_congr {b b' : Nat → Byte} (h : ∀ j < 4, b j = b' j) : ulongOf b = ulongOf b' := by
  unfold ulongOf
  rw [h 0 (by decide), h 1 (by decide), h 2 (by decide), h 3 (by decide)]

/-- The data of a word, in both halves of the bus. -/
def wordData (x : ULong) : Fin 8 → Byte := fun j => byteOf x (j.val % 4)

/-- `addr & 0x7`. -/
def laneOf (addr : ULong) : Nat := (addr &&& 0x7#32).toNat

theorem laneOf_eq (addr : ULong) : laneOf addr = addr.toNat % 8 := by
  rw [laneOf, BitVec.toNat_and]
  exact Nat.and_two_pow_sub_one_eq_mod addr.toNat 3

theorem laneOf_lt (addr : ULong) : laneOf addr < 8 := by
  rw [laneOf_eq]
  exact Nat.mod_lt _ (by decide)

/-- Masking the lower bits rounds down. -/
theorem toNat_and_mask (x : BitVec 32) (k : Nat) :
    (x &&& BitVec.allOnes 32 <<< k).toNat = x.toNat / 2 ^ k * 2 ^ k := by
  have hshift : x &&& BitVec.allOnes 32 <<< k = (x >>> k) <<< k := by
    ext i hi
    simp only [BitVec.getElem_and, BitVec.getElem_shiftLeft, BitVec.getElem_allOnes]
    by_cases h : i < k
    · simp [h]
    · simp [h]
      congr 1
      omega
  have hle := Nat.div_mul_le_self x.toNat (2 ^ k)
  rw [hshift, BitVec.toNat_shiftLeft, BitVec.toNat_ushiftRight, Nat.shiftLeft_eq,
    Nat.shiftRight_eq_div_pow]
  exact Nat.mod_eq_of_lt (by omega)

/-- `send_req`. -/
def sendReq (nodeId : Nat) (tid : Byte) (addr : ULong) (data : Nat → Byte) (nbytes : Nat)
    (bWrite : Bool) : VciRequest where
  address := addr &&& 0xFFFFFFF8#32
  be := operationMaskBe.getD (min nbytes 4) 0 <<< laneOf addr
  cmd := if bWrite then CMD_WRITE else CMD_READ
  wdata j :=
    if bWrite && laneOf addr ≤ j.val && j.val < laneOf addr + min nbytes 4 then
      data (j.val - laneOf addr)
    else 0#8
  eop := true
  plen := BitVec.ofNat 8 ((nbytes + 3) / 4)
  srcid := BitVec.ofNat 16 nodeId
  trdid := tid
  initialAddress := 0#32
  slaveId := 0

/-- The loop that shifts `be` to its first set bit, for a `be` that is not 0. -/
def firstLane (be : Byte) : Nat := ((List.range 8).find? (be.getLsbD ·)).getD 0

/-- A byte of a `vci_response`, counted from `rdata`. -/
def rspByte (rsp : VciResponse) (i : Nat) : Byte :=
  if h : i < 8 then rsp.rdata ⟨i, h⟩
  else if i = 8 then (if rsp.reop then 1#8 else 0#8)
  else if i = 9 then (if rsp.rerror then 1#8 else 0#8)
  else if i = 10 then rsp.rsrcid.extractLsb' 0 8
  else rsp.rsrcid.extractLsb' 8 8

/-- `response_thread` with one response: it is dropped when it is for another master or is not the
    end of its packet. -/
def responseThread (nodeId : Nat) (rsp : VciResponse) : Option (Byte × ULong) :=
  if rsp.rsrcid.toNat ≠ nodeId then none
  else if !rsp.reop then none
  else
    let ofs := firstLane rsp.rbe
    some (rsp.rtrdid,
      rspByte rsp (ofs + 3) ++ rspByte rsp (ofs + 2) ++ rspByte rsp (ofs + 1) ++ rspByte rsp ofs)

end Rabbits
