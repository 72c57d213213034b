/-
  File:      Rabbits/Noc/SendReq.lean
  Subject:   The lanes of a request (master_device.cpp: send_req).

  `send_req` puts an access of 1, 2 or 4 bytes at any address into one word of 8 bytes: the lanes of
  an access that reaches past the word are shifted out of `be`, and its data is stored past `wdata`.

  * `wdataIndices` -- the indices at which `send_req` stores;
  * `Denotes` -- the request says exactly the bytes of the access, and carries their data;
  * `sendReq_denotes_iff` -- **for which accesses it does**: those that stay inside their word.
-/
import Rabbits.Noc.MasterDevice

namespace Rabbits

/-- The indices `i + ofs` at which the loop of `send_req` stores into `req.wdata`. -/
def wdataIndices (addr : ULong) (nbytes : Nat) (bWrite : Bool) : List Nat :=
  if bWrite then (List.range (min nbytes 4)).map (· + laneOf addr) else []

/-- The request of an access denotes its bytes: lane `k` of the word at its address is enabled
    exactly if it is one of them, each of them has a lane, and a write carries their data. -/
structure Denotes (req : VciRequest) (stored : List Nat) (addr : ULong) (data : Nat → Byte)
    (nbytes : Nat) (bWrite : Bool) : Prop where
  inside : ∀ i ∈ stored, i ≤ 7
  lane : ∀ k < 8, req.be.getLsbD k = true ↔
    ∃ i < nbytes, req.address + BitVec.ofNat 32 k = addr + BitVec.ofNat 32 i
  covered : ∀ i < nbytes, ∃ k < 8, req.be.getLsbD k = true ∧
    req.address + BitVec.ofNat 32 k = addr + BitVec.ofNat 32 i
  data : bWrite = true → ∀ k : Fin 8, req.be.getLsbD k = true →
    req.wdata k = data (req.address + BitVec.ofNat 32 k - addr).toNat

/-- The lanes that `send_req` enables. -/
theorem getLsbD_be : ∀ lane < 8, ∀ nbytes ∈ [1, 2, 4], ∀ k < 8,
    ((operationMaskBe.getD (min nbytes 4) 0 <<< lane).getLsbD k = true ↔
      lane ≤ k ∧ k < lane + nbytes) := by
  decide

/-- The address of the word, and the lane in it. -/
theorem word_add_lane (addr : ULong) :
    (addr &&& 0xFFFFFFF8#32) + BitVec.ofNat 32 (laneOf addr) = addr := by
  have hmask : (addr &&& 0xFFFFFFF8#32).toNat = addr.toNat / 8 * 8 := toNat_and_mask addr 3
  apply BitVec.eq_of_toNat_eq
  rw [BitVec.toNat_add, hmask, BitVec.toNat_ofNat, laneOf_eq]
  omega

/-- A lane of the word against a byte of the access. -/
theorem word_add_eq_iff (addr : ULong) {k i : Nat} (hk : k < 8) (hi : i < 4) :
    (addr &&& 0xFFFFFFF8#32) + BitVec.ofNat 32 k = addr + BitVec.ofNat 32 i ↔
      k = laneOf addr + i := by
  have hlane := laneOf_lt addr
  generalize hword : addr &&& 0xFFFFFFF8#32 = word
  have haddr := word_add_lane addr
  rw [hword] at haddr
  rw [← haddr, BitVec.add_assoc, BitVec.add_right_inj, ← BitVec.ofNat_add, haddr]
  constructor
  · intro h
    have hnat := congrArg BitVec.toNat h
    simp only [BitVec.toNat_ofNat] at hnat
    omega
  · intro h
    rw [h]

section

variable {nodeId : Nat} {tid : Byte} {addr : ULong} {data : Nat → Byte} {nbytes : Nat}
  {bWrite : Bool}

theorem sendReq_be (hn : nbytes = 1 ∨ nbytes = 2 ∨ nbytes = 4) {k : Nat} (hk : k < 8) :
    (sendReq nodeId tid addr data nbytes bWrite).be.getLsbD k = true ↔
      laneOf addr ≤ k ∧ k < laneOf addr + nbytes := by
  have hmem : nbytes ∈ [1, 2, 4] := by rcases hn with rfl | rfl | rfl <;> decide
  exact getLsbD_be _ (laneOf_lt addr) nbytes hmem k hk

/-- **For which accesses the request denotes its bytes**, with any data: exactly those that do not
    reach past their word. -/
theorem sendReq_denotes_iff (nodeId : Nat) (tid : Byte) (addr : ULong) (data : Nat → Byte)
    (bWrite : Bool) (hn : nbytes = 1 ∨ nbytes = 2 ∨ nbytes = 4) :
    Denotes (sendReq nodeId tid addr data nbytes bWrite) (wdataIndices addr nbytes bWrite) addr data
        nbytes bWrite ↔ laneOf addr + nbytes ≤ 8 := by
  have h4 : nbytes ≤ 4 := by rcases hn with rfl | rfl | rfl <;> decide
  have hpos : 0 < nbytes := by rcases hn with rfl | rfl | rfl <;> decide
  constructor
  · intro h
    -- the last byte of the access has a lane
    obtain ⟨k, hk, -, heq⟩ := h.covered (nbytes - 1) (by omega)
    have hlast := (word_add_eq_iff addr hk (by omega)).mp heq
    omega
  · intro h
    refine ⟨fun i hi => ?_, fun k hk => ?_, fun i hi => ?_, fun hw k hbe => ?_⟩
    · unfold wdataIndices at hi
      split at hi
      · obtain ⟨j, hj, rfl⟩ := List.mem_map.mp hi
        have hlt := List.mem_range.mp hj
        omega
      · cases hi
    · rw [sendReq_be hn hk]
      constructor
      · intro hyp
        exact ⟨k - laneOf addr, by omega, (word_add_eq_iff addr hk (by omega)).mpr (by omega)⟩
      · intro hyp
        obtain ⟨i, hi, heq⟩ := hyp
        have hki := (word_add_eq_iff addr hk (by omega)).mp heq
        omega
    · have hk : laneOf addr + i < 8 := by omega
      exact ⟨laneOf addr + i, hk, (sendReq_be hn hk).mpr (by omega),
        (word_add_eq_iff addr hk (by omega)).mpr rfl⟩
    · have hlanes := (sendReq_be hn k.isLt).mp hbe
      have hk := (word_add_eq_iff addr k.isLt (i := k.val - laneOf addr) (by omega)).mpr (by omega)
      have hofs : ((addr &&& 0xFFFFFFF8#32) + BitVec.ofNat 32 k.val - addr).toNat =
          k.val - laneOf addr := by
        rw [hk, BitVec.add_comm, BitVec.add_sub_cancel, BitVec.toNat_ofNat]
        omega
      show (if bWrite && decide (laneOf addr ≤ k.val) && decide (k.val < laneOf addr + min nbytes 4)
        then data (k.val - laneOf addr) else 0#8) = data _
      have hmin : k.val < laneOf addr + min nbytes 4 := by omega
      simp only [sendReq, hofs, hw, hlanes.1, hmin, decide_true, Bool.and_self, if_true]

theorem sendReq_denotes_iff_word :
    Denotes (sendReq 3 0#8 0x1004#32 (fun _ => 0xAB#8) 4 true) (wdataIndices 0x1004#32 4 true)
      0x1004#32 (fun _ => 0xAB#8) 4 true ↔ laneOf 0x1004#32 + 4 ≤ 8 :=
  sendReq_denotes_iff 3 0#8 0x1004#32 _ true (.inr (.inr rfl))

/-- A word written to a buffer at 0x1005 is stored up to index 8, and loses its last byte. -/
theorem unaligned_word_lost :
    8 ∈ wdataIndices 0x1005#32 4 true ∧ (∀ data : Nat → Byte, ¬ Denotes
      (sendReq 3 0#8 0x1005#32 data 4 true) (wdataIndices 0x1005#32 4 true) 0x1005#32 data 4
        true) := by
  refine ⟨by decide, fun data h => ?_⟩
  exact absurd (h.inside 8 (by decide)) (by decide)

end

end Rabbits
