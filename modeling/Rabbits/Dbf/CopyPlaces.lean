/-
  File:      Rabbits/Dbf/CopyPlaces.lean
  Subject:   Where the words of a copy are stored (dbf_device.cpp: SEND_PACK, master_request;
             mem_device.cpp: write).

  A word goes to the lower or the upper half of the bus. The half is that of the address; the address
  of the request is that of the whole bus word only where it is incremented.

  * `SramCopy.InStep` -- the half is that of the address, which each word keeps;
  * `WordsPlaced` -- **the property**: the word `k` at the destination, or 4 `k` bytes behind it;
  * `wordsPlaced_iff` -- **it holds exactly with increments, or at a multiple of 8**;
  * `write_sendPack` -- a memory stores a word where its lanes say.
-/
import Rabbits.Dbf.CopyScan
import Rabbits.Dbf.LinkIndices
import Rabbits.Mem.MemDevice
import Rabbits.Noc.SendReq

namespace Rabbits

open Lib

/-! ## 1. Places -/

/-- The four bytes of the memory at `regAddr`, stored at `dest`. -/
def wordStores (d : DbfDevice) (regAddr : Nat) (dest : ULong) : List (ULong × Byte) :=
  (List.range 4).map fun i => (dest + BitVec.ofNat 32 i, d.mData (regAddr + i))

/-- Where the word `k` of a copy belongs. -/
def DbfDevice.wordDest (d : DbfDevice) (k : Nat) : ULong :=
  if d.mData REG_INC_ADDRESS ≠ 0#8 then d.adrDest + BitVec.ofNat 32 (4 * k) else d.adrDest

/-- Each word of a copy stores its four bytes there, and no other ones. -/
def WordsPlaced (d : DbfDevice) (words : List VciRequest) : Prop :=
  ∀ k w, words[k]? = some w → ∃ regAddr, (copyAddrs d.height d.width)[k]? = some regAddr ∧
    w.stores = wordStores d regAddr (d.wordDest k)

/-- The half of the bus is that of the address. -/
def SramCopy.InStep (c : SramCopy) : Prop := c.lane = laneOf c.adrDest

/-! ## 2. One word -/

variable {d d' : DbfDevice} {c : SramCopy}

theorem sendPack_stores (d : DbfDevice) (c : SramCopy) (req : VciRequest) (regAddr : Nat) :
    (sendPack d c req regAddr).stores =
      wordStores d regAddr ((sendPack d c req regAddr).address + BitVec.ofNat 32 c.lane) := by
  have hmap := map_sendPack_lanes d c req regAddr fun j b =>
    ((sendPack d c req regAddr).address + BitVec.ofNat 32 j, b)
  refine hmap.trans (List.map_congr_left fun i _ => ?_)
  rw [BitVec.ofNat_add, BitVec.add_assoc]

/-- With increments a word in step is stored at its address. -/
theorem sendPack_stores_inc (hc : c.InStep) (hinc : c.bIncrementAddress = true) (req : VciRequest)
    (regAddr : Nat) : (sendPack d c req regAddr).stores = wordStores d regAddr c.adrDest := by
  have haddr : (sendPack d c req regAddr).address = c.adrDest &&& 0xFFFFFFF8#32 := if_pos hinc
  rw [sendPack_stores, haddr, hc, word_add_lane]

theorem laneOf_add_four {a : ULong} (h : laneOf a = 0 ∨ laneOf a = 4) :
    laneOf (a + 4#32) = 4 - laneOf a := by
  rw [laneOf_eq] at h
  rw [laneOf_eq, laneOf_eq, BitVec.toNat_add]
  simp only [BitVec.toNat_ofNat]
  omega

/-- The next word is in step. -/
theorem SramCopy.InStep.next (hc : c.InStep) (hinc : c.bIncrementAddress = true) (rest : List Nat) :
    (c.next rest).InStep := by
  have hlane : c.lane = 0 ∨ c.lane = 4 := by
    unfold SramCopy.lane
    split <;> simp
  have hnext : c.next rest = { c with adrDest := c.adrDest + 4, b8alg := !c.b8alg, rest := rest } :=
    if_pos hinc
  have htoggle : (c.next rest).lane = 4 - c.lane := by
    rw [hnext, SramCopy.lane, SramCopy.lane]
    cases c.b8alg <;> rfl
  rw [SramCopy.InStep] at hc ⊢
  rw [htoggle, hc, hnext]
  exact (laneOf_add_four (hc ▸ hlane)).symm

/-- Without increments a word is stored behind the address, by its lane. -/
theorem sendPack_stores_fixed (hinc : c.bIncrementAddress = false) (req : VciRequest)
    (regAddr : Nat) : (sendPack d c req regAddr).stores =
      wordStores d regAddr (c.adrDest + BitVec.ofNat 32 c.lane) := by
  have haddr : (sendPack d c req regAddr).address = c.adrDest :=
    if_neg (Bool.eq_false_iff.mp hinc)
  rw [sendPack_stores, haddr]

/-! ## 3. All words -/

/-- **With increments**: 4 bytes further with every word, from either half on. -/
theorem putWords_stores_inc (addrs : List Nat) (hc : c.InStep) (hinc : c.bIncrementAddress = true)
    (req : VciRequest) {k : Nat} {w : VciRequest} (hw : (putWords d addrs c req)[k]? = some w) :
    ∃ regAddr, addrs[k]? = some regAddr ∧
      w.stores = wordStores d regAddr (c.adrDest + BitVec.ofNat 32 (4 * k)) := by
  induction addrs generalizing c req k with
  | nil => cases hw
  | cons a addrs ih =>
      cases k with
      | zero =>
          cases hw
          exact ⟨a, rfl, by rw [sendPack_stores_inc hc hinc, Nat.mul_zero, BitVec.add_zero]⟩
      | succ k =>
          have hnext : (c.next addrs).adrDest = c.adrDest + 4 ∧
              (c.next addrs).bIncrementAddress = true := by
            rw [SramCopy.next, if_pos hinc]
            exact ⟨rfl, hinc⟩
          obtain ⟨regAddr, hget, hstores⟩ := ih (hc.next hinc addrs) hnext.2 _ hw
          refine ⟨regAddr, hget, ?_⟩
          rw [hstores, hnext.1, Nat.mul_succ, Nat.add_comm, BitVec.ofNat_add, BitVec.add_assoc]
          rfl

/-- Without, all words at one place. -/
theorem putWords_stores_fixed (addrs : List Nat) (hinc : c.bIncrementAddress = false)
    (req : VciRequest) {k : Nat} {w : VciRequest} (hw : (putWords d addrs c req)[k]? = some w) :
    ∃ regAddr, addrs[k]? = some regAddr ∧
      w.stores = wordStores d regAddr (c.adrDest + BitVec.ofNat 32 c.lane) := by
  induction addrs generalizing c req k with
  | nil => cases hw
  | cons a addrs ih =>
      cases k with
      | zero =>
          cases hw
          exact ⟨a, rfl, sendPack_stores_fixed hinc req a⟩
      | succ k =>
          have hnext : c.next addrs = { c with rest := addrs } :=
            if_neg (Bool.eq_false_iff.mp hinc)
          have hw' : (putWords d addrs (c.next addrs) (sendPack d c req a))[k]? = some w := hw
          rw [hnext] at hw'
          exact ih (c := { c with rest := addrs }) hinc _ hw'

/-! ## 4. Which copies are placed right -/

theorem wordStores_inj {a : Nat} {dest dest' : ULong}
    (h : wordStores d a dest = wordStores d a dest') : dest = dest' := by
  have hhead := congrArg List.head? h
  simpa [wordStores, List.range_succ] using hhead

theorem laneOf_of_aligned {a : ULong} (h : a &&& 0x3#32 = 0#32) : laneOf a = 0 ∨ laneOf a = 4 := by
  have hmod : a.toNat % 4 = 0 := by
    have hnat := congrArg BitVec.toNat h
    rw [BitVec.toNat_and] at hnat
    exact (Nat.and_two_pow_sub_one_eq_mod a.toNat 2).symm.trans hnat
  rw [laneOf_eq]
  omega

theorem laneOf_eq_zero_iff {a : ULong} : a &&& 0x7#32 = 0#32 ↔ laneOf a = 0 :=
  ⟨fun h => congrArg BitVec.toNat h, fun h => BitVec.eq_of_toNat_eq h⟩

/-- The lane of the first word. -/
theorem start_inStep (h : d.adrDest &&& 0x3#32 = 0#32) (inc : Bool) (rest : List Nat) :
    (⟨d.adrDest, d.adrDest &&& 0x7#32 = 0#32, inc, rest⟩ : SramCopy).InStep := by
  simp only [SramCopy.InStep, SramCopy.lane, laneOf_eq_zero_iff, decide_eq_true_eq]
  rcases laneOf_of_aligned h with h0 | h4
  · rw [if_pos h0, h0]
  · rw [if_neg (by omega), h4]

/-- Every copy has a first word. -/
theorem copyWords_head (d : DbfDevice) (req : VciRequest) : ∃ w, (d.copyWords req)[0]? = some w := by
  have hsize : ∀ f < 4, 0 < picHeight f / MbWidth ∧ 0 < picWidth f / MbWidth := by decide
  have hmem := DbfCode.row_mem_copyAddrs (hsize _ d.format_lt).1 (hsize _ d.format_lt).2
  rw [DbfDevice.copyWords, DbfDevice.height, DbfDevice.width]
  cases h : copyAddrs (picHeight d.format / MbWidth) (picWidth d.format / MbWidth) with
  | nil =>
      rw [h] at hmem
      cases hmem
  | cons a rest => exact ⟨_, rfl⟩

theorem placed_of_inc (h : d.adrDest &&& 0x3#32 = 0#32) (hinc : d.mData REG_INC_ADDRESS ≠ 0#8)
    (req : VciRequest) : WordsPlaced d (d.copyWords req) := by
  intro k w hw
  obtain ⟨regAddr, hget, hstores⟩ :=
    putWords_stores_inc _ (start_inStep h _ _) (decide_eq_true hinc) req hw
  refine ⟨regAddr, hget, ?_⟩
  rw [hstores, DbfDevice.wordDest, if_pos hinc]

/-- Without increments every word is stored behind the destination, by its lane. -/
theorem stores_of_fixed (h : d.adrDest &&& 0x3#32 = 0#32) (hinc : ¬ d.mData REG_INC_ADDRESS ≠ 0#8)
    {req : VciRequest} {k : Nat} {w : VciRequest} (hw : (d.copyWords req)[k]? = some w) :
    ∃ regAddr, (copyAddrs d.height d.width)[k]? = some regAddr ∧
      w.stores = wordStores d regAddr (d.wordDest k + BitVec.ofNat 32 (laneOf d.adrDest)) := by
  obtain ⟨regAddr, hget, hstores⟩ := putWords_stores_fixed _ (decide_eq_false hinc) req hw
  refine ⟨regAddr, hget, ?_⟩
  rw [hstores, start_inStep h, DbfDevice.wordDest, if_neg hinc]

theorem placed_fixed_iff (h : d.adrDest &&& 0x3#32 = 0#32)
    (hinc : ¬ d.mData REG_INC_ADDRESS ≠ 0#8) (req : VciRequest) :
    WordsPlaced d (d.copyWords req) ↔ laneOf d.adrDest = 0 := by
  constructor
  · intro hplaced
    obtain ⟨w, hw⟩ := copyWords_head d req
    obtain ⟨regAddr, hget, hright⟩ := hplaced 0 w hw
    obtain ⟨regAddr', hget', hstores⟩ := stores_of_fixed h hinc hw
    cases hget.symm.trans hget'
    have hplace : d.wordDest 0 + BitVec.ofNat 32 (laneOf d.adrDest) = d.wordDest 0 :=
      wordStores_inj (hstores.symm.trans hright)
    have hlt := laneOf_lt d.adrDest
    have hnat := congrArg BitVec.toNat hplace
    simp only [BitVec.toNat_add, BitVec.toNat_ofNat] at hnat
    omega
  · intro hlane k w hw
    obtain ⟨regAddr, hget, hstores⟩ := stores_of_fixed h hinc hw
    rw [hlane, BitVec.add_zero] at hstores
    exact ⟨regAddr, hget, hstores⟩

/-- **Which copies are placed right**: for every memory and every copy of it, those with increments,
    and those to a multiple of 8. -/
theorem wordsPlaced_iff {req : VciRequest} {words : List VciRequest}
    (h : (masterRequestWords req).run d = some (words, d')) :
    WordsPlaced d words ↔ d.mData REG_INC_ADDRESS ≠ 0#8 ∨ d.adrDest &&& 0x7#32 = 0#32 := by
  obtain ⟨haligned, rfl⟩ := masterRequestWords_eq_some h
  by_cases hinc : d.mData REG_INC_ADDRESS ≠ 0#8
  · exact iff_of_true (placed_of_inc haligned hinc req) (.inl hinc)
  · rw [or_iff_right hinc, laneOf_eq_zero_iff]
    exact placed_fixed_iff haligned hinc req

/-- A copy to the address 12, with increments. -/
def toTwelve : DbfDevice := (marked.poke REG_SRAM_ADDRESS 12#8).poke REG_INC_ADDRESS 1#8

/-- A copy to the address 0 without increments, and one with them that begins in the upper lanes. -/
theorem wordsPlaced_both :
    (∃ words, (masterRequestWords default).run marked = some (words, marked) ∧
      WordsPlaced marked words) ∧
    ∃ words, (masterRequestWords default).run toTwelve = some (words, toTwelve) ∧
      WordsPlaced toTwelve words := by
  have hrun := masterRequestWords_run (d := marked) (by decide) default
  have hrun' := masterRequestWords_run (d := toTwelve) (by decide) default
  exact ⟨⟨_, hrun, (wordsPlaced_iff hrun).mpr (.inr (by decide))⟩, _, hrun',
    (wordsPlaced_iff hrun').mpr (.inl (by decide))⟩

/-- A copy to the address 4, without increments. -/
def toFour : DbfDevice := DbfDevice.new.poke REG_SRAM_ADDRESS 4#8

/-- Each of its words is stored at the address 8. -/
theorem placed_fails : toFour.adrDest = 4#32 ∧
    (masterRequestWords default).run toFour = some (toFour.copyWords default, toFour) ∧
    ¬ WordsPlaced toFour (toFour.copyWords default) := by
  have haligned : toFour.adrDest &&& 0x3#32 = 0#32 := by decide
  refine ⟨by decide, masterRequestWords_run haligned default, fun hplaced => ?_⟩
  exact absurd ((placed_fixed_iff haligned (by decide) default).mp hplaced) (by decide)

/-! ## 5. A memory behind the bus -/

/-- The lanes of a word, as the memory stores them. -/
theorem lanesWrite_sendPack (ofs : Nat) (d : DbfDevice) (c : SramCopy) (req : VciRequest)
    (regAddr : Nat) : lanesWrite ofs c.lane 4 (sendPack d c req regAddr).wdata =
      rangeWrite (ofs + c.lane) 4 fun i => d.mData (regAddr + i) := by
  have hlane : c.lane = 0 ∧ c.b8alg = true ∨ c.lane = 4 ∧ c.b8alg = false := by
    rw [SramCopy.lane]
    cases c.b8alg <;> simp
  funext b
  rw [lanesWrite, rangeWrite]
  by_cases hb : ofs + c.lane ≤ b ∧ b < ofs + c.lane + 4
  · rw [dif_pos ⟨hb.1, hb.2, by omega⟩, if_pos hb]
    rcases hlane with ⟨h0, hc⟩ | ⟨h4, hc⟩
    · simp only [sendPack, hc, if_true, h0, Nat.add_zero]
      rw [if_pos (by omega)]
    · simp only [sendPack, hc, Bool.false_eq_true, if_false, h4, Nat.sub_add_eq]
      rw [if_pos (by omega)]
  · rw [dif_neg fun h => hb ⟨h.1, h.2.1⟩, if_neg hb]

/-- **A memory stores a word** where its lanes say. -/
theorem write_sendPack (m : MemDevice) (d : DbfDevice) (c : SramCopy) (req : VciRequest)
    (regAddr : Nat) {ofs : ULong} (hofs : ofs ≤ m.size) :
    (m.write ofs (sendPack d c req regAddr).be (sendPack d c req regAddr).wdata).mem =
      (rangeWrite (ofs.toNat + c.lane) 4 fun i => d.mData (regAddr + i)).apply m.mem := by
  have hsize : ¬ m.size < ofs := BitVec.not_lt.mpr hofs
  have hbe : ((sendPack d c req regAddr).be == 0#8) = false := by
    rw [sendPack]
    cases c.b8alg <;> rfl
  have hcase : ∃ i, writeCase (sendPack d c req regAddr).be = some (i, 4) ∧ 4 * i = c.lane := by
    rw [sendPack, SramCopy.lane]
    cases c.b8alg
    · exact ⟨1, rfl, rfl⟩
    · exact ⟨0, rfl, rfl⟩
  obtain ⟨i, hcase, hlane⟩ := hcase
  rw [← lanesWrite_sendPack ofs.toNat d c req, ← hlane, MemDevice.write, hbe, hcase]
  simp [hsize]

end Rabbits
