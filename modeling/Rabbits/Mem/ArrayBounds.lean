/-
  File:      Rabbits/Mem/ArrayBounds.lean
  Subject:   The arrays behind the memories (sram_device.cpp, sem_device.cpp, with mem_device.cpp
             and sl_framebuffer_device.cpp).

  Each device tests the offset of an access against the size of its array, and most of them with
  `>`: the offset past the end goes through, and is refused by the reads of two of them only.

  * `SramDevice`, `SemDevice` -- the two devices, as code over their arrays;
  * `ArrayDevice` -- any of the four devices; `StaysInside` -- an access touches no index past its
    end;
  * `stays_inside_iff` -- **which accesses stay inside**: all but those at the very end, unless their
    lanes are refused.

  A burst read of the memory device touches nothing, but hands out the address of its first byte.
-/
import Rabbits.Fb.SlFbDevice
import Rabbits.Mem.Shapes

namespace Rabbits

open Lib ArrayCode

/-! ## 1. The static memory -/

/-- `sram_device`: `size`, the bytes of `mem`, and `m_rsp.rdata`. -/
structure SramDevice where
  size : ULong
  mem : Nat → Byte
  rdata : Fin 8 → Byte

/-- The `switch` on the width of a read. -/
def loadLanes (ofs i width : Nat) (rdata : Fin 8 → Byte) : ArrayCode Unit Byte (Fin 8 → Byte) :=
  if width = 8 then do
    let lower ← load () ofs 4
    let upper ← load () (ofs + 4) 4
    return fun j => if j.val < 4 then lower j.val else upper (j.val - 4)
  else do
    let val ← load () (ofs + width * i) width
    return fun j =>
      if width * i ≤ j.val ∧ j.val < width * i + width then val (j.val - width * i) else rdata j

namespace SramDevice

/-- The `switch` on `be`, the same in `write` and `read`. -/
def lanesCase (be : Byte) : Option (Nat × Nat) := writeCase be

/-- `write`: `bErr`. -/
def write (d : SramDevice) (ofs : ULong) (be : Byte) (data : Fin 8 → Byte) :
    ArrayCode Unit Byte Bool :=
  if d.size < ofs || be == 0#8 then return true
  else
    match lanesCase be with
    | some (loffs, lwid) => do
        storeLanes ofs.toNat loffs lwid data
        return false
    | none => return true

/-- `read`: `rdata` and `bErr`. -/
def read (d : SramDevice) (ofs : ULong) (be : Byte) :
    ArrayCode Unit Byte ((Fin 8 → Byte) × Bool) :=
  if d.size ≤ ofs || be == 0#8 then return (d.rdata, true)
  else
    match lanesCase be with
    | some (loffs, lwid) => do
        let rdata ← loadLanes ofs.toNat loffs lwid d.rdata
        return (rdata, false)
    | none => return (d.rdata, true)

end SramDevice

/-! ## 2. The semaphores -/

/-- `sem_device`: `size` and the bytes of `mem`. -/
structure SemDevice where
  size : ULong
  mem : Nat → Byte

/-- The constructor adds eight bytes. -/
def SemDevice.new (size : ULong) : SemDevice := ⟨size + 8#32, fun _ => 0#8⟩

namespace SemDevice

/-- The `switch` on `be`, the same in `write` and `read`; the other lanes leave `mod` as 0. -/
def lanesCase (be : Byte) : Option (Nat × Nat) := readCase be

/-- The word of a semaphore is written: taken (1) a second time, it counts as 2; a third time ends
    the program. -/
def writeSem (i : Nat) (newval : ULong) : ArrayCode Unit Byte Unit :=
  if newval = 1#32 then do
    let old ← load () i 4
    let oldval := ulongOf old
    if oldval = 1#32 then store () i 4 (byteOf 2#32)
    else if oldval = 2#32 then exit
    else store () i 4 (byteOf newval)
  else store () i 4 (byteOf newval)

/-- `write`, which leaves `bErr` as false where it returns. -/
def write (d : SemDevice) (ofs : ULong) (be : Byte) (data : Fin 8 → Byte) :
    ArrayCode Unit Byte Unit :=
  if d.size < ofs then exit
  else
    match lanesCase be with
    | some (offsetDd, mod) =>
        if mod = 4 then
          writeSem (ofs.toNat + 4 * offsetDd) (ulongOf fun j => laneData data (4 * offsetDd + j))
        else storeLanes ofs.toNat offsetDd mod data
    | none => exit

/-- The word of a semaphore is read, and taken if it is free. -/
def readSem (i : Nat) : ArrayCode Unit Byte ULong := do
  let b ← load () i 4
  let val := ulongOf b
  if val = 0#32 then
    store () i 4 (byteOf 1#32)
    return val
  else return if val = 2#32 then 1#32 else val

/-- `read`: `rdata`, which starts as 0. -/
def read (d : SemDevice) (ofs : ULong) (be : Byte) : ArrayCode Unit Byte (Fin 8 → Byte) :=
  if d.size < ofs then exit
  else
    match lanesCase be with
    | some (offsetDd, mod) =>
        if mod = 4 then do
          let val ← readSem (ofs.toNat + 4 * offsetDd)
          return fun j =>
            if 4 * offsetDd ≤ j.val ∧ j.val < 4 * offsetDd + 4 then byteOf val (j.val - 4 * offsetDd)
            else 0#8
        else loadLanes ofs.toNat offsetDd mod fun _ => 0#8
    | none => exit

end SemDevice

/-! ## 3. What an access touches -/

section Lanes

variable {mem : Unit → Nat → Byte} {size ofs i width : Nat}

/-- The lanes of a case of a `switch`. -/
structure InWord (i width : Nat) : Prop where
  pos : 0 < width
  le : width * i + width ≤ 8
  whole : width = 8 → i = 0

theorem inWord_writeCase : ∀ be : Byte, ∀ c ∈ writeCase be,
    0 < c.2 ∧ c.2 * c.1 + c.2 ≤ 8 ∧ (c.2 = 8 → c.1 = 0) := by
  decide +kernel

theorem readCase_eq_writeCase : ∀ be : Byte, ∀ c ∈ readCase be, writeCase be = some c := by
  decide +kernel

theorem InWord.of_writeCase {be : Byte} (h : writeCase be = some (i, width)) : InWord i width := by
  obtain ⟨hpos, hle, hwhole⟩ := inWord_writeCase be (i, width) h
  exact ⟨hpos, hle, hwhole⟩

theorem InWord.of_readCase {be : Byte} (h : readCase be = some (i, width)) : InWord i width :=
  .of_writeCase (readCase_eq_writeCase be (i, width) h)

theorem inside_storeLanes (h : InWord i width) (data : Fin 8 → Byte) :
    Inside (fun _ => size) (storeLanes ofs i width data) mem ↔ ofs + width * i + width ≤ size := by
  have hpos := h.pos
  rw [storeLanes_eq ofs data h.whole, inside_store]
  omega

theorem inside_loadLanes (h : InWord i width) (rdata : Fin 8 → Byte) :
    Inside (fun _ => size) (loadLanes ofs i width rdata) mem ↔ ofs + width * i + width ≤ size := by
  unfold loadLanes
  split
  · rename_i h8
    have hi := h.whole h8
    subst h8 hi
    simp only [inside_bind, inside_load]
    constructor
    · intro h
      have hupper := (h.2 _ rfl).1
      omega
    · intro h
      exact ⟨.inr (by omega), fun _ _ => ⟨.inr (by omega), fun _ _ => inside_pure _⟩⟩
  · have hpos := h.pos
    simp [inside_load]
    omega

/-- Writing a semaphore touches its word, whatever it holds. -/
theorem inside_writeSem (newval : ULong) :
    Inside (fun _ => size) (SemDevice.writeSem i newval) mem ↔ i + 4 ≤ size := by
  unfold SemDevice.writeSem
  split
  · simp only [inside_bind, inside_load]
    refine ⟨fun h => by omega, fun h => ⟨.inr h, fun old _ => ?_⟩⟩
    split
    · simpa [inside_store] using h
    · split
      · exact inside_exit
      · simpa [inside_store] using h
  · simp [inside_store]

theorem inside_readSem :
    Inside (fun _ => size) (SemDevice.readSem i) mem ↔ i + 4 ≤ size := by
  unfold SemDevice.readSem
  simp only [inside_bind, inside_load]
  refine ⟨fun h => by omega, fun h => ⟨.inr h, fun b _ => ?_⟩⟩
  split
  · refine inside_bind.mpr ⟨?_, fun _ _ => inside_pure _⟩
    simpa [inside_store] using h
  · exact inside_pure _

/-- In a word that starts inside, all lanes are inside. -/
theorem lanes_le_iff {lane n : Nat} (hsize : 8 ∣ size) (hofs : 8 ∣ ofs) (hn : 0 < n)
    (hlane : lane + n ≤ 8) (hle : ofs ≤ size) : ofs + lane + n ≤ size ↔ ofs ≠ size := by
  omega

end Lanes

/-! ## 4. The four devices -/

/-- A device with its array. -/
inductive ArrayDevice where
  | mem (d : MemDevice)
  | sram (d : SramDevice)
  | sem (d : SemDevice)
  | slFb (d : SlFbDevice) (frames : SlFbArray → Nat → Byte)

/-- What `rcv_rqst` is called with, and `m_req.plen`. -/
structure ArrayAccess where
  ofs : ULong
  be : Byte
  plen : Byte
  data : Fin 8 → Byte
  bWrite : Bool

def ArrayDevice.size : ArrayDevice → Nat
  | .mem d => d.size.toNat
  | .sram d => d.size.toNat
  | .sem d => d.size.toNat
  | .slFb d _ => d.memSize

/-- Every index that `write` or `read` touches is below the size. -/
def StaysInside (a : ArrayAccess) : ArrayDevice → Prop
  | .mem d =>
      if a.bWrite then
        Inside (fun _ => d.size.toNat) (d.writeCode a.ofs a.be a.data) fun _ => d.mem
      else Inside (fun _ => d.size.toNat) (d.readCode a.ofs a.be a.plen) fun _ => d.mem
  | .sram d =>
      if a.bWrite then Inside (fun _ => d.size.toNat) (d.write a.ofs a.be a.data) fun _ => d.mem
      else Inside (fun _ => d.size.toNat) (d.read a.ofs a.be) fun _ => d.mem
  | .sem d =>
      if a.bWrite then Inside (fun _ => d.size.toNat) (d.write a.ofs a.be a.data) fun _ => d.mem
      else Inside (fun _ => d.size.toNat) (d.read a.ofs a.be) fun _ => d.mem
  | .slFb d frames =>
      if a.bWrite then Inside d.arraySize (d.write a.ofs a.be a.data) frames
      else Inside d.arraySize SlFbDevice.read frames

/-- The lanes with which an access at the offset past the end goes through. -/
def TakenAtEnd (a : ArrayAccess) : ArrayDevice → Prop
  | .mem _ => a.bWrite = true ∧ a.be ≠ 0#8
  | .sram _ => a.bWrite = true ∧ (SramDevice.lanesCase a.be).isSome = true
  | .sem _ => (SemDevice.lanesCase a.be).isSome = true
  | .slFb _ _ => a.bWrite = true ∧ a.be &&& 0xF0#8 = 0#8

section Bounds

variable {ofs : ULong}

theorem MemDevice.write_inside_iff (d : MemDevice) (be : Byte) (data : Fin 8 → Byte)
    (hsize : 8 ∣ d.size.toNat) (hofs : 8 ∣ ofs.toNat) :
    Inside (fun _ => d.size.toNat) (d.writeCode ofs be data) (fun _ => d.mem) ↔
      ¬ (ofs.toNat = d.size.toNat ∧ be ≠ 0#8) := by
  rw [writeCode_eq]
  by_cases hbe : be = 0#8
  · simp [hbe]
  · by_cases hle : ofs.toNat ≤ d.size.toNat
    · obtain ⟨hpos, hlanes⟩ := storedLanes_le be hbe
      have hword := lanes_le_iff hsize hofs hpos hlanes hle
      simp [storeRun, inside_store, BitVec.lt_def, Nat.not_lt.mpr hle, hbe, hword]
      omega
    · have hne : ofs.toNat ≠ d.size.toNat := by omega
      simp [BitVec.lt_def, Nat.not_le.mp hle, hne]

/-- An offset that a read does not refuse. -/
theorem lt_of_not_refused {size ofs : ULong} {be : Byte} (h : ¬ (size ≤ ofs || be == 0#8) = true) :
    ofs.toNat < size.toNat := by
  simp only [BitVec.le_def, Bool.or_eq_true, decide_eq_true_eq, not_or, Nat.not_le] at h
  exact h.1

theorem MemDevice.read_inside (d : MemDevice) (be plen : Byte)
    (hsize : 8 ∣ d.size.toNat) (hofs : 8 ∣ ofs.toNat) :
    Inside (fun _ => d.size.toNat) (d.readCode ofs be plen) fun _ => d.mem := by
  unfold MemDevice.readCode
  dsimp only
  split
  · exact inside_pure _
  · split
    · exact inside_pure _
    · rename_i hin
      have hlt := lt_of_not_refused hin
      cases hcase : readCase be with
      | none => exact inside_pure _
      | some c =>
          have hw : InWord c.1 c.2 := .of_readCase hcase
          have hword := (lanes_le_iff hsize hofs hw.pos hw.le hlt.le).mpr hlt.ne
          simpa [inside_load] using .inr hword

theorem SramDevice.read_inside (d : SramDevice) (be : Byte)
    (hsize : 8 ∣ d.size.toNat) (hofs : 8 ∣ ofs.toNat) :
    Inside (fun _ => d.size.toNat) (d.read ofs be) fun _ => d.mem := by
  unfold SramDevice.read lanesCase
  split
  · exact inside_pure _
  · rename_i hin
    have hlt := lt_of_not_refused hin
    cases hcase : writeCase be with
    | none => exact inside_pure _
    | some c =>
        have hw : InWord c.1 c.2 := .of_writeCase hcase
        have hword := (lanes_le_iff hsize hofs hw.pos hw.le hlt.le).mpr hlt.ne
        simpa [inside_loadLanes hw] using hword

/-- **An access that refuses the offsets past the end only**, and touches the lanes of its case. -/
theorem inside_iff_of_lanes {v : Type} {f : ArrayCode Unit Byte v} {mem : Unit → Nat → Byte}
    {size : Nat} {lanes : Option (Nat × Nat)} (hsize : 8 ∣ size) (hofs : 8 ∣ ofs.toNat)
    (hrefused : size < ofs.toNat ∨ lanes = none → Inside (fun _ => size) f mem)
    (hword : ∀ c ∈ lanes, InWord c.1 c.2)
    (hlanes : ∀ c ∈ lanes, ofs.toNat ≤ size →
      (Inside (fun _ => size) f mem ↔ ofs.toNat + c.2 * c.1 + c.2 ≤ size)) :
    Inside (fun _ => size) f mem ↔ ¬ (ofs.toNat = size ∧ lanes.isSome = true) := by
  cases lanes with
  | none => simpa using hrefused (.inr rfl)
  | some c =>
      have hw := hword c rfl
      by_cases hle : ofs.toNat ≤ size
      · rw [hlanes c rfl hle, lanes_le_iff hsize hofs hw.pos hw.le hle]
        simp
      · have hne : ofs.toNat ≠ size := by omega
        simpa [hne] using hrefused (.inl (by omega))

theorem SramDevice.write_inside_iff (d : SramDevice) (be : Byte) (data : Fin 8 → Byte)
    (hsize : 8 ∣ d.size.toNat) (hofs : 8 ∣ ofs.toNat) :
    Inside (fun _ => d.size.toNat) (d.write ofs be data) (fun _ => d.mem) ↔
      ¬ (ofs.toNat = d.size.toNat ∧ (lanesCase be).isSome = true) := by
  refine inside_iff_of_lanes hsize hofs (fun h => ?_) (fun c hc => .of_writeCase hc)
    fun c hc hle => ?_
  · unfold SramDevice.write
    rcases h with hlt | hnone
    · simp [BitVec.lt_def, hlt]
    · simp [hnone]
  · have hw : InWord c.1 c.2 := .of_writeCase hc
    have hbe : be ≠ 0#8 := by
      intro h0
      subst h0
      cases hc
    have hcase : lanesCase be = some c := hc
    simp [SramDevice.write, BitVec.lt_def, Nat.not_lt.mpr hle, hbe, hcase, inside_storeLanes hw]

theorem SemDevice.write_inside_iff (d : SemDevice) (be : Byte) (data : Fin 8 → Byte)
    (hsize : 8 ∣ d.size.toNat) (hofs : 8 ∣ ofs.toNat) :
    Inside (fun _ => d.size.toNat) (d.write ofs be data) (fun _ => d.mem) ↔
      ¬ (ofs.toNat = d.size.toNat ∧ (lanesCase be).isSome = true) := by
  refine inside_iff_of_lanes hsize hofs (fun h => ?_) (fun c hc => .of_readCase hc)
    fun c hc hle => ?_
  · unfold SemDevice.write
    rcases h with hlt | hnone
    · simp [BitVec.lt_def, hlt]
    · simp [hnone]
  · have hw : InWord c.1 c.2 := .of_readCase hc
    have hcase : lanesCase be = some c := hc
    simp only [SemDevice.write, BitVec.lt_def, Nat.not_lt.mpr hle, if_false, hcase]
    split
    · rename_i h4
      rw [inside_writeSem, h4]
    · exact inside_storeLanes hw data

theorem SemDevice.read_inside_iff (d : SemDevice) (be : Byte)
    (hsize : 8 ∣ d.size.toNat) (hofs : 8 ∣ ofs.toNat) :
    Inside (fun _ => d.size.toNat) (d.read ofs be) (fun _ => d.mem) ↔
      ¬ (ofs.toNat = d.size.toNat ∧ (lanesCase be).isSome = true) := by
  refine inside_iff_of_lanes hsize hofs (fun h => ?_) (fun c hc => .of_readCase hc)
    fun c hc hle => ?_
  · unfold SemDevice.read
    rcases h with hlt | hnone
    · simp [BitVec.lt_def, hlt]
    · simp [hnone]
  · have hw : InWord c.1 c.2 := .of_readCase hc
    have hcase : lanesCase be = some c := hc
    simp only [SemDevice.read, BitVec.lt_def, Nat.not_lt.mpr hle, if_false, hcase]
    split
    · rename_i h4
      rw [bind_pure_comp, inside_map, inside_readSem, h4]
    · exact inside_loadLanes hw _

end Bounds

/-- **Which accesses stay inside**, for each of the devices: all but those at the very end with lanes
    that go through there. -/
theorem stays_inside_iff (d : ArrayDevice) (a : ArrayAccess) (hsize : 8 ∣ d.size)
    (hofs : 8 ∣ a.ofs.toNat) :
    StaysInside a d ↔ ¬ (a.ofs.toNat = d.size ∧ TakenAtEnd a d) := by
  cases hw : a.bWrite with
  | true =>
      cases d with
      | mem d =>
          simpa [StaysInside, TakenAtEnd, ArrayDevice.size, hw] using
            d.write_inside_iff a.be a.data hsize hofs
      | sram d =>
          simpa [StaysInside, TakenAtEnd, ArrayDevice.size, hw] using
            d.write_inside_iff a.be a.data hsize hofs
      | sem d =>
          simpa [StaysInside, TakenAtEnd, ArrayDevice.size, hw] using
            d.write_inside_iff a.be a.data hsize hofs
      | slFb d frames =>
          simpa [StaysInside, TakenAtEnd, ArrayDevice.size, hw] using
            d.write_inside_iff a.be a.data frames hsize hofs
  | false =>
      cases d with
      | mem d =>
          simpa [StaysInside, TakenAtEnd, hw] using d.read_inside a.be a.plen hsize hofs
      | sram d => simpa [StaysInside, TakenAtEnd, hw] using d.read_inside a.be hsize hofs
      | sem d =>
          simpa [StaysInside, TakenAtEnd, ArrayDevice.size, hw] using
            d.read_inside_iff a.be hsize hofs
      | slFb d frames => simp [StaysInside, TakenAtEnd, hw, SlFbDevice.read]

/-- A write to the last word of a memory of 4 KB. -/
theorem stays_inside_iff_last :
    StaysInside ⟨0xFF8#32, 0xF0#8, 1#8, fun _ => 0#8, true⟩ (.mem wholeMemory) ↔
      ¬ (BitVec.toNat 0xFF8#32 = (ArrayDevice.mem wholeMemory).size ∧
        TakenAtEnd ⟨0xFF8#32, 0xF0#8, 1#8, fun _ => 0#8, true⟩ (.mem wholeMemory)) :=
  stays_inside_iff (.mem wholeMemory) ⟨0xFF8#32, 0xF0#8, 1#8, fun _ => 0#8, true⟩ (by decide)
    (by decide)

/-- A byte is written behind a memory, and a semaphore is read behind the last one. -/
theorem touched_past_end :
    ¬ StaysInside ⟨0x1000#32, 0x01#8, 1#8, fun _ => 0xAB#8, true⟩ (.mem wholeMemory) ∧
      ¬ StaysInside ⟨0x100008#32, 0x0F#8, 1#8, fun _ => 0#8, false⟩ (.sem (.new 0x100000#32)) := by
  have hmem := MemDevice.write_inside_iff wholeMemory 0x01#8 (fun _ => 0xAB#8)
    (show 8 ∣ wholeMemory.size.toNat by decide) (show 8 ∣ (0x1000#32).toNat by decide)
  have hsem := SemDevice.read_inside_iff (.new 0x100000#32) 0x0F#8
    (show 8 ∣ (SemDevice.new 0x100000#32).size.toNat by decide)
    (show 8 ∣ (0x100008#32).toNat by decide)
  constructor
  · intro h
    exact hmem.mp h (by decide)
  · intro h
    exact hsem.mp h (by decide)

/-! ## 5. Bursts -/

/-- The first byte of the half that `read` fills in a burst. -/
def burstLane (be : Byte) : Nat := if be = 0xF0#8 then 4 else 0

theorem burstLane_add_le (be : Byte) : burstLane be + 4 ≤ 8 := by
  unfold burstLane
  split <;> decide

/-- The address that a burst read returns. -/
theorem ulongOf_rdata (d : MemDevice) (ofs : ULong) (be : Byte) {plen : Byte} (hplen : 1#8 < plen) :
    ulongOf (fun j => laneData (d.read ofs be plen).1.rdata (burstLane be + j)) =
      d.base + ofs + BitVec.ofNat 32 (burstLane be) := by
  have hle := burstLane_add_le be
  have hbyte (j : Nat) (hj : j < 4) :
      laneData (d.read ofs be plen).1.rdata (burstLane be + j) =
        byteOf (d.base + ofs + BitVec.ofNat 32 (burstLane be)) j := by
    have h8 : burstLane be + j < 8 := by omega
    rw [laneData, dif_pos h8, MemDevice.read, if_pos hplen]
    show (if burstLane be ≤ burstLane be + j ∧ burstLane be + j < burstLane be + 4 then
      byteOf (d.base + ofs + BitVec.ofNat 32 (burstLane be)) (burstLane be + j - burstLane be)
      else _) = _
    rw [if_pos (by omega), Nat.add_sub_cancel_left]
  rw [ulongOf, hbyte 0 (by decide), hbyte 1 (by decide), hbyte 2 (by decide), hbyte 3 (by decide)]
  exact ulongOf_byteOf _

/-- A burst read returns the address of a byte of the memory. -/
def HandsOutInside (d : MemDevice) (ofs : ULong) (be plen : Byte) : Prop :=
  ∃ i < d.size.toNat,
    ulongOf (fun j => laneData (d.read ofs be plen).1.rdata (burstLane be + j)) =
      d.base + BitVec.ofNat 32 i

/-- **A burst is not tested at all**: the address is that of a byte of the memory exactly for an
    offset inside it. -/
theorem handsOutInside_iff (d : MemDevice) {ofs : ULong} (be : Byte) {plen : Byte}
    (hplen : 1#8 < plen) (hsize : 8 ∣ d.size.toNat) (hofs : 8 ∣ ofs.toNat) :
    HandsOutInside d ofs be plen ↔ ofs.toNat < d.size.toNat := by
  have hle := burstLane_add_le be
  have hsum : (ofs + BitVec.ofNat 32 (burstLane be)).toNat = ofs.toNat + burstLane be := by
    rw [BitVec.toNat_add, BitVec.toNat_ofNat]
    omega
  have haddr (i : Nat) (hi : i < d.size.toNat) :
      d.base + ofs + BitVec.ofNat 32 (burstLane be) = d.base + BitVec.ofNat 32 i ↔
        ofs.toNat + burstLane be = i := by
    have hi32 : i < 2 ^ 32 := Nat.lt_trans hi d.size.isLt
    rw [BitVec.add_assoc, BitVec.add_right_inj, ← BitVec.toNat_inj, hsum, BitVec.toNat_ofNat,
      Nat.mod_eq_of_lt hi32]
  rw [HandsOutInside, ulongOf_rdata d ofs be hplen]
  constructor
  · intro h
    obtain ⟨i, hi, heq⟩ := h
    have hidx := (haddr i hi).mp heq
    omega
  · intro h
    have hin : ofs.toNat + burstLane be < d.size.toNat := by omega
    exact ⟨_, hin, (haddr _ hin).mpr rfl⟩

end Rabbits
