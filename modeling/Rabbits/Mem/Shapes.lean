/-
  File:      Rabbits/Mem/Shapes.lean
  Subject:   The accesses that the memory device takes (mem_device.cpp: write, read, rcv_rqst).

  `write` takes any one run of 1, 2, 4 or 8 lanes, and decides about an unusual one after it has
  stored it. It never sets `bErr`. `read` takes the usual runs of 1, 2 and 4 lanes, and not the
  offset past the end. Neither looks at the lanes of a word that begins in the memory and ends
  behind it.

  * `MemDevice.writeCode`, `readCode` -- the two functions as code over `mem`, with `err` and `bErr`;
  * `writeCode_run`, `readCode_run` -- they do what `write` and `read` do;
  * `EnabledInside` -- the lanes of an access are bytes of the memory, which neither function tests;
  * `rejects_or_stores_iff` -- **for which writes a refusal changes nothing and is answered with an
    error, and a write that is taken stores its lanes in the memory and nothing else**;
  * `round_trip_iff` -- **for which accesses a read takes what a write took, and finds it**.
-/
import Rabbits.Lib.ArrayCode
import Rabbits.Mem.MemDevice

namespace Rabbits

open Lib ArrayCode

/-! ## 1. The code -/

/-- The bytes behind `data`. -/
def laneData (data : Fin 8 → Byte) (j : Nat) : Byte := if h : j < 8 then data ⟨j, h⟩ else 0#8

/-- The `switch` on the width, which stores the eight lanes as two words. -/
def storeLanes (ofs i width : Nat) (data : Fin 8 → Byte) : ArrayCode Unit Byte Unit :=
  if width = 8 then do
    store () ofs 4 (laneData data)
    store () (ofs + 4) 4 fun j => laneData data (4 + j)
  else store () (ofs + width * i) width fun j => laneData data (width * i + j)

namespace MemDevice

/-- `write`, with `err` at its end. -/
def writeCode (d : MemDevice) (ofs : ULong) (be : Byte) (data : Fin 8 → Byte) :
    ArrayCode Unit Byte Nat :=
  if d.size < ofs || be == 0#8 then return 1
  else
    match writeCase be with
    | some (i, mod) => do
        storeLanes ofs.toNat i mod data
        return 0
    | none => do
        let first := firstLane be
        let mod := laneRun be first
        forM (List.range mod) fun j =>
          store () (ofs.toNat + first + j) 1 fun _ => laneData data (first + j)
        -- `tbe`: the lanes behind the run
        if (mod ≠ 1 ∧ mod ≠ 2 ∧ mod ≠ 4 ∧ mod ≠ 8) ∨ be >>> (first + mod) ≠ 0#8 then return 1
        else return 2

/-- `read`: `rdata` and `bErr`. A burst touches no byte. -/
def readCode (d : MemDevice) (ofs : ULong) (be plen : Byte) :
    ArrayCode Unit Byte ((Fin 8 → Byte) × Bool) :=
  if 1#8 < plen then
    let beOff := if be = 0xF0#8 then 4 else 0
    return (fun j =>
      if beOff ≤ j.val ∧ j.val < beOff + 4 then
        byteOf (d.base + ofs + BitVec.ofNat 32 beOff) (j.val - beOff)
      else d.rdata j, false)
  else if d.size ≤ ofs || be == 0#8 then return (d.rdata, true)
  else
    match readCase be with
    | some (i, wid) => do
        let val ← load () (ofs.toNat + wid * i) wid
        return (fun j =>
          if wid * i ≤ j.val ∧ j.val < wid * i + wid then val (j.val - wid * i) else d.rdata j, false)
    | none => return (d.rdata, true)

end MemDevice

/-! ## 2. The lanes -/

/-- The lanes that `write` stores: the first one, and how many. -/
def storedLanes (be : Byte) : Nat × Nat :=
  match writeCase be with
  | some (i, mod) => (mod * i, mod)
  | none => (firstLane be, laneRun be (firstLane be))

/-- `err` behind the two switches of `write`. -/
def shapeErr (be : Byte) : Nat :=
  match writeCase be with
  | some _ => 0
  | none =>
      let first := firstLane be
      let mod := laneRun be first
      if (mod ≠ 1 ∧ mod ≠ 2 ∧ mod ≠ 4 ∧ mod ≠ 8) ∨ be >>> (first + mod) ≠ 0#8 then 1 else 2

/-- `count` lanes from `lane` on. -/
def runOf (lane count : Nat) : Byte := BitVec.ofNat 8 (2 ^ count - 1) <<< lane

/-- The lanes are one run of 1, 2, 4 or 8. -/
def OneRun (be : Byte) : Prop := ∃ count ∈ [1, 2, 4, 8], ∃ lane < 9 - count, be = runOf lane count

/-- The lanes are a run of 1, 2 or 4 that starts at a multiple of its length. -/
def AlignedRun (be : Byte) : Prop :=
  ∃ count ∈ [1, 2, 4], ∃ lane < 9 - count, count ∣ lane ∧ be = runOf lane count

instance (be : Byte) : Decidable (OneRun be) :=
  inferInstanceAs (Decidable (∃ count ∈ [1, 2, 4, 8], ∃ lane < 9 - count, be = runOf lane count))

instance (be : Byte) : Decidable (AlignedRun be) :=
  inferInstanceAs
    (Decidable (∃ count ∈ [1, 2, 4], ∃ lane < 9 - count, count ∣ lane ∧ be = runOf lane count))

theorem storedLanes_le : ∀ be : Byte, be ≠ 0#8 →
    0 < (storedLanes be).2 ∧ (storedLanes be).1 + (storedLanes be).2 ≤ 8 := by
  decide +kernel

theorem shapeErr_eq_one_iff : ∀ be : Byte, be ≠ 0#8 → (shapeErr be = 1 ↔ ¬ OneRun be) := by
  decide +kernel

theorem writeCase_whole : ∀ be : Byte, ∀ c ∈ writeCase be, c.2 = 8 → c.1 = 0 := by
  decide +kernel

theorem aligned_of_readCase : ∀ be : Byte, ∀ c ∈ readCase be, AlignedRun be := by
  decide +kernel

/-- What `write` makes of one run. -/
theorem runOf_lanes : ∀ count ∈ [1, 2, 4, 8], ∀ lane < 9 - count,
    runOf lane count ≠ 0#8 ∧ storedLanes (runOf lane count) = (lane, count) ∧
      ∀ k < 8, ((runOf lane count).getLsbD k = true ↔ lane ≤ k ∧ k < lane + count) := by
  decide

/-- What `read` makes of an aligned run. -/
theorem readCase_runOf : ∀ count ∈ [1, 2, 4], ∀ lane < 9 - count, count ∣ lane →
    readCase (runOf lane count) = some (lane / count, count) := by
  decide

theorem OneRun.ne_zero {be : Byte} (h : OneRun be) : be ≠ 0#8 := by
  obtain ⟨count, hc, lane, hl, rfl⟩ := h
  exact (runOf_lanes count hc lane hl).1

theorem AlignedRun.oneRun {be : Byte} (h : AlignedRun be) : OneRun be := by
  obtain ⟨count, hc, lane, hl, -, rfl⟩ := h
  have hc8 : count ∈ [1, 2, 4, 8] := List.mem_append_left [8] hc
  exact ⟨count, hc8, lane, hl, rfl⟩

/-! ## 3. What the code does -/

theorem storeLanes_eq (ofs : Nat) {i width : Nat} (data : Fin 8 → Byte) (h : width = 8 → i = 0) :
    storeLanes ofs i width data =
      store () (ofs + width * i) width fun j => laneData data (width * i + j) := by
  unfold storeLanes
  split
  · rename_i h8
    have hi := h h8
    subst h8 hi
    simp only [Nat.mul_zero, Nat.add_zero, Nat.zero_add]
    exact store_append () ofs 4 4 (laneData data)
  · rfl

/-- The lanes that `write` stores, as one store. -/
def storeRun (ofs : Nat) (be : Byte) (data : Fin 8 → Byte) : ArrayCode Unit Byte Unit :=
  store () (ofs + (storedLanes be).1) (storedLanes be).2 fun j =>
    laneData data ((storedLanes be).1 + j)

/-- **`write` stores one run of lanes, and then knows `err`.** -/
theorem writeCode_eq (d : MemDevice) (ofs : ULong) (be : Byte) (data : Fin 8 → Byte) :
    d.writeCode ofs be data =
      if d.size < ofs || be == 0#8 then pure 1
      else storeRun ofs.toNat be data >>= fun _ => pure (shapeErr be) := by
  unfold MemDevice.writeCode storeRun storedLanes shapeErr
  split
  · rfl
  · cases hcase : writeCase be with
    | some c => simp only [storeLanes_eq _ _ (writeCase_whole be c hcase)]
    | none =>
        simp only [forM_store _ _ _ fun j => laneData data (firstLane be + j)]
        congr 1
        funext _
        split <;> rfl

theorem rangeWrite_lanes (ofs : Nat) {lane count : Nat} (data : Fin 8 → Byte)
    (h : lane + count ≤ 8) :
    rangeWrite (ofs + lane) count (fun j => laneData data (lane + j)) =
      lanesWrite ofs lane count data := by
  funext b
  simp only [rangeWrite, lanesWrite, laneData]
  by_cases hb : ofs + lane ≤ b ∧ b < ofs + lane + count
  · have hlane : lane + (b - (ofs + lane)) = b - ofs := by omega
    have h8 : b - ofs < 8 := by omega
    simp only [hlane, h8, hb, and_self, if_true, dif_pos]
  · rw [if_neg hb, dif_neg fun h' => hb ⟨h'.1, h'.2.1⟩]

theorem write_mem (d : MemDevice) (ofs : ULong) (be : Byte) (data : Fin 8 → Byte) :
    (d.write ofs be data).mem =
      if d.size < ofs || be == 0#8 then d.mem
      else (lanesWrite ofs.toNat (storedLanes be).1 (storedLanes be).2 data).apply d.mem := by
  unfold MemDevice.write storedLanes
  split
  · rfl
  · cases writeCase be <;> rfl

/-- **The code of `write` does what `write` does.** -/
theorem writeCode_run (d : MemDevice) (ofs : ULong) (be : Byte) (data : Fin 8 → Byte) :
    let r := (d.writeCode ofs be data).run fun _ => d.mem
    r.result = some (if d.size < ofs || be == 0#8 then 1 else shapeErr be) ∧
      r.mem () = (d.write ofs be data).mem := by
  rw [writeCode_eq, write_mem]
  split
  · exact ⟨rfl, rfl⟩
  · rename_i hin
    have hbe : be ≠ 0#8 := fun h0 => hin (by simp [h0])
    refine ⟨rfl, ?_⟩
    rw [← rangeWrite_lanes ofs.toNat data (storedLanes_le be hbe).2]
    exact Function.update_self () _ fun _ => d.mem

/-- **The code of `read` does what `read` does.** -/
theorem readCode_run (d : MemDevice) (ofs : ULong) (be plen : Byte) :
    let r := (d.readCode ofs be plen).run fun _ => d.mem
    r.result = some ((d.read ofs be plen).1.rdata, (d.read ofs be plen).2) ∧ r.mem () = d.mem := by
  unfold MemDevice.readCode MemDevice.read
  split
  · exact ⟨rfl, rfl⟩
  · split
    · exact ⟨rfl, rfl⟩
    · cases readCase be with
      | none => exact ⟨rfl, rfl⟩
      | some c =>
          refine ⟨congrArg some (Prod.ext ?_ rfl), rfl⟩
          funext j
          by_cases hj : c.2 * c.1 ≤ j.val ∧ j.val < c.2 * c.1 + c.2
          · have hidx : ofs.toNat + c.2 * c.1 + (j.val - c.2 * c.1) = ofs.toNat + j.val := by omega
            simp [hj, hidx]
          · simp only [hj, if_false]

/-! ## 4. A write, and its response -/

/-- `write` takes the access: its `err` is not 1. -/
def WriteTakes (d : MemDevice) (ofs : ULong) (be : Byte) (data : Fin 8 → Byte) : Prop :=
  ((d.writeCode ofs be data).run fun _ => d.mem).result ≠ some 1

theorem writeTakes_iff (d : MemDevice) (ofs : ULong) (be : Byte) (data : Fin 8 → Byte) :
    WriteTakes d ofs be data ↔ ofs ≤ d.size ∧ OneRun be := by
  rw [WriteTakes, (writeCode_run d ofs be data).1, Ne, Option.some.injEq]
  by_cases hbe : be = 0#8
  · have hrun : ¬ OneRun be := fun h => h.ne_zero hbe
    simp [hbe] at hrun ⊢
    exact fun _ => hrun
  · have herr := shapeErr_eq_one_iff be hbe
    by_cases hsize : d.size < ofs
    · have hle : ¬ ofs ≤ d.size := BitVec.not_le.mpr hsize
      simp [hsize, hle]
    · have hle : ofs ≤ d.size := BitVec.not_lt.mp hsize
      simp [hsize, hbe, hle, herr]

/-- The enabled bytes of the word at `ofs`. -/
def enabledWrite (ofs : Nat) (be : Byte) (data : Fin 8 → Byte) : Write Nat Byte := fun b =>
  if h : ofs ≤ b ∧ b - ofs < 8 then
    if be.getLsbD (b - ofs) then some (data ⟨b - ofs, h.2⟩) else none
  else none

theorem lanesWrite_runOf (ofs : Nat) {lane count : Nat} (data : Fin 8 → Byte)
    (hc : count ∈ [1, 2, 4, 8]) (hl : lane < 9 - count) :
    lanesWrite ofs lane count data = enabledWrite ofs (runOf lane count) data := by
  obtain ⟨-, -, hlanes⟩ := runOf_lanes count hc lane hl
  funext b
  simp only [lanesWrite, enabledWrite]
  by_cases hb : ofs ≤ b ∧ b - ofs < 8
  · have hlane := hlanes (b - ofs) hb.2
    by_cases hin : lane ≤ b - ofs ∧ b - ofs < lane + count
    · rw [dif_pos (by omega), dif_pos hb, if_pos (hlane.mpr hin)]
    · rw [dif_neg (by omega), dif_pos hb, if_neg fun h => hin (hlane.mp h)]
  · rw [dif_neg (by omega), dif_neg hb]

/-- A write that is taken stores the enabled bytes. -/
theorem write_mem_of_oneRun {d : MemDevice} {ofs : ULong} {be : Byte} (data : Fin 8 → Byte)
    (hofs : ofs ≤ d.size) (hbe : OneRun be) :
    (d.write ofs be data).mem = (enabledWrite ofs.toNat be data).apply d.mem := by
  have hin : (d.size < ofs || be == 0#8) = false := by
    simp [hbe.ne_zero, BitVec.not_lt.mpr hofs]
  rw [write_mem, hin]
  obtain ⟨count, hc, lane, hl, rfl⟩ := hbe
  simp [(runOf_lanes count hc lane hl).2.1, lanesWrite_runOf ofs.toNat data hc hl]

/-- The enabled bytes of the word at `ofs` are bytes of the memory; the others are behind its array. -/
def EnabledInside (size ofs : ULong) (be : Byte) : Prop :=
  ∀ k : Fin 8, be.getLsbD k = true → ofs.toNat + k.val < size.toNat

instance (size ofs : ULong) (be : Byte) : Decidable (EnabledInside size ofs be) :=
  inferInstanceAs
    (Decidable (∀ k : Fin 8, be.getLsbD k = true → ofs.toNat + k.val < size.toNat))

/-- The word begins in the memory then. -/
theorem EnabledInside.lt {size ofs : ULong} {be : Byte} (h : EnabledInside size ofs be)
    (hbe : OneRun be) : ofs < size := by
  have hlane : ∀ be : Byte, be ≠ 0#8 → ∃ k : Fin 8, be.getLsbD k = true := by decide +kernel
  obtain ⟨k, hk⟩ := hlane be hbe.ne_zero
  have hlt := h k hk
  exact BitVec.lt_def.mpr (by omega)

/-- A write that is refused changes nothing and is answered with an error; one that is taken has its
    enabled bytes in the memory, and changes exactly these. -/
structure RejectsOrStores (d : MemDevice) (req : VciRequest) : Prop where
  rejects : ¬ WriteTakes d req.address req.be req.wdata →
    (d.rcvRqst req).1.mem = d.mem ∧
      (slaveRsp req (d.rcvRqst req).1.rdata (d.rcvRqst req).2).rerror = true
  inside : WriteTakes d req.address req.be req.wdata → EnabledInside d.size req.address req.be
  stores : WriteTakes d req.address req.be req.wdata →
    (d.rcvRqst req).1.mem = (enabledWrite req.address.toNat req.be req.wdata).apply d.mem

/-- **For which writes that is so**: those that are taken and inside. No response reports an error. -/
theorem rejects_or_stores_iff (d : MemDevice) (req : VciRequest) (hcmd : req.cmd = CMD_WRITE) :
    RejectsOrStores d req ↔ OneRun req.be ∧ EnabledInside d.size req.address req.be := by
  have hrcv : d.rcvRqst req = (d.write req.address req.be req.wdata, false) := by
    rw [MemDevice.rcvRqst, if_pos hcmd]
  have htakes := writeTakes_iff d req.address req.be req.wdata
  constructor
  · intro h
    have hw : WriteTakes d req.address req.be req.wdata := by
      by_contra hrej
      have herr := (h.rejects hrej).2
      rw [hrcv] at herr
      cases herr
    exact ⟨(htakes.mp hw).2, h.inside hw⟩
  · rintro ⟨hbe, hinside⟩
    have hofs : req.address ≤ d.size := BitVec.le_of_lt (hinside.lt hbe)
    refine ⟨fun hrej => absurd (htakes.mpr ⟨hofs, hbe⟩) hrej, fun _ => hinside, fun _ => ?_⟩
    rw [hrcv]
    exact write_mem_of_oneRun req.wdata hofs hbe

/-- A write of one word to a memory of 4 KB. -/
def wholeMemory : MemDevice := .new 0x1000#32 0#32 fun _ => 0#8

def wordWrite (be : Byte) : VciRequest :=
  { (default : VciRequest) with cmd := CMD_WRITE, be := be, wdata := fun _ => 0xAB#8 }

theorem rejects_or_stores_iff_word :
    RejectsOrStores wholeMemory (wordWrite 0x0F#8) ↔ OneRun (wordWrite 0x0F#8).be ∧
      EnabledInside wholeMemory.size (wordWrite 0x0F#8).address (wordWrite 0x0F#8).be :=
  rejects_or_stores_iff wholeMemory (wordWrite 0x0F#8) rfl

/-- Lanes 0 and 2 are refused, after lane 0 has been stored; the response is that of a success. -/
theorem refused_write_stores :
    ¬ WriteTakes wholeMemory 0#32 0x05#8 (fun _ => 0xAB#8) ∧
      (wholeMemory.rcvRqst (wordWrite 0x05#8)).1.mem 0 = 0xAB#8 ∧
      wholeMemory.mem 0 = 0#8 ∧ ¬ RejectsOrStores wholeMemory (wordWrite 0x05#8) := by
  have hrej : ¬ WriteTakes wholeMemory 0#32 0x05#8 (fun _ => 0xAB#8) := by
    rw [writeTakes_iff]
    decide
  refine ⟨hrej, by decide, rfl, fun h => ?_⟩
  have hfalse := (h.rejects hrej).2
  exact absurd hfalse (by decide)

/-! ## 5. A write, and a read -/

/-- A read takes what a write takes, and finds what it stored in the memory. -/
structure RoundTrips (d : MemDevice) (ofs : ULong) (be plen : Byte) (data : Fin 8 → Byte) :
    Prop where
  inside : WriteTakes d ofs be data → EnabledInside d.size ofs be
  found : WriteTakes d ofs be data →
    ((d.write ofs be data).read ofs be plen).2 = false ∧
      ∀ k : Fin 8, be.getLsbD k = true → ((d.write ofs be data).read ofs be plen).1.rdata k = data k
  shapes : WriteTakes d ofs be data ↔ (d.read ofs be plen).2 = false

theorem isSome_readCase_iff (be : Byte) : (readCase be).isSome = true ↔ AlignedRun be := by
  constructor
  · intro h
    obtain ⟨c, hc⟩ := Option.isSome_iff_exists.mp h
    exact aligned_of_readCase be c hc
  · intro h
    obtain ⟨count, hc, lane, hl, hdvd, rfl⟩ := h
    rw [readCase_runOf count hc lane hl hdvd]
    rfl

/-- The single words that `read` takes. -/
theorem read_ok_iff (d : MemDevice) (ofs : ULong) (be : Byte) {plen : Byte} (hplen : plen ≤ 1#8) :
    (d.read ofs be plen).2 = false ↔ ofs < d.size ∧ AlignedRun be := by
  rw [MemDevice.read, if_neg (BitVec.not_lt.mpr hplen)]
  by_cases hofs : d.size ≤ ofs
  · have hlt : ¬ ofs < d.size := BitVec.not_lt.mpr hofs
    simp [hofs, hlt]
  · have hlt : ofs < d.size := BitVec.not_le.mp hofs
    by_cases hbe : be = 0#8
    · have hrun : ¬ AlignedRun be := fun h => h.oneRun.ne_zero hbe
      simp [hbe] at hrun ⊢
      exact fun _ => hrun
    · rw [← isSome_readCase_iff]
      cases hcase : readCase be <;> simp [hofs, hlt, hbe]

/-- What a read takes is what it finds in the lanes. -/
theorem read_rdata {d : MemDevice} {ofs : ULong} {be plen : Byte} (hplen : plen ≤ 1#8)
    (hofs : ofs < d.size) (hbe : AlignedRun be) {k : Fin 8} (hk : be.getLsbD k = true) :
    (d.read ofs be plen).1.rdata k = d.mem (ofs.toNat + k.val) := by
  have hne := hbe.oneRun.ne_zero
  obtain ⟨count, hc, lane, hl, hdvd, rfl⟩ := hbe
  obtain ⟨-, -, hlanes⟩ := runOf_lanes count (List.mem_append_left [8] hc) lane hl
  have hlane := (hlanes k k.isLt).mp hk
  rw [MemDevice.read, if_neg (BitVec.not_lt.mpr hplen)]
  simp [BitVec.not_le.mpr hofs, hne, readCase_runOf count hc lane hl hdvd,
    Nat.mul_div_cancel' hdvd, hlane]

/-- **For which accesses a read finds what was written**, and takes the same ones: a write that is
    taken at all has to be inside the memory, with an aligned run of 1, 2 or 4 lanes. -/
theorem round_trip_iff (d : MemDevice) (ofs : ULong) (be : Byte) {plen : Byte}
    (data : Fin 8 → Byte) (hplen : plen ≤ 1#8) :
    RoundTrips d ofs be plen data ↔
      (ofs ≤ d.size ∧ OneRun be → AlignedRun be ∧ EnabledInside d.size ofs be) := by
  have htakes := writeTakes_iff d ofs be data
  have hread := read_ok_iff d ofs be hplen
  constructor
  · intro h hw
    exact ⟨(hread.mp (h.shapes.mp (htakes.mpr hw))).2, h.inside (htakes.mpr hw)⟩
  · intro h
    have hsize : (d.write ofs be data).size = d.size := by
      unfold MemDevice.write
      split
      · rfl
      · cases writeCase be <;> rfl
    have hlt (hw : WriteTakes d ofs be data) : ofs < d.size ∧ AlignedRun be := by
      obtain ⟨hbe, hinside⟩ := h (htakes.mp hw)
      exact ⟨hinside.lt hbe.oneRun, hbe⟩
    refine ⟨fun hw => (h (htakes.mp hw)).2, fun hw => ?_, fun hw => hread.mpr (hlt hw), fun hr => ?_⟩
    · obtain ⟨hofs, hbe⟩ := hlt hw
      rw [← hsize] at hofs
      refine ⟨(read_ok_iff _ ofs be hplen).mpr ⟨hofs, hbe⟩, fun k hk => ?_⟩
      rw [read_rdata hplen hofs hbe hk, write_mem_of_oneRun data (htakes.mp hw).1 hbe.oneRun]
      have hidx : ofs.toNat + k.val - ofs.toNat = k.val := by omega
      simp [Write.apply, enabledWrite, hidx, hk]
    · obtain ⟨hofs, hbe⟩ := hread.mp hr
      exact htakes.mpr ⟨BitVec.le_of_lt hofs, hbe.oneRun⟩

theorem round_trip_iff_word :
    RoundTrips wholeMemory 8#32 0xF0#8 1#8 (fun _ => 0xAB#8) ↔
      (8#32 ≤ wholeMemory.size ∧ OneRun 0xF0#8 →
        AlignedRun 0xF0#8 ∧ EnabledInside wholeMemory.size 8#32 0xF0#8) :=
  round_trip_iff wholeMemory 8#32 0xF0#8 _ (by decide)

/-- Eight lanes are written, and cannot be read. -/
theorem whole_word_not_read :
    WriteTakes wholeMemory 0#32 0xFF#8 (fun _ => 0xAB#8) ∧
      (wholeMemory.read 0#32 0xFF#8 1#8).2 = true ∧
      ¬ RoundTrips wholeMemory 0#32 0xFF#8 1#8 (fun _ => 0xAB#8) := by
  have htakes : WriteTakes wholeMemory 0#32 0xFF#8 (fun _ => 0xAB#8) := by
    rw [writeTakes_iff]
    decide
  refine ⟨htakes, by decide, fun h => ?_⟩
  have hok := h.shapes.mp htakes
  exact absurd hok (by decide)

end Rabbits
