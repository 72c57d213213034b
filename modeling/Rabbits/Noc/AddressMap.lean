/-
  File:      Rabbits/Noc/AddressMap.lean
  Subject:   The address map of an interconnect master and the three scans of it
             (interconnect_master.h, interconnect_master.cpp).

  * `findEntry`, `dispatchRequest` -- the scan of `dispatch_requests_thread` and the translation
    it applies to the request (`addr < end_address`);
  * `getSlaveIdForMemAddr` -- the backdoor lookup (`addr <= end_address`);
  * `getLiniarAddress` -- the way back from a slave offset to a bus address (`addr < end_address`);
  * `getSlaveIdForMemAddr_agrees_iff` -- on which maps and addresses the backdoor and the
    dispatcher name the same cell: the inclusive bound makes the backdoor stop one entry too early
    at the first address past an entry.
-/
import Mathlib.Tactic.Ring
import Rabbits.Noc.Vci

namespace Rabbits

/-- `interconnect_master_map_el`. -/
structure InterconnectMasterMapEl where
  slaveId : Int
  beginAddress : ULong
  endAddress : ULong
  internOffset : ULong
  deriving DecidableEq

/-- `m_map[0 .. m_nmap)`, in the order of the map file. -/
abbrev AddressMap := List InterconnectMasterMapEl

namespace InterconnectMasterMapEl

/-- The test of `dispatch_requests_thread`: `addr >= begin_address && addr < end_address`. -/
def covers (el : InterconnectMasterMapEl) (addr : ULong) : Bool :=
  el.beginAddress ≤ addr && addr < el.endAddress

/-- The test of `get_slave_id_for_mem_addr`: `addr >= begin_address && addr <= end_address`. -/
def coversOrEnds (el : InterconnectMasterMapEl) (addr : ULong) : Bool :=
  el.beginAddress ≤ addr && addr ≤ el.endAddress

/-- `addr - begin_address + intern_offset`. -/
def slaveOffset (el : InterconnectMasterMapEl) (addr : ULong) : ULong :=
  addr - el.beginAddress + el.internOffset

/-- `begin_address + offset_slave - intern_offset`. -/
def liniarAddress (el : InterconnectMasterMapEl) (offsetSlave : ULong) : ULong :=
  el.beginAddress + offsetSlave - el.internOffset

/-- The tests of `get_liniar_address`: the entry names the slave, and the address it gives for the
    slave offset lies in its own range. -/
def takesBack (el : InterconnectMasterMapEl) (slaveId : Int) (offsetSlave : ULong) : Bool :=
  el.slaveId = slaveId && el.covers (el.liniarAddress offsetSlave)

@[simp] theorem slaveOffset_liniarAddress (el : InterconnectMasterMapEl) (o : ULong) :
    el.slaveOffset (el.liniarAddress o) = o := by
  unfold slaveOffset liniarAddress
  ring

@[simp] theorem liniarAddress_slaveOffset (el : InterconnectMasterMapEl) (a : ULong) :
    el.liniarAddress (el.slaveOffset a) = a := by
  unfold slaveOffset liniarAddress
  ring

theorem coversOrEnds_iff (el : InterconnectMasterMapEl) (addr : ULong) :
    el.coversOrEnds addr = true ↔
      el.covers addr = true ∨ (el.beginAddress ≤ addr ∧ addr = el.endAddress) := by
  simp only [coversOrEnds, covers, Bool.and_eq_true, decide_eq_true_eq]
  constructor
  · intro hyp
    obtain ⟨hb, he⟩ := hyp
    by_cases h : addr = el.endAddress
    · exact .inr ⟨hb, h⟩
    · exact .inl ⟨hb, BitVec.lt_of_le_ne he h⟩
  · intro hor
    rcases hor with ⟨hb, he⟩ | ⟨hb, rfl⟩
    · exact ⟨hb, BitVec.le_of_lt he⟩
    · exact ⟨hb, BitVec.le_refl _⟩

theorem covers_ne_end {el : InterconnectMasterMapEl} {addr : ULong} (h : el.covers addr = true) :
    addr ≠ el.endAddress := by
  intro heq
  subst heq
  simp only [covers, Bool.and_eq_true, decide_eq_true_eq] at h
  exact BitVec.lt_irrefl _ h.2

end InterconnectMasterMapEl

/-! ## 1. The three scans -/

/-- The loop of `dispatch_requests_thread`: the first entry that covers the address. `none` is
    `i == m_nmap`, where the thread prints "Cannot map the address" and ends the program. -/
def findEntry (map : AddressMap) (addr : ULong) : Option InterconnectMasterMapEl :=
  map.find? (·.covers addr)

/-- What `dispatch_requests_thread` makes of a request before it hands it to the slave. -/
def dispatchRequest (map : AddressMap) (req : VciRequest) : Option VciRequest :=
  (findEntry map req.address).map fun el =>
    { req with
      initialAddress := req.address
      slaveId := el.slaveId
      address := el.slaveOffset req.address }

/-- `interconnect_master::get_slave_id_for_mem_addr`: the slave id, and the address it leaves in
    its reference parameter. -/
def getSlaveIdForMemAddr : AddressMap → ULong → Int × ULong
  | [], addr => (-1, addr)
  | el :: map, addr =>
      if el.coversOrEnds addr then (el.slaveId, el.slaveOffset addr)
      else getSlaveIdForMemAddr map addr

/-- `interconnect_master::get_liniar_address`: the address it leaves in its reference parameter
    when it returns 1. -/
def getLiniarAddress (map : AddressMap) (slaveId : Int) (offsetSlave : ULong) : Option ULong :=
  (map.find? (·.takesBack slaveId offsetSlave)).map (·.liniarAddress offsetSlave)

theorem dispatchRequest_eq_none_iff (map : AddressMap) (req : VciRequest) :
    dispatchRequest map req = none ↔ findEntry map req.address = none := by
  simp [dispatchRequest]

/-- **What one dispatch does**: the request goes out through the first entry that covers its
    address, with every field but the three address fields unchanged. -/
theorem dispatchRequest_eq_some_iff (map : AddressMap) (req req' : VciRequest) :
    dispatchRequest map req = some req' ↔
      ∃ before el after, map = before ++ el :: after ∧
        (∀ p ∈ before, p.covers req.address = false) ∧ el.covers req.address = true ∧
        req' = { req with
          initialAddress := req.address
          slaveId := el.slaveId
          address := el.slaveOffset req.address } := by
  simp only [dispatchRequest, findEntry, Option.map_eq_some_iff, List.find?_eq_some_iff_append]
  constructor
  · intro hyp
    obtain ⟨el, ⟨hc, before, after, hmap, hb⟩, rfl⟩ := hyp
    exact ⟨before, el, after, hmap, by simpa using hb, hc, rfl⟩
  · intro hyp
    obtain ⟨before, el, after, hmap, hb, hc, rfl⟩ := hyp
    exact ⟨el, ⟨hc, before, after, hmap, by simpa using hb⟩, rfl⟩

/-! ## 2. The backdoor against the dispatcher -/

theorem getSlaveIdForMemAddr_of_none {map : AddressMap} {addr : ULong}
    (h : ∀ p ∈ map, p.coversOrEnds addr = false) : getSlaveIdForMemAddr map addr = (-1, addr) := by
  induction map with
  | nil => rfl
  | cons el map ih =>
      have hel := h el List.mem_cons_self
      have hmap : ∀ p ∈ map, p.coversOrEnds addr = false := fun p hp =>
        h p (List.mem_cons_of_mem _ hp)
      simp [getSlaveIdForMemAddr, hel, ih hmap]

theorem getSlaveIdForMemAddr_of_first {before after : AddressMap} {el : InterconnectMasterMapEl}
    {addr : ULong} (hb : ∀ p ∈ before, p.coversOrEnds addr = false)
    (hel : el.coversOrEnds addr = true) :
    getSlaveIdForMemAddr (before ++ el :: after) addr = (el.slaveId, el.slaveOffset addr) := by
  induction before with
  | nil => simp [getSlaveIdForMemAddr, hel]
  | cons p before ih =>
      have hp := hb p List.mem_cons_self
      simp [getSlaveIdForMemAddr, hp, ih fun q hq => hb q (List.mem_cons_of_mem _ hq)]

theorem not_covers_of_not_coversOrEnds {el : InterconnectMasterMapEl} {addr : ULong}
    (h : el.coversOrEnds addr = false) : el.covers addr = false := by
  have hor := (el.coversOrEnds_iff addr).not
  simp only [h, Bool.false_eq_true, not_false_eq_true, true_iff, not_or] at hor
  simpa using hor.1

/-- The dispatcher skips what the backdoor skips. -/
theorem findEntry_append {before after : AddressMap} {addr : ULong}
    (hb : ∀ p ∈ before, p.coversOrEnds addr = false) :
    findEntry (before ++ after) addr = findEntry after addr := by
  have hnone : before.find? (·.covers addr) = none := by
    rw [List.find?_eq_none]
    intro p hp
    simp [not_covers_of_not_coversOrEnds (hb p hp)]
  simp [findEntry, List.find?_append, hnone]

/-- Either no entry reaches the address even inclusively, or there is a first one that does. -/
theorem coversOrEnds_cases (map : AddressMap) (addr : ULong) :
    (∀ p ∈ map, p.coversOrEnds addr = false) ∨
      ∃ before el after, map = before ++ el :: after ∧
        (∀ p ∈ before, p.coversOrEnds addr = false) ∧ el.coversOrEnds addr = true := by
  cases h : map.find? (·.coversOrEnds addr) with
  | none => exact .inl (by simpa using h)
  | some el =>
      obtain ⟨hel, before, after, hmap, hb⟩ := List.find?_eq_some_iff_append.mp h
      exact .inr ⟨before, el, after, hmap, by simpa using hb, hel⟩

/-- The backdoor and the dispatcher agree at an address: where the dispatcher translates, the
    backdoor gives the same slave and the same offset, and the backdoor gives -1 exactly where
    the dispatcher finds no entry. -/
def BackdoorAgrees (map : AddressMap) (addr : ULong) : Prop :=
  (∀ req req' : VciRequest, req.address = addr → dispatchRequest map req = some req' →
    getSlaveIdForMemAddr map addr = (req'.slaveId, req'.address)) ∧
  ((getSlaveIdForMemAddr map addr).1 = -1 ↔
    ∀ req : VciRequest, req.address = addr → dispatchRequest map req = none)

/-- Where the inclusive bound does no harm: the entry that covers the address is not numbered -1,
    and an entry that ENDS at the address with no earlier entry reaching it is continued by the
    entry that covers the address (same slave, same shift), or is itself numbered -1 when the
    address is unmapped. -/
def InclusiveBoundHarmless (map : AddressMap) (addr : ULong) : Prop :=
  (∀ el, map.find? (·.covers addr) = some el → el.slaveId ≠ -1) ∧
  ∀ before el after, map = before ++ el :: after →
    (∀ p ∈ before, p.coversOrEnds addr = false) →
    el.beginAddress ≤ addr → addr = el.endAddress →
    match after.find? (·.covers addr) with
    | some e => e.slaveId = el.slaveId ∧
        e.internOffset - e.beginAddress = el.internOffset - el.beginAddress
    | none => el.slaveId = -1

theorem slaveOffset_eq_iff (e el : InterconnectMasterMapEl) (addr : ULong) :
    e.slaveOffset addr = el.slaveOffset addr ↔
      e.internOffset - e.beginAddress = el.internOffset - el.beginAddress := by
  have h (x : InterconnectMasterMapEl) :
      x.slaveOffset addr = addr + (x.internOffset - x.beginAddress) := by
    unfold InterconnectMasterMapEl.slaveOffset
    ring
  rw [h, h, BitVec.add_right_inj]

/-- The agreement, with the two scans' results in place of the requests. -/
theorem backdoorAgrees_iff (map : AddressMap) (addr : ULong) :
    BackdoorAgrees map addr ↔
      (∀ el, findEntry map addr = some el →
        getSlaveIdForMemAddr map addr = (el.slaveId, el.slaveOffset addr)) ∧
      ((getSlaveIdForMemAddr map addr).1 = -1 ↔ findEntry map addr = none) := by
  have hreq (a : ULong) : ∃ req : VciRequest, req.address = a :=
    ⟨{ (default : VciRequest) with address := a }, rfl⟩
  unfold BackdoorAgrees
  refine and_congr ⟨fun h el hel => ?_, fun h req req' ha hd => ?_⟩ (iff_congr Iff.rfl ?_)
  · obtain ⟨req, ha⟩ := hreq addr
    exact h req _ ha (by rw [dispatchRequest, ha, hel]; rfl)
  · subst ha
    simp only [dispatchRequest, Option.map_eq_some_iff] at hd
    obtain ⟨el, hel, rfl⟩ := hd
    exact h el hel
  · constructor
    · intro h
      obtain ⟨req, rfl⟩ := hreq addr
      exact (dispatchRequest_eq_none_iff map req).mp (h req rfl)
    · intro h req heq
      subst heq
      exact (dispatchRequest_eq_none_iff map req).mpr h

/-- The two scans at an address where the first entry reached covers it. -/
theorem agrees_of_covers {before : AddressMap} (after : AddressMap) {el : InterconnectMasterMapEl}
    {addr : ULong} (hb : ∀ p ∈ before, p.coversOrEnds addr = false) (hel : el.covers addr = true) :
    findEntry (before ++ el :: after) addr = some el ∧
      getSlaveIdForMemAddr (before ++ el :: after) addr = (el.slaveId, el.slaveOffset addr) := by
  refine ⟨?_, getSlaveIdForMemAddr_of_first hb ((el.coversOrEnds_iff addr).mpr (.inl hel))⟩
  rw [findEntry_append hb]
  simp [findEntry, hel]

/-- The two scans at an address where the first entry reached ends. -/
theorem agrees_of_ends {before : AddressMap} (after : AddressMap) {el : InterconnectMasterMapEl}
    {addr : ULong} (hb : ∀ p ∈ before, p.coversOrEnds addr = false) (h1 : el.beginAddress ≤ addr)
    (h2 : addr = el.endAddress) :
    findEntry (before ++ el :: after) addr = after.find? (·.covers addr) ∧
      getSlaveIdForMemAddr (before ++ el :: after) addr = (el.slaveId, el.slaveOffset addr) := by
  refine ⟨?_, getSlaveIdForMemAddr_of_first hb ((el.coversOrEnds_iff addr).mpr (.inr ⟨h1, h2⟩))⟩
  have hel : el.covers addr = false := by
    by_contra h
    exact InterconnectMasterMapEl.covers_ne_end (by simpa using h) h2
  rw [findEntry_append hb]
  simp [findEntry, hel]

/-- **Where the backdoor and the bus reach the same cell**, for every map and every address. -/
theorem getSlaveIdForMemAddr_agrees_iff (map : AddressMap) (addr : ULong) :
    BackdoorAgrees map addr ↔ InclusiveBoundHarmless map addr := by
  rw [backdoorAgrees_iff]
  constructor
  · intro hyp
    obtain ⟨hsame, hnone⟩ := hyp
    refine ⟨fun el hel hid => ?_, ?_⟩
    · have hs := hsame el hel
      rw [hs, hid] at hnone
      have hf := hnone.mp rfl
      rw [findEntry, hel] at hf
      cases hf
    · intro before el after heq hb h1 h2
      subst heq
      obtain ⟨hf, hg⟩ := agrees_of_ends after hb h1 h2
      cases he : after.find? (·.covers addr) with
      | none =>
          rw [he] at hf
          rw [hg] at hnone
          exact hnone.mpr hf
      | some e =>
          have hs := hsame e (hf.trans he)
          rw [hg, Prod.mk.injEq] at hs
          exact ⟨hs.1.symm, (slaveOffset_eq_iff e el addr).mp hs.2.symm⟩
  · intro hyp
    obtain ⟨hid, hends⟩ := hyp
    rcases coversOrEnds_cases map addr with hmiss | ⟨before, el, after, rfl, hb, hel⟩
    · -- no entry reaches the address: both scans run through
      have hf : findEntry map addr = none := by
        simpa [findEntry] using @findEntry_append map [] addr hmiss
      rw [hf, getSlaveIdForMemAddr_of_none hmiss]
      simp
    · rcases (el.coversOrEnds_iff addr).mp hel with hc | ⟨h1, h2⟩
      · obtain ⟨hf, hg⟩ := agrees_of_covers after hb hc
        have hne := hid el hf
        rw [hf, hg]
        simp [hne]
      · obtain ⟨hf, hg⟩ := agrees_of_ends after hb h1 h2
        have hm := hends before el after rfl hb h1 h2
        rw [hf, hg]
        cases he : after.find? (·.covers addr) with
        | none =>
            rw [he] at hm
            simpa using hm
        | some e =>
            rw [he] at hm
            have hne := hid e (hf.trans he)
            have ho := (slaveOffset_eq_iff e el addr).mpr hm.2
            rw [hm.1] at hne
            simp [hm.1, ho, hne]

/-- The map of node 1 of the energizer platform (maps/node1.map). -/
def energizerNode1 : AddressMap :=
  [⟨5, 0x00000000, 0x08001000, 0⟩, ⟨6, 0xA7000000, 0xA8000000, 0⟩, ⟨7, 0xA5000000, 0xA6000000, 0⟩,
   ⟨8, 0xA8000000, 0xA9000000, 0⟩, ⟨9, 0xAA000000, 0xAB000000, 0⟩, ⟨10, 0xA9000000, 0xA9100000, 0⟩,
   ⟨12, 0xA6000000, 0xA7000000, 0⟩, ⟨13, 0xA4000000, 0xA5000000, 0⟩, ⟨1, 0xAC000000, 0xAC010000, 0⟩]

/-- On a shipped map the first byte of the tty (slave 8) is looked up as the byte past the end of
    the sram (slave 6). -/
theorem getSlaveIdForMemAddr_misses_tty : ¬ BackdoorAgrees energizerNode1 0xA8000000 := by
  rw [backdoorAgrees_iff]
  intro h
  have htty := h.1 ⟨8, 0xA8000000, 0xA9000000, 0⟩ (by decide)
  exact absurd htty (by decide)

end Rabbits
