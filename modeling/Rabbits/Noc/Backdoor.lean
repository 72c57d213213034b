/-
  File:      Rabbits/Noc/Backdoor.lean
  Subject:   The host address of a cell (main.cpp: systemc_get_mem_addr and the slave table;
             slave_device.h: get_mem).

  The address is that of the slave's memory plus the offset that the backdoor lookup leaves. Nobody
  asks whether the slave exists, whether it has a memory, and how large it is.

  * `systemcGetMemAddr` -- the function, with the table of the slaves;
  * `InReachedMemory` -- the result is the dummy buffer, or inside the memory of the slave that the
    interconnect reaches;
  * `in_reached_memory_iff` -- **for which maps, tables and addresses it is**.
-/
import Rabbits.Noc.Invalidate
import Rabbits.Noc.MapLoader

namespace Rabbits

/-! ## 1. The model -/

/-- `get_mem` of a slave: NULL, or an array of this size. -/
abbrev SlaveMem := Option ULong

/-- `slaves`; behind the last one, and at a NULL, there is no slave. -/
abbrev SlaveTable := List (Option SlaveMem)

/-- `slaves[id]`. -/
def slaveAt (slaves : SlaveTable) (id : Int) : Option SlaveMem :=
  if 0 ≤ id then slaves[id.toNat]?.join else none

/-- A result: the dummy buffer, an index from the begin of a slave's memory, or from NULL. -/
inductive HostAddr where
  | dummy
  | inMem (slaveId : Int) (index : ULong)
  | fromNull (index : ULong)
  deriving DecidableEq

/-- `get_mem () + index`. -/
def hostAddr (slaveId : Int) (index : ULong) : SlaveMem → HostAddr
  | none => .fromNull index
  | some _ => .inMem slaveId index

/-- `systemc_get_mem_addr`; `none` where `get_mem` is called without a slave. -/
def systemcGetMemAddr (map : AddressMap) (slaves : SlaveTable) (addr : ULong) : Option HostAddr :=
  let r := getSlaveIdForMemAddr map addr
  if r.1 = -1 then some .dummy
  else (slaveAt slaves r.1).map (hostAddr r.1 r.2)

/-- The slave has a memory, and the index is inside it. -/
def HasIndex (slaves : SlaveTable) (id : Int) (index : ULong) : Prop :=
  ∃ size, slaveAt slaves id = some (some size) ∧ index < size

/-- The result is the dummy buffer, or the byte at the slave's offset in the memory of the slave
    that the interconnect reaches at the address. -/
def InReachedMemory (map : AddressMap) (slaves : SlaveTable) (addr : ULong) : Prop :=
  systemcGetMemAddr map slaves addr = some .dummy ∨
    ∃ s o, ReachesCell map addr s o ∧ HasIndex slaves s o ∧
      systemcGetMemAddr map slaves addr = some (.inMem s o)

/-! ## 2. Where the result is right -/

/-- What `el` makes of an address is what the interconnect makes of it: the address is not the end
    of its range, or the entry behind it for the address goes on with the same slave and shift. -/
def GoesOn (el : InterconnectMasterMapEl) (after : AddressMap) (addr : ULong) : Prop :=
  addr ≠ el.endAddress ∨
    ∃ e, findEntry after addr = some e ∧ e.slaveId = el.slaveId ∧
      e.internOffset - e.beginAddress = el.internOffset - el.beginAddress

/-- The first entry that reaches the address, its end included, is numbered -1, or goes on and leads
    into a memory. -/
def BackdoorSafe (map : AddressMap) (slaves : SlaveTable) (addr : ULong) : Prop :=
  ∀ before el after, map = before ++ el :: after →
    (∀ p ∈ before, p.coversOrEnds addr = false) → el.coversOrEnds addr = true →
    el.slaveId = -1 ∨
      (GoesOn el after addr ∧ HasIndex slaves el.slaveId (el.slaveOffset addr))

section First

variable {before after : AddressMap} {el : InterconnectMasterMapEl} {addr : ULong}
  {slaves : SlaveTable}

theorem reachesCell_iff_goesOn (hb : ∀ p ∈ before, p.coversOrEnds addr = false)
    (hel : el.coversOrEnds addr = true) :
    ReachesCell (before ++ el :: after) addr el.slaveId (el.slaveOffset addr) ↔
      GoesOn el after addr := by
  rcases (el.coversOrEnds_iff addr).mp hel with hc | ⟨h1, h2⟩
  · have hne := InterconnectMasterMapEl.covers_ne_end hc
    have hfind := (agrees_of_covers after hb hc).1
    exact iff_of_true ⟨el, hfind, rfl, rfl⟩ (.inl hne)
  · have hfind : findEntry (before ++ el :: after) addr = findEntry after addr :=
      (agrees_of_ends after hb h1 h2).1
    have hend : ¬ addr ≠ el.endAddress := not_not.mpr h2
    simp only [ReachesCell, GoesOn, hfind, hend, false_or, slaveOffset_eq_iff]

theorem systemcGetMemAddr_of_first (hb : ∀ p ∈ before, p.coversOrEnds addr = false)
    (hel : el.coversOrEnds addr = true) (hid : el.slaveId ≠ -1) :
    systemcGetMemAddr (before ++ el :: after) slaves addr =
      (slaveAt slaves el.slaveId).map (hostAddr el.slaveId (el.slaveOffset addr)) := by
  simp only [systemcGetMemAddr, getSlaveIdForMemAddr_of_first hb hel, hid, if_false]

theorem inReachedMemory_of_first (hb : ∀ p ∈ before, p.coversOrEnds addr = false)
    (hel : el.coversOrEnds addr = true) (hid : el.slaveId ≠ -1) :
    InReachedMemory (before ++ el :: after) slaves addr ↔
      GoesOn el after addr ∧ HasIndex slaves el.slaveId (el.slaveOffset addr) := by
  have hres : systemcGetMemAddr (before ++ el :: after) slaves addr =
      (slaveAt slaves el.slaveId).map (hostAddr el.slaveId (el.slaveOffset addr)) :=
    systemcGetMemAddr_of_first hb hel hid
  rw [← reachesCell_iff_goesOn hb hel]
  unfold InReachedMemory
  rw [hres]
  constructor
  · intro h
    rcases h with hdummy | ⟨s, o, hreach, hindex, heq⟩
    · obtain ⟨mem, -, hmem⟩ := Option.map_eq_some_iff.mp hdummy
      cases mem <;> cases hmem
    · obtain ⟨mem, -, hmem⟩ := Option.map_eq_some_iff.mp heq
      cases mem with
      | none => cases hmem
      | some size =>
          cases hmem
          exact ⟨hreach, hindex⟩
  · intro h
    obtain ⟨hreach, size, hsize, hlt⟩ := h
    refine .inr ⟨_, _, hreach, ⟨size, hsize, hlt⟩, ?_⟩
    rw [hsize]
    rfl

end First

/-- **Where the host address is right**: for every map, table and address. -/
theorem in_reached_memory_iff (map : AddressMap) (slaves : SlaveTable) (addr : ULong) :
    InReachedMemory map slaves addr ↔ BackdoorSafe map slaves addr := by
  constructor
  · intro h before el after hmap hb hel
    subst hmap
    by_cases hid : el.slaveId = -1
    · exact .inl hid
    · exact .inr ((inReachedMemory_of_first hb hel hid).mp h)
  · intro h
    rcases coversOrEnds_cases map addr with hmiss | ⟨before, el, after, rfl, hb, hel⟩
    · refine .inl ?_
      rw [systemcGetMemAddr, getSlaveIdForMemAddr_of_none hmiss]
      rfl
    · rcases h before el after rfl hb hel with hid | hsafe
      · refine .inl ?_
        rw [systemcGetMemAddr, getSlaveIdForMemAddr_of_first hb hel, if_pos hid]
      · by_cases hid : el.slaveId = -1
        · refine .inl ?_
          rw [systemcGetMemAddr, getSlaveIdForMemAddr_of_first hb hel, if_pos hid]
        · exact (inReachedMemory_of_first hb hel hid).mpr hsafe

/-! ## 3. The energizer platform -/

/-- `slaves` of the energizer platform: `mem_device` and `sram_device` have a memory; number 12 is
    reserved. -/
def energizerSlaves : SlaveTable :=
  [some none, some none, some none, some none, some (some 0x01401000#32),
   some (some 0x08001000#32), some (some 0x00800000#32), some none, some none, some none, some none,
   some none, none, some none]

/-- The map gives the static memory of 8 MB a range of 16 MB; the tty has no memory; there is no
    slave 12. -/
theorem past_sram_handed_out :
    loadMap (mapText energizerNode1) = some energizerNode1 ∧
      systemcGetMemAddr energizerNode1 energizerSlaves 0xA7800000#32 =
        some (.inMem 6 0x00800000#32) ∧
      systemcGetMemAddr energizerNode1 energizerSlaves 0xA8000004#32 = some (.fromNull 4#32) ∧
      systemcGetMemAddr energizerNode1 energizerSlaves 0xA6000004#32 = none ∧
      ¬ InReachedMemory energizerNode1 energizerSlaves 0xA7800000#32 := by
  have hid : ∀ el ∈ energizerNode1, IntId el := by
    simp [energizerNode1, IntId]
  have hres : systemcGetMemAddr energizerNode1 energizerSlaves 0xA7800000#32 =
      some (.inMem 6 0x00800000#32) := by decide
  refine ⟨loadMap_mapText hid, hres, by decide, by decide, fun h => ?_⟩
  rcases h with hdummy | ⟨s, o, -, hindex, heq⟩
  · rw [hres] at hdummy
    cases hdummy
  · rw [hres] at heq
    cases heq
    obtain ⟨size, hsize, hlt⟩ := hindex
    cases hsize
    exact absurd hlt (by decide)

end Rabbits
