/-
  File:      Rabbits/Noc/Invalidate.lean
  Subject:   The invalidation of translated code after a write (slave_device.cpp `send_rsp`,
             main.cpp `invalidate_address`).

  A slave with `m_write_invalidate` set tells every qemu_wrapper which address a write changed:
  the writer's own wrapper gets the bus address, every other wrapper the address at which its own
  map places the cell. The second is computed by `get_liniar_address` from a slave offset, and
  `send_rsp` passes the bus address (`initial_address`) where that offset belongs.

  * `invalidateAddress`, `sendRspInvalidates` -- the two functions, as the calls they make;
  * `sendRspInvalidates_reaches_iff` -- for which maps the address passed to another wrapper leads
    to the written cell.
-/
import Rabbits.Noc.AddressMap

namespace Rabbits

/-- What `invalidate_address` reads of a qemu_wrapper: `m_cpus[0]->m_node_id` and `m_ncpu`. -/
structure WrapperNodes where
  firstNodeId : Int
  ncpu : Int

/-- `src_id >= first_node_id && src_id < first_node_id + qw->m_ncpu`. -/
def WrapperNodes.owns (qw : WrapperNodes) (srcId : Int) : Bool :=
  qw.firstNodeId ≤ srcId && srcId < qw.firstNodeId + qw.ncpu

/-- The wrappers of a platform (`qemu_wrapper::s_wrappers`) and the map of each interconnect
    master, by its node id. -/
structure Platform (nw : Nat) where
  wrappers : Fin nw → WrapperNodes
  map : Int → AddressMap

/-- One call `qw->invalidate_address (address, idx_src)`. -/
structure InvalidateCall (nw : Nat) where
  wrapper : Fin nw
  address : ULong
  idxSrc : Int

variable {nw : Nat}

/-- The calls one turn of the loop of `invalidate_address` makes. -/
def invalidateWrapper (pf : Platform nw) (addr : ULong) (slaveId : Int) (offsetSlave : ULong)
    (srcId : Int) (i : Fin nw) : Option (InvalidateCall nw) :=
  let qw := pf.wrappers i
  if qw.owns srcId then some ⟨i, addr, srcId - qw.firstNodeId⟩
  else (getLiniarAddress (pf.map qw.firstNodeId) slaveId offsetSlave).map fun taddr => ⟨i, taddr, -1⟩

/-- `invalidate_address` of the platforms' main.cpp (the same text in all three). -/
def invalidateAddress (pf : Platform nw) (addr : ULong) (slaveId : Int) (offsetSlave : ULong)
    (srcId : Int) : List (InvalidateCall nw) :=
  (List.finRange nw).filterMap (invalidateWrapper pf addr slaveId offsetSlave srcId)

/-- The first lines of `slave_device::send_rsp`, for the request `m_req`. -/
def sendRspInvalidates (pf : Platform nw) (writeInvalidate : Bool) (req : VciRequest) :
    List (InvalidateCall nw) :=
  if writeInvalidate && req.cmd = CMD_WRITE then
    invalidateAddress pf req.initialAddress req.slaveId req.initialAddress req.srcid.toNat
  else []

/-! ## 1. What a wrapper is told -/

theorem mem_invalidateAddress {pf : Platform nw} {addr offsetSlave : ULong} {slaveId srcId : Int}
    {c : InvalidateCall nw} :
    c ∈ invalidateAddress pf addr slaveId offsetSlave srcId ↔
      invalidateWrapper pf addr slaveId offsetSlave srcId c.wrapper = some c := by
  have hw {i : Fin nw} (h : invalidateWrapper pf addr slaveId offsetSlave srcId i = some c) :
      c.wrapper = i := by
    unfold invalidateWrapper at h
    dsimp only at h
    split at h
    · cases h; rfl
    · obtain ⟨taddr, -, rfl⟩ := Option.map_eq_some_iff.mp h
      rfl
  simp only [invalidateAddress, List.mem_filterMap, List.mem_finRange, true_and]
  constructor
  · intro hyp
    obtain ⟨i, hi⟩ := hyp
    rw [hw hi]
    exact hi
  · intro h
    exact ⟨_, h⟩

/-- An address a master sends leads to slave `s` at offset `o`. -/
def ReachesCell (map : AddressMap) (addr : ULong) (s : Int) (o : ULong) : Prop :=
  ∃ el, findEntry map addr = some el ∧ el.slaveId = s ∧ el.slaveOffset addr = o

/-- The wrapper is told about the write, and every address it is told leads to the written cell
    through the wrapper's own map. `req` is the request as it reached the slave. -/
def InvalidatesCell (pf : Platform nw) (req : VciRequest) (i : Fin nw) : Prop :=
  (∃ c ∈ sendRspInvalidates pf true req, c.wrapper = i) ∧
  ∀ c ∈ sendRspInvalidates pf true req, c.wrapper = i →
    ReachesCell (pf.map (pf.wrappers i).firstNodeId) c.address req.slaveId req.address

theorem invalidatesCell_iff {pf : Platform nw} {req : VciRequest} {i : Fin nw}
    (hcmd : req.cmd = CMD_WRITE) (hown : (pf.wrappers i).owns req.srcid.toNat = false) :
    InvalidatesCell pf req i ↔
      ∃ taddr, getLiniarAddress (pf.map (pf.wrappers i).firstNodeId) req.slaveId
          req.initialAddress = some taddr ∧
        ReachesCell (pf.map (pf.wrappers i).firstNodeId) taddr req.slaveId req.address := by
  have hmem (c : InvalidateCall nw) : c ∈ sendRspInvalidates pf true req ∧ c.wrapper = i ↔
      ∃ taddr, getLiniarAddress (pf.map (pf.wrappers i).firstNodeId) req.slaveId
        req.initialAddress = some taddr ∧ c = ⟨i, taddr, -1⟩ := by
    simp only [sendRspInvalidates, hcmd, decide_true, Bool.and_self, if_true]
    rw [mem_invalidateAddress]
    constructor
    · intro hyp
      obtain ⟨h, rfl⟩ := hyp
      simp only [invalidateWrapper, hown, Bool.false_eq_true, if_false] at h
      obtain ⟨taddr, ht, hc⟩ := Option.map_eq_some_iff.mp h
      exact ⟨taddr, ht, hc.symm⟩
    · intro hyp
      obtain ⟨taddr, ht, rfl⟩ := hyp
      simp [invalidateWrapper, hown, ht]
  constructor
  · intro hyp
    obtain ⟨⟨c, hc, hi⟩, hall⟩ := hyp
    obtain ⟨taddr, ht, rfl⟩ := (hmem c).mp ⟨hc, hi⟩
    exact ⟨taddr, ht, hall _ hc hi⟩
  · intro hyp
    obtain ⟨taddr, ht, hr⟩ := hyp
    refine ⟨⟨_, ((hmem ⟨i, taddr, -1⟩).mpr ⟨taddr, ht, rfl⟩).1, rfl⟩, fun c hc hi => ?_⟩
    obtain ⟨t, ht', rfl⟩ := (hmem c).mp ⟨hc, hi⟩
    rw [ht] at ht'
    cases ht'
    exact hr

/-! ## 2. For which maps that is the written cell -/

/-- When the bus address `addr` of a write, which the writer's entry `w` sent to its slave, may be
    passed as the slave offset. `el` is the first entry of the other map that takes that offset
    back, and either `w` maps its range onto the same slave offsets and no earlier entry shadows
    `el`, or `w` shifts and an earlier entry of the same slave happens to undo the shift. -/
def BusAddressIsOffset (w : InterconnectMasterMapEl) (addr : ULong) (map : AddressMap) : Prop :=
  ∃ before el after, map = before ++ el :: after ∧
    (∀ p ∈ before, p.takesBack w.slaveId addr = false) ∧ el.takesBack w.slaveId addr = true ∧
    ((w.beginAddress = w.internOffset ∧
        ∀ p ∈ before, p.covers (el.liniarAddress addr) = false) ∨
      (w.beginAddress ≠ w.internOffset ∧
        ∃ p, before.find? (·.covers (el.liniarAddress addr)) = some p ∧ p.slaveId = w.slaveId ∧
          p.internOffset - p.beginAddress + (el.beginAddress - el.internOffset) =
            w.internOffset - w.beginAddress))

theorem getLiniarAddress_eq_some_iff {map : AddressMap} {s : Int} {o taddr : ULong} :
    getLiniarAddress map s o = some taddr ↔
      ∃ before el after, map = before ++ el :: after ∧
        (∀ p ∈ before, p.takesBack s o = false) ∧ el.takesBack s o = true ∧
        taddr = el.liniarAddress o := by
  simp only [getLiniarAddress, Option.map_eq_some_iff, List.find?_eq_some_iff_append]
  constructor
  · intro hyp
    obtain ⟨el, ⟨hel, before, after, hmap, hb⟩, rfl⟩ := hyp
    exact ⟨before, el, after, hmap, by simpa using hb, hel, rfl⟩
  · intro hyp
    obtain ⟨before, el, after, hmap, hb, hel, rfl⟩ := hyp
    exact ⟨el, ⟨hel, before, after, hmap, by simpa using hb⟩, rfl⟩

theorem covers_of_takesBack {el : InterconnectMasterMapEl} {s : Int} {o : ULong}
    (h : el.takesBack s o = true) : el.slaveId = s ∧ el.covers (el.liniarAddress o) = true := by
  simpa [InterconnectMasterMapEl.takesBack] using h

/-- An entry that covers the computed address and leads back to the offset it was computed from
    would have been taken first. -/
theorem takesBack_of_slaveOffset {p : InterconnectMasterMapEl} {a o : ULong}
    (hc : p.covers a = true) (ho : p.slaveOffset a = o) : p.takesBack p.slaveId o = true := by
  subst ho
  simp [InterconnectMasterMapEl.takesBack, hc]

theorem slaveOffset_eq_self_iff (w : InterconnectMasterMapEl) (addr : ULong) :
    w.slaveOffset addr = addr ↔ w.beginAddress = w.internOffset := by
  have h : w.slaveOffset addr = addr + (w.internOffset - w.beginAddress) := by
    unfold InterconnectMasterMapEl.slaveOffset
    ring
  rw [h]
  constructor
  · intro h'
    have h0 : w.internOffset - w.beginAddress = 0 := by
      simpa using h'
    exact (sub_eq_zero.mp h0).symm
  · intro h'
    rw [h', sub_self, add_zero]

/-- Through an earlier entry the computed address leads to the written offset exactly when that
    entry undoes the two shifts. -/
theorem slaveOffset_shadow_iff (p el w : InterconnectMasterMapEl) (addr : ULong) :
    p.slaveOffset (el.liniarAddress addr) = w.slaveOffset addr ↔
      p.internOffset - p.beginAddress + (el.beginAddress - el.internOffset) =
        w.internOffset - w.beginAddress := by
  have h1 : p.slaveOffset (el.liniarAddress addr) =
      addr + (p.internOffset - p.beginAddress + (el.beginAddress - el.internOffset)) := by
    unfold InterconnectMasterMapEl.slaveOffset InterconnectMasterMapEl.liniarAddress
    ring
  have h2 : w.slaveOffset addr = addr + (w.internOffset - w.beginAddress) := by
    unfold InterconnectMasterMapEl.slaveOffset
    ring
  rw [h1, h2, BitVec.add_right_inj]

/-- The dispatcher goes through the first earlier entry that covers the computed address, and
    through the entry itself when there is none. -/
theorem findEntry_liniarAddress {before after : AddressMap} {el : InterconnectMasterMapEl}
    {s : Int} {o : ULong} (hel : el.takesBack s o = true) :
    findEntry (before ++ el :: after) (el.liniarAddress o) =
      some ((before.find? (·.covers (el.liniarAddress o))).getD el) := by
  have hc := (covers_of_takesBack hel).2
  cases h : before.find? (·.covers (el.liniarAddress o)) with
  | none => simp [findEntry, List.find?_append, h, hc]
  | some p => simp [findEntry, List.find?_append, h]

/-- **When another wrapper is told the right address.** `req` is what the writer's dispatcher made
    of the write, through its entry `w`. (Where the wrapper's map does not cover the written cell,
    both sides are false.) -/
theorem sendRspInvalidates_reaches_iff (pf : Platform nw) (i : Fin nw) (put req : VciRequest)
    (w : InterconnectMasterMapEl)
    (hput : put.cmd = CMD_WRITE)
    (hw : findEntry (pf.map put.srcid.toNat) put.address = some w)
    (hreq : dispatchRequest (pf.map put.srcid.toNat) put = some req)
    (hown : (pf.wrappers i).owns put.srcid.toNat = false) :
    InvalidatesCell pf req i ↔
      BusAddressIsOffset w put.address (pf.map (pf.wrappers i).firstNodeId) := by
  have hr : req = { put with
      initialAddress := put.address, slaveId := w.slaveId, address := w.slaveOffset put.address } := by
    simpa [dispatchRequest, hw] using hreq.symm
  subst hr
  refine (invalidatesCell_iff (i := i) ?_ ?_).trans ?_
  · exact hput
  · exact hown
  unfold BusAddressIsOffset
  constructor
  · intro hyp
    obtain ⟨taddr, ht, e, he, hs, ho⟩ := hyp
    obtain ⟨before, el, after, hmap, hb, hel, rfl⟩ := getLiniarAddress_eq_some_iff.mp ht
    refine ⟨before, el, after, hmap, hb, hel, ?_⟩
    rw [hmap, findEntry_liniarAddress hel, Option.some.injEq] at he
    cases hf : before.find? (·.covers (el.liniarAddress put.address)) with
    | none =>
        rw [hf] at he
        subst he
        rw [Option.getD_none, InterconnectMasterMapEl.slaveOffset_liniarAddress] at ho
        exact .inl ⟨(slaveOffset_eq_self_iff w _).mp ho.symm, by simpa using hf⟩
    | some p =>
        rw [hf] at he
        subst he
        refine .inr ⟨fun heq => ?_, p, rfl, hs, (slaveOffset_shadow_iff p el w _).mp ho⟩
        -- with no shift at the writer, `p` would lead back to the offset `el` was chosen for
        have hp := hb p (List.mem_of_find?_eq_some hf)
        have ho' := ho.trans ((slaveOffset_eq_self_iff w _).mpr heq)
        have hc : p.covers (el.liniarAddress put.address) = true := by
          simpa using List.find?_some hf
        have htb := takesBack_of_slaveOffset hc ho'
        rw [show p.slaveId = w.slaveId from hs] at htb
        simp [hp] at htb
  · intro hyp
    obtain ⟨before, el, after, hmap, hb, hel, hor⟩ := hyp
    refine ⟨_, getLiniarAddress_eq_some_iff.mpr ⟨before, el, after, hmap, hb, hel, rfl⟩, ?_⟩
    unfold ReachesCell
    rw [hmap]
    simp only [findEntry_liniarAddress hel, Option.some.injEq, exists_eq_left']
    rcases hor with ⟨heq, hclear⟩ | ⟨-, p, hp, hs, hsh⟩
    · have hnone : before.find? (·.covers (el.liniarAddress put.address)) = none := by
        simpa using hclear
      rw [hnone]
      refine ⟨(covers_of_takesBack hel).1, ?_⟩
      rw [Option.getD_none, InterconnectMasterMapEl.slaveOffset_liniarAddress]
      exact ((slaveOffset_eq_self_iff w _).mpr heq).symm
    · rw [hp]
      exact ⟨hs, (slaveOffset_shadow_iff p el w _).mpr hsh⟩

/-! ## 3. The energizer platform -/

/-- maps/node0.map of the energizer platform. -/
def energizerNode0 : AddressMap :=
  [⟨4, 0x00000000, 0x01401000, 0⟩, ⟨0, 0xC1000000, 0xC1000020, 0⟩, ⟨1, 0xC3000000, 0xC3010000, 0⟩,
   ⟨2, 0xC4000000, 0xC4000200, 0⟩, ⟨3, 0xC2000000, 0xC2000010, 0⟩, ⟨11, 0xC5000000, 0xC5001000, 0⟩]

/-- The two wrappers of the energizer platform: the energy controller on node 0 and the four
    application CPUs on nodes 1 to 4 (whose map files are equal). -/
def energizer : Platform 2 where
  wrappers
    | 0 => ⟨0, 1⟩
    | 1 => ⟨1, 4⟩
  map
    | 0 => energizerNode0
    | _ => energizerNode1

/-- A write of CPU 1 to the first word of the mailbox (slave 1), which its map places at
    0xAC000000 and the energy controller's map at 0xC3000000. -/
def mailboxWrite : VciRequest :=
  { (default : VciRequest) with
    address := 0xAC000000, cmd := CMD_WRITE, be := 0x0F, srcid := 1 }

/-- What reaches the mailbox. -/
def mailboxWriteAtSlave : VciRequest :=
  { mailboxWrite with initialAddress := 0xAC000000, slaveId := 1, address := 0 }

theorem sendRspInvalidates_reaches_iff_mailbox :
    InvalidatesCell energizer mailboxWriteAtSlave 0 ↔
      BusAddressIsOffset ⟨1, 0xAC000000, 0xAC010000, 0⟩ 0xAC000000 energizerNode0 :=
  sendRspInvalidates_reaches_iff energizer 0 mailboxWrite mailboxWriteAtSlave
    ⟨1, 0xAC000000, 0xAC010000, 0⟩ rfl (by decide) rfl (by decide)

/-- The energy controller can reach the written cell, and is not told about the write. -/
theorem mailbox_write_not_invalidated :
    dispatchRequest (energizer.map mailboxWrite.srcid.toNat) mailboxWrite =
        some mailboxWriteAtSlave ∧
      (energizer.wrappers 0).owns mailboxWrite.srcid.toNat = false ∧
      ReachesCell (energizer.map (energizer.wrappers 0).firstNodeId) 0xC3000000
        mailboxWriteAtSlave.slaveId mailboxWriteAtSlave.address ∧
      ¬ InvalidatesCell energizer mailboxWriteAtSlave 0 := by
  refine ⟨rfl, by decide, ⟨⟨1, 0xC3000000, 0xC3010000, 0⟩, by decide, rfl, by decide⟩, ?_⟩
  rw [invalidatesCell_iff rfl (by decide)]
  intro hyp
  obtain ⟨taddr, ht, -⟩ := hyp
  have hnone : getLiniarAddress energizerNode0 1 0xAC000000 = none := by decide
  exact absurd (hnone.symm.trans ht) (by simp)

end Rabbits
