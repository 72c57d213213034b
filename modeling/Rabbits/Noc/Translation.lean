/-
  File:      Rabbits/Noc/Translation.lean
  Subject:   The two translations of an interconnect master (interconnect_master.h:
             get_liniar_address, interconnect_master.cpp: dispatch_requests_thread).

  Forwards an address selects an entry by its range, backwards a slave and an offset select one by
  the address that it gives for them. On a map whose entries overlap neither in their addresses nor
  in the cells they lead to, each entry is found in both directions.

  * `Leads` -- the cells that an entry leads to; `takesBack_iff_leads` -- they are what it takes back;
  * `EntriesDisjoint` -- two entries without an address or a cell in common;
  * `getLiniarAddress_eq_some_iff_reaches` -- the two translations, on the map;
  * `translations_inverse` -- **the same, with the slaves of the interconnect**.
-/
import Rabbits.Noc.Interconnect
import Rabbits.Noc.Invalidate

namespace Rabbits

namespace InterconnectMasterMapEl

/-- An address of the entry leads to the offset `o` of slave `s`. -/
def Leads (el : InterconnectMasterMapEl) (s : Int) (o : ULong) : Prop :=
  el.slaveId = s ∧ ∃ a, el.covers a = true ∧ el.slaveOffset a = o

/-- What an entry takes back is what it leads to, whatever the two shifts are. -/
theorem takesBack_iff_leads {el : InterconnectMasterMapEl} {s : Int} {o : ULong} :
    el.takesBack s o = true ↔ el.Leads s o := by
  constructor
  · intro h
    obtain ⟨hs, hc⟩ := covers_of_takesBack h
    exact ⟨hs, el.liniarAddress o, hc, el.slaveOffset_liniarAddress o⟩
  · intro h
    obtain ⟨hs, a, hc, ho⟩ := h
    rw [← hs]
    exact takesBack_of_slaveOffset hc ho

end InterconnectMasterMapEl

/-- Two entries share neither an address nor a cell of a slave. -/
structure EntriesDisjoint (p q : InterconnectMasterMapEl) : Prop where
  addresses : ∀ a, ¬ (p.covers a = true ∧ q.covers a = true)
  cells : ∀ s o, ¬ (p.Leads s o ∧ q.Leads s o)

/-- The entry in front of which a pairwise disjoint map is cut is the first one for each of its
    addresses. -/
theorem findEntry_of_disjoint {before after : AddressMap} {el : InterconnectMasterMapEl} {a : ULong}
    (hdis : (before ++ el :: after).Pairwise EntriesDisjoint) (hc : el.covers a = true) :
    findEntry (before ++ el :: after) a = some el := by
  rw [findEntry, List.find?_eq_some_iff_append]
  refine ⟨hc, before, after, rfl, fun p hp => ?_⟩
  have hpel := (List.pairwise_append.mp hdis).2.2 p hp el List.mem_cons_self
  simpa using fun hpc => hpel.addresses a ⟨hpc, hc⟩

/-- **The way back is the way forth**, on a map without overlaps. -/
theorem getLiniarAddress_eq_some_iff_reaches {map : AddressMap}
    (hdis : map.Pairwise EntriesDisjoint) {s : Int} {o a : ULong} :
    getLiniarAddress map s o = some a ↔ ReachesCell map a s o := by
  rw [getLiniarAddress_eq_some_iff]
  constructor
  · intro h
    obtain ⟨before, el, after, rfl, -, hel, rfl⟩ := h
    obtain ⟨hs, hc⟩ := covers_of_takesBack hel
    exact ⟨el, findEntry_of_disjoint hdis hc, hs, el.slaveOffset_liniarAddress o⟩
  · intro h
    obtain ⟨el, hfind, hs, ho⟩ := h
    obtain ⟨hc, before, after, rfl, -⟩ := List.find?_eq_some_iff_append.mp hfind
    have hleads : el.Leads s o := ⟨hs, a, hc, ho⟩
    refine ⟨before, el, after, rfl, fun p hp => ?_, ?_, ?_⟩
    · -- an earlier entry that took the cell back would lead to it as well
      have hpel := (List.pairwise_append.mp hdis).2.2 p hp el List.mem_cons_self
      rw [Bool.eq_false_iff]
      intro htb
      exact hpel.cells s o ⟨InterconnectMasterMapEl.takesBack_iff_leads.mp htb, hleads⟩
    · exact InterconnectMasterMapEl.takesBack_iff_leads.mpr hleads
    · rw [← ho, InterconnectMasterMapEl.liniarAddress_slaveOffset]

variable {n k : Nat}

/-- What a dispatcher sends, by the entry that it finds. -/
theorem dispatchRequestsThread_reaches {map : Fin n → AddressMap} {m : Fin n} {req : VciRequest}
    {s : Fin k} {o : ULong} :
    (∃ req', dispatchRequestsThread map m req = some (s, req') ∧ req'.address = o) ↔
      ReachesCell (map m) req.address s.val o := by
  have hslave (id : Int) : getSlave k id = some s ↔ id = s.val := by
    unfold getSlave
    split
    · rename_i h
      rw [Option.some.injEq, Fin.ext_iff]
      show id.toNat = s.val ↔ id = s.val
      omega
    · rename_i h
      have hlt := s.isLt
      constructor
      · intro hnone
        cases hnone
      · intro hid
        exact absurd ⟨by omega, by omega⟩ h
  unfold ReachesCell dispatchRequestsThread dispatchRequest
  cases hfind : findEntry (map m) req.address with
  | none => simp
  | some el =>
      simp only [Option.map_some, Option.bind_some, Option.map_eq_some_iff, Prod.mk.injEq,
        Option.some.injEq, exists_eq_left']
      constructor
      · intro h
        obtain ⟨req', ⟨s', hs', rfl, rfl⟩, ho⟩ := h
        exact ⟨(hslave _).mp hs', ho⟩
      · intro h
        exact ⟨_, ⟨s, (hslave _).mpr h.1, rfl, rfl⟩, h.2⟩

/-- **The two translations are inverse to each other**: a slave and an offset are translated to an
    address exactly if the dispatcher sends that address to the slave, at the offset. -/
theorem translations_inverse (map : Fin n → AddressMap) (m : Fin n)
    (hdis : (map m).Pairwise EntriesDisjoint) (s : Fin k) (o : ULong) (req : VciRequest) :
    getLiniarAddress (map m) s.val o = some req.address ↔
      ∃ req', dispatchRequestsThread map m req = some (s, req') ∧ req'.address = o := by
  rw [dispatchRequestsThread_reaches]
  exact getLiniarAddress_eq_some_iff_reaches hdis

/-- Entries with ranges one behind the other, of different slaves. -/
theorem EntriesDisjoint.of_apart {p q : InterconnectMasterMapEl}
    (haddr : p.endAddress ≤ q.beginAddress ∨ q.endAddress ≤ p.beginAddress)
    (hslave : p.slaveId ≠ q.slaveId) : EntriesDisjoint p q := by
  refine ⟨fun a h => ?_, fun s o h => hslave (h.1.1.trans h.2.1.symm)⟩
  simp only [InterconnectMasterMapEl.covers, Bool.and_eq_true, decide_eq_true_eq, BitVec.le_def,
    BitVec.lt_def] at h haddr
  omega

theorem energizerNode1_disjoint : energizerNode1.Pairwise EntriesDisjoint := by
  have hapart : energizerNode1.Pairwise fun p q =>
      (p.endAddress ≤ q.beginAddress ∨ q.endAddress ≤ p.beginAddress) ∧ p.slaveId ≠ q.slaveId := by
    decide
  exact hapart.imp fun h => .of_apart h.1 h.2

/-- The mailbox (slave 1) of the energizer platform, as its CPUs see it. -/
theorem translations_inverse_mailbox :
    getLiniarAddress energizerNode1 (1 : Fin 14).val 0#32 = some mailboxWrite.address ↔
      ∃ req', dispatchRequestsThread (fun _ : Fin 5 => energizerNode1) 1 mailboxWrite =
        some ((1 : Fin 14), req') ∧ req'.address = 0#32 :=
  translations_inverse (fun _ => energizerNode1) 1 energizerNode1_disjoint 1 0#32 mailboxWrite

end Rabbits
