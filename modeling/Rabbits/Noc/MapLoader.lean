/-
  File:      Rabbits/Noc/MapLoader.lean
  Subject:   The map file of an interconnect master (interconnect_master.cpp: the constructor) and
             the two arrays that the dispatchers index (interconnect.h).

  The loader stores one entry after the other into an array of 50, up to the first line that is no
  entry; nobody compares the number of entries with 50, or a slave id with the number of slaves.

  * `fscanfEntry`, `loadMap` -- one call of `fscanf`, and the loop;
  * `loadMap_eq_some_iff` -- what is loaded are the entries that the text begins with;
  * `loadMap_mapText` -- a map that is written out is loaded back;
  * `in_arrays_iff` -- **the arrays are kept to exactly if each text is rejected or has at most 50
    entries, and each of these that covers an address first names a slave**.
-/
import Rabbits.Lib.Scanf
import Rabbits.Noc.Bus

namespace Rabbits

open Lib Crossbar

universe u v

/-! ## 1. The loader -/

/-- `fscanf (file, "0x%lX 0x%lX 0x%lX %d\n", ...)`. -/
def fscanfEntry : Scan InterconnectMasterMapEl := do
  literal 0 '0'
  literal 0 'x'
  let beginAddress ← scanULong 0
  spaces
  literal 1 '0'
  literal 1 'x'
  let endAddress ← scanULong 1
  spaces
  literal 2 '0'
  literal 2 'x'
  let internOffset ← scanULong 2
  spaces
  let slaveId ← scanInt 3
  spaces
  return ⟨slaveId, beginAddress, endAddress, internOffset⟩

/-- The loop: `none` is "Invalid map file", after one to three of the four values. A call that does
    not fail shortens the text, so there are no more of them than characters. -/
def loadEntries : Nat → List Char → Option AddressMap
  | 0, _ => some []
  | n + 1, s =>
      match fscanfEntry.run s with
      | .error k => if k ≤ 0 then some [] else none
      | .ok (el, s) => (loadEntries n s).map (el :: ·)

/-- `m_map[0 .. m_nmap)` of a map file, `none` where the program ends. -/
def loadMap (text : List Char) : Option AddressMap := loadEntries (text.length + 1) text

/-- `m_map = new interconnect_master_map_el[50]`. -/
def MAP_SIZE : Nat := 50

/-! ## 2. What is loaded -/

/-- The text begins with these entries, and this is left. -/
inductive Entries : List Char → AddressMap → List Char → Prop where
  | nil (s : List Char) : Entries s [] s
  | cons {s t rest : List Char} {el : InterconnectMasterMapEl} {map : AddressMap}
      (h : fscanfEntry.run s = .ok (el, t)) (hmap : Entries t map rest) :
      Entries s (el :: map) rest

/-- Nothing of an entry is left: `fscanf` stops before its first value. -/
def AtEnd (rest : List Char) : Prop := ∃ k ≤ 0, fscanfEntry.run rest = .error k

theorem shorter_fscanfEntry : Shorter fscanfEntry :=
  (shorter_literal 0 '0').bind fun _ =>
  (shorter_literal 0 'x').noLonger.bind fun _ =>
  (noLonger_scanULong 0).bind fun _ =>
  noLonger_spaces.bind fun _ =>
  (shorter_literal 1 '0').noLonger.bind fun _ =>
  (shorter_literal 1 'x').noLonger.bind fun _ =>
  (noLonger_scanULong 1).bind fun _ =>
  noLonger_spaces.bind fun _ =>
  (shorter_literal 2 '0').noLonger.bind fun _ =>
  (shorter_literal 2 'x').noLonger.bind fun _ =>
  (noLonger_scanULong 2).bind fun _ =>
  noLonger_spaces.bind fun _ =>
  (noLonger_scanInt 3).bind fun _ =>
  noLonger_spaces.bind fun _ => noLonger_pure _

theorem loadEntries_eq_some_iff {n : Nat} {s : List Char} (hn : s.length < n) {map : AddressMap} :
    loadEntries n s = some map ↔ ∃ rest, Entries s map rest ∧ AtEnd rest := by
  induction n generalizing s map with
  | zero => exact absurd hn (Nat.not_lt_zero _)
  | succ n ih =>
      unfold loadEntries
      cases hrun : fscanfEntry.run s with
      | error k =>
          constructor
          · intro h
            simp only at h
            split at h
            · next hk =>
                cases h
                exact ⟨s, .nil s, k, hk, hrun⟩
            · cases h
          · intro h
            obtain ⟨rest, hent, hend⟩ := h
            cases hent with
            | nil =>
                obtain ⟨k', hk, hk'⟩ := hend
                rw [hrun] at hk'
                cases hk'
                simp [hk]
            | cons h' =>
                rw [hrun] at h'
                cases h'
      | ok r =>
          obtain ⟨el, t⟩ := r
          have hlen : t.length < n :=
            Nat.lt_of_lt_of_le (shorter_fscanfEntry s (el, t) hrun) (Nat.le_of_lt_succ hn)
          simp only [Option.map_eq_some_iff, ih hlen]
          constructor
          · intro h
            obtain ⟨map, ⟨rest, hent, hend⟩, rfl⟩ := h
            exact ⟨rest, .cons hrun hent, hend⟩
          · intro h
            obtain ⟨rest, hent, hend⟩ := h
            cases hent with
            | nil =>
                obtain ⟨k, -, hk⟩ := hend
                rw [hrun] at hk
                cases hk
            | cons h' hmap =>
                rw [hrun] at h'
                cases h'
                exact ⟨_, ⟨rest, hmap, hend⟩, rfl⟩

/-- **What the loader accepts**: a text with nothing of an entry behind its entries. -/
theorem loadMap_eq_some_iff {text : List Char} {map : AddressMap} :
    loadMap text = some map ↔ ∃ rest, Entries text map rest ∧ AtEnd rest :=
  loadEntries_eq_some_iff (Nat.lt_succ_self _)

/-! ## 3. Maps written out -/

/-- A line of a map file, in front of the others. -/
def entryText (el : InterconnectMasterMapEl) (rest : List Char) : List Char :=
  '0' :: 'x' :: (numeral 16 8 el.beginAddress.toNat ++ (' ' :: '0' :: 'x' ::
    (numeral 16 8 el.endAddress.toNat ++ (' ' :: '0' :: 'x' ::
    (numeral 16 8 el.internOffset.toNat ++ (' ' :: (intText el.slaveId ++ ('\n' :: rest))))))))

def mapText (map : AddressMap) : List Char := map.foldr entryText []

/-- A slave id is an `int`. -/
def IntId (el : InterconnectMasterMapEl) : Prop := -2 ^ 31 ≤ el.slaveId ∧ el.slaveId < 2 ^ 31

theorem intText_head (i : Int) (s : List Char) : (intText i ++ s).dropWhile isSpace =
    intText i ++ s := by
  unfold intText
  split
  · exact (plain_numeral (by decide) (by decide : 10 ≤ 16) Nat.one_pos _ _).1
  · exact List.dropWhile_cons_of_neg (by decide)

theorem fscanfEntry_entryText {el : InterconnectMasterMapEl} (hel : IntId el) (rest : List Char) :
    fscanfEntry.run (entryText el rest) = .ok (el, rest.dropWhile isSpace) := by
  have hblank (s : List Char) : Ends 16 (' ' :: s) := by
    intro c hc
    cases hc
    decide
  have hline (s : List Char) : Ends 10 ('\n' :: s) := by
    intro c hc
    cases hc
    decide
  have hspace (c : Char) (s : List Char) (hc : isSpace c = false) :
      (' ' :: c :: s).dropWhile isSpace = c :: s := by
    rw [List.dropWhile_cons_of_pos (by decide), List.dropWhile_cons_of_neg (by simp [hc])]
  unfold fscanfEntry entryText
  rw [run_bind_of_ok (run_literal 0 '0' _), run_bind_of_ok (run_literal 0 'x' _),
    run_bind_of_ok (scanULong_numeral (by decide) 0 el.beginAddress (hblank _)),
    run_bind_of_ok (run_spaces _), hspace '0' _ (by decide),
    run_bind_of_ok (run_literal 1 '0' _), run_bind_of_ok (run_literal 1 'x' _),
    run_bind_of_ok (scanULong_numeral (by decide) 1 el.endAddress (hblank _)),
    run_bind_of_ok (run_spaces _), hspace '0' _ (by decide),
    run_bind_of_ok (run_literal 2 '0' _), run_bind_of_ok (run_literal 2 'x' _),
    run_bind_of_ok (scanULong_numeral (by decide) 2 el.internOffset (hblank _)),
    run_bind_of_ok (run_spaces _), List.dropWhile_cons_of_pos (by decide), intText_head,
    run_bind_of_ok (scanInt_intText 3 hel (hline _)),
    run_bind_of_ok (run_spaces _), List.dropWhile_cons_of_pos (by decide)]
  rfl

theorem mapText_head (map : AddressMap) : (mapText map).dropWhile isSpace = mapText map := by
  cases map with
  | nil => rfl
  | cons el map => exact List.dropWhile_cons_of_neg (by decide)

theorem entries_mapText {map : AddressMap} (h : ∀ el ∈ map, IntId el) :
    Entries (mapText map) map [] := by
  induction map with
  | nil => exact .nil []
  | cons el map ih =>
      refine .cons (t := mapText map) ?_ (ih fun el hel => h el (.tail _ hel))
      exact (fscanfEntry_entryText (h el (.head _)) (mapText map)).trans (by rw [mapText_head])

/-- **A map that is written out is loaded back.** -/
theorem loadMap_mapText {map : AddressMap} (h : ∀ el ∈ map, IntId el) :
    loadMap (mapText map) = some map :=
  loadMap_eq_some_iff.mpr ⟨[], entries_mapText h, EOF, by decide, rfl⟩

/-! ## 4. The arrays -/

/-- What the masters may put: reads and writes at any address, with their own number. -/
structure Sends {n : Nat} (m : Fin n) (req : VciRequest) : Prop where
  cmd : req.cmd = CMD_WRITE ∨ req.cmd = CMD_READ
  srcid : req.srcid.toNat = m.val

section Arrays

variable {n k : Nat} {D : Type u} {T : Type v} [DecidableEq T]

/-- The runs of the bus in which the masters put such requests. -/
def openMachine (setup : BusSetup n k D) : Machine (Bus n k T D) where
  init x := x = .new setup
  step x x' := ∃ l, BusStep setup x l x' ∧ l.Meets Sends

/-- A response that `dispatch_responses_thread` of the slave has read, or is going to read. -/
def Bus.Returning (x : Bus n k T D) (s : Fin k) (rsp : VciResponse) : Prop :=
  rsp ∈ (x.net.rsp.input s).queued.map Prod.snd ∨ ∃ due, x.net.rsp.dispatcher s = .delay rsp due

theorem returning_of_reach {setup : BusSetup n k D} {x : Bus n k T D}
    (h : (openMachine setup).Reach x) {s : Fin k} {rsp : VciResponse} (hr : x.Returning s rsp) :
    (getMaster n rsp.rsrcid).isSome := by
  have hinv : BusInv setup Sends x := by
    refine h.invariant (I := BusInv setup Sends) ?_ fun x x' _ hi hs => ?_
    · intro x hx
      exact hx ▸ busInv_new
    · obtain ⟨l, hs, hl⟩ := hs
      exact hi.step (fun _ _ h => h.cmd) hs hl
  have hans : Answers setup Sends s rsp := by
    rcases hr with hr | ⟨due, hd⟩
    · obtain ⟨e, he, rfl⟩ := List.mem_map.mp hr
      exact hinv.rsp.written s e (List.mem_of_mem_drop he)
    · exact hinv.rsp.delay s rsp due hd
  obtain ⟨req, rdata, bErr, ⟨m, put, hput, hd⟩, rfl⟩ := hans
  have hid : (slaveRsp req rdata bErr).rsrcid.toNat = m.val := by
    rw [slaveRsp, (dispatchRequestsThread_fields hd).1, hput.srcid]
  simp [getMaster, hid, m.isLt]

end Arrays

/-- The masters' maps, where they are not rejected, fit into `m_map`, and the two dispatchers index
    the arrays of the slaves and of the masters within their bounds. -/
structure InArrays {n : Nat} (texts : Fin n → List Char) (k : Nat) : Prop where
  stored : ∀ m map, loadMap (texts m) = some map → map.length ≤ MAP_SIZE
  slaves : ∀ m map, loadMap (texts m) = some map → ∀ addr el, findEntry map addr = some el →
    (getSlave k el.slaveId).isSome
  masters : ∀ (D T : Type) [DecidableEq T] (setup : BusSetup n k D),
    (∀ m, loadMap (texts m) = some (setup.map m)) → ∀ x : Bus n k T D,
      (openMachine setup).Reach x → ∀ s rsp, x.Returning s rsp → (getMaster n rsp.rsrcid).isSome

/-- The entries of a text that is not rejected: 50 of them at most, and one whose addresses are not
    all covered by the entries before it names one of `k` slaves. -/
def EntriesFit (k : Nat) (text : List Char) : Prop :=
  ∀ map rest, Entries text map rest → AtEnd rest → map.length ≤ MAP_SIZE ∧
    ∀ (before : AddressMap) (el : InterconnectMasterMapEl) (after : AddressMap),
      map = before ++ el :: after →
      (∃ addr, el.covers addr = true ∧ ∀ p ∈ before, p.covers addr = false) →
      0 ≤ el.slaveId ∧ el.slaveId < (k : Int)

theorem getSlave_isSome_iff {k : Nat} {id : Int} :
    (getSlave k id).isSome ↔ 0 ≤ id ∧ id < (k : Int) := by
  unfold getSlave
  split
  · simp
    omega
  · simp
    omega

/-- **When the arrays are kept to**: for any number of masters with their texts and any number of
    slaves, exactly if each text is rejected or its entries fit. -/
theorem in_arrays_iff {n : Nat} (texts : Fin n → List Char) (k : Nat) :
    InArrays texts k ↔ ∀ m, EntriesFit k (texts m) := by
  constructor
  · intro h m map rest hent hend
    have hload := loadMap_eq_some_iff.mpr ⟨rest, hent, hend⟩
    refine ⟨h.stored m map hload, fun before el after hmap hfirst => ?_⟩
    obtain ⟨addr, hel, hbefore⟩ := hfirst
    refine getSlave_isSome_iff.mp (h.slaves m map hload addr el ?_)
    exact List.find?_eq_some_iff_append.mpr
      ⟨hel, before, after, hmap, fun p hp => by simp [hbefore p hp]⟩
  · intro h
    refine ⟨fun m map hload => ?_, fun m map hload addr el hfind => ?_, ?_⟩
    · obtain ⟨rest, hent, hend⟩ := loadMap_eq_some_iff.mp hload
      exact (h m map rest hent hend).1
    · obtain ⟨rest, hent, hend⟩ := loadMap_eq_some_iff.mp hload
      obtain ⟨hel, before, after, hmap, hbefore⟩ := List.find?_eq_some_iff_append.mp hfind
      refine getSlave_isSome_iff.mpr ((h m map rest hent hend).2 before el after hmap ?_)
      exact ⟨addr, hel, fun p hp => by simpa using hbefore p hp⟩
    · intro D T _ setup _ x hreach s rsp hr
      exact returning_of_reach hreach hr

/-- The map of node 0 of the thumper platform (maps/node0.map). -/
def thumperNode0 : AddressMap :=
  [⟨0, 0x00000000, 0x08000000, 0⟩, ⟨1, 0xC1000000, 0xC1000020, 0⟩, ⟨2, 0xC3000000, 0xC3000100, 0⟩,
   ⟨3, 0xC4000000, 0xC4000200, 0⟩, ⟨4, 0xC5000000, 0xC5100000, 0⟩, ⟨5, 0xC6000000, 0xC6100000, 0⟩,
   ⟨6, 0xC2000000, 0xC2000010, 0⟩, ⟨7, 0xC2000010, 0xC2000020, 0⟩, ⟨8, 0xC2000020, 0xC2000030, 0⟩,
   ⟨9, 0xC2000030, 0xC2000040, 0⟩]

/-- Thumper with one processor has seven slaves: the map sends the second timer's addresses to
    slave 7. -/
theorem thumper_slave_missing : ¬ InArrays (fun _ : Fin 3 => mapText thumperNode0) 7 := by
  intro h
  have hload : loadMap (mapText thumperNode0) = some thumperNode0 :=
    loadMap_mapText (by unfold IntId; decide)
  have hslave := h.slaves 0 thumperNode0 hload 0xC2000010 ⟨7, 0xC2000010, 0xC2000020, 0⟩ (by decide)
  exact absurd hslave (by decide)

end Rabbits
