/-
  File:      Rabbits/Exclusive/RogerTable.lean
  Subject:   The exclusive monitor of the roger platform (platforms/roger/main.cpp).

  One entry for each reserved word, with a bit for each CPU that has marked it; a successful test
  and a clear delete the entry, by shifting the entries behind it.

  * `Roger.step`, `Roger.exec` -- the three calls, and a history of them; `none` is a write past
    the end of `mem_exclusive`;
  * `Roger.Reserved` -- what a reservation is, in terms of the history alone;
  * `Roger.Sound` -- the table holds the reservations of the history, kept by `Sound.step`;
  * `Roger.test_iff_reserved` -- **a test succeeds exactly on a reservation**.
-/
import Rabbits.Exclusive.Calls

namespace Rabbits.Roger

open Lib ExclusiveCall

/-! ## 1. The table -/

/-- `mem_exclusive_t`; `cpus` is an `int`. -/
structure MemExclusive where
  addr : ULong
  cpus : BitVec 32
  deriving DecidableEq

/-- `idx_to_bit`. -/
def idxToBit (idx : Fin 32) : BitVec 32 := 1#32 <<< idx.val

/-- The loop of all three calls: the entry of a word. -/
def findEntry (t : List MemExclusive) (w : ULong) : Option Nat := t.findIdx? (·.addr == w)

def memoryMarkExclusive (cpu : Fin 32) (addr : ULong) (t : List MemExclusive) :
    Option (List MemExclusive) :=
  match findEntry t (wordOf addr) with
  | some i => some (t.modify i fun entry => { entry with cpus := entry.cpus ||| idxToBit cpu })
  | none =>
      if t.length < MEM_EXCLUSIVE_SIZE then some (t ++ [⟨wordOf addr, idxToBit cpu⟩]) else none

def deleteEntry (t : List MemExclusive) (i : Nat) : List MemExclusive := t.eraseIdx i

/-- The table after the call, and what it returns. -/
def memoryTestExclusive (cpu : Fin 32) (addr : ULong) (t : List MemExclusive) :
    List MemExclusive × Nat :=
  match findEntry t (wordOf addr) with
  | some i =>
      if (t.getD i ⟨0#32, 0#32⟩).cpus &&& idxToBit cpu ≠ 0#32 then (deleteEntry t i, 0) else (t, 1)
  | none => (t, 1)

def memoryClearExclusive (_cpu : Fin 32) (addr : ULong) (t : List MemExclusive) :
    List MemExclusive :=
  match findEntry t (wordOf addr) with
  | some i => deleteEntry t i
  | none => t

def step (t : List MemExclusive) : ExclusiveCall (Fin 32) → Option (List MemExclusive)
  | mark cpu addr => memoryMarkExclusive cpu addr t
  | test cpu addr => some (memoryTestExclusive cpu addr t).1
  | clear cpu addr => some (memoryClearExclusive cpu addr t)

/-- The table after a history of calls. -/
def exec (h : List (ExclusiveCall (Fin 32))) : Option (List MemExclusive) := h.foldlM step []

/-- What a test returns after a history of calls. -/
def testAfter (h : List (ExclusiveCall (Fin 32))) (cpu : Fin 32) (addr : ULong) : Option Nat :=
  (exec h).map fun t => (memoryTestExclusive cpu addr t).2

/-! ## 2. What a reservation is -/

/-- The call takes away every reservation of `w`: a clear, or a test that succeeds. -/
def Releases (w : ULong) (h : List (ExclusiveCall (Fin 32))) (c : ExclusiveCall (Fin 32)) : Prop :=
  Clears w c ∨ ∃ cpu addr, c = test cpu addr ∧ wordOf addr = w ∧ testAfter h cpu addr = some 0

/-- `cpu` has marked `w`, and since then no test of `w` has succeeded and no call has cleared it. -/
def Reserved (h : List (ExclusiveCall (Fin 32))) (cpu : Fin 32) (w : ULong) : Prop :=
  Since (fun _ => Marks cpu w) (Releases w) h

/-- At most 100 distinct words are reserved. -/
def FewReserved (h : List (ExclusiveCall (Fin 32))) : Prop :=
  ∀ ws : Finset ULong, (∀ w ∈ ws, ∃ cpu, Reserved h cpu w) → ws.card ≤ MEM_EXCLUSIVE_SIZE

/-! ## 3. What one call does to the entries -/

/-- The table has `cpu`'s bit for `w`. -/
def Holds (t : List MemExclusive) (cpu : Fin 32) (w : ULong) : Prop :=
  ∃ e ∈ t, e.addr = w ∧ e.cpus.getLsbD cpu

/-- Distinct words, each held by some CPU. -/
structure Wf (t : List MemExclusive) : Prop where
  distinct : Distinct MemExclusive.addr t
  held : ∀ e ∈ t, ∃ cpu : Fin 32, e.cpus.getLsbD cpu

theorem Wf.nil : Wf [] := ⟨.nil, by simp⟩

theorem idxToBit_eq (cpu : Fin 32) : idxToBit cpu = BitVec.twoPow 32 cpu := by
  rw [BitVec.twoPow_eq, idxToBit]

theorem getLsbD_idxToBit (cpu k : Fin 32) : (idxToBit cpu).getLsbD k ↔ k = cpu := by
  rw [idxToBit_eq, BitVec.getLsbD_twoPow]
  simp [Fin.ext_iff, eq_comm]

theorem and_idxToBit_ne_zero (x : BitVec 32) (cpu : Fin 32) :
    x &&& idxToBit cpu ≠ 0#32 ↔ x.getLsbD cpu := by
  rw [idxToBit_eq, BitVec.and_twoPow]
  have hne : BitVec.twoPow 32 cpu ≠ 0#32 := by
    revert cpu
    decide
  split
  · exact iff_of_true hne ‹_›
  · exact iff_of_false (fun h0 => h0 rfl) ‹_›

theorem findEntry_some {t : List MemExclusive} {w : ULong} {i : Nat} (h : findEntry t w = some i) :
    ∃ hi : i < t.length, t[i].addr = w := find_some h

theorem findEntry_none {t : List MemExclusive} {w : ULong} (h : findEntry t w = none) :
    ∀ e ∈ t, e.addr ≠ w := find_none h

section Calls

variable {t t' : List MemExclusive} (hwf : Wf t) (cpu : Fin 32) (addr : ULong)
include hwf

/-- A mark sets one bit. -/
theorem holds_mark (h : memoryMarkExclusive cpu addr t = some t') :
    Wf t' ∧ ∀ k w, Holds t' k w ↔ (k = cpu ∧ w = wordOf addr) ∨ Holds t k w := by
  unfold memoryMarkExclusive at h
  split at h
  · next i hf =>
      obtain ⟨hi, hw⟩ := findEntry_some hf
      cases h
      refine ⟨⟨hwf.distinct.modify i fun e => rfl, fun e he => ?_⟩, fun k w => ?_⟩
      · rcases (hwf.distinct.mem_modify_iff hi).mp he with rfl | ⟨he, -⟩
        · exact ⟨cpu, by simp [(getLsbD_idxToBit cpu cpu).mpr rfl]⟩
        · exact hwf.held e he
      · simp only [Holds, hwf.distinct.mem_modify_iff hi]
        constructor
        · intro hyp
          obtain ⟨e, rfl | ⟨he, -⟩, hew, hek⟩ := hyp
          · simp only [BitVec.getLsbD_or, Bool.or_eq_true, getLsbD_idxToBit] at hek
            rcases hek with hek | rfl
            · exact .inr ⟨t[i], List.getElem_mem hi, hew, hek⟩
            · exact .inl ⟨rfl, hew.symm.trans hw⟩
          · exact .inr ⟨e, he, hew, hek⟩
        · intro hor
          rcases hor with ⟨rfl, rfl⟩ | ⟨e, he, hew, hek⟩
          · exact ⟨_, .inl rfl, hw, by simp [(getLsbD_idxToBit k k).mpr rfl]⟩
          · by_cases heq : e.addr = t[i].addr
            · obtain rfl := hwf.distinct.mem_inj he (List.getElem_mem hi) heq
              exact ⟨_, .inl rfl, hew, by simp [hek]⟩
            · exact ⟨e, .inr ⟨he, heq⟩, hew, hek⟩
  · next hf =>
      have hnew := findEntry_none hf
      split at h
      · cases h
        refine ⟨⟨hwf.distinct.append hnew, fun e he => ?_⟩, fun k w => ?_⟩
        · rcases List.mem_append.mp he with he | he
          · exact hwf.held e he
          · obtain rfl := List.mem_singleton.mp he
            exact ⟨cpu, (getLsbD_idxToBit cpu cpu).mpr rfl⟩
        · simp only [Holds, List.mem_append, List.mem_singleton]
          constructor
          · intro hyp
            obtain ⟨e, he | rfl, hew, hek⟩ := hyp
            · exact .inr ⟨e, he, hew, hek⟩
            · exact .inl ⟨(getLsbD_idxToBit cpu k).mp hek, hew.symm⟩
          · intro hor
            rcases hor with ⟨rfl, rfl⟩ | ⟨e, he, hew, hek⟩
            · exact ⟨_, .inr rfl, rfl, (getLsbD_idxToBit k k).mpr rfl⟩
            · exact ⟨e, .inl he, hew, hek⟩
      · cases h

/-- A deletion frees a word. -/
theorem holds_deleteEntry {i : Nat} (hi : i < t.length) :
    Wf (deleteEntry t i) ∧ ∀ k w, Holds (deleteEntry t i) k w ↔ w ≠ t[i].addr ∧ Holds t k w := by
  refine ⟨⟨hwf.distinct.eraseIdx i, fun e he => ?_⟩, fun k w => ?_⟩
  · exact hwf.held e ((hwf.distinct.mem_eraseIdx_iff hi).mp he).1
  · simp only [Holds, deleteEntry, hwf.distinct.mem_eraseIdx_iff hi]
    constructor
    · intro hyp
      obtain ⟨e, ⟨he, hne⟩, rfl, hek⟩ := hyp
      exact ⟨hne, e, he, rfl, hek⟩
    · intro hyp
      obtain ⟨hne, e, he, rfl, hek⟩ := hyp
      exact ⟨e, ⟨he, hne⟩, rfl, hek⟩

/-- A test succeeds on its bit, and frees the word then. -/
theorem holds_test : Wf (memoryTestExclusive cpu addr t).1 ∧
    ((memoryTestExclusive cpu addr t).2 = 0 ↔ Holds t cpu (wordOf addr)) ∧
    ∀ k w, Holds (memoryTestExclusive cpu addr t).1 k w ↔
      Holds t k w ∧ ¬ (w = wordOf addr ∧ Holds t cpu (wordOf addr)) := by
  unfold memoryTestExclusive
  split
  · next i hf =>
      obtain ⟨hi, hw⟩ := findEntry_some hf
      have hget : t.getD i ⟨0#32, 0#32⟩ = t[i] := by simp [List.getD, hi]
      have hbit : t[i].cpus &&& idxToBit cpu ≠ 0#32 ↔ Holds t cpu (wordOf addr) := by
        rw [and_idxToBit_ne_zero]
        refine Iff.symm ⟨?_, fun hk => ⟨t[i], List.getElem_mem hi, hw, hk⟩⟩
        intro hyp
        obtain ⟨e, he, hew, hek⟩ := hyp
        obtain rfl := hwf.distinct.mem_inj he (List.getElem_mem hi) (hew.trans hw.symm)
        exact hek
      rw [hget]
      split
      · next hset =>
          have hheld := hbit.mp hset
          obtain ⟨hwf', hholds⟩ := holds_deleteEntry hwf hi
          refine ⟨hwf', by simp [hheld], fun k w => ?_⟩
          rw [hholds, hw]
          simp [hheld, and_comm]
      · next hclear =>
          have hfree : ¬ Holds t cpu (wordOf addr) := fun hheld => hclear (hbit.mpr hheld)
          exact ⟨hwf, by simp [hfree], fun k w => by simp [hfree]⟩
  · next hf =>
      have hfree : ¬ Holds t cpu (wordOf addr) := fun ⟨e, he, hew, _⟩ => findEntry_none hf e he hew
      exact ⟨hwf, by simp [hfree], fun k w => by simp [hfree]⟩

omit hwf in
theorem test_le_one (t : List MemExclusive) : (memoryTestExclusive cpu addr t).2 ≤ 1 := by
  unfold memoryTestExclusive
  split
  · split <;> simp
  · simp

/-- A clear frees its word. -/
theorem holds_clear : Wf (memoryClearExclusive cpu addr t) ∧
    ∀ k w, Holds (memoryClearExclusive cpu addr t) k w ↔ w ≠ wordOf addr ∧ Holds t k w := by
  unfold memoryClearExclusive
  split
  · next i hf =>
      obtain ⟨hi, hw⟩ := findEntry_some hf
      obtain ⟨hwf', hholds⟩ := holds_deleteEntry hwf hi
      exact ⟨hwf', fun k w => by rw [hholds, hw]⟩
  · next hf =>
      refine ⟨hwf, fun k w => ⟨fun h => ⟨?_, h⟩, And.right⟩⟩
      intro heq
      subst heq
      obtain ⟨e, he, hew, -⟩ := h
      exact findEntry_none hf e he hew

end Calls

/-! ## 4. The table holds the reservations -/

theorem exec_append_singleton (h : List (ExclusiveCall (Fin 32))) (c : ExclusiveCall (Fin 32)) :
    exec (h ++ [c]) = (exec h).bind fun t => step t c := by
  simp [exec, List.foldlM_append, Option.bind_eq_bind]

theorem reserved_append_singleton (h : List (ExclusiveCall (Fin 32))) (c : ExclusiveCall (Fin 32))
    (cpu : Fin 32) (w : ULong) :
    Reserved (h ++ [c]) cpu w ↔ Marks cpu w c ∨ (Reserved h cpu w ∧ ¬ Releases w h c) :=
  since_append_singleton h c

/-- The table after a history holds the reservations of the history. -/
structure Sound (h : List (ExclusiveCall (Fin 32))) (t : List MemExclusive) : Prop where
  run : exec h = some t
  wf : Wf t
  holds : ∀ cpu w, Holds t cpu w ↔ Reserved h cpu w

theorem Sound.nil : Sound [] [] where
  run := rfl
  wf := .nil
  holds cpu w := by simp [Holds, Reserved]

section Step

variable {h : List (ExclusiveCall (Fin 32))} {t t' : List MemExclusive}

theorem Sound.testAfter_eq (hs : Sound h t) (cpu : Fin 32) (addr : ULong) :
    testAfter h cpu addr = some (memoryTestExclusive cpu addr t).2 := by
  rw [testAfter, hs.run, Option.map_some]

/-- A test succeeds exactly on a reservation. -/
theorem Sound.test_iff (hs : Sound h t) (cpu : Fin 32) (addr : ULong) :
    testAfter h cpu addr = some 0 ↔ Reserved h cpu (wordOf addr) := by
  rw [hs.testAfter_eq, Option.some_inj, (holds_test hs.wf cpu addr).2.1, hs.holds]

/-- **One call keeps the table sound.** -/
theorem Sound.step (hs : Sound h t) (c : ExclusiveCall (Fin 32)) (hc : step t c = some t') :
    Sound (h ++ [c]) t' := by
  have hrun : exec (h ++ [c]) = some t' := by
    rw [exec_append_singleton, hs.run, Option.bind_some, hc]
  cases c with
  | mark cpu addr =>
      obtain ⟨hwf, hholds⟩ := holds_mark hs.wf cpu addr hc
      refine ⟨hrun, hwf, fun k w => ?_⟩
      have hmarks : Marks k w (mark cpu addr) ↔ k = cpu ∧ w = wordOf addr := by
        simp only [Marks, mark.injEq]
        grind
      have hkeep : ¬ Releases w h (mark cpu addr) := by simp [Releases, Clears]
      rw [hholds, hs.holds, reserved_append_singleton, hmarks]
      simp only [hkeep, not_false_eq_true, and_true]
  | test cpu addr =>
      cases hc
      obtain ⟨hwf, -, hholds⟩ := holds_test hs.wf cpu addr
      refine ⟨hrun, hwf, fun k w => ?_⟩
      have hmarks : ¬ Marks k w (test cpu addr) := by simp [Marks]
      have hrel : Releases w h (test cpu addr) ↔ w = wordOf addr ∧ Reserved h cpu (wordOf addr) := by
        simp only [Releases, Clears, reduceCtorEq, false_and, exists_false, false_or, test.injEq,
          ← hs.test_iff]
        grind
      rw [hholds, hs.holds, hs.holds, reserved_append_singleton, hrel]
      simp only [hmarks, false_or]
  | clear cpu addr =>
      cases hc
      obtain ⟨hwf, hholds⟩ := holds_clear hs.wf cpu addr
      refine ⟨hrun, hwf, fun k w => ?_⟩
      have hmarks : ¬ Marks k w (clear cpu addr) := by simp [Marks]
      have hrel : Releases w h (clear cpu addr) ↔ w = wordOf addr := by
        simp only [Releases, Clears, clear.injEq, reduceCtorEq, false_and, exists_false, or_false]
        grind
      rw [hholds, hs.holds, reserved_append_singleton, hrel]
      simp only [hmarks, false_or, ne_eq, and_comm]

/-- With few words reserved, there is room for one more. -/
theorem Sound.room (hs : Sound h t) {c : ExclusiveCall (Fin 32)} (hfew : FewReserved (h ++ [c])) :
    ∃ t', Roger.step t c = some t' := by
  cases c with
  | mark cpu addr =>
      simp only [Roger.step, memoryMarkExclusive]
      split
      · exact ⟨_, rfl⟩
      · next hf =>
          have hnew : wordOf addr ∉ (t.map MemExclusive.addr).toFinset := by
            simpa using findEntry_none hf
          have hcard := hfew (insert (wordOf addr) (t.map MemExclusive.addr).toFinset) ?_
          · rw [Finset.card_insert_of_notMem hnew, List.toFinset_card_of_nodup hs.wf.distinct,
              List.length_map] at hcard
            exact ⟨_, if_pos hcard⟩
          · intro w hw
            rcases Finset.mem_insert.mp hw with rfl | hw
            · exact ⟨cpu, (reserved_append_singleton _ _ _ _).mpr (.inl ⟨addr, rfl, rfl⟩)⟩
            · obtain ⟨e, he, rfl⟩ := List.mem_map.mp (List.mem_toFinset.mp hw)
              obtain ⟨k, hk⟩ := hs.wf.held e he
              have hres := (hs.holds k e.addr).mp ⟨e, he, rfl, hk⟩
              exact ⟨k, (reserved_append_singleton _ _ _ _).mpr
                (.inr ⟨hres, by simp [Releases, Clears]⟩)⟩
  | test cpu addr => exact ⟨_, rfl⟩
  | clear cpu addr => exact ⟨_, rfl⟩

end Step

/-- The table of a history in which at most 100 words are reserved at once. -/
theorem exists_sound (h : List (ExclusiveCall (Fin 32))) (hfew : ∀ pre, pre <+: h → FewReserved pre) :
    ∃ t, Sound h t := by
  induction h using List.reverseRecOn with
  | nil => exact ⟨[], .nil⟩
  | append_singleton h c ih =>
      obtain ⟨t, ht⟩ := ih fun pre hpre => hfew pre (hpre.trans (List.prefix_append h [c]))
      obtain ⟨t', ht'⟩ := ht.room (hfew _ (List.prefix_refl _))
      exact ⟨t', ht.step c ht'⟩

/-- A successful test leaves its word without a reservation until the next mark. -/
theorem mark_of_reserved (h₁ : List (ExclusiveCall (Fin 32))) (c : ExclusiveCall (Fin 32))
    (h₂ : List (ExclusiveCall (Fin 32))) (cpu : Fin 32) (w : ULong) (hc : ¬ Marks cpu w c)
    (hrel : Releases w h₁ c) (hres : Reserved (h₁ ++ c :: h₂) cpu w) : ∃ m ∈ h₂, Marks cpu w m := by
  induction h₂ using List.reverseRecOn with
  | nil =>
      rcases (reserved_append_singleton h₁ c cpu w).mp hres with hm | ⟨-, hkeep⟩
      · exact absurd hm hc
      · exact absurd hrel hkeep
  | append_singleton h₂ e ih =>
      rw [← List.cons_append, ← List.append_assoc, reserved_append_singleton] at hres
      rcases hres with hm | ⟨hres, -⟩
      · exact ⟨e, by simp, hm⟩
      · obtain ⟨m, hm, hmarks⟩ := ih hres
        exact ⟨m, by simp [hm], hmarks⟩

/-- **The monitor of roger**: a test succeeds exactly on a reservation, so two successful tests of
    a word have a mark of it between them, and a call on another word changes no answer. -/
theorem test_iff_reserved (h : List (ExclusiveCall (Fin 32)))
    (hfew : ∀ pre, pre <+: h → FewReserved pre) :
    (∀ cpu addr, ∃ answer, testAfter h cpu addr = some answer ∧
      (answer = 0 ↔ Reserved h cpu (wordOf addr))) ∧
    (∀ h₁ c₁ a₁ h₂ c₂ a₂, h = h₁ ++ test c₁ a₁ :: (h₂ ++ [test c₂ a₂]) → wordOf a₁ = wordOf a₂ →
      testAfter h₁ c₁ a₁ = some 0 → testAfter (h₁ ++ test c₁ a₁ :: h₂) c₂ a₂ = some 0 →
      ∃ m ∈ h₂, Marks c₂ (wordOf a₂) m) ∧
    (∀ pre c cpu addr, h = pre ++ [c] → c.word ≠ wordOf addr →
      testAfter h cpu addr = testAfter pre cpu addr) := by
  obtain ⟨t, ht⟩ := exists_sound h hfew
  refine ⟨fun cpu addr => ⟨_, ht.testAfter_eq cpu addr, ?_⟩, ?_, ?_⟩
  · rw [(holds_test ht.wf cpu addr).2.1, ht.holds]
  · intro h₁ c₁ a₁ h₂ c₂ a₂ heq hw hok₁ hok₂
    subst heq
    have hpre : h₁ ++ test c₁ a₁ :: h₂ <+: h₁ ++ test c₁ a₁ :: (h₂ ++ [test c₂ a₂]) :=
      ⟨[test c₂ a₂], by simp⟩
    obtain ⟨t', ht'⟩ := exists_sound _ fun pre hp => hfew pre (hp.trans hpre)
    exact mark_of_reserved h₁ (test c₁ a₁) h₂ c₂ (wordOf a₂) (by simp [Marks])
      (.inr ⟨c₁, a₁, rfl, hw, hok₁⟩) ((ht'.test_iff c₂ a₂).mp hok₂)
  · intro pre c cpu addr heq hne
    subst heq
    obtain ⟨t', ht'⟩ := exists_sound pre fun p hp => hfew p (hp.trans (List.prefix_append pre [c]))
    have hmarks : ¬ Marks cpu (wordOf addr) c := fun hm => hne hm.word_eq
    have hkeep : ¬ Releases (wordOf addr) pre c := by
      intro hor
      rcases hor with hclr | ⟨k, a, rfl, hw, -⟩
      · exact hne hclr.word_eq
      · exact hne hw
    have hiff : (memoryTestExclusive cpu addr t).2 = 0 ↔ (memoryTestExclusive cpu addr t').2 = 0 := by
      rw [(holds_test ht.wf cpu addr).2.1, ht.holds, (holds_test ht'.wf cpu addr).2.1, ht'.holds,
        reserved_append_singleton]
      simp only [hmarks, hkeep, false_or, not_false_eq_true, and_true]
    rw [ht.testAfter_eq, ht'.testAfter_eq]
    have h₁ := test_le_one cpu addr t
    have h₂ := test_le_one cpu addr t'
    congr 1
    omega

/-- A history of at most 100 calls reserves at most 100 words. -/
theorem fewReserved_of_length {h : List (ExclusiveCall (Fin 32))}
    (hlen : h.length ≤ MEM_EXCLUSIVE_SIZE) : FewReserved h := by
  intro ws hws
  have hsub : ws ⊆ (h.map ExclusiveCall.word).toFinset := by
    intro w hw
    obtain ⟨cpu, pre, c, post, rfl, hm, -⟩ := hws w hw
    exact List.mem_toFinset.mpr (List.mem_map.mpr ⟨c, by simp, hm.word_eq⟩)
  calc ws.card
    _ ≤ (h.map ExclusiveCall.word).toFinset.card := Finset.card_le_card hsub
    _ ≤ (h.map ExclusiveCall.word).length := List.toFinset_card_le _
    _ ≤ MEM_EXCLUSIVE_SIZE := by rwa [List.length_map]

theorem test_iff_reserved_second_cpu :
    ∃ answer, testAfter [mark 0 0x100#32, mark 1 0x102#32] 1 0x103#32 = some answer ∧
      (answer = 0 ↔ Reserved [mark 0 0x100#32, mark 1 0x102#32] 1 (wordOf 0x103#32)) :=
  (test_iff_reserved [mark 0 0x100#32, mark 1 0x102#32] fun _ hpre =>
    fewReserved_of_length (hpre.length_le.trans (by decide))).1 1 0x103#32

end Rabbits.Roger
