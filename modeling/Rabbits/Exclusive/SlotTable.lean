/-
  File:      Rabbits/Exclusive/SlotTable.lean
  Subject:   The exclusive monitor of the energizer and thumper platforms
             (platforms/energizer/main.cpp, platforms/thumper/main.cpp).

  One entry for each reserved word, with ONE CPU: the first to mark it. A test changes nothing;
  only a clear frees the entry. The two platforms differ in the number of entries they warn about.

  * `Slot.step`, `Slot.exec` -- the three calls, and a history of them; `none` is a write past the
    end of `mem_exclusive`;
  * `Slot.holds_step` -- an entry stays until its word is cleared;
  * `Slot.test_after_mark_iff` -- **a mark that finds the word taken gives nothing**: until the word
    is cleared, the tests of the CPU that made it fail.
-/
import Rabbits.Exclusive.Calls

namespace Rabbits.Slot

open Lib ExclusiveCall

/-! ## 1. The table -/

/-- `mem_exclusive_t`. -/
structure MemExclusive where
  addr : ULong
  cpu : Nat
  deriving DecidableEq

/-- What the calls use of `init_struct`, and the number of entries that is not reported yet. -/
structure Platform where
  gdbPort : Int
  quiet : Nat

/-- `no_cpus + 1` entries are not reported. -/
def energizer (noCpus : Nat) (gdbPort : Int) : Platform := ⟨gdbPort, noCpus + 1⟩

/-- `no_cpus` entries are not reported. -/
def thumper (noCpus : Nat) (gdbPort : Int) : Platform := ⟨gdbPort, noCpus⟩

/-- A printed warning, and the SIGINT to the own process group that follows it under gdb. -/
inductive Report where
  | warning
  | sigint
  deriving DecidableEq

def warn (p : Platform) : List Report := if p.gdbPort > 0 then [.warning, .sigint] else [.warning]

/-- The loop of all three calls: the entry of a word. -/
def findEntry (t : List MemExclusive) (w : ULong) : Option Nat := t.findIdx? (·.addr == w)

def memoryMarkExclusive (p : Platform) (cpu : Nat) (addr : ULong) (t : List MemExclusive) :
    Option (List MemExclusive × List Report) :=
  match findEntry t (wordOf addr) with
  | some _ => some (t, [])
  | none =>
      if t.length < MEM_EXCLUSIVE_SIZE then
        some (t ++ [⟨wordOf addr, cpu⟩], if t.length + 1 > p.quiet then warn p else [])
      else none

def memoryTestExclusive (cpu : Nat) (addr : ULong) (t : List MemExclusive) : Nat :=
  match findEntry t (wordOf addr) with
  | some i => if cpu ≠ (t.getD i ⟨0#32, 0⟩).cpu then 1 else 0
  | none => 1

def memoryClearExclusive (p : Platform) (_cpu : Nat) (addr : ULong) (t : List MemExclusive) :
    List MemExclusive × List Report :=
  match findEntry t (wordOf addr) with
  | some i => (t.eraseIdx i, [])
  | none => (t, warn p)

def step (p : Platform) (t : List MemExclusive) : ExclusiveCall Nat → Option (List MemExclusive)
  | mark cpu addr => (memoryMarkExclusive p cpu addr t).map Prod.fst
  | test _ _ => some t
  | clear cpu addr => some (memoryClearExclusive p cpu addr t).1

/-- The table after a history of calls. -/
def exec (p : Platform) (h : List (ExclusiveCall Nat)) : Option (List MemExclusive) :=
  h.foldlM (step p) []

/-- What a test returns after a history of calls. -/
def testAfter (p : Platform) (h : List (ExclusiveCall Nat)) (cpu : Nat) (addr : ULong) : Option Nat :=
  (exec p h).map (memoryTestExclusive cpu addr)

/-! ## 2. What one call does to the entries -/

/-- `cpu` has the entry of `w`. -/
def Holds (t : List MemExclusive) (cpu : Nat) (w : ULong) : Prop := ∃ e ∈ t, e.addr = w ∧ e.cpu = cpu

/-- No entry has `w`. -/
def Free (t : List MemExclusive) (w : ULong) : Prop := ∀ e ∈ t, e.addr ≠ w

theorem findEntry_some {t : List MemExclusive} {w : ULong} {i : Nat} (h : findEntry t w = some i) :
    ∃ hi : i < t.length, t[i].addr = w := find_some h

theorem findEntry_none {t : List MemExclusive} {w : ULong} (h : findEntry t w = none) : Free t w :=
  find_none h

section Calls

variable {p : Platform} {t t' : List MemExclusive} (hd : Distinct MemExclusive.addr t)
include hd

/-- A mark takes a free word, and changes nothing else. -/
theorem holds_mark {cpu : Nat} {addr : ULong} (h : step p t (mark cpu addr) = some t') :
    Distinct MemExclusive.addr t' ∧
      ∀ k w, Holds t' k w ↔ Holds t k w ∨ (k = cpu ∧ w = wordOf addr ∧ Free t (wordOf addr)) := by
  simp only [step, memoryMarkExclusive] at h
  split at h
  · next i hf =>
      obtain ⟨hi, hw⟩ := findEntry_some hf
      cases h
      refine ⟨hd, fun k w => ⟨.inl, ?_⟩⟩
      intro hor
      rcases hor with h | ⟨-, -, hfree⟩
      · exact h
      · exact absurd hw (hfree _ (List.getElem_mem hi))
  · next hf =>
      have hfree := findEntry_none hf
      split at h
      · cases h
        refine ⟨hd.append hfree, fun k w => ?_⟩
        simp only [Holds, List.mem_append, List.mem_singleton]
        constructor
        · intro hyp
          obtain ⟨e, he | rfl, hew, hek⟩ := hyp
          · exact .inl ⟨e, he, hew, hek⟩
          · exact .inr ⟨hek.symm, hew.symm, hfree⟩
        · intro hor
          rcases hor with ⟨e, he, hew, hek⟩ | ⟨rfl, rfl, -⟩
          · exact ⟨e, .inl he, hew, hek⟩
          · exact ⟨_, .inr rfl, rfl, rfl⟩
      · cases h

/-- A clear frees its word. -/
theorem holds_clear {cpu : Nat} {addr : ULong} (h : step p t (clear cpu addr) = some t') :
    Distinct MemExclusive.addr t' ∧ ∀ k w, Holds t' k w ↔ Holds t k w ∧ w ≠ wordOf addr := by
  simp only [step, memoryClearExclusive] at h
  split at h
  · next i hf =>
      obtain ⟨hi, hw⟩ := findEntry_some hf
      cases h
      refine ⟨hd.eraseIdx i, fun k w => ?_⟩
      simp only [Holds, hd.mem_eraseIdx_iff hi, hw]
      constructor
      · intro hyp
        obtain ⟨e, ⟨he, hne⟩, rfl, hek⟩ := hyp
        exact ⟨⟨e, he, rfl, hek⟩, hne⟩
      · intro hyp
        obtain ⟨⟨e, he, rfl, hek⟩, hne⟩ := hyp
        exact ⟨e, ⟨he, hne⟩, rfl, hek⟩
  · next hf =>
      cases h
      refine ⟨hd, fun k w => ⟨fun h => ⟨h, ?_⟩, And.left⟩⟩
      intro heq
      subst heq
      obtain ⟨e, he, hew, -⟩ := h
      exact findEntry_none hf e he hew

/-- A test returns 0 to the CPU that has the entry. -/
theorem test_iff (cpu : Nat) (addr : ULong) :
    memoryTestExclusive cpu addr t = 0 ↔ Holds t cpu (wordOf addr) := by
  unfold memoryTestExclusive
  split
  · next i hf =>
      obtain ⟨hi, hw⟩ := findEntry_some hf
      have hget : t.getD i ⟨0#32, 0⟩ = t[i] := by simp [List.getD, hi]
      have hcpu : Holds t cpu (wordOf addr) ↔ cpu = t[i].cpu := by
        constructor
        · intro hyp
          obtain ⟨e, he, hew, rfl⟩ := hyp
          rw [hd.mem_inj he (List.getElem_mem hi) (hew.trans hw.symm)]
        · intro heq
          subst heq
          exact ⟨t[i], List.getElem_mem hi, hw, rfl⟩
      rw [hget, hcpu]
      simp
  · next hf =>
      refine iff_of_false (by decide) ?_
      intro hyp
      obtain ⟨e, he, hew, -⟩ := hyp
      exact findEntry_none hf e he hew

theorem distinct_step {c : ExclusiveCall Nat} (h : step p t c = some t') :
    Distinct MemExclusive.addr t' := by
  cases c with
  | mark cpu addr => exact (holds_mark hd h).1
  | test cpu addr => exact Option.some_inj.mp h ▸ hd
  | clear cpu addr => exact (holds_clear hd h).1

/-- **An entry stays until its word is cleared.** -/
theorem holds_step {c : ExclusiveCall Nat} (h : step p t c = some t') {cpu : Nat} {w : ULong}
    (hw : Holds t cpu w) (hc : ¬ Clears w c) : Holds t' cpu w := by
  cases c with
  | mark k addr => exact ((holds_mark hd h).2 cpu w).mpr (.inl hw)
  | test k addr => exact Option.some_inj.mp h ▸ hw
  | clear k addr =>
      refine ((holds_clear hd h).2 cpu w).mpr ⟨hw, ?_⟩
      intro heq
      subst heq
      exact hc ⟨k, addr, rfl, rfl⟩

end Calls

/-! ## 3. Histories -/

theorem exec_append (p : Platform) (h₁ h₂ : List (ExclusiveCall Nat)) :
    exec p (h₁ ++ h₂) = (exec p h₁).bind fun t => h₂.foldlM (step p) t := by
  simp [exec, List.foldlM_append, Option.bind_eq_bind]

/-- From a table with distinct words, a history keeps them distinct, and keeps the entry of a word
    it does not clear. -/
theorem holds_foldlM {p : Platform} {t t' : List MemExclusive} {h : List (ExclusiveCall Nat)}
    (hd : Distinct MemExclusive.addr t) (hrun : h.foldlM (step p) t = some t') :
    Distinct MemExclusive.addr t' ∧
      ∀ cpu w, (∀ c ∈ h, ¬ Clears w c) → Holds t cpu w → Holds t' cpu w := by
  induction h generalizing t with
  | nil =>
      cases hrun
      exact ⟨hd, fun _ _ _ hw => hw⟩
  | cons c h ih =>
      rw [List.foldlM_cons, Option.bind_eq_bind, Option.bind_eq_some_iff] at hrun
      obtain ⟨t₁, hc, hrest⟩ := hrun
      obtain ⟨hd', hkeep⟩ := ih (distinct_step hd hc) hrest
      refine ⟨hd', fun cpu w hclr hw => hkeep cpu w ?_ ?_⟩
      · exact fun c' hc' => hclr c' (List.mem_cons_of_mem c hc')
      · exact holds_step hd hc hw (hclr c List.mem_cons_self)

/-- **Who marks a word first has it**: as long as the word is not cleared and the table has room,
    the tests of a CPU that has marked it succeed if and only if its mark found no entry of
    another CPU. -/
theorem test_after_mark_iff (p : Platform) (pre post : List (ExclusiveCall Nat)) (cpu : Nat)
    (addr : ULong) (hpost : ∀ c ∈ post, ¬ Clears (wordOf addr) c)
    (hroom : (exec p (pre ++ mark cpu addr :: post)).isSome) :
    testAfter p (pre ++ mark cpu addr :: post) cpu addr = some 0 ↔
      ∀ t, exec p pre = some t → ∀ e ∈ t, e.addr = wordOf addr → e.cpu = cpu := by
  obtain ⟨t', ht'⟩ := Option.isSome_iff_exists.mp hroom
  have hrun := ht'
  rw [exec_append, Option.bind_eq_some_iff] at hrun
  obtain ⟨t, ht, hrun⟩ := hrun
  rw [List.foldlM_cons, Option.bind_eq_bind, Option.bind_eq_some_iff] at hrun
  obtain ⟨t₁, hmark, hrest⟩ := hrun
  have hd : Distinct MemExclusive.addr t := (holds_foldlM .nil ht).1
  obtain ⟨hd₁, hholds⟩ := holds_mark hd hmark
  obtain ⟨hd', hkeep⟩ := holds_foldlM hd₁ hrest
  rw [testAfter, ht', Option.map_some, Option.some_inj, test_iff hd']
  constructor
  · -- an entry of another CPU would still be there
    intro hown s hs e he hew
    cases hs.symm.trans ht
    obtain ⟨e', he', hew', hcpu⟩ := hkeep e.cpu _ hpost ((hholds _ _).mpr (.inl ⟨e, he, hew, rfl⟩))
    obtain ⟨e'', he'', hew'', rfl⟩ := hown
    rw [← hcpu, hd'.mem_inj he' he'' (hew'.trans hew''.symm)]
  · intro hfirst
    refine hkeep cpu _ hpost ((hholds _ _).mpr ?_)
    by_cases hfree : Free t (wordOf addr)
    · exact .inr ⟨rfl, rfl, hfree⟩
    · simp only [Free, not_forall, not_not] at hfree
      obtain ⟨e, he, hew⟩ := hfree
      exact .inl ⟨e, he, hew, hfirst t ht e he hew⟩

theorem test_after_mark_iff_first :
    testAfter (energizer 2 0) [mark 0 0x100#32, mark 1 0x100#32] 0 0x100#32 = some 0 ↔
      ∀ t, exec (energizer 2 0) [] = some t → ∀ e ∈ t, e.addr = wordOf 0x100#32 → e.cpu = 0 :=
  test_after_mark_iff (energizer 2 0) [] [mark 1 0x100#32] 0 0x100#32 (by simp [Clears]) (by decide)

/-- CPU 1 marks a word and gives it up; CPU 0 then marks and tests it in vain. -/
theorem test_after_mark_fails :
    testAfter (energizer 2 0) [mark 1 0x100#32, mark 0 0x100#32] 0 0x100#32 = some 1 ∧
      testAfter (thumper 2 0) [mark 1 0x100#32, mark 0 0x100#32] 0 0x100#32 = some 1 := by
  decide

end Rabbits.Slot
