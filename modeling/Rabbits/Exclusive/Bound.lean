/-
  File:      Rabbits/Exclusive/Bound.lean
  Subject:   How many entries the exclusive monitors need (main.cpp of the platforms).

  Nothing bounds `mem_exclusive` but the discipline of its callers: a CPU that marks a second word
  and never stores to the first leaves an entry behind.

  * `Monitor` -- what the two tables have in common;
  * `Monitor.bounded_iff` -- every CPU holds one reservation at most, throughout a history, if and
    only if no mark gives a CPU a word while it holds another;
  * `tables_bounded_iff` -- **the same for the two tables**.
-/
import Rabbits.Exclusive.RogerTable
import Rabbits.Exclusive.SlotTable

namespace Rabbits

open Lib ExclusiveCall

/-! ## 1. A monitor -/

/-- A table of reservations: what it holds, and when a mark gives a CPU its word. -/
structure Monitor (κ τ : Type) where
  init : τ
  step : τ → ExclusiveCall κ → Option τ
  Wf : τ → Prop
  Holds : τ → κ → ULong → Prop
  Gains : τ → κ → ULong → Prop
  size : τ → Nat
  wf_init : Wf init
  holds_init : ∀ k w, ¬ Holds init k w
  wf_step : ∀ {t t' c}, Wf t → step t c = some t' → Wf t'
  holds_mark : ∀ {t t' cpu addr}, Wf t → step t (mark cpu addr) = some t' → ∀ k w,
    (Holds t' k w ↔ Holds t k w ∨ (k = cpu ∧ w = wordOf addr ∧ Gains t cpu (wordOf addr)))
  holds_other : ∀ {t t' c}, Wf t → step t c = some t' → (∀ cpu addr, c ≠ mark cpu addr) →
    ∀ k w, Holds t' k w → Holds t k w
  room : ∀ {t} c, size t < MEM_EXCLUSIVE_SIZE → ∃ t', step t c = some t'
  size_le : ∀ {t} (n : Nat) (Holder : Fin n → ULong → Prop), Wf t →
    (∀ k w, Holds t k w → ∃ i, Holder i w) →
    (∀ i w w', Holder i w → Holder i w' → w = w') → size t ≤ n

namespace Monitor

variable {κ τ : Type} (M : Monitor κ τ)

def exec (h : List (ExclusiveCall κ)) : Option τ := h.foldlM M.step M.init

/-- No write past the table, one reservation at most for each CPU, and no more entries than CPUs. -/
def Bounded (ncpu : Nat) (h : List (ExclusiveCall κ)) : Prop :=
  ∃ t, M.exec h = some t ∧ (∀ k w w', M.Holds t k w → M.Holds t k w' → w = w') ∧ M.size t ≤ ncpu

/-- Each mark of the history that gives its CPU the word finds it without another one. -/
def OneAtATime (h : List (ExclusiveCall κ)) : Prop :=
  ∀ pre cpu addr, pre ++ [mark cpu addr] <+: h → ∀ t, M.exec pre = some t →
    M.Gains t cpu (wordOf addr) → ∀ w, M.Holds t cpu w → w = wordOf addr

variable {M}

theorem exec_append_singleton (h : List (ExclusiveCall κ)) (c : ExclusiveCall κ) :
    M.exec (h ++ [c]) = (M.exec h).bind fun t => M.step t c := by
  simp [exec, List.foldlM_append, Option.bind_eq_bind]

theorem exec_wf {h : List (ExclusiveCall κ)} {t : τ} (ht : M.exec h = some t) : M.Wf t := by
  induction h using List.reverseRecOn generalizing t with
  | nil =>
      cases ht
      exact M.wf_init
  | append_singleton h c ih =>
      rw [exec_append_singleton, Option.bind_eq_some_iff] at ht
      obtain ⟨t₀, ht₀, hc⟩ := ht
      exact M.wf_step (ih ht₀) hc

/-- What holds along a history whose marks find their CPUs free. -/
structure Frugal (M : Monitor κ τ) (id : κ → Nat) (ncpu : Nat) (t : τ) : Prop where
  wf : M.Wf t
  one : ∀ k w w', M.Holds t k w → M.Holds t k w' → w = w'
  lt : ∀ k w, M.Holds t k w → id k < ncpu

variable {id : κ → Nat} {ncpu : Nat}

theorem Frugal.size_le {t : τ} (hid : Function.Injective id) (h : M.Frugal id ncpu t) :
    M.size t ≤ ncpu := by
  refine M.size_le ncpu (fun i w => ∃ k, id k = i ∧ M.Holds t k w) h.wf ?_ ?_
  · exact fun k w hk => ⟨⟨id k, h.lt k w hk⟩, k, rfl, hk⟩
  · intro i w w' hyp hyp'
    obtain ⟨k, hk, hw⟩ := hyp
    obtain ⟨k', hk', hw'⟩ := hyp'
    obtain rfl : k = k' := hid (hk.trans hk'.symm)
    exact h.one k w w' hw hw'

/-- **One call**, if a mark that gives its CPU the word finds it without another one. -/
theorem Frugal.step {t t' : τ} {c : ExclusiveCall κ} (h : M.Frugal id ncpu t)
    (hc : M.step t c = some t') (hcpu : id c.cpu < ncpu)
    (hfree : ∀ cpu addr, c = mark cpu addr → M.Gains t cpu (wordOf addr) →
      ∀ w, M.Holds t cpu w → w = wordOf addr) : M.Frugal id ncpu t' := by
  refine ⟨M.wf_step h.wf hc, fun k w w' hw hw' => ?_, fun k w hw => ?_⟩
  · by_cases hmark : ∃ cpu addr, c = mark cpu addr
    · obtain ⟨cpu, addr, rfl⟩ := hmark
      rcases (M.holds_mark h.wf hc k w).mp hw with hw | ⟨rfl, rfl, hg⟩
      · rcases (M.holds_mark h.wf hc k w').mp hw' with hw' | ⟨rfl, rfl, hg⟩
        · exact h.one k w w' hw hw'
        · exact hfree k addr rfl hg w hw
      · rcases (M.holds_mark h.wf hc k w').mp hw' with hw' | ⟨-, rfl, -⟩
        · exact (hfree k addr rfl hg w' hw').symm
        · rfl
    · have hother : ∀ cpu addr, c ≠ mark cpu addr := fun cpu addr h => hmark ⟨cpu, addr, h⟩
      exact h.one k w w' (M.holds_other h.wf hc hother k w hw) (M.holds_other h.wf hc hother k w' hw')
  · by_cases hmark : ∃ cpu addr, c = mark cpu addr
    · obtain ⟨cpu, addr, rfl⟩ := hmark
      rcases (M.holds_mark h.wf hc k w).mp hw with hw | ⟨rfl, -, -⟩
      · exact h.lt k w hw
      · exact hcpu
    · exact h.lt k w (M.holds_other h.wf hc (fun cpu addr h => hmark ⟨cpu, addr, h⟩) k w hw)

/-- The table along such a history. -/
theorem exists_frugal (hid : Function.Injective id) (hncpu : ncpu < MEM_EXCLUSIVE_SIZE)
    {h : List (ExclusiveCall κ)} (hcpu : ∀ c ∈ h, id c.cpu < ncpu) (hone : M.OneAtATime h) :
    ∃ t, M.exec h = some t ∧ M.Frugal id ncpu t := by
  induction h using List.reverseRecOn with
  | nil => exact ⟨M.init, rfl, M.wf_init, fun k w w' hw => absurd hw (M.holds_init k w),
      fun k w hw => absurd hw (M.holds_init k w)⟩
  | append_singleton h c ih =>
      obtain ⟨t, ht, hfrugal⟩ := ih (fun c' hc' => hcpu c' (by simp [hc'])) fun pre cpu addr hpre =>
        hone pre cpu addr (hpre.trans (List.prefix_append h [c]))
      obtain ⟨t', ht'⟩ := M.room c ((hfrugal.size_le hid).trans_lt hncpu)
      refine ⟨t', by rw [exec_append_singleton, ht, Option.bind_some, ht'], ?_⟩
      refine hfrugal.step ht' (hcpu c (by simp)) fun cpu addr hc hgains w hw => ?_
      subst hc
      exact hone h cpu addr (List.prefix_refl _) t ht hgains w hw

/-- **One reservation for each CPU, throughout a history**, if and only if the marks of the history
    are made one at a time. -/
theorem bounded_iff (hid : Function.Injective id) (hncpu : ncpu < MEM_EXCLUSIVE_SIZE)
    (h : List (ExclusiveCall κ)) (hcpu : ∀ c ∈ h, id c.cpu < ncpu) :
    (∀ pre, pre <+: h → M.Bounded ncpu pre) ↔ M.OneAtATime h := by
  constructor
  · intro hb pre cpu addr hpre t ht hgains w hw
    obtain ⟨t', ht', hone, -⟩ := hb _ hpre
    have hmark : M.step t (mark cpu addr) = some t' := by
      rw [exec_append_singleton, ht, Option.bind_some] at ht'
      exact ht'
    have hholds := M.holds_mark (exec_wf ht) hmark
    exact hone cpu w (wordOf addr) ((hholds cpu w).mpr (.inl hw))
      ((hholds cpu _).mpr (.inr ⟨rfl, rfl, hgains⟩))
  · intro hone pre hpre
    obtain ⟨t, ht, hfrugal⟩ := exists_frugal hid hncpu (fun c hc => hcpu c (hpre.subset hc))
      fun pre' cpu addr hpre' => hone pre' cpu addr (hpre'.trans hpre)
    exact ⟨t, ht, hfrugal.one, hfrugal.size_le hid⟩

end Monitor

/-! ## 2. The two tables -/

/-- The table of roger: every mark gives its CPU the word. -/
def Roger.monitor : Monitor (Fin 32) (List Roger.MemExclusive) where
  init := []
  step := Roger.step
  Wf := Roger.Wf
  Holds := Roger.Holds
  Gains _ _ _ := True
  size := List.length
  wf_init := .nil
  holds_init := by simp [Roger.Holds]
  wf_step {t t' c} hwf h := by
    cases c with
    | mark cpu addr => exact (Roger.holds_mark hwf cpu addr h).1
    | test cpu addr => exact Option.some_inj.mp h ▸ (Roger.holds_test hwf cpu addr).1
    | clear cpu addr => exact Option.some_inj.mp h ▸ (Roger.holds_clear hwf cpu addr).1
  holds_mark {t t' cpu addr} hwf h k w := by
    rw [(Roger.holds_mark hwf cpu addr h).2, or_comm, and_true]
  holds_other {t t' c} hwf h hc k w hw := by
    cases c with
    | mark cpu addr => exact absurd rfl (hc cpu addr)
    | test cpu addr =>
        cases h
        exact (((Roger.holds_test hwf cpu addr).2.2 k w).mp hw).1
    | clear cpu addr =>
        cases h
        exact (((Roger.holds_clear hwf cpu addr).2 k w).mp hw).2
  room {t} c hsize := by
    cases c with
    | mark cpu addr =>
        simp only [Roger.step, Roger.memoryMarkExclusive]
        split
        · exact ⟨_, rfl⟩
        · exact ⟨_, if_pos hsize⟩
    | test cpu addr => exact ⟨_, rfl⟩
    | clear cpu addr => exact ⟨_, rfl⟩
  size_le {t} n Holder hwf hheld hone := by
    refine length_le_of_holders hwf.distinct Holder (fun e he => ?_) hone
    obtain ⟨cpu, hcpu⟩ := hwf.held e he
    exact hheld cpu e.addr ⟨e, he, rfl, hcpu⟩

/-- The table of energizer and thumper: a mark gives its CPU the word if no CPU has it. -/
def Slot.monitor (p : Slot.Platform) : Monitor Nat (List Slot.MemExclusive) where
  init := []
  step := Slot.step p
  Wf := Distinct Slot.MemExclusive.addr
  Holds := Slot.Holds
  Gains t _ w := Slot.Free t w
  size := List.length
  wf_init := .nil
  holds_init := by simp [Slot.Holds]
  wf_step hd h := Slot.distinct_step hd h
  holds_mark hd h := (Slot.holds_mark hd h).2
  holds_other {t t' c} hd h hc k w hw := by
    cases c with
    | mark cpu addr => exact absurd rfl (hc cpu addr)
    | test cpu addr => exact Option.some_inj.mp h ▸ hw
    | clear cpu addr => exact (((Slot.holds_clear hd h).2 k w).mp hw).1
  room {t} c hsize := by
    cases c with
    | mark cpu addr =>
        simp only [Slot.step, Slot.memoryMarkExclusive]
        split
        · exact ⟨_, rfl⟩
        · exact ⟨_, by rw [if_pos hsize]; rfl⟩
    | test cpu addr => exact ⟨_, rfl⟩
    | clear cpu addr => exact ⟨_, rfl⟩
  size_le {t} n Holder hd hheld hone :=
    length_le_of_holders hd Holder (fun e he => hheld e.cpu e.addr ⟨e, he, rfl, rfl⟩) hone

/-- **When the tables are bounded by the number of CPUs**: in a history of calls by `ncpu` CPUs,
    every CPU holds one reservation at most throughout, the table has no more entries than CPUs
    and no call writes past its end, if and only if each mark that gives its CPU the word finds
    that CPU without another reservation. -/
theorem tables_bounded_iff (ncpu : Nat) (hncpu : ncpu ≤ 32) :
    (∀ h : List (ExclusiveCall (Fin 32)), (∀ c ∈ h, c.cpu.val < ncpu) →
      ((∀ pre, pre <+: h → Roger.monitor.Bounded ncpu pre) ↔ Roger.monitor.OneAtATime h)) ∧
    ∀ (p : Slot.Platform) (h : List (ExclusiveCall Nat)), (∀ c ∈ h, c.cpu < ncpu) →
      ((∀ pre, pre <+: h → (Slot.monitor p).Bounded ncpu pre) ↔ (Slot.monitor p).OneAtATime h) := by
  have hroom : ncpu < MEM_EXCLUSIVE_SIZE := hncpu.trans_lt (by decide)
  exact ⟨Monitor.bounded_iff Fin.val_injective hroom,
    fun p => Monitor.bounded_iff Function.injective_id hroom⟩

theorem tables_bounded_iff_one :
    (∀ pre, pre <+: [mark (0 : Fin 32) 0x100#32, mark 0 0x102#32] → Roger.monitor.Bounded 1 pre) ↔
      Roger.monitor.OneAtATime [mark (0 : Fin 32) 0x100#32, mark 0 0x102#32] :=
  (tables_bounded_iff 1 (by decide)).1 _ (by decide)

/-- `n` words, marked by one CPU. -/
def marksOf {κ : Type} (cpu : κ) (n : Nat) : List (ExclusiveCall κ) :=
  (List.range n).map fun i => mark cpu (BitVec.ofNat 32 (4 * i))

/-- One CPU marks two words and holds both; with 101 words it writes past the table. -/
theorem tables_not_bounded :
    ¬ Roger.monitor.Bounded 1 (marksOf 0 2) ∧
      ¬ (Slot.monitor (Slot.energizer 1 0)).Bounded 1 (marksOf 0 2) ∧
      Roger.exec (marksOf 0 101) = none ∧ Slot.exec (Slot.energizer 1 0) (marksOf 0 101) = none := by
  refine ⟨?_, ?_, by decide +kernel, by decide +kernel⟩
  · intro hyp
    obtain ⟨t, ht, -, hsize⟩ := hyp
    cases ht
    exact absurd hsize (by decide)
  · intro hyp
    obtain ⟨t, ht, -, hsize⟩ := hyp
    cases ht
    exact absurd hsize (by decide)

end Rabbits
