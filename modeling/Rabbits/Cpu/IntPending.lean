/-
  File:      Rabbits/Cpu/IntPending.lean
  Subject:   The interrupt that a CPU reads as the pending one (qemu_cpu_wrapper.cpp:
             GET_SYSTEMC_MAX_INT_PENDING, qemu_wrapper.cpp: get_int_status).

  The software interrupts are those of the CPU that reads. The lines are those of the whole wrapper:
  `get_int_status` does not look at the routing, although the wrapper keeps the status of each CPU.

  * `maxIntPending` -- the value read, with its two loops; `maxIntPending_eq` -- what it is;
  * `IntSource`, `Pending` -- what may be pending for a CPU, and when it is;
  * `ReadsPending` -- the value names the first pending source, and no two pending sources share one;
  * `reads_pending_iff` -- **for which states and CPUs it does**, in every reachable state.
-/
import Mathlib.Data.Nat.Find
import Mathlib.Order.Bounds.Basic
import Rabbits.Cpu.Interrupts

namespace Rabbits

open Lib

variable {ncpu : Nat}

/-! ## 1. The read -/

/-- `while ((i & m_swi) == 0) i <<= 1;`, at most `n` turns. -/
def swiLoop (swi : ULong) : Nat → ULong → Option ULong
  | 0, _ => none
  | n + 1, i => if i &&& swi = 0#32 then swiLoop swi n (i <<< 1) else some i

/-- `while (val) { val >>= 1; i++; }`, at most `n` turns. -/
def shiftLoop : Nat → ULong → ULong → Option ULong
  | 0, val, i => if val = 0#32 then some i else none
  | n + 1, val, i => if val = 0#32 then some i else shiftLoop n (val >>> 1) (i + 1#32)

/-- `get_int_status`. -/
def QemuWrapper.getIntStatus (q : QemuWrapper ncpu) : ULong :=
  q.interruptsRawStatus &&& q.interruptsEnable

/-- The read of GET_SYSTEMC_MAX_INT_PENDING; `none` is a loop that goes on after 32 turns. -/
def QemuWrapper.maxIntPending (q : QemuWrapper ncpu) (cpu : Fin ncpu) : Option ULong :=
  if q.swi cpu ≠ 0#32 then swiLoop (q.swi cpu) 32 1#32
  else
    let val := q.getIntStatus
    if val = 0#32 then some 1023#32
    else (shiftLoop 32 (val &&& -val) 0#32).map fun i => 32#32 + i - 1#32

/-! ## 2. The first bit -/

/-- The lowest bit that is set. -/
def FirstBit (x : ULong) (k : Nat) : Prop :=
  k < 32 ∧ x.getLsbD k = true ∧ ∀ j < k, x.getLsbD j = false

theorem exists_firstBit {x : ULong} (h : x ≠ 0#32) : ∃ k, FirstBit x k := by
  have hex : ∃ k, x.getLsbD k = true := by
    by_contra hnone
    apply h
    apply BitVec.eq_of_getLsbD_eq
    intro k hk
    simpa using not_exists.mp hnone k
  refine ⟨Nat.find hex, ?_, Nat.find_spec hex, fun j hj => by simpa using Nat.find_min hex hj⟩
  exact BitVec.lt_of_getLsbD (Nat.find_spec hex)

theorem bit_succ (k : Nat) : bit k <<< 1 = bit (k + 1) := by
  rw [bit, bit, BitVec.shiftLeft_add]

theorem bit_shiftRight {k : Nat} (hk : k + 1 < 32) : bit (k + 1) >>> 1 = bit k := by
  apply BitVec.eq_of_getLsbD_eq
  intro j hj
  rw [BitVec.getLsbD_ushiftRight, getLsbD_bit hk, getLsbD_bit (by omega)]
  simp
  omega

/-- The loop over `m_swi` from a bit that is not behind the first one. -/
theorem swiLoop_eq {swi : ULong} {k n j : Nat} (hk : FirstBit swi k) (hj : j ≤ k) (hn : k < j + n) :
    swiLoop swi n (bit j) = some (bit k) := by
  induction n generalizing j with
  | zero => omega
  | succ n ih =>
      have hj32 : j < 32 := Nat.lt_of_le_of_lt hj hk.1
      have hbit := bit_and_ne_zero hj32 swi
      by_cases heq : j = k
      · subst heq
        rw [hk.2.1, bne_iff_ne] at hbit
        rw [swiLoop, if_neg hbit]
      · rw [hk.2.2 j (by omega), bne_eq_false_iff_eq] at hbit
        rw [swiLoop, if_pos hbit, bit_succ]
        exact ih (by omega) (by omega)

/-- `val & (-val)`. -/
theorem and_neg_eq {x : ULong} {k : Nat} (hk : FirstBit x k) : x &&& -x = bit k := by
  apply BitVec.eq_of_getLsbD_eq
  intro j hj
  rw [BitVec.getLsbD_and, BitVec.getLsbD_neg, getLsbD_bit hk.1]
  rcases Nat.lt_trichotomy j k with hlt | rfl | hgt
  · rw [hk.2.2 j hlt]
    simp [Nat.ne_of_lt hlt]
  · have hnone : ¬ ∃ i < j, x.getLsbD i = true := by
      intro hyp
      obtain ⟨i, hi, hbit⟩ := hyp
      rw [hk.2.2 i hi] at hbit
      cases hbit
    simp [hk.2.1, hnone]
  · have hex : ∃ i < j, x.getLsbD i = true := ⟨k, hgt, hk.2.1⟩
    simp [hex, hj, Nat.ne_of_gt hgt]

theorem bit_ne_zero {k : Nat} (hk : k < 32) : bit k ≠ 0#32 :=
  ne_zero_of_getLsbD (i := k) (by rw [getLsbD_bit hk]; exact decide_eq_true rfl)

/-- The loop that counts the shifts. -/
theorem shiftLoop_eq {k n : Nat} (hk : k < 32) (hn : k < n) (i : ULong) :
    shiftLoop n (bit k) i = some (i + BitVec.ofNat 32 (k + 1)) := by
  induction k generalizing n i with
  | zero =>
      obtain ⟨n, rfl⟩ : ∃ m, n = m + 1 := ⟨n - 1, by omega⟩
      have hzero : bit 0 >>> 1 = 0#32 := by decide
      rw [shiftLoop, if_neg (bit_ne_zero hk), hzero]
      cases n <;> rfl
  | succ k ih =>
      obtain ⟨n, rfl⟩ : ∃ m, n = m + 1 := ⟨n - 1, by omega⟩
      rw [shiftLoop, if_neg (bit_ne_zero hk), bit_shiftRight hk, ih (by omega) (by omega)]
      rw [BitVec.add_assoc, ← BitVec.ofNat_add, Nat.add_comm 1]

/-- **What the CPU reads.** -/
theorem maxIntPending_swi {q : QemuWrapper ncpu} {cpu : Fin ncpu} {k : Nat}
    (hk : FirstBit (q.swi cpu) k) : q.maxIntPending cpu = some (bit k) := by
  rw [QemuWrapper.maxIntPending, if_pos (ne_zero_of_getLsbD hk.2.1)]
  exact swiLoop_eq hk (Nat.zero_le k) (by have := hk.1; omega)

theorem maxIntPending_irq {q : QemuWrapper ncpu} {cpu : Fin ncpu} {k : Nat}
    (hswi : q.swi cpu = 0#32) (hk : FirstBit q.getIntStatus k) :
    q.maxIntPending cpu = some (32#32 + BitVec.ofNat 32 k) := by
  have hne := ne_zero_of_getLsbD hk.2.1
  simp only [QemuWrapper.maxIntPending, hswi, ne_eq, not_true_eq_false, if_false, hne]
  rw [and_neg_eq hk, shiftLoop_eq hk.1 hk.1]
  have hcount : 32#32 + (0#32 + BitVec.ofNat 32 (k + 1)) - 1#32 = 32#32 + BitVec.ofNat 32 k := by
    rw [BitVec.zero_add, BitVec.ofNat_add, ← add_assoc, add_sub_cancel_right]
  rw [Option.map_some, hcount]

theorem maxIntPending_none {q : QemuWrapper ncpu} {cpu : Fin ncpu} (hswi : q.swi cpu = 0#32)
    (h0 : q.getIntStatus = 0#32) : q.maxIntPending cpu = some 1023#32 := by
  simp [QemuWrapper.maxIntPending, hswi, h0]

/-! ## 3. The lines of the whole wrapper -/

variable {w : IrqWiring} {s s' : IrqState ncpu}

/-- `m_interrupts_raw_status` has a bit for each high line. -/
def RawRight (w : IrqWiring) (s : IrqState ncpu) : Prop :=
  ∀ j < 32, s.wrapper.interruptsRawStatus.getLsbD j = (decide (j < w.ninterrupts) && s.lines j)

theorem getLsbD_rawLine_of_ne {edges : Nat → Edge} {raw : ULong} {n j : Nat} (hn : n < 32)
    (hj : j < 32) (h : j ≠ n) : (rawLine edges raw n).getLsbD j = raw.getLsbD j := by
  unfold rawLine
  cases edges n with
  | same => rfl
  | posedge =>
      simp only
      rw [BitVec.getLsbD_or, getLsbD_bit hn, decide_eq_false h, Bool.or_false]
  | negedge =>
      simp only
      rw [BitVec.getLsbD_and, BitVec.getLsbD_not, getLsbD_bit hn, decide_eq_false h, decide_eq_true hj]
      simp

theorem rawScan (old new : Nat → Bool) {raw : ULong} {n : Nat} (hn : n ≤ 32)
    (hraw : ∀ j < n, raw.getLsbD j = old j) {j : Nat} (hj : j < 32) :
    ((List.range n).foldl (rawLine fun i => edgeOf (old i) (new i)) raw).getLsbD j =
      if j < n then new j else raw.getLsbD j := by
  induction n with
  | zero => rfl
  | succ n ih =>
      have hind := ih (by omega) (fun i hi => hraw i (by omega))
      have hn32 : n < 32 := by omega
      have hbit := hraw n (Nat.lt_succ_self n)
      rw [List.range_succ, List.foldl_append, List.foldl_cons, List.foldl_nil]
      generalize (List.range n).foldl (rawLine fun i => edgeOf (old i) (new i)) raw = r at hind
      rcases Nat.lt_trichotomy j n with hlt | rfl | hgt
      · -- a line before: its bit is right already
        rw [if_pos hlt] at hind
        rw [if_pos (Nat.lt_succ_of_lt hlt), ← hind]
        exact getLsbD_rawLine_of_ne hn32 hj (Nat.ne_of_lt hlt)
      · rw [if_neg (Nat.lt_irrefl j), hbit] at hind
        rw [if_pos (Nat.lt_succ_self j)]
        cases ho : old j <;> cases hnew : new j <;>
          simp [rawLine, edgeOf, ho, hnew, hind, BitVec.getLsbD_or, BitVec.getLsbD_and,
            getLsbD_bit hn32]
      · rw [if_neg (by omega)] at hind ⊢
        rw [← hind]
        exact getLsbD_rawLine_of_ne hn32 hj (Nat.ne_of_gt hgt)

theorem rawRight_reach (h : (irqMachine w ncpu).Reach s) : RawRight w s := by
  refine h.invariant (I := RawRight w) ?_ ?_
  · intro s heq j hj
    subst heq
    simp [QemuWrapper.new]
  · intro s s' _ hi hs
    cases hs with
    | edges lines =>
        intro j hj
        have hraw : ∀ i < w.ninterrupts, s.wrapper.interruptsRawStatus.getLsbD i = s.lines i :=
          fun i hi' => by rw [hi i (Nat.lt_of_lt_of_le hi' w.le32)]; simp [hi']
        have hscan := rawScan s.lines lines w.le32 hraw hj
        show ((List.range w.ninterrupts).foldl _ s.wrapper.interruptsRawStatus).getLsbD j = _
        rw [hscan, hi j hj]
        by_cases hjn : j < w.ninterrupts <;> simp [hjn]
    | setIntEnable val => exact hi
    | generateSwi cpuMask swi hswi => exact hi
    | swiAck cpu swiMask =>
        intro j hj
        rw [← hi j hj]
        simp only [QemuWrapper.swiAck]
        split <;> rfl

/-- A bit of `get_int_status`: the line is high and enabled. -/
theorem getLsbD_getIntStatus (h : (irqMachine w ncpu).Reach s) {i : Nat} (hi : i < 32) :
    s.wrapper.getIntStatus.getLsbD i = true ↔
      i < w.ninterrupts ∧ s.lines i = true ∧ s.wrapper.interruptsEnable.getLsbD i = true := by
  rw [QemuWrapper.getIntStatus, BitVec.getLsbD_and, rawRight_reach h i hi]
  simp [and_assoc]

/-! ## 4. What is pending for a CPU -/

/-- A bit of `m_swi`, or a line. -/
inductive IntSource where
  | swi (k : Nat)
  | irq (i : Nat)

/-- The value that names it. -/
def IntSource.value : IntSource → ULong
  | .swi k => bit k
  | .irq i => 32#32 + BitVec.ofNat 32 i

/-- The line is high, enabled and routed to the CPU. -/
def Pending (w : IrqWiring) (s : IrqState ncpu) (cpu : Fin ncpu) : IntSource → Prop
  | .swi k => (s.wrapper.swi cpu).getLsbD k = true
  | .irq i => i < w.ninterrupts ∧ s.lines i = true ∧ s.wrapper.interruptsEnable.getLsbD i = true ∧
      w.routed i cpu = true

instance (w : IrqWiring) (s : IrqState ncpu) (cpu : Fin ncpu) :
    DecidablePred (Pending w s cpu)
  | .swi k => inferInstanceAs (Decidable ((s.wrapper.swi cpu).getLsbD k = true))
  | .irq i => inferInstanceAs (Decidable (i < w.ninterrupts ∧ s.lines i = true ∧
      s.wrapper.interruptsEnable.getLsbD i = true ∧ w.routed i cpu = true))

/-- The CPU reads the first software interrupt, else the first line that is pending for it, else
    1023; and no two sources pending for it have one value. -/
structure ReadsPending (w : IrqWiring) (s : IrqState ncpu) (cpu : Fin ncpu) : Prop where
  swi : ∀ k, FirstBit (s.wrapper.swi cpu) k → s.wrapper.maxIntPending cpu = some (bit k)
  irq : s.wrapper.swi cpu = 0#32 → ∀ i, Pending w s cpu (.irq i) →
    (∀ j < i, ¬ Pending w s cpu (.irq j)) →
    s.wrapper.maxIntPending cpu = some (32#32 + BitVec.ofNat 32 i)
  none : s.wrapper.maxIntPending cpu = some 1023#32 ↔ ∀ src, ¬ Pending w s cpu src
  apart : ∀ a b, Pending w s cpu a → Pending w s cpu b → a.value = b.value → a = b

/-- The first line that is high and enabled is routed to the CPU, unless a software interrupt is
    pending for it; and software interrupt 5, whose value is that of line 0, is not pending with
    it. -/
structure ReadsOwn (w : IrqWiring) (s : IrqState ncpu) (cpu : Fin ncpu) : Prop where
  routed : s.wrapper.swi cpu = 0#32 → ∀ i, FirstBit s.wrapper.getIntStatus i →
    w.routed i cpu = true
  apart : ¬ (Pending w s cpu (.swi 5) ∧ Pending w s cpu (.irq 0))

theorem value_swi_eq_irq : ∀ k < 32, ∀ i < 32,
    IntSource.value (.swi k) = IntSource.value (.irq i) → k = 5 ∧ i = 0 := by
  decide

theorem value_swi_injective {k k' : Nat} (hk : k < 32) (hk' : k' < 32)
    (h : IntSource.value (.swi k) = IntSource.value (.swi k')) : k = k' := by
  have hbit := congrArg (BitVec.getLsbD · k) h
  simp only [IntSource.value, getLsbD_bit hk, getLsbD_bit hk'] at hbit
  simpa using hbit

theorem value_irq_injective {i i' : Nat} (hi : i < 32) (hi' : i' < 32)
    (h : IntSource.value (.irq i) = IntSource.value (.irq i')) : i = i' := by
  have hnat := congrArg BitVec.toNat ((BitVec.add_right_inj _).mp h)
  simp only [BitVec.toNat_ofNat] at hnat
  omega

theorem irq_value_ne_none : ∀ i < 32, IntSource.value (.irq i) ≠ 1023#32 := by
  decide

theorem swi_value_ne_none : ∀ k < 32, IntSource.value (.swi k) ≠ 1023#32 := by
  decide

/-- A source that is pending has a number below 32. -/
theorem Pending.lt {cpu : Fin ncpu} {k : Nat} :
    (Pending w s cpu (.swi k) → k < 32) ∧ (Pending w s cpu (.irq k) → k < 32) :=
  ⟨fun h => BitVec.lt_of_getLsbD h, fun h => Nat.lt_of_lt_of_le h.1 w.le32⟩

theorem apart_of_not_both {cpu : Fin ncpu}
    (h : ¬ (Pending w s cpu (.swi 5) ∧ Pending w s cpu (.irq 0))) :
    ∀ a b, Pending w s cpu a → Pending w s cpu b → a.value = b.value → a = b := by
  intro a b ha hb hv
  cases a with
  | swi k =>
      cases b with
      | swi k' => rw [value_swi_injective (Pending.lt.1 ha) (Pending.lt.1 hb) hv]
      | irq i =>
          obtain ⟨rfl, rfl⟩ := value_swi_eq_irq k (Pending.lt.1 ha) i (Pending.lt.2 hb) hv
          exact absurd ⟨ha, hb⟩ h
  | irq i =>
      cases b with
      | swi k =>
          obtain ⟨rfl, rfl⟩ := value_swi_eq_irq k (Pending.lt.1 hb) i (Pending.lt.2 ha) hv.symm
          exact absurd ⟨hb, ha⟩ h
      | irq i' => rw [value_irq_injective (Pending.lt.2 ha) (Pending.lt.2 hb) hv]

/-- A line that is pending for a CPU is one of the whole wrapper. -/
theorem Pending.getIntStatus (h : (irqMachine w ncpu).Reach s) {cpu : Fin ncpu} {i : Nat}
    (hi : Pending w s cpu (.irq i)) : s.wrapper.getIntStatus.getLsbD i = true :=
  (getLsbD_getIntStatus h (Pending.lt.2 hi)).mpr ⟨hi.1, hi.2.1, hi.2.2.1⟩

theorem FirstBit.pending (h : (irqMachine w ncpu).Reach s) {cpu : Fin ncpu} {i : Nat}
    (hi : FirstBit s.wrapper.getIntStatus i) (hr : w.routed i cpu = true) :
    Pending w s cpu (.irq i) := by
  obtain ⟨hn, hl, he⟩ := (getLsbD_getIntStatus h hi.1).mp hi.2.1
  exact ⟨hn, hl, he, hr⟩

/-- A read that is right names the first line as the CPU's own. -/
theorem ReadsPending.routed {cpu : Fin ncpu} (hread : ReadsPending w s cpu)
    (hswi : s.wrapper.swi cpu = 0#32) {i : Nat} (hi : FirstBit s.wrapper.getIntStatus i) :
    w.routed i cpu = true := by
  have hval := maxIntPending_irq hswi hi
  by_cases hex : ∃ k, Pending w s cpu (.irq k)
  · have hk := Nat.find_spec hex
    have hfirst := hread.irq hswi _ hk fun j hj => Nat.find_min hex hj
    have heq := value_irq_injective hi.1 (Pending.lt.2 hk) (Option.some.inj (hval.symm.trans hfirst))
    rw [heq]
    exact hk.2.2.2
  · have hnone : ∀ src, ¬ Pending w s cpu src := by
      intro src hsrc
      cases src with
      | swi k => simp [Pending, hswi] at hsrc
      | irq k => exact hex ⟨k, hsrc⟩
    have h1023 := hread.none.mpr hnone
    exact absurd (Option.some.inj (hval.symm.trans h1023)) (irq_value_ne_none i hi.1)

/-- With nothing pending for it the CPU reads 1023, where the first line is its own. -/
theorem reads_none_iff (h : (irqMachine w ncpu).Reach s) {cpu : Fin ncpu}
    (hown : s.wrapper.swi cpu = 0#32 → ∀ i, FirstBit s.wrapper.getIntStatus i →
      w.routed i cpu = true) :
    s.wrapper.maxIntPending cpu = some 1023#32 ↔ ∀ src, ¬ Pending w s cpu src := by
  by_cases hswi : s.wrapper.swi cpu = 0#32
  · by_cases h0 : s.wrapper.getIntStatus = 0#32
    · refine iff_of_true (maxIntPending_none hswi h0) fun src hsrc => ?_
      cases src with
      | swi k => simp [Pending, hswi] at hsrc
      | irq i =>
          have hbit := hsrc.getIntStatus h
          simp [h0] at hbit
    · obtain ⟨i, hi⟩ := exists_firstBit h0
      refine iff_of_false ?_ fun hnone => hnone _ (hi.pending h (hown hswi i hi))
      rw [maxIntPending_irq hswi hi]
      exact fun heq => irq_value_ne_none i hi.1 (Option.some.inj heq)
  · obtain ⟨k, hk⟩ := exists_firstBit hswi
    refine iff_of_false ?_ fun hnone => hnone (.swi k) hk.2.1
    rw [maxIntPending_swi hk]
    exact fun heq => swi_value_ne_none k hk.1 (Option.some.inj heq)

/-- **When a CPU reads what is pending for it**, in every reachable state and for any routing:
    exactly if the first line that is high and enabled is routed to it, or a software interrupt is
    pending, and software interrupt 5 does not meet line 0. -/
theorem reads_pending_iff (h : (irqMachine w ncpu).Reach s) (cpu : Fin ncpu) :
    ReadsPending w s cpu ↔ ReadsOwn w s cpu := by
  constructor
  · intro hread
    refine ⟨fun hswi i hi => hread.routed hswi hi, fun hboth => ?_⟩
    have heq := hread.apart _ _ hboth.1 hboth.2 (by decide)
    cases heq
  · intro hown
    refine ⟨fun k hk => maxIntPending_swi hk, fun hswi i hi hfirst => ?_,
      reads_none_iff h hown.routed, apart_of_not_both hown.apart⟩
    obtain ⟨k, hk⟩ := exists_firstBit (ne_zero_of_getLsbD (hi.getIntStatus h))
    have hle : i ≤ k := Nat.le_of_not_lt fun hlt => hfirst k hlt (hk.pending h (hown.routed hswi k hk))
    have hge : k ≤ i := by
      refine Nat.le_of_not_lt fun hlt => ?_
      have hbit := hi.getIntStatus h
      rw [hk.2.2 i hlt] at hbit
      cases hbit
    rw [maxIntPending_irq hswi hk, Nat.le_antisymm hle hge]

/-- Line 0 goes to CPU 0 and line 1 to CPU 1; both are high and enabled. -/
def twoLines : IrqWiring := ⟨2, fun i => if i = 0 then 1#32 else 2#32, by decide⟩

def bothHigh : IrqState 2 :=
  ⟨((QemuWrapper.new 2).setIntEnable 3#32).interruptsThread twoLines
    fun i => edgeOf false (i < 2), (· < 2)⟩

theorem bothHigh_reach : (irqMachine twoLines 2).Reach bothHigh := by
  have h0 : (irqMachine twoLines 2).Reach ⟨QemuWrapper.new 2, fun _ => false⟩ := .start rfl
  have h1 := h0.step (.setIntEnable _ 3#32)
  exact h1.step (.edges _ (· < 2))

theorem reads_pending_iff_first : ReadsPending twoLines bothHigh 0 ↔ ReadsOwn twoLines bothHigh 0 :=
  reads_pending_iff bothHigh_reach 0

/-- CPU 1 reads 32, the line of CPU 0; its own is 33. -/
theorem reads_other_cpu : ∃ s : IrqState 2, (irqMachine twoLines 2).Reach s ∧
    s.wrapper.maxIntPending 1 = some 32#32 ∧ ¬ ReadsPending twoLines s 1 := by
  refine ⟨bothHigh, bothHigh_reach, by decide, fun h => ?_⟩
  have hread := h.irq (by decide) 1 ⟨by decide, by decide, by decide, by decide⟩ fun j hj hp => by
    obtain rfl := Nat.lt_one_iff.mp hj
    exact absurd hp.2.2.2 (by decide)
  exact absurd hread (by decide)

end Rabbits
