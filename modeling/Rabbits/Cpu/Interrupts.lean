/-
  File:      Rabbits/Cpu/Interrupts.lean
  Subject:   The interrupt part of qemu_wrapper (qemu_wrapper.cpp: interrupts_thread,
             generate_swi, swi_ack, set_int_enable).

  The wrapper keeps, for each CPU, the raised lines routed to it and the enabled ones among them,
  and tells QEMU the CPU's interrupt level only when it sees a transition itself. `qemu_irq_update`
  and `wakeup` call code outside the repository; they appear as the list of calls made, and the
  level of a CPU is the one last passed for it.

  * `interruptsThread`, `setIntEnable`, `generateSwi`, `swiAck` -- the four operations;
  * `scan_inv` -- what the loop over the lines knows after each line: `bup` is set only over a
    status that stays non-zero, `bdown` alone only over a status that ends at zero;
  * `irqInv_reach`, `irq_level_correct` -- the level of every CPU in every reachable state.

  A CPU number from 32 on has no bit in an `int` mask (`1 << cpu`), so no line is routed to it.
-/
import Mathlib.Tactic.Ring
import Rabbits.Lib.Machine
import Rabbits.Noc.Vci

namespace Rabbits

open Lib

/-! ## 1. The model -/

/-- The wiring given to the constructor: the number of lines and `m_irq_cpu_mask`. -/
structure IrqWiring where
  ninterrupts : Nat
  irqCpuMask : Nat → ULong
  le32 : ninterrupts ≤ 32

/-- `1 << i`, and the value of `val` at line `i`. -/
def bit (i : Nat) : ULong := 1#32 <<< i

/-- `m_irq_cpu_mask[i] & (1 << cpu)`. -/
def IrqWiring.routed (w : IrqWiring) (i cpu : Nat) : Bool := w.irqCpuMask i &&& bit cpu != 0#32

/-- A call into QEMU: `qemu_irq_update (m_qemu_instance, 1 << cpu, level)` or
    `m_cpus[cpu]->wakeup ()`. -/
inductive QemuCall (ncpu : Nat) where
  | irqUpdate (cpu : Fin ncpu) (level : Bool)
  | wakeup (cpu : Fin ncpu)

/-- The interrupt state of a `qemu_wrapper` and of its CPUs (`m_swi`), with the calls made so far. -/
structure QemuWrapper (ncpu : Nat) where
  cpuInterruptsRawStatus : Fin ncpu → ULong
  cpuInterruptsStatus : Fin ncpu → ULong
  interruptsRawStatus : ULong
  interruptsEnable : ULong
  swi : Fin ncpu → ULong
  calls : List (QemuCall ncpu)

/-- What `interrupts_thread` reads at a port: `posedge ()`, `negedge ()` or neither. -/
inductive Edge where
  | same | posedge | negedge
  deriving DecidableEq

/-- The edge of a signal that had one value and now has another. -/
def edgeOf : Bool → Bool → Edge
  | false, true => .posedge
  | true, false => .negedge
  | _, _ => .same

/-- The loop's view of one CPU: its two status words and `bup[cpu]`, `bdown[cpu]`. -/
structure CpuScan where
  rawStatus : ULong
  status : ULong
  bup : Bool
  bdown : Bool

/-- The inner loop's body after a rising edge, for a CPU the line is routed to. -/
def CpuScan.rise (enable val : ULong) (c : CpuScan) : CpuScan :=
  let c := { c with rawStatus := c.rawStatus ||| val }
  if val &&& enable != 0#32 then
    { c with bup := c.bup || c.status == 0#32, status := c.status ||| val }
  else c

/-- The inner loop's body after a falling edge, for a CPU the line is routed to. -/
def CpuScan.fall (enable val : ULong) (c : CpuScan) : CpuScan :=
  let c := { c with rawStatus := c.rawStatus &&& ~~~val }
  if val &&& enable != 0#32 then
    let status := c.status &&& ~~~val
    { c with status := status, bdown := c.bdown || status == 0#32 }
  else c

/-- The body of the loop over the lines, seen by one CPU. -/
def CpuScan.line (enable : ULong) (routed : Nat → Bool) (edges : Nat → Edge) (c : CpuScan) (i : Nat) :
    CpuScan :=
  match edges i with
  | .posedge => if routed i then c.rise enable (bit i) else c
  | .negedge => if routed i then c.fall enable (bit i) else c
  | .same => c

/-- The body of the loop over the lines, for `m_interrupts_raw_status`. -/
def rawLine (edges : Nat → Edge) (raw : ULong) (i : Nat) : ULong :=
  match edges i with
  | .posedge => raw ||| bit i
  | .negedge => raw &&& ~~~bit i
  | .same => raw

/-- The last loop of `interrupts_thread`, for one CPU. -/
def CpuScan.update {ncpu : Nat} (c : CpuScan) (swi : ULong) (cpu : Fin ncpu) :
    List (QemuCall ncpu) :=
  if c.bup && swi == 0#32 then [.irqUpdate cpu true, .wakeup cpu]
  else if c.bdown && swi == 0#32 then [.irqUpdate cpu false]
  else []

variable {ncpu : Nat}

/-- The loop over the lines, for one CPU. -/
def QemuWrapper.scan (w : IrqWiring) (q : QemuWrapper ncpu) (edges : Nat → Edge) (cpu : Fin ncpu)
    (nlines : Nat) : CpuScan :=
  (List.range nlines).foldl (CpuScan.line q.interruptsEnable (w.routed · cpu) edges)
    ⟨q.cpuInterruptsRawStatus cpu, q.cpuInterruptsStatus cpu, false, false⟩

/-- One turn of `interrupts_thread`, woken by the events of its ports. The inner loops touch no
    other CPU's words, so the loop over the lines is taken for each CPU by itself. -/
def QemuWrapper.interruptsThread (w : IrqWiring) (q : QemuWrapper ncpu) (edges : Nat → Edge) :
    QemuWrapper ncpu :=
  let s := fun cpu => q.scan w edges cpu w.ninterrupts
  { q with
    cpuInterruptsRawStatus := fun cpu => (s cpu).rawStatus
    cpuInterruptsStatus := fun cpu => (s cpu).status
    interruptsRawStatus := (List.range w.ninterrupts).foldl (rawLine edges) q.interruptsRawStatus
    calls := q.calls ++ (List.finRange ncpu).flatMap fun cpu => (s cpu).update (q.swi cpu) cpu }

/-- `qemu_wrapper::generate_swi`. -/
def QemuWrapper.generateSwi (q : QemuWrapper ncpu) (cpuMask swi : ULong) : QemuWrapper ncpu :=
  let hit := fun cpu : Fin ncpu => cpuMask &&& bit cpu != 0#32
  { q with
    swi := fun cpu => if hit cpu then q.swi cpu ||| swi else q.swi cpu
    calls := q.calls ++ (List.finRange ncpu).flatMap fun cpu =>
      if hit cpu && q.cpuInterruptsStatus cpu == 0#32 then [.irqUpdate cpu true, .wakeup cpu] else [] }

/-- `qemu_wrapper::swi_ack`. -/
def QemuWrapper.swiAck (q : QemuWrapper ncpu) (cpu : Fin ncpu) (swiMask : ULong) :
    QemuWrapper ncpu :=
  if q.swi cpu == 0#32 then q
  else
    let swi := q.swi cpu &&& ~~~swiMask
    { q with
      swi := Function.update q.swi cpu swi
      calls := q.calls ++
        if q.cpuInterruptsStatus cpu == 0#32 && swi == 0#32 then [.irqUpdate cpu false] else [] }

/-- `qemu_wrapper::set_int_enable`. -/
def QemuWrapper.setIntEnable (q : QemuWrapper ncpu) (val : ULong) : QemuWrapper ncpu :=
  { q with
    cpuInterruptsStatus := fun cpu => q.cpuInterruptsRawStatus cpu &&& val
    interruptsEnable := val
    calls := q.calls ++ (List.finRange ncpu).flatMap fun cpu =>
      let status := q.cpuInterruptsStatus cpu
      let next := q.cpuInterruptsRawStatus cpu &&& val
      if status == 0#32 && next != 0#32 && q.swi cpu == 0#32 then [.irqUpdate cpu true]
      else if status != 0#32 && next == 0#32 && q.swi cpu == 0#32 then [.irqUpdate cpu false]
      else [] }

/-- What the constructors leave: every word 0, no call made. -/
def QemuWrapper.new (ncpu : Nat) : QemuWrapper ncpu :=
  ⟨fun _ => 0#32, fun _ => 0#32, 0#32, 0#32, fun _ => 0#32, []⟩

/-- The wrapper together with the signals bound to its interrupt ports. -/
structure IrqState (ncpu : Nat) where
  wrapper : QemuWrapper ncpu
  lines : Nat → Bool

/-- One operation: the lines change and `interrupts_thread` runs, or a register access. -/
inductive IrqStep (w : IrqWiring) : IrqState ncpu → IrqState ncpu → Prop where
  | edges (s : IrqState ncpu) (lines : Nat → Bool) :
      IrqStep w s ⟨s.wrapper.interruptsThread w fun i => edgeOf (s.lines i) (lines i), lines⟩
  | setIntEnable (s : IrqState ncpu) (val : ULong) :
      IrqStep w s ⟨s.wrapper.setIntEnable val, s.lines⟩
  | generateSwi (s : IrqState ncpu) (cpuMask swi : ULong) (h : swi ≠ 0#32) :
      IrqStep w s ⟨s.wrapper.generateSwi cpuMask swi, s.lines⟩
  | swiAck (s : IrqState ncpu) (cpu : Fin ncpu) (swiMask : ULong) :
      IrqStep w s ⟨s.wrapper.swiAck cpu swiMask, s.lines⟩

/-- The wrapper's runs: every line is low at the start (the value of a new `sc_signal<bool>`). -/
def irqMachine (w : IrqWiring) (ncpu : Nat) : Machine (IrqState ncpu) where
  init s := s = ⟨QemuWrapper.new ncpu, fun _ => false⟩
  step := IrqStep w

/-! ## 2. The level a list of calls leaves -/

/-- The level last passed for a CPU, starting from `level`. -/
def levelFrom (cpu : Fin ncpu) (level : Bool) (calls : List (QemuCall ncpu)) : Bool :=
  calls.foldl (fun l c => match c with
    | .irqUpdate cpu' b => if cpu' = cpu then b else l
    | .wakeup _ => l) level

/-- The level last passed to `qemu_irq_update` for a CPU, initially 0. -/
def QemuWrapper.level (q : QemuWrapper ncpu) (cpu : Fin ncpu) : Bool := levelFrom cpu false q.calls

@[simp] theorem levelFrom_nil (cpu : Fin ncpu) (l : Bool) : levelFrom cpu l [] = l := rfl

@[simp] theorem levelFrom_irqUpdate (cpu : Fin ncpu) (l b : Bool) (cs : List (QemuCall ncpu)) :
    levelFrom cpu l (.irqUpdate cpu b :: cs) = levelFrom cpu b cs := by
  simp [levelFrom]

@[simp] theorem levelFrom_wakeup (cpu cpu' : Fin ncpu) (l : Bool) (cs : List (QemuCall ncpu)) :
    levelFrom cpu l (.wakeup cpu' :: cs) = levelFrom cpu l cs := rfl

@[simp] theorem levelFrom_append (cpu : Fin ncpu) (l : Bool) (cs ds : List (QemuCall ncpu)) :
    levelFrom cpu l (cs ++ ds) = levelFrom cpu (levelFrom cpu l cs) ds :=
  List.foldl_append

/-- The call is about this CPU. -/
def QemuCall.isFor (cpu : Fin ncpu) : QemuCall ncpu → Prop
  | .irqUpdate c _ => c = cpu
  | .wakeup c => c = cpu

theorem levelFrom_other {cpu cpu' : Fin ncpu} (h : cpu' ≠ cpu) (l : Bool) :
    ∀ cs : List (QemuCall ncpu), (∀ c ∈ cs, c.isFor cpu') → levelFrom cpu l cs = l
  | [], _ => rfl
  | c :: cs, hcs => by
      have hc := hcs c List.mem_cons_self
      have ih := levelFrom_other h l cs fun d hd => hcs d (List.mem_cons_of_mem _ hd)
      cases c with
      | irqUpdate c b =>
          have hne : c ≠ cpu := fun e => h (hc.symm.trans e)
          simpa [levelFrom, hne] using ih
      | wakeup c => simpa [levelFrom] using ih

/-- Of a loop over the CPUs, each CPU's level sees only its own turn. -/
theorem levelFrom_flatMap {f : Fin ncpu → List (QemuCall ncpu)} (hf : ∀ i, ∀ c ∈ f i, c.isFor i)
    (cpu : Fin ncpu) (l : Bool) :
    levelFrom cpu l ((List.finRange ncpu).flatMap f) = levelFrom cpu l (f cpu) := by
  have skip : ∀ (l : Bool) (is : List (Fin ncpu)), cpu ∉ is →
      levelFrom cpu l (is.flatMap f) = l := by
    intro l is
    induction is with
    | nil => intro _; rfl
    | cons i is ih =>
        intro hi
        obtain ⟨hne, his⟩ := not_or.mp (List.mem_cons.not.mp hi)
        rw [List.flatMap_cons, levelFrom_append, levelFrom_other (Ne.symm hne) l _ (hf i), ih his]
  obtain ⟨as, bs, hsplit⟩ := List.append_of_mem (List.mem_finRange cpu)
  have hnd := List.nodup_finRange ncpu
  rw [hsplit, List.nodup_append] at hnd
  obtain ⟨-, hbs, hdis⟩ := hnd
  have has : cpu ∉ as := fun h => hdis cpu h cpu List.mem_cons_self rfl
  have hbs' : cpu ∉ bs := (List.nodup_cons.mp hbs).1
  rw [hsplit, List.flatMap_append, List.flatMap_cons, levelFrom_append, levelFrom_append,
    skip l as has, skip _ bs hbs']

/-! ## 3. Bits -/

theorem getLsbD_bit {i j : Nat} (hi : i < 32) : (bit i).getLsbD j = decide (j = i) := by
  rw [bit, BitVec.getLsbD_shiftLeft]
  by_cases h : j = i
  · subst h; simp [hi]
  · by_cases hlt : j < i
    · simp [h, hlt]
    · have hne : j - i ≠ 0 := by omega
      simp [h, hne]

theorem bit_and_ne_zero {i : Nat} (hi : i < 32) (x : ULong) :
    (bit i &&& x != 0#32) = x.getLsbD i := by
  cases hx : x.getLsbD i with
  | false =>
      have h0 : bit i &&& x = 0#32 := by
        apply BitVec.eq_of_getLsbD_eq
        intro j hj
        rw [BitVec.getLsbD_and, getLsbD_bit hi]
        by_cases h : j = i
        · subst h; simp [hx]
        · simp [h]
      simp [h0]
  | true =>
      have hne : bit i &&& x ≠ 0#32 := by
        intro h
        have hb := congrArg (BitVec.getLsbD · i) h
        simp [BitVec.getLsbD_and, getLsbD_bit hi, hx] at hb
      simpa using hne

theorem ne_zero_of_getLsbD {x : ULong} {i : Nat} (h : x.getLsbD i = true) : x ≠ 0#32 := by
  intro heq
  subst heq
  simp at h

/-- Setting a bit that is disabled changes nothing of the enabled part. -/
theorem or_bit_and {x en : ULong} {i : Nat} (hi : i < 32) (h : en.getLsbD i = false) :
    (x ||| bit i) &&& en = x &&& en := by
  apply BitVec.eq_of_getLsbD_eq
  intro j hj
  simp only [BitVec.getLsbD_and, BitVec.getLsbD_or, getLsbD_bit hi]
  by_cases hji : j = i
  · subst hji; simp [h]
  · simp [hji]

theorem andNot_bit_and {x en : ULong} {i : Nat} (hi : i < 32) (h : en.getLsbD i = false) :
    (x &&& ~~~bit i) &&& en = x &&& en := by
  apply BitVec.eq_of_getLsbD_eq
  intro j hj
  simp only [BitVec.getLsbD_and, BitVec.getLsbD_not, getLsbD_bit hi]
  by_cases hji : j = i
  · subst hji; simp [h]
  · simp [hji, hj]

theorem or_bit_and_enabled {x en : ULong} {i : Nat} (hi : i < 32) (h : en.getLsbD i = true) :
    (x ||| bit i) &&& en = (x &&& en) ||| bit i := by
  apply BitVec.eq_of_getLsbD_eq
  intro j hj
  simp only [BitVec.getLsbD_and, BitVec.getLsbD_or, getLsbD_bit hi]
  by_cases hji : j = i
  · subst hji; simp [h]
  · simp [hji]

/-! ## 4. The loop over the lines -/

section Scan

variable {w : IrqWiring} {q : QemuWrapper ncpu} {old new : Nat → Bool} {cpu : Fin ncpu}

/-- What a CPU's raw status should be: the high lines among the first `n` that are routed to it. -/
def IrqWiring.highRouted (w : IrqWiring) (lines : Nat → Bool) (cpu j : Nat) : Bool :=
  j < w.ninterrupts && lines j && w.routed j cpu

/-- One CPU between two turns of the loop, after the first `k` lines. -/
structure ScanInv (w : IrqWiring) (enable : ULong) (old new : Nat → Bool) (cpu k : Nat)
    (start c : CpuScan) : Prop where
  raw : ∀ j < 32, c.rawStatus.getLsbD j =
    if j < k then w.highRouted new cpu j else w.highRouted old cpu j
  enabled : c.status = c.rawStatus &&& enable
  up : c.bup = true → ∃ j < k, c.status.getLsbD j = true
  down : c.bdown = true → c.bup = true ∨ c.status = 0#32
  calm : c.bup = false → c.bdown = false → (c.status = 0#32 ↔ start.status = 0#32)

/-- A line without an edge for this CPU: its bit is right already. -/
theorem ScanInv.skip {enable : ULong} {k : Nat} {start c : CpuScan}
    (h : ScanInv w enable old new cpu k start c)
    (hbit : w.highRouted new cpu k = w.highRouted old cpu k) :
    ScanInv w enable old new cpu (k + 1) start c where
  raw j hj := by
    rw [h.raw j hj]
    rcases Nat.lt_trichotomy j k with hlt | rfl | hgt
    · simp [hlt, Nat.lt_succ_of_lt hlt]
    · simp [hbit]
    · have h1 : ¬ j < k := by omega
      have h2 : ¬ j < k + 1 := by omega
      simp [h1, h2]
  enabled := h.enabled
  up hb := by
    obtain ⟨j, hj, hs⟩ := h.up hb
    exact ⟨j, Nat.lt_succ_of_lt hj, hs⟩
  down := h.down
  calm := h.calm

theorem ScanInv.rise {enable : ULong} {k : Nat} {start c : CpuScan}
    (h : ScanInv w enable old new cpu k start c) (hk : k < 32)
    (hbit : w.highRouted new cpu k = true) :
    ScanInv w enable old new cpu (k + 1) start (c.rise enable (bit k)) := by
  have hraw (j : Nat) (hj : j < 32) : (c.rawStatus ||| bit k).getLsbD j =
      if j < k + 1 then w.highRouted new cpu j else w.highRouted old cpu j := by
    rw [BitVec.getLsbD_or, h.raw j hj, getLsbD_bit hk]
    rcases Nat.lt_trichotomy j k with hlt | rfl | hgt
    · simp [hlt, Nat.lt_succ_of_lt hlt, Nat.ne_of_lt hlt]
    · simp [hbit]
    · have h1 : ¬ j < k := by omega
      have h2 : ¬ j < k + 1 := by omega
      simp [h1, h2, Nat.ne_of_gt hgt]
  unfold CpuScan.rise
  rw [bit_and_ne_zero hk]
  cases hen : enable.getLsbD k with
  | false =>
      refine ⟨hraw, ?_, fun hb => ?_, h.down, h.calm⟩
      · simp only [Bool.false_eq_true, if_false]
        rw [or_bit_and hk hen]
        exact h.enabled
      · obtain ⟨j, hj, hs⟩ := h.up hb
        exact ⟨j, Nat.lt_succ_of_lt hj, hs⟩
  | true =>
      have hset : (c.status ||| bit k).getLsbD k = true := by
        simp [BitVec.getLsbD_or, getLsbD_bit hk]
      refine ⟨hraw, ?_, fun _ => ⟨k, Nat.lt_succ_self k, hset⟩, fun hd => ?_, fun hu hd => ?_⟩
      · simp only [if_true]
        rw [or_bit_and_enabled hk hen, h.enabled]
      · rcases h.down hd with hu | hz
        · exact .inl (by simp [hu])
        · exact .inl (by simp [hz])
      · simp only [if_true, Bool.or_eq_false_iff, beq_eq_false_iff_ne] at hu hd ⊢
        have hz := (h.calm hu.1 hd).not.mp hu.2
        exact iff_of_false (ne_zero_of_getLsbD hset) hz

theorem ScanInv.fall {enable : ULong} {k : Nat} {start c : CpuScan}
    (h : ScanInv w enable old new cpu k start c) (hk : k < 32)
    (hbit : w.highRouted new cpu k = false) :
    ScanInv w enable old new cpu (k + 1) start (c.fall enable (bit k)) := by
  have hraw (j : Nat) (hj : j < 32) : (c.rawStatus &&& ~~~bit k).getLsbD j =
      if j < k + 1 then w.highRouted new cpu j else w.highRouted old cpu j := by
    rw [BitVec.getLsbD_and, BitVec.getLsbD_not, h.raw j hj, getLsbD_bit hk]
    rcases Nat.lt_trichotomy j k with hlt | rfl | hgt
    · simp [hlt, hj, Nat.lt_succ_of_lt hlt, Nat.ne_of_lt hlt]
    · simp [hbit]
    · have h1 : ¬ j < k := by omega
      have h2 : ¬ j < k + 1 := by omega
      simp [h1, h2, hj, Nat.ne_of_gt hgt]
  unfold CpuScan.fall
  rw [bit_and_ne_zero hk]
  cases hen : enable.getLsbD k with
  | false =>
      refine ⟨hraw, ?_, fun hb => ?_, h.down, h.calm⟩
      · simp only [Bool.false_eq_true, if_false]
        rw [andNot_bit_and hk hen]
        exact h.enabled
      · obtain ⟨j, hj, hs⟩ := h.up hb
        exact ⟨j, Nat.lt_succ_of_lt hj, hs⟩
  | true =>
      -- a bit below `k` that a rise has set stays set: the fall clears bit `k` only
      have hkeep (hu : c.bup = true) : ∃ j < k + 1, (c.status &&& ~~~bit k).getLsbD j = true := by
        obtain ⟨j, hj, hs⟩ := h.up hu
        refine ⟨j, Nat.lt_succ_of_lt hj, ?_⟩
        rw [BitVec.getLsbD_and, BitVec.getLsbD_not, hs, getLsbD_bit hk]
        simp [Nat.ne_of_lt hj, Nat.lt_trans hj hk]
      refine ⟨hraw, ?_, hkeep, fun hd => ?_, fun hu hd => ?_⟩
      · simp only [if_true]
        rw [h.enabled, BitVec.and_assoc, BitVec.and_assoc, BitVec.and_comm enable]
      · simp only [if_true, Bool.or_eq_true, beq_iff_eq] at hd ⊢
        rcases hd with hd | hz
        · rcases h.down hd with hu | hz
          · exact .inl hu
          · exact .inr (by simp [hz])
        · exact .inr hz
      · simp only [if_true, Bool.or_eq_false_iff, beq_eq_false_iff_ne] at hu hd ⊢
        have hne : c.status ≠ 0#32 := by
          intro hz
          exact hd.2 (by simp [hz])
        exact iff_of_false hd.2 ((h.calm hu hd.1).not.mp hne)

/-- One turn of the loop. -/
theorem ScanInv.line {enable : ULong} {k : Nat} {start c : CpuScan}
    (h : ScanInv w enable old new cpu k start c) (hk : k < w.ninterrupts) :
    ScanInv w enable old new cpu (k + 1) start
      (c.line enable (w.routed · cpu) (fun i => edgeOf (old i) (new i)) k) := by
  have hk32 : k < 32 := Nat.lt_of_lt_of_le hk w.le32
  unfold CpuScan.line
  cases hr : w.routed k cpu with
  | false =>
      have hbit : w.highRouted new cpu k = w.highRouted old cpu k := by
        simp [IrqWiring.highRouted, hr]
      cases ho : old k <;> cases hn : new k <;> simpa [edgeOf, hr, ho, hn] using h.skip hbit
  | true =>
      cases ho : old k <;> cases hn : new k <;>
        simp only [ho, hn, edgeOf, hr, if_true]
      · exact h.skip (by simp [IrqWiring.highRouted, ho, hn])
      · exact h.rise hk32 (by simp [IrqWiring.highRouted, hn, hr, hk])
      · exact h.fall hk32 (by simp [IrqWiring.highRouted, hn])
      · exact h.skip (by simp [IrqWiring.highRouted, ho, hn])

variable (new) in
/-- **The loop over the lines**, from the invariant of the state before it. -/
theorem scan_inv
    (hraw : ∀ j < 32, (q.cpuInterruptsRawStatus cpu).getLsbD j = w.highRouted old cpu j)
    (hst : q.cpuInterruptsStatus cpu = q.cpuInterruptsRawStatus cpu &&& q.interruptsEnable) :
    ∀ k ≤ w.ninterrupts, ScanInv w q.interruptsEnable old new cpu k
      ⟨q.cpuInterruptsRawStatus cpu, q.cpuInterruptsStatus cpu, false, false⟩
      (q.scan w (fun i => edgeOf (old i) (new i)) cpu k) := by
  intro k
  induction k with
  | zero =>
      intro _
      refine ⟨fun j hj => ?_, hst, fun h => ?_, fun h => ?_, fun _ _ => Iff.rfl⟩
      · simpa [QemuWrapper.scan] using hraw j hj
      · cases h
      · cases h
  | succ k ih =>
      intro hk
      have h := (ih (Nat.le_of_succ_le hk)).line hk
      unfold QemuWrapper.scan at h ⊢
      rw [List.range_succ, List.foldl_append]
      exact h

end Scan

/-! ## 5. The invariant -/

/-- The three properties of one CPU between two operations. -/
structure IrqInv (w : IrqWiring) (s : IrqState ncpu) (cpu : Fin ncpu) : Prop where
  raw : ∀ j < 32, (s.wrapper.cpuInterruptsRawStatus cpu).getLsbD j = w.highRouted s.lines cpu j
  enabled : s.wrapper.cpuInterruptsStatus cpu =
    s.wrapper.cpuInterruptsRawStatus cpu &&& s.wrapper.interruptsEnable
  level : s.wrapper.level cpu = true ↔
    s.wrapper.cpuInterruptsStatus cpu ≠ 0#32 ∨ s.wrapper.swi cpu ≠ 0#32

theorem update_isFor (c : CpuScan) (swi : ULong) (cpu : Fin ncpu) :
    ∀ d ∈ c.update swi cpu, d.isFor cpu := by
  unfold CpuScan.update
  split
  · simp [QemuCall.isFor]
  · split <;> simp [QemuCall.isFor]

/-- The level after the last loop of `interrupts_thread`. -/
theorem levelFrom_update {w : IrqWiring} {enable : ULong} {old new : Nat → Bool} {cpu : Fin ncpu}
    {k : Nat} {start c : CpuScan} (h : ScanInv w enable old new cpu k start c) {swi : ULong}
    {l : Bool} (hl : l = true ↔ start.status ≠ 0#32 ∨ swi ≠ 0#32) :
    levelFrom cpu l (c.update swi cpu) = true ↔ c.status ≠ 0#32 ∨ swi ≠ 0#32 := by
  unfold CpuScan.update
  by_cases hswi : swi = 0#32
  · subst hswi
    cases hup : c.bup with
    | true =>
        obtain ⟨j, -, hj⟩ := h.up hup
        simp [ne_zero_of_getLsbD hj]
    | false =>
        cases hdn : c.bdown with
        | true =>
            have hz : c.status = 0#32 := by simpa [hup] using h.down hdn
            simp [hz]
        | false =>
            have hcalm := h.calm hup hdn
            simp [hl, hcalm]
  · have hl1 : l = true := hl.mpr (.inr hswi)
    simp [hswi, hl1]

theorem irqInv_edges {w : IrqWiring} {s : IrqState ncpu} {cpu : Fin ncpu} (h : IrqInv w s cpu)
    (lines : Nat → Bool) :
    IrqInv w ⟨s.wrapper.interruptsThread w fun i => edgeOf (s.lines i) (lines i), lines⟩ cpu := by
  have hs := scan_inv lines h.raw h.enabled w.ninterrupts (Nat.le_refl _)
  refine ⟨fun j hj => ?_, hs.enabled, ?_⟩
  · have hr := hs.raw j hj
    by_cases hjn : j < w.ninterrupts
    · simpa [hjn, QemuWrapper.interruptsThread] using hr
    · simpa [hjn, QemuWrapper.interruptsThread, IrqWiring.highRouted] using hr
  · have hup := levelFrom_update hs h.level
    unfold QemuWrapper.level at hup ⊢
    simp only [QemuWrapper.interruptsThread]
    rw [levelFrom_append, levelFrom_flatMap fun i => update_isFor _ _ i]
    exact hup

theorem irqInv_setIntEnable {w : IrqWiring} {s : IrqState ncpu} {cpu : Fin ncpu}
    (h : IrqInv w s cpu) (val : ULong) : IrqInv w ⟨s.wrapper.setIntEnable val, s.lines⟩ cpu := by
  refine ⟨h.raw, rfl, ?_⟩
  have hl := h.level
  unfold QemuWrapper.level at hl ⊢
  simp only [QemuWrapper.setIntEnable]
  rw [levelFrom_append, levelFrom_flatMap]
  · generalize s.wrapper.cpuInterruptsRawStatus cpu &&& val = next
    by_cases hswi : s.wrapper.swi cpu = 0#32 <;>
      by_cases hst : s.wrapper.cpuInterruptsStatus cpu = 0#32 <;>
        by_cases hn : next = 0#32 <;> simp [hswi, hst, hn, hl]
  · intro i
    split
    · simp [QemuCall.isFor]
    · split <;> simp [QemuCall.isFor]

theorem or_ne_zero {x y : ULong} (hy : y ≠ 0#32) : x ||| y ≠ 0#32 := by
  intro h
  apply hy
  have := BitVec.or_eq_zero_iff.mp h
  exact this.2

theorem irqInv_generateSwi {w : IrqWiring} {s : IrqState ncpu} {cpu : Fin ncpu}
    (h : IrqInv w s cpu) (cpuMask swi : ULong) (hswi : swi ≠ 0#32) :
    IrqInv w ⟨s.wrapper.generateSwi cpuMask swi, s.lines⟩ cpu := by
  refine ⟨h.raw, h.enabled, ?_⟩
  have hl := h.level
  unfold QemuWrapper.level at hl ⊢
  simp only [QemuWrapper.generateSwi]
  rw [levelFrom_append, levelFrom_flatMap]
  · by_cases hhit : cpuMask &&& bit cpu = 0#32
    · simpa [hhit] using hl
    · by_cases hst : s.wrapper.cpuInterruptsStatus cpu = 0#32
      · simp [hhit, hst, or_ne_zero hswi]
      · simp [hst, hl]
  · intro i
    split <;> simp [QemuCall.isFor]

theorem irqInv_swiAck {w : IrqWiring} {s : IrqState ncpu} {cpu : Fin ncpu} (h : IrqInv w s cpu)
    (target : Fin ncpu) (swiMask : ULong) :
    IrqInv w ⟨s.wrapper.swiAck target swiMask, s.lines⟩ cpu := by
  unfold QemuWrapper.swiAck
  by_cases h0 : s.wrapper.swi target = 0#32
  · simpa [h0] using h
  simp only [h0, beq_iff_eq, if_false]
  refine ⟨h.raw, h.enabled, ?_⟩
  have hl := h.level
  unfold QemuWrapper.level at hl ⊢
  simp only
  rw [levelFrom_append]
  by_cases hc : cpu = target
  · subst hc
    have hl1 : levelFrom cpu false s.wrapper.calls = true := hl.mpr (.inr h0)
    by_cases hst : s.wrapper.cpuInterruptsStatus cpu = 0#32 <;>
      by_cases hn : s.wrapper.swi cpu &&& ~~~swiMask = 0#32 <;> simp [hst, hn, hl1]
  · have hne : target ≠ cpu := Ne.symm hc
    rw [levelFrom_other hne, Function.update_of_ne hc, hl]
    intro c hc'
    split at hc'
    · simp only [List.mem_singleton] at hc'
      subst hc'
      rfl
    · cases hc'

theorem irqInv_step {w : IrqWiring} {s s' : IrqState ncpu} {cpu : Fin ncpu} (h : IrqInv w s cpu)
    (hs : IrqStep w s s') : IrqInv w s' cpu := by
  cases hs with
  | edges lines => exact irqInv_edges h lines
  | setIntEnable val => exact irqInv_setIntEnable h val
  | generateSwi cpuMask swi hswi => exact irqInv_generateSwi h cpuMask swi hswi
  | swiAck target swiMask => exact irqInv_swiAck h target swiMask

/-- **The invariant in every reachable state.** -/
theorem irqInv_reach {w : IrqWiring} {s : IrqState ncpu} (h : (irqMachine w ncpu).Reach s)
    (cpu : Fin ncpu) : IrqInv w s cpu := by
  refine h.invariant (I := (IrqInv w · cpu)) ?_ fun s s' _ hi hs => irqInv_step hi hs
  intro s heq
  subst heq
  refine ⟨fun j _ => ?_, ?_, ?_⟩
  · simp [QemuWrapper.new, IrqWiring.highRouted]
  · simp [QemuWrapper.new]
  · simp [QemuWrapper.new, QemuWrapper.level]

/-- **The interrupt level of every CPU is right in every reachable state**: its status is the
    enabled part of its raw status, its raw status is the high lines routed to it, and the level
    last passed for it is 1 exactly while an enabled line or a software interrupt is pending. -/
theorem irq_level_correct {w : IrqWiring} {s : IrqState ncpu} (h : (irqMachine w ncpu).Reach s)
    (cpu : Fin ncpu) :
    s.wrapper.cpuInterruptsStatus cpu =
        s.wrapper.cpuInterruptsRawStatus cpu &&& s.wrapper.interruptsEnable ∧
      (∀ j < 32, (s.wrapper.cpuInterruptsRawStatus cpu).getLsbD j = true ↔
        j < w.ninterrupts ∧ s.lines j = true ∧ w.routed j cpu = true) ∧
      (s.wrapper.level cpu = true ↔
        s.wrapper.cpuInterruptsStatus cpu ≠ 0#32 ∨ s.wrapper.swi cpu ≠ 0#32) := by
  have hi := irqInv_reach h cpu
  refine ⟨hi.enabled, fun j hj => ?_, hi.level⟩
  rw [hi.raw j hj]
  simp [IrqWiring.highRouted, and_assoc]

/-- One CPU with line 0 routed to it: the line rises while it is disabled and is then enabled. -/
theorem irq_level_correct_late_enable :
    let w : IrqWiring := ⟨1, fun _ => 1#32, by decide⟩
    let q : QemuWrapper 1 :=
      ((QemuWrapper.new 1).interruptsThread w fun i => edgeOf false (i == 0)).setIntEnable 1#32
    q.level 0 = true ∧ (q.level 0 = true ↔ q.cpuInterruptsStatus 0 ≠ 0#32 ∨ q.swi 0 ≠ 0#32) := by
  intro w q
  have h0 : (irqMachine w 1).Reach ⟨QemuWrapper.new 1, fun _ => false⟩ := .start rfl
  have h1 := h0.step (.edges _ (· == 0))
  have h2 := h1.step (.setIntEnable _ 1#32)
  exact ⟨by decide, (irq_level_correct h2 0).2.2⟩

end Rabbits
