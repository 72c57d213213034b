/-
  File:      Rabbits/Cpu/ConsumeCycles.lean
  Subject:   The cycles of a CPU (qemu_cpu_wrapper.cpp: consume_instruction_cycles_with_sync,
             set_cpu_fv_level, get_no_cycles).

  The thread of the CPU waits for the time that its cycles take at the level of the moment. A
  change of the level, and everyone who wants to know the cycles, cuts the wait; the loop counts
  the cycles of the piece, credits its time to the level, and goes round with the rest.

  * `CpuFvs` -- the tables of a CPU; `ScClock` -- what SystemC makes of a time that is a double;
  * `CycleCpu.next` -- the loop, with time passing, notifications and changes of the level;
  * `CycleCall` -- the last call, as its caller sees it;
  * `CycleInv` -- the counter, the credited time and the remaining cycles belong together;
  * `consume_right` -- **the counter never decreases and ends where it should, and the credited
    times are the cycles**, for times in exact rationals;
  * `consume_right_ticks` -- the same for picoseconds, where each piece loses its part of a
    nanosecond.

  The doubles of the source are rationals here. The counter has 64 bits, which the cycles of the
  2^64 picoseconds of a simulation do not fill; it is a `Nat`.
-/
import Mathlib.Algebra.Order.Floor.Ring
import Mathlib.Data.Rat.Floor
import Mathlib.Tactic.FieldSimp
import Mathlib.Tactic.Linarith
import Rabbits.Cpu.Measure

namespace Rabbits

open Lib

/-! ## 1. The tables and the clock -/

/-- The tables of a CPU: `m_cpu_nb_fv_levels`, `m_cpu_fv_percents` with the idle level behind the
    others, and the last frequency of `m_cpu_fvs`, in MHz. -/
structure CpuFvs where
  nbFvLevels : Nat
  percents : Fin (nbFvLevels + 1) → ℚ
  nonneg : ∀ i, 0 ≤ percents i
  maxFv : Nat
  maxFv_pos : 0 < maxFv

namespace CpuFvs

/-- `m_ns_per_cpu_cycle_max_fv`. -/
def nsPerCpuCycleMaxFv (T : CpuFvs) : ℚ := 1000 / T.maxFv

/-- The frequency of a level, in cycles for each nanosecond. -/
def cyclesPerNs (T : CpuFvs) (level : Fin T.nbFvLevels) : ℚ :=
  T.percents level.castSucc / (100 * T.nsPerCpuCycleMaxFv)

/-- The tables of cpu_fvs.cpp. -/
def arm : CpuFvs where
  nbFvLevels := getCpuNbFvLevels
  percents := armCpuFvPercents.percents
  nonneg := armCpuFvPercents.nonneg
  maxFv := 300
  maxFv_pos := by decide

end CpuFvs

/-- A clock of SystemC: `sc_time (t, SC_NS)` in picoseconds, and the nanoseconds of picoseconds.
    Both may be off, the first one to both sides. -/
structure ScClock where
  ofNs : ℚ → ℚ
  toNs : ℚ → ℚ
  slack : ℚ
  loss : ℚ
  ofNs_nonneg : ∀ t, 0 ≤ t → 0 ≤ ofNs t
  ofNs_le : ∀ t, 0 ≤ t → ofNs t ≤ 1000 * t + slack
  le_ofNs : ∀ t, 0 ≤ t → 1000 * t - slack ≤ ofNs t
  toNs_le : ∀ ps, 0 ≤ ps → toNs ps ≤ ps / 1000
  le_toNs : ∀ ps, 0 ≤ ps → ps / 1000 ≤ toNs ps + loss

namespace ScClock

/-- Times in exact rationals. -/
def exact : ScClock where
  ofNs t := 1000 * t
  toNs ps := ps / 1000
  slack := 0
  loss := 0
  ofNs_nonneg t ht := by linarith
  ofNs_le t _ := by linarith
  le_ofNs t _ := by linarith
  toNs_le _ _ := le_rfl
  le_toNs _ _ := by linarith

/-- Times in picoseconds: a double is rounded, and `/ 1000` is that of a `uint64`. -/
def ticks : ScClock where
  ofNs t := ⌊1000 * t + 1 / 2⌋₊
  toNs ps := ⌊ps / 1000⌋₊
  slack := 1 / 2
  loss := 1
  ofNs_nonneg _ _ := Nat.cast_nonneg _
  ofNs_le t ht := Nat.floor_le (by linarith)
  le_ofNs t _ := by
    have h := Nat.lt_floor_add_one (1000 * t + 1 / 2)
    linarith
  toNs_le ps hps := Nat.floor_le (by positivity)
  le_toNs ps _ := (Nat.lt_floor_add_one (ps / 1000)).le

end ScClock

variable {T : CpuFvs}

/-! ## 2. The loop -/

/-- A wait of the loop, with the locals of its round; `deadline` is when it times out, `woken` whether
    `m_ev_sync` has been notified. -/
structure CycleWait (T : CpuFvs) where
  psStartTime : ℚ
  startFvPercent : ℚ
  startFvLevel : Fin T.nbFvLevels
  deadline : ℚ
  woken : Bool

/-- The time, the level and the counter of a CPU, and the locals of the last call. `credits` has the
    calls of `add_time_at_fv` since it began, `notified` counts the notifications. -/
structure CycleCpu (T : CpuFvs) where
  now : ℚ
  fvLevel : Fin T.nbFvLevels
  noTotalCycles : Nat
  startNoCycles : Nat
  ncycles : Nat
  cycles : ℚ
  bIdle : Bool
  wait : Option (CycleWait T)
  credits : List (Fin T.nbFvLevels × ℚ)
  notified : Nat

/-- A call begins; time passes; `get_no_cycles` or `get_cpu_ncycles` notifies; some CPU sets the level;
    the thread runs on. -/
inductive CycleEvent where
  | consume (ncycles : Nat)
  | pass (ps : ℚ)
  | notify
  | setFvLevel (val : ULong)
  | run

namespace CycleCpu

/-- A CPU that has not consumed anything since its counter was read. -/
def start (now : ℚ) (fvLevel : Fin T.nbFvLevels) (noTotalCycles : Nat) : CycleCpu T :=
  ⟨now, fvLevel, noTotalCycles, noTotalCycles, 0, 0, false, none, [], 0⟩

/-- A round of the loop up to its wait. -/
def loopHead (c : ScClock) (s : CycleCpu T) : CycleCpu T :=
  let percent := T.percents s.fvLevel.castSucc
  let startFvPercent := if percent = 0 then T.percents ⟨0, Nat.succ_pos _⟩ else percent
  { s with
    bIdle := s.bIdle || decide (percent = 0)
    wait := some
      { psStartTime := s.now
        startFvPercent
        startFvLevel := s.fvLevel
        deadline := s.now + c.ofNs (s.cycles * T.nsPerCpuCycleMaxFv * 100 / startFvPercent)
        woken := false } }

/-- A round from its wait on. -/
def record (c : ScClock) (s : CycleCpu T) (w : CycleWait T) : CycleCpu T :=
  let psTimePassed := s.now - w.psStartTime
  let cyclesDone := psTimePassed * w.startFvPercent / (1000 * 100 * T.nsPerCpuCycleMaxFv)
  { s with
    credits := s.credits ++ [(w.startFvLevel, c.toNs psTimePassed)]
    noTotalCycles := if s.bIdle then s.noTotalCycles else s.noTotalCycles + ⌊cyclesDone⌋₊
    cycles := s.cycles - cyclesDone }

/-- `while (cycles >= 1)`, and what is behind the loop. -/
def loopEnd (c : ScClock) (s : CycleCpu T) : CycleCpu T :=
  if 1 ≤ s.cycles then s.loopHead c
  else
    { s with
      noTotalCycles := if s.bIdle then s.noTotalCycles else s.startNoCycles + s.ncycles
      wait := none }

/-- `consume_instruction_cycles_with_sync`, up to its first wait. -/
def consume (c : ScClock) (ncycles : Nat) (s : CycleCpu T) : CycleCpu T :=
  loopHead c
    { s with
      startNoCycles := s.noTotalCycles
      ncycles
      cycles := ncycles
      bIdle := false }

/-- `m_ev_sync.notify ()`, which wakes the thread if it waits. -/
def notify (s : CycleCpu T) : CycleCpu T :=
  { s with
    wait := s.wait.map fun w => { w with woken := true }
    notified := s.notified + 1 }

/-- `set_cpu_fv_level`; `none` is `exit (1)`. -/
def setCpuFvLevel (s : CycleCpu T) (val : ULong) : Option (CycleCpu T) :=
  if val.toNat = s.fvLevel.val then some s
  else if h : val.toNat < T.nbFvLevels then some { s with fvLevel := ⟨val.toNat, h⟩ }.notify
  else none

/-- Time passes up to the end of a wait, and while the thread is not woken. -/
def MayPass (s : CycleCpu T) (ps : ℚ) : Prop :=
  0 ≤ ps ∧ ∀ w ∈ s.wait, w.woken = false ∧ s.now + ps ≤ w.deadline

instance (s : CycleCpu T) (ps : ℚ) : Decidable (s.MayPass ps) := inferInstanceAs (Decidable (_ ∧ _))

/-- The wait is over. -/
def Over (s : CycleCpu T) (w : CycleWait T) : Prop := w.woken = true ∨ s.now = w.deadline

instance (s : CycleCpu T) (w : CycleWait T) : Decidable (s.Over w) :=
  inferInstanceAs (Decidable (_ ∨ _))

def next (c : ScClock) (s : CycleCpu T) : CycleEvent → Option (CycleCpu T)
  | .consume ncycles =>
      match s.wait with
      | none => some ({ s with credits := [], notified := 0 }.consume c ncycles)
      | some _ => none
  | .pass ps => if s.MayPass ps then some { s with now := s.now + ps } else none
  | .notify => some s.notify
  | .setFvLevel val => s.setCpuFvLevel val
  | .run =>
      match s.wait with
      | none => none
      | some w => if s.Over w then some ((s.record c w).loopEnd c) else none

/-- The credited times of the last call, each weighted by the frequency of its level. -/
def credited (s : CycleCpu T) : ℚ := (s.credits.map fun x => x.2 * T.cyclesPerNs x.1).sum

/-- What the pieces can have lost with their parts of a nanosecond. -/
def lost (c : ScClock) (s : CycleCpu T) : ℚ := (s.credits.map fun x => c.loss * T.cyclesPerNs x.1).sum

end CycleCpu

/-- The last call, as its caller sees it: `m_no_total_cycles` before it, and its argument. -/
structure CycleCall where
  start : Nat
  ncycles : Nat
  deriving DecidableEq

/-- A call begins. -/
def CycleCall.see (k : CycleCall) (s : CycleCpu T) (e : CycleEvent) (_ : CycleCpu T) : CycleCall :=
  match e with
  | .consume ncycles => ⟨s.noTotalCycles, ncycles⟩
  | .pass _ | .notify | .setFvLevel _ | .run => k

/-- A level that is set has a positive percentage. -/
def CycleEvent.LevelPositive (T : CpuFvs) : CycleEvent → Prop
  | .setFvLevel val => ∀ h : val.toNat < T.nbFvLevels, 0 < T.percents (Fin.castSucc ⟨val.toNat, h⟩)
  | _ => True

/-- A run of the thread, and time for it. -/
def CycleEvent.IsThread : CycleEvent → Prop
  | .pass _ => True
  | .run => True
  | _ => False

namespace CycleCpu

/-- `m_no_total_cycles` is between its value before the last call and the sum of that and the argument,
    does not decrease in a step or in the middle of a round, and is the sum in the end; the loop goes
    round for the notifications and once more, and returns when there is no other; then the next call
    can begin. -/
structure CyclesRight (c : ScClock) (s : CycleCpu T) (k : CycleCall) : Prop where
  start_le : k.start ≤ s.noTotalCycles
  le_sum : s.noTotalCycles ≤ k.start + k.ncycles
  rises : ∀ e t, s.next c e = some t → s.noTotalCycles ≤ t.noTotalCycles
  recorded : ∀ w, s.wait = some w → s.noTotalCycles ≤ (s.record c w).noTotalCycles ∧
    (s.record c w).noTotalCycles ≤ k.start + k.ncycles
  ends : s.wait = none → s.noTotalCycles = k.start + k.ncycles
  rounds : s.credits.length ≤ s.notified + 1
  returns : ∃ es t, (∀ e ∈ es, e.IsThread) ∧ exec (next c) s es = some t ∧ t.wait = none
  begins : s.wait = none → ∀ ncycles, ∃ t, s.next c (.consume ncycles) = some t

/-! ## 3. A piece -/

end CycleCpu

namespace CpuFvs

theorem nsPerCpuCycleMaxFv_pos (T : CpuFvs) : 0 < T.nsPerCpuCycleMaxFv := by
  have h : (0 : ℚ) < T.maxFv := by exact_mod_cast T.maxFv_pos
  exact div_pos (by norm_num) h

theorem cyclesPerNs_nonneg (T : CpuFvs) (level : Fin T.nbFvLevels) : 0 ≤ T.cyclesPerNs level :=
  div_nonneg (T.nonneg _) (mul_nonneg (by norm_num) T.nsPerCpuCycleMaxFv_pos.le)

/-- `cycles_done`, by the frequency. -/
theorem cyclesDone_eq (T : CpuFvs) (level : Fin T.nbFvLevels) (ps : ℚ) :
    ps * T.percents level.castSucc / (1000 * 100 * T.nsPerCpuCycleMaxFv) =
      ps / 1000 * T.cyclesPerNs level := by
  have hns := T.nsPerCpuCycleMaxFv_pos.ne'
  unfold cyclesPerNs
  field_simp

/-- The time of a wait is that of the cycles. -/
theorem wait_mul_cyclesPerNs (T : CpuFvs) {level : Fin T.nbFvLevels}
    (h : 0 < T.percents level.castSucc) (cycles : ℚ) :
    cycles * T.nsPerCpuCycleMaxFv * 100 / T.percents level.castSucc * T.cyclesPerNs level =
      cycles := by
  have hns := T.nsPerCpuCycleMaxFv_pos.ne'
  have hp := h.ne'
  unfold cyclesPerNs
  field_simp

end CpuFvs

/-- The clock is off by less than one cycle of the CPU. -/
def ScClock.Fine (c : ScClock) (T : CpuFvs) : Prop := ∀ level, c.slack * T.cyclesPerNs level < 1000

namespace CycleCpu

/-- In a wait: it is one at a level with a positive percentage, for the cycles that are left. -/
structure Waiting (c : ScClock) (s : CycleCpu T) (w : CycleWait T) : Prop where
  startTime_le : w.psStartTime ≤ s.now
  now_le : s.now ≤ w.deadline
  percent_pos : 0 < T.percents w.startFvLevel.castSucc
  percent_eq : w.startFvPercent = T.percents w.startFvLevel.castSucc
  deadline_eq : w.deadline = w.psStartTime +
    c.ofNs (s.cycles * T.nsPerCpuCycleMaxFv * 100 / T.percents w.startFvLevel.castSucc)
  cycles_nonneg : 0 ≤ s.cycles
  total_le : (s.noTotalCycles : ℚ) + s.cycles ≤ s.startNoCycles + s.ncycles
  rounds : s.credits.length + (if w.woken then 1 else 0) ≤ s.notified

structure CycleInv (c : ScClock) (s : CycleCpu T) : Prop where
  busy : s.bIdle = false
  level_pos : 0 < T.percents s.fvLevel.castSucc
  start_le : s.startNoCycles ≤ s.noTotalCycles
  credited_le : s.credited ≤ s.ncycles - s.cycles
  le_credited : s.ncycles - s.cycles ≤ s.credited + s.lost c
  waiting : ∀ w, s.wait = some w → s.Waiting c w
  ended : s.wait = none → s.noTotalCycles = s.startNoCycles + s.ncycles ∧ -1 < s.cycles ∧
    s.cycles < 1 ∧ s.credits.length ≤ s.notified + 1

/-- The cycles of the piece up to now. -/
def cyclesDone (s : CycleCpu T) (w : CycleWait T) : ℚ :=
  (s.now - w.psStartTime) * w.startFvPercent / (1000 * 100 * T.nsPerCpuCycleMaxFv)

variable {c : ScClock} {s t : CycleCpu T} {w : CycleWait T}

theorem Waiting.done_eq (h : s.Waiting c w) :
    s.cyclesDone w = (s.now - w.psStartTime) / 1000 * T.cyclesPerNs w.startFvLevel := by
  unfold cyclesDone
  rw [h.percent_eq, T.cyclesDone_eq]

theorem Waiting.done_nonneg (h : s.Waiting c w) : 0 ≤ s.cyclesDone w := by
  have hps := sub_nonneg.mpr h.startTime_le
  have hrate := T.cyclesPerNs_nonneg w.startFvLevel
  rw [h.done_eq]
  positivity

/-- The nanoseconds that the wait was asked for. -/
theorem Waiting.asked_nonneg (h : s.Waiting c w) :
    0 ≤ s.cycles * T.nsPerCpuCycleMaxFv * 100 / T.percents w.startFvLevel.castSucc := by
  have hns := T.nsPerCpuCycleMaxFv_pos
  have hp := h.percent_pos
  have hcycles := h.cycles_nonneg
  positivity

/-- A piece is not longer than its cycles take, but for the rounding of its end. -/
theorem Waiting.done_lt (hc : c.Fine T) (h : s.Waiting c w) : s.cyclesDone w < s.cycles + 1 := by
  have hrate := T.cyclesPerNs_nonneg w.startFvLevel
  have hasked := T.wait_mul_cyclesPerNs h.percent_pos s.cycles
  have hof := c.ofNs_le _ h.asked_nonneg
  have hfine := hc w.startFvLevel
  have hps : s.now - w.psStartTime ≤
      1000 * (s.cycles * T.nsPerCpuCycleMaxFv * 100 / T.percents w.startFvLevel.castSucc) +
        c.slack := by
    have hle := h.now_le
    rw [h.deadline_eq] at hle
    linarith
  calc s.cyclesDone w = (s.now - w.psStartTime) * T.cyclesPerNs w.startFvLevel / 1000 := by
        rw [h.done_eq]
        ring
    _ ≤ (1000 * (s.cycles * T.nsPerCpuCycleMaxFv * 100 / T.percents w.startFvLevel.castSucc) +
          c.slack) * T.cyclesPerNs w.startFvLevel / 1000 := by gcongr
    _ = s.cycles + c.slack * T.cyclesPerNs w.startFvLevel / 1000 := by
        rw [add_mul, mul_assoc, hasked]
        ring
    _ < s.cycles + 1 := by linarith

/-- At its end there is less than one cycle left. -/
theorem Waiting.lt_done (hc : c.Fine T) (h : s.Waiting c w) (hnow : s.now = w.deadline) :
    s.cycles < s.cyclesDone w + 1 := by
  have hrate := T.cyclesPerNs_nonneg w.startFvLevel
  have hasked := T.wait_mul_cyclesPerNs h.percent_pos s.cycles
  have hof := c.le_ofNs _ h.asked_nonneg
  have hfine := hc w.startFvLevel
  have hps : 1000 * (s.cycles * T.nsPerCpuCycleMaxFv * 100 / T.percents w.startFvLevel.castSucc) -
      c.slack ≤ s.now - w.psStartTime := by
    rw [hnow, h.deadline_eq]
    linarith
  have hdone : s.cycles - c.slack * T.cyclesPerNs w.startFvLevel / 1000 ≤ s.cyclesDone w :=
    calc s.cycles - c.slack * T.cyclesPerNs w.startFvLevel / 1000
        = (1000 * (s.cycles * T.nsPerCpuCycleMaxFv * 100 / T.percents w.startFvLevel.castSucc) -
            c.slack) * T.cyclesPerNs w.startFvLevel / 1000 := by
          rw [sub_mul, mul_assoc, hasked]
          ring
      _ ≤ (s.now - w.psStartTime) * T.cyclesPerNs w.startFvLevel / 1000 := by gcongr
      _ = s.cyclesDone w := by
          rw [h.done_eq]
          ring
  linarith

/-! ## 4. The rounds of the loop -/

theorem record_total (hb : s.bIdle = false) :
    (s.record c w).noTotalCycles = s.noTotalCycles + ⌊s.cyclesDone w⌋₊ := by
  simp only [record, hb]
  rfl

/-- The counter in the middle of a round. -/
theorem Waiting.record_le (hc : c.Fine T) (hb : s.bIdle = false) (h : s.Waiting c w) :
    (s.record c w).noTotalCycles ≤ s.startNoCycles + s.ncycles := by
  have hfloor : ((s.noTotalCycles + ⌊s.cyclesDone w⌋₊ : Nat) : ℚ) <
      ((s.startNoCycles + s.ncycles + 1 : Nat) : ℚ) := by
    push_cast
    have hle := Nat.floor_le h.done_nonneg
    have hlt := h.done_lt hc
    have htotal := h.total_le
    linarith
  rw [record_total hb]
  exact Nat.lt_succ_iff.mp (by exact_mod_cast hfloor)

theorem credited_record : (s.record c w).credited =
    s.credited + c.toNs (s.now - w.psStartTime) * T.cyclesPerNs w.startFvLevel := by
  simp [credited, record]

theorem lost_record :
    (s.record c w).lost c = s.lost c + c.loss * T.cyclesPerNs w.startFvLevel := by
  simp [lost, record]

/-- The credited time of a piece, by its cycles. -/
theorem Waiting.credit_le (h : s.Waiting c w) :
    c.toNs (s.now - w.psStartTime) * T.cyclesPerNs w.startFvLevel ≤ s.cyclesDone w := by
  have hps := sub_nonneg.mpr h.startTime_le
  rw [h.done_eq]
  exact mul_le_mul_of_nonneg_right (c.toNs_le _ hps) (T.cyclesPerNs_nonneg _)

theorem Waiting.le_credit (h : s.Waiting c w) : s.cyclesDone w ≤
    c.toNs (s.now - w.psStartTime) * T.cyclesPerNs w.startFvLevel +
      c.loss * T.cyclesPerNs w.startFvLevel := by
  have hps := sub_nonneg.mpr h.startTime_le
  rw [h.done_eq, ← add_mul]
  exact mul_le_mul_of_nonneg_right (c.le_toNs _ hps) (T.cyclesPerNs_nonneg _)

/-- A round begins. -/
theorem cycleInv_loopHead (hb : s.bIdle = false) (hlevel : 0 < T.percents s.fvLevel.castSucc)
    (hstart : s.startNoCycles ≤ s.noTotalCycles) (hcredited : s.credited ≤ s.ncycles - s.cycles)
    (hlost : s.ncycles - s.cycles ≤ s.credited + s.lost c) (hcycles : 0 ≤ s.cycles)
    (htotal : (s.noTotalCycles : ℚ) + s.cycles ≤ s.startNoCycles + s.ncycles)
    (hrounds : s.credits.length ≤ s.notified) : CycleInv c (s.loopHead c) := by
  have hne := hlevel.ne'
  refine ⟨?_, hlevel, hstart, hcredited, hlost, fun w hw => ?_, fun hw => by cases hw⟩
  · show (s.bIdle || decide (T.percents s.fvLevel.castSucc = 0)) = false
    rw [hb, decide_eq_false hne]
    rfl
  · simp only [loopHead, if_neg hne, Option.some.injEq] at hw
    subst hw
    refine ⟨le_rfl, ?_, hlevel, rfl, rfl, hcycles, htotal, hrounds⟩
    have hns := T.nsPerCpuCycleMaxFv_pos
    exact le_add_of_nonneg_right (c.ofNs_nonneg _ (by positivity))

/-- A round credits what is consumed, to within what the clock cuts off. -/
theorem CycleInv.credited_record (h : CycleInv c s) (hw : s.wait = some w) :
    (s.record c w).credited ≤ s.ncycles - (s.cycles - s.cyclesDone w) ∧
      s.ncycles - (s.cycles - s.cyclesDone w) ≤
        (s.record c w).credited + (s.record c w).lost c := by
  have hwait := h.waiting w hw
  have h1 := h.credited_le
  have h2 := h.le_credited
  rw [CycleCpu.credited_record, lost_record]
  constructor
  · have h3 := hwait.credit_le
    linarith
  · have h3 := hwait.le_credit
    linarith

/-- A wait that ends with cycles left did not time out: it has been woken. -/
theorem Waiting.woken_of_left (hc : c.Fine T) (h : s.Waiting c w) (hover : s.Over w)
    (hmore : 1 ≤ s.cycles - s.cyclesDone w) : w.woken = true := by
  refine hover.resolve_right fun hnow => ?_
  have := h.lt_done hc hnow
  linarith

/-- The thread runs on: the next round, or the end. -/
theorem CycleInv.run (hc : c.Fine T) (h : CycleInv c s) (hw : s.wait = some w) (hover : s.Over w) :
    CycleInv c ((s.record c w).loopEnd c) := by
  have hwait := h.waiting w hw
  have hdone := hwait.done_nonneg
  have hlt := hwait.done_lt hc
  obtain ⟨hcredited, hlost⟩ := h.credited_record hw
  have hstart : s.startNoCycles ≤ (s.record c w).noTotalCycles := by
    rw [record_total h.busy]
    exact h.start_le.trans (Nat.le_add_right _ _)
  have hlength : (s.record c w).credits.length = s.credits.length + 1 := by simp [record]
  have hrounds := hwait.rounds
  unfold loopEnd
  split
  · next hmore =>
      have hmore : 1 ≤ s.cycles - s.cyclesDone w := hmore
      refine cycleInv_loopHead h.busy h.level_pos hstart hcredited hlost (by linarith) ?_ ?_
      · rw [record_total h.busy]
        push_cast
        have hle := Nat.floor_le hdone
        have htotal := hwait.total_le
        show _ + (s.cycles - s.cyclesDone w) ≤ (s.startNoCycles : ℚ) + s.ncycles
        linarith
      · rw [hlength]
        rwa [hwait.woken_of_left hc hover hmore] at hrounds
  · next hend =>
      have hend : s.cycles - s.cyclesDone w < 1 := not_le.mp hend
      refine ⟨h.busy, h.level_pos, ?_, hcredited, hlost, (fun w' hw' => by cases hw'), fun _ => ?_⟩
      · show s.startNoCycles ≤ if s.bIdle then _ else s.startNoCycles + s.ncycles
        rw [h.busy]
        exact Nat.le_add_right _ _
      · refine ⟨?_, ?_, hend, ?_⟩
        · show (if s.bIdle then _ else s.startNoCycles + s.ncycles) = _
          rw [h.busy]
          rfl
        · show -1 < s.cycles - s.cyclesDone w
          linarith
        · rw [hlength]
          show s.credits.length + 1 ≤ s.notified + 1
          omega

/-! ## 5. The other events -/

/-- A call begins. -/
theorem CycleInv.consume (h : CycleInv c s) (ncycles : Nat) :
    CycleInv c ({ s with credits := [], notified := 0 }.consume c ncycles) := by
  refine cycleInv_loopHead rfl h.level_pos le_rfl ?_ ?_ ?_ le_rfl le_rfl
  · show (0 : ℚ) ≤ (ncycles : ℚ) - ncycles
    rw [sub_self]
  · show (ncycles : ℚ) - ncycles ≤ 0 + 0
    rw [sub_self, add_zero]
  · exact Nat.cast_nonneg ncycles

theorem CycleInv.pass (h : CycleInv c s) {ps : ℚ} (hps : s.MayPass ps) :
    CycleInv c { s with now := s.now + ps } := by
  refine ⟨h.busy, h.level_pos, h.start_le, h.credited_le, h.le_credited, fun w hw => ?_, h.ended⟩
  have hwait := h.waiting w hw
  exact
    { hwait with
      startTime_le := hwait.startTime_le.trans (le_add_of_nonneg_right hps.1)
      now_le := (hps.2 w hw).2 }

/-- The level may be another one, but it is positive. -/
theorem CycleInv.notify (h : CycleInv c s) {level : Fin T.nbFvLevels}
    (hlevel : 0 < T.percents level.castSucc) :
    CycleInv c { s with fvLevel := level }.notify := by
  refine ⟨h.busy, hlevel, h.start_le, h.credited_le, h.le_credited, fun w' hw' => ?_, fun hw' => ?_⟩
  · obtain ⟨w, hw, rfl⟩ := Option.map_eq_some_iff.mp hw'
    have hwait := h.waiting w hw
    refine { hwait with rounds := ?_ }
    have hrounds := hwait.rounds
    show s.credits.length + 1 ≤ s.notified + 1
    omega
  · obtain ⟨htotal, hgt, hlt, hrounds⟩ := h.ended (Option.map_eq_none_iff.mp hw')
    exact ⟨htotal, hgt, hlt, hrounds.trans (Nat.le_succ _)⟩

/-- **Every event keeps it.** -/
theorem CycleInv.next (hc : c.Fine T) (h : CycleInv c s) {e : CycleEvent}
    (he : e.LevelPositive T) (hs : s.next c e = some t) : CycleInv c t := by
  cases e with
  | consume ncycles =>
      simp only [CycleCpu.next] at hs
      split at hs
      · cases hs
        exact h.consume ncycles
      · cases hs
  | pass ps =>
      simp only [CycleCpu.next] at hs
      split at hs
      · next hps =>
          cases hs
          exact h.pass hps
      · cases hs
  | notify =>
      cases hs
      exact h.notify h.level_pos
  | setFvLevel val =>
      simp only [CycleCpu.next, setCpuFvLevel] at hs
      split at hs
      · cases hs
        exact h
      · split at hs
        · next hval =>
            cases hs
            exact h.notify (he hval)
        · cases hs
  | run =>
      simp only [CycleCpu.next] at hs
      split at hs
      · cases hs
      · next w hw =>
          split at hs
          · next hover =>
              cases hs
              exact h.run hc hw hover
          · cases hs

/-! ## 6. What the invariant says -/

/-- Only a round changes the counter. -/
theorem next_total {e : CycleEvent} (hs : s.next c e = some t) :
    t.noTotalCycles = s.noTotalCycles ∨
      ∃ w, s.wait = some w ∧ t = (s.record c w).loopEnd c := by
  cases e with
  | consume ncycles =>
      simp only [CycleCpu.next] at hs
      split at hs
      · cases hs
        exact .inl rfl
      · cases hs
  | pass ps =>
      simp only [CycleCpu.next] at hs
      split at hs
      · cases hs
        exact .inl rfl
      · cases hs
  | notify =>
      cases hs
      exact .inl rfl
  | setFvLevel val =>
      simp only [CycleCpu.next, setCpuFvLevel] at hs
      split at hs
      · cases hs
        exact .inl rfl
      · split at hs
        · cases hs
          exact .inl rfl
        · cases hs
  | run =>
      simp only [CycleCpu.next] at hs
      split at hs
      · cases hs
      · next w hw =>
          split at hs
          · cases hs
            exact .inr ⟨w, hw, rfl⟩
          · cases hs

theorem CycleInv.record_mono (h : CycleInv c s) :
    s.noTotalCycles ≤ (s.record c w).noTotalCycles := by
  rw [record_total h.busy]
  exact Nat.le_add_right _ _

/-- The locals of a call are what its caller sees. -/
theorem next_call {e : CycleEvent} (hs : s.next c e = some t) :
    (⟨t.startNoCycles, t.ncycles⟩ : CycleCall) =
      CycleCall.see ⟨s.startNoCycles, s.ncycles⟩ s e t := by
  cases e with
  | consume ncycles =>
      simp only [CycleCpu.next] at hs
      split at hs <;> cases hs
      rfl
  | pass ps =>
      simp only [CycleCpu.next] at hs
      split at hs <;> cases hs
      rfl
  | notify =>
      cases hs
      rfl
  | setFvLevel val =>
      simp only [CycleCpu.next, setCpuFvLevel] at hs
      split at hs
      · cases hs
        rfl
      · split at hs <;> cases hs
        rfl
  | run =>
      simp only [CycleCpu.next] at hs
      split at hs
      · cases hs
      · split at hs <;> cases hs
        simp only [CycleCall.see, loopEnd]
        split <;> rfl

theorem CycleInv.rises (hc : c.Fine T) (h : CycleInv c s) {e : CycleEvent}
    (hs : s.next c e = some t) : s.noTotalCycles ≤ t.noTotalCycles := by
  rcases next_total hs with htotal | ⟨w, hw, rfl⟩
  · exact htotal.ge
  · have hrise : s.noTotalCycles ≤ (s.record c w).noTotalCycles := h.record_mono
    refine hrise.trans ?_
    unfold loopEnd
    split
    · exact le_rfl
    · show _ ≤ if s.bIdle then _ else s.startNoCycles + s.ncycles
      rw [h.busy]
      exact (h.waiting w hw).record_le hc h.busy

theorem CycleInv.le_sum (h : CycleInv c s) : s.noTotalCycles ≤ s.startNoCycles + s.ncycles := by
  cases hw : s.wait with
  | none => exact (h.ended hw).1.le
  | some w =>
      have htotal := (h.waiting w hw).total_le
      have hcycles := (h.waiting w hw).cycles_nonneg
      have hle : (s.noTotalCycles : ℚ) ≤ ((s.startNoCycles + s.ncycles : Nat) : ℚ) := by
        push_cast
        linarith
      exact_mod_cast hle

theorem CycleInv.rounds (h : CycleInv c s) : s.credits.length ≤ s.notified + 1 := by
  cases hw : s.wait with
  | none => exact (h.ended hw).2.2.2
  | some w =>
      have hrounds := (h.waiting w hw).rounds
      omega

/-- A wait that is not cut times out, and the call returns. -/
theorem CycleInv.times_out (hc : c.Fine T) (h : CycleInv c s) (hw : s.wait = some w)
    (hwoken : w.woken = false) : ∃ t, t.wait = none ∧
      exec (CycleCpu.next c) s [.pass (w.deadline - s.now), .run] = some t := by
  have hwait := h.waiting w hw
  have hps : s.MayPass (w.deadline - s.now) := by
    refine ⟨sub_nonneg.mpr hwait.now_le, fun w' hw' => ?_⟩
    cases hw.symm.trans hw'
    exact ⟨hwoken, (add_sub_cancel s.now w.deadline).le⟩
  have hpass : s.next c (.pass (w.deadline - s.now)) =
      some { s with now := s.now + (w.deadline - s.now) } := if_pos hps
  have hat : s.now + (w.deadline - s.now) = w.deadline := add_sub_cancel s.now w.deadline
  have hlast := (h.pass hps).waiting w hw
  have hless := hlast.lt_done hc hat
  refine ⟨(CycleCpu.record c { s with now := s.now + (w.deadline - s.now) } w).loopEnd c, ?_, ?_⟩
  · unfold loopEnd
    rw [if_neg]
    show ¬ 1 ≤ s.cycles - cyclesDone { s with now := s.now + (w.deadline - s.now) } w
    linarith
  · rw [exec_cons hpass]
    simp only [exec, CycleCpu.next, hw, Over, hat, or_true, if_true, Option.bind_some]

/-- **The call returns** when nobody notifies it any more. -/
theorem CycleInv.returns (hc : c.Fine T) (h : CycleInv c s) : ∃ es t,
    (∀ e ∈ es, e.IsThread) ∧ exec (CycleCpu.next c) s es = some t ∧ t.wait = none := by
  have hout : ∀ {s' : CycleCpu T} {w' : CycleWait T}, CycleInv c s' → s'.wait = some w' →
      w'.woken = false → ∃ es t, (∀ e ∈ es, e.IsThread) ∧
        exec (CycleCpu.next c) s' es = some t ∧ t.wait = none := by
    intro s' w' h' hw' hwoken
    obtain ⟨t, ht, hrun⟩ := h'.times_out hc hw' hwoken
    refine ⟨_, t, fun e he => ?_, hrun, ht⟩
    rcases List.mem_pair.mp he with rfl | rfl <;> trivial
  cases hw : s.wait with
  | none => exact ⟨[], s, fun e he => absurd he List.not_mem_nil, rfl, hw⟩
  | some w =>
      cases hwoken : w.woken with
      | false => exact hout h hw hwoken
      | true =>
          -- the piece is recorded first, and then the rest waits
          have hrun : s.next c .run = some ((s.record c w).loopEnd c) := by
            simp only [CycleCpu.next, hw, Over, hwoken, true_or, if_true]
          have hinv := h.run hc hw (.inl hwoken)
          by_cases hmore : 1 ≤ (s.record c w).cycles
          · have hhead : (s.record c w).loopEnd c = (s.record c w).loopHead c := if_pos hmore
            rw [hhead] at hrun hinv
            obtain ⟨es, t, hes, hexec, ht⟩ := hout hinv rfl rfl
            refine ⟨.run :: es, t, fun e he => ?_, (exec_cons hrun es).trans hexec, ht⟩
            rcases List.mem_cons.mp he with rfl | he
            · trivial
            · exact hes e he
          · refine ⟨[.run], _, fun e he => ?_, exec_cons hrun [], ?_⟩
            · rw [List.mem_singleton.mp he]
              trivial
            · rw [loopEnd, if_neg hmore]

theorem CycleInv.right (hc : c.Fine T) (h : CycleInv c s) :
    CyclesRight c s ⟨s.startNoCycles, s.ncycles⟩ where
  start_le := h.start_le
  le_sum := h.le_sum
  rises _ _ hs := h.rises hc hs
  recorded _ hw := ⟨h.record_mono, (h.waiting _ hw).record_le hc h.busy⟩
  ends hw := (h.ended hw).1
  rounds := h.rounds
  returns := h.returns hc
  begins hw ncycles := by simp only [CycleCpu.next, hw, Option.some.injEq, exists_eq']

/-- The credited times in the end. -/
theorem CycleInv.credits (h : CycleInv c s) (hw : s.wait = none) :
    s.credited < s.ncycles + 1 ∧ s.ncycles < s.credited + s.lost c + 1 := by
  obtain ⟨-, hgt, hlt, -⟩ := h.ended hw
  have h1 := h.credited_le
  have h2 := h.le_credited
  constructor <;> linarith

theorem cycleInv_start {now : ℚ} {fvLevel : Fin T.nbFvLevels} {noTotalCycles : Nat}
    (h : 0 < T.percents fvLevel.castSucc) : CycleInv c (start now fvLevel noTotalCycles) := by
  refine ⟨rfl, h, le_rfl, ?_, ?_, (fun w hw => by cases hw), fun _ => ?_⟩
  · show (0 : ℚ) ≤ (0 : Nat) - 0
    norm_num
  · show ((0 : Nat) : ℚ) - 0 ≤ 0 + 0
    norm_num
  · exact ⟨rfl, by norm_num [start], by norm_num [start], Nat.zero_le _⟩

/-! ## 7. Runs -/

theorem fine_exact (T : CpuFvs) : ScClock.exact.Fine T := by
  intro level
  show 0 * T.cyclesPerNs level < 1000
  norm_num

/-- A CPU with its last call. -/
abbrev Called (T : CpuFvs) := Observed (CycleCpu T) CycleCall

def nextCalled (c : ScClock) : Called T → CycleEvent → Option (Called T) :=
  Observed.step (CycleCpu.next c) CycleCall.see

/-- Before the first call. -/
def startCalled (now : ℚ) (fvLevel : Fin T.nbFvLevels) (noTotalCycles : Nat) : Called T :=
  ⟨start now fvLevel noTotalCycles, noTotalCycles, 0⟩

/-- The invariant holds along every run, of the last call as its caller sees it. -/
theorem along_calls (hc : c.Fine T) {P : CycleCpu T → CycleCall → Prop}
    (hP : ∀ s, CycleInv c s → P s ⟨s.startNoCycles, s.ncycles⟩) {now : ℚ}
    {fvLevel : Fin T.nbFvLevels} (noTotalCycles : Nat) (hlevel : 0 < T.percents fvLevel.castSucc)
    {es : List CycleEvent} (hes : ∀ e ∈ es, e.LevelPositive T) :
    Along (nextCalled c) (fun x => CyclesRight c x.state x.seen ∧ P x.state x.seen)
      (startCalled now fvLevel noTotalCycles) es := by
  refine along_of_labels (I := fun x : Called T => CycleInv c x.state ∧
      x.seen = ⟨x.state.startNoCycles, x.state.ncycles⟩) (fun x h => ?_) (fun x e x' h he hs => ?_)
    ⟨cycleInv_start hlevel, rfl⟩ hes
  · rw [h.2]
    exact ⟨h.1.right hc, hP _ h.1⟩
  · obtain ⟨hnext, hseen⟩ := Observed.step_eq_some hs
    refine ⟨h.1.next hc he hnext, ?_⟩
    rw [hseen, h.2, next_call hnext]

/-- **The cycles of a CPU**, for times in exact rationals: the counter is right all along, and a call
    returns with credited times that are its cycles, to within one. -/
theorem consume_right (now : ℚ) (fvLevel : Fin T.nbFvLevels) (noTotalCycles : Nat)
    (hlevel : 0 < T.percents fvLevel.castSucc) (es : List CycleEvent)
    (hes : ∀ e ∈ es, e.LevelPositive T) :
    Along (nextCalled .exact)
      (fun x => CyclesRight .exact x.state x.seen ∧
        (x.state.wait = none → |x.state.credited - x.seen.ncycles| < 1))
      (startCalled now fvLevel noTotalCycles) es := by
  refine along_calls (P := fun s k => s.wait = none → |s.credited - k.ncycles| < 1) (fine_exact T)
    (fun s h hw => ?_) noTotalCycles hlevel hes
  have hlost : s.lost .exact = 0 := by simp [lost, ScClock.exact]
  obtain ⟨h1, h2⟩ := h.credits hw
  rw [hlost] at h2
  exact abs_lt.mpr ⟨by linarith, by linarith⟩

/-- The percentages of cpu_fvs.cpp. -/
theorem arm_percents_pos (level : Fin CpuFvs.arm.nbFvLevels) :
    0 < CpuFvs.arm.percents level.castSucc := by
  have hpos : ∀ i : Fin getCpuNbFvLevels, 0 < armCpuFv.get ⟨i.val, i.isLt.trans (by decide)⟩ := by
    decide
  have hi : (0 : ℚ) < (armCpuFv.get ⟨level.val, level.isLt.trans (by decide)⟩ : Nat) := by
    exact_mod_cast hpos level
  exact div_pos (mul_pos hi (by norm_num)) (by norm_num)

/-- Ten cycles at 300 MHz, of which the last are consumed at 25 MHz; and three more. -/
theorem consume_right_cut :
    ∃ x, exec (nextCalled .exact) (startCalled (T := CpuFvs.arm) 0 FvLevel.boot 5)
        [.consume 10, .pass 20000, .setFvLevel 0#32, .run, .pass 160000, .run, .consume 3,
          .pass 120000, .run] = some x ∧
      x.seen = ⟨15, 3⟩ ∧ x.state.wait = none ∧ x.state.noTotalCycles = 18 ∧
      CyclesRight .exact x.state x.seen ∧
      (x.state.wait = none → |x.state.credited - x.seen.ncycles| < 1) := by
  have hmap : (exec (nextCalled .exact) (startCalled (T := CpuFvs.arm) 0 FvLevel.boot 5)
      [.consume 10, .pass 20000, .setFvLevel 0#32, .run, .pass 160000, .run, .consume 3,
        .pass 120000, .run]).map (fun x => (x.seen, x.state.wait.isNone, x.state.noTotalCycles)) =
      some (⟨15, 3⟩, true, 18) := by decide +kernel
  obtain ⟨x, hrun, hx⟩ := Option.map_eq_some_iff.mp hmap
  obtain ⟨hseen, hwait, htotal⟩ := by simpa only [Prod.mk.injEq] using hx
  refine ⟨x, hrun, hseen, Option.isNone_iff_eq_none.mp hwait, htotal,
    (consume_right 0 FvLevel.boot 5 (arm_percents_pos _) _ fun e he => ?_).last hrun⟩
  simp only [List.mem_cons, List.not_mem_nil, or_false] at he
  rcases he with rfl | rfl | rfl | rfl | rfl | rfl | rfl | rfl | rfl
  case inr.inr.inl => exact fun _ => arm_percents_pos _
  all_goals trivial

/-- `arm_cpu_fv_percents` are at most 100: at 300 MHz a picosecond is no cycle. -/
theorem fine_ticks : ScClock.ticks.Fine CpuFvs.arm := by
  intro level
  have hle : CpuFvs.arm.percents level.castSucc ≤ 100 := armCpuFvPercents.le_hundred _
  have hns : (100 : ℚ) * CpuFvs.arm.nsPerCpuCycleMaxFv = 1000 / 3 := by
    norm_num [CpuFvs.nsPerCpuCycleMaxFv, CpuFvs.arm]
  have hrate : CpuFvs.arm.cyclesPerNs level ≤ 1 := by
    rw [CpuFvs.cyclesPerNs, hns, div_le_one (by norm_num)]
    linarith
  show 1 / 2 * CpuFvs.arm.cyclesPerNs level < 1000
  linarith

/-- **The same in picoseconds**, with the CPU of cpu_fvs.cpp: a credited time is short by less than the
    cycles of one nanosecond for each piece. -/
theorem consume_right_ticks (now : ℚ) (fvLevel : FvLevel) (noTotalCycles : Nat)
    (es : List CycleEvent) :
    Along (nextCalled .ticks)
      (fun x => CyclesRight .ticks x.state x.seen ∧
        (x.state.wait = none → x.state.credited < x.seen.ncycles + 1 ∧ x.seen.ncycles <
          x.state.credited + (x.state.credits.map fun p => CpuFvs.arm.cyclesPerNs p.1).sum + 1))
      (startCalled (T := CpuFvs.arm) now fvLevel noTotalCycles) es := by
  have hpos : ∀ e ∈ es, e.LevelPositive CpuFvs.arm := by
    intro e _
    cases e with
    | setFvLevel val => exact fun h => arm_percents_pos ⟨val.toNat, h⟩
    | _ => trivial
  refine along_calls (P := fun s k => s.wait = none → s.credited < k.ncycles + 1 ∧
      k.ncycles < s.credited + (s.credits.map fun p => CpuFvs.arm.cyclesPerNs p.1).sum + 1)
    fine_ticks (fun s h hw => ?_) noTotalCycles (arm_percents_pos _) hpos
  have hlost : s.lost .ticks = (s.credits.map fun p => CpuFvs.arm.cyclesPerNs p.1).sum := by
    simp [lost, ScClock.ticks]
  exact hlost ▸ h.credits hw

end CycleCpu

end Rabbits
