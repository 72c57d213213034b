/-
  File:      Rabbits/Cpu/Measure.lean
  Subject:   The usage of the CPUs between two accesses of a guest (cpu_logs.cpp:
             add_time_at_fv, update_fv_grf, start_measure, stop_measure; cpu_fvs.cpp).

  Two observers look at one table of times: the curves on the screen, and the measure. Each has a
  copy of the table from its last look; but the name of the second copy, `macro_ns_time_at_fv_measure`,
  is defined as the first.

  * `UsageLogs` -- the table and its copies; `UsageLogs.stopMeasure` -- what a guest reads;
  * `UsageTrace` -- the calls and what they do, `recorded` -- the time in a part of it;
  * `UsageInv` -- the table is ahead of the first copy by the time since the last sample;
  * `measures_right` -- **which measures are right**, and that `start_measure` changes no sample.

  The doubles of the source are rationals here, and a division by zero has no result. The array `val`
  of a sample has 32 bytes: the curves are for platforms of at most 32 CPUs.
-/
import Mathlib.Algebra.BigOperators.Fin
import Mathlib.Algebra.Order.BigOperators.Group.Finset
import Mathlib.Algebra.Order.Floor.Ring
import Mathlib.Data.List.DropRight
import Mathlib.Data.Rat.Floor
import Rabbits.Cpu.CpuLogs
import Rabbits.Cpu.EnergyMode

namespace Rabbits

open Lib

/-! ## 1. The model -/

/-- The levels of a CPU with the idle one behind them, and `m_cpu_fv_percents`. -/
structure FvTable where
  nbFvLevels1 : Nat
  percents : Fin nbFvLevels1 → ℚ
  nonneg : ∀ i, 0 ≤ percents i
  le_hundred : ∀ i, percents i ≤ 100

/-- `arm_cpu_fv_percents`. -/
def armCpuFvPercents : FvTable where
  nbFvLevels1 := getCpuNbFvLevels + 1
  percents i := ((armCpuFv.get ⟨i.val, i.isLt⟩ : Nat) * 100 : ℚ) / 300
  nonneg i := by positivity
  le_hundred i := by
    have hle : ∀ i : Fin (getCpuNbFvLevels + 1), armCpuFv.get ⟨i.val, i.isLt⟩ ≤ 300 := by decide
    have hi : ((armCpuFv.get ⟨i.val, i.isLt⟩ : Nat) : ℚ) ≤ 300 := by exact_mod_cast hle i
    rw [div_le_iff₀ (by norm_num)]
    linarith

variable {ncpu : Nat} {T : FvTable}

/-- A table of `unsigned long long`, `[ncpu][nb_fv_levels_1]`. -/
abbrev TimeTable (ncpu : Nat) (T : FvTable) := Fin ncpu → Fin T.nbFvLevels1 → BitVec 64

/-- The fields of `cpu_logs` that the two observers use; `pipe` is whether `m_pipe_grf_run_at_fv` is
    open. -/
structure UsageLogs (ncpu : Nat) (T : FvTable) where
  nsTimeAtFv : TimeTable ncpu T
  nsTimeAtFvPrev : TimeTable ncpu T
  nsTimeAtFvMeasure : TimeTable ncpu T
  pipe : Bool

/-- A call; `val` is the array on the stack, `written` whether the pipe takes the whole sample. -/
inductive UsageCall (ncpu : Nat) (T : FvTable) where
  | addTimeAtFv (cpu : Fin ncpu) (fvLevel : Fin T.nbFvLevels1) (time : BitVec 64)
  | updateFvGrf (val : Nat → Byte) (written : Bool)
  | startMeasure
  | stopMeasure

def UsageCall.isStart : UsageCall ncpu T → Bool
  | .startMeasure => true
  | _ => false

namespace UsageLogs

/-- `internal_init` sets the second copy through the macro: its own memory stays as it is. -/
def new (measure : TimeTable ncpu T) (pipe : Bool) : UsageLogs ncpu T :=
  ⟨fun _ _ => 0, fun _ _ => 0, measure, pipe⟩

/-- `macro_ns_time_at_fv_measure`. -/
def macroNsTimeAtFvMeasure (s : UsageLogs ncpu T) : TimeTable ncpu T := s.nsTimeAtFvPrev

/-- The inner loop over the levels, with `s1` and `s2`. -/
def weigh (diff : Fin T.nbFvLevels1 → BitVec 64) (acc : ℚ × ℚ) : ℚ × ℚ :=
  (List.finRange T.nbFvLevels1).foldl
    (fun acc i => (acc.1 + (diff i).toNat * T.percents i, acc.2 + (diff i).toNat)) acc

/-- `val[cpu]` of a sample. -/
def sampleValue (s : UsageLogs ncpu T) (cpu : Fin ncpu) : Byte :=
  let acc := weigh (fun i => s.nsTimeAtFv cpu i - s.nsTimeAtFvPrev cpu i) (0, 0)
  if acc.2 ≠ 0 then BitVec.ofNat 8 ⌊acc.1 / acc.2⌋₊ else 0

/-- The sample that `update_fv_grf` writes. -/
def sample (s : UsageLogs ncpu T) (val : Nat → Byte) : List Byte :=
  Rabbits.updateFvGrf ncpu val fun cpu => if h : cpu < ncpu then s.sampleValue ⟨cpu, h⟩ else 0

/-- `stop_measure`: the value of `(unsigned long) (s1 / s2 * 100)`. -/
def stopMeasure (s : UsageLogs ncpu T) : Option ULong :=
  let acc := (List.finRange ncpu).reverse.foldl
    (fun acc cpu => weigh (fun i => s.nsTimeAtFv cpu i - s.macroNsTimeAtFvMeasure cpu i) acc) (0, 0)
  if acc.2 ≠ 0 then some (BitVec.ofNat 32 ⌊acc.1 / acc.2 * 100⌋₊) else none

def addTimeAtFv (s : UsageLogs ncpu T) (cpu : Fin ncpu) (fvLevel : Fin T.nbFvLevels1)
    (time : BitVec 64) : UsageLogs ncpu T :=
  { s with
    nsTimeAtFv := Function.update s.nsTimeAtFv cpu
      (Function.update (s.nsTimeAtFv cpu) fvLevel (s.nsTimeAtFv cpu fvLevel + time)) }

/-- `update_fv_grf`, which makes its copy also after the write that closes the pipe. -/
def updateFvGrf (s : UsageLogs ncpu T) (written : Bool) : UsageLogs ncpu T :=
  if s.pipe then { s with nsTimeAtFvPrev := s.nsTimeAtFv, pipe := written } else s

def startMeasure (s : UsageLogs ncpu T) : UsageLogs ncpu T :=
  { s with nsTimeAtFvMeasure := s.nsTimeAtFv }

/-- The state after a call. -/
def next (s : UsageLogs ncpu T) : UsageCall ncpu T → Option (UsageLogs ncpu T)
  | .addTimeAtFv cpu fvLevel time => some (s.addTimeAtFv cpu fvLevel time)
  | .updateFvGrf _ written => some (s.updateFvGrf written)
  | .startMeasure => some s.startMeasure
  | .stopMeasure => some s

theorem nsTimeAtFv_addTimeAtFv (s : UsageLogs ncpu T) (c cpu : Fin ncpu) (l i : Fin T.nbFvLevels1)
    (time : BitVec 64) : (s.addTimeAtFv c l time).nsTimeAtFv cpu i =
      s.nsTimeAtFv cpu i + if c = cpu ∧ l = i then time else 0 := by
  unfold addTimeAtFv
  by_cases hc : c = cpu
  · subst hc
    by_cases hl : l = i
    · subst hl
      simp
    · simp [hl, Function.update_of_ne (Ne.symm hl)]
  · simp [hc, Function.update_of_ne (Ne.symm hc)]

end UsageLogs

/-- What a call does. -/
inductive UsageEvent (ncpu : Nat) (T : FvTable) where
  | added (cpu : Fin ncpu) (fvLevel : Fin T.nbFvLevels1) (time : BitVec 64)
  | drawn (sample : List Byte)
  | started

def UsageLogs.event (s : UsageLogs ncpu T) : UsageCall ncpu T → List (UsageEvent ncpu T)
  | .addTimeAtFv cpu fvLevel time => [.added cpu fvLevel time]
  | .updateFvGrf val _ => if s.pipe then [.drawn (s.sample val)] else []
  | .startMeasure => [.started]
  | .stopMeasure => []

/-! ## 2. What is asked of a measure -/

namespace UsageEvent

def isStart : UsageEvent ncpu T → Bool
  | .started => true
  | _ => false

def isDrawn : UsageEvent ncpu T → Bool
  | .drawn _ => true
  | _ => false

def sampleOf : UsageEvent ncpu T → Option (List Byte)
  | .drawn sample => some sample
  | _ => none

/-- The time that an event adds at a level of a CPU. -/
def time (cpu : Fin ncpu) (fvLevel : Fin T.nbFvLevels1) : UsageEvent ncpu T → Nat
  | .added c l t => if c = cpu ∧ l = fvLevel then t.toNat else 0
  | _ => 0

end UsageEvent

/-- The table and its copies, with what the calls have done. -/
abbrev UsageTrace (ncpu : Nat) (T : FvTable) := Traced (UsageLogs ncpu T) (UsageEvent ncpu T)

namespace UsageTrace

def step : UsageTrace ncpu T → UsageCall ncpu T → Option (UsageTrace ncpu T) :=
  Traced.step UsageLogs.next UsageLogs.event

def new (measure : TimeTable ncpu T) (pipe : Bool) : UsageTrace ncpu T := ⟨.new measure pipe, []⟩

/-- The samples that have been drawn. -/
def samples (s : UsageTrace ncpu T) : List (List Byte) := s.trace.filterMap UsageEvent.sampleOf

end UsageTrace

/-- The time in some events. -/
def recorded (es : List (UsageEvent ncpu T)) (cpu : Fin ncpu) (fvLevel : Fin T.nbFvLevels1) : Nat :=
  (es.map (UsageEvent.time cpu fvLevel)).sum

/-- The time at all levels of all CPUs. -/
def recordedAll (es : List (UsageEvent ncpu T)) : Nat := ∑ cpu, ∑ i, recorded es cpu i

/-- The events after the last `start_measure`. -/
def sinceStart (es : List (UsageEvent ncpu T)) : List (UsageEvent ncpu T) :=
  es.rtakeWhile fun e => !e.isStart

/-- The events after the last sample. -/
def sinceDrawn (es : List (UsageEvent ncpu T)) : List (UsageEvent ncpu T) :=
  es.rtakeWhile fun e => !e.isDrawn

/-- The frequency-weighted usage, in hundredths of a percent. -/
def usage (es : List (UsageEvent ncpu T)) : ℚ :=
  (∑ cpu, ∑ i, (recorded es cpu i : ℚ) * T.percents i) / (recordedAll es : ℚ) * 100

/-- A `stop_measure` in which some time has been recorded since the last `start_measure`. -/
def Measures (s : UsageTrace ncpu T) : UsageCall ncpu T → Prop
  | .stopMeasure => (∃ e ∈ s.trace, e.isStart) ∧ 0 < recordedAll (sinceStart s.trace)
  | _ => False

instance (s : UsageTrace ncpu T) (call : UsageCall ncpu T) : Decidable (Measures s call) := by
  cases call <;> unfold Measures <;> infer_instance

/-- It returns the usage of that time, truncated. -/
def MeasureRight (s : UsageTrace ncpu T) (call : UsageCall ncpu T) : Prop :=
  Measures s call →
    ∃ val, s.state.stopMeasure = some val ∧ val.toNat = ⌊usage (sinceStart s.trace)⌋₊

/-- No time has been recorded between the last `start_measure` and the last sample, whichever comes
    first, and no time of a level has gone round. -/
def SameWindow (s : UsageTrace ncpu T) (call : UsageCall ncpu T) : Prop :=
  Measures s call → ∀ cpu i,
    recorded (sinceDrawn s.trace) cpu i = recorded (sinceStart s.trace) cpu i ∧
      recorded (sinceStart s.trace) cpu i < 2 ^ 64

instance (s : UsageTrace ncpu T) (call : UsageCall ncpu T) : Decidable (SameWindow s call) := by
  unfold SameWindow
  infer_instance

/-! ## 3. The sums of the two loops -/

namespace UsageLogs

/-- A loop that adds to both sums. -/
theorem foldl_add_pair {α : Type} (f g : α → ℚ) (l : List α) (acc : ℚ × ℚ) :
    l.foldl (fun acc a => (acc.1 + f a, acc.2 + g a)) acc =
      (acc.1 + (l.map f).sum, acc.2 + (l.map g).sum) := by
  induction l generalizing acc with
  | nil => simp
  | cons a l ih => rw [List.foldl_cons, ih, List.map_cons, List.map_cons, List.sum_cons,
      List.sum_cons, add_assoc, add_assoc]

theorem weigh_eq (diff : Fin T.nbFvLevels1 → BitVec 64) (acc : ℚ × ℚ) :
    weigh diff acc = (acc.1 + ∑ i, ((diff i).toNat : ℚ) * T.percents i,
      acc.2 + ∑ i, ((diff i).toNat : ℚ)) := by
  rw [weigh, foldl_add_pair, Fin.sum_univ_def, Fin.sum_univ_def]

/-- What `stop_measure` divides, for the differences that it finds. -/
theorem stopMeasure_eq {s : UsageLogs ncpu T} {w : Fin ncpu → Fin T.nbFvLevels1 → Nat}
    (hw : ∀ cpu i, (s.nsTimeAtFv cpu i - s.nsTimeAtFvPrev cpu i).toNat = w cpu i)
    (hpos : 0 < ∑ cpu, ∑ i, w cpu i) :
    s.stopMeasure = some (BitVec.ofNat 32
      ⌊(∑ cpu, ∑ i, (w cpu i : ℚ) * T.percents i) / ((∑ cpu, ∑ i, w cpu i : Nat) : ℚ) * 100⌋₊) := by
  have hsum (f : Fin ncpu → ℚ) : ((List.finRange ncpu).reverse.map f).sum = ∑ cpu, f cpu := by
    rw [List.map_reverse, List.sum_reverse, Fin.sum_univ_def]
  have hcast : ((∑ cpu, ∑ i, w cpu i : Nat) : ℚ) = ∑ cpu, ∑ i, (w cpu i : ℚ) := by push_cast; rfl
  have hne : ∑ cpu, ∑ i, (w cpu i : ℚ) ≠ 0 := by
    rw [← hcast]
    exact_mod_cast hpos.ne'
  simp only [stopMeasure, macroNsTimeAtFvMeasure, weigh_eq, hw, foldl_add_pair, hsum, zero_add]
  rw [if_pos hne, hcast]

end UsageLogs

theorem usage_le {es : List (UsageEvent ncpu T)} : usage es ≤ 10000 := by
  have hterm (cpu : Fin ncpu) (i : Fin T.nbFvLevels1) :
      (recorded es cpu i : ℚ) * T.percents i ≤ recorded es cpu i * 100 :=
    mul_le_mul_of_nonneg_left (T.le_hundred i) (Nat.cast_nonneg _)
  have hsum : ∑ cpu, ∑ i, (recorded es cpu i : ℚ) * T.percents i ≤ recordedAll es * 100 := by
    rw [recordedAll, Nat.cast_sum, Finset.sum_mul]
    refine Finset.sum_le_sum fun cpu _ => ?_
    rw [Nat.cast_sum, Finset.sum_mul]
    exact Finset.sum_le_sum fun i _ => hterm cpu i
  have hdiv : (∑ cpu, ∑ i, (recorded es cpu i : ℚ) * T.percents i) / recordedAll es ≤ 100 :=
    div_le_of_le_mul₀ (Nat.cast_nonneg _) (by norm_num) (by linarith)
  unfold usage
  linarith

/-! ## 4. The table and its first copy -/

@[simp] theorem recorded_append (es es' : List (UsageEvent ncpu T)) (cpu : Fin ncpu)
    (i : Fin T.nbFvLevels1) : recorded (es ++ es') cpu i = recorded es cpu i + recorded es' cpu i := by
  simp [recorded]

namespace UsageTrace

/-- The table is ahead of its copy by the time since the last sample. -/
def UsageInv (s : UsageTrace ncpu T) : Prop :=
  ∀ cpu i, s.state.nsTimeAtFv cpu i =
    s.state.nsTimeAtFvPrev cpu i + BitVec.ofNat 64 (recorded (sinceDrawn s.trace) cpu i)

theorem sinceDrawn_append {es : List (UsageEvent ncpu T)} {e : UsageEvent ncpu T}
    (h : e.isDrawn = false) : sinceDrawn (es ++ [e]) = sinceDrawn es ++ [e] :=
  List.rtakeWhile_concat_pos _ _ _ (by simp [h])

theorem usageInv_new (measure : TimeTable ncpu T) (pipe : Bool) : UsageInv (new measure pipe) :=
  fun _ _ => rfl

theorem usageInv_step {s s' : UsageTrace ncpu T} {c : UsageCall ncpu T} (h : UsageInv s)
    (hs : step s c = some s') : UsageInv s' := by
  obtain ⟨t, hnext, rfl⟩ := Option.map_eq_some_iff.mp hs
  intro cpu i
  cases c with
  | addTimeAtFv c l time =>
      obtain rfl := Option.some.inj hnext
      have hadded : BitVec.ofNat 64 (recorded [.added c l time] cpu i) =
          if c = cpu ∧ l = i then time else 0 := by
        by_cases hcl : c = cpu ∧ l = i <;> simp [recorded, UsageEvent.time, hcl]
      simp only [UsageLogs.event]
      rw [sinceDrawn_append rfl, recorded_append, BitVec.ofNat_add, ← BitVec.add_assoc, hadded,
        UsageLogs.nsTimeAtFv_addTimeAtFv, h cpu i]
      rfl
  | updateFvGrf val written =>
      obtain rfl := Option.some.inj hnext
      cases hp : s.state.pipe with
      | true =>
          simp only [UsageLogs.event, UsageLogs.updateFvGrf, hp, if_true]
          rw [sinceDrawn, List.rtakeWhile_concat_neg _ _ _ (by simp [UsageEvent.isDrawn])]
          exact (BitVec.add_zero _).symm
      | false =>
          simp only [UsageLogs.event, UsageLogs.updateFvGrf, hp, Bool.false_eq_true, if_false,
            List.append_nil]
          exact h cpu i
  | startMeasure =>
      obtain rfl := Option.some.inj hnext
      simp only [UsageLogs.event]
      rw [sinceDrawn_append rfl, recorded_append]
      exact h cpu i
  | stopMeasure =>
      obtain rfl := Option.some.inj hnext
      simp only [UsageLogs.event, List.append_nil]
      exact h cpu i

/-- A measure whose window is that of the samples is right. -/
theorem measureRight_of_sameWindow {s : UsageTrace ncpu T} {c : UsageCall ncpu T} (h : UsageInv s)
    (hw : SameWindow s c) : MeasureRight s c := by
  intro hm
  have hpos : 0 < recordedAll (sinceStart s.trace) := by
    cases c with
    | stopMeasure => exact hm.2
    | _ => cases hm
  have hdiff : ∀ cpu i, (s.state.nsTimeAtFv cpu i - s.state.nsTimeAtFvPrev cpu i).toNat =
      recorded (sinceStart s.trace) cpu i := by
    intro cpu i
    obtain ⟨heq, hlt⟩ := hw hm cpu i
    rw [h cpu i, BitVec.add_comm, BitVec.add_sub_cancel, heq, BitVec.toNat_ofNat,
      Nat.mod_eq_of_lt hlt]
  refine ⟨_, UsageLogs.stopMeasure_eq hdiff hpos, ?_⟩
  have hfloor : ⌊usage (sinceStart s.trace)⌋₊ ≤ 10000 :=
    Nat.floor_le_of_le (by exact_mod_cast usage_le)
  exact Nat.mod_eq_of_lt (lt_of_le_of_lt hfloor (by decide))

/-! ## 5. The two observers -/

/-- What `update_fv_grf` reads and has drawn. -/
def view (s : UsageTrace ncpu T) : TimeTable ncpu T × TimeTable ncpu T × Bool × List (List Byte) :=
  (s.state.nsTimeAtFv, s.state.nsTimeAtFvPrev, s.state.pipe, s.samples)

theorem view_startMeasure (s : UsageTrace ncpu T) (c : UsageCall ncpu T) (hc : c.isStart = true) :
    (step s c).map view = some (view s) := by
  cases c with
  | startMeasure => simp [step, Traced.step, UsageLogs.next, UsageLogs.event, view, samples,
      UsageLogs.startMeasure, UsageEvent.sampleOf]
  | _ => cases hc

theorem step_view {s t : UsageTrace ncpu T} (h : view s = view t) (c : UsageCall ncpu T) :
    (step s c).map view = (step t c).map view := by
  obtain ⟨⟨now, prev, measure, pipe⟩, es⟩ := s
  obtain ⟨⟨now', prev', measure', pipe'⟩, es'⟩ := t
  simp only [view, samples, Prod.mk.injEq] at h
  obtain ⟨rfl, rfl, rfl, hsamples⟩ := h
  cases c with
  | updateFvGrf val written =>
      cases pipe <;>
        simp [step, Traced.step, UsageLogs.next, UsageLogs.event, view, samples, hsamples,
          UsageLogs.updateFvGrf, UsageLogs.sample, UsageLogs.sampleValue]
  | _ => simp [step, Traced.step, UsageLogs.next, UsageLogs.event, view, samples, hsamples,
      UsageLogs.addTimeAtFv, UsageLogs.startMeasure]

end UsageTrace

open UsageTrace

/-- **Which measures are right**: a `start_measure` changes no sample, whatever the calls; and in
    every run, the measures whose window is that of the samples return the usage of exactly the time
    since the last `start_measure`. -/
theorem measures_right (measure : TimeTable ncpu T) (pipe : Bool) (calls : List (UsageCall ncpu T)) :
    (exec step (new measure pipe) calls).map samples =
        (exec step (new measure pipe) (calls.filter fun c => !c.isStart)).map samples ∧
      (Steps step SameWindow (new measure pipe) calls →
        Steps step MeasureRight (new measure pipe) calls) := by
  refine ⟨?_, fun h => ?_⟩
  · have hviews := exec_filter_view view (fun c : UsageCall ncpu T => !c.isStart)
      (fun s t c hst _ => step_view hst c)
      (fun s c hc => view_startMeasure s c (by simpa using hc))
      (rfl : view (new measure pipe) = _) calls
    have hsamples := congrArg (Option.map fun v => v.2.2.2) hviews
    rwa [Option.map_map, Option.map_map] at hsamples
  · exact steps_of_steps (I := UsageInv) (P := SameWindow)
      (fun _ _ _ hi hp _ => measureRight_of_sameWindow hi hp)
      (fun _ _ _ hi _ hs => usageInv_step hi hs) (usageInv_new measure pipe) h

/-- The calls around a measure of 100 ns at the last level and 100 ns of idling. -/
def halfUsed : List (UsageCall 1 armCpuFvPercents) :=
  [.startMeasure, .updateFvGrf (fun _ => 0) true, .addTimeAtFv ⟨0, by decide⟩ ⟨6, by decide⟩ 100#64,
    .addTimeAtFv ⟨0, by decide⟩ ⟨7, by decide⟩ 100#64, .stopMeasure]

/-- A measure of one half. -/
theorem halfUsed_right : Steps step MeasureRight (new (fun _ _ => 0) true) halfUsed :=
  (measures_right (fun _ _ => 0) true halfUsed).2 (by decide)

/-- 100 ns at the last level before the measure, and 100 ns of idling in it, without samples. -/
def idleMeasured : List (UsageCall 1 armCpuFvPercents) :=
  [.addTimeAtFv ⟨0, by decide⟩ ⟨6, by decide⟩ 100#64, .startMeasure,
    .addTimeAtFv ⟨0, by decide⟩ ⟨7, by decide⟩ 100#64]

theorem exec_idleMeasured : ∃ s, exec step (new (fun _ _ => 0) false) idleMeasured = some s ∧
    Measures s .stopMeasure ∧ s.state.stopMeasure = some 5000 ∧
      ⌊usage (sinceStart s.trace)⌋₊ = 0 :=
  ⟨_, rfl, by decide, by decide +kernel, by decide +kernel⟩

/-- The measure of an idle CPU is one half. -/
theorem idle_measured_half :
    ¬ Steps step MeasureRight (new (fun _ _ => 0) false) (idleMeasured ++ [.stopMeasure]) := by
  intro h
  obtain ⟨s, hs, hm, hstop, husage⟩ := exec_idleMeasured
  obtain ⟨val, hval, heq⟩ := h.last hs (rfl : step s .stopMeasure = some _) hm
  rw [hstop] at hval
  cases hval
  rw [husage] at heq
  exact absurd heq (by decide)

end Rabbits
