/-
  File:      Rabbits/Energy/MeanPower.lean
  Subject:   The mean power between two accesses of a guest (etrace_if.cpp: scope_trigger,
             start_measure, stop_measure).

  The sampler adds each sample to an accumulator while a measure is on; `stop_measure` divides by
  the number of samples that it finds there, and leaves it there.

  * `EtraceMeasure` -- the fields; `scopeTrigger`, `startMeasure`, `stopMeasure`;
  * `lastMeasure` -- what happened since the last `start_measure`; `counted`, `late` -- its samples
    up to the first `stop_measure`, and behind it;
  * `MeasureInv` -- the accumulator and the counter hold the counted samples;
  * `means_right` -- **which calls of `stop_measure` return the mean**.

  A division by zero ends the program: it has no result. `etrace` is a global object, so the counter
  that the constructor leaves out starts at zero.
-/
import Rabbits.Energy.Display
import Rabbits.Lib.Labelled

namespace Rabbits

open Lib

/-! ## 1. The model -/

/-- What `scope_trigger` keeps, and the fields of a measure. -/
structure EtraceMeasure where
  trigger : TriggerState
  measureStarted : Bool
  measureAccum : BitVec 64
  measureNbsamp : BitVec 32

inductive MeasureCall where
  | startMeasure
  | stopMeasure
  | scopeTrigger (energy : Nat → BitVec 64)

namespace EtraceMeasure

def new (trigger : TriggerState) : EtraceMeasure := ⟨trigger, false, 0, 0⟩

/-- `if (m_measure_started)` in `scope_trigger`. -/
def addSample (s : EtraceMeasure) (sum : BitVec 64) : EtraceMeasure :=
  if s.measureStarted then
    { s with measureAccum := s.measureAccum + sum, measureNbsamp := s.measureNbsamp + 1 }
  else s

/-- A round of `scope_trigger`. -/
def scopeTrigger (scope : ScopePeriphs) (s : EtraceMeasure) (energy : Nat → BitVec 64) :
    Option EtraceMeasure := do
  let (sum, _) ← sampleLoop energy scope.headPeriphs 0#64 s.trigger.vals
  let (_, trigger) ← scopeSample scope s.trigger energy
  return { s with trigger := trigger }.addSample sum

def startMeasure (s : EtraceMeasure) : EtraceMeasure :=
  { s with measureStarted := true, measureAccum := 0, measureNbsamp := 0 }

/-- The value that `stop_measure` returns. -/
def stopMeasure (s : EtraceMeasure) : Option ULong :=
  if s.measureNbsamp.setWidth 64 = 0 then none
  else some ((s.measureAccum / SAMPLE_PERIOD / s.measureNbsamp.setWidth 64).setWidth 32)

/-- The state after a call. The program that divides by zero is kept running: each such call is
    looked at by itself. -/
def next (scope : ScopePeriphs) (s : EtraceMeasure) : MeasureCall → Option EtraceMeasure
  | .startMeasure => some s.startMeasure
  | .stopMeasure => some { s with measureStarted := false }
  | .scopeTrigger energy => scopeTrigger scope s energy

end EtraceMeasure

/-- The energy of a sample. -/
def sampleEnergy (scope : ScopePeriphs) (energy : Nat → BitVec 64) : Nat :=
  (scope.headPeriphs.map fun p => (energy p.idx).toNat).sum

/-- What has happened. -/
inductive MeasureEvent where
  | started
  | stopped
  | sampled (energy : Nat)

/-- What a call does. -/
def measureEvent (scope : ScopePeriphs) (_ : EtraceMeasure) : MeasureCall → List MeasureEvent
  | .startMeasure => [.started]
  | .stopMeasure => [.stopped]
  | .scopeTrigger energy => [.sampled (sampleEnergy scope energy)]

abbrev MeasureTrace := Traced EtraceMeasure MeasureEvent

def MeasureTrace.step (scope : ScopePeriphs) : MeasureTrace → MeasureCall → Option MeasureTrace :=
  Traced.step (EtraceMeasure.next scope) (measureEvent scope)

def MeasureTrace.new (trigger : TriggerState) : MeasureTrace := ⟨.new trigger, []⟩

/-! ## 2. What is asked of a measure -/

/-- One more event of a measure. -/
def addEvent (m : Option (List MeasureEvent)) : MeasureEvent → Option (List MeasureEvent)
  | .started => some []
  | e => m.map (· ++ [e])

/-- The events since the last `start_measure`, if there was one. -/
def lastMeasure (es : List MeasureEvent) : Option (List MeasureEvent) := es.foldl addEvent none

/-- The samples among some events. -/
def samplesOf : List MeasureEvent → List Nat
  | [] => []
  | .sampled energy :: m => energy :: samplesOf m
  | _ :: m => samplesOf m

/-- The samples up to the first `stop_measure`. -/
def counted : List MeasureEvent → List Nat
  | [] => []
  | .stopped :: _ => []
  | .sampled energy :: m => energy :: counted m
  | .started :: m => counted m

/-- The samples behind it. -/
def late : List MeasureEvent → List Nat
  | [] => []
  | .stopped :: m => samplesOf m
  | _ :: m => late m

/-- The integer mean of the energy per nanosecond. -/
def meanPower (samples : List Nat) : Nat :=
  samples.sum / (SAMPLE_PERIOD.toNat * samples.length)

/-- `stop_measure` returns, and what it returns is the mean over all samples since the last
    `start_measure`. -/
def MeanRight (s : MeasureTrace) : MeasureCall → Prop
  | .stopMeasure =>
      ∃ val, s.state.stopMeasure = some val ∧
        ∀ m ∈ lastMeasure s.trace, val.toNat = meanPower (samplesOf m)
  | _ => True

/-- Samples that fit the accumulator, the counter and the result. -/
def SamplesFit (samples : List Nat) : Prop :=
  samples.length < 2 ^ 32 ∧ samples.sum < 2 ^ 64 ∧ meanPower samples < 2 ^ 32

/-- The last measure has a sample, and none behind its first `stop_measure`. -/
def Sampled (s : MeasureTrace) : MeasureCall → Prop
  | .stopMeasure =>
      ∃ m ∈ lastMeasure s.trace, counted m ≠ [] ∧ late m = [] ∧ SamplesFit (counted m)
  | _ => True

instance (s : MeasureTrace) (c : MeasureCall) : Decidable (Sampled s c) := by
  cases c <;> unfold Sampled SamplesFit <;> infer_instance

/-! ## 3. The samples of a measure -/

theorem lastMeasure_append_singleton (es : List MeasureEvent) (e : MeasureEvent) :
    lastMeasure (es ++ [e]) = addEvent (lastMeasure es) e := by
  rw [lastMeasure, List.foldl_append]
  rfl

theorem samplesOf_eq (m : List MeasureEvent) : samplesOf m = counted m ++ late m := by
  induction m with
  | nil => rfl
  | cons e m ih =>
      cases e with
      | started => exact ih
      | stopped => rfl
      | sampled energy => exact congrArg (energy :: ·) ih

/-- Nothing has stopped the measure. -/
def running : List MeasureEvent → Bool
  | [] => true
  | .stopped :: _ => false
  | _ :: m => running m

theorem running_append_stopped (m : List MeasureEvent) : running (m ++ [.stopped]) = false := by
  induction m with
  | nil => rfl
  | cons e m ih =>
      cases e with
      | stopped => rfl
      | _ => exact ih

theorem running_append_sampled (m : List MeasureEvent) (energy : Nat) :
    running (m ++ [.sampled energy]) = running m := by
  induction m with
  | nil => rfl
  | cons e m ih =>
      cases e with
      | stopped => rfl
      | _ => exact ih

theorem counted_append_stopped (m : List MeasureEvent) : counted (m ++ [.stopped]) = counted m := by
  induction m with
  | nil => rfl
  | cons e m ih =>
      cases e with
      | stopped => rfl
      | started => exact ih
      | sampled energy => exact congrArg (energy :: ·) ih

theorem counted_append_sampled (m : List MeasureEvent) (energy : Nat) :
    counted (m ++ [.sampled energy]) = counted m ++ if running m then [energy] else [] := by
  induction m with
  | nil => rfl
  | cons e m ih =>
      cases e with
      | stopped => rfl
      | started => exact ih
      | sampled e => exact congrArg (e :: ·) ih

/-- The sum of the loop over the peripherals. -/
theorem sampleLoop_sum {energy : Nat → BitVec 64} {periphs : List PeriphNode} {sum sum' : BitVec 64}
    {vals vals' : Nat → Byte} (h : sampleLoop energy periphs sum vals = some (sum', vals')) :
    sum' = sum + BitVec.ofNat 64 ((periphs.map fun p => (energy p.idx).toNat).sum) := by
  induction periphs generalizing sum vals with
  | nil =>
      cases h
      exact (BitVec.add_zero _).symm
  | cons p periphs ih =>
      obtain ⟨val, -, hrest⟩ := Option.bind_eq_some_iff.mp h
      rw [ih hrest, List.map_cons, List.sum_cons, BitVec.ofNat_add, BitVec.ofNat_toNat,
        BitVec.setWidth_eq, BitVec.add_assoc]

/-! ## 4. The fields and the last measure -/

namespace MeasureTrace

/-- The accumulator and the counter hold the counted samples of the last measure. -/
structure Holds (s : EtraceMeasure) (m : List MeasureEvent) : Prop where
  started : s.measureStarted = running m
  accum : s.measureAccum = BitVec.ofNat 64 (counted m).sum
  nbsamp : s.measureNbsamp = BitVec.ofNat 32 (counted m).length

/-- Before the first measure, the sampler adds nothing. -/
def MeasureInv (s : MeasureTrace) : Prop :=
  (lastMeasure s.trace = none → s.state.measureStarted = false) ∧
    ∀ m ∈ lastMeasure s.trace, Holds s.state m

theorem measureInv_new (trigger : TriggerState) : MeasureInv (new trigger) :=
  ⟨fun _ => rfl, fun _ hm => by cases hm⟩

/-- A round of the sampler adds its energy to the fields. -/
theorem scopeTrigger_eq_some {scope : ScopePeriphs} {s s' : EtraceMeasure} {energy : Nat → BitVec 64}
    (h : EtraceMeasure.scopeTrigger scope s energy = some s') :
    ∃ trigger, s' = { s with trigger := trigger }.addSample
      (BitVec.ofNat 64 (sampleEnergy scope energy)) := by
  obtain ⟨⟨sum, vals⟩, hloop, h⟩ := Option.bind_eq_some_iff.mp h
  obtain ⟨⟨bytes, trigger⟩, -, h⟩ := Option.bind_eq_some_iff.mp h
  cases h
  have hsum : sum = BitVec.ofNat 64 (sampleEnergy scope energy) :=
    (sampleLoop_sum hloop).trans (BitVec.zero_add _)
  exact ⟨trigger, by rw [hsum]⟩

theorem Holds.addSample {s : EtraceMeasure} {m : List MeasureEvent} (h : Holds s m) (energy : Nat)
    (trigger : TriggerState) :
    Holds ({ s with trigger := trigger }.addSample (BitVec.ofNat 64 energy))
      (m ++ [.sampled energy]) := by
  obtain ⟨hstarted, haccum, hnbsamp⟩ := h
  unfold EtraceMeasure.addSample
  cases hr : running m with
  | false =>
      rw [hr] at hstarted
      refine ⟨?_, ?_, ?_⟩ <;>
        simp [hstarted, haccum, hnbsamp, running_append_sampled, counted_append_sampled, hr]
  | true =>
      rw [hr] at hstarted
      refine ⟨?_, ?_, ?_⟩ <;>
        simp [hstarted, haccum, hnbsamp, running_append_sampled, counted_append_sampled, hr,
          BitVec.ofNat_add]

theorem measureInv_step {scope : ScopePeriphs} {s s' : MeasureTrace} {c : MeasureCall}
    (h : MeasureInv s) (hs : step scope s c = some s') : MeasureInv s' := by
  obtain ⟨t, hnext, rfl⟩ := Option.map_eq_some_iff.mp hs
  obtain ⟨hnone, hsome⟩ := h
  cases c with
  | startMeasure =>
      cases hnext
      refine ⟨fun hlast => ?_, fun m hm => ?_⟩
      · rw [measureEvent, lastMeasure_append_singleton] at hlast
        cases hlast
      · rw [measureEvent, lastMeasure_append_singleton] at hm
        cases hm
        exact ⟨rfl, rfl, rfl⟩
  | stopMeasure =>
      cases hnext
      refine ⟨fun _ => rfl, fun m hm => ?_⟩
      rw [measureEvent, lastMeasure_append_singleton] at hm
      obtain ⟨m, hlast, rfl⟩ := Option.map_eq_some_iff.mp hm
      obtain ⟨-, haccum, hnbsamp⟩ := hsome m hlast
      refine ⟨(running_append_stopped m).symm, ?_, ?_⟩
      · rw [counted_append_stopped]
        exact haccum
      · rw [counted_append_stopped]
        exact hnbsamp
  | scopeTrigger energy =>
      obtain ⟨trigger, rfl⟩ := scopeTrigger_eq_some hnext
      refine ⟨fun hlast => ?_, fun m hm => ?_⟩
      · rw [measureEvent, lastMeasure_append_singleton] at hlast
        have hoff := hnone (Option.map_eq_none_iff.mp hlast)
        simp [EtraceMeasure.addSample, hoff]
      · rw [measureEvent, lastMeasure_append_singleton] at hm
        obtain ⟨m, hlast, rfl⟩ := Option.map_eq_some_iff.mp hm
        exact (hsome m hlast).addSample _ trigger

/-- A measure with samples that fit. -/
theorem meanRight_of_sampled {s : MeasureTrace} {c : MeasureCall} (h : MeasureInv s)
    (hc : Sampled s c) : MeanRight s c := by
  cases c with
  | stopMeasure =>
      obtain ⟨m, hm, hne, hlate, hlen, hsum, hmean⟩ := hc
      obtain ⟨-, haccum, hnbsamp⟩ := h.2 m hm
      have hpos : 0 < (counted m).length := List.length_pos_iff.mpr hne
      have hn : (s.state.measureNbsamp.setWidth 64).toNat = (counted m).length := by
        rw [hnbsamp, BitVec.toNat_setWidth, BitVec.toNat_ofNat]
        omega
      have hdivisor : s.state.measureNbsamp.setWidth 64 ≠ 0 := by
        intro h0
        rw [h0] at hn
        exact hpos.ne hn
      have ha : s.state.measureAccum.toNat = (counted m).sum := by
        rw [haccum, BitVec.toNat_ofNat, Nat.mod_eq_of_lt hsum]
      have hval : (s.state.measureAccum / SAMPLE_PERIOD / s.state.measureNbsamp.setWidth 64).toNat =
          meanPower (counted m) := by
        rw [BitVec.toNat_udiv, BitVec.toNat_udiv, hn, ha, Nat.div_div_eq_div_mul]
        rfl
      refine ⟨_, if_neg hdivisor, fun m' hm' => ?_⟩
      cases hm.symm.trans hm'
      rw [samplesOf_eq, hlate, List.append_nil, BitVec.toNat_setWidth, hval, Nat.mod_eq_of_lt hmean]
  | _ => trivial

/-- **Which calls return the mean**: in every run of samples and accesses in which each
    `stop_measure` finds a sample in its measure, and none behind an earlier `stop_measure`. -/
theorem means_right (scope : ScopePeriphs) (trigger : TriggerState) (calls : List MeasureCall)
    (h : Steps (step scope) Sampled (new trigger) calls) :
    Steps (step scope) MeanRight (new trigger) calls :=
  steps_of_steps (I := MeasureInv) (P := Sampled) (fun _ _ _ hi hp _ => meanRight_of_sampled hi hp)
    (fun _ _ _ hi _ hs => measureInv_step hi hs) (measureInv_new trigger) h

/-- One peripheral, and the sampler before its first round. -/
def onePeriph : ScopePeriphs :=
  (ScopePeriphs.new.addPeriph ⟨.ofString "CPU", 400#32, -1, .ofString "CPUs"⟩).2

def firstRound : TriggerState := ⟨fun _ => 0, ⟨false, 0, List.replicate MAX_HISTORY 0⟩⟩

/-- 3 and 5 milliwatts. -/
theorem mean_of_two : Steps (step onePeriph) MeanRight (new firstRound)
    [.startMeasure, .scopeTrigger fun _ => 60000000#64, .scopeTrigger fun _ => 100000000#64,
      .stopMeasure] :=
  means_right _ _ _ (by decide)

/-- A measure that is stopped before its first sample divides by zero. -/
theorem stop_divides_by_zero : ¬ Steps (step onePeriph) MeanRight (new firstRound)
    [.startMeasure, .stopMeasure] := by
  intro h
  obtain ⟨val, hval, -⟩ := @Steps.last _ _ _ _ _ _ _ [MeasureCall.startMeasure] _ h rfl rfl
  cases hval

end MeasureTrace

end Rabbits
