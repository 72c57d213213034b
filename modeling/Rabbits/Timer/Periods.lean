/-
  File:      Rabbits/Timer/Periods.lean
  Subject:   The interrupts of the simple timer over time (sl_timer_device.cpp: write,
             sl_timer_thread).

  The thread waits until the next period ends, or for a write. A start makes it wait again, but
  leaves the end of the period where it was, relative to another time.

  * `ScDelay` -- how long the kernel waits; `SlTimerRun.next` -- a write, a turn of the thread, its
    timeout, or time that goes by;
  * `RaisedRight`, `RaisesRight` -- **the properties**: a running timer has raised its interrupt at the
    ends of its periods and at no other time, and raises it at no other time;
  * `interrupts_right` -- **runs in which both hold**: a start finds a whole period to go, and no
    period ends while the timer is stopped with interrupts enabled.
-/
import Mathlib.Data.BitVec
import Rabbits.Lib.Labelled
import Rabbits.Lib.Schedule
import Rabbits.Noc.MasterDevice
import Rabbits.Timer.SlTimer

namespace Rabbits

open Lib

/-! ## 1. The thread -/

/-- `wait (double, SC_PS, event)`, in picoseconds: a double holds every number below 2^53. -/
structure ScDelay where
  delay : Nat → Nat
  exact : ∀ v < 2 ^ 53, delay v = v

/-- What the thread waits for; it is ready when it has been woken. -/
inductive TimerWait where
  | event
  | timed (t : Nat)
  | ready
  deriving DecidableEq

namespace SlTimer

def Running (d : SlTimer) : Prop := d.mode &&& TIMER_RUNNING ≠ 0#32

def IrqEnabled (d : SlTimer) : Prop := d.mode &&& TIMER_IRQ_ENABLED ≠ 0#32

instance (d : SlTimer) : Decidable d.Running := by
  unfold Running
  infer_instance

instance (d : SlTimer) : Decidable d.IrqEnabled := by
  unfold IrqEnabled
  infer_instance

/-- `sl_timer_thread` behind its wait: the timer, and whether it raises the interrupt. -/
def wake (d : SlTimer) (now : BitVec 64) : SlTimer × Bool :=
  if d.configMod then ({ d with irq := false, configMod := false }, false)
  else
    -- end of period
    ({ d with
        irq := if d.IrqEnabled then true else d.irq
        nextPeriod := d.elapsed now + d.periodPs }, decide d.IrqEnabled)

/-- What the thread waits for next. -/
def waitFor (k : ScDelay) (d : SlTimer) (now : Nat) : TimerWait :=
  if d.period = 0#32 then .event
  else .timed (now + k.delay (d.nextPeriod - d.elapsed (BitVec.ofNat 64 now)).toNat)

/-- The write starts the timer. -/
def Starts (d : SlTimer) (value : ULong) : Prop := ¬ d.Running ∧ value &&& TIMER_RUNNING ≠ 0#32

instance (d : SlTimer) (value : ULong) : Decidable (d.Starts value) := by
  unfold Starts
  infer_instance

end SlTimer

/-- The timer, the time and its thread; and of the past the last start or write to `TIMER_PERIOD`,
    the last write that changed the mode or the period, and the times at which `m_irq` was raised. -/
structure SlTimerRun where
  timer : SlTimer
  now : Nat
  wait : TimerWait
  base : Nat
  since : Nat
  raised : List Nat

inductive SlTimerEvent where
  | write (ofs : ULong) (be : Byte) (data : Fin 8 → Byte)
  | thread
  | timeout
  | advance (t : Nat)

namespace SlTimerRun

/-- The first wait of the thread, at the time 0. -/
def new : SlTimerRun := ⟨.new, 0, .event, 0, 0, []⟩

/-- `sc_time_stamp ().value ()`. -/
def stamp (s : SlTimerRun) : BitVec 64 := BitVec.ofNat 64 s.now

/-- The write is a start or a write to `TIMER_PERIOD`. -/
def Rebases (s : SlTimerRun) (ofs : ULong) (be : Byte) (data : Fin 8 → Byte) : Prop :=
  (lofsOf ofs be).toNat = 2 ∨ (lofsOf ofs be).toNat = 1 ∧ s.timer.Starts (valueOf be data)

instance (s : SlTimerRun) (ofs : ULong) (be : Byte) (data : Fin 8 → Byte) :
    Decidable (s.Rebases ofs be data) := by
  unfold Rebases
  infer_instance

def write (s : SlTimerRun) (ofs : ULong) (be : Byte) (data : Fin 8 → Byte) : Option SlTimerRun :=
  (s.timer.write s.stamp ofs be data).map fun r =>
    { s with
      timer := r.1
      wait := if r.2 then .ready else s.wait
      base := if s.Rebases ofs be data then s.now else s.base
      since := if s.Rebases ofs be data ∨ r.1.mode ≠ s.timer.mode then s.now else s.since }

/-- A turn of the thread, up to its next wait. -/
def thread (k : ScDelay) (s : SlTimerRun) : SlTimerRun :=
  let r := s.timer.wake s.stamp
  { s with
    timer := r.1
    wait := r.1.waitFor k s.now
    raised := if r.2 then s.raised ++ [s.now] else s.raised }

/-- Time goes by while the thread waits, no further than its timeout. -/
def Waits : TimerWait → Nat → Prop
  | .event, _ => True
  | .timed t', t => t ≤ t'
  | .ready, _ => False

instance : ∀ (w : TimerWait) (t : Nat), Decidable (Waits w t)
  | .event, _ => .isTrue trivial
  | .timed t', t => inferInstanceAs (Decidable (t ≤ t'))
  | .ready, _ => .isFalse id

def next (k : ScDelay) (s : SlTimerRun) : SlTimerEvent → Option SlTimerRun
  | .write ofs be data => s.write ofs be data
  | .thread => if s.wait = .ready then some (s.thread k) else none
  | .timeout => if s.wait = .timed s.now then some { s with wait := .ready } else none
  | .advance t =>
      if s.now < t ∧ t < 2 ^ 64 ∧ Waits s.wait t then some { s with now := t } else none

/-! ## 2. The properties -/

/-- The picoseconds of a period. -/
def period (s : SlTimerRun) : Nat := tickPs * s.timer.period.toNat

/-- While the timer runs with interrupts enabled, these were raised whenever a period ended, and at
    no other time. -/
def RaisedRight (s : SlTimerRun) : Prop :=
  s.timer.Running → s.timer.IrqEnabled → s.timer.period ≠ 0#32 →
    ∀ u, s.since < u → u < s.now → (u ∈ s.raised ↔ Due s.base s.period u)

/-- An interrupt is raised when a period of a running timer ends. -/
def RaisesRight (k : ScDelay) (s : SlTimerRun) (e : SlTimerEvent) : Prop :=
  ∀ s', s.next k e = some s' → s'.raised ≠ s.raised →
    s.timer.Running ∧ s.timer.IrqEnabled ∧ s.timer.period ≠ 0#32 ∧ Due s.base s.period s.now

/-- A start finds no period, or a whole one to go; and no period ends while the timer is stopped
    with interrupts enabled. -/
def Careful (s : SlTimerRun) : SlTimerEvent → Prop
  | .write ofs be data => (lofsOf ofs be).toNat = 1 → s.timer.Starts (valueOf be data) →
      s.timer.period = 0#32 ∨ s.timer.nextPeriod = s.timer.periodPs
  | .thread => s.timer.configMod = false → s.timer.IrqEnabled → s.timer.Running
  | .timeout => True
  | .advance _ => True

instance : ∀ (s : SlTimerRun) (e : SlTimerEvent), Decidable (s.Careful e)
  | s, .write ofs be data => inferInstanceAs (Decidable ((lofsOf ofs be).toNat = 1 →
      s.timer.Starts (valueOf be data) →
      s.timer.period = 0#32 ∨ s.timer.nextPeriod = s.timer.periodPs))
  | s, .thread => inferInstanceAs (Decidable (s.timer.configMod = false → s.timer.IrqEnabled →
      s.timer.Running))
  | _, .timeout => .isTrue trivial
  | _, .advance _ => .isTrue trivial

/-! ## 3. The plan -/

variable {k : ScDelay} {s s' : SlTimerRun} {d : Nat}

/-- The thread waits for the end of a period, and the earlier ends have raised interrupts. -/
structure Planned (s : SlTimerRun) (d : Nat) : Prop where
  due : NextDue s.base s.period s.now d
  reg : s.timer.nextPeriod = BitVec.ofNat 64 d - s.timer.lastPeriod
  wait : s.timer.configMod = false → s.wait = .timed d ∨ s.wait = .ready ∧ s.now = d
  raised : s.timer.Running → s.timer.IrqEnabled →
    ∀ u, s.since < u → (u ∈ s.raised ↔ Due s.base s.period u ∧ u < d)

/-- A write is seen by the thread, which waits for one without a period, and by plan with one. -/
structure TimerInv (s : SlTimerRun) : Prop where
  now_lt : s.now < 2 ^ 64
  since_le : s.since ≤ s.now
  raised_le : ∀ u ∈ s.raised, u ≤ s.now
  config : s.timer.configMod = true → s.wait = .ready
  idle : s.timer.period = 0#32 → s.timer.configMod = false → s.wait = .event
  planned : s.timer.period ≠ 0#32 → ∃ d, s.Planned d

theorem period_lt (s : SlTimerRun) : s.period < 2 ^ 53 := by
  have hlt := s.timer.period.isLt
  have htick : tickPs = 10000 := by decide
  rw [period, htick]
  omega

theorem period_pos (h : s.timer.period ≠ 0#32) : 0 < s.period := by
  refine Nat.mul_pos (by decide) (Nat.pos_of_ne_zero fun h0 => h ?_)
  exact BitVec.eq_of_toNat_eq h0

theorem periodPs_eq (s : SlTimerRun) : s.timer.periodPs = BitVec.ofNat 64 s.period := by
  rw [SlTimer.periodPs, period, BitVec.ofNat_mul]
  congr 1
  refine BitVec.eq_of_toNat_eq ?_
  rw [BitVec.toNat_setWidth, BitVec.toNat_ofNat]

/-- One more period behind now. -/
theorem elapsed_add (s : SlTimerRun) : s.timer.elapsed s.stamp + s.timer.periodPs =
    BitVec.ofNat 64 (s.now + s.period) - s.timer.lastPeriod := by
  rw [periodPs_eq, SlTimer.elapsed, stamp, BitVec.ofNat_add, sub_add_eq_add_sub]

/-- **The thread waits for the end of the period.** -/
theorem waitFor_eq {timer : SlTimer} {base per now : Nat} (hnow : now < 2 ^ 64)
    (hper : per < 2 ^ 53) (hperiod : timer.period ≠ 0#32) (hdue : NextDue base per now d)
    (hreg : timer.nextPeriod = BitVec.ofNat 64 d - timer.lastPeriod) :
    timer.waitFor k now = .timed d := by
  have hle := hdue.le
  have hnear := hdue.near
  have hrest : timer.nextPeriod - timer.elapsed (BitVec.ofNat 64 now) = BitVec.ofNat 64 (d - now) := by
    rw [hreg, SlTimer.elapsed, sub_sub_sub_cancel_right, BitVec.ofNat_sub_ofNat_of_le _ _ hnow hle]
  have hsmall : d - now < 2 ^ 53 := by omega
  have hmod : (d - now) % 2 ^ 64 = d - now := Nat.mod_eq_of_lt (Nat.lt_trans hsmall (by decide))
  rw [SlTimer.waitFor, if_neg hperiod, hrest, BitVec.toNat_ofNat, hmod, k.exact _ hsmall]
  congr 1
  omega

/-- Nothing has been raised, and nothing was due, behind now. -/
theorem raised_behind {base per now : Nat} {raised : List Nat} (hraised : ∀ u ∈ raised, u ≤ now)
    (hdue : NextDue base per now d) {u : Nat} (hu : now < u) :
    u ∈ raised ↔ Due base per u ∧ u < d := by
  refine iff_of_false (fun hmem => ?_) fun hyp => ?_
  · exact absurd (hraised u hmem) (Nat.not_le.mpr hu)
  · exact absurd hyp.2 (Nat.not_lt.mpr (hdue.le_of_due hyp.1 hu))

/-! ## 4. The steps -/

theorem TimerInv.advance (h : TimerInv s) {t : Nat} (hlt : s.now < t) (ht : t < 2 ^ 64)
    (hwait : Waits s.wait t) : TimerInv { s with now := t } := by
  refine ⟨ht, Nat.le_trans h.since_le (Nat.le_of_lt hlt),
    fun u hu => Nat.le_trans (h.raised_le u hu) (Nat.le_of_lt hlt), h.config, h.idle, fun hper => ?_⟩
  obtain ⟨d, hd⟩ := h.planned hper
  have hready : s.wait ≠ .ready := by
    intro hready
    rw [hready] at hwait
    exact hwait
  have hconfig : s.timer.configMod = false :=
    Bool.eq_false_iff.mpr fun hconfig => hready (h.config hconfig)
  have htimed : s.wait = .timed d :=
    (hd.wait hconfig).resolve_right fun hyp => hready hyp.1
  have hle : t ≤ d := by
    rw [htimed] at hwait
    exact hwait
  exact ⟨d, hd.due.later (Nat.le_of_lt hlt) hle, hd.reg, fun _ => .inl htimed, hd.raised⟩

theorem TimerInv.timeout (h : TimerInv s) (hwait : s.wait = .timed s.now) :
    TimerInv { s with wait := .ready } := by
  refine ⟨h.now_lt, h.since_le, h.raised_le, fun _ => rfl, fun hper hfalse => ?_, fun hper => ?_⟩
  · rw [h.idle hper hfalse] at hwait
    cases hwait
  · obtain ⟨d, hd⟩ := h.planned hper
    refine ⟨d, hd.due, hd.reg, fun hfalse => .inr ⟨rfl, ?_⟩, hd.raised⟩
    rcases hd.wait hfalse with htimed | ⟨-, hnow⟩
    · rw [hwait] at htimed
      exact TimerWait.timed.inj htimed
    · exact hnow

/-- The thread that is ready without a write is at the end of a period. -/
theorem TimerInv.ended (h : TimerInv s) (hready : s.wait = .ready)
    (hconfig : s.timer.configMod = false) : s.timer.period ≠ 0#32 ∧ s.Planned s.now := by
  have hper : s.timer.period ≠ 0#32 := by
    intro hper
    rw [h.idle hper hconfig] at hready
    cases hready
  obtain ⟨d, hd⟩ := h.planned hper
  rcases hd.wait hconfig with htimed | ⟨-, hnow⟩
  · rw [hready] at htimed
    cases htimed
  · exact ⟨hper, hnow ▸ hd⟩

/-- A write has woken the thread. -/
theorem TimerInv.thread_config (h : TimerInv s) (hconfig : s.timer.configMod = true) :
    TimerInv (s.thread k) := by
  have hwake : s.timer.wake s.stamp = ({ s.timer with irq := false, configMod := false }, false) :=
    if_pos hconfig
  rw [thread, hwake]
  refine ⟨h.now_lt, h.since_le, h.raised_le, (fun htrue => by cases htrue), fun hper _ => if_pos hper,
    fun hper => ?_⟩
  obtain ⟨d, hd⟩ := h.planned hper
  exact ⟨d, hd.due, hd.reg,
    fun _ => .inl (waitFor_eq h.now_lt s.period_lt hper hd.due hd.reg), hd.raised⟩

/-- A period has ended. -/
theorem TimerInv.thread_ended (h : TimerInv s) (hready : s.wait = .ready)
    (hconfig : s.timer.configMod = false) : TimerInv (s.thread k) := by
  obtain ⟨hper, hd⟩ := h.ended hready hconfig
  have hwake : s.timer.wake s.stamp = ({ s.timer with
      irq := if s.timer.IrqEnabled then true else s.timer.irq
      nextPeriod := s.timer.elapsed s.stamp + s.timer.periodPs }, decide s.timer.IrqEnabled) :=
    if_neg (Bool.eq_false_iff.mp hconfig)
  rw [thread, hwake]
  refine ⟨h.now_lt, h.since_le, fun u hu => ?_, fun htrue => ?_, fun h0 _ => absurd h0 hper,
    fun _ => ⟨s.now + s.period, hd.due.ended, s.elapsed_add, fun _ => .inl ?_, ?_⟩⟩
  · show u ≤ s.now
    simp only [decide_eq_true_eq] at hu
    split at hu
    · rcases List.mem_append.mp hu with hu | hu
      · exact h.raised_le u hu
      · exact Nat.le_of_eq (List.mem_singleton.mp hu)
    · exact h.raised_le u hu
  · rw [hconfig] at htrue
    cases htrue
  · exact waitFor_eq h.now_lt s.period_lt hper hd.due.ended s.elapsed_add
  · intro hrun hen u hu
    have hraised : (if decide s.timer.IrqEnabled = true then s.raised ++ [s.now] else s.raised) =
        s.raised ++ [s.now] := if_pos (decide_eq_true hen)
    show u ∈ (if decide s.timer.IrqEnabled = true then s.raised ++ [s.now] else s.raised) ↔ _
    rw [hraised, List.mem_append, List.mem_singleton, hd.raised hrun hen u hu]
    exact (due_before_ended (period_pos hper) hd.due).symm

/-! ## 5. The writes -/

theorem TimerInv.resetIrq (h : TimerInv s) (irq : Bool) :
    TimerInv { s with timer := { s.timer with irq := irq } } := by
  refine ⟨h.now_lt, h.since_le, h.raised_le, h.config, h.idle, fun hper => ?_⟩
  obtain ⟨d, hd⟩ := h.planned hper
  exact ⟨d, hd.due, hd.reg, hd.wait, hd.raised⟩

/-- A new period begins, by plan. -/
theorem TimerInv.rebased (h : TimerInv s) {timer : SlTimer} (hconfig : timer.configMod = true)
    (hreg : timer.period ≠ 0#32 → timer.nextPeriod =
      BitVec.ofNat 64 (s.now + tickPs * timer.period.toNat) - timer.lastPeriod) :
    TimerInv { s with timer := timer, wait := .ready, base := s.now, since := s.now } := by
  refine ⟨h.now_lt, Nat.le_refl _, h.raised_le, fun _ => rfl, fun _ hfalse => ?_, fun hper => ?_⟩
  · rw [hconfig] at hfalse
    cases hfalse
  · refine ⟨s.now + tickPs * timer.period.toNat, NextDue.start _ _, hreg hper, fun hfalse => ?_,
      fun _ _ u hu => raised_behind h.raised_le (NextDue.start _ _) hu⟩
    rw [hconfig] at hfalse
    cases hfalse

theorem TimerInv.writePeriod (h : TimerInv s) (value : ULong) :
    TimerInv { s with
      timer := s.timer.writePeriod s.stamp value
      wait := .ready
      base := s.now
      since := s.now } :=
  h.rebased rfl fun _ => elapsed_add { s with timer := { s.timer with period := value } }

/-- The mode changes, and the plan stays. -/
theorem TimerInv.remode (h : TimerInv s) (mode : ULong) {configMod : Bool} {wait : TimerWait}
    (hwait : configMod = s.timer.configMod ∧ wait = s.wait ∨ configMod = true ∧ wait = .ready) :
    TimerInv { s with
      timer := { s.timer with mode := mode, configMod := configMod }
      wait := wait
      since := s.now } := by
  refine ⟨h.now_lt, Nat.le_refl _, h.raised_le, fun hconfig => ?_, fun hper hfalse => ?_,
    fun hper => ?_⟩
  · rcases hwait with ⟨hsame, hw⟩ | ⟨-, hw⟩
    · exact hw.trans (h.config (hsame.symm.trans hconfig))
    · exact hw
  · rcases hwait with ⟨hsame, hw⟩ | ⟨htrue, -⟩
    · exact hw.trans (h.idle hper (hsame.symm.trans hfalse))
    · cases htrue.symm.trans hfalse
  · obtain ⟨d, hd⟩ := h.planned hper
    refine ⟨d, hd.due, hd.reg, fun hfalse => ?_, fun _ _ u hu => raised_behind h.raised_le hd.due hu⟩
    rcases hwait with ⟨hsame, hw⟩ | ⟨htrue, -⟩
    · rw [hw]
      exact hd.wait (hsame.symm.trans hfalse)
    · cases htrue.symm.trans hfalse

/-- Bit 0 of the mode is that of the value. -/
theorem mode_running (value : ULong) :
    value &&& 0x3#32 &&& TIMER_RUNNING = value &&& TIMER_RUNNING := by
  rw [BitVec.and_assoc]
  rfl

theorem toggles_value (d : SlTimer) (value : ULong) :
    d.Toggles value ↔ ¬ (value &&& TIMER_RUNNING ≠ 0#32 ↔ d.Running) := toggles_iff _ _

theorem mode_ne_of_toggles {d : SlTimer} {value : ULong} (h : d.Toggles value) :
    value &&& 0x3#32 ≠ d.mode := by
  intro hsame
  refine (toggles_value _ _).mp h ?_
  rw [SlTimer.Running, ← hsame, mode_running]

/-- A write to the mode starts the timer, stops it, or does neither. -/
theorem writeMode_cases (d : SlTimer) (now : BitVec 64) (value : ULong) :
    (d.Toggles value ∧ d.Starts value ∧ d.writeMode now value =
        { d with lastPeriod := now, configMod := true, mode := value &&& 0x3#32 }) ∨
      (d.Toggles value ∧ ¬ d.Starts value ∧ d.writeMode now value =
        { d with configMod := true, mode := value &&& 0x3#32 }) ∨
      (¬ d.Toggles value ∧ ¬ d.Starts value ∧ d.writeMode now value =
        { d with mode := value &&& 0x3#32 }) := by
  by_cases htoggle : d.Toggles value
  · by_cases hstart : d.Starts value
    · refine .inl ⟨htoggle, hstart, ?_⟩
      rw [SlTimer.writeMode, if_pos htoggle, if_pos hstart.2]
    · have hval : ¬ value &&& TIMER_RUNNING ≠ 0#32 := by
        intro hval
        refine (toggles_value _ _).mp htoggle (iff_of_true hval ?_)
        exact not_not.mp fun hrun => hstart ⟨hrun, hval⟩
      refine .inr (.inl ⟨htoggle, hstart, ?_⟩)
      rw [SlTimer.writeMode, if_pos htoggle, if_neg hval]
  · have hstart : ¬ d.Starts value := by
      intro hstart
      have hsame := not_not.mp fun hne => htoggle ((toggles_value _ _).mpr hne)
      exact hstart.1 (hsame.mp hstart.2)
    exact .inr (.inr ⟨htoggle, hstart, if_neg htoggle⟩)

theorem TimerInv.writeMode (h : TimerInv s) {value : ULong}
    (hcareful : s.timer.Starts value →
      s.timer.period = 0#32 ∨ s.timer.nextPeriod = s.timer.periodPs) :
    TimerInv { s with
      timer := s.timer.writeMode s.stamp value
      wait := if s.timer.Toggles value then .ready else s.wait
      base := if s.timer.Starts value then s.now else s.base
      since := if s.timer.Starts value ∨ (s.timer.writeMode s.stamp value).mode ≠ s.timer.mode then
        s.now else s.since } := by
  rcases writeMode_cases s.timer s.stamp value with
    ⟨htoggle, hstart, hwrite⟩ | ⟨htoggle, hstart, hwrite⟩ | ⟨htoggle, hstart, hwrite⟩
  · rw [if_pos htoggle, if_pos hstart, if_pos (.inl hstart), hwrite]
    refine h.rebased rfl fun hper => ?_
    show s.timer.nextPeriod = BitVec.ofNat 64 (s.now + s.period) - s.stamp
    rw [(hcareful hstart).resolve_left hper, periodPs_eq, stamp, BitVec.ofNat_add,
      add_sub_cancel_left]
  · rw [if_pos htoggle, if_neg hstart, hwrite, if_pos (.inr (mode_ne_of_toggles htoggle))]
    exact h.remode _ (.inr ⟨rfl, rfl⟩)
  · rw [if_neg htoggle, if_neg hstart, hwrite]
    by_cases hmode : value &&& 0x3#32 = s.timer.mode
    · have hsame : ¬ (s.timer.Starts value ∨ value &&& 0x3#32 ≠ s.timer.mode) := by
        intro hyp
        exact hyp.elim hstart fun hne => hne hmode
      rw [if_neg hsame, hmode]
      exact h
    · rw [if_pos (.inr hmode)]
      exact h.remode _ (.inl ⟨rfl, rfl⟩)

theorem TimerInv.write (h : TimerInv s) {ofs : ULong} {be : Byte} {data : Fin 8 → Byte}
    (hcareful : s.Careful (.write ofs be data)) (hw : s.write ofs be data = some s') :
    TimerInv s' := by
  obtain ⟨⟨timer, wakes⟩, hr, rfl⟩ := Option.map_eq_some_iff.mp hw
  rw [SlTimer.write] at hr
  split at hr
  · rename_i hreg
    cases hr
    have hno : ¬ s.Rebases ofs be data := by simp [Rebases, hreg]
    simpa [hno] using h
  · rename_i hreg
    cases hr
    have hiff : s.Rebases ofs be data ↔ s.timer.Starts (valueOf be data) := by simp [Rebases, hreg]
    simpa only [hiff, decide_eq_true_eq] using h.writeMode (hcareful hreg)
  · rename_i hreg
    cases hr
    have hyes : s.Rebases ofs be data := .inl hreg
    simpa only [hyes, true_or, if_true] using h.writePeriod (valueOf be data)
  · rename_i hreg
    cases hr
    have hno : ¬ s.Rebases ofs be data := by simp [Rebases, hreg]
    simpa [hno] using h.resetIrq false
  · cases hr

/-! ## 6. Runs -/

theorem timerInv_new : TimerInv new :=
  ⟨by decide, Nat.le_refl _, fun _ hu => absurd hu List.not_mem_nil, (fun htrue => by cases htrue),
    fun _ _ => rfl, fun hper => absurd rfl hper⟩

theorem thread_cases (h : s.next k .thread = some s') : s.wait = .ready ∧ s' = s.thread k := by
  rw [SlTimerRun.next] at h
  split at h
  · exact ⟨‹_›, (Option.some.inj h).symm⟩
  · cases h

theorem timeout_cases (h : s.next k .timeout = some s') :
    s.wait = .timed s.now ∧ s' = { s with wait := .ready } := by
  rw [SlTimerRun.next] at h
  split at h
  · exact ⟨‹_›, (Option.some.inj h).symm⟩
  · cases h

theorem advance_cases {t : Nat} (h : s.next k (.advance t) = some s') :
    (s.now < t ∧ t < 2 ^ 64 ∧ Waits s.wait t) ∧ s' = { s with now := t } := by
  rw [SlTimerRun.next] at h
  split at h
  · exact ⟨‹_›, (Option.some.inj h).symm⟩
  · cases h

theorem TimerInv.next_kept (h : TimerInv s) {e : SlTimerEvent} (hcareful : s.Careful e)
    (hnext : s.next k e = some s') : TimerInv s' := by
  cases e with
  | write ofs be data => exact h.write hcareful hnext
  | thread =>
      obtain ⟨hready, rfl⟩ := thread_cases hnext
      cases hconfig : s.timer.configMod with
      | true => exact h.thread_config hconfig
      | false => exact h.thread_ended hready hconfig
  | timeout =>
      obtain ⟨hwait, rfl⟩ := timeout_cases hnext
      exact h.timeout hwait
  | advance t =>
      obtain ⟨⟨hlt, ht, hwait⟩, rfl⟩ := advance_cases hnext
      exact h.advance hlt ht hwait

theorem TimerInv.raisedRight (h : TimerInv s) : s.RaisedRight := by
  intro hrun hen hper u hsince hnow
  obtain ⟨d, hd⟩ := h.planned hper
  rw [hd.raised hrun hen u hsince]
  exact and_iff_left (Nat.lt_of_lt_of_le hnow hd.due.le)

theorem TimerInv.raisesRight (h : TimerInv s) {e : SlTimerEvent} (hcareful : s.Careful e) :
    s.RaisesRight k e := by
  intro s' hnext hraised
  cases e with
  | thread =>
      obtain ⟨hready, rfl⟩ := thread_cases hnext
      cases hconfig : s.timer.configMod with
      | true =>
          refine absurd ?_ hraised
          rw [thread, SlTimer.wake, if_pos hconfig]
          rfl
      | false =>
          obtain ⟨hper, hd⟩ := h.ended hready hconfig
          by_cases hen : s.timer.IrqEnabled
          · exact ⟨hcareful hconfig hen, hen, hper, hd.due.due⟩
          · refine absurd ?_ hraised
            rw [thread, SlTimer.wake, if_neg (Bool.eq_false_iff.mp hconfig)]
            exact if_neg fun htrue => hen (of_decide_eq_true htrue)
  | write ofs be data =>
      obtain ⟨r, -, rfl⟩ := Option.map_eq_some_iff.mp hnext
      exact absurd rfl hraised
  | timeout =>
      obtain ⟨-, rfl⟩ := timeout_cases hnext
      exact absurd rfl hraised
  | advance t =>
      obtain ⟨-, rfl⟩ := advance_cases hnext
      exact absurd rfl hraised

/-- **Careful runs raise the interrupts when they should.** -/
theorem interrupts_right (k : ScDelay) {events : List SlTimerEvent}
    (h : Steps (SlTimerRun.next k) Careful new events) :
    Steps (SlTimerRun.next k) (RaisesRight k) new events ∧
      Along (SlTimerRun.next k) RaisedRight new events :=
  ⟨steps_of_steps (fun _ _ _ hinv hcareful _ => hinv.raisesRight hcareful)
      (fun _ _ _ hinv hcareful hnext => hinv.next_kept hcareful hnext) timerInv_new h,
    along_of_steps (fun _ hinv => hinv.raisedRight)
      (fun _ _ _ hinv hcareful hnext => hinv.next_kept hcareful hnext) timerInv_new h⟩

/-- A kernel that waits exactly. -/
def exactDelay : ScDelay := ⟨id, fun _ _ => rfl⟩

/-- Started, then given a period of one tick. -/
def startedFirst : List SlTimerEvent :=
  [.write 0x0 0xF0 (wordData 3), .thread, .write 0x8 0x0F (wordData 1), .thread, .advance 10000,
   .timeout, .thread, .advance 15000]

theorem interrupts_right_startedFirst :
    Steps (SlTimerRun.next exactDelay) (RaisesRight exactDelay) new startedFirst ∧
      Along (SlTimerRun.next exactDelay) RaisedRight new startedFirst :=
  interrupts_right exactDelay (by decide)

/-- Given the period first, 5 ns before it is started. -/
def startedLast : List SlTimerEvent :=
  [.advance 5000, .write 0x8 0x0F (wordData 1), .thread, .write 0x0 0xF0 (wordData 3), .thread,
   .advance 20000]

/-- Not started, with interrupts enabled. -/
def notStarted : List SlTimerEvent :=
  [.write 0x0 0xF0 (wordData 2), .write 0x8 0x0F (wordData 1), .thread, .advance 10000, .timeout]

/-- The first one raises no interrupt at 15 ns; the second one raises one. -/
theorem interrupts_fail :
    ¬ Along (SlTimerRun.next exactDelay) RaisedRight new startedLast ∧
      ¬ Steps (SlTimerRun.next exactDelay) (RaisesRight exactDelay) new (notStarted ++ [.thread]) := by
  constructor
  · intro hright
    have hrun : ((exec (SlTimerRun.next exactDelay) new startedLast).any fun s =>
        (s.timer.mode == 3#32 && s.timer.period == 1#32 && s.since == 5000 && s.now == 20000) &&
          s.base == 5000 && s.raised.isEmpty) = true := by decide
    obtain ⟨s, hexec, hs⟩ := (Option.any_eq_true _ _).mp hrun
    simp only [Bool.and_eq_true, beq_iff_eq, List.isEmpty_iff] at hs
    obtain ⟨⟨⟨⟨⟨hmode, hper⟩, hsince⟩, hnow⟩, hbase⟩, hraised⟩ := hs
    have hdue := hright.last hexec
    simp only [RaisedRight, SlTimer.Running, SlTimer.IrqEnabled, period, hmode, hper, hsince, hnow,
      hbase, hraised] at hdue
    have hmem := (hdue (by decide) (by decide) (by decide) 15000 (by decide) (by decide)).mpr
      ⟨1, by decide, by decide⟩
    cases hmem
  · intro hraises
    have hrun : ((exec (SlTimerRun.next exactDelay) new notStarted).any fun s =>
        (s.timer.mode == 2#32 && s.raised.isEmpty) &&
          ((s.next exactDelay .thread).any fun s' => !s'.raised.isEmpty)) = true := by decide
    obtain ⟨s, hexec, hs⟩ := (Option.any_eq_true _ _).mp hrun
    obtain ⟨hbefore, hafter⟩ := Bool.and_eq_true_iff.mp hs
    obtain ⟨s', hnext, hs'⟩ := (Option.any_eq_true _ _).mp hafter
    simp only [Bool.and_eq_true, beq_iff_eq, List.isEmpty_iff] at hbefore
    have hne : s'.raised ≠ s.raised := by
      intro hsame
      rw [hsame, hbefore.2] at hs'
      cases hs'
    have hrunning := (hraises.last hexec hnext s' hnext hne).1
    rw [SlTimer.Running, hbefore.1] at hrunning
    exact hrunning rfl

end SlTimerRun

end Rabbits
