/-
  File:      Rabbits/Timer/TimerDevice.lean
  Subject:   The timer that counts down a divisor (timer_device.cpp: write, timer_thread).

  One event wakes the thread for a new divisor and for an acknowledgement. A divisor also sets a flag,
  which the thread tests when it counts, not when it waits for an acknowledgement; it takes a wake
  without the flag for the end of the period.

  * `TimerThread`, `TimerRun.next` -- where the thread is; a step;
  * `NotMissed`, `RisesRight` -- **the properties**: the interrupt rises when the period since the
    timer was armed ends, and at no other time;
  * `rises_right` -- **runs in which both hold**: acknowledgements are of interrupts, and divisors are
    written when the thread counts and is about to go on.
-/
import Rabbits.Lib.Labelled
import Rabbits.Noc.MasterDevice

namespace Rabbits

open Lib

/-! ## 1. The device -/

/-- `timer_device`; `ns_period` is the divisor, in ns. -/
structure TimerDevice where
  divisor : ULong
  divisorChanged : Bool
  bOneShot : Bool
  irq : Bool

/-- Where the thread is: in its first wait, for a divisor or up to a time, or woken from it; in its
    second wait, with the interrupt raised, or woken from that. -/
inductive TimerThread where
  | idle
  | counting (t : Nat)
  | woken
  | raised
  | lowering
  deriving DecidableEq

namespace TimerThread

/-- The thread can run. -/
def Ready : TimerThread → Prop
  | .idle | .counting _ | .raised => False
  | .woken | .lowering => True

instance : ∀ thread : TimerThread, Decidable thread.Ready
  | .idle | .counting _ | .raised => .isFalse id
  | .woken | .lowering => .isTrue trivial

/-- `ev_wake` occurs. -/
def trigger : TimerThread → TimerThread
  | .idle | .counting _ | .woken => .woken
  | .raised | .lowering => .lowering

/-- Its timeout. -/
def timeout (now : Nat) : TimerThread → TimerThread
  | .counting t => if t = now then .woken else .counting t
  | .idle => .idle
  | .woken => .woken
  | .raised => .raised
  | .lowering => .lowering

end TimerThread

/-- The timer, the time in ps, the thread, whether `ev_wake` is notified for the next delta cycle; and
    when the timer was last armed, while its interrupt is to come: `next` keeps that from what it sees. -/
structure TimerRun where
  timer : TimerDevice
  now : Nat
  thread : TimerThread
  notified : Bool
  armed : Option Nat

inductive TimerEvent where
  | write (ofs : ULong) (data : Fin 8 → Byte)
  | thread
  | deliver
  | advance (t : Nat)

namespace TimerRun

def new : TimerRun := ⟨⟨0#32, false, false, false⟩, 0, .idle, false, none⟩

/-- `wait (ns_period, SC_NS, ev_wake)`, in ps: a double holds the product. -/
def periodPs (s : TimerRun) : Nat := 1000 * s.timer.divisor.toNat

/-- Armed now, by a divisor. -/
def arm (s : TimerRun) : Option Nat := if s.timer.divisor = 0#32 then none else some s.now

def writeDivisor (s : TimerRun) (val : ULong) : TimerRun :=
  let s := { s with timer := { s.timer with divisor := val, divisorChanged := true } }
  -- ev_wake.notify (SC_ZERO_TIME)
  { s with notified := true }

/-- An acknowledgement; the notification at once cancels the other one. -/
def acknowledge (s : TimerRun) : TimerRun :=
  { s with thread := s.thread.trigger, notified := false }

/-- `val1`. -/
def val1Of (data : Fin 8 → Byte) : ULong :=
  data ⟨3, by decide⟩ ++ data ⟨2, by decide⟩ ++ data ⟨1, by decide⟩ ++ data ⟨0, by decide⟩

/-- `write`, which leaves `bErr` as false where it returns. -/
def write (s : TimerRun) (ofs : ULong) (data : Fin 8 → Byte) : Option TimerRun :=
  let val1 := val1Of data
  match ofs.toNat with
  | 0x00 => some (if val1 ≠ 0xFFFFFFFF#32 then s.writeDivisor val1 else s.acknowledge)
  | 0x08 => some { s with timer := { s.timer with bOneShot := decide (val1 ≠ 0#32) } }
  -- "Bad %s::%s ofs=0x%X, be=0x%X, data=0x%X-%X!\n"
  | _ => none

/-- The first wait. -/
def count (s : TimerRun) : TimerRun :=
  { s with thread := if s.timer.divisor = 0#32 then .idle else .counting (s.now + s.periodPs) }

/-- `timer_thread` behind its first wait. -/
def wake (s : TimerRun) : TimerRun :=
  if s.timer.divisorChanged then
    count { s with timer := { s.timer with divisorChanged := false, irq := false } }
  else
    { s with
      timer := { s.timer with
        divisor := if s.timer.bOneShot then 0#32 else s.timer.divisor
        irq := true }
      thread := .raised }

/-- `timer_thread` behind its second wait. -/
def lower (s : TimerRun) : TimerRun := count { s with timer := { s.timer with irq := false } }

/-- Time goes by up to `t` while the thread waits, no further than its timeout. -/
def Waits (s : TimerRun) (t : Nat) : Prop :=
  ¬ s.thread.Ready ∧ s.notified = false ∧ ∀ t', s.thread = .counting t' → t ≤ t'

instance (s : TimerRun) (t : Nat) : Decidable (s.Waits t) :=
  match h : s.thread with
  | .counting t' =>
      decidable_of_iff (s.notified = false ∧ t ≤ t') (by simp [Waits, h, TimerThread.Ready])
  | .idle | .raised => decidable_of_iff (s.notified = false) (by simp [Waits, h, TimerThread.Ready])
  | .woken | .lowering => .isFalse (by simp [Waits, h, TimerThread.Ready])

/-- When the timer is armed, behind a write: by a divisor, and by the acknowledgement of an interrupt
    where there is a divisor. -/
def armedBy (s : TimerRun) (ofs : ULong) (data : Fin 8 → Byte) : Option Nat :=
  if ofs.toNat ≠ 0 then s.armed
  else if val1Of data ≠ 0xFFFFFFFF#32 then if val1Of data = 0#32 then none else some s.now
  else if s.timer.irq ∧ s.timer.divisor ≠ 0#32 then s.arm
  else s.armed

def next (s : TimerRun) : TimerEvent → Option TimerRun
  | .write ofs data => (s.write ofs data).map fun s' => { s' with armed := s.armedBy ofs data }
  | .thread =>
      match s.thread with
      -- the interrupt that was to come is here
      | .woken => some { s.wake with armed := if s.wake.timer.irq then none else s.armed }
      | .lowering => some s.lower
      | .idle | .counting _ | .raised => none
  | .deliver =>
      if s.notified = true ∧ ¬ s.thread.Ready then
        some { s with thread := s.thread.trigger, notified := false }
      else none
  | .advance t =>
      if s.now < t ∧ s.Waits t then some { s with now := t, thread := s.thread.timeout t } else none

/-! ## 2. The properties -/

/-- The interrupt of an armed timer has not been missed. -/
def NotMissed (s : TimerRun) : Prop := ∀ t, s.armed = some t → s.now ≤ t + s.periodPs

/-- The interrupt rises one period behind the time at which the timer was armed. -/
def RisesRight (s : TimerRun) (e : TimerEvent) : Prop :=
  ∀ s', s.next e = some s' → s.timer.irq = false → s'.timer.irq = true →
    ∃ t, s.armed = some t ∧ s.now = t + s.periodPs

/-- A divisor can be written while the thread counts, or is about to. -/
def DivisorGood (val : ULong) : TimerThread → Prop
  | .idle | .counting _ | .lowering => True
  | .raised => val = 0#32
  | .woken => False

/-- An acknowledgement can come while the interrupt is raised, or with a new divisor. -/
def AckGood (s : TimerRun) : TimerThread → Prop
  | .idle | .counting _ => s.timer.divisorChanged = true
  | .woken | .raised => True
  | .lowering => s.notified = true → s.timer.divisor = 0#32

def Careful (s : TimerRun) : TimerEvent → Prop
  | .write ofs data => ofs.toNat = 0 →
      let val1 := val1Of data
      if val1 ≠ 0xFFFFFFFF#32 then DivisorGood val1 s.thread else s.AckGood s.thread
  | .thread => True
  | .deliver => True
  | .advance _ => True

instance : ∀ (val : ULong) (thread : TimerThread), Decidable (DivisorGood val thread)
  | _, .idle | _, .counting _ | _, .lowering => .isTrue trivial
  | val, .raised => inferInstanceAs (Decidable (val = 0#32))
  | _, .woken => .isFalse id

instance (s : TimerRun) : ∀ thread : TimerThread, Decidable (s.AckGood thread)
  | .idle | .counting _ => inferInstanceAs (Decidable (s.timer.divisorChanged = true))
  | .woken | .raised => .isTrue trivial
  | .lowering => inferInstanceAs (Decidable (s.notified = true → s.timer.divisor = 0#32))

instance (s : TimerRun) : ∀ e : TimerEvent, Decidable (s.Careful e)
  | .write ofs data => by
      unfold Careful
      infer_instance
  | .thread | .deliver | .advance _ => .isTrue trivial

/-! ## 3. Where the thread is -/

variable {s s' : TimerRun}

/-- The period since the timer was armed ends at `t`. -/
def EndsAt (s : TimerRun) (t : Nat) : Prop :=
  s.timer.divisor ≠ 0#32 ∧ ∃ t₀, s.armed = some t₀ ∧ t = t₀ + s.periodPs

/-- What is known at each place: a new divisor is notified or seen, and the time of the thread is that
    of the period. -/
def PlaceOk (s : TimerRun) : TimerThread → Prop
  | .idle => s.timer.irq = false ∧ s.armed = s.arm ∧
      (s.notified = true → s.timer.divisorChanged = true) ∧
      (s.notified = false → s.timer.divisor = 0#32)
  | .counting t => s.timer.irq = false ∧
      (s.timer.divisorChanged = true ∧ s.notified = true ∧ s.armed = s.arm ∨
        s.timer.divisorChanged = false ∧ s.notified = false ∧ s.EndsAt t ∧ s.now ≤ t)
  | .woken => s.timer.irq = false ∧ s.notified = false ∧
      (s.timer.divisorChanged = true ∧ s.armed = s.arm ∨
        s.timer.divisorChanged = false ∧ s.EndsAt s.now)
  | .raised => s.timer.irq = true ∧ s.armed = none ∧
      (s.notified = true → s.timer.divisorChanged = true) ∧
      (s.timer.divisorChanged = true → s.notified = true ∧ s.timer.divisor = 0#32)
  | .lowering => s.timer.irq = true ∧ s.armed = s.arm ∧
      (s.notified = true → s.timer.divisorChanged = true) ∧
      (s.timer.divisorChanged = true → s.notified = true ∨ s.timer.divisor = 0#32)

theorem arm_of_zero (h : s.timer.divisor = 0#32) : s.arm = none := if_pos h

theorem arm_of_ne (h : s.timer.divisor ≠ 0#32) : s.arm = some s.now := if_neg h

/-- Behind the first wait, with the interrupt low. -/
theorem placeOk_count (hirq : s.timer.irq = false) (harmed : s.armed = s.arm)
    (hnot : s.notified = true → s.timer.divisorChanged = true)
    (hchanged : s.timer.divisorChanged = true → s.notified = true ∨ s.timer.divisor = 0#32) :
    s.count.PlaceOk s.count.thread := by
  by_cases hdiv : s.timer.divisor = 0#32
  · have hthread : s.count.thread = .idle := if_pos hdiv
    rw [hthread]
    exact ⟨hirq, harmed, hnot, fun _ => hdiv⟩
  · have hthread : s.count.thread = .counting (s.now + s.periodPs) := if_neg hdiv
    rw [hthread]
    refine ⟨hirq, ?_⟩
    cases hc : s.timer.divisorChanged with
    | true => exact .inl ⟨hc, (hchanged hc).resolve_right hdiv, harmed⟩
    | false =>
        have hnone : s.notified = false := by
          refine Bool.eq_false_iff.mpr fun htrue => ?_
          rw [hnot htrue] at hc
          cases hc
        exact .inr ⟨hc, hnone, ⟨hdiv, s.now, harmed.trans (arm_of_ne hdiv), rfl⟩, Nat.le_add_right _ _⟩

/-! ## 4. The steps -/

/-- Behind a divisor, with when it arms. -/
def withDivisor (s : TimerRun) (val : ULong) : TimerRun :=
  { s.writeDivisor val with armed := (s.writeDivisor val).arm }

/-- Behind an acknowledgement, with when it arms. -/
def acknowledged (s : TimerRun) : TimerRun :=
  { s.acknowledge with armed := if s.timer.irq ∧ s.timer.divisor ≠ 0#32 then s.arm else s.armed }

/-- Behind the first wait, with the interrupt that was to come. -/
def awake (s : TimerRun) : TimerRun :=
  { s.wake with armed := if s.wake.timer.irq then none else s.armed }

theorem write_cases {ofs : ULong} {data : Fin 8 → Byte} (h : s.next (.write ofs data) = some s') :
    (ofs.toNat = 0 ∧ val1Of data ≠ 0xFFFFFFFF#32 ∧ s' = s.withDivisor (val1Of data)) ∨
      (ofs.toNat = 0 ∧ val1Of data = 0xFFFFFFFF#32 ∧ s' = s.acknowledged) ∨
      ∃ one, s' = { s with timer := { s.timer with bOneShot := one } } := by
  obtain ⟨t, ht, rfl⟩ := Option.map_eq_some_iff.mp h
  rw [write] at ht
  split at ht
  · rename_i hofs
    rw [armedBy, if_neg (not_not_intro hofs)]
    by_cases hval : val1Of data = 0xFFFFFFFF#32
    · rw [if_neg (not_not_intro hval)] at ht ⊢
      cases ht
      exact .inr (.inl ⟨hofs, hval, rfl⟩)
    · rw [if_pos hval] at ht ⊢
      cases ht
      exact .inl ⟨hofs, hval, rfl⟩
  · rename_i hofs
    rw [armedBy, if_pos (by rw [hofs]; decide)]
    cases ht
    exact .inr (.inr ⟨_, rfl⟩)
  · cases ht

theorem thread_cases (h : s.next .thread = some s') :
    (s.thread = .woken ∧ s' = s.awake) ∨ (s.thread = .lowering ∧ s' = s.lower) := by
  rw [next] at h
  split at h
  · exact .inl ⟨‹_›, (Option.some.inj h).symm⟩
  · exact .inr ⟨‹_›, (Option.some.inj h).symm⟩
  all_goals cases h

theorem deliver_cases (h : s.next .deliver = some s') :
    s.notified = true ∧ ¬ s.thread.Ready ∧
      s' = { s with thread := s.thread.trigger, notified := false } := by
  rw [next] at h
  split at h
  · rename_i hyp
    exact ⟨hyp.1, hyp.2, (Option.some.inj h).symm⟩
  · cases h

theorem advance_cases {t : Nat} (h : s.next (.advance t) = some s') :
    s.Waits t ∧ s' = { s with now := t, thread := s.thread.timeout t } := by
  rw [next] at h
  split at h
  · rename_i hyp
    exact ⟨hyp.2, (Option.some.inj h).symm⟩
  · cases h

/-- Behind the first wait: the divisor is seen, or the interrupt raised. -/
theorem awake_of_changed (h : s.timer.divisorChanged = true) :
    s.awake = count { s with timer := { s.timer with divisorChanged := false, irq := false } } := by
  rw [awake, wake, if_pos h]
  rfl

theorem awake_of_not_changed (h : s.timer.divisorChanged = false) :
    s.awake.timer.irq = true ∧ s.awake.thread = .raised ∧ s.awake.armed = none ∧
      s.awake.notified = s.notified ∧ s.awake.timer.divisorChanged = false := by
  rw [awake, wake, if_neg (Bool.eq_false_iff.mp h)]
  exact ⟨rfl, rfl, rfl, rfl, h⟩

theorem placeOk_awake (h : s.PlaceOk .woken) : s.awake.PlaceOk s.awake.thread := by
  obtain ⟨hirq, hnot, ⟨hc, harmed⟩ | ⟨hc, -⟩⟩ := h
  · rw [awake_of_changed hc]
    refine placeOk_count rfl harmed (fun htrue => ?_) fun htrue => ?_
    · cases hnot.symm.trans htrue
    · cases htrue
  · obtain ⟨hirq', hthread, harmed, hnot', hc'⟩ := awake_of_not_changed hc
    rw [hthread]
    refine ⟨hirq', harmed, fun htrue => ?_, fun htrue => ?_⟩
    · cases (hnot'.trans hnot).symm.trans htrue
    · cases hc'.symm.trans htrue

theorem placeOk_lower (h : s.PlaceOk .lowering) : s.lower.PlaceOk s.lower.thread :=
  placeOk_count rfl h.2.1 h.2.2.1 h.2.2.2

theorem placeOk_deliver (h : s.PlaceOk s.thread) (hready : ¬ s.thread.Ready)
    (hnot : s.notified = true) :
    PlaceOk { s with thread := s.thread.trigger, notified := false } s.thread.trigger := by
  cases hthread : s.thread with
  | idle =>
      rw [hthread] at h
      exact ⟨h.1, rfl, .inl ⟨h.2.2.1 hnot, h.2.1⟩⟩
  | counting t =>
      rw [hthread] at h
      obtain ⟨hirq, ⟨hc, -, harmed⟩ | ⟨-, hnone, -⟩⟩ := h
      · exact ⟨hirq, rfl, .inl ⟨hc, harmed⟩⟩
      · cases hnone.symm.trans hnot
  | raised =>
      rw [hthread] at h
      obtain ⟨hirq, harmed, hchanged, hzero⟩ := h
      have hdiv := (hzero (hchanged hnot)).2
      refine ⟨hirq, harmed.trans (arm_of_zero hdiv).symm, fun htrue => ?_, fun _ => .inr hdiv⟩
      cases htrue
  | woken | lowering =>
      rw [hthread] at hready
      exact absurd trivial hready

theorem placeOk_advance (h : s.PlaceOk s.thread) {t : Nat} (hw : s.Waits t) :
    PlaceOk { s with now := t, thread := s.thread.timeout t } (s.thread.timeout t) := by
  obtain ⟨hready, hnot, hcount⟩ := hw
  cases hthread : s.thread with
  | idle =>
      rw [hthread] at h
      have hdiv := h.2.2.2 hnot
      have harmed : s.armed = none := h.2.1.trans (arm_of_zero hdiv)
      exact ⟨h.1, harmed.trans (arm_of_zero (s := { s with now := t }) hdiv).symm, h.2.2⟩
  | counting t' =>
      rw [hthread] at h
      obtain ⟨hirq, ⟨-, htrue, -⟩ | ⟨hc, -, hends, -⟩⟩ := h
      · cases hnot.symm.trans htrue
      · rw [TimerThread.timeout]
        split
        · rename_i heq
          exact ⟨hirq, hnot, .inr ⟨hc, heq ▸ hends⟩⟩
        · exact ⟨hirq, .inr ⟨hc, hnot, hends, hcount t' hthread⟩⟩
  | raised =>
      rw [hthread] at h
      exact h
  | woken | lowering =>
      rw [hthread] at hready
      exact absurd trivial hready

theorem placeOk_withDivisor (h : s.PlaceOk s.thread) {val : ULong}
    (hgood : DivisorGood val s.thread) : (s.withDivisor val).PlaceOk s.thread := by
  cases hthread : s.thread with
  | idle =>
      rw [hthread] at h
      exact ⟨h.1, rfl, fun _ => rfl, (fun hfalse => by cases hfalse)⟩
  | counting t =>
      rw [hthread] at h
      exact ⟨h.1, .inl ⟨rfl, rfl, rfl⟩⟩
  | woken =>
      rw [hthread] at hgood
      exact hgood.elim
  | raised =>
      rw [hthread] at h hgood
      exact ⟨h.1, arm_of_zero (s := s.writeDivisor val) hgood, fun _ => rfl, fun _ => ⟨rfl, hgood⟩⟩
  | lowering =>
      rw [hthread] at h
      exact ⟨h.1, rfl, fun _ => rfl, fun _ => .inl rfl⟩

theorem acknowledged_armed_low (hirq : s.timer.irq = false) : s.acknowledged.armed = s.armed :=
  if_neg fun hyp => Bool.eq_false_iff.mp hirq hyp.1

theorem acknowledged_armed_high (hirq : s.timer.irq = true)
    (harmed : s.armed = none ∨ s.armed = s.arm) : s.acknowledged.armed = s.arm := by
  by_cases hdiv : s.timer.divisor = 0#32
  · rw [acknowledged]
    rw [if_neg fun hyp => hyp.2 hdiv]
    rcases harmed with hnone | harm
    · exact hnone.trans (arm_of_zero hdiv).symm
    · exact harm
  · exact if_pos ⟨hirq, hdiv⟩

theorem placeOk_acknowledged (h : s.PlaceOk s.thread) (hgood : s.AckGood s.thread) :
    s.acknowledged.PlaceOk s.thread.trigger := by
  have hfalse : ∀ {P : Prop}, s.acknowledged.notified = true → P := by
    intro P htrue
    cases htrue
  cases hthread : s.thread with
  | idle =>
      rw [hthread] at h hgood
      exact ⟨h.1, rfl, .inl ⟨hgood, (acknowledged_armed_low h.1).trans h.2.1⟩⟩
  | counting t =>
      rw [hthread] at h hgood
      obtain ⟨hirq, ⟨-, -, harmed⟩ | ⟨hc, -⟩⟩ := h
      · exact ⟨hirq, rfl, .inl ⟨hgood, (acknowledged_armed_low hirq).trans harmed⟩⟩
      · cases hc.symm.trans hgood
  | woken =>
      rw [hthread] at h
      obtain ⟨hirq, -, ⟨hc, harmed⟩ | ⟨hc, hdiv, t₀, harmed, hnow⟩⟩ := h
      · exact ⟨hirq, rfl, .inl ⟨hc, (acknowledged_armed_low hirq).trans harmed⟩⟩
      · exact ⟨hirq, rfl, .inr ⟨hc, hdiv, t₀, (acknowledged_armed_low hirq).trans harmed, hnow⟩⟩
  | raised =>
      rw [hthread] at h
      obtain ⟨hirq, harmed, -, hzero⟩ := h
      exact ⟨hirq, acknowledged_armed_high hirq (.inl harmed), hfalse, fun hc => .inr (hzero hc).2⟩
  | lowering =>
      rw [hthread] at h hgood
      obtain ⟨hirq, harmed, -, hzero⟩ := h
      refine ⟨hirq, acknowledged_armed_high hirq (.inr harmed), hfalse, fun hc => .inr ?_⟩
      exact (hzero hc).elim hgood id

/-! ## 5. Runs -/

/-- **Every step keeps the thread where it should be.** -/
theorem placeOk_next (h : s.PlaceOk s.thread) {e : TimerEvent} (hcareful : s.Careful e)
    (hnext : s.next e = some s') : s'.PlaceOk s'.thread := by
  cases e with
  | write ofs data =>
      rcases write_cases hnext with ⟨hofs, hval, rfl⟩ | ⟨hofs, hval, rfl⟩ | ⟨one, rfl⟩
      · have hgood := hcareful hofs
        simp only [if_pos hval] at hgood
        exact placeOk_withDivisor h hgood
      · have hgood := hcareful hofs
        simp only [if_neg (not_not_intro hval)] at hgood
        exact placeOk_acknowledged h hgood
      · show PlaceOk _ s.thread
        cases hthread : s.thread <;> rw [hthread] at h <;> exact h
  | thread =>
      rcases thread_cases hnext with ⟨hthread, rfl⟩ | ⟨hthread, rfl⟩
      · exact placeOk_awake (hthread ▸ h)
      · exact placeOk_lower (hthread ▸ h)
  | deliver =>
      obtain ⟨hnot, hready, rfl⟩ := deliver_cases hnext
      exact placeOk_deliver h hready hnot
  | advance t =>
      obtain ⟨hw, rfl⟩ := advance_cases hnext
      exact placeOk_advance h hw

theorem EndsAt.le {t t₀ : Nat} (h : s.EndsAt t) (ht : s.now ≤ t) (harmed : s.armed = some t₀) :
    s.now ≤ t₀ + s.periodPs := by
  obtain ⟨-, t₁, harmed', heq⟩ := h
  cases harmed.symm.trans harmed'
  exact heq ▸ ht

/-- A timer that is armed now. -/
theorem le_of_arm {t₀ : Nat} (harm : s.armed = s.arm) (harmed : s.armed = some t₀) :
    s.now ≤ t₀ + s.periodPs := by
  by_cases hdiv : s.timer.divisor = 0#32
  · cases harmed.symm.trans (harm.trans (arm_of_zero hdiv))
  · cases harmed.symm.trans (harm.trans (arm_of_ne hdiv))
    exact Nat.le_add_right _ _

theorem notMissed_of_placeOk (h : s.PlaceOk s.thread) : s.NotMissed := by
  intro t₀ harmed
  cases hthread : s.thread with
  | idle =>
      rw [hthread] at h
      exact le_of_arm h.2.1 harmed
  | counting t =>
      rw [hthread] at h
      obtain ⟨-, ⟨-, -, harm⟩ | ⟨-, -, hends, hle⟩⟩ := h
      · exact le_of_arm harm harmed
      · exact hends.le hle harmed
  | woken =>
      rw [hthread] at h
      obtain ⟨-, -, ⟨-, harm⟩ | ⟨-, hends⟩⟩ := h
      · exact le_of_arm harm harmed
      · exact hends.le (Nat.le_refl _) harmed
  | raised =>
      rw [hthread] at h
      cases harmed.symm.trans h.2.1
  | lowering =>
      rw [hthread] at h
      exact le_of_arm h.2.1 harmed

/-- The interrupt rises where the first wait is left at the end of the period, only. -/
theorem risesRight_of_placeOk (h : s.PlaceOk s.thread) (e : TimerEvent) : s.RisesRight e := by
  intro s' hnext hlow hhigh
  cases e with
  | thread =>
      rcases thread_cases hnext with ⟨hthread, rfl⟩ | ⟨-, rfl⟩
      · rw [hthread] at h
        obtain ⟨-, -, ⟨hc, -⟩ | ⟨-, -, hends⟩⟩ := h
        · rw [awake_of_changed hc] at hhigh
          cases hhigh
        · exact hends
      · cases hhigh
  | write ofs data =>
      rcases write_cases hnext with ⟨-, -, rfl⟩ | ⟨-, -, rfl⟩ | ⟨one, rfl⟩
      all_goals cases hlow.symm.trans hhigh
  | deliver =>
      obtain ⟨-, -, rfl⟩ := deliver_cases hnext
      cases hlow.symm.trans hhigh
  | advance t =>
      obtain ⟨-, rfl⟩ := advance_cases hnext
      cases hlow.symm.trans hhigh

theorem placeOk_new : new.PlaceOk new.thread :=
  ⟨rfl, rfl, (fun htrue => by cases htrue), fun _ => rfl⟩

/-- **Careful runs raise the interrupt when they should.** -/
theorem rises_right {events : List TimerEvent} (h : Steps TimerRun.next Careful new events) :
    Steps TimerRun.next RisesRight new events ∧ Along TimerRun.next NotMissed new events :=
  ⟨steps_of_steps (I := fun s => s.PlaceOk s.thread)
      (fun _ e _ hplace _ _ => risesRight_of_placeOk hplace e)
      (fun _ _ _ hplace hcareful hnext => placeOk_next hplace hcareful hnext) placeOk_new h,
    along_of_steps (I := fun s => s.PlaceOk s.thread) (fun _ hplace => notMissed_of_placeOk hplace)
      (fun _ _ _ hplace hcareful hnext => placeOk_next hplace hcareful hnext) placeOk_new h⟩

/-- A period of 5 ns, and its interrupt acknowledged behind it. -/
def onePeriod : List TimerEvent :=
  [.write 0x0 (wordData 5), .deliver, .thread, .advance 5000, .thread,
   .write 0x0 (wordData 0xFFFFFFFF), .thread, .advance 10000, .thread]

theorem rises_right_onePeriod :
    Steps TimerRun.next RisesRight new onePeriod ∧ Along TimerRun.next NotMissed new onePeriod :=
  rises_right (by decide)

/-- Acknowledged at 1 ns, with no interrupt raised. -/
def acknowledgedEarly : List TimerEvent :=
  [.write 0x0 (wordData 5), .deliver, .thread, .advance 1000, .write 0x0 (wordData 0xFFFFFFFF)]

/-- A period of 5 ns, and a second one for the interrupt of the first. -/
def rewritten : List TimerEvent :=
  [.write 0x0 (wordData 5), .deliver, .thread, .advance 5000, .thread, .write 0x0 (wordData 5),
   .deliver, .thread, .advance 10000, .thread, .advance 15000]

/-- The interrupt rises at 1 ns; and that of the second period is missed. -/
theorem rises_fail :
    ¬ Steps TimerRun.next RisesRight new (acknowledgedEarly ++ [.thread]) ∧
      ¬ Along TimerRun.next NotMissed new rewritten := by
  constructor
  · intro hrises
    have hrun : ((exec TimerRun.next new acknowledgedEarly).any fun s =>
        (s.armed == some 0 && s.now == 1000 && s.timer.divisor == 5#32 && !s.timer.irq) &&
          ((s.next .thread).any fun s' => s'.timer.irq)) = true := by decide
    obtain ⟨s, hexec, hs⟩ := (Option.any_eq_true _ _).mp hrun
    obtain ⟨hbefore, hafter⟩ := Bool.and_eq_true_iff.mp hs
    obtain ⟨s', hnext, hhigh⟩ := (Option.any_eq_true _ _).mp hafter
    simp only [Bool.and_eq_true, beq_iff_eq, Bool.not_eq_true'] at hbefore
    obtain ⟨⟨⟨harmed, hnow⟩, hdiv⟩, hlow⟩ := hbefore
    obtain ⟨t, ht, hends⟩ := hrises.last hexec hnext s' hnext hlow hhigh
    cases harmed.symm.trans ht
    rw [hnow, periodPs, hdiv] at hends
    exact absurd hends (by decide)
  · intro hmissed
    have hrun : ((exec TimerRun.next new rewritten).any fun s =>
        s.armed == some 5000 && s.now == 15000 && s.timer.divisor == 5#32) = true := by decide
    obtain ⟨s, hexec, hs⟩ := (Option.any_eq_true _ _).mp hrun
    simp only [Bool.and_eq_true, beq_iff_eq] at hs
    obtain ⟨⟨harmed, hnow⟩, hdiv⟩ := hs
    have hle := hmissed.last hexec 5000 harmed
    rw [hnow, periodPs, hdiv] at hle
    exact absurd hle (by decide)

end TimerRun

end Rabbits
