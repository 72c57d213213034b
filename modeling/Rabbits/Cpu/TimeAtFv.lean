/-
  File:      Rabbits/Cpu/TimeAtFv.lean
  Subject:   The time that a CPU spends at each frequency level (qemu_cpu_wrapper.cpp: cpu_thread,
             consume_instruction_cycles_with_sync, the accesses of QEMU, cpu_logs.cpp:
             add_time_at_fv).

  The thread of the CPU takes the simulated time, in picoseconds, before and after each of its
  waits, and adds the difference to the time of the level. The table is in nanoseconds.

  * `CpuTime.next` -- the waits of the thread, with time passing and levels changing in between;
  * `CpuTime.Accounted` -- the table holds the time of the intervals, less than one nanosecond each
    apart;
  * `TimeInv` -- the same in the middle of an interval, for the time up to its begin;
  * `accounted_iff` -- **the latencies of the accesses for which the times are right**: an access
    adds its picoseconds, cut to 32 bits, where nanoseconds belong.

  The cycles of `consume_instruction_cycles_with_sync` are counted in doubles. Here a wait of its
  loop may last any time, and the loop may go round again or not.
-/
import Mathlib.Algebra.BigOperators.Fin
import Mathlib.Algebra.Order.BigOperators.Group.Finset
import Rabbits.Cpu.EnergyMode
import Rabbits.Energy.Etrace

namespace Rabbits

open Lib

/-! ## 1. The model -/

/-- A row of `m_ns_time_at_fv`: the levels, and the idle level behind them. -/
abbrev FvTimes := Fin (getCpuNbFvLevels + 1) → Nat

/-- Where `cpu_thread` is: between the intervals it records, or in one of them with its
    `ps_start_time` or `starttime`, and `start_fv_level`. -/
inductive CpuInterval where
  | between
  | consuming (startTime : Nat) (startFvLevel : FvLevel)
  | halted (startTime : Nat)
  | accessing (startTime : Nat)

/-- The time up to which everything is recorded. -/
def CpuInterval.begin (now : Nat) : CpuInterval → Nat
  | .between => now
  | .consuming startTime _ => startTime
  | .halted startTime => startTime
  | .accessing startTime => startTime

/-- The simulated time, the level and the times of a CPU. `records` counts the calls of
    `add_time_at_fv`, `outside` is the time that passed between the intervals. -/
structure CpuTime where
  now : Nat
  fvLevel : FvLevel
  nsTimeAtFv : FvTimes
  interval : CpuInterval
  records : Nat
  outside : Nat

/-- Time passes; a wait of the thread begins or ends; some CPU sets the level. -/
inductive TimeEvent where
  | pass (ps : Nat)
  | consume
  | consumed (again : Bool)
  | halt
  | wakeup
  | access
  | accessed
  | setFvLevel (val : ULong)

namespace CpuTime

def start : CpuTime := ⟨0, .boot, fun _ => 0, .between, 0, 0⟩

/-- `cpu_logs::add_time_at_fv`. -/
def addTimeAtFv (s : CpuTime) (fvLevel : Fin (getCpuNbFvLevels + 1)) (time : Nat) : CpuTime :=
  { s with
    nsTimeAtFv := Function.update s.nsTimeAtFv fvLevel (w64 (s.nsTimeAtFv fvLevel + time))
    records := s.records + 1 }

/-- `qemu_cpu_wrapper::add_time_at_fv`, whose `ns` is an `unsigned long`. -/
def addTime (s : CpuTime) (ns : Nat) : CpuTime := s.addTimeAtFv s.fvLevel.castSucc (ns % 2 ^ 32)

/-- The end of `systemc_qemu_read_memory` and `systemc_qemu_write_memory`; `diff` is the time they
    took. -/
def endAccess (s : CpuTime) (diff : Nat) : CpuTime :=
  if diff ≠ 0 then { s.addTime diff with interval := .between }
  else { s with interval := .between }

/-- The time that passes is counted as outside between the intervals. -/
def outsideAfter (s : CpuTime) (ps : Nat) : Nat :=
  match s.interval with
  | .between => s.outside + ps
  | _ => s.outside

def next (s : CpuTime) : TimeEvent → Option CpuTime
  | .pass ps =>
      if s.now + ps < 2 ^ 64 then some { s with now := s.now + ps, outside := s.outsideAfter ps }
      else none
  | .consume =>
      match s.interval with
      | .between => some { s with interval := .consuming s.now s.fvLevel }
      | _ => none
  | .consumed again =>
      match s.interval with
      | .consuming startTime startFvLevel =>
          let s := s.addTimeAtFv startFvLevel.castSucc ((s.now - startTime) / 1000)
          some { s with interval := if again then .consuming s.now s.fvLevel else .between }
      | _ => none
  | .halt =>
      match s.interval with
      | .between => some { s with interval := .halted s.now }
      | _ => none
  | .wakeup =>
      match s.interval with
      | .halted startTime =>
          some { s.addTimeAtFv (Fin.last _) ((s.now - startTime) / 1000) with interval := .between }
      | _ => none
  | .access =>
      match s.interval with
      | .between => some { s with interval := .accessing s.now }
      | _ => none
  | .accessed =>
      match s.interval with
      | .accessing startTime => some (s.endAccess (s.now - startTime))
      | _ => none
  | .setFvLevel val => (FvLevel.ofVal val).map fun level => { s with fvLevel := level }

/-- The sum over the levels, the idle one included. -/
def total (s : CpuTime) : Nat := ∑ level, s.nsTimeAtFv level

/-- Between two intervals, the times sum up to what has passed: not more, and less only by the time
    outside and by less than one nanosecond for each interval recorded. -/
def Accounted (s : CpuTime) : Prop :=
  match s.interval with
  | .between => 1000 * s.total ≤ s.now ∧ s.now ≤ 1000 * s.total + 999 * s.records + s.outside
  | _ => True

/-- An access ends with a latency in `L`. -/
def LatencyIn (L : Nat → Prop) (s : CpuTime) : TimeEvent → Prop
  | .accessed => ∀ startTime, s.interval = .accessing startTime → L (s.now - startTime)
  | _ => True

/-! ## 2. One interval -/

structure TimeInv (s : CpuTime) : Prop where
  le_now : s.interval.begin s.now ≤ s.now
  now_lt : s.now < 2 ^ 64
  total_le : 1000 * s.total ≤ s.interval.begin s.now
  le_total : s.interval.begin s.now ≤ 1000 * s.total + 999 * s.records + s.outside

/-- An interval that is recorded in nanoseconds. -/
theorem total_addTimeAtFv {s : CpuTime} {level : Fin (getCpuNbFvLevels + 1)} {time : Nat}
    (h : s.total + time < 2 ^ 64) : (s.addTimeAtFv level time).total = s.total + time := by
  have hle : s.nsTimeAtFv level ≤ s.total :=
    Finset.single_le_sum (fun i _ => Nat.zero_le (s.nsTimeAtFv i)) (Finset.mem_univ level)
  have hw : w64 (s.nsTimeAtFv level + time) = s.nsTimeAtFv level + time :=
    Nat.mod_eq_of_lt (by omega)
  have hsum := Finset.sum_update_of_mem (Finset.mem_univ level) s.nsTimeAtFv
    (s.nsTimeAtFv level + time)
  have hself : s.total = s.nsTimeAtFv level + ∑ i ∈ Finset.univ \ {level}, s.nsTimeAtFv i := by
    have h := Finset.sum_update_of_mem (Finset.mem_univ level) s.nsTimeAtFv (s.nsTimeAtFv level)
    rwa [Function.update_eq_self] at h
  show ∑ i, Function.update s.nsTimeAtFv level (w64 _) i = _
  rw [hw, hsum, hself]
  omega

/-- **The end of an interval that is recorded right.** -/
theorem TimeInv.record {s : CpuTime} (h : TimeInv s) (level : Fin (getCpuNbFvLevels + 1))
    {time : Nat} (htime : time = (s.now - s.interval.begin s.now) / 1000) {i : CpuInterval}
    (hi : i.begin s.now = s.now) : TimeInv { s.addTimeAtFv level time with interval := i } := by
  have hle := h.le_now
  have hlt := h.now_lt
  have h1 := h.total_le
  have h2 := h.le_total
  have htotal : (s.addTimeAtFv level time).total = s.total + time := total_addTimeAtFv (by omega)
  refine ⟨hi.le, hlt, ?_, ?_⟩
  · show 1000 * (s.addTimeAtFv level time).total ≤ i.begin s.now
    rw [htotal, hi]
    omega
  · show i.begin s.now ≤ 1000 * (s.addTimeAtFv level time).total + 999 * (s.records + 1) + s.outside
    rw [htotal, hi]
    omega

/-- The begin of an interval. -/
theorem TimeInv.enter {s : CpuTime} (h : TimeInv s) (hs : s.interval.begin s.now = s.now)
    {i : CpuInterval} (hi : i.begin s.now = s.now) : TimeInv { s with interval := i } := by
  have h1 := h.total_le
  have h2 := h.le_total
  rw [hs] at h1 h2
  exact ⟨hi.le, h.now_lt, hi.symm ▸ h1, hi.symm ▸ h2⟩

theorem TimeInv.pass {s : CpuTime} (h : TimeInv s) {ps : Nat} (hps : s.now + ps < 2 ^ 64) :
    TimeInv { s with now := s.now + ps, outside := s.outsideAfter ps } := by
  have hle := h.le_now
  have h1 := h.total_le
  have h2 := h.le_total
  cases hi : s.interval with
  | between =>
      simp only [hi, CpuInterval.begin] at h1 h2
      refine ⟨?_, hps, ?_, ?_⟩ <;> simp only [hi, CpuInterval.begin, outsideAfter] <;>
        simp only [total] at h1 h2 ⊢ <;> omega
  | _ =>
      simp only [hi, CpuInterval.begin] at hle h1 h2
      refine ⟨?_, hps, ?_, ?_⟩ <;> simp only [hi, CpuInterval.begin, outsideAfter] <;>
        simp only [total] at h1 h2 ⊢ <;> omega

/-! ## 3. Runs -/

/-- The latencies that are cut to the number of their nanoseconds. -/
def CutRight (d : Nat) : Prop := d % 2 ^ 32 = d / 1000

theorem timeInv_next {s s' : CpuTime} {e : TimeEvent} (h : TimeInv s) (he : LatencyIn CutRight s e)
    (hs : s.next e = some s') : TimeInv s' := by
  cases e with
  | pass ps =>
      simp only [next] at hs
      split at hs
      · next hps =>
          cases hs
          exact h.pass hps
      · cases hs
  | consume | halt | access =>
      -- an interval begins where none is open
      simp only [next] at hs
      split at hs
      · next hi =>
          cases hs
          exact h.enter (by rw [hi]; rfl) rfl
      · cases hs
  | consumed again =>
      simp only [next] at hs
      split at hs
      · next startTime startFvLevel hi =>
          cases hs
          refine h.record _ (by rw [hi]; rfl) ?_
          cases again <;> rfl
      · cases hs
  | wakeup =>
      simp only [next] at hs
      split at hs
      · next startTime hi =>
          cases hs
          exact h.record _ (by rw [hi]; rfl) rfl
      · cases hs
  | accessed =>
      simp only [next] at hs
      split at hs
      · next startTime hi =>
          cases hs
          have hle := h.le_now
          have hcut : CutRight (s.now - startTime) := he startTime hi
          rw [hi] at hle
          unfold endAccess
          by_cases hdiff : s.now - startTime = 0
          · -- an access without a latency records nothing
            rw [if_neg (not_not.mpr hdiff)]
            refine h.enter ?_ rfl
            rw [hi]
            exact Nat.le_antisymm hle (Nat.le_of_sub_eq_zero hdiff)
          · rw [if_pos hdiff]
            exact h.record _ (by rw [hi]; exact hcut) rfl
      · cases hs
  | setFvLevel val =>
      obtain ⟨level, -, rfl⟩ := Option.map_eq_some_iff.mp hs
      exact ⟨h.le_now, h.now_lt, h.total_le, h.le_total⟩

theorem TimeInv.accounted {s : CpuTime} (h : TimeInv s) : s.Accounted := by
  have h1 := h.total_le
  have h2 := h.le_total
  unfold Accounted
  split
  · next hi =>
      rw [hi] at h1 h2
      exact ⟨h1, h2⟩
  · trivial

theorem timeInv_start : TimeInv start := ⟨Nat.le_refl _, by decide, Nat.le_refl _, Nat.zero_le _⟩

theorem next_pass {s : CpuTime} {ps : Nat} (h : s.now + ps < 2 ^ 64) :
    s.next (.pass ps) = some { s with now := s.now + ps, outside := s.outsideAfter ps } := if_pos h

/-- A CPU in its first access, since `d` picoseconds. -/
def firstAccess (d : Nat) : CpuTime := ⟨d, .boot, fun _ => 0, .accessing 0, 0, 0⟩

theorem next_firstAccess {d : Nat} (hd : d < 2 ^ 64) :
    (firstAccess 0).next (.pass d) = some (firstAccess d) := by
  have hlt : (firstAccess 0).now + d < 2 ^ 64 := by simpa [firstAccess] using hd
  rw [next_pass hlt]
  simp [firstAccess, outsideAfter]

theorem exec_firstAccess {d : Nat} (hd : d < 2 ^ 64) :
    exec next start [.access, .pass d, .accessed] = some ((firstAccess d).endAccess d) := by
  have haccess : start.next .access = some (firstAccess 0) := rfl
  rw [exec_cons haccess, exec_cons (next_firstAccess hd)]
  rfl

theorem steps_firstAccess {L : Nat → Prop} {d : Nat} (hd : d < 2 ^ 64) (hL : L d) :
    Steps next (LatencyIn L) start [.access, .pass d, .accessed] := by
  have haccess : start.next .access = some (firstAccess 0) := rfl
  refine .cons haccess trivial (.cons (next_firstAccess hd) trivial ?_)
  refine fun s _ => ⟨fun startTime hi => ?_, trivial⟩
  cases hi
  exact hL

/-- What a first access leaves. -/
theorem total_firstAccess {d : Nat} (hd : d ≠ 0) :
    ((firstAccess d).endAccess d).total = d % 2 ^ 32 := by
  have htotal : (firstAccess d).total = 0 := by simp [total, firstAccess]
  have hlt : (firstAccess d).total + d % 2 ^ 32 < 2 ^ 64 := by omega
  have hadd : ((firstAccess d).addTimeAtFv FvLevel.boot.castSucc (d % 2 ^ 32)).total =
      (firstAccess d).total + d % 2 ^ 32 := total_addTimeAtFv hlt
  rw [htotal, Nat.zero_add] at hadd
  rw [endAccess, if_pos hd]
  exact hadd

/-- **Which latencies are recorded right**: the times are right in all runs whose accesses have
    latencies in `L`, exactly if each of them, as picoseconds cut to 32 bits, is its number of
    nanoseconds. -/
theorem accounted_iff (L : Nat → Prop) :
    (∀ es, Steps next (LatencyIn L) start es → Along next Accounted start es) ↔
      ∀ d < 2 ^ 64, L d → CutRight d := by
  constructor
  · intro h d hd hL
    have hlast := (h _ (steps_firstAccess hd hL)).last (exec_firstAccess hd)
    unfold CutRight
    by_cases h0 : d = 0
    · subst h0
      rfl
    · have hacc : 1000 * ((firstAccess d).endAccess d).total ≤ d ∧
          d ≤ 1000 * ((firstAccess d).endAccess d).total + 999 * 1 + 0 := by
        rw [endAccess, if_pos h0] at hlast ⊢
        exact hlast
      rw [total_firstAccess h0] at hacc
      omega
  · intro h es hes
    refine along_of_steps (fun _ hs => hs.accounted) (fun s e s' hs he hn => ?_) timeInv_start hes
    refine timeInv_next hs ?_ hn
    cases e with
    | accessed =>
        intro startTime hi
        have hlt := hs.now_lt
        exact h _ (by omega) (he startTime hi)
    | _ => trivial

/-- The first access takes 3 ns: 3000 ns are recorded. -/
theorem access_recorded_as_ps :
    ¬ Along next Accounted start [.access, .pass 3000, .accessed] := by
  intro h
  have hlast := h.last (exec_firstAccess (by decide))
  have hacc : 1000 * ((firstAccess 3000).endAccess 3000).total ≤ 3000 := hlast.1
  rw [total_firstAccess (by decide)] at hacc
  exact absurd hacc (by decide)

end CpuTime

end Rabbits
