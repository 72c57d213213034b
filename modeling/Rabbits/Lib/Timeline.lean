/-
  File:      Rabbits/Lib/Timeline.lean
  Subject:   Quantities that change at points in time and stay constant in between.

  Time is counted in whole units. A history is a list of changes (stamp and new value), the stamps
  not decreasing; of several changes with one stamp the last one counts.

  * `valueAt` -- the value in force at a time (from the stamp of a change on);
  * `integral` -- the sum over the units of an interval, which is the exact integral, since the
    value is constant on each unit;
  * `integral_append` -- a later change leaves the integral before it alone;
  * `integral_of_quiet` -- after the last change the integral is a product.
-/
import Mathlib.Algebra.BigOperators.Intervals

namespace Lib

universe u

variable {α : Type u}

/-! ## 1. The value in force -/

/-- The value at `τ`, starting from `init`. -/
def valueAt (init : α) (changes : List (Nat × α)) (τ : Nat) : α :=
  changes.foldl (fun v c => if c.1 ≤ τ then c.2 else v) init

/-- The value after every change. -/
def lastValue (init : α) (changes : List (Nat × α)) : α := changes.foldl (fun _ c => c.2) init

/-- The stamp of the last change, 0 when there is none. -/
def lastStamp (changes : List (Nat × α)) : Nat := changes.foldl (fun _ c => c.1) 0

@[simp] theorem lastValue_append (init : α) (changes : List (Nat × α)) (t : Nat) (v : α) :
    lastValue init (changes ++ [(t, v)]) = v := by
  simp [lastValue]

@[simp] theorem lastStamp_append (changes : List (Nat × α)) (t : Nat) (v : α) :
    lastStamp (changes ++ [(t, v)]) = t := by
  simp [lastStamp]

/-- A later change does not touch the past. -/
theorem valueAt_append {init : α} {changes : List (Nat × α)} {t τ : Nat} {v : α} (h : τ < t) :
    valueAt init (changes ++ [(t, v)]) τ = valueAt init changes τ := by
  have hn : ¬ t ≤ τ := Nat.not_le.mpr h
  simp [valueAt, hn]

/-- After all the changes the last value is in force. -/
theorem valueAt_of_all_le {init : α} {changes : List (Nat × α)} {τ : Nat}
    (h : ∀ c ∈ changes, c.1 ≤ τ) : valueAt init changes τ = lastValue init changes := by
  induction changes generalizing init with
  | nil => rfl
  | cons c changes ih =>
      have hc : c.1 ≤ τ := h c List.mem_cons_self
      have ih' : valueAt c.2 changes τ = lastValue c.2 changes :=
        ih fun d hd => h d (List.mem_cons_of_mem _ hd)
      simpa [valueAt, lastValue, hc] using ih'

/-! ## 2. The integral -/

variable [AddCommMonoid α]

/-- The integral over `[a, b)`, 0 when the interval is empty. -/
def integral (init : α) (changes : List (Nat × α)) (a b : Nat) : α :=
  ∑ τ ∈ Finset.Ico a b, valueAt init changes τ

theorem integral_of_le {init : α} {changes : List (Nat × α)} {a b : Nat} (h : b ≤ a) :
    integral init changes a b = 0 := by
  rw [integral, Finset.Ico_eq_empty (by omega), Finset.sum_empty]

theorem integral_add {init : α} {changes : List (Nat × α)} {a b c : Nat} (h1 : a ≤ b)
    (h2 : b ≤ c) :
    integral init changes a b + integral init changes b c = integral init changes a c :=
  Finset.sum_Ico_consecutive _ h1 h2

theorem integral_append {init : α} {changes : List (Nat × α)} {t : Nat} {v : α} {a b : Nat}
    (h : b ≤ t) :
    integral init (changes ++ [(t, v)]) a b = integral init changes a b := by
  refine Finset.sum_congr rfl fun τ hτ => valueAt_append ?_
  have hb := (Finset.mem_Ico.mp hτ).2
  omega

theorem integral_of_quiet {init : α} {changes : List (Nat × α)} {a b : Nat}
    (h : ∀ c ∈ changes, c.1 ≤ a) :
    integral init changes a b = (b - a) • lastValue init changes := by
  have hv (τ : Nat) (hτ : τ ∈ Finset.Ico a b) :
      valueAt init changes τ = lastValue init changes := by
    have ha := (Finset.mem_Ico.mp hτ).1
    exact valueAt_of_all_le fun c hc => (h c hc).trans ha
  rw [integral, Finset.sum_congr rfl hv, Finset.sum_const, Nat.card_Ico]

/-- What a new change at `t` adds to the integral over `[a, b)` as far as it is known: the last
    value, from the last change (or the begin) up to `t` (or the end). -/
theorem integral_extend (init v : α) {changes : List (Nat × α)} {a b t : Nat}
    (hord : ∀ c ∈ changes, c.1 ≤ lastStamp changes) (hlt : lastStamp changes < t) (hat : a < t)
    (hab : a ≤ b) (hb : lastStamp changes ≤ b) :
    integral init (changes ++ [(t, v)]) a (min b t) =
      integral init changes a (min b (lastStamp changes)) +
        (min b t - max a (lastStamp changes)) • lastValue init changes := by
  have hmid : a ≤ max a (lastStamp changes) := Nat.le_max_left _ _
  have hend : max a (lastStamp changes) ≤ min b t := by omega
  rw [integral_append (Nat.min_le_right b t), ← integral_add hmid hend, Nat.min_eq_right hb]
  congr 1
  · rcases Nat.le_total a (lastStamp changes) with h | h
    · rw [Nat.max_eq_right h]
    · rw [Nat.max_eq_left h, integral_of_le (Nat.le_refl a), integral_of_le h]
  · exact integral_of_quiet fun c hc => (hord c hc).trans (Nat.le_max_right _ _)

end Lib
