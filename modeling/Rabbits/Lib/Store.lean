/-
  File:      Rabbits/Lib/Store.lean
  Subject:   A memory as the result of its writes.

  * `Write` -- a write of values at some places;
  * `replay` -- a memory after a list of writes;
  * `lastWrite` -- the most recent value written at a place;
  * `replay_eq` -- a memory holds at every place the most recent value, or what it held at first;
  * `rangeWrite` -- a write of consecutive places; two that meet are one (`rangeWrite_append`).
-/
import Mathlib.Data.List.Induction

namespace Lib

universe u v

variable {α : Type u} {β : Type v}

/-- A write: the value for each place it writes. -/
abbrev Write (α : Type u) (β : Type v) := α → Option β

/-- A memory after one write. -/
def Write.apply (w : Write α β) (mem : α → β) : α → β := fun a => (w a).getD (mem a)

/-- A memory after a list of writes. -/
def replay (mem : α → β) (log : List (Write α β)) : α → β :=
  log.foldl (fun mem w => w.apply mem) mem

/-- The most recent value written at `a`. -/
def lastWrite (log : List (Write α β)) (a : α) : Option β := log.reverse.findSome? fun w => w a

@[simp] theorem lastWrite_nil (a : α) : lastWrite ([] : List (Write α β)) a = none := rfl

theorem lastWrite_append_singleton (log : List (Write α β)) (w : Write α β) (a : α) :
    lastWrite (log ++ [w]) a = (w a).or (lastWrite log a) := by
  rw [lastWrite, List.reverse_append, List.findSome?_append]
  cases h : w a <;> simp [h, lastWrite]

@[simp] theorem replay_append_singleton (mem : α → β) (log : List (Write α β)) (w : Write α β) :
    replay mem (log ++ [w]) = w.apply (replay mem log) := by
  simp [replay]

/-- **A memory holds the most recent values.** -/
theorem replay_eq (mem : α → β) (log : List (Write α β)) (a : α) :
    replay mem log a = (lastWrite log a).getD (mem a) := by
  induction log using List.reverseRecOn with
  | nil => rfl
  | append_singleton log w ih =>
      rw [replay_append_singleton, lastWrite_append_singleton, Write.apply, ih]
      cases w a <;> rfl

/-- A write of the `n` places from `start` on. -/
def rangeWrite (start n : Nat) (data : Nat → β) : Write Nat β := fun b =>
  if start ≤ b ∧ b < start + n then some (data (b - start)) else none

theorem rangeWrite_apply (start n : Nat) (data : Nat → β) (mem : Nat → β) (b : Nat) :
    (rangeWrite start n data).apply mem b =
      if start ≤ b ∧ b < start + n then data (b - start) else mem b := by
  simp only [Write.apply, rangeWrite]
  split <;> rfl

theorem rangeWrite_zero (start : Nat) (data : Nat → β) (mem : Nat → β) :
    (rangeWrite start 0 data).apply mem = mem := by
  funext b
  rw [rangeWrite_apply, if_neg (by omega)]

/-- **Two writes that meet are one.** -/
theorem rangeWrite_append (start n k : Nat) (data : Nat → β) (mem : Nat → β) :
    (rangeWrite (start + n) k fun i => data (n + i)).apply ((rangeWrite start n data).apply mem) =
      (rangeWrite start (n + k) data).apply mem := by
  funext b
  simp only [rangeWrite_apply]
  by_cases h₁ : start + n ≤ b ∧ b < start + n + k
  · rw [if_pos h₁, if_pos (by omega)]
    congr 1
    omega
  · rw [if_neg h₁]
    by_cases h₂ : start ≤ b ∧ b < start + n
    · rw [if_pos h₂, if_pos (by omega)]
    · rw [if_neg h₂, if_neg (by omega)]

end Lib
