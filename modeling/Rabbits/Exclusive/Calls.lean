/-
  File:      Rabbits/Exclusive/Calls.lean
  Subject:   The calls that a CPU makes for exclusive loads and stores (main.cpp of the platforms:
             memory_mark_exclusive, memory_test_exclusive, memory_clear_exclusive).

  A load-exclusive marks its word, a store-exclusive tests it and, where the platform's test does
  not free the reservation itself, clears it. Each platform keeps its own table `mem_exclusive`.
-/
import Rabbits.Noc.Vci
import Rabbits.Lib.Since
import Rabbits.Lib.KeyTable

namespace Rabbits

/-- The capacity of `mem_exclusive`. -/
def MEM_EXCLUSIVE_SIZE : Nat := 100

/-- `addr &= 0xFFFFFFFC`. -/
def wordOf (addr : ULong) : ULong := addr &&& 0xFFFFFFFC#32

/-- One call, by a CPU, at an address. -/
inductive ExclusiveCall (κ : Type) where
  | mark (cpu : κ) (addr : ULong)
  | test (cpu : κ) (addr : ULong)
  | clear (cpu : κ) (addr : ULong)
  deriving DecidableEq

namespace ExclusiveCall

variable {κ : Type}

def cpu : ExclusiveCall κ → κ
  | mark cpu _ | test cpu _ | clear cpu _ => cpu

/-- The word of a call. -/
def word : ExclusiveCall κ → ULong
  | mark _ addr | test _ addr | clear _ addr => wordOf addr

/-- The call marks word `w` for `cpu`. -/
def Marks (cpu : κ) (w : ULong) (c : ExclusiveCall κ) : Prop :=
  ∃ addr, c = mark cpu addr ∧ wordOf addr = w

/-- The call clears word `w`. -/
def Clears (w : ULong) (c : ExclusiveCall κ) : Prop := ∃ cpu addr, c = clear cpu addr ∧ wordOf addr = w

theorem Marks.word_eq {cpu : κ} {w : ULong} {c : ExclusiveCall κ} (h : Marks cpu w c) : c.word = w := by
  obtain ⟨addr, rfl, hw⟩ := h
  exact hw

theorem Clears.word_eq {w : ULong} {c : ExclusiveCall κ} (h : Clears w c) : c.word = w := by
  obtain ⟨cpu, addr, rfl, hw⟩ := h
  exact hw

end ExclusiveCall

end Rabbits
