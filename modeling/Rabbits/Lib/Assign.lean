/-
  File:      Rabbits/Lib/Assign.lean
  Subject:   Assignments made one after another.

  A list of cells and values is assigned from left to right; a later assignment to a cell overrides
  the earlier ones.

  * `assignAll_apply` -- a cell holds a value that was assigned to it, or is as it was;
  * `assignAll_consistent` -- **assignments that agree with `e` give `e`, in whatever order**;
  * `assignAll_last` -- the last assignment stays.
-/
import Mathlib.Logic.Function.Basic
import Mathlib.Data.List.Basic

namespace Lib

universe u v

variable {ι : Type u} {V : Type v} [DecidableEq ι]

def assignAll (ps : List (ι × V)) (f : ι → V) : ι → V :=
  ps.foldl (fun f p => Function.update f p.1 p.2) f

theorem assignAll_append (ps qs : List (ι × V)) (f : ι → V) :
    assignAll (ps ++ qs) f = assignAll qs (assignAll ps f) :=
  List.foldl_append

/-- The last assignment stays. -/
theorem assignAll_last (ps : List (ι × V)) (i : ι) (v : V) (f : ι → V) :
    assignAll (ps ++ [(i, v)]) f i = v := by
  rw [assignAll_append]
  exact Function.update_self ..

/-- A cell holds a value that was assigned to it, or nothing was assigned and it is as it was. -/
theorem assignAll_apply (ps : List (ι × V)) (f : ι → V) (i : ι) :
    (i, assignAll ps f i) ∈ ps ∨ (∀ v, (i, v) ∉ ps) ∧ assignAll ps f i = f i := by
  induction ps generalizing f with
  | nil => exact .inr ⟨fun v h => absurd h List.not_mem_nil, rfl⟩
  | cons p ps ih =>
      rcases ih (Function.update f p.1 p.2) with h | ⟨hnone, hf⟩
      · exact .inl (.tail _ h)
      · by_cases hi : i = p.1
        · subst hi
          have hv : assignAll (p :: ps) f p.1 = p.2 := hf.trans (Function.update_self ..)
          rw [hv]
          exact .inl (.head _)
        · refine .inr ⟨fun v h => ?_, hf.trans (Function.update_of_ne hi ..)⟩
          rcases List.mem_cons.mp h with h | h
          · exact hi (congrArg Prod.fst h)
          · exact hnone v h

/-- **Assignments that agree with `e`, from a start that agrees with `e` elsewhere, give `e`.** -/
theorem assignAll_consistent {ps : List (ι × V)} {f e : ι → V} (hp : ∀ p ∈ ps, p.2 = e p.1)
    (hf : ∀ i, (∀ v, (i, v) ∉ ps) → f i = e i) : assignAll ps f = e := by
  funext i
  rcases assignAll_apply ps f i with h | ⟨hnone, h⟩
  · exact hp _ h
  · exact h.trans (hf i hnone)

end Lib
