/-
  File:      Rabbits/Lib/Drain.lean
  Subject:   Systems that work off a load: how long their runs are.

  A step moves something, and the load goes down, or it finds nothing to move and goes to sleep; what
  moves may wake at most `k` sleepers.

  * `Falls` -- one step, on the load and the number of those awake;
  * `drainRank`, `Falls.rank_lt` -- one number that every step lowers;
  * `Run.length_add_le` -- **a run is at most as long as the rank it starts with**;
  * `exists_run_to_end` -- some run from every state cannot go on;
  * `sum_add_of_eq_off` -- the load of a system of ports, of which a step changes one.
-/
import Mathlib.Algebra.BigOperators.Group.Finset.Basic
import Rabbits.Lib.Machine

namespace Lib

universe u v

/-- Load and wakefulness before (`l`, `w`) and after (`l'`, `w'`) a step. -/
def Falls (k l w l' w' : Nat) : Prop := l' < l ∧ w' ≤ w + k ∨ l' = l ∧ w' < w

theorem Falls.irrefl (k l w : Nat) : ¬ Falls k l w l w := by
  unfold Falls
  omega

/-- The load counts for more than all that one move can wake. -/
def drainRank (k l w : Nat) : Nat := l * (k + 1) + w

theorem Falls.rank_lt {k l w l' w' : Nat} (h : Falls k l w l' w') :
    drainRank k l' w' < drainRank k l w := by
  unfold drainRank
  rcases h with ⟨hl, hw⟩ | ⟨rfl, hw⟩
  · have hmul : (l' + 1) * (k + 1) ≤ l * (k + 1) := Nat.mul_le_mul_right _ hl
    rw [Nat.add_mul, Nat.one_mul] at hmul
    omega
  · omega

/-- The same step of a part, next to parts that stay. -/
theorem Falls.add {k k' l w l' w' : Nat} (h : Falls k l w l' w') (hk : k ≤ k') (l₀ w₀ : Nat) :
    Falls k' (l₀ + l) (w₀ + w) (l₀ + l') (w₀ + w') := by
  unfold Falls at h ⊢
  omega

section Run

variable {σ : Type u} {α : Type v} {step : σ → α → σ → Prop} {I : σ → Prop} {s s' t : σ}
  {tr : List (α × σ)}

theorem Run.head {l : α} (hs : step s l s') (h : Run step s' tr t) :
    Run step s ((l, s') :: tr) t := by
  induction h with
  | nil => exact .snoc .nil hs
  | snoc h hstep ih => exact ih.snoc hstep

variable (rank : σ → Nat) (hkeep : ∀ s l s', I s → step s l s' → I s')
  (hfall : ∀ s l s', I s → step s l s' → rank s' < rank s)
include hkeep hfall

/-- **A run is at most as long as the rank it starts with.** -/
theorem Run.length_add_le (hs : I s) (h : Run step s tr t) : rank t + tr.length ≤ rank s := by
  induction h with
  | nil => exact Nat.le_refl _
  | @snoc tr t t' l h hstep ih =>
      have hlt := hfall t l t'
        (h.invariant (P := fun _ => True) (fun s l s' hi _ => hkeep s l s' hi) hs fun _ _ => trivial)
        hstep
      rw [List.length_append, List.length_singleton]
      omega

/-- **Some run cannot go on.** -/
theorem exists_run_to_end (hs : I s) : ∃ tr t, Run step s tr t ∧ ∀ l t', ¬ step t l t' := by
  induction hn : rank s using Nat.strong_induction_on generalizing s with
  | _ n ih =>
      by_cases hend : ∀ l t', ¬ step s l t'
      · exact ⟨[], s, .nil, hend⟩
      · obtain ⟨l, hl⟩ := not_forall.mp hend
        obtain ⟨s', hs'⟩ := not_forall.mp hl
        have hstep := not_not.mp hs'
        obtain ⟨tr, t, hrun, ht⟩ :=
          ih _ (hn ▸ hfall s l s' hs hstep) (hkeep s l s' hs hstep) rfl
        exact ⟨_, t, hrun.head hstep, ht⟩

end Run

/-- Two sums that differ at one place. -/
theorem sum_add_of_eq_off {ι : Type u} [Fintype ι] [DecidableEq ι] {f g : ι → Nat} {i : ι}
    (h : ∀ j, j ≠ i → f j = g j) : ∑ j, f j + g i = ∑ j, g j + f i := by
  have hf := Finset.add_sum_erase Finset.univ f (Finset.mem_univ i)
  have hg := Finset.add_sum_erase Finset.univ g (Finset.mem_univ i)
  have hrest : ∑ j ∈ Finset.univ.erase i, f j = ∑ j ∈ Finset.univ.erase i, g j :=
    Finset.sum_congr rfl fun j hj => h j (Finset.ne_of_mem_erase hj)
  omega

end Lib
