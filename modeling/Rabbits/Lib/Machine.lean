/-
  File:      Rabbits/Lib/Machine.lean
  Subject:   Transition systems: reachable states and the invariant rule.

  * `Machine` -- initial states and a step relation over any state type;
  * `Machine.Reach` -- the reachable states, by a start or one more step;
  * `Machine.Reach.invariant` -- what holds at the start and is kept by a step from a REACHABLE
    state holds of every reachable state (the step may use reachability, so invariants stack);
  * `Run` -- a run with its labels and the states behind them; `Run.forall_iff` -- **the exact
    condition**, when a step that does not meet it loses the property at once.
-/

namespace Lib

universe u v

variable {σ : Type u}

/-- A transition system: where it may start and what one step may do. -/
structure Machine (σ : Type u) where
  init : σ → Prop
  step : σ → σ → Prop

/-- The states a machine reaches. -/
inductive Machine.Reach (M : Machine σ) : σ → Prop where
  | start {s : σ} (h : M.init s) : M.Reach s
  | step {s s' : σ} (hr : M.Reach s) (hs : M.step s s') : M.Reach s'

/-- **The invariant rule.** -/
theorem Machine.Reach.invariant {M : Machine σ} {I : σ → Prop} (h0 : ∀ s, M.init s → I s)
    (hstep : ∀ s s', M.Reach s → I s → M.step s s' → I s') {s : σ} (h : M.Reach s) : I s := by
  induction h with
  | start h => exact h0 _ h
  | step hr hs ih => exact hstep _ _ hr ih hs

/-! ## Labelled runs -/

variable {α : Type v} {step : σ → α → σ → Prop}

/-- The labels of a run from `s`, each with the state behind it. -/
inductive Run (step : σ → α → σ → Prop) (s : σ) : List (α × σ) → σ → Prop where
  | nil : Run step s [] s
  | snoc {tr : List (α × σ)} {t t' : σ} {l : α} (h : Run step s tr t) (hs : step t l t') :
      Run step s (tr ++ [(l, t')]) t'

variable {s t : σ} {tr : List (α × σ)} {I Q : σ → Prop} {P : α → Prop}

theorem Run.invariant (hgood : ∀ s l s', I s → P l → step s l s' → I s') (hs : I s)
    (h : Run step s tr t) (hP : ∀ e ∈ tr, P e.1) : I t := by
  induction h with
  | nil => exact hs
  | snoc h hs ih =>
      exact hgood _ _ _ (ih fun e he => hP e (List.mem_append_left _ he))
        (hP _ (List.mem_append_right _ List.mem_cons_self)) hs

/-- **The exact condition** on the steps of a run. -/
theorem Run.forall_iff (hQ : ∀ s, I s → Q s)
    (hgood : ∀ s l s', I s → P l → step s l s' → I s')
    (hbad : ∀ s l s', I s → ¬ P l → step s l s' → ¬ Q s') (hs : I s) (h : Run step s tr t) :
    (∀ e ∈ tr, Q e.2) ↔ ∀ e ∈ tr, P e.1 := by
  induction h with
  | nil => simp
  | @snoc tr t t' l h hstep ih =>
      simp only [List.forall_mem_append, List.forall_mem_singleton, ih]
      refine and_congr_right fun hP => ?_
      have ht : I t := h.invariant hgood hs hP
      refine ⟨fun hq => ?_, fun hp => hQ _ (hgood t l t' ht hp hstep)⟩
      exact Classical.byContradiction fun hp => hbad t l t' ht hp hstep hq

/-- Every reachable state is the end of a run. -/
theorem Machine.Reach.exists_run {M : Machine σ} (hinit : ∀ x, M.init x → x = s)
    (hstep : ∀ x x', M.step x x' → ∃ l, step x l x') (h : M.Reach t) : ∃ tr, Run step s tr t := by
  induction h with
  | start h => exact ⟨[], hinit _ h ▸ .nil⟩
  | step hr hs ih =>
      obtain ⟨tr, htr⟩ := ih
      obtain ⟨l, hl⟩ := hstep _ _ hs
      exact ⟨_, htr.snoc hl⟩

end Lib
