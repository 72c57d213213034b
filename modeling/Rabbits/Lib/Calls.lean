/-
  File:      Rabbits/Lib/Calls.lean
  Subject:   A component that answers calls, against a specification of its answers.

  `step s c r s'`: in `s` the call `c` may end with the result `r` in `s'`. The specification has a
  state of its own, which a call changes by a function, and says which results are right.

  * `Calls` -- the calls of a run with their results; `allowed` -- calls that a caller may make;
  * `answersRight` -- every result is right, each in the state behind the calls before it;
  * `Refines` -- what one call has to keep; `Refines.run` -- **then every run of allowed calls is right
    and ends in agreement**, and `Refines.exists_run` -- there is one for every list of them.
-/

namespace Lib

universe u v w x

variable {σ : Type u} {τ : Type v} {κ : Type w} {ρ : Type x}

/-- A run of calls with their results. -/
inductive Calls (step : σ → κ → ρ → σ → Prop) : σ → List (κ × ρ) → σ → Prop where
  | nil (s : σ) : Calls step s [] s
  | cons {s s' t : σ} {c : κ} {r : ρ} {h : List (κ × ρ)} (hs : step s c r s')
      (ht : Calls step s' h t) : Calls step s ((c, r) :: h) t

/-- Calls that the specification allows, each behind those before it. -/
def allowed (spec : τ → κ → τ) (pre : τ → κ → Prop) : τ → List κ → Prop
  | _, [] => True
  | a, c :: cs => pre a c ∧ allowed spec pre (spec a c) cs

/-- Results that the specification has. -/
def answersRight (spec : τ → κ → τ) (post : τ → κ → ρ → Prop) : τ → List (κ × ρ) → Prop
  | _, [] => True
  | a, (c, r) :: h => post a c r ∧ answersRight spec post (spec a c) h

/-- One call: from agreement, a call that is allowed ends with a right result and in agreement, and
    it can end. -/
structure Refines (R : σ → τ → Prop) (step : σ → κ → ρ → σ → Prop) (spec : τ → κ → τ)
    (pre : τ → κ → Prop) (post : τ → κ → ρ → Prop) : Prop where
  kept : ∀ {s a c r s'}, R s a → pre a c → step s c r s' → post a c r ∧ R s' (spec a c)
  ends : ∀ {s a c}, R s a → pre a c → ∃ r s', step s c r s'

variable {R : σ → τ → Prop} {step : σ → κ → ρ → σ → Prop} {spec : τ → κ → τ}
  {pre : τ → κ → Prop} {post : τ → κ → ρ → Prop}

/-- **Every run of allowed calls is right.** -/
theorem Refines.run (h : Refines R step spec pre post) {s t : σ} {hist : List (κ × ρ)}
    (hrun : Calls step s hist t) {a : τ} (hR : R s a)
    (hpre : allowed spec pre a (hist.map Prod.fst)) :
    answersRight spec post a hist ∧ R t ((hist.map Prod.fst).foldl spec a) := by
  induction hrun generalizing a with
  | nil s => exact ⟨trivial, hR⟩
  | cons hs _ ih =>
      obtain ⟨hc, hrest⟩ := hpre
      obtain ⟨hpost, hR'⟩ := h.kept hR hc hs
      obtain ⟨hright, hend⟩ := ih hR' hrest
      exact ⟨⟨hpost, hright⟩, hend⟩

/-- **Every list of allowed calls has a run.** -/
theorem Refines.exists_run (h : Refines R step spec pre post) {cs : List κ} {s : σ} {a : τ}
    (hR : R s a) (hpre : allowed spec pre a cs) :
    ∃ hist t, hist.map Prod.fst = cs ∧ Calls step s hist t := by
  induction cs generalizing s a with
  | nil => exact ⟨[], s, rfl, .nil s⟩
  | cons c cs ih =>
      obtain ⟨hc, hrest⟩ := hpre
      obtain ⟨r, s', hs⟩ := h.ends hR hc
      obtain ⟨hist, t, heq, hrun⟩ := ih (h.kept hR hc hs).2 hrest
      exact ⟨(c, r) :: hist, t, by rw [List.map_cons, heq], .cons hs hrun⟩

end Lib
