/-
  File:      Rabbits/Lib/Since.lean
  Subject:   "`P` has happened, and no `Q` since then" over a list of events.

  Whether an event is a `P` or a `Q` may depend on the events before it.

  * `Since` -- the definition, by the place of the `P`;
  * `append_singleton_eq_append_cons` -- an event of a history is its last one, or an earlier one;
  * `since_append_singleton` -- **what one more event does**, the rule for inductions over histories.
-/
import Mathlib.Data.List.Induction

namespace Lib

universe u

variable {ε : Type u} {P Q : List ε → ε → Prop}

/-- Some event of `h` is a `P` and no later one is a `Q`. -/
def Since (P Q : List ε → ε → Prop) (h : List ε) : Prop :=
  ∃ pre e post, h = pre ++ e :: post ∧ P pre e ∧
    ∀ mid e' rest, post = mid ++ e' :: rest → ¬ Q (pre ++ e :: mid) e'

@[simp] theorem since_nil : ¬ Since P Q [] := by
  intro hyp
  obtain ⟨pre, e, post, h, -⟩ := hyp
  simp at h

/-- Where an element of `h ++ [e]` stands: at the end, or in `h`. -/
theorem append_singleton_eq_append_cons {h pre post : List ε} {e a : ε}
    (heq : h ++ [e] = pre ++ a :: post) :
    (h = pre ∧ e = a ∧ post = []) ∨ ∃ mid, post = mid ++ [e] ∧ h = pre ++ a :: mid := by
  rcases List.eq_nil_or_concat post with rfl | ⟨mid, b, rfl⟩
  · obtain ⟨rfl, hb⟩ := List.append_inj' heq rfl
    cases hb
    exact .inl ⟨rfl, rfl, rfl⟩
  · rw [List.concat_eq_append, ← List.cons_append, ← List.append_assoc] at heq
    obtain ⟨rfl, hb⟩ := List.append_inj' heq rfl
    cases hb
    exact .inr ⟨mid, List.concat_eq_append, rfl⟩

/-- **One more event.** -/
theorem since_append_singleton (h : List ε) (e : ε) :
    Since P Q (h ++ [e]) ↔ P h e ∨ (Since P Q h ∧ ¬ Q h e) := by
  constructor
  · intro hyp
    obtain ⟨pre, a, post, heq, hP, hQ⟩ := hyp
    rcases append_singleton_eq_append_cons heq with ⟨rfl, rfl, -⟩ | ⟨post, rfl, rfl⟩
    · exact .inl hP
    · -- the `P` is one of the earlier events
      refine .inr ⟨⟨pre, a, post, rfl, hP, fun mid e' rest hmid => ?_⟩, hQ post e [] rfl⟩
      exact hQ mid e' (rest ++ [e]) (by rw [hmid, List.append_assoc, List.cons_append])
  · intro hor
    rcases hor with hP | ⟨⟨pre, a, post, rfl, hP, hQ⟩, hnQ⟩
    · exact ⟨h, e, [], rfl, hP, fun mid e' rest hmid => by simp at hmid⟩
    · refine ⟨pre, a, post ++ [e], by simp, hP, fun mid e' rest hmid => ?_⟩
      rcases append_singleton_eq_append_cons hmid with ⟨rfl, rfl, -⟩ | ⟨rest, rfl, rfl⟩
      · exact hnQ
      · exact hQ mid e' rest rfl

end Lib
