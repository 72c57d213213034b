/-
  File:      Rabbits/Lib/Lock.lean
  Subject:   Mutual exclusion, told by a trace: some events take a lock, some free it.

  * `Released` -- the lock has been freed since it was last taken; `TakenInTurn` -- it is whenever it
    is taken;
  * `takenInTurn_along` -- **mutual exclusion along every run**, where a step takes a lock only if
    nobody holds it, and a lock is lost by an event that frees it only.
-/
import Rabbits.Lib.Labelled

namespace Lib

universe u v w x

/-! ## 1. Traces -/

section Traces

variable {ε : Type w} {takes frees : ε → Prop} {trace : List ε} {e : ε}

/-- An event that frees the lock comes after each one that takes it. -/
def Released (takes frees : ε → Prop) (trace : List ε) : Prop :=
  ∀ before taken after, trace = before ++ taken :: after → takes taken → ∃ f ∈ after, frees f

/-- An event that frees the lock lies between any two that take it. -/
def TakenInTurn (takes frees : ε → Prop) (trace : List ε) : Prop :=
  ∀ before taken after, trace = before ++ taken :: after → takes taken → Released takes frees before

theorem released_nil : Released takes frees [] := by
  intro before taken after heq
  simp at heq

theorem takenInTurn_nil : TakenInTurn takes frees [] := by
  intro before taken after heq
  simp at heq

/-- Where an event of a longer trace stands: at its end, or earlier. -/
theorem eq_or_of_snoc {before after : List ε} {taken : ε}
    (h : trace ++ [e] = before ++ taken :: after) :
    (before = trace ∧ taken = e ∧ after = []) ∨
      ∃ rest, after = rest ++ [e] ∧ trace = before ++ taken :: rest := by
  rcases List.eq_nil_or_concat after with hnil | ⟨rest, last, hlast⟩
  · subst hnil
    obtain ⟨hbefore, htaken⟩ := List.append_inj' h rfl
    exact .inl ⟨hbefore.symm, (List.singleton_inj.mp htaken).symm, rfl⟩
  · subst hlast
    have happend : trace ++ [e] = (before ++ taken :: rest) ++ [last] := by simpa using h
    obtain ⟨htrace, hlast⟩ := List.append_inj' happend rfl
    cases hlast
    exact .inr ⟨rest, List.concat_eq_append, htrace⟩

/-- An event that does not take the lock leaves it released. -/
theorem Released.snoc (h : Released takes frees trace) (he : ¬ takes e) :
    Released takes frees (trace ++ [e]) := by
  intro before taken after heq htaken
  rcases eq_or_of_snoc heq with ⟨-, rfl, -⟩ | ⟨rest, rfl, htrace⟩
  · exact absurd htaken he
  · obtain ⟨f, hf, hfrees⟩ := h before taken rest htrace htaken
    exact ⟨f, List.mem_append_left [e] hf, hfrees⟩

/-- An event that frees the lock releases it. -/
theorem released_of_frees (he : ¬ takes e) (hfrees : frees e) :
    Released takes frees (trace ++ [e]) := by
  intro before taken after heq htaken
  rcases eq_or_of_snoc heq with ⟨-, rfl, -⟩ | ⟨rest, rfl, -⟩
  · exact absurd htaken he
  · exact ⟨e, List.mem_append_right rest (List.mem_singleton_self e), hfrees⟩

theorem TakenInTurn.snoc (h : TakenInTurn takes frees trace)
    (he : takes e → Released takes frees trace) : TakenInTurn takes frees (trace ++ [e]) := by
  intro before taken after heq htaken
  rcases eq_or_of_snoc heq with ⟨rfl, rfl, -⟩ | ⟨rest, -, htrace⟩
  · exact he htaken
  · exact h before taken rest htrace htaken

end Traces

/-! ## 2. Systems -/

section Systems

variable {σ : Type u} {α : Type v} {ε : Type w} {κ : Type x} {next : σ → α → Option σ}
  {event : σ → α → ε} {held : κ → σ → Prop} {takes frees : κ → ε → Prop}

/-- **Mutual exclusion**, for the locks `κ`, from what one step does. -/
theorem takenInTurn_along
    (htakes : ∀ k s l s', next s l = some s' → takes k (event s l) → ¬ held k s ∧ held k s')
    (hkeeps : ∀ k s l s', next s l = some s' → held k s → ¬ frees k (event s l) → held k s')
    (s : σ) (ls : List α) :
    Along (Traced.step next fun s l => [event s l])
      (fun t => ∀ k, TakenInTurn (takes k) (frees k) t.trace) ⟨s, []⟩ ls := by
  -- where nobody holds a lock, it has been released
  refine along_of_invariant
    (I := fun t : Traced σ ε => ∀ k, TakenInTurn (takes k) (frees k) t.trace ∧
      (¬ held k t.state → Released (takes k) (frees k) t.trace))
    (fun t h k => (h k).1) (fun t l t' h hl k => ?_)
    (fun k => ⟨takenInTurn_nil, fun _ => released_nil⟩) ls
  obtain ⟨hturn, hfree⟩ := h k
  obtain ⟨hnext, htrace⟩ := Traced.step_eq_some hl
  rw [htrace]
  refine ⟨hturn.snoc fun he => hfree (htakes k _ _ _ hnext he).1, fun hheld' => ?_⟩
  have he : ¬ takes k (event t.state l) := fun he => hheld' (htakes k _ _ _ hnext he).2
  by_cases hheld : held k t.state
  · have hfrees : frees k (event t.state l) :=
      Classical.byContradiction fun hf => hheld' (hkeeps k _ _ _ hnext hheld hf)
    exact released_of_frees he hfrees
  · exact (hfree hheld).snoc he

end Systems

end Lib
