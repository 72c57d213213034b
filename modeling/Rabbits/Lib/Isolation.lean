/-
  File:      Rabbits/Lib/Isolation.lean
  Subject:   Parties that share a system and do not see each other.

  `Same s t`: to one party the two states look alike. `shown` are the steps it takes or sees. The
  conditions on a single step are asked for where a run takes it only.

  * `Isolated` -- a step that is not shown changes nothing it sees, and a shown one can be taken
    wherever things look alike, and looks alike afterwards;
  * `Isolated.alone` -- **what a party sees of a run is the run of its own steps**;
  * `Isolated.interleavings` -- two runs with the same steps of a party look the same to it.
-/
import Rabbits.Lib.Labelled

namespace Lib

universe u v

variable {σ : Type u} {α : Type v}

/-- One step, for one party. -/
structure Isolated (next : σ → α → Option σ) (P : σ → α → Prop) (Same : σ → σ → Prop)
    (shown : α → Bool) : Prop where
  hidden : ∀ {s t s' l}, P s l → shown l = false → next s l = some s' → Same s t → Same s' t
  shown : ∀ {s t s' l}, P s l → shown l = true → next s l = some s' → Same s t →
    ∃ t', next t l = some t' ∧ Same s' t'

variable {next : σ → α → Option σ} {P : σ → α → Prop} {Same : σ → σ → Prop} {shown : α → Bool}

/-- **The run of its own steps**: it can take them alone, and it ends where the whole run does. -/
theorem Isolated.alone (h : Isolated next P Same shown) {s t s' : σ} {ls : List α}
    (hP : Steps next P s ls) (hrun : exec next s ls = some s') (hsame : Same s t) :
    ∃ t', exec next t (ls.filter shown) = some t' ∧ Same s' t' := by
  induction ls generalizing s t with
  | nil =>
      cases hrun
      exact ⟨t, rfl, hsame⟩
  | cons l ls ih =>
      obtain ⟨s₁, hs, hrest⟩ := exec_cons_eq_some hrun
      obtain ⟨hl, hP'⟩ := hP s₁ hs
      cases hshown : shown l with
      | false =>
          rw [List.filter_cons_of_neg (by simp [hshown])]
          exact ih hP' hrest (h.hidden hl hshown hs hsame)
      | true =>
          obtain ⟨t₁, ht, hsame₁⟩ := h.shown hl hshown hs hsame
          rw [List.filter_cons_of_pos hshown, exec_cons ht]
          exact ih hP' hrest hsame₁

/-- **Two interleavings** of the same steps of a party. -/
theorem Isolated.interleavings (h : Isolated next P Same shown) {s t t' : σ} {ls ls' : List α}
    (hP : Steps next P s ls) (hP' : Steps next P s ls') (hrun : exec next s ls = some t)
    (hrun' : exec next s ls' = some t') (hrefl : Same s s)
    (hfilter : ls.filter shown = ls'.filter shown) : ∃ u, Same t u ∧ Same t' u := by
  obtain ⟨u, hu, hsame⟩ := h.alone hP hrun hrefl
  obtain ⟨u', hu', hsame'⟩ := h.alone hP' hrun' hrefl
  rw [hfilter, hu'] at hu
  cases hu
  exact ⟨u, hsame, hsame'⟩

end Lib
