/-
  File:      Rabbits/Lib/Labelled.lean
  Subject:   Deterministic systems with labelled steps: runs, what holds along a run, and traces.

  `next s l` is the state after label `l`, `none` when `l` cannot happen in `s`.

  * `exec` -- the state after a list of labels; `exec_append`, `exec_invariant`, `exec_invariant_of`;
  * `exec_appends` -- what the steps append; `exec_length_add_le`, `exists_exec_to_end` -- labels that
    lower a rank come to an end;
  * `Along Q`, `Steps P` -- `Q` holds in every state a run reaches, `P` where each step is taken;
  * `along_of_steps`, `steps_of_steps`, `along_iff_steps`, `along_and_steps_iff`, `steps_iff_steps`
    -- **from what one step does to what a run does**, for its states, for its steps, and as an
    equivalence;
  * `Traced` -- the system with the list of what its steps do next to it; `Observed` -- the system
    with an observer, who sees the label of each step and the states around it;
  * `exec_filter_view` -- **labels that a view does not show change nothing it shows**.
-/

namespace Lib

universe u v w x

variable {σ : Type u} {α : Type v} {ε : Type w} (next : σ → α → Option σ)

/-! ## 1. Runs -/

/-- The state after a list of labels. -/
def exec (s : σ) : List α → Option σ
  | [] => some s
  | l :: ls => (next s l).bind (exec · ls)

@[simp] theorem exec_nil (s : σ) : exec next s [] = some s := rfl

variable {next}

theorem exec_cons {s s' : σ} {l : α} (h : next s l = some s') (ls : List α) :
    exec next s (l :: ls) = exec next s' ls := by
  simp [exec, h]

theorem exec_cons_eq_some {s t : σ} {l : α} {ls : List α} (h : exec next s (l :: ls) = some t) :
    ∃ s', next s l = some s' ∧ exec next s' ls = some t := Option.bind_eq_some_iff.mp h

theorem exec_append {s t : σ} {ls : List α} (h : exec next s ls = some t) (ls' : List α) :
    exec next s (ls ++ ls') = exec next t ls' := by
  induction ls generalizing s with
  | nil =>
      cases h
      rfl
  | cons l ls ih =>
      obtain ⟨s', hs, ht⟩ := exec_cons_eq_some h
      rw [List.cons_append, exec_cons hs, ih ht]

/-- **The invariant rule.** -/
theorem exec_invariant {I : σ → Prop} (hstep : ∀ s l s', I s → next s l = some s' → I s')
    {s t : σ} {ls : List α} (hs : I s) (h : exec next s ls = some t) : I t := by
  induction ls generalizing s with
  | nil =>
      cases h
      exact hs
  | cons l ls ih =>
      obtain ⟨s', hl, ht⟩ := exec_cons_eq_some h
      exact ih (hstep s l s' hs hl) ht

/-- The invariant rule for runs of some of the labels. -/
theorem exec_invariant_of {I : σ → Prop} {A : α → Prop}
    (hstep : ∀ s l s', I s → A l → next s l = some s' → I s') {s t : σ} {ls : List α}
    (hA : ∀ l ∈ ls, A l) (hs : I s) (h : exec next s ls = some t) : I t := by
  induction ls generalizing s with
  | nil =>
      cases h
      exact hs
  | cons l ls ih =>
      obtain ⟨s', hl, ht⟩ := exec_cons_eq_some h
      exact ih (fun k hk => hA k (List.mem_cons_of_mem l hk))
        (hstep s l s' hs (hA l List.mem_cons_self) hl) ht

/-- What every step appends, a run appends in its order. -/
theorem exec_appends {g : σ → List ε} {f : α → List ε}
    (hstep : ∀ s l s', next s l = some s' → g s' = g s ++ f l) {s t : σ} {ls : List α}
    (h : exec next s ls = some t) : g t = g s ++ ls.flatMap f := by
  induction ls generalizing s with
  | nil =>
      cases h
      rw [List.flatMap_nil, List.append_nil]
  | cons l ls ih =>
      obtain ⟨s', hl, ht⟩ := exec_cons_eq_some h
      rw [ih ht, hstep s l s' hl, List.flatMap_cons, List.append_assoc]

section Rank

variable {A : α → Prop} (rank : σ → Nat)
  (hfall : ∀ s l s', A l → next s l = some s' → rank s' < rank s)
include hfall

/-- A run of labels that lower the rank is at most as long as the rank it starts with. -/
theorem exec_length_add_le {s t : σ} {ls : List α} (hA : ∀ l ∈ ls, A l)
    (h : exec next s ls = some t) : rank t + ls.length ≤ rank s := by
  induction ls generalizing s with
  | nil =>
      cases h
      exact Nat.le_refl _
  | cons l ls ih =>
      obtain ⟨s', hl, ht⟩ := exec_cons_eq_some h
      have hrest := ih (fun k hk => hA k (List.mem_cons_of_mem l hk)) ht
      have hlt := hfall s l s' (hA l List.mem_cons_self) hl
      rw [List.length_cons]
      omega

/-- Some run of them cannot go on. -/
theorem exists_exec_to_end (s : σ) :
    ∃ ls t, (∀ l ∈ ls, A l) ∧ exec next s ls = some t ∧ ∀ l, A l → next t l = none := by
  induction hn : rank s using Nat.strongRecOn generalizing s with
  | ind n ih =>
      by_cases hend : ∀ l, A l → next s l = none
      · exact ⟨[], s, nofun, rfl, hend⟩
      · obtain ⟨l, hl⟩ := Classical.not_forall.mp hend
        obtain ⟨hAl, hne⟩ := Classical.not_imp.mp hl
        obtain ⟨s', hs⟩ := Option.ne_none_iff_exists'.mp hne
        obtain ⟨ls, t, hA, hrun, ht⟩ := ih _ (hn ▸ hfall s l s' hAl hs) s' rfl
        exact ⟨l :: ls, t, List.forall_mem_cons.mpr ⟨hAl, hA⟩, (exec_cons hs ls).trans hrun, ht⟩

end Rank

/-! ## 2. Every state and every step of a run -/

variable (next)

/-- `Q` holds in every state that the labels reach, the first one included. -/
def Along (Q : σ → Prop) (s : σ) : List α → Prop
  | [] => Q s
  | l :: ls => Q s ∧ ∀ s', next s l = some s' → Along Q s' ls

/-- `P` holds of the state and the label of every step. -/
def Steps (P : σ → α → Prop) (s : σ) : List α → Prop
  | [] => True
  | l :: ls => ∀ s', next s l = some s' → P s l ∧ Steps P s' ls

/-- A condition on steps that can be checked can be checked along a run. -/
instance decidableSteps (P : σ → α → Prop) [∀ s l, Decidable (P s l)] :
    ∀ (s : σ) (ls : List α), Decidable (Steps next P s ls)
  | _, [] => .isTrue trivial
  | s, l :: ls =>
      match h : next s l with
      | none => .isTrue fun s' hl => by rw [h] at hl; cases hl
      | some s' =>
          have := decidableSteps P s' ls
          decidable_of_iff (P s l ∧ Steps next P s' ls)
            ⟨fun hyp t ht => Option.some.inj (h.symm.trans ht) ▸ hyp, fun hyp => hyp s' h⟩

variable {next} {P : σ → α → Prop} {Q I : σ → Prop}

theorem Along.head {s : σ} {ls : List α} (h : Along next Q s ls) : Q s := by
  cases ls with
  | nil => exact h
  | cons l ls => exact h.1

theorem Steps.cons {s s' : σ} {l : α} {ls : List α} (hl : next s l = some s') (hP : P s l)
    (h : Steps next P s' ls) : Steps next P s (l :: ls) := by
  intro t ht
  cases hl.symm.trans ht
  exact ⟨hP, h⟩

theorem steps_cons_iff {s s' : σ} {l : α} {ls : List α} (hl : next s l = some s') :
    Steps next P s (l :: ls) ↔ P s l ∧ Steps next P s' ls :=
  ⟨fun h => h s' hl, fun h => .cons hl h.1 h.2⟩

/-- A condition on the labels, where every label can happen in every state. -/
theorem steps_iff_forall (hnext : ∀ s l, ∃ s', next s l = some s') {A : α → Prop} (s : σ)
    (ls : List α) : Steps next (fun _ l => A l) s ls ↔ ∀ l ∈ ls, A l := by
  induction ls generalizing s with
  | nil => simp [Steps]
  | cons l ls ih =>
      obtain ⟨s', hs⟩ := hnext s l
      rw [steps_cons_iff hs, ih, List.forall_mem_cons]

theorem Along.mono {s : σ} {ls : List α} (hQ : ∀ s, Q s → I s) (h : Along next Q s ls) :
    Along next I s ls := by
  induction ls generalizing s with
  | nil => exact hQ s h
  | cons l ls ih => exact ⟨hQ s h.1, fun s' hl => ih (h.2 s' hl)⟩

/-- What holds along a run holds at its end. -/
theorem Along.last {s t : σ} {ls : List α} (h : Along next Q s ls) (hrun : exec next s ls = some t) :
    Q t := by
  induction ls generalizing s with
  | nil =>
      cases hrun
      exact h
  | cons l ls ih =>
      obtain ⟨s', hs, ht⟩ := exec_cons_eq_some hrun
      exact ih (h.2 s' hs) ht

/-- The last step of a run is one of its steps. -/
theorem Steps.last {s t t' : σ} {ls : List α} {l : α} (h : Steps next P s (ls ++ [l]))
    (hrun : exec next s ls = some t) (hl : next t l = some t') : P t l := by
  induction ls generalizing s with
  | nil =>
      cases hrun
      exact (h t' hl).1
  | cons k ls ih =>
      obtain ⟨s', hs, ht⟩ := exec_cons_eq_some hrun
      exact ih (h s' hs).2 ht

/-- **An invariant holds along every run.** -/
theorem along_of_invariant (hQ : ∀ s, I s → Q s)
    (hstep : ∀ s l s', I s → next s l = some s' → I s') {s : σ} (hs : I s) (ls : List α) :
    Along next Q s ls := by
  induction ls generalizing s with
  | nil => exact hQ s hs
  | cons l ls ih => exact ⟨hQ s hs, fun s' hl => ih (hstep s l s' hs hl)⟩

/-- **Steps that meet the condition keep the property.** -/
theorem along_of_steps (hQ : ∀ s, I s → Q s)
    (hstep : ∀ s l s', I s → P s l → next s l = some s' → I s') {s : σ} {ls : List α} (hs : I s)
    (h : Steps next P s ls) : Along next Q s ls := by
  induction ls generalizing s with
  | nil => exact hQ s hs
  | cons l ls ih => exact ⟨hQ s hs, fun s' hl => ih (hstep s l s' hs (h s' hl).1 hl) (h s' hl).2⟩

/-- The same for a condition on the labels. -/
theorem along_of_labels {A : α → Prop} (hQ : ∀ s, I s → Q s)
    (hstep : ∀ s l s', I s → A l → next s l = some s' → I s') {s : σ} {ls : List α} (hs : I s)
    (hA : ∀ l ∈ ls, A l) : Along next Q s ls := by
  induction ls generalizing s with
  | nil => exact hQ s hs
  | cons l ls ih =>
      exact ⟨hQ s hs, fun s' hl => ih (hstep s l s' hs (hA l List.mem_cons_self) hl)
        fun k hk => hA k (List.mem_cons_of_mem l hk)⟩

/-- **Steps that meet the condition are good steps**, from what one step does and keeps. -/
theorem steps_of_steps {R : σ → α → Prop} (hR : ∀ s l s', I s → P s l → next s l = some s' → R s l)
    (hstep : ∀ s l s', I s → P s l → next s l = some s' → I s') {s : σ} {ls : List α} (hs : I s)
    (h : Steps next P s ls) : Steps next R s ls := by
  induction ls generalizing s with
  | nil => trivial
  | cons l ls ih =>
      intro s' hl
      obtain ⟨hP, hrest⟩ := h s' hl
      exact ⟨hR s l s' hs hP hl, ih (hstep s l s' hs hP hl) hrest⟩

/-- **The exact condition**: when a step that does not meet it loses the property at once. -/
theorem along_iff_steps (hQ : ∀ s, I s → Q s)
    (hgood : ∀ s l s', I s → P s l → next s l = some s' → I s')
    (hbad : ∀ s l s', I s → ¬ P s l → next s l = some s' → ¬ Q s') {s : σ} (ls : List α)
    (hs : I s) : Along next Q s ls ↔ Steps next P s ls := by
  refine ⟨fun h => ?_, along_of_steps hQ hgood hs⟩
  induction ls generalizing s with
  | nil => trivial
  | cons l ls ih =>
      intro s' hl
      have hP : P s l := Classical.byContradiction fun hP => hbad s l s' hs hP hl (h.2 s' hl).head
      exact ⟨hP, ih (hgood s l s' hs hP hl) (h.2 s' hl)⟩

/-- **The exact condition**, for the states and the steps of a run together. -/
theorem along_and_steps_iff {R : σ → α → Prop} (hQ : ∀ s, I s → Q s)
    (hgood : ∀ s l s', I s → P s l → next s l = some s' → R s l ∧ I s')
    (hbad : ∀ s l s', I s → ¬ P s l → next s l = some s' → ¬ (R s l ∧ Q s')) {s : σ} (ls : List α)
    (hs : I s) : Steps next R s ls ∧ Along next Q s ls ↔ Steps next P s ls := by
  constructor
  · intro h
    obtain ⟨hR, hA⟩ := h
    induction ls generalizing s with
    | nil => trivial
    | cons l ls ih =>
        intro s' hl
        obtain ⟨hr, hR'⟩ := hR s' hl
        have hA' := hA.2 s' hl
        have hP : P s l :=
          Classical.byContradiction fun hP => hbad s l s' hs hP hl ⟨hr, hA'.head⟩
        exact ⟨hP, ih (hgood s l s' hs hP hl).2 hR' hA'⟩
  · intro h
    exact ⟨steps_of_steps (fun s l s' hi hp hl => (hgood s l s' hi hp hl).1)
        (fun s l s' hi hp hl => (hgood s l s' hi hp hl).2) hs h,
      along_of_steps hQ (fun s l s' hi hp hl => (hgood s l s' hi hp hl).2) hs h⟩

/-- **Two conditions on steps that agree**, from what one step keeps. -/
theorem steps_iff_steps {R : σ → α → Prop} {A : α → Prop}
    (hstep : ∀ s l s', I s → A l → next s l = some s' → (R s l ↔ P s l) ∧ I s') {s : σ}
    {ls : List α} (hA : ∀ l ∈ ls, A l) (hs : I s) : Steps next R s ls ↔ Steps next P s ls := by
  induction ls generalizing s with
  | nil => exact Iff.rfl
  | cons l ls ih =>
      refine forall_congr' fun s' => imp_congr_right fun hl => ?_
      obtain ⟨hiff, hs'⟩ := hstep s l s' hs (hA l List.mem_cons_self) hl
      exact and_congr hiff (ih (fun k hk => hA k (List.mem_cons_of_mem l hk)) hs')

/-! ## 3. Views -/

/-- **Non-interference**: two states with one view, and a run without the labels that keep the view;
    every other label can happen in both states or in neither, and keeps the views equal. -/
theorem exec_filter_view {β : Type x} (view : σ → β) (shown : α → Bool)
    (hview : ∀ s t l, view s = view t → shown l → (next s l).map view = (next t l).map view)
    (hhidden : ∀ s l, shown l = false → (next s l).map view = some (view s)) {s t : σ}
    (h : view s = view t) (ls : List α) :
    (exec next s ls).map view = (exec next t (ls.filter shown)).map view := by
  induction ls generalizing s t with
  | nil => exact congrArg some h
  | cons l ls ih =>
      cases hl : shown l with
      | false =>
          obtain ⟨s', hs, hs'⟩ := Option.map_eq_some_iff.mp (hhidden s l hl)
          rw [List.filter_cons_of_neg (by simp [hl]), exec_cons hs]
          exact ih (hs'.trans h)
      | true =>
          have hst := hview s t l h hl
          rw [List.filter_cons_of_pos hl]
          cases hs : next s l with
          | none =>
              rw [hs] at hst
              have ht : next t l = none := Option.map_eq_none_iff.mp hst.symm
              simp [exec, hs, ht]
          | some s' =>
              rw [hs] at hst
              obtain ⟨t', ht, ht'⟩ := Option.map_eq_some_iff.mp hst.symm
              rw [exec_cons hs, exec_cons ht]
              exact ih ht'.symm

/-- A state, and what the steps to it have done. -/
structure Traced (σ : Type u) (ε : Type w) where
  state : σ
  trace : List ε

/-- The step of the traced system: `event` says what a step does. -/
def Traced.step (next : σ → α → Option σ) (event : σ → α → List ε) (s : Traced σ ε) (l : α) :
    Option (Traced σ ε) :=
  (next s.state l).map fun s' => ⟨s', s.trace ++ event s.state l⟩

theorem Traced.step_eq_some {event : σ → α → List ε} {s s' : Traced σ ε} {l : α}
    (h : Traced.step next event s l = some s') :
    next s.state l = some s'.state ∧ s'.trace = s.trace ++ event s.state l := by
  obtain ⟨t, ht, rfl⟩ := Option.map_eq_some_iff.mp h
  exact ⟨ht, rfl⟩

/-- A run, traced: what its steps have done comes behind. -/
theorem exec_traced (event : σ → α → List ε) {s t : σ} {ls : List α} (h : exec next s ls = some t)
    (tr : List ε) : ∃ tr', exec (Traced.step next event) ⟨s, tr⟩ ls = some ⟨t, tr ++ tr'⟩ ∧
      ∀ x ∈ tr', ∃ s', ∃ l ∈ ls, x ∈ event s' l := by
  induction ls generalizing s tr with
  | nil =>
      cases h
      exact ⟨[], by rw [List.append_nil]; rfl, by simp⟩
  | cons l ls ih =>
      obtain ⟨s', hs, ht⟩ := exec_cons_eq_some h
      obtain ⟨tr', hrun, hmem⟩ := ih ht (tr ++ event s l)
      have hstep : Traced.step next event ⟨s, tr⟩ l = some ⟨s', tr ++ event s l⟩ := by
        simp only [Traced.step, hs, Option.map_some]
      refine ⟨event s l ++ tr', by rw [exec_cons hstep, hrun, List.append_assoc], fun x hx => ?_⟩
      rcases List.mem_append.mp hx with hx | hx
      · exact ⟨s, l, List.mem_cons_self, hx⟩
      · obtain ⟨s'', k, hk, hx'⟩ := hmem x hx
        exact ⟨s'', k, List.mem_cons_of_mem l hk, hx'⟩

/-! ## 5. Observers -/

/-- A state, and what an observer of the run has noted. -/
structure Observed (σ : Type u) (ω : Type w) where
  state : σ
  seen : ω

/-- The step of the observed system: `see` adds what the label and the states around it show. -/
def Observed.step {ω : Type w} (next : σ → α → Option σ) (see : ω → σ → α → σ → ω)
    (s : Observed σ ω) (l : α) : Option (Observed σ ω) :=
  (next s.state l).map fun s' => ⟨s', see s.seen s.state l s'⟩

theorem Observed.step_eq_some {ω : Type w} {see : ω → σ → α → σ → ω} {s s' : Observed σ ω} {l : α}
    (h : Observed.step next see s l = some s') :
    next s.state l = some s'.state ∧ s'.seen = see s.seen s.state l s'.state := by
  obtain ⟨t, ht, rfl⟩ := Option.map_eq_some_iff.mp h
  exact ⟨ht, rfl⟩

end Lib
