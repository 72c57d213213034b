/-
  File:      Rabbits/Lib/Recorded.lean
  Subject:   Code over a state that leaves a record of what it does.

  The record stays when the code ends the program.

  * `Recorded σ τ v` -- code over the states `σ` with a record of `τ`;
  * `erase` -- the code without its record; `erase_bind`, `erase_forM`, ... -- **one rule for each
    way to build code**;
  * `Stays`, `Strays`, `Halts` -- code that returns with a good record, leaves a bad one, or ends the
    program with a good one;
  * `Good`, `Leaves`, `Peeks` -- what is on record, and code that leaves its state;
  * `Safe` -- code whose record is good from every state; `good_bind_safe_iff`, `not_good_note`
    -- **the first step decides, where what follows is safe, or where its note is bad**;
  * `ok_bind_iff` -- the record behind a step that is known;
  * `forM_ok_iff` -- **the record of a loop is good if and only if no turn leaves a bad one**, where
    the turns that end the program come last.
-/
import Mathlib.Data.List.Basic

namespace Lib

variable {σ τ v w ι : Type}

/-- What a run leaves: its result and the state, `none` where it ended the program, and the record. -/
structure Recorded (σ τ v : Type) where
  run : σ → Option (v × σ) × List τ

namespace Recorded

/-! ## 1. How code is built -/

instance : Monad (Recorded σ τ) where
  pure x := ⟨fun s => (some (x, s), [])⟩
  bind f g := ⟨fun s =>
    match (f.run s).1 with
    | none => (none, (f.run s).2)
    | some (x, s') => (((g x).run s').1, (f.run s).2 ++ ((g x).run s').2)⟩

@[simp] theorem run_pure (x : v) (s : σ) : (pure x : Recorded σ τ v).run s = (some (x, s), []) := rfl

theorem run_bind_some {f : Recorded σ τ v} {g : v → Recorded σ τ w} {s s' : σ} {x : v}
    (h : (f.run s).1 = some (x, s')) :
    (f >>= g).run s = (((g x).run s').1, (f.run s).2 ++ ((g x).run s').2) := by
  simp only [bind, h]

theorem run_bind_none {f : Recorded σ τ v} {g : v → Recorded σ τ w} {s : σ}
    (h : (f.run s).1 = none) : (f >>= g).run s = (none, (f.run s).2) := by
  simp only [bind, h]

/-- A first step that leaves no record. -/
theorem run_bind_known {f : Recorded σ τ v} {g : v → Recorded σ τ w} {x : v} {s s' : σ}
    (h : f.run s = (some (x, s'), [])) : (f >>= g).run s = (g x).run s' := by
  have hres : (f.run s).1 = some (x, s') := by rw [h]
  rw [run_bind_some hres, h]
  rfl

/-- `e` goes on record. -/
def note (e : τ) : Recorded σ τ PUnit := ⟨fun s => (some (⟨⟩, s), [e])⟩

def look : Recorded σ τ σ := ⟨fun s => (some (s, s), [])⟩

def change (f : σ → σ) : Recorded σ τ PUnit := ⟨fun s => (some (⟨⟩, f s), [])⟩

/-- The program ends. -/
def stop : Recorded σ τ v := ⟨fun _ => (none, [])⟩

/-- `e` is on record. -/
def Leaves (f : Recorded σ τ v) (s : σ) (e : τ) : Prop := e ∈ (f.run s).2

theorem Leaves.bind_left {f : Recorded σ τ v} {s : σ} {e : τ} (he : f.Leaves s e)
    (g : v → Recorded σ τ w) : (f >>= g).Leaves s e := by
  rw [Leaves] at he ⊢
  cases h : (f.run s).1 with
  | none => rwa [run_bind_none h]
  | some p =>
      rw [run_bind_some h]
      exact List.mem_append_left _ he

/-! ## 2. The code without its record -/

def erase (f : Recorded σ τ v) : StateT σ Option v := fun s => (f.run s).1

theorem erase_pure (x : v) : (pure x : Recorded σ τ v).erase = pure x := rfl

theorem erase_bind (f : Recorded σ τ v) (g : v → Recorded σ τ w) :
    (f >>= g).erase = f.erase >>= fun x => (g x).erase := by
  funext s
  show ((f >>= g).run s).1 = (f.run s).1 >>= fun p => ((g p.1).run p.2).1
  cases h : (f.run s).1 with
  | none => rw [run_bind_none h]; rfl
  | some p => rw [run_bind_some h]; rfl

theorem erase_ite {c : Prop} [Decidable c] (f g : Recorded σ τ v) :
    (if c then f else g).erase = if c then f.erase else g.erase := by
  split <;> rfl

theorem erase_andM (f g : Recorded σ τ Bool) : (f <&&> g).erase = (f.erase <&&> g.erase) := by
  refine (erase_bind f _).trans ?_
  congr 1
  funext b
  cases b <;> rfl

theorem erase_orM (f g : Recorded σ τ Bool) : (f <||> g).erase = (f.erase <||> g.erase) := by
  refine (erase_bind f _).trans ?_
  congr 1
  funext b
  cases b <;> rfl

theorem erase_forM (xs : List ι) (f : ι → Recorded σ τ PUnit) :
    (forM xs f).erase = forM xs fun x => (f x).erase := by
  induction xs with
  | nil => rfl
  | cons x xs ih => rw [List.forM_cons, List.forM_cons, erase_bind, ih]

/-! ## 3. Good and bad records -/

variable {P : σ → Prop} {ok : τ → Prop}

/-- From a state with `P` the code returns to one, and its record is good. -/
def Stays (P : σ → Prop) (ok : τ → Prop) (f : Recorded σ τ v) : Prop :=
  ∀ s, P s → (∀ e ∈ (f.run s).2, ok e) ∧ ∃ x s', (f.run s).1 = some (x, s') ∧ P s'

/-- From a state with `P` the record is bad. -/
def Strays (P : σ → Prop) (ok : τ → Prop) (f : Recorded σ τ v) : Prop :=
  ∀ s, P s → ∃ e ∈ (f.run s).2, ¬ ok e

/-- From a state with `P` the code ends the program, with a good record. -/
def Halts (P : σ → Prop) (ok : τ → Prop) (f : Recorded σ τ v) : Prop :=
  ∀ s, P s → (∀ e ∈ (f.run s).2, ok e) ∧ (f.run s).1 = none

theorem Stays.pure (x : v) : Stays P ok (Pure.pure x : Recorded σ τ v) :=
  fun s hs => ⟨by simp, x, s, rfl, hs⟩

/-- From any state. -/
theorem Stays.all_ok {f : Recorded σ τ v} (hf : Stays (fun _ => True) ok f) {s : σ} :
    ∀ e ∈ (f.run s).2, ok e :=
  (hf s trivial).1

theorem Stays.bind {f : Recorded σ τ v} {g : v → Recorded σ τ w} (hf : Stays P ok f)
    (hg : ∀ x, Stays P ok (g x)) : Stays P ok (f >>= g) := by
  intro s hs
  obtain ⟨hok, x, s', hrun, hs'⟩ := hf s hs
  obtain ⟨hok', y, s'', hrun', hs''⟩ := hg x s' hs'
  rw [run_bind_some hrun]
  exact ⟨List.forall_mem_append.mpr ⟨hok, hok'⟩, y, s'', hrun', hs''⟩

theorem Stays.ite {c : Prop} [Decidable c] {f g : Recorded σ τ v} (hf : c → Stays P ok f)
    (hg : ¬ c → Stays P ok g) : Stays P ok (if c then f else g) := by
  split
  · exact hf ‹c›
  · exact hg ‹¬ c›

theorem Stays.andM {f g : Recorded σ τ Bool} (hf : Stays P ok f) (hg : Stays P ok g) :
    Stays P ok (f <&&> g) :=
  hf.bind fun b => by
    cases b with
    | false => exact .pure false
    | true => exact hg

theorem Stays.orM {f g : Recorded σ τ Bool} (hf : Stays P ok f) (hg : Stays P ok g) :
    Stays P ok (f <||> g) :=
  hf.bind fun b => by
    cases b with
    | false => exact hg
    | true => exact .pure true

theorem Stays.forM {xs : List ι} {f : ι → Recorded σ τ PUnit} (h : ∀ x ∈ xs, Stays P ok (f x)) :
    Stays P ok (forM xs f) := by
  induction xs with
  | nil => exact .pure _
  | cons x xs ih =>
      rw [List.forM_cons]
      exact (h x List.mem_cons_self).bind fun _ => ih fun y hy => h y (List.mem_cons_of_mem x hy)

/-- A bad record stays bad. -/
theorem Strays.bind_left {f : Recorded σ τ v} (hf : Strays P ok f) (g : v → Recorded σ τ w) :
    Strays P ok (f >>= g) := by
  intro s hs
  obtain ⟨e, he, hbad⟩ := hf s hs
  exact ⟨e, Leaves.bind_left he g, hbad⟩

theorem Stays.returns {f : Recorded σ τ v} (hf : Stays P ok f) : Stays P (fun _ => True) f :=
  fun s hs => ⟨fun _ _ => trivial, (hf s hs).2⟩

/-- A bad record behind code that returns, whatever that leaves. -/
theorem Strays.bind_right {f : Recorded σ τ v} {g : v → Recorded σ τ w}
    (hf : Stays P (fun _ => True) f) (hg : ∀ x, Strays P ok (g x)) : Strays P ok (f >>= g) := by
  intro s hs
  obtain ⟨-, x, s', hrun, hs'⟩ := hf s hs
  obtain ⟨e, he, hbad⟩ := hg x s' hs'
  rw [run_bind_some hrun]
  exact ⟨e, List.mem_append_right _ he, hbad⟩

theorem Halts.bind_left {f : Recorded σ τ v} (hf : Halts P ok f) (g : v → Recorded σ τ w) :
    Halts P ok (f >>= g) := by
  intro s hs
  obtain ⟨hok, hnone⟩ := hf s hs
  rw [run_bind_none hnone]
  exact ⟨hok, rfl⟩

section Known

variable {f : Recorded σ τ v} {g : v → Recorded σ τ w} (x : v)
  (hf : ∀ s, P s → f.run s = (some (x, s), []))
include hf

theorem Stays.bind_known (hg : Stays P ok (g x)) : Stays P ok (f >>= g) := by
  intro s hs
  rw [run_bind_known (hf s hs)]
  exact hg s hs

theorem Strays.bind_known (hg : Strays P ok (g x)) : Strays P ok (f >>= g) := by
  intro s hs
  rw [run_bind_known (hf s hs)]
  exact hg s hs

end Known

/-- Behind a first step with a good record. -/
theorem ok_bind_iff {f : Recorded σ τ v} {g : v → Recorded σ τ w} {s s' : σ} {x : v}
    (h : f.erase s = some (x, s')) (hok : ∀ e ∈ (f.run s).2, ok e) :
    (∀ e ∈ ((f >>= g).run s).2, ok e) ↔ ∀ e ∈ ((g x).run s').2, ok e := by
  rw [run_bind_some h, List.forall_mem_append, and_iff_right hok]

/-- Code that returns with a good record can be left out behind a step. -/
theorem ok_bind_stays_iff {f : Recorded σ τ v} {g : v → Recorded σ τ w} {s : σ}
    (hg : ∀ x, Stays (fun _ => True) ok (g x)) :
    (∀ e ∈ ((f >>= g).run s).2, ok e) ↔ ∀ e ∈ (f.run s).2, ok e := by
  cases h : (f.run s).1 with
  | none => rw [run_bind_none h]
  | some p =>
      rw [run_bind_some h, List.forall_mem_append]
      exact and_iff_left (hg p.1 p.2 trivial).1

/-! ## 4. Code that only reads -/

/-- From `s` the record is good. -/
def Good (ok : τ → Prop) (f : Recorded σ τ v) (s : σ) : Prop := ∀ e ∈ (f.run s).2, ok e

/-- From `s` the record is good, and code that returns leaves `s` as it is. -/
def Peeks (ok : τ → Prop) (f : Recorded σ τ v) (s : σ) : Prop :=
  f.Good ok s ∧ ∀ x s', (f.run s).1 = some (x, s') → s' = s

section Peeks

variable {s : σ}

theorem Peeks.pure (x : v) : Peeks ok (Pure.pure x : Recorded σ τ v) s := by
  refine ⟨by simp [Good], fun y s' h => ?_⟩
  cases h
  rfl

/-- The second step is looked at behind what the first one returned. -/
theorem Peeks.bind {f : Recorded σ τ v} {g : v → Recorded σ τ w} (hf : Peeks ok f s)
    (hg : ∀ x, (f.run s).1 = some (x, s) → Peeks ok (g x) s) : Peeks ok (f >>= g) s := by
  cases h : (f.run s).1 with
  | none =>
      refine ⟨?_, fun y s' hy => ?_⟩
      · rw [Good, run_bind_none h]
        exact hf.1
      · rw [run_bind_none h] at hy
        cases hy
  | some p =>
      obtain ⟨x, s'⟩ := p
      obtain rfl : s' = s := hf.2 x s' h
      rw [Peeks, Good, run_bind_some h]
      exact ⟨List.forall_mem_append.mpr ⟨hf.1, (hg x h).1⟩, (hg x h).2⟩

theorem Peeks.ite {c : Prop} [Decidable c] {f g : Recorded σ τ v} (hf : c → Peeks ok f s)
    (hg : ¬ c → Peeks ok g s) : Peeks ok (if c then f else g) s := by
  split
  · exact hf ‹c›
  · exact hg ‹¬ c›

theorem Peeks.andM {f g : Recorded σ τ Bool} (hf : Peeks ok f s)
    (hg : (f.run s).1 = some (true, s) → Peeks ok g s) : Peeks ok (f <&&> g) s :=
  hf.bind fun b hb => by
    cases b with
    | false => exact .pure false
    | true => exact hg hb

theorem Peeks.orM {f g : Recorded σ τ Bool} (hf : Peeks ok f s)
    (hg : (f.run s).1 = some (false, s) → Peeks ok g s) : Peeks ok (f <||> g) s :=
  hf.bind fun b hb => by
    cases b with
    | false => exact hg hb
    | true => exact .pure true

/-- Behind code that only reads. -/
theorem Peeks.bind_good {f : Recorded σ τ v} {g : v → Recorded σ τ w} (hf : Peeks ok f s)
    (hg : ∀ x, (g x).Good ok s) : (f >>= g).Good ok s := by
  rw [Good]
  cases h : (f.run s).1 with
  | none =>
      rw [run_bind_none h]
      exact hf.1
  | some p =>
      rw [run_bind_some h, List.forall_mem_append, hf.2 p.1 p.2 h]
      exact ⟨hf.1, hg p.1⟩

theorem Leaves.bind_right {f : Recorded σ τ v} {g : v → Recorded σ τ w} {s' : σ} {x : v} {e : τ}
    (h : f.erase s = some (x, s')) (he : (g x).Leaves s' e) : (f >>= g).Leaves s e := by
  rw [Leaves, run_bind_some h]
  exact List.mem_append_right _ he

end Peeks

/-! ## 5. Code that is safe from every state -/

/-- The record is good from every state. -/
def Safe (ok : τ → Prop) (f : Recorded σ τ v) : Prop := ∀ s, f.Good ok s

namespace Safe

theorem pure (x : v) : Safe ok (Pure.pure x : Recorded σ τ v) := fun s => by simp [Good]

theorem look : Safe ok (Recorded.look : Recorded σ τ σ) := fun _ _ he => by cases he

theorem change (f : σ → σ) : Safe ok (Recorded.change f : Recorded σ τ PUnit) :=
  fun _ _ he => by cases he

theorem stop : Safe ok (Recorded.stop : Recorded σ τ v) := fun _ _ he => by cases he

theorem note {e : τ} (he : ok e) : Safe ok (Recorded.note e : Recorded σ τ PUnit) :=
  fun _ _ he' => List.mem_singleton.mp he' ▸ he

theorem bind {f : Recorded σ τ v} {g : v → Recorded σ τ w} (hf : Safe ok f)
    (hg : ∀ x, Safe ok (g x)) : Safe ok (f >>= g) := by
  intro s
  rw [Good]
  cases h : (f.run s).1 with
  | none =>
      rw [run_bind_none h]
      exact hf s
  | some p =>
      rw [run_bind_some h, List.forall_mem_append]
      exact ⟨hf s, hg p.1 p.2⟩

theorem ite {c : Prop} [Decidable c] {f g : Recorded σ τ v} (hf : c → Safe ok f)
    (hg : ¬ c → Safe ok g) : Safe ok (if c then f else g) := by
  split
  · exact hf ‹c›
  · exact hg ‹¬ c›

theorem forM {xs : List ι} {f : ι → Recorded σ τ PUnit} (h : ∀ x ∈ xs, Safe ok (f x)) :
    Safe ok (forM xs f) := by
  induction xs with
  | nil => exact .pure _
  | cons x xs ih =>
      rw [List.forM_cons]
      exact (h x List.mem_cons_self).bind fun _ => ih fun y hy => h y (List.mem_cons_of_mem x hy)

end Safe

theorem good_bind_safe_iff {f : Recorded σ τ v} {g : v → Recorded σ τ w} {s : σ}
    (hg : ∀ x, Safe ok (g x)) : (f >>= g).Good ok s ↔ f.Good ok s := by
  rw [Good, Good]
  cases h : (f.run s).1 with
  | none => rw [run_bind_none h]
  | some p =>
      rw [run_bind_some h, List.forall_mem_append]
      exact and_iff_left (hg p.1 p.2)

theorem good_look_bind {g : σ → Recorded σ τ w} {s : σ} :
    (look >>= g).Good ok s ↔ (g s).Good ok s := Iff.rfl

/-- A bad first note. -/
theorem not_good_note {e : τ} (he : ¬ ok e) (g : PUnit → Recorded σ τ w) (s : σ) :
    ¬ (note e >>= g).Good ok s :=
  fun h => he (h e (Leaves.bind_left (List.mem_singleton.mpr rfl) g))

/-! ## 6. Loops -/

/-- **The record of a loop is good if and only if no turn leaves a bad one**: the other turns return,
    or end the program behind all bad ones. -/
theorem forM_ok_iff {bad stop : ι → Prop} {xs : List ι} {f : ι → Recorded σ τ PUnit}
    (hstays : ∀ x ∈ xs, ¬ bad x → ¬ stop x → Stays P ok (f x))
    (hstrays : ∀ x ∈ xs, bad x → Strays P ok (f x))
    (hhalts : ∀ x ∈ xs, stop x → Halts P ok (f x))
    (hlast : xs.Pairwise fun x y => stop x → ¬ bad y) {s : σ} (hs : P s) :
    (∀ e ∈ ((forM xs f).run s).2, ok e) ↔ ∀ x ∈ xs, ¬ bad x := by
  induction xs generalizing s with
  | nil =>
      exact iff_of_true (fun e he => absurd he List.not_mem_nil) fun x hx =>
        absurd hx List.not_mem_nil
  | cons x xs ih =>
      obtain ⟨hlater, hlast⟩ := List.pairwise_cons.mp hlast
      rw [List.forM_cons, List.forall_mem_cons]
      by_cases hbad : bad x
      · obtain ⟨e, he, hne⟩ := (hstrays x List.mem_cons_self hbad).bind_left (fun _ => forM xs f) s hs
        exact iff_of_false (fun hok => hne (hok e he)) fun hall => hall.1 hbad
      · rw [and_iff_right hbad]
        by_cases hstop : stop x
        · obtain ⟨hok, hnone⟩ := (hhalts x List.mem_cons_self hstop).bind_left (fun _ => forM xs f) s hs
          exact iff_of_true hok fun y hy => hlater y hy hstop
        · obtain ⟨hok, y, s', hrun, hs'⟩ := hstays x List.mem_cons_self hbad hstop s hs
          rw [run_bind_some hrun, List.forall_mem_append, and_iff_right hok]
          exact ih (fun y hy => hstays y (List.mem_cons_of_mem x hy))
            (fun y hy => hstrays y (List.mem_cons_of_mem x hy))
            (fun y hy => hhalts y (List.mem_cons_of_mem x hy)) hlast hs'

end Recorded

end Lib
