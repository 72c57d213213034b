/-
  File:      Rabbits/Lib/Footprint.lean
  Subject:   Stateful code that reads and writes a known part of a memory.

  A `Layout` splits a state into a memory and the rest. `Touches L P R W f` says, for the states
  whose rest satisfies `P`: `f` does not fail, it leaves the rest and the memory outside `W` as
  they are, and in two states that agree on `R` it returns the same value and leaves memories
  that agree on `R`.

  * `Touches.pure`, `.bind`, `.bind_known`, `.ite`, `.andM`, `.orM`, `.forM` -- one rule for each
    way to build code;
  * `Touches.run`, `.keeps`, `.agree` -- what one run, and two runs, do;
  * `Touches.commute` -- **two pieces of code that do not write what the other reads commute**.
-/
import Mathlib.Data.Set.Function
import Mathlib.Data.Set.Lattice
import Mathlib.Order.CompletePartialOrder

namespace Lib

variable {σ ρ v w : Type} {α β : Type*}

/-- Once the first step is known to have run. -/
theorem run_bind_of {f : StateT σ Option v} {g : v → StateT σ Option w} {s s' : σ} {x : v}
    (h : f.run s = some (x, s')) : (f >>= g).run s = (g x).run s' := by
  rw [StateT.run_bind, h]
  rfl

/-- What has run in a run of two steps. -/
theorem run_bind_eq_some {f : StateT σ Option v} {g : v → StateT σ Option w} {s s'' : σ} {y : w}
    (h : (f >>= g).run s = some (y, s'')) :
    ∃ x s', f.run s = some (x, s') ∧ (g x).run s' = some (y, s'') := by
  rw [StateT.run_bind] at h
  obtain ⟨⟨x, s'⟩, hf, hg⟩ := Option.bind_eq_some_iff.mp h
  exact ⟨x, s', hf, hg⟩

/-- A state: a memory and the rest, which together determine it. -/
structure Layout (σ : Type) (α β : Type*) (ρ : Type) where
  mem : σ → α → β
  rest : σ → ρ
  ext : ∀ {s t : σ}, mem s = mem t → rest s = rest t → s = t

/-- From `s` to `s'` only the memory in `W` may have changed. -/
structure Layout.Keeps (L : Layout σ α β ρ) (W : Set α) (s s' : σ) : Prop where
  rest : L.rest s' = L.rest s
  mem : Set.EqOn (L.mem s') (L.mem s) Wᶜ

/-- `f` reads `R`, writes `W` and does not fail, wherever the rest of the state satisfies `P`. -/
def Touches (L : Layout σ α β ρ) (P : ρ → Prop) (R W : Set α) (f : StateT σ Option v) : Prop :=
  ∀ ⦃s t : σ⦄, P (L.rest s) → P (L.rest t) → Set.EqOn (L.mem s) (L.mem t) R →
    ∃ x s' t', f.run s = some (x, s') ∧ f.run t = some (x, t') ∧
      L.Keeps W s s' ∧ L.Keeps W t t' ∧ Set.EqOn (L.mem s') (L.mem t') R

namespace Layout.Keeps

variable {L : Layout σ α β ρ} {W : Set α}

theorem refl (s : σ) : L.Keeps W s s := ⟨rfl, fun _ _ => rfl⟩

theorem trans {s s' s'' : σ} (h : L.Keeps W s s') (h' : L.Keeps W s' s'') : L.Keeps W s s'' :=
  ⟨h'.rest.trans h.rest, h'.mem.trans h.mem⟩

/-- What `W` does not meet is unchanged. -/
theorem eqOn {R : Set α} {s s' : σ} (h : L.Keeps W s s') (hd : Disjoint W R) :
    Set.EqOn (L.mem s') (L.mem s) R :=
  h.mem.mono fun _ ha hw => Set.disjoint_left.mp hd hw ha

end Layout.Keeps

namespace Touches

variable {L : Layout σ α β ρ} {P : ρ → Prop} {R W : Set α}

/-! ## 1. How code is built -/

theorem pure (x : v) : Touches L P R W (Pure.pure x) :=
  fun s t _ _ hR => ⟨x, s, t, rfl, rfl, .refl s, .refl t, hR⟩

theorem bind {f : StateT σ Option v} {g : v → StateT σ Option w} (hf : Touches L P R W f)
    (hg : ∀ x, Touches L P R W (g x)) : Touches L P R W (f >>= g) := by
  intro s t hs ht hR
  obtain ⟨x, s', t', hfs, hft, ks, kt, hR'⟩ := hf hs ht hR
  obtain ⟨y, s'', t'', hgs, hgt, ks', kt', hR''⟩ :=
    hg x (ks.rest ▸ hs) (kt.rest ▸ ht) hR'
  refine ⟨y, s'', t'', ?_, ?_, ks.trans ks', kt.trans kt', hR''⟩
  · rw [run_bind_of hfs, hgs]
  · rw [run_bind_of hft, hgt]

/-- A first step that only reads what `P` fixes. -/
theorem bind_known {f : StateT σ Option v} {g : v → StateT σ Option w} (x : v)
    (hf : ∀ s, P (L.rest s) → f.run s = some (x, s)) (hg : Touches L P R W (g x)) :
    Touches L P R W (f >>= g) := by
  intro s t hs ht hR
  obtain ⟨y, s', t', hgs, hgt, hrest⟩ := hg hs ht hR
  refine ⟨y, s', t', ?_, ?_, hrest⟩
  · rw [run_bind_of (hf s hs), hgs]
  · rw [run_bind_of (hf t ht), hgt]

theorem ite {c : Prop} [Decidable c] {f g : StateT σ Option v} (hf : c → Touches L P R W f)
    (hg : ¬ c → Touches L P R W g) : Touches L P R W (if c then f else g) := by
  split
  · exact hf ‹c›
  · exact hg ‹¬ c›

theorem andM {f g : StateT σ Option Bool} (hf : Touches L P R W f) (hg : Touches L P R W g) :
    Touches L P R W (f <&&> g) :=
  bind hf fun b => by
    cases b with
    | false => exact pure false
    | true => exact hg

theorem orM {f g : StateT σ Option Bool} (hf : Touches L P R W f) (hg : Touches L P R W g) :
    Touches L P R W (f <||> g) :=
  bind hf fun b => by
    cases b with
    | false => exact hg
    | true => exact pure true

theorem forM {ι : Type*} {xs : List ι} {f : ι → StateT σ Option PUnit}
    (h : ∀ i ∈ xs, Touches L P R W (f i)) : Touches L P R W (xs.forM f) := by
  induction xs with
  | nil => exact pure _
  | cons i xs ih =>
      refine bind (h i List.mem_cons_self) fun _ => ih fun j hj => ?_
      exact h j (List.mem_cons_of_mem i hj)

/-! ## 2. What a run does -/

theorem run {f : StateT σ Option v} (hf : Touches L P R W f) {s : σ} (hs : P (L.rest s)) :
    ∃ x s', f.run s = some (x, s') ∧ L.Keeps W s s' := by
  obtain ⟨x, s', _, hfs, _, ks, _⟩ := hf hs hs fun _ _ => rfl
  exact ⟨x, s', hfs, ks⟩

theorem keeps {f : StateT σ Option v} (hf : Touches L P R W f) {s s' : σ} {x : v}
    (hs : P (L.rest s)) (hfs : f.run s = some (x, s')) : L.Keeps W s s' := by
  obtain ⟨y, t, ht, k⟩ := hf.run hs
  cases hfs.symm.trans ht
  exact k

/-- Two runs that both returned, from states that agree on `R`. -/
theorem agree {f : StateT σ Option v} (hf : Touches L P R W f) {s t s' t' : σ} {x y : v}
    (hs : P (L.rest s)) (ht : P (L.rest t)) (hR : Set.EqOn (L.mem s) (L.mem t) R)
    (hfs : f.run s = some (x, s')) (hft : f.run t = some (y, t')) :
    x = y ∧ Set.EqOn (L.mem s') (L.mem t') R := by
  obtain ⟨z, u, u', hu, hu', -, -, hR'⟩ := hf hs ht hR
  rw [hfs] at hu
  rw [hft] at hu'
  cases hu
  cases hu'
  exact ⟨rfl, hR'⟩

/-- **Code that does not write what the other reads commutes with it.** -/
theorem commute {R₁ W₁ R₂ W₂ : Set α} {f : StateT σ Option v} {g : StateT σ Option w}
    (hf : Touches L P R₁ W₁ f) (hg : Touches L P R₂ W₂ g) (h₁ : W₁ ⊆ R₁) (h₂ : W₂ ⊆ R₂)
    (h₁₂ : Disjoint W₁ R₂) (h₂₁ : Disjoint W₂ R₁) {s : σ} (hs : P (L.rest s)) :
    ∃ x y s₁ s₂ s', f.run s = some (x, s₁) ∧ g.run s₁ = some (y, s') ∧
      g.run s = some (y, s₂) ∧ f.run s₂ = some (x, s') := by
  obtain ⟨x, s₁, hfs, k₁⟩ := hf.run hs
  obtain ⟨y, s₂, hgs, k₂⟩ := hg.run hs
  have hs₁ : P (L.rest s₁) := k₁.rest ▸ hs
  have hs₂ : P (L.rest s₂) := k₂.rest ▸ hs
  obtain ⟨y', s₁₂, hgs₁, k₁₂⟩ := hg.run hs₁
  obtain ⟨x', s₂₁, hfs₂, k₂₁⟩ := hf.run hs₂
  obtain ⟨hy, hR₂⟩ := hg.agree hs₁ hs (k₁.eqOn h₁₂) hgs₁ hgs
  obtain ⟨hx, hR₁⟩ := hf.agree hs₂ hs (k₂.eqOn h₂₁) hfs₂ hfs
  have hmem : L.mem s₁₂ = L.mem s₂₁ := by
    funext a
    by_cases ha₁ : a ∈ W₁
    · -- the second code leaves `W₁` as the first one wrote it
      have ha₂ : a ∉ W₂ := fun ha => Set.disjoint_left.mp h₂₁ ha (h₁ ha₁)
      rw [k₁₂.mem ha₂, hR₁ (h₁ ha₁)]
    · rw [k₂₁.mem ha₁]
      by_cases ha₂ : a ∈ W₂
      · exact hR₂ (h₂ ha₂)
      · rw [k₁₂.mem ha₂, k₁.mem ha₁, k₂.mem ha₂]
  have hrest : L.rest s₁₂ = L.rest s₂₁ := by
    rw [k₁₂.rest, k₁.rest, k₂₁.rest, k₂.rest]
  subst hx hy
  cases L.ext hmem hrest
  exact ⟨x', y', s₁, s₂, s₁₂, hfs, hgs₁, hgs, hfs₂⟩

end Touches

end Lib
