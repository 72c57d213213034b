/-
  File:      Rabbits/Lib/ArrayCode.lean
  Subject:   Code over arrays that nobody checks, with the indices that it touches.

  An array is a map from all indices to cells: an access at an index past its size takes place like
  any other one, and is on record.

  * `ArrayCode ι β v` -- code over the arrays `ι`, which returns a `v` or ends the program;
  * `load`, `store` -- the access to some consecutive cells of an array;
  * `store_append`, `forM_store` -- consecutive stores are one store;
  * `Inside` -- a run touches no index at or past the size of its array; `inside_bind`,
    `inside_load`, `inside_store` -- **when a run does, from when its parts do**;
  * `Returns` -- the program goes on.
-/
import Rabbits.Lib.Store
import Mathlib.Logic.Function.Basic

namespace Lib

variable {ι β v w : Type}

/-- What a run leaves: its result, `none` where it ended the program, the arrays, and the indices
    that it touched. -/
structure ArrayRun (ι β v : Type) where
  result : Option v
  mem : ι → Nat → β
  touched : List (ι × Nat)

structure ArrayCode (ι β v : Type) where
  run : (ι → Nat → β) → ArrayRun ι β v

namespace ArrayCode

@[ext] theorem ext {f g : ArrayCode ι β v} (h : ∀ mem, f.run mem = g.run mem) : f = g := by
  cases f
  cases g
  congr
  exact funext h

/-! ## 1. How code is built -/

instance : Monad (ArrayCode ι β) where
  pure x := ⟨fun mem => ⟨some x, mem, []⟩⟩
  bind f g := ⟨fun mem =>
    match (f.run mem).result with
    | none => ⟨none, (f.run mem).mem, (f.run mem).touched⟩
    | some x =>
        let r := (g x).run (f.run mem).mem
        ⟨r.result, r.mem, (f.run mem).touched ++ r.touched⟩⟩

@[simp] theorem run_pure (x : v) (mem : ι → Nat → β) :
    (pure x : ArrayCode ι β v).run mem = ⟨some x, mem, []⟩ := rfl

theorem run_bind_some {f : ArrayCode ι β v} {g : v → ArrayCode ι β w} {mem : ι → Nat → β} {x : v}
    (h : (f.run mem).result = some x) :
    (f >>= g).run mem = ⟨((g x).run (f.run mem).mem).result, ((g x).run (f.run mem).mem).mem,
      (f.run mem).touched ++ ((g x).run (f.run mem).mem).touched⟩ := by
  simp only [bind, h]

theorem run_bind_none {f : ArrayCode ι β v} {g : v → ArrayCode ι β w} {mem : ι → Nat → β}
    (h : (f.run mem).result = none) :
    (f >>= g).run mem = ⟨none, (f.run mem).mem, (f.run mem).touched⟩ := by
  simp only [bind, h]

instance : LawfulMonad (ArrayCode ι β) := by
  refine LawfulMonad.mk' _ (fun f => ?_) (fun x f => rfl) (fun f g h => ?_)
  · ext1 mem
    show (f >>= pure).run mem = f.run mem
    cases hf : (f.run mem).result with
    | none => rw [run_bind_none hf, ← hf]
    | some x =>
        rw [run_bind_some hf, run_pure, List.append_nil, ← hf]
  · ext1 mem
    cases hf : (f.run mem).result with
    | none =>
        have hfg : ((f >>= g).run mem).result = none := by rw [run_bind_none hf]
        rw [run_bind_none hfg, run_bind_none hf, run_bind_none hf]
    | some x =>
        cases hg : ((g x).run (f.run mem).mem).result with
        | none =>
            have hfg : ((f >>= g).run mem).result = none := by rw [run_bind_some hf, hg]
            rw [run_bind_none hfg, run_bind_some hf, run_bind_some hf, run_bind_none hg]
        | some y =>
            have hfg : ((f >>= g).run mem).result = some y := by rw [run_bind_some hf, hg]
            rw [run_bind_some hfg, run_bind_some hf, run_bind_some hf, run_bind_some hg]
            simp only [List.append_assoc]

/-- A map leaves the arrays. -/
theorem map_mem (g : v → w) (f : ArrayCode ι β v) (mem : ι → Nat → β) :
    ((g <$> f).run mem).mem = (f.run mem).mem := by
  rw [map_eq_pure_bind]
  cases hf : (f.run mem).result with
  | none => rw [run_bind_none hf]
  | some x => rw [run_bind_some hf, run_pure]

/-- `exit (1)`. -/
def exit : ArrayCode ι β v := ⟨fun mem => ⟨none, mem, []⟩⟩

/-- The indices `i`, ..., `i + n - 1` of the array `a`. -/
def cells (a : ι) (i n : Nat) : List (ι × Nat) := (List.range' i n).map (a, ·)

/-- The cells `i`, ..., `i + n - 1` of the array `a`. -/
def load (a : ι) (i n : Nat) : ArrayCode ι β (Nat → β) :=
  ⟨fun mem => ⟨some fun j => mem a (i + j), mem, cells a i n⟩⟩

def store [DecidableEq ι] (a : ι) (i n : Nat) (data : Nat → β) : ArrayCode ι β Unit :=
  ⟨fun mem => ⟨some (), Function.update mem a ((rangeWrite i n data).apply (mem a)), cells a i n⟩⟩

/-! ## 2. Consecutive stores -/

section Store

variable [DecidableEq ι]

/-- **Two stores that meet are one.** -/
theorem store_append (a : ι) (i n k : Nat) (data : Nat → β) :
    (do store a i n data; store a (i + n) k fun j => data (n + j)) = store a i (n + k) data := by
  ext1 mem
  have hrun : ((store a i n data).run mem).result = some () := rfl
  rw [run_bind_some hrun]
  have hmem : Function.update (Function.update mem a ((rangeWrite i n data).apply (mem a))) a
      ((rangeWrite (i + n) k fun j => data (n + j)).apply ((rangeWrite i n data).apply (mem a))) =
      Function.update mem a ((rangeWrite i (n + k) data).apply (mem a)) := by
    rw [Function.update_idem, rangeWrite_append]
  simp only [store, Function.update_self, hmem, cells, ← List.map_append, List.range'_append_1]

theorem store_zero (a : ι) (i : Nat) (data : Nat → β) : store a i 0 data = pure () := by
  ext1 mem
  simp only [store, rangeWrite_zero, Function.update_eq_self, cells, List.range'_zero,
    List.map_nil, run_pure]

theorem store_congr (a : ι) (i : Nat) {n : Nat} {data data' : Nat → β}
    (h : ∀ j < n, data j = data' j) : store a i n data = store a i n data' := by
  ext1 mem
  have happly : (rangeWrite i n data).apply (mem a) = (rangeWrite i n data').apply (mem a) := by
    funext b
    rw [rangeWrite_apply, rangeWrite_apply]
    split
    · exact h _ (by omega)
    · rfl
  simp only [store, happly]

/-- **A loop that stores one cell after the other.** -/
theorem forM_store (a : ι) (i n : Nat) (data : Nat → β) :
    (forM (List.range n) fun j => store a (i + j) 1 fun _ => data j) = store a i n data := by
  induction n with
  | zero =>
      rw [store_zero]
      rfl
  | succ n ih =>
      have hone : store a (i + n) 1 (fun _ => data n) = store a (i + n) 1 fun j => data (n + j) :=
        store_congr a _ fun j hj => by rw [Nat.lt_one_iff.mp hj]; rfl
      rw [List.range_succ, List.forM_append, ih, ← store_append, List.forM_cons, hone]
      simp

end Store

/-! ## 3. The bounds -/

/-- Every index that the run touches is below the size of its array. -/
def Inside (size : ι → Nat) (f : ArrayCode ι β v) (mem : ι → Nat → β) : Prop :=
  ∀ p ∈ (f.run mem).touched, p.2 < size p.1

variable {size : ι → Nat} {mem : ι → Nat → β}

@[simp] theorem inside_pure (x : v) : Inside size (pure x) mem := by
  simp [Inside]

@[simp] theorem inside_exit : Inside size (exit : ArrayCode ι β v) mem := by
  simp [Inside, exit]

/-- **One piece of code after the other.** -/
theorem inside_bind {f : ArrayCode ι β v} {g : v → ArrayCode ι β w} :
    Inside size (f >>= g) mem ↔ Inside size f mem ∧
      ∀ x, (f.run mem).result = some x → Inside size (g x) (f.run mem).mem := by
  cases hf : (f.run mem).result with
  | none =>
      rw [Inside, run_bind_none hf]
      simp [Inside]
  | some x =>
      rw [Inside, run_bind_some hf]
      simp only [List.mem_append, or_imp, forall_and, Option.some.injEq, forall_eq', Inside]

/-- What is computed from the result touches nothing. -/
@[simp] theorem inside_map (g : v → w) (f : ArrayCode ι β v) :
    Inside size (g <$> f) mem ↔ Inside size f mem := by
  rw [map_eq_pure_bind, inside_bind]
  simp

theorem inside_cells (a : ι) (i n : Nat) :
    (∀ p ∈ cells a i n, p.2 < size p.1) ↔ n = 0 ∨ i + n ≤ size a := by
  simp only [cells, List.forall_mem_map, List.mem_range'_1, and_imp]
  constructor
  · intro h
    by_cases hn : n = 0
    · exact .inl hn
    · have hlast := h (i + n - 1) (by omega) (by omega)
      exact .inr (by omega)
  · intro h j hi hj
    omega

theorem inside_load (a : ι) (i n : Nat) :
    Inside size (load a i n) mem ↔ n = 0 ∨ i + n ≤ size a :=
  inside_cells a i n

theorem inside_store [DecidableEq ι] (a : ι) (i n : Nat) (data : Nat → β) :
    Inside size (store a i n data) mem ↔ n = 0 ∨ i + n ≤ size a :=
  inside_cells a i n

/-- A loop whose turns all stay inside. -/
theorem inside_forM {κ : Type} {xs : List κ} {f : κ → ArrayCode ι β PUnit}
    (h : ∀ x ∈ xs, ∀ mem, Inside size (f x) mem) : Inside size (forM xs f) mem := by
  induction xs generalizing mem with
  | nil => exact inside_pure PUnit.unit
  | cons x xs ih =>
      rw [List.forM_cons]
      refine inside_bind.mpr ⟨h x List.mem_cons_self mem, fun _ _ => ?_⟩
      exact ih fun y hy => h y (List.mem_cons_of_mem x hy)

/-! ## 4. Code that returns -/

/-- The code does not end the program. -/
def Returns (f : ArrayCode ι β v) : Prop := ∀ mem, ∃ x, (f.run mem).result = some x

theorem returns_pure (x : v) : Returns (pure x : ArrayCode ι β v) := fun _ => ⟨x, rfl⟩

theorem returns_load (a : ι) (i n : Nat) : Returns (load a i n : ArrayCode ι β _) :=
  fun _ => ⟨_, rfl⟩

theorem returns_store [DecidableEq ι] (a : ι) (i n : Nat) (data : Nat → β) :
    Returns (store a i n data) :=
  fun _ => ⟨(), rfl⟩

theorem Returns.bind {f : ArrayCode ι β v} {g : v → ArrayCode ι β w} (hf : Returns f)
    (hg : ∀ x, Returns (g x)) : Returns (f >>= g) := by
  intro mem
  obtain ⟨x, hx⟩ := hf mem
  obtain ⟨y, hy⟩ := hg x (f.run mem).mem
  refine ⟨y, ?_⟩
  rw [run_bind_some hx]
  exact hy

theorem Returns.map {f : ArrayCode ι β v} (hf : Returns f) (g : v → w) : Returns (g <$> f) := by
  rw [map_eq_pure_bind]
  exact hf.bind fun _ => returns_pure _

theorem returns_forM {κ : Type} {xs : List κ} {f : κ → ArrayCode ι β PUnit}
    (h : ∀ x ∈ xs, Returns (f x)) : Returns (forM xs f) := by
  induction xs with
  | nil => exact returns_pure PUnit.unit
  | cons x xs ih =>
      rw [List.forM_cons]
      refine (h x List.mem_cons_self).bind fun _ => ih fun y hy => ?_
      exact h y (List.mem_cons_of_mem x hy)

end ArrayCode

end Lib
