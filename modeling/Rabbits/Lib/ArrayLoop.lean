/-
  File:      Rabbits/Lib/ArrayLoop.lean
  Subject:   Loops that read one array and fill another one.

  * `sweep` -- a loop over a list with a pointer that each turn moves on by `k` cells;
  * `Fills a b` -- code that reads some cells of `a` and writes `n` consecutive cells of `b`;
  * `fills_sweep` -- **a loop whose turns each fill `k` cells fills one range**;
  * `forM_eq_sweep`, `nested_range` -- other forms of a loop.
-/
import Rabbits.Lib.ArrayCode

namespace Lib

namespace ArrayCode

variable {ι β κ v : Type}

/-! ## 1. Loops -/

/-- A turn for each element, at a pointer that starts at `pos` and moves on by `k`. -/
def sweep (k : Nat) (f : κ → Nat → ArrayCode ι β PUnit) : Nat → List κ → ArrayCode ι β PUnit
  | _, [] => pure ⟨⟩
  | pos, x :: xs => do
      f x pos
      sweep k f (pos + k) xs

/-- A loop without a pointer. -/
theorem forM_eq_sweep (k pos : Nat) (f : κ → ArrayCode ι β PUnit) (xs : List κ) :
    forM xs f = sweep k (fun x _ => f x) pos xs := by
  induction xs generalizing pos with
  | nil => rfl
  | cons x xs ih => rw [List.forM_cons, sweep, ih (pos + k)]

/-- Two nested loops are one. -/
theorem nested_range (rows cols : Nat) (f : Nat → Nat → κ) :
    ((List.range rows).flatMap fun j => (List.range cols).map (f j)) =
      (List.range (rows * cols)).map fun n => f (n / cols) (n % cols) := by
  induction rows with
  | zero => simp
  | succ rows ih =>
      rw [List.range_succ, List.flatMap_append, ih, List.flatMap_singleton, Nat.succ_mul,
        List.range_add, List.map_append, List.map_map]
      congr 1
      refine List.map_congr_left fun i hi => ?_
      have hi := List.mem_range.mp hi
      rw [Function.comp, Nat.mul_comm, Nat.mul_add_div (by omega), Nat.div_eq_of_lt hi,
        Nat.mul_add_mod, Nat.mod_eq_of_lt hi, Nat.add_zero]

/-! ## 2. Code that fills a range -/

section Fills

variable [DecidableEq ι]

/-- The indices of `a` among those touched. -/
def indicesOf (a : ι) (touched : List (ι × Nat)) : List Nat :=
  (touched.filter (·.1 = a)).map (·.2)

theorem indicesOf_append (a : ι) (t t' : List (ι × Nat)) :
    indicesOf a (t ++ t') = indicesOf a t ++ indicesOf a t' := by
  simp [indicesOf]

theorem indicesOf_cells (a c : ι) (i n : Nat) :
    indicesOf a (cells c i n) = if c = a then List.range' i n else [] := by
  rw [indicesOf, cells, List.filter_map, List.map_map]
  split
  · next h => simp [Function.comp_def, h]
  · next h => simp [Function.comp_def, h]

/-- From any memory, `f` reads the cells `reads` of `a` and writes the `n` cells of `b` from `pos`
    on, with `data` of what `a` holds. -/
structure Fills (a b : ι) (pos n : Nat) (reads : List Nat) (data : (Nat → β) → Nat → β)
    (f : ArrayCode ι β v) : Prop where
  returns : Returns f
  mem : ∀ mem, (f.run mem).mem =
    Function.update mem b ((rangeWrite pos n (data (mem a))).apply (mem b))
  reads : ∀ mem, indicesOf a (f.run mem).touched = reads
  writes : ∀ mem, indicesOf b (f.run mem).touched = List.range' pos n

variable {a b : ι} {pos n : Nat} {reads : List Nat} {data : (Nat → β) → Nat → β}

theorem Fills.congr {f : ArrayCode ι β v} {reads' : List Nat} {data' : (Nat → β) → Nat → β}
    (hf : Fills a b pos n reads data f) (hreads : reads = reads')
    (hdata : ∀ s, ∀ j < n, data s j = data' s j) : Fills a b pos n reads' data' f := by
  subst hreads
  refine ⟨hf.returns, fun mem => ?_, hf.reads, hf.writes⟩
  rw [hf.mem mem]
  congr 1
  funext c
  rw [rangeWrite_apply, rangeWrite_apply]
  split
  · exact hdata _ _ (by omega)
  · rfl

theorem fills_pure (x : v) : Fills a b pos 0 [] data (pure x) where
  returns := returns_pure x
  mem mem := by rw [run_pure, rangeWrite_zero, Function.update_eq_self]
  reads _ := rfl
  writes _ := rfl

theorem fills_store (hab : a ≠ b) (d : Nat → β) :
    Fills a b pos n [] (fun _ => d) (store b pos n d) where
  returns := returns_store b pos n d
  mem _ := rfl
  reads _ := by
    show indicesOf a (cells b pos n) = []
    rw [indicesOf_cells, if_neg (Ne.symm hab)]
  writes _ := by
    show indicesOf b (cells b pos n) = _
    rw [indicesOf_cells, if_pos rfl]

/-- Cells that are read first. -/
theorem Fills.load_bind (hab : a ≠ b) {i k : Nat} {g : (Nat → β) → ArrayCode ι β v}
    {data : (Nat → β) → (Nat → β) → Nat → β} (hg : ∀ x, Fills a b pos n reads (data x) (g x)) :
    Fills a b pos n (List.range' i k ++ reads) (fun s => data (fun j => s (i + j)) s)
      (load a i k >>= g) := by
  have hload : ∀ mem, ((load a i k : ArrayCode ι β _).run mem).result =
      some fun j => mem a (i + j) := fun _ => rfl
  refine ⟨(returns_load a i k).bind fun x => (hg x).returns, fun mem => ?_, fun mem => ?_,
    fun mem => ?_⟩
  · rw [run_bind_some (hload mem)]
    exact (hg _).mem mem
  · rw [run_bind_some (hload mem), indicesOf_append, (hg _).reads]
    show indicesOf a (cells a i k) ++ _ = _
    rw [indicesOf_cells, if_pos rfl]
  · rw [run_bind_some (hload mem), indicesOf_append, (hg _).writes]
    show indicesOf b (cells a i k) ++ _ = _
    rw [indicesOf_cells, if_neg hab, List.nil_append]

/-- **Two ranges that meet.** -/
theorem Fills.append (hab : a ≠ b) {k : Nat} {reads' : List Nat} {data' : (Nat → β) → Nat → β}
    {f : ArrayCode ι β PUnit} {g : ArrayCode ι β v} (hf : Fills a b pos n reads data f)
    (hg : Fills a b (pos + n) k reads' data' g) :
    Fills a b pos (n + k) (reads ++ reads')
      (fun s j => if j < n then data s j else data' s (j - n)) (do f; g) := by
  have hres : ∀ mem, (f.run mem).result = some ⟨⟩ := fun mem => (hf.returns mem).choose_spec
  refine ⟨hf.returns.bind fun _ => hg.returns, fun mem => ?_, fun mem => ?_, fun mem => ?_⟩
  · rw [run_bind_some (hres mem)]
    show (g.run (f.run mem).mem).mem = _
    rw [hg.mem, hf.mem, Function.update_of_ne hab, Function.update_self, Function.update_idem]
    congr 1
    funext c
    simp only [rangeWrite_apply]
    by_cases h₁ : pos + n ≤ c ∧ c < pos + n + k
    · rw [if_pos h₁, if_pos (by omega), if_neg (by omega), Nat.sub_sub]
    · rw [if_neg h₁]
      by_cases h₂ : pos ≤ c ∧ c < pos + n
      · rw [if_pos h₂, if_pos (by omega), if_pos (by omega)]
      · rw [if_neg h₂, if_neg (by omega)]
  · rw [run_bind_some (hres mem), indicesOf_append, hf.reads, hg.reads]
  · rw [run_bind_some (hres mem), indicesOf_append, hf.writes, hg.writes, List.range'_append_1]

/-! ## 3. A loop fills one range -/

/-- What the turns of a loop write, one after the other. -/
def sweepData (k : Nat) (data : κ → (Nat → β) → Nat → β) : List κ → (Nat → β) → Nat → β
  | [], s, j => s j
  | x :: xs, s, j => if j < k then data x s j else sweepData k data xs s (j - k)

/-- A place is written by its turn. -/
theorem sweepData_eq {k : Nat} {data : κ → (Nat → β) → Nat → β} {xs : List κ} {i : Nat} {x : κ}
    (h : xs[i]? = some x) (s : Nat → β) {j : Nat} (hj : j < k) :
    sweepData k data xs s (k * i + j) = data x s j := by
  induction xs generalizing i with
  | nil => simp at h
  | cons y xs ih =>
      cases i with
      | zero =>
          cases h
          rw [sweepData, Nat.mul_zero, Nat.zero_add, if_pos hj]
      | succ i =>
          rw [sweepData, if_neg (by rw [Nat.mul_succ]; omega), ← ih (by simpa using h)]
          congr 1
          rw [Nat.mul_succ]
          omega

/-- Two loops over the same list, where each turn of one writes what the other one does, at places
    that `r` exchanges within the cells of the turn. -/
theorem sweepData_exchange {k : Nat} {data data' : κ → (Nat → β) → Nat → β} {xs : List κ}
    {r : Nat → Nat} (hshift : ∀ i, ∀ j < k, r (k * i + j) = k * i + r j) (hlt : ∀ j < k, r j < k)
    (hdata : ∀ x s, ∀ j < k, data' x s j = data x s (r j)) (s : Nat → β) {c : Nat}
    (hc : c < k * xs.length) : sweepData k data' xs s c = sweepData k data xs s (r c) := by
  have hk : 0 < k := Nat.pos_of_ne_zero fun hzero => by simp [hzero] at hc
  have hi : c / k < xs.length := Nat.div_lt_of_lt_mul hc
  have hj : c % k < k := Nat.mod_lt c hk
  have hturn : xs[c / k]? = some xs[c / k] := List.getElem?_eq_getElem hi
  calc sweepData k data' xs s c
      = sweepData k data' xs s (k * (c / k) + c % k) := by rw [Nat.div_add_mod]
    _ = data xs[c / k] s (r (c % k)) := by rw [sweepData_eq hturn s hj, hdata _ s _ hj]
    _ = sweepData k data xs s (k * (c / k) + r (c % k)) := (sweepData_eq hturn s (hlt _ hj)).symm
    _ = sweepData k data xs s (r c) := by rw [← hshift _ _ hj, Nat.div_add_mod]

/-- **A loop fills one range**, when each turn fills the `k` cells at its pointer. -/
theorem fills_sweep (hab : a ≠ b) {k : Nat} {f : κ → Nat → ArrayCode ι β PUnit} {xs : List κ}
    {reads : κ → List Nat} {data : κ → (Nat → β) → Nat → β}
    (h : ∀ i x, xs[i]? = some x →
      Fills a b (pos + k * i) k (reads x) (data x) (f x (pos + k * i))) :
    Fills a b pos (k * xs.length) (xs.flatMap reads) (sweepData k data xs) (sweep k f pos xs) := by
  induction xs generalizing pos with
  | nil => exact fills_pure _
  | cons x xs ih =>
      have hrest : Fills a b (pos + k) (k * xs.length) (xs.flatMap reads) (sweepData k data xs)
          (sweep k f (pos + k) xs) := ih fun i y hy => by
        have hturn := h (i + 1) y (by simpa using hy)
        rwa [Nat.mul_succ, Nat.add_comm (k * i), ← Nat.add_assoc] at hturn
      have hx := h 0 x rfl
      rw [Nat.mul_zero, Nat.add_zero] at hx
      rw [List.length_cons, Nat.mul_succ, Nat.add_comm (k * xs.length)]
      exact hx.append hab hrest

end Fills

end ArrayCode

end Lib
