/-
  File:      Rabbits/Lib/Raster.lean
  Subject:   Pictures row by row, and pictures in tiles.

  * `raster` -- the places of a picture, row by row, each row from left to right;
  * `length_raster`, `mem_raster`, `nodup_raster` -- each place once;
  * `raster_tiles` -- **a picture of tiles, row by row**: rows of tiles, the lines of a tile, the tiles
    of a row, the places of a line;
  * `row_succ`, `last_place` -- two counters, one for the place in a row and one for the row.
-/
import Mathlib.Data.List.Basic
import Mathlib.Data.List.Nodup

namespace Lib

variable {α β : Type*}

/-! ## 1. Ranges of products -/

theorem map_range_mul (n m : Nat) (f : Nat → α) :
    (List.range (n * m)).map f =
      (List.range n).flatMap fun k => (List.range m).map fun l => f (k * m + l) := by
  induction n with
  | zero => simp
  | succ n ih =>
      rw [Nat.add_mul, Nat.one_mul, List.range_add, List.map_append, ih, List.range_succ,
        List.flatMap_append]
      simp [Function.comp_def]

theorem flatMap_range_mul (n m : Nat) (f : Nat → List α) :
    (List.range (n * m)).flatMap f =
      (List.range n).flatMap fun k => (List.range m).flatMap fun l => f (k * m + l) := by
  rw [List.flatMap_def, map_range_mul, ← List.flatMap_id, List.flatMap_assoc]
  simp [List.flatMap_map]

/-! ## 2. Pictures -/

/-- Row by row, each from left to right. -/
def raster (w h : Nat) (f : Nat → Nat → α) : List α :=
  (List.range h).flatMap fun y => (List.range w).map fun x => f x y

theorem length_raster (w h : Nat) (f : Nat → Nat → α) : (raster w h f).length = w * h := by
  simp [raster, List.length_flatMap, Nat.mul_comm]

theorem map_raster (w h : Nat) (f : Nat → Nat → α) (g : α → β) :
    (raster w h f).map g = raster w h fun x y => g (f x y) := by
  simp [raster, List.map_flatMap, Function.comp_def]

theorem mem_raster {w h : Nat} {f : Nat → Nat → α} {a : α} :
    a ∈ raster w h f ↔ ∃ y < h, ∃ x < w, f x y = a := by
  simp [raster]

theorem raster_congr {w h : Nat} {f g : Nat → Nat → α} (hfg : ∀ y < h, ∀ x < w, f x y = g x y) :
    raster w h f = raster w h g := by
  refine List.flatMap_congr fun y hy => List.map_congr_left fun x hx => ?_
  exact hfg y (List.mem_range.mp hy) x (List.mem_range.mp hx)

/-- Different places have different contents: each of them once. -/
theorem nodup_raster {w h : Nat} {f : Nat → Nat → α}
    (hf : ∀ {x y x' y'}, f x y = f x' y' → x = x' ∧ y = y') : (raster w h f).Nodup := by
  refine List.nodup_flatMap.mpr ⟨fun y _ => ?_, ?_⟩
  · exact List.nodup_range.map fun x x' h => (hf h).1
  · refine List.nodup_range.pairwise_of_forall_ne fun y _ y' _ hne => ?_
    intro a ha ha'
    obtain ⟨x, -, rfl⟩ := List.mem_map.mp ha
    obtain ⟨x', -, heq⟩ := List.mem_map.mp ha'
    exact hne (hf heq).2.symm

/-- **A picture of tiles.** -/
theorem raster_tiles (tw th s : Nat) (f : Nat → Nat → α) :
    raster (tw * s) (th * s) f =
      (List.range th).flatMap fun k => (List.range s).flatMap fun l =>
        (List.range tw).flatMap fun t => (List.range s).map fun i => f (t * s + i) (k * s + l) := by
  rw [raster, flatMap_range_mul]
  simp only [map_range_mul]

/-! ## 3. Two counters -/

/-- The row goes on with the first place of a row. -/
theorem row_succ (n w : Nat) :
    (n + 1) / w = if (n + 1) % w = 0 then n / w + 1 else n / w := by
  rw [Nat.succ_div]
  split
  · next h => rw [if_pos (Nat.mod_eq_zero_of_dvd h)]
  · next h => rw [if_neg fun hmod => h (Nat.dvd_of_mod_eq_zero hmod), Nat.add_zero]

/-- Both counters are at their begin when a picture is full. -/
theorem last_place (n w h : Nat) : n % (w * h) = 0 ↔ n % w = 0 ∧ n / w % h = 0 := by
  rw [Nat.mod_mul]
  rcases Nat.eq_zero_or_pos w with rfl | hw
  · simp
  · constructor
    · intro hsum
      have hcol : n % w = 0 := by omega
      have hrow : w * (n / w % h) = 0 := by omega
      exact ⟨hcol, (Nat.mul_eq_zero.mp hrow).resolve_left (Nat.ne_of_gt hw)⟩
    · intro hboth
      rw [hboth.1, hboth.2, Nat.mul_zero]

end Lib
