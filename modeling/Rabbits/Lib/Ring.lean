/-
  File:      Rabbits/Lib/Ring.lean
  Subject:   A queue in a ring of cells, with a position and a count.

  * `ringContents` -- the items from the position on;
  * `ring_push`, `ring_pop` -- **an item goes in at the end and comes out at the front**, as long as
    the ring has room for it; `succ_mod` -- the next position, by a comparison;
  * `KeepsLast` -- a ring that is overwritten: `KeepsLast.write` -- **it keeps the last items**;
    `KeepsLast.perm` -- its cells are these items, in some order.
-/
import Mathlib.Data.List.DropRight
import Mathlib.Logic.Function.Basic
import Mathlib.Order.Interval.Finset.Nat

namespace Lib

universe u

variable {α : Type u} {size pos count : Nat}

/-- `count` items, the first one at `pos`. -/
def ringContents (buf : Nat → α) (size pos count : Nat) : List α :=
  (List.range count).map fun i => buf ((pos + i) % size)

@[simp] theorem ringContents_zero (buf : Nat → α) (size pos : Nat) :
    ringContents buf size pos 0 = [] := rfl

/-- Cells less than a turn apart are different ones. -/
theorem ring_index_ne {i j : Nat} (hij : i < j) (hj : j < size) :
    (pos + i) % size ≠ (pos + j) % size := by
  intro heq
  have hsub : pos + j - (pos + i) = j - i := Nat.add_sub_add_left pos j i
  have hzero := Nat.sub_mod_eq_zero_of_mod_eq heq.symm
  rw [hsub, Nat.mod_eq_of_lt (Nat.lt_of_le_of_lt (Nat.sub_le j i) hj)] at hzero
  omega

theorem ring_push (buf : Nat → α) (hcount : count < size) (x : α) :
    ringContents (Function.update buf ((pos + count) % size) x) size pos (count + 1) =
      ringContents buf size pos count ++ [x] := by
  rw [ringContents, List.range_succ, List.map_append, List.map_singleton, Function.update_self]
  congr 1
  refine List.map_congr_left fun i hi => ?_
  exact Function.update_of_ne (ring_index_ne (List.mem_range.mp hi) hcount) _ _

theorem ring_pop (buf : Nat → α) (hpos : pos < size) (count : Nat) :
    ringContents buf size pos (count + 1) =
      buf pos :: ringContents buf size ((pos + 1) % size) count := by
  rw [ringContents, List.range_succ_eq_map, List.map_cons, List.map_map, Nat.add_zero,
    Nat.mod_eq_of_lt hpos]
  congr 1
  refine List.map_congr_left fun i _ => ?_
  show buf ((pos + (i + 1)) % size) = buf (((pos + 1) % size + i) % size)
  rw [Nat.mod_add_mod, Nat.add_right_comm, Nat.add_assoc pos]

theorem succ_mod (hpos : pos < size) :
    (if pos + 1 = size then 0 else pos + 1) = (pos + 1) % size := by
  split
  · rename_i heq
    rw [heq, Nat.mod_self]
  · exact (Nat.mod_eq_of_lt (by omega)).symm

/-! ## 2. A ring that is overwritten -/

/-- Of all items written, one in each cell after the other, the last `size` are in the ring. -/
def KeepsLast (buf : Nat → α) (size : Nat) (xs : List α) : Prop :=
  ∀ j < xs.length, xs.length ≤ j + size → xs[j]? = some (buf (j % size))

variable {buf : Nat → α} {xs : List α}

theorem keepsLast_nil (buf : Nat → α) (size : Nat) : KeepsLast buf size [] :=
  fun j hj => absurd hj (Nat.not_lt_zero j)

/-- **The next item takes the cell of the oldest one.** -/
theorem KeepsLast.write (h : KeepsLast buf size xs) (x : α) :
    KeepsLast (Function.update buf (xs.length % size) x) size (xs ++ [x]) := by
  intro j hj hlast
  rw [List.length_append, List.length_singleton] at hj hlast
  rcases Nat.lt_succ_iff_lt_or_eq.mp hj with hlt | rfl
  · have hne : j % size ≠ xs.length % size := by
      have hturn := @ring_index_ne size j 0 (xs.length - j) (by omega) (by omega)
      rwa [Nat.add_zero, Nat.add_sub_of_le hlt.le] at hturn
    rw [List.getElem?_append_left hlt, Function.update_of_ne hne]
    exact h j hlt (by omega)
  · rw [Function.update_self, List.getElem?_append_right le_rfl, Nat.sub_self]
    rfl

/-- A whole turn of the ring visits each cell once. -/
theorem ringContents_perm (buf : Nat → α) (size pos : Nat) :
    (ringContents buf size pos size).Perm ((List.range size).map buf) := by
  have hturn : ((List.range' pos size).map (· % size)).Perm (List.range size) := by
    have hico : (↑((List.range' pos (pos + size - pos)).map (· % size)) : Multiset Nat) =
        ↑(List.range size) := Nat.multiset_Ico_map_mod pos size
    rw [Nat.add_sub_cancel_left] at hico
    exact Multiset.coe_eq_coe.mp hico
  have hplaces : (List.range size).map (fun i => (pos + i) % size) =
      (List.range' pos size).map (· % size) := by
    rw [List.range'_eq_map_range, List.map_map]
    rfl
  rw [← hplaces] at hturn
  simpa [ringContents, Function.comp_def] using hturn.map buf

/-- **The cells in use are the last items**, in some order. -/
theorem KeepsLast.perm (h : KeepsLast buf size xs) :
    ((List.range (min xs.length size)).map buf).Perm (xs.rtake size) := by
  rcases Nat.le_total xs.length size with hle | hge
  · have hall : (List.range xs.length).map buf = xs := by
      refine List.ext_getElem? fun j => ?_
      rcases Nat.lt_or_ge j xs.length with hj | hj
      · rw [List.getElem?_map, List.getElem?_range hj, Option.map_some, h j hj (by omega),
          Nat.mod_eq_of_lt (hj.trans_le hle)]
      · rw [List.getElem?_eq_none hj, List.getElem?_eq_none (by simpa using hj)]
    rw [min_eq_left hle, hall, List.rtake, Nat.sub_eq_zero_of_le hle, List.drop_zero]
  · have hlast : xs.rtake size = ringContents buf size (xs.length - size) size := by
      refine List.ext_getElem? fun i => ?_
      rw [List.rtake, List.getElem?_drop, ringContents, List.getElem?_map]
      rcases Nat.lt_or_ge i size with hi | hi
      · rw [List.getElem?_range hi, Option.map_some]
        exact h _ (by omega) (by omega)
      · rw [List.getElem?_eq_none (by omega), List.getElem?_eq_none (by simpa using hi)]
        rfl
    rw [min_eq_right hge, hlast]
    exact (ringContents_perm buf size _).symm

end Lib
