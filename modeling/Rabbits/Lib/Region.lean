/-
  File:      Rabbits/Lib/Region.lean
  Subject:   Consecutive places of a memory, and values laid out in them.

  * `Region` -- a half-open range of places; `Disjoint`, `Inside`, each with its bounds;
  * `Piece` -- values at consecutive places, and the write that lays them out;
  * `Piece.In` -- a memory holds them;
  * `in_replay` -- **pieces whose regions are pairwise disjoint are all held after their writes**,
    in whatever order they are written.
-/
import Rabbits.Lib.Store

namespace Lib

universe u

/-! ## 1. Regions -/

/-- The places `[start, start + len)`. -/
structure Region where
  start : Nat
  len : Nat
  deriving DecidableEq

namespace Region

instance : Membership Nat Region := ⟨fun r a => r.start ≤ a ∧ a < r.start + r.len⟩

theorem mem_def {r : Region} {a : Nat} : a ∈ r ↔ r.start ≤ a ∧ a < r.start + r.len := Iff.rfl

/-- No place is in both. -/
def Disjoint (r s : Region) : Prop := ∀ a ∈ r, a ∉ s

/-- All places are below `size`. -/
def Inside (r : Region) (size : Nat) : Prop := ∀ a ∈ r, a < size

/-- One of them is empty, or one ends before the other. -/
theorem disjoint_iff {r s : Region} :
    Disjoint r s ↔
      r.len = 0 ∨ s.len = 0 ∨ r.start + r.len ≤ s.start ∨ s.start + s.len ≤ r.start := by
  constructor
  · intro h
    by_contra hne
    -- the later one of the two starts is a place of both
    refine h (max r.start s.start) (mem_def.mpr ⟨?_, ?_⟩) (mem_def.mpr ⟨?_, ?_⟩) <;> omega
  · intro h a hr hs
    have hr' := mem_def.mp hr
    have hs' := mem_def.mp hs
    omega

theorem inside_iff {r : Region} {size : Nat} :
    Inside r size ↔ r.len = 0 ∨ r.start + r.len ≤ size := by
  constructor
  · intro h
    by_contra hne
    have hlast := h (r.start + r.len - 1) (mem_def.mpr ⟨by omega, by omega⟩)
    omega
  · intro h a ha
    have ha' := mem_def.mp ha
    omega

end Region

/-! ## 2. Pieces -/

/-- Values at consecutive places. -/
structure Piece (β : Type u) where
  start : Nat
  values : List β

namespace Piece

variable {β : Type u} {mem : Nat → β} {p : Piece β} {ps : List (Piece β)}

def region (p : Piece β) : Region := ⟨p.start, p.values.length⟩

/-- The write that lays the values out. -/
def write (p : Piece β) : Write Nat β := fun a =>
  if p.start ≤ a then p.values[a - p.start]? else none

/-- The memory holds the values at their places. -/
def In (p : Piece β) (mem : Nat → β) : Prop :=
  ∀ i, ∀ h : i < p.values.length, mem (p.start + i) = p.values.get ⟨i, h⟩

theorem write_apply_of_notMem (mem : Nat → β) {a : Nat} (h : a ∉ p.region) :
    p.write.apply mem a = mem a := by
  have hnone : p.write a = none := by
    unfold write
    split
    · rename_i hle
      refine List.getElem?_eq_none (Nat.le_of_not_lt fun hlt => h (Region.mem_def.mpr ⟨hle, ?_⟩))
      show a < p.start + p.values.length
      omega
    · rfl
  rw [Write.apply, hnone]
  rfl

theorem in_write_apply (p : Piece β) (mem : Nat → β) : p.In (p.write.apply mem) := by
  intro i h
  rw [Write.apply, write, if_pos (Nat.le_add_right _ _), Nat.add_sub_cancel_left,
    List.getElem?_eq_getElem h]
  rfl

/-- Places outside of all the pieces. -/
theorem replay_of_notMem {a : Nat} (h : ∀ p ∈ ps, a ∉ p.region) (mem : Nat → β) :
    replay mem (ps.map write) a = mem a := by
  induction ps generalizing mem with
  | nil => rfl
  | cons p ps ih =>
      have hrest : replay (p.write.apply mem) (ps.map write) a = p.write.apply mem a :=
        ih (fun q hq => h q (List.mem_cons_of_mem p hq)) _
      exact hrest.trans (write_apply_of_notMem mem (h p List.mem_cons_self))

/-- **Disjoint pieces are all held** when each has been written once. -/
theorem in_replay (h : ps.Pairwise fun p q => Region.Disjoint p.region q.region)
    (mem : Nat → β) : ∀ p ∈ ps, p.In (replay mem (ps.map write)) := by
  induction ps generalizing mem with
  | nil => exact fun p hp => absurd hp List.not_mem_nil
  | cons q ps ih =>
      obtain ⟨hq, hps⟩ := List.pairwise_cons.mp h
      intro p hp
      rcases List.mem_cons.mp hp with rfl | hp
      · intro i hi
        have hmem : p.start + i ∈ p.region :=
          Region.mem_def.mpr ⟨Nat.le_add_right _ _, Nat.add_lt_add_left hi _⟩
        have hkept : replay (p.write.apply mem) (ps.map write) (p.start + i) =
            p.write.apply mem (p.start + i) :=
          replay_of_notMem (fun r hr => hq r hr _ hmem) _
        exact hkept.trans (in_write_apply p mem i hi)
      · exact ih hps (q.write.apply mem) p hp

end Piece

end Lib
