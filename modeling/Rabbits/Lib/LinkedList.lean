/-
  File:      Rabbits/Lib/LinkedList.lean
  Subject:   Singly linked lists over a `next` field.

  A node is a value of any type, its link a function `next`; `none` is the null pointer. The loops
  take a bound on the number of turns, and every lemma says that the length of the list is enough.

  * `Linked next p l` -- the nodes met from `p` on are `l`;
  * `findFrom`, `Linked.findFrom_eq` -- a search along the list is `List.find?`;
  * `push`, `Linked.push` -- a node put in front;
  * `unlink`, `Linked.unlink`, `Linked.unlink_notMem` -- a node taken out, wherever it stands.
-/
import Mathlib.Logic.Function.Basic
import Mathlib.Data.List.Basic
import Mathlib.Data.List.Nodup

namespace Lib

universe u

variable {α : Type u}

/-! ## 1. The list a head pointer stands for -/

/-- From `p` on, the nodes `l` and then the null pointer. -/
inductive Linked (next : α → Option α) : Option α → List α → Prop where
  | nil : Linked next none []
  | cons {a : α} {l : List α} (h : Linked next (next a) l) : Linked next (some a) (a :: l)

/-- The nodes met in at most `fuel` turns. -/
def walk (next : α → Option α) : Nat → Option α → List α
  | 0, _ => []
  | _, none => []
  | fuel + 1, some a => a :: walk next fuel (next a)

theorem Linked.walk_eq {next : α → Option α} {p : Option α} {l : List α} (h : Linked next p l) :
    ∀ fuel, l.length ≤ fuel → walk next fuel p = l := by
  induction h with
  | nil => intro fuel _; cases fuel <;> rfl
  | @cons a l h ih =>
      intro fuel hf
      cases fuel with
      | zero => simp at hf
      | succ fuel =>
          have hl : l.length ≤ fuel := by simpa using hf
          rw [walk, ih fuel hl]

theorem Linked.head_eq_none_iff {next : α → Option α} {p : Option α} {l : List α}
    (h : Linked next p l) : p = none ↔ l = [] := by
  cases h <;> simp

theorem Linked.of_some {next : α → Option α} {a : α} {l : List α} (h : Linked next (some a) l) :
    ∃ l', l = a :: l' ∧ Linked next (next a) l' := by
  cases h with
  | cons h => exact ⟨_, rfl, h⟩

/-- Nodes outside the list may change. -/
theorem Linked.congr {next next' : α → Option α} {p : Option α} {l : List α}
    (h : Linked next p l) (heq : ∀ b ∈ l, next' b = next b) : Linked next' p l := by
  induction h with
  | nil => exact .nil
  | @cons a l h ih =>
      refine .cons ?_
      rw [heq a List.mem_cons_self]
      exact ih fun b hb => heq b (List.mem_cons_of_mem _ hb)

/-! ## 2. Search -/

/-- `while (p && !f (p)) p = p->next`. -/
def findFrom (next : α → Option α) (f : α → Bool) : Nat → Option α → Option α
  | 0, _ => none
  | _, none => none
  | fuel + 1, some a => if f a then some a else findFrom next f fuel (next a)

theorem Linked.findFrom_eq {next : α → Option α} {p : Option α} {l : List α} (f : α → Bool)
    (h : Linked next p l) : ∀ fuel, l.length ≤ fuel → findFrom next f fuel p = l.find? f := by
  induction h with
  | nil => intro fuel _; cases fuel <;> rfl
  | @cons a l h ih =>
      intro fuel hf
      cases fuel with
      | zero => simp at hf
      | succ fuel =>
          have hl : l.length ≤ fuel := by simpa using hf
          cases ha : f a with
          | true => simp [findFrom, ha]
          | false => simp [findFrom, ha, ih fuel hl]

/-! ## 3. Putting a node in front and taking one out -/

variable [DecidableEq α]

/-- `a->next = head`, for the new head `a`. -/
def push (next : α → Option α) (a : α) (head : Option α) : α → Option α :=
  Function.update next a head

theorem Linked.push {next : α → Option α} {p : Option α} {l : List α} {a : α}
    (h : Linked next p l) (ha : a ∉ l) : Linked (push next a p) (some a) (a :: l) := by
  refine .cons ?_
  rw [Lib.push, Function.update_self]
  refine h.congr fun b hb => Function.update_of_ne ?_ _ _
  intro heq
  subst heq
  exact ha hb

theorem Linked.push_other {next : α → Option α} {p q : Option α} {l : List α} {a : α}
    (h : Linked next p l) (ha : a ∉ l) : Linked (Lib.push next a q) p l := by
  refine h.congr fun b hb => Function.update_of_ne ?_ _ _
  intro heq
  subst heq
  exact ha hb

/-- The search for the link that points to `a`, from the node `prev` on, which is then made to point
    behind `a`; `none` when the null pointer comes first. -/
def unlinkAfter (next : α → Option α) (a : α) : Nat → α → Option (α → Option α)
  | 0, _ => none
  | fuel + 1, prev =>
      match next prev with
      | none => none
      | some c =>
          if c = a then some (Function.update next prev (next a)) else unlinkAfter next a fuel c

/-- The same search from the head pointer: the new head and links. -/
def unlink (next : α → Option α) (a : α) (fuel : Nat) (head : Option α) :
    Option (Option α × (α → Option α)) :=
  match head with
  | none => none
  | some c => if c = a then some (next a, next) else (unlinkAfter next a fuel c).map (some c, ·)

theorem linked_unlinkAfter {next : α → Option α} {a : α} :
    ∀ {l : List α} {prev : α}, Linked next (next prev) l → (prev :: l).Nodup → a ∈ l →
      ∀ fuel, l.length ≤ fuel → ∃ next', unlinkAfter next a fuel prev = some next' ∧
        Linked next' (next' prev) (l.erase a) ∧ ∀ b, b ∉ prev :: l → next' b = next b := by
  intro l
  induction l with
  | nil => intro prev _ _ ha; cases ha
  | cons c l ih =>
      intro prev h hnd ha fuel hf
      obtain ⟨hprev, hcl⟩ := List.nodup_cons.mp hnd
      cases fuel with
      | zero => simp at hf
      | succ fuel =>
          have hl : l.length ≤ fuel := by simpa using hf
          generalize hnp : next prev = p at h
          cases h with
          | cons h =>
              by_cases hca : c = a
              · subst hca
                refine ⟨Function.update next prev (next c), ?_, ?_, fun b hb => ?_⟩
                · simp [unlinkAfter, hnp]
                · rw [Function.update_self, List.erase_cons_head]
                  refine h.congr fun b hb => Function.update_of_ne ?_ _ _
                  intro heq
                  subst heq
                  exact hprev (List.mem_cons_of_mem _ hb)
                · refine Function.update_of_ne ?_ _ _
                  intro heq
                  subst heq
                  exact hb List.mem_cons_self
              · have hal : a ∈ l := by
                  rcases List.mem_cons.mp ha with rfl | hal
                  · exact absurd rfl hca
                  · exact hal
                obtain ⟨next', hu, hlk, hfr⟩ := ih h hcl hal fuel hl
                refine ⟨next', ?_, ?_, fun b hb => hfr b fun hbc => hb (List.mem_cons_of_mem _ hbc)⟩
                · simp [unlinkAfter, hnp, hca, hu]
                · rw [hfr prev hprev, hnp, List.erase_cons_tail (by simpa using hca)]
                  exact .cons hlk

theorem unlinkAfter_notMem {next : α → Option α} {a : α} :
    ∀ {l : List α} {prev : α}, Linked next (next prev) l → a ∉ l →
      ∀ fuel, unlinkAfter next a fuel prev = none := by
  intro l
  induction l with
  | nil =>
      intro prev h _ fuel
      have hn : next prev = none := h.head_eq_none_iff.mpr rfl
      cases fuel <;> simp [unlinkAfter, hn]
  | cons c l ih =>
      intro prev h ha fuel
      generalize hnp : next prev = p at h
      cases h with
      | cons h =>
          cases fuel with
          | zero => rfl
          | succ fuel =>
              obtain ⟨hca, hal⟩ := not_or.mp (List.mem_cons.not.mp ha)
              simp [unlinkAfter, hnp, Ne.symm hca, ih h hal fuel]

/-- **Taking out a node of the list.** -/
theorem Linked.unlink {next : α → Option α} {a : α} {p : Option α} {l : List α}
    (h : Linked next p l) (hnd : l.Nodup) (ha : a ∈ l) (fuel : Nat) (hf : l.length ≤ fuel) :
    ∃ p' next', Lib.unlink next a fuel p = some (p', next') ∧ Linked next' p' (l.erase a) ∧
      ∀ b, b ∉ l → next' b = next b := by
  cases h with
  | nil => cases ha
  | @cons c l h =>
      by_cases hca : c = a
      · subst hca
        exact ⟨next c, next, by simp [Lib.unlink], by simpa using h, fun _ _ => rfl⟩
      · have hal : a ∈ l := by
          rcases List.mem_cons.mp ha with rfl | hal
          · exact absurd rfl hca
          · exact hal
        have hl : l.length ≤ fuel := Nat.le_of_succ_le hf
        obtain ⟨next', hu, hlk, hfr⟩ := linked_unlinkAfter h hnd hal fuel hl
        refine ⟨some c, next', by simp [Lib.unlink, hca, hu], ?_, hfr⟩
        rw [List.erase_cons_tail (by simpa using hca)]
        exact .cons hlk

theorem Linked.unlink_notMem {next : α → Option α} {a : α} {p : Option α} {l : List α}
    (h : Linked next p l) (ha : a ∉ l) (fuel : Nat) : Lib.unlink next a fuel p = none := by
  cases h with
  | nil => rfl
  | @cons c l h =>
      obtain ⟨hca, hal⟩ := not_or.mp (List.mem_cons.not.mp ha)
      simp [Lib.unlink, Ne.symm hca, unlinkAfter_notMem h hal fuel]

end Lib
