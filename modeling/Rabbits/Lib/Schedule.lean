/-
  File:      Rabbits/Lib/Schedule.lean
  Subject:   Times that come back every period.

  * `Due` -- a time that is one or more periods behind a base;
  * `NextDue` -- the one that is waited for at a time: `NextDue.start`, `NextDue.later`,
    `NextDue.ended` -- it is known at the base, stays while time goes by, and moves on when it ends;
  * `NextDue.le_of_due`, `due_before_ended` -- **nothing is due in between**.
-/

namespace Lib

variable {base period now d u : Nat}

/-- `u` is one or more periods behind the base. -/
def Due (base period u : Nat) : Prop := ∃ k, 0 < k ∧ u = base + k * period

/-- `d` is due, not before `now`, and the one before it is not behind `now`. -/
structure NextDue (base period now d : Nat) : Prop where
  due : Due base period d
  le : now ≤ d
  near : d ≤ now + period

theorem NextDue.start (base period : Nat) : NextDue base period base (base + period) :=
  ⟨⟨1, Nat.one_pos, by rw [Nat.one_mul]⟩, Nat.le_add_right _ _, Nat.le_refl _⟩

theorem NextDue.later (h : NextDue base period now d) {t : Nat} (ht : now ≤ t) (hd : t ≤ d) :
    NextDue base period t d :=
  ⟨h.due, hd, Nat.le_trans h.near (Nat.add_le_add_right ht period)⟩

theorem NextDue.ended (h : NextDue base period d d) : NextDue base period d (d + period) := by
  obtain ⟨k, hk, hd⟩ := h.due
  refine ⟨⟨k + 1, Nat.succ_pos k, ?_⟩, Nat.le_add_right _ _, Nat.le_refl _⟩
  rw [Nat.succ_mul, ← Nat.add_assoc, ← hd]

/-- **Nothing is due before `d`.** -/
theorem NextDue.le_of_due (h : NextDue base period now d) (hu : Due base period u) (hlt : now < u) :
    d ≤ u := by
  obtain ⟨k, -, hd⟩ := h.due
  obtain ⟨j, -, hu⟩ := hu
  refine Nat.le_of_not_lt fun hlt' => ?_
  have hjk : j < k := by
    refine Nat.lt_of_not_le fun hge => ?_
    have hmul := Nat.mul_le_mul_right period hge
    omega
  have hmul := Nat.mul_le_mul_right period (Nat.succ_le_of_lt hjk)
  rw [Nat.succ_mul] at hmul
  have hnear := h.near
  omega

/-- What is due before the next end. -/
theorem due_before_ended (hpos : 0 < period) (h : NextDue base period d d) :
    Due base period u ∧ u < d + period ↔ Due base period u ∧ u < d ∨ u = d := by
  constructor
  · intro hu
    rcases Nat.lt_trichotomy u d with hlt | heq | hgt
    · exact .inl ⟨hu.1, hlt⟩
    · exact .inr heq
    · exact absurd hu.2 (Nat.not_lt.mpr (h.ended.le_of_due hu.1 hgt))
  · intro hu
    rcases hu with hu | rfl
    · exact ⟨hu.1, Nat.lt_add_right period hu.2⟩
    · exact ⟨h.due, Nat.lt_add_of_pos_right hpos⟩

end Lib
