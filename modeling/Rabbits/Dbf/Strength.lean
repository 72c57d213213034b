/-
  File:      Rabbits/Dbf/Strength.lean
  Subject:   The boundary strength of a luma edge (dbf_device.cpp: get_bS, as filter_vertical_L and
             filter_horizontal_L call it).

  * `EdgeDir.OnBoundary`, `DbfDevice.Intra` -- where an edge lies, and what the macroblocks are;
  * `StrengthRight` -- **the rule**: 4 on the boundary of a macroblock when a side is intra, 3 inside
    one that is intra;
  * `getBS_cases` -- what `get_bS` computes: it takes the column for the place of either edge;
  * `strengthRight_iff` -- **the rule holds for vertical edges**, and for a horizontal one with an
    intra side exactly when its column is a multiple of 16 just as its row is.
-/
import Rabbits.Dbf.EdgeCalls

namespace Rabbits

open Lib

/-! ## 1. The rule -/

/-- The edge lies between two macroblocks. -/
def EdgeDir.OnBoundary (dir : EdgeDir) (x y : Nat) : Prop :=
  match dir with
  | vertical => x % 16 = 0
  | horizontal => y % 16 = 0

/-- The macroblock of a pixel is intra. -/
def DbfDevice.Intra (d : DbfDevice) (a : Nat × Nat) : Prop :=
  isIntra (d.mData (mbAddr d.picWidthInMbs (a.1 / 16) (a.2 / 16) MODE_OFFSET)) = true

instance (d : DbfDevice) (a : Nat × Nat) : Decidable (d.Intra a) := by
  unfold DbfDevice.Intra
  infer_instance

/-- The strengths 3 and 4 of a sample at `x`, `y`. -/
structure StrengthRight (d : DbfDevice) (dir : EdgeDir) (x y bS : Nat) : Prop where
  four : bS = 4 ↔ dir.OnBoundary x y ∧ (d.Intra (x, y) ∨ d.Intra (dir.other x y))
  three : bS = 3 ↔ ¬ dir.OnBoundary x y ∧ d.Intra (x, y)

/-! ## 2. What is computed -/

theorem intraAt_eq_some {x y : Nat} {d d' : DbfDevice} {b : Bool}
    (h : (intraAt x y).run d = some (b, d')) : (b = true ↔ d.Intra (x, y)) ∧ d = d' := by
  obtain ⟨m, d₁, hmode, hret⟩ := run_bind_eq_some h
  obtain ⟨w, d₂, hw, hdata⟩ := run_bind_eq_some hmode
  cases hw
  obtain ⟨rfl, rfl⟩ := getData_eq_some hdata
  cases hret
  exact ⟨Iff.rfl, rfl⟩

/-- Both sides are looked at only where the column is that of a boundary. -/
theorem boundaryIntra_eq_some {qx qy px py : Nat} {d d' : DbfDevice} {b : Bool}
    (h : (pure (qx % 16 == 0) <&&> (intraAt qx qy <||> intraAt px py) : DbfM Bool).run d =
      some (b, d')) :
    (b = true ↔ qx % 16 = 0 ∧ (d.Intra (qx, qy) ∨ d.Intra (px, py))) ∧ d = d' := by
  obtain ⟨c, d₁, hc, hrest⟩ := run_bind_eq_some h
  cases hc
  by_cases hx : qx % 16 = 0
  · rw [beq_iff_eq.mpr hx] at hrest
    obtain ⟨q, d₂, hqrun, hprun⟩ := run_bind_eq_some hrest
    obtain ⟨hq, rfl⟩ := intraAt_eq_some hqrun
    cases q with
    | true =>
        cases hprun
        exact ⟨iff_of_true rfl ⟨hx, .inl (hq.mp rfl)⟩, rfl⟩
    | false =>
        obtain ⟨hp, rfl⟩ := intraAt_eq_some hprun
        refine ⟨?_, rfl⟩
        simp only [hp, hx, true_and, ← hq, Bool.false_eq_true, false_or]
  · rw [beq_eq_false_iff_ne.mpr hx] at hrest
    cases hrest
    exact ⟨by simp [hx], rfl⟩

/-- Without intra macroblocks the strength is at most 2. -/
theorem low_strength {coded apart : DbfM Bool} {d d' : DbfDevice} {bS : Nat}
    (h : (do
      if ← coded then return 2
      else if ← apart then return 1
      else return 0 : DbfM Nat).run d = some (bS, d')) : bS ≤ 2 := by
  obtain ⟨c, d₁, -, hrest⟩ := run_bind_eq_some h
  cases c with
  | true =>
      rw [if_pos rfl] at hrest
      cases hrest
      exact le_rfl
  | false =>
      rw [if_neg (by decide)] at hrest
      obtain ⟨m, d₂, -, hlast⟩ := run_bind_eq_some hrest
      cases m with
      | true =>
          rw [if_pos rfl] at hlast
          cases hlast
          decide
      | false =>
          rw [if_neg (by decide)] at hlast
          cases hlast
          decide

/-- **What `get_bS` computes.** -/
theorem getBS_cases {qx qy px py bS : Nat} {d d' : DbfDevice}
    (h : (getBS qx qy px py).run d = some (bS, d')) :
    (bS = 4 ↔ qx % 16 = 0 ∧ (d.Intra (qx, qy) ∨ d.Intra (px, py))) ∧
      (bS = 3 ↔ qx % 16 ≠ 0 ∧ d.Intra (qx, qy)) := by
  obtain ⟨b, d₁, hbrun, hrest⟩ := run_bind_eq_some h
  obtain ⟨hb, rfl⟩ := boundaryIntra_eq_some hbrun
  cases b with
  | true =>
      rw [if_pos rfl] at hrest
      cases hrest
      have hboth := hb.mp rfl
      exact ⟨iff_of_true rfl hboth, iff_of_false (by decide) fun hthree => hthree.1 hboth.1⟩
  | false =>
      rw [if_neg (by decide)] at hrest
      have hnot : ¬ (qx % 16 = 0 ∧ (d.Intra (qx, qy) ∨ d.Intra (px, py))) :=
        fun hboth => absurd (hb.mpr hboth) (by decide)
      obtain ⟨q, d₂, hqrun, hrest⟩ := run_bind_eq_some hrest
      obtain ⟨hq, rfl⟩ := intraAt_eq_some hqrun
      cases q with
      | true =>
          rw [if_pos rfl] at hrest
          cases hrest
          have hintra := hq.mp rfl
          exact ⟨iff_of_false (by decide) hnot,
            iff_of_true rfl ⟨fun hx => hnot ⟨hx, .inl hintra⟩, hintra⟩⟩
      | false =>
          rw [if_neg (by decide)] at hrest
          have hinter : ¬ d.Intra (qx, qy) := fun hintra => absurd (hq.mpr hintra) (by decide)
          have hsmall := low_strength hrest
          exact ⟨iff_of_false (by omega) hnot, iff_of_false (by omega) fun hthree => hinter hthree.2⟩

/-! ## 3. The two directions -/

/-- **Which strengths are right**: for every memory and every luma sample whose strength is computed,
    those of vertical edges, and those of horizontal edges between two macroblocks that are not
    intra, or where the column is a multiple of 16 if and only if the row is. -/
theorem strengthRight_iff {d d' : DbfDevice} {dir : EdgeDir} {x y bS : Nat}
    (h : (getBS x y (dir.other x y).1 (dir.other x y).2).run d = some (bS, d')) :
    StrengthRight d dir x y bS ↔
      (dir = .horizontal → d.Intra (x, y) ∨ d.Intra (dir.other x y) →
        (x % 16 = 0 ↔ y % 16 = 0)) := by
  obtain ⟨hfour, hthree⟩ := getBS_cases h
  cases dir with
  | vertical => exact iff_of_true ⟨hfour, hthree⟩ fun hdir => by cases hdir
  | horizontal =>
      simp only [true_imp_iff]
      constructor
      · intro hright hintra
        have hx := hfour.symm.trans hright.four
        simp only [EdgeDir.OnBoundary, hintra, and_true] at hx
        exact hx
      · intro hsame
        refine ⟨hfour.trans ?_, hthree.trans ?_⟩
        · exact and_congr_left fun hintra => hsame hintra
        · exact and_congr_left fun hintra => not_congr (hsame (.inl hintra))

/-- The strength where the first macroblock is intra. -/
theorem getBS_run_of_intra {qx qy : Nat} {d : DbfDevice} (hq : d.Intra (qx, qy))
    (ha : mbAddr d.picWidthInMbs (qx / 16) (qy / 16) MODE_OFFSET ≤ FPGA_CHAR_SIZE) (px py : Nat) :
    (getBS qx qy px py).run d = some (if qx % 16 = 0 then 4 else 3, d) := by
  have hwidth : (PicWidthInMbs).run d = some (d.picWidthInMbs, d) := rfl
  have hmode : (intraAt qx qy).run d = some (true, d) := by
    rw [intraAt, getMode, bind_assoc, run_bind_of hwidth, run_bind_of (getData_run ha d),
      show isIntra _ = true from hq]
    rfl
  by_cases hx : qx % 16 = 0
  · have heither : (intraAt qx qy <||> intraAt px py : DbfM Bool).run d = some (true, d) := by
      rw [orM, run_bind_of hmode]
      rfl
    have hboth : (pure (qx % 16 == 0) <&&> (intraAt qx qy <||> intraAt px py) : DbfM Bool).run d =
        some (true, d) := by
      rw [beq_iff_eq.mpr hx, andM, pure_bind]
      exact heither
    rw [getBS, run_bind_of hboth, if_pos rfl, if_pos hx]
    rfl
  · have hnone : (pure (qx % 16 == 0) <&&> (intraAt qx qy <||> intraAt px py) : DbfM Bool).run d =
        some (false, d) := by
      rw [beq_eq_false_iff_ne.mpr hx]
      rfl
    rw [getBS, run_bind_of hnone, if_neg (by decide), run_bind_of hmode, if_pos rfl, if_neg hx]
    rfl

/-- `fourRows` with an intra macroblock, once `filter_slice` has set the width. -/
def oneIntra : DbfDevice := (fourRows.poke (mbAddr 8 1 1 MODE_OFFSET) 5#8).sized

/-- Its left edge. -/
theorem strengthRight_left : StrengthRight oneIntra .vertical 16 17 4 :=
  (strengthRight_iff (getBS_run_of_intra (by decide) (by decide) _ _)).mpr (by decide)

/-- A sample of its upper edge that `filter_slice` filters, with the strength 3. -/
theorem strength_fails : .luma .horizontal 17 16 ∈ oneIntra.calls 0 ∧
    (getBS 17 16 (EdgeDir.horizontal.other 17 16).1 (EdgeDir.horizontal.other 17 16).2).run oneIntra =
      some (3, oneIntra) ∧ ¬ StrengthRight oneIntra .horizontal 17 16 3 := by
  have hrange : oneIntra.offset 0 = 0 ∧ oneIntra.length 0 = 32 ∧ oneIntra.width = 8 := by decide
  refine ⟨(mbCallsAt_sublist (c := 9) ?_).subset ?_,
    getBS_run_of_intra (by decide) (by decide) _ _, fun hright => ?_⟩
  · rw [DbfDevice.mbs, hrange.1, hrange.2.1]
    exact ⟨by decide, by decide⟩
  · rw [hrange.1, hrange.2.2]
    decide
  · exact absurd (hright.four.mpr ⟨rfl, .inl (by decide)⟩) (by decide)

end Rabbits
