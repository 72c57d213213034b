/-
  File:      Rabbits/Dbf/Thresholds.lean
  Subject:   The sample flag for coarser quantisation (dbf_device.cpp: alpha_t, beta_t, filter_block).

  The tables grow, but they are tables of `char`: the entries of `alpha_t` from index 45 on, 144 to
  255, are read as negative numbers, and no difference of pixels is below these.

  * `alpha_pos_iff`, `alpha_mono` -- the threshold is positive from index 16 to 44, where it grows;
  * `beta_pos_iff`, `beta_mono` -- that for the other table, which stays small;
  * `FlagKept` -- **the property**: a flag that is set for two QP is set for two larger ones;
  * `flagKept_iff` -- **the property holds unless the larger QP get to index 45** and the smaller ones
    have thresholds.
-/
import Rabbits.Dbf.SampleBounds
import Mathlib.Algebra.Order.SuccPred
import Mathlib.Data.Nat.SuccPred
import Mathlib.Order.Interval.Set.OrdConnected

namespace Rabbits

/-! ## 1. The tables -/

/-- A table grows where each entry is at most the next one. -/
theorem charAt_mono {table : List Byte} {n : Nat}
    (hstep : ∀ i < n, charAt table i ≤ charAt table (i + 1 : Nat)) {i j : Int} (hi : 0 ≤ i)
    (hij : i ≤ j) (hj : j ≤ n) : charAt table i ≤ charAt table j := by
  have hmono : MonotoneOn (fun k : Nat => charAt table k) (Set.Iic n) :=
    monotoneOn_of_le_add_one Set.ordConnected_Iic fun k _ _ hk => hstep k hk
  lift i to Nat using hi
  lift j to Nat using by omega
  exact hmono (Set.mem_Iic.mpr (by omega)) (Set.mem_Iic.mpr (by omega)) (by omega)

theorem alpha_mono {i j : Int} (hi : 0 ≤ i) (hij : i ≤ j) (hj : j ≤ 44) :
    charAt alphaT i ≤ charAt alphaT j :=
  charAt_mono (n := 44) (by decide) hi hij hj

theorem beta_mono {i j : Int} (hi : 0 ≤ i) (hij : i ≤ j) (hj : j ≤ 51) :
    charAt betaT i ≤ charAt betaT j :=
  charAt_mono (n := 51) (by decide) hi hij hj

theorem alpha_pos_iff {i : Int} (hi : 0 ≤ i) (h51 : i ≤ 51) :
    0 < charAt alphaT i ↔ 16 ≤ i ∧ i ≤ 44 := by
  have htable : ∀ k < 52, 0 < charAt alphaT (k : Nat) ↔ 16 ≤ k ∧ k ≤ 44 := by decide
  have hk := htable i.toNat (by omega)
  rw [Int.toNat_of_nonneg hi] at hk
  rw [hk]
  omega

theorem beta_pos_iff {i : Int} (hi : 0 ≤ i) (h51 : i ≤ 51) : 0 < charAt betaT i ↔ 16 ≤ i := by
  have htable : ∀ k < 52, 0 < charAt betaT (k : Nat) ↔ 16 ≤ k := by decide
  have hk := htable i.toNat (by omega)
  rw [Int.toNat_of_nonneg hi] at hk
  rw [hk]
  omega

/-! ## 2. The indices -/

/-- What is clipped to an index: the mean of the two QP, and an offset. -/
def meanQP (QPq QPp : Int) (off : Byte) : Int := (QPq + QPp + 1) / 2 + (off.toNat : Int) * 4

theorem customClip_eq (v : Int) :
    customClip v 0 51 = if v < 0 then 0 else if v > 51 then 51 else v := rfl

theorem indexAB_eq (QPq QPp : Int) (off : Byte) :
    indexAB QPq QPp off = customClip (meanQP QPq QPp off) 0 51 := rfl

section Index

variable {QPq QPp QPq' QPp' : Int} (off : Byte)

theorem indexAB_mono (hq : QPq ≤ QPq') (hp : QPp ≤ QPp') :
    indexAB QPq QPp off ≤ indexAB QPq' QPp' off := by
  have hmean : meanQP QPq QPp off ≤ meanQP QPq' QPp' off := by
    unfold meanQP
    omega
  rw [indexAB_eq, indexAB_eq, customClip_eq, customClip_eq]
  omega

theorem le_indexAB_iff {n : Int} (h0 : 0 < n) (h51 : n ≤ 51) :
    n ≤ indexAB QPq QPp off ↔ n ≤ meanQP QPq QPp off := by
  rw [indexAB_eq, customClip_eq]
  omega

theorem alpha_pos_iff_mean :
    0 < charAt alphaT (indexAB QPq QPp off) ↔
      16 ≤ meanQP QPq QPp off ∧ meanQP QPq QPp off ≤ 44 := by
  have hmem := indexAB_mem QPq QPp off
  have h45 : 45 ≤ indexAB QPq QPp off ↔ 45 ≤ meanQP QPq QPp off :=
    le_indexAB_iff off (by decide) (by decide)
  rw [alpha_pos_iff hmem.1 hmem.2, le_indexAB_iff off (by decide) (by decide)]
  omega

theorem beta_pos_iff_mean :
    0 < charAt betaT (indexAB QPq QPp off) ↔ 16 ≤ meanQP QPq QPp off := by
  have hmem := indexAB_mem QPq QPp off
  rw [beta_pos_iff hmem.1 hmem.2, le_indexAB_iff off (by decide) (by decide)]

end Index

/-! ## 3. The flag -/

/-- The flag of `filter_block` for some QP and offsets; it does not depend on the chroma flag. -/
def flagFor (QPq QPp : Int) (alphaOff betaOff : Byte) (qp : SQp) (bS : Nat) : Bool :=
  FilterArgs.sampleFlag ⟨QPq, QPp, alphaOff, betaOff, 0⟩ qp.samples bS

/-- Where the flag is set for two QP, it is set for two others. -/
def FlagKept (alphaOff betaOff : Byte) (QPq QPp QPq' QPp' : Int) : Prop :=
  ∀ (qp : SQp) (bS : Nat), bS ≠ 0 → flagFor QPq QPp alphaOff betaOff qp bS = true →
    flagFor QPq' QPp' alphaOff betaOff qp bS = true

section Flag

variable {QPq QPp : Int} {alphaOff betaOff : Byte}

theorem flagFor_iff {qp : SQp} {bS : Nat} : flagFor QPq QPp alphaOff betaOff qp bS = true ↔
    bS ≠ 0 ∧ |((qp.p 0).toNat : Int) - (qp.q 0).toNat| < charAt alphaT (indexAB QPq QPp alphaOff) ∧
      |((qp.p 1).toNat : Int) - (qp.p 0).toNat| < charAt betaT (indexAB QPq QPp betaOff) ∧
      |((qp.q 1).toNat : Int) - (qp.q 0).toNat| < charAt betaT (indexAB QPq QPp betaOff) := by
  simp only [flagFor, FilterArgs.sampleFlag, filterSampleFlag, decide_eq_true_eq]
  rfl

/-- A flag that is set has thresholds above zero. -/
theorem pos_of_flag {qp : SQp} {bS : Nat} (h : flagFor QPq QPp alphaOff betaOff qp bS = true) :
    0 < charAt alphaT (indexAB QPq QPp alphaOff) ∧ 0 < charAt betaT (indexAB QPq QPp betaOff) := by
  obtain ⟨-, ha, hb, -⟩ := flagFor_iff.mp h
  exact ⟨(abs_nonneg _).trans_lt ha, (abs_nonneg _).trans_lt hb⟩

/-- With such thresholds the flag of eight equal pixels is set. -/
theorem flag_of_pos {bS : Nat} (hbS : bS ≠ 0) (ha : 0 < charAt alphaT (indexAB QPq QPp alphaOff))
    (hb : 0 < charAt betaT (indexAB QPq QPp betaOff)) (c : Byte) :
    flagFor QPq QPp alphaOff betaOff ⟨fun _ => c, fun _ => c⟩ bS = true := by
  refine flagFor_iff.mpr ?_
  rw [sub_self, abs_zero]
  exact ⟨hbS, ha, hb, hb⟩

end Flag

/-- **When the filter stays on for coarser quantisation**: for all offsets and QP, the flag of all
    pixels and strengths that is set for the smaller pair is set for the larger one, unless the
    smaller pair has both thresholds and the larger one gets to index 45 of `alpha_t`. -/
theorem flagKept_iff (alphaOff betaOff : Byte) {QPq QPp QPq' QPp' : Int} (hq : QPq ≤ QPq')
    (hp : QPp ≤ QPp') : FlagKept alphaOff betaOff QPq QPp QPq' QPp' ↔
      ¬ (16 ≤ meanQP QPq QPp alphaOff ∧ meanQP QPq QPp alphaOff ≤ 44 ∧
        16 ≤ meanQP QPq QPp betaOff ∧ 45 ≤ meanQP QPq' QPp' alphaOff) := by
  constructor
  · intro hkept hbad
    obtain ⟨h16, h44, hb, h45⟩ := hbad
    have hset := hkept _ 1 (by decide) (flag_of_pos (by decide)
      ((alpha_pos_iff_mean alphaOff).mpr ⟨h16, h44⟩) ((beta_pos_iff_mean betaOff).mpr hb) 0#8)
    have hle := (alpha_pos_iff_mean alphaOff).mp (pos_of_flag hset).1
    omega
  · intro hgood qp bS hbS hset
    obtain ⟨ha, hb⟩ := pos_of_flag hset
    have hmean := (alpha_pos_iff_mean alphaOff).mp ha
    have hmeanB := (beta_pos_iff_mean betaOff).mp hb
    -- the larger pair stays in the part of the table that grows
    have h45 : ¬ 45 ≤ indexAB QPq' QPp' alphaOff := by
      rw [le_indexAB_iff alphaOff (by decide) (by decide)]
      omega
    have hA := alpha_mono (indexAB_mem QPq QPp alphaOff).1 (indexAB_mono alphaOff hq hp) (by omega)
    have hB := beta_mono (indexAB_mem QPq QPp betaOff).1 (indexAB_mono betaOff hq hp)
      (indexAB_mem QPq' QPp' betaOff).2
    obtain ⟨-, h0, h1, h2⟩ := flagFor_iff.mp hset
    exact flagFor_iff.mpr ⟨hbS, h0.trans_le hA, h1.trans_le hB, h2.trans_le hB⟩

/-- From QP 20 and 30 to 35 and 40. -/
theorem flagKept_small : FlagKept 0#8 0#8 20 30 35 40 :=
  (flagKept_iff 0#8 0#8 (by decide) (by decide)).mpr (by decide)

/-- Eight equal pixels with QP 44, and with QP 45. -/
theorem flagKept_fails : ¬ FlagKept 0#8 0#8 44 44 45 45 := by
  intro hkept
  have hset := hkept ⟨fun _ => 0#8, fun _ => 0#8⟩ 1 (by decide) (by decide)
  exact absurd hset (by decide)

end Rabbits
