/-
  File:      Rabbits/Dbf/SampleBounds.lean
  Subject:   The bounds of the filter of eight pixels (dbf_device.cpp: filter_block, alpha_t, beta_t,
             tc0_t).

  The filter computes in `int` and stores in `unsigned char`, without a clip for `p[1]` and `q[1]` and
  none for the strength 4.

  * `normal_inByte`, `strong_inByte` -- one side of an edge: **no new pixel leaves a byte**;
  * `FilterSound`, `filterSound` -- **what the filter keeps**, for all pixels and parameters.
-/
import Rabbits.Dbf.Filter
import Mathlib.Algebra.Order.Group.Abs
import Mathlib.Tactic.FinCases

namespace Rabbits

/-! ## 1. The tables -/

/-- A table of small entries. -/
theorem charAt_nonneg {table : List Byte} (h : ∀ b ∈ table, b.toNat < 128) (index : Int) :
    0 ≤ charAt table index := by
  rw [charAt, List.getD_eq_getElem?_getD]
  cases hget : table[index.toNat]? with
  | none => exact le_rfl
  | some b =>
      have hb := h b (List.mem_of_getElem? hget)
      rw [Option.getD_some, BitVec.toInt_eq_toNat_of_lt (by omega)]
      omega

/-- The entries of the tables for `tc0`. -/
theorem tc0T_rows : ∀ row ∈ tc0T, row.length = 52 ∧ ∀ b ∈ row, b.toNat < 128 := by
  simp [tc0T]

theorem tc0_nonneg (row : Nat) (index : Int) : 0 ≤ charAt (tc0T.getD row []) index := by
  refine charAt_nonneg ?_ index
  rw [List.getD_eq_getElem?_getD]
  cases hget : tc0T[row]? with
  | none => exact fun b hb => absurd hb List.not_mem_nil
  | some r => exact (tc0T_rows r (List.mem_of_getElem? hget)).2

theorem customClip_mem {lo hi : Int} (h : lo ≤ hi) (v : Int) :
    lo ≤ customClip v lo hi ∧ customClip v lo hi ≤ hi := by
  unfold customClip
  split
  · omega
  · split <;> omega

/-- The indices of the tables. -/
theorem indexAB_mem (QPq QPp : Int) (off : Byte) :
    0 ≤ indexAB QPq QPp off ∧ indexAB QPq QPp off ≤ 51 :=
  customClip_mem (by decide) _

/-! ## 2. One side -/

/-- The range of an `unsigned char`. -/
def InByte (v : Int) : Prop := 0 ≤ v ∧ v ≤ 255

theorem inByte_toNat (b : Byte) : InByte b.toNat := by
  have hlt := b.isLt
  exact ⟨by omega, by omega⟩

theorem toNat_of_inByte {v : Int} (h : InByte v) : ((BitVec.ofInt 8 v).toNat : Int) = v := by
  obtain ⟨hlo, hhi⟩ := h
  rw [BitVec.toNat_ofInt]
  have hmod : v % (2 ^ 8 : Nat) = v := Int.emod_eq_of_lt hlo (by omega)
  rw [hmod, Int.toNat_of_nonneg hlo]

/-- A change that is clipped moves a pixel at most all the way to where it was to go. -/
theorem step_inByte {x y v c : Int} (hx : InByte x) (hxv : InByte (x + v)) (hc : 0 ≤ c)
    (hy : y = x + customClip v (-c) c) : InByte y ∧ |y - x| ≤ c := by
  obtain ⟨hx0, hx1⟩ := hx
  obtain ⟨hv0, hv1⟩ := hxv
  rw [abs_le]
  unfold customClip at hy
  split at hy
  · exact ⟨⟨by omega, by omega⟩, by omega, by omega⟩
  · split at hy
    · exact ⟨⟨by omega, by omega⟩, by omega, by omega⟩
    · exact ⟨⟨by omega, by omega⟩, by omega, by omega⟩

theorem clip_step {x delta c : Int} (hx : InByte x) (hlo : -c ≤ delta) (hhi : delta ≤ c) :
    InByte (clip (x + delta)) ∧ |clip (x + delta) - x| ≤ c := by
  obtain ⟨hx0, hx1⟩ := hx
  have hclip := customClip_mem (show (0 : Int) ≤ 255 by decide) (x + delta)
  refine ⟨hclip, abs_le.mpr ?_⟩
  unfold clip customClip
  split
  · exact ⟨by omega, by omega⟩
  · split
    · exact ⟨by omega, by omega⟩
    · exact ⟨by omega, by omega⟩

section Side

variable {p q : Fin 4 → Int} (hp : ∀ i, InByte (p i)) (hq : ∀ i, InByte (q i))
include hp hq

/-- The pixel next to the outermost one that is filtered: the average it moves to is in a byte. -/
theorem average_inByte :
    InByte (p 1 + (p 2 + (p 0 + q 0 + 1) / 2 - p 1 * 2) / 2) := by
  have h0 := hp 0
  have h2 := hp 2
  have h0' := hq 0
  unfold InByte at *
  exact ⟨by omega, by omega⟩

/-- **The new pixels of a side**, for a strength below 4. -/
theorem normal_inByte {beta tc0 delta c : Int} (htc0 : 0 ≤ tc0) (hlo : -c ≤ delta) (hhi : delta ≤ c)
    (chromaFlag : Nat) :
    (∀ i, InByte (filterNormal p q beta tc0 delta chromaFlag i)) ∧
      |filterNormal p q beta tc0 delta chromaFlag 0 - p 0| ≤ c ∧
      |filterNormal p q beta tc0 delta chromaFlag 1 - p 1| ≤ tc0 := by
  obtain ⟨h0, hmove0⟩ := clip_step (hp 0) hlo hhi
  have hone : InByte (filterNormal p q beta tc0 delta chromaFlag 1) ∧
      |filterNormal p q beta tc0 delta chromaFlag 1 - p 1| ≤ tc0 := by
    show InByte (if _ then _ else _) ∧ |(if _ then _ else _) - _| ≤ _
    split
    · exact step_inByte (hp 1) (average_inByte hp hq) htc0 rfl
    · rw [sub_self, abs_zero]
      exact ⟨hp 1, htc0⟩
  refine ⟨?_, hmove0, hone.2⟩
  rw [Fin.forall_fin_succ, Fin.forall_fin_succ, Fin.forall_fin_two]
  exact ⟨h0, hone.1, hp 2, hp 3⟩

/-- **The new pixels of a side**, for the strength 4: they are averages. -/
theorem strong_inByte (alpha beta : Int) (chromaFlag : Nat) (i : Fin 4) :
    InByte (filterStrong p q alpha beta chromaFlag i) := by
  have h0 := hp 0
  have h1 := hp 1
  have h2 := hp 2
  have h3 := hp 3
  have h0' := hq 0
  have h1' := hq 1
  unfold filterStrong
  revert i
  rw [Fin.forall_fin_succ, Fin.forall_fin_succ, Fin.forall_fin_two]
  split
  · refine ⟨show InByte ((p 2 + 2 * p 1 + 2 * p 0 + 2 * q 0 + q 1 + 4) / 8) from ?_,
      show InByte ((p 2 + p 1 + p 0 + q 0 + 2) / 4) from ?_,
      show InByte ((2 * p 3 + 3 * p 2 + p 1 + p 0 + q 0 + 4) / 8) from ?_, h3⟩
    all_goals
      unfold InByte at *
      exact ⟨by omega, by omega⟩
  · refine ⟨show InByte ((2 * p 1 + p 0 + q 1 + 2) / 4) from ?_, h1, h2, h3⟩
    unfold InByte at *
    exact ⟨by omega, by omega⟩

end Side

theorem filterStrong_outer (p q : Fin 4 → Int) (alpha beta : Int) (chromaFlag : Nat) :
    filterStrong p q alpha beta chromaFlag 3 = p 3 := by
  unfold filterStrong
  split <;> rfl

section Chroma

variable {p q : Fin 4 → Int} {chromaFlag : Nat} (hchroma : chromaFlag ≠ 0) {i : Fin 4} (hi : i ≠ 0)
include hchroma hi

theorem filterNormal_chroma {beta tc0 delta : Int} :
    filterNormal p q beta tc0 delta chromaFlag i = p i := by
  have hone : filterNormal p q beta tc0 delta chromaFlag 1 = p 1 := if_neg fun hand => hchroma hand.2
  fin_cases i
  · exact absurd rfl hi
  · exact hone
  · rfl
  · rfl

theorem filterStrong_chroma {alpha beta : Int} :
    filterStrong p q alpha beta chromaFlag i = p i := by
  unfold filterStrong
  rw [if_neg fun hand => hchroma hand.1]
  fin_cases i
  · exact absurd rfl hi
  · rfl
  · rfl
  · rfl

end Chroma

/-! ## 3. Eight pixels -/

namespace FilterArgs

variable {a : FilterArgs} {s : Samples} {bS : Nat}

theorem store_samples (qp : SQp) : qp.samples.store = qp := by
  simp only [SQp.samples, Samples.store, BitVec.ofInt_natCast, BitVec.ofNat_toNat, BitVec.setWidth_eq]

/-- The model of `filter_block` stores these pixels. -/
theorem filter_eq (qp : SQp) : a.filter qp bS = (a.new qp.samples bS).store := by
  unfold new
  split
  · next hflag =>
      refine (if_pos hflag).trans ?_
      split
      · rfl
      · split
        · rfl
        · exact (store_samples qp).symm
  · next hflag => exact (if_neg hflag).trans (store_samples qp).symm

/-- A property of the new pixels, by the three cases. -/
theorem new_of {P : Samples → Prop} (hkept : P s) (hnormal : P (a.normal s bS))
    (hstrong : bS = 4 → P (a.strong s)) : P (a.new s bS) := by
  unfold new
  split
  · split
    · exact hnormal
    · split
      · next hfour => exact hstrong hfour
      · exact hkept
  · exact hkept

theorem tc_nonneg : 0 ≤ a.tc s bS := by
  have htc0 : 0 ≤ a.tc0 bS := tc0_nonneg _ _
  unfold tc
  split
  · split <;> split <;> omega
  · omega

theorem delta_mem : -a.tc s bS ≤ a.delta s bS ∧ a.delta s bS ≤ a.tc s bS := by
  have htc : 0 ≤ a.tc s bS := tc_nonneg
  exact customClip_mem (by omega) _

/-! ## 4. What is kept -/

/-- An index of a table. -/
def InTable (table : List Byte) (index : Int) : Prop := 0 ≤ index ∧ index < table.length

/-- How far a pixel has moved. -/
def moved (new old : Byte) : Int := |(new.toNat : Int) - old.toNat|

/-- What `filter_block` keeps. -/
structure Sound (a : FilterArgs) (qp : SQp) (bS : Nat) : Prop where
  stored : a.filter qp bS = (a.new qp.samples bS).store
  inByte : ∀ i, InByte ((a.new qp.samples bS).p i) ∧ InByte ((a.new qp.samples bS).q i)
  off : bS = 0 ∨ a.sampleFlag qp.samples bS = false → a.filter qp bS = qp
  outer : (a.filter qp bS).p 3 = qp.p 3 ∧ (a.filter qp bS).q 3 = qp.q 3
  chroma : a.chromaFlag ≠ 0 → ∀ i, i ≠ 0 →
    (a.filter qp bS).p i = qp.p i ∧ (a.filter qp bS).q i = qp.q i
  first : bS < 4 → moved ((a.filter qp bS).p 0) (qp.p 0) ≤ a.tc qp.samples bS ∧
    moved ((a.filter qp bS).q 0) (qp.q 0) ≤ a.tc qp.samples bS
  second : bS < 4 → moved ((a.filter qp bS).p 1) (qp.p 1) ≤ a.tc0 bS ∧
    moved ((a.filter qp bS).q 1) (qp.q 1) ≤ a.tc0 bS
  tables : InTable alphaT a.indexA ∧ InTable betaT a.indexB ∧
    (a.sampleFlag qp.samples bS = true → bS < 4 →
      0 < bS ∧ ∃ row, tc0T[bS - 1]? = some row ∧ InTable row a.indexA)

section Kept

variable (a) (qp : SQp)

/-- Both sides, for a strength below 4; the other side moves the other way. -/
theorem normal_spec (bS : Nat) :
    ((∀ i, InByte ((a.normal qp.samples bS).p i)) ∧
      |(a.normal qp.samples bS).p 0 - qp.samples.p 0| ≤ a.tc qp.samples bS ∧
      |(a.normal qp.samples bS).p 1 - qp.samples.p 1| ≤ a.tc0 bS) ∧
    (∀ i, InByte ((a.normal qp.samples bS).q i)) ∧
      |(a.normal qp.samples bS).q 0 - qp.samples.q 0| ≤ a.tc qp.samples bS ∧
      |(a.normal qp.samples bS).q 1 - qp.samples.q 1| ≤ a.tc0 bS := by
  have hp : ∀ i, InByte (qp.samples.p i) := fun i => inByte_toNat (qp.p i)
  have hq : ∀ i, InByte (qp.samples.q i) := fun i => inByte_toNat (qp.q i)
  obtain ⟨hlo, hhi⟩ : -a.tc qp.samples bS ≤ a.delta qp.samples bS ∧
    a.delta qp.samples bS ≤ a.tc qp.samples bS := delta_mem
  exact ⟨normal_inByte hp hq (tc0_nonneg _ _) hlo hhi _,
    normal_inByte hq hp (tc0_nonneg _ _) (neg_le_neg hhi) (neg_le.mp hlo) _⟩

theorem new_inByte (i : Fin 4) :
    InByte ((a.new qp.samples bS).p i) ∧ InByte ((a.new qp.samples bS).q i) := by
  have hp : ∀ i, InByte (qp.samples.p i) := fun i => inByte_toNat (qp.p i)
  have hq : ∀ i, InByte (qp.samples.q i) := fun i => inByte_toNat (qp.q i)
  refine new_of (P := fun r => InByte (r.p i) ∧ InByte (r.q i)) ⟨hp i, hq i⟩ ?_ fun _ => ?_
  · obtain ⟨⟨hnp, -⟩, hnq, -⟩ := a.normal_spec qp bS
    exact ⟨hnp i, hnq i⟩
  · exact ⟨strong_inByte hp hq _ _ _ i, strong_inByte hq hp _ _ _ i⟩

/-- A pixel that is not computed is stored as it was read. -/
theorem filter_kept {qp : SQp} {i : Fin 4} (h : (a.new qp.samples bS).p i = qp.samples.p i ∧
    (a.new qp.samples bS).q i = qp.samples.q i) :
    (a.filter qp bS).p i = qp.p i ∧ (a.filter qp bS).q i = qp.q i := by
  rw [filter_eq]
  refine ⟨?_, ?_⟩
  · show BitVec.ofInt 8 ((a.new qp.samples bS).p i) = _
    rw [h.1]
    exact congrFun (congrArg SQp.p (store_samples qp)) i
  · show BitVec.ofInt 8 ((a.new qp.samples bS).q i) = _
    rw [h.2]
    exact congrFun (congrArg SQp.q (store_samples qp)) i

/-- A pixel moves as far as it is computed to. -/
theorem moved_filter (i : Fin 4) :
    moved ((a.filter qp bS).p i) (qp.p i) = |(a.new qp.samples bS).p i - qp.samples.p i| ∧
      moved ((a.filter qp bS).q i) (qp.q i) = |(a.new qp.samples bS).q i - qp.samples.q i| := by
  obtain ⟨hp, hq⟩ : InByte ((a.new qp.samples bS).p i) ∧ InByte ((a.new qp.samples bS).q i) :=
    a.new_inByte qp i
  rw [filter_eq, moved, moved]
  show |((BitVec.ofInt 8 ((a.new qp.samples bS).p i)).toNat : Int) - _| = _ ∧
    |((BitVec.ofInt 8 ((a.new qp.samples bS).q i)).toNat : Int) - _| = _
  rw [toNat_of_inByte hp, toNat_of_inByte hq]
  exact ⟨rfl, rfl⟩

theorem new_outer : (a.new qp.samples bS).p 3 = qp.samples.p 3 ∧
    (a.new qp.samples bS).q 3 = qp.samples.q 3 := by
  refine new_of (P := fun r => r.p 3 = qp.samples.p 3 ∧ r.q 3 = qp.samples.q 3) ⟨rfl, rfl⟩
    ⟨rfl, rfl⟩ fun _ => ⟨filterStrong_outer _ _ _ _ _, filterStrong_outer _ _ _ _ _⟩

theorem new_chroma (hchroma : a.chromaFlag ≠ 0) {i : Fin 4} (hi : i ≠ 0) :
    (a.new qp.samples bS).p i = qp.samples.p i ∧ (a.new qp.samples bS).q i = qp.samples.q i := by
  refine new_of (P := fun r => r.p i = qp.samples.p i ∧ r.q i = qp.samples.q i) ⟨rfl, rfl⟩
    ⟨?_, ?_⟩ fun _ => ⟨?_, ?_⟩
  · exact filterNormal_chroma hchroma hi
  · exact filterNormal_chroma hchroma hi
  · exact filterStrong_chroma hchroma hi
  · exact filterStrong_chroma hchroma hi

/-- Nothing is done for the strength 0, or without the flag. -/
theorem filter_off (h : bS = 0 ∨ a.sampleFlag qp.samples bS = false) : a.filter qp bS = qp := by
  have hoff : a.sampleFlag qp.samples bS = false := by
    rcases h with hzero | hflag
    · simp [sampleFlag, filterSampleFlag, hzero]
    · exact hflag
  rw [filter_eq, new, hoff]
  exact store_samples qp

end Kept

/-- **What `filter_block` keeps**, for all pixels, QP, registers, both values of the chroma flag and
    all strengths: every new pixel is in a byte before it is stored; without the flag nothing
    changes; the outermost pixels never do, and of chroma only the innermost; for a strength below 4
    those move by `tc` at most and the next ones by `tc0`; all indices are inside the tables. -/
theorem filterSound (a : FilterArgs) (qp : SQp) (bS : Nat) : Sound a qp bS where
  stored := filter_eq qp
  inByte := a.new_inByte qp
  off := a.filter_off qp
  outer := filter_kept a (a.new_outer qp)
  chroma hchroma _ hi := filter_kept a (a.new_chroma qp hchroma hi)
  first hbS := by
    rw [(a.moved_filter qp 0).1, (a.moved_filter qp 0).2]
    obtain ⟨⟨-, hp, -⟩, -, hq, -⟩ := a.normal_spec qp bS
    refine new_of (P := fun r => |r.p 0 - qp.samples.p 0| ≤ a.tc qp.samples bS ∧
      |r.q 0 - qp.samples.q 0| ≤ a.tc qp.samples bS) ?_ ⟨hp, hq⟩ fun hfour => by omega
    rw [sub_self, sub_self, abs_zero]
    exact ⟨tc_nonneg, tc_nonneg⟩
  second hbS := by
    rw [(a.moved_filter qp 1).1, (a.moved_filter qp 1).2]
    obtain ⟨⟨-, -, hp⟩, -, -, hq⟩ := a.normal_spec qp bS
    refine new_of (P := fun r => |r.p 1 - qp.samples.p 1| ≤ a.tc0 bS ∧
      |r.q 1 - qp.samples.q 1| ≤ a.tc0 bS) ?_ ⟨hp, hq⟩ fun hfour => by omega
    rw [sub_self, sub_self, abs_zero]
    exact ⟨tc0_nonneg _ _, tc0_nonneg _ _⟩
  tables := by
    have hA := indexAB_mem a.QPq a.QPp a.alphaOff
    have hB := indexAB_mem a.QPq a.QPp a.betaOff
    have hin : ∀ (table : List Byte) (index : Int), table.length = 52 → 0 ≤ index → index ≤ 51 →
        InTable table index := fun table index hlen h0 h51 => ⟨h0, by omega⟩
    refine ⟨hin _ _ rfl hA.1 hA.2, hin _ _ rfl hB.1 hB.2, fun hflag hbS => ?_⟩
    have hpos : bS ≠ 0 := by
      simp only [sampleFlag, filterSampleFlag, decide_eq_true_eq] at hflag
      exact hflag.1
    have hlt : bS - 1 < tc0T.length := by
      show bS - 1 < 3
      omega
    exact ⟨by omega, tc0T[bS - 1], List.getElem?_eq_getElem hlt,
      hin _ _ (tc0T_rows _ (List.getElem_mem hlt)).1 hA.1 hA.2⟩

end FilterArgs

end Rabbits
