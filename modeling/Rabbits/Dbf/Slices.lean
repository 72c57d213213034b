/-
  File:      Rabbits/Dbf/Slices.lean
  Subject:   What the filter of one slice reads and writes.

  The filter reaches four pixels across an edge, so into the macroblock on the left or above. The
  tests that skip the left and top boundary leave exactly the edges whose other side is in the
  slice too (`owns_left`, `owns_above`), for luma and chroma alike.

  * `mbBlocks`, `mbSamples`, `sliceRegs` -- parts of the memory, by macroblock and slice;
  * `SliceArea` -- a slice inside a picture that fits below the registers;
  * `filterMbs_runs` -- the loop over a slice reads its blocks and registers and writes its samples.
-/
import Rabbits.Lib.Footprint
import Rabbits.Dbf.Filter
import Mathlib.Order.Interval.Set.Basic

namespace Rabbits

open Lib

/-! ## 1. Parts of the memory -/

/-- The bytes of some macroblocks. -/
def mbBlocks (mbs : Set Nat) : Set Nat := {a | a / MB_BLOCK_SIZE ∈ mbs}

/-- The luma and chroma bytes of some macroblocks. -/
def mbSamples (mbs : Set Nat) : Set Nat :=
  {a | a / MB_BLOCK_SIZE ∈ mbs ∧ a % MB_BLOCK_SIZE < MVX_OFFSET}

/-- The registers of a slice. -/
def sliceRegs (slice : Nat) : Set Nat :=
  Set.Ico (REG_SLI_OFFSET + SLICE_OFFSET * slice) (REG_SLI_OFFSET + SLICE_OFFSET * (slice + 1))

/-- What the filter of a slice may read. -/
def sliceReads (slice : Nat) (mbs : Set Nat) : Set Nat :=
  mbBlocks mbs ∪ insert REG_GLO_CTRL (sliceRegs slice)

theorem mbSamples_subset_reads (slice : Nat) (mbs : Set Nat) :
    mbSamples mbs ⊆ sliceReads slice mbs :=
  fun _ ha => .inl ha.1

/-- A slice inside a picture that fits below the registers. -/
structure SliceArea where
  slice : Nat
  width : Nat
  offset : Nat
  length : Nat
  slice_lt : slice < N_SLICE_THREADS
  width_pos : 0 < width
  fits : (offset + length) * MB_BLOCK_SIZE ≤ REG_GLO_VER

namespace SliceArea

variable (S : SliceArea)

def mbs : Set Nat := Set.Ico S.offset (S.offset + S.length)

def reads : Set Nat := sliceReads S.slice S.mbs

def samples : Set Nat := mbSamples S.mbs

/-- The macroblock at `mbX`, `mbY` is one of the slice. -/
def Owns (mbX mbY : Nat) : Prop := mbY * S.width + mbX ∈ S.mbs

variable {S}

theorem lt_of_mem_blocks {a : Nat} (ha : a ∈ mbBlocks S.mbs) : a < REG_GLO_VER := by
  obtain ⟨-, ha⟩ := ha
  have := S.fits
  simp only [MB_BLOCK_SIZE, REG_GLO_VER] at *
  omega

theorem le_of_mem_reads {a : Nat} (ha : a ∈ S.reads) : a ≤ FPGA_CHAR_SIZE := by
  have hs := S.slice_lt
  rcases ha with ha | rfl | ⟨-, ha⟩
  · have := lt_of_mem_blocks ha
    simp only [REG_GLO_VER, FPGA_CHAR_SIZE] at *
    omega
  · decide
  · simp only [REG_SLI_OFFSET, SLICE_OFFSET, N_SLICE_THREADS, FPGA_CHAR_SIZE] at *
    omega

/-- Disjoint macroblocks: neither slice writes what the other reads. -/
theorem disjoint_samples {T : SliceArea} (h : Disjoint S.mbs T.mbs) :
    Disjoint S.samples T.reads := by
  refine Set.disjoint_left.mpr fun a ha hT => ?_
  have hlt := lt_of_mem_blocks (S := S) ha.1
  rcases hT with hT | rfl | ⟨hT, -⟩
  · exact Set.disjoint_left.mp h ha.1 hT
  · exact absurd hlt (by decide)
  · simp only [REG_SLI_OFFSET, SLICE_OFFSET, REG_GLO_VER] at *
    omega

end SliceArea

/-! ## 2. The two accesses -/

/-- The picture memory and the rest of the device. -/
def dbfLayout : Layout DbfDevice Nat Byte DbfDevice where
  mem d := d.mData
  rest d := { d with mData := fun _ => 0#8 }
  ext := by
    intro hyp hyp' hmem hrest
    cases hyp
    cases hyp'
    cases hmem
    cases hrest
    rfl

theorem getData_run {a : Nat} (ha : a ≤ FPGA_CHAR_SIZE) (d : DbfDevice) :
    (getData a).run d = some (d.mData a, d) :=
  if_neg (Nat.not_lt.mpr ha)

/-- Below the registers no register of a slice is found. -/
theorem findReg_of_lt {a reg : Nat} (ha : a < REG_GLO_VER) (hreg : REG_GLO_VER ≤ reg) :
    (List.finRange N_SLICE_THREADS).find?
      (fun (i : Fin N_SLICE_THREADS) => a = reg + SLICE_OFFSET * i) = none := by
  refine List.find?_eq_none.mpr fun i _ => ?_
  simp only [decide_eq_true_eq]
  omega

/-- Below the registers a write sets nothing off. -/
theorem written_of_lt {a : Nat} (ha : a < REG_GLO_VER) (d : DbfDevice) (v : Byte) :
    d.written a v = d := by
  have hack : a ≠ REG_INT_ACK := Nat.ne_of_lt (ha.trans (by decide))
  have hfra : a ≠ REG_FRA_SRAM := Nat.ne_of_lt (ha.trans (by decide))
  rw [DbfDevice.written, if_neg hack, findReg_of_lt ha (by decide), findReg_of_lt ha (by decide)]
  exact if_neg fun h => hfra h.1

theorem setData_run {a : Nat} (ha : a < REG_GLO_VER) (v : Byte) (d : DbfDevice) :
    (setData a v).run d = some ((), d.poke a v) := by
  have hsize : ¬ a > FPGA_CHAR_SIZE := Nat.not_lt.mpr (ha.le.trans (by decide))
  have hro : ¬ (a = REG_INT_STATUS ∨ a = REG_NSLICES) := by
    simp only [REG_GLO_VER, REG_INT_STATUS, REG_NSLICES] at *
    omega
  have hen : a ≠ REG_INT_ENABLE := Nat.ne_of_lt (ha.trans (by decide))
  simp [StateT.run, setData, hsize, hro, hen, written_of_lt ha]

namespace SliceArea

variable {S : SliceArea} {v : Type}

variable (S) in
/-- With the width of the picture set, `f` reads `S.reads` and writes `S.samples`. -/
abbrev Runs (f : DbfM v) : Prop :=
  Touches dbfLayout (fun d => d.picWidthInMbs = S.width) S.reads S.samples f

theorem getData_runs {a : Nat} (ha : a ∈ S.reads) : S.Runs (getData a) := by
  intro d e _ _ hR
  refine ⟨d.mData a, d, e, getData_run (le_of_mem_reads ha) d, ?_, .refl d, .refl e, hR⟩
  rw [getData_run (le_of_mem_reads ha) e]
  exact congrArg (fun x => some (x, e)) (hR ha).symm

theorem poke_keeps {a : Nat} (ha : a ∈ S.samples) (d : DbfDevice) (v : Byte) :
    dbfLayout.Keeps S.samples d (d.poke a v) where
  rest := rfl
  mem b hb := by
    have hba : b ≠ a := by
      intro heq
      subst heq
      exact hb ha
    simp [dbfLayout, DbfDevice.poke, hba]

theorem setData_runs {a : Nat} (ha : a ∈ S.samples) (v : Byte) : S.Runs (setData a v) := by
  have hlt := lt_of_mem_blocks ha.1
  intro d e _ _ hR
  refine ⟨(), d.poke a v, e.poke a v, setData_run hlt v d, setData_run hlt v e,
    poke_keeps ha d v, poke_keeps ha e v, fun b hb => ?_⟩
  by_cases hab : b = a
  · subst hab
    simp [dbfLayout, DbfDevice.poke]
  · simpa [dbfLayout, DbfDevice.poke, hab] using hR hb

theorem PicWidthInMbs_runs {g : Nat → DbfM v} (hg : S.Runs (g S.width)) :
    S.Runs (PicWidthInMbs >>= g) :=
  Touches.bind_known S.width (fun d (hd : d.picWidthInMbs = S.width) => hd ▸ rfl) hg

/-! ## 3. The accessors -/

theorem mbAddr_mem_blocks {mbX mbY byte : Nat} (h : S.Owns mbX mbY) (hb : byte < MB_BLOCK_SIZE) :
    mbAddr S.width mbX mbY byte ∈ S.reads := by
  have hdiv : mbAddr S.width mbX mbY byte / MB_BLOCK_SIZE = mbY * S.width + mbX := by
    rw [mbAddr, Nat.mul_add_div (by decide), Nat.div_eq_of_lt hb, Nat.add_zero]
  exact .inl (show _ ∈ S.mbs from hdiv ▸ h)

theorem mbAddr_mem_samples {mbX mbY byte : Nat} (h : S.Owns mbX mbY) (hb : byte < MVX_OFFSET) :
    mbAddr S.width mbX mbY byte ∈ S.samples := by
  have hlt : byte < MB_BLOCK_SIZE := hb.trans (by decide)
  have hdiv : mbAddr S.width mbX mbY byte / MB_BLOCK_SIZE = mbY * S.width + mbX := by
    rw [mbAddr, Nat.mul_add_div (by decide), Nat.div_eq_of_lt hlt, Nat.add_zero]
  have hmod : mbAddr S.width mbX mbY byte % MB_BLOCK_SIZE = byte := by
    rw [mbAddr, Nat.mul_add_mod, Nat.mod_eq_of_lt hlt]
  exact ⟨show _ ∈ S.mbs from hdiv ▸ h, hmod.symm ▸ hb⟩

theorem lumaByte_lt (x y : Nat) : lumaByte x y < MVX_OFFSET := by
  simp only [lumaByte, MbWidth, LUMA_OFFSET, MVX_OFFSET]
  omega

theorem chromaByte_lt {iCbCr : Nat} (hi : iCbCr < 2) (x y : Nat) :
    chromaByte iCbCr x y < MVX_OFFSET := by
  simp only [chromaByte, MbWidth, CHROMA_OFFSET, MVX_OFFSET]
  omega

theorem pos4x4_lt (x y : Nat) : pos4x4 x y < 16 := by
  simp only [pos4x4]
  omega

theorem getLPixel_runs {x y : Nat} (h : S.Owns (x / 16) (y / 16)) : S.Runs (getLPixel x y) :=
  PicWidthInMbs_runs <| getData_runs <|
    mbAddr_mem_blocks h ((lumaByte_lt x y).trans (by decide))

theorem setLPixel_runs {x y : Nat} (h : S.Owns (x / 16) (y / 16)) (val : Byte) :
    S.Runs (setLPixel x y val) :=
  PicWidthInMbs_runs <| setData_runs (mbAddr_mem_samples h (lumaByte_lt x y)) val

theorem getCPixel_runs {iCbCr x y : Nat} (hi : iCbCr < 2) (h : S.Owns (x / 8) (y / 8)) :
    S.Runs (getCPixel iCbCr x y) :=
  PicWidthInMbs_runs <| getData_runs <|
    mbAddr_mem_blocks h ((chromaByte_lt hi x y).trans (by decide))

theorem setCPixel_runs {iCbCr x y : Nat} (hi : iCbCr < 2) (h : S.Owns (x / 8) (y / 8))
    (val : Byte) : S.Runs (setCPixel iCbCr x y val) :=
  PicWidthInMbs_runs <| setData_runs (mbAddr_mem_samples h (chromaByte_lt hi x y)) val

theorem getQP_runs {x y : Nat} (h : S.Owns x y) (qpType : Nat) : S.Runs (getQP x y qpType) := by
  refine PicWidthInMbs_runs (Touches.bind (getData_runs (mbAddr_mem_blocks h ?_)) fun _ => .pure _)
  split <;> decide

theorem getAlpha_runs : S.Runs (getAlpha S.slice) :=
  getData_runs <| .inr <| .inr <| by
    simp only [sliceRegs, Set.mem_Ico, REG_SLI_OFFSET, REG_SLI_ALPHA, SLICE_OFFSET]
    omega

theorem getBeta_runs : S.Runs (getBeta S.slice) :=
  getData_runs <| .inr <| .inr <| by
    simp only [sliceRegs, Set.mem_Ico, REG_SLI_OFFSET, REG_SLI_BETA, SLICE_OFFSET]
    omega

theorem intraAt_runs {x y : Nat} (h : S.Owns (x / 16) (y / 16)) : S.Runs (intraAt x y) :=
  Touches.bind (PicWidthInMbs_runs (getData_runs (mbAddr_mem_blocks h (by decide)))) fun _ => .pure _

theorem codedAt_runs {x y : Nat} (h : S.Owns (x / 16) (y / 16)) : S.Runs (codedAt x y) := by
  have h4 : S.Owns (x / 4 / 4) (y / 4 / 4) := by rwa [Nat.div_div_eq_div_mul, Nat.div_div_eq_div_mul]
  have hb : COEFF_OFFSET + pos4x4 (x / 4) (y / 4) < MB_BLOCK_SIZE := by
    have := pos4x4_lt (x / 4) (y / 4)
    simp only [COEFF_OFFSET, MB_BLOCK_SIZE]
    omega
  exact Touches.bind (PicWidthInMbs_runs (getData_runs (mbAddr_mem_blocks h4 hb))) fun _ => .pure _

theorem getMV_runs {mvOffset x y : Nat} (hmv : mvOffset ≤ MVY_OFFSET)
    (h : S.Owns (x / 16) (y / 16)) : S.Runs (getMV mvOffset (x / 4) (y / 4)) := by
  have h4 : S.Owns (x / 4 / 4) (y / 4 / 4) := by rwa [Nat.div_div_eq_div_mul, Nat.div_div_eq_div_mul]
  have hb : mvOffset + pos4x4 (x / 4) (y / 4) * 2 + 1 < MB_BLOCK_SIZE := by
    have := pos4x4_lt (x / 4) (y / 4)
    simp only [MVY_OFFSET, MB_BLOCK_SIZE] at *
    omega
  refine PicWidthInMbs_runs (Touches.bind (getData_runs (mbAddr_mem_blocks h4 hb)) fun _ => ?_)
  refine Touches.bind (getData_runs (mbAddr_mem_blocks h4 ?_)) fun _ => .pure _
  exact Nat.lt_of_succ_lt hb

theorem movesApart_runs {mvOffset qx qy px py : Nat} (hmv : mvOffset ≤ MVY_OFFSET)
    (hq : S.Owns (qx / 16) (qy / 16)) (hp : S.Owns (px / 16) (py / 16)) :
    S.Runs (movesApart (getMV mvOffset) qx qy px py) :=
  Touches.bind (getMV_runs hmv hq) fun _ => Touches.bind (getMV_runs hmv hp) fun _ => .pure _

/-! ## 4. The edges -/

section Edge

variable {qx qy px py : Nat} (hq : S.Owns (qx / 16) (qy / 16)) (hp : S.Owns (px / 16) (py / 16))
include hq hp

theorem getBS_runs : S.Runs (getBS qx qy px py) := by
  refine Touches.bind (.andM (.pure _) (.orM (intraAt_runs hq) (intraAt_runs hp))) fun _ =>
    .ite (fun _ => .pure _) fun _ => ?_
  refine Touches.bind (intraAt_runs hq) fun _ => .ite (fun _ => .pure _) fun _ => ?_
  refine Touches.bind (.orM (codedAt_runs hq) (codedAt_runs hp)) fun _ =>
    .ite (fun _ => .pure _) fun _ => ?_
  refine Touches.bind (.orM (movesApart_runs (by decide) hq hp) (movesApart_runs le_rfl hq hp))
    fun _ => .ite (fun _ => .pure _) fun _ => .pure _

theorem filterBlock_runs (chromaFlag : Nat) (qp : SQp) (bS : Nat) :
    S.Runs (filterBlock S.slice qx qy px py chromaFlag qp bS) :=
  Touches.bind (getQP_runs hq _) fun _ => Touches.bind (getQP_runs hp _) fun _ =>
    Touches.bind getAlpha_runs fun _ => Touches.bind getBeta_runs fun _ => .pure _

/-- An edge whose pixels on both sides, and whose two macroblocks, are in the slice. -/
theorem filterEdge_runs {getPixel : Nat × Nat → DbfM Byte} {setPixel : Nat × Nat → Byte → DbfM Unit}
    {q p : Nat → Nat × Nat} (chromaFlag : Nat)
    (hget : ∀ i < 4, S.Runs (getPixel (q i)) ∧ S.Runs (getPixel (p i)))
    (hset : ∀ i < 4, ∀ val, S.Runs (setPixel (q i) val) ∧ S.Runs (setPixel (p i) val)) :
    S.Runs (filterEdge S.slice chromaFlag getPixel setPixel q p qx qy px py) := by
  unfold filterEdge
  refine Touches.bind (hget 0 (by decide)).1 fun q0 => Touches.bind (hget 0 (by decide)).2 fun p0 => ?_
  refine Touches.bind (hget 1 (by decide)).1 fun q1 => Touches.bind (hget 1 (by decide)).2 fun p1 => ?_
  refine Touches.bind (hget 2 (by decide)).1 fun q2 => Touches.bind (hget 2 (by decide)).2 fun p2 => ?_
  refine Touches.bind (hget 3 (by decide)).1 fun q3 => Touches.bind (hget 3 (by decide)).2 fun p3 => ?_
  refine Touches.bind (getBS_runs hq hp) fun bS => ?_
  refine Touches.bind (filterBlock_runs hq hp chromaFlag _ bS) fun res => ?_
  refine Touches.forM fun i _ => ?_
  exact Touches.bind (hset i i.isLt _).1 fun _ => (hset i i.isLt _).2

end Edge

/-! ## 5. The four edge filters -/

section FourFilters

variable {mbX mbY edge sample iCbCr : Nat}

/-- A vertical edge of a macroblock whose left neighbour is in the slice too. -/
structure OwnsLeft (S : SliceArea) (mbX mbY : Nat) : Prop where
  here : S.Owns mbX mbY
  pos : 0 < mbX
  left : S.Owns (mbX - 1) mbY

/-- A horizontal edge of a macroblock whose upper neighbour is in the slice too. -/
structure OwnsAbove (S : SliceArea) (mbX mbY : Nat) : Prop where
  here : S.Owns mbX mbY
  pos : 0 < mbY
  above : S.Owns mbX (mbY - 1)

theorem OwnsLeft.owns (h : S.OwnsLeft mbX mbY) {a b : Nat} (ha : a = mbX ∨ a = mbX - 1)
    (hb : b = mbY) : S.Owns a b := by
  rcases ha with rfl | rfl
  · exact hb ▸ h.here
  · exact hb ▸ h.left

theorem OwnsAbove.owns (h : S.OwnsAbove mbX mbY) {a b : Nat} (ha : a = mbX)
    (hb : b = mbY ∨ b = mbY - 1) : S.Owns a b := by
  rcases hb with rfl | rfl
  · exact ha ▸ h.here
  · exact ha ▸ h.above

theorem filterVerticalL_runs (h : S.OwnsLeft mbX mbY) (he : edge < 4) (hs : sample < 16) :
    S.Runs (filterVerticalL S.slice (mbX * 16 + edge * 4) (mbY * 16 + sample)) := by
  have hpos := h.pos
  have hq : ∀ i < 4, S.Owns ((mbX * 16 + edge * 4 + i) / 16) ((mbY * 16 + sample) / 16) :=
    fun i hi => h.owns (by omega) (by omega)
  have hp : ∀ i < 4, S.Owns ((mbX * 16 + edge * 4 - i - 1) / 16) ((mbY * 16 + sample) / 16) :=
    fun i hi => h.owns (by omega) (by omega)
  exact filterEdge_runs (h.owns (by omega) (by omega)) (h.owns (by omega) (by omega)) 0
    (fun i hi => ⟨getLPixel_runs (hq i hi), getLPixel_runs (hp i hi)⟩)
    (fun i hi val => ⟨setLPixel_runs (hq i hi) val, setLPixel_runs (hp i hi) val⟩)

theorem filterHorizontalL_runs (h : S.OwnsAbove mbX mbY) (he : edge < 4) (hs : sample < 16) :
    S.Runs (filterHorizontalL S.slice (mbX * 16 + sample) (mbY * 16 + edge * 4)) := by
  have hpos := h.pos
  have hq : ∀ i < 4, S.Owns ((mbX * 16 + sample) / 16) ((mbY * 16 + edge * 4 + i) / 16) :=
    fun i hi => h.owns (by omega) (by omega)
  have hp : ∀ i < 4, S.Owns ((mbX * 16 + sample) / 16) ((mbY * 16 + edge * 4 - i - 1) / 16) :=
    fun i hi => h.owns (by omega) (by omega)
  exact filterEdge_runs (h.owns (by omega) (by omega)) (h.owns (by omega) (by omega)) 0
    (fun i hi => ⟨getLPixel_runs (hq i hi), getLPixel_runs (hp i hi)⟩)
    (fun i hi val => ⟨setLPixel_runs (hq i hi) val, setLPixel_runs (hp i hi) val⟩)

/-- A chroma macroblock is 8 wide: four pixels to the left of its second edge are two of the
    neighbour's. -/
theorem filterVerticalC_runs (h : S.OwnsLeft mbX mbY) (he : edge < 2) (hs : sample < 8)
    (hi : iCbCr < 2) :
    S.Runs (filterVerticalC S.slice (mbX * 16 + edge * 4) (mbY * 16 + sample) iCbCr) := by
  have hpos := h.pos
  have hq : ∀ i < 4, S.Owns (((mbX * 16 + edge * 4) / 2 + i) / 8) ((mbY * 16 + sample) / 2 / 8) :=
    fun i hi => h.owns (by omega) (by omega)
  have hp : ∀ i < 4,
      S.Owns (((mbX * 16 + edge * 4) / 2 - i - 1) / 8) ((mbY * 16 + sample) / 2 / 8) :=
    fun i hi => h.owns (by omega) (by omega)
  exact filterEdge_runs (h.owns (by omega) (by omega)) (h.owns (by omega) (by omega)) 1
    (fun j hj => ⟨getCPixel_runs hi (hq j hj), getCPixel_runs hi (hp j hj)⟩)
    (fun j hj val => ⟨setCPixel_runs hi (hq j hj) val, setCPixel_runs hi (hp j hj) val⟩)

theorem filterHorizontalC_runs (h : S.OwnsAbove mbX mbY) (he : edge < 2) (hs : sample < 8)
    (hi : iCbCr < 2) :
    S.Runs (filterHorizontalC S.slice (mbX * 16 + sample) (mbY * 16 + edge * 4) iCbCr) := by
  have hpos := h.pos
  have hq : ∀ i < 4, S.Owns ((mbX * 16 + sample) / 2 / 8) (((mbY * 16 + edge * 4) / 2 + i) / 8) :=
    fun i hi => h.owns (by omega) (by omega)
  have hp : ∀ i < 4,
      S.Owns ((mbX * 16 + sample) / 2 / 8) (((mbY * 16 + edge * 4) / 2 - i - 1) / 8) :=
    fun i hi => h.owns (by omega) (by omega)
  exact filterEdge_runs (h.owns (by omega) (by omega)) (h.owns (by omega) (by omega)) 1
    (fun j hj => ⟨getCPixel_runs hi (hq j hj), getCPixel_runs hi (hp j hj)⟩)
    (fun j hj val => ⟨setCPixel_runs hi (hq j hj) val, setCPixel_runs hi (hp j hj) val⟩)

end FourFilters

/-! ## 6. The loops -/

/-- An edge that is not on the left boundary: the macroblock before this one is in the slice. -/
theorem owns_left {c : Nat} (hc : c ∈ S.mbs)
    (h : skipsLeft (S.offset % S.width * 16) (S.offset / S.width * 16)
      (c % S.width * 16) (c / S.width * 16) = false) :
    S.OwnsLeft (c % S.width) (c / S.width) := by
  have hdiv := Nat.div_add_mod' c S.width
  simp only [skipsLeft, Bool.or_eq_false_iff, Bool.and_eq_false_iff, decide_eq_false_iff_not] at h
  obtain ⟨hx, hfirst⟩ := h
  have hne : c ≠ S.offset := by
    intro heq
    subst heq
    simp at hfirst
  have hc' := hc
  obtain ⟨hlo, hhi⟩ := hc'
  refine ⟨?_, by omega, ?_⟩
  · rwa [Owns, hdiv]
  · exact ⟨by omega, by omega⟩

/-- An edge that is not on the top boundary: the macroblock one row up is in the slice. -/
theorem owns_above {c : Nat} (hc : c ∈ S.mbs)
    (h : skipsTop (S.offset % S.width * 16) (S.offset / S.width * 16)
      (c % S.width * 16) (c / S.width * 16) = false) :
    S.OwnsAbove (c % S.width) (c / S.width) := by
  have hdiv := Nat.div_add_mod' c S.width
  have hoff := Nat.div_add_mod' S.offset S.width
  have hmod := Nat.mod_lt S.offset S.width_pos
  have hc' := hc
  obtain ⟨hlo, hhi⟩ := hc'
  -- the row above the macroblock's, and the first row of the slice
  obtain ⟨above, habove⟩ : ∃ above, c / S.width = above + 1 := by
    refine Nat.exists_eq_add_one.mpr ?_
    unfold skipsTop at h
    split at h <;> simp only [decide_eq_false_iff_not] at h <;> omega
  have hrow : c / S.width * S.width = above * S.width + S.width := by
    rw [habove, Nat.add_mul, Nat.one_mul]
  have hfirst : S.offset ≤ above * S.width + c % S.width := by
    unfold skipsTop at h
    split at h
    · -- left of the first column: the row above is below the first row
      have hlt : S.offset / S.width + 1 ≤ above := by
        simp only [decide_eq_false_iff_not] at h
        omega
      have := Nat.mul_le_mul_right S.width hlt
      rw [Nat.add_mul, Nat.one_mul] at this
      omega
    · have hle : S.offset / S.width ≤ above := by
        simp only [decide_eq_false_iff_not] at h
        omega
      have := Nat.mul_le_mul_right S.width hle
      omega
  refine ⟨by rwa [Owns, hdiv], by omega, ?_⟩
  rw [Owns, habove, Nat.add_sub_cancel]
  exact ⟨hfirst, by omega⟩

theorem forEdges_runs {edges samples : Nat} {skips : Bool} {filter : Nat → Nat → DbfM Unit}
    (h : skips = false → ∀ edge < edges, ∀ sample < samples, S.Runs (filter (edge * 4) sample)) :
    S.Runs (forEdges edges samples skips filter) :=
  Touches.forM fun edge he => .ite (fun _ => .pure _) fun hskip => Touches.forM fun sample hs =>
    h (Bool.eq_false_iff.mpr hskip) edge (List.mem_range.mp he) sample (List.mem_range.mp hs)

theorem filterMb_runs {xFirst yFirst mbX mbY : Nat}
    (hleft : skipsLeft xFirst yFirst (mbX * 16) (mbY * 16) = false → S.OwnsLeft mbX mbY)
    (habove : skipsTop xFirst yFirst (mbX * 16) (mbY * 16) = false → S.OwnsAbove mbX mbY) :
    S.Runs (filterMb S.slice xFirst yFirst (mbX * 16) (mbY * 16)) := by
  refine Touches.bind ?_ fun _ => Touches.bind ?_ fun _ => Touches.forM fun iCbCr hi => ?_
  · exact forEdges_runs fun h _ he _ hs => filterVerticalL_runs (hleft h) he hs
  · exact forEdges_runs fun h _ he _ hs => filterHorizontalL_runs (habove h) he hs
  · have hi := List.mem_range.mp hi
    refine Touches.bind (forEdges_runs fun h _ he _ hs => ?_) fun _ =>
      forEdges_runs fun h _ he _ hs => ?_
    · exact filterVerticalC_runs (hleft h) he hs hi
    · exact filterHorizontalC_runs (habove h) he hs hi

/-- **The loop over a slice stays in the slice.** -/
theorem filterMbs_runs : S.Runs (filterMbs S.slice S.width S.offset S.length) :=
  Touches.forM fun c hc => by
    have hc : c ∈ S.mbs := by simpa [mbs] using hc
    exact filterMb_runs (owns_left hc) (owns_above hc)

end SliceArea

end Rabbits
