/-
  File:      Rabbits/Dbf/EdgeMetadata.lean
  Subject:   Whose mode, QP, coefficient count and motion vector a luma edge uses (dbf_device.cpp:
             get_bS and filter_block as filter_vertical_L and filter_horizontal_L call them).

  The pixels of the `p` side are those next to the edge; what is known about that side is taken 16
  pixels away from the `q` side, for all four edges of a macroblock.

  * `SidedCode` -- the filter of a luma sample with the metadata it uses and for which side;
    `erase_filterLuma` -- without the record it is that filter;
  * `metaAddrs`, `MetadataRight` -- **the property**: the metadata of the blocks of the pixels next to
    the edge;
  * `metadataRight_iff` -- **it holds between two macroblocks only, and there where the strength is
    known before the coefficients of the `p` side are read**.
-/
import Rabbits.Dbf.SliceIndices
import Rabbits.Dbf.Strength

namespace Rabbits

open Lib Recorded

/-! ## 1. The filter with its metadata -/

inductive Side where
  | p
  | q
  deriving DecidableEq

/-- The record: a byte of metadata, and the side it is read for. -/
abbrev SidedCode := Recorded DbfDevice (Side × Nat)

namespace SidedCode

variable {v : Type}

/-- Code that uses no metadata. -/
def plain (f : DbfM v) : SidedCode v := ⟨fun d => (f.run d, [])⟩

def getData (side : Side) (address : Nat) : SidedCode Byte :=
  ⟨fun d => ((Rabbits.getData address).run d, [(side, address)])⟩

def getMbByte (side : Side) (mbX mbY byte : Nat) : SidedCode Byte := do
  let picWidthInMbs ← plain PicWidthInMbs
  getData side (mbAddr picWidthInMbs mbX mbY byte)

def getMode (side : Side) (x y : Nat) : SidedCode Byte :=
  getMbByte side (x / 16) (y / 16) MODE_OFFSET

/-- The QP of luma. -/
def getQP (side : Side) (x y : Nat) : SidedCode Int := do
  let ret ← getMbByte side x y QUANT_OFFSET
  return ret.toInt

def getTotalCoeffL (side : Side) (x y : Nat) : SidedCode Byte :=
  getMbByte side (x / 4) (y / 4) (COEFF_OFFSET + pos4x4 x y)

def getMV (side : Side) (mvOffset x y : Nat) : SidedCode Int := do
  let picWidthInMbs ← plain PicWidthInMbs
  let tmpC1 ← getData side (mbAddr picWidthInMbs (x / 4) (y / 4) (mvOffset + pos4x4 x y * 2 + 1))
  let tmpC2 ← getData side (mbAddr picWidthInMbs (x / 4) (y / 4) (mvOffset + pos4x4 x y * 2))
  return (tmpC1 ++ tmpC2 : BitVec 16).toInt

def intraAt (side : Side) (x y : Nat) : SidedCode Bool := do
  return isIntra (← getMode side x y)

def codedAt (side : Side) (x y : Nat) : SidedCode Bool := do
  return (← getTotalCoeffL side (x / 4) (y / 4)) != 0#8

def movesApart (mvOffset qx qy px py : Nat) : SidedCode Bool := do
  let q ← getMV .q mvOffset (qx / 4) (qy / 4)
  let p ← getMV .p mvOffset (px / 4) (py / 4)
  return 4 < (q - p).natAbs

def getBS (qx qy px py : Nat) : SidedCode Nat := do
  if ← pure (qx % 16 == 0) <&&> (intraAt .q qx qy <||> intraAt .p px py) then
    return 4
  else if ← intraAt .q qx qy then
    return 3
  else if ← codedAt .q qx qy <||> codedAt .p px py then
    return 2
  else if ← movesApart MVX_OFFSET qx qy px py <||> movesApart MVY_OFFSET qx qy px py then
    return 1
  else
    return 0

def filterBlock (slice qx qy px py : Nat) (qp : SQp) (bS : Nat) : SidedCode SQp := do
  let QPq ← getQP .q (qx / 16) (qy / 16)
  let QPp ← getQP .p (px / 16) (py / 16)
  let alphaOff ← plain (getAlpha slice)
  let betaOff ← plain (getBeta slice)
  return filterSamples QPq QPp alphaOff betaOff 0 qp bS

/-- The pixels of an edge. -/
def readPixels (q p : Nat → Nat × Nat) : DbfM SQp := do
  let q0 ← getLPixel (q 0).1 (q 0).2
  let p0 ← getLPixel (p 0).1 (p 0).2
  let q1 ← getLPixel (q 1).1 (q 1).2
  let p1 ← getLPixel (p 1).1 (p 1).2
  let q2 ← getLPixel (q 2).1 (q 2).2
  let p2 ← getLPixel (p 2).1 (p 2).2
  let q3 ← getLPixel (q 3).1 (q 3).2
  let p3 ← getLPixel (p 3).1 (p 3).2
  return ⟨![p0, p1, p2, p3], ![q0, q1, q2, q3]⟩

def writePixels (q p : Nat → Nat × Nat) (res : SQp) : DbfM Unit :=
  (List.finRange 4).forM fun i => do
    setLPixel (q i).1 (q i).2 (res.q i)
    setLPixel (p i).1 (p i).2 (res.p i)

/-- `filter_vertical_L` and `filter_horizontal_L`. -/
def filterLuma (slice : Nat) (dir : EdgeDir) (x y : Nat) : SidedCode Unit := do
  let qp ← plain (readPixels (dir.q x y) (dir.p x y))
  let bS ← getBS x y (dir.other x y).1 (dir.other x y).2
  let res ← filterBlock slice x y (dir.other x y).1 (dir.other x y).2 qp bS
  plain (writePixels (dir.q x y) (dir.p x y) res)

/-! ## 2. Without the record -/

theorem erase_plain (f : DbfM v) : (plain f).erase = f := funext fun _ => rfl

theorem erase_getData (side : Side) (address : Nat) :
    (getData side address).erase = Rabbits.getData address := funext fun _ => rfl

theorem erase_getMbByte (side : Side) (mbX mbY byte : Nat) : (getMbByte side mbX mbY byte).erase =
    (do Rabbits.getData (mbAddr (← PicWidthInMbs) mbX mbY byte) : DbfM Byte) := by
  simp only [getMbByte, erase_bind, erase_plain, erase_getData]

theorem erase_getQP (side : Side) (x y : Nat) : (getQP side x y).erase = Rabbits.getQP x y 0 := by
  simp only [getQP, Rabbits.getQP, erase_bind, erase_getMbByte, erase_pure, if_true, bind_assoc]

theorem erase_intraAt (side : Side) (x y : Nat) :
    (intraAt side x y).erase = Rabbits.intraAt x y := by
  simp only [intraAt, getMode, erase_bind, erase_getMbByte]
  rfl

theorem erase_codedAt (side : Side) (x y : Nat) :
    (codedAt side x y).erase = Rabbits.codedAt x y := by
  simp only [codedAt, getTotalCoeffL, erase_bind, erase_getMbByte]
  rfl

theorem erase_getMV (side : Side) (mvOffset x y : Nat) :
    (getMV side mvOffset x y).erase = Rabbits.getMV mvOffset x y := by
  simp only [getMV, erase_bind, erase_plain, erase_getData]
  rfl

theorem erase_movesApart (mvOffset qx qy px py : Nat) :
    (movesApart mvOffset qx qy px py).erase =
      Rabbits.movesApart (Rabbits.getMV mvOffset) qx qy px py := by
  simp only [movesApart, erase_bind, erase_getMV]
  rfl

theorem erase_getBS (qx qy px py : Nat) :
    (getBS qx qy px py).erase = Rabbits.getBS qx qy px py := by
  simp only [getBS, erase_bind, erase_ite, erase_andM, erase_orM, erase_intraAt, erase_codedAt,
    erase_movesApart]
  rfl

theorem erase_filterBlock (slice qx qy px py : Nat) (qp : SQp) (bS : Nat) :
    (filterBlock slice qx qy px py qp bS).erase =
      Rabbits.filterBlock slice qx qy px py 0 qp bS := by
  unfold Rabbits.filterBlock
  rw [if_pos rfl]
  simp only [filterBlock, erase_bind, erase_pure, erase_getQP, erase_plain]

theorem erase_filterLuma (slice : Nat) (dir : EdgeDir) (x y : Nat) :
    (filterLuma slice dir x y).erase = (EdgeCall.luma dir x y).filter slice := by
  simp only [filter_luma, filterLuma, filterEdge, readPixels, erase_bind, erase_plain, erase_getBS,
    erase_filterBlock, bind_assoc, pure_bind]
  rfl

end SidedCode

/-! ## 3. The metadata of a pixel -/

/-- The 4x4 block of a pixel in its macroblock. -/
def blockOf (a : Nat × Nat) : Nat := a.2 % 16 / 4 * 4 + a.1 % 16 / 4

/-- The QP, the mode, the coefficient count and the two components of the motion vector. -/
def metaBytes (a : Nat × Nat) : List Nat :=
  [QUANT_OFFSET, MODE_OFFSET, COEFF_OFFSET + blockOf a,
    MVX_OFFSET + blockOf a * 2, MVX_OFFSET + blockOf a * 2 + 1,
    MVY_OFFSET + blockOf a * 2, MVY_OFFSET + blockOf a * 2 + 1]

/-- Where these are for the macroblock and the 4x4 block of a pixel. -/
def metaAddrs (picWidthInMbs : Nat) (a : Nat × Nat) : List Nat :=
  (metaBytes a).map (mbAddr picWidthInMbs (a.1 / 16) (a.2 / 16))

/-- The pixel next to the edge. -/
def EdgeDir.next (dir : EdgeDir) (x y : Nat) : Side → Nat × Nat
  | .p => dir.p x y 0
  | .q => dir.q x y 0

/-- Each byte of metadata that the filter of a sample uses for a side is one of the blocks that
    contain the pixel of that side next to the edge. -/
def MetadataRight (d : DbfDevice) (slice : Nat) (dir : EdgeDir) (x y : Nat) : Prop :=
  (SidedCode.filterLuma slice dir x y).Good
    (fun e => e.2 ∈ metaAddrs d.picWidthInMbs (dir.next x y e.1)) d

/-- The 4x4 block of a pixel has coefficients. -/
def DbfDevice.Coded (d : DbfDevice) (a : Nat × Nat) : Prop :=
  d.mData (mbAddr d.picWidthInMbs (a.1 / 16) (a.2 / 16) (COEFF_OFFSET + blockOf a)) ≠ 0#8

instance (d : DbfDevice) (a : Nat × Nat) : Decidable (d.Coded a) := by
  unfold DbfDevice.Coded
  infer_instance

/-- The edge lies between two macroblocks, and its strength is known before the coefficients of the
    `p` side are read. -/
def DbfDevice.StrengthKnown (d : DbfDevice) (dir : EdgeDir) (x y : Nat) : Prop :=
  dir.OnBoundary x y ∧
    (d.Intra (dir.next x y .q) ∨ (x % 16 = 0 ∧ d.Intra (dir.next x y .p)) ∨
      d.Coded (dir.next x y .q))

theorem blockOf_lt (a : Nat × Nat) : blockOf a < 16 := by
  simp only [blockOf]
  omega

theorem metaBytes_lt {a : Nat × Nat} {byte : Nat} (h : byte ∈ metaBytes a) :
    byte < MB_BLOCK_SIZE := by
  have hblock := blockOf_lt a
  simp only [metaBytes, List.mem_cons, List.not_mem_nil, or_false, QUANT_OFFSET, MODE_OFFSET,
    COEFF_OFFSET, MVX_OFFSET, MVY_OFFSET, MB_BLOCK_SIZE] at *
  omega

theorem pos4x4_block (a : Nat × Nat) : pos4x4 (a.1 / 4) (a.2 / 4) = blockOf a := by
  simp only [pos4x4, blockOf]
  omega

/-- A byte of a macroblock is metadata of a pixel when the pixel is in it, and the byte is one of the
    pixel's. -/
theorem mbAddr_mem_metaAddrs {w mbX mbY byte : Nat} {a : Nat × Nat} (hb : byte < MB_BLOCK_SIZE) :
    mbAddr w mbX mbY byte ∈ metaAddrs w a ↔
      mbY * w + mbX = a.2 / 16 * w + a.1 / 16 ∧ byte ∈ metaBytes a := by
  rw [metaAddrs, List.mem_map]
  constructor
  · rintro ⟨byte', hmem, heq⟩
    have hb' := metaBytes_lt hmem
    simp only [mbAddr, MB_BLOCK_SIZE] at *
    obtain rfl : byte = byte' := by omega
    exact ⟨by omega, hmem⟩
  · intro h
    exact ⟨byte, h.2, by rw [mbAddr, mbAddr, h.1]⟩

/-! ## 4. The bytes that are read -/

namespace SidedCode

variable {d d' : DbfDevice} {ok : Side × Nat → Prop}

/-- Code that leaves the device as it is. -/
def Keeps {v : Type} (f : DbfM v) : Prop := ∀ ⦃d x d'⦄, f.run d = some (x, d') → d' = d

theorem Keeps.pure {v : Type} (x : v) : Keeps (Pure.pure x : DbfM v) := by
  intro d y d' h
  cases h
  rfl

theorem Keeps.bind {v w : Type} {f : DbfM v} {g : v → DbfM w} (hf : Keeps f)
    (hg : ∀ x, Keeps (g x)) : Keeps (f >>= g) := by
  intro d y d'' h
  obtain ⟨x, d', hfd, hgd⟩ := run_bind_eq_some h
  rw [hg x hgd, hf hfd]

theorem getData_keeps (address : Nat) : Keeps (Rabbits.getData address) :=
  fun _ _ _ h => (getData_eq_some h).2

theorem getAlpha_keeps (slice : Nat) : Keeps (getAlpha slice) := getData_keeps _

theorem getBeta_keeps (slice : Nat) : Keeps (getBeta slice) := getData_keeps _

theorem PicWidthInMbs_keeps : Keeps PicWidthInMbs := by
  intro d x d' h
  cases h
  rfl

theorem getLPixel_keeps (x y : Nat) : Keeps (getLPixel x y) :=
  PicWidthInMbs_keeps.bind fun _ => getData_keeps _

theorem getMV_keeps (mvOffset x y : Nat) : Keeps (Rabbits.getMV mvOffset x y) :=
  PicWidthInMbs_keeps.bind fun _ => (getData_keeps _).bind fun _ => (getData_keeps _).bind fun _ =>
    .pure _

theorem movesApart_keeps (mvOffset qx qy px py : Nat) :
    Keeps (Rabbits.movesApart (Rabbits.getMV mvOffset) qx qy px py) :=
  (getMV_keeps _ _ _).bind fun _ => (getMV_keeps _ _ _).bind fun _ => .pure _

theorem Keeps.ite {v : Type} {c : Prop} [Decidable c] {f g : DbfM v} (hf : Keeps f) (hg : Keeps g) :
    Keeps (if c then f else g) := by
  split
  · exact hf
  · exact hg

theorem Keeps.orM {f g : DbfM Bool} (hf : Keeps f) (hg : Keeps g) : Keeps (f <||> g) :=
  hf.bind fun b => by
    cases b with
    | false => exact hg
    | true => exact .pure true

theorem Keeps.andM {f g : DbfM Bool} (hf : Keeps f) (hg : Keeps g) : Keeps (f <&&> g) :=
  hf.bind fun b => by
    cases b with
    | false => exact .pure false
    | true => exact hg

theorem intraAt_keeps (x y : Nat) : Keeps (Rabbits.intraAt x y) :=
  (PicWidthInMbs_keeps.bind fun _ => getData_keeps _).bind fun _ => .pure _

theorem codedAt_keeps (x y : Nat) : Keeps (Rabbits.codedAt x y) :=
  (PicWidthInMbs_keeps.bind fun _ => getData_keeps _).bind fun _ => .pure _

theorem getBS_keeps (qx qy px py : Nat) : Keeps (Rabbits.getBS qx qy px py) := by
  refine (Keeps.andM (.pure _) ((intraAt_keeps _ _).orM (intraAt_keeps _ _))).bind fun _ =>
    .ite (.pure _) ((intraAt_keeps _ _).bind fun _ => .ite (.pure _) ?_)
  refine ((codedAt_keeps _ _).orM (codedAt_keeps _ _)).bind fun _ => .ite (.pure _) ?_
  exact ((movesApart_keeps _ _ _ _ _).orM (movesApart_keeps _ _ _ _ _)).bind fun _ =>
    .ite (.pure _) (.pure _)

theorem readPixels_keeps (q p : Nat → Nat × Nat) : Keeps (readPixels q p) := by
  unfold readPixels
  refine (getLPixel_keeps _ _).bind fun _ => (getLPixel_keeps _ _).bind fun _ => ?_
  refine (getLPixel_keeps _ _).bind fun _ => (getLPixel_keeps _ _).bind fun _ => ?_
  refine (getLPixel_keeps _ _).bind fun _ => (getLPixel_keeps _ _).bind fun _ => ?_
  exact (getLPixel_keeps _ _).bind fun _ => (getLPixel_keeps _ _).bind fun _ => .pure _

theorem plain_peeks {v : Type} {f : DbfM v} (hf : Keeps f) : Peeks ok (plain f) d :=
  ⟨fun _ he => absurd he List.not_mem_nil, fun _ _ h => hf h⟩

theorem getData_peeks {side : Side} {address : Nat} (h : ok (side, address)) :
    Peeks ok (getData side address) d :=
  ⟨fun _ he => List.mem_singleton.mp he ▸ h, fun _ _ h => getData_keeps address h⟩

theorem getMbByte_peeks {side : Side} {mbX mbY byte : Nat}
    (h : ok (side, mbAddr d.picWidthInMbs mbX mbY byte)) :
    Peeks ok (getMbByte side mbX mbY byte) d := by
  refine (plain_peeks PicWidthInMbs_keeps).bind fun w hw => getData_peeks ?_
  cases hw
  exact h

theorem leaves_getMbByte (d : DbfDevice) (side : Side) (mbX mbY byte : Nat) :
    (getMbByte side mbX mbY byte).Leaves d (side, mbAddr d.picWidthInMbs mbX mbY byte) := by
  have hwidth : (plain PicWidthInMbs).erase d = some (d.picWidthInMbs, d) := rfl
  exact Leaves.bind_right hwidth List.mem_cons_self

/-! ## 5. The strength and the filter -/

theorem erase_boundary (qx qy px py : Nat) :
    (pure (qx % 16 == 0) <&&> (intraAt .q qx qy <||> intraAt .p px py) : SidedCode Bool).erase =
      (pure (qx % 16 == 0) <&&> (Rabbits.intraAt qx qy <||> Rabbits.intraAt px py) : DbfM Bool) := by
  rw [erase_andM, erase_orM, erase_intraAt, erase_intraAt, erase_pure]

/-- The accessor counts the blocks over the picture. -/
theorem mbAddr_coeff (w x y : Nat) :
    mbAddr w (x / 4 / 4) (y / 4 / 4) (COEFF_OFFSET + pos4x4 (x / 4) (y / 4)) =
      mbAddr w (x / 16) (y / 16) (COEFF_OFFSET + blockOf (x, y)) := by
  rw [pos4x4_block (x, y), Nat.div_div_eq_div_mul, Nat.div_div_eq_div_mul]

theorem codedAt_eq_some {x y : Nat} {b : Bool} (h : (Rabbits.codedAt x y).run d = some (b, d')) :
    (b = true ↔ d.Coded (x, y)) ∧ d = d' := by
  obtain ⟨coeff, d₁, hcoeff, hret⟩ := run_bind_eq_some h
  obtain ⟨w, d₂, hw, hdata⟩ := run_bind_eq_some hcoeff
  cases hw
  obtain ⟨rfl, rfl⟩ := getData_eq_some hdata
  cases hret
  rw [mbAddr_coeff, bne_iff_ne]
  exact ⟨Iff.rfl, rfl⟩

section Strength

variable {qx qy px py : Nat}

theorem intraAt_peeks {side : Side} {x y : Nat}
    (h : ok (side, mbAddr d.picWidthInMbs (x / 16) (y / 16) MODE_OFFSET)) :
    Peeks ok (intraAt side x y) d :=
  (getMbByte_peeks h).bind fun _ _ => .pure _

theorem codedAt_peeks {side : Side} {x y : Nat}
    (h : ok (side, mbAddr d.picWidthInMbs (x / 16) (y / 16) (COEFF_OFFSET + blockOf (x, y)))) :
    Peeks ok (codedAt side x y) d := by
  refine (getMbByte_peeks ?_).bind fun _ _ => .pure _
  rw [mbAddr_coeff]
  exact h

/-- The strength, where it is known before the coefficients of the `p` side are read. -/
theorem getBS_peeks (hq : ok (.q, mbAddr d.picWidthInMbs (qx / 16) (qy / 16) MODE_OFFSET))
    (hp : ok (.p, mbAddr d.picWidthInMbs (px / 16) (py / 16) MODE_OFFSET))
    (hcoeff : ok (.q, mbAddr d.picWidthInMbs (qx / 16) (qy / 16) (COEFF_OFFSET + blockOf (qx, qy))))
    (hknown : d.Intra (qx, qy) ∨ (qx % 16 = 0 ∧ d.Intra (px, py)) ∨ d.Coded (qx, qy)) :
    Peeks ok (getBS qx qy px py) d := by
  refine ((Peeks.pure _).andM fun _ => (intraAt_peeks hq).orM fun _ => intraAt_peeks hp).bind
    fun b hb => .ite (fun _ => .pure _) fun hnb => ?_
  have hboundary := (boundaryIntra_eq_some ((congrFun (erase_boundary _ _ _ _) d).symm.trans hb)).1
  refine (intraAt_peeks hq).bind fun i hi => .ite (fun _ => .pure _) fun hni => ?_
  have hintra := (intraAt_eq_some ((congrFun (erase_intraAt _ _ _) d).symm.trans hi)).1
  have hcoded : d.Coded (qx, qy) := by
    rcases hknown with hintraq | ⟨hx, hintrap⟩ | hcoded
    · exact absurd (hintra.mpr hintraq) hni
    · exact absurd (hboundary.mpr ⟨hx, .inr hintrap⟩) hnb
    · exact hcoded
  -- the `p` side is not looked at
  have htrue : ∀ {c : Bool}, ((codedAt .q qx qy).run d).1 = some (c, d) → c = true := fun hc =>
    (codedAt_eq_some ((congrFun (erase_codedAt _ _ _) d).symm.trans hc)).1.mpr hcoded
  refine ((codedAt_peeks hcoeff).orM fun hc => absurd (htrue hc) (by decide)).bind fun c hc =>
    .ite (fun _ => .pure _) fun hnc => ?_
  obtain ⟨cq, d₁, hcqrun, hrest⟩ := run_bind_eq_some ((congrFun (erase_bind _ _) d).symm.trans hc)
  obtain ⟨hcq, rfl⟩ := codedAt_eq_some ((congrFun (erase_codedAt _ _ _) d).symm.trans hcqrun)
  rw [hcq.mpr hcoded] at hrest
  cases hrest
  exact absurd rfl hnc

theorem leaves_codedAt (d : DbfDevice) (side : Side) (x y : Nat) :
    (codedAt side x y).Leaves d
      (side, mbAddr d.picWidthInMbs (x / 16) (y / 16) (COEFF_OFFSET + blockOf (x, y))) := by
  rw [← mbAddr_coeff]
  exact (leaves_getMbByte d side _ _ _).bind_left _

theorem getQP_peeks {side : Side} {x y : Nat}
    (h : ok (side, mbAddr d.picWidthInMbs x y QUANT_OFFSET)) : Peeks ok (getQP side x y) d :=
  (getMbByte_peeks h).bind fun _ _ => .pure _

theorem filterBlock_peeks {slice : Nat} {qp : SQp} {bS : Nat}
    (hq : ok (.q, mbAddr d.picWidthInMbs (qx / 16) (qy / 16) QUANT_OFFSET))
    (hp : ok (.p, mbAddr d.picWidthInMbs (px / 16) (py / 16) QUANT_OFFSET)) :
    Peeks ok (filterBlock slice qx qy px py qp bS) d := by
  refine (getQP_peeks hq).bind fun QPq _ => (getQP_peeks hp).bind fun QPp _ => ?_
  refine (plain_peeks (getAlpha_keeps slice)).bind fun _ _ => ?_
  exact (plain_peeks (getBeta_keeps slice)).bind fun _ _ => .pure _

/-- With the coefficients of the `q` side unknown, those of the `p` side are read. -/
theorem leaves_getBS {bS : Nat} (hrun : (Rabbits.getBS qx qy px py).run d = some (bS, d'))
    (hknown : ¬ (d.Intra (qx, qy) ∨ (qx % 16 = 0 ∧ d.Intra (px, py)) ∨ d.Coded (qx, qy))) :
    (getBS qx qy px py).Leaves d
      (.p, mbAddr d.picWidthInMbs (px / 16) (py / 16) (COEFF_OFFSET + blockOf (px, py))) := by
  simp only [not_or, not_and] at hknown
  obtain ⟨hintra, hboundary, hcoded⟩ := hknown
  obtain ⟨b, d₁, hbrun, hrest⟩ := run_bind_eq_some hrun
  obtain ⟨hb, rfl⟩ := boundaryIntra_eq_some hbrun
  obtain rfl : b = false := by
    rw [← Bool.not_eq_true, hb]
    exact fun h => h.2.elim hintra (hboundary h.1)
  refine Leaves.bind_right ((congrFun (erase_boundary _ _ _ _) d).trans hbrun) ?_
  rw [if_neg (by decide)] at hrest ⊢
  obtain ⟨q, d₂, hqrun, hrest⟩ := run_bind_eq_some hrest
  obtain ⟨hq, rfl⟩ := intraAt_eq_some hqrun
  obtain rfl : q = false := by
    rw [← Bool.not_eq_true, hq]
    exact hintra
  refine Leaves.bind_right ((congrFun (erase_intraAt _ _ _) d).trans hqrun) ?_
  rw [if_neg (by decide)] at hrest ⊢
  obtain ⟨c, d₃, hcrun, -⟩ := run_bind_eq_some hrest
  obtain ⟨cq, d₄, hcqrun, -⟩ := run_bind_eq_some hcrun
  obtain ⟨hcq, rfl⟩ := codedAt_eq_some hcqrun
  obtain rfl : cq = false := by
    rw [← Bool.not_eq_true, hcq]
    exact hcoded
  refine (Leaves.bind_right ((congrFun (erase_codedAt _ _ _) d).trans hcqrun) ?_).bind_left _
  exact leaves_codedAt d .p px py

/-- The QP of the `p` side is read for every sample. -/
theorem leaves_filterBlock {slice : Nat} {qp res : SQp} {bS : Nat}
    (hrun : (filterBlock slice qx qy px py qp bS).erase d = some (res, d')) :
    (filterBlock slice qx qy px py qp bS).Leaves d
      (.p, mbAddr d.picWidthInMbs (px / 16) (py / 16) QUANT_OFFSET) := by
  obtain ⟨QPq, d₁, hq, -⟩ := run_bind_eq_some ((congrFun (erase_bind _ _) d).symm.trans hrun)
  have hpeeks : Peeks (fun _ => True) (getQP .q (qx / 16) (qy / 16)) d := getQP_peeks trivial
  obtain rfl : d = d₁ := (hpeeks.2 QPq d₁ hq).symm
  refine Leaves.bind_right hq (Leaves.bind_left ?_ _)
  exact (leaves_getMbByte d .p _ _ _).bind_left _

end Strength

/-! ## 6. A sample -/

section Sample

variable {slice x y : Nat} {dir : EdgeDir}

theorem filterLuma_good (hq : ok (.q, mbAddr d.picWidthInMbs (x / 16) (y / 16) MODE_OFFSET))
    (hp : ok (.p, mbAddr d.picWidthInMbs ((dir.other x y).1 / 16) ((dir.other x y).2 / 16) MODE_OFFSET))
    (hcoeff : ok (.q, mbAddr d.picWidthInMbs (x / 16) (y / 16) (COEFF_OFFSET + blockOf (x, y))))
    (hknown : d.Intra (x, y) ∨ (x % 16 = 0 ∧ d.Intra (dir.other x y)) ∨ d.Coded (x, y))
    (hqQP : ok (.q, mbAddr d.picWidthInMbs (x / 16) (y / 16) QUANT_OFFSET))
    (hpQP : ok (.p, mbAddr d.picWidthInMbs ((dir.other x y).1 / 16) ((dir.other x y).2 / 16)
      QUANT_OFFSET)) : (filterLuma slice dir x y).Good ok d := by
  refine (plain_peeks (readPixels_keeps _ _)).bind_good fun qp => ?_
  refine (getBS_peeks hq hp hcoeff hknown).bind_good fun bS => ?_
  refine (filterBlock_peeks hqQP hpQP).bind_good fun res => ?_
  exact fun e he => absurd he List.not_mem_nil

/-- What the filter of a sample reads for the `p` side. -/
theorem leaves_filterLuma (hrun : ((EdgeCall.luma dir x y).filter slice).run d = some ((), d')) :
    (filterLuma slice dir x y).Leaves d
      (.p, mbAddr d.picWidthInMbs ((dir.other x y).1 / 16) ((dir.other x y).2 / 16) QUANT_OFFSET) ∧
    (¬ (d.Intra (x, y) ∨ (x % 16 = 0 ∧ d.Intra (dir.other x y)) ∨ d.Coded (x, y)) →
      (filterLuma slice dir x y).Leaves d
        (.p, mbAddr d.picWidthInMbs ((dir.other x y).1 / 16) ((dir.other x y).2 / 16)
          (COEFF_OFFSET + blockOf (dir.other x y)))) := by
  rw [← erase_filterLuma] at hrun
  obtain ⟨qp, d₁, hqp, hrest⟩ := run_bind_eq_some ((congrFun (erase_bind _ _) d).symm.trans hrun)
  obtain rfl : d = d₁ := (readPixels_keeps _ _ hqp).symm
  obtain ⟨bS, d₂, hbS, hrest⟩ := run_bind_eq_some ((congrFun (erase_bind _ _) d).symm.trans hrest)
  have hbS' := (congrFun (erase_getBS ..) d).symm.trans hbS
  obtain rfl : d = d₂ := (getBS_keeps _ _ _ _ hbS').symm
  obtain ⟨res, d₃, hres, -⟩ := run_bind_eq_some ((congrFun (erase_bind _ _) d).symm.trans hrest)
  refine ⟨?_, fun hunknown => ?_⟩
  · exact Leaves.bind_right hqp (Leaves.bind_right hbS ((leaves_filterBlock hres).bind_left _))
  · exact Leaves.bind_right hqp ((leaves_getBS hbS' hunknown).bind_left _)

end Sample

end SidedCode

/-! ## 7. The two sides -/

/-- Where the samples of a direction are: not in the first column, or row, of macroblocks. -/
def EdgeDir.Inside (dir : EdgeDir) (w x y : Nat) : Prop :=
  match dir with
  | vertical => 16 ≤ x ∧ x % 4 = 0
  | horizontal => 0 < w ∧ 16 ≤ y ∧ y % 4 = 0

theorem inside_of_mem {w offsetMb mbCount : Nat} {dir : EdgeDir} {x y : Nat}
    (h : .luma dir x y ∈ sliceCalls w offsetMb mbCount) : dir.Inside w x y := by
  obtain ⟨c, -, hc⟩ := List.mem_flatMap.mp h
  obtain ⟨hskip, edge, he, sample, hs, hat⟩ := luma_mem_mbCalls.mp hc
  cases dir with
  | vertical =>
      cases hat
      simp only [skips, skipsLeft, Bool.or_eq_false_iff, decide_eq_false_iff_not] at hskip
      have hx := hskip.1
      exact ⟨by omega, by omega⟩
  | horizontal =>
      cases hat
      have hy : 0 < c / w := by
        simp only [skips, skipsTop] at hskip
        split at hskip <;> simp only [decide_eq_false_iff_not] at hskip <;> omega
      have hw : 0 < w := by
        rcases Nat.eq_zero_or_pos w with rfl | hpos
        · rw [Nat.div_zero] at hy
          exact absurd hy (lt_irrefl 0)
        · exact hpos
      exact ⟨hw, by omega, by omega⟩

section Places

variable {w x y : Nat} {dir : EdgeDir}

theorem next_q (dir : EdgeDir) (x y : Nat) : dir.next x y .q = (x, y) := by
  cases dir <;> rfl

theorem other_of_boundary (hin : dir.Inside w x y) (hb : dir.OnBoundary x y) :
    (dir.other x y).1 / 16 = (dir.next x y .p).1 / 16 ∧
      (dir.other x y).2 / 16 = (dir.next x y .p).2 / 16 := by
  constructor <;> cases dir <;> simp only [EdgeDir.Inside, EdgeDir.OnBoundary, EdgeDir.other,
    EdgeDir.next, EdgeDir.p] at * <;> omega

/-- Between two macroblocks the macroblock of the `p` side is the right one. -/
theorem meta_of_boundary (hin : dir.Inside w x y) (hb : dir.OnBoundary x y) {byte : Nat}
    (hbyte : byte ∈ metaBytes (dir.next x y .p)) :
    mbAddr w ((dir.other x y).1 / 16) ((dir.other x y).2 / 16) byte ∈
      metaAddrs w (dir.next x y .p) := by
  obtain ⟨hx, hy⟩ := other_of_boundary hin hb
  rw [mbAddr_mem_metaAddrs (metaBytes_lt hbyte), hx, hy]
  exact ⟨rfl, hbyte⟩

/-- Inside a macroblock it is not. -/
theorem meta_of_inner (hin : dir.Inside w x y) (hb : ¬ dir.OnBoundary x y) {byte : Nat}
    (hbyte : byte < MB_BLOCK_SIZE) :
    mbAddr w ((dir.other x y).1 / 16) ((dir.other x y).2 / 16) byte ∉
      metaAddrs w (dir.next x y .p) := by
  rw [mbAddr_mem_metaAddrs hbyte]
  intro h
  have hmb := h.1
  cases dir with
  | vertical =>
      simp only [EdgeDir.Inside, EdgeDir.OnBoundary, EdgeDir.other, EdgeDir.next, EdgeDir.p] at *
      omega
  | horizontal =>
      simp only [EdgeDir.Inside, EdgeDir.OnBoundary, EdgeDir.other, EdgeDir.next, EdgeDir.p] at *
      have hrow : (y - 0 - 1) / 16 = (y - 16) / 16 + 1 := by omega
      rw [hrow, Nat.add_mul, Nat.one_mul] at hmb
      omega

/-- The 4x4 block is never the right one. -/
theorem coeff_of_boundary (hin : dir.Inside w x y) (hb : dir.OnBoundary x y) :
    mbAddr w ((dir.other x y).1 / 16) ((dir.other x y).2 / 16)
      (COEFF_OFFSET + blockOf (dir.other x y)) ∉ metaAddrs w (dir.next x y .p) := by
  have hother := blockOf_lt (dir.other x y)
  have hnext := blockOf_lt (dir.next x y .p)
  have hne : blockOf (dir.other x y) ≠ blockOf (dir.next x y .p) := by
    cases dir <;> simp only [EdgeDir.Inside, EdgeDir.OnBoundary, EdgeDir.other, EdgeDir.next,
      EdgeDir.p, blockOf] at * <;> omega
  rw [mbAddr_mem_metaAddrs (by simp only [COEFF_OFFSET, MB_BLOCK_SIZE]; omega)]
  intro h
  have hmem := h.2
  simp only [metaBytes, List.mem_cons, List.not_mem_nil, or_false, QUANT_OFFSET, MODE_OFFSET,
    COEFF_OFFSET, MVX_OFFSET, MVY_OFFSET] at hmem
  omega

end Places

/-! ## 8. Which samples use the right metadata -/

section Sample

variable {d d' : DbfDevice} {slice x y : Nat} {dir : EdgeDir}

theorem intra_of_boundary (hin : dir.Inside d.picWidthInMbs x y) (hb : dir.OnBoundary x y) :
    d.Intra (dir.other x y) ↔ d.Intra (dir.next x y .p) := by
  obtain ⟨hx, hy⟩ := other_of_boundary hin hb
  rw [DbfDevice.Intra, hx, hy, DbfDevice.Intra]

theorem metadataRight_of_known (hin : dir.Inside d.picWidthInMbs x y)
    (h : d.StrengthKnown dir x y) : MetadataRight d slice dir x y := by
  obtain ⟨hb, hknown⟩ := h
  rw [← intra_of_boundary hin hb, next_q] at hknown
  have hq {byte : Nat} (hbyte : byte ∈ metaBytes (x, y)) :
      mbAddr d.picWidthInMbs (x / 16) (y / 16) byte ∈
        metaAddrs d.picWidthInMbs (dir.next x y .q) := by
    rw [next_q, mbAddr_mem_metaAddrs (metaBytes_lt hbyte)]
    exact ⟨rfl, hbyte⟩
  have hp {byte : Nat} (hbyte : byte ∈ metaBytes (dir.next x y .p)) :=
    meta_of_boundary hin hb hbyte
  refine SidedCode.filterLuma_good (hq (by simp [metaBytes])) (hp (by simp [metaBytes]))
    (hq (by simp [metaBytes])) hknown (hq (by simp [metaBytes])) (hp (by simp [metaBytes]))

theorem known_of_metadataRight (hin : dir.Inside d.picWidthInMbs x y)
    (hrun : ((EdgeCall.luma dir x y).filter slice).run d = some ((), d'))
    (hright : MetadataRight d slice dir x y) : d.StrengthKnown dir x y := by
  obtain ⟨hqp, hcoeff⟩ := SidedCode.leaves_filterLuma hrun
  have hb : dir.OnBoundary x y := by
    by_contra hinner
    exact meta_of_inner hin hinner (by decide) (hright _ hqp)
  refine ⟨hb, ?_⟩
  rw [← intra_of_boundary hin hb, next_q]
  by_contra hunknown
  exact coeff_of_boundary hin hb (hright _ (hcoeff hunknown))

/-- **Which samples use the right metadata**: for every memory and every luma sample of a slice that
    the filter gets through, those between two macroblocks where the `q` side is intra, or has
    coefficients, or the `p` side is intra and the column is a multiple of 16. -/
theorem metadataRight_iff {offsetMb mbCount : Nat}
    (hcall : .luma dir x y ∈ sliceCalls d.picWidthInMbs offsetMb mbCount)
    (hrun : ((EdgeCall.luma dir x y).filter slice).run d = some ((), d')) :
    MetadataRight d slice dir x y ↔ d.StrengthKnown dir x y :=
  ⟨known_of_metadataRight (inside_of_mem hcall) hrun, metadataRight_of_known (inside_of_mem hcall)⟩

end Sample

/-! ## 9. Two samples of one macroblock -/

/-- Below the registers the filter gets through. -/
theorem filter_returns {d : DbfDevice} {slice : Fin N_SLICE_THREADS} {offsetMb c : Nat}
    (hc : c * MB_BLOCK_SIZE < REG_GLO_VER) {call : EdgeCall}
    (hcall : call ∈ mbCallsAt d.picWidthInMbs offsetMb c) :
    ∃ d', (call.filter slice).run d = some ((), d') := by
  have hbelow : (c / d.picWidthInMbs * d.picWidthInMbs + c % d.picWidthInMbs + 1) * MB_BLOCK_SIZE ≤
      REG_GLO_VER := by
    rw [Nat.div_add_mod']
    simp only [MB_BLOCK_SIZE, REG_GLO_VER] at *
    omega
  obtain ⟨-, ⟨⟩, d', hrun, -⟩ := DbfCode.filterCall_stays hbelow slice hcall d rfl
  exact ⟨d', (congrFun (DbfCode.erase_filterCall slice call) d).symm.trans hrun⟩

/-- The samples of the intra macroblock. -/
theorem filter_oneIntra {call : EdgeCall} (h : call ∈ mbCallsAt 8 0 9) :
    call ∈ sliceCalls oneIntra.picWidthInMbs 0 32 ∧
      ∃ d', (call.filter 0).run oneIntra = some ((), d') := by
  have hwidth : oneIntra.picWidthInMbs = 8 := by decide
  refine ⟨?_, ?_⟩
  · rw [hwidth]
    exact List.mem_flatMap.mpr ⟨9, by simp, h⟩
  · have hcall : call ∈ mbCallsAt oneIntra.picWidthInMbs 0 9 := by rwa [hwidth]
    have hslice : ∃ slice : Fin N_SLICE_THREADS, slice.val = 0 := ⟨⟨0, by decide⟩, rfl⟩
    obtain ⟨slice, hslice⟩ := hslice
    exact hslice ▸ filter_returns (by decide) hcall

/-- Its left edge. -/
theorem metadataRight_left : MetadataRight oneIntra 0 .vertical 16 17 := by
  have hmem : .luma .vertical 16 17 ∈ mbCallsAt 8 0 9 := by decide
  obtain ⟨hcall, d', hrun⟩ := filter_oneIntra hmem
  exact (metadataRight_iff hcall hrun).mpr ⟨rfl, .inl (by decide)⟩

/-- Its second vertical edge. -/
theorem metadata_fails : .luma .vertical 20 17 ∈ sliceCalls oneIntra.picWidthInMbs 0 32 ∧
    (∃ d', ((EdgeCall.luma .vertical 20 17).filter 0).run oneIntra = some ((), d')) ∧
    ¬ MetadataRight oneIntra 0 .vertical 20 17 := by
  have hmem : .luma .vertical 20 17 ∈ mbCallsAt 8 0 9 := by decide
  obtain ⟨hcall, d', hrun⟩ := filter_oneIntra hmem
  refine ⟨hcall, ⟨d', hrun⟩, fun hright => ?_⟩
  have hboundary : 20 % 16 = 0 := (known_of_metadataRight (inside_of_mem hcall) hrun hright).1
  exact absurd hboundary (by decide)

end Rabbits
