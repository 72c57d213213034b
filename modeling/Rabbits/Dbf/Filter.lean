/-
  File:      Rabbits/Dbf/Filter.lean
  Subject:   The deblocking filter (dbf_device.cpp: get_bS, filter_block, the edge filters,
             filter_slice).

  * `getBS` -- the boundary strength;
  * `filterSamples`, `filterBlock` -- eight pixels across an edge;
  * `FilterArgs`, `Samples` -- its values before they are stored;
  * `filterEdge` -- an edge filter; the four of the source are instances;
  * `filterMb`, `filterSlice` -- the loops, with the tests that skip the left and top boundary.

  `>>` on an `int` is the floor of a division. Simulated time and energy tracing are left out.
-/
import Rabbits.Dbf.DbfDevice
import Mathlib.Algebra.Order.Group.Int
import Mathlib.Algebra.Order.Group.Unbundled.Abs
import Mathlib.Data.Fin.VecNotation

namespace Rabbits

/-! ## 1. The boundary strength -/

def I_PCM : Nat := 30

def isIntra (m : Byte) : Bool := 5 ≤ m.toNat && m.toNat ≤ I_PCM

/-- `IsIntra (get_mode (x, y))`. -/
def intraAt (x y : Nat) : DbfM Bool := do
  return isIntra (← getMode x y)

/-- `get_TotalCoeffL (x >> 2, y >> 2) != 0`. -/
def codedAt (x y : Nat) : DbfM Bool := do
  return (← getTotalCoeffL (x / 4) (y / 4)) != 0#8

/-- `abs (get_MV (qx >> 2, qy >> 2) - get_MV (px >> 2, py >> 2)) > 4`, for either component. -/
def movesApart (getMV : Nat → Nat → DbfM Int) (qx qy px py : Nat) : DbfM Bool := do
  let q ← getMV (qx / 4) (qy / 4)
  let p ← getMV (px / 4) (py / 4)
  return 4 < (q - p).natAbs

/-- The strength for the pixel `q` and its counterpart `p` on the other side. Both kinds of edge
    test `qx`. -/
def getBS (qx qy px py : Nat) : DbfM Nat := do
  if ← pure (qx % 16 == 0) <&&> (intraAt qx qy <||> intraAt px py) then
    return 4
  else if ← intraAt qx qy then
    return 3
  else if ← codedAt qx qy <||> codedAt px py then
    return 2
  else if ← movesApart getMVx qx qy px py <||> movesApart getMVy qx qy px py then
    return 1
  else
    return 0

/-! ## 2. Eight pixels -/

/-- `s_qp`: four pixels on either side of an edge. -/
structure SQp where
  p : Fin 4 → Byte
  q : Fin 4 → Byte

def customClip (i min max : Int) : Int := if i < min then min else if i > max then max else i

def clip (i : Int) : Int := customClip i 0 255

def alphaT : List Byte :=
  [0, 0, 0, 0, 0, 0, 0, 0, 0, 0, 0, 0, 0, 0, 0, 0,
    4, 4, 5, 6, 7, 8, 9, 10, 12, 13, 15, 17, 20, 22, 25, 28,
    32, 36, 40, 45, 50, 56, 63, 71, 80, 90, 101, 113, 127, 144, 162, 182,
    203, 226, 255, 255]

def betaT : List Byte :=
  [0, 0, 0, 0, 0, 0, 0, 0, 0, 0, 0, 0, 0, 0, 0, 0,
    2, 2, 2, 3, 3, 3, 3, 4, 4, 4, 6, 6, 7, 7, 8, 8,
    9, 9, 10, 10, 11, 11, 12, 12, 13, 13, 14, 14, 15, 15, 16, 16,
    17, 17, 18, 18]

def tc0T : List (List Byte) :=
  [[0, 0, 0, 0, 0, 0, 0, 0, 0, 0, 0, 0, 0, 0, 0, 0,
      0, 0, 0, 0, 0, 0, 0, 1, 1, 1, 1, 1, 1, 1, 1, 1,
      1, 2, 2, 2, 2, 3, 3, 3, 4, 4, 4, 5, 6, 6, 7, 8,
      9, 10, 11, 13],
    [0, 0, 0, 0, 0, 0, 0, 0, 0, 0, 0, 0, 0, 0, 0, 0,
      0, 0, 0, 0, 0, 1, 1, 1, 1, 1, 1, 1, 1, 1, 1, 2,
      2, 2, 2, 3, 3, 3, 4, 4, 5, 5, 6, 7, 8, 8, 10, 11,
      12, 13, 15, 17],
    [0, 0, 0, 0, 0, 0, 0, 0, 0, 0, 0, 0, 0, 0, 0, 0,
      0, 1, 1, 1, 1, 1, 1, 1, 1, 1, 1, 2, 2, 2, 2, 3,
      3, 3, 4, 4, 4, 5, 6, 6, 7, 8, 9, 10, 11, 13, 14, 16,
      18, 20, 23, 25]]

/-- An entry of a table of `char`, which is signed. -/
def charAt (table : List Byte) (index : Int) : Int := (table.getD index.toNat 0#8).toInt

/-- `indexA`, and with the other offset `indexB`. -/
def indexAB (QPq QPp : Int) (off : Byte) : Int :=
  customClip ((QPq + QPp + 1) / 2 + (off.toNat : Int) * 4) 0 51

/-- `filterSampleFlag`. -/
def filterSampleFlag (p q : Fin 4 → Int) (alpha beta : Int) (bS : Nat) : Bool :=
  bS ≠ 0 ∧ |p 0 - q 0| < alpha ∧ |p 1 - p 0| < beta ∧ |q 1 - q 0| < beta

/-- The new pixels on the `p` side (and, with the sides exchanged and `-delta`, on the `q` side)
    for a strength below 4. -/
def filterNormal (p q : Fin 4 → Int) (beta tc0 delta : Int) (chromaFlag : Nat) : Fin 4 → Int :=
  let p1 :=
    if |p 2 - p 0| < beta ∧ chromaFlag = 0 then
      p 1 + customClip ((p 2 + (p 0 + q 0 + 1) / 2 - p 1 * 2) / 2) (-tc0) tc0
    else p 1
  ![clip (p 0 + delta), p1, p 2, p 3]

/-- The new pixels on the `p` side (and, with the sides exchanged, on the `q` side) for the
    strength 4. -/
def filterStrong (p q : Fin 4 → Int) (alpha beta : Int) (chromaFlag : Nat) : Fin 4 → Int :=
  if chromaFlag = 0 ∧ |p 2 - p 0| < beta ∧ |p 0 - q 0| < alpha / 4 + 2 then
    ![(p 2 + 2 * p 1 + 2 * p 0 + 2 * q 0 + q 1 + 4) / 8,
      (p 2 + p 1 + p 0 + q 0 + 2) / 4,
      (2 * p 3 + 3 * p 2 + p 1 + p 0 + q 0 + 4) / 8,
      p 3]
  else
    ![(2 * p 1 + p 0 + q 1 + 2) / 4, p 1, p 2, p 3]

/-- `filter_block` once the registers are read. -/
def filterSamples (QPq QPp : Int) (alphaOff betaOff : Byte) (chromaFlag : Nat) (qp : SQp)
    (bS : Nat) : SQp :=
  let p := fun i => ((qp.p i).toNat : Int)
  let q := fun i => ((qp.q i).toNat : Int)
  let indexA := indexAB QPq QPp alphaOff
  let alpha := charAt alphaT indexA
  let beta := charAt betaT (indexAB QPq QPp betaOff)
  if filterSampleFlag p q alpha beta bS then
    if bS < 4 then
      let tc0 := charAt (tc0T.getD (bS - 1) []) indexA
      let tc :=
        if chromaFlag = 0 then
          tc0 + (if |p 2 - p 0| < beta then 1 else 0) + (if |q 2 - q 0| < beta then 1 else 0)
        else tc0 + 1
      let delta := customClip (((q 0 - p 0) * 4 + (p 1 - q 1) + 4) / 8) (-tc) tc
      { p := fun i => BitVec.ofInt 8 (filterNormal p q beta tc0 delta chromaFlag i)
        q := fun i => BitVec.ofInt 8 (filterNormal q p beta tc0 (-delta) chromaFlag i) }
    else if bS = 4 then
      { p := fun i => BitVec.ofInt 8 (filterStrong p q alpha beta chromaFlag i)
        q := fun i => BitVec.ofInt 8 (filterStrong q p alpha beta chromaFlag i) }
    else qp
  else qp

def filterBlock (slice qx qy px py chromaFlag : Nat) (qp : SQp) (bS : Nat) : DbfM SQp := do
  let qpType := if chromaFlag = 0 then 0 else 1
  let QPq ← getQP (qx / 16) (qy / 16) qpType
  let QPp ← getQP (px / 16) (py / 16) qpType
  let alphaOff ← getAlpha slice
  let betaOff ← getBeta slice
  return filterSamples QPq QPp alphaOff betaOff chromaFlag qp bS

/-! ## 3. The pixels before they are stored -/

/-- The pixels of both sides before they are stored. -/
structure Samples where
  p : Fin 4 → Int
  q : Fin 4 → Int

def SQp.samples (qp : SQp) : Samples := ⟨fun i => (qp.p i).toNat, fun i => (qp.q i).toNat⟩

def Samples.store (s : Samples) : SQp :=
  ⟨fun i => BitVec.ofInt 8 (s.p i), fun i => BitVec.ofInt 8 (s.q i)⟩

/-- What `filter_block` reads: the QP of both sides, the registers, and its flag. -/
structure FilterArgs where
  QPq : Int
  QPp : Int
  alphaOff : Byte
  betaOff : Byte
  chromaFlag : Nat

namespace FilterArgs

variable (a : FilterArgs)

def indexA : Int := indexAB a.QPq a.QPp a.alphaOff

def indexB : Int := indexAB a.QPq a.QPp a.betaOff

def alpha : Int := charAt alphaT a.indexA

def beta : Int := charAt betaT a.indexB

def sampleFlag (s : Samples) (bS : Nat) : Bool := filterSampleFlag s.p s.q a.alpha a.beta bS

def tc0 (bS : Nat) : Int := charAt (tc0T.getD (bS - 1) []) a.indexA

def tc (s : Samples) (bS : Nat) : Int :=
  if a.chromaFlag = 0 then
    a.tc0 bS + (if |s.p 2 - s.p 0| < a.beta then 1 else 0) +
      (if |s.q 2 - s.q 0| < a.beta then 1 else 0)
  else a.tc0 bS + 1

def delta (s : Samples) (bS : Nat) : Int :=
  customClip (((s.q 0 - s.p 0) * 4 + (s.p 1 - s.q 1) + 4) / 8) (-a.tc s bS) (a.tc s bS)

/-- The new pixels for a strength below 4. -/
def normal (s : Samples) (bS : Nat) : Samples where
  p := filterNormal s.p s.q a.beta (a.tc0 bS) (a.delta s bS) a.chromaFlag
  q := filterNormal s.q s.p a.beta (a.tc0 bS) (-a.delta s bS) a.chromaFlag

/-- The new pixels for the strength 4. -/
def strong (s : Samples) : Samples where
  p := filterStrong s.p s.q a.alpha a.beta a.chromaFlag
  q := filterStrong s.q s.p a.alpha a.beta a.chromaFlag

def new (s : Samples) (bS : Nat) : Samples :=
  if a.sampleFlag s bS then
    if bS < 4 then a.normal s bS
    else if bS = 4 then a.strong s
    else s
  else s

/-- `filter_block` with these. -/
def filter (qp : SQp) (bS : Nat) : SQp :=
  filterSamples a.QPq a.QPp a.alphaOff a.betaOff a.chromaFlag qp bS

end FilterArgs

/-! ## 4. The edges -/

/-- What the four edge filters do with their pixels, at `q i` and `p i` for the `i`-th from the
    edge. -/
def filterEdge (slice chromaFlag : Nat) (getPixel : Nat × Nat → DbfM Byte)
    (setPixel : Nat × Nat → Byte → DbfM Unit) (q p : Nat → Nat × Nat) (qx qy px py : Nat) :
    DbfM Unit := do
  let q0 ← getPixel (q 0)
  let p0 ← getPixel (p 0)
  let q1 ← getPixel (q 1)
  let p1 ← getPixel (p 1)
  let q2 ← getPixel (q 2)
  let p2 ← getPixel (p 2)
  let q3 ← getPixel (q 3)
  let p3 ← getPixel (p 3)
  let bS ← getBS qx qy px py
  let res ← filterBlock slice qx qy px py chromaFlag ⟨![p0, p1, p2, p3], ![q0, q1, q2, q3]⟩ bS
  (List.finRange 4).forM fun i => do
    setPixel (q i) (res.q i)
    setPixel (p i) (res.p i)

def filterVerticalL (slice x y : Nat) : DbfM Unit :=
  filterEdge slice 0 (fun a => getLPixel a.1 a.2) (fun a => setLPixel a.1 a.2)
    (fun i => (x + i, y)) (fun i => (x - i - 1, y)) x y (x - 16) y

def filterHorizontalL (slice x y : Nat) : DbfM Unit :=
  filterEdge slice 0 (fun a => getLPixel a.1 a.2) (fun a => setLPixel a.1 a.2)
    (fun i => (x, y + i)) (fun i => (x, y - i - 1)) x y x (y - 16)

def filterVerticalC (slice x y iCbCr : Nat) : DbfM Unit :=
  filterEdge slice 1 (fun a => getCPixel iCbCr a.1 a.2) (fun a => setCPixel iCbCr a.1 a.2)
    (fun i => (x / 2 + i, y / 2)) (fun i => (x / 2 - i - 1, y / 2)) x y (x - 16) y

def filterHorizontalC (slice x y iCbCr : Nat) : DbfM Unit :=
  filterEdge slice 1 (fun a => getCPixel iCbCr a.1 a.2) (fun a => setCPixel iCbCr a.1 a.2)
    (fun i => (x / 2, y / 2 + i)) (fun i => (x / 2, y / 2 - i - 1)) x y x (y - 16)

/-! ## 5. The slice -/

/-- "Skip left boundary of the slice". -/
def skipsLeft (xFirst yFirst mbPosX mbPosY : Nat) : Bool :=
  mbPosX = 0 || (mbPosX = xFirst && mbPosY = yFirst)

/-- "Skip top boundary of the slice". -/
def skipsTop (xFirst yFirst mbPosX mbPosY : Nat) : Bool :=
  if mbPosX < xFirst then mbPosY ≤ yFirst + 16 else mbPosY ≤ yFirst

/-- The edges of one direction: `edges` of them, 4 apart, with `samples` samples each. -/
def forEdges (edges samples : Nat) (skips : Bool) (filter : Nat → Nat → DbfM Unit) : DbfM Unit :=
  (List.range edges).forM fun edge =>
    if skips then pure ()
    else (List.range samples).forM fun sample => filter (edge * 4) sample

/-- The body of the loop over the macroblocks. -/
def filterMb (slice xFirst yFirst mbPosX mbPosY : Nat) : DbfM Unit := do
  let left := skipsLeft xFirst yFirst mbPosX mbPosY
  let top := skipsTop xFirst yFirst mbPosX mbPosY
  forEdges 4 16 left fun edge line => filterVerticalL slice (mbPosX + edge) (mbPosY + line)
  forEdges 4 16 top fun edge col => filterHorizontalL slice (mbPosX + col) (mbPosY + edge)
  (List.range 2).forM fun iCbCr => do
    forEdges 2 8 left fun edge line =>
      filterVerticalC slice (mbPosX + edge) (mbPosY + line) iCbCr
    forEdges 2 8 top fun edge col =>
      filterHorizontalC slice (mbPosX + col) (mbPosY + edge) iCbCr

/-- The loop over the macroblocks of the slice. -/
def filterMbs (slice picWidthInMbs offsetMb mbCount : Nat) : DbfM Unit :=
  (List.range' offsetMb mbCount).forM fun currMbAddr =>
    filterMb slice (offsetMb % picWidthInMbs * 16) (offsetMb / picWidthInMbs * 16)
      (currMbAddr % picWidthInMbs * 16) (currMbAddr / picWidthInMbs * 16)

/-- `filter_slice`, with the macroblock address it returns. -/
def filterSlice (slice : Nat) : DbfM Nat := do
  let picWidthInMbs ← getPicWidthInMbs
  modify fun d => { d with picWidthInMbs }
  let _picHeightInMbs ← getPicHeightInMbs
  let mbCount ← getSliceLength slice
  let offsetMb ← getOffset slice
  filterMbs slice picWidthInMbs offsetMb mbCount
  return offsetMb + mbCount

end Rabbits
