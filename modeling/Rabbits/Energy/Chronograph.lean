/-
  File:      Rabbits/Energy/Chronograph.lean
  Subject:   The viewer of the curves (chronograph.cpp: main, thread_io_fc, update_graph).

  A producer writes a header (a title, the number of graphs, for each graph its curves and its range,
  a label for each) and then one byte a curve, again and again.

  * `chronographMain` -- what `main` reads, and where it fails;
  * `threadIo`, `updateGraph` -- the records behind it, and the values drawn from one of them;
  * `Chronograph.header` -- the bytes that announce a viewer;
  * `Chronograph.Announced.reads` -- **a header that keeps the bounds is read as what it announces**;
  * `chronograph_eq` -- the header and any number of records, from the begin to the end of the pipe.

  What is drawn of the values is left out.
-/
import Rabbits.Lib.Stream
import Rabbits.Noc.Vci

namespace Rabbits

open Lib

/-! ## 1. The viewer -/

/-- `ngrf_in_grf`, `val_min_grf` and `val_max_grf` of one graph. -/
structure Graph where
  ngrfInGrf : BitVec 32
  valMinGrf : BitVec 64
  valMaxGrf : BitVec 64

/-- What `main` has read. -/
structure Chronograph where
  stitle : CString
  bAvg : Bool
  msBetweenValues : ULong
  graphs : List Graph
  slabels : List CString

/-- A length and a text of that length, into a buffer of `size` bytes. A text that does not fit is
    written over what lies behind the buffer. -/
def readText (size : Nat) : StreamM Byte CString := do
  let val ← readLe 4 32
  if size < val.toNat then failure
  else do
    let buf ← readN val.toNat
    CString.ofBuffer buf

def readGraph : StreamM Byte Graph := do
  let ngrfInGrf ← readLe 4 32
  let valMinGrf ← readLe 8 64
  let valMaxGrf ← readLe 8 64
  return ⟨ngrfInGrf, valMinGrf, valMaxGrf⟩

/-- `main`, up to the last label. With no graph it divides by 0. -/
def chronographMain : StreamM Byte Chronograph := do
  let stitle ← readText 200
  let val ← readLe 4 32
  let ngrf := (val &&& 0x7F#32).toNat
  let bAvg := decide (val &&& 0x80#32 ≠ 0#32)
  let msBetweenValues ← readLe 4 32
  let graphs ← times readGraph ngrf
  if ngrf = 0 then failure
  else do
    let slabels ← times (readText 100) (if bAvg then ngrf + 1 else ngrf)
    return ⟨stitle, bAvg, msBetweenValues, graphs, slabels⟩

namespace Chronograph

variable (c : Chronograph)

/-- An `unsigned char`. -/
def nbytesNewValue : Byte := (c.graphs.map fun g => g.ngrfInGrf.setWidth 8).sum

/-- The element of `val_min_grf` or `val_max_grf` behind the last graph: the average. -/
def avgOf (val : Graph → BitVec 64) : Int :=
  (c.graphs.map fun g => (val g).toInt).sum.tdiv c.graphs.length

/-- A graph of the window. -/
structure Shown where
  label : CString
  valMin : Int
  valMax : Int
  curves : Nat

/-- The graphs from top to bottom, with the average as the last one. -/
def shown : List Shown :=
  List.zipWith (fun label (g : Int × Int × Nat) => ⟨label, g.1, g.2.1, g.2.2⟩) c.slabels
    (c.graphs.map (fun g => (g.valMinGrf.toInt, g.valMaxGrf.toInt, g.ngrfInGrf.toNat)) ++
      if c.bAvg then [(c.avgOf Graph.valMinGrf, c.avgOf Graph.valMaxGrf, 1)] else [])

/-- The values of one record, a piece for each graph. -/
def curveValues : List Nat → List Byte → List (List Nat)
  | [], _ => []
  | n :: ns, newValue => (newValue.take n).map BitVec.toNat :: curveValues ns (newValue.drop n)

/-- `update_graph`: the values drawn in each graph. -/
def updateGraph (newValue : List Byte) : List (List Nat) :=
  let values := curveValues (c.graphs.map fun g => g.ngrfInGrf.toNat) newValue
  values ++ if c.bAvg then [[values.flatten.sum / c.nbytesNewValue.toNat]] else []

/-- `thread_io_fc`, up to the end of the pipe. Records of no byte never end. -/
def threadIo (s : List Byte) : Option (List (List Byte)) :=
  if c.nbytesNewValue = 0#8 then none else some (records c.nbytesNewValue.toNat s)

end Chronograph

/-- The viewer on a whole stream: its header, and the records it has shown. -/
def chronograph (s : List Byte) : Option (Chronograph × List (List Byte)) := do
  let (c, rest) ← chronographMain.run s
  let shown ← c.threadIo rest
  return (c, shown)

/-- The viewer shows these graphs under this title, takes the stream behind the header for these
    records, all of the length it has computed, and draws these values from them. -/
def Views (s : List Byte) (title : CString) (shown : List Chronograph.Shown) (nbytes : Nat)
    (written : List (List Byte)) (drawn : List (List (List Nat))) : Prop :=
  ∃ c, chronograph s = some (c, written) ∧ c.stitle = title ∧ c.shown = shown ∧
    c.nbytesNewValue.toNat = nbytes ∧ (∀ v ∈ written, v.length = nbytes) ∧
    written.map c.updateGraph = drawn

/-! ## 2. The header -/

/-- A text on the pipe. -/
def textField (s : CString) : List Byte := leBytes 4 (BitVec.ofNat 32 (s.strlen + 1)) ++ s.bytes

def Graph.bytes (g : Graph) : List Byte :=
  leBytes 4 g.ngrfInGrf ++ (leBytes 8 g.valMinGrf ++ leBytes 8 g.valMaxGrf)

namespace Chronograph

/-- The number of graphs, and the bit of the average. -/
def graphsWord (ngrf : Nat) (bAvg : Bool) : BitVec 32 :=
  BitVec.ofNat 32 ngrf ||| if bAvg then 0x80#32 else 0#32

def header (c : Chronograph) : List Byte :=
  textField c.stitle ++ (leBytes 4 (graphsWord c.graphs.length c.bAvg) ++
    (leBytes 4 c.msBetweenValues ++ (c.graphs.flatMap Graph.bytes ++ c.slabels.flatMap textField)))

/-- The bounds of the viewer: its buffers, and a number of graphs of seven bits. -/
structure Announced (c : Chronograph) : Prop where
  title : c.stitle.strlen < 200
  any : c.graphs ≠ []
  fits : c.graphs.length < 0x80
  labels : c.slabels.length = if c.bAvg then c.graphs.length + 1 else c.graphs.length
  label : ∀ s ∈ c.slabels, s.strlen < 100

end Chronograph

theorem reads_textField {size : Nat} {s : CString} (h : s.strlen < size) (hsize : size < 2 ^ 32) :
    Reads (readText size) (textField s) s := by
  have hlen : (BitVec.ofNat 32 (s.strlen + 1)).toNat = s.strlen + 1 := by
    rw [BitVec.toNat_ofNat, Nat.mod_eq_of_lt (by omega)]
  refine (reads_readLe 4 rfl _).bind ?_
  rw [hlen, if_neg (by omega), ← List.append_nil s.bytes]
  refine (reads_readN s.length_bytes).bind fun rest => ?_
  rw [CString.ofBuffer_bytes]
  rfl

theorem reads_graph (g : Graph) : Reads readGraph g.bytes g := by
  unfold readGraph Graph.bytes
  refine (reads_readLe 4 rfl g.ngrfInGrf).bind ((reads_readLe 8 rfl g.valMinGrf).bind ?_)
  exact (reads_readLe 8 rfl g.valMaxGrf).map fun valMaxGrf =>
    Graph.mk g.ngrfInGrf g.valMinGrf valMaxGrf

namespace Chronograph

theorem graphsWord_fields : ∀ ngrf < 0x80, ∀ bAvg,
    (graphsWord ngrf bAvg &&& 0x7F#32).toNat = ngrf ∧
      decide (graphsWord ngrf bAvg &&& 0x80#32 ≠ 0#32) = bAvg := by
  decide

/-- **A header is read as the viewer it announces.** -/
theorem Announced.reads {c : Chronograph} (h : c.Announced) : Reads chronographMain c.header c := by
  obtain ⟨hngrf, havg⟩ := graphsWord_fields _ h.fits c.bAvg
  have hgraphs : Reads (times readGraph c.graphs.length) (c.graphs.flatMap Graph.bytes)
      (c.graphs.map id) := .times fun g _ => reads_graph g
  have hlabels : Reads (times (readText 100) c.slabels.length) (c.slabels.flatMap textField)
      (c.slabels.map id) := .times fun s hs => reads_textField (h.label s hs) (by decide)
  rw [List.map_id] at hgraphs hlabels
  unfold chronographMain header
  refine (reads_textField h.title (by decide)).bind ((reads_readLe 4 rfl _).bind
    ((reads_readLe 4 rfl _).bind ?_))
  rw [hngrf, havg]
  refine hgraphs.bind ?_
  rw [if_neg (by simpa using h.any), ← h.labels]
  exact hlabels.map _

/-- **The header, and then one record a sample, up to the end of the pipe.** -/
theorem Announced.chronograph_eq {c : Chronograph} (h : c.Announced) (hpos : c.nbytesNewValue ≠ 0#8)
    {samples : List (List Byte)} (hs : ∀ v ∈ samples, v.length = c.nbytesNewValue.toNat) :
    chronograph (c.header ++ samples.flatten) = some (c, samples) := by
  have hlen : 0 < c.nbytesNewValue.toNat := by
    rw [Nat.pos_iff_ne_zero]
    exact fun h0 => hpos (BitVec.eq_of_toNat_eq h0)
  have hio : c.threadIo samples.flatten = some samples := by
    rw [threadIo, if_neg hpos, records_flatten hlen hs]
  rw [chronograph, h.reads samples.flatten]
  show (c.threadIo samples.flatten).bind _ = _
  rw [hio]
  rfl

/-- The length of a record is the number of the curves. -/
theorem nbytesNewValue_toNat {c : Chronograph}
    (h : (c.graphs.map fun g => g.ngrfInGrf.toNat).sum < 256) :
    c.nbytesNewValue.toNat = (c.graphs.map fun g => g.ngrfInGrf.toNat).sum := by
  have hsum : ∀ graphs : List Graph, (graphs.map fun g => g.ngrfInGrf.setWidth 8).sum =
      BitVec.ofNat 8 (graphs.map fun g => g.ngrfInGrf.toNat).sum := by
    intro graphs
    induction graphs with
    | nil => rfl
    | cons g graphs ih =>
        rw [List.map_cons, List.sum_cons, ih, List.map_cons, List.sum_cons, BitVec.ofNat_add]
        rfl
  rw [nbytesNewValue, hsum, BitVec.toNat_ofNat, Nat.mod_eq_of_lt h]

/-- The values of the curves stand one graph behind the other. -/
theorem curveValues_flatten (values : List (List Byte)) :
    curveValues (values.map List.length) values.flatten =
      values.map (List.map BitVec.toNat) := by
  induction values with
  | nil => rfl
  | cons v values ih =>
      rw [List.map_cons, List.flatten_cons, curveValues, List.take_left, List.drop_left, ih,
        List.map_cons]

/-- With no graph the viewer does not come up. -/
theorem chronograph_no_graphs (c : Chronograph) (h : c.stitle.strlen < 200) (hnone : c.graphs = []) :
    chronograph c.header = none := by
  obtain ⟨hngrf, -⟩ := graphsWord_fields 0 (by decide) c.bAvg
  have hmain : chronographMain.run c.header = none := by
    unfold chronographMain header
    rw [hnone, (reads_textField h (by decide)).run_bind, (reads_readLe 4 rfl _).run_bind,
      List.length_nil, hngrf, (reads_readLe 4 rfl _).run_bind]
    exact (Reads.pure ([] : List Graph)).run_bind _ _
  rw [chronograph, hmain]
  rfl

end Chronograph

end Rabbits
