/-
  File:      Rabbits/Dbf/EdgeCalls.lean
  Subject:   The edges of a slice as a list of calls (dbf_device.cpp: the loops of filter_slice, and
             the functions that they call).

  * `EdgeCall` -- a call of one of the four edge filters;
  * `mbCalls`, `sliceCalls` -- the calls for one macroblock, and for a slice;
  * `filterMbs_eq` -- **the loops are these calls, one after the other**;
  * `mem_mbCalls` -- which calls these are.
-/
import Rabbits.Dbf.SliceOrder

namespace Rabbits

open Lib

/-! ## 1. Calls -/

inductive EdgeDir where
  | vertical
  | horizontal
  deriving DecidableEq

/-- The arguments of a call, but for the slice. -/
inductive EdgeCall where
  | luma (dir : EdgeDir) (x y : Nat)
  | chroma (dir : EdgeDir) (iCbCr x y : Nat)
  deriving DecidableEq

def EdgeCall.filter (slice : Nat) : EdgeCall → DbfM Unit
  | luma .vertical x y => filterVerticalL slice x y
  | luma .horizontal x y => filterHorizontalL slice x y
  | chroma .vertical iCbCr x y => filterVerticalC slice x y iCbCr
  | chroma .horizontal iCbCr x y => filterHorizontalC slice x y iCbCr

/-- The test of a direction. -/
def skips : EdgeDir → Nat → Nat → Nat → Nat → Bool
  | .vertical => skipsLeft
  | .horizontal => skipsTop

/-- The place of a sample: `across` from the edge at the boundary, `along` the edge. -/
def EdgeDir.at (dir : EdgeDir) (x y across along : Nat) : Nat × Nat :=
  match dir with
  | vertical => (x + across, y + along)
  | horizontal => (x + along, y + across)

/-- The place that stands for the other side of an edge. -/
def EdgeDir.other (dir : EdgeDir) (x y : Nat) : Nat × Nat :=
  match dir with
  | vertical => (x - 16, y)
  | horizontal => (x, y - 16)

/-- The `i`-th pixels from the edge, behind it and before it. -/
def EdgeDir.q (dir : EdgeDir) (x y i : Nat) : Nat × Nat := dir.at x y i 0

def EdgeDir.p (dir : EdgeDir) (x y i : Nat) : Nat × Nat :=
  match dir with
  | vertical => (x - i - 1, y)
  | horizontal => (x, y - i - 1)

/-- The two loops of one direction. -/
def edgeCalls (edges samples : Nat) (skip : Bool) (call : Nat → Nat → EdgeCall) : List EdgeCall :=
  (List.range edges).flatMap fun edge =>
    if skip then [] else (List.range samples).map fun sample => call (edge * 4) sample

/-- The luma edges of one direction. -/
def lumaCalls (dir : EdgeDir) (xFirst yFirst mbPosX mbPosY : Nat) : List EdgeCall :=
  edgeCalls 4 16 (skips dir xFirst yFirst mbPosX mbPosY) fun edge sample =>
    .luma dir (dir.at mbPosX mbPosY edge sample).1 (dir.at mbPosX mbPosY edge sample).2

/-- The chroma edges of one direction. -/
def chromaCalls (dir : EdgeDir) (iCbCr xFirst yFirst mbPosX mbPosY : Nat) : List EdgeCall :=
  edgeCalls 2 8 (skips dir xFirst yFirst mbPosX mbPosY) fun edge sample =>
    .chroma dir iCbCr (dir.at mbPosX mbPosY edge sample).1 (dir.at mbPosX mbPosY edge sample).2

/-- The calls for a macroblock. -/
def mbCalls (xFirst yFirst mbPosX mbPosY : Nat) : List EdgeCall :=
  lumaCalls .vertical xFirst yFirst mbPosX mbPosY ++
    (lumaCalls .horizontal xFirst yFirst mbPosX mbPosY ++
      (List.range 2).flatMap fun iCbCr =>
        chromaCalls .vertical iCbCr xFirst yFirst mbPosX mbPosY ++
          chromaCalls .horizontal iCbCr xFirst yFirst mbPosX mbPosY)

/-- The calls for the macroblock `c` of a slice that starts at `offsetMb`. -/
def mbCallsAt (picWidthInMbs offsetMb c : Nat) : List EdgeCall :=
  mbCalls (offsetMb % picWidthInMbs * 16) (offsetMb / picWidthInMbs * 16)
    (c % picWidthInMbs * 16) (c / picWidthInMbs * 16)

def sliceCalls (picWidthInMbs offsetMb mbCount : Nat) : List EdgeCall :=
  (List.range' offsetMb mbCount).flatMap (mbCallsAt picWidthInMbs offsetMb)

/-- The calls that `filter_slice` makes. -/
def DbfDevice.calls (d : DbfDevice) (slice : Nat) : List EdgeCall :=
  sliceCalls d.width (d.offset slice) (d.length slice)

/-! ## 2. The loops -/

theorem filter_luma (slice : Nat) (dir : EdgeDir) (x y : Nat) :
    (EdgeCall.luma dir x y).filter slice =
      filterEdge slice 0 (fun a => getLPixel a.1 a.2) (fun a => setLPixel a.1 a.2) (dir.q x y)
        (dir.p x y) x y (dir.other x y).1 (dir.other x y).2 := by
  cases dir <;> rfl

theorem filter_chroma (slice : Nat) (dir : EdgeDir) (iCbCr x y : Nat) :
    (EdgeCall.chroma dir iCbCr x y).filter slice =
      filterEdge slice 1 (fun a => getCPixel iCbCr a.1 a.2) (fun a => setCPixel iCbCr a.1 a.2)
        (dir.q (x / 2) (y / 2)) (dir.p (x / 2) (y / 2)) x y (dir.other x y).1 (dir.other x y).2 := by
  cases dir <;> rfl

/-- Two nested loops are one. -/
theorem forM_flatMap {m : Type → Type} [Monad m] [LawfulMonad m] {α β : Type} (xs : List α)
    (f : α → List β) (g : β → m PUnit) :
    forM (xs.flatMap f) g = forM xs fun x => forM (f x) g := by
  induction xs with
  | nil => rfl
  | cons x xs ih => rw [List.flatMap_cons, List.forM_append, ih, List.forM_cons]

theorem edgeCalls_forM (slice edges samples : Nat) (skip : Bool) (call : Nat → Nat → EdgeCall) :
    forM (edgeCalls edges samples skip call) (EdgeCall.filter slice) =
      forEdges edges samples skip fun edge sample => (call edge sample).filter slice := by
  rw [edgeCalls, forM_flatMap, forEdges, List.forM_eq_forM]
  congr 1
  funext edge
  cases skip with
  | true => rfl
  | false => exact List.forM_map

theorem filterMb_eq (slice xFirst yFirst mbPosX mbPosY : Nat) :
    filterMb slice xFirst yFirst mbPosX mbPosY =
      forM (mbCalls xFirst yFirst mbPosX mbPosY) (EdgeCall.filter slice) := by
  rw [mbCalls, List.forM_append, List.forM_append, lumaCalls, edgeCalls_forM, lumaCalls,
    edgeCalls_forM, forM_flatMap]
  simp only [List.forM_append, chromaCalls, edgeCalls_forM]
  rfl

/-- **The loops of a slice.** -/
theorem filterMbs_eq (slice picWidthInMbs offsetMb mbCount : Nat) :
    filterMbs slice picWidthInMbs offsetMb mbCount =
      forM (sliceCalls picWidthInMbs offsetMb mbCount) (EdgeCall.filter slice) := by
  rw [sliceCalls, forM_flatMap, filterMbs, List.forM_eq_forM]
  simp only [filterMb_eq]
  rfl

/-- `filter_slice` makes the calls that its registers say. -/
theorem filterSlice_calls {slice : Nat} (hs : slice < N_SLICE_THREADS) (d : DbfDevice) :
    (filterSlice slice).run d = (do
      forM (d.calls slice) (EdgeCall.filter slice)
      return d.offset slice + d.length slice : DbfM Nat).run d.sized := by
  have hset : (modify fun d' : DbfDevice => { d' with picWidthInMbs := d.width } : DbfM PUnit).run d =
      some ((), d.sized) := rfl
  rw [filterSlice, run_bind_of (getPicWidthInMbs_run d), run_bind_of hset,
    run_bind_of (getPicHeightInMbs_run d.sized), run_bind_of (getSliceLength_run hs d.sized),
    run_bind_of (getOffset_run hs d.sized), filterMbs_eq]
  rfl

/-! ## 3. Which calls these are -/

theorem mem_edgeCalls {edges samples : Nat} {skip : Bool} {call : Nat → Nat → EdgeCall}
    {c : EdgeCall} : c ∈ edgeCalls edges samples skip call ↔
      skip = false ∧ ∃ edge < edges, ∃ sample < samples, c = call (edge * 4) sample := by
  cases skip with
  | true => simp [edgeCalls]
  | false =>
      simp only [edgeCalls, List.mem_flatMap, List.mem_range, Bool.false_eq_true, if_false,
        List.mem_map, true_and, eq_comm]

/-- A luma call of a macroblock. -/
theorem luma_mem_mbCalls {xFirst yFirst mbPosX mbPosY : Nat} {dir : EdgeDir} {x y : Nat} :
    .luma dir x y ∈ mbCalls xFirst yFirst mbPosX mbPosY ↔
      skips dir xFirst yFirst mbPosX mbPosY = false ∧
        ∃ edge < 4, ∃ sample < 16, (x, y) = dir.at mbPosX mbPosY (edge * 4) sample := by
  cases dir <;> simp [mbCalls, lumaCalls, chromaCalls, mem_edgeCalls, EdgeDir.at, Prod.ext_iff]

/-- A chroma call of a macroblock. -/
theorem chroma_mem_mbCalls {xFirst yFirst mbPosX mbPosY : Nat} {dir : EdgeDir} {iCbCr x y : Nat} :
    .chroma dir iCbCr x y ∈ mbCalls xFirst yFirst mbPosX mbPosY ↔
      iCbCr < 2 ∧ skips dir xFirst yFirst mbPosX mbPosY = false ∧
        ∃ edge < 2, ∃ sample < 8, (x, y) = dir.at mbPosX mbPosY (edge * 4) sample := by
  cases dir <;> simp [mbCalls, lumaCalls, chromaCalls, mem_edgeCalls, EdgeDir.at, Prod.ext_iff]

theorem mbCallsAt_sublist {d : DbfDevice} {slice c : Nat} (hc : c ∈ d.mbs slice) :
    (mbCallsAt d.width (d.offset slice) c).Sublist (d.calls slice) := by
  refine List.sublist_flatten_of_mem (List.mem_map.mpr ⟨c, ?_, rfl⟩)
  rwa [List.mem_range'_1]

/-- A picture of format SQCIF, and slice 0 with four of its rows. -/
def fourRows : DbfDevice := DbfDevice.new.poke (REG_SLI_LGTOFF + 1) 2#8

/-- The second macroblock of the second row. -/
theorem mem_fourRows : 9 ∈ fourRows.mbs 0 := by
  have hrange : fourRows.offset 0 = 0 ∧ fourRows.length 0 = 32 := by decide
  rw [DbfDevice.mbs, hrange.1, hrange.2]
  exact ⟨by decide, by decide⟩

end Rabbits
