/-
  File:      Rabbits/Dbf/ChromaEdges.lean
  Subject:   Which chroma samples a slice filters (dbf_device.cpp: the chroma loops of filter_slice,
             filter_vertical_C, filter_horizontal_C).

  A chroma macroblock is 8 samples wide and high, with edges at 0 and 4. The loops count to 8 and
  step by 4 in luma coordinates, and the filters halve these.

  * `EdgeCall.sample` -- the sample of a call; `visits` -- those of a macroblock, call by call;
  * `EdgesOnce` -- **the property**: a slice visits each sample of the two edges once;
  * `chroma_samples` -- what the loops visit: the edges at 0 and 2, four samples each, twice;
  * `chroma_never_once` -- **the property holds for no edge that is not skipped**.
-/
import Rabbits.Dbf.EdgeCalls

namespace Rabbits

/-! ## 1. Samples -/

/-- The sample of a component that a call of this direction filters: its `q 0`. -/
def EdgeCall.sample (dir : EdgeDir) (iCbCr : Nat) : EdgeCall → Option (Nat × Nat)
  | luma .. => none
  | chroma dir' iCbCr' x y => if dir' = dir ∧ iCbCr' = iCbCr then some (x / 2, y / 2) else none

/-- The samples of a macroblock that calls filter, one for each call. -/
def visits (dir : EdgeDir) (iCbCr mbX mbY : Nat) (calls : List EdgeCall) : List (Nat × Nat) :=
  (calls.filterMap (EdgeCall.sample dir iCbCr)).filter fun a => a.1 / 8 = mbX ∧ a.2 / 8 = mbY

/-- The samples of the edges at 0 and 4. -/
def chromaEdges (dir : EdgeDir) (mbX mbY : Nat) : List (Nat × Nat) :=
  (List.range 2).flatMap fun edge =>
    (List.range 8).map fun sample => dir.at (mbX * 8) (mbY * 8) (edge * 4) sample

/-- A slice filters each sample of the edges of its macroblock `c` once, and no other one of the
    macroblock. -/
def EdgesOnce (d : DbfDevice) (slice : Nat) (dir : EdgeDir) (iCbCr c : Nat) : Prop :=
  (visits dir iCbCr (c % d.width) (c / d.width) (d.calls slice)).Perm
    (chromaEdges dir (c % d.width) (c / d.width))

/-! ## 2. What the loops visit -/

/-- **What the calls of a direction visit**: the edges at 0 and 2, and of these four samples, each
    one twice. -/
theorem chroma_samples {dir : EdgeDir} {xFirst yFirst mbX mbY : Nat}
    (hskip : skips dir xFirst yFirst (mbX * 16) (mbY * 16) = false) (iCbCr : Nat) :
    (chromaCalls dir iCbCr xFirst yFirst (mbX * 16) (mbY * 16)).filterMap
        (EdgeCall.sample dir iCbCr) =
      (List.range 2).flatMap fun edge =>
        (List.range 8).map fun sample => dir.at (mbX * 8) (mbY * 8) (edge * 2) (sample / 2) := by
  have hhalf : ∀ edge sample, ((dir.at (mbX * 16) (mbY * 16) (edge * 4) sample).1 / 2,
      (dir.at (mbX * 16) (mbY * 16) (edge * 4) sample).2 / 2) =
      dir.at (mbX * 8) (mbY * 8) (edge * 2) (sample / 2) := by
    intro edge sample
    cases dir <;> simp only [EdgeDir.at, Prod.mk.injEq] <;> omega
  simp only [chromaCalls, edgeCalls, hskip, Bool.false_eq_true, if_false, List.filterMap_flatMap,
    List.filterMap_map, Function.comp_def, EdgeCall.sample, and_self, if_true, hhalf,
    List.filterMap_eq_map']

theorem chromaCalls_sublist (dir : EdgeDir) {iCbCr : Nat} (hi : iCbCr < 2)
    (xFirst yFirst mbPosX mbPosY : Nat) :
    (chromaCalls dir iCbCr xFirst yFirst mbPosX mbPosY).Sublist
      (mbCalls xFirst yFirst mbPosX mbPosY) := by
  have hpair : (chromaCalls dir iCbCr xFirst yFirst mbPosX mbPosY).Sublist
      (chromaCalls .vertical iCbCr xFirst yFirst mbPosX mbPosY ++
        chromaCalls .horizontal iCbCr xFirst yFirst mbPosX mbPosY) := by
    cases dir with
    | vertical => exact List.sublist_append_left _ _
    | horizontal => exact List.sublist_append_right _ _
  refine hpair.trans (.trans ?_ ((List.sublist_append_right _ _).trans
    (List.sublist_append_right _ _)))
  exact List.sublist_flatten_of_mem (List.mem_map.mpr ⟨iCbCr, List.mem_range.mpr hi, rfl⟩)

/-! ## 3. Not once -/

theorem nodup_chromaEdges (dir : EdgeDir) (mbX mbY : Nat) : (chromaEdges dir mbX mbY).Nodup := by
  have hbase : (chromaEdges dir 0 0).Nodup := by
    cases dir <;> decide
  have hshift : chromaEdges dir mbX mbY =
      (chromaEdges dir 0 0).map fun a => (mbX * 8 + a.1, mbY * 8 + a.2) := by
    cases dir <;> simp [chromaEdges, EdgeDir.at, List.map_flatMap, Function.comp_def]
  rw [hshift]
  refine hbase.map fun a b hab => ?_
  simp only [Prod.mk.injEq] at hab
  exact Prod.ext (by omega) (by omega)

/-- The first two calls of a direction visit the same sample. -/
theorem two_le_count_visits {d : DbfDevice} {slice c iCbCr : Nat} {dir : EdgeDir}
    (hc : c ∈ d.mbs slice) (hi : iCbCr < 2)
    (hskip : skips dir (d.offset slice % d.width * 16) (d.offset slice / d.width * 16)
      (c % d.width * 16) (c / d.width * 16) = false) :
    2 ≤ (visits dir iCbCr (c % d.width) (c / d.width) (d.calls slice)).count
      (c % d.width * 8, c / d.width * 8) := by
  have hcalls := (chromaCalls_sublist dir hi _ _ _ _).trans (mbCallsAt_sublist hc)
  have hsamples := hcalls.filterMap (EdgeCall.sample dir iCbCr)
  rw [chroma_samples hskip] at hsamples
  generalize ha : (c % d.width * 8, c / d.width * 8) = a at *
  have hpair : [a, a].Sublist ((d.calls slice).filterMap (EdgeCall.sample dir iCbCr)) := by
    refine List.Sublist.trans ?_ hsamples
    rw [← ha]
    cases dir <;> exact ((List.nil_sublist _).cons_cons _).cons_cons _
  have hin : a.1 / 8 = c % d.width ∧ a.2 / 8 = c / d.width := by
    rw [← ha]
    exact ⟨Nat.mul_div_cancel _ (by decide), Nat.mul_div_cancel _ (by decide)⟩
  calc 2 = [a, a].count a := by simp
    _ = ([a, a].filter fun b => b.1 / 8 = c % d.width ∧ b.2 / 8 = c / d.width).count a := by
        rw [List.filter_eq_self.mpr (by simp [hin])]
    _ ≤ (visits dir iCbCr (c % d.width) (c / d.width) (d.calls slice)).count a :=
        (hpair.filter _).count_le a

theorem not_edgesOnce {d : DbfDevice} {slice c iCbCr : Nat} {dir : EdgeDir}
    (htwo : 2 ≤ (visits dir iCbCr (c % d.width) (c / d.width) (d.calls slice)).count
      (c % d.width * 8, c / d.width * 8)) : ¬ EdgesOnce d slice dir iCbCr c := by
  intro honce
  have hone := List.nodup_iff_count_le_one.mp (nodup_chromaEdges dir (c % d.width) (c / d.width))
    (c % d.width * 8, c / d.width * 8)
  rw [honce.count_eq] at htwo
  omega

/-- **No chroma edge is filtered as it should be**: for every slice, every macroblock in it whose
    left (or top) edge is not skipped, and either component, the samples of the two vertical (or
    horizontal) edges are not those that are filtered, each one once. -/
theorem chroma_never_once {d : DbfDevice} {slice c iCbCr : Nat} {dir : EdgeDir}
    (hc : c ∈ d.mbs slice) (hi : iCbCr < 2)
    (hskip : skips dir (d.offset slice % d.width * 16) (d.offset slice / d.width * 16)
      (c % d.width * 16) (c / d.width * 16) = false) :
    ¬ EdgesOnce d slice dir iCbCr c :=
  not_edgesOnce (two_le_count_visits hc hi hskip)

/-- The vertical edges of Cb in the second macroblock of the second row. -/
theorem chroma_never_once_fourRows : ¬ EdgesOnce fourRows 0 .vertical 0 9 :=
  chroma_never_once mem_fourRows (by decide) (by decide)

/-- Its horizontal edges of Cr. -/
theorem chroma_once_fails : 9 ∈ fourRows.mbs 0 ∧
    skips .horizontal (fourRows.offset 0 % fourRows.width * 16) (fourRows.offset 0 / fourRows.width * 16)
      (9 % fourRows.width * 16) (9 / fourRows.width * 16) = false ∧
    ¬ EdgesOnce fourRows 0 .horizontal 1 9 :=
  ⟨mem_fourRows, by decide, not_edgesOnce (two_le_count_visits mem_fourRows (by decide) (by decide))⟩

end Rabbits
