/-
  File:      Rabbits/Cpu/CpuLogs.lean
  Subject:   The frequency curves on the pipe of the viewer (cpu_logs.cpp: internal_init,
             update_fv_grf).

  * `cpuLogsInit`, `updateFvGrf` -- the header and a sample, one byte for each CPU;
  * `cpuLogs_views` -- what the viewer shows of them, for 1 to 32 CPUs;
  * `streams_decoded` -- **both producers are read as they have written**;
  * `no_cpus_not_shown` -- with no CPU the viewer does not come up.

  The value of a CPU in a sample is computed with doubles; here it is arbitrary.
-/
import Rabbits.Energy.Display

namespace Rabbits

open Lib

/-! ## 1. The model -/

/-- `sprintf (s, "CPU %4d (%%)", i)`, and the name of the average. -/
def cpuLabel (ncpu i : Nat) : CString :=
  if i = ncpu then .ofString "All CPUs (%)"
  else .ofString (String.ofList
    ("CPU ".toList ++ List.leftpad 4 ' ' (Nat.toDigits 10 i) ++ " (%)".toList))

/-- The header that `internal_init` writes. -/
def cpuLogsInit (ncpu : Nat) : List Byte :=
  textField (.ofString "Average frequency") ++ (leBytes 4 (BitVec.ofNat 32 ncpu ||| 0x80#32) ++
    (leBytes 4 20#32 ++
      ((List.range ncpu).flatMap (fun _ => leBytes 4 1#32 ++ (leBytes 8 0#64 ++ leBytes 8 100#64)) ++
        (List.range (ncpu + 1)).flatMap fun i => textField (cpuLabel ncpu i))))

/-- The loop of `update_fv_grf`, from the last CPU to the first; `value` is 0 or `s1 / s2`. -/
def fillVal (value : Nat → Byte) : Nat → (Nat → Byte) → Nat → Byte
  | 0, val => val
  | cpu + 1, val => fillVal value cpu (Function.update val cpu (value cpu))

/-- The bytes of a sample; `val` is the array on the stack, for 32 CPUs. -/
def updateFvGrf (ncpu : Nat) (val value : Nat → Byte) : List Byte :=
  (List.range ncpu).map (fillVal value ncpu val)

/-- The viewer that is announced. -/
def cpuDisplay (ncpu : Nat) : Chronograph where
  stitle := .ofString "Average frequency"
  bAvg := true
  msBetweenValues := 20#32
  graphs := (List.range ncpu).map fun _ => ⟨1#32, 0#64, 100#64⟩
  slabels := (List.range (ncpu + 1)).map (cpuLabel ncpu)

/-- The graphs in the window. -/
def cpuShown (ncpu : Nat) : List Chronograph.Shown :=
  (List.range (ncpu + 1)).map fun i => ⟨cpuLabel ncpu i, 0, 100, 1⟩

/-- What is drawn from a sample: each CPU, and their average. -/
def cpuDrawn (ncpu : Nat) (value : Nat → Byte) : List (List Nat) :=
  (List.range ncpu).map (fun cpu => [(value cpu).toNat]) ++
    [[((List.range ncpu).map fun cpu => (value cpu).toNat).sum / ncpu]]

/-! ## 2. The header and the samples -/

/-- **The header announces it.** -/
theorem cpuLogsInit_header (ncpu : Nat) : cpuLogsInit ncpu = (cpuDisplay ncpu).header := by
  have hlen : (cpuDisplay ncpu).graphs.length = ncpu := by simp [cpuDisplay]
  rw [Chronograph.header, hlen, cpuDisplay, List.flatMap_map, List.flatMap_map]
  rfl

theorem fillVal_of_ge {value val : Nat → Byte} {n cpu : Nat} (h : n ≤ cpu) :
    fillVal value n val cpu = val cpu := by
  induction n generalizing val with
  | zero => rfl
  | succ n ih => rw [fillVal, ih (Nat.le_of_succ_le h), Function.update_of_ne (by omega)]

/-- Each CPU has its value in the array. -/
theorem fillVal_of_lt {value val : Nat → Byte} {n cpu : Nat} (h : cpu < n) :
    fillVal value n val cpu = value cpu := by
  induction n generalizing val with
  | zero => cases h
  | succ n ih =>
      rw [fillVal]
      rcases Nat.lt_succ_iff_lt_or_eq.mp h with hlt | rfl
      · exact ih hlt
      · rw [fillVal_of_ge le_rfl, Function.update_self]

theorem updateFvGrf_eq (ncpu : Nat) (val value : Nat → Byte) :
    updateFvGrf ncpu val value = ((List.range ncpu).map fun cpu => [value cpu]).flatten := by
  have hvals : updateFvGrf ncpu val value = (List.range ncpu).map value :=
    List.map_congr_left fun cpu hcpu => fillVal_of_lt (List.mem_range.mp hcpu)
  rw [hvals, ← List.flatMap_def, ← List.map_eq_flatMap]

theorem strlen_cpuLabel {ncpu i : Nat} (hi : i ≤ ncpu) (hn : ncpu ≤ 32) :
    (cpuLabel ncpu i).strlen < 100 := by
  unfold cpuLabel
  split
  · exact (CString.strlen_ofString_le _).trans_lt (by decide)
  · have hdigits : ∀ i ≤ 32, (Nat.toDigits 10 i).length ≤ 4 := by decide
    have hi32 := hdigits i (hi.trans hn)
    refine (CString.strlen_ofString_le _).trans_lt ?_
    rw [String.toList_ofList, List.length_append, List.length_append, List.length_leftpad]
    have hpre : "CPU ".toList.length = 4 := by decide
    have hpost : " (%)".toList.length = 4 := by decide
    omega

theorem cpuDisplay_announced {ncpu : Nat} (hpos : 0 < ncpu) (hn : ncpu ≤ 32) :
    (cpuDisplay ncpu).Announced := by
  refine ⟨(CString.strlen_ofString_le _).trans_lt (by decide), ?_, ?_, ?_, fun s hs => ?_⟩
  · rw [cpuDisplay, Ne, List.map_eq_nil_iff, List.range_eq_nil]
    omega
  · rw [cpuDisplay, List.length_map, List.length_range]
    omega
  · simp [cpuDisplay]
  · obtain ⟨i, hi, rfl⟩ := List.mem_map.mp hs
    exact strlen_cpuLabel (Nat.le_of_lt_succ (List.mem_range.mp hi)) hn

theorem cpuDisplay_curves (ncpu : Nat) :
    (cpuDisplay ncpu).graphs.map (fun g => g.ngrfInGrf.toNat) = List.replicate ncpu 1 := by
  simp [cpuDisplay]

theorem cpuDisplay_nbytesNewValue {ncpu : Nat} (hn : ncpu ≤ 32) :
    (cpuDisplay ncpu).nbytesNewValue.toNat = ncpu := by
  have hsum : ((cpuDisplay ncpu).graphs.map fun g => g.ngrfInGrf.toNat).sum = ncpu := by
    rw [cpuDisplay_curves, List.sum_replicate, smul_eq_mul, Nat.mul_one]
  rw [Chronograph.nbytesNewValue_toNat (by omega), hsum]

/-- The range of the average is that of each CPU. -/
theorem cpuDisplay_avgOf {ncpu : Nat} (hpos : 0 < ncpu) :
    (cpuDisplay ncpu).avgOf Graph.valMinGrf = 0 ∧ (cpuDisplay ncpu).avgOf Graph.valMaxGrf = 100 := by
  have hne : (ncpu : Int) ≠ 0 := by omega
  have hmin : (0#64).toInt = 0 := by decide
  have hmax : (100#64).toInt = 100 := by decide
  simp [Chronograph.avgOf, cpuDisplay, hmin, hmax, Int.mul_tdiv_cancel_left _ hne]

theorem cpuDisplay_shown {ncpu : Nat} (hpos : 0 < ncpu) : (cpuDisplay ncpu).shown = cpuShown ncpu := by
  obtain ⟨hmin, hmax⟩ := cpuDisplay_avgOf hpos
  have hgraphs : (cpuDisplay ncpu).graphs.map
      (fun g => (g.valMinGrf.toInt, g.valMaxGrf.toInt, g.ngrfInGrf.toNat)) =
        (List.range ncpu).map fun _ => ((0 : Int), (100 : Int), 1) := by
    rw [cpuDisplay, List.map_map]
    rfl
  have hall : (List.range ncpu).map (fun _ => ((0 : Int), (100 : Int), 1)) ++ [(0, 100, 1)] =
      (List.range (ncpu + 1)).map fun _ => (0, 100, 1) := by
    rw [List.range_succ, List.map_append]
    rfl
  rw [Chronograph.shown, hgraphs, hmin, hmax]
  show List.zipWith _ ((List.range (ncpu + 1)).map (cpuLabel ncpu)) (_ ++ [(0, 100, 1)]) = _
  rw [hall, List.zipWith_map, List.zipWith_self]
  rfl

/-- A sample is drawn as the values of the CPUs and their average. -/
theorem cpuDisplay_updateGraph {ncpu : Nat} (hn : ncpu ≤ 32) (val value : Nat → Byte) :
    (cpuDisplay ncpu).updateGraph (updateFvGrf ncpu val value) = cpuDrawn ncpu value := by
  have hcounts : List.replicate ncpu 1 =
      ((List.range ncpu).map fun cpu => [value cpu]).map List.length := by
    refine (List.eq_replicate_iff.mpr ⟨by simp, fun m hm => ?_⟩).symm
    obtain ⟨v, hv, rfl⟩ := List.mem_map.mp hm
    obtain ⟨cpu, -, rfl⟩ := List.mem_map.mp hv
    rfl
  have hvalues : Chronograph.curveValues (List.replicate ncpu 1) (updateFvGrf ncpu val value) =
      (List.range ncpu).map fun cpu => [(value cpu).toNat] := by
    rw [updateFvGrf_eq, hcounts, Chronograph.curveValues_flatten, List.map_map]
    rfl
  rw [Chronograph.updateGraph, cpuDisplay_curves, cpuDisplay_nbytesNewValue hn, hvalues, cpuDrawn,
    ← List.flatMap_def, ← List.map_eq_flatMap]
  rfl

/-- **The viewer shows each CPU and their average**, and draws the values of each sample. -/
theorem cpuLogs_views {ncpu : Nat} (hpos : 0 < ncpu) (hn : ncpu ≤ 32)
    (samples : List ((Nat → Byte) × (Nat → Byte))) :
    Views (cpuLogsInit ncpu ++ (samples.map fun s => updateFvGrf ncpu s.1 s.2).flatten)
      (.ofString "Average frequency") (cpuShown ncpu) ncpu
      (samples.map fun s => updateFvGrf ncpu s.1 s.2) (samples.map fun s => cpuDrawn ncpu s.2) := by
  have hbytes := cpuDisplay_nbytesNewValue hn
  have hlen : ∀ v ∈ samples.map fun s => updateFvGrf ncpu s.1 s.2, v.length = ncpu := by
    intro v hv
    obtain ⟨s, -, rfl⟩ := List.mem_map.mp hv
    rw [updateFvGrf, List.length_map, List.length_range]
  have hne : (cpuDisplay ncpu).nbytesNewValue ≠ 0#8 := by
    intro h0
    rw [h0] at hbytes
    exact hpos.ne hbytes
  refine ⟨cpuDisplay ncpu, ?_, rfl, cpuDisplay_shown hpos, hbytes, hlen, ?_⟩
  · rw [cpuLogsInit_header]
    exact (cpuDisplay_announced hpos hn).chronograph_eq hne fun v hv =>
      (hlen v hv).trans hbytes.symm
  · rw [List.map_map]
    exact List.map_congr_left fun s _ => cpuDisplay_updateGraph hn s.1 s.2

/-! ## 3. Both producers -/

/-- **What is written is what is read.** For any calls of `add_periph` within the bounds, and for any
    number of CPUs from 1 to 32: the viewer shows the graphs of the groups, or of the CPUs, with
    their names and ranges; it takes the stream for the samples, one record each, of the length it
    has computed; and it draws their values. The peripherals are numbered along the groups. -/
theorem streams_decoded :
    (∀ calls, BoundedCalls calls → ∀ (s : TriggerState) (energies : List (Nat → BitVec 64))
        (written : List (List Byte)),
      scopeSamples (displayInit (addPeriphs calls).scope).2 s energies = some written →
      (displayInit (addPeriphs calls).scope).2.headPeriphs =
          (indexed 0 0 (groupsOf calls)).flatten ∧
        (displayInit (addPeriphs calls).scope).2.headPeriphs.map PeriphNode.idx =
          List.range calls.length ∧
        ∃ drawn, Views ((displayInit (addPeriphs calls).scope).1 ++ written.flatten)
            (.ofString "Power consumption")
            (etraceShown (groupsOf calls) (displayInit (addPeriphs calls).scope).2)
            (calls.length + 2) written drawn ∧
          List.Forall₂ (fun energy d => ∃ avg, d =
            (sampleValues (groupsOf calls) (displayInit (addPeriphs calls).scope).2 energy avg).map
              (List.map BitVec.toNat)) energies drawn) ∧
    ∀ ncpu, 0 < ncpu → ncpu ≤ 32 → ∀ samples : List ((Nat → Byte) × (Nat → Byte)),
      Views (cpuLogsInit ncpu ++ (samples.map fun s => updateFvGrf ncpu s.1 s.2).flatten)
        (.ofString "Average frequency") (cpuShown ncpu) ncpu
        (samples.map fun s => updateFvGrf ncpu s.1 s.2)
        (samples.map fun s => cpuDrawn ncpu s.2) := by
  refine ⟨fun calls h s energies written hs => ⟨?_, ?_, h.views hs⟩, fun ncpu hpos hn samples =>
    cpuLogs_views hpos hn samples⟩
  · rw [(displayInit_header (grouped_addPeriphs h.valid)).2]
  · rw [(displayInit_header (grouped_addPeriphs h.valid)).2]
    show (indexed 0 0 (groupsOf calls)).flatten.map PeriphNode.idx = _
    rw [idx_indexed, sum_size_groupsOf h.valid, List.range_eq_range']

/-- Two CPUs and two memories, called in turn: the groups are those of the first two calls. -/
def scopeCalls : List AddCall :=
  [⟨.ofString "cpu0", 10#32, -1, .ofString "CPUs"⟩, ⟨.ofString "ram", 20#32, -1, .ofString "Memories"⟩,
    ⟨.ofString "cpu1", 10#32, 0, .ofString "CPUs"⟩, ⟨.ofString "sram", 20#32, 1, .ofString "Memories"⟩]

theorem boundedCalls_scopeCalls : BoundedCalls scopeCalls := by
  refine ⟨?_, by decide, ?_⟩
  · have h1 := validCalls_nil.snoc scopeCalls[0] (.inl (by decide))
    have h2 := h1.snoc scopeCalls[1] (.inl (by decide))
    have h3 := h2.snoc scopeCalls[2] (.inr (by decide))
    exact h3.snoc scopeCalls[3] (.inr (by decide))
  · have hname : ∀ s : String, s.toList.length < 100 → (CString.ofString s).strlen < 100 := fun s hs =>
      (CString.strlen_ofString_le s).trans_lt hs
    simp only [scopeCalls, List.forall_mem_cons]
    exact ⟨hname _ (by decide), hname _ (by decide), hname _ (by decide), hname _ (by decide), by simp⟩

/-- Two samples of what each peripheral has used. -/
def scopeEnergies : List (Nat → BitVec 64) :=
  [fun idx => BitVec.ofNat 64 (100000000 * (idx + 1)), fun idx => BitVec.ofNat 64 (300000000 * (4 - idx))]

/-- And two of the frequencies of two CPUs. -/
def cpuSamples : List ((Nat → Byte) × (Nat → Byte)) :=
  [(fun _ => 0#8, fun cpu => if cpu = 0 then 50#8 else 25#8),
    (fun _ => 0#8, fun cpu => if cpu = 0 then 0#8 else 100#8)]

theorem streams_decoded_groups :
    (∃ written drawn, written.length = 2 ∧
      Views ((displayInit (addPeriphs scopeCalls).scope).1 ++ written.flatten)
        (.ofString "Power consumption")
        (etraceShown (groupsOf scopeCalls) (displayInit (addPeriphs scopeCalls).scope).2) 6 written
        drawn) ∧
    Views (cpuLogsInit 2 ++ (cpuSamples.map fun s => updateFvGrf 2 s.1 s.2).flatten)
      (.ofString "Average frequency") (cpuShown 2) 2
      (cpuSamples.map fun s => updateFvGrf 2 s.1 s.2) (cpuSamples.map fun s => cpuDrawn 2 s.2) := by
  obtain ⟨hetrace, hcpu⟩ := streams_decoded
  obtain ⟨v, v', hv⟩ : ∃ v v', scopeSamples (displayInit (addPeriphs scopeCalls).scope).2
      ⟨fun _ => 0#8, ⟨false, 0, List.replicate MAX_HISTORY 0#64⟩⟩ scopeEnergies = some [v, v'] := by
    rw [(displayInit_header (grouped_addPeriphs boundedCalls_scopeCalls.valid)).2]
    exact ⟨_, _, rfl⟩
  obtain ⟨-, -, drawn, hviews, -⟩ := hetrace scopeCalls boundedCalls_scopeCalls _ _ _ hv
  exact ⟨⟨[v, v'], drawn, rfl, hviews⟩, hcpu 2 (by decide) (by decide) cpuSamples⟩

/-- **With no CPU** there is no graph, and the viewer divides by their number. -/
theorem no_cpus_not_shown : chronograph (cpuLogsInit 0) = none := by
  rw [cpuLogsInit_header]
  exact Chronograph.chronograph_no_graphs _ ((CString.strlen_ofString_le _).trans_lt (by decide)) rfl

end Rabbits
