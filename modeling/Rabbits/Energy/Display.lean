/-
  File:      Rabbits/Energy/Display.lean
  Subject:   The power curves on the pipe of the viewer (etrace_if.cpp: display_init, scope_trigger,
             roll_average).

  `display_init` walks over the list of the peripherals group by group, numbers them, and writes one
  graph for each group and one for the total; each sample is one byte for each of them and two more.

  * `displayInit`, `scopeSamples` -- the header and the samples as they are written;
  * `etraceDisplay` -- the viewer that is announced, in terms of the groups;
  * `displayInit_header` -- **the header announces it**;
  * `scopeSample_written` -- **a sample is the values of the peripherals in the order of the groups**;
  * `etrace_views` -- what the viewer shows of it.

  The energies of a sample are arbitrary; Rabbits/Energy/Etrace.lean is about them.
-/
import Mathlib.Algebra.Order.BigOperators.Group.List
import Rabbits.Energy.Chronograph
import Rabbits.Energy.Groups

namespace Rabbits

open Lib

/-! ## 1. The header -/

/-- `tp->idx = j++`. -/
def setIdx (j : Nat) : List PeriphNode → List PeriphNode
  | [] => []
  | tp :: next => { tp with idx := j } :: setIdx (j + 1) next

/-- The first loop of `display_init`: the bytes, the list with its numbers, and `max_energy_ms`. -/
def displayGroups (i : Nat) (maxEnergyMs : BitVec 32) :
    List PeriphNode → List Byte × List PeriphNode × BitVec 32
  | [] => ([], [], maxEnergyMs)
  | pperiph :: next =>
      let group := pperiph :: next.takeWhile (·.groupId = pperiph.groupId)
      let longVal := pperiph.maxEnergyMs.signExtend 64
      let sum := maxEnergyMs.signExtend 64 + BitVec.ofNat 64 group.length * longVal
      let rest := displayGroups (i + group.length) (sum.setWidth 32)
        (next.dropWhile (·.groupId = pperiph.groupId))
      (leBytes 4 (BitVec.ofNat 32 group.length) ++ (leBytes 8 0#64 ++ leBytes 8 longVal) ++ rest.1,
        setIdx i group ++ rest.2.1, rest.2.2)
termination_by ps => ps.length
decreasing_by
  exact Nat.lt_succ_of_le (List.dropWhile_sublist _).length_le

/-- The loop over the names. -/
def displayNames : List PeriphNode → List Byte
  | [] => []
  | pperiph :: next =>
      textField pperiph.groupName ++
        displayNames (next.dropWhile (·.groupId = pperiph.groupId))
termination_by ps => ps.length
decreasing_by
  exact Nat.lt_succ_of_le (List.dropWhile_sublist _).length_le

/-- `display_init`: what it writes, and the scope behind it. Without peripherals it is not called. -/
def displayInit (scope : ScopePeriphs) : List Byte × ScopePeriphs :=
  let groups := displayGroups 0 scope.maxEnergyMs scope.headPeriphs
  (textField (.ofString "Power consumption") ++ (leBytes 4 (BitVec.ofNat 32 (scope.nbGroups + 1)) ++
      (leBytes 4 20#32 ++
        (groups.1 ++ (leBytes 4 2#32 ++ (leBytes 8 0#64 ++ leBytes 8 (groups.2.2.signExtend 64))) ++
          (displayNames groups.2.1 ++ textField (.ofString "Total "))))),
    { scope with headPeriphs := groups.2.1, maxEnergyMs := groups.2.2 })

/-! ## 2. The samples -/

def MAX_HISTORY : Nat := 10

/-- `m_full_average`, `m_curr_idx` and `m_history`. -/
structure RollAverage where
  fullAverage : Bool
  currIdx : Nat
  history : List (BitVec 64)

/-- `roll_average`. -/
def RollAverage.rollAverage (r : RollAverage) (newSamp : BitVec 64) : BitVec 64 × RollAverage :=
  let history := r.history.set r.currIdx newSamp
  let res :=
    if r.fullAverage then (history.take MAX_HISTORY).sum / BitVec.ofNat 64 MAX_HISTORY
    else (history.take (r.currIdx + 1)).sum / BitVec.ofNat 64 (r.currIdx + 1)
  let currIdx := (r.currIdx + 1) % MAX_HISTORY
  (res, ⟨r.fullAverage || currIdx = MAX_HISTORY - 1, currIdx, history⟩)

/-- `samp_per`, in nanoseconds. -/
def SAMPLE_PERIOD : BitVec 64 := 20000000#64

/-- An energy in percent of the largest one. -/
def scopeVal (energy : BitVec 64) (maxEnergyMs : BitVec 32) : Byte :=
  (energy * 100#64 / (SAMPLE_PERIOD * maxEnergyMs.signExtend 64)).setWidth 8

/-- The same, with the division by 0 that ends the program. -/
def percent (energy : BitVec 64) (maxEnergyMs : BitVec 32) : Option Byte :=
  if SAMPLE_PERIOD * maxEnergyMs.signExtend 64 = 0#64 then none
  else some (scopeVal energy maxEnergyMs)

/-- The loop of `scope_trigger` over the peripherals; `vals` is the memory behind the pointer. -/
def sampleLoop (energy : Nat → BitVec 64) :
    List PeriphNode → BitVec 64 → (Nat → Byte) → Option (BitVec 64 × (Nat → Byte))
  | [], sum, vals => some (sum, vals)
  | pperiph :: next, sum, vals => do
      let val ← percent (energy pperiph.idx) pperiph.maxEnergyMs
      sampleLoop energy next (sum + energy pperiph.idx) (Function.update vals pperiph.idx val)

/-- What `scope_trigger` keeps from one sample to the next. -/
structure TriggerState where
  vals : Nat → Byte
  average : RollAverage

/-- One round of `scope_trigger`: the bytes of a sample. -/
def scopeSample (scope : ScopePeriphs) (s : TriggerState) (energy : Nat → BitVec 64) :
    Option (List Byte × TriggerState) := do
  let (sum, vals) ← sampleLoop energy scope.headPeriphs 0#64 s.vals
  let (avg, average) := s.average.rollAverage sum
  let total ← percent sum scope.maxEnergyMs
  let rolled ← percent avg scope.maxEnergyMs
  let vals := Function.update (Function.update vals scope.nbPeriphs total) (scope.nbPeriphs + 1) rolled
  return ((List.range (scope.nbPeriphs + 2)).map vals, ⟨vals, average⟩)

/-- `scope_trigger` behind `display_init`, for as long as it runs. -/
def scopeSamples (scope : ScopePeriphs) :
    TriggerState → List (Nat → BitVec 64) → Option (List (List Byte))
  | _, [] => some []
  | s, energy :: energies => do
      let (v, s) ← scopeSample scope s energy
      let vs ← scopeSamples scope s energies
      return v :: vs

/-! ## 3. The groups in the list -/

/-- The groups as they stand in the list, numbered from `k` on. -/
def indexed (i k : Nat) : List PeriphGroup → List (List PeriphNode)
  | [] => []
  | g :: groups => setIdx k (g.nodes i) :: indexed (i + 1) (k + g.size) groups

/-- `max_energy_ms` behind a group. -/
def addEnergy (maxEnergyMs : BitVec 32) (g : PeriphGroup) : BitVec 32 :=
  (maxEnergyMs.signExtend 64 + BitVec.ofNat 64 g.size * g.first.maxEnergyMs.signExtend 64).setWidth 32

/-- The graph of a group. -/
def PeriphGroup.graph (g : PeriphGroup) : Graph :=
  ⟨BitVec.ofNat 32 g.size, 0#64, g.first.maxEnergyMs.signExtend 64⟩

/-- The viewer that is announced. -/
def etraceDisplay (groups : List PeriphGroup) : Chronograph where
  stitle := .ofString "Power consumption"
  bAvg := false
  msBetweenValues := 20#32
  graphs := groups.map PeriphGroup.graph ++ [⟨2#32, 0#64, (groups.foldl addEnergy 0#32).signExtend 64⟩]
  slabels := groups.map (·.first.groupName) ++ [.ofString "Total "]

variable {g : PeriphGroup} {groups : List PeriphGroup} {i k : Nat}

theorem length_setIdx (k : Nat) (ps : List PeriphNode) : (setIdx k ps).length = ps.length := by
  induction ps generalizing k with
  | nil => rfl
  | cons p ps ih => rw [setIdx, List.length_cons, ih, List.length_cons]

theorem idx_setIdx (k : Nat) (ps : List PeriphNode) :
    (setIdx k ps).map PeriphNode.idx = List.range' k ps.length := by
  induction ps generalizing k with
  | nil => rfl
  | cons p ps ih => rw [setIdx, List.map_cons, ih, List.length_cons, List.range'_succ]

/-- The peripherals of one group stand together in front of those of the next. -/
theorem span_group (p : PeriphNode) (xs ys : List PeriphNode) (hx : ∀ q ∈ xs, q.groupId = p.groupId)
    (hy : ∀ q ∈ ys.head?, q.groupId ≠ p.groupId) :
    (xs ++ ys).takeWhile (·.groupId = p.groupId) = xs ∧
      (xs ++ ys).dropWhile (·.groupId = p.groupId) = ys := by
  have hall : ∀ q ∈ xs, decide (q.groupId = p.groupId) = true := fun q hq => decide_eq_true (hx q hq)
  rw [List.takeWhile_append_of_pos hall, List.dropWhile_append_of_pos hall]
  cases ys with
  | nil => exact ⟨List.append_nil xs, rfl⟩
  | cons q ys =>
      have hq : q.groupId ≠ p.groupId := hy q rfl
      simp [hq]

theorem head_nodesFrom (i : Nat) (groups : List PeriphGroup) :
    ∀ q ∈ (nodesFrom i groups).head?, q.groupId = i := by
  intro q hq
  cases groups with
  | nil => cases hq
  | cons g groups =>
      cases hq
      rfl

theorem head_indexed (i k : Nat) (groups : List PeriphGroup) :
    ∀ q ∈ (indexed i k groups).flatten.head?, q.groupId = i := by
  intro q hq
  cases groups with
  | nil => cases hq
  | cons g groups =>
      cases hq
      rfl

theorem groupId_setIdx {i k : Nat} {ps : List PeriphNode} (h : ∀ q ∈ ps, q.groupId = i) :
    ∀ q ∈ setIdx k ps, q.groupId = i := by
  induction ps generalizing k with
  | nil => exact fun q hq => (by cases hq)
  | cons p ps ih =>
      intro q hq
      rcases List.mem_cons.mp hq with rfl | hq
      · exact h p List.mem_cons_self
      · exact ih (fun q' hq' => h q' (List.mem_cons_of_mem p hq')) q hq

/-- **The first loop goes from group to group.** -/
theorem displayGroups_nodesFrom (m : BitVec 32) : displayGroups k m (nodesFrom i groups) =
    (groups.flatMap fun g => g.graph.bytes, (indexed i k groups).flatten,
      groups.foldl addEnergy m) := by
  induction groups generalizing i k m with
  | nil => rw [nodesFrom, displayGroups]; rfl
  | cons g groups ih =>
      obtain ⟨htake, hdrop⟩ := span_group (g.first.node i) (g.others.map (·.node i))
        (nodesFrom (i + 1) groups)
        (fun q hq => by
          obtain ⟨call, -, rfl⟩ := List.mem_map.mp hq
          rfl)
        (fun q hq => by
          rw [head_nodesFrom (i + 1) groups q hq]
          show ((i + 1 : Nat) : Int) ≠ (i : Int)
          omega)
      have hgroup : g.first.node i :: g.others.map (·.node i) = g.nodes i := rfl
      have hsize : (g.nodes i).length = g.size := List.length_map _
      show displayGroups k m
        (g.first.node i :: (g.others.map (·.node i) ++ nodesFrom (i + 1) groups)) = _
      rw [displayGroups, htake, hdrop, hgroup, hsize, ih]
      rfl

/-- **The loop over the names finds the first peripheral of each group.** -/
theorem displayNames_indexed : displayNames (indexed i k groups).flatten =
    groups.flatMap fun g => textField g.first.groupName := by
  induction groups generalizing i k with
  | nil => rw [indexed, List.flatten_nil, displayNames]; rfl
  | cons g groups ih =>
      obtain ⟨-, hdrop⟩ := span_group { g.first.node i with idx := k }
        (setIdx (k + 1) (g.others.map (·.node i))) (indexed (i + 1) (k + g.size) groups).flatten
        (groupId_setIdx fun q hq => by
          obtain ⟨call, -, rfl⟩ := List.mem_map.mp hq
          rfl)
        (fun q hq => by
          rw [head_indexed (i + 1) _ groups q hq]
          show ((i + 1 : Nat) : Int) ≠ (i : Int)
          omega)
      show displayNames ({ g.first.node i with idx := k } ::
        (setIdx (k + 1) (g.others.map (·.node i)) ++ (indexed (i + 1) (k + g.size) groups).flatten)) = _
      rw [displayNames, hdrop, ih]
      rfl

/-- **The header announces the groups**, and the list is numbered. -/
theorem displayInit_header {r : AddRun} (h : Grouped r groups) :
    (displayInit r.scope).1 = (etraceDisplay groups).header ∧
      (displayInit r.scope).2 =
        { r.scope with
          headPeriphs := (indexed 0 0 groups).flatten
          maxEnergyMs := groups.foldl addEnergy 0#32 } := by
  have hgroups : displayGroups 0 r.scope.maxEnergyMs r.scope.headPeriphs =
      (groups.flatMap fun g => g.graph.bytes, (indexed 0 0 groups).flatten,
        groups.foldl addEnergy 0#32) := by
    rw [h.headPeriphs, h.maxEnergyMs, displayGroups_nodesFrom]
  unfold displayInit
  rw [hgroups]
  refine ⟨?_, rfl⟩
  dsimp only
  rw [h.nbGroups, displayNames_indexed]
  simp [Chronograph.header, etraceDisplay, Chronograph.graphsWord, Graph.bytes, List.flatMap_map]

/-! ## 4. The samples in the order of the groups -/

/-- The value of a peripheral in a sample. -/
def PeriphNode.value (energy : Nat → BitVec 64) (p : PeriphNode) : Byte :=
  scopeVal (energy p.idx) p.maxEnergyMs

/-- The values of a sample: the peripherals of each group, and the total with its average. -/
def sampleValues (groups : List PeriphGroup) (scope : ScopePeriphs) (energy : Nat → BitVec 64)
    (avg : Byte) : List (List Byte) :=
  (indexed 0 0 groups).map (List.map (·.value energy)) ++
    [[scopeVal (scope.headPeriphs.map fun p => energy p.idx).sum scope.maxEnergyMs, avg]]

theorem map_length_indexed (i k : Nat) (groups : List PeriphGroup) :
    (indexed i k groups).map List.length = groups.map PeriphGroup.size := by
  induction groups generalizing i k with
  | nil => rfl
  | cons g groups ih =>
      have hsize : (g.nodes i).length = g.size := List.length_map _
      rw [indexed, List.map_cons, length_setIdx, hsize, ih, List.map_cons]

theorem length_indexed_flatten (i k : Nat) (groups : List PeriphGroup) :
    (indexed i k groups).flatten.length = (groups.map PeriphGroup.size).sum := by
  rw [List.length_flatten, map_length_indexed]

/-- The numbers run through the list: those of one group stand together. -/
theorem idx_indexed (i k : Nat) (groups : List PeriphGroup) :
    (indexed i k groups).flatten.map PeriphNode.idx =
      List.range' k (groups.map PeriphGroup.size).sum := by
  induction groups generalizing i k with
  | nil => rfl
  | cons g groups ih =>
      have hsize : (g.nodes i).length = g.size := List.length_map _
      rw [indexed, List.flatten_cons, List.map_append, idx_setIdx, hsize, ih, List.map_cons,
        List.sum_cons, List.range'_append_1]

theorem percent_eq_some {energy : BitVec 64} {m : BitVec 32} {v : Byte}
    (h : percent energy m = some v) : v = scopeVal energy m := by
  unfold percent at h
  split at h
  · cases h
  · exact (Option.some.inj h).symm

/-- **The loop writes the value of each peripheral at its number**, and no number before. -/
theorem sampleLoop_spec {energy : Nat → BitVec 64} {ps : List PeriphNode} {sum sum' : BitVec 64}
    {vals vals' : Nat → Byte} (hidx : ps.map PeriphNode.idx = List.range' k ps.length)
    (h : sampleLoop energy ps sum vals = some (sum', vals')) :
    sum' = sum + (ps.map fun p => energy p.idx).sum ∧
      (List.range' k ps.length).map vals' = ps.map (·.value energy) ∧ ∀ j < k, vals' j = vals j := by
  induction ps generalizing k sum vals with
  | nil =>
      cases h
      exact ⟨(BitVec.add_zero _).symm, rfl, fun _ _ => rfl⟩
  | cons p ps ih =>
      rw [List.map_cons, List.length_cons, List.range'_succ] at hidx
      obtain ⟨hp, hps⟩ := List.cons_eq_cons.mp hidx
      obtain ⟨val, hval, hloop⟩ := Option.bind_eq_some_iff.mp h
      obtain ⟨hsum, hvals, hkeep⟩ := ih hps hloop
      refine ⟨?_, ?_, fun j hj => ?_⟩
      · rw [hsum, List.map_cons, List.sum_cons, BitVec.add_assoc]
      · have hhead : vals' k = p.value energy := by
          rw [hkeep k (Nat.lt_succ_self k), hp, Function.update_self, percent_eq_some hval]
          rfl
        rw [List.length_cons, List.range'_succ, List.map_cons, hhead, hvals, List.map_cons]
      · rw [hkeep j (Nat.lt_succ_of_lt hj), hp, Function.update_of_ne (Nat.ne_of_lt hj)]

/-- **A sample is the values in the order of the groups**, the total and its average. -/
theorem scopeSample_written {scope : ScopePeriphs} {s s' : TriggerState} {energy : Nat → BitVec 64}
    {v : List Byte} (hps : scope.headPeriphs = (indexed 0 0 groups).flatten)
    (hn : scope.nbPeriphs = (groups.map PeriphGroup.size).sum)
    (h : scopeSample scope s energy = some (v, s')) :
    ∃ avg, v = (sampleValues groups scope energy avg).flatten := by
  obtain ⟨⟨sum, vals⟩, hloop, h⟩ := Option.bind_eq_some_iff.mp h
  obtain ⟨total, htotal, h⟩ := Option.bind_eq_some_iff.mp h
  obtain ⟨rolled, -, h⟩ := Option.bind_eq_some_iff.mp h
  have hlen : scope.headPeriphs.length = scope.nbPeriphs := by
    rw [hps, hn, length_indexed_flatten]
  have hidx : scope.headPeriphs.map PeriphNode.idx = List.range' 0 scope.headPeriphs.length := by
    rw [hlen, hps, hn, idx_indexed]
  obtain ⟨hsum, hvals, -⟩ := sampleLoop_spec hidx hloop
  rw [BitVec.zero_add] at hsum
  cases h
  have hlow : (List.range scope.nbPeriphs).map (Function.update
      (Function.update vals scope.nbPeriphs total) (scope.nbPeriphs + 1) rolled) =
        scope.headPeriphs.map (·.value energy) := by
    rw [← hvals, hlen, ← List.range_eq_range']
    refine List.map_congr_left fun j hj => ?_
    have hlt := List.mem_range.mp hj
    rw [Function.update_of_ne (by omega), Function.update_of_ne (by omega)]
  refine ⟨rolled, ?_⟩
  rw [sampleValues, List.range_succ, List.range_succ, List.map_append, List.map_append, hlow,
    List.flatten_append, ← List.map_flatten, ← hps, ← hsum, ← percent_eq_some htotal]
  simp

theorem map_length_sampleValues (groups : List PeriphGroup) (scope : ScopePeriphs)
    (energy : Nat → BitVec 64) (avg : Byte) :
    (sampleValues groups scope energy avg).map List.length = groups.map PeriphGroup.size ++ [2] := by
  rw [sampleValues, List.map_append, List.map_map, ← map_length_indexed 0 0 groups]
  congr 1
  exact List.map_congr_left fun _ _ => List.length_map _

theorem scopeSamples_written {scope : ScopePeriphs} {s : TriggerState}
    {energies : List (Nat → BitVec 64)} {written : List (List Byte)}
    (hps : scope.headPeriphs = (indexed 0 0 groups).flatten)
    (hn : scope.nbPeriphs = (groups.map PeriphGroup.size).sum)
    (h : scopeSamples scope s energies = some written) :
    List.Forall₂ (fun energy v => ∃ avg, v = (sampleValues groups scope energy avg).flatten)
      energies written := by
  induction energies generalizing s written with
  | nil =>
      cases h
      exact .nil
  | cons energy energies ih =>
      obtain ⟨⟨v, s'⟩, hv, h⟩ := Option.bind_eq_some_iff.mp h
      obtain ⟨vs, hvs, h⟩ := Option.bind_eq_some_iff.mp h
      cases h
      exact .cons (scopeSample_written hps hn hv) (ih hvs)

/-! ## 5. What the viewer shows -/

/-- The graphs in the window. -/
def etraceShown (groups : List PeriphGroup) (scope : ScopePeriphs) : List Chronograph.Shown :=
  (groups.map fun g => ⟨g.first.groupName, 0, g.first.maxEnergyMs.toInt, g.size⟩) ++
    [⟨.ofString "Total ", 0, scope.maxEnergyMs.toInt, 2⟩]

/-- The bounds on the calls: at most 20 peripherals, and names that fit the buffers of the viewer. -/
structure BoundedCalls (calls : List AddCall) : Prop where
  valid : ValidCalls calls
  length_le : calls.length ≤ MAX_PERIPHERALS
  name : ∀ call ∈ calls, call.groupName.strlen < 100

section Bounded

variable {calls : List AddCall} (h : BoundedCalls calls)
include h

theorem BoundedCalls.sum_size_le : ((groupsOf calls).map PeriphGroup.size).sum ≤ 20 := by
  rw [sum_size_groupsOf h.valid]
  exact h.length_le

theorem BoundedCalls.size_le (hg : g ∈ groupsOf calls) : g.size ≤ 20 :=
  (List.le_sum_of_mem (List.mem_map_of_mem hg)).trans h.sum_size_le

theorem BoundedCalls.length_groups_le : (groupsOf calls).length ≤ 20 := by
  have hpos : ∀ groups : List PeriphGroup,
      groups.length ≤ (groups.map PeriphGroup.size).sum := by
    intro groups
    induction groups with
    | nil => exact Nat.zero_le _
    | cons g groups ih =>
        have hsize : 0 < g.size := Nat.succ_pos _
        rw [List.length_cons, List.map_cons, List.sum_cons]
        omega
  exact (hpos _).trans h.sum_size_le

theorem BoundedCalls.toNat_size (hg : g ∈ groupsOf calls) :
    (BitVec.ofNat 32 g.size).toNat = g.size := by
  have hle := h.size_le hg
  rw [BitVec.toNat_ofNat, Nat.mod_eq_of_lt (by omega)]

theorem BoundedCalls.curves : (etraceDisplay (groupsOf calls)).graphs.map (fun g => g.ngrfInGrf.toNat) =
    (groupsOf calls).map PeriphGroup.size ++ [2] := by
  rw [etraceDisplay, List.map_append, List.map_map]
  exact congrArg (· ++ [2]) (List.map_congr_left fun g hg => h.toNat_size hg)

theorem BoundedCalls.announced : (etraceDisplay (groupsOf calls)).Announced := by
  have hlen := h.length_groups_le
  refine ⟨(CString.strlen_ofString_le _).trans_lt (by decide), by simp [etraceDisplay], ?_, ?_, ?_⟩
  · simp only [etraceDisplay, List.length_append, List.length_map, List.length_singleton]
    omega
  · simp [etraceDisplay]
  · intro s hs
    rcases List.mem_append.mp hs with hgroup | htotal
    · obtain ⟨g, hg, rfl⟩ := List.mem_map.mp hgroup
      exact h.name _ (first_mem_of_mem_groupsOf hg)
    · rw [List.mem_singleton.mp htotal]
      exact (CString.strlen_ofString_le _).trans_lt (by decide)

theorem BoundedCalls.nbytesNewValue_toNat :
    (etraceDisplay (groupsOf calls)).nbytesNewValue.toNat = calls.length + 2 := by
  have hsum := h.sum_size_le
  have hcurves : ((etraceDisplay (groupsOf calls)).graphs.map fun g => g.ngrfInGrf.toNat).sum =
      calls.length + 2 := by
    rw [h.curves, List.sum_append, sum_size_groupsOf h.valid]
    rfl
  rw [sum_size_groupsOf h.valid] at hsum
  rw [Chronograph.nbytesNewValue_toNat (by omega), hcurves]

theorem BoundedCalls.shown : (etraceDisplay (groupsOf calls)).shown =
    etraceShown (groupsOf calls) (displayInit (addPeriphs calls).scope).2 := by
  have hext : ∀ m : BitVec 32, (m.signExtend 64).toInt = m.toInt := fun _ =>
    BitVec.toInt_signExtend_of_le (by decide)
  rw [(displayInit_header (grouped_addPeriphs h.valid)).2, Chronograph.shown, etraceShown,
    etraceDisplay, List.map_append, List.map_map, if_neg Bool.false_ne_true, List.append_nil,
    List.zipWith_append (by simp), List.zipWith_map, List.zipWith_self]
  congr 1
  · refine List.map_congr_left fun g hg => ?_
    simp [PeriphGroup.graph, hext, h.toNat_size hg]
  · simp [hext]

/-- A record is drawn as the values of the sample. -/
theorem BoundedCalls.updateGraph (scope : ScopePeriphs) (energy : Nat → BitVec 64) (avg : Byte) :
    (etraceDisplay (groupsOf calls)).updateGraph
        (sampleValues (groupsOf calls) scope energy avg).flatten =
      (sampleValues (groupsOf calls) scope energy avg).map (List.map BitVec.toNat) := by
  rw [Chronograph.updateGraph, h.curves, ← map_length_sampleValues _ scope energy avg,
    Chronograph.curveValues_flatten]
  exact List.append_nil _

/-- **The viewer shows the groups**, and from each sample the values of their peripherals. -/
theorem BoundedCalls.views {s : TriggerState} {energies : List (Nat → BitVec 64)}
    {written : List (List Byte)}
    (hs : scopeSamples (displayInit (addPeriphs calls).scope).2 s energies = some written) :
    ∃ drawn, Views ((displayInit (addPeriphs calls).scope).1 ++ written.flatten)
        (.ofString "Power consumption")
        (etraceShown (groupsOf calls) (displayInit (addPeriphs calls).scope).2) (calls.length + 2)
        written drawn ∧
      List.Forall₂ (fun energy d => ∃ avg, d =
        (sampleValues (groupsOf calls) (displayInit (addPeriphs calls).scope).2 energy avg).map
          (List.map BitVec.toNat)) energies drawn := by
  have hgrouped := grouped_addPeriphs h.valid
  obtain ⟨hheader, hscope⟩ := displayInit_header hgrouped
  have hwritten := scopeSamples_written (by rw [hscope])
    (by rw [hscope]; exact hgrouped.nbPeriphs) hs
  have hbytes := h.nbytesNewValue_toNat
  have hlen : ∀ v ∈ written, v.length = calls.length + 2 := by
    refine ((List.forall₂_and_left (R := fun _ _ => True) written energies).mp ?_).1
    refine hwritten.flip.imp fun v energy hv => ⟨?_, trivial⟩
    obtain ⟨avg, rfl⟩ := hv
    rw [List.length_flatten, map_length_sampleValues, List.sum_append, sum_size_groupsOf h.valid]
    rfl
  have hpos : (etraceDisplay (groupsOf calls)).nbytesNewValue ≠ 0#8 := by
    intro h0
    rw [h0] at hbytes
    cases hbytes
  refine ⟨written.map (etraceDisplay (groupsOf calls)).updateGraph,
    ⟨etraceDisplay (groupsOf calls), ?_, rfl, h.shown, hbytes, hlen, rfl⟩, ?_⟩
  · rw [hheader]
    exact h.announced.chronograph_eq hpos fun v hv => (hlen v hv).trans hbytes.symm
  · refine List.forall₂_map_right_iff.mpr (hwritten.imp fun energy v hv => ?_)
    obtain ⟨avg, rfl⟩ := hv
    exact ⟨avg, h.updateGraph _ energy avg⟩

end Bounded

end Rabbits
