/-
  File:      Rabbits/Energy/Groups.lean
  Subject:   The list of the peripherals and their groups (etrace_if.cpp: add_periph).

  `add_periph` inserts a peripheral behind the last one whose group id is not larger than its own;
  a negative id asks for a new group.

  * `addPeriph` -- the call, and `addPeriphs` -- any number of them;
  * `PeriphGroup`, `groupsOf` -- what the calls mean: groups in the order of their first peripherals,
    each with its peripherals in the order of their calls;
  * `grouped_addPeriphs` -- **the list is the groups one behind the other**, when each call names a
    group that an earlier one has returned.
-/
import Rabbits.Energy.Etrace
import Rabbits.Lib.Since
import Rabbits.Lib.Stream

namespace Rabbits

open Lib

/-! ## 1. The model -/

/-- What the display reads of a `periph_t`. -/
structure PeriphNode where
  name : CString
  maxEnergyMs : BitVec 32
  groupId : Int
  groupName : CString
  idx : Nat

/-- What it reads of `scope_state_t`. -/
structure ScopePeriphs where
  headPeriphs : List PeriphNode
  nbPeriphs : Nat
  nbGroups : Nat
  maxEnergyMs : BitVec 32

def ScopePeriphs.new : ScopePeriphs := ⟨[], 0, 0, 0#32⟩

/-- The arguments of `add_periph`. -/
structure AddCall where
  name : CString
  maxEnergyMs : BitVec 32
  groupId : Int
  groupName : CString

/-- The peripheral of a call. -/
def AddCall.node (call : AddCall) (groupId : Int) : PeriphNode :=
  ⟨call.name, call.maxEnergyMs, groupId, call.groupName, 0⟩

/-- The loop over the list, up to the place of `p`. -/
def insertPeriph (p : PeriphNode) : List PeriphNode → List PeriphNode
  | [] => [p]
  | q :: next => if q.groupId ≤ p.groupId then q :: insertPeriph p next else p :: q :: next

/-- `add_periph`, with what it leaves in `group_id`. -/
def ScopePeriphs.addPeriph (scope : ScopePeriphs) (call : AddCall) : Int × ScopePeriphs :=
  let groupId := if call.groupId < 0 then (scope.nbGroups : Int) else call.groupId
  (groupId,
    { scope with
      headPeriphs := insertPeriph (call.node groupId) scope.headPeriphs
      nbPeriphs := scope.nbPeriphs + 1
      nbGroups := if call.groupId < 0 then scope.nbGroups + 1 else scope.nbGroups })

/-- The scope behind some calls, and the group ids they have returned. -/
structure AddRun where
  scope : ScopePeriphs
  ids : List Int

def AddRun.next (r : AddRun) (call : AddCall) : AddRun :=
  ⟨(r.scope.addPeriph call).2, r.ids ++ [(r.scope.addPeriph call).1]⟩

def addPeriphs (calls : List AddCall) : AddRun := calls.foldl AddRun.next ⟨.new, []⟩

/-- Each group id is negative or returned by an earlier call. -/
def ValidCalls (calls : List AddCall) : Prop :=
  ∀ pre call post, calls = pre ++ call :: post →
    call.groupId < 0 ∨ call.groupId ∈ (addPeriphs pre).ids

/-! ## 2. What the calls mean -/

/-- The peripherals of a group: the one that has made it, and those behind it. -/
structure PeriphGroup where
  first : AddCall
  others : List AddCall

namespace PeriphGroup

variable (g : PeriphGroup)

def all : List AddCall := g.first :: g.others

def size : Nat := g.all.length

def add (call : AddCall) : PeriphGroup := { g with others := g.others ++ [call] }

/-- The peripherals in the list, when the group has number `i`. -/
def nodes (i : Nat) : List PeriphNode := g.all.map (·.node i)

end PeriphGroup

def addToGroups (groups : List PeriphGroup) (call : AddCall) : List PeriphGroup :=
  if call.groupId < 0 then groups ++ [⟨call, []⟩]
  else groups.modify call.groupId.toNat (·.add call)

def groupsOf (calls : List AddCall) : List PeriphGroup := calls.foldl addToGroups []

/-- The groups one behind the other, the first one with number `i`. -/
def nodesFrom (i : Nat) : List PeriphGroup → List PeriphNode
  | [] => []
  | g :: groups => g.nodes i ++ nodesFrom (i + 1) groups

/-- **The list is the groups**, and every id returned is the number of one. -/
structure Grouped (r : AddRun) (groups : List PeriphGroup) : Prop where
  headPeriphs : r.scope.headPeriphs = nodesFrom 0 groups
  nbPeriphs : r.scope.nbPeriphs = (groups.map PeriphGroup.size).sum
  nbGroups : r.scope.nbGroups = groups.length
  ids : ∀ id ∈ r.ids, ∃ j : Nat, id = j ∧ j < groups.length
  maxEnergyMs : r.scope.maxEnergyMs = 0#32

/-! ## 3. The place of a peripheral -/

variable {g : PeriphGroup} {groups : List PeriphGroup} {call : AddCall} {i j : Nat}

theorem groupId_of_mem_nodes {q : PeriphNode} (h : q ∈ g.nodes i) : q.groupId = i := by
  obtain ⟨call, -, rfl⟩ := List.mem_map.mp h
  rfl

theorem PeriphGroup.nodes_add (g : PeriphGroup) (call : AddCall) (i : Nat) :
    (g.add call).nodes i = g.nodes i ++ [call.node i] := by
  simp [nodes, all, add]

theorem insertPeriph_append {p : PeriphNode} {xs : List PeriphNode}
    (h : ∀ q ∈ xs, q.groupId ≤ p.groupId) (ys : List PeriphNode) :
    insertPeriph p (xs ++ ys) = xs ++ insertPeriph p ys := by
  induction xs with
  | nil => rfl
  | cons q xs ih =>
      rw [List.cons_append, insertPeriph, if_pos (h q List.mem_cons_self),
        ih fun q' hq => h q' (List.mem_cons_of_mem q hq), List.cons_append]

/-- In front of the groups with larger numbers. -/
theorem insertPeriph_nodesFrom {p : PeriphNode} (h : p.groupId < i) :
    insertPeriph p (nodesFrom i groups) = p :: nodesFrom i groups := by
  cases groups with
  | nil => rfl
  | cons g groups =>
      have hlt : ¬ (g.first.node i).groupId ≤ p.groupId := not_le.mpr h
      show insertPeriph p (g.first.node i :: _) = _
      rw [insertPeriph, if_neg hlt]
      rfl

/-- **A peripheral of an old group** goes behind the others of its group. -/
theorem insertPeriph_old (call : AddCall) (i : Nat) (hj : j < groups.length) :
    insertPeriph (call.node ((i + j : Nat) : Int)) (nodesFrom i groups) =
      nodesFrom i (groups.modify j (·.add call)) := by
  induction groups generalizing i j with
  | nil => cases hj
  | cons g groups ih =>
      have hle : ∀ q ∈ g.nodes i, q.groupId ≤ (call.node ((i + j : Nat) : Int)).groupId := by
        intro q hq
        rw [groupId_of_mem_nodes hq]
        exact Int.ofNat_le.mpr (Nat.le_add_right i j)
      rw [nodesFrom, insertPeriph_append hle]
      cases j with
      | zero =>
          have hlt : (call.node ((i + 0 : Nat) : Int)).groupId < ((i + 1 : Nat) : Int) :=
            Int.ofNat_lt.mpr (Nat.lt_succ_self i)
          rw [insertPeriph_nodesFrom hlt, List.modify_zero_cons, nodesFrom, PeriphGroup.nodes_add,
            List.append_assoc]
          rfl
      | succ j =>
          have hij : i + (j + 1) = i + 1 + j := by omega
          rw [hij, ih (i + 1) (Nat.lt_of_succ_lt_succ hj), List.modify_succ_cons,
            nodesFrom]

/-- **A peripheral of a new group** goes behind all others. -/
theorem insertPeriph_new (call : AddCall) (groups : List PeriphGroup) (i : Nat) :
    insertPeriph (call.node ((i + groups.length : Nat) : Int)) (nodesFrom i groups) =
      nodesFrom i (groups ++ [⟨call, []⟩]) := by
  induction groups generalizing i with
  | nil => rfl
  | cons g groups ih =>
      have hle : ∀ q ∈ g.nodes i,
          q.groupId ≤ (call.node ((i + (g :: groups).length : Nat) : Int)).groupId := by
        intro q hq
        rw [groupId_of_mem_nodes hq]
        exact Int.ofNat_le.mpr (Nat.le_add_right i _)
      have hlen : i + (g :: groups).length = i + 1 + groups.length := by
        rw [List.length_cons]
        omega
      rw [nodesFrom, insertPeriph_append hle, hlen, ih, List.cons_append, nodesFrom]

/-! ## 4. Any number of calls -/

theorem sum_size_modify (hj : j < groups.length) :
    ((groups.modify j (·.add call)).map PeriphGroup.size).sum =
      (groups.map PeriphGroup.size).sum + 1 := by
  induction groups generalizing j with
  | nil => cases hj
  | cons g groups ih =>
      cases j with
      | zero =>
          have hsize : (g.add call).size = g.size + 1 := by
            simp [PeriphGroup.size, PeriphGroup.all, PeriphGroup.add]
          rw [List.modify_zero_cons, List.map_cons, List.map_cons, List.sum_cons, List.sum_cons, hsize]
          omega
      | succ j =>
          rw [List.modify_succ_cons, List.map_cons, List.map_cons, List.sum_cons, List.sum_cons,
            ih (Nat.lt_of_succ_lt_succ hj)]
          omega

/-- A call that finds its place in the list and returns the number of its group. -/
theorem Grouped.placed {r : AddRun} {groups' : List PeriphGroup} (h : Grouped r groups)
    (hj : (r.scope.addPeriph call).1 = (j : Int)) (hlt : j < groups'.length)
    (hlist : insertPeriph (call.node j) (nodesFrom 0 groups) = nodesFrom 0 groups')
    (hsize : (groups'.map PeriphGroup.size).sum = (groups.map PeriphGroup.size).sum + 1)
    (hgroups : (r.scope.addPeriph call).2.nbGroups = groups'.length)
    (hle : groups.length ≤ groups'.length) : Grouped (r.next call) groups' := by
  refine ⟨?_, ?_, hgroups, fun id hmem => ?_, h.maxEnergyMs⟩
  · show insertPeriph (call.node (r.scope.addPeriph call).1) r.scope.headPeriphs = _
    rw [hj, h.headPeriphs, hlist]
  · show r.scope.nbPeriphs + 1 = _
    rw [h.nbPeriphs, hsize]
  · rcases List.mem_append.mp hmem with hold | hlast
    · obtain ⟨j', rfl, hj'⟩ := h.ids id hold
      exact ⟨j', rfl, hj'.trans_le hle⟩
    · exact ⟨j, (List.mem_singleton.mp hlast).trans hj, hlt⟩

/-- **One call keeps the list the groups.** -/
theorem Grouped.next {r : AddRun} (h : Grouped r groups)
    (hid : call.groupId < 0 ∨ call.groupId ∈ r.ids) :
    Grouped (r.next call) (addToGroups groups call) := by
  unfold addToGroups
  by_cases hneg : call.groupId < 0
  · rw [if_pos hneg]
    have hnew : (r.scope.addPeriph call).1 = (groups.length : Int) := by
      rw [← h.nbGroups]
      exact if_pos hneg
    have hcount : (r.scope.addPeriph call).2.nbGroups = groups.length + 1 := by
      rw [← h.nbGroups]
      exact if_pos hneg
    have hplace := insertPeriph_new call groups 0
    rw [Nat.zero_add] at hplace
    refine h.placed hnew (by simp) hplace ?_ (by simp [hcount]) (by simp)
    rw [List.map_append, List.sum_append]
    rfl
  · rw [if_neg hneg]
    obtain ⟨j, hj, hlt⟩ := h.ids _ (hid.resolve_left hneg)
    have hold : (r.scope.addPeriph call).1 = (j : Int) := by
      rw [← hj]
      exact if_neg hneg
    have hcount : (r.scope.addPeriph call).2.nbGroups = groups.length := by
      rw [← h.nbGroups]
      exact if_neg hneg
    have hplace := insertPeriph_old call 0 hlt
    rw [Nat.zero_add] at hplace
    rw [hj, Int.toNat_natCast]
    exact h.placed hold (by simpa using hlt) hplace (sum_size_modify hlt) (by simpa using hcount)
      (by simp)

theorem ValidCalls.init {calls : List AddCall} (h : ValidCalls (calls ++ [call])) :
    ValidCalls calls := by
  intro pre c post hc
  exact h pre c (post ++ [call]) (by rw [hc, List.append_assoc, List.cons_append])

theorem validCalls_nil : ValidCalls [] := fun pre _ _ h => by simp at h

theorem ValidCalls.snoc {calls : List AddCall} (h : ValidCalls calls) (call : AddCall)
    (hcall : call.groupId < 0 ∨ call.groupId ∈ (addPeriphs calls).ids) :
    ValidCalls (calls ++ [call]) := by
  intro pre c post hc
  rcases append_singleton_eq_append_cons hc with ⟨rfl, rfl, -⟩ | ⟨post, rfl, rfl⟩
  · exact hcall
  · exact h pre c post rfl

/-- **The list is the groups one behind the other.** -/
theorem grouped_addPeriphs {calls : List AddCall} (h : ValidCalls calls) :
    Grouped (addPeriphs calls) (groupsOf calls) := by
  induction calls using List.reverseRecOn with
  | nil => exact ⟨rfl, rfl, rfl, fun _ h => (by cases h), rfl⟩
  | append_singleton calls call ih =>
      have hnext := (ih h.init).next (h calls call [] rfl)
      rw [addPeriphs, groupsOf, List.foldl_append, List.foldl_append]
      exact hnext

theorem map_first_modify (groups : List PeriphGroup) (j : Nat) :
    (groups.modify j (·.add call)).map PeriphGroup.first = groups.map PeriphGroup.first := by
  induction groups generalizing j with
  | nil => rw [List.modify_nil]
  | cons g groups ih =>
      cases j with
      | zero => rfl
      | succ j => rw [List.modify_succ_cons, List.map_cons, ih, List.map_cons]

/-- A group has the name that the call which made it has given. -/
theorem first_mem_of_mem_groupsOf {calls : List AddCall} (h : g ∈ groupsOf calls) :
    g.first ∈ calls := by
  suffices hall : (groupsOf calls).map PeriphGroup.first ⊆ calls from
    hall (List.mem_map_of_mem h)
  clear h
  induction calls using List.reverseRecOn with
  | nil => exact List.nil_subset _
  | append_singleton calls call ih =>
      rw [groupsOf, List.foldl_append]
      show (addToGroups (groupsOf calls) call).map PeriphGroup.first ⊆ calls ++ [call]
      unfold addToGroups
      split
      · rw [List.map_append]
        exact List.append_subset.mpr ⟨fun c hc => List.mem_append_left _ (ih hc),
          List.subset_append_right _ _⟩
      · rw [map_first_modify]
        exact fun c hc => List.mem_append_left _ (ih hc)

/-- Each peripheral is in a group. -/
theorem sum_size_groupsOf {calls : List AddCall} (h : ValidCalls calls) :
    ((groupsOf calls).map PeriphGroup.size).sum = calls.length := by
  rw [← (grouped_addPeriphs h).nbPeriphs]
  clear h
  induction calls using List.reverseRecOn with
  | nil => rfl
  | append_singleton calls call ih =>
      rw [addPeriphs, List.foldl_append, List.length_append, ← ih]
      rfl

end Rabbits
