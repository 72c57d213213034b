/-
  File:      Rabbits/Energy/RollAverage.lean
  Subject:   The rolling average of the total energy (etrace_if.cpp: roll_average).

  The last samples stand in a ring of `MAX_HISTORY` slots, which the constructor leaves as they are.
  `m_full_average` says that the slots behind the index have been written, too.

  * `HistoryCode.rollAverage` -- the code with the slots that it uses; `rollAverage_run` -- **without
    them it is `RollAverage.rollAverage`**;
  * `lastSamples`, `mean` -- the samples that a call is about, and what it should return;
  * `RollInv` -- the fields against the samples so far: `m_history` keeps the last of them, and the
    flag is set one call before all slots are written;
  * `Accessed` -- the accesses so far, with the slots that have been written;
  * `rollAverages_right` -- **every sequence of calls**: the means, and no slot is read that was not
    written;
  * `scopeSamples_rolled` -- the second curve of the total graph.
-/
import Rabbits.Energy.MeanPower
import Rabbits.Lib.Recorded
import Rabbits.Lib.Ring

namespace Rabbits

open Lib Recorded

/-! ## 1. The code -/

/-- A slot of `m_history` that is used. -/
inductive HistoryAccess where
  | read (slot : Nat)
  | write (slot : Nat)
  deriving DecidableEq

def HistoryAccess.slot : HistoryAccess → Nat
  | read slot => slot
  | write slot => slot

abbrev HistoryCode := Recorded RollAverage HistoryAccess

namespace HistoryCode

/-- `m_history[i]`. -/
def peek (i : Nat) : HistoryCode (BitVec 64) := ⟨fun r => (some (r.history.getD i 0#64, r), [.read i])⟩

/-- `m_history[i] = samp`. -/
def poke (i : Nat) (samp : BitVec 64) : HistoryCode PUnit :=
  ⟨fun r => (some (⟨⟩, { r with history := r.history.set i samp }), [.write i])⟩

/-- `for(i = 0; i < n; i++) acc += m_history[i];`. -/
def accumulate (n : Nat) : HistoryCode (BitVec 64) :=
  (List.range n).foldlM (fun acc i => do
    let samp ← peek i
    return acc + samp) 0#64

/-- `if(m_full_average)`: `res`. -/
def average (r : RollAverage) : HistoryCode (BitVec 64) :=
  if r.fullAverage then do
    let acc ← accumulate MAX_HISTORY
    return acc / BitVec.ofNat 64 MAX_HISTORY
  else do
    let acc ← accumulate (r.currIdx + 1)
    return acc / BitVec.ofNat 64 (r.currIdx + 1)

/-- The update of the index for the next call. -/
def advance : HistoryCode PUnit := do
  change fun r => { r with currIdx := (r.currIdx + 1) % MAX_HISTORY }
  change fun r => if r.currIdx = MAX_HISTORY - 1 then { r with fullAverage := true } else r

def rollAverage (newSamp : BitVec 64) : HistoryCode (BitVec 64) := do
  let r ← look
  poke r.currIdx newSamp
  let res ← average r
  advance
  return res

/-- Calls one after the other. -/
def rollAverages : List (BitVec 64) → HistoryCode (List (BitVec 64))
  | [] => return []
  | newSamp :: samples => do
      let res ← rollAverage newSamp
      let results ← rollAverages samples
      return res :: results

end HistoryCode

/-- The constructor, with what was in the memory of `m_history`. -/
def RollAverage.new (history : Vector (BitVec 64) MAX_HISTORY) : RollAverage :=
  ⟨false, 0, history.toList⟩

/-! ## 2. What is asked of it -/

/-- The last `MAX_HISTORY` samples, or all of them. -/
def lastSamples (samples : List (BitVec 64)) : List Nat :=
  (samples.rtake MAX_HISTORY).map BitVec.toNat

/-- The floor of the mean. -/
def mean (samples : List Nat) : Nat := samples.sum / samples.length

/-- Every slot that is read has been written before. -/
def ReadsWritten (accesses : List HistoryAccess) : Prop :=
  ∀ k i : Nat, accesses[k]? = some (.read i) → ∃ j < k, accesses[j]? = some (.write i)

/-- The calls return, each one the mean of the last samples when their sum fits; what they read has
    been written, and is in `m_history`. -/
structure RollRight (samples : List (BitVec 64))
    (run : Option (List (BitVec 64) × RollAverage) × List HistoryAccess) : Prop where
  returns : ∃ results r, run.1 = some (results, r) ∧ results.length = samples.length ∧
    ∀ n res, results[n]? = some res → (lastSamples (samples.take (n + 1))).sum < 2 ^ 64 →
      res.toNat = mean (lastSamples (samples.take (n + 1)))
  written : ReadsWritten run.2
  inside : ∀ access ∈ run.2, access.slot < MAX_HISTORY

theorem length_lastSamples (samples : List (BitVec 64)) :
    (lastSamples samples).length = min samples.length MAX_HISTORY := by
  rw [lastSamples, List.length_map, List.rtake, List.length_drop]
  omega

/-! ## 3. One call -/

/-- How many slots a call adds up. -/
def RollAverage.count (r : RollAverage) : Nat :=
  if r.fullAverage then MAX_HISTORY else r.currIdx + 1

theorem sum_map_getD (history : List (BitVec 64)) (n : Nat) :
    ((List.range n).map fun i => history.getD i 0#64).sum = (history.take n).sum := by
  induction history generalizing n with
  | nil =>
      induction n with
      | zero => rfl
      | succ n ih =>
          rw [List.range_succ, List.map_append, List.sum_append, ih]
          simp
  | cons samp history ih =>
      cases n with
      | zero => rfl
      | succ n =>
          rw [List.range_succ_eq_map, List.map_cons, List.map_map, List.take_succ_cons, List.sum_cons,
            List.sum_cons, ← ih n]
          rfl

theorem map_range_getD {history : List (BitVec 64)} {n : Nat} (hn : n ≤ history.length) :
    ((List.range n).map fun i => history.getD i 0#64) = history.take n := by
  refine List.ext_getElem (by simpa using hn) fun i hi hi' => ?_
  have hlt : i < history.length := by simp at hi; omega
  simp [hlt]

/-- The sum of the machine words wraps. -/
theorem toNat_sum (samples : List (BitVec 64)) :
    samples.sum.toNat = (samples.map BitVec.toNat).sum % 2 ^ 64 := by
  induction samples with
  | nil => rfl
  | cons samp samples ih =>
      rw [List.sum_cons, BitVec.toNat_add, ih, List.map_cons, List.sum_cons, Nat.add_mod_mod]

theorem accumulate_run (n : Nat) (r : RollAverage) : (HistoryCode.accumulate n).run r =
    (some ((r.history.take n).sum, r), (List.range n).map .read) := by
  have hloop : ∀ (is : List Nat) (acc : BitVec 64),
      (is.foldlM (fun acc i => do
        let samp ← HistoryCode.peek i
        return acc + samp) acc : HistoryCode (BitVec 64)).run r =
        (some (acc + (is.map fun i => r.history.getD i 0#64).sum, r), is.map .read) := by
    intro is
    induction is with
    | nil =>
        intro acc
        rw [List.map_nil, List.sum_nil, List.foldlM_nil, run_pure]
        simp
    | cons i is ih =>
        intro acc
        have hturn : ((do
            let samp ← HistoryCode.peek i
            return acc + samp : HistoryCode (BitVec 64)).run r) =
            (some (acc + r.history.getD i 0#64, r), [.read i]) := rfl
        rw [List.foldlM_cons, run_bind_some (by rw [hturn]), hturn, ih, List.map_cons, List.sum_cons,
          BitVec.add_assoc]
        rfl
  rw [HistoryCode.accumulate, hloop, sum_map_getD, BitVec.zero_add]

/-- What is added up, by the number of slots. -/
theorem average_run (r r' : RollAverage) : (HistoryCode.average r).run r' =
    (some ((r'.history.take r.count).sum / BitVec.ofNat 64 r.count, r'),
      (List.range r.count).map HistoryAccess.read) := by
  have hdivide : ∀ n, ((do
      let acc ← HistoryCode.accumulate n
      return acc / BitVec.ofNat 64 n : HistoryCode (BitVec 64)).run r') =
      (some ((r'.history.take n).sum / BitVec.ofNat 64 n, r'),
        (List.range n).map HistoryAccess.read) := by
    intro n
    have hsum := accumulate_run n r'
    rw [run_bind_some (by rw [hsum]), hsum, run_pure, List.append_nil]
  unfold HistoryCode.average RollAverage.count
  split
  · exact hdivide MAX_HISTORY
  · exact hdivide (r.currIdx + 1)

theorem advance_run (r : RollAverage) : HistoryCode.advance.run r =
    (some (⟨⟩, ⟨r.fullAverage || decide ((r.currIdx + 1) % MAX_HISTORY = MAX_HISTORY - 1),
      (r.currIdx + 1) % MAX_HISTORY, r.history⟩), []) := by
  have hindex : (change fun r => { r with currIdx := (r.currIdx + 1) % MAX_HISTORY } :
      HistoryCode PUnit).run r =
      (some (⟨⟩, { r with currIdx := (r.currIdx + 1) % MAX_HISTORY }), []) := rfl
  rw [HistoryCode.advance, run_bind_known hindex]
  by_cases h : (r.currIdx + 1) % MAX_HISTORY = MAX_HISTORY - 1
  · simp [change, h]
  · simp [change, h]

/-- **A call without its accesses**, and the accesses. -/
theorem rollAverage_run (r : RollAverage) (newSamp : BitVec 64) :
    (HistoryCode.rollAverage newSamp).run r = (some (r.rollAverage newSamp),
      HistoryAccess.write r.currIdx :: (List.range r.count).map HistoryAccess.read) := by
  let r' : RollAverage := { r with history := r.history.set r.currIdx newSamp }
  have hlook : (look : HistoryCode RollAverage).run r = (some (r, r), []) := rfl
  have hpoke : (HistoryCode.poke r.currIdx newSamp).run r =
      (some (⟨⟩, r'), [HistoryAccess.write r.currIdx]) := rfl
  have haverage := average_run r r'
  rw [HistoryCode.rollAverage, run_bind_known hlook, run_bind_some (by rw [hpoke]), hpoke,
    run_bind_some (by rw [haverage]), haverage, run_bind_known (advance_run r'), run_pure,
    List.append_nil]
  unfold RollAverage.rollAverage RollAverage.count
  cases h : r.fullAverage <;> simp [r']

theorem rollAverages_cons_run (r : RollAverage) (newSamp : BitVec 64) (samples : List (BitVec 64)) :
    (HistoryCode.rollAverages (newSamp :: samples)).run r =
      (((HistoryCode.rollAverages samples).run (r.rollAverage newSamp).2).1.map fun p =>
        ((r.rollAverage newSamp).1 :: p.1, p.2),
      HistoryAccess.write r.currIdx :: (List.range r.count).map HistoryAccess.read ++
        ((HistoryCode.rollAverages samples).run (r.rollAverage newSamp).2).2) := by
  have hcall := rollAverage_run r newSamp
  rw [HistoryCode.rollAverages, run_bind_some (by rw [hcall]), hcall]
  cases hrest : ((HistoryCode.rollAverages samples).run (r.rollAverage newSamp).2).1 with
  | none =>
      rw [run_bind_none hrest]
      rfl
  | some p =>
      rw [run_bind_some hrest, run_pure, List.append_nil]
      rfl

/-! ## 4. The values -/

/-- The fields against the samples so far. The flag is set with the last slot but one. -/
structure RollInv (samples : List (BitVec 64)) (r : RollAverage) : Prop where
  length : r.history.length = MAX_HISTORY
  currIdx : r.currIdx = samples.length % MAX_HISTORY
  fullAverage : r.fullAverage = decide (MAX_HISTORY ≤ samples.length + 1)
  history : KeepsLast (fun i => r.history.getD i 0#64) MAX_HISTORY samples

theorem rollInv_new (history : Vector (BitVec 64) MAX_HISTORY) : RollInv [] (.new history) where
  length := Vector.length_toList
  currIdx := rfl
  fullAverage := rfl
  history := keepsLast_nil _ _

namespace RollInv

variable {samples : List (BitVec 64)} {r : RollAverage} {newSamp : BitVec 64}

/-- Before the ring is full the slots up to the index, then all of them. -/
theorem count (h : RollInv samples r) : r.count = min (samples.length + 1) MAX_HISTORY := by
  rw [RollAverage.count, h.fullAverage, h.currIdx]
  by_cases hfull : MAX_HISTORY ≤ samples.length + 1
  · rw [decide_eq_true hfull, if_pos rfl, min_eq_right hfull]
  · rw [decide_eq_false hfull, if_neg Bool.false_ne_true, Nat.mod_eq_of_lt (by omega),
      min_eq_left (by omega)]

theorem currIdx_lt (h : RollInv samples r) : r.currIdx < MAX_HISTORY := by
  rw [h.currIdx]
  exact Nat.mod_lt _ (by decide)

/-- The slots with the new sample. -/
theorem written (h : RollInv samples r) (newSamp : BitVec 64) :
    KeepsLast (fun i => (r.history.set r.currIdx newSamp).getD i 0#64) MAX_HISTORY
      (samples ++ [newSamp]) := by
  have hlt := h.currIdx_lt
  have hset : (fun i => (r.history.set r.currIdx newSamp).getD i 0#64) =
      Function.update (fun i => r.history.getD i 0#64) (samples.length % MAX_HISTORY) newSamp := by
    funext i
    rw [← h.currIdx]
    by_cases hi : i = r.currIdx
    · subst hi
      simp [List.getElem?_set_self (h.length ▸ hlt)]
    · simp [Function.update_of_ne hi, List.getElem?_set_ne (Ne.symm hi)]
  rw [hset]
  exact h.history.write newSamp

/-- **A call keeps the invariant.** -/
theorem rollAverage (h : RollInv samples r) (newSamp : BitVec 64) :
    RollInv (samples ++ [newSamp]) (r.rollAverage newSamp).2 := by
  have hlen : (samples ++ [newSamp]).length = samples.length + 1 := by simp
  have hindex : (r.currIdx + 1) % MAX_HISTORY = (samples.length + 1) % MAX_HISTORY := by
    rw [h.currIdx, Nat.mod_add_mod]
  refine ⟨(List.length_set ..).trans h.length, ?_, ?_, h.written newSamp⟩
  · rw [hlen]
    exact hindex
  · show (r.fullAverage || decide ((r.currIdx + 1) % MAX_HISTORY = MAX_HISTORY - 1)) = _
    rw [h.fullAverage, hindex, hlen, ← Bool.decide_or, decide_eq_decide, MAX_HISTORY]
    omega

/-- **What is added up are the last samples**, in some order. -/
theorem summed (h : RollInv samples r) (newSamp : BitVec 64) :
    (((r.history.set r.currIdx newSamp).take r.count).map BitVec.toNat).sum =
      (lastSamples (samples ++ [newSamp])).sum := by
  have hlen : (samples ++ [newSamp]).length = samples.length + 1 := by simp
  have hslots := (h.written newSamp).perm
  rw [hlen, ← h.count, map_range_getD ?_] at hslots
  · exact (hslots.map BitVec.toNat).sum_eq
  · rw [List.length_set, h.length, h.count]
    exact min_le_right _ _

/-- **A call returns the mean of the last samples.** -/
theorem result (h : RollInv samples r) (hsum : (lastSamples (samples ++ [newSamp])).sum < 2 ^ 64) :
    (r.rollAverage newSamp).1.toNat = mean (lastSamples (samples ++ [newSamp])) := by
  have hcount : r.count ≤ MAX_HISTORY := h.count ▸ min_le_right _ _
  have hdivisor : (BitVec.ofNat 64 r.count).toNat = r.count := by
    rw [BitVec.toNat_ofNat]
    exact Nat.mod_eq_of_lt (hcount.trans_lt (by decide))
  have hres : (r.rollAverage newSamp).1 =
      ((r.history.set r.currIdx newSamp).take r.count).sum / BitVec.ofNat 64 r.count := by
    unfold RollAverage.rollAverage RollAverage.count
    split <;> rfl
  rw [hres, BitVec.toNat_udiv, toNat_sum, h.summed, Nat.mod_eq_of_lt hsum, hdivisor, mean,
    length_lastSamples, List.length_append, List.length_singleton, h.count]

end RollInv

/-- **Every call of a run returns its mean.** -/
theorem rollAverages_results {past samples : List (BitVec 64)} {r : RollAverage}
    (h : RollInv past r) : ∃ results r',
      ((HistoryCode.rollAverages samples).run r).1 = some (results, r') ∧
      results.length = samples.length ∧
      ∀ n res, results[n]? = some res →
        (lastSamples (past ++ samples.take (n + 1))).sum < 2 ^ 64 →
        res.toNat = mean (lastSamples (past ++ samples.take (n + 1))) := by
  induction samples generalizing past r with
  | nil => exact ⟨[], r, rfl, rfl, fun n res hres => by simp at hres⟩
  | cons newSamp samples ih =>
      obtain ⟨results, r', hrun, hlen, hmeans⟩ := ih (h.rollAverage newSamp)
      refine ⟨(r.rollAverage newSamp).1 :: results, r', ?_, congrArg (· + 1) hlen,
        fun n res hres hsum => ?_⟩
      · rw [rollAverages_cons_run, hrun]
        rfl
      · cases n with
        | zero =>
            cases hres
            exact h.result hsum
        | succ n =>
            rw [List.take_succ_cons, List.append_cons] at hsum ⊢
            exact hmeans n res hres hsum

/-! ## 5. The accesses -/

/-- The accesses of some calls, which have written the slots below `count`. -/
structure Accessed (count : Nat) (accesses : List HistoryAccess) : Prop where
  reads : ReadsWritten accesses
  written : ∀ i < count, HistoryAccess.write i ∈ accesses
  inside : ∀ access ∈ accesses, access.slot < MAX_HISTORY

theorem accessed_nil : Accessed 0 [] where
  reads k i h := by simp at h
  written i hi := absurd hi (Nat.not_lt_zero i)
  inside access h := absurd h List.not_mem_nil

/-- A call writes one slot, and reads slots that are written then. -/
theorem Accessed.call {count count' slot : Nat} {accesses : List HistoryAccess}
    (h : Accessed count accesses) (hslot : slot < MAX_HISTORY) (hcount : count' ≤ MAX_HISTORY)
    (hnew : ∀ i < count', i < count ∨ i = slot) :
    Accessed count'
      (accesses ++ HistoryAccess.write slot :: (List.range count').map HistoryAccess.read) := by
  refine ⟨fun k i hk => ?_, fun i hi => ?_, fun access hmem => ?_⟩
  · rcases Nat.lt_or_ge k accesses.length with hlt | hge
    · rw [List.getElem?_append_left hlt] at hk
      obtain ⟨j, hj, hwrite⟩ := h.reads k i hk
      exact ⟨j, hj, by rw [List.getElem?_append_left (hj.trans hlt), hwrite]⟩
    · rw [List.getElem?_append_right hge] at hk
      cases hturn : k - accesses.length with
      | zero =>
          rw [hturn] at hk
          cases hk
      | succ m =>
          have hread : HistoryAccess.read i ∈ (List.range count').map HistoryAccess.read := by
            rw [hturn, List.getElem?_cons_succ] at hk
            exact List.mem_of_getElem? hk
          obtain ⟨i', hi', e⟩ := List.mem_map.mp hread
          cases e
          rcases hnew i (List.mem_range.mp hi') with hold | rfl
          · obtain ⟨j, hj⟩ := List.mem_iff_getElem?.mp (h.written i hold)
            have hlt : j < accesses.length := (List.getElem?_eq_some_iff.mp hj).1
            exact ⟨j, by omega, by rw [List.getElem?_append_left hlt, hj]⟩
          · refine ⟨accesses.length, by omega, ?_⟩
            rw [List.getElem?_append_right le_rfl, Nat.sub_self]
            rfl
  · rcases hnew i hi with hold | rfl
    · exact List.mem_append_left _ (h.written i hold)
    · exact List.mem_append_right _ List.mem_cons_self
  · rcases List.mem_append.mp hmem with hold | hnow
    · exact h.inside access hold
    · rcases List.mem_cons.mp hnow with rfl | hread
      · exact hslot
      · obtain ⟨i, hi, rfl⟩ := List.mem_map.mp hread
        exact (List.mem_range.mp hi).trans_le hcount

/-- **No slot is read before it is written**, in any run. -/
theorem rollAverages_accessed {past samples : List (BitVec 64)} {r : RollAverage}
    {accesses : List HistoryAccess} (h : RollInv past r)
    (ha : Accessed (min past.length MAX_HISTORY) accesses) :
    Accessed (min (past.length + samples.length) MAX_HISTORY)
      (accesses ++ ((HistoryCode.rollAverages samples).run r).2) := by
  induction samples generalizing past r accesses with
  | nil => simpa [HistoryCode.rollAverages] using ha
  | cons newSamp samples ih =>
      have hlen : (past ++ [newSamp]).length = past.length + 1 := by simp
      have hcall := ha.call h.currIdx_lt (min_le_right (past.length + 1) MAX_HISTORY) fun i hi => by
        rw [h.currIdx]
        unfold MAX_HISTORY at hi ⊢
        omega
      rw [← hlen] at hcall
      have hrest := ih (h.rollAverage newSamp) hcall
      rw [rollAverages_cons_run, h.count, ← hlen, ← List.append_assoc, List.length_cons,
        Nat.add_comm samples.length 1, ← Nat.add_assoc, ← hlen]
      exact hrest

/-! ## 6. Runs -/

/-- **The rolling average**: whatever was in `m_history`, and for every sequence of samples. -/
theorem rollAverages_right (history : Vector (BitVec 64) MAX_HISTORY) (samples : List (BitVec 64)) :
    RollRight samples ((HistoryCode.rollAverages samples).run (.new history)) := by
  have hresults := @rollAverages_results [] samples _ (rollInv_new history)
  have haccessed := @rollAverages_accessed [] samples _ [] (rollInv_new history) accessed_nil
  simp only [List.nil_append] at hresults haccessed
  exact ⟨hresults, haccessed.reads, haccessed.inside⟩

/-! ## 7. On the pipe -/

/-- `sum` in a round of `scope_trigger`. -/
def totalEnergy (scope : ScopePeriphs) (energy : Nat → BitVec 64) : BitVec 64 :=
  BitVec.ofNat 64 (sampleEnergy scope energy)

/-- A round passes its sum to the average, and writes the result behind all others. -/
theorem scopeSample_rolled {scope : ScopePeriphs} {s s' : TriggerState} {energy : Nat → BitVec 64}
    {v : List Byte} (h : scopeSample scope s energy = some (v, s')) :
    s'.average = (s.average.rollAverage (totalEnergy scope energy)).2 ∧
      v.getLast? = some (scopeVal (s.average.rollAverage (totalEnergy scope energy)).1
        scope.maxEnergyMs) := by
  obtain ⟨⟨sum, vals⟩, hloop, h⟩ := Option.bind_eq_some_iff.mp h
  obtain ⟨total, -, h⟩ := Option.bind_eq_some_iff.mp h
  obtain ⟨rolled, hrolled, h⟩ := Option.bind_eq_some_iff.mp h
  have hsum : sum = totalEnergy scope energy := (sampleLoop_sum hloop).trans (BitVec.zero_add _)
  cases h
  rw [← hsum]
  refine ⟨rfl, ?_⟩
  rw [List.range_succ, List.map_append, List.map_singleton, List.getLast?_concat,
    Function.update_self]
  exact congrArg some (percent_eq_some hrolled)

/-- **The second curve of the total graph is the mean of the last totals**, as long as they fit. -/
theorem scopeSamples_rolled {scope : ScopePeriphs} {s : TriggerState} {past : List (BitVec 64)}
    {energies : List (Nat → BitVec 64)} {written : List (List Byte)} (hs : RollInv past s.average)
    (h : scopeSamples scope s energies = some written) (n : Nat) (v : List Byte)
    (hv : written[n]? = some v)
    (hsum : (lastSamples (past ++ (energies.map (totalEnergy scope)).take (n + 1))).sum < 2 ^ 64) :
    ∃ avg : BitVec 64,
      avg.toNat = mean (lastSamples (past ++ (energies.map (totalEnergy scope)).take (n + 1))) ∧
        v.getLast? = some (scopeVal avg scope.maxEnergyMs) := by
  induction energies generalizing s past written n with
  | nil =>
      cases h
      cases hv
  | cons energy energies ih =>
      obtain ⟨⟨v', s'⟩, hround, h⟩ := Option.bind_eq_some_iff.mp h
      obtain ⟨vs, hvs, h⟩ := Option.bind_eq_some_iff.mp h
      cases h
      obtain ⟨haverage, hlast⟩ := scopeSample_rolled hround
      cases n with
      | zero =>
          cases hv
          exact ⟨_, hs.result hsum, hlast⟩
      | succ n =>
          rw [List.map_cons, List.take_succ_cons, List.append_cons] at hsum ⊢
          exact ih (haverage ▸ hs.rollAverage _) hvs n hv hsum

end Rabbits
