/-
  File:      Rabbits/Cpu/EnergyMode.lean
  Subject:   The frequency levels of the CPUs and the energy modes reported for them (cpu_fvs.cpp,
             qemu_cpu_wrapper.cpp: cpu_thread, set_cpu_fv_level, qemu_wrapper.cpp:
             set_cpu_fv_level).

  A CPU reports its mode when its thread goes into the halt wait, when it comes back, and whenever
  a CPU sets its level. The last report is made for a running CPU, whatever the thread does.

  * `FvSystem.setLevel`, `setCpuFvLevel` -- the two functions that set a level;
  * `Releveled` -- what a loop over some CPUs does to each CPU;
  * `modes_right_iff` -- **exactly the runs in which no CPU in the halt wait gets another level
    report the right modes**.

  A level behind the last one ends the program (`exit (1)`): there is no step.
-/
import Rabbits.Lib.Labelled
import Rabbits.Noc.Vci

namespace Rabbits

open Lib

/-! ## 1. The levels -/

/-- `arm_cpu_fv`: the frequency of each level, and 0 for the idle level behind them. -/
def armCpuFv : List Nat := [25, 50, 100, 150, 200, 250, 300, 0]

/-- `get_cpu_nb_fv_levels`. -/
def getCpuNbFvLevels : Nat := armCpuFv.length - 1

/-- `get_cpu_boot_fv_level`. -/
def getCpuBootFvLevel : Nat := armCpuFv.length - 2

/-- A value of `m_fv_level`. -/
abbrev FvLevel := Fin getCpuNbFvLevels

def FvLevel.boot : FvLevel := ⟨getCpuBootFvLevel, by decide⟩

/-- A value that is a level; `none` is `exit (1)`. -/
def FvLevel.ofVal (val : ULong) : Option FvLevel :=
  if h : val.toNat < getCpuNbFvLevels then some ⟨val.toNat, h⟩ else none

/-! ## 2. The modes -/

def ETRACE_CPU_IDLE : ULong := 0#32
def ETRACE_CPU_RUNNING : ULong := 1#32

/-- `ETRACE_MODE (mode, fvset)`. -/
def ETRACE_MODE (mode fvset : ULong) : ULong := fvset <<< 5 ||| mode

/-- The mode of a CPU that runs, or is idle, at a level. -/
def modeAt (mode : ULong) (level : FvLevel) : ULong := ETRACE_MODE mode (BitVec.ofNat 32 level.val)

theorem modeAt_idle_ne_running (level level' : FvLevel) :
    modeAt ETRACE_CPU_IDLE level ≠ modeAt ETRACE_CPU_RUNNING level' := by
  intro h
  have hbit := congrArg (BitVec.getLsbD · 0) h
  simp [modeAt, ETRACE_MODE, ETRACE_CPU_IDLE, ETRACE_CPU_RUNNING] at hbit

/-- `m_fv_level` of a CPU, and whether its `cpu_thread` is in `wait (m_ev_wakeup)`. -/
structure FvCpu where
  fvLevel : FvLevel
  haltWait : Bool

/-- The CPUs of a wrapper, and the calls of `change_energy_mode` so far. -/
structure FvSystem (ncpu : Nat) where
  cpu : Fin ncpu → FvCpu
  reported : List (Fin ncpu × ULong)

/-- The wrapper after its constructor: `set_etrace_periph_id` has been called for each CPU. -/
def FvSystem.new (ncpu : Nat) : FvSystem ncpu where
  cpu _ := ⟨.boot, false⟩
  reported := (List.finRange ncpu).map fun c => (c, modeAt ETRACE_CPU_RUNNING .boot)

inductive FvEvent (ncpu : Nat) where
  | halt (c : Fin ncpu)
  | wakeup (c : Fin ncpu)
  | setFvLevel (src : Fin ncpu) (cpu : Option (Fin ncpu)) (val : ULong)

variable {ncpu : Nat}

namespace FvSystem

/-- `etrace.change_energy_mode`. -/
def changeEnergyMode (s : FvSystem ncpu) (c : Fin ncpu) (mode : ULong) : FvSystem ncpu :=
  { s with reported := s.reported ++ [(c, mode)] }

def setCpu (s : FvSystem ncpu) (c : Fin ncpu) (x : FvCpu) : FvSystem ncpu :=
  { s with cpu := Function.update s.cpu c x }

/-- `qemu_cpu_wrapper::set_cpu_fv_level`. -/
def setLevel (s : FvSystem ncpu) (val : ULong) (c : Fin ncpu) : Option (FvSystem ncpu) :=
  if val.toNat = (s.cpu c).fvLevel.val then some s
  else (FvLevel.ofVal val).map fun level =>
    (s.setCpu c { s.cpu c with fvLevel := level }).changeEnergyMode c
      (modeAt ETRACE_CPU_RUNNING level)

/-- The loop over some CPUs. -/
def setLevels (val : ULong) : List (Fin ncpu) → FvSystem ncpu → Option (FvSystem ncpu)
  | [], s => some s
  | c :: cs, s => (s.setLevel val c).bind (setLevels val cs)

/-- The CPUs that `cpu` stands for; `none` is `(unsigned long) -1`. -/
def targets : Option (Fin ncpu) → List (Fin ncpu)
  | none => List.finRange ncpu
  | some c => [c]

/-- `qemu_wrapper::set_cpu_fv_level`. -/
def setCpuFvLevel (s : FvSystem ncpu) (cpu : Option (Fin ncpu)) (val : ULong) :
    Option (FvSystem ncpu) :=
  setLevels val (targets cpu) s

/-- `cpu_thread` goes into the halt wait or comes back, or a CPU that runs sets a level. -/
def next (s : FvSystem ncpu) : FvEvent ncpu → Option (FvSystem ncpu)
  | .halt c =>
      if (s.cpu c).haltWait then none
      else some ((s.setCpu c { s.cpu c with haltWait := true }).changeEnergyMode c
        (modeAt ETRACE_CPU_IDLE (s.cpu c).fvLevel))
  | .wakeup c =>
      if (s.cpu c).haltWait then
        some ((s.setCpu c { s.cpu c with haltWait := false }).changeEnergyMode c
          (modeAt ETRACE_CPU_RUNNING (s.cpu c).fvLevel))
      else none
  | .setFvLevel src cpu val => if (s.cpu src).haltWait then none else s.setCpuFvLevel cpu val

/-- The mode last reported for a CPU. -/
def lastReported (s : FvSystem ncpu) (c : Fin ncpu) : Option ULong :=
  (s.reported.reverse.find? fun r => r.1 = c).map Prod.snd

@[simp] theorem cpu_changeEnergyMode (s : FvSystem ncpu) (c : Fin ncpu) (mode : ULong) :
    (s.changeEnergyMode c mode).cpu = s.cpu := rfl

@[simp] theorem cpu_setCpu (s : FvSystem ncpu) (c : Fin ncpu) (x : FvCpu) :
    (s.setCpu c x).cpu = Function.update s.cpu c x := rfl

@[simp] theorem lastReported_setCpu (s : FvSystem ncpu) (c c' : Fin ncpu) (x : FvCpu) :
    (s.setCpu c x).lastReported c' = s.lastReported c' := rfl

@[simp] theorem lastReported_changeEnergyMode (s : FvSystem ncpu) (c c' : Fin ncpu) (mode : ULong) :
    (s.changeEnergyMode c mode).lastReported c' =
      if c = c' then some mode else s.lastReported c' := by
  by_cases h : c = c' <;> simp [lastReported, changeEnergyMode, h]

end FvSystem

/-- The mode last reported for each CPU is the mode it is in. -/
def ModesRight (s : FvSystem ncpu) : Prop :=
  ∀ c, s.lastReported c = some
    (modeAt (if (s.cpu c).haltWait then ETRACE_CPU_IDLE else ETRACE_CPU_RUNNING) (s.cpu c).fvLevel)

/-- A CPU in the halt wait is given no other level than its own. -/
def KeepsHalted (s : FvSystem ncpu) : FvEvent ncpu → Prop
  | .setFvLevel _ cpu val =>
      ∀ c ∈ FvSystem.targets cpu, (s.cpu c).haltWait = true → val.toNat = (s.cpu c).fvLevel.val
  | _ => True

/-! ## 3. Setting levels -/

/-- What a loop that sets the level `val` of the CPUs `cs` does to the CPU `c`. -/
structure Releveled (val : ULong) (cs : List (Fin ncpu)) (s s' : FvSystem ncpu) (c : Fin ncpu) :
    Prop where
  haltWait : (s'.cpu c).haltWait = (s.cpu c).haltWait
  fvLevel : (s'.cpu c).fvLevel.val = if c ∈ cs then val.toNat else (s.cpu c).fvLevel.val
  reported : s'.lastReported c =
    if c ∈ cs ∧ val.toNat ≠ (s.cpu c).fvLevel.val then
      some (modeAt ETRACE_CPU_RUNNING (s'.cpu c).fvLevel)
    else s.lastReported c

variable {val : ULong} {s s' t : FvSystem ncpu}

theorem setLevel_spec {d : Fin ncpu} (h : s.setLevel val d = some s') (c : Fin ncpu) :
    Releveled val [d] s s' c := by
  unfold FvSystem.setLevel at h
  split at h
  · next heq =>
      cases h
      refine ⟨rfl, ?_, ?_⟩
      · split
        · next hc => rw [List.mem_singleton.mp hc, heq]
        · rfl
      · rw [if_neg]
        intro hyp
        rw [List.mem_singleton.mp hyp.1] at hyp
        exact hyp.2 heq
  · next hne =>
      obtain ⟨level, hlevel, rfl⟩ := Option.map_eq_some_iff.mp h
      have hval : level.val = val.toNat := by
        unfold FvLevel.ofVal at hlevel
        split at hlevel
        · cases hlevel
          rfl
        · cases hlevel
      by_cases hc : c = d
      · subst hc
        refine ⟨?_, ?_, ?_⟩ <;> simp [hval, hne]
      · refine ⟨?_, ?_, ?_⟩ <;> simp [hc, Ne.symm hc]

/-- One CPU, then the others. -/
theorem Releveled.cons {d c : Fin ncpu} {cs : List (Fin ncpu)} (h : Releveled val [d] s t c)
    (h' : Releveled val cs t s' c) : Releveled val (d :: cs) s s' c := by
  have hlevel := h.fvLevel
  have hlevel' := h'.fvLevel
  have hlast : (s'.cpu c).fvLevel.val = if c ∈ d :: cs then val.toNat else (s.cpu c).fvLevel.val := by
    rw [hlevel', hlevel]
    by_cases hd : c = d <;> by_cases hc : c ∈ cs <;> simp [hd, hc]
  refine ⟨h'.haltWait.trans h.haltWait, hlast, ?_⟩
  rw [h'.reported, h.reported]
  by_cases hval : val.toNat = (s.cpu c).fvLevel.val
  · -- the level is the one it has: nobody reports
    have ht : val.toNat = (t.cpu c).fvLevel.val := by rw [hlevel, ← hval, ite_self]
    rw [if_neg fun hyp => hyp.2 ht, if_neg fun hyp => hyp.2 hval, if_neg fun hyp => hyp.2 hval]
  · by_cases hd : c = d
    · subst hd
      have ht : val.toNat = (t.cpu c).fvLevel.val := by simp [hlevel]
      have hsame : (t.cpu c).fvLevel = (s'.cpu c).fvLevel := Fin.ext (by simp [← ht, hlast])
      rw [if_neg fun hyp => hyp.2 ht, if_pos ⟨List.mem_singleton_self c, hval⟩,
        if_pos ⟨List.mem_cons_self, hval⟩, hsame]
    · have ht : (t.cpu c).fvLevel.val = (s.cpu c).fvLevel.val := by simp [hlevel, hd]
      simp [ht, hval, hd]

theorem setLevels_spec {cs : List (Fin ncpu)} (h : FvSystem.setLevels val cs s = some s')
    (c : Fin ncpu) : Releveled val cs s s' c := by
  induction cs generalizing s with
  | nil =>
      cases h
      exact ⟨rfl, by simp, by simp⟩
  | cons d cs ih =>
      obtain ⟨t, ht, hs⟩ := Option.bind_eq_some_iff.mp h
      exact (setLevel_spec ht c).cons (ih hs)

/-! ## 4. Runs -/

theorem modesRight_new (ncpu : Nat) : ModesRight (FvSystem.new ncpu) := by
  intro c
  have hfind : ((FvSystem.new ncpu).reported.reverse.find? fun r => r.1 = c) =
      some (c, modeAt ETRACE_CPU_RUNNING .boot) := by
    obtain ⟨r, hr⟩ : ∃ r, ((FvSystem.new ncpu).reported.reverse.find? fun r => r.1 = c) = some r := by
      rw [← Option.isSome_iff_exists, List.find?_isSome]
      exact ⟨(c, modeAt ETRACE_CPU_RUNNING .boot), by simp [FvSystem.new], by simp⟩
    have hmem := List.mem_of_find?_eq_some hr
    have hfst : r.1 = c := by simpa using List.find?_some hr
    obtain ⟨d, -, rfl⟩ : ∃ d ∈ List.finRange ncpu, (d, modeAt ETRACE_CPU_RUNNING .boot) = r := by
      simpa [FvSystem.new] using hmem
    rw [hr, ← hfst]
  simp only [FvSystem.lastReported, hfind]
  rfl

/-- The levels of CPUs that run are reported as they are. -/
theorem ModesRight.releveled {cs : List (Fin ncpu)} (h : ModesRight s)
    (hset : ∀ c, Releveled val cs s s' c)
    (hhalt : ∀ c ∈ cs, (s.cpu c).haltWait = true → val.toNat = (s.cpu c).fvLevel.val) :
    ModesRight s' := by
  intro c
  have hlevel := (hset c).fvLevel
  rw [(hset c).reported, (hset c).haltWait]
  split
  · next hyp =>
      have hrun : (s.cpu c).haltWait = false := by
        by_contra hw
        exact hyp.2 (hhalt c hyp.1 (by simpa using hw))
      simp [hrun]
  · next hyp =>
      have hsame : (s'.cpu c).fvLevel = (s.cpu c).fvLevel := by
        apply Fin.ext
        rw [hlevel]
        split
        · next hc => exact Classical.byContradiction fun hne => hyp ⟨hc, hne⟩
        · rfl
      rw [h c, hsame]

/-- A CPU's own thread reports the mode it goes into. -/
theorem ModesRight.thread {c : Fin ncpu} {w : Bool} (h : ModesRight s) :
    ModesRight ((s.setCpu c { s.cpu c with haltWait := w }).changeEnergyMode c
      (modeAt (if w then ETRACE_CPU_IDLE else ETRACE_CPU_RUNNING) (s.cpu c).fvLevel)) := by
  intro c'
  by_cases hc : c = c'
  · subst hc
    simp
  · simp [hc, Ne.symm hc, h c']

theorem modesRight_next {e : FvEvent ncpu} (h : ModesRight s) (he : KeepsHalted s e)
    (hs : s.next e = some s') : ModesRight s' := by
  cases e with
  | halt c =>
      simp only [FvSystem.next] at hs
      split at hs
      · cases hs
      · cases hs
        exact h.thread (w := true)
  | wakeup c =>
      simp only [FvSystem.next] at hs
      split at hs
      · cases hs
        exact h.thread (w := false)
      · cases hs
  | setFvLevel src cpu val =>
      simp only [FvSystem.next] at hs
      split at hs
      · cases hs
      · exact h.releveled (setLevels_spec hs) he

/-- A level set for a CPU in the halt wait is reported as one of a running CPU. -/
theorem not_modesRight {e : FvEvent ncpu} (he : ¬ KeepsHalted s e) (hs : s.next e = some s') :
    ¬ ModesRight s' := by
  cases e with
  | halt c => exact absurd trivial he
  | wakeup c => exact absurd trivial he
  | setFvLevel src cpu val =>
      simp only [FvSystem.next] at hs
      split at hs
      · cases hs
      · obtain ⟨c, hc, hw, hne⟩ : ∃ c ∈ FvSystem.targets cpu, (s.cpu c).haltWait = true ∧
            val.toNat ≠ (s.cpu c).fvLevel.val := by
          simpa [KeepsHalted] using he
        have hset := setLevels_spec hs c
        intro h
        have hmode := h c
        rw [hset.reported, if_pos ⟨hc, hne⟩, hset.haltWait, hw, if_pos rfl] at hmode
        exact modeAt_idle_ne_running _ _ (Option.some.inj hmode).symm

/-- **When the modes reported are right**: for any number of CPUs, all along a run, exactly if no
    CPU in the halt wait is given another level. -/
theorem modes_right_iff (es : List (FvEvent ncpu)) :
    Along FvSystem.next ModesRight (.new ncpu) es ↔ Steps FvSystem.next KeepsHalted (.new ncpu) es :=
  along_iff_steps (fun _ h => h) (fun _ _ _ h he hs => modesRight_next h he hs)
    (fun _ _ _ _ he hs => not_modesRight he hs) es (modesRight_new ncpu)

/-- CPU 1 halts, and CPU 0 slows it down: it is reported to run. -/
theorem level_of_halted_reported :
    ¬ Along FvSystem.next ModesRight (.new 2) [.halt 1, .setFvLevel 0 (some 1) 0#32] := by
  intro h
  have hlast := ((h.2 _ rfl).2 _ rfl) 1
  exact absurd hlast (by decide)

end Rabbits
