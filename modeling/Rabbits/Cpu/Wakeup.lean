/-
  File:      Rabbits/Cpu/Wakeup.lean
  Subject:   The halt wait of the CPUs and the calls that end it (qemu_wrapper.cpp:
             interrupts_thread, generate_swi, set_int_enable, qemu_cpu_wrapper.cpp: cpu_thread,
             wakeup).

  A CPU thread that has left QEMU with EXCP_HLT or EXCP_HALTED waits for `m_ev_wakeup`, without a
  look at the interrupt level of its CPU. The notification is immediate: it reaches a thread that
  waits, and is lost on any other.

  * `HaltSystem.next` -- the operations of the wrapper, with the CPUs that sleep;
  * `levelFrom_raised` -- a level that rises has been passed as 1;
  * `RaisesWake`, `NoneAsleepAtOne` -- the two properties, of a step and of a state;
  * `raises_wake_iff` -- **exactly the runs in which no write to the enable register raises a level,
    and no CPU halts at level 1, have them all along**.
-/
import Rabbits.Cpu.Interrupts
import Rabbits.Lib.Labelled

namespace Rabbits

open Lib

variable {ncpu : Nat}

/-! ## 1. The model -/

/-- The wrapper with its lines, and the CPUs whose thread waits for `m_ev_wakeup`. -/
structure HaltSystem (ncpu : Nat) where
  irq : IrqState ncpu
  asleep : Fin ncpu → Bool

/-- The operations of the wrapper, `systemc_qemu_wakeup`, and the return of `qemu_cpu_loop` with
    EXCP_HLT or EXCP_HALTED. -/
inductive HaltEvent (ncpu : Nat) where
  | edges (lines : Nat → Bool)
  | setIntEnable (val : ULong)
  | generateSwi (cpuMask swi : ULong)
  | swiAck (cpu : Fin ncpu) (swiMask : ULong)
  | qemuWakeup (cpu : Fin ncpu)
  | halt (cpu : Fin ncpu)

namespace HaltSystem

def new (ncpu : Nat) : HaltSystem ncpu := ⟨⟨.new ncpu, fun _ => false⟩, fun _ => false⟩

/-- The calls that `q'` has made since `q`. -/
def callsSince (q q' : QemuWrapper ncpu) : List (QemuCall ncpu) := q'.calls.drop q.calls.length

/-- `wakeup` has been called for the CPU. -/
def woken (calls : List (QemuCall ncpu)) (cpu : Fin ncpu) : Bool :=
  calls.any fun c => match c with
    | .irqUpdate _ _ => false
    | .wakeup cpu' => cpu' = cpu

/-- The wrapper after an operation, which wakes those for whom it calls `wakeup`. -/
def after (s : HaltSystem ncpu) (q : QemuWrapper ncpu) (lines : Nat → Bool) : HaltSystem ncpu where
  irq := ⟨q, lines⟩
  asleep cpu := s.asleep cpu && !woken (callsSince s.irq.wrapper q) cpu

def next (w : IrqWiring) (s : HaltSystem ncpu) : HaltEvent ncpu → Option (HaltSystem ncpu)
  | .edges lines =>
      some (s.after (s.irq.wrapper.interruptsThread w fun i => edgeOf (s.irq.lines i) (lines i)) lines)
  | .setIntEnable val => some (s.after (s.irq.wrapper.setIntEnable val) s.irq.lines)
  | .generateSwi cpuMask swi =>
      if swi = 0#32 then none
      else some (s.after (s.irq.wrapper.generateSwi cpuMask swi) s.irq.lines)
  | .swiAck cpu swiMask => some (s.after (s.irq.wrapper.swiAck cpu swiMask) s.irq.lines)
  | .qemuWakeup cpu => some { s with asleep := Function.update s.asleep cpu false }
  | .halt cpu =>
      if s.asleep cpu then none else some { s with asleep := Function.update s.asleep cpu true }

end HaltSystem

/-- Wherever the level of a CPU goes from 0 to 1, the same step calls `wakeup` for it. -/
def RaisesWake (w : IrqWiring) (s : HaltSystem ncpu) (e : HaltEvent ncpu) : Prop :=
  ∀ s', s.next w e = some s' → ∀ cpu, s.irq.wrapper.level cpu = false →
    s'.irq.wrapper.level cpu = true →
    HaltSystem.woken (HaltSystem.callsSince s.irq.wrapper s'.irq.wrapper) cpu = true

/-- No CPU sleeps at level 1. -/
def NoneAsleepAtOne (s : HaltSystem ncpu) : Prop :=
  ∀ cpu, s.asleep cpu = true → s.irq.wrapper.level cpu = false

/-- A write to the enable register enables no raised line of a CPU that has nothing pending, and a
    CPU halts at level 0. -/
def QuietHalt (s : HaltSystem ncpu) : HaltEvent ncpu → Prop
  | .setIntEnable val => ∀ cpu, s.irq.wrapper.cpuInterruptsStatus cpu = 0#32 →
      s.irq.wrapper.swi cpu = 0#32 → s.irq.wrapper.cpuInterruptsRawStatus cpu &&& val = 0#32
  | .halt cpu => s.irq.wrapper.level cpu = false
  | _ => True

/-! ## 2. Levels that rise -/

theorem woken_iff {calls : List (QemuCall ncpu)} {cpu : Fin ncpu} :
    HaltSystem.woken calls cpu = true ↔ .wakeup cpu ∈ calls := by
  unfold HaltSystem.woken
  rw [List.any_eq_true]
  constructor
  · intro hyp
    obtain ⟨c, hc, hcpu⟩ := hyp
    cases c with
    | irqUpdate cpu' level => cases hcpu
    | wakeup cpu' => exact of_decide_eq_true hcpu ▸ hc
  · intro h
    exact ⟨_, h, decide_eq_true rfl⟩

/-- A level that rises has been passed as 1. -/
theorem levelFrom_raised {cpu : Fin ncpu} {calls : List (QemuCall ncpu)}
    (h : levelFrom cpu false calls = true) : .irqUpdate cpu true ∈ calls := by
  induction calls using List.reverseRecOn with
  | nil => cases h
  | append_singleton calls c ih =>
      rw [levelFrom_append] at h
      cases c with
      | wakeup cpu' => exact List.mem_append_left _ (ih h)
      | irqUpdate cpu' level =>
          by_cases hcpu : cpu' = cpu
          · subst hcpu
            rw [levelFrom_irqUpdate, levelFrom_nil] at h
            subst h
            exact List.mem_append_right _ List.mem_cons_self
          · refine List.mem_append_left _ (ih ?_)
            rwa [levelFrom_other hcpu] at h
            simp [QemuCall.isFor]

/-- Whoever is told of level 1 is woken. -/
def WakesRaised (calls : List (QemuCall ncpu)) : Prop :=
  ∀ cpu, .irqUpdate cpu true ∈ calls → .wakeup cpu ∈ calls

/-- A loop over the CPUs, each turn with calls for its own CPU. -/
theorem wakesRaised_flatMap {f : Fin ncpu → List (QemuCall ncpu)} (hf : ∀ i, WakesRaised (f i)) :
    WakesRaised ((List.finRange ncpu).flatMap f) := by
  intro cpu h
  obtain ⟨i, hi, hc⟩ := List.mem_flatMap.mp h
  exact List.mem_flatMap.mpr ⟨i, hi, hf i cpu hc⟩

theorem wakesRaised_update (c : CpuScan) (swi : ULong) (cpu : Fin ncpu) :
    WakesRaised (c.update swi cpu) := by
  intro i h
  unfold CpuScan.update at h ⊢
  split
  · next hup =>
      rw [if_pos hup] at h
      simpa using h
  · next hup =>
      rw [if_neg hup] at h
      split at h <;> simp at h

/-! ## 3. One operation -/

variable {w : IrqWiring} {s s' : HaltSystem ncpu}

/-- An operation of the wrapper, with the calls it makes. -/
structure Operated (w : IrqWiring) (s s' : HaltSystem ncpu) (made : List (QemuCall ncpu)) :
    Prop where
  step : IrqStep w s.irq s'.irq
  calls : s'.irq.wrapper.calls = s.irq.wrapper.calls ++ made
  asleep : ∀ cpu, s'.asleep cpu = (s.asleep cpu && !HaltSystem.woken made cpu)

theorem operated_after {q : QemuWrapper ncpu} {lines : Nat → Bool} {calls : List (QemuCall ncpu)}
    (hs : IrqStep w s.irq ⟨q, lines⟩) (hc : q.calls = s.irq.wrapper.calls ++ calls) :
    Operated w s (s.after q lines) calls := by
  refine ⟨hs, hc, fun cpu => ?_⟩
  have hsince : HaltSystem.callsSince s.irq.wrapper q = calls := by
    rw [HaltSystem.callsSince, hc, List.drop_left]
  rw [HaltSystem.after, hsince]

theorem operated_edges (w : IrqWiring) (s : HaltSystem ncpu) (lines : Nat → Bool) :
    ∃ calls, WakesRaised calls ∧ Operated w s (s.after (s.irq.wrapper.interruptsThread w fun i =>
      edgeOf (s.irq.lines i) (lines i)) lines) calls :=
  ⟨_, wakesRaised_flatMap fun _ => wakesRaised_update _ _ _, operated_after (.edges _ _) rfl⟩

theorem operated_generateSwi (w : IrqWiring) (s : HaltSystem ncpu) (cpuMask : ULong) {swi : ULong}
    (hswi : swi ≠ 0#32) : ∃ calls, WakesRaised calls ∧
      Operated w s (s.after (s.irq.wrapper.generateSwi cpuMask swi) s.irq.lines) calls := by
  refine ⟨_, wakesRaised_flatMap fun i cpu h => ?_, operated_after (.generateSwi _ _ _ hswi) rfl⟩
  split
  · next hhit =>
      rw [if_pos hhit] at h
      simpa using h
  · next hhit =>
      rw [if_neg hhit] at h
      cases h

theorem operated_swiAck (w : IrqWiring) (s : HaltSystem ncpu) (cpu : Fin ncpu) (swiMask : ULong) :
    ∃ calls, WakesRaised calls ∧
      Operated w s (s.after (s.irq.wrapper.swiAck cpu swiMask) s.irq.lines) calls := by
  have hstep := IrqStep.swiAck (w := w) s.irq cpu swiMask
  by_cases h0 : s.irq.wrapper.swi cpu == 0#32
  · refine ⟨[], fun i h => (by cases h), operated_after hstep ?_⟩
    rw [QemuWrapper.swiAck, if_pos h0, List.append_nil]
  · refine ⟨_, fun i h => ?_, operated_after hstep (by rw [QemuWrapper.swiAck, if_neg h0])⟩
    split at h <;> simp at h

theorem operated_setIntEnable (w : IrqWiring) (s : HaltSystem ncpu) (val : ULong) :
    ∃ calls, (∀ cpu, .wakeup cpu ∉ calls) ∧ (QuietHalt s (.setIntEnable val) → WakesRaised calls) ∧
      Operated w s (s.after (s.irq.wrapper.setIntEnable val) s.irq.lines) calls := by
  refine ⟨_, fun cpu h => ?_, fun hq => wakesRaised_flatMap fun i cpu h => ?_,
    operated_after (.setIntEnable _ _) rfl⟩
  · obtain ⟨i, -, hi⟩ := List.mem_flatMap.mp h
    dsimp only at hi
    split at hi
    · simp at hi
    · split at hi <;> simp at hi
  · dsimp only at h
    split at h
    · next hup =>
        simp only [Bool.and_eq_true, beq_iff_eq, bne_iff_ne] at hup
        exact absurd (hq i hup.1.1 hup.2) hup.1.2
    · split at h <;> simp at h

/-- A level that the operation raises is passed as 1. -/
theorem Operated.raised {calls : List (QemuCall ncpu)} (h : Operated w s s' calls) {cpu : Fin ncpu}
    (h0 : s.irq.wrapper.level cpu = false) (h1 : s'.irq.wrapper.level cpu = true) :
    .irqUpdate cpu true ∈ calls := by
  rw [QemuWrapper.level, h.calls, levelFrom_append] at h1
  rw [QemuWrapper.level] at h0
  rw [h0] at h1
  exact levelFrom_raised h1

/-- Whoever sleeps after the operation has slept before, and has not been woken. -/
theorem Operated.noneAsleep {calls : List (QemuCall ncpu)} (h : Operated w s s' calls)
    (hwakes : WakesRaised calls) (hs : NoneAsleepAtOne s) : NoneAsleepAtOne s' := by
  intro cpu hsleep
  rw [h.asleep, Bool.and_eq_true, Bool.not_eq_true'] at hsleep
  by_contra h1
  have hwoken := woken_iff.mpr (hwakes cpu (h.raised (hs cpu hsleep.1) (by simpa using h1)))
  rw [hsleep.2] at hwoken
  cases hwoken

theorem Operated.wakes {calls : List (QemuCall ncpu)} (h : Operated w s s' calls)
    (hwakes : WakesRaised calls) {cpu : Fin ncpu} (h0 : s.irq.wrapper.level cpu = false)
    (h1 : s'.irq.wrapper.level cpu = true) :
    HaltSystem.woken (HaltSystem.callsSince s.irq.wrapper s'.irq.wrapper) cpu = true := by
  rw [HaltSystem.callsSince, h.calls, List.drop_left]
  exact woken_iff.mpr (hwakes cpu (h.raised h0 h1))

/-! ## 4. Runs -/

/-- The interrupt state is right, and no CPU sleeps at level 1. -/
structure WakeInv (w : IrqWiring) (s : HaltSystem ncpu) : Prop where
  irq : ∀ cpu, IrqInv w s.irq cpu
  asleep : NoneAsleepAtOne s

/-- A CPU whose level rises from `s` to `s'` has been woken in between. -/
def RaisedWoken (s s' : HaltSystem ncpu) : Prop :=
  ∀ cpu, s.irq.wrapper.level cpu = false → s'.irq.wrapper.level cpu = true →
    HaltSystem.woken (HaltSystem.callsSince s.irq.wrapper s'.irq.wrapper) cpu = true

theorem WakeInv.operated {calls : List (QemuCall ncpu)} (h : WakeInv w s)
    (hop : Operated w s s' calls) (hwakes : WakesRaised calls) :
    RaisedWoken s s' ∧ WakeInv w s' :=
  ⟨fun _ => hop.wakes hwakes, fun cpu => irqInv_step (h.irq cpu) hop.step,
    hop.noneAsleep hwakes h.asleep⟩

/-- A CPU falls asleep at level 0, or comes back: no level changes. -/
theorem WakeInv.setAsleep {cpu : Fin ncpu} {b : Bool} (h : WakeInv w s)
    (hb : b = true → s.irq.wrapper.level cpu = false) :
    RaisedWoken s { s with asleep := Function.update s.asleep cpu b } ∧
      WakeInv w { s with asleep := Function.update s.asleep cpu b } := by
  refine ⟨fun c h0 h1 => ?_, h.irq, fun c hc => ?_⟩
  · rw [h0] at h1
    cases h1
  · by_cases hcpu : c = cpu
    · subst hcpu
      simp only [Function.update_self] at hc
      exact hb hc
    · simp only [Function.update_of_ne hcpu] at hc
      exact h.asleep c hc

/-- **Every step that meets the condition** wakes those it raises, and keeps the invariant. -/
theorem WakeInv.next_kept {e : HaltEvent ncpu} (h : WakeInv w s) (he : QuietHalt s e)
    (hs : s.next w e = some s') : RaisedWoken s s' ∧ WakeInv w s' := by
  cases e with
  | edges lines =>
      cases hs
      obtain ⟨calls, hwakes, hop⟩ := operated_edges w s lines
      exact h.operated hop hwakes
  | setIntEnable val =>
      cases hs
      obtain ⟨calls, -, hwakes, hop⟩ := operated_setIntEnable w s val
      exact h.operated hop (hwakes he)
  | generateSwi cpuMask swi =>
      simp only [HaltSystem.next] at hs
      split at hs
      · cases hs
      · next hswi =>
          cases hs
          obtain ⟨calls, hwakes, hop⟩ := operated_generateSwi w s cpuMask hswi
          exact h.operated hop hwakes
  | swiAck cpu swiMask =>
      cases hs
      obtain ⟨calls, hwakes, hop⟩ := operated_swiAck w s cpu swiMask
      exact h.operated hop hwakes
  | qemuWakeup cpu =>
      cases hs
      exact h.setAsleep fun hb => by cases hb
  | halt cpu =>
      simp only [HaltSystem.next] at hs
      split at hs
      · cases hs
      · cases hs
        exact h.setAsleep fun _ => he

/-- A write that enables the first raised line of a CPU raises its level, and wakes nobody. -/
theorem WakeInv.enable_raises {val : ULong} (h : WakeInv w s)
    (he : ¬ QuietHalt s (.setIntEnable val)) : ¬ RaisesWake w s (.setIntEnable val) := by
  simp only [QuietHalt, not_forall] at he
  obtain ⟨cpu, hstatus, hswi, hraw⟩ := he
  obtain ⟨calls, hnone, -, hop⟩ := operated_setIntEnable w s val
  intro hR
  have h0 : s.irq.wrapper.level cpu = false := by
    have hlevel := (h.irq cpu).level.not
    simpa [hstatus, hswi] using hlevel
  have h1 := ((irqInv_setIntEnable (h.irq cpu) val).level).mpr (.inl hraw)
  have hwoken := hR _ rfl cpu h0 h1
  rw [HaltSystem.callsSince, hop.calls, List.drop_left] at hwoken
  exact hnone cpu (woken_iff.mp hwoken)

theorem WakeInv.not_kept {e : HaltEvent ncpu} (h : WakeInv w s) (he : ¬ QuietHalt s e)
    (hs : s.next w e = some s') : ¬ (RaisesWake w s e ∧ NoneAsleepAtOne s') := by
  cases e with
  | setIntEnable val => exact fun hyp => h.enable_raises he hyp.1
  | halt cpu =>
      simp only [HaltSystem.next] at hs
      split at hs
      · cases hs
      · cases hs
        intro hyp
        exact he (hyp.2 cpu (Function.update_self _ _ _))
  | edges lines => exact absurd trivial he
  | generateSwi cpuMask swi => exact absurd trivial he
  | swiAck cpu swiMask => exact absurd trivial he
  | qemuWakeup cpu => exact absurd trivial he

theorem wakeInv_new (w : IrqWiring) (ncpu : Nat) : WakeInv w (.new ncpu) :=
  ⟨fun cpu => irqInv_reach (.start rfl) cpu, fun _ h => by cases h⟩

/-- **When a raised level always wakes its CPU**: in all runs, each step that raises a level wakes
    its CPU and no CPU ever sleeps at level 1, exactly if every step meets the condition. -/
theorem raises_wake_iff (w : IrqWiring) (es : List (HaltEvent ncpu)) :
    Steps (HaltSystem.next w) (RaisesWake w) (.new ncpu) es ∧
        Along (HaltSystem.next w) NoneAsleepAtOne (.new ncpu) es ↔
      Steps (HaltSystem.next w) QuietHalt (.new ncpu) es := by
  refine along_and_steps_iff (I := WakeInv w) (fun _ h => h.asleep) ?_ ?_ es (wakeInv_new w ncpu)
  · intro s e s' h he hs
    obtain ⟨hwakes, hinv⟩ := h.next_kept he hs
    refine ⟨fun t ht => ?_, hinv⟩
    cases hs.symm.trans ht
    exact hwakes
  · exact fun s e s' h he hs => h.not_kept he hs

/-- Line 0 rises while it is disabled, the CPU halts, and another CPU enables the line. -/
theorem late_enable_sleeps :
    let w : IrqWiring := ⟨1, fun _ => 1#32, by decide⟩
    ¬ Along (HaltSystem.next w) NoneAsleepAtOne (.new 2)
      [.edges (· == 0), .halt 0, .setIntEnable 1#32] := by
  intro w h
  have hlast := (((h.2 _ rfl).2 _ rfl).2 _ rfl) 0
  exact absurd hlast (by decide)

end Rabbits
