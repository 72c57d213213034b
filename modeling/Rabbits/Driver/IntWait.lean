/-
  File:      Rabbits/Driver/IntWait.lean
  Subject:   The wait for an interrupt in the two Linux drivers (rabbitsfb_int.c, h264dbf_int.c:
             int_wait against int_service), one read, write, sleep or wake-up at a time.

  The wait looks at `pending`, enters the wait queue, sleeps, and in the end takes what is pending;
  the service routine adds to `pending` and wakes the queue. `irq_lock` is taken by the wait only,
  so the service routine may come in anywhere.

  * `IntWait.next` -- the steps of one process in the wait and of the service routine;
  * `Sound` -- nobody sleeps on a pending interrupt, and none is taken twice;
  * `sound_of_unraced` -- **so it is in every run in which no wake-up falls between the look at
    `pending` and the entry into the queue, and no end of a wait between the read and the write of
    `pending |= stat`**;
  * `sleeps_of_lost_wake` -- after a wake-up of the first kind the process sleeps.

  The two drivers differ in the status register and in the number of descriptors.
  `PARANOIA_CHECK` is not defined.
-/
import Rabbits.Driver.H264Dbf
import Rabbits.Lib.Labelled
import Rabbits.Lib.Since

namespace Rabbits

open Lib

/-! ## 1. The drivers -/

inductive IntDriver where
  | rabbitsfb
  | h264dbf
  deriving DecidableEq

def RABBITSFB_MAXIRQ : Nat := 1

def IntDriver.maxIrq : IntDriver → Nat
  | rabbitsfb => RABBITSFB_MAXIRQ
  | h264dbf => H264DBF_MAXIRQ

/-- The head of the service routine: the status it hands out, if the interrupt is its own.
    `rabbitsfb` reads a word, `h264dbf` a byte. -/
def IntDriver.status : IntDriver → BitVec 32 → Option (BitVec 32)
  | rabbitsfb, status => if status &&& 1#32 = 0#32 then none else some (status &&& 1#32)
  | h264dbf, status =>
      let status := (status.setWidth 8).setWidth 32
      if status ≤ 0x80#32 then none else some (status &&& 0x7F#32)

/-- `struct rabbitsfb_int`, `struct h264dbf_int`, without the wait queue. -/
structure IntDesc where
  type : BitVec 32
  status : BitVec 32
  pending : BitVec 32

/-! ## 2. The wait and the service routine -/

/-- Where the process is in `int_wait`: before the test of `pending`, `prepare_to_wait`, `schedule`,
    in its sleep, before `finish_wait`, the read of `pending` and the write that clears it. -/
inductive WaitPc where
  | out
  | test
  | prepare
  | schedule
  | sleep
  | finish
  | take
  | clear (taken : BitVec 32)
  deriving DecidableEq

/-- Where the service routine is: at the head of its loop, before the test of `pending`, the read
    and the write of `pending |= stat`, and before the wake-up. -/
inductive ServicePc where
  | out
  | scan (i : Nat) (status : BitVec 32)
  | test (i : Nat) (status stat : BitVec 32)
  | load (i : Nat) (status stat : BitVec 32)
  | store (i : Nat) (status stat pending : BitVec 32)
  | wake (i : Nat) (status stat : BitVec 32)
  deriving DecidableEq

/-- Bits that `pending |= stat` added, bits that a wait took. -/
inductive IntEvent where
  | delivered (i : Nat) (bits : BitVec 32)
  | consumed (i : Nat) (bits : BitVec 32)

/-- The descriptors, the process with the locals of its wait, whether it is in the queue of its
    descriptor and `TASK_INTERRUPTIBLE`, the service routine, and what has happened so far. -/
structure IntWait where
  nbIrqEn : Int
  irqs : Nat → IntDesc
  pc : WaitPc
  irqId : Nat
  irqType : BitVec 32
  waitTime : BitVec 32
  queued : Bool
  interruptible : Bool
  service : ServicePc
  history : List IntEvent

namespace IntWait

/-- Any descriptors, with nothing pending. -/
def start (nbIrqEn : Int) (irqs : Nat → IntDesc) : IntWait where
  nbIrqEn := nbIrqEn
  irqs i := { irqs i with pending := 0#32 }
  pc := .out
  irqId := 0
  irqType := 0#32
  waitTime := 0#32
  queued := false
  interruptible := false
  service := .out
  history := []

/-- The bits of its type that the process could take. -/
def awaited (s : IntWait) : BitVec 32 := (s.irqs s.irqId).pending &&& s.irqType

def setPending (s : IntWait) (i : Nat) (pending : BitVec 32) : IntWait :=
  { s with irqs := Function.update s.irqs i { s.irqs i with pending := pending } }

def setStatus (s : IntWait) (i : Nat) (status : BitVec 32) : IntWait :=
  { s with irqs := Function.update s.irqs i { s.irqs i with status := status } }

/-- `wake_up_interruptible`: a process that is woken leaves the queue. -/
def wakeUp (s : IntWait) (i : Nat) : IntWait :=
  if s.queued ∧ s.interruptible ∧ s.irqId = i then
    { s with queued := false, interruptible := false }
  else s

/-- The next step of the process. `schedule` sleeps only in `TASK_INTERRUPTIBLE`, and the sleep ends
    when that is over. -/
def procStep (s : IntWait) : Option IntWait :=
  match s.pc with
  | .out => none
  | .test =>
      if s.waitTime ≠ 0#32 ∧ s.awaited = 0#32 then some { s with pc := .prepare }
      else some { s with pc := .take }
  | .prepare => some { s with queued := true, interruptible := true, pc := .schedule }
  | .schedule =>
      if s.interruptible then some { s with pc := .sleep } else some { s with pc := .finish }
  | .sleep => if s.interruptible then none else some { s with pc := .finish }
  | .finish => some { s with queued := false, interruptible := false, pc := .take }
  | .take =>
      some
        { s with
          pc := .clear (s.irqs s.irqId).pending
          history := s.history ++ [.consumed s.irqId (s.irqs s.irqId).pending] }
  | .clear _ => some { s.setPending s.irqId 0#32 with pc := .out }

/-- `status &= ~stat`, and the loop goes on with the next descriptor unless nothing is left. -/
def scanNext (i : Nat) (status : BitVec 32) : ServicePc :=
  if status = 0#32 then .out else .scan (i + 1) status

/-- The next step of the service routine. -/
def serviceStep (s : IntWait) : Option IntWait :=
  match s.service with
  | .out => none
  | .scan i status =>
      if (i : Int) < s.nbIrqEn then
        let stat := status &&& (s.irqs i).type
        if stat ≠ 0#32 then some { s with service := .test i status stat }
        else some { s with service := scanNext i status }
      else some { s with service := .out }
  | .test i status stat =>
      if stat &&& (s.irqs i).pending ≠ 0#32 then
        some { s.setStatus i STATUS_IRQ_OVERFLOW with service := .wake i status stat }
      else some { s.setStatus i STATUS_IRQ_QUEUED with service := .load i status stat }
  | .load i status stat => some { s with service := .store i status stat (s.irqs i).pending }
  | .store i status stat pending =>
      some
        { s.setPending i (pending ||| stat) with
          service := .wake i status stat
          history := s.history ++ [.delivered i stat] }
  | .wake i status stat => some { s.wakeUp i with service := scanNext i (status &&& ~~~stat) }

/-- A call of the wait, a step of the process, a signal to it (one that is pending at `schedule`
    comes right before it), an interrupt with the status register's value, a step of the service
    routine. -/
inductive Label where
  | call (id type timeout : BitVec 32)
  | proc
  | signal
  | irq (status : BitVec 32)
  | service

/-- The steps. The service routine does not interrupt itself. -/
def next (drv : IntDriver) (s : IntWait) : Label → Option IntWait
  | .call id type timeout =>
      if s.pc ≠ .out then none
      else if id.toNat > drv.maxIrq then some s
      else some { s with pc := .test, irqId := id.toNat, irqType := type, waitTime := timeout }
  | .proc => s.procStep
  | .signal => some { s with interruptible := false }
  | .irq status =>
      if s.service ≠ .out then none
      else
        match drv.status status with
        | none => some s
        | some status => some { s with service := .scan 0 status }
  | .service => s.serviceStep

/-! ## 3. What is to hold -/

def Asleep (s : IntWait) : Prop := s.pc = .sleep ∧ s.interruptible = true

/-- The service routine, going on alone, comes to a wake-up of the process's descriptor. -/
def WakeComing (drv : IntDriver) (s : IntWait) : Prop :=
  ∃ n t status stat, exec (next drv) s (List.replicate n .service) = some t ∧
    t.service = .wake s.irqId status stat

def Delivers (i b : Nat) (_ : List IntEvent) (e : IntEvent) : Prop :=
  ∃ bits, e = .delivered i bits ∧ bits.getLsbD b = true

def Consumes (i b : Nat) (_ : List IntEvent) (e : IntEvent) : Prop :=
  ∃ bits, e = .consumed i bits ∧ bits.getLsbD b = true

/-- The bit has been delivered and not been taken since. -/
def Fresh (i b : Nat) (h : List IntEvent) : Prop := Since (Delivers i b) (Consumes i b) h

/-- A bit that a wait has taken had been delivered since it was last taken. -/
def TakenOnce (h : List IntEvent) : Prop :=
  ∀ pre i bits post, h = pre ++ .consumed i bits :: post →
    ∀ b, bits.getLsbD b = true → Fresh i b pre

/-- A process asleep with an interrupt pending will be woken, and no interrupt is taken twice. -/
structure Sound (drv : IntDriver) (s : IntWait) : Prop where
  awake : s.Asleep → s.awaited ≠ 0#32 → WakeComing drv s
  once : TakenOnce s.history

/-- No wake-up between the look at `pending` and the entry into the queue with an interrupt
    pending, and no end of a wait between the read and the write of `pending |= stat`, with bits
    read. -/
def Unraced (s : IntWait) : Label → Prop
  | .service => ∀ status stat, s.service = .wake s.irqId status stat → s.pc = .prepare →
      s.awaited = 0#32
  | .proc => ∀ taken status stat pending, s.pc = .clear taken →
      s.service = .store s.irqId status stat pending → pending = 0#32
  | _ => True

/-! ## 4. The invariant -/

variable {drv : IntDriver} {s s' : IntWait}

/-- The process has looked at `pending` and is on its way into its sleep, or asleep. -/
def Falling (s : IntWait) : Prop :=
  s.pc = .prepare ∨ ((s.pc = .schedule ∨ s.pc = .sleep) ∧ s.interruptible = true)

/-- The bit is in `pending`, or in what the service routine is about to write there. -/
def Holds (s : IntWait) (i b : Nat) : Prop :=
  (s.irqs i).pending.getLsbD b = true ∨
    ∃ status stat pending, s.service = .store i status stat pending ∧ pending.getLsbD b = true

/-- The process has taken what is pending and not cleared it yet. -/
def Clearing (s : IntWait) (i : Nat) : Prop := s.irqId = i ∧ ∃ taken, s.pc = .clear taken

/-- What every state of an unraced run keeps. -/
structure Inv (s : IntWait) : Prop where
  queued : (s.pc = .schedule ∨ s.pc = .sleep) → s.interruptible = true → s.queued = true
  waking : s.Falling → s.awaited ≠ 0#32 → ∃ status stat, s.service = .wake s.irqId status stat
  fresh : ∀ i b, s.Holds i b → Fresh i b s.history ∨ s.Clearing i
  once : TakenOnce s.history

/-- The process is not on its way into its sleep. -/
structure Up (s : IntWait) : Prop where
  prepare : s.pc ≠ .prepare
  schedule : s.pc ≠ .schedule
  sleep : s.pc ≠ .sleep

theorem Up.not_falling (h : s.Up) : ¬ s.Falling := fun hf =>
  hf.elim h.prepare fun hf => hf.1.elim h.schedule h.sleep

theorem Up.not_sleeping (h : s.Up) : ¬ (s.pc = .schedule ∨ s.pc = .sleep) := fun hp =>
  hp.elim h.schedule h.sleep

theorem inv_start (nbIrqEn : Int) (irqs : Nat → IntDesc) : (start nbIrqEn irqs).Inv := by
  have hup : (start nbIrqEn irqs).Up := ⟨by simp [start], by simp [start], by simp [start]⟩
  refine ⟨fun hp => absurd hp hup.not_sleeping, fun hf => absurd hf hup.not_falling, ?_, ?_⟩
  · intro i b h
    rcases h with h | ⟨_, _, _, h, -⟩
    · simp [start] at h
    · cases h
  · intro pre i bits post h
    simp [start] at h

theorem Inv.sound (h : s.Inv) : s.Sound drv := by
  refine ⟨fun hsleep hbit => ?_, h.once⟩
  obtain ⟨status, stat, hw⟩ := h.waking (.inr ⟨.inr hsleep.1, hsleep.2⟩) hbit
  exact ⟨0, s, status, stat, rfl, hw⟩

theorem fresh_delivered {h : List IntEvent} {i j b : Nat} {bits : BitVec 32} :
    Fresh i b (h ++ [.delivered j bits]) ↔ (j = i ∧ bits.getLsbD b = true) ∨ Fresh i b h := by
  rw [Fresh, since_append_singleton]
  simp only [Delivers, Consumes, IntEvent.delivered.injEq, reduceCtorEq, false_and, exists_false,
    not_false_eq_true, and_true]
  constructor
  · intro hf
    exact hf.imp (fun ⟨_, ⟨hj, he⟩, hb⟩ => ⟨hj, he ▸ hb⟩) id
  · intro hf
    exact hf.imp (fun ⟨hj, hb⟩ => ⟨bits, ⟨hj, rfl⟩, hb⟩) id

theorem fresh_consumed {h : List IntEvent} {i j b : Nat} {bits : BitVec 32} :
    Fresh i b (h ++ [.consumed j bits]) ↔ Fresh i b h ∧ ¬ (j = i ∧ bits.getLsbD b = true) := by
  rw [Fresh, since_append_singleton]
  simp only [Delivers, Consumes, IntEvent.consumed.injEq, reduceCtorEq, false_and, exists_false,
    false_or]
  refine and_congr_right fun _ => not_congr ⟨?_, ?_⟩
  · intro hc
    obtain ⟨_, ⟨hj, he⟩, hb⟩ := hc
    exact ⟨hj, he ▸ hb⟩
  · intro hc
    exact ⟨bits, ⟨hc.1, rfl⟩, hc.2⟩

theorem takenOnce_append {h : List IntEvent} {e : IntEvent} (hh : TakenOnce h)
    (he : ∀ i bits, e = .consumed i bits → ∀ b, bits.getLsbD b = true → Fresh i b h) :
    TakenOnce (h ++ [e]) := by
  intro pre i bits post heq b hb
  rcases append_singleton_eq_append_cons heq with ⟨rfl, hlast, -⟩ | ⟨mid, -, hpre⟩
  · exact he i bits hlast b hb
  · exact hh pre i bits mid hpre b hb

@[simp] theorem setPending_pending (s : IntWait) (i j : Nat) (pending : BitVec 32) :
    ((s.setPending i pending).irqs j).pending = if j = i then pending else (s.irqs j).pending := by
  by_cases h : j = i
  · subst h
    simp [setPending]
  · simp [setPending, h]

@[simp] theorem setPending_irqId (s : IntWait) (i : Nat) (pending : BitVec 32) :
    (s.setPending i pending).irqId = s.irqId := rfl

@[simp] theorem setPending_irqType (s : IntWait) (i : Nat) (pending : BitVec 32) :
    (s.setPending i pending).irqType = s.irqType := rfl

@[simp] theorem setStatus_pending (s : IntWait) (i j : Nat) (status : BitVec 32) :
    ((s.setStatus i status).irqs j).pending = (s.irqs j).pending := by
  by_cases h : j = i
  · subst h
    simp [setStatus]
  · simp [setStatus, h]

/-! ### Steps of the process -/

/-- A step of the process that neither takes nor clears. -/
theorem Inv.move (h : s.Inv) (hpc : ∀ taken, s.pc ≠ .clear taken) (hirqs : s'.irqs = s.irqs)
    (hservice : s'.service = s.service) (hhistory : s'.history = s.history)
    (hqueued : (s'.pc = .schedule ∨ s'.pc = .sleep) → s'.interruptible = true → s'.queued = true)
    (hwaking : s'.Falling → s'.awaited ≠ 0#32 → ∃ status stat,
      s'.service = .wake s'.irqId status stat) : s'.Inv := by
  refine ⟨hqueued, hwaking, fun i b hb => .inl ?_, hhistory ▸ h.once⟩
  have hb' : s.Holds i b := by
    unfold Holds at hb ⊢
    rwa [hirqs, hservice] at hb
  rw [hhistory]
  refine (h.fresh i b hb').resolve_right fun hc => ?_
  obtain ⟨-, taken, htaken⟩ := hc
  exact hpc taken htaken

theorem Inv.move_up (h : s.Inv) (hpc : ∀ taken, s.pc ≠ .clear taken) (hirqs : s'.irqs = s.irqs)
    (hservice : s'.service = s.service) (hhistory : s'.history = s.history) (hup : s'.Up) : s'.Inv :=
  h.move hpc hirqs hservice hhistory (fun hp => absurd hp hup.not_sleeping)
    fun hf => absurd hf hup.not_falling

theorem Inv.take (h : s.Inv) (hpc : s.pc = .take) (hs : s.procStep = some s') : s'.Inv := by
  have hfresh (i b : Nat) (hb : s.Holds i b) : Fresh i b s.history := by
    refine (h.fresh i b hb).resolve_right fun hc => ?_
    obtain ⟨-, _, htaken⟩ := hc
    rw [hpc] at htaken
    cases htaken
  simp only [procStep, hpc, Option.some.injEq] at hs
  subst hs
  refine ⟨fun hp => ?_, fun hf => ?_, fun i b hb => ?_, ?_⟩
  · exact absurd hp (Up.mk (by simp) (by simp) (by simp)).not_sleeping
  · exact absurd hf (Up.mk (by simp) (by simp) (by simp)).not_falling
  · by_cases hi : s.irqId = i
    · exact .inr ⟨hi, _, rfl⟩
    · exact .inl (fresh_consumed.mpr ⟨hfresh i b hb, fun hc => hi hc.1⟩)
  · refine takenOnce_append h.once fun i bits he b hb => ?_
    cases he
    exact hfresh _ b (.inl hb)

theorem Inv.clear (h : s.Inv) {taken : BitVec 32} (hpc : s.pc = .clear taken)
    (hstore : ∀ status stat pending, s.service = .store s.irqId status stat pending →
      pending = 0#32) (hs : s.procStep = some s') : s'.Inv := by
  simp only [procStep, hpc, Option.some.injEq] at hs
  subst hs
  refine ⟨fun hp => ?_, fun hf => ?_, fun i b hb => .inl ?_, h.once⟩
  · exact absurd hp (Up.mk (by simp) (by simp) (by simp)).not_sleeping
  · exact absurd hf (Up.mk (by simp) (by simp) (by simp)).not_falling
  · -- nothing is left of the descriptor that is cleared
    have hne : i ≠ s.irqId := by
      intro hi
      subst hi
      rcases hb with hb | ⟨status, stat, pending, hp, hb⟩
      · simp at hb
      · rw [hstore status stat pending hp] at hb
        simp at hb
    refine (h.fresh i b ?_).resolve_right fun hc => hne hc.1.symm
    rcases hb with hb | hb
    · exact .inl (by simpa [hne] using hb)
    · exact .inr hb

theorem Inv.proc_kept (h : s.Inv) (hu : s.Unraced .proc) (hs : s.procStep = some s') : s'.Inv := by
  have hs' := hs
  unfold procStep at hs'
  split at hs'
  · cases hs'
  · next hpc =>
      split at hs'
      · next htest =>
          cases hs'
          refine h.move (by simp [hpc]) rfl rfl rfl ?_ fun _ hbit => absurd htest.2 hbit
          intro hp
          rcases hp with hp | hp <;> cases hp
      · cases hs'
        exact h.move_up (by simp [hpc]) rfl rfl rfl ⟨by simp, by simp, by simp⟩
  · next hpc =>
      cases hs'
      exact h.move (by simp [hpc]) rfl rfl rfl (fun _ _ => rfl) fun _ => h.waking (.inl hpc)
  · next hpc =>
      split at hs'
      · next hint =>
          cases hs'
          exact h.move (by simp [hpc]) rfl rfl rfl (fun _ => h.queued (.inl hpc))
            fun _ => h.waking (.inr ⟨.inl hpc, hint⟩)
      · cases hs'
        exact h.move_up (by simp [hpc]) rfl rfl rfl ⟨by simp, by simp, by simp⟩
  · next hpc =>
      split at hs'
      · cases hs'
      · cases hs'
        exact h.move_up (by simp [hpc]) rfl rfl rfl ⟨by simp, by simp, by simp⟩
  · next hpc =>
      cases hs'
      exact h.move_up (by simp [hpc]) rfl rfl rfl ⟨by simp, by simp, by simp⟩
  · next hpc => exact h.take hpc hs
  · next taken hpc =>
      exact h.clear hpc (fun status stat pending hp => hu taken status stat pending hpc hp) hs

/-! ### Steps of the service routine -/

@[simp] theorem scanNext_ne_wake {i j : Nat} {status status' stat : BitVec 32} :
    scanNext i status ≠ .wake j status' stat := by
  unfold scanNext
  split <;> simp

@[simp] theorem scanNext_ne_store {i j : Nat} {status status' stat pending : BitVec 32} :
    scanNext i status ≠ .store j status' stat pending := by
  unfold scanNext
  split <;> simp

/-- A step of the service routine up to the read of `pending |= stat`. -/
theorem Inv.serve (h : s.Inv) (hwake : ∀ i status stat, s.service ≠ .wake i status stat)
    (hpc : s'.pc = s.pc) (hid : s'.irqId = s.irqId) (htype : s'.irqType = s.irqType)
    (hq : s'.queued = s.queued) (hint : s'.interruptible = s.interruptible)
    (hhistory : s'.history = s.history)
    (hpending : ∀ i, (s'.irqs i).pending = (s.irqs i).pending)
    (hholds : ∀ i status stat pending, s'.service = .store i status stat pending →
      pending = (s.irqs i).pending) : s'.Inv := by
  refine ⟨?_, fun hf hbit => ?_, fun i b hb => ?_, hhistory ▸ h.once⟩
  · rw [hpc, hint, hq]
    exact h.queued
  · unfold Falling at hf
    rw [hpc, hint] at hf
    unfold awaited at hbit
    rw [hpending, hid, htype] at hbit
    obtain ⟨status, stat, hw⟩ := h.waking hf hbit
    exact absurd hw (hwake _ status stat)
  · unfold Clearing
    rw [hhistory, hid, hpc]
    refine h.fresh i b (.inl ?_)
    rcases hb with hb | ⟨status, stat, pending, hst, hb⟩
    · rwa [hpending] at hb
    · rwa [hholds i status stat pending hst] at hb

/-- The write of `pending |= stat`: bits that are fresh, and the bits read before. -/
theorem Inv.store (h : s.Inv) {i : Nat} {status stat pending : BitVec 32}
    (hst : s.service = .store i status stat pending) (hs : s.serviceStep = some s') : s'.Inv := by
  simp only [serviceStep, hst, Option.some.injEq] at hs
  subst hs
  refine ⟨h.queued, fun hf hbit => ?_, fun j b hb => ?_, ?_⟩
  · by_cases hi : s.irqId = i
    · subst hi
      exact ⟨status, stat, rfl⟩
    · have hbit' : s.awaited ≠ 0#32 := by simpa [awaited, hi] using hbit
      obtain ⟨_, _, hw⟩ := h.waking hf hbit'
      rw [hst] at hw
      cases hw
  · have hj : s.Holds j b ∨ (j = i ∧ stat.getLsbD b = true) := by
      rcases hb with hb | ⟨_, _, _, hw, -⟩
      · by_cases hji : j = i
        · subst hji
          simp only [setPending_pending, if_true, BitVec.getLsbD_or, Bool.or_eq_true] at hb
          rcases hb with hb | hb
          · exact .inl (.inr ⟨status, stat, pending, hst, hb⟩)
          · exact .inr ⟨rfl, hb⟩
        · exact .inl (.inl (by simpa [hji] using hb))
      · cases hw
    rcases hj with hj | ⟨rfl, hstat⟩
    · exact (h.fresh j b hj).imp (fun hf => fresh_delivered.mpr (.inr hf)) id
    · exact .inl (fresh_delivered.mpr (.inl ⟨rfl, hstat⟩))
  · exact takenOnce_append h.once fun i bits he => by cases he

/-- The wake-up: the process is out of its sleep, or nothing was pending for it. -/
theorem Inv.wake (h : s.Inv) {i : Nat} {status stat : BitVec 32}
    (hw : s.service = .wake i status stat)
    (hu : i = s.irqId → s.pc = .prepare → s.awaited = 0#32)
    (hs : s.serviceStep = some s') : s'.Inv := by
  simp only [serviceStep, hw, Option.some.injEq] at hs
  subst hs
  by_cases hwoken : s.queued ∧ s.interruptible ∧ s.irqId = i
  · rw [wakeUp, if_pos hwoken]
    refine ⟨fun _ hint => (by cases hint), fun hf hbit => ?_, fun j b hb => ?_, h.once⟩
    · rcases hf with hp | ⟨-, hint⟩
      · exact absurd (hu hwoken.2.2.symm hp) hbit
      · cases hint
    · refine h.fresh j b (.inl ?_)
      rcases hb with hb | ⟨_, _, _, hst, -⟩
      · exact hb
      · exact absurd hst scanNext_ne_store
  · rw [wakeUp, if_neg hwoken]
    refine ⟨h.queued, fun hf hbit => ?_, fun j b hb => ?_, h.once⟩
    · -- whom the wake-up does not reach is not in that queue
      exfalso
      obtain ⟨status', stat', hw'⟩ := h.waking hf hbit
      rw [hw] at hw'
      cases hw'
      rcases hf with hp | ⟨hp, hint⟩
      · exact hbit (hu rfl hp)
      · exact hwoken ⟨h.queued hp hint, hint, rfl⟩
    · refine h.fresh j b (.inl ?_)
      rcases hb with hb | ⟨_, _, _, hst, -⟩
      · exact hb
      · exact absurd hst scanNext_ne_store

theorem Inv.service_kept (h : s.Inv) (hu : s.Unraced .service) (hs : s.serviceStep = some s') :
    s'.Inv := by
  have hs' := hs
  unfold serviceStep at hs'
  split at hs'
  · cases hs'
  · next i status hsc =>
      split at hs'
      · simp only at hs'
        split at hs' <;> cases hs' <;>
          exact h.serve (by simp [hsc]) rfl rfl rfl rfl rfl rfl (fun _ => rfl) (by simp)
      · cases hs'
        exact h.serve (by simp [hsc]) rfl rfl rfl rfl rfl rfl (fun _ => rfl) (by simp)
  · next i status stat hte =>
      split at hs' <;> cases hs' <;>
        exact h.serve (by simp [hte]) rfl rfl rfl rfl rfl rfl (by simp) (by simp)
  · next i status stat hlo =>
      cases hs'
      refine h.serve (by simp [hlo]) rfl rfl rfl rfl rfl rfl (fun _ => rfl) ?_
      intro j _ _ _ hst
      cases hst
      rfl
  · next i status stat pending hst => exact h.store hst hs
  · next i status stat hw =>
      refine h.wake hw (fun hi hpc => ?_) hs
      subst hi
      exact hu status stat hw hpc

/-! ## 5. Runs -/

/-- **Every step keeps the invariant**, as long as nothing races. -/
theorem Inv.next_kept {l : Label} (h : s.Inv) (hu : s.Unraced l) (hs : s.next drv l = some s') :
    s'.Inv := by
  cases l with
  | call id type timeout =>
      simp only [next] at hs
      split at hs
      · cases hs
      · next hpc =>
          have hpc : s.pc = .out := not_not.mp hpc
          split at hs
          · cases hs
            exact h
          · cases hs
            exact h.move_up (by simp [hpc]) rfl rfl rfl ⟨by simp, by simp, by simp⟩
  | proc => exact h.proc_kept hu hs
  | signal =>
      cases hs
      refine ⟨fun _ hint => (by cases hint), fun hf => ?_, h.fresh, h.once⟩
      rcases hf with hp | ⟨-, hint⟩
      · exact h.waking (.inl hp)
      · cases hint
  | irq status =>
      simp only [next] at hs
      split at hs
      · cases hs
      · next hout =>
          have hout : s.service = .out := not_not.mp hout
          split at hs
          · cases hs
            exact h
          · cases hs
            exact h.serve (by simp [hout]) rfl rfl rfl rfl rfl rfl (fun _ => rfl) (by simp)
  | service => exact h.service_kept hu hs

/-- **No sleep on a pending interrupt, no interrupt taken twice**, in every run of either driver in
    which no wake-up and no end of a wait falls into one of the two gaps. -/
theorem sound_of_unraced (drv : IntDriver) (nbIrqEn : Int) (irqs : Nat → IntDesc)
    (ls : List Label) (h : Steps (next drv) Unraced (start nbIrqEn irqs) ls) :
    Along (next drv) (Sound drv) (start nbIrqEn irqs) ls :=
  along_of_steps (fun _ h => h.sound) (fun _ _ _ h hu hs => h.next_kept hu hs)
    (inv_start nbIrqEn irqs) h

/-- A wait that sleeps, is woken by the interrupt and takes it. -/
theorem sound_of_unraced_wait :
    Along (next .h264dbf) (Sound .h264dbf) (start 1 fun _ => ⟨1#32, 0#32, 0#32⟩)
      [.call 0#32 1#32 1#32, .proc, .proc, .proc, .irq 0x81#32, .service, .service, .service,
        .service, .service, .proc, .proc, .proc, .proc] := by
  refine sound_of_unraced .h264dbf 1 _ _ (Steps.cons rfl trivial ?_)
  iterate 3 refine Steps.cons rfl (fun _ _ _ _ hpc => by cases hpc) ?_
  refine Steps.cons rfl trivial ?_
  iterate 5 refine Steps.cons rfl (fun _ _ _ hpc => by cases hpc) ?_
  iterate 3 refine Steps.cons rfl (fun _ _ _ _ hpc => by cases hpc) ?_
  exact Steps.cons rfl (fun _ _ _ _ _ hservice => by cases hservice) trivial

/-! ## 6. The two gaps -/

/-- The service routine is behind descriptor `i`. -/
def Past (i : Nat) : ServicePc → Prop
  | .out => True
  | .scan j _ => i < j
  | .test j _ _ => i < j
  | .load j _ _ => i < j
  | .store j _ _ _ => i < j
  | .wake j _ _ => i < j

theorem past_scanNext {i j : Nat} (status : BitVec 32) (h : i ≤ j) :
    Past i (scanNext j status) := by
  unfold scanNext
  split
  · trivial
  · exact Nat.lt_succ_of_le h

theorem wakeUp_irqId (s : IntWait) (i : Nat) : (s.wakeUp i).irqId = s.irqId := by
  unfold wakeUp
  split <;> rfl

theorem past_service {i : Nat} (h : s.irqId = i ∧ Past i s.service)
    (hs : s.serviceStep = some s') : s'.irqId = i ∧ Past i s'.service := by
  obtain ⟨hid, h⟩ := h
  unfold serviceStep at hs
  split at hs
  · cases hs
  · next j status hpc =>
      rw [hpc] at h
      split at hs
      · simp only at hs
        split at hs <;> cases hs
        · exact ⟨hid, h⟩
        · exact ⟨hid, past_scanNext status (Nat.le_of_lt h)⟩
      · cases hs
        exact ⟨hid, trivial⟩
  · next hpc =>
      rw [hpc] at h
      split at hs <;> cases hs <;> exact ⟨hid, h⟩
  · next hpc =>
      rw [hpc] at h
      cases hs
      exact ⟨hid, h⟩
  · next hpc =>
      rw [hpc] at h
      cases hs
      exact ⟨hid, h⟩
  · next j status stat hpc =>
      rw [hpc] at h
      cases hs
      exact ⟨(wakeUp_irqId s j).trans hid, past_scanNext _ (Nat.le_of_lt h)⟩

theorem not_wakeComing_of_past (h : Past s.irqId s.service) : ¬ WakeComing drv s := by
  intro hcoming
  obtain ⟨n, t, status, stat, hrun, hw⟩ := hcoming
  suffices ht : t.irqId = s.irqId ∧ Past s.irqId t.service by
    rw [hw] at ht
    exact absurd ht.2 (Nat.lt_irrefl _)
  have hkept {u : IntWait} {m : Nat} (hu : u.irqId = s.irqId ∧ Past s.irqId u.service)
      (hm : exec (next drv) u (List.replicate m .service) = some t) :
      t.irqId = s.irqId ∧ Past s.irqId t.service := by
    induction m generalizing u with
    | zero =>
        cases hm
        exact hu
    | succ m ih =>
        obtain ⟨v, hv, hm⟩ := exec_cons_eq_some hm
        exact ih (past_service hu hv) hm
  exact hkept ⟨rfl, h⟩ hrun

/-- **The first gap**: the process goes to sleep on a pending interrupt, and the service routine is
    behind its descriptor. -/
theorem sleeps_of_lost_wake {status stat : BitVec 32} (hw : s.service = .wake s.irqId status stat)
    (hpc : s.pc = .prepare) (hbit : s.awaited ≠ 0#32) :
    ∃ t, exec (next drv) s [.service, .proc, .proc] = some t ∧ t.Asleep ∧ t.awaited ≠ 0#32 ∧
      ¬ WakeComing drv t := by
  have hwoken : (s.wakeUp s.irqId).pc = s.pc ∧ (s.wakeUp s.irqId).awaited = s.awaited := by
    unfold wakeUp
    split <;> exact ⟨rfl, rfl⟩
  refine ⟨{ s.wakeUp s.irqId with
    service := scanNext s.irqId (status &&& ~~~stat), queued := true, interruptible := true,
    pc := .sleep }, ?_, ⟨rfl, rfl⟩, ?_, not_wakeComing_of_past ?_⟩
  · simp [exec, next, serviceStep, procStep, hw, hwoken.1, hpc]
  · exact hwoken.2 ▸ hbit
  · simp only [wakeUp_irqId]
    exact past_scanNext _ (Nat.le_refl _)

/-- A wait of `rabbitsfb` that looks at `pending` before the interrupt and enters the queue after
    its wake-up; two interrupts of `h264dbf`, and a wait that ends while the second one is between
    the read and the write of `pending |= stat`. -/
theorem wait_races :
    (∃ s, exec (next .rabbitsfb) (start 1 fun _ => ⟨1#32, 0#32, 0#32⟩)
        [.call 0#32 1#32 1#32, .proc, .irq 1#32, .service, .service, .service, .service, .service,
          .proc, .proc] = some s ∧ s.Asleep ∧ s.awaited ≠ 0#32 ∧ ¬ WakeComing .rabbitsfb s) ∧
    (∃ s, exec (next .h264dbf) (start 1 fun _ => ⟨3#32, 0#32, 0#32⟩)
        [.irq 0x81#32, .service, .service, .service, .service, .service,
          .irq 0x82#32, .service, .service, .service, .call 0#32 3#32 0#32, .proc, .proc, .proc,
          .service, .call 0#32 3#32 0#32, .proc, .proc] = some s ∧ ¬ TakenOnce s.history) := by
  refine ⟨⟨_, rfl, ⟨rfl, rfl⟩, by decide, not_wakeComing_of_past trivial⟩, ⟨_, rfl, fun h => ?_⟩⟩
  have hfresh := h ([.delivered 0 1#32, .consumed 0 1#32] ++ [.delivered 0 2#32]) 0 3#32 [] rfl 0 rfl
  have htaken : Fresh 0 0 ([.delivered 0 1#32] ++ [.consumed 0 1#32]) :=
    (fresh_delivered.mp hfresh).resolve_left (by decide)
  exact (fresh_consumed.mp htaken).2 ⟨rfl, rfl⟩

end IntWait

end Rabbits
