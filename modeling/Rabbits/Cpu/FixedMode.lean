/-
  File:      Rabbits/Cpu/FixedMode.lean
  Subject:   A CPU whose `m_unblocking_write` does not change.

  With posted writes a read waits until the busy list is empty; with waited writes the thread never
  leaves an access with a request busy. Either way a read has the pool for itself.

  * `FixedMode` -- the invariant of such a CPU;
  * `FixedMode.step` -- kept by every step but a change of mode;
  * `RunInv.busyList_perm` -- where the busy requests are.
-/
import Rabbits.Cpu.ModeChange

namespace Rabbits

open Lib

/-! ## 1. The invariant -/

/-- The thread is in an access, with this request. -/
def CpuPc.holds (pc : CpuPc) (a : Access) (rq : Rq) : Prop :=
  pc = .putting a rq ∨ ∃ w, pc = .doneWait a rq w

/-- The mode never changed, and a read's request is the only busy one; with posted writes, the
    thread waits for reads only. -/
structure FixedMode (mode : Bool) (s : CpuRun) : Prop where
  run : RunInv s
  same : s.cpu.unblockingWrite = mode
  flight : ∀ t ∈ s.inFlight, t.unblocking = mode
  alone : ∀ a rq, s.cpu.pc.holds a rq → a.bWrite = false → s.cpu.rqs.busyList = [rq]
  waits : mode = true → ∀ a rq w, s.cpu.pc = .doneWait a rq w → a.bWrite = false

/-- The CPU that the constructor makes, then put into its mode. -/
def CpuRun.startIn (mode : Bool) : CpuRun :=
  { CpuRun.start with cpu := CpuRun.start.cpu.setUnblockingWrite mode }

theorem fixedMode_start (mode : Bool) : FixedMode mode (.startIn mode) := by
  have hs : RunStep .start (.setUnblockingWrite mode) (.startIn mode) := .setUnblockingWrite mode
  refine ⟨runInv_start.step hs trivial, rfl, fun t ht => ?_, fun a rq h => ?_, fun _ a rq w h => ?_⟩
  · cases ht
  · rcases h with h | ⟨w, h⟩ <;> cases h
  · cases h

namespace FixedMode

variable {mode : Bool} {s s' : CpuRun}

theorem steady (h : FixedMode mode s) (l : RunLabel) (hs : RunStep s l s') : s.ModeSteady l := by
  cases hs with
  | response data ht => exact fun _ => h.same.trans (h.flight _ ht).symm
  | _ => trivial

/-- With waited writes, a thread outside the accesses has no busy request. -/
theorem busy_nil (h : FixedMode false s) (hpc : s.cpu.pc.isQuiet = true) :
    s.cpu.rqs.busyList = [] := by
  rw [List.eq_nil_iff_forall_not_mem]
  intro rq hb
  rcases h.run.settled rq hb with ⟨a, e⟩ | ⟨t, ht, rfl⟩ | ⟨a, e⟩
  · rw [e] at hpc
    cases hpc
  · have hp : s.posted t = false := by simp [CpuRun.posted, h.flight t ht]
    obtain ⟨a, e⟩ := h.run.awaited t ht hp
    rw [e] at hpc
    cases hpc
  · rw [e] at hpc
    cases hpc

/-- A turn of the CPU thread other than the return of `put`. -/
theorem turn {c : QemuCpuWrapper} (h : FixedMode mode s) (ht : Turn s.cpu c) :
    FixedMode mode { s with cpu := c } := by
  have hrun := h.run.turn ht
  cases ht with
  | quiet hpc hrqs hmode =>
      have hwait (a : Access) (rq : Rq) (w : Bool) (e : c.pc = .doneWait a rq w) :
          s.cpu.pc = .doneWait a rq w := by
        rcases hpc with e' | ⟨-, h2⟩
        · rw [← e', e]
        · rw [e] at h2
          cases h2
      refine ⟨hrun, hmode.trans h.same, h.flight, fun a rq hh hw => ?_,
        fun hm a rq w e => h.waits hm a rq w (hwait a rq w e)⟩
      rw [hrqs]
      refine h.alone a rq ?_ hw
      rcases hh with e | ⟨w, e⟩
      · rcases hpc with e' | ⟨-, h2⟩
        · exact .inl (by rw [← e', e])
        · rw [e] at h2
          cases h2
      · exact .inr ⟨w, hwait a rq w e⟩
  | take a rq q hpc hempty hg hc =>
      subst hc
      have hgives := QemuWrapperRequests.getNewRequest_spec h.run.pool hg
      refine ⟨hrun, h.same, h.flight, fun a' rq' hh hw => ?_, fun _ a' rq' w e => (by cases e)⟩
      rcases hh with e | ⟨w, e⟩
      · obtain ⟨rfl, rfl⟩ : a = a' ∧ rq = rq' := by simpa using e
        have hnil : s.cpu.rqs.busyList = [] := by
          cases hm : mode with
          | false =>
              subst hm
              exact h.busy_nil hpc
          | true =>
              have hwe : s.cpu.waitsEmpty a = true := by
                simp [QemuCpuWrapper.waitsEmpty, h.same, hm, hw]
              have hh : s.cpu.rqs.headBusy.isSome = false := by simpa [hwe] using hempty
              have hiff := QemuWrapperRequests.headBusy_isSome_iff h.run.pool
              rw [hh] at hiff
              simpa using hiff
        show (q.setWrite rq a.bWrite).busyList = [rq]
        rw [QemuWrapperRequests.busyList_setWrite, hgives.busy, hnil]
      · cases e
  | done a rq hpc hc =>
      subst hc
      have hd := (h.run.waiting a rq true hpc).2
      have hcpu : s.cpu.awaitDone a rq = { s.cpu.freeRequest rq with pc := .idle } := by
        simp [QemuCpuWrapper.awaitDone, ← hd]
      rw [hcpu] at hrun ⊢
      refine ⟨hrun, h.same, h.flight, fun a' rq' hh _ => ?_, fun _ a' rq' w e => (by cases e)⟩
      rcases hh with e | ⟨w, e⟩ <;> cases e

theorem putReturns {a : Access} {rq : Rq} {c : QemuCpuWrapper} (h : FixedMode mode s)
    (hpc : s.cpu.pc = .putting a rq) (hc : s.cpu.putReturns = some c) :
    FixedMode mode { s with cpu := c, inFlight := ⟨rq, s.cpu.unblockingWrite⟩ :: s.inFlight } := by
  have hrun := h.run.putReturns hpc hc
  have hd := (h.run.putting a rq hpc).2.1
  have hcase : (c = { s.cpu with pc := .idle }) ∨
      (c = { s.cpu with pc := .doneWait a rq false } ∧ (mode = true → a.bWrite = false)) := by
    rw [QemuCpuWrapper.putReturns_eq hpc hd, Option.some.injEq] at hc
    subst hc
    by_cases hif : (a.bWrite && s.cpu.unblockingWrite) = true
    · rw [if_pos hif]
      exact .inl rfl
    · rw [if_neg hif]
      refine .inr ⟨rfl, fun hm => ?_⟩
      simpa [h.same, hm] using hif
  have hflight : ∀ t ∈ (⟨rq, s.cpu.unblockingWrite⟩ :: s.inFlight : List Transaction),
      t.unblocking = mode := by
    intro t ht
    rcases List.mem_cons.mp ht with rfl | ht
    · exact h.same
    · exact h.flight t ht
  rcases hcase with rfl | ⟨rfl, hread⟩
  · refine ⟨hrun, h.same, hflight, fun a' rq' hh _ => ?_, fun _ a' rq' w e => (by cases e)⟩
    rcases hh with e | ⟨w, e⟩ <;> cases e
  · refine ⟨hrun, h.same, hflight, fun a' rq' hh hw => ?_, fun hm a' rq' w e => ?_⟩
    · rcases hh with e | ⟨w, e⟩
      · cases e
      · obtain ⟨rfl, rfl, -⟩ : a = a' ∧ rq = rq' ∧ false = w := by simpa using e
        exact h.alone a rq (.inl hpc) hw
    · obtain ⟨rfl, rfl, -⟩ : a = a' ∧ rq = rq' ∧ false = w := by simpa using e
      exact hread hm

theorem notifyDone_holds {rq rq' : Rq} {pc : CpuPc} {a : Access}
    (h : (pc.notifyDone rq).holds a rq') : pc.holds a rq' := by
  rcases h with e | ⟨w, e⟩
  · exact .inl (notifyDone_eq_putting.mp e)
  · obtain ⟨w', e', -⟩ := notifyDone_eq_doneWait.mp e
    exact .inr ⟨w', e'⟩

theorem response {t : Transaction} {data : ULong} (h : FixedMode mode s)
    (hs : RunStep s (.response t data) s') : FixedMode mode s' := by
  have hrun := h.run.step hs (h.steady _ hs)
  cases hs with
  | response _ ht =>
      have hb := (h.run.flight t ht).1
      have hget := QemuWrapperRequests.getRequestByTid_eq_some h.run.pool noRequests_le hb
      have hflight : ∀ u ∈ s.inFlight.erase t, u.unblocking = mode := fun u hu =>
        h.flight u (List.mem_of_mem_erase hu)
      simp only [QemuCpuWrapper.rcvRsp, hget] at hrun ⊢
      split at hrun
      · next hif =>
          rw [if_pos hif]
          have hp : s.posted t = true := by
            simp only [h.same, Bool.and_eq_true] at hif
            simp [CpuRun.posted, h.flight t ht, hif]
          refine ⟨hrun, h.same, hflight, fun a rq hh hw => ?_, h.waits⟩
          -- A read in progress would own the only busy request, but `t` is a write in flight.
          have hone := h.alone a rq hh hw
          have hrq : t.rq = rq := by simpa [hone] using hb
          rcases hh with e | ⟨w, e⟩
          · exact absurd hrq ((h.run.putting a rq e).2.2.2 t ht)
          · exact absurd (hrq ▸ e) (h.run.posted t ht hp a w)
      · next hif =>
          rw [if_neg hif]
          refine ⟨hrun, h.same, hflight, fun a rq hh hw => ?_, fun hm a rq w e => ?_⟩
          · exact h.alone a rq (notifyDone_holds hh) hw
          · obtain ⟨w', e', -⟩ := notifyDone_eq_doneWait.mp e
            exact h.waits hm a rq w' e'

/-- **Every step but a change of mode keeps the invariant.** -/
theorem step {l : RunLabel} (h : FixedMode mode s) (hs : RunStep s l s')
    (hl : ∀ val, l ≠ .setUnblockingWrite val) : FixedMode mode s' := by
  cases hs with
  | call hc => exact h.turn (turn_of_call hc)
  | waitWbEmpty hc => exact h.turn (turn_of_waitWbEmpty hc)
  | putReturns hpc hc => exact h.putReturns hpc hc
  | resume hc => exact h.turn (turn_of_resume hc)
  | fireEvEmpty hc => exact h.turn (turn_of_fireEvEmpty hc)
  | response data ht => exact h.response (.response data ht)
  | setUnblockingWrite val => exact absurd rfl (hl val)

end FixedMode

/-! ## 2. Where the busy requests are -/

/-- The request the thread is putting. -/
def CpuRun.putting (s : CpuRun) : List Rq :=
  match s.cpu.pc with
  | .putting _ rq => [rq]
  | _ => []

/-- The request that has had its response and waits to be freed by the thread. -/
def CpuRun.completed (s : CpuRun) : List Rq :=
  match s.cpu.pc with
  | .doneWait _ rq _ => if s.cpu.rqs.bDone rq then [rq] else []
  | _ => []

theorem CpuRun.mem_putting {s : CpuRun} {rq : Rq} :
    rq ∈ s.putting ↔ ∃ a, s.cpu.pc = .putting a rq := by
  unfold CpuRun.putting
  cases s.cpu.pc <;> simp [eq_comm]

theorem CpuRun.mem_completed {s : CpuRun} {rq : Rq} :
    rq ∈ s.completed ↔ (∃ a w, s.cpu.pc = .doneWait a rq w) ∧ s.cpu.rqs.bDone rq = true := by
  unfold CpuRun.completed
  cases hpc : s.cpu.pc with
  | doneWait a rq' w =>
      constructor
      · intro hm
        by_cases hd : s.cpu.rqs.bDone rq' = true
        · simp only [hd, if_true, List.mem_singleton] at hm
          exact ⟨⟨a, w, by rw [hm]⟩, by rw [hm]; exact hd⟩
        · simp [hd] at hm
      · intro hyp
        obtain ⟨⟨a', w', e⟩, hd⟩ := hyp
        obtain ⟨-, rfl, -⟩ : a = a' ∧ rq' = rq ∧ w = w' := by simpa using e
        simp [hd]
  | _ => simp

/-- **Each busy request is being put, in flight, or completed, and only one of them.** -/
theorem RunInv.busyList_perm {s : CpuRun} (h : RunInv s) :
    s.cpu.rqs.busyList.Perm (s.putting ++ s.inFlight.map Transaction.rq ++ s.completed) := by
  have hput : s.putting.Nodup := by
    unfold CpuRun.putting
    cases s.cpu.pc <;> simp
  have hdone : s.completed.Nodup := by
    unfold CpuRun.completed
    cases s.cpu.pc <;> simp
    split <;> simp
  refine (List.perm_ext_iff_of_nodup h.pool.busy_nodup ?_).mpr fun rq => ?_
  · refine List.Nodup.append (List.Nodup.append hput h.flightNodup ?_) hdone ?_
    · intro rq hp hf
      obtain ⟨a, e⟩ := CpuRun.mem_putting.mp hp
      obtain ⟨t, ht, rfl⟩ := List.mem_map.mp hf
      exact (h.putting a t.rq e).2.2.2 t ht rfl
    · intro rq hpf hd
      obtain ⟨⟨a, w, e⟩, hb⟩ := CpuRun.mem_completed.mp hd
      rcases List.mem_append.mp hpf with hp | hf
      · obtain ⟨a', e'⟩ := CpuRun.mem_putting.mp hp
        rw [e] at e'
        cases e'
      · obtain ⟨t, ht, rfl⟩ := List.mem_map.mp hf
        rw [(h.flight t ht).2] at hb
        cases hb
  · simp only [List.mem_append, CpuRun.mem_putting, CpuRun.mem_completed, List.mem_map]
    constructor
    · intro hb
      rcases h.settled rq hb with hp | hf | ⟨a, e⟩
      · exact .inl (.inl hp)
      · exact .inl (.inr hf)
      · exact .inr ⟨⟨a, true, e⟩, (h.waiting a rq true e).2.symm⟩
    · intro hor
      rcases hor with (⟨a, e⟩ | ⟨t, ht, rfl⟩) | ⟨⟨a, w, e⟩, -⟩
      · exact (h.putting a rq e).1
      · exact (h.flight t ht).1
      · exact (h.waiting a rq w e).1

end Rabbits
