/-
  File:      Rabbits/Cpu/ModeChange.lean
  Subject:   The request pool under changes of `m_unblocking_write`.

  The bus is left open: a request whose `put` has returned is in flight, and its response may
  arrive at any later moment. A transaction in flight remembers `m_unblocking_write` as it was when
  `put` returned, since that is what decided whether the thread waits for it.

  * `Turn` -- what a turn of the CPU thread can do;
  * `RunInv` -- where each busy request is, and who waits for what;
  * `poolSafe_of_steady` -- runs in which no response to a write meets another mode than the one
    its `put` returned under never lose a request;
  * `lost_waiter`, `leaked_request` -- the two ways it goes wrong otherwise.
-/
import Rabbits.Lib.Machine
import Rabbits.Cpu.CpuWrapper

namespace Rabbits

open Lib

/-! ## 1. Runs of one CPU -/

/-- A request in flight, and the mode its `put` returned under. -/
structure Transaction where
  rq : Rq
  unblocking : Bool
  deriving DecidableEq

/-- The CPU, its requests in flight, and how many responses each request has had. -/
structure CpuRun where
  cpu : QemuCpuWrapper
  inFlight : List Transaction
  received : Rq → Nat

inductive RunLabel where
  | call (a : Access)
  | waitWbEmpty
  | putReturns
  | resume
  | fireEvEmpty
  | response (t : Transaction) (data : ULong)
  | setUnblockingWrite (val : Bool)

/-- One step: a turn of the CPU thread, a response, or a change of mode. -/
inductive RunStep (s : CpuRun) : RunLabel → CpuRun → Prop where
  | call {a : Access} {c : QemuCpuWrapper} (h : s.cpu.call a = some c) :
      RunStep s (.call a) { s with cpu := c }
  | waitWbEmpty {c : QemuCpuWrapper} (h : s.cpu.waitWbEmpty = some c) :
      RunStep s .waitWbEmpty { s with cpu := c }
  | putReturns {a : Access} {rq : Rq} {c : QemuCpuWrapper} (hpc : s.cpu.pc = .putting a rq)
      (h : s.cpu.putReturns = some c) :
      RunStep s .putReturns
        { s with cpu := c, inFlight := ⟨rq, s.cpu.unblockingWrite⟩ :: s.inFlight }
  | resume {c : QemuCpuWrapper} (h : s.cpu.resume = some c) : RunStep s .resume { s with cpu := c }
  | fireEvEmpty {c : QemuCpuWrapper} (h : s.cpu.fireEvEmpty = some c) :
      RunStep s .fireEvEmpty { s with cpu := c }
  | response {t : Transaction} (data : ULong) (h : t ∈ s.inFlight) :
      RunStep s (.response t data)
        { cpu := s.cpu.rcvRsp (tidOf t.rq) data
          inFlight := s.inFlight.erase t
          received := Function.update s.received t.rq (s.received t.rq + 1) }
  | setUnblockingWrite (val : Bool) :
      RunStep s (.setUnblockingWrite val) { s with cpu := s.cpu.setUnblockingWrite val }

def CpuRun.start : CpuRun := ⟨.new, [], fun _ => 0⟩

/-- Every run. -/
def cpuMachine : Machine CpuRun where
  init s := s = .start
  step s s' := ∃ l, RunStep s l s'

/-- The response of a write meets the mode that its `put` returned under. -/
def CpuRun.ModeSteady (s : CpuRun) : RunLabel → Prop
  | .response t _ => s.cpu.rqs.bWrite t.rq = true → s.cpu.unblockingWrite = t.unblocking
  | _ => True

/-- The runs in which every response does. -/
def steadyMachine : Machine CpuRun where
  init s := s = .start
  step s s' := ∃ l, RunStep s l s' ∧ s.ModeSteady l

/-- Nothing is lost: each request comes back to the pool once for each time it was given out, and
    not before its response; nobody waits for a request that is back; and a busy request is still
    to be answered, or the thread that will free it has been woken. -/
structure PoolSafe (s : CpuRun) : Prop where
  once : ∀ rq, s.cpu.rqs.taken rq = s.cpu.rqs.returned rq + s.cpu.rqs.busyList.count rq
  afterResponse : ∀ rq, s.cpu.rqs.returned rq ≤ s.received rq ∧ s.received rq ≤ s.cpu.rqs.taken rq
  waiter : ∀ a rq woken, s.cpu.pc = .doneWait a rq woken → rq ∉ s.cpu.rqs.freeList
  noLeak : ∀ rq ∈ s.cpu.rqs.busyList, (∃ a, s.cpu.pc = .putting a rq) ∨
    (∃ t ∈ s.inFlight, t.rq = rq) ∨
    (∃ a, s.cpu.pc = .doneWait a rq true ∧ s.cpu.rqs.bDone rq = true)

/-! ## 2. The turns of the CPU thread -/

/-- The thread holds no request. -/
def CpuPc.isQuiet : CpuPc → Bool
  | .putting _ _ => false
  | .doneWait _ _ _ => false
  | _ => true

/-- What a turn other than the return of `put` can do. -/
inductive Turn (c c' : QemuCpuWrapper) : Prop where
  | quiet (hpc : c'.pc = c.pc ∨ c.pc.isQuiet = true ∧ c'.pc.isQuiet = true)
      (hrqs : c'.rqs = c.rqs) (hmode : c'.unblockingWrite = c.unblockingWrite)
  | take (a : Access) (rq : Rq) (q : QemuWrapperRequests noRequests)
      (hpc : c.pc.isQuiet = true)
      (hempty : c.rqs.headBusy.isSome = false ∨ c.waitsEmpty a = false)
      (hg : c.rqs.getNewRequest = some (rq, q))
      (hc : c' = { c with rqs := q.setWrite rq a.bWrite, pc := .putting a rq })
  | done (a : Access) (rq : Rq) (hpc : c.pc = .doneWait a rq true) (hc : c' = c.awaitDone a rq)

theorem turn_of_takeRequest {c c' : QemuCpuWrapper} {a : Access} (hpc : c.pc.isQuiet = true)
    (hempty : c.rqs.headBusy.isSome = false ∨ c.waitsEmpty a = false)
    (h : c.takeRequest a = some c') : Turn c c' := by
  obtain ⟨⟨rq, q⟩, hg, rfl⟩ := Option.map_eq_some_iff.mp h
  exact .take a rq q hpc hempty hg rfl

theorem turn_of_getEmpty {c c' : QemuCpuWrapper} {a : Access} (hpc : c.pc.isQuiet = true)
    (h : c.getEmpty a = some c') : Turn c c' := by
  unfold QemuCpuWrapper.getEmpty at h
  split at h
  · cases h
    exact .quiet (.inr ⟨hpc, rfl⟩) rfl rfl
  · next hb => exact turn_of_takeRequest hpc (.inl (by simpa using hb)) h

theorem turn_of_call {c c' : QemuCpuWrapper} {a : Access} (h : c.call a = some c') : Turn c c' := by
  unfold QemuCpuWrapper.call at h
  split at h
  · next hpc =>
      have hq : c.pc.isQuiet = true := by rw [hpc]; rfl
      split at h
      · exact turn_of_getEmpty hq h
      · next hw => exact turn_of_takeRequest hq (.inr (by simpa using hw)) h
  · cases h

theorem turn_of_waitWbEmpty {c c' : QemuCpuWrapper} (h : c.waitWbEmpty = some c') : Turn c c' := by
  unfold QemuCpuWrapper.waitWbEmpty at h
  split at h
  · next hpc =>
      split at h
      · cases h
        exact .quiet (.inr ⟨by rw [hpc]; rfl, rfl⟩) rfl rfl
      · cases h
        exact .quiet (.inl rfl) rfl rfl
  · cases h

theorem turn_of_resume {c c' : QemuCpuWrapper} (h : c.resume = some c') : Turn c c' := by
  unfold QemuCpuWrapper.resume at h
  split at h
  · next a hpc => exact turn_of_getEmpty (by rw [hpc]; rfl) h
  · next a rq hpc =>
      cases h
      exact .done a rq hpc rfl
  · next hpc =>
      cases h
      refine .quiet (.inr ⟨by rw [hpc]; rfl, ?_⟩) rfl rfl
      show CpuPc.isQuiet (if _ then _ else _) = true
      split <;> rfl
  · cases h

theorem turn_of_fireEvEmpty {c c' : QemuCpuWrapper} (h : c.fireEvEmpty = some c') : Turn c c' := by
  unfold QemuCpuWrapper.fireEvEmpty at h
  split at h
  · cases h
    refine .quiet ?_ rfl rfl
    cases hpc : c.pc with
    | idle => exact .inl rfl
    | emptyWait a w => exact .inr ⟨rfl, rfl⟩
    | putting a rq => exact .inl rfl
    | doneWait a rq w => exact .inl rfl
    | wbWait w => exact .inr ⟨rfl, rfl⟩
  · cases h

/-! ## 3. Where the busy requests are -/

/-- The write is posted: the thread does not wait for its response. -/
def CpuRun.posted (s : CpuRun) (t : Transaction) : Bool := s.cpu.rqs.bWrite t.rq && t.unblocking

/-- Each busy request is being put, is in flight, or has had its response and belongs to the thread
    that was woken for it. -/
structure RunInv (s : CpuRun) : Prop where
  pool : s.cpu.rqs.Ok
  flightNodup : (s.inFlight.map Transaction.rq).Nodup
  flight : ∀ t ∈ s.inFlight, t.rq ∈ s.cpu.rqs.busyList ∧ s.cpu.rqs.bDone t.rq = false
  putting : ∀ a rq, s.cpu.pc = .putting a rq → rq ∈ s.cpu.rqs.busyList ∧
    s.cpu.rqs.bDone rq = false ∧ s.cpu.rqs.bWrite rq = a.bWrite ∧ ∀ t ∈ s.inFlight, t.rq ≠ rq
  posted : ∀ t ∈ s.inFlight, s.posted t = true → ∀ a w, s.cpu.pc ≠ .doneWait a t.rq w
  awaited : ∀ t ∈ s.inFlight, s.posted t = false → ∃ a, s.cpu.pc = .doneWait a t.rq false
  waiting : ∀ a rq w, s.cpu.pc = .doneWait a rq w →
    rq ∈ s.cpu.rqs.busyList ∧ w = s.cpu.rqs.bDone rq
  settled : ∀ rq ∈ s.cpu.rqs.busyList, (∃ a, s.cpu.pc = .putting a rq) ∨
    (∃ t ∈ s.inFlight, t.rq = rq) ∨ ∃ a, s.cpu.pc = .doneWait a rq true
  received : ∀ rq, s.cpu.rqs.taken rq = s.received rq +
    if rq ∈ s.cpu.rqs.busyList ∧ s.cpu.rqs.bDone rq = false then 1 else 0

theorem poolSafe_of_runInv {s : CpuRun} (h : RunInv s) : PoolSafe s where
  once := h.pool.once
  afterResponse rq := by
    have h1 := h.pool.once rq
    have h2 := h.received rq
    by_cases hb : rq ∈ s.cpu.rqs.busyList
    · rw [List.count_eq_one_of_mem h.pool.busy_nodup hb] at h1
      split at h2 <;> omega
    · rw [List.count_eq_zero.mpr hb] at h1
      simp only [hb, false_and, if_false] at h2
      omega
  waiter a rq w hpc := h.pool.not_free_of_busy (h.waiting a rq w hpc).1
  noLeak rq hb := by
    rcases h.settled rq hb with hp | hf | ⟨a, hw⟩
    · exact .inl hp
    · exact .inr (.inl hf)
    · exact .inr (.inr ⟨a, hw, (h.waiting a rq true hw).2.symm⟩)

theorem runInv_start : RunInv CpuRun.start := by
  obtain ⟨hok, -, hbusy⟩ := QemuWrapperRequests.ok_new noRequests
  have hb (rq : Rq) : rq ∉ CpuRun.start.cpu.rqs.busyList := by
    show rq ∉ (QemuWrapperRequests.new noRequests).busyList
    rw [hbusy]
    exact List.not_mem_nil
  refine ⟨hok, List.nodup_nil, fun t ht => ?_, fun a rq h => ?_, fun t ht => ?_, fun t ht => ?_,
    fun a rq w h => ?_, fun rq h => absurd h (hb rq), fun rq => ?_⟩
  · cases ht
  · cases h
  · cases ht
  · cases ht
  · cases h
  · rw [if_neg fun h => hb rq h.1]
    rfl

/-- A turn without the pool. -/
theorem RunInv.quiet {s : CpuRun} {c : QemuCpuWrapper} (h : RunInv s)
    (hpc : c.pc = s.cpu.pc ∨ s.cpu.pc.isQuiet = true ∧ c.pc.isQuiet = true)
    (hrqs : c.rqs = s.cpu.rqs) : RunInv { s with cpu := c } := by
  have hput (a : Access) (rq : Rq) : c.pc = .putting a rq ↔ s.cpu.pc = .putting a rq := by
    rcases hpc with e | ⟨h1, h2⟩
    · rw [e]
    · exact ⟨fun e => (by rw [e] at h2; cases h2), fun e => (by rw [e] at h1; cases h1)⟩
  have hwait (a : Access) (rq : Rq) (w : Bool) :
      c.pc = .doneWait a rq w ↔ s.cpu.pc = .doneWait a rq w := by
    rcases hpc with e | ⟨h1, h2⟩
    · rw [e]
    · exact ⟨fun e => (by rw [e] at h2; cases h2), fun e => (by rw [e] at h1; cases h1)⟩
  constructor
  · simpa [hrqs] using h.pool
  · exact h.flightNodup
  · simpa [hrqs] using h.flight
  · simpa [hrqs, hput] using h.putting
  · simpa [CpuRun.posted, hrqs, hwait] using h.posted
  · simpa [CpuRun.posted, hrqs, hwait] using h.awaited
  · simpa [hrqs, hwait] using h.waiting
  · simpa [hrqs, hput, hwait] using h.settled
  · simpa [hrqs] using h.received

/-- The transactions left when one is answered are about other requests. -/
theorem RunInv.rq_ne {s : CpuRun} {t u : Transaction} (h : RunInv s) (ht : t ∈ s.inFlight)
    (hu : u ∈ s.inFlight.erase t) : u.rq ≠ t.rq := by
  intro e
  have hut : u = t := List.inj_on_of_nodup_map h.flightNodup (List.mem_of_mem_erase hu) ht e
  subst hut
  exact (List.Nodup.of_map _ h.flightNodup).not_mem_erase hu

/-- While the thread waits for no response, every request in flight is posted. -/
theorem RunInv.all_posted {s : CpuRun} (h : RunInv s)
    (hpc : ∀ a rq, s.cpu.pc ≠ .doneWait a rq false) {t : Transaction} (ht : t ∈ s.inFlight) :
    s.posted t = true := by
  by_contra hp
  obtain ⟨a, hw⟩ := h.awaited t ht (by simpa using hp)
  exact hpc a t.rq hw

/-- A request is taken: it is new to the busy list, and every request in flight is posted. -/
theorem RunInv.take {s : CpuRun} {a : Access} {rq : Rq} {q : QemuWrapperRequests noRequests}
    (h : RunInv s) (hpc : s.cpu.pc.isQuiet = true) (hg : s.cpu.rqs.getNewRequest = some (rq, q)) :
    RunInv { s with cpu :=
      { s.cpu with rqs := q.setWrite rq a.bWrite, pc := .putting a rq } } := by
  have hq := QemuWrapperRequests.getNewRequest_spec h.pool hg
  have hnew : rq ∉ s.cpu.rqs.busyList := h.pool.not_busy_of_free (by rw [hq.free]; exact .head _)
  have hne {t : Transaction} (ht : t ∈ s.inFlight) : t.rq ≠ rq := by
    intro heq
    subst heq
    exact hnew (h.flight t ht).1
  have hall {t : Transaction} (ht : t ∈ s.inFlight) : s.posted t = true :=
    h.all_posted (fun a rq e => by rw [e] at hpc; cases hpc) ht
  have hbusy : (q.setWrite rq a.bWrite).busyList = rq :: s.cpu.rqs.busyList := hq.busy
  constructor
  · exact hq.ok.setWrite rq a.bWrite
  · exact h.flightNodup
  · intro t ht
    obtain ⟨hb, hd⟩ := h.flight t ht
    refine ⟨by rw [hbusy]; exact .tail _ hb, ?_⟩
    simpa [hq.bDone, hne ht] using hd
  · intro a' rq' e
    cases e
    refine ⟨by rw [hbusy]; exact .head _, ?_, ?_, fun t ht => hne ht⟩
    · simp [hq.bDone]
    · simp
  · intro t ht _ a' w e
    cases e
  · intro t ht hp
    have hp' : s.posted t = false := by
      simpa [CpuRun.posted, hq.bWrite, hne ht] using hp
    rw [hall ht] at hp'
    cases hp'
  · intro a' rq' w e
    cases e
  · intro rq' hb
    rw [hbusy] at hb
    rcases List.mem_cons.mp hb with rfl | hb
    · exact .inl ⟨a, rfl⟩
    · rcases h.settled rq' hb with ⟨a', e⟩ | hf | ⟨a', e⟩
      · rw [e] at hpc; cases hpc
      · exact .inr (.inl hf)
      · rw [e] at hpc; cases hpc
  · intro rq'
    have hr := h.received rq'
    show (q.setWrite rq a.bWrite).taken rq' = _
    rw [hbusy]
    by_cases e : rq' = rq
    · subst e
      simp only [hnew, false_and, if_false] at hr
      simp [hq.taken, hq.bDone, hr]
    · simp [hq.taken, hq.bDone, e, hr]

/-- A busy request that has had its response is freed; `pc` is what the thread does after. -/
theorem RunInv.free {s : CpuRun} {rq : Rq} {c : QemuCpuWrapper} {flight : List Transaction}
    {received : Rq → Nat} (h : RunInv s) (hb : rq ∈ s.cpu.rqs.busyList)
    (hc : c.rqs = (s.cpu.rqs.freeRequest rq).1)
    (hput : ∀ a rq', c.pc = .putting a rq' ↔ s.cpu.pc = .putting a rq')
    (hputNe : ∀ a, s.cpu.pc ≠ .putting a rq)
    (hwait : ∀ a rq' w, c.pc = .doneWait a rq' w ↔ s.cpu.pc = .doneWait a rq' w ∧ rq' ≠ rq)
    (hfl : flight.Sublist s.inFlight) (hmem : ∀ t ∈ s.inFlight, t.rq ≠ rq → t ∈ flight)
    (hne : ∀ t ∈ flight, t.rq ≠ rq)
    (hrec : ∀ rq', received rq' = s.received rq' +
      if rq' = rq ∧ s.cpu.rqs.bDone rq = false then 1 else 0) :
    RunInv ⟨c, flight, received⟩ := by
  have hf := QemuWrapperRequests.freeRequest_spec h.pool hb
  rw [← hc] at hf
  have hbusy (rq' : Rq) : rq' ∈ c.rqs.busyList ↔ rq' ≠ rq ∧ rq' ∈ s.cpu.rqs.busyList := by
    rw [hf.busy, h.pool.busy_nodup.mem_erase_iff]
  have hold {t : Transaction} (ht : t ∈ flight) : t ∈ s.inFlight := hfl.subset ht
  have hposted (t : Transaction) : CpuRun.posted ⟨c, flight, received⟩ t = s.posted t := by
    simp [CpuRun.posted, hf.bWrite]
  constructor
  · exact hf.ok
  · exact (hfl.map _).nodup h.flightNodup
  · intro t ht
    obtain ⟨htb, htd⟩ := h.flight t (hold ht)
    exact ⟨(hbusy _).mpr ⟨hne t ht, htb⟩, by simpa [hf.bDone] using htd⟩
  · intro a rq' e
    have e' := (hput a rq').mp e
    obtain ⟨h1, h2, h3, h4⟩ := h.putting a rq' e'
    have hrq : rq' ≠ rq := by
      intro heq
      subst heq
      exact hputNe a e'
    exact ⟨(hbusy _).mpr ⟨hrq, h1⟩, by simpa [hf.bDone] using h2, by simpa [hf.bWrite] using h3,
      fun t ht => h4 t (hold ht)⟩
  · intro t ht hp a w e
    exact h.posted t (hold ht) (by rw [← hposted]; exact hp) a w ((hwait a _ w).mp e).1
  · intro t ht hp
    obtain ⟨a, e⟩ := h.awaited t (hold ht) (by rw [← hposted]; exact hp)
    exact ⟨a, (hwait a _ false).mpr ⟨e, hne t ht⟩⟩
  · intro a rq' w e
    obtain ⟨e', hrq⟩ := (hwait a rq' w).mp e
    obtain ⟨h1, h2⟩ := h.waiting a rq' w e'
    exact ⟨(hbusy _).mpr ⟨hrq, h1⟩, by simpa [hf.bDone] using h2⟩
  · intro rq' hb'
    obtain ⟨hrq, hb'⟩ := (hbusy rq').mp hb'
    rcases h.settled rq' hb' with ⟨a, e⟩ | ⟨t, ht, rfl⟩ | ⟨a, e⟩
    · exact .inl ⟨a, (hput a rq').mpr e⟩
    · exact .inr (.inl ⟨t, hmem t ht hrq, rfl⟩)
    · exact .inr (.inr ⟨a, (hwait a rq' true).mpr ⟨e, hrq⟩⟩)
  · intro rq'
    have hr := h.received rq'
    simp only [hf.taken, hf.bDone, hbusy, hrec]
    by_cases e : rq' = rq
    · subst e
      simpa [hb] using hr
    · simpa [e] using hr

/-- The thread that was woken for its request frees it. -/
theorem RunInv.done {s : CpuRun} {a : Access} {rq : Rq} (h : RunInv s)
    (hpc : s.cpu.pc = .doneWait a rq true) : RunInv { s with cpu := s.cpu.awaitDone a rq } := by
  obtain ⟨hb, hd⟩ := h.waiting a rq true hpc
  have hne (t : Transaction) (ht : t ∈ s.inFlight) : t.rq ≠ rq := by
    intro heq
    subst heq
    rw [(h.flight t ht).2] at hd
    cases hd
  have hc : s.cpu.awaitDone a rq = { s.cpu.freeRequest rq with pc := .idle } := by
    simp [QemuCpuWrapper.awaitDone, ← hd]
  rw [hc]
  refine h.free hb rfl (fun a' rq' => ?_) (fun a' e => ?_) (fun a' rq' w => ?_)
    (List.Sublist.refl _) (fun t ht _ => ht) hne fun rq' => ?_
  · rw [hpc]
    exact iff_of_false (fun e => (by cases e)) fun e => (by cases e)
  · rw [hpc] at e
    cases e
  · rw [hpc]
    refine iff_of_false (fun e => (by cases e)) ?_
    intro hyp
    obtain ⟨e, hrq⟩ := hyp
    cases e
    exact hrq rfl
  · simp [← hd]

/-- `put` returns: the request is in flight, and the thread waits for it unless it is posted. -/
theorem RunInv.putReturns {s : CpuRun} {a : Access} {rq : Rq} {c : QemuCpuWrapper} (h : RunInv s)
    (hpc : s.cpu.pc = .putting a rq) (hc : s.cpu.putReturns = some c) :
    RunInv { s with cpu := c, inFlight := ⟨rq, s.cpu.unblockingWrite⟩ :: s.inFlight } := by
  obtain ⟨hb, hd, hw, hnew⟩ := h.putting a rq hpc
  have hposted (t : Transaction) (ht : t ∈ s.inFlight) : s.posted t = true :=
    h.all_posted (fun a rq e => by rw [hpc] at e; cases e) ht
  have hc' : c.rqs = s.cpu.rqs ∧ c.pc =
      if s.cpu.rqs.bWrite rq && s.cpu.unblockingWrite then .idle else .doneWait a rq false := by
    rw [QemuCpuWrapper.putReturns_eq hpc hd, Option.some.injEq] at hc
    rw [← hc, hw]
    exact ⟨rfl, rfl⟩
  obtain ⟨hrqs, hpc'⟩ := hc'
  have hnput (a' : Access) (rq' : Rq) : c.pc ≠ .putting a' rq' := by
    rw [hpc']
    split <;> exact fun e => (by cases e)
  constructor
  · simpa [hrqs] using h.pool
  · rw [List.map_cons, List.nodup_cons]
    refine ⟨fun hm => ?_, h.flightNodup⟩
    obtain ⟨t, ht, e⟩ := List.mem_map.mp hm
    exact hnew t ht e
  · intro t ht
    rw [hrqs]
    rcases List.mem_cons.mp ht with rfl | ht
    · exact ⟨hb, hd⟩
    · exact h.flight t ht
  · intro a' rq' e
    exact absurd e (hnput a' rq')
  · intro t ht hp a' w e
    rw [hpc'] at e
    simp only [CpuRun.posted, hrqs] at hp
    rcases List.mem_cons.mp ht with rfl | hold
    · rw [if_pos hp] at e
      cases e
    · split at e
      · cases e
      · cases e
        exact hnew t hold rfl
  · intro t ht hp
    simp only [CpuRun.posted, hrqs] at hp
    rcases List.mem_cons.mp ht with rfl | ht
    · exact ⟨a, by rw [hpc', if_neg (by simpa using hp)]⟩
    · rw [← CpuRun.posted, hposted t ht] at hp
      cases hp
  · intro a' rq' w e
    rw [hpc'] at e
    split at e
    · cases e
    · cases e
      rw [hrqs]
      exact ⟨hb, hd.symm⟩
  · intro rq' hb'
    rw [hrqs] at hb'
    rcases h.settled rq' hb' with ⟨a', e⟩ | ⟨t, ht, e⟩ | ⟨a', e⟩
    · rw [hpc] at e
      cases e
      exact .inr (.inl ⟨_, .head _, rfl⟩)
    · exact .inr (.inl ⟨t, .tail _ ht, e⟩)
    · rw [hpc] at e
      cases e
  · simpa [hrqs] using h.received

/-- The thread waiting for `rq`, if any, is woken. -/
theorem notifyDone_eq_doneWait {rq rq' : Rq} {pc : CpuPc} {a : Access} {w : Bool} :
    pc.notifyDone rq = .doneWait a rq' w ↔
      ∃ w', pc = .doneWait a rq' w' ∧ w = (w' || rq' == rq) := by
  cases pc with
  | doneWait b r v =>
      simp only [CpuPc.notifyDone, CpuPc.doneWait.injEq]
      constructor
      · intro hyp
        obtain ⟨rfl, rfl, rfl⟩ := hyp
        exact ⟨v, ⟨rfl, rfl, rfl⟩, rfl⟩
      · intro hyp
        obtain ⟨w', ⟨rfl, rfl, rfl⟩, rfl⟩ := hyp
        exact ⟨rfl, rfl, rfl⟩
  | _ => simp [CpuPc.notifyDone]

theorem notifyDone_eq_putting {rq rq' : Rq} {pc : CpuPc} {a : Access} :
    pc.notifyDone rq = .putting a rq' ↔ pc = .putting a rq' := by
  cases pc <;> simp [CpuPc.notifyDone]

/-- The response of a request the thread waits for. -/
theorem RunInv.answer {s : CpuRun} {t : Transaction} {data : ULong} (h : RunInv s)
    (ht : t ∈ s.inFlight) (hp : s.posted t = false) :
    RunInv {
      cpu := { s.cpu with
        rqs := s.cpu.rqs.setDone t.rq data
        pc := s.cpu.pc.notifyDone t.rq }
      inFlight := s.inFlight.erase t
      received := Function.update s.received t.rq (s.received t.rq + 1) } := by
  obtain ⟨hb, hd⟩ := h.flight t ht
  obtain ⟨a, hpc⟩ := h.awaited t ht hp
  have hold {u : Transaction} (hu : u ∈ s.inFlight.erase t) : u ∈ s.inFlight := List.mem_of_mem_erase hu
  have hne {u : Transaction} (hu : u ∈ s.inFlight.erase t) : u.rq ≠ t.rq := h.rq_ne ht hu
  have hpc' : s.cpu.pc.notifyDone t.rq = .doneWait a t.rq true := by
    rw [notifyDone_eq_doneWait]
    exact ⟨false, hpc, by simp⟩
  constructor
  · exact h.pool.setDone _ _
  · exact ((List.erase_sublist).map _).nodup h.flightNodup
  · intro u hu
    obtain ⟨hub, hud⟩ := h.flight u (hold hu)
    refine ⟨hub, ?_⟩
    simpa [hne hu] using hud
  · intro a' rq' e
    rw [hpc'] at e
    cases e
  · intro u hu _ a' w e
    rw [hpc', CpuPc.doneWait.injEq] at e
    exact hne hu e.2.1.symm
  · intro u hu hp'
    obtain ⟨a', e⟩ := h.awaited u (hold hu) hp'
    rw [hpc, CpuPc.doneWait.injEq] at e
    exact absurd e.2.1.symm (hne hu)
  · intro a' rq' w e
    rw [hpc'] at e
    cases e
    exact ⟨hb, by simp⟩
  · intro rq' hb'
    rcases h.settled rq' hb' with ⟨a', e⟩ | ⟨u, hu, rfl⟩ | ⟨a', e⟩
    · rw [hpc] at e
      cases e
    · by_cases e : u = t
      · subst e
        exact .inr (.inr ⟨a, hpc'⟩)
      · exact .inr (.inl ⟨u, (List.mem_erase_of_ne e).mpr hu, rfl⟩)
    · rw [hpc] at e
      cases e
  · intro rq'
    have hr := h.received rq'
    by_cases e : rq' = t.rq
    · subst e
      simp only [hb, hd, and_self, if_true] at hr
      simpa using hr
    · simpa [e] using hr

/-- The response of a posted write: the response thread frees the request. -/
theorem RunInv.free_posted {s : CpuRun} {t : Transaction} (h : RunInv s) (ht : t ∈ s.inFlight)
    (hp : s.posted t = true) :
    RunInv {
      cpu := s.cpu.freeRequest t.rq
      inFlight := s.inFlight.erase t
      received := Function.update s.received t.rq (s.received t.rq + 1) } := by
  obtain ⟨hb, hd⟩ := h.flight t ht
  refine h.free hb rfl (fun a rq => Iff.rfl) (fun a e => ?_) (fun a rq w => ?_) List.erase_sublist
    (fun u hu hne => ?_) (fun u hu => h.rq_ne ht hu) fun rq => ?_
  · exact (h.putting a t.rq e).2.2.2 t ht rfl
  · refine ⟨fun e => ⟨e, ?_⟩, And.left⟩
    intro heq
    subst heq
    exact h.posted t ht hp a w e
  · refine (List.mem_erase_of_ne ?_).mpr hu
    intro heq
    subst heq
    exact hne rfl
  · by_cases e : rq = t.rq
    · subst e
      simp [hd]
    · simp [e]

theorem noRequests_le : noRequests ≤ 255 := by decide

theorem RunInv.turn {s : CpuRun} {c : QemuCpuWrapper} (h : RunInv s) (ht : Turn s.cpu c) :
    RunInv { s with cpu := c } := by
  cases ht with
  | quiet hpc hrqs _ => exact h.quiet hpc hrqs
  | take a rq q hpc _ hg hc =>
      subst hc
      exact h.take hpc hg
  | done a rq hpc hc =>
      subst hc
      exact h.done hpc

theorem RunInv.step {s s' : CpuRun} {l : RunLabel} (h : RunInv s) (hs : RunStep s l s')
    (hl : s.ModeSteady l) : RunInv s' := by
  cases hs with
  | call hc => exact h.turn (turn_of_call hc)
  | waitWbEmpty hc => exact h.turn (turn_of_waitWbEmpty hc)
  | putReturns hpc hc => exact h.putReturns hpc hc
  | resume hc => exact h.turn (turn_of_resume hc)
  | fireEvEmpty hc => exact h.turn (turn_of_fireEvEmpty hc)
  | @response t data ht =>
      have hb := (h.flight t ht).1
      have hget := QemuWrapperRequests.getRequestByTid_eq_some h.pool noRequests_le hb
      simp only [QemuCpuWrapper.rcvRsp, hget]
      by_cases hw : s.cpu.rqs.bWrite t.rq = true
      · have hm := hl hw
        cases hmode : s.cpu.unblockingWrite with
        | true =>
            rw [hmode] at hm
            simpa [hw] using h.free_posted ht (by simp [CpuRun.posted, hw, ← hm])
        | false =>
            rw [hmode] at hm
            simpa [hmode] using h.answer ht (by simp [CpuRun.posted, ← hm])
      · have hw' : s.cpu.rqs.bWrite t.rq = false := by simpa using hw
        simpa [hw'] using h.answer ht (by simp [CpuRun.posted, hw'])
  | setUnblockingWrite val =>
      exact ⟨h.pool, h.flightNodup, h.flight, h.putting, h.posted, h.awaited, h.waiting, h.settled,
        h.received⟩

theorem runInv_reach {s : CpuRun} (h : steadyMachine.Reach s) : RunInv s := by
  refine h.invariant (I := RunInv) ?_ ?_
  · intro s heq
    subst heq
    exact runInv_start
  · intro s s' _ hi hyp
    obtain ⟨l, hs, hl⟩ := hyp
    exact hi.step hs hl

/-! ## 4. A response under the other mode -/

/-- A waited-for write whose response meets the posted mode: the response thread frees the request
    and the CPU thread goes on waiting for it. -/
theorem lost_waiter {s s' : CpuRun} {t : Transaction} {data : ULong} (h : RunInv s)
    (hs : RunStep s (.response t data) s') (hw : s.cpu.rqs.bWrite t.rq = true)
    (hu : s.cpu.unblockingWrite = true) (ht : t.unblocking = false) :
    ∃ a, s'.cpu.pc = .doneWait a t.rq false ∧ t.rq ∈ s'.cpu.rqs.freeList := by
  cases hs with
  | response _ hmem =>
      have hb := (h.flight t hmem).1
      have hget := QemuWrapperRequests.getRequestByTid_eq_some h.pool noRequests_le hb
      have hf := QemuWrapperRequests.freeRequest_spec h.pool hb
      obtain ⟨a, hpc⟩ := h.awaited t hmem (by simp [CpuRun.posted, ht])
      simp only [QemuCpuWrapper.rcvRsp, hget, hw, hu, Bool.and_self, if_true]
      refine ⟨a, hpc, ?_⟩
      show t.rq ∈ (s.cpu.rqs.freeRequest t.rq).1.freeList
      rw [hf.free]
      exact List.mem_cons_self

/-- A posted write whose response meets the waiting mode: the request is marked done, and no thread
    waits for it. -/
theorem leaked_request {s s' : CpuRun} {t : Transaction} {data : ULong} (h : RunInv s)
    (hs : RunStep s (.response t data) s') (hw : s.cpu.rqs.bWrite t.rq = true)
    (hu : s.cpu.unblockingWrite = false) (ht : t.unblocking = true) :
    t.rq ∈ s'.cpu.rqs.busyList ∧ (∀ a, s'.cpu.pc ≠ .putting a t.rq) ∧
      (∀ u ∈ s'.inFlight, u.rq ≠ t.rq) ∧ ∀ a w, s'.cpu.pc ≠ .doneWait a t.rq w := by
  cases hs with
  | response _ hmem =>
      have hb := (h.flight t hmem).1
      have hget := QemuWrapperRequests.getRequestByTid_eq_some h.pool noRequests_le hb
      simp only [QemuCpuWrapper.rcvRsp, hget, hu, Bool.false_and, Bool.false_eq_true, if_false]
      refine ⟨hb, fun a e => ?_, fun u hmem' => h.rq_ne hmem hmem', fun a w e => ?_⟩
      · exact (h.putting a t.rq (notifyDone_eq_putting.mp e)).2.2.2 t hmem rfl
      · obtain ⟨w', e', -⟩ := notifyDone_eq_doneWait.mp e
        exact h.posted t hmem (by simp [CpuRun.posted, hw, ht]) a w' e'

/-- **The pool under mode changes**: a run in which every response of a write meets the mode its
    `put` returned under loses no request, and the first response that meets the other mode does. -/
theorem poolSafe_of_steady {s : CpuRun} (h : steadyMachine.Reach s) :
    PoolSafe s ∧ ∀ t data s', RunStep s (.response t data) s' →
      (PoolSafe s' ↔ s.ModeSteady (.response t data)) := by
  have hi := runInv_reach h
  refine ⟨poolSafe_of_runInv hi, fun t data s' hs => ⟨fun hsafe hw => ?_, fun hm => ?_⟩⟩
  · by_contra hne
    cases hu : s.cpu.unblockingWrite with
    | true =>
        have ht : t.unblocking = false := by simpa [hu] using Ne.symm hne
        obtain ⟨a, hpc, hfree⟩ := lost_waiter hi hs hw hu ht
        exact hsafe.waiter a t.rq false hpc hfree
    | false =>
        have ht : t.unblocking = true := by simpa [hu] using Ne.symm hne
        obtain ⟨hb, h1, h2, h3⟩ := leaked_request hi hs hw hu ht
        rcases hsafe.noLeak t.rq hb with ⟨a, e⟩ | ⟨u, hmem, e⟩ | ⟨a, e, -⟩
        · exact h1 a e
        · exact h2 u hmem e
        · exact h3 a true e
  · exact poolSafe_of_runInv (hi.step hs hm)

/-- A write of one word. -/
def someWrite : Access := ⟨0x1000#32, 7#32, 4, true, false⟩

/-- A posted write is in flight, and its response arrives in posted mode. -/
theorem poolSafe_of_steady_write :
    ∃ s s' t, steadyMachine.Reach s ∧ RunStep s (.response t 0#32) s' ∧ PoolSafe s' := by
  have h0 : steadyMachine.Reach .start := .start rfl
  have h1 := h0.step ⟨_, .call (a := someWrite) rfl, trivial⟩
  have h2 := h1.step ⟨_, .putReturns rfl rfl, trivial⟩
  exact ⟨_, _, _, h2, .response 0#32 (.head _),
    ((poolSafe_of_steady h2).2 _ _ _ (.response 0#32 (.head _))).mpr fun _ => rfl⟩

/-- Both ways to go wrong: a mode change while the CPU thread waits for its write, and one while a
    posted write is in flight. -/
theorem mode_change_breaks_pool :
    (∃ s, cpuMachine.Reach s ∧ ∃ rq, s.cpu.pc = .doneWait someWrite rq false ∧
        rq ∈ s.cpu.rqs.freeList ∧ ¬ PoolSafe s) ∧
      ∃ s, cpuMachine.Reach s ∧ s.cpu.pc = .idle ∧ s.inFlight = [] ∧
        s.cpu.rqs.busyList ≠ [] ∧ ¬ PoolSafe s := by
  have h0 : cpuMachine.Reach .start := .start rfl
  constructor
  · have h1 := h0.step ⟨_, .setUnblockingWrite false⟩
    have h2 := h1.step ⟨_, .call (a := someWrite) rfl⟩
    have h3 := h2.step ⟨_, .putReturns rfl rfl⟩
    have h4 := h3.step ⟨_, .setUnblockingWrite true⟩
    have h5 := h4.step ⟨_, .response 0#32 (.head _)⟩
    refine ⟨_, h5, _, rfl, .head _, fun h => ?_⟩
    exact h.waiter someWrite _ false rfl (.head _)
  · have h1 := h0.step ⟨_, .call (a := someWrite) rfl⟩
    have h2 := h1.step ⟨_, .putReturns rfl rfl⟩
    have h3 := h2.step ⟨_, .setUnblockingWrite false⟩
    have h4 := h3.step ⟨_, .response 0#32 (.head _)⟩
    refine ⟨_, h4, rfl, rfl, fun h => (by cases h), fun h => ?_⟩
    rcases h.noLeak _ (.head _) with ⟨a, e⟩ | ⟨t, ht, -⟩ | ⟨a, e, -⟩
    · cases e
    · cases ht
    · cases e

end Rabbits
