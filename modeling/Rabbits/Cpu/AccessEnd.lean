/-
  File:      Rabbits/Cpu/AccessEnd.lean
  Subject:   Every access of a CPU comes to its end (qemu_cpu_wrapper.cpp: read, write, wait_wb_empty,
             rcv_rsp; qemu_wrapper_request.cpp: GetNewRequest, FreeRequest, WaitWBEmpty).

  CPUs and other masters on one bus (Soc.lean). The masters put requests for mapped addresses, and the
  slaves answer; the order of all threads is arbitrary.

  * `QemuCpuWrapper.Awake` -- a thread that sleeps in `wait (m_evEmpty)` has the event before it;
  * `AccessInv` -- the invariant of the platform;
  * `Soc.rank`, `rank_lt` -- **each step of the platform's own lowers the rank**: a new access or a new
    call of another master aside, what is left to do gets less;
  * `accesses_end` -- **every run of such steps is bounded, and where it cannot go on every CPU thread
    is outside its accesses, every pool is full, and every request is answered**.
-/
import Rabbits.Cpu.Soc
import Rabbits.Noc.Drain

namespace Rabbits

open Lib Crossbar

universe u v

/-! ## 1. No wakeup is lost -/

/-- The thread sleeps until `m_evEmpty`. -/
def CpuPc.sleeps : CpuPc → Bool
  | .emptyWait _ woken => !woken
  | .wbWait woken => !woken
  | _ => false

/-- The access that still has to be put. -/
def CpuPc.access : CpuPc → Option Access
  | .emptyWait a _ => some a
  | .putting a _ => some a
  | _ => none

namespace QemuCpuWrapper

variable {c c' : QemuCpuWrapper}

/-- `m_evEmpty` is notified, or will be when the last busy request is freed. -/
def Coming (c : QemuCpuWrapper) : Prop := c.rqs.headBusy.isSome = true ∨ c.evEmpty = true

/-- A thread that sleeps has the event before it. -/
def Awake (c : QemuCpuWrapper) : Prop := c.pc.sleeps = true → c.Coming

theorem freeRequest_coming (h : c.Coming) (rq : Rq) : (c.freeRequest rq).Coming := by
  unfold Coming at h ⊢
  simp only [freeRequest, QemuWrapperRequests.freeRequest]
  cases unlink c.rqs.next rq noRequests c.rqs.headBusy with
  | none => simpa using h
  | some r =>
      obtain ⟨headBusy, next⟩ := r
      cases headBusy <;> simp

theorem freeRequest_pc (c : QemuCpuWrapper) (rq : Rq) : (c.freeRequest rq).pc = c.pc := rfl

theorem sleeps_notifyDone (rq : Rq) (pc : CpuPc) : (pc.notifyDone rq).sleeps = pc.sleeps := by
  cases pc <;> rfl

theorem access_notifyDone (rq : Rq) (pc : CpuPc) : (pc.notifyDone rq).access = pc.access := by
  cases pc <;> rfl

/-- What a response does to the thread and to its event. -/
theorem rcvRsp_spec (c : QemuCpuWrapper) (tid : Byte) (data : ULong) :
    (c.rcvRsp tid data).pc.sleeps = c.pc.sleeps ∧ (c.rcvRsp tid data).pc.access = c.pc.access ∧
      (c.Coming → (c.rcvRsp tid data).Coming) := by
  unfold rcvRsp
  split
  · exact ⟨rfl, rfl, id⟩
  · next rq _ =>
      split
      · exact ⟨rfl, rfl, fun h => freeRequest_coming h rq⟩
      · exact ⟨sleeps_notifyDone rq c.pc, access_notifyDone rq c.pc, id⟩

/-- What `GetNewRequest` and the code behind it do to them. -/
theorem takeRequest_spec {a : Access} (h : c.takeRequest a = some c') :
    c'.pc.sleeps = false ∧ c'.pc.access = some a := by
  obtain ⟨⟨rq, q⟩, -, rfl⟩ := Option.map_eq_some_iff.mp h
  exact ⟨rfl, rfl⟩

theorem getEmpty_spec {a : Access} (h : c.getEmpty a = some c') :
    c'.Awake ∧ c'.pc.access = some a := by
  unfold getEmpty at h
  split at h
  · next hbusy =>
      cases h
      exact ⟨fun _ => .inl hbusy, rfl⟩
  · obtain ⟨hs, ha⟩ := takeRequest_spec h
    exact ⟨fun e => (by rw [hs] at e; cases e), ha⟩

theorem awaitDone_spec (c : QemuCpuWrapper) (a : Access) (rq : Rq) :
    (c.awaitDone a rq).pc.sleeps = false ∧ (c.awaitDone a rq).pc.access = none := by
  unfold awaitDone
  split <;> exact ⟨rfl, rfl⟩

end QemuCpuWrapper

section Cpu

variable {s s' : CpuRun} {l : RunLabel}

/-- A step of a CPU keeps the event of a sleeping thread before it, and an access to be put was called
    for, or was there before. -/
theorem awake_step (h : s.cpu.Awake) (hs : RunStep s l s') :
    s'.cpu.Awake ∧ ∀ a, s'.cpu.pc.access = some a → s.cpu.pc.access = some a ∨ l = .call a := by
  have quiet {c : QemuCpuWrapper} (hc : c.pc.sleeps = false) : c.Awake := fun e => by
    rw [hc] at e
    cases e
  cases hs with
  | @call a c hc =>
      unfold QemuCpuWrapper.call at hc
      split at hc
      · split at hc
        · obtain ⟨haw, ha⟩ := QemuCpuWrapper.getEmpty_spec hc
          exact ⟨haw, fun a' e => .inr (by rw [ha] at e; cases e; rfl)⟩
        · obtain ⟨hq, ha⟩ := QemuCpuWrapper.takeRequest_spec hc
          exact ⟨quiet hq, fun a' e => .inr (by rw [ha] at e; cases e; rfl)⟩
      · cases hc
  | waitWbEmpty hc =>
      unfold QemuCpuWrapper.waitWbEmpty at hc
      split at hc
      · split at hc
        · next hbusy =>
            cases hc
            exact ⟨fun _ => .inl hbusy, fun a e => by cases e⟩
        · cases hc
          exact ⟨h, fun a e => .inl e⟩
      · cases hc
  | @putReturns a rq c hpc hc =>
      simp only [QemuCpuWrapper.putReturns, hpc] at hc
      split at hc <;> cases hc
      · exact ⟨quiet rfl, fun a e => by cases e⟩
      · obtain ⟨hq, ha⟩ := s.cpu.awaitDone_spec a rq
        exact ⟨quiet hq, fun a' e => by rw [ha] at e; cases e⟩
  | resume hc =>
      unfold QemuCpuWrapper.resume at hc
      split at hc
      · next a hpc =>
          obtain ⟨haw, ha⟩ := QemuCpuWrapper.getEmpty_spec hc
          refine ⟨haw, fun a' e => .inl ?_⟩
          rw [ha] at e
          rw [hpc, ← e]
          rfl
      · next a rq hpc =>
          cases hc
          obtain ⟨hq, ha⟩ := s.cpu.awaitDone_spec a rq
          exact ⟨quiet hq, fun a' e => by rw [ha] at e; cases e⟩
      · cases hc
        by_cases hbusy : s.cpu.rqs.headBusy.isSome = true
        · exact ⟨fun _ => .inl hbusy, fun a e => by simp [hbusy, CpuPc.access] at e⟩
        · exact ⟨quiet (by simp [hbusy, CpuPc.sleeps]), fun a e => by simp [hbusy, CpuPc.access] at e⟩
      · cases hc
  | fireEvEmpty hc =>
      unfold QemuCpuWrapper.fireEvEmpty at hc
      split at hc
      · cases hc
        cases hpc : s.cpu.pc <;>
          exact ⟨quiet rfl, fun a e => .inl e⟩
      · cases hc
  | @response t data ht =>
      obtain ⟨hq, ha, hcoming⟩ := s.cpu.rcvRsp_spec (tidOf t.rq) data
      exact ⟨fun e => hcoming (h (hq ▸ e)), fun a e => .inl (ha ▸ e)⟩
  | setUnblockingWrite val => exact ⟨h, fun a e => .inl e⟩

end Cpu

/-! ## 2. The platform -/

section Platform

variable {n k : Nat} {D : Type u} {T : Type v} [DecidableEq T] {setup : SocSetup n k T D}
  {x x' : Soc n k T D} {l : SocLabel n k T}

/-- The access is to a mapped address. -/
def Mapped (setup : SocSetup n k T D) (c : Fin n) (a : Access) : Prop :=
  ∀ rq, Admissible setup.toBusSetup c (cpuReq c a rq)

/-- CPUs are called for mapped addresses, and the other masters put such requests. -/
def SocLabel.Mapped (setup : SocSetup n k T D) : SocLabel n k T → Prop
  | .cpu c (.call a) => Rabbits.Mapped setup c a
  | .cpu _ _ => True
  | .bus l => l.Meets (Admissible setup.toBusSetup)

/-- The runs with mapped addresses. -/
def mappedMachine (setup : SocSetup n k T D) : Machine (Soc n k T D) where
  init x := x = .start setup
  step x x' := ∃ l, SocStep setup x l x' ∧ l.Mapped setup

omit [DecidableEq T] in
theorem SocLabel.Mapped.meets (h : l.Mapped setup) : l.Meets (Admissible setup.toBusSetup) := by
  cases l with
  | cpu c l => trivial
  | bus l => exact h

omit [DecidableEq T] in
theorem admissible_wellSent (m : Fin n) (req : VciRequest)
    (h : Admissible setup.toBusSetup m req) : WellSent m req :=
  ⟨h.cmd, h.srcid⟩

/-- The bus is on its way, each CPU is in its mode, no thread misses its event, and what is to be put
    is for a mapped address. -/
structure AccessInv (setup : SocSetup n k T D) (x : Soc n k T D) : Prop where
  bus : OnTheWay setup.toBusSetup x.bus
  soc : SocInv setup (Admissible setup.toBusSetup) x
  awake : ∀ c, setup.isCpu c = true → (x.cpu c).cpu.Awake
  mapped : ∀ c, setup.isCpu c = true → ∀ a, (x.cpu c).cpu.pc.access = some a → Mapped setup c a

/-- What a step of the platform is to the bus. -/
theorem bus_of_socStep (hs : SocStep setup x l x') :
    (∃ c rl, l = .cpu c rl ∧ x'.bus = x.bus) ∨
      ∃ bl, l = .bus bl ∧ BusStep setup.toBusSetup x.bus bl x'.bus := by
  cases hs with
  | turn hc hl h => exact .inl ⟨_, _, rfl, rfl⟩
  | put hc hpc h => exact .inr ⟨_, rfl, h⟩
  | putAgain hc h => exact .inr ⟨_, rfl, h⟩
  | other hm hl h => exact .inr ⟨_, rfl, h⟩
  | deliver h => exact .inr ⟨_, rfl, h⟩
  | serve h => exact .inr ⟨_, rfl, h⟩
  | tau h => exact .inr ⟨_, rfl, h⟩

/-- What a step of the platform is to a CPU: nothing, or a step of its own. -/
theorem cpu_of_socStep (h : SocInv setup (Admissible setup.toBusSetup) x)
    (hs : SocStep setup x l x') {c : Fin n} (hc : setup.isCpu c = true) :
    x'.cpu c = x.cpu c ∨ ∃ rl, RunStep (x.cpu c) rl (x'.cpu c) ∧
      ∀ a, rl = .call a → l = .cpu c (.call a) := by
  have htry {m : Fin n} {b : Bus n k T D} {a : Access} {rq : Rq}
      (hpc : (x.cpu m).cpu.pc = .putting a rq) : (x.afterTry setup.cpuThread m b).cpu c = x.cpu c ∨ ∃ rl,
        RunStep (x.cpu c) rl ((x.afterTry setup.cpuThread m b).cpu c) ∧
          ∀ a, rl = .call a → l = .cpu c (.call a) := by
    by_cases e : c = m
    · subst e
      simp only [Soc.afterTry, Function.update_self]
      split
      · exact .inr ⟨_, (afterPut_step hpc).1, fun a e => by cases e⟩
      · exact .inl rfl
    · exact .inl (Function.update_of_ne e _ _)
  cases hs with
  | @turn m rl s hm hl hstep =>
      by_cases e : c = m
      · subst e
        simp only [Function.update_self]
        exact .inr ⟨rl, hstep, fun a e => by rw [e]⟩
      · exact .inl (Function.update_of_ne e _ _)
  | put hm hpc hb => exact htry hpc
  | @putAgain m req b hm hb =>
      have hblocked : x.bus.net.req.blocked m setup.cpuThread = some req := by
        cases hb with
        | resumePut hr => cases hr with | resumePut hb _ => exact hb
      obtain ⟨-, a, rq, hpc, -⟩ := h.blocked m hm _ req hblocked
      exact htry hpc
  | @deliver m r b hb =>
      by_cases e : c = m
      · subst e
        simp only [hc, if_true, Function.update_self]
        cases r with
        | none => exact .inl rfl
        | some rsp =>
            obtain ⟨hsrc, hreop⟩ := h.bus.delivered hb
            obtain ⟨t, data, -, -, hstep, -⟩ := receive_step hsrc hreop
              (h.tid_inFlight admissible_wellSent hc hb)
            exact .inr ⟨_, hstep, fun a e => by cases e⟩
      · refine .inl ?_
        split
        · exact Function.update_of_ne e _ _
        · rfl
  | _ => exact .inl rfl

theorem accessInv_start : AccessInv setup (.start setup) where
  bus := onTheWay_of_reach (.start rfl)
  soc := socInv_start
  awake c _ e := by cases e
  mapped c _ a e := by cases e

/-- **Every step of the platform keeps the invariant.** -/
theorem AccessInv.step (h : AccessInv setup x) (hs : SocStep setup x l x') (hl : l.Mapped setup) :
    AccessInv setup x' := by
  refine ⟨?_, h.soc.step admissible_wellSent hs hl.meets, fun c hc => ?_, fun c hc a ha => ?_⟩
  · rcases bus_of_socStep hs with ⟨c, rl, -, e⟩ | ⟨bl, rfl, hb⟩
    · rw [e]
      exact h.bus
    · exact ⟨h.bus.reach.step ⟨bl, hb, hl⟩,
        h.bus.flow.step (busInv_reach h.bus.reach) (fun _ _ hp => hp.cmd) hb⟩
  · rcases cpu_of_socStep h.soc hs hc with e | ⟨rl, hstep, -⟩
    · rw [e]
      exact h.awake c hc
    · exact (awake_step (h.awake c hc) hstep).1
  · rcases cpu_of_socStep h.soc hs hc with e | ⟨rl, hstep, hcall⟩
    · rw [e] at ha
      exact h.mapped c hc a ha
    · rcases (awake_step (h.awake c hc) hstep).2 a ha with e | e
      · exact h.mapped c hc a e
      · rw [hcall a e] at hl
        exact hl

theorem accessInv_reach (h : (mappedMachine setup).Reach x) : AccessInv setup x := by
  refine h.invariant (I := AccessInv setup) (fun x e => ?_) fun x x' _ hi hs => ?_
  · rw [show x = .start setup from e]
    exact accessInv_start
  · obtain ⟨l, hstep, hl⟩ := hs
    exact hi.step hstep hl

end Platform

/-! ## 3. What is left to do -/

/-- What is left for the CPU thread: `cost` for an access before its `put`. -/
def CpuPc.todo (cost : Nat) (called : Bool) : CpuPc → Nat
  | .idle => 0
  | .emptyWait _ woken => cost + woken.toNat
  | .putting _ _ => if called then 3 else cost
  | .doneWait _ _ _ => 3
  | .wbWait woken => woken.toNat

namespace QemuCpuWrapper

/-- The same, with the notification that is under way. -/
def todo (cost : Nat) (called : Bool) (c : QemuCpuWrapper) : Nat :=
  c.pc.todo cost called + if c.evEmpty then 2 else 0

variable {c c' : QemuCpuWrapper} {cost : Nat} {called : Bool}

theorem ev_le (b : Bool) : (if b then 2 else 0) ≤ 2 := by
  cases b <;> decide

/-- A thread that was woken goes on. -/
theorem resume_todo (hdone : ∀ a rq, c.pc = .doneWait a rq true → c.rqs.bDone rq = true)
    (h : c.resume = some c') : c'.todo cost false < c.todo cost false := by
  unfold resume at h
  split at h
  · next a hpc =>
      have hbefore : c.todo cost false = cost + 1 + if c.evEmpty then 2 else 0 := by
        rw [todo, hpc]
        rfl
      rw [hbefore]
      unfold getEmpty at h
      split at h
      · cases h
        show cost + 0 + (if c.evEmpty then 2 else 0) < _
        omega
      · obtain ⟨⟨rq, q⟩, -, rfl⟩ := Option.map_eq_some_iff.mp h
        show cost + (if c.evEmpty then 2 else 0) < _
        omega
  · next a rq hpc =>
      cases h
      have hidle : c.awaitDone a rq = { c.freeRequest rq with pc := .idle } := by
        rw [awaitDone, if_pos (hdone a rq hpc)]
      have hle := ev_le (c.freeRequest rq).evEmpty
      rw [hidle, todo, todo, hpc]
      show 0 + (if (c.freeRequest rq).evEmpty then 2 else 0) < 3 + _
      omega
  · next hpc =>
      cases h
      rw [todo, todo, hpc]
      show CpuPc.todo cost false (if _ then _ else _) + _ < 1 + _
      split
      · exact Nat.add_lt_add_right Nat.zero_lt_one _
      · exact Nat.add_lt_add_right Nat.zero_lt_one _
  · cases h

/-- The event takes effect. -/
theorem fireEvEmpty_todo (h : c.fireEvEmpty = some c') : c'.todo cost called < c.todo cost called := by
  unfold fireEvEmpty at h
  split at h
  · next hev =>
      cases h
      rw [todo, todo, if_pos hev]
      cases hpc : c.pc with
      | emptyWait a w =>
          show cost + 1 + 0 < cost + w.toNat + 2
          omega
      | wbWait w =>
          show 1 + 0 < w.toNat + 2
          omega
      | _ => exact Nat.add_lt_add_left Nat.two_pos _
  · cases h

/-- A `put` that returns leaves at most the wait for the response. -/
theorem putReturns_todo {a : Access} {rq : Rq} (hpc : c.pc = .putting a rq)
    (hd : c.rqs.bDone rq = false) (h : c.putReturns = some c') :
    c'.todo cost called ≤ 3 + if c.evEmpty then 2 else 0 := by
  rw [putReturns_eq hpc hd, Option.some.injEq] at h
  subst h
  rw [todo]
  refine Nat.add_le_add_right ?_ _
  show CpuPc.todo cost called (if _ then _ else _) ≤ 3
  split
  · exact Nat.zero_le 3
  · exact Nat.le_refl 3

theorem todo_notifyDone (rq : Rq) (pc : CpuPc) :
    (pc.notifyDone rq).todo cost called = pc.todo cost called := by
  cases pc <;> rfl

/-- A response notifies `m_evEmpty` at most. -/
theorem rcvRsp_todo (c : QemuCpuWrapper) (tid : Byte) (data : ULong) :
    (c.rcvRsp tid data).todo cost called ≤ c.todo cost called + 2 := by
  unfold rcvRsp
  split
  · omega
  · next rq _ =>
      split
      · have hle := ev_le (c.freeRequest rq).evEmpty
        rw [todo, todo, freeRequest_pc]
        omega
      · show (c.pc.notifyDone rq).todo cost called + (if c.evEmpty then 2 else 0) ≤ _
        rw [todo_notifyDone, todo]
        omega

end QemuCpuWrapper

section Rank

variable {n k : Nat} {D : Type u} {T : Type v} [Fintype T]

variable (n k T) in
/-- What a call of `put` adds to the rank of the bus, at most. -/
def putCost : Nat := drainRank (busBound n k T) 13 (busBound n k T)

/-- What is left for the thread of the CPU `c`. -/
def Soc.cpuTodo (setup : SocSetup n k T D) (x : Soc n k T D) (c : Fin n) : Nat :=
  if setup.isCpu c then
    (x.cpu c).cpu.todo (3 * putCost n k T + 4) (x.bus.net.req.blocked c setup.cpuThread).isSome
  else 0

/-- How many steps the platform has left by itself, at most. -/
def Soc.rank (setup : SocSetup n k T D) (x : Soc n k T D) : Nat :=
  3 * x.bus.rank + ∑ c, x.cpuTodo setup c

/-- A step without a new access and without a new call of another master. -/
def SocLabel.Own (setup : SocSetup n k T D) : SocLabel n k T → Prop
  | .cpu _ l => l = .resume ∨ l = .fireEvEmpty
  | .bus (.call m _ _) => setup.isCpu m = true
  | .bus _ => True

variable [DecidableEq T] {setup : SocSetup n k T D} {x x' : Soc n k T D} {l : SocLabel n k T}

/-- Such a step that changes something. -/
def SocWorks (setup : SocSetup n k T D) (x : Soc n k T D) (l : SocLabel n k T) (x' : Soc n k T D) :
    Prop :=
  SocStep setup x l x' ∧ l.Own setup ∧ x' ≠ x

theorem rank_call {b b' : Bus n k T D} {m : Fin n} {t : T} {req : VciRequest}
    (h : BusInv setup.toBusSetup (Admissible setup.toBusSetup) b)
    (hs : BusStep setup.toBusSetup b (.call m t req) b') :
    b'.rank ≤ b.rank + putCost n k T := by
  cases hs with
  | call hr =>
      cases hr with
      | call _ hb =>
          obtain ⟨hload, hwake, -⟩ := put_falls (c := 8) h.net.req m t req
          have hbound := wakeBound_req (n := n) (k := k) (T := T)
          rw [hb, show heldLoad 8 (none : Option VciRequest) = 0 from rfl] at hload
          generalize hb' : ({ b with net := { b.net with req := b.net.req.call m t req } } :
            Bus n k T D) = b'
          have hl : b'.load ≤ b.load + 13 := by
            rw [← hb']
            show (b.net.req.put m t req).load 8 + b.net.rsp.load 1 + ∑ s, (b.slave s).load ≤
              b.net.req.load 8 + b.net.rsp.load 1 + ∑ s, (b.slave s).load + 13
            omega
          have hw : b'.wake ≤ b.wake + busBound n k T := by
            rw [← hb']
            show (b.net.req.put m t req).wake + b.net.rsp.wake ≤
              b.net.req.wake + b.net.rsp.wake + busBound n k T
            omega
          have hmul := Nat.mul_le_mul_right (busBound n k T + 1) hl
          rw [Nat.add_mul] at hmul
          unfold Bus.rank putCost drainRank
          omega

omit [Fintype T] in
/-- A `put` that a step does not try stays as it is. -/
theorem blocked_of_not_tries {b b' : Bus n k T D} {bl : BusLabel n k T} {m : Fin n} {t : T}
    (hs : BusStep setup.toBusSetup b bl b') (h : ∀ req, bl.tries ≠ some (m, t, req)) :
    b'.net.req.blocked m t = b.net.req.blocked m t := by
  have hput {m' : Fin n} {t' : T} {req : VciRequest} (e : bl.tries = some (m', t', req)) :
      (b.net.req.put m' t' req).blocked m t = b.net.req.blocked m t := by
    show Function.update b.net.req.blocked m' (Function.update _ t' _) m t = _
    by_cases hm : m = m'
    · subst hm
      have ht : t ≠ t' := fun ht => h req (by rw [e, ht])
      rw [Function.update_self, Function.update_of_ne ht]
    · rw [Function.update_of_ne hm]
  cases hs with
  | call hr => cases hr with | call _ _ => exact hput rfl
  | resumePut hr => cases hr with | resumePut _ _ => exact hput rfl
  | dispatchRequest hr => exact congrFun (congrFun (blocked_of_step hr) m) t
  | slaveGet hg hr => exact congrFun (congrFun (blocked_of_step hr) m) t
  | _ => rfl

omit [DecidableEq T] in
/-- A step in which one CPU takes part, with the bus. -/
theorem rank_lt_of_cpu (c : Fin n)
    (hoff : ∀ c', c' ≠ c → x'.cpuTodo setup c' = x.cpuTodo setup c')
    (hlt : 3 * x'.bus.rank + x'.cpuTodo setup c < 3 * x.bus.rank + x.cpuTodo setup c) :
    x'.rank setup < x.rank setup := by
  have hsum := sum_add_of_eq_off hoff
  unfold Soc.rank
  omega

/-- A CPU that takes no part in a step of the bus. -/
theorem cpuTodo_idle {bl : BusLabel n k T} {c : Fin n}
    (hs : BusStep setup.toBusSetup x.bus bl x'.bus) (hcpu : x'.cpu c = x.cpu c)
    (htry : setup.isCpu c = true → ∀ t req, bl.tries ≠ some (c, t, req)) :
    x'.cpuTodo setup c = x.cpuTodo setup c := by
  unfold Soc.cpuTodo
  split
  · next hc => rw [hcpu, blocked_of_not_tries hs fun req => htry hc _ req]
  · rfl

/-- A step of the bus in which no CPU takes part. -/
theorem rank_lt_of_bus {bl : BusLabel n k T} {b : Bus n k T D}
    (hs : BusStep setup.toBusSetup x.bus bl b) (hlt : b.rank < x.bus.rank)
    (htry : ∀ c, setup.isCpu c = true → ∀ t req, bl.tries ≠ some (c, t, req)) :
    ({ x with bus := b } : Soc n k T D).rank setup < x.rank setup := by
  have hsum : ∑ c, ({ x with bus := b } : Soc n k T D).cpuTodo setup c = ∑ c, x.cpuTodo setup c :=
    Finset.sum_congr rfl fun c _ => cpuTodo_idle hs rfl (htry c)
  show 3 * b.rank + _ < 3 * x.bus.rank + _
  omega

/-- A turn of a CPU thread that was woken, and the end of the wait of `m_evEmpty`. -/
theorem rank_lt_turn (h : AccessInv setup x) {c : Fin n} {rl : RunLabel} {s : CpuRun}
    (hc : setup.isCpu c = true) (hl : rl = .resume ∨ rl = .fireEvEmpty)
    (hstep : RunStep (x.cpu c) rl s) :
    ({ x with cpu := Function.update x.cpu c s } : Soc n k T D).rank setup < x.rank setup := by
  refine rank_lt_of_cpu c (fun c' hc' => ?_) (Nat.add_lt_add_left ?_ _)
  · simp only [Soc.cpuTodo, Function.update_of_ne hc']
  · simp only [Soc.cpuTodo, hc, if_true, Function.update_self]
    rcases hl with rfl | rfl
    · cases hstep with
      | resume hr =>
          -- a thread that is woken is not in `put`
          have hb : x.bus.net.req.blocked c setup.cpuThread = none := by
            cases hb : x.bus.net.req.blocked c setup.cpuThread with
            | none => rfl
            | some req =>
                obtain ⟨-, a, rq, hpc, -⟩ := h.soc.blocked c hc _ req hb
                rw [QemuCpuWrapper.resume, hpc] at hr
                cases hr
          rw [hb]
          exact QemuCpuWrapper.resume_todo
            (fun a rq hpc => ((h.soc.cpu c hc).run.waiting a rq true hpc).2.symm) hr
    · cases hstep with
      | fireEvEmpty hr => exact QemuCpuWrapper.fireEvEmpty_todo hr

/-- A try of `put`, the first or a later one: what is left is the wait for the response, or less. -/
theorem rank_lt_try (h : AccessInv setup x) {c : Fin n} {bl : BusLabel n k T} {b : Bus n k T D}
    {a : Access} {rq : Rq} (hc : setup.isCpu c = true) (hpc : (x.cpu c).cpu.pc = .putting a rq)
    (htry : bl.tries = some (c, setup.cpuThread, cpuReq c a rq))
    (hs : BusStep setup.toBusSetup x.bus bl b)
    (hlt : 3 * b.rank + 3 < 3 * x.bus.rank + CpuPc.todo (3 * putCost n k T + 4)
      (x.bus.net.req.blocked c setup.cpuThread).isSome (.putting a rq)) :
    (x.afterTry setup.cpuThread c b).rank setup < x.rank setup := by
  refine rank_lt_of_cpu c (fun c' hc' => ?_) ?_
  · refine cpuTodo_idle hs (Function.update_of_ne hc' _ _) fun _ t req e => ?_
    rw [htry] at e
    cases e
    exact hc' rfl
  · have hafter : (x.afterTry setup.cpuThread c b).cpuTodo setup c ≤
        3 + if (x.cpu c).cpu.evEmpty then 2 else 0 := by
      simp only [Soc.cpuTodo, hc, if_true, Soc.afterTry, Function.update_self]
      cases hb : b.net.req.blocked c setup.cpuThread with
      | none =>
          rw [if_pos (by rfl)]
          have hd := ((h.soc.cpu c hc).run.putting a rq hpc).2.1
          have hret := QemuCpuWrapper.putReturns_eq hpc hd
          rw [CpuRun.afterPut, hpc, hret]
          exact QemuCpuWrapper.putReturns_todo hpc hd hret
      | some req =>
          rw [if_neg (by simp), QemuCpuWrapper.todo, hpc]
          exact Nat.le_refl _
    have hbefore : x.cpuTodo setup c = CpuPc.todo (3 * putCost n k T + 4)
        (x.bus.net.req.blocked c setup.cpuThread).isSome (.putting a rq) +
          if (x.cpu c).cpu.evEmpty then 2 else 0 := by
      simp only [Soc.cpuTodo, hc, if_true, QemuCpuWrapper.todo, hpc]
    show 3 * b.rank + _ < _
    omega

theorem receive_todo {cost : Nat} {called : Bool} (s : CpuRun) (c : Fin n) (r : Option VciResponse) :
    (s.receive c r).cpu.todo cost called ≤ s.cpu.todo cost called + 2 := by
  unfold CpuRun.receive
  split
  · exact Nat.le_add_right _ _
  · next tid data _ => split <;> exact s.cpu.rcvRsp_todo tid data

/-- A delivery to a CPU. -/
theorem rank_lt_deliver {m : Fin n} {r : Option VciResponse} {b : Bus n k T D}
    (hm : setup.isCpu m = true) (hs : BusStep setup.toBusSetup x.bus (.deliver m r) b)
    (hlt : b.rank < x.bus.rank) :
    (⟨b, Function.update x.cpu m ((x.cpu m).receive m r)⟩ : Soc n k T D).rank setup <
      x.rank setup := by
  have hquiet (c : Fin n) (t : T) (req : VciRequest) :
      (BusLabel.deliver m r : BusLabel n k T).tries ≠ some (c, t, req) := nofun
  refine rank_lt_of_cpu m (fun c hc => ?_) ?_
  · exact cpuTodo_idle hs (Function.update_of_ne hc _ _) fun _ => hquiet c
  · have hkept : b.net.req.blocked m setup.cpuThread = x.bus.net.req.blocked m setup.cpuThread :=
      blocked_of_not_tries hs fun req => hquiet m _ req
    have hle := @receive_todo n (3 * putCost n k T + 4)
      (x.bus.net.req.blocked m setup.cpuThread).isSome (x.cpu m) m r
    simp only [Soc.cpuTodo, hm, if_true, Function.update_self, hkept]
    omega

/-- **Each step of the platform's own lowers the rank.** -/
theorem rank_lt (h : AccessInv setup x) (hs : SocStep setup x l x') (hl : l.Own setup)
    (hne : l = .bus .tau → x' ≠ x) : x'.rank setup < x.rank setup := by
  have hbus := busInv_reach h.bus.reach
  have falls {bl : BusLabel n k T} {b : Bus n k T D} (hb : BusStep setup.toBusSetup x.bus bl b)
      (hown : bl.Own) (hne : bl = .tau → b ≠ x.bus) : b.rank < x.bus.rank :=
    (bus_falls hbus hb hown hne).rank_lt
  cases hs with
  | turn hc ht hstep => exact rank_lt_turn h hc hl hstep
  | put hc hpc hb =>
      refine rank_lt_try h hc hpc rfl hb ?_
      have hcall := rank_call hbus hb
      cases hb with
      | call hr =>
          cases hr with
          | call _ hnone =>
              rw [hnone]
              show _ < _ + (3 * putCost n k T + 4)
              omega
  | @putAgain c req b hc hb =>
      have hblocked : x.bus.net.req.blocked c setup.cpuThread = some req := by
        cases hb with | resumePut hr => cases hr with | resumePut hb _ => exact hb
      obtain ⟨-, a, rq, hpc, rfl⟩ := h.soc.blocked c hc _ req hblocked
      have hlt := falls hb trivial nofun
      refine rank_lt_try h hc hpc rfl hb ?_
      rw [hblocked]
      show _ < _ + 3
      omega
  | @other m bl b hm htry hb =>
      obtain ⟨t, req, htry⟩ := htry
      refine rank_lt_of_bus hb (falls hb ?_ ?_) fun c hc t' req' e => ?_
      · cases bl with
        | call m' t' req' =>
            cases htry
            have hm' : setup.isCpu m = true := hl
            rw [hm] at hm'
            cases hm'
        | _ => trivial
      · rintro rfl
        cases htry
      · rw [htry] at e
        cases e
        rw [hm] at hc
        cases hc
  | @deliver m r b hb =>
      have hlt := falls hb trivial nofun
      by_cases hm : setup.isCpu m = true
      · rw [if_pos hm]
        exact rank_lt_deliver hm hb hlt
      · rw [if_neg hm]
        exact rank_lt_of_bus hb hlt fun c _ t req => nofun
  | serve hb => exact rank_lt_of_bus hb (falls hb trivial nofun) fun c _ t req => nofun
  | @tau b hb =>
      refine rank_lt_of_bus hb (falls hb trivial fun _ e => hne rfl ?_) fun c _ t req => nofun
      exact congrArg (fun b => (⟨b, x.cpu⟩ : Soc n k T D)) e

/-! ## 4. Where nothing is left to do -/

theorem works_of_step (h : AccessInv setup x) (hs : SocStep setup x l x') (hl : l.Own setup)
    (hne : l = .bus .tau → x' ≠ x) : SocWorks setup x l x' :=
  ⟨hs, hl, fun e => (rank_lt h hs hl hne).ne (by rw [e])⟩

/-- What the bus has left to do, the platform has. -/
theorem exists_works_of_bus (h : AccessInv setup x) {bl : BusLabel n k T} {b : Bus n k T D}
    (hw : Works setup.toBusSetup x.bus bl b) : ∃ l x', SocWorks setup x l x' := by
  obtain ⟨hs, hl, hne⟩ := hw
  cases bl with
  | call m t req => exact hl.elim
  | resumePut m t req =>
      cases hm : setup.isCpu m with
      | true =>
          have hblocked : x.bus.net.req.blocked m t = some req := by
            cases hs with | resumePut hr => cases hr with | resumePut hb _ => exact hb
          obtain ⟨rfl, -⟩ := h.soc.blocked m hm t req hblocked
          exact ⟨_, _, works_of_step h (.putAgain hm hs) trivial nofun⟩
      | false => exact ⟨_, _, works_of_step h (.other hm ⟨t, req, rfl⟩ hs) trivial nofun⟩
  | deliver m r => exact ⟨_, _, works_of_step h (.deliver hs) trivial nofun⟩
  | serve s req rsp => exact ⟨_, _, works_of_step h (.serve hs) trivial nofun⟩
  | tau => exact ⟨_, _, works_of_step h (.tau hs) trivial fun _ e => hne (congrArg Soc.bus e)⟩

/-- A CPU thread that is woken goes on: the pool has a request for it. -/
theorem exists_resume {c : QemuCpuWrapper} (h : c.rqs.Ok) {pc : CpuPc} (hpc : c.pc = pc)
    (hwoken : (∃ a, pc = .emptyWait a true) ∨ (∃ a rq, pc = .doneWait a rq true) ∨ pc = .wbWait true) :
    ∃ c', c.resume = some c' := by
  rcases hwoken with ⟨a, rfl⟩ | ⟨a, rq, rfl⟩ | rfl
  · simp only [QemuCpuWrapper.resume, hpc, QemuCpuWrapper.getEmpty]
    split
    · exact ⟨_, rfl⟩
    · next hbusy =>
        have hnil : c.rqs.busyList = [] :=
          not_not.mp fun e => hbusy ((QemuWrapperRequests.headBusy_isSome_iff h).mpr e)
        have hfree : c.rqs.freeList ≠ [] := fun e => by
          have hlen := h.perm.length_eq
          rw [e, hnil, List.length_finRange] at hlen
          cases hlen
        have hget := mt (QemuWrapperRequests.getNewRequest_eq_none_iff h).mp hfree
        obtain ⟨r, hr⟩ := Option.ne_none_iff_exists'.mp hget
        rw [QemuCpuWrapper.takeRequest, hr]
        exact ⟨_, rfl⟩
  · exact ⟨_, by rw [QemuCpuWrapper.resume, hpc]⟩
  · exact ⟨_, by rw [QemuCpuWrapper.resume, hpc]⟩

/-- No CPU thread is in an access, no request of a pool is out, and the bus has answered everything. -/
structure AccessesDone (setup : SocSetup n k T D) (x : Soc n k T D) : Prop where
  threads : ∀ c, setup.isCpu c = true → (x.cpu c).cpu.pc = .idle
  pools : ∀ c, setup.isCpu c = true → ∀ rq, (x.cpu c).cpu.rqs.taken rq = (x.cpu c).cpu.rqs.returned rq
  answered : AllAnswered setup.toBusSetup x.bus

section End

variable (h : AccessInv setup x) (hend : ∀ l x', ¬ SocWorks setup x l x') {c : Fin n}
  (hc : setup.isCpu c = true)
include h hend hc

/-- No thread that was woken is left. -/
theorem not_woken {pc : CpuPc} (hpc : (x.cpu c).cpu.pc = pc) :
    ¬ ((∃ a, pc = .emptyWait a true) ∨ (∃ a rq, pc = .doneWait a rq true) ∨ pc = .wbWait true) := by
  intro hwoken
  obtain ⟨q, hq⟩ := exists_resume (h.soc.cpu c hc).run.pool hpc hwoken
  exact hend _ _ (works_of_step h (.turn hc rfl (.resume hq)) (.inl rfl) nofun)

/-- No notification is left. -/
theorem evEmpty_false : (x.cpu c).cpu.evEmpty = false := by
  by_contra hev
  have hfire : ∃ q, (x.cpu c).cpu.fireEvEmpty = some q := by
    rw [QemuCpuWrapper.fireEvEmpty, if_pos (by simpa using hev)]
    exact ⟨_, rfl⟩
  obtain ⟨q, hq⟩ := hfire
  exact hend _ _ (works_of_step h (.turn hc rfl (.fireEvEmpty hq)) (.inr rfl) nofun)

variable (hrest : BusRests x.bus)
include hrest

/-- No thread is left in its `put`. -/
theorem not_putting (a : Access) (rq : Rq) : (x.cpu c).cpu.pc ≠ .putting a rq := by
  intro hpc
  have hs : BusStep setup.toBusSetup x.bus (.call c setup.cpuThread (cpuReq c a rq)) _ :=
    .call (.call _ (hrest.blocked c setup.cpuThread))
  exact hend _ _ (works_of_step h (.put hc hpc hs) hc nofun)

/-- No request is out. -/
theorem busyList_nil : (x.cpu c).cpu.rqs.busyList = [] := by
  rw [List.eq_nil_iff_forall_not_mem]
  intro rq hrq
  rcases (h.soc.cpu c hc).run.settled rq hrq with ⟨a, hpc⟩ | ⟨t, ht, -⟩ | ⟨a, hpc⟩
  · exact not_putting h hend hc hrest a rq hpc
  · have hflight := h.soc.account c hc
    rw [hrest.underway h.soc.bus] at hflight
    have hmem := hflight.subset (List.mem_map_of_mem ht)
    cases hmem
  · exact not_woken h hend hc hpc (.inr (.inl ⟨a, rq, rfl⟩))

/-- The thread is outside its accesses. -/
theorem pc_idle : (x.cpu c).cpu.pc = .idle := by
  have hrun := (h.soc.cpu c hc).run
  have hnil := busyList_nil h hend hc hrest
  have hawake : (x.cpu c).cpu.pc.sleeps = false := by
    by_contra hsleeps
    rcases h.awake c hc (by simpa using hsleeps) with hbusy | hev
    · exact (QemuWrapperRequests.headBusy_isSome_iff hrun.pool).mp hbusy hnil
    · rw [evEmpty_false h hend hc] at hev
      cases hev
  cases hpc : (x.cpu c).cpu.pc with
  | idle => rfl
  | putting a rq => exact absurd hpc (not_putting h hend hc hrest a rq)
  | emptyWait a woken =>
      cases woken with
      | false =>
          rw [hpc] at hawake
          cases hawake
      | true => exact absurd (.inl ⟨a, rfl⟩) (not_woken h hend hc hpc)
  | doneWait a rq woken =>
      have hmem := (hrun.waiting a rq woken hpc).1
      rw [hnil] at hmem
      cases hmem
  | wbWait woken =>
      cases woken with
      | false =>
          rw [hpc] at hawake
          cases hawake
      | true => exact absurd (.inr (.inr rfl)) (not_woken h hend hc hpc)

end End

/-- **Where the platform has nothing left to do, every access is over.** -/
theorem AccessInv.done (h : AccessInv setup x)
    (hdev : ∀ s d req, ∃ d' rdata bErr, setup.rcvRqst s d req d' rdata bErr)
    (hend : ∀ l x', ¬ SocWorks setup x l x') : AccessesDone setup x := by
  have hrest : BusRests x.bus := h.bus.rests hdev fun bl b hw => by
    obtain ⟨l, x', hworks⟩ := exists_works_of_bus h hw
    exact hend l x' hworks
  refine ⟨fun c hc => pc_idle h hend hc hrest, fun c hc rq => ?_,
    hrest.allAnswered h.soc.bus h.bus.flow⟩
  rw [(h.soc.cpu c hc).run.pool.once rq, busyList_nil h hend hc hrest, List.count_nil, Nat.add_zero]

omit [Fintype T] in
theorem SocWorks.kept (h : AccessInv setup x) (hw : SocWorks setup x l x') : AccessInv setup x' := by
  obtain ⟨hs, hl, -⟩ := hw
  refine h.step hs ?_
  cases hs with
  | turn hc ht hstep => rcases hl with rfl | rfl <;> trivial
  | put hc hpc hb => exact h.mapped _ hc _ (by rw [hpc]; rfl) _
  | putAgain hc hb => trivial
  | @other m bl b hm htry hb =>
      cases bl with
      | call m' t req =>
          obtain ⟨t', req', e⟩ := htry
          cases e
          have hm' : setup.isCpu m = true := hl
          rw [hm] at hm'
          cases hm'
      | _ => trivial
  | deliver hb => trivial
  | serve hb => trivial
  | tau hb => trivial

/-- **No access hangs.** CPUs with posted or with waited writes and other masters share a bus, their
    accesses are to mapped addresses, and the slaves answer. From every reachable state, in any order of the threads, the platform takes at most
    as many steps of its own as its rank says; where it cannot go on, every CPU thread has left its
    access, every request is back in its pool and every transaction is answered; and it can always be
    brought there. -/
theorem accesses_end (hdev : ∀ s d req, ∃ d' rdata bErr, setup.rcvRqst s d req d' rdata bErr)
    (h : (mappedMachine setup).Reach x) :
    (∀ tr t, Run (SocWorks setup) x tr t → tr.length ≤ x.rank setup ∧
      ((∀ l t', ¬ SocWorks setup t l t') → AccessesDone setup t)) ∧
    ∃ tr t, Run (SocWorks setup) x tr t ∧ AccessesDone setup t := by
  have h0 := accessInv_reach h
  have hkeep (x : Soc n k T D) (l : SocLabel n k T) (x' : Soc n k T D) (hx : AccessInv setup x)
      (hs : SocWorks setup x l x') : AccessInv setup x' := hs.kept hx
  have hfall (x : Soc n k T D) (l : SocLabel n k T) (x' : Soc n k T D) (hx : AccessInv setup x)
      (hs : SocWorks setup x l x') : x'.rank setup < x.rank setup :=
    rank_lt hx hs.1 hs.2.1 fun _ => hs.2.2
  have hdone {tr : List (SocLabel n k T × Soc n k T D)} {t : Soc n k T D}
      (hrun : Run (SocWorks setup) x tr t) (ht : ∀ l t', ¬ SocWorks setup t l t') :
      AccessesDone setup t :=
    (hrun.invariant (P := fun _ => True) (fun s l s' hs _ => hkeep s l s' hs) h0
      fun _ _ => trivial).done hdev ht
  refine ⟨fun tr t hrun => ⟨?_, hdone hrun⟩, ?_⟩
  · have hle := hrun.length_add_le (Soc.rank setup) hkeep hfall h0
    omega
  · obtain ⟨tr, t, hrun, ht⟩ := exists_run_to_end (Soc.rank setup) hkeep hfall h0
    exact ⟨tr, t, hrun, hdone hrun ht⟩

/-- A CPU has been called for a write. -/
theorem accesses_end_write : ∃ x : Soc 1 1 Unit Unit, (x.cpu 0).cpu.pc ≠ .idle ∧
    ∃ tr t, Run (SocWorks oneCpu) x tr t ∧ AccessesDone oneCpu t := by
  have h0 : (mappedMachine oneCpu).Reach (.start oneCpu) := .start rfl
  have hmapped : Mapped oneCpu 0 someWrite := fun rq => by
    obtain ⟨hcmd, hsrcid⟩ := cpuReq_wellSent oneCpu 0 someWrite rq
    exact ⟨rfl, hcmd, hsrcid⟩
  have h1 := h0.step ⟨_, .turn (c := 0) rfl rfl (.call (a := someWrite) rfl), hmapped⟩
  have hdev (s : Fin 1) (d : Unit) (req : VciRequest) :
      ∃ d' rdata bErr, oneCpu.rcvRqst s d req d' rdata bErr := ⟨(), default, false, trivial⟩
  exact ⟨_, (fun e => by cases e), (accesses_end hdev h1).2⟩

end Rank

end Rabbits
