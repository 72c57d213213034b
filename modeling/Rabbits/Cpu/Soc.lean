/-
  File:      Rabbits/Cpu/Soc.lean
  Subject:   CPUs and other masters on one bus.

  Some masters are CPUs in a fixed write mode, each with one thread that puts its requests; the
  others put any requests with any threads. The response thread of a CPU takes what the bus
  delivers to it.

  * `SocStep` -- a turn of a CPU thread, a `put`, or a step of the bus;
  * `SocInv` -- the requests in flight of each CPU are its transactions under way on the bus;
  * `busyList_exact` -- the busy list of a CPU with posted writes holds each of its transactions
    once, every response finds its request, and a read is put when nothing else is outstanding.
-/
import Rabbits.Cpu.FixedMode
import Rabbits.Noc.MasterDevice
import Rabbits.Noc.Order

namespace Rabbits

open Lib Crossbar

universe u v

/-! ## 1. The model -/

/-- The bus, and which masters are CPUs, with their write modes and the thread they put with. The
    numbers of the masters fit into `srcid`. -/
structure SocSetup (n k : Nat) (T : Type v) (D : Type u) extends BusSetup n k D where
  few : n ≤ 65536
  isCpu : Fin n → Bool
  unblockingWrite : Fin n → Bool
  cpuThread : T

structure Soc (n k : Nat) (T : Type v) (D : Type u) where
  bus : Bus n k T D
  cpu : Fin n → CpuRun

variable {n k : Nat} {D : Type u} {T : Type v} [DecidableEq T]

/-- The request of an access: `send_req (localrq->tid, ...)`. -/
def cpuReq (c : Fin n) (a : Access) (rq : Rq) : VciRequest :=
  sendReq c.val (tidOf rq) a.addr (byteOf a.data) a.nbytes a.bWrite

/-- The CPU thread when its `put` has returned. -/
def CpuRun.afterPut (s : CpuRun) : CpuRun :=
  match s.cpu.pc, s.cpu.putReturns with
  | .putting _ rq, some c =>
      { s with cpu := c, inFlight := ⟨rq, s.cpu.unblockingWrite⟩ :: s.inFlight }
  | _, _ => s

/-- The response thread of the CPU `c` after a try of `get`. -/
def CpuRun.receive (s : CpuRun) (c : Fin n) (r : Option VciResponse) : CpuRun :=
  match r.bind (responseThread c.val) with
  | none => s
  | some (tid, data) =>
      match s.inFlight.find? fun t => tidOf t.rq == tid with
      | none => { s with cpu := s.cpu.rcvRsp tid data }
      | some t =>
          { cpu := s.cpu.rcvRsp tid data
            inFlight := s.inFlight.erase t
            received := Function.update s.received t.rq (s.received t.rq + 1) }

/-- A turn of the CPU thread that is not the return of a `put`. -/
def RunLabel.isTurn : RunLabel → Bool
  | .call _ => true
  | .waitWbEmpty => true
  | .resume => true
  | .fireEvEmpty => true
  | _ => false

inductive SocLabel (n k : Nat) (T : Type v) where
  | cpu (c : Fin n) (l : RunLabel)
  | bus (l : BusLabel n k T)

/-- The CPU `c` after its thread tried to put on the bus `b`. -/
def Soc.afterTry (x : Soc n k T D) (thread : T) (c : Fin n) (b : Bus n k T D) :
    Soc n k T D where
  bus := b
  cpu := Function.update x.cpu c
    (if (b.net.req.blocked c thread).isNone then (x.cpu c).afterPut else x.cpu c)

inductive SocStep (setup : SocSetup n k T D) (x : Soc n k T D) :
    SocLabel n k T → Soc n k T D → Prop where
  | turn {c : Fin n} {l : RunLabel} {s : CpuRun} (hc : setup.isCpu c = true)
      (hl : l.isTurn = true) (h : RunStep (x.cpu c) l s) :
      SocStep setup x (.cpu c l) { x with cpu := Function.update x.cpu c s }
  | put {c : Fin n} {a : Access} {rq : Rq} {b : Bus n k T D} (hc : setup.isCpu c = true)
      (hpc : (x.cpu c).cpu.pc = .putting a rq)
      (h : BusStep setup.toBusSetup x.bus (.call c setup.cpuThread (cpuReq c a rq)) b) :
      SocStep setup x (.bus (.call c setup.cpuThread (cpuReq c a rq)))
        (x.afterTry setup.cpuThread c b)
  | putAgain {c : Fin n} {req : VciRequest} {b : Bus n k T D} (hc : setup.isCpu c = true)
      (h : BusStep setup.toBusSetup x.bus (.resumePut c setup.cpuThread req) b) :
      SocStep setup x (.bus (.resumePut c setup.cpuThread req))
        (x.afterTry setup.cpuThread c b)
  | other {m : Fin n} {l : BusLabel n k T} {b : Bus n k T D} (hm : setup.isCpu m = false)
      (hl : ∃ t req, l.tries = some (m, t, req)) (h : BusStep setup.toBusSetup x.bus l b) :
      SocStep setup x (.bus l) { x with bus := b }
  | deliver {m : Fin n} {r : Option VciResponse} {b : Bus n k T D}
      (h : BusStep setup.toBusSetup x.bus (.deliver m r) b) :
      SocStep setup x (.bus (.deliver m r))
        { bus := b
          cpu := if setup.isCpu m then Function.update x.cpu m ((x.cpu m).receive m r) else x.cpu }
  | serve {s : Fin k} {req : VciRequest} {rsp : VciResponse} {b : Bus n k T D}
      (h : BusStep setup.toBusSetup x.bus (.serve s req rsp) b) :
      SocStep setup x (.bus (.serve s req rsp)) { x with bus := b }
  | tau {b : Bus n k T D} (h : BusStep setup.toBusSetup x.bus .tau b) :
      SocStep setup x (.bus .tau) { x with bus := b }

/-- A read or a write, with the number of its master. -/
structure WellSent (m : Fin n) (req : VciRequest) : Prop where
  cmd : req.cmd = CMD_WRITE ∨ req.cmd = CMD_READ
  srcid : req.srcid.toNat = m.val

/-- Every request put has the property `P`. -/
def SocLabel.Meets (P : Fin n → VciRequest → Prop) : SocLabel n k T → Prop
  | .cpu _ _ => True
  | .bus l => l.Meets P

def Soc.start (setup : SocSetup n k T D) : Soc n k T D :=
  ⟨.new setup.toBusSetup, fun c => .startIn (setup.unblockingWrite c)⟩

/-- The runs in which the masters put requests with `P`. -/
def socMachine (setup : SocSetup n k T D) (P : Fin n → VciRequest → Prop) :
    Machine (Soc n k T D) where
  init x := x = .start setup
  step x x' := ∃ l, SocStep setup x l x' ∧ l.Meets P

/-! ## 2. The CPU's side of a step -/

theorem turn_of_isTurn {s s' : CpuRun} {l : RunLabel} (hs : RunStep s l s')
    (hl : l.isTurn = true) : ∃ c, Turn s.cpu c ∧ s' = { s with cpu := c } := by
  cases hs with
  | call h => exact ⟨_, turn_of_call h, rfl⟩
  | waitWbEmpty h => exact ⟨_, turn_of_waitWbEmpty h, rfl⟩
  | resume h => exact ⟨_, turn_of_resume h, rfl⟩
  | fireEvEmpty h => exact ⟨_, turn_of_fireEvEmpty h, rfl⟩
  | _ => cases hl

/-- No turn takes the thread out of `put`. -/
theorem Turn.putting {c c' : QemuCpuWrapper} (h : Turn c c') {a : Access} {rq : Rq}
    (hpc : c.pc = .putting a rq) : c'.pc = .putting a rq := by
  cases h with
  | quiet hq _ _ =>
      rcases hq with e | ⟨hq, -⟩
      · exact e.trans hpc
      · rw [hpc] at hq
        cases hq
  | take a' rq' q hq _ _ _ =>
      rw [hpc] at hq
      cases hq
  | done a' rq' hd _ =>
      rw [hpc] at hd
      cases hd

theorem afterPut_step {s : CpuRun} {a : Access} {rq : Rq} (hpc : s.cpu.pc = .putting a rq) :
    RunStep s .putReturns s.afterPut ∧
      s.afterPut.inFlight = ⟨rq, s.cpu.unblockingWrite⟩ :: s.inFlight := by
  obtain ⟨c, hc⟩ : ∃ c, s.cpu.putReturns = some c := by
    simp only [QemuCpuWrapper.putReturns, hpc]
    split <;> exact ⟨_, rfl⟩
  have he : s.afterPut = { s with
      cpu := c, inFlight := ⟨rq, s.cpu.unblockingWrite⟩ :: s.inFlight } := by
    rw [CpuRun.afterPut, hpc, hc]
  rw [he]
  exact ⟨.putReturns hpc hc, rfl⟩

/-- The response thread passes on every response for its master. -/
theorem responseThread_eq (c : Nat) (rsp : VciResponse) (hsrc : rsp.rsrcid.toNat = c)
    (hreop : rsp.reop = true) : ∃ data, responseThread c rsp = some (rsp.rtrdid, data) := by
  simp [responseThread, hsrc, hreop]

/-- A response with the tid of a request in flight is the response of that request. -/
theorem receive_step {s : CpuRun} {c : Fin n} {rsp : VciResponse}
    (hsrc : rsp.rsrcid.toNat = c.val) (hreop : rsp.reop = true)
    (hmem : rsp.rtrdid ∈ s.inFlight.map fun t => tidOf t.rq) :
    ∃ t data, tidOf t.rq = rsp.rtrdid ∧ responseThread c.val rsp = some (rsp.rtrdid, data) ∧
      RunStep s (.response t data) (s.receive c (some rsp)) ∧
      (s.receive c (some rsp)).inFlight = s.inFlight.erase t ∧ t ∈ s.inFlight := by
  obtain ⟨data, hr⟩ := responseThread_eq c.val rsp hsrc hreop
  obtain ⟨u, hu, hut⟩ := List.mem_map.mp hmem
  cases hf : s.inFlight.find? fun t => tidOf t.rq == rsp.rtrdid with
  | none =>
      have hne := List.find?_eq_none.mp hf u hu
      simp [hut] at hne
  | some t =>
      have htid : tidOf t.rq = rsp.rtrdid := by simpa using List.find?_some hf
      have ht := List.mem_of_find?_eq_some hf
      have he : s.receive c (some rsp) =
          { cpu := s.cpu.rcvRsp (tidOf t.rq) data
            inFlight := s.inFlight.erase t
            received := Function.update s.received t.rq (s.received t.rq + 1) } := by
        simp only [CpuRun.receive, Option.bind_some, hr, hf, htid]
      rw [he]
      exact ⟨t, data, htid, hr, .response data ht, rfl, ht⟩

/-! ## 3. The invariant -/

/-- The tids of the requests in flight. -/
def CpuRun.flightTids (s : CpuRun) : List Byte := s.inFlight.map fun t => tidOf t.rq

/-- The bus keeps its invariants; each CPU is in its mode; a blocked `put` of a CPU is the one its
    thread is in; and a CPU's requests in flight are its transactions under way on the bus. -/
structure SocInv (setup : SocSetup n k T D) (P : Fin n → VciRequest → Prop) (x : Soc n k T D) :
    Prop where
  bus : BusInv setup.toBusSetup P x.bus
  flow : BusFlow setup.toBusSetup x.bus
  cpu : ∀ c, setup.isCpu c = true → FixedMode (setup.unblockingWrite c) (x.cpu c)
  blocked : ∀ c, setup.isCpu c = true → ∀ t req, x.bus.net.req.blocked c t = some req →
    t = setup.cpuThread ∧ ∃ a rq, (x.cpu c).cpu.pc = .putting a rq ∧ req = cpuReq c a rq
  account : ∀ c, setup.isCpu c = true →
    (x.cpu c).flightTids.Perm (x.bus.underway setup.toBusSetup c)

variable {setup : SocSetup n k T D} {P : Fin n → VciRequest → Prop} {x : Soc n k T D}

theorem socInv_start : SocInv setup P (.start setup) where
  bus := busInv_new
  flow := busFlow_new
  cpu c _ := fixedMode_start (setup.unblockingWrite c)
  blocked c _ t req h := by cases h
  account c _ := by
    have hpath (s : Fin k) : (Bus.new setup.toBusSetup : Bus n k T D).path setup.toBusSetup c s = [] :=
      rfl
    simp only [Bus.underway, Soc.start, hpath]
    simp [strays, stuck, Bus.new, Interconnect.new, Crossbar.new, Channel.new, Channel.queued,
      CpuRun.flightTids, CpuRun.startIn, CpuRun.start]

/-- What a step of the bus requires of a CPU. -/
structure Follows (setup : SocSetup n k T D) (x : Soc n k T D) (l : BusLabel n k T)
    (b : Bus n k T D) (c : Fin n) (s : CpuRun) : Prop where
  cpu : FixedMode (setup.unblockingWrite c) s
  blocked : ∀ t req, b.net.req.blocked c t = some req →
    t = setup.cpuThread ∧ ∃ a rq, s.cpu.pc = .putting a rq ∧ req = cpuReq c a rq
  account : ((l.gets c).map VciResponse.rtrdid ++ s.flightTids).Perm
    ((x.cpu c).flightTids ++ (l.puts b c).map VciRequest.trdid)

theorem SocInv.bus_step {l : BusLabel n k T} {b : Bus n k T D} {cpu : Fin n → CpuRun}
    (h : SocInv setup P x) (hP : ∀ m req, P m req → WellSent m req)
    (hs : BusStep setup.toBusSetup x.bus l b) (hl : l.Meets P)
    (hcpu : ∀ c, setup.isCpu c = true → Follows setup x l b c (cpu c)) :
    SocInv setup P ⟨b, cpu⟩ := by
  have hcmd (m : Fin n) (req : VciRequest) (hp : P m req) := (hP m req hp).cmd
  have hbus := h.bus.step hcmd hs hl
  have hflow := h.flow.step h.bus hcmd hs
  refine ⟨hbus, hflow, fun c hc => (hcpu c hc).cpu, fun c hc => (hcpu c hc).blocked,
    fun c hc => ?_⟩
  have hunder := underway_step h.bus h.flow hbus hflow (fun m req hp => (hP m req hp).srcid) hs c
  have hall := (hcpu c hc).account.trans (((h.account c hc).append_right _).trans hunder.symm)
  exact (List.perm_append_left_iff _).mp hall

/-- A CPU that takes no part in a step of the bus stays as it is. -/
theorem SocInv.follows_idle {l : BusLabel n k T} {b : Bus n k T D} {c : Fin n}
    (h : SocInv setup P x) (hc : setup.isCpu c = true) (hs : BusStep setup.toBusSetup x.bus l b)
    (htry : ∀ t req, l.tries ≠ some (c, t, req)) (hget : l.gets c = []) :
    Follows setup x l b c (x.cpu c) := by
  refine ⟨h.cpu c hc, fun t req hb => ?_, ?_⟩
  · rcases blocked_bus hs hb with e | ⟨-, e⟩
    · exact absurd e (htry t req)
    · exact h.blocked c hc t req e
  · have hput : l.puts b c = [] := by
      unfold BusLabel.puts
      split
      · next m t req e =>
          rw [if_neg]
          intro hyp
          obtain ⟨rfl, -⟩ := hyp
          exact htry t req e
      · rfl
    rw [hget, hput]
    exact .of_eq (by simp)

/-- The CPU whose thread tried to put. -/
theorem SocInv.follows_try {l : BusLabel n k T} {b : Bus n k T D} {c : Fin n} {a : Access} {rq : Rq}
    (h : SocInv setup P x) (hc : setup.isCpu c = true) (hs : BusStep setup.toBusSetup x.bus l b)
    (hpc : (x.cpu c).cpu.pc = .putting a rq)
    (htry : l.tries = some (c, setup.cpuThread, cpuReq c a rq)) :
    Follows setup x l b c (if (b.net.req.blocked c setup.cpuThread).isNone then (x.cpu c).afterPut
      else x.cpu c) := by
  obtain ⟨hstep, hflight⟩ := afterPut_step hpc
  have hget : l.gets c = [] := by cases l <;> first | rfl | cases htry
  have hothers {t : T} {req : VciRequest} (ht : t ≠ setup.cpuThread)
      (hb : b.net.req.blocked c t = some req) : False := by
    rcases blocked_bus hs hb with e | ⟨-, e⟩
    · rw [htry] at e
      cases e
      exact ht rfl
    · exact ht (h.blocked c hc t req e).1
  cases hb : b.net.req.blocked c setup.cpuThread with
  | none =>
      rw [if_pos (by rfl)]
      refine ⟨(h.cpu c hc).step hstep fun val e => (by cases e), fun t req hbt => ?_, ?_⟩
      · by_cases ht : t = setup.cpuThread
        · rw [ht, hb] at hbt
          cases hbt
        · exact (hothers ht hbt).elim
      · rw [hget, BusLabel.puts, htry]
        simp only [hb, CpuRun.flightTids, hflight]
        exact (List.perm_append_singleton _ _).symm
  | some req =>
      rw [if_neg (by simp)]
      refine ⟨h.cpu c hc, fun t req' hbt => ?_, ?_⟩
      · by_cases ht : t = setup.cpuThread
        · subst ht
          refine ⟨rfl, a, rq, hpc, ?_⟩
          rcases blocked_bus hs hbt with e | ⟨hne, -⟩
          · rw [htry] at e
            cases e
            rfl
          · exact absurd htry (hne _)
        · exact (hothers ht hbt).elim
      · rw [hget, BusLabel.puts, htry]
        simp [hb]

/-- A try of a CPU's thread, the first or a later one, keeps the invariant. -/
theorem SocInv.try_step {l : BusLabel n k T} {b : Bus n k T D} {c : Fin n} {a : Access} {rq : Rq}
    (h : SocInv setup P x) (hP : ∀ m req, P m req → WellSent m req)
    (hs : BusStep setup.toBusSetup x.bus l b) (hl : l.Meets P)
    (hpc : (x.cpu c).cpu.pc = .putting a rq)
    (htry : l.tries = some (c, setup.cpuThread, cpuReq c a rq)) :
    SocInv setup P (x.afterTry setup.cpuThread c b) := by
  refine h.bus_step hP hs hl fun c' hc' => ?_
  by_cases e : c' = c
  · subst e
    rw [Function.update_self]
    exact h.follows_try hc' hs hpc htry
  · rw [Function.update_of_ne e]
    refine h.follows_idle hc' hs (fun t req e' => ?_) ?_
    · rw [htry] at e'
      cases e'
      exact e rfl
    · cases l <;> first | rfl | cases htry

/-- What the bus delivers to a master names it and ends its packet. -/
theorem BusInv.delivered {y y' : Bus n k T D} {m : Fin n} {rsp : VciResponse}
    (h : BusInv setup.toBusSetup P y)
    (hs : BusStep setup.toBusSetup y (.deliver m (some rsp)) y') :
    rsp.rsrcid.toNat = m.val ∧ rsp.reop = true := by
  cases hs with
  | deliver hr =>
      obtain ⟨hsrc, s, req, rdata, bErr, -, rfl⟩ := h.rsp.get_result h.net.rsp hr
      exact ⟨hsrc, rfl⟩

/-- The tid of a response that is delivered to a CPU is in flight. -/
theorem SocInv.tid_inFlight {c : Fin n} {rsp : VciResponse} {b : Bus n k T D}
    (h : SocInv setup P x) (hP : ∀ m req, P m req → WellSent m req) (hc : setup.isCpu c = true)
    (hs : BusStep setup.toBusSetup x.bus (.deliver c (some rsp)) b) :
    rsp.rtrdid ∈ (x.cpu c).flightTids := by
  have hcmd (m : Fin n) (req : VciRequest) (hp : P m req) := (hP m req hp).cmd
  have hunder := underway_step h.bus h.flow (h.bus.step hcmd hs trivial)
    (h.flow.step h.bus hcmd hs) (fun m req hp => (hP m req hp).srcid) hs c
  have hmem : rsp.rtrdid ∈ x.bus.underway setup.toBusSetup c := by
    have hall := hunder.subset (a := rsp.rtrdid) (by simp [BusLabel.gets])
    simpa [BusLabel.puts, BusLabel.tries] using hall
  exact (h.account c hc).symm.subset hmem

/-- The CPU whose response thread tried to get. -/
theorem SocInv.follows_deliver {c : Fin n} {r : Option VciResponse} {b : Bus n k T D}
    (h : SocInv setup P x) (hP : ∀ m req, P m req → WellSent m req) (hc : setup.isCpu c = true)
    (hs : BusStep setup.toBusSetup x.bus (.deliver c r) b) :
    Follows setup x (.deliver c r) b c ((x.cpu c).receive c r) := by
  cases r with
  | none => exact h.follows_idle hc hs (fun t req e => (by cases e)) (by simp [BusLabel.gets])
  | some rsp =>
      obtain ⟨hsrc, hreop⟩ := h.bus.delivered hs
      obtain ⟨t, data, htid, -, hstep, hflight, ht⟩ :=
        receive_step hsrc hreop (h.tid_inFlight hP hc hs)
      refine ⟨(h.cpu c hc).step hstep fun val e => (by cases e), fun t' req hb => ?_, ?_⟩
      · rcases blocked_bus hs hb with e | ⟨-, e⟩
        · cases e
        · obtain ⟨ht', a, rq, hpc, hreq⟩ := h.blocked c hc t' req e
          refine ⟨ht', a, rq, ?_, hreq⟩
          generalize hs' : (x.cpu c).receive c (some rsp) = s' at hstep
          cases hstep with
          | response _ hmem =>
              have hbusy := ((h.cpu c hc).run.flight t hmem).1
              have hget := QemuWrapperRequests.getRequestByTid_eq_some (h.cpu c hc).run.pool
                noRequests_le hbusy
              simp only [QemuCpuWrapper.rcvRsp, hget]
              split
              · exact hpc
              · exact notifyDone_eq_putting.mpr hpc
      · have herase : ((x.cpu c).flightTids).Perm (rsp.rtrdid :: ((x.cpu c).receive c
            (some rsp)).flightTids) := by
          simp only [CpuRun.flightTids, hflight, ← htid]
          exact (List.perm_cons_erase ht).map _
        simpa [BusLabel.gets, BusLabel.puts, BusLabel.tries] using herase.symm

/-- A step of a CPU outside the bus. -/
theorem SocInv.turn {c : Fin n} {q : QemuCpuWrapper} (h : SocInv setup P x)
    (hturn : Turn (x.cpu c).cpu q) :
    SocInv setup P { x with cpu := Function.update x.cpu c { x.cpu c with cpu := q } } := by
  refine ⟨h.bus, h.flow, fun c' hc' => ?_, fun c' hc' t req hb => ?_, fun c' hc' => ?_⟩
  · by_cases e : c' = c
    · subst e
      simp only [Function.update_self]
      exact (h.cpu c' hc').turn hturn
    · simp only [Function.update_of_ne e]
      exact h.cpu c' hc'
  · obtain ⟨ht', a, rq, hpc, hreq⟩ := h.blocked c' hc' t req hb
    refine ⟨ht', a, rq, ?_, hreq⟩
    by_cases e : c' = c
    · subst e
      simp only [Function.update_self]
      exact hturn.putting hpc
    · simp only [Function.update_of_ne e]
      exact hpc
  · by_cases e : c' = c
    · subst e
      simp only [Function.update_self]
      exact h.account c' hc'
    · simp only [Function.update_of_ne e]
      exact h.account c' hc'

/-- A master that is no CPU tries to put. -/
theorem SocInv.other_step {m : Fin n} {l : BusLabel n k T} {b : Bus n k T D} {t : T}
    {req : VciRequest} (h : SocInv setup P x) (hP : ∀ m req, P m req → WellSent m req)
    (hm : setup.isCpu m = false) (htry : l.tries = some (m, t, req))
    (hs : BusStep setup.toBusSetup x.bus l b) (hl : l.Meets P) :
    SocInv setup P { x with bus := b } := by
  refine h.bus_step hP hs hl fun c hc => ?_
  have hne : m ≠ c := by
    intro heq
    subst heq
    rw [hm] at hc
    cases hc
  refine h.follows_idle hc hs (fun t' req' e => ?_) ?_
  · rw [htry] at e
    cases e
    exact hne rfl
  · cases l <;> first | rfl | cases htry

/-- The bus delivers to a master. -/
theorem SocInv.deliver_step {m : Fin n} {r : Option VciResponse} {b : Bus n k T D}
    (h : SocInv setup P x) (hP : ∀ m req, P m req → WellSent m req)
    (hs : BusStep setup.toBusSetup x.bus (.deliver m r) b) :
    SocInv setup P
      { bus := b
        cpu := if setup.isCpu m then Function.update x.cpu m ((x.cpu m).receive m r)
          else x.cpu } := by
  refine h.bus_step hP hs trivial fun c hc => ?_
  by_cases e : c = m
  · subst e
    rw [if_pos hc, Function.update_self]
    exact h.follows_deliver hP hc hs
  · have hcpu : (if setup.isCpu m then Function.update x.cpu m ((x.cpu m).receive m r)
        else x.cpu) c = x.cpu c := by
      split
      · rw [Function.update_of_ne e]
      · rfl
    rw [hcpu]
    exact h.follows_idle hc hs (fun t req e' => (by cases e')) (by simp [BusLabel.gets, Ne.symm e])

/-- **Every step of the platform keeps the invariant.** -/
theorem SocInv.step {x' : Soc n k T D} {l : SocLabel n k T} (h : SocInv setup P x)
    (hP : ∀ m req, P m req → WellSent m req) (hs : SocStep setup x l x') (hl : l.Meets P) :
    SocInv setup P x' := by
  cases hs with
  | turn hc ht hstep =>
      obtain ⟨q, hturn, rfl⟩ := turn_of_isTurn hstep ht
      exact h.turn hturn
  | put hc hpc hb => exact h.try_step hP hb hl hpc rfl
  | @putAgain c req b hc hb =>
      have hblocked : x.bus.net.req.blocked c setup.cpuThread = some req := by
        cases hb with
        | resumePut hr => cases hr with | resumePut hb _ => exact hb
      obtain ⟨-, a, rq, hpc, rfl⟩ := h.blocked c hc _ req hblocked
      exact h.try_step hP hb hl hpc rfl
  | other hm htry hb =>
      obtain ⟨t, req, htry⟩ := htry
      exact h.other_step hP hm htry hb hl
  | deliver hb => exact h.deliver_step hP hb
  | serve hb =>
      exact h.bus_step hP hb hl fun c hc => h.follows_idle hc hb (fun t req e => (by cases e)) rfl
  | tau hb =>
      exact h.bus_step hP hb hl fun c hc => h.follows_idle hc hb (fun t req e => (by cases e)) rfl

theorem socInv_reach (hP : ∀ m req, P m req → WellSent m req)
    (h : (socMachine setup P).Reach x) : SocInv setup P x := by
  refine h.invariant (I := SocInv setup P) ?_ ?_
  · intro x heq
    subst heq
    exact socInv_start
  · intro x x' _ hi hyp
    obtain ⟨l, hs, hl⟩ := hyp
    exact hi.step hP hs hl

/-! ## 4. The busy list and the bus -/

omit [DecidableEq T] in
theorem toNat_ofNat_srcid (setup : SocSetup n k T D) (c : Fin n) :
    (BitVec.ofNat 16 c.val).toNat = c.val := by
  have hc := c.isLt
  have hn := setup.few
  rw [BitVec.toNat_ofNat]
  exact Nat.mod_eq_of_lt (by omega)

omit [DecidableEq T] in
/-- Every access of a CPU may be put. -/
theorem cpuReq_wellSent (setup : SocSetup n k T D) (c : Fin n) (a : Access) (rq : Rq) :
    WellSent c (cpuReq c a rq) := by
  refine ⟨?_, toNat_ofNat_srcid setup c⟩
  show (if a.bWrite then CMD_WRITE else CMD_READ) = _ ∨ (if a.bWrite then CMD_WRITE else CMD_READ) = _
  cases a.bWrite
  · exact .inr rfl
  · exact .inl rfl

/-- The tids of the busy requests: being put, under way on the bus, completed. -/
theorem SocInv.busyList_perm (h : SocInv setup P x) {c : Fin n} (hc : setup.isCpu c = true) :
    ((x.cpu c).cpu.rqs.busyList.map tidOf).Perm
      ((x.cpu c).putting.map tidOf ++ x.bus.underway setup.toBusSetup c ++
        (x.cpu c).completed.map tidOf) := by
  have hperm := ((h.cpu c hc).run.busyList_perm).map tidOf
  rw [List.map_append, List.map_append, List.map_map] at hperm
  exact hperm.trans (((h.account c hc).append_left _).append_right _)

/-- **The busy list is exact.** For a CPU with posted writes, in every reachable state: the busy
    requests are, by their tids and each once, the one being put, those under way on the bus and
    the completed read; a response that is delivered finds its request; and while a read is put,
    nothing of this CPU is under way. -/
theorem busyList_exact (h : (socMachine setup WellSent).Reach x) {c : Fin n}
    (hc : setup.isCpu c = true) (hm : setup.unblockingWrite c = true) :
    ((x.cpu c).cpu.rqs.busyList.map tidOf).Perm
        ((x.cpu c).putting.map tidOf ++ x.bus.underway setup.toBusSetup c ++
          (x.cpu c).completed.map tidOf) ∧
      ((x.cpu c).cpu.rqs.busyList.map tidOf).Nodup ∧
      (∀ rq ∈ (x.cpu c).completed, ∃ a w, (x.cpu c).cpu.pc = .doneWait a rq w ∧ a.bWrite = false) ∧
      (∀ rsp x', SocStep setup x (.bus (.deliver c (some rsp))) x' →
        ∃ rq data, (x.cpu c).cpu.rqs.getRequestByTid rsp.rtrdid = some rq ∧
          responseThread c.val rsp = some (rsp.rtrdid, data)) ∧
      (x.bus.underway setup.toBusSetup c).Nodup ∧
      ∀ a rq, (x.cpu c).cpu.pc = .putting a rq → a.bWrite = false →
        x.bus.underway setup.toBusSetup c = [] ∧ (x.cpu c).cpu.rqs.busyList = [rq] := by
  have hi := socInv_reach (fun m req hp => hp) h
  have hrun := (hi.cpu c hc).run
  have hperm := hi.busyList_perm hc
  have hnodup : ((x.cpu c).cpu.rqs.busyList.map tidOf).Nodup :=
    hrun.pool.busy_nodup.map (QemuWrapperRequests.tidOf_injective noRequests_le)
  have hparts := hperm.nodup_iff.mp hnodup
  refine ⟨hperm, hnodup, fun rq hrq => ?_, fun rsp x' hs => ?_,
    hparts.of_append_left.of_append_right, fun a rq hpc ha => ?_⟩
  · obtain ⟨⟨a, w, e⟩, -⟩ := CpuRun.mem_completed.mp hrq
    exact ⟨a, w, e, (hi.cpu c hc).waits hm a rq w e⟩
  · cases hs with
    | deliver hb =>
        obtain ⟨hsrc, hreop⟩ := hi.bus.delivered hb
        obtain ⟨t, data, htid, hr, -, -, ht⟩ :=
          receive_step hsrc hreop (hi.tid_inFlight (fun m req hp => hp) hc hb)
        have hget := QemuWrapperRequests.getRequestByTid_eq_some hrun.pool noRequests_le
          (hrun.flight t ht).1
        rw [htid] at hget
        exact ⟨t.rq, data, hget, hr⟩
    | other hm' htry _ =>
        obtain ⟨t, req, e⟩ := htry
        cases e
  · have hbusy := (hi.cpu c hc).alone a rq (.inl hpc) ha
    refine ⟨?_, hbusy⟩
    have hput : (x.cpu c).putting = [rq] := by rw [CpuRun.putting, hpc]
    have hlen := hperm.length_eq
    rw [hbusy, hput] at hlen
    simp only [List.map_cons, List.map_nil, List.length_append, List.length_cons,
      List.length_nil] at hlen
    exact List.eq_nil_of_length_eq_zero (by omega)

/-- One master is few enough for `srcid`. -/
theorem one_few : 1 ≤ 65536 := by decide

/-- One CPU with posted writes, and one slave at [0x1000, 0x2000). -/
def oneCpu : SocSetup 1 1 Unit Unit where
  map _ := [⟨0, 0x1000#32, 0x2000#32, 0⟩]
  rcvRqst _ _ _ _ _ _ := True
  init _ := ()
  few := one_few
  isCpu _ := true
  unblockingWrite _ := true
  cpuThread := ()

/-- The CPU has posted a write. -/
theorem busyList_exact_posted : ∃ x : Soc 1 1 Unit Unit, (socMachine oneCpu WellSent).Reach x ∧
    ((x.cpu 0).cpu.rqs.busyList.map tidOf).Perm (x.bus.underway oneCpu.toBusSetup 0) ∧
    x.bus.underway oneCpu.toBusSetup 0 = [1#8] := by
  have h0 : (socMachine oneCpu WellSent).Reach (.start oneCpu) := .start rfl
  have h1 := h0.step ⟨_, .turn (c := 0) rfl rfl (.call (a := someWrite) rfl), trivial⟩
  have h2 := h1.step ⟨_, .put (c := 0) rfl rfl (.call (.call _ rfl)), cpuReq_wellSent oneCpu _ _ _⟩
  refine ⟨_, h2, ?_, by rfl⟩
  have h := (busyList_exact h2 (c := 0) rfl rfl).1
  exact h.trans (.of_eq (by rfl))

end Rabbits
