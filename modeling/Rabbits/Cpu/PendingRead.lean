/-
  File:      Rabbits/Cpu/PendingRead.lean
  Subject:   The read that a CPU waits for.

  A read has the bus for itself: nothing else of its CPU is under way. So the response that wakes
  the thread is the response of this read, and every earlier access is over before the read is
  served.

  * `PendingRead` -- the read a CPU waits for is the last request it put;
  * `PendingRead.step` -- kept by every step of the platform;
  * `read_served_last` -- a read is served when all earlier requests of its CPU are served;
  * `read_answered` -- the thread is woken by the response of its own read.
-/
import Rabbits.Cpu.Soc

namespace Rabbits

open Lib Crossbar

universe u v

variable {n k : Nat} {D : Type u} {T : Type v} [DecidableEq T]

/-! ## 1. The invariant -/

/-- An outstanding read is waited for; a read that is waited for is the last request put to its
    slave, and it is outstanding until it is answered; then it has the last response delivered. -/
structure PendingRead (setup : SocSetup n k T D) (x : Soc n k T D) (c : Fin n) : Prop where
  waited : ∀ s, ∀ req ∈ x.bus.outstanding setup.toBusSetup c s, req.cmd = CMD_READ →
    ∃ a rq, (x.cpu c).cpu.pc = .doneWait a rq false ∧ a.bWrite = false
  last : ∀ a rq w, (x.cpu c).cpu.pc = .doneWait a rq w → a.bWrite = false → ∀ s req,
    dispatchRequestsThread setup.map c (cpuReq c a rq) = some (s, req) →
    (x.bus.issued setup.toBusSetup c s).getLast? = some req
  pending : ∀ a rq, (x.cpu c).cpu.pc = .doneWait a rq false → a.bWrite = false → ∀ s req,
    dispatchRequestsThread setup.map c (cpuReq c a rq) = some (s, req) →
    x.bus.outstanding setup.toBusSetup c s ≠ []
  answered : ∀ a rq, (x.cpu c).cpu.pc = .doneWait a rq true → a.bWrite = false → ∀ s req,
    dispatchRequestsThread setup.map c (cpuReq c a rq) = some (s, req) →
    x.bus.outstanding setup.toBusSetup c s = [] ∧
      ∃ rsp, (x.bus.delivered c s).getLast? = some rsp ∧
        responseThread c.val rsp = some (tidOf rq, (x.cpu c).cpu.rqs.rcvData rq)

variable {setup : SocSetup n k T D} {P : Fin n → VciRequest → Prop} {x x' : Soc n k T D}
  {c : Fin n}

omit [DecidableEq T] in
theorem pendingRead_start : PendingRead setup (.start setup) c := by
  refine ⟨fun s req h => ?_, fun a rq w h => ?_, fun a rq h => ?_, fun a rq h => ?_⟩
  · cases h
  · cases h
  · cases h
  · cases h

omit [DecidableEq T] in
/-- A step that is none of the CPU's business. -/
theorem PendingRead.frame (h : PendingRead setup x c) (hcpu : x'.cpu c = x.cpu c)
    (hi : ∀ s, x'.bus.issued setup.toBusSetup c s = x.bus.issued setup.toBusSetup c s)
    (hd : ∀ s, x'.bus.delivered c s = x.bus.delivered c s) : PendingRead setup x' c := by
  have ho (s : Fin k) :
      x'.bus.outstanding setup.toBusSetup c s = x.bus.outstanding setup.toBusSetup c s := by
    rw [Bus.outstanding, hi, hd]
    rfl
  constructor
  · simpa only [ho, hcpu] using h.waited
  · simpa only [hi, hcpu] using h.last
  · simpa only [ho, hcpu] using h.pending
  · simpa only [ho, hd, hcpu] using h.answered

omit [DecidableEq T] in
/-- A turn of the thread. -/
theorem PendingRead.turn {q : QemuCpuWrapper} (h : PendingRead setup x c)
    (hmode : FixedMode (setup.unblockingWrite c) (x.cpu c)) (ht : Turn (x.cpu c).cpu q)
    (hcpu : (x'.cpu c).cpu = q) (hbus : x'.bus = x.bus) : PendingRead setup x' c := by
  have hpc (a : Access) (rq : Rq) (w : Bool) (e : q.pc = .doneWait a rq w) :
      (x.cpu c).cpu.pc = .doneWait a rq w ∧ q.rqs = (x.cpu c).cpu.rqs := by
    cases ht with
    | quiet hq hrqs _ =>
        rcases hq with e' | ⟨-, h2⟩
        · exact ⟨by rw [← e', e], hrqs⟩
        · rw [e] at h2
          cases h2
    | take a' rq' q' _ _ _ hc =>
        rw [hc] at e
        cases e
    | done a' rq' hd hc =>
        have hdone := (hmode.run.waiting a' rq' true hd).2
        rw [hc] at e
        simp [QemuCpuWrapper.awaitDone, ← hdone] at e
  have hkeep (a : Access) (rq : Rq) (e : (x.cpu c).cpu.pc = .doneWait a rq false) :
      q.pc = .doneWait a rq false := by
    cases ht with
    | quiet hq _ _ =>
        rcases hq with e' | ⟨h1, -⟩
        · rw [e', e]
        · rw [e] at h1
          cases h1
    | take a' rq' q' h1 _ _ _ =>
        rw [e] at h1
        cases h1
    | done a' rq' hd _ =>
        rw [e] at hd
        cases hd
  constructor
  · intro s req hreq hread
    rw [hbus] at hreq
    obtain ⟨a, rq, e, ha⟩ := h.waited s req hreq hread
    exact ⟨a, rq, by rw [hcpu]; exact hkeep a rq e, ha⟩
  · intro a rq w e
    rw [hcpu] at e
    rw [hbus]
    exact h.last a rq w (hpc a rq w e).1
  · intro a rq e
    rw [hcpu] at e
    rw [hbus]
    exact h.pending a rq (hpc a rq false e).1
  · intro a rq e
    rw [hcpu] at e ⊢
    rw [hbus, (hpc a rq true e).2]
    exact h.answered a rq (hpc a rq true e).1

/-- Where the thread is after its `put`. -/
theorem afterPut_pc {s : CpuRun} {a : Access} {rq : Rq} (hpc : s.cpu.pc = .putting a rq)
    (hd : s.cpu.rqs.bDone rq = false) : s.afterPut.cpu.pc =
      if a.bWrite && s.cpu.unblockingWrite then .idle else .doneWait a rq false := by
  rw [CpuRun.afterPut, hpc, QemuCpuWrapper.putReturns_eq hpc hd]

omit [DecidableEq T] in
/-- The return of a `put`: a read is the last request now, and outstanding. -/
theorem PendingRead.put {a : Access} {rq : Rq} (h : PendingRead setup x c)
    (hrun : RunInv (x.cpu c)) (hpc : (x.cpu c).cpu.pc = .putting a rq)
    (hcpu : x'.cpu c = (x.cpu c).afterPut)
    (hi : ∀ s, x'.bus.issued setup.toBusSetup c s = x.bus.issued setup.toBusSetup c s ++
      [cpuReq c a rq].filterMap (routeTo (dispatchRequestsThread setup.map) c s))
    (hd : ∀ s, x'.bus.delivered c s = x.bus.delivered c s)
    (hle : ∀ s, (x.bus.delivered c s).length ≤ (x.bus.issued setup.toBusSetup c s).length) :
    PendingRead setup x' c := by
  have hpc' := afterPut_pc hpc (hrun.putting a rq hpc).2.1
  rw [← hcpu] at hpc'
  have ho (s : Fin k) : x'.bus.outstanding setup.toBusSetup c s =
      x.bus.outstanding setup.toBusSetup c s ++
        [cpuReq c a rq].filterMap (routeTo (dispatchRequestsThread setup.map) c s) := by
    rw [Bus.outstanding, hi, hd, List.drop_append_of_le_length (hle s)]
    rfl
  have hsame {a' : Access} {rq' : Rq} {w : Bool} (e : (x'.cpu c).cpu.pc = .doneWait a' rq' w) :
      a = a' ∧ rq = rq' ∧ false = w := by
    rw [hpc'] at e
    split at e
    · cases e
    · simpa using e
  constructor
  · intro s req hreq hread
    rw [ho, List.mem_append] at hreq
    rcases hreq with hreq | hreq
    · obtain ⟨a', rq', e, -⟩ := h.waited s req hreq hread
      rw [hpc] at e
      cases e
    · obtain ⟨req', hmem, hroute⟩ := List.mem_filterMap.mp hreq
      rw [List.mem_singleton.mp hmem, routeTo_eq_some] at hroute
      rw [(dispatchRequestsThread_fields hroute).2.2.1] at hread
      have ha : a.bWrite = false := by
        cases hw : a.bWrite with
        | false => rfl
        | true => simp [cpuReq, sendReq, hw, CMD_WRITE, CMD_READ] at hread
      exact ⟨a, rq, by simp [hpc', ha], ha⟩
  · intro a' rq' w e ha s req hroute
    obtain ⟨rfl, rfl, -⟩ := hsame e
    rw [hi, List.filterMap_cons_some (routeTo_eq_some.mpr hroute)]
    simp
  · intro a' rq' e ha s req hroute
    obtain ⟨rfl, rfl, -⟩ := hsame e
    rw [ho, List.filterMap_cons_some (routeTo_eq_some.mpr hroute)]
    simp
  · intro a' rq' e ha
    obtain ⟨-, -, e'⟩ := hsame e
    cases e'

/-- With a read in its thread, a CPU has at most this transaction under way. -/
theorem SocInv.underway_le (h : SocInv setup P x) (hc : setup.isCpu c = true) {a : Access} {rq : Rq}
    (hh : (x.cpu c).cpu.pc.holds a rq) (ha : a.bWrite = false) :
    (x.bus.underway setup.toBusSetup c).length ≤ 1 := by
  have hlen := (h.busyList_perm hc).length_eq
  rw [(h.cpu c hc).alone a rq hh ha] at hlen
  simp only [List.length_map, List.length_append, List.length_cons, List.length_nil] at hlen
  omega

/-- The response that a waiting read sees is its own. -/
theorem response_read {mode : Bool} {s s' : CpuRun} {t : Transaction} {data : ULong} {a : Access}
    {rq : Rq} {w : Bool} (h : FixedMode mode s) (hs : RunStep s (.response t data) s')
    (hpc : s'.cpu.pc = .doneWait a rq w) (ha : a.bWrite = false) :
    s.cpu.pc = .doneWait a rq false ∧ w = true ∧ t.rq = rq ∧ s'.cpu.rqs.rcvData rq = data := by
  cases hs with
  | response _ ht =>
      obtain ⟨hb, hd⟩ := h.run.flight t ht
      have hget := QemuWrapperRequests.getRequestByTid_eq_some h.run.pool noRequests_le hb
      simp only [QemuCpuWrapper.rcvRsp, hget] at hpc ⊢
      split at hpc
      · next hif =>
          have hbusy := h.alone a rq (.inr ⟨w, hpc⟩) ha
          have hrq : t.rq = rq := by simpa [hbusy] using hb
          have hp : s.posted t = true := by
            simp only [h.same, Bool.and_eq_true] at hif
            simp [CpuRun.posted, h.flight t ht, hif]
          exact absurd (hrq ▸ hpc) (h.run.posted t ht hp a w)
      · next hif =>
          obtain ⟨w', hpc', hw⟩ := notifyDone_eq_doneWait.mp hpc
          have hbusy := h.alone a rq (.inr ⟨w', hpc'⟩) ha
          have hrq : t.rq = rq := by simpa [hbusy] using hb
          subst hrq
          have hw' : w' = false := ((h.run.waiting a t.rq w' hpc').2).trans hd
          rw [if_neg hif]
          exact ⟨hw' ▸ hpc', by simpa using hw, rfl, Function.update_self _ _ _⟩

/-- A response is delivered to the CPU: a read that is waited for had been outstanding at one
    slave only, and this is its response. -/
theorem PendingRead.deliver {rsp : VciResponse} {b : Bus n k T D} (h : PendingRead setup x c)
    (hi : SocInv setup P x) (hi' : SocInv setup P x') (hP : ∀ m req, P m req → WellSent m req)
    (hc : setup.isCpu c = true)
    (hs : BusStep setup.toBusSetup x.bus (.deliver c (some rsp)) b) (hbus : x'.bus = b)
    (hcpu : x'.cpu c = (x.cpu c).receive c (some rsp)) : PendingRead setup x' c := by
  subst hbus
  have hsrcid (m : Fin n) (req : VciRequest) (hp : P m req) := (hP m req hp).srcid
  have hissued (s : Fin k) :
      x'.bus.issued setup.toBusSetup c s = x.bus.issued setup.toBusSetup c s := by
    rw [issued_step hi.bus hs]
    exact List.append_nil _
  obtain ⟨out, hout, hpath⟩ := path_step hi.bus hi.flow hi'.bus hi'.flow hsrcid hs c
  obtain ⟨⟨s₀, rsp'⟩, rfl, hrsp⟩ : ∃ e, out = [e] ∧ e.2 = rsp := by
    simpa [BusLabel.gets, List.map_eq_singleton_iff] using hout
  subst hrsp
  have hunder := (underway_step hi.bus hi.flow hi'.bus hi'.flow hsrcid hs c).length_eq
  simp only [BusLabel.gets, BusLabel.puts, BusLabel.tries, if_true, Option.toList_some,
    List.map_cons, List.map_nil, List.length_append, List.length_cons, List.length_nil] at hunder
  obtain ⟨hsrc, hreop⟩ := hi.bus.delivered hs
  obtain ⟨t, data, htid, hthread, hstep, -, ht⟩ :=
    receive_step hsrc hreop (hi.tid_inFlight hP hc hs)
  rw [← hcpu] at hstep
  -- Nothing of this CPU is under way after the response of its read.
  have hnil {a : Access} {rq : Rq} {w : Bool} (e : (x.cpu c).cpu.pc = .doneWait a rq w)
      (ha : a.bWrite = false) (s : Fin k) : x'.bus.outstanding setup.toBusSetup c s = [] := by
    have hone := hi.underway_le hc (.inr ⟨w, e⟩) ha
    have hle := length_path_le setup.toBusSetup x'.bus c s
    rw [outstanding_eq_nil_iff hi'.bus hi'.flow hsrcid]
    exact List.eq_nil_of_length_eq_zero (by omega)
  constructor
  · intro s req hreq hread
    have hold : req ∈ x.bus.outstanding setup.toBusSetup c s := by
      rw [Bus.outstanding, hissued, (hpath s).1, List.length_append] at hreq
      exact List.mem_of_mem_drop (by rwa [Bus.outstanding, List.drop_drop])
    obtain ⟨a, rq, e, ha⟩ := h.waited s req hold hread
    rw [hnil e ha s] at hreq
    cases hreq
  · intro a rq w e ha s req hroute
    rw [hissued]
    exact h.last a rq false (response_read (hi.cpu c hc) hstep e ha).1 ha s req hroute
  · intro a rq e ha
    have hw := (response_read (hi.cpu c hc) hstep e ha).2.1
    cases hw
  · intro a rq e ha s req hroute
    obtain ⟨e', -, rfl, hdata⟩ := response_read (hi.cpu c hc) hstep e ha
    refine ⟨hnil e' ha s, rsp', ?_, ?_⟩
    · have hone := hi.underway_le hc (.inr ⟨false, e'⟩) ha
      have hs : x.bus.path setup.toBusSetup c s ≠ [] := by
        rw [Ne, ← outstanding_eq_nil_iff hi.bus hi.flow hsrcid]
        exact h.pending a t.rq e' ha s req hroute
      have hs₀ : x.bus.path setup.toBusSetup c s₀ ≠ [] := by
        have hcons := (hpath s₀).2
        simp only [byWriter_self, BusLabel.puts, BusLabel.tries, List.filterMap_nil, List.map_nil,
          List.append_nil] at hcons
        rw [← hcons]
        simp
      rw [path_unique hone hs hs₀, (hpath s₀).1, byWriter_self]
      simp
    · rw [hdata, htid]
      exact hthread

/-! ## 2. The steps of the platform -/

/-- A step of the bus that neither ends a `put` of the CPU nor delivers to it. -/
theorem PendingRead.bus_frame {l : BusLabel n k T} {b : Bus n k T D} (h : PendingRead setup x c)
    (hi : SocInv setup P x) (hs : BusStep setup.toBusSetup x.bus l b) (hbus : x'.bus = b)
    (hcpu : x'.cpu c = x.cpu c) (hputs : l.puts b c = []) (hgets : l.gets c = []) :
    PendingRead setup x' c := by
  subst hbus
  refine h.frame hcpu (fun s => ?_) fun s => ?_
  · rw [issued_step hi.bus hs, hputs]
    exact List.append_nil _
  · obtain ⟨out, hout, e⟩ := gets_step hi.bus hs c
    rw [hgets, List.map_eq_nil_iff] at hout
    rw [Bus.delivered, e, hout, List.append_nil]
    rfl

/-- The thread of the CPU tried to put. -/
theorem PendingRead.try {l : BusLabel n k T} {b : Bus n k T D} {a : Access} {rq : Rq}
    (h : PendingRead setup x c) (hi : SocInv setup P x) (hP : ∀ m req, P m req → WellSent m req)
    (hc : setup.isCpu c = true) (hs : BusStep setup.toBusSetup x.bus l b)
    (hpc : (x.cpu c).cpu.pc = .putting a rq)
    (htry : l.tries = some (c, setup.cpuThread, cpuReq c a rq)) :
    PendingRead setup (x.afterTry setup.cpuThread c b) c := by
  have hsrcid (m : Fin n) (req : VciRequest) (hp : P m req) := (hP m req hp).srcid
  have hgets : l.gets c = [] := by cases l <;> first | rfl | cases htry
  have hputs : l.puts b c =
      if (b.net.req.blocked c setup.cpuThread).isNone then [cpuReq c a rq] else [] := by
    simp [BusLabel.puts, htry]
  have hcpu : (x.afterTry setup.cpuThread c b).cpu c =
      if (b.net.req.blocked c setup.cpuThread).isNone then (x.cpu c).afterPut else x.cpu c :=
    Function.update_self _ _ _
  by_cases hb : (b.net.req.blocked c setup.cpuThread).isNone = true
  · rw [if_pos hb] at hputs hcpu
    refine h.put (hi.cpu c hc).run hpc hcpu (fun s => ?_) (fun s => ?_)
      fun s => length_delivered_le hi.bus hi.flow hsrcid c s
    · rw [← hputs]
      exact issued_step hi.bus hs c s
    · obtain ⟨out, hout, e⟩ := gets_step hi.bus hs c
      rw [hgets, List.map_eq_nil_iff] at hout
      show byWriter s (b.net.rsp.output c).handed = _
      rw [e, hout, List.append_nil]
      rfl
  · rw [if_neg hb] at hputs hcpu
    exact h.bus_frame hi hs rfl hcpu hputs hgets

/-- **Every step of the platform keeps the invariant.** -/
theorem PendingRead.step {l : SocLabel n k T} (h : PendingRead setup x c) (hi : SocInv setup P x)
    (hP : ∀ m req, P m req → WellSent m req) (hc : setup.isCpu c = true)
    (hs : SocStep setup x l x') (hl : l.Meets P) : PendingRead setup x' c := by
  have hi' := hi.step hP hs hl
  cases hs with
  | @turn c' l s hc' ht hstep =>
      obtain ⟨q, hturn, rfl⟩ := turn_of_isTurn hstep ht
      by_cases e : c = c'
      · subst e
        exact h.turn (hi.cpu c hc) hturn (by simp) rfl
      · exact h.frame (Function.update_of_ne e _ _) (fun s => rfl) fun s => rfl
  | @put c' a rq b hc' hpc hb =>
      by_cases e : c = c'
      · subst e
        exact h.try hi hP hc hb hpc rfl
      · refine h.bus_frame hi hb rfl (Function.update_of_ne e _ _) ?_ rfl
        simp [BusLabel.puts, BusLabel.tries, Ne.symm e]
  | @putAgain c' req b hc' hb =>
      by_cases e : c = c'
      · subst e
        have hblocked : x.bus.net.req.blocked c setup.cpuThread = some req := by
          cases hb with
          | resumePut hr => cases hr with | resumePut hb _ => exact hb
        obtain ⟨-, a, rq, hpc, rfl⟩ := hi.blocked c hc _ req hblocked
        exact h.try hi hP hc hb hpc rfl
      · refine h.bus_frame hi hb rfl (Function.update_of_ne e _ _) ?_ rfl
        simp [BusLabel.puts, BusLabel.tries, Ne.symm e]
  | @other m l b hm htry hb =>
      obtain ⟨t, req, htry⟩ := htry
      have hne : m ≠ c := by
        intro heq
        subst heq
        rw [hm] at hc
        cases hc
      refine h.bus_frame hi hb rfl rfl (by simp [BusLabel.puts, htry, hne]) ?_
      cases l <;> first | rfl | cases htry
  | @deliver m r b hb =>
      by_cases e : c = m
      · subst e
        cases r with
        | none =>
            refine h.bus_frame hi hb rfl ?_ rfl (by simp [BusLabel.gets])
            simp [CpuRun.receive]
        | some rsp => exact h.deliver hi hi' hP hc hb rfl (by simp [hc])
      · refine h.bus_frame hi hb rfl ?_ rfl (by simp [BusLabel.gets, Ne.symm e])
        show (if setup.isCpu m then Function.update x.cpu m ((x.cpu m).receive m r)
          else x.cpu) c = x.cpu c
        split
        · rw [Function.update_of_ne e]
        · rfl
  | serve hb => exact h.bus_frame hi hb rfl rfl rfl rfl
  | tau hb => exact h.bus_frame hi hb rfl rfl rfl rfl

theorem pendingRead_reach (hP : ∀ m req, P m req → WellSent m req) (hc : setup.isCpu c = true)
    (h : (socMachine setup P).Reach x) : PendingRead setup x c := by
  refine h.invariant (I := fun x => PendingRead setup x c) ?_ ?_
  · intro x heq
    subst heq
    exact pendingRead_start
  · intro x x' hr hp hyp
    obtain ⟨l, hs, hl⟩ := hyp
    exact hp.step (socInv_reach hP hr) hP hc hs hl

/-! ## 3. The order of a CPU's accesses -/

/-- **A read is served last**: when a slave serves a read of a CPU, every request the CPU put before
    is served, at every slave, and none is put after it. -/
theorem read_served_last (hi : SocInv setup P x) (h : PendingRead setup x c)
    (hP : ∀ m req, P m req → WellSent m req) (hc : setup.isCpu c = true) {s : Fin k}
    {req : VciRequest} (hreq : req ∈ x.bus.servingOf c s) (hread : req.cmd = CMD_READ)
    (s' : Fin k) : x.bus.issued setup.toBusSetup c s' =
      (x.bus.servedOf c s').map Prod.fst ++ if s' = s then [req] else [] := by
  have hsrcid (m : Fin n) (req : VciRequest) (hp : P m req) := (hP m req hp).srcid
  obtain ⟨a, rq, hpc, ha⟩ :=
    h.waited s req (mem_outstanding_of_serving hi.bus hi.flow hsrcid hreq) hread
  have hone := hi.underway_le hc (.inr ⟨false, hpc⟩) ha
  have hlen := length_path_le setup.toBusSetup x.bus c s
  have hserving := List.length_pos_of_mem hreq
  simp only [Bus.path, List.length_append, List.length_map] at hlen
  by_cases hs : s' = s
  · subst hs
    obtain ⟨req', hone'⟩ := List.length_eq_one_iff.mp
      (show (x.bus.servingOf c s').length = 1 by omega)
    rw [hone', List.mem_singleton] at hreq
    have hcoming : x.bus.coming setup.toBusSetup c s' = [] :=
      List.eq_nil_of_length_eq_zero (by omega)
    rw [issued_eq hi.bus hi.flow hsrcid, hone', hcoming, if_pos rfl, List.append_nil, hreq]
  · have hpath : x.bus.path setup.toBusSetup c s ≠ [] := by
      rw [Ne, ← List.length_eq_zero_iff]
      simp only [Bus.path, List.length_append, List.length_map]
      omega
    have hnil : x.bus.path setup.toBusSetup c s' = [] := by
      by_contra hne
      exact hs (path_unique hone hne hpath)
    rw [if_neg hs, List.append_nil]
    exact (served_of_path_nil hi.bus hi.flow hsrcid hnil).1

/-- **The answer of a read**: the CPU thread is woken by the response that its slave made to this
    read, its last request. -/
theorem read_answered (hi : SocInv setup P x) (h : PendingRead setup x c)
    (hP : ∀ m req, P m req → WellSent m req) {a : Access} {rq : Rq}
    (hpc : (x.cpu c).cpu.pc = .doneWait a rq true) (ha : a.bWrite = false) {s : Fin k}
    {req : VciRequest}
    (hroute : dispatchRequestsThread setup.map c (cpuReq c a rq) = some (s, req)) :
    ∃ rsp, (x.bus.servedOf c s).getLast? = some (req, rsp) ∧
      responseThread c.val rsp = some (tidOf rq, (x.cpu c).cpu.rqs.rcvData rq) := by
  have hsrcid (m : Fin n) (req : VciRequest) (hp : P m req) := (hP m req hp).srcid
  obtain ⟨hnil, rsp, hrsp, hthread⟩ := h.answered a rq hpc ha s req hroute
  have hlast := h.last a rq true hpc ha s req hroute
  obtain ⟨hissued, hdelivered⟩ := served_of_path_nil hi.bus hi.flow hsrcid
    ((outstanding_eq_nil_iff hi.bus hi.flow hsrcid c s).mp hnil)
  rw [hissued, List.getLast?_map] at hlast
  rw [hdelivered, List.getLast?_map] at hrsp
  obtain ⟨⟨req', rsp'⟩, he, rfl⟩ := Option.map_eq_some_iff.mp hlast
  rw [he] at hrsp
  cases hrsp
  exact ⟨rsp', he, hthread⟩

end Rabbits
