/-
  File:      Rabbits/Dbf/Requests.lean
  Subject:   The slave side of the deblocking filter (dbf_device.cpp: request, handle_request,
             get_offset, response).

  One thread handles a request 3 ns after it got it, fills the record `m_response` and notifies the
  other one, which puts that record. There is one record and no way back from the second thread to
  the first: a request that is handled while the `put` of the response before is still blocked
  overwrites it.

  * `getOffsetCnt`, `handleRequest` -- what a request does;
  * `DbfSlave.next` -- the steps of the two threads, with any delay between them;
  * `Responds` -- the responses put and under way answer the requests handled, one by one;
  * `responds_of_waiting` -- **so they do, as long as a request is handled with the second thread
    back in its wait and a read selects one run of bytes**.

  The other threads of the device change its memory at any time.
-/
import Rabbits.Dbf.DbfDevice
import Rabbits.Lib.Labelled

namespace Rabbits

open Lib

/-! ## 1. A request -/

/-- The first loop of `get_offset`: the lanes before the first one set, and `be` from there on. -/
def skipZeros : Nat → Byte → Nat × Byte
  | 0, be => (0, be)
  | n + 1, be =>
      if be &&& 0x01#8 = 0#8 then
        let r := skipZeros n (be >>> 1)
        (r.1 + 1, r.2)
      else (0, be)

/-- The second loop of `get_offset`: the lanes set in a row. -/
def countOnes : Nat → Byte → Nat
  | 0, _ => 0
  | n + 1, be => if be &&& 0x01#8 = 0x01#8 then countOnes n (be >>> 1) + 1 else 0

/-- `get_offset`, for `be != 0`: the offset and `cnt`. -/
def getOffsetCnt (be : Byte) : Nat × Nat :=
  let r := skipZeros 8 be
  (r.1, countOnes 8 r.2)

/-- The address of a lane. -/
def laneAddr (address : ULong) (i : Nat) : Nat := (address + BitVec.ofNat 32 i).toNat

/-- The loop of a read over the lanes. -/
def readLanes (address : ULong) (lanes : List Nat) (rdata : Fin 8 → Byte) : DbfM (Fin 8 → Byte) :=
  lanes.foldlM (fun rdata i => do
    let data ← getData (laneAddr address i)
    return fun j => if j.val = i then data else rdata j) rdata

/-- The loop of a write over the lanes. -/
def writeLanes (address : ULong) (lanes : List Nat) (wdata : Fin 8 → Byte) : DbfM Unit :=
  lanes.forM fun i => setData (laneAddr address i) (if h : i < 8 then wdata ⟨i, h⟩ else 0#8)

/-- The switch of `handle_request`: a command other than these two only prints a message. -/
def handleCmd (req : VciRequest) (rsp : VciResponse) : DbfM VciResponse :=
  let lanes := List.range' (getOffsetCnt req.be).1 (getOffsetCnt req.be).2
  if req.cmd = CMD_READ then do
    let rdata ← readLanes req.address lanes rsp.rdata
    return { rsp with rdata := rdata, rerror := false, rbe := req.be }
  else if req.cmd = CMD_WRITE then do
    writeLanes req.address lanes req.wdata
    return { rsp with rerror := false, rbe := 0#8 }
  else return rsp

/-- `handle_request`. -/
def handleRequest (req : VciRequest) (rsp : VciResponse) : DbfM VciResponse := do
  let rsp ← handleCmd req rsp
  return { rsp with rsrcid := req.srcid, rtrdid := req.trdid, reop := true }

/-! ## 2. The two threads -/

/-- The device, its two records, the request that `request` keeps for 3 ns, whether `response` is in
    its `put`, and whether its event is notified; the requests handled so far, with the memory at
    that moment, and the responses put. -/
structure DbfSlave where
  dbf : DbfDevice
  rsp : VciResponse
  request : Option VciRequest
  putting : Bool
  evResponse : Bool
  handled : List (VciRequest × (Nat → Byte))
  put : List VciResponse

def DbfSlave.new : DbfSlave := ⟨.new, default, none, false, false, [], []⟩

/-- `get` returns a request, the 3 ns are over, the event is delivered, `put` returns, or another
    thread of the device runs. -/
inductive DbfSlaveEvent where
  | get (req : VciRequest)
  | handle
  | deliver
  | putReturns
  | other (dbf : DbfDevice)

/-- The event is notified for the next delta cycle, so it is delivered before any time passes; it
    is lost where `response` is not waiting. A blocked `put` holds a reference to the record. -/
def DbfSlave.next (s : DbfSlave) : DbfSlaveEvent → Option DbfSlave
  | .get req => if s.request = none then some { s with request := some req } else none
  | .handle => s.request.bind fun req =>
      if s.evResponse then none
      else if req.be = 0#8 then some { s with request := none }
      else ((handleRequest req s.rsp).run s.dbf).map fun r =>
        { s with
          request := none
          rsp := r.1
          dbf := r.2
          evResponse := true
          handled := s.handled ++ [(req, s.dbf.mData)] }
  | .deliver => if s.evResponse then some { s with evResponse := false, putting := true } else none
  | .putReturns =>
      if s.putting then some { s with putting := false, put := s.put ++ [s.rsp] } else none
  | .other dbf => some { s with dbf := dbf }

/-! ## 3. What a response holds -/

/-- The lane `i` is selected. -/
def Selects (be : Byte) (i : Fin 8) : Prop := be.getLsbD i = true

instance (be : Byte) (i : Fin 8) : Decidable (Selects be i) := inferInstanceAs (Decidable (_ = _))

/-- The response has the ids of the request and, for a read, the bytes it selects. -/
structure Echoes (p : VciRequest × (Nat → Byte)) (rsp : VciResponse) : Prop where
  srcid : rsp.rsrcid = p.1.srcid
  trdid : rsp.rtrdid = p.1.trdid
  data : p.1.cmd = CMD_READ → ∀ i, Selects p.1.be i → rsp.rdata i = p.2 (laneAddr p.1.address i)

/-- The lanes selected are all between two of them. -/
def SingleRun (be : Byte) : Prop :=
  ∀ i j k : Fin 8, i ≤ j → j ≤ k → Selects be i → Selects be k → Selects be j

instance (be : Byte) : Decidable (SingleRun be) := by
  unfold SingleRun
  infer_instance

/-- What the two loops find: no lane before the offset, `cnt` lanes from there on, not the one
    behind them. -/
structure FirstRun (be : Byte) (offset cnt : Nat) : Prop where
  offset_lt : offset < 8
  cnt_pos : 0 < cnt
  before : ∀ i : Fin 8, i.val < offset → ¬ Selects be i
  inside : ∀ i : Fin 8, offset ≤ i.val → i.val < offset + cnt → Selects be i
  behind : ∀ i : Fin 8, i.val = offset + cnt → ¬ Selects be i

theorem getOffsetCnt_firstRun {be : Byte} (hbe : be ≠ 0#8) :
    FirstRun be (getOffsetCnt be).1 (getOffsetCnt be).2 := by
  have hall : ∀ be : Byte, be ≠ 0#8 → (getOffsetCnt be).1 < 8 ∧ 0 < (getOffsetCnt be).2 ∧
      ∀ i : Fin 8, (i.val < (getOffsetCnt be).1 → ¬ Selects be i) ∧
        ((getOffsetCnt be).1 ≤ i.val → i.val < (getOffsetCnt be).1 + (getOffsetCnt be).2 →
          Selects be i) ∧
        (i.val = (getOffsetCnt be).1 + (getOffsetCnt be).2 → ¬ Selects be i) := by
    decide +kernel
  obtain ⟨hlt, hpos, hi⟩ := hall be hbe
  exact ⟨hlt, hpos, fun i => (hi i).1, fun i => (hi i).2.1, fun i => (hi i).2.2⟩

/-- Where the lanes are one run, the loops find them all. -/
theorem selects_iff {be : Byte} (hbe : be ≠ 0#8) (hrun : SingleRun be) (i : Fin 8) :
    Selects be i ↔ (getOffsetCnt be).1 ≤ i.val ∧ i.val < (getOffsetCnt be).1 + (getOffsetCnt be).2 := by
  have h := getOffsetCnt_firstRun hbe
  refine ⟨fun hi => ⟨?_, ?_⟩, fun hi => h.inside i hi.1 hi.2⟩
  · by_contra hlt
    exact h.before i (by omega) hi
  · by_contra hge
    -- the lane behind the first run lies between the offset and `i`
    have hpos := h.cnt_pos
    have hoff : Selects be ⟨(getOffsetCnt be).1, h.offset_lt⟩ := by
      refine h.inside _ (Nat.le_refl _) ?_
      show (getOffsetCnt be).1 < _
      omega
    have hmid := hrun ⟨(getOffsetCnt be).1, h.offset_lt⟩
      ⟨(getOffsetCnt be).1 + (getOffsetCnt be).2, by omega⟩ i (Nat.le_add_right _ _)
      (Fin.mk_le_of_le_val (by omega)) hoff hi
    exact h.behind _ rfl hmid

/-- A read takes the selected bytes from the memory and leaves the memory alone. -/
theorem readLanes_spec (address : ULong) {lanes : List Nat} {rdata rdata' : Fin 8 → Byte}
    {d d' : DbfDevice} (h : (readLanes address lanes rdata).run d = some (rdata', d')) (j : Fin 8) :
    rdata' j = if j.val ∈ lanes then d.mData (laneAddr address j.val) else rdata j := by
  induction lanes generalizing rdata with
  | nil =>
      cases h
      rfl
  | cons i lanes ih =>
      rw [readLanes, List.foldlM_cons, StateT.run_bind, StateT.run_bind] at h
      obtain ⟨⟨_, d₁⟩, hstep, hrest⟩ := Option.bind_eq_some_iff.mp h
      obtain ⟨⟨data, d₂⟩, hget, hpure⟩ := Option.bind_eq_some_iff.mp hstep
      obtain ⟨rfl, rfl⟩ := getData_eq_some hget
      cases hpure
      rw [ih hrest]
      by_cases hj : j.val ∈ lanes
      · simp [hj]
      · by_cases hji : j.val = i
        · simp [hji]
        · simp [hj, hji]

/-- **The response that `handle_request` fills answers the request.** -/
theorem handleRequest_echoes {req : VciRequest} {rsp rsp' : VciResponse} {d d' : DbfDevice}
    (hbe : req.be ≠ 0#8) (hrun : req.cmd = CMD_READ → SingleRun req.be)
    (h : (handleRequest req rsp).run d = some (rsp', d')) : Echoes (req, d.mData) rsp' := by
  rw [handleRequest, StateT.run_bind] at h
  obtain ⟨⟨rsp₁, d₁⟩, hcmd, hpure⟩ := Option.bind_eq_some_iff.mp h
  cases hpure
  refine ⟨rfl, rfl, fun hread i hi => ?_⟩
  rw [handleCmd, if_pos hread, StateT.run_bind] at hcmd
  obtain ⟨⟨rdata, d₂⟩, hlanes, hpure⟩ := Option.bind_eq_some_iff.mp hcmd
  cases hpure
  have hmem : i.val ∈ List.range' (getOffsetCnt req.be).1 (getOffsetCnt req.be).2 :=
    List.mem_range'_1.mpr ((selects_iff hbe (hrun hread) i).mp hi)
  exact (readLanes_spec req.address hlanes i).trans (if_pos hmem)

/-! ## 4. Every response in its place -/

/-- The records still to be put: by the `put` that is blocked, and by the one that the event will
    start. -/
def DbfSlave.owed (s : DbfSlave) : List VciResponse :=
  (if s.putting then [s.rsp] else []) ++ if s.evResponse then [s.rsp] else []

/-- The responses put, and those still to be put, answer the requests handled, in order; and the
    threads can put those without another request. -/
structure Responds (s : DbfSlave) : Prop where
  answers : List.Forall₂ Echoes s.handled (s.put ++ s.owed)
  completes : ∃ es t, (∀ req, DbfSlaveEvent.get req ∉ es) ∧ DbfSlaveEvent.handle ∉ es ∧
    exec DbfSlave.next s es = some t ∧ t.handled = s.handled ∧ t.owed = [] ∧
    List.Forall₂ Echoes t.handled t.put

/-- A request is handled with the thread `response` back in its wait, and a read selects one run of
    bytes. -/
def HandledWaiting (s : DbfSlave) : DbfSlaveEvent → Prop
  | .handle => ∀ req, s.request = some req → req.be ≠ 0#8 →
      s.putting = false ∧ (req.cmd = CMD_READ → SingleRun req.be)
  | .get _ => True
  | .deliver => True
  | .putReturns => True
  | .other _ => True

/-- One record at most is owed, and all responses answer. -/
structure OneOwed (s : DbfSlave) : Prop where
  one : s.putting = true → s.evResponse = false
  answers : List.Forall₂ Echoes s.handled (s.put ++ s.owed)

variable {s s' : DbfSlave}

theorem oneOwed_new : OneOwed .new := ⟨fun _ => rfl, .nil⟩

theorem OneOwed.responds (h : OneOwed s) : Responds s := by
  have hans := h.answers
  have hone := h.one
  refine ⟨hans, ?_⟩
  cases hp : s.putting with
  | true =>
      have he := hone hp
      refine ⟨[.putReturns], { s with putting := false, put := s.put ++ [s.rsp] }, by simp, by simp,
        by simp [exec, DbfSlave.next, hp], rfl, by simp [DbfSlave.owed, he], ?_⟩
      simpa [DbfSlave.owed, hp, he] using hans
  | false =>
      cases he : s.evResponse with
      | true =>
          refine ⟨[.deliver, .putReturns],
            { s with evResponse := false, putting := false, put := s.put ++ [s.rsp] }, by simp,
            by simp, by simp [exec, DbfSlave.next, he], rfl, by simp [DbfSlave.owed], ?_⟩
          simpa [DbfSlave.owed, hp, he] using hans
      | false =>
          refine ⟨[], s, by simp, by simp, rfl, rfl, by simp [DbfSlave.owed, hp, he], ?_⟩
          simpa [DbfSlave.owed, hp, he] using hans

/-- **Every step keeps the responses in their place**, as long as the record is free when a request
    is handled. -/
theorem OneOwed.next_kept {e : DbfSlaveEvent} (h : OneOwed s) (he : HandledWaiting s e)
    (hs : s.next e = some s') : OneOwed s' := by
  have hans := h.answers
  have hone := h.one
  cases e with
  | get req =>
      simp only [DbfSlave.next] at hs
      split at hs
      · cases hs
        exact ⟨hone, hans⟩
      · cases hs
  | handle =>
      obtain ⟨req, hreq, hs⟩ := Option.bind_eq_some_iff.mp hs
      split at hs
      · cases hs
      · next hev =>
          split at hs
          · cases hs
            exact ⟨hone, hans⟩
          · next hbe =>
              obtain ⟨⟨rsp, dbf⟩, hh, rfl⟩ := Option.map_eq_some_iff.mp hs
              obtain ⟨hput, hrun⟩ := he req hreq hbe
              have hev : s.evResponse = false := by simpa using hev
              refine ⟨fun hp => absurd hp (by simp [hput]), ?_⟩
              -- nothing was owed before, so the new record is all that is owed now
              simp only [DbfSlave.owed, hput, hev, Bool.false_eq_true, if_false, List.append_nil]
                at hans
              simp only [DbfSlave.owed, hput, Bool.false_eq_true, if_false, if_true, List.nil_append]
              exact List.rel_append hans (.cons (handleRequest_echoes hbe hrun hh) .nil)
  | deliver =>
      simp only [DbfSlave.next] at hs
      split at hs
      · next hev =>
          cases hs
          have hput : s.putting = false := by
            by_contra hp
            simp [hone (by simpa using hp)] at hev
          refine ⟨fun _ => rfl, ?_⟩
          simpa [DbfSlave.owed, hput, hev] using hans
      · cases hs
  | putReturns =>
      simp only [DbfSlave.next] at hs
      split at hs
      · next hput =>
          cases hs
          refine ⟨fun hp => (by cases hp), ?_⟩
          simpa [DbfSlave.owed, hput] using hans
      · cases hs
  | other dbf =>
      cases hs
      exact ⟨hone, hans⟩

/-- **One response for each request, in order, with its ids and bytes**, in every run in which a
    request is handled with the record free. -/
theorem responds_of_waiting (es : List DbfSlaveEvent)
    (h : Steps DbfSlave.next HandledWaiting .new es) : Along DbfSlave.next Responds .new es :=
  along_of_steps (fun _ h => h.responds) (fun _ _ _ h he hs => h.next_kept he hs) oneOwed_new h

/-- A read of the number of slices. -/
def nslicesRead (trdid : Byte) : VciRequest :=
  { (default : VciRequest) with
    address := BitVec.ofNat 32 REG_NSLICES, be := 0x01#8, cmd := CMD_READ, trdid := trdid }

/-- One read, answered. -/
theorem responds_of_waiting_read :
    Along DbfSlave.next Responds .new
      [.get (nslicesRead 7#8), .handle, .deliver, .putReturns] := by
  refine responds_of_waiting _ (Steps.cons rfl trivial (Steps.cons rfl ?_
    (Steps.cons rfl trivial (Steps.cons rfl trivial trivial))))
  intro req hreq _
  cases hreq
  exact ⟨rfl, fun _ => by decide⟩

/-- Two reads, the second handled while the `put` of the first response is blocked: the response to
    the first is gone. -/
theorem blocked_put_overwritten :
    ¬ Along DbfSlave.next Responds .new
      [.get (nslicesRead 7#8), .handle, .deliver, .get (nslicesRead 8#8), .handle] := by
  intro h
  have hlast := (((((h.2 _ rfl).2 _ rfl).2 _ rfl).2 _ rfl).2 _ rfl).answers
  cases hlast with
  | cons hfirst _ => exact absurd hfirst.trdid (by decide)

end Rabbits
