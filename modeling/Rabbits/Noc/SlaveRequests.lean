/-
  File:      Rabbits/Noc/SlaveRequests.lean
  Subject:   A slave device over a sequence of requests (slave_device.cpp).

  The thread keeps the request and the response in two records of the device, and the flag
  `m_bProcessing_rq` from the decoding of a command to the end of the `put` of its response. A
  command that is neither a read nor a write has no response, so nothing clears the flag.

  * `SlaveThread.next` -- a request arrives, `rcv_rqst` calls `send_rsp`, its `put` returns;
  * `AnswersAll` -- a response for each read and write, in order, and the thread gets back to a `get`
    with the flag clear;
  * `answers_iff` -- **exactly the runs without another command**.

  What `rcv_rqst` does with a request is open: any data and error flag. Invalidating the caches is
  left out.
-/
import Rabbits.Lib.Labelled
import Rabbits.Noc.Bus

namespace Rabbits

open Lib

/-! ## 1. The thread -/

/-- The device: its two records and its flag, where its thread is, the requests it got so far and
    the responses it put. -/
structure SlaveThread where
  pc : SlavePc
  req : VciRequest
  rsp : VciResponse
  bProcessingRq : Bool
  got : List VciRequest
  put : List VciResponse

/-- The constructor. -/
def SlaveThread.new : SlaveThread := ⟨.getting, default, default, false, [], []⟩

/-- `get` returns, the response queue has room for the response, or `rcv_rqst` answers. -/
inductive SlaveEvent where
  | get (req : VciRequest)
  | sendRsp (rdata : Fin 8 → Byte) (bErr : Bool)
  | putReturns

/-- `request_thread` from the return of `get` to `rcv_rqst`, or back to `get`. -/
def SlaveThread.take (s : SlaveThread) (req : VciRequest) : SlaveThread :=
  let s := { s with req := req, got := s.got ++ [req] }
  if s.bProcessingRq then s
  else
    let s :=
      { s with
        bProcessingRq := true
        rsp := { s.rsp with rsrcid := req.srcid, rtrdid := req.trdid, reop := true, rbe := req.be } }
    if req.cmd = CMD_WRITE ∨ req.cmd = CMD_READ then { s with pc := .serving req } else s

/-- `send_rsp` up to its `put`, called by `rcv_rqst`: a read has filled `m_rsp.rdata`. -/
def SlaveThread.sendRsp (s : SlaveThread) (req : VciRequest) (rdata : Fin 8 → Byte) (bErr : Bool) :
    SlaveThread :=
  { s with
    pc := .putting
    rsp := { s.rsp with
      rdata := if req.cmd = CMD_WRITE then s.rsp.rdata else rdata
      rerror := bErr } }

def SlaveThread.next (s : SlaveThread) : SlaveEvent → Option SlaveThread
  | .get req => if s.pc = .getting then some (s.take req) else none
  | .sendRsp rdata bErr =>
      match s.pc with
      | .serving req => some (s.sendRsp req rdata bErr)
      | .getting => none
      | .putting => none
  | .putReturns =>
      if s.pc = .putting then
        some { s with pc := .getting, bProcessingRq := false, put := s.put ++ [s.rsp] }
      else none

/-- It is the thread of the bus: the same flag, and the response of `slaveRsp`. -/
theorem take_pc (s : SlaveThread) (hs : s.pc = .getting) (req : VciRequest) :
    ((s.take req).pc, (s.take req).bProcessingRq) = slaveTakes s.bProcessingRq (some req) := by
  unfold SlaveThread.take slaveTakes
  cases hb : s.bProcessingRq with
  | true => simp [hs]
  | false => by_cases hc : req.cmd = CMD_WRITE ∨ req.cmd = CMD_READ <;> simp [hc, hs]

/-! ## 2. The responses -/

/-- A read or a write. -/
def VciRequest.IsAccess (req : VciRequest) : Prop := req.cmd = CMD_WRITE ∨ req.cmd = CMD_READ

instance (req : VciRequest) : Decidable req.IsAccess := inferInstanceAs (Decidable (_ ∨ _))

/-- What a response repeats of its request. -/
def VciRequest.ids (req : VciRequest) : BitVec 16 × Byte := (req.srcid, req.trdid)

def VciResponse.ids (rsp : VciResponse) : BitVec 16 × Byte := (rsp.rsrcid, rsp.rtrdid)

/-- The response that is still to be put. -/
def SlaveThread.owed (s : SlaveThread) : List VciResponse :=
  if s.pc = .getting then [] else [s.rsp]

/-- Every read and write that was got has one response, put or still to be put, in order; and the
    thread can get on, without another request, to a `get` that does not drop what it gets. -/
structure AnswersAll (s : SlaveThread) : Prop where
  responses : (s.put ++ s.owed).map VciResponse.ids =
    (s.got.filter fun req => req.IsAccess).map VciRequest.ids
  returns : ∃ es t, (∀ req, SlaveEvent.get req ∉ es) ∧ exec SlaveThread.next s es = some t ∧
    t.pc = .getting ∧ t.bProcessingRq = false

/-- A request that arrives is a read or a write. -/
def GetsAccess (_ : SlaveThread) : SlaveEvent → Prop
  | .get req => req.IsAccess
  | .sendRsp _ _ => True
  | .putReturns => True

/-- The flag is set exactly from the decoding to the end of `put`. -/
structure SlaveThread.Ok (s : SlaveThread) : Prop where
  flag : s.bProcessingRq = decide (s.pc ≠ .getting)
  responses : (s.put ++ s.owed).map VciResponse.ids =
    (s.got.filter fun req => req.IsAccess).map VciRequest.ids

variable {s s' : SlaveThread}

theorem ok_new : SlaveThread.new.Ok := ⟨rfl, rfl⟩

/-- From `rcv_rqst` and from `put` the thread comes back, with the flag clear. -/
theorem SlaveThread.Ok.answers (h : s.Ok) : AnswersAll s := by
  refine ⟨h.responses, ?_⟩
  cases hpc : s.pc with
  | getting => exact ⟨[], s, by simp, rfl, hpc, by rw [h.flag, hpc]; rfl⟩
  | serving req =>
      exact ⟨[.sendRsp default false, .putReturns], _, by simp,
        by simp [exec, SlaveThread.next, hpc, SlaveThread.sendRsp]; rfl, rfl, rfl⟩
  | putting =>
      exact ⟨[.putReturns], _, by simp, by simp [exec, SlaveThread.next, hpc]; rfl, rfl, rfl⟩

/-- **Every step keeps the flag and the responses**, as long as only reads and writes arrive. -/
theorem SlaveThread.Ok.next_kept {e : SlaveEvent} (h : s.Ok) (he : GetsAccess s e)
    (hs : s.next e = some s') : s'.Ok := by
  have hflag := h.flag
  have hrsp := h.responses
  cases e with
  | get req =>
      simp only [SlaveThread.next] at hs
      split at hs
      · next hpc =>
          cases hs
          have hacc : req.cmd = CMD_WRITE ∨ req.cmd = CMD_READ := he
          have hclear : s.bProcessingRq = false := by simpa [hpc] using hflag
          simp only [SlaveThread.owed, if_pos hpc, List.append_nil] at hrsp
          refine ⟨by simp [SlaveThread.take, hclear, hacc], ?_⟩
          have hd : decide req.IsAccess = true := decide_eq_true he
          simp [SlaveThread.take, SlaveThread.owed, hclear, hacc, List.filter_append, hrsp, hd,
            VciRequest.ids, VciResponse.ids]
      · cases hs
  | sendRsp rdata bErr =>
      simp only [SlaveThread.next] at hs
      split at hs
      · next req hpc =>
          cases hs
          refine ⟨by simpa [SlaveThread.sendRsp, hpc] using hflag, ?_⟩
          simpa [SlaveThread.sendRsp, SlaveThread.owed, hpc, VciResponse.ids] using hrsp
      · cases hs
      · cases hs
  | putReturns =>
      simp only [SlaveThread.next] at hs
      split at hs
      · next hpc =>
          cases hs
          refine ⟨rfl, ?_⟩
          simpa [SlaveThread.owed, hpc] using hrsp
      · cases hs

/-- Another command leaves the thread in `get` with the flag set, and nothing but a request can
    happen there. -/
theorem not_answers_of_unknown {e : SlaveEvent} (h : s.Ok) (he : ¬ GetsAccess s e)
    (hs : s.next e = some s') : ¬ AnswersAll s' := by
  cases e with
  | get req =>
      simp only [SlaveThread.next] at hs
      split at hs
      · next hpc =>
          cases hs
          have hacc : ¬ (req.cmd = CMD_WRITE ∨ req.cmd = CMD_READ) := he
          have hclear : s.bProcessingRq = false := by simpa [hpc] using h.flag
          intro hyp
          obtain ⟨-, es, t, hes, hrun, -, ht⟩ := hyp
          have hpc' : (s.take req).pc = .getting := by
            simpa [SlaveThread.take, hclear, hacc] using hpc
          cases es with
          | nil =>
              cases hrun
              simp [SlaveThread.take, hclear, hacc] at ht
          | cons e es =>
              obtain ⟨u, hu, -⟩ := exec_cons_eq_some hrun
              cases e with
              | get req' => exact hes req' (.head _)
              | sendRsp rdata bErr => simp [SlaveThread.next, hpc'] at hu
              | putReturns => simp [SlaveThread.next, hpc'] at hu
      · cases hs
  | sendRsp rdata bErr => exact absurd trivial he
  | putReturns => exact absurd trivial he

/-! ## 3. Runs -/

/-- **When a slave device answers every read and write and always takes the next request**: exactly
    if no other command arrives. -/
theorem answers_iff (es : List SlaveEvent) :
    Along SlaveThread.next AnswersAll .new es ↔ Steps SlaveThread.next GetsAccess .new es :=
  along_iff_steps (fun _ h => h.answers) (fun _ _ _ h he hs => h.next_kept he hs)
    (fun _ _ _ h he hs => not_answers_of_unknown h he hs) es ok_new

/-- A NOP, then a read: the read is dropped. -/
theorem nop_blocks_slave :
    ¬ Along SlaveThread.next AnswersAll .new
      [.get { (default : VciRequest) with cmd := CMD_NOP },
        .get { (default : VciRequest) with cmd := CMD_READ }] := by
  intro h
  have hlast := ((h.2 _ rfl).2 _ rfl).responses
  exact absurd hlast (by decide)

end Rabbits
