/-
  File:      Rabbits/Noc/Bus.lean
  Subject:   The interconnect with the slave devices at its slave ports (slave_device.cpp).

  The thread of a slave device gets a request, has it served by the device (`rcv_rqst`) and puts
  the response. What a device does with a request is a parameter: a relation between its state
  before, the request, its state after, the data and the error flag of the response. The masters
  are open: they call `put` for any request they may make, and take responses at any time.

  * `slaveTakes`, `slaveRsp` -- `request_thread` and `send_rsp`;
  * `BusStep` -- the steps of the bus, with what a master or a device sees of them;
  * `Admissible` -- the requests a master may put: mapped, a read or a write, with its own number;
  * `BusInv` -- in every reachable state every message is one that its receiver can handle, and each
    slave thread is where its flags say.
-/
import Rabbits.Noc.Interconnect

namespace Rabbits

open Lib Crossbar

universe u v

/-! ## 1. The model -/

/-- The thread of a slave device: in `get`, in `rcv_rqst`, or blocked in `put`. -/
inductive SlavePc where
  | getting
  | serving (req : VciRequest)
  | putting
  deriving DecidableEq

/-- `request_thread` after a try of `get`, with `m_bProcessing_rq`. A request that finds the flag
    set is dropped, and a request with an unknown command leaves it set. -/
def slaveTakes (bProcessing : Bool) : Option VciRequest → SlavePc × Bool
  | none => (.getting, bProcessing)
  | some req =>
      if bProcessing then (.getting, true)
      else if req.cmd = CMD_WRITE ∨ req.cmd = CMD_READ then (.serving req, true)
      else (.getting, true)

/-- The response of `request_thread` and `send_rsp`. -/
def slaveRsp (req : VciRequest) (rdata : Fin 8 → Byte) (bErr : Bool) : VciResponse where
  rdata := rdata
  reop := true
  rerror := bErr
  rsrcid := req.srcid
  rtrdid := req.trdid
  rbe := req.be

/-- The maps of the masters, and the devices with their states `D`. -/
structure BusSetup (n k : Nat) (D : Type u) where
  map : Fin n → AddressMap
  rcvRqst : Fin k → D → VciRequest → D → (Fin 8 → Byte) → Bool → Prop
  init : Fin k → D

variable {n k : Nat} {D : Type u} {T : Type v} [DecidableEq T]

/-- The interconnect and the slave devices: their threads, `m_bProcessing_rq`, their states, and
    the requests each has served so far with the responses. -/
structure Bus (n k : Nat) (T : Type v) (D : Type u) where
  net : Interconnect n k T Unit
  slave : Fin k → SlavePc
  bProcessing : Fin k → Bool
  dev : Fin k → D
  served : Fin k → List (VciRequest × VciResponse)

def Bus.new (setup : BusSetup n k D) : Bus n k T D :=
  ⟨.new, fun _ => .getting, fun _ => false, setup.init, fun _ => []⟩

/-- What a step shows: a master's call of `put` or its second try, a try of `get` by a master's
    response thread, a request served, or nothing. -/
inductive BusLabel (n k : Nat) (T : Type v) where
  | call (m : Fin n) (t : T) (req : VciRequest)
  | resumePut (m : Fin n) (t : T) (req : VciRequest)
  | deliver (m : Fin n) (r : Option VciResponse)
  | serve (s : Fin k) (req : VciRequest) (rsp : VciResponse)
  | tau

/-- The slave's thread after a try of `put`. -/
def Bus.afterPut (x : Bus n k T D) (s : Fin k) (r : Crossbar (Fin k) (Fin n) Unit VciResponse) :
    Bus n k T D :=
  { x with
    net := { x.net with rsp := r }
    slave := Function.update x.slave s (if (r.blocked s ()).isNone then .getting else .putting)
    bProcessing := Function.update x.bProcessing s
      (if (r.blocked s ()).isNone then false else x.bProcessing s) }

/-- The slave's thread after a try of `get`. -/
def Bus.afterGet (x : Bus n k T D) (s : Fin k) (res : Option VciRequest)
    (r : Crossbar (Fin n) (Fin k) T VciRequest) : Bus n k T D :=
  { x with
    net := { x.net with req := r }
    slave := Function.update x.slave s (slaveTakes (x.bProcessing s) res).1
    bProcessing := Function.update x.bProcessing s (slaveTakes (x.bProcessing s) res).2 }

inductive BusStep (setup : BusSetup n k D) (x : Bus n k T D) : BusLabel n k T → Bus n k T D → Prop
    where
  | call {m : Fin n} {t : T} {req : VciRequest} {r : Crossbar (Fin n) (Fin k) T VciRequest}
      (h : CrossbarStep (dispatchRequestsThread setup.map) x.net.req (.call m t req) r) :
      BusStep setup x (.call m t req) { x with net := { x.net with req := r } }
  | resumePut {m : Fin n} {t : T} {req : VciRequest} {r : Crossbar (Fin n) (Fin k) T VciRequest}
      (h : CrossbarStep (dispatchRequestsThread setup.map) x.net.req (.resumePut m t req) r) :
      BusStep setup x (.resumePut m t req) { x with net := { x.net with req := r } }
  | dispatchRequest {m : Fin n} {r : Crossbar (Fin n) (Fin k) T VciRequest}
      (h : CrossbarStep (dispatchRequestsThread setup.map) x.net.req (.dispatch m) r) :
      BusStep setup x .tau { x with net := { x.net with req := r } }
  | dispatchResponse {s : Fin k} {r : Crossbar (Fin k) (Fin n) Unit VciResponse}
      (h : CrossbarStep dispatchResponsesThread x.net.rsp (.dispatch s) r) :
      BusStep setup x .tau { x with net := { x.net with rsp := r } }
  | slaveGet {s : Fin k} {res : Option VciRequest} {r : Crossbar (Fin n) (Fin k) T VciRequest}
      (hs : x.slave s = .getting)
      (h : CrossbarStep (dispatchRequestsThread setup.map) x.net.req (.get s res) r) :
      BusStep setup x .tau (x.afterGet s res r)
  | serve {s : Fin k} {req : VciRequest} {d : D} {rdata : Fin 8 → Byte} {bErr : Bool}
      {r : Crossbar (Fin k) (Fin n) Unit VciResponse} (hs : x.slave s = .serving req)
      (hd : setup.rcvRqst s (x.dev s) req d rdata bErr)
      (h : CrossbarStep dispatchResponsesThread x.net.rsp
        (.call s () (slaveRsp req rdata bErr)) r) :
      BusStep setup x (.serve s req (slaveRsp req rdata bErr))
        { x.afterPut s r with
          dev := Function.update x.dev s d
          served := Function.update x.served s
            (x.served s ++ [(req, slaveRsp req rdata bErr)]) }
  | slaveResume {s : Fin k} {rsp : VciResponse} {r : Crossbar (Fin k) (Fin n) Unit VciResponse}
      (hs : x.slave s = .putting)
      (h : CrossbarStep dispatchResponsesThread x.net.rsp (.resumePut s () rsp) r) :
      BusStep setup x .tau (x.afterPut s r)
  | deliver {m : Fin n} {res : Option VciResponse} {r : Crossbar (Fin k) (Fin n) Unit VciResponse}
      (h : CrossbarStep dispatchResponsesThread x.net.rsp (.get m res) r) :
      BusStep setup x (.deliver m res) { x with net := { x.net with rsp := r } }
  | advance (hreq : x.net.req.Quiet) (hrsp : x.net.rsp.Quiet) (due : Fin n → Bool)
      (due' : Fin k → Bool) :
      BusStep setup x .tau { x with net := ⟨x.net.req.tick due, x.net.rsp.tick due'⟩ }

/-- A request that a master may put: its address is mapped to an existing slave, it is a read or a
    write, and it carries the number of its master. -/
structure Admissible (setup : BusSetup n k D) (m : Fin n) (req : VciRequest) : Prop where
  mapped : (dispatchRequestsThread (k := k) setup.map m req).isSome
  cmd : req.cmd = CMD_WRITE ∨ req.cmd = CMD_READ
  srcid : req.srcid.toNat = m.val

/-- Every request put has a property (`Admissible`, and more where more is known). -/
def BusLabel.Meets (P : Fin n → VciRequest → Prop) : BusLabel n k T → Prop
  | .call m _ req => P m req
  | _ => True

/-- The runs of the bus in which the masters put admissible requests. -/
def busMachine (setup : BusSetup n k D) : Machine (Bus n k T D) where
  init x := x = .new setup
  step x x' := ∃ l, BusStep setup x l x' ∧ l.Meets (Admissible setup)

/-! ## 2. The invariant of the bus -/

section Inv

variable (setup : BusSetup n k D) (P : Fin n → VciRequest → Prop)

/-- A request as it arrives at a slave: put by some master, and dispatched. -/
def Arrives (s : Fin k) (req : VciRequest) : Prop :=
  ∃ m put, P m put ∧ dispatchRequestsThread setup.map m put = some (s, req)

/-- A response that a slave makes to a request that arrived. -/
def Answers (s : Fin k) (rsp : VciResponse) : Prop :=
  ∃ req rdata bErr, Arrives setup P s req ∧ rsp = slaveRsp req rdata bErr

/-- The thread of a slave, its flag, its request, and its blocked `put`. -/
inductive SlaveOk (s : Fin k) : SlavePc → Bool → Option VciResponse → Prop where
  | getting : SlaveOk s .getting false none
  | serving {req : VciRequest} (h : Arrives setup P s req) : SlaveOk s (.serving req) true none
  | putting (rsp : VciResponse) : SlaveOk s .putting true (some rsp)

/-- Every request under way was put with `P`, every response answers one, and goes to a master; and
    each slave thread is where its flags say. -/
structure BusInv (x : Bus n k T D) : Prop where
  net : x.net.Inv setup.map
  req : x.net.req.Holds P (Arrives setup P)
  rsp : x.net.rsp.Holds (Answers setup P)
    (fun m rsp => rsp.rsrcid.toNat = m.val ∧ ∃ s, Answers setup P s rsp)
  slave : ∀ s, SlaveOk setup P s (x.slave s) (x.bProcessing s) (x.net.rsp.blocked s ())

end Inv

variable {setup : BusSetup n k D} {P : Fin n → VciRequest → Prop}

theorem busInv_new : BusInv setup P (.new setup : Bus n k T D) :=
  ⟨⟨inv_new, inv_new⟩, holds_new, holds_new, fun _ => .getting⟩

/-- Dispatching leaves the fields of a request alone that are not addresses. -/
theorem dispatchRequestsThread_fields {map : Fin n → AddressMap} {m : Fin n} {put req : VciRequest}
    {s : Fin k} (h : dispatchRequestsThread map m put = some (s, req)) :
    req.srcid = put.srcid ∧ req.trdid = put.trdid ∧ req.cmd = put.cmd ∧ req.be = put.be ∧
      req.wdata = put.wdata ∧ req.plen = put.plen := by
  obtain ⟨req', hd, hs⟩ := Option.bind_eq_some_iff.mp h
  obtain ⟨s', -, he⟩ := Option.map_eq_some_iff.mp hs
  cases he
  obtain ⟨el, -, rfl⟩ := Option.map_eq_some_iff.mp hd
  exact ⟨rfl, rfl, rfl, rfl, rfl, rfl⟩

theorem dispatchResponsesThread_eq_some {s : Fin k} {rsp rsp' : VciResponse} {m : Fin n}
    (h : dispatchResponsesThread s rsp = some (m, rsp')) :
    rsp' = rsp ∧ rsp.rsrcid.toNat = m.val := by
  obtain ⟨m', hm, he⟩ := Option.map_eq_some_iff.mp h
  cases he
  simp only [getMaster] at hm
  split at hm
  · cases hm
    exact ⟨rfl, rfl⟩
  · cases hm

theorem Arrives.cmd (hP : ∀ m req, P m req → req.cmd = CMD_WRITE ∨ req.cmd = CMD_READ) {s : Fin k}
    {req : VciRequest} (h : Arrives setup P s req) : req.cmd = CMD_WRITE ∨ req.cmd = CMD_READ := by
  obtain ⟨m, put, hp, hd⟩ := h
  rw [(dispatchRequestsThread_fields hd).2.2.1]
  exact hP m put hp

/-- What a slave serves has arrived. -/
theorem BusInv.arrives {x : Bus n k T D} (h : BusInv setup P x) {s : Fin k} {req : VciRequest}
    (hs : x.slave s = .serving req) : Arrives setup P s req := by
  have hok := h.slave s
  rw [hs] at hok
  generalize x.bProcessing s = b at hok
  generalize x.net.rsp.blocked s () = o at hok
  cases hok with
  | serving ha => exact ha

theorem BusInv.req_step {x : Bus n k T D} (h : BusInv setup P x)
    {l : Label (Fin n) (Fin k) T VciRequest} {r : Crossbar (Fin n) (Fin k) T VciRequest}
    (hs : CrossbarStep (dispatchRequestsThread setup.map) x.net.req l r)
    (hl : ∀ m t req, l = .call m t req → P m req) :
    r.Inv (dispatchRequestsThread setup.map) ∧ r.Holds P (Arrives setup P) :=
  ⟨h.net.req.step hs, h.req.step h.net.req hs (fun m put _ _ hp hd => ⟨m, put, hp, hd⟩) hl⟩

theorem BusInv.rsp_step {x : Bus n k T D} (h : BusInv setup P x)
    {l : Label (Fin k) (Fin n) Unit VciResponse} {r : Crossbar (Fin k) (Fin n) Unit VciResponse}
    (hs : CrossbarStep dispatchResponsesThread x.net.rsp l r)
    (hl : ∀ s u rsp, l = .call s u rsp → Answers setup P s rsp) :
    r.Inv dispatchResponsesThread ∧ r.Holds (Answers setup P)
      (fun m rsp => rsp.rsrcid.toNat = m.val ∧ ∃ s, Answers setup P s rsp) := by
  refine ⟨h.net.rsp.step hs, h.rsp.step h.net.rsp hs (fun s _ _ _ ha hd => ?_) hl⟩
  obtain ⟨rfl, hm⟩ := dispatchResponsesThread_eq_some hd
  exact ⟨hm, s, ha⟩

/-- The threads of the slaves after one of them tried to put. -/
theorem slaveOk_afterPut {x : Bus n k T D} (h : BusInv setup P x) {s : Fin k}
    {r : Crossbar (Fin k) (Fin n) Unit VciResponse} (hb : x.bProcessing s = true)
    (hother : ∀ s', s' ≠ s → r.blocked s' = x.net.rsp.blocked s') (s' : Fin k) :
    SlaveOk setup P s' ((x.afterPut s r).slave s') ((x.afterPut s r).bProcessing s')
      (r.blocked s' ()) := by
  by_cases hs : s' = s
  · subst hs
    simp only [Bus.afterPut, Function.update_self]
    cases hr : r.blocked s' () with
    | none => exact .getting
    | some rsp =>
        simp only [Option.isNone_some, Bool.false_eq_true, if_false, hb]
        exact .putting rsp
  · simp only [Bus.afterPut, Function.update_of_ne hs, hother s' hs]
    exact h.slave s'

/-- The threads of the slaves after one of them called `get`. -/
theorem slaveOk_afterGet {x : Bus n k T D} (h : BusInv setup P x) {s : Fin k}
    {res : Option VciRequest} {r : Crossbar (Fin n) (Fin k) T VciRequest}
    (hg : x.slave s = .getting)
    (hres : ∀ req, res = some req → slaveTakes false (some req) = (.serving req, true) ∧
      Arrives setup P s req) (s' : Fin k) :
    SlaveOk setup P s' ((x.afterGet s res r).slave s') ((x.afterGet s res r).bProcessing s')
      (x.net.rsp.blocked s' ()) := by
  by_cases hs : s' = s
  · subst hs
    have hok := h.slave s'
    rw [hg] at hok
    generalize hb : x.bProcessing s' = b at hok
    generalize hbl : x.net.rsp.blocked s' () = o at hok
    cases hok with
    | getting =>
        simp only [Bus.afterGet, Function.update_self, hb]
        cases res with
        | none => exact .getting
        | some req =>
            obtain ⟨htakes, harrives⟩ := hres req rfl
            rw [htakes]
            exact .serving harrives
  · simp only [Bus.afterGet, Function.update_of_ne hs]
    exact h.slave s'

/-- A step of the requests in which no slave takes one. -/
theorem BusInv.request_kept {x : Bus n k T D} (h : BusInv setup P x)
    {l : Label (Fin n) (Fin k) T VciRequest} {r : Crossbar (Fin n) (Fin k) T VciRequest}
    (hs : CrossbarStep (dispatchRequestsThread setup.map) x.net.req l r)
    (hl : ∀ m t req, l = .call m t req → P m req) :
    BusInv setup P { x with net := { x.net with req := r } } := by
  obtain ⟨hi, hh⟩ := h.req_step hs hl
  exact ⟨⟨hi, h.net.rsp⟩, hh, h.rsp, h.slave⟩

/-- A step of the responses in which no slave puts one. -/
theorem BusInv.response_kept {x : Bus n k T D} (h : BusInv setup P x)
    {l : Label (Fin k) (Fin n) Unit VciResponse} {r : Crossbar (Fin k) (Fin n) Unit VciResponse}
    (hs : CrossbarStep dispatchResponsesThread x.net.rsp l r)
    (hl : ∀ s u rsp, l = .call s u rsp → Answers setup P s rsp)
    (hblocked : r.blocked = x.net.rsp.blocked) :
    BusInv setup P { x with net := { x.net with rsp := r } } := by
  obtain ⟨hi, hh⟩ := h.rsp_step hs hl
  refine ⟨⟨h.net.req, hi⟩, h.req, hh, fun s => ?_⟩
  show SlaveOk setup P s (x.slave s) (x.bProcessing s) (r.blocked s ())
  rw [hblocked]
  exact h.slave s

/-- **Every step of the bus preserves its invariant.** -/
theorem BusInv.step {x x' : Bus n k T D} {l : BusLabel n k T} (h : BusInv setup P x)
    (hP : ∀ m req, P m req → req.cmd = CMD_WRITE ∨ req.cmd = CMD_READ)
    (hs : BusStep setup x l x') (hl : l.Meets P) : BusInv setup P x' := by
  cases hs with
  | call hr => exact h.request_kept hr fun m t req e => by cases e; exact hl
  | resumePut hr => exact h.request_kept hr fun m t req e => by cases e
  | dispatchRequest hr => exact h.request_kept hr fun m t req e => by cases e
  | dispatchResponse hr =>
      exact h.response_kept hr (fun s u rsp e => by cases e) (blocked_of_step hr)
  | @slaveGet s res r hg hr =>
      obtain ⟨hi, hh⟩ := h.req_step hr fun m t req e => by cases e
      refine ⟨⟨hi, h.net.rsp⟩, hh, h.rsp, slaveOk_afterGet h hg fun req hreq => ?_⟩
      subst hreq
      have ha := h.req.get_result h.net.req hr
      exact ⟨by rw [slaveTakes, if_neg (by decide), if_pos (ha.cmd hP)], ha⟩
  | @serve s req d rdata bErr r hg hd hr =>
      have hok := h.slave s
      rw [hg] at hok
      generalize hb : x.bProcessing s = b at hok
      generalize hbl : x.net.rsp.blocked s () = o at hok
      cases hok with
      | serving ha =>
          obtain ⟨hi, hh⟩ := h.rsp_step hr fun s' u rsp e => by
            cases e
            exact ⟨req, rdata, bErr, ha, rfl⟩
          exact ⟨⟨h.net.req, hi⟩, h.req, hh, slaveOk_afterPut h hb (blocked_of_step hr)⟩
  | @slaveResume s rsp r hg hr =>
      obtain ⟨hi, hh⟩ := h.rsp_step hr fun s u rsp e => by cases e
      have hok := h.slave s
      rw [hg] at hok
      generalize hb : x.bProcessing s = b at hok
      generalize hbl : x.net.rsp.blocked s () = o at hok
      cases hok with
      | putting rsp' =>
          exact ⟨⟨h.net.req, hi⟩, h.req, hh, slaveOk_afterPut h hb (blocked_of_step hr)⟩
  | deliver hr => exact h.response_kept hr (fun s u rsp e => by cases e) (blocked_of_step hr)
  | advance hreq hrsp due due' =>
      exact ⟨⟨h.net.req.tick hreq due, h.net.rsp.tick hrsp due'⟩, h.req.tick due, h.rsp.tick due',
        h.slave⟩

theorem busInv_reach {x : Bus n k T D} (h : (busMachine setup).Reach x) :
    BusInv setup (Admissible setup) x := by
  refine h.invariant (I := BusInv setup (Admissible setup)) ?_ ?_
  · intro x heq
    subst heq
    exact busInv_new
  · intro x x' _ hi hyp
    obtain ⟨l, hs, hl⟩ := hyp
    exact hi.step (fun _ _ h => h.cmd) hs hl

end Rabbits
