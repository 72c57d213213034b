/-
  File:      Rabbits/Noc/Interconnect.lean
  Subject:   The interconnect (interconnect_master.cpp, interconnect_slave.cpp): requests from the
             masters to the slaves, responses back.

  * `dispatchRequestsThread`, `dispatchResponsesThread` -- how the two kinds of dispatchers route;
  * `Interconnect`, `InterconnectStep` -- both directions with their common time: the timed waits
    end only when no thread of the interconnect can run;
  * `Conserved` -- every message put is in one place or was returned by a `get`, in order;
  * `interconnect_conserves` -- this holds of both directions behind every run.
-/
import Rabbits.Lib.Machine
import Rabbits.Noc.AddressMap
import Rabbits.Noc.Crossbar

namespace Rabbits

open Lib Crossbar

universe u v w z

/-! ## 1. The model -/

variable {n k : Nat}

/-- `m_parent->get_slave (slave_id)`: the array `m_slaves` has no other entries. -/
def getSlave (k : Nat) (id : Int) : Option (Fin k) :=
  if h : id.toNat < k ∧ 0 ≤ id then some ⟨id.toNat, h.1⟩ else none

/-- `m_parent->get_master (rsp.rsrcid)`. -/
def getMaster (n : Nat) (id : BitVec 16) : Option (Fin n) :=
  if h : id.toNat < n then some ⟨id.toNat, h⟩ else none

/-- The routing of `dispatch_requests_thread`. -/
def dispatchRequestsThread (map : Fin n → AddressMap) (m : Fin n) (req : VciRequest) :
    Option (Fin k × VciRequest) :=
  (dispatchRequest (map m) req).bind fun req' => (getSlave k req'.slaveId).map (·, req')

/-- The routing of `dispatch_responses_thread`. -/
def dispatchResponsesThread (_ : Fin k) (rsp : VciResponse) : Option (Fin n × VciResponse) :=
  (getMaster n rsp.rsrcid).map (·, rsp)

/-- The masters with their clients `T` on one side, the slaves with their clients `U` on the
    other. -/
structure Interconnect (n k : Nat) (T : Type u) (U : Type v) where
  req : Crossbar (Fin n) (Fin k) T VciRequest
  rsp : Crossbar (Fin k) (Fin n) U VciResponse

variable {T : Type u} {U : Type v} [DecidableEq T] [DecidableEq U]

/-- What a step shows: a thread in one of the directions, or the passing of time. -/
inductive InterconnectLabel (n k : Nat) (T : Type u) (U : Type v) where
  | request (l : Label (Fin n) (Fin k) T VciRequest)
  | response (l : Label (Fin k) (Fin n) U VciResponse)
  | advance

inductive InterconnectStep (map : Fin n → AddressMap) (x : Interconnect n k T U) :
    InterconnectLabel n k T U → Interconnect n k T U → Prop where
  | request {l : Label (Fin n) (Fin k) T VciRequest} {r : Crossbar (Fin n) (Fin k) T VciRequest}
      (h : CrossbarStep (dispatchRequestsThread map) x.req l r) :
      InterconnectStep map x (.request l) { x with req := r }
  | response {l : Label (Fin k) (Fin n) U VciResponse} {r : Crossbar (Fin k) (Fin n) U VciResponse}
      (h : CrossbarStep dispatchResponsesThread x.rsp l r) :
      InterconnectStep map x (.response l) { x with rsp := r }
  | advance (hreq : x.req.Quiet) (hrsp : x.rsp.Quiet) (due : Fin n → Bool) (due' : Fin k → Bool) :
      InterconnectStep map x .advance ⟨x.req.tick due, x.rsp.tick due'⟩

def Interconnect.new : Interconnect n k T U := ⟨.new, .new⟩

/-- A run from the start: what the threads did, and the state behind each step. -/
abbrev InterconnectTrace (n k : Nat) (T : Type u) (U : Type v) :=
  List (InterconnectLabel n k T U × Interconnect n k T U)

/-- What a run shows of the requests. -/
def requests (tr : InterconnectTrace n k T U) : Trace (Fin n) (Fin k) T VciRequest :=
  tr.filterMap fun e =>
    match e.1 with
    | .request l => some (l, e.2.req)
    | _ => none

/-- What a run shows of the responses. -/
def responses (tr : InterconnectTrace n k T U) : Trace (Fin k) (Fin n) U VciResponse :=
  tr.filterMap fun e =>
    match e.1 with
    | .response l => some (l, e.2.rsp)
    | _ => none

/-! ## 2. Where the messages go -/

/-- A mapped request goes to the slave of its entry, and to no other. -/
theorem routeTo_request {map : Fin n → AddressMap} {m : Fin n} {req : VciRequest}
    {el : InterconnectMasterMapEl} {s : Fin k} (hel : findEntry (map m) req.address = some el)
    (hs : el.slaveId = s.val) (s' : Fin k) :
    routeTo (dispatchRequestsThread map) m s' req =
      if s' = s then
        some { req with
          initialAddress := req.address
          slaveId := el.slaveId
          address := el.slaveOffset req.address }
      else none := by
  have hget : getSlave k el.slaveId = some s := by
    simp [getSlave, hs, s.isLt]
  have hr : dispatchRequestsThread map m req = some (s, { req with
      initialAddress := req.address
      slaveId := el.slaveId
      address := el.slaveOffset req.address }) := by
    simp [dispatchRequestsThread, dispatchRequest, hel, hget]
  rw [routeTo, hr]
  by_cases h : s' = s
  · subst h; simp
  · simp [h, Ne.symm h]

/-- A response goes to the master it names, unchanged, and to no other. -/
theorem routeTo_response {s : Fin k} {rsp : VciResponse} {m : Fin n}
    (hm : rsp.rsrcid.toNat = m.val) (m' : Fin n) :
    routeTo dispatchResponsesThread s m' rsp = if m' = m then some rsp else none := by
  have hr : dispatchResponsesThread s rsp = some (m, rsp) := by
    simp [dispatchResponsesThread, getMaster, hm, m.isLt]
  rw [routeTo, hr]
  by_cases h : m' = m
  · subst h; simp
  · simp [h, Ne.symm h]

section Conserved

variable {A : Type u} {B : Type v} {C : Type w} {MSG : Type z} [DecidableEq A] [DecidableEq B]
  [DecidableEq C]

/-- One direction, against what its callers have seen: the queues hold what is queued; a thread's
    calls of `put` are, in order, those that have returned and the one that is blocked; what the
    calls of `get` at `b` have returned is what was handed over there, each message from one `a`;
    and the messages put at `a` that go to `b` are, in the order in which their puts returned, those
    handed over at `b`, those in the queue of `b`, the one in the dispatcher of `a`, and those in the
    queue of `a`. -/
structure Conserved (route : A → MSG → Option (B × MSG)) (tr : Trace A B C MSG)
    (x : Crossbar A B C MSG) : Prop where
  input : ∀ a, (x.input a).queued.map Prod.snd = (x.input a).fifo.contents
  output : ∀ b, (x.output b).queued.map Prod.snd = (x.output b).fifo.contents
  puts : ∀ a t, byWriter t (called tr a) =
    byWriter t (completed tr a) ++ (x.blocked a t).toList
  gets : ∀ b, (x.output b).handed.map Prod.snd = returned tr b
  journey : ∀ a b, ((completed tr a).map Prod.snd).filterMap (routeTo route a b) =
    byWriter a (x.output b).handed ++ byWriter a (x.output b).queued ++
      pending route a b (x.dispatcher a) ++
      ((x.input a).queued.map Prod.snd).filterMap (routeTo route a b)

theorem Crossbar.Inv.conserved {route : A → MSG → Option (B × MSG)} {tr : Trace A B C MSG}
    {x : Crossbar A B C MSG} (h : x.Inv route) (hh : Histories tr x) : Conserved route tr x where
  input a := (h.input a).queued
  output b := (h.output b).queued
  puts a t := by rw [← hh.calls a, ← hh.written a, h.puts a t]
  gets := hh.handed
  journey a b := by rw [← hh.written a, Crossbar.journey h a b]

end Conserved

/-! ## 3. Runs -/

/-- Both directions keep their invariant. -/
structure Interconnect.Inv (map : Fin n → AddressMap) (x : Interconnect n k T U) : Prop where
  req : x.req.Inv (dispatchRequestsThread map)
  rsp : x.rsp.Inv dispatchResponsesThread

/-- Both directions remember what their callers have seen. -/
structure Interconnect.Remembers (tr : InterconnectTrace n k T U) (x : Interconnect n k T U) :
    Prop where
  req : Histories (requests tr) x.req
  rsp : Histories (responses tr) x.rsp

theorem Interconnect.Inv.step {map : Fin n → AddressMap} {tr : InterconnectTrace n k T U}
    {x x' : Interconnect n k T U} {l : InterconnectLabel n k T U} (h : x.Inv map)
    (hh : x.Remembers tr) (hs : InterconnectStep map x l x') :
    x'.Inv map ∧ x'.Remembers (tr ++ [(l, x')]) := by
  cases hs with
  | request hr =>
      refine ⟨⟨h.req.step hr, h.rsp⟩, ?_, ?_⟩
      · simpa [requests] using hh.req.step h.req hr
      · simpa [responses] using hh.rsp
  | response hr =>
      refine ⟨⟨h.req, h.rsp.step hr⟩, ?_, ?_⟩
      · simpa [requests] using hh.req
      · simpa [responses] using hh.rsp.step h.rsp hr
  | advance hreq hrsp due due' =>
      refine ⟨⟨h.req.tick hreq due, h.rsp.tick hrsp due'⟩, ?_, ?_⟩
      · simpa [requests] using hh.req.tick due
      · simpa [responses] using hh.rsp.tick due'

theorem interconnect_inv {map : Fin n → AddressMap} {tr : InterconnectTrace n k T U}
    {x : Interconnect n k T U} (h : Run (InterconnectStep map) .new tr x) :
    x.Inv map ∧ x.Remembers tr := by
  induction h with
  | nil => exact ⟨⟨Crossbar.inv_new, Crossbar.inv_new⟩, histories_new, histories_new⟩
  | snoc hr hs ih => exact ih.1.step ih.2 hs

/-- **The interconnect neither loses nor doubles nor reorders.** Behind every run both directions
    have conserved what was put, up to what the calls of `get` have returned; a mapped request goes
    to the slave of the first entry that covers its address, translated by that entry and otherwise
    unchanged; and a response goes to the master it names, unchanged. -/
theorem interconnect_conserves {map : Fin n → AddressMap}
    (hmap : ∀ m, ∀ el ∈ map m, ∃ s : Fin k, el.slaveId = s.val) {tr : InterconnectTrace n k T U}
    {x : Interconnect n k T U} (h : Run (InterconnectStep map) .new tr x) :
    Conserved (dispatchRequestsThread map) (requests tr) x.req ∧
      Conserved dispatchResponsesThread (responses tr) x.rsp ∧
      (∀ (m : Fin n) (req : VciRequest) (before after : AddressMap) (el : InterconnectMasterMapEl),
        map m = before ++ el :: after →
        (∀ p ∈ before, p.covers req.address = false) → el.covers req.address = true →
        ∃ s : Fin k, el.slaveId = s.val ∧ ∀ s', routeTo (dispatchRequestsThread map) m s' req =
          if s' = s then
            some { req with
              initialAddress := req.address
              slaveId := el.slaveId
              address := req.address - el.beginAddress + el.internOffset }
          else none) ∧
      ∀ (s : Fin k) (rsp : VciResponse) (m : Fin n), rsp.rsrcid.toNat = m.val →
        ∀ m', routeTo dispatchResponsesThread s m' rsp = if m' = m then some rsp else none := by
  obtain ⟨hi, hh⟩ := interconnect_inv h
  refine ⟨hi.req.conserved hh.req, hi.rsp.conserved hh.rsp,
    fun m req before after el hm hb hel => ?_, fun s rsp m hm m' => routeTo_response hm m'⟩
  obtain ⟨s, hs⟩ := hmap m el (by rw [hm]; simp)
  have hnone : before.find? (·.covers req.address) = none :=
    List.find?_eq_none.mpr fun p hp => by simp [hb p hp]
  have hfind : findEntry (map m) req.address = some el := by
    simp [findEntry, hm, List.find?_append, hnone, hel]
  exact ⟨s, hs, routeTo_request hfind hs⟩

/-- One master, one slave at [0x1000, 0x2000): the request goes all the way to the slave, and the
    response back. -/
theorem interconnect_conserves_one :
    let map : Fin 1 → AddressMap := fun _ => [⟨0, 0x1000#32, 0x2000#32, 0x10#32⟩]
    let req : VciRequest := { (default : VciRequest) with address := 0x1234#32 }
    let rsp : VciResponse := { (default : VciResponse) with rdata := 7 }
    ∃ (tr : InterconnectTrace 1 1 Unit Unit) (x : Interconnect 1 1 Unit Unit),
      Run (InterconnectStep map) .new tr x ∧
      completed (requests tr) 0 = [((), req)] ∧
      returned (requests tr) 0 =
        [{ req with initialAddress := 0x1234#32, slaveId := 0, address := 0x244#32 }] ∧
      returned (responses tr) 0 = [rsp] ∧
      Conserved (dispatchRequestsThread map) (requests tr) x.req ∧
      Conserved dispatchResponsesThread (responses tr) x.rsp := by
  intro map req rsp
  have h0 : Run (InterconnectStep map) (.new : Interconnect 1 1 Unit Unit) [] .new := .nil
  have h1 := h0.snoc (.request (.call (a := 0) (t := ()) req rfl))
  have h2 := h1.snoc (.request (.read (a := 0) rfl (by decide)))
  have h3 := h2.snoc (.response (.call (a := 0) (t := ()) rsp rfl))
  have h4 := h3.snoc (.response (.read (a := 0) rfl (by decide)))
  -- Both dispatchers are in their timed waits and no `put` is blocked.
  have h5 := h4.snoc (.advance
    (.of_delay (Fin.forall_fin_one.mpr ⟨_, rfl⟩) (Fin.forall_fin_one.mpr fun _ => rfl))
    (.of_delay (Fin.forall_fin_one.mpr ⟨_, rfl⟩) (Fin.forall_fin_one.mpr fun _ => rfl))
    (fun _ => true) fun _ => true)
  have h6 := h5.snoc (.request (.route (a := 0) rfl rfl))
  have h7 := h6.snoc (.request (.add (a := 0) rfl (by decide)))
  have h8 := h7.snoc (.response (.route (a := 0) rfl rfl))
  have h9 := h8.snoc (.response (.add (a := 0) rfl (by decide)))
  have h10 := h9.snoc (.request (.get (b := 0) (by decide)))
  have h11 := h10.snoc (.response (.get (b := 0) (by decide)))
  have hmap : ∀ m, ∀ el ∈ map m, ∃ s : Fin 1, el.slaveId = s.val := by
    intro m el hel
    rw [List.mem_singleton.mp hel]
    exact ⟨0, rfl⟩
  obtain ⟨hreq, hrsp, -⟩ := interconnect_conserves hmap h11
  exact ⟨_, _, h11, rfl, by decide, rfl, hreq, hrsp⟩

end Rabbits
