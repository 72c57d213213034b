/-
  File:      Rabbits/Noc/Progress.lean
  Subject:   The bus never deadlocks.

  The order behind the argument: the master response queues are always drained, so from them
  backwards (response dispatchers, slave response queues, slaves, slave request queues, request
  dispatchers, master request queues) a thread that is suspended on a full queue has a thread
  behind that queue which is not suspended, and a thread suspended on an empty queue has nothing to
  do. That a suspended thread is right about its queue is `Channel.Ok`; that a woken `put` of a
  master is not left behind by its dispatcher is `Inv.waker`.

  * `InFlight` -- some request or response is under way;
  * `DispatcherEnabled`, `SlaveEnabled`, `MasterEnabled` -- the threads that can go on;
  * `bus_never_deadlocks` -- the first implies one of the others.
-/
import Rabbits.Noc.Bus

namespace Rabbits

open Lib Crossbar

universe u v w z

/-! ## 1. Enabled threads -/

section Dispatcher

variable {A : Type u} {B : Type v} {T : Type w} {MSG : Type z}

/-- The dispatcher can go on: it is not suspended on its queue; or it is in its timed wait with a
    message that has somewhere to go; or it is not suspended on the queue it writes. -/
def DispatcherEnabled (route : A → MSG → Option (B × MSG)) (x : Crossbar A B T MSG) (a : A) :
    Prop :=
  match x.dispatcher a with
  | .reading => (x.input a).canRead ≠ .asleep
  | .delay m _ => (route a m).isSome
  | .adding b _ => (x.output b).canWrite a ≠ .asleep

end Dispatcher

variable {n k : Nat} {D : Type u} {T : Type v}

/-- The thread of a slave can go on: it is not suspended in `get` or `put`, or its device can
    answer. -/
def SlaveEnabled (setup : BusSetup n k D) (x : Bus n k T D) (s : Fin k) : Prop :=
  match x.slave s with
  | .getting => (x.net.req.output s).canRead ≠ .asleep
  | .serving req => ∃ d rdata bErr, setup.rcvRqst s (x.dev s) req d rdata bErr
  | .putting => (x.net.rsp.input s).canWrite () ≠ .asleep

/-- The response thread of a master is not suspended in `get`. -/
def MasterEnabled (x : Bus n k T D) (m : Fin n) : Prop := (x.net.rsp.output m).canRead ≠ .asleep

/-- Some request or response is in a queue, in a dispatcher, or held by a blocked `put`. -/
inductive InFlight (x : Bus n k T D) : Prop where
  | masterRequests (m : Fin n) (h : (x.net.req.input m).fifo.contents ≠ [])
  | requestDispatcher (m : Fin n) (h : x.net.req.dispatcher m ≠ .reading)
  | slaveRequests (s : Fin k) (h : (x.net.req.output s).fifo.contents ≠ [])
  | slaveResponses (s : Fin k) (h : (x.net.rsp.input s).fifo.contents ≠ [])
  | responseDispatcher (s : Fin k) (h : x.net.rsp.dispatcher s ≠ .reading)
  | masterResponses (m : Fin n) (h : (x.net.rsp.output m).fifo.contents ≠ [])
  | blockedRequest (m : Fin n) (t : T) (h : x.net.req.blocked m t ≠ none)
  | blockedResponse (s : Fin k) (h : x.net.rsp.blocked s () ≠ none)

/-! ## 2. The order on the queues -/

section Dispatcher

variable {A : Type u} {B : Type v} {C : Type w} {MSG : Type z} [DecidableEq A] [DecidableEq B]
  [DecidableEq C] {route : A → MSG → Option (B × MSG)} {x : Crossbar A B C MSG}

/-- A dispatcher that cannot go on, before output queues that are empty, has nothing to do. -/
theorem idle_of_not_enabled (h : x.Inv route) {a : A} (hout : ∀ b, (x.output b).queued = [])
    (hroute : ∀ m due, x.dispatcher a = .delay m due → (route a m).isSome)
    (hn : ¬ DispatcherEnabled route x a) :
    x.dispatcher a = .reading ∧ (x.input a).queued = [] := by
  unfold DispatcherEnabled at hn
  cases hd : x.dispatcher a with
  | reading =>
      rw [hd] at hn
      exact ⟨rfl, (h.input a).reader (Decidable.not_not.mp hn)⟩
  | delay m due =>
      rw [hd] at hn
      exact absurd (hroute m due hd) hn
  | adding b m =>
      rw [hd] at hn
      exact absurd (Decidable.not_not.mp hn) ((h.output b).writer_of_empty (hout b) a)

/-- Before an idle dispatcher with an empty queue, no `put` is blocked. -/
theorem blocked_eq_none_of_idle (h : x.Inv route) {a : A} (hd : x.dispatcher a = .reading)
    (hq : (x.input a).queued = []) (t : C) : x.blocked a t = none := by
  cases hb : x.blocked a t with
  | none => rfl
  | some m =>
      cases hw : (x.input a).canWrite t with
      | running => exact absurd hw (h.waits a t m hb)
      | asleep => exact absurd hw ((h.input a).writer_of_empty hq t)
      | notified =>
          obtain ⟨m', e⟩ := h.waker a t m hb hw
          rw [hd] at e
          cases e

end Dispatcher

variable [DecidableEq T] {setup : BusSetup n k D} {x : Bus n k T D}

theorem Answers.routed {s : Fin k} {rsp : VciResponse}
    (hs : Answers setup (Admissible setup) s rsp) :
    (dispatchResponsesThread (n := n) s rsp).isSome := by
  obtain ⟨req, rdata, bErr, ⟨m, put, hp, hd⟩, rfl⟩ := hs
  have hm : req.srcid.toNat = m.val := by
    rw [(dispatchRequestsThread_fields hd).1]
    exact hp.srcid
  simp [dispatchResponsesThread, getMaster, slaveRsp, hm, m.isLt]

/-- A slave that cannot go on, before an empty response queue, waits for a request in vain. -/
theorem slave_idle_of_not_enabled (h : BusInv setup (Admissible setup) x)
    (hdev : ∀ s d req, ∃ d' rdata bErr, setup.rcvRqst s d req d' rdata bErr) {s : Fin k}
    (hout : (x.net.rsp.input s).queued = []) (hn : ¬ SlaveEnabled setup x s) :
    x.slave s = .getting ∧ (x.net.req.output s).queued = [] := by
  unfold SlaveEnabled at hn
  cases hs : x.slave s with
  | getting =>
      rw [hs] at hn
      exact ⟨rfl, (h.net.req.output s).reader (Decidable.not_not.mp hn)⟩
  | serving req =>
      rw [hs] at hn
      exact absurd (hdev s (x.dev s) req) hn
  | putting =>
      rw [hs] at hn
      exact absurd (Decidable.not_not.mp hn) ((h.net.rsp.input s).writer_of_empty hout ())

/-- **No reachable state of the bus is a deadlock.** While something is in flight, some dispatcher,
    slave or master response thread can go on. -/
theorem bus_never_deadlocks
    (hdev : ∀ s d req, ∃ d' rdata bErr, setup.rcvRqst s d req d' rdata bErr)
    (h : (busMachine setup).Reach x) (hf : InFlight x) :
    (∃ m, DispatcherEnabled (dispatchRequestsThread setup.map) x.net.req m) ∨
      (∃ s, DispatcherEnabled dispatchResponsesThread x.net.rsp s) ∨
      (∃ s, SlaveEnabled setup x s) ∨ ∃ m, MasterEnabled x m := by
  have hi := busInv_reach h
  by_contra hno
  simp only [not_or, not_exists] at hno
  obtain ⟨hreqD, hrspD, hslave, hmaster⟩ := hno
  have hout (m : Fin n) : (x.net.rsp.output m).queued = [] :=
    (hi.net.rsp.output m).reader (Decidable.not_not.mp (hmaster m))
  have hrsp (s : Fin k) := idle_of_not_enabled hi.net.rsp hout
    (fun rsp due e => (hi.rsp.delay s rsp due e).routed) (hrspD s)
  have hserve (s : Fin k) := slave_idle_of_not_enabled hi hdev (hrsp s).2 (hslave s)
  have hreq (m : Fin n) := idle_of_not_enabled hi.net.req (fun s => (hserve s).2)
    (fun req due e => (hi.req.delay m req due e).mapped) (hreqD m)
  cases hf with
  | masterRequests m hne => exact hne ((hi.net.req.input m).contents_eq_nil (hreq m).2)
  | requestDispatcher m hne => exact hne (hreq m).1
  | slaveRequests s hne => exact hne ((hi.net.req.output s).contents_eq_nil (hserve s).2)
  | slaveResponses s hne => exact hne ((hi.net.rsp.input s).contents_eq_nil (hrsp s).2)
  | responseDispatcher s hne => exact hne (hrsp s).1
  | masterResponses m hne => exact hne ((hi.net.rsp.output m).contents_eq_nil (hout m))
  | blockedRequest m t hne => exact hne (blocked_eq_none_of_idle hi.net.req (hreq m).1 (hreq m).2 t)
  | blockedResponse s hne =>
      exact hne (blocked_eq_none_of_idle hi.net.rsp (hrsp s).1 (hrsp s).2 ())

/-- One master and one slave that answers anything: a read is in the master's queue. -/
theorem bus_never_deadlocks_one :
    let setup : BusSetup 1 1 Unit :=
      ⟨fun _ => [⟨0, 0x1000#32, 0x2000#32, 0⟩], fun _ _ _ _ _ _ => True, fun _ => ()⟩
    ∃ x : Bus 1 1 Unit Unit, (busMachine setup).Reach x ∧ (x.net.req.input 0).queued ≠ [] ∧
      ((∃ m, DispatcherEnabled (dispatchRequestsThread setup.map) x.net.req m) ∨
        (∃ s, DispatcherEnabled dispatchResponsesThread x.net.rsp s) ∨
        (∃ s, SlaveEnabled setup x s) ∨ ∃ m, MasterEnabled x m) := by
  intro setup
  have h0 : (busMachine setup).Reach (.new setup : Bus 1 1 Unit Unit) := .start rfl
  have hput : Admissible setup 0
      { (default : VciRequest) with address := 0x1234#32, cmd := CMD_READ } :=
    ⟨by decide, .inr rfl, by decide⟩
  have h1 := h0.step ⟨_, .call (t := ()) (.call _ rfl), hput⟩
  have hdev (s : Fin 1) (d : Unit) (req : VciRequest) :
      ∃ d' rdata bErr, setup.rcvRqst s d req d' rdata bErr := ⟨(), default, false, trivial⟩
  refine ⟨_, h1, fun e => (by cases e), bus_never_deadlocks hdev h1 (.masterRequests 0 fun e => ?_)⟩
  cases e

end Rabbits
