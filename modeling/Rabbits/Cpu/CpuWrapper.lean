/-
  File:      Rabbits/Cpu/CpuWrapper.lean
  Subject:   The bus accesses of a CPU (qemu_cpu_wrapper.cpp: read, write, wait_wb_empty, rcv_rsp,
             set_unblocking_write).

  The CPU thread runs from one wait to the next: `pc` says in which wait it is suspended. The
  response thread and the callers of `set_unblocking_write` run in between.

  * `call`, `putReturns`, `resume` -- the CPU thread's turns;
  * `rcvRsp` -- a response, in the master's response thread;
  * `fireEvEmpty` -- the delta notification of `m_evEmpty` takes effect.

  An access that finds no free request ends the program (`exit (1)`): the turn is `none`.
-/
import Rabbits.Cpu.Requests

namespace Rabbits

/-- The pool the constructor makes. -/
def noRequests : Nat := 100

/-- A request of the pool. -/
abbrev Rq := Fin noRequests

/-- The arguments of a `read` or a `write`. -/
structure Access where
  addr : ULong
  data : ULong
  nbytes : Nat
  bWrite : Bool
  bIo : Bool
  deriving DecidableEq

/-- Where the CPU thread is suspended: outside the bus accesses, in `wait (m_evEmpty)` of an
    access's `GetNewRequest`, in `put_port->put`, in `wait (localrq->evDone)`, or in
    `wait (m_evEmpty)` of `wait_wb_empty`. `woken` says that the event was notified since. -/
inductive CpuPc where
  | idle
  | emptyWait (a : Access) (woken : Bool)
  | putting (a : Access) (rq : Rq)
  | doneWait (a : Access) (rq : Rq) (woken : Bool)
  | wbWait (woken : Bool)
  deriving DecidableEq

/-- `evDone.notify ()` of a request. -/
def CpuPc.notifyDone (rq : Rq) : CpuPc → CpuPc
  | .doneWait a rq' woken => .doneWait a rq' (woken || rq' == rq)
  | pc => pc

/-- The part of a `qemu_cpu_wrapper` the accesses use. `evEmpty` is a pending notification of
    `m_evEmpty`. -/
structure QemuCpuWrapper where
  rqs : QemuWrapperRequests noRequests
  unblockingWrite : Bool
  pc : CpuPc
  evEmpty : Bool

namespace QemuCpuWrapper

/-- What the constructor leaves. -/
def new : QemuCpuWrapper := ⟨.new noRequests, true, .idle, false⟩

/-- The argument of `GetNewRequest`: whether the access waits for an empty busy list. -/
def waitsEmpty (c : QemuCpuWrapper) (a : Access) : Bool :=
  c.unblockingWrite && (!a.bWrite || a.bIo)

/-- `FreeRequest` and the notification it makes. -/
def freeRequest (c : QemuCpuWrapper) (rq : Rq) : QemuCpuWrapper :=
  let (rqs, notified) := c.rqs.freeRequest rq
  { c with rqs := rqs, evEmpty := c.evEmpty || notified }

/-- From the end of `GetNewRequest`'s wait to the call of `put`. -/
def takeRequest (c : QemuCpuWrapper) (a : Access) : Option QemuCpuWrapper :=
  c.rqs.getNewRequest.map fun (rq, rqs) =>
    { c with rqs := rqs.setWrite rq a.bWrite, pc := .putting a rq }

/-- The loop of `GetNewRequest` for an access that waits for an empty busy list. -/
def getEmpty (c : QemuCpuWrapper) (a : Access) : Option QemuCpuWrapper :=
  if c.rqs.headBusy.isSome then some { c with pc := .emptyWait a false } else c.takeRequest a

/-- `read` and `write`, to their first wait. -/
def call (c : QemuCpuWrapper) (a : Access) : Option QemuCpuWrapper :=
  if c.pc = .idle then
    if c.waitsEmpty a then c.getEmpty a else c.takeRequest a
  else none

/-- `wait_wb_empty`. -/
def waitWbEmpty (c : QemuCpuWrapper) : Option QemuCpuWrapper :=
  if c.pc = .idle then
    if c.rqs.headBusy.isSome then some { c with pc := .wbWait false } else some c
  else none

/-- `while (!localrq->bDone) wait (localrq->evDone); FreeRequest (localrq)`, to the next wait. -/
def awaitDone (c : QemuCpuWrapper) (a : Access) (rq : Rq) : QemuCpuWrapper :=
  if c.rqs.bDone rq then { c.freeRequest rq with pc := .idle }
  else { c with pc := .doneWait a rq false }

/-- `put_port->put` returns: a posted write is over, any other access waits for its response. -/
def putReturns (c : QemuCpuWrapper) : Option QemuCpuWrapper :=
  match c.pc with
  | .putting a rq =>
      if a.bWrite && c.unblockingWrite then some { c with pc := .idle } else some (c.awaitDone a rq)
  | _ => none

/-- A `put` that returns before the response. -/
theorem putReturns_eq {c : QemuCpuWrapper} {a : Access} {rq : Rq} (hpc : c.pc = .putting a rq)
    (hd : c.rqs.bDone rq = false) : c.putReturns = some { c with
      pc := if a.bWrite && c.unblockingWrite then .idle else .doneWait a rq false } := by
  simp only [putReturns, hpc]
  split
  · rfl
  · simp [awaitDone, hd]

/-- The CPU thread, woken in one of its waits. -/
def resume (c : QemuCpuWrapper) : Option QemuCpuWrapper :=
  match c.pc with
  | .emptyWait a true => c.getEmpty a
  | .doneWait a rq true => some (c.awaitDone a rq)
  | .wbWait true =>
      some { c with pc := if c.rqs.headBusy.isSome then .wbWait false else .idle }
  | _ => none

/-- What an access returns at its end: the bytes of `rcv_data` (a read's `ret`). -/
def ret (c : QemuCpuWrapper) (a : Access) (rq : Rq) : List Byte :=
  (List.range (min a.nbytes 4)).map fun i => (c.rqs.rcvData rq).extractLsb' (8 * i) 8

/-- `rcv_rsp`. -/
def rcvRsp (c : QemuCpuWrapper) (tid : Byte) (data : ULong) : QemuCpuWrapper :=
  match c.rqs.getRequestByTid tid with
  | none => c
  | some rq =>
      if c.unblockingWrite && c.rqs.bWrite rq then c.freeRequest rq
      else { c with rqs := c.rqs.setDone rq data, pc := CpuPc.notifyDone rq c.pc }

/-- The pending notification of `m_evEmpty` wakes the thread that waits for it. -/
def fireEvEmpty (c : QemuCpuWrapper) : Option QemuCpuWrapper :=
  if c.evEmpty then
    some { c with
      evEmpty := false
      pc := match c.pc with
        | .emptyWait a _ => .emptyWait a true
        | .wbWait _ => .wbWait true
        | pc => pc }
  else none

/-- `set_unblocking_write`. -/
def setUnblockingWrite (c : QemuCpuWrapper) (val : Bool) : QemuCpuWrapper :=
  { c with unblockingWrite := val }

end QemuCpuWrapper

end Rabbits
