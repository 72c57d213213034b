/-
  File:      Rabbits/Cpu/RequestPool.lean
  Subject:   Calls of the request pool in any order (qemu_wrapper_request.cpp).

  * `PoolCall`, `call` -- the three operations as steps; a `GetNewRequest` that waits for the busy
    list to be empty is a step when it is;
  * `PoolRight` -- the lists share out the pool, a busy request is found by its tid and no other
    one, and a request that is not busy is not freed;
  * `pool_right` -- **every sequence of calls**.
-/
import Rabbits.Cpu.CpuWrapper
import Rabbits.Lib.Labelled

namespace Rabbits

open Lib

/-- A call; `GetNewRequest` returns. -/
inductive PoolCall (count : Nat) where
  | getNewRequest (bWaitEmpty : Bool)
  | getRequestByTid (tid : Byte)
  | freeRequest (rq : Fin count)

namespace QemuWrapperRequests

variable {count : Nat} {q q' : QemuWrapperRequests count} {rq : Fin count}

/-! ## 1. Sequences of calls -/

/-- The pool after a call; `none` is a call that waits, or `exit (1)`. -/
def call (q : QemuWrapperRequests count) : PoolCall count → Option (QemuWrapperRequests count)
  | .getNewRequest bWaitEmpty =>
      if bWaitEmpty && q.headBusy.isSome then none else q.getNewRequest.map Prod.snd
  | .getRequestByTid _ => some q
  | .freeRequest rq => some (q.freeRequest rq).1

/-- Both lists come to their end, and each request is on one of them, once; the tids are different;
    `GetRequestByTid` finds the busy request with a tid, and NULL if there is none; `FreeRequest`
    leaves a request that is not busy where it is. -/
structure PoolRight (q : QemuWrapperRequests count) : Prop where
  free : Linked q.next q.headFree q.freeList
  busy : Linked q.next q.headBusy q.busyList
  once : ∀ rq, (q.freeList ++ q.busyList).count rq = 1
  tids : Function.Injective (tidOf : Fin count → Byte)
  found : ∀ tid rq, q.getRequestByTid tid = some rq ↔ rq ∈ q.busyList ∧ tidOf rq = tid
  notFound : ∀ tid, q.getRequestByTid tid = none ↔ ∀ rq ∈ q.busyList, tidOf rq ≠ tid
  kept : ∀ rq, rq ∉ q.busyList → (q.freeRequest rq).1 = q

/-! ## 2. One call -/

theorem Ok.getRequestByTid_iff (h : q.Ok) (hc : count ≤ 255) {tid : Byte} :
    q.getRequestByTid tid = some rq ↔ rq ∈ q.busyList ∧ tidOf rq = tid := by
  constructor
  · intro hfound
    rw [getRequestByTid_eq h] at hfound
    exact ⟨List.mem_of_find?_eq_some hfound, by simpa using List.find?_some hfound⟩
  · intro hbusy
    rw [← hbusy.2]
    exact getRequestByTid_eq_some h hc hbusy.1

theorem Ok.getRequestByTid_none (h : q.Ok) {tid : Byte} :
    q.getRequestByTid tid = none ↔ ∀ rq ∈ q.busyList, tidOf rq ≠ tid := by
  simp [getRequestByTid_eq h]

theorem Ok.right (h : q.Ok) (hc : count ≤ 255) : q.PoolRight where
  free := h.free
  busy := h.busy
  once rq := by
    rw [h.perm.count_eq]
    exact List.count_eq_one_of_mem (List.nodup_finRange count) (List.mem_finRange rq)
  tids := tidOf_injective hc
  found _ _ := h.getRequestByTid_iff hc
  notFound _ := h.getRequestByTid_none
  kept rq hrq := by rw [freeRequest_notBusy h hrq]

/-- **A call keeps the pool.** -/
theorem Ok.call (h : q.Ok) {c : PoolCall count} (hq : q.call c = some q') : q'.Ok := by
  cases c with
  | getNewRequest bWaitEmpty =>
      simp only [QemuWrapperRequests.call] at hq
      split at hq
      · cases hq
      · obtain ⟨⟨rq, q''⟩, hget, rfl⟩ := Option.map_eq_some_iff.mp hq
        exact (getNewRequest_spec h hget).ok
  | getRequestByTid tid =>
      cases hq
      exact h
  | freeRequest rq =>
      cases hq
      by_cases hbusy : rq ∈ q.busyList
      · exact (freeRequest_spec h hbusy).ok
      · rw [freeRequest_notBusy h hbusy]
        exact h

/-! ## 3. Runs -/

/-- A pool whose requests have a tid each. -/
theorem along_right (hc : count ≤ 255) (calls : List (PoolCall count)) :
    Along call PoolRight (new count) calls :=
  along_of_invariant (fun _ h => h.right hc) (fun _ _ _ h hq => h.call hq) (ok_new count).1 calls

/-- **The request pool of a CPU**, whatever is called. -/
theorem pool_right (calls : List (PoolCall noRequests)) :
    Along call PoolRight (new noRequests) calls :=
  along_right (by decide) calls

end QemuWrapperRequests

end Rabbits
