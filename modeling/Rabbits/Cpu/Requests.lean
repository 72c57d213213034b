/-
  File:      Rabbits/Cpu/Requests.lean
  Subject:   The request pool of a CPU (qemu_wrapper_request.cpp: qemu_wrapper_requests).

  The requests are the objects made by the constructor, numbered from 0; request `i` has
  tid `i + 1`. Both lists run over the requests' `m_next`. The waiting part of `GetNewRequest`
  belongs to the thread that calls it (CpuWrapper.lean).

  * `getNewRequest`, `getRequestByTid`, `freeRequest` -- the three operations;
  * `Ok` -- the free list and the busy list share out the pool;
  * `getNewRequest_spec`, `getRequestByTid_eq_some`, `freeRequest_spec` -- what callers use.

  `taken` and `returned` count, for each request, how often the pool gave it out and took it back.
  The code has no such counters.
-/
import Mathlib.Data.List.FinRange
import Rabbits.Lib.LinkedList
import Rabbits.Noc.Vci

namespace Rabbits

open Lib

/-! ## 1. The operations -/

/-- `qemu_wrapper_requests`, with the fields of its requests. -/
structure QemuWrapperRequests (count : Nat) where
  next : Fin count → Option (Fin count)
  headFree : Option (Fin count)
  headBusy : Option (Fin count)
  bDone : Fin count → Bool
  bWrite : Fin count → Bool
  rcvData : Fin count → ULong
  taken : Fin count → Nat
  returned : Fin count → Nat

variable {count : Nat}

/-- `tid`, an unsigned char. -/
def tidOf (rq : Fin count) : Byte := BitVec.ofNat 8 (rq.val + 1)

namespace QemuWrapperRequests

/-- The constructor: all requests free, in the order of their tids. -/
def new (count : Nat) : QemuWrapperRequests count where
  next i := if h : i.val + 1 < count then some ⟨i.val + 1, h⟩ else none
  headFree := if h : 0 < count then some ⟨0, h⟩ else none
  headBusy := none
  bDone _ := false
  bWrite _ := false
  rcvData _ := 0#32
  taken _ := 0
  returned _ := 0

/-- `GetNewRequest` with `p` at the head of the free list. -/
def give (q : QemuWrapperRequests count) (p : Fin count) : QemuWrapperRequests count :=
  { q with
    headFree := q.next p
    next := push q.next p q.headBusy
    headBusy := some p
    bDone := Function.update q.bDone p false
    rcvData := Function.update q.rcvData p 0xDEADDEAD#32
    taken := Function.update q.taken p (q.taken p + 1) }

/-- `GetNewRequest` after its wait; `none` when no request is free (`exit (1)`). -/
def getNewRequest (q : QemuWrapperRequests count) :
    Option (Fin count × QemuWrapperRequests count) :=
  q.headFree.map fun p => (p, q.give p)

/-- `GetRequestByTid`. -/
def getRequestByTid (q : QemuWrapperRequests count) (tid : Byte) : Option (Fin count) :=
  findFrom q.next (fun p => tidOf p == tid) count q.headBusy

/-- `FreeRequest`, and whether it notifies `m_evEmpty`. -/
def freeRequest (q : QemuWrapperRequests count) (rq : Fin count) :
    QemuWrapperRequests count × Bool :=
  match unlink q.next rq count q.headBusy with
  | none => (q, false)
  | some (headBusy, next) =>
      ({ q with
        headBusy := headBusy
        next := push next rq q.headFree
        headFree := some rq
        returned := Function.update q.returned rq (q.returned rq + 1) }, headBusy.isNone)

/-- `localrq->bWrite = ...`. -/
def setWrite (q : QemuWrapperRequests count) (rq : Fin count) (bWrite : Bool) :
    QemuWrapperRequests count :=
  { q with bWrite := Function.update q.bWrite rq bWrite }

/-- `localrq->rcv_data = ...; localrq->bDone = 1`. -/
def setDone (q : QemuWrapperRequests count) (rq : Fin count) (data : ULong) :
    QemuWrapperRequests count :=
  { q with
    rcvData := Function.update q.rcvData rq data
    bDone := Function.update q.bDone rq true }

/-- The requests on the free list. -/
def freeList (q : QemuWrapperRequests count) : List (Fin count) := walk q.next count q.headFree

/-- The requests on the busy list. -/
def busyList (q : QemuWrapperRequests count) : List (Fin count) := walk q.next count q.headBusy

section Fields

variable (q : QemuWrapperRequests count) (rq : Fin count) (b : Bool) (data : ULong)

@[simp] theorem busyList_setWrite : (q.setWrite rq b).busyList = q.busyList := rfl

@[simp] theorem bDone_setWrite : (q.setWrite rq b).bDone = q.bDone := rfl

@[simp] theorem bWrite_setWrite : (q.setWrite rq b).bWrite = Function.update q.bWrite rq b := rfl

@[simp] theorem taken_setWrite : (q.setWrite rq b).taken = q.taken := rfl

@[simp] theorem busyList_setDone : (q.setDone rq data).busyList = q.busyList := rfl

@[simp] theorem bDone_setDone : (q.setDone rq data).bDone = Function.update q.bDone rq true := rfl

@[simp] theorem taken_setDone : (q.setDone rq data).taken = q.taken := rfl

end Fields

/-! ## 2. The invariant of the pool -/

/-- The two lists are lists, each request is on exactly one of them once, and a busy request has
    been given out once more than it came back. -/
structure Ok (q : QemuWrapperRequests count) : Prop where
  free : Linked q.next q.headFree q.freeList
  busy : Linked q.next q.headBusy q.busyList
  perm : (q.freeList ++ q.busyList).Perm (List.finRange count)
  once : ∀ i, q.taken i = q.returned i + q.busyList.count i

theorem length_le_of_perm {free busy : List (Fin count)}
    (h : (free ++ busy).Perm (List.finRange count)) :
    free.length ≤ count ∧ busy.length ≤ count := by
  have hl := h.length_eq
  rw [List.length_append, List.length_finRange] at hl
  omega

/-- The invariant from any two lists that fit the pointers. -/
theorem ok_of_lists (q : QemuWrapperRequests count) (free busy : List (Fin count))
    (hf : Linked q.next q.headFree free) (hb : Linked q.next q.headBusy busy)
    (hp : (free ++ busy).Perm (List.finRange count))
    (ho : ∀ i, q.taken i = q.returned i + busy.count i) :
    q.Ok ∧ q.freeList = free ∧ q.busyList = busy := by
  obtain ⟨hfl, hbl⟩ := length_le_of_perm hp
  have ef : q.freeList = free := hf.walk_eq count hfl
  have eb : q.busyList = busy := hb.walk_eq count hbl
  refine ⟨⟨?_, ?_, ?_, ?_⟩, ef, eb⟩
  · rw [ef]; exact hf
  · rw [eb]; exact hb
  · rw [ef, eb]; exact hp
  · rw [eb]; exact ho

namespace Ok

variable {q : QemuWrapperRequests count} {rq : Fin count}

theorem nodup (h : q.Ok) : (q.freeList ++ q.busyList).Nodup :=
  h.perm.nodup_iff.mpr (List.nodup_finRange count)

theorem busy_nodup (h : q.Ok) : q.busyList.Nodup := (List.nodup_append.mp h.nodup).2.1

theorem not_free_of_busy (h : q.Ok) (hb : rq ∈ q.busyList) : rq ∉ q.freeList := fun hf =>
  (List.nodup_append.mp h.nodup).2.2 rq hf rq hb rfl

theorem not_busy_of_free (h : q.Ok) (hf : rq ∈ q.freeList) : rq ∉ q.busyList := fun hb =>
  h.not_free_of_busy hb hf

theorem setWrite (h : q.Ok) (rq : Fin count) (bWrite : Bool) : (q.setWrite rq bWrite).Ok :=
  ⟨h.free, h.busy, h.perm, h.once⟩

theorem setDone (h : q.Ok) (rq : Fin count) (data : ULong) : (q.setDone rq data).Ok :=
  ⟨h.free, h.busy, h.perm, h.once⟩

theorem length_busy (h : q.Ok) : q.busyList.length ≤ count := (length_le_of_perm h.perm).2

end Ok

theorem linked_new (k : Nat) (hk : k ≤ count) :
    Linked (new count).next (if h : k < count then some ⟨k, h⟩ else none)
      ((List.finRange count).drop k) := by
  induction hd : count - k generalizing k with
  | zero =>
      have hkc : ¬ k < count := by omega
      rw [dif_neg hkc, List.drop_eq_nil_of_le (by simp; omega)]
      exact .nil
  | succ d ih =>
      have hlt : k < count := by omega
      rw [dif_pos hlt, List.drop_eq_getElem_cons (by simpa using hlt), List.getElem_finRange]
      refine .cons ?_
      exact ih (k + 1) hlt (by omega)

theorem ok_new (count : Nat) : (new count).Ok ∧ (new count).freeList = List.finRange count ∧
    (new count).busyList = [] := by
  refine ok_of_lists _ _ [] ?_ .nil (by simp) (fun i => by simp [new])
  simpa [new] using linked_new 0 (Nat.zero_le count)

/-! ## 3. What the operations do -/

variable {q q' : QemuWrapperRequests count} {rq : Fin count}

/-- What `GetNewRequest` returns, in terms of the two lists. -/
structure Gives (q : QemuWrapperRequests count) (rq : Fin count) (q' : QemuWrapperRequests count) :
    Prop where
  ok : q'.Ok
  free : q.freeList = rq :: q'.freeList
  busy : q'.busyList = rq :: q.busyList
  bDone : q'.bDone = Function.update q.bDone rq false
  bWrite : q'.bWrite = q.bWrite
  taken : q'.taken = Function.update q.taken rq (q.taken rq + 1)
  returned : q'.returned = q.returned

theorem getNewRequest_spec (h : q.Ok) (hg : q.getNewRequest = some (rq, q')) : q.Gives rq q' := by
  obtain ⟨a, hp, ha⟩ := Option.map_eq_some_iff.mp hg
  obtain ⟨rfl, rfl⟩ := Prod.mk.inj ha
  obtain ⟨l, hl, hfree⟩ := Linked.of_some (hp ▸ h.free)
  have hperm := h.perm
  have hnd := h.nodup
  rw [hl, List.cons_append] at hperm hnd
  obtain ⟨hal, hab⟩ := not_or.mp (List.mem_append.not.mp (List.nodup_cons.mp hnd).1)
  have hok := ok_of_lists (q.give a) l (a :: q.busyList) (hfree.push_other hal) (h.busy.push hab)
    (List.perm_middle.trans hperm) fun i => ?_
  · exact ⟨hok.1, by rw [hok.2.1, hl], hok.2.2, rfl, rfl, rfl, rfl⟩
  · by_cases hia : i = a
    · subst hia
      simp only [give, h.once, Function.update_self, List.count_cons_self]
      omega
    · simp [give, hia, h.once, List.count_cons_of_ne (Ne.symm hia)]

/-- `exit (1)` only with the whole pool busy. -/
theorem getNewRequest_eq_none_iff (h : q.Ok) : q.getNewRequest = none ↔ q.freeList = [] := by
  rw [← h.free.head_eq_none_iff, getNewRequest, Option.map_eq_none_iff]

theorem headBusy_isSome_iff (h : q.Ok) : q.headBusy.isSome = true ↔ q.busyList ≠ [] := by
  rw [Ne, ← h.busy.head_eq_none_iff]
  cases q.headBusy <;> simp

theorem tidOf_injective (hc : count ≤ 255) : Function.Injective (tidOf : Fin count → Byte) := by
  intro i j h
  have hv := congrArg BitVec.toNat h
  simp only [tidOf, BitVec.toNat_ofNat] at hv
  ext
  omega

theorem getRequestByTid_eq (h : q.Ok) (tid : Byte) :
    q.getRequestByTid tid = q.busyList.find? (fun p => tidOf p == tid) :=
  h.busy.findFrom_eq _ count h.length_busy

/-- The busy request with this tid is found. -/
theorem getRequestByTid_eq_some (h : q.Ok) (hc : count ≤ 255) (hb : rq ∈ q.busyList) :
    q.getRequestByTid (tidOf rq) = some rq := by
  rw [getRequestByTid_eq h]
  cases hf : q.busyList.find? (fun p => tidOf p == tidOf rq) with
  | none =>
      have hne := List.find?_eq_none.mp hf rq hb
      simp at hne
  | some p =>
      have hp : tidOf p = tidOf rq := by simpa using List.find?_some hf
      rw [tidOf_injective hc hp]

/-- What `FreeRequest` does with a busy request. -/
structure Frees (q : QemuWrapperRequests count) (rq : Fin count) (q' : QemuWrapperRequests count) :
    Prop where
  ok : q'.Ok
  free : q'.freeList = rq :: q.freeList
  busy : q'.busyList = q.busyList.erase rq
  bDone : q'.bDone = q.bDone
  bWrite : q'.bWrite = q.bWrite
  taken : q'.taken = q.taken
  returned : q'.returned = Function.update q.returned rq (q.returned rq + 1)

theorem freeRequest_spec (h : q.Ok) (hb : rq ∈ q.busyList) : q.Frees rq (q.freeRequest rq).1 := by
  obtain ⟨p', next', hu, hlk, hfr⟩ := h.busy.unlink h.busy_nodup hb count h.length_busy
  have hnf := h.not_free_of_busy hb
  have hfree : Linked next' q.headFree q.freeList :=
    h.free.congr fun b hbf => hfr b (h.not_busy_of_free hbf)
  have hnb : rq ∉ q.busyList.erase rq := h.busy_nodup.not_mem_erase
  have heq : q.freeRequest rq = ({ q with
      headBusy := p'
      next := push next' rq q.headFree
      headFree := some rq
      returned := Function.update q.returned rq (q.returned rq + 1) }, p'.isNone) := by
    simp [freeRequest, hu]
  have hperm : ((rq :: q.freeList) ++ q.busyList.erase rq).Perm (List.finRange count) :=
    (List.perm_middle.symm.trans ((List.perm_cons_erase hb).symm.append_left q.freeList)).trans h.perm
  have hok := ok_of_lists (q.freeRequest rq).1 (rq :: q.freeList) (q.busyList.erase rq)
    (by rw [heq]; exact hfree.push hnf) (by rw [heq]; exact hlk.push_other hnb) hperm ?_
  · refine ⟨hok.1, hok.2.1, hok.2.2, ?_, ?_, ?_, ?_⟩ <;> rw [heq]
  · intro i
    rw [heq]
    by_cases hi : i = rq
    · subst hi
      have h1 : q.busyList.count i = 1 := List.count_eq_one_of_mem h.busy_nodup hb
      have h0 : (q.busyList.erase i).count i = 0 := List.count_eq_zero.mpr hnb
      simp [h.once, h0, h1]
    · simp [hi, h.once, List.count_erase_of_ne hi]

/-- A request that is not busy is left alone. -/
theorem freeRequest_notBusy (h : q.Ok) (hb : rq ∉ q.busyList) : q.freeRequest rq = (q, false) := by
  simp [freeRequest, h.busy.unlink_notMem hb]

end QemuWrapperRequests

end Rabbits
