/-
  File:      Rabbits/Mem/Semaphores.lean
  Subject:   The semaphores, under accesses of whole words by any number of masters
             (sem_device.cpp: write, read, rcv_rqst).

  A request is served before the next one is taken, so an interleaving is a list of accesses.

  * `SemDevice.rcvRqst` -- a request; `SemAccess` -- an aligned access of a word inside;
  * `semOf`, `SemAccess.leaves` -- the semaphores as words, and what an access makes of its own;
    `SemAccess.semOf_after` -- **the bytes of the device are these words**;
  * `semaphores_right` -- **in every interleaving**: between two reads that return 0 comes a write
    of 0, an access leaves the other semaphores, and a write of 1 frees none.
-/
import Rabbits.Lib.Lock
import Rabbits.Mem.ArrayBounds

namespace Rabbits

open Lib ArrayCode

/-! ## 1. The accesses -/

/-- `rcv_rqst`, which answers without an error: a read with `rdata`. -/
def SemDevice.rcvRqst (d : SemDevice) (a : ArrayAccess) :
    ArrayCode Unit Byte (Option (Fin 8 → Byte)) :=
  if a.bWrite then (fun _ => none) <$> d.write a.ofs a.be a.data
  else some <$> d.read a.ofs a.be

/-- The word of the eight lanes that an access uses: `offset_dd`. -/
def dwordOf (be : Byte) : Nat := if be = 0xF0#8 then 1 else 0

/-- The value on these lanes. -/
def dwordValue (be : Byte) (data : Fin 8 → Byte) : ULong :=
  ulongOf fun j => laneData data (4 * dwordOf be + j)

/-- An access of an aligned word of an array of `size` bytes. -/
structure SemAccess (M : Type) (size : ULong) extends ArrayAccess where
  master : M
  dword : be = 0x0F#8 ∨ be = 0xF0#8
  aligned : 4 ∣ ofs.toNat
  inside : ofs.toNat + 4 * dwordOf be + 4 ≤ size.toNat

/-- The semaphores in the bytes of the device, one after the other. -/
def semOf (mem : Nat → Byte) (k : Nat) : ULong := ulongOf fun j => mem (4 * k + j)

/-- The semaphore `k` is taken, with a waiter or not. -/
def SemHeld (k : Nat) (mem : Nat → Byte) : Prop := semOf mem k ≠ 0#32

namespace SemAccess

variable {M : Type} {size : ULong}

/-- The semaphore that is accessed. -/
def sem (a : SemAccess M size) : Nat := a.ofs.toNat / 4 + dwordOf a.be

/-- The value of a write. -/
def newval (a : SemAccess M size) : ULong := dwordValue a.be a.data

/-- The access, on a device with these bytes. -/
def run (a : SemAccess M size) (mem : Nat → Byte) :
    ArrayRun Unit Byte (Option (Fin 8 → Byte)) :=
  (SemDevice.rcvRqst ⟨size, mem⟩ a.toArrayAccess).run fun _ => mem

/-- The bytes that it leaves, also where it ends the program. -/
def after (a : SemAccess M size) (mem : Nat → Byte) : Nat → Byte := (a.run mem).mem ()

/-- A step: the bytes afterwards, unless the program has ended. -/
def next (mem : Nat → Byte) (a : SemAccess M size) : Option (Nat → Byte) :=
  (a.run mem).result.map fun _ => a.after mem

end SemAccess

/-- What is seen of a step: the access, and `rdata` where it is a read. -/
structure SemEvent (M : Type) (size : ULong) where
  access : SemAccess M size
  rdata : Option (Fin 8 → Byte)

namespace SemEvent

variable {M : Type} {size : ULong}

def of (mem : Nat → Byte) (a : SemAccess M size) : SemEvent M size :=
  ⟨a, (a.run mem).result.join⟩

/-- A read of the semaphore `k` that returns 0. -/
def Takes (k : Nat) (e : SemEvent M size) : Prop :=
  e.access.bWrite = false ∧ e.access.sem = k ∧
    ∃ rdata, e.rdata = some rdata ∧ dwordValue e.access.be rdata = 0#32

/-- A write of 0 to it. -/
def Frees (k : Nat) (e : SemEvent M size) : Prop :=
  e.access.bWrite = true ∧ e.access.sem = k ∧ e.access.newval = 0#32

end SemEvent

/-! ## 2. The words -/

/-- A word that is stored, and the other ones. -/
theorem semOf_store (mem : Nat → Byte) (k : Nat) (val : ULong) :
    semOf ((rangeWrite (4 * k) 4 (byteOf val)).apply mem) = Function.update (semOf mem) k val := by
  funext i
  by_cases hi : i = k
  · subst hi
    rw [Function.update_self]
    refine (ulongOf_congr fun j hj => ?_).trans (ulongOf_byteOf val)
    rw [rangeWrite_apply, if_pos (by omega), Nat.add_sub_cancel_left]
  · rw [Function.update_of_ne hi]
    refine ulongOf_congr fun j hj => ?_
    rw [rangeWrite_apply, if_neg (by omega)]

/-- What a read makes of the word of its semaphore. -/
def semTaken (val : ULong) : ULong := if val = 0#32 then 1#32 else val

/-- What a write makes of it; the write that ends the program leaves it. -/
def semWritten (oldval newval : ULong) : ULong :=
  if newval = 1#32 ∧ (oldval = 1#32 ∨ oldval = 2#32) then 2#32 else newval

theorem semTaken_ne_zero (val : ULong) : semTaken val ≠ 0#32 := by
  unfold semTaken
  split
  · decide
  · assumption

theorem semWritten_ne_zero {newval : ULong} (h : newval ≠ 0#32) (oldval : ULong) :
    semWritten oldval newval ≠ 0#32 := by
  unfold semWritten
  split
  · decide
  · exact h

theorem readSem_run (mem : Nat → Byte) (k : Nat) :
    ((SemDevice.readSem (4 * k)).run fun _ => mem).result =
        some (if semOf mem k = 2#32 then 1#32 else semOf mem k) ∧
      semOf (((SemDevice.readSem (4 * k)).run fun _ => mem).mem ()) =
        Function.update (semOf mem) k (semTaken (semOf mem k)) := by
  have hval : ulongOf (fun j => mem (4 * k + j)) = semOf mem k := rfl
  unfold SemDevice.readSem semTaken
  rw [run_bind_some (x := fun j => mem (4 * k + j)) rfl]
  simp only [hval, load]
  by_cases hfree : semOf mem k = 0#32
  · rw [if_pos hfree, if_pos hfree, run_bind_some (x := ()) rfl, hfree]
    refine ⟨rfl, ?_⟩
    rw [← semOf_store]
    simp [store]
  · rw [if_neg hfree, if_neg hfree, Function.update_eq_self]
    exact ⟨rfl, rfl⟩

theorem writeSem_run (mem : Nat → Byte) (k : Nat) (newval : ULong) :
    semOf (((SemDevice.writeSem (4 * k) newval).run fun _ => mem).mem ()) =
      Function.update (semOf mem) k (semWritten (semOf mem k) newval) := by
  have hval : ulongOf (fun j => mem (4 * k + j)) = semOf mem k := rfl
  have hstore (val : ULong) :
      semOf (((store () (4 * k) 4 (byteOf val)).run fun _ => mem).mem ()) =
        Function.update (semOf mem) k val := by
    rw [← semOf_store]
    simp [store]
  unfold SemDevice.writeSem semWritten
  by_cases hone : newval = 1#32
  · subst hone
    rw [if_pos rfl, run_bind_some (x := fun j => mem (4 * k + j)) rfl]
    simp only [hval, load, true_and]
    by_cases hheld : semOf mem k = 1#32
    · rw [if_pos hheld, if_pos (.inl hheld), hstore]
    · rw [if_neg hheld]
      by_cases htwice : semOf mem k = 2#32
      · -- the program ends, and the word stays as it is
        rw [if_pos htwice, if_pos (.inr htwice), ← htwice, Function.update_eq_self]
        rfl
      · rw [if_neg htwice, if_neg (by simp [hheld, htwice]), hstore]
  · rw [if_neg hone, if_neg fun h => hone h.1, hstore]

/-! ## 3. An access -/

theorem lanesCase_dword {be : Byte} (h : be = 0x0F#8 ∨ be = 0xF0#8) :
    SemDevice.lanesCase be = some (dwordOf be, 4) := by
  rcases h with rfl | rfl <;> rfl

theorem dwordOf_le (be : Byte) : dwordOf be ≤ 1 := by
  unfold dwordOf
  split <;> decide

namespace SemAccess

variable {M : Type} {size : ULong}

/-- What an access makes of the word of its semaphore. -/
def leaves (a : SemAccess M size) (val : ULong) : ULong :=
  if a.bWrite then semWritten val a.newval else semTaken val

theorem index_eq (a : SemAccess M size) : a.ofs.toNat + 4 * dwordOf a.be = 4 * a.sem := by
  have haligned := a.aligned
  unfold sem
  omega

theorem not_outside (a : SemAccess M size) : ¬ size < a.ofs := by
  have hinside := a.inside
  rw [BitVec.lt_def]
  omega

/-- A read returns, with the value on its lanes. -/
theorem run_read (a : SemAccess M size) (h : a.bWrite = false) (mem : Nat → Byte) :
    (∃ rdata, (a.run mem).result = some (some rdata) ∧
      dwordValue a.be rdata = if semOf mem a.sem = 2#32 then 1#32 else semOf mem a.sem) ∧
    semOf (a.after mem) = Function.update (semOf mem) a.sem (semTaken (semOf mem a.sem)) := by
  obtain ⟨hresult, hmem⟩ := readSem_run mem a.sem
  unfold after run SemDevice.rcvRqst SemDevice.read
  rw [if_neg (by simp [h]), if_neg a.not_outside]
  simp only [lanesCase_dword a.dword, if_true, a.index_eq, map_eq_pure_bind, bind_assoc, pure_bind]
  rw [run_bind_some hresult]
  refine ⟨⟨_, rfl, ?_⟩, hmem⟩
  refine (ulongOf_congr fun j hj => ?_).trans (ulongOf_byteOf _)
  have hlane := dwordOf_le a.be
  rw [laneData, dif_pos (by omega), if_pos (by simp; omega), Nat.add_sub_cancel_left]

theorem run_write (a : SemAccess M size) (h : a.bWrite = true) (mem : Nat → Byte) :
    semOf (a.after mem) =
      Function.update (semOf mem) a.sem (semWritten (semOf mem a.sem) a.newval) := by
  rw [← writeSem_run]
  unfold after run SemDevice.rcvRqst SemDevice.write
  rw [if_pos h, map_mem, if_neg a.not_outside]
  simp only [lanesCase_dword a.dword, if_true, a.index_eq]
  rfl

/-- **An access is its effect on one word.** -/
theorem semOf_after (a : SemAccess M size) (mem : Nat → Byte) :
    semOf (a.after mem) = Function.update (semOf mem) a.sem (a.leaves (semOf mem a.sem)) := by
  unfold leaves
  cases h : a.bWrite
  · exact (a.run_read h mem).2
  · exact a.run_write h mem

/-- The access leaves the other semaphores. -/
def KeepsOthers (a : SemAccess M size) (mem : Nat → Byte) : Prop :=
  ∀ k, k ≠ a.sem → semOf (a.after mem) k = semOf mem k

/-- A write of 1 to a semaphore that is held does not free it. -/
def StaysHeld (a : SemAccess M size) (mem : Nat → Byte) : Prop :=
  a.bWrite = true → a.newval = 1#32 → SemHeld a.sem mem → SemHeld a.sem (a.after mem)

theorem keepsOthers (a : SemAccess M size) (mem : Nat → Byte) : a.KeepsOthers mem := by
  intro k hk
  rw [semOf_after, Function.update_of_ne hk]

theorem staysHeld (a : SemAccess M size) (mem : Nat → Byte) : a.StaysHeld mem := by
  intro hwrite hone hheld
  have hnewval : a.newval ≠ 0#32 := by rw [hone]; decide
  unfold SemHeld
  rw [a.run_write hwrite, Function.update_self]
  exact semWritten_ne_zero hnewval _

theorem next_eq_some {a : SemAccess M size} {mem mem' : Nat → Byte}
    (h : next mem a = some mem') : mem' = a.after mem := by
  obtain ⟨-, -, rfl⟩ := Option.map_eq_some_iff.mp h
  rfl

end SemAccess

/-! ## 4. Every interleaving -/

namespace SemEvent

variable {M : Type} {size : ULong} {mem : Nat → Byte} {a : SemAccess M size} {k : Nat}

/-- A read that returns 0 finds the semaphore free, and holds it. -/
theorem takes_of (h : Takes k (of mem a)) : ¬ SemHeld k mem ∧ SemHeld k (a.after mem) := by
  obtain ⟨hread, hsem, rdata, hrdata, hzero⟩ := h
  change a.sem = k at hsem
  subst hsem
  obtain ⟨⟨rdata', hresult, hvalue⟩, hafter⟩ := a.run_read hread mem
  have heq : rdata' = rdata := by
    simpa [of, hresult] using hrdata
  rw [heq] at hvalue
  have hfree : semOf mem a.sem = 0#32 := by
    have hval := hvalue.symm.trans hzero
    split at hval
    · exact absurd hval (by decide)
    · exact hval
  refine ⟨fun hheld => hheld hfree, ?_⟩
  unfold SemHeld
  rw [hafter, Function.update_self]
  exact semTaken_ne_zero _

/-- Only a write of 0 frees a semaphore. -/
theorem held_of_not_frees (hheld : SemHeld k mem) (h : ¬ Frees k (of mem a)) :
    SemHeld k (a.after mem) := by
  unfold SemHeld
  by_cases hk : k = a.sem
  · subst hk
    cases hwrite : a.bWrite
    · rw [(a.run_read hwrite mem).2, Function.update_self]
      exact semTaken_ne_zero _
    · have hnewval : a.newval ≠ 0#32 := fun hzero => h ⟨hwrite, rfl, hzero⟩
      rw [a.run_write hwrite, Function.update_self]
      exact semWritten_ne_zero hnewval _
  · rw [a.keepsOthers mem k hk]
    exact hheld

end SemEvent

/-- The bytes after some accesses, with what has been seen of them. -/
abbrev SemRun (M : Type) (size : ULong) := Traced (Nat → Byte) (SemEvent M size)

/-- The next access. -/
def SemRun.step {M : Type} {size : ULong} : SemRun M size → SemAccess M size → Option (SemRun M size) :=
  Traced.step SemAccess.next fun mem a => [SemEvent.of mem a]

/-- **The semaphores exclude each other's holders.** -/
structure SemaphoresRight {M : Type} {size : ULong} (t : SemRun M size) : Prop where
  /-- Between two reads that return 0 for a semaphore, it has been written with 0. -/
  takenInTurn : ∀ k, TakenInTurn (SemEvent.Takes k) (SemEvent.Frees k) t.trace
  /-- An access leaves the other semaphores. -/
  keepsOthers : ∀ a : SemAccess M size, a.KeepsOthers t.state
  /-- A write of 1 to one that is held does not free it. -/
  staysHeld : ∀ a : SemAccess M size, a.StaysHeld t.state

/-- **In every interleaving of accesses, from any bytes.** -/
theorem semaphores_right {M : Type} {size : ULong} (mem : Nat → Byte)
    (accesses : List (SemAccess M size)) :
    Along SemRun.step SemaphoresRight ⟨mem, []⟩ accesses := by
  have htakes (k : Nat) (mem : Nat → Byte) (a : SemAccess M size) (mem' : Nat → Byte)
      (hnext : SemAccess.next mem a = some mem') (h : SemEvent.Takes k (.of mem a)) :
      ¬ SemHeld k mem ∧ SemHeld k mem' := by
    rw [SemAccess.next_eq_some hnext]
    exact SemEvent.takes_of h
  have hkeeps (k : Nat) (mem : Nat → Byte) (a : SemAccess M size) (mem' : Nat → Byte)
      (hnext : SemAccess.next mem a = some mem') (hheld : SemHeld k mem)
      (h : ¬ SemEvent.Frees k (.of mem a)) : SemHeld k mem' := by
    rw [SemAccess.next_eq_some hnext]
    exact SemEvent.held_of_not_frees hheld h
  exact (takenInTurn_along htakes hkeeps mem accesses).mono fun t hturn =>
    ⟨hturn, fun a => a.keepsOthers _, fun a => a.staysHeld _⟩

end Rabbits
