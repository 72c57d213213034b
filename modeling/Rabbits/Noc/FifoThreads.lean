/-
  File:      Rabbits/Noc/FifoThreads.lean
  Subject:   The threads of a queue under the scheduler of SystemC (mwsr_ta_fifo.cpp: Read, Write).

  One thread runs at a time, up to its next wait: on `canRead` or `canWrite` inside of `Read` or
  `Write`, or on something else between them. Then the scheduler takes any thread that can run. One
  that a notification has woken tests again where it waited.

  * `FifoSys.next` -- dispatches, calls and waits, for any number of writers;
  * `FifoCalls` -- the arguments and results of the calls, as the threads see them;
  * `FifoRight` -- what was read and what is queued is what was written; who sleeps has to; the slot
    behind the reference that `Read` has returned keeps its item;
  * `FifoInv`, `fifoInv_next` -- its invariant, and one step;
  * `fifo_right` -- **every schedule**.
-/
import Rabbits.Lib.Labelled
import Rabbits.Noc.MwsrTaFifo

namespace Rabbits

open Lib

universe u v

/-! ## 1. The threads -/

/-- A thread of the queue. -/
inductive FifoThread (W : Type v) where
  | reader
  | writer (w : W)

/-- The scheduler takes a thread; the running one calls `Read` or `Write (p)`, or waits on something
    else. -/
inductive FifoEvent (W : Type v) (ITEM : Type u) where
  | dispatch (t : FifoThread W)
  | read
  | write (p : ITEM)
  | yield

/-- A queue with the thread that runs, the arguments of the calls of `Write` in their wait, and the
    slot behind the reference that `Read` has returned last. -/
structure FifoSys (W : Type v) (ITEM : Type u) where
  chan : Channel W ITEM
  running : Option (FifoThread W)
  pending : W → Option ITEM
  ref : Option (Fin (queueSize + 1))

namespace FifoSys

variable {W : Type v} {ITEM : Type u}

/-- All threads are between calls, and none of them runs. -/
def new [Inhabited ITEM] : FifoSys W ITEM := ⟨.new, none, fun _ => none, none⟩

/-- The test of `Read`, and what is behind its loop. -/
def tryRead (s : FifoSys W ITEM) : FifoSys W ITEM :=
  let r := s.chan.read
  match r.1 with
  | none => { s with chan := r.2, running := none }
  -- return m_data[pos], a reference
  | some _ => { s with chan := r.2, running := some .reader, ref := some s.chan.fifo.idxRead }

/-- The test of `Write`, and what is behind its loop. -/
def tryWrite [DecidableEq W] (s : FifoSys W ITEM) (w : W) (p : ITEM) : FifoSys W ITEM :=
  let r := s.chan.write w p
  if r.1 then
    { s with chan := r.2, running := some (.writer w), pending := Function.update s.pending w none }
  else { s with chan := r.2, running := none, pending := Function.update s.pending w (some p) }

/-- A thread goes on behind its wait. -/
def goOn [DecidableEq W] (s : FifoSys W ITEM) : FifoThread W → Option (FifoSys W ITEM)
  | .reader =>
      match s.chan.canRead with
      | .running => some { s with running := some .reader }
      | .notified => some s.tryRead
      | .asleep => none
  | .writer w =>
      match s.chan.canWrite w with
      | .running => some { s with running := some (.writer w) }
      | .notified => (s.pending w).map (s.tryWrite w)
      | .asleep => none

def next [DecidableEq W] (s : FifoSys W ITEM) : FifoEvent W ITEM → Option (FifoSys W ITEM)
  | .dispatch t =>
      match s.running with
      | none => s.goOn t
      | some _ => none
  | .read =>
      match s.running with
      | some .reader => some s.tryRead
      | _ => none
  | .write p =>
      match s.running with
      | some (.writer w) => some (s.tryWrite w p)
      | _ => none
  | .yield => s.running.map fun _ => { s with running := none }

/-- The item that the last reference leads to. -/
def referred (s : FifoSys W ITEM) : Option ITEM := s.ref.map s.chan.fifo.data

end FifoSys

/-! ## 2. The calls, as the threads see them -/

/-- The calls of `Write` that have not returned, with their arguments, and whether one of `Read` has
    not; the arguments and the results of those that have, in the order in which they returned; and
    what the last reference led to then. -/
structure FifoCalls (W : Type v) (ITEM : Type u) where
  writing : W → Option ITEM
  reading : Bool
  written : List ITEM
  values : List ITEM
  last : Option ITEM

namespace FifoCalls

variable {W : Type v} {ITEM : Type u} [DecidableEq W]

/-- Nobody has called. -/
def new : FifoCalls W ITEM := ⟨fun _ => none, false, [], [], none⟩

/-- The running thread calls. -/
def begin (c : FifoCalls W ITEM) (running : Option (FifoThread W)) :
    FifoEvent W ITEM → FifoCalls W ITEM
  | .read => { c with reading := true }
  | .write p =>
      match running with
      | some (.writer w) => { c with writing := Function.update c.writing w (some p) }
      | _ => c
  | .dispatch _ | .yield => c

/-- A thread that runs behind a step is not in its call any more. -/
def finish (c : FifoCalls W ITEM) (s : FifoSys W ITEM) : FifoCalls W ITEM :=
  match s.running with
  | none => c
  | some .reader =>
      if c.reading then
        { c with reading := false, values := c.values ++ s.referred.toList, last := s.referred }
      else c
  | some (.writer w) =>
      match c.writing w with
      | none => c
      | some p =>
          { c with
            writing := Function.update c.writing w none
            written := c.written ++ [p] }

/-- What a step shows of the calls. -/
def see (c : FifoCalls W ITEM) (s : FifoSys W ITEM) (e : FifoEvent W ITEM) (s' : FifoSys W ITEM) :
    FifoCalls W ITEM := (c.begin s.running e).finish s'

end FifoCalls

namespace FifoSys

variable {W : Type v} {ITEM : Type u}

/-- What the calls of `Read` returned and what the queue holds are what the calls of `Write` that
    returned were called with, in this order; a thread whose call has not returned waits, and without
    a notification it could not go on; the last reference still leads to its item. -/
structure FifoRight (x : Observed (FifoSys W ITEM) (FifoCalls W ITEM)) : Prop where
  history : x.seen.values ++ x.state.chan.fifo.contents = x.seen.written
  values : x.seen.values <+: x.seen.written
  room : x.state.chan.fifo.contents.length ≤ queueSize
  writing : ∀ w, x.seen.writing w = none ↔ x.state.chan.canWrite w = .running
  reading : x.seen.reading = false ↔ x.state.chan.canRead = .running
  writers : ∀ w, x.state.chan.canWrite w = .asleep →
    x.state.chan.fifo.contents.length = queueSize
  reader : x.state.chan.canRead = .asleep → x.state.chan.fifo.contents = []
  reference : x.state.referred = x.seen.last

/-! ## 3. The invariant -/

/-- The queue has lost no wake-up, and remembers what the calls have written and read; the last
    reference is to the slot before the first one. -/
structure FifoHistory (s : FifoSys W ITEM) (c : FifoCalls W ITEM) : Prop where
  ok : s.chan.Ok
  values : c.values = s.chan.handed.map Prod.snd
  written : c.written = s.chan.written.map Prod.snd
  last : s.referred = c.last
  ref : ∀ slot, s.ref = some slot → MwsrTaFifo.succMod slot = s.chan.fifo.idxRead

/-- The writers in `Write` are those that wait, with their items. -/
structure FifoWriter (s : FifoSys W ITEM) (c : FifoCalls W ITEM) (w : W) : Prop where
  pending : s.pending w = c.writing w
  waits : c.writing w = none ↔ s.chan.canWrite w = .running

/-- The running thread is not in a call. -/
structure FifoInv (s : FifoSys W ITEM) (c : FifoCalls W ITEM) : Prop
    extends FifoHistory s c where
  writers : ∀ w, FifoWriter s c w
  reading : c.reading = false ↔ s.chan.canRead = .running
  runsReader : s.running = some .reader → c.reading = false
  runsWriter : ∀ w, s.running = some (.writer w) → c.writing w = none

variable {s s' : FifoSys W ITEM} {c : FifoCalls W ITEM}

theorem FifoInv.right (h : FifoInv s c) : FifoRight ⟨s, c⟩ := by
  have hhistory : c.values ++ s.chan.fifo.contents = c.written := by
    rw [h.values, h.written, ← h.ok.queued, ← List.map_append, s.chan.handed_append_queued]
  have hlength : s.chan.fifo.contents.length = s.chan.queued.length := by
    rw [← h.ok.queued, List.length_map]
  exact
    { history := hhistory
      values := ⟨_, hhistory⟩
      room := hlength ▸ h.ok.length_queued_le
      writing := fun w => (h.writers w).waits
      reading := h.reading
      writers := fun w hw => hlength.trans (h.ok.writer w hw)
      reader := fun hr => h.ok.contents_eq_nil (h.ok.reader hr)
      reference := h.last }

theorem fifoInv_new [Inhabited ITEM] : FifoInv (new : FifoSys W ITEM) .new where
  ok := Channel.ok_new
  values := rfl
  written := rfl
  last := rfl
  ref slot h := by cases h
  writers w := ⟨rfl, iff_of_true rfl rfl⟩
  reading := iff_of_true rfl rfl
  runsReader h := by cases h
  runsWriter w h := by cases h

theorem notify_eq_running {x : Wait} : x.notify = .running ↔ x = .running := by
  cases x <;> simp [Wait.notify]

/-! ## 4. The calls -/

/-- A call of `Read` tests: it sleeps, or takes the first item and returns. -/
theorem FifoHistory.tryRead [DecidableEq W] (h : FifoHistory s c) (hcall : c.reading = true)
    (hwriters : ∀ w, FifoWriter s c w) : FifoInv s.tryRead (c.finish s.tryRead) := by
  have hok := (Channel.read_spec h.ok).1
  unfold FifoSys.tryRead
  unfold Channel.read at hok ⊢
  cases hempty : s.chan.fifo.isEmpty with
  | true =>
      simp only [hempty, if_true] at hok ⊢
      exact
        { ok := hok
          values := h.values
          written := h.written
          last := h.last
          ref := h.ref
          writers := fun w => ⟨(hwriters w).pending, (hwriters w).waits⟩
          reading := by simp [FifoCalls.finish, hcall]
          runsReader := fun hr => by cases hr
          runsWriter := fun w hw => by cases hw }
  | false =>
      have hhanded := (Channel.read_spec h.ok).2
      unfold Channel.read at hhanded
      simp only [hempty, Bool.false_eq_true, if_false] at hok hhanded ⊢
      simp only [FifoCalls.finish, hcall, if_true]
      refine
        { ok := hok
          values := ?_
          written := h.written
          last := rfl
          ref := fun slot hl => ?_
          writers := fun w =>
            ⟨(hwriters w).pending, (hwriters w).waits.trans notify_eq_running.symm⟩
          reading := iff_of_true rfl rfl
          runsReader := fun _ => rfl
          runsWriter := fun w hw => by cases hw }
      · cases hhanded with
        | take hq hq' hh hwr hr hw =>
            rw [hh, List.map_append, ← h.values]
            rfl
      · cases hl
        rfl

/-- A write goes into the slot behind the last one, which no reference is to. -/
theorem push_keeps {f : MwsrTaFifo ITEM queueSize} (hfull : f.isFull = false) (p : ITEM)
    {slot : Fin (queueSize + 1)} (hslot : MwsrTaFifo.succMod slot = f.idxRead) :
    (f.push p).data slot = f.data slot := by
  refine Function.update_of_ne (fun heq => ?_) _ _
  rw [MwsrTaFifo.isFull, ← heq, hslot, beq_self_eq_true] at hfull
  cases hfull

/-- A call of `Write` tests: it sleeps with its item, or leaves it in the queue and returns. -/
theorem FifoHistory.tryWrite [DecidableEq W] (h : FifoHistory s c) {w : W} {p : ITEM}
    (hcall : c.writing w = some p) (hwriters : ∀ w', w' ≠ w → FifoWriter s c w')
    (hreading : c.reading = false ↔ s.chan.canRead = .running) :
    FifoInv (s.tryWrite w p) (c.finish (s.tryWrite w p)) := by
  obtain ⟨hok, hwrites⟩ := Channel.write_spec h.ok w p
  unfold FifoSys.tryWrite
  unfold Channel.write at hok hwrites ⊢
  cases hfull : s.chan.fifo.isFull with
  | true =>
      simp only [hfull, if_true, Bool.false_eq_true, if_false] at hok ⊢
      refine
        { ok := hok
          values := h.values
          written := h.written
          last := h.last
          ref := h.ref
          writers := fun w' => ?_
          reading := hreading
          runsReader := fun hr => by cases hr
          runsWriter := fun w' hw' => by cases hw' }
      by_cases hw : w' = w
      · subst hw
        exact ⟨by simp [FifoCalls.finish, hcall], by simp [FifoCalls.finish, hcall]⟩
      · exact ⟨by simpa [FifoCalls.finish, hw] using (hwriters w' hw).pending,
          by simpa [FifoCalls.finish, hw] using (hwriters w' hw).waits⟩
  | false =>
      simp only [hfull, Bool.false_eq_true, if_false, if_true] at hok hwrites ⊢
      simp only [FifoCalls.finish, hcall]
      refine
        { ok := hok
          values := ?_
          written := ?_
          last := ?_
          ref := h.ref
          writers := fun w' => ?_
          reading := hreading.trans notify_eq_running.symm
          runsReader := fun hr => by cases hr
          runsWriter := fun w' hw' => ?_ }
      · cases hwrites with
        | append hlt hq hh hwr hr hw =>
            rw [hh]
            exact h.values
      · rw [h.written, List.map_append]
        rfl
      · rw [← h.last, FifoSys.referred, FifoSys.referred]
        cases href : s.ref with
        | none => rfl
        | some slot => exact congrArg some (push_keeps hfull p (h.ref slot href))
      · by_cases hw : w' = w
        · subst hw
          exact ⟨by simp, by simp⟩
        · exact ⟨by simpa [hw] using (hwriters w' hw).pending,
            by simpa [hw] using (hwriters w' hw).waits⟩
      · cases hw'
        exact Function.update_self _ _ _

/-- Another thread runs, or none, between two calls. -/
theorem FifoInv.withRunning (h : FifoInv s c) {t : Option (FifoThread W)}
    (hreader : t = some .reader → c.reading = false)
    (hwriter : ∀ w, t = some (.writer w) → c.writing w = none) :
    FifoInv { s with running := t } c where
  ok := h.ok
  values := h.values
  written := h.written
  last := h.last
  ref := h.ref
  writers w := ⟨(h.writers w).pending, (h.writers w).waits⟩
  reading := h.reading
  runsReader := hreader
  runsWriter := hwriter

/-- A thread goes on: between two calls, or in one. -/
theorem FifoInv.goOn [DecidableEq W] (h : FifoInv s c) {t : FifoThread W}
    (hs : s.goOn t = some s') : FifoInv s' (c.finish s') := by
  cases t with
  | reader =>
      simp only [FifoSys.goOn] at hs
      split at hs
      · next hrun =>
          cases hs
          have hout : c.reading = false := h.reading.mpr hrun
          simp only [FifoCalls.finish, hout, Bool.false_eq_true, if_false]
          exact h.withRunning (fun _ => hout) nofun
      · next hwoken =>
          cases hs
          refine h.toFifoHistory.tryRead (Bool.of_not_eq_false fun hout => ?_) h.writers
          rw [h.reading.mp hout] at hwoken
          cases hwoken
      · cases hs
  | writer w =>
      simp only [FifoSys.goOn] at hs
      split at hs
      · next hrun =>
          cases hs
          have hout : c.writing w = none := (h.writers w).waits.mpr hrun
          simp only [FifoCalls.finish, hout]
          refine h.withRunning nofun fun w' hw' => ?_
          cases hw'
          exact hout
      · obtain ⟨p, hp, rfl⟩ := Option.map_eq_some_iff.mp hs
        exact h.toFifoHistory.tryWrite ((h.writers w).pending ▸ hp) (fun w' _ => h.writers w')
          h.reading
      · cases hs

/-! ## 5. Runs -/

/-- **One step of any thread.** -/
theorem fifoInv_next [DecidableEq W] {e : FifoEvent W ITEM} (h : FifoInv s c)
    (hs : s.next e = some s') : FifoInv s' (c.see s e s') := by
  cases e with
  | dispatch t =>
      simp only [next] at hs
      split at hs
      · exact h.goOn hs
      · cases hs
  | read =>
      simp only [next] at hs
      split at hs
      · cases hs
        have hh : FifoHistory s { c with reading := true } :=
          ⟨h.ok, h.values, h.written, h.last, h.ref⟩
        exact hh.tryRead rfl fun w => ⟨(h.writers w).pending, (h.writers w).waits⟩
      · cases hs
  | write p =>
      simp only [next] at hs
      split at hs
      · next w hrun =>
          cases hs
          simp only [FifoCalls.see, FifoCalls.begin, hrun]
          have hh : FifoHistory s { c with writing := Function.update c.writing w (some p) } :=
            ⟨h.ok, h.values, h.written, h.last, h.ref⟩
          refine hh.tryWrite (Function.update_self _ _ _) (fun w' hw => ?_) h.reading
          exact ⟨by simpa [hw] using (h.writers w').pending, by simpa [hw] using (h.writers w').waits⟩
      · cases hs
  | yield =>
      obtain ⟨t, -, rfl⟩ := Option.map_eq_some_iff.mp hs
      exact h.withRunning nofun nofun

/-- **Every schedule**: nothing is lost, doubled or overtaken, and no thread sleeps that could go on. -/
theorem fifo_right [DecidableEq W] [Inhabited ITEM] (es : List (FifoEvent W ITEM)) :
    Along (Observed.step next FifoCalls.see) FifoRight
      (⟨new, .new⟩ : Observed (FifoSys W ITEM) (FifoCalls W ITEM)) es := by
  refine along_of_invariant
    (I := fun x : Observed (FifoSys W ITEM) (FifoCalls W ITEM) => FifoInv x.state x.seen)
    (fun _ h => h.right) (fun x e x' h hs => ?_) fifoInv_new es
  obtain ⟨hnext, hseen⟩ := Observed.step_eq_some hs
  rw [hseen]
  exact fifoInv_next h hnext

/-- Two writers fill the queue, and the second one sleeps with 9 until the reader has taken 0. -/
theorem fifo_right_full : ∃ x, exec (Observed.step next FifoCalls.see)
    (⟨new, .new⟩ : Observed (FifoSys Bool Nat) (FifoCalls Bool Nat))
    [.dispatch (.writer false), .write 0, .write 1, .write 2, .write 3, .write 4, .write 5, .write 6,
      .write 7, .yield, .dispatch (.writer true), .write 9, .dispatch .reader, .read, .yield,
      .dispatch (.writer true)] = some x ∧
    x.seen.values = [0] ∧ x.seen.written = [0, 1, 2, 3, 4, 5, 6, 7, 9] ∧ FifoRight x := by
  have hrun : exec (Observed.step next FifoCalls.see)
      (⟨new, .new⟩ : Observed (FifoSys Bool Nat) (FifoCalls Bool Nat))
      [.dispatch (.writer false), .write 0, .write 1, .write 2, .write 3, .write 4, .write 5,
        .write 6, .write 7, .yield, .dispatch (.writer true), .write 9, .dispatch .reader, .read,
        .yield, .dispatch (.writer true)] = some _ := rfl
  exact ⟨_, hrun, rfl, rfl, (fifo_right _).last hrun⟩

end FifoSys

end Rabbits
