/-
  File:      Rabbits/Noc/MwsrTaFifo.lean
  Subject:   The bounded queue with several writers and one reader (mwsr_ta_fifo.cpp).

  * `MwsrTaFifo` -- the ring buffer, whose indices cannot leave it; `contents` is the list it holds;
  * `Wait` -- a thread against an event: not waiting, suspended, or notified since it suspended;
  * `Channel` -- the queue with its two events and the threads in `Read` and `Write`. A `Read` or
    `Write` that has to wait is suspended, and tries again when it runs next;
  * `Channel.Ok` -- no wake-up is lost: a suspended reader finds the queue empty and a suspended
    writer finds it full;
  * `Channel.read_spec`, `Channel.write_spec` -- what one try does.

  A channel remembers all items written, with their writers, and how many have been read.
-/
import Mathlib.Logic.Function.Basic
import Mathlib.Data.List.Basic

namespace Rabbits

universe u v

/-! ## 1. The ring buffer -/

/-- `mwsr_ta_fifo` made with `size`: one slot more than it holds. -/
structure MwsrTaFifo (ITEM : Type u) (size : Nat) where
  data : Fin (size + 1) → ITEM
  idxRead : Fin (size + 1)
  idxWrite : Fin (size + 1)

namespace MwsrTaFifo

variable {ITEM : Type u} {size : Nat}

/-- `(i + 1) % m_size`. -/
def succMod (i : Fin (size + 1)) : Fin (size + 1) :=
  ⟨(i.val + 1) % (size + 1), Nat.mod_lt _ (Nat.succ_pos _)⟩

/-- The constructor. -/
def new [Inhabited ITEM] (size : Nat) : MwsrTaFifo ITEM size := ⟨fun _ => default, 0, 0⟩

/-- `IsEmpty`. -/
def isEmpty (f : MwsrTaFifo ITEM size) : Bool := f.idxRead == f.idxWrite

/-- `IsFull`. -/
def isFull (f : MwsrTaFifo ITEM size) : Bool := f.idxRead == succMod f.idxWrite

/-- `Write` after its wait. -/
def push (f : MwsrTaFifo ITEM size) (p : ITEM) : MwsrTaFifo ITEM size :=
  { f with data := Function.update f.data f.idxWrite p, idxWrite := succMod f.idxWrite }

/-- `Read` after its wait: the item, and the queue without it. -/
def pop (f : MwsrTaFifo ITEM size) : ITEM × MwsrTaFifo ITEM size :=
  (f.data f.idxRead, { f with idxRead := succMod f.idxRead })

/-- How many items the queue holds. -/
def count (f : MwsrTaFifo ITEM size) : Nat :=
  if f.idxRead.val ≤ f.idxWrite.val then f.idxWrite.val - f.idxRead.val
  else f.idxWrite.val + (size + 1) - f.idxRead.val

/-- The slot of the `k`-th item. -/
def slot (f : MwsrTaFifo ITEM size) (k : Nat) : Fin (size + 1) :=
  ⟨(f.idxRead.val + k) % (size + 1), Nat.mod_lt _ (Nat.succ_pos _)⟩

/-- The items in the queue, in the order of their writing. -/
def contents (f : MwsrTaFifo ITEM size) : List ITEM :=
  (List.range f.count).map fun k => f.data (f.slot k)

theorem val_succMod (i : Fin (size + 1)) :
    (succMod i).val = if i.val = size then 0 else i.val + 1 := by
  have hi := i.isLt
  unfold succMod
  split
  · next h => simp [h]
  · exact Nat.mod_eq_of_lt (by omega)

theorem val_slot (f : MwsrTaFifo ITEM size) {k : Nat} (hk : k ≤ size) :
    (f.slot k).val =
      if f.idxRead.val + k ≤ size then f.idxRead.val + k else f.idxRead.val + k - (size + 1) := by
  have hr := f.idxRead.isLt
  show (f.idxRead.val + k) % (size + 1) = _
  split
  · exact Nat.mod_eq_of_lt (by omega)
  · rw [Nat.mod_eq_sub_mod (by omega)]
    exact Nat.mod_eq_of_lt (by omega)

theorem count_le (f : MwsrTaFifo ITEM size) : f.count ≤ size := by
  have hr := f.idxRead.isLt
  have hw := f.idxWrite.isLt
  unfold count
  split <;> omega

theorem length_contents (f : MwsrTaFifo ITEM size) : f.contents.length = f.count := by
  simp [contents]

theorem isEmpty_iff (f : MwsrTaFifo ITEM size) : f.isEmpty = true ↔ f.contents = [] := by
  have hr := f.idxRead.isLt
  rw [← List.length_eq_zero_iff, length_contents, isEmpty, beq_iff_eq, Fin.ext_iff, count]
  split <;> omega

theorem isFull_iff (f : MwsrTaFifo ITEM size) : f.isFull = true ↔ f.contents.length = size := by
  have hr := f.idxRead.isLt
  have hw := f.idxWrite.isLt
  rw [length_contents, isFull, beq_iff_eq, Fin.ext_iff, val_succMod, count]
  split <;> split <;> omega

theorem contents_new [Inhabited ITEM] : (new size : MwsrTaFifo ITEM size).contents = [] := by
  rw [← isEmpty_iff]
  rfl

theorem contents_push (f : MwsrTaFifo ITEM size) (p : ITEM) (h : f.isFull = false) :
    (f.push p).contents = f.contents ++ [p] := by
  have hr := f.idxRead.isLt
  have hw := f.idxWrite.isLt
  have hle := f.count_le
  have hne : f.count ≠ size := by
    rw [← length_contents, Ne, ← isFull_iff, h]
    exact Bool.false_ne_true
  have hv : (f.push p).idxWrite.val = _ := val_succMod f.idxWrite
  have hrv : (f.push p).idxRead = f.idxRead := rfl
  have hcount : (f.push p).count = f.count + 1 := by
    unfold count at hne ⊢
    rw [hrv]
    split at hv <;> split at hne <;> split <;> omega
  have hlast : f.slot f.count = f.idxWrite := by
    rw [Fin.ext_iff, val_slot f hle]
    unfold count
    split <;> split <;> omega
  have hslot {k : Nat} (hk : k < f.count) : f.slot k ≠ f.idxWrite := by
    rw [Ne, Fin.ext_iff, val_slot f (by omega)]
    unfold count at hk
    split at hk <;> split <;> omega
  rw [contents, hcount, List.range_succ, List.map_append, List.map_singleton]
  congr 1
  · refine List.map_congr_left fun k hk => ?_
    exact Function.update_of_ne (hslot (List.mem_range.mp hk)) _ _
  · have hs : (f.push p).slot f.count = f.idxWrite := hlast
    rw [hs]
    exact congrArg (fun x => [x]) (Function.update_self _ _ _)

theorem contents_pop (f : MwsrTaFifo ITEM size) (h : f.isEmpty = false) :
    f.contents = f.pop.1 :: f.pop.2.contents := by
  have hr := f.idxRead.isLt
  have hw := f.idxWrite.isLt
  have hle := f.count_le
  have hne : f.count ≠ 0 := by
    rw [← length_contents, Ne, List.length_eq_zero_iff, ← isEmpty_iff, h]
    exact Bool.false_ne_true
  have hv : f.pop.2.idxRead.val = _ := val_succMod f.idxRead
  have hwv : f.pop.2.idxWrite = f.idxWrite := rfl
  have hcount : f.count = f.pop.2.count + 1 := by
    unfold count at hne ⊢
    rw [hwv]
    split at hv <;> split at hne <;> split <;> split <;> omega
  have hfirst : f.slot 0 = f.idxRead := by
    rw [Fin.ext_iff, val_slot f (Nat.zero_le _)]
    split <;> omega
  have hslot {k : Nat} (hk : k < f.pop.2.count) : f.slot (k + 1) = f.pop.2.slot k := by
    rw [Fin.ext_iff, val_slot f (by omega), val_slot f.pop.2 (by omega)]
    split at hv <;> split <;> split <;> omega
  rw [contents, hcount, List.range_succ_eq_map, List.map_cons, List.map_map, hfirst]
  congr 1
  refine List.map_congr_left fun k hk => ?_
  show f.data (f.slot (k + 1)) = f.data (f.pop.2.slot k)
  rw [hslot (List.mem_range.mp hk)]

end MwsrTaFifo

/-! ## 2. The queue with its threads -/

/-- A thread against an event. -/
inductive Wait where
  | running | asleep | notified
  deriving DecidableEq

/-- `notify ()` as one waiting thread sees it. -/
def Wait.notify : Wait → Wait
  | .asleep => .notified
  | w => w

theorem Wait.notify_ne_asleep (w : Wait) : w.notify ≠ .asleep := by
  cases w <;> simp [Wait.notify]

/-- `m_queue_requests` and `m_queue_responses` are all made with this size. -/
def queueSize : Nat := 8

/-- A queue, its reader against `canRead` and its writers against `canWrite`, the items written so
    far (with their writers) and how many of them were read. -/
structure Channel (W : Type v) (ITEM : Type u) where
  fifo : MwsrTaFifo ITEM queueSize
  canRead : Wait
  canWrite : W → Wait
  written : List (W × ITEM)
  taken : Nat

namespace Channel

variable {W : Type v} {ITEM : Type u}

def new [Inhabited ITEM] : Channel W ITEM :=
  ⟨.new queueSize, .running, fun _ => .running, [], 0⟩

/-- `Read`, as far as it gets: the item, or `none` when it is suspended. -/
def read (c : Channel W ITEM) : Option ITEM × Channel W ITEM :=
  if c.fifo.isEmpty then (none, { c with canRead := .asleep })
  else
    (some c.fifo.pop.1, { c with
      fifo := c.fifo.pop.2
      canRead := .running
      canWrite := fun w => (c.canWrite w).notify
      taken := c.taken + 1 })

/-- `Write` by the thread `w`, as far as it gets; `true` when the item is in the queue. -/
def write [DecidableEq W] (c : Channel W ITEM) (w : W) (p : ITEM) : Bool × Channel W ITEM :=
  if c.fifo.isFull then (false, { c with canWrite := Function.update c.canWrite w .asleep })
  else
    (true, { c with
      fifo := c.fifo.push p
      canRead := c.canRead.notify
      canWrite := Function.update c.canWrite w .running
      written := c.written ++ [(w, p)] })

/-- The items read so far, with their writers. -/
def handed (c : Channel W ITEM) : List (W × ITEM) := c.written.take c.taken

/-- The items in the queue, with their writers. -/
def queued (c : Channel W ITEM) : List (W × ITEM) := c.written.drop c.taken

theorem handed_append_queued (c : Channel W ITEM) : c.handed ++ c.queued = c.written :=
  List.take_append_drop _ _

/-- The history fits the queue, and only those wait who have to. -/
structure Ok (c : Channel W ITEM) : Prop where
  fits : c.taken ≤ c.written.length
  queued : c.queued.map Prod.snd = c.fifo.contents
  reader : c.canRead = .asleep → c.queued = []
  writer : ∀ w, c.canWrite w = .asleep → c.queued.length = queueSize

theorem ok_new [Inhabited ITEM] : (new : Channel W ITEM).Ok where
  fits := Nat.le_refl 0
  queued := (MwsrTaFifo.contents_new).symm
  reader h := by cases h
  writer w h := by cases h

theorem Ok.isEmpty_iff {c : Channel W ITEM} (h : c.Ok) : c.fifo.isEmpty = true ↔ c.queued = [] := by
  rw [MwsrTaFifo.isEmpty_iff, ← h.queued, List.map_eq_nil_iff]

theorem Ok.isFull_iff {c : Channel W ITEM} (h : c.Ok) :
    c.fifo.isFull = true ↔ c.queued.length = queueSize := by
  rw [MwsrTaFifo.isFull_iff, ← h.queued, List.length_map]

/-- The queue never holds more than its slots. -/
theorem Ok.length_queued_le {c : Channel W ITEM} (h : c.Ok) : c.queued.length ≤ queueSize := by
  have hl := congrArg List.length h.queued
  rw [List.length_map, MwsrTaFifo.length_contents] at hl
  rw [hl]
  exact c.fifo.count_le

theorem Ok.contents_eq_nil {c : Channel W ITEM} (h : c.Ok) (he : c.queued = []) :
    c.fifo.contents = [] := by
  rw [← h.queued, he]
  rfl

/-- On an empty queue no writer is suspended. -/
theorem Ok.writer_of_empty {c : Channel W ITEM} (h : c.Ok) (he : c.queued = []) (w : W) :
    c.canWrite w ≠ .asleep := by
  intro hw
  have hl := h.writer w hw
  rw [he] at hl
  cases hl

/-- One try of `Read`: it is suspended on the empty queue, or takes the first item and wakes every
    suspended writer. -/
inductive Reads (c : Channel W ITEM) : Option ITEM × Channel W ITEM → Prop where
  | suspend (h : c.queued = []) : Reads c (none, { c with canRead := .asleep })
  | take {w : W} {p : ITEM} {rest : List (W × ITEM)} {c' : Channel W ITEM}
      (hq : c.queued = (w, p) :: rest) (hq' : c'.queued = rest)
      (hh : c'.handed = c.handed ++ [(w, p)]) (hwr : c'.written = c.written)
      (hr : c'.canRead = .running) (hw : ∀ w, c'.canWrite w = (c.canWrite w).notify) :
      Reads c (some p, c')

theorem read_spec {c : Channel W ITEM} (h : c.Ok) : c.read.2.Ok ∧ Reads c c.read := by
  unfold read
  cases he : c.fifo.isEmpty with
  | true =>
      have hq := h.isEmpty_iff.mp he
      exact ⟨⟨h.fits, h.queued, fun _ => hq, h.writer⟩, .suspend hq⟩
  | false =>
      have hpop := c.fifo.contents_pop he
      have hmap := h.queued
      rw [hpop] at hmap
      obtain ⟨⟨w, p⟩, rest, hq, hp, hrest⟩ := List.map_eq_cons_iff.mp hmap
      have hlen : c.taken < c.written.length := by
        by_contra hge
        rw [Channel.queued, List.drop_eq_nil_of_le (by omega)] at hq
        cases hq
      have hdrop : c.written.drop (c.taken + 1) = rest := by
        have ht : c.queued.tail = rest := by rw [hq]; rfl
        rwa [Channel.queued, List.tail_drop] at ht
      have htake : c.written.take (c.taken + 1) = c.handed ++ [(w, p)] := by
        have hget : c.written[c.taken]? = some (w, p) := by
          have hh : c.queued.head? = some (w, p) := by rw [hq]; rfl
          rwa [Channel.queued, List.head?_drop] at hh
        rw [List.take_add_one, hget]
        rfl
      refine ⟨⟨hlen, ?_, fun e => (by cases e), fun w e => ?_⟩, ?_⟩
      · show (c.written.drop (c.taken + 1)).map Prod.snd = _
        rw [hdrop]
        exact hrest
      · exact absurd e (Wait.notify_ne_asleep _)
      · have hp' : c.fifo.pop.1 = p := hp.symm
        rw [hp']
        exact .take hq hdrop htake rfl rfl fun _ => rfl

/-- One try of `Write`: it is suspended on the full queue, or appends its item and wakes the
    reader. -/
inductive Writes [DecidableEq W] (c : Channel W ITEM) (w : W) (p : ITEM) :
    Bool × Channel W ITEM → Prop where
  | suspend (h : c.queued.length = queueSize) :
      Writes c w p (false, { c with canWrite := Function.update c.canWrite w .asleep })
  | append {c' : Channel W ITEM} (hfull : c.queued.length < queueSize)
      (hq : c'.queued = c.queued ++ [(w, p)]) (hh : c'.handed = c.handed)
      (hwr : c'.written = c.written ++ [(w, p)]) (hr : c'.canRead = c.canRead.notify)
      (hw : c'.canWrite = Function.update c.canWrite w .running) : Writes c w p (true, c')

theorem write_spec [DecidableEq W] {c : Channel W ITEM} (h : c.Ok) (w : W) (p : ITEM) :
    (c.write w p).2.Ok ∧ Writes c w p (c.write w p) := by
  unfold write
  cases hf : c.fifo.isFull with
  | true =>
      have hq := h.isFull_iff.mp hf
      refine ⟨⟨h.fits, h.queued, h.reader, fun _ _ => hq⟩, .suspend hq⟩
  | false =>
      have hne : c.queued.length ≠ queueSize := by
        rw [Ne, ← h.isFull_iff, hf]
        exact Bool.false_ne_true
      have hlt : c.queued.length < queueSize := Nat.lt_of_le_of_ne h.length_queued_le hne
      have hdrop : (c.written ++ [(w, p)]).drop c.taken = c.queued ++ [(w, p)] :=
        List.drop_append_of_le_length h.fits
      have htake : (c.written ++ [(w, p)]).take c.taken = c.handed :=
        List.take_append_of_le_length h.fits
      refine ⟨⟨?_, ?_, fun e => ?_, fun w' e => ?_⟩, .append hlt hdrop htake rfl rfl rfl⟩
      · exact Nat.le_trans h.fits (by simp)
      · show ((c.written ++ [(w, p)]).drop c.taken).map Prod.snd = _
        rw [hdrop, List.map_append, h.queued]
        exact (c.fifo.contents_push p hf).symm
      · exact absurd e (Wait.notify_ne_asleep _)
      · have e' : Function.update c.canWrite w .running w' = .asleep := e
        by_cases hw : w' = w
        · subst hw
          rw [Function.update_self] at e'
          cases e'
        · rw [Function.update_of_ne hw] at e'
          exact absurd (h.writer w' e') hne

end Channel

end Rabbits
