/-
  File:      Rabbits/Noc/Crossbar.lean
  Subject:   Dispatcher threads between bounded queues.

  Both directions of the interconnect have one shape: every port `a` on the sending side has an
  input queue, which any number of threads write by `put`, and one dispatcher thread, which reads
  a message, waits for a fixed time, routes the message and writes it to the output queue of a port
  `b` on the receiving side, from which one thread reads by `get`. A message without a route ends
  the program: its dispatcher takes no further step.

  * `Crossbar`, `CrossbarStep` -- the state and the steps, one queue operation each;
  * `Quiet` -- no thread can run before time passes; `tick` -- time passes;
  * `Crossbar.Inv` -- where the messages are, and who waits for whom;
  * `journey` -- of the messages put at `a`, those routed to `b` are, in order: handed over, in the
    output queue, in the dispatcher, in the input queue;
  * `Inv.step`, `Inv.tick` -- the steps preserve the invariant;
  * `Holds` -- a property of every message, before and after its routing;
  * `calls_step`, `written_step`, `handed_step` -- what a step adds to the histories of the queues;
  * `called`, `completed`, `returned` -- the calls of `put`, those that returned, and what the calls
    of `get` returned, as the labels of a run show them; `Histories` -- the queues remember the same;
  * `Stops` -- a dispatcher never gets past a message without a route.

  A thread of SystemC runs until its next wait, over several of these steps at once; taken one by
  one the steps allow all its orders, and more.
-/
import Mathlib.Data.List.Basic
import Rabbits.Noc.MwsrTaFifo

namespace Rabbits

universe u v w z

variable {A : Type u} {B : Type v} {T : Type w} {MSG : Type z}

/-! ## 1. The model -/

/-- A dispatcher thread: about to read its queue (or suspended there), in its timed wait (`due` when
    the time has come), or about to write a routed message (or suspended there). -/
inductive DispatcherPc (B : Type v) (MSG : Type z) where
  | reading
  | delay (m : MSG) (due : Bool)
  | adding (b : B) (m : MSG)

/-- The ports with their queues and dispatchers, the message of every `put` that is blocked on a
    full queue, and the calls of `put` made so far. -/
structure Crossbar (A : Type u) (B : Type v) (T : Type w) (MSG : Type z) where
  input : A → Channel T MSG
  blocked : A → T → Option MSG
  calls : A → List (T × MSG)
  dispatcher : A → DispatcherPc B MSG
  output : B → Channel A MSG

namespace Crossbar

def new [Inhabited MSG] : Crossbar A B T MSG :=
  ⟨fun _ => .new, fun _ _ => none, fun _ => [], fun _ => .reading, fun _ => .new⟩

variable [DecidableEq A] [DecidableEq B] [DecidableEq T]

/-- A try of `put` by the thread `t`. -/
def put (x : Crossbar A B T MSG) (a : A) (t : T) (m : MSG) : Crossbar A B T MSG :=
  let r := (x.input a).write t m
  { x with
    input := Function.update x.input a r.2
    blocked := Function.update x.blocked a
      (Function.update (x.blocked a) t (if r.1 then none else some m)) }

/-- A new call of `put`. -/
def call (x : Crossbar A B T MSG) (a : A) (t : T) (m : MSG) : Crossbar A B T MSG :=
  { x.put a t m with calls := Function.update x.calls a (x.calls a ++ [(t, m)]) }

/-- The dispatcher tries to read. -/
def dispRead (x : Crossbar A B T MSG) (a : A) : Crossbar A B T MSG :=
  let r := (x.input a).read
  { x with
    input := Function.update x.input a r.2
    dispatcher := Function.update x.dispatcher a
      (match r.1 with
        | none => .reading
        | some m => .delay m false) }

/-- The dispatcher has routed its message. -/
def dispRoute (x : Crossbar A B T MSG) (a : A) (b : B) (m : MSG) : Crossbar A B T MSG :=
  { x with dispatcher := Function.update x.dispatcher a (.adding b m) }

/-- The dispatcher tries to write. -/
def dispAdd (x : Crossbar A B T MSG) (a : A) (b : B) (m : MSG) : Crossbar A B T MSG :=
  let r := (x.output b).write a m
  { x with
    output := Function.update x.output b r.2
    dispatcher := Function.update x.dispatcher a (if r.1 then .reading else .adding b m) }

/-- A try of `get`. -/
def get (x : Crossbar A B T MSG) (b : B) : Option MSG × Crossbar A B T MSG :=
  ((x.output b).read.1, { x with output := Function.update x.output b (x.output b).read.2 })

/-- Time passes, and the timed waits in `due` are over. -/
def tick (x : Crossbar A B T MSG) (due : A → Bool) : Crossbar A B T MSG :=
  { x with
    dispatcher := fun a =>
      match x.dispatcher a with
      | .delay m d => .delay m (d || due a)
      | pc => pc }

/-- The dispatcher can run without time passing. -/
def CanRun (x : Crossbar A B T MSG) (a : A) : Prop :=
  match x.dispatcher a with
  | .reading => (x.input a).canRead ≠ .asleep
  | .delay _ due => due = true
  | .adding b _ => (x.output b).canWrite a ≠ .asleep

/-- No dispatcher and no `put` can run. -/
structure Quiet (x : Crossbar A B T MSG) : Prop where
  dispatcher : ∀ a, ¬ x.CanRun a
  put : ∀ a t m, x.blocked a t = some m → (x.input a).canWrite t ≠ .notified

omit [DecidableEq A] [DecidableEq B] [DecidableEq T] in
/-- All dispatchers are in their timed waits, and no `put` is blocked. -/
theorem Quiet.of_delay {x : Crossbar A B T MSG} (hd : ∀ a, ∃ m, x.dispatcher a = .delay m false)
    (hb : ∀ a t, x.blocked a t = none) : x.Quiet := by
  refine ⟨fun a hrun => ?_, fun a t m hm => ?_⟩
  · obtain ⟨m, hm⟩ := hd a
    rw [CanRun, hm] at hrun
    cases hrun
  · rw [hb a t] at hm
    cases hm

/-- What a step shows to the outside. -/
inductive Label (A : Type u) (B : Type v) (T : Type w) (MSG : Type z) where
  | call (a : A) (t : T) (m : MSG)
  | resumePut (a : A) (t : T) (m : MSG)
  | dispatch (a : A)
  | get (b : B) (r : Option MSG)

end Crossbar

open Crossbar in
/-- One queue operation (or routing) of one thread that is not suspended. -/
inductive CrossbarStep [DecidableEq A] [DecidableEq B] [DecidableEq T]
    (route : A → MSG → Option (B × MSG)) (x : Crossbar A B T MSG) :
    Label A B T MSG → Crossbar A B T MSG → Prop where
  | call {a : A} {t : T} (m : MSG) (h : x.blocked a t = none) :
      CrossbarStep route x (.call a t m) (x.call a t m)
  | resumePut {a : A} {t : T} {m : MSG} (h : x.blocked a t = some m)
      (hw : (x.input a).canWrite t = .notified) :
      CrossbarStep route x (.resumePut a t m) (x.put a t m)
  | read {a : A} (h : x.dispatcher a = .reading) (hr : (x.input a).canRead ≠ .asleep) :
      CrossbarStep route x (.dispatch a) (x.dispRead a)
  | route {a : A} {b : B} {m m' : MSG} (h : x.dispatcher a = .delay m true)
      (hr : route a m = some (b, m')) : CrossbarStep route x (.dispatch a) (x.dispRoute a b m')
  | add {a : A} {b : B} {m : MSG} (h : x.dispatcher a = .adding b m)
      (hw : (x.output b).canWrite a ≠ .asleep) :
      CrossbarStep route x (.dispatch a) (x.dispAdd a b m)
  | get {b : B} (h : (x.output b).canRead ≠ .asleep) :
      CrossbarStep route x (.get b (x.get b).1) (x.get b).2

/-! ## 2. Where the messages are -/

namespace Crossbar

variable [DecidableEq A] [DecidableEq B] [DecidableEq T]

/-- The items of one writer, in order. -/
def byWriter {W : Type u} [DecidableEq W] (w : W) (items : List (W × MSG)) : List MSG :=
  (items.filter fun p => p.1 = w).map Prod.snd

/-- The message `m` of `a`, if it goes to `b`, as it arrives there. -/
def routeTo (route : A → MSG → Option (B × MSG)) (a : A) (b : B) (m : MSG) : Option MSG :=
  match route a m with
  | some (b', m') => if b' = b then some m' else none
  | none => none

omit [DecidableEq A] in
theorem routeTo_eq_some {route : A → MSG → Option (B × MSG)} {a : A} {b : B} {m m' : MSG} :
    routeTo route a b m = some m' ↔ route a m = some (b, m') := by
  unfold routeTo
  split
  · next b' m'' hr =>
      by_cases hb : b' = b <;> simp [hr, hb]
  · next hr => simp [hr]

/-- What a dispatcher of `a` holds for `b`. -/
def pending (route : A → MSG → Option (B × MSG)) (a : A) (b : B) : DispatcherPc B MSG → List MSG
  | .reading => []
  | .delay m _ => (routeTo route a b m).toList
  | .adding b' m => if b' = b then [m] else []

/-- The invariant: the queues are sound; each thread's calls of `put` are written but for the one
    that is blocked; what a dispatcher took is written but for what it holds; and a blocked `put`
    that has been woken runs before its port's dispatcher does. -/
structure Inv (route : A → MSG → Option (B × MSG)) (x : Crossbar A B T MSG) : Prop where
  input : ∀ a, (x.input a).Ok
  output : ∀ b, (x.output b).Ok
  puts : ∀ a t, byWriter t (x.calls a) =
    byWriter t (x.input a).written ++ (x.blocked a t).toList
  hops : ∀ a b, ((x.input a).handed.map Prod.snd).filterMap (routeTo route a b) =
    byWriter a (x.output b).written ++ pending route a b (x.dispatcher a)
  waits : ∀ a t m, x.blocked a t = some m → (x.input a).canWrite t ≠ .running
  waker : ∀ a t m, x.blocked a t = some m → (x.input a).canWrite t = .notified →
    ∃ m', x.dispatcher a = .delay m' false

variable {route : A → MSG → Option (B × MSG)} {x : Crossbar A B T MSG}

theorem inv_new [Inhabited MSG] : Inv route (new : Crossbar A B T MSG) where
  input _ := Channel.ok_new
  output _ := Channel.ok_new
  puts _ _ := rfl
  hops _ _ := rfl
  waits a t m h := by cases h
  waker a t m h := by cases h

@[simp] theorem byWriter_append {W : Type u} [DecidableEq W] (w : W) (xs ys : List (W × MSG)) :
    byWriter w (xs ++ ys) = byWriter w xs ++ byWriter w ys := by
  simp [byWriter]

@[simp] theorem byWriter_self {W : Type u} [DecidableEq W] (w : W) (m : MSG) :
    byWriter w [(w, m)] = [m] := by
  simp [byWriter]

theorem byWriter_of_ne {W : Type u} [DecidableEq W] {w w' : W} (h : w' ≠ w) (m : MSG) :
    byWriter w [(w', m)] = [] := by
  simp [byWriter, h]

/-- **The journey of the messages from `a` to `b`**, in the order in which their puts completed. -/
theorem journey (h : Inv route x) (a : A) (b : B) :
    ((x.input a).written.map Prod.snd).filterMap (routeTo route a b) =
      byWriter a (x.output b).handed ++ byWriter a (x.output b).queued ++
        pending route a b (x.dispatcher a) ++
        ((x.input a).queued.map Prod.snd).filterMap (routeTo route a b) := by
  rw [← byWriter_append, Channel.handed_append_queued, ← h.hops a b, ← List.filterMap_append,
    ← List.map_append, Channel.handed_append_queued]

/-! ## 3. The steps preserve the invariant -/

/-- The invariant but for the balance of `put` calls at `a` and `t`, after a try of `put`: what is
    written of `t` or held back grew by `m`. -/
theorem Inv.put {a : A} {t : T} {m : MSG} (h : Inv route x)
    (hb : x.blocked a t = none ∨ x.blocked a t = some m) :
    (∀ a', ((x.put a t m).input a').Ok) ∧
    (∀ a' t', byWriter t' ((x.put a t m).input a').written ++
        ((x.put a t m).blocked a' t').toList =
      byWriter t' (x.input a').written ++
        if a' = a ∧ t' = t then [m] else (x.blocked a' t').toList) ∧
    (∀ a', ((x.put a t m).input a').handed = (x.input a').handed) ∧
    (∀ a' t' m', (x.put a t m).blocked a' t' = some m' →
      ((x.put a t m).input a').canWrite t' ≠ .running ∧
      (((x.put a t m).input a').canWrite t' = .notified → x.blocked a' t' = some m' ∧
        (x.input a').canWrite t' = .notified)) := by
  obtain ⟨hok, hw⟩ := Channel.write_spec (h.input a) t m
  generalize hr : (x.input a).write t m = r at hok hw
  have hput : x.put a t m = { x with
      input := Function.update x.input a r.2
      blocked := Function.update x.blocked a
        (Function.update (x.blocked a) t (if r.1 then none else some m)) } := by
    rw [Crossbar.put, hr]
  rw [hput]
  refine ⟨fun a' => ?_, fun a' t' => ?_, fun a' => ?_, fun a' t' m' => ?_⟩
  · by_cases ha : a' = a
    · subst ha; simpa using hok
    · simpa [ha] using h.input a'
  · by_cases ha : a' = a
    · subst ha
      by_cases ht : t' = t
      · subst ht
        cases hw with
        | suspend _ => simp
        | append _ _ _ hwr _ _ => simp [hwr]
      · cases hw with
        | suspend _ => simp [ht]
        | append _ _ _ hwr _ _ => simp [hwr, ht, byWriter_of_ne (Ne.symm ht)]
    · simp [ha]
  · by_cases ha : a' = a
    · subst ha
      cases hw with
      | suspend _ => simp [Channel.handed]
      | append _ _ hh _ _ _ => simpa using hh
    · simp [ha]
  · by_cases ha : a' = a
    · subst ha
      by_cases ht : t' = t
      · subst ht
        cases hw with
        | suspend _ => simp
        | append _ _ _ _ _ _ => simp
      · intro hb'
        simp only [Function.update_self, Function.update_of_ne ht] at hb' ⊢
        have hne := h.waits a' t' m' hb'
        cases hw with
        | suspend _ => simpa [ht] using ⟨hne, fun e => ⟨hb', e⟩⟩
        | append _ _ _ _ _ hcw => simpa [hcw, ht] using ⟨hne, fun e => ⟨hb', e⟩⟩
    · intro hb'
      simp only [Function.update_of_ne ha] at hb' ⊢
      exact ⟨h.waits a' t' m' hb', fun e => ⟨hb', e⟩⟩

theorem Inv.resumePut {a : A} {t : T} {m : MSG} (h : Inv route x)
    (hb : x.blocked a t = some m) : Inv route (x.put a t m) := by
  obtain ⟨hok, hbal, hh, hwait⟩ := h.put (.inr hb)
  refine ⟨hok, h.output, fun a' t' => ?_, fun a' b => ?_, fun a' t' m' e => (hwait a' t' m' e).1,
    fun a' t' m' e hn => ?_⟩
  · rw [hbal a' t']
    show byWriter t' (x.calls a') = _
    rw [h.puts a' t']
    split
    · next he => rw [he.1, he.2, hb]; rfl
    · rfl
  · rw [hh a']
    exact h.hops a' b
  · obtain ⟨hb', hn'⟩ := (hwait a' t' m' e).2 hn
    exact h.waker a' t' m' hb' hn'

theorem Inv.call {a : A} {t : T} {m : MSG} (h : Inv route x) (hb : x.blocked a t = none) :
    Inv route (x.call a t m) := by
  obtain ⟨hok, hbal, hh, hwait⟩ := h.put (.inl hb)
  refine ⟨hok, h.output, fun a' t' => ?_, fun a' b => ?_, fun a' t' m' e => (hwait a' t' m' e).1,
    fun a' t' m' e hn => ?_⟩
  · have hb' := hbal a' t'
    have hp := h.puts a' t'
    show byWriter t' (Function.update x.calls a (x.calls a ++ [(t, m)]) a') =
      byWriter t' ((x.put a t m).input a').written ++ ((x.put a t m).blocked a' t').toList
    rw [hb']
    by_cases ha : a' = a
    · subst ha
      by_cases ht : t' = t
      · subst ht
        rw [hb] at hp
        simp [hp]
      · simp [ht, hp, byWriter_of_ne (Ne.symm ht)]
    · simpa [ha] using hp
  · rw [show ((x.call a t m).input a').handed = (x.input a').handed from hh a']
    exact h.hops a' b
  · obtain ⟨hb', hn'⟩ := (hwait a' t' m' e).2 hn
    exact h.waker a' t' m' hb' hn'

/-- The dispatcher's message is new, or its wait goes on: it holds nothing for any `b` before. -/
theorem Inv.dispRead {a : A} (h : Inv route x) (hd : x.dispatcher a = .reading) :
    Inv route (x.dispRead a) := by
  obtain ⟨hok, hr⟩ := Channel.read_spec (h.input a)
  have hnone (t : T) (m : MSG) (hb : x.blocked a t = some m) :
      (x.input a).canWrite t ≠ .notified := by
    intro hn
    obtain ⟨m', e⟩ := h.waker a t m hb hn
    rw [hd] at e
    cases e
  unfold Crossbar.dispRead
  generalize hread : (x.input a).read = r at hok hr
  constructor
  · intro a'
    by_cases ha : a' = a
    · subst ha; simpa using hok
    · simpa [ha] using h.input a'
  · exact h.output
  · intro a' t
    have hp := h.puts a' t
    by_cases ha : a' = a
    · subst ha
      cases hr with
      | suspend _ => simpa using hp
      | take _ _ _ hwr _ _ => simpa [hwr] using hp
    · simpa [ha] using hp
  · intro a' b
    have hh := h.hops a' b
    by_cases ha : a' = a
    · subst ha
      rw [hd, pending, List.append_nil] at hh
      cases hr with
      | suspend _ => simpa [Channel.handed, pending] using hh
      | take _ _ hh' _ _ _ =>
          simp only [Function.update_self, hh', List.map_append, List.map_cons, List.map_nil,
            List.filterMap_append, hh, pending]
          congr 1
    · simpa [ha] using hh
  · intro a' t m hb
    have hw := h.waits a' t m hb
    by_cases ha : a' = a
    · subst ha
      cases hr with
      | suspend _ => simpa using hw
      | take _ _ _ _ _ hcw =>
          simp only [Function.update_self, hcw]
          cases e : (x.input a').canWrite t with
          | running => exact absurd e hw
          | asleep => simp [Wait.notify]
          | notified => simp [Wait.notify]
    · simpa [ha] using hw
  · intro a' t m hb hn
    by_cases ha : a' = a
    · subst ha
      cases hr with
      | suspend _ =>
          have hn' : (x.input a').canWrite t = .notified := by simpa using hn
          exact absurd hn' (hnone t m hb)
      | take _ _ _ _ _ _ => exact ⟨_, Function.update_self _ _ _⟩
    · simp only [Function.update_of_ne ha] at hn ⊢
      exact h.waker a' t m hb hn

theorem Inv.dispRoute {a : A} {b : B} {m m' : MSG} (h : Inv route x)
    (hd : x.dispatcher a = .delay m true) (hr : route a m = some (b, m')) :
    Inv route (x.dispRoute a b m') := by
  refine ⟨h.input, h.output, h.puts, fun a' b' => ?_, h.waits, fun a' t m'' hb hn => ?_⟩
  · have hh := h.hops a' b'
    by_cases ha : a' = a
    · subst ha
      rw [hd] at hh
      simp only [Crossbar.dispRoute, Function.update_self]
      rw [hh]
      congr 1
      by_cases hbb : b = b' <;> simp [pending, routeTo, hr, hbb]
    · simpa [Crossbar.dispRoute, ha] using hh
  · obtain ⟨m₀, e⟩ := h.waker a' t m'' hb hn
    have ha : a' ≠ a := by
      intro heq
      subst heq
      rw [hd] at e
      cases e
    exact ⟨m₀, by simpa [Crossbar.dispRoute, ha] using e⟩

theorem Inv.dispAdd {a : A} {b : B} {m : MSG} (h : Inv route x)
    (hd : x.dispatcher a = .adding b m) : Inv route (x.dispAdd a b m) := by
  obtain ⟨hok, hw⟩ := Channel.write_spec (h.output b) a m
  unfold Crossbar.dispAdd
  generalize hwrite : (x.output b).write a m = r at hok hw
  refine ⟨h.input, fun b' => ?_, h.puts, fun a' b' => ?_, h.waits, fun a' t m' hb hn => ?_⟩
  · by_cases hb : b' = b
    · subst hb; simpa using hok
    · simpa [hb] using h.output b'
  · have hh := h.hops a' b'
    by_cases ha : a' = a
    · subst ha
      rw [hd] at hh
      by_cases hb : b' = b
      · subst hb
        cases hw with
        | suspend _ => simpa [pending] using hh
        | append _ _ _ hwr _ _ => simpa [hwr, pending] using hh
      · have hb' : b ≠ b' := Ne.symm hb
        cases hw with
        | suspend _ => simpa [pending, hb, hb'] using hh
        | append _ _ _ hwr _ _ => simpa [pending, hb, hb'] using hh
    · by_cases hb : b' = b
      · subst hb
        cases hw with
        | suspend _ => simpa [ha] using hh
        | append _ _ _ hwr _ _ => simpa [ha, hwr, byWriter_of_ne (Ne.symm ha)] using hh
      · simpa [ha, hb] using hh
  · obtain ⟨m₀, e⟩ := h.waker a' t m' hb hn
    have ha : a' ≠ a := by
      intro heq
      subst heq
      rw [hd] at e
      cases e
    exact ⟨m₀, by simpa [ha] using e⟩

theorem Inv.get {b : B} (h : Inv route x) : Inv route (x.get b).2 := by
  obtain ⟨hok, hr⟩ := Channel.read_spec (h.output b)
  have hwr : (x.output b).read.2.written = (x.output b).written := by
    generalize (x.output b).read = r at hr
    cases hr with
    | suspend _ => rfl
    | take _ _ _ hwr _ _ => exact hwr
  refine ⟨h.input, fun b' => ?_, h.puts, fun a b' => ?_, h.waits, h.waker⟩
  · by_cases hb : b' = b
    · subst hb; simpa [Crossbar.get] using hok
    · simpa [Crossbar.get, hb] using h.output b'
  · have hh := h.hops a b'
    by_cases hb : b' = b
    · subst hb; simpa [Crossbar.get, hwr] using hh
    · simpa [Crossbar.get, hb] using hh

/-- Time passes only when every woken `put` has run. -/
theorem Inv.tick (h : Inv route x) (hq : x.Quiet) (due : A → Bool) : Inv route (x.tick due) := by
  refine ⟨h.input, h.output, h.puts, fun a b => ?_, h.waits, fun a t m hb hn => ?_⟩
  · rw [show ((x.tick due).input a).handed = (x.input a).handed from rfl, h.hops a b]
    congr 1
    simp only [Crossbar.tick]
    cases x.dispatcher a <;> rfl
  · exact absurd hn (hq.put a t m hb)

/-- **Every step preserves the invariant.** -/
theorem Inv.step {x' : Crossbar A B T MSG} {l : Label A B T MSG} (h : Inv route x)
    (hs : CrossbarStep route x l x') : Inv route x' := by
  cases hs with
  | call m hb => exact h.call hb
  | resumePut hb hw => exact h.resumePut hb
  | read hd hr => exact h.dispRead hd
  | route hd hr => exact h.dispRoute hd hr
  | add hd hw => exact h.dispAdd hd
  | get hg => exact h.get

/-! ## 4. Properties of all messages -/

/-- Every message put at `a` so far has `P a`, and every message written for `b` has `Q b`. -/
structure Holds (P : A → MSG → Prop) (Q : B → MSG → Prop) (x : Crossbar A B T MSG) : Prop where
  blocked : ∀ a t m, x.blocked a t = some m → P a m
  written : ∀ a, ∀ e ∈ (x.input a).written, P a e.2
  delay : ∀ a m due, x.dispatcher a = .delay m due → P a m
  adding : ∀ a b m, x.dispatcher a = .adding b m → Q b m
  output : ∀ b, ∀ e ∈ (x.output b).written, Q b e.2

variable {P : A → MSG → Prop} {Q : B → MSG → Prop}

omit [DecidableEq A] [DecidableEq B] [DecidableEq T] in
theorem holds_new [Inhabited MSG] : Holds P Q (new : Crossbar A B T MSG) where
  blocked a t m h := by cases h
  written a e h := by cases h
  delay a m due h := by cases h
  adding a b m h := by cases h
  output b e h := by cases h

theorem Holds.put {a : A} {t : T} {m : MSG} (h : Holds P Q x) (hi : Inv route x) (hm : P a m) :
    Holds P Q (x.put a t m) := by
  obtain ⟨-, hw⟩ := Channel.write_spec (hi.input a) t m
  unfold Crossbar.put
  generalize (x.input a).write t m = r at hw
  refine ⟨fun a' t' m' hb => ?_, fun a' e he => ?_, h.delay, h.adding, h.output⟩
  · by_cases ha : a' = a
    · subst ha
      by_cases ht : t' = t
      · subst ht
        cases hw with
        | suspend _ =>
            have e : m = m' := by simpa using hb
            exact e ▸ hm
        | append _ _ _ _ _ _ => simp at hb
      · exact h.blocked a' t' m' (by simpa [ht] using hb)
    · exact h.blocked a' t' m' (by simpa [ha] using hb)
  · by_cases ha : a' = a
    · subst ha
      cases hw with
      | suspend _ => exact h.written a' e (by simpa using he)
      | append _ _ _ hwr _ _ =>
          simp only [Function.update_self, hwr, List.mem_append, List.mem_singleton] at he
          rcases he with he | rfl
          · exact h.written a' e he
          · exact hm
    · exact h.written a' e (by simpa [ha] using he)

theorem Holds.dispRead {a : A} (h : Holds P Q x) (hi : Inv route x) :
    Holds P Q (x.dispRead a) := by
  obtain ⟨-, hr⟩ := Channel.read_spec (hi.input a)
  unfold Crossbar.dispRead
  generalize (x.input a).read = r at hr
  have hwr : r.2.written = (x.input a).written := by
    cases hr with
    | suspend _ => rfl
    | take _ _ _ hwr _ _ => exact hwr
  refine ⟨h.blocked, fun a' e he => ?_, fun a' m due hd => ?_, fun a' b m hd => ?_, h.output⟩
  · by_cases ha : a' = a
    · subst ha
      exact h.written a' e (by simpa [hwr] using he)
    · exact h.written a' e (by simpa [ha] using he)
  · by_cases ha : a' = a
    · subst ha
      cases hr with
      | suspend _ => simp at hd
      | @take w p rest c' hq _ _ _ _ _ =>
          obtain ⟨hm, -⟩ : p = m ∧ false = due := by simpa using hd
          have hmem : (w, p) ∈ (x.input a').queued := by rw [hq]; exact .head _
          exact hm ▸ h.written a' (w, p) (List.mem_of_mem_drop hmem)
    · exact h.delay a' m due (by simpa [ha] using hd)
  · by_cases ha : a' = a
    · subst ha
      cases hr with
      | suspend _ => simp at hd
      | take _ _ _ _ _ _ => simp at hd
    · exact h.adding a' b m (by simpa [ha] using hd)

theorem Holds.dispAdd {a : A} {b : B} {m : MSG} (h : Holds P Q x) (hi : Inv route x)
    (hd : x.dispatcher a = .adding b m) : Holds P Q (x.dispAdd a b m) := by
  have hm := h.adding a b m hd
  obtain ⟨-, hw⟩ := Channel.write_spec (hi.output b) a m
  unfold Crossbar.dispAdd
  generalize (x.output b).write a m = r at hw
  refine ⟨h.blocked, h.written, fun a' m' due e => ?_, fun a' b' m' e => ?_, fun b' e he => ?_⟩
  · by_cases ha : a' = a
    · subst ha
      cases hw with
      | suspend _ => simp at e
      | append _ _ _ _ _ _ => simp at e
    · exact h.delay a' m' due (by simpa [ha] using e)
  · by_cases ha : a' = a
    · subst ha
      cases hw with
      | suspend _ =>
          obtain ⟨rfl, rfl⟩ : b = b' ∧ m = m' := by simpa using e
          exact hm
      | append _ _ _ _ _ _ => simp at e
    · exact h.adding a' b' m' (by simpa [ha] using e)
  · by_cases hb : b' = b
    · subst hb
      cases hw with
      | suspend _ => exact h.output b' e (by simpa using he)
      | append _ _ _ hwr _ _ =>
          simp only [Function.update_self, hwr, List.mem_append, List.mem_singleton] at he
          rcases he with he | rfl
          · exact h.output b' e he
          · exact hm
    · exact h.output b' e (by simpa [hb] using he)

theorem Holds.get {b : B} (h : Holds P Q x) (hi : Inv route x) : Holds P Q (x.get b).2 := by
  obtain ⟨-, hr⟩ := Channel.read_spec (hi.output b)
  refine ⟨h.blocked, h.written, h.delay, h.adding, fun b' e he => h.output b' e ?_⟩
  by_cases hb : b' = b
  · subst hb
    unfold Crossbar.get at he
    generalize (x.output b').read = r at hr he
    cases hr with
    | suspend _ => simpa using he
    | take _ _ _ hwr _ _ => simpa [hwr] using he
  · simpa [Crossbar.get, hb] using he

omit [DecidableEq A] [DecidableEq B] [DecidableEq T] in
theorem Holds.tick (h : Holds P Q x) (due : A → Bool) : Holds P Q (x.tick due) := by
  refine ⟨h.blocked, h.written, fun a m d hd => ?_, fun a b m hd => ?_, h.output⟩
  · simp only [Crossbar.tick] at hd
    cases hpc : x.dispatcher a with
    | reading => rw [hpc] at hd; cases hd
    | delay m' d' =>
        rw [hpc] at hd
        cases hd
        exact h.delay a m d' hpc
    | adding b m' => rw [hpc] at hd; cases hd
  · simp only [Crossbar.tick] at hd
    cases hpc : x.dispatcher a with
    | reading => rw [hpc] at hd; cases hd
    | delay m' d' => rw [hpc] at hd; cases hd
    | adding b' m' =>
        rw [hpc] at hd
        cases hd
        exact h.adding a b m hpc

/-- A property that routing carries over is kept as long as it holds of what is put. -/
theorem Holds.step {x' : Crossbar A B T MSG} {l : Label A B T MSG} (h : Holds P Q x)
    (hi : Inv route x) (hs : CrossbarStep route x l x')
    (hroute : ∀ a m b m', P a m → route a m = some (b, m') → Q b m')
    (hcall : ∀ a t m, l = .call a t m → P a m) : Holds P Q x' := by
  cases hs with
  | @call a t m hb =>
      have hp := h.put (t := t) hi (hcall a t m rfl)
      exact ⟨hp.blocked, hp.written, hp.delay, hp.adding, hp.output⟩
  | @resumePut a t m hb hw => exact h.put hi (h.blocked a t m hb)
  | read hd hr => exact h.dispRead hi
  | @route a b m m' hd hr =>
      have hq := hroute a m b m' (h.delay a m true hd) hr
      refine ⟨h.blocked, h.written, fun a' m₁ due e => ?_, fun a' b₁ m₁ e => ?_, h.output⟩
      · by_cases ha : a' = a
        · subst ha; simp [Crossbar.dispRoute] at e
        · exact h.delay a' m₁ due (by simpa [Crossbar.dispRoute, ha] using e)
      · by_cases ha : a' = a
        · subst ha
          obtain ⟨rfl, rfl⟩ : b = b₁ ∧ m' = m₁ := by simpa [Crossbar.dispRoute] using e
          exact hq
        · exact h.adding a' b₁ m₁ (by simpa [Crossbar.dispRoute, ha] using e)
  | add hd hw => exact h.dispAdd hi hd
  | get hg => exact h.get hi

/-- What a `get` returns has the property of its port. -/
theorem Holds.get_result {x' : Crossbar A B T MSG} {b : B} {m : MSG} (h : Holds P Q x)
    (hi : Inv route x) (hs : CrossbarStep route x (.get b (some m)) x') : Q b m := by
  obtain ⟨-, hr⟩ := Channel.read_spec (hi.output b)
  generalize hg : Label.get b (some m) = l at hs
  cases hs with
  | @get b' hc =>
      obtain ⟨rfl, hm⟩ : b = b' ∧ some m = (x.output b').read.1 := by simpa [Crossbar.get] using hg
      generalize (x.output b).read = r at hr hm
      cases hr with
      | suspend _ => cases hm
      | @take w p rest c' hq _ _ _ _ _ =>
          cases hm
          have hmem : (w, m) ∈ (x.output b).queued := by rw [hq]; exact .head _
          exact h.output b (w, m) (List.mem_of_mem_drop hmem)
  | _ => cases hg

/-- A step changes which calls of `put` are blocked only where it tries one. -/
theorem blocked_of_step {x' : Crossbar A B T MSG} {l : Label A B T MSG}
    (hs : CrossbarStep route x l x') :
    match l with
    | .call a _ _ => ∀ a', a' ≠ a → x'.blocked a' = x.blocked a'
    | .resumePut a _ _ => ∀ a', a' ≠ a → x'.blocked a' = x.blocked a'
    | _ => x'.blocked = x.blocked := by
  cases hs with
  | call m hb => exact fun a' ha => Function.update_of_ne ha _ _
  | resumePut hb hw => exact fun a' ha => Function.update_of_ne ha _ _
  | read hd hr => rfl
  | route hd hr => rfl
  | add hd hw => rfl
  | get hg => rfl

omit [DecidableEq B] in
/-- A try of `put` ends with the message in the queue or held back. -/
theorem blocked_put_self (x : Crossbar A B T MSG) (a : A) (t : T) (m : MSG) :
    (x.put a t m).blocked a t = none ∨ (x.put a t m).blocked a t = some m := by
  simp only [Crossbar.put, Function.update_self]
  split
  · exact .inl rfl
  · exact .inr rfl

/-! ## 5. What a step adds to the histories -/

/-- The call of `put` at `a` that returns in a step, with its thread. -/
def Label.completes (x' : Crossbar A B T MSG) (a : A) : Label A B T MSG → List (T × MSG)
  | .call a' t m => if a' = a ∧ (x'.blocked a' t).isNone then [(t, m)] else []
  | .resumePut a' t m => if a' = a ∧ (x'.blocked a' t).isNone then [(t, m)] else []
  | _ => []

/-- The message a step writes to the input queue of `a`. -/
def Label.enters (x' : Crossbar A B T MSG) (a : A) : Label A B T MSG → List MSG
  | .call a' t m => if a' = a ∧ (x'.blocked a' t).isNone then [m] else []
  | .resumePut a' t m => if a' = a ∧ (x'.blocked a' t).isNone then [m] else []
  | _ => []

/-- The call of `put` at `a` that a step makes. -/
def Label.called (a : A) : Label A B T MSG → List (T × MSG)
  | .call a' t m => if a' = a then [(t, m)] else []
  | _ => []

/-- The message a step hands over at `b`. -/
def Label.leaves (b : B) : Label A B T MSG → List MSG
  | .get b' r => if b' = b then r.toList else []
  | _ => []

theorem calls_step {x' : Crossbar A B T MSG} {l : Label A B T MSG} (hs : CrossbarStep route x l x')
    (a : A) : x'.calls a = x.calls a ++ l.called a := by
  cases hs with
  | @call a' t m hb =>
      by_cases ha : a = a'
      · subst ha
        simp [Crossbar.call, Label.called]
      · simp [Crossbar.call, Crossbar.put, Label.called, ha, Ne.symm ha]
  | _ => exact (List.append_nil _).symm

theorem written_put (h : Inv route x) (a : A) (t : T) (m : MSG) (a' : A) :
    ((x.put a t m).input a').written = (x.input a').written ++
      if a = a' ∧ ((x.put a t m).blocked a t).isNone then [(t, m)] else [] := by
  obtain ⟨-, hw⟩ := Channel.write_spec (h.input a) t m
  unfold Crossbar.put
  generalize (x.input a).write t m = r at hw
  by_cases ha : a = a'
  · subst ha
    cases hw with
    | suspend _ => simp
    | append _ _ _ hwr _ _ => simp [hwr]
  · simp [ha, Ne.symm ha]

/-- Only a `put` that returns writes to an input queue. -/
theorem written_step_tagged {x' : Crossbar A B T MSG} {l : Label A B T MSG} (h : Inv route x)
    (hs : CrossbarStep route x l x') (a : A) :
    (x'.input a).written = (x.input a).written ++ l.completes x' a := by
  cases hs with
  | call m hb => exact written_put h _ _ m a
  | resumePut hb hw => exact written_put h _ _ _ a
  | @read a' hd hr =>
      obtain ⟨-, hsp⟩ := Channel.read_spec (h.input a')
      unfold Crossbar.dispRead
      generalize (x.input a').read = r at hsp
      simp only [Label.completes, List.append_nil]
      by_cases ha : a = a'
      · subst ha
        cases hsp with
        | suspend _ => simp
        | take _ _ _ hwr _ _ => simp [hwr]
      · simp [ha]
  | route hd hr => exact (List.append_nil _).symm
  | add hd hw => exact (List.append_nil _).symm
  | get hg => exact (List.append_nil _).symm

omit [DecidableEq B] [DecidableEq T] in
theorem Label.map_completes (x' : Crossbar A B T MSG) (a : A) (l : Label A B T MSG) :
    (l.completes x' a).map Prod.snd = l.enters x' a := by
  cases l with
  | call a' t m =>
      simp only [Label.completes, Label.enters]
      split <;> rfl
  | resumePut a' t m =>
      simp only [Label.completes, Label.enters]
      split <;> rfl
  | dispatch a' => rfl
  | get b r => rfl

/-- The same, for the messages alone. -/
theorem written_step {x' : Crossbar A B T MSG} {l : Label A B T MSG} (h : Inv route x)
    (hs : CrossbarStep route x l x') (a : A) :
    (x'.input a).written.map Prod.snd = (x.input a).written.map Prod.snd ++ l.enters x' a := by
  rw [written_step_tagged h hs a, List.map_append, Label.map_completes]

/-- Only a `get` takes from an output queue, and what it takes one dispatcher has written. -/
theorem handed_step {x' : Crossbar A B T MSG} {l : Label A B T MSG} (h : Inv route x)
    (hs : CrossbarStep route x l x') (b : B) :
    ∃ out, out.map Prod.snd = l.leaves b ∧
      (x'.output b).handed = (x.output b).handed ++ out := by
  cases hs with
  | call m hb => exact ⟨[], rfl, (List.append_nil _).symm⟩
  | resumePut hb hw => exact ⟨[], rfl, (List.append_nil _).symm⟩
  | read hd hr => exact ⟨[], rfl, (List.append_nil _).symm⟩
  | route hd hr => exact ⟨[], rfl, (List.append_nil _).symm⟩
  | @add a b' m hd hw =>
      obtain ⟨-, hsp⟩ := Channel.write_spec (h.output b') a m
      unfold Crossbar.dispAdd
      generalize (x.output b').write a m = r at hsp
      refine ⟨[], rfl, ?_⟩
      by_cases hb : b = b'
      · subst hb
        cases hsp with
        | suspend _ => simp [Channel.handed]
        | append _ _ hh _ _ _ => simp [hh]
      · simp [hb]
  | @get b' hg =>
      obtain ⟨-, hsp⟩ := Channel.read_spec (h.output b')
      unfold Crossbar.get
      generalize (x.output b').read = r at hsp
      by_cases hb : b' = b
      · subst hb
        cases hsp with
        | suspend _ => exact ⟨[], by simp [Label.leaves], by simp [Channel.handed]⟩
        | @take a m rest c' _ _ hh _ _ _ =>
            exact ⟨[(a, m)], by simp [Label.leaves], by simpa using hh⟩
      · exact ⟨[], by simp [Label.leaves, hb], by simp [Ne.symm hb]⟩

section Histories

/-- The labels of a run, each with the state behind it. -/
abbrev Trace (A : Type u) (B : Type v) (T : Type w) (MSG : Type z) :=
  List (Label A B T MSG × Crossbar A B T MSG)

variable {tr : Trace A B T MSG}

/-- The calls of `put` at `a`. -/
def called (tr : Trace A B T MSG) (a : A) : List (T × MSG) := tr.flatMap fun e => e.1.called a

/-- The calls of `put` at `a` that have returned, in this order. -/
def completed (tr : Trace A B T MSG) (a : A) : List (T × MSG) :=
  tr.flatMap fun e => e.1.completes e.2 a

/-- What the calls of `get` at `b` have returned. -/
def returned (tr : Trace A B T MSG) (b : B) : List MSG := tr.flatMap fun e => e.1.leaves b

/-- The histories of the queues are what the callers of `put` and `get` have seen. -/
structure Histories (tr : Trace A B T MSG) (x : Crossbar A B T MSG) : Prop where
  calls : ∀ a, x.calls a = called tr a
  written : ∀ a, (x.input a).written = completed tr a
  handed : ∀ b, (x.output b).handed.map Prod.snd = returned tr b

omit [DecidableEq T] in
theorem histories_new [Inhabited MSG] : Histories [] (new : Crossbar A B T MSG) :=
  ⟨fun _ => rfl, fun _ => rfl, fun _ => rfl⟩

omit [DecidableEq T] in
theorem Histories.tick (h : Histories tr x) (due : A → Bool) : Histories tr (x.tick due) :=
  ⟨h.calls, h.written, h.handed⟩

theorem Histories.step {x' : Crossbar A B T MSG} {l : Label A B T MSG} (h : Histories tr x)
    (hi : Inv route x) (hs : CrossbarStep route x l x') : Histories (tr ++ [(l, x')]) x' := by
  refine ⟨fun a => ?_, fun a => ?_, fun b => ?_⟩
  · rw [calls_step hs a, h.calls a]
    simp [Crossbar.called]
  · rw [written_step_tagged hi hs a, h.written a]
    simp [completed]
  · obtain ⟨out, hout, hh⟩ := handed_step hi hs b
    rw [hh, List.map_append, hout, h.handed b]
    simp [returned]

end Histories

/-! ## 6. Messages without a route -/

/-- The message has no route. -/
def unrouted (route : A → MSG → Option (B × MSG)) (a : A) (m : MSG) : Bool := (route a m).isNone

/-- The message without a route that a dispatcher has stopped at. -/
def stuck (route : A → MSG → Option (B × MSG)) (a : A) : DispatcherPc B MSG → List MSG
  | .reading => []
  | .delay m _ => [m].filter (unrouted route a)
  | .adding _ _ => []

/-- A dispatcher never gets past a message without a route. -/
def Stops (route : A → MSG → Option (B × MSG)) (x : Crossbar A B T MSG) : Prop :=
  ∀ a, ((x.input a).handed.map Prod.snd).filter (unrouted route a) = stuck route a (x.dispatcher a)

omit [DecidableEq A] [DecidableEq B] [DecidableEq T] in
theorem stops_new [Inhabited MSG] : Stops route (new : Crossbar A B T MSG) := fun _ => rfl

omit [DecidableEq A] [DecidableEq B] [DecidableEq T] in
theorem Stops.tick (h : Stops route x) (due : A → Bool) : Stops route (x.tick due) := by
  intro a
  rw [show ((x.tick due).input a).handed = (x.input a).handed from rfl, h a]
  simp only [Crossbar.tick]
  cases x.dispatcher a <;> rfl

theorem Stops.step {x' : Crossbar A B T MSG} {l : Label A B T MSG} (hst : Stops route x)
    (h : Inv route x) (hs : CrossbarStep route x l x') : Stops route x' := by
  intro a
  have ha := hst a
  cases hs with
  | call m hb =>
      rw [show ((x.call _ _ m).input a).handed = (x.input a).handed from
        (h.put (.inl hb)).2.2.1 a]
      exact ha
  | resumePut hb hw =>
      rw [(h.put (.inr hb)).2.2.1 a]
      exact ha
  | @read a' hd hr =>
      obtain ⟨-, hsp⟩ := Channel.read_spec (h.input a')
      unfold Crossbar.dispRead
      generalize (x.input a').read = r at hsp
      by_cases e : a = a'
      · subst e
        rw [hd, stuck] at ha
        cases hsp with
        | suspend _ => simpa [Channel.handed, stuck] using ha
        | take _ _ hh _ _ _ =>
            simp only [Function.update_self, hh, List.map_append, List.filter_append, ha, stuck]
            rfl
      · simpa [e] using ha
  | @route a' b m m' hd hr =>
      by_cases e : a = a'
      · subst e
        rw [hd] at ha
        simpa [Crossbar.dispRoute, stuck, unrouted, hr] using ha
      · simpa [Crossbar.dispRoute, e] using ha
  | @add a' b m hd hw =>
      by_cases e : a = a'
      · subst e
        rw [hd, stuck] at ha
        rw [show ((x.dispAdd a b m).input a).handed = (x.input a).handed from rfl, ha]
        simp only [Crossbar.dispAdd, Function.update_self]
        split <;> rfl
      · simpa [Crossbar.dispAdd, e] using ha
  | get hg => exact ha

/-- The messages of `a` without a route, in the order of their puts. -/
def strays (route : A → MSG → Option (B × MSG)) (x : Crossbar A B T MSG) (a : A) : List MSG :=
  stuck route a (x.dispatcher a) ++
    ((x.input a).queued.map Prod.snd).filter (unrouted route a)

omit [DecidableEq A] [DecidableEq B] [DecidableEq T] in
theorem filter_unrouted (h : Stops route x) (a : A) :
    ((x.input a).written.map Prod.snd).filter (unrouted route a) = strays route x a := by
  rw [strays, ← h a, ← List.filter_append, ← List.map_append, Channel.handed_append_queued]

end Crossbar

end Rabbits
