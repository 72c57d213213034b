/-
  File:      Rabbits/Noc/Drain.lean
  Subject:   The bus works off what is put: every request is answered after a bounded number of steps.

  A message has a load that falls from place to place on its way: held by a blocked `put`, in the
  queue of its port, in the dispatcher before, in and behind its timed wait, in the queue of the
  other side, being served. A step that moves no message puts a thread to sleep, and a message that
  moves wakes at most those that wait for its queue.

  * `Channel.awake`, `read_falls`, `write_falls` -- a try of `Read` or `Write`;
  * `Crossbar.load`, `Crossbar.wake`, `step_falls`, `tick_load` -- a step of a dispatcher direction;
  * `Bus.load`, `Bus.rank`, `bus_falls` -- **a step of the bus without a new call lowers the rank**;
  * `exists_work` -- while something is in flight there is such a step;
  * `bus_drains` -- **every run without new calls is at most as long as the rank, and where it cannot
    go on, every request is served and every response delivered**.
-/
import Rabbits.Lib.Drain
import Rabbits.Noc.Order
import Rabbits.Noc.Progress

namespace Rabbits

open Lib Crossbar

universe u v w z

/-! ## 1. A queue -/

/-- Whether a thread is on the way to try again. -/
def Wait.awake : Wait → Nat
  | .asleep => 0
  | _ => 1

theorem Wait.awake_le (w : Wait) : w.awake ≤ 1 := by
  cases w <;> decide

theorem Wait.awake_of_ne {w : Wait} (h : w ≠ .asleep) : w.awake = 1 := by
  cases w with
  | asleep => exact absurd rfl h
  | running => rfl
  | notified => rfl

section Channel

variable {W : Type v} {ITEM : Type u} [Fintype W]

/-- The threads of a queue that are on the way to try again. -/
def Channel.awake (c : Channel W ITEM) : Nat := c.canRead.awake + ∑ w, (c.canWrite w).awake

theorem sum_awake_le (f : W → Wait) : ∑ w, (f w).awake ≤ Fintype.card W := by
  have h := Finset.sum_le_card_nsmul Finset.univ (fun w => (f w).awake) 1 fun w _ => (f w).awake_le
  simpa using h

/-- A try of `Read` by a thread that is awake: it falls asleep, or takes an item. -/
theorem Channel.read_falls {c : Channel W ITEM} (h : c.Ok) (hr : c.canRead ≠ .asleep) :
    (c.read.1 = none ∧ c.read.2.queued.length = c.queued.length ∧ c.read.2.awake < c.awake) ∨
      ∃ p, c.read.1 = some p ∧ c.read.2.queued.length + 1 = c.queued.length ∧
        c.read.2.awake ≤ c.awake + Fintype.card W := by
  obtain ⟨-, hs⟩ := Channel.read_spec h
  have h1 := Wait.awake_of_ne hr
  generalize c.read = r at hs
  cases hs with
  | suspend hq =>
      refine .inl ⟨rfl, rfl, ?_⟩
      show Wait.asleep.awake + ∑ w, (c.canWrite w).awake < c.canRead.awake + _
      rw [h1, show Wait.asleep.awake = 0 from rfl]
      omega
  | @take w p rest c' hq hq' hh hwr hrun hw =>
      refine .inr ⟨p, rfl, ?_, ?_⟩
      · show c'.queued.length + 1 = _
        rw [hq, hq', List.length_cons]
      · have hle := sum_awake_le c'.canWrite
        show c'.canRead.awake + ∑ w, (c'.canWrite w).awake ≤ c.canRead.awake + _ + _
        rw [h1, hrun, show Wait.running.awake = 1 from rfl]
        omega

variable [DecidableEq W]

/-- The writers of a queue after one of them has tried. -/
theorem sum_awake_update (f : W → Wait) (w : W) (v : Wait) :
    ∑ x, (Function.update f w v x).awake + (f w).awake = ∑ x, (f x).awake + v.awake := by
  have h := sum_add_of_eq_off (f := fun x => (Function.update f w v x).awake)
    (g := fun x => (f x).awake) (i := w) fun x hx => by rw [Function.update_of_ne hx]
  rwa [Function.update_self] at h

/-- A try of `Write`: its thread falls asleep, or appends its item. -/
theorem Channel.write_falls {c : Channel W ITEM} (h : c.Ok) (w : W) (p : ITEM) :
    ((c.write w p).1 = false ∧ (c.write w p).2.queued.length = c.queued.length ∧
        (c.write w p).2.awake ≤ c.awake ∧
        (c.canWrite w ≠ .asleep → (c.write w p).2.awake < c.awake)) ∨
      (c.write w p).1 = true ∧ (c.write w p).2.queued.length = c.queued.length + 1 ∧
        (c.write w p).2.awake ≤ c.awake + 2 := by
  obtain ⟨-, hs⟩ := Channel.write_spec h w p
  generalize c.write w p = r at hs
  cases hs with
  | suspend hq =>
      have hsum := sum_awake_update c.canWrite w .asleep
      rw [show Wait.asleep.awake = 0 from rfl] at hsum
      refine .inl ⟨rfl, rfl, ?_, fun hw => ?_⟩
      · show c.canRead.awake + ∑ x, (Function.update c.canWrite w .asleep x).awake ≤
          c.canRead.awake + _
        omega
      · have h1 := Wait.awake_of_ne hw
        show c.canRead.awake + ∑ x, (Function.update c.canWrite w .asleep x).awake <
          c.canRead.awake + _
        omega
  | @append c' hfull hq hh hwr hr hw =>
      have hsum := sum_awake_update c.canWrite w .running
      have hread := c'.canRead.awake_le
      rw [show Wait.running.awake = 1 from rfl] at hsum
      refine .inr ⟨rfl, ?_, ?_⟩
      · show c'.queued.length = _
        rw [hq, List.length_append, List.length_singleton]
      · show c'.canRead.awake + ∑ x, (c'.canWrite x).awake ≤ c.canRead.awake + _ + 2
        rw [hw]
        omega

end Channel

/-! ## 2. One direction of the interconnect -/

section Crossbar

variable {A : Type u} {B : Type v} {T : Type w} {MSG : Type z}

/-- The load of a message in a dispatcher, `c` that of one in the queue behind it. -/
def DispatcherPc.load (c : Nat) : DispatcherPc B MSG → Nat
  | .reading => 0
  | .delay _ due => if due then c + 2 else c + 3
  | .adding _ _ => c + 1

/-- The load of a `put`. -/
def heldLoad (c : Nat) (held : Option MSG) : Nat := if held.isSome then c + 5 else 0

variable [Fintype A] [Fintype B] [Fintype T]

namespace Crossbar

/-- The load at one port. -/
def portLoad (c : Nat) (x : Crossbar A B T MSG) (a : A) : Nat :=
  (x.input a).queued.length * (c + 4) + (x.dispatcher a).load c + ∑ t, heldLoad c (x.blocked a t)

/-- The load of all messages. -/
def load (c : Nat) (x : Crossbar A B T MSG) : Nat :=
  ∑ a, x.portLoad c a + ∑ b, (x.output b).queued.length * c

/-- The threads that are on the way to try again. -/
def wake (x : Crossbar A B T MSG) : Nat := ∑ a, (x.input a).awake + ∑ b, (x.output b).awake

variable (A B T) in
/-- How many one step can wake. -/
def wakeBound : Nat := Fintype.card A + Fintype.card B + Fintype.card T + 2

variable {route : A → MSG → Option (B × MSG)} {x x' : Crossbar A B T MSG}

/-- A step at the port `a` alone. -/
theorem load_port [DecidableEq A] (x x' : Crossbar A B T MSG) (c : Nat) (a : A)
    (hin : ∀ a', a' ≠ a → x'.input a' = x.input a')
    (hd : ∀ a', a' ≠ a → x'.dispatcher a' = x.dispatcher a')
    (hb : ∀ a', a' ≠ a → x'.blocked a' = x.blocked a') (hout : x'.output = x.output) :
    x'.load c + x.portLoad c a = x.load c + x'.portLoad c a ∧
      x'.wake + (x.input a).awake = x.wake + (x'.input a).awake := by
  have hl := sum_add_of_eq_off (f := x'.portLoad c) (g := x.portLoad c) (i := a) fun a' ha => by
    rw [portLoad, portLoad, hin a' ha, hd a' ha, hb a' ha]
  have hw := sum_add_of_eq_off (f := fun a => (x'.input a).awake) (g := fun a => (x.input a).awake)
    (i := a) fun a' ha => by rw [hin a' ha]
  unfold load wake
  rw [hout]
  omega

/-- A step at the queue of `b` alone. -/
theorem load_output [DecidableEq B] (x x' : Crossbar A B T MSG) (c : Nat) (b : B)
    (hin : x'.input = x.input)
    (hd : x'.dispatcher = x.dispatcher) (hb : x'.blocked = x.blocked)
    (hout : ∀ b', b' ≠ b → x'.output b' = x.output b') :
    x'.load c + (x.output b).queued.length * c = x.load c + (x'.output b).queued.length * c ∧
      x'.wake + (x.output b).awake = x.wake + (x'.output b).awake := by
  have hl := sum_add_of_eq_off (f := fun b => (x'.output b).queued.length * c)
    (g := fun b => (x.output b).queued.length * c) (i := b) fun b' hb' => by rw [hout b' hb']
  have hw := sum_add_of_eq_off (f := fun b => (x'.output b).awake)
    (g := fun b => (x.output b).awake) (i := b) fun b' hb' => by rw [hout b' hb']
  have hp : x'.portLoad c = x.portLoad c := by
    funext a
    rw [portLoad, portLoad, hin, hd, hb]
  unfold load wake
  rw [hp, hin]
  omega

variable [DecidableEq A] [DecidableEq B] [DecidableEq T]

omit [Fintype A] [Fintype B] [DecidableEq B] in
/-- The load at a port after a try of `put`: the message is held back, or in the queue. -/
theorem portLoad_put (c : Nat) (x : Crossbar A B T MSG) (a : A) (t : T) (m : MSG) :
    (x.put a t m).portLoad c a + (x.input a).queued.length * (c + 4) + heldLoad c (x.blocked a t) =
      x.portLoad c a + ((x.input a).write t m).2.queued.length * (c + 4) +
        if ((x.input a).write t m).1 then 0 else c + 5 := by
  have hsum := sum_add_of_eq_off
    (f := fun u => heldLoad c (Function.update (x.blocked a) t
      (if ((x.input a).write t m).1 then none else some m) u))
    (g := fun u => heldLoad c (x.blocked a u)) (i := t)
    fun u hu => by rw [Function.update_of_ne hu]
  have hheld : heldLoad c (if ((x.input a).write t m).1 then none else some m) =
      if ((x.input a).write t m).1 then 0 else c + 5 := by
    split <;> rfl
  rw [Function.update_self, hheld] at hsum
  simp only [portLoad, put, Function.update_self]
  omega

/-- **A try of `put`.** -/
theorem put_falls {c : Nat} (h : Inv route x) (a : A) (t : T) (m : MSG) :
    (x.put a t m).load c + heldLoad c (x.blocked a t) ≤ x.load c + (c + 5) ∧
      (x.put a t m).wake ≤ x.wake + wakeBound A B T ∧
      (x.blocked a t = some m → (x.input a).canWrite t ≠ .asleep →
        Falls (wakeBound A B T) (x.load c) x.wake ((x.put a t m).load c) (x.put a t m).wake) := by
  obtain ⟨hl, hw⟩ := load_port x (x.put a t m) c a
    (fun a' ha => Function.update_of_ne ha _ _) (fun _ _ => rfl)
    (fun a' ha => Function.update_of_ne ha _ _) rfl
  have hp := portLoad_put c x a t m
  have hin : (x.put a t m).input a = ((x.input a).write t m).2 := Function.update_self _ _ _
  have hheld : x.blocked a t = some m → heldLoad c (x.blocked a t) = c + 5 := fun e => by
    rw [e]
    rfl
  rw [hin] at hw
  rcases Channel.write_falls (h.input a) t m with ⟨hr, hq, hle, hlt⟩ | ⟨hr, hq, hle⟩
  · rw [hr, hq, if_neg Bool.false_ne_true] at hp
    refine ⟨by omega, by unfold wakeBound; omega, fun hb hs => .inr ⟨?_, ?_⟩⟩
    · have := hheld hb
      omega
    · have := hlt hs
      omega
  · rw [hr, hq, if_pos rfl, Nat.add_mul] at hp
    refine ⟨by omega, by unfold wakeBound; omega, fun hb _ => .inl ⟨?_, ?_⟩⟩
    · have := hheld hb
      omega
    · unfold wakeBound
      omega

/-- **A step of a dispatcher.** -/
theorem dispatch_falls {c : Nat} (h : Inv route x) {a : A}
    (hs : CrossbarStep route x (.dispatch a) x') :
    Falls (wakeBound A B T) (x.load c) x.wake (x'.load c) x'.wake := by
  cases hs with
  | read hd hr =>
      obtain ⟨hl, hw⟩ := load_port x (x.dispRead a) c a
        (fun a' ha => Function.update_of_ne ha _ _) (fun a' ha => Function.update_of_ne ha _ _)
        (fun _ _ => rfl) rfl
      have hin : (x.dispRead a).input a = (x.input a).read.2 := Function.update_self _ _ _
      have hb : (x.dispRead a).blocked = x.blocked := rfl
      simp only [portLoad, hd, hin, hb] at hl hw
      rcases Channel.read_falls (h.input a) hr with ⟨hnone, hq, hlt⟩ | ⟨m, hsome, hq, hle⟩
      · have hd' : (x.dispRead a).dispatcher a = .reading := by
          simp only [dispRead, Function.update_self, hnone]
        rw [hd', hq] at hl
        exact .inr ⟨by omega, by omega⟩
      · have hd' : (x.dispRead a).dispatcher a = .delay m false := by
          simp only [dispRead, Function.update_self, hsome]
        have hload : (DispatcherPc.delay m false : DispatcherPc B MSG).load c = c + 3 := rfl
        have hzero : (DispatcherPc.reading : DispatcherPc B MSG).load c = 0 := rfl
        rw [hd', hload, hzero, ← hq, Nat.add_mul] at hl
        refine .inl ⟨by omega, ?_⟩
        unfold wakeBound
        omega
  | @route _ b m m' hd hr =>
      obtain ⟨hl, hw⟩ := load_port x (x.dispRoute a b m') c a
        (fun _ _ => rfl) (fun a' ha => Function.update_of_ne ha _ _) (fun _ _ => rfl) rfl
      have hd' : (x.dispRoute a b m').dispatcher a = .adding b m' := Function.update_self _ _ _
      have hload : (DispatcherPc.delay m true : DispatcherPc B MSG).load c = c + 2 := rfl
      have hload' : (DispatcherPc.adding b m' : DispatcherPc B MSG).load c = c + 1 := rfl
      have hin : (x.dispRoute a b m').input = x.input := rfl
      have hb : (x.dispRoute a b m').blocked = x.blocked := rfl
      simp only [portLoad, hd, hd', hload, hload', hin, hb] at hl
      rw [hin] at hw
      exact .inl ⟨by omega, by omega⟩
  | @add _ b m hd hw =>
      -- first the dispatcher, then the queue behind it
      obtain ⟨y, hin, hb, hout, hd', hoff⟩ : ∃ y : Crossbar A B T MSG, y.input = x.input ∧
          y.blocked = x.blocked ∧ y.output = x.output ∧
          y.dispatcher = (x.dispAdd a b m).dispatcher ∧
          ∀ a', a' ≠ a → y.dispatcher a' = x.dispatcher a' :=
        ⟨{ x with dispatcher := (x.dispAdd a b m).dispatcher }, rfl, rfl, rfl, rfl,
          fun a' ha => Function.update_of_ne ha _ _⟩
      obtain ⟨hl, hwl⟩ := load_port x y c a (fun _ _ => by rw [hin])
        hoff (fun _ _ => by rw [hb]) hout
      obtain ⟨ho, hwo⟩ := load_output y (x.dispAdd a b m) c b hin.symm
        hd'.symm hb.symm fun b' hb' => by
          rw [hout]
          exact Function.update_of_ne hb' _ _
      have hnew : (x.dispAdd a b m).output b = ((x.output b).write a m).2 :=
        Function.update_self _ _ _
      have hpc : y.dispatcher a = if ((x.output b).write a m).1 then .reading else .adding b m := by
        rw [hd']
        exact Function.update_self _ _ _
      have hload : (DispatcherPc.adding b m : DispatcherPc B MSG).load c = c + 1 := rfl
      have hzero : (DispatcherPc.reading : DispatcherPc B MSG).load c = 0 := rfl
      rw [portLoad, portLoad, hin, hb, hd, hpc, hload] at hl
      rw [hin] at hwl
      rw [hnew, hout] at ho hwo
      rcases Channel.write_falls (h.output b) a m with ⟨hr, hq, -, hlt⟩ | ⟨hr, hq, hle⟩
      · have := hlt hw
        rw [hr, if_neg Bool.false_ne_true, hload] at hl
        rw [hq] at ho
        exact .inr ⟨by omega, by omega⟩
      · rw [hr, if_pos rfl, hzero] at hl
        rw [hq, Nat.add_mul] at ho
        refine .inl ⟨by omega, ?_⟩
        unfold wakeBound
        omega

/-- **A try of `get`.** -/
theorem get_falls {c : Nat} (h : Inv route x) {b : B} (hr : (x.output b).canRead ≠ .asleep) :
    ((x.get b).1 = none ∧ (x.get b).2.load c = x.load c ∧ (x.get b).2.wake < x.wake) ∨
      (x.get b).1.isSome ∧ (x.get b).2.load c + c = x.load c ∧
        (x.get b).2.wake ≤ x.wake + wakeBound A B T := by
  obtain ⟨hl, hw⟩ := load_output x ((x.get b).2) c b rfl rfl rfl
    fun b' hb' => Function.update_of_ne hb' _ _
  have hout : (x.get b).2.output b = (x.output b).read.2 := Function.update_self _ _ _
  rw [hout] at hl hw
  rcases Channel.read_falls (h.output b) hr with ⟨hnone, hq, hlt⟩ | ⟨m, hsome, hq, hle⟩
  · rw [hq] at hl
    exact .inl ⟨hnone, by omega, by omega⟩
  · rw [← hq, Nat.add_mul] at hl
    have hone : (x.get b).1.isSome = true := by
      show (x.output b).read.1.isSome = true
      rw [hsome]
      rfl
    refine .inr ⟨hone, by omega, ?_⟩
    unfold wakeBound
    omega

omit [Fintype A] [Fintype B] [Fintype T] [DecidableEq A] [DecidableEq B] [DecidableEq T] in
theorem tick_delay {a : A} {m : MSG} {d : Bool} (hd : x.dispatcher a = .delay m d)
    (due : A → Bool) : (x.tick due).dispatcher a = .delay m (d || due a) := by
  simp only [tick, hd]

omit [Fintype A] [Fintype B] [Fintype T] [DecidableEq A] [DecidableEq B] [DecidableEq T] in
theorem tick_other {a : A} (hd : ∀ m d, x.dispatcher a ≠ .delay m d) (due : A → Bool) :
    (x.tick due).dispatcher a = x.dispatcher a := by
  cases hpc : x.dispatcher a with
  | delay m d => exact absurd hpc (hd m d)
  | reading => simp only [tick, hpc]
  | adding b m => simp only [tick, hpc]

omit [DecidableEq A] [DecidableEq B] [DecidableEq T] in
/-- **Time that passes**: it ends some timed wait, or changes nothing. -/
theorem tick_falls (c : Nat) (x : Crossbar A B T MSG) (due : A → Bool) :
    x.tick due = x ∨ (x.tick due).load c < x.load c ∧ (x.tick due).wake = x.wake := by
  by_cases hdue : ∀ a m, x.dispatcher a = .delay m false → due a = false
  · refine .inl ?_
    have hd : (x.tick due).dispatcher = x.dispatcher := by
      funext a
      cases hpc : x.dispatcher a with
      | reading => exact (tick_other (fun m d h => by rw [hpc] at h; cases h) due).trans hpc
      | adding b m => exact (tick_other (fun m d h => by rw [hpc] at h; cases h) due).trans hpc
      | delay m d =>
          cases d with
          | true => exact tick_delay hpc due
          | false => rw [tick_delay hpc due, hdue a m hpc, Bool.or_false]
    obtain ⟨input, blocked, calls, dispatcher, output⟩ := x
    exact congrArg (fun d => Crossbar.mk input blocked calls d output) hd
  · refine .inr ⟨?_, rfl⟩
    obtain ⟨a, hm⟩ := not_forall.mp hdue
    obtain ⟨m, hm⟩ := not_forall.mp hm
    obtain ⟨hpc, hdue⟩ := Classical.not_imp.mp hm
    have hle : ∀ a, (x.tick due).portLoad c a ≤ x.portLoad c a := by
      intro a
      have hd : ((x.tick due).dispatcher a).load c ≤ (x.dispatcher a).load c := by
        cases hpc : x.dispatcher a with
        | reading => rw [tick_other (fun m d h => by rw [hpc] at h; cases h) due, hpc]
        | adding b m => rw [tick_other (fun m d h => by rw [hpc] at h; cases h) due, hpc]
        | delay m d =>
            rw [tick_delay hpc due]
            cases d <;> cases due a <;> simp [DispatcherPc.load]
      show _ + ((x.tick due).dispatcher a).load c + _ ≤ _ + (x.dispatcher a).load c + _
      exact Nat.add_le_add_right (Nat.add_le_add_left hd _) _
    have hlt : (x.tick due).portLoad c a < x.portLoad c a := by
      have hd : (x.tick due).dispatcher a = .delay m true := by
        rw [tick_delay hpc due, Bool.eq_true_of_not_eq_false hdue, Bool.or_true]
      show _ + ((x.tick due).dispatcher a).load c + _ < _ + (x.dispatcher a).load c + _
      have h2 : (DispatcherPc.delay m true : DispatcherPc B MSG).load c = c + 2 := rfl
      have h3 : (DispatcherPc.delay m false : DispatcherPc B MSG).load c = c + 3 := rfl
      rw [hd, hpc, h2, h3]
      show _ + (c + 2) + ∑ t, heldLoad c (x.blocked a t) < _ + (c + 3) + _
      have hin : (x.tick due).input = x.input := rfl
      rw [hin]
      omega
    have hsum := Finset.sum_lt_sum (s := Finset.univ) (fun a _ => hle a)
      ⟨a, Finset.mem_univ a, hlt⟩
    show _ + ∑ b, (x.output b).queued.length * c < _ + _
    exact Nat.add_lt_add_right hsum _

omit [Fintype A] [Fintype B] [Fintype T] in
theorem get_cases {b : B} {res : Option MSG} (hs : CrossbarStep route x (.get b res) x') :
    (x.output b).canRead ≠ .asleep ∧ res = (x.get b).1 ∧ x' = (x.get b).2 := by
  generalize hlab : Label.get b res = lab at hs
  cases hs with
  | get hc =>
      cases hlab
      exact ⟨hc, rfl, rfl⟩
  | _ => cases hlab

omit [Fintype A] [Fintype B] [Fintype T] in
/-- A dispatcher that can run takes a step. -/
theorem exists_dispatch {a : A} (hrun : x.CanRun a)
    (hroute : ∀ m due, x.dispatcher a = .delay m due → (route a m).isSome) :
    ∃ x', CrossbarStep route x (.dispatch a) x' := by
  unfold CanRun at hrun
  cases hd : x.dispatcher a with
  | reading =>
      rw [hd] at hrun
      exact ⟨_, .read hd hrun⟩
  | delay m due =>
      rw [hd] at hrun
      obtain ⟨⟨b, m'⟩, hr⟩ := Option.isSome_iff_exists.mp (hroute m due hd)
      exact ⟨_, .route (hd.trans (congrArg _ hrun)) hr⟩
  | adding b m =>
      rw [hd] at hrun
      exact ⟨_, .add hd hrun⟩

omit [Fintype A] [Fintype B] [Fintype T] [DecidableEq A] [DecidableEq B] [DecidableEq T] in
/-- A timed wait ends when time passes. -/
theorem tick_ne {a : A} {m : MSG} (hd : x.dispatcher a = .delay m false) :
    x.tick (fun _ => true) ≠ x := by
  intro e
  have ha : (x.tick fun _ => true).dispatcher a = x.dispatcher a :=
    congrArg (fun y => y.dispatcher a) e
  have hd' : (x.tick fun _ => true).dispatcher a = .delay m true := by
    rw [tick_delay hd, Bool.or_true]
  rw [ha, hd] at hd'
  cases hd'

omit [Fintype A] [Fintype B] [Fintype T] [DecidableEq A] [DecidableEq B] [DecidableEq T] in
/-- A dispatcher that is enabled can run, or is in its timed wait. -/
theorem canRun_or_delay {a : A} (h : DispatcherEnabled route x a) :
    x.CanRun a ∨ ∃ m, x.dispatcher a = .delay m false := by
  unfold DispatcherEnabled at h
  unfold CanRun
  cases hd : x.dispatcher a with
  | reading =>
      rw [hd] at h
      exact .inl h
  | delay m due =>
      cases due with
      | true => exact .inl rfl
      | false => exact .inr ⟨m, rfl⟩
  | adding b m =>
      rw [hd] at h
      exact .inl h

end Crossbar

end Crossbar

/-! ## 3. The bus -/

section Bus

variable {n k : Nat} {D : Type u} {T : Type v} [Fintype T]

/-- The load of a request that is being served. -/
def SlavePc.load : SlavePc → Nat
  | .serving _ => 7
  | _ => 0

/-- The load of all requests and responses: the way back is shorter than the service, and both are
    shorter than the way there. -/
def Bus.load (x : Bus n k T D) : Nat :=
  x.net.req.load 8 + x.net.rsp.load 1 + ∑ s, (x.slave s).load

def Bus.wake (x : Bus n k T D) : Nat := x.net.req.wake + x.net.rsp.wake

variable (n k T) in
/-- How many threads one step can wake. -/
def busBound : Nat := n + k + Fintype.card T + 5

/-- How many steps the bus has left without a new call, at most. -/
def Bus.rank (x : Bus n k T D) : Nat := drainRank (busBound n k T) x.load x.wake

theorem wakeBound_req : wakeBound (Fin n) (Fin k) T ≤ busBound n k T := by
  simp only [wakeBound, busBound, Fintype.card_fin]
  omega

theorem wakeBound_rsp : wakeBound (Fin k) (Fin n) Unit ≤ busBound n k T := by
  simp only [wakeBound, busBound, Fintype.card_fin, Fintype.card_unit]
  omega

/-- A step that is not a call of a master, and changes something. -/
def BusLabel.Own : BusLabel n k T → Prop
  | .call _ _ _ => False
  | _ => True

variable [DecidableEq T] {setup : BusSetup n k D} {x x' : Bus n k T D}

omit [Fintype T] [DecidableEq T] in
/-- A slave alone. -/
theorem slave_load (s : Fin k) (pc : SlavePc) :
    ∑ s', (Function.update x.slave s pc s').load + (x.slave s).load =
      ∑ s', (x.slave s').load + pc.load := by
  have h := sum_add_of_eq_off (f := fun s' => (Function.update x.slave s pc s').load)
    (g := fun s' => (x.slave s').load) (i := s) fun s' hs => by rw [Function.update_of_ne hs]
  rwa [Function.update_self] at h

omit [DecidableEq T] in
/-- A step in the direction of the requests alone. -/
theorem Bus.falls_req (hslave : x'.slave = x.slave) (hrsp : x'.net.rsp = x.net.rsp)
    (h : Falls (wakeBound (Fin n) (Fin k) T) (x.net.req.load 8) x.net.req.wake
      (x'.net.req.load 8) x'.net.req.wake) :
    Falls (busBound n k T) x.load x.wake x'.load x'.wake := by
  have hf := h.add wakeBound_req (x.net.rsp.load 1 + ∑ s, (x.slave s).load) x.net.rsp.wake
  unfold Bus.load Bus.wake
  rw [hslave, hrsp]
  unfold Falls at hf ⊢
  omega

omit [DecidableEq T] in
/-- A step in the direction of the responses alone. -/
theorem Bus.falls_rsp (hslave : ∀ s, (x'.slave s).load = (x.slave s).load)
    (hreq : x'.net.req = x.net.req)
    (h : Falls (wakeBound (Fin k) (Fin n) Unit) (x.net.rsp.load 1) x.net.rsp.wake
      (x'.net.rsp.load 1) x'.net.rsp.wake) :
    Falls (busBound n k T) x.load x.wake x'.load x'.wake := by
  have hf := h.add (wakeBound_rsp (T := T)) (x.net.req.load 8 + ∑ s, (x.slave s).load)
    x.net.req.wake
  have hsum : ∑ s, (x'.slave s).load = ∑ s, (x.slave s).load :=
    Finset.sum_congr rfl fun s _ => hslave s
  unfold Bus.load Bus.wake
  rw [hsum, hreq]
  unfold Falls at hf ⊢
  omega

omit [Fintype T] in
/-- A slave in `get` takes what it gets, in every state of a run. -/
theorem BusInv.takes (h : BusInv setup (Admissible setup) x) {s : Fin k} {req : VciRequest}
    {r : Crossbar (Fin n) (Fin k) T VciRequest} (hg : x.slave s = .getting)
    (hr : CrossbarStep (dispatchRequestsThread setup.map) x.net.req (.get s (some req)) r) :
    slaveTakes (x.bProcessing s) (some req) = (.serving req, true) := by
  have hok := h.slave s
  rw [hg] at hok
  generalize hb : x.bProcessing s = b at hok
  generalize x.net.rsp.blocked s () = o at hok
  cases hok with
  | getting =>
      have ha := h.req.get_result h.net.req hr
      rw [slaveTakes, if_neg (by decide), if_pos (ha.cmd fun _ _ h => h.cmd)]

/-- What a step does to the bus as a whole. -/
abbrev BusFalls (x x' : Bus n k T D) : Prop :=
  Falls (busBound n k T) x.load x.wake x'.load x'.wake

section Steps

variable (h : BusInv setup (Admissible setup) x)
include h

theorem resumePut_falls {m : Fin n} {t : T} {req : VciRequest}
    {r : Crossbar (Fin n) (Fin k) T VciRequest}
    (hr : CrossbarStep (dispatchRequestsThread setup.map) x.net.req (.resumePut m t req) r) :
    BusFalls x { x with net := { x.net with req := r } } := by
  cases hr with
  | resumePut hb hw =>
      exact Bus.falls_req rfl rfl ((put_falls h.net.req m t req).2.2 hb (by rw [hw]; decide))

theorem slaveGet_falls {s : Fin k} {res : Option VciRequest}
    {r : Crossbar (Fin n) (Fin k) T VciRequest} (hg : x.slave s = .getting)
    (hr : CrossbarStep (dispatchRequestsThread setup.map) x.net.req (.get s res) r) :
    BusFalls x (x.afterGet s res r) := by
  have hsum := slave_load (x := x) s (slaveTakes (x.bProcessing s) res).1
  have hget := fun req (e : res = some req) => h.takes hg (e ▸ hr)
  obtain ⟨hc, rfl, rfl⟩ := get_cases hr
  have hwb := wakeBound_req (n := n) (k := k) (T := T)
  rw [hg, show SlavePc.getting.load = 0 from rfl] at hsum
  show Falls _ _ _ ((x.net.req.get s).2.load 8 + x.net.rsp.load 1 + _)
    ((x.net.req.get s).2.wake + x.net.rsp.wake)
  unfold Bus.load Bus.wake
  rcases get_falls (c := 8) h.net.req hc with ⟨hnone, hload, hwake⟩ | ⟨hsome, hload, hwake⟩
  · have hidle : (slaveTakes (x.bProcessing s) (x.net.req.get s).1).1.load = 0 := by
      rw [hnone]
      rfl
    rw [hidle] at hsum
    refine .inr ⟨?_, by omega⟩
    show _ + _ + ∑ s', (Function.update x.slave s _ s').load = _
    omega
  · obtain ⟨req, hreq⟩ := Option.isSome_iff_exists.mp hsome
    have htakes := hget req hreq
    rw [← hreq] at htakes
    have hserve : (slaveTakes (x.bProcessing s) (x.net.req.get s).1).1.load = 7 := by
      rw [htakes]
      rfl
    rw [hserve] at hsum
    refine .inl ⟨?_, by omega⟩
    show _ + _ + ∑ s', (Function.update x.slave s _ s').load < _
    omega

theorem serve_falls {s : Fin k} {req : VciRequest} (d : D) (rdata : Fin 8 → Byte) (bErr : Bool)
    {r : Crossbar (Fin k) (Fin n) Unit VciResponse} (hg : x.slave s = .serving req)
    (hr : CrossbarStep dispatchResponsesThread x.net.rsp
      (.call s () (slaveRsp req rdata bErr)) r) :
    BusFalls x { x.afterPut s r with
      dev := Function.update x.dev s d
      served := Function.update x.served s (x.served s ++ [(req, slaveRsp req rdata bErr)]) } := by
  cases hr with
  | call _ hb =>
      obtain ⟨hload, hwake, -⟩ := put_falls (c := 1) h.net.rsp s () (slaveRsp req rdata bErr)
      have hsum := slave_load (x := x) s
        (if ((x.net.rsp.call s () (slaveRsp req rdata bErr)).blocked s ()).isNone then .getting
          else .putting)
      have hidle : (if ((x.net.rsp.call s () (slaveRsp req rdata bErr)).blocked s ()).isNone
          then SlavePc.getting else .putting).load = 0 := by
        split <;> rfl
      have hwb := wakeBound_rsp (n := n) (k := k) (T := T)
      rw [hidle, hg, show (SlavePc.serving req).load = 7 from rfl] at hsum
      show Falls _ _ _ (x.net.req.load 8 + (x.net.rsp.put s () _).load 1 + _)
        (x.net.req.wake + (x.net.rsp.put s () _).wake)
      unfold Bus.load Bus.wake
      refine .inl ⟨?_, by omega⟩
      show _ + _ + ∑ s', (Function.update x.slave s _ s').load < _
      omega

theorem slaveResume_falls {s : Fin k} {rsp : VciResponse}
    {r : Crossbar (Fin k) (Fin n) Unit VciResponse} (hg : x.slave s = .putting)
    (hr : CrossbarStep dispatchResponsesThread x.net.rsp (.resumePut s () rsp) r) :
    BusFalls x (x.afterPut s r) := by
  cases hr with
  | resumePut hb hw =>
      refine Bus.falls_rsp (fun s' => ?_) rfl
        ((put_falls h.net.rsp s () rsp).2.2 hb (by rw [hw]; decide))
      show (Function.update x.slave s _ s').load = _
      by_cases hs : s' = s
      · subst hs
        rw [Function.update_self, hg]
        split <;> rfl
      · rw [Function.update_of_ne hs]

theorem deliver_falls {m : Fin n} {res : Option VciResponse}
    {r : Crossbar (Fin k) (Fin n) Unit VciResponse}
    (hr : CrossbarStep dispatchResponsesThread x.net.rsp (.get m res) r) :
    BusFalls x { x with net := { x.net with rsp := r } } := by
  obtain ⟨hc, -, rfl⟩ := get_cases hr
  refine Bus.falls_rsp (fun _ => rfl) rfl ?_
  show Falls _ _ _ ((x.net.rsp.get m).2.load 1) _
  rcases get_falls (c := 1) h.net.rsp hc with ⟨-, hload, hwake⟩ | ⟨-, hload, hwake⟩
  · exact .inr ⟨hload, hwake⟩
  · exact .inl ⟨by omega, hwake⟩

omit h [DecidableEq T] in
/-- Time that passes. -/
theorem advance_falls (due : Fin n → Bool) (due' : Fin k → Bool)
    (hne : (⟨x.net.req.tick due, x.net.rsp.tick due'⟩ : Interconnect n k T Unit) ≠ x.net) :
    BusFalls x { x with net := ⟨x.net.req.tick due, x.net.rsp.tick due'⟩ } := by
  have hq := tick_falls 8 x.net.req due
  have hp := tick_falls 1 x.net.rsp due'
  show Falls _ _ _
    ((x.net.req.tick due).load 8 + (x.net.rsp.tick due').load 1 + ∑ s, (x.slave s).load)
    ((x.net.req.tick due).wake + (x.net.rsp.tick due').wake)
  unfold Bus.load Bus.wake
  rcases hq with hq | ⟨hq, hqw⟩
  · rcases hp with hp | ⟨hp, hpw⟩
    · rw [hq, hp] at hne
      exact absurd rfl hne
    · rw [hq]
      exact .inl ⟨by omega, by omega⟩
  · rcases hp with hp | ⟨hp, hpw⟩
    · rw [hp]
      exact .inl ⟨by omega, by omega⟩
    · exact .inl ⟨by omega, by omega⟩

/-- **Every step without a new call lowers the load, or puts a thread to sleep.** -/
theorem bus_falls {l : BusLabel n k T} (hs : BusStep setup x l x') (hl : l.Own)
    (hne : l = .tau → x' ≠ x) : BusFalls x x' := by
  cases hs with
  | call hr => exact hl.elim
  | resumePut hr => exact resumePut_falls h hr
  | dispatchRequest hr => exact Bus.falls_req rfl rfl (dispatch_falls h.net.req hr)
  | dispatchResponse hr => exact Bus.falls_rsp (fun _ => rfl) rfl (dispatch_falls h.net.rsp hr)
  | slaveGet hg hr => exact slaveGet_falls h hg hr
  | serve hg hd hr => exact serve_falls h _ _ _ hg hr
  | slaveResume hg hr => exact slaveResume_falls h hg hr
  | deliver hr => exact deliver_falls h hr
  | advance hreq hrsp due due' =>
      refine advance_falls due due' fun e => hne rfl ?_
      rw [e]

end Steps

/-! ## 4. There is always work -/

/-- A step without a new call that changes something. -/
def Works (setup : BusSetup n k D) (x : Bus n k T D) (l : BusLabel n k T) (x' : Bus n k T D) :
    Prop :=
  BusStep setup x l x' ∧ l.Own ∧ x' ≠ x

theorem works_of_falls {l : BusLabel n k T} (hs : BusStep setup x l x') (hl : l.Own)
    (hf : BusFalls x x') : Works setup x l x' :=
  ⟨hs, hl, fun e => Falls.irrefl _ _ _ (by rw [e] at hf; exact hf)⟩

section Work

variable (h : BusInv setup (Admissible setup) x)
include h

theorem work_of_request_dispatcher {m : Fin n} (hrun : x.net.req.CanRun m) :
    ∃ l x', Works setup x l x' := by
  obtain ⟨r, hr⟩ := exists_dispatch hrun fun req due e => (h.req.delay m req due e).mapped
  exact ⟨_, _, works_of_falls (.dispatchRequest hr) trivial
    (Bus.falls_req rfl rfl (dispatch_falls h.net.req hr))⟩

theorem work_of_response_dispatcher {s : Fin k} (hrun : x.net.rsp.CanRun s) :
    ∃ l x', Works setup x l x' := by
  obtain ⟨r, hr⟩ := exists_dispatch hrun fun rsp due e => (h.rsp.delay s rsp due e).routed
  exact ⟨_, _, works_of_falls (.dispatchResponse hr) trivial
    (Bus.falls_rsp (fun _ => rfl) rfl (dispatch_falls h.net.rsp hr))⟩

/-- While something can run without time passing, it does. -/
theorem work_of_not_quiet (hn : ¬ (x.net.req.Quiet ∧ x.net.rsp.Quiet)) :
    ∃ l x', Works setup x l x' := by
  by_contra hno
  refine hn ⟨⟨fun m hrun => hno (work_of_request_dispatcher h hrun), fun m t req hb hw => ?_⟩,
    ⟨fun s hrun => hno (work_of_response_dispatcher h hrun), fun s u rsp hb hw => ?_⟩⟩
  · have hr : CrossbarStep (dispatchRequestsThread setup.map) x.net.req (.resumePut m t req) _ :=
      .resumePut hb hw
    exact hno ⟨_, _, works_of_falls (.resumePut hr) trivial (resumePut_falls h hr)⟩
  · have hr : CrossbarStep dispatchResponsesThread x.net.rsp (.resumePut s () rsp) _ :=
      .resumePut hb hw
    have hg : x.slave s = .putting := by
      have hok := h.slave s
      rw [hb] at hok
      generalize x.slave s = pc at hok
      generalize x.bProcessing s = b at hok
      cases hok with
      | putting rsp' => rfl
    exact hno ⟨_, _, works_of_falls (.slaveResume hg hr) trivial (slaveResume_falls h hg hr)⟩

/-- A thread of a slave that is not suspended takes a step. -/
theorem work_of_slave (hdev : ∀ s d req, ∃ d' rdata bErr, setup.rcvRqst s d req d' rdata bErr)
    {s : Fin k} (hs : SlaveEnabled setup x s) : ∃ l x', Works setup x l x' := by
  have hok := h.slave s
  unfold SlaveEnabled at hs
  cases hg : x.slave s with
  | getting =>
      rw [hg] at hs
      have hr : CrossbarStep (dispatchRequestsThread setup.map) x.net.req (.get s _) _ := .get hs
      exact ⟨_, _, works_of_falls (.slaveGet hg hr) trivial (slaveGet_falls h hg hr)⟩
  | serving req =>
      obtain ⟨d, rdata, bErr, hd⟩ := hdev s (x.dev s) req
      have hb : x.net.rsp.blocked s () = none := by
        rw [hg] at hok
        generalize x.net.rsp.blocked s () = o at hok
        generalize x.bProcessing s = b at hok
        cases hok with
        | serving _ => rfl
      have hr : CrossbarStep dispatchResponsesThread x.net.rsp
        (.call s () (slaveRsp req rdata bErr)) _ := .call _ hb
      exact ⟨_, _, works_of_falls (.serve hg hd hr) trivial (serve_falls h d rdata bErr hg hr)⟩
  | putting =>
      rw [hg] at hs hok
      obtain ⟨rsp, hb⟩ : ∃ rsp, x.net.rsp.blocked s () = some rsp := by
        generalize x.net.rsp.blocked s () = o at hok
        generalize x.bProcessing s = b at hok
        cases hok with
        | putting rsp => exact ⟨rsp, rfl⟩
      have hw : (x.net.rsp.input s).canWrite () = .notified := by
        have hrun := h.net.rsp.waits s () rsp hb
        generalize (x.net.rsp.input s).canWrite () = v at hs hrun
        cases v with
        | running => exact absurd rfl hrun
        | asleep => exact absurd rfl hs
        | notified => rfl
      have hr : CrossbarStep dispatchResponsesThread x.net.rsp (.resumePut s () rsp) _ :=
        .resumePut hb hw
      exact ⟨_, _, works_of_falls (.slaveResume hg hr) trivial (slaveResume_falls h hg hr)⟩

end Work

/-- **While something is in flight, some step changes something.** -/
theorem exists_work (hdev : ∀ s d req, ∃ d' rdata bErr, setup.rcvRqst s d req d' rdata bErr)
    (h : (busMachine setup).Reach x) (hf : InFlight x) : ∃ l x', Works setup x l x' := by
  have hi := busInv_reach h
  by_cases hquiet : x.net.req.Quiet ∧ x.net.rsp.Quiet
  · have hadvance (hne : (⟨x.net.req.tick fun _ => true, x.net.rsp.tick fun _ => true⟩ :
        Interconnect n k T Unit) ≠ x.net) : ∃ l x', Works setup x l x' :=
      ⟨_, _, works_of_falls (.advance hquiet.1 hquiet.2 _ _) trivial (advance_falls _ _ hne)⟩
    rcases bus_never_deadlocks hdev h hf with ⟨m, hm⟩ | ⟨s, hs⟩ | ⟨s, hs⟩ | ⟨m, hm⟩
    · rcases canRun_or_delay hm with hrun | ⟨req, hd⟩
      · exact work_of_request_dispatcher hi hrun
      · exact hadvance fun e => tick_ne hd (congrArg Interconnect.req e)
    · rcases canRun_or_delay hs with hrun | ⟨rsp, hd⟩
      · exact work_of_response_dispatcher hi hrun
      · exact hadvance fun e => tick_ne hd (congrArg Interconnect.rsp e)
    · exact work_of_slave hi hdev hs
    · have hr : CrossbarStep dispatchResponsesThread x.net.rsp (.get m _) _ := .get hm
      exact ⟨_, _, works_of_falls (.deliver hr) trivial (deliver_falls hi hr)⟩
  · exact work_of_not_quiet hi hquiet

/-! ## 5. The end of the work -/

/-- Every call of `put` has ended, every request put is served, and every response delivered, in
    order. -/
structure AllAnswered (setup : BusSetup n k D) (x : Bus n k T D) : Prop where
  puts : ∀ m t, byWriter t (x.net.req.calls m) = byWriter t (x.net.req.input m).written
  served : ∀ m s, x.issued setup m s = (x.servedOf m s).map Prod.fst
  delivered : ∀ m s, x.delivered m s = (x.servedOf m s).map Prod.snd

/-- Nothing is in flight, and no slave is in the middle of a request. -/
structure BusRests (x : Bus n k T D) : Prop where
  empty : ¬ InFlight x
  slaves : ∀ s, (x.slave s).request = []

omit [Fintype T] [DecidableEq T] in
theorem BusRests.blocked (h : BusRests x) (m : Fin n) (t : T) : x.net.req.blocked m t = none :=
  by_contra fun e => h.empty (.blockedRequest m t e)

section Rest

variable (h : BusRests x) (hi : BusInv setup (Admissible setup) x)
include h hi

omit [Fintype T] in
theorem BusRests.request_port (m : Fin n) :
    x.net.req.dispatcher m = .reading ∧ (x.net.req.input m).queued = [] := by
  refine ⟨by_contra fun e => h.empty (.requestDispatcher m e), ?_⟩
  have hc := by_contra fun e => h.empty (.masterRequests m e)
  rw [← (hi.net.req.input m).queued] at hc
  exact List.map_eq_nil_iff.mp hc

omit [Fintype T] in
theorem BusRests.path (m : Fin n) (s : Fin k) : x.path setup m s = [] := by
  obtain ⟨hreading, hin⟩ := h.request_port hi m
  have hout : (x.net.req.output s).queued = [] := by
    have hc := by_contra fun e => h.empty (.slaveRequests s e)
    rw [← (hi.net.req.output s).queued] at hc
    exact List.map_eq_nil_iff.mp hc
  have hrspReading (s : Fin k) : x.net.rsp.dispatcher s = .reading :=
    by_contra fun e => h.empty (.responseDispatcher s e)
  have hrspIn (s : Fin k) : (x.net.rsp.input s).queued = [] := by
    have hc := by_contra fun e => h.empty (.slaveResponses s e)
    rw [← (hi.net.rsp.input s).queued] at hc
    exact List.map_eq_nil_iff.mp hc
  have hrspOut : (x.net.rsp.output m).queued = [] := by
    have hc := by_contra fun e => h.empty (.masterResponses m e)
    rw [← (hi.net.rsp.output m).queued] at hc
    exact List.map_eq_nil_iff.mp hc
  have hrspBlocked (s : Fin k) : x.net.rsp.blocked s () = none :=
    by_contra fun e => h.empty (.blockedResponse s e)
  simp [Bus.path, Bus.returning, Bus.servingOf, Bus.coming, hreading, hin, hout, hrspReading,
    hrspIn, hrspOut, hrspBlocked, h.slaves, pending, byWriter]

omit [Fintype T] in
/-- No transaction is under way. -/
theorem BusRests.underway (m : Fin n) : x.underway setup m = [] := by
  obtain ⟨hreading, hin⟩ := h.request_port hi m
  simp [Bus.underway, strays, stuck, hreading, hin, h.path hi]

omit [Fintype T] in
/-- Everything is done. -/
theorem BusRests.allAnswered (hf : BusFlow setup x) : AllAnswered setup x := by
  have hserved (m : Fin n) (s : Fin k) :=
    served_of_path_nil hi hf (fun _ _ h => h.srcid) (h.path hi m s)
  refine ⟨fun m t => ?_, fun m s => (hserved m s).1, fun m s => (hserved m s).2⟩
  rw [hi.net.req.puts m t, h.blocked m t]
  exact List.append_nil _

end Rest

/-- A state that a run of the bus reaches, with what has been served so far. -/
structure OnTheWay (setup : BusSetup n k D) (x : Bus n k T D) : Prop where
  reach : (busMachine setup).Reach x
  flow : BusFlow setup x

omit [Fintype T] in
theorem OnTheWay.works (h : OnTheWay setup x) {l : BusLabel n k T} (hs : Works setup x l x') :
    OnTheWay setup x' := by
  obtain ⟨hstep, hl, -⟩ := hs
  have hmeets : l.Meets (Admissible setup) := by
    cases l with
    | call m t req => exact hl.elim
    | _ => trivial
  exact ⟨h.reach.step ⟨l, hstep, hmeets⟩,
    h.flow.step (busInv_reach h.reach) (fun _ _ hp => hp.cmd) hstep⟩

omit [Fintype T] in
theorem onTheWay_of_reach (h : (busMachine setup).Reach x) : OnTheWay setup x := by
  refine ⟨h, ?_⟩
  refine h.invariant (I := BusFlow setup) (fun x e => ?_) fun x x' hr hf hs => ?_
  · rw [show x = .new setup from e]
    exact busFlow_new
  · obtain ⟨l, hstep, -⟩ := hs
    exact hf.step (busInv_reach hr) (fun _ _ hp => hp.cmd) hstep

theorem OnTheWay.rank_lt (h : OnTheWay setup x) {l : BusLabel n k T} (hs : Works setup x l x') :
    x'.rank < x.rank :=
  (bus_falls (busInv_reach h.reach) hs.1 hs.2.1 fun _ => hs.2.2).rank_lt

/-- Where nothing more can be done, nothing is left. -/
theorem OnTheWay.rests (h : OnTheWay setup x)
    (hdev : ∀ s d req, ∃ d' rdata bErr, setup.rcvRqst s d req d' rdata bErr)
    (hend : ∀ l x', ¬ Works setup x l x') : BusRests x := by
  have hi := busInv_reach h.reach
  have hno : ¬ ∃ l x', Works setup x l x' := fun ⟨l, x', hw⟩ => hend l x' hw
  refine ⟨fun hf => hno (exists_work hdev h.reach hf), fun s => ?_⟩
  cases hg : x.slave s with
  | serving req =>
      have hs : SlaveEnabled setup x s := by
        unfold SlaveEnabled
        rw [hg]
        exact hdev s _ req
      exact absurd (work_of_slave hi hdev hs) hno
  | getting => rfl
  | putting => rfl

/-- **The bus drains.** The masters put reads and writes at mapped addresses, and every slave answers
    every request. After the last call of a master, in any order of the threads, the bus takes at most
    as many steps that change something as its rank says; a run of such steps can only end where every
    request put is served and every response delivered, and it can always be brought there. -/
theorem bus_drains (hdev : ∀ s d req, ∃ d' rdata bErr, setup.rcvRqst s d req d' rdata bErr)
    (h : (busMachine setup).Reach x) :
    (∀ tr t, Run (Works setup) x tr t → tr.length ≤ x.rank ∧
      ((∀ l t', ¬ Works setup t l t') → AllAnswered setup t)) ∧
    ∃ tr t, Run (Works setup) x tr t ∧ AllAnswered setup t := by
  have h0 := onTheWay_of_reach h
  have hkeep (x : Bus n k T D) (l : BusLabel n k T) (x' : Bus n k T D) (hx : OnTheWay setup x)
      (hs : Works setup x l x') : OnTheWay setup x' := hx.works hs
  have hfall (x : Bus n k T D) (l : BusLabel n k T) (x' : Bus n k T D) (hx : OnTheWay setup x)
      (hs : Works setup x l x') : x'.rank < x.rank := hx.rank_lt hs
  have hend {tr : List (BusLabel n k T × Bus n k T D)} {t : Bus n k T D}
      (hrun : Run (Works setup) x tr t) : OnTheWay setup t :=
    hrun.invariant (P := fun _ => True) (fun s l s' hs _ => hkeep s l s' hs) h0 fun _ _ => trivial
  have hrest {tr : List (BusLabel n k T × Bus n k T D)} {t : Bus n k T D}
      (hrun : Run (Works setup) x tr t) (ht : ∀ l t', ¬ Works setup t l t') : AllAnswered setup t :=
    ((hend hrun).rests hdev ht).allAnswered (busInv_reach (hend hrun).reach) (hend hrun).flow
  refine ⟨fun tr t hrun => ⟨?_, hrest hrun⟩, ?_⟩
  · have hle := hrun.length_add_le Bus.rank hkeep hfall h0
    omega
  · obtain ⟨tr, t, hrun, ht⟩ := exists_run_to_end Bus.rank hkeep hfall h0
    exact ⟨tr, t, hrun, hrest hrun ht⟩

/-- A slave that answers anything: one master has put a read, and another one a write. -/
theorem bus_drains_two :
    let setup : BusSetup 2 1 Unit :=
      ⟨fun _ => [⟨0, 0x1000#32, 0x2000#32, 0⟩], fun _ _ _ _ _ _ => True, fun _ => ()⟩
    ∃ x : Bus 2 1 Unit Unit, (x.net.req.input 0).queued ≠ [] ∧ (x.net.req.input 1).queued ≠ [] ∧
      ∃ tr t, Run (Works setup) x tr t ∧ AllAnswered setup t := by
  intro setup
  have h0 : (busMachine setup).Reach (.new setup : Bus 2 1 Unit Unit) := .start rfl
  have hread : Admissible setup 0
      { (default : VciRequest) with address := 0x1234#32, cmd := CMD_READ } :=
    ⟨by decide, .inr rfl, by decide⟩
  have hwrite : Admissible setup 1
      { (default : VciRequest) with address := 0x1238#32, cmd := CMD_WRITE, srcid := 1#16 } :=
    ⟨by decide, .inl rfl, by decide⟩
  have h1 := h0.step ⟨_, .call (t := ()) (.call _ rfl), hread⟩
  have h2 := h1.step ⟨_, .call (t := ()) (.call _ rfl), hwrite⟩
  have hdev (s : Fin 1) (d : Unit) (req : VciRequest) :
      ∃ d' rdata bErr, setup.rcvRqst s d req d' rdata bErr := ⟨(), default, false, trivial⟩
  exact ⟨_, (fun e => by cases e), (fun e => by cases e), (bus_drains hdev h2).2⟩

end Bus

end Rabbits
