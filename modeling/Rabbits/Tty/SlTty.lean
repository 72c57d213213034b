/-
  File:      Rabbits/Tty/SlTty.lean
  Subject:   The terminals that are only written to (sl_tty_device.cpp), with the programs in their
             windows (tty_term_rw.cpp).

  Each window has a pipe of its own; the program in it passes the keys on to the window itself. One
  device writes to all of them, and stands still in `::write (pout[tty], &value, 1)` while a pipe is
  full.

  * `ttyOf` -- the terminal that an access is to; `SlTty.next` -- the device and its windows;
  * `SlTty.Right` -- every character is on its way to its own window, in order;
  * `windows_settle` -- **the characters come to their windows, and all arrive**: unlike the terminal
    with a way back (Console.lean), these never wait for each other.

  An access to another register, to a terminal that does not exist, and every read end the program.
  That `s_pid_tty` has room for twenty processes is left out.
-/
import Rabbits.Lib.Drain
import Rabbits.Lib.Labelled
import Rabbits.Noc.SlaveDevice
import Rabbits.Tty.TermRw

namespace Rabbits

open Lib

/-! ## 1. The device and its windows -/

/-- The words between two terminals. -/
def TTY_SPAN : Nat := 4

/-- `tty`, an unsigned char, for an access to the character register of one of `nbTty` terminals. -/
def ttyOf (nbTty : Nat) (ofs : ULong) (be : Byte) : Option (Fin nbTty) :=
  let lofs := (lofsOf ofs be).toNat
  if h : lofs / TTY_SPAN % 256 < nbTty then
    if lofs % TTY_SPAN = 0 then some ⟨lofs / TTY_SPAN % 256, h⟩ else none
  else none

/-- The byte that `::write (pout[tty], &value, 1)` writes. -/
def ttyChar (be : Byte) (data : Fin 8 → Byte) : Byte := (valueOf be data).setWidth 8

/-- The programs in the windows, and the character with which the simulator stands in its `write`. -/
structure SlTty (nbTty : Nat) where
  term : Fin nbTty → TtyTerm
  blocked : Option (Fin nbTty × Byte)

/-- A key; a turn of a program; its `write` and that of the simulator return; and a write request. -/
inductive SlTtyEvent (nbTty : Nat) where
  | key (tty : Fin nbTty) (ch : Byte)
  | turn (tty : Fin nbTty)
  | sent (tty : Fin nbTty)
  | resume
  | write (ofs : ULong) (be : Byte) (data : Fin 8 → Byte)

variable {nbTty : Nat}

namespace SlTtyEvent

/-- What happens without a user and without an access. -/
def own : SlTtyEvent nbTty → Bool
  | .key _ _ | .write _ _ _ => false
  | .turn _ | .sent _ | .resume => true

/-- The keys typed in a window. -/
def typed (tty : Fin nbTty) : SlTtyEvent nbTty → List Byte
  | .key i ch => if i = tty then [ch] else []
  | _ => []

/-- The characters written to a terminal. -/
def written (tty : Fin nbTty) : SlTtyEvent nbTty → List Byte
  | .write ofs be data => if ttyOf nbTty ofs be = some tty then [ttyChar be data] else []
  | _ => []

end SlTtyEvent

namespace SlTty

variable (cap : Nat)

def new : SlTty nbTty := ⟨fun _ => .new, none⟩

def setTerm (s : SlTty nbTty) (tty : Fin nbTty) (t : TtyTerm) : SlTty nbTty :=
  { s with term := Function.update s.term tty t }

/-- `::write (pout[tty], &ch, 1)`. -/
def putChar (s : SlTty nbTty) (tty : Fin nbTty) (ch : Byte) : SlTty nbTty :=
  if (s.term tty).pipe.length < cap then s.setTerm tty ((s.term tty).receive ch)
  else { s with blocked := some (tty, ch) }

def next (s : SlTty nbTty) : SlTtyEvent nbTty → Option (SlTty nbTty)
  | .key tty ch => some (s.setTerm tty ((s.term tty).key ch))
  | .turn tty => (s.term tty).turn.map (s.setTerm tty)
  -- `pipe_out` is the window
  | .sent tty => (s.term tty).sending.map fun ch => s.setTerm tty ((s.term tty).sendDone ch)
  | .resume => s.blocked.bind fun w =>
      if (s.term w.1).pipe.length < cap then
        some { s.setTerm w.1 ((s.term w.1).receive w.2) with blocked := none }
      else none
  | .write ofs be data =>
      if s.blocked = none then (ttyOf nbTty ofs be).map fun tty => s.putChar cap tty (ttyChar be data)
      else none

/-- The character for a terminal with which the simulator stands. -/
def blockedFor (s : SlTty nbTty) (tty : Fin nbTty) : List Byte :=
  (s.blocked.filter fun w => w.1 = tty).toList.map Prod.snd

/-- What was written to each terminal is shown in its window, in its pipe, or stands before it; and
    what was typed in it is passed on to it, in the program's `write`, or not read. -/
structure Right (s : SlTty nbTty) (events : List (SlTtyEvent nbTty)) (tty : Fin nbTty) : Prop where
  written : events.flatMap (SlTtyEvent.written tty) =
    (s.term tty).shown ++ (s.term tty).pipe ++ s.blockedFor tty
  typed : events.flatMap (SlTtyEvent.typed tty) =
    (s.term tty).sent ++ (s.term tty).sending.toList ++ (s.term tty).keys
  pipe : (s.term tty).pipe.length ≤ cap

/-! ## 2. What a step keeps -/

/-- The programs have their bytes, and no pipe has more than it takes. -/
structure Inv (s : SlTty nbTty) : Prop where
  term : ∀ tty, (s.term tty).Ok
  pipe : ∀ tty, (s.term tty).pipe.length ≤ cap

variable {cap} {s s' : SlTty nbTty} {e : SlTtyEvent nbTty}

theorem inv_new : (new : SlTty nbTty).Inv cap :=
  ⟨fun _ => TtyTerm.ok_new, fun _ => Nat.zero_le _⟩

theorem Inv.setTerm (h : s.Inv cap) {tty : Fin nbTty} {t : TtyTerm} (hok : t.Ok)
    (hpipe : t.pipe.length ≤ cap) : (s.setTerm tty t).Inv cap := by
  constructor <;> intro i <;> rcases eq_or_ne i tty with rfl | hne
  · simpa only [SlTty.setTerm, Function.update_self] using hok
  · simpa only [SlTty.setTerm, Function.update_of_ne hne] using h.term i
  · simpa only [SlTty.setTerm, Function.update_self] using hpipe
  · simpa only [SlTty.setTerm, Function.update_of_ne hne] using h.pipe i

theorem Inv.receive (h : s.Inv cap) {tty : Fin nbTty} (hroom : (s.term tty).pipe.length < cap)
    (ch : Byte) : (s.setTerm tty ((s.term tty).receive ch)).Inv cap := by
  refine h.setTerm ((h.term tty).receive ch) ?_
  rw [TtyTerm.receive, List.length_append, List.length_singleton]
  exact hroom

/-- **Every step keeps the invariant.** -/
theorem Inv.next_kept (h : s.Inv cap) (hnext : s.next cap e = some s') : s'.Inv cap := by
  cases e with
  | key tty ch =>
      cases hnext
      exact h.setTerm ((h.term tty).typeKey ch) (h.pipe tty)
  | turn tty =>
      obtain ⟨t, hturn, rfl⟩ := Option.map_eq_some_iff.mp hnext
      exact h.setTerm ((h.term tty).turn_kept hturn) ((TtyTerm.turn_pipe_le hturn).trans (h.pipe tty))
  | sent tty =>
      obtain ⟨ch, hsend, rfl⟩ := Option.map_eq_some_iff.mp hnext
      obtain ⟨pipe, hpc⟩ := TtyTerm.sending_eq_some hsend
      refine h.setTerm ((h.term tty).sendDone hsend) ?_
      rw [TtyTerm.sendDone_eq hpc]
      exact h.pipe tty
  | resume =>
      obtain ⟨w, -, hroom⟩ := Option.bind_eq_some_iff.mp hnext
      split at hroom <;> cases hroom
      next hlt => exact ⟨(h.receive hlt w.2).term, (h.receive hlt w.2).pipe⟩
  | write ofs be data =>
      rw [SlTty.next] at hnext
      split at hnext
      · obtain ⟨tty, -, rfl⟩ := Option.map_eq_some_iff.mp hnext
        rw [putChar]
        split
        · next hlt => exact h.receive hlt _
        · exact ⟨h.term, h.pipe⟩
      · cases hnext

theorem setTerm_self (s : SlTty nbTty) (tty : Fin nbTty) (t : TtyTerm) :
    (s.setTerm tty t).term tty = t := by
  rw [setTerm]
  exact Function.update_self tty t s.term

theorem setTerm_of_ne (s : SlTty nbTty) {tty i : Fin nbTty} (h : i ≠ tty) (t : TtyTerm) :
    (s.setTerm tty t).term i = s.term i := by
  rw [setTerm]
  exact Function.update_of_ne h t s.term

theorem blockedFor_none (h : s.blocked = none) (tty : Fin nbTty) : s.blockedFor tty = [] := by
  rw [blockedFor, h]
  rfl

theorem blockedFor_some {w : Fin nbTty × Byte} (h : s.blocked = some w) (tty : Fin nbTty) :
    s.blockedFor tty = if w.1 = tty then [w.2] else [] := by
  rw [blockedFor, h]
  by_cases heq : w.1 = tty
  · rw [Option.filter_some, if_pos (decide_eq_true heq), if_pos heq]
    rfl
  · rw [Option.filter_some, if_neg (by simpa using heq), if_neg heq]
    rfl

/-- A turn, a key or a `write` of a program: nothing is put into its pipe. -/
theorem put_setTerm {tty : Fin nbTty} {t : TtyTerm} (hput : t.put = (s.term tty).put)
    (i : Fin nbTty) : ((s.setTerm tty t).term i).put = (s.term i).put := by
  rcases eq_or_ne i tty with rfl | hne
  · rw [setTerm_self, hput]
  · rw [setTerm_of_ne s hne]

theorem typed_setTerm {tty : Fin nbTty} {t : TtyTerm} (htyped : t.typed = (s.term tty).typed)
    (i : Fin nbTty) : ((s.setTerm tty t).term i).typed = (s.term i).typed := by
  rcases eq_or_ne i tty with rfl | hne
  · rw [setTerm_self, htyped]
  · rw [setTerm_of_ne s hne]

/-- A character that comes to its pipe. -/
theorem put_receive (tty i : Fin nbTty) (ch : Byte) :
    ((s.setTerm tty ((s.term tty).receive ch)).term i).put =
      (s.term i).put ++ if tty = i then [ch] else [] := by
  rcases eq_or_ne i tty with rfl | hne
  · rw [setTerm_self, if_pos rfl]
    rfl
  · rw [setTerm_of_ne s hne, if_neg hne.symm, List.append_nil]

/-- **What is written**, to each terminal. -/
theorem next_written (hnext : s.next cap e = some s') (i : Fin nbTty) :
    (s'.term i).put ++ s'.blockedFor i = (s.term i).put ++ s.blockedFor i ++ e.written i := by
  cases e with
  | key tty ch =>
      cases hnext
      rw [put_setTerm (t := (s.term tty).key ch) rfl]
      exact (List.append_nil _).symm
  | turn tty =>
      obtain ⟨t, hturn, rfl⟩ := Option.map_eq_some_iff.mp hnext
      rw [put_setTerm (TtyTerm.turn_history hturn).2]
      exact (List.append_nil _).symm
  | sent tty =>
      obtain ⟨ch, -, rfl⟩ := Option.map_eq_some_iff.mp hnext
      rw [put_setTerm (t := (s.term tty).sendDone ch) rfl]
      exact (List.append_nil _).symm
  | resume =>
      obtain ⟨w, hw, hroom⟩ := Option.bind_eq_some_iff.mp hnext
      split at hroom <;> cases hroom
      show ((s.setTerm w.1 ((s.term w.1).receive w.2)).term i).put ++ [] = _ ++ []
      rw [put_receive, blockedFor_some hw, List.append_nil]
  | write ofs be data =>
      rw [SlTty.next] at hnext
      split at hnext
      · next hfree =>
          obtain ⟨tty, htty, rfl⟩ := Option.map_eq_some_iff.mp hnext
          have hwritten : (SlTtyEvent.write ofs be data).written i =
              if tty = i then [ttyChar be data] else [] := by
            rw [SlTtyEvent.written, htty]
            simp only [Option.some.injEq]
          rw [hwritten, blockedFor_none hfree, List.append_nil, putChar]
          split
          · rw [put_receive, blockedFor_none (s := s.setTerm _ _) hfree, List.append_nil]
          · have hfor := blockedFor_some (s := { s with blocked := some (tty, ttyChar be data) }) rfl i
            exact congrArg ((s.term i).put ++ ·) hfor
      · cases hnext

/-- **What is typed**, in each window. -/
theorem next_typed (hnext : s.next cap e = some s') (i : Fin nbTty) :
    (s'.term i).typed = (s.term i).typed ++ e.typed i := by
  cases e with
  | key tty ch =>
      cases hnext
      rcases eq_or_ne i tty with rfl | hne
      · rw [setTerm_self, SlTtyEvent.typed, if_pos rfl]
        rfl
      · rw [setTerm_of_ne s hne, SlTtyEvent.typed, if_neg hne.symm, List.append_nil]
  | turn tty =>
      obtain ⟨t, hturn, rfl⟩ := Option.map_eq_some_iff.mp hnext
      rw [typed_setTerm (TtyTerm.turn_history hturn).1]
      exact (List.append_nil _).symm
  | sent tty =>
      obtain ⟨ch, -, rfl⟩ := Option.map_eq_some_iff.mp hnext
      rw [typed_setTerm (t := (s.term tty).sendDone ch) rfl]
      exact (List.append_nil _).symm
  | resume =>
      obtain ⟨w, -, hroom⟩ := Option.bind_eq_some_iff.mp hnext
      split at hroom <;> cases hroom
      have htyped := typed_setTerm (s := s) (t := (s.term w.1).receive w.2) rfl i
      exact htyped.trans (List.append_nil _).symm
  | write ofs be data =>
      rw [SlTty.next] at hnext
      split at hnext
      · obtain ⟨tty, -, rfl⟩ := Option.map_eq_some_iff.mp hnext
        rw [putChar]
        split
        · have htyped := typed_setTerm (s := s) (t := (s.term tty).receive (ttyChar be data)) rfl i
          exact htyped.trans (List.append_nil _).symm
        · exact (List.append_nil _).symm
      · cases hnext

theorem right_of_exec {events : List (SlTtyEvent nbTty)}
    (hrun : exec (next cap) new events = some s) (i : Fin nbTty) : s.Right cap events i := by
  have hinv : s.Inv cap := exec_invariant (fun _ _ _ h hnext => h.next_kept hnext) inv_new hrun
  have hwritten : (s.term i).put ++ s.blockedFor i = events.flatMap (SlTtyEvent.written i) :=
    @exec_appends _ _ _ _ (fun s : SlTty nbTty => (s.term i).put ++ s.blockedFor i)
      (SlTtyEvent.written i) (fun _ _ _ hnext => next_written hnext i) _ _ _ hrun
  have htyped : (s.term i).typed = events.flatMap (SlTtyEvent.typed i) :=
    @exec_appends _ _ _ _ (fun s : SlTty nbTty => (s.term i).typed)
      (SlTtyEvent.typed i) (fun _ _ _ hnext => next_typed hnext i) _ _ _ hrun
  refine ⟨?_, ?_, hinv.pipe i⟩
  · rw [← hwritten, (hinv.term i).bytes]
  · rw [← htyped, (hinv.term i).keys]

/-! ## 3. How long anything moves by itself -/

/-- What is left to do without a user and without an access. -/
def todo (s : SlTty nbTty) : Nat :=
  ∑ tty, (s.term tty).todo 0 + if s.blocked.isSome then 3 else 0

/-- Nothing moves by itself. -/
def Stands (cap : Nat) (s : SlTty nbTty) : Prop :=
  ∀ e : SlTtyEvent nbTty, e.own → s.next cap e = none

theorem sum_todo_setTerm (tty : Fin nbTty) (t : TtyTerm) :
    ∑ i, ((s.setTerm tty t).term i).todo 0 + (s.term tty).todo 0 =
      ∑ i, (s.term i).todo 0 + t.todo 0 := by
  have h := sum_add_of_eq_off (f := fun i => ((s.setTerm tty t).term i).todo 0)
    (g := fun i => (s.term i).todo 0) (i := tty) fun i hi => by rw [setTerm_of_ne s hi]
  rwa [setTerm_self] at h

/-- **Every step of its own lowers what is left.** -/
theorem todo_next_lt (he : e.own) (hnext : s.next cap e = some s') : s'.todo < s.todo := by
  cases e with
  | key tty ch => cases he
  | write ofs be data => cases he
  | turn tty =>
      obtain ⟨t, hturn, rfl⟩ := Option.map_eq_some_iff.mp hnext
      have hlt := TtyTerm.todo_turn_lt 0 hturn
      have hsum := sum_todo_setTerm (s := s) tty t
      refine Nat.add_lt_add_right ?_ _
      omega
  | sent tty =>
      obtain ⟨ch, hsend, rfl⟩ := Option.map_eq_some_iff.mp hnext
      have hlt := TtyTerm.todo_sendDone_lt 0 hsend
      have hsum := sum_todo_setTerm (s := s) tty ((s.term tty).sendDone ch)
      refine Nat.add_lt_add_right ?_ _
      omega
  | resume =>
      obtain ⟨w, hw, hroom⟩ := Option.bind_eq_some_iff.mp hnext
      split at hroom <;> cases hroom
      have hreceive := TtyTerm.todo_receive 0 w.2 (t := s.term w.1)
      have hsum := sum_todo_setTerm (s := s) w.1 ((s.term w.1).receive w.2)
      show ∑ i, ((s.setTerm w.1 _).term i).todo 0 + 0 < ∑ i, (s.term i).todo 0 + _
      rw [hw, Option.isSome_some, if_pos rfl]
      omega

/-- Where nothing moves, no program and no pipe has anything left, and the simulator runs. -/
theorem Stands.empty (hcap : 0 < cap) (hs : s.Stands cap) (h : s.Inv cap) :
    s.blocked = none ∧ ∀ i, (s.term i).sending = none ∧ (s.term i).keys = [] ∧
      (s.term i).pipe = [] := by
  have hterm (i : Fin nbTty) : (s.term i).sending = none ∧ (s.term i).keys = [] ∧
      (s.term i).pipe = [] := by
    have hsend : (s.term i).sending = none := Option.map_eq_none_iff.mp (hs (.sent i) rfl)
    have hturn : (s.term i).turn = none := Option.map_eq_none_iff.mp (hs (.turn i) rfl)
    rcases (h.term i).waits hturn with hsome | ⟨-, hkeys, hpipe⟩
    · rw [hsend] at hsome
      cases hsome
    · exact ⟨hsend, hkeys, hpipe⟩
  refine ⟨?_, hterm⟩
  cases hblocked : s.blocked with
  | none => rfl
  | some w =>
      have hnone : s.next cap .resume = none := hs .resume rfl
      rw [next, hblocked, Option.bind_some, (hterm w.1).2.2, List.length_nil, if_pos hcap] at hnone
      cases hnone

end SlTty

/-- **Everything arrives.** In every run what is written to a terminal is shown in its window or on its
    way there, in order; from every state only so many steps are left without the users and the
    processor; and where none is, every window has shown all its characters and has all its keys. -/
theorem windows_settle {cap : Nat} (hcap : 0 < cap) {events : List (SlTtyEvent nbTty)}
    {s : SlTty nbTty} (hrun : exec (SlTty.next cap) .new events = some s) :
    (∀ tty, s.Right cap events tty) ∧
      (∃ own s', (∀ e ∈ own, e.own) ∧ exec (SlTty.next cap) s own = some s' ∧ s'.Stands cap) ∧
      ∀ own s', (∀ e ∈ own, e.own) → exec (SlTty.next cap) s own = some s' →
        own.length ≤ s.todo ∧ (s'.Stands cap → s'.blocked = none ∧ ∀ tty,
          (s'.term tty).shown = events.flatMap (SlTtyEvent.written tty) ∧
          (s'.term tty).sent = events.flatMap (SlTtyEvent.typed tty)) := by
  have hfall : ∀ (s : SlTty nbTty) (e : SlTtyEvent nbTty) s', e.own → s.next cap e = some s' →
    s'.todo < s.todo := fun _ _ _ he hnext => SlTty.todo_next_lt he hnext
  refine ⟨SlTty.right_of_exec hrun, exists_exec_to_end SlTty.todo hfall s,
    fun own s' hown hexec => ⟨?_, fun hstands => ?_⟩⟩
  · have hle := exec_length_add_le SlTty.todo hfall hown hexec
    omega
  · have hall := (exec_append hrun own).trans hexec
    have hinv : s'.Inv cap :=
      exec_invariant (fun _ _ _ h hnext => h.next_kept hnext) SlTty.inv_new hall
    obtain ⟨hblocked, hempty⟩ := hstands.empty hcap hinv
    refine ⟨hblocked, fun tty => ?_⟩
    obtain ⟨hsend, hkeys, hpipe⟩ := hempty tty
    have hright := SlTty.right_of_exec hall tty
    have hwritten : own.flatMap (SlTtyEvent.written tty) = [] :=
      List.flatMap_eq_nil_iff.mpr fun e he => by
        have hown := hown e he
        cases e <;> first | rfl | cases hown
    have htyped : own.flatMap (SlTtyEvent.typed tty) = [] :=
      List.flatMap_eq_nil_iff.mpr fun e he => by
        have hown := hown e he
        cases e <;> first | rfl | cases hown
    constructor
    · have h := hright.written
      rw [List.flatMap_append, hwritten, hpipe, SlTty.blockedFor_none hblocked, List.append_nil,
        List.append_nil, List.append_nil] at h
      exact h.symm
    · have h := hright.typed
      rw [List.flatMap_append, htyped, hsend, hkeys, Option.toList_none, List.append_nil,
        List.append_nil, List.append_nil] at h
      exact h.symm

/-- Two windows with pipes of one byte: the simulator stands before the first, and a key waits. -/
theorem windows_settle_two : ∃ s : SlTty 2, exec (SlTty.next 1) .new [.write 0#32 0x0F#8 fun _ => 0x61#8,
      .key 1 0x62#8, .write 0#32 0x0F#8 fun _ => 0x63#8] = some s ∧ s.blocked ≠ none ∧
    ∃ own s', (∀ e ∈ own, e.own) ∧ exec (SlTty.next 1) s own = some s' ∧ s'.Stands 1 := by
  have hrun : exec (SlTty.next 1) (.new : SlTty 2) [.write 0#32 0x0F#8 fun _ => 0x61#8,
    .key 1 0x62#8, .write 0#32 0x0F#8 fun _ => 0x63#8] = some _ := rfl
  exact ⟨_, hrun, nofun, (windows_settle Nat.one_pos hrun).2.1⟩

end Rabbits
