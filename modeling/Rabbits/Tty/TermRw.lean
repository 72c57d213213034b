/-
  File:      Rabbits/Tty/TermRw.lean
  Subject:   The program in the terminal's window (tty_term_rw.cpp: main).

  It waits in `select` for its keyboard and for the pipe from the simulator, and then moves one byte
  of each that was ready: a key to `pipe_out`, a byte of the pipe to the screen. Only this program
  reads either of them, so what `select` found is still there.

  * `TtyTerm` -- the program with its keyboard, its pipe and what it has put on the screen;
  * `TtyTerm.turn` -- what it does without waiting; `TtyTerm.sending` -- the byte that it is writing
    to `pipe_out`;
  * `TtyTerm.Ok`, `TtyTerm.Ok.turn_kept` -- **no byte is lost, doubled or overtaken in it**;
  * `TtyTerm.Ok.waits`, `TtyTerm.todo_turn_lt` -- where it waits, and that it gets there.

  The modes of the terminal and the usage message are left out.
-/
import Mathlib.Data.Option.Basic
import Rabbits.Noc.Vci

namespace Rabbits

/-! ## 1. The program -/

/-- In `select`; behind it, with what was ready and is not yet served; in `write (pipe_out, &ch, 1)`. -/
inductive TermPc where
  | selecting
  | ready (key pipe : Bool)
  | sending (ch : Byte) (pipe : Bool)
  deriving DecidableEq

/-- The program; the keys that it has not read, the bytes in its pipe, the bytes it has shown; and all
    keys typed, all bytes put into the pipe and all keys passed on so far. -/
structure TtyTerm where
  pc : TermPc
  keys : List Byte
  pipe : List Byte
  shown : List Byte
  typed : List Byte
  put : List Byte
  sent : List Byte

namespace TtyTerm

def new : TtyTerm := ⟨.selecting, [], [], [], [], [], []⟩

/-- A key is typed. -/
def key (t : TtyTerm) (ch : Byte) : TtyTerm :=
  { t with keys := t.keys ++ [ch], typed := t.typed ++ [ch] }

/-- The simulator writes a byte to the pipe. -/
def receive (t : TtyTerm) (ch : Byte) : TtyTerm :=
  { t with pipe := t.pipe ++ [ch], put := t.put ++ [ch] }

/-- The byte in `write (pipe_out, &ch, 1)`. -/
def sending (t : TtyTerm) : Option Byte :=
  match t.pc with
  | .sending ch _ => some ch
  | .selecting | .ready _ _ => none

/-- The `write` has returned. -/
def sendDone (t : TtyTerm) (ch : Byte) : TtyTerm :=
  { t with
    pc := match t.pc with
      | .sending _ pipe => .ready false pipe
      | pc => pc
    sent := t.sent ++ [ch] }

/-- One turn: `select` when something is ready, a read with what follows it, or back to `select`. -/
def turn (t : TtyTerm) : Option TtyTerm :=
  match t.pc with
  | .selecting =>
      if t.keys.isEmpty && t.pipe.isEmpty then none
      else some { t with pc := .ready (!t.keys.isEmpty) (!t.pipe.isEmpty) }
  | .ready true pipe =>
      match t.keys with
      | ch :: keys => some { t with pc := .sending ch pipe, keys := keys }
      | [] => none
  | .ready false true =>
      match t.pipe with
      -- putchar (ch)
      | ch :: pipe => some { t with pc := .selecting, pipe := pipe, shown := t.shown ++ [ch] }
      | [] => none
  | .ready false false => some { t with pc := .selecting }
  | .sending _ _ => none

end TtyTerm

/-! ## 2. What it keeps -/

/-- Every key is passed on, in the `write`, or not read yet; every byte of the pipe is shown or in it;
    and what `select` found is there. -/
structure TtyTerm.Ok (t : TtyTerm) : Prop where
  keys : t.typed = t.sent ++ t.sending.toList ++ t.keys
  bytes : t.put = t.shown ++ t.pipe
  key : ∀ pipe, t.pc = .ready true pipe → t.keys ≠ []
  pipe : (∃ key, t.pc = .ready key true) ∨ (∃ ch, t.pc = .sending ch true) → t.pipe ≠ []

variable {t t' : TtyTerm}

namespace TtyTerm

theorem ok_new : new.Ok := by
  refine ⟨rfl, rfl, (fun pipe h => by cases h), ?_⟩
  rintro (⟨key, h⟩ | ⟨ch, h⟩) <;> cases h

theorem Ok.typeKey (h : t.Ok) (ch : Byte) : (t.key ch).Ok := by
  refine ⟨?_, h.bytes, (fun pipe hpc => by simp [TtyTerm.key]), h.pipe⟩
  show t.typed ++ [ch] = t.sent ++ t.sending.toList ++ (t.keys ++ [ch])
  rw [h.keys, List.append_assoc (t.sent ++ t.sending.toList)]

theorem Ok.receive (h : t.Ok) (ch : Byte) : (t.receive ch).Ok := by
  refine ⟨h.keys, ?_, h.key, (fun _ => by simp [TtyTerm.receive])⟩
  show t.put ++ [ch] = t.shown ++ (t.pipe ++ [ch])
  rw [h.bytes, List.append_assoc]

theorem sending_eq_some {ch : Byte} (h : t.sending = some ch) : ∃ pipe, t.pc = .sending ch pipe := by
  rw [sending] at h
  split at h
  · next hpc =>
      cases h
      exact ⟨_, hpc⟩
  all_goals cases h

/-- The `write` returns. -/
theorem sendDone_eq {ch ch' : Byte} {pipe : Bool} (hpc : t.pc = .sending ch pipe) :
    t.sendDone ch' = { t with pc := .ready false pipe, sent := t.sent ++ [ch'] } := by
  rw [sendDone, hpc]

theorem Ok.sendDone (h : t.Ok) {ch : Byte} (hs : t.sending = some ch) : (t.sendDone ch).Ok := by
  obtain ⟨pipe, hpc⟩ := sending_eq_some hs
  rw [sendDone_eq hpc]
  refine ⟨?_, h.bytes, (fun pipe' h' => by cases h'), ?_⟩
  · show t.typed = t.sent ++ [ch] ++ [] ++ t.keys
    rw [h.keys, hs, Option.toList_some, List.append_nil]
  · rintro (⟨key, hkey⟩ | ⟨ch', hch⟩)
    · cases hkey
      exact h.pipe (.inr ⟨ch, hpc⟩)
    · cases hch

/-! ## 3. Its turns -/

/-- All that a turn can do. -/
theorem turn_cases (h : t.turn = some t') :
    (t.pc = .selecting ∧ (t.keys ≠ [] ∨ t.pipe ≠ []) ∧
      t' = { t with pc := .ready (!t.keys.isEmpty) (!t.pipe.isEmpty) }) ∨
    (∃ ch keys pipe, t.pc = .ready true pipe ∧ t.keys = ch :: keys ∧
      t' = { t with pc := .sending ch pipe, keys := keys }) ∨
    (∃ ch pipe, t.pc = .ready false true ∧ t.pipe = ch :: pipe ∧
      t' = { t with pc := .selecting, pipe := pipe, shown := t.shown ++ [ch] }) ∨
    (t.pc = .ready false false ∧ t' = { t with pc := .selecting }) := by
  rw [turn] at h
  split at h
  · next hpc =>
      split at h
      · cases h
      · next hempty =>
          cases h
          refine .inl ⟨hpc, ?_, rfl⟩
          rw [Bool.and_eq_true, List.isEmpty_iff, List.isEmpty_iff] at hempty
          exact not_and_or.mp hempty
  · next pipe hpc =>
      split at h
      · next ch keys hkeys =>
          cases h
          exact .inr (.inl ⟨ch, keys, pipe, hpc, hkeys, rfl⟩)
      · cases h
  · next hpc =>
      split at h
      · next ch pipe hpipe =>
          cases h
          exact .inr (.inr (.inl ⟨ch, pipe, hpc, hpipe, rfl⟩))
      · cases h
  · next hpc =>
      cases h
      exact .inr (.inr (.inr ⟨hpc, rfl⟩))
  · cases h

theorem sending_eq_none (hpc : ∀ ch pipe, t.pc ≠ .sending ch pipe) : t.sending = none := by
  rw [sending]
  split
  · next h => exact absurd h (hpc _ _)
  all_goals rfl

/-- With no byte in the `write`, the keys are those passed on and those not read. -/
theorem Ok.typed_eq (h : t.Ok) (hpc : ∀ ch pipe, t.pc ≠ .sending ch pipe) :
    t.typed = t.sent ++ t.keys := by
  rw [h.keys, sending_eq_none hpc, Option.toList_none, List.append_nil]

/-- **No byte is lost, doubled or overtaken.** -/
theorem Ok.turn_kept (h : t.Ok) (hs : t.turn = some t') : t'.Ok := by
  rcases turn_cases hs with ⟨hpc, hready, rfl⟩ | ⟨ch, keys, pipe, hpc, hkeys, rfl⟩ |
    ⟨ch, pipe, hpc, hpipe, rfl⟩ | ⟨hpc, rfl⟩
  · have htyped := h.typed_eq (by simp [hpc])
    refine ⟨by simpa [sending] using htyped, h.bytes, ?_, ?_⟩
    · intro pipe hpc'
      simp only [TermPc.ready.injEq, Bool.not_eq_true', List.isEmpty_eq_false_iff] at hpc'
      exact hpc'.1
    · rintro (⟨key, hkey⟩ | ⟨ch, hch⟩)
      · simp only [TermPc.ready.injEq, Bool.not_eq_true', List.isEmpty_eq_false_iff] at hkey
        exact hkey.2
      · cases hch
  · have htyped := h.typed_eq (by simp [hpc])
    refine ⟨?_, h.bytes, (fun pipe' hpc' => by cases hpc'), ?_⟩
    · show t.typed = t.sent ++ [ch] ++ keys
      rw [htyped, hkeys, List.append_assoc, List.singleton_append]
    · rintro (⟨key, hkey⟩ | ⟨ch', hch⟩)
      · cases hkey
      · cases hch
        exact h.pipe (.inl ⟨true, hpc⟩)
  · have htyped := h.typed_eq (by simp [hpc])
    refine ⟨by simpa [sending] using htyped, ?_, (fun pipe' hpc' => by cases hpc'), ?_⟩
    · show t.put = t.shown ++ [ch] ++ pipe
      rw [h.bytes, hpipe, List.append_assoc, List.singleton_append]
    · rintro (⟨key, hkey⟩ | ⟨ch', hch⟩)
      · cases hkey
      · cases hch
  · have htyped := h.typed_eq (by simp [hpc])
    refine ⟨by simpa [sending] using htyped, h.bytes, (fun pipe' hpc' => by cases hpc'), ?_⟩
    rintro (⟨key, hkey⟩ | ⟨ch', hch⟩)
    · cases hkey
    · cases hch

theorem turn_sent (h : t.turn = some t') : t'.sent = t.sent := by
  rcases turn_cases h with ⟨-, -, rfl⟩ | ⟨_, _, _, -, -, rfl⟩ | ⟨_, _, -, -, rfl⟩ | ⟨-, rfl⟩ <;> rfl

theorem turn_history (h : t.turn = some t') : t'.typed = t.typed ∧ t'.put = t.put := by
  rcases turn_cases h with ⟨-, -, rfl⟩ | ⟨_, _, _, -, -, rfl⟩ | ⟨_, _, -, -, rfl⟩ | ⟨-, rfl⟩ <;>
    exact ⟨rfl, rfl⟩

theorem turn_pipe_le (h : t.turn = some t') : t'.pipe.length ≤ t.pipe.length := by
  rcases turn_cases h with ⟨-, -, rfl⟩ | ⟨_, _, _, -, -, rfl⟩ | ⟨_, _, -, hpipe, rfl⟩ | ⟨-, rfl⟩
  · exact Nat.le_refl _
  · exact Nat.le_refl _
  · rw [hpipe]
    exact Nat.le_succ _
  · exact Nat.le_refl _

/-- **Where it waits**: in its `write`, or in `select` with nothing to read. -/
theorem Ok.waits (h : t.Ok) (hstand : t.turn = none) :
    t.sending.isSome ∨ t.pc = .selecting ∧ t.keys = [] ∧ t.pipe = [] := by
  rw [turn] at hstand
  split at hstand
  · next hpc =>
      split at hstand
      · next hempty =>
          rw [Bool.and_eq_true, List.isEmpty_iff, List.isEmpty_iff] at hempty
          exact .inr ⟨hpc, hempty⟩
      · cases hstand
  · next pipe hpc =>
      split at hstand
      · cases hstand
      · next hkeys => exact absurd hkeys (h.key pipe hpc)
  · next hpc =>
      split at hstand
      · cases hstand
      · next hpipe => exact absurd hpipe (h.pipe (.inl ⟨false, hpc⟩))
  · cases hstand
  · next hpc => exact .inl (by rw [sending, hpc]; rfl)

/-- In its `write` it takes no turn. -/
theorem turn_of_sending {ch : Byte} (h : t.sending = some ch) : t.turn = none := by
  obtain ⟨pipe, hpc⟩ := sending_eq_some h
  rw [turn, hpc]

/-! ## 4. How long it is busy -/

/-- What is left to do before it waits, for the keys and bytes that it has: a key costs `4` turns and
    `room` for the byte that it becomes, a byte of the pipe `2`. -/
def todo (room : Nat) (t : TtyTerm) : Nat :=
  (room + 4) * t.keys.length + 2 * t.pipe.length +
    match t.pc with
    | .selecting => 3
    | .ready false false => 4
    | .ready _ _ => 2
    | .sending _ _ => room + 5

theorem todo_turn_lt (room : Nat) (h : t.turn = some t') : t'.todo room < t.todo room := by
  rcases turn_cases h with ⟨hpc, hready, rfl⟩ | ⟨ch, keys, pipe, hpc, hkeys, rfl⟩ |
    ⟨ch, pipe, hpc, hpipe, rfl⟩ | ⟨hpc, rfl⟩
  · have hpc' : (!t.keys.isEmpty) = true ∨ (!t.pipe.isEmpty) = true := by
      rw [Bool.not_eq_true', Bool.not_eq_true', List.isEmpty_eq_false_iff,
        List.isEmpty_eq_false_iff]
      exact hready
    simp only [todo, hpc]
    rcases Bool.eq_false_or_eq_true (!t.keys.isEmpty) with hk | hk <;>
      rcases Bool.eq_false_or_eq_true (!t.pipe.isEmpty) with hp | hp <;> simp [hk, hp] at hpc' ⊢
  · simp only [todo, hpc, hkeys, List.length_cons, Nat.mul_add]
    omega
  · simp only [todo, hpc, hpipe, List.length_cons, Nat.mul_add]
    omega
  · simp only [todo, hpc]
    omega

theorem todo_sendDone_lt (room : Nat) {ch : Byte} (h : t.sending = some ch) :
    (t.sendDone ch).todo room + room < t.todo room := by
  obtain ⟨pipe, hpc⟩ := sending_eq_some h
  rw [sendDone_eq hpc]
  cases pipe <;> simp only [todo, hpc] <;> omega

theorem todo_receive (room : Nat) (ch : Byte) : (t.receive ch).todo room = t.todo room + 2 := by
  simp only [todo, receive, List.length_append, List.length_singleton]
  omega

end TtyTerm

end Rabbits
