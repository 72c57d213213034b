/-
  File:      Rabbits/Tty/Console.lean
  Subject:   The serial terminal with the program in its window and the two pipes between them
             (tty_serial_device.cpp, tty_term_rw.cpp).

  The simulator writes a character to one pipe in the middle of an access, and stands still in that
  `write` while the pipe is full; the program in the window stands still in the same way while the
  other pipe is full.

  * `Console`, `ConsoleEvent`, `Console.next` -- both programs, with pipes of `cap` bytes;
  * `Console.Right`, `console_order` -- **in every run the characters of both directions arrive in
    order, and none is lost or doubled**;
  * `Console.Stands`, `Console.Jammed` -- where nothing moves by itself, and where nothing ever will;
  * `console_settles` -- **every state comes to a stand, and it is one of three kinds**;
  * `console_jams` -- **both programs can wait for each other for good**, and when they cannot.
-/
import Rabbits.Tty.TermRw
import Rabbits.Tty.TtySerial

namespace Rabbits

open Lib

/-! ## 1. Both programs -/

/-- The terminal device, the program in the window, the pipe back to the device, and the character
    with which the simulator stands in `::write (pout, &ch, 1)`. -/
structure Console where
  dev : TtySerial
  term : TtyTerm
  back : List Byte
  blocked : Option Byte

/-- A key; a turn of the program in the window; its `write` and that of the simulator return; and
    what the simulator does. -/
inductive ConsoleEvent where
  | key (ch : Byte)
  | turn
  | sent
  | resume
  | simulator (e : TtyEvent)

/-- What happens without a user and without an access. -/
def ConsoleEvent.own : ConsoleEvent → Bool
  | .key _ | .simulator (.write ..) | .simulator (.read ..) => false
  | .turn | .sent | .resume | .simulator (.receive _) | .simulator .deliver | .simulator .reader
  | .simulator .irqUpdate => true

/-- The keys typed. -/
def ConsoleEvent.typed : ConsoleEvent → List Byte
  | .key ch => [ch]
  | _ => []

/-- The characters written. -/
def ConsoleEvent.written : ConsoleEvent → List Byte
  | .simulator (.write ofs be data) => if lofsOf ofs be = 0#32 then [firstByte data] else []
  | _ => []

namespace Console

variable (cap : Nat)

def new : Console := ⟨.new, .new, [], none⟩

/-- `::write (pout, &ch, 1)`. -/
def putChar (c : Console) (ch : Byte) : Console :=
  if c.term.pipe.length < cap then { c with term := c.term.receive ch }
  else { c with blocked := some ch }

/-- What a step of the simulator does to the pipes. -/
def onPipes (c : Console) : TtyEvent → Option Console
  | .write ofs be data => some (if lofsOf ofs be = 0#32 then c.putChar cap (firstByte data) else c)
  -- ::read (pin, &ch, 1)
  | .receive ch => if c.back.head? = some ch then some { c with back := c.back.tail } else none
  | .read .. | .deliver | .reader | .irqUpdate => some c

/-- A step of the simulator, where it does not stand in its `write`. -/
def simulate (c : Console) (e : TtyEvent) : Option Console :=
  (c.onPipes cap e).bind fun c => (c.dev.next e).map fun dev => { c with dev := dev }

def next (c : Console) : ConsoleEvent → Option Console
  | .key ch => some { c with term := c.term.key ch }
  | .turn => c.term.turn.map fun term => { c with term := term }
  | .sent => c.term.sending.bind fun ch =>
      if c.back.length < cap then some { c with term := c.term.sendDone ch, back := c.back ++ [ch] }
      else none
  | .resume => c.blocked.bind fun ch =>
      if c.term.pipe.length < cap then some { c with term := c.term.receive ch, blocked := none }
      else none
  | .simulator e => if c.blocked = none then c.simulate cap e else none

/-! ## 2. The property -/

/-- The keys typed are the characters in the responses to the reads, those in the ring, the byte that the device has in
    hand, those in the pipe, the one in the `write` of the window's program, and those that it has not
    read; and the characters written are those shown, those in the pipe, and the one with which the
    simulator stands. -/
structure Right (c : Console) (typed written : List Byte) : Prop where
  typed : typed.map (·.setWidth 32) = c.dev.returned ++ c.dev.buffered ++ c.dev.held ++
    (c.back ++ c.term.sending.toList ++ c.term.keys).map (·.setWidth 32)
  written : written = c.term.shown ++ c.term.pipe ++ c.blocked.toList
  back : c.back.length ≤ cap
  pipe : c.term.pipe.length ≤ cap
  device : c.dev.TtyRight

/-! ## 3. The invariant -/

/-- The window's program has its own bytes, and the pipe what it has sent and the device has not
    received. -/
structure Pipes (c : Console) (received : List Byte) : Prop where
  term : c.term.Ok
  sent : c.term.sent = received ++ c.back
  back : c.back.length ≤ cap
  pipe : c.term.pipe.length ≤ cap

structure Inv (c : Console) : Prop extends Pipes cap c c.dev.received where
  dev : TtySerial.TtyInv c.dev

variable {cap} {c c' c₁ : Console} {received : List Byte}

theorem inv_new : new.Inv cap :=
  ⟨⟨TtyTerm.ok_new, rfl, Nat.zero_le _, Nat.zero_le _⟩, TtySerial.ttyInv_new⟩

theorem Inv.right (h : c.Inv cap) :
    c.Right cap c.term.typed (c.term.put ++ c.blocked.toList) := by
  refine ⟨?_, by rw [h.term.bytes], h.back, h.pipe, h.dev.right⟩
  rw [h.term.keys, h.sent]
  simp only [List.map_append, h.dev.kept, List.append_assoc]

/-- The byte that a step of the device receives. -/
def receivedBy : TtyEvent → List Byte
  | .receive ch => [ch]
  | .write .. | .read .. | .deliver | .reader | .irqUpdate => []

theorem tryPut_received (d : TtySerial) (ch : Byte) : (d.tryPut ch).received = d.received := by
  rw [TtySerial.tryPut]
  split <;> rfl

theorem readChar_received (d : TtySerial) : d.readChar.1.received = d.received := by
  rw [TtySerial.readChar]
  split <;> rfl

theorem next_received {d d' : TtySerial} {e : TtyEvent} (h : d.next e = some d') :
    d'.received = d.received ++ receivedBy e := by
  cases e with
  | write ofs be data =>
      have hw : d.write ofs be data = some d' := h
      rw [receivedBy, List.append_nil]
      rw [TtySerial.write] at hw
      split at hw <;> cases hw <;> rfl
  | read ofs be =>
      obtain ⟨⟨d₁, val⟩, hr, rfl⟩ := Option.map_eq_some_iff.mp h
      rw [receivedBy, List.append_nil]
      rw [TtySerial.read] at hr
      split at hr
      · have hd : d.readChar.1 = d₁ := congrArg Prod.fst (Option.some.inj hr)
        exact hd ▸ readChar_received d
      all_goals
        cases hr
        try rfl
  | receive ch =>
      rw [TtySerial.next] at h
      split at h
      · cases h
        exact tryPut_received _ ch
      all_goals cases h
  | deliver =>
      rw [receivedBy, List.append_nil]
      rw [TtySerial.next] at h
      split at h
      · split at h <;> cases h <;> rfl
      · cases h
  | reader =>
      rw [receivedBy, List.append_nil]
      rw [TtySerial.next] at h
      split at h
      · cases h
        exact tryPut_received _ _
      all_goals cases h
  | irqUpdate =>
      rw [receivedBy, List.append_nil]
      rw [TtySerial.next] at h
      split at h
      · cases h
        rfl
      · cases h

/-! ## 4. Steps -/

/-- What the pipe takes, with what the simulator stands with. -/
theorem putChar_put (hfree : c.blocked = none) (ch : Byte) :
    (c.putChar cap ch).term.put ++ (c.putChar cap ch).blocked.toList = c.term.put ++ [ch] := by
  rw [putChar]
  split
  · show (c.term.put ++ [ch]) ++ c.blocked.toList = c.term.put ++ [ch]
    rw [hfree, Option.toList_none, List.append_nil]
  · rfl

theorem putChar_typed (ch : Byte) : (c.putChar cap ch).term.typed = c.term.typed := by
  rw [putChar]
  split <;> rfl

theorem putChar_dev (ch : Byte) : (c.putChar cap ch).dev = c.dev := by
  rw [putChar]
  split <;> rfl

theorem Pipes.putChar (h : c.Pipes cap received) (ch : Byte) :
    (c.putChar cap ch).Pipes cap received := by
  rw [Console.putChar]
  split
  · next hroom =>
      refine ⟨h.term.receive ch, h.sent, h.back, ?_⟩
      rw [TtyTerm.receive, List.length_append, List.length_singleton]
      omega
  · exact ⟨h.term, h.sent, h.back, h.pipe⟩

/-- **A step of the simulator, on the pipes.** -/
theorem Pipes.onPipes_kept (h : c.Pipes cap received) {e : TtyEvent}
    (hp : c.onPipes cap e = some c₁) : c₁.Pipes cap (received ++ receivedBy e) := by
  cases e with
  | write ofs be data =>
      cases hp
      rw [receivedBy, List.append_nil]
      split
      · exact h.putChar _
      · exact h
  | receive ch =>
      rw [onPipes] at hp
      split at hp
      · next hhead =>
          obtain ⟨back, hback⟩ := List.head?_eq_some_iff.mp hhead
          cases hp
          refine ⟨h.term, ?_, ?_, h.pipe⟩
          · rw [h.sent, hback, List.append_assoc]
            rfl
          · rw [List.length_tail]
            exact (Nat.sub_le _ _).trans h.back
      · cases hp
  | read ofs be =>
      cases hp
      rw [receivedBy, List.append_nil]
      exact h
  | deliver =>
      cases hp
      rw [receivedBy, List.append_nil]
      exact h
  | reader =>
      cases hp
      rw [receivedBy, List.append_nil]
      exact h
  | irqUpdate =>
      cases hp
      rw [receivedBy, List.append_nil]
      exact h

theorem onPipes_dev {e : TtyEvent} (hp : c.onPipes cap e = some c₁) : c₁.dev = c.dev := by
  cases e with
  | write ofs be data =>
      cases hp
      split
      · exact putChar_dev _
      · rfl
  | receive ch =>
      rw [onPipes] at hp
      split at hp <;> cases hp
      rfl
  | read ofs be | deliver | reader | irqUpdate =>
      cases hp
      rfl

/-- **Every step keeps the bytes.** -/
theorem Inv.next_kept (h : c.Inv cap) {e : ConsoleEvent} (hnext : c.next cap e = some c') :
    c'.Inv cap := by
  cases e with
  | key ch =>
      cases hnext
      exact ⟨⟨h.term.typeKey ch, h.sent, h.back, h.pipe⟩, h.dev⟩
  | turn =>
      obtain ⟨term, hturn, rfl⟩ := Option.map_eq_some_iff.mp hnext
      exact ⟨⟨h.term.turn_kept hturn, (TtyTerm.turn_sent hturn).trans h.sent, h.back,
        (TtyTerm.turn_pipe_le hturn).trans h.pipe⟩, h.dev⟩
  | sent =>
      obtain ⟨ch, hsend, hroom⟩ := Option.bind_eq_some_iff.mp hnext
      split at hroom
      · next hlt =>
          cases hroom
          refine ⟨⟨h.term.sendDone hsend, ?_, ?_, h.pipe⟩, h.dev⟩
          · show c.term.sent ++ [ch] = c.dev.received ++ (c.back ++ [ch])
            rw [h.sent, List.append_assoc]
          · rw [List.length_append, List.length_singleton]
            omega
      · cases hroom
  | resume =>
      obtain ⟨ch, hblocked, hroom⟩ := Option.bind_eq_some_iff.mp hnext
      split at hroom
      · next hlt =>
          cases hroom
          refine ⟨⟨h.term.receive ch, h.sent, h.back, ?_⟩, h.dev⟩
          rw [TtyTerm.receive, List.length_append, List.length_singleton]
          omega
      · cases hroom
  | simulator e =>
      rw [next] at hnext
      split at hnext
      · obtain ⟨c₁, hp, hmap⟩ := Option.bind_eq_some_iff.mp hnext
        obtain ⟨dev, hdev, rfl⟩ := Option.map_eq_some_iff.mp hmap
        rw [onPipes_dev hp] at hdev
        have hpipes := h.toPipes.onPipes_kept hp
        rw [← next_received hdev] at hpipes
        exact ⟨⟨hpipes.term, hpipes.sent, hpipes.back, hpipes.pipe⟩, h.dev.next_kept hdev⟩
      · cases hnext

theorem onPipes_written (hfree : c.blocked = none) {e : TtyEvent}
    (hp : c.onPipes cap e = some c₁) : c₁.term.put ++ c₁.blocked.toList =
      c.term.put ++ c.blocked.toList ++ ConsoleEvent.written (.simulator e) := by
  cases e with
  | write ofs be data =>
      cases hp
      rw [hfree, Option.toList_none, List.append_nil, ConsoleEvent.written]
      split
      · exact putChar_put hfree _
      · rw [hfree, Option.toList_none]
  | receive ch =>
      rw [onPipes] at hp
      split at hp <;> cases hp
      exact (List.append_nil _).symm
  | read ofs be | deliver | reader | irqUpdate =>
      cases hp
      exact (List.append_nil _).symm

theorem onPipes_typed {e : TtyEvent} (hp : c.onPipes cap e = some c₁) :
    c₁.term.typed = c.term.typed := by
  cases e with
  | write ofs be data =>
      cases hp
      split
      · exact putChar_typed _
      · rfl
  | receive ch =>
      rw [onPipes] at hp
      split at hp <;> cases hp
      rfl
  | read ofs be | deliver | reader | irqUpdate =>
      cases hp
      rfl

/-- What is typed, and what is written. -/
theorem next_history {e : ConsoleEvent} (hnext : c.next cap e = some c') :
    c'.term.typed = c.term.typed ++ e.typed ∧ c'.term.put ++ c'.blocked.toList =
      c.term.put ++ c.blocked.toList ++ e.written := by
  cases e with
  | key ch =>
      cases hnext
      exact ⟨rfl, (List.append_nil _).symm⟩
  | turn =>
      obtain ⟨term, hturn, rfl⟩ := Option.map_eq_some_iff.mp hnext
      obtain ⟨htyped, hput⟩ := TtyTerm.turn_history hturn
      refine ⟨htyped.trans (List.append_nil _).symm, ?_⟩
      show term.put ++ c.blocked.toList = c.term.put ++ c.blocked.toList ++ []
      rw [hput, List.append_nil]
  | sent =>
      obtain ⟨ch, hsend, hroom⟩ := Option.bind_eq_some_iff.mp hnext
      split at hroom <;> cases hroom
      exact ⟨(List.append_nil _).symm, (List.append_nil _).symm⟩
  | resume =>
      obtain ⟨ch, hblocked, hroom⟩ := Option.bind_eq_some_iff.mp hnext
      split at hroom <;> cases hroom
      refine ⟨(List.append_nil _).symm, ?_⟩
      show c.term.put ++ [ch] ++ [] = c.term.put ++ c.blocked.toList ++ []
      rw [hblocked, Option.toList_some]
  | simulator e =>
      rw [next] at hnext
      split at hnext
      · next hfree =>
          obtain ⟨c₁, hp, hmap⟩ := Option.bind_eq_some_iff.mp hnext
          obtain ⟨dev, hdev, rfl⟩ := Option.map_eq_some_iff.mp hmap
          have hwritten := onPipes_written hfree hp
          exact ⟨(onPipes_typed hp).trans (List.append_nil _).symm, hwritten⟩
      · cases hnext

end Console

open Console

/-- **In every run the characters of both directions arrive in order**, whatever the two programs, the
    user and the processor do in between. -/
theorem console_order {cap : Nat} {events : List ConsoleEvent} {c : Console}
    (hrun : exec (next cap) .new events = some c) :
    c.Right cap (events.flatMap ConsoleEvent.typed) (events.flatMap ConsoleEvent.written) := by
  have hinv : c.Inv cap := exec_invariant (fun _ _ _ h hnext => h.next_kept hnext) inv_new hrun
  have htyped : c.term.typed = events.flatMap ConsoleEvent.typed :=
    @exec_appends _ _ _ _ (fun c : Console => c.term.typed) ConsoleEvent.typed
      (fun _ _ _ hnext => (next_history hnext).1) _ _ _ hrun
  have hwritten : c.term.put ++ c.blocked.toList = events.flatMap ConsoleEvent.written :=
    @exec_appends _ _ _ _ (fun c : Console => c.term.put ++ c.blocked.toList) ConsoleEvent.written
      (fun _ _ _ hnext => (next_history hnext).2) _ _ _ hrun
  rw [← htyped, ← hwritten]
  exact hinv.right

/-- Two keys, the first of which the processor reads while the second one is on its way; and a
    character on the screen. -/
theorem console_order_both : ∃ c, exec (Console.next 1) .new [.key 0x61#8,
    .simulator (.write 0#32 0x01#8 fun _ => 0x62#8), .turn, .turn, .sent, .turn,
    .simulator (.receive 0x61#8), .key 0x63#8, .simulator (.read 0#32 0x01#8),
    .simulator (.read 0#32 0x01#8)] = some c ∧
    c.dev.returned = [0x61#32] ∧ c.Right 1 [0x61#8, 0x63#8] [0x62#8] := by
  have hrun : exec (Console.next 1) .new [.key 0x61#8,
    .simulator (.write 0#32 0x01#8 fun _ => 0x62#8), .turn, .turn, .sent, .turn,
    .simulator (.receive 0x61#8), .key 0x63#8, .simulator (.read 0#32 0x01#8),
    .simulator (.read 0#32 0x01#8)] = some _ := rfl
  exact ⟨_, hrun, rfl, console_order hrun⟩

namespace Console

/-! ## 5. How long anything moves by itself -/

/-- What is left to do in the device: a turn of `irq_update_thread`, `evRead`, and the byte in hand. -/
def busy (d : TtySerial) : Nat :=
  (if d.irqUpdate then 1 else 0) + (if d.evRead then 3 else 0) +
    match d.reader with
    | .polling => 0
    | .asleep _ => 1
    | .woken _ => 3

/-- What is left to do without the user and the processor. -/
def todo (c : Console) : Nat :=
  c.term.todo 2 + 2 * c.back.length + (if c.blocked.isSome then 3 else 0) + busy c.dev

variable {cap : Nat} {c c' c₁ : Console}

theorem busy_tryPut_le (d : TtySerial) (ch : Byte) :
    busy (d.tryPut ch) ≤ (if d.irqUpdate then 1 else 0) + (if d.evRead then 3 else 0) + 1 := by
  rw [TtySerial.tryPut]
  split
  · exact Nat.le_refl _
  · show 1 + (if d.evRead then 3 else 0) + 0 ≤ _
    omega

theorem busy_receive_lt {d d' : TtySerial} {ch : Byte} (h : d.next (.receive ch) = some d') :
    busy d' < busy d + 2 := by
  rw [TtySerial.next] at h
  split at h
  · cases h
    have hle := busy_tryPut_le { d with received := d.received ++ [ch] } ch
    simp only at hle
    simp only [busy] at hle ⊢
    omega
  all_goals cases h

theorem busy_own_lt {d d' : TtySerial} {e : TtyEvent}
    (he : e = .deliver ∨ e = .reader ∨ e = .irqUpdate) (h : d.next e = some d') :
    busy d' < busy d := by
  rcases he with rfl | rfl | rfl
  · rw [TtySerial.next] at h
    split at h
    · next hev =>
        split at h <;> cases h <;> simp only [busy, hev, if_true] <;> split <;> simp_all
    · cases h
  · rw [TtySerial.next] at h
    split at h
    · next ch hreader =>
        cases h
        have hle := busy_tryPut_le d ch
        simp only [busy, hreader] at hle ⊢
        omega
    all_goals cases h
  · rw [TtySerial.next] at h
    split at h
    · next hirq =>
        cases h
        show 0 + (if d.evRead then 3 else 0) + _ < (if d.irqUpdate then 1 else 0) + _ + _
        rw [if_pos hirq]
        exact Nat.add_lt_add_right (Nat.add_lt_add_right Nat.one_pos _) _
    · cases h

/-- **Every step of its own lowers what is left.** -/
theorem todo_next_lt {e : ConsoleEvent} (he : e.own) (hnext : c.next cap e = some c') :
    c'.todo < c.todo := by
  cases e with
  | key ch => cases he
  | turn =>
      obtain ⟨term, hturn, rfl⟩ := Option.map_eq_some_iff.mp hnext
      have hlt := TtyTerm.todo_turn_lt 2 hturn
      simp only [todo]
      omega
  | sent =>
      obtain ⟨ch, hsend, hroom⟩ := Option.bind_eq_some_iff.mp hnext
      split at hroom <;> cases hroom
      have hlt := TtyTerm.todo_sendDone_lt 2 hsend
      simp only [todo, List.length_append, List.length_singleton]
      omega
  | resume =>
      obtain ⟨ch, hblocked, hroom⟩ := Option.bind_eq_some_iff.mp hnext
      split at hroom <;> cases hroom
      simp only [todo, hblocked, TtyTerm.todo_receive, Option.isSome_some, Option.isSome_none, if_true,
        Bool.false_eq_true, if_false]
      omega
  | simulator e =>
      rw [next] at hnext
      split at hnext
      · obtain ⟨c₁, hp, hmap⟩ := Option.bind_eq_some_iff.mp hnext
        obtain ⟨dev, hdev, rfl⟩ := Option.map_eq_some_iff.mp hmap
        rw [onPipes_dev hp] at hdev
        cases e with
        | write ofs be data => cases he
        | read ofs be => cases he
        | receive ch =>
            rw [onPipes] at hp
            split at hp
            · next hhead =>
                obtain ⟨back, hback⟩ := List.head?_eq_some_iff.mp hhead
                cases hp
                have hlt := busy_receive_lt hdev
                simp only [todo, hback, List.tail_cons, List.length_cons]
                omega
            · cases hp
        | deliver | reader | irqUpdate =>
            cases hp
            have hlt := busy_own_lt (by simp) hdev
            simp only [todo]
            omega
      · cases hnext

/-! ## 6. Where it stands still -/

/-- Nothing moves by itself. -/
def Stands (cap : Nat) (c : Console) : Prop :=
  ∀ e : ConsoleEvent, e.own → c.next cap e = none

/-- The simulator waits for the program in the window, which waits for the simulator. -/
structure Jammed (cap : Nat) (c : Console) : Prop where
  blocked : c.blocked.isSome
  pipe : c.term.pipe.length = cap
  sending : c.term.sending.isSome
  back : c.back.length = cap

/-- All characters written are on the screen, and all keys in the ring or returned. -/
structure Delivered (c : Console) : Prop where
  screen : c.term.put = c.term.shown
  free : c.blocked = none
  ring : c.term.typed.map (·.setWidth 32) = c.dev.returned ++ c.dev.buffered

/-- The processor has not read the ring, and the device waits for it; behind a full pipe the program in
    the window shows nothing more. -/
structure RingFull (cap : Nat) (c : Console) : Prop where
  count : c.dev.readCount = READ_BUF_SIZE
  free : c.blocked = none
  screen : c.term.put = c.term.shown ∨ c.term.sending.isSome ∧ c.back.length = cap

/-- The program in the window stands in its `write` before a full pipe, or has nothing to do. -/
theorem Stands.term (hs : c.Stands cap) (h : c.Inv cap) :
    (c.term.sending.isSome ∧ c.back.length = cap) ∨
      c.term.sending = none ∧ c.term.keys = [] ∧ c.term.pipe = [] := by
  have hturn : c.term.turn = none := Option.map_eq_none_iff.mp (hs .turn rfl)
  rcases h.term.waits hturn with hsend | ⟨hpc, hkeys, hpipe⟩
  · obtain ⟨ch, hch⟩ := Option.isSome_iff_exists.mp hsend
    refine .inl ⟨hsend, Nat.le_antisymm h.back (Nat.le_of_not_lt fun hlt => ?_)⟩
    have hnone : c.next cap .sent = none := hs .sent rfl
    rw [next, hch, Option.bind_some, if_pos hlt] at hnone
    cases hnone
  · exact .inr ⟨TtyTerm.sending_eq_none (by simp [hpc]), hkeys, hpipe⟩

/-- A simulator that stands in its `write` stands before a full pipe. -/
theorem Stands.pipe_full (hs : c.Stands cap) (h : c.Inv cap) (hblocked : c.blocked.isSome) :
    c.term.pipe.length = cap := by
  obtain ⟨ch, hch⟩ := Option.isSome_iff_exists.mp hblocked
  refine Nat.le_antisymm h.pipe (Nat.le_of_not_lt fun hlt => ?_)
  have hnone : c.next cap .resume = none := hs .resume rfl
  rw [next, hch, Option.bind_some, if_pos hlt] at hnone
  cases hnone

/-- A device that stands still, with the simulator running: the ring is full, or the pipe is empty and
    no byte is in hand. -/
theorem Stands.dev (hs : c.Stands cap) (h : c.Inv cap) (hfree : c.blocked = none) :
    c.dev.readCount = READ_BUF_SIZE ∨ c.back = [] ∧ c.dev.held = [] := by
  have hsim : ∀ e, ConsoleEvent.own (.simulator e) → c.simulate cap e = none := fun e he => by
    have hnone := hs (.simulator e) he
    rwa [next, if_pos hfree] at hnone
  cases hreader : c.dev.reader with
  | polling =>
      refine .inr ⟨?_, by rw [TtySerial.held, hreader]⟩
      cases hback : c.back with
      | nil => rfl
      | cons ch back =>
          have hnone := hsim (.receive ch) rfl
          rw [simulate, onPipes, hback, List.head?_cons, if_pos rfl, Option.bind_some,
            TtySerial.next, hreader] at hnone
          cases hnone
  | asleep ch =>
      rcases h.dev.wakes ch hreader with hfull | hev
      · exact .inl hfull
      · have hnone := hsim .deliver rfl
        rw [simulate, onPipes, Option.bind_some, TtySerial.next, if_pos hev, hreader] at hnone
        cases hnone
  | woken ch =>
      have hnone := hsim .reader rfl
      rw [simulate, onPipes, Option.bind_some, TtySerial.next, hreader] at hnone
      cases hnone

/-- **Where it stands.** -/
theorem Stands.kinds (hcap : 0 < cap) (hs : c.Stands cap) (h : c.Inv cap) :
    c.Delivered ∨ c.RingFull cap ∨ c.Jammed cap := by
  cases hblocked : c.blocked with
  | some ch =>
      have hsome : c.blocked.isSome := by rw [hblocked]; rfl
      have hpipe := hs.pipe_full h hsome
      rcases hs.term h with ⟨hsend, hback⟩ | ⟨-, -, hempty⟩
      · exact .inr (.inr ⟨hsome, hpipe, hsend, hback⟩)
      · rw [hempty] at hpipe
        exact absurd hpipe (Nat.ne_of_lt hcap)
  | none =>
      have hshown (hempty : c.term.pipe = []) : c.term.put = c.term.shown := by
        rw [h.term.bytes, hempty, List.append_nil]
      rcases hs.dev h hblocked with hfull | ⟨hback, hheld⟩
      · refine .inr (.inl ⟨hfull, hblocked, ?_⟩)
        rcases hs.term h with hsend | ⟨-, -, hempty⟩
        · exact .inr hsend
        · exact .inl (hshown hempty)
      · rcases hs.term h with ⟨-, hlen⟩ | ⟨hsend, hkeys, hempty⟩
        · rw [hback] at hlen
          exact absurd hlen (Nat.ne_of_lt hcap)
        · refine .inl ⟨hshown hempty, hblocked, ?_⟩
          have htyped := h.right.typed
          rw [hheld, hback, hsend, hkeys] at htyped
          simpa using htyped

/-- A jam takes more than a pipe of keys that the processor has not read. -/
theorem Jammed.unread (hj : c.Jammed cap) (h : c.Inv cap) :
    c.dev.returned.length + cap < c.term.typed.length := by
  have htyped := congrArg List.length h.right.typed
  obtain ⟨ch, hch⟩ := Option.isSome_iff_exists.mp hj.sending
  simp only [List.length_map, List.length_append, hj.back, hch, Option.toList_some,
    List.length_singleton] at htyped
  omega

/-- **A jam is for good.** -/
theorem Jammed.next_kept (hj : c.Jammed cap) {e : ConsoleEvent} (hnext : c.next cap e = some c') :
    c'.Jammed cap ∧ c'.term.shown = c.term.shown ∧ c'.dev = c.dev := by
  obtain ⟨ch, hch⟩ := Option.isSome_iff_exists.mp hj.sending
  obtain ⟨ch', hch'⟩ := Option.isSome_iff_exists.mp hj.blocked
  cases e with
  | key ch =>
      cases hnext
      exact ⟨⟨hj.blocked, hj.pipe, hj.sending, hj.back⟩, rfl, rfl⟩
  | turn =>
      rw [next, TtyTerm.turn_of_sending hch] at hnext
      cases hnext
  | sent =>
      rw [next, hch, Option.bind_some, if_neg (by rw [hj.back]; exact Nat.lt_irrefl _)] at hnext
      cases hnext
  | resume =>
      rw [next, hch', Option.bind_some, if_neg (by rw [hj.pipe]; exact Nat.lt_irrefl _)] at hnext
      cases hnext
  | simulator e =>
      rw [next, if_neg (by rw [hch']; nofun)] at hnext
      cases hnext

end Console

/-- **Every state comes to a stand**: without the user and the processor only so many steps are left;
    where none is, all is delivered, the ring is full, or both programs wait for each other. -/
theorem console_settles {cap : Nat} (hcap : 0 < cap) {events : List ConsoleEvent} {c : Console}
    (hrun : exec (next cap) .new events = some c) :
    (∃ own c', (∀ e ∈ own, e.own) ∧ exec (next cap) c own = some c' ∧ c'.Stands cap) ∧
      ∀ own c', (∀ e ∈ own, e.own) → exec (next cap) c own = some c' →
        own.length ≤ c.todo ∧
          (c'.Stands cap → c'.Delivered ∨ c'.RingFull cap ∨ c'.Jammed cap) := by
  have hfall : ∀ (s : Console) (e : ConsoleEvent) s', e.own → s.next cap e = some s' →
      s'.todo < s.todo := fun _ _ _ he hnext => todo_next_lt he hnext
  refine ⟨exists_exec_to_end todo hfall c, fun own c' hown hexec => ⟨?_, fun hstands => ?_⟩⟩
  · have hle := exec_length_add_le todo hfall hown hexec
    omega
  · have hinv : c'.Inv cap := exec_invariant (fun _ _ _ h hnext => h.next_kept hnext) inv_new
      ((exec_append hrun own).trans hexec)
    exact hstands.kinds hcap hinv

theorem console_settles_one : ∃ c, exec (Console.next 1) .new [.key 0x61#8] = some c ∧
    ∃ own c', (∀ e ∈ own, e.own) ∧ exec (Console.next 1) c own = some c' ∧ c'.Stands 1 := by
  have hrun : exec (Console.next 1) .new [.key 0x61#8] = some _ := rfl
  exact ⟨_, hrun, (console_settles Nat.one_pos hrun).1⟩

/-- **Both programs can wait for each other for good**: then nothing is shown and nothing is received
    any more, whatever is typed; and more than a pipe of keys has not been read. -/
theorem console_jams {cap : Nat} {events : List ConsoleEvent} {c : Console}
    (hrun : exec (next cap) .new events = some c) (hjam : c.Jammed cap) :
    c.dev.returned.length + cap < (events.flatMap ConsoleEvent.typed).length ∧
      ∀ later c', exec (next cap) c later = some c' →
        c'.Jammed cap ∧ c'.term.shown = c.term.shown ∧ c'.dev = c.dev := by
  have hinv : c.Inv cap := exec_invariant (fun _ _ _ h hnext => h.next_kept hnext) inv_new hrun
  have htyped : c.term.typed = events.flatMap ConsoleEvent.typed :=
    @exec_appends _ _ _ _ (fun c : Console => c.term.typed) ConsoleEvent.typed
      (fun _ _ _ hnext => (next_history hnext).1) _ _ _ hrun
  refine ⟨htyped ▸ hjam.unread hinv, fun later c' hexec => ?_⟩
  refine exec_invariant (I := fun c' => c'.Jammed cap ∧ c'.term.shown = c.term.shown ∧
    c'.dev = c.dev) ?_ ⟨hjam, rfl, rfl⟩ hexec
  rintro s e s' ⟨hj, hshown, hdev⟩ hnext
  obtain ⟨hj', hshown', hdev'⟩ := hj.next_kept hnext
  exact ⟨hj', hshown'.trans hshown, hdev'.trans hdev⟩

/-- Two keys and two characters, with pipes of one byte. -/
theorem console_jams_twoEach : ∃ events c, exec (Console.next 1) .new events = some c ∧ c.Jammed 1 ∧
    ∀ later c', exec (Console.next 1) c later = some c' → c'.Jammed 1 := by
  have hrun : exec (Console.next 1) .new [.key 0x61#8, .turn, .turn, .sent, .turn, .key 0x62#8, .turn,
    .turn, .simulator (.write 0#32 0x01#8 fun _ => 0x63#8),
    .simulator (.write 0#32 0x01#8 fun _ => 0x64#8)] = some _ := rfl
  refine ⟨_, _, hrun, ⟨rfl, rfl, rfl, rfl⟩, fun later c' h => ?_⟩
  exact ((console_jams hrun ⟨rfl, rfl, rfl, rfl⟩).2 later c' h).1

end Rabbits
