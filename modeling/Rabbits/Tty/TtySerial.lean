/-
  File:      Rabbits/Tty/TtySerial.lean
  Subject:   The input of the serial terminal (tty_serial_device.cpp: read_thread, irq_update_thread,
             write, read).

  A thread puts the bytes that it reads from a pipe into a ring, and sleeps with a byte in hand while
  the ring is full; reads of the device take them out.

  * `TtySerial.put`, `TtySerial.readChar` -- the two ends of the ring;
  * `TtySerial.write`, `TtySerial.read` -- the accesses; `TtySerial.next` -- a step;
  * `TtyRight` -- **the property**: what has been returned, what is in the ring and the byte in hand
    are the bytes received, in order; the interrupt follows the count;
  * `tty_right` -- **it holds in every state of every run**.

  The characters written to the terminal are left out.
-/
import Rabbits.Lib.Labelled
import Rabbits.Lib.Ring
import Rabbits.Noc.SlaveDevice

namespace Rabbits

open Lib

/-! ## 1. The device -/

def READ_BUF_SIZE : Nat := 256
def TTY_INT_READ : ULong := 1

/-- Where `read_thread` is: before its next byte, asleep on `evRead` with one, or woken with it. -/
inductive TtyReader where
  | polling
  | asleep (ch : Byte)
  | woken (ch : Byte)

/-- `tty_serial_device` with its threads: `evRead` is notified for the next delta cycle, and
    `irq_update_thread` is ready; and the bytes received so far, and the characters in the responses
    to the reads so far. -/
structure TtySerial where
  intEnabled : ULong
  intLevel : ULong
  readBuf : Nat → ULong
  readPos : Nat
  readCount : Nat
  reader : TtyReader
  evRead : Bool
  irqUpdate : Bool
  irqLine : Bool
  received : List Byte
  returned : List ULong

namespace TtySerial

/-- `memset (&state, 0, sizeof (state))`, with both threads waiting. -/
def new : TtySerial :=
  ⟨0#32, 0#32, fun _ => 0#32, 0, 0, .polling, false, false, false, [], []⟩

/-- `read_thread` with room in the ring. -/
def put (d : TtySerial) (ch : Byte) : TtySerial :=
  { d with
    readBuf := Function.update d.readBuf ((d.readPos + d.readCount) % READ_BUF_SIZE) (ch.setWidth 32)
    readCount := d.readCount + 1
    intLevel := d.intLevel ||| TTY_INT_READ
    irqUpdate := true
    reader := .polling }

/-- `read_thread` at the test of its inner loop. -/
def tryPut (d : TtySerial) (ch : Byte) : TtySerial :=
  if d.readCount = READ_BUF_SIZE then { d with reader := .asleep ch } else d.put ch

/-- A read of a character: the device and `c`. -/
def readChar (d : TtySerial) : TtySerial × ULong :=
  let c := d.readBuf d.readPos
  if 0 < d.readCount then
    ({ d with
        readCount := d.readCount - 1
        readPos := if d.readPos + 1 = READ_BUF_SIZE then 0 else d.readPos + 1
        intLevel := if d.readCount - 1 = 0 then d.intLevel &&& ~~~TTY_INT_READ else d.intLevel
        irqUpdate := if d.readCount - 1 = 0 then true else d.irqUpdate
        evRead := true }, c)
  else (d, c)

/-- `write`, which leaves `bErr` as false where it returns. -/
def write (d : TtySerial) (ofs : ULong) (be : Byte) (data : Fin 8 → Byte) : Option TtySerial :=
  match (lofsOf ofs be).toNat with
  -- write data
  | 0 => some d
  -- set int enable
  | 1 => some { d with intEnabled := valueOf be data, irqUpdate := true }
  -- "Bad %s::%s ofs=0x%X, be=0x%X, data=0x%X-%X!\n"
  | _ => none

/-- `read`, in the same way: the device and `*pdata`. -/
def read (d : TtySerial) (ofs : ULong) (be : Byte) : Option (TtySerial × ULong) :=
  match (lofsOf ofs be).toNat with
  -- read char
  | 0 => some d.readChar
  -- can write?
  | 1 => some (d, 1#32)
  -- can read?
  | 2 => some (d, if 0 < d.readCount then 1#32 else 0#32)
  -- get int_enable
  | 3 => some (d, d.intEnabled)
  -- get int_level
  | 4 => some (d, d.intLevel)
  -- active int
  | 5 => some (d, d.intLevel &&& d.intEnabled)
  | 6 => some (d, 0#32)
  -- "Bad %s::%s ofs=0x%X, be=0x%X!\n"
  | _ => none

/-- A turn of `irq_update_thread`, up to its `wait`. -/
def updateIrq (d : TtySerial) : TtySerial :=
  { d with irqLine := d.intLevel &&& d.intEnabled != 0#32, irqUpdate := false }

end TtySerial

/-- An access; a byte that the thread has read from the pipe; `evRead` in the next delta cycle; and a
    turn of a thread that is ready. -/
inductive TtyEvent where
  | write (ofs : ULong) (be : Byte) (data : Fin 8 → Byte)
  | read (ofs : ULong) (be : Byte)
  | receive (ch : Byte)
  | deliver
  | reader
  | irqUpdate

namespace TtySerial

/-- The character in the response `val` to a read, if it is one of a character and there was one. -/
def chars (d : TtySerial) (ofs : ULong) (be : Byte) (val : ULong) : List ULong :=
  if lofsOf ofs be = 0#32 ∧ 0 < d.readCount then [val] else []

def next (d : TtySerial) : TtyEvent → Option TtySerial
  | .write ofs be data => d.write ofs be data
  | .read ofs be =>
      (d.read ofs be).map fun r => { r.1 with returned := d.returned ++ d.chars ofs be r.2 }
  | .receive ch =>
      match d.reader with
      | .polling => some ({ d with received := d.received ++ [ch] }.tryPut ch)
      | .asleep _ | .woken _ => none
  | .deliver =>
      if d.evRead then
        match d.reader with
        | .asleep ch => some { d with evRead := false, reader := .woken ch }
        | .polling | .woken _ => some { d with evRead := false }
      else none
  | .reader =>
      match d.reader with
      | .woken ch => some (d.tryPut ch)
      | .polling | .asleep _ => none
  | .irqUpdate => if d.irqUpdate then some d.updateIrq else none

/-! ## 2. The property -/

/-- The characters in the ring. -/
def buffered (d : TtySerial) : List ULong :=
  ringContents d.readBuf READ_BUF_SIZE d.readPos d.readCount

/-- The byte that the thread has in hand. -/
def held (d : TtySerial) : List ULong :=
  match d.reader with
  | .polling => []
  | .asleep ch | .woken ch => [ch.setWidth 32]

/-- The characters returned begin the bytes received, and the others are in the ring or in hand,
    which the thread can put as soon as there is room; the level is that of the count, and the line,
    once updated, that of the level. -/
structure TtyRight (d : TtySerial) : Prop where
  order : d.returned <+: d.received.map (·.setWidth 32)
  kept : d.received.map (·.setWidth 32) = d.returned ++ d.buffered ++ d.held
  wakes : ∀ ch, d.reader = .asleep ch → d.readCount = READ_BUF_SIZE ∨ d.evRead = true
  count : d.readCount ≤ READ_BUF_SIZE
  level : d.intLevel &&& TTY_INT_READ ≠ 0#32 ↔ 0 < d.readCount
  line : d.irqUpdate = false → (d.irqLine = true ↔ d.intLevel &&& d.intEnabled ≠ 0#32)

/-! ## 3. The invariant -/

variable {d d' : TtySerial}

/-- The registers fit to the count, and the thread does not sleep beside a ring with room. -/
structure TtyRegs (d : TtySerial) : Prop where
  wakes : ∀ ch, d.reader = .asleep ch → d.readCount = READ_BUF_SIZE ∨ d.evRead = true
  count : d.readCount ≤ READ_BUF_SIZE
  pos : d.readPos < READ_BUF_SIZE
  level : d.intLevel = if d.readCount = 0 then 0#32 else TTY_INT_READ
  line : d.irqUpdate = false → d.irqLine = (d.intLevel &&& d.intEnabled != 0#32)

/-- Nothing is lost, and nothing is doubled. -/
structure TtyInv (d : TtySerial) : Prop extends TtyRegs d where
  kept : d.received.map (·.setWidth 32) = d.returned ++ d.buffered ++ d.held

theorem TtyInv.right (h : TtyInv d) : d.TtyRight := by
  refine ⟨?_, h.kept, h.wakes, h.count, ?_, fun hserved => ?_⟩
  · rw [h.kept, List.append_assoc]
    exact List.prefix_append _ _
  · rw [h.level]
    split
    · rename_i hzero
      exact iff_of_false (fun hne => hne rfl) (by omega)
    · rename_i hne
      exact iff_of_true (by decide) (Nat.pos_of_ne_zero hne)
  · rw [h.line hserved]
    exact bne_iff_ne

theorem ttyInv_new : TtyInv new := ⟨⟨nofun, by decide, by decide, rfl, fun _ => rfl⟩, rfl⟩

/-- **A byte goes into the ring**, which has room for it. -/
theorem TtyRegs.put (h : TtyRegs d) {ch : Byte}
    (hkept : d.received.map (·.setWidth 32) = d.returned ++ d.buffered ++ [ch.setWidth 32])
    (hroom : d.readCount ≠ READ_BUF_SIZE) : TtyInv (d.put ch) := by
  have hlt : d.readCount < READ_BUF_SIZE := Nat.lt_of_le_of_ne h.count hroom
  have hbuffered : (d.put ch).buffered = d.buffered ++ [ch.setWidth 32] := ring_push _ hlt _
  refine ⟨⟨nofun, hlt, h.pos, ?_, fun hserved => ?_⟩, ?_⟩
  · show d.intLevel ||| TTY_INT_READ = if d.readCount + 1 = 0 then 0#32 else TTY_INT_READ
    rw [h.level, if_neg (Nat.succ_ne_zero _)]
    split <;> rfl
  · cases hserved
  · rw [hbuffered]
    show d.received.map _ = d.returned ++ (d.buffered ++ [ch.setWidth 32]) ++ []
    rw [hkept, List.append_nil, List.append_assoc]

theorem TtyRegs.tryPut (h : TtyRegs d) {ch : Byte}
    (hkept : d.received.map (·.setWidth 32) = d.returned ++ d.buffered ++ [ch.setWidth 32]) :
    TtyInv (d.tryPut ch) := by
  rw [TtySerial.tryPut]
  split
  · rename_i hfull
    exact ⟨⟨fun _ _ => .inl hfull, h.count, h.pos, h.level, h.line⟩, hkept⟩
  · rename_i hroom
    exact h.put hkept hroom

/-- **A character comes out of the ring**, and goes into the response. -/
theorem TtyInv.readChar (h : TtyInv d) : TtyInv { d.readChar.1 with
    returned := d.returned ++ if 0 < d.readCount then [d.readChar.2] else [] } := by
  rw [TtySerial.readChar]
  split
  · rename_i hpos
    obtain ⟨n, hn⟩ : ∃ n, d.readCount = n + 1 := ⟨d.readCount - 1, by omega⟩
    have hsub : d.readCount - 1 = n := by omega
    have hcount := h.count
    have hpop : d.buffered = d.readBuf d.readPos ::
        ringContents d.readBuf READ_BUF_SIZE ((d.readPos + 1) % READ_BUF_SIZE) n := by
      rw [buffered, hn]
      exact ring_pop _ h.pos n
    refine ⟨⟨fun _ _ => .inr rfl, ?_, ?_, ?_, fun hserved => ?_⟩, ?_⟩
    · show d.readCount - 1 ≤ READ_BUF_SIZE
      omega
    · show (if d.readPos + 1 = READ_BUF_SIZE then 0 else d.readPos + 1) < READ_BUF_SIZE
      rw [succ_mod h.pos]
      exact Nat.mod_lt _ (by decide)
    · show (if d.readCount - 1 = 0 then d.intLevel &&& ~~~TTY_INT_READ else d.intLevel) =
        if d.readCount - 1 = 0 then 0#32 else TTY_INT_READ
      rw [h.level, if_neg (Nat.ne_of_gt hpos)]
      split <;> rfl
    · have hserved : (if d.readCount - 1 = 0 then true else d.irqUpdate) = false := hserved
      show d.irqLine = ((if d.readCount - 1 = 0 then d.intLevel &&& ~~~TTY_INT_READ
        else d.intLevel) &&& d.intEnabled != 0#32)
      by_cases hzero : d.readCount - 1 = 0
      · rw [if_pos hzero] at hserved
        cases hserved
      · rw [if_neg hzero] at hserved ⊢
        exact h.line hserved
    · show d.received.map _ = d.returned ++ [d.readBuf d.readPos] ++ ringContents d.readBuf
        READ_BUF_SIZE (if d.readPos + 1 = READ_BUF_SIZE then 0 else d.readPos + 1)
        (d.readCount - 1) ++ d.held
      rw [h.kept, hpop, succ_mod h.pos, hsub]
      simp only [List.append_assoc, List.cons_append, List.nil_append]
  · rw [List.append_nil]
    exact h

/-- **A byte is received**, and put where there is room. -/
theorem TtyInv.receive (h : TtyInv d) (hreader : d.reader = .polling) (ch : Byte) :
    TtyInv ({ d with received := d.received ++ [ch] }.tryPut ch) := by
  have hkept := h.kept
  rw [held, hreader, List.append_nil] at hkept
  have hregs : TtyRegs { d with received := d.received ++ [ch] } :=
    ⟨h.wakes, h.count, h.pos, h.level, h.line⟩
  refine hregs.tryPut ?_
  show (d.received ++ [ch]).map (·.setWidth 32) = d.returned ++ d.buffered ++ [ch.setWidth 32]
  rw [List.map_append, hkept, List.map_singleton]

/-- The thread tries again to put the byte in hand. -/
theorem TtyInv.retry (h : TtyInv d) {ch : Byte} (hreader : d.reader = .woken ch) :
    TtyInv (d.tryPut ch) := by
  have hkept := h.kept
  rw [held, hreader] at hkept
  exact h.toTtyRegs.tryPut hkept

theorem TtyInv.write_kept (h : TtyInv d) {ofs : ULong} {be : Byte} {data : Fin 8 → Byte}
    (hw : d.write ofs be data = some d') : TtyInv d' := by
  rw [TtySerial.write] at hw
  split at hw
  · cases hw
    exact h
  · cases hw
    exact ⟨⟨h.wakes, h.count, h.pos, h.level, (fun hserved => by cases hserved)⟩, h.kept⟩
  · cases hw

theorem TtyInv.read_kept (h : TtyInv d) {ofs : ULong} {be : Byte} {val : ULong}
    (hr : d.read ofs be = some (d', val)) :
    TtyInv { d' with returned := d.returned ++ d.chars ofs be val } := by
  by_cases hofs : lofsOf ofs be = 0#32
  · have hd : d.readChar = (d', val) := by
      rw [TtySerial.read, hofs] at hr
      exact Option.some.inj hr
    have hkept := h.readChar
    rw [hd] at hkept
    rw [chars]
    simpa only [hofs, true_and] using hkept
  · rw [chars, if_neg fun hc => hofs hc.1, List.append_nil]
    rw [TtySerial.read] at hr
    split at hr
    · next hzero => exact absurd (BitVec.eq_of_toNat_eq hzero) hofs
    all_goals
      cases hr
      try exact h

/-! ## 4. Runs -/

/-- **Every step keeps the bytes.** -/
theorem TtyInv.next_kept (h : TtyInv d) {e : TtyEvent} (hnext : d.next e = some d') :
    TtyInv d' := by
  cases e with
  | write ofs be data => exact h.write_kept hnext
  | read ofs be =>
      obtain ⟨⟨d₁, val⟩, hr, rfl⟩ := Option.map_eq_some_iff.mp hnext
      exact h.read_kept hr
  | receive ch =>
      rw [next] at hnext
      split at hnext
      · rename_i hreader
        cases hnext
        exact h.receive hreader ch
      all_goals cases hnext
  | deliver =>
      rw [next] at hnext
      split at hnext
      · split at hnext
        all_goals
          rename_i hreader
          cases hnext
          refine ⟨⟨?_, h.count, h.pos, h.level, h.line⟩, h.kept.trans ?_⟩
          · simp [hreader]
          · simp only [held, hreader, buffered]
      · cases hnext
  | reader =>
      rw [next] at hnext
      split at hnext
      · rename_i hreader
        cases hnext
        exact h.retry hreader
      all_goals cases hnext
  | irqUpdate =>
      rw [next] at hnext
      split at hnext
      · cases hnext
        exact ⟨⟨h.wakes, h.count, h.pos, h.level, fun _ => rfl⟩, h.kept⟩
      · cases hnext

/-- **In every state of every run the characters arrive in order, and the interrupt follows.** -/
theorem tty_right (events : List TtyEvent) : Along next TtyRight new events :=
  along_of_invariant (fun _ h => h.right) (fun _ _ _ h hnext => h.next_kept hnext) ttyInv_new events

/-- Two characters, of which the second one is read behind a read of the empty ring and one of
    `int_level`. -/
theorem tty_right_two : ∃ d, exec next new [.receive 0x61#8, .read 0#32 0x01#8, .read 0#32 0x01#8,
    .receive 0x62#8, .read 0x10#32 0x01#8, .receive 0x63#8, .read 0#32 0x01#8] = some d ∧
    d.received = [0x61#8, 0x62#8, 0x63#8] ∧ d.returned = [0x61#32, 0x62#32] ∧ d.TtyRight := by
  have hrun : exec next new [.receive 0x61#8, .read 0#32 0x01#8, .read 0#32 0x01#8, .receive 0x62#8,
    .read 0x10#32 0x01#8, .receive 0x63#8, .read 0#32 0x01#8] = some _ := rfl
  exact ⟨_, hrun, rfl, rfl, (tty_right _).last hrun⟩

end TtySerial

end Rabbits
