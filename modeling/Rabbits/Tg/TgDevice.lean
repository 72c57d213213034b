/-
  File:      Rabbits/Tg/TgDevice.lean
  Subject:   The traffic generator (tg_device.cpp).

  It gives out the bytes of a host file, four with each read of its data register, and starts again at
  the end of the file, in the middle of a read where the end is there.

  * `TgDevice.read`, `TgDevice.write` -- the accesses;
  * `At` -- the device behind `k` bytes: where it is in the file, and what `tg_bytes_left` says;
  * `stream_cyclic` -- **over every run the bytes given out are the file, again and again, and for a
    file that is not empty the status register gives the words that are left of it**.

  The byte enables do not matter: a read of one byte takes four from the file. An access to any other
  register ends the program, and so does a file that cannot be opened.
-/
import Rabbits.Lib.Labelled
import Rabbits.Lib.Since
import Rabbits.Lib.Stream
import Rabbits.Noc.Vci

namespace Rabbits

open Lib

/-! ## 1. The device -/

/-- `tg_file`, its position, and `tg_bytes_left`. -/
structure TgDevice where
  file : List Byte
  pos : Nat
  bytesLeft : ULong

/-- A request at `ofs`, as `rcv_rqst` passes it on. -/
structure TgAccess where
  ofs : ULong
  bWrite : Bool

namespace TgDevice

/-- `reset_input`. -/
def resetInput (d : TgDevice) : TgDevice :=
  { d with bytesLeft := d.bytesLeft + BitVec.ofNat 32 d.file.length, pos := 0 }

/-- The constructor. -/
def new (file : List Byte) : TgDevice := resetInput ⟨file, 0, 0#32⟩

/-- `if (!tg_bytes_left) reset_input ()`. -/
def refill (d : TgDevice) : TgDevice := if d.bytesLeft = 0#32 then d.resetInput else d

/-- One round of the loop: the byte in `data`, which was 0, stays it at the end of the file. -/
def readByte (d : TgDevice) : Byte × TgDevice :=
  let d := d.refill
  (d.file.getD d.pos 0#8,
    { d with pos := min (d.pos + 1) d.file.length, bytesLeft := d.bytesLeft - 1#32 })

/-- `count` rounds. -/
def readBytes (d : TgDevice) : Nat → List Byte × TgDevice
  | 0 => ([], d)
  | count + 1 =>
      let (b, d) := d.readByte
      let (bytes, d) := d.readBytes count
      (b :: bytes, d)

/-- `read`: the lower half of the data, and the device; the upper half is 0. -/
def read (d : TgDevice) (ofs : ULong) : Option (List Byte × TgDevice) :=
  match ofs.toNat with
  | 0x00 => some (d.readBytes 4)
  | 0x80 =>
      let d := d.refill
      some (leBytes 4 ((d.bytesLeft + 3#32) / 4#32), d)
  | _ => none

/-- `write`. -/
def write (d : TgDevice) (ofs : ULong) : Option TgDevice :=
  match ofs.toNat with
  | 0x480 => some d
  | _ => none

def next (d : TgDevice) (a : TgAccess) : Option TgDevice :=
  if a.bWrite then d.write a.ofs else (d.read a.ofs).map Prod.snd

/-- The response to a read, with the register. -/
def response (d : TgDevice) (a : TgAccess) : List (ULong × List Byte) :=
  if a.bWrite then [] else ((d.read a.ofs).map fun r => (a.ofs, r.1)).toList

def nextTraced : Traced TgDevice (ULong × List Byte) → TgAccess →
    Option (Traced TgDevice (ULong × List Byte)) :=
  Traced.step next response

end TgDevice

/-! ## 2. The property -/

/-- The bytes of the data register in some responses, in order. -/
def givenOut (t : List (ULong × List Byte)) : List Byte :=
  t.flatMap fun r => if r.1 = 0#32 then r.2 else []

/-- What is given out is the file, again and again; and, for a file that is not empty, the status says
    how many words are left of it behind the bytes given out before. -/
structure StreamRight (file : List Byte) (t : List (ULong × List Byte)) : Prop where
  data : givenOut t = (List.range (givenOut t).length).map fun k => file.getD (k % file.length) 0#8
  status : file ≠ [] → ∀ before bytes after, t = before ++ (0x80#32, bytes) :: after →
    bytes = leBytes 4 (BitVec.ofNat 32
      ((file.length - (givenOut before).length % file.length + 3) / 4))

namespace TgDevice

/-! ## 3. Where the device is -/

/-- The device has given out `k` bytes. -/
structure At (file : List Byte) (k : Nat) (d : TgDevice) : Prop where
  same : d.file = file
  place : file ≠ [] → (d.pos = k % file.length ∧ d.bytesLeft.toNat = file.length - k % file.length) ∨
    k % file.length = 0 ∧ d.bytesLeft = 0#32

variable {file : List Byte} {k : Nat} {d : TgDevice}

theorem at_new (hlen : file.length < 2 ^ 31) : At file 0 (new file) := by
  refine ⟨rfl, fun _ => .inl ⟨(Nat.zero_mod _).symm, ?_⟩⟩
  show (0#32 + BitVec.ofNat 32 file.length).toNat = _
  rw [BitVec.zero_add, BitVec.toNat_ofNat, Nat.zero_mod]
  omega

/-- Behind `refill` the device is in the file. -/
theorem At.refill (h : At file k d) (hlen : file.length < 2 ^ 31) : At file k d.refill ∧
    (file ≠ [] → d.refill.pos = k % file.length ∧
      d.refill.bytesLeft.toNat = file.length - k % file.length) := by
  have hplace : file ≠ [] → d.refill.pos = k % file.length ∧
      d.refill.bytesLeft.toNat = file.length - k % file.length := by
    intro hne
    have hmod := Nat.mod_lt k (List.length_pos_of_ne_nil hne)
    rcases h.place hne with ⟨hpos, hleft⟩ | ⟨hzero, hleft⟩
    · have hnz : d.bytesLeft ≠ 0#32 := fun e => by
        rw [e, BitVec.toNat_ofNat, Nat.zero_mod] at hleft
        omega
      rw [TgDevice.refill, if_neg hnz]
      exact ⟨hpos, hleft⟩
    · rw [TgDevice.refill, if_pos hleft, hzero, resetInput, hleft, h.same]
      refine ⟨rfl, ?_⟩
      show (0#32 + BitVec.ofNat 32 file.length).toNat = _
      rw [BitVec.zero_add, BitVec.toNat_ofNat]
      omega
  refine ⟨⟨?_, fun hne => .inl (hplace hne)⟩, hplace⟩
  rw [TgDevice.refill]
  split
  · exact h.same
  · exact h.same

/-- **One byte**: the next one of the file, or the first. -/
theorem At.readByte (h : At file k d) (hlen : file.length < 2 ^ 31) :
    d.readByte.1 = file.getD (k % file.length) 0#8 ∧ At file (k + 1) d.readByte.2 := by
  obtain ⟨hrefill, hplace⟩ := h.refill hlen
  have hfile := hrefill.same
  by_cases hne : file = []
  · subst hne
    refine ⟨?_, hfile, fun hno => absurd rfl hno⟩
    show d.refill.file.getD _ _ = _
    rw [hfile, List.getD_nil, List.getD_nil]
  · obtain ⟨hpos, hleft⟩ := hplace hne
    have hmod := Nat.mod_lt k (List.length_pos_of_ne_nil hne)
    refine ⟨?_, hfile, fun _ => ?_⟩
    · show d.refill.file.getD d.refill.pos _ = _
      rw [hfile, hpos]
    · show (min (d.refill.pos + 1) d.refill.file.length = _ ∧ (d.refill.bytesLeft - 1#32).toNat = _) ∨
        _ ∧ d.refill.bytesLeft - 1#32 = 0#32
      have hsub : (d.refill.bytesLeft - 1#32).toNat = file.length - k % file.length - 1 := by
        rw [BitVec.toNat_sub, BitVec.toNat_ofNat, hleft]
        omega
      rcases Nat.lt_or_ge (k % file.length + 1) file.length with hlt | hge
      · have hnext : (k + 1) % file.length = k % file.length + 1 := by
          rw [Nat.add_mod_eq_add_mod_right 1 (Nat.mod_mod k file.length).symm]
          exact Nat.mod_eq_of_lt hlt
        refine .inl ⟨?_, ?_⟩
        · rw [hnext, hpos, hfile]
          omega
        · rw [hsub, hnext]
          omega
      · have hnext : (k + 1) % file.length = 0 := by
          rw [Nat.add_mod_eq_add_mod_right 1 (Nat.mod_mod k file.length).symm]
          have heq : k % file.length + 1 = file.length := by omega
          rw [heq, Nat.mod_self]
        refine .inr ⟨hnext, BitVec.eq_of_toNat_eq ?_⟩
        rw [hsub, BitVec.toNat_ofNat]
        omega

/-- **Any number of bytes.** -/
theorem At.readBytes (hlen : file.length < 2 ^ 31) (count : Nat) : ∀ {k : Nat} {d : TgDevice},
    At file k d → (d.readBytes count).1 =
        (List.range' k count).map (fun k => file.getD (k % file.length) 0#8) ∧
      At file (k + count) (d.readBytes count).2 := by
  induction count with
  | zero => exact fun h => ⟨rfl, h⟩
  | succ count ih =>
      intro k d h
      obtain ⟨hbyte, hat⟩ := h.readByte hlen
      obtain ⟨hbytes, hat'⟩ := ih hat
      rw [Nat.add_assoc, Nat.add_comm 1] at hat'
      refine ⟨?_, hat'⟩
      show d.readByte.1 :: (d.readByte.2.readBytes count).1 = _
      rw [hbyte, hbytes, List.range'_succ, List.map_cons]

/-- All that an access can do. -/
theorem next_cases {d' : TgDevice} {a : TgAccess} (h : d.next a = some d') :
    (d' = d ∧ d.response a = []) ∨
      (d' = (d.readBytes 4).2 ∧ d.response a = [(0#32, (d.readBytes 4).1)]) ∨
      d' = d.refill ∧
        d.response a = [(0x80#32, leBytes 4 ((d.refill.bytesLeft + 3#32) / 4#32))] := by
  unfold next at h
  unfold response
  cases hw : a.bWrite with
  | true =>
      rw [hw, if_pos rfl, TgDevice.write] at h
      rw [if_pos rfl]
      split at h <;> cases h
      exact .inl ⟨rfl, rfl⟩
  | false =>
      rw [hw, if_neg Bool.false_ne_true, TgDevice.read] at h
      rw [if_neg Bool.false_ne_true, TgDevice.read]
      split at h
      · next hofs =>
          rw [Option.map_some, Option.some.injEq] at h
          subst h
          have heq : a.ofs = 0#32 := BitVec.eq_of_toNat_eq hofs
          rw [heq]
          exact .inr (.inl ⟨rfl, rfl⟩)
      · next hofs =>
          rw [Option.map_some, Option.some.injEq] at h
          subst h
          have heq : a.ofs = 0x80#32 := BitVec.eq_of_toNat_eq hofs
          rw [heq]
          exact .inr (.inr ⟨rfl, rfl⟩)
      · cases h

end TgDevice

/-! ## 4. The runs -/

theorem givenOut_append (t u : List (ULong × List Byte)) :
    givenOut (t ++ u) = givenOut t ++ givenOut u := List.flatMap_append

section Responses

variable {file : List Byte} {t : List (ULong × List Byte)}

theorem givenOut_data (bytes : List Byte) :
    givenOut (t ++ [(0#32, bytes)]) = givenOut t ++ bytes := by
  rw [givenOut_append]
  exact congrArg (givenOut t ++ ·) (List.append_nil bytes)

theorem givenOut_status (bytes : List Byte) :
    givenOut (t ++ [(0x80#32, bytes)]) = givenOut t := by
  rw [givenOut_append]
  exact List.append_nil _

/-- Four more bytes. -/
theorem StreamRight.data_step (h : StreamRight file t) {bytes : List Byte} {count : Nat}
    (hbytes : bytes = (List.range' (givenOut t).length count).map fun k =>
      file.getD (k % file.length) 0#8) : StreamRight file (t ++ [(0#32, bytes)]) := by
  have hlength : bytes.length = count := by rw [hbytes, List.length_map, List.length_range']
  refine ⟨?_, fun hne before b after heq => ?_⟩
  · rw [givenOut_data, List.length_append, hlength, List.range_eq_range', ← List.range'_append_1,
      List.map_append, ← List.range_eq_range', Nat.zero_add, ← h.data, ← hbytes]
  · rcases append_singleton_eq_append_cons heq with ⟨-, hlast, -⟩ | ⟨rest, -, hbefore⟩
    · cases hlast
    · exact h.status hne before b rest hbefore

/-- A status. -/
theorem StreamRight.status_step (h : StreamRight file t) {bytes : List Byte}
    (hbytes : file ≠ [] → bytes = leBytes 4 (BitVec.ofNat 32
      ((file.length - (givenOut t).length % file.length + 3) / 4))) :
    StreamRight file (t ++ [(0x80#32, bytes)]) := by
  refine ⟨?_, fun hne before b after heq => ?_⟩
  · rw [givenOut_status]
    exact h.data
  · rcases append_singleton_eq_append_cons heq with ⟨rfl, hlast, -⟩ | ⟨rest, -, hbefore⟩
    · cases hlast
      exact hbytes hne
    · exact h.status hne before b rest hbefore

end Responses

namespace TgDevice

/-- **Every access keeps the stream right.** -/
theorem stream_step {file : List Byte} (hlen : file.length < 2 ^ 31)
    {s s' : Traced TgDevice (ULong × List Byte)} {a : TgAccess}
    (h : At file (givenOut s.trace).length s.state ∧ StreamRight file s.trace)
    (hs : nextTraced s a = some s') :
    At file (givenOut s'.trace).length s'.state ∧ StreamRight file s'.trace := by
  obtain ⟨hat, hright⟩ := h
  obtain ⟨hnext, htrace⟩ := Traced.step_eq_some hs
  rw [htrace]
  rcases next_cases hnext with ⟨hd, hr⟩ | ⟨hd, hr⟩ | ⟨hd, hr⟩ <;> rw [hd, hr]
  · rw [List.append_nil]
    exact ⟨hat, hright⟩
  · obtain ⟨hbytes, hat'⟩ := At.readBytes hlen 4 hat
    refine ⟨?_, hright.data_step hbytes⟩
    have hcount : (givenOut (s.trace ++ [(0#32, (s.state.readBytes 4).1)])).length =
        (givenOut s.trace).length + 4 := by
      rw [givenOut_data, List.length_append, hbytes, List.length_map, List.length_range']
    rw [hcount]
    exact hat'
  · obtain ⟨hat', hplace⟩ := hat.refill hlen
    refine ⟨?_, hright.status_step fun hne => ?_⟩
    · rw [givenOut_status]
      exact hat'
    · refine congrArg (leBytes 4) (BitVec.eq_of_toNat_eq ?_)
      have hleft := (hplace hne).2
      have hle := Nat.sub_le file.length ((givenOut s.trace).length % file.length)
      generalize file.length - (givenOut s.trace).length % file.length = left at hleft hle ⊢
      rw [BitVec.toNat_udiv, BitVec.toNat_add, hleft, show (3#32).toNat = 3 from rfl,
        show (4#32).toNat = 4 from rfl, BitVec.toNat_ofNat]
      omega

end TgDevice

/-- **The traffic generator gives out its file, again and again.** Over every run of accesses by any
    masters no byte is lost or given out twice, the end of the file may lie inside a read, and the
    status of a file that is not empty says how many words are left of it. A read of an empty file gives
    zeros and takes the count of the bytes left below 0. -/
theorem stream_cyclic {file : List Byte} (hlen : file.length < 2 ^ 31) {accesses : List TgAccess}
    {s : Traced TgDevice (ULong × List Byte)}
    (hrun : exec TgDevice.nextTraced ⟨.new file, []⟩ accesses = some s) :
    StreamRight file s.trace := by
  have h0 : TgDevice.At file (givenOut []).length (.new file) ∧ StreamRight file [] :=
    ⟨TgDevice.at_new hlen, rfl, fun _ before bytes after h => by simp at h⟩
  exact (exec_invariant (I := fun s : Traced TgDevice (ULong × List Byte) =>
    TgDevice.At file (givenOut s.trace).length s.state ∧ StreamRight file s.trace)
    (fun _ _ _ h hs => TgDevice.stream_step hlen h hs) h0 hrun).2

/-- A file of six bytes, read twice, and the status behind it. -/
theorem stream_cyclic_six : ∃ s, exec TgDevice.nextTraced ⟨.new [1#8, 2#8, 3#8, 4#8, 5#8, 6#8], []⟩
    [⟨0#32, false⟩, ⟨0#32, false⟩, ⟨0x80#32, false⟩] = some s ∧
      StreamRight [1#8, 2#8, 3#8, 4#8, 5#8, 6#8] s.trace := by
  obtain ⟨s, hrun⟩ : ∃ s, exec TgDevice.nextTraced ⟨.new [1#8, 2#8, 3#8, 4#8, 5#8, 6#8], []⟩
    [⟨0#32, false⟩, ⟨0#32, false⟩, ⟨0x80#32, false⟩] = some s := ⟨_, rfl⟩
  exact ⟨s, hrun, stream_cyclic (by decide) hrun⟩

end Rabbits
