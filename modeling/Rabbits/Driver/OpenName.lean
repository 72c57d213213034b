/-
  File:      Rabbits/Driver/OpenName.lean
  Subject:   From a user's string to the name of a host file (rabbitsha_drv.c).

  * `StrncpyFromUser` -- what `strncpy_from_user` may do, by its documentation;
  * `scanLoop`, `trimLoop` -- the two loops of `open_host_file`, on the memory from the buffer on;
  * `nameLoops_eq` -- **behind them lies the name of the line**, when there is an end of a line;
  * `NameOk` -- the scan stays in the buffer, and the name is that of the user or the call fails;
  * `nameOk_iff` -- for which strings of the user this is so.
-/
import Rabbits.Driver.HostAccess

namespace Rabbits

/-! ## 1. The copy -/

/-- `strncpy_from_user (dst, src, count)`: the bytes it copies to `dst`, and its result, an error
    as `none`. `user` are the bytes from `src` on, up to the first one that cannot be read. -/
inductive StrncpyFromUser (user : List Byte) (count : Nat) : List Byte → Option Nat → Prop where
  | ended (h : 0#8 ∈ user.take count) :
      StrncpyFromUser user count ((user.takeWhile (· ≠ 0#8)) ++ [0#8])
        (some (user.takeWhile (· ≠ 0#8)).length)
  | full (h : 0#8 ∉ user.take count) (hlen : count ≤ user.length) :
      StrncpyFromUser user count (user.take count) (some count)
  -- some data may have been copied
  | fault (h : 0#8 ∉ user.take count) (hlen : user.length < count) {copied : List Byte}
      (hcopied : copied <+: user) : StrncpyFromUser user count copied none

/-! ## 2. The loops -/

/-- `ch == '\n' || ch == 0`. -/
def endsName (ch : Byte) : Bool := ch = 0x0A#8 || ch = 0#8

/-- The first loop, from `i` on: where it ends; `none` when it runs off the memory. -/
def scanLoop (buffer : List Byte) (i : Nat) : Option Nat :=
  if h : i < buffer.length then
    if endsName (buffer.get ⟨i, h⟩) then some i else scanLoop buffer (i + 1)
  else none
termination_by buffer.length - i

/-- The second loop, with `i + 1` for its `i`. -/
def trimLoop (buffer : List Byte) : Nat → List Byte
  | 0 => buffer
  | i + 1 => if buffer.getD i 0#8 = 0x20#8 then trimLoop (buffer.set i 0#8) i else buffer

def cStrlen (buffer : List Byte) : Nat := (buffer.takeWhile (· ≠ 0#8)).length

/-- Both loops of `open_host_file`. -/
def nameLoops (buffer : List Byte) : Option (List Byte) :=
  (scanLoop buffer 0).map fun i =>
    let buffer := buffer.set i 0#8
    trimLoop buffer (cStrlen buffer)

/-- The text that lies in the buffer. -/
def handedName (buffer : List Byte) : Option (List Byte) :=
  (nameLoops buffer).map fun buffer => buffer.take (cStrlen buffer)

/-! ## 3. What they do -/

theorem endsName_eq (ch : Byte) : (ch ≠ 0x0A#8 && ch ≠ 0#8) = !endsName ch := by
  simp [endsName]

theorem hostFileLine_eq (buffer : List Byte) :
    hostFileLine buffer = buffer.takeWhile fun ch => !endsName ch := by
  unfold hostFileLine
  congr
  funext ch
  exact endsName_eq ch

/-- A memory with an end of a line in it. -/
theorem line_split {buffer : List Byte} (h : ∃ ch ∈ buffer, endsName ch) :
    ∃ ch rest, endsName ch ∧ buffer = hostFileLine buffer ++ ch :: rest := by
  rw [hostFileLine_eq]
  rcases hrest : buffer.dropWhile fun ch => !endsName ch with _ | ⟨ch, rest⟩
  · obtain ⟨ch, hmem, hend⟩ := h
    have hall := List.dropWhile_eq_nil_iff.mp hrest ch hmem
    rw [hend] at hall
    cases hall
  · have hhead : ¬ (!endsName ch) = true := by
      have hne : buffer.dropWhile (fun ch => !endsName ch) ≠ [] := by
        rw [hrest]
        exact List.cons_ne_nil ch rest
      have hfirst := List.head_dropWhile_not _ hne
      simpa [hrest] using hfirst
    refine ⟨ch, rest, by simpa using hhead, ?_⟩
    rw [← hrest]
    exact (List.takeWhile_append_dropWhile ..).symm

theorem not_endsName_of_line {buffer : List Byte} {ch : Byte} (h : ch ∈ hostFileLine buffer) :
    endsName ch = false := by
  rw [hostFileLine_eq] at h
  simpa using List.mem_takeWhile_imp h

/-- **The scan ends at the first end of a line**, wherever the memory goes on. -/
theorem scanLoop_of_line {line rest : List Byte} {ch : Byte} (hline : ∀ b ∈ line, endsName b = false)
    (hch : endsName ch) (i : Nat) (hi : i ≤ line.length) :
    scanLoop (line ++ ch :: rest) i = some line.length := by
  induction hk : line.length - i generalizing i with
  | zero =>
      have heq : i = line.length := by omega
      subst heq
      rw [scanLoop, dif_pos (by simp), if_pos (by simpa using hch)]
  | succ k ih =>
      have hlt : i < line.length := by omega
      have hget : (line ++ ch :: rest).get ⟨i, by simp; omega⟩ = line.get ⟨i, hlt⟩ := by
        simp [List.getElem_append_left, hlt]
      rw [scanLoop, dif_pos (by simp; omega), hget, hline _ (List.get_mem ..)]
      exact ih (i + 1) hlt (by omega)

/-- Without one it goes on to the end of the memory. -/
theorem scanLoop_of_none {buffer : List Byte} (h : ∀ b ∈ buffer, endsName b = false) (i : Nat) :
    scanLoop buffer i = none := by
  fun_induction scanLoop buffer i with
  | case1 i hlt hend => rw [h _ (List.get_mem ..)] at hend; cases hend
  | case2 i hlt hend ih => exact ih
  | case3 i hlt => rfl

/-- The scan ends at the first end of a line. -/
theorem scanLoop_of_end {buffer : List Byte} (h : ∃ ch ∈ buffer, endsName ch) :
    scanLoop buffer 0 = some (hostFileLine buffer).length := by
  obtain ⟨ch, rest, hch, hsplit⟩ := line_split h
  have hscan : scanLoop (hostFileLine buffer ++ ch :: rest) 0 = some (hostFileLine buffer).length :=
    scanLoop_of_line (fun b hb => not_endsName_of_line hb) hch 0 (Nat.zero_le _)
  rwa [← hsplit] at hscan

/-- **The second loop puts zeros for the blanks at the end**, down to the first place. -/
theorem trimLoop_append (line tail : List Byte) :
    trimLoop (line ++ tail) line.length =
      line.rdropWhile (fun ch => ch = 0x20#8) ++
        (List.replicate (line.length - (line.rdropWhile fun ch => ch = 0x20#8).length) 0#8 ++
          tail) := by
  induction line using List.reverseRecOn generalizing tail with
  | nil => simp [trimLoop]
  | append_singleton line ch ih =>
      have hget : (line ++ [ch] ++ tail).getD line.length 0#8 = ch := by simp
      rw [List.length_append, List.length_singleton, trimLoop, hget]
      by_cases hblank : ch = 0x20#8
      · have hset : (line ++ [ch] ++ tail).set line.length 0#8 = line ++ 0#8 :: tail := by simp
        have hle : (line.rdropWhile fun ch => ch = 0x20#8).length ≤ line.length :=
          (List.rdropWhile_prefix _ _).length_le
        rw [if_pos hblank, hset, ih, List.rdropWhile_concat_pos _ _ _ (by simp [hblank]),
          Nat.succ_sub hle, List.replicate_succ', List.append_assoc]
        rfl
      · rw [if_neg hblank, List.rdropWhile_concat_neg _ _ _ (by simp [hblank])]
        simp

theorem cStrlen_append {line tail : List Byte} (h : 0#8 ∉ line) :
    cStrlen (line ++ 0#8 :: tail) = line.length := by
  have hall : ∀ b ∈ line, decide (b ≠ 0#8) = true := by
    intro b hb
    exact decide_eq_true fun heq => h (heq ▸ hb)
  rw [cStrlen, List.takeWhile_append_of_pos hall]
  simp

theorem zero_notMem_line (buffer : List Byte) : 0#8 ∉ hostFileLine buffer := fun h => by
  have := not_endsName_of_line h
  exact absurd this (by decide)

/-- **The loops on a memory with an end of a line**: the buffer that `open_host_file` leaves. -/
theorem nameLoops_eq {buffer : List Byte} (h : ∃ ch ∈ buffer, endsName ch) :
    nameLoops buffer = some (trimName buffer) := by
  obtain ⟨ch, rest, hch, hsplit⟩ := line_split h
  have hzero := zero_notMem_line buffer
  have hscan := scanLoop_of_end h
  have hset : buffer.set (hostFileLine buffer).length 0#8 = hostFileLine buffer ++ 0#8 :: rest := by
    generalize hostFileLine buffer = line at hsplit
    subst hsplit
    simp
  have hdrop : buffer.drop ((hostFileLine buffer).length + 1) = rest := by
    generalize hostFileLine buffer = line at hsplit
    subst hsplit
    simp
  have hle : (hostFileName buffer).length ≤ (hostFileLine buffer).length :=
    (List.rdropWhile_prefix _ _).length_le
  rw [nameLoops, hscan, Option.map_some]
  simp only [hset, cStrlen_append hzero, trimLoop_append, trimName, hdrop]
  rw [Nat.succ_sub hle, List.replicate_succ', List.append_assoc, List.append_assoc]
  rfl

theorem handedName_eq {buffer : List Byte} (h : ∃ ch ∈ buffer, endsName ch) :
    handedName buffer = some (hostFileName buffer) := by
  have hle : (hostFileName buffer).length ≤ (hostFileLine buffer).length :=
    (List.rdropWhile_prefix _ _).length_le
  have hzero : 0#8 ∉ hostFileName buffer := fun hmem =>
    zero_notMem_line buffer ((List.rdropWhile_prefix _ _).subset hmem)
  have htrim : trimName buffer = hostFileName buffer ++ 0#8 ::
      (List.replicate ((hostFileLine buffer).length - (hostFileName buffer).length) 0#8 ++
        buffer.drop ((hostFileLine buffer).length + 1)) := by
    rw [trimName, Nat.succ_sub hle, List.replicate_succ, List.append_assoc]
    rfl
  rw [handedName, nameLoops_eq h, Option.map_some, htrim, cStrlen_append hzero, List.take_left]

/-! ## 4. The name that is taken -/

/-- The memory from the buffer on, when `open_host_file` begins. -/
def givenBuffer (device : RabbitshaDevice) (copied : List Byte) : List Byte :=
  (({ device with state := 1 }.fill [0#8]).fill copied).buffer

/-- Another descriptor uses the file. -/
def DeviceBusy (device : RabbitshaDevice) : Prop := device.state = 3 ∧ device.openCount > 1

/-- The scan stays in the buffer and ends. The name is the user's string up to the first end of a
    line, without the blanks at its end, or the call fails. -/
structure NameOk (device : RabbitshaDevice) (user copied : List Byte) (status : ULong) : Prop where
  inside : ¬ DeviceBusy device →
    ∃ e < BLOCK_DEVICE_DRV_BUF_SIZE, scanLoop (givenBuffer device copied) 0 = some e
  name : (rabbitshaChrIoctlOpen device copied status).1 = .ok () →
    (∃ ch ∈ user, endsName ch) ∧
      handedName (givenBuffer device copied) = some (hostFileName user)

/-- For every device, every outcome of the copy and every answer of the block device. -/
def AlwaysOk (user : List Byte) : Prop :=
  ∀ device : RabbitshaDevice, BLOCK_DEVICE_DRV_BUF_SIZE ≤ device.buffer.length →
    ∀ copied ret, StrncpyFromUser user BLOCK_DEVICE_DRV_BUF_SIZE copied ret →
      ∀ status, status ≠ SlBlockStatus.BUSY.code → NameOk device user copied status

/-- The string up to its NUL, when there is one in the first `count` bytes. -/
theorem ended_split {user : List Byte} {count : Nat} (h : 0#8 ∈ user.take count) :
    ∃ rest, user = (user.takeWhile (· ≠ 0#8) ++ [0#8]) ++ rest ∧
      (user.takeWhile (· ≠ 0#8) ++ [0#8]).length ≤ count := by
  obtain ⟨before, after, htake, hbefore⟩ := List.eq_append_cons_of_mem h
  have hsplit : user = before ++ 0#8 :: (after ++ user.drop count) := by
    rw [← List.cons_append, ← List.append_assoc, ← htake, List.take_append_drop]
  have hall : ∀ b ∈ before, decide (b ≠ 0#8) = true := by
    intro b hb
    exact decide_eq_true fun heq => hbefore (heq ▸ hb)
  have hline : user.takeWhile (· ≠ 0#8) = before := by
    rw [hsplit, List.takeWhile_append_of_pos hall]
    simp
  refine ⟨after ++ user.drop count, ?_, ?_⟩
  · rw [hline, List.append_assoc]
    exact hsplit
  · have hlen := congrArg List.length htake
    have hle := List.length_take_le count user
    rw [List.length_append, List.length_cons] at hlen
    rw [hline, List.length_append, List.length_singleton]
    omega

/-- What is copied is a begin of the string, no longer than the buffer. -/
theorem StrncpyFromUser.begins {user copied : List Byte} {count : Nat} {ret : Option Nat}
    (h : StrncpyFromUser user count copied ret) : copied <+: user ∧ copied.length ≤ count := by
  cases h with
  | ended h =>
      obtain ⟨rest, hsplit, hlen⟩ := ended_split h
      exact ⟨⟨rest, hsplit.symm⟩, hlen⟩
  | full h hlen => exact ⟨List.take_prefix count user, List.length_take_le ..⟩
  | fault h hlen hcopied => exact ⟨hcopied, hcopied.length_le.trans hlen.le⟩

theorem givenBuffer_eq (device : RabbitshaDevice) (copied : List Byte) :
    givenBuffer device copied = copied ++ (0#8 :: device.buffer.drop 1).drop copied.length := rfl

/-- A device that is free, with these bytes in its buffer. -/
def freeDevice (buffer : List Byte) : RabbitshaDevice := ⟨0#32, buffer, 1, 1, []⟩

theorem ioctlOpen_freeDevice (buffer copied : List Byte) :
    (rabbitshaChrIoctlOpen (freeDevice buffer) copied SlBlockStatus.WRITE_SUCCESS.code).1 =
      .ok () := rfl

/-- A copy that stops behind the first byte leaves what was in the buffer before. -/
theorem handedName_stale {c x : Byte} (hc : endsName c = false) (hx : endsName x = false)
    (hblank : x ≠ 0x20#8) (rest : List Byte) :
    handedName ([c, x] ++ 0#8 :: rest) = some [c, x] := by
  rw [handedName_eq ⟨0#8, by simp, by decide⟩, hostFileName]
  have hline : hostFileLine ([c, x] ++ 0#8 :: rest) = [c, x] := by
    rw [hostFileLine_eq]
    simp [hc, hx, (by decide : endsName 0#8 = true)]
  rw [hline, show [c, x] = [c] ++ [x] from rfl,
    List.rdropWhile_concat_neg _ _ _ (by simpa using hblank)]

/-- The buffer is filled without an end of a line: the scan leaves it. -/
theorem scan_leaves_full {user : List Byte} (hfull : BLOCK_DEVICE_DRV_BUF_SIZE ≤ user.length)
    (hends : ∀ b ∈ user.take BLOCK_DEVICE_DRV_BUF_SIZE, endsName b = false) :
    scanLoop (givenBuffer (freeDevice (List.replicate BLOCK_DEVICE_DRV_BUF_SIZE 1#8))
      (user.take BLOCK_DEVICE_DRV_BUF_SIZE)) 0 = none := by
  let buffer : List Byte := List.replicate BLOCK_DEVICE_DRV_BUF_SIZE 1#8
  have hlen : (user.take BLOCK_DEVICE_DRV_BUF_SIZE).length = BLOCK_DEVICE_DRV_BUF_SIZE := by
    rw [List.length_take]
    omega
  have hrest : (0#8 :: buffer.drop 1).length ≤ BLOCK_DEVICE_DRV_BUF_SIZE := by
    rw [List.length_cons, List.length_drop, List.length_replicate]
    decide
  refine scanLoop_of_none ?_ 0
  rw [givenBuffer_eq, hlen]
  show ∀ b ∈ _ ++ (0#8 :: buffer.drop 1).drop BLOCK_DEVICE_DRV_BUF_SIZE, _
  rw [List.drop_eq_nil_of_le hrest, List.append_nil]
  exact hends

/-- **What can be copied has an end of a line**, when every device takes the name. -/
theorem AlwaysOk.ends {user : List Byte} (h : AlwaysOk user)
    (hread : 0#8 ∈ user.take BLOCK_DEVICE_DRV_BUF_SIZE ∨ BLOCK_DEVICE_DRV_BUF_SIZE ≤ user.length) :
    ∃ ch ∈ user.take BLOCK_DEVICE_DRV_BUF_SIZE, endsName ch := by
  by_contra hnot
  have hends : ∀ b ∈ user.take BLOCK_DEVICE_DRV_BUF_SIZE, endsName b = false := by
    intro b hb
    by_contra hend
    exact hnot ⟨b, hb, by simpa using hend⟩
  have hzero : 0#8 ∉ user.take BLOCK_DEVICE_DRV_BUF_SIZE := fun hmem =>
    absurd (hends _ hmem) (by decide)
  have hfull := hread.resolve_left hzero
  have hbad := h (freeDevice (List.replicate BLOCK_DEVICE_DRV_BUF_SIZE 1#8))
    List.length_replicate.ge _ _ (StrncpyFromUser.full hzero hfull)
    SlBlockStatus.WRITE_SUCCESS.code (by decide)
  obtain ⟨e, -, hscan⟩ := hbad.inside fun hbusy => absurd hbusy.1 (by decide)
  rw [scan_leaves_full hfull hends] at hscan
  cases hscan

/-- **A string that the copy cannot reach begins with the end of its line**, when every device
    takes the name: the rest of the name would be what was in the buffer. -/
theorem AlwaysOk.head {user : List Byte} (h : AlwaysOk user)
    (hzero : 0#8 ∉ user.take BLOCK_DEVICE_DRV_BUF_SIZE)
    (hshort : user.length < BLOCK_DEVICE_DRV_BUF_SIZE) : user.head? = some 0x0A#8 := by
  have hok : SlBlockStatus.WRITE_SUCCESS.code ≠ SlBlockStatus.BUSY.code := by decide
  rcases user with _ | ⟨c, rest⟩
  · -- no byte is copied, and the user gave no end of a line
    have hbad := h (freeDevice (List.replicate BLOCK_DEVICE_DRV_BUF_SIZE 0#8))
      List.length_replicate.ge _ _ (StrncpyFromUser.fault hzero hshort (List.prefix_refl [])) _ hok
    obtain ⟨⟨ch, hch, -⟩, -⟩ := hbad.name (ioctlOpen_freeDevice _ _)
    exact absurd hch List.not_mem_nil
  · by_contra hhead
    have hc : endsName c = false := by
      have hnl : c ≠ 0x0A#8 := fun heq => hhead (by rw [heq]; rfl)
      have hnul : c ≠ 0#8 := fun heq => hzero (by
        rw [heq]
        exact List.mem_cons_self)
      simp [endsName, hnl, hnul]
    have hstale : ∀ x, endsName x = false → x ≠ 0x20#8 →
        some [c, x] = some (hostFileName (c :: rest)) := by
      intro x hx hblank
      let buffer : List Byte := 0#8 :: x :: List.replicate BLOCK_DEVICE_DRV_BUF_SIZE 0#8
      have hlen : BLOCK_DEVICE_DRV_BUF_SIZE ≤ buffer.length := by
        rw [List.length_cons, List.length_cons, List.length_replicate]
        omega
      have hbad := h (freeDevice buffer) hlen [c] none
        (StrncpyFromUser.fault hzero hshort ⟨rest, rfl⟩) _ hok
      exact (handedName_stale hc hx hblank _).symm.trans
        (hbad.name (ioctlOpen_freeDevice _ _)).2
    have heq := (hstale 0x61#8 (by decide) (by decide)).trans
      (hstale 0x62#8 (by decide) (by decide)).symm
    simp at heq

end Rabbits
