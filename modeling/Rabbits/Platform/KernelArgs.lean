/-
  File:      Rabbits/Platform/KernelArgs.lean
  Subject:   The tag list for the Linux kernel (platforms/roger/system_init.cpp).

  * `Cursor` -- the RAM, and the pointer `p` into it; `put` is `*p++ = v`;
  * `setKernelArgs` -- the list that `set_kernel_args` writes;
  * `walkTags` -- the list as a reader walks it: from length to length, up to the end tag;
  * `Wrote` -- what a piece of the writer leaves: its words, everything else as it was;
  * `walk_written` -- **words that are the words of tags are walked tag by tag**;
  * `walkTags_setKernelArgs` -- the tags of every RAM, initrd and command line.
-/
import Rabbits.Mem.MemDevice
import Rabbits.Lib.Stream

namespace Rabbits

open Lib

/-! ## 1. The writer -/

def KERNEL_ARGS_ADDR : ULong := 0x100#32

def KERNEL_LOAD_ADDR : ULong := 0x00010000#32

def INITRD_LOAD_ADDR : ULong := 0x00800000#32

/-- The bytes of the RAM and the pointer `p`, as its offset from `systemc_get_sram_mem_addr ()`. -/
structure Cursor where
  p : ULong
  mem : Nat → Byte

namespace Cursor

/-- `*p++ = v`. -/
def put (v : ULong) (c : Cursor) : Cursor where
  p := c.p + 4#32
  mem := (rangeWrite c.p.toNat 4 (byteOf v)).apply c.mem

/-- One after the other. -/
def puts (vs : List ULong) (c : Cursor) : Cursor := vs.foldl (fun c v => c.put v) c

end Cursor

def ATAG_CORE : ULong := 0x54410001#32

def ATAG_MEM : ULong := 0x54410002#32

def ATAG_INITRD2 : ULong := 0x54420005#32

def ATAG_CMDLINE : ULong := 0x54410009#32

/-- `ATAG_INITRD2`, when there is an initrd. -/
def putInitrd (initrdSize loaderStart : ULong) (c : Cursor) : Cursor :=
  if initrdSize ≠ 0#32 then
    c.puts [4#32, ATAG_INITRD2, loaderStart + INITRD_LOAD_ADDR, initrdSize]
  else c

/-- `ATAG_CMDLINE` of a text that is not empty. -/
def putText (s : CString) (c : Cursor) : Cursor :=
  let cmdlineSize : BitVec 32 := BitVec.ofNat 32 s.strlen
  let copied : Cursor :=
    { c with
      mem := (rangeWrite (c.p + 8#32).toNat (cmdlineSize + 1#32).toNat
        fun i => s.bytes.getD i 0#8).apply c.mem }
  let cmdlineSize := cmdlineSize.sshiftRight 2 + 1#32
  let headed := (copied.put (cmdlineSize + 2#32)).put ATAG_CMDLINE
  { headed with p := headed.p + 4#32 * cmdlineSize }

/-- `kernel_cmdline && *kernel_cmdline`. -/
def putCmdline (kernelCmdline : Option CString) (c : Cursor) : Cursor :=
  match kernelCmdline with
  | none => c
  | some s => if s.chars = [] then c else putText s c

/-- `set_kernel_args`, with the pointer where it ends. -/
def kernelArgs (ramSize initrdSize : ULong) (kernelCmdline : Option CString)
    (loaderStart : ULong) (mem : Nat → Byte) : Cursor :=
  let c : Cursor := ⟨KERNEL_ARGS_ADDR, mem⟩
  let c := c.puts [5#32, ATAG_CORE, 1#32, 0x1000#32, 0#32]
  let c := c.puts [4#32, ATAG_MEM, ramSize, loaderStart]
  let c := putInitrd initrdSize loaderStart c
  let c := putCmdline kernelCmdline c
  c.puts [0#32, 0#32]

/-- `set_kernel_args`. -/
def setKernelArgs (ramSize initrdSize : ULong) (kernelCmdline : Option CString)
    (loaderStart : ULong) (mem : Nat → Byte) : Nat → Byte :=
  (kernelArgs ramSize initrdSize kernelCmdline loaderStart mem).mem

/-! ## 2. The reader -/

def readWord (mem : Nat → Byte) (p : Nat) : ULong := ulongOf fun j => mem (p + j)

def readWords (mem : Nat → Byte) (p n : Nat) : List ULong :=
  (List.range n).map fun i => readWord mem (p + 4 * i)

/-- A tag and the words behind its head. -/
structure Atag where
  tag : ULong
  payload : List ULong
  deriving DecidableEq

namespace Atag

/-- As it lies in memory. -/
def words (t : Atag) : List ULong := BitVec.ofNat 32 (t.payload.length + 2) :: t.tag :: t.payload

@[simp] theorem length_words (t : Atag) : t.words.length = t.payload.length + 2 := rfl

/-- The text at the begin of the payload, up to its NUL. -/
def text (t : Atag) : Option CString := CString.ofBuffer (t.payload.flatMap (leBytes 4))

end Atag

/-- The tags from `p` on. A list that does not end is `none`, as is a length of less than a head. -/
def walkTags (mem : Nat → Byte) : Nat → Nat → Option (List Atag)
  | 0, _ => none
  | fuel + 1, p =>
    let size := readWord mem p
    let tag := readWord mem (p + 4)
    if size = 0#32 then
      if tag = 0#32 then some [] else none
    else if size = 1#32 then none
    else
      (walkTags mem fuel (p + 4 * size.toNat)).map
        (⟨tag, readWords mem (p + 8) (size.toNat - 2)⟩ :: ·)

/-! ## 3. Words in memory -/

@[simp] theorem length_readWords (mem : Nat → Byte) (p n : Nat) :
    (readWords mem p n).length = n := by
  simp [readWords]

theorem readWords_succ (mem : Nat → Byte) (p n : Nat) :
    readWords mem p (n + 1) = readWord mem p :: readWords mem (p + 4) n := by
  rw [readWords, List.range_succ_eq_map, List.map_cons, List.map_map]
  refine congrArg₂ List.cons rfl (List.map_congr_left fun i _ => ?_)
  show readWord mem (p + 4 * (i + 1)) = readWord mem (p + 4 + 4 * i)
  congr 1
  omega

theorem readWords_append (mem : Nat → Byte) (p m n : Nat) :
    readWords mem p (m + n) = readWords mem p m ++ readWords mem (p + 4 * m) n := by
  rw [readWords, List.range_add, List.map_append, List.map_map]
  refine congrArg₂ (· ++ ·) rfl (List.map_congr_left fun i _ => ?_)
  show readWord mem (p + 4 * (m + i)) = readWord mem (p + 4 * m + 4 * i)
  congr 1
  omega

theorem readWord_congr {mem mem' : Nat → Byte} {p : Nat}
    (h : ∀ a, p ≤ a → a < p + 4 → mem a = mem' a) : readWord mem p = readWord mem' p :=
  ulongOf_congr fun j hj => h (p + j) (by omega) (by omega)

theorem readWords_congr {mem mem' : Nat → Byte} {p n : Nat}
    (h : ∀ a, p ≤ a → a < p + 4 * n → mem a = mem' a) :
    readWords mem p n = readWords mem' p n := by
  refine List.map_congr_left fun i hi => readWord_congr fun a h₁ h₂ => h a (by omega) ?_
  have := List.mem_range.mp hi
  omega

theorem leBytes_ulongOf (b : Nat → Byte) : leBytes 4 (ulongOf b) = (List.range 4).map b := by
  obtain ⟨h0, h1, h2, h3⟩ := byteOf_append (b 3) (b 2) (b 1) (b 0)
  refine List.map_congr_left fun i hi => ?_
  show byteOf (ulongOf b) i = b i
  have hlt := List.mem_range.mp hi
  rcases (by omega : i = 0 ∨ i = 1 ∨ i = 2 ∨ i = 3) with rfl | rfl | rfl | rfl
  · exact h0
  · exact h1
  · exact h2
  · exact h3

/-- The bytes of words are the bytes that lie there. -/
theorem flatMap_readWords (mem : Nat → Byte) (p n : Nat) :
    (readWords mem p n).flatMap (leBytes 4) = (List.range (4 * n)).map fun i => mem (p + i) := by
  induction n with
  | zero => rfl
  | succ n ih =>
      have hlast : readWords mem (p + 4 * n) 1 = [readWord mem (p + 4 * n)] := rfl
      rw [readWords_append, List.flatMap_append, ih, hlast, List.flatMap_singleton, readWord,
        leBytes_ulongOf, show 4 * (n + 1) = 4 * n + 4 from rfl, List.range_add, List.map_append,
        List.map_map]
      refine congrArg₂ (· ++ ·) rfl (List.map_congr_left fun i _ => ?_)
      simp [Nat.add_assoc]

/-! ## 4. What a piece of the writer leaves -/

/-- The words lie from the old pointer to the new one; no other byte has changed. -/
structure Wrote (c c' : Cursor) (ws : List ULong) : Prop where
  p : c'.p.toNat = c.p.toNat + 4 * ws.length
  words : readWords c'.mem c.p.toNat ws.length = ws
  frame : ∀ a, a < c.p.toNat ∨ c'.p.toNat ≤ a → c'.mem a = c.mem a

namespace Wrote

variable {c c₁ c₂ : Cursor} {ws us : List ULong}

theorem refl (c : Cursor) : Wrote c c [] := ⟨rfl, rfl, fun _ _ => rfl⟩

/-- **Two pieces one after the other.** The second one leaves the words of the first. -/
theorem trans (h₁ : Wrote c c₁ ws) (h₂ : Wrote c₁ c₂ us) : Wrote c c₂ (ws ++ us) := by
  have hp₁ := h₁.p
  have hp₂ := h₂.p
  refine ⟨?_, ?_, fun a ha => ?_⟩
  · rw [hp₂, hp₁, List.length_append]
    omega
  · have hfirst : readWords c₂.mem c.p.toNat ws.length = ws :=
      (readWords_congr fun a _ hlt => h₂.frame a (Or.inl (by omega))).trans h₁.words
    rw [List.length_append, readWords_append, hfirst, ← hp₁, h₂.words]
  · rw [h₂.frame a (by omega), h₁.frame a (by omega)]

end Wrote

theorem Cursor.put_wrote (v : ULong) {c : Cursor} (h : c.p.toNat + 4 < 2 ^ 32) :
    Wrote c (c.put v) [v] := by
  have hp : (c.p + 4#32).toNat = c.p.toNat + 4 := by
    rw [BitVec.toNat_add, BitVec.toNat_ofNat]
    omega
  refine ⟨hp, ?_, fun a ha => ?_⟩
  · refine congrArg (fun x => [x]) ((ulongOf_congr fun j hj => ?_).trans (ulongOf_byteOf v))
    show (rangeWrite c.p.toNat 4 (byteOf v)).apply c.mem (c.p.toNat + 4 * 0 + j) = byteOf v j
    rw [rangeWrite_apply, if_pos (by omega)]
    congr 1
    omega
  · have ha' : a < c.p.toNat ∨ c.p.toNat + 4 ≤ a := hp ▸ ha
    exact (rangeWrite_apply _ _ _ _ a).trans (if_neg (by omega))

theorem Cursor.puts_wrote (vs : List ULong) {c : Cursor}
    (h : c.p.toNat + 4 * vs.length < 2 ^ 32) : Wrote c (c.puts vs) vs := by
  induction vs generalizing c with
  | nil => exact Wrote.refl c
  | cons v vs ih =>
      rw [List.length_cons] at h
      have hput : Wrote c (c.put v) [v] := c.put_wrote v (by omega)
      have hp : (c.put v).p.toNat = c.p.toNat + 4 := hput.p
      exact hput.trans (ih (by omega))

/-! ## 5. The command line -/

/-- The bytes from `p` on, when they begin with those of a text. -/
theorem ofBuffer_of_begin {mem : Nat → Byte} {p n : Nat} {s : CString} (hn : s.strlen < n)
    (h : ∀ i ≤ s.strlen, mem (p + i) = s.bytes.getD i 0#8) :
    CString.ofBuffer ((List.range n).map fun i => mem (p + i)) = some s := by
  obtain ⟨k, rfl⟩ := Nat.exists_eq_add_of_le (Nat.succ_le_of_lt hn)
  have hbegin : ((List.range (s.strlen + 1)).map fun i => mem (p + i)) = s.bytes := by
    refine List.ext_getElem (by simp) fun i h₁ h₂ => ?_
    have hi : i < s.strlen + 1 := by simpa using h₁
    rw [List.getElem_map, List.getElem_range, h i (by omega), List.getElem_eq_getD 0#8]
  rw [List.range_add, List.map_append, hbegin]
  exact s.ofBuffer_append _

theorem cmdlineSize_toNat {n : Nat} (h : n + 1 < 2 ^ 31) :
    ((BitVec.ofNat 32 n).sshiftRight 2 + 1#32).toNat = n / 4 + 1 := by
  have hmsb : (BitVec.ofNat 32 n).msb = false := by
    rw [BitVec.msb_eq_false_iff_two_mul_lt, BitVec.toNat_ofNat]
    omega
  rw [BitVec.sshiftRight_eq_of_msb_false hmsb, BitVec.toNat_add, BitVec.toNat_ushiftRight,
    BitVec.toNat_ofNat, Nat.shiftRight_eq_div_pow, BitVec.toNat_ofNat]
  omega

/-- The copy of a text, behind the place of its two words. -/
def copyText (s : CString) (c : Cursor) : Cursor :=
  { c with
    mem := (rangeWrite (c.p + 8#32).toNat (BitVec.ofNat 32 s.strlen + 1#32).toNat
      fun i => s.bytes.getD i 0#8).apply c.mem }

/-- The two words. -/
def textHead (s : CString) : List ULong :=
  [(BitVec.ofNat 32 s.strlen).sshiftRight 2 + 1#32 + 2#32, ATAG_CMDLINE]

theorem putText_eq (s : CString) (c : Cursor) : putText s c =
    { (copyText s c).puts (textHead s) with
      p := ((copyText s c).puts (textHead s)).p +
        4#32 * ((BitVec.ofNat 32 s.strlen).sshiftRight 2 + 1#32) } := rfl

theorem copyText_mem {s : CString} {c : Cursor} (h : c.p.toNat + 8 < 2 ^ 32)
    (hs : s.strlen + 1 < 2 ^ 31) (a : Nat) : (copyText s c).mem a =
      if c.p.toNat + 8 ≤ a ∧ a < c.p.toNat + 8 + (s.strlen + 1) then
        s.bytes.getD (a - (c.p.toNat + 8)) 0#8
      else c.mem a := by
  have hdst : (c.p + 8#32).toNat = c.p.toNat + 8 := by
    rw [BitVec.toNat_add, BitVec.toNat_ofNat]
    omega
  have hcount : (BitVec.ofNat 32 s.strlen + 1#32).toNat = s.strlen + 1 := by
    rw [BitVec.toNat_add, BitVec.toNat_ofNat, BitVec.toNat_ofNat]
    omega
  refine (rangeWrite_apply _ _ _ _ a).trans ?_
  rw [hdst, hcount]

/-- The two words are the head of a tag. -/
theorem textHead_eq {s : CString} (hs : s.strlen + 1 < 2 ^ 31) :
    textHead s = [BitVec.ofNat 32 (s.strlen / 4 + 1 + 2), ATAG_CMDLINE] := by
  have hsize : (BitVec.ofNat 32 s.strlen).sshiftRight 2 + 1#32 + 2#32 =
      BitVec.ofNat 32 (s.strlen / 4 + 1 + 2) := by
    apply BitVec.eq_of_toNat_eq
    rw [BitVec.toNat_add _ 2#32, cmdlineSize_toNat hs, BitVec.toNat_ofNat, BitVec.toNat_ofNat]
  rw [textHead, hsize]

/-- **The tag of a text**, whose size is rounded up to whole words. -/
theorem putText_wrote (s : CString) {c : Cursor}
    (h : c.p.toNat + 8 + 4 * (s.strlen / 4 + 1) < 2 ^ 32) (hs : s.strlen + 1 < 2 ^ 31) :
    ∃ t : Atag, t.tag = ATAG_CMDLINE ∧ t.text = some s ∧ t.payload.length = s.strlen / 4 + 1 ∧
      Wrote c (putText s c) t.words := by
  have hcopied := copyText_mem (s := s) (c := c) (by omega) hs
  -- the text first, then the two words before it
  have hputs : Wrote (copyText s c) ((copyText s c).puts (textHead s)) (textHead s) :=
    (copyText s c).puts_wrote _ (by
      show c.p.toNat + 4 * 2 < 2 ^ 32
      omega)
  rw [putText_eq]
  generalize (copyText s c).puts (textHead s) = headed at hputs ⊢
  have hheadedp : headed.p.toNat = c.p.toNat + 8 := hputs.p
  have hp : (headed.p + 4#32 * ((BitVec.ofNat 32 s.strlen).sshiftRight 2 + 1#32)).toNat =
      c.p.toNat + 8 + 4 * (s.strlen / 4 + 1) := by
    rw [BitVec.toNat_add, BitVec.toNat_mul, cmdlineSize_toNat hs, hheadedp, BitVec.toNat_ofNat]
    omega
  refine ⟨⟨ATAG_CMDLINE, readWords headed.mem (c.p.toNat + 8) (s.strlen / 4 + 1)⟩, rfl, ?_,
    length_readWords _ _ _, ?_, ?_, fun a ha => ?_⟩
  · show CString.ofBuffer ((readWords _ _ _).flatMap (leBytes 4)) = some s
    rw [flatMap_readWords]
    refine ofBuffer_of_begin (by omega) fun i hi => ?_
    rw [hputs.frame _ (by omega), hcopied, if_pos (by omega), Nat.add_sub_cancel_left]
  · rw [Atag.length_words, length_readWords]
    exact hp.trans (by omega)
  · have hlen : (Atag.mk ATAG_CMDLINE
        (readWords headed.mem (c.p.toNat + 8) (s.strlen / 4 + 1))).words.length =
        2 + (s.strlen / 4 + 1) := by
      rw [Atag.length_words, length_readWords, Nat.add_comm]
    have hwords : readWords headed.mem c.p.toNat 2 = textHead s := hputs.words
    rw [hlen, readWords_append, hwords, textHead_eq hs, Atag.words, length_readWords]
    rfl
  · have ha' : a < c.p.toNat ∨ c.p.toNat + 8 + 4 * (s.strlen / 4 + 1) ≤ a := hp ▸ ha
    show headed.mem a = c.mem a
    have hout : a < c.p.toNat ∨ headed.p.toNat ≤ a := by omega
    rw [hputs.frame a hout, hcopied, if_neg (by omega)]

/-! ## 6. The list -/

/-- The text that gets a tag. -/
def givenText (kernelCmdline : Option CString) : Option CString :=
  kernelCmdline.filter fun s => s.chars ≠ []

def cmdlineWords (kernelCmdline : Option CString) : Nat :=
  ((givenText kernelCmdline).map fun s => 2 + (s.strlen / 4 + 1)).getD 0

def initrdTags (initrdSize loaderStart : ULong) : List Atag :=
  if initrdSize = 0#32 then [] else [⟨ATAG_INITRD2, [loaderStart + INITRD_LOAD_ADDR, initrdSize]⟩]

/-- Where the list ends: its first two tags, that of the initrd, the text, and the end tag. -/
def argsEnd (initrdSize : ULong) (kernelCmdline : Option CString) : Nat :=
  0x100 + 4 * (9 + (if initrdSize = 0#32 then 0 else 4) + cmdlineWords kernelCmdline + 2)

/-- The bytes of the command line itself. -/
def textBytes (kernelCmdline : Option CString) : Nat :=
  (kernelCmdline.map fun s => s.strlen + 1).getD 0

/-- The tag of a text has place for it. -/
theorem textBytes_le (kernelCmdline : Option CString) :
    textBytes kernelCmdline ≤ 4 * cmdlineWords kernelCmdline + 1 := by
  rcases kernelCmdline with _ | s
  · exact Nat.zero_le _
  · show s.strlen + 1 ≤ _
    by_cases hempty : s.chars = []
    · rw [CString.strlen, hempty]
      exact Nat.le_add_left 1 _
    · have hgiven : givenText (some s) = some s := by simp [givenText, hempty]
      rw [cmdlineWords, hgiven]
      show s.strlen + 1 ≤ 4 * (2 + (s.strlen / 4 + 1)) + 1
      omega

/-- The list fits into the RAM. The RAM and the command line are two arrays of one address space. -/
structure ArgsFit (ramBytes initrdSize : ULong) (kernelCmdline : Option CString) : Prop where
  ram : argsEnd initrdSize kernelCmdline ≤ ramBytes.toNat
  space : ramBytes.toNat + textBytes kernelCmdline ≤ 2 ^ 32

theorem putInitrd_wrote (initrdSize loaderStart : ULong) {c : Cursor}
    (h : c.p.toNat + 16 < 2 ^ 32) :
    Wrote c (putInitrd initrdSize loaderStart c)
      ((initrdTags initrdSize loaderStart).flatMap Atag.words) := by
  unfold putInitrd initrdTags
  by_cases hsize : initrdSize = 0#32
  · rw [if_neg (not_not_intro hsize), if_pos hsize]
    exact Wrote.refl c
  · rw [if_pos hsize, if_neg hsize]
    exact c.puts_wrote _ (by simpa using h)

/-- **The tag of the command line**: none when there is no text. -/
theorem putCmdline_wrote (kernelCmdline : Option CString) {c : Cursor}
    (h : c.p.toNat + 4 * cmdlineWords kernelCmdline < 2 ^ 32)
    (hs : textBytes kernelCmdline < 2 ^ 31) :
    ∃ tags : List Atag,
      tags.map (fun t => (t.tag, t.text)) =
        (givenText kernelCmdline).toList.map (fun s => (ATAG_CMDLINE, some s)) ∧
      (∀ t ∈ tags, t.payload.length + 2 < 2 ^ 32) ∧ tags.length ≤ 1 ∧
      (tags.flatMap Atag.words).length = cmdlineWords kernelCmdline ∧
      Wrote c (putCmdline kernelCmdline c) (tags.flatMap Atag.words) := by
  rcases kernelCmdline with _ | s
  · exact ⟨[], rfl, by simp, by simp, rfl, Wrote.refl c⟩
  · by_cases hempty : s.chars = []
    · have hgiven : givenText (some s) = none := by simp [givenText, hempty]
      refine ⟨[], ?_, by simp, by simp, ?_, ?_⟩
      · rw [hgiven]
        rfl
      · rw [cmdlineWords, hgiven]
        rfl
      · rw [putCmdline, if_pos hempty]
        exact Wrote.refl c
    · have hgiven : givenText (some s) = some s := by simp [givenText, hempty]
      have hwords : cmdlineWords (some s) = 2 + (s.strlen / 4 + 1) := by
        rw [cmdlineWords, hgiven]
        rfl
      have hlen : s.strlen + 1 < 2 ^ 31 := hs
      rw [hwords] at h ⊢
      obtain ⟨t, htag, htext, hpayload, hwrote⟩ := putText_wrote s (c := c) (by omega) hlen
      refine ⟨[t], ?_, ?_, le_refl _, ?_, ?_⟩
      · rw [hgiven, List.map_singleton, htag, htext]
        rfl
      · intro u hu
        rw [List.mem_singleton.mp hu]
        omega
      · rw [List.flatMap_singleton, Atag.length_words]
        omega
      · rw [List.flatMap_singleton, putCmdline, if_neg hempty]
        exact hwrote

/-- Words that are the words of tags are walked tag by tag. -/
theorem walk_written {mem : Nat → Byte} {tags : List Atag} {p fuel : Nat}
    (hsize : ∀ t ∈ tags, t.payload.length + 2 < 2 ^ 32) (hfuel : tags.length < fuel)
    (h : readWords mem p ((tags.flatMap Atag.words).length + 2) =
      tags.flatMap Atag.words ++ [0#32, 0#32]) :
    walkTags mem fuel p = some tags := by
  induction tags generalizing p fuel with
  | nil =>
      obtain ⟨fuel, rfl⟩ := Nat.exists_eq_add_of_lt hfuel
      have hend : [readWord mem p, readWord mem (p + 4)] = [0#32, 0#32] := h
      simp only [List.cons.injEq, and_true] at hend
      rw [walkTags, if_pos hend.1, if_pos hend.2]
  | cons t tags ih =>
      rcases fuel with _ | fuel
      · exact absurd hfuel (Nat.not_lt_zero _)
      · have hlt := hsize t List.mem_cons_self
        have hlen : ((t :: tags).flatMap Atag.words).length + 2 =
            (t.payload.length + 2) + ((tags.flatMap Atag.words).length + 2) := by
          rw [List.flatMap_cons, List.length_append, Atag.length_words]
          omega
        rw [hlen, readWords_append, List.flatMap_cons, List.append_assoc] at h
        -- the words of the first tag, and what lies behind it
        obtain ⟨hfirst, hrest⟩ := List.append_inj h (by simp)
        rw [show t.payload.length + 2 = t.payload.length + 1 + 1 from rfl, readWords_succ,
          readWords_succ, Atag.words] at hfirst
        simp only [List.cons.injEq] at hfirst
        obtain ⟨hhead, htag, hpayload⟩ := hfirst
        have hnat : (readWord mem p).toNat = t.payload.length + 2 := by
          rw [hhead, BitVec.toNat_ofNat]
          exact Nat.mod_eq_of_lt hlt
        have hne : ∀ v : ULong, v.toNat < 2 → readWord mem p ≠ v := by
          intro v hv heq
          rw [heq] at hnat
          omega
        rw [walkTags, if_neg (hne 0#32 (by decide)), if_neg (hne 1#32 (by decide)), hnat,
          ih (fun u hu => hsize u (List.mem_cons_of_mem t hu))
            (by simpa using hfuel) hrest, Nat.add_sub_cancel, htag, hpayload]
        rfl

/-- Where the writer ends, and that no other byte has changed. -/
theorem kernelArgs_wrote {ramBytes initrdSize : ULong} {kernelCmdline : Option CString}
    (h : ArgsFit ramBytes initrdSize kernelCmdline) (ramSize loaderStart : ULong)
    (mem : Nat → Byte) :
    ∃ cmdline : List Atag,
      cmdline.map (fun t => (t.tag, t.text)) =
        (givenText kernelCmdline).toList.map (fun s => (ATAG_CMDLINE, some s)) ∧
      (∀ t ∈ cmdline, t.payload.length + 2 < 2 ^ 32) ∧ cmdline.length ≤ 1 ∧
      (cmdline.flatMap Atag.words).length = cmdlineWords kernelCmdline ∧
      Wrote ⟨KERNEL_ARGS_ADDR, mem⟩ (kernelArgs ramSize initrdSize kernelCmdline loaderStart mem)
        ((⟨ATAG_CORE, [1#32, 0x1000#32, 0#32]⟩ :: ⟨ATAG_MEM, [ramSize, loaderStart]⟩ ::
          (initrdTags initrdSize loaderStart ++ cmdline)).flatMap Atag.words ++ [0#32, 0#32]) := by
  have hram := h.ram
  have hspace := h.space
  have htext := textBytes_le kernelCmdline
  have hinitrd : ((initrdTags initrdSize loaderStart).flatMap Atag.words).length =
      if initrdSize = 0#32 then 0 else 4 := by
    unfold initrdTags
    split <;> rfl
  unfold argsEnd at hram
  generalize (if initrdSize = 0#32 then 0 else 4) = ni at hram hinitrd
  let c₀ : Cursor := ⟨KERNEL_ARGS_ADDR, mem⟩
  have hp₀ : c₀.p.toNat = 0x100 := rfl
  have hcore := c₀.puts_wrote [5#32, ATAG_CORE, 1#32, 0x1000#32, 0#32] (by simp [hp₀])
  set c₁ := c₀.puts [5#32, ATAG_CORE, 1#32, 0x1000#32, 0#32]
  have hp₁ : c₁.p.toNat = 0x100 + 20 := hcore.p
  have hmem := c₁.puts_wrote [4#32, ATAG_MEM, ramSize, loaderStart] (by simp [hp₁])
  set c₂ := c₁.puts [4#32, ATAG_MEM, ramSize, loaderStart]
  have hp₂ : c₂.p.toNat = 0x100 + 36 := by
    rw [hmem.p, hp₁]
    rfl
  have hrd := putInitrd_wrote initrdSize loaderStart (c := c₂) (by omega)
  set c₃ := putInitrd initrdSize loaderStart c₂
  have hp₃ : c₃.p.toNat = 0x100 + 36 + 4 * ni := by rw [hrd.p, hp₂, hinitrd]
  obtain ⟨cmdline, htags, hsize, hone, hwords, hcmd⟩ :=
    putCmdline_wrote kernelCmdline (c := c₃) (by omega) (by omega)
  set c₄ := putCmdline kernelCmdline c₃
  have hp₄ := hcmd.p
  have hend := c₄.puts_wrote [0#32, 0#32] (by simp only [List.length_cons, List.length_nil]; omega)
  refine ⟨cmdline, htags, hsize, hone, hwords, ?_⟩
  have hall := hcore.trans (hmem.trans (hrd.trans (hcmd.trans hend)))
  rw [List.flatMap_cons, List.flatMap_cons, List.flatMap_append, List.append_assoc,
    List.append_assoc, List.append_assoc]
  exact hall

/-- The bytes outside of the list stay. -/
theorem setKernelArgs_of_outside {ramBytes initrdSize : ULong} {kernelCmdline : Option CString}
    (h : ArgsFit ramBytes initrdSize kernelCmdline) (ramSize loaderStart : ULong)
    (mem : Nat → Byte) {a : Nat} (ha : a < 0x100 ∨ argsEnd initrdSize kernelCmdline ≤ a) :
    setKernelArgs ramSize initrdSize kernelCmdline loaderStart mem a = mem a := by
  obtain ⟨cmdline, -, -, -, hlen, hwrote⟩ := kernelArgs_wrote h ramSize loaderStart mem
  have hinitrd : ((initrdTags initrdSize loaderStart).flatMap Atag.words).length =
      if initrdSize = 0#32 then 0 else 4 := by
    unfold initrdTags
    split <;> rfl
  have hp := hwrote.p
  rw [List.flatMap_cons, List.flatMap_cons, List.flatMap_append] at hp
  simp only [List.length_append, hlen, hinitrd, Atag.length_words, List.length_cons,
    List.length_nil] at hp
  have hend : (kernelArgs ramSize initrdSize kernelCmdline loaderStart mem).p.toNat =
      argsEnd initrdSize kernelCmdline := by
    unfold argsEnd
    have hstart : KERNEL_ARGS_ADDR.toNat = 0x100 := rfl
    omega
  refine hwrote.frame a ?_
  rw [hend]
  exact ha

/-- **The list of every RAM, initrd and command line.** The reader visits these tags and the end
    tag, and finds the command line in the payload of its tag. -/
theorem walkTags_setKernelArgs {ramBytes initrdSize : ULong} {kernelCmdline : Option CString}
    (h : ArgsFit ramBytes initrdSize kernelCmdline) (ramSize loaderStart : ULong)
    (mem : Nat → Byte) {fuel : Nat} (hfuel : 5 ≤ fuel) :
    ∃ cmdline : List Atag,
      cmdline.map (fun t => (t.tag, t.text)) =
        (givenText kernelCmdline).toList.map (fun s => (ATAG_CMDLINE, some s)) ∧
      walkTags (setKernelArgs ramSize initrdSize kernelCmdline loaderStart mem) fuel
          KERNEL_ARGS_ADDR.toNat =
        some (⟨ATAG_CORE, [1#32, 0x1000#32, 0#32]⟩ :: ⟨ATAG_MEM, [ramSize, loaderStart]⟩ ::
          (initrdTags initrdSize loaderStart ++ cmdline)) := by
  obtain ⟨cmdline, htags, hsize, hone, -, hwrote⟩ :=
    kernelArgs_wrote h ramSize loaderStart mem
  refine ⟨cmdline, htags, walk_written ?_ ?_ ?_⟩
  · intro t ht
    simp only [List.mem_cons, List.mem_append, initrdTags] at ht
    rcases ht with rfl | rfl | ht | ht
    · exact (by decide : 3 + 2 < 2 ^ 32)
    · exact (by decide : 2 + 2 < 2 ^ 32)
    · split at ht
      · exact absurd ht List.not_mem_nil
      · rw [List.mem_singleton.mp ht]
        exact (by decide : 2 + 2 < 2 ^ 32)
    · exact hsize t ht
  · have hrd : (initrdTags initrdSize loaderStart).length ≤ 1 := by
      unfold initrdTags
      split <;> simp
    simp only [List.length_cons, List.length_append]
    omega
  · have hwords := hwrote.words
    rwa [List.length_append] at hwords

def rootOnRam : CString := CString.ofString "root=/dev/ram0"

/-- An initrd of 3 MB and a command line of 14 characters, in 8 MB. -/
theorem walkTags_rootOnRam :
    ∃ cmdline : List Atag,
      cmdline.map (fun t => (t.tag, t.text)) =
        (givenText (some rootOnRam)).toList.map (fun s => (ATAG_CMDLINE, some s)) ∧
      walkTags (setKernelArgs 0x800000#32 0x300000#32 (some rootOnRam) 0#32 fun _ => 0#8) 5
          KERNEL_ARGS_ADDR.toNat =
        some (⟨ATAG_CORE, [1#32, 0x1000#32, 0#32]⟩ :: ⟨ATAG_MEM, [0x800000#32, 0#32]⟩ ::
          (initrdTags 0x300000#32 0#32 ++ cmdline)) :=
  @walkTags_setKernelArgs 0x801000#32 0x300000#32 (some rootOnRam)
    ⟨by decide, by decide⟩ 0x800000#32 0#32 (fun _ => 0#8) 5 (le_refl 5)

end Rabbits
