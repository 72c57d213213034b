/-
  File:      Rabbits/Lib/Stream.lean
  Subject:   Programs that read a stream of bytes, and what has to be in it.

  * `StreamM` -- a program over the bytes that are left; `readN`, `times`;
  * `Reads` -- **the program reads exactly these bytes as this value**, whatever follows them; the
    rules `Reads.pure`, `Reads.bind`, `Reads.times`, one for each way to put programs together;
  * `leBytes`, `leValue` -- a word in memory, least significant byte first;
  * `CString` -- a text without a NUL, which is what makes its bytes readable again;
  * `records` -- a stream cut into pieces of one length.
-/
import Mathlib.Data.List.TakeWhile
import Mathlib.Data.Nat.Digits.Defs

namespace Lib

universe u

variable {β α γ : Type u}

/-! ## 1. Programs -/

/-- `none` is a program that stops before its end. -/
abbrev StreamM (β α : Type u) := StateT (List β) Option α

/-- The next `n` bytes, if there are as many. -/
def readN (n : Nat) : StreamM β (List β) := fun s =>
  if n ≤ s.length then some (s.take n, s.drop n) else none

def times (r : StreamM β α) : Nat → StreamM β (List α)
  | 0 => pure []
  | n + 1 => do
    let a ← r
    let as ← times r n
    return a :: as

/-- `r` reads `xs` as `a` and leaves what follows. -/
def Reads (r : StreamM β α) (xs : List β) (a : α) : Prop :=
  ∀ rest, r.run (xs ++ rest) = some (a, rest)

variable {r : StreamM β α} {f : α → StreamM β γ} {xs ys : List β} {a : α} {c : γ}

theorem Reads.pure (a : α) : Reads (Pure.pure a : StreamM β α) [] a := fun _ => rfl

/-- The program goes on behind what it has read. -/
theorem Reads.run_bind (h : Reads r xs a) (f : α → StreamM β γ) (rest : List β) :
    (r >>= f).run (xs ++ rest) = (f a).run rest := by
  rw [StateT.run_bind, h, Option.bind_eq_bind, Option.bind_some]

theorem Reads.bind (h : Reads r xs a) (hf : Reads (f a) ys c) : Reads (r >>= f) (xs ++ ys) c := by
  intro rest
  rw [List.append_assoc, h.run_bind]
  exact hf rest

/-- The last step of a program, behind which no byte is left for it. -/
theorem Reads.map (h : Reads r xs a) (g : α → γ) :
    Reads (r >>= fun a => Pure.pure (g a)) xs (g a) := by
  have hbind := h.bind (f := fun a => Pure.pure (g a)) (Reads.pure (g a))
  rwa [List.append_nil] at hbind

theorem reads_readN {n : Nat} (h : xs.length = n) : Reads (readN n) xs xs := by
  intro rest
  have hle : n ≤ (xs ++ rest).length := by simp [h]
  show (if n ≤ (xs ++ rest).length then some ((xs ++ rest).take n, (xs ++ rest).drop n) else none) = _
  rw [if_pos hle, ← h, List.take_left, List.drop_left]

/-- **A counted loop** reads the items one after the other, when each of them is read. -/
theorem Reads.times {ι : Type u} {items : List ι} {enc : ι → List β} {val : ι → α}
    (h : ∀ i ∈ items, Reads r (enc i) (val i)) :
    Reads (times r items.length) (items.flatMap enc) (items.map val) := by
  induction items with
  | nil => exact Reads.pure []
  | cons i items ih =>
      have htail := ih fun j hj => h j (List.mem_cons_of_mem i hj)
      exact (h i List.mem_cons_self).bind (htail.map fun as => val i :: as)

/-! ## 2. Words -/

/-- The low `n` bytes of a word, as they lie in memory. -/
def leBytes {w : Nat} (n : Nat) (v : BitVec w) : List (BitVec 8) :=
  (List.range n).map fun i => v.extractLsb' (8 * i) 8

@[simp] theorem length_leBytes {w : Nat} (n : Nat) (v : BitVec w) : (leBytes n v).length = n := by
  simp [leBytes]

/-- The word that lies in memory. -/
def leValue (w : Nat) (bytes : List (BitVec 8)) : BitVec w :=
  BitVec.ofNat w (Nat.ofDigits 256 (bytes.map BitVec.toNat))

theorem ofDigits_leBytes {w : Nat} (n : Nat) (v : BitVec w) :
    Nat.ofDigits 256 ((leBytes n v).map BitVec.toNat) = v.toNat % 256 ^ n := by
  induction n with
  | zero => simp [leBytes, Nat.mod_one]
  | succ n ih =>
      have hlast : ((v.extractLsb' (8 * n) 8).toNat : Nat) = v.toNat / 256 ^ n % 256 := by
        rw [BitVec.extractLsb'_toNat, Nat.shiftRight_eq_div_pow, Nat.pow_mul]
      have hsucc : leBytes (n + 1) v = leBytes n v ++ [v.extractLsb' (8 * n) 8] := by
        simp [leBytes, List.range_succ]
      rw [hsucc, List.map_append, Nat.ofDigits_append, ih, List.length_map, length_leBytes,
        List.map_singleton, Nat.ofDigits_singleton, hlast, Nat.mod_pow_succ]

/-- **A word that is written is read again.** -/
theorem leValue_leBytes {w n : Nat} (h : w = 8 * n) (v : BitVec w) :
    leValue w (leBytes n v) = v := by
  have hlt : v.toNat < 256 ^ n := by
    have hpow : (256 : Nat) ^ n = 2 ^ w := by rw [h, Nat.pow_mul]
    exact hpow ▸ v.isLt
  rw [leValue, ofDigits_leBytes, Nat.mod_eq_of_lt hlt, BitVec.ofNat_toNat, BitVec.setWidth_eq]

def readLe (n w : Nat) : StreamM (BitVec 8) (BitVec w) := do
  let bytes ← readN n
  return leValue w bytes

theorem reads_readLe (n : Nat) {w : Nat} (h : w = 8 * n) (v : BitVec w) :
    Reads (readLe n w) (leBytes n v) v := by
  have hread := (reads_readN (length_leBytes n v)).map (leValue w)
  rwa [leValue_leBytes h] at hread

/-! ## 3. Texts -/

/-- A text of C: no NUL in it, one behind it. -/
@[ext] structure CString where
  chars : List (BitVec 8)
  noNul : 0#8 ∉ chars

namespace CString

def strlen (s : CString) : Nat := s.chars.length

/-- With its NUL. -/
def bytes (s : CString) : List (BitVec 8) := s.chars ++ [0#8]

@[simp] theorem length_bytes (s : CString) : s.bytes.length = s.strlen + 1 := by
  simp [bytes, strlen]

theorem nul_notMem_takeWhile (buf : List (BitVec 8)) : 0#8 ∉ buf.takeWhile (· ≠ 0#8) := by
  intro h
  simpa using List.mem_takeWhile_imp h

/-- A literal, up to its first NUL. -/
def ofString (s : String) : CString :=
  ⟨(s.toList.map fun c => BitVec.ofNat 8 c.toNat).takeWhile (· ≠ 0#8), nul_notMem_takeWhile _⟩

theorem strlen_ofString_le (s : String) : (ofString s).strlen ≤ s.toList.length :=
  (List.takeWhile_sublist _).length_le.trans (List.length_map _).le

/-- The text at the begin of a buffer; `none` when the buffer has no end of it. -/
def ofBuffer (buf : List (BitVec 8)) : Option CString :=
  if 0#8 ∈ buf then some ⟨buf.takeWhile (· ≠ 0#8), nul_notMem_takeWhile buf⟩ else none

/-- What lies behind the text does not count. -/
theorem ofBuffer_append (s : CString) (rest : List (BitVec 8)) :
    ofBuffer (s.bytes ++ rest) = some s := by
  have hmem : 0#8 ∈ s.bytes := List.mem_append_right _ List.mem_cons_self
  have hall : ∀ b ∈ s.chars, decide (b ≠ 0#8) = true := by
    intro b hb
    exact decide_eq_true fun h => s.noNul (h ▸ hb)
  rw [ofBuffer, if_pos (List.mem_append_left rest hmem)]
  congr
  ext1
  rw [bytes, List.append_assoc, List.takeWhile_append_of_pos hall]
  simp

/-- **A text is found again in its bytes.** -/
theorem ofBuffer_bytes (s : CString) : ofBuffer s.bytes = some s := by
  have h := s.ofBuffer_append []
  rwa [List.append_nil] at h

end CString

/-! ## 4. Records -/

/-- The stream in pieces of `n` bytes, up to the first piece that is not whole. -/
def records (n : Nat) (s : List β) : List (List β) :=
  if 0 < n ∧ n ≤ s.length then s.take n :: records n (s.drop n) else []
termination_by s.length
decreasing_by
  rename_i h
  rw [List.length_drop]
  omega

/-- **Records of one length are found again.** -/
theorem records_flatten {n : Nat} (hn : 0 < n) {rs : List (List β)}
    (h : ∀ r ∈ rs, r.length = n) : records n rs.flatten = rs := by
  induction rs with
  | nil =>
      rw [records, if_neg]
      simp only [List.flatten_nil, List.length_nil]
      omega
  | cons r rs ih =>
      have hr := h r List.mem_cons_self
      have hle : n ≤ (r ++ rs.flatten).length := by simp [hr]
      rw [List.flatten_cons, records, if_pos ⟨hn, hle⟩, ← hr, List.take_left, List.drop_left, hr,
        ih fun r' hr' => h r' (List.mem_cons_of_mem r hr')]

end Lib
