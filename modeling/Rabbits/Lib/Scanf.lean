/-
  File:      Rabbits/Lib/Scanf.lean
  Subject:   The directives of `fscanf` over the characters that are left.

  A directive takes a prefix of the text or fails with the value that `fscanf` returns: the number
  of conversions done, and `EOF` where the text ends before the first one.

  * `literal`, `spaces`, `scanULong`, `scanInt` -- an ordinary character, white space, `%lX`, `%d`;
  * `NoLonger`, `Shorter` -- what is left after a directive, with one rule for each composition;
  * `numeral`, `scanULong_numeral`, `scanInt_intText` -- **a number that is written out is read
    back**.

  A value that is out of range is cut to the nearest one in it, as `strtoul` and `strtol` do.
-/
import Mathlib.Data.Nat.Digits.Defs

namespace Lib

/-! ## 1. The directives -/

/-- The text that is left, or the value that `fscanf` returns. -/
abbrev Scan := StateT (List Char) (Except Int)

def EOF : Int := -1

/-- The text is at its end. -/
def inputFailure {α : Type} (converted : Nat) : Scan α :=
  throw (if converted = 0 then EOF else converted)

/-- The text does not match. -/
def matchingFailure {α : Type} (converted : Nat) : Scan α := throw (converted : Int)

def isSpace (c : Char) : Bool :=
  c = ' ' || c = '\t' || c = '\n' || c = '\x0b' || c = '\x0c' || c = '\r'

/-- White space in the format. -/
def spaces : Scan Unit := modify (·.dropWhile isSpace)

/-- An ordinary character of the format. -/
def literal (converted : Nat) (c : Char) : Scan Unit := do
  match ← get with
  | [] => inputFailure converted
  | d :: s => if d = c then set s else matchingFailure converted

def digitValue (base : Nat) (c : Char) : Option Nat :=
  let value :=
    if '0' ≤ c ∧ c ≤ '9' then some (c.toNat - '0'.toNat)
    else if 'a' ≤ c ∧ c ≤ 'f' then some (c.toNat - 'a'.toNat + 10)
    else if 'A' ≤ c ∧ c ≤ 'F' then some (c.toNat - 'A'.toNat + 10)
    else none
  value.filter (· < base)

/-- The digits from here on, behind the value `acc`. -/
def digitsFrom (base acc : Nat) : List Char → Nat × List Char
  | [] => (acc, [])
  | c :: s =>
      match digitValue base c with
      | some d => digitsFrom base (acc * base + d) s
      | none => (acc, c :: s)

/-- One digit at least. -/
def number (base : Nat) : List Char → Option (Nat × List Char)
  | [] => none
  | c :: s => (digitValue base c).map (digitsFrom base · s)

def takeSign : List Char → Bool × List Char
  | [] => (false, [])
  | c :: s => if c = '-' then (true, s) else if c = '+' then (false, s) else (false, c :: s)

/-- The `0x` that a hexadecimal number may begin with. -/
def dropHexPrefix : List Char → List Char
  | c :: d :: s => if c = '0' ∧ (d = 'x' ∨ d = 'X') then s else c :: d :: s
  | s => s

/-- What `%lX` and `%d` have in common: white space, a sign, the number. -/
def scanNumber (converted base : Nat) (dropPrefix : List Char → List Char) : Scan (Bool × Nat) := do
  spaces
  let s ← get
  if s = [] then inputFailure converted
  else
    match number base (dropPrefix (takeSign s).2) with
    | none => matchingFailure converted
    | some (v, rest) => do
        set rest
        return ((takeSign s).1, v)

/-- `%lX`. -/
def scanULong (converted : Nat) : Scan (BitVec 32) := do
  let (neg, v) ← scanNumber converted 16 dropHexPrefix
  return if 2 ^ 32 ≤ v then BitVec.allOnes 32
    else if neg then -BitVec.ofNat 32 v else BitVec.ofNat 32 v

/-- `%d`. -/
def scanInt (converted : Nat) : Scan Int := do
  let (neg, v) ← scanNumber converted 10 id
  return if neg then max (-(v : Int)) (-2 ^ 31) else min (v : Int) (2 ^ 31 - 1)

/-! ## 2. What is left -/

variable {α β : Type}

def NoLonger (p : Scan α) : Prop := ∀ s r, p.run s = .ok r → r.2.length ≤ s.length

def Shorter (p : Scan α) : Prop := ∀ s r, p.run s = .ok r → r.2.length < s.length

theorem Shorter.noLonger {p : Scan α} (h : Shorter p) : NoLonger p := fun s r hr =>
  Nat.le_of_lt (h s r hr)

theorem run_bind_eq_ok {p : Scan α} {q : α → Scan β} {s : List Char} {r : β × List Char}
    (h : (p >>= q).run s = .ok r) : ∃ a t, p.run s = .ok (a, t) ∧ (q a).run t = .ok r := by
  rw [StateT.run_bind] at h
  cases hp : p.run s with
  | error e =>
      rw [hp] at h
      cases h
  | ok v =>
      rw [hp] at h
      exact ⟨v.1, v.2, rfl, h⟩

theorem run_bind_of_ok {p : Scan α} {s t : List Char} {a : α} (h : p.run s = .ok (a, t))
    (q : α → Scan β) : (p >>= q).run s = (q a).run t := by
  rw [StateT.run_bind, h]
  rfl

theorem NoLonger.bind {p : Scan α} {q : α → Scan β} (hp : NoLonger p) (hq : ∀ a, NoLonger (q a)) :
    NoLonger (p >>= q) := by
  intro s r hr
  obtain ⟨a, t, h1, h2⟩ := run_bind_eq_ok hr
  exact (hq a t r h2).trans (hp s (a, t) h1)

theorem Shorter.bind {p : Scan α} {q : α → Scan β} (hp : Shorter p) (hq : ∀ a, NoLonger (q a)) :
    Shorter (p >>= q) := by
  intro s r hr
  obtain ⟨a, t, h1, h2⟩ := run_bind_eq_ok hr
  exact (hq a t r h2).trans_lt (hp s (a, t) h1)

theorem noLonger_pure (a : α) : NoLonger (pure a : Scan α) := by
  intro s r hr
  cases hr
  exact Nat.le_refl _

theorem noLonger_spaces : NoLonger spaces := by
  intro s r hr
  cases hr
  exact (List.dropWhile_suffix _).length_le

theorem shorter_literal (converted : Nat) (c : Char) : Shorter (literal converted c) := by
  intro s r hr
  obtain ⟨t, s', hget, hr⟩ := run_bind_eq_ok hr
  cases hget
  cases s with
  | nil => cases hr
  | cons d s =>
      simp only at hr
      split at hr
      · cases hr
        exact Nat.lt_succ_self _
      · cases hr

theorem length_digitsFrom (base acc : Nat) (s : List Char) :
    (digitsFrom base acc s).2.length ≤ s.length := by
  induction s generalizing acc with
  | nil => exact Nat.le_refl _
  | cons c s ih =>
      unfold digitsFrom
      split
      · exact (ih _).trans (Nat.le_succ _)
      · exact Nat.le_refl _

theorem length_number {base : Nat} {s : List Char} {r : Nat × List Char}
    (h : number base s = some r) : r.2.length ≤ s.length := by
  cases s with
  | nil => cases h
  | cons c s =>
      obtain ⟨d, -, rfl⟩ := Option.map_eq_some_iff.mp h
      exact (length_digitsFrom base d s).trans (Nat.le_succ _)

theorem length_takeSign (s : List Char) : (takeSign s).2.length ≤ s.length := by
  cases s with
  | nil => exact Nat.le_refl _
  | cons c s =>
      simp only [takeSign]
      split
      · exact Nat.le_succ _
      · split
        · exact Nat.le_succ _
        · exact Nat.le_refl _

theorem length_dropHexPrefix (s : List Char) : (dropHexPrefix s).length ≤ s.length := by
  unfold dropHexPrefix
  split
  · split
    · simp only [List.length_cons]
      omega
    · exact Nat.le_refl _
  · exact Nat.le_refl _

theorem noLonger_scanNumber (converted base : Nat) {dropPrefix : List Char → List Char}
    (hd : ∀ s, (dropPrefix s).length ≤ s.length) :
    NoLonger (scanNumber converted base dropPrefix) := by
  refine noLonger_spaces.bind fun _ => ?_
  intro s r hr
  obtain ⟨t, s', hget, hr⟩ := run_bind_eq_ok hr
  cases hget
  split at hr
  · cases hr
  · split at hr
    · cases hr
    · next v rest hn =>
        cases hr
        exact (length_number hn).trans ((hd _).trans (length_takeSign s))

theorem noLonger_scanULong (converted : Nat) : NoLonger (scanULong converted) :=
  (noLonger_scanNumber converted 16 length_dropHexPrefix).bind fun _ => noLonger_pure _

theorem noLonger_scanInt (converted : Nat) : NoLonger (scanInt converted) :=
  (noLonger_scanNumber converted 10 fun _ => Nat.le_refl _).bind fun _ => noLonger_pure _

/-! ## 3. Numbers written out -/

def digitChar (d : Nat) : Char := "0123456789ABCDEF".toList.getD d '0'

/-- The digits of `n`, with zeros in front up to a width. -/
def paddedDigits (base width n : Nat) : List Nat :=
  List.replicate (width - (base.digits n).length) 0 ++ (base.digits n).reverse

def numeral (base width n : Nat) : List Char := (paddedDigits base width n).map digitChar

def intText (i : Int) : List Char :=
  if 0 ≤ i then numeral 10 1 i.toNat else '-' :: numeral 10 1 (-i).toNat

/-- The text does not go on with a digit. -/
def Ends (base : Nat) (s : List Char) : Prop := ∀ c ∈ s.head?, digitValue base c = none

theorem digitValue_digitChar {d : Nat} (hd : d < 16) :
    ∀ base, d < base → digitValue base (digitChar d) = some d := by
  have hall : ∀ d < 16, digitValue 16 (digitChar d) = some d := by decide
  intro base hb
  have h := hall d hd
  simp only [digitValue, Option.filter_eq_some_iff] at h ⊢
  exact ⟨h.1, by simpa using hb⟩

theorem digitsFrom_map {base : Nat} (hbase : base ≤ 16) {ds : List Nat} (hds : ∀ d ∈ ds, d < base)
    {s : List Char} (hs : Ends base s) (acc : Nat) :
    digitsFrom base acc (ds.map digitChar ++ s) = (ds.foldl (fun a d => a * base + d) acc, s) := by
  induction ds generalizing acc with
  | nil =>
      cases s with
      | nil => rfl
      | cons c s => simp [digitsFrom, hs c (by simp)]
  | cons d ds ih =>
      have hd := hds d (.head _)
      have hv := digitValue_digitChar (Nat.lt_of_lt_of_le hd hbase) base hd
      simp only [List.map_cons, List.cons_append, digitsFrom, hv, List.foldl_cons]
      exact ih (fun d h => hds d (.tail _ h)) _

theorem foldl_replicate_zero (base k : Nat) (ds : List Nat) :
    (List.replicate k 0 ++ ds).foldl (fun a d => a * base + d) 0 =
      ds.foldl (fun a d => a * base + d) 0 := by
  induction k with
  | zero => rfl
  | succ k ih => simpa [List.replicate_succ] using ih

theorem foldl_reverse_digits (base : Nat) (ds : List Nat) :
    ds.reverse.foldl (fun a d => a * base + d) 0 = Nat.ofDigits base ds := by
  rw [List.foldl_reverse]
  induction ds with
  | nil => rfl
  | cons d ds ih =>
      rw [List.foldr_cons, ih, Nat.ofDigits_cons, Nat.mul_comm, Nat.add_comm]

theorem paddedDigits_lt {base : Nat} (hbase : 1 < base) (width n : Nat) :
    ∀ d ∈ paddedDigits base width n, d < base := by
  intro d hd
  rcases List.mem_append.mp hd with hd | hd
  · rw [List.eq_of_mem_replicate hd]
    omega
  · exact Nat.digits_lt_base hbase (List.mem_reverse.mp hd)

theorem paddedDigits_ne_nil {base width : Nat} (hwidth : 0 < width) (n : Nat) :
    paddedDigits base width n ≠ [] := by
  intro h
  have hlen := congrArg List.length h
  simp only [paddedDigits, List.length_append, List.length_replicate, List.length_reverse,
    List.length_nil] at hlen
  omega

/-- **A number that is written out is read back.** -/
theorem number_numeral {base width : Nat} (h1 : 1 < base) (h16 : base ≤ 16) (hwidth : 0 < width)
    (n : Nat) {s : List Char} (hs : Ends base s) :
    number base (numeral base width n ++ s) = some (n, s) := by
  have hfold : (paddedDigits base width n).foldl (fun a d => a * base + d) 0 = n := by
    rw [paddedDigits, foldl_replicate_zero, foldl_reverse_digits, Nat.ofDigits_digits]
  have hlt := paddedDigits_lt h1 width n
  unfold numeral
  cases hds : paddedDigits base width n with
  | nil => exact absurd hds (paddedDigits_ne_nil hwidth n)
  | cons d ds =>
      rw [hds] at hfold hlt
      have hd := hlt d (.head _)
      have hv := digitValue_digitChar (Nat.lt_of_lt_of_le hd h16) base hd
      rw [List.map_cons, List.cons_append, number, hv, Option.map_some,
        digitsFrom_map h16 (fun d h => hlt d (.tail _ h)) hs]
      simpa using hfold

/-! ## 4. Directives on such a text -/

theorem run_literal (converted : Nat) (c : Char) (s : List Char) :
    (literal converted c).run (c :: s) = .ok ((), s) := by
  simp [literal]
  rfl

theorem run_spaces (s : List Char) : spaces.run s = .ok ((), s.dropWhile isSpace) := rfl

theorem run_scanNumber {base v : Nat} {dropPrefix : List Char → List Char} {neg : Bool}
    {s t t' rest : List Char} (converted : Nat) (hs : s.dropWhile isSpace = t) (ht : t ≠ [])
    (hsign : takeSign t = (neg, t')) (hn : number base (dropPrefix t') = some (v, rest)) :
    (scanNumber converted base dropPrefix).run s = .ok ((neg, v), rest) := by
  simp [scanNumber, spaces, hs, ht, hsign, hn]
  rfl

theorem digitChar_plain : ∀ d < 16, isSpace (digitChar d) = false ∧ digitChar d ≠ '-' ∧
    digitChar d ≠ '+' ∧ digitChar d ≠ 'x' ∧ digitChar d ≠ 'X' := by decide

/-- The first digit is neither white space nor a sign. -/
theorem plain_numeral {base width : Nat} (h1 : 1 < base) (h16 : base ≤ 16) (hwidth : 0 < width)
    (n : Nat) (s : List Char) :
    (numeral base width n ++ s).dropWhile isSpace = numeral base width n ++ s ∧
      numeral base width n ++ s ≠ [] ∧
      takeSign (numeral base width n ++ s) = (false, numeral base width n ++ s) := by
  have hlt := paddedDigits_lt h1 width n
  unfold numeral
  cases hds : paddedDigits base width n with
  | nil => exact absurd hds (paddedDigits_ne_nil hwidth n)
  | cons d ds =>
      obtain ⟨hspace, hminus, hplus, -, -⟩ :=
        digitChar_plain d (Nat.lt_of_lt_of_le (hlt d (by rw [hds]; exact .head _)) h16)
      exact ⟨by simp [hspace], by simp, by simp [takeSign, hminus, hplus]⟩

/-- Its second digit is not the `x` of a prefix. -/
theorem dropHexPrefix_numeral {width : Nat} (hwidth : 1 < width) (n : Nat) (s : List Char) :
    dropHexPrefix (numeral 16 width n ++ s) = numeral 16 width n ++ s := by
  have hlt := paddedDigits_lt (by decide : 1 < 16) width n
  have hlen : 1 < (paddedDigits 16 width n).length := by
    simp only [paddedDigits, List.length_append, List.length_replicate, List.length_reverse]
    omega
  unfold numeral
  match hds : paddedDigits 16 width n with
  | [] => simp [hds] at hlen
  | [_] => simp [hds] at hlen
  | d :: e :: ds =>
      obtain ⟨-, -, -, hx, hX⟩ := digitChar_plain e (hlt e (by rw [hds]; exact .tail _ (.head _)))
      simp [dropHexPrefix, hx, hX]

/-- **`%lX` reads what `%08lX` wrote.** -/
theorem scanULong_numeral {width : Nat} (hwidth : 1 < width) (converted : Nat) (v : BitVec 32)
    {s : List Char} (hs : Ends 16 s) :
    (scanULong converted).run (numeral 16 width v.toNat ++ s) = .ok (v, s) := by
  obtain ⟨hspace, hne, hsign⟩ :=
    plain_numeral (by decide) (Nat.le_refl 16) (Nat.lt_of_succ_lt hwidth) v.toNat s
  have hn := number_numeral (by decide) (Nat.le_refl 16) (Nat.lt_of_succ_lt hwidth) v.toNat hs
  rw [← dropHexPrefix_numeral hwidth] at hn
  have hrun := run_scanNumber converted hspace hne hsign hn
  have hval : (if 2 ^ 32 ≤ v.toNat then BitVec.allOnes 32 else BitVec.ofNat 32 v.toNat) = v := by
    rw [if_neg (Nat.not_le.mpr v.isLt), BitVec.ofNat_toNat, BitVec.setWidth_eq]
  rw [scanULong, run_bind_of_ok hrun]
  show (pure (if 2 ^ 32 ≤ v.toNat then BitVec.allOnes 32 else BitVec.ofNat 32 v.toNat) :
    Scan (BitVec 32)).run s = _
  rw [hval]
  rfl

/-- **`%d` reads what `%d` wrote.** -/
theorem scanInt_intText (converted : Nat) {i : Int} (hi : -2 ^ 31 ≤ i ∧ i < 2 ^ 31) {s : List Char}
    (hs : Ends 10 s) : (scanInt converted).run (intText i ++ s) = .ok (i, s) := by
  unfold intText scanInt
  split
  · next h0 =>
      obtain ⟨hspace, hne, hsign⟩ :=
        plain_numeral (by decide) (by decide : 10 ≤ 16) Nat.one_pos i.toNat s
      have hn := number_numeral (by decide) (by decide : 10 ≤ 16) Nat.one_pos i.toNat hs
      have hrun : (scanNumber converted 10 id).run _ = .ok ((false, i.toNat), s) :=
        run_scanNumber converted hspace hne hsign hn
      have hval : min (i.toNat : Int) (2 ^ 31 - 1) = i := by omega
      rw [run_bind_of_ok hrun]
      show (pure (min (i.toNat : Int) (2 ^ 31 - 1)) : Scan Int).run s = _
      rw [hval]
      rfl
  · next h0 =>
      have hn := number_numeral (by decide) (by decide : 10 ≤ 16) Nat.one_pos (-i).toNat hs
      have hrun : (scanNumber converted 10 id).run ('-' :: (numeral 10 1 (-i).toNat ++ s)) =
          .ok ((true, (-i).toNat), s) :=
        run_scanNumber converted (List.dropWhile_cons_of_neg (by decide)) (List.cons_ne_nil _ _)
          rfl hn
      have hval : max (-((-i).toNat : Int)) (-2 ^ 31) = i := by omega
      rw [List.cons_append, run_bind_of_ok hrun]
      show (pure (max (-((-i).toNat : Int)) (-2 ^ 31)) : Scan Int).run s = _
      rw [hval]
      rfl

end Lib
