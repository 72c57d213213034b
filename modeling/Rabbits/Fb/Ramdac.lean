/-
  File:      Rabbits/Fb/Ramdac.lean
  Subject:   The pictures of the ramdac (ramdac_device.cpp: write, receive_size, viewer, display).

  The first three words are the sizes of a picture; each one behind them is stored in the current
  image, at a place that two counters give, and the counters say when the picture is full.

  * `RamdacDevice.write` -- the device; `RamdacRun.next` -- a stream of words;
  * `frameEvents` -- the words of a stream where they belong, and the pictures that are full;
  * `wordIndex_toNat`, `pixel_spec` -- what the counters do with one word;
  * `framesRight_iff` -- **for which sizes every stream is shown right**: the rows of a picture have
    whole words, and the member `components`, which the constructor leaves as it is, was 0.

  A product of `int`s that does not fit is undefined. The segments of `shmget` have the size they
  are asked for, if it is positive; else there is none, and the search for its key does not end.
-/
import Mathlib.Data.Int.ModEq
import Mathlib.Tactic.Ring
import Rabbits.Lib.Labelled
import Rabbits.Lib.Raster
import Rabbits.Noc.MasterDevice

namespace Rabbits

open Lib

/-! ## 1. The device -/

/-- The product of two `int`s. -/
def intMul (a b : Int) : Option Int := if -2 ^ 31 ≤ a * b ∧ a * b < 2 ^ 31 then some (a * b) else none

/-- How the program can end, or worse. -/
inductive RamdacEnd where
  | exited
  | undefined
  | endless
  | divisionByZero
  | outside
  deriving DecidableEq

/-- A word is stored in one of the images; `display` is called. -/
inductive RamdacEvent where
  | stored (image index : Nat) (word : ULong)
  | displayed
  deriving DecidableEq

/-- The members of `ramdac_device`; `imageBytes` is the size of the segments. -/
structure RamdacDevice where
  mX : ULong
  mY : ULong
  width : BitVec 32
  height : BitVec 32
  components : BitVec 32
  ii : Nat
  ready : Bool
  image : Nat → Nat → ULong
  imageBytes : Nat
  nbImages : BitVec 32

/-- A device after a call, with what the call did and whether it was the last one. -/
structure RamdacResult where
  dev : RamdacDevice
  events : List RamdacEvent
  ended : Option RamdacEnd

namespace RamdacDevice

/-- The constructor, in some memory. -/
def new (memory : RamdacDevice) : RamdacDevice :=
  { memory with ii := 0, nbImages := 0#32, width := 0#32, height := 0#32, ready := false }

/-- The segments of `viewer`. -/
def viewer (s : RamdacDevice) : RamdacResult :=
  match (intMul s.components.toInt s.width.toInt).bind (intMul · s.height.toInt) with
  | none => ⟨s, [], some .undefined⟩
  | some bytes =>
      if bytes ≤ 0 then ⟨s, [], some .endless⟩ else ⟨{ s with imageBytes := bytes.toNat }, [], none⟩

def receiveSize (s : RamdacDevice) (data : ULong) : RamdacResult :=
  if s.width = 0#32 then ⟨{ s with width := data }, [], none⟩
  else if s.height = 0#32 then ⟨{ s with height := data }, [], none⟩
  else if s.components = 0#32 then
    viewer { s with ready := true, mX := 0#32, mY := 0#32, components := data }
  else ⟨s, [], none⟩

/-- `m_y * width * components / 4 + m_x`. -/
def wordIndex (s : RamdacDevice) : ULong := s.mY * s.width * s.components / 4#32 + s.mX

/-- `(width / 4) * components`, as an `unsigned int`. -/
def rowWords (s : RamdacDevice) : Option (BitVec 32) :=
  (intMul (s.width.toInt.tdiv 4) s.components.toInt).map (BitVec.ofInt 32)

def display (s : RamdacDevice) : RamdacDevice := { s with ii := (s.ii + 1) % 2 }

/-- A word of a picture. -/
def pixel (noFramesToSimulate : ULong) (s : RamdacDevice) (val1 : ULong) : RamdacResult :=
  let index := s.wordIndex.toNat
  if s.imageBytes < 4 * index + 4 then ⟨s, [], some .outside⟩
  else
    let stored := RamdacEvent.stored s.ii index val1
    let s :=
      { s with image := Function.update s.image s.ii (Function.update (s.image s.ii) index val1) }
    match s.rowWords with
    | none => ⟨s, [stored], some .undefined⟩
    | some m =>
        if m = 0#32 then ⟨s, [stored], some .divisionByZero⟩
        else
          let s := { s with mX := (s.mX + 1#32) % m }
          if s.mX ≠ 0#32 then ⟨s, [stored], none⟩
          else if s.height = 0#32 then ⟨s, [stored], some .divisionByZero⟩
          else
            let s := { s with mY := (s.mY + 1#32) % s.height }
            if s.mY ≠ 0#32 then ⟨s, [stored], none⟩
            else
              let s := { s with nbImages := s.nbImages + 1#32 }.display
              ⟨s, [stored, .displayed],
                if noFramesToSimulate ≠ 0#32 ∧ s.nbImages = noFramesToSimulate then some .exited
                else none⟩

/-- `ramdac_device::write`; `val1` is the first word of the data. -/
def write (noFramesToSimulate : ULong) (s : RamdacDevice) (ofs val1 : ULong) : RamdacResult :=
  if ofs = 0#32 then
    if s.ready then s.pixel noFramesToSimulate val1 else s.receiveSize val1
  else if ofs = 0x880#32 then ⟨s, [], none⟩
  else ⟨s, [], some .exited⟩

end RamdacDevice

/-! ## 2. Streams -/

/-- A device with the words that were sent behind the sizes, and what was done with them. -/
structure RamdacRun where
  dev : RamdacDevice
  words : List ULong
  trace : List RamdacEvent
  ended : Option RamdacEnd

namespace RamdacRun

/-- The three sizes. -/
def opened (noFramesToSimulate : ULong) (memory : RamdacDevice) (width height components : ULong) :
    RamdacRun :=
  let s := ((RamdacDevice.new memory).write noFramesToSimulate 0#32 width).dev
  let s := (s.write noFramesToSimulate 0#32 height).dev
  let r := s.write noFramesToSimulate 0#32 components
  ⟨r.dev, [], [], r.ended⟩

/-- A word is sent. -/
def next (noFramesToSimulate : ULong) (s : RamdacRun) (word : ULong) : Option RamdacRun :=
  match s.ended with
  | none =>
      let r := s.dev.write noFramesToSimulate 0#32 word
      some ⟨r.dev, s.words ++ [word], s.trace ++ r.events, r.ended⟩
  | some _ => none

end RamdacRun

/-- What becomes of the `j`th word of all, with `n` words in a picture. -/
def frameEvent (n j : Nat) (word : ULong) : List RamdacEvent :=
  .stored (j / n % 2) (j % n) word :: if (j + 1) % n = 0 then [.displayed] else []

/-- And of a stream. -/
def frameEvents (n : Nat) (words : List ULong) : List RamdacEvent :=
  words.zipIdx.flatMap fun x => frameEvent n x.2 x.1

theorem frameEvents_append (n : Nat) (words : List ULong) (word : ULong) :
    frameEvents n (words ++ [word]) = frameEvents n words ++ frameEvent n words.length word := by
  simp [frameEvents, List.zipIdx_append]

/-- The words are stored and the pictures are shown as they should, and nothing else happens; but the
    simulation may be over after its pictures. -/
def RamdacRun.FramesRight (n : Nat) (s : RamdacRun) : Prop :=
  (s.ended = none ∨ s.ended = some .exited) ∧ s.trace = frameEvents n s.words

/-! ## 3. One word -/

namespace RamdacDevice

variable {s : RamdacDevice} {m : BitVec 32} {n : Nat} {noFrames word : ULong}

/-- The counters behind `n` words, in rows of `m`. -/
structure At (s : RamdacDevice) (m : BitVec 32) (n : Nat) : Prop where
  ready : s.ready = true
  row : s.rowWords = some m
  row_ne : m ≠ 0#32
  height_ne : s.height ≠ 0#32
  col : s.mX.toNat = n % m.toNat
  line : s.mY.toNat = n / m.toNat % s.height.toNat

/-- The sizes and the segments are the same. -/
structure SameSizes (s t : RamdacDevice) : Prop where
  width : t.width = s.width
  height : t.height = s.height
  components : t.components = s.components
  imageBytes : t.imageBytes = s.imageBytes

/-- What the `n`th word does. -/
structure PixelDone (s : RamdacDevice) (m : BitVec 32) (n : Nat) (word : ULong) (r : RamdacResult) :
    Prop where
  sizes : s.SameSizes r.dev
  counters : r.dev.At m (n + 1)
  ii : r.dev.ii = if (n + 1) % (m.toNat * s.height.toNat) = 0 then (s.ii + 1) % 2 else s.ii
  events : r.events = .stored s.ii s.wordIndex.toNat word ::
    if (n + 1) % (m.toNat * s.height.toNat) = 0 then [.displayed] else []
  ended : r.ended = none ∨ r.ended = some .exited ∧ (n + 1) % (m.toNat * s.height.toNat) = 0

/-- A counter that wraps. -/
theorem toNat_succ_umod {x m : BitVec 32} (h : x.toNat < m.toNat) :
    ((x + 1#32) % m).toNat = (x.toNat + 1) % m.toNat := by
  rw [BitVec.toNat_umod, BitVec.toNat_add, Nat.mod_eq_of_lt (a := x.toNat + (1#32).toNat)]
  · rfl
  · show x.toNat + 1 < 2 ^ 32
    omega

theorem toNat_pos {x : BitVec 32} (h : x ≠ 0#32) : 0 < x.toNat := by
  refine Nat.pos_of_ne_zero fun h0 => h (BitVec.eq_of_toNat_eq ?_)
  rw [h0]
  rfl

theorem toNat_eq_zero {x : BitVec 32} : x = 0#32 ↔ x.toNat = 0 :=
  ⟨fun h => by rw [h]; rfl, fun h => BitVec.eq_of_toNat_eq (by rw [h]; rfl)⟩

/-- The counter of the words in a row, behind the next word. -/
theorem At.col_succ (h : s.At m n) : ((s.mX + 1#32) % m).toNat = (n + 1) % m.toNat := by
  have hm := toNat_pos h.row_ne
  have hlt : s.mX.toNat < m.toNat := h.col ▸ Nat.mod_lt n hm
  rw [toNat_succ_umod hlt, h.col, Nat.mod_add_mod]

/-- The counter of the rows, when a row is full. -/
theorem At.line_succ (h : s.At m n) (hrow : (n + 1) % m.toNat = 0) :
    ((s.mY + 1#32) % s.height).toNat = (n + 1) / m.toNat % s.height.toNat := by
  have hlt : s.mY.toNat < s.height.toNat := h.line ▸ Nat.mod_lt _ (toNat_pos h.height_ne)
  rw [toNat_succ_umod hlt, h.line, Nat.mod_add_mod, row_succ, if_pos hrow]

/-- **A word inside of the image.** -/
theorem pixel_spec (h : s.At m n) (hin : ¬ s.imageBytes < 4 * s.wordIndex.toNat + 4) :
    s.PixelDone m n word (s.pixel noFrames word) := by
  have hlast := last_place (n + 1) m.toNat s.height.toNat
  have hcol := h.col_succ
  have hrow : ∀ image, rowWords { s with image } = some m := fun _ => h.row
  unfold pixel
  simp only [if_neg hin, hrow, if_neg h.row_ne]
  split
  · next hx =>
      -- the row goes on
      have hx : (n + 1) % m.toNat ≠ 0 := fun h0 => hx (toNat_eq_zero.mpr (hcol.trans h0))
      have hfull : ¬ (n + 1) % (m.toNat * s.height.toNat) = 0 := fun h0 => hx (hlast.mp h0).1
      refine ⟨⟨rfl, rfl, rfl, rfl⟩, ⟨h.ready, h.row, h.row_ne, h.height_ne, hcol, ?_⟩, ?_, ?_,
        .inl rfl⟩
      · show s.mY.toNat = _
        rw [row_succ, if_neg hx, h.line]
      · rw [if_neg hfull]
      · rw [if_neg hfull]
  · next hx =>
      have hx : (n + 1) % m.toNat = 0 := hcol.symm.trans (toNat_eq_zero.mp (not_not.mp hx))
      have hline := h.line_succ hx
      rw [if_neg h.height_ne]
      split
      · next hy =>
          -- the next row
          have hy : (n + 1) / m.toNat % s.height.toNat ≠ 0 :=
            fun h0 => hy (toNat_eq_zero.mpr (hline.trans h0))
          have hfull : ¬ (n + 1) % (m.toNat * s.height.toNat) = 0 := fun h0 => hy (hlast.mp h0).2
          refine ⟨⟨rfl, rfl, rfl, rfl⟩, ⟨h.ready, h.row, h.row_ne, h.height_ne, hcol, hline⟩,
            ?_, ?_, .inl rfl⟩
          · rw [if_neg hfull]
          · rw [if_neg hfull]
      · next hy =>
          -- the next picture
          have hy : (n + 1) / m.toNat % s.height.toNat = 0 :=
            hline.symm.trans (toNat_eq_zero.mp (not_not.mp hy))
          have hfull : (n + 1) % (m.toNat * s.height.toNat) = 0 := hlast.mpr ⟨hx, hy⟩
          refine ⟨⟨rfl, rfl, rfl, rfl⟩, ⟨h.ready, h.row, h.row_ne, h.height_ne, hcol, hline⟩,
            ?_, ?_, ?_⟩
          · rw [if_pos hfull]
            rfl
          · rw [if_pos hfull]
          · dsimp only
            split
            · exact .inr ⟨rfl, hfull⟩
            · exact .inl rfl

/-- A word with which nothing worse happens than the end of the simulation. -/
theorem pixel_inside (hended : (s.pixel noFrames word).ended = none ∨
    (s.pixel noFrames word).ended = some .exited) : ¬ s.imageBytes < 4 * s.wordIndex.toNat + 4 := by
  intro hout
  unfold pixel at hended
  simp only [if_pos hout, reduceCtorEq, Option.some.injEq, or_self] at hended

/-- And its rows have words. -/
theorem pixel_row (hended : (s.pixel noFrames word).ended = none ∨
    (s.pixel noFrames word).ended = some .exited) : ∃ m, s.rowWords = some m ∧ m ≠ 0#32 := by
  have hin := pixel_inside hended
  have hrow : ∀ image, rowWords { s with image } = s.rowWords := fun _ => rfl
  unfold pixel at hended
  simp only [if_neg hin, hrow] at hended
  cases hm : s.rowWords with
  | none => simp only [hm, reduceCtorEq, Option.some.injEq, or_self] at hended
  | some m =>
      refine ⟨m, rfl, fun h0 => ?_⟩
      simp only [hm, if_pos h0, reduceCtorEq, Option.some.injEq, or_self] at hended

/-! ## 4. The sizes -/

/-- The segments, where nothing worse happens. -/
theorem viewer_segments (hended : s.viewer.ended = none ∨ s.viewer.ended = some .exited) :
    ∃ bytes : Nat, s.components.toInt * s.width.toInt * s.height.toInt = bytes ∧ bytes < 2 ^ 31 ∧
      s.viewer = ⟨{ s with imageBytes := bytes }, [], none⟩ := by
  unfold viewer at hended ⊢
  cases hbytes : (intMul s.components.toInt s.width.toInt).bind (intMul · s.height.toInt) with
  | none => simp only [hbytes, reduceCtorEq, Option.some.injEq, or_self] at hended
  | some bytes =>
      by_cases hle : bytes ≤ 0
      · simp only [hbytes, if_pos hle, reduceCtorEq, Option.some.injEq, or_self] at hended
      · obtain ⟨area, harea, hfull⟩ := Option.bind_eq_some_iff.mp hbytes
        obtain ⟨-, harea⟩ := Option.ite_none_right_eq_some.mp harea
        obtain ⟨hfits, hfull⟩ := Option.ite_none_right_eq_some.mp hfull
        cases harea
        cases hfull
        refine ⟨_, (Int.toNat_of_nonneg (by omega)).symm, by omega, ?_⟩
        exact if_neg hle

theorem toInt_modEq (x : BitVec 32) : x.toInt ≡ x.toNat [ZMOD 2 ^ 32] := by
  rw [BitVec.toInt_eq_toNat_cond]
  split
  · rfl
  · exact Int.ModEq.symm (Int.modEq_iff_dvd.mpr ⟨-1, by push_cast; omega⟩)

/-- A product of `int`s that holds a picture of its sizes is that of the sizes. -/
theorem sizes_lt {width height components : BitVec 32} {bytes : Nat}
    (hbytes : components.toInt * width.toInt * height.toInt = bytes) (hlt : bytes < 2 ^ 31)
    (hfits : 4 * (width.toNat * height.toNat * components.toNat / 4) ≤ bytes) :
    width.toNat * height.toNat * components.toNat < 2 ^ 31 := by
  have hmod : ((bytes : Nat) : Int) ≡
      ((width.toNat * height.toNat * components.toNat : Nat) : Int) [ZMOD 2 ^ 32] := by
    have hprod := ((toInt_modEq components).mul (toInt_modEq width)).mul (toInt_modEq height)
    rw [hbytes] at hprod
    have hcomm : ((width.toNat * height.toNat * components.toNat : Nat) : Int) =
        components.toNat * width.toNat * height.toNat := by
      push_cast
      ring
    rwa [hcomm]
  have hnat : bytes % 2 ^ 32 = width.toNat * height.toNat * components.toNat % 2 ^ 32 := by
    have := hmod
    unfold Int.ModEq at this
    exact_mod_cast this
  omega

/-- The sizes whose picture is an `int`. -/
structure Small (s : RamdacDevice) : Prop where
  width_pos : 0 < s.width.toNat
  height_pos : 0 < s.height.toNat
  components_pos : 0 < s.components.toNat
  lt : s.width.toNat * s.height.toNat * s.components.toNat < 2 ^ 31

theorem Small.congr {t : RamdacDevice} (h : s.Small) (hsizes : s.SameSizes t) : t.Small := by
  obtain ⟨hw, hh, hc, -⟩ := hsizes
  exact ⟨hw ▸ h.width_pos, hh ▸ h.height_pos, hc ▸ h.components_pos, by rw [hw, hh, hc]; exact h.lt⟩

theorem Small.row_lt (h : s.Small) : s.width.toNat * s.components.toNat < 2 ^ 31 :=
  calc s.width.toNat * s.components.toNat
      ≤ s.width.toNat * s.components.toNat * s.height.toNat := Nat.le_mul_of_pos_right _ h.height_pos
    _ = s.width.toNat * s.height.toNat * s.components.toNat := Nat.mul_right_comm _ _ _
    _ < 2 ^ 31 := h.lt

theorem Small.width_lt (h : s.Small) : s.width.toNat < 2 ^ 31 :=
  (Nat.le_mul_of_pos_right _ h.components_pos).trans_lt h.row_lt

theorem Small.components_lt (h : s.Small) : s.components.toNat < 2 ^ 31 :=
  (Nat.le_mul_of_pos_left _ h.width_pos).trans_lt h.row_lt

theorem Small.height_lt (h : s.Small) : s.height.toNat < 2 ^ 31 :=
  ((Nat.le_mul_of_pos_left _ h.width_pos).trans
    (Nat.le_mul_of_pos_right _ h.components_pos)).trans_lt h.lt

theorem toInt_of_lt {x : BitVec 32} (h : x.toNat < 2 ^ 31) : x.toInt = x.toNat :=
  BitVec.toInt_eq_toNat_of_lt (by omega)

theorem intMul_of_lt {a b : Nat} (h : a * b < 2 ^ 31) :
    intMul (a : Int) b = some ((a * b : Nat) : Int) := by
  have hlt : ((a * b : Nat) : Int) < 2 ^ 31 := by exact_mod_cast h
  rw [intMul, ← Nat.cast_mul, if_pos ⟨by omega, hlt⟩]

/-- The words of a row. -/
theorem Small.rowWords_eq (h : s.Small) :
    s.rowWords = some (BitVec.ofNat 32 (s.width.toNat / 4 * s.components.toNat)) := by
  have hle : s.width.toNat / 4 * s.components.toNat ≤ s.width.toNat * s.components.toNat :=
    Nat.mul_le_mul_right _ (Nat.div_le_self _ _)
  have hdiv : (s.width.toNat : Int).tdiv 4 = ((s.width.toNat / 4 : Nat) : Int) := rfl
  rw [rowWords, toInt_of_lt h.width_lt, toInt_of_lt h.components_lt, hdiv,
    intMul_of_lt (hle.trans_lt h.row_lt)]
  rfl

theorem Small.toNat_row (h : s.Small) :
    (BitVec.ofNat 32 (s.width.toNat / 4 * s.components.toNat)).toNat =
      s.width.toNat / 4 * s.components.toNat := by
  have hle : s.width.toNat / 4 * s.components.toNat ≤ s.width.toNat * s.components.toNat :=
    Nat.mul_le_mul_right _ (Nat.div_le_self _ _)
  have hlt := h.row_lt
  rw [BitVec.toNat_ofNat, Nat.mod_eq_of_lt (by omega)]

/-- The place of a word, where the products fit. -/
theorem Small.wordIndex_toNat (h : s.Small) (hy : s.mY.toNat < s.height.toNat)
    (hx : s.mX.toNat < s.width.toNat / 4 * s.components.toNat) :
    s.wordIndex.toNat = s.mY.toNat * s.width.toNat * s.components.toNat / 4 + s.mX.toNat := by
  have hlt := h.lt
  have hrow := h.row_lt
  have hy1 : s.mY.toNat * s.width.toNat ≤ s.mY.toNat * s.width.toNat * s.components.toNat :=
    Nat.le_mul_of_pos_right _ h.components_pos
  have hy2 : s.mY.toNat * s.width.toNat * s.components.toNat ≤
      s.width.toNat * s.height.toNat * s.components.toNat := by
    rw [Nat.mul_comm s.width.toNat]
    exact Nat.mul_le_mul_right _ (Nat.mul_le_mul_right _ hy.le)
  have hx2 : s.width.toNat / 4 * s.components.toNat ≤ s.width.toNat * s.components.toNat :=
    Nat.mul_le_mul_right _ (Nat.div_le_self _ _)
  rw [wordIndex, BitVec.toNat_add, BitVec.toNat_udiv, BitVec.toNat_mul, BitVec.toNat_mul,
    Nat.mod_eq_of_lt (a := s.mY.toNat * s.width.toNat) (by omega),
    Nat.mod_eq_of_lt (a := s.mY.toNat * s.width.toNat * s.components.toNat) (by omega)]
  exact Nat.mod_eq_of_lt (by show _ / 4 + _ < 2 ^ 32; omega)

end RamdacDevice

/-! ## 5. What a right stream says -/

namespace RamdacRun

variable {s s' : RamdacRun} {m : BitVec 32} {n : Nat} {noFrames word : ULong}

/-- Behind a word of a picture. -/
def pixelSent (noFrames : ULong) (s : RamdacRun) (word : ULong) : RamdacRun where
  dev := (s.dev.pixel noFrames word).dev
  words := s.words ++ [word]
  trace := s.trace ++ (s.dev.pixel noFrames word).events
  ended := (s.dev.pixel noFrames word).ended

theorem next_eq_some (hready : s.dev.ready = true) (hs : s.next noFrames word = some s') :
    s.ended = none ∧ s' = s.pixelSent noFrames word := by
  have hwrite : s.dev.write noFrames 0#32 word = s.dev.pixel noFrames word := by
    rw [RamdacDevice.write, if_pos rfl, if_pos hready]
  unfold next at hs
  split at hs
  · next hended =>
      rw [hwrite] at hs
      cases hs
      exact ⟨hended, rfl⟩
  · cases hs

theorem next_of_none (hready : s.dev.ready = true) (hended : s.ended = none) (word : ULong) :
    s.next noFrames word = some (s.pixelSent noFrames word) := by
  have hwrite : s.dev.write noFrames 0#32 word = s.dev.pixel noFrames word := by
    rw [RamdacDevice.write, if_pos rfl, if_pos hready]
  unfold next
  rw [hended, hwrite]
  rfl

/-- One word that is right, in rows of `m` and pictures of `n` words. -/
theorem right_word (hs : s.FramesRight n) (hat : s.dev.At m s.words.length)
    (hnext : s.next noFrames word = some s') (hs' : s'.FramesRight n) :
    s.dev.PixelDone m s.words.length word (s.dev.pixel noFrames word) ∧
      4 * (s.words.length % n) + 4 ≤ s.dev.imageBytes ∧
      ((s.words.length + 1) % n = 0 ↔
        (s.words.length + 1) % (m.toNat * s.dev.height.toNat) = 0) := by
  obtain ⟨-, rfl⟩ := next_eq_some hat.ready hnext
  have hin := RamdacDevice.pixel_inside hs'.1
  have hdone : s.dev.PixelDone m s.words.length word (s.dev.pixel noFrames word) :=
    RamdacDevice.pixel_spec hat hin
  have hevents : s.trace ++ (s.dev.pixel noFrames word).events =
      s.trace ++ frameEvent n s.words.length word := by
    have htrace : s.trace ++ (s.dev.pixel noFrames word).events =
        frameEvents n (s.words ++ [word]) := hs'.2
    rwa [frameEvents_append, ← hs.2] at htrace
  have hevent := List.append_cancel_left hevents
  rw [hdone.events, frameEvent, List.cons.injEq, RamdacEvent.stored.injEq] at hevent
  obtain ⟨⟨-, hindex, -⟩, hshown⟩ := hevent
  refine ⟨hdone, ?_, ?_⟩
  · rw [← hindex]
    omega
  · split at hshown <;> split at hshown
    · next h1 h2 => exact iff_of_true h2 h1
    · cases hshown
    · cases hshown
    · next h1 h2 => exact iff_of_false h2 h1

/-- Up to the first picture, the counters of a right stream count its words. -/
theorem reaches (hright : ∀ words, Along (next noFrames) (FramesRight n) s words)
    (hat : s.dev.At m 0) (hwords : s.words = []) (hended : s.ended = none) {k : Nat}
    (hk : k < m.toNat * s.dev.height.toNat) :
    ∃ t, exec (next noFrames) s (List.replicate k 0#32) = some t ∧ t.ended = none ∧
      t.words.length = k ∧ t.dev.At m k ∧ s.dev.SameSizes t.dev := by
  induction k with
  | zero => exact ⟨s, rfl, hended, by rw [hwords]; rfl, hat, rfl, rfl, rfl, rfl⟩
  | succ k ih =>
      obtain ⟨t, hrun, htended, hlength, htat, hsizes⟩ := ih (by omega)
      have hnext : t.next noFrames 0#32 = some (t.pixelSent noFrames 0#32) :=
        next_of_none htat.ready htended 0#32
      have hrun' : exec (next noFrames) s (List.replicate (k + 1) 0#32) =
          some (t.pixelSent noFrames 0#32) := by
        rw [List.replicate_succ', exec_append hrun, exec_cons hnext, exec_nil]
      have hright' := (hright (List.replicate (k + 1) 0#32)).last hrun'
      rw [← hlength] at htat
      have hdone := (right_word ((hright _).last hrun) htat hnext hright').1
      refine ⟨_, hrun', ?_, ?_, ?_, ?_⟩
      · refine hdone.ended.resolve_right fun hfull => ?_
        rw [hlength, hsizes.height, Nat.mod_eq_of_lt hk] at hfull
        omega
      · simp [pixelSent, hlength]
      · exact hlength ▸ hdone.counters
      · exact
          { width := hdone.sizes.width.trans hsizes.width
            height := hdone.sizes.height.trans hsizes.height
            components := hdone.sizes.components.trans hsizes.components
            imageBytes := hdone.sizes.imageBytes.trans hsizes.imageBytes }

/-- **The pictures of right streams** have the words of their rows, and fit into the images. -/
theorem picture_of_right (hright : ∀ words, Along (next noFrames) (FramesRight n) s words)
    (hat : s.dev.At m 0) (hwords : s.words = []) (hended : s.ended = none) :
    n = m.toNat * s.dev.height.toNat ∧ 4 * n ≤ s.dev.imageBytes := by
  have hword : ∀ k < m.toNat * s.dev.height.toNat, 4 * (k % n) + 4 ≤ s.dev.imageBytes ∧
      ((k + 1) % n = 0 ↔ (k + 1) % (m.toNat * s.dev.height.toNat) = 0) := by
    intro k hk
    obtain ⟨t, hrun, htended, rfl, htat, hsizes⟩ := reaches hright hat hwords hended hk
    have hnext : t.next noFrames 0#32 = some (t.pixelSent noFrames 0#32) :=
      next_of_none htat.ready htended 0#32
    have hrun' : exec (next noFrames) s (List.replicate t.words.length 0#32 ++ [0#32]) =
        some (t.pixelSent noFrames 0#32) := by
      rw [exec_append hrun, exec_cons hnext, exec_nil]
    have hlast := right_word ((hright _).last hrun) htat hnext ((hright _).last hrun')
    rw [← hsizes.imageBytes, ← hsizes.height]
    exact hlast.2
  have hpos : 0 < m.toNat * s.dev.height.toNat :=
    Nat.mul_pos (RamdacDevice.toNat_pos hat.row_ne) (RamdacDevice.toNat_pos hat.height_ne)
  -- a picture is full where the counters are at their begin again, and not before
  have hn : n = m.toNat * s.dev.height.toNat := by
    have hfull := (hword (m.toNat * s.dev.height.toNat - 1) (by omega)).2
    rw [Nat.sub_add_cancel hpos] at hfull
    have hdvd := Nat.dvd_of_mod_eq_zero (hfull.mpr (Nat.mod_self _))
    have hle := Nat.le_of_dvd hpos hdvd
    have hnpos := Nat.pos_of_dvd_of_pos hdvd hpos
    refine Nat.le_antisymm hle (Nat.le_of_not_lt fun hlt => ?_)
    have hearly := (hword (n - 1) (by omega)).2
    rw [Nat.sub_add_cancel hnpos, Nat.mod_self, Nat.mod_eq_of_lt hlt] at hearly
    exact absurd (hearly.mp rfl) hnpos.ne'
  refine ⟨hn, ?_⟩
  have hend := (hword (n - 1) (by omega)).1
  rw [Nat.mod_eq_of_lt (by omega)] at hend
  omega

/-! ## 6. Pictures of whole rows -/

/-- A part of a row that is no word is lost nowhere in the picture. -/
theorem whole_rows {width components y : Nat} (hpart : width % 4 * y * components < 4) :
    y * width * components / 4 = y * (width / 4 * components) := by
  have hsplit : y * width * components =
      width % 4 * y * components + 4 * (y * (width / 4 * components)) := by
    conv_lhs => rw [← Nat.mod_add_div width 4]
    ring
  rw [hsplit, Nat.add_mul_div_left _ _ (by omega), Nat.div_eq_of_lt hpart, Nat.zero_add]

/-- The stream is right up to now, with the counters at its words. -/
structure PictureInv (m : BitVec 32) (n : Nat) (s : RamdacRun) : Prop where
  right : s.FramesRight n
  counters : s.dev.At m s.words.length
  small : s.dev.Small
  part : s.dev.width.toNat % 4 * s.dev.height.toNat * s.dev.components.toNat < 4
  words : n = m.toNat * s.dev.height.toNat
  imageBytes : s.dev.imageBytes =
    s.dev.width.toNat * s.dev.height.toNat * s.dev.components.toNat
  ii : s.dev.ii = s.words.length / n % 2

theorem PictureInv.toNat_row (h : PictureInv m n s) :
    m.toNat = s.dev.width.toNat / 4 * s.dev.components.toNat := by
  rw [← h.small.toNat_row, ← Option.some.inj (h.counters.row.symm.trans h.small.rowWords_eq)]

theorem PictureInv.words_pos (h : PictureInv m n s) : 0 < n :=
  h.words ▸ Nat.mul_pos (RamdacDevice.toNat_pos h.counters.row_ne) h.small.height_pos

/-- The next word is stored at its place. -/
theorem PictureInv.wordIndex_eq (h : PictureInv m n s) :
    s.dev.wordIndex.toNat = s.words.length % n := by
  have hline := h.counters.line
  have hcol := h.counters.col
  have hy : s.dev.mY.toNat < s.dev.height.toNat := hline ▸ Nat.mod_lt _ h.small.height_pos
  have hx : s.dev.mX.toNat < m.toNat := hcol ▸ Nat.mod_lt _ (RamdacDevice.toNat_pos h.counters.row_ne)
  have hpart : s.dev.width.toNat % 4 * s.dev.mY.toNat * s.dev.components.toNat < 4 :=
    (Nat.mul_le_mul_right _ (Nat.mul_le_mul_left _ hy.le)).trans_lt h.part
  rw [h.small.wordIndex_toNat hy (h.toNat_row ▸ hx), whole_rows hpart, ← h.toNat_row, h.words,
    Nat.mod_mul, hline, hcol]
  ring

theorem PictureInv.inside (h : PictureInv m n s) :
    ¬ s.dev.imageBytes < 4 * s.dev.wordIndex.toNat + 4 := by
  have hlt := Nat.mod_lt s.words.length h.words_pos
  have hn : 4 * n ≤ s.dev.width.toNat * s.dev.height.toNat * s.dev.components.toNat :=
    calc 4 * n = 4 * (s.dev.width.toNat / 4) * s.dev.height.toNat * s.dev.components.toNat := by
          rw [h.words, h.toNat_row]
          ring
      _ ≤ _ := Nat.mul_le_mul_right _ (Nat.mul_le_mul_right _ (Nat.mul_div_le _ 4))
  rw [h.imageBytes, h.wordIndex_eq]
  omega

/-- **One word of a picture of whole rows.** -/
theorem PictureInv.next (h : PictureInv m n s) (hs : s.next noFrames word = some s') :
    PictureInv m n s' := by
  obtain ⟨-, rfl⟩ := next_eq_some h.counters.ready hs
  have hdone : s.dev.PixelDone m s.words.length word (s.dev.pixel noFrames word) :=
    RamdacDevice.pixel_spec h.counters h.inside
  have hsizes := hdone.sizes
  have hlength : (s.words ++ [word]).length = s.words.length + 1 := by simp
  refine
    { right := ⟨hdone.ended.imp_right And.left, ?_⟩
      counters := ?_
      small := ?_
      part := ?_
      words := ?_
      imageBytes := ?_
      ii := ?_ }
  · show s.trace ++ (s.dev.pixel noFrames word).events = frameEvents n (s.words ++ [word])
    rw [frameEvents_append, h.right.2, hdone.events, frameEvent, h.wordIndex_eq, h.ii, ← h.words]
  · show (s.dev.pixel noFrames word).dev.At m (s.words ++ [word]).length
    rw [hlength]
    exact hdone.counters
  · exact h.small.congr hsizes
  · show (s.dev.pixel noFrames word).dev.width.toNat % 4 * _ * _ < 4
    rw [hsizes.width, pixelSent, hsizes.height, hsizes.components]
    exact h.part
  · rw [pixelSent, hsizes.height]
    exact h.words
  · rw [pixelSent, hsizes.imageBytes, hsizes.width, hsizes.height, hsizes.components]
    exact h.imageBytes
  · show (s.dev.pixel noFrames word).dev.ii = (s.words ++ [word]).length / n % 2
    rw [hlength, hdone.ii, ← h.words, row_succ, h.ii]
    split
    · exact Nat.mod_add_mod _ _ _
    · rfl

/-! ## 7. The sizes that are sent -/

variable {memory : RamdacDevice} {width height components : ULong}

/-- The device when it waits for the components. -/
def sized (memory : RamdacDevice) (width height : ULong) : RamdacDevice :=
  { RamdacDevice.new memory with width, height }

theorem opened_eq (hw : width ≠ 0#32) :
    opened noFrames memory width height components =
      ⟨((sized memory width height).receiveSize components).dev, [], [],
        ((sized memory width height).receiveSize components).ended⟩ := by
  have hheight : ({ RamdacDevice.new memory with width } : RamdacDevice).write noFrames 0#32 height =
      ⟨sized memory width height, [], none⟩ := by
    show (if width = 0#32 then _ else _) = _
    rw [if_neg hw]
    rfl
  show (⟨(RamdacDevice.write noFrames (RamdacDevice.write noFrames _ _ height).dev _ _).dev, [], [],
    (RamdacDevice.write noFrames (RamdacDevice.write noFrames _ _ height).dev _ _).ended⟩ :
      RamdacRun) = _
  rw [show (RamdacDevice.write noFrames (RamdacDevice.new memory) 0#32 width).dev =
    { RamdacDevice.new memory with width } from rfl, hheight]
  rfl

/-- The members when the segments are asked for. -/
def requested (memory : RamdacDevice) (width height components : ULong) : RamdacDevice :=
  { sized memory width height with ready := true, mX := 0#32, mY := 0#32, components }

theorem opened_viewer (hw : width ≠ 0#32) (hh : height ≠ 0#32) (hmemory : memory.components = 0#32) :
    opened noFrames memory width height components =
      ⟨(requested memory width height components).viewer.dev, [], [],
        (requested memory width height components).viewer.ended⟩ := by
  have hlast : (sized memory width height).receiveSize components =
      (requested memory width height components).viewer := by
    show (if width = 0#32 then _ else if height = 0#32 then _ else
      if memory.components = 0#32 then _ else _) = _
    rw [if_neg hw, if_neg hh, if_pos hmemory]
    rfl
  rw [opened_eq hw, hlast]

/-- **Where the member was not 0**, the words of the pictures are lost. -/
theorem not_right_of_memory (hw : width ≠ 0#32) (hh : height ≠ 0#32)
    (hmemory : memory.components ≠ 0#32) :
    ¬ Along (next noFrames) (FramesRight n) (opened noFrames memory width height components)
      [0#32] := by
  have hkept : ∀ data, (sized memory width height).receiveSize data =
      ⟨sized memory width height, [], none⟩ := by
    intro data
    show (if width = 0#32 then _ else if height = 0#32 then _ else
      if memory.components = 0#32 then _ else _) = _
    rw [if_neg hw, if_neg hh, if_neg hmemory]
  have hwrite : (sized memory width height).write noFrames 0#32 0#32 =
      ⟨sized memory width height, [], none⟩ := hkept 0#32
  have hnext : next noFrames ⟨sized memory width height, [], [], none⟩ 0#32 =
      some ⟨sized memory width height, [0#32], [], none⟩ := by
    unfold next
    dsimp only
    rw [hwrite]
    rfl
  rw [opened_eq hw, hkept components]
  intro hright
  have hempty := (hright.2 _ hnext).2
  cases hempty

/-- The segments, when the sizes are right. -/
theorem requested_small (hsmall : (requested memory width height components).Small) :
    (requested memory width height components).viewer =
      ⟨{ requested memory width height components with
          imageBytes := width.toNat * height.toNat * components.toNat }, [], none⟩ := by
  have hw : width.toInt = width.toNat := RamdacDevice.toInt_of_lt hsmall.width_lt
  have hh : height.toInt = height.toNat := RamdacDevice.toInt_of_lt hsmall.height_lt
  have hc : components.toInt = components.toNat := RamdacDevice.toInt_of_lt hsmall.components_lt
  have hlt : width.toNat * height.toNat * components.toNat < 2 ^ 31 := hsmall.lt
  have hrow : width.toNat * components.toNat < 2 ^ 31 := hsmall.row_lt
  have hcomm : components.toNat * width.toNat * height.toNat =
      width.toNat * height.toNat * components.toNat := by ring
  have hpos : 0 < width.toNat * height.toNat * components.toNat :=
    Nat.mul_pos (Nat.mul_pos hsmall.width_pos hsmall.height_pos) hsmall.components_pos
  have hprod : (intMul (requested memory width height components).components.toInt
      (requested memory width height components).width.toInt).bind
        (intMul · (requested memory width height components).height.toInt) =
      some ((width.toNat * height.toNat * components.toNat : Nat) : Int) := by
    show (intMul components.toInt width.toInt).bind (intMul · height.toInt) = _
    rw [hw, hh, hc, RamdacDevice.intMul_of_lt (by rwa [Nat.mul_comm]), Option.bind_some,
      RamdacDevice.intMul_of_lt (by rwa [hcomm]), hcomm]
  unfold RamdacDevice.viewer
  rw [hprod]
  dsimp only
  rw [if_neg (by omega), Int.toNat_natCast]

end RamdacRun

/-- The pictures are at least four wide, what is left of their rows is less than a word in the whole
    picture, and their size is an `int`. -/
def WholeRows (width height components : ULong) : Prop :=
  4 ≤ width.toNat ∧ width.toNat % 4 * height.toNat * components.toNat < 4 ∧
    width.toNat * height.toNat * components.toNat < 2 ^ 31

namespace RamdacRun

/-- The whole words of a picture. -/
theorem picture_words (w h c : Nat) :
    w * h * c / 4 = w / 4 * c * h + w % 4 * h * c / 4 := by
  have hsplit : w * h * c = w % 4 * h * c + 4 * (w / 4 * c * h) := by
    conv_lhs => rw [← Nat.mod_add_div w 4]
    ring
  rw [hsplit, Nat.add_mul_div_left _ _ (by omega), Nat.add_comm]

/-- What right streams say about the sizes. -/
theorem wholeRows_of_right (hw : width ≠ 0#32) (hh : height ≠ 0#32) (hc : components ≠ 0#32)
    (hmemory : memory.components = 0#32)
    (hright : ∀ words, Along (next noFrames)
      (FramesRight (width.toNat * height.toNat * components.toNat / 4))
      (opened noFrames memory width height components) words) :
    WholeRows width height components := by
  rw [opened_viewer hw hh hmemory] at hright
  obtain ⟨bytes, hbytes, hlt, hview⟩ := RamdacDevice.viewer_segments (hright []).1
  rw [hview] at hright
  -- the first word shows that the rows have words
  have hword := (hright [0#32]).2 _ (next_of_none rfl rfl 0#32)
  obtain ⟨m, hrow, hm⟩ := RamdacDevice.pixel_row hword.1
  have hat : RamdacDevice.At
      { requested memory width height components with imageBytes := bytes } m 0 :=
    ⟨rfl, hrow, hm, hh, (Nat.zero_mod _).symm, by rw [Nat.zero_div, Nat.zero_mod]; rfl⟩
  -- and a picture, that they are all of it
  obtain ⟨hwords, hfits⟩ := picture_of_right hright hat rfl rfl
  have hsize := RamdacDevice.sizes_lt hbytes hlt hfits
  have hsmall : (requested memory width height components).Small :=
    ⟨RamdacDevice.toNat_pos hw, RamdacDevice.toNat_pos hh, RamdacDevice.toNat_pos hc, hsize⟩
  have hrow' : (requested memory width height components).rowWords = some m := hrow
  have hmrow : m.toNat = width.toNat / 4 * components.toNat := by
    rw [hsmall.rowWords_eq, Option.some.injEq] at hrow'
    rw [← hrow']
    exact hsmall.toNat_row
  refine ⟨?_, ?_, hsize⟩
  · have hpos := RamdacDevice.toNat_pos hm
    rw [hmrow] at hpos
    have := Nat.pos_of_mul_pos_right hpos
    omega
  · rw [hmrow, picture_words] at hwords
    have hnone : width.toNat % 4 * height.toNat * components.toNat / 4 = 0 := Nat.add_eq_left.mp hwords
    omega

/-- The pictures begin. -/
theorem pictureInv_opened (hw : width ≠ 0#32) (hh : height ≠ 0#32) (hc : components ≠ 0#32)
    (hmemory : memory.components = 0#32) (hrows : WholeRows width height components) :
    PictureInv (BitVec.ofNat 32 (width.toNat / 4 * components.toNat))
      (width.toNat * height.toNat * components.toNat / 4)
      (opened noFrames memory width height components) := by
  obtain ⟨hfour, hpart, hsize⟩ := hrows
  have hsmall : (requested memory width height components).Small :=
    ⟨RamdacDevice.toNat_pos hw, RamdacDevice.toNat_pos hh, RamdacDevice.toNat_pos hc, hsize⟩
  have hrow : (BitVec.ofNat 32 (width.toNat / 4 * components.toNat)).toNat =
      width.toNat / 4 * components.toNat := hsmall.toNat_row
  have hpos : 0 < width.toNat / 4 * components.toNat :=
    Nat.mul_pos (by omega) (RamdacDevice.toNat_pos hc)
  rw [opened_viewer hw hh hmemory, requested_small hsmall]
  refine
    { right := ⟨.inl rfl, rfl⟩
      counters := ⟨rfl, hsmall.rowWords_eq, fun h0 => ?_, hh, (Nat.zero_mod _).symm, ?_⟩
      small := ⟨hsmall.width_pos, hsmall.height_pos, hsmall.components_pos, hsmall.lt⟩
      part := hpart
      words := ?_
      imageBytes := rfl
      ii := ?_ }
  · rw [RamdacDevice.toNat_eq_zero, hrow] at h0
    omega
  · show 0 = 0 / _ % _
    rw [Nat.zero_div, Nat.zero_mod]
  · show _ = _ * height.toNat
    rw [hrow, picture_words, Nat.div_eq_of_lt hpart, Nat.add_zero]
  · show 0 = 0 / _ % 2
    rw [Nat.zero_div]

/-- **For which sizes the pictures are right**: where they are pictures of whole rows, and the memory
    of the device had no components. -/
theorem framesRight_iff (noFrames : ULong) (memory : RamdacDevice)
    (width height components : ULong) (hw : width ≠ 0#32) (hh : height ≠ 0#32)
    (hc : components ≠ 0#32) :
    (∀ words, Along (next noFrames)
      (FramesRight (width.toNat * height.toNat * components.toNat / 4))
      (opened noFrames memory width height components) words) ↔
      memory.components = 0#32 ∧ WholeRows width height components := by
  constructor
  · intro hright
    have hmemory : memory.components = 0#32 :=
      Classical.byContradiction fun h => not_right_of_memory hw hh h (hright [0#32])
    exact ⟨hmemory, wholeRows_of_right hw hh hc hmemory hright⟩
  · rintro ⟨hmemory, hrows⟩ words
    exact along_of_invariant (fun _ h => h.right) (fun _ _ _ h hs => h.next hs)
      (pictureInv_opened hw hh hc hmemory hrows) words

/-- The memory of a device, all zero. -/
def zeroMemory : RamdacDevice :=
  ⟨0#32, 0#32, 0#32, 0#32, 0#32, 0, false, fun _ _ => 0#32, 0, 0#32⟩

/-- The pictures of a small screen. -/
theorem framesRight_screen : WholeRows 640#32 480#32 3#32 ∧
    ∀ words, Along (next 0#32) (FramesRight (640 * 480 * 3 / 4))
      (opened 0#32 zeroMemory 640#32 480#32 3#32) words := by
  have hrows : WholeRows 640#32 480#32 3#32 := ⟨by decide, by decide, by decide⟩
  exact ⟨hrows, (framesRight_iff 0#32 zeroMemory 640#32 480#32 3#32 (by decide) (by decide)
    (by decide)).mpr ⟨rfl, hrows⟩⟩

/-- A picture of one row of five, with four components: five words, but it is shown after four. -/
theorem shown_early :
    ¬ ∀ words, Along (next 0#32) (FramesRight (5 * 1 * 4 / 4))
      (opened 0#32 zeroMemory 5#32 1#32 4#32) words := by
  intro hright
  have hrun := hright [1#32, 2#32, 3#32, 4#32]
  have htrace := (hrun.2 _ rfl).2 _ rfl |>.2 _ rfl |>.2 _ rfl |>.2
  exact absurd htrace (by decide)

end RamdacRun

end Rabbits
