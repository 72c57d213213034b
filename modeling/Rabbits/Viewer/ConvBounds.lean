/-
  File:      Rabbits/Viewer/ConvBounds.lean
  Subject:   Which conversions stay in their frame and write every point (conv.c, fb_viewer.c:
             get_size).

  The loops take the halves of odd sizes rounded down: a packed or 4:2:2 frame with an odd number of
  points loses its last one, a 4:2:0 frame of odd width one point a row, and one of odd height reads
  a row of chroma samples that it does not have.

  * `ConvSafe` -- **the property of a conversion**: what it reads is below `get_size`, what it writes
    is every byte of the surface once;
  * `ConvFits` -- the sizes for which it holds;
  * `packed_reads`, `pairs_reads`, `planes_reads` -- the indices that the three kinds of loops read;
  * `convSafe_iff` -- **the property holds for exactly these sizes**.
-/
import Rabbits.Viewer.Conv
import Mathlib.Algebra.Ring.Parity
import Mathlib.Tactic.Ring

namespace Rabbits

open Lib ArrayCode

/-! ## 1. The property -/

/-- The indices that a conversion reads in the frame, and those it writes on the surface. -/
def srcIndices (f : ConvCode PUnit) (mem : ConvArray → Nat → Byte) : List Nat :=
  indicesOf .src (f.run mem).touched

def dstIndices (f : ConvCode PUnit) (mem : ConvArray → Nat → Byte) : List Nat :=
  indicesOf .dst (f.run mem).touched

/-- The conversion reads below `get_size`, and writes every byte of the surface once. -/
structure ConvSafe (m : ViewerMode) (order : PixelOrder) (w h : UInt32T) : Prop where
  reads : ∀ mem, ∀ i ∈ srcIndices (setConversion m order w h) mem, (i : Int) < getSize w h m.code
  writes : ∀ mem,
    (dstIndices (setConversion m order w h) mem).Perm (List.range (4 * (w.toNat * h.toNat)))

/-- The sizes of a mode: an `int` counts the bytes of a packed frame, a 4:2:2 frame has an even
    number of points, a 4:2:0 frame has an even width and an even height, or a width of 2. -/
def ConvFits (m : ViewerMode) (w h : Nat) : Prop :=
  match m with
  | .RGB | .BGR => 3 * (w * h) < 2 ^ 31
  | .ARGB | .BGRA => 4 * (w * h) < 2 ^ 31
  | .YVYU | .YV16 => 2 ∣ w * h
  | .YV12 | .IYUV => w * h = 0 ∨ 2 ∣ w ∧ (2 ∣ h ∨ w = 2)

/-- The property of code of which reads and writes are known. -/
theorem convSafe_of_converts {m : ViewerMode} {order : PixelOrder} {w h : UInt32T} {n : Nat}
    {reads : List Nat} {data : (Nat → Byte) → Nat → Byte}
    (hf : Converts n reads data (setConversion m order w h)) :
    ConvSafe m order w h ↔
      (∀ i ∈ reads, (i : Int) < getSize w h m.code) ∧ n = 4 * (w.toNat * h.toNat) := by
  constructor
  · intro hs
    refine ⟨fun i hi => hs.reads (fun _ _ => 0#8) i ?_, ?_⟩
    · rwa [srcIndices, hf.reads]
    · have hperm := (hs.writes fun _ _ => 0#8).length_eq
      rwa [dstIndices, hf.writes, List.length_range', List.length_range] at hperm
  · intro hs
    obtain ⟨hreads, hn⟩ := hs
    refine ⟨fun mem i hi => hreads i ?_, fun mem => ?_⟩
    · rwa [srcIndices, hf.reads] at hi
    · rw [dstIndices, hf.writes, hn, List.range_eq_range']

/-! ## 2. Packed frames -/

theorem toNat_area {w h : UInt32T} (hfit : 4 * (w.toNat * h.toNat) < 2 ^ 32) :
    (w * h).toNat = w.toNat * h.toNat := by
  rw [BitVec.toNat_mul]
  exact Nat.mod_eq_of_lt (by omega)

/-- Points of `n` bytes, one behind the other. -/
theorem packed_reads {n : Nat} (hn : 0 < n) (area k : Nat) :
    k ∈ ((List.range area).flatMap fun i => List.range' (n * i) n) ↔ k < n * area := by
  simp only [List.mem_flatMap, List.mem_range, List.mem_range'_1]
  constructor
  · intro h
    obtain ⟨i, hi, -, hlt⟩ := h
    calc k < n * (i + 1) := by rwa [Nat.mul_succ]
      _ ≤ n * area := Nat.mul_le_mul_left n hi
  · intro h
    refine ⟨k / n, Nat.div_lt_of_lt_mul h, Nat.mul_div_le k n, ?_⟩
    rw [← Nat.mul_succ]
    exact Nat.lt_mul_div_succ k hn

/-- A frame of which every byte is read. -/
theorem below_getSize_iff {m : ViewerMode} {w h : UInt32T}
    (hfit : 4 * (w.toNat * h.toNat) < 2 ^ 32) :
    (∀ k < m.frameBytes (w.toNat * h.toNat), (k : Int) < getSize w h m.code) ↔
      m.frameBytes (w.toNat * h.toNat) < 2 ^ 31 := by
  constructor
  · intro hall
    by_contra hbig
    have hneg := getSize_neg hfit (Nat.not_lt.mp hbig)
    have hzero := hall 0 (by omega)
    omega
  · intro hsmall k hk
    rw [getSize_eq hfit hsmall]
    exact_mod_cast hk

theorem convSafe_packed {m : ViewerMode} {order : PixelOrder} {w h : UInt32T}
    (hfit : 4 * (w.toNat * h.toNat) < 2 ^ 32) {reads : List Nat} {data : (Nat → Byte) → Nat → Byte}
    (hf : Converts (4 * (w.toNat * h.toNat)) reads data (setConversion m order w h))
    (hreads : ∀ k, k ∈ reads ↔ k < m.frameBytes (w.toNat * h.toNat)) :
    ConvSafe m order w h ↔ m.frameBytes (w.toNat * h.toNat) < 2 ^ 31 := by
  rw [convSafe_of_converts hf, and_iff_left rfl, ← below_getSize_iff hfit]
  exact forall_congr' fun k => imp_congr (hreads k) Iff.rfl

theorem convSafe_movePixels {m : ViewerMode} {order : PixelOrder} {w h : UInt32T}
    (hfit : 4 * (w.toNat * h.toNat) < 2 ^ 32) {n : Nat} (hn : 0 < n)
    {pixel : (Nat → Byte) → Nat → Byte} (hconv : setConversion m order = movePixels n pixel)
    (hbytes : m.frameBytes (w.toNat * h.toNat) = n * (w.toNat * h.toNat)) :
    ConvSafe m order w h ↔ m.frameBytes (w.toNat * h.toNat) < 2 ^ 31 := by
  have hf := converts_movePixels n pixel w h
  rw [toNat_area hfit, ← hconv] at hf
  refine convSafe_packed hfit hf fun k => ?_
  rw [packed_reads hn, hbytes]

theorem convSafe_copy {m : ViewerMode} {order : PixelOrder} {w h : UInt32T}
    (hfit : 4 * (w.toNat * h.toNat) < 2 ^ 32) (hconv : setConversion m order = convertARGB_copy_32)
    (hbytes : m.frameBytes (w.toNat * h.toNat) = 4 * (w.toNat * h.toNat)) :
    ConvSafe m order w h ↔ m.frameBytes (w.toNat * h.toNat) < 2 ^ 31 := by
  have hsize : (w * h * 4#32).toNat = 4 * (w.toNat * h.toNat) := by
    rw [BitVec.toNat_mul, toNat_area hfit, Nat.mul_comm]
    exact Nat.mod_eq_of_lt hfit
  have hf := converts_copy_32 w h
  rw [hsize, ← hconv] at hf
  refine convSafe_packed hfit hf fun k => ?_
  rw [hbytes, List.mem_range'_1]
  omega

/-! ## 3. Frames of pairs -/

theorem mem_yuvReads {turns : List YuvTurn} {p : Nat → Prop} :
    (∀ k ∈ turns.flatMap YuvTurn.reads, p k) ↔
      ∀ t ∈ turns, p t.y0 ∧ p t.u ∧ p t.v ∧ p t.y1 := by
  simp only [List.forall_mem_flatMap, YuvTurn.reads, List.forall_mem_cons, List.not_mem_nil,
    false_imp_iff, implies_true, and_true]

theorem convSafe_yuv {m : ViewerMode} {order : PixelOrder} {w h : UInt32T} {turns : List YuvTurn}
    (hfit : 4 * (w.toNat * h.toNat) < 2 ^ 32)
    (hconv : setConversion m order w h = convertYuv order turns)
    (hsmall : m.frameBytes (w.toNat * h.toNat) < 2 ^ 31) :
    ConvSafe m order w h ↔ (∀ t ∈ turns, t.y0 < m.frameBytes (w.toNat * h.toNat) ∧
      t.u < m.frameBytes (w.toNat * h.toNat) ∧ t.v < m.frameBytes (w.toNat * h.toNat) ∧
      t.y1 < m.frameBytes (w.toNat * h.toNat)) ∧ 8 * turns.length = 4 * (w.toNat * h.toNat) := by
  have hf := converts_yuv order turns
  rw [← hconv] at hf
  rw [convSafe_of_converts hf, getSize_eq hfit hsmall, mem_yuvReads]
  norm_cast

/-- **Two points a turn, one turn after the other**: all indices are inside, and the last point of an
    odd number of them is left out. -/
theorem convSafe_pairs {m : ViewerMode} {order : PixelOrder} {w h : UInt32T} {turn : Nat → YuvTurn}
    (hfit : 4 * (w.toNat * h.toNat) < 2 ^ 32)
    (hconv : setConversion m order w h =
      convertYuv order ((List.range ((w * h).toNat / 2)).map turn))
    (hbytes : m.frameBytes (w.toNat * h.toNat) = 2 * (w.toNat * h.toNat))
    (hturn : ∀ i < w.toNat * h.toNat / 2, (turn i).y0 < 2 * (w.toNat * h.toNat) ∧
      (turn i).u < 2 * (w.toNat * h.toNat) ∧ (turn i).v < 2 * (w.toNat * h.toNat) ∧
      (turn i).y1 < 2 * (w.toNat * h.toNat)) :
    ConvSafe m order w h ↔ 2 ∣ w.toNat * h.toNat := by
  rw [convSafe_yuv hfit hconv (by omega), hbytes, toNat_area hfit, List.length_map, List.length_range,
    and_iff_right]
  · omega
  · exact List.forall_mem_map.mpr fun i hi => hturn i (List.mem_range.mp hi)

/-! ## 4. Frames of planes -/

/-- A chroma sample of an even width. -/
theorem chroma_even (b j : Nat) : j / 2 * (2 * b) / 2 = j / 2 * b := by
  rw [Nat.mul_left_comm, Nat.mul_div_cancel_left _ (by decide)]

theorem chroma_lt {b c i j : Nat} (hi : i < b) (hj : j / 2 < c) : i + j / 2 * b < c * b := by
  calc i + j / 2 * b < b + j / 2 * b := Nat.add_lt_add_right hi _
    _ = (j / 2 + 1) * b := by rw [Nat.add_mul, Nat.one_mul, Nat.add_comm]
    _ ≤ c * b := Nat.mul_le_mul_right b hj

theorem luma_lt {w h i j : Nat} (hi : i < w) (hj : j < h) : i + j * w < w * h := by
  calc i + j * w < w + j * w := Nat.add_lt_add_right hi _
    _ = (j + 1) * w := by rw [Nat.add_mul, Nat.one_mul, Nat.add_comm]
    _ ≤ h * w := Nat.mul_le_mul_right w hj
    _ = w * h := Nat.mul_comm h w

/-- **Which 4:2:0 frames have all the samples that are read**, for an even width: those with an even
    height, and those two points wide. -/
theorem planes_fit_iff {b h : Nat} :
    (∀ j < h, ∀ i < b, 2 * b * h + 2 * b * h / 4 + (i + j / 2 * b) < 3 * (2 * b * h) / 2) ↔
      2 * b * h = 0 ∨ 2 ∣ h ∨ b = 1 := by
  obtain ⟨c, hc⟩ | ⟨c, hc⟩ : (∃ c, h = 2 * c) ∨ ∃ c, h = 2 * c + 1 := by
    rcases Nat.even_or_odd' h with ⟨c, hc | hc⟩
    · exact .inl ⟨c, hc⟩
    · exact .inr ⟨c, hc⟩
  · -- as many rows of chroma samples as pairs of rows
    subst hc
    have harea : 2 * b * (2 * c) = 4 * (c * b) := by ring
    refine iff_of_true (fun j hj i hi => ?_) (.inr (.inl ⟨c, rfl⟩))
    have hlt := chroma_lt hi (show j / 2 < c by omega)
    omega
  · subst hc
    have harea : 2 * b * (2 * c + 1) = 4 * (c * b) + 2 * b := by ring
    rw [harea]
    constructor
    · intro hall
      by_contra hne
      have hb : b ≠ 0 := by
        intro hb
        subst hb
        simp at hne
      have hlast := hall (2 * c) (by omega) (b - 1) (by omega)
      rw [Nat.mul_div_cancel_left _ (by decide)] at hlast
      omega
    · intro hor j hj i hi
      have hb : b = 1 := by
        rcases hor with hzero | hodd | hone
        · omega
        · omega
        · exact hone
      subst hb
      omega

theorem length_turns420 (uBuf vBuf : Nat) (w h : UInt32T) :
    (turns420 uBuf vBuf w h).length = h.toNat * (w.toNat / 2) := by
  rw [turns420, nested_range, List.length_map, List.length_range]

/-- The places of a turn, where nothing wraps. -/
theorem turn420_places {w h i j : Nat} (hfit : w * h < 2 ^ 32) (hi : i < w / 2) (hj : j < h) :
    u32 (i * 2 + j * w) = i * 2 + j * w ∧ u32 (i * 2 + j * w + 1) = i * 2 + j * w + 1 ∧
      u32 (i + u32 (j / 2 * w) / 2) = i + j / 2 * w / 2 ∧ i * 2 + j * w + 1 < w * h := by
  have hluma : i * 2 + 1 + j * w < w * h := luma_lt (by omega) hj
  have hrow : j / 2 * w ≤ j * w := Nat.mul_le_mul_right w (Nat.div_le_self j 2)
  have hw : u32 (j / 2 * w) = j / 2 * w := u32_of_lt (by omega)
  refine ⟨u32_of_lt (by omega), u32_of_lt (by omega), ?_, by omega⟩
  rw [hw]
  exact u32_of_lt (by omega)

/-- The indices of the loops are inside exactly when those of the second plane are. -/
theorem planes_reads {w h : UInt32T} {uBuf vBuf : Nat} (hfit : 4 * (w.toNat * h.toNat) < 2 ^ 32)
    (hplanes : (uBuf = w.toNat * h.toNat ∧ vBuf = w.toNat * h.toNat + w.toNat * h.toNat / 4) ∨
      (vBuf = w.toNat * h.toNat ∧ uBuf = w.toNat * h.toNat + w.toNat * h.toNat / 4)) :
    (∀ t ∈ turns420 uBuf vBuf w h, t.y0 < 3 * (w.toNat * h.toNat) / 2 ∧
        t.u < 3 * (w.toNat * h.toNat) / 2 ∧ t.v < 3 * (w.toNat * h.toNat) / 2 ∧
        t.y1 < 3 * (w.toNat * h.toNat) / 2) ↔
      ∀ j < h.toNat, ∀ i < w.toNat / 2,
        w.toNat * h.toNat + w.toNat * h.toNat / 4 + (i + j / 2 * w.toNat / 2) <
          3 * (w.toNat * h.toNat) / 2 := by
  simp only [turns420, List.forall_mem_flatMap, List.forall_mem_map, List.mem_range]
  refine forall_congr' fun j => imp_congr_right fun hj => forall_congr' fun i =>
    imp_congr_right fun hi => ?_
  obtain ⟨hy0, hy1, hchroma, hluma⟩ := turn420_places (by omega) hi hj
  rw [hy0, hy1, hchroma]
  rcases hplanes with ⟨hu, hv⟩ | ⟨hv, hu⟩
  · rw [hu, hv]
    omega
  · rw [hu, hv]
    omega

/-- **Two nested loops over planes.** -/
theorem convSafe_planes {m : ViewerMode} {order : PixelOrder} {w h : UInt32T} {uBuf vBuf : Nat}
    (hfit : 4 * (w.toNat * h.toNat) < 2 ^ 32)
    (hconv : setConversion m order w h = convertYuv order (turns420 uBuf vBuf w h))
    (hbytes : m.frameBytes (w.toNat * h.toNat) = 3 * (w.toNat * h.toNat) / 2)
    (hplanes : (uBuf = w.toNat * h.toNat ∧ vBuf = w.toNat * h.toNat + w.toNat * h.toNat / 4) ∨
      (vBuf = w.toNat * h.toNat ∧ uBuf = w.toNat * h.toNat + w.toNat * h.toNat / 4)) :
    ConvSafe m order w h ↔ w.toNat * h.toNat = 0 ∨ 2 ∣ w.toNat ∧ (2 ∣ h.toNat ∨ w.toNat = 2) := by
  rw [convSafe_yuv hfit hconv (by omega), hbytes, planes_reads hfit hplanes, length_turns420]
  clear hfit hconv hbytes hplanes
  generalize w.toNat = w
  generalize h.toNat = h
  rcases Nat.even_or_odd' w with ⟨b, hb | hb⟩
  · subst hb
    have hall : 8 * (h * (2 * b / 2)) = 4 * (2 * b * h) := by
      rw [Nat.mul_div_cancel_left _ (by decide)]
      ring
    rw [and_iff_left hall, Nat.mul_div_cancel_left _ (by decide)]
    simp only [chroma_even]
    rw [planes_fit_iff]
    omega
  · -- a row loses its last point, so there are none
    have hhalf : w / 2 = b := by omega
    rw [hhalf, hb]
    have hrow : 4 * ((2 * b + 1) * h) = 8 * (h * b) + 4 * h := by ring
    have hzero : (2 * b + 1) * h = 0 ↔ h = 0 := by simp
    rw [hrow, hzero]
    constructor
    · intro hs
      exact .inl (by omega)
    · intro hor
      have hh : h = 0 := by omega
      subst hh
      exact ⟨fun j hj => absurd hj (Nat.not_lt_zero j), by simp⟩

/-! ## 5. All conversions -/

/-- **Which conversions are safe**: for sizes whose surface 32 bits can address, a conversion of the
    viewer reads below `get_size` and writes every byte of the surface once if and only if an `int`
    counts the bytes of its packed frame, or its 4:2:2 frame has an even number of points, or its
    4:2:0 frame is empty, or has an even width and an even height, or a width of 2. -/
theorem convSafe_iff (m : ViewerMode) (order : PixelOrder) {w h : UInt32T}
    (hfit : 4 * (w.toNat * h.toNat) < 2 ^ 32) :
    ConvSafe m order w h ↔ ConvFits m w.toNat h.toNat := by
  have harea := toNat_area hfit
  cases m with
  | RGB | BGR => cases order <;> exact convSafe_movePixels hfit (n := 3) (by decide) rfl rfl
  | ARGB =>
      cases order with
      | ARGB => exact convSafe_copy hfit rfl rfl
      | BGRA => exact convSafe_movePixels hfit (n := 4) (by decide) rfl rfl
  | BGRA =>
      cases order with
      | ARGB => exact convSafe_movePixels hfit (n := 4) (by decide) rfl rfl
      | BGRA => exact convSafe_copy hfit rfl rfl
  | YVYU =>
      refine convSafe_pairs hfit (by cases order <;> rfl) rfl fun i hi => ?_
      simp only [u32]
      omega
  | YV16 =>
      refine convSafe_pairs hfit (by cases order <;> rfl) rfl fun i hi => ?_
      simp only [u32, harea]
      omega
  | YV12 =>
      refine convSafe_planes hfit (by cases order <;> rfl) rfl (.inr ⟨harea, ?_⟩)
      rw [harea]
  | IYUV =>
      refine convSafe_planes hfit (by cases order <;> rfl) rfl (.inl ⟨harea, ?_⟩)
      rw [harea]

/-- Three rows of two points. -/
theorem convSafe_yv12 : ConvSafe .YV12 .ARGB 2#32 3#32 :=
  (convSafe_iff .YV12 .ARGB (by decide)).mpr (by unfold ConvFits; decide)

/-- Three rows of four points of YV12 are 18 bytes, and byte 18 is read; a single point of YVYU is not
    written. -/
theorem convSafe_fails : ¬ ConvSafe .YV12 .ARGB 4#32 3#32 ∧ ¬ ConvSafe .YVYU .ARGB 1#32 1#32 := by
  constructor
  · intro hs
    have hread : 18 ∈ srcIndices (setConversion .YV12 .ARGB 4#32 3#32) fun _ _ => 0#8 := by
      show 18 ∈ indicesOf _ ((convertYuv .ARGB (turnsYV12 4#32 3#32)).run fun _ _ => 0#8).touched
      rw [(converts_yuv .ARGB (turnsYV12 4#32 3#32)).reads]
      decide
    exact absurd (hs.reads _ 18 hread) (by decide)
  · intro hs
    have hlen := (hs.writes fun _ _ => 0#8).length_eq
    revert hlen
    show (indicesOf _ ((convertYuv .ARGB (turnsYVYU 1#32 1#32)).run fun _ _ => 0#8).touched).length =
      _ → False
    rw [(converts_yuv .ARGB (turnsYVYU 1#32 1#32)).writes]
    decide

end Rabbits
