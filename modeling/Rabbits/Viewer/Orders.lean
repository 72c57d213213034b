/-
  File:      Rabbits/Viewer/Orders.lean
  Subject:   The copies of a conversion (conv.c: the functions for ARGB and for BGRA;
             sl_framebuffer_device.cpp: convert_frame_yv16).

  * `reversed` -- a surface with the four bytes of every point in the other order;
  * `OrdersAgree` -- the two surfaces of a mode are each other's `reversed`;
  * `SameRgb` -- the framebuffer shows the colours that the viewer shows;
  * `orders_agree_iff` -- **the copies agree, but for 32-bit modes with 2^30 points or more**, where
    the number of bytes to copy wraps and the number of points to swap does not.
-/
import Rabbits.Viewer.YuvPixels

namespace Rabbits

open Lib ArrayCode

/-! ## 1. The other order -/

/-- The place of a byte in the other order of its point. -/
def mirror (a : Nat) : Nat := a / 4 * 4 + (3 - a % 4)

def reversed (s : Nat → Byte) (a : Nat) : Byte := s (mirror a)

theorem mirror_mirror (a : Nat) : mirror (mirror a) = a := by
  unfold mirror
  omega

theorem mirror_lt_iff (a n : Nat) : mirror a < 4 * n ↔ a < 4 * n := by
  unfold mirror
  omega

theorem mirror_point {j : Nat} (hj : j < 4) : mirror j = 3 - j := by
  unfold mirror
  omega

theorem mirror_shift (n i j : Nat) : mirror (4 * n * i + j) = 4 * n * i + mirror j := by
  unfold mirror
  rw [Nat.mul_assoc, Nat.mul_add_div (by decide), Nat.mul_add_mod]
  omega

/-- The surface of a mode for BGRA is the `reversed` one for ARGB, for all frames, and surfaces that
    were so before. -/
def OrdersAgree (m : ViewerMode) (w h : UInt32T) : Prop :=
  ∀ mem : ConvArray → Nat → Byte,
    surface m .BGRA w h (Function.update mem .dst (reversed (mem .dst))) =
      reversed (surface m .ARGB w h mem)

theorem ordersAgree_of_converts {m : ViewerMode} {w h : UInt32T} {n : Nat} {r r' : List Nat}
    {data data' : (Nat → Byte) → Nat → Byte}
    (hf : Converts (4 * n) r data (setConversion m .ARGB w h))
    (hf' : Converts (4 * n) r' data' (setConversion m .BGRA w h))
    (hdata : ∀ s, ∀ a < 4 * n, data' s a = data s (mirror a)) : OrdersAgree m w h := by
  intro mem
  funext a
  rw [reversed, surface_of_converts hf, surface_of_converts hf', Function.update_self,
    Function.update_of_ne (by decide)]
  by_cases ha : a < 4 * n
  · rw [if_pos ha, if_pos ((mirror_lt_iff a n).mpr ha), hdata _ a ha]
  · rw [if_neg ha, if_neg fun hlt => ha ((mirror_lt_iff a n).mp hlt), reversed]

/-! ## 2. Two loops -/

theorem bytes_BGRA (c : Rgb) {j : Nat} (hj : j < 4) :
    PixelOrder.BGRA.bytes c j = PixelOrder.ARGB.bytes c (mirror j) := by
  rw [mirror_point hj]
  obtain h0 | h1 | h2 | h3 : j = 0 ∨ j = 1 ∨ j = 2 ∨ j = 3 := by omega
  all_goals
    subst j
    rfl

theorem ordersAgree_movePixels {m : ViewerMode} {w h : UInt32T} {n : Nat}
    {pixel pixel' : (Nat → Byte) → Nat → Byte}
    (hconv : setConversion m .ARGB w h = movePixels n pixel w h)
    (hconv' : setConversion m .BGRA w h = movePixels n pixel' w h)
    (hpixel : ∀ p, ∀ j < 4, pixel' p j = pixel p (mirror j)) : OrdersAgree m w h := by
  have hf := converts_movePixels n pixel w h
  have hf' := converts_movePixels n pixel' w h
  rw [← hconv] at hf
  rw [← hconv'] at hf'
  have hturn : ∀ i s, ∀ j < 4, movedBytes n pixel' i s j = movedBytes n pixel i s (mirror j) :=
    fun i s j hj => hpixel _ j hj
  refine ordersAgree_of_converts hf hf' fun s a ha => ?_
  refine sweepData_exchange (fun i j _ => mirror_shift 1 i j) (fun j => (mirror_lt_iff j 1).mpr)
    hturn s ?_
  rwa [List.length_range]

/-- The two points of a turn. -/
theorem turn_bytes_BGRA (t : YuvTurn) (s : Nat → Byte) {j : Nat} (hj : j < 8) :
    t.bytes .BGRA s j = t.bytes .ARGB s (mirror j) := by
  by_cases hfirst : j < 4
  · rw [YuvTurn.bytes, YuvTurn.bytes, if_pos hfirst, if_pos ((mirror_lt_iff j 1).mpr hfirst),
      bytes_BGRA _ hfirst]
  · have hsub : mirror (j - 4) = mirror j - 4 := by
      unfold mirror
      omega
    have hmirror : ¬ mirror j < 4 := fun hlt => hfirst ((mirror_lt_iff j 1).mp hlt)
    rw [YuvTurn.bytes, YuvTurn.bytes, if_neg hfirst, if_neg hmirror, bytes_BGRA _ (by omega), hsub]

theorem ordersAgree_yuv (f : YuvFormat) (w h : UInt32T) : OrdersAgree f.mode w h := by
  have hf := converts_yuv .ARGB (f.turns w h)
  have hf' := converts_yuv .BGRA (f.turns w h)
  rw [← setConversion_yuv, show 8 * (f.turns w h).length = 4 * (2 * (f.turns w h).length) by omega]
    at hf hf'
  refine ordersAgree_of_converts hf hf' fun s a ha => ?_
  exact sweepData_exchange (fun i j _ => mirror_shift 2 i j) (fun j => (mirror_lt_iff j 2).mpr)
    (fun t s j hj => turn_bytes_BGRA t s hj) s (by omega)

/-! ## 3. A copy and a loop -/

/-- The bytes that `memcpy` moves. -/
theorem copy_size (w h : UInt32T) : (w * h * 4#32).toNat = 4 * ((w * h).toNat % 2 ^ 30) := by
  rw [BitVec.toNat_mul]
  show (w * h).toNat * 4 % 2 ^ 32 = _
  omega

theorem swap_data (n : Nat) (s : Nat → Byte) {a : Nat} (ha : a < 4 * n) :
    sweepData 4 (movedBytes 4 fun p j => p (3 - j)) (List.range n) s a = s (mirror a) := by
  have hi : a / 4 < n := Nat.div_lt_of_lt_mul ha
  have hturn := List.getElem?_range hi
  have hread : sweepData 4 (movedBytes 4 fun p j => p (3 - j)) (List.range n) s
      (4 * (a / 4) + a % 4) = _ := sweepData_eq hturn s (Nat.mod_lt a (by decide))
  rw [Nat.div_add_mod] at hread
  rw [hread, mirror, Nat.mul_comm]
  rfl

/-- A 32-bit mode has a copy for one order and a loop for the other one. -/
theorem ordersAgree_32 {m : ViewerMode} {w h : UInt32T}
    (hm : (setConversion m .ARGB w h = convertARGB_copy_32 w h ∧
        setConversion m .BGRA w h = convertARGB_swap_32 w h) ∨
      (setConversion m .ARGB w h = convertARGB_swap_32 w h ∧
        setConversion m .BGRA w h = convertARGB_copy_32 w h)) :
    OrdersAgree m w h ↔ (w * h).toNat < 2 ^ 30 := by
  have hcopy := converts_copy_32 w h
  have hswap : Converts (4 * (w * h).toNat) _ _ (convertARGB_swap_32 w h) :=
    converts_movePixels 4 (fun p j => p (3 - j)) w h
  rw [copy_size] at hcopy
  generalize hn : (w * h).toNat = n at hcopy hswap
  constructor
  · intro hagree
    by_contra hbig
    -- the copy ends before the point at byte `4 * (n % 2^30)`, the loop does not
    have hmirror : mirror (4 * (n % 2 ^ 30)) = 4 * (n % 2 ^ 30) + 3 := by
      unfold mirror
      omega
    have hpoint := congrFun (hagree (brightFrom 0)) (4 * (n % 2 ^ 30))
    rw [reversed, hmirror] at hpoint
    rcases hm with ⟨hA, hB⟩ | ⟨hA, hB⟩
    · rw [← hA] at hcopy
      rw [← hB] at hswap
      rw [surface_of_converts hcopy, surface_of_converts hswap, if_pos (by omega),
        if_neg (by omega), swap_data n _ (by omega)] at hpoint
      exact absurd hpoint (by simp [brightFrom])
    · rw [← hA] at hswap
      rw [← hB] at hcopy
      rw [surface_of_converts hcopy, surface_of_converts hswap, if_neg (by omega),
        if_pos (by omega), swap_data n _ (by omega)] at hpoint
      exact absurd hpoint (by simp [reversed, brightFrom])
  · intro hsmall
    rw [Nat.mod_eq_of_lt hsmall] at hcopy
    rcases hm with ⟨hA, hB⟩ | ⟨hA, hB⟩
    · rw [← hA] at hcopy
      rw [← hB] at hswap
      exact ordersAgree_of_converts hcopy hswap fun s a ha => swap_data n s ha
    · rw [← hA] at hswap
      rw [← hB] at hcopy
      refine ordersAgree_of_converts hswap hcopy fun s a ha => ?_
      rw [swap_data n s ((mirror_lt_iff a n).mpr ha), mirror_mirror]

/-- **The two orders of a mode.** -/
theorem ordersAgree_iff (m : ViewerMode) (w h : UInt32T) :
    OrdersAgree m w h ↔ (m = .ARGB ∨ m = .BGRA → (w * h).toNat < 2 ^ 30) := by
  cases m with
  | ARGB =>
      rw [ordersAgree_32 (.inl ⟨rfl, rfl⟩)]
      simp
  | BGRA =>
      rw [ordersAgree_32 (.inr ⟨rfl, rfl⟩)]
      simp
  | RGB | BGR =>
      refine iff_of_true (ordersAgree_movePixels rfl rfl fun p j hj => ?_) (by simp)
      exact bytes_BGRA _ hj
  | YVYU => exact iff_of_true (ordersAgree_yuv .YVYU w h) (by simp)
  | YV12 => exact iff_of_true (ordersAgree_yuv .YV12 w h) (by simp)
  | IYUV => exact iff_of_true (ordersAgree_yuv .IYUV w h) (by simp)
  | YV16 => exact iff_of_true (ordersAgree_yuv .YV16 w h) (by simp)

/-! ## 4. The framebuffer's own copy -/

/-- A run of `convert_frame_yv16` and the surface of the viewer for the same frame hold the same red,
    green and blue of every point that they convert, and leave the others. -/
def SameRgb (d : SlFbDevice) : Prop :=
  ∀ (memD : SlFbArray → Nat → Byte) (mem : ConvArray → Nat → Byte),
    mem .src = memD (.yuvImage d.bufIdx) → ∀ p, ∀ c < 3,
      let rgb := (d.convertFrameYv16.run memD).mem (.rgbImage d.bufIdx) (3 * p + c)
      let argb := surface .YV16 .ARGB (BitVec.ofNat 32 d.width) (BitVec.ofNat 32 d.height) mem
        (4 * p + (1 + c))
      if p < 2 * (d.width * d.height / 2) then rgb = argb
      else rgb = memD (.rgbImage d.bufIdx) (3 * p + c) ∧ argb = mem .dst (4 * p + (1 + c))

theorem yuv2rgb_ARGB (y u v : Byte) {c : Nat} (hc : c < 3) :
    SlFbDevice.yuv2rgb y u v c = PixelOrder.ARGB.bytes (yuv2rgb y u v) (1 + c) := by
  obtain h0 | h1 | h2 : c = 0 ∨ c = 1 ∨ c = 2 := by omega
  all_goals
    subst c
    simp [SlFbDevice.yuv2rgb, yuv2rgb, PixelOrder.bytes]

namespace SlFbDevice

/-- The places that a turn reads. -/
def pairTurn (d : SlFbDevice) (i : Nat) : YuvTurn :=
  { y0 := i * 2
    y1 := i * 2 + 1
    u := d.width * d.height + i
    v := d.width * d.height + d.width * d.height / 2 + i }

def pairBytes (d : SlFbDevice) (i : Nat) (s : Nat → Byte) (j : Nat) : Byte :=
  let t := d.pairTurn i
  if j < 3 then yuv2rgb (s t.y0) (s t.u) (s t.v) j
  else yuv2rgb (s t.y1) (s t.u) (s t.v) (j - 3)

theorem fills_convertPair (d : SlFbDevice) (i : Nat) :
    Fills (SlFbArray.yuvImage d.bufIdx) (.rgbImage d.bufIdx) (6 * i) 6 (d.pairTurn i).reads
      (d.pairBytes i) (d.convertPair i) := by
  have hab : SlFbArray.yuvImage d.bufIdx ≠ .rgbImage d.bufIdx := by simp
  have hpoint : ∀ y u v : Byte, ∀ pos : Nat,
      Fills (SlFbArray.yuvImage d.bufIdx) (.rgbImage d.bufIdx) pos 3 []
        (fun _ => yuv2rgb y u v) (store (.rgbImage d.bufIdx) pos 3 (yuv2rgb y u v)) :=
    fun y u v pos => fills_store hab _
  exact (Fills.load_bind hab fun y => Fills.load_bind hab fun u => Fills.load_bind hab fun v =>
    (hpoint (y 0) (u 0) (v 0) (6 * i)).append hab
      (Fills.load_bind hab fun y' => hpoint (y' 0) (u 0) (v 0) (6 * i + 3))).congr rfl
    fun _ _ _ => rfl

theorem fills_convertFrameYv16 (d : SlFbDevice) :
    Fills (SlFbArray.yuvImage d.bufIdx) (.rgbImage d.bufIdx) 0 (6 * (d.width * d.height / 2))
      ((List.range (d.width * d.height / 2)).flatMap fun i => (d.pairTurn i).reads)
      (sweepData 6 d.pairBytes (List.range (d.width * d.height / 2))) d.convertFrameYv16 := by
  rw [convertFrameYv16, forM_eq_sweep 6 0]
  generalize hn : d.width * d.height / 2 = n
  have hsweep : Fills (SlFbArray.yuvImage d.bufIdx) (.rgbImage d.bufIdx) 0
      (6 * (List.range n).length) ((List.range n).flatMap fun i => (d.pairTurn i).reads)
      (sweepData 6 d.pairBytes (List.range n))
      (sweep 6 (fun i _ => d.convertPair i) 0 (List.range n)) := by
    refine fills_sweep (by simp) fun i x hx => ?_
    -- the pointer of a turn is the one that its index gives
    obtain ⟨hi, rfl⟩ := List.getElem?_eq_some_iff.mp hx
    rw [List.getElem_range, Nat.zero_add]
    exact d.fills_convertPair i
  rwa [List.length_range] at hsweep

/-- The area of the frame, as the viewer computes it. -/
theorem toNat_area (d : SlFbDevice) :
    (BitVec.ofNat 32 d.width * BitVec.ofNat 32 d.height).toNat = d.width * d.height := by
  have hsize := d.size_lt
  rw [Nat.mul_assoc] at hsize
  rw [BitVec.toNat_mul, BitVec.toNat_ofNat, BitVec.toNat_ofNat, ← Nat.mul_mod]
  exact Nat.mod_eq_of_lt (by omega)

/-- A turn of the viewer reads the places that the turn of the device reads. -/
theorem turnsYV16_eq (d : SlFbDevice) :
    turnsYV16 (BitVec.ofNat 32 d.width) (BitVec.ofNat 32 d.height) =
      (List.range (d.width * d.height / 2)).map d.pairTurn := by
  have hsize := d.size_lt
  rw [Nat.mul_assoc] at hsize
  rw [turnsYV16, d.toNat_area]
  refine List.map_congr_left fun i hi => ?_
  have hi := List.mem_range.mp hi
  rw [u32_of_lt (by omega), u32_of_lt (by omega)]
  rfl

theorem sameRgb (d : SlFbDevice) : SameRgb d := by
  intro memD mem hframe p c hc
  have hdev := d.fills_convertFrameYv16.mem memD
  have hturns := d.turnsYV16_eq
  dsimp only
  rw [hdev, Function.update_self, rangeWrite_apply]
  split
  · next hp =>
      have hi : p / 2 < d.width * d.height / 2 := by omega
      have hsplit : 3 * p + c = 6 * (p / 2) + (3 * (p % 2) + c) := by omega
      have hsplit' : 4 * p + (1 + c) = 8 * (p / 2) + (4 * (p % 2) + (1 + c)) := by omega
      have hturn : (YuvFormat.YV16.turns (BitVec.ofNat 32 d.width) (BitVec.ofNat 32 d.height))[p / 2]? =
          some (d.pairTurn (p / 2)) := by
        rw [YuvFormat.turns, hturns]
        exact getElem?_pairs hi
      have hviewer : surface YuvFormat.YV16.mode .ARGB (BitVec.ofNat 32 d.width)
          (BitVec.ofNat 32 d.height) mem (8 * (p / 2) + (4 * (p % 2) + (1 + c))) = _ :=
        surface_turn hturn mem (Nat.mod_lt p (by decide)) (by omega)
      rw [hsplit', show ViewerMode.YV16 = YuvFormat.YV16.mode from rfl, hviewer, if_pos (by omega),
        hsplit, Nat.sub_zero, sweepData_eq (List.getElem?_range hi) _ (by omega), hframe, pairBytes,
        YuvTurn.luma]
      rcases Nat.mod_two_eq_zero_or_one p with he | he
      · rw [he, if_pos (by omega), if_pos rfl, yuv2rgb_ARGB _ _ _ (by omega)]
        congr 1
        omega
      · rw [he, if_neg (by omega), if_neg (by decide), yuv2rgb_ARGB _ _ _ (by omega)]
        congr 1
        omega
  · next hp =>
      rw [if_neg (by omega), show ViewerMode.YV16 = YuvFormat.YV16.mode from rfl, surface_yuv,
        YuvFormat.turns, hturns, List.length_map, List.length_range, if_neg (by omega)]
      exact ⟨rfl, rfl⟩

end SlFbDevice

/-- **The copies of the conversions agree** if and only if, for a 32-bit mode, the number of points is
    below 2^30. -/
theorem orders_agree_iff (m : ViewerMode) (w h : UInt32T) (d : SlFbDevice) :
    OrdersAgree m w h ∧ SameRgb d ↔ (m = .ARGB ∨ m = .BGRA → (w * h).toNat < 2 ^ 30) := by
  rw [ordersAgree_iff, and_iff_left d.sameRgb]

/-- 2^30 points: nothing is copied, and all of them are swapped. -/
theorem orders_agree_fails : ¬ OrdersAgree .ARGB 32768#32 32768#32 := by
  rw [ordersAgree_iff]
  decide

end Rabbits
