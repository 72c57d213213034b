/-
  File:      Rabbits/Viewer/Conv.lean
  Subject:   The conversions of the viewer (conv.c) and the choice between them (fb_viewer.c:
             set_conversion).

  A conversion reads the frame `src` and writes points of four bytes to the surface `dst`. A loop is
  the list of its turns; the pointer into `dst` moves on with each turn.

  * `yuv2rgb`, `PixelOrder` -- a point, and its bytes in the two orders of a surface;
  * `movePixels` -- the conversions of packed RGB; `convertYuv` -- those of YUV, two points a turn;
  * `convertRGB_ARGB` ... `convertIYUV_BGRA` -- the functions of the source;
  * `setConversion` -- the function for a mode and a surface;
  * `fills_setConversion` -- **what each of them reads and writes**.

  `uint32_t` products and sums wrap (`u32`, and the products of `w` and `h`); a pointer does not. The
  four bytes of a point lie next to each other, and are stored as one piece, as are those that are
  read for it. Left out is how `set_conversion` finds the order from the masks of the surface.
-/
import Rabbits.Lib.ArrayLoop
import Rabbits.Fb.SlFbDevice
import Rabbits.Viewer.FbViewer

namespace Rabbits

open Lib ArrayCode

/-! ## 1. Points -/

/-- The frame and the pixels of the surface. -/
inductive ConvArray where
  | src
  | dst
  deriving DecidableEq

abbrev ConvCode := ArrayCode ConvArray Byte

/-- An index that is computed as `uint32_t`. -/
def u32 (n : Nat) : Nat := n % 2 ^ 32

theorem u32_of_lt {n : Nat} (h : n < 2 ^ 32) : u32 n = n := Nat.mod_eq_of_lt h

/-- The value of a colour, in bytes. -/
structure Rgb where
  r : Byte
  g : Byte
  b : Byte
  deriving DecidableEq

/-- `yuv2rgb`; `>> 8` rounds down. -/
def yuv2rgb (y u v : Byte) : Rgb :=
  let yTmp := ((y.toNat : Int) - 16) * 298
  let uTmp := (u.toNat : Int) - 128
  let vTmp := (v.toNat : Int) - 128
  { r := SlFbDevice.clipByte ((yTmp + 0 + vTmp * 409 + 128) / 256)
    g := SlFbDevice.clipByte ((yTmp + uTmp * (-100) + vTmp * (-208) + 128) / 256)
    b := SlFbDevice.clipByte ((yTmp + uTmp * 516 + 0 + 128) / 256) }

/-- The order of the bytes of a point on the surface. -/
inductive PixelOrder where
  | ARGB
  | BGRA
  deriving DecidableEq

def PixelOrder.bytes : PixelOrder → Rgb → Nat → Byte
  | ARGB, c => fun
    | 0 => 0#8
    | 1 => c.r
    | 2 => c.g
    | _ => c.b
  | BGRA, c => fun
    | 0 => c.b
    | 1 => c.g
    | 2 => c.r
    | _ => 0#8

/-! ## 2. Packed RGB -/

/-- A turn: one point of `n` bytes. -/
def movePixel (n : Nat) (pixel : (Nat → Byte) → Nat → Byte) (i dstPos : Nat) : ConvCode PUnit := do
  let p ← load .src (n * i) n
  store .dst dstPos 4 (pixel p)

/-- `for (i = 0; i < w*h; i++, p_src += n, p_dst += 4)`. -/
def movePixels (n : Nat) (pixel : (Nat → Byte) → Nat → Byte) (w h : UInt32T) : ConvCode PUnit :=
  sweep 4 (movePixel n pixel) 0 (List.range (w * h).toNat)

def rgbOf (p : Nat → Byte) : Rgb := ⟨p 0, p 1, p 2⟩

def bgrOf (p : Nat → Byte) : Rgb := ⟨p 2, p 1, p 0⟩

def convertRGB_ARGB : UInt32T → UInt32T → ConvCode PUnit :=
  movePixels 3 fun p => PixelOrder.ARGB.bytes (rgbOf p)

def convertRGB_BGRA : UInt32T → UInt32T → ConvCode PUnit :=
  movePixels 3 fun p => PixelOrder.BGRA.bytes (rgbOf p)

def convertBGR_ARGB : UInt32T → UInt32T → ConvCode PUnit :=
  movePixels 3 fun p => PixelOrder.ARGB.bytes (bgrOf p)

def convertBGR_BGRA : UInt32T → UInt32T → ConvCode PUnit :=
  movePixels 3 fun p => PixelOrder.BGRA.bytes (bgrOf p)

/-- `memcpy (dst, src, w*h*4)`. -/
def convertARGB_copy_32 (w h : UInt32T) : ConvCode PUnit := do
  let p ← load .src 0 (w * h * 4#32).toNat
  store .dst 0 (w * h * 4#32).toNat p

def convertARGB_swap_32 : UInt32T → UInt32T → ConvCode PUnit :=
  movePixels 4 fun p j => p (3 - j)

/-! ## 3. YUV -/

/-- The places of a turn: two luma samples, which share their chroma samples. -/
structure YuvTurn where
  y0 : Nat
  y1 : Nat
  u : Nat
  v : Nat

/-- A turn: two points, at `rgb`. -/
def yuvTurn (order : PixelOrder) (t : YuvTurn) (rgb : Nat) : ConvCode PUnit := do
  let y ← load .src t.y0 1
  let u ← load .src t.u 1
  let v ← load .src t.v 1
  store .dst rgb 4 (order.bytes (yuv2rgb (y 0) (u 0) (v 0)))
  let y ← load .src t.y1 1
  store .dst (rgb + 4) 4 (order.bytes (yuv2rgb (y 0) (u 0) (v 0)))

def convertYuv (order : PixelOrder) (turns : List YuvTurn) : ConvCode PUnit :=
  sweep 8 (yuvTurn order) 0 turns

/-- The turns of `convert_YVYU`: `Y0 V0 Y1 U0`. -/
def turnsYVYU (w h : UInt32T) : List YuvTurn :=
  (List.range ((w * h).toNat / 2)).map fun i =>
    { y0 := u32 (i * 4 + 0), y1 := u32 (i * 4 + 2), u := u32 (i * 4 + 3), v := u32 (i * 4 + 1) }

/-- The turns of `convert_YV12` and `convert_IYUV`, with the places of the two chroma planes. -/
def turns420 (uBuf vBuf : Nat) (w h : UInt32T) : List YuvTurn :=
  (List.range h.toNat).flatMap fun j =>
    (List.range (w.toNat / 2)).map fun i =>
      { y0 := u32 (i * 2 + j * w.toNat)
        y1 := u32 (i * 2 + j * w.toNat + 1)
        u := uBuf + u32 (i + u32 (j / 2 * w.toNat) / 2)
        v := vBuf + u32 (i + u32 (j / 2 * w.toNat) / 2) }

/-- `v_buf = y_buf + (w*h)`, `u_buf = v_buf + (w*h)/4`. -/
def turnsYV12 (w h : UInt32T) : List YuvTurn :=
  turns420 ((w * h).toNat + (w * h).toNat / 4) (w * h).toNat w h

/-- `u_buf = y_buf + (w*h)`, `v_buf = u_buf + (w*h)/4`. -/
def turnsIYUV (w h : UInt32T) : List YuvTurn :=
  turns420 (w * h).toNat ((w * h).toNat + (w * h).toNat / 4) w h

/-- The turns of `convert_YV16`: `u_buf = y_buf + (w*h)`, `v_buf = u_buf + (w*h)/2`. -/
def turnsYV16 (w h : UInt32T) : List YuvTurn :=
  (List.range ((w * h).toNat / 2)).map fun i =>
    { y0 := u32 (i * 2)
      y1 := u32 (i * 2 + 1)
      u := (w * h).toNat + i
      v := (w * h).toNat + (w * h).toNat / 2 + i }

def convertYVYU_ARGB (w h : UInt32T) : ConvCode PUnit := convertYuv .ARGB (turnsYVYU w h)

def convertYVYU_BGRA (w h : UInt32T) : ConvCode PUnit := convertYuv .BGRA (turnsYVYU w h)

def convertYV12_ARGB (w h : UInt32T) : ConvCode PUnit := convertYuv .ARGB (turnsYV12 w h)

def convertYV12_BGRA (w h : UInt32T) : ConvCode PUnit := convertYuv .BGRA (turnsYV12 w h)

def convertYV16_ARGB (w h : UInt32T) : ConvCode PUnit := convertYuv .ARGB (turnsYV16 w h)

def convertYV16_BGRA (w h : UInt32T) : ConvCode PUnit := convertYuv .BGRA (turnsYV16 w h)

def convertIYUV_ARGB (w h : UInt32T) : ConvCode PUnit := convertYuv .ARGB (turnsIYUV w h)

def convertIYUV_BGRA (w h : UInt32T) : ConvCode PUnit := convertYuv .BGRA (turnsIYUV w h)

/-- `set_conversion`, for a surface with this order. -/
def setConversion : ViewerMode → PixelOrder → UInt32T → UInt32T → ConvCode PUnit
  | .RGB, .ARGB => convertRGB_ARGB
  | .RGB, .BGRA => convertRGB_BGRA
  | .BGR, .ARGB => convertBGR_ARGB
  | .BGR, .BGRA => convertBGR_BGRA
  | .ARGB, .ARGB => convertARGB_copy_32
  | .ARGB, .BGRA => convertARGB_swap_32
  | .BGRA, .ARGB => convertARGB_swap_32
  | .BGRA, .BGRA => convertARGB_copy_32
  | .YVYU, .ARGB => convertYVYU_ARGB
  | .YVYU, .BGRA => convertYVYU_BGRA
  | .YV12, .ARGB => convertYV12_ARGB
  | .YV12, .BGRA => convertYV12_BGRA
  | .IYUV, .ARGB => convertIYUV_ARGB
  | .IYUV, .BGRA => convertIYUV_BGRA
  | .YV16, .ARGB => convertYV16_ARGB
  | .YV16, .BGRA => convertYV16_BGRA

/-! ## 4. What they read and write -/

/-- A conversion fills the surface from its first byte on. -/
abbrev Converts (n : Nat) (reads : List Nat) (data : (Nat → Byte) → Nat → Byte)
    (f : ConvCode PUnit) : Prop :=
  Fills ConvArray.src .dst 0 n reads data f

def movedBytes (n : Nat) (pixel : (Nat → Byte) → Nat → Byte) (i : Nat) (s : Nat → Byte) :
    Nat → Byte :=
  pixel fun j => s (n * i + j)

theorem fills_movePixel (n : Nat) (pixel : (Nat → Byte) → Nat → Byte) (i dstPos : Nat) :
    Fills ConvArray.src .dst dstPos 4 (List.range' (n * i) n) (movedBytes n pixel i)
      (movePixel n pixel i dstPos) :=
  (Fills.load_bind (by decide) fun p => fills_store (by decide) (pixel p)).congr
    (List.append_nil _) fun _ _ _ => rfl

theorem converts_movePixels (n : Nat) (pixel : (Nat → Byte) → Nat → Byte) (w h : UInt32T) :
    Converts (4 * (w * h).toNat)
      ((List.range (w * h).toNat).flatMap fun i => List.range' (n * i) n)
      (sweepData 4 (movedBytes n pixel) (List.range (w * h).toNat)) (movePixels n pixel w h) := by
  have hsweep : Converts (4 * (List.range (w * h).toNat).length)
      ((List.range (w * h).toNat).flatMap fun i => List.range' (n * i) n)
      (sweepData 4 (movedBytes n pixel) (List.range (w * h).toNat)) (movePixels n pixel w h) :=
    fills_sweep (by decide) fun i x _ => fills_movePixel n pixel x (0 + 4 * i)
  rwa [List.length_range] at hsweep

theorem converts_copy_32 (w h : UInt32T) :
    Converts (w * h * 4#32).toNat (List.range' 0 (w * h * 4#32).toNat) (fun s => s)
      (convertARGB_copy_32 w h) :=
  (Fills.load_bind (by decide) fun p => fills_store (by decide) p).congr (List.append_nil _)
    fun s j _ => congrArg s (Nat.zero_add j)

def YuvTurn.reads (t : YuvTurn) : List Nat := [t.y0, t.u, t.v, t.y1]

/-- The eight bytes of a turn. -/
def YuvTurn.bytes (order : PixelOrder) (t : YuvTurn) (s : Nat → Byte) (j : Nat) : Byte :=
  if j < 4 then order.bytes (yuv2rgb (s t.y0) (s t.u) (s t.v)) j
  else order.bytes (yuv2rgb (s t.y1) (s t.u) (s t.v)) (j - 4)

theorem fills_yuvTurn (order : PixelOrder) (t : YuvTurn) (rgb : Nat) :
    Fills ConvArray.src .dst rgb 8 t.reads (t.bytes order) (yuvTurn order t rgb) := by
  have hab : ConvArray.src ≠ .dst := by decide
  have hpoint : ∀ y u v : Byte, ∀ pos : Nat, Fills ConvArray.src .dst pos 4 []
      (fun _ => order.bytes (yuv2rgb y u v)) (store .dst pos 4 (order.bytes (yuv2rgb y u v))) :=
    fun y u v pos => fills_store hab _
  exact (Fills.load_bind hab fun y => Fills.load_bind hab fun u => Fills.load_bind hab fun v =>
    (hpoint (y 0) (u 0) (v 0) rgb).append hab
      (Fills.load_bind hab fun y' => hpoint (y' 0) (u 0) (v 0) (rgb + 4))).congr rfl
    fun _ _ _ => rfl

theorem converts_yuv (order : PixelOrder) (turns : List YuvTurn) :
    Converts (8 * turns.length) (turns.flatMap YuvTurn.reads)
      (sweepData 8 (YuvTurn.bytes order) turns) (convertYuv order turns) :=
  fills_sweep (by decide) fun i t _ => fills_yuvTurn order t (0 + 8 * i)

end Rabbits
