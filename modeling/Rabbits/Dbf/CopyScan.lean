/-
  File:      Rabbits/Dbf/CopyScan.lean
  Subject:   The words of a copy as a picture (dbf_device.cpp: SEND_PACK, master_request,
             get_L_pixel, get_C_pixel).

  The memory holds the picture macroblock by macroblock; the copy sends it row by row.

  * `masterRequestWords` -- the words of a copy of a memory that nobody changes meanwhile;
  * `VciRequest.stores`, `.bytes` -- the bytes of a word, and where they go;
  * `planarScan` -- the samples of a picture: all of luma, of Cb, of Cr, each row by row;
  * `words_scan` -- **the bytes of the words are these samples**, as the accessors of the filter read
    them.
-/
import Rabbits.Dbf.SramCopy
import Rabbits.Lib.Raster

namespace Rabbits

open Lib

/-! ## 1. The words -/

/-- The loops over the words, each with its `SEND_PACK`. -/
def putWords (d : DbfDevice) : List Nat → SramCopy → VciRequest → List VciRequest
  | [], _, _ => []
  | regAddr :: rest, c, req =>
      sendPack d c req regAddr :: putWords d rest (c.next rest) (sendPack d c req regAddr)

/-- `master_request` from its event to the last word; `req` is its local. -/
def masterRequestWords (req : VciRequest) : DbfM (List VciRequest) := do
  let c ← masterRequestStart
  let d ← get
  return putWords d c.rest c req

/-- The words of a copy. -/
def DbfDevice.copyWords (d : DbfDevice) (req : VciRequest) : List VciRequest :=
  putWords d (copyAddrs d.height d.width)
    ⟨d.adrDest, d.adrDest &&& 0x7#32 = 0#32, d.mData REG_INC_ADDRESS ≠ 0#8,
      copyAddrs d.height d.width⟩ req

theorem masterRequestWords_run {d : DbfDevice} (h : d.adrDest &&& 0x3#32 = 0#32) (req : VciRequest) :
    (masterRequestWords req).run d = some (d.copyWords req, d) := by
  rw [masterRequestWords, run_bind_of (masterRequestStart_run h)]
  rfl

/-- With an address that is not aligned the program ends. -/
theorem aligned_of_start {d d' : DbfDevice} {c : SramCopy}
    (h : masterRequestStart.run d = some (c, d')) : d.adrDest &&& 0x3#32 = 0#32 := by
  by_contra haligned
  have hget : (get : DbfM DbfDevice).run d = some (d, d) := rfl
  rw [masterRequestStart, run_bind_of (getPicHeightInMbs_run d),
    run_bind_of (getPicWidthInMbs_run d), run_bind_of hget, if_pos haligned] at h
  cases h

theorem masterRequestWords_eq_some {req : VciRequest} {d d' : DbfDevice} {words : List VciRequest}
    (h : (masterRequestWords req).run d = some (words, d')) :
    d.adrDest &&& 0x3#32 = 0#32 ∧ words = d.copyWords req := by
  obtain ⟨c, d₁, hstart, -⟩ := run_bind_eq_some h
  have haligned := aligned_of_start hstart
  rw [masterRequestWords_run haligned] at h
  cases h
  exact ⟨haligned, rfl⟩

/-! ## 2. The bytes of a word -/

/-- The lanes that a request enables. -/
def VciRequest.lanes (req : VciRequest) : List (Fin 8) :=
  (List.finRange 8).filter fun j => req.be.getLsbD j

/-- What a request writes where: the lane `j` is the byte `address + j`. -/
def VciRequest.stores (req : VciRequest) : List (ULong × Byte) :=
  req.lanes.map fun j => (req.address + BitVec.ofNat 32 j.val, req.wdata j)

def VciRequest.bytes (req : VciRequest) : List Byte := req.lanes.map req.wdata

/-- The first lane of a word. -/
def SramCopy.lane (c : SramCopy) : Nat := if c.b8alg then 0 else 4

/-- The four lanes of a word. -/
theorem map_sendPack_lanes {α : Type} (d : DbfDevice) (c : SramCopy) (req : VciRequest)
    (regAddr : Nat) (f : Nat → Byte → α) :
    ((sendPack d c req regAddr).lanes.map fun j => f j.val ((sendPack d c req regAddr).wdata j)) =
      (List.range 4).map fun i => f (c.lane + i) (d.mData (regAddr + i)) := by
  cases hc : c.b8alg with
  | true =>
      have hlanes : (sendPack d c req regAddr).lanes = [0, 1, 2, 3] := by
        simp only [VciRequest.lanes, sendPack, hc, if_true]
        decide
      rw [hlanes]
      simp [sendPack, SramCopy.lane, hc, List.range_succ]
  | false =>
      have hlanes : (sendPack d c req regAddr).lanes = [4, 5, 6, 7] := by
        simp only [VciRequest.lanes, sendPack, hc, Bool.false_eq_true, if_false]
        decide
      rw [hlanes]
      simp [sendPack, SramCopy.lane, hc, List.range_succ]

theorem sendPack_bytes (d : DbfDevice) (c : SramCopy) (req : VciRequest) (regAddr : Nat) :
    (sendPack d c req regAddr).bytes = (List.range 4).map fun i => d.mData (regAddr + i) :=
  map_sendPack_lanes d c req regAddr fun _ b => b

/-- The bytes of all words. -/
theorem putWords_bytes (d : DbfDevice) (addrs : List Nat) (c : SramCopy) (req : VciRequest) :
    (putWords d addrs c req).flatMap VciRequest.bytes =
      (addrs.flatMap fun a => (List.range 4).map fun i => a + i).map d.mData := by
  induction addrs generalizing c req with
  | nil => rfl
  | cons a addrs ih =>
      rw [putWords, List.flatMap_cons, sendPack_bytes, ih, List.flatMap_cons, List.map_append,
        List.map_map]
      rfl

/-! ## 3. The samples of a picture -/

/-- A sample of the picture, with its column and its row. -/
inductive PlanarSample where
  | luma (x y : Nat)
  | chroma (iCbCr x y : Nat)
  deriving DecidableEq

/-- The accessor of a sample. -/
def PlanarSample.get : PlanarSample → DbfM Byte
  | luma x y => getLPixel x y
  | chroma iCbCr x y => getCPixel iCbCr x y

/-- The samples of a picture with its three components one after the other. -/
def planarScan (w h : Nat) : List PlanarSample :=
  raster w h .luma ++ raster (w / 2) (h / 2) (.chroma 0) ++ raster (w / 2) (h / 2) (.chroma 1)

/-- The address of a sample of a component: from the byte `base` on, `mbSize` lines of a macroblock. -/
def sampleAddr (tw base mbSize x y : Nat) : Nat :=
  MB_BLOCK_SIZE * (y / mbSize * tw + x / mbSize) + base + (y % mbSize * mbSize + x % mbSize)

theorem luma_addr (tw x y : Nat) :
    mbAddr tw (x / 16) (y / 16) (lumaByte x y) = sampleAddr tw 0 16 x y := by
  simp only [mbAddr, lumaByte, sampleAddr, MbWidth, LUMA_OFFSET]
  omega

theorem chroma_addr (tw iCbCr x y : Nat) :
    mbAddr tw (x / 8) (y / 8) (chromaByte iCbCr x y) =
      sampleAddr tw (CHROMA_OFFSET + 64 * iCbCr) 8 x y := by
  simp only [mbAddr, chromaByte, sampleAddr, MbWidth]
  omega

/-- The sample at column `i` and line `l` of a macroblock. -/
theorem sampleAddr_tile (tw base : Nat) {s k l t i : Nat} (hl : l < s) (hi : i < s) :
    sampleAddr tw base s (t * s + i) (k * s + l) =
      base + k * tw * MB_BLOCK_SIZE + l * s + t * MB_BLOCK_SIZE + i := by
  have hs : 0 < s := Nat.zero_lt_of_lt hi
  rw [sampleAddr, Nat.mul_comm t s, Nat.mul_comm k s, Nat.mul_add_div hs, Nat.mul_add_div hs,
    Nat.mul_add_mod, Nat.mul_add_mod, Nat.div_eq_of_lt hl, Nat.div_eq_of_lt hi, Nat.mod_eq_of_lt hl,
    Nat.mod_eq_of_lt hi, Nat.add_zero, Nat.add_zero, Nat.mul_add, Nat.mul_comm MB_BLOCK_SIZE,
    Nat.mul_comm MB_BLOCK_SIZE]
  omega

/-- **The bytes of the words of a component**, row by row. -/
theorem componentAddrs_bytes (base q th tw : Nat) :
    ((componentAddrs base (q * 4) th tw).flatMap fun a => (List.range 4).map fun i => a + i) =
      raster (tw * (q * 4)) (th * (q * 4)) (sampleAddr tw base (q * 4)) := by
  rw [raster_tiles]
  simp only [componentAddrs, List.flatMap_assoc, List.flatMap_map, map_range_mul,
    Nat.mul_div_cancel q (by decide : 0 < 4)]
  refine List.flatMap_congr fun k _ => List.flatMap_congr fun l hl => ?_
  refine List.flatMap_congr fun t _ => List.flatMap_congr fun x hx => List.map_congr_left fun j hj => ?_
  have hx := List.mem_range.mp hx
  have hj := List.mem_range.mp hj
  rw [sampleAddr_tile tw base (List.mem_range.mp hl) (by omega)]
  omega

/-- A sample of the picture lies in one of its macroblocks. -/
theorem sampleAddr_lt {tw th base s x y : Nat} (hfit : base + s * s ≤ MB_BLOCK_SIZE)
    (hx : x < tw * s) (hy : y < th * s) : sampleAddr tw base s x y < th * tw * MB_BLOCK_SIZE := by
  have hs : 0 < s := Nat.pos_of_mul_pos_left (Nat.zero_lt_of_lt hx)
  have hcol : x / s < tw := Nat.div_lt_of_lt_mul (Nat.mul_comm tw s ▸ hx)
  have hline : y % s * s + x % s < s * s := by
    have hrow := Nat.mul_le_mul_right s (Nat.mod_lt y hs)
    have hmod := Nat.mod_lt x hs
    rw [Nat.succ_mul] at hrow
    omega
  have hmb : y / s * tw + x / s + 1 ≤ th * tw := by
    have hrow := Nat.mul_le_mul_right tw (Nat.div_lt_of_lt_mul (Nat.mul_comm th s ▸ hy) : y / s < th)
    rw [Nat.succ_mul] at hrow
    omega
  have hblock := Nat.mul_le_mul_right MB_BLOCK_SIZE hmb
  rw [sampleAddr, Nat.mul_comm MB_BLOCK_SIZE]
  rw [Nat.add_mul, Nat.one_mul] at hblock
  omega

/-! ## 4. The copy -/

/-- The words of a copy, as bytes, are the samples of the picture in the order of their scan, each of
    them once. -/
structure ScanRight (d : DbfDevice) (words : List VciRequest) : Prop where
  bytes : (words.flatMap VciRequest.bytes).map some =
    (planarScan (picWidth d.format) (picHeight d.format)).map fun s =>
      (s.get.run d.sized).map Prod.fst
  once : (planarScan (picWidth d.format) (picHeight d.format)).Nodup
  count : (words.flatMap VciRequest.bytes).length = picWidth d.format * picHeight d.format * 3 / 2

theorem nodup_planarScan (w h : Nat) : (planarScan w h).Nodup := by
  have hluma : (raster w h PlanarSample.luma).Nodup :=
    nodup_raster fun heq => by cases heq; exact ⟨rfl, rfl⟩
  have hchroma (i : Nat) : (raster (w / 2) (h / 2) (PlanarSample.chroma i)).Nodup :=
    nodup_raster fun heq => by cases heq; exact ⟨rfl, rfl⟩
  refine List.Nodup.append (hluma.append (hchroma 0) ?_) (hchroma 1) ?_
  · intro s hs hs'
    obtain ⟨y, -, x, -, rfl⟩ := mem_raster.mp hs
    obtain ⟨y', -, x', -, heq⟩ := mem_raster.mp hs'
    cases heq
  · intro s hs hs'
    obtain ⟨y', -, x', -, rfl⟩ := mem_raster.mp hs'
    rcases List.mem_append.mp hs with hs | hs
    · obtain ⟨y, -, x, -, heq⟩ := mem_raster.mp hs
      cases heq
    · obtain ⟨y, -, x, -, heq⟩ := mem_raster.mp hs
      cases heq

/-- The picture in macroblocks, and its bytes. -/
structure PicInMbs (w h tw th : Nat) : Prop where
  width : w = tw * (4 * 4)
  height : h = th * (4 * 4)
  width_half : w / 2 = tw * (2 * 4)
  height_half : h / 2 = th * (2 * 4)
  count : tw * (4 * 4) * (th * (4 * 4)) + tw * (2 * 4) * (th * (2 * 4)) +
    tw * (2 * 4) * (th * (2 * 4)) = w * h * 3 / 2

theorem picInMbs (d : DbfDevice) :
    PicInMbs (picWidth d.format) (picHeight d.format) d.width d.height := by
  have hall : ∀ f < 4, PicInMbs (picWidth f) (picHeight f) (picWidth f / MbWidth)
      (picHeight f / MbWidth) := by
    intro f hf
    match f, hf with
    | 0, _ => constructor <;> rfl
    | 1, _ => constructor <;> rfl
    | 2, _ => constructor <;> rfl
    | 3, _ => constructor <;> rfl
  exact hall d.format d.format_lt

variable {d d' : DbfDevice}

/-- The bytes of a component are what its accessor returns. -/
theorem component_scan (base q : Nat) (sample : Nat → Nat → PlanarSample) (hf : d.format ≠ 3)
    (hfit : base + q * 4 * (q * 4) ≤ MB_BLOCK_SIZE)
    (hget : ∀ x y, (sample x y).get.run d.sized =
      (getData (sampleAddr d.width base (q * 4) x y)).run d.sized) :
    ((raster (d.width * (q * 4)) (d.height * (q * 4))
      (sampleAddr d.width base (q * 4))).map d.mData).map some =
      (raster (d.width * (q * 4)) (d.height * (q * 4)) sample).map fun s =>
        (s.get.run d.sized).map Prod.fst := by
  rw [map_raster, map_raster, map_raster]
  refine raster_congr fun y hy x hx => ?_
  have hlt := sampleAddr_lt hfit hx hy
  have hfits := d.fits_iff.mpr hf
  rw [Nat.mul_comm d.width] at hfits
  have hle : sampleAddr d.width base (q * 4) x y ≤ FPGA_CHAR_SIZE :=
    (hlt.trans_le hfits).le.trans (by decide)
  rw [hget, getData_run hle]
  rfl

/-- The addresses of the bytes of a copy. -/
theorem copyAddrs_bytes (th tw : Nat) :
    ((copyAddrs th tw).flatMap fun a => (List.range 4).map fun i => a + i) =
      raster (tw * (4 * 4)) (th * (4 * 4)) (sampleAddr tw 0 (4 * 4)) ++
        raster (tw * (2 * 4)) (th * (2 * 4)) (sampleAddr tw 256 (2 * 4)) ++
        raster (tw * (2 * 4)) (th * (2 * 4)) (sampleAddr tw (256 + 64) (2 * 4)) := by
  rw [copyAddrs, List.flatMap_append, List.flatMap_append]
  exact congrArg₂ _ (congrArg₂ _ (componentAddrs_bytes 0 4 th tw) (componentAddrs_bytes 256 2 th tw))
    (componentAddrs_bytes (256 + 64) 2 th tw)

/-- **A copy sends the picture**: for every memory with a format that is not 4CIF and every copy of
    it, the words are the samples of luma, of Cb and of Cr, each row by row. -/
theorem words_scan {req : VciRequest} {words : List VciRequest}
    (h : (masterRequestWords req).run d = some (words, d')) (hf : d.format ≠ 3) :
    ScanRight d words := by
  obtain ⟨-, rfl⟩ := masterRequestWords_eq_some h
  have hpic := picInMbs d
  have hbytes : (d.copyWords req).flatMap VciRequest.bytes = _ := putWords_bytes d _ _ req
  rw [copyAddrs_bytes] at hbytes
  have hluma := component_scan 0 4 .luma hf (by decide) fun x y =>
    congrArg (fun a => (getData a).run d.sized) (luma_addr d.width x y)
  have hcb := component_scan 256 2 (.chroma 0) hf (by decide) fun x y =>
    congrArg (fun a => (getData a).run d.sized) (chroma_addr d.width 0 x y)
  have hcr := component_scan (256 + 64) 2 (.chroma 1) hf (by decide) fun x y =>
    congrArg (fun a => (getData a).run d.sized) (chroma_addr d.width 1 x y)
  refine ⟨?_, nodup_planarScan _ _, ?_⟩
  · rw [hbytes, planarScan, hpic.width_half, hpic.height_half, hpic.width, hpic.height]
    simp only [List.map_append]
    rw [hluma, hcb, hcr]
  · rw [hbytes]
    simp only [List.length_map, List.length_append, length_raster]
    exact hpic.count

/-- A memory in format SQCIF with a picture whose neighbouring samples differ. -/
def marked : DbfDevice :=
  { DbfDevice.new with
    mData := fun a => if a < REG_GLO_VER then BitVec.ofNat 8 (a + a / 256) else DbfDevice.new.mData a }

/-- The copy of its picture. -/
theorem words_scan_marked : ∃ words,
    (masterRequestWords default).run marked = some (words, marked) ∧ ScanRight marked words := by
  have hrun := masterRequestWords_run (d := marked) (by decide) default
  exact ⟨_, hrun, words_scan hrun (by decide)⟩

/-! ## 5. The words in the system with its bus -/

section System

universe u v

variable {n k : Nat} {D : Type u} {T : Type v} [DecidableEq T] {setup : BusSetup n k D}
  {p : DbfPort n T} {x x' : SramSys n k T D}

/-- The words of the copy under way, those that are left from the memory as it is. -/
def SramSys.words (x : SramSys n k T D) : List VciRequest :=
  x.current ++ (x.copy.map fun c => putWords x.run.dbf c.rest c x.req).getD []

theorem next_rest (c : SramCopy) (rest : List Nat) : (c.next rest).rest = rest := by
  unfold SramCopy.next
  split <;> rfl

/-- A copy starts with all its words left. -/
theorem words_start (hs : SramStep setup p x .start x') (hcur : x.current = []) :
    x'.words = x.run.dbf.copyWords x.req := by
  cases hs with
  | @start run c d hidle hrun hc =>
      have hdbf : run.dbf = x.run.dbf := by
        simp only [DbfRun.next, DbfRun.deliver] at hrun
        split_ifs at hrun <;> cases hrun <;> rfl
      rw [masterRequestStart_run (aligned_of_start hc)] at hc
      cases hc
      simp [SramSys.words, hcur, hdbf, DbfDevice.copyWords]

omit [DecidableEq T] in
/-- Behind a `put` the next word is among those of the copy, or all of them are complete. -/
theorem words_continues {ends : Bool} (hgo : Continues p x ends x') :
    x'.completed ++ x'.words = x.completed ++ x.words := by
  cases hgo with
  | goesOn hleft => rfl
  | ends hput hc hrest hrun => simp [SramSys.words, SramSys.ended, hc, hrest, putWords]

/-- **The words of a run in which the memory stays as it is** are those of the copy. -/
theorem words_run {tr : List (SramLabel n k T × SramSys n k T D)}
    (h : Run (SramStep setup p) x tr x')
    (hquiet : ∀ e ∈ tr, e.1 ≠ .start ∧ ∀ e', e.1 ≠ .dev e') :
    x'.completed ++ x'.words = x.completed ++ x.words := by
  refine h.invariant (I := fun y => y.completed ++ y.words = x.completed ++ x.words)
    (P := fun l => l ≠ .start ∧ ∀ e', l ≠ .dev e') (fun y l y' hy hl hs => ?_) rfl hquiet
  cases hs with
  | dev => exact absurd rfl (hl.2 _)
  | start => exact absurd rfl hl.1
  | put hc hrest hbus hgo =>
      rw [words_continues hgo, ← hy]
      simp [SramSys.words, SramSys.sent, hc, hrest, putWords, next_rest]
  | resume hbus hgo => exact (words_continues hgo).trans hy
  | bus hl' hmeets hbus => exact hy

end System

end Rabbits
