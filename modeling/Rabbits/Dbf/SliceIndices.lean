/-
  File:      Rabbits/Dbf/SliceIndices.lean
  Subject:   The indices of `m_data` that `filter_slice` uses (dbf_device.cpp).

  The filter goes through the accessors, which refuse what lies behind `m_data` and write registers
  like samples. What it reads and writes at a macroblock lies in no later one.

  * `filterCall_stays` -- an edge below the registers;
  * `filterCall_strays`, `filterCall_strays_end`, `filterCall_halts` -- the first edge at a register,
    at the byte behind `m_data`, and behind that;
  * `filterSlice_ok_iff` -- **the filter writes below the registers exactly where it has no edge at
    one of their macroblocks**.
-/
import Rabbits.Dbf.LinkIndices

namespace Rabbits

open Lib Recorded

/-- The filter has no edge at the macroblock `c` of a slice that starts at `offsetMb`. -/
def SkipsMb (w offsetMb c : Nat) : Prop :=
  ∀ dir, skips dir (offsetMb % w * 16) (offsetMb / w * 16) (c % w * 16) (c / w * 16) = true

/-- Between the first macroblock with a register and the one behind `m_data`. -/
def AtRegs (c : Nat) : Prop :=
  REG_GLO_VER ≤ c * MB_BLOCK_SIZE ∧ c * MB_BLOCK_SIZE ≤ FPGA_CHAR_SIZE

namespace DbfCode

variable {P : DbfDevice → Prop}

/-! ## 1. The filter up to a macroblock -/

/-- The macroblock of a place is not behind `mbX`, `mbY`; `size` is the side of one. -/
def UpTo (size mbX mbY : Nat) (a : Nat × Nat) : Prop := a.1 / size ≤ mbX ∧ a.2 / size ≤ mbY

/-- A step that finds the width. -/
theorem width_run {w : Nat} (d : DbfDevice) (hd : HasWidth w d) :
    DbfCode.PicWidthInMbs.run d = (some (w, d), []) :=
  congrArg (fun w => (some (w, d), [])) hd

theorem mbAddr_lt {w mbX mbY a b byte : Nat} (ha : a ≤ mbX) (hb : b ≤ mbY)
    (hbyte : byte < MB_BLOCK_SIZE) :
    mbAddr w a b byte < (mbY * w + mbX + 1) * MB_BLOCK_SIZE := by
  have hrow := Nat.mul_le_mul_right w hb
  have hblock := Nat.mul_le_mul_left MB_BLOCK_SIZE (Nat.add_le_add hrow ha)
  rw [mbAddr, Nat.add_mul, Nat.mul_comm (mbY * w + mbX)]
  omega

theorem getAlpha_stays {stop : Nat} (slice : Fin N_SLICE_THREADS) :
    Stays P (DbfAccess.Ok stop) (getAlpha slice) :=
  getData_stays (slice_regs_lt slice (by decide : REG_SLI_ALPHA < REG_NSLICES))

theorem getBeta_stays {stop : Nat} (slice : Fin N_SLICE_THREADS) :
    Stays P (DbfAccess.Ok stop) (getBeta slice) :=
  getData_stays (slice_regs_lt slice (by decide : REG_SLI_BETA < REG_NSLICES))

section Reads

variable {w mbX mbY stop : Nat} (hin : (mbY * w + mbX + 1) * MB_BLOCK_SIZE ≤ FPGA_CHAR_SIZE)
include hin

theorem getMbByte_stays {a b byte : Nat} (ha : a ≤ mbX) (hb : b ≤ mbY)
    (hbyte : byte < MB_BLOCK_SIZE) :
    Stays (HasWidth w) (DbfAccess.Ok stop) (getMbByte a b byte) :=
  .bind_known w width_run (getData_stays ((mbAddr_lt ha hb hbyte).trans_le hin))

theorem getLPixel_stays {a : Nat × Nat} (h : UpTo 16 mbX mbY a) :
    Stays (HasWidth w) (DbfAccess.Ok stop) (getLPixel a.1 a.2) :=
  getMbByte_stays hin h.1 h.2 ((SliceArea.lumaByte_lt a.1 a.2).trans (by decide))

theorem getCPixel_stays {iCbCr : Nat} (hi : iCbCr < 2) {a : Nat × Nat} (h : UpTo 8 mbX mbY a) :
    Stays (HasWidth w) (DbfAccess.Ok stop) (getCPixel iCbCr a.1 a.2) :=
  getMbByte_stays hin h.1 h.2 ((SliceArea.chromaByte_lt hi a.1 a.2).trans (by decide))

theorem getQP_stays {x y : Nat} (hx : x ≤ mbX) (hy : y ≤ mbY) (qpType : Nat) :
    Stays (HasWidth w) (DbfAccess.Ok stop) (getQP x y qpType) := by
  refine (getMbByte_stays hin hx hy ?_).bind fun _ => .pure _
  split <;> decide

theorem intraAt_stays {x y : Nat} (h : UpTo 16 mbX mbY (x, y)) :
    Stays (HasWidth w) (DbfAccess.Ok stop) (intraAt x y) :=
  (getMbByte_stays hin h.1 h.2 (by decide)).bind fun _ => .pure _

theorem codedAt_stays {x y : Nat} (h : UpTo 16 mbX mbY (x, y)) :
    Stays (HasWidth w) (DbfAccess.Ok stop) (codedAt x y) := by
  have hbyte : COEFF_OFFSET + pos4x4 (x / 4) (y / 4) < MB_BLOCK_SIZE := by
    have := SliceArea.pos4x4_lt (x / 4) (y / 4)
    simp only [COEFF_OFFSET, MB_BLOCK_SIZE]
    omega
  have hx : x / 4 / 4 ≤ mbX := (Nat.div_div_eq_div_mul x 4 4).trans_le h.1
  have hy : y / 4 / 4 ≤ mbY := (Nat.div_div_eq_div_mul y 4 4).trans_le h.2
  exact (getMbByte_stays hin hx hy hbyte).bind fun _ => .pure _

theorem getMV_stays {mvOffset x y : Nat} (hmv : mvOffset ≤ MVY_OFFSET)
    (h : UpTo 16 mbX mbY (x, y)) :
    Stays (HasWidth w) (DbfAccess.Ok stop) (getMV mvOffset (x / 4) (y / 4)) := by
  have hbyte : mvOffset + pos4x4 (x / 4) (y / 4) * 2 + 1 < MB_BLOCK_SIZE := by
    have := SliceArea.pos4x4_lt (x / 4) (y / 4)
    simp only [MVY_OFFSET, MB_BLOCK_SIZE] at *
    omega
  have hx : x / 4 / 4 ≤ mbX := (Nat.div_div_eq_div_mul x 4 4).trans_le h.1
  have hy : y / 4 / 4 ≤ mbY := (Nat.div_div_eq_div_mul y 4 4).trans_le h.2
  refine .bind_known w width_run ?_
  refine (getData_stays ((mbAddr_lt hx hy hbyte).trans_le hin)).bind fun _ => ?_
  exact (getData_stays ((mbAddr_lt hx hy (Nat.lt_of_succ_lt hbyte)).trans_le hin)).bind fun _ =>
    .pure _

section Edge

variable {qx qy px py : Nat} (hq : UpTo 16 mbX mbY (qx, qy)) (hp : UpTo 16 mbX mbY (px, py))
include hq hp

theorem movesApart_stays {mvOffset : Nat} (hmv : mvOffset ≤ MVY_OFFSET) :
    Stays (HasWidth w) (DbfAccess.Ok stop) (movesApart mvOffset qx qy px py) :=
  (getMV_stays hin hmv hq).bind fun _ => (getMV_stays hin hmv hp).bind fun _ => .pure _

theorem getBS_stays : Stays (HasWidth w) (DbfAccess.Ok stop) (getBS qx qy px py) := by
  refine (Stays.andM (.pure _) (.orM (intraAt_stays hin hq) (intraAt_stays hin hp))).bind fun _ =>
    .ite (fun _ => .pure _) fun _ => ?_
  refine (intraAt_stays hin hq).bind fun _ => .ite (fun _ => .pure _) fun _ => ?_
  refine (Stays.orM (codedAt_stays hin hq) (codedAt_stays hin hp)).bind fun _ =>
    .ite (fun _ => .pure _) fun _ => ?_
  refine (Stays.orM (movesApart_stays hin hq hp (by decide))
    (movesApart_stays hin hq hp le_rfl)).bind fun _ => ?_
  exact .ite (fun _ => .pure _) fun _ => .pure _

theorem filteredSamples_stays (slice : Fin N_SLICE_THREADS) (chromaFlag : Nat)
    {getPixel : Nat × Nat → DbfCode Byte} {q p : Nat → Nat × Nat}
    (hget : ∀ i < 4, Stays (HasWidth w) (DbfAccess.Ok stop) (getPixel (q i)) ∧
      Stays (HasWidth w) (DbfAccess.Ok stop) (getPixel (p i))) :
    Stays (HasWidth w) (DbfAccess.Ok stop)
      (filteredSamples slice chromaFlag getPixel q p qx qy px py) := by
  refine (hget 0 (by decide)).1.bind fun q0 => (hget 0 (by decide)).2.bind fun p0 => ?_
  refine (hget 1 (by decide)).1.bind fun q1 => (hget 1 (by decide)).2.bind fun p1 => ?_
  refine (hget 2 (by decide)).1.bind fun q2 => (hget 2 (by decide)).2.bind fun p2 => ?_
  refine (hget 3 (by decide)).1.bind fun q3 => (hget 3 (by decide)).2.bind fun p3 => ?_
  refine (getBS_stays hin hq hp).bind fun bS => ?_
  refine (getQP_stays hin hq.1 hq.2 _).bind fun _ => (getQP_stays hin hp.1 hp.2 _).bind fun _ => ?_
  exact (getAlpha_stays slice).bind fun _ => (getBeta_stays slice).bind fun _ => .pure _

end Edge

end Reads

/-! ## 2. An edge below the registers -/

theorem upTo_luma {dir : EdgeDir} {mbX mbY x y edge sample : Nat} (he : edge < 4) (hs : sample < 16)
    (h : (x, y) = dir.at (mbX * 16) (mbY * 16) (edge * 4) sample) {i : Nat} (hi : i < 4) :
    UpTo 16 mbX mbY (dir.q x y i) ∧ UpTo 16 mbX mbY (dir.p x y i) := by
  cases dir <;> cases h <;> simp only [UpTo, EdgeDir.at, EdgeDir.q, EdgeDir.p] <;> omega

theorem upTo_chroma {dir : EdgeDir} {mbX mbY x y edge sample : Nat} (he : edge < 2)
    (hs : sample < 8) (h : (x, y) = dir.at (mbX * 16) (mbY * 16) (edge * 4) sample) {i : Nat}
    (hi : i < 4) :
    UpTo 8 mbX mbY (dir.q (x / 2) (y / 2) i) ∧ UpTo 8 mbX mbY (dir.p (x / 2) (y / 2) i) := by
  cases dir <;> cases h <;> simp only [UpTo, EdgeDir.at, EdgeDir.q, EdgeDir.p] <;> omega

/-- The two places at which the strength is taken. -/
theorem upTo_sides {dir : EdgeDir} {mbX mbY x y edge sample : Nat} (he : edge < 4) (hs : sample < 16)
    (h : (x, y) = dir.at (mbX * 16) (mbY * 16) (edge * 4) sample) :
    UpTo 16 mbX mbY (x, y) ∧
      UpTo 16 mbX mbY ((dir.other x y).1, (dir.other x y).2) := by
  cases dir <;> cases h <;> simp only [UpTo, EdgeDir.other] <;> omega

section Below

variable {w mbX mbY : Nat} (hbelow : (mbY * w + mbX + 1) * MB_BLOCK_SIZE ≤ REG_GLO_VER)
include hbelow

theorem setMbByte_stays {a b byte : Nat} (ha : a ≤ mbX) (hb : b ≤ mbY)
    (hbyte : byte < MB_BLOCK_SIZE) (val : Byte) :
    Stays (HasWidth w) (DbfAccess.Ok REG_GLO_VER) (setMbByte a b byte val) := by
  have hlt : mbAddr w a b byte < REG_GLO_VER := (mbAddr_lt ha hb hbyte).trans_le hbelow
  refine .bind_known w width_run (setData_stays (hlt.le.trans (by decide)) hlt
    (fun hge => absurd hlt (Nat.not_lt.mpr hge)) (fun slice h => ?_) val)
  simp only [REG_SLI_CLEAR, REG_GLO_VER] at h hlt
  omega

theorem setLPixel_stays {a : Nat × Nat} (h : UpTo 16 mbX mbY a) (val : Byte) :
    Stays (HasWidth w) (DbfAccess.Ok REG_GLO_VER) (setLPixel a.1 a.2 val) :=
  setMbByte_stays hbelow h.1 h.2 ((SliceArea.lumaByte_lt a.1 a.2).trans (by decide)) val

theorem setCPixel_stays {iCbCr : Nat} (hi : iCbCr < 2) {a : Nat × Nat} (h : UpTo 8 mbX mbY a)
    (val : Byte) : Stays (HasWidth w) (DbfAccess.Ok REG_GLO_VER) (setCPixel iCbCr a.1 a.2 val) :=
  setMbByte_stays hbelow h.1 h.2 ((SliceArea.chromaByte_lt hi a.1 a.2).trans (by decide)) val

/-- An edge all of whose places are below the registers. -/
theorem filterEdge_stays (slice : Fin N_SLICE_THREADS) (chromaFlag : Nat) {size qx qy px py : Nat}
    {getPixel : Nat × Nat → DbfCode Byte} {setPixel : Nat × Nat → Byte → DbfCode PUnit}
    {q p : Nat → Nat × Nat} (hsides : UpTo 16 mbX mbY (qx, qy) ∧ UpTo 16 mbX mbY (px, py))
    (hplace : ∀ i < 4, UpTo size mbX mbY (q i) ∧ UpTo size mbX mbY (p i))
    (hget : ∀ a, UpTo size mbX mbY a →
      Stays (HasWidth w) (DbfAccess.Ok REG_GLO_VER) (getPixel a))
    (hset : ∀ a, UpTo size mbX mbY a → ∀ val,
      Stays (HasWidth w) (DbfAccess.Ok REG_GLO_VER) (setPixel a val)) :
    Stays (HasWidth w) (DbfAccess.Ok REG_GLO_VER)
      (filterEdge slice chromaFlag getPixel setPixel q p qx qy px py) := by
  have hin := hbelow.trans (by decide : REG_GLO_VER ≤ FPGA_CHAR_SIZE)
  refine (filteredSamples_stays hin hsides.1 hsides.2 slice chromaFlag fun i hi =>
    ⟨hget _ (hplace i hi).1, hget _ (hplace i hi).2⟩).bind fun res => ?_
  exact .forM fun i _ => (hset _ (hplace i i.isLt).1 _).bind fun _ => hset _ (hplace i i.isLt).2 _

theorem filterCall_stays (slice : Fin N_SLICE_THREADS) {xFirst yFirst : Nat} {call : EdgeCall}
    (hcall : call ∈ mbCalls xFirst yFirst (mbX * 16) (mbY * 16)) :
    Stays (HasWidth w) (DbfAccess.Ok REG_GLO_VER) (filterCall slice call) := by
  have hin := hbelow.trans (by decide : REG_GLO_VER ≤ FPGA_CHAR_SIZE)
  cases call with
  | luma dir x y =>
      obtain ⟨-, edge, he, sample, hs, hat⟩ := luma_mem_mbCalls.mp hcall
      rw [filterCall]
      exact filterEdge_stays hbelow slice 0 (upTo_sides he hs hat) (fun i hi => upTo_luma he hs hat hi)
        (fun a ha => getLPixel_stays hin ha) fun a ha val => setLPixel_stays hbelow ha val
  | chroma dir iCbCr x y =>
      obtain ⟨hi, -, edge, he, sample, hs, hat⟩ := chroma_mem_mbCalls.mp hcall
      have hsides := upTo_sides (he.trans (by decide)) (hs.trans (by decide)) hat
      rw [filterCall]
      exact filterEdge_stays hbelow slice 1 hsides (fun i hi' => upTo_chroma he hs hat hi')
        (fun a ha => getCPixel_stays hin hi ha) fun a ha val => setCPixel_stays hbelow hi ha val

end Below

/-! ## 3. The first edge of a macroblock behind the first register -/

/-- The first call for a macroblock. -/
theorem mbCalls_head {xFirst yFirst mbPosX mbPosY : Nat}
    (h : ¬ ∀ dir, skips dir xFirst yFirst mbPosX mbPosY = true) :
    ∃ dir rest, mbCalls xFirst yFirst mbPosX mbPosY = .luma dir mbPosX mbPosY :: rest := by
  unfold mbCalls lumaCalls
  cases hleft : skips .vertical xFirst yFirst mbPosX mbPosY with
  | false => exact ⟨.vertical, _, rfl⟩
  | true =>
      cases htop : skips .horizontal xFirst yFirst mbPosX mbPosY with
      | false => exact ⟨.horizontal, _, rfl⟩
      | true =>
          refine absurd (fun dir => ?_) h
          cases dir
          · exact hleft
          · exact htop

/-- The bytes of the pixels along the first edge. -/
theorem mbAddr_first (w mbX mbY : Nat) (dir : EdgeDir) {i : Nat} (hi : i < 4) :
    mbAddr w ((dir.q (mbX * 16) (mbY * 16) i).1 / 16) ((dir.q (mbX * 16) (mbY * 16) i).2 / 16)
      (lumaByte (dir.q (mbX * 16) (mbY * 16) i).1 (dir.q (mbX * 16) (mbY * 16) i).2) =
    (mbY * w + mbX) * MB_BLOCK_SIZE + (if dir = .vertical then i else i * 16) := by
  have hx : (mbX * 16 + i) / 16 = mbX := by omega
  have hy : (mbY * 16 + i) / 16 = mbY := by omega
  cases dir <;>
    simp only [EdgeDir.q, EdgeDir.at, mbAddr, lumaByte, MbWidth, LUMA_OFFSET, Nat.add_zero, hx, hy,
      Nat.mul_div_cancel _ (by decide : 0 < 16), Nat.mul_mod_left, reduceCtorEq, if_true, if_false,
      Nat.mul_comm MB_BLOCK_SIZE] <;>
    omega

section First

variable {w mbX mbY : Nat} (slice : Fin N_SLICE_THREADS) (dir : EdgeDir)

/-- The address of the first pixel that an edge reads. -/
theorem firstPixel_run (d : DbfDevice) (hd : HasWidth w d) :
    (getLPixel (dir.q (mbX * 16) (mbY * 16) 0).1 (dir.q (mbX * 16) (mbY * 16) 0).2).run d =
      (getData ((mbY * w + mbX) * MB_BLOCK_SIZE)).run d := by
  have haddr := mbAddr_first w mbX mbY dir (by decide : 0 < 4)
  rw [Nat.zero_mul, ite_self, Nat.add_zero] at haddr
  exact (run_bind_known (width_run d hd)).trans (by rw [haddr])

/-- Behind the byte after the last one the first read is refused. -/
theorem filterCall_halts (hge : FPGA_CHAR_SIZE < (mbY * w + mbX) * MB_BLOCK_SIZE) :
    Halts (HasWidth w) (DbfAccess.Ok REG_GLO_VER)
      (filterCall slice (.luma dir (mbX * 16) (mbY * 16))) := by
  refine Halts.bind_left (Halts.bind_left (fun d hd => ?_) _) _
  rw [firstPixel_run dir d hd, getData, if_pos hge]
  exact ⟨fun e he => absurd he List.not_mem_nil, rfl⟩

/-- At the byte after the last one it is not. -/
theorem filterCall_strays_end (heq : (mbY * w + mbX) * MB_BLOCK_SIZE = FPGA_CHAR_SIZE) :
    Strays (HasWidth w) (DbfAccess.Ok REG_GLO_VER)
      (filterCall slice (.luma dir (mbX * 16) (mbY * 16))) := by
  refine Strays.bind_left (Strays.bind_left (fun d hd => ?_) _) _
  rw [firstPixel_run dir d hd, getData, heq, if_neg (lt_irrefl _)]
  exact ⟨.read FPGA_CHAR_SIZE, List.mem_cons_self, lt_irrefl _⟩

theorem setData_strays {address : Nat} (hlo : REG_GLO_VER ≤ address) (hhi : address < FPGA_CHAR_SIZE)
    (hstatus : address ≠ REG_INT_STATUS) (hnslices : address ≠ REG_NSLICES)
    (henable : address ≠ REG_INT_ENABLE) (data : Byte) :
    Strays (HasWidth w) (DbfAccess.Ok REG_GLO_VER) (setData address data) := by
  rw [setData, if_neg (Nat.not_lt.mpr hhi.le), if_neg (not_or.mpr ⟨hstatus, hnslices⟩),
    if_neg henable]
  have hpoke : Strays (HasWidth w) (DbfAccess.Ok REG_GLO_VER) (poke address data) :=
    fun d _ => ⟨.write address, List.mem_cons_self, Nat.not_lt.mpr hlo⟩
  exact hpoke.bind_left _

theorem clearSlice_returns (i : Nat) : Stays (HasWidth w) (fun _ => True) (clearSlice i) :=
  (peek_stays trivial).bind fun _ => (peek_stays trivial).bind fun _ =>
    (peek_stays trivial).bind fun _ => (peek_stays trivial).bind fun _ =>
      .forM fun a _ => poke_width trivial (clearedByte a)

theorem setLPixel_returns (hin : (mbY * w + mbX + 1) * MB_BLOCK_SIZE ≤ FPGA_CHAR_SIZE)
    {a : Nat × Nat} (h : UpTo 16 mbX mbY a) (val : Byte) :
    Stays (HasWidth w) (fun _ => True) (setLPixel a.1 a.2 val) := by
  have hbyte := (SliceArea.lumaByte_lt a.1 a.2).trans (by decide : MVX_OFFSET < MB_BLOCK_SIZE)
  exact .bind_known w width_run (setData_stays ((mbAddr_lt h.1 h.2 hbyte).le.trans hin) trivial
    (fun _ _ _ _ => ⟨trivial, trivial⟩) (fun slice _ => clearSlice_returns slice) val)

/-- The second byte of the first row or of the first column of a macroblock with registers. -/
theorem second_strays {c byte : Nat} (hlo : REG_GLO_VER ≤ c * MB_BLOCK_SIZE)
    (hin : (c + 1) * MB_BLOCK_SIZE ≤ FPGA_CHAR_SIZE) (hbyte : byte = 1 ∨ byte = 16) (val : Byte) :
    Strays (HasWidth w) (DbfAccess.Ok REG_GLO_VER) (setData (c * MB_BLOCK_SIZE + byte) val) := by
  refine setData_strays (hlo.trans (Nat.le_add_right _ _)) ?_ ?_ ?_ ?_ val <;>
    simp only [MB_BLOCK_SIZE, FPGA_CHAR_SIZE, REG_INT_STATUS, REG_NSLICES, REG_INT_ENABLE] at * <;>
    omega

/-- In between, the second pixel of the edge is written over a register. -/
theorem filterCall_strays (hlo : REG_GLO_VER ≤ (mbY * w + mbX) * MB_BLOCK_SIZE)
    (hin : (mbY * w + mbX + 1) * MB_BLOCK_SIZE ≤ FPGA_CHAR_SIZE) :
    Strays (HasWidth w) (DbfAccess.Ok REG_GLO_VER)
      (filterCall slice (.luma dir (mbX * 16) (mbY * 16))) := by
  have hat : (mbX * 16, mbY * 16) = dir.at (mbX * 16) (mbY * 16) (0 * 4) 0 := by cases dir <;> rfl
  have hplace {i : Nat} (hi : i < 4) := upTo_luma (by decide) (by decide) hat hi
  have hsides := upTo_sides (by decide) (by decide) hat
  have hreads : Stays (HasWidth w) (DbfAccess.Ok REG_GLO_VER)
      (filteredSamples slice 0 (fun a => getLPixel a.1 a.2) (dir.q (mbX * 16) (mbY * 16))
        (dir.p (mbX * 16) (mbY * 16)) (mbX * 16) (mbY * 16) (dir.other (mbX * 16) (mbY * 16)).1
        (dir.other (mbX * 16) (mbY * 16)).2) :=
    filteredSamples_stays hin hsides.1 hsides.2 slice 0 fun i hi =>
      ⟨getLPixel_stays hin (hplace hi).1, getLPixel_stays hin (hplace hi).2⟩
  refine Strays.bind_right hreads.returns fun res => ?_
  have hsecond : Strays (HasWidth w) (DbfAccess.Ok REG_GLO_VER)
      (setLPixel (dir.q (mbX * 16) (mbY * 16) 1).1 (dir.q (mbX * 16) (mbY * 16) 1).2 (res.q 1)) := by
    refine .bind_known w width_run ?_
    rw [mbAddr_first w mbX mbY dir (by decide)]
    have hbyte : (if dir = .vertical then 1 else 1 * 16) = 1 ∨
        (if dir = .vertical then 1 else 1 * 16) = 16 := by split <;> simp
    exact second_strays hlo hin hbyte _
  have hlist : List.finRange 4 = 0 :: 1 :: [2, 3] := rfl
  rw [hlist, List.forM_cons, List.forM_cons]
  refine Strays.bind_right ((setLPixel_returns hin (hplace (by decide)).1 _).bind fun _ =>
    setLPixel_returns hin (hplace (by decide)).2 _) fun _ => ?_
  exact Strays.bind_left (Strays.bind_left hsecond _) _

end First

/-! ## 4. The loop over a slice -/

section Macroblock

variable {w offsetMb c : Nat} (slice : Fin N_SLICE_THREADS)

theorem mb_stays_of_skips (h : SkipsMb w offsetMb c) :
    Stays (HasWidth w) (DbfAccess.Ok REG_GLO_VER)
      (forM (mbCallsAt w offsetMb c) (filterCall slice)) := by
  refine .forM fun call hcall => ?_
  cases call with
  | luma dir x y => exact absurd (h dir) (Bool.eq_false_iff.mp (luma_mem_mbCalls.mp hcall).1)
  | chroma dir iCbCr x y =>
      exact absurd (h dir) (Bool.eq_false_iff.mp (chroma_mem_mbCalls.mp hcall).2.1)

theorem mb_stays_of_below (h : c * MB_BLOCK_SIZE < REG_GLO_VER) :
    Stays (HasWidth w) (DbfAccess.Ok REG_GLO_VER)
      (forM (mbCallsAt w offsetMb c) (filterCall slice)) := by
  have hbelow : (c / w * w + c % w + 1) * MB_BLOCK_SIZE ≤ REG_GLO_VER := by
    rw [Nat.div_add_mod']
    simp only [MB_BLOCK_SIZE, REG_GLO_VER] at *
    omega
  exact .forM fun call hcall => filterCall_stays hbelow slice hcall

theorem mb_strays (hedge : ¬ SkipsMb w offsetMb c) (h : AtRegs c) :
    Strays (HasWidth w) (DbfAccess.Ok REG_GLO_VER)
      (forM (mbCallsAt w offsetMb c) (filterCall slice)) := by
  obtain ⟨dir, rest, hcalls⟩ := mbCalls_head hedge
  have hdiv := Nat.div_add_mod' c w
  rw [mbCallsAt, hcalls, List.forM_cons]
  refine Strays.bind_left ?_ _
  rcases Nat.lt_or_ge (c * MB_BLOCK_SIZE) FPGA_CHAR_SIZE with hlt | hge
  · refine filterCall_strays slice dir (hdiv.symm ▸ h.1) ?_
    rw [hdiv]
    simp only [MB_BLOCK_SIZE, FPGA_CHAR_SIZE] at *
    omega
  · exact filterCall_strays_end slice dir (hdiv.symm ▸ h.2.antisymm hge)

theorem mb_halts (hedge : ¬ SkipsMb w offsetMb c) (h : FPGA_CHAR_SIZE < c * MB_BLOCK_SIZE) :
    Halts (HasWidth w) (DbfAccess.Ok REG_GLO_VER)
      (forM (mbCallsAt w offsetMb c) (filterCall slice)) := by
  obtain ⟨dir, rest, hcalls⟩ := mbCalls_head hedge
  rw [mbCallsAt, hcalls, List.forM_cons]
  exact Halts.bind_left (filterCall_halts slice dir ((Nat.div_add_mod' c w).symm ▸ h)) _

end Macroblock

/-- **Which macroblocks let the filter leave the bytes below the registers.** -/
theorem filterMbs_ok_iff (slice : Fin N_SLICE_THREADS) {w : Nat} {d : DbfDevice}
    (hd : HasWidth w d) (offsetMb mbCount : Nat) :
    (∀ e ∈ ((filterMbs slice w offsetMb mbCount).run d).2, e.Ok REG_GLO_VER) ↔
      ∀ c ∈ List.range' offsetMb mbCount, ¬ (¬ SkipsMb w offsetMb c ∧ AtRegs c) := by
  have hstays : ∀ c ∈ List.range' offsetMb mbCount, ¬ (¬ SkipsMb w offsetMb c ∧ AtRegs c) →
      ¬ (¬ SkipsMb w offsetMb c ∧ FPGA_CHAR_SIZE < c * MB_BLOCK_SIZE) →
      Stays (HasWidth w) (DbfAccess.Ok REG_GLO_VER)
        (forM (mbCallsAt w offsetMb c) (filterCall slice)) := by
    intro c _ hregs hbehind
    by_cases hskip : SkipsMb w offsetMb c
    · exact mb_stays_of_skips slice hskip
    · refine mb_stays_of_below slice (Nat.lt_of_not_le fun hge => hregs ⟨hskip, hge, ?_⟩)
      exact Nat.le_of_not_lt fun hlt => hbehind ⟨hskip, hlt⟩
  refine forM_ok_iff hstays (fun c _ h => mb_strays slice h.1 h.2)
    (fun c _ h => mb_halts slice h.1 h.2) ?_ hd
  refine (List.pairwise_lt_range' 1).imp fun hlt hstop hregs => ?_
  exact absurd (Nat.mul_le_mul_right MB_BLOCK_SIZE (Nat.le_of_lt hlt))
    (Nat.not_le.mpr (hregs.2.2.trans_lt hstop.2))

/-! ## 5. A slice -/

theorem getSliceLength_stays {stop : Nat} (slice : Fin N_SLICE_THREADS) :
    Stays P (DbfAccess.Ok stop) (getSliceLength slice) := by
  rw [getSliceLength, Nat.add_assoc]
  exact (getData_stays (slice_regs_lt slice (by decide))).bind fun _ =>
    (getData_stays (slice_regs_lt slice (by decide))).bind fun _ => .pure _

theorem getOffset_stays {stop : Nat} (slice : Fin N_SLICE_THREADS) :
    Stays P (DbfAccess.Ok stop) (getOffset slice) := by
  rw [getOffset]
  exact (getData_stays (slice_regs_lt slice (by decide))).bind fun _ =>
    (getData_stays (slice_regs_lt slice (by decide))).bind fun _ => .pure _

/-- Up to the loop `filter_slice` reads registers. -/
theorem filterSlice_ok_iff (slice : Fin N_SLICE_THREADS) {d : DbfDevice} :
    (∀ e ∈ ((filterSlice slice).run d).2, e.Ok REG_GLO_VER) ↔
      ∀ c ∈ d.mbs slice, ¬ (¬ SkipsMb d.width (d.offset slice) c ∧ AtRegs c) := by
  have hwidth := (congrFun erase_getPicWidthInMbs d).trans (getPicWidthInMbs_run d)
  have hsized : HasWidth d.width d.sized := rfl
  have hset : (effect fun d' => { d' with picWidthInMbs := d.width }).run d =
      (some (⟨⟩, d.sized), []) := rfl
  have hheight := (congrFun erase_getPicHeightInMbs d.sized).trans (getPicHeightInMbs_run d.sized)
  have hlength := (congrFun (erase_getSliceLength slice) d.sized).trans
    (getSliceLength_run slice.isLt d.sized)
  have hoffset := (congrFun (erase_getOffset slice) d.sized).trans (getOffset_run slice.isLt d.sized)
  rw [filterSlice, ok_bind_iff hwidth getPicWidthInMbs_stays.all_ok,
    run_bind_known hset,
    ok_bind_iff hheight getPicHeightInMbs_stays.all_ok,
    ok_bind_iff hlength (getSliceLength_stays slice).all_ok,
    ok_bind_iff hoffset (getOffset_stays slice).all_ok,
    ok_bind_stays_iff fun _ => .pure _, filterMbs_ok_iff slice hsized]
  simp only [List.mem_range'_1]
  rfl

end DbfCode

end Rabbits
