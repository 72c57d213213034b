/-
  File:      Rabbits/Dbf/LinkIndices.lean
  Subject:   The indices of `m_data` that the link and the copy use (dbf_device.cpp: get_data,
             set_data, clear_slice, master_request).

  `get_data` and `set_data` refuse the addresses above FPGA_CHAR_SIZE, not that one itself.
  `clear_slice` and the copy compute their indices from the registers and compare them with nothing.

  * `DbfAccess.Ok` -- an index that is inside `m_data` and, where it is written, before an end;
  * `setData_stays` -- which writes return with such indices;
  * `getData_ok_iff`, `setData_ok_iff`, `clearSlice_ok_iff`, `masterRequest_ok_iff` -- **when all
    indices are such**.
-/
import Rabbits.Dbf.DbfCode
import Mathlib.Tactic.FinCases

namespace Rabbits

open Lib Recorded

/-! ## 1. The two steps -/

/-- An access inside `m_data`, and before `stop` where it writes. -/
def DbfAccess.Ok (stop : Nat) : DbfAccess → Prop
  | read index => index < FPGA_CHAR_SIZE
  | write index => index < stop

/-- The bytes of a slice end there, or it has none. -/
def DbfDevice.SliceEnds (d : DbfDevice) (slice stop : Nat) : Prop :=
  d.length slice = 0 ∨ (d.offset slice + d.length slice) * MB_BLOCK_SIZE ≤ stop

namespace DbfCode

variable {P : DbfDevice → Prop} {ok : DbfAccess → Prop} {v : Type}

theorem peek_stays {index : Nat} (h : ok (.read index)) : Stays P ok (peek index) :=
  fun d hd => ⟨by simpa [peek] using h, _, d, rfl, hd⟩

theorem poke_stays {index : Nat} (h : ok (.write index)) (hP : ∀ d b, P d → P (d.poke index b))
    (data : Byte) : Stays P ok (poke index data) :=
  fun d hd => ⟨by simpa [poke] using h, _, _, rfl, hP d data hd⟩

theorem effect_stays {f : DbfDevice → DbfDevice} (hP : ∀ d, P d → P (f d)) :
    Stays P ok (effect f) :=
  fun d hd => ⟨by simp [effect], _, _, rfl, hP d hd⟩

theorem getData_stays {address : Nat} {stop : Nat} (h : address < FPGA_CHAR_SIZE) :
    Stays P (DbfAccess.Ok stop) (getData address) := by
  rw [getData, if_neg (Nat.not_lt.mpr h.le)]
  exact peek_stays h

/-! ## 2. The registers -/

/-- The width as `filter_slice` has set it. -/
def HasWidth (w : Nat) (d : DbfDevice) : Prop := d.picWidthInMbs = w

/-- The registers may be read and written. -/
def RegsOk (ok : DbfAccess → Prop) : Prop :=
  ∀ reg, REG_GLO_VER ≤ reg → reg < FPGA_CHAR_SIZE → ok (.read reg) ∧ ok (.write reg)

theorem regsOk_size : RegsOk (DbfAccess.Ok FPGA_CHAR_SIZE) := fun _ _ h => ⟨h, h⟩

theorem poke_width {w index : Nat} (h : ok (.write index)) (data : Byte) :
    Stays (HasWidth w) ok (poke index data) :=
  poke_stays h (fun _ _ hd => hd) data

theorem setIrq_stays {w : Nat} (stat : Bool) :
    Stays (HasWidth w) ok (effect fun d => d.setIrq stat) :=
  effect_stays fun _ hd => hd

section Link

variable {w : Nat} (hregs : RegsOk ok)
include hregs

theorem RegsOk.read {reg : Nat} (h : REG_GLO_VER ≤ reg ∧ reg < FPGA_CHAR_SIZE) :
    Stays P ok (peek reg) :=
  peek_stays (hregs reg h.1 h.2).1

theorem RegsOk.write {reg : Nat} (h : REG_GLO_VER ≤ reg ∧ reg < FPGA_CHAR_SIZE) (data : Byte) :
    Stays (HasWidth w) ok (poke reg data) :=
  poke_width (hregs reg h.1 h.2).2 data

theorem setIntEnable_stays (data : Byte) : Stays (HasWidth w) ok (setIntEnable data) := by
  refine (hregs.read (by decide)).bind fun status => (hregs.read (by decide)).bind fun enable => ?_
  refine .ite (fun _ => ?_) fun _ => .ite (fun _ => ?_) fun _ => ?_
  · exact (setIrq_stays true).bind fun _ => hregs.write (by decide) _
  · exact (setIrq_stays false).bind fun _ => hregs.write (by decide) _
  · exact hregs.write (by decide) _

theorem setIntAck_stays (data : Byte) : Stays (HasWidth w) ok (setIntAck data) := by
  refine (hregs.read (by decide)).bind fun status => (hregs.read (by decide)).bind fun enable => ?_
  refine .ite (fun _ => (hregs.write (by decide) _).bind fun _ => ?_) fun _ => .pure _
  exact .ite (fun _ => setIrq_stays false) fun _ => .pure _

/-- What a write sets off, with the slice that it clears. -/
theorem written_stays {address : Nat} (hwrite : ok (.write address))
    (hclear : ∀ slice : Fin N_SLICE_THREADS, address = REG_SLI_CLEAR + SLICE_OFFSET * slice →
      Stays (HasWidth w) ok (clearSlice slice)) (data : Byte) :
    Stays (HasWidth w) ok (written address data) := by
  unfold written
  refine .ite (fun _ => setIntAck_stays hregs data) fun _ => ?_
  cases (List.finRange N_SLICE_THREADS).find? fun (i : Fin N_SLICE_THREADS) =>
      address = REG_SLI_FILLOW + SLICE_OFFSET * i with
  | some slice => exact effect_stays fun _ hd => hd
  | none =>
      cases hfind : (List.finRange N_SLICE_THREADS).find? fun (i : Fin N_SLICE_THREADS) =>
          address = REG_SLI_CLEAR + SLICE_OFFSET * i with
      | some slice =>
          have heq := List.find?_some hfind
          exact (hclear slice (of_decide_eq_true heq)).bind fun _ => poke_width hwrite _
      | none => exact .ite (fun _ => effect_stays fun _ hd => hd) fun _ => .pure _

end Link

/-- Below the registers a write sets nothing off. -/
theorem written_below {address : Nat} (h : address < REG_GLO_VER) (data : Byte) :
    written address data = pure ⟨⟩ := by
  have hack : address ≠ REG_INT_ACK := Nat.ne_of_lt (h.trans (by decide))
  have hfra : address ≠ REG_FRA_SRAM := Nat.ne_of_lt (h.trans (by decide))
  rw [written, if_neg hack, findReg_of_lt h (by decide), findReg_of_lt h (by decide)]
  exact if_neg fun hsend => hfra hsend.1

/-- A write that is not refused. -/
theorem setData_stays {w address : Nat} (hsize : address ≤ FPGA_CHAR_SIZE)
    (hwrite : ok (.write address)) (hregs : REG_GLO_VER ≤ address → RegsOk ok)
    (hclear : ∀ slice : Fin N_SLICE_THREADS, address = REG_SLI_CLEAR + SLICE_OFFSET * slice →
      Stays (HasWidth w) ok (clearSlice slice)) (data : Byte) :
    Stays (HasWidth w) ok (setData address data) := by
  rw [setData, if_neg (Nat.not_lt.mpr hsize)]
  refine .ite (fun _ => .pure _) fun _ => .ite (fun hen => ?_) fun _ => ?_
  · exact setIntEnable_stays (hregs (hen ▸ by decide)) data
  · refine (poke_width hwrite data).bind fun _ => ?_
    rcases Nat.lt_or_ge address REG_GLO_VER with hlt | hge
    · rw [written_below hlt]
      exact .pure _
    · exact written_stays (hregs hge) hwrite hclear data

/-! ## 3. The link -/

theorem getData_ok_iff {address : Nat} {d : DbfDevice} :
    (∀ e ∈ ((getData address).run d).2, e.Ok FPGA_CHAR_SIZE) ↔ address ≠ FPGA_CHAR_SIZE := by
  rcases Nat.lt_trichotomy address FPGA_CHAR_SIZE with hlt | heq | hgt
  · exact iff_of_true (getData_stays hlt).all_ok hlt.ne
  · refine iff_of_false (fun h => ?_) (not_not.mpr heq)
    rw [getData, if_neg (Nat.not_lt.mpr heq.le)] at h
    exact absurd (h (.read address) List.mem_cons_self) (Nat.not_lt.mpr heq.ge)
  · refine iff_of_true ?_ hgt.ne'
    rw [getData, if_pos hgt]
    exact fun e he => absurd he List.not_mem_nil

theorem pokes_record (xs : List Nat) (f : Nat → Byte) (d : DbfDevice) :
    ((forM xs fun a => poke a (f a)).run d).2 = xs.map .write := by
  induction xs generalizing d with
  | nil => rfl
  | cons a xs ih =>
      rw [List.forM_cons, run_bind_some (f := poke a (f a)) rfl, ih]
      rfl

theorem slice_regs_lt (slice : Fin N_SLICE_THREADS) {reg : Nat} (h : reg < REG_NSLICES) :
    SLICE_OFFSET * slice + reg < FPGA_CHAR_SIZE := by
  have := slice.isLt
  simp only [SLICE_OFFSET, N_SLICE_THREADS, REG_NSLICES, FPGA_CHAR_SIZE] at *
  omega

/-- **The bytes that are cleared.** -/
theorem clearSlice_ok_iff (slice : Fin N_SLICE_THREADS) {stop : Nat} {d : DbfDevice} :
    (∀ e ∈ ((clearSlice slice).run d).2, e.Ok stop) ↔ d.SliceEnds slice stop := by
  have hpeek {index : Nat} (h : index < FPGA_CHAR_SIZE) :
      ∀ e ∈ ((peek index).run d).2, e.Ok stop := (peek_stays h).all_ok
  have hlgtoff : SLICE_OFFSET * slice + REG_SLI_LGTOFF < FPGA_CHAR_SIZE :=
    slice_regs_lt slice (by decide)
  have hoffset : SLICE_OFFSET * slice + REG_SLI_OFFSET < FPGA_CHAR_SIZE :=
    slice_regs_lt slice (by decide)
  have hlength : SLICE_OFFSET * slice + REG_SLI_LGTOFF + 1 < FPGA_CHAR_SIZE :=
    slice_regs_lt slice (by decide : REG_SLI_LGTOFF + 1 < REG_NSLICES)
  rw [clearSlice, ok_bind_iff rfl (hpeek hlgtoff), ok_bind_iff rfl (hpeek hoffset),
    ok_bind_iff rfl (hpeek hlength), ok_bind_iff rfl (hpeek hlgtoff), pokes_record, List.forall_mem_map]
  show (∀ a ∈ List.range' (d.offset slice * MB_BLOCK_SIZE) (d.length slice * MB_BLOCK_SIZE),
    a < stop) ↔ _
  simp only [List.mem_range'_1, DbfDevice.SliceEnds, MB_BLOCK_SIZE]
  constructor
  · intro h
    rcases Nat.eq_zero_or_pos (d.length slice) with h0 | hpos
    · exact .inl h0
    · have hlast := h ((d.offset slice + d.length slice) * 0x200 - 1) (by omega)
      exact .inr (by omega)
  · intro h a ha
    rcases h with h0 | hle <;> omega

theorem setData_clear (slice : Fin N_SLICE_THREADS) (data : Byte) :
    setData (REG_SLI_CLEAR + SLICE_OFFSET * slice) data = (do
      poke (REG_SLI_CLEAR + SLICE_OFFSET * slice) data
      clearSlice slice
      poke (REG_SLI_CLEAR + SLICE_OFFSET * slice) 0#8) := by
  fin_cases slice <;> rfl

theorem clear_lt (slice : Fin N_SLICE_THREADS) :
    REG_SLI_CLEAR + SLICE_OFFSET * slice < FPGA_CHAR_SIZE := by
  have := slice.isLt
  simp only [REG_SLI_CLEAR, SLICE_OFFSET, N_SLICE_THREADS, FPGA_CHAR_SIZE] at *
  omega

theorem setData_clear_ok_iff (slice : Fin N_SLICE_THREADS) {data : Byte} {d : DbfDevice} :
    (∀ e ∈ ((setData (REG_SLI_CLEAR + SLICE_OFFSET * slice) data).run d).2, e.Ok FPGA_CHAR_SIZE) ↔
      d.SliceEnds slice FPGA_CHAR_SIZE := by
  have hpoke (data : Byte) : Stays (fun _ => True) (DbfAccess.Ok FPGA_CHAR_SIZE)
      (poke (REG_SLI_CLEAR + SLICE_OFFSET * slice) data) :=
    poke_stays (clear_lt slice) (fun _ _ _ => trivial) data
  obtain ⟨hoff, hlen⟩ := range_poke_clear d slice slice data
  rw [setData_clear, ok_bind_iff rfl (hpoke data).all_ok,
    ok_bind_stays_iff fun _ => hpoke 0#8, clearSlice_ok_iff, DbfDevice.SliceEnds, hoff, hlen,
    DbfDevice.SliceEnds]

/-- **A write uses the indices of the slice that it clears.** -/
theorem setData_ok_iff {address : Nat} {data : Byte} {d : DbfDevice} :
    (∀ e ∈ ((setData address data).run d).2, e.Ok FPGA_CHAR_SIZE) ↔ address ≠ FPGA_CHAR_SIZE ∧
      ∀ slice : Fin N_SLICE_THREADS, address = REG_SLI_CLEAR + SLICE_OFFSET * slice →
        d.SliceEnds slice FPGA_CHAR_SIZE := by
  by_cases hclear : ∃ slice : Fin N_SLICE_THREADS, address = REG_SLI_CLEAR + SLICE_OFFSET * slice
  · obtain ⟨slice, rfl⟩ := hclear
    rw [setData_clear_ok_iff, and_iff_right (clear_lt slice).ne]
    refine ⟨fun h i hi => ?_, fun h => h slice rfl⟩
    have heq : slice = i := by
      simp only [SLICE_OFFSET] at hi
      omega
    exact heq ▸ h
  have hnone : ∀ slice : Fin N_SLICE_THREADS, address ≠ REG_SLI_CLEAR + SLICE_OFFSET * slice :=
    fun slice h => hclear ⟨slice, h⟩
  rw [and_iff_left fun slice h => absurd h (hnone slice)]
  rcases Nat.lt_trichotomy address FPGA_CHAR_SIZE with hlt | heq | hgt
  · exact iff_of_true (setData_stays hlt.le hlt (fun _ => regsOk_size)
      (fun slice h => absurd h (hnone slice)) data d rfl).1 hlt.ne
  · refine iff_of_false (fun h => ?_) (not_not.mpr heq)
    subst heq
    exact absurd (h (.write FPGA_CHAR_SIZE) List.mem_cons_self) (Nat.lt_irrefl _)
  · refine iff_of_true ?_ hgt.ne'
    rw [setData, if_pos hgt]
    exact fun e he => absurd he List.not_mem_nil

/-! ## 4. The copy -/

/-- A word of a component lies in a macroblock of the picture. -/
theorem componentAddrs_lt {base mbSize h w a : Nat} (hfit : base + mbSize * mbSize ≤ MB_BLOCK_SIZE)
    (ha : a ∈ componentAddrs base mbSize h w) : a + 3 < h * w * MB_BLOCK_SIZE := by
  simp only [componentAddrs, List.mem_flatMap, List.mem_map, List.mem_range] at ha
  obtain ⟨k, hk, l, hl, y, hy, x, hx, rfl⟩ := ha
  have hrow : k * w + y + 1 ≤ h * w := by
    have := Nat.mul_le_mul_right w hk
    rw [Nat.succ_mul] at this
    omega
  have hline : l * mbSize + mbSize ≤ mbSize * mbSize := by
    have := Nat.mul_le_mul_right mbSize hl
    rwa [Nat.succ_mul] at this
  have hblock := Nat.mul_le_mul_right MB_BLOCK_SIZE hrow
  rw [Nat.add_mul, Nat.add_mul] at hblock
  omega

theorem copyAddrs_lt {h w a : Nat} (ha : a ∈ copyAddrs h w) : a + 3 < h * w * MB_BLOCK_SIZE := by
  rcases List.mem_append.mp ha with ha | ha
  · rcases List.mem_append.mp ha with ha | ha
    · exact componentAddrs_lt (by decide) ha
    · exact componentAddrs_lt (by decide) ha
  · exact componentAddrs_lt (by decide) ha

/-- The first word of a row of macroblocks. -/
theorem row_mem_copyAddrs {h w k : Nat} (hk : k < h) (hw : 0 < w) :
    k * w * MB_BLOCK_SIZE ∈ copyAddrs h w := by
  refine List.mem_append_left _ (List.mem_append_left _ ?_)
  simp only [componentAddrs, List.mem_flatMap, List.mem_map, List.mem_range]
  exact ⟨k, hk, 0, by decide, 0, hw, 0, by decide, by omega⟩

theorem getFormat_stays {stop : Nat} : Stays P (DbfAccess.Ok stop) getFormat :=
  (getData_stays (by decide)).bind fun _ => .pure _

theorem getPicHeightInMbs_stays {stop : Nat} : Stays P (DbfAccess.Ok stop) getPicHeightInMbs :=
  getFormat_stays.bind fun _ => .pure _

theorem getPicWidthInMbs_stays {stop : Nat} : Stays P (DbfAccess.Ok stop) getPicWidthInMbs :=
  getFormat_stays.bind fun _ => .pure _

theorem peekLong_stays {stop index : Nat} (h : index + 3 < FPGA_CHAR_SIZE) :
    Stays P (DbfAccess.Ok stop) (peekLong index) := by
  have hpeek {i : Nat} (hi : i ≤ 3) : Stays P (DbfAccess.Ok stop) (peek (index + i)) :=
    peek_stays ((Nat.add_le_add_left hi index).trans_lt h)
  exact (hpeek (by decide : 0 ≤ 3)).bind fun _ => (hpeek (by decide : 1 ≤ 3)).bind fun _ =>
    (hpeek (by decide : 2 ≤ 3)).bind fun _ => (hpeek (by decide : 3 ≤ 3)).bind fun _ => .pure _

/-- Up to the first word the copy reads registers. -/
theorem masterRequestStart_ok (stop : Nat) (d : DbfDevice) :
    ∀ e ∈ (DbfCode.masterRequestStart.run d).2, e.Ok stop := by
  have hheight := (congrFun erase_getPicHeightInMbs d).trans (getPicHeightInMbs_run d)
  have hwidth := (congrFun erase_getPicWidthInMbs d).trans (getPicWidthInMbs_run d)
  have hinc : ∀ e ∈ ((peek REG_INC_ADDRESS).run d).2, e.Ok stop :=
    (peek_stays (by decide : REG_INC_ADDRESS < FPGA_CHAR_SIZE)).all_ok
  rw [DbfCode.masterRequestStart,
    ok_bind_iff hheight getPicHeightInMbs_stays.all_ok,
    ok_bind_iff hwidth getPicWidthInMbs_stays.all_ok,
    ok_bind_iff rfl (peekLong_stays (by decide)).all_ok,
    ok_bind_iff rfl hinc]
  split <;> exact fun e he => absurd he List.not_mem_nil

theorem raiseStatus_stays (hregs : RegsOk ok) {w : Nat} (bits : Byte) :
    Stays (HasWidth w) ok (raiseStatus bits) := by
  refine (hregs.read (by decide)).bind fun _ => (hregs.write (by decide) _).bind fun _ => ?_
  refine (hregs.read (by decide)).bind fun _ => (hregs.read (by decide)).bind fun _ => ?_
  refine .ite (fun _ => ?_) fun _ => .pure _
  exact (hregs.read (by decide)).bind fun _ => (hregs.write (by decide) _).bind fun _ =>
    setIrq_stays true

theorem masterRequestEnd_stays :
    Stays (fun _ => True) (DbfAccess.Ok FPGA_CHAR_SIZE) DbfCode.masterRequestEnd := by
  intro d _
  have hset : Stays (HasWidth d.picWidthInMbs) (DbfAccess.Ok FPGA_CHAR_SIZE)
      (DbfCode.setData REG_FRA_SRAM 0#8) := by
    refine setData_stays (by decide) (by decide : REG_FRA_SRAM < FPGA_CHAR_SIZE)
      (fun _ => regsOk_size) (fun slice h => ?_) 0#8
    simp only [REG_FRA_SRAM, REG_SLI_CLEAR, SLICE_OFFSET] at h
    omega
  obtain ⟨hok, x, d', hrun, -⟩ :=
    (hset.bind fun _ => raiseStatus_stays regsOk_size (statusBit REG_STATUS_BIT_SRAM)) d rfl
  exact ⟨hok, x, d', hrun, trivial⟩

/-- Of the four formats, 4CIF is the one whose picture does not fit into `m_data`. -/
theorem words_fit_iff {d : DbfDevice} :
    (∀ a ∈ copyAddrs d.height d.width, ¬ FPGA_CHAR_SIZE ≤ a + 3) ↔ d.format ≠ 3 := by
  constructor
  · intro h h3
    have hheight : d.height = 36 := by rw [DbfDevice.height, h3]; rfl
    have hwidth : d.width = 44 := by rw [DbfDevice.width, h3]; rfl
    rw [hheight, hwidth] at h
    exact h _ (row_mem_copyAddrs (by decide : 35 < 36) (by decide)) (by decide)
  · intro h3 a ha
    have hfits := d.fits_iff.mpr h3
    have hlt := copyAddrs_lt ha
    rw [Nat.mul_comm d.height] at hlt
    simp only [MB_BLOCK_SIZE, REG_GLO_VER, FPGA_CHAR_SIZE] at *
    omega

/-- **The words of the copy are inside `m_data` unless the format is 4CIF.** -/
theorem masterRequest_ok_iff {d : DbfDevice} :
    (∀ e ∈ (DbfCode.masterRequest.run d).2, e.Ok FPGA_CHAR_SIZE) ↔
      (d.format ≠ 3 ∨ d.adrDest &&& 0x3#32 ≠ 0#32) := by
  rw [DbfCode.masterRequest]
  by_cases h : d.adrDest &&& 0x3#32 = 0#32
  · have hstart := (congrFun erase_masterRequestStart d).trans (masterRequestStart_run h)
    rw [ok_bind_iff hstart (masterRequestStart_ok FPGA_CHAR_SIZE d),
      ok_bind_stays_iff fun _ => masterRequestEnd_stays, or_iff_left (not_not.mpr h),
      ← words_fit_iff]
    refine forM_ok_iff (P := fun _ => True) (fun a _ hlt (_ : ¬ False) => ?_) (fun a _ hge => ?_)
      (fun a _ hstop => hstop.elim) (List.pairwise_of_forall fun _ _ hstop => hstop.elim) trivial
    · exact (peekLong_stays (Nat.not_le.mp hlt)).bind fun _ => .pure _
    · exact fun d' _ => ⟨.read (a + 3), by simp [peekLong, peek, bind], Nat.not_lt.mpr hge⟩
  · have hstart : (DbfCode.masterRequestStart.run d).1 = none := by
      have hget : (get : DbfM DbfDevice).run d = some (d, d) := rfl
      refine (congrFun erase_masterRequestStart d).trans ?_
      show Rabbits.masterRequestStart.run d = none
      rw [Rabbits.masterRequestStart, run_bind_of (getPicHeightInMbs_run d),
        run_bind_of (getPicWidthInMbs_run d), run_bind_of hget, if_pos h]
      rfl
    rw [run_bind_none hstart]
    exact iff_of_true (masterRequestStart_ok FPGA_CHAR_SIZE d) (.inr h)

end DbfCode

end Rabbits
