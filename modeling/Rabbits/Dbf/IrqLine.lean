/-
  File:      Rabbits/Dbf/IrqLine.lean
  Subject:   The interrupt of the deblocking filter as three values, and how the device computes
             them (dbf_device.cpp: set_data, process_slice, master_request).

  INT_STATUS, INT_ENABLE and `m_irq_stat` are all that decides the interrupt. Four places change
  them: a write to INT_ENABLE, a write to INT_ACK, the end of a slice, the end of a copy.

  * `IrqLine` -- the three values, with `setEnable`, `ack`, `complete`;
  * `IrqLine.Ok` -- the flag is set exactly for a status bit that is enabled; each of the three
    keeps it;
  * `DbfDevice.line` -- the three values of the device: `setData_line`, `processSliceEnd_line`,
    `masterRequestEnd_line`, `filterSlice_line` say what the device's code does to them;
  * `Notifies` -- the flag never changes without a notification of `m_ev_irqupdate`.
-/
import Rabbits.Dbf.SliceOrder

namespace Rabbits

open Lib

/-! ## 1. The three values -/

/-- INT_STATUS, INT_ENABLE, `m_irq_stat`. -/
structure IrqLine where
  status : Byte
  enable : Byte
  stat : Bool
  deriving DecidableEq

namespace IrqLine

/-- A write to INT_ENABLE. -/
def setEnable (l : IrqLine) (data : Byte) : IrqLine where
  status := l.status
  enable := data &&& 0x7F#8
  stat :=
    if l.status &&& l.enable = 0#8 ∧ l.status &&& (data &&& 0x7F#8) ≠ 0#8 then true
    else if l.status &&& l.enable ≠ 0#8 ∧ l.status &&& (data &&& 0x7F#8) = 0#8 then false
    else l.stat

/-- What an acknowledge leaves of the status. -/
def acked (status data : Byte) : Byte :=
  if status &&& (~~~data ||| 0x80#8) = 0x80#8 then 0#8 else status &&& (~~~data ||| 0x80#8)

/-- A write to INT_ACK. -/
def ack (l : IrqLine) (data : Byte) : IrqLine :=
  if data &&& l.status &&& l.enable ≠ 0#8 then
    { l with
      status := acked l.status data
      stat := if acked l.status data &&& l.enable = 0#8 then false else l.stat }
  else l

/-- Status bits go up at the end of a slice or of a copy. -/
def complete (l : IrqLine) (bits : Byte) : IrqLine :=
  if (l.status ||| bits) &&& l.enable ≠ 0#8 then
    { l with status := l.status ||| bits ||| 0x80#8, stat := true }
  else { l with status := l.status ||| bits }

/-- Bit 7 is never enabled, and the flag is set exactly for a status bit that is. -/
structure Ok (l : IrqLine) : Prop where
  enable : l.enable &&& 0x7F#8 = l.enable
  stat : l.stat = true ↔ l.status &&& l.enable ≠ 0#8

variable {l : IrqLine}

theorem and_7F_idem (x : Byte) : x &&& 0x7F#8 &&& 0x7F#8 = x &&& 0x7F#8 := by
  revert x
  decide

/-- Bit 7 of the status does not meet the mask. -/
theorem or_80_and {e : Byte} (he : e &&& 0x7F#8 = e) (s : Byte) : (s ||| 0x80#8) &&& e = s &&& e := by
  have h80 : (0x80#8 : Byte) &&& e = 0#8 := by
    rw [← he]
    revert e
    decide
  rw [BitVec.and_or_distrib_right, h80, BitVec.or_zero]

theorem Ok.setEnable (h : l.Ok) (data : Byte) : (l.setEnable data).Ok := by
  refine ⟨and_7F_idem data, ?_⟩
  have hstat := h.stat
  simp only [IrqLine.setEnable]
  split
  · next hup => simpa using hup.2
  · next hup =>
      split
      · next hdown => simpa using hdown.2
      · next hdown =>
          rw [hstat]
          tauto

theorem Ok.ack (h : l.Ok) (data : Byte) : (l.ack data).Ok := by
  unfold IrqLine.ack
  split
  · next hmeet =>
      refine ⟨h.enable, ?_⟩
      have hset : l.stat = true := by
        refine h.stat.mpr fun h0 => hmeet ?_
        rw [BitVec.and_assoc, h0, BitVec.and_zero]
      simp only [hset]
      split
      · next h0 => simp [h0]
      · next h0 => simpa using h0
  · exact h

theorem Ok.complete (h : l.Ok) (bits : Byte) : (l.complete bits).Ok := by
  unfold IrqLine.complete
  split
  · next hmeet =>
      refine ⟨h.enable, ?_⟩
      rw [or_80_and h.enable]
      simpa using hmeet
  · next hmeet =>
      rw [not_not] at hmeet
      refine ⟨h.enable, ?_⟩
      have hold : l.status &&& l.enable = 0#8 := by
        have hor : l.status &&& l.enable ||| bits &&& l.enable = 0#8 := by
          rw [← BitVec.and_or_distrib_right]
          exact hmeet
        exact (BitVec.or_eq_zero_iff.mp hor).1
      simp only [hmeet, h.stat, hold]

end IrqLine

/-! ## 2. The ends of a slice and of a copy -/

def REG_STATUS_BIT_ALLSLICES : Nat := N_SLICE_THREADS
def REG_STATUS_BIT_SRAM : Nat := N_SLICE_THREADS + 1
def REG_SLI_EMPLOW : Nat := 0x3801A
def REG_SLI_EMPHI : Nat := 0x3801B
def REG_NSLICES_INTR : Nat := 0x39018

theorem slices_pos : 0 < N_SLICE_THREADS := by decide

/-- `1 << bit`. -/
def statusBit (bit : Nat) : Byte := 1#8 <<< bit

/-- Status bits go up, and the interrupt with them where one is enabled. -/
def DbfDevice.raiseStatus (d : DbfDevice) (bits : Byte) : DbfDevice :=
  let d := d.poke REG_INT_STATUS (d.mData REG_INT_STATUS ||| bits)
  if d.mData REG_INT_STATUS &&& d.mData REG_INT_ENABLE ≠ 0#8 then
    (d.poke REG_INT_STATUS (d.mData REG_INT_STATUS ||| 0x80#8)).setIrq true
  else d

/-- How many slices have a length in their EMP registers. -/
def DbfDevice.emptied (d : DbfDevice) : Nat :=
  (List.range N_SLICE_THREADS).countP fun i =>
    d.mData (REG_SLI_EMPHI + SLICE_OFFSET * i) ≠ 0#8 ||
      d.mData (REG_SLI_EMPLOW + SLICE_OFFSET * i) ≠ 0#8

/-- The status bits of the end of a slice. -/
def DbfDevice.sliceBits (d : DbfDevice) (slice : Nat) : Byte :=
  if d.emptied ≥ (d.mData REG_NSLICES_INTR).toNat then
    statusBit slice ||| statusBit REG_STATUS_BIT_ALLSLICES
  else statusBit slice

/-- `process_slice` after `filter_slice`. -/
def processSliceEnd (slice : Nat) : DbfM Unit := do
  let sliceLength ← getSliceLength slice
  setData (REG_SLI_EMPHI + SLICE_OFFSET * slice) (BitVec.ofNat 8 (sliceLength >>> 8))
  setData (REG_SLI_EMPLOW + SLICE_OFFSET * slice) (BitVec.ofNat 8 sliceLength)
  modify fun d => d.raiseStatus (d.sliceBits slice)

/-- `master_request` after the last word. -/
def masterRequestEnd : DbfM Unit := do
  setData REG_FRA_SRAM 0#8
  modify fun d => d.raiseStatus (statusBit REG_STATUS_BIT_SRAM)

/-! ## 3. The three values of the device -/

def DbfDevice.line (d : DbfDevice) : IrqLine where
  status := d.mData REG_INT_STATUS
  enable := d.mData REG_INT_ENABLE
  stat := d.irqStat

/-- The events notified from `d` to `d'`, among them `m_ev_irqupdate` where the flag changed. -/
def Notifies (d d' : DbfDevice) : Prop :=
  ∃ evs, d'.notified = evs ++ d.notified ∧ (d'.irqStat ≠ d.irqStat → DbfEvent.irqUpdate ∈ evs)

variable {d d' d'' : DbfDevice}

theorem Notifies.refl (d : DbfDevice) : Notifies d d := ⟨[], rfl, fun h => absurd rfl h⟩

theorem Notifies.trans (h : Notifies d d') (h' : Notifies d' d'') : Notifies d d'' := by
  obtain ⟨evs, hn, hi⟩ := h
  obtain ⟨evs', hn', hi'⟩ := h'
  refine ⟨evs' ++ evs, by rw [hn', hn, List.append_assoc], fun hne => ?_⟩
  by_cases hstat : d''.irqStat = d'.irqStat
  · exact List.mem_append_right _ (hi (hstat ▸ hne))
  · exact List.mem_append_left _ (hi' hstat)

theorem notifies_setIrq (d : DbfDevice) (stat : Bool) : Notifies d (d.setIrq stat) :=
  ⟨[.irqUpdate], rfl, fun _ => .head _⟩

theorem notifies_poke (d : DbfDevice) (a : Nat) (v : Byte) : Notifies d (d.poke a v) := .refl d

theorem notifies_notify (d : DbfDevice) (e : DbfEvent) : Notifies d (d.notify e) :=
  ⟨[e], rfl, fun h => absurd rfl h⟩

theorem line_poke {a : Nat} (hs : a ≠ REG_INT_STATUS) (he : a ≠ REG_INT_ENABLE) (d : DbfDevice)
    (v : Byte) : (d.poke a v).line = d.line := by
  simp only [DbfDevice.line, DbfDevice.poke, Function.update_of_ne hs.symm,
    Function.update_of_ne he.symm]

/-! ## 4. The accesses -/

/-- The slice's range, as `clear_slice` and `filter_slice` take it from the registers, stays below
    the registers. -/
def DbfDevice.SliceBelow (d : DbfDevice) (slice : Nat) : Prop :=
  (d.offset slice + d.length slice) * MB_BLOCK_SIZE ≤ REG_GLO_VER

instance (d : DbfDevice) (slice : Nat) : Decidable (d.SliceBelow slice) :=
  inferInstanceAs (Decidable (_ ≤ _))

theorem setIntEnable_line (d : DbfDevice) (data : Byte) :
    (d.setIntEnable data).line = d.line.setEnable data := by
  have hstatus (v : Byte) : Function.update d.mData REG_INT_ENABLE v REG_INT_STATUS =
      d.mData REG_INT_STATUS := Function.update_of_ne (by decide) _ _
  simp only [DbfDevice.setIntEnable, IrqLine.setEnable]
  split
  · simp [DbfDevice.line, DbfDevice.poke, DbfDevice.setIrq, *]
  · split <;> simp [DbfDevice.line, DbfDevice.poke, DbfDevice.setIrq, *]

theorem setIntEnable_notifies (d : DbfDevice) (data : Byte) : Notifies d (d.setIntEnable data) := by
  simp only [DbfDevice.setIntEnable]
  split
  · exact (notifies_setIrq d true).trans (notifies_poke _ _ _)
  · split
    · exact (notifies_setIrq d false).trans (notifies_poke _ _ _)
    · exact notifies_poke _ _ _

theorem setIntAck_eq (d : DbfDevice) (data : Byte) :
    d.setIntAck data =
      if data &&& d.line.status &&& d.line.enable ≠ 0#8 then
        let d' := d.poke REG_INT_STATUS (IrqLine.acked d.line.status data)
        if IrqLine.acked d.line.status data &&& d.line.enable = 0#8 then d'.setIrq false else d'
      else d := rfl

theorem setIntAck_line (d : DbfDevice) (data : Byte) :
    (d.setIntAck data).line = d.line.ack data := by
  rw [setIntAck_eq, IrqLine.ack]
  split
  · simp only
    split <;> simp [DbfDevice.line, DbfDevice.poke, DbfDevice.setIrq, REG_INT_ENABLE, REG_INT_STATUS]
  · rfl

theorem setIntAck_notifies (d : DbfDevice) (data : Byte) : Notifies d (d.setIntAck data) := by
  rw [setIntAck_eq]
  split
  · simp only
    split
    · exact ⟨[.irqUpdate], rfl, fun _ => .head _⟩
    · exact notifies_poke _ _ _
  · exact .refl d

theorem raiseStatus_line (d : DbfDevice) (bits : Byte) :
    (d.raiseStatus bits).line = d.line.complete bits := by
  simp only [DbfDevice.raiseStatus, IrqLine.complete]
  split <;> simp_all [DbfDevice.line, DbfDevice.poke, DbfDevice.setIrq, REG_INT_ENABLE,
    REG_INT_STATUS]

theorem raiseStatus_notifies (d : DbfDevice) (bits : Byte) : Notifies d (d.raiseStatus bits) := by
  simp only [DbfDevice.raiseStatus]
  split
  · exact ⟨[.irqUpdate], rfl, fun _ => .head _⟩
  · exact notifies_poke _ _ _

theorem clearSlice_kept {slice : Nat} (h : d.SliceBelow slice) :
    (d.clearSlice slice).line = d.line ∧ Notifies d (d.clearSlice slice) := by
  have hloop : ∀ (addrs : List Nat) (e : DbfDevice), (∀ a ∈ addrs, a < REG_GLO_VER) →
      (addrs.foldl (fun e a => e.poke a (clearedByte a)) e).line = e.line ∧
        Notifies e (addrs.foldl (fun e a => e.poke a (clearedByte a)) e) := by
    intro addrs
    induction addrs with
    | nil => exact fun e _ => ⟨rfl, .refl e⟩
    | cons a addrs ih =>
        intro e hlt
        obtain ⟨hline, hnot⟩ := ih (e.poke a (clearedByte a)) fun b hb => hlt b (.tail _ hb)
        have ha : a < REG_GLO_VER := hlt a (.head _)
        have hs : a ≠ REG_INT_STATUS := Nat.ne_of_lt (ha.trans (by decide))
        have he : a ≠ REG_INT_ENABLE := Nat.ne_of_lt (ha.trans (by decide))
        exact ⟨hline.trans (line_poke hs he e _), (notifies_poke e a _).trans hnot⟩
  refine hloop _ d fun a ha => ?_
  obtain ⟨-, hhi⟩ := List.mem_range'_1.mp ha
  have hbelow : (d.offset slice + d.length slice) * MB_BLOCK_SIZE ≤ REG_GLO_VER := h
  rw [Nat.add_mul] at hbelow
  exact hhi.trans_le hbelow

/-- What an access does to the three values. -/
def IrqLine.access (l : IrqLine) (address : Nat) (data : Byte) : IrqLine :=
  if address = REG_INT_ENABLE then l.setEnable data
  else if address = REG_INT_ACK then l.ack data
  else l

/-- An access to a CLEAR register is for a slice below the registers. -/
def ClearsBelow (d : DbfDevice) (address : Nat) : Prop :=
  ∀ i : Fin N_SLICE_THREADS, address = REG_SLI_CLEAR + SLICE_OFFSET * i → d.SliceBelow i

instance (d : DbfDevice) (address : Nat) : Decidable (ClearsBelow d address) := by
  unfold ClearsBelow
  infer_instance

/-- The CLEAR register is none of those that hold the range. -/
theorem range_poke_clear (d : DbfDevice) (i slice : Nat) (v : Byte) :
    (d.poke (REG_SLI_CLEAR + SLICE_OFFSET * i) v).offset slice = d.offset slice ∧
      (d.poke (REG_SLI_CLEAR + SLICE_OFFSET * i) v).length slice = d.length slice := by
  have hne {reg : Nat} (hreg : reg % SLICE_OFFSET ≠ REG_SLI_CLEAR % SLICE_OFFSET) :
      (d.poke (REG_SLI_CLEAR + SLICE_OFFSET * i) v).mData reg = d.mData reg := by
    refine Function.update_of_ne (fun h => hreg ?_) _ _
    rw [h, Nat.add_mul_mod_self_left]
  constructor
  · rw [DbfDevice.offset, hne (by rw [Nat.mul_add_mod]; decide),
      hne (by rw [Nat.mul_add_mod]; decide)]
    rfl
  · rw [DbfDevice.length, hne (by rw [Nat.add_assoc, Nat.mul_add_mod]; decide),
      hne (by rw [Nat.mul_add_mod]; decide)]
    rfl

theorem sliceBelow_poke (d : DbfDevice) (i slice : Nat) (v : Byte) :
    (d.poke (REG_SLI_CLEAR + SLICE_OFFSET * i) v).SliceBelow slice ↔ d.SliceBelow slice := by
  obtain ⟨hoff, hlen⟩ := range_poke_clear d i slice v
  rw [DbfDevice.SliceBelow, hoff, hlen, DbfDevice.SliceBelow]

/-- What a write sets off. -/
theorem written_spec {a : Nat} {v : Byte} (hs : a ≠ REG_INT_STATUS) (he : a ≠ REG_INT_ENABLE)
    (hclear : ClearsBelow d a) :
    (d.written a v).line = (if a = REG_INT_ACK then d.line.ack v else d.line) ∧
      Notifies d (d.written a v) := by
  unfold DbfDevice.written
  by_cases hk : a = REG_INT_ACK
  · rw [if_pos hk, if_pos hk]
    exact ⟨setIntAck_line d v, setIntAck_notifies d v⟩
  · rw [if_neg hk, if_neg hk]
    split
    · exact ⟨rfl, notifies_notify d _⟩
    · split
      · next i hi =>
          have ha : a = REG_SLI_CLEAR + SLICE_OFFSET * i := by simpa using List.find?_some hi
          obtain ⟨hline, hnot⟩ := clearSlice_kept (hclear i ha)
          exact ⟨(line_poke hs he _ _).trans hline, hnot.trans (notifies_poke _ _ _)⟩
      · split
        · exact ⟨rfl, notifies_notify d _⟩
        · exact ⟨rfl, .refl d⟩

/-- **What a write does to the interrupt.** -/
theorem setData_spec {a : Nat} {v : Byte} (h : (setData a v).run d = some ((), d'))
    (hclear : ClearsBelow d a) : d'.line = d.line.access a v ∧ Notifies d d' := by
  simp only [StateT.run, setData] at h
  unfold IrqLine.access
  split at h
  · cases h
  · split at h
    · next hro =>
        cases h
        have he : a ≠ REG_INT_ENABLE := by
          rcases hro with rfl | rfl <;> decide
        have hk : a ≠ REG_INT_ACK := by
          rcases hro with rfl | rfl <;> decide
        rw [if_neg he, if_neg hk]
        exact ⟨rfl, .refl d⟩
    · next hro =>
        have hs : a ≠ REG_INT_STATUS := fun hs => hro (.inl hs)
        split at h
        · next he =>
            cases h
            rw [if_pos he]
            exact ⟨setIntEnable_line d v, setIntEnable_notifies d v⟩
        · next he =>
            cases h
            have hclear' : ClearsBelow (d.poke a v) a := by
              intro i heq
              subst heq
              exact (sliceBelow_poke d i i v).mpr (hclear i rfl)
            obtain ⟨hline, hnot⟩ := written_spec (v := v) hs he hclear'
            rw [if_neg he]
            rw [line_poke hs he] at hline
            exact ⟨hline, hnot⟩

/-! ## 5. The threads -/

/-- A slice below the registers, as an area. -/
def DbfDevice.SliceBelow.area {slice : Nat} (h : d.SliceBelow slice)
    (hs : slice < N_SLICE_THREADS) : SliceArea where
  slice := slice
  width := d.width
  offset := d.offset slice
  length := d.length slice
  slice_lt := hs
  width_pos := d.width_pos
  fits := h

theorem filterSlice_run_below {slice : Nat} (h : d.SliceBelow slice)
    (hs : slice < N_SLICE_THREADS) : (filterSlice slice).run d = (h.area hs).body.run d.sized := by
  have hset : (modify fun d' : DbfDevice => { d' with picWidthInMbs := d.width } : DbfM PUnit).run d =
      some ((), d.sized) := rfl
  rw [filterSlice, run_bind_of (getPicWidthInMbs_run d), run_bind_of hset,
    run_bind_of (getPicHeightInMbs_run d.sized), run_bind_of (getSliceLength_run hs d.sized),
    run_bind_of (getOffset_run hs d.sized)]
  rfl

/-- The filter of a slice below the registers leaves the interrupt alone. -/
theorem filterSlice_line {slice n : Nat} (h : d.SliceBelow slice) (hs : slice < N_SLICE_THREADS)
    (hrun : (filterSlice slice).run d = some (n, d')) : d'.line = d.line ∧ Notifies d d' := by
  rw [filterSlice_run_below h hs] at hrun
  have hk := (h.area hs).body_runs.keeps (s := d.sized) rfl hrun
  have hmem {a : Nat} (ha : REG_GLO_VER ≤ a) : d'.mData a = d.mData a :=
    hk.mem fun hin => absurd (SliceArea.lt_of_mem_blocks (S := h.area hs) hin.1) (not_lt.mpr ha)
  have hrest : ({ d' with mData := fun _ => 0#8 } : DbfDevice) =
      { d.sized with mData := fun _ => 0#8 } := hk.rest
  obtain ⟨-, hstat, -, hnot⟩ := (DbfDevice.mk.injEq ..).mp hrest
  refine ⟨?_, [], hnot, fun hne => absurd hstat hne⟩
  simp only [DbfDevice.line, hmem (a := REG_INT_STATUS) (by decide),
    hmem (a := REG_INT_ENABLE) (by decide), hstat, DbfDevice.sized]

theorem clearsBelow_of_ne {a : Nat} (ha : a % SLICE_OFFSET ≠ REG_SLI_CLEAR % SLICE_OFFSET) :
    ClearsBelow d a := by
  intro i hi
  rw [hi, Nat.add_mul_mod_self_left] at ha
  exact absurd rfl ha

/-- A write to a register with no effect on the interrupt and none on a slice. -/
theorem setData_line_kept {a : Nat} {v : Byte} (h : (setData a v).run d = some ((), d'))
    (hclear : a % SLICE_OFFSET ≠ REG_SLI_CLEAR % SLICE_OFFSET) (he : a ≠ REG_INT_ENABLE)
    (hk : a ≠ REG_INT_ACK) : d'.line = d.line ∧ Notifies d d' := by
  have hspec := setData_spec h (clearsBelow_of_ne hclear)
  rwa [IrqLine.access, if_neg he, if_neg hk] at hspec

theorem processSliceEnd_line {slice : Nat} (hs : slice < N_SLICE_THREADS)
    (h : (processSliceEnd slice).run d = some ((), d')) :
    ∃ bits, d'.line = d.line.complete bits ∧ Notifies d d' := by
  rw [processSliceEnd, run_bind_of (getSliceLength_run hs d), StateT.run_bind] at h
  obtain ⟨⟨⟨⟩, d₁⟩, hhi, h⟩ := Option.bind_eq_some_iff.mp h
  rw [StateT.run_bind] at h
  obtain ⟨⟨⟨⟩, d₂⟩, hlow, h⟩ := Option.bind_eq_some_iff.mp h
  cases h
  simp only [N_SLICE_THREADS] at hs
  obtain ⟨hl₁, hn₁⟩ := setData_line_kept hhi (by rw [Nat.add_mul_mod_self_left]; decide)
    (by simp only [REG_SLI_EMPHI, SLICE_OFFSET, REG_INT_ENABLE]; omega)
    (by simp only [REG_SLI_EMPHI, SLICE_OFFSET, REG_INT_ACK]; omega)
  obtain ⟨hl₂, hn₂⟩ := setData_line_kept hlow (by rw [Nat.add_mul_mod_self_left]; decide)
    (by simp only [REG_SLI_EMPLOW, SLICE_OFFSET, REG_INT_ENABLE]; omega)
    (by simp only [REG_SLI_EMPLOW, SLICE_OFFSET, REG_INT_ACK]; omega)
  refine ⟨d₂.sliceBits slice, ?_, (hn₁.trans hn₂).trans (raiseStatus_notifies _ _)⟩
  rw [← hl₁, ← hl₂]
  exact raiseStatus_line _ _

theorem masterRequestEnd_line (h : masterRequestEnd.run d = some ((), d')) :
    d'.line = d.line.complete (statusBit REG_STATUS_BIT_SRAM) ∧ Notifies d d' := by
  rw [masterRequestEnd, StateT.run_bind] at h
  obtain ⟨⟨⟨⟩, d₁⟩, hset, h⟩ := Option.bind_eq_some_iff.mp h
  cases h
  obtain ⟨hl, hn⟩ := setData_line_kept hset (by decide) (by decide) (by decide)
  refine ⟨?_, hn.trans (raiseStatus_notifies _ _)⟩
  rw [← hl]
  exact raiseStatus_line _ _

end Rabbits
