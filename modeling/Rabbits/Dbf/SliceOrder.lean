/-
  File:      Rabbits/Dbf/SliceOrder.lean
  Subject:   Two slices of one picture (dbf_device.cpp: filter_slice).

  Whatever the memory holds: the registers say which macroblocks a slice has. Where these lie
  inside a picture that fits below the registers,

  * `filterLocal` -- `filter_slice` writes luma and chroma bytes of the slice's macroblocks only,
    and what it writes depends on those macroblocks, the format and the slice's registers only;
  * `filterSlice_commute` -- **two disjoint slices can be filtered in either order**.
-/
import Rabbits.Dbf.Slices

namespace Rabbits

open Lib

namespace DbfDevice

/-! ## 1. What the registers say -/

def format (d : DbfDevice) : Nat := ((d.mData REG_GLO_CTRL &&& 0x30#8) >>> 4).toNat

def width (d : DbfDevice) : Nat := picWidth d.format / MbWidth

def height (d : DbfDevice) : Nat := picHeight d.format / MbWidth

def offset (d : DbfDevice) (slice : Nat) : Nat :=
  sliceOffset (d.mData (SLICE_OFFSET * slice + REG_SLI_LGTOFF))
    (d.mData (SLICE_OFFSET * slice + REG_SLI_OFFSET))

def length (d : DbfDevice) (slice : Nat) : Nat :=
  sliceLength (d.mData (SLICE_OFFSET * slice + REG_SLI_LGTOFF + 1))
    (d.mData (SLICE_OFFSET * slice + REG_SLI_LGTOFF))

/-- The macroblocks of a slice. -/
def mbs (d : DbfDevice) (slice : Nat) : Set Nat :=
  Set.Ico (d.offset slice) (d.offset slice + d.length slice)

/-- A slice inside a picture that fits below REG_GLO_VER. -/
structure InPicture (d : DbfDevice) (slice : Nat) : Prop where
  slice_lt : slice < N_SLICE_THREADS
  inside : d.offset slice + d.length slice ≤ d.width * d.height
  fits : d.width * d.height * MB_BLOCK_SIZE ≤ REG_GLO_VER

theorem format_lt (d : DbfDevice) : d.format < 4 := by
  have h : ∀ b : Byte, ((b &&& 0x30#8) >>> 4).toNat < 4 := by decide
  exact h _

/-- Of the four formats, 4CIF is the one that does not fit. -/
theorem fits_iff (d : DbfDevice) :
    d.width * d.height * MB_BLOCK_SIZE ≤ REG_GLO_VER ↔ d.format ≠ 3 := by
  have h : ∀ f < 4, picWidth f / MbWidth * (picHeight f / MbWidth) * MB_BLOCK_SIZE ≤ REG_GLO_VER ↔
      f ≠ 3 := by decide
  exact h d.format d.format_lt

theorem width_pos (d : DbfDevice) : 0 < d.width := by
  have h : ∀ f < 4, 0 < picWidth f / MbWidth := by decide
  exact h d.format d.format_lt

variable {d e : DbfDevice} {slice : Nat}

/-- The slice as an area. -/
def InPicture.area (h : d.InPicture slice) : SliceArea where
  slice := slice
  width := d.width
  offset := d.offset slice
  length := d.length slice
  slice_lt := h.slice_lt
  width_pos := d.width_pos
  fits := (Nat.mul_le_mul_right _ h.inside).trans h.fits

/-- Two memories that agree on the format and the slice's registers: the same slice of the same
    picture. -/
structure SameSlice (d e : DbfDevice) (slice : Nat) : Prop where
  format : e.format = d.format
  offset : e.offset slice = d.offset slice
  length : e.length slice = d.length slice

theorem SameSlice.of_regs (hc : e.mData REG_GLO_CTRL = d.mData REG_GLO_CTRL)
    (hr : Set.EqOn e.mData d.mData (sliceRegs slice)) : SameSlice d e slice := by
  have hoff : e.mData (SLICE_OFFSET * slice + REG_SLI_OFFSET) =
      d.mData (SLICE_OFFSET * slice + REG_SLI_OFFSET) := hr ⟨by omega, by
    simp only [SLICE_OFFSET]
    omega⟩
  have hlgt : e.mData (SLICE_OFFSET * slice + REG_SLI_LGTOFF) =
      d.mData (SLICE_OFFSET * slice + REG_SLI_LGTOFF) := hr ⟨by
    simp only [REG_SLI_OFFSET, REG_SLI_LGTOFF]
    omega, by
    simp only [SLICE_OFFSET, REG_SLI_OFFSET, REG_SLI_LGTOFF]
    omega⟩
  have hlen : e.mData (SLICE_OFFSET * slice + REG_SLI_LGTOFF + 1) =
      d.mData (SLICE_OFFSET * slice + REG_SLI_LGTOFF + 1) := hr ⟨by
    simp only [REG_SLI_OFFSET, REG_SLI_LGTOFF]
    omega, by
    simp only [SLICE_OFFSET, REG_SLI_OFFSET, REG_SLI_LGTOFF]
    omega⟩
  constructor
  · rw [DbfDevice.format, hc, DbfDevice.format]
  · rw [DbfDevice.offset, hoff, hlgt, DbfDevice.offset]
  · rw [DbfDevice.length, hlen, hlgt, DbfDevice.length]

theorem SameSlice.width (h : SameSlice d e slice) : e.width = d.width := by
  rw [DbfDevice.width, h.format, DbfDevice.width]

theorem SameSlice.mbs (h : SameSlice d e slice) : e.mbs slice = d.mbs slice := by
  rw [DbfDevice.mbs, h.offset, h.length, DbfDevice.mbs]

theorem SameSlice.inPicture (h : SameSlice d e slice) (hd : d.InPicture slice) :
    e.InPicture slice where
  slice_lt := hd.slice_lt
  inside := by
    rw [h.offset, h.length, h.width, DbfDevice.height, h.format]
    exact hd.inside
  fits := (e.fits_iff).mpr (h.format ▸ (d.fits_iff).mp hd.fits)

/-- The device once `filter_slice` has set the width. -/
def sized (d : DbfDevice) : DbfDevice := { d with picWidthInMbs := d.width }

end DbfDevice

/-! ## 2. The head of filter_slice -/

/-- The rest of `filter_slice` once its head has read the registers. -/
def SliceArea.body (S : SliceArea) : DbfM Nat := do
  filterMbs S.slice S.width S.offset S.length
  return S.offset + S.length

theorem SliceArea.body_runs (S : SliceArea) : S.Runs S.body :=
  Touches.bind S.filterMbs_runs fun _ => .pure _

theorem getFormat_run (d : DbfDevice) : getFormat.run d = some (d.format, d) := by
  rw [getFormat, run_bind_of (getData_run (by decide) d)]
  rfl

theorem getPicWidthInMbs_run (d : DbfDevice) : getPicWidthInMbs.run d = some (d.width, d) := by
  rw [getPicWidthInMbs, run_bind_of (getFormat_run d)]
  rfl

theorem getPicHeightInMbs_run (d : DbfDevice) : getPicHeightInMbs.run d = some (d.height, d) := by
  rw [getPicHeightInMbs, run_bind_of (getFormat_run d)]
  rfl

section Registers

variable {slice : Nat} (hs : slice < N_SLICE_THREADS) (d : DbfDevice)
include hs

/-- A register of a slice is inside the memory. -/
theorem getReg_run {reg : Nat} (hreg : reg < REG_NSLICES) :
    (getData (SLICE_OFFSET * slice + reg)).run d = some (d.mData (SLICE_OFFSET * slice + reg), d) :=
  getData_run (by
    simp only [SLICE_OFFSET, N_SLICE_THREADS, REG_NSLICES, FPGA_CHAR_SIZE] at *
    omega) d

theorem getOffset_run : (getOffset slice).run d = some (d.offset slice, d) := by
  rw [getOffset, run_bind_of (getReg_run hs d (by decide)),
    run_bind_of (getReg_run hs d (by decide)), StateT.run_pure]
  rfl

theorem getSliceLength_run : (getSliceLength slice).run d = some (d.length slice, d) := by
  rw [getSliceLength, Nat.add_assoc, run_bind_of (getReg_run hs d (by decide)),
    run_bind_of (getReg_run hs d (by decide)), StateT.run_pure]
  rfl

end Registers

theorem filterSlice_run {d : DbfDevice} {slice : Nat} (h : d.InPicture slice) :
    (filterSlice slice).run d = h.area.body.run d.sized := by
  have hset : (modify fun d' : DbfDevice => { d' with picWidthInMbs := d.width } : DbfM PUnit).run d =
      some ((), d.sized) := rfl
  rw [filterSlice, run_bind_of (getPicWidthInMbs_run d), run_bind_of hset,
    run_bind_of (getPicHeightInMbs_run d.sized), run_bind_of (getSliceLength_run h.slice_lt d.sized),
    run_bind_of (getOffset_run h.slice_lt d.sized)]
  rfl

/-! ## 3. One slice, and two -/

/-- `filter_slice` writes only the slice's samples, and what it writes depends only on what the
    slice may read. -/
structure FilterLocal (d : DbfDevice) (slice : Nat) : Prop where
  writes : ∀ n d', (filterSlice slice).run d = some (n, d') →
    ∀ a ∉ mbSamples (d.mbs slice), d'.mData a = d.mData a
  reads : ∀ e : DbfDevice, Set.EqOn e.mData d.mData (sliceReads slice (d.mbs slice)) →
    ∃ n d' e', (filterSlice slice).run d = some (n, d') ∧ (filterSlice slice).run e = some (n, e') ∧
      Set.EqOn e'.mData d'.mData (mbSamples (d.mbs slice))

theorem filterLocal {d : DbfDevice} {slice : Nat} (h : d.InPicture slice) : FilterLocal d slice where
  writes n d' hrun a ha := by
    rw [filterSlice_run h] at hrun
    exact (h.area.body_runs.keeps rfl hrun).mem ha
  reads e he := by
    have hsame : d.SameSlice e slice :=
      .of_regs (he (.inr (.inl rfl))) fun a ha => he (.inr (.inr ha))
    have hbody : (hsame.inPicture h).area.body = h.area.body := by
      simp only [SliceArea.body, DbfDevice.InPicture.area, hsame.width, hsame.offset, hsame.length]
    rw [filterSlice_run h, filterSlice_run (hsame.inPicture h), hbody]
    obtain ⟨n, e', d', hre, hrd, -, -, hR⟩ :=
      h.area.body_runs (s := e.sized) (t := d.sized) hsame.width rfl he
    exact ⟨n, d', e', hrd, hre, hR.mono (mbSamples_subset_reads slice _)⟩

/-- A slice of a device whose samples outside it may have changed, with the width set. -/
theorem filterSlice_run_kept {d d' : DbfDevice} {T : SliceArea} {slice : Nat}
    (h : d.InPicture slice) (hk : dbfLayout.Keeps T.samples d.sized d')
    (hd : Disjoint T.samples h.area.reads) :
    (filterSlice slice).run d' = h.area.body.run d' := by
  have hmem := hk.eqOn hd
  have hsame : d.SameSlice d' slice :=
    .of_regs (hmem (.inr (.inl rfl))) fun a ha => hmem (.inr (.inr ha))
  have hbody : (hsame.inPicture h).area.body = h.area.body := by
    simp only [SliceArea.body, DbfDevice.InPicture.area, hsame.width, hsame.offset, hsame.length]
  have hsized : d'.sized = d' := by
    have hw : d'.picWidthInMbs = d.width := congrArg (fun r : DbfDevice => r.picWidthInMbs) hk.rest
    rw [DbfDevice.sized, hsame.width, ← hw]
  rw [filterSlice_run (hsame.inPicture h), hbody, hsized]

/-- **Two disjoint slices can be filtered in either order**: both orders run and leave the device
    in one state. -/
theorem filterSlice_commute (d : DbfDevice) (s₁ s₂ : Nat) (h₁ : d.InPicture s₁)
    (h₂ : d.InPicture s₂) (hdisj : Disjoint (d.mbs s₁) (d.mbs s₂)) :
    (∃ n₁ n₂ d₁ d₂ d',
      (filterSlice s₁).run d = some (n₁, d₁) ∧ (filterSlice s₂).run d₁ = some (n₂, d') ∧
      (filterSlice s₂).run d = some (n₂, d₂) ∧ (filterSlice s₁).run d₂ = some (n₁, d')) ∧
    FilterLocal d s₁ ∧ FilterLocal d s₂ := by
  refine ⟨?_, filterLocal h₁, filterLocal h₂⟩
  have hd₁₂ : Disjoint h₁.area.samples h₂.area.reads := SliceArea.disjoint_samples hdisj
  have hd₂₁ : Disjoint h₂.area.samples h₁.area.reads := SliceArea.disjoint_samples hdisj.symm
  obtain ⟨n₁, n₂, d₁, d₂, d', hr₁, hr₂, hr₂', hr₁'⟩ :=
    Touches.commute (P := fun e : DbfDevice => e.picWidthInMbs = d.width)
      h₁.area.body_runs h₂.area.body_runs (mbSamples_subset_reads _ _)
      (mbSamples_subset_reads _ _) hd₁₂ hd₂₁ (s := d.sized) rfl
  have hk₁ := h₁.area.body_runs.keeps (s := d.sized) rfl hr₁
  have hk₂ := h₂.area.body_runs.keeps (s := d.sized) rfl hr₂'
  refine ⟨n₁, n₂, d₁, d₂, d', ?_, ?_, ?_, ?_⟩
  · rw [filterSlice_run h₁, hr₁]
  · rw [filterSlice_run_kept h₂ hk₁ hd₁₂, hr₂]
  · rw [filterSlice_run h₂, hr₂']
  · rw [filterSlice_run_kept h₁ hk₂ hd₂₁, hr₁']

/-- A picture of format SQCIF with two slices: macroblocks 0 and 1, and macroblocks 2 to 4. -/
def twoSlices : DbfDevice :=
  (((DbfDevice.new.poke REG_SLI_LGTOFF 0x20#8).poke (SLICE_OFFSET + REG_SLI_OFFSET) 2#8).poke
    (SLICE_OFFSET + REG_SLI_LGTOFF) 0x30#8)

theorem filterSlice_commute_twoSlices :
    (twoSlices.length 0 = 2 ∧ twoSlices.offset 1 = 2 ∧ twoSlices.length 1 = 3) ∧
    (∃ n₁ n₂ d₁ d₂ d',
      (filterSlice 0).run twoSlices = some (n₁, d₁) ∧ (filterSlice 1).run d₁ = some (n₂, d') ∧
      (filterSlice 1).run twoSlices = some (n₂, d₂) ∧ (filterSlice 0).run d₂ = some (n₁, d')) ∧
    FilterLocal twoSlices 0 ∧ FilterLocal twoSlices 1 := by
  have h0 : twoSlices.offset 0 + twoSlices.length 0 = 2 := by decide
  have h1 : twoSlices.offset 1 = 2 := by decide
  refine ⟨⟨by decide, by decide, by decide⟩, filterSlice_commute twoSlices 0 1
    ⟨by decide, by decide, by decide⟩ ⟨by decide, by decide, by decide⟩ ?_⟩
  rw [DbfDevice.mbs, DbfDevice.mbs, h0, h1]
  exact Set.disjoint_left.mpr fun a ha hb => absurd (ha.2.trans_le hb.1) (lt_irrefl a)

end Rabbits
