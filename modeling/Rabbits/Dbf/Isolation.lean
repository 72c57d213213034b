/-
  File:      Rabbits/Dbf/Isolation.lean
  Subject:   The slices of one picture side by side (dbf_device.cpp: set_data, process_slice,
             filter_slice, clear_slice).

  The CPU writes macroblocks and registers of one slice while the threads clear, filter and end
  others; `PicWidthInMbs`, the status and the interrupt belong to all of them.

  * `SlicePlan` -- which macroblocks belong to which slice; `Part` -- and the bytes that go with them;
  * `Planned` -- a step that keeps to the plan: no write of the format, and a slice that is cleared or
    filtered is inside its macroblocks;
  * `Untouched`, `SameBytes` -- what code of another slice, and of this one, does to its bytes;
  * `slice_isolated` -- **a slice sees of a run its own steps only**;
  * `pictures_agree` -- **the picture does not depend on how the slices' steps interleave**.
-/
import Rabbits.Lib.Isolation
import Rabbits.Dbf.Interrupts
import Mathlib.Tactic.FinCases

namespace Rabbits

open Lib

/-! ## 1. The plan of a picture -/

/-- The macroblocks of each slice, up to `behind`; no two slices share one. -/
structure SlicePlan where
  first : Fin N_SLICE_THREADS → Nat
  behind : Fin N_SLICE_THREADS → Nat
  apart : ∀ i j, i ≠ j → Disjoint (Set.Ico (first i) (behind i)) (Set.Ico (first j) (behind j))
  fits : ∀ i, behind i * MB_BLOCK_SIZE ≤ REG_GLO_VER

namespace SlicePlan

variable (p : SlicePlan) (i : Fin N_SLICE_THREADS)

def mbs : Set Nat := Set.Ico (p.first i) (p.behind i)

/-- The macroblocks and the registers of a slice. -/
def Part (a : Nat) : Prop :=
  (p.first i ≤ a / MB_BLOCK_SIZE ∧ a / MB_BLOCK_SIZE < p.behind i) ∨
    (REG_SLI_OFFSET + SLICE_OFFSET * i ≤ a ∧ a < REG_SLI_OFFSET + SLICE_OFFSET * (i + 1))

instance (a : Nat) : Decidable (p.Part i a) := by unfold Part; infer_instance

/-- The steps of a slice: the writes to its part, its event and its end. -/
def shown : DbfRunEvent → Bool
  | .setData address _ => p.Part i address
  | .deliver e => e = .slice i
  | .sliceEnd slice => slice = i
  | .copyEnd => false

/-- The steps of a slice keep to the plan: the format stays, and the registers of a slice that is
    cleared or filtered are inside its macroblocks. -/
def Planned (s : DbfRun) : DbfRunEvent → Prop
  | .setData address _ => address ≠ REG_GLO_CTRL ∧ ∀ j : Fin N_SLICE_THREADS,
      address = REG_SLI_CLEAR + SLICE_OFFSET * j → s.dbf.mbs j ⊆ p.mbs j
  | .deliver (.slice j) => s.filtering j = false → s.dbf.InPicture j ∧ s.dbf.mbs j ⊆ p.mbs j
  | .deliver .irqUpdate => True
  | .deliver .sendSram => True
  | .sliceEnd _ => True
  | .copyEnd => True

variable {p i} {j : Fin N_SLICE_THREADS} {a : Nat}

theorem Part.lt_of_mb (h : p.first i ≤ a / MB_BLOCK_SIZE ∧ a / MB_BLOCK_SIZE < p.behind i) :
    a < REG_GLO_VER := by
  have hfits := p.fits i
  simp only [MB_BLOCK_SIZE, REG_GLO_VER] at *
  omega

/-- No byte is part of two slices. -/
theorem Part.eq (hi : p.Part i a) (hj : p.Part j a) : i = j := by
  by_contra hne
  rcases hi with hi | hi
  · rcases hj with hj | hj
    · exact Set.disjoint_left.mp (p.apart i j hne) hi hj
    · have := Part.lt_of_mb hi
      simp only [REG_GLO_VER, REG_SLI_OFFSET] at *
      omega
  · rcases hj with hj | hj
    · have := Part.lt_of_mb hj
      simp only [REG_GLO_VER, REG_SLI_OFFSET] at *
      omega
    · have hv : i.val ≠ j.val := fun h => hne (Fin.ext h)
      simp only [REG_SLI_OFFSET, SLICE_OFFSET] at *
      omega

/-- A register of a slice. -/
theorem part_reg (i : Fin N_SLICE_THREADS) {reg : Nat} (hlo : REG_SLI_OFFSET ≤ reg)
    (hhi : reg < REG_SLI_OFFSET + SLICE_OFFSET) : p.Part i (reg + SLICE_OFFSET * i) := by
  refine .inr ⟨by omega, ?_⟩
  rw [Nat.mul_add_one]
  omega

/-- What a slice shares with others is no part of it. -/
theorem Part.ne_shared (h : p.Part i a) : a ≠ REG_GLO_CTRL ∧ a ≠ REG_FRA_SRAM ∧ a ≠ REG_NSLICES ∧
    a ≠ REG_INT_ACK ∧ a ≠ REG_INT_STATUS ∧ a ≠ REG_INT_ENABLE ∧ a ≤ FPGA_CHAR_SIZE := by
  have hi := i.isLt
  rcases h with h | h
  · have := Part.lt_of_mb h
    simp only [REG_GLO_VER, REG_GLO_CTRL, REG_FRA_SRAM, REG_NSLICES, REG_INT_ACK, REG_INT_STATUS,
      REG_INT_ENABLE, FPGA_CHAR_SIZE] at *
    omega
  · simp only [REG_SLI_OFFSET, SLICE_OFFSET, N_SLICE_THREADS, REG_GLO_CTRL, REG_FRA_SRAM,
      REG_NSLICES, REG_INT_ACK, REG_INT_STATUS, REG_INT_ENABLE, FPGA_CHAR_SIZE] at *
    omega

/-- What a slice may read. -/
def Sees (p : SlicePlan) (i : Fin N_SLICE_THREADS) (a : Nat) : Prop := p.Part i a ∨ a = REG_GLO_CTRL

theorem sliceReads_sees {mbs : Set Nat} (h : mbs ⊆ p.mbs i) (ha : a ∈ sliceReads i mbs) :
    p.Sees i a := by
  rcases ha with ha | rfl | ha
  · exact .inl (.inl (h ha))
  · exact .inr rfl
  · exact .inl (.inr ha)

end SlicePlan

/-! ## 2. What code does to the bytes of a slice -/

variable {p : SlicePlan} {i j : Fin N_SLICE_THREADS} {d d' d'' e e' : DbfDevice}

/-- Code that leaves what a slice sees, and does not notify its event. -/
structure Untouched (p : SlicePlan) (i : Fin N_SLICE_THREADS) (d d' : DbfDevice) : Prop where
  mem : ∀ a, p.Sees i a → d'.mData a = d.mData a
  quiet : ∃ evs, d'.notified = evs ++ d.notified ∧ .slice i ∉ evs

/-- Two devices that a slice sees the same bytes of. -/
def SameBytes (p : SlicePlan) (i : Fin N_SLICE_THREADS) (d e : DbfDevice) : Prop :=
  ∀ a, p.Sees i a → e.mData a = d.mData a

/-- Code that does the same to what a slice sees of two devices. -/
structure AlikeAfter (p : SlicePlan) (i : Fin N_SLICE_THREADS) (d d' e e' : DbfDevice) : Prop where
  mem : SameBytes p i d' e'
  events : ∃ evs evs', d'.notified = evs ++ d.notified ∧ e'.notified = evs' ++ e.notified ∧
    (.slice i ∈ evs ↔ .slice i ∈ evs')

theorem Untouched.refl (p : SlicePlan) (i : Fin N_SLICE_THREADS) (d : DbfDevice) : Untouched p i d d :=
  ⟨fun _ _ => rfl, [], rfl, List.not_mem_nil⟩

theorem Untouched.trans (h : Untouched p i d d') (h' : Untouched p i d' d'') : Untouched p i d d'' := by
  obtain ⟨hmem, evs, hevs, hq⟩ := h
  obtain ⟨hmem', evs', hevs', hq'⟩ := h'
  refine ⟨fun a ha => (hmem' a ha).trans (hmem a ha), evs' ++ evs, ?_, ?_⟩
  · rw [hevs', hevs, List.append_assoc]
  · rw [List.mem_append]
    exact not_or.mpr ⟨hq', hq⟩

theorem untouched_poke (d : DbfDevice) {a : Nat} (ha : ¬ p.Sees i a) (v : Byte) :
    Untouched p i d (d.poke a v) :=
  ⟨fun b hb => Function.update_of_ne (fun h : b = a => ha (h ▸ hb)) _ _, [], rfl, List.not_mem_nil⟩

theorem untouched_notify (d : DbfDevice) {ev : DbfEvent} (hev : ev ≠ .slice i) :
    Untouched p i d (d.notify ev) :=
  ⟨fun _ _ => rfl, [ev], rfl, fun h => hev (List.mem_singleton.mp h).symm⟩

theorem untouched_setIrq (d : DbfDevice) (stat : Bool) : Untouched p i d (d.setIrq stat) :=
  ⟨fun _ _ => rfl, [.irqUpdate], rfl, fun h => by cases List.mem_singleton.mp h⟩

theorem untouched_pokes {addrs : List Nat} (f : Nat → Byte) (d : DbfDevice)
    (h : ∀ a ∈ addrs, ¬ p.Sees i a) :
    Untouched p i d (addrs.foldl (fun d a => d.poke a (f a)) d) := by
  induction addrs generalizing d with
  | nil => exact .refl p i d
  | cons a addrs ih =>
      exact (untouched_poke d (h a List.mem_cons_self) _).trans
        (ih _ fun b hb => h b (List.mem_cons_of_mem a hb))

/-- Code that leaves a slice alone and runs on one of two devices only. -/
theorem Untouched.sameBytes (h : Untouched p i d d') (hde : SameBytes p i d e) : SameBytes p i d' e :=
  fun a ha => (hde a ha).trans (h.mem a ha).symm

/-- Code that notifies nothing for the slice. -/
theorem alikeAfter_of_quiet (hmem : SameBytes p i d' e') (hd : d'.notified = d.notified)
    (he : e'.notified = e.notified) : AlikeAfter p i d d' e e' :=
  ⟨hmem, [], [], hd, he, Iff.rfl⟩

theorem AlikeAfter.trans (h : AlikeAfter p i d d' e e') {e'' : DbfDevice}
    (h' : AlikeAfter p i d' d'' e' e'') : AlikeAfter p i d d'' e e'' := by
  obtain ⟨-, evs, evs', hd, he, hiff⟩ := h
  obtain ⟨hmem, fvs, fvs', hd', he', hiff'⟩ := h'
  refine ⟨hmem, fvs ++ evs, fvs' ++ evs', ?_, ?_, ?_⟩
  · rw [hd', hd, List.append_assoc]
  · rw [he', he, List.append_assoc]
  · rw [List.mem_append, List.mem_append, hiff, hiff']

/-- Code that leaves the slice alone, on both devices. -/
theorem alikeAfter_of_untouched (h : SameBytes p i d e) (hd : Untouched p i d d')
    (he : Untouched p i e e') : AlikeAfter p i d d' e e' := by
  obtain ⟨hmem, evs, hevs, hq⟩ := hd
  obtain ⟨hmem', evs', hevs', hq'⟩ := he
  exact ⟨fun a ha => (hmem' a ha).trans ((h a ha).trans (hmem a ha).symm), evs, evs', hevs, hevs',
    iff_of_false hq hq'⟩

theorem SameBytes.poke (h : SameBytes p i d e) (a : Nat) (v : Byte) :
    SameBytes p i (d.poke a v) (e.poke a v) := by
  intro b hb
  show Function.update e.mData a v b = Function.update d.mData a v b
  rcases eq_or_ne b a with rfl | hne
  · rw [Function.update_self, Function.update_self]
  · rw [Function.update_of_ne hne, Function.update_of_ne hne, h b hb]

theorem SameBytes.pokes (f : Nat → Byte) (addrs : List Nat) (h : SameBytes p i d e) :
    SameBytes p i (addrs.foldl (fun d a => d.poke a (f a)) d)
      (addrs.foldl (fun d a => d.poke a (f a)) e) := by
  induction addrs generalizing d e with
  | nil => exact h
  | cons a addrs ih => exact ih (h.poke a (f a))

/-! ## 3. The writes -/

/-- The slice that a register belongs to. -/
theorem find_reg {reg : Nat} (i : Fin N_SLICE_THREADS) :
    (List.finRange N_SLICE_THREADS).find?
      (fun k : Fin N_SLICE_THREADS => reg + SLICE_OFFSET * i = reg + SLICE_OFFSET * k) = some i := by
  have h : ∀ i : Fin N_SLICE_THREADS, (List.finRange N_SLICE_THREADS).find?
      (fun k : Fin N_SLICE_THREADS => decide (i = k)) = some i := by decide
  rw [← h i]
  congr 1
  funext k
  refine decide_eq_decide.mpr ⟨fun hik => Fin.ext ?_, fun hik => by rw [hik]⟩
  simp only [SLICE_OFFSET] at hik
  omega

theorem find_reg_none {a reg : Nat} (h : ∀ k : Fin N_SLICE_THREADS, a ≠ reg + SLICE_OFFSET * k) :
    (List.finRange N_SLICE_THREADS).find?
      (fun k : Fin N_SLICE_THREADS => a = reg + SLICE_OFFSET * k) = none :=
  List.find?_eq_none.mpr fun k _ => by simpa using h k

theorem written_fill (d : DbfDevice) (k : Fin N_SLICE_THREADS) (v : Byte) :
    d.written (REG_SLI_FILLOW + SLICE_OFFSET * k) v = d.notify (.slice k) := by
  have hack : REG_SLI_FILLOW + SLICE_OFFSET * k ≠ REG_INT_ACK := by
    have := k.isLt
    simp only [REG_SLI_FILLOW, SLICE_OFFSET, REG_INT_ACK, N_SLICE_THREADS] at *
    omega
  rw [DbfDevice.written, if_neg hack, find_reg]

theorem written_clear (d : DbfDevice) (k : Fin N_SLICE_THREADS) (v : Byte) :
    d.written (REG_SLI_CLEAR + SLICE_OFFSET * k) v =
      (d.clearSlice k).poke (REG_SLI_CLEAR + SLICE_OFFSET * k) 0#8 := by
  have hk := k.isLt
  have hack : REG_SLI_CLEAR + SLICE_OFFSET * k ≠ REG_INT_ACK := by
    simp only [REG_SLI_CLEAR, SLICE_OFFSET, REG_INT_ACK, N_SLICE_THREADS] at *
    omega
  have hfill : ∀ l : Fin N_SLICE_THREADS,
      REG_SLI_CLEAR + SLICE_OFFSET * k ≠ REG_SLI_FILLOW + SLICE_OFFSET * l := fun l => by
    simp only [REG_SLI_CLEAR, SLICE_OFFSET, REG_SLI_FILLOW] at *
    omega
  rw [DbfDevice.written, if_neg hack, find_reg_none hfill, find_reg]

theorem written_plain (d : DbfDevice) {a : Nat} (hack : a ≠ REG_INT_ACK)
    (hfill : ∀ k : Fin N_SLICE_THREADS, a ≠ REG_SLI_FILLOW + SLICE_OFFSET * k)
    (hclear : ∀ k : Fin N_SLICE_THREADS, a ≠ REG_SLI_CLEAR + SLICE_OFFSET * k) (v : Byte) :
    d.written a v = if a = REG_FRA_SRAM ∧ v = 1#8 then d.notify .sendSram else d := by
  rw [DbfDevice.written, if_neg hack, find_reg_none hfill, find_reg_none hclear]

/-- The registers that say where a slice is. -/
theorem SameBytes.range (h : SameBytes p i d e) :
    e.offset i = d.offset i ∧ e.length i = d.length i := by
  have hreg {reg : Nat} (hlo : REG_SLI_OFFSET ≤ reg) (hhi : reg < REG_SLI_OFFSET + SLICE_OFFSET) :
      e.mData (SLICE_OFFSET * i + reg) = d.mData (SLICE_OFFSET * i + reg) := by
    rw [Nat.add_comm]
    exact h _ (.inl (SlicePlan.part_reg i hlo hhi))
  have hoff := @hreg REG_SLI_OFFSET (by decide) (by decide)
  have hlgt := @hreg REG_SLI_LGTOFF (by decide) (by decide)
  have hlen := @hreg (REG_SLI_LGTOFF + 1) (by decide) (by decide)
  rw [← Nat.add_assoc] at hlen
  constructor
  · rw [DbfDevice.offset, hoff, hlgt, DbfDevice.offset]
  · rw [DbfDevice.length, hlgt]
    exact congrArg (sliceLength · _) hlen

theorem poke_notified (d : DbfDevice) (a : Nat) (v : Byte) : (d.poke a v).notified = d.notified := rfl

theorem clearSlice_eq (d : DbfDevice) (slice : Nat) : d.clearSlice slice =
    (List.range' (d.offset slice * MB_BLOCK_SIZE) (d.length slice * MB_BLOCK_SIZE)).foldl
      (fun d a => d.poke a (clearedByte a)) d := rfl

theorem clearSlice_notified (d : DbfDevice) (slice : Nat) :
    (d.clearSlice slice).notified = d.notified := by
  rw [clearSlice_eq]
  generalize List.range' _ _ = addrs
  induction addrs generalizing d with
  | nil => rfl
  | cons a addrs ih => exact ih (d.poke a (clearedByte a))

/-- The write of another slice clears nothing of this one. -/
theorem clearSlice_untouched (hne : j ≠ i) (hmbs : d.mbs j ⊆ p.mbs j) :
    Untouched p i d (d.clearSlice j) := by
  rw [clearSlice_eq]
  refine untouched_pokes _ d fun a ha => ?_
  obtain ⟨hlo, hhi⟩ := List.mem_range'_1.mp ha
  have hpart : p.Part j a := by
    refine .inl (hmbs ⟨?_, ?_⟩)
    · exact (Nat.le_div_iff_mul_le (by decide)).mpr hlo
    · rw [← Nat.add_mul] at hhi
      exact Nat.div_lt_of_lt_mul (by rw [Nat.mul_comm]; exact hhi)
  rintro (hi | rfl)
  · exact hne (SlicePlan.Part.eq hpart hi)
  · exact hpart.ne_shared.1 rfl

/-- **A write to the part of a slice.** -/
theorem setData_alike {a : Nat} (ha : p.Part i a) (v : Byte) (h : SameBytes p i d e) :
    ∃ d' e', (setData a v).run d = some ((), d') ∧ (setData a v).run e = some ((), e') ∧
      AlikeAfter p i d d' e e' := by
  obtain ⟨-, hfra, hnslices, hack, hstatus, henable, hsize⟩ := ha.ne_shared
  have hrun (d : DbfDevice) : (setData a v).run d = some ((), (d.poke a v).written a v) := by
    simp [StateT.run, setData, Nat.not_lt.mpr hsize, hstatus, hnslices, henable]
  refine ⟨_, _, hrun d, hrun e, ?_⟩
  have hpoke := h.poke a v
  by_cases hfill : ∃ k : Fin N_SLICE_THREADS, a = REG_SLI_FILLOW + SLICE_OFFSET * k
  · obtain ⟨k, rfl⟩ := hfill
    rw [written_fill, written_fill]
    exact ⟨hpoke, [.slice k], [.slice k], rfl, rfl, Iff.rfl⟩
  by_cases hclear : ∃ k : Fin N_SLICE_THREADS, a = REG_SLI_CLEAR + SLICE_OFFSET * k
  · obtain ⟨k, rfl⟩ := hclear
    obtain rfl : i = k := SlicePlan.Part.eq ha (SlicePlan.part_reg k (by decide) (by decide))
    rw [written_clear, written_clear]
    refine alikeAfter_of_quiet (SameBytes.poke ?_ _ _)
      (by rw [poke_notified, clearSlice_notified, poke_notified])
      (by rw [poke_notified, clearSlice_notified, poke_notified])
    obtain ⟨hoff, hlen⟩ := hpoke.range
    rw [clearSlice_eq, clearSlice_eq, hoff, hlen]
    exact hpoke.pokes _ _
  · rw [written_plain _ hack (not_exists.mp hfill) (not_exists.mp hclear),
      written_plain _ hack (not_exists.mp hfill) (not_exists.mp hclear),
      if_neg fun hs => hfra hs.1, if_neg fun hs => hfra hs.1]
    exact alikeAfter_of_quiet hpoke rfl rfl

/-- What the slices share is not seen by one of them, the format apart. -/
theorem not_sees {a : Nat} (ha : ¬ p.Part i a) (hctrl : a ≠ REG_GLO_CTRL) : ¬ p.Sees i a :=
  not_or.mpr ⟨ha, hctrl⟩

theorem not_sees_status : ¬ p.Sees i REG_INT_STATUS :=
  not_sees (fun h => h.ne_shared.2.2.2.2.1 rfl) (by decide)

theorem not_sees_enable : ¬ p.Sees i REG_INT_ENABLE :=
  not_sees (fun h => h.ne_shared.2.2.2.2.2.1 rfl) (by decide)

theorem setIntEnable_untouched (d : DbfDevice) (v : Byte) : Untouched p i d (d.setIntEnable v) := by
  unfold DbfDevice.setIntEnable
  dsimp only
  refine Untouched.trans ?_ (untouched_poke _ not_sees_enable _)
  split_ifs
  · exact untouched_setIrq d _
  · exact untouched_setIrq d _
  · exact .refl p i d

theorem setIntAck_untouched (d : DbfDevice) (v : Byte) : Untouched p i d (d.setIntAck v) := by
  unfold DbfDevice.setIntAck
  dsimp only
  split_ifs
  all_goals
    first
    | exact .refl p i d
    | exact untouched_poke d not_sees_status _
    | exact (untouched_poke d not_sees_status _).trans (untouched_setIrq _ _)

/-- **A write elsewhere**: the clear of another slice stays in its macroblocks. -/
theorem setData_untouched {a : Nat} (ha : ¬ p.Part i a) (hctrl : a ≠ REG_GLO_CTRL)
    (hclears : ∀ k : Fin N_SLICE_THREADS, a = REG_SLI_CLEAR + SLICE_OFFSET * k → d.mbs k ⊆ p.mbs k)
    {v : Byte} (h : (setData a v).run d = some ((), d')) : Untouched p i d d' := by
  simp only [StateT.run, setData] at h
  split_ifs at h with hsize hro hen
  · cases h
    exact .refl p i d
  · cases h
    exact setIntEnable_untouched d v
  · cases h
    have hpoke := untouched_poke d (not_sees ha hctrl) v
    refine hpoke.trans ?_
    by_cases hack : a = REG_INT_ACK
    · rw [DbfDevice.written, if_pos hack]
      exact setIntAck_untouched _ v
    by_cases hfill : ∃ k : Fin N_SLICE_THREADS, a = REG_SLI_FILLOW + SLICE_OFFSET * k
    · obtain ⟨k, rfl⟩ := hfill
      rw [written_fill]
      refine untouched_notify _ fun hk => ha ?_
      cases hk
      exact SlicePlan.part_reg i (by decide) (by decide)
    by_cases hclear : ∃ k : Fin N_SLICE_THREADS, a = REG_SLI_CLEAR + SLICE_OFFSET * k
    · obtain ⟨k, rfl⟩ := hclear
      have hne : k ≠ i := fun hk => ha (hk ▸ SlicePlan.part_reg k (by decide) (by decide))
      obtain ⟨hoff, hlen⟩ := range_poke_clear d k k v
      rw [written_clear]
      refine (clearSlice_untouched hne ?_).trans (untouched_poke _ (not_sees ha hctrl) _)
      rw [DbfDevice.mbs, hoff, hlen]
      exact hclears k rfl
    · rw [written_plain _ hack (not_exists.mp hfill) (not_exists.mp hclear)]
      split
      · exact untouched_notify _ (by simp)
      · exact .refl p i _

/-! ## 4. The threads -/

/-- **The filter of another slice.** -/
theorem filterSlice_untouched (hne : j ≠ i) (hin : d.InPicture j) (hmbs : d.mbs j ⊆ p.mbs j) {n : Nat}
    (h : (filterSlice j).run d = some (n, d')) : Untouched p i d d' := by
  rw [filterSlice_run hin] at h
  have hk := hin.area.body_runs.keeps (s := d.sized) rfl h
  have hnot : d'.notified = d.notified := (congrArg DbfDevice.notified hk.rest :)
  refine ⟨fun a ha => hk.mem fun hs => ?_, [], hnot, List.not_mem_nil⟩
  have hpart : p.Part j a := .inl (hmbs hs.1)
  rcases ha with ha | rfl
  · exact hne (SlicePlan.Part.eq hpart ha)
  · exact hpart.ne_shared.1 rfl

/-- **The filter of this slice.** -/
theorem filterSlice_alike (h : SameBytes p i d e) (hin : d.InPicture i) (hmbs : d.mbs i ⊆ p.mbs i)
    {n : Nat} (hrun : (filterSlice i).run d = some (n, d')) :
    ∃ e', (filterSlice i).run e = some (n, e') ∧ AlikeAfter p i d d' e e' := by
  have hreads : Set.EqOn e.mData d.mData (sliceReads i (d.mbs i)) := fun a ha =>
    h a (SlicePlan.sliceReads_sees hmbs ha)
  have hsame : d.SameSlice e i :=
    .of_regs (hreads (.inr (.inl rfl))) fun a ha => hreads (.inr (.inr ha))
  obtain ⟨n', d₁, e', hd, he, hsamples⟩ := (filterLocal hin).reads e hreads
  cases hrun.symm.trans hd
  rw [filterSlice_run hin] at hd
  have hkd := hin.area.body_runs.keeps (s := d.sized) rfl hd
  have he' := he
  rw [filterSlice_run (hsame.inPicture hin)] at he'
  have hke := (hsame.inPicture hin).area.body_runs.keeps (s := e.sized) rfl he'
  refine ⟨e', he, alikeAfter_of_quiet (fun a ha => ?_) (congrArg DbfDevice.notified hkd.rest :)
    (congrArg DbfDevice.notified hke.rest :)⟩
  by_cases hs : a ∈ mbSamples (d.mbs i)
  · exact hsamples hs
  · have hse : a ∉ mbSamples (e.mbs i) := by rwa [hsame.mbs]
    exact (hke.mem hse).trans ((h a ha).trans (hkd.mem hs).symm)

theorem raiseStatus_untouched (d : DbfDevice) (bits : Byte) : Untouched p i d (d.raiseStatus bits) := by
  unfold DbfDevice.raiseStatus
  dsimp only
  have hpoke := untouched_poke (p := p) d (not_sees_status (i := i)) (d.mData REG_INT_STATUS ||| bits)
  split
  · exact (hpoke.trans (untouched_poke _ not_sees_status _)).trans (untouched_setIrq _ _)
  · exact hpoke

/-- The end of a slice, in its three parts. -/
theorem processSliceEnd_cases (h : (processSliceEnd j).run d = some ((), d')) :
    ∃ d₁ d₂, (setData (REG_SLI_EMPHI + SLICE_OFFSET * j) (BitVec.ofNat 8 (d.length j >>> 8))).run d =
        some ((), d₁) ∧
      (setData (REG_SLI_EMPLOW + SLICE_OFFSET * j) (BitVec.ofNat 8 (d.length j))).run d₁ =
        some ((), d₂) ∧ d' = d₂.raiseStatus (d₂.sliceBits j) := by
  rw [processSliceEnd, run_bind_of (getSliceLength_run j.isLt d), StateT.run_bind] at h
  obtain ⟨⟨⟨⟩, d₁⟩, hhi, h⟩ := Option.bind_eq_some_iff.mp h
  rw [StateT.run_bind] at h
  obtain ⟨⟨⟨⟩, d₂⟩, hlow, h⟩ := Option.bind_eq_some_iff.mp h
  cases h
  exact ⟨d₁, d₂, hhi, hlow, rfl⟩

/-- A register of a slice that is not CLEAR clears nothing. -/
theorem ne_clear {reg : Nat} (hlo : REG_SLI_OFFSET ≤ reg) (hhi : reg < REG_SLI_OFFSET + SLICE_OFFSET)
    (hne : reg ≠ REG_SLI_CLEAR) (j k : Fin N_SLICE_THREADS) :
    reg + SLICE_OFFSET * j ≠ REG_SLI_CLEAR + SLICE_OFFSET * k := by
  simp only [REG_SLI_OFFSET, SLICE_OFFSET, REG_SLI_CLEAR] at *
  omega

/-- **The end of another slice.** -/
theorem processSliceEnd_untouched (hne : j ≠ i) (h : (processSliceEnd j).run d = some ((), d')) :
    Untouched p i d d' := by
  obtain ⟨d₁, d₂, hhi, hlow, rfl⟩ := processSliceEnd_cases h
  have hset {reg : Nat} {v : Byte} {d d' : DbfDevice} (hlo : REG_SLI_OFFSET ≤ reg)
      (hhi : reg < REG_SLI_OFFSET + SLICE_OFFSET) (hreg : reg ≠ REG_SLI_CLEAR)
      (h : (setData (reg + SLICE_OFFSET * j) v).run d = some ((), d')) : Untouched p i d d' := by
    have hpart := p.part_reg j hlo hhi
    refine setData_untouched (fun hi => hne (SlicePlan.Part.eq hpart hi)) hpart.ne_shared.1
      (fun k hk => absurd hk (ne_clear hlo hhi hreg j k)) h
  exact ((hset (by decide) (by decide) (by decide) hhi).trans
    (hset (by decide) (by decide) (by decide) hlow)).trans (raiseStatus_untouched _ _)

theorem masterRequestEnd_untouched (h : masterRequestEnd.run d = some ((), d')) :
    Untouched p i d d' := by
  rw [masterRequestEnd, StateT.run_bind] at h
  obtain ⟨⟨⟨⟩, d₁⟩, hset, h⟩ := Option.bind_eq_some_iff.mp h
  cases h
  refine (setData_untouched (fun hi => hi.ne_shared.2.1 rfl) (by decide) (fun k hk => ?_) hset).trans
    (raiseStatus_untouched _ _)
  simp only [REG_FRA_SRAM, REG_SLI_CLEAR] at hk
  omega

/-- **The end of this slice.** -/
theorem processSliceEnd_alike (h : SameBytes p i d e)
    (hrun : (processSliceEnd i).run d = some ((), d')) :
    ∃ e', (processSliceEnd i).run e = some ((), e') ∧ AlikeAfter p i d d' e e' := by
  obtain ⟨d₁, d₂, hhi, hlow, rfl⟩ := processSliceEnd_cases hrun
  have hlen := h.range.2
  obtain ⟨d₁', e₁, hd₁, he₁, h₁⟩ := setData_alike
    (p.part_reg i (by decide : REG_SLI_OFFSET ≤ REG_SLI_EMPHI) (by decide))
    (BitVec.ofNat 8 (d.length i >>> 8)) h
  cases hhi.symm.trans hd₁
  obtain ⟨d₂', e₂, hd₂, he₂, h₂⟩ := setData_alike
    (p.part_reg i (by decide : REG_SLI_OFFSET ≤ REG_SLI_EMPLOW) (by decide))
    (BitVec.ofNat 8 (d.length i)) h₁.mem
  cases hlow.symm.trans hd₂
  refine ⟨e₂.raiseStatus (e₂.sliceBits i), ?_, (h₁.trans h₂).trans (alikeAfter_of_untouched h₂.mem
    (raiseStatus_untouched _ _) (raiseStatus_untouched _ _))⟩
  rw [processSliceEnd, run_bind_of (getSliceLength_run i.isLt e), hlen, run_bind_of he₁,
    run_bind_of he₂]
  rfl

/-! ## 5. Runs -/

/-- Two states that look alike to a slice: its bytes, its thread, its event. -/
structure SameFor (p : SlicePlan) (i : Fin N_SLICE_THREADS) (s t : DbfRun) : Prop where
  dbf : SameBytes p i s.dbf t.dbf
  filtering : t.filtering i = s.filtering i
  pending : t.pending (.slice i) = s.pending (.slice i)

theorem SameFor.refl (p : SlicePlan) (i : Fin N_SLICE_THREADS) (s : DbfRun) : SameFor p i s s :=
  ⟨fun _ _ => rfl, rfl, rfl⟩

section Runs

variable {s s' t : DbfRun}

theorem SameFor.ran_hidden (h : SameFor p i s t) (hd : Untouched p i s.dbf d) :
    SameFor p i (s.ran d) t := by
  have hmem : SameBytes p i d t.dbf := hd.sameBytes h.dbf
  obtain ⟨-, evs, hevs, hq⟩ := hd
  refine ⟨hmem, h.filtering, h.pending.trans ?_⟩
  show _ = (s.pending (.slice i) || (newEvents s.dbf d).contains (.slice i))
  rw [newEvents_of hevs, List.contains_eq_mem, decide_eq_false hq, Bool.or_false]

theorem SameFor.ran (h : SameFor p i s t) (hd : AlikeAfter p i s.dbf d t.dbf e) :
    SameFor p i (s.ran d) (t.ran e) := by
  obtain ⟨hmem, evs, evs', hevs, hevs', hiff⟩ := hd
  refine ⟨hmem, h.filtering, ?_⟩
  show (t.pending (.slice i) || (newEvents t.dbf e).contains (.slice i)) =
    (s.pending (.slice i) || (newEvents s.dbf d).contains (.slice i))
  rw [newEvents_of hevs, newEvents_of hevs', h.pending, List.contains_eq_mem, List.contains_eq_mem,
    decide_eq_decide.mpr hiff.symm]

/-- An event that is not the slice's is served. -/
theorem SameFor.served_hidden (h : SameFor p i s t) {ev : DbfEvent} (hne : ev ≠ .slice i) :
    SameFor p i (s.served ev) t :=
  ⟨h.dbf, h.filtering, h.pending.trans (Function.update_of_ne hne.symm _ _).symm⟩

theorem SameFor.served (h : SameFor p i s t) :
    SameFor p i (s.served (.slice i)) (t.served (.slice i)) := by
  refine ⟨h.dbf, h.filtering, ?_⟩
  show Function.update t.pending _ false _ = Function.update s.pending _ false _
  rw [Function.update_self, Function.update_self]

/-- The thread of another slice starts or ends. -/
theorem SameFor.filtering_hidden (h : SameFor p i s t) (hne : j ≠ i) (b : Bool) :
    SameFor p i { s with filtering := Function.update s.filtering j b } t :=
  ⟨h.dbf, h.filtering.trans (Function.update_of_ne hne.symm _ _).symm, h.pending⟩

theorem SameFor.filtering_shown (h : SameFor p i s t) (b : Bool) :
    SameFor p i { s with filtering := Function.update s.filtering i b }
      { t with filtering := Function.update t.filtering i b } := by
  refine ⟨h.dbf, ?_, h.pending⟩
  show Function.update t.filtering i b i = Function.update s.filtering i b i
  rw [Function.update_self, Function.update_self]

/-- **A step of others.** -/
theorem planned_hidden {l : DbfRunEvent} (hP : p.Planned s l) (hl : p.shown i l = false)
    (hs : s.next l = some s') (h : SameFor p i s t) : SameFor p i s' t := by
  cases l with
  | setData address data =>
      obtain ⟨⟨⟨⟩, d⟩, hrun, rfl⟩ := Option.map_eq_some_iff.mp hs
      exact h.ran_hidden (setData_untouched (of_decide_eq_false hl) hP.1 hP.2 hrun)
  | deliver ev =>
      have hne : ev ≠ .slice i := of_decide_eq_false hl
      simp only [DbfRun.next] at hs
      split at hs
      · have hserved := h.served_hidden hne
        cases ev with
        | irqUpdate =>
            cases hs
            exact ⟨hserved.dbf, hserved.filtering, hserved.pending⟩
        | slice j =>
            have hj : j ≠ i := fun hji => hne (congrArg DbfEvent.slice hji)
            simp only [DbfRun.deliver] at hs
            split at hs
            · cases hs
              exact hserved
            · next hidle =>
              obtain ⟨⟨n, d⟩, hrun, rfl⟩ := Option.map_eq_some_iff.mp hs
              obtain ⟨hin, hmbs⟩ := hP (Bool.eq_false_iff.mpr hidle)
              exact (hserved.ran_hidden (filterSlice_untouched hj hin hmbs hrun)).filtering_hidden hj _
        | sendSram =>
            simp only [DbfRun.deliver] at hs
            split at hs
            · cases hs
              exact hserved
            · split at hs
              · cases hs
              · cases hs
                exact ⟨hserved.dbf, hserved.filtering, hserved.pending⟩
      · cases hs
  | sliceEnd slice =>
      have hne : slice ≠ i := of_decide_eq_false hl
      simp only [DbfRun.next] at hs
      split at hs
      · obtain ⟨⟨⟨⟩, d⟩, hrun, rfl⟩ := Option.map_eq_some_iff.mp hs
        exact (h.ran_hidden (processSliceEnd_untouched hne hrun)).filtering_hidden hne _
      · cases hs
  | copyEnd =>
      simp only [DbfRun.next] at hs
      split at hs
      · obtain ⟨⟨⟨⟩, d⟩, hrun, rfl⟩ := Option.map_eq_some_iff.mp hs
        have hran := h.ran_hidden (masterRequestEnd_untouched hrun)
        exact ⟨hran.dbf, hran.filtering, hran.pending⟩
      · cases hs

/-- **A step of the slice.** -/
theorem planned_shown {l : DbfRunEvent} (hP : p.Planned s l) (hl : p.shown i l = true)
    (hs : s.next l = some s') (h : SameFor p i s t) : ∃ t', t.next l = some t' ∧ SameFor p i s' t' := by
  cases l with
  | setData address data =>
      obtain ⟨⟨⟨⟩, d⟩, hrun, rfl⟩ := Option.map_eq_some_iff.mp hs
      obtain ⟨d', e, hd, he, hafter⟩ := setData_alike (of_decide_eq_true hl) data h.dbf
      cases hrun.symm.trans hd
      exact ⟨t.ran e, by rw [DbfRun.next, he]; rfl, h.ran hafter⟩
  | deliver ev =>
      obtain rfl : ev = .slice i := of_decide_eq_true hl
      have hserved := h.served
      simp only [DbfRun.next] at hs
      split at hs
      · next hpending =>
        simp only [DbfRun.next, DbfRun.deliver, h.pending, hpending, if_true]
        simp only [DbfRun.deliver] at hs
        split at hs
        · next hbusy =>
          cases hs
          exact ⟨t.served (.slice i), if_pos (hserved.filtering.trans hbusy), hserved⟩
        · next hidle =>
          obtain ⟨⟨n, d⟩, hrun, rfl⟩ := Option.map_eq_some_iff.mp hs
          obtain ⟨hin, hmbs⟩ := hP (Bool.eq_false_iff.mpr hidle)
          obtain ⟨e, he, hafter⟩ := filterSlice_alike hserved.dbf hin hmbs hrun
          refine ⟨_, ?_, (hserved.ran hafter).filtering_shown true⟩
          rw [if_neg (by rw [hserved.filtering]; exact hidle), he]
          rfl
      · cases hs
  | sliceEnd slice =>
      obtain rfl : slice = i := of_decide_eq_true hl
      simp only [DbfRun.next] at hs
      split at hs
      · next hbusy =>
        obtain ⟨⟨⟨⟩, d⟩, hrun, rfl⟩ := Option.map_eq_some_iff.mp hs
        obtain ⟨e, he, hafter⟩ := processSliceEnd_alike h.dbf hrun
        refine ⟨_, ?_, (h.ran hafter).filtering_shown false⟩
        rw [DbfRun.next, if_pos (h.filtering.trans hbusy), he]
        rfl
      · cases hs
  | copyEnd => cases hl

theorem isolated (p : SlicePlan) (i : Fin N_SLICE_THREADS) :
    Isolated DbfRun.next p.Planned (SameFor p i) (p.shown i) :=
  ⟨planned_hidden, planned_shown⟩

end Runs

/-- **A slice sees its own steps only**: it can take them alone, and ends as in the whole run. -/
theorem slice_isolated {p : SlicePlan} {s t : DbfRun} {es : List DbfRunEvent}
    (h : Steps DbfRun.next p.Planned s es) (hrun : exec DbfRun.next s es = some t)
    (i : Fin N_SLICE_THREADS) :
    ∃ u, exec DbfRun.next s (es.filter (p.shown i)) = some u ∧ SameFor p i t u :=
  (isolated p i).alone h hrun (.refl p i s)

/-- **The picture does not depend on how the slices' steps interleave.** While REG_GLO_CTRL, with the
    format of the picture, is not written, and slices are cleared and filtered inside the macroblocks
    planned for them and inside the picture: two runs in which the steps of each slice come in one
    order leave the same bytes in the macroblocks and the registers of all slices, whatever else is
    written, ended, copied and acknowledged in between. -/
theorem pictures_agree {p : SlicePlan} {s t t' : DbfRun} {es es' : List DbfRunEvent}
    (h : Steps DbfRun.next p.Planned s es) (h' : Steps DbfRun.next p.Planned s es')
    (hrun : exec DbfRun.next s es = some t) (hrun' : exec DbfRun.next s es' = some t')
    (hsame : ∀ i, es.filter (p.shown i) = es'.filter (p.shown i)) :
    ∀ i a, p.Part i a → t.dbf.mData a = t'.dbf.mData a := by
  intro i a ha
  obtain ⟨u, hu, hu'⟩ := (isolated p i).interleavings h h' hrun hrun' (.refl p i s) (hsame i)
  exact (hu.dbf a (.inl ha)).symm.trans (hu'.dbf a (.inl ha))

/-- Two slices of one macroblock each. -/
def oneEach : SlicePlan where
  first i := if i.val = 0 then 0 else 1
  behind i := if i.val = 0 then 1 else if i.val = 1 then 2 else 1
  apart i j hne := by
    refine Set.disjoint_left.mpr fun a ha hb => hne (Fin.ext ?_)
    simp only [Set.mem_Ico] at ha hb
    split_ifs at ha hb <;> omega
  fits := by decide

/-- The first slice is to be filtered. -/
def oneEachRun : DbfRun :=
  { DbfRun.new with
    dbf := (((DbfDevice.new.poke REG_SLI_LGTOFF 0x10#8).poke (SLICE_OFFSET + REG_SLI_OFFSET) 1#8).poke
      (SLICE_OFFSET + REG_SLI_LGTOFF) 0x10#8)
    pending := fun e => e = .slice ⟨0, slices_pos⟩ }

theorem planned_write (p : SlicePlan) (s : DbfRun) {a : Nat} (ha : a < REG_GLO_VER) (v : Byte) :
    p.Planned s (.setData a v) := by
  refine ⟨Nat.ne_of_lt (ha.trans (by decide)), fun j hj => ?_⟩
  simp only [REG_GLO_VER, REG_SLI_CLEAR] at *
  omega

theorem planned_first {s : DbfRun} (h : Untouched oneEach ⟨0, slices_pos⟩ oneEachRun.dbf s.dbf) :
    oneEach.Planned s (.deliver (.slice ⟨0, slices_pos⟩)) := by
  intro _
  have hd : oneEachRun.dbf.InPicture 0 := ⟨by decide, by decide, by decide⟩
  have hsame : oneEachRun.dbf.SameSlice s.dbf 0 :=
    .of_regs (h.mem _ (.inr rfl)) fun a ha => h.mem a (.inl (.inr ha))
  have hoff : oneEachRun.dbf.offset 0 = 0 := by decide
  have hlen : oneEachRun.dbf.length 0 = 1 := by decide
  refine ⟨hsame.inPicture hd, ?_⟩
  show s.dbf.mbs 0 ⊆ _
  rw [hsame.mbs, DbfDevice.mbs, hoff, hlen]
  exact fun a ha => ha

def filterThenWrite : List DbfRunEvent :=
  [.deliver (.slice ⟨0, slices_pos⟩), .setData 0x205 0x33#8]

def writeThenFilter : List DbfRunEvent :=
  [.setData 0x205 0x33#8, .deliver (.slice ⟨0, slices_pos⟩)]

/-- The second slice is written before or after the first one is filtered. -/
theorem pictures_agree_oneEach : ∃ t t', exec DbfRun.next oneEachRun filterThenWrite = some t ∧
    exec DbfRun.next oneEachRun writeThenFilter = some t' ∧
    ∀ i a, oneEach.Part i a → t.dbf.mData a = t'.dbf.mData a := by
  obtain ⟨t, ht⟩ : ∃ t, exec DbfRun.next oneEachRun filterThenWrite = some t := ⟨_, rfl⟩
  obtain ⟨t', ht'⟩ : ∃ t', exec DbfRun.next oneEachRun writeThenFilter = some t' := ⟨_, rfl⟩
  have h : Steps DbfRun.next oneEach.Planned oneEachRun filterThenWrite :=
    .cons rfl (planned_first (.refl _ _ _)) (.cons rfl (planned_write _ _ (by decide) _) trivial)
  have h' : Steps DbfRun.next oneEach.Planned oneEachRun writeThenFilter := by
    refine .cons rfl (planned_write _ _ (by decide) _) (.cons rfl (planned_first ?_) trivial)
    exact untouched_poke _ (not_sees (by decide) (by decide)) _
  exact ⟨t, t', ht, ht', pictures_agree h h' ht ht' fun i => by fin_cases i <;> rfl⟩

end Rabbits
