/-
  File:      Rabbits/Fb/FrameAccess.lean
  Subject:   What the accesses to the frame memory of the framebuffer device store and return
             (framebuffer_device.cpp: s_mask, the default cases of write and read).

  Both accesses go through the mask of the enabled lanes. The write replaces these lanes and keeps
  the others; the read clears these lanes and returns the others.

  * `frameByte`, `laneWrite` -- the bytes of a buffer, and a write as the bytes that it stores;
  * `FrameRight` -- **the property of an access**: a read returns the bytes last written, a write
    changes nothing outside its lanes;
  * `FrameInv`, `frame_holds_last` -- the current buffer holds what was last written to it;
  * `frameRight_iff` -- **the accesses of a run are right exactly when the reads find zeros**.
-/
import Rabbits.Fb.Link
import Rabbits.Lib.Store

namespace Rabbits

open Lib

namespace FbDevice

/-! ## 1. Lanes -/

theorem getLsbD_maskOf (lbe : Byte) {k : Nat} (hk : k < 32) :
    (maskOf lbe).getLsbD k = lbe.getLsbD (k / 8) := by
  have hlane : ∀ (c : Bool) j, j < 8 → (if c then 0xFF#8 else 0#8 : Byte).getLsbD j = c := by
    decide
  simp only [maskOf, BitVec.getLsbD_append]
  split
  · rw [hlane _ _ ‹_›, Nat.div_eq_of_lt ‹_›]
  split
  · rw [hlane _ _ ‹_›, show k / 8 = 1 by omega]
  split
  · rw [hlane _ _ ‹_›, show k / 8 = 2 by omega]
  · rw [hlane _ _ (by omega), show k / 8 = 3 by omega]

theorem getLsbD_byteOf (x : ULong) (i : Nat) {j : Nat} (hj : j < 8) :
    (byteOf x i).getLsbD j = x.getLsbD (8 * i + j) := by
  simp [byteOf, hj]

/-- A lane of a word after a write with these lanes. -/
theorem byteOf_merge (tmp val : ULong) (lbe : Byte) {i : Nat} (hi : i < 4) :
    byteOf (tmp &&& ~~~maskOf lbe ||| val &&& maskOf lbe) i =
      if lbe.getLsbD i then byteOf val i else byteOf tmp i := by
  refine BitVec.eq_of_getLsbD_eq fun j hj => ?_
  have hlane : (maskOf lbe).getLsbD (8 * i + j) = lbe.getLsbD i := by
    rw [getLsbD_maskOf lbe (by omega), show (8 * i + j) / 8 = i by omega]
  rw [getLsbD_byteOf _ _ hj]
  simp only [BitVec.getLsbD_or, BitVec.getLsbD_and, BitVec.getLsbD_not, hlane]
  cases lbe.getLsbD i <;> simp [getLsbD_byteOf _ _ hj]
  omega

/-- A lane of a word from which these lanes are cleared. -/
theorem byteOf_clear (tmp : ULong) {lbe : Byte} {i : Nat} (hi : i < 4) (h : lbe.getLsbD i) :
    byteOf (tmp &&& ~~~maskOf lbe) i = 0#8 := by
  refine BitVec.eq_of_getLsbD_eq fun j hj => ?_
  have hlane : (maskOf lbe).getLsbD (8 * i + j) = true := by
    rw [getLsbD_maskOf lbe (by omega), show (8 * i + j) / 8 = i by omega, h]
  rw [getLsbD_byteOf _ _ hj]
  simp [hlane]

/-! ## 2. The frame memory in bytes -/

/-- Byte `a` of buffer `idx`. -/
def bufByte (d : FbDevice) (idx : Fin 2) (a : Nat) : Byte := byteOf (d.shm idx (a / 4)) (a % 4)

/-- Byte `a` of the current buffer. -/
def frameByte (d : FbDevice) (a : Nat) : Byte := d.bufByte d.memIdx a

/-- Byte `a` is an enabled lane of an access to the word `memOfs`. -/
def Enabled (memOfs : ULong) (be : Byte) (a : Nat) : Prop :=
  a / 4 = memOfs.toNat ∧ (lbeOf be).getLsbD (a % 4)

instance (memOfs : ULong) (be : Byte) (a : Nat) : Decidable (Enabled memOfs be a) := by
  unfold Enabled
  infer_instance

/-- What a write stores: the enabled lanes of `*val`. -/
def laneWrite (memOfs : ULong) (be : Byte) (data : Fin 8 → Byte) : Write Nat Byte := fun a =>
  if Enabled memOfs be a then some (byteOf (valueOf be data) (a % 4)) else none

/-- The frame write of a step. -/
def frameWrites (d : FbDevice) : Label → List (Write Nat Byte)
  | .write ofs be data => (d.frameOffset ofs be).toList.map fun memOfs => laneWrite memOfs be data
  | _ => []

/-- The word is at or above FB_DEVICE_MEM, and the lanes are those of one half. -/
structure FrameLanes (ofs : ULong) (be : Byte) : Prop where
  ofs : FB_DEVICE_MEM ≤ lofsOf ofs be
  half : be &&& 0xF0#8 = 0#8 ∨ be &&& 0x0F#8 = 0#8

/-- An access to the frame memory. -/
def IsFrameAccess : Label → Prop
  | .write ofs be _ => FrameLanes ofs be
  | .read ofs be => FrameLanes ofs be
  | _ => False

/-- A running device that does not display by itself. -/
structure Steady (d : FbDevice) : Prop where
  running : d.regs.status = .RUNNING
  attached : d.mem = .attached
  noWrap : d.regs.dispWrap = false

/-- A device with the log of the frame writes so far. -/
abbrev FrameRun : Type := Traced FbDevice (Write Nat Byte)

/-- The last byte written to `a`, or the byte of `d₀`. -/
def lastByte (d₀ : FbDevice) (log : List (Write Nat Byte)) (a : Nat) : Byte :=
  (lastWrite log a).getD (d₀.frameByte a)

/-- **An access does what it should**, in a run from `d₀`: a read in the frame returns in each
    enabled lane the byte last written, a write changes no byte but its enabled lanes. -/
def FrameRight (d₀ : FbDevice) (s : FrameRun) : Label → Prop
  | .read ofs be => ∀ memOfs, s.state.frameOffset ofs be = some memOfs → ∀ i < 4,
      (lbeOf be).getLsbD i →
        byteOf (s.state.slaveRead ofs be).2 i = lastByte d₀ s.trace (4 * memOfs.toNat + i)
  | .write ofs be data => ∀ memOfs, s.state.frameOffset ofs be = some memOfs → ∀ idx a,
      ¬ (idx = s.state.memIdx ∧ Enabled memOfs be a) →
        (s.state.slaveWrite ofs be data).bufByte idx a = s.state.bufByte idx a
  | _ => True

/-- The enabled lanes of a read were last written with zeros. -/
def FindsZeros (d₀ : FbDevice) (s : FrameRun) : Label → Prop
  | .read ofs be => ∀ memOfs, s.state.frameOffset ofs be = some memOfs → ∀ i < 4,
      (lbeOf be).getLsbD i → lastByte d₀ s.trace (4 * memOfs.toNat + i) = 0#8
  | _ => True

/-! ## 3. What an access does -/

theorem decode_of_frameOffset {d : FbDevice} {ofs : ULong} {be : Byte} {memOfs : ULong}
    (h : d.frameOffset ofs be = some memOfs) : decodeFbRegister (lofsOf ofs be) = none := by
  unfold frameOffset at h
  split at h
  · next hc => exact hc.1
  · cases h

theorem slaveRead_frame {d : FbDevice} {ofs : ULong} {be : Byte} {memOfs : ULong}
    (h : d.frameOffset ofs be = some memOfs) :
    d.slaveRead ofs be = (d, d.shm d.memIdx memOfs.toNat &&& ~~~maskOf (lbeOf be)) := by
  simp only [slaveRead, decode_of_frameOffset h, h]

theorem slaveWrite_frame {d : FbDevice} {ofs : ULong} {be : Byte} {memOfs : ULong}
    (h : d.frameOffset ofs be = some memOfs) (data : Fin 8 → Byte) :
    d.slaveWrite ofs be data = d.writeFrame memOfs be (valueOf be data) := by
  simp only [slaveWrite, decode_of_frameOffset h, h]

/-- A read returns zero in every enabled lane. -/
theorem slaveRead_lane {d : FbDevice} {ofs : ULong} {be : Byte} {memOfs : ULong}
    (h : d.frameOffset ofs be = some memOfs) {i : Nat} (hi : i < 4) (hbe : (lbeOf be).getLsbD i) :
    byteOf (d.slaveRead ofs be).2 i = 0#8 := by
  rw [slaveRead_frame h]
  exact byteOf_clear _ hi hbe

/-- The word that a steady device stores. -/
theorem writeFrame_steady {d : FbDevice} (hd : d.Steady) (memOfs : ULong) (be : Byte) (val : ULong) :
    d.writeFrame memOfs be val = { d with
      shm := Function.update d.shm d.memIdx (Function.update (d.shm d.memIdx) memOfs.toNat
        (d.shm d.memIdx memOfs.toNat &&& ~~~maskOf (lbeOf be) ||| val &&& maskOf (lbeOf be))) } := by
  have hwrap : d.wraps memOfs be = false := by simp [wraps, hd.noWrap]
  simp [writeFrame, hwrap, store, hd.attached]

theorem bufByte_writeFrame {d : FbDevice} (hd : d.Steady) (memOfs : ULong) (be : Byte)
    (data : Fin 8 → Byte) (idx : Fin 2) (a : Nat) :
    (d.writeFrame memOfs be (valueOf be data)).bufByte idx a =
      if idx = d.memIdx ∧ Enabled memOfs be a then byteOf (valueOf be data) (a % 4)
      else d.bufByte idx a := by
  have hlane : a % 4 < 4 := Nat.mod_lt a (by decide)
  rw [writeFrame_steady hd]
  by_cases hidx : idx = d.memIdx
  · subst hidx
    by_cases hword : a / 4 = memOfs.toNat
    · simp only [bufByte, Function.update_self, hword, byteOf_merge _ _ _ hlane, Enabled, true_and]
    · simp [bufByte, Enabled, hword]
  · simp [bufByte, hidx]

theorem frameByte_writeFrame {d : FbDevice} (hd : d.Steady) (memOfs : ULong) (be : Byte)
    (data : Fin 8 → Byte) :
    (d.writeFrame memOfs be (valueOf be data)).frameByte =
      (laneWrite memOfs be data).apply d.frameByte := by
  have hidx : (d.writeFrame memOfs be (valueOf be data)).memIdx = d.memIdx := by
    rw [writeFrame_steady hd]
  funext a
  simp only [frameByte, hidx, bufByte_writeFrame hd, Write.apply, laneWrite, true_and]
  split <;> rfl

/-! ## 4. Runs -/

/-- The current buffer holds what was last written to it, until the process has ended. -/
structure FrameInv (d₀ : FbDevice) (s : FrameRun) : Prop where
  steady : s.state.halted = false → s.state.Steady
  holds : s.state.halted = false → s.state.frameByte = replay d₀.frameByte s.trace

/-- Nothing at or above FB_DEVICE_MEM is a register. -/
theorem decode_of_ge {lofs : ULong} (h : FB_DEVICE_MEM ≤ lofs) : decodeFbRegister lofs = none := by
  have hle : 0x400 ≤ lofs.toNat := h
  unfold decodeFbRegister
  split <;> first | omega | rfl

/-- An access outside the frame ends the process. -/
theorem halted_of_outside {d : FbDevice} {ofs : ULong} {be : Byte}
    (hofs : FB_DEVICE_MEM ≤ lofsOf ofs be) (h : d.frameOffset ofs be = none) (data : Fin 8 → Byte) :
    (d.slaveWrite ofs be data).halted = true ∧ (d.slaveRead ofs be).1.halted = true := by
  simp [slaveWrite, slaveRead, decode_of_ge hofs, h]

theorem frameInv_write {d₀ : FbDevice} {s s' : FrameRun} {ofs : ULong} {be : Byte}
    {data : Fin 8 → Byte} (hi : FrameInv d₀ s) (hrun : s.state.halted = false)
    (hofs : FB_DEVICE_MEM ≤ lofsOf ofs be) (hstate : s'.state = s.state.slaveWrite ofs be data)
    (htrace : s'.trace = s.trace ++ s.state.frameWrites (.write ofs be data)) : FrameInv d₀ s' := by
  have hsteady := hi.steady hrun
  cases hframe : s.state.frameOffset ofs be with
  | none =>
      have hhalt : s'.state.halted = true := hstate ▸ (halted_of_outside hofs hframe data).1
      exact ⟨fun h => absurd (h.symm.trans hhalt) (by decide),
        fun h => absurd (h.symm.trans hhalt) (by decide)⟩
  | some memOfs =>
      rw [slaveWrite_frame hframe data] at hstate
      refine ⟨fun _ => ?_, fun _ => ?_⟩
      · rw [hstate, writeFrame_steady hsteady]
        exact ⟨hsteady.running, hsteady.attached, hsteady.noWrap⟩
      · have hlog : s'.trace = s.trace ++ [laneWrite memOfs be data] := by
          rw [htrace, frameWrites, hframe]
          rfl
        rw [hstate, hlog, frameByte_writeFrame hsteady, hi.holds hrun, replay_append_singleton]

theorem frameInv_read {d₀ : FbDevice} {s s' : FrameRun} {ofs : ULong} {be : Byte}
    (hi : FrameInv d₀ s) (hofs : FB_DEVICE_MEM ≤ lofsOf ofs be)
    (hstate : s'.state = (s.state.slaveRead ofs be).1) (htrace : s'.trace = s.trace) :
    FrameInv d₀ s' := by
  cases hframe : s.state.frameOffset ofs be with
  | none =>
      have hhalt : s'.state.halted = true :=
        hstate ▸ (halted_of_outside hofs hframe fun _ => 0#8).2
      exact ⟨fun h => absurd (h.symm.trans hhalt) (by decide),
        fun h => absurd (h.symm.trans hhalt) (by decide)⟩
  | some memOfs =>
      have hsame : s'.state = s.state := by rw [hstate, slaveRead_frame hframe]
      exact ⟨fun h => hsame ▸ hi.steady (hsame ▸ h), fun h => by
        rw [hsame, htrace, hi.holds (hsame ▸ h)]⟩

/-- **One access**: it keeps the invariant, and is right when it finds zeros. -/
theorem frameAccess_step {d₀ : FbDevice} {s s' : FrameRun} {l : Label} (hi : FrameInv d₀ s)
    (hl : IsFrameAccess l) (h : Traced.step next frameWrites s l = some s') :
    (FrameRight d₀ s l ↔ FindsZeros d₀ s l) ∧ FrameInv d₀ s' := by
  obtain ⟨hnext, htrace⟩ := Traced.step_eq_some h
  have hrun := halted_of_next hnext
  unfold next at hnext
  rw [if_neg (by simp [hrun])] at hnext
  cases l with
  | write ofs be data =>
      refine ⟨iff_of_true (fun memOfs hframe idx a hout => ?_) trivial, ?_⟩
      · rw [slaveWrite_frame hframe, bufByte_writeFrame (hi.steady hrun), if_neg hout]
      · exact frameInv_write hi hrun hl.ofs (Option.some.inj hnext).symm htrace
  | read ofs be =>
      refine ⟨?_, frameInv_read hi hl.ofs (Option.some.inj hnext).symm
        (htrace.trans (List.append_nil _))⟩
      refine forall_congr' fun memOfs => imp_congr_right fun hframe => ?_
      refine forall_congr' fun i => imp_congr_right fun hi => imp_congr_right fun hbe => ?_
      rw [slaveRead_lane hframe hi hbe, eq_comm]
  | _ => exact absurd hl id

/-- **The accesses of a run are right exactly when the reads find zeros**: from any running device
    whose display is not wrapped, along every sequence of accesses to the frame memory, each read
    returns the bytes last written to its lanes and each write changes its lanes only, if and only if
    the bytes last written to the lanes that are read are zeros. -/
theorem frameRight_iff {d : FbDevice} (hd : d.Steady) {ls : List Label}
    (hls : ∀ l ∈ ls, IsFrameAccess l) :
    Steps (Traced.step next frameWrites) (FrameRight d) ⟨d, []⟩ ls ↔
      Steps (Traced.step next frameWrites) (FindsZeros d) ⟨d, []⟩ ls :=
  steps_iff_steps (I := FrameInv d) (fun _ _ _ hi (hl : IsFrameAccess _) h =>
    frameAccess_step hi hl h) hls ⟨fun _ => hd, fun _ => rfl⟩

/-- **The current buffer holds what was last written to it** after every such sequence, unless an
    access outside the frame has ended the process. -/
theorem frame_holds_last {d : FbDevice} (hd : d.Steady) {ls : List Label}
    (hls : ∀ l ∈ ls, IsFrameAccess l) {s : FrameRun}
    (h : exec (Traced.step next frameWrites) ⟨d, []⟩ ls = some s) (hrun : s.state.halted = false)
    (a : Nat) : s.state.frameByte a = lastByte d s.trace a := by
  have hi : FrameInv d s := exec_invariant_of (fun _ _ _ hi (hl : IsFrameAccess _) h =>
    (frameAccess_step hi hl h).2) hls ⟨fun _ => hd, fun _ => rfl⟩ h
  rw [hi.holds hrun, replay_eq, lastByte]

/-- Two writes to the frame of one word, and a read of a lane that they leave at zero. -/
theorem frameRight_iff_argb :
    Steps (Traced.step next frameWrites) (FrameRight (new argbReset 0#32)) ⟨new argbReset 0#32, []⟩
      [.write 0x1000#32 0x01#8 fun _ => 7#8, .write 0x1000#32 0x04#8 fun _ => 0#8,
        .read 0x1000#32 0x0C#8] := by
  have hls : ∀ l ∈ [Label.write 0x1000#32 0x01#8 fun _ => 7#8,
      .write 0x1000#32 0x04#8 fun _ => 0#8, .read 0x1000#32 0x0C#8], IsFrameAccess l := by
    simp only [List.forall_mem_cons]
    exact ⟨⟨by decide, by decide⟩, ⟨by decide, by decide⟩, ⟨by decide, by decide⟩, by simp⟩
  refine (frameRight_iff ⟨by decide, by decide, by decide⟩ hls).mpr ?_
  refine .cons rfl trivial (.cons rfl trivial (.cons rfl (fun memOfs hframe i hi hbe => ?_) trivial))
  have hofs : memOfs = 0#32 := by
    refine (Option.some.inj (Eq.trans ?_ hframe)).symm
    decide
  subst hofs
  revert i
  decide

/-- The byte just written is read as zero. -/
theorem frameRight_fails :
    ¬ Steps (Traced.step next frameWrites) (FrameRight (new argbReset 0#32)) ⟨new argbReset 0#32, []⟩
      [.write 0x1000#32 0x01#8 fun _ => 7#8, .read 0x1000#32 0x01#8] := by
  intro h
  have hread := ((h _ rfl).2 _ rfl).1 0#32 (by decide) 0 (by decide) (by decide)
  revert hread
  decide

end FbDevice

end Rabbits
