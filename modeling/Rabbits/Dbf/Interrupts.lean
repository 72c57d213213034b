/-
  File:      Rabbits/Dbf/Interrupts.lean
  Subject:   The interrupt of the deblocking filter over a run of its threads (dbf_device.cpp:
             set_data, process_slice, master_request, irq_update_thread).

  * `DbfRun.next` -- a write to any address, an event delivered to its thread, the end of a slice
    or of a copy; slices and copies last as long as they like, any number of them at once;
  * `InMemory` -- the addresses written and the ranges cleared and filtered are where they belong;
  * `irq_follows_status` -- **in every state of such a run the flag is set exactly for a status bit
    that is enabled, and the signal is the flag wherever the update is served**.

  At the start slice thread 0 clears the flag and notifies: the flag and the signal are 0 already.
  The words of a copy change nothing here.
-/
import Rabbits.Dbf.IrqLine
import Rabbits.Lib.Labelled

namespace Rabbits

open Lib

/-! ## 1. The threads -/

def REG_SRAM_ADDRESS : Nat := 0x39010

/-- `adr_dest`. -/
def DbfDevice.adrDest (d : DbfDevice) : ULong :=
  d.mData (REG_SRAM_ADDRESS + 3) ++ d.mData (REG_SRAM_ADDRESS + 2) ++
    d.mData (REG_SRAM_ADDRESS + 1) ++ d.mData REG_SRAM_ADDRESS

/-- The device, which slices are being filtered, whether a copy is under way, the events notified
    and not yet delivered, and the signal `irq` as last written. -/
structure DbfRun where
  dbf : DbfDevice
  filtering : Fin N_SLICE_THREADS → Bool
  copying : Bool
  pending : DbfEvent → Bool
  irq : Bool

def DbfRun.new : DbfRun := ⟨.new, fun _ => false, false, fun _ => false, false⟩

inductive DbfRunEvent where
  | setData (address : Nat) (data : Byte)
  | deliver (e : DbfEvent)
  | sliceEnd (slice : Fin N_SLICE_THREADS)
  | copyEnd

/-- The events notified from `d` to `d'`. -/
def newEvents (d d' : DbfDevice) : List DbfEvent :=
  d'.notified.take (d'.notified.length - d.notified.length)

/-- The code of the device has run to `d'`. -/
def DbfRun.ran (s : DbfRun) (dbf : DbfDevice) : DbfRun :=
  { s with dbf := dbf, pending := fun e => s.pending e || (newEvents s.dbf dbf).contains e }

/-- The event is no longer pending. -/
def DbfRun.served (s : DbfRun) (e : DbfEvent) : DbfRun :=
  { s with pending := Function.update s.pending e false }

/-- What the thread that waits for an event does; an event that finds its thread busy is lost. -/
def DbfRun.deliver (s : DbfRun) : DbfEvent → Option DbfRun
  | .irqUpdate => some { s with irq := s.dbf.irqStat }
  | .slice i =>
      if s.filtering i then some s
      else ((filterSlice i).run s.dbf).map fun r =>
        { s.ran r.2 with filtering := Function.update s.filtering i true }
  | .sendSram =>
      if s.copying then some s
      -- "Address %lu specified for copy is not 4 byte aligned!"
      else if s.dbf.adrDest &&& 0x3#32 ≠ 0#32 then none
      else some { s with copying := true }

def DbfRun.next (s : DbfRun) : DbfRunEvent → Option DbfRun
  | .setData address data => ((setData address data).run s.dbf).map fun r => s.ran r.2
  | .deliver e => if s.pending e then (s.served e).deliver e else none
  | .sliceEnd slice =>
      if s.filtering slice then
        ((processSliceEnd slice).run s.dbf).map fun r =>
          { s.ran r.2 with filtering := Function.update s.filtering slice false }
      else none
  | .copyEnd =>
      if s.copying then (masterRequestEnd.run s.dbf).map fun r => { s.ran r.2 with copying := false }
      else none

/-! ## 2. The flag and the signal -/

/-- The address written is one of the memory, and the range of a slice that is cleared or filtered
    stays below the registers. -/
def InMemory (s : DbfRun) : DbfRunEvent → Prop
  | .setData address _ => address < FPGA_CHAR_SIZE ∧ ClearsBelow s.dbf address
  | .deliver (.slice i) => s.filtering i = false → s.dbf.SliceBelow i
  | .deliver .irqUpdate => True
  | .deliver .sendSram => True
  | .sliceEnd _ => True
  | .copyEnd => True

/-- The flag is set exactly if a status bit is enabled, and the signal is the flag once the update
    is served. -/
structure IrqFollows (s : DbfRun) : Prop where
  stat : s.dbf.irqStat = true ↔
    s.dbf.mData REG_INT_STATUS &&& s.dbf.mData REG_INT_ENABLE &&& 0x7F#8 ≠ 0#8
  irq : s.pending .irqUpdate = false → s.irq = s.dbf.irqStat

structure DbfRun.Ok (s : DbfRun) : Prop where
  line : s.dbf.line.Ok
  irq : s.pending .irqUpdate = false → s.irq = s.dbf.irqStat

variable {s s' : DbfRun}

theorem DbfRun.ok_new : DbfRun.new.Ok := ⟨⟨rfl, by decide⟩, fun _ => rfl⟩

theorem DbfRun.Ok.follows (h : s.Ok) : IrqFollows s := by
  refine ⟨?_, h.irq⟩
  rw [BitVec.and_assoc]
  have he : s.dbf.mData REG_INT_ENABLE &&& 0x7F#8 = s.dbf.mData REG_INT_ENABLE := h.line.enable
  rw [he]
  exact h.line.stat

theorem newEvents_of {d d' : DbfDevice} {evs : List DbfEvent} (h : d'.notified = evs ++ d.notified) :
    newEvents d d' = evs := by
  rw [newEvents, h, List.length_append, Nat.add_sub_cancel, List.take_left]

/-- The code of the device keeps the values sound, and never changes the flag in silence. -/
theorem DbfRun.Ok.ran (h : s.Ok) {dbf : DbfDevice} (hline : dbf.line.Ok)
    (hnot : Notifies s.dbf dbf) : (s.ran dbf).Ok := by
  refine ⟨hline, fun hp => ?_⟩
  obtain ⟨evs, hevs, hstat⟩ := hnot
  simp only [DbfRun.ran, newEvents_of hevs, Bool.or_eq_false_iff] at hp
  have hsame : dbf.irqStat = s.dbf.irqStat := by
    by_contra hne
    simpa [hstat hne] using hp.2
  exact (h.irq hp.1).trans hsame.symm

theorem DbfRun.Ok.served (h : s.Ok) {e : DbfEvent} (he : e ≠ .irqUpdate) : (s.served e).Ok := by
  refine ⟨h.line, fun hp => h.irq ?_⟩
  simpa only [DbfRun.served, Function.update_of_ne he.symm] using hp

theorem IrqLine.Ok.access {l : IrqLine} (h : l.Ok) (address : Nat) (data : Byte) :
    (l.access address data).Ok := by
  unfold IrqLine.access
  split
  · exact h.setEnable data
  · split
    · exact h.ack data
    · exact h

/-- **Every step keeps the flag and the signal.** -/
theorem DbfRun.Ok.next_kept {e : DbfRunEvent} (h : s.Ok) (he : InMemory s e)
    (hs : s.next e = some s') : s'.Ok := by
  cases e with
  | setData address data =>
      obtain ⟨⟨⟨⟩, d⟩, hrun, rfl⟩ := Option.map_eq_some_iff.mp hs
      obtain ⟨hline, hnot⟩ := setData_spec hrun he.2
      exact h.ran (hline ▸ h.line.access address data) hnot
  | deliver e =>
      simp only [DbfRun.next] at hs
      split at hs
      · cases e with
        | irqUpdate =>
            cases hs
            exact ⟨h.line, fun _ => rfl⟩
        | slice i =>
            have hserved := h.served (e := .slice i) (by simp)
            simp only [DbfRun.deliver] at hs
            split at hs
            · cases hs
              exact hserved
            · next hidle =>
              obtain ⟨⟨n, d⟩, hrun, rfl⟩ := Option.map_eq_some_iff.mp hs
              obtain ⟨hline, hnot⟩ := filterSlice_line (he (Bool.eq_false_iff.mpr hidle)) i.isLt hrun
              have hran := hserved.ran (hline ▸ h.line) hnot
              exact ⟨hran.line, hran.irq⟩
        | sendSram =>
            have hserved := h.served (e := .sendSram) (by simp)
            simp only [DbfRun.deliver] at hs
            split at hs
            · cases hs
              exact hserved
            · split at hs
              · cases hs
              · cases hs
                exact ⟨hserved.line, hserved.irq⟩
      · cases hs
  | sliceEnd slice =>
      simp only [DbfRun.next] at hs
      split at hs
      · obtain ⟨⟨⟨⟩, d⟩, hrun, rfl⟩ := Option.map_eq_some_iff.mp hs
        obtain ⟨bits, hline, hnot⟩ := processSliceEnd_line slice.isLt hrun
        have hran := h.ran (hline ▸ h.line.complete bits) hnot
        exact ⟨hran.line, hran.irq⟩
      · cases hs
  | copyEnd =>
      simp only [DbfRun.next] at hs
      split at hs
      · obtain ⟨⟨⟨⟩, d⟩, hrun, rfl⟩ := Option.map_eq_some_iff.mp hs
        obtain ⟨hline, hnot⟩ := masterRequestEnd_line hrun
        have hran := h.ran (hline ▸ h.line.complete _) hnot
        exact ⟨hran.line, hran.irq⟩
      · cases hs

/-- **The interrupt follows the status**: in every state of every run whose addresses and slice
    ranges lie where they belong, the flag is set exactly if a status bit is enabled, and the signal
    is the flag wherever the update is served. -/
theorem irq_follows_status (es : List DbfRunEvent) (h : Steps DbfRun.next InMemory .new es) :
    Along DbfRun.next IrqFollows .new es :=
  along_of_steps (fun _ h => h.follows) (fun _ _ _ h he hs => h.next_kept he hs) DbfRun.ok_new h

/-- The first slice is enabled, filtered and ended: the signal goes up. -/
theorem irq_follows_slice :
    let es : List DbfRunEvent :=
      [.setData REG_INT_ENABLE 0x01#8, .setData REG_SLI_FILLOW 0#8, .deliver (.slice ⟨0, slices_pos⟩),
        .sliceEnd ⟨0, slices_pos⟩, .deliver .irqUpdate]
    (exec DbfRun.next .new es).map DbfRun.irq = some true ∧ Along DbfRun.next IrqFollows .new es := by
  refine ⟨rfl, irq_follows_status _ (Steps.cons rfl ⟨by decide, by decide⟩
    (Steps.cons rfl ⟨by decide, by decide⟩ (Steps.cons rfl (fun _ => ?_)
      (Steps.cons rfl trivial (Steps.cons rfl trivial trivial)))))⟩
  exact (by decide : (0 + 0) * MB_BLOCK_SIZE ≤ REG_GLO_VER)

end Rabbits
