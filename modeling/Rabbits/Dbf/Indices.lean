/-
  File:      Rabbits/Dbf/Indices.lean
  Subject:   Which indices of `m_data` the deblocking filter uses (dbf_device.cpp: get_data, set_data,
             clear_slice, filter_slice, master_request).

  * `DbfOp` -- the operations, `DbfOp.record` -- the indices that one uses;
  * `IndicesRight` -- they are inside `m_data`, and a slice writes none of a register;
  * `DbfOp.Fits` -- what the registers have to say for that;
  * `indicesRight_iff` -- **the indices are right exactly then**.
-/
import Rabbits.Dbf.SliceIndices

namespace Rabbits

/-! ## 1. The operations -/

inductive DbfOp where
  | getData (address : Nat)
  | setData (address : Nat) (data : Byte)
  | clearSlice (slice : Fin N_SLICE_THREADS)
  | filterSlice (slice : Fin N_SLICE_THREADS)
  | sramCopy

/-- The indices that an operation uses, in their order. -/
def DbfOp.record (d : DbfDevice) : DbfOp → List DbfAccess
  | getData address => ((DbfCode.getData address).run d).2
  | setData address data => ((DbfCode.setData address data).run d).2
  | clearSlice slice => ((DbfCode.clearSlice slice).run d).2
  | filterSlice slice => ((DbfCode.filterSlice slice).run d).2
  | sramCopy => (DbfCode.masterRequest.run d).2

/-- Where the indices that an operation may write end. -/
def DbfOp.writeEnd : DbfOp → Nat
  | clearSlice _ => REG_GLO_VER
  | filterSlice _ => REG_GLO_VER
  | _ => FPGA_CHAR_SIZE

/-- Every index is inside `m_data`, and none that is written is behind the end. -/
structure IndicesRight (d : DbfDevice) (op : DbfOp) : Prop where
  inside : ∀ e ∈ op.record d, e.index < FPGA_CHAR_SIZE
  writes : ∀ a, .write a ∈ op.record d → a < op.writeEnd

/-- What an operation needs: an address that is not the one behind the last; where a slice is cleared,
    its end; where one is filtered, no edge at the registers (the accessors refuse what lies behind
    `m_data`); for a copy one of the three formats that fit, or an address that ends the program. -/
def DbfOp.Fits (d : DbfDevice) : DbfOp → Prop
  | getData address => address ≠ FPGA_CHAR_SIZE
  | setData address _ => address ≠ FPGA_CHAR_SIZE ∧
      ∀ slice : Fin N_SLICE_THREADS, address = REG_SLI_CLEAR + SLICE_OFFSET * slice →
        d.SliceEnds slice FPGA_CHAR_SIZE
  | clearSlice slice => d.SliceEnds slice REG_GLO_VER
  | filterSlice slice => ∀ c ∈ d.mbs slice, AtRegs c → SkipsMb d.width (d.offset slice) c
  | sramCopy => d.format ≠ 3 ∨ d.adrDest &&& 0x3#32 ≠ 0#32

/-! ## 2. When they are right -/

theorem DbfOp.writeEnd_le (op : DbfOp) : op.writeEnd ≤ FPGA_CHAR_SIZE := by
  unfold writeEnd
  split <;> decide

theorem indicesRight_iff_ok {d : DbfDevice} {op : DbfOp} :
    IndicesRight d op ↔ ∀ e ∈ op.record d, e.Ok op.writeEnd := by
  constructor
  · intro h e he
    cases e with
    | read a => exact h.inside _ he
    | write a => exact h.writes a he
  · intro h
    refine ⟨fun e he => ?_, fun a ha => h _ ha⟩
    cases e with
    | read a => exact h _ he
    | write a => exact (h _ he).trans_le op.writeEnd_le

/-- **The indices are right exactly where the operation fits.** -/
theorem indicesRight_iff (d : DbfDevice) (op : DbfOp) : IndicesRight d op ↔ op.Fits d := by
  rw [indicesRight_iff_ok]
  cases op with
  | getData address => exact DbfCode.getData_ok_iff
  | setData address data => exact DbfCode.setData_ok_iff
  | clearSlice slice => exact DbfCode.clearSlice_ok_iff slice
  | filterSlice slice =>
      refine (DbfCode.filterSlice_ok_iff slice).trans (forall₂_congr fun c _ => ?_)
      rw [not_and', not_not]
  | sramCopy => exact DbfCode.masterRequest_ok_iff

/-- One write to a length register of slice 0, and the slice cannot be cleared. -/
theorem indicesRight_fails : ∃ d : DbfDevice,
    (setData (REG_SLI_LGTOFF + 1) 0xFF#8).run .new = some ((), d) ∧
      ¬ IndicesRight d (.clearSlice ⟨0, slices_pos⟩) ∧
      ¬ IndicesRight d (.setData REG_SLI_CLEAR 1#8) := by
  have hrange : (DbfDevice.new.poke (REG_SLI_LGTOFF + 1) 0xFF#8).length 0 = 4080 ∧
      (DbfDevice.new.poke (REG_SLI_LGTOFF + 1) 0xFF#8).offset 0 = 0 := by decide
  have hends (stop : Nat) (h : stop ≤ FPGA_CHAR_SIZE) :
      ¬ (DbfDevice.new.poke (REG_SLI_LGTOFF + 1) 0xFF#8).SliceEnds 0 stop := by
    rw [DbfDevice.SliceEnds, hrange.1, hrange.2]
    simp only [MB_BLOCK_SIZE, FPGA_CHAR_SIZE] at *
    omega
  refine ⟨DbfDevice.new.poke (REG_SLI_LGTOFF + 1) 0xFF#8, rfl, fun h => ?_, fun h => ?_⟩
  · exact hends REG_GLO_VER (by decide)
      ((DbfCode.clearSlice_ok_iff ⟨0, slices_pos⟩).mp (indicesRight_iff_ok.mp h))
  · exact hends FPGA_CHAR_SIZE le_rfl
      ((DbfCode.setData_ok_iff.mp (indicesRight_iff_ok.mp h)).2 ⟨0, slices_pos⟩ (by decide))

end Rabbits
