/-
  File:      Rabbits/Driver/DbfLine.lean
  Subject:   The interrupt line of the deblocking filter and its Linux driver (dbf_device.cpp,
             h264dbf_int.c).

  The driver looks at bit 7 of INT_STATUS: with that bit down, its service routine leaves the
  status alone. The device sets the bit at the end of a slice or of a copy, where a status bit is
  enabled; a write to INT_ENABLE that raises the line does not. And an acknowledge reaches enabled
  bits only, so the one with which the driver begins, INT_ENABLE being 0, clears nothing.

  * `H264Sys.next` -- the accesses of the driver, its calls, the ends of slices and copies;
  * `acknowledged_iff` -- **exactly the runs in which no write to INT_ENABLE raises the line over a
    clear bit 7 keep the line acknowledgeable**;
  * `no_stale_bit_iff` -- **what the first registration leaves in the status is what it found**.
-/
import Rabbits.Dbf.IrqLine
import Rabbits.Driver.Delivery
import Rabbits.Lib.Labelled

namespace Rabbits

open Lib

/-! ## 1. The driver over the three values -/

namespace IrqLine

/-- The registers as `h264dbf_int_service` leaves them. -/
def service (l : IrqLine) : IrqLine :=
  if l.status ≤ 0x80#8 then l else l.ack (l.status &&& 0x7F#8)

/-- The registers as `h264dbf_int_register` leaves them. -/
def register (l : IrqLine) (irqEn : Bool) (type : Byte) : IrqLine :=
  let l := if irqEn then l else l.ack 0x7F#8
  l.setEnable (l.enable ||| type)

/-- A write to INT_ENABLE that raises the line finds bit 7 of the status set. -/
def RaisesMarked (l : IrqLine) (data : Byte) : Prop :=
  l.status &&& l.enable = 0#8 → l.status &&& (data &&& 0x7F#8) ≠ 0#8 → l.status.getLsbD 7 = true

instance (l : IrqLine) (data : Byte) : Decidable (l.RaisesMarked data) :=
  inferInstanceAs (Decidable (_ → _))

/-- The flag is set only with bit 7. -/
structure Marked (l : IrqLine) : Prop where
  ok : l.Ok
  mark : l.stat = true → l.status.getLsbD 7 = true

variable {l : IrqLine}

theorem acked_mark {s : Byte} (data : Byte) (h7 : s.getLsbD 7 = true)
    (hne : acked s data ≠ 0#8) : (acked s data).getLsbD 7 = true := by
  unfold acked at hne ⊢
  split
  · next h => simp [h] at hne
  · simp [h7]

theorem Marked.setEnable (h : l.Marked) {data : Byte} (hr : l.RaisesMarked data) :
    (l.setEnable data).Marked := by
  refine ⟨h.ok.setEnable data, fun hstat => ?_⟩
  simp only [IrqLine.setEnable] at hstat ⊢
  split at hstat
  · next hup => exact hr hup.1 hup.2
  · split at hstat
    · cases hstat
    · exact h.mark hstat

theorem Marked.ack (h : l.Marked) (data : Byte) : (l.ack data).Marked := by
  refine ⟨h.ok.ack data, fun hstat => ?_⟩
  unfold IrqLine.ack at hstat ⊢
  split
  · next hmeet =>
      rw [if_pos hmeet] at hstat
      simp only at hstat
      split at hstat
      · cases hstat
      · next hleft =>
          refine acked_mark data (h.mark hstat) fun h0 => hleft ?_
          rw [h0, BitVec.zero_and]
  · next hmeet =>
      rw [if_neg hmeet] at hstat
      exact h.mark hstat

theorem Marked.complete (h : l.Marked) (bits : Byte) : (l.complete bits).Marked := by
  refine ⟨h.ok.complete bits, fun hstat => ?_⟩
  unfold IrqLine.complete at hstat ⊢
  split
  · simp
  · next hmeet =>
      rw [if_neg hmeet] at hstat
      simp [h.mark hstat]

/-- Nothing of the status is enabled: an acknowledge does nothing. -/
theorem ack_of_disabled (h : l.status &&& l.enable = 0#8) (data : Byte) : l.ack data = l := by
  unfold IrqLine.ack
  rw [if_neg]
  rw [not_not, BitVec.and_assoc, h, BitVec.and_zero]

/-- Everything is acknowledged: nothing is left. -/
theorem acked_all (s : Byte) : acked s (s &&& 0x7F#8) = 0#8 ∧ acked s 0x7F#8 = 0#8 := by
  revert s
  decide

/-- The mask 0x7F takes nothing from what is enabled. -/
theorem Ok.masked (h : l.Ok) : l.status &&& 0x7F#8 &&& l.enable = l.status &&& l.enable := by
  rw [BitVec.and_assoc, BitVec.and_comm 0x7F#8, h.enable]

/-- **One run of the service routine** on a line that is up, with bit 7. -/
theorem Marked.service (h : l.Marked) (hstat : l.stat = true) : l.service.stat = false := by
  have hmeet := h.ok.stat.mp hstat
  have hle : ¬ l.status ≤ 0x80#8 := by
    intro hle
    have hall : ∀ s : Byte, s.getLsbD 7 = true → s ≤ 0x80#8 → s &&& 0x7F#8 = 0#8 := by decide
    refine hmeet ?_
    rw [← h.ok.masked, hall l.status (h.mark hstat) hle, BitVec.zero_and]
  have hself : l.status &&& 0x7F#8 &&& l.status &&& l.enable ≠ 0#8 := by
    rwa [BitVec.and_comm (l.status &&& 0x7F#8), ← BitVec.and_assoc, BitVec.and_self, h.ok.masked]
  rw [IrqLine.service, if_neg hle, IrqLine.ack, if_pos hself]
  simp only
  rw [(acked_all l.status).1, BitVec.zero_and, if_pos rfl]

theorem Marked.service_marked (h : l.Marked) : l.service.Marked := by
  unfold IrqLine.service
  split
  · exact h
  · exact h.ack _

/-- The acknowledge before the first registration clears everything or does nothing. -/
theorem Ok.ack_7F (h : l.Ok) :
    l.status &&& l.enable = 0#8 ∧ l.ack 0x7F#8 = l ∨ (l.ack 0x7F#8).status = 0#8 := by
  by_cases hmeet : l.status &&& l.enable = 0#8
  · exact .inl ⟨hmeet, ack_of_disabled hmeet _⟩
  · refine .inr ?_
    rw [IrqLine.ack, if_pos, (acked_all l.status).2]
    rwa [BitVec.and_comm 0x7F#8, h.masked]

theorem ack_enable (l : IrqLine) (data : Byte) : (l.ack data).enable = l.enable := by
  unfold IrqLine.ack
  split <;> rfl

theorem Marked.register (h : l.Marked) (irqEn : Bool) {type : Byte}
    (hr : l.RaisesMarked (l.enable ||| type)) : (l.register irqEn type).Marked := by
  unfold IrqLine.register
  cases irqEn with
  | true => exact h.setEnable hr
  | false =>
      refine (h.ack 0x7F#8).setEnable ?_
      show (l.ack 0x7F#8).RaisesMarked ((l.ack 0x7F#8).enable ||| type)
      rw [ack_enable]
      rcases h.ok.ack_7F with ⟨-, hid⟩ | h0
      · rwa [hid]
      · intro _ hup
        rw [h0, BitVec.zero_and] at hup
        exact absurd rfl hup

/-- A write that enables less raises nothing. -/
theorem raisesMarked_of_le {data : Byte} (h : l.status &&& l.enable = 0#8 → l.status &&& data = 0#8) :
    l.RaisesMarked data := by
  intro h0 hup
  refine absurd ?_ hup
  rw [← BitVec.and_assoc, h h0, BitVec.zero_and]

/-- A write that raises the line over a clear bit 7 leaves it up without the bit. -/
theorem not_marked_of_raises {data : Byte} (hr : ¬ l.RaisesMarked data) :
    (l.setEnable data).stat = true ∧ (l.setEnable data).status.getLsbD 7 = false := by
  simp only [RaisesMarked, Classical.not_imp] at hr
  obtain ⟨h0, hup, h7⟩ := hr
  exact ⟨if_pos ⟨h0, hup⟩, Bool.eq_false_iff.mpr h7⟩

theorem not_marked_of_register (irqEn : Bool) {type : Byte}
    (hr : ¬ l.RaisesMarked (l.enable ||| type)) :
    (l.register irqEn type).stat = true ∧ (l.register irqEn type).status.getLsbD 7 = false := by
  have hid : l.ack 0x7F#8 = l := ack_of_disabled (by simp_all [RaisesMarked]) _
  cases irqEn with
  | true => exact not_marked_of_raises hr
  | false =>
      simp only [IrqLine.register, hid, Bool.false_eq_true, if_false]
      exact not_marked_of_raises hr

end IrqLine

/-! ## 2. The accesses of the driver -/

variable {d d' : DbfDevice}

theorem clearsBelow_of_le {a : Nat} (ha : REG_NSLICES ≤ a) : ClearsBelow d a := by
  intro i hi
  simp only [REG_NSLICES, REG_SLI_CLEAR, SLICE_OFFSET, N_SLICE_THREADS] at *
  omega

theorem writeb_line {a : Nat} (ha : REG_NSLICES ≤ a) (hsize : a ≤ FPGA_CHAR_SIZE) (d : DbfDevice)
    (v : Byte) : (d.writeb a v).line = d.line.access a v := by
  have hsome : ∃ d', (setData a v).run d = some ((), d') := by
    simp only [StateT.run, setData, if_neg (Nat.not_lt.mpr hsize)]
    split
    · exact ⟨_, rfl⟩
    · split <;> exact ⟨_, rfl⟩
  obtain ⟨d', hrun⟩ := hsome
  rw [DbfDevice.writeb, hrun]
  exact (setData_spec hrun (clearsBelow_of_le ha)).1

/-- A `writel` to INT_ENABLE: the three bytes behind the register are of no effect. -/
theorem writel_enable_line (d : DbfDevice) (v : BitVec 32) :
    (d.writel H264DBF_INT_ENABLE v).line = d.line.setEnable (v.extractLsb' 0 8) := by
  have hrange : List.range 4 = [0, 1, 2, 3] := by decide
  have hnext {i : Nat} (h1 : 1 ≤ i) (h3 : i ≤ 3) (e : DbfDevice) (b : Byte) :
      (e.writeb (H264DBF_INT_ENABLE + i) b).line = e.line := by
    simp only [H264DBF_INT_ENABLE]
    rw [writeb_line (by simp only [REG_NSLICES]; omega) (by simp only [FPGA_CHAR_SIZE]; omega),
      IrqLine.access, if_neg (by simp only [REG_INT_ENABLE]; omega),
      if_neg (by simp only [REG_INT_ACK]; omega)]
  simp only [DbfDevice.writel, hrange, List.foldl_cons, List.foldl_nil]
  rw [hnext (by decide) (by decide), hnext (by decide) (by decide), hnext (by decide) (by decide),
    writeb_line (by decide) (by decide)]
  rfl

theorem writeb_ack_line (d : DbfDevice) (v : Byte) :
    (d.writeb H264DBF_INT_ACK v).line = d.line.ack v := by
  rw [writeb_line (by decide) (by decide)]
  rfl

theorem readl_enable (d : DbfDevice) :
    (d.readl H264DBF_INT_ENABLE).extractLsb' 0 8 = d.line.enable := by
  have happend (x : BitVec 24) (y : Byte) : (x ++ y).extractLsb' 0 8 = y := by
    ext i hi
    rw [BitVec.getElem_extractLsb', Nat.zero_add, BitVec.getLsbD_append]
    simp [hi]
  exact happend _ _

/-! ## 3. The calls of the driver -/

variable (s : H264Sys)

theorem service_line : (h264dbfIntService s).1.dbf.line = s.dbf.line.service := by
  unfold h264dbfIntService IrqLine.service
  by_cases hle : s.dbf.readb H264DBF_INT_STATUS ≤ 0x80#8
  · have hle' : s.dbf.line.status ≤ 0x80#8 := hle
    rw [if_pos hle']
    simp only [if_pos hle]
  · have hle' : ¬ s.dbf.line.status ≤ 0x80#8 := hle
    rw [if_neg hle']
    simp only [if_neg hle]
    exact writeb_ack_line _ _

theorem enable_line (requestIrq : Bool) : (h264dbfIntEnable s requestIrq).dbf.line =
    if s.irqEn then s.dbf.line else s.dbf.line.ack 0x7F#8 := by
  unfold h264dbfIntEnable
  split
  · rfl
  · simp only
    split <;> exact writeb_ack_line _ _

theorem register_line {id type : BitVec 32} {requestIrq : Bool} {s' : H264Sys}
    (h : h264dbfIntRegister s id type requestIrq = some s') :
    s'.dbf.line = s.dbf.line.register s.irqEn (type.extractLsb' 0 8) := by
  simp only [h264dbfIntRegister] at h
  split at h
  · cases h
  · cases h
    rw [writel_enable_line, BitVec.extractLsb'_or, readl_enable, enable_line]
    rfl

/-- `h264dbf_int_unregister` writes INT_ENABLE once, or once more with 0; both writes enable less. -/
theorem unregister_line {id : BitVec 32} {s' : H264Sys} (h : h264dbfIntUnregister s id = some s') :
    ∃ type, s'.dbf.line = s.dbf.line.setEnable (s.dbf.line.enable &&& ~~~type) ∨
      s'.dbf.line = (s.dbf.line.setEnable (s.dbf.line.enable &&& ~~~type)).setEnable 0#8 := by
  simp only [h264dbfIntUnregister] at h
  split at h
  · cases h
  · refine ⟨(s.irqs id.toNat).type.extractLsb' 0 8, ?_⟩
    have hfirst : (s.dbf.writel H264DBF_INT_ENABLE (s.dbf.readl H264DBF_INT_ENABLE &&&
        ~~~(s.irqs id.toNat).type)).line =
        s.dbf.line.setEnable (s.dbf.line.enable &&& ~~~(s.irqs id.toNat).type.extractLsb' 0 8) := by
      rw [writel_enable_line, BitVec.extractLsb'_and, readl_enable,
        BitVec.extractLsb'_not_of_lt (by decide)]
    simp only [h264dbfIntDisable] at h
    split at h
    · cases h
      exact .inr ((writel_enable_line _ _).trans (congrArg (IrqLine.setEnable · 0#8) hfirst))
    · cases h
      exact .inl hfirst

/-! ## 4. Runs -/

/-- A `writel` to INT_ENABLE, a `writeb` to INT_ACK, the end of a slice, the end of a copy, a run of
    the service routine, and the two calls (`requestIrq` is the result of `request_irq`). -/
inductive DbfIrqEvent where
  | intEnable (v : BitVec 32)
  | intAck (v : Byte)
  | sliceEnd (slice : Fin N_SLICE_THREADS)
  | copyEnd
  | service
  | register (id type : BitVec 32) (requestIrq : Bool)
  | unregister (id : BitVec 32)

/-- A call that returns an error leaves everything as it is. -/
def H264Sys.next (s : H264Sys) : DbfIrqEvent → Option H264Sys
  | .intEnable v => some { s with dbf := s.dbf.writel H264DBF_INT_ENABLE v }
  | .intAck v => some { s with dbf := s.dbf.writeb H264DBF_INT_ACK v }
  | .sliceEnd slice => ((processSliceEnd slice).run s.dbf).map fun r => { s with dbf := r.2 }
  | .copyEnd => (masterRequestEnd.run s.dbf).map fun r => { s with dbf := r.2 }
  | .service => some (h264dbfIntService s).1
  | .register id type requestIrq => some ((h264dbfIntRegister s id type requestIrq).getD s)
  | .unregister id => some ((h264dbfIntUnregister s id).getD s)

variable {s} {s' : H264Sys}

/-- What a step does to the three values. -/
inductive LineStep (s : H264Sys) : DbfIrqEvent → IrqLine → Prop where
  | intEnable (v : BitVec 32) :
      LineStep s (.intEnable v) (s.dbf.line.setEnable (v.extractLsb' 0 8))
  | intAck (v : Byte) : LineStep s (.intAck v) (s.dbf.line.ack v)
  | sliceEnd (slice : Fin N_SLICE_THREADS) (bits : Byte) :
      LineStep s (.sliceEnd slice) (s.dbf.line.complete bits)
  | copyEnd : LineStep s .copyEnd (s.dbf.line.complete (statusBit REG_STATUS_BIT_SRAM))
  | service : LineStep s .service s.dbf.line.service
  | register (id type : BitVec 32) (requestIrq : Bool) (hid : invalidId id = false) :
      LineStep s (.register id type requestIrq) (s.dbf.line.register s.irqEn (type.extractLsb' 0 8))
  | unregister (id : BitVec 32) (type : Byte) :
      LineStep s (.unregister id) (s.dbf.line.setEnable (s.dbf.line.enable &&& ~~~type))
  | unregisterLast (id : BitVec 32) (type : Byte) :
      LineStep s (.unregister id)
        ((s.dbf.line.setEnable (s.dbf.line.enable &&& ~~~type)).setEnable 0#8)
  | invalidRegister (id type : BitVec 32) (requestIrq : Bool) (hid : invalidId id = true) :
      LineStep s (.register id type requestIrq) s.dbf.line
  | invalidUnregister (id : BitVec 32) : LineStep s (.unregister id) s.dbf.line

/-- **Each step in terms of the three values.** -/
theorem next_line {e : DbfIrqEvent} (h : s.next e = some s') : LineStep s e s'.dbf.line := by
  cases e with
  | intEnable v =>
      cases h
      exact writel_enable_line s.dbf v ▸ .intEnable v
  | intAck v =>
      cases h
      exact writeb_ack_line s.dbf v ▸ .intAck v
  | sliceEnd slice =>
      simp only [H264Sys.next] at h
      obtain ⟨⟨⟨⟩, d⟩, hrun, rfl⟩ := Option.map_eq_some_iff.mp h
      obtain ⟨bits, hline, -⟩ := processSliceEnd_line slice.isLt hrun
      exact hline ▸ .sliceEnd slice bits
  | copyEnd =>
      simp only [H264Sys.next] at h
      obtain ⟨⟨⟨⟩, d⟩, hrun, rfl⟩ := Option.map_eq_some_iff.mp h
      exact (masterRequestEnd_line hrun).1 ▸ .copyEnd
  | service =>
      cases h
      exact service_line s ▸ .service
  | register id type requestIrq =>
      cases h
      cases hr : h264dbfIntRegister s id type requestIrq with
      | none =>
          refine .invalidRegister id type requestIrq ?_
          simp only [h264dbfIntRegister] at hr
          split at hr
          · assumption
          · cases hr
      | some s' =>
          have hid : invalidId id = false := by
            cases hid : invalidId id with
            | false => rfl
            | true => simp [h264dbfIntRegister, hid] at hr
          exact register_line s hr ▸ .register id type requestIrq hid
  | unregister id =>
      cases h
      cases hu : h264dbfIntUnregister s id with
      | none => exact .invalidUnregister id
      | some s' =>
          obtain ⟨type, hline | hline⟩ := unregister_line s hu
          · exact hline ▸ .unregister id type
          · exact hline ▸ .unregisterLast id type

/-- The line can be acknowledged: while it is up, bit 7 of the status is set, and one run of the
    service routine takes it down. -/
structure Acknowledged (s : H264Sys) : Prop where
  mark : s.dbf.irqStat = true → (s.dbf.mData REG_INT_STATUS).getLsbD 7 = true
  service : s.dbf.irqStat = true → (h264dbfIntService s).1.dbf.irqStat = false

/-- A write to INT_ENABLE that raises the line, the one of a registration included, finds bit 7 of
    the status set. -/
def EnableFindsMark (s : H264Sys) : DbfIrqEvent → Prop
  | .intEnable v => s.dbf.line.RaisesMarked (v.extractLsb' 0 8)
  | .register id type _ =>
      invalidId id = false → s.dbf.line.RaisesMarked (s.dbf.line.enable ||| type.extractLsb' 0 8)
  | _ => True

theorem acknowledged_of_marked (h : s.dbf.line.Marked) : Acknowledged s := by
  refine ⟨h.mark, fun hstat => ?_⟩
  have hline : (h264dbfIntService s).1.dbf.irqStat = s.dbf.line.service.stat :=
    congrArg IrqLine.stat (service_line s)
  rw [hline]
  exact h.service hstat

theorem marked_next {e : DbfIrqEvent} (h : s.dbf.line.Marked) (he : EnableFindsMark s e)
    (hs : s.next e = some s') : s'.dbf.line.Marked := by
  have hless (l : IrqLine) (type : Byte) : l.RaisesMarked (l.enable &&& ~~~type) :=
    IrqLine.raisesMarked_of_le fun h0 => by rw [← BitVec.and_assoc, h0, BitVec.zero_and]
  have hstep := next_line hs
  generalize s'.dbf.line = l' at hstep
  cases hstep with
  | intEnable v => exact h.setEnable he
  | intAck v => exact h.ack v
  | sliceEnd slice bits => exact h.complete bits
  | copyEnd => exact h.complete _
  | service => exact h.service_marked
  | register id type requestIrq hid => exact h.register _ (he hid)
  | unregister id type => exact h.setEnable (hless _ type)
  | unregisterLast id type =>
      refine (h.setEnable (hless _ type)).setEnable (IrqLine.raisesMarked_of_le fun _ => ?_)
      exact BitVec.and_zero
  | invalidRegister id type requestIrq hid => exact h
  | invalidUnregister id => exact h

theorem not_acknowledged {e : DbfIrqEvent} (he : ¬ EnableFindsMark s e)
    (hs : s.next e = some s') : ¬ Acknowledged s' := by
  have hup : s'.dbf.line.stat = true ∧ s'.dbf.line.status.getLsbD 7 = false := by
    have hstep := next_line hs
    generalize s'.dbf.line = l' at hstep
    cases hstep with
    | intEnable v => exact IrqLine.not_marked_of_raises he
    | register id type requestIrq hid =>
        exact IrqLine.not_marked_of_register s.irqEn fun hr => he fun _ => hr
    | invalidRegister id type requestIrq hid =>
        exact absurd (fun hv => by rw [hid] at hv; cases hv) he
    | intAck v => exact absurd trivial he
    | sliceEnd slice bits => exact absurd trivial he
    | copyEnd => exact absurd trivial he
    | service => exact absurd trivial he
    | unregister id type => exact absurd trivial he
    | unregisterLast id type => exact absurd trivial he
    | invalidUnregister id => exact absurd trivial he
  intro h
  exact absurd (h.mark hup.1) (Bool.eq_false_iff.mp hup.2)

/-- **When the line can always be acknowledged**: in every run of the device and its driver, all
    along, exactly if every write to INT_ENABLE that raises the line finds bit 7 set. -/
theorem acknowledged_iff (es : List DbfIrqEvent) :
    Along H264Sys.next Acknowledged .init es ↔ Steps H264Sys.next EnableFindsMark .init es :=
  along_iff_steps (fun _ h => acknowledged_of_marked h) (fun _ _ _ h he hs => marked_next h he hs)
    (fun _ _ _ _ he hs => not_acknowledged he hs) es
    (I := fun s => s.dbf.line.Marked) ⟨⟨rfl, by decide⟩, fun h => by cases h⟩

/-- A slice ends with nothing enabled, then a process registers for it: the line is up, and the
    service routine leaves it up. -/
theorem register_sticks :
    ¬ Along H264Sys.next Acknowledged .init
      [.sliceEnd ⟨0, slices_pos⟩, .register 0#32 0x1#32 true] := by
  intro h
  have hlast := ((h.2 _ rfl).2 _ rfl).mark (by decide)
  exact absurd hlast (by decide)

/-! ## 5. The first registration -/

/-- The end of a slice or of a copy. -/
def IsCompletion : DbfIrqEvent → Prop
  | .sliceEnd _ => True
  | .copyEnd => True
  | _ => False

theorem IrqLine.acked_sub {st : Byte} (data : Byte) (h : st &&& 0x7F#8 = 0#8) :
    IrqLine.acked st data &&& 0x7F#8 = 0#8 := by
  unfold IrqLine.acked
  split
  · simp
  · rw [BitVec.and_comm st, BitVec.and_assoc, h, BitVec.and_zero]

theorem IrqLine.ack_sub {l : IrqLine} (data : Byte) (h : l.status &&& 0x7F#8 = 0#8) :
    (l.ack data).status &&& 0x7F#8 = 0#8 := by
  unfold IrqLine.ack
  split
  · exact acked_sub data h
  · exact h

/-- Without a completion no status bit goes up. -/
theorem status_clear_next {e : DbfIrqEvent} (he : ¬ IsCompletion e)
    (h : s.dbf.line.status &&& 0x7F#8 = 0#8) (hs : s.next e = some s') :
    s'.dbf.line.status &&& 0x7F#8 = 0#8 := by
  have hstep := next_line hs
  generalize s'.dbf.line = l' at hstep
  cases hstep with
  | intEnable v => exact h
  | intAck v => exact IrqLine.ack_sub v h
  | sliceEnd slice bits => exact absurd trivial he
  | copyEnd => exact absurd trivial he
  | service =>
      unfold IrqLine.service
      split
      · exact h
      · exact IrqLine.ack_sub _ h
  | register id type requestIrq hid =>
      unfold IrqLine.register
      split
      · exact h
      · exact IrqLine.ack_sub _ h
  | unregister id type => exact h
  | unregisterLast id type => exact h
  | invalidRegister id type requestIrq hid => exact h
  | invalidUnregister id => exact h

theorem status_clear_exec {es : List DbfIrqEvent} (hes : ∀ e ∈ es, ¬ IsCompletion e)
    (h : s.dbf.line.status &&& 0x7F#8 = 0#8) (hrun : exec H264Sys.next s es = some s') :
    s'.dbf.line.status &&& 0x7F#8 = 0#8 := by
  induction es generalizing s with
  | nil =>
      cases hrun
      exact h
  | cons e es ih =>
      obtain ⟨t, ht, hrun⟩ := exec_cons_eq_some hrun
      exact ih (fun e he => hes e (.tail _ he)) (status_clear_next (hes e (.head _)) h ht) hrun

/-- No registration, of any id and type, is followed by a status bit below bit 7 before a new
    completion. -/
def NoStaleBit (s : H264Sys) : Prop :=
  ∀ id type requestIrq later t, (∀ e ∈ later, ¬ IsCompletion e) →
    exec H264Sys.next s (.register id type requestIrq :: later) = some t →
    t.dbf.mData REG_INT_STATUS &&& 0x7F#8 = 0#8

/-- **What is left of the past after the first registration.** After any history that ends with no
    interrupt registered and INT_ENABLE 0, no bit of that history is left after the next
    registration exactly if none is left before it. -/
theorem no_stale_bit_iff : ∀ past s, exec H264Sys.next .init past = some s → s.irqEn = false →
    s.dbf.mData REG_INT_ENABLE = 0#8 →
    (NoStaleBit s ↔ s.dbf.mData REG_INT_STATUS &&& 0x7F#8 = 0#8) := by
  intro past s _ hoff henable
  constructor
  · intro h
    have hstep : s.next (.register 0#32 0#32 true) =
        some ((h264dbfIntRegister s 0#32 0#32 true).getD s) := rfl
    have hrun : exec H264Sys.next s [.register 0#32 0#32 true] =
        some ((h264dbfIntRegister s 0#32 0#32 true).getD s) := by rw [exec_cons hstep, exec_nil]
    have hclear := h 0#32 0#32 true [] _ (by simp) hrun
    obtain ⟨s', hreg⟩ : ∃ s', h264dbfIntRegister s 0#32 0#32 true = some s' := ⟨_, rfl⟩
    have hline := register_line s hreg
    have hdisabled : s.dbf.line.status &&& s.dbf.line.enable = 0#8 := by
      have he : s.dbf.line.enable = 0#8 := henable
      rw [he, BitVec.and_zero]
    rw [IrqLine.register, hoff, IrqLine.ack_of_disabled hdisabled] at hline
    have hsame : s'.dbf.line.status = s.dbf.line.status := by
      rw [hline]
      simp [IrqLine.setEnable]
    rw [hreg] at hclear
    have hclear' : s'.dbf.line.status &&& 0x7F#8 = 0#8 := hclear
    rwa [hsame] at hclear'
  · intro h id type requestIrq later t hlater hrun
    refine status_clear_exec (fun e he => ?_) h hrun
    rcases List.mem_cons.mp he with rfl | he
    · exact fun hc => hc
    · exact hlater e he

/-- A slice ends for a process that is registered for it; the service routine acknowledges it, and
    the process unregisters. -/
theorem no_stale_bit_afterUse : ∃ s, exec H264Sys.next .init [.register 0#32 0x1#32 true,
    .sliceEnd ⟨0, slices_pos⟩, .service, .unregister 0#32] = some s ∧
    s.irqEn = false ∧ s.dbf.mData REG_INT_ENABLE = 0#8 ∧ NoStaleBit s := by
  have hrun : exec H264Sys.next .init [.register 0#32 0x1#32 true, .sliceEnd ⟨0, slices_pos⟩,
    .service, .unregister 0#32] = some _ := rfl
  exact ⟨_, hrun, rfl, rfl, (no_stale_bit_iff _ _ hrun rfl rfl).mpr rfl⟩

/-- A slice ends before anything is registered: its bits are in the status after the first
    registration. -/
theorem stale_bit_left : ∃ s, exec H264Sys.next .init [.sliceEnd ⟨0, slices_pos⟩] = some s ∧
    s.irqEn = false ∧ s.dbf.mData REG_INT_ENABLE = 0#8 ∧ ¬ NoStaleBit s := by
  refine ⟨_, rfl, rfl, rfl, fun h => ?_⟩
  have hclear := h 0#32 0x1#32 true [] _ (by simp) rfl
  exact absurd hclear (by decide)

end Rabbits
