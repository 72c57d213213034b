/-
  File:      Rabbits/Aicu/AicuDevice.lean
  Subject:   The interrupt controller (aicu_device.cpp: the constructor, reset_registers, write, read,
             irq_update_thread).

  Accesses change the registers and notify the thread, which sets the outputs. It sees the edges of
  the delta cycle in which it runs.

  * `AicuPorts`, `AicuDevice` -- the sizes; the registers, the signals and the thread;
  * `write`, `read`, `irqUpdate` -- the operations; `AicuDevice.next` -- a step;
  * `OutputsRight`, `ClearsOwn` -- **the properties**: an output is high exactly for a pending
    interrupt of an enabled controller; a read of `AICU_ADDR` clears the one whose handler it returns;
  * `outputs_right_iff` -- **in which runs these hold**: no output is high when the controller is
    disabled, and every read of `AICU_ADDR` finds its interrupt.
-/
import Rabbits.Cpu.IntPending
import Rabbits.Lib.Labelled
import Rabbits.Noc.MasterDevice
import Rabbits.Noc.SlaveDevice

namespace Rabbits

open Lib

/-! ## 1. The device -/

/-- The arguments of the constructor: outputs, global inputs, and local inputs of each output. -/
structure AicuPorts where
  O : Nat
  G : Nat
  L : Nat
  -- "Limited to 32 interrupts for now"
  fits : G + L ≤ 32

/-- `aicu_device`: the registers, `irq_out` as last written, the edges of `irq_in` in this delta
    cycle, and whether the thread is ready to run. -/
structure AicuDevice where
  control : ULong
  handlers : Nat → ULong
  stat : Nat → ULong
  mask : Nat → ULong
  crtIrq : Nat → Nat
  irqOut : Nat → Bool
  edges : Nat → Edge
  ready : Bool

def AICU_CTRL : Nat := 0
def AICU_HANDLER0 : Nat := 4
def AICU_HANDLER31 : Nat := 35
def AICU_LOCAL : Nat := 0x100 / 4
def AICU_SPAN : Nat := 0x10 / 4

/-- The registers. -/
inductive AicuReg where
  | ctrl
  | handler (n : Nat)
  | stat (nbIcu : Nat)
  | mask (nbIcu : Nat)
  | addr (nbIcu : Nat)
  | irq (nbIcu : Nat)
  deriving DecidableEq

/-- The register that an access is to, by the switches of `write` and `read`. -/
def AicuPorts.decode (p : AicuPorts) (ofs : ULong) (be : Byte) : Option AicuReg :=
  let lofs := (lofsOf ofs be).toNat
  if lofs < AICU_LOCAL then
    if lofs = AICU_CTRL then some .ctrl
    else if AICU_HANDLER0 ≤ lofs ∧ lofs ≤ AICU_HANDLER31 ∧ lofs - AICU_HANDLER0 < p.L + p.G then
      some (.handler (lofs - AICU_HANDLER0))
    -- "Bad %s::%s ofs=0x%X, be=0x%X! (GLOBAL)\n"
    else none
  else
    let nbIcu := (lofs - AICU_LOCAL) / AICU_SPAN
    -- "Out of range\n"
    if p.O ≤ nbIcu then none
    else
      match (lofs - AICU_LOCAL) % AICU_SPAN with
      | 0 => some (.stat nbIcu)
      | 1 => some (.mask nbIcu)
      | 2 => some (.addr nbIcu)
      | _ => some (.irq nbIcu)

namespace AicuDevice

/-- `reset_registers`. -/
def resetRegisters (d : AicuDevice) : AicuDevice :=
  { d with
    handlers := fun _ => 0#32
    stat := fun _ => 0#32
    mask := fun _ => 0#32
    crtIrq := fun _ => 0 }

/-- The constructor; the thread waits. -/
def new : AicuDevice :=
  ⟨0#32, fun _ => 0#32, fun _ => 0#32, fun _ => 0#32, fun _ => 0, fun _ => false, fun _ => .same, false⟩

/-- `ev_irq_update.notify ()`. -/
def notify (d : AicuDevice) : AicuDevice := { d with ready := true }

/-- `write` to a register; `none` is the exit. -/
def writeReg (d : AicuDevice) (value : ULong) : AicuReg → Option AicuDevice
  | .ctrl =>
      -- the S bit
      let d := if (d.control ^^^ value) &&& 1#32 ≠ 0#32 then d.resetRegisters else d
      some { d with control := value }
  | .handler n => some { d with handlers := Function.update d.handlers n value }
  | .stat i => some { d with stat := Function.update d.stat i (d.stat i &&& ~~~value) }.notify
  | .mask i => some { d with mask := Function.update d.mask i value }.notify
  -- "Bad %s::%s ofs=0x%x, be=0x%x data: 0x%x! (LOCAL) %d\n"
  | .addr _ => none
  | .irq _ => none

/-- `read` of a register: the device and `*val`. -/
def readReg (p : AicuPorts) (d : AicuDevice) : AicuReg → Option (AicuDevice × ULong)
  | .ctrl => some (d, d.control)
  | .handler n => some (d, d.handlers n)
  | .stat i => some (d, d.stat i)
  | .mask i => some (d, d.mask i)
  | .addr i =>
      -- without inputs this is behind `m_handlers`
      if p.G + p.L ≤ d.crtIrq i then none
      else
        some ({ d with stat := Function.update d.stat i (d.stat i &&& ~~~bit (d.crtIrq i)) }.notify,
          d.handlers (d.crtIrq i))
  | .irq i => some (d, BitVec.ofNat 32 (d.crtIrq i))

/-- `write`, which leaves `bErr` as false where it returns. -/
def write (p : AicuPorts) (d : AicuDevice) (ofs : ULong) (be : Byte) (data : Fin 8 → Byte) :
    Option AicuDevice :=
  (p.decode ofs be).bind (d.writeReg (valueOf be data))

/-- `read`, in the same way. -/
def read (p : AicuPorts) (d : AicuDevice) (ofs : ULong) (be : Byte) : Option (AicuDevice × ULong) :=
  (p.decode ofs be).bind (d.readReg p)

end AicuDevice

/-! ## 2. The thread -/

/-- `ind_in`. -/
def AicuPorts.indIn (p : AicuPorts) (i j : Nat) : Nat :=
  if j < p.L then p.O * j + i else p.O * p.L + (j - p.L)

/-- A turn of the first inner loop. -/
def edgeStat (edge : Edge) (j : Nat) (stat : ULong) : ULong :=
  match edge with
  | .posedge => stat ||| bit j
  | .negedge => stat &&& ~~~bit j
  | .same => stat

/-- The second inner loop, up to its `break`. -/
def lowestOf (n : Nat) (x : ULong) : Option Nat := (List.range n).find? fun j => x &&& bit j != 0#32

namespace AicuDevice

/-- `m_stat[i]` behind the first inner loop. -/
def newStat (p : AicuPorts) (d : AicuDevice) (i : Nat) : ULong :=
  (List.range (p.L + p.G)).foldl (fun stat j => edgeStat (d.edges (p.indIn i j)) j stat) (d.stat i)

/-- `m_crt_irq[i]` behind the second one. -/
def newCrtIrq (p : AicuPorts) (d : AicuDevice) (i : Nat) : Nat :=
  (lowestOf (p.L + p.G) (d.newStat p i &&& d.mask i)).getD (d.crtIrq i)

/-- A turn of the outer loop. -/
def updateOutput (p : AicuPorts) (d : AicuDevice) (i : Nat) : AicuDevice :=
  { d with
    stat := Function.update d.stat i (d.newStat p i)
    crtIrq := Function.update d.crtIrq i (d.newCrtIrq p i)
    irqOut := Function.update d.irqOut i (d.newStat p i &&& d.mask i != 0#32) }

/-- A turn of `irq_update_thread`, up to its `wait`. -/
def irqUpdate (p : AicuPorts) (d : AicuDevice) : AicuDevice :=
  let d := { d with ready := false }
  if d.control &&& 1#32 = 0#32 then d else (List.range p.O).foldl (updateOutput p) d

/-- The next delta cycle, once the thread has run: an edge of an input makes it ready. -/
def nextDelta (p : AicuPorts) (d : AicuDevice) (edges : Nat → Edge) : Option AicuDevice :=
  if d.ready then none
  else
    some { d with
      edges := edges
      ready := (List.range (p.G + p.L * p.O)).any fun k => edges k != .same }

end AicuDevice

inductive AicuEvent where
  | write (ofs : ULong) (be : Byte) (data : Fin 8 → Byte)
  | read (ofs : ULong) (be : Byte)
  | irqUpdate
  | nextDelta (edges : Nat → Edge)

def AicuDevice.next (p : AicuPorts) (d : AicuDevice) : AicuEvent → Option AicuDevice
  | .write ofs be data => d.write p ofs be data
  | .read ofs be => (d.read p ofs be).map Prod.fst
  | .irqUpdate => if d.ready then some (d.irqUpdate p) else none
  | .nextDelta edges => d.nextDelta p edges

/-! ## 3. The properties -/

namespace AicuDevice

/-- The interrupts of an output that are pending and unmasked. -/
def pending (d : AicuDevice) (i : Nat) : ULong := d.stat i &&& d.mask i

def enabled (d : AicuDevice) : Prop := d.control &&& 1#32 ≠ 0#32

/-- The device with all notified updates served. -/
def served (p : AicuPorts) (d : AicuDevice) : AicuDevice := if d.ready then d.irqUpdate p else d

/-- An output is high exactly for a pending interrupt of an enabled controller, and `m_crt_irq` is
    then the lowest one. -/
structure OutputsRight (p : AicuPorts) (d : AicuDevice) : Prop where
  high : ∀ i < p.O, d.irqOut i = true ↔ d.enabled ∧ d.pending i ≠ 0#32
  lowest : ∀ i < p.O, d.irqOut i = true → FirstBit (d.pending i) (d.crtIrq i)

/-- From `d` to `d'` one pending interrupt of the output is cleared, whose handler is `val`; where
    none is pending, nothing is. -/
structure ClearsOwn (d : AicuDevice) (i : Nat) (d' : AicuDevice) (val : ULong) : Prop where
  own : d.pending i ≠ 0#32 → ∃ j, (d.pending i).getLsbD j = true ∧ val = d.handlers j ∧
    d'.stat = Function.update d.stat i (d.stat i &&& ~~~bit j)
  none : d.pending i = 0#32 → d'.stat = d.stat

/-- A read of `AICU_ADDR` clears the interrupt whose handler it returns. -/
def ReadsRight (p : AicuPorts) (d : AicuDevice) : AicuEvent → Prop
  | .read ofs be => ∀ i, p.decode ofs be = some (.addr i) →
      ∀ d' val, d.read p ofs be = some (d', val) → d.ClearsOwn i d' val
  | .write _ _ _ => True
  | .irqUpdate => True
  | .nextDelta _ => True

/-- `m_crt_irq` of the output is pending and unmasked; or nothing is, and it is not pending. -/
def Current (d : AicuDevice) (i : Nat) : Prop :=
  (d.pending i).getLsbD (d.crtIrq i) = true ∨
    d.pending i = 0#32 ∧ (d.stat i).getLsbD (d.crtIrq i) = false

/-- A write that leaves the controller disabled finds every output low, and a read of `AICU_ADDR`
    a current interrupt. -/
def Careful (p : AicuPorts) (d : AicuDevice) : AicuEvent → Prop
  | .write ofs be data => p.decode ofs be = some .ctrl → valueOf be data &&& 1#32 = 0#32 →
      ∀ i < p.O, d.irqOut i = false
  | .read ofs be => ∀ i, p.decode ofs be = some (.addr i) → d.Current i
  | .irqUpdate => True
  | .nextDelta _ => True

/-! ## 4. What the thread does -/

variable {p : AicuPorts} {d d' : AicuDevice}

theorem andNot_bit_getLsbD {k : Nat} (hk : k < 32) (x : ULong) (j : Nat) :
    (x &&& ~~~bit k).getLsbD j = (x.getLsbD j && decide (j ≠ k)) := by
  rw [BitVec.getLsbD_and, BitVec.getLsbD_not, getLsbD_bit hk]
  by_cases h32 : j < 32
  · simp [h32]
  · simp [BitVec.getLsbD_of_ge x j (Nat.le_of_not_lt h32)]

theorem edgeStat_getLsbD (e : Edge) {j k : Nat} (hj : j < 32) (hk : k ≠ j) (stat : ULong) :
    (edgeStat e j stat).getLsbD k = stat.getLsbD k := by
  cases e with
  | same => rfl
  | posedge =>
      rw [edgeStat, BitVec.getLsbD_or, getLsbD_bit hj, decide_eq_false hk, Bool.or_false]
  | negedge => rw [edgeStat, andNot_bit_getLsbD hj, decide_eq_true hk, Bool.and_true]

/-- The loop over the inputs leaves the bits behind them. -/
theorem newStat_getLsbD (d : AicuDevice) (i : Nat) {k : Nat} (hk : p.L + p.G ≤ k) :
    (d.newStat p i).getLsbD k = (d.stat i).getLsbD k := by
  have hfold : ∀ (js : List Nat) (stat : ULong), (∀ j ∈ js, j < p.L + p.G) →
      (js.foldl (fun stat j => edgeStat (d.edges (p.indIn i j)) j stat) stat).getLsbD k =
        stat.getLsbD k := by
    intro js
    induction js with
    | nil => exact fun _ _ => rfl
    | cons j js ih =>
        intro stat hjs
        have hj := hjs j List.mem_cons_self
        have hfits := p.fits
        rw [List.foldl_cons, ih _ fun j' hj' => hjs j' (List.mem_cons_of_mem _ hj')]
        exact edgeStat_getLsbD _ (by omega) (by omega) stat
  exact hfold _ _ fun j hj => List.mem_range.mp hj

/-- The second loop finds the lowest bit, when it is one of an interrupt. -/
theorem lowestOf_eq {n k : Nat} {x : ULong} (hk : FirstBit x k) (hn : k < n) :
    lowestOf n x = some k := by
  refine List.find?_range_eq_some.mpr ⟨?_, List.mem_range.mpr hn, fun j hj => ?_⟩
  · rw [BitVec.and_comm, bit_and_ne_zero hk.1, hk.2.1]
  · rw [BitVec.and_comm, bit_and_ne_zero (Nat.lt_trans hj hk.1), hk.2.2 j hj]
    rfl

/-- The first `n` outputs are up to date. -/
structure UpTo (p : AicuPorts) (d : AicuDevice) (n : Nat) (d' : AicuDevice) : Prop where
  control : d'.control = d.control
  mask : d'.mask = d.mask
  edges : d'.edges = d.edges
  ready : d'.ready = d.ready
  done : ∀ i < n, d'.stat i = d.newStat p i ∧ d'.crtIrq i = d.newCrtIrq p i ∧
    d'.irqOut i = (d.newStat p i &&& d.mask i != 0#32)
  rest : ∀ i, n ≤ i → d'.stat i = d.stat i ∧ d'.crtIrq i = d.crtIrq i ∧ d'.irqOut i = d.irqOut i

theorem UpTo.succ {n : Nat} (h : UpTo p d n d') : UpTo p d (n + 1) (d'.updateOutput p n) := by
  have hrest := h.rest n (Nat.le_refl n)
  have hstat : d'.newStat p n = d.newStat p n := by rw [newStat, newStat, h.edges, hrest.1]
  have hcrt : d'.newCrtIrq p n = d.newCrtIrq p n := by
    rw [newCrtIrq, newCrtIrq, hstat, h.mask, hrest.2.1]
  refine ⟨h.control, h.mask, h.edges, h.ready, fun i hi => ?_, fun i hi => ?_⟩
  · by_cases heq : i = n
    · subst heq
      simp only [updateOutput, Function.update_self, hstat, hcrt, h.mask, and_self]
    · simp only [updateOutput, Function.update_of_ne heq]
      exact h.done i (by omega)
  · have hne : i ≠ n := by omega
    simp only [updateOutput, Function.update_of_ne hne]
    exact h.rest i (by omega)

theorem updateOutputs_spec (p : AicuPorts) (d : AicuDevice) (n : Nat) :
    UpTo p d n ((List.range n).foldl (updateOutput p) d) := by
  induction n with
  | zero => exact ⟨rfl, rfl, rfl, rfl, fun i hi => absurd hi (Nat.not_lt_zero i),
      fun _ _ => ⟨rfl, rfl, rfl⟩⟩
  | succ n ih =>
      rw [List.range_succ, List.foldl_append]
      exact ih.succ

/-- **What a turn of the thread does.** -/
theorem irqUpdate_of_enabled (h : d.enabled) :
    UpTo p { d with ready := false } p.O (d.irqUpdate p) := by
  rw [irqUpdate, if_neg h]
  exact updateOutputs_spec p _ p.O

theorem irqUpdate_of_disabled (h : ¬ d.enabled) : d.irqUpdate p = { d with ready := false } :=
  if_pos (not_not.mp h)

/-! ## 5. The invariant -/

/-- Only bits of interrupts are pending, the outputs of a disabled controller are low, and those of
    one whose updates are served are right. -/
structure AicuInv (p : AicuPorts) (d : AicuDevice) : Prop where
  stat : ∀ i k, p.L + p.G ≤ k → (d.stat i).getLsbD k = false
  off : ¬ d.enabled → ∀ i < p.O, d.irqOut i = false
  right : d.ready = false → d.OutputsRight p

theorem outputsRight_of_off (h : ¬ d.enabled) (hoff : ∀ i < p.O, d.irqOut i = false) :
    d.OutputsRight p := by
  refine ⟨fun i hi => iff_of_false ?_ fun hyp => h hyp.1, fun i hi hhigh => ?_⟩
  · rw [hoff i hi]
    exact Bool.false_ne_true
  · rw [hoff i hi] at hhigh
    cases hhigh

/-- A pending interrupt is the lowest one behind the second loop. -/
theorem firstBit_newCrtIrq (hstat : ∀ i k, p.L + p.G ≤ k → (d.stat i).getLsbD k = false) {i : Nat}
    (h : d.newStat p i &&& d.mask i ≠ 0#32) :
    FirstBit (d.newStat p i &&& d.mask i) (d.newCrtIrq p i) := by
  obtain ⟨k, hk⟩ := exists_firstBit h
  have hlt : k < p.L + p.G := by
    by_contra hge
    have hbit := hk.2.1
    rw [BitVec.getLsbD_and, newStat_getLsbD d i (Nat.le_of_not_lt hge),
      hstat i k (Nat.le_of_not_lt hge)] at hbit
    cases hbit
  rw [newCrtIrq, lowestOf_eq hk hlt]
  exact hk

/-- **A turn of the thread makes the outputs right.** -/
theorem AicuInv.irqUpdate (h : AicuInv p d) : AicuInv p (d.irqUpdate p) := by
  by_cases hen : d.enabled
  · have hup := irqUpdate_of_enabled (p := p) hen
    have hen' : (d.irqUpdate p).enabled := by
      rw [enabled, hup.control]
      exact hen
    have hpending : ∀ i < p.O, (d.irqUpdate p).pending i = d.newStat p i &&& d.mask i := by
      intro i hi
      rw [pending, (hup.done i hi).1, hup.mask]
      rfl
    have hhigh : ∀ i < p.O, (d.irqUpdate p).irqOut i = true ↔ (d.irqUpdate p).pending i ≠ 0#32 := by
      intro i hi
      rw [(hup.done i hi).2.2, hpending i hi]
      exact bne_iff_ne
    refine ⟨fun i k hk => ?_, fun hoff => absurd hen' hoff, fun _ => ⟨fun i hi => ?_, ?_⟩⟩
    · by_cases hi : i < p.O
      · rw [(hup.done i hi).1]
        exact (newStat_getLsbD _ i hk).trans (h.stat i k hk)
      · rw [(hup.rest i (Nat.le_of_not_lt hi)).1]
        exact h.stat i k hk
    · rw [hhigh i hi, and_iff_right hen']
    · intro i hi hout
      have hne := (hhigh i hi).mp hout
      rw [hpending i hi] at hne ⊢
      rw [(hup.done i hi).2.1]
      exact firstBit_newCrtIrq h.stat hne
  · rw [irqUpdate_of_disabled hen]
    exact ⟨h.stat, h.off, fun _ => outputsRight_of_off hen (h.off hen)⟩

theorem AicuInv.served (h : AicuInv p d) : (d.served p).OutputsRight p := by
  rw [AicuDevice.served]
  cases hready : d.ready with
  | false => exact h.right hready
  | true =>
      refine h.irqUpdate.right ?_
      by_cases hen : d.enabled
      · exact (irqUpdate_of_enabled hen).ready
      · rw [irqUpdate_of_disabled hen]

/-! ## 6. What an access keeps -/

theorem AicuInv.write_ctrl (h : AicuInv p d) {value : ULong}
    (hcareful : value &&& 1#32 = 0#32 → ∀ i < p.O, d.irqOut i = false)
    (hw : d.writeReg value .ctrl = some d') : AicuInv p d' := by
  cases hw
  by_cases htoggle : (d.control ^^^ value) &&& 1#32 ≠ 0#32
  · rw [if_pos htoggle]
    have hoff : ∀ i < p.O, d.irqOut i = false := by
      by_cases hval : value &&& 1#32 = 0#32
      · exact hcareful hval
      · exact h.off fun hen => (toggles_iff _ _).mp htoggle (iff_of_true hval hen)
    refine ⟨fun _ _ _ => BitVec.getLsbD_zero, fun _ => hoff,
      fun _ => ⟨fun i hi => ?_, fun i hi hout => ?_⟩⟩
    · refine iff_of_false ?_ fun hyp => hyp.2 BitVec.zero_and
      exact Bool.eq_false_iff.mp (hoff i hi)
    · exact absurd hout (Bool.eq_false_iff.mp (hoff i hi))
  · rw [if_neg htoggle]
    have hsame : value &&& 1#32 ≠ 0#32 ↔ d.enabled :=
      not_not.mp fun hne => htoggle ((toggles_iff _ _).mpr hne)
    refine ⟨h.stat, fun hoff => h.off fun hen => hoff (hsame.mpr hen), fun hready => ?_⟩
    have hright := h.right hready
    refine ⟨fun i hi => ?_, hright.lowest⟩
    exact (hright.high i hi).trans (and_congr_left' hsame.symm)

/-- Bits are only cleared, and the thread is notified. -/
theorem AicuInv.clear (h : AicuInv p d) (i : Nat) (keep : ULong) :
    AicuInv p { d with stat := Function.update d.stat i (d.stat i &&& keep) }.notify := by
  refine ⟨fun i' k hk => ?_, h.off, fun hready => by cases hready⟩
  show (Function.update d.stat i (d.stat i &&& keep) i').getLsbD k = false
  by_cases heq : i' = i
  · subst heq
    rw [Function.update_self, BitVec.getLsbD_and, h.stat i' k hk, Bool.false_and]
  · rw [Function.update_of_ne heq]
    exact h.stat i' k hk

theorem AicuInv.write_kept (h : AicuInv p d) {value : ULong} {reg : AicuReg}
    (hcareful : reg = .ctrl → value &&& 1#32 = 0#32 → ∀ i < p.O, d.irqOut i = false)
    (hw : d.writeReg value reg = some d') : AicuInv p d' := by
  cases reg with
  | ctrl => exact h.write_ctrl (hcareful rfl) hw
  | handler n =>
      cases hw
      exact ⟨h.stat, h.off, fun hready => ⟨(h.right hready).high, (h.right hready).lowest⟩⟩
  | stat i =>
      cases hw
      exact h.clear i _
  | mask i =>
      cases hw
      exact ⟨h.stat, h.off, fun hready => by cases hready⟩
  | addr i => cases hw
  | irq i => cases hw

theorem AicuInv.read_kept (h : AicuInv p d) {reg : AicuReg} {val : ULong}
    (hr : d.readReg p reg = some (d', val)) : AicuInv p d' := by
  cases reg with
  | addr i =>
      rw [readReg] at hr
      split at hr
      · cases hr
      · cases hr
        exact h.clear i _
  | ctrl | handler | stat | mask | irq =>
      cases hr
      exact h

theorem readReg_addr {i : Nat} (h : d.crtIrq i < p.G + p.L) : d.readReg p (.addr i) =
    some ({ d with stat := Function.update d.stat i (d.stat i &&& ~~~bit (d.crtIrq i)) }.notify,
      d.handlers (d.crtIrq i)) := if_neg (Nat.not_le.mpr h)

/-- **A read clears its own interrupt exactly when that is current.** -/
theorem clearsOwn_iff {i : Nat} {val : ULong} (hr : d.readReg p (.addr i) = some (d', val)) :
    d.ClearsOwn i d' val ↔ d.Current i := by
  rw [readReg] at hr
  split at hr
  · cases hr
  rename_i hcrt
  have hfits := p.fits
  have h32 : d.crtIrq i < 32 := by omega
  cases hr
  constructor
  · intro hown
    by_cases hnone : d.pending i = 0#32
    · refine .inr ⟨hnone, ?_⟩
      have hsame := congrArg (BitVec.getLsbD · (d.crtIrq i)) (congrFun (hown.none hnone) i)
      simpa [notify, andNot_bit_getLsbD h32] using hsame.symm
    · obtain ⟨j, hj, -, hstat⟩ := hown.own hnone
      have hj32 : j < 32 := BitVec.lt_of_getLsbD hj
      have hset : (d.stat i).getLsbD j = true := by
        rw [pending, BitVec.getLsbD_and, Bool.and_eq_true] at hj
        exact hj.1
      have hsame := congrArg (BitVec.getLsbD · j) (congrFun hstat i)
      simp only [notify, Function.update_self, andNot_bit_getLsbD h32, andNot_bit_getLsbD hj32, hset]
        at hsame
      have heq : j = d.crtIrq i := by simpa using hsame
      exact .inl (heq ▸ hj)
  · intro hcur
    refine ⟨fun hsome => ?_, fun hnone => ?_⟩
    · rcases hcur with hbit | ⟨hnone, -⟩
      · exact ⟨d.crtIrq i, hbit, rfl, rfl⟩
      · exact absurd hnone hsome
    · rcases hcur with hbit | ⟨-, hclear⟩
      · rw [hnone] at hbit
        simp at hbit
      · refine Function.update_eq_self_iff.mpr (BitVec.eq_of_getLsbD_eq fun k _ => ?_)
        rw [andNot_bit_getLsbD h32]
        by_cases heq : k = d.crtIrq i
        · rw [heq, hclear, Bool.false_and]
        · rw [decide_eq_true heq, Bool.and_true]

/-! ## 7. Runs -/

theorem aicuInv_new (p : AicuPorts) : AicuInv p .new :=
  ⟨fun _ _ _ => BitVec.getLsbD_zero, fun _ _ _ => rfl,
    fun _ => outputsRight_of_off (fun hen => hen rfl) fun _ _ => rfl⟩

theorem read_eq_some {ofs : ULong} {be : Byte} (h : d.next p (.read ofs be) = some d') :
    ∃ reg val, p.decode ofs be = some reg ∧ d.readReg p reg = some (d', val) ∧
      d.read p ofs be = some (d', val) := by
  obtain ⟨⟨d₁, val⟩, hread, rfl⟩ := Option.map_eq_some_iff.mp h
  obtain ⟨reg, hreg, hr⟩ := Option.bind_eq_some_iff.mp hread
  exact ⟨reg, val, hreg, hr, hread⟩

/-- A careful step keeps the invariant. -/
theorem AicuInv.next_kept (h : AicuInv p d) {e : AicuEvent} (hcareful : d.Careful p e)
    (hnext : d.next p e = some d') : AicuInv p d' := by
  cases e with
  | write ofs be data =>
      obtain ⟨reg, hreg, hw⟩ := Option.bind_eq_some_iff.mp hnext
      exact h.write_kept (fun hctrl => hcareful (hctrl ▸ hreg)) hw
  | read ofs be =>
      obtain ⟨reg, val, -, hr, -⟩ := read_eq_some hnext
      exact h.read_kept hr
  | irqUpdate =>
      rw [AicuDevice.next] at hnext
      split at hnext
      · cases hnext
        exact h.irqUpdate
      · cases hnext
  | nextDelta edges =>
      rw [AicuDevice.next, nextDelta] at hnext
      split at hnext
      · cases hnext
      · rename_i hready
        have hright := h.right (Bool.eq_false_iff.mpr hready)
        cases hnext
        exact ⟨h.stat, h.off, fun _ => ⟨hright.high, hright.lowest⟩⟩

theorem readsRight_of_careful {e : AicuEvent} (hcareful : d.Careful p e) : d.ReadsRight p e := by
  cases e with
  | read ofs be =>
      intro i hreg d' val hread
      rw [AicuDevice.read, hreg] at hread
      exact (clearsOwn_iff hread).mpr (hcareful i hreg)
  | write | irqUpdate | nextDelta => trivial

theorem writeReg_ctrl {value : ULong} (h : d.writeReg value .ctrl = some d') :
    d'.control = value ∧ d'.irqOut = d.irqOut := by
  cases h
  refine ⟨rfl, ?_⟩
  show (if (d.control ^^^ value) &&& 1#32 ≠ 0#32 then d.resetRegisters else d).irqOut = d.irqOut
  split <;> rfl

/-- A disabled controller leaves its outputs as they are. -/
theorem served_irqOut_of_disabled (h : ¬ d.enabled) :
    (d.served p).irqOut = d.irqOut ∧ ¬ (d.served p).enabled := by
  rw [AicuDevice.served]
  split
  · rw [irqUpdate_of_disabled h]
    exact ⟨rfl, h⟩
  · exact ⟨rfl, h⟩

theorem not_right_of_not_careful {e : AicuEvent} (hcareful : ¬ d.Careful p e)
    (hnext : d.next p e = some d') : ¬ (d.ReadsRight p e ∧ (d'.served p).OutputsRight p) := by
  intro hyp
  obtain ⟨hreads, hright⟩ := hyp
  cases e with
  | write ofs be data =>
      refine hcareful fun hreg hval i hi => ?_
      rw [AicuDevice.next, AicuDevice.write, hreg] at hnext
      obtain ⟨hcontrol, hsame⟩ := writeReg_ctrl hnext
      have hdisabled : ¬ d'.enabled := by
        rw [enabled, hcontrol]
        exact not_not.mpr hval
      obtain ⟨hout, hoff⟩ := served_irqOut_of_disabled (p := p) hdisabled
      rw [← hsame, ← hout]
      exact Bool.eq_false_iff.mpr fun hhigh => hoff ((hright.high i hi).mp hhigh).1
  | read ofs be =>
      refine hcareful fun i hreg => ?_
      obtain ⟨reg, val, hreg', hr, hread⟩ := read_eq_some hnext
      cases hreg.symm.trans hreg'
      exact (clearsOwn_iff hr).mp (hreads i hreg d' val hread)
  | irqUpdate | nextDelta => exact hcareful trivial

/-- **In which runs the outputs and the reads are right.** -/
theorem outputs_right_iff (p : AicuPorts) (events : List AicuEvent) :
    Steps (AicuDevice.next p) (ReadsRight p) .new events ∧
        Along (AicuDevice.next p) (fun d => (d.served p).OutputsRight p) .new events ↔
      Steps (AicuDevice.next p) (Careful p) .new events :=
  along_and_steps_iff (I := AicuInv p) (fun _ h => h.served)
    (fun _ _ _ h hcareful hnext => ⟨readsRight_of_careful hcareful, h.next_kept hcareful hnext⟩)
    (fun _ _ _ _ hcareful hnext => not_right_of_not_careful hcareful hnext) events (aicuInv_new p)

/-- With its updates served, an output that is high has a current interrupt. -/
theorem OutputsRight.current {i : Nat} (h : d.OutputsRight p) (hi : i < p.O)
    (hhigh : d.irqOut i = true) : d.Current i := .inl (h.lowest i hi hhigh).2.1

/-- One output, one global input. -/
def onePort : AicuPorts := ⟨1, 1, 0, by decide⟩

/-- The input rises while it is unmasked; then the controller is disabled. -/
def disabledHigh : List AicuEvent :=
  [.write 0x000 0x0F (wordData 1), .write 0x100 0xF0 (wordData 1), .irqUpdate,
   .nextDelta fun _ => .posedge, .irqUpdate, .write 0x000 0x0F (wordData 0)]

/-- The input rises while it is masked. -/
def risesMasked : List AicuEvent :=
  [.write 0x000 0x0F (wordData 1), .nextDelta fun _ => .posedge, .irqUpdate]

/-- The output of the disabled controller stays high; and a read of `AICU_ADDR` clears the interrupt
    that is masked. -/
theorem outputs_fail :
    ¬ Along (AicuDevice.next onePort) (fun d => (d.served onePort).OutputsRight onePort) .new
        disabledHigh ∧
      ¬ Steps (AicuDevice.next onePort) (ReadsRight onePort) .new
        (risesMasked ++ [.read 0x108 0x0F]) := by
  constructor
  · intro hright
    have hrun : ((exec (AicuDevice.next onePort) .new disabledHigh).any fun d =>
        d.irqOut 0 && d.control == 0#32) = true := by decide
    obtain ⟨d, hexec, hd⟩ := (Option.any_eq_true _ _).mp hrun
    obtain ⟨hout, hcontrol⟩ := Bool.and_eq_true_iff.mp hd
    have hdisabled : ¬ d.enabled := by
      rw [enabled, beq_iff_eq.mp hcontrol]
      exact not_not.mpr rfl
    obtain ⟨hsame, hoff⟩ := served_irqOut_of_disabled (p := onePort) hdisabled
    exact hoff (((hright.last hexec).high 0 (by decide)).mp (by rw [hsame, hout])).1
  · intro hreads
    have hrun : ((exec (AicuDevice.next onePort) .new risesMasked).any fun d =>
        (d.crtIrq 0 == 0 && d.stat 0 == 1#32) && d.mask 0 == 0#32) = true := by decide
    obtain ⟨d, hexec, hd⟩ := (Option.any_eq_true _ _).mp hrun
    simp only [Bool.and_eq_true, beq_iff_eq] at hd
    obtain ⟨⟨hcrt, hstat⟩, hmask⟩ := hd
    have hdecode : onePort.decode 0x108 0x0F = some (.addr 0) := by decide
    have hreg := readReg_addr (p := onePort) (d := d) (i := 0) (by rw [hcrt]; decide)
    have hread := (congrArg (Option.bind · (d.readReg onePort)) hdecode).trans hreg
    have hnext : d.next onePort (.read 0x108 0x0F) = some _ := congrArg (Option.map Prod.fst) hread
    have hown := hreads.last hexec hnext 0 hdecode _ _ hread
    rcases (clearsOwn_iff hreg).mp hown with hbit | ⟨-, hclear⟩
    · rw [pending, hmask, hcrt] at hbit
      simp at hbit
    · rw [hstat, hcrt] at hclear
      exact absurd hclear (by decide)

end AicuDevice

end Rabbits
