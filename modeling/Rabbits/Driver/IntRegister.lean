/-
  File:      Rabbits/Driver/IntRegister.lean
  Subject:   Registered interrupts in the two Linux drivers (rabbitsfb_int.c, h264dbf_int.c):
             register, unregister and wait with any ids, in any order.

  The drivers differ in the number of descriptors and in what they do with their hardware.

  * `IntHw` -- the hardware of a driver; `rabbitsfbHw`, `h264dbfHw`;
  * `IntDevice`, `intRegister`, `intUnregister`, `intTake`, `intService` -- the code they share;
  * `h264dbfIntRegister_device` ... -- that of h264dbf is the model of `H264Sys`;
  * `IntRun` -- a device with its registered ids and the indices into `irqs` that were used;
  * `Agrees` -- the indices, the count, the flag and the handler; `Orderly` -- calls by the rules;
  * `agrees_iff` -- **exactly the runs of orderly calls keep them right**.

  A wait is one step here; its sleep is in Rabbits.Driver.IntWait. Between the calls the hardware
  does what it wants. `requestIrq` is the result of `request_irq`.
-/
import Mathlib.Data.Finset.Card
import Rabbits.Driver.IntWait
import Rabbits.Fb.FbDevice

namespace Rabbits

open Lib

/-! ## 1. The hardware -/

/-- What a driver does with its hardware next to its descriptors. -/
structure IntHw (η : Type) where
  /-- `..._MAXIRQ`. -/
  maxIrq : Nat
  /-- "Clear pending interrupts". -/
  clearPending : η → η
  /-- The interrupt in qemu and in the device. -/
  enable : η → η
  /-- `..._disable_device_irq`. -/
  disable : η → η
  /-- The enable register for a descriptor's type. -/
  register : BitVec 32 → η → η
  unregister : BitVec 32 → η → η
  /-- The head of the service routine: the status it hands out, once it is acknowledged. -/
  service : η → Option (BitVec 32 × η)

def QEMU_INT_RAMDAC_MASK : BitVec 32 := 0x04#32

def RABBITSFB_CTRL_IRQEN : BitVec 32 := 2#32

/-- `readl (dev->base_addr + RABBITSFB_STAT)`: the register CTRL. -/
def fbReadStat (fb : FbDevice) : ULong := (fb.slaveRead 8#32 0xF0#8).2

/-- `writel (val, dev->base_addr + RABBITSFB_CTRL)`. -/
def fbWriteCtrl (fb : FbDevice) (val : ULong) : FbDevice := fb.slaveWrite 8#32 0xF0#8 (wordData val)

/-- `writel (val, dev->base_addr + RABBITSFB_IRQCLEAR)`. -/
def fbIrqClear (fb : FbDevice) (val : ULong) : FbDevice := fb.slaveWrite 8#32 0x0F#8 (wordData val)

/-- The framebuffer and the interrupt mask of the wrapper's registers. -/
def rabbitsfbHw : IntHw (FbDevice × ULong) where
  maxIrq := RABBITSFB_MAXIRQ
  clearPending hw := (fbIrqClear hw.1 1#32, hw.2)
  enable hw :=
    (fbWriteCtrl hw.1 (fbReadStat hw.1 ||| RABBITSFB_CTRL_IRQEN), hw.2 ||| QEMU_INT_RAMDAC_MASK)
  disable hw :=
    (fbWriteCtrl hw.1 (fbReadStat hw.1 &&& ~~~RABBITSFB_CTRL_IRQEN),
      hw.2 &&& ~~~QEMU_INT_RAMDAC_MASK)
  register _ hw := hw
  unregister _ hw := hw
  service hw :=
    let status := (hw.1.slaveRead 8#32 0x0F#8).2
    if status &&& 1#32 = 0#32 then none else some (status &&& 1#32, (fbIrqClear hw.1 1#32, hw.2))

/-- The deblocking filter and the interrupt mask of the wrapper's registers. -/
def h264dbfHw : IntHw (DbfDevice × ULong) where
  maxIrq := H264DBF_MAXIRQ
  clearPending hw := (hw.1.writeb H264DBF_INT_ACK 0x7F#8, hw.2)
  enable hw := (hw.1, hw.2 ||| QEMU_INT_DBF_MASK)
  disable hw := (hw.1.writel H264DBF_INT_ENABLE 0#32, hw.2 &&& ~~~QEMU_INT_DBF_MASK)
  register type hw :=
    (hw.1.writel H264DBF_INT_ENABLE (hw.1.readl H264DBF_INT_ENABLE ||| type), hw.2)
  unregister type hw :=
    (hw.1.writel H264DBF_INT_ENABLE (hw.1.readl H264DBF_INT_ENABLE &&& ~~~type), hw.2)
  service hw :=
    let status := hw.1.readb H264DBF_INT_STATUS
    if status ≤ 0x80#8 then none
    else some ((status &&& 0x7F#8).setWidth 32, (hw.1.writeb H264DBF_INT_ACK (status &&& 0x7F#8), hw.2))

/-! ## 2. The driver -/

/-- `rabbitsfb_device`, `h264dbf_device`: the fields of the interrupts, whether the handler is
    installed, and the hardware. -/
structure IntDevice (η : Type) where
  irqEn : Bool
  nbIrqEn : Int
  irqs : Nat → IntDesc
  handler : Bool
  hw : η

variable {η : Type}

/-- What the service routine does to a descriptor some of whose bits are up. -/
def IntDesc.queue (d : IntDesc) (stat : BitVec 32) : IntDesc :=
  if stat &&& d.pending ≠ 0#32 then { d with status := STATUS_IRQ_OVERFLOW }
  else { d with status := STATUS_IRQ_QUEUED, pending := d.pending ||| stat }

/-- The loop of the service routine from descriptor `i` on, `n` of them at most: the descriptors, and
    the indices that it uses. -/
def intServiceLoop (irqs : Nat → IntDesc) :
    Nat → Nat → BitVec 32 → (Nat → IntDesc) × List Nat
  | 0, _, _ => (irqs, [])
  | n + 1, i, status =>
      let stat := status &&& (irqs i).type
      let irqs := if stat ≠ 0#32 then Function.update irqs i ((irqs i).queue stat) else irqs
      let status := status &&& ~~~stat
      if status = 0#32 then (irqs, [i])
      else
        let r := intServiceLoop irqs n (i + 1) status
        (r.1, i :: r.2)

/-- `..._int_service`, with the indices that it uses. -/
def intService (h : IntHw η) (s : IntDevice η) : IntDevice η × List Nat :=
  match h.service s.hw with
  | none => (s, [])
  | some (status, hw) =>
      let r := intServiceLoop s.irqs s.nbIrqEn.toNat 0 status
      ({ s with hw, irqs := r.1 }, r.2)

/-- `..._int_enable`. -/
def intEnable (h : IntHw η) (requestIrq : Bool) (s : IntDevice η) : IntDevice η :=
  if s.irqEn then { s with nbIrqEn := s.nbIrqEn + 1 }
  else
    let s :=
      { s with
        hw := h.clearPending s.hw
        irqs := fun i => if i < h.maxIrq then ⟨0#32, 0#32, 0#32⟩ else s.irqs i }
    if requestIrq then
      { s with handler := true, irqEn := true, hw := h.enable s.hw, nbIrqEn := s.nbIrqEn + 1 }
    else s

/-- `..._int_disable`. -/
def intDisable (h : IntHw η) (s : IntDevice η) : IntDevice η :=
  let s := { s with nbIrqEn := s.nbIrqEn - 1 }
  if s.nbIrqEn = 0 then { s with hw := h.disable s.hw, handler := false, irqEn := false } else s

/-- The check of `id`, which is unsigned. -/
def invalidIrqId (h : IntHw η) (id : BitVec 32) : Bool := id.toNat > h.maxIrq

/-- `..._int_register`; `none` is `-EINVAL`. The result of enable is not looked at. -/
def intRegister (h : IntHw η) (id type : BitVec 32) (requestIrq : Bool) (s : IntDevice η) :
    Option (IntDevice η) :=
  if invalidIrqId h id then none
  else
    let s := intEnable h requestIrq s
    let desc := s.irqs id.toNat
    some
      { s with
        irqs := Function.update s.irqs id.toNat { desc with type := type, status := STATUS_IRQ_INIT }
        hw := h.register type s.hw }

/-- `..._int_unregister`; `none` is `-EINVAL`. -/
def intUnregister (h : IntHw η) (id : BitVec 32) (s : IntDevice η) : Option (IntDevice η) :=
  if invalidIrqId h id then none
  else
    let desc := s.irqs id.toNat
    some (intDisable h
      { s with
        irqs := Function.update s.irqs id.toNat { desc with type := 0#32 }
        hw := h.unregister desc.type s.hw })

/-- `..._int_wait`: what the process takes in the end; `none` is `-EINVAL`. -/
def intTake (h : IntHw η) (id : BitVec 32) (s : IntDevice η) :
    Option (IntDevice η × BitVec 32) :=
  if invalidIrqId h id then none
  else
    let desc := s.irqs id.toNat
    some ({ s with irqs := Function.update s.irqs id.toNat { desc with pending := 0#32 } },
      desc.pending)

/-! ## 3. The driver of h264dbf -/

/-- A descriptor without its wait queue. -/
def H264DbfInt.desc (d : H264DbfInt) : IntDesc := ⟨d.type, d.status, d.pending⟩

def H264Sys.device (s : H264Sys) : IntDevice (DbfDevice × ULong) where
  irqEn := s.irqEn
  nbIrqEn := s.nbIrqEn
  irqs i := (s.irqs i).desc
  handler := s.handler
  hw := (s.dbf, s.systemcIntEnable)

theorem desc_update (irqs : Nat → H264DbfInt) (i : Nat) (d : H264DbfInt) :
    (fun j => (Function.update irqs i d j).desc) =
      Function.update (fun j => (irqs j).desc) i d.desc := by
  funext j
  by_cases h : j = i
  · subst h
    rw [Function.update_self, Function.update_self]
  · rw [Function.update_of_ne h, Function.update_of_ne h]

theorem h264dbfIntEnable_device (s : H264Sys) (requestIrq : Bool) :
    (h264dbfIntEnable s requestIrq).device = intEnable h264dbfHw requestIrq s.device := by
  unfold h264dbfIntEnable intEnable
  have hirqs : (fun i => (if i < H264DBF_MAXIRQ then (⟨0#32, 0#32, 0#32, []⟩ : H264DbfInt)
      else s.irqs i).desc) =
      fun i => if i < h264dbfHw.maxIrq then ⟨0#32, 0#32, 0#32⟩ else (s.irqs i).desc := by
    funext i
    show _ = if i < H264DBF_MAXIRQ then _ else _
    split <;> rfl
  cases hen : s.irqEn
  · cases requestIrq <;> simp [H264Sys.device, hen, h264dbfHw] <;> exact hirqs
  · simp [H264Sys.device, hen]

theorem h264dbfIntDisable_device (s : H264Sys) :
    (h264dbfIntDisable s).device = intDisable h264dbfHw s.device := by
  unfold h264dbfIntDisable intDisable
  by_cases h : s.nbIrqEn - 1 = 0 <;> simp [H264Sys.device, h, h264dbfDisableDeviceIrq, h264dbfHw]

/-- **`h264dbf_int_register`** is the register call with the filter as its hardware. -/
theorem h264dbfIntRegister_device (s : H264Sys) (id type : BitVec 32) (requestIrq : Bool) :
    (h264dbfIntRegister s id type requestIrq).map H264Sys.device =
      intRegister h264dbfHw id type requestIrq s.device := by
  have hcheck : invalidId id = invalidIrqId h264dbfHw id := rfl
  unfold h264dbfIntRegister intRegister
  rw [hcheck, ← h264dbfIntEnable_device]
  split
  · rfl
  · refine congrArg some ?_
    simp only [H264Sys.device, desc_update]
    rfl

/-- **`h264dbf_int_unregister`**, in the same way. -/
theorem h264dbfIntUnregister_device (s : H264Sys) (id : BitVec 32) :
    (h264dbfIntUnregister s id).map H264Sys.device =
      intUnregister h264dbfHw id s.device := by
  have hcheck : invalidId id = invalidIrqId h264dbfHw id := rfl
  unfold h264dbfIntUnregister intUnregister
  rw [hcheck]
  split
  · rfl
  · refine congrArg some ((h264dbfIntDisable_device _).trans ?_)
    simp only [H264Sys.device, desc_update]
    rfl

/-! ## 4. Sequences of calls -/

/-- The ioctls with what the user gives them (`type` and `timeout` decide about the sleep of a wait
    only), a run of the service routine, and a change of the hardware. -/
inductive IntCall (η : Type) where
  | register (id type : BitVec 32) (requestIrq : Bool)
  | unregister (id type : BitVec 32)
  | wait (id type timeout : BitVec 32)
  | service
  | hardware (hw : η)

/-- The device, the ids that are registered (by a register that returned 0, and not taken back), and
    the indices into `irqs` that were used so far. -/
structure IntRun (η : Type) where
  dev : IntDevice η
  registered : Finset Nat
  uses : List Nat

namespace IntRun

/-- The driver when it is loaded. -/
def start (irqs : Nat → IntDesc) (hw : η) : IntRun η where
  dev := ⟨false, 0, irqs, false, hw⟩
  registered := ∅
  uses := []

/-- The descriptors that `..._int_enable` initialises. -/
def enableUses (h : IntHw η) (s : IntDevice η) : List Nat := if s.irqEn then [] else List.range h.maxIrq

def next (h : IntHw η) (x : IntRun η) : IntCall η → Option (IntRun η)
  | .register id type requestIrq =>
      match intRegister h id type requestIrq x.dev with
      | none => some x
      | some dev =>
          some ⟨dev, insert id.toNat x.registered, x.uses ++ (enableUses h x.dev ++ [id.toNat])⟩
  | .unregister id _ =>
      match intUnregister h id x.dev with
      | none => some x
      | some dev => some ⟨dev, x.registered.erase id.toNat, x.uses ++ [id.toNat]⟩
  | .wait id _ _ =>
      match intTake h id x.dev with
      | none => some x
      | some r => some { x with dev := r.1, uses := x.uses ++ [id.toNat] }
  | .service =>
      let r := intService h x.dev
      some { x with dev := r.1, uses := x.uses ++ r.2 }
  | .hardware hw => some { x with dev := { x.dev with hw } }

/-- The indices are inside `irqs`, the count is that of the registered descriptors, the flag says
    whether it is above 0, and the handler is installed exactly then. -/
structure Agrees (h : IntHw η) (x : IntRun η) : Prop where
  uses : ∀ i ∈ x.uses, i < h.maxIrq
  count : x.dev.nbIrqEn = x.registered.card
  enabled : x.dev.irqEn = true ↔ 0 < x.dev.nbIrqEn
  installed : x.dev.handler = true ↔ x.dev.irqEn = true

/-- An id is refused or below MAXIRQ; only what is not registered is registered, and the handler of
    the first one can be installed; only what is registered is taken back. -/
def Orderly (h : IntHw η) (x : IntRun η) : IntCall η → Prop
  | .register id _ requestIrq => h.maxIrq < id.toNat ∨ id.toNat < h.maxIrq ∧
      id.toNat ∉ x.registered ∧ (x.registered = ∅ → requestIrq = true)
  | .unregister id _ => h.maxIrq < id.toNat ∨ id.toNat < h.maxIrq ∧ id.toNat ∈ x.registered
  | .wait id _ _ => id.toNat ≠ h.maxIrq
  | .service => True
  | .hardware _ => True

/-- And no id behind the descriptors is registered. -/
structure Inv (h : IntHw η) (x : IntRun η) : Prop extends Agrees h x where
  inside : ∀ i ∈ x.registered, i < h.maxIrq

/-! ## 5. One call -/

theorem invalidIrqId_iff {h : IntHw η} {id : BitVec 32} :
    invalidIrqId h id = true ↔ h.maxIrq < id.toNat := by
  simp [invalidIrqId]

/-- The indices of the service routine. -/
theorem mem_intServiceLoop (irqs : Nat → IntDesc) (n i : Nat) (status : BitVec 32) :
    ∀ j ∈ (intServiceLoop irqs n i status).2, j < i + n := by
  induction n generalizing irqs i status with
  | zero => exact fun j hj => absurd hj List.not_mem_nil
  | succ n ih =>
      intro j hj
      unfold intServiceLoop at hj
      dsimp only at hj
      split at hj
      · rw [List.mem_singleton.mp hj]
        omega
      · rcases List.mem_cons.mp hj with rfl | hj
        · omega
        · have := ih _ _ _ j hj
          omega

/-- The fields that count. -/
theorem intService_fields (h : IntHw η) (s : IntDevice η) :
    (intService h s).1.irqEn = s.irqEn ∧ (intService h s).1.nbIrqEn = s.nbIrqEn ∧
      (intService h s).1.handler = s.handler ∧
      ∀ j ∈ (intService h s).2, j < s.nbIrqEn.toNat := by
  unfold intService
  split
  · exact ⟨rfl, rfl, rfl, fun j hj => absurd hj List.not_mem_nil⟩
  · next status hw _ =>
      refine ⟨rfl, rfl, rfl, fun j hj => ?_⟩
      have := mem_intServiceLoop _ _ _ _ j hj
      omega

/-- What enable makes of the count, the flag and the handler. -/
theorem intEnable_fields (h : IntHw η) (requestIrq : Bool) (s : IntDevice η) :
    (intEnable h requestIrq s).nbIrqEn =
        (if s.irqEn || requestIrq then s.nbIrqEn + 1 else s.nbIrqEn) ∧
      (intEnable h requestIrq s).irqEn = (s.irqEn || requestIrq) ∧
      (intEnable h requestIrq s).handler = (s.handler || (!s.irqEn && requestIrq)) := by
  unfold intEnable
  cases s.irqEn <;> cases requestIrq <;> simp

theorem intDisable_fields (h : IntHw η) (s : IntDevice η) :
    (intDisable h s).nbIrqEn = s.nbIrqEn - 1 ∧
      (intDisable h s).irqEn = (if s.nbIrqEn = 1 then false else s.irqEn) ∧
      (intDisable h s).handler = (if s.nbIrqEn = 1 then false else s.handler) := by
  unfold intDisable
  by_cases hone : s.nbIrqEn = 1
  · simp [hone]
  · have hzero : ¬ s.nbIrqEn - 1 = 0 := by omega
    simp [hone, hzero]

variable {h : IntHw η} {x x' : IntRun η}

theorem Inv.card_le (hi : Inv h x) : x.registered.card ≤ h.maxIrq := by
  have hsub : x.registered ⊆ Finset.range h.maxIrq := fun i hmem =>
    Finset.mem_range.mpr (hi.inside i hmem)
  exact (Finset.card_le_card hsub).trans (Finset.card_range _).le

theorem Inv.empty_iff (hi : Inv h x) : x.registered = ∅ ↔ x.dev.irqEn = false := by
  have hc := hi.count
  have he := hi.enabled
  rw [← Finset.card_eq_zero]
  cases hen : x.dev.irqEn
  · simp only [hen, Bool.false_eq_true, false_iff] at he
    exact ⟨fun _ => rfl, fun _ => by omega⟩
  · simp only [hen, true_iff] at he
    exact ⟨fun h0 => by omega, fun hf => by cases hf⟩

theorem mem_enableUses {s : IntDevice η} : ∀ i ∈ enableUses h s, i < h.maxIrq := by
  intro i hi
  unfold enableUses at hi
  split at hi
  · exact absurd hi List.not_mem_nil
  · exact List.mem_range.mp hi

/-- A register that is not refused. -/
theorem next_register {id type : BitVec 32} {requestIrq : Bool} (hid : ¬ h.maxIrq < id.toNat)
    (hs : next h x (.register id type requestIrq) = some x') :
    x'.registered = insert id.toNat x.registered ∧
      x'.uses = x.uses ++ (enableUses h x.dev ++ [id.toNat]) ∧
      x'.dev.nbIrqEn =
        (if x.dev.irqEn || requestIrq then x.dev.nbIrqEn + 1 else x.dev.nbIrqEn) ∧
      x'.dev.irqEn = (x.dev.irqEn || requestIrq) ∧
      x'.dev.handler = (x.dev.handler || (!x.dev.irqEn && requestIrq)) := by
  have hvalid : ¬ invalidIrqId h id = true := fun hinv => hid (invalidIrqId_iff.mp hinv)
  simp only [next, intRegister, if_neg hvalid, Option.some.injEq] at hs
  subst hs
  exact ⟨rfl, rfl, intEnable_fields h requestIrq x.dev⟩

/-- An unregister that is not refused. -/
theorem next_unregister {id type : BitVec 32} (hid : ¬ h.maxIrq < id.toNat)
    (hs : next h x (.unregister id type) = some x') :
    x'.registered = x.registered.erase id.toNat ∧ x'.uses = x.uses ++ [id.toNat] ∧
      x'.dev.nbIrqEn = x.dev.nbIrqEn - 1 ∧
      x'.dev.irqEn = (if x.dev.nbIrqEn = 1 then false else x.dev.irqEn) ∧
      x'.dev.handler = (if x.dev.nbIrqEn = 1 then false else x.dev.handler) := by
  have hvalid : ¬ invalidIrqId h id = true := fun hinv => hid (invalidIrqId_iff.mp hinv)
  simp only [next, intUnregister, if_neg hvalid, Option.some.injEq] at hs
  subst hs
  exact ⟨rfl, rfl, intDisable_fields h _⟩

/-- A call that is refused. -/
theorem next_refused {id : BitVec 32} (hid : h.maxIrq < id.toNat) :
    (∀ type requestIrq, next h x (.register id type requestIrq) = some x) ∧
      (∀ type, next h x (.unregister id type) = some x) ∧
      ∀ type timeout, next h x (.wait id type timeout) = some x := by
  have hinv : invalidIrqId h id = true := invalidIrqId_iff.mpr hid
  refine ⟨fun type requestIrq => ?_, fun type => ?_, fun type timeout => ?_⟩
  · simp only [next, intRegister, if_pos hinv]
  · simp only [next, intUnregister, if_pos hinv]
  · simp only [next, intTake, if_pos hinv]

/-- An id that is not registered yet is registered, with a handler. -/
theorem Inv.register {id type : BitVec 32} {requestIrq : Bool} (hi : Inv h x)
    (hid : id.toNat < h.maxIrq) (hfresh : id.toNat ∉ x.registered)
    (hfirst : x.registered = ∅ → requestIrq = true)
    (hs : next h x (.register id type requestIrq) = some x') : Inv h x' := by
  obtain ⟨hreg, huses, hnb, hen, hhandler⟩ := next_register (by omega) hs
  have hcount := hi.count
  have hon : (x.dev.irqEn || requestIrq) = true := by
    cases hoff : x.dev.irqEn
    · exact hfirst (hi.empty_iff.mpr hoff)
    · rfl
  rw [hon] at hnb hen
  rw [if_pos rfl] at hnb
  refine ⟨⟨?_, ?_, ?_, ?_⟩, ?_⟩
  · rw [huses]
    refine List.forall_mem_append.mpr ⟨hi.uses, List.forall_mem_append.mpr ⟨mem_enableUses, ?_⟩⟩
    exact List.forall_mem_singleton.mpr hid
  · rw [hreg, Finset.card_insert_of_notMem hfresh, hnb]
    omega
  · rw [hen, hnb]
    exact ⟨fun _ => by omega, fun _ => rfl⟩
  · rw [hen, hhandler]
    cases hoff : x.dev.irqEn
    · rw [hoff, Bool.false_or] at hon
      rw [hon]
      simp
    · rw [hi.installed.mpr hoff]
      simp
  · rw [hreg]
    intro i hmem
    rcases Finset.mem_insert.mp hmem with rfl | hmem
    · exact hid
    · exact hi.inside i hmem

/-- A registered id is taken back. -/
theorem Inv.unregister {id type : BitVec 32} (hi : Inv h x) (hid : id.toNat < h.maxIrq)
    (hmember : id.toNat ∈ x.registered) (hs : next h x (.unregister id type) = some x') :
    Inv h x' := by
  obtain ⟨hreg, huses, hnb, hen, hhandler⟩ := next_unregister (by omega) hs
  have hcount := hi.count
  have hcard := Finset.card_erase_of_mem hmember
  have hpos := Finset.card_pos.mpr ⟨_, hmember⟩
  refine ⟨⟨?_, ?_, ?_, ?_⟩, ?_⟩
  · rw [huses]
    exact List.forall_mem_append.mpr ⟨hi.uses, List.forall_mem_singleton.mpr hid⟩
  · rw [hreg, hcard, hnb]
    omega
  · rw [hen, hnb]
    split
    · exact ⟨fun hf => (by cases hf), fun _ => by omega⟩
    · exact ⟨fun _ => by omega, fun _ => hi.enabled.mpr (by omega)⟩
  · rw [hen, hhandler]
    split
    · exact Iff.rfl
    · exact hi.installed
  · rw [hreg]
    exact fun i hmem => hi.inside i (Finset.mem_of_mem_erase hmem)

theorem Inv.wait {id type timeout : BitVec 32} (hi : Inv h x) (hid : id.toNat < h.maxIrq)
    (hs : next h x (.wait id type timeout) = some x') : Inv h x' := by
  have hvalid : ¬ invalidIrqId h id = true := fun hinv => by
    have := invalidIrqId_iff.mp hinv
    omega
  simp only [next, intTake, if_neg hvalid, Option.some.injEq] at hs
  subst hs
  refine ⟨⟨?_, hi.count, hi.enabled, hi.installed⟩, hi.inside⟩
  exact List.forall_mem_append.mpr ⟨hi.uses, List.forall_mem_singleton.mpr hid⟩

/-- The service routine uses the descriptors up to the count. -/
theorem Inv.service (hi : Inv h x) (hs : next h x .service = some x') : Inv h x' := by
  obtain ⟨hen, hnb, hhandler, hloop⟩ := intService_fields h x.dev
  have hcount := hi.count
  simp only [next, Option.some.injEq] at hs
  subst hs
  refine ⟨⟨List.forall_mem_append.mpr ⟨hi.uses, fun i hmem => ?_⟩, hnb.trans hi.count, ?_, ?_⟩,
    hi.inside⟩
  · have hle := hi.card_le
    have hlt := hloop i hmem
    omega
  · rw [hen, hnb]
    exact hi.enabled
  · rw [hen, hhandler]
    exact hi.installed

/-- **Orderly calls keep the invariant.** -/
theorem Inv.next_kept {c : IntCall η} (hi : Inv h x) (ho : Orderly h x c)
    (hs : next h x c = some x') : Inv h x' := by
  cases c with
  | register id type requestIrq =>
      rcases ho with hrefused | ⟨hid, hfresh, hfirst⟩
      · obtain rfl := Option.some.inj (((next_refused hrefused).1 type requestIrq).symm.trans hs)
        exact hi
      · exact hi.register hid hfresh hfirst hs
  | unregister id type =>
      rcases ho with hrefused | ⟨hid, hmember⟩
      · obtain rfl := Option.some.inj (((next_refused hrefused).2.1 type).symm.trans hs)
        exact hi
      · exact hi.unregister hid hmember hs
  | wait id type timeout =>
      rcases Nat.lt_or_gt_of_ne ho with hid | hrefused
      · exact hi.wait hid hs
      · obtain rfl := Option.some.inj (((next_refused hrefused).2.2 type timeout).symm.trans hs)
        exact hi
  | service => exact hi.service hs
  | hardware hw =>
      simp only [next, Option.some.injEq] at hs
      subst hs
      exact ⟨⟨hi.uses, hi.count, hi.enabled, hi.installed⟩, hi.inside⟩

/-- **A call against the rules** is seen at once: in an index behind the descriptors or in the
    count. -/
theorem not_agrees {c : IntCall η} (hi : Inv h x) (ho : ¬ Orderly h x c)
    (hs : next h x c = some x') : ¬ Agrees h x' := by
  intro ha
  have hcount := hi.count
  have hcount' := ha.count
  cases c with
  | register id type requestIrq =>
      obtain ⟨hle, hrest⟩ := not_or.mp ho
      obtain ⟨hreg, huses, hnb, -, -⟩ := next_register hle hs
      have hid : id.toNat < h.maxIrq := ha.uses _ (by rw [huses]; simp)
      rw [hreg] at hcount'
      by_cases hmember : id.toNat ∈ x.registered
      · -- registered twice
        have hon : x.dev.irqEn = true :=
          hi.enabled.mpr (by have := Finset.card_pos.mpr ⟨_, hmember⟩; omega)
        rw [hon, Bool.true_or, if_pos rfl] at hnb
        rw [Finset.insert_eq_of_mem hmember] at hcount'
        omega
      · -- the handler of the first one could not be installed
        have hfirst : ¬ (x.registered = ∅ → requestIrq = true) := fun hf =>
          hrest ⟨hid, hmember, hf⟩
        obtain ⟨hempty, hfailed⟩ := Classical.not_imp.mp hfirst
        have hreq : requestIrq = false := by simpa using hfailed
        rw [hi.empty_iff.mp hempty, hreq, Bool.or_self, if_neg (by decide)] at hnb
        rw [Finset.card_insert_of_notMem hmember] at hcount'
        omega
  | unregister id type =>
      obtain ⟨hle, hrest⟩ := not_or.mp ho
      obtain ⟨hreg, huses, hnb, -, -⟩ := next_unregister hle hs
      have hid : id.toNat < h.maxIrq := ha.uses _ (by rw [huses]; simp)
      have hnot : id.toNat ∉ x.registered := fun hmember => hrest ⟨hid, hmember⟩
      rw [hreg, Finset.erase_eq_of_notMem hnot] at hcount'
      omega
  | wait id type timeout =>
      have heq : id.toNat = h.maxIrq := Classical.not_not.mp ho
      have hvalid : ¬ invalidIrqId h id = true := fun hinv => by
        have := invalidIrqId_iff.mp hinv
        omega
      simp only [next, intTake, if_neg hvalid, Option.some.injEq] at hs
      subst hs
      have hid := ha.uses id.toNat (by simp)
      omega
  | service => exact ho trivial
  | hardware hw => exact ho trivial

/-! ## 6. Runs -/

theorem inv_start (h : IntHw η) (irqs : Nat → IntDesc) (hw : η) : Inv h (start irqs hw) := by
  refine ⟨⟨fun i hi => absurd hi List.not_mem_nil, rfl, ?_, Iff.rfl⟩,
    fun i hi => absurd hi (Finset.notMem_empty i)⟩
  exact ⟨fun hf => (by cases hf), fun hf => absurd hf (lt_irrefl 0)⟩

/-- **When the driver's counts are right**: all along a run, exactly if its calls are orderly. -/
theorem agrees_iff (h : IntHw η) (irqs : Nat → IntDesc) (hw : η) (calls : List (IntCall η)) :
    Along (next h) (Agrees h) (start irqs hw) calls ↔
      Steps (next h) (Orderly h) (start irqs hw) calls :=
  along_iff_steps (fun _ hi => hi.toAgrees) (fun _ _ _ hi ho hs => hi.next_kept ho hs)
    (fun _ _ _ hi ho hs => not_agrees hi ho hs) calls (inv_start h irqs hw)

/-- The id MAXIRQ passes the check of both drivers. -/
theorem maxIrq_registers :
    ¬ Along (next rabbitsfbHw) (Agrees rabbitsfbHw)
        (start (fun _ => ⟨0#32, 0#32, 0#32⟩) (FbDevice.new ⟨false, 0#16, 0#16, 0#32, false⟩ 0#32, 0#32))
        [.register 1#32 1#32 true] ∧
      ¬ Along (next h264dbfHw) (Agrees h264dbfHw)
        (start (fun _ => ⟨0#32, 0#32, 0#32⟩) (DbfDevice.new, 0#32)) [.register 2#32 1#32 true] := by
  constructor <;> intro hrun
  · have hlast := (hrun.2 _ rfl).uses 1 (by decide)
    exact absurd hlast (by decide)
  · have hlast := (hrun.2 _ rfl).uses 2 (by decide)
    exact absurd hlast (by decide)

end IntRun

end Rabbits
