/-
  File:      Rabbits/Driver/Delivery.lean
  Subject:   Which descriptors the service routine of the filter's driver reaches (h264dbf_int.c).

  The routine scans as many descriptors as are registered, from index 0, although a descriptor's
  index is the id it was registered with; each takes the bits of its type that no lower one took.
  A descriptor that finds one of its bits pending already records none of the new ones.

  * `firstMet` -- the bits that the scan meets first at a descriptor;
  * `serviceLoop_spec` -- what the scan leaves in each descriptor and whom it wakes;
  * `service_delivers_iff` -- **after any calls, exactly when the routine delivers every bit**.
-/
import Rabbits.Driver.H264Dbf

namespace Rabbits

/-! ## 1. The scan -/

/-- The types of `k` descriptors from `i` on. -/
def typesFrom (types : Nat → BitVec 32) (i : Nat) : Nat → BitVec 32
  | 0 => 0#32
  | k + 1 => types i ||| typesFrom types (i + 1) k

/-- The bits of `status` that a scan from `i` on meets first at descriptor `j`. -/
def firstMet (types : Nat → BitVec 32) (i : Nat) (status : BitVec 32) (j : Nat) : BitVec 32 :=
  status &&& types j &&& ~~~typesFrom types i (j - i)

theorem firstMet_self (types : Nat → BitVec 32) (i : Nat) (status : BitVec 32) :
    firstMet types i status i = status &&& types i := by
  rw [firstMet, Nat.sub_self, typesFrom, BitVec.not_zero, BitVec.and_allOnes]

theorem firstMet_zero (types : Nat → BitVec 32) (i j : Nat) : firstMet types i 0#32 j = 0#32 := by
  simp [firstMet]

/-- Past descriptor `i`, the scan goes on with the bits that `i` did not take. -/
theorem firstMet_succ (types : Nat → BitVec 32) {i j : Nat} (status : BitVec 32) (hij : i < j) :
    firstMet types i status j = firstMet types (i + 1) (status &&& ~~~(status &&& types i)) j := by
  obtain ⟨k, rfl⟩ : ∃ k, j = i + 1 + k := ⟨j - (i + 1), by omega⟩
  have h₁ : i + 1 + k - i = k + 1 := by omega
  have h₂ : i + 1 + k - (i + 1) = k := by omega
  rw [firstMet, firstMet, h₁, h₂, typesFrom]
  ext b hb
  simp only [BitVec.getElem_and, BitVec.getElem_not, BitVec.getElem_or]
  cases status[b] <;> cases (types i)[b] <;> simp

@[simp] theorem queue_type (d : H264DbfInt) (stat : BitVec 32) : (d.queue stat).type = d.type := by
  unfold H264DbfInt.queue
  split <;> rfl

/-- The scan of `n` descriptors from `i` on reaches descriptor `j` with a bit for it. -/
def Reaches (types : Nat → BitVec 32) (n i : Nat) (status : BitVec 32) (j : Nat) : Prop :=
  i ≤ j ∧ j < i + n ∧ firstMet types i status j ≠ 0#32

instance (types : Nat → BitVec 32) (n i : Nat) (status : BitVec 32) (j : Nat) :
    Decidable (Reaches types n i status j) := inferInstanceAs (Decidable (_ ∧ _ ∧ _))

theorem reaches_succ_of_ne {types : Nat → BitVec 32} {n i : Nat} {status : BitVec 32} {j : Nat}
    (hj : j ≠ i) : Reaches types (n + 1) i status j ↔
      Reaches types n (i + 1) (status &&& ~~~(status &&& types i)) j := by
  by_cases hij : i < j
  · rw [Reaches, Reaches, firstMet_succ types status hij]
    exact ⟨fun ⟨_, h, hm⟩ => ⟨hij, by omega, hm⟩, fun ⟨_, h, hm⟩ => ⟨hij.le, by omega, hm⟩⟩
  · exact ⟨fun h => absurd h.1 (by omega), fun h => absurd h.1 (by omega)⟩

theorem reaches_self {types : Nat → BitVec 32} {n i : Nat} {status : BitVec 32} :
    Reaches types (n + 1) i status i ↔ status &&& types i ≠ 0#32 := by
  rw [Reaches, firstMet_self]
  exact ⟨fun h => h.2.2, fun h => ⟨le_rfl, by omega, h⟩⟩

/-- What a scan leaves in the descriptors, and whom it wakes. -/
structure Scanned (types : Nat → BitVec 32) (n i : Nat) (status : BitVec 32)
    (irqs : Nat → H264DbfInt) (r : (Nat → H264DbfInt) × List Nat) : Prop where
  irqs : ∀ j, r.1 j = if Reaches types n i status j then (irqs j).queue (firstMet types i status j)
    else irqs j
  woken : ∀ j, j ∈ r.2 ↔ Reaches types n i status j

theorem scanned_nothing {types : Nat → BitVec 32} {n i : Nat} {status : BitVec 32}
    (irqs : Nat → H264DbfInt) (h : ∀ j, ¬ Reaches types n i status j) :
    Scanned types n i status irqs (irqs, []) :=
  ⟨fun j => (if_neg (h j)).symm, fun j => by simp [h]⟩

/-- One round of the scan in front of the rest of it. -/
theorem Scanned.cons {types : Nat → BitVec 32} {n i : Nat} {status : BitVec 32}
    {irqs irqs' : Nat → H264DbfInt} {r : (Nat → H264DbfInt) × List Nat}
    (h : Scanned types n (i + 1) (status &&& ~~~(status &&& types i)) irqs' r)
    (hself : irqs' i = if status &&& types i ≠ 0#32 then (irqs i).queue (status &&& types i)
      else irqs i) (hother : ∀ k, k ≠ i → irqs' k = irqs k) :
    Scanned types (n + 1) i status irqs
      (r.1, (if status &&& types i ≠ 0#32 then [i] else []) ++ r.2) := by
  have hno : ¬ Reaches types n (i + 1) (status &&& ~~~(status &&& types i)) i :=
    fun h => absurd h.1 (by omega)
  constructor
  · intro j
    by_cases hj : j = i
    · subst hj
      rw [h.irqs, if_neg hno, hself]
      simp only [reaches_self, firstMet_self]
    · rw [h.irqs, hother j hj]
      simp only [reaches_succ_of_ne hj]
      split
      · next hr => rw [firstMet_succ types status (by have := hr.1; omega)]
      · rfl
  · intro j
    rw [List.mem_append, h.woken]
    by_cases hj : j = i
    · subst hj
      rw [reaches_self]
      simp only [hno, or_false]
      split <;> simp [*]
    · rw [reaches_succ_of_ne hj]
      simp only [or_iff_right_iff_imp]
      split
      · intro hmem
        exact absurd (List.mem_singleton.mp hmem) hj
      · intro hmem
        exact absurd hmem List.not_mem_nil

/-- **What the scan does**: a descriptor that it reaches with a bit not taken before gets the bits
    it meets first, and its queue is woken. -/
theorem serviceLoop_spec (types : Nat → BitVec 32) (n i : Nat) (status : BitVec 32)
    (irqs : Nat → H264DbfInt) (htypes : ∀ j, i ≤ j → (irqs j).type = types j) :
    Scanned types n i status irqs (serviceLoop irqs n i status) := by
  induction n generalizing i status irqs with
  | zero =>
      refine scanned_nothing irqs fun j h => ?_
      have := h.1
      have := h.2.1
      omega
  | succ n ih =>
      rw [serviceLoop, htypes i le_rfl]
      generalize hirqs : (if status &&& types i ≠ 0#32 then
        Function.update irqs i ((irqs i).queue (status &&& types i)) else irqs) = irqs'
      have hother : ∀ k, k ≠ i → irqs' k = irqs k := by
        intro k hk
        rw [← hirqs]
        split
        · exact Function.update_of_ne hk _ _
        · rfl
      have hself : irqs' i = if status &&& types i ≠ 0#32 then
          (irqs i).queue (status &&& types i) else irqs i := by
        rw [← hirqs]
        split
        · exact Function.update_self ..
        · rfl
      dsimp only
      split
      · -- the early way out: the rest of the scan would reach nobody
        next h0 =>
          have hrest : Scanned types n (i + 1) (status &&& ~~~(status &&& types i)) irqs'
              (irqs', []) := by
            rw [h0]
            exact scanned_nothing irqs' fun j h => h.2.2 (firstMet_zero _ _ _)
          simpa using hrest.cons hself hother
      · exact (ih (i + 1) _ irqs' fun k hk => by
          rw [hother k (by omega), htypes k (by omega)]).cons hself hother

/-! ## 2. Sequences of calls -/

/-- What happens to the driver: the two calls (with the result of `request_irq`), a wait that takes
    what is pending, a process that falls asleep in a queue, status bits that the device raises
    (with bit 7, as a completion does), a run of the service routine. -/
inductive H264Event where
  | register (id type : BitVec 32) (requestIrq : Bool)
  | unregister (id : BitVec 32)
  | take (id : BitVec 32)
  | sleep (id : BitVec 32) (pid : Nat)
  | raise (bits : Byte)
  | service

/-- A completion with these bits. -/
def H264Sys.raise (s : H264Sys) (bits : Byte) : H264Sys :=
  { s with dbf := s.dbf.poke REG_INT_STATUS (s.dbf.mData REG_INT_STATUS ||| bits ||| 0x80#8) }

namespace H264Event

def apply (s : H264Sys) : H264Event → H264Sys
  | register id type requestIrq => (h264dbfIntRegister s id type requestIrq).getD s
  | unregister id => (h264dbfIntUnregister s id).getD s
  | take id => (h264dbfIntTake s id).1
  | sleep id pid =>
      let desc := s.irqs id.toNat
      { s with
        irqs := Function.update s.irqs id.toNat { desc with waitQueue := pid :: desc.waitQueue } }
  | raise bits => s.raise bits
  | service => (h264dbfIntService s).1

/-- The ids that are registered. -/
def registers (reg : List Nat) : H264Event → List Nat
  | register id _ _ => id.toNat :: reg
  | unregister id => reg.erase id.toNat
  | _ => reg

/-- An id below MAXIRQ, registered once at a time and unregistered only when registered. -/
def Proper (reg : List Nat) : H264Event → Prop
  | register id _ _ => id.toNat < H264DBF_MAXIRQ ∧ id.toNat ∉ reg
  | unregister id => id.toNat ∈ reg
  | _ => True

instance (reg : List Nat) (e : H264Event) : Decidable (e.Proper reg) := by
  cases e <;> unfold Proper <;> infer_instance

end H264Event

/-- The driver when it is loaded. -/
def H264Sys.init : H264Sys where
  dbf := .new
  irqEn := false
  nbIrqEn := 0
  irqs := fun _ => ⟨0#32, 0#32, 0#32, []⟩
  handler := false
  systemcIntEnable := 0#32

/-- The driver and the registered ids after a sequence of events. -/
def afterEvents (es : List H264Event) : H264Sys × List Nat :=
  es.foldl (fun s e => (e.apply s.1, e.registers s.2)) (.init, [])

/-- Each event is proper where it happens. -/
def ProperEvents : List Nat → List H264Event → Prop
  | _, [] => True
  | reg, e :: es => e.Proper reg ∧ ProperEvents (e.registers reg) es

/-! ## 3. Delivery -/

/-- The status bits that the routine hands on. -/
def H264Sys.statusBits (s : H264Sys) : BitVec 32 :=
  (s.dbf.readb H264DBF_INT_STATUS &&& 0x7F#8).setWidth 32

/-- The routine records each status bit of the type of a registered descriptor in a registered
    descriptor of that type, and wakes the queue of that one. -/
def Delivered (s : H264Sys) (reg : List Nat) : Prop :=
  ∀ i ∈ reg, ∀ b < 7, s.statusBits.getLsbD b → (s.irqs i).type.getLsbD b →
    ∃ j ∈ reg, (s.irqs j).type.getLsbD b ∧
      ((h264dbfIntService s).1.irqs j).pending.getLsbD b ∧ j ∈ (h264dbfIntService s).2

/-- Each such bit is of the type of a registered descriptor `j` that is among the first
    `nb_irq_en`, is reached with some bit, and has the bit pending already or takes it while none
    of the bits it takes is pending. -/
def Deliverable (s : H264Sys) (reg : List Nat) : Prop :=
  ∀ i ∈ reg, ∀ b < 7, s.statusBits.getLsbD b → (s.irqs i).type.getLsbD b →
    ∃ j ∈ reg, j < s.nbIrqEn.toNat ∧ (s.irqs j).type.getLsbD b ∧
      let taken := firstMet (fun k => (s.irqs k).type) 0 s.statusBits j
      taken ≠ 0#32 ∧ ((s.irqs j).pending.getLsbD b ∨
        (taken.getLsbD b ∧ taken &&& (s.irqs j).pending = 0#32))

theorem queue_pending (d : H264DbfInt) (stat : BitVec 32) (b : Nat) :
    (d.queue stat).pending.getLsbD b ↔
      d.pending.getLsbD b ∨ (stat.getLsbD b ∧ stat &&& d.pending = 0#32) := by
  unfold H264DbfInt.queue
  split
  · next h => simp [h]
  · next h =>
      rw [not_not] at h
      simp [h]

/-- A status with bit 7 and another bit is looked at. -/
theorem service_eq (s : H264Sys) (h : ¬ s.dbf.readb H264DBF_INT_STATUS ≤ 0x80#8) :
    h264dbfIntService s =
      let r := serviceLoop s.irqs s.nbIrqEn.toNat 0 s.statusBits
      ({ s with dbf := s.dbf.writeb H264DBF_INT_ACK (s.dbf.readb H264DBF_INT_STATUS &&& 0x7F#8),
                irqs := r.1 }, r.2) := by
  simp only [h264dbfIntService, if_neg h, H264Sys.statusBits]

theorem readb_raise (s : H264Sys) (bits : Byte) : (s.raise bits).dbf.readb H264DBF_INT_STATUS =
    s.dbf.mData REG_INT_STATUS ||| bits ||| 0x80#8 := by
  simp [H264Sys.raise, DbfDevice.poke, DbfDevice.readb, H264DBF_INT_STATUS, REG_INT_STATUS]

/-- With bit 7 up, a status of at most 0x80 has no other bit. -/
theorem no_bits_of_le {x : Byte} (h7 : x.getLsbD 7) (h : x ≤ 0x80#8) :
    (x &&& 0x7F#8).setWidth 32 = 0#32 := by
  revert x
  decide

theorem delivered_iff (s : H264Sys) (reg : List Nat)
    (h7 : (s.dbf.readb H264DBF_INT_STATUS).getLsbD 7) : Delivered s reg ↔ Deliverable s reg := by
  by_cases hle : s.dbf.readb H264DBF_INT_STATUS ≤ 0x80#8
  · -- no bit is up: nothing to deliver
    have h0 : s.statusBits = 0#32 := no_bits_of_le h7 hle
    simp [Delivered, Deliverable, h0]
  · have hscan := serviceLoop_spec (fun k => (s.irqs k).type) s.nbIrqEn.toNat 0 s.statusBits s.irqs
      fun _ _ => rfl
    rw [Delivered, Deliverable, service_eq s hle]
    refine forall₂_congr fun i _ => forall₄_congr fun b _ _ _ => exists_congr fun j =>
      and_congr_right fun _ => ?_
    simp only [hscan.woken, hscan.irqs, Reaches, Nat.zero_le, Nat.zero_add, true_and]
    constructor
    · intro hyp
      obtain ⟨htype, hpend, hlt, hmet⟩ := hyp
      rw [if_pos ⟨hlt, hmet⟩, queue_pending] at hpend
      exact ⟨hlt, htype, hmet, hpend⟩
    · intro hyp
      obtain ⟨hlt, htype, hmet, hpend⟩ := hyp
      refine ⟨htype, ?_, hlt, hmet⟩
      rw [if_pos ⟨hlt, hmet⟩, queue_pending]
      exact hpend

/-- **After any calls**, a run of the service routine on the bits that the device raises delivers
    them if and only if the registered descriptors are where the scan finds them. -/
theorem service_delivers_iff (es : List H264Event) (bits : Byte) :
    Delivered ((afterEvents es).1.raise bits) (afterEvents es).2 ↔
      Deliverable ((afterEvents es).1.raise bits) (afterEvents es).2 := by
  refine delivered_iff _ _ ?_
  rw [readb_raise]
  simp

/-- Id 1 alone is registered, for the SRAM bit, and the scan looks at descriptor 0 only; or one bit
    of a descriptor is pending, and a new bit comes up together with it. -/
theorem service_loses_bit :
    (ProperEvents [] [.register 1#32 0x20#32 true] ∧
      ¬ Delivered ((afterEvents [.register 1#32 0x20#32 true]).1.raise 0x20#8)
        (afterEvents [.register 1#32 0x20#32 true]).2) ∧
    ProperEvents [] [.register 0#32 0x3#32 true, .raise 0x1#8, .service] ∧
      ¬ Delivered ((afterEvents [.register 0#32 0x3#32 true, .raise 0x1#8, .service]).1.raise 0x3#8)
        (afterEvents [.register 0#32 0x3#32 true, .raise 0x1#8, .service]).2 := by
  refine ⟨⟨by simp [ProperEvents, H264Event.Proper, H264DBF_MAXIRQ], fun h => ?_⟩,
    by simp [ProperEvents, H264Event.Proper, H264DBF_MAXIRQ], fun h => ?_⟩
  · exact absurd (h 1 (by decide) 5 (by decide) (by decide) (by decide)) (by decide)
  · exact absurd (h 0 (by decide) 1 (by decide) (by decide) (by decide)) (by decide)

end Rabbits
