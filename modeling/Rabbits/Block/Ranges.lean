/-
  File:      Rabbits/Block/Ranges.lean
  Subject:   The 32-bit sums and products of a READ or a WRITE (sl_block_device.cpp:
             control_thread).

  The position and the length in the file, the size of `data_buff` and the addresses on the bus are
  computed modulo 2^32, without a check.

  * `RangesRight` -- what an operation has done is what its registers say in unbounded integers;
  * `ReadFits`, `WriteFits` -- the sums and products that the operation comes to do not wrap;
  * `wordLoop_reaches` -- some answers of the bus bring a READ to any byte of its range;
  * `ranges_iff` -- **the operations whose ranges are right, whatever the bus answers**.
-/
import Rabbits.Block.Buffer
import Rabbits.Block.Transfer

namespace Rabbits

open Lib

variable {η : Type} {fs : HostFs η}

/-! ## 1. The ranges -/

/-- A 32-bit product as an `off_t` of `w` bits. -/
def offT (w : Nat) (off : ULong) : Int := (off.setWidth w).toInt

/-- A use that is right for an operation with these registers. -/
def UseRight (w : Nat) (r : SlBlockRegs) : BufferUse → Prop
  | .alloc size => size.toNat = r.length + 4
  | .access index n => index + n ≤ r.length + 4
  | .seek off => offT w off = r.position
  | .transfer n => n = r.length
  | .delete => True

namespace BlockDevice

/-- The uses are right; the device asks the bus for the place in memory that belongs to the place in
    the buffer; and no success without the transfer. -/
structure RangesRight (w : Nat) (r : SlBlockRegs) (s : Traced (BlockDevice η) BufferUse) : Prop where
  uses : ∀ u ∈ s.trace, UseRight w r u
  bus : ∀ a, s.state.control.busAccess = some a →
    ∃ i, .access i a.nbytes ∈ s.trace ∧ a.addr.toNat = r.buffer.toNat + i
  success : Succeeded s.state.regs.status → .transfer r.length ∈ s.trace

/-- The product does not wrap, and `off_t` holds it. -/
def InOffT (w p : Nat) : Prop := p < 2 ^ 32 ∧ p < 2 ^ (w - 1)

/-- The memory behind BUFFER takes what the host reads. -/
structure ReadFits (w : Nat) (fs : HostFs η) (d : BlockDevice η) : Prop where
  length : d.regs.length + 4 < 2 ^ 32
  start : InOffT w d.regs.position
  buffer : ∀ bytes, (d.hostRead fs).1 = some bytes → d.regs.buffer.toNat + bytes.length ≤ 2 ^ 32

/-- The last word begins behind BUFFER; a WRITE of no bytes comes to its seek only with a `func_ret`
    that is not 0. -/
structure WriteFits (w : Nat) (d : BlockDevice η) : Prop where
  length : d.regs.length + 4 < 2 ^ 32
  start : InOffT w d.regs.position ∨ d.regs.length = 0 ∧ d.funcRet = 0#32
  buffer : 0 < d.regs.length → d.regs.buffer.toNat + (d.regs.length - 1) / 4 * 4 < 2 ^ 32

/-- The operation fits. -/
def Fits (w : Nat) (fs : HostFs η) (d : BlockDevice η) : Prop :=
  if decodeOp d.regs.op = some .READ then ReadFits w fs d else WriteFits w d

/-- No register is written. -/
def Label.NoWrite : Label → Prop
  | .write _ _ _ => False
  | _ => True

/-- The device that keeps its uses. -/
def nextUsed (fs : HostFs η) :
    Traced (BlockDevice η) BufferUse → Label → Option (Traced (BlockDevice η) BufferUse) :=
  Traced.step (next fs) fun d l => d.uses fs l

/-! ## 2. Products -/

theorem offT_eq_iff {w : Nat} (hw : 32 ≤ w) (a b : ULong) :
    offT w (a * b) = ((a.toNat * b.toNat : Nat) : Int) ↔ InOffT w (a.toNat * b.toNat) := by
  have hpow : 2 ^ w = 2 * 2 ^ (w - 1) := by
    rw [← pow_succ']
    congr 1
    omega
  have hle : (2 : Nat) ^ 32 ≤ 2 ^ w := Nat.pow_le_pow_right (by omega) hw
  have hmod : ((a * b).setWidth w).toNat = a.toNat * b.toNat % 2 ^ 32 := by
    rw [BitVec.toNat_setWidth, BitVec.toNat_mul]
    exact Nat.mod_eq_of_lt (lt_of_lt_of_le (Nat.mod_lt _ (by decide)) hle)
  rw [offT, BitVec.toInt_eq_toNat_cond, hmod, InOffT]
  generalize a.toNat * b.toNat = p at *
  generalize 2 ^ (w - 1) = m at *
  generalize 2 ^ w = q at *
  constructor
  · intro h
    split at h <;> omega
  · intro h
    obtain ⟨h32, hm⟩ := h
    rw [Nat.mod_eq_of_lt h32, if_pos (by omega)]

/-- **The size of `data_buff`** is right exactly if nothing wraps. -/
theorem alloc_right_iff (w : Nat) (d : BlockDevice η) :
    UseRight w d.regs (.alloc (d.transferSize + 4#32)) ↔ d.regs.length + 4 < 2 ^ 32 := by
  have hmod : (d.transferSize + 4#32).toNat = (d.regs.length % 2 ^ 32 + 4) % 2 ^ 32 := by
    rw [BitVec.toNat_add, transferSize, BitVec.toNat_mul]
    rfl
  rw [UseRight, hmod]
  constructor
  · intro h
    have := Nat.mod_lt (d.regs.length % 2 ^ 32 + 4) (y := 2 ^ 32) (by decide)
    omega
  · intro h
    rw [Nat.mod_eq_of_lt (a := d.regs.length) (by omega), Nat.mod_eq_of_lt h]

theorem seek_right_iff {w : Nat} (hw : 32 ≤ w) (r : SlBlockRegs) :
    UseRight w r (.seek (r.lba * r.blockSize)) ↔ InOffT w r.position := offT_eq_iff hw _ _

/-! ## 3. An operation that fits -/

/-- Where `control_thread` is in an operation that began in `d₀`. -/
def InPlace (d₀ : BlockDevice η) : Control → Prop
  | .writeWord t | .writeByte t => decodeOp d₀.regs.op = some .READ ∧ t.addr = d₀.regs.buffer ∧
      t.transferSize.toNat ≤ d₀.regs.length ∧ t.addr.toNat + t.transferSize.toNat ≤ 2 ^ 32
  | .readWord name t => name = false ∧ decodeOp d₀.regs.op ≠ some .READ ∧
      t.addr = d₀.regs.buffer ∧ t.transferSize.toNat = d₀.regs.length ∧ 4 ∣ t.offset.toNat
  | .waiting woken => woken = false
  | .spinning => False

/-- What a step of the operation does. -/
structure StepRight (w : Nat) (d₀ d e : BlockDevice η) (us : List BufferUse) : Prop where
  uses : ∀ u ∈ us, UseRight w d₀.regs u
  bus : ∀ a, e.control.busAccess = some a →
    ∃ i, .access i a.nbytes ∈ us ∧ a.addr.toNat = d₀.regs.buffer.toNat + i
  success : Succeeded e.regs.status → Succeeded d.regs.status ∨ decodeOp d₀.regs.op = some .READ ∨
    .transfer d₀.regs.length ∈ us
  place : InPlace d₀ e.control
  position : e.position = d.position

/-- A step that ends the operation. -/
theorem stepRight_waiting {w : Nat} {d₀ d e : BlockDevice η} {us : List BufferUse}
    (hc : e.control = .waiting false) (hpos : e.position = d.position)
    (huses : ∀ u ∈ us, UseRight w d₀.regs u)
    (hsuccess : Succeeded e.regs.status → decodeOp d₀.regs.op = some .READ ∨
      .transfer d₀.regs.length ∈ us) : StepRight w d₀ d e us where
  uses := huses
  bus a ha := by
    rw [hc] at ha
    cases ha
  success h := .inr (hsuccess h)
  place := by
    rw [hc]
    rfl
  position := hpos

variable {w : Nat} {d₀ d e : BlockDevice η} {t : Transfer} {us : List BufferUse}

/-- The place on the bus of a place in the buffer. -/
theorem toNat_busAddr (haddr : t.addr = d₀.regs.buffer)
    (h : t.addr.toNat + t.offset.toNat < 2 ^ 32) :
    (t.addr + t.offset).toNat = d₀.regs.buffer.toNat + t.offset.toNat := by
  rw [BitVec.toNat_add, Nat.mod_eq_of_lt h, haddr]

theorem position_raiseIrq (d : BlockDevice η) : d.raiseIrq.position = d.position := by
  unfold raiseIrq
  split <;> rfl

theorem stepRight_readDone (hp : InPlace d₀ (.writeByte t)) (hpos : e.position = d.position) :
    StepRight w d₀ d (e.readDone t) (e.readDoneUses t) := by
  refine stepRight_waiting (control_readDone e t) ?_ (fun u hu => ?_) fun _ => .inl hp.1
  · refine Eq.trans ?_ hpos
    unfold readDone
    split
    · rfl
    · exact position_raiseIrq e
  · unfold readDoneUses at hu
    split at hu
    · cases hu
    · rw [List.mem_singleton.mp hu]
      trivial

theorem stepRight_byteLoop (hp : InPlace d₀ (.writeByte t)) (hpos : e.position = d.position) :
    StepRight w d₀ d (e.byteLoop t) (e.byteLoopUses t) := by
  unfold byteLoop byteLoopUses
  split
  · next hlt =>
      obtain ⟨hread, haddr, hlen, hfit⟩ := hp
      rw [BitVec.lt_def] at hlt
      refine ⟨fun u hu => ?_, fun a ha => ?_, fun h => .inr (.inl hread),
        ⟨hread, haddr, hlen, hfit⟩, hpos⟩
      · rw [List.mem_singleton.mp hu]
        show t.offset.toNat + 1 ≤ d₀.regs.length + 4
        omega
      · cases ha
        exact ⟨t.offset.toNat, List.mem_singleton_self _, toNat_busAddr haddr (by omega)⟩
  · exact stepRight_readDone hp hpos

theorem stepRight_wordLoop (hp : InPlace d₀ (.writeWord t)) (hpos : e.position = d.position) :
    StepRight w d₀ d (e.wordLoop t) (e.wordLoopUses t) := by
  unfold wordLoop wordLoopUses
  split
  · next hlt =>
      obtain ⟨hread, haddr, hlen, hfit⟩ := hp
      have hle : (t.transferSize &&& ~~~3#32).toNat ≤ t.transferSize.toNat := by
        rw [BitVec.toNat_and]
        exact Nat.and_le_left
      rw [BitVec.lt_def] at hlt
      refine ⟨fun u hu => ?_, fun a ha => ?_, fun h => .inr (.inl hread),
        ⟨hread, haddr, hlen, hfit⟩, hpos⟩
      · rw [List.mem_singleton.mp hu]
        show t.offset.toNat + 4 ≤ d₀.regs.length + 4
        omega
      · cases ha
        exact ⟨t.offset.toNat, List.mem_singleton_self _, toNat_busAddr haddr (by omega)⟩
  · exact stepRight_byteLoop hp hpos

/-- **The end of a WRITE**: the registers say the position, and `func_ret` whether it is used. -/
theorem stepRight_writeDone (hw : 32 ≤ w) (hp : InPlace d₀ (.readWord false t))
    (hpos : e.position = d₀.position) (hd : d.position = d₀.position)
    (hseek : e.funcRet ≠ 0#32 → InOffT w d₀.regs.position) :
    StepRight w d₀ d (e.writeDone fs t) (e.writeDoneUses t) := by
  obtain ⟨-, -, haddr, hsize, hmul⟩ := hp
  unfold writeDoneUses
  by_cases hret : e.funcRet = 0#32
  · rw [if_pos hret]
    refine stepRight_waiting (control_writeDone e t) ?_ (fun u hu => by cases hu) fun hs => ?_
    · rw [writeDone, if_pos hret]
      exact hpos.trans hd.symm
    · rw [writeDone, if_pos hret] at hs
      exact absurd hs (by simp [Succeeded, done])
  · rw [if_neg hret]
    refine stepRight_waiting (control_writeDone e t) ?_ (fun u hu => ?_) fun _ => ?_
    · rw [writeDone, if_neg hret]
      refine Eq.trans ?_ (hpos.trans hd.symm)
      exact position_raiseIrq (e.writeFile fs t)
    · have hright : UseRight w d₀.regs (.seek d₀.position) := (seek_right_iff hw _).mpr (hseek hret)
      simp only [List.mem_cons, List.not_mem_nil, or_false] at hu
      rcases hu with rfl | rfl | rfl | rfl
      · rw [← hpos] at hright
        exact hright
      · exact hsize
      · show 0 + t.transferSize.toNat ≤ d₀.regs.length + 4
        omega
      · trivial
    · simp [hsize]

theorem stepRight_readLoop (hw : 32 ≤ w) (hp : InPlace d₀ (.readWord false t))
    (hpos : e.position = d₀.position) (hd : d.position = d₀.position)
    (hstatus : Succeeded e.regs.status → Succeeded d.regs.status) (hfits : WriteFits w d₀)
    (hseek : e.funcRet ≠ 0#32 → InOffT w d₀.regs.position) :
    StepRight w d₀ d (e.readLoop fs false t) (e.readLoopUses fs false t) := by
  by_cases hlt : t.offset < t.transferSize
  · obtain ⟨hgoes, huses⟩ := @readLoop_goes_on η fs e _ hlt false
    rw [hgoes, huses]
    have hp' := hp
    obtain ⟨-, hwrite, haddr, hsize, q, hq⟩ := hp
    rw [BitVec.lt_def, hsize, hq] at hlt
    have hbuffer := hfits.buffer (by omega)
    refine ⟨fun u hu => ?_, fun a ha => ?_, fun h => .inl (hstatus h), hp', hpos.trans hd.symm⟩
    · rw [List.mem_singleton.mp hu]
      show t.offset.toNat + 4 ≤ d₀.regs.length + 4
      omega
    · cases ha
      refine ⟨t.offset.toNat, List.mem_singleton_self _, toNat_busAddr haddr ?_⟩
      rw [haddr]
      omega
  · obtain ⟨hends, huses⟩ := @readLoop_ends η fs e _ hlt
    rw [hends, huses]
    exact stepRight_writeDone hw hp hpos hd hseek

/-- The first step of a READ. -/
theorem stepRight_startRead (hw : 32 ≤ w)
    (hread : ∀ h fd n bytes h', fs.read h fd n = (some bytes, h') → bytes.length ≤ n.toNat)
    (hop : decodeOp d₀.regs.op = some .READ) (hfits : ReadFits w fs d₀) (fresh : Nat → Byte) :
    StepRight w d₀ d₀.busy (d₀.startRead fs fresh) (d₀.startReadUses fs) ∧
      .transfer d₀.regs.length ∈ d₀.startReadUses fs := by
  have hlen : d₀.transferSize.toNat = d₀.regs.length :=
    toNat_transferSize (Nat.lt_of_add_right_lt hfits.length)
  have hfirst : ∀ u, u = .alloc (d₀.transferSize + 4#32) ∨ u = .seek d₀.position ∨
      u = .transfer d₀.transferSize.toNat → UseRight w d₀.regs u := by
    intro u hu
    rcases hu with rfl | rfl | rfl
    · exact (alloc_right_iff w d₀).mpr hfits.length
    · exact (seek_right_iff hw d₀.regs).mpr hfits.start
    · exact hlen
  rcases hhost : d₀.hostRead fs with ⟨_ | bytes, host⟩
  · obtain ⟨hregs, hc, huses⟩ := startRead_fails hhost fresh
    rw [huses]
    refine ⟨stepRight_waiting hc ?_ (fun u hu => hfirst u (by simpa using hu)) fun _ => .inl hop, ?_⟩
    · rw [position, hregs]
      rfl
    · simp [hlen]
  · obtain ⟨e, t, hregs, -, -, -, rfl, hstart, huses⟩ := startRead_reads hhost fresh
    have hle : bytes.length ≤ d₀.regs.length := hlen ▸ hread _ _ _ _ _ hhost
    have hfit := hfits.buffer bytes (by rw [hhost])
    have hsize : (BitVec.ofNat 32 bytes.length).toNat = bytes.length :=
      Nat.mod_eq_of_lt (by have := hfits.length; omega)
    rw [hstart, huses]
    have hloop : StepRight w d₀ d₀.busy
        (e.wordLoop
          ⟨d₀.regs.buffer, 0#32, BitVec.ofNat 32 bytes.length, fun i => bytes.getD i (fresh i)⟩)
        (e.wordLoopUses
          ⟨d₀.regs.buffer, 0#32, BitVec.ofNat 32 bytes.length, fun i => bytes.getD i (fresh i)⟩) := by
      refine stepRight_wordLoop ⟨hop, rfl, ?_, ?_⟩ (by rw [position, hregs]; rfl)
      · exact hsize.trans_le hle
      · exact (congrArg _ hsize).trans_le hfit
    refine ⟨⟨fun u hu => ?_, fun a ha => ?_, fun _ => .inr (.inl hop), hloop.place, hloop.position⟩, ?_⟩
    · rcases List.mem_append.mp hu with hu | hu
      · simp only [List.mem_cons, List.not_mem_nil, or_false] at hu
        rcases hu with rfl | rfl | rfl | rfl
        · exact hfirst _ (.inl rfl)
        · exact hfirst _ (.inr (.inl rfl))
        · exact hfirst _ (.inr (.inr rfl))
        · show 0 + bytes.length ≤ d₀.regs.length + 4
          omega
      · exact hloop.uses u hu
    · obtain ⟨i, hi, haddr⟩ := hloop.bus a ha
      exact ⟨i, List.mem_append_right _ hi, haddr⟩
    · simp [hlen]

/-- The first step of a WRITE. -/
theorem stepRight_startWrite (hw : 32 ≤ w) (hop : decodeOp d₀.regs.op ≠ some .READ)
    (hfits : WriteFits w d₀) (fresh : Nat → Byte) :
    StepRight w d₀ d₀.busy (d₀.startWrite fs false fresh) (d₀.startWriteUses fs false fresh) := by
  have hlen : d₀.transferSize.toNat = d₀.regs.length :=
    toNat_transferSize (Nat.lt_of_add_right_lt hfits.length)
  have hloop : StepRight w d₀ d₀.busy
      (d₀.busy.readLoop fs false ⟨d₀.regs.buffer, 0#32, d₀.transferSize, fresh⟩)
      (d₀.busy.readLoopUses fs false ⟨d₀.regs.buffer, 0#32, d₀.transferSize, fresh⟩) := by
    refine stepRight_readLoop hw ⟨rfl, hop, rfl, hlen, dvd_zero 4⟩ rfl rfl id hfits
      fun hne => ?_
    exact hfits.start.resolve_right fun hzero => hne hzero.2
  refine ⟨fun u hu => ?_, fun a ha => ?_, fun hs => ?_, hloop.place, hloop.position⟩
  · rcases List.mem_cons.mp hu with rfl | hu
    · exact (alloc_right_iff w d₀).mpr hfits.length
    · exact hloop.uses u hu
  · obtain ⟨i, hi, haddr⟩ := hloop.bus a ha
    exact ⟨i, List.mem_cons_of_mem _ hi, haddr⟩
  · rcases hloop.success hs with h | h | h
    · exact .inl h
    · exact .inr (.inl h)
    · exact .inr (.inr (List.mem_cons_of_mem _ h))

/-- **A response** in the operation. -/
theorem stepRight_reply {d' : BlockDevice η} {bErr : Bool} {data : ULong} (hw : 32 ≤ w)
    (hfits : Fits w fs d₀) (hp : InPlace d₀ d.control) (hloop : d.control.InLoop)
    (hpos : d.position = d₀.position) (h : d.reply fs bErr data = some d') :
    StepRight w d₀ d d' (d.replyUses fs bErr data) := by
  unfold reply at h
  unfold replyUses
  cases hc : d.control with
  | writeWord t =>
      rw [hc] at hp
      simp only [hc, Option.some.injEq] at h ⊢
      rw [← h]
      cases bErr with
      | true => exact stepRight_byteLoop hp rfl
      | false => exact stepRight_wordLoop hp rfl
  | writeByte t =>
      rw [hc] at hp
      simp only [hc, Option.some.injEq] at h ⊢
      rw [← h]
      cases bErr with
      | true => exact stepRight_readDone hp rfl
      | false => exact stepRight_byteLoop hp rfl
  | readWord name t =>
      rw [hc] at hp hloop
      simp only [hc, Option.some.injEq] at h ⊢
      rw [← h]
      obtain ⟨rfl, hwrite, haddr, hsize, hmul⟩ := hp
      rw [Fits, if_neg hwrite] at hfits
      cases bErr with
      | true =>
          have hdone : StepRight w d₀ d (writeDone fs (d.rcvRsp true) (t.copy data))
              ((d.rcvRsp true).writeDoneUses (t.copy data)) :=
            stepRight_writeDone hw ⟨rfl, hwrite, haddr, hsize, hmul⟩ hpos hpos
              fun hne => absurd rfl hne
          exact hdone
      | false =>
          have hlt : t.offset.toNat < d₀.regs.length := by
            rw [Control.InLoop, BitVec.lt_def, hsize] at hloop
            exact hloop
          have hadd : (t.offset + 4#32).toNat = t.offset.toNat + 4 := by
            have := hfits.length
            rw [BitVec.toNat_add]
            exact Nat.mod_eq_of_lt (by simp only [BitVec.toNat_ofNat]; omega)
          have hmul' : 4 ∣ (t.offset + 4#32).toNat := hadd ▸ Nat.dvd_add hmul (dvd_refl 4)
          have hgoes : StepRight w d₀ d
              (readLoop fs (d.rcvRsp false) false ((t.copy data).advance 4#32))
              (readLoopUses fs (d.rcvRsp false) false ((t.copy data).advance 4#32)) :=
            stepRight_readLoop hw ⟨rfl, hwrite, haddr, hsize, hmul'⟩ hpos hpos id hfits
              fun _ => hfits.start.resolve_right fun hzero => by omega
          exact hgoes
  | waiting woken =>
      rw [hc] at h
      cases h
  | spinning =>
      rw [hc] at h
      cases h

/-- In the operation that began in `d₀`, everything up to now is right. -/
structure OpInv (w : Nat) (d₀ : BlockDevice η) (s : Traced (BlockDevice η) BufferUse) : Prop where
  right : RangesRight w d₀.regs s
  place : InPlace d₀ s.state.control
  loop : s.state.control.InLoop
  position : s.state.position = d₀.position
  read : decodeOp d₀.regs.op = some .READ → .transfer d₀.regs.length ∈ s.trace

theorem OpInv.step {s : Traced (BlockDevice η) BufferUse} (hi : OpInv w d₀ s)
    (h : StepRight w d₀ s.state e us) (hloop : e.control.InLoop) :
    OpInv w d₀ ⟨e, s.trace ++ us⟩ where
  right := by
    refine ⟨fun u hu => ?_, fun a ha => ?_, fun hs => ?_⟩
    · exact (List.mem_append.mp hu).elim (hi.right.uses u) (h.uses u)
    · obtain ⟨i, hmem, haddr⟩ := h.bus a ha
      exact ⟨i, List.mem_append_right _ hmem, haddr⟩
    · rcases h.success hs with hd | hread | hmem
      · exact List.mem_append_left _ (hi.right.success hd)
      · exact List.mem_append_left _ (hi.read hread)
      · exact List.mem_append_right _ hmem
  place := h.place
  loop := hloop
  position := h.position.trans hi.position
  read hread := List.mem_append_left _ (hi.read hread)

/-- A step of another thread. -/
theorem OpInv.beside {s s' : Traced (BlockDevice η) BufferUse} (hi : OpInv w d₀ s)
    (hc : s'.state.control = s.state.control) (hpos : s'.state.position = s.state.position)
    (hstatus : Succeeded s'.state.regs.status → Succeeded s.state.regs.status)
    (htrace : s'.trace = s.trace) : OpInv w d₀ s' where
  right := ⟨htrace ▸ hi.right.uses, fun a ha => htrace ▸ hi.right.bus a (hc ▸ ha),
    fun hs => htrace ▸ hi.right.success (hstatus hs)⟩
  place := hc ▸ hi.place
  loop := hc ▸ hi.loop
  position := hpos.trans hi.position
  read := htrace ▸ hi.read

theorem opInv_next {s s' : Traced (BlockDevice η) BufferUse} {l : Label} (hw : 32 ≤ w)
    (hfits : Fits w fs d₀) (hi : OpInv w d₀ s) (hl : l.NoWrite) (h : nextUsed fs s l = some s') :
    OpInv w d₀ s' := by
  obtain ⟨hnext, htrace⟩ := Traced.step_eq_some h
  obtain ⟨d, us⟩ := s
  obtain ⟨d', us'⟩ := s'
  have hloop' : d'.control.InLoop := inLoop_next hi.loop hnext
  simp only at hnext htrace
  obtain ⟨-, ⟨ofs, be, data, rfl, -⟩ | ⟨ofs, be, rfl, hd'⟩ | ⟨fresh, rfl, hc, -⟩ |
    ⟨bErr, data, rfl, -, hr⟩ | ⟨rfl, hd'⟩⟩ := next_cases hnext
  · exact hl.elim
  · obtain ⟨hstart, hregs⟩ := slaveRead_spec d.regs ofs be
    refine hi.beside ?_ ?_ ?_ (htrace.trans (List.append_nil us))
    · simp only [hd', access, hstart, Bool.false_eq_true, if_false]
    · simp only [hd', access, position, hregs]
      split <;> rfl
    · simp only [hd', access, hregs]
      split
      · intro hs
        exact absurd hs (by simp [Succeeded])
      · exact id
  · have hplace := hi.place
    rw [hc] at hplace
    cases hplace
  · rw [htrace]
    exact hi.step (stepRight_reply hw hfits hi.place hi.loop hi.position hr) hloop'
  · refine hi.beside ?_ ?_ ?_ (htrace.trans (List.append_nil us))
    · rw [hd']
      rfl
    · rw [hd']
      rfl
    · rw [hd']
      exact id

/-- The first step of an operation. -/
theorem opInv_control (hw : 32 ≤ w)
    (hread : ∀ h fd n bytes h', fs.read h fd n = (some bytes, h') → bytes.length ≤ n.toNat)
    (hop : decodeOp d₀.regs.op = some .READ ∨ decodeOp d₀.regs.op = some .WRITE)
    (hfits : Fits w fs d₀) (fresh : Nat → Byte) :
    OpInv w d₀ ⟨d₀.runControl fs fresh, d₀.controlUses fs fresh⟩ := by
  have hloop := @runControl_inLoop η fs d₀ fresh
  have hfirst : ∀ us, StepRight w d₀ d₀.busy (d₀.runControl fs fresh) us →
      (decodeOp d₀.regs.op = some .READ → .transfer d₀.regs.length ∈ us) →
      OpInv w d₀ ⟨d₀.runControl fs fresh, us⟩ := by
    intro us hstep hmem
    refine ⟨⟨hstep.uses, hstep.bus, fun hs => ?_⟩, hstep.place, hloop, hstep.position, hmem⟩
    rcases hstep.success hs with hbusy | h | h
    · exact absurd hbusy (by simp [Succeeded, busy])
    · exact hmem h
    · exact h
  rw [Fits] at hfits
  rcases hop with hop | hop
  · rw [if_pos hop] at hfits
    obtain ⟨hstep, hmem⟩ := stepRight_startRead hw hread hop hfits fresh
    simp only [runControl, controlUses, hop] at hfirst ⊢
    exact hfirst _ hstep fun _ => hmem
  · have hne : decodeOp d₀.regs.op ≠ some .READ := by simp [hop]
    rw [if_neg hne] at hfits
    have hstep := @stepRight_startWrite η fs _ _ hw hne hfits fresh
    simp only [runControl, controlUses, hop] at hfirst ⊢
    exact hfirst _ hstep (by simp)

/-! ## 4. The exact condition -/

/-- Right, whatever the bus answers and the other threads do. -/
def AlwaysRight (w : Nat) (fs : HostFs η) (d₀ : BlockDevice η) : Prop :=
  ∀ fresh ls s, (∀ l ∈ ls, Label.NoWrite l) →
    exec (nextUsed fs) ⟨d₀, []⟩ (.control fresh :: ls) = some s → RangesRight w d₀.regs s

/-- The first step, traced. -/
theorem nextUsed_control (hc : d₀.control = .waiting true) (fresh : Nat → Byte) :
    nextUsed fs ⟨d₀, []⟩ (.control fresh) =
      some ⟨d₀.runControl fs fresh, d₀.controlUses fs fresh⟩ := by
  have hnext : next fs d₀ (.control fresh) = some (d₀.runControl fs fresh) := by
    simp only [next, hc]
  simp only [nextUsed, Traced.step, hnext, Option.map_some, List.nil_append, uses]

theorem AlwaysRight.behind (h : AlwaysRight w fs d₀) (hc : d₀.control = .waiting true)
    (fresh : Nat → Byte) {ls : List Label} (hls : ∀ l ∈ ls, Label.NoWrite l)
    {s : Traced (BlockDevice η) BufferUse}
    (hrun : exec (nextUsed fs) ⟨d₀.runControl fs fresh, d₀.controlUses fs fresh⟩ ls = some s) :
    RangesRight w d₀.regs s := by
  refine h fresh ls s hls ?_
  rw [exec_cons (nextUsed_control hc fresh)]
  exact hrun

theorem nextUsed_response {d' : BlockDevice η} {bErr : Bool} {data : ULong}
    (h : d.reply fs bErr data = some d') (us : List BufferUse) :
    nextUsed fs ⟨d, us⟩ (.response bErr data) =
      some ⟨d', us ++ d.uses fs (.response bErr data)⟩ := by
  simp only [nextUsed, Traced.step, next_response h, Option.map_some]

/-- Responses are no register writes. -/
theorem noWrite_replicate (j : Nat) (v : ULong) :
    ∀ l ∈ List.replicate j (Label.response false v), Label.NoWrite l := by
  intro l hl
  rw [List.eq_of_mem_replicate hl]
  trivial

/-- A bus address that has wrapped. -/
theorem not_right_of_wrap {r : SlBlockRegs} {s : Traced (BlockDevice η) BufferUse} {a : BusAccess}
    {i : Nat} (ha : s.state.control.busAccess = some a)
    (haddr : a.addr.toNat = (r.buffer.toNat + i) % 2 ^ 32) (hi : i < 2 ^ 32)
    (hwrap : 2 ^ 32 ≤ r.buffer.toNat + i) : ¬ RangesRight w r s := by
  intro h
  obtain ⟨k, -, hk⟩ := h.bus a ha
  omega

/-- Some answers of the bus bring a READ to a byte of its range. -/
theorem wordLoop_reaches (fs : HostFs η) (e : BlockDevice η) {t : Transfer} {j : Nat}
    (h : t.offset.toNat + j < t.transferSize.toNat) :
    ∃ ls d u, (∀ l ∈ ls, Label.NoWrite l) ∧ exec (next fs) (e.wordLoop t) ls = some d ∧
      d.control = .writeByte u ∧ u.addr = t.addr ∧ u.offset.toNat = t.offset.toNat + j := by
  by_cases hword : t.offset < t.transferSize &&& ~~~3#32
  · -- the first word fails, and the byte loop goes over the whole range
    obtain ⟨d, u, hrun, hu⟩ :=
      byteLoop_rounds fs ({ e with control := .writeWord t }.rcvRsp true) t 0#32 h
    refine ⟨.response true 0#32 :: List.replicate j (.response false 0#32), d, u, ?_, ?_, hu⟩
    · exact List.forall_mem_cons.mpr ⟨trivial, noWrite_replicate j 0#32⟩
    · rw [wordLoop, if_pos hword]
      exact exec_response rfl hrun
  · obtain ⟨d, u, hrun, hu⟩ := byteLoop_rounds fs e t 0#32 h
    rw [wordLoop, if_neg hword]
    exact ⟨_, d, u, noWrite_replicate _ _, hrun, hu⟩

theorem readFits_of_always (hw : 32 ≤ w)
    (hread : ∀ h fd n bytes h', fs.read h fd n = (some bytes, h') → bytes.length ≤ n.toNat)
    (hc : d₀.control = .waiting true) (hop : decodeOp d₀.regs.op = some .READ)
    (h : AlwaysRight w fs d₀) : ReadFits w fs d₀ := by
  have hfirst := (h.behind hc (fun _ => 0#8) (List.forall_mem_nil _) rfl).uses
  simp only [controlUses, hop, startReadUses] at hfirst
  have hlen : d₀.regs.length + 4 < 2 ^ 32 := (alloc_right_iff w d₀).mp (hfirst _ (by simp))
  refine ⟨hlen, (seek_right_iff hw d₀.regs).mp (hfirst _ (by simp)), fun bytes hbytes => ?_⟩
  by_contra hwrap
  obtain ⟨e, t, -, -, -, -, ht, hstart, -⟩ :=
    startRead_reads (Prod.ext hbytes rfl : d₀.hostRead fs = (some bytes, (d₀.hostRead fs).2))
      fun _ => 0#8
  have hle : bytes.length ≤ d₀.regs.length := by
    rw [← toNat_transferSize (d := d₀) (Nat.lt_of_add_right_lt hlen)]
    exact hread _ _ _ _ _ (Prod.ext hbytes rfl)
  have hoff : t.offset.toNat = 0 := by
    rw [ht]
    rfl
  have hts : t.transferSize.toNat = bytes.length := by
    rw [ht]
    exact Nat.mod_eq_of_lt (by omega)
  have haddr : t.addr = d₀.regs.buffer := by rw [ht]
  have hlast : t.offset.toNat + (bytes.length - 1) < t.transferSize.toNat := by omega
  obtain ⟨ls, d, u, hls, hrun, hu, huaddr, huoff⟩ := wordLoop_reaches fs e hlast
  have hcontrol : d₀.runControl fs (fun _ => 0#8) = e.wordLoop t := by
    simp only [runControl, hop, hstart]
  rw [← hcontrol] at hrun
  obtain ⟨us, hus, -⟩ := exec_traced (fun d l => d.uses fs l) hrun (d₀.controlUses fs fun _ => 0#8)
  refine not_right_of_wrap (a := ⟨u.addr + u.offset, 1, true, fun i => u.dataBuff (u.offset.toNat + i)⟩)
    (i := bytes.length - 1) ?_ ?_ ?_ ?_ (h.behind hc _ hls hus)
  · rw [hu]
    rfl
  · rw [BitVec.toNat_add, huaddr, haddr, huoff, hoff, Nat.zero_add]
  · omega
  · omega

theorem writeFits_of_always (hw : 32 ≤ w) (hc : d₀.control = .waiting true)
    (hop : decodeOp d₀.regs.op = some .WRITE) (h : AlwaysRight w fs d₀) : WriteFits w d₀ := by
  have hfirst := (h.behind hc (fun _ => 0#8) (List.forall_mem_nil _) rfl).uses
  simp only [controlUses, hop, startWriteUses] at hfirst
  have hlen : d₀.regs.length + 4 < 2 ^ 32 := (alloc_right_iff w d₀).mp (hfirst _ (by simp))
  have hsize : d₀.transferSize.toNat = d₀.regs.length :=
    toNat_transferSize (Nat.lt_of_add_right_lt hlen)
  by_cases hzero : d₀.regs.length = 0
  · refine ⟨hlen, ?_, fun hpos => absurd hzero (by omega)⟩
    by_cases hret : d₀.funcRet = 0#32
    · exact .inr ⟨hzero, hret⟩
    · have hlt : ¬ (0#32 : ULong) < d₀.transferSize := by
        rw [BitVec.lt_def, hsize, hzero]
        decide
      rw [(@readLoop_ends η fs d₀ _ hlt).2, writeDoneUses, if_neg hret] at hfirst
      exact .inl ((seek_right_iff hw d₀.regs).mp (hfirst _ (by simp)))
  · -- the last word is reached, and a response to it ends the loop
    obtain ⟨d, u, hrun, hu, huaddr, huoff, husize, hlater⟩ := readLoop_rounds fs d₀.busy
      ⟨d₀.regs.buffer, 0#32, d₀.transferSize, fun _ => 0#8⟩ 0#32
      (j := (d₀.regs.length - 1) / 4) (by simp only [BitVec.toNat_ofNat, hsize]; omega)
    simp only [BitVec.toNat_ofNat, Nat.zero_mod, Nat.zero_add] at huaddr huoff husize
    have hcontrol : d₀.runControl fs (fun _ => 0#8) =
        d₀.busy.readLoop fs false ⟨d₀.regs.buffer, 0#32, d₀.transferSize, fun _ => 0#8⟩ := by
      simp only [runControl, hop, startWrite_eq]
    rw [← hcontrol] at hrun
    obtain ⟨us, hus, -⟩ := exec_traced (fun d l => d.uses fs l) hrun (d₀.controlUses fs fun _ => 0#8)
    refine ⟨hlen, .inl ?_, fun _ => ?_⟩
    · obtain ⟨hreply, huses⟩ := @reply_last_word η fs _ _ hu (by omega)
        (by rw [husize, hsize]; omega) 0#32
      have hls : ∀ l ∈ List.replicate ((d₀.regs.length - 1) / 4) (Label.response false 0#32) ++
          [.response false 0#32], Label.NoWrite l :=
        List.forall_mem_append.mpr ⟨noWrite_replicate _ _, List.forall_mem_singleton.mpr trivial⟩
      have hright := (h.behind hc _ hls ((exec_append hus [.response false 0#32]).trans
          (exec_cons (nextUsed_response hreply _) []))).uses (.seek (d.regs.lba * d.regs.blockSize))
            (List.mem_append_right _ (by rw [huses, writeDoneUses]; simp [rcvRsp]))
      rw [hlater.regs] at hright
      exact (seek_right_iff hw d₀.regs).mp hright
    · by_contra hwrap
      refine not_right_of_wrap (a := ⟨u.addr + u.offset, 4, false, fun _ => 0#8⟩)
        (i := (d₀.regs.length - 1) / 4 * 4) ?_ ?_ ?_ ?_ (h.behind hc _ (noWrite_replicate _ _) hus)
      · rw [hu]
        rfl
      · rw [BitVec.toNat_add, huaddr, huoff, Nat.mul_comm]
      · omega
      · omega

/-- **The exact condition**: for every value of LBA, COUNT, BUFFER and the block size, an `off_t` of
    at least 32 bits and a host that reads at most what it is asked for, a READ or a WRITE accesses
    the right ranges of the file, the buffer and the memory, whatever the bus answers, exactly if
    none of its sums and products wraps. -/
theorem ranges_iff {w : Nat} (hw : 32 ≤ w) {fs : HostFs η}
    (hread : ∀ h fd n bytes h', fs.read h fd n = (some bytes, h') → bytes.length ≤ n.toNat)
    {d₀ : BlockDevice η} (hc : d₀.control = .waiting true)
    (hop : decodeOp d₀.regs.op = some .READ ∨ decodeOp d₀.regs.op = some .WRITE) :
    AlwaysRight w fs d₀ ↔ Fits w fs d₀ := by
  constructor
  · intro h
    rw [Fits]
    rcases hop with hop | hop
    · rw [if_pos hop]
      exact readFits_of_always hw hread hc hop h
    · rw [if_neg (by simp [hop])]
      exact writeFits_of_always hw hc hop h
  · intro hfits fresh ls s hls hrun
    rw [exec_cons (nextUsed_control hc fresh)] at hrun
    exact (exec_invariant_of (I := OpInv w d₀) (A := Label.NoWrite)
      (fun _ _ _ hi hl hn => opInv_next hw hfits hi hl hn) hls
      (opInv_control hw hread hop hfits fresh) hrun).right

/-- The host with one file reads at most what it is asked for. -/
theorem hostFile_read_le : ∀ h fd n bytes h', hostFile.read h fd n = (some bytes, h') →
    bytes.length ≤ n.toNat := by
  intro h fd n bytes h' hread
  have hbytes : (h.content.drop h.pos).take n.toNat = bytes := Option.some.inj (congrArg Prod.fst hread)
  rw [← hbytes, List.length_take]
  exact Nat.min_le_left _ _

/-- A device with blocks of 1024 bytes before an operation. -/
def ordered (op : SlBlockOp) (lba count buffer : ULong) : BlockDevice HostFile :=
  let d := new hostFile ⟨[], 0⟩ (some fun _ => 0#8) 1024#32 0#32
  { d with regs := { d.regs with op := op.code, lba, count, buffer } }

theorem ordered_write_right : AlwaysRight 64 hostFile (ordered .WRITE 7#32 2#32 0x1000#32) :=
  (ranges_iff (by decide) hostFile_read_le rfl (.inr rfl)).mpr
    ⟨by decide, .inl ⟨by decide, by decide⟩, fun _ => by decide⟩

/-- A READ of 2^22 blocks: 2^32 bytes, for which four are allocated and none is read. -/
theorem ordered_read_wraps : ¬ AlwaysRight 64 hostFile (ordered .READ 0#32 0x400000#32 0x1000#32) := by
  intro h
  have hfits := readFits_of_always (by decide) hostFile_read_le rfl rfl h
  exact absurd hfits.length (by decide)

end BlockDevice

end Rabbits
