/-
  File:      Rabbits/Cpu/Halves.lean
  Subject:   The 64-bit counters that a guest reads in two halves (qemu_cpu_wrapper.cpp:
             systemc_qemu_read_memory, get_cpu_ncycles, get_no_cycles; cpu_logs.cpp:
             get_cpu_ncycles).

  The first of two reads takes the counter and keeps what the second one returns, in a field with a
  value that means "nothing kept". The time and the cycles of `m_no_total_cycles` are kept by the
  CPU that reads, the cycles from the table of times by `cpu_logs`, for all CPUs together.

  * `CounterReads` -- the fields, and the first half that each guest has;
  * `CounterReads.access` -- a read, up to its suspension or its result, and the rest of it;
  * `PairRight` -- both halves are those of the counter at the first read;
  * `HalvesInv` -- what is kept is the other half of what the guests have;
  * `pairs_right` -- **which reads return the halves of one counter**.
-/
import Rabbits.Lib.Labelled
import Rabbits.Noc.Vci

namespace Rabbits

open Lib

/-! ## 1. The model -/

/-- The registers of 64-bit counters. -/
inductive CounterReg (ncpu : Nat) where
  | timeLow
  | timeHigh
  | allNoCycles
  | noCyclesCpu (cpu : Fin ncpu)
  | cpuNcycles (cpu : Fin ncpu)
deriving DecidableEq

/-- `x & 0xFFFFFFFF` and `x >> 32`. -/
def lowHalf (x : BitVec 64) : ULong := x.setWidth 32

def highHalf (x : BitVec 64) : ULong := (x >>> 32).setWidth 32

variable {ncpu : Nat}

namespace CounterReg

def isTime : CounterReg ncpu → Bool
  | .timeLow | .timeHigh => true
  | _ => false

/-- The registers kept in `m_last_no_cycles_high`. -/
def isNoCycles : CounterReg ncpu → Bool
  | .allNoCycles | .noCyclesCpu _ => true
  | _ => false

/-- The register of the second read. -/
def partner : CounterReg ncpu → CounterReg ncpu
  | .timeLow => .timeHigh
  | .timeHigh => .timeLow
  | reg => reg

/-- The half that the first read of a register returns, and the one for the second read. -/
def firstPart (reg : CounterReg ncpu) (x : BitVec 64) : ULong :=
  if reg = .timeHigh then highHalf x else lowHalf x

def secondPart (reg : CounterReg ncpu) (x : BitVec 64) : ULong :=
  if reg = .timeHigh then lowHalf x else highHalf x

/-- The counter, in nanoseconds where it is the time. -/
def counter (reg : CounterReg ncpu) (x : BitVec 64) : BitVec 64 :=
  if reg.isTime then x / 1000#64 else x

end CounterReg

/-- What a guest has from the first of two reads: the result, and the counter at that time. -/
structure HalfRead (ncpu : Nat) where
  reg : CounterReg ncpu
  val : ULong
  snapshot : BitVec 64

/-- A CPU: the two fields that keep something, the read in which its thread waits, and the half that
    its guest has. -/
structure Reader (ncpu : Nat) where
  lastReadSctime : BitVec 64
  lastNoCyclesHigh : ULong
  waiting : Option (CounterReg ncpu)
  firstHalf : Option (HalfRead ncpu)

structure CounterReads (ncpu : Nat) where
  cpu : Fin ncpu → Reader ncpu
  hwordNcycles : Fin ncpu → ULong

/-- A CPU begins to read, or its suspended read goes on; `x` is the time in picoseconds, or the
    cycles. -/
inductive ReadStep (ncpu : Nat) where
  | call (c : Fin ncpu) (reg : CounterReg ncpu) (x : BitVec 64)
  | resume (c : Fin ncpu) (x : BitVec 64)

/-- A result. -/
structure ReadReply (ncpu : Nat) where
  cpu : Fin ncpu
  reg : CounterReg ncpu
  val : ULong
  snapshot : BitVec 64

namespace Reader

def new : Reader ncpu := ⟨-1, -1, none, none⟩

/-- The guest reads the second half of a counter before it reads another one. -/
def mayRead (x : Reader ncpu) (reg : CounterReg ncpu) : Bool :=
  x.waiting.isNone && x.firstHalf.all fun h => decide (reg = h.reg.partner)

/-- `GET_SYSTEMC_TIME_LOW` and `GET_SYSTEMC_TIME_HIGH`. -/
def readTime (x : Reader ncpu) (half : BitVec 64 → ULong) (ps : BitVec 64) : ULong × Reader ncpu :=
  if x.lastReadSctime = -1 then
    (half (ps / 1000#64), { x with lastReadSctime := ps / 1000#64 })
  else (half x.lastReadSctime, { x with lastReadSctime := -1 })

/-- The guest gets a result. -/
def book (x : Reader ncpu) (h : HalfRead ncpu) : Reader ncpu :=
  { x with
    waiting := none
    firstHalf := if x.firstHalf.isSome then none else some h }

end Reader

namespace CounterReads

def new : CounterReads ncpu := ⟨fun _ => .new, fun _ => -1⟩

def setCpu (s : CounterReads ncpu) (c : Fin ncpu) (x : Reader ncpu) : CounterReads ncpu :=
  { s with cpu := Function.update s.cpu c x }

/-- `cpu_logs::get_cpu_ncycles`. -/
def getCpuNcycles (s : CounterReads ncpu) (cpu : Fin ncpu) (sum : BitVec 64) :
    ULong × CounterReads ncpu :=
  if s.hwordNcycles cpu = -1 then
    (lowHalf sum, { s with hwordNcycles := Function.update s.hwordNcycles cpu (highHalf sum) })
  else
    (s.hwordNcycles cpu, { s with hwordNcycles := Function.update s.hwordNcycles cpu (-1) })

/-- `systemc_qemu_read_memory` from its beginning: `none` is a thread that is suspended. -/
def readMemory (s : CounterReads ncpu) (c : Fin ncpu) (reg : CounterReg ncpu) (x : BitVec 64) :
    Option ULong × CounterReads ncpu :=
  match reg with
  | .timeLow =>
      let (val, r) := (s.cpu c).readTime lowHalf x
      (some val, s.setCpu c r)
  | .timeHigh =>
      let (val, r) := (s.cpu c).readTime highHalf x
      (some val, s.setCpu c r)
  | .cpuNcycles _ => (none, s.setCpu c { s.cpu c with waiting := some reg })
  | _ =>
      if (s.cpu c).lastNoCyclesHigh = -1 then
        (none, s.setCpu c { s.cpu c with waiting := some reg })
      else
        (some (s.cpu c).lastNoCyclesHigh, s.setCpu c { s.cpu c with lastNoCyclesHigh := -1 })

/-- The rest of it, behind the wait in `get_cpu_ncycles` or `get_no_cycles`. -/
def resumeRead (s : CounterReads ncpu) (c : Fin ncpu) (reg : CounterReg ncpu) (x : BitVec 64) :
    ULong × CounterReads ncpu :=
  match reg with
  | .cpuNcycles cpu => s.getCpuNcycles cpu x
  | _ => (lowHalf x, s.setCpu c { s.cpu c with lastNoCyclesHigh := highHalf x })

/-- What a step computes, and its result if the read is complete. -/
def access (s : CounterReads ncpu) :
    ReadStep ncpu → Option (Option (ReadReply ncpu) × CounterReads ncpu)
  | .call c reg x =>
      if (s.cpu c).mayRead reg then
        let (val, t) := s.readMemory c reg x
        some (val.map fun val => ⟨c, reg, val, reg.counter x⟩, t)
      else none
  | .resume c x => (s.cpu c).waiting.map fun reg =>
      let (val, t) := s.resumeRead c reg x
      (some ⟨c, reg, val, x⟩, t)

/-- The guest keeps the result of the first read. -/
def book (s : CounterReads ncpu) : Option (ReadReply ncpu) → CounterReads ncpu
  | none => s
  | some r => s.setCpu r.cpu ((s.cpu r.cpu).book ⟨r.reg, r.val, r.snapshot⟩)

def next (s : CounterReads ncpu) (l : ReadStep ncpu) : Option (CounterReads ncpu) :=
  (s.access l).map fun a => a.2.book a.1

end CounterReads

/-! ## 2. What is asked of two reads -/

/-- The result of a second read, and that of the first one, are the halves of the counter at the
    time of the first one. -/
def PairRight (s : CounterReads ncpu) (l : ReadStep ncpu) : Prop :=
  ∀ r t, s.access l = some (some r, t) → ∀ h ∈ (s.cpu r.cpu).firstHalf,
    h.val = h.reg.firstPart h.snapshot ∧ r.val = h.reg.secondPart h.snapshot

/-- No other guest is between its two reads of the same register of `cpu_logs`, and a high half that
    is kept is not the value for nothing kept. -/
def UndisturbedRead (s : CounterReads ncpu) : ReadStep ncpu → Prop
  | .call _ _ _ => True
  | .resume c x =>
      ((s.cpu c).firstHalf = none → highHalf x ≠ -1) ∧
        ∀ cpu, (s.cpu c).waiting = some (.cpuNcycles cpu) →
          ∀ c', c' ≠ c → ∀ h ∈ (s.cpu c').firstHalf, h.reg ≠ .cpuNcycles cpu

instance (s : CounterReads ncpu) (l : ReadStep ncpu) : Decidable (UndisturbedRead s l) := by
  cases l <;> unfold UndisturbedRead <;> infer_instance

/-! ## 3. What a CPU keeps for its guest -/

namespace Reader

/-- What `m_last_read_sctime` holds. -/
def keptTime (x : Reader ncpu) : BitVec 64 :=
  match x.firstHalf with
  | some h => if h.reg.isTime then h.snapshot else -1
  | none => -1

/-- What `m_last_no_cycles_high` holds. -/
def keptNoCycles (x : Reader ncpu) : ULong :=
  match x.firstHalf with
  | some h => if h.reg.isNoCycles then highHalf h.snapshot else -1
  | none => -1

/-- What `m_hword_ncycles` holds for the guest. -/
def keptNcycles (x : Reader ncpu) : Option (Fin ncpu × ULong) :=
  match x.firstHalf with
  | some ⟨.cpuNcycles cpu, _, snapshot⟩ => some (cpu, highHalf snapshot)
  | _ => none

theorem keptNcycles_none {x : Reader ncpu} (hf : x.firstHalf = none) : x.keptNcycles = none := by
  rw [keptNcycles, hf]

theorem keptNcycles_other {x : Reader ncpu} {h : HalfRead ncpu} (hf : x.firstHalf = some h)
    (hr : ∀ cpu, h.reg ≠ .cpuNcycles cpu) : x.keptNcycles = none := by
  unfold keptNcycles
  split
  · next cpu val snapshot hf' =>
      cases hf.symm.trans hf'
      exact absurd rfl (hr cpu)
  · rfl

theorem keptNcycles_eq_some {x : Reader ncpu} {h : HalfRead ncpu} {cpu : Fin ncpu}
    (hf : x.firstHalf = some h) (hr : h.reg = .cpuNcycles cpu) :
    x.keptNcycles = some (cpu, highHalf h.snapshot) := by
  obtain ⟨reg, val, snapshot⟩ := h
  cases hr
  rw [keptNcycles, hf]

theorem firstHalf_book_first {x : Reader ncpu} (hf : x.firstHalf = none) (h : HalfRead ncpu) :
    (x.book h).firstHalf = some h := by
  simp [book, hf]

theorem firstHalf_book_second {x : Reader ncpu} {h : HalfRead ncpu} (hf : x.firstHalf = some h)
    (h' : HalfRead ncpu) : (x.book h').firstHalf = none := by
  simp [book, hf]

end Reader

namespace CounterReg

variable {reg : CounterReg ncpu}

theorem isNoCycles_of_isTime (h : reg.isTime = true) : reg.isNoCycles = false := by
  cases reg <;> first | rfl | cases h

theorem isTime_of_isNoCycles (h : reg.isNoCycles = true) : reg.isTime = false := by
  cases reg <;> first | rfl | cases h

theorem firstPart_of_cycles (h : reg.isTime = false) (x : BitVec 64) : reg.firstPart x = lowHalf x := by
  cases reg <;> first | rfl | cases h

theorem secondPart_of_cycles (h : reg.isTime = false) (x : BitVec 64) :
    reg.secondPart x = highHalf x := by
  cases reg <;> first | rfl | cases h

theorem ne_cpuNcycles (h : reg.isTime = true ∨ reg.isNoCycles = true) (cpu : Fin ncpu) :
    reg ≠ .cpuNcycles cpu := by
  intro hr
  subst hr
  exact h.elim (fun h => by cases h) fun h => by cases h

end CounterReg

/-- A half, and what is kept with it. -/
structure HalfRight (h : HalfRead ncpu) : Prop where
  val : h.val = h.reg.firstPart h.snapshot
  kept : if h.reg.isTime then h.snapshot ≠ -1 else highHalf h.snapshot ≠ -1

structure ReaderInv (x : Reader ncpu) : Prop where
  time : x.lastReadSctime = x.keptTime
  noCycles : x.lastNoCyclesHigh = x.keptNoCycles
  first : ∀ h ∈ x.firstHalf, HalfRight h
  waiting : ∀ reg ∈ x.waiting, reg.isTime = false ∧ (∀ h ∈ x.firstHalf, reg = h.reg.partner) ∧
    (reg.isNoCycles = true → x.firstHalf = none)

/-- A time in nanoseconds is not the value for nothing kept. -/
theorem nanoseconds_ne (ps : BitVec 64) : ps / 1000#64 ≠ -1 := by
  intro h
  have hval := congrArg BitVec.toNat h
  have hone : (1000#64).toNat = 1000 := rfl
  have hmax : (-1 : BitVec 64).toNat = 2 ^ 64 - 1 := rfl
  rw [BitVec.toNat_udiv, hone, hmax] at hval
  omega

namespace ReaderInv

/-- Nothing is kept but what the guest has the first half of. -/
theorem time_eq {x : Reader ncpu} (hx : ReaderInv x) (h : ∀ h ∈ x.firstHalf, h.reg.isTime = false) :
    x.lastReadSctime = -1 := by
  rw [hx.time, Reader.keptTime]
  cases hf : x.firstHalf with
  | none => rfl
  | some h' => exact if_neg (by simp [h h' hf])

theorem noCycles_eq {x : Reader ncpu} (hx : ReaderInv x)
    (h : ∀ h ∈ x.firstHalf, h.reg.isNoCycles = false) : x.lastNoCyclesHigh = -1 := by
  rw [hx.noCycles, Reader.keptNoCycles]
  cases hf : x.firstHalf with
  | none => rfl
  | some h' => exact if_neg (by simp [h h' hf])

theorem high_ne {x : Reader ncpu} (hx : ReaderInv x) {h : HalfRead ncpu} (hf : x.firstHalf = some h)
    (ht : h.reg.isTime = false) : highHalf h.snapshot ≠ -1 := by
  have hk := (hx.first h hf).kept
  rwa [if_neg (by simp [ht])] at hk

theorem new : ReaderInv (.new : Reader ncpu) :=
  ⟨rfl, rfl, fun _ h => (by cases h), fun _ h => by cases h⟩

/-- The second read of the time returns the other half. -/
theorem readTime_second {x : Reader ncpu} (hx : ReaderInv x) {h : HalfRead ncpu}
    (hf : x.firstHalf = some h) (ht : h.reg.isTime = true) (half : BitVec 64 → ULong)
    (ps : BitVec 64) :
    x.readTime half ps = (half h.snapshot, { x with lastReadSctime := -1 }) := by
  have hkept : x.lastReadSctime = h.snapshot := by
    rw [hx.time, Reader.keptTime, hf]
    exact if_pos ht
  have hne : h.snapshot ≠ -1 := by
    have h := (hx.first h hf).kept
    rwa [if_pos ht] at h
  rw [Reader.readTime, hkept, if_neg hne]

theorem readTime_first {x : Reader ncpu} (hx : ReaderInv x) (hf : x.firstHalf = none)
    (half : BitVec 64 → ULong) (ps : BitVec 64) :
    x.readTime half ps = (half (ps / 1000#64), { x with lastReadSctime := ps / 1000#64 }) := by
  have hkept : x.lastReadSctime = -1 := by rw [hx.time, Reader.keptTime, hf]
  rw [Reader.readTime, if_pos hkept]

/-- A CPU whose guest has no half. -/
theorem of_none {x : Reader ncpu} (ht : x.lastReadSctime = -1) (hn : x.lastNoCyclesHigh = -1)
    (hw : x.waiting = none) (hf : x.firstHalf = none) : ReaderInv x := by
  refine ⟨?_, ?_, fun h hh => ?_, fun reg hreg => ?_⟩
  · rw [ht, Reader.keptTime, hf]
  · rw [hn, Reader.keptNoCycles, hf]
  · rw [hf] at hh
    cases hh
  · rw [hw] at hreg
    cases hreg

/-- A CPU that has just given a first half. -/
theorem of_some {x : Reader ncpu} {h : HalfRead ncpu} (hh : HalfRight h)
    (ht : x.lastReadSctime = if h.reg.isTime then h.snapshot else -1)
    (hn : x.lastNoCyclesHigh = if h.reg.isNoCycles then highHalf h.snapshot else -1)
    (hw : x.waiting = none) (hf : x.firstHalf = some h) : ReaderInv x := by
  refine ⟨?_, ?_, fun h' hh' => ?_, fun reg hreg => ?_⟩
  · rw [ht, Reader.keptTime, hf]
  · rw [hn, Reader.keptNoCycles, hf]
  · rw [hf] at hh'
    cases hh'
    exact hh
  · rw [hw] at hreg
    cases hreg

/-- A thread that is suspended in a read. -/
theorem wait {x : Reader ncpu} (hx : ReaderInv x) {reg : CounterReg ncpu} (hreg : reg.isTime = false)
    (hpartner : ∀ h ∈ x.firstHalf, reg = h.reg.partner)
    (hn : reg.isNoCycles = true → x.firstHalf = none) : ReaderInv { x with waiting := some reg } := by
  refine ⟨hx.time, hx.noCycles, hx.first, fun r hr => ?_⟩
  cases hr
  exact ⟨hreg, hpartner, hn⟩

end ReaderInv

/-! ## 4. All CPUs -/

/-- What is kept, by the CPUs and for all of them together. -/
structure HalvesInv (s : CounterReads ncpu) : Prop where
  reader : ∀ c, ReaderInv (s.cpu c)
  held : ∀ c cpu v, (s.cpu c).keptNcycles = some (cpu, v) → s.hwordNcycles cpu = v
  free : ∀ cpu, (∀ c v, (s.cpu c).keptNcycles ≠ some (cpu, v)) → s.hwordNcycles cpu = -1

namespace CounterReads

@[simp] theorem cpu_setCpu_self (s : CounterReads ncpu) (c : Fin ncpu) (x : Reader ncpu) :
    (s.setCpu c x).cpu c = x := Function.update_self _ _ _

theorem cpu_setCpu_of_ne {s : CounterReads ncpu} {c c' : Fin ncpu} {x : Reader ncpu} (h : c' ≠ c) :
    (s.setCpu c x).cpu c' = s.cpu c' := Function.update_of_ne h _ _

@[simp] theorem setCpu_setCpu (s : CounterReads ncpu) (c : Fin ncpu) (x y : Reader ncpu) :
    (s.setCpu c x).setCpu c y = s.setCpu c y := by
  simp [setCpu]

end CounterReads

theorem HalvesInv.new : HalvesInv (.new : CounterReads ncpu) :=
  ⟨fun _ => .new, fun _ _ _ h => (by cases h), fun _ _ => rfl⟩

/-- A step of one CPU that leaves `cpu_logs` alone. -/
theorem HalvesInv.setCpu {s : CounterReads ncpu} (h : HalvesInv s) {c : Fin ncpu} {x : Reader ncpu}
    (hx : ReaderInv x) (hkept : x.keptNcycles = (s.cpu c).keptNcycles) :
    HalvesInv (s.setCpu c x) := by
  have hall : ∀ c', ((s.setCpu c x).cpu c').keptNcycles = (s.cpu c').keptNcycles := by
    intro c'
    by_cases hc : c' = c
    · subst hc
      rw [CounterReads.cpu_setCpu_self, hkept]
    · rw [CounterReads.cpu_setCpu_of_ne hc]
  refine ⟨fun c' => ?_, fun c' cpu v hv => ?_, fun cpu hfree => ?_⟩
  · by_cases hc : c' = c
    · subst hc
      rw [CounterReads.cpu_setCpu_self]
      exact hx
    · rw [CounterReads.cpu_setCpu_of_ne hc]
      exact h.reader c'
  · rw [hall] at hv
    exact h.held c' cpu v hv
  · exact h.free cpu fun c' v => hall c' ▸ hfree c' v

/-- A step of one CPU on a field of `cpu_logs` that nobody else has a half of. -/
theorem HalvesInv.setNcycles {s : CounterReads ncpu} (h : HalvesInv s) {c cpu : Fin ncpu}
    {x : Reader ncpu} {v : ULong} (hx : ReaderInv x)
    (hothers : ∀ c', c' ≠ c → ∀ v', (s.cpu c').keptNcycles ≠ some (cpu, v'))
    (hold : ∀ cpu' v', (s.cpu c).keptNcycles = some (cpu', v') → cpu' = cpu)
    (hnew : x.keptNcycles = none ∧ v = -1 ∨ x.keptNcycles = some (cpu, v)) :
    HalvesInv ({ s with hwordNcycles := Function.update s.hwordNcycles cpu v }.setCpu c x) := by
  have hself : (({ s with hwordNcycles := Function.update s.hwordNcycles cpu v } :
      CounterReads ncpu).setCpu c x).cpu c = x := CounterReads.cpu_setCpu_self _ c x
  have hne : ∀ c', c' ≠ c → (({ s with hwordNcycles := Function.update s.hwordNcycles cpu v } :
      CounterReads ncpu).setCpu c x).cpu c' = s.cpu c' := fun c' hc => CounterReads.cpu_setCpu_of_ne hc
  refine ⟨fun c' => ?_, fun c' cpu' v' hv => ?_, fun cpu' hfree => ?_⟩
  · by_cases hc : c' = c
    · rw [hc, hself]
      exact hx
    · rw [hne c' hc]
      exact h.reader c'
  · show Function.update s.hwordNcycles cpu v cpu' = v'
    by_cases hc : c' = c
    · rw [hc, hself] at hv
      rcases hnew with ⟨hnone, -⟩ | hsome
      · rw [hnone] at hv
        cases hv
      · rw [hsome] at hv
        cases hv
        exact Function.update_self _ _ _
    · rw [hne c' hc] at hv
      have hcpu : cpu' ≠ cpu := fun heq => hothers c' hc v' (heq ▸ hv)
      rw [Function.update_of_ne hcpu]
      exact h.held c' cpu' v' hv
  · show Function.update s.hwordNcycles cpu v cpu' = -1
    by_cases hcpu : cpu' = cpu
    · subst hcpu
      rw [Function.update_self]
      rcases hnew with ⟨-, hv⟩ | hsome
      · exact hv
      · exact absurd hsome (hself ▸ hfree c v)
    · rw [Function.update_of_ne hcpu]
      refine h.free cpu' fun c' v' hv => ?_
      by_cases hc : c' = c
      · exact hcpu (hold cpu' v' (hc ▸ hv))
      · exact hfree c' v' (hne c' hc ▸ hv)

/-! ## 5. The reads -/

namespace CounterReads

theorem mayRead_iff {x : Reader ncpu} {reg : CounterReg ncpu} :
    x.mayRead reg = true ↔ x.waiting = none ∧ ∀ h ∈ x.firstHalf, reg = h.reg.partner := by
  cases hf : x.firstHalf <;> simp [Reader.mayRead, hf]

/-- What is asked of a step: what is kept stays right, and a second half is the right one. -/
def StepRight (s : CounterReads ncpu) (r : Option (ReadReply ncpu)) (t : CounterReads ncpu) : Prop :=
  HalvesInv (t.book r) ∧
    ∀ r' ∈ r, ∀ h ∈ (s.cpu r'.cpu).firstHalf,
      h.val = h.reg.firstPart h.snapshot ∧ r'.val = h.reg.secondPart h.snapshot

/-- A guest gets a first half, and `cpu_logs` is left alone. -/
theorem stepRight_first {s : CounterReads ncpu} (hs : HalvesInv s) {c : Fin ncpu} {x : Reader ncpu}
    {reg : CounterReg ncpu} {val : ULong} {snapshot : BitVec 64} (hf : (s.cpu c).firstHalf = none)
    (hxf : x.firstHalf = none) (hr : ∀ cpu, reg ≠ .cpuNcycles cpu)
    (hx : ReaderInv (x.book ⟨reg, val, snapshot⟩)) :
    StepRight s (some ⟨c, reg, val, snapshot⟩) (s.setCpu c x) := by
  unfold StepRight
  rw [book, cpu_setCpu_self, setCpu_setCpu]
  refine ⟨hs.setCpu hx ?_, fun r hr h hh => ?_⟩
  · rw [Reader.keptNcycles_other (Reader.firstHalf_book_first hxf _) hr, Reader.keptNcycles_none hf]
  · cases hr
    rw [hf] at hh
    cases hh

/-- A guest gets a second half, and `cpu_logs` is left alone. -/
theorem stepRight_second {s : CounterReads ncpu} (hs : HalvesInv s) {c : Fin ncpu} {x : Reader ncpu}
    {h : HalfRead ncpu} {reg : CounterReg ncpu} {val : ULong} {snapshot : BitVec 64}
    (hf : (s.cpu c).firstHalf = some h) (hxf : x.firstHalf = some h)
    (hr : ∀ cpu, h.reg ≠ .cpuNcycles cpu) (hx : ReaderInv (x.book ⟨reg, val, snapshot⟩))
    (hval : val = h.reg.secondPart h.snapshot) :
    StepRight s (some ⟨c, reg, val, snapshot⟩) (s.setCpu c x) := by
  unfold StepRight
  rw [book, cpu_setCpu_self, setCpu_setCpu]
  refine ⟨hs.setCpu hx ?_, fun r hr h' hh => ?_⟩
  · rw [Reader.keptNcycles_none (Reader.firstHalf_book_second hxf _), Reader.keptNcycles_other hf hr]
  · cases hr
    cases hf.symm.trans hh
    exact ⟨((hs.reader c).first h hf).val, hval⟩

theorem isTime_partner {reg : CounterReg ncpu} : reg.partner.isTime = reg.isTime := by
  cases reg <;> rfl

theorem firstPart_partner {reg : CounterReg ncpu} (h : reg.isTime = true) :
    reg.partner.firstPart = reg.secondPart := by
  cases reg <;> first | rfl | cases h

/-- **A read of the time.** -/
theorem stepRight_time {s : CounterReads ncpu} (hs : HalvesInv s) {c : Fin ncpu}
    {reg : CounterReg ncpu} (hmay : (s.cpu c).mayRead reg = true) (ht : reg.isTime = true)
    {half : BitVec 64 → ULong} (hhalf : half = reg.firstPart) (ps : BitVec 64) :
    StepRight s (some ⟨c, reg, ((s.cpu c).readTime half ps).1, reg.counter ps⟩)
      (s.setCpu c ((s.cpu c).readTime half ps).2) := by
  have hx := hs.reader c
  have hpartner := (mayRead_iff.mp hmay).2
  cases hf : (s.cpu c).firstHalf with
  | none =>
      -- the time is taken, and kept
      have hcounter : reg.counter ps = ps / 1000#64 := if_pos ht
      have hno : (s.cpu c).lastNoCyclesHigh = -1 := hx.noCycles_eq (by simp [hf])
      rw [hx.readTime_first hf]
      refine stepRight_first hs hf hf (CounterReg.ne_cpuNcycles (.inl ht)) ?_
      refine .of_some (h := ⟨reg, half (ps / 1000#64), reg.counter ps⟩) ⟨?_, ?_⟩ ?_ ?_ rfl
        (Reader.firstHalf_book_first hf _)
      · rw [hhalf, hcounter]
      · rw [if_pos ht, hcounter]
        exact nanoseconds_ne ps
      · rw [if_pos ht, hcounter]
        rfl
      · rw [CounterReg.isNoCycles_of_isTime ht]
        exact hno
  | some h =>
      -- the time that is kept is returned
      have hreg : reg = h.reg.partner := hpartner h hf
      have hht : h.reg.isTime = true := by rwa [hreg, isTime_partner] at ht
      have hno : (s.cpu c).lastNoCyclesHigh = -1 := hx.noCycles_eq fun h' hh => by
        cases hf.symm.trans hh
        exact CounterReg.isNoCycles_of_isTime hht
      rw [hx.readTime_second hf hht]
      refine stepRight_second hs hf hf (CounterReg.ne_cpuNcycles (.inl hht))
        (.of_none rfl hno rfl (Reader.firstHalf_book_second hf _)) ?_
      rw [hhalf, hreg, firstPart_partner hht]

/-- A thread is suspended in its read. -/
theorem stepRight_wait {s : CounterReads ncpu} (hs : HalvesInv s) {c : Fin ncpu}
    {reg : CounterReg ncpu} (hmay : (s.cpu c).mayRead reg = true) (ht : reg.isTime = false)
    (hn : reg.isNoCycles = true → (s.cpu c).firstHalf = none) :
    StepRight s none (s.setCpu c { s.cpu c with waiting := some reg }) :=
  ⟨hs.setCpu ((hs.reader c).wait ht (mayRead_iff.mp hmay).2 hn) rfl, fun _ hr => by cases hr⟩

theorem isNoCycles_partner {reg reg' : CounterReg ncpu} (h : reg = reg'.partner)
    (hn : reg.isNoCycles = true) : reg' = reg := by
  cases reg' <;> simp_all [CounterReg.partner, CounterReg.isNoCycles]

/-- **A read of `m_last_no_cycles_high`.** -/
theorem stepRight_noCycles {s : CounterReads ncpu} (hs : HalvesInv s) {c : Fin ncpu}
    {reg : CounterReg ncpu} (hmay : (s.cpu c).mayRead reg = true) (hn : reg.isNoCycles = true)
    (x : BitVec 64) :
    StepRight s ((s.readMemory c reg x).1.map fun val => ⟨c, reg, val, reg.counter x⟩)
      (s.readMemory c reg x).2 := by
  have hx := hs.reader c
  obtain ⟨hw, hpartner⟩ := mayRead_iff.mp hmay
  have ht : reg.isTime = false := CounterReg.isTime_of_isNoCycles hn
  have hread : s.readMemory c reg x =
      if (s.cpu c).lastNoCyclesHigh = -1 then
        (none, s.setCpu c { s.cpu c with waiting := some reg })
      else
        (some (s.cpu c).lastNoCyclesHigh, s.setCpu c { s.cpu c with lastNoCyclesHigh := -1 }) := by
    cases reg <;> first | rfl | cases hn
  rw [hread]
  cases hf : (s.cpu c).firstHalf with
  | none =>
      rw [if_pos (hx.noCycles_eq (by simp [hf]))]
      exact stepRight_wait hs hmay ht fun _ => hf
  | some h =>
      have hreg : h.reg = reg := isNoCycles_partner (hpartner h hf) hn
      have hht : h.reg.isTime = false := hreg ▸ ht
      have hkept : (s.cpu c).lastNoCyclesHigh = highHalf h.snapshot := by
        rw [hx.noCycles, Reader.keptNoCycles, hf]
        exact if_pos (hreg ▸ hn)
      have htime : (s.cpu c).lastReadSctime = -1 := hx.time_eq fun h' hh => by
        cases hf.symm.trans hh
        exact hht
      rw [hkept, if_neg (hx.high_ne hf hht)]
      refine stepRight_second hs hf hf (CounterReg.ne_cpuNcycles (.inr (hreg ▸ hn)))
        (.of_none htime rfl rfl (Reader.firstHalf_book_second hf _)) ?_
      rw [CounterReg.secondPart_of_cycles hht]

/-- **The rest of such a read.** -/
theorem stepRight_resume {s : CounterReads ncpu} (hs : HalvesInv s) {c : Fin ncpu}
    {reg : CounterReg ncpu} (hw : (s.cpu c).waiting = some reg) (hn : reg.isNoCycles = true)
    {x : BitVec 64} (hne : (s.cpu c).firstHalf = none → highHalf x ≠ -1) :
    StepRight s (some ⟨c, reg, lowHalf x, x⟩)
      (s.setCpu c { s.cpu c with lastNoCyclesHigh := highHalf x }) := by
  have hx := hs.reader c
  obtain ⟨ht, -, hnone⟩ := hx.waiting reg hw
  have hf := hnone hn
  have htime : (s.cpu c).lastReadSctime = -1 := hx.time_eq (by simp [hf])
  refine stepRight_first hs hf hf (CounterReg.ne_cpuNcycles (.inr hn)) ?_
  refine .of_some (h := ⟨reg, lowHalf x, x⟩) ⟨?_, ?_⟩ ?_ ?_ rfl (Reader.firstHalf_book_first hf _)
  · exact (CounterReg.firstPart_of_cycles ht x).symm
  · rw [if_neg (by simp [ht])]
    exact hne hf
  · rw [if_neg (by simp [ht])]
    exact htime
  · rw [if_pos hn]
    rfl

/-- No other CPU keeps the high half of this register. -/
theorem keptNcycles_ne {s : CounterReads ncpu} {c cpu : Fin ncpu}
    (hothers : ∀ c', c' ≠ c → ∀ h ∈ (s.cpu c').firstHalf, h.reg ≠ .cpuNcycles cpu) :
    ∀ c', c' ≠ c → ∀ v, (s.cpu c').keptNcycles ≠ some (cpu, v) := by
  intro c' hc v hv
  unfold Reader.keptNcycles at hv
  split at hv
  · next cpu' val snapshot hf =>
      cases hv
      exact hothers c' hc _ hf rfl
  · cases hv

/-- The first read of a pair: the high half is free, and it is kept. -/
theorem stepRight_ncycles_first {s : CounterReads ncpu} (hs : HalvesInv s) {c cpu : Fin ncpu}
    (hf : (s.cpu c).firstHalf = none) {x : BitVec 64} (hne : highHalf x ≠ -1)
    (hkept : ∀ c', c' ≠ c → ∀ v, (s.cpu c').keptNcycles ≠ some (cpu, v)) :
    StepRight s (some ⟨c, .cpuNcycles cpu, (s.getCpuNcycles cpu x).1, x⟩)
      (s.getCpuNcycles cpu x).2 := by
  have hx := hs.reader c
  have htime : (s.cpu c).lastReadSctime = -1 := hx.time_eq (by simp [hf])
  have hno : (s.cpu c).lastNoCyclesHigh = -1 := hx.noCycles_eq (by simp [hf])
  have hown := Reader.keptNcycles_none hf
  have hword : s.hwordNcycles cpu = -1 := by
    refine hs.free cpu fun c' v hv => ?_
    by_cases hc : c' = c
    · rw [hc, hown] at hv
      cases hv
    · exact hkept c' hc v hv
  have hbook := Reader.firstHalf_book_first hf ⟨.cpuNcycles cpu, lowHalf x, x⟩
  have hinv : ReaderInv ((s.cpu c).book ⟨.cpuNcycles cpu, lowHalf x, x⟩) :=
    .of_some (h := ⟨.cpuNcycles cpu, lowHalf x, x⟩) ⟨rfl, hne⟩ htime hno rfl hbook
  unfold StepRight
  rw [getCpuNcycles, if_pos hword]
  refine ⟨?_, fun r hr h hh => ?_⟩
  · have hset := hs.setNcycles hinv hkept (fun cpu' v' hv => by rw [hown] at hv; cases hv)
      (.inr (Reader.keptNcycles_eq_some hbook rfl))
    exact hset
  · cases hr
    rw [hf] at hh
    cases hh

/-- The second read of a pair: it returns the high half that was kept, and frees it. -/
theorem stepRight_ncycles_second {s : CounterReads ncpu} (hs : HalvesInv s) {c cpu : Fin ncpu}
    {h : HalfRead ncpu} (hf : (s.cpu c).firstHalf = some h) (hreg : h.reg = .cpuNcycles cpu)
    {x : BitVec 64} (hkept : ∀ c', c' ≠ c → ∀ v, (s.cpu c').keptNcycles ≠ some (cpu, v)) :
    StepRight s (some ⟨c, .cpuNcycles cpu, (s.getCpuNcycles cpu x).1, x⟩)
      (s.getCpuNcycles cpu x).2 := by
  have hx := hs.reader c
  have hown := Reader.keptNcycles_eq_some hf hreg
  have hht : h.reg.isTime = false := by rw [hreg]; rfl
  have htime : (s.cpu c).lastReadSctime = -1 := hx.time_eq fun h' hh => by
    cases hf.symm.trans hh
    exact hht
  have hno : (s.cpu c).lastNoCyclesHigh = -1 := hx.noCycles_eq fun h' hh => by
    cases hf.symm.trans hh
    rw [hreg]
    rfl
  have hhigh := hx.high_ne hf hht
  have hword : s.hwordNcycles cpu = highHalf h.snapshot := hs.held c cpu _ hown
  have hbook := Reader.firstHalf_book_second hf ⟨.cpuNcycles cpu, highHalf h.snapshot, x⟩
  have hinv : ReaderInv ((s.cpu c).book ⟨.cpuNcycles cpu, highHalf h.snapshot, x⟩) :=
    .of_none htime hno rfl hbook
  have hnone := Reader.keptNcycles_none hbook
  unfold StepRight
  rw [getCpuNcycles, if_neg (hword ▸ hhigh), hword]
  refine ⟨?_, fun r hr h' hh' => ?_⟩
  · have hset := hs.setNcycles hinv hkept (fun cpu' v' hv => by rw [hown] at hv; cases hv; rfl)
      (.inl ⟨hnone, rfl⟩)
    exact hset
  · cases hr
    cases hf.symm.trans hh'
    refine ⟨(hx.first h hf).val, ?_⟩
    rw [hreg]
    rfl

/-- **The rest of a read of `cpu_logs`.** -/
theorem stepRight_ncycles {s : CounterReads ncpu} (hs : HalvesInv s) {c cpu : Fin ncpu}
    (hw : (s.cpu c).waiting = some (.cpuNcycles cpu)) {x : BitVec 64}
    (hne : (s.cpu c).firstHalf = none → highHalf x ≠ -1)
    (hothers : ∀ c', c' ≠ c → ∀ h ∈ (s.cpu c').firstHalf, h.reg ≠ .cpuNcycles cpu) :
    StepRight s (some ⟨c, .cpuNcycles cpu, (s.getCpuNcycles cpu x).1, x⟩)
      (s.getCpuNcycles cpu x).2 := by
  obtain ⟨-, hpartner, -⟩ := (hs.reader c).waiting _ hw
  have hkept := keptNcycles_ne hothers
  cases hf : (s.cpu c).firstHalf with
  | none => exact stepRight_ncycles_first hs hf (hne hf) hkept
  | some h =>
      have hreg : h.reg = .cpuNcycles cpu := by
        have hp := hpartner h hf
        cases hr : h.reg <;> simp_all [CounterReg.partner]
      exact stepRight_ncycles_second hs hf hreg hkept

/-- **One step.** -/
theorem stepRight_access {s t : CounterReads ncpu} {l : ReadStep ncpu} {r : Option (ReadReply ncpu)}
    (hs : HalvesInv s) (hl : UndisturbedRead s l) (h : s.access l = some (r, t)) :
    StepRight s r t := by
  cases l with
  | call c reg x =>
      rw [access] at h
      split at h
      · next hmay =>
          cases h
          cases reg with
          | timeLow => exact stepRight_time hs hmay rfl rfl x
          | timeHigh => exact stepRight_time hs hmay rfl rfl x
          | allNoCycles | noCyclesCpu cpu => exact stepRight_noCycles hs hmay rfl x
          | cpuNcycles cpu => exact stepRight_wait hs hmay rfl fun hn => by cases hn
      · cases h
  | resume c x =>
      obtain ⟨reg, hw, h⟩ := Option.map_eq_some_iff.mp h
      cases h
      obtain ⟨hne, hothers⟩ := hl
      cases reg with
      | timeLow | timeHigh => exact absurd ((hs.reader c).waiting _ hw).1 (by simp [CounterReg.isTime])
      | allNoCycles | noCyclesCpu cpu => exact stepRight_resume hs hw rfl hne
      | cpuNcycles cpu => exact stepRight_ncycles hs hw hne (hothers cpu hw)

/-- **Which reads return the halves of one counter**: in every run in which no other guest reads a
    register of `cpu_logs` between two reads of it, and no high half that is kept is 0xFFFFFFFF. -/
theorem pairs_right (ls : List (ReadStep ncpu)) (h : Steps next UndisturbedRead new ls) :
    Steps next PairRight new ls := by
  refine steps_of_steps (I := HalvesInv) (fun s l s' hs hl hn r t hr h hh => ?_)
    (fun s l s' hs hl hn => ?_) HalvesInv.new h
  · exact (stepRight_access hs hl hr).2 r rfl h hh
  · obtain ⟨⟨r, t⟩, hr, rfl⟩ := Option.map_eq_some_iff.mp hn
    exact (stepRight_access hs hl hr).1

/-- The first of two CPUs, and the register of its cycles. -/
def firstCpu : Fin 2 := ⟨0, by decide⟩

def secondCpu : Fin 2 := ⟨1, by decide⟩

/-- The first CPU reads its cycles, while the second one begins to read all cycles. -/
theorem undisturbed_right : Steps next PairRight new
    [.call firstCpu (.cpuNcycles firstCpu) 0#64, .resume firstCpu 0x300000005#64,
      .call secondCpu .allNoCycles 0#64, .resume secondCpu 0x300000009#64,
      .call firstCpu (.cpuNcycles firstCpu) 0#64, .resume firstCpu 0x300000010#64] :=
  pairs_right _ (by decide)

/-- The first CPU has read 5, then the second CPU reads the same register. -/
def disturbed : List (ReadStep 2) :=
  [.call firstCpu (.cpuNcycles firstCpu) 0#64, .resume firstCpu 0x300000005#64,
    .call secondCpu (.cpuNcycles firstCpu) 0#64, .resume secondCpu 0x300000009#64,
    .call firstCpu (.cpuNcycles firstCpu) 0#64]

/-- What the first CPU gets then is no high half. -/
theorem disturbed_wrong :
    ¬ Steps next PairRight new (disturbed ++ [.resume firstCpu 0x300000010#64]) := by
  intro h
  obtain ⟨s, hs, h3⟩ : ∃ s, exec next new disturbed = some s ∧
      ∃ r t x, s.access (.resume firstCpu 0x300000010#64) = some (some r, t) ∧
        x ∈ (s.cpu r.cpu).firstHalf ∧ r.val ≠ x.reg.secondPart x.snapshot :=
    ⟨_, rfl, _, _, _, rfl, rfl, by decide⟩
  obtain ⟨r, t, x, hr, hx, hne⟩ := h3
  have hnext : next s (.resume firstCpu 0x300000010#64) = some (t.book (some r)) := by
    rw [next, hr]
    rfl
  exact hne (h.last hs hnext r t hr x hx).2

end CounterReads

end Rabbits
