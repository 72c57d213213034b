/-
  File:      Rabbits/Cpu/Indices.lean
  Subject:   The indices that an access to the registers of a qemu_wrapper uses
             (qemu_cpu_wrapper.cpp: systemc_qemu_read_memory, systemc_qemu_write_memory,
             set_cpu_fv_level, add_time_at_fv; qemu_wrapper.cpp: get_cpu_fv_level, set_cpu_fv_level,
             generate_swi, swi_ack, get_cpu_ncycles, get_no_cycles_cpu, set_int_enable; cpu_logs.cpp;
             qemu_wrapper_cts.h).

  Each index into `m_cpus`, into the interrupt words and into the arrays of `cpu_logs` is on record.
  An entry behind the end of `m_cpus` is no CPU: what a call on it does is unknown, and left out.

  * `IndexUse` -- an index; `RegState` -- the fields that the accesses read and write;
  * `readRegister`, `writeRegister` -- the two dispatches, `RegAccess.code` -- an access to its end;
  * `NamesCpu` -- the CPU that an access names, by its address or by its data, exists;
  * `indicesInside_iff` -- **the indices are inside exactly then**.
-/
import Rabbits.Cpu.EnergyMode
import Rabbits.Cpu.IntPending
import Rabbits.Lib.Recorded

namespace Rabbits

open Lib Recorded

/-! ## 1. The registers -/

/-- The registers that are read. -/
inductive GetReg where
  | noCpus
  | timeLow
  | timeHigh
  | crtCpuFvLevel
  | cpuFvLevel
  | cpuNcycles
  | intEnable
  | intStatus
  | noCycles
  | maxIntPending
  | secondaryStartupAddress
  | measureRes
deriving DecidableEq

def GET_SYSTEMC_CPU1_FV_LEVEL : ULong := 0x0014#32
def GET_SYSTEMC_CPU1_NCYCLES : ULong := 0x0024#32
def GET_ALL_CPUS_NO_CYCLES : ULong := 0x0050#32

/-- The cases of `systemc_qemu_read_memory`. -/
def getRegs : List (ULong × GetReg) :=
  [(0x0000#32, .noCpus), (0x0008#32, .timeLow), (0x000C#32, .timeHigh),
    (0x0010#32, .crtCpuFvLevel), (GET_SYSTEMC_CPU1_FV_LEVEL, .cpuFvLevel), (0x0018#32, .cpuFvLevel),
    (0x001C#32, .cpuFvLevel), (0x0020#32, .cpuFvLevel), (GET_SYSTEMC_CPU1_NCYCLES, .cpuNcycles),
    (0x0028#32, .cpuNcycles), (0x002C#32, .cpuNcycles), (0x0030#32, .cpuNcycles),
    (0x0040#32, .intEnable), (0x0044#32, .intStatus), (0x0080#32, .maxIntPending),
    (GET_ALL_CPUS_NO_CYCLES, .noCycles), (0x0054#32, .noCycles), (0x0058#32, .noCycles),
    (0x005C#32, .noCycles), (0x0060#32, .noCycles), (0x0084#32, .secondaryStartupAddress),
    (0x0100#32, .measureRes)]

/-- The registers that are written. `logEnd` stands for the four that print the cycles. -/
inductive SetReg where
  | crtCpuFvLevel
  | cpuxFvLevel
  | allFvLevel
  | testWrite
  | shutdown
  | intEnable
  | logEnd
  | logSetThreadCpu
  | secondaryStartupAddress
  | generateSwi
  | swiAck
  | measureStart

/-- The cases of `systemc_qemu_write_memory`. -/
def setRegs : List (ULong × SetReg) :=
  [(0x0010#32, .crtCpuFvLevel), (0x0014#32, .cpuxFvLevel), (0x0024#32, .allFvLevel),
    (0x0000#32, .testWrite), (0x0004#32, .shutdown), (0x0040#32, .intEnable), (0x0050#32, .logEnd),
    (0x0060#32, .logEnd), (0x0068#32, .logEnd), (0x0070#32, .logEnd), (0x0080#32, .logSetThreadCpu),
    (0x0084#32, .secondaryStartupAddress), (0x0088#32, .generateSwi), (0x008C#32, .swiAck),
    (0x0100#32, .measureStart)]

/-! ## 2. The state -/

/-- An index: into `m_cpus`, into `m_cpus` of one of all wrappers, into the interrupt words, or into
    the arrays of `cpu_logs`. -/
inductive IndexUse where
  | cpus (cpu : Nat)
  | cpusOf (wrapper cpu : Nat)
  | intStatus (cpu : Nat)
  | logs (cpu : Nat)
  | fvLevel (level : Nat)

/-- Below the number of CPUs of the wrapper, and at most the number of levels. `wrappers` are the
    numbers of CPUs of `s_wrappers`. -/
def IndexUse.Inside (ncpu : Nat) (wrappers : List Nat) : IndexUse → Prop
  | .cpus cpu => cpu < ncpu
  | .cpusOf wrapper cpu => ∃ n, wrappers[wrapper]? = some n ∧ cpu < n
  | .intStatus cpu => cpu < ncpu
  | .logs cpu => cpu < ncpu
  | .fvLevel level => level ≤ getCpuNbFvLevels

/-- The fields of a wrapper and of its CPUs. -/
structure RegState (ncpu : Nat) where
  irq : QemuWrapper ncpu
  fvLevel : Fin ncpu → FvLevel
  lastReadSctime : Fin ncpu → BitVec 64
  lastNoCyclesHigh : Fin ncpu → ULong
  hwordNcycles : Fin ncpu → ULong
  addrStartupSecondary : ULong

/-- What an access gets from elsewhere: the simulated time, the cycles of the CPUs of all wrappers,
    those in the table of times, the two results of a measure, and the time that the access takes. -/
structure RegEnv where
  time : BitVec 64
  noCycles : Nat → Nat → BitVec 64
  ncycles : BitVec 64
  meanUse : ULong
  meanPower : ULong
  diff : BitVec 64

abbrev RegCode (ncpu : Nat) := Recorded (RegState ncpu) IndexUse

/-! ## 3. The accesses -/

variable {ncpu : Nat}

namespace RegCode

/-- `m_cpus[i]->f ()`. -/
def callCpu {v : Type} (dflt : v) (i : Nat) (f : Fin ncpu → RegCode ncpu v) : RegCode ncpu v := do
  note (.cpus i)
  if h : i < ncpu then f ⟨i, h⟩ else return dflt

/-- `qemu_cpu_wrapper::get_cpu_fv_level`. -/
def cpuFvLevel (cpu : Fin ncpu) : RegCode ncpu ULong := do
  let s ← look
  return BitVec.ofNat 32 (s.fvLevel cpu).val

/-- `qemu_cpu_wrapper::set_cpu_fv_level`. -/
def cpuSetFvLevel (val : ULong) (cpu : Fin ncpu) : RegCode ncpu PUnit := do
  let s ← look
  if val.toNat = (s.fvLevel cpu).val then return
  else
    match FvLevel.ofVal val with
    | none => stop
    | some level =>
        note (.fvLevel val.toNat)
        change fun s => { s with fvLevel := Function.update s.fvLevel cpu level }

/-- The loop over the levels, `[cpu][i]`. -/
def levelLoop (cpu : Nat) : RegCode ncpu PUnit :=
  forM (List.range (getCpuNbFvLevels + 1)) fun i => do
    note (.logs cpu)
    note (.fvLevel i)

/-- `qemu_cpu_wrapper::get_cpu_ncycles` and `cpu_logs::get_cpu_ncycles`. -/
def cpuNcycles (env : RegEnv) (cpu : Fin ncpu) : RegCode ncpu ULong := do
  note (.logs cpu)
  let s ← look
  if s.hwordNcycles cpu = -1 then
    levelLoop cpu
    change fun s => { s with
      hwordNcycles := Function.update s.hwordNcycles cpu ((env.ncycles >>> 32).setWidth 32) }
    return env.ncycles.setWidth 32
  else
    change fun s => { s with hwordNcycles := Function.update s.hwordNcycles cpu (-1) }
    return s.hwordNcycles cpu

/-- `qemu_wrapper::get_no_cycles_cpu (-1)`. -/
def allNoCycles (env : RegEnv) (wrappers : List Nat) : RegCode ncpu (BitVec 64) := do
  forM wrappers.zipIdx fun w => forM (List.range w.1) fun cpu => note (.cpusOf w.2 cpu)
  return (wrappers.zipIdx.map fun w => ((List.range w.1).map (env.noCycles w.2)).sum).sum

/-- `qemu_wrapper::get_no_cycles_cpu`, for the wrapper `self`. -/
def getNoCyclesCpu (env : RegEnv) (wrappers : List Nat) (self : Nat) (cpu : Int) :
    RegCode ncpu (BitVec 64) :=
  if cpu = -1 then allNoCycles env wrappers
  else callCpu 0 cpu.toNat fun cpu => return env.noCycles self cpu

/-- `qemu_wrapper::set_cpu_fv_level`. -/
def setCpuFvLevel (cpu val : ULong) : RegCode ncpu PUnit :=
  if cpu = -1 then forM (List.range ncpu) fun cpu => callCpu ⟨⟩ cpu (cpuSetFvLevel val)
  else callCpu ⟨⟩ cpu.toNat (cpuSetFvLevel val)

/-- A word of a CPU. -/
def wordOf (word : Fin ncpu → ULong) (cpu : Nat) : ULong := if h : cpu < ncpu then word ⟨cpu, h⟩ else 0

/-- `qemu_wrapper::generate_swi`. -/
def generateSwi (cpuMask swi : ULong) : RegCode ncpu PUnit := do
  let s ← look
  forM (List.range ncpu) fun cpu => do
    if cpuMask &&& bit cpu ≠ 0#32 then
      note (.cpus cpu)
      note (.intStatus cpu)
      if wordOf s.irq.cpuInterruptsStatus cpu = 0#32 then note (.cpus cpu) else return
    else return
  change fun s => { s with irq := s.irq.generateSwi cpuMask swi }

/-- `qemu_wrapper::swi_ack`. -/
def swiAck (cpu : Fin ncpu) (swiMask : ULong) : RegCode ncpu PUnit := do
  note (.cpus cpu)
  let s ← look
  if s.irq.swi cpu = 0#32 then return
  else
    note (.cpus cpu)
    note (.intStatus cpu)
    change fun s => { s with irq := s.irq.swiAck cpu swiMask }

/-- `qemu_wrapper::set_int_enable`; `m_swi` is read where the two words say that the level changes. -/
def setIntEnable (val : ULong) : RegCode ncpu PUnit := do
  let s ← look
  forM (List.range ncpu) fun cpu => do
    let status := wordOf s.irq.cpuInterruptsStatus cpu
    let next := wordOf s.irq.cpuInterruptsRawStatus cpu &&& val
    note (.intStatus cpu)
    if status = 0#32 ∧ next ≠ 0#32 ∨ status ≠ 0#32 ∧ next = 0#32 then note (.cpus cpu) else return
  change fun s => { s with irq := s.irq.setIntEnable val }

/-- `GET_SYSTEMC_TIME_LOW` and `GET_SYSTEMC_TIME_HIGH`. -/
def readTime (env : RegEnv) (c : Fin ncpu) (half : BitVec 64 → ULong) : RegCode ncpu ULong := do
  let s ← look
  if s.lastReadSctime c = -1 then
    change fun s => { s with
      lastReadSctime := Function.update s.lastReadSctime c (env.time / 1000#64) }
    return half (env.time / 1000#64)
  else
    change fun s => { s with lastReadSctime := Function.update s.lastReadSctime c (-1) }
    return half (s.lastReadSctime c)

/-- `GET_ALL_CPUS_NO_CYCLES` and `GET_NO_CYCLES_CPU1`, ..., by the address. -/
def readNoCycles (env : RegEnv) (wrappers : List Nat) (self : Nat) (c : Fin ncpu) (addr : ULong) :
    RegCode ncpu ULong := do
  let s ← look
  if s.lastNoCyclesHigh c = -1 then
    let noCycles ← getNoCyclesCpu env wrappers self (((addr - GET_ALL_CPUS_NO_CYCLES) >>> 2).toNat - 1)
    change fun s => { s with
      lastNoCyclesHigh := Function.update s.lastNoCyclesHigh c ((noCycles >>> 32).setWidth 32) }
    return noCycles.setWidth 32
  else
    change fun s => { s with lastNoCyclesHigh := Function.update s.lastNoCyclesHigh c (-1) }
    return s.lastNoCyclesHigh c

/-- `cpu_logs::stop_measure`, behind `etrace.stop_measure ()`. -/
def readMeasure (env : RegEnv) : RegCode ncpu ULong := do
  forM (List.range ncpu).reverse levelLoop
  return env.meanUse ||| env.meanPower <<< 16

/-- `systemc_qemu_read_memory` of the CPU `c`, behind `addr -= m_base_address`. -/
def readRegister (env : RegEnv) (wrappers : List Nat) (self : Nat) (c : Fin ncpu) (addr : ULong) :
    RegCode ncpu ULong :=
  match getRegs.lookup addr with
  | some .noCpus => return BitVec.ofNat 32 ncpu
  | some .timeLow => readTime env c fun t => t.setWidth 32
  | some .timeHigh => readTime env c fun t => (t >>> 32).setWidth 32
  | some .crtCpuFvLevel => cpuFvLevel c
  | some .cpuFvLevel => callCpu 0 ((addr - GET_SYSTEMC_CPU1_FV_LEVEL) >>> 2).toNat cpuFvLevel
  | some .cpuNcycles => callCpu 0 ((addr - GET_SYSTEMC_CPU1_NCYCLES) >>> 2).toNat (cpuNcycles env)
  | some .intEnable => do
      let s ← look
      return s.irq.interruptsEnable
  | some .intStatus => do
      let s ← look
      return s.irq.getIntStatus
  | some .maxIntPending => do
      let s ← look
      return (s.irq.maxIntPending c).getD 0
  | some .noCycles => readNoCycles env wrappers self c addr
  | some .secondaryStartupAddress => do
      let s ← look
      return s.addrStartupSecondary
  | some .measureRes => readMeasure env
  | none => return 0xFFFFFFFF#32

/-- `systemc_qemu_write_memory` of the CPU `c`, behind `addr -= m_base_address`. -/
def writeRegister (env : RegEnv) (wrappers : List Nat) (c : Fin ncpu) (addr data : ULong) :
    RegCode ncpu PUnit :=
  match setRegs.lookup addr with
  | some .crtCpuFvLevel => cpuSetFvLevel data c
  | some .cpuxFvLevel => setCpuFvLevel (data &&& 0xFF#32) (data >>> 8)
  | some .allFvLevel => setCpuFvLevel (-1) data
  | some .shutdown => if data ≠ 0#32 then stop else return
  | some .intEnable => setIntEnable data
  | some .logEnd => do
      let _ ← allNoCycles env wrappers
      return
  | some .secondaryStartupAddress => change fun s => { s with addrStartupSecondary := data }
  | some .generateSwi => generateSwi data 1#32
  | some .swiAck => swiAck c data
  -- a wait, a field that only a call of QEMU reads, and two copies without an index
  | some .testWrite | some .logSetThreadCpu | some .measureStart => return
  | none => return

/-- The calls of QEMU end with `add_time_at_fv`. -/
def addTimeAtFv (env : RegEnv) (c : Fin ncpu) : RegCode ncpu PUnit := do
  let s ← look
  if env.diff ≠ 0#64 then
    note (.logs c)
    note (.fvLevel (s.fvLevel c).val)
  else return

end RegCode

/-- An access of a guest, by its place in the window. -/
inductive RegAccess where
  | read (addr : ULong)
  | write (addr data : ULong)

namespace RegAccess

def code (env : RegEnv) (wrappers : List Nat) (self : Nat) (c : Fin ncpu) :
    RegAccess → RegCode ncpu PUnit
  | .read addr => do
      let _ ← RegCode.readRegister env wrappers self c addr
      RegCode.addTimeAtFv env c
  | .write addr data => do
      RegCode.writeRegister env wrappers c addr data
      RegCode.addTimeAtFv env c

/-- The CPU that an access names exists: by the address of a level or of the cycles, by the address of
    a count whose high half is not kept from the last read, or by the low byte of the data. -/
def NamesCpu (s : RegState ncpu) (c : Fin ncpu) : RegAccess → Prop
  | .read addr =>
      match getRegs.lookup addr with
      | some .cpuFvLevel => ((addr - GET_SYSTEMC_CPU1_FV_LEVEL) >>> 2).toNat < ncpu
      | some .cpuNcycles => ((addr - GET_SYSTEMC_CPU1_NCYCLES) >>> 2).toNat < ncpu
      | some .noCycles => s.lastNoCyclesHigh c = -1 → addr ≠ GET_ALL_CPUS_NO_CYCLES →
          ((addr - GET_ALL_CPUS_NO_CYCLES) >>> 2).toNat - 1 < ncpu
      | _ => True
  | .write addr data =>
      match setRegs.lookup addr with
      | some .cpuxFvLevel => (data &&& 0xFF#32).toNat < ncpu
      | _ => True

end RegAccess

/-! ## 4. Loops and calls -/

namespace RegCode

variable {wrappers : List Nat}

/-- Inside, for this wrapper. -/
abbrev Ok (ncpu : Nat) (wrappers : List Nat) : IndexUse → Prop := IndexUse.Inside ncpu wrappers

theorem safe_cpuFvLevel (cpu : Fin ncpu) : Safe (Ok ncpu wrappers) (cpuFvLevel cpu) :=
  .bind .look fun _ => .pure _

theorem safe_cpuSetFvLevel (val : ULong) (cpu : Fin ncpu) :
    Safe (Ok ncpu wrappers) (cpuSetFvLevel val cpu) := by
  refine .bind .look fun s => .ite (fun _ => .pure _) fun _ => ?_
  cases hval : FvLevel.ofVal val with
  | none => exact .stop
  | some level =>
      have hlt : val.toNat < getCpuNbFvLevels := by
        unfold FvLevel.ofVal at hval
        split at hval
        · assumption
        · cases hval
      exact .bind (.note hlt.le) fun _ => .change _

theorem safe_levelLoop {cpu : Nat} (h : cpu < ncpu) :
    Safe (Ok ncpu wrappers) (levelLoop cpu : RegCode ncpu PUnit) :=
  .forM fun _ hi => .bind (.note h) fun _ => .note (Nat.le_of_lt_succ (List.mem_range.mp hi))

theorem safe_cpuNcycles (env : RegEnv) (cpu : Fin ncpu) :
    Safe (Ok ncpu wrappers) (cpuNcycles env cpu) := by
  refine .bind (.note cpu.isLt) fun _ => .bind .look fun s => .ite (fun _ => ?_) fun _ => ?_
  · exact .bind (safe_levelLoop cpu.isLt) fun _ => .bind (.change _) fun _ => .pure _
  · exact .bind (.change _) fun _ => .pure _

theorem safe_allNoCycles (env : RegEnv) :
    Safe (Ok ncpu wrappers) (allNoCycles env wrappers : RegCode ncpu (BitVec 64)) := by
  refine .bind (.forM fun w hw => .forM fun cpu hcpu => .note ?_) fun _ => .pure _
  obtain ⟨n, i⟩ := w
  exact ⟨n, List.mem_zipIdx_iff_getElem?.mp hw, List.mem_range.mp hcpu⟩

/-- **A call on an entry of `m_cpus`.** -/
theorem good_callCpu_iff {v : Type} {dflt : v} {i : Nat} {f : Fin ncpu → RegCode ncpu v}
    (hf : ∀ cpu, Safe (Ok ncpu wrappers) (f cpu)) (s : RegState ncpu) :
    (callCpu dflt i f).Good (Ok ncpu wrappers) s ↔ i < ncpu := by
  have hin : Ok ncpu wrappers (.cpus i) ↔ i < ncpu := Iff.rfl
  by_cases hi : i < ncpu
  · refine iff_of_true ?_ hi
    rw [callCpu, dif_pos hi]
    exact Safe.bind (.note (hin.mpr hi)) (fun _ => hf _) s
  · exact iff_of_false (not_good_note (mt hin.mp hi) _ s) hi

theorem safe_callCpu {v : Type} {dflt : v} {i : Nat} {f : Fin ncpu → RegCode ncpu v}
    (hf : ∀ cpu, Safe (Ok ncpu wrappers) (f cpu)) (hi : i < ncpu) :
    Safe (Ok ncpu wrappers) (callCpu dflt i f) := fun s => (good_callCpu_iff hf s).mpr hi

theorem safe_generateSwi (cpuMask swi : ULong) :
    Safe (Ok ncpu wrappers) (generateSwi cpuMask swi : RegCode ncpu PUnit) := by
  refine .bind .look fun s => .bind (.forM fun cpu hcpu => ?_) fun _ => .change _
  have hlt : cpu < ncpu := List.mem_range.mp hcpu
  refine .ite (fun _ => ?_) fun _ => .pure _
  exact .bind (.note hlt) fun _ => .bind (.note hlt) fun _ => .ite (fun _ => .note hlt) fun _ => .pure _

theorem safe_swiAck (cpu : Fin ncpu) (swiMask : ULong) :
    Safe (Ok ncpu wrappers) (swiAck cpu swiMask) := by
  refine .bind (.note cpu.isLt) fun _ => .bind .look fun s => .ite (fun _ => .pure _) fun _ => ?_
  exact .bind (.note cpu.isLt) fun _ => .bind (.note cpu.isLt) fun _ => .change _

theorem safe_setIntEnable (val : ULong) :
    Safe (Ok ncpu wrappers) (setIntEnable val : RegCode ncpu PUnit) := by
  refine .bind .look fun s => .bind (.forM fun cpu hcpu => ?_) fun _ => .change _
  have hlt : cpu < ncpu := List.mem_range.mp hcpu
  exact .bind (.note hlt) fun _ => .ite (fun _ => .note hlt) fun _ => .pure _

theorem safe_readTime (env : RegEnv) (c : Fin ncpu) (half : BitVec 64 → ULong) :
    Safe (Ok ncpu wrappers) (readTime env c half) := by
  refine .bind .look fun s => .ite (fun _ => ?_) fun _ => ?_ <;>
    exact .bind (.change _) fun _ => .pure _

theorem safe_readMeasure (env : RegEnv) :
    Safe (Ok ncpu wrappers) (readMeasure env : RegCode ncpu ULong) := by
  refine .bind (.forM fun cpu hcpu => safe_levelLoop ?_) fun _ => .pure _
  exact List.mem_range.mp (List.mem_reverse.mp hcpu)

theorem safe_addTimeAtFv (env : RegEnv) (c : Fin ncpu) :
    Safe (Ok ncpu wrappers) (addTimeAtFv env c) := by
  refine .bind .look fun s => .ite (fun _ => ?_) fun _ => .pure _
  exact .bind (.note c.isLt) fun _ => .note (s.fvLevel c).isLt.le

/-! ## 5. The accesses that name a CPU -/

theorem safe_setAllFvLevel (val : ULong) :
    Safe (Ok ncpu wrappers) (setCpuFvLevel (-1) val : RegCode ncpu PUnit) := by
  rw [setCpuFvLevel, if_pos rfl]
  exact .forM fun cpu hcpu => safe_callCpu (safe_cpuSetFvLevel val) (List.mem_range.mp hcpu)

/-- The low byte of the data is never the number that stands for all CPUs. -/
theorem good_setCpuFvLevel_iff (data val : ULong) (s : RegState ncpu) :
    (setCpuFvLevel (data &&& 0xFF#32) val).Good (Ok ncpu wrappers) s ↔
      (data &&& 0xFF#32).toNat < ncpu := by
  have hne : data &&& 0xFF#32 ≠ -1 := by
    intro h
    have hbit := congrArg (BitVec.getLsbD · 8) h
    simp at hbit
  rw [setCpuFvLevel, if_neg hne]
  exact good_callCpu_iff (safe_cpuSetFvLevel val) s

theorem good_getNoCyclesCpu_iff (env : RegEnv) (self k : Nat) (s : RegState ncpu) :
    (getNoCyclesCpu env wrappers self ((k : Int) - 1) : RegCode ncpu (BitVec 64)).Good
      (Ok ncpu wrappers) s ↔ (k ≠ 0 → k - 1 < ncpu) := by
  unfold getNoCyclesCpu
  cases k with
  | zero =>
      rw [if_pos (by omega)]
      exact iff_of_true (safe_allNoCycles env s) fun h => absurd rfl h
  | succ k =>
      have hk : (((k + 1 : Nat) : Int) - 1).toNat = k := by omega
      rw [if_neg (by omega), hk, good_callCpu_iff (fun _ => .pure _)]
      simp

/-- A count is taken where the high half of the last one has been read. -/
theorem good_readNoCycles_iff (env : RegEnv) (self : Nat) (c : Fin ncpu) {addr : ULong}
    (haddr : ((addr - GET_ALL_CPUS_NO_CYCLES) >>> 2).toNat = 0 ↔ addr = GET_ALL_CPUS_NO_CYCLES)
    (s : RegState ncpu) :
    (readNoCycles env wrappers self c addr).Good (Ok ncpu wrappers) s ↔
      (s.lastNoCyclesHigh c = -1 → addr ≠ GET_ALL_CPUS_NO_CYCLES →
        ((addr - GET_ALL_CPUS_NO_CYCLES) >>> 2).toNat - 1 < ncpu) := by
  rw [readNoCycles, good_look_bind]
  by_cases hlast : s.lastNoCyclesHigh c = -1
  · rw [if_pos hlast, good_bind_safe_iff fun _ => .bind (.change _) fun _ => .pure _,
      good_getNoCyclesCpu_iff, Ne, haddr]
    exact ⟨fun h _ => h, fun h => h hlast⟩
  · rw [if_neg hlast]
    exact iff_of_true (Safe.bind (.change _) (fun _ => .pure _) s) fun h => absurd h hlast

/-- The addresses of the counts. -/
theorem noCycles_address {addr : ULong} (h : getRegs.lookup addr = some .noCycles) :
    ((addr - GET_ALL_CPUS_NO_CYCLES) >>> 2).toNat = 0 ↔ addr = GET_ALL_CPUS_NO_CYCLES := by
  have hall : ∀ p ∈ getRegs, p.2 = .noCycles →
      (((p.1 - GET_ALL_CPUS_NO_CYCLES) >>> 2).toNat = 0 ↔ p.1 = GET_ALL_CPUS_NO_CYCLES) := by decide
  obtain ⟨l, l', heq, -⟩ := List.lookup_eq_some_iff.mp h
  have hmem : (addr, GetReg.noCycles) ∈ getRegs := heq ▸ List.mem_append_right l List.mem_cons_self
  have hiff := hall (addr, GetReg.noCycles) hmem rfl
  exact hiff

theorem good_readRegister_iff (env : RegEnv) (self : Nat) (c : Fin ncpu) (addr : ULong)
    (s : RegState ncpu) :
    (readRegister env wrappers self c addr).Good (Ok ncpu wrappers) s ↔
      RegAccess.NamesCpu s c (.read addr) := by
  unfold readRegister
  simp only [RegAccess.NamesCpu]
  cases hreg : getRegs.lookup addr with
  | none => exact iff_of_true (Safe.pure _ s) trivial
  | some reg =>
      cases reg with
      | cpuFvLevel => exact good_callCpu_iff safe_cpuFvLevel s
      | cpuNcycles => exact good_callCpu_iff (safe_cpuNcycles env) s
      | noCycles => exact good_readNoCycles_iff env self c (noCycles_address hreg) s
      | noCpus => exact iff_of_true (Safe.pure _ s) trivial
      | timeLow | timeHigh => exact iff_of_true (safe_readTime env c _ s) trivial
      | crtCpuFvLevel => exact iff_of_true (safe_cpuFvLevel c s) trivial
      | measureRes => exact iff_of_true (safe_readMeasure env s) trivial
      | intEnable | intStatus | maxIntPending | secondaryStartupAddress =>
          exact iff_of_true (Safe.bind .look (fun _ => .pure _) s) trivial

theorem good_writeRegister_iff (env : RegEnv) (c : Fin ncpu) (addr data : ULong)
    (s : RegState ncpu) :
    (writeRegister env wrappers c addr data).Good (Ok ncpu wrappers) s ↔
      RegAccess.NamesCpu s c (.write addr data) := by
  unfold writeRegister
  simp only [RegAccess.NamesCpu]
  cases hreg : setRegs.lookup addr with
  | none => exact iff_of_true (Safe.pure _ s) trivial
  | some reg =>
      cases reg with
      | cpuxFvLevel => exact good_setCpuFvLevel_iff data (data >>> 8) s
      | crtCpuFvLevel => exact iff_of_true (safe_cpuSetFvLevel data c s) trivial
      | allFvLevel => exact iff_of_true (safe_setAllFvLevel data s) trivial
      | shutdown => exact iff_of_true (Safe.ite (fun _ => .stop) (fun _ => .pure _) s) trivial
      | intEnable => exact iff_of_true (safe_setIntEnable data s) trivial
      | logEnd => exact iff_of_true (Safe.bind (safe_allNoCycles env) (fun _ => .pure _) s) trivial
      | secondaryStartupAddress => exact iff_of_true (Safe.change _ s) trivial
      | generateSwi => exact iff_of_true (safe_generateSwi data 1#32 s) trivial
      | swiAck => exact iff_of_true (safe_swiAck c data s) trivial
      | testWrite | logSetThreadCpu | measureStart => exact iff_of_true (Safe.pure _ s) trivial

end RegCode

open RegCode

/-- The indices that an access uses. -/
def RegAccess.record (env : RegEnv) (wrappers : List Nat) (self : Nat) (c : Fin ncpu)
    (s : RegState ncpu) (a : RegAccess) : List IndexUse := ((a.code env wrappers self c).run s).2

/-- **The indices are inside exactly where the CPU that the access names exists.** -/
theorem indicesInside_iff (env : RegEnv) (wrappers : List Nat) (self : Nat) (c : Fin ncpu)
    (s : RegState ncpu) (a : RegAccess) :
    (∀ e ∈ a.record env wrappers self c s, e.Inside ncpu wrappers) ↔ a.NamesCpu s c := by
  have hend : ∀ s : RegState ncpu, (addTimeAtFv env c).Good (Ok ncpu wrappers) s :=
    safe_addTimeAtFv env c
  cases a with
  | read addr =>
      exact (good_bind_safe_iff fun _ => hend).trans (good_readRegister_iff env self c addr s)
  | write addr data =>
      exact (good_bind_safe_iff fun _ => hend).trans (good_writeRegister_iff env c addr data s)

/-- The fields after the constructors. -/
def RegState.new (ncpu : Nat) : RegState ncpu :=
  ⟨.new ncpu, fun _ => .boot, fun _ => -1, fun _ => -1, fun _ => -1, 0#32⟩

/-- The only CPU of a wrapper reads the level of the second one. -/
theorem secondCpu_outside :
    ¬ ∀ e ∈ (RegAccess.read 0x0018#32).record ⟨0, fun _ _ => 0, 0, 0, 0, 0⟩ [1] 0 ⟨0, by decide⟩
      (RegState.new 1), e.Inside 1 [1] := by
  intro h
  have hcpu : 1 < 1 := h (.cpus 1) List.mem_cons_self
  exact absurd hcpu (by decide)

end Rabbits
