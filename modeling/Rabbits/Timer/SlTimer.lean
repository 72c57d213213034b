/-
  File:      Rabbits/Timer/SlTimer.lean
  Subject:   The registers of the simple timer (sl_timer_device.cpp: the constructor, write, read).

  Times are `uint64_t` numbers of picoseconds, those of the registers are relative to the last start.

  * `SlTimer.write`, `SlTimer.read` -- the accesses, at a time;
  * `ValueRight` -- **the property** of a read of `TIMER_VALUE`: the ticks since the start, which go
    forward;
  * `valueRight_iff` -- **it holds exactly up to the first product that does not fit**, of the
    nanoseconds and the clock rate: for 184 seconds.
-/
import Mathlib.Data.Nat.ModEq
import Rabbits.Noc.SlaveDevice

namespace Rabbits

/-! ## 1. The registers -/

-- cfg.h
def SYSTEM_CLOCK_FV : Nat := 1000000000
def TIMER_DIV : Nat := 10

/-- The picoseconds of a tick: 1 s, in ps, by the clock rate. -/
def tickPs : Nat := 1000000000000 / (SYSTEM_CLOCK_FV / TIMER_DIV)

/-- `TIMER_RUNNING`. -/
def TIMER_RUNNING : ULong := 1
/-- `TIMER_IRQ_ENABLED`. -/
def TIMER_IRQ_ENABLED : ULong := 2

/-- `sl_timer_device`, up to `m_value` and `m_ns_period`, which nothing reads. -/
structure SlTimer where
  period : ULong
  mode : ULong
  lastPeriod : BitVec 64
  nextPeriod : BitVec 64
  irq : Bool
  configMod : Bool

namespace SlTimer

def new : SlTimer := ⟨0#32, 0#32, 0#64, 0#64, false, false⟩

/-- The picoseconds of `m_period`. -/
def periodPs (d : SlTimer) : BitVec 64 := BitVec.ofNat 64 tickPs * d.period.setWidth 64

/-- `sc_time_stamp ().value () - m_last_period`. -/
def elapsed (d : SlTimer) (now : BitVec 64) : BitVec 64 := now - d.lastPeriod

/-- The write starts or stops the timer. -/
def Toggles (d : SlTimer) (value : ULong) : Prop := (d.mode ^^^ value) &&& TIMER_RUNNING ≠ 0#32

instance (d : SlTimer) (value : ULong) : Decidable (d.Toggles value) := by
  unfold Toggles
  infer_instance

/-- A write to `TIMER_MODE`. -/
def writeMode (d : SlTimer) (now : BitVec 64) (value : ULong) : SlTimer :=
  if d.Toggles value then
    { d with
      lastPeriod := if value &&& TIMER_RUNNING ≠ 0#32 then now else d.lastPeriod
      configMod := true
      mode := value &&& 0x3#32 }
  else { d with mode := value &&& 0x3#32 }

/-- A write to `TIMER_PERIOD`. -/
def writePeriod (d : SlTimer) (now : BitVec 64) (value : ULong) : SlTimer :=
  let d := { d with period := value }
  { d with nextPeriod := d.elapsed now + d.periodPs, configMod := true }

/-- `write`: the timer, and whether `ev_wake` is notified; `bErr` is false where it returns. -/
def write (d : SlTimer) (now : BitVec 64) (ofs : ULong) (be : Byte) (data : Fin 8 → Byte) :
    Option (SlTimer × Bool) :=
  let value := valueOf be data
  match (lofsOf ofs be).toNat with
  -- TIMER_VALUE: "Unsupported write to VALUE register\n"
  | 0 => some (d, false)
  -- TIMER_MODE
  | 1 => some (d.writeMode now value, decide (d.Toggles value))
  -- TIMER_PERIOD
  | 2 => some (d.writePeriod now value, true)
  -- TIMER_RESETIRQ
  | 3 => some ({ d with irq := false }, false)
  -- "Bad %s::%s ofs=0x%X, be=0x%X, data=0x%X-%X!\n"
  | _ => none

/-- A read of `TIMER_VALUE`. -/
def readValue (d : SlTimer) (now : BitVec 64) : ULong :=
  (d.elapsed now / 1000#64 * BitVec.ofNat 64 (SYSTEM_CLOCK_FV / TIMER_DIV) / 1000000000#64).setWidth 32

/-- `read`: `*val`. -/
def read (d : SlTimer) (now : BitVec 64) (ofs : ULong) (be : Byte) : Option ULong :=
  match (lofsOf ofs be).toNat with
  | 0 => some (d.readValue now)
  | 1 => some d.mode
  | 2 => some d.period
  | 3 => some (if d.irq then 1#32 else 0#32)
  -- "Bad %s::%s ofs=0x%X, be=0x%X!\n"
  | _ => none

/-! ## 2. The value -/

/-- The whole ticks since the start. -/
def ticksAt (d : SlTimer) (now : BitVec 64) : Nat := (now.toNat - d.lastPeriod.toNat) / tickPs

/-- The value is the number of ticks, in 32 bits; it goes forward while these 32 bits do not wrap. -/
structure ValueRight (d : SlTimer) (now : BitVec 64) : Prop where
  ticks : d.readValue now = BitVec.ofNat 32 (d.ticksAt now)
  forward : ∀ t, d.lastPeriod ≤ t → t ≤ now → d.ticksAt t / 2 ^ 32 = d.ticksAt now / 2 ^ 32 →
    (d.readValue t).toNat ≤ (d.readValue now).toNat

/-- The nanoseconds since the start; times the clock rate they fit in 64 bits. -/
def InRange (d : SlTimer) (now : BitVec 64) : Prop :=
  (now.toNat - d.lastPeriod.toNat) / 1000 < 184467440738

instance (d : SlTimer) (now : BitVec 64) : Decidable (d.InRange now) := by
  unfold InRange
  infer_instance

variable {d : SlTimer} {now : BitVec 64}

theorem elapsed_toNat (h : d.lastPeriod ≤ now) :
    (d.elapsed now).toNat = now.toNat - d.lastPeriod.toNat := by
  rw [elapsed, BitVec.toNat_sub_of_le h]

/-- The value, with its one product modulo 2^64. -/
theorem readValue_toNat (h : d.lastPeriod ≤ now) : (d.readValue now).toNat =
    (now.toNat - d.lastPeriod.toNat) / 1000 * 100000000 % 2 ^ 64 / 1000000000 % 2 ^ 32 := by
  rw [readValue, BitVec.toNat_setWidth, BitVec.toNat_udiv, BitVec.toNat_mul, BitVec.toNat_udiv,
    elapsed_toNat h]
  rfl

/-- A multiple of 2^64 / 10^9 that is one of 2^32 is too large for a time. -/
theorem multiple_ge {q m : Nat} (hq : 0 < q) (h : q * 4294967296 = m * 1000000000) : 100000 < q := by
  have hdvd : 1953125 ∣ q * 4294967296 := by
    rw [h]
    exact Dvd.dvd.mul_left (by decide) m
  have hcop : Nat.Coprime 1953125 4294967296 := by decide
  have hle := Nat.le_of_dvd hq (hcop.dvd_of_dvd_mul_right hdvd)
  exact Nat.lt_of_lt_of_le (by decide) hle

/-- Two quotients that differ by a multiple of 2^32. -/
theorem multiple_of_quotients {q r m : Nat}
    (h : (q * 2 ^ 64 + r) / 1000000000 = r / 1000000000 + m * 4294967296) :
    q * 4294967296 = m * 1000000000 := by
  have hr := Nat.div_add_mod r 1000000000
  have hr' := Nat.mod_lt r (by decide : 1000000000 > 0)
  generalize r % 1000000000 = a at *
  generalize r / 1000000000 = v at *
  omega

/-- A product that does not fit does not leave the ticks, at any time there is. -/
theorem value_eq_iff {e : Nat} (he : e < 2 ^ 64) :
    e / 1000 * 100000000 % 2 ^ 64 / 1000000000 % 2 ^ 32 = e / 10000 % 2 ^ 32 ↔
      e / 1000 < 184467440738 := by
  have hticks : e / 10000 = e / 1000 * 100000000 / 1000000000 :=
    calc e / 10000 = e / 1000 / 10 := (Nat.div_div_eq_div_mul e 1000 10).symm
      _ = e / 1000 * 100000000 / (10 * 100000000) :=
        (Nat.mul_div_mul_right (e / 1000) 10 (by decide)).symm
  have hdiv := Nat.div_add_mod' (e / 1000 * 100000000) (2 ^ 64)
  constructor
  · intro heq
    by_contra hge
    have hq : 0 < e / 1000 * 100000000 / 2 ^ 64 := Nat.div_pos (by omega) (by decide)
    have hlarge : e / 1000 * 100000000 / 2 ^ 64 ≤ 100000 := by omega
    rw [hticks] at heq
    generalize e / 1000 * 100000000 / 2 ^ 64 = q at *
    generalize e / 1000 * 100000000 % 2 ^ 64 = r at *
    rw [← hdiv] at heq
    have hle : r / 1000000000 ≤ (q * 2 ^ 64 + r) / 1000000000 :=
      Nat.div_le_div_right (Nat.le_add_left _ _)
    obtain ⟨m, hm⟩ := (Nat.modEq_iff_dvd' hle).mp heq
    have hsum : (q * 2 ^ 64 + r) / 1000000000 = r / 1000000000 + m * 4294967296 := by
      rw [Nat.mul_comm m]
      exact (Nat.sub_eq_iff_eq_add' hle).mp hm
    exact absurd (multiple_ge hq (multiple_of_quotients hsum)) (Nat.not_lt.mpr hlarge)
  · intro hrange
    have hfits : e / 1000 * 100000000 < 2 ^ 64 := by omega
    rw [Nat.mod_eq_of_lt hfits, hticks]

theorem readValue_eq_iff (h : d.lastPeriod ≤ now) :
    d.readValue now = BitVec.ofNat 32 (d.ticksAt now) ↔ d.InRange now := by
  have hlt : now.toNat - d.lastPeriod.toNat < 2 ^ 64 := Nat.lt_of_le_of_lt (Nat.sub_le _ _) now.isLt
  rw [← BitVec.toNat_inj, readValue_toNat h, BitVec.toNat_ofNat]
  exact value_eq_iff hlt

/-- An earlier time is in range too. -/
theorem InRange.of_le {t : BitVec 64} (h : d.InRange now) (ht : t ≤ now) : d.InRange t := by
  have hle := BitVec.le_def.mp ht
  exact Nat.lt_of_le_of_lt (Nat.div_le_div_right (Nat.sub_le_sub_right hle _)) h

/-- **Up to when the value is right**, for every start and every time behind it. -/
theorem valueRight_iff (h : d.lastPeriod ≤ now) : d.ValueRight now ↔ d.InRange now := by
  refine ⟨fun hright => (readValue_eq_iff h).mp hright.ticks, fun hrange => ?_⟩
  have hticks := (readValue_eq_iff h).mpr hrange
  refine ⟨hticks, fun t hlast ht hepoch => ?_⟩
  rw [hticks, (readValue_eq_iff hlast).mpr (hrange.of_le ht), BitVec.toNat_ofNat, BitVec.toNat_ofNat]
  have hle : d.ticksAt t ≤ d.ticksAt now :=
    Nat.div_le_div_right (Nat.sub_le_sub_right (BitVec.le_def.mp ht) _)
  omega

/-- A start at 5 ns, read at 1 s. -/
theorem valueRight_second : ValueRight { new with lastPeriod := 5000#64 } 1000000000000#64 :=
  (valueRight_iff (by decide)).mpr (by decide)

/-- Behind 184467440738 ns the value is 0: it was larger 1 ns before. -/
theorem value_fails : ¬ ValueRight new 184467440738000#64 ∧
    new.readValue 184467440738000#64 = 0#32 ∧
    new.readValue 184467440737000#64 = 1266874889#32 := by
  refine ⟨fun hright => ?_, by decide, by decide⟩
  exact absurd ((readValue_eq_iff (by decide)).mp hright.ticks) (by decide)

end SlTimer

end Rabbits
