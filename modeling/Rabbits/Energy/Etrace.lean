/-
  File:      Rabbits/Energy/Etrace.lean
  Subject:   The energy samples (etrace_if.cpp: sample_new, __r_update_samples, get_sample,
             etrace_if_mode_change).

  A mode change adds the energy spent since the last change to every sample it reaches, making
  samples ahead of the sampler where there are none; `get_sample` adds what is left up to its own
  time.

  * `rUpdateSamples`, `getSample`, `etraceIfModeChange` -- the three functions;
  * `Accounts` -- what the list of samples holds of one peripheral: each sample the energy up to
    the last change, and marked where the last change lies behind its begin;
  * `rUpdateSamples_accounts` -- a change brings every sample up to its stamp;
  * `getSample_exact` -- every sample taken holds the exact integral over its period.

  Energies and differences of stamps are taken modulo 2^64. The one sum of stamps, in `sample_new`,
  is not: the runs make no call with a stamp for which it would wrap.
-/
import Mathlib.Algebra.Group.Action.Defs
import Mathlib.Data.List.FinRange
import Rabbits.Lib.Machine
import Rabbits.Lib.Timeline
import Rabbits.Noc.Vci

namespace Rabbits

open Lib

/-! ## 1. The model -/

abbrev MAX_PERIPHERALS : Nat := 20

/-- A `uint64_t`. -/
def w64 (x : Nat) : Nat := x % 2 ^ 64

/-- The difference of two `uint64_t`. -/
def sub64 (x y : Nat) : Nat := (x + 2 ^ 64 - y) % 2 ^ 64

/-- What the accounting reads of a `periph_class_t`. -/
structure PeriphClass where
  nmodes : Nat
  nfvsets : Nat
  modeCost : Nat → Nat

/-- `periph_t`. -/
structure Periph where
  pclass : PeriphClass
  idx : Fin MAX_PERIPHERALS
  lastChangeStamp : Nat
  currMode : Nat
  currFvset : Nat

/-- `per_en_t`. -/
structure PerEn where
  processed : Bool
  energy : Nat

/-- `sample_t`, whose `next` is the rest of the list it stands in. -/
structure Sample where
  timeStamp : Nat
  perCosts : Fin MAX_PERIPHERALS → PerEn

/-- `scope_state_t`. -/
structure ScopeState (n : Nat) where
  samplePeriod : Nat
  period_pos : 0 < samplePeriod
  samples : List Sample
  lastMeasureStamp : Nat
  periphs : Fin n → Periph

/-- The cost of the current mode. -/
def Periph.currCost (per : Periph) : Nat :=
  per.pclass.modeCost (per.pclass.nmodes * per.currFvset + per.currMode)

/-- `sample_new`. -/
def sampleNew (period prevStamp : Nat) : Sample := ⟨prevStamp + period, fun _ => ⟨false, 0⟩⟩

def Sample.setCost (s : Sample) (idx : Fin MAX_PERIPHERALS) (e : PerEn) : Sample :=
  { s with perCosts := Function.update s.perCosts idx e }

@[simp] theorem Sample.timeStamp_setCost (s : Sample) (idx : Fin MAX_PERIPHERALS) (e : PerEn) :
    (s.setCost idx e).timeStamp = s.timeStamp := rfl

@[simp] theorem Sample.setCost_self (s : Sample) (idx : Fin MAX_PERIPHERALS) (e : PerEn) :
    (s.setCost idx e).perCosts idx = e := Function.update_self _ _ _

@[simp] theorem Sample.setCost_of_ne {i idx : Fin MAX_PERIPHERALS} (h : i ≠ idx) (s : Sample)
    (e : PerEn) : (s.setCost idx e).perCosts i = s.perCosts i := Function.update_of_ne h _ _

/-- `__r_update_samples`. -/
def rUpdateSamples (period : Nat) (hp : 0 < period) (per : Periph) (time : Nat)
    (samples : List Sample) (lastTime : Nat) : List Sample :=
  if lastTime < time then
    let sample := samples.headD (sampleNew period lastTime)
    let cost := sample.perCosts per.idx
    if sample.timeStamp < per.lastChangeStamp then
      sample.setCost per.idx { cost with processed := true } ::
        rUpdateSamples period hp per time samples.tail sample.timeStamp
    else
      let beginStamp := if lastTime < per.lastChangeStamp then per.lastChangeStamp else lastTime
      let endStamp := if sample.timeStamp < time then sample.timeStamp else time
      sample.setCost per.idx
          ⟨true, w64 (cost.energy + w64 (sub64 endStamp beginStamp * per.currCost))⟩ ::
        if sample.timeStamp < time then
          rUpdateSamples period hp per time samples.tail sample.timeStamp
        else samples.tail
  else samples
termination_by (samples.length, time - lastTime)
decreasing_by
  all_goals
    cases samples with
    | nil => exact Prod.Lex.right _ (by simp only [List.headD_nil, sampleNew]; omega)
    | cons s next => exact Prod.Lex.left _ _ (by simp)

variable {n : Nat}

/-- `update_samples`. -/
def ScopeState.updateSamples (scope : ScopeState n) (per : Periph) (timeStamp : Nat) :
    ScopeState n :=
  { scope with
    samples := rUpdateSamples scope.samplePeriod scope.period_pos per timeStamp scope.samples
      scope.lastMeasureStamp }

/-- The body of the loop of `get_sample`: what is left of the sample for one peripheral. -/
def Periph.complete (per : Periph) (period time : Nat) (e : PerEn) : PerEn :=
  let updateEn :=
    if sub64 time per.lastChangeStamp < period then
      w64 (per.currCost * sub64 time per.lastChangeStamp)
    else if !e.processed then w64 (per.currCost * period)
    else 0
  { e with energy := w64 (e.energy + updateEn) }

/-- The loop of `get_sample` over the peripherals. -/
def ScopeState.completeAll (scope : ScopeState n) (time : Nat) (samp : Sample) : Sample :=
  (List.finRange n).foldl (fun samp p =>
    let per := scope.periphs p
    samp.setCost per.idx (per.complete scope.samplePeriod time (samp.perCosts per.idx))) samp

/-- `get_sample`; `none` is the null pointer. -/
def getSample (scope : ScopeState n) (time : Nat) : Option (Sample × ScopeState n) :=
  let samp := scope.samples.headD (sampleNew scope.samplePeriod scope.lastMeasureStamp)
  if samp.timeStamp ≠ time then none
  else
    some (scope.completeAll time samp,
      { scope with samples := scope.samples.tail, lastMeasureStamp := samp.timeStamp })

/-- `mode & 0x1F`. -/
def newMode (mode : ULong) : Nat := (mode &&& 0x1F#32).toNat

/-- `(mode >> 5) & 0x07`. -/
def newFvset (mode : ULong) : Nat := ((mode >>> 5) &&& 0x07#32).toNat

/-- `etrace_if_mode_change`. The three rejections print a message and change nothing. -/
def etraceIfModeChange (scope : ScopeState n) (p : Fin n) (mode : ULong) (timeStamp : Nat) :
    ScopeState n :=
  let per := scope.periphs p
  if per.pclass.nmodes ≤ newMode mode then scope
  else if per.pclass.nfvsets ≤ newFvset mode then scope
  else if timeStamp < per.lastChangeStamp then scope
  else
    let scope := if per.lastChangeStamp < timeStamp then scope.updateSamples per timeStamp else scope
    { scope with
      periphs := Function.update scope.periphs p
        { per with
          currMode := newMode mode
          currFvset := newFvset mode
          lastChangeStamp := timeStamp } }

/-! ## 2. Runs -/

/-- The peripherals as they are set up: classes, distinct indices, the period. -/
structure EtraceSetup (n : Nat) where
  pclass : Fin n → PeriphClass
  idx : Fin n → Fin MAX_PERIPHERALS
  idx_injective : Function.Injective idx
  period : Nat
  period_pos : 0 < period
  period_lt : period < 2 ^ 64

/-- The cost of a mode of a peripheral. -/
def EtraceSetup.costOf (setup : EtraceSetup n) (p : Fin n) (mode : ULong) : Nat :=
  (setup.pclass p).modeCost ((setup.pclass p).nmodes * newFvset mode + newMode mode)

/-- The mode exists in the class of the peripheral. -/
def EtraceSetup.ValidMode (setup : EtraceSetup n) (p : Fin n) (mode : ULong) : Prop :=
  newMode mode < (setup.pclass p).nmodes ∧ newFvset mode < (setup.pclass p).nfvsets

/-- The scope, the mode changes made so far (stamp and cost of the new mode), and the samples
    taken. -/
structure EtraceRun (n : Nat) where
  scope : ScopeState n
  history : Fin n → List (Nat × Nat)
  taken : List Sample

def EtraceRun.start (setup : EtraceSetup n) : EtraceRun n where
  scope :=
    { samplePeriod := setup.period
      period_pos := setup.period_pos
      samples := []
      lastMeasureStamp := 0
      periphs := fun p => ⟨setup.pclass p, setup.idx p, 0, 0, 0⟩ }
  history _ := []
  taken := []

/-- The cost of the mode a peripheral starts in. -/
def EtraceSetup.startCost (setup : EtraceSetup n) (p : Fin n) : Nat :=
  setup.costOf p 0#32

/-- A mode change with any stamp from the peripheral's last change and from the last measured stamp
    on, or the next sample. -/
inductive EtraceStep (setup : EtraceSetup n) (s : EtraceRun n) : EtraceRun n → Prop where
  | modeChange (p : Fin n) (mode : ULong) (timeStamp : Nat) (hmode : setup.ValidMode p mode)
      (hlast : (s.scope.periphs p).lastChangeStamp ≤ timeStamp)
      (hmeasured : s.scope.lastMeasureStamp ≤ timeStamp)
      (hwrap : timeStamp + setup.period ≤ 2 ^ 64) :
      EtraceStep setup s
        { s with
          scope := etraceIfModeChange s.scope p mode timeStamp
          history := Function.update s.history p
            (s.history p ++ [(timeStamp, setup.costOf p mode)]) }
  | sample {samp : Sample} {scope : ScopeState n}
      (hwrap : (s.taken.length + 1) * setup.period < 2 ^ 64)
      (h : getSample s.scope ((s.taken.length + 1) * setup.period) = some (samp, scope)) :
      EtraceStep setup s { s with scope := scope, taken := s.taken ++ [samp] }

def etraceMachine (setup : EtraceSetup n) : Machine (EtraceRun n) where
  init s := s = .start setup
  step := EtraceStep setup

/-! ## 3. What a list of samples holds of one peripheral -/

theorem w64_add_w64 (x y : Nat) : w64 (w64 x + w64 y) = w64 (x + y) := (Nat.add_mod x y _).symm

theorem w64_w64 (x : Nat) : w64 (w64 x) = w64 x := Nat.mod_mod x _

theorem sub64_of_le {x y : Nat} (h : y ≤ x) (hx : x < 2 ^ 64) : sub64 x y = x - y := by
  unfold sub64
  omega

section Accounts

variable {period : Nat} {idx : Fin MAX_PERIPHERALS} {init : Nat} {hist : List (Nat × Nat)}

/-- The entry of the sample of `[a, b)`: the energy up to the last change, and whether the last
    change lies behind `a`. -/
structure Accounted (init : Nat) (hist : List (Nat × Nat)) (a b : Nat) (e : PerEn) : Prop where
  processed : e.processed = decide (a < lastStamp hist)
  energy : e.energy = w64 (integral init hist a (min b (lastStamp hist)))

/-- The samples of the periods from `a` on, as far as the last change. -/
inductive Accounts (period : Nat) (idx : Fin MAX_PERIPHERALS) (init : Nat)
    (hist : List (Nat × Nat)) : Nat → List Sample → Prop where
  | nil {a : Nat} (h : lastStamp hist ≤ a) : Accounts period idx init hist a []
  | cons {a : Nat} {s : Sample} {next : List Sample} (hstamp : s.timeStamp = a + period)
      (he : Accounted init hist a (a + period) (s.perCosts idx))
      (h : Accounts period idx init hist (a + period) next) :
      Accounts period idx init hist a (s :: next)

/-- A sample that is made at the end of the list is right as it is. -/
theorem accounted_new {a b : Nat} (h : lastStamp hist ≤ a) : Accounted init hist a b ⟨false, 0⟩ where
  processed := by simpa using h
  energy := by
    rw [integral_of_le (Nat.le_trans (Nat.min_le_right b _) h)]
    rfl

/-- The head of the list, or the sample made in its place, and the rest. -/
theorem Accounts.headD {a : Nat} {samples : List Sample}
    (h : Accounts period idx init hist a samples) :
    (samples.headD (sampleNew period a)).timeStamp = a + period ∧
      Accounted init hist a (a + period) ((samples.headD (sampleNew period a)).perCosts idx) ∧
      Accounts period idx init hist (a + period) samples.tail := by
  cases h with
  | nil h => exact ⟨rfl, accounted_new h, .nil (Nat.le_add_right_of_le h)⟩
  | cons hstamp he h => exact ⟨hstamp, he, h⟩

/-- A change that lies before `a`, or repeats the last stamp, leaves the entries right. -/
theorem Accounts.append_of_le {a t v : Nat} {samples : List Sample}
    (h : Accounts period idx init hist a samples)
    (ht : lastStamp hist = t ∨ lastStamp hist < t ∧ t ≤ a) :
    Accounts period idx init (hist ++ [(t, v)]) a samples := by
  induction h with
  | nil h => exact .nil (by rw [lastStamp_append]; omega)
  | @cons a s next hstamp he h ih =>
      refine .cons hstamp ⟨?_, ?_⟩ (ih (by omega))
      · rw [he.processed, lastStamp_append]
        congr 1
        exact propext (by omega)
      · rw [he.energy, lastStamp_append, integral_append (Nat.min_le_right _ t)]
        rcases ht with rfl | ⟨hlt, hta⟩
        · rfl
        · rw [integral_of_le (by omega), integral_of_le (by omega)]

/-- **A mode change brings every sample up to its stamp.** -/
theorem rUpdateSamples_accounts {hp : 0 < period} {per : Periph} {t v : Nat}
    (hlast : per.lastChangeStamp = lastStamp hist) (hcost : per.currCost = lastValue init hist)
    (hord : ∀ c ∈ hist, c.1 ≤ lastStamp hist) (hlt : lastStamp hist < t) (ht : t < 2 ^ 64)
    (samples : List Sample) (a : Nat) (h : Accounts period per.idx init hist a samples) :
    Accounts period per.idx init (hist ++ [(t, v)]) a
      (rUpdateSamples period hp per t samples a) := by
  fun_induction rUpdateSamples period hp per t samples a with
  | case1 samples a hat sample cost hdone ih =>
      -- the sample ends before the last change: its energy is there already
      obtain ⟨hstamp, he, htail⟩ := h.headD
      rw [hstamp, hlast] at hdone
      refine .cons hstamp ⟨?_, ?_⟩ (hstamp ▸ ih (hstamp ▸ htail))
      · simp [hat]
      · have h1 : min (a + period) t = a + period := by omega
        have h2 : min (a + period) (lastStamp hist) = a + period := by omega
        simp only [Sample.setCost_self, lastStamp_append, h1]
        rw [integral_append (by omega), he.energy, h2]
  | case2 samples a hat sample cost hdone beginStamp endStamp ih =>
      obtain ⟨hstamp, he, htail⟩ := h.headD
      rw [hstamp, hlast] at hdone
      have hb : beginStamp = max a (lastStamp hist) := by
        simp only [beginStamp, hlast]
        split <;> omega
      have hend : endStamp = min (a + period) t := by
        simp only [endStamp, sample, hstamp]
        split <;> omega
      refine .cons hstamp ⟨?_, ?_⟩ ?_
      · simp [hat]
      · have hsub : sub64 endStamp beginStamp = endStamp - beginStamp :=
          sub64_of_le (by omega) (by omega)
        have hext := integral_extend init v hord hlt hat
          (Nat.le_add_right a period) (Nat.le_of_not_lt hdone)
        simp only [Sample.setCost_self, lastStamp_append]
        rw [he.energy, w64_add_w64, hsub, hext, hb, hend, hcost, smul_eq_mul]
      · split
        · next hnt => exact hstamp ▸ ih hnt (hstamp ▸ htail)
        · next hnt =>
            rw [hstamp] at hnt
            exact htail.append_of_le (.inr ⟨hlt, by omega⟩)
  | case3 samples a hat => exact h.append_of_le (.inr ⟨hlt, by omega⟩)

/-- A mode change of one peripheral leaves the entries of the others right. -/
theorem rUpdateSamples_other {hp : 0 < period} {per : Periph} {t : Nat} (hne : idx ≠ per.idx)
    (samples : List Sample) (a : Nat) (h : Accounts period idx init hist a samples) :
    Accounts period idx init hist a (rUpdateSamples period hp per t samples a) := by
  fun_induction rUpdateSamples period hp per t samples a with
  | case1 samples a hat sample cost hdone ih =>
      obtain ⟨hstamp, he, htail⟩ := h.headD
      refine .cons hstamp ?_ (hstamp ▸ ih (hstamp ▸ htail))
      rw [Sample.setCost_of_ne hne]
      exact he
  | case2 samples a hat sample cost hdone beginStamp endStamp ih =>
      obtain ⟨hstamp, he, htail⟩ := h.headD
      refine .cons hstamp ?_ ?_
      · rw [Sample.setCost_of_ne hne]
        exact he
      · split
        · next hnt => exact hstamp ▸ ih hnt (hstamp ▸ htail)
        · exact htail
  | case3 samples a hat => exact h

/-- **`get_sample` completes an entry**: to the integral over its whole period. -/
theorem complete_energy {per : Periph} {a : Nat} {e : PerEn}
    (hlast : per.lastChangeStamp = lastStamp hist) (hcost : per.currCost = lastValue init hist)
    (hord : ∀ c ∈ hist, c.1 ≤ lastStamp hist) (hwrap : lastStamp hist + period ≤ 2 ^ 64)
    (hend : a + period < 2 ^ 64) (he : Accounted init hist a (a + period) e) :
    (per.complete period (a + period) e).energy = w64 (integral init hist a (a + period)) := by
  simp only [Periph.complete, hlast, hcost, he.energy, he.processed]
  rcases Nat.lt_or_ge (a + period) (lastStamp hist) with hahead | hbehind
  · -- the last change lies ahead: the entry is complete, and the difference of stamps wraps
    have hsub : ¬ sub64 (a + period) (lastStamp hist) < period := by
      unfold sub64
      omega
    have hal : a < lastStamp hist := by omega
    have hmin : min (a + period) (lastStamp hist) = a + period := by omega
    rw [if_neg hsub, hmin]
    simp [hal, w64_w64]
  · rw [Nat.min_eq_right hbehind, sub64_of_le hbehind hend]
    rcases Nat.lt_or_ge a (lastStamp hist) with hin | hbefore
    · have hlt : a + period - lastStamp hist < period := by omega
      have hq : integral init hist (lastStamp hist) (a + period) =
          (a + period - lastStamp hist) • lastValue init hist := integral_of_quiet hord
      rw [if_pos hlt, w64_add_w64, ← integral_add (Nat.le_of_lt hin) hbehind, hq, smul_eq_mul,
        Nat.mul_comm]
    · have hge : ¬ a + period - lastStamp hist < period := by omega
      have hnot : ¬ a < lastStamp hist := Nat.not_lt.mpr hbefore
      have hq : integral init hist a (a + period) = (a + period - a) • lastValue init hist :=
        integral_of_quiet fun c hc => (hord c hc).trans hbefore
      rw [if_neg hge, decide_eq_false hnot, Bool.not_false, if_pos rfl, w64_add_w64,
        integral_of_le hbefore, hq, smul_eq_mul, Nat.add_sub_cancel_left, Nat.zero_add, Nat.mul_comm]

end Accounts

/-- The loop over the peripherals completes each entry by itself. -/
theorem foldl_setCost {idx : Fin n → Fin MAX_PERIPHERALS} (hinj : Function.Injective idx)
    (f : Fin n → PerEn → PerEn) {l : List (Fin n)} (hnd : l.Nodup) (s : Sample) :
    let s' := l.foldl (fun s p => s.setCost (idx p) (f p (s.perCosts (idx p)))) s
    s'.timeStamp = s.timeStamp ∧
      ∀ p, s'.perCosts (idx p) = if p ∈ l then f p (s.perCosts (idx p)) else s.perCosts (idx p) := by
  induction l generalizing s with
  | nil => simp
  | cons q l ih =>
      obtain ⟨hq, hl⟩ := List.nodup_cons.mp hnd
      obtain ⟨hstamp, hcosts⟩ := ih hl (s.setCost (idx q) (f q (s.perCosts (idx q))))
      refine ⟨hstamp, fun p => ?_⟩
      rw [List.foldl_cons, hcosts p]
      by_cases hpq : p = q
      · subst hpq
        simp [hq]
      · have hne : idx p ≠ idx q := hinj.ne hpq
        simp [hpq, hne]

/-! ## 4. Runs -/

/-- The scope against the mode changes made so far. -/
structure EtraceInv (setup : EtraceSetup n) (s : EtraceRun n) : Prop where
  period : s.scope.samplePeriod = setup.period
  measured : s.scope.lastMeasureStamp = s.taken.length * setup.period
  pclass : ∀ p, (s.scope.periphs p).pclass = setup.pclass p
  idx : ∀ p, (s.scope.periphs p).idx = setup.idx p
  last : ∀ p, (s.scope.periphs p).lastChangeStamp = lastStamp (s.history p)
  cost : ∀ p, (s.scope.periphs p).currCost = lastValue (setup.startCost p) (s.history p)
  ordered : ∀ p, ∀ c ∈ s.history p, c.1 ≤ lastStamp (s.history p)
  noWrap : ∀ p, lastStamp (s.history p) + setup.period ≤ 2 ^ 64
  accounts : ∀ p, Accounts setup.period (setup.idx p) (setup.startCost p) (s.history p)
    s.scope.lastMeasureStamp s.scope.samples
  bare : n = 0 → s.scope.samples = []
  taken : ∀ k samp, s.taken[k]? = some samp → ∀ p, (samp.perCosts (setup.idx p)).energy =
    w64 (integral (setup.startCost p) (s.history p) (k * setup.period) ((k + 1) * setup.period))

theorem etraceInv_start (setup : EtraceSetup n) : EtraceInv setup (.start setup) where
  period := rfl
  measured := by simp [EtraceRun.start]
  pclass _ := rfl
  idx _ := rfl
  last _ := rfl
  cost p := by simp [EtraceRun.start, Periph.currCost, EtraceSetup.startCost, EtraceSetup.costOf,
    newMode, newFvset, lastValue]
  ordered p c hc := by cases hc
  noWrap p := by
    have h := setup.period_lt
    show 0 + setup.period ≤ 2 ^ 64
    omega
  accounts p := .nil (Nat.le_refl 0)
  bare _ := rfl
  taken k samp h := by cases h

/-- An accepted mode change, written out. -/
theorem etraceIfModeChange_valid {setup : EtraceSetup n} {s : EtraceRun n} {p : Fin n}
    {mode : ULong} {t : Nat} (h : EtraceInv setup s) (hmode : setup.ValidMode p mode)
    (hlast : lastStamp (s.history p) ≤ t) :
    etraceIfModeChange s.scope p mode t =
      { s.scope with
        samples :=
          if lastStamp (s.history p) < t then
            rUpdateSamples s.scope.samplePeriod s.scope.period_pos (s.scope.periphs p) t
              s.scope.samples s.scope.lastMeasureStamp
          else s.scope.samples
        periphs := Function.update s.scope.periphs p
          { s.scope.periphs p with
            currMode := newMode mode
            currFvset := newFvset mode
            lastChangeStamp := t } } := by
  obtain ⟨hm, hf⟩ := hmode
  rw [← h.pclass p] at hm hf
  have hl := h.last p
  simp only [etraceIfModeChange, Nat.not_le.mpr hm, Nat.not_le.mpr hf, hl, Nat.not_lt.mpr hlast,
    if_false]
  by_cases hlt : lastStamp (s.history p) < t <;> simp [hlt, ScopeState.updateSamples]

/-- The samples account for one more change, of the peripheral `p`. -/
theorem EtraceInv.accounts_change {setup : EtraceSetup n} {s : EtraceRun n} (h : EtraceInv setup s)
    (p : Fin n) (v : Nat) {t : Nat} (hlast : lastStamp (s.history p) ≤ t) (ht : t < 2 ^ 64)
    (q : Fin n) :
    Accounts setup.period (setup.idx q) (setup.startCost q)
      (Function.update s.history p (s.history p ++ [(t, v)]) q) s.scope.lastMeasureStamp
      (if lastStamp (s.history p) < t then
        rUpdateSamples s.scope.samplePeriod s.scope.period_pos (s.scope.periphs p) t
          s.scope.samples s.scope.lastMeasureStamp
      else s.scope.samples) := by
  have hacc := h.accounts q
  by_cases hq : q = p
  · subst hq
    rw [Function.update_self]
    split
    · next hlt =>
        rw [← h.idx q, ← h.period] at hacc ⊢
        exact rUpdateSamples_accounts (h.last q) (h.cost q) (h.ordered q) hlt ht _ _ hacc
    · exact hacc.append_of_le (.inl (by omega))
  · rw [Function.update_of_ne hq]
    split
    · have hne : setup.idx q ≠ (s.scope.periphs p).idx := by
        rw [h.idx p]
        exact setup.idx_injective.ne hq
      rw [← h.period] at hacc ⊢
      exact rUpdateSamples_other hne _ _ hacc
    · exact hacc

/-- A change behind the samples taken leaves their energies right. -/
theorem EtraceInv.taken_change {setup : EtraceSetup n} {s : EtraceRun n} (h : EtraceInv setup s)
    (p : Fin n) (v : Nat) {t : Nat} (hmeasured : s.scope.lastMeasureStamp ≤ t) (k : Nat)
    (samp : Sample) (hk : s.taken[k]? = some samp) (q : Fin n) :
    (samp.perCosts (setup.idx q)).energy =
      w64 (integral (setup.startCost q) (Function.update s.history p (s.history p ++ [(t, v)]) q)
        (k * setup.period) ((k + 1) * setup.period)) := by
  have ht := h.taken k samp hk q
  by_cases hq : q = p
  · subst hq
    obtain ⟨hlen, -⟩ := List.getElem?_eq_some_iff.mp hk
    have hle : (k + 1) * setup.period ≤ t := by
      refine (Nat.mul_le_mul_right _ hlen).trans ?_
      rw [← h.measured]
      exact hmeasured
    rw [Function.update_self, integral_append hle]
    exact ht
  · rw [Function.update_of_ne hq]
    exact ht

theorem EtraceInv.modeChange {setup : EtraceSetup n} {s : EtraceRun n} (h : EtraceInv setup s)
    (p : Fin n) (mode : ULong) (t : Nat) (hmode : setup.ValidMode p mode)
    (hlast : (s.scope.periphs p).lastChangeStamp ≤ t) (hmeasured : s.scope.lastMeasureStamp ≤ t)
    (hwrap : t + setup.period ≤ 2 ^ 64) :
    EtraceInv setup
      { s with
        scope := etraceIfModeChange s.scope p mode t
        history := Function.update s.history p (s.history p ++ [(t, setup.costOf p mode)]) } := by
  rw [h.last p] at hlast
  rw [etraceIfModeChange_valid h hmode hlast]
  have hpos := setup.period_pos
  have hother {q : Fin n} (hq : q ≠ p) {β : Type} (f : Fin n → β) (b : β) :
      Function.update f p b q = f q := Function.update_of_ne hq _ _
  constructor
  · exact h.period
  · exact h.measured
  · intro q
    by_cases hq : q = p
    · subst hq; simpa using h.pclass q
    · simpa [hq] using h.pclass q
  · intro q
    by_cases hq : q = p
    · subst hq; simpa using h.idx q
    · simpa [hq] using h.idx q
  · intro q
    by_cases hq : q = p
    · subst hq; simp
    · simpa [hq] using h.last q
  · intro q
    by_cases hq : q = p
    · subst hq
      simp [Periph.currCost, EtraceSetup.costOf, h.pclass q]
    · simpa [hq] using h.cost q
  · intro q c hc
    by_cases hq : q = p
    · subst hq
      simp only [Function.update_self, lastStamp_append, List.mem_append, List.mem_singleton] at hc ⊢
      rcases hc with hc | rfl
      · exact (h.ordered q c hc).trans hlast
      · exact Nat.le_refl _
    · simp only [hother hq] at hc ⊢
      exact h.ordered q c hc
  · intro q
    by_cases hq : q = p
    · subst hq; simpa using hwrap
    · simpa [hq] using h.noWrap q
  · exact h.accounts_change p _ hlast (by omega)
  · intro heq
    subst heq
    exact p.elim0
  · exact h.taken_change p _ hmeasured

/-- The sample at the head of the list, or the one made in its place, ends with the period. -/
theorem EtraceInv.head_timeStamp {setup : EtraceSetup n} {s : EtraceRun n} (h : EtraceInv setup s) :
    (s.scope.samples.headD (sampleNew setup.period s.scope.lastMeasureStamp)).timeStamp =
      (s.taken.length + 1) * setup.period := by
  rw [Nat.succ_mul, ← h.measured]
  rcases Nat.eq_zero_or_pos n with hn | hn
  · rw [h.bare hn]
    rfl
  · exact (h.accounts ⟨0, hn⟩).headD.1

/-- `get_sample` at the end of the current period finds or makes the sample of that period, and
    completes it. -/
theorem getSample_spec {setup : EtraceSetup n} {s : EtraceRun n} (h : EtraceInv setup s)
    (hwrap : (s.taken.length + 1) * setup.period < 2 ^ 64) :
    ∃ samp, getSample s.scope ((s.taken.length + 1) * setup.period) =
        some (samp, { s.scope with
          samples := s.scope.samples.tail
          lastMeasureStamp := (s.taken.length + 1) * setup.period }) ∧
      ∀ p, (samp.perCosts (setup.idx p)).energy = w64 (integral (setup.startCost p) (s.history p)
        (s.taken.length * setup.period) ((s.taken.length + 1) * setup.period)) := by
  have hstamp := h.head_timeStamp
  generalize hsamp : s.scope.samples.headD (sampleNew setup.period s.scope.lastMeasureStamp) = samp
    at hstamp
  refine ⟨s.scope.completeAll ((s.taken.length + 1) * setup.period) samp, ?_, fun p => ?_⟩
  · simp only [getSample, h.period, hsamp, hstamp, ne_eq, not_true_eq_false, if_false]
  · have hnext : (s.taken.length + 1) * setup.period =
        s.taken.length * setup.period + setup.period := Nat.succ_mul _ _
    have he := (h.accounts p).headD.2.1
    have hcosts := (foldl_setCost setup.idx_injective
      (fun p => (s.scope.periphs p).complete setup.period ((s.taken.length + 1) * setup.period))
      (List.nodup_finRange n) samp).2 p
    rw [h.measured] at he hsamp
    simp only [ScopeState.completeAll, h.period, h.idx]
    rw [hsamp] at he
    rw [hcosts, if_pos (List.mem_finRange p), hnext]
    exact complete_energy (h.last p) (h.cost p) (h.ordered p) (h.noWrap p) (hnext ▸ hwrap) he

theorem EtraceInv.sample {setup : EtraceSetup n} {s : EtraceRun n} (h : EtraceInv setup s)
    {samp : Sample} {scope : ScopeState n} (hwrap : (s.taken.length + 1) * setup.period < 2 ^ 64)
    (hg : getSample s.scope ((s.taken.length + 1) * setup.period) = some (samp, scope)) :
    EtraceInv setup { s with scope := scope, taken := s.taken ++ [samp] } := by
  obtain ⟨samp', hg', henergy⟩ := getSample_spec h hwrap
  rw [hg', Option.some.injEq, Prod.mk.injEq] at hg
  obtain ⟨rfl, rfl⟩ := hg
  constructor
  · exact h.period
  · simp
  · exact h.pclass
  · exact h.idx
  · exact h.last
  · exact h.cost
  · exact h.ordered
  · exact h.noWrap
  · intro p
    have htail := (h.accounts p).headD.2.2
    rwa [h.measured, ← Nat.succ_mul] at htail
  · intro hn
    simp [h.bare hn]
  · intro k samp hk p
    rcases Nat.lt_trichotomy k s.taken.length with hlt | rfl | hgt
    · rw [List.getElem?_append_left hlt] at hk
      exact h.taken k samp hk p
    · rw [List.getElem?_concat_length, Option.some.injEq] at hk
      subst hk
      exact henergy p
    · rw [List.getElem?_eq_none (by simpa using hgt)] at hk
      cases hk

theorem etraceInv_reach {setup : EtraceSetup n} {s : EtraceRun n}
    (h : (etraceMachine setup).Reach s) : EtraceInv setup s := by
  refine h.invariant (I := EtraceInv setup) ?_ ?_
  · intro s heq
    subst heq
    exact etraceInv_start setup
  · intro s s' _ hi hs
    cases hs with
    | modeChange p mode t hmode hlast hmeasured hwrap =>
        exact hi.modeChange p mode t hmode hlast hmeasured hwrap
    | sample hwrap hg => exact hi.sample hwrap hg

/-- **The energy samples are exact.** In every reachable state the next `get_sample` finds its
    sample, and each sample taken holds, for each peripheral, the integral of the cost of its modes
    over the sample's period, wherever that fits 64 bits. -/
theorem getSample_exact {setup : EtraceSetup n} {s : EtraceRun n}
    (h : (etraceMachine setup).Reach s) :
    ((s.taken.length + 1) * setup.period < 2 ^ 64 →
        getSample s.scope ((s.taken.length + 1) * setup.period) ≠ none) ∧
      ∀ k samp, s.taken[k]? = some samp → ∀ p,
        integral (setup.startCost p) (s.history p) (k * setup.period) ((k + 1) * setup.period) <
          2 ^ 64 →
        (samp.perCosts (setup.idx p)).energy =
          integral (setup.startCost p) (s.history p) (k * setup.period) ((k + 1) * setup.period) := by
  have hi := etraceInv_reach h
  refine ⟨fun hwrap => ?_, fun k samp hk p hfit => ?_⟩
  · obtain ⟨samp, hg, -⟩ := getSample_spec hi hwrap
    rw [hg]
    exact Option.some_ne_none _
  · rw [hi.taken k samp hk p]
    exact Nat.mod_eq_of_lt hfit

/-- One peripheral with two modes, of cost 1 and 2, and a period of 10. -/
def twoModes : EtraceSetup 1 where
  pclass _ := ⟨2, 1, fun i => i + 1⟩
  idx _ := 0
  idx_injective _ _ _ := Subsingleton.elim _ _
  period := 10
  period_pos := by decide
  period_lt := by decide

/-- The peripheral changes its mode at 25, ahead of the sampler; the first sample holds 10 units at
    cost 1. -/
theorem getSample_exact_ahead :
    ∃ s samp, (etraceMachine twoModes).Reach s ∧ s.history 0 = [(25, 2)] ∧
      s.taken[0]? = some samp ∧ (samp.perCosts 0).energy = 10 := by
  have h0 : (etraceMachine twoModes).Reach (.start twoModes) := .start rfl
  have h1 := h0.step (.modeChange 0 1#32 25 ⟨by decide, by decide⟩ (by decide) (by decide)
    (by decide))
  obtain ⟨samp, hg, -⟩ := getSample_spec (etraceInv_reach h1) (by decide)
  have h2 := h1.step (.sample (by decide) hg)
  have hten : integral 1 [(25, 2)] 0 10 = 10 := by decide
  refine ⟨_, samp, h2, rfl, rfl, ?_⟩
  exact ((getSample_exact h2).2 0 samp rfl 0 (hten.trans_lt (by decide))).trans hten

end Rabbits
