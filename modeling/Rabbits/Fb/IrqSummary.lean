/-
  File:      Rabbits/Fb/IrqSummary.lean
  Subject:   The interrupt line of the framebuffer and its summary bit (framebuffer_device.cpp:
             irq_update_thread, display_thread, fb_device_slave::write).

  CTRL, `m_irqstat`, the line and a pending notification of `m_ev_irq_update` are all that decides
  the interrupt. FB_IRQ_GLOBAL, in `m_irqstat` itself, is meant to say what the line is.

  * `FbIrq` -- these values, with `setCtrl`, `clear`, `complete`, `update`;
  * `irq_next` -- **what every step of the device does to them**;
  * `line_right` -- in every run, the line is right once all updates have been served;
  * `irqRight_iff` -- **the line and the summary bit are**, exactly if no update is served while
    interrupts are disabled and the bit is still set: that branch of the thread leaves it.
-/
import Rabbits.Fb.Link

namespace Rabbits

open Lib

/-! ## 1. The values -/

/-- `m_ctrl`, `m_irqstat`, `irq`, and whether `irq_update_thread` has been notified. -/
structure FbIrq where
  ctrl : ULong
  irqstat : ULong
  line : Bool
  woken : Bool

namespace FbIrq

/-- A write to CTRL. -/
def setCtrl (q : FbIrq) (val : ULong) : FbIrq :=
  { q with
    ctrl := if (q.ctrl ^^^ val) &&& FB_CTRL_DISPLAY ≠ 0#32 then val &&& ~~~FB_CTRL_DISPLAY else val
    woken := q.woken || (q.ctrl ^^^ val) &&& FB_CTRL_IRQEN ≠ 0#32 }

/-- A write to IRQCLR. -/
def clear (q : FbIrq) (val : ULong) : FbIrq :=
  { q with irqstat := q.irqstat &&& ~~~val, woken := true }

/-- The end of a display. -/
def complete (q : FbIrq) : FbIrq := { q with irqstat := q.irqstat ||| 1#32, woken := true }

/-- A round of `irq_update_thread`. -/
def update (q : FbIrq) : FbIrq :=
  if q.ctrl &&& FB_CTRL_IRQEN ≠ 0#32 then
    if q.irqstat &&& ~~~FB_IRQ_GLOBAL ≠ 0#32 then
      { q with irqstat := q.irqstat ||| FB_IRQ_GLOBAL, line := true, woken := false }
    else { q with irqstat := q.irqstat &&& ~~~FB_IRQ_GLOBAL, line := false, woken := false }
  else { q with line := false, woken := false }

/-- Interrupts are enabled, and there is one. -/
def Asks (q : FbIrq) : Prop :=
  q.ctrl &&& FB_CTRL_IRQEN ≠ 0#32 ∧ q.irqstat &&& ~~~FB_IRQ_GLOBAL ≠ 0#32

/-- The summary bit is left from a time when interrupts were enabled. -/
def Stale (q : FbIrq) : Prop :=
  q.ctrl &&& FB_CTRL_IRQEN = 0#32 ∧ q.irqstat &&& FB_IRQ_GLOBAL ≠ 0#32

end FbIrq

namespace FbDevice

def irq (d : FbDevice) : FbIrq := ⟨d.regs.ctrl, d.regs.irqstat, d.irqLine, d.irqWoken⟩

/-- Once all updates have been served, the line is up for an interrupt that is enabled. -/
def LineRight (d : FbDevice) : Prop := d.irqWoken = false → (d.irqLine = true ↔ d.irq.Asks)

/-- And the summary bit is the line. -/
def IrqRight (d : FbDevice) : Prop :=
  d.irqWoken = false → (d.irqLine = true ↔ d.irq.Asks) ∧
    (d.regs.irqstat &&& FB_IRQ_GLOBAL ≠ 0#32 ↔ d.irqLine = true)

/-- No update is served that leaves the summary bit as it is when it should not. -/
def NotStale (d : FbDevice) : Label → Prop
  | .irqUpdate => ¬ d.irq.Stale
  | _ => True

/-! ## 2. The device on the values -/

variable {d d' : FbDevice} {l : Label}

@[simp] theorem irq_store (d : FbDevice) (idx : Fin 2) (memOfs : Nat) (val : ULong) :
    (d.store idx memOfs val).irq = d.irq := by
  unfold store
  split <;> rfl

@[simp] theorem irq_display (d : FbDevice) : d.display.irq = d.irq := rfl

theorem irq_writeCtrl (d : FbDevice) (val : ULong) : (d.writeCtrl val).irq = d.irq.setCtrl val := by
  by_cases h : d.toggles val FB_CTRL_DISPLAY = true
  · have hq : (d.irq.ctrl ^^^ val) &&& FB_CTRL_DISPLAY ≠ 0#32 := of_decide_eq_true h
    simp only [writeCtrl, if_pos h, FbIrq.setCtrl, if_pos hq]
    rfl
  · have hq : ¬ (d.irq.ctrl ^^^ val) &&& FB_CTRL_DISPLAY ≠ 0#32 := fun hq => h (decide_eq_true hq)
    simp only [writeCtrl, if_neg h, FbIrq.setCtrl, if_neg hq]
    rfl

@[simp] theorem irq_writeFrame (d : FbDevice) (memOfs : ULong) (be : Byte) (val : ULong) :
    (d.writeFrame memOfs be val).irq = d.irq := by
  simp only [writeFrame, irq_store]
  split <;> rfl

/-- **A write.** -/
theorem irq_slaveWrite (d : FbDevice) (ofs : ULong) (be : Byte) (data : Fin 8 → Byte) :
    (d.slaveWrite ofs be data).irq = d.irq ∨
      (d.slaveWrite ofs be data).irq = d.irq.setCtrl (valueOf be data) ∨
      (d.slaveWrite ofs be data).irq = d.irq.clear (valueOf be data) := by
  cases hreg : decodeFbRegister (lofsOf ofs be) with
  | some r =>
      cases r with
      | CTRL =>
          simp only [slaveWrite, hreg]
          exact .inr (.inl (irq_writeCtrl d _))
      | IRQCLR =>
          simp only [slaveWrite, hreg]
          exact .inr (.inr rfl)
      | WH | BUF | MODE =>
          simp only [slaveWrite, hreg]
          exact .inl rfl
  | none =>
      cases hofs : d.frameOffset ofs be with
      | none =>
          simp only [slaveWrite, hreg, hofs]
          exact .inl rfl
      | some memOfs =>
          simp only [slaveWrite, hreg, hofs]
          exact .inl (irq_writeFrame d _ _ _)

@[simp] theorem irq_slaveRead (d : FbDevice) (ofs : ULong) (be : Byte) :
    (d.slaveRead ofs be).1.irq = d.irq := by
  unfold slaveRead
  split
  all_goals try rfl
  split <;> rfl

@[simp] theorem irq_init (d : FbDevice) : d.init.irq = d.irq := by
  unfold init
  dsimp only
  split <;> rfl

@[simp] theorem irq_runStartStop (d : FbDevice) : d.runStartStop.irq = d.irq := by
  unfold runStartStop
  dsimp only
  split
  · exact irq_init _
  · split <;> rfl

theorem irq_dmaLoop (d : FbDevice) (gen : Nat) (idx : Fin 2) (addr offset : ULong) :
    (d.dmaLoop gen idx addr offset).irq = d.irq ∨
      (d.dmaLoop gen idx addr offset).irq = d.irq.complete := by
  unfold dmaLoop
  split
  · exact .inl rfl
  · exact .inr rfl

theorem irq_runDisplay (d : FbDevice) :
    d.runDisplay.irq = d.irq ∨ d.runDisplay.irq = d.irq.complete := by
  unfold runDisplay
  split
  · exact irq_dmaLoop ..
  · exact .inr rfl

theorem irq_response (d : FbDevice) (gen : Nat) (idx : Fin 2) (addr offset : ULong) (bErr : Bool)
    (data : ULong) : (d.response gen idx addr offset bErr data).irq = d.irq ∨
      (d.response gen idx addr offset bErr data).irq = d.irq.complete := by
  have hstore : (if gen = d.gen then d.store idx (offset.toNat / 4) data else d).irq = d.irq := by
    split
    · exact irq_store ..
    · rfl
  unfold response
  dsimp only
  split
  · exact .inr (congrArg FbIrq.complete hstore)
  · rw [← hstore]
    exact irq_dmaLoop ..

@[simp] theorem irq_runIrqUpdate (d : FbDevice) : d.runIrqUpdate.irq = d.irq.update := by
  simp only [runIrqUpdate, FbIrq.update]
  split
  · next hen =>
      rw [if_pos (show d.irq.ctrl &&& FB_CTRL_IRQEN ≠ 0#32 from hen)]
      split
      · next hstat => exact (if_pos hstat).symm
      · next hstat => exact (if_neg hstat).symm
  · next hen => exact (if_neg hen).symm

/-- **What a step does to the interrupt.** -/
theorem irq_next (h : d.next l = some d') :
    d'.irq = d.irq ∨ (∃ val, d'.irq = d.irq.setCtrl val) ∨ (∃ val, d'.irq = d.irq.clear val) ∨
      d'.irq = d.irq.complete ∨ l = .irqUpdate ∧ d'.irq = d.irq.update := by
  unfold next at h
  split at h
  · cases h
  · cases l with
    | write ofs be data =>
        cases h
        rcases irq_slaveWrite d ofs be data with hsame | hctrl | hclear
        · exact .inl hsame
        · exact .inr (.inl ⟨_, hctrl⟩)
        · exact .inr (.inr (.inl ⟨_, hclear⟩))
    | read ofs be =>
        cases h
        exact .inl (irq_slaveRead d ofs be)
    | startStop =>
        obtain ⟨-, h⟩ := Option.ite_none_right_eq_some.mp h
        cases h
        exact .inl (irq_runStartStop d)
    | display =>
        obtain ⟨-, h⟩ := Option.ite_none_right_eq_some.mp h
        cases h
        rcases irq_runDisplay d with hsame | hdone
        · exact .inl hsame
        · exact .inr (.inr (.inr (.inl hdone)))
    | response bErr data =>
        dsimp only at h
        split at h
        · next gen idx addr offset _ =>
            cases h
            rcases irq_response d gen idx addr offset bErr data with hsame | hdone
            · exact .inl hsame
            · exact .inr (.inr (.inr (.inl hdone)))
        · cases h
    | irqUpdate =>
        obtain ⟨-, h⟩ := Option.ite_none_right_eq_some.mp h
        cases h
        exact .inr (.inr (.inr (.inr ⟨rfl, irq_runIrqUpdate d⟩)))
    | viewerReady =>
        obtain ⟨-, h⟩ := Option.ite_none_right_eq_some.mp h
        cases h
        exact .inl rfl
    | refresh | refreshed =>
        dsimp only at h
        split at h
        · cases h
          exact .inl rfl
        · cases h

end FbDevice

/-! ## 3. The values over a step -/

namespace FbIrq

variable {q : FbIrq}

/-- A bit that is not toggled. -/
theorem and_eq_of_not_toggled {a b m : ULong} (h : (a ^^^ b) &&& m = 0#32) : b &&& m = a &&& m := by
  ext i hi
  have hbit : ((a ^^^ b) &&& m)[i] = (0#32)[i] := by rw [h]
  simp only [BitVec.getElem_and, BitVec.getElem_xor, BitVec.getElem_zero] at hbit ⊢
  revert hbit
  cases a[i] <;> cases b[i] <;> cases m[i] <;> simp

theorem irqen_display (val : ULong) :
    val &&& ~~~FB_CTRL_DISPLAY &&& FB_CTRL_IRQEN = val &&& FB_CTRL_IRQEN := by
  rw [BitVec.and_assoc]
  rfl

/-- A write to CTRL that notifies nobody leaves the enable bit. -/
theorem irqen_setCtrl {val : ULong} (h : (q.setCtrl val).woken = false) :
    q.woken = false ∧ (q.setCtrl val).ctrl &&& FB_CTRL_IRQEN = q.ctrl &&& FB_CTRL_IRQEN := by
  obtain ⟨hwoken, hsame⟩ := Bool.or_eq_false_iff.mp h
  have hval := and_eq_of_not_toggled (not_not.mp (decide_eq_false_iff_not.mp hsame))
  refine ⟨hwoken, ?_⟩
  unfold setCtrl
  dsimp only
  split
  · rw [irqen_display, hval]
  · exact hval

theorem asks_setCtrl {val : ULong} (h : (q.setCtrl val).woken = false) :
    (q.setCtrl val).Asks ↔ q.Asks := by
  unfold Asks
  rw [(irqen_setCtrl h).2]
  rfl

/-- The summary bit is none of the interrupts. -/
theorem pending_or_global (x : ULong) :
    (x ||| FB_IRQ_GLOBAL) &&& ~~~FB_IRQ_GLOBAL = x &&& ~~~FB_IRQ_GLOBAL := by
  ext i hi
  simp only [BitVec.getElem_and, BitVec.getElem_or, BitVec.getElem_not]
  cases x[i] <;> cases FB_IRQ_GLOBAL[i] <;> rfl

theorem and_global_or (x : ULong) : (x ||| FB_IRQ_GLOBAL) &&& FB_IRQ_GLOBAL ≠ 0#32 := by
  have hself : (x ||| FB_IRQ_GLOBAL) &&& FB_IRQ_GLOBAL = FB_IRQ_GLOBAL := by
    ext i hi
    simp only [BitVec.getElem_and, BitVec.getElem_or]
    cases x[i] <;> cases FB_IRQ_GLOBAL[i] <;> rfl
  rw [hself]
  decide

theorem update_woken (q : FbIrq) : q.update.woken = false := by
  unfold update
  split
  · split <;> rfl
  · rfl

/-- **The line after a round.** -/
theorem update_line (q : FbIrq) : q.update.line = true ↔ q.update.Asks := by
  unfold update Asks
  split
  · next hen =>
      split
      · next hstat =>
          refine iff_of_true rfl ⟨hen, ?_⟩
          rw [pending_or_global]
          exact hstat
      · next hstat =>
          refine iff_of_false Bool.false_ne_true fun hasks => hasks.2 ?_
          dsimp only
          rw [not_not.mp hstat]
          rfl
  · next hen => exact iff_of_false Bool.false_ne_true fun hasks => hen hasks.1

/-- **The summary bit after a round** is the line, unless it was stale. -/
theorem update_global (h : ¬ q.Stale) :
    q.update.irqstat &&& FB_IRQ_GLOBAL ≠ 0#32 ↔ q.update.line = true := by
  unfold update
  split
  · split
    · exact iff_of_true (and_global_or _) rfl
    · next hstat =>
        refine iff_of_false (fun hne => hne ?_) Bool.false_ne_true
        dsimp only
        rw [not_not.mp hstat]
        rfl
  · next hen => exact iff_of_false (fun hne => h ⟨not_not.mp hen, hne⟩) Bool.false_ne_true

/-- A stale one stays. -/
theorem update_of_stale (h : q.Stale) :
    q.update.irqstat &&& FB_IRQ_GLOBAL ≠ 0#32 ∧ q.update.line = false := by
  unfold update
  rw [if_neg (not_not.mpr h.1)]
  exact ⟨h.2, rfl⟩

end FbIrq

/-! ## 4. Runs -/

namespace FbDevice

variable {d d' : FbDevice} {l : Label}

theorem lineRight_next (h : d.LineRight) (hs : d.next l = some d') : d'.LineRight := by
  intro hserved
  have hserved : d'.irq.woken = false := hserved
  show d'.irq.line = true ↔ d'.irq.Asks
  rcases irq_next hs with heq | ⟨val, heq⟩ | ⟨val, heq⟩ | heq | ⟨-, heq⟩ <;> rw [heq] at hserved ⊢
  · exact h hserved
  · exact (h (FbIrq.irqen_setCtrl hserved).1).trans (FbIrq.asks_setCtrl hserved).symm
  · cases hserved
  · cases hserved
  · exact FbIrq.update_line d.irq

theorem irqRight_next (h : d.IrqRight) (hl : d.NotStale l) (hs : d.next l = some d') :
    d'.IrqRight := by
  intro hserved
  refine ⟨lineRight_next (fun hd => (h hd).1) hs hserved, ?_⟩
  have hserved : d'.irq.woken = false := hserved
  show d'.irq.irqstat &&& FB_IRQ_GLOBAL ≠ 0#32 ↔ d'.irq.line = true
  rcases irq_next hs with heq | ⟨val, heq⟩ | ⟨val, heq⟩ | heq | ⟨rfl, heq⟩ <;> rw [heq] at hserved ⊢
  · exact (h hserved).2
  · exact (h (FbIrq.irqen_setCtrl hserved).1).2
  · cases hserved
  · cases hserved
  · exact FbIrq.update_global hl

/-- An update that leaves the bit is wrong at once. -/
theorem not_irqRight (hl : ¬ d.NotStale l) (hs : d.next l = some d') : ¬ d'.IrqRight := by
  cases l with
  | irqUpdate =>
      have hstale : d.irq.Stale := not_not.mp hl
      have hd' : d'.irq = d.irq.update := by
        unfold next at hs
        split at hs
        · cases hs
        · obtain ⟨-, hs⟩ := Option.ite_none_right_eq_some.mp hs
          cases hs
          exact irq_runIrqUpdate d
      obtain ⟨hset, hlow⟩ := FbIrq.update_of_stale hstale
      rw [← hd'] at hset hlow
      have hserved : d'.irq.woken = false := hd' ▸ FbIrq.update_woken d.irq
      intro hright
      have hup : d'.irq.line = true := (hright hserved).2.mp hset
      rw [hlow] at hup
      cases hup
  | _ => exact absurd trivial hl

theorem irqRight_new (reset : FbReset) (bufSize : ULong) : (new reset bufSize).IrqRight := by
  have hirq : (new reset bufSize).irq =
      ⟨if reset.fbStart then FB_CTRL_START else 0#32, 0#32, false, false⟩ := by
    unfold new
    cases reset.fbStart
    · rfl
    · exact irq_init _
  intro _
  refine ⟨?_, ?_⟩
  · show (new reset bufSize).irq.line = true ↔ (new reset bufSize).irq.Asks
    rw [hirq]
    exact iff_of_false Bool.false_ne_true fun hasks => hasks.2 BitVec.zero_and
  · show (new reset bufSize).irq.irqstat &&& _ ≠ 0#32 ↔ (new reset bufSize).irq.line = true
    rw [hirq]
    exact iff_of_false (fun hne => hne BitVec.zero_and) Bool.false_ne_true

/-- **The line**, in every run. -/
theorem line_right (reset : FbReset) (bufSize : ULong) (ls : List Label) :
    Along next LineRight (new reset bufSize) ls :=
  along_of_invariant (fun _ h => h) (fun _ _ _ h hs => lineRight_next h hs)
    (fun hserved => (irqRight_new reset bufSize hserved).1) ls

/-- **The line and the summary bit**: right in exactly the runs that serve no update while interrupts
    are disabled and the bit is still set. -/
theorem irqRight_iff (reset : FbReset) (bufSize : ULong) (ls : List Label) :
    Along next IrqRight (new reset bufSize) ls ↔ Steps next NotStale (new reset bufSize) ls :=
  along_iff_steps (fun _ h => h) (fun _ _ _ h hl hs => irqRight_next h hl hs)
    (fun _ _ _ _ hl hs => not_irqRight hl hs) ls (irqRight_new reset bufSize)

/-- Interrupts are disabled while the line is up, behind a display: it goes down, and the bit stays. -/
theorem disabled_keeps_global :
    ¬ Along next IrqRight (new argbReset 0#32)
      [.viewerReady, ctrlWrite 11#8, .irqUpdate, .display, .irqUpdate, ctrlWrite 1#8, .irqUpdate] := by
  intro hrun
  have hlast := (hrun.2 _ rfl).2 _ rfl |>.2 _ rfl |>.2 _ rfl |>.2 _ rfl |>.2 _ rfl |>.2 _ rfl
  exact absurd ((hlast rfl).2.mp (by decide)) (by decide)

end FbDevice

end Rabbits
