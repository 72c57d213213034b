/-
  File:      Rabbits/Fb/Attached.lean
  Subject:   Which steps of the framebuffer device go to the shared buffers or signal the viewer.

  Three paths go to the buffers: the accesses of the slave behind `mem_size`, and `display_thread`
  when it takes the address of a buffer and when a response comes; and every round of
  `display_thread` ends with a signal. A stop detaches the buffers and kills the viewer, and leaves
  `mem`, `mem_size`, the pid and `display_thread` as they are, so none of these paths sees it.

  * `derefs`, `uses`, `Safe` -- **the property of a step**: when it goes to the buffers or signals
    the viewer, the device is running, the buffers are attached and the viewer is alive;
  * `Orderly` -- the steps that do not run into what a stop leaves behind, or a dead viewer;
  * `AttachInv` -- the invariant, kept by each operation of the link;
  * `uses_safe` -- **every step of an orderly run is safe**.
-/
import Rabbits.Fb.Link

namespace Rabbits

open Lib

/-! ## 1. The uses of the buffers and of the viewer -/

/-- The process is there and has not been terminated. -/
def Viewer.live : Viewer → Bool
  | .starting => true
  | .ready _ _ => true
  | .refreshing _ _ => true
  | _ => false

namespace FbDevice

/-- The access is one to the frame memory, by `mem_size`. -/
def framed (d : FbDevice) : Label → Bool
  | .write ofs be _ => (d.frameOffset ofs be).isSome
  | .read ofs be => (d.frameOffset ofs be).isSome
  | _ => false

/-- The step goes through `mem`, or through an address that `display_thread` took from it: the
    number of the start whose buffers it expects there. -/
def derefs (d : FbDevice) (l : Label) : Option Nat :=
  match l with
  | .display => if d.regs.dmaen then some d.gen else none
  | .response _ _ =>
      match d.displayThread with
      | .dma gen _ _ _ => some gen
      | .waiting _ => none
  | l => if d.framed l then some d.gen else none

/-- The step goes to the buffers, or signals the viewer. -/
def uses (d : FbDevice) (l : Label) : Bool := (d.derefs l).isSome || (d.roundEnd l).isSome

/-- A use is one of a running device with attached buffers, those it expects, and a live viewer. -/
structure Safe (d : FbDevice) (l : Label) : Prop where
  use : d.uses l → d.regs.status = .RUNNING ∧ d.mem = .attached ∧ d.viewer.live
  buffers : ∀ gen, d.derefs l = some gen → gen = d.gen

/-- The step is no access to the frame memory of a stopped device, no wake-up of `display_thread`
    in a stopped device, no stop during a DMA, no start without a place for the viewer, and no use
    after a signal has terminated the viewer, or it has ended by itself. -/
structure Orderly (d : FbDevice) (l : Label) : Prop where
  frame : d.framed l → d.regs.status = .RUNNING
  display : l = .display → d.regs.status = .RUNNING
  stop : l = .startStop → d.stops → ∃ woken, d.displayThread = .waiting woken
  start : l = .startStop → d.starts → d.gen < viewerPlaces
  viewer : d.uses l → d.viewer ≠ .terminated

end FbDevice

/-! ## 2. The invariant -/

/-- A running device has its buffers and a viewer, and only a running device is in a DMA. -/
structure AttachInv (c : FbLink) : Prop where
  attached : c.status = .RUNNING → c.mem = .attached
  viewer : c.status = .RUNNING → c.viewer.live ∨ c.viewer = .terminated
  transfer : ∀ gen idx addr offset, c.displayThread = .dma gen idx addr offset →
    c.status = .RUNNING ∧ gen = c.gen

namespace AttachInv

variable {c : FbLink}

theorem display (h : AttachInv c) : AttachInv c.display := by
  refine ⟨h.attached, h.viewer, fun gen idx addr offset hdma => ?_⟩
  cases hw : c.displayThread with
  | waiting woken => simp [FbLink.display, hw, DisplayThread.wake] at hdma
  | dma gen' idx' addr' offset' =>
      simp only [FbLink.display, hw, DisplayThread.wake] at hdma
      exact h.transfer gen idx addr offset (hw.trans hdma)

theorem endRound (h : AttachInv c) : AttachInv c.endRound := by
  refine ⟨h.attached, fun hr => ?_, fun _ _ _ _ hdma => ?_⟩
  · show (FbDevice.signal c.viewer).live ∨ FbDevice.signal c.viewer = .terminated
    rcases h.viewer hr with hv | hv
    · cases hc : c.viewer <;> rw [hc] at hv <;> simp [FbDevice.signal, Viewer.live] at hv ⊢
    · rw [hv]
      exact .inr rfl
  · cases hdma

theorem transferring (h : AttachInv c) {gen : Nat} (hr : c.status = .RUNNING) (hgen : gen = c.gen)
    (idx : Fin 2) (addr offset : ULong) : AttachInv (c.transfer gen idx addr offset) := by
  refine ⟨h.attached, h.viewer, fun _ _ _ _ hdma => ?_⟩
  cases hdma
  exact ⟨hr, hgen⟩

theorem start (h : AttachInv c) (hst : c.status = .STOPPED) (n : ULong) (v : Bool) :
    AttachInv (c.start n v) := by
  refine ⟨fun _ => rfl, fun _ => .inl rfl, fun gen idx addr offset hdma => ?_⟩
  have hr := (h.transfer gen idx addr offset hdma).1
  exact absurd (hst.symm.trans hr) (by decide)

theorem stop {woken : Bool} (hw : c.displayThread = .waiting woken) : AttachInv c.stop := by
  refine ⟨fun hr => ?_, fun hr => ?_, fun _ _ _ _ hdma => ?_⟩
  · cases hr
  · cases hr
  · cases hw.symm.trans hdma

theorem viewerStep (h : AttachInv c) {v : Viewer} (hv : v.live ∨ v = .terminated) :
    AttachInv { c with viewer := v } :=
  ⟨h.attached, fun _ => hv, h.transfer⟩

end AttachInv

/-! ## 3. Runs -/

namespace FbDevice

/-- **One orderly step keeps the invariant.** -/
theorem attachInv_next {d d' : FbDevice} {l : Label} (hi : AttachInv d.link) (ho : Orderly d l)
    (h : next d l = some d') : AttachInv d'.link := by
  unfold next at h
  split at h
  · cases h
  cases l with dsimp only at h
  | write ofs be data =>
      cases h
      rw [link_slaveWrite]
      split
      · exact hi.display
      · exact hi
  | read ofs be =>
      cases h
      rw [link_slaveRead]
      exact hi
  | startStop =>
      split at h <;> cases h
      rcases d.link_runStartStop with ⟨hs, n, v, -, heq⟩ | ⟨hs, heq⟩ | heq
      · rw [heq]
        exact hi.start (stopped_of_starts hs) n v
      · obtain ⟨woken, hw⟩ := ho.stop rfl hs
        rw [heq]
        exact AttachInv.stop hw
      · rw [heq]
        exact hi
  | display =>
      split at h <;> cases h
      rw [link_runDisplay]
      split
      · exact hi.endRound
      · exact hi.transferring (ho.display rfl) rfl _ _ _
  | response bErr data =>
      split at h <;> cases h
      next gen idx addr offset hw =>
        obtain ⟨hr, hgen⟩ := hi.transfer gen idx addr offset hw
        rw [link_response d hw]
        split
        · exact hi.endRound
        · exact hi.transferring hr hgen _ _ _
  | irqUpdate =>
      split at h <;> cases h
      rw [link_runIrqUpdate]
      exact hi
  | viewerReady =>
      split at h <;> cases h
      refine hi.viewerStep ?_
      split
      · exact .inl rfl
      · exact .inr rfl
  | refresh =>
      split at h <;> cases h
      exact hi.viewerStep (.inl rfl)
  | refreshed =>
      split at h <;> cases h
      refine hi.viewerStep ?_
      split
      · exact .inl rfl
      · exact .inr rfl

/-- A use is one of a running device. -/
theorem running_of_uses {d : FbDevice} {l : Label} (hi : AttachInv d.link) (ho : Orderly d l)
    (h : d.uses l) : d.regs.status = .RUNNING := by
  cases l with
  | write ofs be data =>
      refine ho.frame ?_
      simpa [uses, derefs, roundEnd] using h
  | read ofs be =>
      refine ho.frame ?_
      simpa [uses, derefs, roundEnd] using h
  | display => exact ho.display rfl
  | response bErr data =>
      cases hw : d.displayThread with
      | waiting woken => simp [uses, derefs, roundEnd, hw] at h
      | dma gen idx addr offset => exact (hi.transfer gen idx addr offset hw).1
  | _ => simp [uses, derefs, roundEnd, framed] at h

/-- The buffers that a step goes to are those of the last start. -/
theorem gen_of_derefs {d : FbDevice} {l : Label} {gen : Nat} (hi : AttachInv d.link)
    (h : d.derefs l = some gen) : gen = d.gen := by
  unfold derefs at h
  split at h
  · split at h <;> cases h
    rfl
  · split at h <;> cases h
    exact (hi.transfer _ _ _ _ ‹_›).2
  · split at h <;> cases h
    rfl

theorem safe_of_orderly {d : FbDevice} {l : Label} (hi : AttachInv d.link) (ho : Orderly d l) :
    Safe d l where
  use := by
    intro hu
    have hr := running_of_uses hi ho hu
    exact ⟨hr, hi.attached hr, (hi.viewer hr).resolve_right (ho.viewer hu)⟩
  buffers _ hd := gen_of_derefs hi hd

/-- The constructor: stopped, started, or halted in its start. -/
theorem attachInv_new (reset : FbReset) (bufSize : ULong) :
    (new reset bufSize).halted = false → AttachInv (new reset bufSize).link := by
  unfold new
  cases hs : reset.fbStart with
  | false =>
      refine fun _ => ⟨fun hr => ?_, fun hr => ?_, fun _ _ _ _ hdma => ?_⟩
      · cases hr
      · cases hr
      · cases hdma
  | true =>
      simp only [if_true, init]
      split
      · exact fun hh => by cases hh
      · exact fun _ => ⟨fun _ => rfl, fun _ => .inl rfl, fun _ _ _ _ hdma => by cases hdma⟩

/-- **Every use is safe in the orderly runs**: from the constructor on, when no step runs into what
    a stop leaves behind, the buffers are gone to and the viewer is signalled only while the device
    is running, with attached buffers and a live viewer. -/
theorem uses_safe (reset : FbReset) (bufSize : ULong) (ls : List Label)
    (h : Steps next Orderly (new reset bufSize) ls) : Steps next Safe (new reset bufSize) ls := by
  refine steps_of_steps (I := fun d => d.halted = false → AttachInv d.link) ?_ ?_
    (attachInv_new reset bufSize) h
  · intro d l d' hi ho hl
    exact safe_of_orderly (hi (halted_of_next hl)) ho
  · intro d l d' hi ho hl _
    exact attachInv_next (hi (halted_of_next hl)) ho hl

/-- Neither a wake-up of `display_thread` nor a start or stop. -/
theorem orderly_of_ne {d : FbDevice} {l : Label} (frame : d.framed l → d.regs.status = .RUNNING)
    (hd : l ≠ .display) (hs : l ≠ .startStop) (viewer : d.uses l → d.viewer ≠ .terminated) :
    Orderly d l :=
  ⟨frame, fun h => absurd h hd, fun h => absurd h hs, fun h => absurd h hs, viewer⟩

/-- A frame write, a display command with its DMA, and a stop. -/
theorem uses_safe_display : Steps next Safe (new argbReset 0#32)
    [.viewerReady, frameWrite 7#8, ctrlWrite 13#8, .display, .response false 5#32, .refresh,
      .refreshed, ctrlWrite 4#8, .startStop] := by
  refine uses_safe argbReset 0#32 _ ?_
  refine .cons rfl (orderly_of_ne (by decide) (by simp) (by simp) (by decide)) ?_
  refine .cons rfl (orderly_of_ne (by decide) (by simp [frameWrite]) (by simp [frameWrite])
    (by decide)) ?_
  refine .cons rfl (orderly_of_ne (by decide) (by simp [ctrlWrite]) (by simp [ctrlWrite])
    (by decide)) ?_
  refine .cons rfl ⟨by decide, fun _ => rfl, by simp, by simp, by decide⟩ ?_
  refine .cons rfl (orderly_of_ne (by decide) (by simp) (by simp) (by decide)) ?_
  refine .cons rfl (orderly_of_ne (by decide) (by simp) (by simp) (by decide)) ?_
  refine .cons rfl (orderly_of_ne (by decide) (by simp) (by simp) (by decide)) ?_
  refine .cons rfl (orderly_of_ne (by decide) (by simp [ctrlWrite]) (by simp [ctrlWrite])
    (by decide)) ?_
  exact .cons rfl ⟨by decide, by simp, fun _ _ => ⟨false, rfl⟩, fun _ => by decide, by decide⟩
    trivial

/-- A frame write after a stop goes to a detached buffer, and a display command before any start
    signals a pid that names no viewer. -/
theorem uses_safe_fails :
    ¬ Steps next Safe (new argbReset 0#32) [ctrlWrite 0#8, .startStop, frameWrite 7#8] ∧
      ¬ Steps next Safe (new ⟨false, 0#16, 0#16, 0#32, false⟩ 0#32) [ctrlWrite 8#8, .display] := by
  constructor
  · intro h
    have hsafe := (((h _ rfl).2 _ rfl).2 _ rfl).1
    have hstatus := (hsafe.use (by decide)).1
    revert hstatus
    decide
  · intro h
    have hsafe := ((h _ rfl).2 _ rfl).1
    have hstatus := (hsafe.use (by decide)).1
    revert hstatus
    decide

end FbDevice

end Rabbits
