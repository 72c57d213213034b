/-
  File:      Rabbits/Fb/Refresh.lean
  Subject:   The refreshes of the viewer against the buffers the device has completed.

  The device completes buffers in turn and sends one SIGUSR1 for each, the viewer shows buffers in
  turn, and nothing but the number of signals keeps them in step. The history of a run has the
  display commands accepted while running, the buffers completed and sent, those shown, and those
  stored into; `InStep` says that the refreshes are those of the completed buffers, in order, one for
  each display command, and that nothing is stored into a buffer from its signal to its refresh.

  Nothing in the code makes it so: a display command can meet a round that is not over or a viewer
  that cannot show a frame, a signal one that is pending or a viewer without its handler, a stop a
  refresh that is not over, and a restart a `mem_idx` that is not the buffer with which the new viewer
  begins.

  * `Viewer.outstanding`, `Viewer.turn` -- the refreshes that are due, and the buffer they begin with;
  * `InStep` -- **the property**: what the history has so far (`Fits`), and that the device and the
    viewer get to the refreshes that are left (`Delivers`);
  * `Paced` -- the steps that meet none of these cases;
  * `Synced` -- the invariant of the link, kept by each of its operations (`Keeps`).
-/
import Rabbits.Fb.Link
import Rabbits.Lib.Since

namespace Rabbits

open Lib

/-! ## 1. The history of a run -/

/-- What a step of the device or the viewer does: a display command is accepted while the device is
    running, a buffer is stored into, a buffer is completed and its refresh sent, the refresh of a
    buffer is over. -/
structure FbEvent where
  accepted : Bool
  filled : Option (Fin 2)
  sent : Option (Fin 2)
  shown : Option (Fin 2)
  deriving DecidableEq

namespace FbDevice

/-- The refresh that this step ends, with a picture on the screen. -/
def shows (d : FbDevice) : Label → Option (Fin 2)
  | .refreshed =>
      match d.viewer with
      | .refreshing bufIdx _ => if hasConversion d.config.mode then some bufIdx else none
      | _ => none
  | _ => none

def event (d : FbDevice) (l : Label) : FbEvent where
  accepted := d.regs.status == .RUNNING && d.displays l
  filled := d.fills l
  sent := if d.regs.status = .RUNNING then d.roundEnd l else none
  shown := d.shows l

/-- The device with its history. -/
def nextTraced : Traced FbDevice FbEvent → Label → Option (Traced FbDevice FbEvent) :=
  Traced.step next fun d l => [d.event l]

end FbDevice

/-- The display commands accepted, the buffers sent, and the buffers shown. -/
def acceptedCount (t : List FbEvent) : Nat := t.countP (·.accepted)

def sentBufs (t : List FbEvent) : List (Fin 2) := t.filterMap (·.sent)

def shownBufs (t : List FbEvent) : List (Fin 2) := t.filterMap (·.shown)

/-! ## 2. The property -/

/-- The buffers of the refreshes that are pending or under way, when the viewer goes on in turn. -/
def Viewer.outstanding : Viewer → List (Fin 2)
  | .ready bufIdx true => [bufIdx]
  | .refreshing bufIdx false => [bufIdx]
  | .refreshing bufIdx true => [bufIdx, otherBuf bufIdx]
  | _ => []

/-- The number of rounds that `display_thread` still owes to accepted display commands. -/
def FbLink.underway (c : FbLink) : Nat :=
  if c.status = .RUNNING ∧ c.displayThread ≠ .waiting false then 1 else 0

/-- The history `t` fits the link: what was sent is what was shown and what the viewer is about to
    show, in this order; every accepted display command was sent, or its round is under way; and no
    buffer was stored into after it was sent and before it was shown. -/
structure Fits (t : List FbEvent) (c : FbLink) : Prop where
  shown : sentBufs t = shownBufs t ++ c.viewer.outstanding
  displayed : acceptedCount t = (sentBufs t).length + c.underway
  apart : ∀ pre e post b, t = pre ++ e :: post → e.filled = some b →
    b ∉ (sentBufs pre).drop (shownBufs pre).length

namespace FbDevice

/-- A step of `display_thread` or of the viewer, without the responses to the DMA. -/
def Label.ofDisplay : Label → Bool
  | .display => true
  | .viewerReady => true
  | .refresh => true
  | .refreshed => true
  | _ => false

/-- The first `n` responses to the DMA. -/
def responses (rsp : Nat → Bool × ULong) (n : Nat) : List Label :=
  (List.range n).map fun i => .response (rsp i).1 (rsp i).2

/-- Whatever the DMA is answered, `display_thread` and the viewer can go on, after a number of
    responses, to the refresh of every display command accepted so far. -/
def Delivers (s : Traced FbDevice FbEvent) : Prop :=
  ∀ rsp, ∃ pre n post u, (∀ l ∈ pre ++ post, l.ofDisplay) ∧
    exec nextTraced s (pre ++ responses rsp n ++ post) = some u ∧
    (shownBufs u.trace).length = acceptedCount s.trace

end FbDevice

/-- Device and viewer are in step. -/
structure InStep (s : Traced FbDevice FbEvent) : Prop where
  fits : Fits s.trace s.state.link
  delivers : s.state.halted = false → FbDevice.Delivers s

/-- With the handler installed and no signal pending. -/
def Viewer.takesSignal : Viewer → Bool
  | .ready _ false => true
  | .refreshing _ false => true
  | _ => false

/-- The step meets nothing that puts device and viewer out of step: a display command finds
    `display_thread` waiting and a viewer that can show a frame, a store no refresh due for its
    buffer, a signal a viewer that takes it, a stop no round and no refresh that is not over, and a
    start no round, the first buffer, and a place for the viewer. -/
structure Paced (d : FbDevice) (l : FbDevice.Label) : Prop where
  displays : d.regs.status = .RUNNING → d.displays l →
    d.displayThread = .waiting false ∧ d.viewable = true
  fills : ∀ b, d.fills l = some b → b ∉ d.viewer.outstanding
  signals : d.regs.status = .RUNNING → d.roundEnd l ≠ none → d.viewer.takesSignal
  stops : l = .startStop → d.stops → d.displayThread = .waiting false ∧ d.viewer.outstanding = []
  starts : l = .startStop → d.starts →
    d.displayThread = .waiting false ∧ d.memIdx = firstBuf ∧ d.gen < viewerPlaces

/-! ## 3. The history, one step longer -/

theorem acceptedCount_snoc (t : List FbEvent) (e : FbEvent) :
    acceptedCount (t ++ [e]) = acceptedCount t + e.accepted.toNat := by
  unfold acceptedCount
  rw [List.countP_append, List.countP_singleton]
  cases e.accepted <;> rfl

theorem filterMap_snoc {α β : Type} (f : α → Option β) (t : List α) (e : α) :
    (t ++ [e]).filterMap f = t.filterMap f ++ (f e).toList := by
  rw [List.filterMap_append]
  cases h : f e <;> simp [h]

/-- What a step has to do to the link for its event. -/
structure Balances (c : FbLink) (e : FbEvent) (c' : FbLink) : Prop where
  shown : c.viewer.outstanding ++ e.sent.toList = e.shown.toList ++ c'.viewer.outstanding
  displayed : c.underway + e.accepted.toNat = e.sent.toList.length + c'.underway

theorem Fits.snoc {t : List FbEvent} {c c' : FbLink} {e : FbEvent} (h : Fits t c)
    (hb : Balances c e c') (hfill : ∀ b, e.filled = some b → b ∉ c.viewer.outstanding) :
    Fits (t ++ [e]) c' where
  shown := by
    calc sentBufs (t ++ [e]) = sentBufs t ++ e.sent.toList := filterMap_snoc ..
      _ = shownBufs t ++ (c.viewer.outstanding ++ e.sent.toList) := by
          rw [h.shown, List.append_assoc]
      _ = (shownBufs t ++ e.shown.toList) ++ c'.viewer.outstanding := by
          rw [hb.shown, List.append_assoc]
      _ = shownBufs (t ++ [e]) ++ c'.viewer.outstanding := by
          rw [shownBufs, shownBufs, filterMap_snoc]
  displayed := by
    have hsent : (sentBufs (t ++ [e])).length = (sentBufs t).length + e.sent.toList.length := by
      rw [sentBufs, filterMap_snoc, List.length_append, sentBufs]
    rw [acceptedCount_snoc, h.displayed, hsent]
    have := hb.displayed
    omega
  apart := by
    intro pre x post b ht hx
    rcases append_singleton_eq_append_cons ht with ⟨rfl, rfl, -⟩ | ⟨post, rfl, rfl⟩
    · -- the store of this step: what is outstanding is what the viewer has left
      rw [h.shown, List.drop_left]
      exact hfill b hx
    · exact h.apart pre x post b rfl hx

/-! ## 4. The invariant of the link -/

/-- The buffer whose turn it is in a viewer that a signal has not terminated. -/
def Viewer.turn : Viewer → Option (Fin 2)
  | .starting => some firstBuf
  | .ready bufIdx _ => some bufIdx
  | .refreshing bufIdx _ => some bufIdx
  | _ => none

/-- Device and viewer count alike, or a viewer that cannot show a frame has nothing to do. -/
structure Synced (c : FbLink) : Prop where
  attached : c.mem = .attached → c.status = .RUNNING
  turn : c.status = .RUNNING → c.viewable = true → ∃ b, c.viewer.turn = some b ∧
    (c.memIdx : Nat) = (b + c.viewer.outstanding.length + c.underway) % 2
  idle : c.status = .RUNNING → c.viewable = false →
    c.displayThread = .waiting false ∧ c.viewer.outstanding = []
  silent : c.status = .STOPPED → c.viewer = .unset ∨ c.viewer = .reaped
  size : c.memSize.toNat < 2 ^ 31
  transfer : c.status = .RUNNING → ∀ gen idx addr offset,
    c.displayThread = .dma gen idx addr offset →
      gen = c.gen ∧ idx = otherBuf c.memIdx ∧ offset < c.memSize

/-- The step to `c'` keeps the invariant and fits its event. -/
structure Keeps (c : FbLink) (e : FbEvent) (c' : FbLink) : Prop extends Balances c e c' where
  synced : Synced c'

theorem val_otherBuf (idx : Fin 2) : (otherBuf idx : Nat) = (idx + 1) % 2 := by
  revert idx
  decide

/-- A signal that is taken adds the next buffer. -/
theorem outstanding_signal {v : Viewer} {b idx : Fin 2} (h : v.takesSignal) (hb : v.turn = some b)
    (hidx : (idx : Nat) = (b + v.outstanding.length) % 2) :
    (FbDevice.signal v).turn = some b ∧
      (FbDevice.signal v).outstanding = v.outstanding ++ [idx] := by
  match v, h with
  | .ready bufIdx false, _ =>
      cases hb
      have : idx = b := Fin.ext (hidx.trans (Nat.mod_eq_of_lt b.isLt))
      rw [this]
      exact ⟨rfl, rfl⟩
  | .refreshing bufIdx false, _ =>
      cases hb
      have : idx = otherBuf b := Fin.ext (hidx.trans (val_otherBuf b).symm)
      rw [this]
      exact ⟨rfl, rfl⟩

namespace FbLink

variable {c : FbLink}

theorem underway_of_stopped (h : c.status = .STOPPED) : c.underway = 0 := by
  simp [underway, h]

theorem underway_of_waiting (h : c.displayThread = .waiting false) : c.underway = 0 := by
  simp [underway, h]

theorem underway_of_busy (h : c.status = .RUNNING) (hb : c.displayThread ≠ .waiting false) :
    c.underway = 1 := by
  simp [underway, h, hb]

end FbLink

namespace Synced

variable {c : FbLink} {e : FbEvent}

/-- A step that does nothing to the link. -/
theorem keeps_self (h : Synced c) (hacc : e.accepted = false) (hsent : e.sent = none)
    (hshown : e.shown = none) : Keeps c e c where
  shown := by rw [hsent, hshown, Option.toList_none, List.append_nil, List.nil_append]
  displayed := by
    rw [hacc, hsent, Option.toList_none, Bool.toNat_false, List.length_nil, Nat.zero_add,
      Nat.add_zero]
  synced := h

/-- A display command, when the device is running to a thread that waits and a viewer that can show
    a frame. -/
theorem keeps_display (h : Synced c)
    (hw : c.status = .RUNNING → c.displayThread = .waiting false ∧ c.viewable = true)
    (hacc : e.accepted = (c.status == .RUNNING)) (hsent : e.sent = none)
    (hshown : e.shown = none) : Keeps c e c.display := by
  cases hst : c.status with
  | STOPPED =>
      have hst' : c.display.status = .STOPPED := hst
      have hne : c.display.status ≠ .RUNNING := by rw [hst']; decide
      refine ⟨⟨?_, ?_⟩, ⟨h.attached, fun hr => absurd hr hne, fun hr => absurd hr hne, h.silent,
        h.size, fun hr => absurd hr hne⟩⟩
      · rw [hsent, hshown]
        exact List.append_nil _
      · rw [hacc, hsent, hst, FbLink.underway_of_stopped hst, FbLink.underway_of_stopped hst']
        rfl
  | RUNNING =>
      obtain ⟨hwait, hview⟩ := hw hst
      have hbusy : c.display.displayThread = .waiting true := by
        simp [FbLink.display, hwait, DisplayThread.wake]
      have hold : c.underway = 0 := FbLink.underway_of_waiting hwait
      have hnew : c.display.underway = 1 := FbLink.underway_of_busy hst (by rw [hbusy]; decide)
      refine ⟨⟨?_, ?_⟩, ⟨h.attached, fun _ _ => ?_, fun _ hnone => ?_, h.silent, h.size,
        fun _ _ _ _ _ hdma => ?_⟩⟩
      · rw [hsent, hshown]
        exact List.append_nil _
      · rw [hacc, hsent, hst, hold, hnew]
        rfl
      · obtain ⟨b, hb, hidx⟩ := h.turn hst hview
        refine ⟨b, hb, ?_⟩
        rw [hnew]
        show (otherBuf c.memIdx : Nat) = (b + c.viewer.outstanding.length + 1) % 2
        rw [val_otherBuf, hidx, hold]
        omega
      · cases hview.symm.trans hnone
      · rw [hbusy] at hdma
        cases hdma

/-- A round under way is for a viewer that can show a frame. -/
theorem viewable_of_busy (h : Synced c) (hr : c.status = .RUNNING)
    (hbusy : c.displayThread ≠ .waiting false) : c.viewable = true :=
  eq_true_of_ne_false fun hnone => hbusy (h.idle hr hnone).1

/-- The end of a round, with a signal that is taken when the device is running. -/
theorem keeps_endRound (h : Synced c) (hbusy : c.displayThread ≠ .waiting false) {idx : Fin 2}
    (hidx : c.status = .RUNNING → idx = otherBuf c.memIdx)
    (htakes : c.status = .RUNNING → c.viewer.takesSignal) (hacc : e.accepted = false)
    (hsent : e.sent = if c.status = .RUNNING then some idx else none) (hshown : e.shown = none) :
    Keeps c e c.endRound := by
  have hnew : c.endRound.underway = 0 := FbLink.underway_of_waiting rfl
  cases hst : c.status with
  | STOPPED =>
      have hsignal : FbDevice.signal c.viewer = c.viewer := by
        rcases h.silent hst with hv | hv <;> rw [hv] <;> rfl
      have hne : c.endRound.status ≠ .RUNNING := by
        show c.status ≠ .RUNNING
        rw [hst]
        decide
      refine ⟨⟨?_, ?_⟩, ⟨h.attached, fun hr => absurd hr hne, fun hr => absurd hr hne, fun _ => ?_,
        h.size, fun hr => absurd hr hne⟩⟩
      · rw [hsent, hshown, hst, FbLink.endRound, hsignal]
        exact List.append_nil _
      · rw [hacc, hsent, hst, FbLink.underway_of_stopped hst, hnew]
        rfl
      · rw [FbLink.endRound, hsignal]
        exact h.silent hst
  | RUNNING =>
      have hview := h.viewable_of_busy hst hbusy
      obtain ⟨b, hb, hmem⟩ := h.turn hst hview
      rw [FbLink.underway_of_busy hst hbusy] at hmem
      have hnext : (idx : Nat) = (b + c.viewer.outstanding.length) % 2 := by
        rw [hidx hst, val_otherBuf, hmem]
        omega
      obtain ⟨hturn, hout⟩ := outstanding_signal (htakes hst) hb hnext
      refine ⟨⟨?_, ?_⟩, ⟨h.attached, fun _ _ => ⟨b, hturn, ?_⟩, fun _ hnone => ?_, fun hs => ?_,
        h.size, fun _ _ _ _ _ hdma => ?_⟩⟩
      · rw [hsent, hshown, if_pos hst]
        exact hout.symm
      · rw [hacc, hsent, if_pos hst, FbLink.underway_of_busy hst hbusy, hnew]
        rfl
      · rw [hnew, Nat.add_zero]
        show (c.memIdx : Nat) = (b + (FbDevice.signal c.viewer).outstanding.length) % 2
        rw [hout, List.length_append, List.length_singleton, hmem, Nat.add_assoc]
      · cases hview.symm.trans hnone
      · exact absurd (hst.symm.trans hs) (by decide)
      · cases hdma

/-- A round that goes on with its DMA. -/
theorem keeps_transfer (h : Synced c) (hbusy : c.displayThread ≠ .waiting false) {gen : Nat}
    {idx : Fin 2} (hidx : c.status = .RUNNING → gen = c.gen ∧ idx = otherBuf c.memIdx)
    {addr offset : ULong} (hlt : offset < c.memSize) (hacc : e.accepted = false) (hsent : e.sent = none)
    (hshown : e.shown = none) : Keeps c e (c.transfer gen idx addr offset) := by
  have hsame : (c.transfer gen idx addr offset).underway = c.underway := by
    simp [FbLink.underway, FbLink.transfer, hbusy]
  refine ⟨⟨?_, ?_⟩, ⟨h.attached, fun hr hview => ?_, fun hr hnone => ?_, h.silent, h.size,
    fun hr _ _ _ _ hdma => ?_⟩⟩
  · rw [hsent, hshown]
    exact List.append_nil _
  · rw [hacc, hsent, hsame]
    exact (Nat.zero_add _).symm
  · rw [hsame]
    exact h.turn hr hview
  · exact absurd (h.idle hr hnone).1 hbusy
  · cases hdma
    exact ⟨(hidx hr).1, (hidx hr).2, hlt⟩

/-- A start, with no round under way and on the first buffer. -/
theorem keeps_start (h : Synced c) (hst : c.status = .STOPPED)
    (hw : c.displayThread = .waiting false) (hmem : c.memIdx = firstBuf) {n : ULong}
    (hn : FbDevice.IsSize n) (viewable : Bool) (hacc : e.accepted = false) (hsent : e.sent = none)
    (hshown : e.shown = none) : Keeps c e (c.start n viewable) := by
  have hnew : (c.start n viewable).underway = 0 := FbLink.underway_of_waiting hw
  refine ⟨⟨?_, ?_⟩, ⟨fun _ => rfl, fun _ _ => ⟨firstBuf, rfl, ?_⟩, fun _ _ => ⟨hw, rfl⟩,
    fun hs => ?_, hn.lt, fun _ _ _ _ _ hdma => ?_⟩⟩
  · rw [hsent, hshown]
    rcases h.silent hst with hv | hv <;> rw [hv] <;> rfl
  · rw [hacc, hsent, hnew, FbLink.underway_of_stopped hst]
    rfl
  · rw [hnew, FbLink.start, hmem]
    rfl
  · cases hs
  · cases hw.symm.trans hdma

/-- A stop, with no round under way and no refresh due. -/
theorem keeps_stop (h : Synced c) (hw : c.displayThread = .waiting false)
    (hout : c.viewer.outstanding = []) (hacc : e.accepted = false) (hsent : e.sent = none)
    (hshown : e.shown = none) : Keeps c e c.stop := by
  have hnew : c.stop.underway = 0 := FbLink.underway_of_waiting hw
  refine ⟨⟨?_, ?_⟩, ⟨fun hm => ?_, fun hr => ?_, fun hr => ?_, fun _ => .inr rfl, h.size,
    fun hr => ?_⟩⟩
  · rw [hsent, hshown, hout]
    rfl
  · rw [hacc, hsent, hnew, FbLink.underway_of_waiting hw]
    rfl
  · cases hm
  · cases hr
  · cases hr
  · cases hr

/-- A step of a viewer that can show a frame: it may end the refresh of the oldest buffer. -/
theorem keeps_viewer (h : Synced c) (hview : c.viewable = true) {v : Viewer} {a b : Fin 2}
    (ha : c.viewer.turn = some a) (hb : v.turn = some b) (hout : c.viewer.outstanding = e.shown.toList ++ v.outstanding)
    (hidx : (b : Nat) = (a + e.shown.toList.length) % 2) (hacc : e.accepted = false)
    (hsent : e.sent = none) : Keeps c e { c with viewer := v } := by
  refine ⟨⟨?_, ?_⟩, ⟨h.attached, fun hr _ => ⟨b, hb, ?_⟩, fun _ hnone => ?_, fun hs => ?_, h.size,
    h.transfer⟩⟩
  · rw [hsent, hout]
    exact List.append_nil _
  · rw [hacc, hsent]
    exact (Nat.zero_add _).symm
  · obtain ⟨x, hx, hmem⟩ := h.turn hr hview
    cases ha.symm.trans hx
    rw [hout, List.length_append] at hmem
    show (c.memIdx : Nat) = (b + v.outstanding.length + c.underway) % 2
    omega
  · cases hview.symm.trans hnone
  · rcases h.silent hs with hv | hv <;> rw [hv] at ha <;> cases ha

/-- A step of a viewer that cannot show a frame, without a refresh. -/
theorem keeps_viewer_idle (h : Synced c) (hview : c.viewable = false) {v : Viewer}
    (hrun : c.status = .RUNNING) (hv : v.outstanding = []) (hacc : e.accepted = false)
    (hsent : e.sent = none) (hshown : e.shown = none) : Keeps c e { c with viewer := v } := by
  obtain ⟨hwait, hout⟩ := h.idle hrun hview
  refine ⟨⟨?_, ?_⟩, ⟨h.attached, fun _ hcan => ?_, fun _ _ => ⟨hwait, hv⟩, fun hs => ?_, h.size,
    h.transfer⟩⟩
  · rw [hsent, hshown, hout, hv]
    rfl
  · rw [hacc, hsent]
    exact (Nat.zero_add _).symm
  · cases hview.symm.trans hcan
  · exact absurd (hrun.symm.trans hs) (by decide)

end Synced

end Rabbits
