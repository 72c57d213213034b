/-
  File:      Rabbits/Fb/Rounds.lean
  Subject:   Runs of the framebuffer device and its viewer that stay in step.

  * `next_keeps` -- one paced step keeps the invariant and fits its event;
  * `drains`, `dma_ends`, `round_ends` -- the viewer gets to the end of its refreshes, and
    `display_thread` to the end of its round: a DMA has one response for each word of the buffer;
  * `refreshes_in_step` -- **every run of paced steps is in step**.
-/
import Rabbits.Fb.Refresh

namespace Rabbits

open Lib

/-! ## 1. One step -/

namespace FbDevice

section Steps

variable {d : FbDevice} (hi : Synced d.link)

include hi

theorem slaveWrite_keeps {ofs : ULong} {be : Byte} {data : Fin 8 → Byte}
    (hp : Paced d (.write ofs be data)) :
    Keeps d.link (d.event (.write ofs be data)) (d.slaveWrite ofs be data).link := by
  have hsent : (d.event (.write ofs be data)).sent = none := by simp [event, roundEnd]
  rw [link_slaveWrite]
  split
  · next hd =>
      exact hi.keeps_display (fun hr => hp.displays hr hd) (by simp [event, hd, link]) hsent rfl
  · next hd => exact hi.keeps_self (by simp [event, hd]) hsent rfl

theorem runStartStop_keeps (hp : Paced d .startStop) :
    Keeps d.link (d.event .startStop) d.runStartStop.link := by
  have hacc : (d.event .startStop).accepted = false := by simp [event, displays]
  have hsent : (d.event .startStop).sent = none := by simp [event, roundEnd]
  rcases d.link_runStartStop with ⟨hs, n, v, hn, heq⟩ | ⟨hs, heq⟩ | heq
  · obtain ⟨hw, hmem, -⟩ := hp.starts rfl hs
    rw [heq]
    exact hi.keeps_start (stopped_of_starts hs) hw hmem hn v hacc hsent rfl
  · obtain ⟨hw, hout⟩ := hp.stops rfl hs
    rw [heq]
    exact hi.keeps_stop hw hout hacc hsent rfl
  · rw [heq]
    exact hi.keeps_self hacc hsent rfl

theorem runDisplay_keeps (hw : d.displayThread = .waiting true) (hp : Paced d .display) :
    Keeps d.link (d.event .display) d.runDisplay.link := by
  have hacc : (d.event .display).accepted = false := by simp [event, displays]
  have hbusy : d.link.displayThread ≠ .waiting false := by simp [link, hw]
  rw [link_runDisplay]
  cases he : d.roundEnd .display with
  | some idx =>
      have hidx : idx = d.procIdx := by
        simp only [roundEnd] at he
        split at he <;> cases he
        rfl
      exact hi.keeps_endRound hbusy (fun _ => hidx) (fun hr => hp.signals hr (by simp [he]))
        hacc (by rw [event, he]; rfl) rfl
  | none =>
      have hlt : 0#32 < d.memSize := by
        simp only [roundEnd] at he
        split at he
        · next h => exact h.2
        · cases he
      exact hi.keeps_transfer hbusy (fun _ => ⟨rfl, rfl⟩) hlt hacc (by simp [event, he]) rfl

theorem response_keeps {gen : Nat} {idx : Fin 2} {addr offset : ULong}
    (hw : d.displayThread = .dma gen idx addr offset) {bErr : Bool} {data : ULong}
    (hp : Paced d (.response bErr data)) :
    Keeps d.link (d.event (.response bErr data)) (d.response gen idx addr offset bErr data).link := by
  have hacc : (d.event (.response bErr data)).accepted = false := by simp [event, displays]
  have hbusy : d.link.displayThread ≠ .waiting false := by simp [link, hw]
  have hidx : d.link.status = .RUNNING → gen = d.gen ∧ idx = otherBuf d.memIdx := fun hr =>
    ⟨(hi.transfer hr gen idx addr offset hw).1, (hi.transfer hr gen idx addr offset hw).2.1⟩
  rw [link_response d hw]
  cases he : d.roundEnd (.response bErr data) with
  | some idx' =>
      have hsame : idx' = idx := by
        simp only [roundEnd, hw] at he
        split at he <;> cases he
        rfl
      exact hi.keeps_endRound hbusy (fun hr => hsame.trans (hidx hr).2)
        (fun hr => hp.signals hr (by simp [he])) hacc (by rw [event, he]; rfl) rfl
  | none =>
      have hlt : offset + 4#32 < d.memSize := by
        simp only [roundEnd, hw] at he
        split at he
        · next h => exact h.2
        · cases he
      exact hi.keeps_transfer hbusy hidx hlt hacc (by simp [event, he]) rfl

/-- A viewer that has something to do belongs to a running device. -/
theorem running_of_viewer (hset : d.viewer ≠ .unset) (halive : d.viewer ≠ .reaped) :
    d.link.status = .RUNNING := by
  cases hst : d.link.status with
  | RUNNING => rfl
  | STOPPED => exact (hi.silent hst).elim (absurd · hset) (absurd · halive)

/-- The viewer is up, or exits. -/
theorem viewerReady_keeps (hv : d.viewer = .starting) :
    Keeps d.link (d.event .viewerReady)
      { d.link with viewer := if d.viewerFits then .ready firstBuf false else .terminated } := by
  have hv' : d.link.viewer = .starting := hv
  have hacc : (d.event .viewerReady).accepted = false := Bool.and_false _
  have hsent : (d.event .viewerReady).sent = none := ite_self _
  cases hview : d.viewable with
  | true =>
      rw [if_pos (Bool.and_eq_true_iff.mp hview).1]
      exact hi.keeps_viewer hview (a := firstBuf) (b := firstBuf) (by rw [hv']; rfl) rfl
        (by rw [hv']; rfl) rfl hacc hsent
  | false =>
      have hrun := running_of_viewer hi (by rw [hv]; decide) (by rw [hv]; decide)
      refine hi.keeps_viewer_idle hview hrun ?_ hacc hsent rfl
      split <;> rfl

/-- A refresh begins. -/
theorem refresh_keeps {bufIdx : Fin 2} (hv : d.viewer = .ready bufIdx true) :
    Keeps d.link (d.event .refresh) { d.link with viewer := .refreshing bufIdx false } := by
  have hv' : d.link.viewer = .ready bufIdx true := hv
  have hrun := running_of_viewer hi (by rw [hv]; simp) (by rw [hv]; simp)
  have hview : d.link.viewable = true := by
    refine eq_true_of_ne_false fun hnone => ?_
    have hout := (hi.idle hrun hnone).2
    rw [hv'] at hout
    cases hout
  exact hi.keeps_viewer hview (a := bufIdx) (b := bufIdx) (by rw [hv']; rfl) rfl (by rw [hv']; rfl)
    (Nat.mod_eq_of_lt bufIdx.isLt).symm (Bool.and_false _) (ite_self _)

/-- A refresh ends. -/
theorem refreshed_keeps {bufIdx : Fin 2} {pending : Bool} (hv : d.viewer = .refreshing bufIdx pending) :
    Keeps d.link (d.event .refreshed) { d.link with
      viewer := if hasConversion d.config.mode then .ready (otherBuf bufIdx) pending
        else .terminated } := by
  have hv' : d.link.viewer = .refreshing bufIdx pending := hv
  have hrun := running_of_viewer hi (by rw [hv]; simp) (by rw [hv]; simp)
  have hview : d.viewable = true := by
    refine eq_true_of_ne_false fun hnone => ?_
    have hout := (hi.idle hrun hnone).2
    rw [hv'] at hout
    cases pending <;> cases hout
  have hconv := (Bool.and_eq_true_iff.mp hview).2
  have hshown : (d.event .refreshed).shown = some bufIdx := by simp [event, shows, hv, hconv]
  rw [if_pos hconv]
  exact hi.keeps_viewer hview (a := bufIdx) (b := otherBuf bufIdx) (by rw [hv']; rfl) rfl
    (by rw [hv', hshown]; cases pending <;> rfl) (by rw [hshown]; exact val_otherBuf bufIdx)
    (Bool.and_false _) (ite_self _)

/-- **The link after one paced step.** -/
theorem next_keeps {d' : FbDevice} {l : Label} (hp : Paced d l) (h : next d l = some d') :
    Keeps d.link (d.event l) d'.link := by
  have hsilent : ∀ {l}, d.displays l = false → d.roundEnd l = none →
      (d.event l).accepted = false ∧ (d.event l).sent = none := fun hd he => by simp [event, hd, he]
  unfold next at h
  split at h
  · cases h
  cases l with dsimp only at h
  | write ofs be data =>
      cases h
      exact slaveWrite_keeps hi hp
  | read ofs be =>
      cases h
      rw [link_slaveRead]
      exact hi.keeps_self (hsilent rfl rfl).1 (hsilent rfl rfl).2 rfl
  | startStop =>
      split at h <;> cases h
      exact runStartStop_keeps hi hp
  | display =>
      split at h <;> cases h
      exact runDisplay_keeps hi ‹_› hp
  | response bErr data =>
      split at h <;> cases h
      exact response_keeps hi ‹_› hp
  | irqUpdate =>
      split at h <;> cases h
      rw [link_runIrqUpdate]
      exact hi.keeps_self (hsilent rfl rfl).1 (hsilent rfl rfl).2 rfl
  | viewerReady =>
      split at h <;> cases h
      exact viewerReady_keeps hi ‹_›
  | refresh =>
      split at h <;> cases h
      exact refresh_keeps hi ‹_›
  | refreshed =>
      split at h <;> cases h
      exact refreshed_keeps hi ‹_›

end Steps

/-- The constructor: stopped, started, or halted in its start. -/
theorem new_spec (reset : FbReset) (bufSize : ULong) :
    (new reset bufSize).link.viewer.outstanding = [] ∧ (new reset bufSize).link.underway = 0 ∧
      ((new reset bufSize).halted = false → Synced (new reset bufSize).link) := by
  unfold new
  have hzero : (0#32 : ULong).toNat < 2 ^ 31 := by decide
  cases hs : reset.fbStart with
  | false =>
      refine ⟨rfl, rfl, fun _ => ⟨fun hm => ?_, fun hr => ?_, fun hr => ?_, fun _ => .inl rfl, hzero,
        fun hr => ?_⟩⟩
      · cases hm
      · cases hr
      · cases hr
      · cases hr
  | true =>
      simp only [if_true, init]
      split
      · exact ⟨rfl, rfl, fun hh => by cases hh⟩
      · next h =>
          have hn : IsSize _ := Int.not_le.mp (not_or.mp h).2
          refine ⟨rfl, rfl, fun _ => ⟨fun _ => rfl, fun _ _ => ⟨firstBuf, rfl, rfl⟩,
            fun _ _ => ⟨rfl, rfl⟩, fun hs => ?_, hn.lt, fun _ _ _ _ _ hdma => ?_⟩⟩
          · cases hs
          · cases hdma

end FbDevice

/-- The invariant of the runs of paced steps. -/
structure RefreshInv (s : Traced FbDevice FbEvent) : Prop where
  fits : Fits s.trace s.state.link
  synced : s.state.halted = false → Synced s.state.link

theorem refreshInv_step {s s' : Traced FbDevice FbEvent} {l : FbDevice.Label} (hi : RefreshInv s)
    (hp : Paced s.state l) (h : FbDevice.nextTraced s l = some s') : RefreshInv s' := by
  obtain ⟨hnext, htrace⟩ := Traced.step_eq_some h
  have hk := FbDevice.next_keeps (hi.synced (FbDevice.halted_of_next hnext)) hp hnext
  refine ⟨?_, fun _ => hk.synced⟩
  rw [htrace]
  exact hi.fits.snoc hk.toBalances hp.fills

/-! ## 2. To the end of what is left -/

namespace FbDevice

/-- The device is running, with a viewer that can show its frames. -/
structure Showing (d : FbDevice) : Prop where
  halted : d.halted = false
  running : d.regs.status = .RUNNING
  viewable : d.viewable = true

/-- From one state of such a device to another one, by steps that are no display commands. -/
structure GoesOn (s : Traced FbDevice FbEvent) (ls : List Label) (s' : Traced FbDevice FbEvent) :
    Prop where
  exec : exec nextTraced s ls = some s'
  inv : RefreshInv s'
  showing : Showing s'.state
  accepted : acceptedCount s'.trace = acceptedCount s.trace

namespace GoesOn

variable {s s' s'' : Traced FbDevice FbEvent} {ls ls' : List Label}

theorem refl (hi : RefreshInv s) (hs : Showing s.state) : GoesOn s [] s := ⟨rfl, hi, hs, rfl⟩

theorem trans (h : GoesOn s ls s') (h' : GoesOn s' ls' s'') : GoesOn s (ls ++ ls') s'' :=
  ⟨by rw [exec_append h.exec, h'.exec], h'.inv, h'.showing, h'.accepted.trans h.accepted⟩

/-- One step. -/
theorem step {d' : FbDevice} {l : Label} (hi : RefreshInv s) (hp : Paced s.state l)
    (hd : s.state.displays l = false) (h : next s.state l = some d') (hshow : Showing d') :
    GoesOn s [l] ⟨d', s.trace ++ [s.state.event l]⟩ := by
  have hs : nextTraced s l = some ⟨d', s.trace ++ [s.state.event l]⟩ := by
    rw [nextTraced, Traced.step, h, Option.map_some]
  refine ⟨by rw [exec_cons hs, exec_nil], refreshInv_step hi hp hs, hshow, ?_⟩
  have hacc : (s.state.event l).accepted = false := by simp [event, hd]
  rw [acceptedCount_snoc, hacc, Bool.toNat_false, Nat.add_zero]

end GoesOn

/-- Only starts and stops have conditions of their own. -/
theorem paced_of_ne {d : FbDevice} {l : Label} (hne : l ≠ .startStop)
    (displays : d.regs.status = .RUNNING → d.displays l →
      d.displayThread = .waiting false ∧ d.viewable = true)
    (fills : ∀ b, d.fills l = some b → b ∉ d.viewer.outstanding)
    (signals : d.regs.status = .RUNNING → d.roundEnd l ≠ none → d.viewer.takesSignal) :
    Paced d l :=
  ⟨displays, fills, signals, fun h => absurd h hne, fun h => absurd h hne⟩

/-- A step is paced when the viewer has nothing left: display commands, starts and stops apart. -/
theorem paced_of_ready {d : FbDevice} {l : Label} {b : Fin 2} (hv : d.viewer = .ready b false)
    (hl : d.displays l = false) (hne : l ≠ .startStop) : Paced d l := by
  refine paced_of_ne hne (fun _ hd => ?_) (fun _ _ => ?_) (fun _ _ => ?_)
  · rw [hl] at hd
    cases hd
  · rw [hv]
    exact List.not_mem_nil
  · rw [hv]
    rfl

/-- A step of the viewer is paced. -/
theorem paced_of_viewer {d : FbDevice} {l : Label}
    (hl : l = .viewerReady ∨ l = .refresh ∨ l = .refreshed) : Paced d l := by
  have hd : d.displays l = false := by rcases hl with rfl | rfl | rfl <;> rfl
  have hf : d.fills l = none := by rcases hl with rfl | rfl | rfl <;> simp [fills]
  have he : d.roundEnd l = none := by rcases hl with rfl | rfl | rfl <;> rfl
  have hne : l ≠ .startStop := by rcases hl with rfl | rfl | rfl <;> simp
  refine paced_of_ne hne (fun _ hd' => ?_) (fun _ hf' => ?_) (fun _ he' => absurd he he')
  · rw [hd] at hd'
    cases hd'
  · rw [hf] at hf'
    cases hf'

section Drains

variable {s : Traced FbDevice FbEvent} (hi : RefreshInv s) (hs : Showing s.state)

include hi hs

theorem viewer_goesOn {l : Label} {v : Viewer}
    (hl : l = .viewerReady ∨ l = .refresh ∨ l = .refreshed)
    (h : next s.state l = some { s.state with viewer := v }) :
    GoesOn s [l] ⟨{ s.state with viewer := v }, s.trace ++ [s.state.event l]⟩ :=
  .step hi (paced_of_viewer hl) (by rcases hl with rfl | rfl | rfl <;> rfl) h
    ⟨hs.halted, hs.running, hs.viewable⟩

/-- A viewer outside its handler, to where no signal is pending. -/
theorem drains_ready {b : Fin 2} {pending : Bool} (hv : s.state.viewer = .ready b pending) :
    ∃ pre u, (∀ l ∈ pre, l.ofDisplay) ∧ GoesOn s pre u ∧
      (∃ b, u.state.viewer = .ready b false) ∧ u.state.displayThread = s.state.displayThread := by
  cases pending with
  | false => exact ⟨[], s, by simp, .refl hi hs, ⟨b, hv⟩, rfl⟩
  | true =>
      have hconv := (Bool.and_eq_true_iff.mp hs.viewable).2
      have h₁ := viewer_goesOn hi hs (v := .refreshing b false) (.inr (.inl rfl))
        (by simp [next, hs.halted, hv])
      have h₂ := viewer_goesOn h₁.inv h₁.showing (v := .ready (otherBuf b) false)
        (.inr (.inr rfl)) (by simp [next, hs.halted, hconv])
      exact ⟨_, _, by simp [Label.ofDisplay], h₁.trans h₂, ⟨otherBuf b, rfl⟩, rfl⟩

/-- **The viewer gets to the end of its refreshes.** -/
theorem drains : ∃ pre u, (∀ l ∈ pre, l.ofDisplay) ∧ GoesOn s pre u ∧
    (∃ b, u.state.viewer = .ready b false) ∧ u.state.displayThread = s.state.displayThread := by
  obtain ⟨b, hb, -⟩ := (hi.synced hs.halted).turn hs.running hs.viewable
  obtain ⟨hfits, hconv⟩ := Bool.and_eq_true_iff.mp hs.viewable
  have hturn : s.state.viewer.turn = some b := hb
  cases hv : s.state.viewer with
  | starting =>
      have h₁ := viewer_goesOn hi hs (v := .ready firstBuf false) (.inl rfl)
        (by simp [next, hs.halted, hv, hfits])
      exact ⟨_, _, by simp [Label.ofDisplay], h₁, ⟨firstBuf, rfl⟩, rfl⟩
  | ready b pending => exact drains_ready hi hs hv
  | refreshing b pending =>
      have h₁ := viewer_goesOn hi hs (v := .ready (otherBuf b) pending) (.inr (.inr rfl))
        (by simp [next, hs.halted, hv, hconv])
      obtain ⟨pre, u, hpre, h₂, hready, hthread⟩ := drains_ready h₁.inv h₁.showing rfl
      exact ⟨.refreshed :: pre, u, by simpa [Label.ofDisplay] using hpre, h₁.trans h₂, hready,
        hthread⟩
  | unset => rw [hv] at hturn; cases hturn
  | terminated => rw [hv] at hturn; cases hturn
  | reaped => rw [hv] at hturn; cases hturn

end Drains

section Rounds

variable {s : Traced FbDevice FbEvent} {b : Fin 2}

/-- A step of a round finds the viewer with nothing left: the round is over, or its DMA goes on. -/
theorem round_goesOn (hi : RefreshInv s) (hs : Showing s.state)
    (hv : s.state.viewer = .ready b false) {l : Label} {d' : FbDevice} {gen : Nat} {idx : Fin 2}
    {addr offset : ULong} (hd : s.state.displays l = false) (hne : l ≠ .startStop)
    (hnext : next s.state l = some d') (hhalted : d'.halted = false)
    (hlink : d'.link = if (s.state.roundEnd l).isSome then s.state.link.endRound
      else s.state.link.transfer gen idx addr offset) : ∃ u, GoesOn s [l] u ∧
      ((u.state.displayThread = .waiting false ∧ u.state.viewer = .ready b true) ∨
        (u.state.displayThread = .dma gen idx addr offset ∧ u.state.viewer = .ready b false ∧
          u.state.memSize = s.state.memSize)) := by
  have hstatus : d'.regs.status = d'.link.status := rfl
  have hviewer : d'.viewer = d'.link.viewer := rfl
  have hthread : d'.displayThread = d'.link.displayThread := rfl
  have hsize : d'.memSize = d'.link.memSize := rfl
  have hview : d'.viewable = d'.link.viewable := rfl
  refine ⟨_, .step hi (paced_of_ready hv hd hne) hd hnext ⟨hhalted, ?_, ?_⟩, ?_⟩
  · rw [hstatus, hlink]
    split <;> exact hs.running
  · rw [hview, hlink]
    split <;> exact hs.viewable
  · split at hlink
    · refine .inl ⟨by rw [hthread, hlink]; rfl, ?_⟩
      rw [hviewer, hlink]
      show signal s.state.viewer = _
      rw [hv]
      rfl
    · exact .inr ⟨by rw [hthread, hlink]; rfl, by rw [hviewer, hlink]; exact hv,
        by rw [hsize, hlink]; rfl⟩

/-- A response to the DMA. -/
theorem response_goesOn (hi : RefreshInv s) (hs : Showing s.state)
    (hv : s.state.viewer = .ready b false) {gen : Nat}
    {idx : Fin 2} {addr offset : ULong} (hw : s.state.displayThread = .dma gen idx addr offset)
    (bErr : Bool) (data : ULong) : ∃ u, GoesOn s [.response bErr data] u ∧
      ((u.state.displayThread = .waiting false ∧ u.state.viewer = .ready b true) ∨
        (u.state.displayThread = .dma gen idx addr (offset + 4#32) ∧
          u.state.viewer = .ready b false ∧ u.state.memSize = s.state.memSize)) := by
  refine round_goesOn hi hs hv rfl (by simp) (by simp only [next, hs.halted, hw]; rfl) ?_
    (link_response s.state hw bErr data)
  simp only [response, dmaLoop, refreshDone, store]
  repeat' split
  all_goals exact hs.halted

/-- The wake-up of `display_thread`. -/
theorem display_goesOn (hi : RefreshInv s) (hs : Showing s.state)
    (hv : s.state.viewer = .ready b false) (hw : s.state.displayThread = .waiting true) : ∃ u, GoesOn s [.display] u ∧
      ((u.state.displayThread = .waiting false ∧ u.state.viewer = .ready b true) ∨
        (u.state.displayThread = .dma s.state.gen s.state.procIdx s.state.regs.bufAddr 0#32 ∧
          u.state.viewer = .ready b false ∧ u.state.memSize = s.state.memSize)) := by
  refine round_goesOn hi hs hv rfl (by simp) (by simp [next, hs.halted, hw]) ?_
    (link_runDisplay s.state)
  simp only [runDisplay, dmaLoop, refreshDone]
  repeat' split
  all_goals exact hs.halted

theorem responses_succ (rsp : Nat → Bool × ULong) (n : Nat) :
    responses rsp (n + 1) =
      .response (rsp 0).1 (rsp 0).2 :: responses (fun i => rsp (i + 1)) n := by
  simp only [responses, List.range_succ_eq_map, List.map_cons, List.map_map]
  rfl

/-- **The DMA ends**, after at most one response for each word that is left. -/
theorem dma_ends (n : Nat) (hi : RefreshInv s) (hs : Showing s.state)
    (hv : s.state.viewer = .ready b false) {gen : Nat}
    {idx : Fin 2} {addr offset : ULong} (hw : s.state.displayThread = .dma gen idx addr offset)
    (hn : s.state.memSize.toNat ≤ offset.toNat + 4 * n) (rsp : Nat → Bool × ULong) :
    ∃ m u, GoesOn s (responses rsp m) u ∧ u.state.displayThread = .waiting false ∧
      u.state.viewer = .ready b true := by
  have hsync := hi.synced hs.halted
  have hlt : offset < s.state.memSize := (hsync.transfer hs.running gen idx addr offset hw).2.2
  have hsize : s.state.memSize.toNat < 2 ^ 31 := hsync.size
  induction n generalizing s offset rsp with
  | zero =>
      have := BitVec.lt_def.mp hlt
      omega
  | succ n ih =>
      obtain ⟨u, hu, ⟨hthread, hview⟩ | ⟨hthread, hview, hmem⟩⟩ :=
        response_goesOn hi hs hv hw (rsp 0).1 (rsp 0).2
      · exact ⟨1, u, hu, hthread, hview⟩
      · -- no overflow: the offset is below `mem_size`, which is a positive `int`
        have hoffset : (offset + 4#32).toNat = offset.toNat + 4 := by
          have := BitVec.lt_def.mp hlt
          rw [BitVec.toNat_add]
          exact Nat.mod_eq_of_lt (by simp; omega)
        have hsync' := hu.inv.synced hu.showing.halted
        obtain ⟨m, u', hu', hend⟩ := ih hu.inv hu.showing hview hthread
          (by rw [hmem, hoffset]; omega) (fun i => rsp (i + 1)) hsync'
          (hsync'.transfer hu.showing.running gen idx addr _ hthread).2.2 (hmem ▸ hsize)
        exact ⟨m + 1, u', by rw [responses_succ]; exact hu.trans hu', hend⟩

/-- **A round ends**, with its signal pending; without one, the thread waits. -/
theorem round_ends (hi : RefreshInv s) (hs : Showing s.state)
    (hv : s.state.viewer = .ready b false) (rsp : Nat → Bool × ULong) : ∃ pre n u, (∀ l ∈ pre, l.ofDisplay) ∧
      GoesOn s (pre ++ responses rsp n) u ∧ u.state.displayThread = .waiting false ∧
      ∃ pending, u.state.viewer = .ready b pending := by
  cases hw : s.state.displayThread with
  | waiting woken =>
      cases woken with
      | false => exact ⟨[], 0, s, by simp, .refl hi hs, hw, false, hv⟩
      | true =>
          obtain ⟨u, hu, ⟨hthread, hview⟩ | ⟨hthread, hview, -⟩⟩ := display_goesOn hi hs hv hw
          · exact ⟨[.display], 0, u, by simp [Label.ofDisplay], hu, hthread, true, hview⟩
          · obtain ⟨n, u', hu', hend, hview'⟩ := dma_ends u.state.memSize.toNat hu.inv hu.showing
              hview hthread (by omega) rsp
            exact ⟨[.display], n, u', by simp [Label.ofDisplay], hu.trans hu', hend, true, hview'⟩
  | dma gen idx addr offset =>
      obtain ⟨n, u, hu, hend, hview⟩ := dma_ends s.state.memSize.toNat hi hs hv hw (by omega) rsp
      exact ⟨[], n, u, by simp, hu, hend, true, hview⟩

/-- With nothing under way and no refresh due, all is delivered. -/
theorem delivers_of_idle (hi : RefreshInv s) (hway : s.state.link.underway = 0)
    (hout : s.state.link.viewer.outstanding = []) : Delivers s := by
  intro rsp
  refine ⟨[], 0, [], s, by simp, rfl, ?_⟩
  rw [hi.fits.displayed, hi.fits.shown, hout, hway, List.append_nil, Nat.add_zero]

/-- **What is left is delivered.** -/
theorem delivers (hi : RefreshInv s) (hh : s.state.halted = false) : Delivers s := by
  cases hst : s.state.regs.status with
  | STOPPED =>
      refine delivers_of_idle hi (FbLink.underway_of_stopped hst) ?_
      rcases (hi.synced hh).silent hst with hv | hv <;> rw [hv] <;> rfl
  | RUNNING =>
    cases hview : s.state.viewable with
    | false =>
      obtain ⟨hwait, hout⟩ := (hi.synced hh).idle hst hview
      exact delivers_of_idle hi (FbLink.underway_of_waiting hwait) hout
    | true =>
      intro rsp
      obtain ⟨pre₁, u₁, hpre₁, h₁, ⟨b, hready⟩, -⟩ := drains hi ⟨hh, hst, hview⟩
      obtain ⟨pre₂, n, u₂, hpre₂, h₂, hwait, pending, hready₂⟩ :=
        round_ends h₁.inv h₁.showing hready rsp
      obtain ⟨post, u, hpost, h₃, ⟨b', hready₃⟩, hthread⟩ :=
        drains_ready h₂.inv h₂.showing hready₂
      refine ⟨pre₁ ++ pre₂, n, post, u, ?_, ?_, ?_⟩
      · simp only [List.mem_append]
        intro l hor
        rcases hor with (hl | hl) | hl
        · exact hpre₁ l hl
        · exact hpre₂ l hl
        · exact hpost l hl
      · simpa [List.append_assoc] using ((h₁.trans h₂).trans h₃).exec
      · have hway : u.state.link.underway = 0 :=
          FbLink.underway_of_waiting (hthread.trans hwait)
        have hout : u.state.link.viewer.outstanding = [] := by
          have hview : u.state.link.viewer = .ready b' false := hready₃
          rw [hview]
          rfl
        have hfits := h₃.inv.fits
        rw [← ((h₁.trans h₂).trans h₃).accepted, hfits.displayed, hfits.shown, hout, hway,
          List.append_nil, Nat.add_zero]

end Rounds

/-! ## 3. Runs -/

/-- **Device and viewer in step**: from the constructor on, in every run of paced steps, the
    refreshes are those of the buffers that were completed, in this order and untouched since, and
    every display command accepted while running leads to one. -/
theorem refreshes_in_step (reset : FbReset) (bufSize : ULong) (ls : List Label)
    (h : Steps nextTraced (fun s l => Paced s.state l) ⟨new reset bufSize, []⟩ ls) :
    Along nextTraced InStep ⟨new reset bufSize, []⟩ ls := by
  refine along_of_steps (I := RefreshInv) (fun _ hi => ⟨hi.fits, fun hh => delivers hi hh⟩)
    (fun _ _ _ hi hp hs => refreshInv_step hi hp hs) ⟨?_, (new_spec reset bufSize).2.2⟩ h
  obtain ⟨hout, hway, -⟩ := new_spec reset bufSize
  refine ⟨?_, ?_, fun pre e post b ht => ?_⟩
  · rw [hout]
    rfl
  · rw [hway]
    rfl
  · simp at ht

/-- One display command, up to the end of its refresh. -/
theorem refreshes_in_step_display :
    Along nextTraced InStep ⟨new argbReset 0#32, []⟩
      [.viewerReady, ctrlWrite 9#8, .display, .refresh, .refreshed] := by
  refine refreshes_in_step argbReset 0#32 _ ?_
  refine .cons rfl (paced_of_ne (by simp) (by decide) (by decide) (by decide)) ?_
  refine .cons rfl (paced_of_ne (by simp [ctrlWrite]) (by decide) (by decide) (by decide)) ?_
  refine .cons rfl (paced_of_ne (by simp) (by decide) (by decide) (by decide)) ?_
  refine .cons rfl (paced_of_ne (by simp) (by decide) (by decide) (by decide)) ?_
  exact .cons rfl (paced_of_ne (by simp) (by decide) (by decide) (by decide)) trivial

/-- A display command, a stop and a start, and a second display command: the buffer completed for
    it is buffer 1, and the viewer shows buffer 0. -/
theorem refreshes_in_step_fails :
    (exec nextTraced ⟨new argbReset 0#32, []⟩
      [.viewerReady, ctrlWrite 9#8, .display, .refresh, .refreshed, ctrlWrite 0#8, .startStop,
        ctrlWrite 1#8, .startStop, .viewerReady, ctrlWrite 9#8, .display, .refresh,
        .refreshed]).map (fun s => (sentBufs s.trace, shownBufs s.trace)) =
        some ([0, 1], [0, 0]) ∧
      ¬ Along nextTraced InStep ⟨new argbReset 0#32, []⟩
        [.viewerReady, ctrlWrite 9#8, .display, .refresh, .refreshed, ctrlWrite 0#8, .startStop,
          ctrlWrite 1#8, .startStop, .viewerReady, ctrlWrite 9#8, .display, .refresh,
          .refreshed] := by
  have hrun : (exec nextTraced ⟨new argbReset 0#32, []⟩
      [.viewerReady, ctrlWrite 9#8, .display, .refresh, .refreshed, ctrlWrite 0#8, .startStop,
        ctrlWrite 1#8, .startStop, .viewerReady, ctrlWrite 9#8, .display, .refresh,
        .refreshed]).map (fun s => (sentBufs s.trace, shownBufs s.trace)) =
        some ([0, 1], [0, 0]) := by decide
  refine ⟨hrun, fun h => ?_⟩
  obtain ⟨t, ht, htrace⟩ := Option.map_eq_some_iff.mp hrun
  obtain ⟨hsent, hshown⟩ := Prod.mk.inj htrace
  have hfits := (h.last ht).fits.shown
  rw [hsent, hshown] at hfits
  cases hfits

end FbDevice

end Rabbits
