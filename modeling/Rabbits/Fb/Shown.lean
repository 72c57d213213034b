/-
  File:      Rabbits/Fb/Shown.lean
  Subject:   The pictures on the screen against the pictures that were drawn (framebuffer_device.cpp,
             fb_viewer.c).

  A master draws into the current buffer and gives a display command; the device goes on with the
  other buffer, may transfer a picture from memory over the one that was drawn, and signals the viewer,
  which copies it. Meanwhile the master draws the next one.

  * `Picture`, `FbDevice.drawing`, `drawn` -- the pictures that the display commands and the transfers
    make, `shownPictures` -- those that the viewer has copied;
  * `FbDevice.due` -- the buffers between a display command and the end of its refresh;
  * `next_due`, `next_shm` -- what a step does to them, and to what is in a buffer;
  * `pictures_shown` -- **in every run of paced steps the screen shows the pictures drawn, in order and
    untouched**.
-/
import Mathlib.Data.List.ModifyLast
import Rabbits.Fb.FrameAccess
import Rabbits.Fb.Rounds

namespace Rabbits

open Lib

/-! ## 1. Pictures -/

/-- The words of a buffer. -/
abbrev Picture : Type := Nat → ULong

/-- What a step does to the pictures: it takes one into a display command, transfers a word to the one
    under way, or ends the refresh of one. -/
structure Drawing where
  accepted : Option Picture
  word : Option (Nat × ULong)
  shown : Option Picture

namespace FbDevice

/-- The word that a response transfers, and its place. -/
def transferred (d : FbDevice) : Label → Option (Nat × ULong)
  | .response _ data =>
      match d.displayThread with
      | .dma gen _ _ offset =>
          if d.mem = .attached ∧ gen = d.gen then some (offset.toNat / 4, data) else none
      | .waiting _ => none
  | _ => none

def drawing (d : FbDevice) (l : Label) : Drawing where
  accepted := if (d.event l).accepted then some (d.shm d.memIdx) else none
  word := d.transferred l
  shown := (d.shows l).map d.shm

/-- The device with what was drawn and shown. -/
def nextDrawn : Traced FbDevice Drawing → Label → Option (Traced FbDevice Drawing) :=
  Traced.step next fun d l => [d.drawing l]

end FbDevice

def setWord (w : Nat × ULong) (p : Picture) : Picture := Function.update p w.1 w.2

/-- The pictures after one more step. -/
def addDrawing (ps : List Picture) (e : Drawing) : List Picture :=
  (e.word.elim ps fun w => ps.modifyLast (setWord w)) ++ e.accepted.toList

/-- The pictures of the display commands, with what was transferred to them. -/
def drawn (t : List Drawing) : List Picture := t.foldl addDrawing []

def shownPictures (t : List Drawing) : List Picture := t.filterMap (·.shown)

namespace FbDevice

/-- The buffers between a display command and the end of its refresh, the oldest first. -/
def due (d : FbDevice) : List (Fin 2) :=
  d.viewer.outstanding ++ if d.link.underway = 1 then [d.procIdx] else []

end FbDevice

/-- Of the pictures drawn, the first ones were shown, and the others are in the buffers that are due. -/
structure PicturesRight (s : Traced FbDevice Drawing) : Prop where
  order : shownPictures s.trace <+: drawn s.trace
  rest : drawn s.trace = shownPictures s.trace ++ s.state.due.map s.state.shm

/-! ## 2. The buffers that are due -/

namespace FbDevice

variable {d d' : FbDevice} {l : Label}

/-- Only a display command goes on to the other buffer. -/
theorem next_memIdx (h : next d l = some d') :
    d'.memIdx = if d.displays l then otherBuf d.memIdx else d.memIdx := by
  have hidx : ∀ {c c' : FbDevice}, c'.link = c.link → c'.memIdx = c.memIdx := fun hl =>
    congrArg FbLink.memIdx hl
  unfold next at h
  split at h
  · cases h
  cases l with dsimp only at h
  | write ofs be data =>
      cases h
      have hlink := congrArg FbLink.memIdx (link_slaveWrite d ofs be data)
      rw [apply_ite FbLink.memIdx] at hlink
      exact hlink
  | read ofs be =>
      cases h
      exact hidx (link_slaveRead d ofs be)
  | startStop =>
      split at h <;> cases h
      rcases d.link_runStartStop with ⟨-, n, v, -, hlink⟩ | ⟨-, hlink⟩ | hlink <;>
        exact congrArg FbLink.memIdx hlink
  | display =>
      split at h <;> cases h
      have hlink := congrArg FbLink.memIdx (link_runDisplay d)
      split at hlink <;> exact hlink
  | response bErr data =>
      split at h <;> cases h
      next gen idx addr offset hw =>
        have hlink := congrArg FbLink.memIdx (link_response d hw bErr data)
        split at hlink <;> exact hlink
  | irqUpdate =>
      split at h <;> cases h
      exact hidx (link_runIrqUpdate d)
  | viewerReady =>
      split at h <;> cases h
      rfl
  | refresh =>
      split at h <;> cases h
      rfl
  | refreshed =>
      split at h <;> cases h
      rfl

theorem otherBuf_otherBuf (idx : Fin 2) : otherBuf (otherBuf idx) = idx := by
  revert idx
  decide

theorem otherBuf_ne (idx : Fin 2) : otherBuf idx ≠ idx := by
  revert idx
  decide

/-- A display command neither ends a round nor a refresh. -/
theorem quiet_of_displays (h : d.displays l = true) : d.roundEnd l = none ∧ d.shows l = none := by
  cases l with
  | write ofs be data => exact ⟨rfl, rfl⟩
  | read | startStop | display | response | irqUpdate | viewerReady | refresh | refreshed => cases h

theorem displays_of_accepted (h : (d.event l).accepted = true) :
    d.regs.status = .RUNNING ∧ d.displays l = true := by
  have hboth := Bool.and_eq_true_iff.mp h
  exact ⟨eq_of_beq hboth.1, hboth.2⟩

/-- The buffer of a round is the one that the masters do not draw into. -/
theorem procIdx_of_sent (hi : Synced d.link) {idx : Fin 2} (h : (d.event l).sent = some idx) :
    idx = d.procIdx := by
  have hsent : (if d.regs.status = .RUNNING then d.roundEnd l else none) = some idx := h
  split at hsent
  · next hrun =>
      cases l with
      | display =>
          rw [roundEnd] at hsent
          split at hsent <;> cases hsent
          rfl
      | response bErr data =>
          rw [roundEnd] at hsent
          split at hsent
          · next gen idx' addr offset hw =>
              split at hsent <;> cases hsent
              exact (hi.transfer hrun gen idx addr offset hw).2.1
          · cases hsent
      | write | read | startStop | irqUpdate | viewerReady | refresh | refreshed => cases hsent
  · cases hsent

/-- **What is due after a paced step**: a display command adds its buffer, a refresh takes its own. -/
theorem next_due (hi : Synced d.link) (hp : Paced d l) (h : next d l = some d') :
    d.due ++ (if (d.event l).accepted then [d.memIdx] else []) = (d.shows l).toList ++ d'.due := by
  have hk := next_keeps hi hp h
  have hshown : d.viewer.outstanding ++ (d.event l).sent.toList =
      (d.shows l).toList ++ d'.viewer.outstanding := hk.shown
  have hcount := hk.displayed
  have hidx := next_memIdx h
  cases hacc : (d.event l).accepted with
  | true =>
      obtain ⟨hrun, hdisp⟩ := displays_of_accepted hacc
      obtain ⟨hround, hshows⟩ := quiet_of_displays hdisp
      have hsent : (d.event l).sent = none := by
        show (if d.regs.status = .RUNNING then d.roundEnd l else none) = none
        rw [hround, ite_self]
      have hway : d.link.underway = 0 := FbLink.underway_of_waiting (hp.displays hrun hdisp).1
      have hway' : d'.link.underway = 1 := by
        rw [hway, hacc, hsent] at hcount
        simpa using hcount.symm
      have hproc : d'.procIdx = d.memIdx := by
        rw [procIdx, hidx, if_pos hdisp, otherBuf_otherBuf]
      rw [hsent, hshows, Option.toList_none, List.append_nil, List.nil_append] at hshown
      rw [due, due, hway, hway', hproc, hshows, hshown]
      simp
  | false =>
      rw [hacc, Bool.toNat_false, Nat.add_zero] at hcount
      simp only [Bool.false_eq_true, if_false, List.append_nil]
      cases hsent : (d.event l).sent with
      | some idx =>
          have hway : d.link.underway = 1 ∧ d'.link.underway = 0 := by
            have hle : d.link.underway ≤ 1 := by
              unfold FbLink.underway
              split <;> omega
            rw [hsent, Option.toList_some, List.length_singleton] at hcount
            omega
          rw [hsent, Option.toList_some, procIdx_of_sent hi hsent] at hshown
          rw [due, due, hway.1, hway.2, if_pos rfl, hshown]
          simp
      | none =>
          rw [hsent, Option.toList_none, List.length_nil, Nat.zero_add] at hcount
          rw [hsent, Option.toList_none, List.append_nil] at hshown
          rw [due, due, ← hcount, hshown, List.append_assoc]
          congr 2
          by_cases hway : d.link.underway = 1
          · have hrun : d.regs.status = .RUNNING := by
              by_contra hne
              rw [FbLink.underway, if_neg (fun hc => hne hc.1)] at hway
              cases hway
            have hdisp : d.displays l = false := by
              have hand : (d.regs.status == .RUNNING && d.displays l) = false := hacc
              rwa [hrun] at hand
            rw [if_pos hway, if_pos hway, procIdx, procIdx, hidx, hdisp]
            rfl
          · rw [if_neg hway, if_neg hway]

/-! ## 3. What is in them -/

theorem store_shm_of_ne (d : FbDevice) {idx b : Fin 2} (hb : b ≠ idx) (memOfs : Nat) (val : ULong) :
    (d.store idx memOfs val).shm b = d.shm b := by
  unfold store
  split
  · exact Function.update_of_ne hb _ _
  · rfl

/-- A write of a word of the frame goes into the buffer that is current behind it. -/
theorem writeFrame_shm (d : FbDevice) (memOfs : ULong) (be : Byte) (val : ULong) {b : Fin 2}
    (hb : b ≠ if d.wraps memOfs be then otherBuf d.memIdx else d.memIdx) :
    (d.writeFrame memOfs be val).shm b = d.shm b := by
  rw [writeFrame]
  split
  · next hwrap =>
      rw [if_pos hwrap] at hb
      exact store_shm_of_ne d.display hb _ _
  · next hwrap =>
      rw [if_neg hwrap] at hb
      exact store_shm_of_ne d hb _ _

theorem writeFrame_shm_of_detached (d : FbDevice) (h : d.mem ≠ .attached) (memOfs : ULong) (be : Byte)
    (val : ULong) : (d.writeFrame memOfs be val).shm = d.shm := by
  have hdisplay : d.display.mem ≠ .attached := h
  rw [writeFrame]
  split
  · rw [store, if_neg hdisplay]
    rfl
  · rw [store, if_neg h]

theorem slaveWrite_shm {ofs : ULong} {be : Byte} {data : Fin 8 → Byte} {b : Fin 2}
    (hb : d.fills (.write ofs be data) ≠ some b) : (d.slaveWrite ofs be data).shm b = d.shm b := by
  rw [slaveWrite]
  cases hreg : decodeFbRegister (lofsOf ofs be) with
  | some r =>
      cases r with
      | CTRL =>
          simp only [writeCtrl]
          split <;> rfl
      | WH | BUF | IRQCLR | MODE => rfl
  | none =>
      cases hofs : d.frameOffset ofs be with
      | none => rfl
      | some memOfs =>
          by_cases hmem : d.mem = .attached
          · refine writeFrame_shm d memOfs be _ fun hb' => hb ?_
            rw [fills, if_pos hmem]
            simp only [hofs, Option.map_some, hb']
          · exact congrFun (writeFrame_shm_of_detached d hmem memOfs be _) b

theorem dmaLoop_shm (d : FbDevice) (gen : Nat) (idx : Fin 2) (addr offset : ULong) :
    (d.dmaLoop gen idx addr offset).shm = d.shm := by
  rw [dmaLoop]
  split <;> rfl

/-- A response stores its word, if its buffer is still there. -/
theorem response_shm (d : FbDevice) (gen : Nat) (idx : Fin 2) (addr offset : ULong) (bErr : Bool)
    (data : ULong) : (d.response gen idx addr offset bErr data).shm =
      if d.mem = .attached ∧ gen = d.gen then
        Function.update d.shm idx (setWord (offset.toNat / 4, data) (d.shm idx))
      else d.shm := by
  have hloop (x : FbDevice) : (if bErr then x.refreshDone
      else x.dmaLoop gen idx addr (offset + 4#32)).shm = x.shm := by
    split
    · rfl
    · exact dmaLoop_shm x gen idx addr _
  rw [response, hloop]
  by_cases hgen : gen = d.gen
  · by_cases hmem : d.mem = .attached
    · rw [if_pos hgen, if_pos ⟨hmem, hgen⟩, store, if_pos hmem]
      rfl
    · rw [if_pos hgen, if_neg (fun hc => hmem hc.1), store, if_neg hmem]
  · rw [if_neg hgen, if_neg (fun hc => hgen hc.2)]

/-- **A step changes only the buffer that it fills**, a start apart. -/
theorem next_shm (h : next d l = some d') (hstart : l = .startStop → d.starts = false) {b : Fin 2}
    (hb : d.fills l ≠ some b) : d'.shm b = d.shm b := by
  unfold next at h
  split at h
  · cases h
  cases l with dsimp only at h
  | write ofs be data =>
      cases h
      exact slaveWrite_shm hb
  | read ofs be =>
      cases h
      rw [slaveRead]
      split
      all_goals try rfl
      split <;> rfl
  | startStop =>
      split at h <;> cases h
      have hno : { d with startStopWoken := false }.starts = false := hstart rfl
      rw [runStartStop]
      simp only [hno, Bool.false_eq_true, if_false]
      split <;> rfl
  | display =>
      split at h <;> cases h
      rw [runDisplay]
      split
      · rw [dmaLoop_shm]
      · rfl
  | response bErr data =>
      split at h <;> cases h
      next gen idx addr offset hw =>
        rw [response_shm]
        split
        · next hboth =>
            refine Function.update_of_ne (fun hbi => hb ?_) _ _
            rw [fills, if_pos hboth.1]
            simp only [hw, if_pos hboth.2, hbi]
        · rfl
  | irqUpdate =>
      split at h <;> cases h
      simp only [runIrqUpdate]
      split
      · split <;> rfl
      · rfl
  | viewerReady =>
      split at h <;> cases h
      rfl
  | refresh =>
      split at h <;> cases h
      rfl
  | refreshed =>
      split at h <;> cases h
      rfl

/-- A word that is transferred goes into the buffer of the round. -/
theorem next_word (hi : Synced d.link) (h : next d l = some d') {w : Nat × ULong}
    (hw : d.transferred l = some w) : d.fills l = some d.procIdx ∧ d.link.underway = 1 ∧
      d.shows l = none ∧ (d.event l).accepted = false ∧
      d'.shm d.procIdx = setWord w (d.shm d.procIdx) := by
  cases l with
  | response bErr data =>
      rw [transferred] at hw
      split at hw
      · next gen idx addr offset hthread =>
          split at hw
          · next hboth =>
              cases hw
              have hrun : d.link.status = .RUNNING := hi.attached hboth.1
              have hidx : idx = d.procIdx := (hi.transfer hrun gen idx addr offset hthread).2.1
              have hd' : d' = d.response gen idx addr offset bErr data := by
                unfold next at h
                split at h
                · cases h
                · simp only [hthread, Option.some.injEq] at h
                  exact h.symm
              refine ⟨?_, FbLink.underway_of_busy hrun ?_, rfl, Bool.and_false _, ?_⟩
              · rw [fills, if_pos hboth.1]
                simp only [hthread, if_pos hboth.2, hidx]
              · show d.displayThread ≠ .waiting false
                simp [hthread]
              · rw [hd', response_shm, if_pos hboth, hidx, Function.update_self]
          · cases hw
      · cases hw
  | write | read | startStop | display | irqUpdate | viewerReady | refresh | refreshed => cases hw

/-- What else is stored goes into the buffer that the masters draw into. -/
theorem fills_of_not_transferred (h : next d l = some d') (hw : d.transferred l = none) {b : Fin 2}
    (hb : d.fills l = some b) : b = d'.memIdx ∧ d'.viewer = d.viewer := by
  have hmem : d.mem = .attached := by
    by_contra hne
    unfold fills at hb
    rw [if_neg hne] at hb
    cases hb
  unfold fills at hb
  rw [if_pos hmem] at hb
  cases l with
  | write ofs be data =>
      obtain ⟨memOfs, hofs, hbuf⟩ := Option.map_eq_some_iff.mp hb
      have hd' : d' = d.slaveWrite ofs be data := by
        unfold next at h
        split at h <;> cases h
        rfl
      have hdisp : d.displays (.write ofs be data) = d.wraps memOfs be := by
        simp only [displays, decode_of_frameOffset hofs, hofs, Option.any_some]
      constructor
      · rw [next_memIdx h, hdisp, ← hbuf]
      · have hviewer := congrArg FbLink.viewer (link_slaveWrite d ofs be data)
        rw [← hd'] at hviewer
        split at hviewer <;> exact hviewer
  | response bErr data =>
      rw [transferred] at hw
      dsimp only at hb
      split at hb
      · next gen idx addr offset hthread =>
          split at hb
          · next hgen =>
              rw [hthread] at hw
              simp only [hmem, hgen, and_self, if_true] at hw
              cases hw
          · cases hb
      · cases hb
  | read | startStop | display | irqUpdate | viewerReady | refresh | refreshed => cases hb

/-- With no round under way only refreshes are due. -/
theorem mem_due_iff {b : Fin 2} :
    b ∈ d.due ↔ b ∈ d.viewer.outstanding ∨ d.link.underway = 1 ∧ b = d.procIdx := by
  rw [due, List.mem_append]
  split <;> simp_all

/-- A start finds nothing due. -/
theorem due_of_starts (hi : Synced d.link) (h : d.starts = true) : d.due = [] := by
  have hst := stopped_of_starts h
  have hout : d.viewer.outstanding = [] := by
    rcases hi.silent hst with hv | hv
    · have hv' : d.viewer = .unset := hv
      rw [hv']
      rfl
    · have hv' : d.viewer = .reaped := hv
      rw [hv']
      rfl
  rw [due, hout, FbLink.underway_of_stopped hst]
  rfl

/-- **The pictures that are due stay as they are**, but for the word that is transferred. -/
theorem due_shm (hi : Synced d.link) (hp : Paced d l) (h : next d l = some d')
    (hw : d.transferred l = none) {b : Fin 2} (hb : b ∈ d'.due) : d'.shm b = d.shm b := by
  refine next_shm h (fun hl => ?_) fun hfill => ?_
  · by_contra hstarts
    have hdue := next_due hi hp h
    subst hl
    have hacc : (d.event .startStop).accepted = false := Bool.and_false _
    rw [due_of_starts hi (by simpa using hstarts), hacc] at hdue
    have hnil : d'.due = [] := hdue.symm
    rw [hnil] at hb
    cases hb
  · obtain ⟨hcur, hviewer⟩ := fills_of_not_transferred h hw hfill
    rcases mem_due_iff.mp hb with hout | ⟨-, hproc⟩
    · rw [hviewer] at hout
      exact hp.fills b hfill hout
    · exact otherBuf_ne d'.memIdx (hproc.symm.trans hcur)

end FbDevice

/-! ## 4. Runs -/

theorem drawn_snoc (t : List Drawing) (e : Drawing) : drawn (t ++ [e]) = addDrawing (drawn t) e :=
  List.foldl_append ..

theorem shownPictures_snoc (t : List Drawing) (e : Drawing) :
    shownPictures (t ++ [e]) = shownPictures t ++ e.shown.toList := filterMap_snoc ..

/-- The invariant of the runs of paced steps. -/
structure PictureInv (s : Traced FbDevice Drawing) : Prop where
  synced : s.state.halted = false → Synced s.state.link
  rest : drawn s.trace = shownPictures s.trace ++ s.state.due.map s.state.shm

theorem PictureInv.right {s : Traced FbDevice Drawing} (h : PictureInv s) : PicturesRight s :=
  ⟨⟨_, h.rest.symm⟩, h.rest⟩

open FbDevice

/-- **One step**: a picture that is accepted comes behind those that are due, a word that is transferred
    goes into the last one of them, and a refresh takes the first one. -/
theorem pictureInv_step {s s' : Traced FbDevice Drawing} {l : Label} (hi : PictureInv s)
    (hp : Paced s.state l) (h : nextDrawn s l = some s') : PictureInv s' := by
  obtain ⟨hnext, htrace⟩ := Traced.step_eq_some h
  have hsync := hi.synced (halted_of_next hnext)
  refine ⟨fun _ => (next_keeps hsync hp hnext).synced, ?_⟩
  have hdue := next_due hsync hp hnext
  rw [htrace, drawn_snoc, shownPictures_snoc, addDrawing, hi.rest]
  cases hw : s.state.transferred l with
  | none =>
      have hmap : s'.state.due.map s'.state.shm = s'.state.due.map s.state.shm :=
        List.map_congr_left fun b hb => due_shm hsync hp hnext hw hb
      have hpics := congrArg (List.map s.state.shm) hdue
      rw [List.map_append, List.map_append] at hpics
      have hword : (s.state.drawing l).word = none := hw
      have hacc : (s.state.drawing l).accepted.toList = (if (s.state.event l).accepted then
          [s.state.memIdx] else []).map s.state.shm := by
        show (if (s.state.event l).accepted then some _ else none).toList = _
        split <;> rfl
      have hshown : (s.state.drawing l).shown.toList = (s.state.shows l).toList.map s.state.shm := by
        show ((s.state.shows l).map s.state.shm).toList = _
        cases s.state.shows l <;> rfl
      rw [hword, Option.elim_none, hacc, hmap, hshown, List.append_assoc, hpics, List.append_assoc]
  | some w =>
      obtain ⟨hfill, hway, hshows, hacc, hshm⟩ := next_word hsync hnext hw
      have hword : (s.state.drawing l).word = some w := hw
      have hnone : (s.state.drawing l).accepted = none := if_neg (by rw [hacc]; decide)
      have hshown : (s.state.drawing l).shown = none := by
        show (s.state.shows l).map _ = none
        rw [hshows, Option.map_none]
      rw [hacc, hshows] at hdue
      have hsame : s'.state.due = s.state.viewer.outstanding ++ [s.state.procIdx] := by
        rw [due, hway, if_pos rfl] at hdue
        simpa using hdue.symm
      have hout : s.state.viewer.outstanding.map s'.state.shm =
          s.state.viewer.outstanding.map s.state.shm :=
        List.map_congr_left fun b hb => next_shm hnext
          (fun hl => by subst hl; cases hw) fun hb' => hp.fills b hb' hb
      rw [hword, Option.elim_some, hnone, hshown, Option.toList_none, List.append_nil, List.append_nil,
        hsame, List.map_append, hout, List.map_singleton, hshm, due, hway, if_pos rfl,
        List.map_append, List.map_singleton, ← List.append_assoc, List.modifyLast_concat,
        List.append_assoc]

/-- **The screen shows the pictures drawn, in order and untouched**: each one is what was in the
    current buffer at its display command, with what was transferred to it from memory. -/
theorem pictures_shown (reset : FbReset) (bufSize : ULong) (ls : List Label)
    (h : Steps nextDrawn (fun s l => Paced s.state l) ⟨new reset bufSize, []⟩ ls) :
    Along nextDrawn PicturesRight ⟨new reset bufSize, []⟩ ls := by
  obtain ⟨hout, hway, hsync⟩ := new_spec reset bufSize
  refine along_of_steps (I := PictureInv) (fun _ hi => hi.right)
    (fun _ _ _ hi hp hs => pictureInv_step hi hp hs) ⟨hsync, ?_⟩ h
  have hdue : (new reset bufSize).due = [] := by
    have hout' : (new reset bufSize).viewer.outstanding = [] := hout
    rw [due, hout', hway]
    rfl
  rw [hdue]
  rfl

/-- One display command, up to the end of its refresh. -/
theorem pictures_shown_display : Along nextDrawn PicturesRight ⟨new argbReset 0#32, []⟩
    [.viewerReady, frameWrite 7#8, ctrlWrite 9#8, .display, .refresh, .refreshed] := by
  refine pictures_shown argbReset 0#32 _ ?_
  refine .cons rfl (paced_of_ne (by simp) (by decide) (by decide) (by decide)) ?_
  refine .cons rfl (paced_of_ne (by simp [frameWrite]) (by decide) (by decide) (by decide)) ?_
  refine .cons rfl (paced_of_ne (by simp [ctrlWrite]) (by decide) (by decide) (by decide)) ?_
  refine .cons rfl (paced_of_ne (by simp) (by decide) (by decide) (by decide)) ?_
  refine .cons rfl (paced_of_ne (by simp) (by decide) (by decide) (by decide)) ?_
  exact .cons rfl (paced_of_ne (by simp) (by decide) (by decide) (by decide)) trivial

end Rabbits
