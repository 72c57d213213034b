/-
  File:      Rabbits/Fb/FrameSize.lean
  Subject:   The bytes of a display by DMA against the frame of the viewer (framebuffer_device.cpp:
             init, display_thread; fb_viewer.c: get_size).

  Device and viewer compute the size of a frame each for itself. The DMA goes on in words until it
  has reached `mem_size`, so its last word may lie partly behind it.

  * `StoresInside` -- **the property of a response**: its word is inside [0, mem_size);
  * `dma_round` -- the words of a round, and where they lie, by induction on the steps from any point
    of its DMA on;
  * `dma_matches_iff` -- **which modes and sizes match**: those of the packed RGB modes, where the
    frame is a number of words.
-/
import Rabbits.Fb.Link
import Rabbits.Viewer.FbViewer

namespace Rabbits

open Lib

namespace FbDevice

/-! ## 1. A round -/

/-- The step is no start or stop. -/
def KeepsSize : Label → Prop
  | .startStop => False
  | _ => True

/-- The step belongs to one round of `display_thread`, without bus errors. -/
def InRound : Label → Prop
  | .startStop => False
  | .display => False
  | .response bErr _ => bErr = false
  | _ => True

def isResponse : Label → Bool
  | .response _ _ => true
  | _ => false

/-- The number of bytes that a sequence of steps transfers. -/
def dmaBytes (ls : List Label) : Nat := 4 * ls.countP isResponse

/-- The word of a response is inside [0, mem_size). -/
def StoresInside (d : FbDevice) : Label → Prop
  | .response _ _ => ∀ gen idx addr offset, d.displayThread = .dma gen idx addr offset →
      offset.toNat + 4 ≤ d.memSize.toNat
  | _ => True

/-- A step that is neither a display nor a response. -/
theorem link_other {d d' : FbDevice} {l : Label} (hl : InRound l) (hr : isResponse l = false)
    (h : next d l = some d') : d'.link.memSize = d.link.memSize ∧
      (d'.link.displayThread = d.link.displayThread ∨
        d'.link.displayThread = d.link.displayThread.wake) := by
  unfold next at h
  split at h
  · cases h
  cases l with dsimp only at h
  | write ofs be data =>
      cases h
      rw [link_slaveWrite]
      split
      · exact ⟨rfl, .inr rfl⟩
      · exact ⟨rfl, .inl rfl⟩
  | read ofs be =>
      cases h
      rw [link_slaveRead]
      exact ⟨rfl, .inl rfl⟩
  | startStop => exact absurd hl id
  | display => exact absurd hl id
  | response bErr data => cases hr
  | irqUpdate =>
      split at h <;> cases h
      rw [link_runIrqUpdate]
      exact ⟨rfl, .inl rfl⟩
  | viewerReady =>
      split at h <;> cases h
      exact ⟨rfl, .inl rfl⟩
  | refresh =>
      split at h <;> cases h
      exact ⟨rfl, .inl rfl⟩
  | refreshed =>
      split at h <;> cases h
      exact ⟨rfl, .inl rfl⟩

/-- A response comes in a DMA, and ends it or goes on with its next word. -/
theorem response_cases {d d' : FbDevice} {bErr : Bool} {data : ULong} (hok : bErr = false)
    (h : next d (.response bErr data) = some d') : ∃ gen idx addr offset,
      d.displayThread = .dma gen idx addr offset ∧
      d'.link = if offset + 4#32 < d.memSize then d.link.transfer gen idx addr (offset + 4#32)
        else d.link.endRound := by
  subst hok
  unfold next at h
  split at h
  · cases h
  dsimp only at h
  split at h <;> cases h
  next gen idx addr offset hw =>
    refine ⟨gen, idx, addr, offset, hw, ?_⟩
    rw [link_response d hw]
    by_cases hlt : offset + 4#32 < d.memSize
    · simp [roundEnd, hw, hlt]
    · simp [roundEnd, hw, hlt]

/-- Such a step leaves a display thread that waits, or a DMA where it is. -/
theorem thread_other {d d' : FbDevice} {l : Label} (hl : InRound l) (hr : isResponse l = false)
    (h : next d l = some d') :
    ((∃ w, d.displayThread = .waiting w) → ∃ w, d'.displayThread = .waiting w) ∧
      ∀ gen idx addr offset, d.displayThread = .dma gen idx addr offset →
        d'.displayThread = .dma gen idx addr offset := by
  have hwake : d'.displayThread = d.displayThread ∨ d'.displayThread = d.displayThread.wake :=
    (link_other hl hr h).2
  constructor
  · intro ⟨w, hw⟩
    rw [hw] at hwake
    rcases hwake with hs | hs
    · exact ⟨w, hs⟩
    · exact ⟨true, hs⟩
  · intro gen idx addr offset hdma
    rw [hdma] at hwake
    rcases hwake with hs | hs
    · exact hs
    · exact hs

theorem storesInside_other {d : FbDevice} {l : Label} (hr : isResponse l = false) :
    StoresInside d l := by
  cases l with
  | response bErr data => cases hr
  | _ => trivial

/-- Behind the end of the round no response comes. -/
theorem idle_round {s t : FbDevice} {rest : List Label} (hrest : ∀ l ∈ rest, InRound l)
    (h : exec next s rest = some t) (hw : ∃ w, s.displayThread = .waiting w) :
    rest.countP isResponse = 0 ∧ Steps next StoresInside s rest := by
  induction rest generalizing s with
  | nil => exact ⟨rfl, trivial⟩
  | cons l rest ih =>
      obtain ⟨s', hl, ht⟩ := exec_cons_eq_some h
      have hin := hrest l List.mem_cons_self
      have hresp : isResponse l = false := by
        cases l with
        | response bErr data =>
            obtain ⟨w, hw⟩ := hw
            obtain ⟨gen, idx, addr, offset, hdma, -⟩ := response_cases hin hl
            cases hw.symm.trans hdma
        | _ => rfl
      obtain ⟨hcount, hsteps⟩ := ih (fun k hk => hrest k (List.mem_cons_of_mem l hk)) ht
        ((thread_other hin hresp hl).1 hw)
      refine ⟨?_, .cons hl (storesInside_other hresp) hsteps⟩
      rw [List.countP_cons_of_neg (by simp [hresp]), hcount]

section DmaRound

variable {s t : FbDevice} {rest : List Label} {gen : Nat} {idx : Fin 2} {addr offset : ULong}

theorem storesInside_response (hdma : s.displayThread = .dma gen idx addr offset) {bErr : Bool}
    {data : ULong} :
    StoresInside s (.response bErr data) ↔ offset.toNat + 4 ≤ s.memSize.toNat := by
  refine ⟨fun hs => hs gen idx addr offset hdma, fun hs _ _ _ _ hd => ?_⟩
  cases hd.symm.trans hdma
  exact hs

/-- A response moves the DMA on to the next word, or ends the round. -/
theorem dma_response {s' : FbDevice} {bErr : Bool} {data : ULong} (hok : bErr = false)
    (hl : next s (.response bErr data) = some s')
    (hdma : s.displayThread = .dma gen idx addr offset)
    (hlt : offset.toNat < s.memSize.toNat) (hsize : s.memSize.toNat < 2 ^ 31) :
    (offset + 4#32).toNat = offset.toNat + 4 ∧
      ((offset.toNat + 4 < s.memSize.toNat ∧ s'.memSize = s.memSize ∧
          s'.displayThread = .dma gen idx addr (offset + 4#32)) ∨
        (s.memSize.toNat ≤ offset.toNat + 4 ∧ ∃ w, s'.displayThread = .waiting w)) := by
  obtain ⟨gen', idx', addr', offset', hw, hlink⟩ := response_cases hok hl
  cases hw.symm.trans hdma
  have hnext : (offset + 4#32).toNat = offset.toNat + 4 := by
    rw [BitVec.toNat_add]
    exact Nat.mod_eq_of_lt (by simp; omega)
  refine ⟨hnext, ?_⟩
  split at hlink
  · next hgo =>
      rw [BitVec.lt_def, hnext] at hgo
      exact .inl ⟨hgo, congrArg FbLink.memSize hlink, congrArg FbLink.displayThread hlink⟩
  · next hgo =>
      rw [BitVec.lt_def, hnext] at hgo
      exact .inr ⟨Nat.not_lt.mp hgo, false, congrArg FbLink.displayThread hlink⟩

/-- **A DMA from any point on**: one response for each word that begins in the frame, all of them
    inside it when the frame is a number of words. -/
theorem dma_round (hrest : ∀ l ∈ rest, InRound l) (h : exec next s rest = some t)
    (hend : ∃ w, t.displayThread = .waiting w) (hdma : s.displayThread = .dma gen idx addr offset)
    (hlt : offset.toNat < s.memSize.toNat) (hsize : s.memSize.toNat < 2 ^ 31)
    (hword : 4 ∣ offset.toNat) :
    rest.countP isResponse = (s.memSize.toNat - offset.toNat + 3) / 4 ∧
      (Steps next StoresInside s rest ↔ 4 ∣ s.memSize.toNat) := by
  induction rest generalizing s offset with
  | nil =>
      cases h
      obtain ⟨w, hw⟩ := hend
      cases hdma.symm.trans hw
  | cons l rest ih =>
      obtain ⟨s', hl, ht⟩ := exec_cons_eq_some h
      have hin := hrest l List.mem_cons_self
      have hrest' : ∀ k ∈ rest, InRound k := fun k hk => hrest k (List.mem_cons_of_mem l hk)
      rw [steps_cons_iff hl]
      cases hresp : isResponse l with
      | false =>
          have hmem : s'.memSize = s.memSize := (link_other hin hresp hl).1
          have hdma' := (thread_other hin hresp hl).2 gen idx addr offset hdma
          rw [List.countP_cons_of_neg (by simp [hresp]), and_iff_right (storesInside_other hresp),
            ← hmem]
          exact ih hrest' ht hdma' (hmem.symm ▸ hlt) (hmem.symm ▸ hsize) hword
      | true =>
          cases l with
          | response bErr data =>
              obtain ⟨hnext, hcases⟩ := dma_response hin hl hdma hlt hsize
              rw [List.countP_cons_of_pos rfl, storesInside_response hdma]
              rcases hcases with ⟨hgo, hmem, hdma'⟩ | ⟨hgo, hw⟩
              · -- one more word: what is left of the round is a DMA from there on
                obtain ⟨hcount, hiff⟩ := ih hrest' ht hdma' (by rw [hmem, hnext]; exact hgo)
                  (hmem.symm ▸ hsize) (by rw [hnext]; omega)
                rw [hcount, hiff, hmem, hnext]
                exact ⟨by omega, by omega⟩
              · obtain ⟨hcount, hsteps⟩ := idle_round hrest' ht hw
                rw [hcount, and_iff_left hsteps]
                exact ⟨by omega, by omega⟩
          | _ => cases hresp

end DmaRound

/-! ## 2. The sizes -/

/-- The bytes of a point in `init`. -/
def deviceFactor : ViewerMode → Nat
  | .ARGB | .BGRA => 4
  | .RGB | .BGR | .YVYU | .YV12 | .IYUV | .YV16 => 3

/-- The points of the picture. -/
def area (d : FbDevice) : Nat := d.regs.imageW.toNat * d.regs.imageH.toNat

/-- The modes and sizes for which a DMA is the frame of the viewer. -/
def MatchesViewer (m : ViewerMode) (area : Nat) : Prop :=
  match m with
  | .ARGB | .BGRA => True
  | .RGB | .BGR => 4 ∣ area
  | .YVYU | .YV12 | .IYUV | .YV16 => False

theorem toNat_bufSizeOf {d : FbDevice} {m : ViewerMode} (hmode : d.regs.mode = m.code)
    (hprod : deviceFactor m * d.area < 2 ^ 31) :
    (bufSizeOf d.regs.imageW d.regs.imageH d.regs.mode d.bufSize).toNat = deviceFactor m * d.area := by
  have hw := d.regs.imageW.isLt
  have hh := d.regs.imageH.isLt
  have harea : (d.regs.imageH.setWidth 32 * d.regs.imageW.setWidth 32).toNat = d.area := by
    have hlt := Nat.mul_lt_mul'' hh hw
    rw [BitVec.toNat_mul, BitVec.toNat_setWidth, BitVec.toNat_setWidth,
      Nat.mod_eq_of_lt (hh.trans (by decide)), Nat.mod_eq_of_lt (hw.trans (by decide)),
      Nat.mod_eq_of_lt hlt, area, Nat.mul_comm]
  have hscale : ∀ k, k < 2 ^ 32 → k * d.area < 2 ^ 32 →
      (BitVec.ofNat 32 k * (d.regs.imageH.setWidth 32 * d.regs.imageW.setWidth 32)).toNat =
        k * d.area := fun k hk hlt => by
    rw [BitVec.toNat_mul, harea, BitVec.toNat_ofNat, Nat.mod_eq_of_lt hk, Nat.mod_eq_of_lt hlt]
  rw [hmode]
  cases m with
  | ARGB | BGRA => exact hscale 4 (by decide) (hprod.trans (by decide))
  | RGB | BGR | YVYU | YV12 | IYUV | YV16 => exact hscale 3 (by decide) (hprod.trans (by decide))

theorem getSize_of_fit {d : FbDevice} {m : ViewerMode} (hprod : deviceFactor m * d.area < 2 ^ 31) :
    getSize (d.regs.imageW.setWidth 32) (d.regs.imageH.setWidth 32) m.code = m.frameBytes d.area := by
  have hw : (d.regs.imageW.setWidth 32).toNat = d.regs.imageW.toNat := by
    rw [BitVec.toNat_setWidth, Nat.mod_eq_of_lt (d.regs.imageW.isLt.trans (by decide))]
  have hh : (d.regs.imageH.setWidth 32).toNat = d.regs.imageH.toNat := by
    rw [BitVec.toNat_setWidth, Nat.mod_eq_of_lt (d.regs.imageH.isLt.trans (by decide))]
  have hfit : 4 * d.area < 2 ^ 32 ∧ m.frameBytes d.area < 2 ^ 31 := by
    cases m <;> simp only [deviceFactor, ViewerMode.frameBytes] at hprod ⊢ <;> omega
  rw [area, ← hw, ← hh] at hfit ⊢
  exact getSize_eq hfit.1 hfit.2

/-- The words of the device against the bytes of the viewer. -/
theorem matches_iff {m : ViewerMode} {area : Nat} (hpos : 0 < deviceFactor m * area) :
    (4 * ((deviceFactor m * area + 3) / 4) = m.frameBytes area ∧ 4 ∣ deviceFactor m * area) ↔
      MatchesViewer m area := by
  cases m with
  | ARGB | BGRA =>
      simp only [deviceFactor, ViewerMode.frameBytes]
      exact iff_of_true ⟨by omega, by omega⟩ trivial
  | RGB | BGR =>
      simp only [deviceFactor, ViewerMode.frameBytes, MatchesViewer]
      omega
  | YVYU | YV12 | IYUV | YV16 =>
      simp only [deviceFactor, ViewerMode.frameBytes] at hpos ⊢
      exact iff_of_false (fun heq => by omega) id

/-! ## 3. From the start to a display -/

/-- Only a start or stop changes `mem_size`. -/
theorem memSize_next {d d' : FbDevice} {l : Label} (hl : KeepsSize l) (h : next d l = some d') :
    d'.memSize = d.memSize := by
  by_cases hother : InRound l ∧ isResponse l = false
  · exact (link_other hother.1 hother.2 h).1
  · unfold next at h
    split at h
    · cases h
    cases l with dsimp only at h
    | startStop => exact absurd hl id
    | display =>
        split at h <;> cases h
        show d.runDisplay.link.memSize = _
        rw [link_runDisplay]
        split <;> rfl
    | response bErr data =>
        split at h <;> cases h
        next gen idx addr offset hw =>
          show (d.response gen idx addr offset bErr data).link.memSize = _
          rw [link_response d hw]
          split <;> rfl
    | _ => exact absurd ⟨trivial, rfl⟩ hother

/-- A start that has come to its end. -/
theorem memSize_init {d : FbDevice} (h : d.init.halted = false) :
    d.init.memSize = bufSizeOf d.regs.imageW d.regs.imageH d.regs.mode d.bufSize ∧
      0 < d.init.memSize.toNat := by
  unfold init at h ⊢
  dsimp only at h ⊢
  split at h
  · cases h
  · next hpos =>
      rw [if_neg hpos]
      refine ⟨rfl, Nat.pos_of_ne_zero fun hzero => hpos (.inr ?_)⟩
      have hsize : bufSizeOf d.regs.imageW d.regs.imageH d.regs.mode d.bufSize = 0#32 :=
        BitVec.eq_of_toNat_eq hzero
      rw [hsize]
      decide

/-- The first word of a DMA. -/
theorem display_cases {d d' : FbDevice} (hdma : d.regs.dmaen = true) (hpos : 0 < d.memSize.toNat)
    (h : next d .display = some d') :
    d'.displayThread = .dma d.gen d.procIdx d.regs.bufAddr 0#32 ∧ d'.memSize = d.memSize := by
  refine ⟨?_, memSize_next (l := .display) trivial h⟩
  unfold next at h
  split at h
  · cases h
  dsimp only at h
  split at h <;> cases h
  have hlt : 0#32 < d.memSize := hpos
  show d.runDisplay.link.displayThread = _
  rw [link_runDisplay]
  simp [roundEnd, hdma, hlt, FbLink.transfer]

theorem halted_of_exec {s t : FbDevice} {l : Label} {ls rest : List Label}
    (h : exec next s ls = some t) (h' : exec next t (l :: rest) ≠ none) : s.halted = false := by
  cases ls with
  | nil =>
      cases h
      obtain ⟨u, hu⟩ := Option.ne_none_iff_exists'.mp h'
      exact halted_of_next (exec_cons_eq_some hu).choose_spec.1
  | cons k ls => exact halted_of_next (exec_cons_eq_some h).choose_spec.1

/-- **Which displays by DMA match the viewer**: started with a mode of the viewer and a size whose
    products are below 2^31, behind any steps but another start or stop, a round of `display_thread`
    without bus errors transfers as many bytes as the viewer's frame has and stores them inside
    `mem_size` if and only if the mode is ARGB or BGRA, or RGB or BGR with a number of points that 4
    divides. -/
theorem dma_matches_iff {d₀ d t : FbDevice} {m : ViewerMode} {ls rest : List Label}
    (hmode : d₀.regs.mode = m.code) (hprod : deviceFactor m * d₀.area < 2 ^ 31)
    (hrun : exec next d₀.init ls = some d) (hls : ∀ l ∈ ls, KeepsSize l)
    (hdma : d.regs.dmaen = true) (hround : exec next d (.display :: rest) = some t)
    (hrest : ∀ l ∈ rest, InRound l) (hend : ∃ woken, t.displayThread = .waiting woken) :
    ((dmaBytes rest : Int) =
        getSize (d₀.regs.imageW.setWidth 32) (d₀.regs.imageH.setWidth 32) m.code ∧
      Steps next StoresInside d (.display :: rest)) ↔ MatchesViewer m d₀.area := by
  obtain ⟨hinit, hpos⟩ := memSize_init (halted_of_exec hrun (by rw [hround]; simp))
  have hmem : d.memSize = d₀.init.memSize :=
    exec_invariant_of (I := fun d => d.memSize = d₀.init.memSize)
      (fun _ _ _ hi (hl : KeepsSize _) h => (memSize_next hl h).trans hi) hls rfl hrun
  have hsize : d.memSize.toNat = deviceFactor m * d₀.area := by
    rw [hmem, hinit, toNat_bufSizeOf hmode hprod]
  obtain ⟨d', hdisplay, hdone⟩ := exec_cons_eq_some hround
  obtain ⟨hthread, hmem'⟩ := display_cases hdma (hmem ▸ hpos) hdisplay
  rw [hmem] at hsize
  rw [hmem] at hmem'
  obtain ⟨hcount, hinside⟩ := dma_round hrest hdone hend hthread (by rw [hmem']; exact hpos)
    (by rw [hmem', hsize]; exact hprod) (by simp)
  have hhead : StoresInside d .display := trivial
  rw [steps_cons_iff hdisplay, and_iff_right hhead, hinside, dmaBytes, hcount, hmem', hsize,
    getSize_of_fit hprod, ← matches_iff (hsize ▸ hpos)]
  exact and_congr_left fun _ => by norm_cast

/-- Stopped, with the size, the mode and the start that masters have written. -/
def pictured (w h : BitVec 16) (mode : ULong) : FbDevice :=
  { new ⟨false, 0#16, 0#16, 0#32, false⟩ 0#32 with
    regs := ⟨w, h, mode, 0#32, FB_CTRL_START, 0#32, .STOPPED, false, false⟩ }

/-- The device behind its start and a command to display by DMA. -/
def displayed (w h : BitVec 16) (mode : ULong) : Option FbDevice :=
  exec next (pictured w h mode).init [ctrlWrite 13#8]

/-- One point of ARGB. -/
theorem dma_matches_argb : ∃ d, displayed 1#16 1#16 4#32 = some d ∧
    (dmaBytes [.response false 5#32] : Int) = getSize 1#32 1#32 4#32 ∧
      Steps next StoresInside d [.display, .response false 5#32] := by
  have hrun : exec next (pictured 1#16 1#16 4#32).init [ctrlWrite 13#8] = some _ := rfl
  refine ⟨_, rfl, (dma_matches_iff (m := .ARGB) rfl (by decide) hrun ?_ rfl rfl ?_
    ⟨false, rfl⟩).mpr trivial⟩
  · exact List.forall_mem_singleton.mpr trivial
  · exact List.forall_mem_singleton.mpr rfl

/-- Four points of YV12 are transferred as 12 bytes, and the viewer has 6; the word of one point of
    RGB does not fit into its 3 bytes. -/
theorem dma_mismatch :
    (∃ d t, displayed 2#16 2#16 7#32 = some d ∧
      exec next d (.display :: List.replicate 3 (.response false 5#32)) = some t ∧
      t.displayThread = .waiting false ∧
      (dmaBytes (List.replicate 3 (.response false 5#32)) : Int) ≠ getSize 2#32 2#32 7#32) ∧
    ∃ d t, displayed 1#16 1#16 2#32 = some d ∧
      exec next d [.display, .response false 5#32] = some t ∧
      t.displayThread = .waiting false ∧
      ¬ Steps next StoresInside d [.display, .response false 5#32] := by
  refine ⟨⟨_, _, rfl, rfl, rfl, by decide⟩, ⟨_, _, rfl, rfl, rfl, fun h => ?_⟩⟩
  have hword := ((h _ rfl).2 _ rfl).1 _ _ _ _ rfl
  revert hword
  decide

end FbDevice

end Rabbits
