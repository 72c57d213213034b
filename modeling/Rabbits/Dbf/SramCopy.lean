/-
  File:      Rabbits/Dbf/SramCopy.lean
  Subject:   The copy of the picture over the interconnect (dbf_device.cpp: SEND_PACK,
             master_request, master_response).

  `master_request` puts one word after the other and then sets the status bit. A `put` returns when
  the word is in the first queue, and no wait lies between the last one and the status bit; the
  responses are read by another thread, which tells nobody.

  * `copyAddrs`, `sendPack` -- the words of a picture and the request of each;
  * `SramStep` -- the device, the bus with all other masters, and the copy between them;
  * `copied_of_drained` -- what the status bit says holds where no word of the device is on its way;
  * `copied_iff_no_completion` -- **it holds in every state of a run exactly when no copy completes
    in it**: the word put last is still in the queue.

  The words are read from the memory when they are put; the other threads change it at any time.
-/
import Rabbits.Dbf.Interrupts
import Rabbits.Noc.MapLoader
import Rabbits.Noc.Order

namespace Rabbits

open Lib Crossbar

universe u v

/-! ## 1. The words of a copy -/

def REG_INC_ADDRESS : Nat := 0x39014

/-- The three nested loops over one component: `mbSize` lines a macroblock, of `mbSize` bytes each,
    from the byte `base` of the macroblock on. -/
def componentAddrs (base mbSize nbMbHeight nbMbWidth : Nat) : List Nat :=
  (List.range nbMbHeight).flatMap fun k =>
    (List.range mbSize).flatMap fun l =>
      (List.range nbMbWidth).flatMap fun y =>
        (List.range (mbSize / 4)).map fun x =>
          base + k * nbMbWidth * MB_BLOCK_SIZE + l * mbSize + y * MB_BLOCK_SIZE + 4 * x

/-- `reg_addr` of every word: luma, Cb, Cr. -/
def copyAddrs (nbMbHeight nbMbWidth : Nat) : List Nat :=
  componentAddrs 0 16 nbMbHeight nbMbWidth ++ componentAddrs 256 8 nbMbHeight nbMbWidth ++
    componentAddrs (256 + 64) 8 nbMbHeight nbMbWidth

/-- The locals of `master_request` during a copy, and the words that are left. -/
structure SramCopy where
  adrDest : ULong
  b8alg : Bool
  bIncrementAddress : Bool
  rest : List Nat

/-- `master_request` from its event to the first word. -/
def masterRequestStart : DbfM SramCopy := do
  let nbMbHeight ← getPicHeightInMbs
  let nbMbWidth ← getPicWidthInMbs
  let d ← get
  if d.adrDest &&& 0x3#32 ≠ 0#32 then failure
  else
    return {
      adrDest := d.adrDest
      b8alg := d.adrDest &&& 0x7#32 = 0#32
      bIncrementAddress := d.mData REG_INC_ADDRESS ≠ 0#8
      rest := copyAddrs nbMbHeight nbMbWidth }

theorem masterRequestStart_run {d : DbfDevice} (h : d.adrDest &&& 0x3#32 = 0#32) :
    masterRequestStart.run d =
      some (⟨d.adrDest, d.adrDest &&& 0x7#32 = 0#32, d.mData REG_INC_ADDRESS ≠ 0#8,
        copyAddrs d.height d.width⟩, d) := by
  have hget : (get : DbfM DbfDevice).run d = some (d, d) := rfl
  rw [masterRequestStart, run_bind_of (getPicHeightInMbs_run d),
    run_bind_of (getPicWidthInMbs_run d), run_bind_of hget, if_neg (not_not.mpr h)]
  rfl

/-- The request of `SEND_PACK`; the other half of `wdata` stays as it was. -/
def sendPack (d : DbfDevice) (c : SramCopy) (req : VciRequest) (regAddr : Nat) : VciRequest :=
  { req with
    be := if c.b8alg then 0x0F#8 else 0xF0#8
    wdata := fun i =>
      if c.b8alg then if i.val < 4 then d.mData (regAddr + i.val) else req.wdata i
      else if 4 ≤ i.val then d.mData (regAddr + (i.val - 4)) else req.wdata i
    address := if c.bIncrementAddress then c.adrDest &&& 0xFFFFFFF8#32 else c.adrDest
    plen := 1#8 }

/-- The locals behind a word. -/
def SramCopy.next (c : SramCopy) (rest : List Nat) : SramCopy :=
  if c.bIncrementAddress then { c with adrDest := c.adrDest + 4, b8alg := !c.b8alg, rest := rest }
  else { c with rest := rest }

/-! ## 2. The device on the bus -/

variable {n k : Nat} {D : Type u} {T : Type v} [DecidableEq T]

/-- The port of the device: a master, the thread that puts, and `m_master_id`, which is the
    master's number. -/
structure DbfPort (n : Nat) (T : Type v) where
  m : Fin n
  thread : T
  masterId : BitVec 16
  own : masterId.toNat = m.val

/-- The bus, the device, its copy with `req`, the words put since the last completion, those of the
    completed copies, and those of the copies for which the status bit is set. -/
structure SramSys (n k : Nat) (T : Type v) (D : Type u) where
  bus : Bus n k T D
  run : DbfRun
  copy : Option SramCopy
  req : VciRequest
  current : List VciRequest
  completed : List VciRequest
  announced : List VciRequest

/-- A step of the device, the start of a copy, a call of `put`, a second try of one that was
    blocked (`ends` when the copy is complete with it), a step of the bus. -/
inductive SramLabel (n k : Nat) (T : Type v) where
  | dev (e : DbfRunEvent)
  | start
  | put (ends : Bool)
  | resume (ends : Bool)
  | bus (l : BusLabel n k T)

def SramLabel.Completes : SramLabel n k T → Prop
  | .put ends => ends = true
  | .resume ends => ends = true
  | _ => False

section Model

variable (setup : BusSetup n k D) (p : DbfPort n T)

def SramSys.new : SramSys n k T D where
  bus := .new setup
  run := .new
  copy := none
  req := { (default : VciRequest) with trdid := 1#8, srcid := p.masterId, cmd := 0x02#8, eop := true }
  current := []
  completed := []
  announced := []

/-- The status bit of the copy. -/
def SramSys.StatusSet (x : SramSys n k T D) : Prop :=
  x.run.dbf.mData REG_INT_STATUS &&& statusBit REG_STATUS_BIT_SRAM ≠ 0#8

instance (x : SramSys n k T D) : Decidable x.StatusSet := by
  unfold SramSys.StatusSet
  infer_instance

/-- The system behind a completion. A bit that is still set is set for the copies before as well. -/
def SramSys.ended (x : SramSys n k T D) (run : DbfRun) : SramSys n k T D :=
  { x with
    run := run
    copy := none
    current := []
    completed := x.completed ++ x.current
    announced := (if x.StatusSet then x.announced else []) ++ x.current }

/-- `master_request` behind a try of `put`: it is blocked, or words are left, or it sets the status
    bit and waits for the next event. Every format has words. -/
inductive Continues (x : SramSys n k T D) : Bool → SramSys n k T D → Prop where
  | goesOn (h : x.bus.net.req.blocked p.m p.thread ≠ none ∨ ∀ c, x.copy = some c → c.rest ≠ []) :
      Continues x false x
  | ends {c : SramCopy} {run : DbfRun} (hput : x.bus.net.req.blocked p.m p.thread = none)
      (hc : x.copy = some c) (hrest : c.rest = []) (h : x.run.next .copyEnd = some run) :
      Continues x true (x.ended run)

/-- The system behind a call of `put` for the word at `regAddr`. -/
def SramSys.sent (x : SramSys n k T D) (c : SramCopy) (regAddr : Nat) (rest : List Nat)
    (bus : Bus n k T D) : SramSys n k T D :=
  { x with
    bus := bus
    req := sendPack x.run.dbf c x.req regAddr
    copy := some (c.next rest)
    current := x.current ++ [sendPack x.run.dbf c x.req regAddr] }

/-- The other masters put what they like, under their own number. A start that finds the copy under
    way is lost. -/
inductive SramStep (x : SramSys n k T D) : SramLabel n k T → SramSys n k T D → Prop where
  | dev {e : DbfRunEvent} {run : DbfRun} (he : e ≠ .copyEnd)
      (hstart : e = .deliver .sendSram → x.run.copying = true) (h : x.run.next e = some run) :
      SramStep x (.dev e) { x with run := run }
  | start {run : DbfRun} {c : SramCopy} {d : DbfDevice} (hidle : x.run.copying = false)
      (h : x.run.next (.deliver .sendSram) = some run)
      (hc : masterRequestStart.run x.run.dbf = some (c, d)) :
      SramStep x .start { x with run := run, copy := some c }
  | put {c : SramCopy} {regAddr : Nat} {rest : List Nat} {bus : Bus n k T D} {ends : Bool}
      {x' : SramSys n k T D} (hc : x.copy = some c) (hrest : c.rest = regAddr :: rest)
      (h : BusStep setup x.bus (.call p.m p.thread (sendPack x.run.dbf c x.req regAddr)) bus)
      (hgo : Continues p (x.sent c regAddr rest bus) ends x') : SramStep x (.put ends) x'
  | resume {req : VciRequest} {bus : Bus n k T D} {ends : Bool} {x' : SramSys n k T D}
      (h : BusStep setup x.bus (.resumePut p.m p.thread req) bus)
      (hgo : Continues p { x with bus := bus } ends x') : SramStep x (.resume ends) x'
  | bus {l : BusLabel n k T} {bus : Bus n k T D} (hl : ∀ t req, l.tries ≠ some (p.m, t, req))
      (hmeets : l.Meets Sends) (h : BusStep setup x.bus l bus) :
      SramStep x (.bus l) { x with bus := bus }

def sramMachine : Machine (SramSys n k T D) where
  init x := x = .new setup p
  step x x' := ∃ l, SramStep setup p x l x'

/-- Each word of these copies has a slave, and has been served there: a slave serves the words in
    their order, so this is to have served all words up to the last one. -/
structure WordsServed (x : SramSys n k T D) : Prop where
  mapped : ∀ w ∈ x.announced, (dispatchRequestsThread (k := k) setup.map p.m w).isSome
  served : ∀ s, (∃ w ∈ x.announced,
      (routeTo (dispatchRequestsThread setup.map) p.m s w).isSome) →
    x.completed.filterMap (routeTo (dispatchRequestsThread setup.map) p.m s) <+:
      (x.bus.servedOf p.m s).map Prod.fst

/-- What the status bit of the copy says. -/
def Copied (x : SramSys n k T D) : Prop := x.StatusSet → WordsServed setup p x

/-- No word of the device is in its queue, in its dispatcher, in the queue of a slave, or being
    served. -/
structure Drained (x : SramSys n k T D) : Prop where
  strays : strays (dispatchRequestsThread (k := k) setup.map) x.bus.net.req p.m = []
  serving : ∀ s, x.bus.servingOf p.m s = []
  coming : ∀ s, x.bus.coming setup p.m s = []

end Model

/-! ## 3. The words and the queue of the port -/

variable {setup : BusSetup n k D} {p : DbfPort n T} {x x' : SramSys n k T D}

/-- The words in the order of their puts. -/
def SramSys.written (p : DbfPort n T) (x : SramSys n k T D) : List VciRequest :=
  (x.bus.net.req.input p.m).written.map Prod.snd

/-- The bus is sound and in order, the words are the calls of `put` at the port, and those of the
    completed copies have been written there. -/
structure SramInv (setup : BusSetup n k D) (p : DbfPort n T) (x : SramSys n k T D) : Prop where
  bus : BusInv setup Sends x.bus
  flow : BusFlow setup x.bus
  req : x.req.cmd = CMD_WRITE ∧ x.req.srcid = p.masterId
  calls : x.bus.net.req.calls p.m = (x.completed ++ x.current).map fun w => (p.thread, w)
  done : x.completed <+: x.written p
  announced : x.announced ⊆ x.completed

theorem sramInv_new : SramInv setup p (.new setup p : SramSys n k T D) :=
  ⟨busInv_new, busFlow_new, ⟨rfl, rfl⟩, rfl, List.nil_prefix, List.nil_subset _⟩

theorem SramInv.sends (h : SramInv setup p x) (c : SramCopy) (regAddr : Nat) :
    Sends p.m (sendPack x.run.dbf c x.req regAddr) := by
  refine ⟨.inl h.req.1, ?_⟩
  have hid : (sendPack x.run.dbf c x.req regAddr).srcid = x.req.srcid := rfl
  rw [hid, h.req.2, p.own]

/-- The calls of `put` at a port, after a step of the bus. -/
theorem calls_bus {x x' : Bus n k T D} {l : BusLabel n k T} (hs : BusStep setup x l x') (m : Fin n) :
    x'.net.req.calls m = x.net.req.calls m ++
      match l with
      | .call m' t req => if m' = m then [(t, req)] else []
      | _ => [] := by
  cases hs with
  | call hr => exact calls_step hr m
  | resumePut hr => exact calls_step hr m
  | dispatchRequest hr => exact calls_step hr m
  | slaveGet hg hr => exact calls_step hr m
  | _ => exact (List.append_nil _).symm

/-- The words put are those written to the queue of the port, and the one that is blocked. -/
theorem SramInv.put_eq (h : SramInv setup p x) : x.completed ++ x.current =
    x.written p ++ (x.bus.net.req.blocked p.m p.thread).toList := by
  have hputs := h.bus.net.req.puts p.m
  have hall : ∀ e ∈ (x.bus.net.req.input p.m).written, e.1 = p.thread := by
    intro e he
    have hmem : e.2 ∈ byWriter e.1 (x.bus.net.req.calls p.m) := by
      rw [hputs e.1]
      exact List.mem_append_left _ (List.mem_map.mpr ⟨e, by simpa using he, rfl⟩)
    rw [h.calls] at hmem
    obtain ⟨e', he', -⟩ := List.mem_map.mp hmem
    obtain ⟨hin, hw⟩ := List.mem_filter.mp he'
    obtain ⟨w, -, rfl⟩ := List.mem_map.mp hin
    exact (by simpa using hw : p.thread = e.1).symm
  have hfilter : (x.bus.net.req.input p.m).written.filter (fun e => e.1 = p.thread) =
      (x.bus.net.req.input p.m).written := List.filter_eq_self.mpr fun e he => by simp [hall e he]
  have hown := hputs p.thread
  rw [h.calls, byWriter, byWriter, hfilter] at hown
  rw [SramSys.written, ← hown]
  simp [List.filter_map, Function.comp_def]

/-- With no `put` blocked, the words are what was written to the queue of the port. -/
theorem SramInv.written_eq (h : SramInv setup p x)
    (hput : x.bus.net.req.blocked p.m p.thread = none) :
    x.written p = x.completed ++ x.current := by
  rw [h.put_eq, hput, Option.toList_none, List.append_nil]

/-- A word that is blocked is one of the copy under way. -/
theorem SramInv.blocked_mem (h : SramInv setup p x) {w : VciRequest}
    (hput : x.bus.net.req.blocked p.m p.thread = some w) : w ∈ x.current := by
  obtain ⟨q, hq⟩ := h.done
  have heq := h.put_eq
  rw [hput, ← hq, List.append_assoc] at heq
  rw [List.append_cancel_left heq]
  exact List.mem_append_right _ List.mem_cons_self

/-- A step of the bus that keeps the words. -/
theorem SramInv.bus_kept {l : BusLabel n k T} {bus : Bus n k T D} (h : SramInv setup p x)
    (hs : BusStep setup x.bus l bus) (hmeets : l.Meets Sends) (hx : x'.bus = bus)
    (hreq : x'.req.cmd = CMD_WRITE ∧ x'.req.srcid = p.masterId)
    (hcalls : bus.net.req.calls p.m = (x'.completed ++ x'.current).map fun w => (p.thread, w))
    (hdone : x'.completed = x.completed) (hann : x'.announced = x.announced) :
    SramInv setup p x' := by
  subst hx
  refine ⟨h.bus.step (fun _ _ h => h.cmd) hs hmeets, h.flow.step h.bus (fun _ _ h => h.cmd) hs,
    hreq, hcalls, ?_, ?_⟩
  · rw [hdone, SramSys.written, puts_step h.bus hs p.m]
    exact h.done.trans (List.prefix_append _ _)
  · rw [hdone, hann]
    exact h.announced

theorem SramInv.sent_kept (h : SramInv setup p x) {c : SramCopy} {regAddr : Nat} {rest : List Nat}
    {bus : Bus n k T D}
    (hs : BusStep setup x.bus (.call p.m p.thread (sendPack x.run.dbf c x.req regAddr)) bus) :
    SramInv setup p (x.sent c regAddr rest bus) := by
  refine h.bus_kept hs (h.sends c regAddr) rfl h.req ?_ rfl rfl
  rw [calls_bus hs, h.calls]
  simp [SramSys.sent]

theorem SramInv.resume_kept (h : SramInv setup p x) {req : VciRequest} {bus : Bus n k T D}
    (hs : BusStep setup x.bus (.resumePut p.m p.thread req) bus) :
    SramInv setup p { x with bus := bus } := by
  refine h.bus_kept hs trivial rfl h.req ?_ rfl rfl
  rw [calls_bus hs, h.calls]
  simp

theorem SramInv.continues_kept {ends : Bool} (h : SramInv setup p x)
    (hgo : Continues p x ends x') : SramInv setup p x' := by
  cases hgo with
  | goesOn hleft => exact h
  | ends hput hc hrest hrun =>
      refine ⟨h.bus, h.flow, h.req, ?_, ?_, ?_⟩
      · simpa [SramSys.ended] using h.calls
      · show x.completed ++ x.current <+: x.written p
        rw [h.written_eq hput]
      · show (if x.StatusSet then x.announced else []) ++ x.current ⊆ x.completed ++ x.current
        split
        · exact List.append_subset.mpr ⟨fun w hw => List.mem_append_left _ (h.announced hw),
            List.subset_append_right _ _⟩
        · exact List.subset_append_right _ _

/-- **Every step keeps the words in their place.** -/
theorem SramInv.step_kept {l : SramLabel n k T} (h : SramInv setup p x)
    (hs : SramStep setup p x l x') : SramInv setup p x' := by
  cases hs with
  | dev he hstart hrun => exact ⟨h.bus, h.flow, h.req, h.calls, h.done, h.announced⟩
  | start hidle hrun hc => exact ⟨h.bus, h.flow, h.req, h.calls, h.done, h.announced⟩
  | put hc hrest hbus hgo => exact (h.sent_kept hbus).continues_kept hgo
  | resume hbus hgo => exact (h.resume_kept hbus).continues_kept hgo
  | @bus l bus hl hmeets hbus =>
      refine h.bus_kept hbus hmeets rfl h.req ?_ rfl rfl
      rw [calls_bus hbus, h.calls]
      cases l with
      | call m t req =>
          have hm : m ≠ p.m := fun hm => hl t req (by rw [BusLabel.tries, hm])
          simp [hm]
      | _ => simp

theorem sramInv_reach (h : (sramMachine setup p).Reach x) : SramInv setup p x := by
  refine h.invariant (I := SramInv setup p) ?_ fun x x' _ hi hs => ?_
  · intro x hx
    exact hx ▸ sramInv_new
  · obtain ⟨l, hs⟩ := hs
    exact hi.step_kept hs

/-! ## 4. The end of a copy -/

/-- A completion sets the status bit. -/
theorem status_of_copyEnd {run run' : DbfRun} (h : run.next .copyEnd = some run') :
    run'.dbf.mData REG_INT_STATUS &&& statusBit REG_STATUS_BIT_SRAM ≠ 0#8 := by
  simp only [DbfRun.next] at h
  split at h
  · obtain ⟨⟨⟨⟩, d⟩, hrun, rfl⟩ := Option.map_eq_some_iff.mp h
    have hline : d.mData REG_INT_STATUS =
        (run.dbf.line.complete (statusBit REG_STATUS_BIT_SRAM)).status :=
      congrArg IrqLine.status (masterRequestEnd_line hrun).1
    have hbit : ∀ b : Byte, (b ||| statusBit REG_STATUS_BIT_SRAM) &&& statusBit REG_STATUS_BIT_SRAM ≠
        0#8 ∧ (b ||| statusBit REG_STATUS_BIT_SRAM ||| 0x80#8) &&& statusBit REG_STATUS_BIT_SRAM ≠
        0#8 := by decide
    show d.mData REG_INT_STATUS &&& _ ≠ _
    rw [hline]
    unfold IrqLine.complete
    split
    · exact (hbit _).2
    · exact (hbit _).1
  · cases h

/-- A `put` that returns leaves its message in the queue: what the queue has handed over it has
    handed over before. -/
theorem queued_of_put {A B C MSG : Type*} [DecidableEq A] [DecidableEq C] {x : Crossbar A B C MSG}
    {a : A} {t : C} {m : MSG} (hi : (x.input a).Ok) (hput : (x.put a t m).blocked a t = none) :
    (t, m) ∈ ((x.put a t m).input a).queued := by
  simp only [Crossbar.put, Function.update_self] at hput ⊢
  obtain ⟨-, hw⟩ := Channel.write_spec hi t m
  generalize (x.input a).write t m = r at hw hput ⊢
  cases hw with
  | suspend hfull => cases hput
  | append hfull hq => simp [hq]

/-- A completion finds the word that was put last in the queue of the port. -/
theorem queued_of_completes {l : SramLabel n k T} (h : SramInv setup p x)
    (hs : SramStep setup p x l x') (hl : l.Completes) :
    (∃ w ∈ x'.announced, (p.thread, w) ∈ (x'.bus.net.req.input p.m).queued) ∧
      x'.completed = x'.written p ∧ x'.StatusSet := by
  have hend {y y' : SramSys n k T D} {ends : Bool} (hy : SramInv setup p y)
      (hq : y.bus.net.req.blocked p.m p.thread = none →
        ∃ w ∈ y.current, (p.thread, w) ∈ (y.bus.net.req.input p.m).queued)
      (hgo : Continues p y ends y') (he : ends = true) :
      (∃ w ∈ y'.announced, (p.thread, w) ∈ (y'.bus.net.req.input p.m).queued) ∧
        y'.completed = y'.written p ∧ y'.StatusSet := by
    cases hgo with
    | goesOn hleft => cases he
    | ends hput hc hrest hrun =>
        obtain ⟨w, hw, hin⟩ := hq hput
        exact ⟨⟨w, List.mem_append_right _ hw, hin⟩, (hy.written_eq hput).symm,
          status_of_copyEnd hrun⟩
  cases hs with
  | put hc hrest hbus hgo =>
      refine hend (h.sent_kept hbus) (fun hput => ?_) hgo hl
      refine ⟨_, List.mem_append_right _ List.mem_cons_self, ?_⟩
      cases hbus with
      | call hr =>
          cases hr with
          | call m hb => exact queued_of_put (h.bus.net.req.input p.m) hput
  | resume hbus hgo =>
      refine hend (h.resume_kept hbus) (fun hput => ?_) hgo hl
      cases hbus with
      | resumePut hr =>
          cases hr with
          | resumePut hb hw =>
              exact ⟨_, h.blocked_mem hb, queued_of_put (h.bus.net.req.input p.m) hput⟩
  | dev he hstart hrun => exact hl.elim
  | start hidle hrun hc => exact hl.elim
  | bus hl' hmeets hbus => exact hl.elim

/-- **What is in the queue has not been served.** -/
theorem SramInv.not_served (h : SramInv setup p x) {w : VciRequest} (hw : w ∈ x.announced)
    (hq : (p.thread, w) ∈ (x.bus.net.req.input p.m).queued) (hall : x.completed = x.written p) :
    ¬ WordsServed setup p x := by
  intro hserved
  obtain ⟨⟨s, w'⟩, hroute⟩ := Option.isSome_iff_exists.mp (hserved.mapped w hw)
  have hto := routeTo_eq_some.mpr hroute
  have hcoming : w' ∈ x.bus.coming setup p.m s := by
    refine List.mem_append_right _ (List.mem_filterMap.mpr ⟨w, ?_, hto⟩)
    exact List.mem_map.mpr ⟨_, hq, rfl⟩
  have hle := (hserved.served s ⟨w, hw, by rw [hto]; rfl⟩).length_le
  have hissued := congrArg List.length
    (issued_eq h.bus h.flow (fun _ _ h => h.srcid) p.m s)
  rw [hall, SramSys.written] at hle
  simp only [Bus.issued, List.length_append] at hissued
  have hpos := List.length_pos_of_mem hcoming
  omega

/-- **With none of its words on its way**, a copy has arrived. -/
theorem copied_of_drained (h : (sramMachine setup p).Reach x) (hd : Drained setup p x) :
    Copied setup p x := by
  have hinv := sramInv_reach h
  refine fun _ => ⟨fun w hw => ?_, fun s _ => ?_⟩
  · by_contra hnone
    have hstray : w ∈ (x.written p).filter
        (unrouted (dispatchRequestsThread (k := k) setup.map) p.m) :=
      List.mem_filter.mpr ⟨hinv.done.subset (hinv.announced hw), by simpa [unrouted] using hnone⟩
    rw [SramSys.written, filter_unrouted hinv.flow.stops, hd.strays] at hstray
    cases hstray
  · have hissued := issued_eq hinv.bus hinv.flow (fun _ _ h => h.srcid) p.m s
    rw [hd.serving, hd.coming, List.append_nil, List.append_nil] at hissued
    rw [← hissued]
    exact hinv.done.filterMap _

/-- Only a completion announces a copy. -/
theorem announced_step {l : SramLabel n k T} (hs : SramStep setup p x l x') (hl : ¬ l.Completes) :
    x'.announced = x.announced := by
  cases hs with
  | put hc hrest hbus hgo =>
      cases hgo with
      | goesOn hleft => rfl
      | ends => exact absurd rfl hl
  | resume hbus hgo =>
      cases hgo with
      | goesOn hleft => rfl
      | ends => exact absurd rfl hl
  | _ => rfl

omit [DecidableEq T] in
theorem copied_of_none (h : x.announced = []) : Copied setup p x := by
  refine fun _ => ⟨fun w hw => ?_, fun s hs => ?_⟩
  · rw [h] at hw
    cases hw
  · obtain ⟨w, hw, -⟩ := hs
    rw [h] at hw
    cases hw

/-- **When the status bit of a copy means that it has arrived**: in every state of a run exactly when
    no copy completes in it. The completion itself comes too early. -/
theorem copied_iff_no_completion (setup : BusSetup n k D) (p : DbfPort n T)
    {tr : List (SramLabel n k T × SramSys n k T D)} {x : SramSys n k T D}
    (h : Run (SramStep setup p) (.new setup p) tr x) :
    (∀ e ∈ tr, Copied setup p e.2) ↔ ∀ e ∈ tr, ¬ e.1.Completes := by
  refine h.forall_iff (I := fun y => SramInv setup p y ∧ y.announced = [])
    (P := fun l => ¬ l.Completes) (fun y hy => copied_of_none hy.2) (fun y l y' hy hl hs => ?_)
    (fun y l y' hy hl hs hc => ?_) ⟨sramInv_new, rfl⟩
  · exact ⟨hy.1.step_kept hs, (announced_step hs hl).trans hy.2⟩
  · obtain ⟨⟨w, hw, hq⟩, hall, hset⟩ := queued_of_completes hy.1 hs (not_not.mp hl)
    exact (hy.1.step_kept hs).not_served hw hq hall (hc hset)

end Rabbits
