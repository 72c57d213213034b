/-
  File:      Rabbits/Dbf/SramRace.lean
  Subject:   A whole copy on a bus with one master and one slave, up to its status bit.

  * `At` -- a direction of a bus with one port on each side, by where its dispatcher is; each step
    of it has one lemma (`At.send`, `At.quiet`, `At.carry`, `At.take`);
  * `Rests` -- such a bus with nothing on its way; `Rests.word` -- a word is put, served and
    answered, and the bus rests again;
  * `reach_last` -- by induction on the words, all of them but one are put and served;
  * `sram_copy_races` -- **the last one is put, and the status bit is set with it in the queue**.
-/
import Mathlib.Logic.Relation
import Rabbits.Dbf.SramCopy

namespace Rabbits

open Lib Crossbar

universe u z

/-! ## 1. One direction with one port on each side -/

section OnePort

variable {A B : Type u} {MSG : Type z} [DecidableEq A] [DecidableEq B] [Subsingleton A]
  {route : A → MSG → Option (B × MSG)} {x : Crossbar A B Unit MSG} {a : A} {b : B} {m m' : MSG}

/-- The dispatcher is there, nothing waits in front of it, and `out` waits behind it. -/
structure At (route : A → MSG → Option (B × MSG)) (x : Crossbar A B Unit MSG) (a : A) (b : B)
    (pc : DispatcherPc B MSG) (out : List MSG) : Prop where
  inv : x.Inv route
  dispatcher : x.dispatcher a = pc
  blocked : x.blocked a () = none
  input : (x.input a).queued = []
  output : (x.output b).queued.map Prod.snd = out
  asleep : pc = .reading → (x.input a).canRead = .asleep
  running : pc ≠ .reading → (x.input a).canRead = .running

/-- A write to an empty queue. -/
theorem Channel.write_of_empty {W ITEM : Type*} [DecidableEq W] {c : Channel W ITEM} (h : c.Ok)
    (hq : c.queued = []) (w : W) (p : ITEM) : ∃ c', c.write w p = (true, c') ∧
      c'.queued = [(w, p)] ∧ c'.canRead = c.canRead.notify := by
  obtain ⟨-, hw⟩ := Channel.write_spec h w p
  generalize c.write w p = r at hw
  cases hw with
  | suspend hfull =>
      rw [hq] at hfull
      cases hfull
  | append hfull hq' hh hwr hr hw => exact ⟨_, rfl, by rw [hq', hq, List.nil_append], hr⟩

/-- A read from a queue with one item. -/
theorem Channel.read_of_single {W ITEM : Type*} {c : Channel W ITEM} (h : c.Ok) {p : ITEM}
    (hq : c.queued.map Prod.snd = [p]) : ∃ c', c.read = (some p, c') ∧ c'.queued = [] ∧
      c'.canRead = .running := by
  obtain ⟨-, hr⟩ := Channel.read_spec h
  generalize c.read = r at hr
  cases hr with
  | suspend hempty =>
      rw [hempty] at hq
      cases hq
  | take hq' hrest hh hwr hrun hw =>
      rw [hq'] at hq
      obtain ⟨hp, hnil⟩ := List.cons_eq_cons.mp hq
      cases hp
      exact ⟨_, rfl, hrest.trans (List.map_eq_nil_iff.mp hnil), hrun⟩

/-- A read from an empty queue. -/
theorem Channel.read_of_empty {W ITEM : Type*} {c : Channel W ITEM} (h : c.Ok)
    (hq : c.queued = []) : c.read = (none, { c with canRead := .asleep }) := by
  obtain ⟨-, hr⟩ := Channel.read_spec h
  generalize c.read = r at hr
  cases hr with
  | suspend _ => rfl
  | take hq' =>
      rw [hq] at hq'
      cases hq'

omit [Subsingleton A] in
/-- A message is put and taken by the dispatcher. -/
theorem At.send (h : At route x a b .reading []) (m : MSG) :
    ∃ y z, CrossbarStep route x (.call a () m) y ∧ y.blocked a () = none ∧
      CrossbarStep route y (.dispatch a) z ∧ At route z a b (.delay m false) [] := by
  have hcall : CrossbarStep route x (.call a () m) (x.call a () m) := .call m h.blocked
  have hy := h.inv.step hcall
  obtain ⟨c, hwrite, hq, hwake⟩ := Channel.write_of_empty (h.inv.input a) h.input () m
  have hin : (x.call a () m).input a = c := by simp [Crossbar.call, Crossbar.put, hwrite]
  have hblk : (x.call a () m).blocked a () = none := by
    simp [Crossbar.call, Crossbar.put, hwrite]
  rw [h.asleep rfl] at hwake
  have hread : CrossbarStep route (x.call a () m) (.dispatch a) ((x.call a () m).dispRead a) :=
    .read h.dispatcher (by rw [hin, hwake]; decide)
  obtain ⟨c', hr, hq', hrun⟩ := Channel.read_of_single (hin ▸ hy.input a) (p := m) (by rw [hq]; rfl)
  have hin' : ((x.call a () m).dispRead a).input a = c' := by simp [Crossbar.dispRead, hin, hr]
  have hpc : ((x.call a () m).dispRead a).dispatcher a = .delay m false := by
    simp [Crossbar.dispRead, hin, hr]
  exact ⟨_, _, hcall, hblk, hread, hy.step hread, hpc, hblk, by rw [hin', hq'], h.output,
    fun e => (by cases e), fun _ => by rw [hin', hrun]⟩

omit [Subsingleton A] in
/-- At the start the dispatcher looks into its queue and goes to sleep. -/
theorem at_new [Inhabited MSG] (route : A → MSG → Option (B × MSG)) (a : A) (b : B) :
    ∃ y, CrossbarStep route (.new : Crossbar A B Unit MSG) (.dispatch a) y ∧
      At route y a b .reading [] := by
  have hread : CrossbarStep route (.new : Crossbar A B Unit MSG) (.dispatch a)
      (Crossbar.new.dispRead a) := .read rfl fun e => (by cases e)
  have hnone := Channel.read_of_empty (Channel.ok_new : (Channel.new : Channel Unit MSG).Ok) rfl
  have hin : ((Crossbar.new : Crossbar A B Unit MSG).dispRead a).input a =
      { (Channel.new : Channel Unit MSG) with canRead := .asleep } := by
    simp [Crossbar.dispRead, Crossbar.new, hnone]
  refine ⟨_, hread, inv_new.step hread, ?_, rfl, by rw [hin]; rfl, rfl, fun _ => by rw [hin],
    fun e => absurd rfl e⟩
  simp [Crossbar.dispRead, Crossbar.new, hnone]

/-- Nothing can run before time passes. -/
theorem At.quiet {pc : DispatcherPc B MSG} {out : List MSG} (h : At route x a b pc out)
    (hpc : pc = .reading ∨ ∃ m, pc = .delay m false) : x.Quiet := by
  refine ⟨fun a' hrun => ?_, fun a' t m hb => ?_⟩
  · cases Subsingleton.elim a' a
    unfold Crossbar.CanRun at hrun
    rw [h.dispatcher] at hrun
    rcases hpc with rfl | ⟨m, rfl⟩
    · exact hrun (h.asleep rfl)
    · cases hrun
  · cases Subsingleton.elim a' a
    have hnone : x.blocked a t = none := h.blocked
    rw [hnone] at hb
    cases hb

/-- Time passes, and the wait is over. -/
theorem At.tick_delay (h : At route x a b (.delay m false) []) :
    At route (x.tick fun _ => true) a b (.delay m true) [] := by
  refine ⟨h.inv.tick (h.quiet (.inr ⟨m, rfl⟩)) _, ?_, h.blocked, h.input, h.output,
    fun e => (by cases e), fun _ => h.running (by simp)⟩
  simp [Crossbar.tick, h.dispatcher]

theorem At.tick_reading (h : At route x a b .reading []) :
    At route (x.tick fun _ => true) a b .reading [] := by
  refine ⟨h.inv.tick (h.quiet (.inl rfl)) _, ?_, h.blocked, h.input, h.output, h.asleep, h.running⟩
  simp [Crossbar.tick, h.dispatcher]

omit [Subsingleton A] in
/-- The dispatcher routes its message, hands it over, and goes to sleep. -/
theorem At.carry (h : At route x a b (.delay m true) []) (hr : route a m = some (b, m')) :
    ∃ y z w, CrossbarStep route x (.dispatch a) y ∧ CrossbarStep route y (.dispatch a) z ∧
      CrossbarStep route z (.dispatch a) w ∧ At route w a b .reading [m'] := by
  have hroute : CrossbarStep route x (.dispatch a) (x.dispRoute a b m') := .route h.dispatcher hr
  have hempty : (x.output b).queued = [] := List.map_eq_nil_iff.mp h.output
  have hadd : CrossbarStep route (x.dispRoute a b m') (.dispatch a)
      ((x.dispRoute a b m').dispAdd a b m') :=
    .add (Function.update_self _ _ _) ((h.inv.output b).writer_of_empty hempty a)
  have hz := (h.inv.step hroute).step hadd
  obtain ⟨c, hwrite, hq, -⟩ := Channel.write_of_empty (h.inv.output b) hempty a m'
  have hout : ((x.dispRoute a b m').dispAdd a b m').output b = c := by
    simp [Crossbar.dispAdd, Crossbar.dispRoute, hwrite]
  have hpc : ((x.dispRoute a b m').dispAdd a b m').dispatcher a = .reading := by
    simp [Crossbar.dispAdd, Crossbar.dispRoute, hwrite]
  have hrun : (x.input a).canRead = .running := h.running (by simp)
  have hread : CrossbarStep route ((x.dispRoute a b m').dispAdd a b m') (.dispatch a)
      (((x.dispRoute a b m').dispAdd a b m').dispRead a) :=
    .read hpc (by show (x.input a).canRead ≠ _; rw [hrun]; decide)
  have hnone := Channel.read_of_empty (h.inv.input a) h.input
  have hin : (((x.dispRoute a b m').dispAdd a b m').dispRead a).input a =
      { x.input a with canRead := .asleep } := by
    simp [Crossbar.dispRead, Crossbar.dispAdd, Crossbar.dispRoute, hnone]
  have hpc' : (((x.dispRoute a b m').dispAdd a b m').dispRead a).dispatcher a = .reading := by
    simp [Crossbar.dispRead, Crossbar.dispAdd, Crossbar.dispRoute, hnone]
  refine ⟨_, _, _, hroute, hadd, hread, hz.step hread, hpc', h.blocked, ?_, ?_,
    fun _ => by rw [hin], fun e => absurd rfl e⟩
  · rw [hin]
    exact h.input
  · show (((x.dispRoute a b m').dispAdd a b m').output b).queued.map Prod.snd = _
    rw [hout, hq]
    rfl

omit [Subsingleton A] in
/-- The message is taken at the other end. -/
theorem At.take (h : At route x a b .reading [m]) :
    ∃ y, CrossbarStep route x (.get b (some m)) y ∧ At route y a b .reading [] := by
  have hne : (x.output b).canRead ≠ .asleep := by
    intro hs
    have hout := h.output
    rw [(h.inv.output b).reader hs] at hout
    cases hout
  have hget : CrossbarStep route x (.get b (x.get b).1) (x.get b).2 := .get hne
  have hy := h.inv.step hget
  obtain ⟨c, hr, hq, -⟩ := Channel.read_of_single (h.inv.output b) h.output
  have hres : (x.get b).1 = some m := by simp [Crossbar.get, hr]
  have hout : (x.get b).2.output b = c := by simp [Crossbar.get, hr]
  rw [hres] at hget
  exact ⟨_, hget, hy, h.dispatcher, h.blocked, h.input, by rw [hout, hq]; rfl, h.asleep, h.running⟩

end OnePort

/-! ## 2. A word on a bus with one master and one slave -/

/-- The one port on each side. -/
def port : Fin 1 := ⟨0, Nat.one_pos⟩

/-- A slave that answers anything, at the addresses of the ram. -/
def ramSetup : BusSetup 1 1 Unit where
  map _ := [⟨0, 0x00000000#32, 0x08000000#32, 0#32⟩]
  rcvRqst _ _ _ _ _ _ := True
  init _ := ()

/-- A step in which the device has no part. -/
def RamStep (x y : Bus 1 1 Unit Unit) : Prop :=
  ∃ l, (∀ t req, l.tries ≠ some (port, t, req)) ∧ l.Meets Sends ∧ BusStep ramSetup x l y

abbrev RamRuns : Bus 1 1 Unit Unit → Bus 1 1 Unit Unit → Prop := Relation.ReflTransGen RamStep

/-- Nothing is on its way. -/
structure Rests (x : Bus 1 1 Unit Unit) : Prop where
  req : At (dispatchRequestsThread ramSetup.map) x.net.req port port .reading []
  rsp : At dispatchResponsesThread x.net.rsp port port .reading []
  slave : x.slave port = .getting
  flag : x.bProcessing port = false

/-- A word for the first address. -/
structure RamWord (w : VciRequest) : Prop where
  address : w.address = 0#32
  cmd : w.cmd = CMD_WRITE
  srcid : w.srcid = 0#16

theorem RamWord.routed {w : VciRequest} (h : RamWord w) : ∃ w',
    dispatchRequestsThread ramSetup.map port w = some (port, w') ∧ w'.cmd = CMD_WRITE ∧
      w'.srcid = 0#16 := by
  have hfind : findEntry (ramSetup.map port) w.address =
      some ⟨0, 0x00000000#32, 0x08000000#32, 0#32⟩ := by
    rw [h.address]
    decide
  have hslave : getSlave 1 0 = some port := by decide
  obtain ⟨w', hw'⟩ : ∃ w', dispatchRequestsThread ramSetup.map port w = some (port, w') := by
    rw [dispatchRequestsThread, dispatchRequest, hfind, Option.map_some, Option.bind_some, hslave]
    exact ⟨_, rfl⟩
  obtain ⟨hsrcid, -, hcmd, -⟩ := dispatchRequestsThread_fields hw'
  exact ⟨w', hw', hcmd.trans h.cmd, hsrcid.trans h.srcid⟩

/-- The bus with another state of one direction. -/
def Bus.withReq (x : Bus 1 1 Unit Unit) (r : Crossbar (Fin 1) (Fin 1) Unit VciRequest) :
    Bus 1 1 Unit Unit := { x with net := { x.net with req := r } }

def Bus.withRsp (x : Bus 1 1 Unit Unit) (r : Crossbar (Fin 1) (Fin 1) Unit VciResponse) :
    Bus 1 1 Unit Unit := { x with net := { x.net with rsp := r } }

def Bus.ticked (x : Bus 1 1 Unit Unit) : Bus 1 1 Unit Unit :=
  { x with net := ⟨x.net.req.tick fun _ => true, x.net.rsp.tick fun _ => true⟩ }

section Word

variable {x y : Bus 1 1 Unit Unit}

theorem ramRuns_tau (h : BusStep ramSetup x .tau y) : RamRuns x y :=
  .single ⟨.tau, fun _ _ e => (by cases e), trivial, h⟩

theorem ramRuns_req {r : Crossbar (Fin 1) (Fin 1) Unit VciRequest}
    (h : CrossbarStep (dispatchRequestsThread ramSetup.map) x.net.req (.dispatch port) r) :
    RamRuns x (x.withReq r) := ramRuns_tau (.dispatchRequest h)

theorem ramRuns_rsp {r : Crossbar (Fin 1) (Fin 1) Unit VciResponse}
    (h : CrossbarStep dispatchResponsesThread x.net.rsp (.dispatch port) r) :
    RamRuns x (x.withRsp r) := ramRuns_tau (.dispatchResponse h)

theorem ramRuns_ticked (hreq : x.net.req.Quiet) (hrsp : x.net.rsp.Quiet) : RamRuns x x.ticked :=
  ramRuns_tau (.advance hreq hrsp _ _)

/-- A request goes from the dispatcher of the master into the slave. -/
theorem runs_request {w : VciRequest} (hw : RamWord w)
    (hat : At (dispatchRequestsThread ramSetup.map) x.net.req port port (.delay w false) [])
    (hrsp : At dispatchResponsesThread x.net.rsp port port .reading [])
    (hslave : x.slave port = .getting) (hflag : x.bProcessing port = false) :
    ∃ y req, RamRuns x y ∧ At (dispatchRequestsThread ramSetup.map) y.net.req port port .reading [] ∧
      At dispatchResponsesThread y.net.rsp port port .reading [] ∧ y.slave port = .serving req ∧
      req.srcid = 0#16 := by
  obtain ⟨w', hroute, hcmd, hsrcid⟩ := hw.routed
  have h1 := ramRuns_ticked (hat.quiet (.inr ⟨w, rfl⟩)) (hrsp.quiet (.inl rfl))
  obtain ⟨r2, r3, r4, hr2, hr3, hr4, hback⟩ := hat.tick_delay.carry hroute
  have h2 : RamRuns x.ticked (x.ticked.withReq r2) := ramRuns_req hr2
  have h3 : RamRuns (x.ticked.withReq r2) (x.ticked.withReq r3) := ramRuns_req hr3
  have h4 : RamRuns (x.ticked.withReq r3) (x.ticked.withReq r4) := ramRuns_req hr4
  obtain ⟨r5, hr5, hdone⟩ := hback.take
  have h5 : RamRuns (x.ticked.withReq r4) ((x.ticked.withReq r4).afterGet port (some w') r5) :=
    ramRuns_tau (.slaveGet hslave hr5)
  have htakes : slaveTakes (x.bProcessing port) (some w') = (.serving w', true) := by
    rw [hflag, slaveTakes, if_neg (by decide), if_pos (.inl hcmd)]
  refine ⟨_, w', (((h1.trans h2).trans h3).trans h4).trans h5, hdone, hrsp.tick_reading, ?_, hsrcid⟩
  show Function.update x.slave port (slaveTakes (x.bProcessing port) (some w')).1 port = _
  rw [Function.update_self, htakes]

/-- The slave answers, and its response goes into its dispatcher. -/
theorem runs_serve {req : VciRequest} (hid : req.srcid = 0#16)
    (hreq : At (dispatchRequestsThread ramSetup.map) x.net.req port port .reading [])
    (hrsp : At dispatchResponsesThread x.net.rsp port port .reading [])
    (hslave : x.slave port = .serving req) :
    ∃ y rsp, RamRuns x y ∧ rsp.rsrcid = 0#16 ∧
      At (dispatchRequestsThread ramSetup.map) y.net.req port port .reading [] ∧
      At dispatchResponsesThread y.net.rsp port port (.delay rsp false) [] ∧
      y.slave port = .getting ∧ y.bProcessing port = false := by
  obtain ⟨r1, r2, hr1, hput, hr2, hat⟩ := hrsp.send (slaveRsp req (fun _ => 0#8) false)
  have hserve : BusStep ramSetup x (.serve port req (slaveRsp req (fun _ => 0#8) false)) _ :=
    .serve (d := ()) hslave trivial hr1
  have h1 : RamRuns x _ := .single ⟨.serve port req _, fun _ _ e => (by cases e), trivial, hserve⟩
  have h2 := h1.trans (ramRuns_rsp hr2)
  refine ⟨_, _, h2, hid, hreq, hat, ?_, ?_⟩
  · show Function.update x.slave port
      (if (r1.blocked port ()).isNone then .getting else .putting) port = _
    rw [Function.update_self, hput]
    rfl
  · show Function.update x.bProcessing port
      (if (r1.blocked port ()).isNone then false else x.bProcessing port) port = _
    rw [Function.update_self, hput]
    rfl

/-- The response goes back to the master, and the bus rests. -/
theorem runs_response {rsp : VciResponse} (hid : rsp.rsrcid = 0#16)
    (hreq : At (dispatchRequestsThread ramSetup.map) x.net.req port port .reading [])
    (hat : At dispatchResponsesThread x.net.rsp port port (.delay rsp false) [])
    (hslave : x.slave port = .getting) (hflag : x.bProcessing port = false) :
    ∃ y, RamRuns x y ∧ Rests y := by
  have hroute : dispatchResponsesThread (n := 1) port rsp = some (port, rsp) := by
    simp [dispatchResponsesThread, getMaster, hid, port]
  have h1 := ramRuns_ticked (hreq.quiet (.inl rfl)) (hat.quiet (.inr ⟨rsp, rfl⟩))
  obtain ⟨r2, r3, r4, hr2, hr3, hr4, hback⟩ := hat.tick_delay.carry hroute
  have h2 : RamRuns x.ticked (x.ticked.withRsp r2) := ramRuns_rsp hr2
  have h3 : RamRuns (x.ticked.withRsp r2) (x.ticked.withRsp r3) := ramRuns_rsp hr3
  have h4 : RamRuns (x.ticked.withRsp r3) (x.ticked.withRsp r4) := ramRuns_rsp hr4
  obtain ⟨r5, hr5, hdone⟩ := hback.take
  have hdeliver : BusStep ramSetup (x.ticked.withRsp r4) (.deliver port (some rsp))
      (x.ticked.withRsp r5) := .deliver hr5
  have h5 : RamRuns (x.ticked.withRsp r4) (x.ticked.withRsp r5) :=
    .single ⟨.deliver port _, fun _ _ e => (by cases e), trivial, hdeliver⟩
  exact ⟨_, (((h1.trans h2).trans h3).trans h4).trans h5, hreq.tick_reading, hdone, hslave, hflag⟩

/-- **A word is put, served and answered**, and the bus rests again. -/
theorem Rests.word (h : Rests x) {w : VciRequest} (hw : RamWord w) :
    ∃ y z, BusStep ramSetup x (.call port () w) y ∧ y.net.req.blocked port () = none ∧
      RamRuns y z ∧ Rests z := by
  obtain ⟨r1, r2, hr1, hput, hr2, hat⟩ := h.req.send w
  have h2 : RamRuns (x.withReq r1) (x.withReq r2) := ramRuns_req hr2
  obtain ⟨y3, req, h3, hreq3, hrsp3, hslave3, hid3⟩ :=
    runs_request (x := x.withReq r2) hw hat h.rsp h.slave h.flag
  obtain ⟨y4, rsp, h4, hid4, hreq4, hat4, hslave4, hflag4⟩ := runs_serve hid3 hreq3 hrsp3 hslave3
  obtain ⟨z, h5, hz⟩ := runs_response hid4 hreq4 hat4 hslave4 hflag4
  exact ⟨x.withReq r1, z, .call hr1, hput, ((h2.trans h3).trans h4).trans h5, hz⟩

end Word

/-! ## 3. A copy -/

/-- The device at the one port. -/
def ramPort : DbfPort 1 Unit := ⟨port, (), 0#16, rfl⟩

section Copy

variable {x : SramSys 1 1 Unit Unit}

abbrev RamReach : SramSys 1 1 Unit Unit → Prop := (sramMachine ramSetup ramPort).Reach

theorem ramReach_runs (h : RamReach x) {bus : Bus 1 1 Unit Unit} (hr : RamRuns x.bus bus) :
    RamReach { x with bus := bus } := by
  induction hr with
  | refl => exact h
  | tail _ hs ih =>
      obtain ⟨l, hl, hmeets, hs⟩ := hs
      exact ih.step ⟨_, .bus hl hmeets hs⟩

/-- A copy to address 0 that does not count the address up, with these words left. -/
structure Copying (x : SramSys 1 1 Unit Unit) (rest : List Nat) : Prop where
  reach : RamReach x
  rests : Rests x.bus
  copying : x.run.copying = true
  copy : ∃ b8alg, x.copy = some ⟨0#32, b8alg, false, rest⟩

/-- The next word is put: it is served before the next step of the copy, or the copy goes on. -/
theorem Copying.put {regAddr : Nat} {rest : List Nat} (h : Copying x (regAddr :: rest)) :
    ∃ c w y, x.copy = some c ∧ c.rest = regAddr :: rest ∧ w = sendPack x.run.dbf c x.req regAddr ∧
      c.next rest = { c with rest := rest } ∧ BusStep ramSetup x.bus (.call port () w) y ∧
      y.net.req.blocked port () = none ∧ ∃ z, RamRuns y z ∧ Rests z := by
  obtain ⟨b8alg, hc⟩ := h.copy
  obtain ⟨hcmd, hsrcid⟩ := (sramInv_reach h.reach).req
  obtain ⟨y, z, hcall, hput, hruns, hz⟩ :=
    h.rests.word (w := sendPack x.run.dbf ⟨0#32, b8alg, false, regAddr :: rest⟩ x.req regAddr)
      ⟨rfl, hcmd, hsrcid⟩
  exact ⟨_, _, y, hc, rfl, rfl, rfl, hcall, hput, z, hruns, hz⟩

/-- **All words but the last one** are put and served, by induction on them. -/
theorem reach_last {rest : List Nat} (hne : rest ≠ []) (h : Copying x rest) :
    ∃ y regAddr, Copying y [regAddr] := by
  induction rest generalizing x with
  | nil => exact absurd rfl hne
  | cons regAddr rest ih =>
      cases rest with
      | nil => exact ⟨x, regAddr, h⟩
      | cons next rest =>
          obtain ⟨c, w, y, hc, hrest, rfl, hnext, hcall, hput, z, hruns, hz⟩ := h.put
          have hstep : SramStep ramSetup ramPort x (.put false)
              (x.sent c regAddr (next :: rest) y) := by
            refine .put hc hrest hcall (.goesOn (.inr fun c' hc' => ?_))
            cases hc'
            rw [hnext]
            exact List.cons_ne_nil _ _
          obtain ⟨b8alg, hcopy⟩ := h.copy
          cases hc.symm.trans hcopy
          exact ih (List.cons_ne_nil _ _)
            ⟨ramReach_runs (h.reach.step ⟨_, hstep⟩) hruns, hz, h.copying, b8alg, congrArg some hnext⟩

/-- The last word is put, and the copy is complete. -/
theorem Copying.completes {regAddr : Nat} (h : Copying x [regAddr]) :
    ∃ y, SramStep ramSetup ramPort x (.put true) y := by
  obtain ⟨c, w, y, hc, hrest, rfl, hnext, hcall, hput, -⟩ := h.put
  obtain ⟨run, hrun⟩ : ∃ run, x.run.next .copyEnd = some run := by
    rw [DbfRun.next, if_pos h.copying]
    exact ⟨_, rfl⟩
  exact ⟨_, .put hc hrest hcall (.ends hput rfl (by rw [hnext]) hrun)⟩

/-- The device at the start, behind a write of 1 to the register of the copy. -/
theorem dbfRun_sendSram : ∃ run, DbfRun.new.next (.setData REG_FRA_SRAM 1#8) = some run ∧
    run.pending .sendSram = true ∧ run.copying = false ∧ run.dbf.adrDest = 0#32 ∧
    run.dbf.mData REG_INC_ADDRESS = 0#8 ∧ run.dbf.mData REG_GLO_CTRL = 0#8 :=
  ⟨_, rfl, by decide, rfl, by decide, by decide, by decide⟩

/-- The copy begins: a write to its register, and its event. -/
theorem reach_copying : ∃ x : SramSys 1 1 Unit Unit, Copying x (copyAddrs 6 8) := by
  have h0 : RamReach (.new ramSetup ramPort : SramSys 1 1 Unit Unit) := .start rfl
  obtain ⟨r1, hr1, hreq⟩ := at_new (dispatchRequestsThread ramSetup.map) port port
  obtain ⟨r2, hr2, hrsp⟩ := at_new dispatchResponsesThread port port
  have hruns : RamRuns (Bus.new ramSetup) (((Bus.new ramSetup).withReq r1).withRsp r2) :=
    (ramRuns_req hr1).trans (ramRuns_rsp hr2)
  have h1 := ramReach_runs h0 hruns
  obtain ⟨run, hrun, hpending, hidle, hadr, hinc, hctrl⟩ := dbfRun_sendSram
  have h2 := h1.step ⟨_, .dev (by simp) (by simp) hrun⟩
  have hstart := masterRequestStart_run (d := run.dbf) (by rw [hadr]; decide)
  rw [hadr, hinc, DbfDevice.height, DbfDevice.width, DbfDevice.format, hctrl] at hstart
  have hdeliver : run.next (.deliver .sendSram) =
      some { run.served .sendSram with copying := true } := by
    simp [DbfRun.next, hpending, DbfRun.deliver, DbfRun.served, hidle, hadr]
  have h3 := h2.step ⟨_, .start hidle hdeliver hstart⟩
  exact ⟨_, h3, ⟨hreq, hrsp, rfl, rfl⟩, rfl, true, rfl⟩

/-- A copy of a picture of the smallest format, up to its end. -/
theorem reach_completes : ∃ y z : SramSys 1 1 Unit Unit,
    RamReach y ∧ SramStep ramSetup ramPort y (.put true) z := by
  obtain ⟨x, hx⟩ := reach_copying
  have hwords : copyAddrs 6 8 ≠ [] := by decide
  obtain ⟨y, regAddr, hy⟩ := reach_last hwords hx
  obtain ⟨z, hz⟩ := hy.completes
  exact ⟨y, z, hy.reach, hz⟩

end Copy

/-- **The status bit of a copy is set while a word of it is in the queue of the device.** -/
theorem sram_copy_races : ∃ x : SramSys 1 1 Unit Unit,
    (sramMachine ramSetup ramPort).Reach x ∧ ¬ Copied ramSetup ramPort x := by
  obtain ⟨y, z, hy, hz⟩ := reach_completes
  have hinv := sramInv_reach hy
  obtain ⟨⟨w, hw, hq⟩, hall, hset⟩ := queued_of_completes hinv hz rfl
  exact ⟨z, hy.step ⟨_, hz⟩, fun hc => (hinv.step_kept hz).not_served hw hq hall (hc hset)⟩

theorem copied_iff_no_completion_sqcif :
    ∃ (tr : List (SramLabel 1 1 Unit × SramSys 1 1 Unit Unit)) (x : SramSys 1 1 Unit Unit),
      Run (SramStep ramSetup ramPort) (.new ramSetup ramPort) tr x ∧
        ¬ ∀ e ∈ tr, Copied ramSetup ramPort e.2 := by
  obtain ⟨y, z, hy, hz⟩ := reach_completes
  obtain ⟨tr, htr⟩ := hy.exists_run (fun _ h => h) fun _ _ h => h
  have hrun := htr.snoc hz
  refine ⟨_, _, hrun, fun hall => ?_⟩
  exact (copied_iff_no_completion ramSetup ramPort hrun).mp hall _
    (List.mem_append_right _ List.mem_cons_self) rfl

end Rabbits
