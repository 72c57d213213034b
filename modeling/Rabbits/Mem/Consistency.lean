/-
  File:      Rabbits/Mem/Consistency.lean
  Subject:   One memory device, accessed by any masters through the interconnect.

  Every access to the memory is a naturally aligned read or write of 1, 2 or 4 bytes inside it. The
  other slaves are any devices.

  * `MemSoc` -- a platform with a memory among its slaves;
  * `byteAt` -- the value of the most recent write to a byte, 0 if there is none;
  * `MemInv` -- the memory holds, and each read was answered with, the most recent values;
  * `MemConsistent`, `mem_consistent` -- what holds of the whole system in every reachable state.
-/
import Rabbits.Cpu.PendingRead
import Rabbits.Mem.MemDevice

namespace Rabbits

open Lib Crossbar

universe u v

/-! ## 1. The model -/

/-- A platform whose slave `ram` is a memory device: `view` is the part of its state that is. -/
structure MemSoc (n k : Nat) (T : Type v) (D : Type u) extends SocSetup n k T D where
  ram : Fin k
  view : D → MemDevice
  size : ULong
  base : ULong
  init_ram : ∃ rdata, view (init ram) = .new size base rdata
  rcvRqst_ram : ∀ d req d' rdata bErr, rcvRqst ram d req d' rdata bErr →
    (view d).rcvRqst req = (view d', bErr) ∧ rdata = (view d').rdata

variable {n k : Nat} {D : Type u} {T : Type v} [DecidableEq T]

/-- What a master may put: reads and writes, and to the memory only what `send_req` makes of a
    naturally aligned access of 1, 2 or 4 bytes inside it. -/
structure InRam (setup : MemSoc n k T D) (m : Fin n) (put : VciRequest) : Prop where
  sent : WellSent m put
  access : ∀ req, dispatchRequestsThread setup.map m put = some (setup.ram, req) →
    ∃ tid addr data nbytes bWrite, put = sendReq m.val tid addr data nbytes bWrite ∧
      Aligned addr nbytes ∧ req.address.toNat + laneOf addr + nbytes ≤ setup.size.toNat

/-- The writes among the requests served. -/
def stored (log : List (VciRequest × VciResponse)) : List (Write Nat Byte) :=
  log.map fun p => (accessOf p.1).stores

/-- The value of the most recent write to the byte `b`, 0 if there is none. -/
def byteAt (log : List (VciRequest × VciResponse)) (b : Nat) : Byte :=
  (lastWrite (stored log) b).getD 0#8

/-! ## 2. The memory -/

section Mem

variable (setup : MemSoc n k T D)

/-- A request to the memory: some master made it for an aligned access, and the device decodes this
    access from it. -/
def FromAccess (req : VciRequest) : Prop :=
  ∃ m : Fin n, ∃ tid addr data nbytes bWrite,
    dispatchRequestsThread setup.map m (sendReq m.val tid addr data nbytes bWrite) =
      some (setup.ram, req) ∧
    Carries req m.val tid addr data nbytes bWrite ∧
    (accessOf req).Inside setup.size ∧
    (accessOf req).ofs = req.address.toNat + laneOf addr ∧ (accessOf req).nbytes = nbytes ∧
    (accessOf req).bWrite = bWrite ∧
    (bWrite = true → ∀ i < nbytes, (accessOf req).data i = data i)

/-- The memory holds what the requests served have written, and each read found the most recent
    values. -/
structure MemInv (y : Bus n k T D) : Prop where
  size : (setup.view (y.dev setup.ram)).size = setup.size
  mem : (setup.view (y.dev setup.ram)).mem = replay (fun _ => 0#8) (stored (y.served setup.ram))
  origin : ∀ p ∈ y.served setup.ram, FromAccess setup p.1
  reads : ∀ i req rsp, (y.served setup.ram)[i]? = some (req, rsp) → req.cmd = CMD_READ →
    rsp.rerror = false ∧ ∃ v, responseThread req.srcid.toNat rsp = some (req.trdid, v) ∧
      ∀ j < (accessOf req).nbytes,
        byteOf v j = byteAt ((y.served setup.ram).take i) ((accessOf req).ofs + j)

end Mem

variable {setup : MemSoc n k T D}

omit [DecidableEq T] in
theorem fromAccess_of_arrives {req : VciRequest}
    (h : Arrives setup.toBusSetup (InRam setup) setup.ram req) : FromAccess setup req := by
  obtain ⟨m, put, hput, hd⟩ := h
  obtain ⟨tid, addr, data, nbytes, bWrite, rfl, hal, hin⟩ := hput.access req hd
  obtain ⟨h1, h2, h3, h4, h5, h6⟩ := dispatchRequestsThread_fields hd
  have hc : Carries req m.val tid addr data nbytes bWrite := ⟨h1, h2, h3, h4, h5, h6, hal⟩
  obtain ⟨hofs, hn, hw, hdata⟩ := accessOf_eq hc
  exact ⟨m, tid, addr, data, nbytes, bWrite, hd, hc, by rw [MemAccess.Inside, hofs, hn]; exact hin,
    hofs, hn, hw, hdata⟩

theorem stored_append_singleton (log : List (VciRequest × VciResponse)) (req : VciRequest)
    (rsp : VciResponse) : stored (log ++ [(req, rsp)]) = stored log ++ [(accessOf req).stores] := by
  simp [stored]

omit [DecidableEq T] in
theorem memInv_new : MemInv setup (.new setup.toBusSetup : Bus n k T D) := by
  obtain ⟨rdata, h⟩ := setup.init_ram
  refine ⟨?_, ?_, fun p hp => (by cases hp), fun i req rsp hp => ?_⟩
  · show (setup.view (setup.init setup.ram)).size = _
    rw [h]
    rfl
  · show (setup.view (setup.init setup.ram)).mem = _
    rw [h]
    rfl
  · simp [Bus.new] at hp

/-- A read stores nothing. -/
theorem stores_of_read {a : MemAccess} (h : a.bWrite = false) (mem : Nat → Byte) :
    a.stores.apply mem = mem := by
  funext b
  simp [Write.apply, MemAccess.stores, h]

omit [DecidableEq T] in
/-- **What the memory does with one request**: a write stores its bytes, a read finds the bytes in
    the memory. -/
theorem serve_ram {d d' : D} {req : VciRequest} {rdata : Fin 8 → Byte} {bErr : Bool}
    (hfrom : FromAccess setup req) (hsize : (setup.view d).size = setup.size)
    (h : setup.rcvRqst setup.ram d req d' rdata bErr) :
    (setup.view d').size = setup.size ∧
      (setup.view d').mem = (accessOf req).stores.apply (setup.view d).mem ∧
      bErr = false ∧
      (req.cmd = CMD_READ → ∃ v,
        responseThread req.srcid.toNat (slaveRsp req rdata bErr) = some (req.trdid, v) ∧
        ∀ j < (accessOf req).nbytes,
          byteOf v j = (setup.view d).mem ((accessOf req).ofs + j)) := by
  obtain ⟨hrcv, hrdata⟩ := setup.rcvRqst_ram d req d' rdata bErr h
  obtain ⟨m, tid, addr, data, nbytes, bWrite, -, hc, hin, hofs, hn, hw, -⟩ := hfrom
  rw [← hsize] at hin
  cases bWrite with
  | true =>
      rw [rcvRqst_write hc _ hin] at hrcv
      obtain ⟨hd', rfl⟩ := Prod.mk.inj hrcv
      refine ⟨by rw [← hd', hsize], by rw [← hd'], rfl, fun hread => ?_⟩
      rw [hc.cmd] at hread
      cases hread
  | false =>
      obtain ⟨rd, hrd, hbytes⟩ := rcvRqst_read hc (setup.view d) hin
      rw [hrd] at hrcv
      obtain ⟨hd', rfl⟩ := Prod.mk.inj hrcv
      have hid := toNat_ofNat_srcid setup.toSocSetup m
      refine ⟨by rw [← hd', hsize], by rw [← hd', stores_of_read hw], rfl, fun _ => ?_⟩
      obtain ⟨v, hv, hvb⟩ := responseThread_lanes hc hid rdata false
      refine ⟨v, by rw [hc.srcid, hid, hc.trdid]; exact hv, fun j hj => ?_⟩
      rw [hn] at hj
      have hle := hc.aligned.lane_add_le
      have h8 : laneOf addr + j < 8 := by omega
      rw [hvb j hj h8, hrdata, ← hd']
      exact hbytes j hj h8

/-- **Every step of the bus keeps the memory consistent.** -/
theorem MemInv.step {y y' : Bus n k T D} {l : BusLabel n k T} (h : MemInv setup y)
    (hi : BusInv setup.toBusSetup (InRam setup) y) (hs : BusStep setup.toBusSetup y l y') :
    MemInv setup y' := by
  cases hs with
  | @serve s req d rdata bErr r hg hd hr =>
      by_cases hram : s = setup.ram
      · subst hram
        have hfrom := fromAccess_of_arrives (hi.arrives hg)
        obtain ⟨hsize, hmem, herr, hread⟩ := serve_ram hfrom h.size hd
        constructor
        · simpa using hsize
        · simp only [Function.update_self, stored_append_singleton, replay_append_singleton, hmem,
            h.mem]
        · simp only [Function.update_self, List.mem_append, List.mem_singleton]
          intro p hor
          rcases hor with hp | rfl
          · exact h.origin p hp
          · exact hfrom
        · simp only [Function.update_self]
          intro i req' rsp' hp hcmd
          rcases Nat.lt_trichotomy i (y.served setup.ram).length with hlt | rfl | hgt
          · rw [List.getElem?_append_left hlt] at hp
            rw [List.take_append_of_le_length hlt.le]
            exact h.reads i req' rsp' hp hcmd
          · rw [List.getElem?_append_right (Nat.le_refl _), Nat.sub_self] at hp
            cases hp
            rw [List.take_append_of_le_length (Nat.le_refl _), List.take_length]
            refine ⟨herr, ?_⟩
            obtain ⟨v, hv, hbytes⟩ := hread hcmd
            refine ⟨v, hv, fun j hj => ?_⟩
            rw [hbytes j hj, h.mem, replay_eq]
            rfl
          · rw [List.getElem?_eq_none (by simp; omega)] at hp
            cases hp
      · have hdev : (Function.update y.dev s d) setup.ram = y.dev setup.ram :=
          Function.update_of_ne (Ne.symm hram) _ _
        have hserved : (Function.update y.served s (y.served s ++ [(req, slaveRsp req rdata bErr)]))
            setup.ram = y.served setup.ram := Function.update_of_ne (Ne.symm hram) _ _
        refine ⟨?_, ?_, ?_, ?_⟩
        · simp only [hdev]; exact h.size
        · simp only [hdev, hserved]; exact h.mem
        · simp only [hserved]; exact h.origin
        · simp only [hserved]; exact h.reads
  | _ => exact ⟨h.size, h.mem, h.origin, h.reads⟩

/-! ## 3. The whole system -/

/-- What holds of the memory and its masters.

    `origin`: every request served is an aligned access of some master. `memory`, `reads`: every
    byte has the most recent value, and every read was answered with the values of the writes served
    before it. `served`, `answers`: the requests of a master are served
    in the order of their puts, and it gets the responses in that order. `cpuReads`: what `read`
    returns is the answer to the last request its CPU has put. `readLast`: a slave serves a read of
    a CPU only when all requests that this CPU put before, to any slave, are served. `frame`: only
    the service of a write changes a byte, one of its own. -/
structure MemConsistent (setup : MemSoc n k T D) (x : Soc n k T D) : Prop where
  origin : ∀ p ∈ x.bus.served setup.ram, FromAccess setup p.1
  memory : ∀ b, (setup.view (x.bus.dev setup.ram)).mem b = byteAt (x.bus.served setup.ram) b
  reads : ∀ i req rsp, (x.bus.served setup.ram)[i]? = some (req, rsp) → req.cmd = CMD_READ →
    rsp.rerror = false ∧ ∃ v, responseThread req.srcid.toNat rsp = some (req.trdid, v) ∧
      ∀ j < (accessOf req).nbytes,
        byteOf v j = byteAt ((x.bus.served setup.ram).take i) ((accessOf req).ofs + j)
  served : ∀ m s, (x.bus.servedOf m s).map Prod.fst <+: x.bus.issued setup.toBusSetup m s
  answers : ∀ m s, x.bus.delivered m s <+: (x.bus.servedOf m s).map Prod.snd
  cpuReads : ∀ c a rq req, setup.isCpu c = true → (x.cpu c).cpu.pc = .doneWait a rq true →
    a.bWrite = false → Aligned a.addr a.nbytes →
    dispatchRequestsThread setup.map c (cpuReq c a rq) = some (setup.ram, req) →
    ∃ i rsp, (x.bus.served setup.ram)[i]? = some (req, rsp) ∧
      (∀ p ∈ (x.bus.served setup.ram).drop (i + 1), p.1.srcid.toNat ≠ c.val) ∧
      ∀ j < a.nbytes, ((x.cpu c).cpu.ret a rq)[j]? =
        some (byteAt ((x.bus.served setup.ram).take i) (req.address.toNat + laneOf a.addr + j))
  readLast : ∀ c s req rsp x', setup.isCpu c = true →
    SocStep setup.toSocSetup x (.bus (.serve s req rsp)) x' → req.srcid.toNat = c.val →
    req.cmd = CMD_READ → ∀ s', x.bus.issued setup.toBusSetup c s' =
      (x.bus.servedOf c s').map Prod.fst ++ if s' = s then [req] else []
  frame : ∀ l x', SocStep setup.toSocSetup x l x' → ∀ b,
    (setup.view (x'.bus.dev setup.ram)).mem b ≠ (setup.view (x.bus.dev setup.ram)).mem b →
    ∃ req rsp, l = .bus (.serve setup.ram req rsp) ∧ req.cmd = CMD_WRITE ∧
      (accessOf req).ofs ≤ b ∧ b < (accessOf req).ofs + (accessOf req).nbytes

variable {x x' : Soc n k T D}

/-- The step of the bus in a step of the platform. -/
theorem bus_of_step {P : SocSetup n k T D} {l : SocLabel n k T} (hs : SocStep P x l x') :
    (∃ l', l = .bus l' ∧ BusStep P.toBusSetup x.bus l' x'.bus) ∨
      (∃ c l', l = .cpu c l') ∧ x'.bus = x.bus := by
  cases hs with
  | turn hc hl h => exact .inr ⟨⟨_, _, rfl⟩, rfl⟩
  | put hc hpc h => exact .inl ⟨_, rfl, h⟩
  | putAgain hc h => exact .inl ⟨_, rfl, h⟩
  | other hm hl h => exact .inl ⟨_, rfl, h⟩
  | deliver h => exact .inl ⟨_, rfl, h⟩
  | serve h => exact .inl ⟨_, rfl, h⟩
  | tau h => exact .inl ⟨_, rfl, h⟩

theorem memInv_reach (h : (socMachine setup.toSocSetup (InRam setup)).Reach x) :
    MemInv setup x.bus := by
  refine h.invariant (I := fun x => MemInv setup x.bus) ?_ ?_
  · intro x heq
    subst heq
    exact memInv_new
  · intro x x' hr hm hyp
    obtain ⟨l, hs, -⟩ := hyp
    rcases bus_of_step hs with ⟨l', -, hb⟩ | ⟨-, e⟩
    · exact hm.step (socInv_reach (fun _ _ => InRam.sent) hr).bus hb
    · rw [e]
      exact hm

/-- A step that changes a byte serves a write to it. -/
theorem MemInv.changed {y y' : Bus n k T D} {l : BusLabel n k T} (h : MemInv setup y)
    (hi : BusInv setup.toBusSetup (InRam setup) y) (hs : BusStep setup.toBusSetup y l y') (b : Nat)
    (hb : (setup.view (y'.dev setup.ram)).mem b ≠ (setup.view (y.dev setup.ram)).mem b) :
    ∃ req rsp, l = .serve setup.ram req rsp ∧ req.cmd = CMD_WRITE ∧
      (accessOf req).ofs ≤ b ∧ b < (accessOf req).ofs + (accessOf req).nbytes := by
  cases hs with
  | @serve s req d rdata bErr r hg hd hr =>
      by_cases hram : s = setup.ram
      · subst hram
        obtain ⟨-, hmem, -⟩ := serve_ram (fromAccess_of_arrives (hi.arrives hg)) h.size hd
        simp only [Function.update_self, hmem, Write.apply, MemAccess.stores] at hb
        split at hb
        · next hw => exact ⟨req, _, rfl, by simpa [accessOf] using hw.1, hw.2⟩
        · exact absurd rfl hb
      · exact absurd (by simp only [Function.update_of_ne (Ne.symm hram)]) hb
  | _ => exact absurd rfl hb

/-- The last element with a property is followed by none with it. -/
theorem getLast?_filter_eq_some {α : Type u} {p : α → Bool} {l : List α} {a : α}
    (h : (l.filter p).getLast? = some a) :
    ∃ i, l[i]? = some a ∧ ∀ b ∈ l.drop (i + 1), p b = false := by
  induction l with
  | nil => cases h
  | cons b l ih =>
      cases hl : (l.filter p).getLast? with
      | some a' =>
          have hsame : ((b :: l).filter p).getLast? = some a' := by
            rw [List.filter_cons]
            split
            · rw [List.getLast?_cons, hl]
              rfl
            · exact hl
          obtain rfl : a' = a := by simpa [hsame] using h
          obtain ⟨i, hi, hrest⟩ := ih hl
          exact ⟨i + 1, hi, hrest⟩
      | none =>
          have hnil : l.filter p = [] := List.getLast?_eq_none_iff.mp hl
          rw [List.filter_cons, hnil] at h
          split at h
          · cases h
            exact ⟨0, rfl, fun c hc => by simpa using List.filter_eq_nil_iff.mp hnil c hc⟩
          · cases h

/-- What `read` returns. -/
theorem cpu_read {c : Fin n} {a : Access} {rq : Rq} {req : VciRequest} (hm : MemInv setup x.bus)
    (hi : SocInv setup.toSocSetup (InRam setup) x) (hp : PendingRead setup.toSocSetup x c)
    (hpc : (x.cpu c).cpu.pc = .doneWait a rq true) (ha : a.bWrite = false)
    (hal : Aligned a.addr a.nbytes)
    (hd : dispatchRequestsThread setup.map c (cpuReq c a rq) = some (setup.ram, req)) :
    ∃ i rsp, (x.bus.served setup.ram)[i]? = some (req, rsp) ∧
      (∀ p ∈ (x.bus.served setup.ram).drop (i + 1), p.1.srcid.toNat ≠ c.val) ∧
      ∀ j < a.nbytes, ((x.cpu c).cpu.ret a rq)[j]? =
        some (byteAt ((x.bus.served setup.ram).take i) (req.address.toNat + laneOf a.addr + j)) := by
  obtain ⟨h1, h2, h3, h4, h5, h6⟩ := dispatchRequestsThread_fields hd
  have hc : Carries req c.val (tidOf rq) a.addr (byteOf a.data) a.nbytes a.bWrite :=
    ⟨h1, h2, h3, h4, h5, h6, hal⟩
  obtain ⟨hofs, hn, -⟩ := accessOf_eq hc
  have hread : req.cmd = CMD_READ := by rw [hc.cmd, ha]; rfl
  have hsrc : req.srcid.toNat = c.val := by
    rw [hc.srcid]
    exact toNat_ofNat_srcid setup.toSocSetup c
  obtain ⟨rsp, hlast, hthread⟩ := read_answered hi hp (fun _ _ => InRam.sent) hpc ha hd
  obtain ⟨i, hget, hrest⟩ := getLast?_filter_eq_some hlast
  obtain ⟨-, v, hv, hbytes⟩ := hm.reads i req rsp hget hread
  rw [hsrc, hthread] at hv
  obtain ⟨-, rfl⟩ := Prod.mk.inj (Option.some.inj hv)
  refine ⟨i, rsp, hget, fun p hp => by simpa using hrest p hp, fun j hj => ?_⟩
  rw [← hofs, ← hbytes j (by rw [hn]; exact hj)]
  have h4 : a.nbytes ≤ 4 := by rcases hal.width with e | e | e <;> omega
  rw [QemuCpuWrapper.ret, List.getElem?_map, List.getElem?_range (by omega)]
  rfl

/-- **The memory is consistent.** Any number of masters read and write one memory through the
    interconnect, in any interleaving: in every reachable state each read has found the most recent
    values, nothing but a write to a byte has changed it, and the accesses of one master have been
    served in their order, a CPU's read after all its earlier writes. -/
theorem mem_consistent (h : (socMachine setup.toSocSetup (InRam setup)).Reach x) :
    MemConsistent setup x := by
  have hm := memInv_reach h
  have hi := socInv_reach (fun _ _ => InRam.sent) h
  have hsrcid (m : Fin n) (req : VciRequest) (hp : InRam setup m req) := hp.sent.srcid
  constructor
  · exact hm.origin
  · intro b
    rw [hm.mem, replay_eq]
    rfl
  · exact hm.reads
  · intro m s
    rw [issued_eq hi.bus hi.flow hsrcid, List.append_assoc]
    exact List.prefix_append _ _
  · intro m s
    rw [servedOf_eq hi.bus hi.flow]
    exact List.prefix_append _ _
  · intro c a rq req hc hpc ha hal hd
    exact cpu_read hm hi (pendingRead_reach (fun _ _ => InRam.sent) hc h) hpc ha hal hd
  · intro c s req rsp x' hc hs hsrc hread s'
    have hserving : req ∈ x.bus.servingOf c s := by
      rcases bus_of_step hs with ⟨l', e, hb⟩ | ⟨⟨c', l', e⟩, -⟩
      · cases e
        generalize x'.bus = y at hb
        cases hb with
        | serve hg _ _ => simp [Bus.servingOf, hg, SlavePc.request, hsrc]
      · cases e
    have hpending := pendingRead_reach (fun _ _ => InRam.sent) hc h
    exact read_served_last hi hpending (fun _ _ => InRam.sent) hc hserving
      hread s'
  · intro l x' hs b hb
    rcases bus_of_step hs with ⟨l', rfl, hbus⟩ | ⟨-, e⟩
    · obtain ⟨req, rsp, rfl, hw⟩ := hm.changed hi.bus hbus b hb
      exact ⟨req, rsp, rfl, hw⟩
    · rw [e] at hb
      exact absurd rfl hb

/-- One CPU with waited writes, and one memory at [0x1000, 0x2000). -/
def oneRam : MemSoc 1 1 Unit MemDevice where
  map _ := [⟨0, 0x1000#32, 0x2000#32, 0⟩]
  rcvRqst _ d req d' rdata bErr := d.rcvRqst req = (d', bErr) ∧ rdata = d'.rdata
  init _ := .new 0x1000#32 0#32 fun _ => 0xEE#8
  few := one_few
  isCpu _ := true
  unblockingWrite _ := false
  cpuThread := ()
  ram := 0
  view := id
  size := 0x1000#32
  base := 0#32
  init_ram := ⟨_, rfl⟩
  rcvRqst_ram _ _ _ _ _ h := h

/-- A read of the second word. -/
def someRead : Access := ⟨0x1004#32, 0#32, 4, false, false⟩

theorem someRead_inRam (rq : Rq) : InRam oneRam 0 (cpuReq (n := 1) 0 someRead rq) := by
  refine ⟨cpuReq_wellSent oneRam.toSocSetup 0 someRead rq, fun req hd => ?_⟩
  refine ⟨_, _, _, _, _, rfl, ⟨by decide, by decide⟩, ?_⟩
  have he : req.address = 0#32 := by
    obtain ⟨-, rfl⟩ := Prod.mk.inj (Option.some.inj hd)
    show (0x1004#32 &&& 0xFFFFFFF8#32) - 0x1000#32 + 0 = 0#32
    decide
  rw [he]
  decide

theorem quiet_one {B MSG : Type} [DecidableEq B] {y : Crossbar (Fin 1) B Unit MSG}
    (hd : ¬ y.CanRun 0) (hb : y.blocked 0 () = none) : y.Quiet := by
  refine ⟨fun a => ?_, fun a t m h => ?_⟩ <;> obtain rfl := Subsingleton.elim a 0
  · exact hd
  · rw [hb] at h
    cases h

/-- The first read of the CPU has come back. -/
theorem mem_consistent_read : ∃ x : Soc 1 1 Unit MemDevice,
    MemConsistent oneRam x ∧ (x.bus.served 0).length = 1 ∧
      ∃ rq, (x.cpu 0).cpu.pc = .doneWait someRead rq true := by
  have h0 : (socMachine oneRam.toSocSetup (InRam oneRam)).Reach (.start oneRam.toSocSetup) :=
    .start rfl
  have h1 := h0.step ⟨_, .turn (c := 0) rfl rfl (.call (a := someRead) rfl), trivial⟩
  have h2 := h1.step ⟨_, .put (c := 0) rfl rfl (.call (.call _ rfl)), someRead_inRam _⟩
  have h3 := h2.step ⟨_, .tau (.dispatchRequest (.read (a := 0) rfl (by decide))), trivial⟩
  have h4 := h3.step ⟨_, .tau (.dispatchResponse (.read (a := 0) rfl (by decide))), trivial⟩
  have h5 := h4.step ⟨_, .tau (.advance (quiet_one (by exact Bool.false_ne_true) (by rfl))
    (quiet_one (by exact fun h => h rfl) (by rfl)) (fun _ => true) (fun _ => true)), trivial⟩
  have h6 := h5.step ⟨_, .tau (.dispatchRequest (.route (a := 0) rfl rfl)), trivial⟩
  have h7 := h6.step ⟨_, .tau (.dispatchRequest (.add (a := 0) rfl (by decide))), trivial⟩
  have h8 := h7.step ⟨_, .tau (.slaveGet (s := 0) rfl (.get (by decide))), trivial⟩
  have h9 := h8.step ⟨_, .serve (.serve (s := 0) rfl ⟨rfl, rfl⟩ (.call _ rfl)), trivial⟩
  have h10 := h9.step ⟨_, .tau (.dispatchResponse (.read (a := 0) rfl (by decide))), trivial⟩
  have h11 := h10.step ⟨_, .tau (.dispatchRequest (.read (a := 0) rfl (by decide))), trivial⟩
  have h12 := h11.step ⟨_, .tau (.advance (quiet_one (by exact fun h => h rfl) (by rfl))
    (quiet_one (by exact Bool.false_ne_true) (by rfl)) (fun _ => true) (fun _ => true)), trivial⟩
  have h13 := h12.step ⟨_, .tau (.dispatchResponse (.route (a := 0) rfl rfl)), trivial⟩
  have h14 := h13.step ⟨_, .tau (.dispatchResponse (.add (a := 0) rfl (by decide))), trivial⟩
  have h15 := h14.step ⟨_, .deliver (m := 0) (.deliver (.get (by decide))), trivial⟩
  exact ⟨_, mem_consistent h15, by rfl, _, by rfl⟩

end Rabbits
