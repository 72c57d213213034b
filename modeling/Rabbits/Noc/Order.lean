/-
  File:      Rabbits/Noc/Order.lean
  Subject:   In what order the bus serves and answers the requests of one master.

  A slave serves one request at a time, so the requests of a master `m` to a slave `s` are served in
  the order of their puts, and the responses come back in that order.

  * `BusFlow` -- what a slave took it served or is serving, what it served it answered;
  * `issued_eq`, `servedOf_eq` -- the requests of `m` to `s`: served, being served, still coming;
    their responses: delivered, still returning;
  * `Bus.outstanding` -- the requests of `m` to `s` that are not answered yet;
  * `Bus.underway` -- all transactions of `m` between the end of `put` and the delivery;
  * `underway_step` -- only those two ends change it.
-/
import Mathlib.Algebra.BigOperators.Fin
import Mathlib.Algebra.Order.BigOperators.Group.Finset
import Rabbits.Noc.Bus

namespace Rabbits

open Lib Crossbar

universe u v

variable {n k : Nat} {D : Type u} {T : Type v} [DecidableEq T]

/-! ## 1. What a slave does with what it takes -/

/-- The request a slave is serving. -/
def SlavePc.request : SlavePc → List VciRequest
  | .getting => []
  | .serving req => [req]
  | .putting => []

/-- Each request a slave took was served, or is being served; it was answered by the response it
    was served with; and a dispatcher never gets past a request without a route. -/
structure BusFlow (setup : BusSetup n k D) (x : Bus n k T D) : Prop where
  taken : ∀ s, (x.net.req.output s).handed.map Prod.snd =
    (x.served s).map Prod.fst ++ (x.slave s).request
  calls : ∀ s, x.net.rsp.calls s = (x.served s).map fun p => ((), p.2)
  answer : ∀ s, ∀ p ∈ x.served s, ∃ rdata bErr, p.2 = slaveRsp p.1 rdata bErr
  stops : Stops (dispatchRequestsThread (k := k) setup.map) x.net.req

variable {setup : BusSetup n k D} {P : Fin n → VciRequest → Prop} {x : Bus n k T D}

omit [DecidableEq T] in
theorem busFlow_new : BusFlow setup (.new setup : Bus n k T D) :=
  ⟨fun _ => rfl, fun _ => rfl, fun s p hp => (by cases hp), stops_new⟩

omit [DecidableEq T] in
/-- A step at one slave `s`: the lists of the others stay. -/
theorem BusFlow.at_slave {x' : Bus n k T D} (h : BusFlow setup x) (s : Fin k)
    (hs : ∀ s', s' ≠ s → x'.slave s' = x.slave s' ∧ x'.served s' = x.served s' ∧
      (x'.net.req.output s').handed.map Prod.snd = (x.net.req.output s').handed.map Prod.snd ∧
      x'.net.rsp.calls s' = x.net.rsp.calls s')
    (ht : (x'.net.req.output s).handed.map Prod.snd =
      (x'.served s).map Prod.fst ++ (x'.slave s).request)
    (hc : x'.net.rsp.calls s = (x'.served s).map fun p => ((), p.2))
    (ha : ∀ p ∈ x'.served s, ∃ rdata bErr, p.2 = slaveRsp p.1 rdata bErr)
    (hst : Stops (dispatchRequestsThread (k := k) setup.map) x'.net.req) : BusFlow setup x' := by
  refine ⟨fun s' => ?_, fun s' => ?_, fun s' => ?_, hst⟩ <;> by_cases e : s' = s
  · subst e; exact ht
  · obtain ⟨h1, h2, h3, -⟩ := hs s' e
    rw [h1, h2, h3, h.taken s']
  · subst e; exact hc
  · obtain ⟨-, h2, -, h4⟩ := hs s' e
    rw [h2, h4, h.calls s']
  · subst e; exact ha
  · rw [(hs s' e).2.1]
    exact h.answer s'

/-- A step of the requests in which no slave takes one. -/
theorem BusFlow.request_step {l : Label (Fin n) (Fin k) T VciRequest}
    {r : Crossbar (Fin n) (Fin k) T VciRequest} (h : BusFlow setup x) (hi : BusInv setup P x)
    (hr : CrossbarStep (dispatchRequestsThread setup.map) x.net.req l r)
    (hl : ∀ s, l.leaves s = []) :
    BusFlow setup { x with net := { x.net with req := r } } := by
  refine ⟨fun s => ?_, h.calls, h.answer, h.stops.step hi.net.req hr⟩
  obtain ⟨out, ho, e⟩ := handed_step hi.net.req hr s
  rw [e, List.map_append, ho, hl, List.append_nil]
  exact h.taken s

omit [DecidableEq T] in
/-- A step of the responses in which no slave puts one. -/
theorem BusFlow.response_step {l : Label (Fin k) (Fin n) Unit VciResponse}
    {r : Crossbar (Fin k) (Fin n) Unit VciResponse} (h : BusFlow setup x)
    (hr : CrossbarStep dispatchResponsesThread x.net.rsp l r) (hl : ∀ s, l.called s = []) :
    BusFlow setup { x with net := { x.net with rsp := r } } := by
  refine ⟨h.taken, fun s => ?_, h.answer, h.stops⟩
  rw [calls_step hr s, hl, List.append_nil]
  exact h.calls s

/-- A slave takes a request from the bus. -/
theorem BusFlow.get_step {s : Fin k} {res : Option VciRequest}
    {r : Crossbar (Fin n) (Fin k) T VciRequest} (h : BusFlow setup x) (hi : BusInv setup P x)
    (hP : ∀ m req, P m req → req.cmd = CMD_WRITE ∨ req.cmd = CMD_READ) (hg : x.slave s = .getting)
    (hr : CrossbarStep (dispatchRequestsThread setup.map) x.net.req (.get s res) r) :
    BusFlow setup (x.afterGet s res r) := by
  have hhand (s' : Fin k) : (r.output s').handed.map Prod.snd =
      (x.net.req.output s').handed.map Prod.snd ++ if s = s' then res.toList else [] := by
    obtain ⟨out, ho, e⟩ := handed_step hi.net.req hr s'
    rw [e, List.map_append, ho]
    rfl
  refine h.at_slave s (fun s' e => ?_) ?_ (h.calls s) (h.answer s)
    (h.stops.step hi.net.req hr)
  · refine ⟨Function.update_of_ne e _ _, rfl, ?_, rfl⟩
    show (r.output s').handed.map Prod.snd = _
    rw [hhand s', if_neg (Ne.symm e), List.append_nil]
  · have hok := hi.slave s
    have ht := h.taken s
    rw [hg] at hok ht
    generalize hb : x.bProcessing s = b at hok
    generalize x.net.rsp.blocked s () = o at hok
    show (r.output s).handed.map Prod.snd = (x.served s).map Prod.fst ++ _
    rw [hhand s, if_pos rfl, ht]
    cases hok with
    | getting =>
        simp only [Bus.afterGet, Function.update_self, hb, SlavePc.request, List.append_nil]
        cases res with
        | none => rfl
        | some req =>
            have ha := hi.req.get_result hi.net.req hr
            rw [slaveTakes, if_neg (by decide), if_pos (ha.cmd hP)]
            rfl

omit [DecidableEq T] in
/-- A slave serves a request and puts the response. -/
theorem BusFlow.serve_step {s : Fin k} {req : VciRequest} {d : D} {rdata : Fin 8 → Byte}
    {bErr : Bool} {r : Crossbar (Fin k) (Fin n) Unit VciResponse} (h : BusFlow setup x)
    (hg : x.slave s = .serving req)
    (hr : CrossbarStep dispatchResponsesThread x.net.rsp
      (.call s () (slaveRsp req rdata bErr)) r) :
    BusFlow setup { x.afterPut s r with
      dev := Function.update x.dev s d
      served := Function.update x.served s
        (x.served s ++ [(req, slaveRsp req rdata bErr)]) } := by
  refine h.at_slave s (fun s' e => ?_) ?_ ?_ (fun p hp => ?_) h.stops
  · refine ⟨Function.update_of_ne e _ _, Function.update_of_ne e _ _, rfl, ?_⟩
    exact (calls_step hr s').trans (by simp [Label.called, Ne.symm e])
  · have ht := h.taken s
    rw [hg] at ht
    show (x.net.req.output s).handed.map Prod.snd = _
    rw [ht]
    simp only [Bus.afterPut, Function.update_self, List.map_append, List.map_cons, List.map_nil]
    split <;> simp [SlavePc.request]
  · refine (calls_step hr s).trans ?_
    simp [Label.called, h.calls s]
  · simp only [Function.update_self, List.mem_append, List.mem_singleton] at hp
    rcases hp with hp | rfl
    · exact h.answer s p hp
    · exact ⟨rdata, bErr, rfl⟩

omit [DecidableEq T] in
/-- A slave whose response has gone out goes on. -/
theorem BusFlow.resume_step {s : Fin k} {rsp : VciResponse}
    {r : Crossbar (Fin k) (Fin n) Unit VciResponse} (h : BusFlow setup x)
    (hg : x.slave s = .putting)
    (hr : CrossbarStep dispatchResponsesThread x.net.rsp (.resumePut s () rsp) r) :
    BusFlow setup (x.afterPut s r) := by
  refine h.at_slave s (fun s' e => ?_) ?_ ?_ (h.answer s) h.stops
  · refine ⟨Function.update_of_ne e _ _, rfl, rfl, ?_⟩
    exact (calls_step hr s').trans (by simp [Label.called])
  · have ht := h.taken s
    rw [hg] at ht
    show (x.net.req.output s).handed.map Prod.snd = _
    rw [ht]
    simp only [Bus.afterPut, Function.update_self]
    split <;> rfl
  · refine (calls_step hr s).trans ((List.append_nil _).trans ?_)
    exact h.calls s

/-- **Every step of the bus keeps the order.** -/
theorem BusFlow.step {x' : Bus n k T D} {l : BusLabel n k T} (h : BusFlow setup x)
    (hi : BusInv setup P x) (hP : ∀ m req, P m req → req.cmd = CMD_WRITE ∨ req.cmd = CMD_READ)
    (hs : BusStep setup x l x') : BusFlow setup x' := by
  cases hs with
  | call hr => exact h.request_step hi hr fun _ => rfl
  | resumePut hr => exact h.request_step hi hr fun _ => rfl
  | dispatchRequest hr => exact h.request_step hi hr fun _ => rfl
  | dispatchResponse hr => exact h.response_step hr fun _ => rfl
  | slaveGet hg hr => exact h.get_step hi hP hg hr
  | serve hg _ hr => exact h.serve_step hg hr
  | slaveResume hg hr => exact h.resume_step hg hr
  | deliver hr => exact h.response_step hr fun _ => rfl
  | advance hreq hrsp due due' => exact ⟨h.taken, h.calls, h.answer, h.stops.tick due⟩

/-! ## 2. The transactions of one master with one slave -/

/-- The requests of `m` to `s`, as they arrive there, in the order in which their puts completed. -/
def Bus.issued (setup : BusSetup n k D) (x : Bus n k T D) (m : Fin n) (s : Fin k) :
    List VciRequest :=
  ((x.net.req.input m).written.map Prod.snd).filterMap
    (routeTo (dispatchRequestsThread setup.map) m s)

/-- Those served so far, with the responses. -/
def Bus.servedOf (x : Bus n k T D) (m : Fin n) (s : Fin k) : List (VciRequest × VciResponse) :=
  (x.served s).filter fun p => p.1.srcid.toNat = m.val

/-- The one being served. -/
def Bus.servingOf (x : Bus n k T D) (m : Fin n) (s : Fin k) : List VciRequest :=
  (x.slave s).request.filter fun req => req.srcid.toNat = m.val

/-- Those in the queue of `s`, in the dispatcher of `m`, and in the queue of `m`. -/
def Bus.coming (setup : BusSetup n k D) (x : Bus n k T D) (m : Fin n) (s : Fin k) :
    List VciRequest :=
  byWriter m (x.net.req.output s).queued ++
    pending (dispatchRequestsThread setup.map) m s (x.net.req.dispatcher m) ++
    ((x.net.req.input m).queued.map Prod.snd).filterMap
      (routeTo (dispatchRequestsThread setup.map) m s)

/-- The responses of `s` that were handed to `m`. -/
def Bus.delivered (x : Bus n k T D) (m : Fin n) (s : Fin k) : List VciResponse :=
  byWriter s (x.net.rsp.output m).handed

/-- Those in the queue of `m`, in the dispatcher of `s`, in the queue of `s`, and the one that the
    slave's blocked `put` holds. -/
def Bus.returning (x : Bus n k T D) (m : Fin n) (s : Fin k) : List VciResponse :=
  byWriter s (x.net.rsp.output m).queued ++
    pending dispatchResponsesThread s m (x.net.rsp.dispatcher s) ++
    ((x.net.rsp.input s).queued.map Prod.snd).filterMap (routeTo dispatchResponsesThread s m) ++
    (x.net.rsp.blocked s ()).toList.filterMap (routeTo dispatchResponsesThread s m)

/-- The source of a message in the queue of a slave is its writer. -/
theorem BusInv.source (h : BusInv setup P x) (hP : ∀ m req, P m req → req.srcid.toNat = m.val)
    (s : Fin k) : ∀ e ∈ (x.net.req.output s).written, e.2.srcid.toNat = e.1.val := by
  intro hyp he
  obtain ⟨m, req⟩ := hyp
  have hmem : req ∈ byWriter m (x.net.req.output s).written :=
    List.mem_map.mpr ⟨(m, req), by simpa using he, rfl⟩
  have hin : req ∈ ((x.net.req.input m).handed.map Prod.snd).filterMap
      (routeTo (dispatchRequestsThread setup.map) m s) := by
    rw [h.net.req.hops m s]
    exact List.mem_append_left _ hmem
  obtain ⟨put, hput, hr⟩ := List.mem_filterMap.mp hin
  obtain ⟨e, he', rfl⟩ := List.mem_map.mp hput
  have hp := h.req.written m e (List.mem_of_mem_take he')
  unfold routeTo at hr
  split at hr
  · next s' req' hd =>
      split at hr
      · cases hr
        rw [(dispatchRequestsThread_fields hd).1]
        exact hP m e.2 hp
      · cases hr
  · cases hr

/-- **The requests of `m` to `s`**: served, being served, still coming. -/
theorem issued_eq (h : BusInv setup P x) (hf : BusFlow setup x)
    (hP : ∀ m req, P m req → req.srcid.toNat = m.val) (m : Fin n) (s : Fin k) :
    x.issued setup m s =
      (x.servedOf m s).map Prod.fst ++ x.servingOf m s ++ x.coming setup m s := by
  have hw : byWriter m (x.net.req.output s).handed =
      ((x.net.req.output s).handed.map Prod.snd).filter fun req => req.srcid.toNat = m.val := by
    rw [byWriter, List.filter_map]
    congr 1
    refine List.filter_congr fun e he => ?_
    have hsrc := h.source hP s e (List.mem_of_mem_take he)
    simp [Function.comp, hsrc, Fin.ext_iff]
  rw [Bus.issued, journey h.net.req, hw, hf.taken s, List.filter_append, List.filter_map,
    Bus.servedOf, Bus.servingOf, Bus.coming]
  simp only [List.append_assoc]
  rfl

theorem routeTo_dispatchResponsesThread (s : Fin k) (m : Fin n) (rsp : VciResponse) :
    routeTo dispatchResponsesThread s m rsp =
      if rsp.rsrcid.toNat = m.val then some rsp else none := by
  unfold routeTo
  split
  · next m' rsp' hd =>
      obtain ⟨rfl, hm⟩ := dispatchResponsesThread_eq_some hd
      simp [hm, Fin.ext_iff]
  · next hd =>
      have hn : ¬ rsp.rsrcid.toNat < n := by simpa [dispatchResponsesThread, getMaster] using hd
      have hm := m.isLt
      rw [if_neg (by omega)]

/-- **Their responses**: delivered, still returning. -/
theorem servedOf_eq (h : BusInv setup P x) (hf : BusFlow setup x) (m : Fin n) (s : Fin k) :
    (x.servedOf m s).map Prod.snd = x.delivered m s ++ x.returning m s := by
  have hall : (x.served s).map Prod.snd =
      (x.net.rsp.input s).written.map Prod.snd ++ (x.net.rsp.blocked s ()).toList := by
    have hputs := h.net.rsp.puts s ()
    rw [hf.calls s] at hputs
    simpa [byWriter, List.filter_true, Function.comp_def] using hputs
  have hroute : (x.servedOf m s).map Prod.snd =
      ((x.served s).map Prod.snd).filterMap (routeTo dispatchResponsesThread s m) := by
    have hto : routeTo (dispatchResponsesThread (n := n)) s m =
        fun rsp => if rsp.rsrcid.toNat = m.val then some rsp else none :=
      funext (routeTo_dispatchResponsesThread s m)
    rw [Bus.servedOf, hto]
    have hans := hf.answer s
    generalize x.served s = l at hans
    induction l with
    | nil => rfl
    | cons p l ih =>
        obtain ⟨rdata, bErr, hp⟩ := hans p (.head _)
        have hsrc : p.2.rsrcid = p.1.srcid := by rw [hp]; rfl
        have ih := ih fun q hq => hans q (.tail _ hq)
        by_cases e : p.1.srcid.toNat = m.val <;> simp [hsrc, e, ih]
  rw [hroute, hall, List.filterMap_append, journey h.net.rsp, Bus.delivered, Bus.returning]
  simp only [List.append_assoc]

/-! ## 3. The transactions under way -/

/-- The tids of the transactions of `m` with `s` under way, oldest first. -/
def Bus.path (setup : BusSetup n k D) (x : Bus n k T D) (m : Fin n) (s : Fin k) : List Byte :=
  (x.returning m s).map VciResponse.rtrdid ++
    (x.servingOf m s ++ x.coming setup m s).map VciRequest.trdid

/-- The tids of all transactions of `m` between the end of `put` and the delivery of the response:
    the requests without a route, and for each slave those with it. -/
def Bus.underway (setup : BusSetup n k D) (x : Bus n k T D) (m : Fin n) : List Byte :=
  (strays (dispatchRequestsThread (k := k) setup.map) x.net.req m).map VciRequest.trdid ++
    (List.finRange k).flatMap fun s => x.path setup m s

theorem path_eq (h : BusInv setup P x) (hf : BusFlow setup x)
    (hP : ∀ m req, P m req → req.srcid.toNat = m.val) (m : Fin n) (s : Fin k) :
    (x.issued setup m s).map VciRequest.trdid =
      (x.delivered m s).map VciResponse.rtrdid ++ x.path setup m s := by
  have htid : (x.servedOf m s).map (fun p => p.1.trdid) =
      (x.servedOf m s).map fun p => p.2.rtrdid := by
    refine List.map_congr_left fun p hp => ?_
    obtain ⟨rdata, bErr, e⟩ := hf.answer s p (List.mem_of_mem_filter hp)
    rw [e]
    rfl
  have hrsp := congrArg (List.map VciResponse.rtrdid) (servedOf_eq h hf m s)
  rw [List.map_map, List.map_append] at hrsp
  rw [issued_eq h hf hP, Bus.path, List.append_assoc, List.map_append, List.map_map,
    ← List.append_assoc, ← hrsp]
  exact congrArg (· ++ _) htid

/-- The requests of `m` to `s` whose responses are still to be delivered, oldest first. -/
def Bus.outstanding (setup : BusSetup n k D) (x : Bus n k T D) (m : Fin n) (s : Fin k) :
    List VciRequest :=
  (x.issued setup m s).drop (x.delivered m s).length

theorem outstanding_tids (h : BusInv setup P x) (hf : BusFlow setup x)
    (hP : ∀ m req, P m req → req.srcid.toNat = m.val) (m : Fin n) (s : Fin k) :
    (x.outstanding setup m s).map VciRequest.trdid = x.path setup m s := by
  rw [Bus.outstanding, List.map_drop, path_eq h hf hP, List.drop_left' (by simp)]

theorem outstanding_eq_nil_iff (h : BusInv setup P x) (hf : BusFlow setup x)
    (hP : ∀ m req, P m req → req.srcid.toNat = m.val) (m : Fin n) (s : Fin k) :
    x.outstanding setup m s = [] ↔ x.path setup m s = [] := by
  rw [← outstanding_tids h hf hP, List.map_eq_nil_iff]

theorem length_delivered_le (h : BusInv setup P x) (hf : BusFlow setup x)
    (hP : ∀ m req, P m req → req.srcid.toNat = m.val) (m : Fin n) (s : Fin k) :
    (x.delivered m s).length ≤ (x.issued setup m s).length := by
  have hlen := congrArg List.length (path_eq h hf hP m s)
  simp only [List.length_map, List.length_append] at hlen
  omega

/-- What is being served is outstanding. -/
theorem mem_outstanding_of_serving (h : BusInv setup P x) (hf : BusFlow setup x)
    (hP : ∀ m req, P m req → req.srcid.toNat = m.val) {m : Fin n} {s : Fin k} {req : VciRequest}
    (hreq : req ∈ x.servingOf m s) : req ∈ x.outstanding setup m s := by
  have hlen := congrArg List.length (servedOf_eq h hf m s)
  simp only [List.length_map, List.length_append] at hlen
  rw [Bus.outstanding, issued_eq h hf hP, List.append_assoc,
    List.drop_append_of_le_length (by rw [List.length_map]; omega)]
  exact List.mem_append_right _ (List.mem_append_left _ hreq)

/-- With nothing outstanding, every request put is served and every response delivered. -/
theorem served_of_path_nil (h : BusInv setup P x) (hf : BusFlow setup x)
    (hP : ∀ m req, P m req → req.srcid.toNat = m.val) {m : Fin n} {s : Fin k}
    (hnil : x.path setup m s = []) :
    x.issued setup m s = (x.servedOf m s).map Prod.fst ∧
      x.delivered m s = (x.servedOf m s).map Prod.snd := by
  obtain ⟨hret, hrest⟩ := List.append_eq_nil_iff.mp hnil
  obtain ⟨hserving, hcoming⟩ := List.append_eq_nil_iff.mp (List.map_eq_nil_iff.mp hrest)
  rw [issued_eq h hf hP, servedOf_eq h hf, hserving, hcoming, List.map_eq_nil_iff.mp hret]
  simp

omit [DecidableEq T] in
theorem sum_path_le (setup : BusSetup n k D) (x : Bus n k T D) (m : Fin n) :
    ∑ s, (x.path setup m s).length ≤ (x.underway setup m).length := by
  rw [Bus.underway, List.length_append, List.length_flatMap, Fin.sum_univ_def]
  omega

omit [DecidableEq T] in
/-- The transactions of `m` with one slave are among all of `m`. -/
theorem length_path_le (setup : BusSetup n k D) (x : Bus n k T D) (m : Fin n) (s : Fin k) :
    (x.path setup m s).length ≤ (x.underway setup m).length := by
  have hone := Finset.single_le_sum (f := fun s => (x.path setup m s).length)
    (fun _ _ => Nat.zero_le _) (Finset.mem_univ s)
  exact Nat.le_trans hone (sum_path_le setup x m)

omit [DecidableEq T] in
/-- With one transaction under way, it is with one slave. -/
theorem path_unique {setup : BusSetup n k D} {x : Bus n k T D} {m : Fin n} {s s' : Fin k}
    (hone : (x.underway setup m).length ≤ 1) (hs : x.path setup m s ≠ [])
    (hs' : x.path setup m s' ≠ []) : s = s' := by
  by_contra hne
  have hpair := Finset.sum_pair (f := fun s => (x.path setup m s).length) hne
  have hle : ∑ s ∈ {s, s'}, (x.path setup m s).length ≤ ∑ s, (x.path setup m s).length :=
    Finset.sum_le_sum_of_subset (Finset.subset_univ _)
  have hall := sum_path_le setup x m
  have h1 := List.length_pos_iff.mpr hs
  have h2 := List.length_pos_iff.mpr hs'
  omega

/-! ## 4. What a step of the bus does to them -/

/-- The `put` a step tries. -/
def BusLabel.tries : BusLabel n k T → Option (Fin n × T × VciRequest)
  | .call m t req => some (m, t, req)
  | .resumePut m t req => some (m, t, req)
  | _ => none

/-- The request whose `put` by `m` a step completes. -/
def BusLabel.puts (x' : Bus n k T D) (m : Fin n) (l : BusLabel n k T) : List VciRequest :=
  match l.tries with
  | some (m', t, req) => if m' = m ∧ (x'.net.req.blocked m' t).isNone then [req] else []
  | none => []

/-- The response a step delivers to `m`. -/
def BusLabel.gets (m : Fin n) : BusLabel n k T → List VciResponse
  | .deliver m' r => if m' = m then r.toList else []
  | _ => []

section Step

variable {x' : Bus n k T D} {l : BusLabel n k T}

/-- A `put` is blocked after a step if the step tried it in vain, or if it was before. -/
theorem blocked_bus (hs : BusStep setup x l x') {m : Fin n} {t : T} {req : VciRequest}
    (hb : x'.net.req.blocked m t = some req) : l.tries = some (m, t, req) ∨
      (∀ req', l.tries ≠ some (m, t, req')) ∧ x.net.req.blocked m t = some req := by
  have hput {m' : Fin n} {t' : T} {req' : VciRequest}
      (e : (x.net.req.put m' t' req').blocked m t = some req) :
      some (m', t', req') = some (m, t, req) ∨
        (∀ req'', some (m', t', req') ≠ some (m, t, req'')) ∧
          x.net.req.blocked m t = some req := by
    by_cases hmt : m' = m ∧ t' = t
    · obtain ⟨rfl, rfl⟩ := hmt
      rcases blocked_put_self x.net.req m' t' req' with e' | e' <;> rw [e'] at e <;> cases e
      exact .inl rfl
    · refine .inr ⟨fun req'' e' => hmt ?_, ?_⟩
      · cases e'
        exact ⟨rfl, rfl⟩
      · simp only [Crossbar.put] at e
        by_cases hm : m = m'
        · subst hm
          rw [Function.update_self, Function.update_of_ne (fun ht => hmt ⟨rfl, ht.symm⟩)] at e
          exact e
        · rwa [Function.update_of_ne hm] at e
  cases hs with
  | call hr => cases hr with | call _ _ => exact hput hb
  | resumePut hr => cases hr with | resumePut _ _ => exact hput hb
  | dispatchRequest hr =>
      have e : x.net.req.blocked = _ := (blocked_of_step hr).symm
      exact .inr ⟨fun _ e => (by cases e), by rw [e]; exact hb⟩
  | slaveGet hg hr =>
      have e : x.net.req.blocked = _ := (blocked_of_step hr).symm
      exact .inr ⟨fun _ e => (by cases e), by rw [e]; exact hb⟩
  | _ => exact .inr ⟨fun _ e => (by cases e), hb⟩

theorem puts_step (h : BusInv setup P x) (hs : BusStep setup x l x') (m : Fin n) :
    (x'.net.req.input m).written.map Prod.snd =
      (x.net.req.input m).written.map Prod.snd ++ l.puts x' m := by
  cases hs with
  | call hr => exact written_step h.net.req hr m
  | resumePut hr => exact written_step h.net.req hr m
  | dispatchRequest hr => exact written_step h.net.req hr m
  | slaveGet hg hr => exact written_step h.net.req hr m
  | _ => exact (List.append_nil _).symm

theorem gets_step (h : BusInv setup P x) (hs : BusStep setup x l x') (m : Fin n) :
    ∃ out, out.map Prod.snd = l.gets m ∧
      (x'.net.rsp.output m).handed = (x.net.rsp.output m).handed ++ out := by
  cases hs with
  | dispatchResponse hr => exact handed_step h.net.rsp hr m
  | serve hg hd hr => exact handed_step h.net.rsp hr m
  | slaveResume hg hr => exact handed_step h.net.rsp hr m
  | deliver hr => exact handed_step h.net.rsp hr m
  | _ => exact ⟨[], rfl, (List.append_nil _).symm⟩

theorem issued_step (h : BusInv setup P x) (hs : BusStep setup x l x') (m : Fin n) (s : Fin k) :
    x'.issued setup m s = x.issued setup m s ++
      (l.puts x' m).filterMap (routeTo (dispatchRequestsThread setup.map) m s) := by
  rw [Bus.issued, puts_step h hs m, List.filterMap_append]
  rfl

/-- A `put` adds its request at the end of its path, a response takes the oldest transaction of its
    path off, and no other step changes a path. -/
theorem path_step (h : BusInv setup P x) (hf : BusFlow setup x) (h' : BusInv setup P x')
    (hf' : BusFlow setup x') (hP : ∀ m req, P m req → req.srcid.toNat = m.val)
    (hs : BusStep setup x l x') (m : Fin n) :
    ∃ out, out.map Prod.snd = l.gets m ∧ ∀ s,
      x'.delivered m s = x.delivered m s ++ byWriter s out ∧
      (byWriter s out).map VciResponse.rtrdid ++ x'.path setup m s = x.path setup m s ++
        ((l.puts x' m).filterMap (routeTo (dispatchRequestsThread setup.map) m s)).map
          VciRequest.trdid := by
  obtain ⟨out, ho, hd⟩ := gets_step h hs m
  refine ⟨out, ho, fun s => ?_⟩
  have hdel : x'.delivered m s = x.delivered m s ++ byWriter s out := by
    rw [Bus.delivered, hd, byWriter_append]
    rfl
  refine ⟨hdel, ?_⟩
  have hp := path_eq h hf hP m s
  have hp' := path_eq h' hf' hP m s
  rw [issued_step h hs, List.map_append, hp, hdel, List.map_append, List.append_assoc,
    List.append_assoc] at hp'
  exact (List.append_cancel_left hp').symm

/-- Every request goes to one slave, or to none. -/
theorem count_routes (route : Fin n → VciRequest → Option (Fin k × VciRequest))
    (htid : ∀ m req s req', route m req = some (s, req') → req'.trdid = req.trdid) (m : Fin n)
    (tid : Byte) (reqs : List VciRequest) :
    ((reqs.filter (unrouted route m)).map VciRequest.trdid).count tid +
      ∑ s, ((reqs.filterMap (routeTo route m s)).map VciRequest.trdid).count tid =
      (reqs.map VciRequest.trdid).count tid := by
  induction reqs with
  | nil => simp
  | cons req reqs ih =>
      rw [List.map_cons, List.count_cons, ← ih]
      cases hr : route m req with
      | none =>
          have hto (s : Fin k) : routeTo route m s req = none := by rw [routeTo, hr]
          have hun : unrouted route m req = true := by rw [unrouted, hr]; rfl
          simp only [List.filterMap_cons, hto, List.filter_cons, hun, if_true, List.map_cons,
            List.count_cons]
          omega
      | some p =>
          obtain ⟨s₀, req'⟩ := p
          have hto (s : Fin k) : routeTo route m s req = if s₀ = s then some req' else none := by
            rw [routeTo, hr]
          have hun : unrouted route m req = false := by rw [unrouted, hr]; rfl
          have hsum : ∑ s, (((req :: reqs).filterMap (routeTo route m s)).map
              VciRequest.trdid).count tid =
              ∑ s, ((reqs.filterMap (routeTo route m s)).map VciRequest.trdid).count tid +
                ∑ s, if s₀ = s then (if req.trdid == tid then 1 else 0) else 0 := by
            rw [← Finset.sum_add_distrib]
            refine Finset.sum_congr rfl fun s _ => ?_
            by_cases e : s₀ = s
            · simp [hto, e, List.count_cons, htid m req s₀ req' hr]
            · simp [hto, e]
          rw [hsum, Finset.sum_ite_eq, if_pos (Finset.mem_univ _), List.filter_cons, hun]
          simp only [Bool.false_eq_true, if_false]
          omega

/-- Every response comes from one slave. -/
theorem count_writers (tid : Byte) (out : List (Fin k × VciResponse)) :
    ∑ s, ((byWriter s out).map VciResponse.rtrdid).count tid =
      ((out.map Prod.snd).map VciResponse.rtrdid).count tid := by
  induction out with
  | nil => simp [byWriter]
  | cons e out ih =>
      obtain ⟨s₀, rsp⟩ := e
      have hsum : ∑ s, ((byWriter s ((s₀, rsp) :: out)).map VciResponse.rtrdid).count tid =
          ∑ s, ((byWriter s out).map VciResponse.rtrdid).count tid +
            ∑ s, if s₀ = s then (if rsp.rtrdid == tid then 1 else 0) else 0 := by
        rw [← Finset.sum_add_distrib]
        refine Finset.sum_congr rfl fun s _ => ?_
        by_cases e : s₀ = s <;> simp [byWriter, e, List.count_cons]
      rw [hsum, ih, Finset.sum_ite_eq, if_pos (Finset.mem_univ _)]
      simp [List.count_cons]

omit [DecidableEq T] in
theorem count_underway (m : Fin n) (tid : Byte) :
    (x.underway setup m).count tid =
      ((strays (dispatchRequestsThread (k := k) setup.map) x.net.req m).map
        VciRequest.trdid).count tid + ∑ s, (x.path setup m s).count tid := by
  rw [Bus.underway, List.count_append, List.count_flatMap, Fin.sum_univ_def]
  rfl

/-- **Only the end of a `put` and the delivery of a response change what is under way.** -/
theorem underway_step (h : BusInv setup P x) (hf : BusFlow setup x) (h' : BusInv setup P x')
    (hf' : BusFlow setup x') (hP : ∀ m req, P m req → req.srcid.toNat = m.val)
    (hs : BusStep setup x l x') (m : Fin n) :
    ((l.gets m).map VciResponse.rtrdid ++ x'.underway setup m).Perm
      (x.underway setup m ++ (l.puts x' m).map VciRequest.trdid) := by
  obtain ⟨out, ho, hp⟩ := path_step h hf h' hf' hP hs m
  refine List.perm_iff_count.mpr fun tid => ?_
  have hpath : ∑ s, ((byWriter s out).map VciResponse.rtrdid).count tid +
      ∑ s, (x'.path setup m s).count tid = ∑ s, (x.path setup m s).count tid +
        ∑ s, (((l.puts x' m).filterMap (routeTo (dispatchRequestsThread (k := k) setup.map) m s)).map
          VciRequest.trdid).count tid := by
    rw [← Finset.sum_add_distrib, ← Finset.sum_add_distrib]
    refine Finset.sum_congr rfl fun s _ => ?_
    rw [← List.count_append, ← List.count_append, (hp s).2]
  have hstray : strays (dispatchRequestsThread (k := k) setup.map) x'.net.req m =
      strays (dispatchRequestsThread setup.map) x.net.req m ++
        (l.puts x' m).filter (unrouted (dispatchRequestsThread (k := k) setup.map) m) := by
    rw [← filter_unrouted hf'.stops, ← filter_unrouted hf.stops, puts_step h hs,
      List.filter_append]
  have hroutes := count_routes (dispatchRequestsThread (k := k) setup.map)
    (fun m req s req' hd => (dispatchRequestsThread_fields hd).2.1) m tid (l.puts x' m)
  have hwriters := count_writers tid out
  rw [ho] at hwriters
  rw [List.count_append, List.count_append, count_underway, count_underway, hstray,
    List.map_append, List.count_append]
  omega

end Step

end Rabbits
