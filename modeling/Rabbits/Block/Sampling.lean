/-
  File:      Rabbits/Block/Sampling.lean
  Subject:   When an operation of the block device reads BUFFER, LBA and COUNT.

  Buffer and length are sampled at the start of every operation, and a READ seeks there as well.
  A WRITE seeks behind its DMA, with the LBA of that moment.

  * `HostFs.logged`, `Footprint` -- the accesses of an operation to the bus and to the file;
  * `Same` -- two devices in the same place of the same operation, with any registers;
    `reply_same` -- a response keeps it;
  * `footprint_eq_iff` -- **whatever masters write during the DMA, the footprint is that of the
    operation left alone exactly when no WRITE ends its DMA with another position**.
-/
import Rabbits.Block.Status

namespace Rabbits

open Lib

variable {η : Type} {fs : HostFs η}

/-! ## 1. Footprints -/

/-- A call to the file: a seek, or the length of a transfer. -/
inductive FileAccess where
  | lseek (off : ULong) (whence : Whence)
  | read (n : ULong)
  | write (n : Nat)
  deriving DecidableEq

/-- The host that keeps a log of the calls to its file. -/
def HostFs.logged (fs : HostFs η) : HostFs (η × List FileAccess) where
  lseek h fd off whence :=
    let r := fs.lseek h.1 fd off whence
    (r.1, r.2, h.2 ++ [.lseek off whence])
  read h fd n :=
    let r := fs.read h.1 fd n
    (r.1, r.2, h.2 ++ [.read n])
  write h fd bytes := (fs.write h.1 fd bytes, h.2 ++ [.write bytes.length])
  openFile h name :=
    let r := fs.openFile h.1 name
    (r.1, r.2, h.2)
  close h fd := (fs.close h.1 fd, h.2)

/-- The address, the length and the direction of the bus accesses, and the log of the file. -/
structure Footprint where
  bus : List (ULong × Nat × Bool)
  file : List FileAccess
  deriving DecidableEq

namespace BlockDevice

/-- A response completes the bus access that `control_thread` waits in. -/
def busEvent (d : BlockDevice η) : Label → List (ULong × Nat × Bool)
  | .response _ _ => (d.control.busAccess.map fun a => (a.addr, a.nbytes, a.bWrite)).toList
  | _ => []

/-- The device that keeps its footprint. -/
def nextLogged (fs : HostFs η) :
    Traced (BlockDevice (η × List FileAccess)) (ULong × Nat × Bool) → Label →
      Option (Traced (BlockDevice (η × List FileAccess)) (ULong × Nat × Bool)) :=
  Traced.step (next fs.logged) busEvent

def footprint (s : Traced (BlockDevice (η × List FileAccess)) (ULong × Nat × Bool)) : Footprint :=
  ⟨s.trace, s.state.host.2⟩

def Label.isResponse : Label → Bool
  | response _ _ => true
  | _ => false

def Label.isControl : Label → Bool
  | control _ => true
  | _ => false

/-- The step does not end the DMA of a WRITE, or the registers still say this position. -/
def EndsAt (pos : ULong) (d : BlockDevice η) : Label → Prop
  | .response false _ => ∀ t, d.control = .readWord false t →
      ¬ t.offset + 4#32 < t.transferSize → d.position = pos
  | _ => True

/-! ## 2. Two devices in the same operation -/

/-- The operation that `control_thread` is in. -/
def operation : Control → Control
  | .waiting _ => .waiting false
  | c => c

/-- The same operation in the same place, with the same file. -/
structure Same (d e : BlockDevice η) : Prop where
  fd : d.fd = e.fd
  host : d.host = e.host
  funcRet : d.funcRet = e.funcRet
  control : operation d.control = operation e.control

section Same

variable {d e : BlockDevice η} (h : Same d e)
include h

theorem done_same (s s' : SlBlockStatus) : Same (d.done s) (e.done s') :=
  ⟨h.fd, h.host, h.funcRet, rfl⟩

theorem raiseIrq_same : Same d.raiseIrq e.raiseIrq := by
  unfold raiseIrq
  split <;> split <;> exact ⟨h.fd, h.host, h.funcRet, h.control⟩

theorem control_same (c : Control) : Same { d with control := c } { e with control := c } :=
  ⟨h.fd, h.host, h.funcRet, rfl⟩

theorem readDone_same (t : Transfer) : Same (d.readDone t) (e.readDone t) := by
  unfold readDone
  rw [h.funcRet]
  split
  · exact ⟨h.fd, h.host, h.funcRet, rfl⟩
  · exact done_same (raiseIrq_same h) _ _

theorem byteLoop_same (t : Transfer) : Same (d.byteLoop t) (e.byteLoop t) := by
  unfold byteLoop
  split
  · exact control_same h _
  · exact readDone_same h t

theorem wordLoop_same (t : Transfer) : Same (d.wordLoop t) (e.wordLoop t) := by
  unfold wordLoop
  split
  · exact control_same h _
  · exact byteLoop_same h t

theorem openHostFile_same (name : Nat → Byte) :
    Same (d.openHostFile fs name) (e.openHostFile fs name) := by
  unfold openHostFile
  rw [h.fd, h.host]
  generalize (if e.fd ≠ -1 then fs.close e.host e.fd else e.host) = host
  dsimp only
  split <;> exact ⟨rfl, rfl, h.funcRet, h.control⟩

theorem fileNameDone_same (t : Transfer) : Same (d.fileNameDone fs t) (e.fileNameDone fs t) := by
  unfold fileNameDone
  have hopen : Same (if d.funcRet ≠ 0#32 then d.openHostFile fs t.dataBuff else d)
      (if e.funcRet ≠ 0#32 then e.openHostFile fs t.dataBuff else e) := by
    rw [h.funcRet]
    split
    · exact openHostFile_same h _
    · exact h
  generalize (if d.funcRet ≠ 0#32 then d.openHostFile fs t.dataBuff else d) = d₁ at hopen ⊢
  generalize (if e.funcRet ≠ 0#32 then e.openHostFile fs t.dataBuff else e) = e₁ at hopen ⊢
  dsimp only
  rw [hopen.funcRet, hopen.fd]
  split <;> exact done_same hopen _ _

/-- The end of a WRITE depends on the position as well. -/
theorem writeDone_same (t : Transfer) (hpos : d.position = e.position) :
    Same (d.writeDone fs t) (e.writeDone fs t) := by
  simp only [position] at hpos
  unfold writeDone
  rw [h.funcRet]
  split
  · exact done_same h _ _
  · have hfile : Same (d.writeFile fs t) (e.writeFile fs t) := by
      simp only [writeFile, h.fd, h.host, hpos]
      exact ⟨rfl, rfl, h.funcRet, h.control⟩
    exact done_same (raiseIrq_same hfile) _ _

theorem readLoop_same (name : Bool) (t : Transfer)
    (hpos : name = false → ¬ t.offset < t.transferSize → d.position = e.position) :
    Same (d.readLoop fs name t) (e.readLoop fs name t) := by
  unfold readLoop
  split
  · exact control_same h _
  · next hend =>
      cases name with
      | true => exact fileNameDone_same h t
      | false => exact writeDone_same h t (hpos rfl hend)

end Same

/-- A control thread in an operation is in this operation only. -/
theorem operation_eq {c c' : Control} (h : operation c = operation c')
    (hc : c.busAccess.isSome) : c = c' := by
  cases c with
  | waiting w => cases hc
  | spinning => cases hc
  | writeWord t => cases c' <;> cases h; rfl
  | writeByte t => cases c' <;> cases h; rfl
  | readWord name t => cases c' <;> cases h; rfl

/-- A response is for a thread in an operation. -/
theorem busAccess_of_reply {d d' : BlockDevice η} {bErr : Bool} {data : ULong}
    (h : d.reply fs bErr data = some d') : d.control.busAccess.isSome := by
  unfold reply at h
  split at h <;> simp_all [Control.busAccess]

/-- **A response** takes both devices to the same place, unless it ends the DMA of a WRITE with
    different positions. -/
theorem reply_same {d e d' : BlockDevice η} (h : Same d e) {bErr : Bool} {data : ULong}
    (hd : d.reply fs bErr data = some d') (hpos : EndsAt e.position d (.response bErr data)) :
    ∃ e', e.reply fs bErr data = some e' ∧ Same d' e' := by
  have hc := operation_eq h.control (busAccess_of_reply hd)
  have hr : Same (d.rcvRsp bErr) (e.rcvRsp bErr) := ⟨h.fd, h.host, rfl, h.control⟩
  unfold reply at hd ⊢
  rw [← hc]
  split at hd
  · cases hd
    refine ⟨_, rfl, ?_⟩
    split
    · exact byteLoop_same hr _
    · exact wordLoop_same hr _
  · cases hd
    refine ⟨_, rfl, ?_⟩
    split
    · exact readDone_same hr _
    · exact byteLoop_same hr _
  · next name t hcd =>
      cases hd
      refine ⟨_, rfl, ?_⟩
      cases bErr with
      | true =>
          simp only [if_true]
          cases name with
          | true => exact fileNameDone_same hr _
          | false =>
              -- a failed DMA seeks nowhere
              simp only [writeDone, rcvRsp, if_true, Bool.false_eq_true, if_false]
              exact done_same hr _ _
      | false =>
          simp only [Bool.false_eq_true, if_false]
          refine readLoop_same hr name _ fun hname hend => ?_
          subst hname
          exact hpos t hcd hend
  · cases hd
  · cases hd

/-- Suspended again, the registers still say the same position. -/
theorem position_reply {d d' : BlockDevice η} {bErr : Bool} {data : ULong}
    (h : d.reply fs bErr data = some d') (hc : d'.control.busAccess.isSome) :
    d'.position = d.position := by
  cases reply_goes h with
  | suspends _ _ _ _ hpos => exact hpos
  | ends hw _ _ _ _ =>
      rw [hw] at hc
      cases hc

/-- The seek of a WRITE that ends, in the log. -/
theorem log_writeDone (fs : HostFs η) (d : BlockDevice (η × List FileAccess)) (t : Transfer)
    (h : d.funcRet ≠ 0#32) : ∃ rest, (d.writeDone fs.logged t).host.2 =
      d.host.2 ++ .lseek d.position .SEEK_SET :: rest := by
  unfold writeDone raiseIrq writeFile
  rw [if_neg h]
  dsimp only
  split <;> exact ⟨_, by simp only [done, getFileSize, HostFs.logged, List.append_assoc]; rfl⟩

/-- The response that ends the DMA of a WRITE: the seek is in the log, and it was the last. -/
theorem log_end_of_write {d d' : BlockDevice (η × List FileAccess)} {t : Transfer} {data : ULong}
    (hc : d.control = .readWord false t) (hend : ¬ t.offset + 4#32 < t.transferSize)
    (h : d.reply fs.logged false data = some d') : d'.control.busAccess = none ∧
      ∃ rest, d'.host.2 = d.host.2 ++ .lseek d.position .SEEK_SET :: rest := by
  have hd' : (d.rcvRsp false).writeDone fs.logged ((t.copy data).advance 4#32) = d' := by
    have hend' : ¬ ((t.copy data).advance 4#32).offset < ((t.copy data).advance 4#32).transferSize :=
      hend
    simpa only [reply, hc, Bool.false_eq_true, if_false, readLoop, hend', Option.some.injEq] using h
  obtain ⟨rest, hlog⟩ := log_writeDone fs (d.rcvRsp false) ((t.copy data).advance 4#32)
    (by decide : 1#32 ≠ 0#32)
  rw [hd'] at hlog
  refine ⟨?_, rest, hlog⟩
  have hok : ¬ (d.rcvRsp false).funcRet = 0#32 := (by decide : 1#32 ≠ 0#32)
  rw [← hd', writeDone, if_neg hok]
  rfl

/-- In an operation every response is answered. -/
theorem reply_of_busy (fs : HostFs η) {d : BlockDevice η} (h : d.control.busAccess.isSome) (bErr : Bool)
    (data : ULong) : ∃ d', d.reply fs bErr data = some d' := by
  unfold reply
  cases hc : d.control with
  | writeWord t => exact ⟨_, rfl⟩
  | writeByte t => exact ⟨_, rfl⟩
  | readWord name t => exact ⟨_, rfl⟩
  | _ =>
      rw [hc] at h
      cases h

/-- A register access or a round of `irq_update_thread` leaves the operation alone. -/
theorem same_of_other {d e d' : BlockDevice η} (h : Same d e) {l : Label}
    (hl : l.isResponse = false) (hc : l.isControl = false) (hd : next fs d l = some d') :
    Same d' e := by
  have hacc : ∀ a, Same (d.access a) e := fun a => by
    refine ⟨h.fd, h.host, h.funcRet, ?_⟩
    simp only [access]
    split
    · refine Eq.trans ?_ h.control
      cases d.control <;> rfl
    · exact h.control
  obtain ⟨-, ⟨_, _, _, rfl, rfl⟩ | ⟨_, _, rfl, rfl⟩ | ⟨_, rfl, -⟩ | ⟨_, _, rfl, -⟩ | ⟨rfl, rfl⟩⟩ :=
    next_cases hd
  · exact hacc _
  · exact hacc _
  · cases hc
  · cases hl
  · exact ⟨h.fd, h.host, h.funcRet, h.control⟩

/-! ## 3. Runs -/

/-- In an operation a response is answered, whatever the registers are. -/
theorem next_response {d d' : BlockDevice η} {bErr : Bool} {data : ULong}
    (h : d.reply fs bErr data = some d') : next fs d (.response bErr data) = some d' := by
  have hc := busAccess_of_reply h
  unfold next
  cases hd : d.control with
  | spinning =>
      rw [hd] at hc
      cases hc
  | _ => exact h

theorem reply_of_next {d d' : BlockDevice η} {bErr : Bool} {data : ULong}
    (h : next fs d (.response bErr data) = some d') : d.reply fs bErr data = some d' := by
  obtain ⟨-, ⟨_, _, _, hl, -⟩ | ⟨_, _, hl, -⟩ | ⟨_, hl, -⟩ | ⟨_, _, hl, -, hr⟩ | ⟨hl, -⟩⟩ :=
    next_cases h
  all_goals cases hl
  exact hr

theorem exists_response {l : Label} (h : l.isResponse = true) :
    ∃ bErr data, l = .response bErr data := by
  cases l with
  | response bErr data => exact ⟨bErr, data, rfl⟩
  | _ => cases h

theorem busEvent_of_other {d : BlockDevice η} {l : Label} (h : l.isResponse = false) :
    busEvent d l = [] := by
  cases l with
  | response bErr data => cases h
  | _ => rfl

theorem endsAt_of_other {pos : ULong} {d : BlockDevice η} {l : Label} (h : l.isResponse = false) :
    EndsAt pos d l := by
  cases l with
  | response bErr data => cases h
  | _ => exact trivial

/-- Behind the operation there is no response, and the footprint stays. -/
theorem footprint_over {s s' : Traced (BlockDevice (η × List FileAccess)) (ULong × Nat × Bool)}
    {ls : List Label} (hn : s.state.control.busAccess = none)
    (hls : ∀ l ∈ ls, l.isControl = false) (h : exec (nextLogged fs) s ls = some s') :
    ls.filter (·.isResponse) = [] ∧ footprint s' = footprint s := by
  induction ls generalizing s with
  | nil =>
      cases h
      exact ⟨rfl, rfl⟩
  | cons l ls ih =>
      obtain ⟨s₁, hs, hrest⟩ := exec_cons_eq_some h
      obtain ⟨hnext, htr⟩ := Traced.step_eq_some hs
      have hl : l.isResponse = false := by
        cases l with
        | response bErr data =>
            have := busAccess_of_reply (reply_of_next hnext)
            rw [hn] at this
            cases this
        | _ => rfl
      have hsame := same_of_other ⟨rfl, rfl, rfl, rfl⟩ hl (hls l List.mem_cons_self) hnext
      have hn₁ : s₁.state.control.busAccess = none := by
        by_contra hsome
        have := operation_eq hsame.control (Option.isSome_iff_ne_none.mpr hsome)
        exact hsome (this ▸ hn)
      obtain ⟨hnil, hfoot⟩ := ih hn₁ (fun l hl => hls l (List.mem_cons_of_mem _ hl)) hrest
      refine ⟨by rw [List.filter_cons_of_neg (by simp [hl]), hnil], hfoot.trans ?_⟩
      rw [footprint, footprint, htr, busEvent_of_other hl, List.append_nil, hsame.host]

/-- A WRITE that ends at another position than `pos` seeks there, and not to `pos`. -/
theorem footprint_ne_of_seek {pos : ULong} {ls : List Label} {bErr : Bool} {data : ULong}
    {s s₁ s' t : Traced (BlockDevice (η × List FileAccess)) (ULong × Nat × Bool)}
    {e' : BlockDevice (η × List FileAccess)} (hsame : Same s.state t.state)
    (hpos : t.state.position = pos) (hP : ¬ EndsAt pos s.state (.response bErr data))
    (hr : s.state.reply fs.logged bErr data = some s₁.state)
    (he : t.state.reply fs.logged bErr data = some e') (hls : ∀ l ∈ ls, l.isControl = false)
    (hrest : exec (nextLogged fs) s₁ ls = some s') (trace : List (ULong × Nat × Bool)) :
    ls.filter (·.isResponse) = [] ∧ footprint s' ≠ footprint ⟨e', trace⟩ := by
  have hc := operation_eq hsame.control (busAccess_of_reply hr)
  cases bErr with
  | true => exact absurd trivial hP
  | false =>
      simp only [EndsAt, not_forall] at hP
      obtain ⟨tr, hctl, hend, hne⟩ := hP
      obtain ⟨hover, rest, hlog⟩ := log_end_of_write hctl hend hr
      obtain ⟨-, rest', hlog'⟩ := log_end_of_write (hc ▸ hctl) hend he
      obtain ⟨hnil, hfoot⟩ := footprint_over hover hls hrest
      refine ⟨hnil, fun hf => hne ?_⟩
      have hfile := congrArg Footprint.file (hfoot.symm.trans hf)
      simp only [footprint, hlog, hlog', hsame.host, List.append_cancel_left_eq,
        List.cons.injEq, FileAccess.lseek.injEq] at hfile
      exact hfile.1.1.trans hpos

/-- From the same place, with the position `pos` on the side without register accesses. -/
theorem footprint_run {pos : ULong} {ls : List Label}
    {s s' t : Traced (BlockDevice (η × List FileAccess)) (ULong × Nat × Bool)}
    (hsame : Same s.state t.state) (htrace : s.trace = t.trace)
    (hpos : t.state.control.busAccess.isSome → t.state.position = pos)
    (hls : ∀ l ∈ ls, l.isControl = false) (h : exec (nextLogged fs) s ls = some s') :
    ∃ t', exec (nextLogged fs) t (ls.filter (·.isResponse)) = some t' ∧
      (footprint s' = footprint t' ↔ Steps (nextLogged fs) (fun s l => EndsAt pos s.state l) s ls) := by
  induction ls generalizing s t with
  | nil =>
      cases h
      refine ⟨t, rfl, iff_of_true ?_ trivial⟩
      rw [footprint, footprint, htrace, hsame.host]
  | cons l ls ih =>
      obtain ⟨s₁, hs, hrest⟩ := exec_cons_eq_some h
      obtain ⟨hnext, htr⟩ := Traced.step_eq_some hs
      have hls' : ∀ l ∈ ls, l.isControl = false := fun l hl => hls l (List.mem_cons_of_mem _ hl)
      rw [steps_cons_iff hs]
      cases hl : l.isResponse with
      | false =>
          have hsame' := same_of_other hsame hl (hls l List.mem_cons_self) hnext
          have htrace' : s₁.trace = t.trace := by
            rw [htr, htrace, busEvent_of_other hl, List.append_nil]
          obtain ⟨t', ht', hiff⟩ := ih hsame' htrace' hpos hls' hrest
          rw [List.filter_cons_of_neg (by simp [hl]), and_iff_right (endsAt_of_other hl)]
          exact ⟨t', ht', hiff⟩
      | true =>
          obtain ⟨bErr, data, rfl⟩ := exists_response hl
          have hr := reply_of_next hnext
          have hbusy := busAccess_of_reply hr
          have hc := operation_eq hsame.control hbusy
          have hevent : busEvent s.state (.response bErr data) =
              busEvent t.state (.response bErr data) := by rw [busEvent, busEvent, hc]
          have hpos' := hpos (hc ▸ hbusy)
          have hstep : ∀ {e'}, t.state.reply fs.logged bErr data = some e' →
              nextLogged fs t (.response bErr data) =
                some ⟨e', t.trace ++ busEvent t.state (.response bErr data)⟩ := fun he => by
            rw [nextLogged, Traced.step, next_response he, Option.map_some]
          rw [List.filter_cons_of_pos hl]
          by_cases hP : EndsAt pos s.state (.response bErr data)
          · obtain ⟨e', he, hsame'⟩ := reply_same hsame hr (hpos'.symm ▸ hP)
            obtain ⟨t', ht', hiff⟩ := ih (t := ⟨e', t.trace ++ busEvent t.state _⟩) hsame'
              (by rw [htr, htrace, hevent]) (fun hb => (position_reply he hb).trans hpos') hls' hrest
            rw [exec_cons (hstep he), and_iff_right hP]
            exact ⟨t', ht', hiff⟩
          · -- the WRITE ends here, in both, with different seeks
            obtain ⟨e', he⟩ := reply_of_busy fs.logged (hc ▸ hbusy) bErr data
            obtain ⟨hnil, hne⟩ := footprint_ne_of_seek hsame hpos' hP hr he hls' hrest
              (t.trace ++ busEvent t.state (.response bErr data))
            rw [hnil, exec_cons (hstep he)]
            exact ⟨_, rfl, iff_of_false hne fun hst => hP hst.1⟩

/-- **When register writes during the DMA do not matter**: from the moment a command is taken,
    and whatever masters write and read before the next command is, the bus accesses and the file
    accesses are those of the same operation with the registers left alone if and only if no DMA of
    a WRITE ends with another position in the registers than the one at that moment. -/
theorem footprint_eq_iff (fs : HostFs η) {d d₀ : BlockDevice (η × List FileAccess)}
    {fresh : Nat → Byte} (hstart : next fs.logged d (.control fresh) = some d₀) {ls : List Label}
    (hls : ∀ l ∈ ls, l.isControl = false)
    {s' : Traced (BlockDevice (η × List FileAccess)) (ULong × Nat × Bool)}
    (h : exec (nextLogged fs) ⟨d₀, []⟩ ls = some s') :
    ∃ t', exec (nextLogged fs) ⟨d₀, []⟩ (ls.filter (·.isResponse)) = some t' ∧
      (footprint s' = footprint t' ↔
        Steps (nextLogged fs) (fun s l => EndsAt d.position s.state l) ⟨d₀, []⟩ ls) := by
  refine footprint_run ⟨rfl, rfl, rfl, rfl⟩ rfl (fun hb => ?_) hls h
  obtain ⟨-, ⟨_, _, _, hl, -⟩ | ⟨_, _, hl, -⟩ | ⟨_, -, -, rfl⟩ | ⟨_, _, hl, -⟩ | ⟨hl, -⟩⟩ :=
    next_cases hstart
  · cases hl
  · cases hl
  · rcases runControl_goes fs.logged d _ with ⟨-, hgoes⟩ | ⟨-, -, hn⟩
    · cases hgoes with
      | suspends _ _ _ _ hpos => exact hpos
      | ends hw _ _ _ _ =>
          rw [hw] at hb
          cases hb
    · rw [hn] at hb
      cases hb
  · cases hl
  · cases hl

/-- A WRITE of four bytes, taken from the constructor's state. -/
def fourByteWrite : Option (BlockDevice (HostFile × List FileAccess)) :=
  exec (next hostFile.logged) (new hostFile.logged (⟨[], 0⟩, []) none 1#32 0#32)
    [writeReg 2#32 4#32, writeReg 3#32 SlBlockOp.WRITE.code]

/-- BUFFER changes during its DMA. -/
theorem footprint_eq_iff_buffer : ∃ d d₀ s' t', fourByteWrite = some d ∧
    next hostFile.logged d (.control fun _ => 0#8) = some d₀ ∧
    exec (nextLogged hostFile) ⟨d₀, []⟩ [writeReg 0#32 0x100#32, .response false 0#32] = some s' ∧
    exec (nextLogged hostFile) ⟨d₀, []⟩ [.response false 0#32] = some t' ∧
    (footprint s' = footprint t' ↔ Steps (nextLogged hostFile)
      (fun s l => EndsAt d.position s.state l) ⟨d₀, []⟩
      [writeReg 0#32 0x100#32, .response false 0#32]) := by
  have hrun : (fourByteWrite.bind fun d =>
      (next hostFile.logged d (.control fun _ => 0#8)).bind fun d₀ =>
        exec (nextLogged hostFile) ⟨d₀, []⟩
          [writeReg 0#32 0x100#32, .response false 0#32]).isSome := by decide
  obtain ⟨s', hs'⟩ := Option.isSome_iff_exists.mp hrun
  obtain ⟨d, hd, hs'⟩ := Option.bind_eq_some_iff.mp hs'
  obtain ⟨d₀, hd₀, hs'⟩ := Option.bind_eq_some_iff.mp hs'
  obtain ⟨t', ht', hiff⟩ := footprint_eq_iff hostFile hd₀ (by decide) hs'
  exact ⟨d, d₀, s', t', hd, hd₀, hs', ht', hiff⟩

/-- LBA changes from 0 to 5 during its DMA: the bytes go to position 5 of the file. -/
theorem footprint_depends_on_lba : ∃ d d₀, fourByteWrite = some d ∧
    next hostFile.logged d (.control fun _ => 0#8) = some d₀ ∧ d.regs.lba = 0#32 ∧
    (exec (nextLogged hostFile) ⟨d₀, []⟩
      [writeReg 1#32 5#32, .response false 0#32]).map footprint = some
        ⟨[(0#32, 4, false)], [.lseek 5#32 .SEEK_SET, .write 4, .lseek 0#32 .SEEK_CUR,
          .lseek 0#32 .SEEK_END, .lseek 9#32 .SEEK_SET]⟩ ∧
    (exec (nextLogged hostFile) ⟨d₀, []⟩ [.response false 0#32]).map footprint = some
        ⟨[(0#32, 4, false)], [.lseek 0#32 .SEEK_SET, .write 4, .lseek 0#32 .SEEK_CUR,
          .lseek 0#32 .SEEK_END, .lseek 4#32 .SEEK_SET]⟩ := by
  have hrun : (fourByteWrite.bind fun d =>
      (next hostFile.logged d (.control fun _ => 0#8)).map fun d₀ => (d.regs.lba,
        (exec (nextLogged hostFile) ⟨d₀, []⟩
          [writeReg 1#32 5#32, .response false 0#32]).map footprint,
        (exec (nextLogged hostFile) ⟨d₀, []⟩ [.response false 0#32]).map footprint)) = some
      (0#32, some ⟨[(0#32, 4, false)], [.lseek 5#32 .SEEK_SET, .write 4, .lseek 0#32 .SEEK_CUR,
          .lseek 0#32 .SEEK_END, .lseek 9#32 .SEEK_SET]⟩,
        some ⟨[(0#32, 4, false)], [.lseek 0#32 .SEEK_SET, .write 4, .lseek 0#32 .SEEK_CUR,
          .lseek 0#32 .SEEK_END, .lseek 4#32 .SEEK_SET]⟩) := by decide
  obtain ⟨d, hd, hrun⟩ := Option.bind_eq_some_iff.mp hrun
  obtain ⟨d₀, hd₀, hrun⟩ := Option.map_eq_some_iff.mp hrun
  rw [Prod.mk.injEq, Prod.mk.injEq] at hrun
  exact ⟨d, d₀, hd, hd₀, hrun⟩

end BlockDevice

end Rabbits
