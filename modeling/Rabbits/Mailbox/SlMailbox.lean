/-
  File:      Rabbits/Mailbox/SlMailbox.lean
  Subject:   The mailboxes (sl_mailbox_device.cpp: the constructor, write, read).

  Each mailbox is a cell of five arrays. An access divides its word by the span of a mailbox; nothing
  compares the quotient with the number of mailboxes.

  * `SlMailbox.write`, `SlMailbox.read` -- the accesses, as code over the arrays;
  * `MailboxAccess` -- an access below the global registers;
  * `AccessRight`, `IrqFollows` -- **the properties**: an access behind the mailboxes is refused, any
    other one stays in its mailbox; an interrupt is high exactly for a new message;
  * `MailboxAccess.inside_iff` -- **which accesses stay inside the arrays**;
  * `mailboxes_right_iff` -- **they hold exactly in the runs that address mailboxes**.
-/
import Rabbits.Lib.ArrayCode
import Rabbits.Lib.Labelled
import Rabbits.Noc.SlaveDevice

namespace Rabbits

open Lib ArrayCode

/-! ## 1. The device -/

/-- The arrays; a cell of `irq` is 1 when the signal is high. -/
inductive MailboxArray where
  | command
  | data
  | status
  | reserved
  | irq
  | globalReg
  deriving DecidableEq

def MAILBOX_SPAN : Nat := 4
def MAILBOX_GLOBAL_START_ADDR : Nat := 0x1000
def MAILBOX_GLOBAL_NO_REGS : Nat := 10
def MAILBOX_CLEAR : ULong := 0
def MAILBOX_NEW_MESSAGE : ULong := 1

/-- Their sizes, for `nb_mailbox` mailboxes. -/
def mailboxSize (nbMailbox : Nat) : MailboxArray → Nat
  | .command | .data | .status | .reserved | .irq => nbMailbox
  | .globalReg => MAILBOX_GLOBAL_NO_REGS

namespace SlMailbox

/-- `a[i] = value`. -/
def put (a : MailboxArray) (i : Nat) (value : ULong) : ArrayCode MailboxArray ULong Unit :=
  store a i 1 fun _ => value

/-- `*val = a[i]`. -/
def get (a : MailboxArray) (i : Nat) : ArrayCode MailboxArray ULong ULong :=
  (· 0) <$> load a i 1

/-- The switch of `write`. -/
def writeLocal (mailbox : Nat) (value : ULong) : Nat → ArrayCode MailboxArray ULong Unit
  -- MAILBOX_COMM_ADR
  | 0 => do
      put .command mailbox value
      put .status mailbox MAILBOX_NEW_MESSAGE
      put .irq mailbox 1#32
  -- MAILBOX_DATA_ADR
  | 1 => put .data mailbox value
  -- MAILBOX_RESERVED_ADR
  | 2 => put .reserved mailbox value
  -- MAILBOX_RESET_ADR
  | 3 => do
      put .status mailbox MAILBOX_CLEAR
      put .irq mailbox 0#32
  -- "Bad %s::%s ofs=0x%X, be=0x%X, data=0x%X-%X!\n"
  | _ => exit

/-- The switch of `read`. -/
def readLocal (mailbox : Nat) : Nat → ArrayCode MailboxArray ULong ULong
  | 0 => get .command mailbox
  | 1 => get .data mailbox
  | 2 => get .reserved mailbox
  | 3 => get .status mailbox
  -- "Bad %s::%s ofs=0x%X, be=0x%X!\n"
  | _ => exit

/-- `write`. -/
def write (ofs : ULong) (be : Byte) (data : Fin 8 → Byte) : ArrayCode MailboxArray ULong Unit :=
  let idx := (lofsOf ofs be).toNat
  let value := valueOf be data
  if MAILBOX_GLOBAL_START_ADDR ≤ ofs.toNat then
    let idx := idx - MAILBOX_GLOBAL_START_ADDR / 4
    if MAILBOX_GLOBAL_NO_REGS ≤ idx then exit else put .globalReg idx value
  else writeLocal (idx / MAILBOX_SPAN) value (idx % MAILBOX_SPAN)

/-- `read`. -/
def read (ofs : ULong) (be : Byte) : ArrayCode MailboxArray ULong ULong :=
  let idx := (lofsOf ofs be).toNat
  if MAILBOX_GLOBAL_START_ADDR ≤ ofs.toNat then
    let idx := idx - MAILBOX_GLOBAL_START_ADDR / 4
    if MAILBOX_GLOBAL_NO_REGS ≤ idx then exit else get .globalReg idx
  else readLocal (idx / MAILBOX_SPAN) (idx % MAILBOX_SPAN)

end SlMailbox

/-- The arrays behind the constructor. -/
def mailboxesNew : MailboxArray → Nat → ULong := fun _ _ => 0#32

/-! ## 2. The accesses to the mailboxes -/

/-- An access below the global registers: `some data` for a write. -/
structure MailboxAccess where
  ofs : ULong
  be : Byte
  data : Option (Fin 8 → Byte)
  below : ofs.toNat < MAILBOX_GLOBAL_START_ADDR

namespace MailboxAccess

/-- The mailbox that it addresses. -/
def mailbox (a : MailboxAccess) : Nat := (lofsOf a.ofs a.be).toNat / MAILBOX_SPAN

/-- The code that it runs. -/
def code (a : MailboxAccess) : ArrayCode MailboxArray ULong Unit :=
  match a.data with
  | some data => SlMailbox.write a.ofs a.be data
  | none => (fun _ => ()) <$> SlMailbox.read a.ofs a.be

end MailboxAccess

def mailboxNext (mem : MailboxArray → Nat → ULong) (a : MailboxAccess) :
    Option (MailboxArray → Nat → ULong) :=
  (a.code.run mem).result.map fun _ => (a.code.run mem).mem

/-- An access behind the mailboxes is refused, and touches nothing; one to a mailbox leaves the
    cells of the others. -/
structure AccessRight (nbMailbox : Nat) (mem : MailboxArray → Nat → ULong) (a : MailboxAccess) :
    Prop where
  refused : nbMailbox ≤ a.mailbox → (a.code.run mem).result = none ∧ (a.code.run mem).touched = []
  isolated : a.mailbox < nbMailbox → ∀ i ≠ a.mailbox, ∀ array,
    (a.code.run mem).mem array i = mem array i

/-- The interrupt of a mailbox is high exactly when its status is a new message. -/
def IrqFollowsStatus (nbMailbox : Nat) (mem : MailboxArray → Nat → ULong) : Prop :=
  ∀ i < nbMailbox, mem .irq i = 1#32 ↔ mem .status i = MAILBOX_NEW_MESSAGE

/-! ## 3. Code of one mailbox -/

variable {v w : Type}

namespace SlMailbox

/-- The code returns and leaves the cells of other mailboxes. -/
structure Within (mailbox : Nat) (f : ArrayCode MailboxArray ULong v) : Prop where
  returns : Returns f
  other : ∀ mem, ∀ i ≠ mailbox, ∀ array, (f.run mem).mem array i = mem array i

/-- The interrupts are at the new messages, behind the mailboxes too. -/
def IrqAtNew (mem : MailboxArray → Nat → ULong) : Prop :=
  ∀ i, mem .irq i = 1#32 ↔ mem .status i = MAILBOX_NEW_MESSAGE

variable {mailbox : Nat}

theorem put_mem (a : MailboxArray) (i : Nat) (value : ULong) (mem : MailboxArray → Nat → ULong) :
    ((put a i value).run mem).mem = Function.update mem a (Function.update (mem a) i value) := by
  show Function.update mem a _ = _
  congr 1
  funext k
  rw [rangeWrite_apply]
  by_cases heq : k = i
  · rw [heq, if_pos (by omega), Function.update_self]
  · rw [if_neg (by omega), Function.update_of_ne heq]

theorem within_put (a : MailboxArray) (value : ULong) : Within mailbox (put a mailbox value) := by
  refine ⟨returns_store _ _ _ _, fun mem i hi array => ?_⟩
  rw [put_mem]
  by_cases ha : array = a
  · rw [ha, Function.update_self, Function.update_of_ne hi]
  · rw [Function.update_of_ne ha]

theorem Within.seq {f g : ArrayCode MailboxArray ULong Unit} (hf : Within mailbox f)
    (hg : Within mailbox g) : Within mailbox (do f; g) := by
  refine ⟨hf.returns.bind fun _ => hg.returns, fun mem i hi array => ?_⟩
  obtain ⟨x, hx⟩ := hf.returns mem
  rw [run_bind_some hx]
  exact (hg.other _ i hi array).trans (hf.other mem i hi array)

theorem Within.map {f : ArrayCode MailboxArray ULong v} (hf : Within mailbox f) (g : v → w) :
    Within mailbox (g <$> f) := by
  refine ⟨hf.returns.map g, fun mem i hi array => ?_⟩
  rw [map_mem]
  exact hf.other mem i hi array

theorem within_get (a : MailboxArray) : Within mailbox (get a mailbox) :=
  ⟨fun _ => ⟨_, rfl⟩, fun _ _ _ _ => rfl⟩

/-- The register of a mailbox that a word is. -/
theorem reg_cases (idx : Nat) : idx % MAILBOX_SPAN = 0 ∨ idx % MAILBOX_SPAN = 1 ∨
    idx % MAILBOX_SPAN = 2 ∨ idx % MAILBOX_SPAN = 3 := by
  rw [MAILBOX_SPAN]
  omega

theorem within_writeLocal (idx : Nat) (value : ULong) :
    Within mailbox (writeLocal mailbox value (idx % MAILBOX_SPAN)) := by
  rcases reg_cases idx with h | h | h | h <;> rw [h]
  · exact (within_put _ _).seq ((within_put _ _).seq (within_put _ _))
  · exact within_put _ _
  · exact within_put _ _
  · exact (within_put _ _).seq (within_put _ _)

theorem within_readLocal (idx : Nat) :
    Within mailbox (readLocal mailbox (idx % MAILBOX_SPAN)) := by
  rcases reg_cases idx with h | h | h | h <;> rw [h] <;> exact within_get _

/-- A write to another array. -/
theorem IrqAtNew.put_other {mem : MailboxArray → Nat → ULong} (h : IrqAtNew mem) {a : MailboxArray}
    (hirq : a ≠ .irq) (hstatus : a ≠ .status) (value : ULong) :
    IrqAtNew ((put a mailbox value).run mem).mem := by
  intro i
  rw [put_mem, Function.update_of_ne hirq.symm, Function.update_of_ne hstatus.symm]
  exact h i

/-- The status and the interrupt of a mailbox are set together. -/
theorem IrqAtNew.put_both {mem : MailboxArray → Nat → ULong} (h : IrqAtNew mem) {status irq : ULong}
    (hboth : irq = 1#32 ↔ status = MAILBOX_NEW_MESSAGE) :
    IrqAtNew ((do put .status mailbox status; put .irq mailbox irq :
      ArrayCode MailboxArray ULong Unit).run mem).mem := by
  intro i
  rw [run_bind_some (x := ()) rfl]
  simp only [put_mem, Function.update_self, Function.update_of_ne, ne_eq, reduceCtorEq,
    not_false_eq_true]
  by_cases heq : i = mailbox
  · rw [heq, Function.update_self, Function.update_self]
    exact hboth
  · rw [Function.update_of_ne heq, Function.update_of_ne heq]
    exact h i

theorem IrqAtNew.write_local {mem : MailboxArray → Nat → ULong} (h : IrqAtNew mem) (idx : Nat)
    (value : ULong) :
    IrqAtNew ((writeLocal mailbox value (idx % MAILBOX_SPAN)).run mem).mem := by
  rcases reg_cases idx with hr | hr | hr | hr <;> rw [hr]
  · rw [SlMailbox.writeLocal, run_bind_some (x := ()) rfl]
    exact (h.put_other (by decide) (by decide) value).put_both (iff_of_true rfl rfl)
  · exact h.put_other (by decide) (by decide) value
  · exact h.put_other (by decide) (by decide) value
  · exact h.put_both (by decide)

/-- An access to a cell of a mailbox is inside the array when there is such a mailbox. -/
theorem inside_put {nbMailbox : Nat} {mem : MailboxArray → Nat → ULong} {a : MailboxArray}
    (ha : mailboxSize nbMailbox a = nbMailbox) (value : ULong) :
    Inside (mailboxSize nbMailbox) (put a mailbox value) mem ↔ mailbox < nbMailbox := by
  rw [put, inside_store, ha]
  omega

theorem inside_get {nbMailbox : Nat} {mem : MailboxArray → Nat → ULong} {a : MailboxArray}
    (ha : mailboxSize nbMailbox a = nbMailbox) :
    Inside (mailboxSize nbMailbox) (get a mailbox) mem ↔ mailbox < nbMailbox := by
  rw [get, inside_map, inside_load, ha]
  omega

theorem inside_writeLocal {nbMailbox : Nat} {mem : MailboxArray → Nat → ULong} (idx : Nat)
    (value : ULong) :
    Inside (mailboxSize nbMailbox) (writeLocal mailbox value (idx % MAILBOX_SPAN)) mem ↔
      mailbox < nbMailbox := by
  rcases reg_cases idx with h | h | h | h <;> rw [h]
  · refine inside_bind.trans ⟨fun hyp => (inside_put rfl _).mp hyp.1, fun hlt => ?_⟩
    exact ⟨(inside_put rfl _).mpr hlt, fun _ _ => inside_bind.mpr
      ⟨(inside_put rfl _).mpr hlt, fun _ _ => (inside_put rfl _).mpr hlt⟩⟩
  · exact inside_put rfl _
  · exact inside_put rfl _
  · refine inside_bind.trans ⟨fun hyp => (inside_put rfl _).mp hyp.1, fun hlt => ?_⟩
    exact ⟨(inside_put rfl _).mpr hlt, fun _ _ => (inside_put rfl _).mpr hlt⟩

theorem inside_readLocal {nbMailbox : Nat} {mem : MailboxArray → Nat → ULong} (idx : Nat) :
    Inside (mailboxSize nbMailbox) (readLocal mailbox (idx % MAILBOX_SPAN)) mem ↔
      mailbox < nbMailbox := by
  rcases reg_cases idx with h | h | h | h <;> rw [h] <;> exact inside_get rfl

theorem readLocal_mem (mem : MailboxArray → Nat → ULong) (idx : Nat) :
    ((readLocal mailbox (idx % MAILBOX_SPAN)).run mem).mem = mem := by
  rcases reg_cases idx with h | h | h | h <;> rw [h] <;> rfl

end SlMailbox

/-! ## 4. Runs -/

open SlMailbox

variable {nbMailbox : Nat} {mem mem' : MailboxArray → Nat → ULong}

namespace MailboxAccess

variable (a : MailboxAccess)

theorem within : Within a.mailbox a.code := by
  have hbelow := Nat.not_le.mpr a.below
  rw [code]
  cases a.data with
  | some data =>
      show Within a.mailbox (SlMailbox.write a.ofs a.be data)
      rw [SlMailbox.write, if_neg hbelow]
      exact within_writeLocal _ _
  | none =>
      show Within a.mailbox ((fun _ => ()) <$> SlMailbox.read a.ofs a.be)
      rw [SlMailbox.read, if_neg hbelow]
      exact (within_readLocal _).map _

theorem irqAtNew_kept (h : IrqAtNew mem) : IrqAtNew (a.code.run mem).mem := by
  have hbelow := Nat.not_le.mpr a.below
  rw [code]
  cases a.data with
  | some data =>
      show IrqAtNew ((SlMailbox.write a.ofs a.be data).run mem).mem
      rw [SlMailbox.write, if_neg hbelow]
      exact h.write_local _ _
  | none =>
      show IrqAtNew (((fun _ => ()) <$> SlMailbox.read a.ofs a.be).run mem).mem
      rw [map_mem, SlMailbox.read, if_neg hbelow, readLocal_mem]
      exact h

/-- **An access stays inside the arrays exactly if it addresses a mailbox.** -/
theorem inside_iff : Inside (mailboxSize nbMailbox) a.code mem ↔ a.mailbox < nbMailbox := by
  have hbelow := Nat.not_le.mpr a.below
  rw [code]
  cases a.data with
  | some data =>
      show Inside _ (SlMailbox.write a.ofs a.be data) mem ↔ _
      rw [SlMailbox.write, if_neg hbelow]
      exact inside_writeLocal _ _
  | none =>
      show Inside _ ((fun _ => ()) <$> SlMailbox.read a.ofs a.be) mem ↔ _
      rw [inside_map, SlMailbox.read, if_neg hbelow]
      exact inside_readLocal _

end MailboxAccess

theorem mailboxNext_returns (mem : MailboxArray → Nat → ULong) (a : MailboxAccess) :
    mailboxNext mem a = some (a.code.run mem).mem := by
  obtain ⟨x, hx⟩ := a.within.returns mem
  rw [mailboxNext, hx]
  rfl

/-- An access is right exactly if it addresses a mailbox. -/
theorem accessRight_iff (mem : MailboxArray → Nat → ULong) (a : MailboxAccess) :
    AccessRight nbMailbox mem a ↔ a.mailbox < nbMailbox := by
  constructor
  · intro h
    by_contra hge
    obtain ⟨x, hx⟩ := a.within.returns mem
    have hrefused := (h.refused (Nat.le_of_not_lt hge)).1
    rw [hx] at hrefused
    cases hrefused
  · intro h
    exact ⟨fun hge => absurd h (Nat.not_lt.mpr hge), fun _ => a.within.other mem⟩

/-- **In which runs the mailboxes are right.** -/
theorem mailboxes_right_iff (nbMailbox : Nat) (accesses : List MailboxAccess) :
    Steps mailboxNext (AccessRight nbMailbox) mailboxesNew accesses ∧
        Along mailboxNext (IrqFollowsStatus nbMailbox) mailboxesNew accesses ↔
      ∀ a ∈ accesses, a.mailbox < nbMailbox := by
  have hnext : ∀ mem a, ∃ mem', mailboxNext mem a = some mem' :=
    fun mem a => ⟨_, mailboxNext_returns mem a⟩
  have hnew : IrqAtNew mailboxesNew := by
    have hzero : (0#32 : ULong) ≠ 1#32 := by decide
    exact fun _ => iff_of_false hzero hzero
  have hkept : ∀ mem a mem', IrqAtNew mem → mailboxNext mem a = some mem' → IrqAtNew mem' := by
    intro mem a mem' h hmem
    rw [mailboxNext_returns] at hmem
    cases hmem
    exact a.irqAtNew_kept h
  rw [← steps_iff_forall hnext mailboxesNew]
  refine along_and_steps_iff (I := IrqAtNew) (fun mem h i _ => h i) (fun mem a mem' h ha hmem => ?_)
    (fun mem a mem' _ ha _ hyp => ha ((accessRight_iff mem a).mp hyp.1)) accesses hnew
  exact ⟨(accessRight_iff mem a).mpr ha, hkept mem a mem' h hmem⟩

/-- A message to mailbox 1. -/
def toSecond : MailboxAccess := ⟨0x10, 0x0F, some fun _ => 0#8, by decide⟩

/-- With one mailbox it goes to the cells behind it. -/
theorem mailboxes_fail :
    (toSecond.code.run mailboxesNew).touched = [(.command, 1), (.status, 1), (.irq, 1)] ∧
      ¬ Steps mailboxNext (AccessRight 1) mailboxesNew [toSecond] := by
  refine ⟨by decide, fun h => ?_⟩
  have hright := (h _ (mailboxNext_returns _ _)).1
  exact absurd ((accessRight_iff _ _).mp hright) (by decide)

end Rabbits
