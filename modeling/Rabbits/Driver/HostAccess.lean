/-
  File:      Rabbits/Driver/HostAccess.lean
  Subject:   The Linux driver for files of the host (rabbitsha_drv.c).

  A device is a block device behind a buffer. Its state says how far a host file is chosen:
  0 no name yet, 1 the name comes by a descriptor, 2 a file is chosen and no descriptor open,
  3 descriptors of that file are open.

  * `rabbitshaChrOpen` ... `rabbitshaChrWrite` -- the calls, on one device;
  * `HostAccess.next` -- one call on one descriptor;
  * `Counted` -- the count and the state agree with the descriptors that are open;
  * `counted_iff` -- **exactly the runs in which no transfer fails keep them in agreement**.

  `buffer` is the memory from `device->buffer` on. What the user's memory and the block device do
  in a call (bytes copied, bytes transferred, the first status that is not BUSY) comes with the
  call. The major and minor numbers are those of the device. Messages are left out.
-/
import Mathlib.Data.List.DropRight
import Rabbits.Block.BlockDevice

namespace Rabbits

open Lib

/-! ## 1. The device -/

def BLOCK_DEVICE_DRV_BUF_SIZE : Nat := 1024

/-- The error codes the calls return. -/
inductive Errno where
  | enxio
  | ebusy
  deriving DecidableEq

/-- `rabbitsha_device_t`, with `virt_to_phys (buffer)` and the accesses made to the registers at
    `base_addr`. -/
structure RabbitshaDevice where
  bufferPhys : ULong
  buffer : List Byte
  state : Int
  openCount : Int
  writes : List (SlBlockRegister × ULong)

/-- What a call returns, and the device after it. -/
abbrev ShaResult (α : Type) := Except Errno α × RabbitshaDevice

def RabbitshaDevice.writel (device : RabbitshaDevice) (reg : SlBlockRegister) (val : ULong) :
    RabbitshaDevice :=
  { device with writes := device.writes ++ [(reg, val)] }

/-- `memcpy` to the start of the buffer. -/
def RabbitshaDevice.fill (device : RabbitshaDevice) (data : List Byte) : RabbitshaDevice :=
  { device with buffer := data ++ device.buffer.drop data.length }

@[simp] theorem writel_state (device : RabbitshaDevice) (reg : SlBlockRegister) (val : ULong) :
    (device.writel reg val).state = device.state := rfl

@[simp] theorem writel_openCount (device : RabbitshaDevice) (reg : SlBlockRegister) (val : ULong) :
    (device.writel reg val).openCount = device.openCount := rfl

@[simp] theorem fill_state (device : RabbitshaDevice) (data : List Byte) :
    (device.fill data).state = device.state := rfl

@[simp] theorem fill_openCount (device : RabbitshaDevice) (data : List Byte) :
    (device.fill data).openCount = device.openCount := rfl

/-! ## 2. The calls -/

/-- `rabbitsha_chr_open`. -/
def rabbitshaChrOpen (device : RabbitshaDevice) : ShaResult Unit :=
  if device.state = 0 then
    (.ok (), { device.fill [0#8] with state := 1, openCount := device.openCount + 1 })
  else if device.state = 1 then (.error .enxio, device)
  else if device.state = 2 then
    (.ok (), { device with state := 3, openCount := device.openCount + 1 })
  else if device.state = 3 then (.ok (), { device with openCount := device.openCount + 1 })
  else (.error .enxio, device)

/-- The name in the buffer, up to a line feed or the end of the string. -/
def hostFileLine (buffer : List Byte) : List Byte :=
  buffer.takeWhile fun ch => ch ≠ 0x0A#8 && ch ≠ 0#8

/-- The name without the blanks at its end. -/
def hostFileName (buffer : List Byte) : List Byte :=
  (hostFileLine buffer).rdropWhile fun ch => ch = 0x20#8

/-- The two loops of `open_host_file`: the line ends in zeros. -/
def trimName (buffer : List Byte) : List Byte :=
  let line := hostFileLine buffer
  let name := hostFileName buffer
  name ++ List.replicate (line.length + 1 - name.length) 0#8 ++ buffer.drop (line.length + 1)

/-- `open_host_file`. -/
def openHostFile (device : RabbitshaDevice) (status : ULong) : ShaResult Unit :=
  let name := hostFileName device.buffer
  let device := { device with buffer := trimName device.buffer }
  let device := device.writel .BUFFER device.bufferPhys
  let device := device.writel .COUNT (BitVec.ofNat 32 (name.length + 1))
  let device := device.writel .OP SlBlockOp.FILE_NAME.code
  if status ≠ SlBlockStatus.WRITE_SUCCESS.code then (.error .enxio, device)
  else (.ok (), { device with state := 3 })

/-- `rabbitsha_chr_ioctl_open`; `copied` is what `strncpy_from_user` copies. -/
def rabbitshaChrIoctlOpen (device : RabbitshaDevice) (copied : List Byte) (status : ULong) :
    ShaResult Unit :=
  if device.state = 3 ∧ device.openCount > 1 then (.error .ebusy, device)
  else openHostFile (({ device with state := 1 }.fill [0#8]).fill copied) status

/-- `rabbitsha_chr_release`. -/
def rabbitshaChrRelease (device : RabbitshaDevice) : ShaResult Unit :=
  let device := { device with openCount := device.openCount - 1 }
  if device.state = 1 then (.ok (), { device with state := 0 })
  else if device.state = 3 then
    (.ok (), if device.openCount = 0 then { device with state := 2 } else device)
  else (.error .enxio, device)

/-- The commands of `rabbitsha_chr_read` and `rabbitsha_chr_write`. -/
def RabbitshaDevice.transfer (device : RabbitshaDevice) (op : SlBlockOp) (loff size : ULong) :
    RabbitshaDevice :=
  (((device.writel .BUFFER device.bufferPhys).writel .LBA loff).writel .COUNT size).writel .OP op.code

@[simp] theorem transfer_openCount (device : RabbitshaDevice) (op : SlBlockOp) (loff size : ULong) :
    (device.transfer op loff size).openCount = device.openCount := rfl

@[simp] theorem transfer_state (device : RabbitshaDevice) (op : SlBlockOp) (loff size : ULong) :
    (device.transfer op loff size).state = device.state := rfl

/-- `size`, at most the size of the buffer. -/
def clampSize (size : ULong) : ULong :=
  if size.toNat > BLOCK_DEVICE_DRV_BUF_SIZE then BitVec.ofNat 32 BLOCK_DEVICE_DRV_BUF_SIZE else size

/-- `rabbitsha_chr_read`: how many bytes were read, and what the user gets. The block device puts
    `data` into the buffer and `count` into its register. -/
def rabbitshaChrRead (device : RabbitshaDevice) (loff size : ULong) (data : List Byte)
    (status count : ULong) : ShaResult (ULong × List Byte) :=
  if device.state = 1 then (.error .enxio, device)
  else if device.state = 3 then
    let size := clampSize size
    let device := (device.transfer .READ loff size).fill data
    if status ≠ SlBlockStatus.READ_SUCCESS.code then (.error .enxio, { device with state := 0 })
    else (.ok (count, device.buffer.take size.toNat), device)
  else (.error .enxio, device)

/-- `rabbitsha_chr_write`: how many bytes were written. `data` is what the user gives, `size` bytes
    of it. -/
def rabbitshaChrWrite (device : RabbitshaDevice) (loff size : ULong) (data : List Byte)
    (status : ULong) : ShaResult ULong :=
  if device.state = 1 then (.error .enxio, device)
  else if device.state = 3 then
    let size := clampSize size
    let device := (device.fill (data.take size.toNat)).transfer .WRITE loff size
    if status ≠ SlBlockStatus.WRITE_SUCCESS.code then (.error .enxio, { device with state := 0 })
    else (.ok size, device)
  else (.error .enxio, device)

/-! ## 3. Descriptors -/

/-- The device and the descriptors that are open on it, with their positions in the file. -/
structure HostAccess where
  device : RabbitshaDevice
  files : List (Nat × ULong)

/-- After `rabbitsha_dev_init`. -/
def HostAccess.new (bufferPhys : ULong) : HostAccess where
  device := ⟨bufferPhys, [], 0, 0, []⟩
  files := []

/-- A call on the descriptor `fd`. -/
inductive ShaCall where
  | openFile (fd : Nat)
  | ioctlOpen (fd : Nat) (copied : List Byte) (status : ULong)
  | read (fd : Nat) (size : ULong) (data : List Byte) (status count : ULong)
  | write (fd : Nat) (size : ULong) (data : List Byte) (status : ULong)
  | release (fd : Nat)

/-- The position of an open descriptor. -/
def HostAccess.loff (s : HostAccess) (fd : Nat) : Option ULong :=
  (s.files.find? fun f => f.1 = fd).map Prod.snd

/-- `*loff += size`, where the call succeeds. -/
def HostAccess.advance (s : HostAccess) (fd : Nat) (size : Except Errno ULong) :
    List (Nat × ULong) :=
  match size with
  | .ok size => s.files.map fun f => if f.1 = fd then (f.1, f.2 + size) else f
  | .error _ => s.files

/-- One call. A descriptor is opened once, used while it is open, and gone after its release,
    whatever that returns. A transfer ends when the status is not BUSY. -/
def HostAccess.next (s : HostAccess) : ShaCall → Option HostAccess
  | .openFile fd =>
      if (s.loff fd).isSome then none
      else
        let r := rabbitshaChrOpen s.device
        match r.1 with
        | .ok _ => some ⟨r.2, (fd, 0#32) :: s.files⟩
        | .error _ => some ⟨r.2, s.files⟩
  | .ioctlOpen fd copied status =>
      if (s.loff fd).isNone ∨ status = SlBlockStatus.BUSY.code then none
      else some { s with device := (rabbitshaChrIoctlOpen s.device copied status).2 }
  | .read fd size data status count => (s.loff fd).bind fun loff =>
      if status = SlBlockStatus.BUSY.code then none
      else
        let r := rabbitshaChrRead s.device loff size data status count
        some ⟨r.2, s.advance fd (r.1.map Prod.fst)⟩
  | .write fd size data status => (s.loff fd).bind fun loff =>
      if status = SlBlockStatus.BUSY.code then none
      else
        let r := rabbitshaChrWrite s.device loff size data status
        some ⟨r.2, s.advance fd r.1⟩
  | .release fd =>
      if (s.loff fd).isNone then none
      else some ⟨(rabbitshaChrRelease s.device).2, s.files.eraseP fun f => f.1 = fd⟩

/-! ## 4. The count and the state -/

/-- The count is the number of open descriptors; the state is 1 or 3 exactly when there is one,
    1 only for a single one; and a release succeeds. -/
structure Counted (s : HostAccess) : Prop where
  count : s.device.openCount = s.files.length
  isOpen : s.device.state = 1 ∨ s.device.state = 3 ↔ 0 < s.device.openCount
  isClosed : s.device.state = 0 ∨ s.device.state = 2 ↔ ¬ 0 < s.device.openCount
  single : s.device.state = 1 → s.files.length = 1
  release : ∀ fd, (s.loff fd).isSome → (s.device.state = 1 ∨ s.device.state = 3) ∧
    (rabbitshaChrRelease s.device).1 = .ok ()

/-- A transfer that reaches the block device succeeds. -/
def TransferSucceeds (s : HostAccess) : ShaCall → Prop
  | .read _ _ _ status _ => s.device.state = 3 → status = SlBlockStatus.READ_SUCCESS.code
  | .write _ _ _ status => s.device.state = 3 → status = SlBlockStatus.WRITE_SUCCESS.code
  | _ => True

section Step

variable {s s' : HostAccess} {fd : Nat}

theorem loff_isSome_iff : (s.loff fd).isSome ↔ ∃ f ∈ s.files, f.1 = fd := by
  rw [HostAccess.loff, Option.isSome_map, List.find?_isSome]
  simp

theorem length_pos_of_loff (h : (s.loff fd).isSome) : 0 < s.files.length := by
  obtain ⟨f, hf, -⟩ := loff_isSome_iff.mp h
  exact List.length_pos_of_mem hf

theorem length_advance (s : HostAccess) (fd : Nat) (size : Except Errno ULong) :
    (s.advance fd size).length = s.files.length := by
  cases size with
  | ok size => exact List.length_map ..
  | error e => rfl

/-- The count, and the three phases of a device. -/
structure InPhase (s : HostAccess) : Prop where
  count : s.device.openCount = s.files.length
  phase : s.device.state = 1 ∧ s.files.length = 1 ∨ s.device.state = 3 ∧ 0 < s.files.length ∨
    (s.device.state = 0 ∨ s.device.state = 2) ∧ s.files.length = 0

theorem InPhase.counted (h : InPhase s) : Counted s := by
  have hc := h.count
  have hp := h.phase
  refine ⟨hc, ?_, ?_, ?_, fun fd hfd => ?_⟩
  · omega
  · omega
  · omega
  · have hpos := length_pos_of_loff hfd
    refine ⟨by omega, ?_⟩
    unfold rabbitshaChrRelease
    rcases hp with ⟨h1, -⟩ | ⟨h3, -⟩ | ⟨-, h0⟩
    · simp [h1]
    · simp [h3]
    · omega

theorem Counted.inPhase (h : Counted s) : InPhase s := by
  have hc := h.count
  have ho := h.isOpen
  have hcl := h.isClosed
  have h1 := h.single
  exact ⟨hc, by omega⟩

theorem InPhase.open_kept (h : InPhase s) (f : Nat × ULong) :
    InPhase ⟨(rabbitshaChrOpen s.device).2,
      match (rabbitshaChrOpen s.device).1 with
      | .ok _ => f :: s.files
      | .error _ => s.files⟩ := by
  have hc := h.count
  have hp := h.phase
  unfold rabbitshaChrOpen
  split
  · exact ⟨by simp [hc], .inl ⟨rfl, by simp only [List.length_cons]; omega⟩⟩
  · split
    · exact ⟨hc, hp⟩
    · split
      · exact ⟨by simp [hc], .inr (.inl ⟨rfl, by simp⟩)⟩
      · split
        · next h3 => exact ⟨by simp [hc], .inr (.inl ⟨h3, by simp⟩)⟩
        · exact ⟨hc, hp⟩

theorem openHostFile_phase (device : RabbitshaDevice) (status : ULong) :
    (openHostFile device status).2.openCount = device.openCount ∧
      ((openHostFile device status).2.state = device.state ∨
        (openHostFile device status).2.state = 3) := by
  unfold openHostFile
  split
  · exact ⟨rfl, .inl rfl⟩
  · exact ⟨rfl, .inr rfl⟩

/-- A name is taken from the only descriptor, in state 1 or 3; a failure leaves state 1. -/
theorem InPhase.ioctlOpen_kept (h : InPhase s) (hfd : (s.loff fd).isSome) (copied : List Byte)
    (status : ULong) :
    InPhase { s with device := (rabbitshaChrIoctlOpen s.device copied status).2 } := by
  have hc := h.count
  have hp := h.phase
  have hpos := length_pos_of_loff hfd
  unfold rabbitshaChrIoctlOpen
  split
  · exact h
  · next hbusy =>
      obtain ⟨hcount, hstate⟩ := openHostFile_phase
        (({ s.device with state := 1 }.fill [0#8]).fill copied) status
      refine ⟨hcount.trans hc, ?_⟩
      show (_ = _ ∧ s.files.length = 1) ∨ (_ = _ ∧ 0 < s.files.length) ∨ _
      rcases hstate with h1 | h3
      · exact .inl ⟨h1, by omega⟩
      · exact .inr (.inl ⟨h3, hpos⟩)

theorem read_kept {device : RabbitshaDevice} (loff size : ULong) (data : List Byte)
    {status : ULong} (count : ULong)
    (hok : device.state = 3 → status = SlBlockStatus.READ_SUCCESS.code) :
    (rabbitshaChrRead device loff size data status count).2.state = device.state ∧
      (rabbitshaChrRead device loff size data status count).2.openCount = device.openCount := by
  unfold rabbitshaChrRead
  split
  · exact ⟨rfl, rfl⟩
  · split
    · next h3 =>
        rw [if_neg (not_not_intro (hok h3))]
        exact ⟨rfl, rfl⟩
    · exact ⟨rfl, rfl⟩

theorem write_kept {device : RabbitshaDevice} (loff size : ULong) (data : List Byte)
    {status : ULong} (hok : device.state = 3 → status = SlBlockStatus.WRITE_SUCCESS.code) :
    (rabbitshaChrWrite device loff size data status).2.state = device.state ∧
      (rabbitshaChrWrite device loff size data status).2.openCount = device.openCount := by
  unfold rabbitshaChrWrite
  split
  · exact ⟨rfl, rfl⟩
  · split
    · next h3 =>
        rw [if_neg (not_not_intro (hok h3))]
        exact ⟨rfl, rfl⟩
    · exact ⟨rfl, rfl⟩

/-- A transfer moves positions only. -/
theorem InPhase.transfer_kept (h : InPhase s) {device : RabbitshaDevice}
    (hd : device.state = s.device.state ∧ device.openCount = s.device.openCount)
    (size : Except Errno ULong) : InPhase ⟨device, s.advance fd size⟩ := by
  have hl := length_advance s fd size
  refine ⟨?_, ?_⟩
  · rw [hd.2, h.count, hl]
  · rw [hd.1, hl]
    exact h.phase

theorem release_openCount (device : RabbitshaDevice) :
    (rabbitshaChrRelease device).2.openCount = device.openCount - 1 := by
  simp only [rabbitshaChrRelease]
  split
  · rfl
  · split
    · split <;> rfl
    · rfl

theorem release_of_naming {device : RabbitshaDevice} (h : device.state = 1) :
    (rabbitshaChrRelease device).2.state = 0 := by
  simp [rabbitshaChrRelease, h]

theorem release_of_open {device : RabbitshaDevice} (h : device.state = 3) :
    (rabbitshaChrRelease device).2.state = if device.openCount = 1 then 2 else 3 := by
  by_cases hone : device.openCount = 1
  · simp [rabbitshaChrRelease, h, hone]
  · have hmore : ¬ device.openCount - 1 = 0 := by omega
    simp [rabbitshaChrRelease, h, hone, hmore]

theorem InPhase.release_kept (h : InPhase s) (hfd : (s.loff fd).isSome) :
    InPhase ⟨(rabbitshaChrRelease s.device).2, s.files.eraseP fun f => f.1 = fd⟩ := by
  have hc := h.count
  have hpos := length_pos_of_loff hfd
  obtain ⟨f, hf, hfd⟩ := loff_isSome_iff.mp hfd
  have hlen : (s.files.eraseP fun f => f.1 = fd).length = s.files.length - 1 :=
    List.length_eraseP_of_mem hf (by simp [hfd])
  refine ⟨?_, ?_⟩
  · rw [release_openCount, hc, hlen]
    omega
  · rw [hlen]
    rcases h.phase with ⟨h1, hone⟩ | ⟨h3, -⟩ | ⟨-, hnone⟩
    · exact .inr (.inr ⟨.inl (release_of_naming h1), by omega⟩)
    · rw [release_of_open h3]
      split
      · exact .inr (.inr ⟨.inr rfl, by omega⟩)
      · exact .inr (.inl ⟨rfl, by omega⟩)
    · omega

/-- **Every call keeps the phases**, as long as no transfer fails. -/
theorem InPhase.next_kept (h : InPhase s) {c : ShaCall} (hok : TransferSucceeds s c)
    (hs : s.next c = some s') : InPhase s' := by
  cases c with
  | openFile fd =>
      simp only [HostAccess.next] at hs
      split at hs
      · cases hs
      · have hk := h.open_kept (fd, 0#32)
        split at hs <;> next hr => cases hs; rw [hr] at hk; exact hk
  | ioctlOpen fd copied status =>
      simp only [HostAccess.next] at hs
      split at hs
      · cases hs
      · next hfd =>
          cases hs
          have hopen : (s.loff fd).isSome := by
            simpa [Option.isSome_iff_ne_none] using fun hn => hfd (.inl hn)
          exact h.ioctlOpen_kept hopen copied status
  | read fd size data status count =>
      simp only [HostAccess.next] at hs
      obtain ⟨loff, -, hs⟩ := Option.bind_eq_some_iff.mp hs
      split at hs
      · cases hs
      · cases hs
        exact h.transfer_kept (read_kept loff size data count hok) _
  | write fd size data status =>
      simp only [HostAccess.next] at hs
      obtain ⟨loff, -, hs⟩ := Option.bind_eq_some_iff.mp hs
      split at hs
      · cases hs
      · cases hs
        exact h.transfer_kept (write_kept loff size data hok) _
  | release fd =>
      simp only [HostAccess.next] at hs
      split at hs
      · cases hs
      · next hfd =>
          cases hs
          exact h.release_kept (by simpa [Option.isSome_iff_ne_none] using hfd)

/-- A transfer that fails leaves the device closed, with the descriptor still open. -/
theorem not_counted_of_failure {c : ShaCall} (hbad : ¬ TransferSucceeds s c)
    (hs : s.next c = some s') : ¬ Counted s' := by
  have hlost : s'.device.state = 0 ∧ 0 < s'.files.length := by
    cases c with
    | read fd size data status count =>
        obtain ⟨h3, hst⟩ := Classical.not_imp.mp hbad
        simp only [HostAccess.next] at hs
        obtain ⟨loff, hfd, hs⟩ := Option.bind_eq_some_iff.mp hs
        split at hs
        · cases hs
        · cases hs
          refine ⟨by simp [rabbitshaChrRead, h3, hst], ?_⟩
          rw [length_advance]
          have hopen : (s.loff fd).isSome := by simp [hfd]
          exact length_pos_of_loff hopen
    | write fd size data status =>
        obtain ⟨h3, hst⟩ := Classical.not_imp.mp hbad
        simp only [HostAccess.next] at hs
        obtain ⟨loff, hfd, hs⟩ := Option.bind_eq_some_iff.mp hs
        split at hs
        · cases hs
        · cases hs
          refine ⟨by simp [rabbitshaChrWrite, h3, hst], ?_⟩
          rw [length_advance]
          have hopen : (s.loff fd).isSome := by simp [hfd]
          exact length_pos_of_loff hopen
    | openFile fd => exact absurd trivial hbad
    | ioctlOpen fd copied status => exact absurd trivial hbad
    | release fd => exact absurd trivial hbad
  intro hc
  have hp := hc.inPhase.phase
  omega

end Step

/-! ## 5. Runs -/

theorem inPhase_new (bufferPhys : ULong) : InPhase (.new bufferPhys) :=
  ⟨rfl, .inr (.inr ⟨.inl rfl, rfl⟩)⟩

/-- **When the count and the state agree with the open descriptors**: in every run, all along,
    exactly if no transfer that reaches the block device fails. -/
theorem counted_iff (bufferPhys : ULong) (calls : List ShaCall) :
    Along HostAccess.next Counted (.new bufferPhys) calls ↔
      Steps HostAccess.next TransferSucceeds (.new bufferPhys) calls :=
  along_iff_steps (fun _ h => h.counted) (fun _ _ _ h hok hs => h.next_kept hok hs)
    (fun _ _ _ _ hbad hs => not_counted_of_failure hbad hs) calls (inPhase_new bufferPhys)

/-- A file is opened and named, a read fails: the descriptor is open, the state 0. -/
theorem read_error_closes :
    ¬ Along HostAccess.next Counted (.new 0x01000000#32)
      [.openFile 3, .ioctlOpen 3 [0x61#8, 0#8] SlBlockStatus.WRITE_SUCCESS.code,
        .read 3 16#32 [] SlBlockStatus.READ_ERROR.code 0#32] := by
  intro h
  have h1 := h.2 _ rfl
  have h2 := h1.2 _ rfl
  have h3 := (h2.2 _ rfl).isOpen
  exact absurd (h3.mpr (by decide)) (by decide)

end Rabbits
