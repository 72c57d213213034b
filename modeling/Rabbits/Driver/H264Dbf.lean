/-
  File:      Rabbits/Driver/H264Dbf.lean
  Subject:   The interrupts of the Linux driver of the deblocking filter (h264dbf_int.c).

  A process registers a descriptor (an index into `irqs`) for a mask of status bits; the service
  routine acknowledges the bits of the device and hands them to the descriptors.

  * `H264Sys` -- the driver's device record and the filter it drives;
  * `h264dbfIntService` -- the service routine, with the loop over the descriptors;
  * `h264dbfIntRegister`, `h264dbfIntUnregister` -- the two calls, with enable and disable.

  The spin lock and the debug messages are left out. `requestIrq` is the result of `request_irq`.
-/
import Rabbits.Dbf.DbfDevice

namespace Rabbits

/-! ## 1. The device record -/

def H264DBF_MAXIRQ : Nat := 2
def H264DBF_INT_ACK : Nat := 0x39004
def H264DBF_INT_STATUS : Nat := 0x39008
def H264DBF_INT_ENABLE : Nat := 0x3900C
def QEMU_INT_DBF_MASK : BitVec 32 := 0x00008#32

def STATUS_IRQ_INIT : BitVec 32 := 0x1#32
def STATUS_IRQ_QUEUED : BitVec 32 := 0x2#32
def STATUS_IRQ_OVERFLOW : BitVec 32 := 0x3#32

/-- `struct h264dbf_int`; of its wait queue, the processes asleep in it. -/
structure H264DbfInt where
  type : BitVec 32
  status : BitVec 32
  pending : BitVec 32
  waitQueue : List Nat
  deriving DecidableEq

/-- `struct h264dbf_device`, the filter behind `base_addr`, whether the handler is installed, and
    the interrupt mask of the wrapper's registers. -/
structure H264Sys where
  dbf : DbfDevice
  irqEn : Bool
  nbIrqEn : Int
  irqs : Nat → H264DbfInt
  handler : Bool
  systemcIntEnable : BitVec 32

/-! ## 2. Accesses to the filter's registers -/

/-- `writeb`: one byte written by the bus. -/
def DbfDevice.writeb (d : DbfDevice) (ofs : Nat) (v : Byte) : DbfDevice :=
  match (setData ofs v).run d with
  | some (_, d') => d'
  | none => d

/-- `writel`: four bytes, the lowest first. -/
def DbfDevice.writel (d : DbfDevice) (ofs : Nat) (v : BitVec 32) : DbfDevice :=
  (List.range 4).foldl (fun d i => d.writeb (ofs + i) (v.extractLsb' (8 * i) 8)) d

def DbfDevice.readb (d : DbfDevice) (ofs : Nat) : Byte := d.mData ofs

def DbfDevice.readl (d : DbfDevice) (ofs : Nat) : BitVec 32 :=
  d.readb (ofs + 3) ++ d.readb (ofs + 2) ++ d.readb (ofs + 1) ++ d.readb ofs

/-! ## 3. The service routine -/

/-- What the loop does to a descriptor some of whose bits are up. `wake_up_interruptible` wakes
    every process in the queue. -/
def H264DbfInt.queue (d : H264DbfInt) (stat : BitVec 32) : H264DbfInt :=
  if stat &&& d.pending ≠ 0#32 then
    { d with status := STATUS_IRQ_OVERFLOW, waitQueue := [] }
  else
    { d with status := STATUS_IRQ_QUEUED, pending := d.pending ||| stat, waitQueue := [] }

/-- The loop from descriptor `i` on, `n` of them at most: the descriptors, and those whose queue
    is woken. -/
def serviceLoop (irqs : Nat → H264DbfInt) : Nat → Nat → BitVec 32 → (Nat → H264DbfInt) × List Nat
  | 0, _, _ => (irqs, [])
  | n + 1, i, status =>
      let stat := status &&& (irqs i).type
      let woken := if stat ≠ 0#32 then [i] else []
      let irqs := if stat ≠ 0#32 then Function.update irqs i ((irqs i).queue stat) else irqs
      let status := status &&& ~~~stat
      if status = 0#32 then (irqs, woken)
      else
        let r := serviceLoop irqs n (i + 1) status
        (r.1, woken ++ r.2)

/-- `h264dbf_int_service`, with the descriptors whose queue is woken. -/
def h264dbfIntService (s : H264Sys) : H264Sys × List Nat :=
  let status := s.dbf.readb H264DBF_INT_STATUS
  if status ≤ 0x80#8 then (s, [])
  else
    let status := status &&& 0x7F#8
    let dbf := s.dbf.writeb H264DBF_INT_ACK status
    let r := serviceLoop s.irqs s.nbIrqEn.toNat 0 (status.setWidth 32)
    ({ s with dbf := dbf, irqs := r.1 }, r.2)

/-! ## 4. Register and unregister -/

/-- `h264dbf_int_enable`. -/
def h264dbfIntEnable (s : H264Sys) (requestIrq : Bool) : H264Sys :=
  if s.irqEn then { s with nbIrqEn := s.nbIrqEn + 1 }
  else
    let s :=
      { s with
        dbf := s.dbf.writeb H264DBF_INT_ACK 0x7F#8
        irqs := fun i => if i < H264DBF_MAXIRQ then ⟨0#32, 0#32, 0#32, []⟩ else s.irqs i }
    if requestIrq then
      { s with
        handler := true
        irqEn := true
        systemcIntEnable := s.systemcIntEnable ||| QEMU_INT_DBF_MASK
        nbIrqEn := s.nbIrqEn + 1 }
    else s

/-- `h264dbf_disable_device_irq`. -/
def h264dbfDisableDeviceIrq (s : H264Sys) : H264Sys :=
  { s with
    dbf := s.dbf.writel H264DBF_INT_ENABLE 0#32
    systemcIntEnable := s.systemcIntEnable &&& ~~~QEMU_INT_DBF_MASK }

/-- `h264dbf_int_disable`. -/
def h264dbfIntDisable (s : H264Sys) : H264Sys :=
  let s := { s with nbIrqEn := s.nbIrqEn - 1 }
  if s.nbIrqEn = 0 then { h264dbfDisableDeviceIrq s with handler := false, irqEn := false }
  else s

/-- The check of `id`; `id` is unsigned. -/
def invalidId (id : BitVec 32) : Bool := id.toNat > H264DBF_MAXIRQ

/-- `h264dbf_int_register`; `none` is `-EINVAL`. The result of enable is not looked at. -/
def h264dbfIntRegister (s : H264Sys) (id type : BitVec 32) (requestIrq : Bool) : Option H264Sys :=
  if invalidId id then none
  else
    let s := h264dbfIntEnable s requestIrq
    let desc := s.irqs id.toNat
    let s :=
      { s with
        irqs := Function.update s.irqs id.toNat { desc with type := type, status := STATUS_IRQ_INIT } }
    let dbfIntrEnabled := s.dbf.readl H264DBF_INT_ENABLE ||| type
    some { s with dbf := s.dbf.writel H264DBF_INT_ENABLE dbfIntrEnabled }

/-- `h264dbf_int_unregister`; `none` is `-EINVAL`. -/
def h264dbfIntUnregister (s : H264Sys) (id : BitVec 32) : Option H264Sys :=
  if invalidId id then none
  else
    let desc := s.irqs id.toNat
    let dbfIntrEnabled := s.dbf.readl H264DBF_INT_ENABLE &&& ~~~desc.type
    let s :=
      { s with
        dbf := s.dbf.writel H264DBF_INT_ENABLE dbfIntrEnabled
        irqs := Function.update s.irqs id.toNat { desc with type := 0#32 } }
    some (h264dbfIntDisable s)

/-- The end of `h264dbf_int_wait`: the process takes what is pending. -/
def h264dbfIntTake (s : H264Sys) (id : BitVec 32) : H264Sys × BitVec 32 :=
  let desc := s.irqs id.toNat
  ({ s with irqs := Function.update s.irqs id.toNat { desc with pending := 0#32 } }, desc.pending)

end Rabbits
