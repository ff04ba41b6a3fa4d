import LinuxMaxxing.Lib.Transition
import LinuxMaxxing.Lib.ByteMemory

/-!
# The virt-io Toy Device

The device model of `virt-io/vmm.c` behind its MMIO window, and the part of the `KVM_RUN`
loop that reaches it.

- every access the device makes to its 256-byte buffer or to guest RAM is recorded, with
  the region it goes to;
- every interrupt ioctl is recorded; its result is a choice of the environment, and a
  failing `KVM_SIGNAL_MSI` ends the VMM;
- the guest changes its own RAM between exits as it likes.

The results over this model are in `Confinement` (where the accesses go), `Refinement`
(what a register write means) and `StaleBytes` (what the device learns from an exit).
-/

namespace LinuxMaxxing.VirtIo

open LinuxMaxxing.Lib

/-! ## Constants of `device.h` -/

/-- `DEVICE_MMIO_BASE` -/
def deviceMmioBase : Nat := 0x10000000

/-- Register offsets; `REG_BUFFER` begins the readback window into the device buffer. -/
def regCommand : BitVec 32 := 0x00
def regStatus : BitVec 32 := 0x04
def regDmaGpa : BitVec 32 := 0x08
def regResult : BitVec 32 := 0x10
def regIrqAck : BitVec 32 := 0x14
def regBuffer : BitVec 32 := 0x18

/-- `DEVICE_PATTERN_BASE` -/
def devicePatternBase : Nat := 0x40

/-- Device commands. -/
def cmdIrqOnly : BitVec 32 := 1
def cmdDmaToDevice : BitVec 32 := 2
def cmdDmaFromDevice : BitVec 32 := 3
def cmdMsiOnly : BitVec 32 := 4

/-- Status bits. -/
def statusBusy : BitVec 32 := 0x01
def statusDone : BitVec 32 := 0x02
def statusError : BitVec 32 := 0x04

/-- `DEVICE_GSI` and `MSI_VECTOR` -/
def deviceGsi : BitVec 32 := 4
def msiVector : BitVec 32 := 0x41

/-- `DEVICE_BUFFER_SIZE` and `DMA_XFER_SIZE` -/
def deviceBufferSize : Nat := 256
def dmaXferSize : BitVec 32 := 64

/-- `DEVICE_MMIO_SIZE` -/
def deviceMmioSize : Nat := regBuffer.toNat + deviceBufferSize

/-- Offsets of the registers the guest writes. -/
def commandOffset : Fin deviceMmioSize := ⟨0x00, by decide⟩
def statusOffset : Fin deviceMmioSize := ⟨0x04, by decide⟩
def dmaGpaOffset : Fin deviceMmioSize := ⟨0x08, by decide⟩
def irqAckOffset : Fin deviceMmioSize := ⟨0x14, by decide⟩

/-! ## State -/

/-- `struct toy_device`. The buffer is the memory from its first byte on: index 256 and
    above is what lies behind the structure. -/
structure ToyDevice where
  command : BitVec 32
  status : BitVec 32
  dmaGpa : BitVec 32
  result : BitVec 32
  buffer : Memory

/-- The interrupt ioctls of the device. -/
inductive Ioctl where
  /-- `KVM_IRQ_LINE` -/
  | irqLine (irq level : BitVec 32)
  /-- `KVM_SIGNAL_MSI` -/
  | signalMsi (addressLo addressHi data : BitVec 32)
  deriving DecidableEq, Repr

/-- The two memories the device indexes. -/
inductive Region where
  | buffer
  | guest
  deriving DecidableEq, Repr

/-- An access of the device to one of them. -/
structure Touch where
  region : Region
  access : Access
  deriving DecidableEq, Repr

/-- What the environment decides: the size of guest RAM, and the result of the `n`-th
    interrupt ioctl. -/
structure Env where
  guestMemSize : BitVec 64
  ioctl : Nat → Int

/-- The `n`-th ioctl of the device succeeds: `KVM_IRQ_LINE` returns 0, and `KVM_SIGNAL_MSI` the
    number of LAPICs that took the message. -/
def Env.succeeds (env : Env) (n : Nat) : Ioctl → Bool
  | .irqLine _ _ => 0 ≤ env.ioctl n
  | .signalMsi _ _ _ => 0 < env.ioctl n

/-- The VMM between two exits. -/
structure Vmm where
  dev : ToyDevice
  guest : Memory
  ioctls : List Ioctl
  touched : List Touch
  /-- `exit(1)` was called -/
  exited : Bool

namespace Vmm

/-- The device has accessed `len` bytes of a region. -/
def touch (v : Vmm) (region : Region) (dir : Direction) (addr len : Nat) : Vmm :=
  { v with touched := v.touched ++ [⟨region, ⟨dir, addr, len⟩⟩] }

def setStatus (v : Vmm) (status : BitVec 32) : Vmm :=
  { v with dev := { v.dev with status := status } }

/-- Every interrupt ioctl so far has succeeded. -/
def Succeeded (env : Env) (v : Vmm) : Prop :=
  ∀ k i, v.ioctls[k]? = some i → env.succeeds k i = true

end Vmm

/-! ## The device -/

/-- `memcpy` between two memories. -/
def memcpy (dst : Memory) (dstAddr : Nat) (src : Memory) (srcAddr len : Nat) : Memory :=
  fun i => if dstAddr ≤ i ∧ i < dstAddr + len then src (srcAddr + (i - dstAddr)) else dst i

/-- `bytesum`, in 32-bit arithmetic. -/
def bytesum (data : Memory) : Nat → BitVec 32
  | 0 => 0
  | len + 1 => bytesum data len + BitVec.ofNat 32 (data len).toNat

/-- `refill_device_pattern` on a buffer followed by `behind`. -/
def refillDevicePattern (behind : Memory) : Memory :=
  fun i => if i < deviceBufferSize then UInt8.ofNat (devicePatternBase + i) else behind i

/-- `device_dma_transfer`; the flag says whether it returns 0. Neither pointer is null:
    they are the VMM's own device and its mapped guest RAM. -/
def deviceDmaTransfer (env : Env) (v : Vmm) (dir : BitVec 32) (gpa : BitVec 64)
    (len : BitVec 32) : Bool × Vmm :=
  if len = 0 ∨ deviceBufferSize < len.toNat then (false, v)
  else if gpa + len.setWidth 64 < gpa ∨ env.guestMemSize < gpa + len.setWidth 64 then (false, v)
  else if dir = cmdDmaToDevice then
    let v := (v.touch .guest .read gpa.toNat len.toNat).touch .buffer .write 0 len.toNat
    let buffer := memcpy v.dev.buffer 0 v.guest gpa.toNat len.toNat
    let v := v.touch .buffer .read 0 len.toNat
    (true, { v with dev := { v.dev with buffer := buffer, result := bytesum buffer len.toNat } })
  else if dir = cmdDmaFromDevice then
    let v := (v.touch .buffer .read 0 len.toNat).touch .guest .write gpa.toNat len.toNat
    let guest := memcpy v.guest gpa.toNat v.dev.buffer 0 len.toNat
    let v := v.touch .buffer .read 0 len.toNat
    (true, { v with
      guest := guest
      dev := { v.dev with result := bytesum v.dev.buffer len.toNat } })
  else (false, v)

/-- `device_raise_legacy_irq`: assert then deassert; a failing ioctl is only reported. -/
def deviceRaiseLegacyIrq (v : Vmm) : Vmm :=
  { v with ioctls := v.ioctls ++ [.irqLine deviceGsi 1, .irqLine deviceGsi 0] }

/-- `device_signal_msi`: one MSI message to LAPIC 0; a delivery that fails ends the VMM. -/
def deviceSignalMsi (env : Env) (v : Vmm) : Vmm :=
  { v with
    ioctls := v.ioctls ++ [.signalMsi 0xfee00000 0 msiVector]
    exited := env.ioctl v.ioctls.length ≤ 0 }

/-- The `switch` of `device_execute_command`; the flag says whether `ret` is 0. -/
def dispatchCommand (env : Env) (v : Vmm) : Bool × Vmm :=
  if v.dev.command = cmdIrqOnly ∨ v.dev.command = cmdMsiOnly then (true, v)
  else if v.dev.command = cmdDmaToDevice ∨ v.dev.command = cmdDmaFromDevice then
    deviceDmaTransfer env v v.dev.command (v.dev.dmaGpa.setWidth 64) dmaXferSize
  else (false, v)

/-- `device_execute_command` -/
def deviceExecuteCommand (env : Env) (v : Vmm) : Vmm :=
  let (ok, v) := dispatchCommand env (v.setStatus statusBusy)
  if !ok then v.setStatus statusError
  else
    let v := v.setStatus statusDone
    if v.dev.command = cmdMsiOnly then deviceSignalMsi env v else deviceRaiseLegacyIrq v

/-- `device_mmio_read`: the device and the four bytes it stores in `data`. -/
def deviceMmioRead (v : Vmm) (offset : BitVec 32) : Vmm × Nat :=
  if offset = regCommand then (v, v.dev.command.toNat)
  else if offset = regStatus then (v, v.dev.status.toNat)
  else if offset = regDmaGpa then (v, v.dev.dmaGpa.toNat)
  else if offset = regResult then (v, v.dev.result.toNat)
  else if regBuffer ≤ offset ∧ offset.toNat < regBuffer.toNat + deviceBufferSize then
    let index := (offset - regBuffer).toNat
    (v.touch .buffer .read index 4, v.dev.buffer.loadLe index 4)
  else (v, 0)

/-- `device_mmio_write`: the value is four bytes of `data`, whatever the access length. -/
def deviceMmioWrite (env : Env) (v : Vmm) (offset : BitVec 32) (data : Memory) : Vmm :=
  let value := BitVec.ofNat 32 (data.loadLe 0 4)
  if offset = regDmaGpa then { v with dev := { v.dev with dmaGpa := value } }
  else if offset = regCommand then
    deviceExecuteCommand env { v with dev := { v.dev with command := value } }
  else if offset = regIrqAck then v.setStatus (v.dev.status &&& ~~~statusDone)
  else v

/-! ## The exit loop -/

/-- `run->mmio`: KVM reports lengths from 1 to 8, and `data` holds the bytes written in
    its first `len` places. -/
structure Mmio where
  physAddr : BitVec 64
  data : Memory
  len : Nat
  isWrite : Bool
  len_pos : 0 < len
  len_le : len ≤ 8

/-- A byte and a register are widths that an access may have. -/
theorem byte_pos : 0 < 1 := by decide

theorem byte_le : 1 ≤ 8 := by decide

theorem register_pos : 0 < 4 := by decide

theorem register_le : 4 ≤ 8 := by decide

namespace Mmio

/-- The access lies in the device window. -/
def InWindow (m : Mmio) : Prop :=
  deviceMmioBase ≤ m.physAddr.toNat ∧ m.physAddr.toNat < deviceMmioBase + deviceMmioSize

instance (m : Mmio) : Decidable m.InWindow := inferInstanceAs (Decidable (_ ∧ _))

/-- `(uint32_t)(base - DEVICE_MMIO_BASE)` -/
def offset (m : Mmio) : BitVec 32 := (m.physAddr - BitVec.ofNat 64 deviceMmioBase).setWidth 32

/-- Inside the window the offset is the distance from its base. -/
theorem InWindow.offset_toNat {m : Mmio} (h : m.InWindow) :
    m.offset.toNat = m.physAddr.toNat - deviceMmioBase := by
  obtain ⟨hlo, hhi⟩ := h
  have hbase : (BitVec.ofNat 64 deviceMmioBase).toNat = deviceMmioBase := rfl
  have hsub : (m.physAddr - BitVec.ofNat 64 deviceMmioBase).toNat =
      m.physAddr.toNat - deviceMmioBase := by
    rw [BitVec.toNat_sub_of_le (BitVec.le_def.mpr (hbase.trans_le hlo)), hbase]
  have hsize : deviceMmioBase + deviceMmioSize < 2 ^ 32 := by decide
  rw [Mmio.offset, BitVec.toNat_setWidth, hsub, Nat.mod_eq_of_lt (by omega)]

end Mmio

/-- What the guest does: it stores into its RAM, or it exits with an MMIO access. -/
inductive GuestAct where
  | store (addr : Nat) (bytes : List UInt8)
  | mmio (m : Mmio)

/-- `KVM_EXIT_MMIO` in the loop of `main`. -/
def mmioExit (env : Env) (v : Vmm) (m : Mmio) : Vmm :=
  if m.InWindow then
    if m.isWrite then deviceMmioWrite env v m.offset m.data
    else (deviceMmioRead v m.offset).1
  else v

def step (env : Env) (v : Vmm) (a : GuestAct) : Option Vmm :=
  if v.exited then none
  else match a with
    | .store addr bytes => some { v with guest := v.guest.storeBytes addr bytes }
    | .mmio m => some (mmioExit env v m)

/-- The VMM when the guest starts: any image in guest RAM, any bytes behind the device. -/
def boot (guest behind : Memory) : Vmm where
  dev := ⟨0, 0, 0, 0, refillDevicePattern behind⟩
  guest := guest
  ioctls := []
  touched := []
  exited := false

/-- The VMM as a transition system. -/
def vmm (env : Env) : System Vmm GuestAct where
  init v := ∃ guest behind, v = boot guest behind
  step := step env

/-- `GUEST_MEM_SIZE` bytes of guest RAM, and ioctls that succeed. -/
def labEnv : Env := ⟨0x20000, fun _ => 1⟩

end LinuxMaxxing.VirtIo
