import LinuxMaxxing.Lib.ByteMemory

/-!
# Virtio-mmio Transport: Constants and Device State

Register offsets, status and feature bits, guest memory layout and split-ring
offsets of the experiment's `virtio.h`, and the device structures of
`rng_virtqueue.h`.

Registers, features and queue fields keep the widths of the source: `uint32_t`
is `BitVec 32`, the ring indices are `BitVec 16` and wrap, the queue addresses
are `BitVec 64`.
-/

namespace LinuxMaxxing.Virtio

/-! ## Registers -/

def virtioMmioBase : Nat := 0x10000000
def virtioMmioSize : Nat := 0x1000

/-- The registers of the transport, readable, writable or both. -/
inductive Register where
  | magicValue
  | version
  | deviceId
  | vendorId
  | deviceFeatures
  | deviceFeaturesSel
  | driverFeatures
  | driverFeaturesSel
  | queueSel
  | queueSizeMax
  | queueSize
  | queueReady
  | queueNotify
  | interruptStatus
  | interruptAck
  | status
  | queueDescLow
  | queueDescHigh
  | queueDriverLow
  | queueDriverHigh
  | queueDeviceLow
  | queueDeviceHigh
  deriving DecidableEq, Repr

/-- The register at an offset; the `default` label of the source's switches is
    `none`. -/
def Register.ofOffset (offset : BitVec 32) : Option Register :=
  match offset.toNat with
  | 0x000 => some .magicValue
  | 0x004 => some .version
  | 0x008 => some .deviceId
  | 0x00c => some .vendorId
  | 0x010 => some .deviceFeatures
  | 0x014 => some .deviceFeaturesSel
  | 0x020 => some .driverFeatures
  | 0x024 => some .driverFeaturesSel
  | 0x030 => some .queueSel
  | 0x034 => some .queueSizeMax
  | 0x038 => some .queueSize
  | 0x044 => some .queueReady
  | 0x050 => some .queueNotify
  | 0x060 => some .interruptStatus
  | 0x064 => some .interruptAck
  | 0x070 => some .status
  | 0x080 => some .queueDescLow
  | 0x084 => some .queueDescHigh
  | 0x090 => some .queueDriverLow
  | 0x094 => some .queueDriverHigh
  | 0x0a0 => some .queueDeviceLow
  | 0x0a4 => some .queueDeviceHigh
  | _ => none

def virtioMmioQueueNotify : BitVec 32 := 0x050#32

/-! ## Identity, features and status -/

def virtioMagicValue : BitVec 32 := 0x74726976#32
def virtioVersionModern : BitVec 32 := 2#32
def virtioDeviceIdEntropy : BitVec 32 := 4#32
def virtioExperimentVendorId : BitVec 32 := 0x4f4f5053#32

/-- `VIRTIO_F_VERSION_1` is bit 0 of feature word 1. -/
def virtioFVersion1Word : BitVec 32 := 1#32
def virtioFVersion1Mask : BitVec 32 := 1#32

def virtioStatusAcknowledge : BitVec 32 := 0x01#32
def virtioStatusDriver : BitVec 32 := 0x02#32
def virtioStatusFeaturesOk : BitVec 32 := 0x08#32
def virtioStatusDriverOk : BitVec 32 := 0x04#32
def virtioMmioIntVring : BitVec 32 := 0x01#32

def virtioStatusFeaturesAccepted : BitVec 32 :=
  virtioStatusAcknowledge ||| virtioStatusDriver ||| virtioStatusFeaturesOk

def virtioStatusOperational : BitVec 32 :=
  virtioStatusFeaturesAccepted ||| virtioStatusDriverOk

/-! ## Guest memory and split-ring layout -/

def virtioGuestMemSize : Nat := 0x20000
def virtqDescGpa : Nat := 0x4000
def virtqAvailGpa : Nat := 0x5000
def virtqUsedGpa : Nat := 0x6000
def virtioRngBufferGpa : Nat := 0x7000
def virtioRngBufferStride : Nat := 0x100
def virtioRngRequestCount : BitVec 16 := 5#16
def virtioTotalRequestCount : BitVec 16 := 6#16
def virtioRngRequestLen : Nat := 32
def virtioRngQueueIndex : BitVec 32 := 0#32
def virtqSize : Nat := 8
def virtqDescFWrite : BitVec 16 := 2#16
def virtqDescSize : Nat := 16
def virtqUsedElemSize : Nat := 8

def virtqDescAddrOffset : Nat := 0
def virtqDescLenOffset : Nat := 8
def virtqDescFlagsOffset : Nat := 12
def virtqDescNextOffset : Nat := 14
def virtqAvailIdxOffset : Nat := 2
def virtqAvailRingOffset : Nat := 4
def virtqUsedIdxOffset : Nat := 2
def virtqUsedRingOffset : Nat := 4
def virtqUsedElemIdOffset : Nat := 0
def virtqUsedElemLenOffset : Nat := 4

/-- `sizeof(struct virtq_used)`: flags, idx and eight elements. -/
def virtqUsedBytes : Nat := 4 + virtqSize * virtqUsedElemSize

/-- One descriptor: a guest buffer and its direction. -/
structure VirtqDesc where
  addr : BitVec 64
  len : BitVec 32
  flags : BitVec 16
  next : BitVec 16
  deriving DecidableEq, Repr

/-! ## Device state -/

/-- `struct virtio_queue`; every address is a guest physical address. -/
structure VirtioQueue where
  size : BitVec 32 := 0
  ready : BitVec 32 := 0
  lastAvailIdx : BitVec 16 := 0
  descAddr : BitVec 64 := 0
  driverAddr : BitVec 64 := 0
  deviceAddr : BitVec 64 := 0
  deriving DecidableEq, Repr

/-- `struct virtio_mmio_device`; the two accepted feature words are
    `driverFeatures0` and `driverFeatures1`. -/
structure VirtioMmioDevice where
  deviceFeaturesSel : BitVec 32 := 0
  driverFeaturesSel : BitVec 32 := 0
  driverFeatures0 : BitVec 32 := 0
  driverFeatures1 : BitVec 32 := 0
  status : BitVec 32 := 0
  interruptStatus : BitVec 32 := 0
  queueSel : BitVec 32 := 0
  queue : VirtioQueue := {}
  deriving DecidableEq, Repr

/-- The fixed layout of the controlled guest. -/
structure VirtioQueue.FixedLayout (q : VirtioQueue) : Prop where
  size : q.size.toNat = virtqSize
  desc : q.descAddr.toNat = virtqDescGpa
  driver : q.driverAddr.toNat = virtqAvailGpa
  device : q.deviceAddr.toNat = virtqUsedGpa

instance (q : VirtioQueue) : Decidable q.FixedLayout :=
  decidable_of_iff (q.size.toNat = virtqSize ∧ q.descAddr.toNat = virtqDescGpa ∧
      q.driverAddr.toNat = virtqAvailGpa ∧ q.deviceAddr.toNat = virtqUsedGpa)
    ⟨fun ⟨a, b, c, d⟩ => ⟨a, b, c, d⟩, fun ⟨a, b, c, d⟩ => ⟨a, b, c, d⟩⟩

/-- A ready queue has the fixed layout. -/
def VirtioQueue.ReadyFixed (q : VirtioQueue) : Prop :=
  q.ready ≠ 0 → q.FixedLayout

instance (q : VirtioQueue) : Decidable q.ReadyFixed :=
  inferInstanceAs (Decidable (_ → _))

end LinuxMaxxing.Virtio
