import LinuxMaxxing.Lib.BitMask
import LinuxMaxxing.Virtio.ProcessQueue

/-!
# The Register File

`read_register` and `write_register` of `vmm.c`: the complete readable and
writable side of the transport.

- `readRegister`, `writeRegister`: the two switches;
- `RegisterInv`: the handshake and the queue layout the backend relies on;
- `transport`: any sequence of register writes, where a QueueNotify write runs
  `process_queue` step by step next to the guest.
-/

namespace LinuxMaxxing.Virtio

open LinuxMaxxing.Lib

/-! ## Reads -/

/-- `read_register`: the value read, or `none` for the -1 of a write-only or
    unimplemented register. -/
def readRegister (dev : VirtioMmioDevice) (offset : BitVec 32) : Option (BitVec 32) :=
  match Register.ofOffset offset with
  | some .magicValue => some virtioMagicValue
  | some .version => some virtioVersionModern
  | some .deviceId => some virtioDeviceIdEntropy
  | some .vendorId => some virtioExperimentVendorId
  | some .deviceFeatures =>
    some (if dev.deviceFeaturesSel = virtioFVersion1Word then virtioFVersion1Mask else 0)
  | some .status => some dev.status
  | some .queueSizeMax =>
    some (if dev.queueSel = virtioRngQueueIndex then BitVec.ofNat 32 virtqSize else 0)
  | some .queueReady => some (if dev.queueSel = virtioRngQueueIndex then dev.queue.ready else 0)
  | some .interruptStatus => some dev.interruptStatus
  | _ => none

/-! ## Writes -/

/-- How `write_register` ends: with the device and its result, or in the call of
    `process_queue` on the unchanged device. -/
inductive RegisterWrite where
  | done (dev : VirtioMmioDevice) (result : Int)
  | processQueue
  deriving DecidableEq, Repr

/-- The write takes effect. -/
def RegisterWrite.accept (dev : VirtioMmioDevice) : RegisterWrite := .done dev 0

/-- The write is refused. -/
def RegisterWrite.refuse (dev : VirtioMmioDevice) : RegisterWrite := .done dev (-1)

/-- Replace the low word of a queue address. -/
def setLow (addr : BitVec 64) (value : BitVec 32) : BitVec 64 :=
  (addr &&& 0xffffffff00000000#64) ||| value.setWidth 64

/-- Replace the high word of a queue address. -/
def setHigh (addr : BitVec 64) (value : BitVec 32) : BitVec 64 :=
  (addr &&& 0x00000000ffffffff#64) ||| (value.setWidth 64 <<< 32)

/-- The queue registers answer for queue 0, and only until it is ready. -/
def configureQueue (dev : VirtioMmioDevice) (update : VirtioQueue → VirtioQueue) :
    RegisterWrite :=
  if dev.queueSel ≠ virtioRngQueueIndex ∨ dev.queue.ready ≠ 0 then .refuse dev
  else .accept { dev with queue := update dev.queue }

/-- `VIRTIO_MMIO_QUEUE_SIZE`: only the full size is accepted. -/
def writeQueueSize (dev : VirtioMmioDevice) (value : BitVec 32) : RegisterWrite :=
  if dev.queueSel ≠ virtioRngQueueIndex ∨ dev.queue.ready ≠ 0 ∨ value.toNat ≠ virtqSize then
    .refuse dev
  else .accept { dev with queue := { dev.queue with size := value } }

/-- `VIRTIO_MMIO_QUEUE_READY` -/
def writeQueueReady (dev : VirtioMmioDevice) (value : BitVec 32) : RegisterWrite :=
  if dev.queueSel ≠ virtioRngQueueIndex ∨ 1 < value.toNat then .refuse dev
  else if value = 0 then .accept { dev with queue := { dev.queue with ready := 0 } }
  else if ¬ dev.queue.FixedLayout then .refuse dev
  else .accept { dev with queue := { dev.queue with ready := 1 } }

/-- Writing 0 to the status register resets the device, field by field. -/
def resetDevice (dev : VirtioMmioDevice) : VirtioMmioDevice :=
  { dev with
    status := 0
    deviceFeaturesSel := 0
    driverFeaturesSel := 0
    driverFeatures0 := 0
    driverFeatures1 := 0
    interruptStatus := 0
    queueSel := 0
    queue :=
      { dev.queue with
        size := 0
        ready := 0
        lastAvailIdx := 0
        descAddr := 0
        driverAddr := 0
        deviceAddr := 0 } }

/-- The driver sets FEATURES_OK without the handshake bits or with features other
    than VERSION_1. -/
def featuresRejected (dev : VirtioMmioDevice) (value : BitVec 32) : Prop :=
  value &&& (virtioStatusAcknowledge ||| virtioStatusDriver) ≠
      virtioStatusAcknowledge ||| virtioStatusDriver ∨
    dev.driverFeatures0 ≠ 0 ∨ dev.driverFeatures1 ≠ virtioFVersion1Mask

instance (dev : VirtioMmioDevice) (value : BitVec 32) : Decidable (featuresRejected dev value) :=
  inferInstanceAs (Decidable (_ ∨ _))

/-- The status the device takes over; a rejected FEATURES_OK is left out. -/
def acceptedStatus (dev : VirtioMmioDevice) (value : BitVec 32) : BitVec 32 :=
  if (value &&& virtioStatusFeaturesOk ≠ 0 ∧ dev.status &&& virtioStatusFeaturesOk = 0) ∧
      featuresRejected dev value then
    value &&& ~~~virtioStatusFeaturesOk
  else value

/-- `VIRTIO_MMIO_STATUS` -/
def writeStatus (dev : VirtioMmioDevice) (value : BitVec 32) : RegisterWrite :=
  if value = 0 then .accept (resetDevice dev)
  else if value &&& ~~~virtioStatusOperational ≠ 0 ∨ value &&& dev.status ≠ dev.status then
    .refuse dev
  else if (value &&& virtioStatusDriverOk ≠ 0 ∧ dev.status &&& virtioStatusDriverOk = 0) ∧
      (dev.status &&& virtioStatusFeaturesOk = 0 ∨ dev.queue.ready = 0 ∨
        ¬ dev.queue.FixedLayout) then
    .refuse dev
  else .accept { dev with status := acceptedStatus dev value }

/-- `VIRTIO_MMIO_DRIVER_FEATURES`: the selected word, until FEATURES_OK. -/
def writeDriverFeatures (dev : VirtioMmioDevice) (value : BitVec 32) : RegisterWrite :=
  if dev.status &&& virtioStatusFeaturesOk ≠ 0 ∨ 2 ≤ dev.driverFeaturesSel.toNat then
    .refuse dev
  else if dev.driverFeaturesSel = 0 then .accept { dev with driverFeatures0 := value }
  else .accept { dev with driverFeatures1 := value }

/-- `write_register` -/
def writeRegister (dev : VirtioMmioDevice) (offset value : BitVec 32) : RegisterWrite :=
  match Register.ofOffset offset with
  | some .deviceFeaturesSel => .accept { dev with deviceFeaturesSel := value }
  | some .driverFeaturesSel =>
    if dev.status &&& virtioStatusFeaturesOk ≠ 0 then .refuse dev
    else .accept { dev with driverFeaturesSel := value }
  | some .driverFeatures => writeDriverFeatures dev value
  | some .queueSel => .accept { dev with queueSel := value }
  | some .queueSize => writeQueueSize dev value
  | some .queueDescLow =>
    configureQueue dev fun q => { q with descAddr := setLow q.descAddr value }
  | some .queueDescHigh =>
    configureQueue dev fun q => { q with descAddr := setHigh q.descAddr value }
  | some .queueDriverLow =>
    configureQueue dev fun q => { q with driverAddr := setLow q.driverAddr value }
  | some .queueDriverHigh =>
    configureQueue dev fun q => { q with driverAddr := setHigh q.driverAddr value }
  | some .queueDeviceLow =>
    configureQueue dev fun q => { q with deviceAddr := setLow q.deviceAddr value }
  | some .queueDeviceHigh =>
    configureQueue dev fun q => { q with deviceAddr := setHigh q.deviceAddr value }
  | some .queueReady => writeQueueReady dev value
  | some .queueNotify =>
    if value ≠ virtioRngQueueIndex ∨ dev.status ≠ virtioStatusOperational ∨
        dev.queue.ready = 0 then
      .refuse dev
    else .processQueue
  | some .interruptAck =>
    if value &&& ~~~virtioMmioIntVring ≠ 0 then .refuse dev
    else .accept { dev with interruptStatus := dev.interruptStatus &&& ~~~value }
  | some .status => writeStatus dev value
  -- the registers that can only be read, and every other offset
  | _ => .refuse dev

/-! ## The register invariant -/

/-- What every sequence of register writes keeps. -/
structure RegisterInv (dev : VirtioMmioDevice) : Prop where
  /-- only the four supported bits are ever set -/
  supported : dev.status &&& ~~~virtioStatusOperational = 0
  /-- FEATURES_OK stands for the completed negotiation of VERSION_1 -/
  featuresOk : dev.status &&& virtioStatusFeaturesOk ≠ 0 →
    dev.status &&& (virtioStatusAcknowledge ||| virtioStatusDriver) =
      virtioStatusAcknowledge ||| virtioStatusDriver ∧
    dev.driverFeatures0 = 0 ∧ dev.driverFeatures1 = virtioFVersion1Mask
  driverOk : dev.status &&& virtioStatusDriverOk ≠ 0 → dev.status &&& virtioStatusFeaturesOk ≠ 0
  /-- a ready queue has the fixed layout -/
  readyFixed : dev.queue.ReadyFixed

theorem RegisterInv.initial : RegisterInv {} :=
  ⟨by decide, by decide, by decide, by decide⟩

/-- Fields outside status, features and queue do not matter to the invariant. -/
theorem RegisterInv.congr {dev dev' : VirtioMmioDevice} (h : RegisterInv dev)
    (hstatus : dev'.status = dev.status) (h0 : dev'.driverFeatures0 = dev.driverFeatures0)
    (h1 : dev'.driverFeatures1 = dev.driverFeatures1) (hq : dev'.queue.ReadyFixed) :
    RegisterInv dev' := by
  obtain ⟨hsup, hfeat, hdrv, _⟩ := h
  refine ⟨?_, ?_, ?_, hq⟩
  · rw [hstatus]
    exact hsup
  · rw [hstatus, h0, h1]
    exact hfeat
  · rw [hstatus]
    exact hdrv

/-! ### The status register -/

section Status

variable {dev : VirtioMmioDevice} {value : BitVec 32}

/-- The status that is taken over is the value, or the value without a FEATURES_OK
    that was not set before. -/
theorem acceptedStatus_cases (dev : VirtioMmioDevice) (value : BitVec 32) :
    (acceptedStatus dev value = value ∧
      (value &&& virtioStatusFeaturesOk ≠ 0 → dev.status &&& virtioStatusFeaturesOk = 0 →
        ¬ featuresRejected dev value)) ∨
    (acceptedStatus dev value = value &&& ~~~virtioStatusFeaturesOk ∧
      dev.status &&& virtioStatusFeaturesOk = 0) := by
  unfold acceptedStatus
  split
  · next h => exact .inr ⟨rfl, h.1.2⟩
  · next h => exact .inl ⟨rfl, fun hv ho hrej => h ⟨⟨hv, ho⟩, hrej⟩⟩

/-- **Status grows**: the accepted status extends the old one. -/
theorem acceptedStatus_extends (h : value &&& dev.status = dev.status) :
    acceptedStatus dev value &&& dev.status = dev.status := by
  rcases acceptedStatus_cases dev value with ⟨heq, _⟩ | ⟨heq, hclear⟩
  · rw [heq, h]
  · rw [heq]
    exact extends_and_not h hclear

theorem acceptedStatus_supported (h : value &&& ~~~virtioStatusOperational = 0) :
    acceptedStatus dev value &&& ~~~virtioStatusOperational = 0 := by
  rcases acceptedStatus_cases dev value with ⟨heq, _⟩ | ⟨heq, _⟩
  · rw [heq, h]
  · rw [heq, BitVec.and_assoc, BitVec.and_comm (~~~virtioStatusFeaturesOk), ← BitVec.and_assoc, h]
    exact BitVec.zero_and

/-- FEATURES_OK is set only by a completed negotiation. -/
theorem acceptedStatus_featuresOk (hinv : RegisterInv dev)
    (hmono : value &&& dev.status = dev.status)
    (hset : acceptedStatus dev value &&& virtioStatusFeaturesOk ≠ 0) :
    acceptedStatus dev value &&& (virtioStatusAcknowledge ||| virtioStatusDriver) =
      virtioStatusAcknowledge ||| virtioStatusDriver ∧
    dev.driverFeatures0 = 0 ∧ dev.driverFeatures1 = virtioFVersion1Mask := by
  by_cases hold : dev.status &&& virtioStatusFeaturesOk = 0
  · -- FEATURES_OK is new, so the negotiation was checked in this write
    rcases acceptedStatus_cases dev value with ⟨heq, hok⟩ | ⟨heq, _⟩
    · rw [heq] at hset ⊢
      have hnot := hok hset hold
      simp only [featuresRejected, not_or, not_not] at hnot
      exact hnot
    · rw [heq, BitVec.and_assoc] at hset
      exact absurd (BitVec.and_zero) hset
  · obtain ⟨hbits, h0, h1⟩ := hinv.featuresOk hold
    exact ⟨and_eq_of_extends (acceptedStatus_extends hmono) hbits, h0, h1⟩

/-- **Status writes keep the handshake.** -/
theorem RegisterInv.acceptStatus (hinv : RegisterInv dev)
    (hsup : value &&& ~~~virtioStatusOperational = 0) (hmono : value &&& dev.status = dev.status)
    (hdrv : value &&& virtioStatusDriverOk ≠ 0 → dev.status &&& virtioStatusDriverOk = 0 →
      dev.status &&& virtioStatusFeaturesOk ≠ 0) :
    RegisterInv { dev with status := acceptedStatus dev value } := by
  refine ⟨acceptedStatus_supported hsup, acceptedStatus_featuresOk hinv hmono, fun hset => ?_,
    hinv.readyFixed⟩
  -- DRIVER_OK, old or new, stands on the old FEATURES_OK, which the new status keeps
  apply and_ne_zero_of_extends (acceptedStatus_extends hmono)
  by_cases hold : dev.status &&& virtioStatusDriverOk = 0
  · apply hdrv _ hold
    rcases acceptedStatus_cases dev value with ⟨heq, _⟩ | ⟨heq, _⟩
    · rwa [heq] at hset
    · intro hzero
      apply hset
      rw [heq, BitVec.and_assoc, BitVec.and_comm (~~~virtioStatusFeaturesOk),
        ← BitVec.and_assoc]
      show value &&& virtioStatusDriverOk &&& ~~~virtioStatusFeaturesOk = 0
      rw [hzero]
      exact BitVec.zero_and
  · exact hinv.driverOk hold

end Status

/-! ### What an accepted write can do -/

/-- The effect of an accepted register write, by what it may change. -/
inductive Accepts (dev : VirtioMmioDevice) (offset value : BitVec 32) :
    VirtioMmioDevice → Prop where
  /-- a selector or the interrupt status -/
  | other {dev' : VirtioMmioDevice} (hstatus : dev'.status = dev.status)
      (h0 : dev'.driverFeatures0 = dev.driverFeatures0)
      (h1 : dev'.driverFeatures1 = dev.driverFeatures1) (hq : dev'.queue = dev.queue) :
      Accepts dev offset value dev'
  /-- a feature word, before FEATURES_OK -/
  | features {dev' : VirtioMmioDevice} (hclear : dev.status &&& virtioStatusFeaturesOk = 0)
      (hstatus : dev'.status = dev.status) (hq : dev'.queue = dev.queue) :
      Accepts dev offset value dev'
  /-- the queue, left without QueueReady or with the fixed layout; only a 0 written
      to QueueReady takes readiness away -/
  | queue {q : VirtioQueue} (hq : q.ReadyFixed)
      (hkeep : dev.queue.ready ≠ 0 → q.ready ≠ 0 ∨
        (Register.ofOffset offset = some .queueReady ∧ value = 0)) :
      Accepts dev offset value { dev with queue := q }
  | reset (hoff : Register.ofOffset offset = some .status) (hval : value = 0) :
      Accepts dev offset value {}
  | status (hsup : value &&& ~~~virtioStatusOperational = 0)
      (hmono : value &&& dev.status = dev.status)
      (hdrv : value &&& virtioStatusDriverOk ≠ 0 → dev.status &&& virtioStatusDriverOk = 0 →
        dev.status &&& virtioStatusFeaturesOk ≠ 0) :
      Accepts dev offset value { dev with status := acceptedStatus dev value }

/-- A write that returned was refused without effect or accepted. -/
def Settled (dev : VirtioMmioDevice) (offset value : BitVec 32) (w : RegisterWrite) : Prop :=
  w = .refuse dev ∨ ∃ dev', w = .accept dev' ∧ Accepts dev offset value dev'

section Settle

variable {dev : VirtioMmioDevice} {offset value : BitVec 32}

theorem configureQueue_settled {update : VirtioQueue → VirtioQueue}
    (hkeep : ∀ q, (update q).ready = q.ready) :
    Settled dev offset value (configureQueue dev update) := by
  unfold configureQueue
  split
  · exact .inl rfl
  · next h =>
    -- the queue is not ready, so nothing is required of its layout
    simp only [not_or, not_not] at h
    refine .inr ⟨_, rfl, .queue (fun hready => absurd (hkeep dev.queue ▸ h.2) hready) ?_⟩
    exact fun hready => absurd h.2 hready

theorem writeQueueSize_settled : Settled dev offset value (writeQueueSize dev value) := by
  unfold writeQueueSize
  split
  · exact .inl rfl
  · next h =>
    simp only [not_or, not_not] at h
    refine .inr ⟨_, rfl, .queue (fun hready => absurd h.2.1 hready) ?_⟩
    exact fun hready => absurd h.2.1 hready

theorem writeQueueReady_settled (hoff : Register.ofOffset offset = some .queueReady) :
    Settled dev offset value (writeQueueReady dev value) := by
  unfold writeQueueReady
  split_ifs with hsel hzero hlayout
  · exact .inl rfl
  · refine .inr ⟨_, rfl, .queue (fun hready => absurd rfl hready) ?_⟩
    exact fun _ => .inr ⟨hoff, hzero⟩
  · obtain ⟨hsize, hdesc, hdriver, hdevice⟩ := hlayout
    refine .inr ⟨_, rfl, .queue (fun _ => ⟨hsize, hdesc, hdriver, hdevice⟩) ?_⟩
    exact fun _ => .inl (by simp)
  · exact .inl rfl

theorem writeDriverFeatures_settled :
    Settled dev offset value (writeDriverFeatures dev value) := by
  unfold writeDriverFeatures
  split_ifs with hguard hword
  · exact .inl rfl
  · simp only [not_or, not_not] at hguard
    exact .inr ⟨_, rfl, .features hguard.1 rfl rfl⟩
  · simp only [not_or, not_not] at hguard
    exact .inr ⟨_, rfl, .features hguard.1 rfl rfl⟩

theorem writeStatus_settled (hoff : Register.ofOffset offset = some .status) :
    Settled dev offset value (writeStatus dev value) := by
  unfold writeStatus
  split_ifs with hzero hbad hdrv
  · exact .inr ⟨_, rfl, .reset hoff hzero⟩
  · exact .inl rfl
  · exact .inl rfl
  · simp only [not_or, not_not] at hbad
    refine .inr ⟨_, rfl, .status hbad.1 hbad.2 fun hset hold hfeat => ?_⟩
    exact hdrv ⟨⟨hset, hold⟩, .inl hfeat⟩

theorem offset_of_queueNotify (h : Register.ofOffset offset = some .queueNotify) :
    offset = virtioMmioQueueNotify := by
  unfold Register.ofOffset at h
  split at h <;> first | (cases h; done) | skip
  apply BitVec.eq_of_toNat_eq
  assumption

/-- The write calls the backend: a QueueNotify on an operational device with a
    ready queue. -/
structure CallsBackend (dev : VirtioMmioDevice) (offset value : BitVec 32) : Prop where
  calls : writeRegister dev offset value = .processQueue
  notify : offset = virtioMmioQueueNotify
  operational : dev.status = virtioStatusOperational
  ready : dev.queue.ready ≠ 0

/-- **Every write is settled**, except the QueueNotify that calls the backend. -/
theorem writeRegister_settled (dev : VirtioMmioDevice) (offset value : BitVec 32) :
    CallsBackend dev offset value ∨
    Settled dev offset value (writeRegister dev offset value) := by
  cases hoff : Register.ofOffset offset with
  | none => exact .inr (.inl (by simp only [writeRegister, hoff]))
  | some reg =>
    cases reg <;> simp only [writeRegister, hoff]
    case queueNotify =>
      split
      · exact .inr (.inl rfl)
      · next hguard =>
        have hcalls : writeRegister dev offset value = .processQueue := by
          simp only [writeRegister, hoff, if_neg hguard]
        simp only [not_or, not_not] at hguard
        exact .inl ⟨hcalls, offset_of_queueNotify hoff, hguard.2.1, hguard.2.2⟩
    case deviceFeaturesSel | queueSel => exact .inr (.inr ⟨_, rfl, .other rfl rfl rfl rfl⟩)
    case driverFeaturesSel | interruptAck =>
      right
      split
      · exact .inl rfl
      · exact .inr ⟨_, rfl, .other rfl rfl rfl rfl⟩
    case driverFeatures => exact .inr writeDriverFeatures_settled
    case queueSize => exact .inr writeQueueSize_settled
    case queueReady => exact .inr (writeQueueReady_settled hoff)
    case status => exact .inr (writeStatus_settled hoff)
    case queueDescLow | queueDescHigh | queueDriverLow | queueDriverHigh | queueDeviceLow |
        queueDeviceHigh =>
      exact .inr (configureQueue_settled fun _ => rfl)
    all_goals exact .inr (.inl rfl)

end Settle

theorem Accepts.inv {dev dev' : VirtioMmioDevice} {offset value : BitVec 32}
    (h : Accepts dev offset value dev') (hinv : RegisterInv dev) : RegisterInv dev' := by
  cases h with
  | other hstatus h0 h1 hq => exact hinv.congr hstatus h0 h1 (hq ▸ hinv.readyFixed)
  | features hclear hstatus hq =>
    -- FEATURES_OK is not set, so nothing is promised of the feature words
    refine ⟨?_, fun hset => ?_, ?_, hq ▸ hinv.readyFixed⟩
    · rw [hstatus]
      exact hinv.supported
    · rw [hstatus] at hset
      exact absurd hclear hset
    · rw [hstatus]
      exact hinv.driverOk
  | queue hq _ => exact ⟨hinv.supported, hinv.featuresOk, hinv.driverOk, hq⟩
  | reset _ _ => exact .initial
  | status hsup hmono hdrv => exact hinv.acceptStatus hsup hmono hdrv

/-- An accepted write extends the status, unless it is the reset. -/
theorem Accepts.status_extends {dev dev' : VirtioMmioDevice} {offset value : BitVec 32}
    (h : Accepts dev offset value dev') :
    dev'.status &&& dev.status = dev.status ∨
    (Register.ofOffset offset = some .status ∧ value = 0 ∧ dev' = {}) := by
  cases h with
  | other hstatus _ _ _ =>
    left
    rw [hstatus, BitVec.and_self]
  | features _ hstatus _ =>
    left
    rw [hstatus, BitVec.and_self]
  | queue _ _ => exact .inl (BitVec.and_self)
  | reset hoff hval => exact .inr ⟨hoff, hval, rfl⟩
  | status _ hmono _ => exact .inl (acceptedStatus_extends hmono)

/-- **Operation lasts**: only a 0 written to Status or to QueueReady ends it. -/
theorem Accepts.operational {dev dev' : VirtioMmioDevice} {offset value : BitVec 32}
    (h : Accepts dev offset value dev') (hop : dev.status = virtioStatusOperational)
    (hready : dev.queue.ready ≠ 0)
    (hkeep : value = 0 → Register.ofOffset offset ≠ some .status ∧
      Register.ofOffset offset ≠ some .queueReady) :
    dev'.status = virtioStatusOperational ∧ dev'.queue.ready ≠ 0 := by
  cases h with
  | other hstatus _ _ hq => exact ⟨hstatus.trans hop, hq ▸ hready⟩
  | features _ hstatus hq => exact ⟨hstatus.trans hop, hq ▸ hready⟩
  | queue _ hsame =>
    rcases hsame hready with hok | ⟨hoff, hval⟩
    · exact ⟨hop, hok⟩
    · exact absurd hoff (hkeep hval).2
  | reset hoff hval => exact absurd hoff (hkeep hval).1
  | status hsup hmono _ =>
    refine ⟨?_, hready⟩
    have hext := acceptedStatus_extends hmono
    rw [hop] at hext
    exact eq_of_extends_of_within (acceptedStatus_supported hsup) hext

/-! ## Sequences of register writes -/

/-- The device, guest memory and the `process_queue` call of a QueueNotify write
    that has not returned. -/
structure Transport where
  dev : VirtioMmioDevice
  mem : Memory
  call : Option Frame

/-- Who moves. -/
inductive TransportAct where
  /-- `write_register(offset, value)` is called -/
  | write (offset value : BitVec 32)
  /-- the guest stores a byte to its memory -/
  | guest (addr : Nat) (byte : UInt8)
  /-- `process_queue` makes a step -/
  | run (r : GetRandom)

/-- The frame of a call that goes on. -/
def Frame.live (f : Frame) : Option Frame :=
  match f.pc with
  | .returned _ => none
  | _ => some f

/-- One step of the transport. -/
def Transport.step (s : Transport) : TransportAct → Option Transport
  | .write offset value =>
    if s.call.isSome then none
    else
      match writeRegister s.dev offset value with
      | .done dev _ => some { s with dev := dev }
      | .processQueue => some { s with call := some {} }
  | .guest addr byte =>
    if addr < virtioGuestMemSize then some { s with mem := s.mem.storeBytes addr [byte] }
    else none
  | .run r =>
    s.call.bind fun f => (processQueue s.dev s.mem f r).map fun p =>
      { dev := p.dev, mem := p.mem, call := p.frame.live }

/-- Register writes from the zeroed device, on any guest memory. -/
def transport : System Transport TransportAct where
  init s := s.dev = {} ∧ s.call = none
  step := Transport.step

/-- A step of the transport: an accepted or refused write, or no change of the
    device beyond `last_avail_idx`. -/
theorem Transport.step_dev {s s' : Transport} {a : TransportAct} (hs : s.step a = some s') :
    (∃ offset value, a = .write offset value ∧ Accepts s.dev offset value s'.dev) ∨
    ∃ idx, s'.dev = { s.dev with queue := { s.dev.queue with lastAvailIdx := idx } } := by
  cases a with
  | write offset value =>
    simp only [Transport.step] at hs
    split at hs
    · cases hs
    · rcases writeRegister_settled s.dev offset value with hw | hw | ⟨dev', hw, hacc⟩
      · rw [hw.calls] at hs
        cases hs
        exact .inr ⟨_, rfl⟩
      · rw [hw] at hs
        cases hs
        exact .inr ⟨_, rfl⟩
      · rw [hw] at hs
        cases hs
        exact .inl ⟨offset, value, rfl, hacc⟩
  | guest addr byte =>
    simp only [Transport.step] at hs
    split at hs
    · cases hs
      exact .inr ⟨_, rfl⟩
    · cases hs
  | run r =>
    simp only [Transport.step, Option.bind_eq_some_iff, Option.map_eq_some_iff] at hs
    obtain ⟨f, _, p, hp, rfl⟩ := hs
    exact .inr ⟨_, processQueue_dev hp⟩

theorem RegisterInv.advance {dev : VirtioMmioDevice} (h : RegisterInv dev) (idx : BitVec 16) :
    RegisterInv { dev with queue := { dev.queue with lastAvailIdx := idx } } :=
  h.congr rfl rfl rfl (h.readyFixed.advance idx)

/-- The register invariant holds in every state reached by register writes. -/
theorem registerInv {s : Transport} (h : transport.Reachable s) : RegisterInv s.dev := by
  apply h.invariant (fun s => RegisterInv s.dev)
  · rintro s ⟨hdev, _⟩
    rw [hdev]
    exact .initial
  · intro s a s' hinv _ hs
    rcases Transport.step_dev hs with ⟨offset, value, _, hacc⟩ | ⟨idx, hdev⟩
    · exact hacc.inv hinv
    · rw [hdev]
      exact hinv.advance idx

/-- **`write_register` keeps the transport well formed**: in every state reached by
    register writes from the zeroed device the register invariant holds; from there
    a step only extends the status, except for the reset, which leads back to the
    zeroed device whatever the status was; and a write other than QueueNotify returns
    at once, without effect if its result is -1. -/
theorem write_register_preserves {s : Transport} (h : transport.Reachable s) :
    RegisterInv s.dev ∧
    (∀ a s', s.step a = some s' →
      s'.dev.status &&& s.dev.status = s.dev.status ∨
      (∃ offset, a = .write offset 0 ∧ Register.ofOffset offset = some .status ∧
        s'.dev = {})) ∧
    (∀ offset s', Register.ofOffset offset = some .status → s.step (.write offset 0) = some s' →
      s'.dev = {}) ∧
    ∀ offset value, offset ≠ virtioMmioQueueNotify →
      ∃ dev' result, writeRegister s.dev offset value = .done dev' result ∧
        (result = -1 → dev' = s.dev) := by
  refine ⟨registerInv h, fun a s' hs => ?_, fun offset s' hoff hs => ?_,
    fun offset value hoff => ?_⟩
  · rcases Transport.step_dev hs with ⟨offset, value, rfl, hacc⟩ | ⟨idx, hdev⟩
    · rcases hacc.status_extends with hext | ⟨hoff, rfl, hdev⟩
      · exact .inl hext
      · exact .inr ⟨offset, rfl, hoff, hdev⟩
    · left
      rw [hdev]
      exact BitVec.and_self
  · have hreset : writeRegister s.dev offset 0 = .accept {} := by
      rw [writeRegister, hoff]
      rfl
    simp only [Transport.step, hreset, RegisterWrite.accept] at hs
    split at hs
    · cases hs
    · cases hs
      rfl
  · rcases writeRegister_settled s.dev offset value with hw | hw | ⟨dev', hw, _⟩
    · exact absurd hw.notify hoff
    · exact ⟨s.dev, -1, hw, fun _ => rfl⟩
    · exact ⟨dev', 0, hw, fun hneg => absurd hneg (by decide)⟩

/-- The register writes with which the guest brings the device up. -/
def handshake : List (BitVec 32 × BitVec 32) :=
  [(0x070, 1), (0x070, 3), (0x024, 1), (0x020, 1), (0x070, 11), (0x030, 0), (0x038, 8),
    (0x080, 0x4000), (0x090, 0x5000), (0x0a0, 0x6000), (0x044, 1), (0x070, 15)]

theorem write_register_preserves_handshake :
    ∃ s, transport.Reachable s ∧ s.dev.status = virtioStatusOperational ∧
      s.dev.queue.ready = 1 ∧ RegisterInv s.dev := by
  obtain ⟨s, hrun, hstatus, hready⟩ :
      ∃ s ∈ transport.exec ⟨{}, fun _ => 0, none⟩ (handshake.map fun w => .write w.1 w.2),
        s.dev.status = virtioStatusOperational ∧ s.dev.queue.ready = 1 := by
    decide +kernel
  have hreach : transport.Reachable s := System.reachable_of_exec ⟨rfl, rfl⟩ hrun
  exact ⟨s, hreach, hstatus, hready, (write_register_preserves hreach).1⟩

end LinuxMaxxing.Virtio
