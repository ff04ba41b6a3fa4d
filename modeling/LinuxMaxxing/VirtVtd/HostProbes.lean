import LinuxMaxxing.VirtVtd.Event

/-!
# Probes on the Host Kernel

The probes of `vtd.bpf.c` on `ioctl`, `domain_attach_iommu`, `qi_submit_sync` and
`intel_ir_compose_msi_msg`: an entry probe saves a `host_pending` under the `pid_tgid` of its
task, and a return probe looks one up there, reports it and deletes it. The three pairs share the
one map.

- `entryProbe_pending`, `returnProbe_pending`: what the probes do to the map;
- `returnProbe_event`: what the event of a return has in it.
-/

namespace LinuxMaxxing.VirtVtd

/-! ## Active operations -/

/-- `VFIO_IOMMU_MAP_DMA` -/
def vfioIommuMapDma : BitVec 64 := 0x3b71
/-- `VFIO_IOMMU_UNMAP_DMA` -/
def vfioIommuUnmapDma : BitVec 64 := 0x3b72
/-- `VFIO_DEVICE_SET_IRQS` -/
def vfioDeviceSetIrqs : BitVec 64 := 0x3b6e
/-- `KVM_SET_USER_MEMORY_REGION` -/
def kvmSetUserMemoryRegion : BitVec 64 := 0x4020ae46
/-- `KVM_SET_USER_MEMORY_REGION2` -/
def kvmSetUserMemoryRegion2 : BitVec 64 := 0x40a0ae49

/-- `struct vfio_dma_map_request` -/
structure VfioDmaMapRequest where
  argsz : BitVec 32
  flags : BitVec 32
  vaddr : BitVec 64
  iova : BitVec 64
  size : BitVec 64

/-- `struct vfio_dma_unmap_request` -/
structure VfioDmaUnmapRequest where
  argsz : BitVec 32
  flags : BitVec 32
  iova : BitVec 64
  size : BitVec 64

/-- `struct vfio_irq_set_request` -/
structure VfioIrqSetRequest where
  argsz : BitVec 32
  flags : BitVec 32
  index : BitVec 32
  start : BitVec 32
  count : BitVec 32

/-- `struct kvm_memory_region_request` -/
structure KvmMemoryRegionRequest where
  slot : BitVec 32
  flags : BitVec 32
  guestPhysAddr : BitVec 64
  memorySize : BitVec 64
  userspaceAddr : BitVec 64

/-- `struct active_operation` -/
structure ActiveOperation where
  operation : VtdOperation := .none
  fd : BitVec 32 := 0
  flags : BitVec 32 := 0
  argsz : BitVec 32 := 0
  slot : BitVec 32 := 0
  sampleStatus : VtdSampleStatus := .complete
  command : BitVec 64 := 0
  requestId : BitVec 64 := 0
  userArgument : BitVec 64 := 0
  hva : BitVec 64 := 0
  gpa : BitVec 64 := 0
  iova : BitVec 64 := 0
  size : BitVec 64 := 0
  irqIndex : BitVec 32 := 0
  irqStart : BitVec 32 := 0
  irqCount : BitVec 32 := 0
  deriving DecidableEq, Repr

/-- What `bpf_probe_read_user` gives for a request at an address. -/
structure UserMemory where
  dmaMap : BitVec 64 → Option VfioDmaMapRequest
  dmaUnmap : BitVec 64 → Option VfioDmaUnmapRequest
  irqSet : BitVec 64 → Option VfioIrqSetRequest
  memoryRegion : BitVec 64 → Option KvmMemoryRegionRequest

/-- The arguments of `ioctl`. -/
structure IoctlArgs where
  fd : BitVec 64
  command : BitVec 64
  argument : BitVec 64
  deriving DecidableEq, Repr

/-- `is_tracked_ioctl` -/
def isTrackedIoctl (command : BitVec 64) : Bool :=
  command = vfioIommuMapDma || command = vfioIommuUnmapDma || command = vfioDeviceSetIrqs ||
    command = kvmSetUserMemoryRegion || command = kvmSetUserMemoryRegion2

/-- Whether a request is as large as it says. -/
def sampleStatusOf (argsz : BitVec 32) (size : Nat) : VtdSampleStatus :=
  if argsz.toNat < size then .invalidArgument else .complete

/-- The operation that `enter_ioctl` fills in. -/
def sampleOperation (user : UserMemory) (args : IoctlArgs) (requestId : BitVec 64) :
    ActiveOperation :=
  let operation : ActiveOperation :=
    { fd := args.fd.setWidth 32
      command := args.command
      userArgument := args.argument
      requestId := requestId }
  if args.command = vfioIommuMapDma then
    match user.dmaMap args.argument with
    | none => { operation with operation := .vfioMap, sampleStatus := .readFailed }
    | some request =>
      { operation with
        operation := .vfioMap
        argsz := request.argsz
        flags := request.flags
        hva := request.vaddr
        iova := request.iova
        size := request.size
        sampleStatus := sampleStatusOf request.argsz 32 }
  else if args.command = vfioIommuUnmapDma then
    match user.dmaUnmap args.argument with
    | none => { operation with operation := .vfioUnmap, sampleStatus := .readFailed }
    | some request =>
      { operation with
        operation := .vfioUnmap
        argsz := request.argsz
        flags := request.flags
        iova := request.iova
        size := request.size
        sampleStatus := sampleStatusOf request.argsz 24 }
  else if args.command = vfioDeviceSetIrqs then
    match user.irqSet args.argument with
    | none => { operation with operation := .vfioIrqSet, sampleStatus := .readFailed }
    | some request =>
      { operation with
        operation := .vfioIrqSet
        argsz := request.argsz
        flags := request.flags
        irqIndex := request.index
        irqStart := request.start
        irqCount := request.count
        sampleStatus := sampleStatusOf request.argsz 20 }
  else
    match user.memoryRegion args.argument with
    | none => { operation with operation := .kvmMemoryRegion, sampleStatus := .readFailed }
    | some request =>
      { operation with
        operation := .kvmMemoryRegion
        flags := request.flags
        slot := request.slot
        gpa := request.guestPhysAddr
        hva := request.userspaceAddr
        size := request.memorySize }

/-- `operation->operation` is `VTD_OP_VFIO_MAP` or `VTD_OP_VFIO_UNMAP`. -/
def ActiveOperation.tracksQi (operation : ActiveOperation) : Bool :=
  operation.operation = .vfioMap || operation.operation = .vfioUnmap

/-- `copy_operation` -/
def copyOperation (event : VtdEvent) (operation : ActiveOperation) : VtdEvent :=
  { event with
    eventInfo := { event.eventInfo with
      operation := operation.operation
      fd := operation.fd
      flags := operation.flags
      argsz := operation.argsz
      slot := operation.slot
      command := operation.command
      requestId := operation.requestId
      sampleStatus := operation.sampleStatus }
    state := { event.state with
      hva := operation.hva
      gpa := operation.gpa
      iova := operation.iova
      size := operation.size
      irqIndex := operation.irqIndex
      irqStart := operation.irqStart
      irqCount := operation.irqCount } }

/-! ## Pending calls -/

/-- `struct host_pending`, without the fields that no probe uses. -/
structure HostPending where
  irq : BitVec 32 := 0
  message : BitVec 64 := 0
  domainAddress : BitVec 64 := 0
  iommuAddress : BitVec 64 := 0
  iommuId : BitVec 32 := 0
  qiCount : BitVec 32 := 0
  qiOptions : BitVec 32 := 0
  descriptor0 : BitVec 64 := 0
  descriptor1 : BitVec 64 := 0
  deriving DecidableEq, Repr

/-- What `host_domain_attach_enter` saves. -/
def attachPending (domain iommu : BitVec 64) (seqId : BitVec 32) : HostPending where
  domainAddress := domain
  iommuAddress := iommu
  iommuId := seqId

/-- What `host_qi_submit` saves; `descriptor` is what was read of the first descriptor. -/
def qiPending (iommu : BitVec 64) (descriptor : Option (BitVec 64 × BitVec 64))
    (count : BitVec 32) (options : BitVec 64) (seqId : BitVec 32) : HostPending :=
  let first := if count ≠ 0 then descriptor.getD (0, 0) else (0, 0)
  { qiCount := count
    qiOptions := options.setWidth 32
    iommuAddress := iommu
    iommuId := seqId
    descriptor0 := first.1
    descriptor1 := first.2 }

/-- What `host_ir_msi_entry` saves. -/
def msiPending (message : BitVec 64) (irq : BitVec 32) : HostPending where
  message := message
  irq := irq

/-- `struct msi_msg` -/
structure MsiMsg where
  addressLo : BitVec 32
  addressHi : BitVec 32
  data : BitVec 32

/-- The maps and the ring buffer. -/
structure HostMaps where
  activeOperations : BitVec 64 → Option ActiveOperation
  hostPendingStates : BitVec 64 → Option HostPending
  requestCounter : BitVec 64
  guestPhase : VtdGuestPhase
  events : List VtdEvent

namespace HostMaps

/-- `bpf_ringbuf_submit`, for an event that was reserved. -/
def submit (m : HostMaps) : Option VtdEvent → HostMaps
  | none => m
  | some event => { m with events := m.events ++ [event] }

/-- `lab_map_update(&host_pending_states, …)` -/
def savePending (m : HostMaps) (probe : Probe) (active : HostPending) : HostMaps :=
  if probe.updates then
    { m with hostPendingStates := Function.update m.hostPendingStates probe.pidTgid (some active) }
  else m

/-- `bpf_map_delete_elem(&host_pending_states, …)` -/
def deletePending (m : HostMaps) (probe : Probe) : HostMaps :=
  { m with hostPendingStates := Function.update m.hostPendingStates probe.pidTgid none }

/-- `enter_ioctl` -/
def enterIoctl (m : HostMaps) (probe : Probe) (user : UserMemory) (args : IoctlArgs) : HostMaps :=
  if !currentProcessIsQemu probe.comm || !isTrackedIoctl args.command then m
  else
    let requestId := m.requestCounter + 1
    let operation := sampleOperation user args requestId
    let m := { m with requestCounter := requestId }
    let m := if probe.updates then
      { m with activeOperations := Function.update m.activeOperations probe.pidTgid (some operation) }
      else m
    m.submit ((reserveEvent probe m.guestPhase .ioctlEnter).map fun event =>
      copyOperation event operation)

/-- `exit_ioctl` -/
def exitIoctl (m : HostMaps) (probe : Probe) (user : UserMemory) (ret : BitVec 64) : HostMaps :=
  match m.activeOperations probe.pidTgid with
  | none => m
  | some operation =>
    let m := m.submit ((reserveEvent probe m.guestPhase .ioctlExit).map fun event =>
      let event := copyOperation event operation
      { event with
        eventInfo.result := ret
        state.returnedSize :=
          if operation.operation = .vfioUnmap ∧ ret = 0 then
            ((user.dmaUnmap operation.userArgument).map (·.size)).getD event.state.returnedSize
          else event.state.returnedSize })
    { m with activeOperations := Function.update m.activeOperations probe.pidTgid none }

/-- `host_domain_attach_enter`; `seqId` is read from the IOMMU. -/
def hostDomainAttachEnter (m : HostMaps) (probe : Probe) (domain iommu : BitVec 64)
    (seqId : BitVec 32) : HostMaps :=
  if !currentProcessIsQemu probe.comm then m
  else
    let active := attachPending domain iommu seqId
    let m := m.savePending probe active
    m.submit ((reserveEvent probe m.guestPhase .domainAttachEnter).map fun event =>
      { event with
        state.domainAddress := active.domainAddress
        state.iommuAddress := active.iommuAddress
        state.iommuId := active.iommuId })

/-- `host_domain_attach_exit` -/
def hostDomainAttachExit (m : HostMaps) (probe : Probe) (result : BitVec 64) : HostMaps :=
  match m.hostPendingStates probe.pidTgid with
  | none => m
  | some active =>
    (m.submit ((reserveEvent probe m.guestPhase .domainAttachExit).map fun event =>
      { event with
        eventInfo.result := result
        state.domainAddress := active.domainAddress
        state.iommuAddress := active.iommuAddress
        state.iommuId := active.iommuId })).deletePending probe

/-- `host_qi_submit` -/
def hostQiSubmit (m : HostMaps) (probe : Probe) (iommu : BitVec 64)
    (descriptor : Option (BitVec 64 × BitVec 64)) (count : BitVec 32) (options : BitVec 64)
    (seqId : BitVec 32) : HostMaps :=
  match m.activeOperations probe.pidTgid with
  | none => m
  | some operation =>
    if !operation.tracksQi then m
    else
      let active := qiPending iommu descriptor count options seqId
      let m := m.savePending probe active
      m.submit ((reserveEvent probe m.guestPhase .qiSubmit).map fun event =>
        let event := copyOperation event operation
        { event with
          state.iommuAddress := iommu
          state.iommuId := seqId
          state.qiCount := active.qiCount
          state.qiOptions := active.qiOptions
          state.qiDescriptor0 := active.descriptor0
          state.qiDescriptor1 := active.descriptor1 })

/-- `host_qi_complete` -/
def hostQiComplete (m : HostMaps) (probe : Probe) (result : BitVec 64) : HostMaps :=
  match m.hostPendingStates probe.pidTgid, m.activeOperations probe.pidTgid with
  | some active, some operation =>
    (m.submit ((reserveEvent probe m.guestPhase .qiComplete).map fun event =>
      let event := copyOperation event operation
      { event with
        eventInfo.result := result
        state.iommuAddress := active.iommuAddress
        state.iommuId := active.iommuId
        state.qiCount := active.qiCount
        state.qiOptions := active.qiOptions
        state.qiDescriptor0 := active.descriptor0
        state.qiDescriptor1 := active.descriptor1 })).deletePending probe
  | _, _ => m

/-- `host_ir_msi_entry`; `irq` is read from the `irq_data`. -/
def hostIrMsiEntry (m : HostMaps) (probe : Probe) (message : BitVec 64) (irq : BitVec 32) :
    HostMaps :=
  if !currentProcessIsQemu probe.comm then m
  else m.savePending probe (msiPending message irq)

/-- `host_ir_msi_exit`; `kernel` is what `bpf_probe_read_kernel` gives. -/
def hostIrMsiExit (m : HostMaps) (probe : Probe) (kernel : BitVec 64 → Option MsiMsg) :
    HostMaps :=
  match m.hostPendingStates probe.pidTgid with
  | none => m
  | some compose =>
    let m := match kernel compose.message with
      | none => m
      | some message =>
        m.submit ((reserveEvent probe m.guestPhase .irMsiMessage).map fun event : VtdEvent =>
          { event with
            state.irq := compose.irq
            state.interruptAddress :=
              message.addressHi.setWidth 64 <<< 32 ||| message.addressLo.setWidth 64
            state.interruptData := message.data.setWidth 64 })
    m.deletePending probe

end HostMaps

/-! ## Calls -/

/-- The functions with probes on entry and return. -/
inductive HostFunction where
  | domainAttachIommu
  | qiSubmitSync
  | intelIrComposeMsiMsg
  deriving DecidableEq, Repr

/-- A call as its entry probe sees it. -/
inductive HostArgs where
  | domainAttachIommu (domain iommu : BitVec 64) (seqId : BitVec 32)
  | qiSubmitSync (iommu : BitVec 64) (descriptor : Option (BitVec 64 × BitVec 64))
      (count : BitVec 32) (options : BitVec 64) (seqId : BitVec 32)
  | intelIrComposeMsiMsg (message : BitVec 64) (irq : BitVec 32)
  deriving DecidableEq, Repr

def HostArgs.function : HostArgs → HostFunction
  | .domainAttachIommu _ _ _ => .domainAttachIommu
  | .qiSubmitSync _ _ _ _ _ => .qiSubmitSync
  | .intelIrComposeMsiMsg _ _ => .intelIrComposeMsiMsg

/-- A return as its probe sees it. -/
structure HostReturn where
  result : BitVec 64
  kernel : BitVec 64 → Option MsiMsg

namespace HostMaps

def entryProbe (m : HostMaps) (probe : Probe) : HostArgs → HostMaps
  | .domainAttachIommu domain iommu seqId => m.hostDomainAttachEnter probe domain iommu seqId
  | .qiSubmitSync iommu descriptor count options seqId =>
    m.hostQiSubmit probe iommu descriptor count options seqId
  | .intelIrComposeMsiMsg message irq => m.hostIrMsiEntry probe message irq

def returnProbe (m : HostMaps) (probe : Probe) (ret : HostReturn) : HostFunction → HostMaps
  | .domainAttachIommu => m.hostDomainAttachExit probe ret.result
  | .qiSubmitSync => m.hostQiComplete probe ret.result
  | .intelIrComposeMsiMsg => m.hostIrMsiExit probe ret.kernel

/-- What the entry probe of a call saves, if it does. -/
def saves (m : HostMaps) (probe : Probe) : HostArgs → Option HostPending
  | .domainAttachIommu domain iommu seqId =>
    if currentProcessIsQemu probe.comm then some (attachPending domain iommu seqId) else none
  | .qiSubmitSync iommu descriptor count options seqId =>
    if (m.activeOperations probe.pidTgid).any fun operation => operation.tracksQi then
      some (qiPending iommu descriptor count options seqId)
    else none
  | .intelIrComposeMsiMsg message irq =>
    if currentProcessIsQemu probe.comm then some (msiPending message irq) else none

/-- The return probe of a call of a task looks into the map. -/
def LooksUp (m : HostMaps) (task : BitVec 64) (function : HostFunction) : Prop :=
  function = .qiSubmitSync → (m.activeOperations task).isSome

instance (m : HostMaps) (task : BitVec 64) (function : HostFunction) :
    Decidable (m.LooksUp task function) :=
  inferInstanceAs (Decidable (_ → _))

end HostMaps

/-! ## Events of the right call -/

/-- The event of a return has the values that an entry probe saved. -/
def HostReturn.Carried (ret : HostReturn) (function : HostFunction) (v : HostPending)
    (event : VtdEvent) : Prop :=
  match function with
  | .domainAttachIommu => event.eventInfo.kind = .domainAttachExit ∧
      event.eventInfo.result = ret.result ∧ event.state.domainAddress = v.domainAddress ∧
      event.state.iommuAddress = v.iommuAddress ∧ event.state.iommuId = v.iommuId
  | .qiSubmitSync => event.eventInfo.kind = .qiComplete ∧
      event.eventInfo.result = ret.result ∧ event.state.iommuAddress = v.iommuAddress ∧
      event.state.iommuId = v.iommuId ∧ event.state.qiCount = v.qiCount ∧
      event.state.qiOptions = v.qiOptions ∧ event.state.qiDescriptor0 = v.descriptor0 ∧
      event.state.qiDescriptor1 = v.descriptor1
  | .intelIrComposeMsiMsg => event.eventInfo.kind = .irMsiMessage ∧ event.state.irq = v.irq ∧
      ∃ message, ret.kernel v.message = some message ∧
        event.state.interruptAddress =
          message.addressHi.setWidth 64 <<< 32 ||| message.addressLo.setWidth 64 ∧
        event.state.interruptData = message.data.setWidth 64

/-- The kinds of the events of the return probes. -/
def VtdEventKind.isReturn (kind : VtdEventKind) : Bool :=
  kind = .domainAttachExit || kind = .qiComplete || kind = .irMsiMessage

/-! ## What the probes do -/

namespace HostMaps

variable {m : HostMaps} {probe : Probe}

@[simp] theorem submit_hostPendingStates (event : Option VtdEvent) :
    (m.submit event).hostPendingStates = m.hostPendingStates := by
  cases event <;> rfl

@[simp] theorem submit_activeOperations (event : Option VtdEvent) :
    (m.submit event).activeOperations = m.activeOperations := by
  cases event <;> rfl

theorem submit_events (event : Option VtdEvent) :
    (m.submit event).events = m.events ++ event.toList := by
  cases event with
  | none => exact (List.append_nil _).symm
  | some event => rfl

theorem savePending_pending (hupdates : probe.updates = true) (active : HostPending) :
    (m.savePending probe active).hostPendingStates =
      Function.update m.hostPendingStates probe.pidTgid (some active) := by
  unfold savePending
  rw [if_pos hupdates]

@[simp] theorem savePending_activeOperations (active : HostPending) :
    (m.savePending probe active).activeOperations = m.activeOperations := by
  unfold savePending
  split <;> rfl

@[simp] theorem savePending_events (active : HostPending) :
    (m.savePending probe active).events = m.events := by
  unfold savePending
  split <;> rfl

/-! ### Entry probes -/

/-- **An entry probe** saves what it says, and leaves the other tasks alone. -/
theorem entryProbe_pending (hupdates : probe.updates = true) (args : HostArgs) :
    (m.entryProbe probe args).hostPendingStates =
      match m.saves probe args with
      | none => m.hostPendingStates
      | some active => Function.update m.hostPendingStates probe.pidTgid (some active) := by
  cases args with
  | domainAttachIommu domain iommu seqId =>
    unfold entryProbe hostDomainAttachEnter saves
    cases currentProcessIsQemu probe.comm with
    | false => rfl
    | true => simp [savePending_pending hupdates]
  | qiSubmitSync iommu descriptor count options seqId =>
    unfold entryProbe hostQiSubmit saves
    cases m.activeOperations probe.pidTgid with
    | none => rfl
    | some operation =>
      cases htracks : operation.tracksQi with
      | false => simp [htracks]
      | true => simp [htracks, savePending_pending hupdates]
  | intelIrComposeMsiMsg message irq =>
    unfold entryProbe hostIrMsiEntry saves
    cases currentProcessIsQemu probe.comm with
    | false => rfl
    | true => simp [savePending_pending hupdates]

@[simp] theorem entryProbe_activeOperations (args : HostArgs) :
    (m.entryProbe probe args).activeOperations = m.activeOperations := by
  cases args with
  | domainAttachIommu domain iommu seqId =>
    unfold entryProbe hostDomainAttachEnter
    cases currentProcessIsQemu probe.comm with
    | false => rfl
    | true => simp
  | qiSubmitSync iommu descriptor count options seqId =>
    unfold entryProbe hostQiSubmit
    cases hop : m.activeOperations probe.pidTgid with
    | none => rfl
    | some operation =>
      cases htracks : operation.tracksQi with
      | false => simp [htracks]
      | true => simp [htracks]
  | intelIrComposeMsiMsg message irq =>
    unfold entryProbe hostIrMsiEntry
    cases currentProcessIsQemu probe.comm with
    | false => rfl
    | true => simp

theorem looksUp_of_ne {task : BitVec 64} {function : HostFunction}
    (h : function ≠ .qiSubmitSync) : m.LooksUp task function := fun heq => absurd heq h

/-- A call that saves something is one whose return probe looks into the map. -/
theorem LooksUp.of_saves {args : HostArgs} (h : (m.saves probe args).isSome) :
    m.LooksUp probe.pidTgid args.function := by
  cases args with
  | domainAttachIommu domain iommu seqId => exact looksUp_of_ne (by simp [HostArgs.function])
  | qiSubmitSync iommu descriptor count options seqId =>
    intro _
    unfold saves at h
    cases hop : m.activeOperations probe.pidTgid with
    | none => simp [hop] at h
    | some operation => rfl
  | intelIrComposeMsiMsg message irq => exact looksUp_of_ne (by simp [HostArgs.function])

/-! ### Return probes -/

/-- A return probe that finds nothing, or does not look, does nothing. -/
theorem returnProbe_idle {ret : HostReturn} {function : HostFunction}
    (h : m.hostPendingStates probe.pidTgid = none ∨ ¬ m.LooksUp probe.pidTgid function) :
    m.returnProbe probe ret function = m := by
  rcases h with hslot | hlooks
  · cases function with
    | domainAttachIommu => simp [returnProbe, hostDomainAttachExit, hslot]
    | qiSubmitSync => simp [returnProbe, hostQiComplete, hslot]
    | intelIrComposeMsiMsg => simp [returnProbe, hostIrMsiExit, hslot]
  · cases function with
    | domainAttachIommu => exact absurd (looksUp_of_ne (by decide)) hlooks
    | qiSubmitSync =>
      have hop : m.activeOperations probe.pidTgid = none := by
        simpa [LooksUp] using hlooks
      unfold returnProbe hostQiComplete
      rw [hop]
      cases m.hostPendingStates probe.pidTgid <;> rfl
    | intelIrComposeMsiMsg => exact absurd (looksUp_of_ne (by decide)) hlooks

/-- **A return probe** that looks into the map deletes what is there. -/
theorem returnProbe_pending (ret : HostReturn) (function : HostFunction) :
    (m.returnProbe probe ret function).hostPendingStates =
      if m.LooksUp probe.pidTgid function then
        Function.update m.hostPendingStates probe.pidTgid none
      else m.hostPendingStates := by
  cases hslot : m.hostPendingStates probe.pidTgid with
  | none =>
    have hsame : Function.update m.hostPendingStates probe.pidTgid none = m.hostPendingStates :=
      hslot ▸ Function.update_eq_self _ _
    rw [hsame, ite_self, returnProbe_idle (.inl hslot)]
  | some active =>
    cases function with
    | domainAttachIommu =>
      rw [if_pos (looksUp_of_ne (by decide))]
      simp [returnProbe, hostDomainAttachExit, hslot, deletePending]
    | qiSubmitSync =>
      cases hop : m.activeOperations probe.pidTgid with
      | none => simp [returnProbe, hostQiComplete, hslot, hop, LooksUp]
      | some operation =>
        simp [returnProbe, hostQiComplete, hslot, hop, LooksUp, deletePending]
    | intelIrComposeMsiMsg =>
      rw [if_pos (looksUp_of_ne (by decide))]
      cases hread : ret.kernel active.message with
      | none => simp [returnProbe, hostIrMsiExit, hslot, hread, deletePending]
      | some message => simp [returnProbe, hostIrMsiExit, hslot, hread, deletePending]

@[simp] theorem returnProbe_activeOperations (ret : HostReturn) (function : HostFunction) :
    (m.returnProbe probe ret function).activeOperations = m.activeOperations := by
  cases function with
  | domainAttachIommu =>
    unfold returnProbe hostDomainAttachExit
    cases m.hostPendingStates probe.pidTgid with
    | none => rfl
    | some active => simp [deletePending]
  | qiSubmitSync =>
    unfold returnProbe hostQiComplete
    cases m.hostPendingStates probe.pidTgid with
    | none => rfl
    | some active =>
      cases hop : m.activeOperations probe.pidTgid with
      | none => rfl
      | some operation => simp [deletePending]
  | intelIrComposeMsiMsg =>
    unfold returnProbe hostIrMsiExit
    cases m.hostPendingStates probe.pidTgid with
    | none => rfl
    | some active =>
      cases hread : ret.kernel active.message with
      | none => simp [hread, deletePending]
      | some message => simp [hread, deletePending]

/-- **The event of a return** has the values that are in the map. -/
theorem returnProbe_event {ret : HostReturn} {function : HostFunction} {active : HostPending}
    (hqemu : currentProcessIsQemu probe.comm = true) (hroom : probe.room = true)
    (hslot : m.hostPendingStates probe.pidTgid = some active)
    (hlooks : m.LooksUp probe.pidTgid function)
    (hread : function = .intelIrComposeMsiMsg → (ret.kernel active.message).isSome) :
    ∃ event, (m.returnProbe probe ret function).events = m.events ++ [event] ∧
      ret.Carried function active event := by
  cases function with
  | domainAttachIommu =>
    simp only [returnProbe, hostDomainAttachExit, hslot, reserveEvent, hqemu, if_true,
      reserveUnfilteredEvent, hroom, Option.map_some]
    exact ⟨_, rfl, rfl, rfl, rfl, rfl, rfl⟩
  | qiSubmitSync =>
    obtain ⟨operation, hop⟩ := Option.isSome_iff_exists.mp (hlooks rfl)
    simp only [returnProbe, hostQiComplete, hslot, hop, reserveEvent, hqemu, if_true,
      reserveUnfilteredEvent, hroom, Option.map_some]
    exact ⟨_, rfl, rfl, rfl, rfl, rfl, rfl, rfl, rfl, rfl⟩
  | intelIrComposeMsiMsg =>
    obtain ⟨message, hmessage⟩ := Option.isSome_iff_exists.mp (hread rfl)
    simp only [returnProbe, hostIrMsiExit, hslot, hmessage, reserveEvent, hqemu, if_true,
      reserveUnfilteredEvent, hroom, Option.map_some]
    exact ⟨_, rfl, rfl, rfl, message, hmessage, rfl, rfl⟩

/-- Events were added, of return probes or of others. -/
def Adds (m m' : HostMaps) (isReturn : Bool) : Prop :=
  Added VtdEventKind.isReturn isReturn m.events m'.events

theorem Adds.same {m' : HostMaps} (h : m'.events = m.events) (isReturn : Bool) :
    m.Adds m' isReturn := by
  unfold Adds
  rw [h]
  exact .same isReturn

theorem Adds.submit {n : HostMaps} (h : m.events = n.events) {phase : VtdGuestPhase}
    {k : VtdEventKind} {fill : VtdEvent → VtdEvent}
    (hfill : ∀ event, (fill event).eventInfo.kind = event.eventInfo.kind) :
    n.Adds (m.submit ((reserveEvent probe phase k).map fill)) k.isReturn := by
  unfold Adds
  rw [submit_events, h]
  exact .reserved hfill

theorem adds_enterIoctl (user : UserMemory) (args : IoctlArgs) :
    m.Adds (m.enterIoctl probe user args) false := by
  unfold enterIoctl
  split
  · exact .same rfl false
  · refine .submit (k := .ioctlEnter) ?_ fun _ => rfl
    dsimp only
    split <;> rfl

theorem adds_exitIoctl (user : UserMemory) (ret : BitVec 64) :
    m.Adds (m.exitIoctl probe user ret) false := by
  unfold exitIoctl
  split
  · exact .same rfl false
  · exact Adds.submit (m := m) (n := m) (k := .ioctlExit) rfl fun _ => rfl

theorem adds_entryProbe (args : HostArgs) : m.Adds (m.entryProbe probe args) false := by
  cases args with
  | domainAttachIommu domain iommu seqId =>
    rw [entryProbe, hostDomainAttachEnter]
    split
    · exact .same rfl false
    · exact .submit (k := .domainAttachEnter) (savePending_events _) fun _ => rfl
  | qiSubmitSync iommu descriptor count options seqId =>
    rw [entryProbe, hostQiSubmit]
    split
    · exact .same rfl false
    · split
      · exact .same rfl false
      · exact .submit (k := .qiSubmit) (savePending_events _) fun _ => rfl
  | intelIrComposeMsiMsg message irq =>
    rw [entryProbe, hostIrMsiEntry]
    split
    · exact .same rfl false
    · exact .same (savePending_events _) false

theorem adds_returnProbe (ret : HostReturn) (function : HostFunction) :
    m.Adds (m.returnProbe probe ret function) true := by
  cases function with
  | domainAttachIommu =>
    rw [returnProbe, hostDomainAttachExit]
    split
    · exact .same rfl true
    · exact Adds.submit (m := m) (n := m) (k := .domainAttachExit) rfl fun _ => rfl
  | qiSubmitSync =>
    rw [returnProbe, hostQiComplete]
    split
    · exact Adds.submit (m := m) (n := m) (k := .qiComplete) rfl fun _ => rfl
    · exact .same rfl true
  | intelIrComposeMsiMsg =>
    rw [returnProbe, hostIrMsiExit]
    split
    · exact .same rfl true
    · dsimp only
      split
      · exact .same rfl true
      · exact Adds.submit (m := m) (n := m) (k := .irMsiMessage) rfl fun _ => rfl

end HostMaps

end LinuxMaxxing.VirtVtd
