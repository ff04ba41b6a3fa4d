import LinuxMaxxing.Lib.Spans
import LinuxMaxxing.Virtio.Layout

/-!
# The virt-virtio Observer

The probes of `virtio.bpf.c` on `ioctl` and on four functions of the VMM. An entry probe numbers
its call, saves what it is about under the `pid_tgid` of its task and reports it; a return probe
looks up what was saved, reports it again with the result and the time taken, and deletes it.

- every map is keyed by `pid_tgid`, and a probe uses no other key than that of its task, so the
  maps are kept as the entries of each task (`Entries`);
- an update of a full map fails and is counted in `lab_failures`, an event that the ring buffer
  has no room for in `lab_dropped`;
- a probe runs without another one in between on its CPU: its scratch event is its own.
-/

namespace LinuxMaxxing.Virtio

open LinuxMaxxing.Lib

/-! ## Events -/

/-- The functions with a pair of probes. -/
inductive Function where
  | mmio
  | processQueue
  | ioeventfdKick
  | irqfdSignal
  | ioctl
  deriving DecidableEq, Repr

/-- `enum virtio_event_type` -/
inductive VirtioEventType where
  | mmio
  | queueBackendBegin
  | queueBackendEnd
  | ioeventfdKick
  | irqfdSignal
  | sysEnterIoctl
  | sysExitIoctl
  | mmioReturn
  | ioeventfdKickReturn
  | irqfdSignalReturn
  deriving DecidableEq, Repr

/-- Where an event stands in a call. -/
def VirtioEventType.edge : VirtioEventType → Edge Function
  | .mmio => .enter .mmio
  | .queueBackendBegin => .enter .processQueue
  | .queueBackendEnd => .leave .processQueue
  | .ioeventfdKick => .enter .ioeventfdKick
  | .irqfdSignal => .enter .irqfdSignal
  | .sysEnterIoctl => .enter .ioctl
  | .sysExitIoctl => .leave .ioctl
  | .mmioReturn => .leave .mmio
  | .ioeventfdKickReturn => .leave .ioeventfdKick
  | .irqfdSignalReturn => .leave .irqfdSignal

/-- The `mmio_*` members of an event; `mmio_value` counts if it is present. -/
structure MmioInfo where
  address : BitVec 64
  offset : BitVec 32
  length : BitVec 8
  isWrite : Bool
  value : Option (BitVec 32)
  deriving DecidableEq, Repr

/-- `struct virtio_event_info`; what has a `present` member is there or not. -/
structure VirtioEventInfo where
  event : VirtioEventType
  mmio : Option MmioInfo := none
  returnValue : Option (BitVec 32) := none
  ioeventfdCount : Option (BitVec 64) := none
  irqfdCount : Option (BitVec 64) := none
  callId : BitVec 64 := 0
  operationId : BitVec 64 := 0
  durationNs : BitVec 64 := 0
  deriving DecidableEq, Repr

/-- `struct virtio_context` -/
structure VirtioContext where
  pid : BitVec 32
  tid : BitVec 32
  cpu : BitVec 32
  comm : List UInt8
  deriving DecidableEq, Repr

/-- `struct virtio_avail_state` -/
structure VirtioAvailState where
  flags : BitVec 16
  idx : BitVec 16
  ring : List (BitVec 16)
  deriving DecidableEq, Repr

/-- `struct virtio_used_state`, with id and length of each element. -/
structure VirtioUsedState where
  flags : BitVec 16
  idx : BitVec 16
  ring : List (BitVec 32 × BitVec 32)
  deriving DecidableEq, Repr

/-- `struct virtio_ioctl_state`; the result and the duration of a completed one. -/
structure VirtioIoctlState where
  fd : BitVec 32
  request : BitVec 64
  argument : BitVec 64
  completed : Option (BitVec 64 × BitVec 64) := none
  deriving DecidableEq, Repr

/-- `struct virtio_state`; a sampled device comes with its queue. -/
structure VirtioState where
  device : Option VirtioMmioDevice := none
  descriptor : Option (List VirtqDesc) := none
  avail : Option VirtioAvailState := none
  used : Option VirtioUsedState := none
  bufferPreview : Option (List UInt8) := none
  ioctl : Option VirtioIoctlState := none
  deriving DecidableEq, Repr

/-- `struct virtio_event` -/
structure VirtioEvent where
  timeNs : BitVec 64
  eventInfo : VirtioEventInfo
  context : VirtioContext
  state : VirtioState := {}
  deriving DecidableEq, Repr

/-! ## What a probe is given -/

/-- What `struct observed_kvm_run` shows of an access; `data` are the first four bytes. -/
structure ObservedMmio where
  physAddr : BitVec 64
  data : BitVec 32
  len : BitVec 32
  isWrite : Bool
  deriving DecidableEq, Repr

/-- What `bpf_probe_read_user` gives at an address. -/
structure UserMemory where
  run : BitVec 64 → Option ObservedMmio
  device : BitVec 64 → Option VirtioMmioDevice
  descriptors : BitVec 64 → Option (List VirtqDesc)
  avail : BitVec 64 → Option VirtioAvailState
  used : BitVec 64 → Option VirtioUsedState
  bytes : BitVec 64 → Option (List UInt8)

/-- The maps that are updated. -/
inductive MapId where
  | active (f : Function)
  | ioctlCounters
  | operationCounters
  deriving DecidableEq, Repr

/-- The task that runs into a probe, when and where, and what the maps and the ring buffer do. -/
structure Probe where
  timeNs : BitVec 64
  pidTgid : BitVec 64
  cpu : BitVec 32
  comm : List UInt8
  user : UserMemory
  full : MapId → Bool
  room : Bool

/-- `is_vmm_comm` -/
def isVmmComm (comm : List UInt8) : Bool := comm.take 4 = [0x76, 0x6d, 0x6d, 0]

/-- `new_event` -/
def newEvent (probe : Probe) (event : VirtioEventType) : Option VirtioEvent :=
  if isVmmComm probe.comm then
    some
      { timeNs := probe.timeNs
        eventInfo := { event := event }
        context :=
          { pid := (probe.pidTgid >>> 32).setWidth 32
            tid := probe.pidTgid.setWidth 32
            cpu := probe.cpu
            comm := probe.comm } }
  else none

/-- `sample_device` -/
def sampleDevice (user : UserMemory) (dev : BitVec 64) (event : VirtioEvent) : VirtioEvent :=
  if dev = 0 then event else { event with state.device := user.device dev }

/-- `sample_queue_memory` -/
def sampleQueueMemory (user : UserMemory) (guestMem : BitVec 64) (event : VirtioEvent) :
    VirtioEvent :=
  match event.state.device with
  | none => event
  | some dev =>
    if guestMem = 0 ∨ dev.queue.descAddr.toNat ≠ virtqDescGpa ∨
        dev.queue.driverAddr.toNat ≠ virtqAvailGpa ∨ dev.queue.deviceAddr.toNat ≠ virtqUsedGpa then
      event
    else
      { event with
        state.descriptor := user.descriptors (guestMem + BitVec.ofNat 64 virtqDescGpa)
        state.avail := user.avail (guestMem + BitVec.ofNat 64 virtqAvailGpa)
        state.used := user.used (guestMem + BitVec.ofNat 64 virtqUsedGpa) }

/-- `sample_buffer_preview` -/
def sampleBufferPreview (user : UserMemory) (guestMem : BitVec 64) (event : VirtioEvent) :
    VirtioEvent :=
  if guestMem = 0 then event
  else { event with state.bufferPreview := user.bytes (guestMem + BitVec.ofNat 64 virtioRngBufferGpa) }

/-- The samples that every report of the VMM's functions ends with. -/
def sample (user : UserMemory) (dev guestMem : BitVec 64) (event : VirtioEvent) : VirtioEvent :=
  sampleQueueMemory user guestMem (sampleDevice user dev event)

/-! ## What is saved -/

/-- `struct process_args` -/
structure ProcessArgs where
  dev : BitVec 64
  guestMem : BitVec 64
  startedNs : BitVec 64
  operationId : BitVec 64

/-- `struct mmio_args` -/
structure MmioArgs where
  dev : BitVec 64
  guestMem : BitVec 64
  run : BitVec 64
  startedNs : BitVec 64
  operationId : BitVec 64

/-- `struct helper_args` -/
structure HelperArgs where
  dev : BitVec 64
  guestMem : BitVec 64
  startedNs : BitVec 64
  operationId : BitVec 64
  count : BitVec 64

/-- `struct ioctl_call` -/
structure IoctlCall where
  request : BitVec 64
  argument : BitVec 64
  startedNs : BitVec 64
  callId : BitVec 64
  fd : BitVec 32

/-- The values of the map of a function. -/
@[reducible] def Saved : Function → Type
  | .mmio => MmioArgs
  | .processQueue => ProcessArgs
  | .ioeventfdKick => HelperArgs
  | .irqfdSignal => HelperArgs
  | .ioctl => IoctlCall

/-- The entries of the maps under one `pid_tgid`: `active_mmio` and the other maps of calls in
    progress, and the two counters. -/
structure Entries where
  active : (f : Function) → Option (Saved f)
  ioctlCounters : Option (BitVec 64)
  operationCounters : Option (BitVec 64)

/-- No entry under this key. -/
def Entries.none : Entries := ⟨fun _ => .none, .none, .none⟩

/-- The entries of the current task and `lab_failures`. -/
structure Local where
  entries : Entries
  failures : Nat

/-- `lab_map_update` under the key of the current task. -/
def Local.labMapUpdate (l : Local) (probe : Probe) (map : MapId) (set : Entries → Entries) : Local :=
  if probe.full map then { l with failures := l.failures + 1 }
  else { l with entries := set l.entries }

/-- `lab_map_update(&active_…, …)` -/
def Local.save (l : Local) (probe : Probe) (f : Function) (value : Saved f) : Local :=
  l.labMapUpdate probe (.active f) fun entries =>
    { entries with active := Function.update entries.active f (some value) }

/-- `bpf_map_delete_elem(&active_…, …)` -/
def Local.delete (l : Local) (f : Function) : Local :=
  { l with entries.active := Function.update l.entries.active f none }

/-- `next_operation_id` -/
def Local.nextOperationId (l : Local) (probe : Probe) : Local × BitVec 64 :=
  let next := (l.entries.operationCounters.map (· + 1)).getD 1
  (l.labMapUpdate probe .operationCounters fun entries =>
    { entries with operationCounters := some next }, next)

/-! ## Entry probes -/

/-- The function that a task calls and its arguments; those that the function does not have are
    not looked at. -/
structure ProbedCall where
  function : Function
  dev : BitVec 64 := 0
  guestMem : BitVec 64 := 0
  run : BitVec 64 := 0
  count : BitVec 64 := 0
  fd : BitVec 64 := 0
  request : BitVec 64 := 0
  argument : BitVec 64 := 0
  deriving DecidableEq, Repr

/-- `observe_ioctl_enter` -/
def observeIoctlEnter (probe : Probe) (call : ProbedCall) (l : Local) : Local × Option VirtioEvent :=
  match newEvent probe .sysEnterIoctl with
  | none => (l, none)
  | some event =>
    let next := (l.entries.ioctlCounters.map (· + 1)).getD 1
    let saved : IoctlCall :=
      { fd := call.fd.setWidth 32
        request := call.request
        argument := call.argument
        startedNs := event.timeNs
        callId := next }
    let l := l.labMapUpdate probe .ioctlCounters fun entries =>
      { entries with ioctlCounters := some next }
    let l := l.save probe .ioctl saved
    (l, some
      { event with
        eventInfo.callId := next
        state.ioctl := some
          { fd := saved.fd, request := saved.request, argument := saved.argument } })

/-- The `mmio_*` members of an access. -/
def mmioInfo (observed : ObservedMmio) (value : Option (BitVec 32)) : MmioInfo where
  address := observed.physAddr
  offset := (observed.physAddr - BitVec.ofNat 64 virtioMmioBase).setWidth 32
  length := observed.len.setWidth 8
  isWrite := observed.isWrite
  value := value

/-- `observe_do_mmio` -/
def observeDoMmio (probe : Probe) (call : ProbedCall) (l : Local) : Local × Option VirtioEvent :=
  match newEvent probe .mmio with
  | none => (l, none)
  | some event =>
    if call.run = 0 then (l, none)
    else
      match probe.user.run call.run with
      | none => (l, none)
      | some observed =>
        let (l, next) := l.nextOperationId probe
        let l := l.save probe .mmio
          { dev := call.dev
            guestMem := call.guestMem
            run := call.run
            startedNs := event.timeNs
            operationId := next }
        -- the value of a read is not known before the return
        let value := if observed.isWrite then some observed.data else none
        (l, some (sample probe.user call.dev call.guestMem
          { event with
            eventInfo.operationId := next
            eventInfo.mmio := some (mmioInfo observed value) }))

/-- `observe_process_queue_begin` -/
def observeProcessQueueBegin (probe : Probe) (call : ProbedCall) (l : Local) :
    Local × Option VirtioEvent :=
  match newEvent probe .queueBackendBegin with
  | none => (l, none)
  | some event =>
    let (l, next) := l.nextOperationId probe
    let l := l.save probe .processQueue
      { dev := call.dev
        guestMem := call.guestMem
        startedNs := event.timeNs
        operationId := next }
    (l, some (sample probe.user call.dev call.guestMem
      { event with eventInfo.operationId := next }))

/-- `observe_ioeventfd_kick` -/
def observeIoeventfdKick (probe : Probe) (call : ProbedCall) (l : Local) : Local × Option VirtioEvent :=
  match newEvent probe .ioeventfdKick with
  | none => (l, none)
  | some event =>
    let (l, next) := l.nextOperationId probe
    let l := l.save probe .ioeventfdKick
      { dev := call.dev
        guestMem := call.guestMem
        startedNs := event.timeNs
        operationId := next
        count := call.count }
    (l, some (sample probe.user call.dev call.guestMem
      { event with
        eventInfo.operationId := next
        eventInfo.ioeventfdCount := some call.count }))

/-- `observe_irqfd_signal` -/
def observeIrqfdSignal (probe : Probe) (call : ProbedCall) (l : Local) : Local × Option VirtioEvent :=
  match newEvent probe .irqfdSignal with
  | none => (l, none)
  | some event =>
    let (l, next) := l.nextOperationId probe
    let l := l.save probe .irqfdSignal
      { dev := call.dev
        guestMem := call.guestMem
        startedNs := event.timeNs
        operationId := next
        count := call.count }
    (l, some (sample probe.user call.dev call.guestMem
      { event with
        eventInfo.operationId := next
        eventInfo.irqfdCount := some call.count }))

/-- The entry probe of the function that is called. -/
def entryProbe (probe : Probe) (call : ProbedCall) : Local → Local × Option VirtioEvent :=
  match call.function with
  | .mmio => observeDoMmio probe call
  | .processQueue => observeProcessQueueBegin probe call
  | .ioeventfdKick => observeIoeventfdKick probe call
  | .irqfdSignal => observeIrqfdSignal probe call
  | .ioctl => observeIoctlEnter probe call

/-! ## Return probes -/

/-- `observe_ioctl_exit` -/
def observeIoctlExit (probe : Probe) (ret : BitVec 64) (l : Local) : Local × Option VirtioEvent :=
  match l.entries.active .ioctl with
  | none => (l, none)
  | some call =>
    (l.delete .ioctl, (newEvent probe .sysExitIoctl).map fun event =>
      { event with
        eventInfo.callId := call.callId
        state.ioctl := some
          { fd := call.fd
            request := call.request
            argument := call.argument
            completed := some (ret, event.timeNs - call.startedNs) } })

/-- `observe_do_mmio_end` -/
def observeDoMmioEnd (probe : Probe) (ret : BitVec 64) (l : Local) : Local × Option VirtioEvent :=
  match l.entries.active .mmio with
  | none => (l, none)
  | some args =>
    (l.delete .mmio, (newEvent probe .mmioReturn).bind fun event =>
      (probe.user.run args.run).map fun observed =>
        sample probe.user args.dev args.guestMem
          { event with
            eventInfo.operationId := args.operationId
            eventInfo.durationNs := event.timeNs - args.startedNs
            eventInfo.mmio := some (mmioInfo observed (some observed.data))
            eventInfo.returnValue := some (ret.setWidth 32) })

/-- `observe_ioeventfd_kick_end` -/
def observeIoeventfdKickEnd (probe : Probe) (ret : BitVec 64) (l : Local) :
    Local × Option VirtioEvent :=
  match l.entries.active .ioeventfdKick with
  | none => (l, none)
  | some args =>
    (l.delete .ioeventfdKick, (newEvent probe .ioeventfdKickReturn).map fun event =>
      sample probe.user args.dev args.guestMem
        { event with
          eventInfo.operationId := args.operationId
          eventInfo.durationNs := event.timeNs - args.startedNs
          eventInfo.returnValue := some (ret.setWidth 32)
          eventInfo.ioeventfdCount := some args.count })

/-- `observe_irqfd_signal_end` -/
def observeIrqfdSignalEnd (probe : Probe) (ret : BitVec 64) (l : Local) :
    Local × Option VirtioEvent :=
  match l.entries.active .irqfdSignal with
  | none => (l, none)
  | some args =>
    (l.delete .irqfdSignal, (newEvent probe .irqfdSignalReturn).map fun event =>
      sample probe.user args.dev args.guestMem
        { event with
          eventInfo.operationId := args.operationId
          eventInfo.durationNs := event.timeNs - args.startedNs
          eventInfo.returnValue := some (ret.setWidth 32)
          eventInfo.irqfdCount := some args.count })

/-- `observe_process_queue_end`, which reports a return also without saved arguments. -/
def observeProcessQueueEnd (probe : Probe) (ret : BitVec 64) (l : Local) :
    Local × Option VirtioEvent :=
  (l.delete .processQueue, (newEvent probe .queueBackendEnd).map fun event =>
    let event : VirtioEvent := { event with eventInfo.returnValue := some (ret.setWidth 32) }
    match l.entries.active .processQueue with
    | none => event
    | some args =>
      let event := sample probe.user args.dev args.guestMem
        { event with
          eventInfo.operationId := args.operationId
          eventInfo.durationNs := event.timeNs - args.startedNs }
      if ret.setWidth 32 = 0#32 then sampleBufferPreview probe.user args.guestMem event else event)

/-- The return probe of the function that returns. -/
def returnProbe (probe : Probe) (ret : BitVec 64) :
    Function → Local → Local × Option VirtioEvent
  | .mmio => observeDoMmioEnd probe ret
  | .processQueue => observeProcessQueueEnd probe ret
  | .ioeventfdKick => observeIoeventfdKickEnd probe ret
  | .irqfdSignal => observeIrqfdSignalEnd probe ret
  | .ioctl => observeIoctlExit probe ret

/-! ## The observer -/

/-- The maps, the two counters of `observer_bpf.h` and the ring buffer. -/
structure Observer where
  entries : BitVec 64 → Entries
  dropped : Nat
  failures : Nat
  events : List VirtioEvent

namespace Observer

/-- `emit_event` -/
def emitEvent (o : Observer) (probe : Probe) : Option VirtioEvent → Observer
  | none => o
  | some event =>
    if probe.room then { o with events := o.events ++ [event] }
    else { o with dropped := o.dropped + 1 }

/-- A probe of the current task. -/
def runProbe (o : Observer) (probe : Probe) (code : Local → Local × Option VirtioEvent) : Observer :=
  let result := code ⟨o.entries probe.pidTgid, o.failures⟩
  { o with
    entries := Function.update o.entries probe.pidTgid result.1.entries
    failures := result.1.failures }.emitEvent probe result.2

/-- The observer has just been attached. -/
def start : Observer := ⟨fun _ => .none, 0, 0, []⟩

end Observer

end LinuxMaxxing.Virtio
