import Mathlib.Data.BitVec

/-!
# Events of the VT-d Observer

`struct vtd_event` as the probes of `vtd.bpf.c` fill it in, and what the helpers of a probe give
it: the current task, its name, the CPU, and whether the ring buffer and the maps have room.

Fields that only the tracepoint probes write are left out.
-/

namespace LinuxMaxxing.VirtVtd

/-- `enum vtd_operation` -/
inductive VtdOperation where
  | none
  | vfioMap
  | vfioUnmap
  | kvmMemoryRegion
  | vfioIrqSet
  deriving DecidableEq, Repr

/-- `enum vtd_event_kind` -/
inductive VtdEventKind where
  | ioctlEnter
  | iommuMap
  | iommuUnmap
  | deviceAttach
  | ioctlExit
  | irteActivate
  | irMsiMessage
  | kvmPiIrteUpdate
  | domainAttachEnter
  | domainAttachExit
  | qiSubmit
  | qiComplete
  | guestRunEntry
  | guestRunExit
  | guestDmaMapEntry
  | guestDmaMapExit
  | guestIrqEntry
  | guestIrqExit
  deriving DecidableEq, Repr

/-- `enum vtd_guest_phase` -/
inductive VtdGuestPhase where
  | none
  | loopbackRun
  deriving DecidableEq, Repr

/-- `enum vtd_sample_status` -/
inductive VtdSampleStatus where
  | complete
  | readFailed
  | invalidArgument
  deriving DecidableEq, Repr

/-- `struct vtd_event_info` -/
structure VtdEventInfo where
  kind : VtdEventKind
  operation : VtdOperation := .none
  fd : BitVec 32 := 0
  flags : BitVec 32 := 0
  argsz : BitVec 32 := 0
  slot : BitVec 32 := 0
  command : BitVec 64 := 0
  requestId : BitVec 64 := 0
  result : BitVec 64 := 0
  sampleStatus : VtdSampleStatus := .complete
  deriving DecidableEq, Repr

/-- `struct vtd_context` -/
structure VtdContext where
  pid : BitVec 32
  tid : BitVec 32
  cpu : BitVec 32
  comm : List UInt8
  deriving DecidableEq, Repr

/-- `struct vtd_state` -/
structure VtdState where
  hva : BitVec 64 := 0
  gpa : BitVec 64 := 0
  iova : BitVec 64 := 0
  size : BitVec 64 := 0
  returnedSize : BitVec 64 := 0
  irqIndex : BitVec 32 := 0
  irqStart : BitVec 32 := 0
  interruptAddress : BitVec 64 := 0
  interruptData : BitVec 64 := 0
  irq : BitVec 32 := 0
  irqCount : BitVec 32 := 0
  domainAddress : BitVec 64 := 0
  iommuAddress : BitVec 64 := 0
  qiDescriptor0 : BitVec 64 := 0
  qiDescriptor1 : BitVec 64 := 0
  iommuId : BitVec 32 := 0
  qiCount : BitVec 32 := 0
  qiOptions : BitVec 32 := 0
  dmaAddress : BitVec 64 := 0
  dataLength : BitVec 64 := 0
  dmaDirection : BitVec 32 := 0
  episodeId : BitVec 64 := 0
  guestPhase : VtdGuestPhase := .none
  action : List UInt8 := []
  deriving DecidableEq, Repr

/-- `struct vtd_event` -/
structure VtdEvent where
  timeNs : BitVec 64
  eventInfo : VtdEventInfo
  context : VtdContext
  state : VtdState
  deriving DecidableEq, Repr

/-- What the helpers give to a probe; `updates` and `room` say whether an update of a map and a
    reservation in the ring buffer succeed. -/
structure Probe where
  timeNs : BitVec 64
  pidTgid : BitVec 64
  cpu : BitVec 32
  comm : List UInt8
  updates : Bool
  room : Bool
  deriving DecidableEq, Repr

/-- `current_process_is_qemu`, for a task with this name. -/
def currentProcessIsQemu (comm : List UInt8) : Bool :=
  comm.take 4 = [0x71, 0x65, 0x6d, 0x75]

/-- `reserve_unfiltered_event`, in this phase of the guest. -/
def reserveUnfilteredEvent (probe : Probe) (phase : VtdGuestPhase) (kind : VtdEventKind) :
    Option VtdEvent :=
  if probe.room then
    some
      { timeNs := probe.timeNs
        eventInfo := { kind := kind }
        context :=
          { pid := (probe.pidTgid >>> 32).setWidth 32
            tid := probe.pidTgid.setWidth 32
            cpu := probe.cpu
            comm := probe.comm }
        state := { guestPhase := phase } }
  else none

/-- `reserve_event` -/
def reserveEvent (probe : Probe) (phase : VtdGuestPhase) (kind : VtdEventKind) :
    Option VtdEvent :=
  if currentProcessIsQemu probe.comm then reserveUnfilteredEvent probe phase kind else none

/-! ## What a probe adds to the ring buffer -/

/-- Events were added, all of these kinds or none of them. -/
def Added (kinds : VtdEventKind → Bool) (among : Bool) (before after : List VtdEvent) : Prop :=
  ∃ events, after = before ++ events ∧ ∀ event ∈ events, kinds event.eventInfo.kind = among

section Added

variable {kinds : VtdEventKind → Bool} {before after : List VtdEvent}

theorem Added.same (among : Bool) : Added kinds among before before :=
  ⟨[], (List.append_nil _).symm, fun _ hmem => absurd hmem List.not_mem_nil⟩

theorem kind_of_reserveUnfiltered {probe : Probe} {phase : VtdGuestPhase} {kind : VtdEventKind}
    {event : VtdEvent} (h : reserveUnfilteredEvent probe phase kind = some event) :
    event.eventInfo.kind = kind := by
  unfold reserveUnfilteredEvent at h
  split at h
  · obtain rfl := Option.some.inj h
    rfl
  · cases h

/-- An event that is reserved and filled in keeps its kind. -/
theorem Added.unfiltered {probe : Probe} {phase : VtdGuestPhase} {kind : VtdEventKind}
    {fill : VtdEvent → VtdEvent}
    (hfill : ∀ event, (fill event).eventInfo.kind = event.eventInfo.kind) :
    Added kinds (kinds kind) before
      (before ++ ((reserveUnfilteredEvent probe phase kind).map fill).toList) := by
  refine ⟨_, rfl, ?_⟩
  intro event hmem
  obtain ⟨reserved, hreserved, rfl⟩ := Option.map_eq_some_iff.mp (Option.mem_toList.mp hmem)
  rw [hfill, kind_of_reserveUnfiltered hreserved]

theorem Added.reserved {probe : Probe} {phase : VtdGuestPhase} {kind : VtdEventKind}
    {fill : VtdEvent → VtdEvent}
    (hfill : ∀ event, (fill event).eventInfo.kind = event.eventInfo.kind) :
    Added kinds (kinds kind) before
      (before ++ ((reserveEvent probe phase kind).map fill).toList) := by
  unfold reserveEvent
  split
  · exact Added.unfiltered hfill
  · rw [Option.map_none, Option.toList_none, List.append_nil]
    exact Added.same _

theorem Added.filter_others (h : Added kinds false before after) :
    after.filter (fun event => kinds event.eventInfo.kind) =
      before.filter fun event => kinds event.eventInfo.kind := by
  obtain ⟨events, rfl, hkind⟩ := h
  have hnone : events.filter (fun event => kinds event.eventInfo.kind) = [] := by
    rw [List.filter_eq_nil_iff]
    intro event hevent
    rw [hkind event hevent]
    exact Bool.false_ne_true
  rw [List.filter_append, hnone, List.append_nil]

theorem Added.filter_all (h : Added kinds true before after) :
    after.filter (fun event => kinds event.eventInfo.kind) =
      before.filter (fun event => kinds event.eventInfo.kind) ++ after.drop before.length := by
  obtain ⟨events, rfl, hkind⟩ := h
  have hall : events.filter (fun event => kinds event.eventInfo.kind) = events :=
    List.filter_eq_self.mpr hkind
  rw [List.filter_append, hall, List.drop_left]

end Added

end LinuxMaxxing.VirtVtd
