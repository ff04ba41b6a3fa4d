import LinuxMaxxing.Lib.Transition
import LinuxMaxxing.Virtio.ObserverProbes

/-!
# What the virt-virtio Trace Says

Tasks call the functions that the observer has probes on, call each other's probes in any order,
and return from them innermost first. `observed_trace` relates the trace to what happened: if
nothing was dropped and no map update failed,

- the events are the calls and returns of the VMM's tasks, in their order;
- an entry event has the next number of its task, an `ioctl` its own count and the VMM's functions
  theirs;
- a return event answers the innermost entry event that is still open in its task: it has the
  number and the values of that event and the time that has passed since.
-/

namespace LinuxMaxxing.Virtio

open LinuxMaxxing.Lib

/-! ## Reading the trace -/

namespace VirtioEvent

variable (e : VirtioEvent)

/-- The `pid_tgid` that an event was reported under. -/
def task : BitVec 64 := e.context.pid ++ e.context.tid

def edge : Edge Function := e.eventInfo.event.edge

/-- What a return event says about the time in its call. -/
def duration : BitVec 64 :=
  match e.state.ioctl.bind (·.completed) with
  | some (_, durationNs) => durationNs
  | none => e.eventInfo.durationNs

/-- The descriptor, request and argument of an `ioctl`. -/
def ioctlArgs : Option (BitVec 32 × BitVec 64 × BitVec 64) :=
  e.state.ioctl.map fun ioctl => (ioctl.fd, ioctl.request, ioctl.argument)

/-- `e` is the return of the call that `o` is the entry of. -/
structure Answers (o : VirtioEvent) (f : Function) : Prop where
  opened : o.edge = .enter f
  callId : e.eventInfo.callId = o.eventInfo.callId
  operationId : e.eventInfo.operationId = o.eventInfo.operationId
  ioctlArgs : e.ioctlArgs = o.ioctlArgs
  ioeventfdCount : e.eventInfo.ioeventfdCount = o.eventInfo.ioeventfdCount
  irqfdCount : e.eventInfo.irqfdCount = o.eventInfo.irqfdCount
  duration : e.duration = e.timeNs - o.timeNs

end VirtioEvent

/-- What the trace of one task has come to. -/
structure TaskView where
  opened : List VirtioEvent := []
  ioctls : Nat := 0
  operations : Nat := 0

namespace TaskView

/-- One more event. -/
def advance (v : TaskView) (e : VirtioEvent) : TaskView :=
  match e.edge with
  | .enter .ioctl => { v with opened := e :: v.opened, ioctls := v.ioctls + 1 }
  | .enter _ => { v with opened := e :: v.opened, operations := v.operations + 1 }
  | .leave _ => { v with opened := v.opened.tail }

/-- What an event has to say after the events of its task so far. -/
def Fits (v : TaskView) (e : VirtioEvent) : Prop :=
  match e.edge with
  | .enter .ioctl => e.eventInfo.callId = BitVec.ofNat 64 (v.ioctls + 1)
  | .enter _ => e.eventInfo.operationId = BitVec.ofNat 64 (v.operations + 1)
  | .leave f => ∃ o rest, v.opened = o :: rest ∧ e.Answers o f

end TaskView

/-- Reading the trace task by task. -/
def taskReader : Reader VirtioEvent (BitVec 64) TaskView where
  key := VirtioEvent.task
  start := {}
  advance := TaskView.advance

/-! ## Tasks under observation -/

/-- The observer, the name of each task, the calls in progress of the VMM's tasks (innermost
    first) and every call and return of theirs so far. -/
structure Observed where
  observer : Observer
  comm : BitVec 64 → List UInt8
  calls : BitVec 64 → List ProbedCall
  happened : List (BitVec 64 × Edge Function)

/-- What a task can do. -/
inductive Step where
  | enter (probe : Probe) (call : ProbedCall)
  | leave (probe : Probe) (ret : BitVec 64) (f : Function)
  | exec (task : BitVec 64) (comm : List UInt8)

namespace Observed

/-- A task calls a function, returns from one or becomes another program. None of the VMM's
    functions is called inside itself, and it returns from the innermost call. Other programs call
    `ioctl` as they like. -/
def step (s : Observed) : Step → Option Observed
  | .enter probe call =>
    if probe.comm = s.comm probe.pidTgid then
      let observer := s.observer.runProbe probe (entryProbe probe call)
      if isVmmComm probe.comm then
        if call.function ∈ (s.calls probe.pidTgid).map (·.function) then none
        else
          some
            { s with
              observer := observer
              calls := Function.update s.calls probe.pidTgid (call :: s.calls probe.pidTgid)
              happened := s.happened ++ [(probe.pidTgid, .enter call.function)] }
      else some { s with observer := observer }
    else none
  | .leave probe ret f =>
    if probe.comm = s.comm probe.pidTgid then
      let observer := s.observer.runProbe probe (returnProbe probe ret f)
      if isVmmComm probe.comm then
        match s.calls probe.pidTgid with
        | [] => none
        | call :: rest =>
          if call.function = f then
            some
              { s with
                observer := observer
                calls := Function.update s.calls probe.pidTgid rest
                happened := s.happened ++ [(probe.pidTgid, .leave f)] }
          else none
      else some { s with observer := observer }
    else none
  | .exec task comm =>
    -- the VMM does not become another program
    if isVmmComm (s.comm task) then none
    else some { s with comm := Function.update s.comm task comm }

end Observed

/-- The observer is attached before the first call. -/
def observed : System Observed Step where
  init s := s.observer = .start ∧ s.calls = (fun _ => []) ∧ s.happened = []
  step := Observed.step

/-- The probes on `do_mmio` can read the `kvm_run` of the VMM's virtual CPU. -/
def RunReadable (s : Observed) : Step → Prop
  | .enter probe call =>
    call.function = .mmio → call.run ≠ 0 ∧ (probe.user.run call.run).isSome
  | .leave probe _ _ =>
    ∀ call ∈ (s.calls probe.pidTgid).head?,
      call.function = .mmio → (probe.user.run call.run).isSome
  | .exec _ _ => True

instance (s : Observed) : (a : Step) → Decidable (RunReadable s a)
  | .enter _ _ => inferInstanceAs (Decidable (_ → _))
  | .leave _ _ _ => inferInstanceAs (Decidable (∀ _ ∈ _, _))
  | .exec _ _ => isTrue trivial

/-! ## What a probe reports and saves -/

theorem pidTgid_append (pidTgid : BitVec 64) :
    ((pidTgid >>> 32).setWidth 32 ++ pidTgid.setWidth 32 : BitVec 64) = pidTgid := by
  apply BitVec.eq_of_getLsbD_eq
  intro i hi
  simp only [BitVec.getLsbD_append, BitVec.getLsbD_setWidth, BitVec.getLsbD_ushiftRight]
  by_cases h : i < 32
  · simp [h]
  · have hlt : i - 32 < 32 := by omega
    have hsum : 32 + (i - 32) = i := by omega
    simp [h, hlt, hsum]

section Sample

variable (user : UserMemory) (dev guestMem : BitVec 64) (e : VirtioEvent)

/-- Sampling adds what it reads and leaves the rest of the event alone. -/
theorem sample_frame :
    (sample user dev guestMem e).timeNs = e.timeNs ∧
      (sample user dev guestMem e).eventInfo = e.eventInfo ∧
      (sample user dev guestMem e).context = e.context ∧
      (sample user dev guestMem e).state.ioctl = e.state.ioctl := by
  unfold sample sampleQueueMemory sampleDevice
  split_ifs <;> split <;> (try split_ifs) <;> exact ⟨rfl, rfl, rfl, rfl⟩

@[simp] theorem sample_timeNs : (sample user dev guestMem e).timeNs = e.timeNs :=
  (sample_frame user dev guestMem e).1

@[simp] theorem sample_eventInfo : (sample user dev guestMem e).eventInfo = e.eventInfo :=
  (sample_frame user dev guestMem e).2.1

@[simp] theorem sample_context : (sample user dev guestMem e).context = e.context :=
  (sample_frame user dev guestMem e).2.2.1

@[simp] theorem sample_ioctl : (sample user dev guestMem e).state.ioctl = e.state.ioctl :=
  (sample_frame user dev guestMem e).2.2.2

/-- The preview of the buffer leaves the rest of the event alone. -/
theorem sampleBufferPreview_frame :
    (sampleBufferPreview user guestMem e).timeNs = e.timeNs ∧
      (sampleBufferPreview user guestMem e).eventInfo = e.eventInfo ∧
      (sampleBufferPreview user guestMem e).context = e.context ∧
      (sampleBufferPreview user guestMem e).state.ioctl = e.state.ioctl := by
  unfold sampleBufferPreview
  split_ifs <;> exact ⟨rfl, rfl, rfl, rfl⟩

@[simp] theorem sampleBufferPreview_timeNs :
    (sampleBufferPreview user guestMem e).timeNs = e.timeNs :=
  (sampleBufferPreview_frame user guestMem e).1

@[simp] theorem sampleBufferPreview_eventInfo :
    (sampleBufferPreview user guestMem e).eventInfo = e.eventInfo :=
  (sampleBufferPreview_frame user guestMem e).2.1

@[simp] theorem sampleBufferPreview_context :
    (sampleBufferPreview user guestMem e).context = e.context :=
  (sampleBufferPreview_frame user guestMem e).2.2.1

@[simp] theorem sampleBufferPreview_ioctl :
    (sampleBufferPreview user guestMem e).state.ioctl = e.state.ioctl :=
  (sampleBufferPreview_frame user guestMem e).2.2.2

end Sample

theorem newEvent_vmm {probe : Probe} (hvmm : isVmmComm probe.comm) (event : VirtioEventType) :
    ∃ e, newEvent probe event = some e ∧ e.timeNs = probe.timeNs ∧ e.task = probe.pidTgid ∧
      e.eventInfo = { event := event } ∧ e.state = {} := by
  refine ⟨_, if_pos hvmm, rfl, ?_, rfl, rfl⟩
  exact pidTgid_append probe.pidTgid

theorem newEvent_of_not_vmm {probe : Probe} (hother : ¬ isVmmComm probe.comm)
    (event : VirtioEventType) : newEvent probe event = none := if_neg hother

/-- What an entry event says about its call. -/
structure Reports (call : ProbedCall) (e : VirtioEvent) : Prop where
  edge : e.edge = .enter call.function
  ioctlArgs : e.ioctlArgs =
    if call.function = .ioctl then some (call.fd.setWidth 32, call.request, call.argument) else none
  ioeventfdCount : e.eventInfo.ioeventfdCount =
    if call.function = .ioeventfdKick then some call.count else none
  irqfdCount : e.eventInfo.irqfdCount =
    if call.function = .irqfdSignal then some call.count else none
  callId : call.function ≠ .ioctl → e.eventInfo.callId = 0
  operationId : call.function = .ioctl → e.eventInfo.operationId = 0

/-- What is saved of a call that was reported. -/
def saved (f : Function) (p : ProbedCall × VirtioEvent) : Saved f :=
  match f with
  | .mmio =>
    { dev := p.1.dev
      guestMem := p.1.guestMem
      run := p.1.run
      startedNs := p.2.timeNs
      operationId := p.2.eventInfo.operationId }
  | .processQueue =>
    { dev := p.1.dev
      guestMem := p.1.guestMem
      startedNs := p.2.timeNs
      operationId := p.2.eventInfo.operationId }
  | .ioeventfdKick | .irqfdSignal =>
    { dev := p.1.dev
      guestMem := p.1.guestMem
      startedNs := p.2.timeNs
      operationId := p.2.eventInfo.operationId
      count := p.1.count }
  | .ioctl =>
    { fd := p.1.fd.setWidth 32
      request := p.1.request
      argument := p.1.argument
      startedNs := p.2.timeNs
      callId := p.2.eventInfo.callId }

/-- The entries of a task after a call that was reported. -/
def Entries.called (entries : Entries) (call : ProbedCall) (e : VirtioEvent) : Entries where
  active := Function.update entries.active call.function (some (saved call.function (call, e)))
  ioctlCounters :=
    if call.function = .ioctl then some e.eventInfo.callId else entries.ioctlCounters
  operationCounters :=
    if call.function = .ioctl then entries.operationCounters else some e.eventInfo.operationId

namespace Local

/-- Updates that counted no failure have all been made. -/
structure Took (l l' : Local) (set : Entries → Entries) : Prop where
  failures_le : l.failures ≤ l'.failures
  entries : l'.failures = l.failures → l'.entries = set l.entries

variable {l : Local} {probe : Probe} {map : MapId} {set : Entries → Entries}

theorem took_labMapUpdate : l.Took (l.labMapUpdate probe map set) set := by
  unfold labMapUpdate
  split_ifs with hfull
  · exact ⟨Nat.le_succ _, fun h => absurd h (Nat.succ_ne_self _)⟩
  · exact ⟨Nat.le_refl _, fun _ => rfl⟩

/-- An update after others. -/
theorem Took.labMapUpdate {l' : Local} {first : Entries → Entries} (h : l.Took l' first) :
    l.Took (l'.labMapUpdate probe map set) (set ∘ first) := by
  have hlast : l'.Took (l'.labMapUpdate probe map set) set := took_labMapUpdate
  constructor
  · exact h.failures_le.trans hlast.failures_le
  · intro heq
    have hmid : l'.failures = l.failures := by
      apply Nat.le_antisymm _ h.failures_le
      exact heq ▸ hlast.failures_le
    rw [hlast.entries (heq.trans hmid.symm), h.entries hmid]
    rfl

theorem Took.congr {l' : Local} {other : Entries → Entries} (h : l.Took l' set)
    (heq : set l.entries = other l.entries) : l.Took l' other :=
  ⟨h.failures_le, fun hfail => (h.entries hfail).trans heq⟩

end Local

theorem next_eq (last : Option (BitVec 64)) : (last.map (· + 1)).getD 1 = last.getD 0 + 1 := by
  cases last with
  | none => rfl
  | some n => rfl

section Took

variable {l : Local} {probe : Probe} {call : ProbedCall} {e : VirtioEvent} {next : BitVec 64}
  {f : Function} {value : Saved f}

/-- A call of one of the VMM's functions is saved after its number. -/
theorem took_operation (hf : call.function = f) (hop : f ≠ .ioctl)
    (hnext : e.eventInfo.operationId = next) (hvalue : saved f (call, e) = value) :
    l.Took ((l.labMapUpdate probe .operationCounters fun entries =>
        { entries with operationCounters := some next }).save probe f value)
      (fun entries => entries.called call e) := by
  subst hf
  apply Local.Took.congr (Local.took_labMapUpdate.labMapUpdate)
  simp only [Function.comp_apply, Entries.called, if_neg hop, hnext, hvalue]

/-- An `ioctl` is saved after its number. -/
theorem took_ioctl (hf : call.function = f) (hioctl : f = .ioctl)
    (hnext : e.eventInfo.callId = next) (hvalue : saved f (call, e) = value) :
    l.Took ((l.labMapUpdate probe .ioctlCounters fun entries =>
        { entries with ioctlCounters := some next }).save probe f value)
      (fun entries => entries.called call e) := by
  subst hf
  apply Local.Took.congr (Local.took_labMapUpdate.labMapUpdate)
  simp only [Function.comp_apply, Entries.called, if_pos hioctl, hnext, hvalue]

end Took

/-- **The entry probes.** They report the call under its next number, and what they save is what
    they reported, unless a map is full. -/
theorem entryProbe_spec {probe : Probe} {call : ProbedCall} (hvmm : isVmmComm probe.comm)
    (hrun : call.function = .mmio → call.run ≠ 0 ∧ (probe.user.run call.run).isSome) (l : Local) :
    ∃ l' e, entryProbe probe call l = (l', some e) ∧ Reports call e ∧ e.task = probe.pidTgid ∧
      l.Took l' (fun entries => entries.called call e) ∧
      (if call.function = .ioctl then
        e.eventInfo.callId = l.entries.ioctlCounters.getD 0 + 1
      else e.eventInfo.operationId = l.entries.operationCounters.getD 0 + 1) := by
  obtain ⟨f, dev, guestMem, run, count, fd, request, argument⟩ := call
  cases f with
  | mmio =>
    obtain ⟨hne, hsome⟩ := hrun rfl
    obtain ⟨observed, hobserved⟩ := Option.isSome_iff_exists.mp hsome
    obtain ⟨e, hnew, -, htask, hinfo, hstate⟩ := newEvent_vmm hvmm .mmio
    simp only [entryProbe, observeDoMmio, hnew, hne, hobserved, if_false, Local.nextOperationId,
      next_eq]
    refine ⟨_, _, rfl, ?_, ?_, took_operation rfl (by simp) ?_ ?_, ?_⟩
    · constructor <;>
        simp [VirtioEvent.edge, VirtioEvent.ioctlArgs, VirtioEventType.edge, hinfo, hstate]
    · simpa [VirtioEvent.task] using htask
    · simp
    · simp [saved]
    · simp
  | processQueue =>
    obtain ⟨e, hnew, -, htask, hinfo, hstate⟩ := newEvent_vmm hvmm .queueBackendBegin
    simp only [entryProbe, observeProcessQueueBegin, hnew, Local.nextOperationId, next_eq]
    refine ⟨_, _, rfl, ?_, ?_, took_operation rfl (by simp) ?_ ?_, ?_⟩
    · constructor <;>
        simp [VirtioEvent.edge, VirtioEvent.ioctlArgs, VirtioEventType.edge, hinfo, hstate]
    · simpa [VirtioEvent.task] using htask
    · simp
    · simp [saved]
    · simp
  | ioeventfdKick =>
    obtain ⟨e, hnew, -, htask, hinfo, hstate⟩ := newEvent_vmm hvmm .ioeventfdKick
    simp only [entryProbe, observeIoeventfdKick, hnew, Local.nextOperationId, next_eq]
    refine ⟨_, _, rfl, ?_, ?_, took_operation rfl (by simp) ?_ ?_, ?_⟩
    · constructor <;>
        simp [VirtioEvent.edge, VirtioEvent.ioctlArgs, VirtioEventType.edge, hinfo, hstate]
    · simpa [VirtioEvent.task] using htask
    · simp
    · simp [saved]
    · simp
  | irqfdSignal =>
    obtain ⟨e, hnew, -, htask, hinfo, hstate⟩ := newEvent_vmm hvmm .irqfdSignal
    simp only [entryProbe, observeIrqfdSignal, hnew, Local.nextOperationId, next_eq]
    refine ⟨_, _, rfl, ?_, ?_, took_operation rfl (by simp) ?_ ?_, ?_⟩
    · constructor <;>
        simp [VirtioEvent.edge, VirtioEvent.ioctlArgs, VirtioEventType.edge, hinfo, hstate]
    · simpa [VirtioEvent.task] using htask
    · simp
    · simp [saved]
    · simp
  | ioctl =>
    obtain ⟨e, hnew, -, htask, hinfo, hstate⟩ := newEvent_vmm hvmm .sysEnterIoctl
    simp only [entryProbe, observeIoctlEnter, hnew, next_eq]
    refine ⟨_, _, rfl, ?_, htask, took_ioctl rfl rfl ?_ ?_, ?_⟩
    · constructor <;>
        simp [VirtioEvent.edge, VirtioEvent.ioctlArgs, VirtioEventType.edge, hinfo]
    · rfl
    · rfl
    · simp

/-- Another program's call leaves no trace. -/
theorem entryProbe_of_not_vmm {probe : Probe} (hother : ¬ isVmmComm probe.comm) (call : ProbedCall)
    (l : Local) : entryProbe probe call l = (l, none) := by
  have hnew := newEvent_of_not_vmm hother
  obtain ⟨f, dev, guestMem, run, count, fd, request, argument⟩ := call
  cases f with
  | mmio => simp only [entryProbe, observeDoMmio, hnew]
  | processQueue => simp only [entryProbe, observeProcessQueueBegin, hnew]
  | ioeventfdKick => simp only [entryProbe, observeIoeventfdKick, hnew]
  | irqfdSignal => simp only [entryProbe, observeIrqfdSignal, hnew]
  | ioctl => simp only [entryProbe, observeIoctlEnter, hnew]

/-- **The return probes.** One that finds what was saved of a reported call reports its return
    under the number of the call, with its values and the time since, and deletes it. -/
theorem returnProbe_spec {probe : Probe} {ret : BitVec 64} {call : ProbedCall} {o : VirtioEvent}
    (hvmm : isVmmComm probe.comm) (hreports : Reports call o)
    (hrun : call.function = .mmio → (probe.user.run call.run).isSome) (l : Local)
    (hsaved : l.entries.active call.function = some (saved call.function (call, o))) :
    ∃ e, returnProbe probe ret call.function l = (l.delete call.function, some e) ∧
      e.edge = .leave call.function ∧ e.task = probe.pidTgid ∧ e.Answers o call.function := by
  obtain ⟨f, dev, guestMem, run, count, fd, request, argument⟩ := call
  obtain ⟨hedge, hargs, hkick, hsignal, hcall, hop⟩ := hreports
  cases f with
  | mmio =>
    obtain ⟨observed, hobserved⟩ := Option.isSome_iff_exists.mp (hrun rfl)
    obtain ⟨e, hnew, htime, htask, hinfo, hstate⟩ := newEvent_vmm hvmm .mmioReturn
    simp only [saved] at hsaved
    simp only [returnProbe, observeDoMmioEnd, hsaved, hnew, Option.bind_some, hobserved,
      Option.map_some]
    refine ⟨_, rfl, ?_, ?_, ?_⟩
    · simp [VirtioEvent.edge, VirtioEventType.edge, hinfo]
    · simpa [VirtioEvent.task] using htask
    · constructor <;> simp_all [VirtioEvent.ioctlArgs, VirtioEvent.duration]
  | processQueue =>
    obtain ⟨e, hnew, htime, htask, hinfo, hstate⟩ := newEvent_vmm hvmm .queueBackendEnd
    simp only [saved] at hsaved
    simp only [returnProbe, observeProcessQueueEnd, hsaved, hnew, Option.map_some]
    refine ⟨_, rfl, ?_, ?_, ?_⟩
    · split_ifs <;> simp [VirtioEvent.edge, VirtioEventType.edge, hinfo]
    · split_ifs <;> simpa [VirtioEvent.task] using htask
    · split_ifs <;> constructor <;> simp_all [VirtioEvent.ioctlArgs, VirtioEvent.duration]
  | ioeventfdKick =>
    obtain ⟨e, hnew, htime, htask, hinfo, hstate⟩ := newEvent_vmm hvmm .ioeventfdKickReturn
    simp only [saved] at hsaved
    simp only [returnProbe, observeIoeventfdKickEnd, hsaved, hnew, Option.map_some]
    refine ⟨_, rfl, ?_, ?_, ?_⟩
    · simp [VirtioEvent.edge, VirtioEventType.edge, hinfo]
    · simpa [VirtioEvent.task] using htask
    · constructor <;> simp_all [VirtioEvent.ioctlArgs, VirtioEvent.duration]
  | irqfdSignal =>
    obtain ⟨e, hnew, htime, htask, hinfo, hstate⟩ := newEvent_vmm hvmm .irqfdSignalReturn
    simp only [saved] at hsaved
    simp only [returnProbe, observeIrqfdSignalEnd, hsaved, hnew, Option.map_some]
    refine ⟨_, rfl, ?_, ?_, ?_⟩
    · simp [VirtioEvent.edge, VirtioEventType.edge, hinfo]
    · simpa [VirtioEvent.task] using htask
    · constructor <;> simp_all [VirtioEvent.ioctlArgs, VirtioEvent.duration]
  | ioctl =>
    obtain ⟨e, hnew, htime, htask, hinfo, hstate⟩ := newEvent_vmm hvmm .sysExitIoctl
    simp only [saved] at hsaved
    simp only [returnProbe, observeIoctlExit, hsaved, hnew, Option.map_some]
    refine ⟨_, rfl, ?_, ?_, ?_⟩
    · simp [VirtioEvent.edge, VirtioEventType.edge, hinfo]
    · simpa [VirtioEvent.task] using htask
    · constructor <;> simp_all [VirtioEvent.ioctlArgs, VirtioEvent.duration]

/-- Other programs have nothing saved, and their returns leave no trace either. -/
theorem returnProbe_of_not_vmm {probe : Probe} (hother : ¬ isVmmComm probe.comm) (ret : BitVec 64)
    (f : Function) {l : Local} (hnone : l.entries = .none) :
    returnProbe probe ret f l = (l, none) := by
  have hnew := newEvent_of_not_vmm hother
  have hdelete : l.delete .processQueue = l := by
    obtain ⟨entries, failures⟩ := l
    subst hnone
    simp only [Local.delete, Entries.none, Local.mk.injEq, Entries.mk.injEq,
      and_true]
    exact Function.update_eq_self _ _
  have hactive (g : Function) : l.entries.active g = none := by rw [hnone]; rfl
  cases f with
  | processQueue => simp only [returnProbe, observeProcessQueueEnd, hnew, hdelete, Option.map_none]
  | mmio => simp only [returnProbe, observeDoMmioEnd, hactive]
  | ioeventfdKick => simp only [returnProbe, observeIoeventfdKickEnd, hactive]
  | irqfdSignal => simp only [returnProbe, observeIrqfdSignalEnd, hactive]
  | ioctl => simp only [returnProbe, observeIoctlExit, hactive]

/-! ## The maps and the trace agree -/

/-- A reported call as an entry of a log of calls. -/
def callEdge (p : ProbedCall × VirtioEvent) : Option (Edge Function) := some (.enter p.1.function)

/-- What is saved for a task is what the open entry events of its trace say about its calls in
    progress, and its counters are the numbers of its entry events. -/
structure Tracks (entries : Entries) (calls : List ProbedCall) (v : TaskView)
    (opened : List (ProbedCall × VirtioEvent)) : Prop where
  ofCalls : opened.map Prod.fst = calls
  ofEvents : opened.map Prod.snd = v.opened
  reports : ∀ p ∈ opened, Reports p.1 p.2
  single : (calls.map (·.function)).Nodup
  held : Held callEdge saved entries.active opened
  ioctls : entries.ioctlCounters.getD 0 = BitVec.ofNat 64 v.ioctls
  operations : entries.operationCounters.getD 0 = BitVec.ofNat 64 v.operations

namespace Tracks

variable {entries : Entries} {call : ProbedCall} {calls : List ProbedCall} {v : TaskView}
  {opened : List (ProbedCall × VirtioEvent)} {e : VirtioEvent}

theorem none : Tracks .none [] {} [] where
  ofCalls := rfl
  ofEvents := rfl
  reports := fun _ h => absurd h List.not_mem_nil
  single := List.nodup_nil
  held := held_nil
  ioctls := rfl
  operations := rfl

/-- The entry event of a call has the next number, and the call is tracked. -/
theorem enter (h : Tracks entries calls v opened) (hreports : Reports call e)
    (hnew : call.function ∉ calls.map (·.function))
    (hnumber : if call.function = .ioctl then
        e.eventInfo.callId = entries.ioctlCounters.getD 0 + 1
      else e.eventInfo.operationId = entries.operationCounters.getD 0 + 1) :
    v.Fits e ∧ Tracks (entries.called call e) (call :: calls) (v.advance e) ((call, e) :: opened) := by
  have hedge := hreports.edge
  have hopened : (v.advance e).opened = e :: v.opened := by
    unfold TaskView.advance
    rw [hedge]
    split <;> simp_all
  have hheld : Held callEdge saved (entries.called call e).active ((call, e) :: opened) := by
    apply h.held.enter
    rfl
  have hall : ∀ p ∈ (call, e) :: opened, Reports p.1 p.2 := by
    intro p hp
    rcases List.mem_cons.mp hp with rfl | hp
    · exact hreports
    · exact h.reports p hp
  -- which of the two counters counts the call
  by_cases hf : call.function = .ioctl
  · rw [if_pos hf, h.ioctls] at hnumber
    rw [hf] at hedge
    have hnext : e.eventInfo.callId = BitVec.ofNat 64 (v.ioctls + 1) := by
      rw [hnumber]
      exact (BitVec.ofNat_add v.ioctls 1).symm
    constructor
    · simp only [TaskView.Fits, hedge, hnext]
    · exact
        { ofCalls := by simp [h.ofCalls]
          ofEvents := by simp [h.ofEvents, hopened]
          reports := hall
          single := List.nodup_cons.mpr ⟨hnew, h.single⟩
          held := hheld
          ioctls := by simp only [Entries.called, if_pos hf, Option.getD_some, hnext,
            TaskView.advance, hedge]
          operations := by simp only [Entries.called, if_pos hf, h.operations, TaskView.advance,
            hedge] }
  · rw [if_neg hf, h.operations] at hnumber
    have hnext : e.eventInfo.operationId = BitVec.ofNat 64 (v.operations + 1) := by
      rw [hnumber]
      exact (BitVec.ofNat_add v.operations 1).symm
    constructor
    · simp only [TaskView.Fits, hedge, hnext]
    · exact
        { ofCalls := by simp [h.ofCalls]
          ofEvents := by simp [h.ofEvents, hopened]
          reports := hall
          single := List.nodup_cons.mpr ⟨hnew, h.single⟩
          held := hheld
          ioctls := by simp only [Entries.called, if_neg hf, h.ioctls, TaskView.advance, hedge]
          operations := by simp only [Entries.called, if_neg hf, Option.getD_some, hnext,
            TaskView.advance, hedge] }

/-- The innermost call of a task has been reported, is saved, and can be forgotten. -/
theorem innermost (h : Tracks entries (call :: calls) v opened) :
    ∃ o rest, v.opened = o :: rest ∧ Reports call o ∧
      entries.active call.function = some (saved call.function (call, o)) ∧
      ∀ e : VirtioEvent, e.edge = .leave call.function →
        ∃ opened', Tracks
          { entries with active := Function.update entries.active call.function .none } calls
          (v.advance e) opened' := by
  obtain ⟨⟨first, o⟩, opened', rfl⟩ : ∃ p opened', opened = p :: opened' := by
    cases opened with
    | nil => exact absurd h.ofCalls (by simp)
    | cons p opened' => exact ⟨p, opened', rfl⟩
  obtain ⟨hfirst, hcalls⟩ := List.cons.inj h.ofCalls
  obtain rfl : first = call := hfirst
  have hsingle := List.nodup_cons.mp h.single
  have hothers : ∀ p ∈ opened', callEdge p ≠ some (.enter first.function) := by
    intro p hp heq
    apply hsingle.1
    rw [← hcalls, List.map_map]
    exact List.mem_map.mpr ⟨p, hp, Edge.enter.inj (Option.some.inj heq)⟩
  obtain ⟨hslot, hheld⟩ := h.held.leave rfl hothers
  refine ⟨o, opened'.map Prod.snd, h.ofEvents.symm, h.reports _ List.mem_cons_self, hslot, ?_⟩
  intro e he
  refine ⟨opened', ?_⟩
  exact
    { ofCalls := hcalls
      ofEvents := by simp [TaskView.advance, he, ← h.ofEvents]
      reports := fun p hp => h.reports p (List.mem_cons_of_mem _ hp)
      single := hsingle.2
      held := hheld
      ioctls := by simpa [TaskView.advance, he] using h.ioctls
      operations := by simpa [TaskView.advance, he] using h.operations }

end Tracks

/-- The trace is the calls and returns so far, its events fit, and every task is tracked. -/
structure Recorded (observer : Observer) (calls : BitVec 64 → List ProbedCall)
    (happened : List (BitVec 64 × Edge Function)) : Prop where
  events : observer.events.map (fun e => (e.task, e.edge)) = happened
  fits : taskReader.Conforms TaskView.Fits observer.events
  tracks : ∀ k, ∃ opened,
    Tracks (observer.entries k) (calls k) (taskReader.view observer.events k) opened

/-- One more event that fits. -/
theorem Recorded.report {observer observer' : Observer} {calls : BitVec 64 → List ProbedCall}
    {happened : List (BitVec 64 × Edge Function)} {k : BitVec 64} {e : VirtioEvent}
    {entries : Entries} {own : List ProbedCall} {opened : List (ProbedCall × VirtioEvent)}
    (h : Recorded observer calls happened) (htask : e.task = k)
    (hentries : observer'.entries = Function.update observer.entries k entries)
    (hevents : observer'.events = observer.events ++ [e])
    (hfits : (taskReader.view observer.events k).Fits e)
    (htracks : Tracks entries own ((taskReader.view observer.events k).advance e) opened) :
    Recorded observer' (Function.update calls k own) (happened ++ [(k, e.edge)]) := by
  subst htask
  refine ⟨?_, ?_, fun k => ?_⟩
  · simp [hevents, h.events]
  · rw [hevents]
    exact Reader.conforms_append.mpr ⟨h.fits, hfits⟩
  · rw [hentries, hevents]
    by_cases hk : k = e.task
    · subst hk
      refine ⟨opened, ?_⟩
      rw [Function.update_self, Function.update_self]
      exact (Reader.view_append_self (R := taskReader)) ▸ htracks
    · obtain ⟨opened, ho⟩ := h.tracks k
      refine ⟨opened, ?_⟩
      rw [Function.update_of_ne hk, Function.update_of_ne hk, Reader.view_append_of_ne hk]
      exact ho

/-- A return counts no failure. -/
theorem returnProbe_failures (probe : Probe) (ret : BitVec 64) (f : Function) (l : Local) :
    (returnProbe probe ret f l).1.failures = l.failures := by
  cases f with
  | mmio => simp only [returnProbe, observeDoMmioEnd]; split <;> rfl
  | processQueue => rfl
  | ioeventfdKick => simp only [returnProbe, observeIoeventfdKickEnd]; split <;> rfl
  | irqfdSignal => simp only [returnProbe, observeIrqfdSignalEnd]; split <;> rfl
  | ioctl => simp only [returnProbe, observeIoctlExit]; split <;> rfl

namespace Observer

variable (o : Observer) (probe : Probe) (code : Local → Local × Option VirtioEvent)

@[simp] theorem emitEvent_entries (e : Option VirtioEvent) :
    (o.emitEvent probe e).entries = o.entries := by
  unfold emitEvent
  split
  · rfl
  · split_ifs <;> rfl

@[simp] theorem emitEvent_failures (e : Option VirtioEvent) :
    (o.emitEvent probe e).failures = o.failures := by
  unfold emitEvent
  split
  · rfl
  · split_ifs <;> rfl

/-- What is reported is in the trace unless it is dropped. -/
theorem emitEvent_events {o : Observer} {e : Option VirtioEvent}
    (h : (o.emitEvent probe e).dropped = 0) :
    o.dropped = 0 ∧ (o.emitEvent probe e).events = o.events ++ e.toList := by
  cases e with
  | none => exact ⟨h, (List.append_nil _).symm⟩
  | some e =>
    simp only [emitEvent] at h ⊢
    split_ifs at h ⊢
    exact ⟨h, rfl⟩

@[simp] theorem runProbe_entries :
    (o.runProbe probe code).entries =
      Function.update o.entries probe.pidTgid
        (code ⟨o.entries probe.pidTgid, o.failures⟩).1.entries := by
  simp [runProbe]

@[simp] theorem runProbe_failures :
    (o.runProbe probe code).failures = (code ⟨o.entries probe.pidTgid, o.failures⟩).1.failures := by
  simp [runProbe]

variable {o probe code}

theorem events_of_runProbe (h : (o.runProbe probe code).dropped = 0) :
    o.dropped = 0 ∧
      (o.runProbe probe code).events =
        o.events ++ (code ⟨o.entries probe.pidTgid, o.failures⟩).2.toList :=
  emitEvent_events probe h

end Observer

/-! ## Every run -/

namespace Observed

/-- Nothing is saved for other programs, and a trace without a loss is what happened. -/
structure Faithful (s : Observed) : Prop where
  others : ∀ k, ¬ isVmmComm (s.comm k) → s.observer.entries k = .none ∧ s.calls k = []
  recorded : s.observer.dropped = 0 → s.observer.failures = 0 →
    Recorded s.observer s.calls s.happened

variable {s s' : Observed}

/-- A probe in another program changes nothing. -/
theorem runProbe_other {probe : Probe} {code : Local → Local × Option VirtioEvent}
    (h : code ⟨s.observer.entries probe.pidTgid, s.observer.failures⟩ =
      (⟨s.observer.entries probe.pidTgid, s.observer.failures⟩, none)) :
    s.observer.runProbe probe code = s.observer := by
  simp only [Observer.runProbe, h, Observer.emitEvent, Function.update_eq_self]

/-- **An entry.** -/
theorem Faithful.enter {probe : Probe} {call : ProbedCall} (h : s.Faithful)
    (hrun : RunReadable s (.enter probe call)) (hs : s.step (.enter probe call) = some s') :
    s'.Faithful := by
  simp only [step] at hs
  split_ifs at hs with hcomm hvmm hnested
  · obtain rfl := Option.some.inj hs
    constructor
    · intro k hk
      have hne : k ≠ probe.pidTgid := by
        rintro rfl
        exact hk (hcomm ▸ hvmm)
      simpa only [Observer.runProbe_entries, Function.update_of_ne hne] using h.others k hk
    · intro hdropped hzero
      obtain ⟨l, e, hprobe, hreports, htask, htook, hnumber⟩ :=
        entryProbe_spec hvmm hrun ⟨s.observer.entries probe.pidTgid, s.observer.failures⟩
      simp only [Observer.runProbe_failures, hprobe] at hzero
      -- no update failed, now or before
      have hbefore : s.observer.failures = 0 := Nat.le_zero.mp (hzero ▸ htook.failures_le)
      have hset := htook.entries (hzero.trans hbefore.symm)
      have hrec := h.recorded (Observer.events_of_runProbe hdropped).1 hbefore
      obtain ⟨opened, htracks⟩ := hrec.tracks probe.pidTgid
      obtain ⟨hfits, htracks⟩ := htracks.enter hreports hnested hnumber
      rw [← hreports.edge]
      refine hrec.report htask ?_ ?_ hfits htracks
      · rw [Observer.runProbe_entries, hprobe, hset]
      · rw [(Observer.events_of_runProbe hdropped).2, hprobe]
        rfl
  · obtain rfl := Option.some.inj hs
    rw [runProbe_other (entryProbe_of_not_vmm hvmm call _)]
    exact h

/-- **A return.** -/
theorem Faithful.leave {probe : Probe} {ret : BitVec 64} {f : Function} (h : s.Faithful)
    (hrun : RunReadable s (.leave probe ret f)) (hs : s.step (.leave probe ret f) = some s') :
    s'.Faithful := by
  simp only [step] at hs
  split_ifs at hs with hcomm hvmm
  · split at hs
    · exact absurd hs (by simp)
    · rename_i call rest hcalls
      split_ifs at hs with hf
      obtain rfl := Option.some.inj hs
      subst hf
      constructor
      · intro k hk
        have hne : k ≠ probe.pidTgid := by
          rintro rfl
          exact hk (hcomm ▸ hvmm)
        simpa only [Observer.runProbe_entries, Function.update_of_ne hne] using h.others k hk
      · intro hdropped hzero
        rw [Observer.runProbe_failures, returnProbe_failures] at hzero
        have hrec := h.recorded (Observer.events_of_runProbe hdropped).1 hzero
        obtain ⟨opened, htracks⟩ := hrec.tracks probe.pidTgid
        rw [hcalls] at htracks
        obtain ⟨o, older, hopened, hreports, hslot, hforget⟩ := htracks.innermost
        obtain ⟨e, hprobe, hedge, htask, hanswers⟩ :=
          @returnProbe_spec probe ret call o hvmm hreports (hrun call (by rw [hcalls]; rfl))
            ⟨s.observer.entries probe.pidTgid, s.observer.failures⟩ hslot
        obtain ⟨opened', htracks⟩ := hforget e hedge
        rw [← hedge]
        refine hrec.report htask ?_ ?_ ?_ htracks
        · rw [Observer.runProbe_entries, hprobe]
          rfl
        · rw [(Observer.events_of_runProbe hdropped).2, hprobe]
          rfl
        · simp only [TaskView.Fits, hedge]
          exact ⟨o, older, hopened, hanswers⟩
  · obtain rfl := Option.some.inj hs
    rw [runProbe_other (returnProbe_of_not_vmm hvmm ret f (h.others _ (hcomm ▸ hvmm)).1)]
    exact h

/-- **Every step keeps the trace faithful.** -/
theorem Faithful.step {a : Step} (h : s.Faithful) (hrun : RunReadable s a)
    (hs : s.step a = some s') : s'.Faithful := by
  cases a with
  | enter probe call => exact h.enter hrun hs
  | leave probe ret f => exact h.leave hrun hs
  | exec task comm =>
    simp only [Observed.step] at hs
    split_ifs at hs with hvmm
    obtain rfl := Option.some.inj hs
    refine ⟨fun k hk => ?_, h.recorded⟩
    by_cases hk' : k = task
    · subst hk'
      exact h.others k hvmm
    · simp only [Function.update_of_ne hk'] at hk
      exact h.others k hk

theorem Faithful.start {comm : BitVec 64 → List UInt8} :
    Faithful ⟨.start, comm, fun _ => [], []⟩ where
  others := fun _ _ => ⟨rfl, rfl⟩
  recorded := fun _ _ => ⟨rfl, Reader.conforms_nil, fun _ => ⟨[], Tracks.none⟩⟩

end Observed

/-- **A trace without a loss is what happened.** In every run, as long as no event was dropped and
    no map update failed: the events are the calls and returns of the VMM's tasks in their order,
    each fits the earlier events of its task, and the entry events that no return has answered are
    those of the calls in progress. -/
theorem observed_trace {s : Observed} (h : observed.Reach RunReadable s)
    (hdropped : s.observer.dropped = 0) (hfailures : s.observer.failures = 0) :
    s.observer.events.map (fun e => (e.task, e.edge)) = s.happened ∧
      taskReader.Conforms TaskView.Fits s.observer.events ∧
      ∀ task, (taskReader.view s.observer.events task).opened.map VirtioEvent.edge =
        (s.calls task).map fun call => .enter call.function := by
  have hfaithful : s.Faithful := by
    apply System.Reach.invariant Observed.Faithful _ _ h
    · rintro ⟨observer, comm, calls, happened⟩ ⟨rfl, rfl, rfl⟩
      exact Observed.Faithful.start
    · intro s a s' hs hrun hstep
      exact hs.step hrun hstep
  have hrec := hfaithful.recorded hdropped hfailures
  refine ⟨hrec.events, hrec.fits, fun task => ?_⟩
  obtain ⟨opened, htracks⟩ := hrec.tracks task
  rw [← htracks.ofEvents, ← htracks.ofCalls, List.map_map, List.map_map]
  apply List.map_congr_left
  intro p hp
  exact (htracks.reports p hp).edge

/-- Every task is called `vmm`, and nothing has been called. -/
def vmmIdle : Observed := ⟨.start, fun _ => [0x76, 0x6d, 0x6d, 0], fun _ => [], []⟩

/-- A probe of task 7 of process 7, whose `kvm_run` at 4096 shows a write of QueueNotify. -/
def notifyProbe (timeNs : BitVec 64) : Probe where
  timeNs := timeNs
  pidTgid := 0x700000007
  cpu := 0
  comm := [0x76, 0x6d, 0x6d, 0]
  user :=
    { run := fun address => if address = 4096 then some ⟨0x10000050, 0, 4, true⟩ else none
      device := fun _ => none
      descriptors := fun _ => none
      avail := fun _ => none
      used := fun _ => none
      bytes := fun _ => none }
  full := fun _ => false
  room := true

/-- `KVM_RUN` returns with an access to QueueNotify, and `do_mmio` processes the queue. -/
def notifyRun : List Step :=
  [.enter (notifyProbe 10) { function := .ioctl, fd := 5, request := 0xae80 },
    .leave (notifyProbe 20) 0 .ioctl,
    .enter (notifyProbe 30) { function := .mmio, run := 4096 },
    .enter (notifyProbe 40) { function := .processQueue },
    .leave (notifyProbe 50) 0 .processQueue,
    .leave (notifyProbe 60) 0 .mmio]

theorem observed_trace_notifyRun :
    ∃ s, observed.exec vmmIdle notifyRun = some s ∧ s.happened.length = 6 ∧
      s.observer.events.map (fun e => (e.task, e.edge)) = s.happened ∧
      taskReader.Conforms TaskView.Fits s.observer.events ∧
      ∀ task, (taskReader.view s.observer.events task).opened.map VirtioEvent.edge =
        (s.calls task).map fun call => .enter call.function := by
  have hok : observed.RunsOk RunReadable vmmIdle notifyRun := by decide +kernel
  have hclean : (observed.exec vmmIdle notifyRun).map (fun s =>
      (s.observer.dropped, s.observer.failures, s.happened.length)) = some (0, 0, 6) := by
    decide +kernel
  obtain ⟨s, hs, hend⟩ := Option.map_eq_some_iff.mp hclean
  obtain ⟨hdropped, hfailures, hlength⟩ : _ ∧ _ ∧ _ := by simpa using hend
  have hinit : observed.init vmmIdle := ⟨rfl, rfl, rfl⟩
  have hreach := System.Reach.exec (.init hinit) hok hs
  exact ⟨s, hs, hlength, observed_trace hreach hdropped hfailures⟩

end LinuxMaxxing.Virtio
