import LinuxMaxxing.Lib.CallStacks
import LinuxMaxxing.Lib.Transition
import LinuxMaxxing.VirtVtd.GuestProbes

/-!
# Calls and Interrupts of the Guest

Runs of the guest probes over any tasks and CPUs.

- an interrupt handler runs on top of what its CPU does, and may be interrupted and may map pages
  itself; a CPU goes on to another task outside of its handlers;
- tasks may share a `pid_tgid`, as the idle tasks of the CPUs do;
- updates of the map and reservations in the ring buffer may fail.

`guest_exits_own` says when each exit event belongs to the call that it is reported for.
-/

namespace LinuxMaxxing.VirtVtd

open LinuxMaxxing.Lib

/-! ## Calls in progress -/

/-- A call of `dma_map_page_attrs`, or an interrupt handler with its action's name. -/
inductive GuestCall where
  | dmaMap (size : BitVec 64) (direction : BitVec 32)
  | irqHandler (irq : BitVec 32) (name : Option (List UInt8))
  deriving DecidableEq, Repr

/-- The key that the probes of a call use. -/
def GuestCall.key (pidTgid : BitVec 64) (cpu : BitVec 32) : GuestCall → BitVec 64
  | .dmaMap _ _ => pidTgid
  | .irqHandler irq _ => irqKey cpu irq

namespace GuestMaps

def entryProbe (m : GuestMaps) (probe : Probe) : GuestCall → GuestMaps
  | .dmaMap size direction => m.guestDmaMapEntry probe size direction
  | .irqHandler irq name => m.guestIrqEntry probe irq name

/-- The return probe, with the DMA address or the handler's result. -/
def returnProbe (m : GuestMaps) (probe : Probe) (value : BitVec 64) : GuestCall → GuestMaps
  | .dmaMap _ _ => m.guestDmaMapExit probe value
  | .irqHandler irq _ => m.guestIrqExit probe irq value

/-- What the entry probe of a call puts into the map, if it does. -/
def saves (m : GuestMaps) (probe : Probe) : GuestCall → Option GuestPending
  | .dmaMap size direction =>
    if m.samplesMapping && probe.updates then some (mappingState size direction) else none
  | .irqHandler irq name =>
    if guestIrqNameMatches m.targetInterface (readAction name) && probe.updates then
      some (m.handlerState irq name)
    else none

end GuestMaps

/-- A call in progress: when it was entered, its key, and what its entry probe has saved. -/
structure GuestFrame where
  entered : Nat
  key : BitVec 64
  call : GuestCall
  saved : Option GuestPending
  deriving DecidableEq, Repr

/-- Where calls are in progress: in the handlers of a CPU, or in a task. -/
inductive Place (Task : Type) where
  | handlers (cpu : BitVec 32)
  | task (task : Task)
  deriving DecidableEq

/-- A call that has returned, with what its return probe has reported. -/
structure GuestReturned where
  frame : GuestFrame
  value : BitVec 64
  events : List VtdEvent

/-- The maps, the current tasks, the calls in progress, the latest first at each place, and those
    that have returned. -/
structure GuestState (Task : Type) where
  maps : GuestMaps
  current : BitVec 32 → Task
  frames : Place Task → List GuestFrame
  clock : Nat
  returns : List GuestReturned

inductive GuestAct (Task : Type) where
  | switch (cpu : BitVec 32) (task : Task)
  | runEntry (probe : Probe)
  | runExit (probe : Probe) (result : BitVec 64)
  | entry (probe : Probe) (call : GuestCall)
  | ret (probe : Probe) (value : BitVec 64)

variable {Task : Type} [DecidableEq Task]

namespace GuestState

/-- Where a CPU is. -/
def place (s : GuestState Task) (cpu : BitVec 32) : Place Task :=
  if s.frames (.handlers cpu) = [] then .task (s.current cpu) else .handlers cpu

/-- Where a call is entered: a handler on its CPU. -/
def entryPlace (s : GuestState Task) (cpu : BitVec 32) : GuestCall → Place Task
  | .dmaMap _ _ => s.place cpu
  | .irqHandler _ _ => .handlers cpu

/-- The probe runs in the current task of its CPU. -/
def Runs (pidTgid : Task → BitVec 64) (s : GuestState Task) (probe : Probe) : Prop :=
  probe.pidTgid = pidTgid (s.current probe.cpu)

instance (pidTgid : Task → BitVec 64) (s : GuestState Task) (probe : Probe) :
    Decidable (s.Runs pidTgid probe) :=
  inferInstanceAs (Decidable (_ = _))

/-- One step of a CPU. -/
def step (pidTgid : Task → BitVec 64) (s : GuestState Task) : GuestAct Task → Option (GuestState Task)
  | .switch cpu task =>
    if s.frames (.handlers cpu) = [] then
      some { s with current := Function.update s.current cpu task }
    else none
  | .runEntry probe =>
    if s.Runs pidTgid probe then some { s with maps := s.maps.guestRunEntry probe } else none
  | .runExit probe result =>
    if s.Runs pidTgid probe then some { s with maps := s.maps.guestRunExit probe result } else none
  | .entry probe call =>
    if s.Runs pidTgid probe then
      let place := s.entryPlace probe.cpu call
      let frame : GuestFrame :=
        ⟨s.clock, call.key probe.pidTgid probe.cpu, call, s.maps.saves probe call⟩
      some { s with
        maps := s.maps.entryProbe probe call
        frames := Function.update s.frames place (frame :: s.frames place)
        clock := s.clock + 1 }
    else none
  | .ret probe value =>
    if s.Runs pidTgid probe then
      match s.frames (s.place probe.cpu) with
      | [] => none
      | frame :: frames =>
        let maps := s.maps.returnProbe probe value frame.call
        some { s with
          maps := maps
          frames := Function.update s.frames (s.place probe.cpu) frames
          returns := s.returns ++
            [⟨frame, value, maps.events.drop s.maps.events.length⟩] }
    else none

end GuestState

/-- Tasks with these `pid_tgid`, none of them in a call. -/
def guest (pidTgid : Task → BitVec 64) : System (GuestState Task) (GuestAct Task) where
  init s := (∀ place, s.frames place = []) ∧ (∀ key, s.maps.pendingStates key = none) ∧
    s.maps.events = [] ∧ s.returns = []
  step := GuestState.step pidTgid

/-! ## Events of the right call -/

/-- The kinds of the events of the return probes. -/
def VtdEventKind.isGuestReturn (kind : VtdEventKind) : Bool :=
  kind = .guestDmaMapExit || kind = .guestIrqExit

/-- The event belongs to the call: it has the size and direction of the mapping, or the episode,
    the IRQ and the action of the handler. -/
def GuestReturned.Own (r : GuestReturned) (event : VtdEvent) : Prop :=
  match r.frame.call with
  | .dmaMap size direction => event.eventInfo.kind = .guestDmaMapExit ∧
      event.state.dmaAddress = r.value ∧ event.state.dataLength = size ∧
      event.state.dmaDirection = direction
  | .irqHandler irq name => event.eventInfo.kind = .guestIrqExit ∧
      event.eventInfo.result = r.value ∧ event.state.irq = irq ∧
      event.state.action = readAction name ∧
      ∃ own, r.frame.saved = some own ∧ event.state.episodeId = own.episodeId

namespace GuestState

/-- Every exit event is that of a return, and belongs to its call. -/
def ExitsOwn (s : GuestState Task) : Prop :=
  (∀ r ∈ s.returns, ∀ event ∈ r.events, r.Own event) ∧
    s.maps.events.filter (fun event => event.eventInfo.kind.isGuestReturn) =
      s.returns.flatMap (·.events)

/-- Two mappings of the same size and direction. -/
def SameMapping : GuestCall → GuestCall → Prop
  | .dmaMap size direction, .dmaMap size' direction' => size = size' ∧ direction = direction'
  | _, _ => False

/-- A call returns next to another one under its key that has saved something only if it was
    entered later and has saved something too, or if both are the same mapping. -/
def Separate (s : GuestState Task) : GuestAct Task → Prop
  | .ret probe _ =>
    ∀ frame ∈ (s.frames (s.place probe.cpu)).head?, ∀ place, ∀ other ∈ s.frames place,
      other ≠ frame → other.key = frame.key → other.saved.isSome →
        frame.saved.isSome ∧ other.entered < frame.entered ∨ SameMapping frame.call other.call
  | _ => True

end GuestState

/-! ## What the probes do -/

namespace GuestMaps

variable {m : GuestMaps} {probe : Probe}

@[simp] theorem submit_pendingStates (event : Option VtdEvent) :
    (m.submit event).pendingStates = m.pendingStates := by
  cases event <;> rfl

theorem submit_events (event : Option VtdEvent) :
    (m.submit event).events = m.events ++ event.toList := by
  cases event with
  | none => exact (List.append_nil _).symm
  | some event => rfl

@[simp] theorem savePending_events (key : BitVec 64) (state : GuestPending) :
    (m.savePending probe key state).events = m.events := by
  unfold savePending
  split <;> rfl

theorem savePending_pendingStates (key : BitVec 64) (state : GuestPending) :
    (m.savePending probe key state).pendingStates =
      if probe.updates then Function.update m.pendingStates key (some state)
      else m.pendingStates := by
  unfold savePending
  split <;> rfl

/-- Events were added, of return probes or of others. -/
def Adds (m m' : GuestMaps) (isReturn : Bool) : Prop :=
  Added VtdEventKind.isGuestReturn isReturn m.events m'.events

theorem Adds.submit (probe : Probe) {n : GuestMaps} (h : m.events = n.events) {p : VtdGuestPhase}
    {k : VtdEventKind} {f : VtdEvent → VtdEvent}
    (hf : ∀ event, (f event).eventInfo.kind = event.eventInfo.kind) :
    n.Adds (m.submit ((reserveUnfilteredEvent probe p k).map f)) k.isGuestReturn := by
  unfold Adds
  rw [submit_events, h]
  exact .unfiltered hf

theorem guestRunEntry_pendingStates :
    (m.guestRunEntry probe).pendingStates = m.pendingStates := by
  unfold guestRunEntry
  dsimp only
  split
  · rfl
  · rw [submit_pendingStates]
    rfl

theorem guestRunExit_pendingStates (result : BitVec 64) :
    (m.guestRunExit probe result).pendingStates = m.pendingStates := by
  unfold guestRunExit
  dsimp only
  split
  · rfl
  · split
    · rfl
    · exact submit_pendingStates _

theorem adds_guestRunEntry : m.Adds (m.guestRunEntry probe) false := by
  unfold guestRunEntry
  dsimp only
  split
  · exact .same false
  · have hadds := Adds.submit probe (n := m) (p := .loopbackRun)
      (m := ({ m with control.active := true }.setGuestPhase .loopbackRun).claim 0) rfl
      (k := .guestRunEntry) (f := id) fun _ => rfl
    rw [Option.map_id] at hadds
    exact hadds

theorem adds_guestRunExit (result : BitVec 64) : m.Adds (m.guestRunExit probe result) false := by
  unfold guestRunExit
  dsimp only
  split
  · exact .same false
  · have hadds := Adds.submit probe (n := m) (p := m.control.phase)
      (m := { m with control.active := false }.claim 1) rfl
      (k := .guestRunExit) (f := fun event => { event with eventInfo.result := result })
      fun _ => rfl
    split
    · exact .same false
    · next event hevent =>
      rw [show reserveUnfilteredEvent probe m.control.phase .guestRunExit = some event from hevent]
        at hadds
      exact hadds

/-- **An entry probe** saves what it says under the key of the call. -/
theorem entryProbe_pendingStates (call : GuestCall) :
    (m.entryProbe probe call).pendingStates =
      match m.saves probe call with
      | none => m.pendingStates
      | some state =>
        Function.update m.pendingStates (call.key probe.pidTgid probe.cpu) (some state) := by
  cases call with
  | dmaMap size direction =>
    rw [entryProbe, guestDmaMapEntry, saves, samplesMapping]
    cases m.control.active with
    | false => rfl
    | true =>
      cases hclaim : m.unclaimed 2 with
      | false => rfl
      | true =>
        simp only [Bool.not_true, Bool.false_eq_true, if_false, submit_pendingStates,
          savePending_pendingStates, Bool.true_and]
        cases probe.updates <;> rfl
  | irqHandler irq name =>
    rw [entryProbe, guestIrqEntry, saves]
    cases guestIrqNameMatches m.targetInterface (readAction name) with
    | false => rfl
    | true =>
      simp only [Bool.not_true, Bool.false_eq_true, if_false, submit_pendingStates,
        savePending_pendingStates, Bool.true_and]
      cases probe.updates <;> rfl

theorem adds_entryProbe (call : GuestCall) : m.Adds (m.entryProbe probe call) false := by
  cases call with
  | dmaMap size direction =>
    rw [entryProbe, guestDmaMapEntry]
    split
    · exact .same false
    · split
      · exact .same false
      · exact Adds.submit _ (savePending_events _ _) (k := .guestDmaMapEntry) fun _ => rfl
  | irqHandler irq name =>
    rw [entryProbe, guestIrqEntry]
    split
    · exact .same false
    · exact Adds.submit _ (savePending_events _ _) (k := .guestIrqEntry) fun _ => rfl

/-- A record is that of this call. -/
def Matches : GuestCall → GuestPending → Prop
  | .dmaMap size direction, state => state.size = size ∧ state.direction = direction
  | .irqHandler irq name, state => state.irq = irq ∧ state.action = readAction name

theorem matches_saves {call : GuestCall} {state : GuestPending}
    (h : m.saves probe call = some state) : Matches call state := by
  cases call with
  | dmaMap size direction =>
    rw [saves] at h
    split at h
    · obtain rfl := Option.some.inj h
      exact ⟨rfl, rfl⟩
    · cases h
  | irqHandler irq name =>
    rw [saves] at h
    split at h
    · obtain rfl := Option.some.inj h
      exact ⟨rfl, rfl⟩
    · cases h

/-- A return probe that finds nothing does nothing. -/
theorem returnProbe_none {value : BitVec 64} {call : GuestCall}
    (h : m.pendingStates (call.key probe.pidTgid probe.cpu) = none) :
    m.returnProbe probe value call = m := by
  cases call with
  | dmaMap size direction =>
    change m.pendingStates probe.pidTgid = none at h
    rw [returnProbe, guestDmaMapExit, h]
  | irqHandler irq name =>
    change m.pendingStates (irqKey probe.cpu irq) = none at h
    rw [returnProbe, guestIrqExit, h]

/-- **A return probe** deletes what is under the key of the call. -/
theorem returnProbe_pendingStates (value : BitVec 64) (call : GuestCall) :
    (m.returnProbe probe value call).pendingStates =
      Function.update m.pendingStates (call.key probe.pidTgid probe.cpu) none := by
  cases hslot : m.pendingStates (call.key probe.pidTgid probe.cpu) with
  | none =>
    rw [returnProbe_none hslot, ← hslot, Function.update_eq_self]
  | some state =>
    cases call with
    | dmaMap size direction =>
      change m.pendingStates probe.pidTgid = some state at hslot
      rw [returnProbe, guestDmaMapExit, hslot]
      exact congrArg (Function.update · _ _) (submit_pendingStates _)
    | irqHandler irq name =>
      change m.pendingStates (irqKey probe.cpu irq) = some state at hslot
      rw [returnProbe, guestIrqExit, hslot]
      exact congrArg (Function.update · _ _) (submit_pendingStates _)

theorem adds_returnProbe (value : BitVec 64) (call : GuestCall) :
    m.Adds (m.returnProbe probe value call) true := by
  cases call with
  | dmaMap size direction =>
    rw [returnProbe, guestDmaMapExit]
    split
    · exact .same true
    · exact Adds.submit _ (m := m) (n := m) rfl (k := .guestDmaMapExit) fun _ => rfl
  | irqHandler irq name =>
    rw [returnProbe, guestIrqExit]
    split
    · exact .same true
    · exact Adds.submit _ (m := m) (n := m) rfl (k := .guestIrqExit) fun _ => rfl

/-- **The event of a return** has what is in the map: it is that of the call when a record of the
    call is there, and for a handler the one that it has saved. -/
theorem returnProbe_own {value : BitVec 64} {frame : GuestFrame} {state : GuestPending}
    (hslot : m.pendingStates (frame.call.key probe.pidTgid probe.cpu) = some state)
    (hmatches : Matches frame.call state)
    (hown : frame.saved = some state ∨ ∃ size direction, frame.call = .dmaMap size direction)
    (events : List VtdEvent) :
    ∀ event ∈ (m.returnProbe probe value frame.call).events.drop m.events.length,
      GuestReturned.Own ⟨frame, value, events⟩ event := by
  obtain ⟨entered, key, call, saved⟩ := frame
  cases call with
  | dmaMap size direction =>
    change m.pendingStates probe.pidTgid = some state at hslot
    obtain ⟨rfl, rfl⟩ := hmatches
    rw [returnProbe, guestDmaMapExit, hslot]
    show ∀ event ∈ (m.submit _).events.drop _, _
    rw [submit_events, List.drop_left]
    intro event hevent
    obtain ⟨reserved, hreserved, rfl⟩ := Option.map_eq_some_iff.mp (Option.mem_toList.mp hevent)
    have hkind := kind_of_reserveUnfiltered hreserved
    exact ⟨hkind, rfl, rfl, rfl⟩
  | irqHandler irq name =>
    change m.pendingStates (irqKey probe.cpu irq) = some state at hslot
    obtain ⟨rfl, haction⟩ := hmatches
    have hsaved : saved = some state := hown.resolve_right fun ⟨_, _, h⟩ => nomatch h
    rw [returnProbe, guestIrqExit, hslot]
    show ∀ event ∈ (m.submit _).events.drop _, _
    rw [submit_events, List.drop_left]
    intro event hevent
    obtain ⟨reserved, hreserved, rfl⟩ := Option.map_eq_some_iff.mp (Option.mem_toList.mp hevent)
    have hkind := kind_of_reserveUnfiltered hreserved
    exact ⟨hkind, rfl, rfl, haction, state, hsaved, rfl⟩

end GuestMaps

/-! ## Runs -/

namespace GuestState

variable {pidTgid : Task → BitVec 64} {s s' : GuestState Task} {a : GuestAct Task}

/-- What is in the map: under each key nothing, or the record of the latest call in progress that
    has saved one. -/
structure GuestInv (pidTgid : Task → BitVec 64) (s : GuestState Task) : Prop where
  handlers : ∀ cpu, ∀ frame ∈ s.frames (.handlers cpu),
    frame.key = frame.call.key (pidTgid (s.current cpu)) cpu
  tasks : ∀ task, ∀ frame ∈ s.frames (.task task), ∀ cpu,
    frame.key = frame.call.key (pidTgid task) cpu
  clock : ∀ place, ∀ frame ∈ s.frames place, frame.entered < s.clock
  saved : ∀ place, ∀ frame ∈ s.frames place, ∀ own ∈ frame.saved,
    GuestMaps.Matches frame.call own
  slot : ∀ key state, s.maps.pendingStates key = some state →
    ∃ place, ∃ frame ∈ s.frames place, frame.key = key ∧ frame.saved = some state ∧
      ∀ place', ∀ other ∈ s.frames place', other.key = key → other.saved.isSome →
        other.entered ≤ frame.entered
  exits : s.ExitsOwn

theorem GuestInv.init (h : (guest pidTgid).init s) : GuestInv pidTgid s := by
  obtain ⟨hframes, hmaps, hevents, hreturns⟩ := h
  refine ⟨?_, ?_, ?_, ?_, ?_, ?_, ?_⟩
  · intro cpu frame hframe
    rw [hframes] at hframe
    exact absurd hframe List.not_mem_nil
  · intro task frame hframe
    rw [hframes] at hframe
    exact absurd hframe List.not_mem_nil
  · intro place frame hframe
    rw [hframes] at hframe
    exact absurd hframe List.not_mem_nil
  · intro place frame hframe
    rw [hframes] at hframe
    exact absurd hframe List.not_mem_nil
  · intro key state hstate
    rw [hmaps] at hstate
    cases hstate
  · intro r hr
    rw [hreturns] at hr
    exact absurd hr List.not_mem_nil
  · rw [hevents, hreturns]
    rfl

omit [DecidableEq Task] in
/-- Maps that a probe leaves as they are, but for events of other kinds. -/
theorem GuestInv.quiet (h : GuestInv pidTgid s) {m : GuestMaps}
    (hpending : m.pendingStates = s.maps.pendingStates) (hadds : s.maps.Adds m false) :
    GuestInv pidTgid { s with maps := m } := by
  refine ⟨h.handlers, h.tasks, h.clock, h.saved, ?_, h.exits.1, ?_⟩
  · intro key state hstate
    refine h.slot key state ?_
    rw [← hpending]
    exact hstate
  · show m.events.filter _ = _
    rw [Added.filter_others hadds]
    exact h.exits.2

omit [DecidableEq Task] in
theorem GuestInv.switch (h : GuestInv pidTgid s) {cpu : BitVec 32}
    (hnone : s.frames (.handlers cpu) = []) (task : Task) :
    GuestInv pidTgid { s with current := Function.update s.current cpu task } := by
  refine ⟨?_, h.tasks, h.clock, h.saved, h.slot, h.exits⟩
  intro other frame hframe
  change frame ∈ s.frames (.handlers other) at hframe
  have hne : other ≠ cpu := by
    rintro rfl
    rw [hnone] at hframe
    exact absurd hframe List.not_mem_nil
  show frame.key = frame.call.key (pidTgid (Function.update s.current cpu task other)) other
  rw [Function.update_of_ne hne]
  exact h.handlers other frame hframe

/-! ### Entries -/

omit [DecidableEq Task] in
/-- A call that is entered where its probe runs has the key of that CPU or task. -/
theorem entryPlace_handlers {cpu cpu' : BitVec 32} {call : GuestCall}
    (h : .handlers cpu' = s.entryPlace cpu call) : cpu' = cpu := by
  unfold entryPlace GuestState.place at h
  split at h
  · split at h
    · cases h
    · exact Place.handlers.inj h
  · exact Place.handlers.inj h

omit [DecidableEq Task] in
theorem key_of_entryPlace_task {cpu : BitVec 32} {task : Task} {call : GuestCall}
    (h : .task task = s.entryPlace cpu call) (cpu' : BitVec 32) :
    call.key (pidTgid (s.current cpu)) cpu = call.key (pidTgid task) cpu' := by
  unfold entryPlace GuestState.place at h
  cases call with
  | irqHandler irq name => cases h
  | dmaMap size direction =>
    dsimp only at h
    split at h
    · rw [Place.task.inj h]
      rfl
    · cases h

/-- After an entry the record under a key is still that of the latest call: of the new one if it
    has saved one there. -/
theorem GuestInv.slot_entry (h : GuestInv pidTgid s) {probe : Probe} {call : GuestCall}
    (place : Place Task) {frame : GuestFrame}
    (hframe : frame = ⟨s.clock, call.key probe.pidTgid probe.cpu, call, s.maps.saves probe call⟩)
    {key : BitVec 64} {state : GuestPending}
    (hstate : (s.maps.entryProbe probe call).pendingStates key = some state) :
    ∃ place', ∃ latest ∈ Function.update s.frames place (frame :: s.frames place) place',
      latest.key = key ∧ latest.saved = some state ∧
        ∀ place'', ∀ other ∈ Function.update s.frames place (frame :: s.frames place) place'',
          other.key = key → other.saved.isSome → other.entered ≤ latest.entered := by
  rw [GuestMaps.entryProbe_pendingStates] at hstate
  by_cases hnew : (s.maps.saves probe call).isSome ∧ key = call.key probe.pidTgid probe.cpu
  · obtain ⟨hsome, rfl⟩ := hnew
    obtain ⟨own, hown⟩ := Option.isSome_iff_exists.mp hsome
    rw [hown] at hstate
    dsimp only at hstate
    rw [Function.update_self] at hstate
    refine ⟨place, frame, mem_push.mpr (.inl ⟨rfl, rfl⟩), ?_, ?_, ?_⟩
    · rw [hframe]
    · rw [hframe, hown]
      exact hstate
    · -- the clock is past every call that was in progress
      intro place' other hother _ _
      rcases mem_push.mp hother with ⟨_, rfl⟩ | hbefore
      · exact Nat.le_refl _
      · rw [hframe]
        exact Nat.le_of_lt (h.clock place' other hbefore)
  · have hold : s.maps.pendingStates key = some state := by
      cases hsaves : s.maps.saves probe call with
      | none => rwa [hsaves] at hstate
      | some own =>
        rw [hsaves] at hstate hnew
        have hne : key ≠ call.key probe.pidTgid probe.cpu := fun heq => hnew ⟨rfl, heq⟩
        dsimp only at hstate
        rwa [Function.update_of_ne hne] at hstate
    obtain ⟨owner, latest, hmem, hlatest, hsaved, hmost⟩ := h.slot key state hold
    refine ⟨owner, latest, mem_push.mpr (.inr hmem), hlatest, hsaved, ?_⟩
    intro place' other hother hkey hsome
    rcases mem_push.mp hother with ⟨_, rfl⟩ | hbefore
    · refine absurd ⟨?_, ?_⟩ hnew
      · rw [hframe] at hsome
        exact hsome
      · rw [← hkey, hframe]
    · exact hmost place' other hbefore hkey hsome

theorem GuestInv.entry (h : GuestInv pidTgid s) {probe : Probe} {call : GuestCall}
    (hruns : s.Runs pidTgid probe) {place : Place Task} (hplace : place = s.entryPlace probe.cpu call)
    {frame : GuestFrame}
    (hframe : frame = ⟨s.clock, call.key probe.pidTgid probe.cpu, call, s.maps.saves probe call⟩) :
    GuestInv pidTgid { s with
      maps := s.maps.entryProbe probe call
      frames := Function.update s.frames place (frame :: s.frames place)
      clock := s.clock + 1 } := by
  have hcall : frame.call = call := by rw [hframe]
  have hkey : frame.key = frame.call.key (pidTgid (s.current probe.cpu)) probe.cpu := by
    rw [hframe, ← hruns]
  refine ⟨?_, ?_, ?_, ?_, ?_, h.exits.1, ?_⟩
  · intro cpu other hother
    rcases mem_push.mp hother with ⟨hwhere, rfl⟩ | hold
    · rw [entryPlace_handlers (hwhere.trans hplace)]
      exact hkey
    · exact h.handlers cpu other hold
  · intro task other hother cpu
    rcases mem_push.mp hother with ⟨hwhere, rfl⟩ | hold
    · rw [hkey, hcall]
      exact key_of_entryPlace_task (hwhere.trans hplace) cpu
    · exact h.tasks task other hold cpu
  · intro place' other hother
    rcases mem_push.mp hother with ⟨_, rfl⟩ | hold
    · rw [hframe]
      exact Nat.lt_succ_self _
    · exact Nat.lt_succ_of_lt (h.clock place' other hold)
  · intro place' other hother own hown
    rcases mem_push.mp hother with ⟨_, rfl⟩ | hold
    · rw [hframe] at hown ⊢
      exact GuestMaps.matches_saves hown
    · exact h.saved place' other hold own hown
  · exact fun key state hstate => h.slot_entry place hframe hstate
  · show (s.maps.entryProbe probe call).events.filter _ = _
    rw [Added.filter_others (s.maps.adds_entryProbe call)]
    exact h.exits.2

/-! ### Returns -/

omit [DecidableEq Task] in
/-- The call that returns on a CPU has the key of the CPU and its current task. -/
theorem GuestInv.key_of_top (h : GuestInv pidTgid s) {cpu : BitVec 32} {frame : GuestFrame}
    (hmem : frame ∈ s.frames (s.place cpu)) :
    frame.key = frame.call.key (pidTgid (s.current cpu)) cpu := by
  by_cases hnone : s.frames (.handlers cpu) = []
  · have hplace : s.place cpu = .task (s.current cpu) := if_pos hnone
    exact h.tasks _ frame (hplace ▸ hmem) cpu
  · have hplace : s.place cpu = .handlers cpu := if_neg hnone
    exact h.handlers _ frame (hplace ▸ hmem)

/-- The record under another key is not touched, and its call goes on. -/
theorem GuestInv.slot_ret (h : GuestInv pidTgid s) {probe : Probe} {value : BitVec 64}
    {place : Place Task} {frame : GuestFrame} {frames : List GuestFrame}
    (hframes : s.frames place = frame :: frames)
    (hkey : frame.key = frame.call.key probe.pidTgid probe.cpu) {key : BitVec 64}
    {state : GuestPending}
    (hstate : (s.maps.returnProbe probe value frame.call).pendingStates key = some state) :
    ∃ place', ∃ latest ∈ Function.update s.frames place frames place',
      latest.key = key ∧ latest.saved = some state ∧
        ∀ place'', ∀ other ∈ Function.update s.frames place frames place'',
          other.key = key → other.saved.isSome → other.entered ≤ latest.entered := by
  rw [GuestMaps.returnProbe_pendingStates, ← hkey] at hstate
  have hne : key ≠ frame.key := by
    rintro rfl
    rw [Function.update_self] at hstate
    cases hstate
  rw [Function.update_of_ne hne] at hstate
  obtain ⟨owner, latest, hlatest, hlatestKey, hsaved, hmost⟩ := h.slot key state hstate
  have hother : latest ≠ frame := by
    rintro rfl
    exact hne hlatestKey.symm
  refine ⟨owner, latest, mem_pop hframes hlatest hother, hlatestKey, hsaved, ?_⟩
  exact fun place' other hmem => hmost place' other (mem_of_mem_pop hframes hmem)

omit [DecidableEq Task] in
/-- What a return reports is its own: the record that it finds is that of its call, or of the same
    mapping. -/
theorem GuestInv.own_ret (h : GuestInv pidTgid s) {probe : Probe} {value : BitVec 64}
    (hseparate : s.Separate (.ret probe value)) {frame : GuestFrame} {frames : List GuestFrame}
    (hframes : s.frames (s.place probe.cpu) = frame :: frames)
    (hkey : frame.key = frame.call.key probe.pidTgid probe.cpu) (events : List VtdEvent) :
    ∀ event ∈ (s.maps.returnProbe probe value frame.call).events.drop s.maps.events.length,
      GuestReturned.Own ⟨frame, value, events⟩ event := by
  cases hslot : s.maps.pendingStates (frame.call.key probe.pidTgid probe.cpu) with
  | none =>
    intro event hevent
    rw [GuestMaps.returnProbe_none hslot, List.drop_length] at hevent
    exact absurd hevent List.not_mem_nil
  | some state =>
    obtain ⟨place, latest, hlatest, hlatestKey, hsaved, hmost⟩ := h.slot _ state hslot
    have hown := h.saved place latest hlatest state hsaved
    by_cases hsame : latest = frame
    · subst hsame
      exact GuestMaps.returnProbe_own hslot hown (.inl hsaved) _
    · have hother := hseparate frame (by rw [hframes]; rfl) place latest hlatest hsame
        (hlatestKey.trans hkey.symm) (by rw [hsaved]; rfl)
      rcases hother with ⟨hsome, hentered⟩ | hmapping
      · -- the record would be that of this call, which was entered later
        have hmem : frame ∈ s.frames (s.place probe.cpu) := by
          rw [hframes]
          exact List.mem_cons_self
        have hle := hmost _ frame hmem hkey hsome
        omega
      · obtain ⟨entered, key, call, saved⟩ := frame
        obtain ⟨entered', key', call', saved'⟩ := latest
        cases call with
        | irqHandler irq name => exact hmapping.elim
        | dmaMap size direction =>
          cases call' with
          | irqHandler irq name => exact hmapping.elim
          | dmaMap size' direction' =>
            obtain ⟨rfl, rfl⟩ := hmapping
            exact GuestMaps.returnProbe_own hslot hown (.inr ⟨_, _, rfl⟩) _

/-- **A return** finds the record of its own call, or of the same mapping. -/
theorem GuestInv.ret (h : GuestInv pidTgid s) {probe : Probe} {value : BitVec 64}
    (hruns : s.Runs pidTgid probe) (hseparate : s.Separate (.ret probe value))
    {frame : GuestFrame} {frames : List GuestFrame}
    (hframes : s.frames (s.place probe.cpu) = frame :: frames) :
    GuestInv pidTgid { s with
      maps := s.maps.returnProbe probe value frame.call
      frames := Function.update s.frames (s.place probe.cpu) frames
      returns := s.returns ++ [⟨frame, value,
        (s.maps.returnProbe probe value frame.call).events.drop s.maps.events.length⟩] } := by
  have hkey : frame.key = frame.call.key probe.pidTgid probe.cpu := by
    rw [hruns]
    refine h.key_of_top ?_
    rw [hframes]
    exact List.mem_cons_self
  refine ⟨?_, ?_, ?_, ?_, ?_, ?_, ?_⟩
  · exact fun cpu other hother => h.handlers cpu other (mem_of_mem_pop hframes hother)
  · exact fun task other hother => h.tasks task other (mem_of_mem_pop hframes hother)
  · exact fun place other hother => h.clock place other (mem_of_mem_pop hframes hother)
  · exact fun place other hother => h.saved place other (mem_of_mem_pop hframes hother)
  · exact fun key state hstate => h.slot_ret hframes hkey hstate
  · intro r hr
    rcases List.mem_append.mp hr with hbefore | hnew
    · exact h.exits.1 r hbefore
    · obtain rfl := List.mem_singleton.mp hnew
      exact h.own_ret hseparate hframes hkey _
  · show (s.maps.returnProbe probe value frame.call).events.filter _ = _
    rw [Added.filter_all (s.maps.adds_returnProbe value frame.call), List.flatMap_append,
      List.flatMap_singleton]
    exact congrArg (· ++ _) h.exits.2

/-! ### Whole runs -/

theorem GuestInv.step (h : GuestInv pidTgid s) (hseparate : s.Separate a)
    (hs : s.step pidTgid a = some s') : GuestInv pidTgid s' := by
  cases a with
  | switch cpu task =>
    rw [GuestState.step] at hs
    split at hs
    · next hnone =>
      obtain rfl := Option.some.inj hs
      exact h.switch hnone task
    · cases hs
  | runEntry probe =>
    rw [GuestState.step] at hs
    split at hs
    · obtain rfl := Option.some.inj hs
      exact h.quiet GuestMaps.guestRunEntry_pendingStates GuestMaps.adds_guestRunEntry
    · cases hs
  | runExit probe result =>
    rw [GuestState.step] at hs
    split at hs
    · obtain rfl := Option.some.inj hs
      exact h.quiet (GuestMaps.guestRunExit_pendingStates result)
        (GuestMaps.adds_guestRunExit result)
    · cases hs
  | entry probe call =>
    rw [GuestState.step] at hs
    split at hs
    · next hruns =>
      obtain rfl := Option.some.inj hs
      exact h.entry hruns rfl rfl
    · cases hs
  | ret probe value =>
    rw [GuestState.step] at hs
    split at hs
    · next hruns =>
      split at hs
      · cases hs
      · next frame frames hframes =>
        obtain rfl := Option.some.inj hs
        exact h.ret hruns hseparate hframes
    · cases hs

/-- **Exit events belong to their calls** in every run in which a call returns next to another one
    under its key that has saved something only if it was entered later and has saved something
    too, or if both are the same mapping. -/
theorem guest_exits_own (h : (guest pidTgid).Reach Separate s) : s.ExitsOwn :=
  (System.Reach.invariant (GuestInv pidTgid) (fun _ hinit => GuestInv.init hinit)
    (fun _ _ _ hinv hok hs => hinv.step hok hs) h).exits

/-! ### Two runs -/

/-- `eth0` -/
def ethName : List UInt8 := [0x65, 0x74, 0x68, 0x30, 0]

/-- The observer has just been attached. -/
def guestStart : GuestState Nat where
  maps :=
    { targetInterface := ethName
      control := {}
      pendingStates := fun _ => none
      events := [] }
  current := fun _ => 7
  frames := fun _ => []
  clock := 0
  returns := []

def guestTask (task : Nat) : BitVec 64 := BitVec.ofNat 64 (task * 0x100000001)

theorem guest_init_guestStart : (guest guestTask).init guestStart :=
  ⟨fun _ => rfl, fun _ => rfl, rfl, rfl⟩

def guestProbe : Probe := ⟨1, 0x700000007, 0, [], true, true⟩

/-- A probe on the other CPU. -/
def otherProbe : Probe := ⟨2, 0x800000008, 1, [], true, true⟩

/-- While the mapping that is sampled is in progress, a handler runs on its CPU, and another one on
    the other. -/
def nestedHandler : List (GuestAct Nat) :=
  [.runEntry guestProbe, .switch 1 8, .entry guestProbe (.dmaMap 1500 1),
    .entry guestProbe (.irqHandler 24 (some ethName)),
    .entry otherProbe (.irqHandler 25 (some ethName)), .ret guestProbe 1, .ret otherProbe 1,
    .ret guestProbe 0xfee00000]

theorem guest_exits_own_nestedHandler : ∃ s : GuestState Nat,
    (guest guestTask).exec guestStart nestedHandler = some s ∧
      (s.returns.map fun r => r.events.length) = [1, 1, 1] ∧ s.ExitsOwn := by
  have hrun : (guest guestTask).exec guestStart nestedHandler = some _ := rfl
  refine ⟨_, rfl, rfl, guest_exits_own (.exec (.init guest_init_guestStart) ?_ hrun)⟩
  refine ⟨trivial, trivial, trivial, trivial, trivial, ?_, ?_, ?_, trivial⟩
  · -- the keys of the three calls differ
    intro frame hframe place other hother hne hkey
    obtain rfl := Option.some.inj hframe
    rcases mem_push.mp hother with ⟨_, rfl⟩ | hother
    · exact absurd hkey (by decide)
    rcases mem_push.mp hother with ⟨_, rfl⟩ | hother
    · exact absurd rfl hne
    rcases mem_push.mp hother with ⟨_, rfl⟩ | hother
    · exact absurd hkey (by decide)
    · exact absurd hother List.not_mem_nil
  · intro frame hframe place other hother hne hkey
    obtain rfl := Option.some.inj hframe
    rcases mem_push.mp (mem_of_mem_pop rfl hother) with ⟨_, rfl⟩ | hother
    · exact absurd rfl hne
    rcases mem_push.mp hother with ⟨_, rfl⟩ | hother
    · exact absurd hkey (by decide)
    rcases mem_push.mp hother with ⟨_, rfl⟩ | hother
    · exact absurd hkey (by decide)
    · exact absurd hother List.not_mem_nil
  · intro frame hframe place other hother hne hkey
    obtain rfl := Option.some.inj hframe
    rcases mem_push.mp (mem_of_mem_pop rfl (mem_of_mem_pop rfl hother)) with ⟨_, rfl⟩ | hother
    · exact absurd hkey (by decide)
    rcases mem_push.mp hother with ⟨_, rfl⟩ | hother
    · exact absurd hkey (by decide)
    rcases mem_push.mp hother with ⟨_, rfl⟩ | hother
    · exact absurd rfl hne
    · exact absurd hother List.not_mem_nil

/-- A handler maps a page of its own while the mapping that was sampled is in progress. -/
def nestedMapping : List (GuestAct Nat) :=
  [.runEntry guestProbe, .entry guestProbe (.dmaMap 1500 1),
    .entry guestProbe (.irqHandler 24 none), .entry guestProbe (.dmaMap 64 2),
    .ret guestProbe 0xfee00000]

/-- **A mapping inside another** is reported with the size and direction of the outer one. -/
theorem nestedMapping_foreign :
    ¬ ∀ s : GuestState Nat, (guest guestTask).Reachable s → s.ExitsOwn := by
  intro hall
  have hrun : (guest guestTask).exec guestStart nestedMapping = some _ := rfl
  have hreached : (guest guestTask).Reachable _ :=
    System.reachable_of_exec guest_init_guestStart hrun
  have hown := (hall _ hreached).1 _ List.mem_cons_self _ List.mem_cons_self
  exact absurd hown.2.2.1 (by decide)

end GuestState

end LinuxMaxxing.VirtVtd
