import LinuxMaxxing.VirtVtd.GuestPending

/-!
# The Phase of the Guest

Runs of the probes of the guest kernel, one invocation after the other: is the phase of
`guest_control` that of a loopback test in progress, and do events carry the phase that holds?

- `ownersAfter`: which call has saved the record under a key, and the phase that held then;
- `Submits`: what an invocation adds to the ring buffer, and its phase;
- `PhaseHolds`: after every invocation the phase is right, and so are the events that follow;
- `phaseHolds_iff`: this is so unless a test returns that is not the first, or whose event is lost,
  or a handler returns to the record of a mapping.
-/

namespace LinuxMaxxing.VirtVtd

/-! ## Invocations -/

/-- An invocation of a probe. -/
inductive Invocation where
  | runEntry (probe : Probe)
  | runExit (probe : Probe) (result : BitVec 64)
  | entry (probe : Probe) (call : GuestCall)
  | ret (probe : Probe) (value : BitVec 64) (call : GuestCall)
  deriving DecidableEq, Repr

namespace GuestMaps

def invoke (m : GuestMaps) : Invocation → GuestMaps
  | .runEntry probe => m.guestRunEntry probe
  | .runExit probe result => m.guestRunExit probe result
  | .entry probe call => m.entryProbe probe call
  | .ret probe value call => m.returnProbe probe value call

/-- After these invocations. -/
def after (m : GuestMaps) (done : List Invocation) : GuestMaps := done.foldl invoke m

/-- What the loader leaves behind. -/
def start (targetInterface : List UInt8) : GuestMaps where
  targetInterface := targetInterface
  control := {}
  pendingStates := fun _ => none
  events := []

/-! ## The phase that holds -/

/-- The phase of a guest with or without a loopback test in progress. -/
def really (m : GuestMaps) : VtdGuestPhase := if m.control.active then .loopbackRun else .none

/-- The call that has saved a record, and the phase that held then. -/
structure Owner where
  call : GuestCall
  phase : VtdGuestPhase

/-- Whose the records are after an invocation. -/
def owners (m : GuestMaps) (o : BitVec 64 → Option Owner) : Invocation → BitVec 64 → Option Owner
  | .entry probe call =>
    if (m.saves probe call).isSome then
      Function.update o (call.key probe.pidTgid probe.cpu) (some ⟨call, m.really⟩)
    else o
  | .ret probe _ call => Function.update o (call.key probe.pidTgid probe.cpu) none
  | _ => o

/-- Whose they are after these invocations. -/
def ownersAfter (m : GuestMaps) (done : List Invocation) : BitVec 64 → Option Owner :=
  (done.foldl (fun p next => (p.1.invoke next, p.1.owners p.2 next)) (m, fun _ => none)).2

/-- The phase that holds for the event of an invocation: a handler's exit has that of the entry
    whose record it finds. -/
def phaseFor (m : GuestMaps) (o : BitVec 64 → Option Owner) : Invocation → VtdGuestPhase
  | .runEntry _ => .loopbackRun
  | .ret probe _ (.irqHandler irq _) => ((o (irqKey probe.cpu irq)).map Owner.phase).getD .none
  | _ => m.really

/-- In every state of a run the phase is that of a test in progress exactly when one is active,
    and the event of the next invocation has the phase that holds. -/
structure PhaseHolds (m : GuestMaps) (run : List Invocation) : Prop where
  control : ∀ done, done <+: run →
    ((m.after done).control.phase = .loopbackRun ↔ (m.after done).control.active = true)
  stamped : ∀ done next, done ++ [next] <+: run →
    ∀ event ∈ ((m.after done).invoke next).events.drop (m.after done).events.length,
      event.state.guestPhase = (m.after done).phaseFor (m.ownersAfter done) next

/-- A loopback test returns when none is active, or it is the first that returns and its event
    is reserved. -/
def ExitSeen (m : GuestMaps) : Invocation → Prop
  | .runExit probe _ => m.control.active = false ∨ (m.unclaimed 1 = true ∧ probe.room = true)
  | _ => True

/-- A handler whose return is reported finds no record of a mapping: no task that has mapped a page
    has the handler's key for its `pid_tgid`. -/
def FindsHandler (o : BitVec 64 → Option Owner) : Invocation → Prop
  | .ret probe _ (.irqHandler irq _) =>
    probe.room = true → ∀ owner ∈ o (irqKey probe.cpu irq), ∃ i name, owner.call = .irqHandler i name
  | _ => True

/-! ## What an invocation does -/

section Invoke

variable {m : GuestMaps} {probe : Probe}

@[simp] theorem submit_control (event : Option VtdEvent) : (m.submit event).control = m.control := by
  cases event <;> rfl

@[simp] theorem savePending_control (key : BitVec 64) (state : GuestPending) :
    (m.savePending probe key state).control = m.control := by
  unfold savePending
  split <;> rfl

theorem guestRunEntry_control :
    (m.guestRunEntry probe).control.phase = .loopbackRun ∧
      (m.guestRunEntry probe).control.active = true := by
  unfold guestRunEntry
  dsimp only
  split
  · exact ⟨rfl, rfl⟩
  · rw [submit_control]
    exact ⟨rfl, rfl⟩

/-- **A return** resets the phase only behind both of its exits. -/
theorem guestRunExit_control (result : BitVec 64) :
    (m.guestRunExit probe result).control.phase =
        (if m.unclaimed 1 && probe.room then .none else m.control.phase) ∧
      (m.guestRunExit probe result).control.active = false := by
  unfold guestRunExit
  have hclaim : ({ m with control.active := false } : GuestMaps).unclaimed 1 = m.unclaimed 1 := rfl
  dsimp only
  rw [hclaim]
  cases m.unclaimed 1 with
  | false => exact ⟨rfl, rfl⟩
  | true =>
    cases hroom : probe.room with
    | false => simp [reserve, reserveUnfilteredEvent, hroom, claim]
    | true => simp [reserve, reserveUnfilteredEvent, hroom, claim, setGuestPhase, submit]

/-- The other entry probes leave the phase and the flag alone. -/
theorem entryProbe_control (call : GuestCall) :
    (m.entryProbe probe call).control.phase = m.control.phase ∧
      (m.entryProbe probe call).control.active = m.control.active := by
  cases call with
  | dmaMap size direction =>
    rw [entryProbe, guestDmaMapEntry]
    split
    · exact ⟨rfl, rfl⟩
    · split
      · exact ⟨rfl, rfl⟩
      · rw [submit_control, savePending_control]
        exact ⟨rfl, rfl⟩
  | irqHandler irq name =>
    rw [entryProbe, guestIrqEntry]
    split
    · exact ⟨rfl, rfl⟩
    · rw [submit_control, savePending_control]
      exact ⟨rfl, rfl⟩

theorem returnProbe_control (value : BitVec 64) (call : GuestCall) :
    (m.returnProbe probe value call).control = m.control := by
  cases call with
  | dmaMap size direction =>
    rw [returnProbe, guestDmaMapExit]
    split
    · rfl
    · exact submit_control _
  | irqHandler irq name =>
    rw [returnProbe, guestIrqExit]
    split
    · rfl
    · exact submit_control _

/-! ## Events -/

/-- One event was added at most, with this phase. -/
def Submits (m m' : GuestMaps) (phase : VtdGuestPhase) : Prop :=
  ∃ event : Option VtdEvent, m'.events = m.events ++ event.toList ∧
    ∀ e, event = some e → e.state.guestPhase = phase

theorem Submits.none {m' : GuestMaps} (h : m'.events = m.events) (phase : VtdGuestPhase) :
    m.Submits m' phase := by
  refine ⟨Option.none, ?_, fun _ hsome => absurd hsome (by simp)⟩
  rw [h, Option.toList_none, List.append_nil]

theorem Submits.reserved {n : GuestMaps} (h : n.events = m.events) {p phase : VtdGuestPhase}
    {k : VtdEventKind} {f : VtdEvent → VtdEvent}
    (hf : ∀ event, reserveUnfilteredEvent probe p k = some event →
      (f event).state.guestPhase = phase) :
    m.Submits (n.submit ((reserveUnfilteredEvent probe p k).map f)) phase := by
  refine ⟨(reserveUnfilteredEvent probe p k).map f, ?_, ?_⟩
  · rw [submit_events, h]
  · intro e hsome
    obtain ⟨event, hevent, rfl⟩ := Option.map_eq_some_iff.mp hsome
    exact hf event hevent

/-- A reservation puts in the phase of its time. -/
theorem phase_of_reserve {p : VtdGuestPhase} {k : VtdEventKind} {event : VtdEvent}
    (h : reserveUnfilteredEvent probe p k = some event) : event.state.guestPhase = p := by
  unfold reserveUnfilteredEvent at h
  split at h
  · obtain rfl := Option.some.inj h
    rfl
  · cases h

theorem Submits.drop {m' : GuestMaps} {phase : VtdGuestPhase} (h : m.Submits m' phase) :
    ∀ event ∈ m'.events.drop m.events.length, event.state.guestPhase = phase := by
  obtain ⟨event, hevents, hphase⟩ := h
  intro e he
  rw [hevents, List.drop_left] at he
  exact hphase e (Option.mem_toList.mp he)

theorem guestRunEntry_submits : m.Submits (m.guestRunEntry probe) .loopbackRun := by
  unfold guestRunEntry
  dsimp only
  split
  · exact .none rfl _
  · refine ⟨_, submit_events _, ?_⟩
    exact fun e hsome => phase_of_reserve hsome

theorem guestRunExit_submits (result : BitVec 64) :
    m.Submits (m.guestRunExit probe result) m.control.phase := by
  unfold guestRunExit
  dsimp only
  split
  · exact .none rfl _
  · split
    · exact .none rfl _
    · next event hevent =>
      refine ⟨_, submit_events _, ?_⟩
      rintro e hsome
      obtain rfl := Option.some.inj hsome
      exact @phase_of_reserve _ _ _ event hevent

theorem entryProbe_submits (call : GuestCall) :
    m.Submits (m.entryProbe probe call) m.control.phase := by
  cases call with
  | dmaMap size direction =>
    rw [entryProbe, guestDmaMapEntry]
    split
    · exact .none rfl _
    · split
      · exact .none rfl _
      · refine .reserved (savePending_events _ _) fun event hevent => ?_
        rw [savePending_control] at hevent
        exact @phase_of_reserve _ _ _ event hevent
  | irqHandler irq name =>
    rw [entryProbe, guestIrqEntry]
    split
    · exact .none rfl _
    · exact .reserved (savePending_events _ _) fun _ _ => rfl

/-- What a call has saved is the phase of its time, or that of no test for a mapping, although one
    is in progress. -/
def RecordOf (state : GuestPending) (owner : Owner) : Prop :=
  match owner.call with
  | .irqHandler _ _ => state.phase = owner.phase
  | .dmaMap _ _ => state.phase = .none ∧ owner.phase = .loopbackRun

/-- The owners are those of the records in the map. -/
def Records (m : GuestMaps) (o : BitVec 64 → Option Owner) : Prop :=
  ∀ key, Option.Rel RecordOf (m.pendingStates key) (o key)

/-- A handler's exit has the phase of the record that it finds. -/
theorem returnProbe_submits {o : BitVec 64 → Option Owner} (value : BitVec 64) (call : GuestCall)
    (h : m.control.phase = m.really) (hrecords : m.Records o)
    (hfinds : FindsHandler o (.ret probe value call)) :
    m.Submits (m.returnProbe probe value call) (m.phaseFor o (.ret probe value call)) := by
  cases call with
  | dmaMap size direction =>
    rw [returnProbe, guestDmaMapExit]
    split
    · exact .none rfl _
    · refine Submits.reserved rfl fun event hevent => ?_
      exact (@phase_of_reserve _ _ _ event hevent).trans h
  | irqHandler irq name =>
    have hrecord := hrecords (irqKey probe.cpu irq)
    rw [returnProbe, guestIrqExit, phaseFor]
    split
    · exact .none rfl _
    · next state hstate =>
      rw [hstate] at hrecord
      cases howner : o (irqKey probe.cpu irq) with
      | none =>
        rw [howner] at hrecord
        cases hrecord
      | some owner =>
        rw [howner] at hrecord
        obtain ⟨hphase⟩ := hrecord
        refine Submits.reserved rfl fun event hevent => ?_
        have hroom : probe.room = true := by
          by_contra hroom
          rw [reserveUnfilteredEvent, if_neg hroom] at hevent
          cases hevent
        obtain ⟨i, action, hcall⟩ := hfinds hroom owner howner
        rw [RecordOf, hcall] at hphase
        exact hphase

/-- **A mapping's record** has no phase, although a test is in progress. -/
theorem returnProbe_stale {o : BitVec 64 → Option Owner} {value : BitVec 64} {irq : BitVec 32}
    {name : Option (List UInt8)} (hrecords : m.Records o)
    (hstamped : ∀ event ∈ (m.returnProbe probe value (.irqHandler irq name)).events.drop
        m.events.length,
      event.state.guestPhase = m.phaseFor o (.ret probe value (.irqHandler irq name))) :
    FindsHandler o (.ret probe value (.irqHandler irq name)) := by
  intro hroom owner howner
  have hrecord := hrecords (irqKey probe.cpu irq)
  rw [howner] at hrecord
  cases hstate : m.pendingStates (irqKey probe.cpu irq) with
  | none =>
    rw [hstate] at hrecord
    cases hrecord
  | some state =>
    rw [hstate] at hrecord
    obtain ⟨hphase⟩ := hrecord
    cases hcall : owner.call with
    | irqHandler i action => exact ⟨i, action, rfl⟩
    | dmaMap size direction =>
      rw [RecordOf, hcall] at hphase
      rw [phaseFor, howner, returnProbe, guestIrqExit, hstate] at hstamped
      simp only [reserve, reserveUnfilteredEvent, hroom, if_true, Option.map_some, submit,
        deletePending, List.drop_left, List.mem_singleton, forall_eq, copyGuestEpisode,
        Option.getD_some] at hstamped
      rw [hphase.1, hphase.2] at hstamped
      cases hstamped

theorem invoke_submits {o : BitVec 64 → Option Owner} (next : Invocation)
    (h : m.control.phase = m.really) (hrecords : m.Records o) (hfinds : FindsHandler o next) :
    m.Submits (m.invoke next) (m.phaseFor o next) := by
  cases next with
  | runEntry probe => exact guestRunEntry_submits
  | runExit probe result =>
    show m.Submits _ m.really
    rw [← h]
    exact guestRunExit_submits result
  | entry probe call =>
    show m.Submits _ m.really
    rw [← h]
    exact entryProbe_submits call
  | ret probe value call => exact returnProbe_submits value call h hrecords hfinds

/-! ## Records -/

/-- What an entry saves is its own. -/
theorem recordOf_saves {call : GuestCall} {state : GuestPending}
    (h : m.control.phase = m.really) (hsaves : m.saves probe call = some state) :
    RecordOf state ⟨call, m.really⟩ := by
  cases call with
  | dmaMap size direction =>
    rw [saves] at hsaves
    split at hsaves
    · next hsamples =>
      obtain rfl := Option.some.inj hsaves
      -- mappings are sampled during a test only
      simp only [samplesMapping, Bool.and_eq_true] at hsamples
      refine ⟨rfl, ?_⟩
      show m.really = _
      rw [really, if_pos hsamples.1.1]
    · cases hsaves
  | irqHandler irq name =>
    rw [saves] at hsaves
    split at hsaves
    · obtain rfl := Option.some.inj hsaves
      exact h
    · cases hsaves

/-- An entry takes over its key, and a return clears it. -/
theorem Records.invoke {o : BitVec 64 → Option Owner} (next : Invocation)
    (h : m.control.phase = m.really) (hrecords : m.Records o) :
    (m.invoke next).Records (m.owners o next) := by
  intro key
  cases next with
  | runEntry probe =>
    show Option.Rel _ ((m.guestRunEntry probe).pendingStates key) (o key)
    rw [guestRunEntry_pendingStates]
    exact hrecords key
  | runExit probe result =>
    show Option.Rel _ ((m.guestRunExit probe result).pendingStates key) (o key)
    rw [guestRunExit_pendingStates]
    exact hrecords key
  | entry probe call =>
    rw [GuestMaps.invoke, entryProbe_pendingStates, owners]
    cases hsaves : m.saves probe call with
    | none => exact hrecords key
    | some state =>
      simp only [Option.isSome_some, if_true]
      by_cases hkey : key = call.key probe.pidTgid probe.cpu
      · subst hkey
        rw [Function.update_self, Function.update_self]
        exact .some (recordOf_saves h hsaves)
      · rw [Function.update_of_ne hkey, Function.update_of_ne hkey]
        exact hrecords key
  | ret probe value call =>
    rw [GuestMaps.invoke, returnProbe_pendingStates, owners]
    by_cases hkey : key = call.key probe.pidTgid probe.cpu
    · subst hkey
      rw [Function.update_self, Function.update_self]
      exact .none
    · rw [Function.update_of_ne hkey, Function.update_of_ne hkey]
      exact hrecords key

/-! ## Runs -/

theorem phase_eq_really :
    m.control.phase = m.really ↔ (m.control.phase = .loopbackRun ↔ m.control.active = true) := by
  unfold really
  cases m.control.phase <;> cases m.control.active <;> simp

/-- **One invocation** keeps the phase right exactly when it is no return that is not seen. -/
theorem invoke_phase_iff (next : Invocation) (h : m.control.phase = m.really) :
    (m.invoke next).control.phase = (m.invoke next).really ↔ m.ExitSeen next := by
  cases next with
  | runEntry probe =>
    obtain ⟨hphase, hactive⟩ := @guestRunEntry_control m probe
    simp [invoke, ExitSeen, really, hphase, hactive]
  | runExit probe result =>
    obtain ⟨hphase, hactive⟩ := @guestRunExit_control m probe result
    unfold really at h
    simp only [invoke, ExitSeen, really, hphase, hactive, h]
    cases m.control.active <;> cases m.unclaimed 1 <;> cases probe.room <;> simp
  | entry probe call =>
    obtain ⟨hphase, hactive⟩ := @entryProbe_control m probe call
    unfold really at h
    simp [invoke, ExitSeen, really, hphase, hactive, h]
  | ret probe value call =>
    have hsame := @returnProbe_control m probe value call
    unfold really at h
    simp [invoke, ExitSeen, really, hsame, h]

theorem after_append (m : GuestMaps) (done : List Invocation) (next : Invocation) :
    m.after (done ++ [next]) = (m.after done).invoke next := by
  unfold after
  rw [List.foldl_append]
  rfl

theorem ownersAfter_append (m : GuestMaps) (done : List Invocation) (next : Invocation) :
    m.ownersAfter (done ++ [next]) = (m.after done).owners (m.ownersAfter done) next := by
  have hmaps : ∀ p : GuestMaps × (BitVec 64 → Option Owner),
      (done.foldl (fun p next => (p.1.invoke next, p.1.owners p.2 next)) p).1 = p.1.after done := by
    induction done with
    | nil => exact fun _ => rfl
    | cons first done ih => exact fun p => ih _
  rw [ownersAfter, List.foldl_append]
  show (GuestMaps.owners _ _ next) = _
  rw [hmaps]
  rfl

/-- What has been reached when every return so far was seen. -/
structure Reached (m : GuestMaps) (done : List Invocation) : Prop where
  phase : (m.after done).control.phase = (m.after done).really
  records : (m.after done).Records (m.ownersAfter done)

theorem Reached.invoke {done : List Invocation} {next : Invocation} (h : m.Reached done)
    (hseen : (m.after done).ExitSeen next) : m.Reached (done ++ [next]) := by
  constructor
  · rw [after_append]
    exact (invoke_phase_iff next h.phase).mpr hseen
  · rw [after_append, ownersAfter_append]
    exact h.records.invoke next h.phase

theorem reached_start (targetInterface : List UInt8) : (start targetInterface).Reached [] :=
  ⟨rfl, fun _ => .none⟩

/-- **A run of seen returns** reaches only states that are right. -/
theorem Reached.run {run : List Invocation} (hstart : m.Reached [])
    (hseen : ∀ done next, done ++ [next] <+: run → (m.after done).ExitSeen next) :
    ∀ done, done <+: run → m.Reached done := by
  intro done
  induction done using List.reverseRecOn with
  | nil => exact fun _ => hstart
  | append_singleton done next ih =>
    intro hprefix
    exact (ih ((List.prefix_append _ _).trans hprefix)).invoke (hseen done next hprefix)

end Invoke

/-- **The phase of a run**: it is right after every invocation, and so are the events, exactly
    when every return of a loopback test finds none active, or is the first and has its event
    reserved, and every handler whose return is reported finds the record of a handler. -/
theorem phaseHolds_iff (targetInterface : List UInt8) (run : List Invocation) :
    PhaseHolds (start targetInterface) run ↔
      ∀ done next, done ++ [next] <+: run →
        ((start targetInterface).after done).ExitSeen next ∧
          FindsHandler ((start targetInterface).ownersAfter done) next := by
  constructor
  · intro h
    have hseen : ∀ done next, done ++ [next] <+: run →
        ((start targetInterface).after done).ExitSeen next := by
      intro done next hprefix
      have hbefore :=
        phase_eq_really.mpr (h.control done ((List.prefix_append _ _).trans hprefix))
      have hafter := phase_eq_really.mpr (h.control _ hprefix)
      rw [after_append] at hafter
      exact (invoke_phase_iff next hbefore).mp hafter
    intro done next hprefix
    refine ⟨hseen done next hprefix, ?_⟩
    have hrecords := ((reached_start targetInterface).run hseen done
      ((List.prefix_append _ _).trans hprefix)).records
    cases next with
    | ret probe value call =>
      cases call with
      | dmaMap => trivial
      | irqHandler => exact returnProbe_stale hrecords (h.stamped done _ hprefix)
    | _ => trivial
  · intro hseen
    have hreached := (reached_start targetInterface).run fun done next hprefix =>
      (hseen done next hprefix).1
    refine ⟨?_, ?_⟩
    · intro done hprefix
      exact phase_eq_really.mp (hreached done hprefix).phase
    · intro done next hprefix
      have hbefore := hreached done ((List.prefix_append _ _).trans hprefix)
      exact (invoke_submits next hbefore.phase hbefore.records (hseen done next hprefix).2).drop

/-- Two loopback tests, with room for every event. -/
def twoTests : List Invocation :=
  [.runEntry GuestState.guestProbe, .runExit GuestState.guestProbe 0,
    .runEntry GuestState.guestProbe, .runExit GuestState.guestProbe 0]

/-- The second return does not reset the phase. -/
theorem twoTests_stale : ¬ PhaseHolds (start GuestState.ethName) twoTests := by
  intro h
  have hlast := h.control twoTests (List.prefix_refl _)
  exact absurd hlast (by decide)

end GuestMaps

end LinuxMaxxing.VirtVtd
