import LinuxMaxxing.Lib.CallStacks
import LinuxMaxxing.Lib.Transition
import LinuxMaxxing.VirtVtd.HostProbes

/-!
# Calls of the Host Kernel

Runs of the probes on `domain_attach_iommu`, `qi_submit_sync` and `intel_ir_compose_msi_msg` over
any tasks.

- the calls of a task nest, and a task enters and leaves `ioctl` outside of all calls;
- tasks are told apart by their `pid_tgid`; a task keeps its name.

`host_events_paired_iff` says when each call is reported with its own values: when no call whose
return probe looks into the map is made inside a call that has saved something.
-/

namespace LinuxMaxxing.VirtVtd

open LinuxMaxxing.Lib

/-- A call in progress, with what its entry probe has saved. -/
structure HostCall where
  function : HostFunction
  saved : Option HostPending
  deriving DecidableEq, Repr

/-- A call that has returned, with what its return probe has reported. -/
structure Returned where
  call : HostCall
  ret : HostReturn
  events : List VtdEvent

/-- The maps, the calls in progress of each task, the latest first, and those that have
    returned. -/
structure HostState where
  maps : HostMaps
  calls : BitVec 64 → List HostCall
  returns : List Returned

inductive HostAct where
  | enterIoctl (probe : Probe) (user : UserMemory) (args : IoctlArgs)
  | exitIoctl (probe : Probe) (user : UserMemory) (ret : BitVec 64)
  | entry (probe : Probe) (args : HostArgs)
  | ret (probe : Probe) (ret : HostReturn)

def HostAct.probe : HostAct → Probe
  | .enterIoctl probe _ _ => probe
  | .exitIoctl probe _ _ => probe
  | .entry probe _ => probe
  | .ret probe _ => probe

namespace HostState

/-- One step of a task. -/
def act (s : HostState) : HostAct → Option HostState
  | .enterIoctl probe user args =>
    if s.calls probe.pidTgid = [] then some { s with maps := s.maps.enterIoctl probe user args }
    else none
  | .exitIoctl probe user ret =>
    if s.calls probe.pidTgid = [] then some { s with maps := s.maps.exitIoctl probe user ret }
    else none
  | .entry probe args =>
    let call : HostCall := ⟨args.function, s.maps.saves probe args⟩
    some { s with
      maps := s.maps.entryProbe probe args
      calls := Function.update s.calls probe.pidTgid (call :: s.calls probe.pidTgid) }
  | .ret probe ret =>
    match s.calls probe.pidTgid with
    | [] => none
    | call :: calls =>
      let maps := s.maps.returnProbe probe ret call.function
      some
        { maps := maps
          calls := Function.update s.calls probe.pidTgid calls
          returns := s.returns ++ [⟨call, ret, maps.events.drop s.maps.events.length⟩] }

/-- One step of a task with this name. -/
def step (name : BitVec 64 → List UInt8) (s : HostState) (a : HostAct) : Option HostState :=
  if a.probe.comm = name a.probe.pidTgid then s.act a else none

/-- The observer has just been attached. -/
def start : HostState where
  maps :=
    { activeOperations := fun _ => none
      hostPendingStates := fun _ => none
      requestCounter := 0
      guestPhase := .none
      events := [] }
  calls := fun _ => []
  returns := []

end HostState

/-- Tasks with these names. -/
def host (name : BitVec 64 → List UInt8) : System HostState HostAct where
  init s := s = .start
  step := HostState.step name

/-- A call that saved something is reported once, with that, and another call is not. -/
def Returned.Faithful (r : Returned) : Prop :=
  match r.call.saved with
  | none => r.events = []
  | some v => ∃ event, r.events = [event] ∧ r.ret.Carried r.call.function v event

namespace HostState

/-- Every event of a return is the one event of a call that saved something. -/
def Paired (s : HostState) : Prop :=
  (∀ r ∈ s.returns, r.Faithful) ∧
    s.maps.events.filter (fun event => event.eventInfo.kind.isReturn) =
      s.returns.flatMap (·.events)

/-- The maps and the ring buffer have room, and the message that a call has composed is read. -/
def Succeeds (s : HostState) (a : HostAct) : Prop :=
  a.probe.updates = true ∧ a.probe.room = true ∧
    match a with
    | .ret probe ret =>
      ∀ call ∈ (s.calls probe.pidTgid).head?, ∀ v ∈ call.saved,
        call.function = .intelIrComposeMsiMsg → (ret.kernel v.message).isSome
    | _ => True

/-- No call whose return probe looks into the map is made inside one that has saved something. -/
def Alone (s : HostState) : HostAct → Prop
  | .entry probe args =>
    (∃ call ∈ s.calls probe.pidTgid, call.saved.isSome) → ¬ s.maps.LooksUp probe.pidTgid args.function
  | _ => True

end HostState

/-! ## Runs -/

namespace HostState

variable {name : BitVec 64 → List UInt8} {s s' : HostState} {a : HostAct}

/-- What a task has saved, and where the calls in progress stand. -/
structure HostInv (name : BitVec 64 → List UInt8) (s : HostState) : Prop where
  qemu : ∀ task, (s.maps.activeOperations task).isSome → currentProcessIsQemu (name task) = true
  slot : ∀ task, s.maps.hostPendingStates task = (s.calls task).findSome? (·.saved)
  alone : ∀ task, (s.calls task).Pairwise fun inner outer =>
    outer.saved.isSome → ¬ s.maps.LooksUp task inner.function
  saving : ∀ task, ∀ call ∈ s.calls task, call.saved.isSome →
    currentProcessIsQemu (name task) = true ∧ s.maps.LooksUp task call.function
  returns : ∀ r ∈ s.returns, r.Faithful

/-- A call of a task is beyond repair: what it has saved is gone, or a call inside it will take
    it away. -/
def Doomed (s : HostState) (task : BitVec 64) : Prop :=
  ∃ inner call outer, s.calls task = inner ++ call :: outer ∧ call.saved.isSome ∧
    (s.maps.hostPendingStates task = none ∨
      ∃ other ∈ inner, s.maps.LooksUp task other.function)

/-- The run has gone wrong, or will. -/
def Lost (s : HostState) : Prop :=
  (∃ r ∈ s.returns, ¬ r.Faithful) ∨ ∃ task, s.Doomed task

/-! ### System calls -/

theorem looksUp_congr {m m' : HostMaps} {task : BitVec 64}
    (h : m'.activeOperations task = m.activeOperations task) (function : HostFunction) :
    m'.LooksUp task function ↔ m.LooksUp task function := by
  unfold HostMaps.LooksUp
  rw [h]

theorem looksUp_entryProbe {m : HostMaps} {probe : Probe} {args : HostArgs} (task : BitVec 64)
    (function : HostFunction) :
    (m.entryProbe probe args).LooksUp task function ↔ m.LooksUp task function := by
  refine looksUp_congr ?_ function
  rw [HostMaps.entryProbe_activeOperations]

theorem looksUp_returnProbe {m : HostMaps} {probe : Probe} {ret : HostReturn}
    {function : HostFunction} (task : BitVec 64) (other : HostFunction) :
    (m.returnProbe probe ret function).LooksUp task other ↔ m.LooksUp task other := by
  refine looksUp_congr ?_ other
  rw [HostMaps.returnProbe_activeOperations]

/-- What entering and leaving `ioctl` do to the maps. -/
structure IoctlStep (name : BitVec 64 → List UInt8) (m m' : HostMaps) (task : BitVec 64) : Prop where
  pending : m'.hostPendingStates = m.hostPendingStates
  others : ∀ other, other ≠ task → m'.activeOperations other = m.activeOperations other
  qemu : (m'.activeOperations task).isSome →
    currentProcessIsQemu (name task) = true ∨ (m.activeOperations task).isSome
  adds : m.Adds m' false

theorem ioctlStep_enter {m : HostMaps} {probe : Probe} (hname : probe.comm = name probe.pidTgid)
    (user : UserMemory) (args : IoctlArgs) :
    IoctlStep name m (m.enterIoctl probe user args) probe.pidTgid := by
  refine ⟨?_, ?_, ?_, m.adds_enterIoctl user args⟩
  · unfold HostMaps.enterIoctl
    split
    · rfl
    · rw [HostMaps.submit_hostPendingStates]
      dsimp only
      split <;> rfl
  · intro other hne
    unfold HostMaps.enterIoctl
    split
    · rfl
    · rw [HostMaps.submit_activeOperations]
      dsimp only
      split
      · exact Function.update_of_ne hne _ _
      · rfl
  · intro hsome
    unfold HostMaps.enterIoctl at hsome
    split at hsome
    · exact .inr hsome
    · next hfilter =>
      left
      rw [← hname]
      simpa using (Bool.or_eq_false_iff.mp (eq_false_of_ne_true hfilter)).1

theorem ioctlStep_exit {m : HostMaps} {probe : Probe} (user : UserMemory) (ret : BitVec 64) :
    IoctlStep name m (m.exitIoctl probe user ret) probe.pidTgid := by
  refine ⟨?_, ?_, ?_, m.adds_exitIoctl user ret⟩
  · unfold HostMaps.exitIoctl
    split
    · rfl
    · exact HostMaps.submit_hostPendingStates _
  · intro other hne
    unfold HostMaps.exitIoctl
    split
    · rfl
    · refine (Function.update_of_ne hne _ _).trans ?_
      rw [HostMaps.submit_activeOperations]
  · intro hsome
    right
    unfold HostMaps.exitIoctl at hsome
    split at hsome
    · next hnone => exact hsome
    · next operation hop =>
      rw [hop]
      rfl

theorem HostInv.ioctl (h : HostInv name s) {task : BitVec 64} (hcalls : s.calls task = [])
    {m : HostMaps} (hm : IoctlStep name s.maps m task) : HostInv name { s with maps := m } := by
  refine ⟨?_, ?_, ?_, ?_, h.returns⟩
  · intro other hsome
    by_cases hother : other = task
    · subst hother
      exact (hm.qemu hsome).elim id (h.qemu other)
    · refine h.qemu other ?_
      rwa [← hm.others other hother]
  · intro other
    show m.hostPendingStates other = _
    rw [hm.pending]
    exact h.slot other
  · intro other
    show (s.calls other).Pairwise _
    by_cases hother : other = task
    · rw [hother, hcalls]
      exact .nil
    · refine (h.alone other).imp fun halone hsaved => ?_
      rw [looksUp_congr (hm.others other hother)]
      exact halone hsaved
  · intro other call hcall hsaved
    by_cases hother : other = task
    · subst hother
      rw [hcalls] at hcall
      exact absurd hcall List.not_mem_nil
    · rw [looksUp_congr (hm.others other hother)]
      exact h.saving other call hcall hsaved

theorem Lost.ioctl (h : s.Lost) {task : BitVec 64} (hcalls : s.calls task = [])
    {m : HostMaps} (hm : IoctlStep name s.maps m task) : Lost { s with maps := m } := by
  rcases h with hreturn | ⟨other, inner, call, outer, hsplit, hsaved, hdoom⟩
  · exact .inl hreturn
  · have hother : other ≠ task := by
      rintro rfl
      rw [hcalls] at hsplit
      exact absurd hsplit.symm (by simp)
    refine .inr ⟨other, inner, call, outer, hsplit, hsaved, ?_⟩
    rcases hdoom with hslot | ⟨other', hmem, hlooks⟩
    · left
      show m.hostPendingStates other = none
      rw [hm.pending]
      exact hslot
    · exact .inr ⟨other', hmem, (looksUp_congr (hm.others other hother) _).mpr hlooks⟩

/-! ### Entries -/

theorem qemu_of_saves {m : HostMaps} {probe : Probe} {args : HostArgs}
    (hactive : (m.activeOperations probe.pidTgid).isSome → currentProcessIsQemu probe.comm = true)
    (h : (m.saves probe args).isSome) : currentProcessIsQemu probe.comm = true := by
  cases args with
  | domainAttachIommu domain iommu seqId =>
    by_contra hnot
    simp [HostMaps.saves, hnot] at h
  | qiSubmitSync iommu descriptor count options seqId =>
    exact hactive (HostMaps.LooksUp.of_saves h rfl)
  | intelIrComposeMsiMsg message irq =>
    by_contra hnot
    simp [HostMaps.saves, hnot] at h

theorem HostInv.entry (h : HostInv name s) {probe : Probe} {args : HostArgs}
    (hname : probe.comm = name probe.pidTgid) (hupdates : probe.updates = true)
    (halone : s.Alone (.entry probe args)) (hs : s.act (.entry probe args) = some s') :
    HostInv name s' := by
  obtain rfl := Option.some.inj hs
  have hother : ∀ task, task ≠ probe.pidTgid →
      (s.maps.entryProbe probe args).hostPendingStates task = s.maps.hostPendingStates task := by
    intro task hne
    rw [HostMaps.entryProbe_pending hupdates]
    split
    · rfl
    · exact Function.update_of_ne hne _ _
  refine ⟨?_, ?_, ?_, ?_, h.returns⟩
  · intro task hsome
    rw [HostMaps.entryProbe_activeOperations] at hsome
    exact h.qemu task hsome
  · intro task
    by_cases htask : task = probe.pidTgid
    · subst htask
      show (s.maps.entryProbe probe args).hostPendingStates _ =
        (Function.update s.calls _ _ probe.pidTgid).findSome? _
      rw [HostMaps.entryProbe_pending hupdates, Function.update_self, List.findSome?_cons]
      cases s.maps.saves probe args with
      | none => exact h.slot _
      | some active => exact Function.update_self _ _ _
    · show (s.maps.entryProbe probe args).hostPendingStates task =
        (Function.update s.calls _ _ task).findSome? _
      rw [hother task htask, Function.update_of_ne htask]
      exact h.slot task
  · simp only [looksUp_entryProbe]
    exact pairwise_push h.alone fun outer houter hsaved => halone ⟨outer, houter, hsaved⟩
  · intro task call hcall hsaved
    rw [looksUp_entryProbe]
    rcases mem_push.mp hcall with ⟨rfl, rfl⟩ | hbefore
    · refine ⟨?_, HostMaps.LooksUp.of_saves hsaved⟩
      rw [← hname]
      refine qemu_of_saves (fun hactive => ?_) hsaved
      rw [hname]
      exact h.qemu _ hactive
    · exact h.saving task call hbefore hsaved

/-- A call inside a doomed one does not save it. -/
theorem Lost.entry (h : s.Lost) {probe : Probe} {args : HostArgs}
    (hupdates : probe.updates = true) (hs : s.act (.entry probe args) = some s') : s'.Lost := by
  obtain rfl := Option.some.inj hs
  rcases h with hreturn | ⟨task, inner, call, outer, hsplit, hsaved, hdoom⟩
  · exact .inl hreturn
  · right
    refine ⟨task, ?_⟩
    by_cases htask : task = probe.pidTgid
    · subst htask
      refine ⟨⟨args.function, s.maps.saves probe args⟩ :: inner, call, outer, ?_, hsaved, ?_⟩
      · show Function.update s.calls _ _ probe.pidTgid = _
        rw [Function.update_self, hsplit, List.cons_append]
      · rcases hdoom with hslot | ⟨other, hmem, hother⟩
        · cases hsaves : s.maps.saves probe args with
          | none =>
            left
            show (s.maps.entryProbe probe args).hostPendingStates _ = none
            rw [HostMaps.entryProbe_pending hupdates, hsaves]
            exact hslot
          | some active =>
            right
            refine ⟨_, List.mem_cons_self, (looksUp_entryProbe _ _).mpr ?_⟩
            exact HostMaps.LooksUp.of_saves (by rw [hsaves]; rfl)
        · exact .inr ⟨other, List.mem_cons_of_mem _ hmem, (looksUp_entryProbe _ _).mpr hother⟩
    · refine ⟨inner, call, outer, ?_, hsaved, ?_⟩
      · show Function.update s.calls _ _ task = _
        rw [Function.update_of_ne htask, hsplit]
      · rcases hdoom with hslot | ⟨other, hmem, hother⟩
        · left
          show (s.maps.entryProbe probe args).hostPendingStates task = none
          rw [HostMaps.entryProbe_pending hupdates]
          split
          · exact hslot
          · rw [Function.update_of_ne htask]
            exact hslot
        · exact .inr ⟨other, hmem, (looksUp_entryProbe _ _).mpr hother⟩

/-- A call that looks into the map, inside one that has saved something, dooms it. -/
theorem lost_of_not_alone {a : HostAct} (h : ¬ s.Alone a) (hs : s.act a = some s') : s'.Lost := by
  cases a with
  | entry probe args =>
    obtain rfl := Option.some.inj hs
    unfold Alone at h
    rw [Classical.not_imp, not_not] at h
    obtain ⟨⟨call, hcall, hsaved⟩, hlooks⟩ := h
    obtain ⟨inner, outer, hsplit⟩ := List.append_of_mem hcall
    refine .inr ⟨probe.pidTgid, ⟨args.function, s.maps.saves probe args⟩ :: inner, call, outer, ?_,
      hsaved, .inr ⟨_, List.mem_cons_self, ?_⟩⟩
    · show Function.update s.calls _ _ probe.pidTgid = _
      rw [Function.update_self, hsplit, List.cons_append]
    · exact (looksUp_entryProbe _ args.function).mpr hlooks
  | enterIoctl probe user args => exact absurd trivial h
  | exitIoctl probe user ret => exact absurd trivial h
  | ret probe ret => exact absurd trivial h

/-! ### Returns -/

/-- A return, with the call that was the latest. -/
theorem act_ret {probe : Probe} {ret : HostReturn} (hs : s.act (.ret probe ret) = some s') :
    ∃ call calls, s.calls probe.pidTgid = call :: calls ∧
      s' = { maps := s.maps.returnProbe probe ret call.function
             calls := Function.update s.calls probe.pidTgid calls
             returns := s.returns ++ [⟨call, ret,
               (s.maps.returnProbe probe ret call.function).events.drop s.maps.events.length⟩] } := by
  rw [act] at hs
  split at hs
  · cases hs
  · next call calls hcalls => exact ⟨call, calls, hcalls, (Option.some.inj hs).symm⟩

/-- Below a call that looks into the map nothing is saved. -/
theorem HostInv.nothing_below (h : HostInv name s) {task : BitVec 64} {call : HostCall}
    {calls : List HostCall} (hcalls : s.calls task = call :: calls)
    (hlooks : s.maps.LooksUp task call.function) : calls.findSome? (·.saved) = none := by
  have halone := h.alone task
  rw [hcalls] at halone
  rw [List.findSome?_eq_none_iff]
  intro outer houter
  by_contra hsome
  exact (List.pairwise_cons.mp halone).1 outer houter (Option.isSome_iff_ne_none.mpr hsome) hlooks

/-- After a return the record of its task is that of a call that goes on. -/
theorem HostInv.slot_ret (h : HostInv name s) {probe : Probe} (ret : HostReturn) {call : HostCall}
    {calls : List HostCall} (hcalls : s.calls probe.pidTgid = call :: calls) (task : BitVec 64) :
    (s.maps.returnProbe probe ret call.function).hostPendingStates task =
      (Function.update s.calls probe.pidTgid calls task).findSome? (·.saved) := by
  rw [HostMaps.returnProbe_pending]
  by_cases htask : task = probe.pidTgid
  · subst htask
    rw [Function.update_self]
    split
    · next hlook => rw [Function.update_self, h.nothing_below hcalls hlook]
    · next hlook =>
      -- the probe of a call that has saved something looks into the map
      have hnone : call.saved = none := by
        by_contra hsome
        refine hlook (h.saving probe.pidTgid call ?_ (Option.isSome_iff_ne_none.mpr hsome)).2
        rw [hcalls]
        exact List.mem_cons_self
      rw [h.slot, hcalls, List.findSome?_cons, hnone]
  · rw [Function.update_of_ne htask]
    split
    · rw [Function.update_of_ne htask]
      exact h.slot task
    · exact h.slot task

/-- **A return** that succeeds is reported with what its entry probe has saved. -/
theorem HostInv.faithful_ret (h : HostInv name s) {probe : Probe} {ret : HostReturn}
    (hname : probe.comm = name probe.pidTgid) (hsucceeds : s.Succeeds (.ret probe ret))
    {call : HostCall} {calls : List HostCall} (hcalls : s.calls probe.pidTgid = call :: calls) :
    Returned.Faithful ⟨call, ret,
      (s.maps.returnProbe probe ret call.function).events.drop s.maps.events.length⟩ := by
  obtain ⟨-, hroom, hread⟩ := hsucceeds
  change probe.room = true at hroom
  have hslot := h.slot probe.pidTgid
  have hsaving := h.saving probe.pidTgid
  simp only [hcalls, List.head?_cons] at hslot hsaving hread
  unfold Returned.Faithful
  cases hsaved : call.saved with
  | none =>
    have hidle : s.maps.hostPendingStates probe.pidTgid = none ∨
        ¬ s.maps.LooksUp probe.pidTgid call.function := by
      by_cases hlook : s.maps.LooksUp probe.pidTgid call.function
      · left
        rw [hslot, List.findSome?_cons, hsaved]
        exact h.nothing_below hcalls hlook
      · exact .inr hlook
    simp only [HostMaps.returnProbe_idle hidle, List.drop_length]
  | some active =>
    obtain ⟨hqemu, hlook⟩ := hsaving call List.mem_cons_self (by rw [hsaved]; rfl)
    have hactive : s.maps.hostPendingStates probe.pidTgid = some active := by
      rw [hslot, List.findSome?_cons, hsaved]
    obtain ⟨event, hevents, hcarried⟩ := HostMaps.returnProbe_event
      (show currentProcessIsQemu probe.comm = true from hname ▸ hqemu) hroom hactive hlook
      (hread call rfl active hsaved)
    refine ⟨event, ?_, hcarried⟩
    rw [hevents, List.drop_left]

theorem HostInv.ret (h : HostInv name s) {probe : Probe} {ret : HostReturn}
    (hname : probe.comm = name probe.pidTgid) (hsucceeds : s.Succeeds (.ret probe ret))
    (hs : s.act (.ret probe ret) = some s') : HostInv name s' := by
  obtain ⟨call, calls, hcalls, rfl⟩ := act_ret hs
  refine ⟨?_, ?_, ?_, ?_, ?_⟩
  · intro task hsome
    rw [HostMaps.returnProbe_activeOperations] at hsome
    exact h.qemu task hsome
  · exact h.slot_ret ret hcalls
  · simp only [looksUp_returnProbe]
    exact pairwise_pop h.alone hcalls
  · intro task outer houter hsaved
    rw [looksUp_returnProbe]
    exact h.saving task outer (mem_of_mem_pop hcalls houter) hsaved
  · intro r hr
    rcases List.mem_append.mp hr with hold | hnew
    · exact h.returns r hold
    · obtain rfl := List.mem_singleton.mp hnew
      exact h.faithful_ret hname hsucceeds hcalls

/-- **A doomed call** is not reported, or its place is taken before it returns. -/
theorem Lost.ret (h : s.Lost) {probe : Probe} {ret : HostReturn}
    (hs : s.act (.ret probe ret) = some s') : s'.Lost := by
  obtain ⟨top, calls, hcalls, rfl⟩ := act_ret hs
  rcases h with ⟨r, hr, hwrong⟩ | ⟨task, inner, call, outer, hsplit, hsaved, hdoom⟩
  · exact .inl ⟨r, List.mem_append_left _ hr, hwrong⟩
  · by_cases htask : task = probe.pidTgid
    · subst htask
      rw [hcalls] at hsplit
      cases inner with
      | nil =>
        -- the doomed call returns, and its probe finds nothing
        obtain ⟨rfl, rfl⟩ := List.cons.inj hsplit
        have hslot : s.maps.hostPendingStates probe.pidTgid = none :=
          hdoom.resolve_right fun ⟨_, hmem, _⟩ => List.not_mem_nil hmem
        refine .inl ⟨_, List.mem_append_right _ List.mem_cons_self, ?_⟩
        obtain ⟨v, hv⟩ := Option.isSome_iff_exists.mp hsaved
        unfold Returned.Faithful
        simp only [hv, HostMaps.returnProbe_idle (.inl hslot), List.drop_length]
        rintro ⟨event, hevent, _⟩
        exact absurd hevent (by simp)
      | cons first inner =>
        obtain ⟨rfl, rfl⟩ := List.cons.inj hsplit
        refine .inr ⟨probe.pidTgid, inner, call, outer, Function.update_self _ _ _, hsaved, ?_⟩
        show (s.maps.returnProbe probe ret top.function).hostPendingStates _ = none ∨ _
        rw [HostMaps.returnProbe_pending]
        by_cases hlook : s.maps.LooksUp probe.pidTgid top.function
        · left
          rw [if_pos hlook, Function.update_self]
        · rw [if_neg hlook]
          rcases hdoom with hslot | ⟨other, hmem, hother⟩
          · exact .inl hslot
          · rcases List.mem_cons.mp hmem with rfl | hmem
            · exact absurd hother hlook
            · exact .inr ⟨other, hmem, (looksUp_returnProbe _ _).mpr hother⟩
    · refine .inr ⟨task, inner, call, outer, (Function.update_of_ne htask _ _).trans hsplit,
        hsaved, ?_⟩
      rcases hdoom with hslot | ⟨other, hmem, hother⟩
      · left
        show (s.maps.returnProbe probe ret top.function).hostPendingStates task = none
        rw [HostMaps.returnProbe_pending]
        split
        · rw [Function.update_of_ne htask]
          exact hslot
        · exact hslot
      · exact .inr ⟨other, hmem, (looksUp_returnProbe _ _).mpr hother⟩

/-! ### Whole runs -/

/-- The events of return probes are those of the returns. -/
def Logged (s : HostState) : Prop :=
  s.maps.events.filter (fun event => event.eventInfo.kind.isReturn) =
    s.returns.flatMap (·.events)

theorem Logged.other {m : HostMaps} (h : s.Logged) (hadds : s.maps.Adds m false)
    (calls : BitVec 64 → List HostCall) : Logged ⟨m, calls, s.returns⟩ := by
  unfold Logged
  rw [Added.filter_others hadds]
  exact h

theorem Logged.act (h : s.Logged) (hname : a.probe.comm = name a.probe.pidTgid)
    (hs : s.act a = some s') : s'.Logged := by
  cases a with
  | enterIoctl probe user args =>
    rw [HostState.act] at hs
    split at hs
    · obtain rfl := Option.some.inj hs
      exact h.other (s.maps.adds_enterIoctl user args) _
    · cases hs
  | exitIoctl probe user ret =>
    rw [HostState.act] at hs
    split at hs
    · obtain rfl := Option.some.inj hs
      exact h.other (s.maps.adds_exitIoctl user ret) _
    · cases hs
  | entry probe args =>
    obtain rfl := Option.some.inj hs
    exact h.other (s.maps.adds_entryProbe args) _
  | ret probe ret =>
    obtain ⟨call, calls, hcalls, rfl⟩ := act_ret hs
    unfold Logged
    rw [Added.filter_all (s.maps.adds_returnProbe ret call.function), List.flatMap_append,
      List.flatMap_singleton]
    exact congrArg (· ++ _) h

/-- One step of a run that meets the condition. -/
theorem HostInv.act (h : HostInv name s) (hname : a.probe.comm = name a.probe.pidTgid)
    (hsucceeds : s.Succeeds a) (halone : s.Alone a) (hs : s.act a = some s') :
    HostInv name s' := by
  cases a with
  | enterIoctl probe user args =>
    rw [HostState.act] at hs
    split at hs
    · next hcalls =>
      obtain rfl := Option.some.inj hs
      exact h.ioctl hcalls (ioctlStep_enter hname user args)
    · cases hs
  | exitIoctl probe user ret =>
    rw [HostState.act] at hs
    split at hs
    · next hcalls =>
      obtain rfl := Option.some.inj hs
      exact h.ioctl hcalls (ioctlStep_exit user ret)
    · cases hs
  | entry probe args => exact h.entry hname hsucceeds.1 halone hs
  | ret probe ret => exact h.ret hname hsucceeds hs

/-- One step of a run that is lost. -/
theorem Lost.act (h : s.Lost) (hname : a.probe.comm = name a.probe.pidTgid)
    (hsucceeds : s.Succeeds a) (hs : s.act a = some s') : s'.Lost := by
  cases a with
  | enterIoctl probe user args =>
    rw [HostState.act] at hs
    split at hs
    · next hcalls =>
      obtain rfl := Option.some.inj hs
      exact h.ioctl hcalls (ioctlStep_enter hname user args)
    · cases hs
  | exitIoctl probe user ret =>
    rw [HostState.act] at hs
    split at hs
    · next hcalls =>
      obtain rfl := Option.some.inj hs
      have hstep : IoctlStep name s.maps (s.maps.exitIoctl probe user ret) probe.pidTgid :=
        ioctlStep_exit user ret
      exact h.ioctl hcalls hstep
    · cases hs
  | entry probe args => exact h.entry hsucceeds.1 hs
  | ret probe ret => exact h.ret hs

theorem HostInv.start : HostInv name .start := by
  refine ⟨fun _ h => absurd h Bool.false_ne_true, fun _ => rfl, fun _ => .nil, ?_, ?_⟩
  · intro task call hcall
    exact absurd hcall List.not_mem_nil
  · intro r hr
    exact absurd hr List.not_mem_nil

/-- What is left of a run: its invariant as far as it met the condition, and what is lost. -/
theorem run_cases {as : List HostAct} {t : HostState} (hlog : s.Logged)
    (hrun : (host name).exec s as = some t) (hsucceeds : (host name).RunsOk Succeeds s as) :
    t.Logged ∧ (HostInv name s → (host name).RunsOk Alone s as → HostInv name t) ∧
      (s.Lost ∨ ¬ (host name).RunsOk Alone s as → t.Lost) := by
  induction as generalizing s with
  | nil =>
    obtain rfl := Option.some.inj hrun
    exact ⟨hlog, fun h _ => h, fun h => h.resolve_right fun hnot => hnot trivial⟩
  | cons a as ih =>
    rw [System.exec] at hrun
    obtain ⟨hstep, hrest⟩ := hsucceeds
    cases hs : (host name).step s a with
    | none =>
      rw [hs] at hrun
      cases hrun
    | some s₁ =>
      rw [hs] at hrun hrest
      have hact : a.probe.comm = name a.probe.pidTgid ∧ s.act a = some s₁ := by
        change (if _ then _ else _) = _ at hs
        split at hs
        · next hname => exact ⟨hname, hs⟩
        · cases hs
      obtain ⟨hname, hact⟩ := hact
      obtain ⟨hlogged, hinv, hlost⟩ := ih (hlog.act hname hact) hrun hrest
      have hok : (host name).RunsOk Alone s (a :: as) ↔
          s.Alone a ∧ (host name).RunsOk Alone s₁ as := by
        rw [System.RunsOk, hs]
      refine ⟨hlogged, ?_, ?_⟩
      · intro h halone
        obtain ⟨hfirst, hthen⟩ := hok.mp halone
        exact hinv (h.act hname hstep hfirst hact) hthen
      · rintro (hgone | hnot)
        · exact hlost (.inl (hgone.act hname hstep hact))
        · rw [hok] at hnot
          by_cases hfirst : s.Alone a
          · exact hlost (.inr fun hthen => hnot ⟨hfirst, hthen⟩)
          · exact hlost (.inl (lost_of_not_alone hfirst hact))

/-- **Each call is reported with its own values** in every run in which no call whose return probe
    looks into the map is made inside one that has saved something; and in no other run, once all
    calls have returned. -/
theorem host_events_paired_iff {as : List HostAct} {t : HostState}
    (hrun : (host name).exec .start as = some t)
    (hsucceeds : (host name).RunsOk Succeeds .start as) :
    ((host name).RunsOk Alone .start as → t.Paired) ∧
      ((∀ task, t.calls task = []) → t.Paired → (host name).RunsOk Alone .start as) := by
  obtain ⟨hlogged, hinv, hlost⟩ := run_cases (rfl : HostState.start.Logged) hrun hsucceeds
  refine ⟨fun halone => ⟨(hinv .start halone).returns, hlogged⟩, ?_⟩
  intro hdone hpaired
  by_contra hnot
  rcases hlost (.inr hnot) with ⟨r, hr, hwrong⟩ | ⟨task, inner, call, outer, hsplit, _⟩
  · exact hwrong (hpaired.1 r hr)
  · rw [hdone task] at hsplit
    exact absurd hsplit.symm (by simp)

/-! ### Two runs -/

/-- `qemu-system-x86` -/
def qemuComm : List UInt8 :=
  [0x71, 0x65, 0x6d, 0x75, 0x2d, 0x73, 0x79, 0x73, 0x74, 0x65, 0x6d, 0x2d, 0x78, 0x38, 0x36, 0]

def qemuProbe : Probe := ⟨1, 0x700000007, 0, qemuComm, true, true⟩

/-- Another thread of the same process. -/
def vcpuProbe : Probe := ⟨2, 0x700000008, 1, qemuComm, true, true⟩

/-- One mapping request, at 0x7000. -/
def qemuMemory : UserMemory where
  dmaMap a := if a = 0x7000 then some ⟨32, 3, 0x7f0000000000, 0x100000, 0x1000⟩ else none
  dmaUnmap _ := none
  irqSet _ := none
  memoryRegion _ := none

/-- What a composed message reads as. -/
def okReturn : HostReturn := ⟨0, fun _ => some ⟨0xfee00000, 0, 0x41⟩⟩

/-- A mapping request queues an invalidation; meanwhile another thread, outside of `ioctl`, attaches
    a domain, which queues one too. -/
def twoThreads : List HostAct :=
  [.enterIoctl qemuProbe qemuMemory ⟨9, vfioIommuMapDma, 0x7000⟩,
    .entry vcpuProbe (.domainAttachIommu 0x2000 0x1000 0),
    .entry qemuProbe (.qiSubmitSync 0x1000 (some (0x35, 0x2)) 1 0 0),
    .entry vcpuProbe (.qiSubmitSync 0x1000 (some (0x25, 0x4)) 1 0 1),
    .ret qemuProbe okReturn, .ret vcpuProbe okReturn, .ret vcpuProbe okReturn,
    .exitIoctl qemuProbe qemuMemory 0]

theorem host_events_paired_twoThreads :
    ∃ t, (host fun _ => qemuComm).exec .start twoThreads = some t ∧ t.Paired := by
  have hrun : (host fun _ => qemuComm).exec .start twoThreads = some _ := rfl
  refine ⟨_, rfl, (host_events_paired_iff hrun ?_).1 ?_⟩
  · exact ⟨⟨rfl, rfl, trivial⟩, ⟨rfl, rfl, trivial⟩, ⟨rfl, rfl, trivial⟩, ⟨rfl, rfl, trivial⟩,
      ⟨rfl, rfl, fun _ _ _ _ _ => rfl⟩, ⟨rfl, rfl, fun _ _ _ _ _ => rfl⟩,
      ⟨rfl, rfl, fun _ _ _ _ _ => rfl⟩, ⟨rfl, rfl, trivial⟩, trivial⟩
  · -- the nested call is made where its return probe looks for nothing
    refine ⟨trivial, fun ⟨_, hcall, _⟩ => absurd hcall List.not_mem_nil,
      fun ⟨_, hcall, _⟩ => absurd hcall List.not_mem_nil, fun _ hlooks => ?_, trivial, trivial,
      trivial, trivial, trivial⟩
    exact absurd (hlooks rfl) Bool.false_ne_true

/-- A domain is attached, and the attachment queues an invalidation. -/
def nestedInvalidation : List HostAct :=
  [.enterIoctl qemuProbe qemuMemory ⟨9, vfioIommuMapDma, 0x7000⟩,
    .entry qemuProbe (.domainAttachIommu 0x2000 0x1000 0),
    .entry qemuProbe (.qiSubmitSync 0x1000 (some (0x35, 0x2)) 1 0 0),
    .ret qemuProbe okReturn, .ret qemuProbe okReturn]

/-- **A call inside another** takes the place of what the outer one has saved: the attachment is
    not reported. -/
theorem nestedInvalidation_unpaired :
    ¬ ∀ (name : BitVec 64 → List UInt8) (as : List HostAct) (t : HostState),
      (host name).exec .start as = some t → (host name).RunsOk Succeeds .start as → t.Paired := by
  intro hall
  have hpaired := hall (fun _ => qemuComm) nestedInvalidation _ rfl
    ⟨⟨rfl, rfl, trivial⟩, ⟨rfl, rfl, trivial⟩, ⟨rfl, rfl, trivial⟩,
      ⟨rfl, rfl, fun _ _ _ _ _ => rfl⟩, ⟨rfl, rfl, fun _ _ _ _ _ => rfl⟩, trivial⟩
  obtain ⟨event, hevent, _⟩ := hpaired.1 _ (List.mem_cons_of_mem _ List.mem_cons_self)
  cases hevent

end HostState

end LinuxMaxxing.VirtVtd
