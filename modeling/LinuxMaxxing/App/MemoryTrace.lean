import LinuxMaxxing.App.ParseCapture

/-!
# The Phase Activity of the Memory View

`memory.js` counts the trace events of a phase in a window that begins at the record of the phase
before and ends at the snapshot of the phase itself. The snapshot is taken after the record, so what
happens between the two is in the windows of two phases.

- `MemoryView.load`: the snapshots, phases and trace events of a capture, on one clock
- `traceCounts_eq`: the counts are those of the trace records inside the window
- `attributed_once_iff`: each event has one phase exactly if none falls between a record and its
  snapshot
-/

namespace LinuxMaxxing.App

open LinuxMaxxing.Framework (Text text bind_eq_ok)

/-! ## Loading a capture -/

/-- What `load` reads of a record, its numbers converted by `Number`. -/
structure MemoryRecord where
  mechanism : Text
  kind : Text
  clockDomain : Text
  timestampNs : Nat
  /-- `context.phase` of the record of a phase -/
  phase : Nat
  /-- `event_info.phase_seq` of a snapshot -/
  phaseSeq : Nat

/-- The errors of `relativeNs` and `load`. -/
inductive LoadError where
  | intervalExceedsPrecision
  | missingSnapshotsOrPhases
  deriving DecidableEq, Repr

/-- `capture.origins`: the earliest time of a clock domain. -/
def originOf (records : List MemoryRecord) (domain : Text) : Nat :=
  (((records.filter (·.clockDomain = domain)).map (·.timestampNs)).min?).getD 0

/-- The time of a record since its origin. -/
def MemoryRecord.since (records : List MemoryRecord) (r : MemoryRecord) : Nat :=
  r.timestampNs - originOf records r.clockDomain

/-- `relativeNs`; the bound is `Number.MAX_SAFE_INTEGER`. -/
def relativeNs (records : List MemoryRecord) (r : MemoryRecord) : Except LoadError Nat :=
  if 2 ^ 53 - 1 < r.since records then .error .intervalExceedsPrecision
  else .ok (r.since records)

/-- A frame of `parseMemorySnapshot`, as far as the windows need it. -/
structure MemorySnapshot where
  phaseSeq : Nat
  timeNs : Nat
  deriving DecidableEq, Repr

structure MemoryPhase where
  seq : Nat
  timeNs : Nat
  deriving DecidableEq, Repr

structure TraceEvent where
  timeNs : Nat
  event : Text
  deriving DecidableEq, Repr

/-- The variables of the view that `load` sets. -/
structure MemoryView where
  snapshots : List MemorySnapshot
  phases : List MemoryPhase
  traceEvents : List TraceEvent
  deriving DecidableEq, Repr

/-- `parseMemorySnapshot(observation(capture, e))` -/
def snapshotOf (records : List MemoryRecord) (r : MemoryRecord) :
    Except LoadError (Option MemorySnapshot) :=
  (relativeNs records r).map fun time =>
    if r.kind = text "memory_snapshot" then some ⟨r.phaseSeq, time⟩ else none

def phaseOf (records : List MemoryRecord) (r : MemoryRecord) : Except LoadError MemoryPhase :=
  (relativeNs records r).map fun time => ⟨r.phase, time⟩

def traceEventOf (records : List MemoryRecord) (r : MemoryRecord) : Except LoadError TraceEvent :=
  (relativeNs records r).map fun time => ⟨time, r.kind⟩

/-- The records of `parseTrace`. -/
def traceRecords (records : List MemoryRecord) : List MemoryRecord :=
  records.filter (·.mechanism = text "tracefs")

/-- `load`, with `parseTrace` -/
def MemoryView.load (records : List MemoryRecord) : Except LoadError MemoryView := do
  let snapshots ← (records.filter (·.mechanism = text "ebpf")).mapM (snapshotOf records)
  let phases ← (records.filter fun r =>
    r.mechanism = text "workload" ∧ r.kind = text "phase").mapM (phaseOf records)
  if (snapshots.filterMap id).isEmpty ∨ phases.isEmpty then .error .missingSnapshotsOrPhases
  else
    let traceEvents ← (traceRecords records).mapM (traceEventOf records)
    .ok {
      snapshots := snapshots.filterMap id
      phases := phases
      traceEvents := traceEvents.mergeSort fun a b => a.timeNs ≤ b.timeNs }

/-! ## Windows -/

/-- `phaseIndexFor`; `none` is -1. -/
def phaseIndexFor (phases : List MemoryPhase) (s : MemorySnapshot) : Option Nat :=
  phases.findIdx? fun phase => phase.seq = s.phaseSeq

/-- `traceWindow` -/
def traceWindow (phases : List MemoryPhase) (s : MemorySnapshot) : Nat × Nat :=
  let start := match phaseIndexFor phases s with
    | some (i + 1) => (phases[i]?.map (·.timeNs)).getD 0
    | _ => 0
  (start, s.timeNs)

/-- The window that a snapshot counts in has the event. -/
def InWindow (phases : List MemoryPhase) (s : MemorySnapshot) (timeNs : Nat) : Prop :=
  (traceWindow phases s).1 < timeNs ∧ timeNs ≤ (traceWindow phases s).2

instance (phases : List MemoryPhase) (s : MemorySnapshot) (timeNs : Nat) :
    Decidable (InWindow phases s timeNs) := inferInstanceAs (Decidable (_ ∧ _))

/-- `traceCounts`: the map, with 0 for what it has not. -/
def traceCounts (view : MemoryView) (s : MemorySnapshot) : Text → Nat :=
  let window := traceWindow view.phases s
  view.traceEvents.foldl (fun counts event =>
    if event.timeNs ≤ window.1 ∨ window.2 < event.timeNs then counts
    else Function.update counts event.event (counts event.event + 1)) fun _ => 0

/-! ## What is counted -/

theorem foldl_update_counts (p : TraceEvent → Prop) [DecidablePred p] (name : Text)
    (events : List TraceEvent) (counts : Text → Nat) :
    events.foldl (fun counts event =>
      if p event then counts
      else Function.update counts event.event (counts event.event + 1)) counts name =
      counts name + events.countP fun event => !decide (p event) && event.event = name := by
  induction events generalizing counts with
  | nil => rfl
  | cons event events ih =>
    rw [List.foldl_cons, ih, List.countP_cons]
    by_cases hp : p event
    · simp [hp]
    · by_cases hname : event.event = name
      · simp [hp, hname]
        omega
      · simp [hp, hname, Function.update_of_ne (Ne.symm hname)]

theorem mapM_ok {α β ε : Type} {f : α → Except ε β} {g : α → β}
    (hf : ∀ a b, f a = .ok b → b = g a) {l : List α} {r : List β} (h : l.mapM f = .ok r) :
    r = l.map g := by
  induction l generalizing r with
  | nil =>
    cases h
    rfl
  | cons a l ih =>
    rw [List.mapM_cons] at h
    obtain ⟨b, hb, h⟩ := bind_eq_ok.mp h
    obtain ⟨rest, hrest, h⟩ := bind_eq_ok.mp h
    cases h
    rw [hf a b hb, ih hrest, List.map_cons]

/-- The trace events of a loaded view are the trace records, each at its time since the origin. -/
theorem load_traceEvents {records : List MemoryRecord} {view : MemoryView}
    (h : MemoryView.load records = .ok view) :
    view.traceEvents.Perm ((traceRecords records).map fun r => ⟨r.since records, r.kind⟩) := by
  obtain ⟨snapshots, -, h⟩ := bind_eq_ok.mp h
  obtain ⟨phases, -, h⟩ := bind_eq_ok.mp h
  split at h
  · cases h
  · obtain ⟨traceEvents, hevents, h⟩ := bind_eq_ok.mp h
    cases h
    have hmap := mapM_ok (g := fun r => (⟨r.since records, r.kind⟩ : TraceEvent)) ?_ hevents
    · rw [← hmap]
      exact List.mergeSort_perm _ _
    · intro r event hr
      simp only [traceEventOf, relativeNs] at hr
      split at hr
      · cases hr
      · cases hr
        rfl

/-- **Counts**: a snapshot counts the trace records of a name in its window. -/
theorem traceCounts_eq {records : List MemoryRecord} {view : MemoryView}
    (h : MemoryView.load records = .ok view) (s : MemorySnapshot) (name : Text) :
    traceCounts view s name = (traceRecords records).countP fun r =>
      InWindow view.phases s (r.since records) ∧ r.kind = name := by
  unfold traceCounts
  rw [foldl_update_counts, Nat.zero_add, (load_traceEvents h).countP_eq, List.countP_map]
  apply List.countP_congr
  intro r _
  simp only [InWindow, Function.comp_apply, decide_eq_true_eq, Bool.and_eq_true, Bool.not_eq_true',
    decide_eq_false_iff_not, not_or, not_le, not_lt]
  exact decide_eq_true_iff.symm

/-! ## One phase for each event -/

/-- The snapshot of the `i`-th phase: taken after its record, and before the next one. -/
def TakenFor (phases : List MemoryPhase) (i : Nat) (s : MemorySnapshot) : Prop :=
  ∃ phase, phases[i]? = some phase ∧ s.phaseSeq = phase.seq ∧ phase.timeNs ≤ s.timeNs ∧
    ∀ next, phases[i + 1]? = some next → s.timeNs < next.timeNs

/-- A capture with one snapshot for each phase; `taken` has them in the order of the phases. -/
structure WellTimed (view : MemoryView) (taken : List MemorySnapshot) : Prop where
  increasing : view.phases.Pairwise fun a b => a.timeNs < b.timeNs
  distinct : (view.phases.map (·.seq)).Nodup
  perm : view.snapshots.Perm taken
  length : taken.length = view.phases.length
  taken : ∀ i s, taken[i]? = some s → TakenFor view.phases i s

/-- The window of the phase has the event. -/
def Attributes (view : MemoryView) (i timeNs : Nat) : Prop :=
  ∃ s ∈ view.snapshots, phaseIndexFor view.phases s = some i ∧ InWindow view.phases s timeNs

/-- Each event has at most one phase, and each between the first record and the last snapshot has
    one. -/
structure AttributedOnce (view : MemoryView) : Prop where
  atMostOne : ∀ event ∈ view.traceEvents, ∀ i j,
    Attributes view i event.timeNs → Attributes view j event.timeNs → i = j
  atLeastOne : ∀ event ∈ view.traceEvents, (∃ phase ∈ view.phases, phase.timeNs ≤ event.timeNs) →
    (∃ s ∈ view.snapshots, event.timeNs ≤ s.timeNs) → ∃ i, Attributes view i event.timeNs

/-- The time is after the record of a phase other than the last, and not after its snapshot. -/
def AtBoundary (view : MemoryView) (timeNs : Nat) : Prop :=
  ∃ i phase next s, view.phases[i]? = some phase ∧ view.phases[i + 1]? = some next ∧
    s ∈ view.snapshots ∧ s.phaseSeq = phase.seq ∧ phase.timeNs < timeNs ∧ timeNs ≤ s.timeNs

/-- No event is at a boundary, and none at the origin together with the first record. -/
def ClearOfBoundaries (view : MemoryView) : Prop :=
  ∀ event ∈ view.traceEvents, ¬ AtBoundary view event.timeNs ∧
    (event.timeNs = 0 → ∀ phase ∈ view.phases, phase.timeNs ≠ 0)

section Timed

variable {view : MemoryView} {taken : List MemorySnapshot} {i j timeNs : Nat}
  {s : MemorySnapshot} {phase : MemoryPhase}

/-- Where the window of a phase begins. -/
def windowStart (phases : List MemoryPhase) : Nat → Nat
  | 0 => 0
  | i + 1 => (phases[i]?.map (·.timeNs)).getD 0

theorem windowStart_succ (hphase : view.phases[i]? = some phase) :
    windowStart view.phases (i + 1) = phase.timeNs := by
  rw [windowStart, hphase]
  rfl

/-- A phase is found by its number. -/
theorem findIdx_seq (hdistinct : (view.phases.map (·.seq)).Nodup)
    (hphase : view.phases[i]? = some phase) :
    view.phases.findIdx? (fun p => p.seq = phase.seq) = some i := by
  obtain ⟨hi, rfl⟩ := List.getElem?_eq_some_iff.mp hphase
  rw [List.findIdx?_eq_some_iff_getElem]
  refine ⟨hi, decide_eq_true rfl, fun j hj => ?_⟩
  intro hsame
  have hi' : i < (view.phases.map (·.seq)).length := by rwa [List.length_map]
  have hj' : j < (view.phases.map (·.seq)).length := hj.trans hi'
  have hseq : (view.phases.map (·.seq))[j] = (view.phases.map (·.seq))[i] := by simpa using hsame
  exact absurd ((List.Nodup.getElem_inj_iff hdistinct).mp hseq) (Nat.ne_of_lt hj)

theorem WellTimed.attributes_iff (h : WellTimed view taken) :
    Attributes view i timeNs ↔
      ∃ s, taken[i]? = some s ∧ windowStart view.phases i < timeNs ∧ timeNs ≤ s.timeNs := by
  have hindex : ∀ k s, taken[k]? = some s → phaseIndexFor view.phases s = some k := by
    intro k s hs
    obtain ⟨phase, hphase, hseq, -⟩ := h.taken k s hs
    unfold phaseIndexFor
    rw [hseq]
    exact findIdx_seq h.distinct hphase
  have hwindow : ∀ k s, phaseIndexFor view.phases s = some k →
      (InWindow view.phases s timeNs ↔ windowStart view.phases k < timeNs ∧ timeNs ≤ s.timeNs) := by
    intro k s hk
    unfold InWindow traceWindow
    rw [hk]
    cases k <;> rfl
  constructor
  · rintro ⟨s, hs, hi, hin⟩
    obtain ⟨k, hk⟩ := List.mem_iff_getElem?.mp (h.perm.mem_iff.mp hs)
    obtain rfl : k = i := Option.some.inj ((hindex k s hk).symm.trans hi)
    exact ⟨s, hk, (hwindow k s hi).mp hin⟩
  · rintro ⟨s, hs, hin⟩
    have hmem : s ∈ view.snapshots := h.perm.mem_iff.mpr (List.mem_of_getElem? hs)
    exact ⟨s, hmem, hindex i s hs, (hwindow i s (hindex i s hs)).mpr hin⟩

/-- The records come one after the other. -/
theorem WellTimed.phase_lt (h : WellTimed view taken) {next : MemoryPhase} (hij : i < j)
    (hphase : view.phases[i]? = some phase) (hnext : view.phases[j]? = some next) :
    phase.timeNs < next.timeNs := by
  obtain ⟨hi, rfl⟩ := List.getElem?_eq_some_iff.mp hphase
  obtain ⟨hj, rfl⟩ := List.getElem?_eq_some_iff.mp hnext
  exact List.pairwise_iff_getElem.mp h.increasing i j hi hj hij

/-- What is behind the record of a phase is behind the start of its window. -/
theorem WellTimed.windowStart_lt (h : WellTimed view taken) (hphase : view.phases[i]? = some phase)
    (hlate : phase.timeNs < timeNs) : windowStart view.phases i < timeNs := by
  cases i with
  | zero => exact Nat.zero_lt_of_lt hlate
  | succ i =>
    have hlt : i < view.phases.length :=
      (Nat.lt_succ_self i).trans (List.getElem?_eq_some_iff.mp hphase).1
    have hearlier : view.phases[i]? = some view.phases[i] := List.getElem?_eq_getElem hlt
    rw [windowStart_succ hearlier]
    exact (h.phase_lt (Nat.lt_succ_self i) hearlier hphase).trans hlate

/-- The snapshot of a boundary is the one of its phase. -/
theorem WellTimed.getElem_taken (h : WellTimed view taken) (hphase : view.phases[i]? = some phase)
    (hs : s ∈ view.snapshots) (hseq : s.phaseSeq = phase.seq) :
    taken[i]? = some s := by
  obtain ⟨k, hk⟩ := List.mem_iff_getElem?.mp (h.perm.mem_iff.mp hs)
  obtain ⟨phase', hphase', hseq', -⟩ := h.taken k s hk
  have hsame := findIdx_seq h.distinct hphase'
  rw [← hseq', hseq, findIdx_seq h.distinct hphase] at hsame
  obtain rfl : i = k := Option.some.inj hsame
  exact hk

/-- An event of two windows is behind the record of the earlier one's phase. -/
theorem WellTimed.atBoundary (h : WellTimed view taken) (hij : i < j)
    (hi : Attributes view i timeNs) (hj : Attributes view j timeNs) : AtBoundary view timeNs := by
  obtain ⟨s, hs, -, hend⟩ := h.attributes_iff.mp hi
  obtain ⟨s', hs', hstart, -⟩ := h.attributes_iff.mp hj
  obtain ⟨phase, hphase, hseq, -⟩ := h.taken i s hs
  obtain ⟨phase', hphase', -⟩ := h.taken j s' hs'
  obtain ⟨k, rfl⟩ := Nat.exists_eq_add_of_lt hij
  have hk : i + k < view.phases.length :=
    (Nat.lt_succ_self _).trans (List.getElem?_eq_some_iff.mp hphase').1
  have hbefore : view.phases[i + k]? = some view.phases[i + k] := List.getElem?_eq_getElem hk
  rw [windowStart_succ hbefore] at hstart
  have hnext : i + 1 < view.phases.length :=
    (Nat.succ_le_succ (Nat.le_add_right i k)).trans_lt
      (List.getElem?_eq_some_iff.mp hphase').1
  refine ⟨i, phase, _, s, hphase, List.getElem?_eq_getElem hnext,
    h.perm.mem_iff.mpr (List.mem_of_getElem? hs), hseq, ?_, hend⟩
  -- the later window begins at this record or behind it
  rcases Nat.eq_zero_or_pos k with rfl | hpos
  · obtain rfl : phase = view.phases[i] := Option.some.inj (hphase.symm.trans hbefore)
    exact hstart
  · exact (h.phase_lt (Nat.lt_add_of_pos_right hpos) hphase hbefore).trans hstart

/-- **Overlap**: two windows have an event exactly if it is at a boundary. -/
theorem WellTimed.attributes_twice_iff (h : WellTimed view taken) :
    (∃ i j, i ≠ j ∧ Attributes view i timeNs ∧ Attributes view j timeNs) ↔
      AtBoundary view timeNs := by
  constructor
  · rintro ⟨i, j, hne, hi, hj⟩
    rcases Nat.lt_or_gt_of_ne hne with hij | hji
    · exact h.atBoundary hij hi hj
    · exact h.atBoundary hji hj hi
  · rintro ⟨i, phase, next, s, hphase, hnext, hs, hseq, hstart, hend⟩
    have hown : taken[i]? = some s := h.getElem_taken hphase hs hseq
    obtain ⟨-, -, -, -, hbefore⟩ := h.taken i s hown
    have hi : i + 1 < taken.length := h.length ▸ (List.getElem?_eq_some_iff.mp hnext).1
    have htaken : taken[i + 1]? = some taken[i + 1] := List.getElem?_eq_getElem hi
    obtain ⟨next', hnext', -, hle, -⟩ := h.taken (i + 1) _ htaken
    obtain rfl : next = next' := Option.some.inj (hnext.symm.trans hnext')
    refine ⟨i, i + 1, Nat.ne_of_lt (Nat.lt_succ_self i), ?_, ?_⟩
    · exact h.attributes_iff.mpr ⟨s, hown, h.windowStart_lt hphase hstart, hend⟩
    · refine h.attributes_iff.mpr ⟨_, htaken, ?_, ?_⟩
      · rw [windowStart_succ hphase]
        exact hstart
      -- the next snapshot is behind the next record, and that behind this snapshot
      · exact (hend.trans (Nat.le_of_lt (hbefore next hnext))).trans hle

/-- **Coverage**: the windows have every event up to the last snapshot, but not at the origin. -/
theorem WellTimed.exists_attributes_iff (h : WellTimed view taken)
    (hlast : ∃ s ∈ view.snapshots, timeNs ≤ s.timeNs) :
    (∃ i, Attributes view i timeNs) ↔ 0 < timeNs := by
  constructor
  · rintro ⟨i, hi⟩
    obtain ⟨s, -, hstart, -⟩ := h.attributes_iff.mp hi
    exact Nat.zero_lt_of_lt hstart
  · intro hpos
    have hreached : ∃ (i : Nat) (s : MemorySnapshot), taken[i]? = some s ∧ timeNs ≤ s.timeNs := by
      obtain ⟨s, hs, hle⟩ := hlast
      obtain ⟨i, hi⟩ := List.mem_iff_getElem?.mp (h.perm.mem_iff.mp hs)
      exact ⟨i, s, hi, hle⟩
    -- the first phase whose snapshot has the event behind it
    classical
    obtain ⟨s, hs, hend⟩ := Nat.find_spec hreached
    have hfirst := fun k => Nat.find_min hreached (m := k)
    generalize Nat.find hreached = i at hs hfirst
    refine ⟨i, h.attributes_iff.mpr ⟨s, hs, ?_, hend⟩⟩
    cases i with
    | zero => exact hpos
    | succ i =>
      have hi : i < taken.length :=
        (Nat.lt_succ_self i).trans (List.getElem?_eq_some_iff.mp hs).1
      obtain ⟨phase, hphase, -, hle, -⟩ := h.taken i _ (List.getElem?_eq_getElem hi)
      have hbefore : taken[i].timeNs < timeNs := by
        by_contra hle'
        exact hfirst i (Nat.lt_succ_self i)
          ⟨taken[i], List.getElem?_eq_getElem hi, not_lt.mp hle'⟩
      rw [windowStart_succ hphase]
      exact lt_of_le_of_lt hle hbefore

end Timed

/-- The counts of a loaded view are those of the trace records in the windows, and the windows give
    each event one phase exactly if no event falls between the record of a phase and its snapshot,
    the last phase apart, and none at the origin with the first record. -/
theorem attributed_once_iff {records : List MemoryRecord} {view : MemoryView}
    (hload : MemoryView.load records = .ok view) {taken : List MemorySnapshot}
    (h : WellTimed view taken) :
    (∀ s name, traceCounts view s name = (traceRecords records).countP fun r =>
        InWindow view.phases s (r.since records) ∧ r.kind = name) ∧
      (AttributedOnce view ↔ ClearOfBoundaries view) := by
  refine ⟨traceCounts_eq hload, ?_⟩
  constructor
  · intro hall event hevent
    constructor
    · intro hboundary
      obtain ⟨i, j, hne, hi, hj⟩ := h.attributes_twice_iff.mpr hboundary
      exact hne (hall.atMostOne event hevent i j hi hj)
    · intro hzero phase hphase hfirst
      obtain ⟨i, hi, -⟩ := List.mem_iff_getElem.mp hphase
      have hi' : i < taken.length := by rwa [h.length]
      have htaken : taken[i] ∈ view.snapshots := h.perm.mem_iff.mpr (List.getElem_mem hi')
      have hlast : ∃ s ∈ view.snapshots, event.timeNs ≤ s.timeNs :=
        ⟨_, htaken, hzero ▸ Nat.zero_le _⟩
      have hsome := hall.atLeastOne event hevent ⟨phase, hphase, by rw [hfirst]; exact Nat.zero_le _⟩
        hlast
      exact absurd ((h.exists_attributes_iff hlast).mp hsome) (Nat.not_lt.mpr (Nat.le_of_eq hzero))
  · intro hclear
    constructor
    · intro event hevent i j hi hj
      by_contra hne
      exact (hclear event hevent).1 (h.attributes_twice_iff.mp ⟨i, j, hne, hi, hj⟩)
    · rintro event hevent ⟨phase, hphase, hle⟩ hlast
      refine (h.exists_attributes_iff hlast).mpr (Nat.pos_of_ne_zero fun hzero => ?_)
      exact (hclear event hevent).2 hzero phase hphase (Nat.le_zero.mp (hzero ▸ hle))

/-- A record of the guest. -/
def guestRecord (mechanism kind : String) (timestampNs seq : Nat) : MemoryRecord where
  mechanism := text mechanism
  kind := text kind
  clockDomain := text "guest:monotonic"
  timestampNs := timestampNs
  phase := seq
  phaseSeq := seq

/-- Two phases with their snapshots, and one trace event. -/
def twoPhases (traceNs : Nat) : List MemoryRecord :=
  [guestRecord "framework" "capture_started" 1000 0, guestRecord "workload" "phase" 2000 1,
    guestRecord "ebpf" "memory_snapshot" 2010 1, guestRecord "workload" "phase" 3000 2,
    guestRecord "ebpf" "memory_snapshot" 3010 2, guestRecord "tracefs" "exit_mmap" traceNs 0]

def twoPhasesView (traceNs : Nat) : MemoryView where
  snapshots := [⟨1, 1010⟩, ⟨2, 2010⟩]
  phases := [⟨1, 1000⟩, ⟨2, 2000⟩]
  traceEvents := [⟨traceNs - 1000, text "exit_mmap"⟩]

theorem twoPhases_wellTimed (traceNs : Nat) :
    WellTimed (twoPhasesView traceNs) [⟨1, 1010⟩, ⟨2, 2010⟩] where
  increasing := by
    show List.Pairwise _ [_, _]
    simp
  distinct := by
    show List.Nodup [1, 2]
    decide
  perm := .refl _
  length := rfl
  taken := by
    intro i s hs
    match i with
    | 0 =>
      obtain rfl := Option.some.inj hs
      refine ⟨⟨1, 1000⟩, rfl, rfl, by decide, fun next hnext => ?_⟩
      obtain rfl := Option.some.inj hnext
      decide
    | 1 =>
      obtain rfl := Option.some.inj hs
      exact ⟨⟨2, 2000⟩, rfl, rfl, by decide, nofun⟩

/-- An event inside the second phase has this phase only. -/
theorem attributed_once_iff_inside : AttributedOnce (twoPhasesView 2500) := by
  have hload : MemoryView.load (twoPhases 2500) = .ok (twoPhasesView 2500) := by decide +kernel
  refine (attributed_once_iff hload (twoPhases_wellTimed 2500)).2.mpr fun event hevent => ?_
  obtain rfl := List.mem_singleton.mp hevent
  refine ⟨?_, nofun⟩
  rintro ⟨i, phase, next, s, hphase, hnext, hs, hseq, -, hend⟩
  cases i with
  | zero =>
    obtain rfl := Option.some.inj hphase
    rcases List.mem_pair.mp hs with rfl | rfl
    · exact absurd hend (by decide)
    · exact absurd hseq (by decide)
  | succ i => cases hnext

/-- **The defect**: an event between the record and the snapshot of the first phase is counted in
    both phases. -/
theorem attributed_twice :
    ¬ ∀ (records : List MemoryRecord) (view : MemoryView) (taken : List MemorySnapshot),
      MemoryView.load records = .ok view → WellTimed view taken → AttributedOnce view := by
  intro hall
  have hload : MemoryView.load (twoPhases 2005) = .ok (twoPhasesView 2005) := by decide +kernel
  have honce := hall _ _ _ hload (twoPhases_wellTimed 2005)
  have hfirst : Attributes (twoPhasesView 2005) 0 1005 :=
    ⟨⟨1, 1010⟩, List.mem_cons_self, by decide, by decide⟩
  have hsecond : Attributes (twoPhasesView 2005) 1 1005 :=
    ⟨⟨2, 2010⟩, List.mem_cons_of_mem _ List.mem_cons_self, by decide, by decide⟩
  exact absurd (honce.atMostOne _ (List.mem_singleton_self _) 0 1 hfirst hsecond) (by decide)

end LinuxMaxxing.App
