import LinuxMaxxing.Lib.Transition
import LinuxMaxxing.Lib.BpfHash

/-!
# Probes on `__enqueue_entity`

The entry and return probes of `cfs.bpf.c` on any number of CPUs. The entry probe
saves the arguments of a call in `active_args` under the `pid_tgid` of the current
task; the return probe looks that key up, emits a snapshot for what it finds and
deletes the entry.

- a call runs with the runqueue lock held and interrupts off, so on one CPU calls
  do not nest and the current task does not change during a call;
- an ordinary task is current on at most one CPU, but the idle task of every CPU
  has `pid_tgid` 0: calls of idle CPUs share one key.

`Paired` says when sharing the key does no harm.
-/

namespace LinuxMaxxing.Scheduler

open LinuxMaxxing.Lib

/-! ## The workload filter -/

/-- `struct saved_args` -/
structure SavedArgs where
  cfsRq : BitVec 64
  se : BitVec 64
  deriving DecidableEq, Repr

/-- `WORKLOAD_PREFIX`: "sched" -/
def workloadPrefix : List UInt8 := [0x73, 0x63, 0x68, 0x65, 0x64]

/-- `WORKLOAD_LAUNCHER`: "workload_fork" -/
def workloadLauncher : List UInt8 :=
  [0x77, 0x6f, 0x72, 0x6b, 0x6c, 0x6f, 0x61, 0x64, 0x5f, 0x66, 0x6f, 0x72, 0x6b]

/-- `workload_name`, on the bytes of the name before its terminator. -/
def workloadName (comm : List UInt8) : Bool :=
  workloadPrefix.isPrefixOf comm || workloadLauncher.isPrefixOf comm

/-- `workload_entity`: `comm` is what `bpf_probe_read_kernel_str` read, `none` when
    it failed; `mode` is the value of `capture_mode`. -/
def workloadEntity (mode : BitVec 32) (comm : Option (List UInt8)) : Bool :=
  match comm with
  | none => false
  | some name => if mode ≠ 0 then true else workloadName name

/-! ## CPUs and their calls -/

/-- `max_entries` of `active_args`. -/
def activeArgsEntries : Nat := 4096

/-- A call of `__enqueue_entity`, with what the filter said at its entry. -/
structure Call where
  args : SavedArgs
  passed : Bool
  deriving DecidableEq, Repr

/-- Where a CPU stands. -/
inductive CpuPc where
  | outside
  /-- the entry probe has run, the return probe has not -/
  | inside (c : Call)
  /-- the return probe has emitted for `found`; its delete is next -/
  | deleting (c : Call) (emitted : Option SavedArgs)
  deriving DecidableEq, Repr

/-- The call a CPU is in. -/
def CpuPc.call : CpuPc → Option Call
  | .outside => none
  | .inside c => some c
  | .deleting c _ => some c

/-- A finished call and the snapshot its return probe put into the ring buffer. -/
structure Finished where
  call : Call
  emitted : Option SavedArgs
  deriving DecidableEq, Repr

/-- The system. `current` is the `pid_tgid` of each CPU's current task. -/
structure Probes (Cpu : Type) where
  current : Cpu → BitVec 64
  pc : Cpu → CpuPc
  captureMode : BitVec 32
  activeArgs : BpfHash (BitVec 64) SavedArgs activeArgsEntries
  labDropped : Nat
  labFailures : Nat
  history : List Finished

/-- Who moves. -/
inductive ProbesAct (Cpu : Type) where
  /-- the CPU switches to another task -/
  | switch (cpu : Cpu) (task : BitVec 64)
  /-- userspace writes `capture_mode` -/
  | setMode (mode : BitVec 32)
  /-- `__enqueue_entity` is entered; `comm` is the name of the enqueued entity -/
  | entry (cpu : Cpu) (args : SavedArgs) (comm : Option (List UInt8))
  /-- the return probe looks its key up and emits; `room` is whether the ring
      buffer has room -/
  | ret (cpu : Cpu) (room : Bool)
  /-- the return probe deletes its key -/
  | delete (cpu : Cpu)

variable {Cpu : Type} [DecidableEq Cpu]

namespace Probes

/-- `kprobe_enqueue_entity` -/
def kprobeEnqueueEntity (s : Probes Cpu) (cpu : Cpu) (args : SavedArgs)
    (comm : Option (List UInt8)) : Probes Cpu :=
  if workloadEntity s.captureMode comm then
    let s' := { s with pc := Function.update s.pc cpu (.inside ⟨args, true⟩) }
    match s.activeArgs.update (s.current cpu) args with
    | some m => { s' with activeArgs := m }
    | none => { s' with labFailures := s.labFailures + 1 }
  else { s with pc := Function.update s.pc cpu (.inside ⟨args, false⟩) }

/-- `kretprobe_enqueue_entity` up to the delete. -/
def kretprobeEnqueueEntity (s : Probes Cpu) (cpu : Cpu) (c : Call) (room : Bool) :
    Probes Cpu :=
  match s.activeArgs.lookup (s.current cpu) with
  | none =>
    { s with
      pc := Function.update s.pc cpu .outside
      history := s.history ++ [⟨c, none⟩] }
  | some args =>
    { s with
      pc := Function.update s.pc cpu (.deleting c (if room then some args else none))
      labDropped := if room then s.labDropped else s.labDropped + 1 }

/-- One step. -/
def step [Fintype Cpu] (s : Probes Cpu) : ProbesAct Cpu → Option (Probes Cpu)
  | .switch cpu task =>
    -- an ordinary task is current on one CPU only
    if s.pc cpu = .outside ∧ (task ≠ 0 → ∀ c, c ≠ cpu → s.current c ≠ task) then
      some { s with current := Function.update s.current cpu task }
    else none
  | .setMode mode => some { s with captureMode := mode }
  | .entry cpu args comm =>
    if s.pc cpu = .outside then some (s.kprobeEnqueueEntity cpu args comm) else none
  | .ret cpu room =>
    match s.pc cpu with
    | .inside c => some (s.kretprobeEnqueueEntity cpu c room)
    | _ => none
  | .delete cpu =>
    match s.pc cpu with
    | .deleting c emitted =>
      some { s with
        pc := Function.update s.pc cpu .outside
        activeArgs := s.activeArgs.delete (s.current cpu)
        history := s.history ++ [⟨c, emitted⟩] }
    | _ => none

end Probes

/-- CPUs outside any call, distinct ordinary tasks, an empty map. -/
def probes (Cpu : Type) [DecidableEq Cpu] [Fintype Cpu] : System (Probes Cpu) (ProbesAct Cpu) where
  init s := (∀ c, s.pc c = .outside) ∧
    (∀ i j, i ≠ j → s.current i = s.current j → s.current i = 0) ∧
    s.activeArgs = .empty ∧ s.history = []
  step := Probes.step

/-! ## Pairing of entries and returns -/

/-- The return probe emitted the arguments of its own entry if that entry passed
    the filter, and nothing otherwise. -/
def Finished.Faithful (h : Finished) : Prop :=
  h.emitted = if h.call.passed then some h.call.args else none

/-- The condition on a step under which entries and returns pair up: an idle CPU
    enters a call next to a call of another idle CPU only if neither passes the
    filter, a saved entry finds room in the map, and its snapshot finds room in the
    ring buffer. -/
def Paired (s : Probes Cpu) : ProbesAct Cpu → Prop
  | .entry cpu _ comm =>
    (workloadEntity s.captureMode comm → s.activeArgs.HasRoom (s.current cpu)) ∧
    (s.current cpu = 0 → ∀ c, c ≠ cpu → s.current c = 0 →
      ∀ call ∈ (s.pc c).call, ¬ workloadEntity s.captureMode comm ∧ ¬ call.passed)
  | .ret cpu room => ∀ call ∈ (s.pc cpu).call, call.passed → room
  | _ => True

instance [Fintype Cpu] (s : Probes Cpu) : (a : ProbesAct Cpu) → Decidable (Paired s a)
  | .entry _ _ _ => inferInstanceAs (Decidable (_ ∧ _))
  | .ret cpu room =>
    inferInstanceAs (Decidable (∀ call ∈ (s.pc cpu).call, call.passed → room))
  | .switch _ _ | .setMode _ | .delete _ => isTrue trivial

/-- The invariant: the map holds exactly the arguments of the calls in flight that
    passed the filter, one CPU to a key. -/
structure PairInv (s : Probes Cpu) : Prop where
  tasks : ∀ i j, i ≠ j → s.current i = s.current j → s.current i = 0
  apart : ∀ i j ci cj, i ≠ j → s.current i = s.current j →
    (s.pc i).call = some ci → (s.pc j).call = some cj → ¬ ci.passed
  saved : ∀ i c, s.pc i = .inside c → c.passed →
    s.activeArgs.lookup (s.current i) = some c.args
  deleting : ∀ i c e, s.pc i = .deleting c e → c.passed ∧ e = some c.args
  owned : ∀ k args, s.activeArgs.lookup k = some args →
    ∃ i c, (s.pc i).call = some c ∧ c.passed ∧ s.current i = k
  history : ∀ h ∈ s.history, h.Faithful

theorem PairInv.init [Fintype Cpu] {s : Probes Cpu} (h : (probes Cpu).init s) : PairInv s := by
  obtain ⟨hout, htasks, hmap, hhist⟩ := h
  refine ⟨htasks, ?_, ?_, ?_, ?_, ?_⟩
  · intro i j ci cj _ _ hi
    simp [hout i, CpuPc.call] at hi
  · intro i c hi
    simp [hout i] at hi
  · intro i c e hi
    simp [hout i] at hi
  · intro k args hk
    simp [hmap] at hk
  · intro f hf
    simp [hhist] at hf

section Steps

variable {s s' : Probes Cpu} {cpu : Cpu}

theorem PairInv.switch (h : PairInv s) {task : BitVec 64} (hout : s.pc cpu = .outside)
    (hnew : task ≠ 0 → ∀ c, c ≠ cpu → s.current c ≠ task) :
    PairInv { s with current := Function.update s.current cpu task } := by
  -- no call of this CPU is in flight, so no call changes its key
  have hne : ∀ i c, (s.pc i).call = some c → i ≠ cpu := by
    rintro i c hi rfl
    simp [hout, CpuPc.call] at hi
  refine ⟨?_, ?_, ?_, h.deleting, ?_, h.history⟩
  · intro i j hij heq
    by_contra hzero
    by_cases hi : i = cpu
    · subst hi
      simp only [Function.update_self, Function.update_of_ne hij.symm] at heq hzero
      exact hnew hzero j hij.symm heq.symm
    · by_cases hj : j = cpu
      · subst hj
        simp only [Function.update_self, Function.update_of_ne hi] at heq hzero
        exact hnew (heq ▸ hzero) i hi heq
      · simp only [Function.update_of_ne hi, Function.update_of_ne hj] at heq hzero
        exact hzero (h.tasks i j hij heq)
  · intro i j ci cj hij heq hi hj
    simp only [Function.update_of_ne (hne i ci hi), Function.update_of_ne (hne j cj hj)] at heq
    exact h.apart i j ci cj hij heq hi hj
  · intro i c hi hp
    have hic := hne i c (by simp [show s.pc i = .inside c from hi, CpuPc.call])
    simp only [Function.update_of_ne hic]
    exact h.saved i c hi hp
  · intro k args hk
    obtain ⟨i, c, hi, hp, hcur⟩ := h.owned k args hk
    refine ⟨i, c, hi, hp, ?_⟩
    simp only [Function.update_of_ne (hne i c hi)]
    exact hcur

/-- The calls of the other CPUs after this CPU has moved. -/
theorem call_update_of_ne {pc : Cpu → CpuPc} {p : CpuPc} {i : Cpu} (h : i ≠ cpu) :
    (Function.update pc cpu p i).call = (pc i).call := by
  rw [Function.update_of_ne h]

/-- **One CPU moves**: what its new place, the new map and the new history must
    satisfy. The other CPUs keep their calls. -/
theorem PairInv.move (h : PairInv s) {p : CpuPc}
    {m : BpfHash (BitVec 64) SavedArgs activeArgsEntries} {dropped failures : Nat}
    {hist : List Finished}
    (hapart : ∀ c, p.call = some c → ∀ j cj, j ≠ cpu → s.current j = s.current cpu →
      (s.pc j).call = some cj → ¬ c.passed ∧ ¬ cj.passed)
    (hsaved : ∀ c, p = .inside c → c.passed → m.lookup (s.current cpu) = some c.args)
    (hdeleting : ∀ c e, p = .deleting c e → c.passed ∧ e = some c.args)
    (hothers : ∀ i c, i ≠ cpu → (s.pc i).call = some c → c.passed →
      m.lookup (s.current i) = s.activeArgs.lookup (s.current i))
    (howned : ∀ k a, m.lookup k = some a →
      (∃ c, p.call = some c ∧ c.passed ∧ s.current cpu = k) ∨
      ∃ i c, i ≠ cpu ∧ (s.pc i).call = some c ∧ c.passed ∧ s.current i = k)
    (hhist : ∀ x ∈ hist, x.Faithful) :
    PairInv { s with
      pc := Function.update s.pc cpu p
      activeArgs := m
      labDropped := dropped
      labFailures := failures
      history := hist } := by
  -- each part by which of its CPUs is the one that moves
  refine ⟨h.tasks, ?_, ?_, ?_, ?_, hhist⟩
  · intro i j ci cj hij heq hi hj
    by_cases hicpu : i = cpu
    · subst hicpu
      rw [call_update_of_ne hij.symm] at hj
      simp only [Function.update_self] at hi
      exact (hapart ci hi j cj hij.symm heq.symm hj).1
    · rw [call_update_of_ne hicpu] at hi
      by_cases hjcpu : j = cpu
      · subst hjcpu
        simp only [Function.update_self] at hj
        exact (hapart cj hj i ci hicpu heq hi).2
      · rw [call_update_of_ne hjcpu] at hj
        exact h.apart i j ci cj hij heq hi hj
  · intro i c hi hp
    by_cases hicpu : i = cpu
    · subst hicpu
      exact hsaved c (by simpa using hi) hp
    · simp only [Function.update_of_ne hicpu] at hi
      rw [show m.lookup (s.current i) = _ from hothers i c hicpu (by simp [hi, CpuPc.call]) hp]
      exact h.saved i c hi hp
  · intro i c e hi
    by_cases hicpu : i = cpu
    · subst hicpu
      exact hdeleting c e (by simpa using hi)
    · simp only [Function.update_of_ne hicpu] at hi
      exact h.deleting i c e hi
  · intro k a hk
    rcases howned k a hk with ⟨c, hc, hp, hcur⟩ | ⟨i, c, hi, hc, hp, hcur⟩
    · exact ⟨cpu, c, by simpa using hc, hp, hcur⟩
    · exact ⟨i, c, by rwa [call_update_of_ne hi], hp, hcur⟩

omit [DecidableEq Cpu] in
/-- The owner of a key, seen from a CPU that is in no traced call. -/
theorem PairInv.owner_ne (h : PairInv s) (hfree : ∀ c, (s.pc cpu).call = some c → ¬ c.passed)
    {k : BitVec 64} {a : SavedArgs} (hk : s.activeArgs.lookup k = some a) :
    ∃ i c, i ≠ cpu ∧ (s.pc i).call = some c ∧ c.passed ∧ s.current i = k := by
  obtain ⟨i, c, hi, hp, hcur⟩ := h.owned k a hk
  refine ⟨i, c, ?_, hi, hp, hcur⟩
  rintro rfl
  exact hfree c hi hp

/-- **Entry**: a call that is saved shares its key with no other call. -/
theorem PairInv.entry (h : PairInv s) {args : SavedArgs} {comm : Option (List UInt8)}
    (hout : s.pc cpu = .outside) (hok : Paired s (.entry cpu args comm)) :
    PairInv (s.kprobeEnqueueEntity cpu args comm) := by
  obtain ⟨hroom, hidle⟩ := hok
  -- a CPU with the same key is another idle CPU
  have hsame : ∀ j cj, j ≠ cpu → s.current j = s.current cpu → (s.pc j).call = some cj →
      ¬ workloadEntity s.captureMode comm ∧ ¬ cj.passed := by
    intro j cj hj heq hcall
    have hzero := h.tasks j cpu hj heq
    exact hidle (heq ▸ hzero) j hj hzero cj hcall
  have hfree : ∀ c, (s.pc cpu).call = some c → ¬ c.passed := by
    intro c hc
    simp [hout, CpuPc.call] at hc
  unfold Probes.kprobeEnqueueEntity
  split
  · next hpass =>
    obtain ⟨m, hm, hlook⟩ := BpfHash.update_of_hasRoom (hroom hpass) args
    simp only [hm]
    refine h.move ?_ ?_ nofun ?_ ?_ h.history
    · intro c hc j cj hj heq hcall
      exact absurd hpass (hsame j cj hj heq hcall).1
    · intro c hc _
      cases hc
      rw [hlook, if_pos rfl]
    · intro i c hi hcall hp
      rw [hlook, if_neg]
      intro heq
      exact (hsame i c hi heq hcall).2 hp
    · intro k a hk
      rw [hlook] at hk
      split at hk
      · next hkey => exact .inl ⟨_, rfl, rfl, hkey.symm⟩
      · exact .inr (h.owner_ne hfree hk)
  · refine h.move ?_ ?_ nofun ?_ ?_ h.history
    · intro c hc j cj hj heq hcall
      cases hc
      exact ⟨by simp, (hsame j cj hj heq hcall).2⟩
    · intro c hc hp
      cases hc
      cases hp
    · intro i c _ _ _
      rfl
    · intro k a hk
      exact .inr (h.owner_ne hfree hk)

theorem faithful_append {hist : List Finished} {x : Finished} (h : ∀ y ∈ hist, y.Faithful)
    (hx : x.Faithful) : ∀ y ∈ hist ++ [x], y.Faithful := by
  intro y hy
  rcases List.mem_append.mp hy with hy | hy
  · exact h y hy
  · rw [List.mem_singleton.mp hy]
    exact hx

/-- **Return**: what the return probe finds under its key is what its own entry
    saved there. -/
theorem PairInv.ret (h : PairInv s) {c : Call} {room : Bool} (hin : s.pc cpu = .inside c)
    (hok : c.passed → room) : PairInv (s.kretprobeEnqueueEntity cpu c room) := by
  have hcall : (s.pc cpu).call = some c := by simp [hin, CpuPc.call]
  unfold Probes.kretprobeEnqueueEntity
  split
  · next hnone =>
    have hnot : ¬ c.passed := by
      intro hp
      rw [h.saved cpu c hin hp] at hnone
      cases hnone
    refine h.move nofun nofun nofun (fun _ _ _ _ _ => rfl) ?_ (faithful_append h.history ?_)
    · intro k a hk
      refine .inr (h.owner_ne ?_ hk)
      intro d hd
      rw [hcall] at hd
      cases hd
      exact hnot
    · simp [Finished.Faithful, hnot]
  · next args hsome =>
    -- the entry was saved by a call with this key, and there is only this one
    obtain ⟨i, d, hi, hp, hcur⟩ := h.owned _ _ hsome
    have hself : i = cpu := by
      by_contra hne
      exact h.apart i cpu d c hne hcur hi hcall hp
    subst hself
    rw [hcall] at hi
    cases hi
    have hargs := h.saved i c hin hp
    rw [hsome] at hargs
    cases hargs
    refine h.move ?_ nofun ?_ (fun _ _ _ _ _ => rfl) ?_ h.history
    · intro e he j cj hj heq hcj
      exact absurd hp (h.apart i j c cj hj.symm heq.symm hcall hcj)
    · intro e em he
      cases he
      exact ⟨hp, by simp [hok hp]⟩
    · intro k a hk
      obtain ⟨j, e, hj, hpe, hkey⟩ := h.owned k a hk
      by_cases hji : j = i
      · subst hji
        rw [hcall] at hj
        cases hj
        exact .inl ⟨c, rfl, hp, hkey⟩
      · exact .inr ⟨j, e, hji, hj, hpe, hkey⟩

/-- **Delete**: no other call in flight is saved under the deleted key. -/
theorem PairInv.delete (h : PairInv s) {c : Call} {emitted : Option SavedArgs}
    (hin : s.pc cpu = .deleting c emitted) :
    PairInv { s with
      pc := Function.update s.pc cpu .outside
      activeArgs := s.activeArgs.delete (s.current cpu)
      history := s.history ++ [⟨c, emitted⟩] } := by
  obtain ⟨hp, hem⟩ := h.deleting cpu c emitted hin
  have hcall : (s.pc cpu).call = some c := by simp [hin, CpuPc.call]
  refine h.move nofun nofun nofun ?_ ?_ (faithful_append h.history ?_)
  · intro i d hi hd _
    rw [BpfHash.lookup_delete, if_neg]
    intro heq
    exact h.apart cpu i c d hi.symm heq.symm hcall hd hp
  · intro k a hk
    rw [BpfHash.lookup_delete] at hk
    split at hk
    · cases hk
    · next hkey =>
      obtain ⟨i, d, hi, hpd, hcur⟩ := h.owned k a hk
      refine .inr ⟨i, d, ?_, hi, hpd, hcur⟩
      rintro rfl
      exact hkey hcur.symm
  · simp [Finished.Faithful, hp, hem]

theorem PairInv.step [Fintype Cpu] {a : ProbesAct Cpu} (h : PairInv s) (hok : Paired s a)
    (hs : s.step a = some s') : PairInv s' := by
  cases a with
  | switch cpu task =>
    simp only [Probes.step] at hs
    split_ifs at hs with hguard
    cases hs
    exact h.switch hguard.1 hguard.2
  | setMode mode =>
    cases hs
    exact ⟨h.tasks, h.apart, h.saved, h.deleting, h.owned, h.history⟩
  | entry cpu args comm =>
    simp only [Probes.step] at hs
    split_ifs at hs with hout
    cases hs
    exact h.entry hout hok
  | ret cpu room =>
    simp only [Probes.step] at hs
    split at hs
    · next c hin =>
      cases hs
      exact h.ret hin (hok c (by simp [hin, CpuPc.call]))
    · cases hs
  | delete cpu =>
    simp only [Probes.step] at hs
    split at hs
    · next c emitted hin =>
      cases hs
      exact h.delete hin
    · cases hs

end Steps

/-- **Entries and returns pair up** in every run that meets the condition: each
    finished call emitted a snapshot for its own arguments if it passed the filter,
    and none otherwise. -/
theorem enqueue_snapshots_paired [Fintype Cpu] {s : Probes Cpu}
    (h : (probes Cpu).Reach Paired s) : ∀ x ∈ s.history, x.Faithful :=
  (h.invariant PairInv (fun _ => .init) (fun _ _ _ hinv hok hs => hinv.step hok hs)).history

/-! ## Concrete runs -/

/-- Two CPUs; CPU 0 is idle, CPU 1 runs `task`. -/
def twoCpus (task : BitVec 64) : Probes (Fin 2) where
  current := fun c => if c = 0 then 0 else task
  pc := fun _ => .outside
  captureMode := 0
  activeArgs := .empty
  labDropped := 0
  labFailures := 0
  history := []

theorem probes_init_twoCpus (task : BitVec 64) : (probes (Fin 2)).init (twoCpus task) := by
  refine ⟨fun _ => rfl, fun i j hij heq => ?_, rfl, rfl⟩
  by_cases hi : i = 0
  · simp [twoCpus, hi]
  · have hj : j = 0 := by omega
    simpa [twoCpus, hi, hj] using heq

/-- "sched001" -/
def workerComm : Option (List UInt8) :=
  some [0x73, 0x63, 0x68, 0x65, 0x64, 0x30, 0x30, 0x31]

def argsA : SavedArgs := ⟨0xa0, 0xa8⟩
def argsB : SavedArgs := ⟨0xb0, 0xb8⟩

/-- Both CPUs wake a worker; the two calls overlap. -/
def overlappingWakeups : List (ProbesAct (Fin 2)) :=
  [.entry 0 argsA workerComm, .entry 1 argsB workerComm, .ret 0 true, .delete 0, .ret 1 true]

theorem enqueue_snapshots_paired_overlap :
    ∃ s : Probes (Fin 2), (probes (Fin 2)).Reach Paired s ∧ s.history.length = 2 ∧
      ∀ x ∈ s.history, x.Faithful := by
  obtain ⟨s, hrun, hlen⟩ : ∃ s ∈ (probes (Fin 2)).exec (twoCpus 42)
      (overlappingWakeups ++ [.delete 1]), s.history.length = 2 := by
    decide +kernel
  have hok : (probes (Fin 2)).RunsOk Paired (twoCpus 42) (overlappingWakeups ++ [.delete 1]) := by
    decide +kernel
  have hreach : (probes (Fin 2)).Reach Paired s :=
    System.Reach.exec (.init (probes_init_twoCpus 42)) hok hrun
  exact ⟨s, hreach, hlen, enqueue_snapshots_paired hreach⟩

/-- Two idle CPUs share the key 0: the return on CPU 0 emits a snapshot for the
    arguments of CPU 1, and the call on CPU 1 never gets one. -/
theorem idle_cpus_mix_arguments :
    ∃ s : Probes (Fin 2), (probes (Fin 2)).Reachable s ∧
      s.history = [⟨⟨argsA, true⟩, some argsB⟩, ⟨⟨argsB, true⟩, none⟩] ∧
      ¬ ∀ x ∈ s.history, x.Faithful := by
  obtain ⟨s, hrun, hhist⟩ : ∃ s ∈ (probes (Fin 2)).exec (twoCpus 0) overlappingWakeups,
      s.history = [⟨⟨argsA, true⟩, some argsB⟩, ⟨⟨argsB, true⟩, none⟩] := by
    decide +kernel
  refine ⟨s, System.reachable_of_exec (probes_init_twoCpus 0) hrun, hhist, fun hall => ?_⟩
  have hfirst := hall ⟨⟨argsA, true⟩, some argsB⟩ (by simp [hhist])
  simp only [Finished.Faithful, if_true, Option.some.injEq] at hfirst
  exact absurd hfirst (by decide)

end LinuxMaxxing.Scheduler
