import LinuxMaxxing.Io.DmaEcho
import LinuxMaxxing.Io.Lifetime

/-!
# The DMA Path Is Quiescent Between Writes

Between two writes, and when `qedu_dma_exit` frees the coherent buffer, no transfer should
touch that buffer and no DMA work item should be queued or running. Three things break this:
an abort, for which `qedu_dma_echo_job` resets the stage and cancels the work items but leaves a
submitted transfer running (`abort_leaves_transfer_running`), the removal of the driver during a
DMA job, and a smoke test that times out.

`QuiesceSafe` names the steps of a write that keep the promise: a job enters its first stage while
no DMA interrupt is latched or being handled, an abort resets the stage while no transfer is
running or about to be started and the handler is not about to queue work, and a completed
wait is left after the finish worker has returned. `LifeSafe` adds those of the probe and the
removal. Runs of such steps are quiescent whenever the lock is free, but for the smoke test itself
(`dma_quiescent_between_writes`).
-/

namespace LinuxMaxxing.Io

open LinuxMaxxing.Lib

/-! ## The condition on the steps -/

/-- No transfer of the coherent buffer is in flight and no DMA work is queued or running. -/
def Quiescent (d : QeduDev) : Prop :=
  ¬ d.edu.InFlight d.dmaAddr ∧ d.pending = [] ∧ d.worker = .idle

/-- The handler has decided which work item to queue. -/
def HandlerPc.queueing : HandlerPc → Bool
  | .queueWork _ => true
  | _ => false

/-- Nothing that resetting the stage cannot stop: no transfer runs, the advance worker is
    not past its `cmpxchg`, and the handler is not about to queue work. -/
def AbortClean (d : QeduDev) : Prop :=
  d.edu.running = false ∧ d.worker.advanceTail = false ∧ d.handler.queueing = false

/-- The DMA job is about to reset the stage after a signal or a timeout. -/
def WritePc.aborting : WritePc → Bool
  | .echo (.abort _) => true
  | _ => false

/-- A step leaves no DMA activity behind for the time after its write. -/
def QuiesceSafe (d : QeduDev) (a : Act) : Prop :=
  ∀ w ∈ d.holder,
    (a = .write → w.pc = .echo .submitStage →
      d.edu.irqDma = false ∧ d.handler.noDma = true) ∧
    (a = .write → w.pc.aborting = true → AbortClean d) ∧
    (a = .waitDone → w.pc = .echo .wait → d.worker = .idle)

/-- The DMA job has set its first stage and has not returned. -/
def WritePc.inJob : WritePc → Bool
  | .echo .clearEvent | .echo .setLen | .echo .submitStage => false
  | .echo _ => true
  | _ => false

/-- The smoke test does not time out, the driver is removed while no DMA job is under way, and no
    job sets its first stage after that. -/
def LifeSafe (l : Lifetime) : LifeAct → Prop
  | .probe => True
  | .probeFails => l.probe ≠ .pollDma
  | .drive a => QuiesceSafe l.dev a ∧ ∀ w ∈ l.dev.holder,
    (a = .write → w.pc = .echo .submitStage → l.dev.remove = .bound) ∧
    (a = .remove → l.dev.remove = .bound → w.pc.inJob = false)

instance (d : QeduDev) : Decidable (AbortClean d) := inferInstanceAs (Decidable (_ ∧ _))
instance (d : QeduDev) (a : Act) : Decidable (QuiesceSafe d a) :=
  inferInstanceAs (Decidable (∀ w ∈ d.holder, _))
instance : ∀ (l : Lifetime) (a : LifeAct), Decidable (LifeSafe l a)
  | _, .probe => inferInstanceAs (Decidable True)
  | l, .probeFails => inferInstanceAs (Decidable (l.probe ≠ .pollDma))
  | l, .drive a => inferInstanceAs (Decidable (QuiesceSafe l.dev a ∧ ∀ w ∈ l.dev.holder, _))

/-! ## The invariant -/

/-- At rest, with nothing running, queued or about to be queued. -/
structure Settled (d : QeduDev) : Prop where
  stage : d.dmaStage = .idle
  stopped : d.edu.running = false
  pending : d.pending = []
  worker : d.worker = .idle
  handler : d.handler.queueing = false

/-- At rest, but for a transfer that nobody waits for. -/
structure Drained (d : QeduDev) : Prop where
  stage : d.dmaStage = .idle
  pending : d.pending = []
  worker : d.worker = .idle
  handler : d.handler.queueing = false

theorem Settled.drained {d : QeduDev} (h : Settled d) : Drained d :=
  ⟨h.stage, h.pending, h.worker, h.handler⟩

/-- After a clean reset of the stage: only work items that will give up are left. -/
structure Draining (d : QeduDev) : Prop where
  stage : d.dmaStage = .idle
  stopped : d.edu.running = false
  noTail : d.worker.advanceTail = false
  handler : d.handler.queueing = false

/-- The advance worker has been cancelled. -/
structure AdvanceCancelled (d : QeduDev) : Prop extends Draining d where
  notQueued : .advance ∉ d.pending
  notRunning : d.worker.work ≠ some .advance

/-- What holds while a writer is at `pc`; during the job itself its phases say the rest. -/
def SettledAt (d : QeduDev) : WritePc → Prop
  | .echo .writeSrc | .echo .writeDst | .echo .writeCnt | .echo .writeCmd | .echo .wait
  | .echo (.abort _) => True
  | .echo (.cancelAdvance _) => Draining d
  | .echo (.cancelFinish _) => AdvanceCancelled d
  | _ => Settled d

structure QuiesceInv (d : QeduDev) : Prop extends EchoInv d where
  settledFree : d.holder = none → Settled d
  settledHeld : ∀ w, d.holder = some w → SettledAt d w.pc

section Steps

variable {d d' : QeduDev} {a : Act}

/-! ## Moves of the other parties -/

/-- In the idle stage nothing new is queued. -/
theorem background_no_new_work (hstage : d.dmaStage = .idle) (hh : d.handler.queueing = false)
    (ha : a.background = true) (hs : step d a = some d') :
    d'.handler.queueing = false ∧ ∀ w ∈ d'.pending, w ∈ d.pending := by
  cases background_cases ha hs with
  | irqTaken _ => exact ⟨rfl, fun _ => id⟩
  | ack factorial dma _ => exact ⟨by cases factorial <;> cases dma <;> rfl, fun _ => id⟩
  | publishFactorial dma _ => exact ⟨by cases dma <;> rfl, fun _ => id⟩
  | stageRead w _ hread => cases w <;> simp [hstage, Work.stage] at hread
  | stageDropped _ _ => exact ⟨rfl, fun _ => id⟩
  | queueWork w pc => simp [pc, HandlerPc.queueing] at hh
  | workStart w rest _ hqueued =>
    exact ⟨hh, fun _ hmem => hqueued ▸ List.mem_cons_of_mem w hmem⟩
  | work hrun =>
    have e := qeduDmaWork_frame hrun
    exact ⟨e.handler ▸ hh, fun _ hmem => e.pending ▸ hmem⟩
  | _ => exact ⟨hh, fun _ => id⟩

/-- In the idle stage and without a worker past its `cmpxchg`, no transfer is started. -/
theorem background_no_new_transfer (hstage : d.dmaStage = .idle)
    (htail : d.worker.advanceTail = false) (hstop : d.edu.running = false)
    (ha : a.background = true) (hs : step d a = some d') : d'.edu.running = false := by
  cases background_effect ha hs with
  | none e _ => exact (congrArg DmaCmd.start e.cmd).trans hstop
  | start e _ _ _ _ => exact (congrArg DmaCmd.start e.cmd).trans hstop
  | work hrun => obtain rfl | ⟨-, rfl⟩ := qeduDmaWork_idle hstage htail hrun <;> exact hstop
  | complete hrunning _ => simp [hrunning] at hstop

theorem Draining.background_step (h : Draining d) (ha : a.background = true)
    (hs : step d a = some d') : Draining d' := by
  obtain ⟨hstage, htail⟩ := background_stage_idle h.stage ha hs
  exact ⟨hstage, background_no_new_transfer h.stage h.noTail h.stopped ha hs, htail h.noTail,
    (background_no_new_work h.stage h.handler ha hs).1⟩

theorem AdvanceCancelled.background_step (h : AdvanceCancelled d) (ha : a.background = true)
    (hs : step d a = some d') : AdvanceCancelled d' := by
  have hsub := (background_no_new_work h.stage h.handler ha hs).2
  refine ⟨h.toDraining.background_step ha hs, fun hm => h.notQueued (hsub _ hm), ?_⟩
  cases background_effect ha hs with
  | none _ hworker => exact hworker ▸ h.notRunning
  | start _ w hqueued _ hworker =>
    rw [hworker]
    cases w with
    | advance => exact absurd hqueued h.notQueued
    | finish => simp [Work.start, WorkerPc.work]
  | work hrun =>
    obtain rfl | ⟨-, rfl⟩ := qeduDmaWork_idle h.stage h.noTail hrun <;> simp [WorkerPc.work]
  | complete _ hrun => exact hrun ▸ h.notRunning

theorem Drained.background_step (h : Drained d) (ha : a.background = true)
    (hs : step d a = some d') : Drained d' := by
  obtain ⟨hhandler, hsub⟩ := background_no_new_work h.stage h.handler ha hs
  refine ⟨(background_stage_idle h.stage ha hs).1, ?_, ?_, hhandler⟩
  · exact List.eq_nil_iff_forall_not_mem.mpr fun w hw => by simpa [h.pending] using hsub w hw
  · cases background_effect ha hs with
    | none _ hworker => exact hworker.trans h.worker
    | start _ w hqueued _ _ => simp [h.pending] at hqueued
    | work hrun => simp [qeduDmaWork, h.worker] at hrun
    | complete _ hrun => exact hrun ▸ h.worker

theorem Settled.background_step (h : Settled d) (ha : a.background = true)
    (hs : step d a = some d') : Settled d' := by
  obtain ⟨hstage, hpending, hworker, hhandler⟩ := h.drained.background_step ha hs
  have htail : d.worker.advanceTail = false := by simp [h.worker, WorkerPc.advanceTail]
  exact ⟨hstage, background_no_new_transfer h.stage htail h.stopped ha hs, hpending, hworker,
    hhandler⟩

theorem SettledAt.background_step {pc : WritePc} (h : SettledAt d pc) (ha : a.background = true)
    (hs : step d a = some d') : SettledAt d' pc := by
  cases pc with
  | echo pc =>
    cases pc with
    | clearEvent => exact Settled.background_step h ha hs
    | setLen => exact Settled.background_step h ha hs
    | submitStage => exact Settled.background_step h ha hs
    | cancelAdvance e => exact Draining.background_step h ha hs
    | cancelFinish e => exact AdvanceCancelled.background_step h ha hs
    | _ => trivial
  | _ => exact Settled.background_step h ha hs

/-! ## Statements of the writer -/

/-- The lock is free and settled, or its holder meets `SettledAt`. -/
def SettledOn (d : QeduDev) : Prop :=
  (d.holder = none → Settled d) ∧ ∀ w, d.holder = some w → SettledAt d w.pc

theorem settledOn_at {w : Write} (pc : WritePc) (h : SettledAt (d.at w pc) pc) :
    SettledOn (d.at w pc) := by
  refine ⟨fun hfree => by simp [QeduDev.at] at hfree, fun w' hw' => ?_⟩
  cases hw'
  exact h

/-- Statements that touch neither the engine nor the stage machine keep a settled state. -/
theorem Settled.of_same {e : QeduDev} (h : Settled d) (hstage : e.dmaStage = d.dmaStage)
    (hcmd : e.edu.dmaCmd = d.edu.dmaCmd) (hpending : e.pending = d.pending)
    (hworker : e.worker = d.worker) (hhandler : e.handler = d.handler) : Settled e :=
  ⟨hstage.trans h.stage, (congrArg DmaCmd.start hcmd).trans h.stopped, hpending.trans h.pending,
    hworker.trans h.worker, hhandler ▸ h.handler⟩

/-- After both cancellations nothing is left of the job. -/
theorem AdvanceCancelled.settled (h : AdvanceCancelled d) (hwork : d.worker.work ≠ some .finish) :
    Settled { d with pending := d.pending.filter (· ≠ .finish) } := by
  obtain ⟨⟨h1, h2, h3, h4⟩, h5, h6⟩ := h
  refine ⟨h1, h2, ?_, ?_, h4⟩
  · refine List.filter_eq_nil_iff.mpr fun w hw => ?_
    cases w with
    | advance => exact absurd hw h5
    | finish => simp
  · revert h6 hwork
    cases d.worker <;> simp [WorkerPc.work]

theorem qeduDmaEchoJob_settled {w : Write} {pc : EchoPc} (h : SettledAt d (.echo pc))
    (hclean : (WritePc.echo pc).aborting = true → AbortClean d)
    (hs : qeduDmaEchoJob d w pc = some d') : SettledOn d' := by
  cases pc with
  | clearEvent =>
    cases hs
    exact settledOn_at (.echo .setLen) (Settled.of_same h rfl rfl rfl rfl rfl)
  | setLen =>
    cases hs
    exact settledOn_at (.echo .submitStage) (Settled.of_same h rfl rfl rfl rfl rfl)
  | submitStage =>
    cases hs
    exact settledOn_at (.echo .writeSrc) trivial
  | writeSrc =>
    cases hs
    exact settledOn_at (.echo .writeDst) trivial
  | writeDst =>
    cases hs
    exact settledOn_at (.echo .writeCnt) trivial
  | writeCnt =>
    cases hs
    exact settledOn_at (.echo .writeCmd) trivial
  | writeCmd =>
    cases hs
    exact settledOn_at (.echo .wait) trivial
  | wait => cases hs
  | abort e =>
    cases hs
    obtain ⟨h1, h2, h3⟩ := hclean rfl
    exact settledOn_at (.echo (.cancelAdvance e)) ⟨rfl, h1, h2, h3⟩
  | cancelAdvance e =>
    obtain ⟨d₁, hcancel, rfl⟩ := Option.map_eq_some_iff.mp hs
    obtain ⟨hwork, rfl⟩ := QeduDev.cancelWorkSync_eq_some hcancel
    obtain ⟨h1, h2, h3, h4⟩ := h
    exact settledOn_at (.echo (.cancelFinish e)) ⟨⟨h1, h2, h3, h4⟩, by simp [QeduDev.at], hwork⟩
  | cancelFinish e =>
    obtain ⟨d₁, hcancel, rfl⟩ := Option.map_eq_some_iff.mp hs
    obtain ⟨hwork, rfl⟩ := QeduDev.cancelWorkSync_eq_some hcancel
    exact settledOn_at (.outUnlock (.error e) .dma)
      ((AdvanceCancelled.settled h hwork).of_same rfl rfl rfl rfl rfl)

theorem qeduWrite_settled {w : Write} (h : SettledAt d w.pc)
    (hclean : w.pc.aborting = true → AbortClean d) (hs : qeduWrite d w = some d') :
    SettledOn d' := by
  obtain ⟨bytes, pc⟩ := w
  cases pc with
  | locked =>
    cases hs
    exact settledOn_at .copyFromUser (Settled.of_same h rfl rfl rfl rfl rfl)
  | copyFromUser =>
    cases hs
    exact settledOn_at .terminate (Settled.of_same h rfl rfl rfl rfl rfl)
  | terminate =>
    cases hs
    exact settledOn_at .parse (Settled.of_same h rfl rfl rfl rfl rfl)
  | parse =>
    simp only [qeduWrite] at hs
    split at hs
    · rename_i input _
      cases hs
      exact settledOn_at (.factorial input .clearEvent) (Settled.of_same h rfl rfl rfl rfl rfl)
    · cases hs
      exact settledOn_at (.echo .clearEvent) (Settled.of_same h rfl rfl rfl rfl rfl)
  | factorial input pc =>
    -- the factorial has its own registers
    have hcmd (v : Nat) : (d.edu.writeFactorial v).dmaCmd = d.edu.dmaCmd := by
      unfold Edu.writeFactorial
      split <;> rfl
    cases pc with
    | clearEvent =>
      cases hs
      exact settledOn_at (.factorial input .enableIrq) (Settled.of_same h rfl rfl rfl rfl rfl)
    | enableIrq =>
      cases hs
      exact settledOn_at (.factorial input .writeInput) (Settled.of_same h rfl rfl rfl rfl rfl)
    | writeInput =>
      cases hs
      exact settledOn_at (.factorial input .wait)
        (Settled.of_same h rfl (hcmd input) rfl rfl rfl)
    | wait => cases hs
    | readResult =>
      cases hs
      exact settledOn_at (.format input d.edu.fact) (Settled.of_same h rfl rfl rfl rfl rfl)
  | format input result =>
    cases hs
    exact settledOn_at (.outUnlock (.count bytes.length) .factorial)
      (Settled.of_same h rfl rfl rfl rfl rfl)
  | echo pc => exact qeduDmaEchoJob_settled h hclean hs
  | echoed =>
    cases hs
    exact settledOn_at (.outUnlock (.count bytes.length) .dma)
      (Settled.of_same h rfl rfl rfl rfl rfl)
  | outUnlock ret engine =>
    cases hs
    exact ⟨fun _ => Settled.of_same h rfl rfl rfl rfl rfl, fun w hw => by cases hw⟩

theorem copyFault_settled {w : Write} {n : Nat} (h : SettledAt d w.pc)
    (hs : copyFault d w n = some d') : SettledOn d' := by
  simp only [copyFault] at hs
  split at hs
  · rename_i hpc
    cases hs
    rw [hpc.1] at h
    exact settledOn_at (.outUnlock (.error .efault) .none) (Settled.of_same h rfl rfl rfl rfl rfl)
  · cases hs

theorem waitDone_settled {w : Write} (h : SettledAt d w.pc)
    (hwait : w.pc = .echo .wait → InWait w.bytes d)
    (hidle : w.pc = .echo .wait → d.worker = .idle) (hs : waitDone d w = some d') :
    SettledOn d' := by
  simp only [waitDone] at hs
  split at hs
  · rename_i hpc
    split at hs
    · rename_i hevent
      cases hs
      obtain ⟨h1, ⟨⟨-, h2, h3⟩, -⟩, h4, -, -⟩ := (hwait hpc).published_of_event hevent
      refine settledOn_at .echoed ⟨h1, h4, h3, hidle hpc, ?_⟩
      revert h2
      cases hh : d.handler <;> simp [QeduDev.at, hh, HandlerPc.noDma, HandlerPc.queueing]
    · cases hs
  · rename_i input hpc
    split at hs
    · cases hs
      rw [hpc] at h
      exact settledOn_at (.factorial input .readResult) (Settled.of_same h rfl rfl rfl rfl rfl)
    · cases hs
  · cases hs

theorem waitAbort_settled {w : Write} {e : Errno} (h : SettledAt d w.pc)
    (hs : waitAbort d w e = some d') : SettledOn d' := by
  simp only [waitAbort] at hs
  split at hs
  · cases hs
    exact settledOn_at (.echo (.abort e)) trivial
  · rename_i input hpc
    cases hs
    rw [hpc] at h
    exact settledOn_at (.outUnlock (.error e) .factorial) (Settled.of_same h rfl rfl rfl rfl rfl)
  · cases hs

/-! ## Runs -/

/-- A settled state makes the weaker condition of the echo theorem hold. -/
theorem echoSafe_of_quiesceSafe (h : QuiesceInv d) (hok : QuiesceSafe d a) : EchoSafe d a := by
  intro ha w hw
  obtain ⟨hsubmit, -, -⟩ := hok w hw
  refine ⟨fun hpc => ?_, fun hpc => ?_⟩
  · have hsettled := h.settledHeld w hw
    rw [hpc] at hsettled
    exact .inl (Settled.stopped hsettled)
  · have hsettled := h.settledHeld w hw
    rw [hpc] at hsettled
    obtain ⟨-, h1, h2, h3, -⟩ := hsettled
    obtain ⟨hirq, hhandler⟩ := hsubmit ha hpc
    exact ⟨h1, hirq, hhandler, h2, by simp [h3, WorkerPc.resting]⟩

theorem quiesceInv_step (h : QuiesceInv d) (hok : QuiesceSafe d a) (hne : a ≠ .remove)
    (hs : step d a = some d') : QuiesceInv d' := by
  have hecho := echoInv_step h.toEchoInv (echoSafe_of_quiesceSafe h hok) hs
  suffices hset : SettledOn d' from ⟨hecho, hset.1, hset.2⟩
  by_cases ha : a.background = true
  · -- the writer stays at its statement, and what holds there is kept
    have e := background_sameWriter ha hs
    refine ⟨fun hfree => ?_, fun w hw => ?_⟩
    · exact (h.settledFree (e.holder ▸ hfree)).background_step ha hs
    · exact (h.settledHeld w (e.holder ▸ hw)).background_step ha hs
  · cases a with
    | lock i =>
      simp only [step] at hs
      split at hs
      · rename_i bytes hfree _
        cases hs
        refine ⟨fun hnone => by simp [QeduDev.lockBy] at hnone, fun w hw => ?_⟩
        cases hw
        exact (h.settledFree hfree).of_same rfl rfl rfl rfl rfl
      · cases hs
    | write =>
      obtain ⟨w, hw, hs⟩ := Option.bind_eq_some_iff.mp hs
      exact qeduWrite_settled (h.settledHeld w hw) ((hok w hw).2.1 rfl) hs
    | copyFault n =>
      obtain ⟨w, hw, hs⟩ := Option.bind_eq_some_iff.mp hs
      exact copyFault_settled (h.settledHeld w hw) hs
    | waitDone =>
      obtain ⟨w, hw, hs⟩ := Option.bind_eq_some_iff.mp hs
      refine waitDone_settled (h.settledHeld w hw) (fun hpc => ?_) ((hok w hw).2.2 rfl) hs
      have hpcInv := h.held w hw
      rw [hpc] at hpcInv
      exact hpcInv
    | waitAbort e =>
      obtain ⟨w, hw, hs⟩ := Option.bind_eq_some_iff.mp hs
      exact waitAbort_settled (h.settledHeld w hw) hs
    | remove => exact absurd rfl hne
    | _ => simp [Act.background] at ha

/-! ## The probe and the removal -/

/-- Everything but the removal leaves the driver bound, or not. -/
theorem step_remove (hne : a ≠ .remove) (hs : step d a = some d') : d'.remove = d.remove := by
  by_cases ha : a.background = true
  · cases background_cases ha hs with
    | work hrun => exact (qeduDmaWork_frame hrun).remove
    | _ => rfl
  · cases a with
    | lock i =>
      simp only [step] at hs
      split at hs <;> cases hs
      rfl
    | write =>
      obtain ⟨w, -, hs⟩ := Option.bind_eq_some_iff.mp hs
      exact (qeduWrite_lifecycle hs).1
    | copyFault n =>
      obtain ⟨w, -, hs⟩ := Option.bind_eq_some_iff.mp hs
      simp only [copyFault] at hs
      split at hs <;> cases hs
      rfl
    | waitDone =>
      obtain ⟨w, -, hs⟩ := Option.bind_eq_some_iff.mp hs
      simp only [waitDone] at hs
      repeat' split at hs
      all_goals cases hs
      all_goals rfl
    | waitAbort e =>
      obtain ⟨w, -, hs⟩ := Option.bind_eq_some_iff.mp hs
      simp only [waitAbort] at hs
      split at hs <;> cases hs <;> rfl
    | remove => exact absurd rfl hne
    | _ => simp [Act.background] at ha

/-- No write has been made: `/dev/qedu` does not exist. -/
structure Unwritten (d : QeduDev) : Prop where
  holder : d.holder = none
  waiting : d.waiting = []

/-- The driver is probed. -/
structure Fresh (d : QeduDev) : Prop extends Unwritten d where
  bound : d.remove = .bound
  wq : d.dmaWq = true

theorem Unwritten.of_same (h : Unwritten d) (hholder : d'.holder = d.holder)
    (hwaiting : d'.waiting = d.waiting) : Unwritten d' :=
  ⟨hholder.trans h.holder, hwaiting.trans h.waiting⟩

theorem Fresh.of_same (h : Fresh d) (hholder : d'.holder = d.holder)
    (hwaiting : d'.waiting = d.waiting) (hremove : d'.remove = d.remove)
    (hwq : d'.dmaWq = d.dmaWq) : Fresh d' :=
  ⟨h.toUnwritten.of_same hholder hwaiting, hremove.trans h.bound, hwq.trans h.wq⟩

/-- Without writes only the other parties move, and no write appears. -/
theorem Unwritten.step (h : Unwritten d) (henter : ∀ bytes, a ≠ .enter bytes) (hne : a ≠ .remove)
    (hs : step d a = some d') :
    a.background = true ∧ d'.holder = d.holder ∧ d'.waiting = d.waiting ∧ d'.dmaWq = d.dmaWq := by
  have ha : a.background = true := by
    cases a with
    | lock i => simp [Io.step, h.waiting] at hs
    | write => simp [Io.step, h.holder] at hs
    | copyFault n => simp [Io.step, h.holder] at hs
    | waitDone => simp [Io.step, h.holder] at hs
    | waitAbort e => simp [Io.step, h.holder] at hs
    | remove => exact absurd rfl hne
    | _ => rfl
  refine ⟨ha, (background_sameWriter ha hs).holder, ?_, ?_⟩
  · cases background_cases ha hs with
    | entered bytes => exact absurd rfl (henter bytes)
    | lockInterrupted i => simp [h.waiting]
    | work hrun => exact (qeduDmaWork_frame hrun).waiting
    | _ => rfl
  · cases background_cases ha hs with
    | work hrun => exact (qeduDmaWork_frame hrun).wq
    | _ => rfl

/-- A write outside its DMA job needs nothing but a settled device. -/
theorem Settled.at_of_outside {pc : WritePc} (h : Settled d) (hpc : pc.inJob = false) :
    SettledAt d pc := by
  cases pc with
  | echo pc =>
    cases pc with
    | clearEvent => exact h
    | setLen => exact h
    | submitStage => exact h
    | _ => simp [WritePc.inJob] at hpc
  | _ => exact h

/-- The write that holds the lock, if any, is outside its DMA job. -/
def Outside (d : QeduDev) : Prop := ∀ w, d.holder = some w → w.pc.inJob = false

theorem Outside.at {w : Write} {pc : WritePc} (hpc : pc.inJob = false) : Outside (d.at w pc) := by
  intro w' hw'
  cases hw'
  exact hpc

theorem SettledOn.settled (h : SettledOn d) (hout : Outside d) : Settled d := by
  cases hholder : d.holder with
  | none => exact h.1 hholder
  | some w =>
    have hset := h.2 w hholder
    have hpc := hout w hholder
    revert hset hpc
    cases w.pc with
    | echo pc => cases pc <;> simp [WritePc.inJob, SettledAt]
    | _ => exact fun hset _ => hset

theorem qeduWrite_outside {w : Write} (hpc : w.pc.inJob = false) (hne : w.pc ≠ .echo .submitStage)
    (hs : qeduWrite d w = some d') : Outside d' := by
  obtain ⟨bytes, pc⟩ := w
  cases pc with
  | parse =>
    simp only [qeduWrite] at hs
    split at hs <;> cases hs <;> exact .at rfl
  | factorial input pc =>
    cases pc with
    | wait => cases hs
    | _ =>
      cases hs
      exact .at rfl
  | echo pc =>
    cases pc with
    | clearEvent =>
      cases hs
      exact .at rfl
    | setLen =>
      cases hs
      exact .at rfl
    | submitStage => exact absurd rfl hne
    | _ => simp [WritePc.inJob] at hpc
  | outUnlock ret engine =>
    cases hs
    exact fun w hw => by cases hw
  | _ =>
    cases hs
    exact .at rfl

/-- **While the driver is being removed** the writes of open files go on, but no DMA job begins. -/
theorem removing_step (h : Settled d) (hout : Outside d) (hne : a ≠ .remove)
    (hok : ∀ w, d.holder = some w → a = .write → w.pc ≠ .echo .submitStage)
    (hs : step d a = some d') : Settled d' ∧ Outside d' := by
  have hheld : ∀ w, d.holder = some w → SettledAt d w.pc := fun w hw => h.at_of_outside (hout w hw)
  by_cases ha : a.background = true
  · -- the other parties leave the writer where it is
    refine ⟨h.background_step ha hs, fun w hw => hout w ?_⟩
    rw [← (background_sameWriter ha hs).holder, hw]
  -- a statement of the writer, which is outside its DMA job before and after it
  suffices hboth : SettledOn d' ∧ Outside d' from ⟨hboth.1.settled hboth.2, hboth.2⟩
  cases a with
  | lock i =>
    simp only [step] at hs
    split at hs
    · cases hs
      refine ⟨⟨fun hnone => by simp [QeduDev.lockBy] at hnone, fun w hw => ?_⟩, fun w hw => ?_⟩
      · cases hw
        exact h.of_same rfl rfl rfl rfl rfl
      · cases hw
        rfl
    · cases hs
  | write =>
    obtain ⟨w, hw, hs⟩ := Option.bind_eq_some_iff.mp hs
    refine ⟨qeduWrite_settled (hheld w hw) (fun habort => ?_) hs,
      qeduWrite_outside (hout w hw) (hok w hw rfl) hs⟩
    have hpc := hout w hw
    revert habort hpc
    cases w.pc with
    | echo pc => cases pc <;> simp [WritePc.inJob, WritePc.aborting]
    | _ => simp [WritePc.aborting]
  | copyFault n =>
    obtain ⟨w, hw, hs⟩ := Option.bind_eq_some_iff.mp hs
    refine ⟨copyFault_settled (hheld w hw) hs, ?_⟩
    simp only [copyFault] at hs
    split at hs <;> cases hs
    exact .at rfl
  | waitDone =>
    obtain ⟨w, hw, hs⟩ := Option.bind_eq_some_iff.mp hs
    have hwait : w.pc ≠ .echo .wait := fun hpc => by simpa [hpc, WritePc.inJob] using hout w hw
    refine ⟨waitDone_settled (hheld w hw) (fun hpc => absurd hpc hwait)
      (fun hpc => absurd hpc hwait) hs, ?_⟩
    simp only [waitDone] at hs
    split at hs
    · next hpc => exact absurd hpc hwait
    · split at hs <;> cases hs
      exact .at rfl
    · cases hs
  | waitAbort e =>
    obtain ⟨w, hw, hs⟩ := Option.bind_eq_some_iff.mp hs
    have hwait : w.pc ≠ .echo .wait := fun hpc => by simpa [hpc, WritePc.inJob] using hout w hw
    refine ⟨waitAbort_settled (hheld w hw) hs, ?_⟩
    simp only [waitAbort] at hs
    split at hs
    · next hpc => exact absurd hpc hwait
    · cases hs
      exact .at rfl
    · cases hs
  | remove => exact absurd rfl hne
  | _ => simp [Act.background] at ha

/-- Without a DMA job the removal leaves the device settled. -/
theorem qeduRemove_settled (h : Settled d) (hs : qeduRemove d = some d') : Settled d' := by
  have e := qeduRemove_frame hs
  have hpending : d'.pending = [] :=
    List.eq_nil_iff_forall_not_mem.mpr fun w hw => by simpa [h.pending] using e.pending w hw
  exact ⟨e.stage.elim (·.trans h.stage) id, e.edu ▸ h.stopped, hpending,
    e.worker.trans h.worker, e.handler ▸ h.handler⟩

theorem qeduTeardown_settled (h : Settled d) (hs : qeduTeardown d = some d') :
    Settled d' ∧ d'.holder = d.holder ∧ d'.waiting = d.waiting ∧ d'.remove ≠ .bound := by
  by_cases hb : d.remove = .bound
  · -- `free_irq`, which waits for the handler
    simp only [qeduTeardown, hb] at hs
    split at hs <;> cases hs
    exact ⟨h.of_same rfl rfl rfl rfl rfl, rfl, rfl, by simp⟩
  · have hs : qeduRemove d = some d' := by
      rw [← hs, qeduTeardown]
      cases hr : d.remove with
      | bound => exact absurd hr hb
      | _ => rfl
    have e := qeduRemove_frame hs
    exact ⟨qeduRemove_settled h hs, e.holder, e.waiting, e.removing⟩

/-- A device that is probed and settled meets the invariant of a device at work. -/
theorem QuiesceInv.of_fresh (h : Settled d) (hfree : Fresh d) : QuiesceInv d where
  bound := fun _ => hfree.wq
  removing := fun _ => ⟨hfree.holder, hfree.waiting⟩
  free := fun _ => ⟨h.stage, by simp [h.worker, WorkerPc.advanceTail], by simp [h.worker]⟩
  held := fun w hw => by simp [hfree.holder] at hw
  settledFree := fun _ => h
  settledHeld := fun w hw => by simp [hfree.holder] at hw

end Steps

/-! ## Runs -/

/-- What holds from the allocation of the buffer on. -/
inductive LifeInv : Lifetime → Prop where
  /-- the self-tests, but for the poll of the transfer -/
  | probing {pc : ProbePc} {d : QeduDev} (test : pc ≠ .pollDma ∧ pc ≠ .ready ∧ pc ≠ .failed)
      (settled : Settled d) (fresh : Fresh d) : LifeInv ⟨pc, d⟩
  | polling {d : QeduDev} (drained : Drained d) (fresh : Fresh d) : LifeInv ⟨.pollDma, d⟩
  | working {d : QeduDev} (inv : QuiesceInv d) (bound : d.remove = .bound) : LifeInv ⟨.ready, d⟩
  | removing {d : QeduDev} (going : d.remove ≠ .bound) (settled : Settled d)
      (outside : Outside d) : LifeInv ⟨.ready, d⟩
  | failed {d : QeduDev} (settled : Settled d) (unwritten : Unwritten d) : LifeInv ⟨.failed, d⟩

section LifeSteps

variable {l l' : Lifetime} {d d' : QeduDev}

/-- The probe keeps a settled device settled up to the command of its transfer. -/
theorem LifeInv.probe_step {pc : ProbePc} (htest : pc ≠ .pollDma ∧ pc ≠ .ready ∧ pc ≠ .failed)
    (h : Settled d) (hfree : Fresh d) (hs : qeduProbe ⟨pc, d⟩ = some l') : LifeInv l' := by
  have hfactorial : (d.edu.writeFactorial 10).dmaCmd = d.edu.dmaCmd := by
    unfold Edu.writeFactorial
    split <;> rfl
  cases pc with
  | writeFactorial =>
    cases hs
    exact .probing (by decide) (h.of_same rfl hfactorial rfl rfl rfl)
      (hfree.of_same rfl rfl rfl rfl)
  | pollFactorial =>
    simp only [qeduProbe] at hs
    split at hs <;> cases hs
    exact .probing (by decide) h hfree
  | raiseIrq =>
    cases hs
    exact .probing (by decide) (h.of_same rfl rfl rfl rfl rfl) (hfree.of_same rfl rfl rfl rfl)
  | storePattern =>
    cases hs
    exact .probing (by decide) (h.of_same rfl rfl rfl rfl rfl) (hfree.of_same rfl rfl rfl rfl)
  | writeSrc =>
    cases hs
    rw [Lifetime.at, Edu.writeDmaSrc_of_stopped h.stopped]
    exact .probing (by decide) (h.of_same rfl rfl rfl rfl rfl) (hfree.of_same rfl rfl rfl rfl)
  | writeDst =>
    cases hs
    rw [Lifetime.at, Edu.writeDmaDst_of_stopped h.stopped]
    exact .probing (by decide) (h.of_same rfl rfl rfl rfl rfl) (hfree.of_same rfl rfl rfl rfl)
  | writeCnt =>
    cases hs
    rw [Lifetime.at, Edu.writeDmaCnt_of_stopped h.stopped]
    exact .probing (by decide) (h.of_same rfl rfl rfl rfl rfl) (hfree.of_same rfl rfl rfl rfl)
  | writeCmd =>
    -- from here on the transfer of the smoke test runs
    cases hs
    exact .polling ⟨h.stage, h.pending, h.worker, h.handler⟩ (hfree.of_same rfl rfl rfl rfl)
  | pollDma => exact absurd rfl htest.1
  | register =>
    cases hs
    exact .working (.of_fresh h hfree) hfree.bound
  | ready => cases hs
  | failed => cases hs

theorem lifeInv_probe (h : LifeInv l) (hs : qeduProbe l = some l') : LifeInv l' := by
  cases h with
  | probing test settled fresh => exact .probe_step test settled fresh hs
  | @polling d drained fresh =>
    -- the poll is left when the transfer has ended
    simp only [qeduProbe] at hs
    split at hs <;> cases hs
    rename_i hrunning
    exact .probing (by decide) ⟨drained.stage, Bool.eq_false_iff.mpr hrunning, drained.pending,
      drained.worker, drained.handler⟩ fresh
  | _ => cases hs

theorem lifeInv_probeFails (h : LifeInv l) (hok : l.probe ≠ .pollDma)
    (hs : qeduProbeFails l = some l') : LifeInv l' := by
  cases h with
  | @probing pc d test settled fresh =>
    cases pc with
    | pollFactorial =>
      simp only [qeduProbeFails] at hs
      split at hs <;> cases hs
      exact .failed settled fresh.toUnwritten
    | register =>
      cases hs
      exact .failed settled fresh.toUnwritten
    | pollDma => exact absurd rfl hok
    | _ => cases hs
  | polling _ _ => exact absurd rfl hok
  | _ => cases hs

theorem lifeInv_enter {bytes : List UInt8} (h : LifeInv l)
    (hs : lifeStep l (.drive (.enter bytes)) = some l') : LifeInv l' := by
  simp only [lifeStep] at hs
  split at hs
  case isFalse => cases hs
  case isTrue hready =>
    cases h with
    | probing test _ _ => exact absurd hready.1 test.2.1
    | polling _ _ => cases hready.1
    | failed _ _ => cases hready.1
    | @working d inv bound =>
      -- as long as the driver is bound this is a step of `qedu`
      have hstep : ∃ d', step d (.enter bytes) = some d' ∧ l' = ⟨.ready, d'⟩ := by
        simp only [step, if_pos bound]
        split at hs
        · next hrefused =>
          cases hs
          exact ⟨d, if_pos hrefused, rfl⟩
        · next haccepted =>
          cases hs
          exact ⟨_, if_neg haccepted, rfl⟩
      obtain ⟨d', hstep, rfl⟩ := hstep
      refine .working (quiesceInv_step inv ?_ (by simp) hstep) ?_
      · intro w _
        simp
      · exact (step_remove (by simp) hstep).trans bound
    | @removing d going settled outside =>
      -- a write of an open file, which waits for the lock
      split at hs <;> cases hs
      · exact .removing going settled outside
      · exact .removing going (settled.of_same rfl rfl rfl rfl rfl) outside

theorem lifeInv_remove (h : LifeInv l)
    (hok : ∀ w ∈ l.dev.holder, l.dev.remove = .bound → w.pc.inJob = false)
    (hs : lifeStep l (.drive .remove) = some l') : LifeInv l' := by
  simp only [lifeStep] at hs
  split at hs
  case isFalse => cases hs
  case isTrue hready =>
    obtain ⟨d', hteardown, rfl⟩ := Option.map_eq_some_iff.mp hs
    cases h with
    | probing test _ _ => exact absurd hready (not_or.mpr test.2)
    | polling _ _ => exact absurd hready (by simp)
    | @working d inv bound =>
      have hout : Outside d := fun w hw => hok w hw bound
      have hset : SettledOn d := ⟨inv.settledFree, inv.settledHeld⟩
      obtain ⟨hsettled, hholder, -, hgoing⟩ := qeduTeardown_settled (hset.settled hout) hteardown
      exact .removing hgoing hsettled fun w hw => hout w (hholder ▸ hw)
    | @removing d going settled outside =>
      obtain ⟨hsettled, hholder, -, hgoing⟩ := qeduTeardown_settled settled hteardown
      exact .removing hgoing hsettled fun w hw => outside w (hholder ▸ hw)
    | @failed d settled unwritten =>
      obtain ⟨hsettled, hholder, hwaiting, -⟩ := qeduTeardown_settled settled hteardown
      exact .failed hsettled (unwritten.of_same hholder hwaiting)

theorem lifeStep_drive {a : Act} (henter : ∀ bytes, a ≠ .enter bytes) (hne : a ≠ .remove)
    (hs : lifeStep l (.drive a) = some l') :
    ∃ d', step l.dev a = some d' ∧ l' = ⟨l.probe, d'⟩ := by
  have hdrive : lifeStep l (.drive a) =
      if l.dev.remove = .freed then none
      else (step l.dev a).map fun dev => { l with dev := dev } := by
    cases a with
    | enter bytes => exact absurd rfl (henter bytes)
    | remove => exact absurd rfl hne
    | _ => rfl
  rw [hdrive] at hs
  split at hs
  · cases hs
  · obtain ⟨d', hstep, rfl⟩ := Option.map_eq_some_iff.mp hs
    exact ⟨d', hstep, rfl⟩

theorem lifeInv_drive {a : Act} (h : LifeInv l) (henter : ∀ bytes, a ≠ .enter bytes)
    (hne : a ≠ .remove) (hok : LifeSafe l (.drive a))
    (hs : lifeStep l (.drive a) = some l') : LifeInv l' := by
  obtain ⟨d', hstep, rfl⟩ := lifeStep_drive henter hne hs
  obtain ⟨hsafe, hwrites⟩ := hok
  have hremove := step_remove hne hstep
  cases h with
  | probing test settled fresh =>
    obtain ⟨ha, hholder, hwaiting, hwq⟩ := fresh.toUnwritten.step henter hne hstep
    exact .probing test (settled.background_step ha hstep)
      (fresh.of_same hholder hwaiting hremove hwq)
  | polling drained fresh =>
    obtain ⟨ha, hholder, hwaiting, hwq⟩ := fresh.toUnwritten.step henter hne hstep
    exact .polling (drained.background_step ha hstep)
      (fresh.of_same hholder hwaiting hremove hwq)
  | working inv bound =>
    exact .working (quiesceInv_step inv hsafe hne hstep) (hremove.trans bound)
  | removing going settled outside =>
    obtain ⟨hsettled, houtside⟩ := removing_step settled outside hne
      (fun w hw hwrite hpc => going ((hwrites w hw).1 hwrite hpc)) hstep
    exact .removing (hremove ▸ going) hsettled houtside
  | failed settled unwritten =>
    obtain ⟨ha, hholder, hwaiting, -⟩ := unwritten.step henter hne hstep
    exact .failed (settled.background_step ha hstep) (unwritten.of_same hholder hwaiting)

theorem lifeInv_step {a : LifeAct} (h : LifeInv l) (hok : LifeSafe l a)
    (hs : lifeStep l a = some l') : LifeInv l' := by
  cases a with
  | probe => exact lifeInv_probe h hs
  | probeFails => exact lifeInv_probeFails h hok hs
  | drive a =>
    cases a with
    | enter bytes => exact lifeInv_enter h hs
    | remove => exact lifeInv_remove h (fun w hw => (hok.2 w hw).2 rfl) hs
    | _ => exact lifeInv_drive h (fun _ => by simp) (by simp) hok hs

end LifeSteps

theorem reach_lifeInv {l : Lifetime} (h : lifetime.Reach LifeSafe l) : LifeInv l := by
  refine h.invariant LifeInv ?_ (fun s a s' hi hok hs => lifeInv_step hi hok hs)
  rintro _ ⟨dmaAddr, edu, selftest, hstopped, rfl⟩
  refine .probing ?_ ⟨rfl, hstopped, rfl, rfl, rfl⟩ ⟨⟨rfl, rfl⟩, rfl, rfl⟩
  cases selftest <;> decide

theorem Settled.quiescent {d : QeduDev} (h : Settled d) : Quiescent d :=
  ⟨fun hflight => Bool.false_ne_true (h.stopped.symm.trans hflight.1), h.pending, h.worker⟩

/-- **Quiescence**: in every run of `LifeSafe` steps, whenever no write holds the lock and whenever
    the coherent buffer is freed, no transfer touches that buffer and no DMA work item is queued or
    running; but for the transfer of the smoke test while the probe polls for its end. -/
theorem dma_quiescent_between_writes {l : Lifetime} (h : lifetime.Reach LifeSafe l)
    (hpoll : l.probe ≠ .pollDma) (hfree : l.dev.holder = none ∨ l.dev.remove = .freeBuffer) :
    Quiescent l.dev := by
  cases reach_lifeInv h with
  | probing _ settled _ => exact settled.quiescent
  | polling _ _ => exact absurd rfl hpoll
  | working inv bound =>
    -- a buffer that is being freed is that of a driver that is being removed
    refine (inv.settledFree (hfree.resolve_right fun hfreed => ?_)).quiescent
    exact absurd (bound.symm.trans hfreed) (by decide)
  | removing _ settled _ => exact settled.quiescent
  | failed settled _ => exact settled.quiescent

/-- The probe with its self-tests, whose interrupt is handled at once. -/
def selftestRun : List LifeAct :=
  [.probe, .drive .factorialComplete, .probe, .probe] ++
    [.irq, .handler, .handler].map .drive ++ List.replicate 5 .probe ++
    [.drive .dmaComplete, .probe, .probe]

/-- A whole echo, and the removal of the driver while a write waits for its factorial. -/
def unbindRun : List Act :=
  submitRun [104, 105] ++ completionRun ++ List.replicate 6 .work ++ completionRun ++
    List.replicate 3 .work ++ [.waitDone, .write, .write, .enter [53], .lock 0] ++
    List.replicate 7 .write ++ List.replicate 5 .remove

theorem dma_quiescent_between_writes_unbind :
    ∃ l, lifetime.Reach LifeSafe l ∧ l.dev.remove = .freeBuffer ∧ l.dev.holder ≠ none ∧
      Quiescent l.dev := by
  obtain ⟨l, hrun, hfree, hheld, hpoll⟩ :
      ∃ l ∈ lifetime.exec ⟨.writeFactorial, probed 0x1000 false⟩
          (selftestRun ++ unbindRun.map .drive),
        l.dev.remove = .freeBuffer ∧ l.dev.holder ≠ none ∧ l.probe ≠ .pollDma := by decide +kernel
  have hreach : lifetime.Reach LifeSafe l :=
    System.Reach.exec (.init ⟨0x1000, _, true, rfl, rfl⟩) (by decide +kernel) hrun
  exact ⟨l, hreach, hfree, hheld, dma_quiescent_between_writes hreach hpoll (.inr hfree)⟩

/-- **The defect**: after a signal the transfer out of the coherent buffer is still running
    when the lock is released, and even when the buffer is freed. -/
theorem abort_leaves_transfer_running :
    ¬ ∀ l, lifetime.Reachable l → l.probe ≠ .pollDma →
      (l.dev.holder = none ∨ l.dev.remove = .freeBuffer) → Quiescent l.dev := by
  intro hall
  obtain ⟨l, hrun, hpoll, hfree, hflight⟩ :
      ∃ l ∈ lifetime.exec ⟨.register, probed 0x1000 false⟩
          (.probe :: (interruptedRun [97, 98] ++ List.replicate 5 Act.remove).map .drive),
        l.probe ≠ .pollDma ∧ l.dev.remove = .freeBuffer ∧
          l.dev.edu.InFlight l.dev.dmaAddr := by decide +kernel
  have hreach : lifetime.Reachable l :=
    System.reachable_of_exec ⟨0x1000, _, false, rfl, rfl⟩ hrun
  exact (hall l hreach hpoll (.inr hfree)).1 hflight

end LinuxMaxxing.Io
