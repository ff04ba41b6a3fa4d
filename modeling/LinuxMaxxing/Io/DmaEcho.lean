import LinuxMaxxing.Io.DmaPhases

/-!
# The DMA Echo Returns the Bytes of Its Own Write

`qedu_write` promises a byte echo on its DMA path. The promise fails after an aborted job:
the abort resets the stage and cancels the work items, but the transfer it submitted keeps
running, and the next job's stage machine takes its completion for its own
(`dma_echo_returns_foreign_bytes`).

`EchoSafe` is the condition on the steps of a run that rules this out: user bytes are
copied while no transfer into the coherent buffer is running, and a job enters its first
stage while no transfer is running and no completion is outstanding. Under it every write
that returns its count on the DMA path has echoed exactly its own bytes (`dma_echo_exact`).
-/

namespace LinuxMaxxing.Io

open LinuxMaxxing.Lib

/-! ## The condition on the steps -/

/-- No transfer runs and no DMA completion is latched, in the handler, queued or at work. -/
def SubmitClean (d : QeduDev) : Prop :=
  d.edu.running = false ∧ d.edu.irqDma = false ∧ d.handler.noDma = true ∧ d.pending = [] ∧
    d.worker.resting = true

/-- No transfer from the device into the coherent buffer is running. -/
def NoReturnTransfer (d : QeduDev) : Prop :=
  d.edu.running = false ∨ d.edu.dmaCmd.dir = false

/-- A step does not mix a DMA job with what an earlier job left behind. -/
def EchoSafe (d : QeduDev) (a : Act) : Prop :=
  a = .write → ∀ w ∈ d.holder,
    (w.pc = .copyFromUser → NoReturnTransfer d) ∧ (w.pc = .echo .submitStage → SubmitClean d)

instance (d : QeduDev) : Decidable (SubmitClean d) := inferInstanceAs (Decidable (_ ∧ _))
instance (d : QeduDev) : Decidable (NoReturnTransfer d) := inferInstanceAs (Decidable (_ ∨ _))
instance (d : QeduDev) (a : Act) : Decidable (EchoSafe d a) :=
  inferInstanceAs (Decidable (_ → _))

/-! ## The invariant of a write -/

/-- The stage machine is at rest: no worker is past its `cmpxchg`. -/
structure Parked (d : QeduDev) : Prop where
  stage : d.dmaStage = .idle
  noTail : d.worker.advanceTail = false
  noPublish : d.worker ≠ .finishPublish

/-- The coherent buffer holds the user bytes and nothing is about to overwrite them. -/
structure Loaded (bytes : List UInt8) (d : QeduDev) : Prop where
  parked : Parked d
  noReturn : NoReturnTransfer d
  ram : d.ram.Holds bytes

/-- What holds while the writer of `bytes` is at `pc`. -/
def PcInv (bytes : List UInt8) (d : QeduDev) : WritePc → Prop
  | .locked | .copyFromUser | .factorial _ _ | .format _ _ => Parked d
  | .terminate | .parse | .echo .clearEvent | .echoed => Loaded bytes d
  | .echo .setLen => Loaded bytes d ∧ d.eventDma = false
  | .echo .submitStage => Loaded bytes d ∧ d.eventDma = false ∧ d.dmaLen = bytes.length
  | .echo .writeSrc => Programming bytes false false false d
  | .echo .writeDst => Programming bytes true false false d
  | .echo .writeCnt => Programming bytes true true false d
  | .echo .writeCmd => Programming bytes true true true d
  | .echo .wait | .echo (.abort _) => InWait bytes d
  | .echo (.cancelAdvance _) => d.dmaStage = .idle
  | .echo (.cancelFinish _) => d.dmaStage = .idle ∧ d.worker.advanceTail = false
  | .outUnlock (.count n) .dma =>
    Loaded bytes d ∧ n = bytes.length ∧ d.resultSize = bytes.length
  | .outUnlock _ _ => Parked d

/-- The stage machine is at rest between writes, and a write meets the invariant of its
    next statement. -/
structure EchoInv (d : QeduDev) : Prop extends Lifecycle d where
  free : d.holder = none → Parked d
  held : ∀ w, d.holder = some w → PcInv w.bytes d w.pc

theorem echoInv_probed (dmaAddr : Nat) (selftest : Bool) : EchoInv (probed dmaAddr selftest) where
  toLifecycle := lifecycle_probed dmaAddr selftest
  free := fun _ => ⟨rfl, rfl, by simp [probed]⟩
  held := by
    intro w hw
    simp [probed] at hw

section Steps

variable {bytes : List UInt8} {d d' : QeduDev} {a : Act}

/-! ## Moves of the other parties -/

/-- In the idle stage every `cmpxchg` of a worker fails. -/
theorem qeduDmaWork_stage_idle (hstage : d.dmaStage = .idle) (hs : qeduDmaWork d = some d') :
    d'.dmaStage = .idle := by
  simp only [qeduDmaWork, hstage, reduceCtorEq, if_false] at hs
  split at hs <;> cases hs <;> rfl

/-- In the idle stage, a worker that is not past the `cmpxchg` of the advance worker gives
    up, returns, or sets the completion bit. -/
theorem qeduDmaWork_idle (hstage : d.dmaStage = .idle) (htail : d.worker.advanceTail = false)
    (hs : qeduDmaWork d = some d') :
    d' = { d with worker := .idle } ∨
      (d.worker = .finishPublish ∧ d' = { d with eventDma := true, worker := .finishWake }) := by
  cases hw : d.worker with
  | idle => simp [qeduDmaWork, hw] at hs
  | advanceStage =>
    have hne : d.dmaStage ≠ .toDevice := by simp [hstage]
    simp only [qeduDmaWork, hw, if_neg hne, Option.some.injEq] at hs
    exact .inl hs.symm
  | finishStage =>
    have hne : d.dmaStage ≠ .fromDevice := by simp [hstage]
    simp only [qeduDmaWork, hw, if_neg hne, Option.some.injEq] at hs
    exact .inl hs.symm
  | finishPublish =>
    simp only [qeduDmaWork, hw, Option.some.injEq] at hs
    exact .inr ⟨rfl, hs.symm⟩
  | finishWake =>
    simp only [qeduDmaWork, hw, Option.some.injEq] at hs
    exact .inl hs.symm
  | _ => simp [hw, WorkerPc.advanceTail] at htail

/-- An idle stage stays idle: every `cmpxchg` on it fails. -/
theorem background_stage_idle (h : d.dmaStage = .idle) (ha : a.background = true)
    (hs : step d a = some d') :
    d'.dmaStage = .idle ∧ (d.worker.advanceTail = false → d'.worker.advanceTail = false) := by
  cases background_effect ha hs with
  | none e hworker => exact ⟨e.stage.trans h, fun ht => hworker ▸ ht⟩
  | start e w _ _ hworker => exact ⟨e.stage.trans h, fun _ => by cases w <;> simp [hworker,
      Work.start, WorkerPc.advanceTail]⟩
  | work hrun =>
    refine ⟨qeduDmaWork_stage_idle h hrun, fun ht => ?_⟩
    obtain rfl | ⟨-, rfl⟩ := qeduDmaWork_idle h ht hrun <;> rfl
  | complete _ hrun => exact ⟨hrun ▸ h, fun ht => hrun ▸ ht⟩

/-- At rest, nobody touches the completion bit or leaves the idle stage. -/
theorem Parked.background_step (h : Parked d) (ha : a.background = true)
    (hs : step d a = some d') :
    Parked d' ∧ d'.eventDma = d.eventDma ∧ d'.dmaLen = d.dmaLen := by
  obtain ⟨hstage, htail⟩ := background_stage_idle h.stage ha hs
  suffices hrest : d'.worker ≠ .finishPublish ∧ d'.eventDma = d.eventDma ∧ d'.dmaLen = d.dmaLen by
    exact ⟨⟨hstage, htail h.noTail, hrest.1⟩, hrest.2⟩
  obtain ⟨h1, h2, h3⟩ := h
  cases background_effect ha hs with
  | none e hworker => exact ⟨hworker ▸ h3, e.event, e.len⟩
  | start e w _ _ hworker =>
    exact ⟨by cases w <;> simp [hworker, Work.start], e.event, e.len⟩
  | work hrun =>
    obtain rfl | ⟨hpublish, -⟩ := qeduDmaWork_idle h1 h2 hrun
    · exact ⟨by simp, rfl, rfl⟩
    · exact absurd hpublish h3
  | complete _ hrun => exact ⟨hrun ▸ h3, hrun ▸ rfl, hrun ▸ rfl⟩

/-- At rest and without a return transfer, the coherent buffer is nobody else's. -/
theorem Loaded.background_step (h : Loaded bytes d) (ha : a.background = true)
    (hs : step d a = some d') : Loaded bytes d' := by
  have hp := (h.parked.background_step ha hs).1
  obtain ⟨⟨h1, h2, h3⟩, h4, h5⟩ := h
  suffices hsame : d'.ram = d.ram ∧ NoReturnTransfer d' by
    exact ⟨hp, hsame.2, hsame.1 ▸ h5⟩
  simp only [NoReturnTransfer, Edu.running] at h4 ⊢
  cases background_effect ha hs with
  | none e _ => exact ⟨e.ram, by rwa [e.cmd]⟩
  | start e _ _ _ _ => exact ⟨e.ram, by rwa [e.cmd]⟩
  | work hrun =>
    obtain rfl | ⟨hpublish, -⟩ := qeduDmaWork_idle h1 h2 hrun
    · exact ⟨rfl, h4⟩
    · exact absurd hpublish h3
  | complete hrunning hrun =>
    -- a transfer that ends here runs towards the device
    have hdir : d.edu.dmaCmd.dir = false := by
      obtain hstopped | hdir := h4
      · simp [hrunning] at hstopped
      · exact hdir
    subst hrun
    refine ⟨?_, .inl rfl⟩
    simp only [Edu.completeDma, Edu.moveBytes, hdir, Bool.false_eq_true, if_false]
    split <;> rfl

theorem PcInv.background_step {pc : WritePc} (h : PcInv bytes d pc) (ha : a.background = true)
    (hs : step d a = some d') : PcInv bytes d' pc := by
  cases pc with
  | locked => exact (Parked.background_step h ha hs).1
  | copyFromUser => exact (Parked.background_step h ha hs).1
  | factorial input pc => exact (Parked.background_step h ha hs).1
  | format input result => exact (Parked.background_step h ha hs).1
  | terminate => exact Loaded.background_step h ha hs
  | parse => exact Loaded.background_step h ha hs
  | echoed => exact Loaded.background_step h ha hs
  | outUnlock ret engine =>
    cases ret with
    | error e => exact (Parked.background_step h ha hs).1
    | count n =>
      cases engine with
      | none => exact (Parked.background_step h ha hs).1
      | factorial => exact (Parked.background_step h ha hs).1
      | dma =>
        obtain ⟨hl, hn, hr⟩ := h
        exact ⟨hl.background_step ha hs, hn, (background_sameWriter ha hs).size.trans hr⟩
  | echo pc =>
    cases pc with
    | clearEvent => exact Loaded.background_step h ha hs
    | setLen =>
      obtain ⟨hl, he⟩ := h
      obtain ⟨-, hev, -⟩ := hl.parked.background_step ha hs
      exact ⟨hl.background_step ha hs, hev.trans he⟩
    | submitStage =>
      obtain ⟨hl, he, hn⟩ := h
      obtain ⟨-, hev, hlen⟩ := hl.parked.background_step ha hs
      exact ⟨hl.background_step ha hs, hev.trans he, hlen.trans hn⟩
    | writeSrc => exact Programming.background_step h ha hs
    | writeDst => exact Programming.background_step h ha hs
    | writeCnt => exact Programming.background_step h ha hs
    | writeCmd => exact Programming.background_step h ha hs
    | wait => exact InWait.background_step h ha hs
    | abort e => exact InWait.background_step h ha hs
    | cancelAdvance e => exact (background_stage_idle h ha hs).1
    | cancelFinish e =>
      obtain ⟨hstage, htail⟩ := background_stage_idle h.1 ha hs
      exact ⟨hstage, htail h.2⟩

/-! ## Statements of the writer -/

/-- The state after a statement of the writer of `bytes`: the write goes on and meets the
    invariant of its next statement, or it has released the lock. -/
def WriterGoesOn (bytes : List UInt8) (d' : QeduDev) : Prop :=
  (d'.holder = none ∧ Parked d') ∨
    ∃ pc, d'.holder = some ⟨bytes, pc⟩ ∧ PcInv bytes d' pc

theorem writerGoesOn_at {w : Write} (pc : WritePc) (h : PcInv w.bytes (d.at w pc) pc) :
    WriterGoesOn w.bytes (d.at w pc) :=
  .inr ⟨pc, rfl, h⟩

/-- Moving the program counter leaves the shared state alone. -/
theorem Parked.at {w : Write} {pc : WritePc} (h : Parked d) : Parked (d.at w pc) :=
  ⟨h.stage, h.noTail, h.noPublish⟩

theorem Loaded.at {w : Write} {pc : WritePc} (h : Loaded bytes d) : Loaded bytes (d.at w pc) :=
  ⟨h.parked.at, h.noReturn, h.ram⟩

theorem Calm.at {w : Write} {pc : WritePc} (h : Calm d) : Calm (d.at w pc) :=
  ⟨h.irq, h.handler, h.pending⟩

theorem Quiet.at {w : Write} {pc : WritePc} (h : Quiet d) : Quiet (d.at w pc) :=
  ⟨h.toCalm.at, h.worker⟩

theorem Token.at {work : Work} {w : Write} {pc : WritePc} (h : Token work d) :
    Token work (d.at w pc) :=
  h.of_same rfl rfl rfl rfl

theorem InWait.at {w : Write} {pc : WritePc} (h : InWait bytes d) :
    InWait bytes (d.at w pc) := by
  cases h with
  | toDevice h =>
    exact .toDevice ⟨h.stage, h.quiet.at, h.src, h.dst, h.cnt, h.cmd, h.event, h.len, h.ram, h.wq⟩
  | advancePending h =>
    exact .advancePending ⟨h.stage, h.token.at, h.stopped, h.event, h.len, h.buf, h.wq⟩
  | advancing h =>
    exact .advancing ⟨h.stage, h.calm.at, h.worker, h.stopped, h.event, h.len, h.buf, h.wq,
      h.srcSet, h.dstSet, h.cntSet⟩
  | fromDevice h =>
    exact .fromDevice ⟨h.stage, h.quiet.at, h.src, h.dst, h.cnt, h.cmd, h.event, h.buf, h.wq⟩
  | finishPending h =>
    exact .finishPending ⟨h.stage, h.token.at, h.stopped, h.event, h.ram, h.wq⟩
  | publishing h => exact .publishing ⟨h.stage, h.calm.at, h.worker, h.stopped, h.event, h.ram⟩
  | published h => exact .published ⟨h.stage, h.quiet.at, h.stopped, h.event, h.ram⟩

/-- A worker that is not running the advance work item is not past its `cmpxchg`. -/
theorem WorkerPc.advanceTail_of_work {pc : WorkerPc} (h : pc.work ≠ some .advance) :
    pc.advanceTail = false := by
  cases pc <;> simp_all [WorkerPc.work, WorkerPc.advanceTail]

/-- A resting worker runs no statement of the stage machine. -/
theorem WorkerPc.advanceTail_of_resting {pc : WorkerPc} (h : pc.resting = true) :
    pc.advanceTail = false ∧ pc ≠ .finishPublish := by
  cases pc <;> simp_all [WorkerPc.resting, WorkerPc.advanceTail]

/-- A parked stage machine in which every completion has been delivered is ready for the
    first register write. -/
theorem programming_of_submit {w : Write} (h : Loaded bytes d) (hevent : d.eventDma = false)
    (hlen : d.dmaLen = bytes.length) (hwq : d.dmaWq = true) (hclean : SubmitClean d) :
    Programming bytes false false false
      ({ d with dmaStage := .toDevice }.at w (.echo .writeSrc)) := by
  obtain ⟨h1, h2, h3, h4, h5⟩ := hclean
  exact ⟨rfl, ⟨⟨h2, h3, h4⟩, h5⟩, h1, hevent, hlen, h.ram, hwq, by simp, by simp, by simp⟩

theorem qeduDmaEchoJob_goesOn {w : Write} {pc : EchoPc} (h : PcInv w.bytes d (.echo pc))
    (hwq : d.dmaWq = true) (hsafe : pc = .submitStage → SubmitClean d)
    (hs : qeduDmaEchoJob d w pc = some d') : WriterGoesOn w.bytes d' := by
  cases pc with
  | clearEvent =>
    cases hs
    obtain ⟨⟨h1, h2, h3⟩, h4, h5⟩ := h
    exact writerGoesOn_at _ ⟨⟨⟨h1, h2, h3⟩, h4, h5⟩, rfl⟩
  | setLen =>
    cases hs
    obtain ⟨⟨⟨h1, h2, h3⟩, h4, h5⟩, h6⟩ := h
    exact writerGoesOn_at _ ⟨⟨⟨h1, h2, h3⟩, h4, h5⟩, h6, rfl⟩
  | submitStage =>
    cases hs
    exact writerGoesOn_at _ (programming_of_submit h.1 h.2.1 h.2.2 hwq (hsafe rfl))
  | writeSrc =>
    cases hs
    obtain ⟨h1, ⟨⟨q1, q2, q3⟩, q4⟩, h3, h4, h5, h6, h7, h8, h9, h10⟩ := h
    refine writerGoesOn_at _ ?_
    rw [Edu.writeDmaSrc_of_stopped h3]
    exact ⟨h1, ⟨⟨q1, q2, q3⟩, q4⟩, h3, h4, h5, h6, h7, fun _ => rfl, by simp, by simp⟩
  | writeDst =>
    cases hs
    obtain ⟨h1, ⟨⟨q1, q2, q3⟩, q4⟩, h3, h4, h5, h6, h7, h8, h9, h10⟩ := h
    refine writerGoesOn_at _ ?_
    rw [Edu.writeDmaDst_of_stopped h3]
    exact ⟨h1, ⟨⟨q1, q2, q3⟩, q4⟩, h3, h4, h5, h6, h7, h8, fun _ => rfl, by simp⟩
  | writeCnt =>
    cases hs
    obtain ⟨h1, ⟨⟨q1, q2, q3⟩, q4⟩, h3, h4, h5, h6, h7, h8, h9, h10⟩ := h
    refine writerGoesOn_at _ ?_
    rw [Edu.writeDmaCnt_of_stopped h3]
    exact ⟨h1, ⟨⟨q1, q2, q3⟩, q4⟩, h3, h4, h5, h6, h7, h8, h9, fun _ => rfl⟩
  | writeCmd =>
    cases hs
    obtain ⟨h1, ⟨⟨q1, q2, q3⟩, q4⟩, h3, h4, h5, h6, h7, h8, h9, h10⟩ := h
    refine writerGoesOn_at _ (.toDevice ?_)
    rw [Edu.writeDmaCmd_of_stopped h3]
    exact ⟨h1, ⟨⟨q1, q2, q3⟩, q4⟩, h8 rfl, h9 rfl, h10 rfl, rfl, h4, h5, h6, h7⟩
  | wait => cases hs
  | abort e =>
    cases hs
    exact writerGoesOn_at _ rfl
  | cancelAdvance e =>
    obtain ⟨d₁, hcancel, rfl⟩ := Option.map_eq_some_iff.mp hs
    obtain ⟨hwork, rfl⟩ := QeduDev.cancelWorkSync_eq_some hcancel
    exact writerGoesOn_at _ ⟨h, WorkerPc.advanceTail_of_work hwork⟩
  | cancelFinish e =>
    obtain ⟨d₁, hcancel, rfl⟩ := Option.map_eq_some_iff.mp hs
    obtain ⟨hwork, rfl⟩ := QeduDev.cancelWorkSync_eq_some hcancel
    have hpublish : d.worker ≠ .finishPublish := by
      intro hw
      simp [hw, WorkerPc.work] at hwork
    exact writerGoesOn_at (.outUnlock (.error e) .dma) ⟨h.1, h.2, hpublish⟩

theorem qeduFactorialJob_goesOn {w : Write} {input : Nat} {pc : FactorialPc} (h : Parked d)
    (hs : qeduFactorialJob d w input pc = some d') : WriterGoesOn w.bytes d' := by
  cases pc with
  | clearEvent =>
    cases hs
    exact writerGoesOn_at (.factorial input .enableIrq) ⟨h.stage, h.noTail, h.noPublish⟩
  | enableIrq =>
    cases hs
    exact writerGoesOn_at (.factorial input .writeInput) ⟨h.stage, h.noTail, h.noPublish⟩
  | writeInput =>
    cases hs
    exact writerGoesOn_at (.factorial input .wait) ⟨h.stage, h.noTail, h.noPublish⟩
  | wait => cases hs
  | readResult =>
    cases hs
    exact writerGoesOn_at (.format input d.edu.fact) h.at

theorem qeduWrite_goesOn {w : Write} (h : PcInv w.bytes d w.pc) (hwq : d.dmaWq = true)
    (hcopy : w.pc = .copyFromUser → NoReturnTransfer d)
    (hsubmit : w.pc = .echo .submitStage → SubmitClean d)
    (hs : qeduWrite d w = some d') : WriterGoesOn w.bytes d' := by
  obtain ⟨bytes, pc⟩ := w
  cases pc with
  | locked =>
    cases hs
    exact writerGoesOn_at .copyFromUser ⟨h.stage, h.noTail, h.noPublish⟩
  | copyFromUser =>
    cases hs
    exact writerGoesOn_at .terminate
      ⟨⟨h.stage, h.noTail, h.noPublish⟩, hcopy rfl, Buffer.store_holds _ _⟩
  | terminate =>
    cases hs
    have hram := Buffer.holds_update h.ram 0
    obtain ⟨⟨h1, h2, h3⟩, h4, h5⟩ := h
    exact writerGoesOn_at .parse ⟨⟨h1, h2, h3⟩, h4, hram⟩
  | parse =>
    simp only [qeduWrite] at hs
    split at hs
    · rename_i input _
      cases hs
      exact writerGoesOn_at (.factorial input .clearEvent) (Loaded.parked h).at
    · cases hs
      exact writerGoesOn_at (.echo .clearEvent) (Loaded.at h)
  | factorial input pc => exact qeduFactorialJob_goesOn h hs
  | format input result =>
    cases hs
    exact writerGoesOn_at (.outUnlock (.count bytes.length) .factorial)
      ⟨h.stage, h.noTail, h.noPublish⟩
  | echo pc => exact qeduDmaEchoJob_goesOn h hwq (fun hpc => hsubmit (by simp [hpc])) hs
  | echoed =>
    cases hs
    obtain ⟨⟨h1, h2, h3⟩, h4, h5⟩ := h
    exact writerGoesOn_at (.outUnlock (.count bytes.length) .dma)
      ⟨⟨⟨h1, h2, h3⟩, h4, h5⟩, rfl, rfl⟩
  | outUnlock ret engine =>
    cases hs
    refine .inl ⟨rfl, ?_⟩
    have hparked : Parked d := by
      cases ret with
      | error e => exact h
      | count n =>
        cases engine with
        | none => exact h
        | factorial => exact h
        | dma => exact h.1.parked
    exact ⟨hparked.stage, hparked.noTail, hparked.noPublish⟩

theorem copyFault_goesOn {w : Write} {n : Nat} (h : PcInv w.bytes d w.pc)
    (hs : copyFault d w n = some d') : WriterGoesOn w.bytes d' := by
  simp only [copyFault] at hs
  split at hs
  · rename_i hpc
    cases hs
    rw [hpc.1] at h
    exact writerGoesOn_at (.outUnlock (.error .efault) .none)
      ⟨h.stage, h.noTail, h.noPublish⟩
  · cases hs

/-- A wait that sees the completion bit ends an echo whose bytes are back. -/
theorem waitDone_goesOn {w : Write} (h : PcInv w.bytes d w.pc)
    (hs : waitDone d w = some d') : WriterGoesOn w.bytes d' := by
  simp only [waitDone] at hs
  split at hs
  · rename_i hpc
    split at hs
    · rename_i hevent
      cases hs
      rw [hpc] at h
      obtain ⟨h1, h2, h3, -, h5⟩ := h.published_of_event hevent
      obtain ⟨htail, hpublish⟩ := WorkerPc.advanceTail_of_resting h2.worker
      exact writerGoesOn_at .echoed ⟨⟨h1, htail, hpublish⟩, .inl h3, h5⟩
    · cases hs
  · rename_i input hpc
    split at hs
    · cases hs
      rw [hpc] at h
      exact writerGoesOn_at (.factorial input .readResult) (Parked.at h)
    · cases hs
  · cases hs

theorem waitAbort_goesOn {w : Write} {e : Errno} (h : PcInv w.bytes d w.pc)
    (hs : waitAbort d w e = some d') : WriterGoesOn w.bytes d' := by
  simp only [waitAbort] at hs
  split at hs
  · rename_i hpc
    cases hs
    rw [hpc] at h
    exact writerGoesOn_at (.echo (.abort e)) (InWait.at h)
  · rename_i input hpc
    cases hs
    rw [hpc] at h
    exact writerGoesOn_at (.outUnlock (.error e) .factorial) (Parked.at h)
  · cases hs

/-! ## Runs -/

/-- Removal keeps the stage machine at rest. -/
theorem qeduRemove_parked (h : Parked d) (hs : qeduRemove d = some d') : Parked d' := by
  have e := qeduRemove_frame hs
  exact ⟨e.stage.elim (·.trans h.stage) id, e.worker ▸ h.noTail, e.worker ▸ h.noPublish⟩

/-- A write that goes on keeps the invariant. -/
theorem EchoInv.of_goesOn (hlife : Lifecycle d') (h : WriterGoesOn bytes d') : EchoInv d' := by
  obtain ⟨hfree, hparked⟩ | ⟨pc, hheld, hpc⟩ := h
  · exact ⟨hlife, fun _ => hparked, fun w hw => by simp [hfree] at hw⟩
  · refine ⟨hlife, fun hfree => by simp [hfree] at hheld, fun w hw => ?_⟩
    obtain rfl : ⟨bytes, pc⟩ = w := Option.some.inj (hheld.symm.trans hw)
    exact hpc

theorem echoInv_step (h : EchoInv d) (hok : EchoSafe d a) (hs : step d a = some d') :
    EchoInv d' := by
  have hlife := lifecycle_step h.toLifecycle hs
  by_cases ha : a.background = true
  · have e := background_sameWriter ha hs
    refine ⟨hlife, fun hfree => ?_, fun w hw => ?_⟩
    · exact ((h.free (e.holder ▸ hfree)).background_step ha hs).1
    · exact (h.held w (e.holder ▸ hw)).background_step ha hs
  · cases a with
    | lock i =>
      simp only [step] at hs
      split at hs
      · rename_i bytes hfree _
        cases hs
        obtain ⟨h1, h2, h3⟩ := h.free hfree
        exact .of_goesOn hlife (.inr ⟨.locked, rfl, ⟨h1, h2, h3⟩⟩)
      · cases hs
    | write =>
      obtain ⟨w, hw, hs⟩ := Option.bind_eq_some_iff.mp hs
      obtain ⟨hcopy, hsubmit⟩ := hok rfl w hw
      exact .of_goesOn hlife (qeduWrite_goesOn (h.held w hw)
        (h.bound (h.bound_of_holder hw)) hcopy hsubmit hs)
    | copyFault n =>
      obtain ⟨w, hw, hs⟩ := Option.bind_eq_some_iff.mp hs
      exact .of_goesOn hlife (copyFault_goesOn (h.held w hw) hs)
    | waitDone =>
      obtain ⟨w, hw, hs⟩ := Option.bind_eq_some_iff.mp hs
      exact .of_goesOn hlife (waitDone_goesOn (h.held w hw) hs)
    | waitAbort e =>
      obtain ⟨w, hw, hs⟩ := Option.bind_eq_some_iff.mp hs
      exact .of_goesOn hlife (waitAbort_goesOn (h.held w hw) hs)
    | remove =>
      obtain ⟨hfree, hfree'⟩ := qeduRemove_holder h.toLifecycle hs
      exact ⟨hlife, fun _ => qeduRemove_parked (h.free hfree) hs,
        fun w hw => by simp [hfree'] at hw⟩
    | _ => simp [Act.background] at ha

end Steps

theorem reach_echoInv {d : QeduDev} (h : qedu.Reach EchoSafe d) : EchoInv d := by
  refine h.invariant EchoInv ?_ (fun s a s' hi hok hs => echoInv_step hi hok hs)
  rintro _ ⟨dmaAddr, selftest, rfl⟩
  exact echoInv_probed dmaAddr selftest

/-- What a write promises when it returns its count on the DMA path. -/
def EchoesOwnBytes (d : QeduDev) : Prop :=
  ∀ w n, d.holder = some w → w.pc = .outUnlock (.count n) .dma →
    n = w.bytes.length ∧ d.ram.Holds w.bytes ∧ d.resultSize = n

/-- **Exact echo**: in every run whose steps are `EchoSafe`, a write that returns its count
    on the DMA path leaves exactly its own bytes in the coherent buffer. -/
theorem dma_echo_exact {d : QeduDev} (h : qedu.Reach EchoSafe d) : EchoesOwnBytes d := by
  intro w n hw hpc
  have hinv := (reach_echoInv h).held w hw
  rw [hpc] at hinv
  obtain ⟨hloaded, hn, hsize⟩ := hinv
  exact ⟨hn, hloaded.ram, hsize.trans hn.symm⟩

/-! ## Runs of the driver -/

/-- The system call, the lock and the statements of a DMA job up to its wait. -/
def submitRun (bytes : List UInt8) : List Act :=
  [.enter bytes, .lock 0] ++ List.replicate 11 .write

/-- A transfer ends, its interrupt is handled and its work item starts. -/
def completionRun : List Act :=
  [.dmaComplete, .irq, .handler, .handler, .handler, .workStart]

/-- From the end of the first transfer to the return of the write. -/
def echoRun : List Act :=
  completionRun ++ List.replicate 6 .work ++ completionRun ++ [.work, .work, .waitDone, .write]

/-- An echo that is interrupted by a signal while its first transfer is running. -/
def interruptedRun (bytes : List UInt8) : List Act :=
  submitRun bytes ++ [.waitAbort .erestartsys] ++ List.replicate 4 .write

/-- An echo of its own is a run of safe steps, and it returns its two bytes. -/
theorem dma_echo_exact_hi :
    ∃ d, qedu.Reach EchoSafe d ∧ d.holder = some ⟨[104, 105], .outUnlock (.count 2) .dma⟩ ∧
      EchoesOwnBytes d := by
  obtain ⟨d, hrun, hheld⟩ :
      ∃ d ∈ qedu.exec (probed 0x1000 false) (submitRun [104, 105] ++ echoRun),
        d.holder = some ⟨[104, 105], .outUnlock (.count 2) .dma⟩ := by decide +kernel
  have hreach : qedu.Reach EchoSafe d :=
    System.Reach.exec (.init ⟨0x1000, false, rfl⟩) (by decide +kernel) hrun
  exact ⟨d, hreach, hheld, dma_echo_exact hreach⟩

/-- **The defect**: after an interrupted 2-byte write, a 4-byte write returns 4 although
    only two of its bytes are echoed. -/
theorem dma_echo_returns_foreign_bytes :
    ¬ ∀ d, qedu.Reachable d → EchoesOwnBytes d := by
  intro hall
  obtain ⟨d, hrun, hheld, hram⟩ :
      ∃ d ∈ qedu.exec (probed 0x1000 false)
          (interruptedRun [97, 98] ++ submitRun [119, 120, 121, 122] ++ echoRun),
        d.holder = some ⟨[119, 120, 121, 122], .outUnlock (.count 4) .dma⟩ ∧ d.ram 2 = 0 := by
    decide +kernel
  have hreach : qedu.Reachable d := System.reachable_of_exec ⟨0x1000, false, rfl⟩ hrun
  obtain ⟨-, hholds, -⟩ := hall d hreach _ 4 hheld rfl
  have hbyte : d.ram 2 = 121 := hholds 2 (by decide)
  simp [hram] at hbyte

end LinuxMaxxing.Io
