import LinuxMaxxing.Io.Qedu

/-!
# Phases of a DMA Echo

The stage machine of `qedu_dma.c` cannot tell whose completion it is handed: an interrupt
advances whatever stage it finds. An echo is therefore followed through the phases it goes
through when no foreign completion reaches it:

  programming -> RAM to EDU -> advance pending -> advancing
              -> EDU to RAM -> finish pending -> publishing -> published

In every phase there is exactly one thing that can move the echo on: a running transfer, a
completion on its way through interrupt and workqueue (`Token`), or the worker. Each phase
has one lemma that says where the moves of the other parties (`Act.background`) lead.
-/

namespace LinuxMaxxing.Io

open LinuxMaxxing.Lib

/-! ## Moves of the other parties -/

/-- The transfer registers, both buffers and the stage machine's own fields are the same. -/
structure SameTransfer (d d' : QeduDev) : Prop where
  src : d'.edu.dmaSrc = d.edu.dmaSrc
  dst : d'.edu.dmaDst = d.edu.dmaDst
  cnt : d'.edu.dmaCnt = d.edu.dmaCnt
  cmd : d'.edu.dmaCmd = d.edu.dmaCmd
  buf : d'.edu.buf = d.edu.buf
  addr : d'.dmaAddr = d.dmaAddr
  ram : d'.ram = d.ram
  stage : d'.dmaStage = d.dmaStage
  len : d'.dmaLen = d.dmaLen
  event : d'.eventDma = d.eventDma
  wq : d'.dmaWq = d.dmaWq

/-- The other parties never touch the lock or the result size. -/
structure SameWriter (d d' : QeduDev) : Prop where
  holder : d'.holder = d.holder
  size : d'.resultSize = d.resultSize

theorem background_sameWriter {d d' : QeduDev} {a : Act} (ha : a.background = true)
    (hs : step d a = some d') : SameWriter d d' := by
  cases background_cases ha hs with
  | work hrun => exact ⟨(qeduDmaWork_frame hrun).holder, (qeduDmaWork_frame hrun).size⟩
  | _ => exact ⟨rfl, rfl⟩

/-- What the other parties can do to the transfer and the worker: nothing, start a queued
    work item, execute a statement of it, or end the running transfer. -/
inductive BackgroundEffect (d d' : QeduDev) : Prop where
  | none (same : SameTransfer d d') (worker : d'.worker = d.worker)
  | start (same : SameTransfer d d') (w : Work) (queued : w ∈ d.pending)
      (idle : d.worker = .idle) (worker : d'.worker = w.start)
  | work (run : qeduDmaWork d = some d')
  | complete (running : d.edu.running = true)
      (run : d' = { d with
        edu := (d.edu.completeDma d.dmaAddr d.ram).1
        ram := (d.edu.completeDma d.dmaAddr d.ram).2 })

theorem background_effect {d d' : QeduDev} {a : Act} (ha : a.background = true)
    (hs : step d a = some d') : BackgroundEffect d d' := by
  cases background_cases ha hs with
  | workStart w rest hidle hqueued =>
    exact .start ⟨rfl, rfl, rfl, rfl, rfl, rfl, rfl, rfl, rfl, rfl, rfl⟩ w
      (by simp [hqueued]) hidle rfl
  | work hrun => exact .work hrun
  | dmaComplete hrunning => exact .complete hrunning rfl
  | _ => exact .none ⟨rfl, rfl, rfl, rfl, rfl, rfl, rfl, rfl, rfl, rfl, rfl⟩ rfl

/-! ## Where a completion can be -/

/-- The handler holds no DMA bit and is not about to queue work. -/
def HandlerPc.noDma : HandlerPc → Bool
  | .idle => true
  | .ack _ dma => !dma
  | .publishFactorial dma => !dma
  | .readStage | .queueWork _ => false

/-- The kworker has nothing left to do for the stage machine. -/
def WorkerPc.resting : WorkerPc → Bool
  | .idle | .finishWake => true
  | _ => false

/-- `qedu_dma_advance_work` has won its `cmpxchg` and will start the return transfer. -/
def WorkerPc.advanceTail : WorkerPc → Bool
  | .advanceClear | .advanceSrc | .advanceDst | .advanceCnt | .advanceCmd => true
  | _ => false

/-- No DMA completion is latched, carried by the handler or queued. -/
structure Calm (d : QeduDev) : Prop where
  irq : d.edu.irqDma = false
  handler : d.handler.noDma = true
  pending : d.pending = []

/-- No completion of a DMA transfer is on its way to the stage machine. -/
structure Quiet (d : QeduDev) : Prop extends Calm d where
  worker : d.worker.resting = true

/-- One completion is on its way, and it will run `w`. -/
inductive Token (w : Work) (d : QeduDev) : Prop where
  | latched (irq : d.edu.irqDma = true) (handler : d.handler.noDma = true)
      (pending : d.pending = []) (worker : d.worker.resting = true)
  | seen (factorial : Bool) (irq : d.edu.irqDma = true)
      (handler : d.handler = .ack factorial true)
      (pending : d.pending = []) (worker : d.worker.resting = true)
  | carried (irq : d.edu.irqDma = false)
      (handler : d.handler = .publishFactorial true ∨ d.handler = .readStage)
      (pending : d.pending = []) (worker : d.worker.resting = true)
  | queueing (irq : d.edu.irqDma = false) (handler : d.handler = .queueWork w)
      (pending : d.pending = []) (worker : d.worker.resting = true)
  | queued (irq : d.edu.irqDma = false) (handler : d.handler.noDma = true)
      (pending : d.pending = [w]) (worker : d.worker.resting = true)
  | started (calm : Calm d) (worker : d.worker = w.start)

/-! ## The phases -/

/-- The registers are being programmed for the transfer RAM to EDU; the flags say which
    of them already hold their value. -/
structure Programming (bytes : List UInt8) (src dst cnt : Bool) (d : QeduDev) : Prop where
  stage : d.dmaStage = .toDevice
  quiet : Quiet d
  stopped : d.edu.running = false
  event : d.eventDma = false
  len : d.dmaLen = bytes.length
  ram : d.ram.Holds bytes
  wq : d.dmaWq = true
  srcSet : src = true → d.edu.dmaSrc = d.dmaAddr
  dstSet : dst = true → d.edu.dmaDst = qeduDmaDevBuf
  cntSet : cnt = true → d.edu.dmaCnt = bytes.length

/-- The transfer RAM to EDU is running. -/
structure ToDevice (bytes : List UInt8) (d : QeduDev) : Prop where
  stage : d.dmaStage = .toDevice
  quiet : Quiet d
  src : d.edu.dmaSrc = d.dmaAddr
  dst : d.edu.dmaDst = qeduDmaDevBuf
  cnt : d.edu.dmaCnt = bytes.length
  cmd : d.edu.dmaCmd = ⟨true, false, true⟩
  event : d.eventDma = false
  len : d.dmaLen = bytes.length
  ram : d.ram.Holds bytes
  wq : d.dmaWq = true

/-- The device holds the bytes and the advance worker is on its way. -/
structure AdvancePending (bytes : List UInt8) (d : QeduDev) : Prop where
  stage : d.dmaStage = .toDevice
  token : Token .advance d
  stopped : d.edu.running = false
  event : d.eventDma = false
  len : d.dmaLen = bytes.length
  buf : d.edu.buf.Holds bytes
  wq : d.dmaWq = true

/-- The advance worker clears the buffer and programs the return transfer. -/
structure Advancing (bytes : List UInt8) (d : QeduDev) : Prop where
  stage : d.dmaStage = .fromDevice
  calm : Calm d
  worker : d.worker.advanceTail = true
  stopped : d.edu.running = false
  event : d.eventDma = false
  len : d.dmaLen = bytes.length
  buf : d.edu.buf.Holds bytes
  wq : d.dmaWq = true
  srcSet : d.worker = .advanceDst ∨ d.worker = .advanceCnt ∨ d.worker = .advanceCmd →
    d.edu.dmaSrc = qeduDmaDevBuf
  dstSet : d.worker = .advanceCnt ∨ d.worker = .advanceCmd → d.edu.dmaDst = d.dmaAddr
  cntSet : d.worker = .advanceCmd → d.edu.dmaCnt = bytes.length

/-- The transfer EDU to RAM is running. -/
structure FromDevice (bytes : List UInt8) (d : QeduDev) : Prop where
  stage : d.dmaStage = .fromDevice
  quiet : Quiet d
  src : d.edu.dmaSrc = qeduDmaDevBuf
  dst : d.edu.dmaDst = d.dmaAddr
  cnt : d.edu.dmaCnt = bytes.length
  cmd : d.edu.dmaCmd = ⟨true, true, true⟩
  event : d.eventDma = false
  buf : d.edu.buf.Holds bytes
  wq : d.dmaWq = true

/-- The bytes are back and the finish worker is on its way. -/
structure FinishPending (bytes : List UInt8) (d : QeduDev) : Prop where
  stage : d.dmaStage = .fromDevice
  token : Token .finish d
  stopped : d.edu.running = false
  event : d.eventDma = false
  ram : d.ram.Holds bytes
  wq : d.dmaWq = true

/-- The finish worker is about to set the completion bit. -/
structure Publishing (bytes : List UInt8) (d : QeduDev) : Prop where
  stage : d.dmaStage = .idle
  calm : Calm d
  worker : d.worker = .finishPublish
  stopped : d.edu.running = false
  event : d.eventDma = false
  ram : d.ram.Holds bytes

/-- The completion bit is set. -/
structure Published (bytes : List UInt8) (d : QeduDev) : Prop where
  stage : d.dmaStage = .idle
  quiet : Quiet d
  stopped : d.edu.running = false
  event : d.eventDma = true
  ram : d.ram.Holds bytes

/-- The phases an echo goes through while its writer waits. -/
inductive InWait (bytes : List UInt8) (d : QeduDev) : Prop where
  | toDevice (h : ToDevice bytes d)
  | advancePending (h : AdvancePending bytes d)
  | advancing (h : Advancing bytes d)
  | fromDevice (h : FromDevice bytes d)
  | finishPending (h : FinishPending bytes d)
  | publishing (h : Publishing bytes d)
  | published (h : Published bytes d)

section Steps

variable {bytes : List UInt8} {d d' : QeduDev} {a : Act}

/-! ## Steps while a completion is nowhere or on its way -/

theorem SameTransfer.running (e : SameTransfer d d') : d'.edu.running = d.edu.running :=
  congrArg DmaCmd.start e.cmd

/-- The only statement a resting worker has left is the end of `qedu_dma_finish_work`. -/
theorem qeduDmaWork_resting (h : d.worker.resting = true) (hs : qeduDmaWork d = some d') :
    d' = { d with worker := .idle } := by
  cases hw : d.worker with
  | idle => simp [qeduDmaWork, hw] at hs
  | finishWake =>
    simp only [qeduDmaWork, hw, Option.some.injEq] at hs
    exact hs.symm
  | _ => simp [hw, WorkerPc.resting] at h

/-- Only the worker and the end of a transfer change the transfer. -/
theorem background_sameTransfer (ha : a.background = true) (hw : a ≠ .work)
    (hc : a ≠ .dmaComplete) (hs : step d a = some d') : SameTransfer d d' := by
  cases background_cases ha hs with
  | work _ => exact absurd rfl hw
  | dmaComplete _ => exact absurd rfl hc
  | _ => exact ⟨rfl, rfl, rfl, rfl, rfl, rfl, rfl, rfl, rfl, rfl, rfl⟩

/-- With a resting worker and an empty queue, only the end of a transfer changes the
    transfer or wakes the worker. -/
theorem resting_background_step (hworker : d.worker.resting = true) (hpending : d.pending = [])
    (ha : a.background = true) (hc : a ≠ .dmaComplete) (hs : step d a = some d') :
    SameTransfer d d' ∧ d'.worker.resting = true := by
  cases background_cases ha hs with
  | workStart w rest _ hqueued => simp [hpending] at hqueued
  | work hrun =>
    obtain rfl := qeduDmaWork_resting hworker hrun
    exact ⟨⟨rfl, rfl, rfl, rfl, rfl, rfl, rfl, rfl, rfl, rfl, rfl⟩, rfl⟩
  | dmaComplete _ => exact absurd rfl hc
  | _ => exact ⟨⟨rfl, rfl, rfl, rfl, rfl, rfl, rfl, rfl, rfl, rfl, rfl⟩, hworker⟩

/-- A handler without a DMA bit gets one only by entry while the bit is latched; until
    then it leaves the bit and the queue alone. -/
theorem noDma_background_step (h : d.handler.noDma = true)
    (hirq : a = .irq → d.edu.irqDma = false) (ha : a.background = true)
    (hc : a ≠ .dmaComplete) (hs : step d a = some d') :
    d'.handler.noDma = true ∧ d'.edu.irqDma = d.edu.irqDma ∧
      (a ≠ .workStart → d'.pending = d.pending) := by
  cases background_cases ha hs with
  | irqTaken pc => exact ⟨by simp [HandlerPc.noDma, hirq rfl], rfl, fun _ => rfl⟩
  | ack factorial dma pc =>
    obtain rfl : dma = false := by simpa [pc, HandlerPc.noDma] using h
    exact ⟨by cases factorial <;> rfl, by simp, fun _ => rfl⟩
  | publishFactorial dma pc =>
    obtain rfl : dma = false := by simpa [pc, HandlerPc.noDma] using h
    exact ⟨rfl, rfl, fun _ => rfl⟩
  | stageRead w pc _ => simp [pc, HandlerPc.noDma] at h
  | stageDropped pc _ => simp [pc, HandlerPc.noDma] at h
  | queueWork w pc => simp [pc, HandlerPc.noDma] at h
  | workStart w rest _ _ => exact ⟨h, rfl, fun hne => absurd rfl hne⟩
  | work hrun =>
    have e := qeduDmaWork_frame hrun
    exact ⟨e.handler ▸ h, e.irqDma, fun _ => e.pending⟩
  | dmaComplete _ => exact absurd rfl hc
  | _ => exact ⟨h, rfl, fun _ => rfl⟩

/-- Without a completion in sight, the other parties change nothing of the DMA path
    unless the worker runs or a transfer ends. -/
theorem Calm.background_step (h : Calm d) (ha : a.background = true) (hw : a ≠ .work)
    (hc : a ≠ .dmaComplete) (hs : step d a = some d') :
    Calm d' ∧ SameTransfer d d' ∧ d'.worker = d.worker := by
  have hstart : a ≠ .workStart := by
    rintro rfl
    simp [step, workStart, h.pending] at hs
  obtain ⟨hhandler, hirq, hpending⟩ := noDma_background_step h.handler (fun _ => h.irq) ha hc hs
  refine ⟨⟨hirq.trans h.irq, hhandler, (hpending hstart).trans h.pending⟩,
    background_sameTransfer ha hw hc hs, ?_⟩
  cases background_cases ha hs with
  | workStart w rest _ _ => exact absurd rfl hstart
  | work _ => exact absurd rfl hw
  | _ => rfl

/-- A quiet DMA path stays quiet and unchanged until its transfer ends. -/
theorem Quiet.background_step (h : Quiet d) (ha : a.background = true)
    (hc : a ≠ .dmaComplete) (hs : step d a = some d') : Quiet d' ∧ SameTransfer d d' := by
  have hstart : a ≠ .workStart := by
    rintro rfl
    simp [step, workStart, h.pending] at hs
  obtain ⟨hhandler, hirq, hpending⟩ := noDma_background_step h.handler (fun _ => h.irq) ha hc hs
  obtain ⟨hsame, hworker⟩ := resting_background_step h.worker h.pending ha hc hs
  exact ⟨⟨⟨hirq.trans h.irq, hhandler, (hpending hstart).trans h.pending⟩, hworker⟩, hsame⟩

/-- A token is read off the interrupt bit, the handler, the queue and the worker. -/
theorem Token.of_same {w : Work} (h : Token w d) (hirq : d'.edu.irqDma = d.edu.irqDma)
    (hhandler : d'.handler = d.handler) (hpending : d'.pending = d.pending)
    (hworker : d'.worker = d.worker) : Token w d' := by
  cases h with
  | latched h1 h2 h3 h4 =>
    exact .latched (hirq.trans h1) (hhandler ▸ h2) (hpending.trans h3) (hworker ▸ h4)
  | seen f h1 h2 h3 h4 =>
    exact .seen f (hirq.trans h1) (hhandler.trans h2) (hpending.trans h3) (hworker ▸ h4)
  | carried h1 h2 h3 h4 =>
    exact .carried (hirq.trans h1) (hhandler ▸ h2) (hpending.trans h3) (hworker ▸ h4)
  | queueing h1 h2 h3 h4 =>
    exact .queueing (hirq.trans h1) (hhandler.trans h2) (hpending.trans h3) (hworker ▸ h4)
  | queued h1 h2 h3 h4 =>
    exact .queued (hirq.trans h1) (hhandler ▸ h2) (hpending.trans h3) (hworker ▸ h4)
  | started h1 h2 =>
    exact .started ⟨hirq.trans h1.irq, hhandler ▸ h1.handler, hpending.trans h1.pending⟩
      (hworker.trans h2)

/-- Entering the handler picks a latched completion up and leaves the others alone. -/
theorem Token.irq_step {w : Work} (h : Token w d) (hs : step d .irq = some d') :
    Token w d' := by
  cases background_cases rfl hs with
  | irqForeign => exact h
  | irqTaken pc =>
    cases h with
    | latched h1 h2 h3 h4 => exact .seen d.edu.irqFactorial h1 (by simp [h1]) h3 h4
    | seen f h1 h2 h3 h4 => simp [h2] at pc
    | carried h1 h2 h3 h4 => simp [pc] at h2
    | queueing h1 h2 h3 h4 => simp [h2] at pc
    | queued h1 h2 h3 h4 => exact .queued h1 (by simp [HandlerPc.noDma, h1]) h3 h4
    | started h1 h2 =>
      exact .started ⟨h1.irq, by simp [HandlerPc.noDma, h1.irq], h1.pending⟩ h2

/-- Each statement of the handler takes the completion one place further; the stage it
    reads names the work item. -/
theorem Token.handler_step {w : Work} (h : Token w d) (hstage : d.dmaStage = w.stage)
    (hwq : d.dmaWq = true) (hs : step d .handler = some d') : Token w d' := by
  have hworker : d'.worker = d.worker := by cases background_cases rfl hs <;> rfl
  -- a handler that serves only the factorial bit takes the completion nowhere
  have hidle (hh : d.handler.noDma = true) := noDma_background_step hh (by simp) rfl (by simp) hs
  cases h with
  | latched h1 h2 h3 h4 =>
    obtain ⟨hhandler, hirq, hpending⟩ := hidle h2
    exact .latched (hirq.trans h1) hhandler ((hpending (by simp)).trans h3) (hworker ▸ h4)
  | seen f h1 h2 h3 h4 =>
    simp only [step, qeduIrqHandler, h2, Option.some.injEq] at hs
    subst hs
    exact .carried (by simp) (by cases f <;> simp [HandlerPc.afterFactorial]) h3 h4
  | carried h1 h2 h3 h4 =>
    obtain h2 | h2 := h2
    · simp only [step, qeduIrqHandler, h2, Option.some.injEq] at hs
      subst hs
      exact .carried h1 (.inr rfl) h3 h4
    · simp only [step, qeduIrqHandler, h2, Option.some.injEq] at hs
      subst hs
      refine .queueing h1 ?_ h3 h4
      cases w <;> simp [hwq, hstage, Work.stage]
  | queueing h1 h2 h3 h4 =>
    simp only [step, qeduIrqHandler, h2, Option.some.injEq] at hs
    subst hs
    exact .queued h1 rfl (by simp [h3]) h4
  | queued h1 h2 h3 h4 =>
    obtain ⟨hhandler, hirq, hpending⟩ := hidle h2
    exact .queued (hirq.trans h1) hhandler ((hpending (by simp)).trans h3) (hworker ▸ h4)
  | started h1 h2 =>
    obtain ⟨hhandler, hirq, hpending⟩ := hidle h1.handler
    exact .started ⟨hirq.trans h1.irq, hhandler, (hpending (by simp)).trans h1.pending⟩
      (hworker.trans h2)

/-- The kworker starts only the work item the completion has queued. -/
theorem Token.workStart_step {w : Work} (h : Token w d) (hs : step d .workStart = some d') :
    Token w d' := by
  cases background_cases rfl hs with
  | workStart work rest hidle hqueued =>
    cases h with
    | latched h1 h2 h3 h4 => simp [h3] at hqueued
    | seen f h1 h2 h3 h4 => simp [h3] at hqueued
    | carried h1 h2 h3 h4 => simp [h3] at hqueued
    | queueing h1 h2 h3 h4 => simp [h3] at hqueued
    | queued h1 h2 h3 h4 =>
      obtain ⟨rfl, rfl⟩ : w = work ∧ [] = rest := by simpa [h3] using hqueued
      exact .started ⟨h1, h2, rfl⟩ rfl
    | started h1 h2 => simp [h1.pending] at hqueued

/-- A worker statement is the first one of the completion's work item, or it ends a work
    item that has nothing more to do. -/
theorem Token.work_step {w : Work} (h : Token w d) (hs : step d .work = some d') :
    (Token w d' ∧ SameTransfer d d') ∨ (Calm d ∧ d.worker = w.start) := by
  have hrest (hr : d.worker.resting = true) : d' = { d with worker := .idle } :=
    qeduDmaWork_resting hr hs
  have hsame (hr : d.worker.resting = true) : SameTransfer d d' := by
    obtain rfl := hrest hr
    exact ⟨rfl, rfl, rfl, rfl, rfl, rfl, rfl, rfl, rfl, rfl, rfl⟩
  cases h with
  | latched h1 h2 h3 h4 => exact .inl ⟨hrest h4 ▸ .latched h1 h2 h3 rfl, hsame h4⟩
  | seen f h1 h2 h3 h4 => exact .inl ⟨hrest h4 ▸ .seen f h1 h2 h3 rfl, hsame h4⟩
  | carried h1 h2 h3 h4 => exact .inl ⟨hrest h4 ▸ .carried h1 h2 h3 rfl, hsame h4⟩
  | queueing h1 h2 h3 h4 => exact .inl ⟨hrest h4 ▸ .queueing h1 h2 h3 rfl, hsame h4⟩
  | queued h1 h2 h3 h4 => exact .inl ⟨hrest h4 ▸ .queued h1 h2 h3 rfl, hsame h4⟩
  | started h1 h2 => exact .inr ⟨h1, h2⟩

/-- A completion on its way moves on by itself, until the worker executes the first
    statement of its work item. -/
theorem Token.background_step {w : Work} (h : Token w d) (hstage : d.dmaStage = w.stage)
    (hwq : d.dmaWq = true) (hstop : d.edu.running = false) (ha : a.background = true)
    (hs : step d a = some d') :
    (Token w d' ∧ SameTransfer d d') ∨ (a = .work ∧ Calm d ∧ d.worker = w.start) := by
  have hc : a ≠ .dmaComplete := by
    rintro rfl
    simp [step, hstop] at hs
  by_cases hw : a = .work
  · subst hw
    exact (h.work_step hs).imp id fun hstart => ⟨rfl, hstart⟩
  · refine .inl ⟨?_, background_sameTransfer ha hw hc hs⟩
    cases a with
    | irq => exact h.irq_step hs
    | handler => exact h.handler_step hstage hwq hs
    | workStart => exact h.workStart_step hs
    | enter bytes => cases background_cases ha hs <;> exact h.of_same rfl rfl rfl rfl
    | lockInterrupted i => cases background_cases ha hs; exact h.of_same rfl rfl rfl rfl
    | factorialComplete => cases background_cases ha hs; exact h.of_same rfl rfl rfl rfl
    | work => exact absurd rfl hw
    | dmaComplete => exact absurd rfl hc
    | _ => simp [Act.background] at ha

/-! ## What the other parties do to each phase -/

theorem Programming.background_step {src dst cnt : Bool} (h : Programming bytes src dst cnt d)
    (ha : a.background = true) (hs : step d a = some d') :
    Programming bytes src dst cnt d' := by
  have hc : a ≠ .dmaComplete := by
    rintro rfl
    simp [step, h.stopped] at hs
  obtain ⟨hq, e⟩ := h.quiet.background_step ha hc hs
  exact ⟨e.stage.trans h.stage, hq, e.running.trans h.stopped, e.event.trans h.event,
    e.len.trans h.len, e.ram ▸ h.ram, e.wq.trans h.wq,
    fun hset => e.src.trans ((h.srcSet hset).trans e.addr.symm),
    fun hset => e.dst.trans (h.dstSet hset), fun hset => e.cnt.trans (h.cntSet hset)⟩

theorem ToDevice.background_step (h : ToDevice bytes d) (ha : a.background = true)
    (hs : step d a = some d') : ToDevice bytes d' ∨ AdvancePending bytes d' := by
  by_cases hc : a = .dmaComplete
  · subst hc
    right
    have hbuf := Buffer.copy_holds h.ram d.edu.buf
    have hrun : d.edu.running = true := congrArg DmaCmd.start h.cmd
    simp only [step, hrun, if_true, Option.some.injEq] at hs
    subst hs
    refine ⟨h.stage, .latched ?_ h.quiet.handler h.quiet.pending h.quiet.worker, rfl, h.event,
      h.len, ?_, h.wq⟩
    · simp [Edu.completeDma, h.cmd]
    · simpa [Edu.completeDma, Edu.moveBytes, h.cmd, h.src, h.dst, h.cnt] using hbuf
  · left
    obtain ⟨hq, e⟩ := h.quiet.background_step ha hc hs
    exact ⟨e.stage.trans h.stage, hq, e.src.trans (h.src.trans e.addr.symm), e.dst.trans h.dst,
      e.cnt.trans h.cnt, e.cmd.trans h.cmd, e.event.trans h.event, e.len.trans h.len,
      e.ram ▸ h.ram, e.wq.trans h.wq⟩

theorem AdvancePending.background_step (h : AdvancePending bytes d) (ha : a.background = true)
    (hs : step d a = some d') : AdvancePending bytes d' ∨ Advancing bytes d' := by
  obtain ⟨h1, htoken, h2, h3, h4, h5, h6⟩ := h
  obtain ⟨ht, e⟩ | ⟨rfl, hcalm, hworker⟩ := htoken.background_step h1 h6 h2 ha hs
  · left
    exact ⟨e.stage.trans h1, ht, e.running.trans h2, e.event.trans h3, e.len.trans h4,
      e.buf ▸ h5, e.wq.trans h6⟩
  · right
    simp only [step, qeduDmaWork, hworker, Work.start, h1, if_true, Option.some.injEq] at hs
    subst hs
    exact ⟨rfl, ⟨hcalm.irq, hcalm.handler, hcalm.pending⟩, rfl, h2, h3, h4, h5, h6,
      by simp, by simp, by simp⟩

/-- The advance worker sets one register after the other; the command starts the return
    transfer with all of them in place. -/
theorem Advancing.work_step (h : Advancing bytes d) (hs : step d .work = some d') :
    Advancing bytes d' ∨ FromDevice bytes d' := by
  obtain ⟨h1, ⟨c1, c2, c3⟩, h2, h3, h4, h5, h6, h7, hsrc, hdst, hcnt⟩ := h
  cases hw : d.worker with
  | advanceClear =>
    simp only [step, qeduDmaWork, hw, Option.some.injEq] at hs
    subst hs
    exact .inl ⟨h1, ⟨c1, c2, c3⟩, rfl, h3, h4, h5, h6, h7, by simp, by simp, by simp⟩
  | advanceSrc =>
    simp only [step, qeduDmaWork, hw, Edu.writeDmaSrc_of_stopped h3, Option.some.injEq] at hs
    subst hs
    exact .inl ⟨h1, ⟨c1, c2, c3⟩, rfl, h3, h4, h5, h6, h7, fun _ => rfl, by simp, by simp⟩
  | advanceDst =>
    simp only [step, qeduDmaWork, hw, Edu.writeDmaDst_of_stopped h3, Option.some.injEq] at hs
    subst hs
    exact .inl ⟨h1, ⟨c1, c2, c3⟩, rfl, h3, h4, h5, h6, h7, fun _ => hsrc (.inl hw),
      fun _ => rfl, by simp⟩
  | advanceCnt =>
    simp only [step, qeduDmaWork, hw, Edu.writeDmaCnt_of_stopped h3, Option.some.injEq] at hs
    subst hs
    exact .inl ⟨h1, ⟨c1, c2, c3⟩, rfl, h3, h4, h5, h6, h7, fun _ => hsrc (.inr (.inl hw)),
      fun _ => hdst (.inl hw), fun _ => h5⟩
  | advanceCmd =>
    simp only [step, qeduDmaWork, hw, Edu.writeDmaCmd_of_stopped h3, Option.some.injEq] at hs
    subst hs
    exact .inr ⟨h1, ⟨⟨c1, c2, c3⟩, rfl⟩, hsrc (.inr (.inr hw)), hdst (.inr hw), hcnt hw, rfl, h4,
      h6, h7⟩
  | _ => simp [hw, WorkerPc.advanceTail] at h2

theorem Advancing.background_step (h : Advancing bytes d) (ha : a.background = true)
    (hs : step d a = some d') : Advancing bytes d' ∨ FromDevice bytes d' := by
  have hc : a ≠ .dmaComplete := by
    rintro rfl
    simp [step, h.stopped] at hs
  by_cases hw : a = .work
  · subst hw
    exact h.work_step hs
  · left
    obtain ⟨hcalm, e, hworker⟩ := h.calm.background_step ha hw hc hs
    exact ⟨e.stage.trans h.stage, hcalm, hworker ▸ h.worker, e.running.trans h.stopped,
      e.event.trans h.event, e.len.trans h.len, e.buf ▸ h.buf, e.wq.trans h.wq,
      fun hset => e.src.trans (h.srcSet (hworker ▸ hset)),
      fun hset => e.dst.trans ((h.dstSet (hworker ▸ hset)).trans e.addr.symm),
      fun hset => e.cnt.trans (h.cntSet (hworker ▸ hset))⟩

theorem FromDevice.background_step (h : FromDevice bytes d) (ha : a.background = true)
    (hs : step d a = some d') : FromDevice bytes d' ∨ FinishPending bytes d' := by
  by_cases hc : a = .dmaComplete
  · subst hc
    right
    have hram := Buffer.copy_holds h.buf d.ram
    have hrun : d.edu.running = true := congrArg DmaCmd.start h.cmd
    simp only [step, hrun, if_true, Option.some.injEq] at hs
    subst hs
    refine ⟨h.stage, .latched ?_ h.quiet.handler h.quiet.pending h.quiet.worker, rfl, h.event,
      ?_, h.wq⟩
    · simp [Edu.completeDma, h.cmd]
    · simpa [Edu.completeDma, Edu.moveBytes, h.cmd, h.src, h.dst, h.cnt] using hram
  · left
    obtain ⟨hq, e⟩ := h.quiet.background_step ha hc hs
    exact ⟨e.stage.trans h.stage, hq, e.src.trans h.src, e.dst.trans (h.dst.trans e.addr.symm),
      e.cnt.trans h.cnt, e.cmd.trans h.cmd, e.event.trans h.event, e.buf ▸ h.buf,
      e.wq.trans h.wq⟩

theorem FinishPending.background_step (h : FinishPending bytes d) (ha : a.background = true)
    (hs : step d a = some d') : FinishPending bytes d' ∨ Publishing bytes d' := by
  obtain ⟨h1, htoken, h2, h3, h4, h5⟩ := h
  obtain ⟨ht, e⟩ | ⟨rfl, hcalm, hworker⟩ := htoken.background_step h1 h5 h2 ha hs
  · left
    exact ⟨e.stage.trans h1, ht, e.running.trans h2, e.event.trans h3, e.ram ▸ h4,
      e.wq.trans h5⟩
  · right
    simp only [step, qeduDmaWork, hworker, Work.start, h1, if_true, Option.some.injEq] at hs
    subst hs
    exact ⟨rfl, ⟨hcalm.irq, hcalm.handler, hcalm.pending⟩, rfl, h2, h3, h4⟩

theorem Publishing.background_step (h : Publishing bytes d) (ha : a.background = true)
    (hs : step d a = some d') : Publishing bytes d' ∨ Published bytes d' := by
  have hc : a ≠ .dmaComplete := by
    rintro rfl
    simp [step, h.stopped] at hs
  by_cases hw : a = .work
  · subst hw
    right
    obtain ⟨h1, ⟨hc1, hc2, hc3⟩, h2, h3, h4, h5⟩ := h
    simp only [step, qeduDmaWork, h2, Option.some.injEq] at hs
    subst hs
    exact ⟨h1, ⟨⟨hc1, hc2, hc3⟩, rfl⟩, h3, rfl, h5⟩
  · left
    obtain ⟨hcalm, e, hworker⟩ := h.calm.background_step ha hw hc hs
    exact ⟨e.stage.trans h.stage, hcalm, hworker.trans h.worker, e.running.trans h.stopped,
      e.event.trans h.event, e.ram ▸ h.ram⟩

theorem Published.background_step (h : Published bytes d) (ha : a.background = true)
    (hs : step d a = some d') : Published bytes d' := by
  have hc : a ≠ .dmaComplete := by
    rintro rfl
    simp [step, h.stopped] at hs
  obtain ⟨hq, e⟩ := h.quiet.background_step ha hc hs
  exact ⟨e.stage.trans h.stage, hq, e.running.trans h.stopped, e.event.trans h.event,
    e.ram ▸ h.ram⟩

/-- **Whole wait**: whatever the other parties do, the echo stays in its phases. -/
theorem InWait.background_step (h : InWait bytes d) (ha : a.background = true)
    (hs : step d a = some d') : InWait bytes d' := by
  cases h with
  | toDevice h => exact (h.background_step ha hs).elim .toDevice .advancePending
  | advancePending h => exact (h.background_step ha hs).elim .advancePending .advancing
  | advancing h => exact (h.background_step ha hs).elim .advancing .fromDevice
  | fromDevice h => exact (h.background_step ha hs).elim .fromDevice .finishPending
  | finishPending h => exact (h.background_step ha hs).elim .finishPending .publishing
  | publishing h => exact (h.background_step ha hs).elim .publishing .published
  | published h => exact .published (h.background_step ha hs)

/-- The completion bit is set only in the last phase. -/
theorem InWait.published_of_event (h : InWait bytes d) (he : d.eventDma = true) :
    Published bytes d := by
  cases h with
  | toDevice h => simp [h.event] at he
  | advancePending h => simp [h.event] at he
  | advancing h => simp [h.event] at he
  | fromDevice h => simp [h.event] at he
  | finishPending h => simp [h.event] at he
  | publishing h => simp [h.event] at he
  | published h => exact h

end Steps

end LinuxMaxxing.Io
