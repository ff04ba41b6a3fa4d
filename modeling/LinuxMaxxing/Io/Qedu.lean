import LinuxMaxxing.Io.Edu
import LinuxMaxxing.Lib.Transition

/-!
# The qedu Driver as a Step Relation

`/dev/qedu` with every party that touches the shared `struct qedu_dev`:

- **writers**: `qedu_write` under `qdev->lock`, with `qedu_factorial_job` and
  `qedu_dma_echo_job`; any number of them may wait for the lock;
- **the hardirq handler**: `qedu_irq_handler` with `qedu_dma_irq_complete`; the line is
  shared, so it may be entered at any time, but never while it is already running;
- **the ordered workqueue**: one kworker that runs `qedu_dma_advance_work` and
  `qedu_dma_finish_work`, one at a time, in queueing order;
- **the EDU device**: ends a DMA transfer or a factorial at any time;
- **removal**: `qedu_remove` down to the `dma_free_coherent` of `qedu_dma_exit`, as `rmmod`
  runs it. The file operations own the module, so it starts only when no file is in use; a
  device that is unbound or unplugged is in `Lifetime`.

Every access to shared state or to a device register is one step. A wait may end by
signal or timeout at any moment, and by completion once the completion bit is set.
`active_io_id`, `active_engine` and the counters only feed trace events and statistics
and are left out.
-/

namespace LinuxMaxxing.Io

open LinuxMaxxing.Lib

/-! ## Program counters -/

/-- The errors `qedu_write` returns once it holds the lock. -/
inductive Errno where
  | efault
  | erestartsys
  | etimedout
  deriving DecidableEq, Repr

/-- Value returned by `qedu_write`. -/
inductive Ret where
  | count (n : Nat)
  | error (e : Errno)
  deriving DecidableEq, Repr

/-- Next statement of `qedu_dma_echo_job`. -/
inductive EchoPc where
  | clearEvent
  | setLen
  | submitStage
  | writeSrc
  | writeDst
  | writeCnt
  | writeCmd
  | wait
  | abort (e : Errno)
  | cancelAdvance (e : Errno)
  | cancelFinish (e : Errno)
  deriving DecidableEq, Repr

/-- Next statement of `qedu_factorial_job`. -/
inductive FactorialPc where
  | clearEvent
  | enableIrq
  | writeInput
  | wait
  | readResult
  deriving DecidableEq, Repr

/-- Next statement of `qedu_write` after it has taken the lock. -/
inductive WritePc where
  | locked
  | copyFromUser
  | terminate
  | parse
  | factorial (input : Nat) (pc : FactorialPc)
  | format (input result : Nat)
  | echo (pc : EchoPc)
  | echoed
  | outUnlock (ret : Ret) (engine : IoEngine)
  deriving DecidableEq, Repr

/-- Next statement of `qedu_irq_handler`; the arguments are the status bits it has read
    and still has to serve. -/
inductive HandlerPc where
  | idle
  | ack (factorial dma : Bool)
  | publishFactorial (dma : Bool)
  | readStage
  | queueWork (work : Work)
  deriving DecidableEq, Repr

/-- Next statement of the kworker. -/
inductive WorkerPc where
  | idle
  | advanceStage
  | advanceClear
  | advanceSrc
  | advanceDst
  | advanceCnt
  | advanceCmd
  | finishStage
  | finishPublish
  | finishWake
  deriving DecidableEq, Repr

/-- Next statement of `qedu_remove`. -/
inductive RemovePc where
  | bound
  | setIdle
  | cancelAdvance
  | cancelFinish
  | destroyWorkqueue
  | freeBuffer
  | freed
  deriving DecidableEq, Repr

/-- The work item the kworker is executing. -/
def WorkerPc.work : WorkerPc → Option Work
  | .idle => none
  | .advanceStage | .advanceClear | .advanceSrc | .advanceDst | .advanceCnt
  | .advanceCmd => some .advance
  | .finishStage | .finishPublish | .finishWake => some .finish

/-- First statement of a work item. -/
def Work.start : Work → WorkerPc
  | .advance => .advanceStage
  | .finish => .finishStage

/-! ## State -/

/-- The write that holds `qdev->lock`: its user bytes and its next statement. -/
structure Write where
  bytes : List UInt8
  pc : WritePc
  deriving DecidableEq, Repr

/-- `struct qedu_dev` with the device behind it and the parties at work on it. -/
structure QeduDev where
  edu : Edu
  /-- bus address of the coherent buffer -/
  dmaAddr : Nat
  /-- bytes of the coherent buffer -/
  ram : Buffer
  resultSize : Nat
  dmaStage : DmaStage
  dmaLen : Nat
  /-- `QEDU_EVENT_FACTORIAL` in `completed_events` -/
  eventFactorial : Bool
  /-- `QEDU_EVENT_DMA` in `completed_events` -/
  eventDma : Bool
  /-- `dma_wq` is allocated -/
  dmaWq : Bool
  /-- queued work items, oldest first -/
  pending : List Work
  worker : WorkerPc
  handler : HandlerPc
  /-- user bytes of the writers that wait for the lock -/
  waiting : List (List UInt8)
  holder : Option Write
  remove : RemovePc

/-- State after `qedu_probe`. With `selftest`, the register test has left 10! in the
    factorial register, the software-raised interrupt is still latched, and the polled
    smoke test has moved its pattern to the device. -/
def probed (dmaAddr : Nat) (selftest : Bool) : QeduDev where
  edu :=
    { dmaSrc := if selftest then dmaAddr else 0
      dmaDst := if selftest then qeduDmaDevBuf else 0
      dmaCnt := if selftest then 4 else 0
      dmaCmd := ⟨false, false, false⟩
      buf := if selftest then Buffer.store [0x11, 0x22, 0x33, 0x44] (fun _ => 0) else fun _ => 0
      irqFactorial := selftest
      irqDma := false
      fact := if selftest then Edu.factorialResult 10 else 0
      factBusy := false
      factIrqEnable := false }
  dmaAddr := dmaAddr
  ram := if selftest then Buffer.store [0x11, 0x22, 0x33, 0x44] (fun _ => 0) else fun _ => 0
  resultSize := 0
  dmaStage := .idle
  dmaLen := 0
  eventFactorial := false
  eventDma := false
  dmaWq := true
  pending := []
  worker := .idle
  handler := .idle
  waiting := []
  holder := none
  remove := .bound

/-! ## Writers -/

/-- `scnprintf(buffer, size, "%u\n", n)`, without the terminating NUL. -/
def decimalLine (n : Nat) : List UInt8 :=
  (Nat.toDigits 10 n).map (fun c => UInt8.ofNat c.toNat) ++ [10]

/-- The holder of the lock goes on at `pc`. -/
def QeduDev.at (d : QeduDev) (w : Write) (pc : WritePc) : QeduDev :=
  { d with holder := some { w with pc := pc } }

/-- `cancel_work_sync`: waits while the work item is running, then drops it from the
    queue. -/
def QeduDev.cancelWorkSync (d : QeduDev) (work : Work) : Option QeduDev :=
  if d.worker.work = some work then none
  else some { d with pending := d.pending.filter (· ≠ work) }

/-- One statement of `qedu_dma_echo_job` for the write `w`; `wait` is left by its own
    actions. -/
def qeduDmaEchoJob (d : QeduDev) (w : Write) : EchoPc → Option QeduDev
  | .clearEvent => some ({ d with eventDma := false }.at w (.echo .setLen))
  | .setLen => some ({ d with dmaLen := w.bytes.length }.at w (.echo .submitStage))
  | .submitStage => some ({ d with dmaStage := .toDevice }.at w (.echo .writeSrc))
  | .writeSrc =>
    some ({ d with edu := d.edu.writeDmaSrc d.dmaAddr }.at w (.echo .writeDst))
  | .writeDst =>
    some ({ d with edu := d.edu.writeDmaDst qeduDmaDevBuf }.at w (.echo .writeCnt))
  | .writeCnt =>
    some ({ d with edu := d.edu.writeDmaCnt w.bytes.length }.at w (.echo .writeCmd))
  | .writeCmd =>
    some ({ d with edu := d.edu.writeDmaCmd ⟨true, false, true⟩ }.at w (.echo .wait))
  | .wait => none
  | .abort e => some ({ d with dmaStage := .idle }.at w (.echo (.cancelAdvance e)))
  | .cancelAdvance e => (d.cancelWorkSync .advance).map (·.at w (.echo (.cancelFinish e)))
  | .cancelFinish e => (d.cancelWorkSync .finish).map (·.at w (.outUnlock (.error e) .dma))

/-- One statement of `qedu_factorial_job` for the write `w`. -/
def qeduFactorialJob (d : QeduDev) (w : Write) (input : Nat) : FactorialPc → Option QeduDev
  | .clearEvent => some ({ d with eventFactorial := false }.at w (.factorial input .enableIrq))
  | .enableIrq =>
    some ({ d with edu := { d.edu with factIrqEnable := true } }.at w
      (.factorial input .writeInput))
  | .writeInput =>
    some ({ d with edu := d.edu.writeFactorial input }.at w (.factorial input .wait))
  | .wait => none
  | .readResult => some (d.at w (.format input d.edu.fact))

/-- One statement of `qedu_write` for the write `w` that holds the lock. -/
def qeduWrite (d : QeduDev) (w : Write) : Option QeduDev :=
  match w.pc with
  | .locked => some ({ d with resultSize := 0 }.at w .copyFromUser)
  | .copyFromUser => some ({ d with ram := Buffer.store w.bytes d.ram }.at w .terminate)
  | .terminate =>
    some ({ d with ram := Function.update d.ram w.bytes.length 0 }.at w .parse)
  | .parse =>
    match kstrtou32 (cString d.ram 0 qeduDmaSize) with
    | some input => some (d.at w (.factorial input .clearEvent))
    | none => some (d.at w (.echo .clearEvent))
  | .factorial input pc => qeduFactorialJob d w input pc
  | .format _ result =>
    some ({ d with
        ram := Buffer.store (decimalLine result ++ [0]) d.ram
        resultSize := (decimalLine result).length }.at w
      (.outUnlock (.count w.bytes.length) .factorial))
  | .echo pc => qeduDmaEchoJob d w pc
  | .echoed =>
    some ({ d with resultSize := w.bytes.length }.at w
      (.outUnlock (.count w.bytes.length) .dma))
  | .outUnlock _ _ => some { d with holder := none }

/-- `copy_from_user` faults after `n` bytes; the kernel clears the rest. -/
def copyFault (d : QeduDev) (w : Write) (n : Nat) : Option QeduDev :=
  if w.pc = .copyFromUser ∧ n < w.bytes.length then
    some ({ d with
        ram := Buffer.store
          (w.bytes.take n ++ List.replicate (w.bytes.length - n) 0) d.ram }.at w
      (.outUnlock (.error .efault) .none))
  else none

/-- The wait of the current job ends with its completion bit set. -/
def waitDone (d : QeduDev) (w : Write) : Option QeduDev :=
  match w.pc with
  | .echo .wait => if d.eventDma then some (d.at w .echoed) else none
  | .factorial input .wait =>
    if d.eventFactorial then some (d.at w (.factorial input .readResult)) else none
  | _ => none

/-- The wait of the current job ends by signal or timeout. -/
def waitAbort (d : QeduDev) (w : Write) (e : Errno) : Option QeduDev :=
  match w.pc with
  | .echo .wait => some (d.at w (.echo (.abort e)))
  | .factorial _ .wait => some (d.at w (.outUnlock (.error e) .factorial))
  | _ => none

/-! ## Interrupt handler, workers and removal -/

/-- The handler is entered and reads the interrupt status. -/
def irqEnter (d : QeduDev) : Option QeduDev :=
  if d.handler = .idle ∧ d.remove = .bound then
    if d.edu.irqFactorial ∨ d.edu.irqDma then
      some { d with handler := .ack d.edu.irqFactorial d.edu.irqDma }
    else some d
  else none

/-- What the handler still has to do once the factorial bit is served. -/
def HandlerPc.afterFactorial (dma : Bool) : HandlerPc :=
  if dma then .readStage else .idle

/-- One statement of `qedu_irq_handler` and `qedu_dma_irq_complete`. -/
def qeduIrqHandler (d : QeduDev) : Option QeduDev :=
  match d.handler with
  | .idle => none
  | .ack factorial dma =>
    some { d with
      edu := { d.edu with
        irqFactorial := d.edu.irqFactorial && !factorial
        irqDma := d.edu.irqDma && !dma }
      handler := if factorial then .publishFactorial dma else .afterFactorial dma }
  | .publishFactorial dma =>
    some { d with eventFactorial := true, handler := .afterFactorial dma }
  | .readStage =>
    some { d with
      handler :=
        if d.dmaWq then
          match d.dmaStage with
          | .toDevice => .queueWork .advance
          | .fromDevice => .queueWork .finish
          | .idle => .idle
        else .idle }
  | .queueWork work =>
    -- a work item that is already queued is not queued again
    some { d with
      pending := if work ∈ d.pending then d.pending else d.pending ++ [work]
      handler := .idle }

/-- The kworker takes the oldest queued work item. -/
def workStart (d : QeduDev) : Option QeduDev :=
  match d.worker, d.pending with
  | .idle, work :: rest => some { d with pending := rest, worker := work.start }
  | _, _ => none

/-- One statement of `qedu_dma_advance_work` or `qedu_dma_finish_work`. -/
def qeduDmaWork (d : QeduDev) : Option QeduDev :=
  match d.worker with
  | .idle => none
  | .advanceStage =>
    if d.dmaStage = .toDevice then
      some { d with dmaStage := .fromDevice, worker := .advanceClear }
    else some { d with worker := .idle }
  | .advanceClear =>
    some { d with ram := Buffer.clear d.dmaLen d.ram, worker := .advanceSrc }
  | .advanceSrc =>
    some { d with edu := d.edu.writeDmaSrc qeduDmaDevBuf, worker := .advanceDst }
  | .advanceDst =>
    some { d with edu := d.edu.writeDmaDst d.dmaAddr, worker := .advanceCnt }
  | .advanceCnt =>
    some { d with edu := d.edu.writeDmaCnt d.dmaLen, worker := .advanceCmd }
  | .advanceCmd =>
    some { d with edu := d.edu.writeDmaCmd ⟨true, true, true⟩, worker := .idle }
  | .finishStage =>
    if d.dmaStage = .fromDevice then
      some { d with dmaStage := .idle, worker := .finishPublish }
    else some { d with worker := .idle }
  | .finishPublish => some { d with eventDma := true, worker := .finishWake }
  | .finishWake => some { d with worker := .idle }

/-- One statement of `qedu_remove` under `rmmod`: `free_irq` waits for the handler, then
    `qedu_dma_exit`. -/
def qeduRemove (d : QeduDev) : Option QeduDev :=
  match d.remove with
  | .bound =>
    if d.waiting = [] ∧ d.holder.isNone ∧ d.handler = .idle then
      some { d with remove := .setIdle }
    else none
  | .setIdle => some { d with dmaStage := .idle, remove := .cancelAdvance }
  | .cancelAdvance =>
    (d.cancelWorkSync .advance).map fun d' => { d' with remove := .cancelFinish }
  | .cancelFinish =>
    (d.cancelWorkSync .finish).map fun d' => { d' with remove := .destroyWorkqueue }
  | .destroyWorkqueue =>
    if d.pending = [] ∧ d.worker = .idle then
      some { d with dmaWq := false, remove := .freeBuffer }
    else none
  | .freeBuffer => some { d with resultSize := 0, remove := .freed }
  | .freed => none

/-! ## The system -/

/-- Who moves, with the choices the environment makes. -/
inductive Act where
  /-- `write(2)` is called -/
  | enter (bytes : List UInt8)
  /-- `mutex_lock_interruptible` of the `i`-th waiting writer is interrupted -/
  | lockInterrupted (i : Nat)
  /-- the `i`-th waiting writer obtains the lock -/
  | lock (i : Nat)
  | write
  | copyFault (n : Nat)
  | waitDone
  | waitAbort (e : Errno)
  | irq
  | handler
  | workStart
  | work
  | dmaComplete
  | factorialComplete
  | remove
  deriving DecidableEq, Repr

/-- The lock is taken by the writer with these bytes. -/
def QeduDev.lockBy (d : QeduDev) (i : Nat) (bytes : List UInt8) : QeduDev :=
  { d with waiting := d.waiting.eraseIdx i, holder := some ⟨bytes, .locked⟩ }

/-- One step of the driver and its device. -/
def step (d : QeduDev) : Act → Option QeduDev
  | .enter bytes =>
    -- `qedu_write` returns 0 for an empty and -EMSGSIZE for an oversized write
    if d.remove = .bound then
      if bytes = [] ∨ qeduDmaSize ≤ bytes.length then some d
      else some { d with waiting := d.waiting ++ [bytes] }
    else none
  | .lockInterrupted i =>
    if i < d.waiting.length then some { d with waiting := d.waiting.eraseIdx i } else none
  | .lock i =>
    match d.holder, d.waiting[i]? with
    | none, some bytes => some (d.lockBy i bytes)
    | _, _ => none
  | .write => d.holder.bind (qeduWrite d)
  | .copyFault n => d.holder.bind (copyFault d · n)
  | .waitDone => d.holder.bind (waitDone d)
  | .waitAbort e => d.holder.bind (waitAbort d · e)
  | .irq => irqEnter d
  | .handler => qeduIrqHandler d
  | .workStart => workStart d
  | .work => qeduDmaWork d
  | .dmaComplete =>
    if d.edu.running then
      some { d with
        edu := (d.edu.completeDma d.dmaAddr d.ram).1
        ram := (d.edu.completeDma d.dmaAddr d.ram).2 }
    else none
  | .factorialComplete =>
    if d.edu.factBusy then some { d with edu := d.edu.completeFactorial } else none
  | .remove => qeduRemove d

/-- qedu from its probe on. -/
def qedu : System QeduDev Act where
  init d := ∃ dmaAddr selftest, d = probed dmaAddr selftest
  step := step

/-! ## What one step does

Each party gets one lemma that says everything a step of it can do. The invariants below
and in the modules on top are case analyses over these lemmas. -/

/-- `cancel_work_sync` returns when the work item is not running, and leaves it unqueued. -/
theorem QeduDev.cancelWorkSync_eq_some {d d' : QeduDev} {work : Work}
    (hs : d.cancelWorkSync work = some d') :
    d.worker.work ≠ some work ∧ d' = { d with pending := d.pending.filter (· ≠ work) } := by
  simp only [QeduDev.cancelWorkSync] at hs
  split at hs
  · cases hs
  · rename_i hwork
    exact ⟨hwork, (Option.some.inj hs).symm⟩

/-- Moves of the parties other than the writer that holds the lock. -/
def Act.background : Act → Bool
  | .enter _ | .lockInterrupted _ | .irq | .handler | .workStart | .work
  | .dmaComplete | .factorialComplete => true
  | .lock _ | .write | .copyFault _ | .waitDone | .waitAbort _ | .remove => false

/-- The stage in which a completion runs `w`. -/
def Work.stage : Work → DmaStage
  | .advance => .toDevice
  | .finish => .fromDevice

/-- What the moves of the other parties do, with the guards they have passed. -/
inductive BackgroundStep (d : QeduDev) : Act → QeduDev → Prop where
  /-- the write is refused -/
  | refused (bytes : List UInt8) : BackgroundStep d (.enter bytes) d
  | entered (bytes : List UInt8) :
      BackgroundStep d (.enter bytes) { d with waiting := d.waiting ++ [bytes] }
  | lockInterrupted (i : Nat) :
      BackgroundStep d (.lockInterrupted i) { d with waiting := d.waiting.eraseIdx i }
  /-- an interrupt of another device on the shared line -/
  | irqForeign : BackgroundStep d .irq d
  | irqTaken (pc : d.handler = .idle) :
      BackgroundStep d .irq { d with handler := .ack d.edu.irqFactorial d.edu.irqDma }
  | ack (factorial dma : Bool) (pc : d.handler = .ack factorial dma) :
      BackgroundStep d .handler { d with
        edu := { d.edu with
          irqFactorial := d.edu.irqFactorial && !factorial
          irqDma := d.edu.irqDma && !dma }
        handler := if factorial then .publishFactorial dma else .afterFactorial dma }
  | publishFactorial (dma : Bool) (pc : d.handler = .publishFactorial dma) :
      BackgroundStep d .handler { d with eventFactorial := true, handler := .afterFactorial dma }
  /-- the stage names the work item of the completion -/
  | stageRead (work : Work) (pc : d.handler = .readStage) (stage : d.dmaStage = work.stage) :
      BackgroundStep d .handler { d with handler := .queueWork work }
  /-- a completion in the idle stage, or without a workqueue, is dropped -/
  | stageDropped (pc : d.handler = .readStage)
      (dropped : d.dmaStage = .idle ∨ d.dmaWq = false) :
      BackgroundStep d .handler { d with handler := .idle }
  | queueWork (work : Work) (pc : d.handler = .queueWork work) :
      BackgroundStep d .handler { d with
        pending := if work ∈ d.pending then d.pending else d.pending ++ [work]
        handler := .idle }
  | workStart (work : Work) (rest : List Work) (idle : d.worker = .idle)
      (queued : d.pending = work :: rest) :
      BackgroundStep d .workStart { d with pending := rest, worker := work.start }
  | work {d' : QeduDev} (run : qeduDmaWork d = some d') : BackgroundStep d .work d'
  | dmaComplete (running : d.edu.running = true) :
      BackgroundStep d .dmaComplete { d with
        edu := (d.edu.completeDma d.dmaAddr d.ram).1
        ram := (d.edu.completeDma d.dmaAddr d.ram).2 }
  | factorialComplete (busy : d.edu.factBusy = true) :
      BackgroundStep d .factorialComplete { d with edu := d.edu.completeFactorial }

/-- The statements of the interrupt handler, read off its program counter. -/
theorem qeduIrqHandler_cases {d d' : QeduDev} (hs : qeduIrqHandler d = some d') :
    BackgroundStep d .handler d' := by
  cases hpc : d.handler with
  | idle => simp [qeduIrqHandler, hpc] at hs
  | ack factorial dma =>
    simp only [qeduIrqHandler, hpc, Option.some.injEq] at hs
    exact hs ▸ .ack factorial dma hpc
  | publishFactorial dma =>
    simp only [qeduIrqHandler, hpc, Option.some.injEq] at hs
    exact hs ▸ .publishFactorial dma hpc
  | readStage =>
    simp only [qeduIrqHandler, hpc, Option.some.injEq] at hs
    subst hs
    by_cases hwq : d.dmaWq = true
    · rw [if_pos hwq]
      split
      · rename_i hstage
        exact .stageRead .advance hpc hstage
      · rename_i hstage
        exact .stageRead .finish hpc hstage
      · rename_i hstage
        exact .stageDropped hpc (.inl hstage)
    · rw [if_neg hwq]
      exact .stageDropped hpc (.inr (Bool.eq_false_iff.mpr hwq))
  | queueWork work =>
    simp only [qeduIrqHandler, hpc, Option.some.injEq] at hs
    exact hs ▸ .queueWork work hpc

theorem background_cases {d d' : QeduDev} {a : Act} (ha : a.background = true)
    (hs : step d a = some d') : BackgroundStep d a d' := by
  cases a with
  | enter bytes =>
    simp only [step] at hs
    split at hs
    · split at hs <;> cases hs
      · exact .refused bytes
      · exact .entered bytes
    · cases hs
  | lockInterrupted i =>
    simp only [step] at hs
    split at hs <;> cases hs
    exact .lockInterrupted i
  | irq =>
    simp only [step, irqEnter] at hs
    split at hs
    · rename_i hidle
      split at hs <;> cases hs
      · exact .irqTaken hidle.1
      · exact .irqForeign
    · cases hs
  | handler => exact qeduIrqHandler_cases hs
  | workStart =>
    simp only [step, workStart] at hs
    split at hs <;> cases hs
    rename_i work rest hidle hpending
    exact .workStart work rest hidle hpending
  | work => exact .work hs
  | dmaComplete =>
    simp only [step] at hs
    split at hs <;> cases hs
    rename_i hrunning
    exact .dmaComplete hrunning
  | factorialComplete =>
    simp only [step] at hs
    split at hs <;> cases hs
    rename_i hbusy
    exact .factorialComplete hbusy
  | _ => simp [Act.background] at ha

/-- What a worker statement leaves alone: everything but the transfer registers, the
    coherent buffer, the stage, the DMA completion bit and its own program counter. -/
structure WorkFrame (d d' : QeduDev) : Prop where
  handler : d'.handler = d.handler
  pending : d'.pending = d.pending
  holder : d'.holder = d.holder
  waiting : d'.waiting = d.waiting
  remove : d'.remove = d.remove
  wq : d'.dmaWq = d.dmaWq
  size : d'.resultSize = d.resultSize
  eventFactorial : d'.eventFactorial = d.eventFactorial
  irqDma : d'.edu.irqDma = d.edu.irqDma
  irqFactorial : d'.edu.irqFactorial = d.edu.irqFactorial
  fact : d'.edu.fact = d.edu.fact
  factBusy : d'.edu.factBusy = d.edu.factBusy

theorem qeduDmaWork_frame {d d' : QeduDev} (hs : qeduDmaWork d = some d') : WorkFrame d d' := by
  simp only [qeduDmaWork, Edu.writeDmaSrc, Edu.writeDmaDst, Edu.writeDmaCnt,
    Edu.writeDmaCmd] at hs
  -- only the register writes and the two `cmpxchg` branch further
  repeat' split at hs
  all_goals cases hs
  all_goals exact ⟨rfl, rfl, rfl, rfl, rfl, rfl, rfl, rfl, rfl, rfl, rfl, rfl⟩

/-- What a statement of `qedu_remove` leaves alone, and what it may do to the DMA path. -/
structure RemoveFrame (d d' : QeduDev) : Prop where
  edu : d'.edu = d.edu
  worker : d'.worker = d.worker
  handler : d'.handler = d.handler
  holder : d'.holder = d.holder
  waiting : d'.waiting = d.waiting
  stage : d'.dmaStage = d.dmaStage ∨ d'.dmaStage = .idle
  pending : ∀ w ∈ d'.pending, w ∈ d.pending
  /-- removal starts only when no write is in progress -/
  started : d.remove = .bound → d.holder = none ∧ d.waiting = []
  removing : d'.remove ≠ .bound

theorem qeduRemove_frame {d d' : QeduDev} (hs : qeduRemove d = some d') : RemoveFrame d d' := by
  cases hr : d.remove with
  | bound =>
    simp only [qeduRemove, hr] at hs
    split at hs <;> cases hs
    rename_i hfree
    exact ⟨rfl, rfl, rfl, rfl, rfl, .inl rfl, fun _ => id,
      fun _ => ⟨Option.isNone_iff_eq_none.mp hfree.2.1, hfree.1⟩, by simp⟩
  | setIdle =>
    simp only [qeduRemove, hr, Option.some.injEq] at hs
    subst hs
    exact ⟨rfl, rfl, rfl, rfl, rfl, .inr rfl, fun _ => id, by simp [hr], by simp⟩
  | cancelAdvance =>
    simp only [qeduRemove, hr] at hs
    obtain ⟨e, hcancel, rfl⟩ := Option.map_eq_some_iff.mp hs
    obtain ⟨-, rfl⟩ := QeduDev.cancelWorkSync_eq_some hcancel
    exact ⟨rfl, rfl, rfl, rfl, rfl, .inl rfl, fun _ hw => List.mem_of_mem_filter hw,
      by simp [hr], by simp⟩
  | cancelFinish =>
    simp only [qeduRemove, hr] at hs
    obtain ⟨e, hcancel, rfl⟩ := Option.map_eq_some_iff.mp hs
    obtain ⟨-, rfl⟩ := QeduDev.cancelWorkSync_eq_some hcancel
    exact ⟨rfl, rfl, rfl, rfl, rfl, .inl rfl, fun _ hw => List.mem_of_mem_filter hw,
      by simp [hr], by simp⟩
  | destroyWorkqueue =>
    simp only [qeduRemove, hr] at hs
    split at hs <;> cases hs
    exact ⟨rfl, rfl, rfl, rfl, rfl, .inl rfl, fun _ => id, by simp [hr], by simp⟩
  | freeBuffer =>
    simp only [qeduRemove, hr, Option.some.injEq] at hs
    subst hs
    exact ⟨rfl, rfl, rfl, rfl, rfl, .inl rfl, fun _ => id, by simp [hr], by simp⟩
  | freed => simp [qeduRemove, hr] at hs

/-! ## Removal excludes writers -/

/-- While the driver is bound its workqueue exists; once removal has begun no write holds
    the lock or waits for it. -/
structure Lifecycle (d : QeduDev) : Prop where
  bound : d.remove = .bound → d.dmaWq = true
  removing : d.remove ≠ .bound → d.holder = none ∧ d.waiting = []

/-- A writer holds the lock of a bound device only. -/
theorem Lifecycle.bound_of_holder {d : QeduDev} {w : Write} (h : Lifecycle d)
    (hw : d.holder = some w) : d.remove = .bound := by
  by_contra hne
  simp [(h.removing hne).1] at hw

/-- A waiting writer keeps the device bound. -/
theorem Lifecycle.bound_of_waiting {d : QeduDev} {i : Nat} {bytes : List UInt8}
    (h : Lifecycle d) (hw : d.waiting[i]? = some bytes) : d.remove = .bound := by
  by_contra hne
  simp [(h.removing hne).2] at hw

theorem lifecycle_probed (dmaAddr : Nat) (selftest : Bool) :
    Lifecycle (probed dmaAddr selftest) :=
  ⟨fun _ => rfl, fun h => absurd rfl h⟩

/-- A step of a bound device that neither unbinds it nor frees its workqueue. -/
theorem Lifecycle.of_bound {d d' : QeduDev} (h : Lifecycle d) (hbound : d.remove = .bound)
    (hremove : d'.remove = d.remove) (hwq : d'.dmaWq = d.dmaWq) : Lifecycle d' :=
  ⟨fun _ => hwq.trans (h.bound hbound), fun hne => absurd (hremove.trans hbound) hne⟩

/-- A statement of the lock holder changes nothing of the life cycle. -/
theorem qeduWrite_lifecycle {d d' : QeduDev} {w : Write} (hs : qeduWrite d w = some d') :
    d'.remove = d.remove ∧ d'.dmaWq = d.dmaWq := by
  obtain ⟨bytes, pc⟩ := w
  cases pc with
  | parse =>
    simp only [qeduWrite] at hs
    split at hs <;> cases hs <;> exact ⟨rfl, rfl⟩
  | factorial input pc =>
    cases pc with
    | wait => cases hs
    | _ =>
      cases hs
      exact ⟨rfl, rfl⟩
  | echo pc =>
    cases pc with
    | wait => cases hs
    | cancelAdvance e =>
      obtain ⟨d₁, hcancel, rfl⟩ := Option.map_eq_some_iff.mp hs
      obtain ⟨-, rfl⟩ := QeduDev.cancelWorkSync_eq_some hcancel
      exact ⟨rfl, rfl⟩
    | cancelFinish e =>
      obtain ⟨d₁, hcancel, rfl⟩ := Option.map_eq_some_iff.mp hs
      obtain ⟨-, rfl⟩ := QeduDev.cancelWorkSync_eq_some hcancel
      exact ⟨rfl, rfl⟩
    | _ =>
      cases hs
      exact ⟨rfl, rfl⟩
  | _ =>
    cases hs
    exact ⟨rfl, rfl⟩

theorem background_lifecycle {d d' : QeduDev} {a : Act} (h : Lifecycle d)
    (ha : a.background = true) (hs : step d a = some d') : Lifecycle d' := by
  cases background_cases ha hs with
  | entered bytes =>
    -- a write is entered only while the device is bound
    have hbound : d.remove = .bound := by
      by_contra hne
      simp [step, hne] at hs
    exact h.of_bound hbound rfl rfl
  | lockInterrupted i =>
    refine ⟨h.bound, fun hne => ?_⟩
    obtain ⟨hholder, hwaiting⟩ := h.removing hne
    exact ⟨hholder, by simp [hwaiting]⟩
  | work hrun =>
    have e := qeduDmaWork_frame hrun
    exact ⟨fun hb => e.wq.trans (h.bound (e.remove ▸ hb)), fun hne =>
      e.holder ▸ e.waiting ▸ h.removing (e.remove ▸ hne)⟩
  | _ => exact ⟨h.bound, h.removing⟩

theorem lifecycle_step {d d' : QeduDev} {a : Act} (h : Lifecycle d)
    (hs : step d a = some d') : Lifecycle d' := by
  by_cases ha : a.background = true
  · exact background_lifecycle h ha hs
  · cases a with
    | lock i =>
      simp only [step] at hs
      split at hs <;> cases hs
      rename_i hwaiting
      exact h.of_bound (h.bound_of_waiting hwaiting) rfl rfl
    | write =>
      obtain ⟨w, hw, hs⟩ := Option.bind_eq_some_iff.mp hs
      obtain ⟨hremove, hwq⟩ := qeduWrite_lifecycle hs
      exact h.of_bound (h.bound_of_holder hw) hremove hwq
    | copyFault n =>
      obtain ⟨w, hw, hs⟩ := Option.bind_eq_some_iff.mp hs
      simp only [copyFault] at hs
      split at hs <;> cases hs
      exact h.of_bound (h.bound_of_holder hw) rfl rfl
    | waitDone =>
      obtain ⟨w, hw, hs⟩ := Option.bind_eq_some_iff.mp hs
      simp only [waitDone] at hs
      repeat' split at hs
      all_goals cases hs
      all_goals exact h.of_bound (h.bound_of_holder hw) rfl rfl
    | waitAbort e =>
      obtain ⟨w, hw, hs⟩ := Option.bind_eq_some_iff.mp hs
      simp only [waitAbort] at hs
      split at hs <;> cases hs <;> exact h.of_bound (h.bound_of_holder hw) rfl rfl
    | remove =>
      have e := qeduRemove_frame hs
      refine ⟨fun hb => absurd hb e.removing, fun _ => ?_⟩
      rw [e.holder, e.waiting]
      by_cases hb : d.remove = .bound
      · exact e.started hb
      · exact h.removing hb
    | _ => simp [Act.background] at ha

/-- The lock is free while the driver is being removed. -/
theorem qeduRemove_holder {d d' : QeduDev} (h : Lifecycle d) (hs : qeduRemove d = some d') :
    d.holder = none ∧ d'.holder = none := by
  have e := qeduRemove_frame hs
  have hfree : d.holder = none := by
    by_cases hb : d.remove = .bound
    · exact (e.started hb).1
    · exact (h.removing hb).1
  exact ⟨hfree, e.holder.trans hfree⟩

end LinuxMaxxing.Io
