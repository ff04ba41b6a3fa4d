import LinuxMaxxing.Io.DmaPhases

/-!
# The Factorial Job Reads Its Own Result

`qedu_factorial_job` clears the completion bit, submits its input and reads the result
register once the interrupt handler has set the bit again. The bit carries no job identity:
the completion of a job that timed out can set it for the next one, whose input the busy
engine has ignored (`factorial_reads_foreign_result`).

Under `FactorialSafe` (a job clears the bit while the engine is idle, no factorial interrupt
is latched and the handler carries none) the value read is the factorial of the job's own
input (`factorial_reads_own_result`).
-/

namespace LinuxMaxxing.Io

open LinuxMaxxing.Lib

/-! ## The condition on the steps -/

/-- The handler will not set the factorial completion bit. -/
def HandlerPc.noFactorial : HandlerPc → Bool
  | .ack factorial _ => !factorial
  | .publishFactorial _ => false
  | _ => true

/-- No factorial is being computed and no factorial completion is on its way. -/
structure FactorialClean (d : QeduDev) : Prop where
  idle : d.edu.factBusy = false
  irq : d.edu.irqFactorial = false
  handler : d.handler.noFactorial = true

instance (d : QeduDev) : Decidable (FactorialClean d) :=
  decidable_of_iff
    (d.edu.factBusy = false ∧ d.edu.irqFactorial = false ∧ d.handler.noFactorial = true)
    ⟨fun h => ⟨h.1, h.2.1, h.2.2⟩, fun h => ⟨h.idle, h.irq, h.handler⟩⟩

/-- A factorial job is about to clear its completion bit. -/
def WritePc.clearingFactorial : WritePc → Bool
  | .factorial _ .clearEvent => true
  | _ => false

/-- A step does not mix a factorial job with what an earlier job left behind. -/
def FactorialSafe (d : QeduDev) (a : Act) : Prop :=
  a = .write → ∀ w ∈ d.holder, w.pc.clearingFactorial = true → FactorialClean d

instance (d : QeduDev) (a : Act) : Decidable (FactorialSafe d a) :=
  inferInstanceAs (Decidable (_ → _))

/-! ## The invariant of a job -/

/-- The engine is computing the factorial of `input` and nothing has been signalled. -/
structure Computing (input : Nat) (d : QeduDev) : Prop where
  busy : d.edu.factBusy = true
  operand : d.edu.fact = input
  irq : d.edu.irqFactorial = false
  handler : d.handler.noFactorial = true
  event : d.eventFactorial = false

/-- The result register holds the factorial of `input`. -/
structure Computed (input : Nat) (d : QeduDev) : Prop where
  idle : d.edu.factBusy = false
  result : d.edu.fact = Edu.factorialResult input

/-- What holds while a writer is at `pc`. -/
def FactorialAt (d : QeduDev) : WritePc → Prop
  | .factorial _ .enableIrq | .factorial _ .writeInput =>
    FactorialClean d ∧ d.eventFactorial = false
  | .factorial input .wait => Computing input d ∨ Computed input d
  | .factorial input .readResult => Computed input d
  | .format input result => result = Edu.factorialResult input
  | _ => True

def FactorialInv (d : QeduDev) : Prop := ∀ w, d.holder = some w → FactorialAt d w.pc

section Steps

variable {d d' : QeduDev} {a : Act} {input : Nat}

/-! ## Moves of the other parties -/

/-- The fields of the factorial path the DMA engine and the worker leave alone. -/
structure SameFactorial (d d' : QeduDev) : Prop where
  busy : d'.edu.factBusy = d.edu.factBusy
  fact : d'.edu.fact = d.edu.fact
  irq : d'.edu.irqFactorial = d.edu.irqFactorial
  handler : d'.handler = d.handler
  event : d'.eventFactorial = d.eventFactorial

theorem sameFactorial_step (ha : a.background = true) (hirq : a ≠ .irq) (hhandler : a ≠ .handler)
    (hfact : a ≠ .factorialComplete) (hs : step d a = some d') : SameFactorial d d' := by
  cases background_cases ha hs with
  | irqForeign => exact absurd rfl hirq
  | irqTaken _ => exact absurd rfl hirq
  | ack _ _ _ => exact absurd rfl hhandler
  | publishFactorial _ _ => exact absurd rfl hhandler
  | stageRead _ _ _ => exact absurd rfl hhandler
  | stageDropped _ _ => exact absurd rfl hhandler
  | queueWork _ _ => exact absurd rfl hhandler
  | work hrun =>
    have e := qeduDmaWork_frame hrun
    exact ⟨e.factBusy, e.fact, e.irqFactorial, e.handler, e.eventFactorial⟩
  | factorialComplete _ => exact absurd rfl hfact
  | _ => exact ⟨rfl, rfl, rfl, rfl, rfl⟩

/-- With no factorial interrupt latched or carried, the interrupt path leaves the factorial
    path alone. -/
theorem interrupt_noFactorial (hirq : d.edu.irqFactorial = false)
    (hhandler : d.handler.noFactorial = true) (ha : a = .irq ∨ a = .handler)
    (hs : step d a = some d') :
    d'.handler.noFactorial = true ∧
      SameFactorial { d with handler := d'.handler } d' := by
  obtain rfl | rfl := ha
  · cases background_cases rfl hs with
    | irqForeign => exact ⟨hhandler, ⟨rfl, rfl, rfl, rfl, rfl⟩⟩
    | irqTaken _ => exact ⟨by simp [HandlerPc.noFactorial, hirq], ⟨rfl, rfl, rfl, rfl, rfl⟩⟩
  · cases background_cases rfl hs with
    | ack factorial dma pc =>
      obtain rfl : factorial = false := by simpa [pc, HandlerPc.noFactorial] using hhandler
      exact ⟨by cases dma <;> rfl, ⟨rfl, rfl, by simp, rfl, rfl⟩⟩
    | publishFactorial dma pc => simp [pc, HandlerPc.noFactorial] at hhandler
    | stageRead _ _ _ => exact ⟨rfl, ⟨rfl, rfl, rfl, rfl, rfl⟩⟩
    | stageDropped _ _ => exact ⟨rfl, ⟨rfl, rfl, rfl, rfl, rfl⟩⟩
    | queueWork _ _ => exact ⟨rfl, ⟨rfl, rfl, rfl, rfl, rfl⟩⟩

theorem FactorialClean.background_step (h : FactorialClean d) (hevent : d.eventFactorial = false)
    (ha : a.background = true) (hs : step d a = some d') :
    FactorialClean d' ∧ d'.eventFactorial = false := by
  obtain ⟨h1, h2, h3⟩ := h
  by_cases hint : a = .irq ∨ a = .handler
  · obtain ⟨hh, e⟩ := interrupt_noFactorial h2 h3 hint hs
    exact ⟨⟨e.busy.trans h1, e.irq.trans h2, hh⟩, e.event.trans hevent⟩
  · have hfact : a ≠ .factorialComplete := by
      rintro rfl
      simp [step, h1] at hs
    have e := sameFactorial_step ha (fun h => hint (.inl h)) (fun h => hint (.inr h)) hfact hs
    exact ⟨⟨e.busy.trans h1, e.irq.trans h2, e.handler ▸ h3⟩, e.event.trans hevent⟩

theorem Computed.background_step (h : Computed input d) (ha : a.background = true)
    (hs : step d a = some d') : Computed input d' := by
  obtain ⟨h1, h2⟩ := h
  cases background_cases ha hs with
  | work hrun =>
    have e := qeduDmaWork_frame hrun
    exact ⟨e.factBusy.trans h1, e.fact.trans h2⟩
  | factorialComplete hbusy => simp [h1] at hbusy
  | _ => exact ⟨h1, h2⟩

theorem Computing.background_step (h : Computing input d) (ha : a.background = true)
    (hs : step d a = some d') : Computing input d' ∨ Computed input d' := by
  obtain ⟨h1, h2, h3, h4, h5⟩ := h
  by_cases hint : a = .irq ∨ a = .handler
  · obtain ⟨hh, e⟩ := interrupt_noFactorial h3 h4 hint hs
    exact .inl ⟨e.busy.trans h1, e.fact.trans h2, e.irq.trans h3, hh, e.event.trans h5⟩
  by_cases hfact : a = .factorialComplete
  · subst hfact
    simp only [step, h1, if_true, Option.some.injEq] at hs
    subst hs
    exact .inr ⟨rfl, by simp [Edu.completeFactorial, h2]⟩
  · have e := sameFactorial_step ha (fun h => hint (.inl h)) (fun h => hint (.inr h)) hfact hs
    exact .inl ⟨e.busy.trans h1, e.fact.trans h2, e.irq.trans h3, e.handler ▸ h4,
      e.event.trans h5⟩

theorem FactorialAt.background_step {pc : WritePc} (h : FactorialAt d pc)
    (ha : a.background = true) (hs : step d a = some d') : FactorialAt d' pc := by
  cases pc with
  | factorial input pc =>
    cases pc with
    | clearEvent => trivial
    | enableIrq => exact FactorialClean.background_step h.1 h.2 ha hs
    | writeInput => exact FactorialClean.background_step h.1 h.2 ha hs
    | wait =>
      exact Or.elim h (fun h => h.background_step ha hs) (fun h => .inr (h.background_step ha hs))
    | readResult => exact Computed.background_step h ha hs
  | format input result => exact h
  | _ => trivial

/-! ## Statements of the writer -/

theorem factorialInv_at {w : Write} (pc : WritePc) (h : FactorialAt (d.at w pc) pc) :
    FactorialInv (d.at w pc) := by
  intro w' hw'
  cases hw'
  exact h

theorem qeduDmaEchoJob_factorialInv {w : Write} {pc : EchoPc}
    (hs : qeduDmaEchoJob d w pc = some d') : FactorialInv d' := by
  cases pc with
  | wait => cases hs
  | cancelAdvance e =>
    obtain ⟨d₁, -, rfl⟩ := Option.map_eq_some_iff.mp hs
    exact factorialInv_at _ trivial
  | cancelFinish e =>
    obtain ⟨d₁, -, rfl⟩ := Option.map_eq_some_iff.mp hs
    exact factorialInv_at _ trivial
  | _ =>
    cases hs
    exact factorialInv_at _ trivial

theorem qeduFactorialJob_factorialInv {w : Write} {pc : FactorialPc}
    (h : FactorialAt d (.factorial input pc))
    (hclean : pc = .clearEvent → FactorialClean d)
    (hs : qeduFactorialJob d w input pc = some d') : FactorialInv d' := by
  cases pc with
  | clearEvent =>
    cases hs
    obtain ⟨h1, h2, h3⟩ := hclean rfl
    exact factorialInv_at _ ⟨⟨h1, h2, h3⟩, rfl⟩
  | enableIrq =>
    cases hs
    obtain ⟨⟨h1, h2, h3⟩, h4⟩ := h
    exact factorialInv_at _ ⟨⟨h1, h2, h3⟩, h4⟩
  | writeInput =>
    cases hs
    obtain ⟨⟨h1, h2, h3⟩, h4⟩ := h
    refine factorialInv_at _ (.inl ?_)
    simp only [Edu.writeFactorial, h1, QeduDev.at]
    exact ⟨rfl, rfl, h2, h3, h4⟩
  | wait => cases hs
  | readResult =>
    cases hs
    exact factorialInv_at _ h.result

theorem qeduWrite_factorialInv {w : Write} (h : FactorialAt d w.pc)
    (hclean : w.pc.clearingFactorial = true → FactorialClean d)
    (hs : qeduWrite d w = some d') : FactorialInv d' := by
  obtain ⟨bytes, pc⟩ := w
  cases pc with
  | parse =>
    simp only [qeduWrite] at hs
    split at hs <;> cases hs <;> exact factorialInv_at _ trivial
  | factorial input pc =>
    refine qeduFactorialJob_factorialInv h (fun hpc => hclean ?_) hs
    simp [hpc, WritePc.clearingFactorial]
  | echo pc => exact qeduDmaEchoJob_factorialInv hs
  | outUnlock ret engine =>
    cases hs
    intro w hw
    cases hw
  | _ =>
    cases hs
    exact factorialInv_at _ trivial

/-- A wait that sees the completion bit has a finished result to read. -/
theorem waitDone_factorialInv {w : Write} (h : FactorialAt d w.pc)
    (hs : waitDone d w = some d') : FactorialInv d' := by
  simp only [waitDone] at hs
  split at hs
  · split at hs
    · cases hs
      exact factorialInv_at _ trivial
    · cases hs
  · rename_i input hpc
    split at hs
    · rename_i hevent
      cases hs
      rw [hpc] at h
      refine factorialInv_at _ ?_
      obtain hcomputing | hcomputed := h
      · simp [hcomputing.event] at hevent
      · exact ⟨hcomputed.idle, hcomputed.result⟩
    · cases hs
  · cases hs

/-! ## Runs -/

theorem factorialInv_step (hlife : Lifecycle d) (h : FactorialInv d) (hok : FactorialSafe d a)
    (hs : step d a = some d') : FactorialInv d' := by
  by_cases ha : a.background = true
  · intro w hw
    exact (h w ((background_sameWriter ha hs).holder ▸ hw)).background_step ha hs
  · cases a with
    | lock i =>
      simp only [step] at hs
      split at hs
      · cases hs
        intro w hw
        cases hw
        trivial
      · cases hs
    | write =>
      obtain ⟨w, hw, hs⟩ := Option.bind_eq_some_iff.mp hs
      exact qeduWrite_factorialInv (h w hw) (hok rfl w hw) hs
    | copyFault n =>
      obtain ⟨w, hw, hs⟩ := Option.bind_eq_some_iff.mp hs
      simp only [copyFault] at hs
      split at hs
      · cases hs
        exact factorialInv_at _ trivial
      · cases hs
    | waitDone =>
      obtain ⟨w, hw, hs⟩ := Option.bind_eq_some_iff.mp hs
      exact waitDone_factorialInv (h w hw) hs
    | waitAbort e =>
      obtain ⟨w, hw, hs⟩ := Option.bind_eq_some_iff.mp hs
      simp only [waitAbort] at hs
      split at hs <;> cases hs <;> exact factorialInv_at _ trivial
    | remove =>
      intro w hw
      simp [(qeduRemove_holder hlife hs).2] at hw
    | _ => simp [Act.background] at ha

end Steps

theorem reach_factorialInv {d : QeduDev} (h : qedu.Reach FactorialSafe d) : FactorialInv d := by
  suffices hboth : Lifecycle d ∧ FactorialInv d from hboth.2
  refine h.invariant (fun d => Lifecycle d ∧ FactorialInv d) (fun s hs => ?_)
    (fun s a s' hinv hok hs => ?_)
  · obtain ⟨dmaAddr, selftest, rfl⟩ := hs
    refine ⟨lifecycle_probed dmaAddr selftest, fun w hw => ?_⟩
    simp [probed] at hw
  · exact ⟨lifecycle_step hinv.1 hs, factorialInv_step hinv.1 hinv.2 hok hs⟩

/-- When `qedu_factorial_job` returns 0 for `input`, the value it has read is the factorial
    of `input`. -/
def ReadsOwnFactorial (d : QeduDev) : Prop :=
  ∀ w input result, d.holder = some w → w.pc = .format input result →
    result = Edu.factorialResult input

/-- **Own result**: in every run of `FactorialSafe` steps, a factorial job that succeeds has
    read the result of its own input. -/
theorem factorial_reads_own_result {d : QeduDev} (h : qedu.Reach FactorialSafe d) :
    ReadsOwnFactorial d := by
  intro w input result hw hpc
  have hat := reach_factorialInv h w hw
  rw [hpc] at hat
  exact hat

/-- The statements of a factorial job up to its wait. -/
def factorialSubmitRun (bytes : List UInt8) : List Act :=
  [.enter bytes, .lock 0] ++ List.replicate 7 .write

/-- The engine ends, its interrupt is handled, and the job reads the result register. -/
def factorialResultRun : List Act :=
  [.factorialComplete, .irq, .handler, .handler, .waitDone, .write]

/-- A factorial job on its own meets the condition and reads 3! -/
theorem factorial_reads_own_result_three :
    ∃ d, qedu.Reach FactorialSafe d ∧ d.holder = some ⟨[51, 10], .format 3 6⟩ ∧
      ReadsOwnFactorial d := by
  obtain ⟨d, hrun, hheld⟩ :
      ∃ d ∈ qedu.exec (probed 0x1000 false) (factorialSubmitRun [51, 10] ++ factorialResultRun),
        d.holder = some ⟨[51, 10], .format 3 6⟩ := by decide +kernel
  have hreach : qedu.Reach FactorialSafe d :=
    System.Reach.exec (.init ⟨0x1000, false, rfl⟩) (by decide +kernel) hrun
  exact ⟨d, hreach, hheld, factorial_reads_own_result hreach⟩

/-- **The defect**: a job that times out leaves its computation behind; the next job's input
    is ignored by the busy engine, and it returns the factorial of the first input. -/
theorem factorial_reads_foreign_result :
    ¬ ∀ d, qedu.Reachable d → ReadsOwnFactorial d := by
  intro hall
  obtain ⟨d, hrun, hheld⟩ :
      ∃ d ∈ qedu.exec (probed 0x1000 false)
          (factorialSubmitRun [51, 10] ++ [.waitAbort .etimedout, .write] ++
            factorialSubmitRun [52, 10] ++ factorialResultRun),
        d.holder = some ⟨[52, 10], .format 4 6⟩ := by decide +kernel
  have hreach : qedu.Reachable d := System.reachable_of_exec ⟨0x1000, false, rfl⟩ hrun
  have hresult := hall d hreach _ 4 6 hheld rfl
  exact absurd hresult (by decide)

end LinuxMaxxing.Io
