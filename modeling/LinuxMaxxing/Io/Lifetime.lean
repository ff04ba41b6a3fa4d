import LinuxMaxxing.Io.Qedu

/-!
# The Lifetime of the Coherent Buffer

`qedu` starts with a probed device and removes the driver between two writes. The coherent buffer
lives longer than that. `qedu_probe` runs its self-tests on it before `/dev/qedu` exists, and may
give up after them. And nothing makes `qedu_remove` wait for a write: an open file keeps the module
loaded, but its device can still be unbound or unplugged.

- `qeduProbe`, `qeduProbeFails`: `qedu_probe` from the allocation of the buffer on;
- `qeduTeardown`: `qedu_remove` and the error path of `qedu_probe`, down to `dma_free_coherent`;
- `lifetime`: the steps of `qedu` between the two.
-/

namespace LinuxMaxxing.Io

open LinuxMaxxing.Lib

/-- Next statement of `qedu_probe` behind `qedu_dma_init`: the self-tests of the registers, of the
    interrupt and of the DMA engine, and `qedu_chrdev_init`. -/
inductive ProbePc where
  | writeFactorial
  | pollFactorial
  | raiseIrq
  | storePattern
  | writeSrc
  | writeDst
  | writeCnt
  | writeCmd
  | pollDma
  | register
  /-- `/dev/qedu` is registered -/
  | ready
  /-- the error path -/
  | failed
  deriving DecidableEq, Repr

/-- `struct qedu_dev` from `qedu_dma_init` to `qedu_dma_exit`. -/
structure Lifetime where
  probe : ProbePc
  dev : QeduDev

/-- The probe goes on at `pc`, with these registers. -/
def Lifetime.at (l : Lifetime) (pc : ProbePc) (edu : Edu) : Lifetime :=
  ⟨pc, { l.dev with edu := edu }⟩

/-- One statement of `qedu_probe`. A poll is left when the device is done. -/
def qeduProbe (l : Lifetime) : Option Lifetime :=
  match l.probe with
  | .writeFactorial => some (l.at .pollFactorial (l.dev.edu.writeFactorial 10))
  | .pollFactorial => if l.dev.edu.factBusy then none else some { l with probe := .raiseIrq }
  | .raiseIrq => some (l.at .storePattern { l.dev.edu with irqFactorial := true })
  | .storePattern =>
    some ⟨.writeSrc, { l.dev with ram := Buffer.store [0x11, 0x22, 0x33, 0x44] l.dev.ram }⟩
  | .writeSrc => some (l.at .writeDst (l.dev.edu.writeDmaSrc l.dev.dmaAddr))
  | .writeDst => some (l.at .writeCnt (l.dev.edu.writeDmaDst qeduDmaDevBuf))
  | .writeCnt => some (l.at .writeCmd (l.dev.edu.writeDmaCnt 4))
  | .writeCmd => some (l.at .pollDma (l.dev.edu.writeDmaCmd ⟨true, false, false⟩))
  | .pollDma => if l.dev.edu.running then none else some { l with probe := .register }
  | .register => some { l with probe := .ready }
  | .ready | .failed => none

/-- A poll of `qedu_probe` times out, the device being busy at the last read, or `misc_register`
    fails. -/
def qeduProbeFails (l : Lifetime) : Option Lifetime :=
  match l.probe with
  | .pollFactorial => if l.dev.edu.factBusy then some { l with probe := .failed } else none
  | .pollDma => if l.dev.edu.running then some { l with probe := .failed } else none
  | .register => some { l with probe := .failed }
  | _ => none

/-- One statement of `qedu_remove`, or of the error path of `qedu_probe`: `free_irq` waits for the
    handler, and nothing waits for the writes of open files. -/
def qeduTeardown (d : QeduDev) : Option QeduDev :=
  match d.remove with
  | .bound => if d.handler = .idle then some { d with remove := .setIdle } else none
  | _ => qeduRemove d

/-- Who moves. -/
inductive LifeAct where
  | probe
  | probeFails
  | drive (a : Act)
  deriving DecidableEq, Repr

/-- A step of the driver and its device; the last one is `dma_free_coherent`. -/
def lifeStep (l : Lifetime) : LifeAct → Option Lifetime
  | .probe => qeduProbe l
  | .probeFails => qeduProbeFails l
  | .drive (.enter bytes) =>
    -- a file that was opened in time can be written to as long as the device exists
    if l.probe = .ready ∧ l.dev.remove ≠ .freed then
      if bytes = [] ∨ qeduDmaSize ≤ bytes.length then some l
      else some { l with dev := { l.dev with waiting := l.dev.waiting ++ [bytes] } }
    else none
  | .drive .remove =>
    if l.probe = .ready ∨ l.probe = .failed then
      (qeduTeardown l.dev).map fun dev => { l with dev := dev }
    else none
  | .drive a =>
    if l.dev.remove = .freed then none else (step l.dev a).map fun dev => { l with dev := dev }

/-- A device that runs no transfer when the buffer is allocated, whatever its registers hold; the
    self-tests are run or not. -/
def lifetime : System Lifetime LifeAct where
  init l := ∃ (dmaAddr : Nat) (edu : Edu) (selftest : Bool), edu.running = false ∧
    l = ⟨if selftest then .writeFactorial else .register, { probed dmaAddr false with edu := edu }⟩
  step := lifeStep

end LinuxMaxxing.Io
