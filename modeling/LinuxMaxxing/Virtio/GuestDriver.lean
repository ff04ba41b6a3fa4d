import LinuxMaxxing.Virtio.QueueService
import LinuxMaxxing.Virtio.Vmm

/-!
# The Guest Driver

`guest.S`, the driver on the other side of the transport, instruction by instruction, and the
whole experiment: the guest on its vCPU, the VMM of `vmm.c` around it with its worker thread, and
the interrupt controller between the worker and the guest.

- `Insn`: one access of the guest to a register, to memory or to a port, with the register
  instructions and the branch that belong to it;
- `block`: the code at each label;
- `Pic`: the master interrupt controller that KVM provides, as far as its input 5 is concerned;
- `Experiment`: the state of everything, with what `main` counts;
- `experiment`: who moves next is arbitrary, as is whether a system call fails;
- `mainResult`: the checks at the end of `main`;
- `experiment_refines_vmm`: the VMM in it is the one of `Vmm`, next to this guest.

The switch to protected mode, the fences (every access here takes effect at once) and the guest's
stack, which nothing else uses, are left out, and so are the messages.
-/

namespace LinuxMaxxing.Virtio

open LinuxMaxxing.Lib

/-! ## Constants -/

def virtioGuestIdtGpa : Nat := 0x1000
def virtioGuestIdtSize : Nat := 0x1000
def virtioGuestCompletionGpa : Nat := 0x1ffc
def virtqPageSize : Nat := 0x1000
def virtioPollLimit : Nat := 1000000
def virtioIoeventfdDescIndex : Nat := 5
def virtqAvailFlagsOffset : Nat := 0

def virtioTestSuccessPort : BitVec 8 := 0x82#8
def virtioTestFailurePort : BitVec 8 := 0x83#8

def virtioIrqGsi : Nat := 5
def virtioPicMasterVectorBase : BitVec 8 := 0x20#8
def virtioPicSlaveVectorBase : BitVec 8 := 0x28#8
def virtioIrqVector : Nat := virtioPicMasterVectorBase.toNat + virtioIrqGsi

/-- The offset of a register. -/
def Register.offset : Register → BitVec 32
  | .magicValue => 0x000#32
  | .version => 0x004#32
  | .deviceId => 0x008#32
  | .vendorId => 0x00c#32
  | .deviceFeatures => 0x010#32
  | .deviceFeaturesSel => 0x014#32
  | .driverFeatures => 0x020#32
  | .driverFeaturesSel => 0x024#32
  | .queueSel => 0x030#32
  | .queueSizeMax => 0x034#32
  | .queueSize => 0x038#32
  | .queueReady => 0x044#32
  | .queueNotify => 0x050#32
  | .interruptStatus => 0x060#32
  | .interruptAck => 0x064#32
  | .status => 0x070#32
  | .queueDescLow => 0x080#32
  | .queueDescHigh => 0x084#32
  | .queueDriverLow => 0x090#32
  | .queueDriverHigh => 0x094#32
  | .queueDeviceLow => 0x0a0#32
  | .queueDeviceHigh => 0x0a4#32

/-- The address of a register. -/
def Register.address (r : Register) : BitVec 64 :=
  BitVec.ofNat 64 virtioMmioBase + r.offset.setWidth 64

/-! ## Instructions -/

/-- The labels that are jumped to. -/
inductive Label where
  | pollUsedIdx
  | completionPublished
  | pollBatchUsedIdx
  | batchCompletionPublished
  | waitForCompletionIrq
  | completionIrqReceived
  | failIdentity
  | failStatus
  | failFeatures
  | failQueue
  | failDriverOk
  | failTimeout
  | failCompletion
  | failInterrupt
  | virtioCompletionIsr
  | unexpectedInterrupt
  | picEoi
  deriving DecidableEq, Repr

/-- What a register that was read is tested for. -/
inductive Cond where
  | is (value : BitVec 32)
  | nonzero
  /-- any of these bits -/
  | bits (mask : BitVec 32)
  deriving DecidableEq, Repr

def Cond.holds (c : Cond) (value : BitVec 32) : Bool :=
  match c with
  | .is v => value = v
  | .nonzero => value ≠ 0
  | .bits mask => value &&& mask ≠ 0

inductive Insn where
  /-- `movl register, %eax`, a test, and a jump unless it holds -/
  | check (r : Register) (c : Cond) (l : Label)
  /-- `movl $value, register` -/
  | write (r : Register) (value : BitVec 32)
  /-- `mov $value, addr` of that many bytes -/
  | store (addr len value : Nat)
  /-- `rep stosl` of zeroes, of that many bytes -/
  | zero (addr len : Nat)
  /-- `cmp $value, addr` of that many bytes, and `jne` -/
  | expect (addr len value : Nat) (l : Label)
  /-- `movzwl addr, %eax; cmpl $value, %eax; je` -/
  | poll (addr value : Nat) (l : Label)
  /-- `movl $n, %ecx` -/
  | setPolls (n : Nat)
  /-- `decl %ecx; jnz` -/
  | loop (l : Label)
  | jmp (l : Label)
  | outb (port value : BitVec 8)
  /-- of the table at `VIRTIO_GUEST_IDT_GPA`, up to the gate of `VIRTIO_IRQ_VECTOR` -/
  | lidt
  | cli
  | sti
  | hlt
  | iret
  deriving DecidableEq, Repr

/-! ## The program -/

/-- Phase A: identity, reset, features. -/
def bringUp : List Insn :=
  [.check .magicValue (.is virtioMagicValue) .failIdentity,
    .check .version (.is virtioVersionModern) .failIdentity,
    .check .deviceId (.is virtioDeviceIdEntropy) .failIdentity,
    .check .vendorId .nonzero .failIdentity,
    .write .status 0,
    .check .status (.is 0) .failStatus,
    .write .status virtioStatusAcknowledge,
    .write .status (virtioStatusAcknowledge ||| virtioStatusDriver),
    .write .deviceFeaturesSel 0,
    .check .deviceFeatures (.is 0) .failFeatures,
    .write .deviceFeaturesSel virtioFVersion1Word,
    .check .deviceFeatures (.is virtioFVersion1Mask) .failFeatures,
    .write .driverFeaturesSel 0,
    .write .driverFeatures 0,
    .write .driverFeaturesSel virtioFVersion1Word,
    .write .driverFeatures virtioFVersion1Mask,
    .write .status virtioStatusFeaturesAccepted,
    .check .status (.is virtioStatusFeaturesAccepted) .failFeatures]

/-- Phase B, before the queue memory is initialised. -/
def queueProbe : List Insn :=
  [.write .queueSel virtioRngQueueIndex,
    .check .queueReady (.is 0) .failQueue,
    .check .queueSizeMax (.is (BitVec.ofNat 32 virtqSize)) .failQueue]

def queueMemory : List Insn :=
  [.zero virtqDescGpa virtqPageSize, .zero virtqAvailGpa virtqPageSize,
    .zero virtqUsedGpa virtqPageSize]

/-- Phase B, from the queue memory on. -/
def queueSetup : List Insn :=
  [.write .queueSize (BitVec.ofNat 32 virtqSize),
    .write .queueDescLow (BitVec.ofNat 32 virtqDescGpa),
    .write .queueDescHigh 0,
    .write .queueDriverLow (BitVec.ofNat 32 virtqAvailGpa),
    .write .queueDriverHigh 0,
    .write .queueDeviceLow (BitVec.ofNat 32 virtqUsedGpa),
    .write .queueDeviceHigh 0,
    .write .queueReady 1,
    .check .queueReady (.is 1) .failQueue,
    .write .status virtioStatusOperational,
    .check .status (.is virtioStatusOperational) .failDriverOk]

/-- Descriptor `i`, which names the `i`-th entropy buffer. -/
def describe (i : Nat) : List Insn :=
  let desc := virtqDescGpa + virtqDescSize * i
  [.store (desc + virtqDescAddrOffset) 4 (virtioRngBufferGpa + i * virtioRngBufferStride),
    .store (desc + virtqDescAddrOffset + 4) 4 0,
    .store (desc + virtqDescLenOffset) 4 virtioRngRequestLen,
    .store (desc + virtqDescFlagsOffset) 2 virtqDescFWrite.toNat,
    .store (desc + virtqDescNextOffset) 2 0]

/-- `avail->ring[i] = i` -/
def offer (i : Nat) : Insn := .store (virtqAvailGpa + virtqAvailRingOffset + 2 * i) 2 i

/-- `avail->idx = n` -/
def publishAvail (n : Nat) : Insn := .store (virtqAvailGpa + virtqAvailIdxOffset) 2 n

def notifyQueue : Insn := .write .queueNotify virtioRngQueueIndex

/-- Slot `i` of the used ring has descriptor `i`, completely written. -/
def expectUsed (i : Nat) : List Insn :=
  [.expect (usedElemAddr i + virtqUsedElemIdOffset) 4 i .failCompletion,
    .expect (usedElemAddr i + virtqUsedElemLenOffset) 4 virtioRngRequestLen .failCompletion]

/-- A bounded poll of `used->idx`. -/
def pollUsed (n : Nat) (self done : Label) : List Insn :=
  [.poll (virtqUsedGpa + virtqUsedIdxOffset) n done, .loop self, .jmp .failTimeout]

/-- Phase C, the single request. -/
def singleRequest : List Insn :=
  describe 0 ++
  [.store (virtqAvailGpa + virtqAvailFlagsOffset) 2 0, publishAvail 0, offer 0, publishAvail 1,
    notifyQueue, .setPolls virtioPollLimit] ++
  pollUsed 1 .pollUsedIdx .completionPublished

/-- Phase C, the batch. -/
def batch : List Insn :=
  expectUsed 0 ++ describe 1 ++ describe 2 ++ describe 3 ++ describe 4 ++
  [offer 1, offer 2, offer 3, offer 4,
    .expect (virtqAvailGpa + virtqAvailIdxOffset) 2 1 .failQueue,
    publishAvail virtioRngRequestCount.toNat, notifyQueue, .setPolls virtioPollLimit] ++
  pollUsed virtioRngRequestCount.toNat .pollBatchUsedIdx .batchCompletionPublished

/-- Phase D, the gate of the completion interrupt. -/
def idtSetup (isr : BitVec 16) : List Insn :=
  let gate := virtioGuestIdtGpa + 8 * virtioIrqVector
  [.zero virtioGuestIdtGpa virtioGuestIdtSize,
    .store gate 2 isr.toNat,
    .store (gate + 2) 2 0x08,
    .store (gate + 4) 1 0,
    .store (gate + 5) 1 0x8e,
    .store (gate + 6) 2 0,
    .lidt]

/-- Phase D, both interrupt controllers. -/
def picSetup : List Insn :=
  [.outb 0x20 0x11, .outb 0xa0 0x11,
    .outb 0x21 virtioPicMasterVectorBase, .outb 0xa1 virtioPicSlaveVectorBase,
    .outb 0x21 0x04, .outb 0xa1 0x02,
    .outb 0x21 0x01, .outb 0xa1 0x01,
    .outb 0x21 0xdf, .outb 0xa1 0xff]

def waitForCompletionIrq : List Insn :=
  [.cli, .expect virtioGuestCompletionGpa 4 0 .completionIrqReceived, .sti, .hlt,
    .jmp .waitForCompletionIrq]

/-- Phase D. -/
def accelerated (isr : BitVec 16) : List Insn :=
  expectUsed 1 ++ expectUsed 2 ++ expectUsed 3 ++ expectUsed 4 ++ idtSetup isr ++ picSetup ++
  [.store virtioGuestCompletionGpa 4 0] ++ describe virtioIoeventfdDescIndex ++
  [offer virtioIoeventfdDescIndex,
    .expect (virtqAvailGpa + virtqAvailIdxOffset) 2 virtioRngRequestCount.toNat .failQueue,
    publishAvail virtioTotalRequestCount.toNat, notifyQueue] ++
  waitForCompletionIrq

def completionIrqReceived : List Insn :=
  [.expect virtioGuestCompletionGpa 4 1 .failInterrupt,
    .expect (virtqUsedGpa + virtqUsedIdxOffset) 2 virtioTotalRequestCount.toNat
      .failCompletion] ++
  expectUsed virtioIoeventfdDescIndex ++ [.outb virtioTestSuccessPort 0]

/-- The code at `_start`, in protected mode. -/
def guestStart : List Insn := bringUp ++ queueProbe ++ queueMemory ++ queueSetup ++ singleRequest

def picEoi : List Insn := [.outb 0x20 0x20, .iret]

/-- The code at each label; `isr` is the address of `virtio_completion_isr` in the image. -/
def block (isr : BitVec 16) : Label → List Insn
  | .pollUsedIdx => pollUsed 1 .pollUsedIdx .completionPublished
  | .completionPublished => batch
  | .pollBatchUsedIdx =>
    pollUsed virtioRngRequestCount.toNat .pollBatchUsedIdx .batchCompletionPublished
  | .batchCompletionPublished => accelerated isr
  | .waitForCompletionIrq => waitForCompletionIrq
  | .completionIrqReceived => completionIrqReceived
  | .failIdentity => [.outb virtioTestFailurePort 1]
  | .failStatus => [.outb virtioTestFailurePort 2]
  | .failFeatures => [.outb virtioTestFailurePort 3]
  | .failQueue => [.outb virtioTestFailurePort 4]
  | .failDriverOk => [.outb virtioTestFailurePort 5]
  | .failTimeout => [.outb virtioTestFailurePort 6]
  | .failCompletion => [.outb virtioTestFailurePort 7]
  | .failInterrupt => [.outb virtioTestFailurePort 8]
  | .virtioCompletionIsr =>
    [.check .interruptStatus (.bits virtioMmioIntVring) .unexpectedInterrupt,
      .write .interruptAck virtioMmioIntVring, .store virtioGuestCompletionGpa 4 1, .jmp .picEoi]
  | .unexpectedInterrupt => .store virtioGuestCompletionGpa 4 2 :: picEoi
  | .picEoi => picEoi

/-! ## Interrupt controller -/

/-- The master 8259, of which only input 5 is wired. -/
structure Pic where
  /-- the initialisation word that port 0x21 expects, or 0 -/
  expects : Nat := 0
  vectorBase : BitVec 8 := 0
  mask : BitVec 8 := 0
  /-- an edge at input 5 is waiting -/
  requested : Bool := false
  /-- the guest has not ended the interrupt -/
  inService : Bool := false
  deriving DecidableEq, Repr

/-- `outb` to port 0x20: the first initialisation word, or the end of an interrupt. -/
def Pic.command (p : Pic) (value : BitVec 8) : Pic :=
  if value &&& 0x10 ≠ 0 then
    { p with expects := 2, mask := 0, requested := false, inService := false }
  else if value &&& 0xe0 = 0x20 then { p with inService := false }
  else p

/-- `outb` to port 0x21: the other initialisation words, then the mask. -/
def Pic.data (p : Pic) (value : BitVec 8) : Pic :=
  match p.expects with
  | 0 => { p with mask := value }
  | 2 => { p with vectorBase := value &&& 0xf8, expects := 3 }
  | 3 => { p with expects := 4 }
  | _ => { p with expects := 0 }

/-- An interrupt waits for the processor. -/
def Pic.pending (p : Pic) : Bool :=
  p.requested ∧ ¬ p.inService ∧ p.expects = 0 ∧ p.mask &&& 0x20 = 0

/-! ## State -/

/-- The guest's processor. -/
structure Cpu where
  /-- what it executes next -/
  code : List Insn
  ecx : Nat := 0
  /-- the interrupt flag -/
  interrupts : Bool := false
  /-- the instruction after `sti`, before which no interrupt is taken -/
  shadow : Bool := false
  halted : Bool := false
  idtLoaded : Bool := false
  /-- the interrupted code -/
  returnTo : List Insn := []

/-- The whole experiment. -/
structure Experiment where
  vmm : Vmm
  cpu : Cpu
  pic : Pic
  /-- calls of `getrandom` so far -/
  randomCalls : Nat
  guestKicks : Nat
  guestCalls : Nat
  /-- `backend.result` -/
  backendResult : Int
  runResult : Nat
  /-- the code at the failure port -/
  failureCode : Option (BitVec 8)
  /-- a system call other than `getrandom` has failed -/
  failed : Bool

/-! ## The guest -/

/-- An exit that leaves the loop of `main`. -/
def Experiment.exit (s : Experiment) : Experiment :=
  { s with vmm := { s.vmm with vcpu := .left } }

/-- `outb`: the interrupt controllers are in the kernel, every other port exits. The slave has
    no input wired. -/
def Experiment.out (s : Experiment) (port value : BitVec 8) : Experiment :=
  if port = 0x20 then { s with pic := s.pic.command value }
  else if port = 0x21 then { s with pic := s.pic.data value }
  else if port = 0xa0 ∨ port = 0xa1 then s
  else if port = virtioTestFailurePort then { s with failureCode := some value }.exit
  else if port = virtioTestSuccessPort then { s with runResult := 0 }.exit
  else s.exit

def Experiment.jump (s : Experiment) (isr : BitVec 16) (l : Label) : Experiment :=
  { s with cpu := { s.cpu with code := block isr l } }

def Experiment.writeMem (s : Experiment) (addr : Nat) (bytes : List UInt8) : Experiment :=
  { s with vmm := { s.vmm with mem := s.vmm.mem.storeBytes addr bytes } }

/-- Execute an instruction; `s` has the code after it. -/
def Experiment.exec (isr : BitVec 16) (s : Experiment) : Insn → Experiment
  | .check r c l =>
    let s' := { s with vmm := s.vmm.mmioRead r.address 4 }
    match readRegister s.vmm.dev (mmioOffset r.address) with
    | some value => if c.holds value then s' else s'.jump isr l
    | none => s'
  | .write r value => { s with vmm := s.vmm.mmioWrite r.address 4 value }
  | .store addr len value => s.writeMem addr (Memory.leBytes value len)
  | .zero addr len => s.writeMem addr (List.replicate len 0)
  | .expect addr len value l => if s.vmm.mem.loadLe addr len = value then s else s.jump isr l
  | .poll addr value l => if s.vmm.mem.loadLe addr 2 = value then s.jump isr l else s
  | .setPolls n => { s with cpu := { s.cpu with ecx := n } }
  | .loop l =>
    let s' := { s with cpu := { s.cpu with ecx := s.cpu.ecx - 1 } }
    if s.cpu.ecx - 1 = 0 then s' else s'.jump isr l
  | .jmp l => s.jump isr l
  | .outb port value => s.out port value
  | .lidt => { s with cpu := { s.cpu with idtLoaded := true } }
  | .cli => { s with cpu := { s.cpu with interrupts := false } }
  | .sti => { s with cpu := { s.cpu with interrupts := true, shadow := true } }
  | .hlt => { s with cpu := { s.cpu with halted := true } }
  | .iret => { s with cpu := { s.cpu with code := s.cpu.returnTo, interrupts := true } }

/-- The gate of a vector is present, an interrupt gate, and leads to the handler. -/
def gateOpen (isr : BitVec 16) (m : Memory) (vector : Nat) : Bool :=
  let gate := virtioGuestIdtGpa + 8 * vector
  vector ≤ virtioIrqVector ∧ m.loadLe gate 2 = isr.toNat ∧ m.loadLe (gate + 2) 2 = 0x08 ∧
  m.loadLe (gate + 5) 1 = 0x8e ∧ m.loadLe (gate + 6) 2 = 0

/-- The processor takes the interrupt. Without its gate it shuts down, which is an exit. -/
def Experiment.interrupt (isr : BitVec 16) (s : Experiment) : Experiment :=
  let s' := { s with pic := { s.pic with requested := false, inService := true } }
  if s.cpu.idtLoaded ∧ gateOpen isr s.vmm.mem (s.pic.vectorBase.toNat + virtioIrqGsi) then
    { s' with cpu :=
      { s.cpu with
        code := block isr .virtioCompletionIsr
        interrupts := false
        halted := false
        returnTo := s.cpu.code } }
  else s'.exit

/-- The guest moves while the vCPU is in `KVM_RUN`; a halted one waits for an interrupt. -/
def Experiment.guestStep (isr : BitVec 16) (s : Experiment) : Option Experiment :=
  if s.vmm.vcpu ≠ .guest then none
  else if s.cpu.interrupts ∧ ¬ s.cpu.shadow ∧ s.pic.pending then some (s.interrupt isr)
  else if s.cpu.halted then none
  else
    match s.cpu.code with
    | [] => none
    | insn :: rest =>
      some (Experiment.exec isr { s with cpu := { s.cpu with code := rest, shadow := false } } insn)

/-! ## The two threads of the VMM -/

/-- What the next `getrandom` of a call does. -/
def nextRandom (src : RandomSource) (calls : Nat) : Option Frame → GetRandom
  | some f => src.call calls f.asked
  | none => .eintr

/-- The calls of `getrandom` after the next step of a call. -/
def nextCalls (calls : Nat) : Option Frame → Nat
  | some f => if f.pc = .fill ∧ f.filled < f.request.len.toNat then calls + 1 else calls
  | none => calls

def VcpuPc.frame : VcpuPc → Option Frame
  | .processQueue f => some f
  | _ => none

def WorkerPc.frame : WorkerPc → Option Frame
  | .processQueue f => some f
  | _ => none

/-- The loop of `main` sets the notification path up. -/
def Vmm.setsUp (v : Vmm) : Bool :=
  v.vcpu = .handled ∧ v.queueNotifyExits = 2 ∧ ¬ v.ioeventfdRegistered ∧ v.phaseCComplete

/-- The end of `main` takes the notification path down. -/
def Vmm.takesDown (v : Vmm) : Bool := v.vcpu = .left ∧ v.ioeventfdRegistered

def Experiment.vcpuStep (src : RandomSource) (s : Experiment) (ok : Bool) : Option Experiment :=
  let r := nextRandom src s.randomCalls s.vmm.vcpu.frame
  (s.vmm.vcpuStep r ok).map fun vmm =>
    { s with
      vmm := vmm
      randomCalls := nextCalls s.randomCalls s.vmm.vcpu.frame
      runResult := if s.vmm.takesDown ∧ ¬ ok then 1 else s.runResult
      failed := s.failed || ((s.vmm.setsUp || s.vmm.takesDown) && !ok) }

/-- The edge of the call eventfd at input 5. -/
def Pic.edge (p : Pic) : Pic := { p with requested := true }

/-- `backend.result` when the worker has moved on. -/
def Experiment.resultAfter (s : Experiment) (vmm : Vmm) (ok : Bool) : Int :=
  match s.vmm.worker, vmm.worker with
  | .checkStop _, .exited => s.backendResult
  | _, .exited => -1
  | .signal, _ => if ok then 0 else -1
  | _, _ => s.backendResult

def Experiment.workerStep (src : RandomSource) (s : Experiment) (ok : Bool) :
    Option Experiment :=
  let r := nextRandom src s.randomCalls s.vmm.worker.frame
  (s.vmm.workerStep r ok).map fun vmm =>
    { s with
      vmm := vmm
      pic := if s.vmm.worker = .signal ∧ ok then s.pic.edge else s.pic
      randomCalls := nextCalls s.randomCalls s.vmm.worker.frame
      guestKicks :=
        match s.vmm.worker with
        | .checkStop count => if s.vmm.stop then s.guestKicks else s.guestKicks + count
        | _ => s.guestKicks
      guestCalls := if s.vmm.worker = .signal ∧ ok then s.guestCalls + 1 else s.guestCalls
      backendResult := s.resultAfter vmm ok
      failed := s.failed || ((s.vmm.worker = .read || s.vmm.worker = .signal) && !ok) }

/-! ## The system -/

inductive ExperimentAct where
  | guest
  | vcpu (ok : Bool)
  | worker (ok : Bool)
  deriving DecidableEq, Repr

def Experiment.step (src : RandomSource) (isr : BitVec 16) (s : Experiment) :
    ExperimentAct → Option Experiment
  | .guest => s.guestStep isr
  | .vcpu ok => s.vcpuStep src ok
  | .worker ok => s.workerStep src ok

/-- `main` before its first `KVM_RUN`. -/
def Experiment.start (v : Vmm) : Experiment where
  vmm := v
  cpu := { code := guestStart }
  pic := {}
  randomCalls := 0
  guestKicks := 0
  guestCalls := 0
  backendResult := 0
  runResult := 1
  failureCode := none
  failed := false

def experiment (src : RandomSource) (isr : BitVec 16) : System Experiment ExperimentAct where
  init s := ∃ v, vmm.init v ∧ s = .start v
  step := Experiment.step src isr

/-! ## The end of `main` -/

/-- The six requests as `main` wants to find them. -/
def requestsIntact (m : Memory) : Bool :=
  ∀ i < virtioTotalRequestCount.toNat,
    descAt m i =
      { addr := BitVec.ofNat 64 (virtioRngBufferGpa + i * virtioRngBufferStride)
        len := BitVec.ofNat 32 virtioRngRequestLen
        flags := virtqDescFWrite
        next := 0 } ∧
    availRing m i = BitVec.ofNat 16 i ∧ usedElem m i = ⟨i, virtioRngRequestLen⟩

/-- What `main` returns once both threads have ended. -/
def mainResult (s : Experiment) : Nat :=
  let dev := s.vmm.dev
  if s.runResult ≠ 0 ∨ s.backendResult < 0 then 1
  else if dev.status ≠ virtioStatusOperational ∨ dev.driverFeatures0 ≠ 0 ∨
      dev.driverFeatures1 ≠ virtioFVersion1Mask then 1
  else if dev.queueSel ≠ virtioRngQueueIndex ∨ dev.queue.size.toNat ≠ virtqSize ∨
      dev.queue.ready = 0 then 1
  else if dev.queue.descAddr.toNat ≠ virtqDescGpa ∨ dev.queue.driverAddr.toNat ≠ virtqAvailGpa ∨
      dev.queue.deviceAddr.toNat ≠ virtqUsedGpa then 1
  else if dev.queue.lastAvailIdx ≠ virtioTotalRequestCount then 1
  else if ¬ requestsIntact s.vmm.mem then 1
  else if availIdx s.vmm.mem ≠ virtioTotalRequestCount ∨
      usedIdx s.vmm.mem ≠ virtioTotalRequestCount then 1
  else if s.vmm.queueNotifyExits ≠ 2 then 1
  else if s.guestKicks ≠ 1 then 1
  else if s.guestCalls ≠ 1 ∨ dev.interruptStatus ≠ 0 then 1
  else 0

/-! ## The VMM inside -/

/-- The bytes an instruction stores lie in guest memory. -/
def Insn.inMemory : Insn → Bool
  | .store addr len _ | .zero addr len => addr + len ≤ virtioGuestMemSize
  | _ => true

theorem block_inMemory (isr : BitVec 16) (l : Label) : (block isr l).all Insn.inMemory = true := by
  cases l <;> rfl

/-- All code that the guest may come to stores in guest memory. -/
def Cpu.InMemory (c : Cpu) : Prop :=
  c.code.all Insn.inMemory = true ∧ c.returnTo.all Insn.inMemory = true

/-- An act of the guest. -/
def VmmAct.byGuest : VmmAct → Bool
  | .store _ _ | .mmioWrite _ _ _ | .mmioRead _ _ | .exit => true
  | .vcpu _ _ | .worker _ _ => false

/-- What a step of the experiment may be in the VMM model: an instruction is none, one or several
    acts of the guest, a step of a thread is that thread's. -/
def ExperimentAct.Matches : ExperimentAct → List VmmAct → Prop
  | .guest, as => ∀ a ∈ as, a.byGuest = true
  | .vcpu ok, as => ∃ r, as = [.vcpu r ok]
  | .worker ok, as => ∃ r, as = [.worker r ok]

section Refines

variable {src : RandomSource} {isr : BitVec 16} {v w : Vmm} {s t : Experiment}

/-! ### The guest -/

/-- The guest comes from one state of the VMM to the other. -/
def GuestActs (v w : Vmm) : Prop :=
  ∃ as, (∀ a ∈ as, a.byGuest = true) ∧ vmm.exec v as = some w

theorem GuestActs.refl (v : Vmm) : GuestActs v v := ⟨[], nofun, rfl⟩

theorem GuestActs.one {a : VmmAct} (ha : a.byGuest = true) (hstep : vmm.step v a = some w) :
    GuestActs v w :=
  ⟨[a], List.forall_mem_singleton.mpr ha, System.exec_singleton hstep⟩

theorem GuestActs.exit (hguest : v.vcpu = .guest) : GuestActs v { v with vcpu := .left } :=
  .one (a := .exit) rfl (if_pos hguest)

theorem GuestActs.mmioRead (hguest : v.vcpu = .guest) (address : BitVec 64) :
    GuestActs v (v.mmioRead address 4) :=
  .one (a := .mmioRead address 4) rfl (if_pos hguest)

theorem GuestActs.mmioWrite (hguest : v.vcpu = .guest) (address : BitVec 64) (value : BitVec 32) :
    GuestActs v (v.mmioWrite address 4 value) :=
  .one (a := .mmioWrite address 4 value) rfl (if_pos hguest)

/-- Bytes are stored one after the other. -/
theorem GuestActs.storeBytes (hguest : v.vcpu = .guest) {addr : Nat} {bytes : List UInt8}
    (hfits : addr + bytes.length ≤ virtioGuestMemSize) :
    GuestActs v { v with mem := v.mem.storeBytes addr bytes } := by
  induction bytes generalizing v addr with
  | nil =>
    have hnil : v.mem.storeBytes addr [] = v.mem := by
      funext i
      simp [Memory.storeBytes]
    rw [hnil]
    exact .refl v
  | cons b bytes ih =>
    rw [List.length_cons] at hfits
    have hcons : (v.mem.storeBytes addr [b]).storeBytes (addr + 1) bytes =
        v.mem.storeBytes addr (b :: bytes) := by
      funext i
      rcases Nat.lt_trichotomy i addr with hlt | rfl | hgt
      · simp [Memory.storeBytes, show ¬ addr ≤ i by omega, show ¬ addr + 1 ≤ i by omega]
      · simp [Memory.storeBytes]
      · obtain ⟨k, rfl⟩ := Nat.exists_eq_add_of_lt hgt
        simp [Memory.storeBytes, show addr + 1 ≤ addr + k + 1 by omega,
          show addr + k + 1 - addr = k + 1 by omega,
          show addr + k + 1 - (addr + 1) = k by omega, show addr ≤ addr + k + 1 by omega]
    let first : Vmm := { v with mem := v.mem.storeBytes addr [b] }
    have hfirst : vmm.step v (.store addr b) = some first := if_pos ⟨hguest, by omega⟩
    obtain ⟨as, has, hrest⟩ := @ih first hguest (addr + 1) (by omega)
    refine ⟨.store addr b :: as, List.forall_mem_cons.mpr ⟨rfl, has⟩, ?_⟩
    rw [System.exec, hfirst, ← hcons]
    exact hrest

/-! ### The experiment -/

/-- **One instruction** is none, one or several acts of the guest; each store is inside. -/
theorem exec_guestActs (hguest : s.vmm.vcpu = .guest) {insn : Insn} (hinsn : insn.inMemory = true) :
    GuestActs s.vmm (s.exec isr insn).vmm := by
  cases insn with
  | check r c l =>
    have hread : GuestActs s.vmm (s.vmm.mmioRead r.address 4) := .mmioRead hguest r.address
    simp only [Experiment.exec]
    split
    · split
      · exact hread
      · exact hread
    · exact hread
  | write r value => exact .mmioWrite hguest r.address value
  | store addr len value =>
    apply GuestActs.storeBytes hguest
    rw [Memory.length_leBytes]
    exact of_decide_eq_true hinsn
  | zero addr len =>
    apply GuestActs.storeBytes hguest
    rw [List.length_replicate]
    exact of_decide_eq_true hinsn
  | expect addr len value l | poll addr value l | loop l =>
    simp only [Experiment.exec]
    split
    · exact .refl s.vmm
    · exact .refl s.vmm
  | outb port value =>
    simp only [Experiment.exec, Experiment.out]
    split_ifs
    · exact .refl s.vmm
    · exact .refl s.vmm
    · exact .refl s.vmm
    · exact .exit hguest
    · exact .exit hguest
    · exact .exit hguest
  | iret | jmp l | setPolls n | lidt | cli | sti | hlt => exact .refl s.vmm

/-- The guest stays in code that stores in guest memory. -/
theorem Cpu.InMemory.exec (h : s.cpu.InMemory) (insn : Insn) : (s.exec isr insn).cpu.InMemory := by
  have hjump (l : Label) : (s.jump isr l).cpu.InMemory := ⟨block_inMemory isr l, h.2⟩
  cases insn with
  | check r c l =>
    simp only [Experiment.exec]
    split
    · split
      · exact h
      · exact hjump l
    · exact h
  | expect addr len value l =>
    simp only [Experiment.exec]
    split
    · exact h
    · exact hjump l
  | poll addr value l =>
    simp only [Experiment.exec]
    split
    · exact hjump l
    · exact h
  | loop l =>
    simp only [Experiment.exec]
    split
    · exact h
    · exact hjump l
  | jmp l => exact hjump l
  | outb port value =>
    simp only [Experiment.exec, Experiment.out]
    split_ifs
    all_goals exact h
  | iret => exact ⟨h.2, h.2⟩
  | write r value | store addr len value | zero addr len | setPolls n | lidt | cli | sti | hlt =>
    exact h

/-- **A step of the experiment** is none, one or several of the VMM. -/
theorem experiment_step (h : s.cpu.InMemory) {a : ExperimentAct}
    (hstep : (experiment src isr).step s a = some t) :
    t.cpu.InMemory ∧ ∃ as, a.Matches as ∧ vmm.exec s.vmm as = some t.vmm := by
  cases a with
  | guest =>
    have hmove : s.guestStep isr = some t := hstep
    simp only [Experiment.guestStep] at hmove
    split_ifs at hmove with hguest hinterrupt
    · -- the interrupt is taken, or the processor shuts down
      push Not at hguest
      cases hmove
      simp only [Experiment.interrupt]
      split
      · exact ⟨⟨block_inMemory isr .virtioCompletionIsr, h.1⟩, GuestActs.refl s.vmm⟩
      · exact ⟨h, GuestActs.exit hguest⟩
    · -- an instruction, whose stores are in memory as those of all code are
      push Not at hguest
      split at hmove
      · cases hmove
      · next insn rest hcode =>
        cases hmove
        have hall := h.1
        rw [hcode, List.all_cons, Bool.and_eq_true] at hall
        let fetched : Experiment := { s with cpu := { s.cpu with code := rest, shadow := false } }
        have hfetched : fetched.cpu.InMemory := ⟨hall.2, h.2⟩
        exact ⟨hfetched.exec insn, exec_guestActs (s := fetched) hguest hall.1⟩
  | vcpu ok =>
    have hmove : s.vcpuStep src ok = some t := hstep
    simp only [Experiment.vcpuStep, Option.map_eq_some_iff] at hmove
    obtain ⟨v, hv, rfl⟩ := hmove
    exact ⟨h, [.vcpu _ ok], ⟨_, rfl⟩, System.exec_singleton hv⟩
  | worker ok =>
    have hmove : s.workerStep src ok = some t := hstep
    simp only [Experiment.workerStep, Option.map_eq_some_iff] at hmove
    obtain ⟨v, hv, rfl⟩ := hmove
    exact ⟨h, [.worker _ ok], ⟨_, rfl⟩, System.exec_singleton hv⟩

/-- **The experiment refines the VMM**: what the guest program, the two threads and the interrupt
    controller do together is, step by step, a run of the VMM next to an arbitrary guest, which
    stores in guest memory alone; so the VMM inside is always in a state that this VMM can reach. -/
theorem experiment_refines_vmm (h : (experiment src isr).Reachable s) :
    vmm.Reachable s.vmm ∧
      ∀ acts t, (experiment src isr).exec s acts = some t →
        ∃ runs, List.Forall₂ ExperimentAct.Matches acts runs ∧
          vmm.exec s.vmm runs.flatten = some t.vmm := by
  have hinv : vmm.Reachable s.vmm ∧ s.cpu.InMemory := by
    apply System.Reach.invariant (fun s => vmm.Reachable s.vmm ∧ s.cpu.InMemory) _ _ h
    · rintro s ⟨v, hinit, rfl⟩
      exact ⟨.init hinit, rfl, rfl⟩
    · rintro s a t ⟨hreach, hcode⟩ - hstep
      obtain ⟨hcode', as, -, hrun⟩ := experiment_step hcode hstep
      exact ⟨hreach.exec hrun, hcode'⟩
  exact ⟨hinv.1, fun acts t hrun => System.exec_simulates (fun s => s.cpu.InMemory)
    (fun _ _ _ hcode hstep => experiment_step hcode hstep) hinv.2 hrun⟩

end Refines

/-- From the first instruction until the first request is consumed: the registers, each with the
    way back into the guest, the queue's memory between them, and the call of `process_queue`. -/
def firstRequest : List ExperimentAct :=
  let access : List ExperimentAct := [.guest, .vcpu true]
  (List.replicate 21 access).flatten ++ List.replicate 3 .guest ++
    (List.replicate 11 access).flatten ++ List.replicate 10 .guest ++
    List.replicate 19 (.vcpu true)

theorem experiment_refines_vmm_firstRequest :
    ∃ t runs, (experiment steadySource 0x2000).exec (.start bootVmm) firstRequest = some t ∧
      t.vmm.dev.queue.lastAvailIdx = 1 ∧ vmm.Reachable t.vmm ∧
      List.Forall₂ ExperimentAct.Matches firstRequest runs ∧
      vmm.exec bootVmm runs.flatten = some t.vmm := by
  obtain ⟨t, hrun, hlast⟩ : ∃ t ∈ (experiment steadySource 0x2000).exec (.start bootVmm) firstRequest,
      t.vmm.dev.queue.lastAvailIdx = 1 := by
    decide +kernel
  have hstart : (experiment steadySource 0x2000).Reachable (.start bootVmm) :=
    .init ⟨bootVmm, vmm_init_boot, rfl⟩
  obtain ⟨runs, hruns, hexec⟩ := (experiment_refines_vmm hstart).2 firstRequest t hrun
  exact ⟨t, runs, hrun, hlast, (experiment_refines_vmm (hstart.exec hrun)).1, hruns, hexec⟩

end LinuxMaxxing.Virtio
