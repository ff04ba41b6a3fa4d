import LinuxMaxxing.VirtIo.Refinement

/-!
# The virt-io Guest

`guest.S` instruction by instruction, the interrupt controllers that KVM puts between it and the
device, and the loop of `main` around it.

- `Insn`, `code`: the guest's program from `protected_mode` on;
- `Lapic`, `Ioapic`, `Irqchip`: the in-kernel controllers, as far as `DEVICE_GSI` and the guest's
  accesses to them go;
- `Machine`: all of it; `machine`: the system. An interrupt that can be taken is taken at once or
  held back for up to `patience` instructions, and the results of the device's ioctls are
  arbitrary.

The switch to protected mode and the guest's stack, which nothing else uses, are left out. So is a
`KVM_RUN` that fails itself.
-/

namespace LinuxMaxxing.VirtIo

open LinuxMaxxing.Lib

/-! ## Constants -/

/-- `DEVICE_VECTOR` -/
def deviceVector : Nat := 0x40

/-- `MARKER_PORT` and `DONE_PORT` -/
def markerPort : BitVec 8 := 0xe9
def donePort : BitVec 8 := 0x82

/-- `MARKER_APIC_READY`, `MARKER_IRQ_PENDING_IF0` and `MARKER_MSI` -/
def markerApicReady : BitVec 8 := 0x11
def markerIrqPendingIf0 : BitVec 8 := 0x12
def markerMsi : BitVec 8 := 0x13

/-- Guest memory layout. -/
def idtBase : Nat := 0x1000
def irqCount : Nat := 0x4000
def dmaSrc : Nat := 0x6000
def dmaDst : Nat := 0x7000

/-- `KERNEL_CS` -/
def kernelCs : Nat := 0x08

/-- The polls of `WAIT_IRQ_COUNT`. -/
def irqPolls : Nat := 400000

/-! ## Instructions -/

/-- The guest waits for five interrupts. -/
inductive Phase where
  | normal
  | pending
  | msi
  | dmaTo
  | dmaFrom
  deriving DecidableEq, Repr

/-- The labels that are jumped to: `1:` and `2:` of each `WAIT_IRQ_COUNT` among them. -/
inductive Label where
  | poll (p : Phase)
  | arrived (p : Phase)
  | dmaFailed
  | isrBody
  deriving DecidableEq, Repr

inductive LapicRegister where
  | tpr
  | svr
  | eoi
  deriving DecidableEq, Repr

inductive Insn where
  /-- `movl $value, DEVICE_MMIO_BASE + offset` -/
  | device (offset : Fin deviceMmioSize) (value : BitVec 32)
  /-- `movl DEVICE_MMIO_BASE + offset, %eax` -/
  | readDevice (offset : Fin deviceMmioSize)
  | lapic (r : LapicRegister) (value : BitVec 32)
  /-- `movl $value, IOAPIC_BASE + IOAPIC_SEL` -/
  | ioapicSel (value : BitVec 32)
  /-- `movl $value, IOAPIC_BASE + IOAPIC_WIN` -/
  | ioapicWin (value : BitVec 32)
  /-- `mov $value, addr` of that many bytes -/
  | store (addr len value : Nat)
  | lidt
  | outb (port value : BitVec 8)
  /-- `incl irq_count` -/
  | incCount
  /-- `movl $n, %ecx` -/
  | setPolls (n : Nat)
  /-- `cmpl $n, irq_count; je` -/
  | expectCount (n : Nat) (l : Label)
  | loop (l : Label)
  /-- `cld; repe cmpsb; jne` -/
  | compare (dst src len : Nat) (l : Label)
  | jmp (l : Label)
  | cli
  | sti
  | nop
  | hlt
  | pusha
  | popa
  | iret
  deriving DecidableEq, Repr

/-! ## The program -/

/-- Where the two handlers are in the image. -/
structure Handlers where
  irqHandler : BitVec 32
  msiHandler : BitVec 32

/-- `BUILD_GATE` -/
def buildGate (handler : BitVec 32) (vector : Nat) : List Insn :=
  [.store (idtBase + vector * 8) 2 (handler.toNat % 2 ^ 16),
    .store (idtBase + vector * 8 + 2) 2 kernelCs,
    .store (idtBase + vector * 8 + 4) 1 0,
    .store (idtBase + vector * 8 + 5) 1 0x8e,
    .store (idtBase + vector * 8 + 6) 2 (handler.toNat / 2 ^ 16)]

/-- `setup_idt` -/
def setupIdt (h : Handlers) : List Insn :=
  buildGate h.irqHandler deviceVector ++ buildGate h.msiHandler msiVector.toNat ++ [.lidt]

/-- The interrupt controllers: mask the PIC, enable the LAPIC, route `DEVICE_GSI`. -/
def setupControllers : List Insn :=
  [.outb 0x21 0xff, .outb 0xa1 0xff,
    .lapic .tpr 0, .lapic .svr (0x100 + 0xff),
    .ioapicSel (0x10 + deviceGsi * 2), .ioapicWin (BitVec.ofNat 32 deviceVector),
    .ioapicSel (0x10 + deviceGsi * 2 + 1), .ioapicWin 0]

def guestSetup (h : Handlers) : List Insn := setupIdt h ++ setupControllers

/-- The value of `irq_count` that the wait of a phase is for. -/
def Phase.expect : Phase → Nat
  | .normal => 1
  | .pending => 2
  | .msi => 3
  | .dmaTo => 4
  | .dmaFrom => 5

/-- `WAIT_IRQ_COUNT`, from its label on. -/
def waitIrqCount (p : Phase) : List Insn :=
  [.expectCount p.expect (.arrived p), .loop (.poll p), .hlt]

/-- The code before the wait of a phase. -/
def Phase.prepare : Phase → List Insn
  | .normal => [.device commandOffset cmdIrqOnly]
  | .pending =>
    [.cli, .device commandOffset cmdIrqOnly, .outb markerPort markerIrqPendingIf0, .sti, .nop]
  | .msi => [.outb markerPort markerMsi, .device commandOffset cmdMsiOnly]
  | .dmaTo =>
    [.device dmaGpaOffset (BitVec.ofNat 32 dmaSrc), .device commandOffset cmdDmaToDevice]
  | .dmaFrom =>
    [.device dmaGpaOffset (BitVec.ofNat 32 dmaDst), .device commandOffset cmdDmaFromDevice]

/-- `dma_failed` -/
def dmaFailed : List Insn := [.cli, .hlt]

/-- The check of the bytes, and the end; `dma_failed` stands behind it. -/
def verify : List Insn :=
  [.compare dmaDst dmaSrc dmaXferSize.toNat .dmaFailed, .outb donePort 0, .hlt] ++ dmaFailed

/-- A phase and the code behind it. -/
def Phase.code (p : Phase) (rest : List Insn) : List Insn :=
  p.prepare ++ .setPolls irqPolls :: waitIrqCount p ++ rest

/-- The code at `2:` of each wait. -/
def afterDmaFrom : List Insn := verify
def afterDmaTo : List Insn := Phase.dmaFrom.code afterDmaFrom
def afterMsi : List Insn := Phase.dmaTo.code afterDmaTo
def afterPending : List Insn := Phase.msi.code afterMsi
def afterNormal : List Insn := Phase.pending.code afterPending

def Phase.after : Phase → List Insn
  | .normal => afterNormal
  | .pending => afterPending
  | .msi => afterMsi
  | .dmaTo => afterDmaTo
  | .dmaFrom => afterDmaFrom

/-- The phases, from the marker of phase A on. -/
def guestPhases : List Insn :=
  [.outb markerPort markerApicReady, .sti] ++ Phase.normal.code afterNormal

/-- The code at `protected_mode`. -/
def protectedMode (h : Handlers) : List Insn := guestSetup h ++ guestPhases

def isrBody : List Insn :=
  [.pusha, .incCount, .readDevice statusOffset, .device irqAckOffset 1, .lapic .eoi 0, .popa,
    .iret]

/-- The code at each label. -/
def block : Label → List Insn
  | .poll p => waitIrqCount p ++ p.after
  | .arrived p => p.after
  | .dmaFailed => dmaFailed
  | .isrBody => isrBody

/-- Both handlers. -/
def handlerCode : List Insn := [.jmp .isrBody]

/-! ## Interrupt controllers -/

/-- The local APIC; vectors by their numbers. -/
structure Lapic where
  tpr : BitVec 32 := 0
  svr : BitVec 32 := 0xff
  irr : Finset Nat := ∅
  isr : Finset Nat := ∅

namespace Lapic

def enabled (l : Lapic) : Bool := l.svr.getLsbD 8

/-- A vector that arrives. -/
def accept (l : Lapic) (vector : Nat) : Lapic :=
  if l.enabled then { l with irr := insert vector l.irr } else l

/-- The priority class that an interrupt has to exceed. -/
def ppr (l : Lapic) : Nat := max (l.tpr.toNat / 16) (l.isr.sup id / 16)

/-- The vector that waits for the processor. -/
def pending (l : Lapic) : Option Nat :=
  if l.enabled ∧ l.irr.Nonempty ∧ l.ppr < l.irr.sup id / 16 then some (l.irr.sup id) else none

def acknowledge (l : Lapic) (vector : Nat) : Lapic :=
  { l with irr := l.irr.erase vector, isr := insert vector l.isr }

def write (l : Lapic) (value : BitVec 32) : LapicRegister → Lapic
  | .tpr => { l with tpr := value &&& 0xff }
  | .svr => { l with svr := value }
  | .eoi => { l with isr := l.isr.erase (l.isr.sup id) }

end Lapic

/-- The I/O APIC with the redirection entry of `DEVICE_GSI`, which is masked at first. -/
structure Ioapic where
  select : BitVec 32 := 0
  rteLow : BitVec 32 := 0x10000
  rteHigh : BitVec 32 := 0

/-- A write to `IOWIN`; the guest selects no other entry. -/
def Ioapic.window (i : Ioapic) (value : BitVec 32) : Ioapic :=
  if i.select = 0x10 + deviceGsi * 2 then { i with rteLow := value }
  else if i.select = 0x10 + deviceGsi * 2 + 1 then { i with rteHigh := value }
  else i

/-- The entry sends edges to LAPIC 0: unmasked, edge-triggered, fixed delivery, physical. -/
def Ioapic.delivers (i : Ioapic) : Bool := i.rteLow &&& 0x1ff00 = 0 ∧ i.rteHigh >>> 24 = 0

/-- The controllers and the level of `DEVICE_GSI`. -/
structure Irqchip where
  lapic : Lapic := {}
  ioapic : Ioapic := {}
  line : Bool := false
  /-- the mask of the master PIC, and a request of its input 4 -/
  picMask : BitVec 8 := 0
  picRequested : Bool := false

namespace Irqchip

/-- An edge of `DEVICE_GSI` goes to the I/O APIC and to the PIC. -/
def edge (c : Irqchip) : Irqchip :=
  { c with
    lapic :=
      if c.ioapic.delivers then c.lapic.accept (c.ioapic.rteLow &&& 0xff).toNat else c.lapic
    picRequested := c.picRequested || !c.picMask.getLsbD 4 }

def setLine (c : Irqchip) (level : Bool) : Irqchip :=
  if level ∧ ¬ c.line then { c.edge with line := level } else { c with line := level }

/-- An ioctl that succeeds. A message names its LAPIC in the address and the vector in the data. -/
def apply (c : Irqchip) : Ioctl → Irqchip
  | .irqLine irq level => if irq = deviceGsi then c.setLine (level ≠ 0) else c
  | .signalMsi addressLo _ data =>
    if (addressLo >>> 12) &&& 0xff = 0 then { c with lapic := c.lapic.accept (data &&& 0xff).toNat }
    else c

/-- The vector that the processor would take; the PIC, never initialised, gives its input's. -/
def pending (c : Irqchip) : Option Nat := if c.picRequested then some 4 else c.lapic.pending

def acknowledge (c : Irqchip) (vector : Nat) : Irqchip :=
  if c.picRequested then { c with picRequested := false }
  else { c with lapic := c.lapic.acknowledge vector }

end Irqchip

/-- Ioctls from the `n`-th on. -/
def Irqchip.applyAll (env : Env) (c : Irqchip) (n : Nat) : List Ioctl → Irqchip
  | [] => c
  | i :: is => (if env.succeeds n i then c.apply i else c).applyAll env (n + 1) is

/-! ## State -/

/-- The guest's processor. -/
structure Cpu where
  /-- what it executes next -/
  code : List Insn
  ecx : Nat := 0
  /-- `ecx` as `pusha` saved it -/
  saved : Nat := 0
  /-- the interrupt flag -/
  interrupts : Bool := false
  /-- the instruction after `sti`, before which no interrupt is taken -/
  shadow : Bool := false
  halted : Bool := false
  idtLoaded : Bool := false
  /-- the interrupted code -/
  returnTo : List Insn := []

/-- Guest, controllers and VMM. -/
structure Machine where
  vmm : Vmm
  chip : Irqchip
  cpu : Cpu
  /-- the vectors of the interrupts taken so far -/
  taken : List Nat
  /-- the instructions that the interrupt that waits has been held back for -/
  held : Nat
  /-- what `main` has returned -/
  returned : Option Nat

namespace Machine

variable (env : Env) (h : Handlers)

/-- `run->mmio.data` before a write; the device looks at no more than the four bytes written. -/
def noData : Memory := fun _ => 0

/-- An access to the device is an exit; its ioctls reach the controllers. -/
def access (s : Machine) (m : Mmio) : Machine :=
  let vmm := mmioExit env s.vmm m
  { s with
    vmm := vmm
    chip := s.chip.applyAll env s.vmm.ioctls.length (vmm.ioctls.drop s.vmm.ioctls.length)
    returned := if vmm.exited then some 1 else s.returned }

/-- The access of a register read. -/
def registerRead (offset : Fin deviceMmioSize) : Mmio where
  physAddr := BitVec.ofNat 64 (deviceMmioBase + offset)
  data := noData
  len := 4
  isWrite := false
  len_pos := register_pos
  len_le := register_le

def jump (s : Machine) (l : Label) : Machine := { s with cpu := { s.cpu with code := block l } }

def writeMem (s : Machine) (addr len value : Nat) : Machine :=
  { s with vmm := { s.vmm with guest := s.vmm.guest.storeLe addr len value } }

/-- `outb`: the PIC is in the kernel, and `main` looks at no other port than `DONE_PORT`. -/
def out (s : Machine) (port value : BitVec 8) : Machine :=
  if port = 0x21 then { s with chip := { s.chip with picMask := value } }
  else if port = donePort then { s with returned := some 0 }
  else s

/-- The bytes at two addresses are the same. -/
def bytesEqual (m : Memory) (dst src len : Nat) : Bool :=
  (List.range len).all fun i => m (dst + i) = m (src + i)

/-- Execute an instruction; `s` has the code after it. -/
def exec (s : Machine) : Insn → Machine
  | .device offset value => s.access env (registerWrite offset value noData)
  | .readDevice offset => s.access env (registerRead offset)
  | .lapic r value => { s with chip := { s.chip with lapic := s.chip.lapic.write value r } }
  | .ioapicSel value =>
    { s with chip := { s.chip with ioapic := { s.chip.ioapic with select := value } } }
  | .ioapicWin value => { s with chip := { s.chip with ioapic := s.chip.ioapic.window value } }
  | .store addr len value => s.writeMem addr len value
  | .lidt => { s with cpu := { s.cpu with idtLoaded := true } }
  | .outb port value => s.out port value
  | .incCount => s.writeMem irqCount 4 (s.vmm.guest.loadLe irqCount 4 + 1)
  | .setPolls n => { s with cpu := { s.cpu with ecx := n } }
  | .expectCount n l => if s.vmm.guest.loadLe irqCount 4 = n then s.jump l else s
  | .loop l =>
    let s' := { s with cpu := { s.cpu with ecx := s.cpu.ecx - 1 } }
    if s.cpu.ecx - 1 = 0 then s' else s'.jump l
  | .compare dst src len l => if bytesEqual s.vmm.guest dst src len then s else s.jump l
  | .jmp l => s.jump l
  | .cli => { s with cpu := { s.cpu with interrupts := false } }
  | .sti => { s with cpu := { s.cpu with interrupts := true, shadow := true } }
  | .nop => s
  | .hlt => { s with cpu := { s.cpu with halted := true } }
  | .pusha => { s with cpu := { s.cpu with saved := s.cpu.ecx } }
  | .popa => { s with cpu := { s.cpu with ecx := s.cpu.saved } }
  | .iret => { s with cpu := { s.cpu with code := s.cpu.returnTo, interrupts := true } }

/-! ## Interrupts -/

/-- The interrupt that can be taken now. -/
def deliverable (s : Machine) : Option Nat :=
  if s.cpu.interrupts ∧ ¬ s.cpu.shadow then s.chip.pending else none

/-- The gate of a vector: within the limit, present, an interrupt gate of the kernel's code. -/
def gate (m : Memory) (vector : Nat) : Option (BitVec 32) :=
  if vector ≤ msiVector.toNat ∧ m.loadLe (idtBase + vector * 8 + 2) 2 = kernelCs ∧
      m.loadLe (idtBase + vector * 8 + 5) 1 = 0x8e then
    some (BitVec.ofNat 32 (m.loadLe (idtBase + vector * 8) 2 +
      2 ^ 16 * m.loadLe (idtBase + vector * 8 + 6) 2))
  else none

/-- The processor finds one of the two handlers behind the gate. -/
def hasHandler (s : Machine) (vector : Nat) : Bool :=
  s.cpu.idtLoaded ∧ (gate s.vmm.guest vector = some h.irqHandler ∨
    gate s.vmm.guest vector = some h.msiHandler)

/-- The processor takes an interrupt. Without a handler it shuts down: `main` knows no such exit. -/
def interrupt (s : Machine) (vector : Nat) : Machine :=
  let s' := { s with
    chip := s.chip.acknowledge vector
    taken := s.taken ++ [vector]
    held := 0 }
  if s.hasHandler h vector then
    { s' with cpu :=
      { s.cpu with
        code := handlerCode
        interrupts := false
        halted := false
        returnTo := s.cpu.code } }
  else { s' with returned := some 1 }

/-! ## The system -/

inductive Act where
  /-- one instruction -/
  | run
  | interrupt
  /-- `KVM_EXIT_HLT` -/
  | haltExit
  deriving DecidableEq, Repr

def run (patience : Nat) (s : Machine) : Option Machine :=
  if s.cpu.halted then none
  else if s.deliverable.isSome ∧ patience ≤ s.held then none
  else
    match s.cpu.code with
    | [] => none
    | insn :: rest =>
      some (exec env
        { s with
          cpu := { s.cpu with code := rest, shadow := false }
          held := if s.deliverable.isSome then s.held + 1 else s.held } insn)

def step (patience : Nat) (s : Machine) (act : Act) : Option Machine :=
  if s.returned.isSome then none
  else
    match act with
    | .run => s.run env patience
    | .interrupt => s.deliverable.map (s.interrupt h)
    | .haltExit => if s.cpu.halted then some { s with returned := some 1 } else none

/-- Before the first `KVM_RUN`. -/
def start (image behind : Memory) : Machine where
  vmm := boot image behind
  chip := {}
  cpu := { code := protectedMode h }
  taken := []
  held := 0
  returned := none

end Machine

/-- What the image has in the places the phases look at. -/
structure IsImage (image : Memory) : Prop where
  count : image.loadLe irqCount 4 = 0
  src : ∀ i < 64, image (dmaSrc + i) = UInt8.ofNat i

/-- `GUEST_MEM_SIZE` -/
def guestMemSize : BitVec 64 := 0x20000

/-- The VMM with any results of its ioctls. -/
def machine (ioctl : Nat → Int) (h : Handlers) (patience : Nat) : System Machine Machine.Act where
  init s := ∃ image behind, IsImage image ∧ s = .start h image behind
  step s act := s.step ⟨guestMemSize, ioctl⟩ h patience act

end LinuxMaxxing.VirtIo
