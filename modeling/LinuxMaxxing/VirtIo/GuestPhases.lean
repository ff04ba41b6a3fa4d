import Mathlib.Data.List.Infix
import LinuxMaxxing.VirtIo.Guest

/-!
# What the Phases Prove

The guest's program with an annotation at each point of it (`Point`): how many commands have been
written, how many waits are over, whether interrupts are masked. `Checks` computes the annotations
along the code, so that the shape of the program is checked once (`guestPhases_checks`,
`block_checks`) and every proof about the machine is by cases on one instruction.

- `Progress`, `Outside`, `Inside`: what holds of the machine at a point, between and during
  interrupts;
- `Booting`: what holds before the phases;
- `guest_phases`: in every run, whichever ioctls fail and however long an interrupt is held back,
  the byte check does not fail, and the success of the VMM means that all five interrupts arrived
  in order and both transfers were exact.
-/

namespace LinuxMaxxing.VirtIo

open LinuxMaxxing.Lib

/-! ## The phases as data -/

namespace Phase

def all : List Phase := [.normal, .pending, .msi, .dmaTo, .dmaFrom]

def command : Phase → BitVec 32
  | .normal | .pending => cmdIrqOnly
  | .msi => cmdMsiOnly
  | .dmaTo => cmdDmaToDevice
  | .dmaFrom => cmdDmaFromDevice

/-- What `DMA_GPA` holds at the command. -/
def dmaGpa : Phase → BitVec 32
  | .dmaTo => BitVec.ofNat 32 dmaSrc
  | .dmaFrom => BitVec.ofNat 32 dmaDst
  | _ => 0

def completion : Phase → Completion
  | .msi => .msi
  | _ => .legacyEdge

/-- The vector that the completion arrives with. -/
def vector : Phase → Nat
  | .msi => msiVector.toNat
  | _ => deviceVector

end Phase

/-- The ioctls of the first `n` commands. -/
def ioctlsOf (n : Nat) : List Ioctl := (Phase.all.take n).flatMap fun p => p.completion.ioctls

/-- The vectors of the first `n` interrupts. -/
def vectorsOf (n : Nat) : List Nat := (Phase.all.take n).map Phase.vector

/-! ## Points of the program -/

/-- What is known of a run at a point of the code outside the handlers. -/
structure Point where
  /-- commands written -/
  issued : Nat
  /-- waits that are over -/
  passed : Nat
  masked : Bool
  dmaGpa : BitVec 32
  deriving DecidableEq, Repr

/-- Where the markers stand. -/
def Point.marks (a : Point) (value : BitVec 8) : Bool :=
  if value = markerApicReady then a = ⟨0, 0, true, 0⟩
  else if value = markerIrqPendingIf0 then a.issued = 2 ∧ a.passed = 1 ∧ a.masked
  else if value = markerMsi then a.issued = 2 ∧ a.passed = 2
  else false

/-- The point at a label that the phases jump to. -/
def Label.point : Label → Option Point
  | .poll p => some ⟨p.expect, p.expect - 1, false, p.dmaGpa⟩
  | .arrived p => some ⟨p.expect, p.expect, false, p.dmaGpa⟩
  | _ => none

/-- The point after a write to the device: a command has its turn, address included. -/
def Point.write (a : Point) (offset : Fin deviceMmioSize) (value : BitVec 32) : Option Point :=
  if offset = dmaGpaOffset then
    if a.issued = a.passed then some { a with dmaGpa := value } else none
  else
    match Phase.all[a.issued]? with
    | some p =>
      if offset = commandOffset ∧ a.issued = a.passed ∧ value = p.command ∧ a.dmaGpa = p.dmaGpa then
        some { a with issued := a.issued + 1 }
      else none
    | none => none

/-- The point after an instruction that has its place here. -/
def Point.next (a : Point) : Insn → Option Point
  | .device offset value => a.write offset value
  | .outb port value => if port = markerPort ∧ a.marks value then some a else none
  | .setPolls _ => some a
  | .nop => some a
  -- the jump is taken when the interrupt of the last command has arrived
  | .expectCount n l =>
    if n = a.issued ∧ l.point = some { a with passed := n } then some a else none
  | .loop l => if l.point = some a then some a else none
  -- only the interrupt of the last command ends the halt
  | .hlt => if a.passed < a.issued ∧ ¬ a.masked then some { a with passed := a.issued } else none
  | .compare dst src len _ =>
    if a.passed = 5 ∧ dst = dmaDst ∧ src = dmaSrc ∧ len = 64 then some a else none
  | .cli => if a.issued = a.passed then some { a with masked := true } else none
  | .sti => some { a with masked := false }
  | _ => none

/-- Every instruction has its place, up to the end of the run at `DONE_PORT`. -/
def Checks (a : Point) : List Insn → Bool
  | [] => false
  | insn :: rest =>
    if insn = .outb donePort 0 then a.passed = 5
    else
      match a.next insn with
      | some b => Checks b rest
      | none => false

theorem guestPhases_checks : Checks ⟨0, 0, true, 0⟩ guestPhases = true := by decide

theorem block_checks {l : Label} {a : Point} (h : l.point = some a) : Checks a (block l) = true := by
  cases l with
  | poll p =>
    obtain rfl := Option.some.inj h
    cases p <;> decide
  | arrived p =>
    obtain rfl := Option.some.inj h
    cases p <;> decide
  | dmaFailed => exact absurd h (by simp [Label.point])
  | isrBody => exact absurd h (by simp [Label.point])

/-- The code of a handler, which counts the interrupt and ends it once each. -/
def HandlerChecks (counted ended : Bool) : List Insn → Bool
  | [.iret] => counted ∧ ended
  | [.jmp .isrBody] => ¬ counted ∧ ¬ ended
  | .pusha :: rest | .popa :: rest => HandlerChecks counted ended rest
  | .incCount :: rest => ¬ counted ∧ HandlerChecks true ended rest
  | .readDevice offset :: rest => offset = statusOffset ∧ HandlerChecks counted ended rest
  | .device offset _ :: rest => offset = irqAckOffset ∧ HandlerChecks counted ended rest
  | .lapic .eoi _ :: rest => ¬ ended ∧ HandlerChecks counted true rest
  | _ => false

theorem isrBody_checks : HandlerChecks false false isrBody = true := by decide

/-! ## The device and the controllers -/

section Access

variable {env : Env} {v : Vmm}

/-- A four-byte write to a register. -/
theorem mmioExit_registerWrite (env : Env) (v : Vmm) (offset : Fin deviceMmioSize)
    (value : BitVec 32) :
    ∃ data : Memory, data.loadLe 0 4 = value.toNat ∧
      mmioExit env v (registerWrite offset value Machine.noData) =
        deviceMmioWrite env v (BitVec.ofNat 32 offset) data := by
  refine ⟨_, Memory.loadLe_storeLe Machine.noData 0 value.isLt, ?_⟩
  unfold mmioExit
  rw [if_pos (registerWrite_inWindow _ _ _),
    if_pos (show (registerWrite offset value Machine.noData).isWrite = true from rfl),
    registerWrite_offset]
  rfl

theorem write_dmaGpa (value : BitVec 32) :
    mmioExit env v (registerWrite dmaGpaOffset value Machine.noData) =
      { v with dev := { v.dev with dmaGpa := value } } := by
  obtain ⟨data, hdata, hwrite⟩ := mmioExit_registerWrite env v dmaGpaOffset value
  rw [hwrite]
  unfold deviceMmioWrite
  rw [hdata, BitVec.ofNat_toNat, BitVec.setWidth_eq]
  rfl

theorem write_irqAck (value : BitVec 32) :
    mmioExit env v (registerWrite irqAckOffset value Machine.noData) =
      v.setStatus (v.dev.status &&& ~~~statusDone) := by
  obtain ⟨data, hdata, hwrite⟩ := mmioExit_registerWrite env v irqAckOffset value
  rw [hwrite]
  rfl

theorem read_status :
    mmioExit env v (Machine.registerRead statusOffset) = v := by
  unfold mmioExit
  split_ifs <;> rfl

/-- The two transfers are in range. -/
theorem transfer_range {gpa : BitVec 32} (hsize : env.guestMemSize = guestMemSize)
    (hgpa : gpa.toNat + 64 ≤ 0x20000) :
    ¬ (gpa.setWidth 64 + dmaXferSize.setWidth 64 < gpa.setWidth 64 ∨
      env.guestMemSize < gpa.setWidth 64 + dmaXferSize.setWidth 64) := by
  rw [range_check_iff gpa, hsize]
  have hlab : guestMemSize.toNat = 0x20000 := by decide
  omega

/-- What a transfer leaves alone. -/
structure Transferred (v w : Vmm) : Prop where
  ioctls : w.ioctls = v.ioctls
  exited : w.exited = v.exited
  command : w.dev.command = v.dev.command
  dmaGpa : w.dev.dmaGpa = v.dev.dmaGpa
  result : w.dev.result = bytesum w.dev.buffer 64

theorem transfer_to (hsize : env.guestMemSize = guestMemSize)
    (hgpa : v.dev.dmaGpa = Phase.dmaTo.dmaGpa) :
    ∃ w, deviceDmaTransfer env v cmdDmaToDevice (v.dev.dmaGpa.setWidth 64) dmaXferSize = (true, w) ∧
      Transferred v w ∧ w.guest = v.guest ∧
      w.dev.buffer = memcpy v.dev.buffer 0 v.guest dmaSrc 64 := by
  unfold deviceDmaTransfer
  rw [if_neg (by decide), if_neg (transfer_range hsize (by rw [hgpa]; decide)), if_pos rfl, hgpa]
  exact ⟨_, rfl, ⟨rfl, rfl, rfl, rfl, rfl⟩, rfl, rfl⟩

theorem transfer_from (hsize : env.guestMemSize = guestMemSize)
    (hgpa : v.dev.dmaGpa = Phase.dmaFrom.dmaGpa) :
    ∃ w, deviceDmaTransfer env v cmdDmaFromDevice (v.dev.dmaGpa.setWidth 64) dmaXferSize =
        (true, w) ∧
      Transferred v w ∧ w.guest = memcpy v.guest dmaDst v.dev.buffer 0 64 ∧
      w.dev.buffer = v.dev.buffer := by
  unfold deviceDmaTransfer
  rw [if_neg (by decide), if_neg (transfer_range hsize (by rw [hgpa]; decide)),
    if_neg (by decide), if_pos rfl, hgpa]
  exact ⟨_, rfl, ⟨rfl, rfl, rfl, rfl, rfl⟩, rfl, rfl⟩

/-- The end of a command that transferred: a completion on the legacy line. -/
theorem execute_transfer {dir : BitVec 32} {x : Vmm}
    (hdir : dir = cmdDmaToDevice ∨ dir = cmdDmaFromDevice)
    (htransfer : deviceDmaTransfer env
      (({ v with dev := { v.dev with command := dir } } : Vmm).setStatus statusBusy) dir
      (v.dev.dmaGpa.setWidth 64) dmaXferSize = (true, x))
    (hx : x.dev.command = dir) :
    deviceExecuteCommand env { v with dev := { v.dev with command := dir } } =
      deviceRaiseLegacyIrq (x.setStatus statusDone) := by
  have hother : ¬ (dir = cmdIrqOnly ∨ dir = cmdMsiOnly) := by
    rcases hdir with rfl | rfl <;> decide
  have hdispatch : dispatchCommand env
      (({ v with dev := { v.dev with command := dir } } : Vmm).setStatus statusBusy) =
      (true, x) := (if_neg hother).trans ((if_pos hdir).trans htransfer)
  have hmsi : ¬ (x.setStatus statusDone).dev.command = cmdMsiOnly := by
    rw [show (x.setStatus statusDone).dev.command = dir from hx]
    exact fun h => hother (.inr h)
  unfold deviceExecuteCommand
  rw [hdispatch]
  simp only [Bool.not_true, Bool.false_eq_true, if_false, if_neg hmsi]

/-- **Commands**: what each of the five does, to the device, to guest memory and outside. -/
theorem write_command {p : Phase} (hsize : env.guestMemSize = guestMemSize)
    (hgpa : v.dev.dmaGpa = p.dmaGpa) {w : Vmm}
    (hw : mmioExit env v (registerWrite commandOffset p.command Machine.noData) = w) :
    w.ioctls = v.ioctls ++ p.completion.ioctls ∧
      w.exited = (if p = .msi then decide (env.ioctl v.ioctls.length ≤ 0) else v.exited) ∧
      w.dev.dmaGpa = v.dev.dmaGpa ∧
      w.guest = (if p = .dmaFrom then memcpy v.guest dmaDst v.dev.buffer 0 64 else v.guest) ∧
      w.dev.buffer =
        (if p = .dmaTo then memcpy v.dev.buffer 0 v.guest dmaSrc 64 else v.dev.buffer) ∧
      (p = .dmaTo ∨ p = .dmaFrom → w.dev.result = bytesum w.dev.buffer 64) := by
  obtain ⟨data, hdata, hwrite⟩ := mmioExit_registerWrite env v commandOffset p.command
  have hexecute : mmioExit env v (registerWrite commandOffset p.command Machine.noData) =
      deviceExecuteCommand env { v with dev := { v.dev with command := p.command } } := by
    rw [hwrite]
    unfold deviceMmioWrite
    rw [hdata, BitVec.ofNat_toNat, BitVec.setWidth_eq]
    rfl
  rw [← hw, hexecute]
  cases p with
  | normal | pending | msi => exact ⟨rfl, rfl, rfl, rfl, rfl, by simp⟩
  | dmaTo =>
    obtain ⟨x, htransfer, hx, hguest, hbuffer⟩ :=
      transfer_to (v := ({ v with dev := { v.dev with command := cmdDmaToDevice } } : Vmm).setStatus
        statusBusy) hsize hgpa
    rw [show Phase.dmaTo.command = cmdDmaToDevice from rfl,
      execute_transfer (.inl rfl) htransfer hx.command]
    refine ⟨?_, hx.exited, hx.dmaGpa, hguest, hbuffer, fun _ => hx.result⟩
    show x.ioctls ++ _ = _
    rw [hx.ioctls]
    rfl
  | dmaFrom =>
    obtain ⟨x, htransfer, hx, hguest, hbuffer⟩ :=
      transfer_from (v := ({ v with dev := { v.dev with command := cmdDmaFromDevice } } :
        Vmm).setStatus statusBusy) hsize hgpa
    rw [show Phase.dmaFrom.command = cmdDmaFromDevice from rfl,
      execute_transfer (.inr rfl) htransfer hx.command]
    refine ⟨?_, hx.exited, hx.dmaGpa, hguest, hbuffer, fun _ => hx.result⟩
    show x.ioctls ++ _ = _
    rw [hx.ioctls]
    rfl

end Access

/-- The controllers as the guest has set them up. -/
structure Irqchip.Ready (c : Irqchip) : Prop where
  tpr : c.lapic.tpr = 0
  enabled : c.lapic.enabled = true
  delivers : c.ioapic.delivers = true
  vector : (c.ioapic.rteLow &&& 0xff).toNat = deviceVector
  picMask : c.picMask.getLsbD 4 = true
  picRequested : c.picRequested = false

namespace Irqchip

variable {c : Irqchip}

theorem Ready.setLine (h : c.Ready) (level : Bool) :
    (c.setLine level).Ready ∧ (c.setLine level).lapic.isr = c.lapic.isr ∧
      (c.setLine level).line = level ∧
      (c.setLine level).lapic.irr =
        if level ∧ ¬ c.line then insert deviceVector c.lapic.irr else c.lapic.irr := by
  unfold Irqchip.setLine
  split_ifs with hedge
  · have hlapic : c.edge.lapic = { c.lapic with irr := insert deviceVector c.lapic.irr } := by
      simp only [Irqchip.edge, h.delivers, if_true, Lapic.accept, h.enabled, h.vector]
    have hpic : c.edge.picRequested = false := by
      simp only [Irqchip.edge, h.picRequested, h.picMask, Bool.not_true, Bool.or_self]
    refine ⟨⟨?_, ?_, h.delivers, h.vector, h.picMask, hpic⟩, ?_, rfl, ?_⟩
    · show c.edge.lapic.tpr = 0
      rw [hlapic]
      exact h.tpr
    · show c.edge.lapic.enabled = true
      rw [hlapic]
      exact h.enabled
    · show c.edge.lapic.isr = _
      rw [hlapic]
    · show c.edge.lapic.irr = _
      rw [hlapic]
  · exact ⟨⟨h.tpr, h.enabled, h.delivers, h.vector, h.picMask, h.picRequested⟩, rfl, rfl, rfl⟩

/-- The edge of a legacy completion, whichever half of it fails. -/
theorem Ready.legacyEdge (h : c.Ready) (raised lowered : Bool) {d : Irqchip}
    (hd : (if lowered then (if raised then c.setLine true else c).setLine false
      else if raised then c.setLine true else c) = d) :
    d.Ready ∧ d.lapic.isr = c.lapic.isr ∧ d.lapic.irr ⊆ insert deviceVector c.lapic.irr ∧
      (raised = true → lowered = true → c.line = false →
        d.line = false ∧ d.lapic.irr = insert deviceVector c.lapic.irr) := by
  obtain ⟨hready, hisr, hline, hirr⟩ := h.setLine true
  have hsub : (c.setLine true).lapic.irr ⊆ insert deviceVector c.lapic.irr := by
    rw [hirr]
    split_ifs
    · exact Finset.Subset.refl _
    · exact Finset.subset_insert _ _
  cases raised with
  | false =>
    simp only [Bool.false_eq_true, if_false] at hd
    cases lowered with
    | false =>
      subst hd
      exact ⟨h, rfl, Finset.subset_insert _ _, fun hr => absurd hr (by simp)⟩
    | true =>
      subst hd
      obtain ⟨hready', hisr', -, hirr'⟩ := h.setLine false
      refine ⟨hready', hisr', ?_, fun hr => absurd hr (by simp)⟩
      rw [if_pos rfl, hirr']
      simp
  | true =>
    simp only [if_true] at hd
    cases lowered with
    | false =>
      subst hd
      exact ⟨hready, hisr, hsub, fun _ hl => absurd hl (by simp)⟩
    | true =>
      subst hd
      obtain ⟨hready', hisr', hline', hirr'⟩ := hready.setLine false
      simp only [Bool.false_eq_true, false_and, if_false] at hirr'
      refine ⟨hready', hisr'.trans hisr, ?_, fun _ _ hlow => ⟨hline', ?_⟩⟩
      · rw [if_pos rfl, hirr']
        exact hsub
      · rw [if_pos rfl, hirr', hirr, hlow]
        simp

/-- The message of phase D. -/
theorem Ready.message (h : c.Ready) :
    (c.apply (.signalMsi 0xfee00000 0 msiVector)).Ready ∧
      c.apply (.signalMsi 0xfee00000 0 msiVector) =
        { c with lapic := { c.lapic with irr := insert msiVector.toNat c.lapic.irr } } := by
  have hvalue : c.apply (.signalMsi 0xfee00000 0 msiVector) =
      { c with lapic := { c.lapic with irr := insert msiVector.toNat c.lapic.irr } } := by
    unfold Irqchip.apply Lapic.accept
    simp only [h.enabled, if_true]
    rfl
  refine ⟨?_, hvalue⟩
  rw [hvalue]
  exact ⟨h.tpr, h.enabled, h.delivers, h.vector, h.picMask, h.picRequested⟩

/-- **Completions**: what the ioctls of a phase request. If none failed, and the line was low, the
    vector is requested and the line is low again. -/
theorem Ready.applyAll (h : c.Ready) (env : Env) (n : Nat) (p : Phase) :
    (c.applyAll env n p.completion.ioctls).Ready ∧
      (c.applyAll env n p.completion.ioctls).lapic.isr = c.lapic.isr ∧
      (c.applyAll env n p.completion.ioctls).lapic.irr ⊆ insert p.vector c.lapic.irr ∧
      ((∀ k i, p.completion.ioctls[k]? = some i → env.succeeds (n + k) i = true) →
        c.line = false → (c.applyAll env n p.completion.ioctls).line = false ∧
          (c.applyAll env n p.completion.ioctls).lapic.irr = insert p.vector c.lapic.irr) := by
  cases p with
  | normal | pending | dmaTo | dmaFrom =>
    obtain ⟨hready, hisr, hirr, hsuccess⟩ :=
      h.legacyEdge (env.succeeds n (.irqLine deviceGsi 1))
        (env.succeeds (n + 1) (.irqLine deviceGsi 0)) rfl
    refine ⟨hready, hisr, hirr, fun hall hlow => ?_⟩
    exact hsuccess (hall 0 _ rfl) (hall 1 _ rfl) hlow
  | msi =>
    obtain ⟨hready, hvalue⟩ := h.message
    simp only [Phase.completion, Completion.ioctls, Irqchip.applyAll]
    split_ifs with hdelivered
    · refine ⟨hready, ?_, ?_, fun _ hlow => ⟨?_, ?_⟩⟩
      · rw [hvalue]
      · rw [hvalue]
        exact Finset.Subset.refl _
      · rw [hvalue]
        exact hlow
      · rw [hvalue]
        rfl
    · refine ⟨h, rfl, Finset.subset_insert _ _, fun hall => ?_⟩
      exact absurd (hall 0 _ rfl) hdelivered

end Irqchip

/-! ## Guest memory -/

section GuestMemory

variable {m m' : Memory}

/-- A gate is what its eight bytes make it. -/
theorem gate_congr_bytes {vector : Nat}
    (h : ∀ i, idtBase + vector * 8 ≤ i → i < idtBase + vector * 8 + 8 → m' i = m i) :
    Machine.gate m' vector = Machine.gate m vector := by
  have hload : ∀ offset len, offset + len ≤ 8 →
      m'.loadLe (idtBase + vector * 8 + offset) len =
        m.loadLe (idtBase + vector * 8 + offset) len := by
    intro offset len hfits
    apply Memory.loadLe_congr
    intro i hlo hhi
    exact h i (by omega) (by omega)
  unfold Machine.gate
  rw [hload 2 2 (by decide), hload 5 1 (by decide), hload 6 2 (by decide),
    show idtBase + vector * 8 = idtBase + vector * 8 + 0 from rfl, hload 0 2 (by decide)]

/-- All gates lie below `irq_count`. -/
theorem gate_congr (h : ∀ i < irqCount, m' i = m i) (vector : Nat) :
    Machine.gate m' vector = Machine.gate m vector := by
  by_cases hlimit : vector ≤ msiVector.toNat
  · apply gate_congr_bytes
    intro i _ hhi
    apply h
    have hvector : vector ≤ 0x41 := hlimit
    show i < 0x4000
    have hbase : idtBase = 0x1000 := rfl
    omega
  · unfold Machine.gate
    rw [if_neg fun hc => hlimit hc.1, if_neg fun hc => hlimit hc.1]

/-- The stores of `BUILD_GATE`. -/
def withGate (m : Memory) (handler : BitVec 32) (vector : Nat) : Memory :=
  ((((m.storeLe (idtBase + vector * 8) 2 (handler.toNat % 2 ^ 16)).storeLe
    (idtBase + vector * 8 + 2) 2 kernelCs).storeLe (idtBase + vector * 8 + 4) 1 0).storeLe
    (idtBase + vector * 8 + 5) 1 0x8e).storeLe (idtBase + vector * 8 + 6) 2
      (handler.toNat / 2 ^ 16)

theorem gate_withGate (m : Memory) (handler : BitVec 32) {vector : Nat}
    (hv : vector ≤ msiVector.toNat) :
    Machine.gate (withGate m handler vector) vector = some handler := by
  have hlow : handler.toNat % 2 ^ 16 < 256 ^ 2 := Nat.mod_lt _ (by decide)
  have hhigh : handler.toNat / 2 ^ 16 < 256 ^ 2 := Nat.div_lt_of_lt_mul handler.isLt
  unfold Machine.gate withGate
  simp (disch := omega) only [Memory.loadLe_storeLe_of_disjoint]
  rw [Memory.loadLe_storeLe _ _ hlow, Memory.loadLe_storeLe _ _ hhigh,
    Memory.loadLe_storeLe _ _ (by decide), Memory.loadLe_storeLe _ _ (by decide),
    if_pos ⟨hv, rfl, rfl⟩, Nat.mod_add_div, BitVec.ofNat_toNat, BitVec.setWidth_eq]

theorem withGate_frame (m : Memory) (handler : BitVec 32) {vector i : Nat}
    (hi : i < idtBase + vector * 8 ∨ idtBase + vector * 8 + 8 ≤ i) :
    withGate m handler vector i = m i := by
  unfold withGate Memory.storeLe
  rw [Memory.storeBytes_frame _ (by rw [Memory.length_leBytes]; omega),
    Memory.storeBytes_frame _ (by rw [Memory.length_leBytes]; omega),
    Memory.storeBytes_frame _ (by rw [Memory.length_leBytes]; omega),
    Memory.storeBytes_frame _ (by rw [Memory.length_leBytes]; omega),
    Memory.storeBytes_frame _ (by rw [Memory.length_leBytes]; omega)]

/-- The stores of `setup_idt`. -/
def withIdt (m : Memory) (h : Handlers) : Memory :=
  withGate (withGate m h.irqHandler deviceVector) h.msiHandler msiVector.toNat

theorem gate_withIdt (m : Memory) (h : Handlers) :
    Machine.gate (withIdt m h) deviceVector = some h.irqHandler ∧
      Machine.gate (withIdt m h) msiVector.toNat = some h.msiHandler := by
  refine ⟨?_, gate_withGate _ _ le_rfl⟩
  have hbeside : Machine.gate (withIdt m h) deviceVector =
      Machine.gate (withGate m h.irqHandler deviceVector) deviceVector :=
    gate_congr_bytes fun i _ hhi => withGate_frame _ _ (.inl hhi)
  rw [hbeside]
  exact gate_withGate _ _ (by decide)

theorem withIdt_frame (m : Memory) (h : Handlers) {i : Nat} (hi : irqCount ≤ i) :
    withIdt m h i = m i := by
  unfold withIdt
  rw [withGate_frame _ _ (.inr (le_trans (by decide) hi)),
    withGate_frame _ _ (.inr (le_trans (by decide) hi))]

theorem store_count_frame (value : Nat) {i : Nat} (hi : i < irqCount ∨ irqCount + 4 ≤ i) :
    m.storeLe irqCount 4 value i = m i := by
  apply Memory.storeBytes_frame
  rwa [Memory.length_leBytes]

theorem memcpy_frame {dstAddr srcAddr len i : Nat} {src : Memory}
    (hi : i < dstAddr ∨ dstAddr + len ≤ i) : memcpy m dstAddr src srcAddr len i = m i := by
  unfold memcpy
  rw [if_neg (by omega)]

theorem memcpy_of_mem {dstAddr srcAddr len i : Nat} {src : Memory} (hi : i < len) :
    memcpy m dstAddr src srcAddr len (dstAddr + i) = src (srcAddr + i) := by
  unfold memcpy
  rw [if_pos (by omega), Nat.add_sub_cancel_left]

/-- The bytes 0 to 63 add up to 2016. -/
theorem bytesum_source (h : ∀ i < 64, m i = UInt8.ofNat i) : bytesum m 64 = 2016 := by
  have hsum : checksum m = 2016 := by
    have hcongr : checksum m = ∑ i ∈ Finset.range 64, i := by
      apply Finset.sum_congr rfl
      intro i hi
      have hlt := Finset.mem_range.mp hi
      rw [h i hlt]
      exact Nat.mod_eq_of_lt (by omega)
    rw [hcongr]
    decide
  apply BitVec.eq_of_toNat_eq
  rw [bytesum_toNat, hsum]
  rfl

end GuestMemory

/-! ## What holds of the machine -/

/-- What the guest has set up. -/
structure SetUp (h : Handlers) (s : Machine) : Prop where
  idt : s.cpu.idtLoaded = true
  legacyGate : Machine.gate s.vmm.guest deviceVector = some h.irqHandler
  msiGate : Machine.gate s.vmm.guest msiVector.toNat = some h.msiHandler
  chip : s.chip.Ready

/-- What the transfers have moved. -/
structure Moved (a : Point) (v : Vmm) : Prop where
  src : ∀ i < 64, v.guest (dmaSrc + i) = UInt8.ofNat i
  dmaGpa : v.dev.dmaGpa = a.dmaGpa
  buffer : 4 ≤ a.issued → ∀ i < 64, v.dev.buffer i = UInt8.ofNat i
  result : 4 ≤ a.issued → v.dev.result = 2016
  dst : 5 ≤ a.issued → ∀ i < 64, v.guest (dmaDst + i) = UInt8.ofNat i

/-- The vectors of the commands whose interrupts have not been taken. -/
def due (t issued : Nat) : Finset Nat := ((vectorsOf issued).drop t).toFinset

/-- The first `n` commands were completed without a failure. -/
def Completed (env : Env) (n : Nat) : Prop :=
  ∀ k i, (ioctlsOf n)[k]? = some i → env.succeeds k i = true

/-- The machine at a point of its phases, with `t` interrupts taken. -/
structure Progress (env : Env) (h : Handlers) (a : Point) (t : Nat) (s : Machine) : Prop where
  taken_le : t ≤ a.issued
  issued_le : a.issued ≤ t + 1
  issued_five : a.issued ≤ 5
  passed_le : a.passed ≤ a.issued
  masked : a.masked = true → t = a.passed
  taken : s.taken = vectorsOf t
  ioctls : s.vmm.ioctls = ioctlsOf a.issued
  exited : s.vmm.exited = false
  returned : s.returned = none
  setUp : SetUp h s
  moved : Moved a s.vmm
  irr : s.chip.lapic.irr ⊆ due t a.issued
  completed : Completed env a.issued → s.chip.line = false ∧ s.chip.lapic.irr = due t a.issued

/-- No interrupt is being handled. -/
structure Quiet (a : Point) (t : Nat) (s : Machine) : Prop where
  interrupts : s.cpu.interrupts = !a.masked
  passed : s.cpu.halted = false → a.passed ≤ t
  count : s.vmm.guest.loadLe irqCount 4 = t
  isr : s.chip.lapic.isr = ∅

/-- Between interrupts. -/
structure Outside (a : Point) (t : Nat) (s : Machine) : Prop extends Quiet a t s where
  code : Checks a s.cpu.code = true

/-- During the interrupt of the last command. -/
structure Inside (a : Point) (t : Nat) (counted ended : Bool) (s : Machine) : Prop where
  code : HandlerChecks counted ended s.cpu.code = true
  returnTo : Checks a s.cpu.returnTo = true
  interrupts : s.cpu.interrupts = false
  halted : s.cpu.halted = false
  unmasked : a.masked = false
  arrived : t = a.issued
  count : s.vmm.guest.loadLe irqCount 4 + (if counted then 0 else 1) = t
  isr : if ended then s.chip.lapic.isr = ∅ else ∃ v, s.chip.lapic.isr = {v}

/-- The phases are running. -/
def Running (env : Env) (h : Handlers) (s : Machine) : Prop :=
  ∃ a t, Progress env h a t s ∧ (Outside a t s ∨ ∃ counted ended, Inside a t counted ended s)

/-- The guest has reported success. -/
structure Finished (s : Machine) : Prop where
  returned : s.returned = some 0
  taken : s.taken = vectorsOf 5
  ioctls : s.vmm.ioctls = ioctlsOf 5
  irr : s.chip.lapic.irr = ∅
  isr : s.chip.lapic.isr = ∅
  result : s.vmm.dev.result = 2016
  src : ∀ i < 64, s.vmm.guest (dmaSrc + i) = UInt8.ofNat i
  dst : ∀ i < 64, s.vmm.guest (dmaDst + i) = UInt8.ofNat i

/-- The VMM has given up. -/
structure Failed (env : Env) (s : Machine) : Prop where
  returned : s.returned = some 1
  cause : s.cpu.halted = true ∨ ¬ Completed env 5
  taken : s.taken <+: vectorsOf 5
  ioctls : s.vmm.ioctls <+: ioctlsOf 5

/-! ### Facts about the phases -/

theorem phase_at {n : Nat} {p : Phase} (h : Phase.all[n]? = some p) : p.expect = n + 1 := by
  match n, h with
  | 0, h | 1, h | 2, h | 3, h | 4, h => cases h; rfl
  | n + 5, h => exact absurd h (by simp [Phase.all])

theorem ioctlsOf_succ {n : Nat} {p : Phase} (h : Phase.all[n]? = some p) :
    ioctlsOf (n + 1) = ioctlsOf n ++ p.completion.ioctls := by
  unfold ioctlsOf
  rw [List.take_add_one, h, List.flatMap_append]
  simp

theorem vectorsOf_succ {n : Nat} {p : Phase} (h : Phase.all[n]? = some p) :
    vectorsOf (n + 1) = vectorsOf n ++ [p.vector] := by
  unfold vectorsOf
  rw [List.take_add_one, h, List.map_append]
  rfl

theorem length_vectorsOf {n : Nat} (h : n ≤ 5) : (vectorsOf n).length = n := by
  unfold vectorsOf
  rw [List.length_map, List.length_take]
  exact Nat.min_eq_left h

theorem due_self (n : Nat) (h : n ≤ 5) : due n n = ∅ := by
  unfold due
  rw [List.drop_of_length_le (length_vectorsOf h).le]
  rfl

theorem due_succ {n : Nat} {p : Phase} (h : Phase.all[n]? = some p) (hn : n ≤ 5) :
    due n (n + 1) = {p.vector} := by
  unfold due
  rw [vectorsOf_succ h, List.drop_append_of_le_length (length_vectorsOf hn).ge,
    List.drop_of_length_le (length_vectorsOf hn).le]
  rfl

theorem vectorsOf_prefix (n : Nat) : vectorsOf n <+: vectorsOf 5 :=
  (List.take_prefix n Phase.all).map Phase.vector

theorem ioctlsOf_prefix (n : Nat) : ioctlsOf n <+: ioctlsOf 5 :=
  (List.take_prefix n Phase.all).flatMap fun p => p.completion.ioctls

/-- The next phase of a run that is not at its end. -/
theorem exists_phase {n : Nat} (h : n < 5) : ∃ p, Phase.all[n]? = some p :=
  ⟨Phase.all[n], List.getElem?_eq_getElem h⟩

/-- The first commands were completed if more were. -/
theorem Completed.mono {env : Env} {m n : Nat} (hmn : m ≤ n) (h : Completed env n) :
    Completed env m := by
  have htaken : ioctlsOf m <+: ioctlsOf n := by
    unfold ioctlsOf
    exact (List.take_prefix_take_left hmn).flatMap _
  intro k i hk
  apply h k i
  exact List.getElem?_eq_some_iff.mpr ((List.getElem?_eq_some_iff.mp hk).elim fun hlt heq =>
    ⟨hlt.trans_le htaken.length_le, (htaken.getElem hlt).symm.trans heq⟩)

/-- The command after the first `n` has ioctls of its own. -/
theorem Completed.split {env : Env} {n : Nat} {p : Phase} (hp : Phase.all[n]? = some p)
    (h : Completed env (n + 1)) : Completed env n ∧
      ∀ k i, p.completion.ioctls[k]? = some i → env.succeeds ((ioctlsOf n).length + k) i = true := by
  unfold Completed at h
  rw [ioctlsOf_succ hp] at h
  constructor
  · intro k i hk
    apply h k i
    rw [List.getElem?_append_left (List.getElem?_eq_some_iff.mp hk).1]
    exact hk
  · intro k i hk
    apply h _ i
    rw [List.getElem?_append_right (Nat.le_add_right _ _), Nat.add_sub_cancel_left]
    exact hk

/-! ## One instruction -/

theorem checks_cons {a : Point} {insn : Insn} {rest : List Insn}
    (h : Checks a (insn :: rest) = true) :
    (insn = .outb donePort 0 ∧ a.passed = 5) ∨
      ∃ b, a.next insn = some b ∧ Checks b rest = true := by
  unfold Checks at h
  split_ifs at h with hdone
  · exact .inl ⟨hdone, by simpa using h⟩
  · split at h
    · exact .inr ⟨_, ‹_›, h⟩
    · exact absurd h (by simp)

section Steps

variable {env : Env} {h : Handlers} {a : Point} {t : Nat} {s : Machine} {cpu : Cpu} {held : Nat}

/-- Progress does not depend on where the processor is. -/
theorem Progress.setCpu (hp : Progress env h a t s) (hidt : cpu.idtLoaded = s.cpu.idtLoaded) :
    Progress env h a t { s with cpu := cpu, held := held } := by
  have hset := hp.setUp
  exact
    { hp with
      setUp := ⟨hidt.trans hset.idt, hset.legacyGate, hset.msiGate, hset.chip⟩
      moved := hp.moved }

theorem Progress.failed (hp : Progress env h a t s) {s' : Machine} (htaken : s'.taken = s.taken)
    (hioctls : s'.vmm.ioctls = s.vmm.ioctls) (hreturned : s'.returned = some 1)
    (hhalted : s'.cpu.halted = true) : Failed env s' where
  returned := hreturned
  cause := .inl hhalted
  taken := htaken ▸ hp.taken ▸ vectorsOf_prefix t
  ioctls := hioctls ▸ hp.ioctls ▸ ioctlsOf_prefix a.issued

/-- The processor moves on, and the rest of the machine stays. -/
theorem Progress.move (hp : Progress env h a t s) (ho : Outside a t s) (b : Point)
    (hissued : b.issued = a.issued) (hgpa : b.dmaGpa = a.dmaGpa) (hpassed : b.passed ≤ b.issued)
    (hmasked : b.masked = true → t = b.passed) (hidt : cpu.idtLoaded = s.cpu.idtLoaded)
    (hcode : Checks b cpu.code = true) (hinterrupts : cpu.interrupts = !b.masked)
    (harrived : cpu.halted = false → b.passed ≤ t) :
    Running env h { s with cpu := cpu, held := held } := by
  refine ⟨b, t, ?_, .inl ⟨⟨hinterrupts, harrived, ho.count, ho.isr⟩, hcode⟩⟩
  have hset := hp.setUp
  have hmoved := hp.moved
  exact
    { taken_le := hissued ▸ hp.taken_le
      issued_le := hissued ▸ hp.issued_le
      issued_five := hissued ▸ hp.issued_five
      passed_le := hpassed
      masked := hmasked
      taken := hp.taken
      ioctls := hissued ▸ hp.ioctls
      exited := hp.exited
      returned := hp.returned
      setUp := ⟨hidt.trans hset.idt, hset.legacyGate, hset.msiGate, hset.chip⟩
      moved := ⟨hmoved.src, hmoved.dmaGpa.trans hgpa.symm, hissued ▸ hmoved.buffer,
        hissued ▸ hmoved.result, hissued ▸ hmoved.dst⟩
      irr := hissued ▸ hp.irr
      completed := hissued ▸ hp.completed }

/-- `DMA_GPA` is written. -/
theorem Progress.setGpa (hp : Progress env h a t s) (hq : Quiet a t s) {value : BitVec 32}
    (hcode : Checks { a with dmaGpa := value } s.cpu.code = true) :
    Running env h (s.access env (registerWrite dmaGpaOffset value Machine.noData)) := by
  have hset := hp.setUp
  have hmoved := hp.moved
  have haccess : s.access env (registerWrite dmaGpaOffset value Machine.noData) =
      { s with vmm := { s.vmm with dev := { s.vmm.dev with dmaGpa := value } } } := by
    unfold Machine.access
    simp only [write_dmaGpa, List.drop_length, Irqchip.applyAll, hp.exited, Bool.false_eq_true,
      if_false]
  rw [haccess]
  refine ⟨{ a with dmaGpa := value }, t, ?_,
    .inl ⟨⟨hq.interrupts, hq.passed, hq.count, hq.isr⟩, hcode⟩⟩
  exact
    { taken_le := hp.taken_le
      issued_le := hp.issued_le
      issued_five := hp.issued_five
      passed_le := hp.passed_le
      masked := hp.masked
      taken := hp.taken
      ioctls := hp.ioctls
      exited := hp.exited
      returned := hp.returned
      setUp := ⟨hset.idt, hset.legacyGate, hset.msiGate, hset.chip⟩
      moved := ⟨hmoved.src, rfl, hmoved.buffer, hmoved.result, hmoved.dst⟩
      irr := hp.irr
      completed := hp.completed }

/-- What a command moves. -/
theorem Moved.command {v w : Vmm} {p : Phase} (hm : Moved a v) (hp : Phase.all[a.issued]? = some p)
    (hgpa : w.dev.dmaGpa = v.dev.dmaGpa)
    (hguest : w.guest = if p = .dmaFrom then memcpy v.guest dmaDst v.dev.buffer 0 64 else v.guest)
    (hbuffer : w.dev.buffer =
      if p = .dmaTo then memcpy v.dev.buffer 0 v.guest dmaSrc 64 else v.dev.buffer)
    (hresult : p = .dmaTo ∨ p = .dmaFrom → w.dev.result = bytesum w.dev.buffer 64) :
    Moved { a with issued := a.issued + 1 } w := by
  have hexpect := phase_at hp
  -- from the fourth command on the device has the source
  have hbytes : 4 ≤ a.issued + 1 → ∀ i < 64, w.dev.buffer i = UInt8.ofNat i := by
    intro hfour i hi
    rw [hbuffer]
    split_ifs with hto
    · have hcopied : memcpy v.dev.buffer 0 v.guest dmaSrc 64 (0 + i) = v.guest (dmaSrc + i) :=
        memcpy_of_mem hi
      rw [Nat.zero_add] at hcopied
      rw [hcopied, hm.src i hi]
    · refine hm.buffer ?_ i hi
      by_contra hlt
      have hthree : p.expect = 4 := by omega
      cases p <;> simp_all [Phase.expect]
  refine ⟨?_, hgpa.trans hm.dmaGpa, hbytes, ?_, ?_⟩
  · intro i hi
    rw [hguest]
    split_ifs
    · have hbelow : dmaSrc + i < dmaDst := by
        unfold dmaSrc dmaDst
        omega
      rw [memcpy_frame (.inl hbelow)]
      exact hm.src i hi
    · exact hm.src i hi
  · intro hfour
    have hfour' : 4 ≤ p.expect := hexpect ▸ hfour
    rw [hresult (by cases p <;> simp_all [Phase.expect])]
    exact bytesum_source (hbytes hfour)
  · intro hfive i hi
    have hfive' : 5 ≤ p.expect := hexpect ▸ hfive
    have hfrom : p = .dmaFrom := by cases p <;> simp_all [Phase.expect]
    rw [hguest, if_pos hfrom, memcpy_of_mem hi, Nat.zero_add]
    exact hm.buffer (by omega) i hi

/-- **A command is written.** A failing message ends the VMM. -/
theorem Progress.command (hp : Progress env h a t s) (hq : Quiet a t s)
    (hsize : env.guestMemSize = guestMemSize) {p : Phase} (hphase : Phase.all[a.issued]? = some p)
    (heven : a.issued = a.passed) (ht : a.passed ≤ t) (hgpa : a.dmaGpa = p.dmaGpa)
    (hcode : Checks { a with issued := a.issued + 1 } s.cpu.code = true) :
    Running env h (s.access env (registerWrite commandOffset p.command Machine.noData)) ∨
      Failed env (s.access env (registerWrite commandOffset p.command Machine.noData)) := by
  have hset := hp.setUp
  have hmoved := hp.moved
  have htaken : t = a.issued := Nat.le_antisymm hp.taken_le (heven ▸ ht)
  have hexpect := phase_at hphase
  have hfive : a.issued + 1 ≤ 5 := by
    rw [← hexpect]
    cases p <;> decide
  obtain ⟨hioctls, hexited, hwgpa, hguest, hbuffer, hresult⟩ :=
    write_command hsize (hmoved.dmaGpa.trans hgpa) rfl
  obtain ⟨hready, hisr, hirr, hsuccess⟩ :=
    hset.chip.applyAll env s.vmm.ioctls.length p
  unfold Machine.access
  generalize mmioExit env s.vmm (registerWrite commandOffset p.command Machine.noData) = w at *
  simp only [hioctls, List.drop_left]
  cases hw : w.exited with
  | true =>
    have hcause : ¬ Completed env 5 := by
      intro hall
      obtain ⟨-, hnow⟩ := (hall.mono hfive).split hphase
      rw [hw] at hexited
      split_ifs at hexited with hmsi
      · subst hmsi
        -- the message is the only ioctl of its command
        have hdelivered : 0 < env.ioctl (ioctlsOf a.issued).length :=
          of_decide_eq_true (hnow 0 _ rfl)
        rw [← hp.ioctls] at hdelivered
        exact absurd hdelivered (not_lt.mpr (of_decide_eq_true hexited.symm))
      · rw [hp.exited] at hexited
        cases hexited
    refine .inr ⟨rfl, .inr hcause, hp.taken ▸ vectorsOf_prefix t, ?_⟩
    show w.ioctls <+: _
    rw [hioctls, hp.ioctls, ← ioctlsOf_succ hphase]
    exact ioctlsOf_prefix _
  | false =>
    have hframe : ∀ i, i < dmaDst → w.guest i = s.vmm.guest i := by
      intro i hi
      rw [hguest]
      split_ifs
      · exact memcpy_frame (.inl hi)
      · rfl
    have hgate (vector : Nat) : Machine.gate w.guest vector = Machine.gate s.vmm.guest vector :=
      gate_congr (fun i hi => hframe i (hi.trans (by decide))) vector
    have hnone : s.chip.lapic.irr = ∅ := by
      have hirr := hp.irr
      rw [htaken, due_self _ hp.issued_five] at hirr
      exact Finset.subset_empty.mp hirr
    have hdue : due t (a.issued + 1) = {p.vector} := by
      rw [htaken]
      exact due_succ hphase hp.issued_five
    refine .inl ⟨{ a with issued := a.issued + 1 }, t, ?_,
      .inl ⟨⟨hq.interrupts, fun _ => ht, ?_, hisr.trans hq.isr⟩, hcode⟩⟩
    · exact
        { taken_le := hp.taken_le.trans (Nat.le_succ _)
          issued_le := Nat.succ_le_succ htaken.ge
          issued_five := hfive
          passed_le := hp.passed_le.trans (Nat.le_succ _)
          masked := hp.masked
          taken := hp.taken
          ioctls := by rw [hioctls, hp.ioctls, ioctlsOf_succ hphase]
          exited := hw
          returned := hp.returned
          setUp := ⟨hset.idt, (hgate _).trans hset.legacyGate, (hgate _).trans hset.msiGate, hready⟩
          moved := hmoved.command hphase hwgpa hguest hbuffer hresult
          irr := by
            rw [hdue, ← Finset.insert_empty, ← hnone]
            exact hirr
          completed := by
            intro hall
            obtain ⟨hbefore, hnow⟩ := hall.split hphase
            obtain ⟨hlow, -⟩ := hp.completed hbefore
            rw [← hp.ioctls] at hnow
            obtain ⟨hlow', hirr'⟩ := hsuccess hnow hlow
            rw [hdue, ← Finset.insert_empty, ← hnone]
            exact ⟨hlow', hirr'⟩ }
    · rw [← hq.count]
      apply Memory.loadLe_congr
      intro i _ hhi
      apply hframe
      unfold irqCount at hhi
      unfold dmaDst
      omega

/-- What one step comes to. -/
def Goes (env : Env) (h : Handlers) (s : Machine) : Prop :=
  Running env h s ∨ Finished s ∨ Failed env s

/-- At the end the bytes are the same. -/
theorem Progress.bytesEqual (hp : Progress env h a t s) (hpassed : a.passed = 5) :
    Machine.bytesEqual s.vmm.guest dmaDst dmaSrc 64 = true := by
  have hissued : 5 ≤ a.issued := hpassed ▸ hp.passed_le
  apply List.all_eq_true.mpr
  intro i hi
  have hlt := List.mem_range.mp hi
  simpa using (hp.moved.dst hissued i hlt).trans (hp.moved.src i hlt).symm

/-- **One instruction between interrupts.** -/
theorem Progress.exec (hp : Progress env h a t s) (ho : Outside a t s)
    (hsize : env.guestMemSize = guestMemSize) (hhalted : s.cpu.halted = false) {insn : Insn}
    {rest : List Insn} (hcode : s.cpu.code = insn :: rest) :
    Goes env h (Machine.exec env
      { s with cpu := { s.cpu with code := rest, shadow := false }, held := held } insn) := by
  have hchecks := ho.code
  rw [hcode] at hchecks
  have ht := ho.passed hhalted
  have hmasked := hp.masked
  rcases checks_cons hchecks with ⟨rfl, hpassed⟩ | ⟨b, hnext, hrest⟩
  · -- the end of the run
    have hissued : a.issued = 5 :=
      Nat.le_antisymm hp.issued_five (hpassed ▸ hp.passed_le)
    have htaken : t = 5 := by
      have hle := hp.taken_le
      omega
    have hirr := hp.irr
    rw [htaken, hissued, due_self 5 le_rfl] at hirr
    refine .inr (.inl ?_)
    exact
      { returned := rfl
        taken := htaken ▸ hp.taken
        ioctls := hissued ▸ hp.ioctls
        irr := Finset.subset_empty.mp hirr
        isr := ho.isr
        result := hp.moved.result (by omega)
        src := hp.moved.src
        dst := hp.moved.dst (by omega) }
  · -- the instructions that `Point.next` has at this point
    cases insn with
    | device offset value =>
      -- the address of a transfer, or the command of the next phase
      dsimp only [Point.next, Point.write] at hnext
      have hprogress : Progress env h a t
          { s with cpu := { s.cpu with code := rest, shadow := false }, held := held } :=
        hp.setCpu rfl
      have hquiet : Quiet a t
          { s with cpu := { s.cpu with code := rest, shadow := false }, held := held } :=
        ⟨ho.interrupts, ho.passed, ho.count, ho.isr⟩
      by_cases hgpa : offset = dmaGpaOffset
      · rw [if_pos hgpa] at hnext
        split_ifs at hnext
        obtain rfl := Option.some.inj hnext
        subst hgpa
        exact .inl (hprogress.setGpa hquiet hrest)
      · rw [if_neg hgpa] at hnext
        split at hnext
        · rename_i p hphase
          split_ifs at hnext with hcommand
          obtain rfl := Option.some.inj hnext
          obtain ⟨rfl, heven, rfl, haddress⟩ := hcommand
          rcases hprogress.command hquiet hsize hphase heven ht haddress hrest with hruns | hends
          · exact .inl hruns
          · exact .inr (.inr hends)
        · cases hnext
    | setPolls n =>
      obtain rfl := Option.some.inj hnext
      exact .inl (hp.move ho a rfl rfl hp.passed_le hmasked rfl hrest ho.interrupts fun _ => ht)
    | nop =>
      obtain rfl := Option.some.inj hnext
      exact .inl (hp.move ho a rfl rfl hp.passed_le hmasked rfl hrest ho.interrupts fun _ => ht)
    | outb port value =>
      dsimp only [Point.next] at hnext
      split_ifs at hnext with hmarker
      obtain rfl := Option.some.inj hnext
      obtain ⟨rfl, -⟩ := hmarker
      exact .inl (hp.move ho a rfl rfl hp.passed_le hmasked rfl hrest ho.interrupts fun _ => ht)
    | expectCount n l =>
      dsimp only [Point.next] at hnext
      split_ifs at hnext with htarget
      obtain rfl := Option.some.inj hnext
      obtain ⟨rfl, hpoint⟩ := htarget
      dsimp only [Machine.exec]
      split_ifs with hcount
      · -- the count is the number of interrupts taken
        have harrived : a.issued = t := hcount.symm.trans ho.count
        have hunmasked : a.masked = true → t = a.issued := fun _ => harrived.symm
        exact .inl (hp.move ho { a with passed := a.issued } rfl rfl le_rfl hunmasked rfl
          (block_checks hpoint) ho.interrupts fun _ => harrived.le)
      · exact .inl (hp.move ho a rfl rfl hp.passed_le hmasked rfl hrest ho.interrupts fun _ => ht)
    | loop l =>
      dsimp only [Point.next] at hnext
      split_ifs at hnext with htarget
      obtain rfl := Option.some.inj hnext
      dsimp only [Machine.exec]
      -- the polls are over, or it polls again
      split_ifs
      · exact .inl (hp.move ho a rfl rfl hp.passed_le hmasked rfl hrest ho.interrupts fun _ => ht)
      · exact .inl (hp.move ho a rfl rfl hp.passed_le hmasked rfl (block_checks htarget)
          ho.interrupts fun _ => ht)
    | hlt =>
      dsimp only [Point.next] at hnext
      split_ifs at hnext with hwaits
      obtain rfl := Option.some.inj hnext
      exact .inl (hp.move ho { a with passed := a.issued } rfl rfl le_rfl
        (fun hm => absurd hm hwaits.2) rfl hrest ho.interrupts fun hawake => absurd hawake (by simp))
    | compare dst src len l =>
      dsimp only [Point.next] at hnext
      split_ifs at hnext with hends
      obtain rfl := Option.some.inj hnext
      obtain ⟨hpassed, rfl, rfl, rfl⟩ := hends
      dsimp only [Machine.exec]
      -- the bytes are the same, so `dma_failed` is left out
      rw [if_pos (hp.bytesEqual hpassed)]
      exact .inl (hp.move ho a rfl rfl hp.passed_le hmasked rfl hrest ho.interrupts fun _ => ht)
    | cli =>
      dsimp only [Point.next] at hnext
      split_ifs at hnext with heven
      obtain rfl := Option.some.inj hnext
      -- no interrupt is under way where `cli` stands
      have htaken : t = a.passed := Nat.le_antisymm (heven ▸ hp.taken_le) ht
      exact .inl (hp.move ho { a with masked := true } rfl rfl hp.passed_le (fun _ => htaken) rfl
        hrest rfl fun _ => ht)
    | sti =>
      obtain rfl := Option.some.inj hnext
      exact .inl (hp.move ho { a with masked := false } rfl rfl hp.passed_le
        (fun hm => absurd hm (by simp)) rfl hrest rfl fun _ => ht)
    | readDevice | lapic | ioapicSel | ioapicWin | store | lidt | incCount | jmp | pusha | popa
      | iret => cases hnext

/-- The count is stored. -/
theorem Progress.store (hp : Progress env h a t s) (value : Nat) :
    Progress env h a t (s.writeMem irqCount 4 value) := by
  have hset := hp.setUp
  have hmoved := hp.moved
  have hgate (vector : Nat) : Machine.gate (s.vmm.guest.storeLe irqCount 4 value) vector =
      Machine.gate s.vmm.guest vector :=
    gate_congr (fun i hi => store_count_frame value (.inl hi)) vector
  have habove : ∀ i, 0x4004 ≤ i → s.vmm.guest.storeLe irqCount 4 value i = s.vmm.guest i :=
    fun i hi => store_count_frame value (.inr hi)
  exact
    { hp with
      setUp := ⟨hset.idt, (hgate _).trans hset.legacyGate, (hgate _).trans hset.msiGate, hset.chip⟩
      moved :=
        { hmoved with
          src := fun i hi => (habove _ (by unfold dmaSrc; omega)).trans (hmoved.src i hi)
          dst := fun hfive i hi =>
            (habove _ (by unfold dmaDst; omega)).trans (hmoved.dst hfive i hi) } }

/-- The acknowledgement changes the status only. -/
theorem access_irqAck (hexited : s.vmm.exited = false) (value : BitVec 32) :
    s.access env (registerWrite irqAckOffset value Machine.noData) =
      { s with vmm := s.vmm.setStatus (s.vmm.dev.status &&& ~~~statusDone) } := by
  unfold Machine.access
  simp only [write_irqAck, Vmm.setStatus, List.drop_length, Irqchip.applyAll, hexited,
    Bool.false_eq_true, if_false]

theorem access_readStatus (hexited : s.vmm.exited = false) :
    s.access env (Machine.registerRead statusOffset) = s := by
  unfold Machine.access
  simp only [read_status, List.drop_length, Irqchip.applyAll, hexited, Bool.false_eq_true,
    if_false]

/-- The handler moves on, and the rest of the machine stays. -/
theorem Inside.move {counted ended : Bool} (hp : Progress env h a t s)
    (hi : Inside a t counted ended s) (hidt : cpu.idtLoaded = s.cpu.idtLoaded)
    (hcode : HandlerChecks counted ended cpu.code = true)
    (hreturn : cpu.returnTo = s.cpu.returnTo) (hinterrupts : cpu.interrupts = s.cpu.interrupts)
    (hhalted : cpu.halted = s.cpu.halted) : Running env h { s with cpu := cpu, held := held } := by
  refine ⟨a, t, hp.setCpu hidt, .inr ⟨counted, ended, ?_⟩⟩
  exact
    { code := hcode
      returnTo := (congrArg (Checks a) hreturn).trans hi.returnTo
      interrupts := hinterrupts.trans hi.interrupts
      halted := hhalted.trans hi.halted
      unmasked := hi.unmasked
      arrived := hi.arrived
      count := hi.count
      isr := hi.isr }

/-- **One instruction of a handler.** -/
theorem Progress.exec_handler (hp : Progress env h a t s) {counted ended : Bool}
    (hi : Inside a t counted ended s) {insn : Insn} {rest : List Insn}
    (hcode : s.cpu.code = insn :: rest) :
    Running env h (Machine.exec env
      { s with cpu := { s.cpu with code := rest, shadow := false }, held := held } insn) := by
  have hchecks := hi.code
  rw [hcode] at hchecks
  have hprogress : Progress env h a t
      { s with cpu := { s.cpu with code := rest, shadow := false }, held := held } :=
    hp.setCpu rfl
  have hset := hprogress.setUp
  have hmoved := hprogress.moved
  cases insn with
  | iret =>
    cases rest with
    | cons => exact absurd hchecks (by simp [HandlerChecks])
    | nil =>
      -- back to the code that was interrupted
      obtain ⟨rfl, rfl⟩ : counted = true ∧ ended = true := by simpa [HandlerChecks] using hchecks
      refine ⟨a, t, hp.setCpu rfl, .inl ⟨⟨?_, ?_, hi.count, hi.isr⟩, hi.returnTo⟩⟩
      · rw [hi.unmasked]
        rfl
      · exact fun _ => hi.arrived ▸ hp.passed_le
  | jmp l =>
    cases rest with
    | cons => exact absurd hchecks (by cases l <;> simp [HandlerChecks])
    | nil =>
      cases l with
      | isrBody =>
        obtain ⟨rfl, rfl⟩ : counted = false ∧ ended = false := by
          simpa [HandlerChecks] using hchecks
        exact hi.move (s := s) hp rfl isrBody_checks rfl rfl rfl
      | poll | arrived | dmaFailed => exact absurd hchecks (by simp [HandlerChecks])
  | pusha => exact hi.move (s := s) hp rfl (by simpa [HandlerChecks] using hchecks) rfl rfl rfl
  | popa => exact hi.move (s := s) hp rfl (by simpa [HandlerChecks] using hchecks) rfl rfl rfl
  | incCount =>
    obtain ⟨rfl, hrest⟩ : counted = false ∧ HandlerChecks true ended rest = true := by
      simpa [HandlerChecks] using hchecks
    have hcount : s.vmm.guest.loadLe irqCount 4 + 1 = t := hi.count
    have hfive : t ≤ 5 := hi.arrived ▸ hp.issued_five
    have hstored : (s.vmm.guest.storeLe irqCount 4 (s.vmm.guest.loadLe irqCount 4 + 1)).loadLe
        irqCount 4 = t := by
      rw [hcount]
      exact Memory.loadLe_storeLe _ _ (lt_of_le_of_lt hfive (by decide))
    exact ⟨a, t, hprogress.store _, .inr ⟨true, ended, hrest, hi.returnTo, hi.interrupts,
      hi.halted, hi.unmasked, hi.arrived, hstored, hi.isr⟩⟩
  | readDevice offset =>
    obtain ⟨rfl, hrest⟩ : offset = statusOffset ∧ HandlerChecks counted ended rest = true := by
      simpa [HandlerChecks] using hchecks
    dsimp only [Machine.exec]
    rw [access_readStatus hprogress.exited]
    exact hi.move (s := s) hp rfl hrest rfl rfl rfl
  | device offset value =>
    obtain ⟨rfl, hrest⟩ : offset = irqAckOffset ∧ HandlerChecks counted ended rest = true := by
      simpa [HandlerChecks] using hchecks
    dsimp only [Machine.exec]
    rw [access_irqAck hprogress.exited]
    refine ⟨a, t, ?_, .inr ⟨counted, ended, hrest, hi.returnTo, hi.interrupts, hi.halted,
      hi.unmasked, hi.arrived, hi.count, hi.isr⟩⟩
    exact
      { hprogress with
        setUp := ⟨hset.idt, hset.legacyGate, hset.msiGate, hset.chip⟩
        moved := ⟨hmoved.src, hmoved.dmaGpa, hmoved.buffer, hmoved.result, hmoved.dst⟩ }
  | lapic r value =>
    cases r with
    | eoi =>
      obtain ⟨rfl, hrest⟩ : ended = false ∧ HandlerChecks counted true rest = true := by
        simpa [HandlerChecks] using hchecks
      have hchip := hset.chip
      -- the one vector in service is the one that ends
      obtain ⟨v, hisr⟩ : ∃ v, s.chip.lapic.isr = {v} := hi.isr
      have hempty : s.chip.lapic.isr.erase (s.chip.lapic.isr.sup id) = ∅ := by
        rw [hisr, Finset.sup_singleton]
        exact Finset.erase_singleton v
      refine ⟨a, t, ?_, .inr ⟨counted, true, hrest, hi.returnTo, hi.interrupts, hi.halted,
        hi.unmasked, hi.arrived, hi.count, hempty⟩⟩
      exact
        { hprogress with
          setUp := ⟨hset.idt, hset.legacyGate, hset.msiGate, hchip.tpr, hchip.enabled,
            hchip.delivers, hchip.vector, hchip.picMask, hchip.picRequested⟩
          moved := hmoved }
    | tpr | svr => exact absurd hchecks (by simp [HandlerChecks])
  | _ => exact absurd hchecks (by simp [HandlerChecks])

/-- The LAPIC gives a vector that it has. -/
theorem Lapic.pending_eq_some {l : Lapic} {vector : Nat} (hv : l.pending = some vector) :
    l.irr.Nonempty ∧ l.irr.sup id = vector := by
  unfold Lapic.pending at hv
  split_ifs at hv with hready
  exact ⟨hready.2.1, Option.some.inj hv⟩

/-- **An interrupt is taken.** It is the one of the last command. -/
theorem Progress.interrupt (hp : Progress env h a t s) (ho : Outside a t s) {vector : Nat}
    (hv : s.deliverable = some vector) : Running env h (s.interrupt h vector) := by
  have hset := hp.setUp
  have hchip := hset.chip
  have hmoved := hp.moved
  unfold Machine.deliverable at hv
  split_ifs at hv with hopen
  have hunmasked : a.masked = false := by
    have hinterrupts := ho.interrupts
    rw [hopen.1] at hinterrupts
    simpa using hinterrupts.symm
  have hpending : s.chip.lapic.pending = some vector := by
    unfold Irqchip.pending at hv
    rw [hchip.picRequested] at hv
    exact hv
  obtain ⟨hirr, hsup⟩ := Lapic.pending_eq_some hpending
  -- a vector waits, so the interrupt of the last command has not been taken
  have hlt : t < a.issued := by
    by_contra hge
    have heven : a.issued = t := Nat.le_antisymm (Nat.le_of_not_lt hge) hp.taken_le
    have hnone := hp.irr
    rw [heven, due_self t (heven ▸ hp.issued_five)] at hnone
    exact hirr.ne_empty (Finset.subset_empty.mp hnone)
  have hissued : a.issued = t + 1 := Nat.le_antisymm hp.issued_le hlt
  have hfive : t + 1 ≤ 5 := hissued ▸ hp.issued_five
  obtain ⟨p, hphase⟩ := exists_phase (n := t) hfive
  -- and nothing else waits
  have hsingle : s.chip.lapic.irr = {p.vector} := by
    have hsub := hp.irr
    rw [hissued, due_succ hphase (Nat.le_of_succ_le hfive)] at hsub
    exact (Finset.subset_singleton_iff.mp hsub).resolve_left hirr.ne_empty
  obtain rfl : p.vector = vector := by
    rw [← hsup, hsingle, Finset.sup_singleton]
    rfl
  have hhandler : s.hasHandler h p.vector = true := by
    unfold Machine.hasHandler
    rw [hset.idt]
    cases p <;> simp [Phase.vector, hset.legacyGate, hset.msiGate]
  have hack : s.chip.acknowledge p.vector =
      { s.chip with lapic := { s.chip.lapic with irr := ∅, isr := {p.vector} } } := by
    unfold Irqchip.acknowledge Lapic.acknowledge
    rw [if_neg (ne_true_of_eq_false hchip.picRequested), hsingle, ho.isr, Finset.erase_singleton,
      Finset.insert_empty]
  have hdue : due (t + 1) a.issued = ∅ := by
    rw [hissued]
    exact due_self _ hfive
  unfold Machine.interrupt
  rw [if_pos hhandler, hack]
  refine ⟨a, t + 1, ?_, .inr ⟨false, false, rfl, ho.code, rfl, rfl, hunmasked, hissued.symm,
    congrArg (· + 1) ho.count, _, rfl⟩⟩
  exact
    { taken_le := hlt
      issued_le := hissued ▸ Nat.le_succ _
      issued_five := hp.issued_five
      passed_le := hp.passed_le
      masked := fun hm => absurd hm (by rw [hunmasked]; decide)
      taken := by
        show s.taken ++ [p.vector] = _
        rw [hp.taken, vectorsOf_succ hphase]
      ioctls := hp.ioctls
      exited := hp.exited
      returned := hp.returned
      setUp := ⟨hset.idt, hset.legacyGate, hset.msiGate, hchip.tpr, hchip.enabled,
        hchip.delivers, hchip.vector, hchip.picMask, hchip.picRequested⟩
      moved := hmoved
      irr := Finset.empty_subset _
      completed := fun hall => ⟨(hp.completed hall).1, hdue.symm⟩ }

theorem run_cases {patience : Nat} {s' : Machine} (hrun : s.run env patience = some s') :
    ∃ insn rest, s.cpu.halted = false ∧ s.cpu.code = insn :: rest ∧
      s' = Machine.exec env
        { s with
          cpu := { s.cpu with code := rest, shadow := false }
          held := if s.deliverable.isSome then s.held + 1 else s.held } insn := by
  unfold Machine.run at hrun
  by_cases hhalted : s.cpu.halted = true
  · rw [if_pos hhalted] at hrun
    cases hrun
  rw [if_neg hhalted] at hrun
  by_cases hheld : s.deliverable.isSome ∧ patience ≤ s.held
  · rw [if_pos hheld] at hrun
    cases hrun
  rw [if_neg hheld] at hrun
  cases hcode : s.cpu.code with
  | nil =>
    rw [hcode] at hrun
    cases hrun
  | cons insn rest =>
    rw [hcode] at hrun
    exact ⟨insn, rest, by simpa using hhalted, rfl, (Option.some.inj hrun).symm⟩

/-- A processor with interrupts disabled takes none. -/
theorem deliverable_none (hinterrupts : s.cpu.interrupts = false) : s.deliverable = none := by
  unfold Machine.deliverable
  rw [hinterrupts]
  exact if_neg fun hopen => Bool.false_ne_true hopen.1

/-- **One step of the phases.** -/
theorem Running.step (hr : Running env h s) (hsize : env.guestMemSize = guestMemSize)
    {patience : Nat} {act : Machine.Act} {s' : Machine}
    (hstep : s.step env h patience act = some s') : Goes env h s' := by
  obtain ⟨a, t, hp, hplace⟩ := hr
  unfold Machine.step at hstep
  rw [hp.returned] at hstep
  cases act with
  | run =>
    obtain ⟨insn, rest, hhalted, hcode, rfl⟩ := run_cases hstep
    rcases hplace with ho | ⟨counted, ended, hi⟩
    · exact hp.exec ho hsize hhalted hcode
    · exact .inl (hp.exec_handler hi hcode)
  | interrupt =>
    obtain ⟨vector, hv, rfl⟩ := Option.map_eq_some_iff.mp hstep
    rcases hplace with ho | ⟨counted, ended, hi⟩
    · exact .inl (hp.interrupt ho hv)
    · rw [deliverable_none hi.interrupts] at hv
      cases hv
  | haltExit =>
    simp only [Option.isSome_none, Bool.false_eq_true, if_false] at hstep
    split_ifs at hstep with hhalted
    obtain rfl := Option.some.inj hstep
    exact .inr (.inr (hp.failed rfl rfl rfl hhalted))

end Steps

/-! ## The setup -/

section Setup

variable {env : Env} {h : Handlers} {s : Machine}

/-- The instructions of the setup. -/
def Insn.isSetup : Insn → Bool
  | .store _ _ _ | .lidt | .lapic _ _ | .ioapicSel _ | .ioapicWin _ => true
  | .outb port _ => port ≠ donePort ∧ port ≠ markerPort
  | _ => false

/-- The machine after the instructions of the setup that are left. -/
def Machine.boots (env : Env) (s : Machine) : List Insn → Machine
  | [] => s
  | insn :: rest =>
    boots env
      (exec env { s with cpu := { s.cpu with code := rest ++ guestPhases, shadow := false } } insn)
      rest

/-- The setup is running: what is left of it leads to the phases. -/
structure Booting (env : Env) (h : Handlers) (rest : List Insn) (s : Machine) : Prop where
  code : s.cpu.code = rest ++ guestPhases
  setup : ∀ insn ∈ rest, insn.isSetup = true
  interrupts : s.cpu.interrupts = false
  halted : s.cpu.halted = false
  returned : s.returned = none
  taken : s.taken = []
  ioctls : s.vmm.ioctls = []
  leads : Running env h (s.boots env rest)

/-- What an instruction of the setup leaves alone. -/
theorem exec_setup {insn : Insn} (hi : insn.isSetup = true) :
    (Machine.exec env s insn).cpu.code = s.cpu.code ∧
      (Machine.exec env s insn).cpu.interrupts = s.cpu.interrupts ∧
      (Machine.exec env s insn).cpu.halted = s.cpu.halted ∧
      (Machine.exec env s insn).returned = s.returned ∧
      (Machine.exec env s insn).taken = s.taken ∧
      (Machine.exec env s insn).vmm.ioctls = s.vmm.ioctls := by
  cases insn with
  | store | lidt | lapic | ioapicSel | ioapicWin => exact ⟨rfl, rfl, rfl, rfl, rfl, rfl⟩
  | outb port value =>
    obtain ⟨hport, -⟩ : port ≠ donePort ∧ port ≠ markerPort := by
      simpa [Insn.isSetup] using hi
    dsimp only [Machine.exec, Machine.out]
    split_ifs
    · exact ⟨rfl, rfl, rfl, rfl, rfl, rfl⟩
    · exact ⟨rfl, rfl, rfl, rfl, rfl, rfl⟩
  | _ => exact absurd hi Bool.false_ne_true

/-- **One step of the setup.** -/
theorem Booting.step {rest : List Insn} (hb : Booting env h rest s)
    (hsize : env.guestMemSize = guestMemSize) {patience : Nat} {act : Machine.Act} {s' : Machine}
    (hstep : s.step env h patience act = some s') :
    (∃ rest', Booting env h rest' s') ∨ Goes env h s' := by
  cases rest with
  | nil => exact .inr (hb.leads.step hsize hstep)
  | cons insn rest =>
    have hclosed := deliverable_none hb.interrupts
    unfold Machine.step at hstep
    rw [hb.returned] at hstep
    cases act with
    | run =>
      obtain ⟨insn', rest', -, hcode, rfl⟩ := run_cases hstep
      obtain ⟨rfl, rfl⟩ := List.cons.inj (hcode.symm.trans hb.code)
      rw [hclosed]
      obtain ⟨hkeep, hinterrupts, hhalted, hreturned, htaken, hioctls⟩ :=
        @exec_setup env
          { s with cpu := { s.cpu with code := rest ++ guestPhases, shadow := false } } insn'
          (hb.setup insn' (List.mem_cons_self ..))
      exact .inl ⟨rest, hkeep, fun insn hmem => hb.setup insn (List.mem_cons_of_mem _ hmem),
        hinterrupts.trans hb.interrupts, hhalted.trans hb.halted, hreturned.trans hb.returned,
        htaken.trans hb.taken, hioctls.trans hb.ioctls, hb.leads⟩
    | interrupt =>
      obtain ⟨vector, hv, -⟩ := Option.map_eq_some_iff.mp hstep
      rw [hclosed] at hv
      cases hv
    | haltExit =>
      simp only [Option.isSome_none, Bool.false_eq_true, if_false, hb.halted] at hstep
      cases hstep

/-- The controllers after the setup. -/
def readyChip : Irqchip where
  lapic := { svr := 0x1ff }
  ioapic := { select := 0x19, rteLow := 0x40, rteHigh := 0 }
  picMask := 0xff

theorem readyChip_ready : readyChip.Ready := by
  constructor <;> decide

theorem boots_guestSetup (image behind : Memory) :
    (Machine.start h image behind).boots env (guestSetup h) =
      { vmm := { boot image behind with guest := withIdt image h }
        chip := readyChip
        cpu := { code := guestPhases, idtLoaded := true }
        taken := []
        held := 0
        returned := none } := rfl

/-- Before the first `KVM_RUN`. -/
theorem Booting.start {image : Memory} (hi : IsImage image) (behind : Memory) :
    Booting env h (guestSetup h) (Machine.start h image behind) := by
  obtain ⟨hlegacy, hmsi⟩ := gate_withIdt image h
  have hcount : (withIdt image h).loadLe irqCount 4 = 0 := by
    rw [← hi.count]
    exact Memory.loadLe_congr fun i hlo _ => withIdt_frame image h hlo
  have hsrc : ∀ i < 64, withIdt image h (dmaSrc + i) = UInt8.ofNat i := by
    intro i hlt
    rw [withIdt_frame image h (le_trans (by decide : irqCount ≤ dmaSrc) (Nat.le_add_right _ _))]
    exact hi.src i hlt
  refine ⟨rfl, List.all_eq_true.mp rfl, rfl, rfl, rfl, rfl, rfl, ?_⟩
  rw [boots_guestSetup]
  refine ⟨⟨0, 0, true, 0⟩, 0, ?_,
    .inl ⟨⟨rfl, fun _ => le_rfl, hcount, rfl⟩, guestPhases_checks⟩⟩
  exact
    { taken_le := le_rfl
      issued_le := Nat.zero_le _
      issued_five := Nat.zero_le _
      passed_le := le_rfl
      masked := fun _ => rfl
      taken := rfl
      ioctls := rfl
      exited := rfl
      returned := rfl
      setUp := ⟨rfl, hlegacy, hmsi, readyChip_ready⟩
      moved := ⟨hsrc, rfl, fun hfour => absurd hfour (by decide),
        fun hfour => absurd hfour (by decide), fun hfive => absurd hfive (by decide)⟩
      irr := Finset.empty_subset _
      completed := fun _ => ⟨rfl, rfl⟩ }

end Setup

/-! ## Every run -/

section Runs

variable {ioctl : Nat → Int} {h : Handlers} {patience : Nat} {s : Machine}

theorem machine_invariant (hs : (machine ioctl h patience).Reachable s) :
    (∃ rest, Booting ⟨guestMemSize, ioctl⟩ h rest s) ∨ Goes ⟨guestMemSize, ioctl⟩ h s := by
  refine System.Reach.invariant
    (fun s => (∃ rest, Booting ⟨guestMemSize, ioctl⟩ h rest s) ∨
      Goes ⟨guestMemSize, ioctl⟩ h s) ?_ ?_ hs
  · rintro s ⟨image, behind, himage, rfl⟩
    exact .inl ⟨_, .start himage behind⟩
  · intro s act s' hinv _ hstep
    -- nothing follows what `main` returns
    have hover : ∀ n, s.returned = some n → False := by
      intro n hreturned
      have hnone : s.step ⟨guestMemSize, ioctl⟩ h patience act = none := by
        unfold Machine.step
        rw [hreturned]
        rfl
      exact absurd (hnone.symm.trans hstep) (by simp)
    rcases hinv with ⟨rest, hboots⟩ | hruns | hdone | hfailed
    · exact hboots.step rfl hstep
    · exact .inr (hruns.step rfl hstep)
    · exact (hover 0 hdone.returned).elim
    · exact (hover 1 hfailed.returned).elim

/-- The point at which an instruction of the phases is reached. -/
theorem Running.at_marker (hr : Running ⟨guestMemSize, ioctl⟩ h s) {value : BitVec 8}
    {rest : List Insn} (hcode : s.cpu.code = .outb markerPort value :: rest) :
    ∃ a t, Progress ⟨guestMemSize, ioctl⟩ h a t s ∧ Outside a t s ∧ a.marks value = true := by
  obtain ⟨a, t, hp, ho | ⟨counted, ended, hi⟩⟩ := hr
  · have hchecks := ho.code
    rw [hcode] at hchecks
    rcases checks_cons hchecks with ⟨hdone, -⟩ | ⟨b, hnext, -⟩
    · exact absurd (Insn.outb.inj hdone).1 (by decide)
    · dsimp only [Point.next] at hnext
      split_ifs at hnext with hmarker
      exact ⟨a, t, hp, ho, hmarker.2⟩
  · have hchecks := hi.code
    rw [hcode] at hchecks
    exact absurd hchecks (by simp [HandlerChecks])

theorem Running.ne_dmaFailed (hr : Running ⟨guestMemSize, ioctl⟩ h s) :
    s.cpu.code ≠ dmaFailed := by
  intro hcode
  obtain ⟨a, t, -, ho | ⟨counted, ended, hi⟩⟩ := hr
  · have hchecks := ho.code
    rw [hcode] at hchecks
    rcases checks_cons hchecks with ⟨hdone, -⟩ | ⟨b, hnext, hrest⟩
    · cases hdone
    · dsimp only [Point.next] at hnext
      split_ifs at hnext
      obtain rfl := Option.some.inj hnext
      rcases checks_cons hrest with ⟨hdone, -⟩ | ⟨c, hlast, -⟩
      · cases hdone
      · dsimp only [Point.next] at hlast
        split_ifs at hlast with hwaits
        exact absurd rfl hwaits.2
  · have hchecks := hi.code
    rw [hcode] at hchecks
    exact absurd hchecks (by simp [dmaFailed, HandlerChecks])

/-- Before the phases there is neither a marker nor the end of the checks. -/
theorem Booting.not_reached {rest : List Insn} (hb : Booting ⟨guestMemSize, ioctl⟩ h rest s) :
    s.cpu.code ≠ dmaFailed ∧
      ∀ after, s.cpu.code ≠ .outb markerPort markerIrqPendingIf0 :: after := by
  rw [hb.code]
  cases rest with
  | nil =>
    refine ⟨fun hcode => absurd (List.cons.inj hcode).1 (by decide), fun after hcode => ?_⟩
    exact absurd (List.cons.inj hcode).1 (by decide)
  | cons insn rest =>
    have hsetup := hb.setup insn (List.mem_cons_self ..)
    refine ⟨fun hcode => ?_, fun after hcode => ?_⟩
    · rw [(List.cons.inj hcode).1] at hsetup
      exact absurd hsetup (by decide)
    · rw [(List.cons.inj hcode).1] at hsetup
      exact absurd hsetup (by decide)

/-- **Main theorem.** The interrupts arrive in the order of the commands, each once, and so do the
    ioctls. The check of the bytes does not fail. At the marker of phase C interrupts are disabled,
    and the second one waits in the LAPIC if its ioctls succeeded. If `main` returns 0, nothing is
    missing: all interrupts, all ioctls, both transfers, and no interrupt is left. -/
theorem guest_phases (ioctl : Nat → Int) (h : Handlers) (patience : Nat) {s : Machine}
    (hs : (machine ioctl h patience).Reachable s) :
    s.taken <+: vectorsOf 5 ∧ s.vmm.ioctls <+: ioctlsOf 5 ∧
      (s.returned = none → s.cpu.code ≠ dmaFailed ∧
        ∀ rest, s.cpu.code = .outb markerPort markerIrqPendingIf0 :: rest →
          s.cpu.interrupts = false ∧ s.taken = [deviceVector] ∧ s.chip.lapic.isr = ∅ ∧
            (Completed ⟨guestMemSize, ioctl⟩ 2 → s.chip.lapic.irr = {deviceVector})) ∧
      (s.returned = some 0 → Finished s) := by
  rcases machine_invariant hs with ⟨rest, hboots⟩ | hruns | hdone | hfailed
  · obtain ⟨hcheck, hmarker⟩ := hboots.not_reached
    refine ⟨?_, ?_, fun _ => ⟨hcheck, fun rest hcode => absurd hcode (hmarker rest)⟩, ?_⟩
    · rw [hboots.taken]
      exact List.nil_prefix
    · rw [hboots.ioctls]
      exact List.nil_prefix
    · intro hreturned
      exact absurd (hboots.returned.symm.trans hreturned) (by simp)
  · have hr := hruns
    obtain ⟨a, t, hp, -⟩ := hr
    refine ⟨hp.taken ▸ vectorsOf_prefix t, hp.ioctls ▸ ioctlsOf_prefix a.issued,
      fun _ => ⟨hruns.ne_dmaFailed, fun rest hcode => ?_⟩, ?_⟩
    · obtain ⟨a, t, hp, ho, hmarks⟩ := hruns.at_marker hcode
      obtain ⟨hissued, hpassed, hmasked⟩ : a.issued = 2 ∧ a.passed = 1 ∧ a.masked = true := by
        simpa [Point.marks, markerApicReady, markerIrqPendingIf0] using hmarks
      have htaken : t = 1 := (hp.masked hmasked).trans hpassed
      refine ⟨?_, ?_, ho.isr, fun hall => ?_⟩
      · rw [ho.interrupts, hmasked]
        rfl
      · rw [hp.taken, htaken]
        rfl
      · obtain ⟨-, hirr⟩ := hp.completed (hissued ▸ hall)
        rw [hirr, htaken, hissued]
        rfl
    · intro hreturned
      exact absurd (hp.returned.symm.trans hreturned) (by simp)
  · refine ⟨?_, ?_, fun hnone => ?_, fun _ => hdone⟩
    · rw [hdone.taken]
    · rw [hdone.ioctls]
    · exact absurd (hdone.returned.symm.trans hnone) (by simp)
  · refine ⟨hfailed.taken, hfailed.ioctls, fun hnone => ?_, fun hdone => ?_⟩
    · exact absurd (hfailed.returned.symm.trans hnone) (by simp)
    · exact absurd (hfailed.returned.symm.trans hdone) (by simp)

end Runs

/-- An image with the bytes 0 to 63 at `dma_src`. -/
def labImage : Memory := fun i =>
  if dmaSrc ≤ i ∧ i < dmaSrc + 64 then UInt8.ofNat (i - dmaSrc) else 0

theorem labImage_isImage : IsImage labImage where
  count := by decide
  src := by decide

def labHandlers : Handlers := ⟨0x8100, 0x8110⟩

/-- `KVM_IRQ_LINE` returns 0, and `KVM_SIGNAL_MSI`, the fifth ioctl, 1. -/
def labResults (n : Nat) : Int := if n = 4 then 1 else 0

/-- The phase's code up to its interrupt, the handler, and the end of the wait. -/
def phaseRun (prepare : Nat) : List Machine.Act :=
  .replicate prepare .run ++ .interrupt :: .replicate 10 .run

/-- Each interrupt is taken as soon as it can be. -/
def successRun : List Machine.Act :=
  .replicate 21 .run ++ phaseRun 1 ++ phaseRun 5 ++ phaseRun 2 ++ phaseRun 2 ++ phaseRun 2 ++
    .replicate 2 .run

theorem guest_phases_success :
    ∃ s, (machine labResults labHandlers 0).exec (.start labHandlers labImage fun _ => 0)
      successRun = some s ∧ Finished s := by
  have hends : ((machine labResults labHandlers 0).exec
      (.start labHandlers labImage fun _ => 0) successRun).any (fun s => s.returned = some 0) =
      true := by decide +kernel
  obtain ⟨s, hs, hreturned⟩ := (Option.any_eq_true _ _).mp hends
  have hreach := System.reachable_of_exec (M := machine labResults labHandlers 0)
    ⟨_, _, labImage_isImage, rfl⟩ hs
  exact ⟨s, hs, (guest_phases _ _ _ hreach).2.2.2 (of_decide_eq_true hreturned)⟩

end LinuxMaxxing.VirtIo
