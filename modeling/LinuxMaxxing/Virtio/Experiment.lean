import LinuxMaxxing.Virtio.Completion

/-!
# The Experiment from Its First Instruction

`guest.S`, `vmm.c` and `rng_virtqueue.c` together: the guest is driven through its phases by the
rules of the modules before, the slow path serves five requests, the fast path the sixth, and
`main` finds what it looks for.

- `Solo.Drives`: the driver between two phases;
- `Ends.bringUp`, `Ends.single`, `Ends.batch`, `Ends.accelerated`: one theorem for each phase;
- `experiment_finishes`: from every reachable state, whoever moves.
-/

namespace LinuxMaxxing.Virtio

open LinuxMaxxing.Lib

/-- The device once the driver has set its queue up. -/
def operational : VirtioMmioDevice where
  deviceFeaturesSel := virtioFVersion1Word
  driverFeaturesSel := virtioFVersion1Word
  driverFeatures1 := virtioFVersion1Mask
  status := virtioStatusOperational
  queue :=
    { size := 8, ready := 1, descAddr := 0x4000, driverAddr := 0x5000, deviceAddr := 0x6000 }

/-- The driver stands before this code, and its first `n` requests are completed. -/
structure Solo.Drives (g : Solo) (code : List Insn) (n : Nat) : Prop where
  running : g.Running
  interruptsOff : g.cpu.interrupts = false
  code : g.cpu.code = code
  dev : g.dev = operational.advance n
  requests : ∃ m₀, Requests m₀ n n n n g.mem
  kicks : g.guestKicks = 0
  calls : g.guestCalls = 0

section Phases

variable {src : RandomSource} {isr : BitVec 16} {g t : Solo}

/-! ## The slow path -/

theorem operational_advance_ready (n : Nat) : (operational.advance n).queue.ready ≠ 0 := by
  simp [operational, VirtioMmioDevice.advance]

theorem operational_advance_fixedLayout (n : Nat) :
    (operational.advance n).queue.FixedLayout :=
  ⟨rfl, rfl, rfl, rfl⟩

theorem operational_advance_last (n : Nat) :
    (operational.advance n).queue.lastAvailIdx = BitVec.ofNat 16 n := by
  simp [operational, VirtioMmioDevice.advance]

theorem operational_advance_advance (n k : Nat) :
    (operational.advance n).advance k = operational.advance (n + k) := by
  simp [operational, VirtioMmioDevice.advance, BitVec.ofNat_add]

/-- **A notification on the slow path** comes back with everything published completed. -/
theorem Ends.notify {m₀ : Memory} {rest : List Insn} {d o p u : Nat} (hrun : g.Running)
    (hcode : g.cpu.code = notifyQueue :: rest) (hreg : g.registered = false)
    (hdev : g.dev = operational.advance u) (hreq : Requests m₀ d o p u g.mem)
    (hord : Ordered d o p u)
    (h : ∀ m n, Requests m₀ d o p p m → Ends src isr
      { g.goto rest with
        dev := operational.advance p, mem := m, calls := n, exits := g.exits + 1 } .handled) :
    Ends src isr g .guest := by
  have hwrite : writeRegister g.dev Register.queueNotify.offset virtioRngQueueIndex =
      .processQueue := by
    rw [hdev]
    rfl
  have hready : g.dev.queue.ready ≠ 0 := hdev ▸ operational_advance_ready u
  have hlayout : g.dev.queue.FixedLayout := hdev ▸ operational_advance_fixedLayout u
  have hlast : g.dev.queue.lastAvailIdx = BitVec.ofNat 16 u := hdev ▸ operational_advance_last u
  apply Ends.next (t := { g.goto rest with exits := g.exits + 1 }) (q := .processQueue {}) hrun
    hcode
  · intro w
    simp [Experiment.exec, notifyQueue, Vmm.mmioWrite, Vmm.intercepted, Vmm.doMmioWrite,
      mmioValid_address, mmioOffset_address, isQueueNotify_address, Solo.join, Solo.goto, hwrite,
      hreg]
  · rfl
  · obtain ⟨k, m, f, n, hreach, hend⟩ :=
      hreq.serve src hord (f := {}) g.calls rfl hready hlayout hlast
    refine Ends.call (g := { g.goto rest with exits := g.exits + 1 }) hreach ?_
    rcases hend with ⟨hret, rfl, hreq'⟩ | ⟨hret, hstarves⟩
    · have hdone : VcpuPc.ofFrame f = .handled := by
        simp only [VcpuPc.ofFrame, hret]
        rfl
      rw [hdone]
      have hadvance : g.dev.advance (p - u) = operational.advance p := by
        rw [hdev, operational_advance_advance, Nat.add_sub_cancel' hord.completed]
      have hthen := h m n hreq'
      rw [← hadvance] at hthen
      exact hthen
    · have hdone : VcpuPc.ofFrame f = .left := by
        simp only [VcpuPc.ofFrame, hret]
        rfl
      rw [hdone]
      exact Ends.starved hreg hstarves

/-- A poll of `used->idx` that finds what it waits for. -/
theorem Ends.poll {l done : Label} {n polls : Nat} (hrun : g.Running)
    (hcode : g.cpu.code = .setPolls polls :: pollUsed n l done)
    (hused : g.mem.loadLe (virtqUsedGpa + virtqUsedIdxOffset) 2 = n)
    (h : ∀ ecx, Ends src isr
      { g with cpu := { g.cpu with code := block isr done, ecx := ecx, shadow := false } } .guest) :
    Ends src isr g .guest := by
  let polling : Solo :=
    { g with
      cpu := { g.cpu with code := pollUsed n l done, ecx := polls, shadow := false } }
  apply Ends.next (t := polling) (q := .guest) hrun hcode
  · intro w
    rfl
  · rfl
  · let found : Solo :=
      { g with cpu := { g.cpu with code := block isr done, ecx := polls, shadow := false } }
    apply Ends.next (g := polling) (t := found) (q := .guest)
    · exact ⟨hrun.live, rfl, hrun.quiet⟩
    · rfl
    · intro w
      exact if_pos hused
    · rfl
    · exact h polls

/-! ## Phases A to C -/

/-- The registers through phases A and B. -/
theorem registers_bringUp :
    ∃ dev, runRegisters {} (bringUp ++ queueProbe) = some dev ∧
      runRegisters dev queueSetup = some (operational.advance 0) := by
  refine ⟨_, rfl, ?_⟩
  decide

/-- Phases A and B. -/
theorem Ends.bringUp (hrun : g.Running) (hint : g.cpu.interrupts = false)
    (hcode : g.cpu.code = guestStart) (hdev : g.dev = {}) (hexits : g.exits = 0)
    (hkicks : g.guestKicks = 0) (hcalls : g.guestCalls = 0)
    (h : ∀ t : Solo, t.Drives singleRequest 0 → t.exits = 0 → t.registered = g.registered →
      Ends src isr t .guest) : Ends src isr g .guest := by
  obtain ⟨dev, hprobe, hsetup⟩ := registers_bringUp
  obtain ⟨m, hzero, hreq⟩ := Requests.zeroed g.mem rfl
  have hno : ¬ (g.exits = 2 ∧ g.registered = false) := by simp [hexits]
  rw [← hdev] at hprobe
  refine Ends.registers _ (queueMemory ++ queueSetup ++ singleRequest) hrun hno ?_ hprobe ?_
  · rw [hcode]
    rfl
  refine Ends.memory queueMemory (queueSetup ++ singleRequest) ?_ rfl hzero ?_
  · exact ⟨hrun.live, rfl, hrun.quiet⟩
  refine Ends.registers queueSetup singleRequest ?_ hno rfl hsetup ?_
  · exact ⟨hrun.live, rfl, hrun.quiet⟩
  apply h
  · exact ⟨⟨hrun.live, rfl, hrun.quiet⟩, hint, rfl, rfl, ⟨_, hreq⟩, hkicks, hcalls⟩
  · exact hexits
  · rfl

/-- Phase C, the single request. -/
theorem Ends.single (hdrives : g.Drives singleRequest 0) (hexits : g.exits = 0)
    (hreg : g.registered = false)
    (h : ∀ t : Solo, t.Drives batch 1 → t.exits = 1 → t.registered = false →
      Ends src isr t .guest) : Ends src isr g .guest := by
  obtain ⟨hrun, hint, hcode, hdev, ⟨m₀, hreq⟩, hkicks, hcalls⟩ := hdrives
  obtain ⟨m, hmem, hreq⟩ := Requests.first _ hreq
  refine Ends.memory _ (notifyQueue :: .setPolls virtioPollLimit ::
    pollUsed 1 .pollUsedIdx .completionPublished) hrun ?_ hmem ?_
  · rw [hcode]
    rfl
  refine Ends.notify ?_ rfl hreg hdev hreq ?_ fun m n hreq => ?_
  · exact ⟨hrun.live, rfl, hrun.quiet⟩
  · constructor <;> decide
  apply Ends.handled
  · simp [Solo.goto, Solo.withMem, hexits]
  refine Ends.poll (n := 1) (l := .pollUsedIdx) ?_ rfl hreq.usedLoad fun ecx => ?_
  · exact ⟨hrun.live, rfl, hrun.quiet⟩
  apply h
  · exact ⟨⟨hrun.live, rfl, hrun.quiet⟩, hint, rfl, rfl, ⟨_, hreq⟩, hkicks, hcalls⟩
  · simp [Solo.goto, Solo.withMem, hexits]
  · exact hreg

/-- Phase C, the batch, and the set-up of the fast path. -/
theorem Ends.batch (hdrives : g.Drives batch 1) (hexits : g.exits = 1)
    (hreg : g.registered = false)
    (h : ∀ t : Solo, t.Drives (accelerated isr) 5 → t.exits = 2 → t.registered = true →
      Ends src isr t .guest) : Ends src isr g .guest := by
  obtain ⟨hrun, hint, hcode, hdev, ⟨m₀, hreq⟩, hkicks, hcalls⟩ := hdrives
  obtain ⟨m, hmem, hreq⟩ := Requests.second (l := .failQueue) _ hreq
  refine Ends.memory _ (notifyQueue :: .setPolls virtioPollLimit ::
    pollUsed virtioRngRequestCount.toNat .pollBatchUsedIdx .batchCompletionPublished) hrun ?_
    hmem ?_
  · rw [hcode]
    rfl
  refine Ends.notify ?_ rfl hreg hdev hreq ?_ fun m n hreq => ?_
  · exact ⟨hrun.live, rfl, hrun.quiet⟩
  · constructor <;> decide
  apply Ends.register
  · simp [Solo.goto, Solo.withMem, hexits]
  · exact hreg
  · refine ⟨?_, ?_, rfl⟩
    · rw [availIdx, hreq.availLoad]
      rfl
    · rw [usedIdx, hreq.usedLoad]
      rfl
  refine Ends.poll (n := 5) (l := .pollBatchUsedIdx) ?_ rfl hreq.usedLoad
    fun ecx => ?_
  · exact ⟨hrun.live, rfl, hrun.quiet⟩
  apply h
  · exact ⟨⟨hrun.live, rfl, hrun.quiet⟩, hint, rfl, rfl, ⟨_, hreq⟩, hkicks, hcalls⟩
  · simp [Solo.goto, Solo.withMem, hexits]
  · rfl

/-! ## Phase D -/

/-- The interrupt controllers as the driver programs them. -/
def runPic (p : Pic) : List Insn → Option Pic
  | [] => some p
  | .outb port value :: rest =>
    if port = 0x20 then runPic (p.command value) rest
    else if port = 0x21 then runPic (p.data value) rest
    else if port = 0xa0 ∨ port = 0xa1 then runPic p rest
    else none
  | _ => none

/-- The controllers are these. -/
def Solo.withPic (g : Solo) (p : Pic) : Solo := { g with pic := p }

/-- **Port rule**: a straight piece on the interrupt controllers, with interrupts off. -/
theorem Ends.pic (code rest : List Insn) {p : Pic} (hrun : g.Running)
    (hint : g.cpu.interrupts = false) (hcode : g.cpu.code = code ++ rest)
    (hpic : runPic g.pic code = some p)
    (h : Ends src isr ((g.withPic p).goto rest) .guest) : Ends src isr g .guest := by
  induction code generalizing g with
  | nil =>
    cases hpic
    rw [Solo.Running.goto_eq] at h
    · exact h
    · exact ⟨hrun.live, hrun.noShadow, hrun.quiet⟩
    · exact hcode
  | cons insn code ih =>
    cases insn with
    | outb port value =>
      -- what the access does to the controllers is all it does
      have hnext : ∀ p', (∀ w, Experiment.exec isr ((g.goto (code ++ rest)).join .guest w)
          (.outb port value) = ((g.withPic p').goto (code ++ rest)).join .guest w) →
          runPic p' code = some p → Ends src isr g .guest := by
        intro p' hexec hrest
        have hoff : ((g.withPic p').goto (code ++ rest)).cpu.interrupts = false := hint
        apply Ends.next hrun hcode hexec rfl
        refine ih (g := (g.withPic p').goto (code ++ rest)) ⟨hrun.live, rfl, fun hon => ?_⟩ hint rfl
          hrest h
        rw [hoff] at hon
        cases hon
      simp only [runPic] at hpic
      split_ifs at hpic with hcommand hdata hslave
      · exact hnext (g.pic.command value) (fun w => if_pos hcommand) hpic
      · exact hnext (g.pic.data value) (fun w => (if_neg hcommand).trans (if_pos hdata)) hpic
      · exact hnext g.pic (fun w => (if_neg hcommand).trans
          ((if_neg hdata).trans (if_pos hslave))) hpic
    | _ => cases hpic

/-- Input 5 is unmasked and led to its vector, whatever the controllers were before. -/
theorem runPic_picSetup (p : Pic) :
    ∃ q, runPic p picSetup = some q ∧ q.vectorBase = virtioPicMasterVectorBase ∧
      q.requested = false ∧ q.edge.pending = true := by
  refine ⟨_, rfl, rfl, rfl, ?_⟩
  simp [Pic.edge, Pic.pending, Pic.command, Pic.data]

/-- The fast path has been kicked: the guest goes to sleep, the worker has not moved yet. -/
theorem Ends.kick (hrun : g.Running) (hint : g.cpu.interrupts = false)
    (hcode : g.cpu.code = notifyQueue :: waitForCompletionIrq) (hreg : g.registered = true)
    (hun : g.Unanswered) (h : ∀ failed, Waits src isr g ⟨.read, 0, failed⟩ 1) :
    Ends src isr g .guest := by
  have hstep : ∀ w, (g.join .guest w).guestStep isr = some (g.busy 4 w 1) := by
    intro w
    rw [guestStep_join hrun.live (fun h => by simp [hint] at h) hcode]
    simp [Experiment.exec, notifyQueue, Vmm.mmioWrite, Vmm.intercepted, isQueueNotify_address,
      Solo.join, Solo.goto, Solo.busy, Solo.waiting, waitCpu, hreg, hint, hrun.live]
  apply Ends.later
  · intro w
    exact ⟨.guest, _, hstep w⟩
  · intro w hidle t hmove
    rw [hstep w] at hmove
    cases hmove
    obtain ⟨wpc, result, failed⟩ := w
    rw [hreg] at hidle
    cases wpc with
    | read =>
      obtain rfl : result = 0 := hidle.2
      exact h failed 4 le_rfl
    | exited => exact Waits.hung hun rfl (.inl hidle.2) 4 le_rfl
    | _ => simp [WorkerSide.Idle] at hidle
  · intro w _ ok t hmove
    rw [vcpuStep_join] at hmove
    cases hmove

/-! ## The completion interrupt -/

/-- All six requests are completed, and the device has this InterruptStatus. -/
structure Solo.Served (status : BitVec 32) (g : Solo) : Prop where
  dev : g.dev = { operational.advance 6 with interruptStatus := status }
  requests : ∃ m₀, Requests m₀ 6 6 6 6 g.mem
  registered : g.registered = true
  exits : g.exits = 2
  kicks : g.guestKicks = 1
  calls : g.guestCalls = 1

/-- Then `main` finds what it looks for. -/
theorem Solo.Served.mainResult (hg : g.Served 0) (hrun : g.runResult = 0) {pc : VcpuPc}
    {w : WorkerSide} (hworker : w.result = 0) : mainResult (g.join pc w) = 0 := by
  obtain ⟨hdev, ⟨m₀, hreq⟩, -, hexits, hkicks, hcalls⟩ := hg
  have hintact : requestsIntact g.mem = true := by
    apply decide_eq_true
    intro i hi
    exact ⟨hreq.desc i hi, hreq.ring i hi, hreq.elems i hi⟩
  have havail : availIdx g.mem = virtioTotalRequestCount := by
    rw [availIdx, hreq.availLoad]
    rfl
  have hused : usedIdx g.mem = virtioTotalRequestCount := by
    rw [usedIdx, hreq.usedLoad]
    rfl
  simp [Virtio.mainResult, Solo.join, hdev, hintact, havail, hused, hexits, hkicks, hcalls, hrun,
    hworker]
  decide

/-- The guest finds its request completed, and reports success. -/
theorem Ends.success (hg : g.Served 0) (hrun : g.Running)
    (hcode : g.cpu.code = completionIrqReceived)
    (hword : g.mem.loadLe virtioGuestCompletionGpa 4 = 1) : Ends src isr g .guest := by
  obtain ⟨hdev, ⟨m₀, hreq⟩, hreg, hexits, hkicks, hcalls⟩ := hg
  have hread : RunsMemory (Requests m₀ 6 6 6 6)
      ([.expect (virtqUsedGpa + virtqUsedIdxOffset) 2 virtioTotalRequestCount.toNat
        .failCompletion] ++ expectUsed virtioIoeventfdDescIndex) (Requests m₀ 6 6 6 6) :=
    Requests.expectUsedIdx.append (Requests.expectUsed (by decide))
  obtain ⟨m, hmem, hreq⟩ := hread g.mem hreq
  let checked : Solo := g.goto (completionIrqReceived.drop 1)
  apply Ends.next (t := checked) (q := .guest) hrun hcode (fun w => if_pos hword) rfl
  have hchecked : checked.Running := ⟨hrun.live, rfl, hrun.quiet⟩
  refine Ends.memory _ [.outb virtioTestSuccessPort 0] hchecked rfl hmem ?_
  -- the exit at the success port leaves the loop of `main`
  let done : Solo := { (checked.withMem m).goto [] with runResult := 0 }
  have hrun' : ((checked.withMem m).goto [.outb virtioTestSuccessPort 0]).Running :=
    ⟨hrun.live, rfl, hrun.quiet⟩
  apply Ends.next (t := done) (q := .left) hrun' rfl (fun w => rfl) rfl
  apply Ends.left
  have hdone : done.Served 0 := ⟨hdev, ⟨m₀, hreq⟩, hreg, hexits, hkicks, hcalls⟩
  exact ⟨hreg, .inr (hdone.mainResult rfl rfl)⟩

/-- The wait is over. -/
theorem Ends.answered (hg : g.Served 0) (hrun : g.Running)
    (hcode : g.cpu.code = waitForCompletionIrq)
    (hword : g.mem.loadLe virtioGuestCompletionGpa 4 = 1) : Ends src isr g .guest := by
  obtain ⟨hdev, hreq, hreg, hexits, hkicks, hcalls⟩ := hg
  let off : Solo :=
    { g.goto (waitForCompletionIrq.drop 1) with
      cpu := { (g.goto (waitForCompletionIrq.drop 1)).cpu with interrupts := false } }
  apply Ends.next (t := off) (q := .guest) hrun hcode (fun w => rfl) rfl
  have hoff : off.Running := ⟨hrun.live, rfl, nofun⟩
  let received : Solo := off.goto completionIrqReceived
  have hword' : ¬ off.mem.loadLe virtioGuestCompletionGpa 4 = 0 := by
    rw [show off.mem.loadLe virtioGuestCompletionGpa 4 = 1 from hword]
    decide
  apply Ends.next (t := received) (q := .guest) hoff rfl (fun w => if_neg hword') rfl
  apply Ends.success
  · exact ⟨hdev, hreq, hreg, hexits, hkicks, hcalls⟩
  · exact ⟨hrun.live, rfl, nofun⟩
  · rfl
  · exact hword

theorem Pic.pending_of_not_requested {p : Pic} (h : p.requested = false) : p.pending = false := by
  simp [Pic.pending, h]

/-- **The handler**: it answers the device and the controller, and returns to the wait. -/
theorem Ends.handler (hg : g.Served virtioMmioIntVring) (hlive : g.cpu.halted = false)
    (hshadow : g.cpu.shadow = false) (hint : g.cpu.interrupts = false)
    (hcode : g.cpu.code = block isr .virtioCompletionIsr)
    (hreturn : g.cpu.returnTo = [.jmp .waitForCompletionIrq])
    (hrequested : g.pic.requested = false) : Ends src isr g .guest := by
  obtain ⟨hdev, ⟨m₀, hreq⟩, hreg, hexits, hkicks, hcalls⟩ := hg
  have hrun : g.Running := ⟨hlive, hshadow, fun hon => by simp [hint] at hon⟩
  have hno : ¬ (g.exits = 2 ∧ g.registered = false) := by simp [hreg]
  have hack : runRegisters g.dev [.check .interruptStatus (.bits virtioMmioIntVring)
      .unexpectedInterrupt, .write .interruptAck virtioMmioIntVring] =
        some (operational.advance 6) := by
    rw [hdev]
    decide
  refine Ends.registers _ [.store virtioGuestCompletionGpa 4 1, .jmp .picEoi] hrun hno hcode
    hack ?_
  let acked : Solo :=
    (g.withDev (operational.advance 6)).goto [.store virtioGuestCompletionGpa 4 1, .jmp .picEoi]
  have hacked : acked.Running := ⟨hlive, rfl, hrun.quiet⟩
  refine Ends.memory [.store virtioGuestCompletionGpa 4 1] [.jmp .picEoi] hacked rfl rfl ?_
  let stored : Solo :=
    (acked.withMem (acked.mem.storeLe virtioGuestCompletionGpa 4 1)).goto [.jmp .picEoi]
  have hstored : stored.Running := ⟨hlive, rfl, hrun.quiet⟩
  apply Ends.next (t := stored.goto picEoi) (q := .guest) hstored rfl (fun w => rfl) rfl
  have heoi : (stored.goto picEoi).Running := ⟨hlive, rfl, hrun.quiet⟩
  refine Ends.pic [.outb 0x20 0x20] [.iret] heoi hint rfl rfl ?_
  let ended : Solo := ((stored.goto picEoi).withPic (g.pic.command 0x20)).goto [.iret]
  have hended : ended.Running := by
    refine ⟨hlive, rfl, fun hon => ?_⟩
    rw [show ended.cpu.interrupts = false from hint] at hon
    cases hon
  let returned : Solo :=
    { ended with cpu := { (ended.goto []).cpu with code := g.cpu.returnTo, interrupts := true } }
  apply Ends.next (t := returned) (q := .guest) hended rfl (fun w => rfl) rfl
  have hreturned : returned.Running :=
    ⟨hlive, rfl, fun _ => Pic.pending_of_not_requested hrequested⟩
  apply Ends.next (t := returned.goto waitForCompletionIrq) (q := .guest) hreturned hreturn
    (fun w => rfl) rfl
  have hrebased : Requests stored.mem 6 6 6 6 stored.mem := by
    apply hreq.rebase
    intro j hj
    apply Memory.storeBytes_frame
    rw [Memory.length_leBytes]
    exact .inr (le_trans (by decide) hj)
  apply Ends.answered
  · exact ⟨rfl, ⟨_, hrebased⟩, hreg, hexits, hkicks, hcalls⟩
  · exact ⟨hlive, rfl, hreturned.quiet⟩
  · rfl
  · exact Memory.loadLe_storeLe _ _ (by decide)

/-! ## Phase D -/

/-- **The fast path**: the worker serves the sixth request while the guest goes to sleep. -/
theorem Waits.serve (hreg : g.registered = true) (hexits : g.exits = 2) (hkicks : g.guestKicks = 0)
    (hcalls : g.guestCalls = 0) (hdev : g.dev = operational.advance 5) {m₀ : Memory}
    (hreq : Requests m₀ 6 6 6 5 g.mem) (hawait : Awaiting isr g.mem)
    (hidt : g.cpu.idtLoaded = true) (hvector : g.pic.vectorBase = virtioPicMasterVectorBase)
    (hquiet : g.pic.requested = false) (hpending : g.pic.edge.pending = true) (failed : Bool) :
    Waits src isr g ⟨.read, 0, failed⟩ 1 := by
  have hun : g.Unanswered := ⟨hawait.word, hquiet⟩
  apply Waits.read hun
  apply Waits.enter hun
  let entered : Solo := { g with guestKicks := g.guestKicks + 1 }
  have hlast : g.dev.queue.lastAvailIdx = BitVec.ofNat 16 5 := hdev ▸ operational_advance_last 5
  have hready : g.dev.queue.ready ≠ 0 := hdev ▸ operational_advance_ready 5
  have hlayout : g.dev.queue.FixedLayout := hdev ▸ operational_advance_fixedLayout 5
  obtain ⟨k, m, f, n, hreach, hend⟩ := hreq.serve src (by constructor <;> decide) (f := {})
    g.calls rfl hready hlayout hlast
  have hfast : FastCall g.mem ⟨g.dev, g.mem, {}, g.calls⟩ :=
    ⟨fun _ => hlayout, trivial, fun _ _ => rfl⟩
  have hawait' : Awaiting isr m := hawait.congr (hfast.reaches hreach).below
  apply Waits.call (g := entered) hreach hfast
  · exact ⟨hun.word, hun.pic⟩
  rcases hend with ⟨hret, rfl, hreq'⟩ | ⟨hret, hstarves⟩
  · have hside : WorkerSide.ofFrame f failed = ⟨.checkIndex, 0, failed⟩ := by
      simp [WorkerSide.ofFrame, WorkerPc.ofFrame, hret]
    have hdev' : g.dev.advance 1 = operational.advance 6 := by
      rw [hdev, operational_advance_advance]
    rw [hside]
    apply Waits.completed
    · exact ⟨hawait'.word, hquiet⟩
    · exact hreg
    · exact (congrArg (fun dev => dev.queue.lastAvailIdx) hdev').trans (operational_advance_last 6)
    · show usedIdx m = virtioTotalRequestCount
      rw [usedIdx, hreq'.usedLoad]
      rfl
    · intro k hk
      apply Ends.awaited
      · refine ⟨hidt, ?_, hpending⟩
        show gateOpen isr m (g.pic.vectorBase.toNat + virtioIrqGsi) = true
        rw [hvector]
        exact hawait'.gate
      · exact hawait'.word
      · apply Ends.handler
        · refine ⟨?_, ⟨m₀, hreq'⟩, hreg, hexits, ?_, ?_⟩
          · show { g.dev.advance 1 with
              interruptStatus := (g.dev.advance 1).interruptStatus ||| virtioMmioIntVring } = _
            rw [hdev']
            rfl
          · show g.guestKicks + 1 = 1
            rw [hkicks]
          · show g.guestCalls + 1 = 1
            rw [hcalls]
        all_goals rfl
      · exact hk
  · have hside : WorkerSide.ofFrame f failed = ⟨.exited, -1, failed⟩ := by
      simp [WorkerSide.ofFrame, WorkerPc.ofFrame, hret]
    rw [hside]
    exact Waits.hung ⟨hawait'.word, hquiet⟩ rfl (.inr hstarves)

/-- Phase D. -/
theorem Ends.accelerated (hdrives : g.Drives (accelerated isr) 5) (hexits : g.exits = 2)
    (hreg : g.registered = true) : Ends src isr g .guest := by
  obtain ⟨hrun, hint, hcode, hdev, ⟨m₀, hreq⟩, hkicks, hcalls⟩ := hdrives
  have hfirst : RunsMemory (Requests m₀ 5 5 5 5) (expectUsed 1 ++ expectUsed 2 ++ expectUsed 3 ++
      expectUsed 4 ++ idtStores isr) _ :=
    ((((Requests.expectUsed (by decide)).append (Requests.expectUsed (by decide))).append
      (Requests.expectUsed (by decide))).append (Requests.expectUsed (by decide))).append
      runsMemory_idtStores
  obtain ⟨m, hmem, hgate⟩ := hfirst g.mem hreq
  obtain ⟨m', hmem', m₁, hreq', hawait⟩ := runsMemory_last (l := .failQueue) m hgate
  obtain ⟨p, hpic, hvector, hquiet, hpending⟩ := runPic_picSetup g.pic
  let last : List Insn := [.store virtioGuestCompletionGpa 4 0] ++
    (describe virtioIoeventfdDescIndex ++ [offer virtioIoeventfdDescIndex] ++
      [.expect (virtqAvailGpa + virtqAvailIdxOffset) 2 virtioRngRequestCount.toNat .failQueue] ++
      [publishAvail virtioTotalRequestCount.toNat])
  let kick : List Insn := notifyQueue :: waitForCompletionIrq
  refine Ends.memory _ (.lidt :: (picSetup ++ (last ++ kick))) hrun hcode hmem ?_
  let gated : Solo := (g.withMem m).goto (.lidt :: (picSetup ++ (last ++ kick)))
  let loaded : Solo :=
    { gated with cpu := { (gated.goto (picSetup ++ (last ++ kick))).cpu with idtLoaded := true } }
  have hgated : gated.Running := .of_off hrun.live rfl hint
  apply Ends.next (t := loaded) (q := .guest) hgated rfl (fun w => rfl) rfl
  have hloaded : loaded.Running := .of_off hrun.live rfl hint
  refine Ends.pic picSetup (last ++ kick) hloaded hint rfl hpic ?_
  let programmed : Solo := (loaded.withPic p).goto (last ++ kick)
  have hprogrammed : programmed.Running := .of_off hrun.live rfl hint
  refine Ends.memory last kick hprogrammed rfl hmem' ?_
  let published : Solo := (programmed.withMem m').goto kick
  have hpublished : published.Running := .of_off hrun.live rfl hint
  have hun : published.Unanswered := ⟨hawait.word, hquiet⟩
  apply Ends.kick hpublished hint rfl hreg hun
  have hdev' : published.dev = operational.advance 5 := hdev
  exact Waits.serve (g := published) hreg hexits hkicks hcalls hdev' hreq' hawait rfl hvector hquiet
    hpending

end Phases

/-! ## The whole run -/

variable {src : RandomSource} {isr : BitVec 16} {s : Experiment}

theorem Finishes.start (h : (experiment src isr).init s) : Finishes src isr s := by
  obtain ⟨v, hinit, rfl⟩ := h
  obtain ⟨hdev, hvcpu, hworker, hexits, hreg, hkick, hstop, -⟩ := hinit
  obtain ⟨dev, mem, vcpu, worker, exits, registered, kickCount, stop⟩ := v
  subst hdev hvcpu hworker hexits hreg hkick hstop
  let g : Solo :=
    { dev := {}
      mem := mem
      cpu := { code := guestStart }
      pic := {}
      calls := 0
      exits := 0
      registered := false
      guestKicks := 0
      guestCalls := 0
      runResult := 1 }
  have hends : Ends src isr g .guest := by
    apply Ends.bringUp (.of_off rfl rfl rfl) rfl rfl rfl rfl rfl rfl
    intro g hdrives hexits hreg
    apply Ends.single hdrives hexits hreg
    intro g hdrives hexits hreg
    apply Ends.batch hdrives hexits hreg
    intro g hdrives hexits hreg
    exact Ends.accelerated hdrives hexits hreg
  exact hends ⟨.notStarted, 0, false⟩ ⟨rfl, rfl⟩

/-- An instruction takes no failure code back. -/
theorem exec_failureCode {insn : Insn} (h : (s.exec isr insn).failureCode = none) :
    s.failureCode = none := by
  cases insn with
  | outb port value =>
    simp only [Experiment.exec, Experiment.out] at h
    split_ifs at h
    all_goals first | exact h | simp [Experiment.exit] at h
  | check r c l =>
    simp only [Experiment.exec] at h
    split at h
    · split at h <;> exact h
    · exact h
  | expect addr len value l | poll addr value l | loop l =>
    simp only [Experiment.exec] at h
    split at h <;> exact h
  | _ => exact h

/-- Once the guest has reported a failure it is known for ever. -/
theorem step_failureCode {a : ExperimentAct} {t : Experiment}
    (hstep : (experiment src isr).step s a = some t) (h : t.failureCode = none) :
    s.failureCode = none := by
  cases a with
  | guest =>
    have hguest : s.guestStep isr = some t := hstep
    simp only [Experiment.guestStep] at hguest
    split_ifs at hguest
    · cases hguest
      simp only [Experiment.interrupt] at h
      split at h <;> exact h
    · split at hguest
      · cases hguest
      · cases hguest
        have hbefore := exec_failureCode h
        exact hbefore
  | vcpu ok =>
    have hvcpu : s.vcpuStep src ok = some t := hstep
    simp only [Experiment.vcpuStep, Option.map_eq_some_iff] at hvcpu
    obtain ⟨v, -, rfl⟩ := hvcpu
    exact h
  | worker ok =>
    have hworker : s.workerStep src ok = some t := hstep
    simp only [Experiment.workerStep, Option.map_eq_some_iff] at hworker
    obtain ⟨v, -, rfl⟩ := hworker
    exact h

/-- **The experiment comes to its end**: from every reachable state, whoever moves and whichever
    system calls fail, every run stops; the guest never reports a failure on the way; and `main`
    returns 0 unless a system call has failed or `getrandom` starves a request. -/
theorem experiment_finishes (h : (experiment src isr).Reachable s) :
    (experiment src isr).Inevitable (Finished src isr) s ∧ s.failureCode = none := by
  have hinev : (experiment src isr).Inevitable (Finished src isr) s :=
    System.Inevitable.of_reach (fun _ => Finishes.start) (fun _ hs => hs.stuck) h
  exact ⟨hinev, hinev.throughout (fun _ _ _ => step_failureCode) fun _ hs => hs.noFailure⟩

/-- `getrandom` that always answers starves nobody. -/
theorem steadySource_not_starves : ¬ steadySource.Starves := by
  rintro ⟨n, n', hfill⟩
  exact absurd (fill_steadySource hfill) (by decide)

/-- The guest has negotiated its features; whatever comes, a failed system call or success. -/
theorem experiment_finishes_negotiated :
    ∃ s, (experiment steadySource 0x2000).Reachable s ∧
      s.vmm.dev.status = virtioStatusFeaturesAccepted ∧ s.failureCode = none ∧
      (experiment steadySource 0x2000).Inevitable
        (fun t => t.failed = true ∨ mainResult t = 0) s := by
  obtain ⟨s, hrun, hstatus⟩ :
      ∃ s ∈ (experiment steadySource 0x2000).exec (.start bootVmm)
          ((List.replicate 18 [ExperimentAct.guest, .vcpu true]).flatten),
        s.vmm.dev.status = virtioStatusFeaturesAccepted := by
    decide +kernel
  have hreach : (experiment steadySource 0x2000).Reachable s :=
    System.reachable_of_exec ⟨bootVmm, vmm_init_boot, rfl⟩ hrun
  obtain ⟨hinev, hcode⟩ := experiment_finishes hreach
  refine ⟨s, hreach, hstatus, hcode, hinev.trans fun t ht => .now ?_⟩
  rcases ht.result with hfailed | hstarves | ⟨-, -, hresult⟩
  · exact .inl hfailed
  · exact absurd hstarves steadySource_not_starves
  · exact .inr hresult

end LinuxMaxxing.Virtio
