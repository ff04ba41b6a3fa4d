import LinuxMaxxing.Virtio.GuestRun

/-!
# The Kick and the Completion Interrupt

From the third notification on the guest is not alone: the worker serves the kick while the guest
goes to sleep, and the completion interrupt may find the guest at any instruction of its wait.

- `waitCpu c k`: the guest in `wait_for_completion_irq`, `k` instructions before it sleeps;
- `Waits`: the experiment is finished in the end, however far the guest has got;
- `Ends.interrupted`: the interrupt, its handler, and the way back to the end of the program.
-/

namespace LinuxMaxxing.Virtio

open LinuxMaxxing.Lib

/-! ## The guest goes to sleep -/

/-- The guest `k` instructions before it sleeps. -/
def waitCpu (c : Cpu) : Nat → Cpu
  | 0 =>
    { c with
      code := [.jmp .waitForCompletionIrq], interrupts := true, shadow := false, halted := true }
  | 1 =>
    { c with
      code := [.hlt, .jmp .waitForCompletionIrq]
      interrupts := true, shadow := true, halted := false }
  | 2 =>
    { c with
      code := [.sti, .hlt, .jmp .waitForCompletionIrq]
      interrupts := false, shadow := false, halted := false }
  | 3 =>
    { c with
      code := [.expect virtioGuestCompletionGpa 4 0 .completionIrqReceived, .sti, .hlt,
        .jmp .waitForCompletionIrq]
      interrupts := false, shadow := false, halted := false }
  | _ =>
    { c with
      code := waitForCompletionIrq, interrupts := false, shadow := false, halted := false }

/-- The guest waits. -/
def Solo.waiting (g : Solo) (k : Nat) : Solo := { g with cpu := waitCpu g.cpu k }

/-- The guest waits, and the kick eventfd has that count. -/
def Solo.busy (g : Solo) (k : Nat) (w : WorkerSide) (kick : Nat) : Experiment :=
  let s := (g.waiting k).join .guest w
  { s with vmm := { s.vmm with kickCount := kick } }

/-- The completion word is clear and no interrupt is waiting. -/
structure Solo.Unanswered (g : Solo) : Prop where
  word : g.mem.loadLe virtioGuestCompletionGpa 4 = 0
  pic : g.pic.requested = false

section Waits

variable (src : RandomSource) (isr : BitVec 16)

/-- The experiment is finished in the end, however far the guest has got. -/
def Waits (g : Solo) (w : WorkerSide) (kick : Nat) : Prop :=
  ∀ k ≤ 4, Finishes src isr (g.busy k w kick)

variable {src isr} {g t : Solo} {w v : WorkerSide} {kick kick' : Nat}

/-- One instruction of the wait. -/
theorem guestStep_busy (h : g.Unanswered) {k : Nat} (hk : k < 4) :
    (g.busy (k + 1) w kick).guestStep isr = some (g.busy k w kick) := by
  obtain ⟨hword, hpic⟩ := h
  match k, hk with
  | 0, _ => simp [Solo.busy, Solo.waiting, Solo.join, waitCpu, Experiment.guestStep, Experiment.exec]
  | 1, _ => simp [Solo.busy, Solo.waiting, Solo.join, waitCpu, Experiment.guestStep, Experiment.exec]
  | 2, _ =>
    simp [Solo.busy, Solo.waiting, Solo.join, waitCpu, Experiment.guestStep, Experiment.exec, hword]
  | 3, _ =>
    simp [Solo.busy, Solo.waiting, Solo.join, waitCpu, Experiment.guestStep, Experiment.exec,
      waitForCompletionIrq]

/-- A guest that sleeps. -/
theorem guestStep_asleep (h : g.Unanswered) : (g.busy 0 w kick).guestStep isr = none := by
  simp [Solo.busy, Solo.waiting, Solo.join, waitCpu, Experiment.guestStep, Pic.pending, h.pic]

theorem vcpuStep_busy {k : Nat} (ok : Bool) : (g.busy k w kick).vcpuStep src ok = none := by
  simp [Solo.busy, Solo.join, Experiment.vcpuStep, Vmm.vcpuStep]

/-- The guest only goes on to sleep. -/
theorem Waits.of_worker (hun : g.Unanswered)
    (hasleep : (∃ t, (g.busy 0 w kick).workerStep src true = some t) ∨
      Finished src isr (g.busy 0 w kick))
    (hworker : ∀ k ≤ 4, ∀ ok t, (g.busy k w kick).workerStep src ok = some t →
      Finishes src isr t) : Waits src isr g w kick := by
  intro k hk
  induction k with
  | zero =>
    rcases hasleep with ⟨t, ht⟩ | hdone
    · apply Finishes.later
      · exact ⟨.worker true, t, ht⟩
      · intro t hmove
        rw [guestStep_asleep hun] at hmove
        cases hmove
      · intro ok t hmove
        rw [vcpuStep_busy] at hmove
        cases hmove
      · exact hworker 0 hk
    · exact .now hdone
  | succ k ih =>
    have hguest : (g.busy (k + 1) w kick).guestStep isr = some (g.busy k w kick) :=
      guestStep_busy hun (by omega)
    apply Finishes.later
    · exact ⟨.guest, _, hguest⟩
    · intro t hmove
      rw [hguest] at hmove
      cases hmove
      exact ih (by omega)
    · intro ok t hmove
      rw [vcpuStep_busy] at hmove
      cases hmove
    · exact hworker (k + 1) hk

/-- Without its worker the guest sleeps for ever. -/
theorem Waits.hung (hun : g.Unanswered) (hpc : w.pc = .exited)
    (hblame : w.failed = true ∨ src.Starves) : Waits src isr g w kick := by
  have hdead : ∀ k ok, (g.busy k w kick).workerStep src ok = none := by
    intro k ok
    simp [Solo.busy, Solo.join, Experiment.workerStep, Vmm.workerStep, hpc]
  apply Waits.of_worker hun
  · right
    refine ⟨stuck_of_none ?_ (fun ok => ?_) (hdead 0), rfl, hblame.imp_right .inl⟩
    · exact guestStep_asleep hun
    · exact vcpuStep_busy ok
  · intro k _ ok t hmove
    rw [hdead] at hmove
    cases hmove

/-- A step of the worker that cannot fail. -/
theorem Waits.next (hun : g.Unanswered)
    (hstep : ∀ k ok, (g.busy k w kick).workerStep src ok = some (t.busy k v kick'))
    (h : Waits src isr t v kick') : Waits src isr g w kick := by
  apply Waits.of_worker hun (.inl ⟨_, hstep 0 true⟩)
  intro k hk ok t hmove
  rw [hstep k ok] at hmove
  cases hmove
  exact h k hk

/-! ## The worker serves the kick -/

/-- The worker reads the kick. -/
theorem Waits.read (hun : g.Unanswered) {failed : Bool}
    (h : Waits src isr g ⟨.checkStop 1, 0, failed⟩ 0) :
    Waits src isr g ⟨.read, 0, failed⟩ 1 := by
  have hstep : ∀ k ok, (g.busy k ⟨.read, 0, failed⟩ 1).workerStep src ok = some
      (if ok = true then g.busy k ⟨.checkStop 1, 0, failed⟩ 0
        else g.busy k ⟨.exited, -1, true⟩ 1) := by
    intro k ok
    cases ok <;> simp [Experiment.workerStep, Vmm.workerStep, Solo.busy, Solo.join, nextCalls,
      WorkerPc.frame, Experiment.resultAfter, Solo.waiting]
  apply Waits.of_worker hun (.inl ⟨_, hstep 0 true⟩)
  intro k hk ok t hmove
  rw [hstep k ok] at hmove
  cases hmove
  cases ok with
  | true => exact h k hk
  | false => exact Waits.hung hun rfl (.inl rfl) k hk

/-- It is not told to stop, and enters `process_ioeventfd_kick`. -/
theorem Waits.enter (hun : g.Unanswered) {failed : Bool}
    (h : Waits src isr { g with guestKicks := g.guestKicks + 1 }
      ⟨.processQueue {}, 0, failed⟩ 0) :
    Waits src isr g ⟨.checkStop 1, 0, failed⟩ 0 := by
  apply Waits.next (t := { g with guestKicks := g.guestKicks + 1 }) (v := ⟨.kick 1, 0, failed⟩)
    hun
  · intro k ok
    simp [Experiment.workerStep, Vmm.workerStep, Solo.busy, Solo.join, nextCalls,
      WorkerPc.frame, Experiment.resultAfter, Solo.waiting]
    rfl
  · refine Waits.next ⟨hun.word, hun.pic⟩ (fun k ok => ?_) h
    simp [Experiment.workerStep, Vmm.workerStep, Solo.busy, Solo.join, nextCalls,
      WorkerPc.frame, Experiment.resultAfter, Solo.waiting]

/-- Where the worker stands in or after a call. -/
def WorkerPc.ofFrame (f : Frame) : WorkerPc :=
  match f.pc with
  | .returned result => if result < 0 then .exited else .checkIndex
  | _ => .processQueue f

/-- The worker in or after a call; `backend.result` is -1 when it gives up. -/
def WorkerSide.ofFrame (f : Frame) (failed : Bool) : WorkerSide :=
  ⟨.ofFrame f, if WorkerPc.ofFrame f = .exited then -1 else 0, failed⟩

/-- A step of the worker in `process_queue`. -/
theorem workerStep_processQueue {s : Experiment} {f : Frame} {p : Progress} {ok : Bool}
    (hworker : s.vmm.worker = .processQueue f)
    (hp : processQueue s.vmm.dev s.vmm.mem f (src.call s.randomCalls f.asked) = some p) :
    s.workerStep src ok = some
      { s with
        vmm := { s.vmm with dev := p.dev, mem := p.mem, worker := .ofFrame p.frame }
        randomCalls := nextCalls s.randomCalls (some f)
        backendResult := if WorkerPc.ofFrame p.frame = .exited then -1 else s.backendResult } := by
  have hstep : s.vmm.workerStep (src.call s.randomCalls f.asked) ok = some
      { s.vmm with dev := p.dev, mem := p.mem, worker := .ofFrame p.frame } := by
    simp only [Vmm.workerStep, hworker, hp, Option.map_some]
    rfl
  simp only [Experiment.workerStep, hworker, WorkerPc.frame, nextRandom, hstep, Option.map_some,
    Experiment.resultAfter]
  cases WorkerPc.ofFrame p.frame <;> simp

/-- What a call on the fast path keeps: it knows where it stands, and stays off the low memory. -/
structure FastCall (m₀ : Memory) (c : Call) : Prop where
  ready : c.dev.queue.ReadyFixed
  known : Known c.dev c.frame
  below : ∀ j < virtqDescGpa, c.mem j = m₀ j

/-- The backend writes nothing below the used ring. -/
theorem FastCall.step {m₀ : Memory} {c c' : Call} (h : FastCall m₀ c)
    (hstep : c.step src = some c') : FastCall m₀ c' := by
  unfold Call.step at hstep
  simp only [Option.map_eq_some_iff] at hstep
  obtain ⟨p, hp, rfl⟩ := hstep
  refine ⟨?_, h.known.processQueue h.ready hp, fun j hj => ?_⟩
  · rw [processQueue_dev hp]
    exact h.ready.advance _
  · rw [← h.below j hj]
    apply processQueue_frame hp
    intro a ha hdir htouch
    have hwritable := (h.known.confined hp a ha).writable hdir
    simp only [Access.Touches, Writable, Access.Within, virtqUsedGpa, virtioRngBufferGpa,
      virtqDescGpa] at hj htouch hwritable
    omega

theorem FastCall.reaches {m₀ : Memory} {c c' : Call} (h : FastCall m₀ c)
    (hreach : c.Reaches src c') : FastCall m₀ c' := by
  induction hreach with
  | refl => exact h
  | tail _ hstep ih => exact ih.step hstep

/-- **Call rule** on the fast path: the guest may read its memory between any two steps. -/
theorem Waits.call {c c' : Call} (hreach : c.Reaches src c') (hfast : FastCall g.mem c)
    (hun : g.Unanswered) {failed : Bool}
    (h : Waits src isr (g.withCall c') (.ofFrame c'.frame failed) 0) :
    Waits src isr (g.withCall c) (.ofFrame c.frame failed) 0 := by
  induction hreach using Relation.ReflTransGen.head_induction_on with
  | refl => exact h
  | @head c c₁ hstep _ ih =>
    have hrunning : WorkerPc.ofFrame c.frame = .processQueue c.frame := by
      unfold WorkerPc.ofFrame
      split
      · next hret => simp [Call.step, processQueue, hret] at hstep
      · rfl
    have hun' : (g.withCall c).Unanswered := by
      refine ⟨?_, hun.pic⟩
      rw [← hun.word]
      apply Memory.loadLe_congr
      intro j _ hj
      exact hfast.below j (lt_of_lt_of_le hj (by decide))
    apply Waits.next hun' _ (ih (hfast.step hstep))
    intro k ok
    unfold Call.step at hstep
    simp only [Option.map_eq_some_iff] at hstep
    obtain ⟨p, hp, rfl⟩ := hstep
    rw [workerStep_processQueue hrunning hp]
    simp [Solo.busy, Solo.join, Solo.withCall, Solo.waiting, WorkerSide.ofFrame, nextCalls,
      hrunning]

/-- The edge has reached the interrupt controller. -/
def Solo.signalled (g : Solo) : Solo :=
  { g with pic := g.pic.edge, guestCalls := g.guestCalls + 1 }

/-- InterruptStatus is published. -/
def Solo.withInterrupt (g : Solo) : Solo :=
  { g with dev := { g.dev with interruptStatus := g.dev.interruptStatus ||| virtioMmioIntVring } }

/-- `signal_irqfd_completion`: the edge finds the guest wherever it has got to. -/
theorem Waits.signal (hun : g.Unanswered) (hreg : g.registered = true) {failed : Bool}
    (h : ∀ k ≤ 4, Ends src isr (g.signalled.waiting k) .guest) :
    Waits src isr g ⟨.signal, 0, failed⟩ 0 := by
  have hstep : ∀ k ok, (g.busy k ⟨.signal, 0, failed⟩ 0).workerStep src ok = some
      (if ok = true then (g.signalled.waiting k).join .guest ⟨.read, 0, failed⟩
        else g.busy k ⟨.exited, -1, true⟩ 0) := by
    intro k ok
    cases ok <;> simp [Experiment.workerStep, Vmm.workerStep, Solo.busy, Solo.join, nextCalls,
      WorkerPc.frame, Experiment.resultAfter, Solo.waiting, Solo.signalled]
  apply Waits.of_worker hun (.inl ⟨_, hstep 0 true⟩)
  intro k hk ok t hmove
  rw [hstep k ok] at hmove
  cases hmove
  cases ok with
  | true => exact h k hk _ ⟨hreg, rfl⟩
  | false => exact Waits.hung hun rfl (.inl rfl) k hk

/-- After the call: the request is checked, InterruptStatus is set, the completion signalled. -/
theorem Waits.completed (hun : g.Unanswered) (hreg : g.registered = true)
    (hlast : g.dev.queue.lastAvailIdx = virtioTotalRequestCount)
    (hused : usedIdx g.mem = virtioTotalRequestCount) {failed : Bool}
    (h : ∀ k ≤ 4, Ends src isr (g.withInterrupt.signalled.waiting k) .guest) :
    Waits src isr g ⟨.checkIndex, 0, failed⟩ 0 := by
  apply Waits.next (t := g) (v := ⟨.checkUsed, 0, failed⟩) hun
  · intro k ok
    simp [Experiment.workerStep, Vmm.workerStep, Solo.busy, Solo.join, nextCalls,
      WorkerPc.frame, Experiment.resultAfter, Solo.waiting, hlast]
    rfl
  have hidx : BitVec.ofNat 16 (g.mem.loadLe (virtqUsedGpa + virtqUsedIdxOffset) 2) =
      virtioTotalRequestCount := hused
  apply Waits.next (t := g) (v := ⟨.interrupt, 0, failed⟩) hun
  · intro k ok
    simp [Experiment.workerStep, Vmm.workerStep, Solo.busy, Solo.join, nextCalls,
      WorkerPc.frame, Experiment.resultAfter, Solo.waiting, hidx]
    rfl
  apply Waits.next (t := g.withInterrupt) (v := ⟨.signal, 0, failed⟩) hun
  · intro k ok
    simp [Experiment.workerStep, Vmm.workerStep, Solo.busy, Solo.join, nextCalls,
      WorkerPc.frame, Experiment.resultAfter, Solo.waiting, Solo.withInterrupt]
    rfl
  · apply Waits.signal
    · exact ⟨hun.word, hun.pic⟩
    · exact hreg
    · exact h

end Waits

/-! ## The interrupt -/

section Interrupt

variable {src : RandomSource} {isr : BitVec 16} {g : Solo}

/-- The processor has taken the interrupt. -/
def Solo.interrupted (isr : BitVec 16) (g : Solo) : Solo :=
  { g with
    pic := { g.pic with requested := false, inService := true }
    cpu :=
      { g.cpu with
        code := block isr .virtioCompletionIsr
        interrupts := false
        halted := false
        returnTo := g.cpu.code } }

/-- The processor is ready for the completion interrupt. -/
structure Solo.Armed (isr : BitVec 16) (g : Solo) : Prop where
  idt : g.cpu.idtLoaded = true
  gate : gateOpen isr g.mem (g.pic.vectorBase.toNat + virtioIrqGsi) = true
  pending : g.pic.pending = true

/-- The interrupt wakes the guest. -/
theorem Ends.interrupt (harmed : g.Armed isr)
    (h : Ends src isr ((g.waiting 0).interrupted isr) .guest) :
    Ends src isr (g.waiting 0) .guest := by
  have hstep : ∀ w, ((g.waiting 0).join .guest w).guestStep isr =
      some (((g.waiting 0).interrupted isr).join .guest w) := by
    intro w
    simp [Experiment.guestStep, Experiment.interrupt, Solo.join, Solo.waiting, waitCpu,
      Solo.interrupted, harmed.pending, harmed.idt, harmed.gate]
  apply Ends.later
  · intro w
    exact ⟨.guest, _, hstep w⟩
  · intro w hidle t hmove
    rw [hstep w] at hmove
    cases hmove
    exact h w hidle
  · intro w _ ok t hmove
    rw [vcpuStep_join] at hmove
    cases hmove

/-- However far the guest has got when the edge comes, it takes the interrupt asleep. -/
theorem Ends.awaited (harmed : g.Armed isr) (hword : g.mem.loadLe virtioGuestCompletionGpa 4 = 0)
    (h : Ends src isr ((g.waiting 0).interrupted isr) .guest) {k : Nat} (hk : k ≤ 4) :
    Ends src isr (g.waiting k) .guest := by
  have hdown : ∀ k < 4, Ends src isr (g.waiting k) .guest →
      Ends src isr (g.waiting (k + 1)) .guest := by
    intro k hk hnext
    match k, hk with
    | 0, _ =>
      -- the instruction after `sti`: no interrupt before it
      exact Ends.insn (t := g.waiting 0) rfl (fun _ => .inl rfl) rfl (fun _ => rfl) rfl hnext
    | 1, _ => exact Ends.insn (t := g.waiting 1) rfl nofun rfl (fun _ => rfl) rfl hnext
    | 2, _ =>
      exact Ends.insn (t := g.waiting 2) rfl nofun rfl (fun _ => if_pos hword) rfl hnext
    | 3, _ => exact Ends.insn (t := g.waiting 3) rfl nofun rfl (fun _ => rfl) rfl hnext
  induction k with
  | zero => exact Ends.interrupt harmed h
  | succ k ih => exact hdown k (by omega) (ih (by omega))

end Interrupt

end LinuxMaxxing.Virtio
