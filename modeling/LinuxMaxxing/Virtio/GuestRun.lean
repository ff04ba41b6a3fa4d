import LinuxMaxxing.Lib.Inevitable
import LinuxMaxxing.Virtio.GuestMemory

/-!
# How the Experiment Ends

What it takes for the guest, the VMM and its worker to come to the end of `main`, whoever moves at
each point and whichever system calls fail.

- `Finished`: the states in which nobody moves any more, and what holds there;
- `Solo`: the state as far as the guest and its vCPU change it, while the worker waits for a kick;
- `Ends`: from there the experiment is finished in the end, wherever the waiting worker stands.

Each kind of piece of the program has one rule about `Ends`: `Ends.memory`, `Ends.registers`,
`Ends.call`. A proof with them goes through the program from its first instruction to its last.
-/

namespace LinuxMaxxing.Virtio

open LinuxMaxxing.Lib

/-! ## Outcome -/

/-- Nobody moves any more, the guest has reported no failure, and `main` returns 0 unless a system
    call has failed or `getrandom` can starve a request. -/
structure Finished (src : RandomSource) (isr : BitVec 16) (s : Experiment) : Prop where
  stuck : (experiment src isr).Stuck s
  noFailure : s.failureCode = none
  result : s.failed = true ∨ src.Starves ∨
    s.vmm.vcpu = .joining ∧ s.vmm.worker = .exited ∧ mainResult s = 0

section Finishes

variable (src : RandomSource) (isr : BitVec 16)

/-- Every run from here that goes on for as long as it can is finished in the end. -/
def Finishes (s : Experiment) : Prop :=
  (experiment src isr).Inevitable (Finished src isr) s

variable {src isr} {s : Experiment}

/-- **Step rule**, one premise for each of those that may move. -/
theorem Finishes.later (hgo : ∃ a t, (experiment src isr).step s a = some t)
    (hguest : ∀ t, s.guestStep isr = some t → Finishes src isr t)
    (hvcpu : ∀ ok t, s.vcpuStep src ok = some t → Finishes src isr t)
    (hworker : ∀ ok t, s.workerStep src ok = some t → Finishes src isr t) :
    Finishes src isr s := by
  apply System.Inevitable.later hgo
  intro a t hmove
  cases a with
  | guest => exact hguest t hmove
  | vcpu ok => exact hvcpu ok t hmove
  | worker ok => exact hworker ok t hmove

/-- None of them moves. -/
theorem stuck_of_none (hguest : s.guestStep isr = none) (hvcpu : ∀ ok, s.vcpuStep src ok = none)
    (hworker : ∀ ok, s.workerStep src ok = none) : (experiment src isr).Stuck s := by
  intro a
  cases a with
  | guest => exact hguest
  | vcpu ok => exact hvcpu ok
  | worker ok => exact hworker ok

end Finishes

/-! ## The guest by itself -/

/-- The part of the state that belongs to the worker. -/
structure WorkerSide where
  pc : WorkerPc
  result : Int
  failed : Bool

/-- The worker has nothing to do: it does not exist yet, waits for a kick, or has died of a failed
    `read`. -/
def WorkerSide.Idle (registered : Bool) (w : WorkerSide) : Prop :=
  match w.pc with
  | .notStarted => registered = false ∧ w.result = 0
  | .read => registered = true ∧ w.result = 0
  | .exited => registered = true ∧ w.failed = true
  | _ => False

/-- The rest of the state, before the kick eventfd is raised and the guest is told to stop. -/
structure Solo where
  dev : VirtioMmioDevice
  mem : Memory
  cpu : Cpu
  pic : Pic
  calls : Nat
  exits : Nat
  registered : Bool
  guestKicks : Nat
  guestCalls : Nat
  runResult : Nat

/-- The state with the vCPU thread and the worker. -/
def Solo.join (g : Solo) (pc : VcpuPc) (w : WorkerSide) : Experiment where
  vmm :=
    { dev := g.dev
      mem := g.mem
      vcpu := pc
      worker := w.pc
      queueNotifyExits := g.exits
      ioeventfdRegistered := g.registered
      kickCount := 0
      stop := false }
  cpu := g.cpu
  pic := g.pic
  randomCalls := g.calls
  guestKicks := g.guestKicks
  guestCalls := g.guestCalls
  backendResult := w.result
  runResult := g.runResult
  failureCode := none
  failed := w.failed

/-- The guest goes on at this code. -/
def Solo.goto (g : Solo) (code : List Insn) : Solo :=
  { g with cpu := { g.cpu with code := code, shadow := false } }

/-- The guest executes its code and is not interrupted. -/
structure Solo.Running (g : Solo) : Prop where
  live : g.cpu.halted = false
  noShadow : g.cpu.shadow = false
  quiet : g.cpu.interrupts = true → g.pic.pending = false

section Ends

variable (src : RandomSource) (isr : BitVec 16)

/-- With an idle worker the experiment is finished in the end. -/
def Ends (g : Solo) (pc : VcpuPc) : Prop :=
  ∀ w, WorkerSide.Idle g.registered w →
    Finishes src isr (g.join pc w)

variable {src isr} {g t : Solo} {pc q : VcpuPc} {w : WorkerSide}

/-- Beside the others an idle worker can only die. -/
theorem idle_workerStep {t : Experiment} {ok : Bool} (hidle : w.Idle g.registered)
    (h : (g.join pc w).workerStep src ok = some t) :
    w.pc = .read ∧ t = g.join pc ⟨.exited, -1, true⟩ := by
  obtain ⟨wpc, result, failed⟩ := w
  cases wpc with
  | read =>
    cases ok with
    | true => simp [Experiment.workerStep, Solo.join, Vmm.workerStep] at h
    | false =>
      simp only [Experiment.workerStep, Solo.join, Vmm.workerStep, Option.map_some,
        Option.some.injEq, Bool.false_eq_true, if_false] at h
      refine ⟨rfl, h.symm.trans ?_⟩
      simp [Solo.join, Experiment.resultAfter, nextCalls, WorkerPc.frame]
  | notStarted | exited => simp [Experiment.workerStep, Solo.join, Vmm.workerStep] at h
  | _ => exact absurd hidle (by simp [WorkerSide.Idle])

/-- **Step rule**: guest and vCPU go on whatever the idle worker does. -/
theorem Ends.later
    (hgo : ∀ w, ∃ a t, (experiment src isr).step (g.join pc w) a = some t)
    (hguest : ∀ w, w.Idle g.registered → ∀ t, (g.join pc w).guestStep isr = some t →
      Finishes src isr t)
    (hvcpu : ∀ w, w.Idle g.registered → ∀ ok t, (g.join pc w).vcpuStep src ok = some t →
      Finishes src isr t) :
    Ends src isr g pc := by
  -- first the workers that do not move at all
  have hdead : ∀ w, w.Idle g.registered → w.pc ≠ .read → Finishes src isr (g.join pc w) := by
    intro w hidle hread
    apply Finishes.later (hgo w) (hguest w hidle) (hvcpu w hidle)
    intro ok t hmove
    exact absurd (idle_workerStep hidle hmove).1 hread
  intro w hidle
  by_cases hread : w.pc = .read
  · apply Finishes.later (hgo w) (hguest w hidle) (hvcpu w hidle)
    intro ok t hmove
    obtain ⟨-, rfl⟩ := idle_workerStep hidle hmove
    apply hdead
    · simp only [WorkerSide.Idle, hread] at hidle ⊢
      exact ⟨hidle.1, trivial⟩
    · nofun
  · exact hdead w hidle hread

/-- The guest executes its next instruction. -/
theorem guestStep_join {insn : Insn} {rest : List Insn} (hlive : g.cpu.halted = false)
    (hquiet : g.cpu.interrupts = true → g.cpu.shadow = true ∨ g.pic.pending = false)
    (hcode : g.cpu.code = insn :: rest) :
    (g.join .guest w).guestStep isr =
      some (Experiment.exec isr ((g.goto rest).join .guest w) insn) := by
  have hno : ¬ ((g.join .guest w).cpu.interrupts = true ∧ ¬ (g.join .guest w).cpu.shadow = true ∧
      (g.join .guest w).pic.pending = true) := by
    rintro ⟨hint, hshadow, hpending⟩
    rcases hquiet hint with h | h
    · exact hshadow h
    · exact absurd hpending (by simp [Solo.join, h])
  unfold Experiment.guestStep
  rw [if_neg (by simp [Solo.join]), if_neg hno, if_neg (by simp [Solo.join, hlive])]
  simp only [Solo.join, Solo.goto, hcode]

/-- The vCPU thread is in `KVM_RUN`. -/
theorem vcpuStep_join (ok : Bool) : (g.join .guest w).vcpuStep src ok = none := by
  simp [Experiment.vcpuStep, Vmm.vcpuStep, Solo.join]

/-- One instruction. -/
theorem Ends.insn {insn : Insn} {rest : List Insn} (hlive : g.cpu.halted = false)
    (hquiet : g.cpu.interrupts = true → g.cpu.shadow = true ∨ g.pic.pending = false)
    (hcode : g.cpu.code = insn :: rest)
    (hexec : ∀ w, Experiment.exec isr ((g.goto rest).join .guest w) insn = t.join q w)
    (hreg : t.registered = g.registered) (h : Ends src isr t q) :
    Ends src isr g .guest := by
  have hstep : ∀ w, (g.join .guest w).guestStep isr = some (t.join q w) := by
    intro w
    rw [guestStep_join hlive hquiet hcode, hexec w]
  apply Ends.later
  · intro w
    exact ⟨.guest, _, hstep w⟩
  · intro w hidle t hmove
    rw [hstep w] at hmove
    cases hmove
    exact h w (hreg ▸ hidle)
  · intro w _ ok t hmove
    rw [vcpuStep_join] at hmove
    cases hmove

/-! ### Straight pieces -/

/-- An instruction after which the guest goes on behind it. -/
theorem Ends.next {insn : Insn} {rest : List Insn} (hrun : g.Running)
    (hcode : g.cpu.code = insn :: rest)
    (hexec : ∀ w, Experiment.exec isr ((g.goto rest).join .guest w) insn = t.join q w)
    (hreg : t.registered = g.registered) (h : Ends src isr t q) : Ends src isr g .guest :=
  Ends.insn hrun.live (fun hint => .inr (hrun.quiet hint)) hcode hexec hreg h

theorem Solo.Running.of_off (hlive : g.cpu.halted = false) (hshadow : g.cpu.shadow = false)
    (hoff : g.cpu.interrupts = false) : g.Running :=
  ⟨hlive, hshadow, fun hon => by simp [hoff] at hon⟩

theorem Solo.Running.goto (hrun : g.Running) (code : List Insn) : (g.goto code).Running :=
  ⟨hrun.live, rfl, hrun.quiet⟩

theorem Solo.Running.goto_eq (hrun : g.Running) {code : List Insn} (hcode : g.cpu.code = code) :
    g.goto code = g := by
  obtain ⟨dev, mem, ⟨_, ecx, interrupts, shadow, halted, idtLoaded, returnTo⟩, pic⟩ := g
  obtain rfl : shadow = false := hrun.noShadow
  subst hcode
  rfl

/-- The memory is this one. -/
def Solo.withMem (g : Solo) (m : Memory) : Solo := { g with mem := m }

/-- **Memory rule**: a straight piece on memory. -/
theorem Ends.memory (code rest : List Insn) {m : Memory} (hrun : g.Running)
    (hcode : g.cpu.code = code ++ rest) (hmem : runMemory g.mem code = some m)
    (h : Ends src isr ((g.withMem m).goto rest) .guest) : Ends src isr g .guest := by
  induction code generalizing g with
  | nil =>
    cases hmem
    rw [Solo.Running.goto_eq] at h
    · exact h
    · exact ⟨hrun.live, hrun.noShadow, hrun.quiet⟩
    · exact hcode
  | cons insn code ih =>
    cases insn with
    | store addr len value =>
      apply Ends.next (t := (g.withMem (g.mem.storeLe addr len value)).goto (code ++ rest)) hrun
        hcode
      · intro w
        rfl
      · rfl
      · exact ih ⟨hrun.live, rfl, hrun.quiet⟩ rfl hmem h
    | zero addr len =>
      apply Ends.next (t := (g.withMem (g.mem.storeBytes addr (List.replicate len 0))).goto
        (code ++ rest)) hrun hcode
      · intro w
        rfl
      · rfl
      · exact ih ⟨hrun.live, rfl, hrun.quiet⟩ rfl hmem h
    | expect addr len value l =>
      simp only [runMemory] at hmem
      split at hmem
      · next hexpect =>
        apply Ends.next (t := g.goto (code ++ rest)) hrun hcode
        · intro w
          exact if_pos hexpect
        · rfl
        · exact ih ⟨hrun.live, rfl, hrun.quiet⟩ rfl hmem h
      · cases hmem
    | _ => cases hmem

/-! ### Register accesses -/

/-- The vCPU thread re-enters the guest. -/
theorem Ends.handled (hno : ¬ (g.exits = 2 ∧ g.registered = false)) (h : Ends src isr g .guest) :
    Ends src isr g .handled := by
  have hstep : ∀ w ok, (g.join .handled w).vcpuStep src ok = some (g.join .guest w) := by
    intro w ok
    simp [Experiment.vcpuStep, Vmm.vcpuStep, Vmm.setsUp, Vmm.takesDown, Solo.join, nextCalls,
      VcpuPc.frame, hno]
    intro hexits hreg
    exact absurd ⟨hexits, hreg⟩ hno
  apply Ends.later
  · intro w
    exact ⟨.vcpu true, _, hstep w true⟩
  · intro w _ t hmove
    simp [Experiment.guestStep, Solo.join] at hmove
  · intro w hidle ok t hmove
    rw [hstep w ok] at hmove
    cases hmove
    exact h w hidle

/-- The registers as the driver reads and writes them, if all it reads is as expected; a
    notification is none of them. -/
def runRegisters (dev : VirtioMmioDevice) : List Insn → Option VirtioMmioDevice
  | [] => some dev
  | .check r c _ :: rest =>
    match readRegister dev r.offset with
    | some value => if c.holds value then runRegisters dev rest else none
    | none => none
  | .write r value :: rest =>
    if r = .queueNotify then none
    else
      match writeRegister dev r.offset value with
      | .done dev' 0 => runRegisters dev' rest
      | _ => none
  | _ => none

theorem mmioOffset_address (r : Register) : mmioOffset r.address = r.offset := by
  cases r <;> decide

theorem mmioValid_address (r : Register) : mmioValid r.address 4 = true := by
  cases r <;> decide

theorem isQueueNotify_address (r : Register) : isQueueNotify r.address = decide (r = .queueNotify) := by
  cases r <;> decide

/-- The device is this one. -/
def Solo.withDev (g : Solo) (dev : VirtioMmioDevice) : Solo := { g with dev := dev }

/-- **Register rule**: a straight piece on the registers, every access of which exits. -/
theorem Ends.registers (code rest : List Insn) {dev : VirtioMmioDevice} (hrun : g.Running)
    (hno : ¬ (g.exits = 2 ∧ g.registered = false)) (hcode : g.cpu.code = code ++ rest)
    (hdev : runRegisters g.dev code = some dev)
    (h : Ends src isr ((g.withDev dev).goto rest) .guest) : Ends src isr g .guest := by
  induction code generalizing g with
  | nil =>
    cases hdev
    rw [Solo.Running.goto_eq] at h
    · exact h
    · exact ⟨hrun.live, hrun.noShadow, hrun.quiet⟩
    · exact hcode
  | cons insn code ih =>
    cases insn with
    | check r c l =>
      simp only [runRegisters] at hdev
      split at hdev
      · next value hread =>
        split at hdev
        · next hholds =>
          apply Ends.next (t := g.goto (code ++ rest)) (q := .handled) hrun hcode
          · intro w
            simp [Experiment.exec, Vmm.mmioRead, mmioValid_address, mmioOffset_address,
              Solo.join, Solo.goto, hread, hholds]
          · rfl
          · apply Ends.handled
            · exact hno
            · exact ih ⟨hrun.live, rfl, hrun.quiet⟩ hno rfl hdev h
        · cases hdev
      · cases hdev
    | write r value =>
      simp only [runRegisters] at hdev
      split at hdev
      · cases hdev
      · next hnotify =>
        split at hdev
        · next dev' hwrite =>
          apply Ends.next (t := (g.withDev dev').goto (code ++ rest)) (q := .handled) hrun hcode
          · intro w
            simp [Experiment.exec, Vmm.mmioWrite, Vmm.intercepted, Vmm.doMmioWrite,
              mmioValid_address, mmioOffset_address, isQueueNotify_address, Solo.join, Solo.goto,
              Solo.withDev, hnotify, hwrite]
          · rfl
          · apply Ends.handled
            · exact hno
            · exact ih ⟨hrun.live, rfl, hrun.quiet⟩ hno rfl hdev h
        · cases hdev
    | _ => cases hdev

/-! ### Notifications -/

/-- Where the vCPU thread stands in or after a call. -/
def VcpuPc.ofFrame (f : Frame) : VcpuPc :=
  match f.pc with
  | .returned result => if result < 0 then .left else .handled
  | _ => .processQueue f

/-- Device, memory and entropy source are those of the call. -/
def Solo.withCall (g : Solo) (c : Call) : Solo :=
  { g with dev := c.dev, mem := c.mem, calls := c.calls }

/-- **Call rule**: the vCPU thread runs `process_queue`. -/
theorem Ends.call {c c' : Call} (hreach : c.Reaches src c')
    (h : Ends src isr (g.withCall c') (.ofFrame c'.frame)) :
    Ends src isr (g.withCall c) (.ofFrame c.frame) := by
  induction hreach using Relation.ReflTransGen.head_induction_on with
  | refl => exact h
  | @head c c₁ hstep _ ih =>
    have hrunning : VcpuPc.ofFrame c.frame = .processQueue c.frame := by
      unfold VcpuPc.ofFrame
      split
      · next hret => simp [Call.step, processQueue, hret] at hstep
      · rfl
    rw [hrunning]
    have hmove : ∀ w ok, ((g.withCall c).join (.processQueue c.frame) w).vcpuStep src ok =
        some ((g.withCall c₁).join (.ofFrame c₁.frame) w) := by
      intro w ok
      unfold Call.step at hstep
      simp only [Option.map_eq_some_iff] at hstep
      obtain ⟨p, hp, rfl⟩ := hstep
      simp [Experiment.vcpuStep, Vmm.vcpuStep, Vmm.setsUp, Vmm.takesDown, Solo.join,
        Solo.withCall, nextCalls, nextRandom, VcpuPc.frame, hp]
      rfl
    apply Ends.later
    · intro w
      exact ⟨.vcpu true, _, hmove w true⟩
    · intro w _ t hguest
      simp [Experiment.guestStep, Solo.join] at hguest
    · intro w hidle ok t hvcpu
      rw [hmove w ok] at hvcpu
      cases hvcpu
      exact ih w hidle

/-! ### The end of `main` -/

/-- Both threads are done. -/
theorem finished_joined {t : Experiment} (hvcpu : t.vmm.vcpu = .joining)
    (hworker : t.vmm.worker = .notStarted ∨ t.vmm.worker = .exited) (hcode : t.failureCode = none)
    (hresult : t.failed = true ∨ src.Starves ∨ t.vmm.worker = .exited ∧ mainResult t = 0) :
    Finished src isr t := by
  refine ⟨stuck_of_none ?_ (fun ok => ?_) (fun ok => ?_), hcode, ?_⟩
  · simp [Experiment.guestStep, hvcpu]
  · simp [Experiment.vcpuStep, Vmm.vcpuStep, hvcpu]
  · rcases hworker with hworker | hworker
    · simp [Experiment.workerStep, Vmm.workerStep, hworker]
    · simp [Experiment.workerStep, Vmm.workerStep, hworker]
  · exact hresult.imp_right fun h => h.imp_right fun h => ⟨hvcpu, h⟩

/-- Only the worker is left. -/
theorem Finishes.worker {t : Experiment} (hvcpu : t.vmm.vcpu = .joining)
    (hgo : ∃ t', t.workerStep src true = some t')
    (hworker : ∀ ok t', t.workerStep src ok = some t' → Finishes src isr t') :
    Finishes src isr t := by
  apply Finishes.later
  · obtain ⟨t', ht'⟩ := hgo
    exact ⟨.worker true, t', ht'⟩
  · intro t'' hmove
    simp [Experiment.guestStep, hvcpu] at hmove
  · intro ok t'' hmove
    simp [Experiment.vcpuStep, Vmm.vcpuStep, hvcpu] at hmove
  · exact hworker

/-- The worker finds `stop` set. -/
theorem finished_checkStop {t : Experiment} {count : Nat} (hvcpu : t.vmm.vcpu = .joining)
    (hstop : t.vmm.stop = true) (hworker : t.vmm.worker = .checkStop count)
    (hcode : t.failureCode = none)
    (hresult : t.failed = true ∨ src.Starves ∨ mainResult t = 0) :
    Finishes src isr t := by
  apply Finishes.worker hvcpu
  · exact ⟨_, by simp only [Experiment.workerStep, Vmm.workerStep, hworker]; rfl⟩
  · intro ok t' hmove
    simp [Experiment.workerStep, Vmm.workerStep, hworker, hstop, nextCalls, WorkerPc.frame,
      Experiment.resultAfter] at hmove
    subst hmove
    apply System.Inevitable.now
    apply finished_joined
    · exact hvcpu
    · exact .inr rfl
    · exact hcode
    · exact hresult.imp_right fun h => h.imp_right fun h => ⟨rfl, h⟩

/-- The worker is woken by the last write to the kick eventfd. -/
theorem finished_read {t : Experiment} (hvcpu : t.vmm.vcpu = .joining)
    (hstop : t.vmm.stop = true) (hworker : t.vmm.worker = .read) (hkick : t.vmm.kickCount ≠ 0)
    (hcode : t.failureCode = none)
    (hresult : t.failed = true ∨ src.Starves ∨ mainResult t = 0) :
    Finishes src isr t := by
  apply Finishes.worker hvcpu
  · exact ⟨_, by simp only [Experiment.workerStep, Vmm.workerStep, hworker, if_neg hkick]; rfl⟩
  · intro ok t' hmove
    cases ok with
    | true =>
      simp [Experiment.workerStep, Vmm.workerStep, hworker, hkick, nextCalls, WorkerPc.frame,
        Experiment.resultAfter] at hmove
      subst hmove
      exact finished_checkStop hvcpu hstop rfl hcode hresult
    | false =>
      simp [Experiment.workerStep, Vmm.workerStep, hworker, nextCalls, WorkerPc.frame] at hmove
      subst hmove
      apply System.Inevitable.now
      exact finished_joined hvcpu (.inr rfl) hcode (.inl rfl)

/-- The state once the worker has been told to stop. -/
def Solo.stopped (g : Solo) (w : WorkerSide) (kick runResult : Nat) : Experiment :=
  { g.join .joining w with
    vmm := { (g.join .joining w).vmm with kickCount := kick, stop := true }
    runResult := runResult }

/-- The end of the loop of `main`; taking the notification path down may fail. -/
theorem left_vcpuStep {t : Experiment} {ok : Bool}
    (h : (g.join .left w).vcpuStep src ok = some t) :
    ∃ kick runResult failed, t = g.stopped { w with failed := failed } kick runResult ∧
      (w.pc ≠ .notStarted → kick ≠ 0) ∧
      (failed = true ∨ failed = w.failed ∧ runResult = g.runResult) := by
  by_cases hdown : g.registered = true ∧ ok = false
  · refine ⟨if w.pc = .notStarted then 0 else 1, 1, true, ?_, by split <;> simp_all, .inl rfl⟩
    simp [Experiment.vcpuStep, Vmm.vcpuStep, Solo.join, Vmm.takesDown, hdown, nextCalls,
      VcpuPc.frame] at h
    simp only [Solo.stopped, Solo.join, hdown, h]
  · refine ⟨if w.pc = .notStarted then 0 else 1, g.runResult, w.failed, ?_,
      by split <;> simp_all, .inr ⟨rfl, rfl⟩⟩
    have hok : g.registered = true → ok = true := by simpa using hdown
    simp [Experiment.vcpuStep, Vmm.vcpuStep, Solo.join, Vmm.takesDown, Vmm.setsUp, nextCalls,
      VcpuPc.frame] at h
    rw [← h]
    cases hreg : g.registered with
    | true => simp [Solo.stopped, Solo.join, hreg, hok hreg]
    | false => simp [Solo.stopped, Solo.join, hreg]

/-- The loop of `main` was left: a worker that lives is stopped. -/
theorem Ends.left (hresult : g.registered = true ∧
    (src.Starves ∨ mainResult (g.join .left ⟨.exited, 0, false⟩) = 0)) :
    Ends src isr g .left := by
  obtain ⟨hreg, hresult⟩ := hresult
  have hvcpu : ∀ w ok, ∃ t, (g.join .left w).vcpuStep src ok = some t := by
    intro w ok
    simp [Experiment.vcpuStep, Vmm.vcpuStep, Solo.join]
  apply Ends.later
  · intro w
    obtain ⟨t, ht⟩ := hvcpu w true
    exact ⟨.vcpu true, t, ht⟩
  · intro w _ t hmove
    simp [Experiment.guestStep, Solo.join] at hmove
  · intro w hidle ok t hmove
    obtain ⟨kick, runResult, failed, rfl, hkick, hafter⟩ := left_vcpuStep hmove
    obtain ⟨wpc, result, failed₀⟩ := w
    cases wpc with
    | notStarted =>
      simp [WorkerSide.Idle, hreg] at hidle
    | read =>
      obtain rfl : result = 0 := hidle.2
      apply finished_read
      · rfl
      · rfl
      · rfl
      · exact hkick WorkerPc.noConfusion
      · rfl
      · rcases hafter with hfailed | ⟨-, rfl⟩
        · exact .inl hfailed
        · exact .inr hresult
    | exited =>
      apply System.Inevitable.now
      apply finished_joined
      · rfl
      · exact .inr rfl
      · rfl
      · rcases hafter with hfailed | ⟨rfl, -⟩
        · exact .inl hfailed
        · exact .inl hidle.2
    | _ => exact absurd hidle (by simp [WorkerSide.Idle])

/-- The loop was left before there was a worker: something has gone wrong. -/
theorem finished_early (hpc : w.pc = .notStarted)
    (hblame : w.failed = true ∨ src.Starves) :
    Finishes src isr (g.join .left w) := by
  have hvcpu : ∃ t, (g.join .left w).vcpuStep src true = some t := by
    simp [Experiment.vcpuStep, Vmm.vcpuStep, Solo.join]
  apply Finishes.later
  · obtain ⟨t, ht⟩ := hvcpu
    exact ⟨.vcpu true, t, ht⟩
  · intro t hmove
    simp [Experiment.guestStep, Solo.join] at hmove
  · intro ok t hmove
    obtain ⟨kick, runResult, failed, rfl, -, hafter⟩ := left_vcpuStep hmove
    apply System.Inevitable.now
    apply finished_joined
    · rfl
    · exact .inl hpc
    · rfl
    · rcases hblame with hfailed | hstarves
      · rcases hafter with hfailed' | ⟨rfl, -⟩
        · exact .inl hfailed'
        · exact .inl hfailed
      · exact .inr (.inl hstarves)
  · intro ok t hmove
    simp [Experiment.workerStep, Vmm.workerStep, Solo.join, hpc] at hmove

/-- An idle worker of a notification path that is not set up does not exist. -/
theorem idle_unregistered (hidle : w.Idle false) : w.pc = .notStarted ∧ w.result = 0 := by
  obtain ⟨wpc, result, failed⟩ := w
  cases wpc with
  | notStarted => exact ⟨rfl, hidle.2⟩
  | _ => simp [WorkerSide.Idle] at hidle

/-- A request of the slow path that is starved. -/
theorem Ends.starved (hreg : g.registered = false) (hstarves : src.Starves) :
    Ends src isr g .left := by
  intro w hidle
  rw [hreg] at hidle
  exact finished_early (idle_unregistered hidle).1 (.inr hstarves)

/-- The device has completed all of phase C. -/
def Solo.PhaseCComplete (g : Solo) : Prop :=
  availIdx g.mem = virtioRngRequestCount ∧ usedIdx g.mem = virtioRngRequestCount ∧
    g.dev.queue.lastAvailIdx = virtioRngRequestCount

/-- After the second notification the notification path is set up, or the loop is left. -/
theorem Ends.register (hexits : g.exits = 2) (hreg : g.registered = false)
    (hphase : g.PhaseCComplete) (h : Ends src isr { g with registered := true } .guest) :
    Ends src isr g .handled := by
  have hsetsUp : ∀ w, (g.join .handled w).vmm.phaseCComplete = true := by
    intro w
    rw [Vmm.phaseCComplete, decide_eq_true_eq]
    exact hphase
  have hstep : ∀ w ok, (g.join .handled w).vcpuStep src ok = some
      (if ok = true then ({ g with registered := true } : Solo).join .guest ⟨.read, w.result, w.failed⟩
        else g.join .left ⟨w.pc, w.result, true⟩) := by
    intro w ok
    have := hsetsUp w
    cases ok with
    | true =>
      simp [Experiment.vcpuStep, Vmm.vcpuStep, Vmm.takesDown, Solo.join, nextCalls,
        VcpuPc.frame, hexits, hreg] at this ⊢
      simp [this]
    | false =>
      simp [Experiment.vcpuStep, Vmm.vcpuStep, Vmm.setsUp, Vmm.takesDown, Solo.join, nextCalls,
        VcpuPc.frame, hexits, hreg] at this ⊢
      simp [this]
  apply Ends.later
  · intro w
    exact ⟨.vcpu true, _, hstep w true⟩
  · intro w _ t hmove
    simp [Experiment.guestStep, Solo.join] at hmove
  · intro w hidle ok t hmove
    rw [hreg] at hidle
    obtain ⟨hpc, hresult⟩ := idle_unregistered hidle
    rw [hstep w ok] at hmove
    cases hmove
    cases ok with
    | true => exact h _ ⟨rfl, hresult⟩
    | false => exact finished_early hpc (.inl rfl)

end Ends

end LinuxMaxxing.Virtio
