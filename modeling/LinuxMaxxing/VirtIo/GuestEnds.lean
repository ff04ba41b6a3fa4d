import LinuxMaxxing.Lib.Inevitable
import LinuxMaxxing.VirtIo.GuestPhases

/-!
# Every Run of the Guest Ends in Success

If the ioctls of the device succeed, and an interrupt is held back for less than a wait polls,
every run of the guest goes through all phases, and `main` returns 0.

Where the guest goes depends on its processor only, on how many commands it has written and how
many interrupts it has taken (`Cpu.exec`, `Live`).

- `Wins.run`, `Wins.command`, `Wins.done`: the rules for code that no interrupt can come between;
- `handler_wins`, `wait_ends`: an interrupt is handled, and every wait has its interrupt in time;
- `guest_ends`: the whole run.
-/

namespace LinuxMaxxing.VirtIo

open LinuxMaxxing.Lib

/-! ## The processor -/

/-- What an instruction does to the processor, with `irq_count` at `count` and the bytes equal. -/
def Cpu.exec (c : Cpu) (count : Nat) : Insn → Cpu
  | .lidt => { c with idtLoaded := true }
  | .setPolls n => { c with ecx := n }
  | .expectCount n l => if count = n then { c with code := block l } else c
  | .loop l =>
    if c.ecx - 1 = 0 then { c with ecx := c.ecx - 1 }
    else { c with ecx := c.ecx - 1, code := block l }
  | .jmp l => { c with code := block l }
  | .cli => { c with interrupts := false }
  | .sti => { c with interrupts := true, shadow := true }
  | .hlt => { c with halted := true }
  | .pusha => { c with saved := c.ecx }
  | .popa => { c with ecx := c.saved }
  | .iret => { c with code := c.returnTo, interrupts := true }
  | _ => c

/-- Neither a command nor an access that the guest does not make. -/
def Insn.isPlain : Insn → Bool
  | .device offset _ => offset = dmaGpaOffset ∨ offset = irqAckOffset
  | .readDevice offset => offset = statusOffset
  | _ => true

/-- Instructions that only the phases have. -/
def Insn.inPhases : Insn → Bool
  | .expectCount _ _ | .compare _ _ _ _ => true
  | .device offset _ => offset = commandOffset
  | _ => false

section Processor

variable {env : Env} {s : Machine} {c : Cpu} {insn : Insn}

/-- The rest of the machine matters in two places. -/
theorem exec_cpu (hbytes : ∀ dst src len l, insn = .compare dst src len l →
    Machine.bytesEqual s.vmm.guest dst src len = true) :
    (Machine.exec env s insn).cpu = s.cpu.exec (s.vmm.guest.loadLe irqCount 4) insn := by
  cases insn with
  | expectCount n l =>
    dsimp only [Machine.exec, Cpu.exec]
    split_ifs
    · rfl
    · rfl
  | loop l =>
    dsimp only [Machine.exec, Cpu.exec]
    split_ifs
    · rfl
    · rfl
  | outb port value =>
    dsimp only [Machine.exec, Machine.out, Cpu.exec]
    split_ifs
    · rfl
    · rfl
    · rfl
  | compare dst src len l =>
    dsimp only [Machine.exec, Cpu.exec]
    rw [if_pos (hbytes dst src len l rfl)]
  | _ => rfl

/-- What no instruction changes. -/
theorem exec_taken_held (env : Env) (s : Machine) (insn : Insn) :
    (Machine.exec env s insn).taken = s.taken ∧ (Machine.exec env s insn).held = s.held := by
  cases insn with
  | expectCount | loop | compare =>
    dsimp only [Machine.exec]
    split_ifs
    · exact ⟨rfl, rfl⟩
    · exact ⟨rfl, rfl⟩
  | outb =>
    dsimp only [Machine.exec, Machine.out]
    split_ifs
    · exact ⟨rfl, rfl⟩
    · exact ⟨rfl, rfl⟩
    · exact ⟨rfl, rfl⟩
  | _ => exact ⟨rfl, rfl⟩

theorem exec_ioctls (hplain : insn.isPlain = true) :
    (Machine.exec env s insn).vmm.ioctls = s.vmm.ioctls := by
  cases insn with
  | device offset value =>
    have hoffset : offset = dmaGpaOffset ∨ offset = irqAckOffset := by
      simpa [Insn.isPlain] using hplain
    show (mmioExit env s.vmm _).ioctls = _
    rcases hoffset with rfl | rfl
    · rw [write_dmaGpa]
    · rw [write_irqAck]
      rfl
  | readDevice offset =>
    obtain rfl : offset = statusOffset := by simpa [Insn.isPlain] using hplain
    show (mmioExit env s.vmm _).ioctls = _
    rw [read_status]
  | expectCount | loop | compare =>
    dsimp only [Machine.exec]
    split_ifs
    · rfl
    · rfl
  | outb =>
    dsimp only [Machine.exec, Machine.out]
    split_ifs
    · rfl
    · rfl
    · rfl
  | _ => rfl

theorem isPlain_of_isSetup (hi : insn.isSetup = true) : insn.isPlain = true := by
  cases insn with
  | device | readDevice => exact absurd hi Bool.false_ne_true
  | _ => rfl

theorem cpu_exec_setup (hi : insn.isSetup = true) (count : Nat) :
    (c.exec count insn).code = c.code ∧ (c.exec count insn).halted = c.halted := by
  cases insn with
  | store | lidt | lapic | ioapicSel | ioapicWin | outb => exact ⟨rfl, rfl⟩
  | _ => exact absurd hi Bool.false_ne_true

/-- Interrupts that can be taken are taken in time. -/
theorem run_held {patience : Nat} {s' : Machine} (hrun : s.run env patience = some s')
    (hopen : s.deliverable.isSome = true) : s.held < patience := by
  by_contra hheld
  unfold Machine.run at hrun
  rw [if_pos (show s.deliverable.isSome = true ∧ patience ≤ s.held from
    ⟨hopen, Nat.le_of_not_lt hheld⟩), ite_self] at hrun
  cases hrun

end Processor

/-! ## Live states -/

theorem ioctlsOf_inj {m n : Nat} (hm : m ≤ 5) (hn : n ≤ 5) (h : ioctlsOf m = ioctlsOf n) :
    m = n := by
  have hlengths : ∀ m < 6, ∀ n < 6, (ioctlsOf m).length = (ioctlsOf n).length → m = n := by
    decide
  exact hlengths m (Nat.lt_succ_of_le hm) n (Nat.lt_succ_of_le hn) (congrArg List.length h)

/-- The ioctls of the five commands succeed. -/
abbrev AllSucceed (ioctl : Nat → Int) : Prop := Completed ⟨guestMemSize, ioctl⟩ 5

section Runs

variable {ioctl : Nat → Int} {h : Handlers} {patience : Nat}

variable (ioctl h patience) in
/-- `main` has not returned; `t` interrupts were taken and `i` commands written. -/
structure Live (t i : Nat) (s : Machine) : Prop where
  reachable : (machine ioctl h patience).Reachable s
  returned : s.returned = none
  taken : s.taken.length = t
  ioctls : s.vmm.ioctls = ioctlsOf i
  issued : i ≤ 5

variable (ioctl h patience) in
/-- Every run from here ends in success. -/
def Ends (s : Machine) : Prop :=
  (machine ioctl h patience).Inevitable (fun s => s.returned = some 0) s

variable (ioctl h patience) in
/-- So it does wherever the processor is here. -/
def Wins (t i : Nat) (c : Cpu) : Prop :=
  ∀ s, Live ioctl h patience t i s → s.cpu = c → Ends ioctl h patience s

variable {t i : Nat} {s s' : Machine} {c : Cpu} {insn : Insn} {rest : List Insn}

theorem Live.place (hl : Live ioctl h patience t i s) :
    (∃ left, Booting ⟨guestMemSize, ioctl⟩ h left s) ∨
      ∃ a, Progress ⟨guestMemSize, ioctl⟩ h a t s ∧ a.issued = i ∧
        (Outside a t s ∨ ∃ counted ended, Inside a t counted ended s) := by
  rcases machine_invariant hl.reachable with hboots | ⟨a, t', hp, hplace⟩ | hdone | hfailed
  · exact .inl hboots
  · have htaken : t' = t := by
      rw [← hl.taken, hp.taken, length_vectorsOf (hp.taken_le.trans hp.issued_five)]
    subst htaken
    have hissued := ioctlsOf_inj hp.issued_five hl.issued (hp.ioctls.symm.trans hl.ioctls)
    exact .inr ⟨a, hp, hissued, hplace⟩
  · exact absurd (hl.returned.symm.trans hdone.returned) (by simp)
  · exact absurd (hl.returned.symm.trans hfailed.returned) (by simp)

/-- Outside of the phases interrupts are disabled. -/
theorem Live.unmasked (hl : Live ioctl h patience t i s) (hinterrupts : s.cpu.interrupts = true) :
    ∃ a, Progress ⟨guestMemSize, ioctl⟩ h a t s ∧ a.issued = i ∧ Outside a t s := by
  rcases hl.place with ⟨left, hboots⟩ | ⟨a, hp, hissued, ho | ⟨counted, ended, hi⟩⟩
  · exact absurd (hboots.interrupts.symm.trans hinterrupts) Bool.false_ne_true
  · exact ⟨a, hp, hissued, ho⟩
  · exact absurd (hi.interrupts.symm.trans hinterrupts) Bool.false_ne_true

theorem Live.outside (hl : Live ioctl h patience t i s) (hcode : s.cpu.code = insn :: rest)
    (hphases : insn.inPhases = true) :
    ∃ a, Progress ⟨guestMemSize, ioctl⟩ h a t s ∧ a.issued = i ∧ Outside a t s := by
  rcases hl.place with ⟨left, hboots⟩ | ⟨a, hp, hissued, ho | ⟨counted, ended, hi⟩⟩
  · have hboot := hcode.symm.trans hboots.code
    cases left with
    | nil =>
      rw [(List.cons.inj hboot).1] at hphases
      exact absurd hphases (by decide)
    | cons first left =>
      have hsetup := hboots.setup first (List.mem_cons_self ..)
      rw [← (List.cons.inj hboot).1] at hsetup
      cases insn with
      | expectCount | compare | device => exact absurd hsetup Bool.false_ne_true
      | _ => exact absurd hphases Bool.false_ne_true
  · exact ⟨a, hp, hissued, ho⟩
  · have hchecks := hi.code
    rw [hcode] at hchecks
    cases insn with
    | device offset value =>
      obtain rfl : offset = commandOffset := by simpa [Insn.inPhases] using hphases
      exact absurd hchecks (by simp [HandlerChecks, commandOffset, irqAckOffset])
    | expectCount | compare => exact absurd hchecks (by simp [HandlerChecks])
    | _ => exact absurd hphases Bool.false_ne_true

/-- No interrupt waits. -/
theorem Live.deliverable_none (hl : Live ioctl h patience t i s) (heven : t = i) :
    s.deliverable = none := by
  cases hinterrupts : s.cpu.interrupts with
  | false => exact VirtIo.deliverable_none hinterrupts
  | true =>
    obtain ⟨a, hp, hissued, -⟩ := hl.unmasked hinterrupts
    have hirr := hp.irr
    rw [hissued, heven, due_self i hl.issued] at hirr
    have hpending : s.chip.pending = none := by
      unfold Irqchip.pending Lapic.pending
      rw [if_neg (ne_true_of_eq_false hp.setUp.chip.picRequested), if_neg]
      intro hready
      exact hready.2.1.ne_empty (Finset.subset_empty.mp hirr)
    unfold Machine.deliverable
    rw [hpending, ite_self]

/-- The interrupt of the last command waits. -/
theorem Live.deliverable_some (hl : Live ioctl h patience t i s) (hall : AllSucceed ioctl)
    (hlt : t < i) (hinterrupts : s.cpu.interrupts = true) (hshadow : s.cpu.shadow = false) :
    ∃ v, s.deliverable = some v := by
  obtain ⟨a, hp, hissued, ho⟩ := hl.unmasked hinterrupts
  have hlast : a.issued = t + 1 := Nat.le_antisymm hp.issued_le (hissued ▸ hlt)
  have hfive : t + 1 ≤ 5 := hlast ▸ hp.issued_five
  obtain ⟨p, hphase⟩ := exists_phase (n := t) hfive
  obtain ⟨-, hirr⟩ := hp.completed (hall.mono hp.issued_five)
  rw [hlast, due_succ hphase (Nat.le_of_succ_le hfive)] at hirr
  have hchip := hp.setUp.chip
  refine ⟨p.vector, ?_⟩
  unfold Machine.deliverable
  rw [if_pos ⟨hinterrupts, ne_true_of_eq_false hshadow⟩]
  unfold Irqchip.pending
  rw [if_neg (ne_true_of_eq_false hchip.picRequested)]
  unfold Lapic.pending Lapic.ppr
  rw [hirr, hchip.tpr, ho.isr, hchip.enabled]
  cases p <;> decide

/-- With ioctls that succeed there is no failure but a halt. -/
theorem Live.next (hl : Live ioctl h patience t i s) (hall : AllSucceed ioctl) {act : Machine.Act}
    (hstep : (machine ioctl h patience).step s act = some s') (hawake : s'.cpu.halted = false) :
    (machine ioctl h patience).Reachable s' ∧ (s'.returned = none ∨ s'.returned = some 0) := by
  have hreach : (machine ioctl h patience).Reachable s' := hl.reachable.step trivial hstep
  refine ⟨hreach, ?_⟩
  rcases machine_invariant hreach with ⟨_, hboots⟩ | ⟨_, _, hp, _⟩ | hdone | hfailed
  · exact .inl hboots.returned
  · exact .inl hp.returned
  · exact .inr hdone.returned
  · rcases hfailed.cause with hhalted | hlost
    · exact absurd (hawake.symm.trans hhalted) Bool.false_ne_true
    · exact absurd hall hlost

/-- The processor of a live state goes on as `Cpu.exec` says. -/
theorem Live.exec_cpu (hl : Live ioctl h patience t i s) (hcode : s.cpu.code = insn :: rest)
    (held : Nat) :
    (Machine.exec ⟨guestMemSize, ioctl⟩
      { s with cpu := { s.cpu with code := rest, shadow := false }, held := held } insn).cpu =
      Cpu.exec { s.cpu with code := rest, shadow := false } t insn := by
  rw [VirtIo.exec_cpu]
  · cases insn with
    | expectCount n l =>
      obtain ⟨a, -, -, ho⟩ := hl.outside hcode rfl
      show Cpu.exec _ (s.vmm.guest.loadLe irqCount 4) _ = _
      rw [ho.count]
    | _ => rfl
  · rintro dst src len l rfl
    obtain ⟨a, hp, -, ho⟩ := hl.outside hcode rfl
    have hchecks := ho.code
    rw [hcode] at hchecks
    rcases checks_cons hchecks with ⟨hdone, -⟩ | ⟨b, hnext, -⟩
    · cases hdone
    · dsimp only [Point.next] at hnext
      split_ifs at hnext with hends
      obtain ⟨hpassed, rfl, rfl, rfl⟩ := hends
      exact hp.bytesEqual hpassed

/-- One instruction that is no command. -/
theorem Live.moved (hl : Live ioctl h patience t i s) (hall : AllSucceed ioctl)
    (hcode : s.cpu.code = insn :: rest) (hplain : insn.isPlain = true) {held : Nat}
    (hstep : (machine ioctl h patience).step s .run = some (Machine.exec ⟨guestMemSize, ioctl⟩
      { s with cpu := { s.cpu with code := rest, shadow := false }, held := held } insn))
    (hstep' : (machine ioctl h patience).step s .run = some s')
    (hawake : (Cpu.exec { s.cpu with code := rest, shadow := false } t insn).halted = false) :
    s'.returned = some 0 ∨ Live ioctl h patience t i s' ∧
      s'.cpu = Cpu.exec { s.cpu with code := rest, shadow := false } t insn ∧ s'.held = held := by
  obtain rfl := Option.some.inj (hstep.symm.trans hstep')
  have hcpu := hl.exec_cpu hcode held
  obtain ⟨htaken, hheld⟩ := exec_taken_held ⟨guestMemSize, ioctl⟩
    { s with cpu := { s.cpu with code := rest, shadow := false }, held := held } insn
  obtain ⟨hreach, hlive | hdone⟩ := hl.next hall hstep (by rw [hcpu]; exact hawake)
  · exact .inr ⟨⟨hreach, hlive, (congrArg List.length htaken).trans hl.taken,
      (exec_ioctls hplain).trans hl.ioctls, hl.issued⟩, hcpu, hheld⟩
  · exact .inl hdone

/-! ## Code that no interrupt can come between -/

/-- Where nothing can be taken, the processor goes on. -/
theorem Live.run_quiet (hl : Live ioctl h patience t i s) (hclosed : s.deliverable = none)
    (hawake : s.cpu.halted = false) (hcode : s.cpu.code = insn :: rest) :
    (machine ioctl h patience).step s .run = some (Machine.exec ⟨guestMemSize, ioctl⟩
      { s with cpu := { s.cpu with code := rest, shadow := false }, held := s.held } insn) := by
  show s.step ⟨guestMemSize, ioctl⟩ h patience .run = _
  have hgo : ¬ s.returned.isSome = true := by
    rw [hl.returned]
    exact Bool.false_ne_true
  unfold Machine.step
  rw [if_neg hgo]
  show s.run ⟨guestMemSize, ioctl⟩ patience = _
  unfold Machine.run
  have hheld : ¬ (s.deliverable.isSome = true ∧ patience ≤ s.held) := by
    rw [hclosed]
    exact fun hheld => Bool.false_ne_true hheld.1
  rw [if_neg (ne_true_of_eq_false hawake), if_neg hheld, hcode, hclosed]
  simp only [Option.isSome_none, Bool.false_eq_true, if_false]

theorem Live.ends_quiet (hl : Live ioctl h patience t i s) (hclosed : s.deliverable = none)
    (hawake : s.cpu.halted = false)
    (hstep : (machine ioctl h patience).step s .run = some s') (hnext : Ends ioctl h patience s') :
    Ends ioctl h patience s := by
  refine .later ⟨.run, s', hstep⟩ fun act s₁ hother => ?_
  cases act with
  | run =>
    obtain rfl := Option.some.inj (hstep.symm.trans hother)
    exact hnext
  | interrupt =>
    change s.step ⟨guestMemSize, ioctl⟩ h patience .interrupt = some s₁ at hother
    unfold Machine.step at hother
    rw [hl.returned] at hother
    obtain ⟨v, hv, -⟩ := Option.map_eq_some_iff.mp hother
    rw [hclosed] at hv
    cases hv
  | haltExit =>
    change s.step ⟨guestMemSize, ioctl⟩ h patience .haltExit = some s₁ at hother
    unfold Machine.step at hother
    rw [hl.returned] at hother
    simp only [Option.isSome_none, Bool.false_eq_true, if_false, hawake] at hother
    cases hother

/-- **One instruction**, where no interrupt can be taken. -/
theorem Wins.run (hall : AllSucceed ioctl)
    (hclosed : c.interrupts = false ∨ c.shadow = true ∨ t = i) (hawake : c.halted = false)
    (hcode : c.code = insn :: rest) (hplain : insn.isPlain = true)
    (hstays : (Cpu.exec { c with code := rest, shadow := false } t insn).halted = false)
    (hnext : Wins ioctl h patience t i (Cpu.exec { c with code := rest, shadow := false } t insn)) :
    Wins ioctl h patience t i c := by
  rintro s hl rfl
  have hnone : s.deliverable = none := by
    rcases hclosed with hinterrupts | hshadow | heven
    · exact VirtIo.deliverable_none hinterrupts
    · unfold Machine.deliverable
      exact if_neg fun hopen => hopen.2 hshadow
    · exact hl.deliverable_none heven
  have hstep := hl.run_quiet hnone hawake hcode
  apply hl.ends_quiet hnone hawake hstep
  rcases hl.moved hall hcode hplain hstep hstep hstays with hdone | ⟨hlive, hcpu, -⟩
  · exact .now hdone
  · exact hnext _ hlive hcpu

/-- **A command.** -/
theorem Wins.command (hall : AllSucceed ioctl) {p : Phase} (hphase : Phase.all[i]? = some p)
    (hawake : c.halted = false) (hcode : c.code = .device commandOffset p.command :: rest)
    (hnext : Wins ioctl h patience i (i + 1) { c with code := rest, shadow := false }) :
    Wins ioctl h patience i i c := by
  rintro s hl rfl
  have hnone := hl.deliverable_none rfl
  have hstep := hl.run_quiet hnone hawake hcode
  apply hl.ends_quiet hnone hawake hstep
  obtain ⟨a, hp, hissued, ho⟩ := hl.outside hcode rfl
  have hchecks := ho.code
  rw [hcode] at hchecks
  rcases checks_cons hchecks with ⟨hdone, -⟩ | ⟨b, hwrite, -⟩
  · cases hdone
  dsimp only [Point.next, Point.write] at hwrite
  rw [if_neg (by decide), hissued, hphase] at hwrite
  dsimp only at hwrite
  split_ifs at hwrite with hcommand
  obtain ⟨hioctls, -⟩ := @write_command ⟨guestMemSize, ioctl⟩ s.vmm p rfl
    (hp.moved.dmaGpa.trans hcommand.2.2.2) _ rfl
  have hfive : i + 1 ≤ 5 := by
    rw [← phase_at hphase]
    cases p <;> decide
  obtain ⟨hreach, hlive | hdone⟩ := hl.next hall hstep hawake
  · refine hnext _ ⟨hreach, hlive, hl.taken, ?_, hfive⟩ rfl
    rw [ioctlsOf_succ hphase, ← hl.ioctls]
    exact hioctls
  · exact .now hdone

/-- **The end.** -/
theorem Wins.done {value : BitVec 8} (hawake : c.halted = false)
    (hcode : c.code = .outb donePort value :: rest) : Wins ioctl h patience i i c := by
  rintro s hl rfl
  have hnone := hl.deliverable_none rfl
  exact hl.ends_quiet hnone hawake (hl.run_quiet hnone hawake hcode) (.now rfl)

/-! ## Interrupts -/

/-- **The handler** gives the processor back, with its polls as they were. -/
theorem handler_wins (hall : AllSucceed ioctl) (hawake : c.halted = false)
    (hcode : c.code = handlerCode)
    (hback : Wins ioctl h patience i i
      { c with code := c.returnTo, saved := c.ecx, interrupts := true, shadow := false }) :
    Wins ioctl h patience i i c := by
  -- the jump, then `isr_body`; interrupts stay disabled up to `iret`
  refine Wins.run hall (.inr (.inr rfl)) hawake hcode rfl hawake ?_
  iterate 7 refine Wins.run hall (.inr (.inr rfl)) hawake rfl rfl hawake ?_
  exact hback

variable (ioctl h patience) in
/-- From this code on all goes well. -/
def Good (n : Nat) (code : List Insn) : Prop :=
  ∀ c : Cpu, c.code = code → c.interrupts = true → c.halted = false → Wins ioctl h patience n n c

/-- The code of a wait, from `movl $400000, %ecx` on. -/
def Phase.wait (p : Phase) : List Insn := .setPolls irqPolls :: block (.poll p)

/-- The code between the two instructions of the loop. -/
def Phase.between (p : Phase) : List Insn := .loop (.poll p) :: .hlt :: p.after

section Wait

variable {p : Phase}

/-- A poll finds the count. -/
theorem poll_good (hall : AllSucceed ioctl) (hgood : Good ioctl h patience p.expect p.after) :
    Good ioctl h patience p.expect (block (.poll p)) := by
  intro c hcode hinterrupts hawake
  have hpoll : c.code = .expectCount p.expect (.arrived p) :: p.between := hcode
  have hjump : Cpu.exec { c with code := p.between, shadow := false } p.expect
      (.expectCount p.expect (.arrived p)) = { c with code := p.after, shadow := false } :=
    if_pos rfl
  refine Wins.run hall (.inr (.inr rfl)) hawake hpoll rfl ?_ ?_
  · rw [hjump]
    exact hawake
  · rw [hjump]
    exact hgood _ rfl hinterrupts hawake

/-- What the interrupt returns to leads out of the wait. -/
theorem back_wins (hall : AllSucceed ioctl) (hgood : Good ioctl h patience p.expect p.after)
    (hinterrupts : c.interrupts = true) (hawake : c.halted = false)
    (hcode : c.code = p.wait ∨ c.code = block (.poll p) ∨ c.code = p.between ∧ 2 ≤ c.ecx) :
    Wins ioctl h patience p.expect p.expect c := by
  have hpoll := poll_good hall hgood
  rcases hcode with hcode | hcode | ⟨hcode, hpolls⟩
  · refine Wins.run hall (.inr (.inr rfl)) hawake hcode rfl hawake ?_
    exact hpoll _ rfl hinterrupts hawake
  · exact hpoll c hcode hinterrupts hawake
  · have hloop : Cpu.exec { c with code := .hlt :: p.after, shadow := false } p.expect
        (.loop (.poll p)) =
        { c with code := block (.poll p), ecx := c.ecx - 1, shadow := false } := by
      apply if_neg
      show ¬ c.ecx - 1 = 0
      omega
    refine Wins.run hall (.inr (.inr rfl)) hawake hcode rfl ?_ ?_
    · rw [hloop]
      exact hawake
    · rw [hloop]
      exact hpoll _ rfl hinterrupts hawake

variable (ioctl h patience) in
/-- At the polls of a wait whose interrupt has not been taken. -/
structure Waiting (p : Phase) (t : Nat) (s : Machine) : Prop where
  live : Live ioctl h patience t (t + 1) s
  interrupts : s.cpu.interrupts = true
  shadow : s.cpu.shadow = false
  halted : s.cpu.halted = false
  code : s.cpu.code = p.wait ∨ (s.cpu.code = block (.poll p) ∨ s.cpu.code = p.between) ∧
    irqPolls ≤ s.cpu.ecx + s.held ∧ s.held ≤ patience

theorem Waiting.deliverable (hw : Waiting ioctl h patience p t s) (hall : AllSucceed ioctl) :
    ∃ v, s.deliverable = some v ∧
      (machine ioctl h patience).step s .interrupt = some (s.interrupt h v) := by
  obtain ⟨v, hv⟩ :=
    hw.live.deliverable_some hall (Nat.lt_succ_self t) hw.interrupts hw.shadow
  refine ⟨v, hv, ?_⟩
  show s.step ⟨guestMemSize, ioctl⟩ h patience .interrupt = _
  unfold Machine.step
  rw [hw.live.returned, hv]
  rfl

/-- The interrupt is taken. -/
theorem Waiting.interrupt (hw : Waiting ioctl h patience p t s) (hall : AllSucceed ioctl)
    (hpatience : patience + 2 ≤ irqPolls) (ht : p.expect = t + 1)
    (hgood : Good ioctl h patience p.expect p.after)
    (hstep : (machine ioctl h patience).step s .interrupt = some s') :
    Ends ioctl h patience s' := by
  obtain ⟨v, hv, hinterrupt⟩ := hw.deliverable hall
  obtain rfl := Option.some.inj (hinterrupt.symm.trans hstep)
  by_cases hhandler : s.hasHandler h v = true
  · have hs' : s.interrupt h v =
        { s with
          chip := s.chip.acknowledge v
          cpu :=
            { s.cpu with
              code := handlerCode
              interrupts := false
              halted := false
              returnTo := s.cpu.code }
          taken := s.taken ++ [v]
          held := 0 } := if_pos hhandler
    rw [hs'] at hstep ⊢
    obtain ⟨hreach, hlive | hdone⟩ := hw.live.next hall hstep rfl
    · have hback : s.cpu.code = p.wait ∨ s.cpu.code = block (.poll p) ∨
          s.cpu.code = p.between ∧ 2 ≤ s.cpu.ecx := by
        rcases hw.code with hcode | ⟨hcode | hcode, hpolls, hheld⟩
        · exact .inl hcode
        · exact .inr (.inl hcode)
        -- the loop still jumps when the handler has returned
        · exact .inr (.inr ⟨hcode, by omega⟩)
      refine handler_wins hall rfl rfl (back_wins hall hgood rfl rfl hback) _
        ⟨hreach, hlive, ?_, ht ▸ hw.live.ioctls, ht ▸ hw.live.issued⟩ rfl
      rw [List.length_append, hw.live.taken, ht]
      rfl
    · exact .now hdone
  · -- the machine would have failed without a cause
    have hs' : s.interrupt h v =
        { s with
          chip := s.chip.acknowledge v
          taken := s.taken ++ [v]
          held := 0
          returned := some 1 } := if_neg hhandler
    rw [hs'] at hstep
    obtain ⟨-, hnone | hzero⟩ := hw.live.next hall hstep hw.halted
    · cases hnone
    · exact absurd (Option.some.inj hzero) (by decide)

theorem Waiting.moved (hw : Waiting ioctl h patience p t s) (hall : AllSucceed ioctl)
    (hcode : s.cpu.code = insn :: rest) (hplain : insn.isPlain = true)
    (hstep : (machine ioctl h patience).step s .run = some s')
    (hawake : (Cpu.exec { s.cpu with code := rest, shadow := false } t insn).halted = false) :
    s.held < patience ∧ (s'.returned = some 0 ∨ Live ioctl h patience t (t + 1) s' ∧
      s'.cpu = Cpu.exec { s.cpu with code := rest, shadow := false } t insn ∧
        s'.held = s.held + 1) := by
  obtain ⟨v, hv, -⟩ := hw.deliverable hall
  have hopen : s.deliverable.isSome = true := by
    rw [hv]
    rfl
  have hrun : s.run ⟨guestMemSize, ioctl⟩ patience = some s' := by
    change s.step ⟨guestMemSize, ioctl⟩ h patience .run = some s' at hstep
    unfold Machine.step at hstep
    rw [hw.live.returned] at hstep
    exact hstep
  refine ⟨run_held hrun hopen, ?_⟩
  obtain ⟨insn', rest', -, hcode', hs'⟩ := run_cases hrun
  obtain ⟨rfl, rfl⟩ := List.cons.inj (hcode'.symm.trans hcode)
  rw [if_pos hopen] at hs'
  exact hw.live.moved hall hcode hplain (hs' ▸ hstep) hstep hawake

/-- The wait goes on. -/
theorem Waiting.next (hw : Waiting ioctl h patience p t s)
    (hlive : Live ioctl h patience t (t + 1) s') {code : List Insn} {ecx : Nat}
    (hcpu : s'.cpu = { s.cpu with code := code, ecx := ecx, shadow := false })
    (hcode : code = block (.poll p) ∨ code = p.between) (hpolls : irqPolls ≤ ecx + s'.held)
    (hheld : s'.held ≤ patience) : Waiting ioctl h patience p t s' where
  live := hlive
  interrupts := by
    rw [hcpu]
    exact hw.interrupts
  shadow := by rw [hcpu]
  halted := by
    rw [hcpu]
    exact hw.halted
  code := by
    rw [hcpu]
    exact .inr ⟨hcode, hpolls, hheld⟩

/-- A poll that does not find the count. -/
theorem Waiting.run (hw : Waiting ioctl h patience p t s) (hall : AllSucceed ioctl)
    (hpatience : patience + 2 ≤ irqPolls) (ht : p.expect = t + 1)
    (hstep : (machine ioctl h patience).step s .run = some s') :
    s.held < patience ∧ (Ends ioctl h patience s' ∨
      Waiting ioctl h patience p t s' ∧ s'.held = s.held + 1) := by
  rcases hw.code with hcode | ⟨hcode | hcode, hpolls, hle⟩
  -- each instruction costs some patience, so the polls that are left outlast it
  · obtain ⟨hheld, hdone | ⟨hlive, hcpu, hheld'⟩⟩ := hw.moved hall hcode rfl hstep hw.halted
    · exact ⟨hheld, .inl (.now hdone)⟩
    · exact ⟨hheld, .inr ⟨hw.next hlive hcpu (.inl rfl) (Nat.le_add_right _ _) (hheld' ▸ hheld),
        hheld'⟩⟩
  -- the count is still that of the interrupts before
  · have hpoll : s.cpu.code = .expectCount p.expect (.arrived p) :: p.between := hcode
    have hmiss : Cpu.exec { s.cpu with code := p.between, shadow := false } t
        (.expectCount p.expect (.arrived p)) =
        { s.cpu with code := p.between, shadow := false } := by
      apply if_neg
      omega
    obtain ⟨hheld, hdone | ⟨hlive, hcpu, hheld'⟩⟩ :=
      hw.moved hall hpoll rfl hstep (by rw [hmiss]; exact hw.halted)
    · exact ⟨hheld, .inl (.now hdone)⟩
    · exact ⟨hheld, .inr ⟨hw.next hlive (hcpu.trans hmiss) (.inr rfl) (by omega)
        (hheld' ▸ hheld), hheld'⟩⟩
  -- and there are polls left
  · have hloop : Cpu.exec { s.cpu with code := .hlt :: p.after, shadow := false } t
        (.loop (.poll p)) =
        { s.cpu with code := block (.poll p), ecx := s.cpu.ecx - 1, shadow := false } := by
      apply if_neg
      show ¬ s.cpu.ecx - 1 = 0
      omega
    obtain ⟨hheld, hdone | ⟨hlive, hcpu, hheld'⟩⟩ :=
      hw.moved hall hcode rfl hstep (by rw [hloop]; exact hw.halted)
    · exact ⟨hheld, .inl (.now hdone)⟩
    · exact ⟨hheld, .inr ⟨hw.next hlive (hcpu.trans hloop) (.inl rfl) (by omega)
        (hheld' ▸ hheld), hheld'⟩⟩

variable (ioctl h patience) in
/-- The wait and what is left of the patience. -/
def WaitLeft (p : Phase) (t : Nat) (s : Machine) (n : Nat) : Prop :=
  Ends ioctl h patience s ∨ Waiting ioctl h patience p t s ∧ n = patience - s.held + 1

/-- **A wait** has its interrupt before the polls are over. -/
theorem wait_wins (hall : AllSucceed ioctl) (hpatience : patience + 2 ≤ irqPolls)
    (ht : p.expect = t + 1) (hgood : Good ioctl h patience p.expect p.after)
    (hcode : c.code = p.wait) (hinterrupts : c.interrupts = true) (hshadow : c.shadow = false)
    (hawake : c.halted = false) : Wins ioctl h patience t (t + 1) c := by
  rintro s hl rfl
  have hleft : WaitLeft ioctl h patience p t s (patience - s.held + 1) :=
    .inr ⟨⟨hl, hinterrupts, hshadow, hawake, .inl hcode⟩, rfl⟩
  refine System.Inevitable.of_rank hleft ?_
  rintro s n (hends | ⟨hw, rfl⟩)
  · exact .inl hends
  obtain ⟨v, -, hinterrupt⟩ := hw.deliverable hall
  refine .inr ⟨⟨.interrupt, _, hinterrupt⟩, fun act s' hstep => ?_⟩
  -- the interrupt ends the wait, and any other step takes from the patience
  cases act with
  | interrupt =>
    exact ⟨0, Nat.succ_pos _, .inl (hw.interrupt hall hpatience ht hgood hstep)⟩
  | run =>
    obtain ⟨hheld, hends | ⟨hw', hheld'⟩⟩ := hw.run hall hpatience ht hstep
    · exact ⟨0, Nat.succ_pos _, .inl hends⟩
    · refine ⟨_, ?_, .inr ⟨hw', rfl⟩⟩
      omega
  | haltExit =>
    change s.step ⟨guestMemSize, ioctl⟩ h patience .haltExit = some s' at hstep
    unfold Machine.step at hstep
    rw [hw.live.returned] at hstep
    simp only [Option.isSome_none, Bool.false_eq_true, if_false, hw.halted] at hstep
    cases hstep

end Wait

/-! ## The phases -/

section Phases

/-- A command and its wait. -/
theorem good_command (hall : AllSucceed ioctl) (hpatience : patience + 2 ≤ irqPolls) {p : Phase}
    {n : Nat} (hphase : Phase.all[n]? = some p)
    (hgood : Good ioctl h patience p.expect p.after) :
    Good ioctl h patience n (.device commandOffset p.command :: p.wait) := by
  intro c hcode hinterrupts hawake
  exact Wins.command hall hphase hawake hcode
    (wait_wins hall hpatience (phase_at hphase) hgood rfl hinterrupts rfl hawake)

theorem good_verify (hall : AllSucceed ioctl) : Good ioctl h patience 5 afterDmaFrom := by
  intro c hcode _ hawake
  refine Wins.run hall (.inr (.inr rfl)) hawake hcode rfl hawake ?_
  exact Wins.done hawake rfl

theorem good_dmaFrom (hall : AllSucceed ioctl) (hpatience : patience + 2 ≤ irqPolls) :
    Good ioctl h patience 4 afterDmaTo := by
  intro c hcode hinterrupts hawake
  refine Wins.run hall (.inr (.inr rfl)) hawake hcode rfl hawake ?_
  exact good_command (p := .dmaFrom) hall hpatience rfl (good_verify hall) _ rfl hinterrupts hawake

theorem good_dmaTo (hall : AllSucceed ioctl) (hpatience : patience + 2 ≤ irqPolls) :
    Good ioctl h patience 3 afterMsi := by
  intro c hcode hinterrupts hawake
  refine Wins.run hall (.inr (.inr rfl)) hawake hcode rfl hawake ?_
  exact good_command (p := .dmaTo) hall hpatience rfl (good_dmaFrom hall hpatience) _ rfl
    hinterrupts hawake

theorem good_msi (hall : AllSucceed ioctl) (hpatience : patience + 2 ≤ irqPolls) :
    Good ioctl h patience 2 afterPending := by
  intro c hcode hinterrupts hawake
  refine Wins.run hall (.inr (.inr rfl)) hawake hcode rfl hawake ?_
  exact good_command (p := .msi) hall hpatience rfl (good_dmaTo hall hpatience) _ rfl
    hinterrupts hawake

/-- The interrupt of phase C waits until the instruction behind `sti` is over. -/
theorem good_pending (hall : AllSucceed ioctl) (hpatience : patience + 2 ≤ irqPolls) :
    Good ioctl h patience 1 afterNormal := by
  intro c hcode _ hawake
  -- `cli`
  refine Wins.run hall (.inr (.inr rfl)) hawake hcode rfl hawake ?_
  refine Wins.command hall (show Phase.all[1]? = some .pending from rfl) hawake rfl ?_
  -- the marker and `sti`, with the interrupt in the LAPIC and IF clear
  refine Wins.run hall (.inl rfl) hawake rfl rfl hawake ?_
  refine Wins.run hall (.inl rfl) hawake rfl rfl hawake ?_
  -- `nop`, in the shadow of `sti`
  refine Wins.run hall (.inr (.inl rfl)) hawake rfl rfl hawake ?_
  exact wait_wins (p := .pending) hall hpatience rfl (good_msi hall hpatience) rfl rfl rfl hawake

theorem good_normal (hall : AllSucceed ioctl) (hpatience : patience + 2 ≤ irqPolls) :
    Good ioctl h patience 0 (Phase.normal.code afterNormal) :=
  good_command (p := .normal) hall hpatience rfl (good_pending hall hpatience)

/-- The setup, and the phases behind it. -/
theorem boot_wins (hall : AllSucceed ioctl) (hpatience : patience + 2 ≤ irqPolls)
    {code : List Insn} (hsetup : ∀ insn ∈ code, insn.isSetup = true)
    (hcode : c.code = code ++ guestPhases) (hawake : c.halted = false) :
    Wins ioctl h patience 0 0 c := by
  induction code generalizing c with
  | nil =>
    -- the marker of phase A, and `sti`; no interrupt waits yet
    refine Wins.run hall (.inr (.inr rfl)) hawake hcode rfl hawake ?_
    refine Wins.run hall (.inr (.inr rfl)) hawake rfl rfl hawake ?_
    exact good_normal hall hpatience _ rfl rfl hawake
  | cons insn code ih =>
    have hi := hsetup insn (List.mem_cons_self ..)
    obtain ⟨hkeep, hhalted⟩ :=
      @cpu_exec_setup { c with code := code ++ guestPhases, shadow := false } insn hi 0
    exact Wins.run hall (.inr (.inr rfl)) hawake hcode (isPlain_of_isSetup hi)
      (hhalted.trans hawake)
      (ih (fun insn hmem => hsetup insn (List.mem_cons_of_mem _ hmem)) hkeep
        (hhalted.trans hawake))

end Phases

end Runs

/-- **Main theorem.** If the ioctls of the five commands succeed and no interrupt is held back for
    as long as a wait polls, every run that goes on for as long as it can comes to its end, and all
    phases have proved what they are for. -/
theorem guest_ends (ioctl : Nat → Int) (h : Handlers) (patience : Nat) (hall : AllSucceed ioctl)
    (hpatience : patience + 2 ≤ irqPolls) {s : Machine}
    (hs : (machine ioctl h patience).Reachable s) :
    (machine ioctl h patience).Inevitable Finished s := by
  -- every run from the start, and so from any state on the way
  have hends : Ends ioctl h patience s := by
    refine System.Inevitable.of_reach ?_ ?_ hs
    · rintro s ⟨image, behind, himage, rfl⟩
      have hboots : Booting ⟨guestMemSize, ioctl⟩ h (guestSetup h) (.start h image behind) :=
        .start himage behind
      exact boot_wins hall hpatience hboots.setup hboots.code hboots.halted _
        ⟨.init ⟨image, behind, himage, rfl⟩, rfl, rfl, rfl, Nat.zero_le _⟩ rfl
    · intro s hreturned act
      show s.step ⟨guestMemSize, ioctl⟩ h patience act = none
      unfold Machine.step
      rw [hreturned]
      rfl
  refine (hends.reachable hs).trans fun s hend => .now ?_
  exact (guest_phases ioctl h patience hend.2).2.2.2 hend.1

theorem labResults_succeed : AllSucceed labResults := by
  intro k i hk
  have hlt : k < 9 := (List.getElem?_eq_some_iff.mp hk).1
  interval_cases k <;> cases hk <;> decide

theorem guest_ends_lab :
    (machine labResults labHandlers 7).Inevitable Finished
      (.start labHandlers labImage fun _ => 0) :=
  guest_ends _ _ _ labResults_succeed (by decide) (.init ⟨_, _, labImage_isImage, rfl⟩)

end LinuxMaxxing.VirtIo
