import LinuxMaxxing.Lib.Transition

/-!
# The Observation Gate of virt-vtd

`gate` in `_run.py` marks the observation window: it signals the observer and waits for the
control line that answers. The observer's loop in `observer.c` reads the request the
signal handler has left in `gate_request`, writes the line and then resets the request.

- the handler may run between any two statements of the loop;
- the controller calls `gate` with any values, one call after the other; a call that times
  out raises and ends its run.

The observer's process outlives its loop here; when it exits, the wait raises.

`request_held` is the result: in every run in which no handler runs between the answer and
the reset, a request that is waited for is pending, or noted, or answered. `gate_loses`
is a run in which one handler does.
-/

namespace LinuxMaxxing.VirtVtd

open LinuxMaxxing.Lib

/-! ## State -/

/-- The controller between statements of `gate`. -/
inductive Controller where
  | idle
  /-- in `wait_control("LX_GATE enabled=%d" % enabled, 5)` -/
  | waiting (enabled : Bool)
  /-- a wait has raised -/
  | failed
  deriving DecidableEq, Repr

/-- The statement the observer is at. `enabled` is its local variable; `none` stands for
    -1, as in `gate_request`. -/
inductive Pc where
  /-- `while (!stop_requested)` -/
  | whileTest
  /-- `ring_buffer__poll` and the test of its result -/
  | poll
  /-- `if (gate_request >= 0)` -/
  | gateTest
  /-- `uint32_t enabled = gate_request` -/
  | readGate
  /-- `emit_gate_marker(enabled)` -/
  | marker (enabled : Option Bool)
  /-- `lab_control("LX_GATE enabled=%u\n", enabled)` -/
  | control (enabled : Option Bool)
  /-- `gate_request = -1` -/
  | reset
  /-- the loop is left -/
  | left
  deriving DecidableEq, Repr

structure GateState where
  controller : Controller
  /-- `SIGUSR1` (for `true`) and `SIGUSR2` are pending -/
  pending : Bool → Bool
  stopPending : Bool
  gateRequest : Option Bool
  stopRequested : Bool
  pc : Pc
  /-- The `LX_GATE` lines in the control pipe. -/
  pipe : List (Option Bool)
  /-- The `LX_GATE` lines the controller has received and not used. -/
  messages : List (Option Bool)

/-! ## Steps -/

inductive GateAct where
  /-- `gate(process, enabled)` sends its signal and begins to wait. -/
  | gate (enabled : Bool)
  /-- `receive` empties the pipe. -/
  | receive
  /-- The loop over the messages, which returns when one matches. -/
  | check
  /-- `wait_control` raises. -/
  | timeout
  /-- `SIGTERM` is sent to the observer. -/
  | stop
  /-- `on_signal` runs for a gate signal. -/
  | deliver (enabled : Bool)
  /-- `on_signal` runs for `SIGTERM`. -/
  | deliverStop
  /-- The observer executes a statement; `ok` is the result of a call in it. -/
  | observer (ok : Bool)
  deriving DecidableEq, Repr

namespace GateState

def setPending (s : GateState) (enabled value : Bool) : GateState :=
  { s with pending := fun w => if w = enabled then value else s.pending w }

/-- One statement of the observer's loop. -/
def observerStep (s : GateState) (ok : Bool) : Option GateState :=
  match s.pc with
  | .whileTest => some { s with pc := if s.stopRequested then .left else .poll }
  | .poll => some { s with pc := if ok then .gateTest else .left }
  | .gateTest => some { s with pc := if s.gateRequest.isSome then .readGate else .whileTest }
  | .readGate => some { s with pc := .marker s.gateRequest }
  | .marker enabled => some { s with pc := if ok then .control enabled else .left }
  | .control enabled => some { s with pipe := s.pipe ++ [enabled], pc := .reset }
  | .reset => some { s with gateRequest := none, pc := .whileTest }
  | .left => none

def step (s : GateState) : GateAct → Option GateState
  | .gate enabled =>
    if s.controller = .idle then
      some { s.setPending enabled true with controller := .waiting enabled }
    else none
  | .receive =>
    match s.controller with
    | .waiting _ => some { s with pipe := [], messages := s.messages ++ s.pipe }
    | _ => none
  | .check =>
    match s.controller with
    | .waiting enabled =>
      if some enabled ∈ s.messages then
        some { s with controller := .idle, messages := s.messages.erase (some enabled) }
      else some s
    | _ => none
  | .timeout =>
    match s.controller with
    | .waiting _ => some { s with controller := .failed }
    | _ => none
  | .stop => some { s with stopPending := true }
  | .deliver enabled =>
    if s.pending enabled then
      some { s.setPending enabled false with gateRequest := some enabled }
    else none
  | .deliverStop =>
    if s.stopPending then some { s with stopPending := false, stopRequested := true } else none
  | .observer ok => s.observerStep ok

/-- The observer has reported `LX_READY` and enters its loop. -/
def ready : GateState where
  controller := .idle
  pending := fun _ => false
  stopPending := false
  gateRequest := none
  stopRequested := false
  pc := .whileTest
  pipe := []
  messages := []

end GateState

/-- Controller and observer as a transition system. -/
def gateSystem : System GateState GateAct where
  init s := s = .ready
  step := GateState.step

/-! ## The property -/

namespace GateState

/-- A request that the controller waits for is pending, or noted, or answered. -/
def RequestHeld (s : GateState) : Prop :=
  ∀ enabled, s.controller = .waiting enabled →
    s.pending enabled = true ∨ s.gateRequest = some enabled ∨
      some enabled ∈ s.pipe ++ s.messages

/-- The step is no gate handler between the answer and the reset. -/
def NotBeforeReset (s : GateState) : GateAct → Prop
  | .deliver _ => s.pc ≠ .reset
  | _ => True

instance (s : GateState) : (a : GateAct) → Decidable (s.NotBeforeReset a)
  | .deliver _ => inferInstanceAs (Decidable (_ ≠ _))
  | .gate _ | .receive | .check | .timeout | .stop | .deliverStop | .observer _ =>
    inferInstanceAs (Decidable True)

/-! ## The stages of a request -/

/-- The observer has no request it has not answered. -/
def Settled (s : GateState) : Prop :=
  match s.pc with
  | .reset => True
  | .readGate | .marker _ | .control _ => False
  | .whileTest | .poll | .gateTest | .left => s.gateRequest = none

/-- The observer has the request and has not answered it. -/
def Working (enabled : Bool) (s : GateState) : Prop :=
  s.gateRequest = some enabled ∧
    match s.pc with
    | .reset => False
    | .marker e | .control e => e = some enabled
    | .whileTest | .poll | .gateTest | .readGate | .left => True

def NothingPending (s : GateState) : Prop := ∀ w, s.pending w = false

def NoLine (s : GateState) : Prop := s.pipe = [] ∧ s.messages = []

/-- Where the one request of the controller is. -/
inductive Inv (s : GateState) : Prop where
  | failed : s.controller = .failed → Inv s
  | idle : s.controller = .idle → s.NothingPending → s.Settled → s.NoLine → Inv s
  | sent {enabled : Bool} : s.controller = .waiting enabled →
      (∀ w, s.pending w = decide (w = enabled)) → s.Settled → s.NoLine → Inv s
  | noted {enabled : Bool} : s.controller = .waiting enabled → s.NothingPending →
      s.Working enabled → s.NoLine → Inv s
  | answered {enabled : Bool} : s.controller = .waiting enabled → s.NothingPending →
      s.Settled → s.messages ++ s.pipe = [some enabled] → Inv s

section Steps

variable {s s' : GateState} {ok enabled : Bool}

/-! ### The observer's statements -/

/-- The observer touches neither the controller nor the pending signals. -/
theorem observerStep_frame (h : s.observerStep ok = some s') :
    s'.controller = s.controller ∧ s'.pending = s.pending ∧ s'.messages = s.messages := by
  unfold observerStep at h
  split at h
  all_goals
    cases h
  all_goals exact ⟨rfl, rfl, rfl⟩

/-- Without a request it writes nothing and stays without one. -/
theorem Settled.observerStep (hs : s.Settled) (h : s.observerStep ok = some s') :
    s'.Settled ∧ s'.pipe = s.pipe := by
  unfold GateState.observerStep at h
  cases hpc : s.pc with
  | whileTest =>
    simp only [hpc, Option.some.injEq] at h
    simp only [Settled, hpc] at hs
    subst h
    cases hstop : s.stopRequested <;> exact ⟨hs, rfl⟩
  | poll =>
    simp only [hpc, Option.some.injEq] at h
    simp only [Settled, hpc] at hs
    subst h
    cases ok <;> exact ⟨hs, rfl⟩
  | gateTest =>
    simp only [hpc, Option.some.injEq] at h
    simp only [Settled, hpc] at hs
    subst h
    simp [Settled, hs]
  | readGate => simp [Settled, hpc] at hs
  | marker e => simp [Settled, hpc] at hs
  | control e => simp [Settled, hpc] at hs
  | reset =>
    simp only [hpc, Option.some.injEq] at h
    subst h
    exact ⟨rfl, rfl⟩
  | left => simp [hpc] at h

/-- With a request it keeps it until it writes the answer. -/
theorem Working.observerStep (hs : s.Working enabled) (h : s.observerStep ok = some s') :
    (s'.Working enabled ∧ s'.pipe = s.pipe) ∨
      (s'.Settled ∧ s'.pipe = s.pipe ++ [some enabled]) := by
  unfold GateState.observerStep at h
  obtain ⟨hgate, hpoint⟩ := hs
  cases hpc : s.pc with
  | whileTest =>
    simp only [hpc, Option.some.injEq] at h
    subst h
    cases hstop : s.stopRequested <;> exact .inl ⟨⟨hgate, trivial⟩, rfl⟩
  | poll =>
    simp only [hpc, Option.some.injEq] at h
    subst h
    cases ok <;> exact .inl ⟨⟨hgate, trivial⟩, rfl⟩
  | gateTest =>
    simp only [hpc, Option.some.injEq] at h
    subst h
    simp [Working, hgate]
  | readGate =>
    simp only [hpc, Option.some.injEq] at h
    subst h
    exact .inl ⟨⟨hgate, hgate⟩, rfl⟩
  | marker e =>
    simp only [hpc, Option.some.injEq] at h
    simp only [hpc] at hpoint
    subst h
    cases ok
    · exact .inl ⟨⟨hgate, trivial⟩, rfl⟩
    · exact .inl ⟨⟨hgate, hpoint⟩, rfl⟩
  | control e =>
    simp only [hpc, Option.some.injEq] at h
    simp only [hpc] at hpoint
    subst h hpoint
    exact .inr ⟨trivial, rfl⟩
  | reset => simp [hpc] at hpoint
  | left => simp [hpc] at h

/-- A handler that does not run between the answer and the reset leaves its request noted. -/
theorem Settled.deliver (hs : s.Settled) (hpc : s.pc ≠ .reset) :
    Working enabled { s.setPending enabled false with gateRequest := some enabled } := by
  refine ⟨rfl, ?_⟩
  unfold Settled at hs
  show match s.pc with
    | .reset => False
    | .marker e | .control e => e = some enabled
    | .whileTest | .poll | .gateTest | .readGate | .left => True
  cases h : s.pc with
  | reset => exact hpc h
  | marker e => simp [h] at hs
  | control e => simp [h] at hs
  | whileTest | poll | gateTest | readGate | left => trivial

/-! ### Every step keeps the request -/

theorem Inv.observer (hinv : s.Inv) (h : s.observerStep ok = some s') : s'.Inv := by
  obtain ⟨hcontroller, hpending, hmessages⟩ := observerStep_frame h
  cases hinv with
  | failed hc => exact .failed (hcontroller.trans hc)
  | idle hc hquiet hsettled hnone =>
    obtain ⟨hsettled', hpipe⟩ := hsettled.observerStep h
    exact .idle (hcontroller.trans hc) (fun w => by rw [hpending, hquiet w]) hsettled'
      ⟨hpipe.trans hnone.1, hmessages.trans hnone.2⟩
  | sent hc hsent hsettled hnone =>
    obtain ⟨hsettled', hpipe⟩ := hsettled.observerStep h
    exact .sent (hcontroller.trans hc) (fun w => by rw [hpending, hsent w]) hsettled'
      ⟨hpipe.trans hnone.1, hmessages.trans hnone.2⟩
  | noted hc hquiet hworking hnone =>
    have hquiet' : s'.NothingPending := fun w => by rw [hpending, hquiet w]
    rcases hworking.observerStep h with ⟨hworking', hpipe⟩ | ⟨hsettled, hpipe⟩
    · exact .noted (hcontroller.trans hc) hquiet' hworking'
        ⟨hpipe.trans hnone.1, hmessages.trans hnone.2⟩
    · refine .answered (hcontroller.trans hc) hquiet' hsettled ?_
      rw [hmessages, hpipe, hnone.1, hnone.2]
      rfl
  | answered hc hquiet hsettled hline =>
    obtain ⟨hsettled', hpipe⟩ := hsettled.observerStep h
    have hquiet' : s'.NothingPending := fun w => by rw [hpending, hquiet w]
    refine .answered (hcontroller.trans hc) hquiet' hsettled' ?_
    rw [hmessages, hpipe, hline]

/-- A request is not affected by a request to stop. -/
theorem Inv.stop (hinv : s.Inv) (stopPending stopRequested : Bool) :
    Inv { s with stopPending := stopPending, stopRequested := stopRequested } := by
  cases hinv with
  | failed hc => exact .failed hc
  | idle hc hquiet hsettled hnone => exact .idle hc hquiet hsettled hnone
  | sent hc hsent hsettled hnone => exact .sent hc hsent hsettled hnone
  | noted hc hquiet hworking hnone => exact .noted hc hquiet hworking hnone
  | answered hc hquiet hsettled hline => exact .answered hc hquiet hsettled hline

/-- `receive` moves an answer that is there, and nothing else. -/
theorem Inv.receive (hinv : s.Inv) :
    Inv { s with pipe := [], messages := s.messages ++ s.pipe } := by
  cases hinv with
  | failed hc => exact .failed hc
  | idle hc hquiet hsettled hnone =>
    exact .idle hc hquiet hsettled ⟨rfl, by simp [hnone.1, hnone.2]⟩
  | sent hc hsent hsettled hnone =>
    exact .sent hc hsent hsettled ⟨rfl, by simp [hnone.1, hnone.2]⟩
  | noted hc hquiet hworking hnone =>
    exact .noted hc hquiet hworking ⟨rfl, by simp [hnone.1, hnone.2]⟩
  | answered hc hquiet hsettled hline =>
    exact .answered hc hquiet hsettled (by simpa using hline)

/-- Every step but one keeps the request of the controller. -/
theorem Inv.step {a : GateAct} (hinv : s.Inv) (hok : s.NotBeforeReset a)
    (h : s.step a = some s') : s'.Inv := by
  cases a with
  | observer ok => exact hinv.observer h
  | stop =>
    cases h
    exact hinv.stop true s.stopRequested
  | deliverStop =>
    simp only [GateState.step, Option.ite_none_right_eq_some, Option.some.injEq] at h
    obtain ⟨-, rfl⟩ := h
    exact hinv.stop false true
  | gate enabled =>
    simp only [GateState.step, Option.ite_none_right_eq_some, Option.some.injEq] at h
    obtain ⟨hidle, rfl⟩ := h
    cases hinv with
    | idle hc hquiet hsettled hnone =>
      refine .sent rfl (fun w => ?_) hsettled hnone
      by_cases hw : w = enabled <;> simp [setPending, hw, hquiet w]
    | failed hc | sent hc _ _ _ | noted hc _ _ _ | answered hc _ _ _ =>
      rw [hidle] at hc
      cases hc
  | receive =>
    cases hwait : s.controller with
    | idle | failed => simp [GateState.step, hwait] at h
    | waiting enabled =>
      simp only [GateState.step, hwait, Option.some.injEq] at h
      subst h
      exact hwait ▸ hinv.receive
  | check =>
    cases hwait : s.controller with
    | idle | failed => simp [GateState.step, hwait] at h
    | waiting enabled =>
      simp only [GateState.step, hwait] at h
      split at h
      · rename_i hmem
        cases h
        cases hinv with
        | answered hc hquiet hsettled hline =>
          -- the one line there is has been received, and it is the answer
          rcases List.append_eq_singleton_iff.mp hline with ⟨hnone, -⟩ | ⟨hone, hpipe⟩
          · simp [hnone] at hmem
          · cases hwait.symm.trans hc
            exact .idle rfl hquiet hsettled ⟨hpipe, by simp [hone]⟩
        | failed hc | idle hc _ _ _ => rw [hwait] at hc; cases hc
        | sent _ _ _ hnone | noted _ _ _ hnone => simp [hnone.2] at hmem
      · cases h
        exact hinv
  | timeout =>
    cases hwait : s.controller with
    | idle | failed => simp [GateState.step, hwait] at h
    | waiting enabled =>
      simp only [GateState.step, hwait, Option.some.injEq] at h
      subst h
      exact .failed rfl
  | deliver enabled =>
    simp only [GateState.step, Option.ite_none_right_eq_some, Option.some.injEq] at h
    obtain ⟨hpending, rfl⟩ := h
    cases hinv with
    | failed hc => exact .failed hc
    | idle hc hquiet _ _ => simp [hquiet enabled] at hpending
    | noted hc hquiet _ _ => simp [hquiet enabled] at hpending
    | answered hc hquiet _ _ => simp [hquiet enabled] at hpending
    | @sent v hc hsent hsettled hnone =>
      have hv : enabled = v := by simpa [hsent enabled] using hpending
      subst hv
      refine .noted hc (fun w => ?_) (hsettled.deliver hok) hnone
      by_cases hw : w = enabled <;> simp [setPending, hw, hsent w]

theorem Inv.requestHeld (hinv : s.Inv) : s.RequestHeld := by
  rintro enabled hwait
  cases hinv with
  | failed hc | idle hc _ _ _ => rw [hwait] at hc; cases hc
  | sent hc hsent _ _ =>
    cases hwait.symm.trans hc
    exact .inl (by simp [hsent enabled])
  | noted hc _ hworking _ =>
    cases hwait.symm.trans hc
    exact .inr (.inl hworking.1)
  | answered hc _ _ hline =>
    cases hwait.symm.trans hc
    refine .inr (.inr ?_)
    have hmem : some enabled ∈ s.messages ++ s.pipe := by simp [hline]
    simpa [or_comm] using hmem

end Steps

theorem Reach.inv {s : GateState} (h : gateSystem.Reach NotBeforeReset s) : s.Inv := by
  apply h.invariant Inv
  · rintro s rfl
    exact .idle rfl (fun _ => rfl) rfl ⟨rfl, rfl⟩
  · exact fun s a s' hinv hok hstep => hinv.step hok hstep

/-- **Gate**: in every run in which no gate handler runs between the answer and the reset, a
    request the controller waits for is not lost. -/
theorem request_held {s : GateState} (h : gateSystem.Reach NotBeforeReset s) :
    s.RequestHeld :=
  (Reach.inv h).requestHeld

/-- One gate after the other, each answered. -/
def gateRun : List GateAct :=
  [.gate true, .deliver true, .observer true, .observer true, .observer true, .observer true,
    .observer true, .observer true, .observer true, .receive, .check, .gate false]

theorem request_held_second : ∃ s, gateSystem.exec .ready gateRun = some s ∧
    s.controller = .waiting false ∧ s.RequestHeld := by
  have hrun : gateSystem.exec .ready gateRun = some _ := rfl
  exact ⟨_, rfl, rfl, request_held (.exec (.init rfl) (by decide) hrun)⟩

/-- The handler that does run there loses its request: the reset erases it. -/
theorem lost_before_reset {s t u : GateState} {enabled : Bool}
    (h : gateSystem.Reach NotBeforeReset s) (hwait : s.controller = .waiting enabled)
    (hpc : s.pc = .reset) (hdeliver : s.step (.deliver enabled) = some t)
    (hreset : t.step (.observer true) = some u) : ¬ u.RequestHeld := by
  simp only [GateState.step, Option.ite_none_right_eq_some, Option.some.injEq] at hdeliver
  obtain ⟨hpending, rfl⟩ := hdeliver
  simp only [GateState.step, observerStep, setPending, hpc, Option.some.injEq] at hreset
  subst hreset
  intro hheld
  have hlines : s.pipe = [] ∧ s.messages = [] := by
    cases Reach.inv h with
    | failed hc | idle hc _ _ _ => rw [hwait] at hc; cases hc
    | sent _ _ _ hnone => exact hnone
    | noted _ hquiet _ _ | answered _ hquiet _ _ => simp [hquiet enabled] at hpending
  rcases hheld enabled hwait with hp | hg | hl
  · simp at hp
  · cases hg
  · simp [hlines.1, hlines.2] at hl

/-- The second request arrives between the answer to the first and the reset. -/
def losingRun : List GateAct :=
  [.gate true, .deliver true, .observer true, .observer true, .observer true, .observer true,
    .observer true, .observer true, .receive, .check, .gate false, .deliver false,
    .observer true]

theorem gate_loses : ∃ s, gateSystem.Reachable s ∧ s.controller = .waiting false ∧
    s.pending false = false ∧ s.gateRequest = none ∧ s.pipe = [] ∧ s.messages = [] ∧
    ¬ s.RequestHeld := by
  have hrun : gateSystem.exec .ready losingRun = some _ := rfl
  refine ⟨_, System.reachable_of_exec rfl hrun, rfl, rfl, rfl, rfl, rfl, ?_⟩
  intro hheld
  rcases hheld false rfl with h | h | h
  · cases h
  · cases h
  · cases h

end GateState

end LinuxMaxxing.VirtVtd
