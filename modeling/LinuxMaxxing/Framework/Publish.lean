import LinuxMaxxing.Lib.Exceptions

/-!
# Publishing a Capture

`Session.execute` of `runtime.py` with the calls that decide what becomes of the
published file: `ExitStack.close`, `Capture.save`, `publish` and `atomic_bytes`.
Every operating system call of `atomic_bytes` may raise.

Programs are `EStateM`: a Python exception is an error that keeps the state, so
`try`/`finally` and `try`/`except` are Lean's own.

- `atomicBytes`: a directory with the target and its staging file;
- `execute`: the session, its scratch directory and the published directory;
- `PublishesSafely`: the published file is the previous one or an accepted one, and
  the previous one whenever the run raised.
-/

namespace LinuxMaxxing.Framework

open LinuxMaxxing.Lib

/-- File contents. -/
abbrev Bytes := List UInt8

/-- A Python exception: the name of its type and its text. -/
structure Exn where
  typeName : String
  message : String
  deriving DecidableEq, Repr

/-- The exception the framework raises itself. -/
def labError (message : String) : Exn := ⟨"LabError", message⟩

/-! ## `atomic_bytes` -/

/-- The operating system calls of `atomic_bytes`, in order. -/
inductive OsCall where
  | mkdir
  | mkstemp
  | write
  | fsync
  | replace
  | dirOpen
  | dirFsync
  | dirClose
  | unlink
  deriving DecidableEq, Repr

/-- What each call of one `atomic_bytes` raises, and how much a failing write
    leaves in the staging file. -/
structure Faults where
  raised : OsCall → Option Exn
  written : Nat

/-- No call fails. -/
def Faults.none : Faults := ⟨fun _ => .none, 0⟩

/-- A directory: the target and the staging file next to it. -/
structure Dir where
  file : Option Bytes
  staging : Option Bytes
  deriving DecidableEq, Repr

/-- Make the call; raise if it fails. -/
def Faults.call {σ : Type} (f : Faults) (c : OsCall) : EStateM Exn σ Unit :=
  match f.raised c with
  | some e => throw e
  | .none => pure ()

/-- The staging file is filled; a failing write leaves a part of the content. -/
def writeStaging (f : Faults) (content : Bytes) : EStateM Exn Dir Unit := do
  match f.raised .write with
  | some e =>
    modify fun d => { d with staging := some (content.take f.written) }
    throw e
  | .none => modify fun d => { d with staging := some content }

/-- `os.replace(temporary, path)` -/
def replaceTarget (f : Faults) : EStateM Exn Dir Unit := do
  f.call .replace
  modify fun d => { file := d.staging, staging := .none }

/-- `atomic_bytes` -/
def atomicBytes (f : Faults) (content : Bytes) : EStateM Exn Dir Unit := do
  f.call .mkdir
  f.call .mkstemp
  modify fun d => { d with staging := some [] }
  try
    writeStaging f content
    f.call .fsync
    replaceTarget f
    f.call .dirOpen
    try
      f.call .dirFsync
    finally
      f.call .dirClose
  finally
    if (← get).staging.isSome then
      f.call .unlink
      modify fun d => { d with staging := .none }

/-- The calls up to `os.replace` succeed: the target has the new content. -/
def Faults.Replaces (f : Faults) : Prop :=
  ∀ c ∈ [OsCall.mkdir, .mkstemp, .write, .fsync, .replace], f.raised c = .none

/-- The directory is synchronised after the replacement. -/
def Faults.SyncsDirectory (f : Faults) : Prop :=
  ∀ c ∈ [OsCall.dirOpen, .dirFsync, .dirClose], f.raised c = .none

instance (f : Faults) : Decidable f.Replaces := inferInstanceAs (Decidable (∀ c ∈ _, _))

instance (f : Faults) : Decidable f.SyncsDirectory := inferInstanceAs (Decidable (∀ c ∈ _, _))

/-- **`atomic_bytes`** leaves the old or the new content, and raises exactly when a
    call other than the final `unlink` fails. -/
theorem atomicBytes_spec (f : Faults) (content : Bytes) (d : Dir) :
    (stateOf (atomicBytes f content d)).file = (if f.Replaces then some content else d.file) ∧
    (raisedIn (atomicBytes f content d) = false ↔ f.Replaces ∧ f.SyncsDirectory) := by
  unfold atomicBytes Faults.Replaces Faults.SyncsDirectory
  -- one call after the other: the first that fails decides
  cases hmkdir : f.raised .mkdir with
  | some e => simp [Faults.call, hmkdir]
  | none =>
  cases hmkstemp : f.raised .mkstemp with
  | some e => simp [Faults.call, hmkdir, hmkstemp]
  | none =>
  cases hwrite : f.raised .write with
  | some e =>
    cases hunlink : f.raised .unlink <;>
      simp [Faults.call, writeStaging, hmkdir, hmkstemp, hwrite, hunlink]
  | none =>
  cases hfsync : f.raised .fsync with
  | some e =>
    cases hunlink : f.raised .unlink <;>
      simp [Faults.call, writeStaging, hmkdir, hmkstemp, hwrite, hfsync, hunlink]
  | none =>
  cases hreplace : f.raised .replace with
  | some e =>
    cases hunlink : f.raised .unlink <;>
      simp [Faults.call, writeStaging, replaceTarget, hmkdir, hmkstemp, hwrite, hfsync,
        hreplace, hunlink]
  | none =>
  -- from here on the target has the new content and there is nothing to unlink
  cases hopen : f.raised .dirOpen with
  | some e =>
    simp [Faults.call, writeStaging, replaceTarget, hmkdir, hmkstemp, hwrite, hfsync, hreplace,
      hopen]
  | none =>
  cases hsync : f.raised .dirFsync <;> cases hclose : f.raised .dirClose <;>
    simp [Faults.call, writeStaging, replaceTarget, hmkdir, hmkstemp, hwrite, hfsync, hreplace,
      hopen, hsync, hclose]

theorem atomicBytes_ok {f : Faults} {content : Bytes} {d d' : Dir}
    (h : atomicBytes f content d = .ok () d') :
    f.Replaces ∧ f.SyncsDirectory ∧ d'.file = some content := by
  obtain ⟨hfile, hraised⟩ := atomicBytes_spec f content d
  rw [h] at hfile hraised
  obtain ⟨hrep, hsync⟩ := hraised.mp rfl
  rw [if_pos hrep] at hfile
  exact ⟨hrep, hsync, hfile⟩

theorem atomicBytes_error {f : Faults} {content : Bytes} {d d' : Dir} {e : Exn}
    (h : atomicBytes f content d = .error e d') :
    ¬ (f.Replaces ∧ f.SyncsDirectory) ∧
    d'.file = if f.Replaces then some content else d.file := by
  obtain ⟨hfile, hraised⟩ := atomicBytes_spec f content d
  rw [h] at hfile hraised
  exact ⟨fun hall => by simpa using hraised.mpr hall, hfile⟩

/-! ## The session -/

/-- The lifecycle records `execute` appends. -/
inductive Lifecycle where
  | captureStarted (environment digest : String)
  | captureFinished
  | captureFailed (error : String)
  deriving DecidableEq, Repr

/-- The parts of the runtime a session relies on: building a lifecycle record,
    entering the tracefs events into the first record, rendering a record with its
    sequence number, and the validator. -/
structure Runtime (Event : Type) where
  lifecycle : Lifecycle → Event
  setTrace : List String × List String → Event → Event
  dumps : Nat → Event → Except Exn Bytes
  validate : Bytes → Except Exn Unit

/-- A session: its scratch directory, the exit stack in the order in which it will
    run (what each callback raises), the records, and the trace if one was opened. -/
structure Session (Event : Type) where
  scratch : Dir
  callbacks : List (Option Exn)
  events : List Event
  trace : Option (List String × List String)

/-- The session and the directory of the published capture. -/
structure World (Event : Type) where
  published : Dir
  session : Session Event

/-- Everything a run depends on: the user, the two files read at the start, the
    workflow, and what the operating system does in each `atomic_bytes`. -/
structure Run (Event : Type) where
  euid : Nat
  environment : Except Exn String
  digest : Except Exn String
  workflow : EStateM Exn (Session Event) Unit
  saveFaults : Faults
  /-- what `read_bytes` of the staged file raises -/
  readBytes : Option Exn
  publishFaults : Faults
  failedSaveFaults : Faults

section Execute

variable {Event : Type} (rt : Runtime Event)

def onScratch {α : Type} : EStateM Exn Dir α → EStateM Exn (Session Event) α :=
  zoom Session.scratch fun s d => { s with scratch := d }

def onPublished {α : Type} : EStateM Exn Dir α → EStateM Exn (World Event) α :=
  zoom World.published fun w d => { w with published := d }

def onSession {α : Type} : EStateM Exn (Session Event) α → EStateM Exn (World Event) α :=
  zoom World.session fun w s => { w with session := s }

/-- `Capture.lifecycle` -/
def lifecycle (l : Lifecycle) : EStateM Exn (Session Event) Unit :=
  modify fun s => { s with events := s.events ++ [rt.lifecycle l] }

/-- The exception of the last callback that raises. -/
def lastRaised (callbacks : List (Option Exn)) : Option Exn :=
  (callbacks.filterMap id).getLast?

/-- `ExitStack.close`: every callback runs and is gone; the last exception is
    raised. -/
def closeStack : EStateM Exn (Session Event) Unit := do
  let callbacks := (← get).callbacks
  modify fun s => { s with callbacks := [] }
  match lastRaised callbacks with
  | some e => throw e
  | .none => pure ()

/-- The lines of the records, numbered from `seq` on. -/
def renderFrom (seq : Nat) : List Event → Except Exn Bytes
  | [] => .ok []
  | e :: es => do
    let line ← rt.dumps seq e
    let rest ← renderFrom (seq + 1) es
    pure (line ++ rest)

/-- `Capture.save` -/
def save (f : Faults) : EStateM Exn (Session Event) Unit := do
  let content ← MonadExcept.ofExcept (renderFrom rt 1 (← get).events)
  onScratch (atomicBytes f content)

/-- The first record receives the enabled and skipped trace events. -/
def enterTrace : EStateM Exn (Session Event) Unit :=
  modify fun s =>
    match s.trace with
    | .none => s
    | some t => { s with events := s.events.modify 0 (rt.setTrace t) }

/-- `publish`: the staged file is validated, then read and written to the target. -/
def publish (run : Run Event) : EStateM Exn (World Event) Unit := do
  match (← get).session.scratch.file with
  | .none => throw ⟨"FileNotFoundError", "No such file or directory"⟩
  | some content =>
    MonadExcept.ofExcept (rt.validate content)
    match run.readBytes with
    | some e => throw e
    | .none => onPublished (atomicBytes run.publishFaults content)

/-- The body of the `try` in `execute` after the workflow, up to `publish`. -/
def finishSession (run : Run Event) : EStateM Exn (Session Event) Unit := do
  enterTrace rt
  closeStack
  lifecycle rt .captureFinished
  save rt run.saveFaults

/-- The body of the `try` in `execute`. -/
def executeBody (run : Run Event) : EStateM Exn (World Event) Unit := do
  onSession run.workflow
  onSession (finishSession rt run)
  publish rt run

/-- The handler: the rest of the exit stack, the failure record, and the staged
    file once more. -/
def executeFailed (run : Run Event) (exc : Exn) : EStateM Exn (Session Event) Unit := do
  let exc ←
    try
      closeStack
      pure exc
    catch cleanup =>
      pure (labError (exc.message ++ "; cleanup failed: " ++ cleanup.message))
  lifecycle rt (.captureFailed (if exc.message = "" then exc.typeName else exc.message))
  save rt run.failedSaveFaults
  throw (labError exc.message)

/-- `Session.execute` -/
def execute (run : Run Event) : EStateM Exn (World Event) Unit := do
  if run.euid ≠ 0 then
    throw (labError "experiment worker requires root in its execution environment")
  let facts ← MonadExcept.ofExcept run.environment
  let digest ← MonadExcept.ofExcept run.digest
  onSession (lifecycle rt (.captureStarted facts digest))
  try
    executeBody rt run
  catch exc =>
    onSession (executeFailed rt run exc)

/-! ## How far a run gets -/

/-- The records when the capture is finished: the first one with the trace, and the
    closing one. -/
def finishedEvents (s : Session Event) : List Event :=
  (match s.trace with
    | .none => s.events
    | some t => s.events.modify 0 (rt.setTrace t)) ++ [rt.lifecycle .captureFinished]

/-- From the session `s` the body gets to write `content` to the target: the
    workflow returns, no callback raises, the records can be rendered, they are
    saved, the validator accepts them and they can be read back. -/
def Arrives (run : Run Event) (s : Session Event) (content : Bytes) : Prop :=
  ∃ s', run.workflow s = .ok () s' ∧ (∀ c ∈ s'.callbacks, c = .none) ∧
    renderFrom rt 1 (finishedEvents rt s') = .ok content ∧
    run.saveFaults.Replaces ∧ run.saveFaults.SyncsDirectory ∧
    rt.validate content = .ok () ∧ run.readBytes = .none

/-- What a program that may write `content` to the target leaves there. -/
def Writes (old : Option Bytes) (f : Faults) (content : Bytes)
    (r : EStateM.Result Exn (World Event) Unit) : Prop :=
  (stateOf r).published.file = (if f.Replaces then some content else old) ∧
  (raisedIn r = false ↔ f.Replaces ∧ f.SyncsDirectory)

/-- A program that failed before it came to the target. -/
def GivesUp (old : Option Bytes) (r : EStateM.Result Exn (World Event) Unit) : Prop :=
  (stateOf r).published.file = old ∧ raisedIn r = true

theorem lastRaised_eq_none_iff {callbacks : List (Option Exn)} :
    lastRaised callbacks = .none ↔ ∀ c ∈ callbacks, c = .none := by
  rw [lastRaised, List.getLast?_eq_none_iff, List.filterMap_eq_nil_iff]
  rfl

theorem closeStack_ok {s : Session Event} (h : ∀ c ∈ s.callbacks, c = .none) :
    closeStack s = .ok () { s with callbacks := [] } := by
  simp [closeStack, lastRaised_eq_none_iff.mpr h]

theorem closeStack_error {s : Session Event} (h : ¬ ∀ c ∈ s.callbacks, c = .none) :
    ∃ e, closeStack s = .error e { s with callbacks := [] } := by
  cases hlast : lastRaised s.callbacks with
  | none => exact absurd (lastRaised_eq_none_iff.mp hlast) h
  | some e => exact ⟨e, by simp [closeStack, hlast]⟩

theorem publish_spec (run : Run Event) (w : World Event) {content : Bytes}
    (hstaged : w.session.scratch.file = some content) :
    (rt.validate content = .ok () ∧ run.readBytes = .none ∧
      Writes w.published.file run.publishFaults content (publish rt run w)) ∨
    (¬ (rt.validate content = .ok () ∧ run.readBytes = .none) ∧
      GivesUp w.published.file (publish rt run w)) := by
  cases hval : rt.validate content with
  | error e => exact .inr ⟨by simp, by simp [publish, GivesUp, hstaged, hval]⟩
  | ok u =>
    cases hread : run.readBytes with
    | some e => exact .inr ⟨by simp, by simp [publish, GivesUp, hstaged, hval, hread]⟩
    | none =>
      refine .inl ⟨rfl, rfl, ?_⟩
      have hspec := atomicBytes_spec run.publishFaults content w.published
      simp only [Writes, publish, onPublished, run_bind, run_get, hstaged, hval,
        run_ofExcept_ok, hread, run_zoom]
      cases hrun : atomicBytes run.publishFaults content w.published with
      | ok u d =>
        rw [hrun] at hspec
        exact hspec
      | error e d =>
        rw [hrun] at hspec
        exact hspec

theorem enterTrace_ok (s : Session Event) :
    ∃ s', enterTrace rt s = .ok () s' ∧ s'.callbacks = s.callbacks ∧
      s'.events ++ [rt.lifecycle .captureFinished] = finishedEvents rt s := by
  cases htrace : s.trace with
  | none => exact ⟨s, by simp [enterTrace, htrace], rfl, by simp [finishedEvents, htrace]⟩
  | some t =>
    exact ⟨{ s with events := s.events.modify 0 (rt.setTrace t) }, by simp [enterTrace, htrace],
      rfl, by simp [finishedEvents, htrace]⟩

theorem save_ok {s : Session Event} {f : Faults} {content : Bytes}
    (hrender : renderFrom rt 1 s.events = .ok content) (hrep : f.Replaces)
    (hsync : f.SyncsDirectory) :
    ∃ s', save rt f s = .ok () s' ∧ s'.scratch.file = some content := by
  simp only [save, onScratch, run_bind, run_get, hrender, run_ofExcept_ok, run_zoom]
  cases hrun : atomicBytes f content s.scratch with
  | ok u d => exact ⟨_, rfl, (atomicBytes_ok hrun).2.2⟩
  | error e d => exact absurd ⟨hrep, hsync⟩ (atomicBytes_error hrun).1

theorem save_error {s : Session Event} {f : Faults}
    (h : ¬ ∃ content, renderFrom rt 1 s.events = .ok content ∧ f.Replaces ∧ f.SyncsDirectory) :
    ∃ e s', save rt f s = .error e s' := by
  simp only [save, onScratch, run_bind, run_get]
  cases hrender : renderFrom rt 1 s.events with
  | error e => exact ⟨e, s, rfl⟩
  | ok content =>
    simp only [run_ofExcept_ok, run_zoom]
    cases hrun : atomicBytes f content s.scratch with
    | ok u d =>
      obtain ⟨hrep, hsync, _⟩ := atomicBytes_ok hrun
      exact absurd ⟨content, hrender, hrep, hsync⟩ h
    | error e d => exact ⟨e, _, rfl⟩

/-- The session is closed and its records are staged, unless a callback raises or
    the records cannot be saved. -/
theorem finishSession_spec (run : Run Event) (s : Session Event) :
    (∃ content s', (∀ c ∈ s.callbacks, c = .none) ∧
      renderFrom rt 1 (finishedEvents rt s) = .ok content ∧ run.saveFaults.Replaces ∧
      run.saveFaults.SyncsDirectory ∧ finishSession rt run s = .ok () s' ∧
      s'.scratch.file = some content) ∨
    ((¬ ∃ content, (∀ c ∈ s.callbacks, c = .none) ∧
      renderFrom rt 1 (finishedEvents rt s) = .ok content ∧ run.saveFaults.Replaces ∧
      run.saveFaults.SyncsDirectory) ∧ ∃ e s', finishSession rt run s = .error e s') := by
  obtain ⟨s₁, htrace, hcallbacks, hevents⟩ := enterTrace_ok rt s
  simp only [finishSession, run_bind, htrace]
  -- a callback that raises leaves the records unsaved
  by_cases hclean : ∀ c ∈ s.callbacks, c = .none
  · rw [closeStack_ok (hcallbacks ▸ hclean)]
    simp only [lifecycle, run_modify]
    by_cases hsave : ∃ content, renderFrom rt 1 (finishedEvents rt s) = .ok content ∧
        run.saveFaults.Replaces ∧ run.saveFaults.SyncsDirectory
    · obtain ⟨content, hrender, hrep, hsync⟩ := hsave
      rw [← hevents] at hrender
      obtain ⟨s₂, hok, hfile⟩ := save_ok rt (s := { s₁ with
        callbacks := [], events := s₁.events ++ [rt.lifecycle .captureFinished] })
        hrender hrep hsync
      exact .inl ⟨content, s₂, hclean, hevents ▸ hrender, hrep, hsync, hok, hfile⟩
    · right
      refine ⟨fun ⟨content, _, hrest⟩ => hsave ⟨content, hrest⟩, ?_⟩
      apply save_error
      rw [← hevents] at hsave
      exact hsave
  · obtain ⟨e, herr⟩ := closeStack_error (hcallbacks ▸ hclean)
    rw [herr]
    exact .inr ⟨fun ⟨_, hall, _⟩ => hclean hall, e, _, rfl⟩

/-- **The body** either writes the accepted content to the target or gives up before
    it. -/
theorem executeBody_spec (run : Run Event) (w : World Event) :
    (∃ content, Arrives rt run w.session content ∧
      Writes w.published.file run.publishFaults content (executeBody rt run w)) ∨
    ((¬ ∃ content, Arrives rt run w.session content) ∧ GivesUp w.published.file (executeBody rt run w)) := by
  cases hwork : run.workflow w.session with
  | error e s =>
    refine .inr ⟨?_, by simp [executeBody, onSession, GivesUp, hwork]⟩
    rintro ⟨content, s', hok, _⟩
    rw [hwork] at hok
    cases hok
  | ok u s =>
    rcases finishSession_spec rt run s with
      ⟨content, s', hclean, hrender, hrep, hsync, hok, hfile⟩ | ⟨hno, e, s', herr⟩
    · rcases publish_spec rt run { w with session := s' } hfile with
        ⟨hval, hread, hwrites⟩ | ⟨hrej, hgives⟩
      · refine .inl ⟨content, ⟨s, hwork, hclean, hrender, hrep, hsync, hval, hread⟩, ?_⟩
        simpa [executeBody, onSession, hwork, hok] using hwrites
      · refine .inr ⟨?_, by simpa [executeBody, onSession, hwork, hok] using hgives⟩
        rintro ⟨content', t, ht, _, hrender', _, _, hval, hread⟩
        rw [hwork] at ht
        cases ht
        rw [hrender] at hrender'
        cases hrender'
        exact hrej ⟨hval, hread⟩
    · refine .inr ⟨?_, by simp [executeBody, onSession, GivesUp, hwork, herr]⟩
      rintro ⟨content, t, ht, hclean, hrender, hrep, hsync, _⟩
      rw [hwork] at ht
      cases ht
      exact hno ⟨content, hclean, hrender, hrep, hsync⟩

/-- The handler raises and does not come near the published directory. -/
theorem executeFailed_raises (run : Run Event) (exc : Exn) (s : Session Event) :
    ∃ e s', executeFailed rt run exc s = .error e s' := by
  simp only [executeFailed, run_bind, run_tryCatch]
  cases hclose : closeStack s with
  | ok u s₁ =>
    simp only [run_pure, lifecycle, run_modify]
    split <;> exact ⟨_, _, rfl⟩
  | error e s₁ =>
    simp only [run_pure, lifecycle, run_modify]
    split <;> exact ⟨_, _, rfl⟩

/-- Under the handler the body ends with the same published directory, and raises if
    it did without it. -/
theorem handled_spec (run : Run Event) (w : World Event) :
    (stateOf ((tryCatch (executeBody rt run) fun exc =>
        onSession (executeFailed rt run exc)) w)).published =
      (stateOf (executeBody rt run w)).published ∧
    raisedIn ((tryCatch (executeBody rt run) fun exc =>
        onSession (executeFailed rt run exc)) w) = raisedIn (executeBody rt run w) := by
  rw [run_tryCatch]
  cases executeBody rt run w with
  | ok u w' => exact ⟨rfl, rfl⟩
  | error e w' =>
    obtain ⟨e', s', hfailed⟩ := executeFailed_raises rt run e w'.session
    simp [onSession, hfailed]

/-- The session in which the body starts. -/
def startedSession (s : Session Event) (facts digest : String) : Session Event :=
  { s with events := s.events ++ [rt.lifecycle (.captureStarted facts digest)] }

/-- The run gets to write `content` to the target. -/
def Reaches (run : Run Event) (s : Session Event) (content : Bytes) : Prop :=
  run.euid = 0 ∧ ∃ facts digest, run.environment = .ok facts ∧ run.digest = .ok digest ∧
    Arrives rt run (startedSession rt s facts digest) content

/-- **A run** either writes the accepted content to the target or leaves the target
    alone and raises. -/
theorem execute_spec (run : Run Event) (w : World Event) :
    (∃ content, Reaches rt run w.session content ∧
      Writes w.published.file run.publishFaults content (execute rt run w)) ∨
    ((¬ ∃ content, Reaches rt run w.session content) ∧
      GivesUp w.published.file (execute rt run w)) := by
  -- the checks in front of the body: whichever fails, the body is not run
  by_cases heuid : run.euid = 0
  case neg =>
    exact .inr ⟨fun ⟨_, h0, _⟩ => heuid h0, by simp [execute, GivesUp, heuid]⟩
  cases hfacts : run.environment with
  | error e =>
    refine .inr ⟨?_, by simp [execute, GivesUp, heuid, hfacts]⟩
    rintro ⟨_, _, _, _, h, _⟩
    rw [hfacts] at h
    cases h
  | ok facts =>
    cases hdigest : run.digest with
    | error e =>
      refine .inr ⟨?_, by simp [execute, GivesUp, heuid, hfacts, hdigest]⟩
      rintro ⟨_, _, _, _, _, h, _⟩
      rw [hdigest] at h
      cases h
    | ok digest =>
      let w' : World Event := { w with session := startedSession rt w.session facts digest }
      have hrun : execute rt run w = (tryCatch (executeBody rt run) fun exc =>
          onSession (executeFailed rt run exc)) w' := by
        simp [execute, heuid, hfacts, hdigest, lifecycle, onSession, w', startedSession]
      obtain ⟨hpub, hraised⟩ := handled_spec rt run w'
      rw [hrun]
      rcases executeBody_spec rt run w' with ⟨content, harr, hwrites⟩ | ⟨hno, hgives⟩
      · refine .inl ⟨content, ⟨heuid, facts, digest, hfacts, hdigest, harr⟩, ?_⟩
        rw [Writes, hpub, hraised]
        exact hwrites
      · refine .inr ⟨?_, ?_⟩
        · rintro ⟨content, _, facts', digest', hf, hd, harr⟩
          rw [hfacts] at hf
          rw [hdigest] at hd
          cases hf
          cases hd
          exact hno ⟨content, harr⟩
        · rw [GivesUp, hpub, hraised]
          exact hgives

theorem Reaches.accepted {run : Run Event} {s : Session Event} {content : Bytes}
    (h : Reaches rt run s content) : rt.validate content = .ok () := by
  obtain ⟨_, _, _, _, _, _, _, _, _, _, _, hval, _⟩ := h
  exact hval

theorem Reaches.unique {run : Run Event} {s : Session Event} {content content' : Bytes}
    (h : Reaches rt run s content) (h' : Reaches rt run s content') : content = content' := by
  obtain ⟨_, facts, digest, hf, hd, t, hwork, _, hrender, _⟩ := h
  obtain ⟨_, facts', digest', hf', hd', t', hwork', _, hrender', _⟩ := h'
  rw [hf] at hf'
  rw [hd] at hd'
  cases hf'
  cases hd'
  rw [hwork] at hwork'
  cases hwork'
  rw [hrender] at hrender'
  cases hrender'
  rfl

/-! ## The capture contract -/

/-- After the run the published file is the previous one or one the validator
    accepted, and the previous one if the run raised. -/
def PublishesSafely (run : Run Event) (w : World Event) : Prop :=
  ((stateOf (execute rt run w)).published.file = w.published.file ∨
    ∃ content, (stateOf (execute rt run w)).published.file = some content ∧
      rt.validate content = .ok ()) ∧
  (raisedIn (execute rt run w) = true →
    (stateOf (execute rt run w)).published.file = w.published.file)

/-- **The capture contract holds exactly when** the run does not replace the
    published file by other bytes and then fail to open, synchronise or close its
    directory. -/
theorem publishes_safely_iff (run : Run Event) (w : World Event) :
    PublishesSafely rt run w ↔
    ¬ ∃ content, Reaches rt run w.session content ∧ w.published.file ≠ some content ∧
      run.publishFaults.Replaces ∧ ¬ run.publishFaults.SyncsDirectory := by
  rcases execute_spec rt run w with ⟨content, hreach, hfile, hraised⟩ | ⟨hno, hfile, hraised⟩
  · by_cases hrep : run.publishFaults.Replaces
    · rw [if_pos hrep] at hfile
      by_cases hsync : run.publishFaults.SyncsDirectory
      · -- the run returns, with the accepted content in place
        have hok := hraised.mpr ⟨hrep, hsync⟩
        constructor
        · rintro _ ⟨_, _, _, _, hnot⟩
          exact hnot hsync
        · intro _
          refine ⟨.inr ⟨content, hfile, hreach.accepted⟩, fun herr => ?_⟩
          rw [hok] at herr
          cases herr
      · -- the run raises although the file has been replaced
        have herr : raisedIn (execute rt run w) = true := by
          rw [← Bool.not_eq_false, hraised]
          exact fun hall => hsync hall.2
        constructor
        · rintro ⟨_, hsame⟩ ⟨content', hreach', hne, _⟩
          rw [hreach.unique rt hreach'] at hfile
          exact hne ((hsame herr).symm.trans hfile)
        · intro hcond
          have hsame : w.published.file = some content := by
            by_contra hne
            exact hcond ⟨content, hreach, hne, hrep, hsync⟩
          exact ⟨.inl (hfile.trans hsame.symm), fun _ => hfile.trans hsame.symm⟩
    · rw [if_neg hrep] at hfile
      exact ⟨fun _ ⟨_, _, _, h, _⟩ => hrep h, fun _ => ⟨.inl hfile, fun _ => hfile⟩⟩
  · exact ⟨fun _ ⟨content, h, _⟩ => hno ⟨content, h⟩, fun _ => ⟨.inl hfile, fun _ => hfile⟩⟩

end Execute

end LinuxMaxxing.Framework
