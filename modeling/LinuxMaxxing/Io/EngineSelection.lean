import LinuxMaxxing.Io.DmaEcho
import LinuxMaxxing.Io.IntegerText
import LinuxMaxxing.Io.ResultFile
import Mathlib.Data.List.TakeWhile

/-!
# Which Engine a Write Selects

`qedu_write` gives a complete unsigned integer to the factorial engine and echoes any other input.
It parses the coherent buffer as a C string, so what it takes for the payload ends at the first NUL:
the bytes `5`, NUL, `x` are computed instead of echoed (`selects_prefix`).

`BufferKept` is the condition on the steps of a run that leaves the bytes of a write in the buffer
until they have been parsed; runs of `EchoSafe` steps meet it (`bufferKept_of_echoSafe`).
`selects_by_payload_iff` says which payloads get the right engine then.
-/

namespace LinuxMaxxing.Io

open LinuxMaxxing.Lib

/-! ## The selection -/

/-- The engine that a write has selected; none before it has parsed its bytes. -/
def WritePc.engine : WritePc → IoEngine
  | .factorial _ _ | .format _ _ => .factorial
  | .echo _ | .echoed => .dma
  | .outUnlock _ engine => engine
  | _ => .none

/-- The length of the echo has been handed to the stage machine. -/
def WritePc.lengthSet : WritePc → Bool
  | .echo .clearEvent | .echo .setLen => false
  | .echo _ | .echoed => true
  | _ => false

/-- All bytes of the write are echoed: the job is for all of them, and so is the result. -/
structure EchoesAll (d : QeduDev) (w : Write) : Prop where
  engine : w.pc.engine = .dma
  length : w.pc.lengthSet = true → d.dmaLen = w.bytes.length
  returns : ∀ n, w.pc = .outUnlock (.count n) .dma →
    n = w.bytes.length ∧ d.resultSize = w.bytes.length

/-- The factorial engine for the text of an integer, an echo of all bytes for anything else. -/
def SelectsByPayload (d : QeduDev) (w : Write) : Prop :=
  (w.pc.engine = .factorial ↔ ∃ value, IntegerText w.bytes value) ∧
    ((¬ ∃ value, IntegerText w.bytes value) → EchoesAll d w)

/-- What is behind the first NUL does not matter: there is none, or it is no text of an integer that
    ends there. -/
def NulHarmless (bytes : List UInt8) : Prop :=
  0 ∉ bytes ∨ ¬ ∃ value, IntegerText (bytes.takeWhile (· ≠ 0)) value

/-- Nobody else writes the coherent buffer between the copy from user space and the parser: no
    transfer into it ends, and no worker clears it. -/
def BufferKept (d : QeduDev) (a : Act) : Prop :=
  ∀ w ∈ d.holder, (w.pc = .terminate ∨ w.pc = .parse) →
    (a = .dmaComplete → NoReturnTransfer d) ∧ (a = .work → d.worker ≠ .advanceClear)

instance (d : QeduDev) (a : Act) : Decidable (BufferKept d a) :=
  inferInstanceAs (Decidable (∀ w ∈ d.holder, _ → _))

/-! ## The invariant of a write -/

/-- The engine is the one for the bytes before the first NUL. -/
def Dispatched (d : QeduDev) (w : Write) : Prop :=
  (w.pc.engine = .factorial ∧ ∃ value, IntegerText (w.bytes.takeWhile (· ≠ 0)) value) ∨
    ((¬ ∃ value, IntegerText (w.bytes.takeWhile (· ≠ 0)) value) ∧ EchoesAll d w)

/-- What holds of the write that has the lock. -/
structure EngineAt (d : QeduDev) (w : Write) : Prop where
  copied : w.pc = .terminate → d.ram.Holds w.bytes
  terminated : w.pc = .parse → d.ram.Holds w.bytes ∧ d.ram w.bytes.length = 0
  dispatched : w.pc.engine ≠ .none → Dispatched d w

/-- Bytes that `qedu_write` does not refuse. -/
def Accepted (bytes : List UInt8) : Prop := bytes ≠ [] ∧ bytes.length < qeduDmaSize

structure EngineInv (d : QeduDev) : Prop extends Lifecycle d where
  waits : ∀ bytes ∈ d.waiting, Accepted bytes
  accepted : ∀ w ∈ d.holder, Accepted w.bytes
  held : ∀ w ∈ d.holder, EngineAt d w

section Steps

variable {d d' : QeduDev} {a : Act} {w : Write}

/-! ## Moves of the other parties -/

theorem qeduDmaWork_dmaLen (hs : qeduDmaWork d = some d') : d'.dmaLen = d.dmaLen := by
  unfold qeduDmaWork at hs
  repeat' split at hs
  all_goals cases hs
  all_goals rfl

theorem qeduDmaWork_ram (hclear : d.worker ≠ .advanceClear) (hs : qeduDmaWork d = some d') :
    d'.ram = d.ram := by
  unfold qeduDmaWork at hs
  split at hs
  case h_3 hworker => exact absurd hworker hclear
  all_goals first
    | (cases hs; rfl)
    | (split at hs <;> cases hs <;> rfl)
    | cases hs

/-- The other parties leave the length of the job alone. -/
theorem background_dmaLen (ha : a.background = true) (hs : step d a = some d') :
    d'.dmaLen = d.dmaLen := by
  cases background_effect ha hs with
  | none e _ => exact e.len
  | start e _ _ _ _ => exact e.len
  | work hrun => exact qeduDmaWork_dmaLen hrun
  | complete _ hrun => rw [hrun]

/-- A transfer towards the device reads the buffer only. -/
theorem moveBytes_ram (h : d.edu.dmaCmd.dir = false) :
    (d.edu.completeDma d.dmaAddr d.ram).2 = d.ram := by
  unfold Edu.completeDma Edu.moveBytes
  simp only [h, Bool.false_eq_true, if_false]
  split <;> rfl

/-- **The buffer is kept** while the bytes wait for the parser. -/
theorem BufferKept.ram (hok : BufferKept d a) (hw : d.holder = some w)
    (hpc : w.pc = .terminate ∨ w.pc = .parse) (ha : a.background = true)
    (hs : step d a = some d') : d'.ram = d.ram := by
  obtain ⟨hreturn, hclear⟩ := hok w hw hpc
  cases background_cases ha hs with
  | work hrun => exact qeduDmaWork_ram (hclear rfl) hrun
  | dmaComplete hrunning =>
    obtain hstopped | hdir := hreturn rfl
    · rw [hstopped] at hrunning
      cases hrunning
    · exact moveBytes_ram hdir
  | _ => rfl

theorem EchoesAll.of_same (h : EchoesAll d w) (hlen : d'.dmaLen = d.dmaLen)
    (hsize : d'.resultSize = d.resultSize) : EchoesAll d' w where
  engine := h.engine
  length := fun hset => hlen.trans (h.length hset)
  returns := fun n hpc => ⟨(h.returns n hpc).1, hsize.trans (h.returns n hpc).2⟩

theorem Dispatched.of_same (h : Dispatched d w) (hlen : d'.dmaLen = d.dmaLen)
    (hsize : d'.resultSize = d.resultSize) : Dispatched d' w :=
  h.imp_right fun h => ⟨h.1, h.2.of_same hlen hsize⟩

theorem EngineAt.background_step (h : EngineAt d w) (hok : BufferKept d a)
    (hw : d.holder = some w) (ha : a.background = true) (hs : step d a = some d') :
    EngineAt d' w where
  copied := by
    intro hpc
    rw [hok.ram hw (.inl hpc) ha hs]
    exact h.copied hpc
  terminated := by
    intro hpc
    rw [hok.ram hw (.inr hpc) ha hs]
    exact h.terminated hpc
  dispatched := fun hengine =>
    (h.dispatched hengine).of_same (background_dmaLen ha hs) (background_sameWriter ha hs).size

/-! ## Statements of the writer -/

/-- A write that has selected its engine goes on with it. -/
theorem EngineAt.of_dispatched (h : Dispatched d w) (hengine : w.pc.engine ≠ .none) :
    EngineAt d w where
  copied := by
    intro hpc
    rw [hpc] at hengine
    exact absurd rfl hengine
  terminated := by
    intro hpc
    rw [hpc] at hengine
    exact absurd rfl hengine
  dispatched := fun _ => h

/-- Nothing is known of a write that has only taken the lock. -/
theorem EngineAt.of_none (hcopied : w.pc ≠ .terminate) (hparsed : w.pc ≠ .parse)
    (hengine : w.pc.engine = .none) : EngineAt d w :=
  ⟨fun hpc => absurd hpc hcopied, fun hpc => absurd hpc hparsed,
    fun hne => absurd hengine hne⟩

/-- The lock is free, or its holder goes on with the same bytes. -/
def GoesOn (w : Write) (d' : QeduDev) : Prop :=
  ∀ w' ∈ d'.holder, w'.bytes = w.bytes ∧ EngineAt d' w'

theorem goesOn_at {e : QeduDev} (pc : WritePc) (h : EngineAt (e.at w pc) { w with pc := pc }) :
    GoesOn w (e.at w pc) := by
  intro w' hw'
  obtain rfl := Option.some.inj hw'
  exact ⟨rfl, h⟩

/-- The text of an integer goes on to the factorial engine. -/
theorem goesOn_factorial {e : QeduDev} {pc : WritePc} (hpc : pc.engine = .factorial)
    (h : ∃ value, IntegerText (w.bytes.takeWhile (· ≠ 0)) value) : GoesOn w (e.at w pc) := by
  refine goesOn_at pc (.of_dispatched (.inl ⟨hpc, h⟩) ?_)
  show pc.engine ≠ .none
  rw [hpc]
  decide

/-- Anything else goes on to be echoed. -/
theorem goesOn_echo {e : QeduDev} {pc : WritePc} (hpc : pc.engine = .dma)
    (h : ¬ ∃ value, IntegerText (w.bytes.takeWhile (· ≠ 0)) value)
    (hlen : pc.lengthSet = true → e.dmaLen = w.bytes.length)
    (hreturns : ∀ n, pc = .outUnlock (.count n) .dma →
      n = w.bytes.length ∧ e.resultSize = w.bytes.length) : GoesOn w (e.at w pc) := by
  refine goesOn_at pc (.of_dispatched (.inr ⟨h, hpc, hlen, hreturns⟩) ?_)
  show pc.engine ≠ .none
  rw [hpc]
  decide

/-- A write on its way to the factorial engine. -/
theorem EngineAt.factorial (h : EngineAt d w) (hpc : w.pc.engine = .factorial) :
    ∃ value, IntegerText (w.bytes.takeWhile (· ≠ 0)) value := by
  rcases h.dispatched (by rw [hpc]; decide) with ⟨-, hvalue⟩ | ⟨-, hechoes⟩
  · exact hvalue
  · rw [hechoes.engine] at hpc
    cases hpc

/-- A write that is being echoed. -/
theorem EngineAt.dma (h : EngineAt d w) (hpc : w.pc.engine = .dma) :
    (¬ ∃ value, IntegerText (w.bytes.takeWhile (· ≠ 0)) value) ∧ EchoesAll d w := by
  rcases h.dispatched (by rw [hpc]; decide) with ⟨hfactorial, -⟩ | hechoes
  · rw [hpc] at hfactorial
    cases hfactorial
  · exact hechoes

/-- The text that `kstrtou32` is given: the bytes up to their first NUL. -/
theorem cString_terminated (hlen : w.bytes.length < qeduDmaSize) (hholds : d.ram.Holds w.bytes)
    (hnul : d.ram w.bytes.length = 0) :
    cString d.ram 0 qeduDmaSize = w.bytes.takeWhile (· ≠ 0) := by
  apply cString_holds
  · intro k hk
    rw [Nat.zero_add]
    exact hholds k hk
  · rw [Nat.zero_add]
    exact hnul
  · exact hlen

theorem qeduDmaEchoJob_engine {pc : EchoPc} (h : EngineAt d w) (hpc : w.pc = .echo pc)
    (hs : qeduDmaEchoJob d w pc = some d') : GoesOn w d' := by
  obtain ⟨htext, hechoes⟩ := h.dma (by rw [hpc]; rfl)
  have hlength := hechoes.length
  rw [hpc] at hlength
  cases pc with
  | clearEvent =>
    cases hs
    exact goesOn_echo rfl htext (fun hset => nomatch hset) nofun
  | setLen =>
    cases hs
    exact goesOn_echo rfl htext (fun _ => rfl) nofun
  | wait => cases hs
  | cancelAdvance e =>
    obtain ⟨d₁, hcancel, rfl⟩ := Option.map_eq_some_iff.mp hs
    obtain ⟨-, rfl⟩ := QeduDev.cancelWorkSync_eq_some hcancel
    exact goesOn_echo rfl htext (fun _ => hlength rfl) nofun
  | cancelFinish e =>
    obtain ⟨d₁, hcancel, rfl⟩ := Option.map_eq_some_iff.mp hs
    obtain ⟨-, rfl⟩ := QeduDev.cancelWorkSync_eq_some hcancel
    exact goesOn_echo rfl htext (fun hset => nomatch hset) nofun
  | _ =>
    cases hs
    exact goesOn_echo rfl htext (fun _ => hlength rfl) nofun

/-- **The dispatch**: every statement of `qedu_write` keeps to what the bytes before the first NUL
    say. -/
theorem qeduWrite_engine (h : EngineAt d w) (haccepted : Accepted w.bytes)
    (hs : qeduWrite d w = some d') : GoesOn w d' := by
  obtain ⟨bytes, pc⟩ := w
  cases pc with
  | locked =>
    cases hs
    exact goesOn_at _ (.of_none (by simp) (by simp) rfl)
  | copyFromUser =>
    cases hs
    refine goesOn_at _ ⟨fun _ => Buffer.store_holds _ _, fun hpc => ?_, fun hne => absurd rfl hne⟩
    cases hpc
  | terminate =>
    cases hs
    refine goesOn_at _ ⟨fun hpc => ?_, fun _ => ⟨?_, Function.update_self _ _ _⟩,
      fun hne => absurd rfl hne⟩
    · cases hpc
    · exact Buffer.holds_update (h.copied rfl) 0
  | parse =>
    -- the C string in the buffer is the payload only up to its first NUL
    obtain ⟨hholds, hnul⟩ := h.terminated rfl
    have htext := cString_terminated haccepted.2 hholds hnul
    simp only [qeduWrite, htext] at hs
    cases hparsed : kstrtou32 (bytes.takeWhile (· ≠ 0)) with
    | some input =>
      rw [hparsed] at hs
      cases hs
      exact goesOn_factorial rfl ⟨input, kstrtou32_eq_some_iff.mp hparsed⟩
    | none =>
      rw [hparsed] at hs
      cases hs
      refine goesOn_echo rfl ?_ (fun hset => by cases hset) (by simp)
      rintro ⟨value, hvalue⟩
      have hsome := kstrtou32_eq_some_iff.mpr hvalue
      rw [hparsed] at hsome
      cases hsome
  | factorial input pc =>
    have hvalue := h.factorial rfl
    cases pc with
    | wait => cases hs
    | _ =>
      cases hs
      exact goesOn_factorial rfl hvalue
  | format input result =>
    cases hs
    exact goesOn_factorial rfl (h.factorial rfl)
  | echo pc => exact qeduDmaEchoJob_engine h rfl hs
  | echoed =>
    obtain ⟨htext, hechoes⟩ := h.dma rfl
    cases hs
    refine goesOn_echo rfl htext (fun hset => by cases hset) fun n hn => ?_
    cases hn
    exact ⟨rfl, rfl⟩
  | outUnlock ret engine =>
    cases hs
    exact fun w' hw' => by cases hw'

theorem copyFault_engine {n : Nat} (hs : copyFault d w n = some d') : GoesOn w d' := by
  unfold copyFault at hs
  split at hs
  · cases hs
    exact goesOn_at _ (.of_none nofun nofun rfl)
  · cases hs

theorem waitDone_engine (h : EngineAt d w) (hs : waitDone d w = some d') : GoesOn w d' := by
  unfold waitDone at hs
  split at hs
  · next hpc =>
    split at hs
    · cases hs
      obtain ⟨htext, hechoes⟩ := h.dma (by rw [hpc]; rfl)
      exact goesOn_echo rfl htext (fun _ => hechoes.length (by rw [hpc]; rfl)) nofun
    · cases hs
  · next input hpc =>
    split at hs
    · cases hs
      exact goesOn_factorial rfl (h.factorial (by rw [hpc]; rfl))
    · cases hs
  · cases hs

theorem waitAbort_engine {e : Errno} (h : EngineAt d w) (hs : waitAbort d w e = some d') :
    GoesOn w d' := by
  unfold waitAbort at hs
  split at hs
  · next hpc =>
    cases hs
    obtain ⟨htext, hechoes⟩ := h.dma (by rw [hpc]; rfl)
    exact goesOn_echo rfl htext (fun _ => hechoes.length (by rw [hpc]; rfl)) nofun
  · next input hpc =>
    cases hs
    exact goesOn_factorial rfl (h.factorial (by rw [hpc]; rfl))
  · cases hs

/-! ## Runs -/

theorem EngineInv.of_goesOn (h : EngineInv d) (hw : d.holder = some w)
    (hwaiting : d'.waiting = d.waiting) (hlife : Lifecycle d') (hgoes : GoesOn w d') :
    EngineInv d' where
  toLifecycle := hlife
  waits := hwaiting ▸ h.waits
  accepted := fun w' hw' => (hgoes w' hw').1 ▸ h.accepted w hw
  held := fun w' hw' => (hgoes w' hw').2

theorem EngineInv.waiting_step (h : EngineInv d) (ha : a.background = true)
    (hs : step d a = some d') : ∀ bytes ∈ d'.waiting, Accepted bytes := by
  cases background_cases ha hs with
  | entered bytes =>
    simp only [step] at hs
    split at hs
    · split at hs
      · -- a refused write does not wait
        have hwaiting : d.waiting = d.waiting ++ [bytes] :=
          congrArg QeduDev.waiting (Option.some.inj hs)
        simp at hwaiting
      · next haccepted =>
        rw [not_or, not_le] at haccepted
        exact List.forall_mem_append.mpr ⟨h.waits, List.forall_mem_singleton.mpr haccepted⟩
    · cases hs
  | lockInterrupted i => exact fun bytes hbytes => h.waits bytes (List.mem_of_mem_eraseIdx hbytes)
  | work hrun =>
    rw [(qeduDmaWork_frame hrun).waiting]
    exact h.waits
  | _ => exact h.waits

/-! The statements of `qedu_write` and its waits leave the queue for the lock alone. -/

theorem qeduWrite_waiting (hs : qeduWrite d w = some d') : d'.waiting = d.waiting := by
  obtain ⟨bytes, pc⟩ := w
  cases pc with
  | parse =>
    simp only [qeduWrite] at hs
    split at hs <;> cases hs <;> rfl
  | factorial input pc => cases pc <;> cases hs <;> rfl
  | echo pc =>
    cases pc with
    | cancelAdvance e | cancelFinish e =>
      obtain ⟨d₁, hcancel, rfl⟩ := Option.map_eq_some_iff.mp hs
      obtain ⟨-, rfl⟩ := QeduDev.cancelWorkSync_eq_some hcancel
      rfl
    | _ => cases hs <;> rfl
  | _ =>
    cases hs
    rfl

theorem copyFault_waiting {n : Nat} (hs : copyFault d w n = some d') : d'.waiting = d.waiting := by
  unfold copyFault at hs
  split at hs <;> cases hs
  rfl

theorem waitDone_waiting (hs : waitDone d w = some d') : d'.waiting = d.waiting := by
  unfold waitDone at hs
  repeat' split at hs
  all_goals cases hs
  all_goals rfl

theorem waitAbort_waiting {e : Errno} (hs : waitAbort d w e = some d') :
    d'.waiting = d.waiting := by
  unfold waitAbort at hs
  split at hs <;> cases hs <;> rfl

theorem engineInv_step (h : EngineInv d) (hok : BufferKept d a) (hs : step d a = some d') :
    EngineInv d' := by
  have hlife := lifecycle_step h.toLifecycle hs
  by_cases ha : a.background = true
  -- a step of somebody else: the buffer is kept, and the holder does not move
  · have hsame := (background_sameWriter ha hs).holder
    refine ⟨hlife, h.waiting_step ha hs, fun w hw => ?_, fun w hw => ?_⟩
    · exact h.accepted w (hsame ▸ hw)
    · have hw : d.holder = some w := hsame ▸ hw
      exact (h.held w hw).background_step hok hw ha hs
  · cases a with
    | lock i =>
      simp only [step] at hs
      split at hs
      · next bytes hfree hwaits =>
        cases hs
        refine ⟨hlife, fun other hother => h.waits other (List.mem_of_mem_eraseIdx hother), ?_, ?_⟩
        · intro w hw
          obtain rfl := Option.some.inj hw
          exact h.waits bytes (List.mem_of_getElem? hwaits)
        · intro w hw
          obtain rfl := Option.some.inj hw
          exact .of_none (by simp) (by simp) rfl
      · cases hs
    | write =>
      obtain ⟨w, hw, hs⟩ := Option.bind_eq_some_iff.mp hs
      exact h.of_goesOn hw (qeduWrite_waiting hs) hlife
        (qeduWrite_engine (h.held w hw) (h.accepted w hw) hs)
    | copyFault n =>
      obtain ⟨w, hw, hs⟩ := Option.bind_eq_some_iff.mp hs
      exact h.of_goesOn hw (copyFault_waiting hs) hlife (copyFault_engine hs)
    | waitDone =>
      obtain ⟨w, hw, hs⟩ := Option.bind_eq_some_iff.mp hs
      exact h.of_goesOn hw (waitDone_waiting hs) hlife
        (waitDone_engine (h.held w hw) hs)
    | waitAbort e =>
      obtain ⟨w, hw, hs⟩ := Option.bind_eq_some_iff.mp hs
      exact h.of_goesOn hw (waitAbort_waiting hs) hlife
        (waitAbort_engine (h.held w hw) hs)
    | remove =>
      have hframe := qeduRemove_frame hs
      have hfree := (qeduRemove_holder h.toLifecycle hs).2
      refine ⟨hlife, hframe.waiting ▸ h.waits, fun w hw => ?_, fun w hw => ?_⟩
      · rw [hfree] at hw
        cases hw
      · rw [hfree] at hw
        cases hw
    | _ => simp [Act.background] at ha

end Steps

theorem reach_engineInv {d : QeduDev} (h : qedu.Reach BufferKept d) : EngineInv d := by
  refine h.invariant EngineInv ?_ (fun s a s' hi hok hs => engineInv_step hi hok hs)
  rintro _ ⟨dmaAddr, selftest, rfl⟩
  exact ⟨lifecycle_probed dmaAddr selftest, nofun, nofun, nofun⟩

/-- **An echo that is safe keeps the buffer**: the condition of `dma_echo_exact` is enough. -/
theorem bufferKept_of_echoSafe {d : QeduDev} (h : qedu.Reach EchoSafe d) :
    qedu.Reach BufferKept d := by
  induction h with
  | init h0 => exact .init h0
  | @step s s' a hreach _ hs ih =>
    refine .step ih (fun w hw hpc => ?_) hs
    have hinv := (reach_echoInv hreach).held w hw
    have hloaded : Loaded w.bytes s := by
      rcases hpc with hpc | hpc
      · rw [hpc] at hinv
        exact hinv
      · rw [hpc] at hinv
        exact hinv
    refine ⟨fun _ => hloaded.noReturn, fun _ hclear => ?_⟩
    have htail := hloaded.parked.noTail
    rw [hclear] at htail
    cases htail

/-- **The engine by the payload**: in every run in which nobody else writes the coherent buffer
    between a write's copy and its parser, a write selects the engine for its payload, and echoes all
    of its bytes unless the payload is the text of an integer, exactly if no text of an integer ends
    at a NUL in it. -/
theorem selects_by_payload_iff {d : QeduDev} (h : qedu.Reach BufferKept d) {w : Write}
    (hw : d.holder = some w) (hengine : w.pc.engine ≠ .none) :
    (1 ≤ w.bytes.length ∧ w.bytes.length ≤ 4095) ∧
      (SelectsByPayload d w ↔ NulHarmless w.bytes) := by
  have hinv := reach_engineInv h
  obtain ⟨hne, hlen⟩ := hinv.accepted w hw
  refine ⟨⟨List.length_pos_iff.mpr hne, Nat.le_of_lt_succ hlen⟩, ?_⟩
  have hwhole : 0 ∉ w.bytes → w.bytes.takeWhile (· ≠ 0) = w.bytes := by
    intro hnul
    rw [List.takeWhile_eq_self_iff]
    intro b hb
    exact decide_eq_true fun heq => hnul (heq ▸ hb)
  rcases (hinv.held w hw).dispatched hengine with ⟨hfactorial, hvalue⟩ | ⟨htext, hechoes⟩
  · -- computed: right unless there is a NUL
    constructor
    · rintro ⟨hselects, -⟩
      obtain ⟨value, hinteger⟩ := hselects.mp hfactorial
      exact .inl hinteger.zero_notMem
    · intro hharmless
      have hnul : 0 ∉ w.bytes := hharmless.resolve_right (not_not.mpr hvalue)
      rw [hwhole hnul] at hvalue
      exact ⟨iff_of_true hfactorial hvalue, fun hnone => absurd hvalue hnone⟩
  · -- echoed: always right
    refine iff_of_true ⟨?_, fun _ => hechoes⟩ (.inr htext)
    refine iff_of_false ?_ ?_
    · rw [hechoes.engine]
      decide
    · rintro ⟨value, hinteger⟩
      rw [hwhole hinteger.zero_notMem] at htext
      exact htext ⟨value, hinteger⟩

/-- The system call, the lock and the statements of `qedu_write` up to its dispatch. -/
def dispatchRun (bytes : List UInt8) : List Act :=
  [.enter bytes, .lock 0] ++ List.replicate 4 .write

/-- `echo 5 > /dev/qedu` is computed. -/
theorem selects_by_payload_iff_five :
    ∃ d, qedu.Reach BufferKept d ∧ d.holder = some ⟨[53, 10], .factorial 5 .clearEvent⟩ ∧
      SelectsByPayload d ⟨[53, 10], .factorial 5 .clearEvent⟩ := by
  obtain ⟨d, hrun, hheld⟩ :
      ∃ d ∈ qedu.exec (probed 0x1000 false) (dispatchRun [53, 10]),
        d.holder = some ⟨[53, 10], .factorial 5 .clearEvent⟩ := by decide +kernel
  have hreach : qedu.Reach BufferKept d :=
    System.Reach.exec (.init ⟨0x1000, false, rfl⟩) (by decide +kernel) hrun
  refine ⟨d, hreach, hheld, ?_⟩
  exact (selects_by_payload_iff hreach hheld (by decide)).2.mpr (.inl (by decide))

/-- **The defect**: the payload `5`, NUL, `x` is no text of an integer, but it is computed. -/
theorem selects_prefix :
    ¬ ∀ d w, qedu.Reachable d → d.holder = some w → w.pc.engine ≠ .none →
      SelectsByPayload d w := by
  intro hall
  obtain ⟨d, hrun, hheld⟩ :
      ∃ d ∈ qedu.exec (probed 0x1000 false) (dispatchRun [53, 0, 120]),
        d.holder = some ⟨[53, 0, 120], .factorial 5 .clearEvent⟩ := by decide +kernel
  have hreach : qedu.Reachable d := System.reachable_of_exec ⟨0x1000, false, rfl⟩ hrun
  obtain ⟨value, hinteger⟩ := (hall d _ hreach hheld (by decide)).1.mp rfl
  exact absurd (show (0 : UInt8) ∈ [53, 0, 120] by decide) hinteger.zero_notMem

end LinuxMaxxing.Io
