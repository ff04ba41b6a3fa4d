import LinuxMaxxing.Lib.FirstMatch
import LinuxMaxxing.Lib.JsonLines
import LinuxMaxxing.Lib.Utf8
import LinuxMaxxing.Framework.PythonValue

/-!
# The Control Channel of a Collector

`Process.receive` and `wait_control` of `runtime.py`: a collector writes lines into a pipe, and the
runner waits for one that begins with a prefix. Each wait reads what there is, in chunks that end
anywhere, and takes the first message with its prefix; the others stay for later waits.

- `ControlPipe`: the process and the bytes that it has not read yet
- `Received`: which lines of the stream the messages are, after every operation
- `BringsIn`: what one `receive` brings in
- `control_delivers`: what all the waits of a run are given, and when they return
-/

namespace LinuxMaxxing.Framework

open LinuxMaxxing.Lib LinuxMaxxing.Lib.JsonLines

/-! ## `Process` -/

/-- What leaves `receive` and `wait_control`: a `LabError` with its text, or the decoder's error. -/
inductive ControlExn where
  | lab (message : Text)
  | unicodeDecodeError
  deriving DecidableEq, Repr

/-- The reading end of a process started with `control=True`. A text is the list of its code
    points. -/
structure ControlPipe where
  /-- `read_fd` is not None -/
  readFd : Bool
  buffer : List Nat
  messages : List Text
  /-- what the child writes and nobody has read, to the end of the stream -/
  unread : List Nat
  deriving DecidableEq, Repr

/-- A process that has read nothing of its stream. -/
def ControlPipe.start (stream : List Nat) : ControlPipe := ⟨true, [], [], stream⟩

/-- The first loop of `receive`: `os.read` returns that many bytes each time, as long as `select`
    finds the pipe readable; no byte is the end of the file. -/
def ControlPipe.drain : List Nat → ControlPipe → ControlPipe
  | [], p => p
  | size :: sizes, p =>
    let chunk := p.unread.take (min size 65536)
    if chunk = [] then p
    else ControlPipe.drain sizes
      { p with buffer := p.buffer ++ chunk, unread := p.unread.drop (min size 65536) }

/-- `buffer.split(b"\n", 1)`; `none` where the buffer has no newline. -/
def splitOnce : List Nat → Option (List Nat × List Nat)
  | [] => none
  | b :: bs =>
    if b = 0x0a then some ([], bs) else (splitOnce bs).map fun split => (b :: split.1, split.2)

theorem splitOnce_eq_some {buffer line rest : List Nat} (h : splitOnce buffer = some (line, rest)) :
    buffer = line ++ 0x0a :: rest ∧ 0x0a ∉ line := by
  induction buffer generalizing line with
  | nil => cases h
  | cons b bs ih =>
    rw [splitOnce] at h
    split at h
    · next hb =>
      cases h
      exact ⟨congrArg (· :: rest) hb, List.not_mem_nil⟩
    · next hb =>
      obtain ⟨⟨line, rest'⟩, hsplit, heq⟩ := Option.map_eq_some_iff.mp h
      cases heq
      obtain ⟨rfl, hline⟩ := ih hsplit
      refine ⟨rfl, ?_⟩
      rw [List.mem_cons, not_or]
      exact ⟨Ne.symm hb, hline⟩

theorem splitOnce_eq_none {buffer : List Nat} (h : splitOnce buffer = none) : 0x0a ∉ buffer := by
  induction buffer with
  | nil => exact List.not_mem_nil
  | cons b bs ih =>
    rw [splitOnce] at h
    split at h
    · cases h
    · next hb =>
      rw [List.mem_cons, not_or]
      exact ⟨Ne.symm hb, ih (Option.map_eq_none_iff.mp h)⟩

/-- The second loop of `receive`. A line is off the buffer before it is decoded. -/
def ControlPipe.decodeLines (p : ControlPipe) : ControlPipe × Except ControlExn Unit :=
  match _h : splitOnce p.buffer with
  | none => (p, .ok ())
  | some (line, rest) =>
    match Utf8.decode line with
    | none => ({ p with buffer := rest }, .error .unicodeDecodeError)
    | some message =>
      ControlPipe.decodeLines { p with buffer := rest, messages := p.messages ++ [message] }
termination_by p.buffer.length
decreasing_by
  obtain ⟨hbuffer, -⟩ := splitOnce_eq_some _h
  simp only [hbuffer, List.length_append, List.length_cons]
  omega

/-- `receive` -/
def ControlPipe.receive (p : ControlPipe) (sizes : List Nat) :
    ControlPipe × Except ControlExn Unit :=
  if !p.readFd then (p, .ok ())
  else
    match (p.drain sizes).decodeLines with
    | (p, .error e) => (p, .error e)
    | (p, .ok ()) =>
      if 65536 < p.buffer.length then
        (p, .error (.lab (text "oversized collector control message")))
      else (p, .ok ())

/-- A round of `wait_control`: what `receive` meets, and what the tests after it find. -/
structure Round where
  sizes : List Nat
  /-- `child.poll()` is not None -/
  exited : Bool
  /-- the deadline is over -/
  late : Bool

/-- How a wait ends. It goes on while its rounds do not end it. -/
inductive WaitOutcome where
  | returned (message : Text)
  | raised (e : ControlExn)
  | waiting
  deriving DecidableEq, Repr

def exitedWithout (pre : Text) : ControlExn := .lab (text "collector exited without " ++ pre)

def timedOutFor (pre : Text) : ControlExn :=
  .lab (text "collector timed out waiting for " ++ pre)

/-- `message.startswith(prefix)` -/
def startsWith (pre message : Text) : Bool := pre.isPrefixOf message

/-- `wait_control` -/
def ControlPipe.waitControl (pre : Text) : List Round → ControlPipe → ControlPipe × WaitOutcome
  | [], p => (p, .waiting)
  | round :: rounds, p =>
    match p.receive round.sizes with
    | (p, .error e) => (p, .raised e)
    | (p, .ok ()) =>
      match p.messages.findIdx? (startsWith pre) with
      | some index =>
        ({ p with messages := p.messages.eraseIdx index }, .returned (p.messages.getD index []))
      | none =>
        if round.exited then (p, .raised (exitedWithout pre))
        else if round.late then (p, .raised (timedOutFor pre))
        else ControlPipe.waitControl pre rounds p

/-! ## Runs -/

inductive ControlOp where
  | receive (sizes : List Nat)
  | waitControl (pre : Text) (rounds : List Round)
  | close

/-- A process, the waits that have returned, and what was raised. -/
structure ControlRun where
  pipe : ControlPipe
  /-- the prefix of each wait that has returned, and its message -/
  given : List (Text × Text)
  raised : List ControlExn
  deriving DecidableEq, Repr

/-- One operation. -/
def ControlRun.step (r : ControlRun) : ControlOp → ControlRun
  | .receive sizes =>
    match r.pipe.receive sizes with
    | (p, .ok ()) => { r with pipe := p }
    | (p, .error e) => { r with pipe := p, raised := r.raised ++ [e] }
  | .waitControl pre rounds =>
    match r.pipe.waitControl pre rounds with
    | (p, .returned message) => { r with pipe := p, given := r.given ++ [(pre, message)] }
    | (p, .raised e) => { r with pipe := p, raised := r.raised ++ [e] }
    | (p, .waiting) => { r with pipe := p }
  | .close => { r with pipe := { r.pipe with readFd := false } }

/-- The run of these operations on a stream. -/
def controlRun (stream : List Nat) (ops : List ControlOp) : ControlRun :=
  ops.foldl ControlRun.step ⟨.start stream, [], []⟩

/-! ## Lines of the stream -/

/-- The message that a line decodes to. -/
def messageOf (line : List Nat) : Text := (Utf8.decode line).getD []

/-- The complete lines of a stream: all its pieces but the last. -/
def completeLines (stream : List Nat) : List (List Nat) := (splitLf stream).dropLast

/-- A stream of lines of at most 65536 bytes, the complete ones in UTF-8. -/
structure ControlStream (stream : List Nat) : Prop where
  short : ∀ line ∈ splitLf stream, line.length ≤ 65536
  valid : ∀ line ∈ completeLines stream, Utf8.Valid line

/-- The lines, each with the newline that ends it. -/
def terminated (lines : List (List Nat)) : List Nat := lines.flatMap fun line => line ++ [0x0a]

section Lines

variable {lines : List (List Nat)} {stream rest : List Nat}

theorem splitLf_terminated (h : ∀ line ∈ lines, 0x0a ∉ line) (rest : List Nat) :
    splitLf (terminated lines ++ rest) = lines ++ splitLf rest := by
  induction lines with
  | nil => rfl
  | cons line lines ih =>
    obtain ⟨hline, hlines⟩ := List.forall_mem_cons.mp h
    have hfirst : terminated (line :: lines) ++ rest = line ++ 0x0a :: (terminated lines ++ rest) := by
      simp [terminated]
    rw [hfirst, splitLf_append_lf, splitLf_eq_singleton hline, ih hlines]
    rfl

theorem completeLines_terminated (h : ∀ line ∈ lines, 0x0a ∉ line) (rest : List Nat) :
    completeLines (terminated lines ++ rest) = lines ++ completeLines rest := by
  unfold completeLines
  rw [splitLf_terminated h, List.dropLast_append_of_ne_nil (splitLf_ne_nil rest)]

theorem completeLines_eq_nil (h : 0x0a ∉ rest) : completeLines rest = [] := by
  unfold completeLines
  rw [splitLf_eq_singleton h]
  rfl

/-- What has no newline begins the first piece. -/
theorem splitLf_unfinished {y : List Nat} (hy : 0x0a ∉ y) (rest : List Nat) :
    ∃ l ls, splitLf (y ++ rest) = (y ++ l) :: ls := by
  induction y with
  | nil => exact List.exists_cons_of_ne_nil (splitLf_ne_nil rest)
  | cons c y ih =>
    rw [List.mem_cons, not_or] at hy
    obtain ⟨l, ls, hsplit⟩ := ih hy.2
    refine ⟨l, ls, ?_⟩
    rw [List.cons_append, splitLf, if_neg (Ne.symm hy.1), hsplit]
    rfl

end Lines

/-! ## What one `receive` brings in -/

/-- How many bytes these reads take, if there are as many. -/
def bytesIn : List Nat → Nat
  | [] => 0
  | size :: sizes => if size = 0 then 0 else min size 65536 + bytesIn sizes

/-- How many bytes the reads of these rounds take. -/
def bytesOver (rounds : List Round) : Nat := (rounds.map fun round => bytesIn round.sizes).sum

/-- The lines that the next `n` bytes complete, in an open pipe. -/
def ControlPipe.arrived (p : ControlPipe) (n : Nat) : List Text :=
  if p.readFd then (completeLines (p.buffer ++ p.unread.take n)).map messageOf else []

/-- The first loop of `receive` moves that many bytes into the buffer. -/
theorem ControlPipe.drain_eq (p : ControlPipe) (sizes : List Nat) :
    p.drain sizes = { p with
      buffer := p.buffer ++ p.unread.take (bytesIn sizes)
      unread := p.unread.drop (bytesIn sizes) } := by
  induction sizes generalizing p with
  | nil => simp [ControlPipe.drain, bytesIn]
  | cons size sizes ih =>
    rw [ControlPipe.drain, bytesIn]
    by_cases hsize : size = 0
    · simp [hsize]
    · rw [if_neg hsize]
      split
      · next hchunk =>
        -- the end of the stream
        have hunread : p.unread = [] := (List.take_eq_nil_iff.mp hchunk).resolve_left (by omega)
        cases p
        subst hunread
        simp
      · rw [ih, List.append_assoc, ← List.take_add, List.drop_drop]

/-- From `p`, `n` bytes make `q`: the lines that they complete are behind the messages, and the bytes
    after the last of these lines count for the lines to come. -/
structure BringsIn (p : ControlPipe) (n : Nat) (q : ControlPipe) : Prop where
  readFd : q.readFd = p.readFd
  unread : q.unread = if p.readFd then p.unread.drop n else p.unread
  messages : q.messages = p.messages ++ p.arrived n
  more : ∀ m, p.arrived (n + m) = p.arrived n ++ q.arrived m

/-! ## What a process has received -/

/-- The waits that have returned and the messages left are what serving the prefixes from the lines
    received makes of them; the bytes of the stream behind these lines are in the buffer or unread. -/
def Received (stream : List Nat) (given : List (Text × Text)) (p : ControlPipe) : Prop :=
  ∃ lines : List (List Nat), (∀ line ∈ lines, 0x0a ∉ line) ∧
    stream = terminated lines ++ (p.buffer ++ p.unread) ∧
    serve startsWith (lines.map messageOf) (given.map Prod.fst) =
      some (given.map Prod.snd, p.messages)

section Receive

variable {stream : List Nat} {given : List (Text × Text)} {p : ControlPipe}

theorem Received.start (stream : List Nat) : Received stream [] (.start stream) :=
  ⟨[], nofun, rfl, rfl⟩

/-- **Chunks**: reading moves bytes into the buffer. -/
theorem Received.drain (h : Received stream given p) (sizes : List Nat) :
    Received stream given (p.drain sizes) := by
  induction sizes generalizing p with
  | nil => exact h
  | cons size sizes ih =>
    rw [ControlPipe.drain]
    split
    · exact h
    · apply ih
      obtain ⟨lines, hlines, hstream, hserve⟩ := h
      refine ⟨lines, hlines, ?_, hserve⟩
      rw [hstream, List.append_assoc p.buffer, List.take_append_drop]

/-- One line more. -/
theorem Received.line (h : Received stream given p) {line rest : List Nat}
    (hsplit : splitOnce p.buffer = some (line, rest)) :
    line ∈ completeLines stream ∧
      Received stream given
        { p with buffer := rest, messages := p.messages ++ [messageOf line] } := by
  obtain ⟨lines, hlines, hstream, hserve⟩ := h
  obtain ⟨hbuffer, hline⟩ := splitOnce_eq_some hsplit
  have hmore : ∀ l ∈ lines ++ [line], 0x0a ∉ l :=
    List.forall_mem_append.mpr ⟨hlines, List.forall_mem_singleton.mpr hline⟩
  have hstream : stream = terminated (lines ++ [line]) ++ (rest ++ p.unread) := by
    rw [hstream, hbuffer]
    simp [terminated]
  constructor
  · rw [hstream, completeLines_terminated hmore]
    simp
  · refine ⟨lines ++ [line], hmore, hstream, ?_⟩
    rw [List.map_append]
    exact serve_append hserve [messageOf line]

/-- **Lines**: the second loop takes all complete lines off the buffer and raises nothing. -/
theorem Received.decodeLines (hvalid : ∀ line ∈ completeLines stream, Utf8.Valid line)
    (h : Received stream given p) :
    ∃ buffer lines, p.decodeLines =
        ({ p with buffer := buffer, messages := p.messages ++ lines.map messageOf }, .ok ()) ∧
      Received stream given
        { p with buffer := buffer, messages := p.messages ++ lines.map messageOf } ∧
      0x0a ∉ buffer ∧ (∀ line ∈ lines, 0x0a ∉ line) ∧ p.buffer = terminated lines ++ buffer := by
  fun_induction ControlPipe.decodeLines p with
  | case1 p hsplit =>
    refine ⟨p.buffer, [], ?_, ?_, splitOnce_eq_none hsplit, nofun, rfl⟩
    · rw [List.map_nil, List.append_nil]
    · rw [List.map_nil, List.append_nil]
      exact h
  | case2 p line rest hsplit hdecode =>
    obtain ⟨points, hpoints⟩ := Utf8.valid_iff_decode.mp (hvalid line (h.line hsplit).1)
    rw [hdecode] at hpoints
    cases hpoints
  | case3 p line rest hsplit message hdecode ih =>
    have hmessage : messageOf line = message := by rw [messageOf, hdecode, Option.getD_some]
    obtain ⟨hbuffer, hline⟩ := splitOnce_eq_some hsplit
    obtain ⟨buffer, lines, heq, hreceived, hend, hlines, hrest⟩ :=
      ih (hmessage ▸ (h.line hsplit).2)
    have hmessages : p.messages ++ [message] ++ lines.map messageOf =
        p.messages ++ (line :: lines).map messageOf := by
      rw [List.map_cons, hmessage, List.append_assoc, List.singleton_append]
    dsimp only at heq hreceived hrest
    rw [hmessages] at heq hreceived
    refine ⟨buffer, line :: lines, heq, hreceived, hend, List.forall_mem_cons.mpr ⟨hline, hlines⟩, ?_⟩
    rw [hbuffer, hrest]
    simp [terminated]

/-- What is left in the buffer is the beginning of a line. -/
theorem Received.buffer_length_le (hstream : ControlStream stream) (h : Received stream given p)
    (hbuffer : 0x0a ∉ p.buffer) : p.buffer.length ≤ 65536 := by
  obtain ⟨lines, hlines, heq, -⟩ := h
  obtain ⟨l, ls, hsplit⟩ := splitLf_unfinished hbuffer p.unread
  have hpiece : p.buffer ++ l ∈ splitLf stream := by
    rw [heq, splitLf_terminated hlines, hsplit]
    simp
  have hlength := hstream.short _ hpiece
  rw [List.length_append] at hlength
  omega

/-- **`receive`**: it raises nothing, and all complete lines are off the buffer. -/
theorem Received.receive (hstream : ControlStream stream) (h : Received stream given p)
    (hbuffer : 0x0a ∉ p.buffer) (sizes : List Nat) :
    ∃ q, p.receive sizes = (q, .ok ()) ∧ Received stream given q ∧ 0x0a ∉ q.buffer ∧
      BringsIn p (bytesIn sizes) q := by
  unfold ControlPipe.receive
  cases hopen : p.readFd with
  | false =>
    refine ⟨p, rfl, h, hbuffer, rfl, ?_, ?_, ?_⟩
    all_goals simp [ControlPipe.arrived, hopen]
  | true =>
    obtain ⟨buffer, lines, hq, hreceived, hdone, hlines, hread⟩ :=
      (h.drain sizes).decodeLines hstream.valid
    have hshort : buffer.length ≤ 65536 := hreceived.buffer_length_le hstream hdone
    rw [Bool.not_true, if_neg Bool.false_ne_true, hq]
    refine ⟨_, if_neg (not_lt.mpr hshort), hreceived, hdone, ?_⟩
    rw [p.drain_eq] at hread ⊢
    dsimp only at hread
    -- the lines that these bytes complete are the ones taken off the buffer
    have harrived (m : Nat) : p.arrived (bytesIn sizes + m) = lines.map messageOf ++
        (completeLines (buffer ++ (p.unread.drop (bytesIn sizes)).take m)).map messageOf := by
      rw [ControlPipe.arrived, if_pos hopen, List.take_add, ← List.append_assoc, hread,
        List.append_assoc, completeLines_terminated hlines, List.map_append]
    have hfirst : p.arrived (bytesIn sizes) = lines.map messageOf := by
      have hzero := harrived 0
      rw [Nat.add_zero, List.take_zero, List.append_nil, completeLines_eq_nil hdone] at hzero
      rw [hzero, List.map_nil, List.append_nil]
    refine ⟨rfl, (if_pos hopen).symm, by rw [hfirst], fun m => ?_⟩
    rw [harrived, hfirst, ControlPipe.arrived, if_pos hopen]

/-! ## Waits -/

/-- **The loop over the messages**: what it finds is the first with the prefix. -/
theorem findIdx_startsWith {pre : Text} {messages : List Text} {index : Nat}
    (h : messages.findIdx? (startsWith pre) = some index) :
    messages.find? (startsWith pre) = some (messages.getD index []) ∧
      messages.eraseIdx index = messages.eraseP (startsWith pre) := by
  constructor
  · obtain ⟨hlt, hfits, hbefore⟩ := List.findIdx?_eq_some_iff_getElem.mp h
    have hget : messages.getD index [] = messages[index] := by
      rw [List.getD_eq_getElem?_getD, List.getElem?_eq_getElem hlt, Option.getD_some]
    rw [hget, List.find?_eq_some_iff_getElem]
    exact ⟨hfits, index, hlt, rfl, fun j hj => by simpa using hbefore j hj⟩
  · rw [List.eraseP_eq_eraseIdx, h]

/-- **`wait_control`**: a wait that returns serves its prefix, and one that raises does so for the
    exit or the deadline, with no message that has the prefix. -/
theorem Received.waitControl (hstream : ControlStream stream) (h : Received stream given p)
    (hbuffer : 0x0a ∉ p.buffer) (pre : Text) (rounds : List Round) :
    ∃ q outcome, p.waitControl pre rounds = (q, outcome) ∧ 0x0a ∉ q.buffer ∧
      match outcome with
      | .returned message => Received stream (given ++ [(pre, message)]) q
      | .raised e => Received stream given q ∧ (e = exitedWithout pre ∨ e = timedOutFor pre) ∧
          ∀ message ∈ q.messages, startsWith pre message = false
      | .waiting => Received stream given q := by
  induction rounds generalizing p with
  | nil => exact ⟨p, .waiting, rfl, hbuffer, h⟩
  | cons round rounds ih =>
    obtain ⟨q, hq, hreceived, hdone, -⟩ := h.receive hstream hbuffer round.sizes
    rw [ControlPipe.waitControl, hq]
    dsimp only
    cases hfind : q.messages.findIdx? (startsWith pre) with
    | some index =>
      -- the message goes out of the list and to the ones that are given
      refine ⟨_, _, rfl, hdone, ?_⟩
      obtain ⟨hfirst, herase⟩ := findIdx_startsWith hfind
      obtain ⟨lines, hlines, heq, hserve⟩ := hreceived
      refine ⟨lines, hlines, heq, ?_⟩
      rw [List.map_append, List.map_append, herase]
      exact serve_concat_eq_some.mpr ⟨_, _, _, hserve, hfirst, rfl, rfl⟩
    | none =>
      have hnone : ∀ message ∈ q.messages, startsWith pre message = false :=
        List.findIdx?_eq_none_iff.mp hfind
      dsimp only
      split
      · exact ⟨q, _, rfl, hdone, hreceived, .inl rfl, hnone⟩
      · split
        · exact ⟨q, _, rfl, hdone, hreceived, .inr rfl, hnone⟩
        · exact ih hreceived hdone

/-- **When a wait returns**: a line with its prefix is there, or comes in before the exit or the
    deadline ends the wait. -/
theorem Received.waitControl_returned_iff (hstream : ControlStream stream)
    (h : Received stream given p) (hbuffer : 0x0a ∉ p.buffer) (pre : Text) (rounds : List Round) :
    (∃ message, (p.waitControl pre rounds).2 = .returned message) ↔
      ∃ before round after, rounds = before ++ round :: after ∧
        (∀ r ∈ before, r.exited = false ∧ r.late = false) ∧
        ∃ m ∈ p.messages ++ p.arrived (bytesOver (before ++ [round])), startsWith pre m = true := by
  induction rounds generalizing p with
  | nil => simp [ControlPipe.waitControl]
  | cons round rounds ih =>
    obtain ⟨q, hq, hreceived, hdone, hbrings⟩ := h.receive hstream hbuffer round.sizes
    have hmessages (before : List Round) : p.messages ++ p.arrived (bytesOver (round :: before)) =
        q.messages ++ q.arrived (bytesOver before) := by
      rw [bytesOver, List.map_cons, List.sum_cons, hbrings.more, hbrings.messages, List.append_assoc]
      rfl
    have hnow : p.messages ++ p.arrived (bytesOver [round]) = q.messages := by
      rw [hbrings.messages, bytesOver, List.map_singleton, List.sum_singleton]
    rw [ControlPipe.waitControl, hq]
    dsimp only
    cases hfind : q.messages.findIdx? (startsWith pre) with
    | some index =>
      refine iff_of_true ⟨_, rfl⟩ ⟨[], round, rounds, rfl, nofun, ?_⟩
      rw [List.nil_append, hnow]
      exact ⟨_, List.mem_of_find?_eq_some (findIdx_startsWith hfind).1,
        List.find?_some (findIdx_startsWith hfind).1⟩
    | none =>
      have hnone : ¬ ∃ m ∈ q.messages, startsWith pre m = true := by
        rintro ⟨m, hm, hfits⟩
        exact Bool.false_ne_true ((List.findIdx?_eq_none_iff.mp hfind m hm).symm.trans hfits)
      -- it is not this round that has the line
      have hlater : (∃ before r after, round :: rounds = before ++ r :: after ∧
            (∀ r ∈ before, r.exited = false ∧ r.late = false) ∧
            ∃ m ∈ p.messages ++ p.arrived (bytesOver (before ++ [r])), startsWith pre m = true) ↔
          (round.exited = false ∧ round.late = false) ∧
          ∃ before r after, rounds = before ++ r :: after ∧
            (∀ r ∈ before, r.exited = false ∧ r.late = false) ∧
            ∃ m ∈ q.messages ++ q.arrived (bytesOver (before ++ [r])),
              startsWith pre m = true := by
        constructor
        · rintro ⟨before, r, after, heq, hbefore, hm⟩
          cases before with
          | nil =>
            cases heq
            rw [List.nil_append, hnow] at hm
            exact absurd hm hnone
          | cons first before =>
            cases heq
            obtain ⟨hround, hbefore⟩ := List.forall_mem_cons.mp hbefore
            rw [List.cons_append, hmessages] at hm
            exact ⟨hround, before, r, after, rfl, hbefore, hm⟩
        · rintro ⟨hround, before, r, after, rfl, hbefore, hm⟩
          refine ⟨round :: before, r, after, rfl, List.forall_mem_cons.mpr ⟨hround, hbefore⟩, ?_⟩
          rw [List.cons_append, hmessages]
          exact hm
      rw [hlater]
      dsimp only
      split
      · next hexited => simp [hexited]
      · next hexited =>
        split
        · next hlate => simp [hlate]
        · next hlate =>
          rw [ih hreceived hdone]
          simp [hexited, hlate]

/-! ## All operations -/

/-- What holds of a run on a stream. -/
structure Delivers (stream : List Nat) (r : ControlRun) : Prop where
  received : Received stream r.given r.pipe
  buffer : 0x0a ∉ r.pipe.buffer
  raised : ∀ e ∈ r.raised, ∃ pre, e = exitedWithout pre ∨ e = timedOutFor pre

/-- **Step lemma**. -/
theorem Delivers.step (hstream : ControlStream stream) {r : ControlRun} (h : Delivers stream r)
    (op : ControlOp) : Delivers stream (r.step op) := by
  cases op with
  | receive sizes =>
    obtain ⟨q, hq, hreceived, hbuffer, -⟩ := h.received.receive hstream h.buffer sizes
    rw [ControlRun.step, hq]
    exact ⟨hreceived, hbuffer, h.raised⟩
  | waitControl pre rounds =>
    obtain ⟨q, outcome, hq, hbuffer, houtcome⟩ :=
      h.received.waitControl hstream h.buffer pre rounds
    rw [ControlRun.step, hq]
    cases outcome with
    | returned message => exact ⟨houtcome, hbuffer, h.raised⟩
    | raised e =>
      obtain ⟨hreceived, he, -⟩ := houtcome
      exact ⟨hreceived, hbuffer,
        List.forall_mem_append.mpr ⟨h.raised, List.forall_mem_singleton.mpr ⟨pre, he⟩⟩⟩
    | waiting => exact ⟨houtcome, hbuffer, h.raised⟩
  | close => exact ⟨h.received, h.buffer, h.raised⟩

/-- **Run lemma**. -/
theorem delivers_controlRun (hstream : ControlStream stream) (ops : List ControlOp) :
    Delivers stream (controlRun stream ops) := by
  have hrun : ∀ (ops : List ControlOp) (r : ControlRun), Delivers stream r →
      Delivers stream (ops.foldl ControlRun.step r) := by
    intro ops
    induction ops with
    | nil => exact fun _ h => h
    | cons op ops ih => exact fun r h => ih _ (h.step hstream op)
  exact hrun ops _ ⟨.start stream, List.not_mem_nil, nofun⟩

/-- What the waits of a run were given, told from the complete lines of the stream: those received
    come first, and the others are left behind the messages. -/
theorem Received.serve_stream {given : List (Text × Text)} {p : ControlPipe}
    (h : Received stream given p) (hbuffer : 0x0a ∉ p.buffer) :
    ∃ read received later, stream = read ++ p.unread ∧
      received = (completeLines read).map messageOf ∧
      received ++ later = (completeLines stream).map messageOf ∧
      later = (completeLines (p.buffer ++ p.unread)).map messageOf ∧
      serve startsWith received (given.map Prod.fst) = some (given.map Prod.snd, p.messages) ∧
      serve startsWith ((completeLines stream).map messageOf) (given.map Prod.fst) =
        some (given.map Prod.snd, p.messages ++ later) := by
  obtain ⟨lines, hlines, hstream, hserve⟩ := h
  have hall : (completeLines stream).map messageOf =
      lines.map messageOf ++ (completeLines (p.buffer ++ p.unread)).map messageOf := by
    rw [hstream, completeLines_terminated hlines, List.map_append]
  have hread : completeLines (terminated lines ++ p.buffer) = lines := by
    rw [completeLines_terminated hlines, completeLines_eq_nil hbuffer, List.append_nil]
  refine ⟨terminated lines ++ p.buffer, _, _, ?_, ?_, hall.symm, rfl, hserve, ?_⟩
  · rw [hstream, List.append_assoc]
  · rw [hread]
  · rw [hall]
    exact serve_append hserve _

end Receive

/-- The control channel, after any operations on a stream of short lines, whatever the chunks. The
    lines received are the complete ones of the bytes that were read; each has been returned by one
    wait or is left, in its order. `receive` reads what there is, and the lines that its bytes complete
    are behind the messages. A wait returns if and only if a line with its prefix is there or comes in
    before a round ends it, and then with the first line of the stream that is left and has the prefix;
    one that raises does so for the exit of the collector or its deadline, with no such message. Two
    runs whose waits return for the same prefixes return the same messages. -/
theorem control_delivers {stream : List Nat} (hstream : ControlStream stream)
    (ops : List ControlOp) :
    let r := controlRun stream ops
    ∃ read received later, stream = read ++ r.pipe.unread ∧
      received = (completeLines read).map messageOf ∧
      received ++ later = (completeLines stream).map messageOf ∧
      (r.pipe.unread = [] → later = []) ∧
      (r.given.map Prod.snd ++ r.pipe.messages).Perm received ∧
      r.pipe.messages.Sublist received ∧
      (∀ sizes, ∃ q, r.pipe.receive sizes = (q, .ok ()) ∧ BringsIn r.pipe (bytesIn sizes) q) ∧
      (∀ n, r.pipe.readFd = true → r.pipe.unread.length ≤ n → r.pipe.arrived n = later) ∧
      (∀ pre rounds, (∃ message, (r.pipe.waitControl pre rounds).2 = .returned message) ↔
        ∃ before round after, rounds = before ++ round :: after ∧
          (∀ earlier ∈ before, earlier.exited = false ∧ earlier.late = false) ∧
          ∃ m ∈ r.pipe.messages ++ r.pipe.arrived (bytesOver (before ++ [round])),
            startsWith pre m = true) ∧
      (∀ pre rounds message, (r.pipe.waitControl pre rounds).2 = .returned message →
        ∃ before after, r.pipe.messages ++ later = before ++ message :: after ∧
          startsWith pre message = true ∧ ∀ m ∈ before, startsWith pre m = false) ∧
      (∀ pre rounds e, (r.pipe.waitControl pre rounds).2 = .raised e →
        (e = exitedWithout pre ∨ e = timedOutFor pre) ∧
          ∀ m ∈ (r.pipe.waitControl pre rounds).1.messages, startsWith pre m = false) ∧
      (∀ e ∈ r.raised, ∃ pre, e = exitedWithout pre ∨ e = timedOutFor pre) ∧
      ∀ ops', (controlRun stream ops').given.map Prod.fst = r.given.map Prod.fst →
        (controlRun stream ops').given = r.given := by
  intro r
  have hr : Delivers stream r := delivers_controlRun hstream ops
  obtain ⟨read, received, later, hread, hlines, hall, hlater, hserve, hserveAll⟩ :=
    hr.received.serve_stream hr.buffer
  refine ⟨read, received, later, hread, hlines, hall, ?_, serve_perm hserve, serve_sublist hserve,
    ?_, ?_, ?_, ?_, ?_, hr.raised, ?_⟩
  -- behind the end of the stream nothing comes in
  · intro hend
    rw [hlater, hend, List.append_nil, completeLines_eq_nil hr.buffer]
    rfl
  · intro sizes
    obtain ⟨q, hq, -, -, hbrings⟩ := hr.received.receive hstream hr.buffer sizes
    exact ⟨q, hq, hbrings⟩
  -- a read of all that is left brings in all later lines
  · intro n hopen hn
    rw [ControlPipe.arrived, if_pos hopen, List.take_of_length_le hn, hlater]
  · exact hr.received.waitControl_returned_iff hstream hr.buffer
  -- the message of a wait is the first of those that are left
  · intro pre rounds message hreturned
    obtain ⟨q, outcome, hq, hbuffer, houtcome⟩ :=
      hr.received.waitControl hstream hr.buffer pre rounds
    rw [hq] at hreturned
    obtain rfl : outcome = .returned message := hreturned
    obtain ⟨_, _, _, -, -, -, -, -, hmore⟩ := Received.serve_stream houtcome hbuffer
    rw [List.map_append, List.map_append] at hmore
    obtain ⟨given, left, a, hbefore, hfind, hgiven, -⟩ := serve_concat_eq_some.mp hmore
    -- what was left before the wait, and the message it took of it
    rw [hserveAll] at hbefore
    cases hbefore
    obtain rfl : message = a := by simpa using hgiven
    obtain ⟨before, after, heq, -, hnone⟩ := exists_of_find hfind
    exact ⟨before, after, heq, List.find?_some hfind, hnone⟩
  -- a wait that raises has seen no such message
  · intro pre rounds e hraised
    obtain ⟨q, outcome, hq, -, houtcome⟩ :=
      hr.received.waitControl hstream hr.buffer pre rounds
    rw [hq] at hraised ⊢
    obtain rfl : outcome = .raised e := hraised
    exact houtcome.2
  -- both runs serve the same requests from the same lines
  · intro ops' hprefixes
    have hr' : Delivers stream (controlRun stream ops') := delivers_controlRun hstream ops'
    obtain ⟨_, _, _, -, -, -, -, -, hserve'⟩ := hr'.received.serve_stream hr'.buffer
    rw [hprefixes, hserveAll] at hserve'
    have hmessages : r.given.map Prod.snd = (controlRun stream ops').given.map Prod.snd :=
      congrArg Prod.fst (Option.some.inj hserve')
    exact (List.zip_of_prod hprefixes hmessages.symm).trans (List.zip_of_prod rfl rfl).symm

/-- Two lines and the beginning of a third. -/
def readyStream : List Nat := text "LX_HEALTH 0\nLX_DONE 1\nLX"

theorem readyStream_short : ControlStream readyStream := by
  constructor
  · decide +kernel
  · have hlines : completeLines readyStream = [text "LX_HEALTH 0", text "LX_DONE 1"] := by
      decide +kernel
    intro line hline
    rw [hlines] at hline
    rcases List.mem_pair.mp hline with rfl | rfl
    all_goals
      exact Utf8.valid_iff_decode.mpr (Option.isSome_iff_exists.mp (by decide +kernel))

/-- A wait that passes over the first line, in one chunk or in four; and a wait for the line after it
    on what the first chunk has read, which returns although the collector has exited. -/
theorem control_delivers_done :
    (controlRun readyStream [.waitControl (text "LX_DONE ") [⟨[1000], false, false⟩]]).given =
      (controlRun readyStream [.receive [5, 9], .waitControl (text "LX_DONE ")
        [⟨[2], false, false⟩, ⟨[1000], true, true⟩]]).given ∧
    ∃ message, ((controlRun readyStream [.receive [5, 9]]).pipe.waitControl (text "LX_DONE ")
      [⟨[2], false, false⟩, ⟨[1000], true, true⟩]).2 = .returned message := by
  constructor
  · obtain ⟨_, _, _, -, -, -, -, -, -, -, -, -, -, -, -, hsame⟩ := control_delivers readyStream_short
      [.receive [5, 9], .waitControl (text "LX_DONE ") [⟨[2], false, false⟩, ⟨[1000], true, true⟩]]
    exact hsame _ (by decide +kernel)
  · obtain ⟨_, _, _, -, -, -, -, -, -, -, -, hreturns, -⟩ :=
      control_delivers readyStream_short [.receive [5, 9]]
    refine (hreturns (text "LX_DONE ") _).mpr
      ⟨[⟨[2], false, false⟩], ⟨[1000], true, true⟩, [], rfl, ?_, ?_⟩
    · decide
    · exact ⟨text "LX_DONE 1", by decide +kernel, by decide +kernel⟩

end LinuxMaxxing.Framework
