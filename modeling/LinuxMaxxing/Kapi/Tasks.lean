import LinuxMaxxing.Framework.Record
import LinuxMaxxing.Lib.ShellWords

/-!
# Task Lines

`show_all_threads` of `kapi.c` prints a line for each task, and `run` of `_run.py` reads the
lines back from `dmesg`: it finds the record in a line, splits it into fields as a shell would
and makes an event of them.

- `showAllThreads`: the lines, with `comm` between double quotes;
- `decodeFields`: the fields of a line, each `key=value`;
- `decodeLog`: the events of a log.

The symbols of a line are ASCII.
-/

namespace LinuxMaxxing.Kapi

open LinuxMaxxing.Lib LinuxMaxxing.Common LinuxMaxxing.Framework

/-! ## `kapi.c` -/

/-- The name of a task: 1 to 15 printable bytes. -/
structure Comm where
  bytes : Text
  length_pos : 0 < bytes.length
  length_le : bytes.length ≤ 15
  printable : ∀ c ∈ bytes, 0x20 ≤ c ∧ c ≤ 0x7e

/-- What is read of a `task_struct`, and where it is. -/
structure TaskStruct where
  tgid : BitVec 32
  pid : BitVec 32
  ppid : BitVec 32
  cpu : BitVec 32
  task : BitVec 64
  stack : BitVec 64
  mm : BitVec 64
  nrThreads : BitVec 32
  comm : Comm

inductive TaskType where
  | idle
  | kthread
  | userMT
  | userST
  deriving DecidableEq, Repr

def TaskType.name : TaskType → String
  | .idle => "idle"
  | .kthread => "kthread"
  | .userMT => "user-MT"
  | .userST => "user-ST"

/-- What a task line has. -/
structure TaskLine where
  tgid : BitVec 32
  pid : BitVec 32
  ppid : BitVec 32
  cpu : BitVec 32
  task : BitVec 64
  stack : BitVec 64
  mm : BitVec 64
  type : TaskType
  comm : Comm

/-- `%d` -/
def printInt (v : BitVec 32) : Text := JsonWriter.signedDecimal v.toInt

/-- `%px` -/
def printPointer (v : BitVec 64) : Text := JsonWriter.zeroPad 16 (JsonWriter.hex v.toNat)

/-- `KAPI_EVT` -/
def kapiEvt (message : Text) : Text := text "KAPI_EVT " ++ message

/-- The format of a task line. -/
def TaskLine.message (l : TaskLine) : Text :=
  text "domain=kapi phase=tasks action=task tgid=" ++ printInt l.tgid ++ text " pid=" ++
    printInt l.pid ++ text " ppid=" ++ printInt l.ppid ++ text " cpu=" ++ printInt l.cpu ++
    text " task=" ++ printPointer l.task ++ text " stack=" ++ printPointer l.stack ++
    text " mm=" ++ printPointer l.mm ++ text " type=" ++ text l.type.name ++ text " comm=\"" ++
    l.comm.bytes ++ text "\""

/-- The line of `show_idle_thread`. -/
def TaskStruct.idleLine (t : TaskStruct) : TaskLine where
  tgid := t.tgid
  pid := t.pid
  ppid := 0
  cpu := 0
  task := t.task
  stack := t.stack
  mm := t.mm
  type := .idle
  comm := t.comm

/-- The line of a thread in `show_all_threads`. -/
def TaskStruct.line (t : TaskStruct) : TaskLine where
  tgid := t.tgid
  pid := t.pid
  ppid := t.ppid
  cpu := t.cpu
  task := t.task
  stack := t.stack
  mm := t.mm
  type := if t.mm = 0 then .kthread else if 1 < t.nrThreads.toInt then .userMT else .userST
  comm := t.comm

/-- `show_all_threads`: what it prints and the number it returns. -/
def showAllThreads (initTask : TaskStruct) (threads : List TaskStruct) : List Text × Nat :=
  (kapiEvt (text "domain=kapi phase=tasks action=begin") ::
    kapiEvt initTask.idleLine.message :: threads.map fun t => kapiEvt t.line.message,
    1 + threads.length)

/-! ## `dmesg` -/

/-- The time of a message. -/
structure Stamp where
  padding : Nat
  seconds : Nat
  microseconds : Nat

/-- A message as `dmesg` shows it. -/
def dmesgLine (stamp : Stamp) (message : Text) : Text :=
  text "[" ++ List.replicate stamp.padding 0x20 ++ JsonWriter.decimal stamp.seconds ++ text "." ++
    JsonWriter.zeroPad 6 (JsonWriter.decimal stamp.microseconds) ++ text "] " ++ message

/-! ## `_run.py` -/

/-- What ends the decoding: a `LabError`, or an exception of the library. -/
inductive RunError where
  | invalidRecord
  | invalidField (token : Text)
  | unsupported (value : PyValue)
  | keyError
  | valueError
  | typeError
  deriving Repr

/-- `\[\s*(\d+\.\d+)\]\s+KAPI_EVT (.*)` at the start of a text: its two groups. -/
def matchRecord (s : Text) : Option (Text × Text) :=
  match s with
  | 0x5b :: r =>
    let r := r.dropWhile isPySpace
    let whole := r.takeWhile Json.isDigit
    match r.dropWhile Json.isDigit with
    | 0x2e :: r =>
      let fraction := r.takeWhile Json.isDigit
      match r.dropWhile Json.isDigit with
      | 0x5d :: r =>
        let tail := r.dropWhile isPySpace
        if whole ≠ [] ∧ fraction ≠ [] ∧ r.head?.any isPySpace ∧ text "KAPI_EVT " <+: tail then
          some (whole ++ [0x2e] ++ fraction, (tail.drop 9).takeWhile (· ≠ 0x0a))
        else none
      | _ => none
    | _ => none
  | _ => none

/-- `re.search` for it. -/
def searchRecord : Text → Option (Text × Text)
  | [] => none
  | c :: cs =>
    match matchRecord (c :: cs) with
    | some groups => some groups
    | none => searchRecord cs

/-- `int(Decimal(stamp) * 1_000_000_000)`, exact up to the 28 digits of a `Decimal`. -/
def nanoseconds (stamp : Text) : Nat :=
  let fraction := (stamp.dropWhile (· ≠ 0x2e)).drop 1
  Json.natOfDigits (stamp.takeWhile (· ≠ 0x2e) ++ fraction) * 10 ^ 9 / 10 ^ fraction.length

/-- `[0-9a-f]{16}` -/
def isPointer (value : Text) : Bool :=
  value.length = 16 && value.all fun c => Json.isDigit c || (0x61 ≤ c && c ≤ 0x66)

/-- The value of a field; 16 zeros are `None`. -/
def fieldValue (value : Text) : Option Text :=
  if isPointer value then
    if value.any (· ≠ 0x30) then some (text "0x" ++ value) else none
  else some value

/-- The loop over the tokens; `data` in the order of its keys. -/
def decodeFields : List (Text × Option Text) → List Text →
    Except RunError (List (Text × Option Text))
  | data, [] => .ok data
  | data, token :: tokens =>
    -- `token.partition("=")`
    let key := token.takeWhile (· ≠ 0x3d)
    let value := (token.dropWhile (· ≠ 0x3d)).drop 1
    if 0x3d ∉ token ∨ (data.lookup key).isSome then .error (.invalidField token)
    else decodeFields (data ++ [(key, fieldValue value)]) tokens

/-- A text or `None`. -/
def fieldPy : Option Text → PyValue
  | none => .none
  | some s => .str s

/-- `data[key]` -/
def item (data : List (Text × Option Text)) (key : String) : Except RunError PyValue :=
  match data.lookup (text key) with
  | none => .error .keyError
  | some v => .ok (fieldPy v)

/-- `int(value)`: a sign and digits, which may have an underscore between them. -/
def pyInt (s : Text) : Option Int :=
  let s := ((s.dropWhile isPySpace).reverse.dropWhile isPySpace).reverse
  let digits := if s.head? = some 0x2d ∨ s.head? = some 0x2b then s.tail else s
  if (digits.splitOn 0x5f).all (fun g => g ≠ [] && g.all Json.isDigit) then
    let n : Int := Json.natOfDigits (digits.filter (· ≠ 0x5f))
    some (if s.head? = some 0x2d then -n else n)
  else none

/-- `int(data[key]) if key in data else None` -/
def optionalInt (data : List (Text × Option Text)) (key : String) : Except RunError PyValue :=
  match data.lookup (text key) with
  | none => .ok .none
  | some none => .error .typeError
  | some (some s) =>
    match pyInt s with
    | some z => .ok (.int z)
    | none => .error .valueError

/-- The event of a record's fields; `other` is `str` of what is no text. -/
def decodeRecord (other : PyValue → Text) (stamp : Text) (data : List (Text × Option Text)) :
    Except RunError PyValue := do
  let action ← item data "action"
  let phase ← item data "phase"
  let cpu ← optionalInt data "cpu"
  let pid ← optionalInt data "tgid"
  let tid ← optionalInt data "pid"
  let comm := ((data.lookup (text "comm")).map fieldPy).getD .none
  match record other (text "kapi") (text "module") (text "module") (text "guest") action
      (JsonWriter.decimal (nanoseconds stamp)) (.dict (data.map fun f => (f.1, fieldPy f.2)))
      (.str (text "kapi:printk"))
      [(text "phase", phase), (text "cpu", cpu), (text "pid", pid), (text "tid", tid),
        (text "comm", comm)] with
  | .ok event => .ok event
  | .error e => .error (.unsupported e.value)

/-- The event of a line. -/
def decodeLine (other : PyValue → Text) (line : Text) : Except RunError PyValue :=
  match searchRecord line with
  | none => .error .invalidRecord
  | some (stamp, message) =>
    match ShellWords.split message with
    | .error _ => .error .valueError
    | .ok tokens => do
      let data ← decodeFields [] tokens
      decodeRecord other stamp data

/-- The text that `run` writes to `/dev/kmsg` before it loads the module. -/
def marker (pid acquired : Nat) : Text :=
  text "LAB_KAPI_BEGIN_" ++ JsonWriter.decimal pid ++ text "_" ++ JsonWriter.decimal acquired

/-- The loop over the lines of `dmesg`. -/
def decodeLog (other : PyValue → Text) (marker : Text) : Bool → List Text →
    Except RunError (List PyValue)
  | _, [] => .ok []
  | active, line :: lines =>
    if marker <:+: line then decodeLog other marker true lines
    else if active ∧ text "KAPI_EVT " <:+: line then do
      let event ← decodeLine other line
      return event :: (← decodeLog other marker active lines)
    else decodeLog other marker active lines

end LinuxMaxxing.Kapi
