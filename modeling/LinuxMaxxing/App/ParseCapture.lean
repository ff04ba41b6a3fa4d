import LinuxMaxxing.Lib.JsonLines
import LinuxMaxxing.Framework.PythonValue

/-!
# Reading a Capture in the Dashboard

`parseCapture` of `app/common.js`. A text is the list of its UTF-16 code units, as it is
in JavaScript. The values are those of `JSON.parse`: every number is a double, and of
two members with one name the last counts. An absent property is `none`.
-/

namespace LinuxMaxxing.App

open LinuxMaxxing.Lib
open LinuxMaxxing.Framework (Text text)

/-! ## Values -/

/-- The values of `JSON.parse`. -/
inductive JsValue where
  | null
  | bool (b : Bool)
  | num (x : Double)
  | str (s : Text)
  | arr (vs : List JsValue)
  | obj (ms : List (Text × JsValue))
  deriving Repr

namespace JsValue

/-- A member of an object that is being built; it takes the place of one of the same
    name. -/
def setMember (ms : List (Text × JsValue)) (k : Text) (v : JsValue) : List (Text × JsValue) :=
  if (ms.map Prod.fst).contains k then ms.map fun m => if m.1 = k then (k, v) else m
  else ms ++ [(k, v)]

mutual

/-- The value of a document. -/
def load : Json.Value → JsValue
  | .null => .null
  | .bool b => .bool b
  | .num n => .num n.double
  | .str s => .str s
  | .arr vs => .arr (loadList vs)
  | .obj ms => .obj ((loadMembers ms).foldl (fun o m => setMember o m.1 m.2) [])

def loadList : List Json.Value → List JsValue
  | [] => []
  | v :: vs => load v :: loadList vs

def loadMembers : List (Text × Json.Value) → List (Text × JsValue)
  | [] => []
  | (k, v) :: ms => (k, load v) :: loadMembers ms

end

/-- `value.name`; the names that `parseCapture` reads are no properties of arrays,
    strings, numbers or truth values. -/
def prop (value : JsValue) (name : String) : Option JsValue :=
  match value with
  | .obj ms => ms.lookup (text name)
  | _ => none

/-- Whether a value counts as true. -/
def truthy : JsValue → Bool
  | .null => false
  | .bool b => b
  | .num x => x ≠ .exact 0
  | .str s => s ≠ []
  | .arr _ => true
  | .obj _ => true

/-- `value === "…"` -/
def isStr (value : Option JsValue) (s : Text) : Bool :=
  match value with
  | some (.str t) => t = s
  | _ => false

/-- `value === n` -/
def isNumber (value : Option JsValue) (n : Nat) : Bool :=
  match value with
  | some (.num x) => x = .exact n
  | _ => false

/-- `[…].includes(value)` for an array of strings. -/
def isOneOf (value : Option JsValue) (names : List String) : Bool :=
  names.any fun n => isStr value (text n)

end JsValue

/-! ## `parseCapture` -/

open JsValue

/-- What `parseCapture` throws. -/
inductive JsError where
  | empty
  | invalidJson (record : Nat)
  | invalidEnvelope (record : Nat)
  | incomplete
  deriving DecidableEq, Repr

/-- White space and line terminators, which `trim` and `trimEnd` remove. -/
def isJsSpace (c : Nat) : Bool :=
  (0x09 ≤ c && c ≤ 0x0d) || c = 0x20 || c = 0xa0 || c = 0x1680 || (0x2000 ≤ c && c ≤ 0x200a) ||
    c = 0x2028 || c = 0x2029 || c = 0x202f || c = 0x205f || c = 0x3000 || c = 0xfeff

/-- `text.trimEnd()` -/
def trimEnd (s : Text) : Text := s.rdropWhile isJsSpace

/-- A string that matches `/^\d+$/`. -/
def isDigits (value : Option JsValue) : Bool :=
  match value with
  | some (.str s) => s ≠ [] && s.all Json.isDigit
  | _ => false

/-- The envelope of the record with this number. -/
def envelopeOk (experiment : Text) (record : Nat) (event : JsValue) : Bool :=
  event.truthy && isStr (event.prop "experiment") experiment &&
  isNumber (event.prop "sequence") record &&
  (match event.prop "source" with
    | some source => source.truthy && isOneOf (source.prop "domain") ["host", "guest"] &&
      (match source.prop "domain" with
        | some (.str domain) =>
          isStr (event.prop "clock_domain") (domain ++ text ":monotonic")
        | _ => false)
    | none => false) &&
  isDigits (event.prop "timestamp_ns") &&
  (match event.prop "kind" with
    | some (.str kind) => kind ≠ []
    | _ => false) &&
  ((event.prop "context").any truthy) &&
  (match event.prop "data" with
    | some (.obj _) => true
    | _ => false) &&
  (match event.prop "quality" with
    | some quality => quality.truthy &&
      isOneOf (quality.prop "status") ["complete", "partial", "unavailable"]
    | none => false)

/-- One line of the capture. -/
def parseLine (experiment : Text) (record : Nat) (line : Text) : Except JsError JsValue :=
  match Json.parseDocument Json.codeUnits line with
  | none => .error (.invalidJson record)
  | some v =>
    if envelopeOk experiment record (load v) then .ok (load v)
    else .error (.invalidEnvelope record)

def parseLines (experiment : Text) (record : Nat) : List Text → Except JsError (List JsValue)
  | [] => .ok []
  | line :: lines =>
    match parseLine experiment record line with
    | .error e => .error e
    | .ok event =>
      match parseLines experiment (record + 1) lines with
      | .error e => .error e
      | .ok events => .ok (event :: events)

/-- `BigInt(event.timestamp_ns)` of a string of digits. -/
def timestampOf (event : JsValue) : Nat :=
  match event.prop "timestamp_ns" with
  | some (.str s) => Json.natOfDigits s
  | _ => 0

/-- The clock domain of an event. -/
def clockDomainOf (event : JsValue) : Text :=
  match event.prop "clock_domain" with
  | some (.str s) => s
  | _ => []

/-- The earliest time of each clock domain. -/
def originsOf (events : List JsValue) : List (Text × Nat) :=
  events.foldl (fun origins event =>
    let time := timestampOf event
    match origins.lookup (clockDomainOf event) with
    | some earlier =>
      if time < earlier then (clockDomainOf event, time) :: origins else origins
    | none => (clockDomainOf event, time) :: origins) []

/-- What `parseCapture` returns. -/
structure Capture where
  events : List JsValue
  experiment : Text
  origins : List (Text × Nat)
  partialEvents : Nat

/-- Whether the records are those of a finished capture. -/
def completeCapture (events : List JsValue) : Bool :=
  3 ≤ events.length &&
  isStr ((events.headD .null).prop "kind") (text "capture_started") &&
  isStr ((events.getLastD .null).prop "kind") (text "capture_finished") &&
  (match ((events.getLastD .null).prop "data").bind fun data => data.prop "validated" with
    | some (.bool true) => true
    | _ => false) &&
  !events.any fun event => isStr (event.prop "kind") (text "capture_failed")

/-- The capture of these events. -/
def captureOf (experiment : Text) (events : List JsValue) : Capture where
  events := events
  experiment := experiment
  origins := originsOf events
  partialEvents := events.countP fun event =>
    !isStr ((event.prop "quality").bind fun q => q.prop "status") (text "complete")

/-- `parseCapture` -/
def parseCapture (content experiment : Text) : Except JsError Capture :=
  if content.all isJsSpace then .error .empty
  else
    match parseLines experiment 1 (JsonLines.splitCrLf (trimEnd content)) with
    | .error e => .error e
    | .ok events =>
      if completeCapture events then .ok (captureOf experiment events) else .error .incomplete

end LinuxMaxxing.App
