import LinuxMaxxing.Lib.JsonLines
import LinuxMaxxing.Framework.Loads

/-!
# Validation of a Capture

`validate` of `runtime.py` with all it calls: `ndjson`, `check_type`,
`validate_record`, `validate_evidence` and `manifest`. The files it reads next to the
capture are the parameter `Repo`.

- `checkType`: a payload against its contract, by recursion on the payload;
- `validateRecord`: the envelope of one record, then its payload;
- `validate`: all records of a file, in order;
- `validateRecord_ok`: what an accepted record looks like.
-/

namespace LinuxMaxxing.Framework

open LinuxMaxxing.Lib

/-! ## Payload contracts -/

/-- The `type` of a contract. -/
inductive TypeName where
  | object
  | array
  | boolean
  | string
  | integer64
  | hex
  | null
  | other (name : Text)
  deriving DecidableEq, Repr

/-- A contract of `payloads.json`, with what it has of `$ref`, `nullable`, `type`,
    `fields`, `required` and `items`. -/
inductive Spec where
  | mk (ref : Option Text) (nullable : Bool) (typ : Option TypeName)
    (fields : Option (List (Text × Spec))) (required : List Text) (items : Option Spec)

namespace Spec

def ref : Spec → Option Text
  | .mk ref _ _ _ _ _ => ref

def nullable : Spec → Bool
  | .mk _ nullable _ _ _ _ => nullable

def typ : Spec → Option TypeName
  | .mk _ _ typ _ _ _ => typ

def fields : Spec → Option (List (Text × Spec))
  | .mk _ _ _ fields _ _ => fields

def required : Spec → List Text
  | .mk _ _ _ _ required _ => required

def items : Spec → Option Spec
  | .mk _ _ _ _ _ items => items

end Spec

/-- The contracts of an experiment by `mechanism:kind`, and its `$defs`. -/
structure Catalog where
  entries : List (Text × Spec)
  defs : Option (List (Text × Spec))

namespace Catalog

/-- `catalog.update(other)` -/
def update (catalog other : Catalog) : Catalog where
  entries := other.entries ++ catalog.entries
  defs := other.defs.or catalog.defs

/-- `catalog.get("$defs")` as the `types` of `check_type`. -/
def types (catalog : Catalog) : List (Text × Spec) := catalog.defs.getD []

end Catalog

/-- The contract that a `$ref` names, one step. -/
def resolve (types : List (Text × Spec)) (spec : Spec) : Except PyExn Spec :=
  match spec.ref with
  | none => .ok spec
  | some n =>
    match types.lookup n with
    | some s => .ok s
    | none => .error .keyError

/-! ## `check_type` -/

def isDigit19 (c : Nat) : Bool := 0x31 ≤ c && c ≤ 0x39

/-- `0|[1-9][0-9]*` -/
def isNatural (s : Text) : Bool :=
  match s with
  | [] => false
  | c :: r => (c = 0x30 && r = []) || (isDigit19 c && r.all Json.isDigit)

/-- `-?(0|[1-9][0-9]*)` -/
def isDecimal (s : Text) : Bool :=
  isNatural s || (s.head? = some 0x2d && isNatural s.tail)

/-- `0x[0-9a-f]+` -/
def isHexadecimal (s : Text) : Bool :=
  s.take 2 = text "0x" && s.drop 2 ≠ [] &&
    (s.drop 2).all fun c => Json.isDigit c || (0x61 ≤ c && c ≤ 0x66)

/-- The error for a value that is not of its declared type. -/
def wrongType (typ : Option TypeName) (path : Text) : Except PyExn Unit :=
  match typ with
  | none => .error .keyError
  | some .object => .error (.lab (.mustBeObject path))
  | some .array => .error (.lab (.mustBeArray path))
  | some .boolean => .error (.lab (.mustBeBoolean path))
  | some .string => .error (.lab (.mustBeString path))
  | some .integer64 => .error (.lab (.mustBeString path))
  | some .hex => .error (.lab (.mustBeString path))
  | some .null => .error (.lab (.onlyNull path))
  | some (.other name) => .error (.lab (.unknownType name))

mutual

/-- `check_type`; a type and a value that do not go together are one case. -/
def checkType (types : List (Text × Spec)) (value : PyValue) (spec : Spec) (path : Text) :
    Except PyExn Unit :=
  match resolve types spec with
  | .error e => .error e
  | .ok spec =>
    match value with
    | .none => orRaise spec.nullable (.cannotBeNull path)
    | .dict ms =>
      match spec.typ with
      | some .object =>
        match spec.fields with
        | none => .error .keyError
        | some props =>
          let unknown := (ms.map Prod.fst).filter fun k => (props.lookup k).isNone
          let missing := spec.required.filter fun k => (ms.lookup k).isNone
          if unknown = [] ∧ missing = [] then checkMembers types ms props path
          else .error (.lab (.fields path unknown missing))
      | typ => wrongType typ path
    | .list vs =>
      match spec.typ with
      | some .array => checkItems types vs spec.items path
      | typ => wrongType typ path
    | .bool _ =>
      match spec.typ with
      | some .boolean => .ok ()
      | typ => wrongType typ path
    | .str s =>
      match spec.typ with
      | some .string => .ok ()
      | some .integer64 => orRaise (isDecimal s) (.mustBeDecimal path)
      | some .hex => orRaise (isHexadecimal s) (.mustBeHexadecimal path)
      | typ => wrongType typ path
    | .int _ => wrongType spec.typ path
    | .float _ => wrongType spec.typ path

/-- The children of an array; `spec["items"]` is read for each of them. -/
def checkItems (types : List (Text × Spec)) (vs : List PyValue) (items : Option Spec)
    (path : Text) : Except PyExn Unit :=
  match vs with
  | [] => .ok ()
  | v :: vs =>
    match items with
    | none => .error .keyError
    | some spec => do
      checkType types v spec (path ++ text "[]")
      checkItems types vs (some spec) path

/-- The members of an object, each against `props[key]`. -/
def checkMembers (types : List (Text × Spec)) (ms : List (Text × PyValue))
    (props : List (Text × Spec)) (path : Text) : Except PyExn Unit :=
  match ms with
  | [] => .ok ()
  | (k, v) :: ms =>
    match props.lookup k with
    | none => .error .keyError
    | some spec => do
      checkType types v spec (path ++ text "." ++ k)
      checkMembers types ms props path

end

/-! ## `validate_record` -/

/-- `ENVELOPE` -/
def envelope : List String :=
  ["experiment", "sequence", "source", "kind", "timestamp_ns", "clock_domain", "context",
    "quality", "data"]

/-- `CONTEXT` -/
def contextKeys : List String := ["cpu", "pid", "tid", "comm", "phase", "operation"]

/-- The collection mechanisms. -/
def mechanisms : List String :=
  ["framework", "ebpf", "tracefs", "workload", "module", "sysfs"]

/-- The envelope's keys, its experiment and its sequence number. -/
def checkEnvelope (event : PyValue) (name : Text) (sequence : Nat) : Except PyExn Unit := do
  orRaise (← event.keysAre envelope) (.invalidEnvelope sequence)
  orRaise ((← event.getItem "experiment").isText name) (.invalidEnvelope sequence)
  orRaise ((← event.getItem "sequence").eq (.int sequence)) (.invalidEnvelope sequence)

/-- A decimal text. -/
def checkTimestamp (event : PyValue) : Except PyExn Unit := do
  match ← event.getItem "timestamp_ns" with
  | .str s => orRaise (isNatural s) .invalidTimestamp
  | _ => .error (.lab .invalidTimestamp)

/-- The domain of `source` and the clock that belongs to it. -/
def checkClockDomain (event source : PyValue) : Except PyExn Unit := do
  let domain ← source.getItem "domain"
  orRaise (domain.isOneOf ["host", "guest"]) .invalidClockDomain
  let clock ← event.getItem "clock_domain"
  match domain with
  | .str d => orRaise (clock.isText (d ++ text ":monotonic")) .invalidClockDomain
  | _ => .error .typeError

/-- `source`, its clock domain and its mechanism. -/
def checkSource (event : PyValue) : Except PyExn Unit := do
  let source ← event.getItem "source"
  orRaise (← source.keysAre ["collector", "mechanism", "domain", "hook"]) .invalidSource
  checkClockDomain event source
  orRaise ((← source.getItem "mechanism").isOneOf mechanisms) .unknownMechanism

/-- `None`, or an integer of 32 bits; `True` is no integer here. -/
def isContextNumber : PyValue → Bool
  | .none => true
  | .int z => 0 ≤ z && z < 2 ^ 32
  | _ => false

/-- `None` or a text. -/
def isContextText : PyValue → Bool
  | .none => true
  | .str _ => true
  | _ => false

/-- The fields of `context` with the same check. -/
def checkContextFields (ctx : PyValue) (check : PyValue → Bool) : List String → Except PyExn Unit
  | [] => .ok ()
  | key :: keys => do
    orRaise (check (← ctx.getItem key)) (.invalidContextField (text key))
    checkContextFields ctx check keys

def checkContext (event : PyValue) : Except PyExn Unit := do
  let ctx ← event.getItem "context"
  orRaise (← ctx.keysAre contextKeys) .invalidContext
  checkContextFields ctx isContextNumber ["cpu", "pid", "tid"]
  checkContextFields ctx isContextText ["comm", "phase", "operation"]

/-- `isinstance(value, list)` -/
def isList : PyValue → Bool
  | .list _ => true
  | _ => false

def checkQuality (event : PyValue) : Except PyExn Unit := do
  let q ← event.getItem "quality"
  orRaise (← q.keysAre ["status", "reasons"]) .invalidQuality
  orRaise ((← q.getItem "status").isOneOf ["complete", "partial", "unavailable"]) .invalidQuality
  orRaise (isList (← q.getItem "reasons")) .invalidQuality
  orRaise ((← q.getItem "status").isText (text "complete") == (← q.getItem "reasons").eq (.list []))
    .qualityDisagrees

/-- The payload against the contract of its mechanism and kind. -/
def checkPayload (event : PyValue) (catalog : Catalog) : Except PyExn Unit := do
  let source ← event.getItem "source"
  let mechanism ← source.getItem "mechanism"
  let kind ← event.getItem "kind"
  match mechanism, kind with
  | .str m, .str k =>
    match catalog.entries.lookup (m ++ text ":" ++ k) with
    | none => .error (.lab (.unregistered (m ++ text ":" ++ k)))
    | some spec => do
      let data ← event.getItem "data"
      checkType catalog.types data spec (text "data")
  | _, _ => .error .typeError

/-- `validate_record` -/
def validateRecord (event : PyValue) (name : Text) (catalog : Catalog) (sequence : Nat) :
    Except PyExn Unit := do
  checkEnvelope event name sequence
  checkTimestamp event
  checkSource event
  checkContext event
  checkQuality event
  checkPayload event catalog

/-! ## `ndjson` -/

/-- The symbols that `str.strip` removes. -/
def isPySpace (c : Nat) : Bool :=
  (0x09 ≤ c && c ≤ 0x0d) || (0x1c ≤ c && c ≤ 0x20) || c = 0x85 || c = 0xa0 || c = 0x1680 ||
    (0x2000 ≤ c && c ≤ 0x200a) || c = 0x2028 || c = 0x2029 || c = 0x202f || c = 0x205f ||
    c = 0x3000

/-- One line of `ndjson`. A `RecursionError` is no `ValueError`, and passes. -/
def ndjsonLine (limits : Limits) (index : Nat) (line : Text) : Except PyExn PyValue :=
  if line.all isPySpace then .error (.lab (.blankRecord index))
  else
    match loads limits line with
    | .ok value => .ok value
    | .error .value => .error (.lab (.invalidJson index))
    | .error .recursion => .error .recursionError

def ndjsonLines (limits : Limits) (index : Nat) : List Text → Except PyExn (List PyValue)
  | [] => .ok []
  | line :: lines => do
    let value ← ndjsonLine limits index line
    let values ← ndjsonLines limits (index + 1) lines
    return value :: values

/-- `list(ndjson(path))` on the content of the file. -/
def ndjson (limits : Limits) (content : Text) : Except PyExn (List PyValue) :=
  ndjsonLines limits 1 (JsonLines.linesOf content)

/-! ## `validate_evidence` -/

/-- The fields of `experiment.json` that the validation reads. -/
structure Manifest where
  name : Text
  required : List Text
  allowPartial : Bool

/-- The files next to the capture: the experiments, their manifests and payload
    contracts, and `lifecycle.json`. -/
structure Repo where
  names : List Text
  manifest : Text → Manifest
  payloads : Text → Option Catalog
  lifecycle : Catalog

/-- `manifest` -/
def manifest (repo : Repo) (name : Text) : Except PyExn Manifest := do
  orRaise (repo.names.contains name) (.unknownExperiment name)
  orRaise ((repo.manifest name).name = name) .manifestName
  return repo.manifest name

/-- The events of one kind. -/
def ofKind (kind : String) : List PyValue → Except PyExn (List PyValue)
  | [] => .ok []
  | e :: events => do
    let k ← e.getItem "kind"
    let rest ← ofKind kind events
    return if k.isText (text kind) then e :: rest else rest

/-- `counter[value]` -/
def count (counter : List PyValue) (value : PyValue) : Nat := counter.countP fun e => e.eq value

/-- `a == b` for two counters. -/
def counterEq (a b : List PyValue) : Bool := (a ++ b).all fun e => count a e = count b e

/-- `require` of `validate_evidence` -/
def require (condition : Bool) (message : Text) : Except PyExn Unit :=
  orRaise condition (.evidence message)

def requireKinds (kinds : List PyValue) : List Text → Except PyExn Unit
  | [] => .ok ()
  | kind :: required => do
    require (0 < count kinds (.str kind)) (text "missing " ++ kind)
    requireKinds kinds required

/-- The `Counter` of the collectors that the events of one kind name. -/
def collectorsOf (kind : String) : List PyValue → Except PyExn (List PyValue)
  | [] => .ok []
  | e :: events => do
    let k ← e.getItem "kind"
    if k.isText (text kind) then
      let collector ← (← e.getItem "data").getItem "collector"
      if collector.hashable then
        return collector :: (← collectorsOf kind events)
      else throw .typeError
    else collectorsOf kind events

/-- `value.get(key, default)` -/
def getOr (value : PyValue) (key : String) (default : PyValue) : Except PyExn PyValue :=
  match value with
  | .dict ms => .ok ((ms.lookup (text key)).getD default)
  | _ => .error .attributeError

def requireNoLoss (event : PyValue) : Except PyExn Unit := do
  let dropped ← (← event.getItem "data").getItem "dropped"
  let failures ← (← event.getItem "data").getItem "failures"
  require (dropped.eq failures && failures.isText (text "0")) (text "collector reported evidence loss")

def requireSummary (event : PyValue) : Except PyExn Unit := do
  let state ← getOr (← event.getItem "data") "state" (.dict [])
  let dropped ← getOr state "ringbuf_dropped" .none
  let short ← getOr state "short_records" .none
  require (dropped.isText (text "0") && short.isText (text "0"))
    (text "observer summary reports loss")

/-- The loop over all events. -/
def requireEvents (allowPartial : Bool) : List PyValue → Except PyExn Unit
  | [] => .ok ()
  | event :: events => do
    let kind ← event.getItem "kind"
    if kind.isText (text "collector_finished") then requireNoLoss event
    let status ← (← event.getItem "quality").getItem "status"
    if !status.isText (text "complete") then
      require (allowPartial && status.isText (text "partial")) (text "undeclared partial observation")
    if kind.isText (text "collector_summary") then requireSummary event
    requireEvents allowPartial events

/-- How many events of one kind come from one mechanism. -/
def selected (kind mechanism : String) (events : List PyValue) : Except PyExn Nat := do
  let ofThisKind ← ofKind kind events
  let sources ← ofThisKind.mapM fun e => do (← e.getItem "source").getItem "mechanism"
  return sources.countP fun m => m.isText (text mechanism)

/-- The data of a successful `capture_finished`. -/
def successful : PyValue :=
  .dict [(text "validated", .bool true), (text "restored", .bool true)]

/-- `validate_evidence` -/
def validateEvidence (repo : Repo) (name : Text) (events : List PyValue) : Except PyExn Unit := do
  let cfg ← manifest repo name
  let kinds ← events.mapM fun e => e.getItem "kind"
  requireKinds kinds cfg.required
  require (count kinds (.str (text "capture_started")) = count kinds (.str (text "capture_finished")) &&
    count kinds (.str (text "capture_finished")) = 1) (text "exactly one capture lifetime required")
  let last := events.getLastD .none
  let data ← last.getItem "data"
  require (data.eq successful) (text "unsuccessful final status")
  let ready ← collectorsOf "collector_ready" events
  let done ← collectorsOf "collector_finished" events
  require (!ready.isEmpty && counterEq ready done) (text "collector readiness/completion mismatch")
  requireEvents cfg.allowPartial events
  let enters ← selected "sys_enter_ioctl" "ebpf" events
  let exits ← selected "sys_exit_ioctl" "ebpf" events
  require (enters = exits) (text "unpaired ioctl event counts")

/-! ## `validate` -/

/-- The records in order, numbered from `sequence` on. -/
def validateRecords (name : Text) (catalog : Catalog) (sequence : Nat) :
    List PyValue → Except PyExn Unit
  | [] => .ok ()
  | event :: events => do
    validateRecord event name catalog sequence
    validateRecords name catalog (sequence + 1) events

/-- The first and the last kind of a capture. -/
def checkLifecycle (events : List PyValue) : Except PyExn Unit := do
  orRaise (3 ≤ events.length) .incompleteLifecycle
  let first ← (events.headD .none).getItem "kind"
  orRaise (first.isText (text "capture_started")) .incompleteLifecycle
  let last ← (events.getLastD .none).getItem "kind"
  orRaise (last.isText (text "capture_finished")) .incompleteLifecycle

/-- The contracts of an experiment with those of the capture's lifecycle. -/
def catalogOf (repo : Repo) (name : Text) : Except PyExn Catalog :=
  match repo.payloads name with
  | none => .error .osError
  | some payloads => .ok (payloads.update repo.lifecycle)

/-- `validate` -/
def validate (limits : Limits) (repo : Repo) (content : Text) (name : Text) (evidence : Bool) :
    Except PyExn (List PyValue) := do
  let catalog ← catalogOf repo name
  let events ← ndjson limits content
  checkLifecycle events
  validateRecords name catalog 1 events
  let failed ← ofKind "capture_failed" events
  orRaise failed.isEmpty .failedCapture
  if evidence then validateEvidence repo name events
  return events

/-! ## What `check_type` accepts -/

theorem wrongType_ne_ok (typ : Option TypeName) (path : Text) : wrongType typ path ≠ .ok () := by
  unfold wrongType
  split <;> exact nofun

/-- No contract has a number. -/
theorem not_number_of_checkType {types : List (Text × Spec)} {value : PyValue} {spec : Spec}
    {path : Text} (h : checkType types value spec path = .ok ()) :
    (∀ z, value ≠ .int z) ∧ ∀ x, value ≠ .float x := by
  rw [checkType.eq_def] at h
  split at h
  · cases h
  · next s _ =>
    constructor
    · rintro z rfl
      exact wrongType_ne_ok s.typ path h
    · rintro x rfl
      exact wrongType_ne_ok s.typ path h

/-- A contract that is an object, and not null, has a dictionary. -/
theorem dict_of_checkType {types : List (Text × Spec)} {value : PyValue} {spec s : Spec}
    {path : Text} (h : checkType types value spec path = .ok ())
    (hresolve : resolve types spec = .ok s) (htyp : s.typ = some .object)
    (hnull : s.nullable = false) :
    ∃ ms props, value = .dict ms ∧ checkMembers types ms props path = .ok () := by
  rw [checkType.eq_def, hresolve] at h
  simp only [htyp, hnull] at h
  cases value with
  | dict ms =>
    simp only at h
    split at h
    · cases h
    · next props _ =>
      split at h
      · exact ⟨ms, props, rfl, h⟩
      · cases h
  | _ => exact absurd h nofun

theorem checkMembers_ok {types : List (Text × Spec)} {ms : List (Text × PyValue)}
    {props : List (Text × Spec)} {path : Text} (h : checkMembers types ms props path = .ok ()) :
    ∀ m ∈ ms, ∃ spec path', checkType types m.2 spec path' = .ok () := by
  induction ms with
  | nil => exact fun m hm => by cases hm
  | cons m ms ih =>
    obtain ⟨k, v⟩ := m
    rw [checkMembers.eq_def] at h
    simp only at h
    split at h
    · cases h
    · next spec _ =>
      obtain ⟨_, hfirst, hrest⟩ := bind_eq_ok.mp h
      intro m hm
      rcases List.mem_cons.mp hm with rfl | hm
      · exact ⟨spec, _, hfirst⟩
      · exact ih hrest m hm

/-! ## What an accepted record looks like -/

/-- The parts of an accepted record that its readers rely on. -/
structure Accepted (event : PyValue) (name : Text) (catalog : Catalog) (sequence : Nat)
    (ms : List (Text × PyValue)) : Prop where
  event_eq : event = .dict ms
  experiment : ms.lookup (text "experiment") = some (.str name)
  sequence : ∃ s, ms.lookup (text "sequence") = some s ∧ s.eq (.int sequence) = true
  timestamp : ∃ t, ms.lookup (text "timestamp_ns") = some (.str t) ∧ isNatural t = true
  source : ∃ sm domain, ms.lookup (text "source") = some (.dict sm) ∧
    sm.lookup (text "domain") = some (.str domain) ∧
    (domain = text "host" ∨ domain = text "guest") ∧
    ms.lookup (text "clock_domain") = some (.str (domain ++ text ":monotonic"))
  context : ∃ cm, ms.lookup (text "context") = some (.dict cm)
  quality : ∃ qm status, ms.lookup (text "quality") = some (.dict qm) ∧
    qm.lookup (text "status") = some (.str status) ∧
    (status = text "complete" ∨ status = text "partial" ∨ status = text "unavailable")
  payload : ∃ mechanism kind data spec, ms.lookup (text "kind") = some (.str kind) ∧
    catalog.entries.lookup (mechanism ++ text ":" ++ kind) = some spec ∧
    ms.lookup (text "data") = some data ∧
    checkType catalog.types data spec (text "data") = .ok ()

/-- Two reads of one dictionary. -/
theorem lookup_of_getItem {ms : List (Text × PyValue)} {v : PyValue} {key : String}
    (h : (PyValue.dict ms).getItem key = .ok v) : ms.lookup (text key) = some v := by
  obtain ⟨ms', heq, hlookup⟩ := PyValue.getItem_eq_ok h
  cases heq
  exact hlookup

theorem checkEnvelope_ok {event : PyValue} {name : Text} {sequence : Nat}
    (h : checkEnvelope event name sequence = .ok ()) :
    ∃ ms, event = .dict ms ∧ ms.lookup (text "experiment") = some (.str name) ∧
      ∃ s, ms.lookup (text "sequence") = some s ∧ s.eq (.int sequence) = true := by
  unfold checkEnvelope at h
  obtain ⟨_, -, h⟩ := bind_eq_ok.mp h
  obtain ⟨_, -, h⟩ := bind_eq_ok.mp h
  obtain ⟨e, he, h⟩ := bind_eq_ok.mp h
  obtain ⟨_, hname, h⟩ := bind_eq_ok.mp h
  obtain ⟨s, hs, hsame⟩ := bind_eq_ok.mp h
  clear h
  obtain ⟨ms, rfl, hexp⟩ := PyValue.getItem_eq_ok he
  refine ⟨ms, rfl, ?_, s, lookup_of_getItem hs, orRaise_eq_ok.mp hsame⟩
  rw [hexp, PyValue.eq_of_isText (orRaise_eq_ok.mp hname)]

theorem checkTimestamp_ok {ms : List (Text × PyValue)}
    (h : checkTimestamp (.dict ms) = .ok ()) :
    ∃ t, ms.lookup (text "timestamp_ns") = some (.str t) ∧ isNatural t = true := by
  unfold checkTimestamp at h
  obtain ⟨v, hv, h⟩ := bind_eq_ok.mp h
  split at h
  · next t => exact ⟨t, lookup_of_getItem hv, orRaise_eq_ok.mp h⟩
  · cases h

theorem checkClockDomain_ok {ms sm : List (Text × PyValue)}
    (h : checkClockDomain (.dict ms) (.dict sm) = .ok ()) :
    ∃ domain, sm.lookup (text "domain") = some (.str domain) ∧
      (domain = text "host" ∨ domain = text "guest") ∧
      ms.lookup (text "clock_domain") = some (.str (domain ++ text ":monotonic")) := by
  unfold checkClockDomain at h
  obtain ⟨d, hd, h⟩ := bind_eq_ok.mp h
  obtain ⟨_, hone, h⟩ := bind_eq_ok.mp h
  obtain ⟨clock, hclock, h⟩ := bind_eq_ok.mp h
  obtain ⟨n, hn, rfl⟩ := PyValue.exists_of_isOneOf (orRaise_eq_ok.mp hone)
  simp only at h
  refine ⟨text n, lookup_of_getItem hd, ?_, ?_⟩
  · simp only [List.mem_cons, List.not_mem_nil, or_false] at hn
    rcases hn with rfl | rfl
    · exact .inl rfl
    · exact .inr rfl
  · rw [lookup_of_getItem hclock, PyValue.eq_of_isText (orRaise_eq_ok.mp h)]

theorem checkSource_ok {ms : List (Text × PyValue)} (h : checkSource (.dict ms) = .ok ()) :
    ∃ sm domain, ms.lookup (text "source") = some (.dict sm) ∧
      sm.lookup (text "domain") = some (.str domain) ∧
      (domain = text "host" ∨ domain = text "guest") ∧
      ms.lookup (text "clock_domain") = some (.str (domain ++ text ":monotonic")) := by
  unfold checkSource at h
  obtain ⟨source, hsource, h⟩ := bind_eq_ok.mp h
  obtain ⟨_, -, h⟩ := bind_eq_ok.mp h
  obtain ⟨_, -, h⟩ := bind_eq_ok.mp h
  obtain ⟨_, hclock, h⟩ := bind_eq_ok.mp h
  obtain ⟨_, hmech, -⟩ := bind_eq_ok.mp h
  obtain ⟨sm, rfl, -⟩ := PyValue.getItem_eq_ok hmech
  obtain ⟨domain, hdomain⟩ := checkClockDomain_ok hclock
  exact ⟨sm, domain, lookup_of_getItem hsource, hdomain⟩

theorem checkContext_ok {ms : List (Text × PyValue)} (h : checkContext (.dict ms) = .ok ()) :
    ∃ cm, ms.lookup (text "context") = some (.dict cm) := by
  unfold checkContext at h
  obtain ⟨ctx, hctx, h⟩ := bind_eq_ok.mp h
  obtain ⟨_, -, h⟩ := bind_eq_ok.mp h
  obtain ⟨_, -, h⟩ := bind_eq_ok.mp h
  obtain ⟨_, hnumbers, -⟩ := bind_eq_ok.mp h
  -- reading `cpu` takes a dictionary, even where `set(ctx)` took a list
  rw [checkContextFields] at hnumbers
  obtain ⟨_, hcpu, -⟩ := bind_eq_ok.mp hnumbers
  obtain ⟨cm, rfl, -⟩ := PyValue.getItem_eq_ok hcpu
  exact ⟨cm, lookup_of_getItem hctx⟩

theorem checkQuality_ok {ms : List (Text × PyValue)} (h : checkQuality (.dict ms) = .ok ()) :
    ∃ qm status, ms.lookup (text "quality") = some (.dict qm) ∧
      qm.lookup (text "status") = some (.str status) ∧
      (status = text "complete" ∨ status = text "partial" ∨ status = text "unavailable") := by
  unfold checkQuality at h
  obtain ⟨q, hq, h⟩ := bind_eq_ok.mp h
  obtain ⟨_, -, h⟩ := bind_eq_ok.mp h
  obtain ⟨_, -, h⟩ := bind_eq_ok.mp h
  obtain ⟨status, hstatus, h⟩ := bind_eq_ok.mp h
  obtain ⟨_, hone, -⟩ := bind_eq_ok.mp h
  obtain ⟨qm, rfl, hlookup⟩ := PyValue.getItem_eq_ok hstatus
  obtain ⟨n, hn, rfl⟩ := PyValue.exists_of_isOneOf (orRaise_eq_ok.mp hone)
  refine ⟨qm, text n, lookup_of_getItem hq, hlookup, ?_⟩
  simp only [List.mem_cons, List.not_mem_nil, or_false] at hn
  rcases hn with rfl | rfl | rfl
  · exact .inl rfl
  · exact .inr (.inl rfl)
  · exact .inr (.inr rfl)

theorem checkPayload_ok {ms : List (Text × PyValue)} {catalog : Catalog}
    (h : checkPayload (.dict ms) catalog = .ok ()) :
    ∃ mechanism kind data spec, ms.lookup (text "kind") = some (.str kind) ∧
      catalog.entries.lookup (mechanism ++ text ":" ++ kind) = some spec ∧
      ms.lookup (text "data") = some data ∧
      checkType catalog.types data spec (text "data") = .ok () := by
  unfold checkPayload at h
  obtain ⟨source, -, h⟩ := bind_eq_ok.mp h
  obtain ⟨mechanism, -, h⟩ := bind_eq_ok.mp h
  obtain ⟨kind, hkind, hmatch⟩ := bind_eq_ok.mp h
  clear h
  split at hmatch
  · next m k =>
    split at hmatch
    · cases hmatch
    · next spec hspec =>
      obtain ⟨data, hdata, hcheck⟩ := bind_eq_ok.mp hmatch
      exact ⟨m, k, data, spec, lookup_of_getItem hkind, hspec, lookup_of_getItem hdata, hcheck⟩
  · cases hmatch

/-- **An accepted record** has an envelope of dictionaries and texts. -/
theorem validateRecord_ok {event : PyValue} {name : Text} {catalog : Catalog} {sequence : Nat}
    (h : validateRecord event name catalog sequence = .ok ()) :
    ∃ ms, Accepted event name catalog sequence ms := by
  unfold validateRecord at h
  obtain ⟨_, henvelope, h⟩ := bind_eq_ok.mp h
  obtain ⟨_, htimestamp, h⟩ := bind_eq_ok.mp h
  obtain ⟨_, hsource, h⟩ := bind_eq_ok.mp h
  obtain ⟨_, hcontext, h⟩ := bind_eq_ok.mp h
  obtain ⟨_, hquality, hpayload⟩ := bind_eq_ok.mp h
  obtain ⟨ms, rfl, hexp, hseq⟩ := checkEnvelope_ok henvelope
  exact ⟨ms, rfl, hexp, hseq, checkTimestamp_ok htimestamp, checkSource_ok hsource,
    checkContext_ok hcontext, checkQuality_ok hquality, checkPayload_ok hpayload⟩

/-! ## What an accepted file looks like -/

/-- The records of a file that `ndjson` reads are its lines, one document each. -/
theorem ndjsonLines_ok {limits : Limits} {index : Nat} {lines : List Text} {events : List PyValue}
    (h : ndjsonLines limits index lines = .ok events) :
    ∃ vs, JsonLines.Parses Json.codeUnits lines vs ∧
      List.Forall₂ (fun v e => PyValue.load v = some e) vs events := by
  induction lines generalizing index events with
  | nil =>
    cases h
    exact ⟨[], .nil, .nil⟩
  | cons line lines ih =>
    rw [ndjsonLines] at h
    obtain ⟨e, hline, h⟩ := bind_eq_ok.mp h
    obtain ⟨es, hlines, h⟩ := bind_eq_ok.mp h
    cases h
    obtain ⟨vs, hparses, hloads⟩ := ih hlines
    unfold ndjsonLine at hline
    split at hline
    · cases hline
    · split at hline
      · next value hvalue =>
        cases hline
        obtain ⟨v, hparse, hload⟩ := Option.bind_eq_some_iff.mp (loads_eq_ok_iff.mp hvalue).1
        exact ⟨v :: vs, .cons hparse hparses, .cons hload hloads⟩
      · cases hline
      · cases hline

/-- Every record is accepted under its own number. -/
theorem validateRecords_ok {name : Text} {catalog : Catalog} {sequence : Nat}
    {events : List PyValue} (h : validateRecords name catalog sequence events = .ok ()) :
    ∀ i event, events[i]? = some event → validateRecord event name catalog (sequence + i) = .ok () := by
  induction events generalizing sequence with
  | nil => exact fun i event hi => by simp at hi
  | cons e events ih =>
    rw [validateRecords] at h
    obtain ⟨_, hfirst, hrest⟩ := bind_eq_ok.mp h
    intro i event hi
    cases i with
    | zero =>
      cases hi
      exact hfirst
    | succ i =>
      have hnext := ih hrest i event (by simpa using hi)
      rw [show sequence + (i + 1) = sequence + 1 + i by omega]
      exact hnext

theorem ofKind_eq_nil {kind : String} {events : List PyValue} (h : ofKind kind events = .ok []) :
    ∀ event ∈ events, ∃ k, event.getItem "kind" = .ok k ∧ k.isText (text kind) = false := by
  induction events with
  | nil => exact fun event hmem => by cases hmem
  | cons e events ih =>
    rw [ofKind] at h
    obtain ⟨k, hk, h⟩ := bind_eq_ok.mp h
    obtain ⟨rest, hrest, h⟩ := bind_eq_ok.mp h
    have hout : (if k.isText (text kind) = true then e :: rest else rest) = [] :=
      Except.ok.inj h
    split at hout
    · cases hout
    · next hkind =>
      subst hout
      intro event hmem
      rcases List.mem_cons.mp hmem with rfl | hmem
      · exact ⟨k, hk, by simpa using hkind⟩
      · exact ih hrest event hmem

/-- The final status is part of the evidence. -/
theorem validateEvidence_ok {repo : Repo} {name : Text} {events : List PyValue}
    (h : validateEvidence repo name events = .ok ()) :
    ∃ data, (events.getLastD .none).getItem "data" = .ok data ∧ data.eq successful = true := by
  unfold validateEvidence at h
  obtain ⟨_, -, h⟩ := bind_eq_ok.mp h
  obtain ⟨_, -, h⟩ := bind_eq_ok.mp h
  obtain ⟨_, -, h⟩ := bind_eq_ok.mp h
  obtain ⟨_, -, h⟩ := bind_eq_ok.mp h
  obtain ⟨data, hdata, h⟩ := bind_eq_ok.mp h
  obtain ⟨_, hstatus, -⟩ := bind_eq_ok.mp h
  exact ⟨data, hdata, orRaise_eq_ok.mp hstatus⟩

/-- The parts of an accepted file that its readers rely on. -/
structure AcceptedFile (repo : Repo) (content name : Text) (events : List PyValue)
    (catalog : Catalog) (vs : List Json.Value) : Prop where
  catalog_eq : catalogOf repo name = .ok catalog
  parses : JsonLines.Parses Json.codeUnits (JsonLines.linesOf content) vs
  loads : List.Forall₂ (fun v e => PyValue.load v = some e) vs events
  length : 3 ≤ events.length
  first : (events.headD .none).getItem "kind" = .ok (.str (text "capture_started"))
  last : (events.getLastD .none).getItem "kind" = .ok (.str (text "capture_finished"))
  records : ∀ i event, events[i]? = some event →
    validateRecord event name catalog (1 + i) = .ok ()
  notFailed : ∀ event ∈ events, ∃ k, event.getItem "kind" = .ok k ∧
    k.isText (text "capture_failed") = false
  status : ∃ data, (events.getLastD .none).getItem "data" = .ok data ∧ data.eq successful = true

/-- **An accepted file** is a document a line, accepted record by record, from
    `capture_started` to a successful `capture_finished`. -/
theorem validate_ok {limits : Limits} {repo : Repo} {content name : Text} {events : List PyValue}
    (h : validate limits repo content name true = .ok events) :
    ∃ catalog vs, AcceptedFile repo content name events catalog vs := by
  unfold validate at h
  obtain ⟨catalog, hcatalog, h⟩ := bind_eq_ok.mp h
  obtain ⟨es, hndjson, h⟩ := bind_eq_ok.mp h
  obtain ⟨_, hlifecycle, h⟩ := bind_eq_ok.mp h
  obtain ⟨_, hrecords, h⟩ := bind_eq_ok.mp h
  obtain ⟨failed, hfailed, h⟩ := bind_eq_ok.mp h
  obtain ⟨_, hempty, h⟩ := bind_eq_ok.mp h
  simp only [if_true] at h
  obtain ⟨_, hevidence, h⟩ := bind_eq_ok.mp h
  cases h
  obtain ⟨vs, hparses, hloads⟩ := ndjsonLines_ok hndjson
  have hnil : failed = [] := List.isEmpty_iff.mp (orRaise_eq_ok.mp hempty)
  subst hnil
  unfold checkLifecycle at hlifecycle
  obtain ⟨_, hlength, hlifecycle⟩ := bind_eq_ok.mp hlifecycle
  obtain ⟨first, hfirst, hlifecycle⟩ := bind_eq_ok.mp hlifecycle
  obtain ⟨_, hstarted, hlifecycle⟩ := bind_eq_ok.mp hlifecycle
  obtain ⟨last, hlast, hfinished⟩ := bind_eq_ok.mp hlifecycle
  rw [PyValue.eq_of_isText (orRaise_eq_ok.mp hstarted)] at hfirst
  rw [PyValue.eq_of_isText (orRaise_eq_ok.mp hfinished)] at hlast
  exact ⟨catalog, vs, hcatalog, hparses, hloads, by simpa using orRaise_eq_ok.mp hlength, hfirst,
    hlast, validateRecords_ok hrecords, ofKind_eq_nil hfailed, validateEvidence_ok hevidence⟩

end LinuxMaxxing.Framework
