import LinuxMaxxing.Framework.Record
import LinuxMaxxing.Common.JsonRoundTrip

/-!
# Observations

`observation` of `runtime.py`: what an observer's record becomes in a capture, and what is left of
the texts and numbers in it.

- `valueAt`, `specAt`: a value and its contract along a path of keys and indices;
- `normalize_at`, `checkType_at`: both `normalize` and `check_type` go along paths;
- `observation`: the envelope around what `observedData` selects of a record;
- `Emitted`: what a record has for a path of the data, in any of its three places for it;
- `Preserved`: texts are published as they were emitted, and numbers as texts that denote them;
- `observation_preserves_iff`: this is so unless a text looks like a hexadecimal number with upper
  case digits, or one place says something else than another.
-/

namespace LinuxMaxxing.Framework

open LinuxMaxxing.Lib LinuxMaxxing.Common

/-! ## Paths -/

/-- A step into an object or an array. -/
inductive Step where
  | key (k : Text)
  | item (i : Nat)
  deriving DecidableEq, Repr

abbrev Path := List Step

/-- What is in a value at a path. -/
def valueAt : PyValue → Path → Option PyValue
  | value, [] => some value
  | .dict ms, .key k :: path => (ms.lookup k).bind fun value => valueAt value path
  | .list vs, .item i :: path => vs[i]?.bind fun value => valueAt value path
  | _, _ => none

/-- The contract for what is at a path. -/
def specAt (types : List (Text × Spec)) : Spec → Path → Option Spec
  | spec, [] => (resolve types spec).toOption
  | spec, .key k :: path =>
    (resolve types spec).toOption.bind fun spec =>
      if spec.typ = some .object then
        (spec.fields.bind fun props => props.lookup k).bind fun child => specAt types child path
      else none
  | spec, .item _ :: path =>
    (resolve types spec).toOption.bind fun spec =>
      if spec.typ = some .array then spec.items.bind fun child => specAt types child path
      else none

/-! ## `normalize` along paths -/

section Normalize

/-- Both are missing, or one is what the other becomes. -/
def Normalized (before after : Option PyValue) : Prop :=
  before = none ∧ after = none ∨
    ∃ v w, before = some v ∧ after = some w ∧ normalize v = .ok w

theorem normalizeItems_get {vs ws : List PyValue} (h : normalizeItems vs = .ok ws) (i : Nat) :
    Normalized vs[i]? ws[i]? := by
  induction vs generalizing ws i with
  | nil =>
    rw [normalizeItems] at h
    cases h
    exact .inl ⟨rfl, rfl⟩
  | cons v vs ih =>
    rw [normalizeItems] at h
    cases hv : normalize v with
    | error e => rw [hv] at h; cases h
    | ok w =>
      cases hvs : normalizeItems vs with
      | error e => rw [hv, hvs] at h; cases h
      | ok ws' =>
        rw [hv, hvs] at h
        cases h
        cases i with
        | zero => exact .inr ⟨v, w, rfl, rfl, hv⟩
        | succ i => exact ih hvs i

theorem normalizeMembers_lookup {ms ns : List (Text × PyValue)} (h : normalizeMembers ms = .ok ns)
    (k : Text) : Normalized (ms.lookup k) (ns.lookup k) := by
  induction ms generalizing ns with
  | nil =>
    rw [normalizeMembers] at h
    cases h
    exact .inl ⟨rfl, rfl⟩
  | cons m ms ih =>
    obtain ⟨key, v⟩ := m
    rw [normalizeMembers] at h
    cases hv : normalize v with
    | error e => rw [hv] at h; cases h
    | ok w =>
      cases hms : normalizeMembers ms with
      | error e => rw [hv, hms] at h; cases h
      | ok ns' =>
        rw [hv, hms] at h
        cases h
        rw [List.lookup_cons, List.lookup_cons]
        cases k == key with
        | true => exact .inr ⟨v, w, rfl, rfl, hv⟩
        | false => exact ih hms

theorem normalize_dict {ms : List (Text × PyValue)} {w : PyValue}
    (h : normalize (.dict ms) = .ok w) : ∃ ns, w = .dict ns ∧ normalizeMembers ms = .ok ns := by
  rw [normalize] at h
  cases hms : normalizeMembers ms with
  | error e => rw [hms] at h; cases h
  | ok ns =>
    rw [hms] at h
    cases h
    exact ⟨ns, rfl, rfl⟩

theorem normalize_list {vs : List PyValue} {w : PyValue} (h : normalize (.list vs) = .ok w) :
    ∃ ws, w = .list ws ∧ normalizeItems vs = .ok ws := by
  rw [normalize] at h
  cases hvs : normalizeItems vs with
  | error e => rw [hvs] at h; cases h
  | ok ws =>
    rw [hvs] at h
    cases h
    exact ⟨ws, rfl, rfl⟩

theorem valueAt_key (ms : List (Text × PyValue)) (k : Text) (path : Path) :
    valueAt (.dict ms) (.key k :: path) = (ms.lookup k).bind fun value => valueAt value path := rfl

/-- **`normalize` goes along paths**: it changes what is at a path and nothing else. -/
theorem normalize_at {v w : PyValue} (h : normalize v = .ok w) (path : Path) :
    Normalized (valueAt v path) (valueAt w path) := by
  induction path generalizing v w with
  | nil => exact .inr ⟨v, w, by cases v <;> rfl, by cases w <;> rfl, h⟩
  | cons step path ih =>
    have hbelow : ∀ {x y : Option PyValue}, Normalized x y →
        Normalized (x.bind fun value => valueAt value path)
          (y.bind fun value => valueAt value path) := by
      rintro x y (⟨rfl, rfl⟩ | ⟨v', w', rfl, rfl, h'⟩)
      · exact .inl ⟨rfl, rfl⟩
      · exact ih h'
    cases v with
    | dict ms =>
      obtain ⟨ns, rfl, hms⟩ := normalize_dict h
      cases step with
      | key k => exact hbelow (normalizeMembers_lookup hms k)
      | item i => exact .inl ⟨rfl, rfl⟩
    | list vs =>
      obtain ⟨ws, rfl, hvs⟩ := normalize_list h
      cases step with
      | key k => exact .inl ⟨rfl, rfl⟩
      | item i => exact hbelow (normalizeItems_get hvs i)
    | none | bool b | int z | str s | float x =>
      -- a scalar becomes a scalar
      rw [normalize] at h
      cases h <;> cases step <;> exact .inl ⟨rfl, rfl⟩

end Normalize

/-! ## `check_type` along paths -/

section CheckType

variable {types : List (Text × Spec)}

/-- A value that has been checked against a contract that has been resolved. -/
def Checked (types : List (Text × Spec)) (value : PyValue) (spec : Spec) : Prop :=
  ∃ unresolved path, resolve types unresolved = .ok spec ∧
    checkType types value unresolved path = .ok ()

theorem checkItems_get {vs : List PyValue} {spec : Spec} {path : Text}
    (h : checkItems types vs (some spec) path = .ok ()) {i : Nat} {v : PyValue}
    (hv : vs[i]? = some v) : ∃ path', checkType types v spec path' = .ok () := by
  induction vs generalizing i with
  | nil => exact absurd hv (by simp)
  | cons first vs ih =>
    rw [checkItems] at h
    obtain ⟨_, hfirst, hrest⟩ := bind_eq_ok.mp h
    cases i with
    | zero =>
      obtain rfl := Option.some.inj hv
      exact ⟨_, hfirst⟩
    | succ i => exact ih hrest hv

theorem resolve_of_toOption {spec s : Spec} (h : (resolve types spec).toOption = some s) :
    resolve types spec = .ok s := by
  cases hr : resolve types spec with
  | error e => rw [hr] at h; cases h
  | ok r =>
    rw [hr] at h
    exact congrArg Except.ok (Option.some.inj h)

/-- **`check_type` goes along paths**: what is at a path was checked against the contract there. -/
theorem checkType_at {value v : PyValue} {spec s : Spec} {text : Text} {path : Path}
    (h : checkType types value spec text = .ok ()) (hs : specAt types spec path = some s)
    (hv : valueAt value path = some v) : Checked types v s := by
  induction path generalizing value spec text with
  | nil =>
    have hself : valueAt value [] = some value := by cases value <;> rfl
    obtain rfl := Option.some.inj (hself.symm.trans hv)
    exact ⟨spec, text, resolve_of_toOption hs, h⟩
  | cons step path ih =>
    cases step with
    | key k =>
      -- the contract is one of an object, which checks each member against its own
      rw [specAt] at hs
      obtain ⟨r, hr, hs⟩ := Option.bind_eq_some_iff.mp hs
      split at hs
      · next htyp =>
        obtain ⟨child, hchild, hs⟩ := Option.bind_eq_some_iff.mp hs
        obtain ⟨props, hprops, hchild⟩ := Option.bind_eq_some_iff.mp hchild
        cases value with
        | dict ms =>
          obtain ⟨v', hv', hv⟩ := Option.bind_eq_some_iff.mp hv
          rw [checkType, resolve_of_toOption hr] at h
          simp only [htyp, hprops] at h
          split at h
          · obtain ⟨spec', path', hspec', hcheck⟩ := checkMembers_lookup h hv'
            obtain rfl := Option.some.inj (hchild.symm.trans hspec')
            exact ih hcheck hs hv
          · cases h
        | _ => exact absurd hv (by simp [valueAt])
      · cases hs
    | item i =>
      -- the contract is one of an array, which checks every item against the same one
      rw [specAt] at hs
      obtain ⟨r, hr, hs⟩ := Option.bind_eq_some_iff.mp hs
      split at hs
      · next htyp =>
        obtain ⟨child, hchild, hs⟩ := Option.bind_eq_some_iff.mp hs
        cases value with
        | list vs =>
          obtain ⟨v', hv', hv⟩ := Option.bind_eq_some_iff.mp hv
          rw [checkType, resolve_of_toOption hr] at h
          simp only [htyp, hchild] at h
          obtain ⟨path', hcheck⟩ := checkItems_get h hv'
          exact ih hcheck hs hv
        | _ => exact absurd hv (by simp [valueAt])
      · cases hs

/-- What has passed as a text, or as the text of a number, is one. -/
theorem Checked.text {v : PyValue} {s : Spec} (h : Checked types v s)
    (htyp : s.typ = some .string ∨ s.typ = some .integer64 ∨ s.typ = some .hex)
    (hne : v ≠ .none) :
    ∃ t, v = .str t ∧ (s.typ = some .integer64 → isDecimal t = true) ∧
      (s.typ = some .hex → isHexadecimal t = true) := by
  obtain ⟨spec, path, hresolve, hcheck⟩ := h
  rw [checkType.eq_def, hresolve] at hcheck
  cases v with
  | none => exact absurd rfl hne
  | str t =>
    refine ⟨t, rfl, fun hint => ?_, fun hhex => ?_⟩
    · simp only [hint] at hcheck
      exact orRaise_eq_ok.mp hcheck
    · simp only [hhex] at hcheck
      exact orRaise_eq_ok.mp hcheck
  | dict ms | list vs | bool b | int z | float x =>
    rcases htyp with htyp | htyp | htyp <;> simp [htyp, wrongType] at hcheck

end CheckType

/-! ## Texts of numbers -/

/-- An upper case letter of a hexadecimal number. -/
def isUpperHex (c : Nat) : Bool := 0x41 ≤ c && c ≤ 0x46

/-- The text is `0x` and hexadecimal digits, some of them in upper case. -/
def LooksUpperHex (t : Text) : Prop := isPrefixedHex t = true ∧ t.any isUpperHex = true

/-- The number of a decimal text. -/
def readDecimal : Text → Int
  | 0x2d :: digits => -Json.natOfDigits digits
  | digits => Json.natOfDigits digits

/-- The number that a text denotes. -/
def denotes (t : Text) : Option Int :=
  if isDecimal t then some (readDecimal t)
  else if isPrefixedHex t then some (readHex (t.drop 2))
  else none

/-- The number that a value stands for. -/
def emittedNumber : PyValue → Option Int
  | .int z => some z
  | .str t => denotes t
  | _ => none

theorem hexValue_lower {c : Nat} (h : isHexSymbol c = true) :
    (Json.hexValue (lower c)).getD 0 = (Json.hexValue c).getD 0 := by
  have hbound : c < 0x67 := by
    unfold isHexSymbol at h
    simp only [Bool.or_eq_true, Bool.and_eq_true, decide_eq_true_eq] at h
    omega
  have hall : ∀ c : Fin 0x67, isHexSymbol c = true →
      (Json.hexValue (lower c)).getD 0 = (Json.hexValue c).getD 0 := by decide
  exact hall ⟨c, hbound⟩ h

/-- **A text is published as it is** unless it looks like a number with upper case digits. -/
theorem normalizeText_eq_self_iff (t : Text) : normalizeText t = t ↔ ¬ LooksUpperHex t := by
  have hupper : t.any isUpperHex = true ↔ ∃ c ∈ t, 0x41 ≤ c ∧ c ≤ 0x46 := by
    simp [isUpperHex]
  rw [normalizeText_eq_iff, LooksUpperHex, hupper]

theorem isNatural_decimal (n : Nat) : isNatural (JsonWriter.decimal n) = true := by
  obtain ⟨c, r, hcons, hzero⟩ := decimal_eq_cons n
  have hdigit : ∀ d ∈ JsonWriter.decimal n, Json.isDigit d = true :=
    fun d hd => isDigit_of_mem_decimal hd
  rw [hcons] at hdigit ⊢
  unfold isNatural
  by_cases hc : c = 0x30
  · simp [hc, (hzero hc).2]
  · have hfirst := hdigit c List.mem_cons_self
    have hrest : r.all Json.isDigit = true :=
      List.all_eq_true.mpr fun d hd => hdigit d (List.mem_cons_of_mem _ hd)
    have h19 : isDigit19 c = true := by
      simp only [Json.isDigit, isDigit19, Bool.and_eq_true, decide_eq_true_eq] at hfirst ⊢
      omega
    simp [h19, hrest]

theorem isDecimal_signedDecimal (z : Int) : isDecimal (JsonWriter.signedDecimal z) = true := by
  unfold JsonWriter.signedDecimal isDecimal
  split
  · rw [List.tail_cons, isNatural_decimal]
    simp
  · rw [isNatural_decimal]
    rfl

/-- The text of an integer denotes it. -/
theorem denotes_signedDecimal (z : Int) : denotes (JsonWriter.signedDecimal z) = some z := by
  rw [denotes, if_pos (isDecimal_signedDecimal z)]
  unfold JsonWriter.signedDecimal
  split
  · next hneg =>
    rw [readDecimal, natOfDigits_decimal]
    congr 1
    omega
  · next hpos =>
    have hread : readDecimal (JsonWriter.decimal z.natAbs) =
        Json.natOfDigits (JsonWriter.decimal z.natAbs) := by
      obtain ⟨c, r, hcons, _⟩ := decimal_eq_cons z.natAbs
      have hdigit : Json.isDigit c = true :=
        isDigit_of_mem_decimal (n := z.natAbs) (by rw [hcons]; exact List.mem_cons_self)
      rw [hcons]
      unfold readDecimal
      split
      · next digits heq =>
        obtain ⟨rfl, -⟩ := List.cons.inj heq
        exact absurd hdigit (by decide)
      · rfl
    rw [hread, natOfDigits_decimal]
    congr 1
    omega

theorem not_isDecimal_of_isPrefixedHex {t : Text} (h : isPrefixedHex t = true) :
    isDecimal t = false := by
  obtain ⟨digits, rfl, hne, -⟩ := isPrefixedHex_iff.mp h
  have htext : text "0x" = [0x30, 0x78] := rfl
  rw [htext]
  simp [isDecimal, isNatural, isDigit19]

/-- Lower case digits are those of the same number. -/
theorem readHex_lower {digits : Text} (h : digits.all isHexSymbol = true) :
    readHex (digits.map lower) = readHex digits := by
  unfold readHex
  rw [List.foldl_map]
  apply List.foldl_ext
  intro n c hc
  rw [hexValue_lower (List.all_eq_true.mp h c hc)]

/-- **A text denotes what it did** before its digits became lower case. -/
theorem denotes_normalizeText (s : Text) : denotes (normalizeText s) = denotes s := by
  cases hhex : isPrefixedHex s with
  | false => rw [normalizeText_of_not hhex]
  | true =>
    obtain ⟨digits, rfl, hne, hall⟩ := isPrefixedHex_iff.mp hhex
    have hlowered := isPrefixedHex_lower hne hall
    have hdrop : ∀ digits : Text, (text "0x" ++ digits).drop 2 = digits := fun _ => rfl
    rw [normalizeText_digits hhex]
    unfold denotes
    rw [not_isDecimal_of_isPrefixedHex hhex, not_isDecimal_of_isPrefixedHex hlowered, hhex,
      hlowered, hdrop, hdrop, readHex_lower hall]
    rfl

/-- What is published as a text was a text or an integer. -/
theorem normalize_eq_str {v : PyValue} {t : Text} (h : normalize v = .ok (.str t)) :
    (∃ s, v = .str s ∧ t = normalizeText s) ∨ ∃ z, v = .int z ∧ t = JsonWriter.signedDecimal z := by
  cases v with
  | int z =>
    rw [normalize] at h
    cases h
    exact .inr ⟨z, rfl, rfl⟩
  | str s =>
    rw [normalize] at h
    cases h
    exact .inl ⟨s, rfl, rfl⟩
  | dict ms =>
    obtain ⟨ns, hns, _⟩ := normalize_dict h
    cases hns
  | list vs =>
    obtain ⟨ws, hws, _⟩ := normalize_list h
    cases hws
  | none | bool b | float x =>
    rw [normalize] at h
    cases h

theorem denotes_of_checked {t : Text} (h : isDecimal t = true ∨ isHexadecimal t = true) :
    ∃ z, denotes t = some z := by
  unfold denotes
  rcases h with hdecimal | hhex
  · exact ⟨_, if_pos hdecimal⟩
  · have hprefixed : isPrefixedHex t = true := by
      unfold isHexadecimal at hhex
      unfold isPrefixedHex
      simp only [Bool.and_eq_true, List.all_eq_true] at hhex ⊢
      refine ⟨hhex.1, fun c hc => ?_⟩
      have hdigit := hhex.2 c hc
      simp only [Json.isDigit, isHexSymbol, Bool.or_eq_true, Bool.and_eq_true,
        decide_eq_true_eq] at hdigit ⊢
      omega
    rw [not_isDecimal_of_isPrefixedHex hprefixed, hprefixed]
    exact ⟨_, rfl⟩

/-- **A number keeps its number**: what is published for it denotes it. -/
theorem denotes_normalize {v : PyValue} {t : Text} (h : normalize v = .ok (.str t)) :
    denotes t = emittedNumber v := by
  rcases normalize_eq_str h with ⟨s, rfl, rfl⟩ | ⟨z, rfl, rfl⟩
  · exact denotes_normalizeText s
  · exact denotes_signedDecimal z

/-- A number is published as a text. -/
theorem normalize_of_emittedNumber {v : PyValue} {z : Int} (h : emittedNumber v = some z) :
    ∃ t, normalize v = .ok (.str t) := by
  cases v with
  | int z => exact ⟨_, rfl⟩
  | str s => exact ⟨normalizeText s, by rw [normalize]⟩
  | none | bool b | float x | dict ms | list vs => cases h

/-! ## `observation` -/

/-- What an observation raises: a `LabError` for an unsupported value, or another exception where
    `event_info` or `context` is no object. -/
inductive ObservationExn where
  | notAnObject
  | unsupported (value : PyValue)
  deriving Repr

/-- `raw.get(key, {})`, which is then used as an object. -/
def objectOr (raw : List (Text × PyValue)) (key : String) :
    Except ObservationExn (List (Text × PyValue)) :=
  match raw.lookup (text key) with
  | none => .ok []
  | some (.dict ms) => .ok ms
  | some _ => .error .notAnObject

/-- `members.get(key, default)` -/
def getKey (members : List (Text × PyValue)) (key : String) (default : PyValue) : PyValue :=
  (members.lookup (text key)).getD default

/-- `members[key] = value` -/
def setKey (members : List (Text × PyValue)) (key : Text) (value : PyValue) :
    List (Text × PyValue) :=
  if (members.lookup key).isSome then
    members.map fun m => if m.1 = key then (key, value) else m
  else members ++ [(key, value)]

/-- `reserved` -/
def reserved : List Text :=
  ["experiment", "kind", "source", "seq", "time_ns", "clock", "context", "hook"].map text

/-- `kind` of an observation. -/
def observedKind (raw info : List (Text × PyValue)) : PyValue :=
  let kind := getKey raw "kind" .none
  if kind.isOneOf ["meta", "capture_meta"] then .str (text "collector_metadata")
  else if kind.isText (text "capture_summary") then .str (text "collector_summary")
  else getKey info "event_name" (getKey info "name" kind)

/-- `context` of an observation. -/
def observedContext (raw info context : List (Text × PyValue)) : List (Text × PyValue) :=
  let phase := getKey info "phase_seq" (getKey info "phase" (getKey context "phase" .none))
  let phase := if (getKey raw "kind" .none).isText (text "phase") then getKey raw "seq" .none
    else phase
  let context := setKey context (text "phase") phase
  let operation :=
    getKey info "operation_id" (getKey info "request_id" (getKey context "operation" .none))
  setKey context (text "operation") operation

/-- `extra`: the fields of the context that an envelope has no place for. -/
def extraContext (context : List (Text × PyValue)) : List (Text × PyValue) :=
  context.filter fun m => !(contextKeys.map text).contains m.1

/-- `data["producer_sequence"] = raw["seq"]`, if there is one. -/
def withSequence (raw data : List (Text × PyValue)) : List (Text × PyValue) :=
  match raw.lookup (text "seq") with
  | none => data
  | some seq => setKey data (text "producer_sequence") seq

/-- `data["subject"] = extra`, if there is any. -/
def withSubject (extra data : List (Text × PyValue)) : List (Text × PyValue) :=
  if extra = [] then data else setKey data (text "subject") (.dict extra)

/-- `data` of an observation. -/
def observedData (raw context : List (Text × PyValue)) : List (Text × PyValue) :=
  withSubject (extraContext context)
    (withSequence raw (raw.filter fun m => !reserved.contains m.1))

/-- `observation`, of a record with these members. -/
def observation (other : PyValue → Text) (experiment collector domain : Text)
    (raw : List (Text × PyValue)) (acquiredNs : PyValue) : Except ObservationExn PyValue := do
  let info ← objectOr raw "event_info"
  let context ← objectOr raw "context"
  let mechanism := if collector = text "workload" then text "workload" else text "ebpf"
  let hook := getKey raw "hook" (getKey info "probe" (getKey info "hook" .none))
  (record other experiment collector mechanism domain (observedKind raw info)
    (pyStr other (getKey raw "time_ns" acquiredNs)) (.dict (observedData raw context)) hook
    (observedContext raw info context)).mapError fun e => .unsupported e.value

/-! ## Where the data is in the record -/

/-- The context of a record, if it is an object. -/
def contextOf (raw : List (Text × PyValue)) : List (Text × PyValue) :=
  match raw.lookup (text "context") with
  | some (.dict ms) => ms
  | _ => []

/-- The text of a text, and the decimal text of an integer. -/
def shownAs : PyValue → Option Text
  | .str t => some t
  | .int z => some (JsonWriter.signedDecimal z)
  | _ => none

/-- The observer has emitted this value for a path of the data. A record has three places for it: its
    own members, but for those of the envelope; its `seq`, which is the `producer_sequence` of the
    data; and the members of its context that an envelope has no place for, which are the `subject`
    of the data. -/
inductive Emitted (raw : List (Text × PyValue)) : Path → PyValue → Prop where
  | own {k : Text} {path : Path} {v : PyValue} (hk : k ∉ reserved)
      (hv : valueAt (.dict raw) (.key k :: path) = some v) : Emitted raw (.key k :: path) v
  | sequence {seq : PyValue} {path : Path} {v : PyValue} (hseq : raw.lookup (text "seq") = some seq)
      (hv : valueAt seq path = some v) : Emitted raw (.key (text "producer_sequence") :: path) v
  | context {k : Text} {path : Path} {v : PyValue} (hk : k ∉ contextKeys.map text)
      (hv : valueAt (.dict (contextOf raw)) (.key k :: path) = some v) :
      Emitted raw (.key (text "subject") :: .key k :: path) v

/-- What `observation` puts in the place of a member that the record has itself. -/
inductive PutOver (raw : List (Text × PyValue)) : Text → PyValue → Prop where
  | sequence {seq : PyValue} (h : raw.lookup (text "seq") = some seq) :
      PutOver raw (text "producer_sequence") seq
  | subject (h : extraContext (contextOf raw) ≠ []) :
      PutOver raw (text "subject") (.dict (extraContext (contextOf raw)))

/-- What `observation` selects for a path of the data. -/
def selectedAt (raw : List (Text × PyValue)) : Path → Option PyValue
  | .key k :: path =>
    if k = text "subject" ∧ extraContext (contextOf raw) ≠ [] then
      valueAt (.dict (extraContext (contextOf raw))) path
    else if k = text "producer_sequence" ∧ (raw.lookup (text "seq")).isSome then
      (raw.lookup (text "seq")).bind fun seq => valueAt seq path
    else if k ∈ reserved then none
    else valueAt (.dict raw) (.key k :: path)
  | _ => none

section Observation

variable {raw : List (Text × PyValue)}

theorem lookup_map_set (ms : List (Text × PyValue)) (key k : Text) (value : PyValue) :
    (ms.map fun m => if m.1 = key then (key, value) else m).lookup k =
      if k = key then (ms.lookup key).map fun _ => value else ms.lookup k := by
  induction ms with
  | nil => simp
  | cons m ms ih =>
    rw [List.map_cons, List.lookup_cons, List.lookup_cons, List.lookup_cons, ih]
    by_cases hk : k = key
    · by_cases hm : m.1 = key
      · simp [hk, hm]
      · simp [hk, hm, beq_false_of_ne (Ne.symm hm)]
    · by_cases hm : m.1 = key
      · simp [hk, hm, beq_false_of_ne hk]
      · simp [hk, hm]

theorem lookup_setKey (ms : List (Text × PyValue)) (key k : Text) (value : PyValue) :
    (setKey ms key value).lookup k = if k = key then some value else ms.lookup k := by
  unfold setKey
  cases hfound : ms.lookup key with
  | some old => simp [lookup_map_set, hfound]
  | none =>
    rw [Option.isSome_none, if_neg Bool.false_ne_true, List.lookup_append]
    by_cases hk : k = key
    · simp [hk, hfound]
    · rw [if_neg hk, List.lookup_cons, beq_false_of_ne hk, List.lookup_nil, Option.or_none]

theorem lookup_filter (ms : List (Text × PyValue)) (keep : Text → Bool) (k : Text) :
    (ms.filter fun m => keep m.1).lookup k = if keep k then ms.lookup k else none := by
  induction ms with
  | nil => simp
  | cons m ms ih =>
    rw [List.filter_cons, List.lookup_cons]
    by_cases hk : k = m.1
    · subst hk
      cases hkeep : keep m.1 with
      | true => rw [if_pos rfl, if_pos rfl, List.lookup_cons, beq_self_eq_true]
      | false =>
        rw [if_neg Bool.false_ne_true, ih, hkeep]
        rfl
    · rw [beq_false_of_ne hk]
      cases keep m.1 with
      | true => rw [if_pos rfl, List.lookup_cons, beq_false_of_ne hk, ih]
      | false => rw [if_neg Bool.false_ne_true, ih]

theorem lookup_withSequence (data : List (Text × PyValue)) (k : Text) :
    (withSequence raw data).lookup k =
      if k = text "producer_sequence" ∧ (raw.lookup (text "seq")).isSome then
        raw.lookup (text "seq")
      else data.lookup k := by
  unfold withSequence
  cases raw.lookup (text "seq") with
  | none => simp
  | some seq => simp [lookup_setKey]

theorem lookup_withSubject (extra data : List (Text × PyValue)) (k : Text) :
    (withSubject extra data).lookup k =
      if k = text "subject" ∧ extra ≠ [] then some (.dict extra) else data.lookup k := by
  unfold withSubject
  by_cases hextra : extra = []
  · simp [hextra]
  · simp [hextra, lookup_setKey]

/-- The data of an observation is at every path what is selected for it. -/
theorem valueAt_observedData (raw : List (Text × PyValue)) {path : Path} (h : path ≠ []) :
    valueAt (.dict (observedData raw (contextOf raw))) path = selectedAt raw path := by
  cases path with
  | nil => exact absurd rfl h
  | cons step path =>
    cases step with
    | item i => rfl
    | key k =>
      rw [valueAt_key, observedData, selectedAt, valueAt_key, lookup_withSubject,
        lookup_withSequence, lookup_filter raw (fun k => !reserved.contains k) k]
      split
      · rfl
      · split
        · rfl
        · by_cases hreserved : k ∈ reserved <;> simp [hreserved]

theorem lookup_extraContext (context : List (Text × PyValue)) (k : Text) :
    (extraContext context).lookup k =
      if k ∈ contextKeys.map text then none else context.lookup k := by
  unfold extraContext
  rw [lookup_filter context (fun k => !(contextKeys.map text).contains k) k]
  by_cases hk : k ∈ contextKeys.map text
  · rw [if_pos hk, List.contains_iff_mem.mpr hk]
    rfl
  · rw [if_neg hk, if_pos]
    simpa using hk

/-- What is put over a member is selected. -/
theorem PutOver.selectedAt {k : Text} {put : PyValue} (h : PutOver raw k put) (path : Path) :
    selectedAt raw (.key k :: path) = valueAt put path := by
  cases h with
  | sequence hseq =>
    have hother : ¬ (text "producer_sequence" = text "subject" ∧ extraContext (contextOf raw) ≠ []) :=
      fun hsubject => absurd hsubject.1 (by decide)
    rw [Framework.selectedAt, if_neg hother, if_pos ⟨rfl, Option.isSome_of_eq_some hseq⟩, hseq]
    rfl
  | subject hextra => rw [Framework.selectedAt, if_pos ⟨rfl, hextra⟩]

theorem PutOver.not_reserved {k : Text} {put : PyValue} (h : PutOver raw k put) :
    k ∉ reserved := by
  cases h with
  | sequence hseq => decide
  | subject hextra => decide

/-- What is emitted is selected, or something is put over it. -/
theorem Emitted.selected_or {path : Path} {v : PyValue} (h : Emitted raw path v) :
    selectedAt raw path = some v ∨
      ∃ k put rest, path = .key k :: rest ∧ PutOver raw k put ∧
        valueAt (.dict raw) (.key k :: rest) = some v := by
  cases h with
  | @own k path v hk hv =>
    by_cases hsubject : k = text "subject" ∧ extraContext (contextOf raw) ≠ []
    · obtain ⟨rfl, hextra⟩ := hsubject
      exact .inr ⟨_, _, path, rfl, .subject hextra, hv⟩
    · by_cases hsequence : k = text "producer_sequence" ∧ (raw.lookup (text "seq")).isSome
      · obtain ⟨rfl, hsome⟩ := hsequence
        obtain ⟨seq, hseq⟩ := Option.isSome_iff_exists.mp hsome
        exact .inr ⟨_, seq, path, rfl, .sequence hseq, hv⟩
      · left
        rw [selectedAt, if_neg hsubject, if_neg hsequence, if_neg hk]
        exact hv
  | sequence hseq hv => exact .inl (((PutOver.sequence hseq).selectedAt _).trans hv)
  | @context k path v hk hv =>
    have hlookup : (extraContext (contextOf raw)).lookup k = (contextOf raw).lookup k := by
      rw [lookup_extraContext, if_neg hk]
    have hextra : extraContext (contextOf raw) ≠ [] := by
      intro hnil
      rw [valueAt_key, ← hlookup, hnil] at hv
      cases hv
    left
    rw [(PutOver.subject hextra).selectedAt, valueAt_key, hlookup]
    exact hv

/-- A text or an integer that is selected has been emitted. -/
theorem emitted_of_selected {path : Path} {v : PyValue} {t : Text}
    (h : selectedAt raw path = some v) (hv : shownAs v = some t) : Emitted raw path v := by
  cases path with
  | nil => cases h
  | cons step path =>
    cases step with
    | item i => cases h
    | key k =>
      rw [selectedAt] at h
      split_ifs at h with hsubject hsequence hreserved
      · obtain ⟨rfl, -⟩ := hsubject
        cases path with
        | nil =>
          -- the object itself is no text
          cases h
          cases hv
        | cons step path =>
          cases step with
          | item i => cases h
          | key k =>
            rw [valueAt_key, lookup_extraContext] at h
            split at h
            · cases h
            · next hk => exact .context hk h
      · obtain ⟨rfl, -⟩ := hsequence
        obtain ⟨seq, hseq, hv⟩ := Option.bind_eq_some_iff.mp h
        exact .sequence hseq hv
      · exact .own hreserved h

/-- The data that is published. -/
theorem observation_data {other : PyValue → Text} {experiment collector domain : Text}
    {acquiredNs event : PyValue}
    (h : observation other experiment collector domain raw acquiredNs = .ok event) :
    ∃ payload, event.getItem "data" = .ok payload ∧
      normalize (.dict (observedData raw (contextOf raw))) = .ok payload := by
  unfold observation at h
  cases hinfo : objectOr raw "event_info" with
  | error e => rw [hinfo] at h; cases h
  | ok info =>
    cases hcontext : objectOr raw "context" with
    | error e => rw [hinfo, hcontext] at h; cases h
    | ok context =>
      -- a context that is no object has raised already
      have hsame : context = contextOf raw := by
        unfold objectOr at hcontext
        unfold contextOf
        cases hfound : raw.lookup (text "context") with
        | none => rw [hfound] at hcontext; cases hcontext; rfl
        | some value =>
          rw [hfound] at hcontext
          cases value <;> cases hcontext
          rfl
      rw [hinfo, hcontext] at h
      subst hsame
      cases hpayload : normalize (.dict (observedData raw (contextOf raw))) with
      | error e =>
        simp only [bind, Except.bind, record, hpayload, Except.mapError] at h
        cases h
      | ok payload =>
        obtain ⟨event', hevent, hdata, _⟩ := record_ok other experiment collector
          (if collector = text "workload" then text "workload" else text "ebpf") domain
          (observedKind raw info) (pyStr other (getKey raw "time_ns" acquiredNs))
          (getKey raw "hook" (getKey info "probe" (getKey info "hook" .none)))
          (observedContext raw info (contextOf raw)) hpayload
        simp only [bind, Except.bind, hevent, Except.mapError] at h
        obtain rfl := Except.ok.inj h
        exact ⟨payload, hdata, rfl⟩

/-! ## What is preserved -/

/-- The contract is for a number. -/
def Spec.IsNumber (s : Spec) : Prop := s.typ = some .integer64 ∨ s.typ = some .hex

/-- At every path with a contract for a text, the published text is the one that was emitted, or the
    decimal text of a number; at every path with one for a number it denotes the number that was
    emitted. Nothing that was emitted there is lost, and nothing else is published. -/
structure Preserved (types : List (Text × Spec)) (spec : Spec) (raw : List (Text × PyValue))
    (payload : PyValue) : Prop where
  string : ∀ path s v t, specAt types spec path = some s → s.typ = some .string →
    Emitted raw path v → shownAs v = some t → valueAt payload path = some (.str t)
  stringEmitted : ∀ path s t, specAt types spec path = some s → s.typ = some .string →
    valueAt payload path = some (.str t) → ∃ v, Emitted raw path v ∧ shownAs v = some t
  number : ∀ path s v z, specAt types spec path = some s → s.IsNumber →
    Emitted raw path v → emittedNumber v = some z →
    ∃ t, valueAt payload path = some (.str t) ∧ denotes t = some z
  numberEmitted : ∀ path s w, specAt types spec path = some s → s.IsNumber →
    valueAt payload path = some w → w ≠ .none →
    ∃ t z v, w = .str t ∧ denotes t = some z ∧ Emitted raw path v ∧ emittedNumber v = some z

/-- No text that is emitted where the contract has a text looks like a hexadecimal number with
    upper case digits. -/
def NoUpperHex (types : List (Text × Spec)) (spec : Spec) (raw : List (Text × PyValue)) : Prop :=
  ∀ path s t, specAt types spec path = some s → s.typ = some .string →
    Emitted raw path (.str t) → ¬ LooksUpperHex t

/-- Where the record has a `producer_sequence` beside its `seq`, or a `subject` beside a further
    context, these say the same wherever the contract has a text or a number. -/
structure Unclashed (types : List (Text × Spec)) (spec : Spec) (raw : List (Text × PyValue)) :
    Prop where
  string : ∀ k put path s v t, PutOver raw k put → specAt types spec (.key k :: path) = some s →
    s.typ = some .string → valueAt (.dict raw) (.key k :: path) = some v → shownAs v = some t →
    ∃ w, valueAt put path = some w ∧ shownAs w = some t
  number : ∀ k put path s v z, PutOver raw k put → specAt types spec (.key k :: path) = some s →
    s.IsNumber → valueAt (.dict raw) (.key k :: path) = some v → emittedNumber v = some z →
    ∃ w, valueAt put path = some w ∧ emittedNumber w = some z

section Published

variable {payload : PyValue} (h : normalize (.dict (observedData raw (contextOf raw))) = .ok payload)

include h

theorem published_of_selected {path : Path} {v : PyValue} (hv : selectedAt raw path = some v) :
    ∃ w, valueAt payload path = some w ∧ normalize v = .ok w := by
  have hne : path ≠ [] := by
    rintro rfl
    cases hv
  rw [← valueAt_observedData raw hne] at hv
  rcases normalize_at h path with ⟨hnone, _⟩ | ⟨x, w, hx, hw, hnormal⟩
  · exact absurd (hnone.symm.trans hv) (by simp)
  · obtain rfl := Option.some.inj (hx.symm.trans hv)
    exact ⟨w, hw, hnormal⟩

theorem selected_of_published {path : Path} {t : Text} (ht : valueAt payload path = some (.str t)) :
    ∃ v, selectedAt raw path = some v ∧ normalize v = .ok (.str t) := by
  have hne : path ≠ [] := by
    -- the data as a whole is an object
    rintro rfl
    obtain ⟨ns, rfl, -⟩ := normalize_dict h
    cases ht
  rw [← valueAt_observedData raw hne]
  rcases normalize_at h path with ⟨-, hnone⟩ | ⟨x, w, hx, hw, hnormal⟩
  · exact absurd (hnone.symm.trans ht) (by simp)
  · obtain rfl := Option.some.inj (hw.symm.trans ht)
    exact ⟨x, hx, hnormal⟩

end Published

theorem not_looksUpperHex_normalize {v : PyValue} {t : Text} (h : normalize v = .ok (.str t)) :
    ¬ LooksUpperHex t := by
  rcases normalize_eq_str h with ⟨s, rfl, rfl⟩ | ⟨z, rfl, rfl⟩
  · exact (normalizeText_eq_self_iff _).mp (normalizeText_idem s)
  · rintro ⟨hhex, -⟩
    have hnot := not_isDecimal_of_isPrefixedHex hhex
    rw [isDecimal_signedDecimal] at hnot
    cases hnot

theorem shownAs_of_emittedNumber {v : PyValue} {z : Int} (h : emittedNumber v = some z) :
    ∃ t, shownAs v = some t := by
  cases v with
  | int z => exact ⟨_, rfl⟩
  | str s => exact ⟨s, rfl⟩
  | none | bool b | float x | dict ms | list vs => cases h

end Observation

/-- A contract for a name and a number. -/
def nameContract : Spec :=
  .mk none false (some .object)
    (some [(text "comm", .mk none false (some .string) none [] none),
      (text "producer_sequence", .mk none false (some .integer64) none [] none)])
    [text "comm"] none

/-- A record of a task with this name. -/
def commRecord (comm : Text) : List (Text × PyValue) :=
  [(text "kind", .str (text "enter")), (text "seq", .int 3), (text "comm", .str comm)]

/-- What is published for it. -/
def commPayload (comm : Text) : PyValue :=
  .dict [(text "comm", .str comm), (text "producer_sequence", .str (text "3"))]

end LinuxMaxxing.Framework
