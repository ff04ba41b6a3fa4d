import LinuxMaxxing.Framework.Validate
import LinuxMaxxing.App.ParseCapture

/-!
# The Framework and the Dashboard on One File

A capture is validated by `validate` in Python and read by `parseCapture` in
JavaScript. On a file that the former accepts, the latter returns the same events
exactly when the file `ReadsAlike`: no lone CR between the records, no integer that a
double rounds, no empty kind, and a first sequence number that is a number.

- `same`: a Python value and a JavaScript value of the same JSON value;
- `same_load`: the two values of one document are the same unless an integer is rounded;
- `envelopeOk_iff`: what the dashboard's envelope check adds to an accepted record;
- `parseCapture_agrees_iff`: the agreement.
-/

namespace LinuxMaxxing.App

open LinuxMaxxing.Lib
open LinuxMaxxing.Framework

/-! ## The same value in two languages -/

mutual

/-- The Python value and the JavaScript value are one JSON value: an integer is the
    same as the double of exactly this value. -/
def same : PyValue → JsValue → Bool
  | .none, .null => true
  | .bool a, .bool b => a = b
  | .int z, .num x => x = .exact z
  | .float x, .num y => x = y
  | .str a, .str b => a = b
  | .list ps, .arr js => sameList ps js
  | .dict ps, .obj js => sameMembers ps js
  | _, _ => false

def sameList : List PyValue → List JsValue → Bool
  | [], [] => true
  | p :: ps, j :: js => same p j && sameList ps js
  | _, _ => false

def sameMembers : List (Text × PyValue) → List (Text × JsValue) → Bool
  | [], [] => true
  | (k, p) :: ps, (k', j) :: js => k = k' && same p j && sameMembers ps js
  | _, _ => false

end

mutual

/-- Every integer literal is the value of a double. -/
def exactInts : Json.Value → Bool
  | .num n => !n.isInt || Double.ofInt n.toInt = .exact n.toInt
  | .arr vs => exactIntsList vs
  | .obj ms => exactIntsMembers ms
  | _ => true

def exactIntsList : List Json.Value → Bool
  | [] => true
  | v :: vs => exactInts v && exactIntsList vs

def exactIntsMembers : List (Text × Json.Value) → Bool
  | [] => true
  | (_, v) :: ms => exactInts v && exactIntsMembers ms

end

/-- A member of an object. -/
def member (v : Json.Value) (name : String) : Option Json.Value :=
  match v with
  | .obj ms => ms.lookup (text name)
  | _ => none

/-! ## Members in the two languages -/

theorem keys_py {ms : List (Text × Json.Value)} {ds : List (Text × PyValue)}
    (h : PyValue.loadMembers ms = some ds) : ds.map Prod.fst = ms.map Prod.fst := by
  induction ms generalizing ds with
  | nil =>
    cases h
    rfl
  | cons m ms ih =>
    obtain ⟨k, v⟩ := m
    rw [PyValue.loadMembers] at h
    obtain ⟨p, -, h⟩ := Option.bind_eq_some_iff.mp h
    obtain ⟨ds', hds', rfl⟩ := Option.map_eq_some_iff.mp h
    rw [List.map_cons, List.map_cons, ih hds']

theorem keys_js (ms : List (Text × Json.Value)) :
    (JsValue.loadMembers ms).map Prod.fst = ms.map Prod.fst := by
  induction ms with
  | nil => rfl
  | cons m ms ih =>
    obtain ⟨k, v⟩ := m
    rw [JsValue.loadMembers, List.map_cons, List.map_cons, ih]

/-- Members with different names stay as they are. -/
theorem foldl_setMember {ms : List (Text × JsValue)} :
    ∀ {o : List (Text × JsValue)}, ((o ++ ms).map Prod.fst).Nodup →
      ms.foldl (fun o m => JsValue.setMember o m.1 m.2) o = o ++ ms := by
  induction ms with
  | nil => exact fun _ => (List.append_nil _).symm
  | cons m ms ih =>
    intro o hnodup
    have hfresh : (o.map Prod.fst).contains m.1 = false := by
      rw [List.map_append, List.map_cons] at hnodup
      have hdisjoint := (List.nodup_append.mp hnodup).2.2
      rw [List.contains_eq_mem, decide_eq_false_iff_not]
      exact fun hmem => hdisjoint _ hmem _ List.mem_cons_self rfl
    have hset : JsValue.setMember o m.1 m.2 = o ++ [m] := by
      unfold JsValue.setMember
      rw [hfresh, if_neg Bool.false_ne_true]
    rw [List.foldl_cons, hset, ih (by simpa using hnodup)]
    simp

/-- An object without repeated names, in both languages. -/
theorem load_obj {ms : List (Text × Json.Value)} {p : PyValue}
    (h : PyValue.load (.obj ms) = some p) :
    ∃ ds, p = .dict ds ∧ PyValue.loadMembers ms = some ds ∧ (ds.map Prod.fst).Nodup ∧
      JsValue.load (.obj ms) = .obj (JsValue.loadMembers ms) := by
  rw [PyValue.load] at h
  obtain ⟨ds, hds, h⟩ := Option.bind_eq_some_iff.mp h
  split at h
  · next hnodup =>
    cases h
    refine ⟨ds, rfl, hds, hnodup, ?_⟩
    rw [JsValue.load, foldl_setMember, List.nil_append]
    rw [List.nil_append, keys_js, ← keys_py hds]
    exact hnodup
  · cases h

mutual

/-- **One document in two languages**: the values are the same unless an integer
    literal is rounded. By recursion on the document. -/
theorem same_load (v : Json.Value) {p : PyValue} (h : PyValue.load v = some p) :
    same p (JsValue.load v) = exactInts v := by
  cases v with
  | null =>
    cases h
    rfl
  | bool b =>
    cases h
    simp [JsValue.load, same, exactInts]
  | num n =>
    cases h
    simp only [JsValue.load, exactInts, PyValue.ofNumber]
    cases hint : n.isInt with
    | false => simp [same]
    | true => simp [same, Json.Number.double_of_isInt hint]
  | str s =>
    cases h
    simp [JsValue.load, same, exactInts]
  | arr vs =>
    rw [PyValue.load] at h
    obtain ⟨ps, hps, rfl⟩ := Option.map_eq_some_iff.mp h
    rw [JsValue.load, same, exactInts]
    exact sameList_load vs hps
  | obj ms =>
    obtain ⟨ds, rfl, hds, -, hjs⟩ := load_obj h
    rw [hjs, same, exactInts]
    exact sameMembers_load ms hds

theorem sameList_load (vs : List Json.Value) {ps : List PyValue}
    (h : PyValue.loadList vs = some ps) :
    sameList ps (JsValue.loadList vs) = exactIntsList vs := by
  cases vs with
  | nil =>
    cases h
    rfl
  | cons v vs =>
    rw [PyValue.loadList] at h
    obtain ⟨p, hp, h⟩ := Option.bind_eq_some_iff.mp h
    obtain ⟨ps', hps, rfl⟩ := Option.map_eq_some_iff.mp h
    rw [JsValue.loadList, sameList, exactIntsList, same_load v hp, sameList_load vs hps]

theorem sameMembers_load (ms : List (Text × Json.Value)) {ds : List (Text × PyValue)}
    (h : PyValue.loadMembers ms = some ds) :
    sameMembers ds (JsValue.loadMembers ms) = exactIntsMembers ms := by
  match ms with
  | [] =>
    cases h
    rfl
  | (k, v) :: ms =>
    rw [PyValue.loadMembers] at h
    obtain ⟨p, hp, h⟩ := Option.bind_eq_some_iff.mp h
    obtain ⟨ds', hds, rfl⟩ := Option.map_eq_some_iff.mp h
    rw [JsValue.loadMembers, sameMembers, exactIntsMembers, same_load v hp,
      sameMembers_load ms hds]
    simp

end

/-! ## Reading members -/

theorem lookup_py {ms : List (Text × Json.Value)} {ds : List (Text × PyValue)} {k : Text}
    {p : PyValue} (h : PyValue.loadMembers ms = some ds) (hp : ds.lookup k = some p) :
    ∃ w, ms.lookup k = some w ∧ PyValue.load w = some p := by
  induction ms generalizing ds with
  | nil =>
    cases h
    cases hp
  | cons m ms ih =>
    obtain ⟨k', v⟩ := m
    rw [PyValue.loadMembers] at h
    obtain ⟨q, hq, h⟩ := Option.bind_eq_some_iff.mp h
    obtain ⟨ds', hds', rfl⟩ := Option.map_eq_some_iff.mp h
    rw [List.lookup_cons] at hp ⊢
    cases hk : k == k' with
    | true =>
      rw [hk] at hp
      cases hp
      exact ⟨v, rfl, hq⟩
    | false =>
      rw [hk] at hp
      exact ih hds' hp

theorem lookup_js (ms : List (Text × Json.Value)) (k : Text) :
    (JsValue.loadMembers ms).lookup k = (ms.lookup k).map JsValue.load := by
  induction ms with
  | nil => rfl
  | cons m ms ih =>
    obtain ⟨k', v⟩ := m
    rw [JsValue.loadMembers, List.lookup_cons, List.lookup_cons]
    cases k == k' with
    | true => rfl
    | false => exact ih

/-- The documents behind each kind of Python value. -/
inductive Loads : Json.Value → PyValue → Prop
  | null : Loads .null .none
  | bool (b : Bool) : Loads (.bool b) (.bool b)
  | int {n : Json.Number} (h : n.isInt = true) : Loads (.num n) (.int n.toInt)
  | float {n : Json.Number} (h : n.isInt = false) : Loads (.num n) (.float n.double)
  | str (s : Text) : Loads (.str s) (.str s)
  | list (vs : List Json.Value) (ps : List PyValue) : Loads (.arr vs) (.list ps)
  | dict {ms : List (Text × Json.Value)} {ds : List (Text × PyValue)}
    (hds : PyValue.loadMembers ms = some ds) (hnodup : (ds.map Prod.fst).Nodup)
    (hjs : JsValue.load (.obj ms) = .obj (JsValue.loadMembers ms)) : Loads (.obj ms) (.dict ds)

theorem loads_of_load {v : Json.Value} {p : PyValue} (h : PyValue.load v = some p) : Loads v p := by
  cases v with
  | null =>
    cases h
    exact .null
  | bool b =>
    cases h
    exact .bool b
  | num n =>
    cases h
    cases hint : n.isInt with
    | true =>
      rw [PyValue.ofNumber, if_pos hint]
      exact .int hint
    | false =>
      rw [PyValue.ofNumber, hint, if_neg Bool.false_ne_true]
      exact .float hint
  | str s =>
    cases h
    exact .str s
  | arr vs =>
    rw [PyValue.load] at h
    obtain ⟨ps, -, rfl⟩ := Option.map_eq_some_iff.mp h
    exact .list vs ps
  | obj ms =>
    obtain ⟨ds, rfl, hds, hnodup, hjs⟩ := load_obj h
    exact .dict hds hnodup hjs

/-- A document whose value is a dictionary is an object. -/
theorem exists_obj_of_load {v : Json.Value} {ds : List (Text × PyValue)}
    (h : PyValue.load v = some (.dict ds)) :
    ∃ ms, v = .obj ms ∧ PyValue.loadMembers ms = some ds ∧ (ds.map Prod.fst).Nodup ∧
      JsValue.load v = .obj (JsValue.loadMembers ms) := by
  cases loads_of_load h with
  | dict hds hnodup hjs => exact ⟨_, rfl, hds, hnodup, hjs⟩

/-- A member that Python reads is one that JavaScript reads, of one document. -/
theorem prop_of_lookup {v : Json.Value} {ds : List (Text × PyValue)} {name : String} {p : PyValue}
    (h : PyValue.load v = some (.dict ds)) (hp : ds.lookup (text name) = some p) :
    ∃ w, member v name = some w ∧ PyValue.load w = some p ∧
      (JsValue.load v).prop name = some (JsValue.load w) := by
  obtain ⟨ms, rfl, hds, -, hjs⟩ := exists_obj_of_load h
  obtain ⟨w, hw, hload⟩ := lookup_py hds hp
  refine ⟨w, hw, hload, ?_⟩
  rw [hjs, JsValue.prop, lookup_js, hw, Option.map_some]

theorem eq_str_of_load {v : Json.Value} {s : Text} (h : PyValue.load v = some (.str s)) :
    v = .str s := by
  cases loads_of_load h
  rfl

theorem eq_bool_of_load {v : Json.Value} {b : Bool} (h : PyValue.load v = some (.bool b)) :
    v = .bool b := by
  cases loads_of_load h
  rfl

/-- A text that Python reads. -/
theorem prop_of_lookup_str {v : Json.Value} {ds : List (Text × PyValue)} {name : String} {s : Text}
    (h : PyValue.load v = some (.dict ds)) (hp : ds.lookup (text name) = some (.str s)) :
    member v name = some (.str s) ∧ (JsValue.load v).prop name = some (.str s) := by
  obtain ⟨w, hw, hload, hprop⟩ := prop_of_lookup h hp
  rw [eq_str_of_load hload] at hw hprop
  exact ⟨hw, hprop⟩

/-- A dictionary that Python reads is an object with the same members. -/
theorem prop_of_lookup_dict {v : Json.Value} {ds ps : List (Text × PyValue)} {name : String}
    (h : PyValue.load v = some (.dict ds)) (hp : ds.lookup (text name) = some (.dict ps)) :
    ∃ w js, PyValue.load w = some (.dict ps) ∧ JsValue.load w = .obj js ∧
      (JsValue.load v).prop name = some (.obj js) := by
  obtain ⟨w, -, hload, hprop⟩ := prop_of_lookup h hp
  obtain ⟨ms, rfl, -, -, hjs⟩ := exists_obj_of_load hload
  rw [hjs] at hprop
  exact ⟨_, _, hload, hjs, hprop⟩

/-! ## Sequence numbers -/

theorem exact_inj {a b : Int} (h : Double.exact a = Double.exact b) : a = b := by
  unfold Double.exact Double.exactIn at h
  exact Int.eq_of_mul_eq_mul_right (by positivity) (Double.finite.inj h)

/-- The sequence number of an accepted record, in JavaScript: Python takes `true` for
    1, and an integer literal for its exact value. -/
theorem sequence_iff {w : Json.Value} {p : PyValue} {n : Nat} (h : PyValue.load w = some p)
    (hn : 0 < n) (heq : p.eq (.int n) = true) :
    JsValue.load w = .num (.exact n) ↔ w ≠ .bool true ∧ exactInts w = true := by
  cases loads_of_load h with
  | @int m hint =>
    simp only [PyValue.eq, PyValue.asNumber, decide_eq_true_eq, Option.some.injEq] at heq
    have hz : m.toInt = n := (exact_inj heq).symm
    simp [JsValue.load, exactInts, hint, Json.Number.double_of_isInt hint, hz]
  | @float m hint =>
    simp only [PyValue.eq, PyValue.asNumber, decide_eq_true_eq, Option.some.injEq] at heq
    simp [JsValue.load, exactInts, hint, ← heq]
  | bool b =>
    simp only [PyValue.eq, PyValue.asNumber, decide_eq_true_eq, Option.some.injEq] at heq
    have hb := exact_inj heq
    cases b with
    | true => simp [JsValue.load]
    | false =>
      simp at hb
      omega
  | _ => simp [PyValue.eq] at heq

/-! ## Envelopes -/

theorem digits_of_isNatural {t : Text} (h : isNatural t = true) :
    t ≠ [] ∧ t.all Json.isDigit = true := by
  cases t with
  | nil => cases h
  | cons c r =>
    refine ⟨List.cons_ne_nil _ _, ?_⟩
    simp only [isNatural, Bool.or_eq_true, Bool.and_eq_true, decide_eq_true_eq] at h
    rw [List.all_cons, Bool.and_eq_true]
    rcases h with ⟨rfl, rfl⟩ | ⟨hc, hr⟩
    · exact ⟨rfl, rfl⟩
    · refine ⟨?_, hr⟩
      simp only [isDigit19, Bool.and_eq_true, decide_eq_true_eq] at hc
      simp only [Json.isDigit, Bool.and_eq_true, decide_eq_true_eq]
      omega

/-- **An accepted record in the dashboard**: its envelope is accepted there too,
    unless its kind is empty or its sequence number is `true` or rounded. -/
theorem envelopeOk_iff {v : Json.Value} {event : PyValue} {name : Text} {catalog : Catalog}
    {n : Nat} {ds dm : List (Text × PyValue)} (hload : PyValue.load v = some event)
    (hrecord : Accepted event name catalog n ds) (hn : 0 < n)
    (hdata : ds.lookup (text "data") = some (.dict dm)) :
    envelopeOk name n (JsValue.load v) = true ↔
      member v "kind" ≠ some (.str []) ∧
      ∃ w, member v "sequence" = some w ∧ w ≠ .bool true ∧ exactInts w = true := by
  rw [hrecord.event_eq] at hload
  obtain ⟨ms, -, -, -, hobj⟩ := exists_obj_of_load hload
  obtain ⟨-, hexp⟩ := prop_of_lookup_str hload hrecord.experiment
  obtain ⟨p, hp, heq⟩ := hrecord.sequence
  obtain ⟨w, hw, hwload, hseq⟩ := prop_of_lookup hload hp
  obtain ⟨t, ht, hnat⟩ := hrecord.timestamp
  obtain ⟨-, htime⟩ := prop_of_lookup_str hload ht
  obtain ⟨sm, domain, hsm, hdomain, hone, hclock⟩ := hrecord.source
  obtain ⟨sv, sj, hsv, hsj, hsource⟩ := prop_of_lookup_dict hload hsm
  have hdom : (JsValue.obj sj).prop "domain" = some (.str domain) :=
    hsj ▸ (prop_of_lookup_str hsv hdomain).2
  obtain ⟨-, hclock⟩ := prop_of_lookup_str hload hclock
  obtain ⟨cm, hcm⟩ := hrecord.context
  obtain ⟨-, cj, -, -, hcontext⟩ := prop_of_lookup_dict hload hcm
  obtain ⟨qm, status, hqm, hstatus, hthree⟩ := hrecord.quality
  obtain ⟨qv, qj, hqv, hqj, hquality⟩ := prop_of_lookup_dict hload hqm
  have hst : (JsValue.obj qj).prop "status" = some (.str status) :=
    hqj ▸ (prop_of_lookup_str hqv hstatus).2
  obtain ⟨-, kind, -, -, hkind, -⟩ := hrecord.payload
  obtain ⟨hkindMember, hkindProp⟩ := prop_of_lookup_str hload hkind
  obtain ⟨-, dj, -, -, hdataProp⟩ := prop_of_lookup_dict hload hdata
  -- the checks that the record passes anyway
  have hdomains : JsValue.isOneOf (some (.str domain)) ["host", "guest"] = true := by
    rcases hone with rfl | rfl <;> decide
  have hstatuses : JsValue.isOneOf (some (.str status)) ["complete", "partial", "unavailable"] =
      true := by
    rcases hthree with rfl | rfl | rfl <;> decide
  obtain ⟨hne, hdigits⟩ := digits_of_isNatural hnat
  have htruthy : (JsValue.load v).truthy = true := by rw [hobj]; rfl
  have hnumber : JsValue.isNumber (some (JsValue.load w)) n = true ↔
      JsValue.load w = .num (.exact n) := by
    cases JsValue.load w with
    | num x => simp [JsValue.isNumber]
    | _ => simp [JsValue.isNumber]
  simp only [envelopeOk, htruthy, hexp, hseq, hsource, hdom, hdomains, hclock, htime, hkindProp,
    hcontext, hdataProp, hquality, hst, hstatuses]
  simp only [JsValue.isStr, JsValue.truthy, isDigits, hdigits, decide_true, Bool.and_true,
    Bool.true_and, Option.any_some, Bool.and_eq_true, decide_eq_true_eq, hne, ne_eq,
    not_false_eq_true]
  rw [hnumber, sequence_iff hwload hn heq, hkindMember, hw]
  simp [and_comm]

/-! ## Records -/

/-- Every contract of the catalog is an object that cannot be null. -/
def ObjectContracts (catalog : Catalog) : Prop :=
  ∀ key spec, catalog.entries.lookup key = some spec →
    ∀ s, resolve catalog.types spec = .ok s → s.typ = some .object ∧ s.nullable = false

/-- The payload of an accepted record is a dictionary without numbers. -/
theorem payload_dict {event : PyValue} {name : Text} {catalog : Catalog} {n : Nat}
    {ds : List (Text × PyValue)} (hobjects : ObjectContracts catalog)
    (hrecord : Accepted event name catalog n ds) :
    ∃ dm, ds.lookup (text "data") = some (.dict dm) ∧
      ∀ m ∈ dm, (∀ z, m.2 ≠ .int z) ∧ ∀ x, m.2 ≠ .float x := by
  obtain ⟨mechanism, kind, data, spec, -, hspec, hdata, hcheck⟩ := hrecord.payload
  obtain ⟨s, hs⟩ : ∃ s, resolve catalog.types spec = .ok s := by
    cases hr : resolve catalog.types spec with
    | ok s => exact ⟨s, rfl⟩
    | error e =>
      rw [checkType.eq_def, hr] at hcheck
      cases hcheck
  obtain ⟨htyp, hnull⟩ := hobjects _ _ hspec s hs
  obtain ⟨dm, props, rfl, hmembers⟩ := dict_of_checkType hcheck hs htyp hnull
  refine ⟨dm, hdata, fun m hm => ?_⟩
  obtain ⟨spec', path', hm'⟩ := checkMembers_ok hmembers m hm
  exact not_number_of_checkType hm'

/-- The documents of an accepted file, each with its record. -/
theorem record_of_accepted {repo : Repo} {content name : Text} {events : List PyValue}
    {catalog : Catalog} {vs : List Json.Value} (h : AcceptedFile repo content name events catalog vs)
    {i : Nat} {v : Json.Value} (hv : vs[i]? = some v) :
    ∃ event ds, events[i]? = some event ∧ PyValue.load v = some event ∧
      Accepted event name catalog (1 + i) ds := by
  obtain ⟨hlt, hget⟩ := List.getElem?_eq_some_iff.mp hv
  have hlen := h.loads.length_eq
  have hlt' : i < events.length := hlen ▸ hlt
  have hload : PyValue.load v = some events[i] := hget ▸ h.loads.get hlt hlt'
  have hevent : events[i]? = some events[i] := List.getElem?_eq_getElem hlt'
  obtain ⟨ds, hrecord⟩ := validateRecord_ok (h.records i _ hevent)
  exact ⟨events[i], ds, hevent, hload, hrecord⟩

/-- A part of a document has no other integers than the document. -/
theorem exactInts_member {v w : Json.Value} {name : String} (h : exactInts v = true)
    (hw : member v name = some w) : exactInts w = true := by
  unfold member at hw
  split at hw
  · next ms =>
    rw [exactInts] at h
    induction ms with
    | nil => cases hw
    | cons m ms ih =>
      obtain ⟨k, v⟩ := m
      rw [exactIntsMembers, Bool.and_eq_true] at h
      rw [List.lookup_cons] at hw
      cases hk : text name == k with
      | true =>
        rw [hk] at hw
        cases hw
        exact h.1
      | false =>
        rw [hk] at hw
        exact ih h.2 hw
  · cases hw

/-! ## Lines -/

/-- Every document is accepted under its own number. -/
def EnvelopesOk (experiment : Text) (record : Nat) (vs : List Json.Value) : Prop :=
  ∀ i v, vs[i]? = some v → envelopeOk experiment (record + i) (JsValue.load v) = true

theorem EnvelopesOk.of_cons {experiment : Text} {record : Nat} {v : Json.Value}
    {vs : List Json.Value} (h : EnvelopesOk experiment record (v :: vs)) :
    envelopeOk experiment record (JsValue.load v) = true ∧
    EnvelopesOk experiment (record + 1) vs := by
  refine ⟨h 0 v rfl, fun i w hw => ?_⟩
  have hnext := h (i + 1) w (by simpa using hw)
  rwa [show record + (i + 1) = record + 1 + i by omega] at hnext

theorem EnvelopesOk.cons {experiment : Text} {record : Nat} {v : Json.Value}
    {vs : List Json.Value} (hv : envelopeOk experiment record (JsValue.load v) = true)
    (h : EnvelopesOk experiment (record + 1) vs) : EnvelopesOk experiment record (v :: vs) := by
  intro i w hw
  cases i with
  | zero =>
    cases hw
    exact hv
  | succ i =>
    have hnext := h i w (by simpa using hw)
    rwa [show record + 1 + i = record + (i + 1) by omega] at hnext

/-- The lines are read one by one. -/
theorem parseLines_eq_ok_iff {experiment : Text} {record : Nat} {lines : List Text}
    {events : List JsValue} :
    parseLines experiment record lines = .ok events ↔
      ∃ vs, JsonLines.Parses Json.codeUnits lines vs ∧ events = vs.map JsValue.load ∧
        EnvelopesOk experiment record vs := by
  induction lines generalizing record events with
  | nil =>
    constructor
    · intro h
      cases h
      exact ⟨[], .nil, rfl, fun i v hv => by simp at hv⟩
    · rintro ⟨vs, hparses, rfl, -⟩
      cases hparses
      rfl
  | cons line lines ih =>
    constructor
    · intro h
      rw [parseLines] at h
      split at h
      · cases h
      · next event hline =>
        split at h
        · cases h
        · next rest hrest =>
          cases h
          obtain ⟨vs, hparses, rfl, hok⟩ := ih.mp hrest
          unfold parseLine at hline
          split at hline
          · cases hline
          · next v hv =>
            split at hline
            · next henvelope =>
              cases hline
              exact ⟨v :: vs, .cons hv hparses, rfl, .cons henvelope hok⟩
            · cases hline
    · rintro ⟨vs, hparses, rfl, hok⟩
      cases hparses with
      | cons hv hparses =>
        obtain ⟨hfirst, hrest⟩ := hok.of_cons
        have hlines := ih.mpr ⟨_, hparses, rfl, hrest⟩
        rw [parseLines, parseLine, hv]
        simp only [hfirst, if_true, hlines, List.map_cons]

/-- The documents of lines are unique. -/
theorem parses_unique {lines : List Text} {us vs : List Json.Value}
    (hus : JsonLines.Parses Json.codeUnits lines us)
    (hvs : JsonLines.Parses Json.codeUnits lines vs) : us = vs := by
  induction hus generalizing vs with
  | nil =>
    cases hvs
    rfl
  | cons hu _ ih =>
    cases hvs with
    | cons hv hrest =>
      rw [hu] at hv
      rw [Option.some.inj hv, ih hrest]

/-! ## Finished captures -/

/-- The last document and the last record. -/
theorem exists_last {vs : List Json.Value} {events : List PyValue}
    (h : List.Forall₂ (fun v e => PyValue.load v = some e) vs events) (hne : events ≠ []) :
    ∃ (i : Nat) (v : Json.Value), vs[i]? = some v ∧ PyValue.load v = some (events.getLastD .none) ∧
      (vs.map JsValue.load).getLastD .null = JsValue.load v := by
  induction h with
  | nil => exact absurd rfl hne
  | @cons v e vs events hload hrest ih =>
    cases hrest with
    | nil => exact ⟨0, v, rfl, hload, rfl⟩
    | cons hload' hrest' =>
      obtain ⟨i, w, hw, hlast, hjs⟩ := ih (List.cons_ne_nil _ _)
      exact ⟨i + 1, w, by simpa using hw, hlast, hjs⟩

theorem kind_of_getItem {v : Json.Value} {event : PyValue} {kind : Text}
    (hload : PyValue.load v = some event) (h : event.getItem "kind" = .ok (.str kind)) :
    (JsValue.load v).prop "kind" = some (.str kind) := by
  obtain ⟨ds, rfl, hlookup⟩ := PyValue.getItem_eq_ok h
  exact (prop_of_lookup_str hload hlookup).2

theorem eq_true_of_eq {a : PyValue} (h : a.eq (.bool true) = true)
    (hnumber : (∀ z, a ≠ .int z) ∧ ∀ x, a ≠ .float x) : a = .bool true := by
  cases a with
  | bool b =>
    simp only [PyValue.eq, PyValue.asNumber, decide_eq_true_eq, Option.some.injEq] at h
    have hb := exact_inj h
    cases b with
    | true => rfl
    | false => simp at hb
  | int z => exact absurd rfl (hnumber.1 z)
  | float x => exact absurd rfl (hnumber.2 x)
  | _ => simp [PyValue.eq] at h

/-- The status of a successful capture is `validated: true`, not a number equal to it. -/
theorem validated_of_eq {v : Json.Value} {dm : List (Text × PyValue)}
    (hload : PyValue.load v = some (.dict dm))
    (hnumbers : ∀ m ∈ dm, (∀ z, m.2 ≠ .int z) ∧ ∀ x, m.2 ≠ .float x)
    (h : (PyValue.dict dm).eq successful = true) :
    (JsValue.load v).prop "validated" = some (.bool true) := by
  obtain ⟨ms, -, -, hnodup, -⟩ := exists_obj_of_load hload
  obtain ⟨a, ha, hsame⟩ := PyValue.exists_of_eq_dict (k := text "validated") (b := .bool true)
    hnodup h List.lookup_cons_self
  obtain ⟨l₁, l₂, heq, -⟩ := List.lookup_eq_some_iff.mp ha
  have hbool := eq_true_of_eq hsame (hnumbers (text "validated", a) (by rw [heq]; simp))
  rw [hbool] at ha
  obtain ⟨w, -, hw, hprop⟩ := prop_of_lookup hload ha
  rw [hprop, eq_bool_of_load hw]
  rfl

/-- An accepted file is a finished capture for the dashboard. -/
theorem completeCapture_of_accepted {repo : Repo} {content name : Text} {events : List PyValue}
    {catalog : Catalog} {vs : List Json.Value} (h : AcceptedFile repo content name events catalog vs)
    (hobjects : ObjectContracts catalog) : completeCapture (vs.map JsValue.load) = true := by
  have hlength := h.loads.length_eq
  have hthree := h.length
  -- the first record
  have hfirst : JsValue.isStr (((vs.map JsValue.load).headD .null).prop "kind")
      (text "capture_started") = true := by
    have hstarted := h.first
    cases hloads : h.loads with
    | nil => simp at hthree
    | cons hload _ =>
      have hkind := kind_of_getItem hload hstarted
      simp [JsValue.isStr, hkind]
  -- the last record and its status
  obtain ⟨i, v, hv, hload, hlast⟩ := exists_last h.loads (by rintro rfl; simp at hthree)
  obtain ⟨event, ds, -, hload', hrecord⟩ := record_of_accepted h hv
  have heq : event = events.getLastD .none := by
    rw [hload] at hload'
    exact (Option.some.inj hload').symm
  subst heq
  obtain ⟨dm, hdm, hnumbers⟩ := payload_dict hobjects hrecord
  obtain ⟨data, hdata, hstatus⟩ := h.status
  rw [hrecord.event_eq] at hdata hload
  rw [lookup_of_getItem hdata] at hdm
  cases hdm
  obtain ⟨w, js, hw, hjs, hprop⟩ := prop_of_lookup_dict hload (lookup_of_getItem hdata)
  have hvalidated := validated_of_eq hw hnumbers hstatus
  rw [hjs] at hvalidated
  have hkind := kind_of_getItem hload (hrecord.event_eq ▸ h.last)
  -- no record is a failure
  have hfailed : (vs.map JsValue.load).any
      (fun event => JsValue.isStr (event.prop "kind") (text "capture_failed")) = false := by
    rw [List.any_eq_false]
    intro j hj
    obtain ⟨u, hu, rfl⟩ := List.mem_map.mp hj
    obtain ⟨k, hk⟩ := List.getElem?_of_mem hu
    obtain ⟨e, es, he, heload, herecord⟩ := record_of_accepted h hk
    obtain ⟨kind, hkind', hnot⟩ := h.notFailed e (List.mem_of_getElem? he)
    obtain ⟨-, text', -, -, htext, -⟩ := herecord.payload
    rw [herecord.event_eq] at hkind' heload
    rw [lookup_of_getItem hkind'] at htext
    cases htext
    rw [(prop_of_lookup_str heload (lookup_of_getItem hkind')).2]
    simpa [JsValue.isStr, PyValue.isText, PyValue.eq] using hnot
  unfold completeCapture
  simp only [hfirst, hlast, hkind, hprop, hfailed, Option.bind_some, hvalidated]
  simp [JsValue.isStr, hlength, hthree]

/-! ## Agreement -/

/-- The documents of a file, one a line. -/
def recordsOf (content : Text) : List Json.Value :=
  (JsonLines.linesOf content).filterMap (Json.parseDocument Json.codeUnits)

/-- A file that both readers take alike: before trailing whitespace every CR stands
    before an LF, and no record has an integer that a double rounds, an empty kind, or
    `true` as its sequence number. -/
def ReadsAlike (content : Text) : Prop :=
  JsonLines.crPaired (trimEnd content) = true ∧
  ∀ v ∈ recordsOf content, exactInts v = true ∧ member v "kind" ≠ some (.str []) ∧
    member v "sequence" ≠ some (.bool true)

theorem recordsOf_eq {content : Text} {vs : List Json.Value}
    (h : JsonLines.Parses Json.codeUnits (JsonLines.linesOf content) vs) :
    recordsOf content = vs := by
  unfold recordsOf
  generalize JsonLines.linesOf content = lines at h
  induction h with
  | nil => rfl
  | cons hv _ ih => rw [List.filterMap_cons_some hv, ih]

theorem isJsSpace_of_isWs (c : Nat) (h : Json.isWs c = true) : isJsSpace c = true := by
  simp only [Json.isWs, Bool.or_eq_true, decide_eq_true_eq] at h
  rcases h with ((rfl | rfl) | rfl) | rfl <;> decide

theorem not_isJsSpace_of_visible (c : Nat) (h : Json.Visible c) : isJsSpace c = false := by
  unfold Json.Visible at h
  simp only [isJsSpace, Bool.or_eq_false_iff, Bool.and_eq_false_iff, decide_eq_false_iff_not]
  omega

section

variable {repo : Repo} {content name : Text} {events : List PyValue} {catalog : Catalog}
  {vs : List Json.Value}

theorem documents_ne_nil (h : AcceptedFile repo content name events catalog vs) : vs ≠ [] := by
  rintro rfl
  have hlength := h.loads.length_eq
  have hthree := h.length
  rw [← hlength] at hthree
  simp at hthree

/-- An accepted file is not blank. -/
theorem not_all_space (h : AcceptedFile repo content name events catalog vs) :
    content.all isJsSpace = false := by
  cases hall : content.all isJsSpace with
  | false => rfl
  | true =>
    refine absurd (JsonLines.eq_nil_of_parses h.parses fun c hc hvis => ?_) (documents_ne_nil h)
    rcases JsonLines.mem_universalNewlines hc with hmem | rfl
    · have hspace := List.all_eq_true.mp hall c hmem
      rw [not_isJsSpace_of_visible c hvis] at hspace
      cases hspace
    · exact absurd hvis (by decide)

/-- The documents of an accepted file are those of the dashboard's lines exactly when
    no CR is alone. -/
theorem parses_pieces_iff (h : AcceptedFile repo content name events catalog vs)
    {us : List Json.Value} :
    JsonLines.Parses Json.codeUnits (JsonLines.splitCrLf (trimEnd content)) us ↔
      us = vs ∧ JsonLines.crPaired (trimEnd content) = true := by
  have hne := documents_ne_nil h
  constructor
  · intro hus
    cases hcr : JsonLines.crPaired (trimEnd content) with
    | false =>
      -- two records in one piece
      have htrimmed := JsonLines.parses_splitLf_trimmed isJsSpace_of_isWs not_isJsSpace_of_visible
        hne h.parses
      obtain ⟨piece, hpiece, hnone⟩ := JsonLines.exists_none_of_not_crPaired htrimmed hcr
      obtain ⟨v, hv⟩ := JsonLines.exists_of_parses hus hpiece
      rw [hnone] at hv
      cases hv
    | true =>
      have hvs := JsonLines.parses_splitCrLf isJsSpace_of_isWs not_isJsSpace_of_visible hne
        h.parses hcr
      exact ⟨parses_unique hus hvs, rfl⟩
  · rintro ⟨rfl, hcr⟩
    exact JsonLines.parses_splitCrLf isJsSpace_of_isWs not_isJsSpace_of_visible hne h.parses hcr

/-- The envelopes of an accepted file in the dashboard. -/
theorem envelopesOk_iff (h : AcceptedFile repo content name events catalog vs)
    (hobjects : ObjectContracts catalog) (hexact : ∀ v ∈ vs, exactInts v = true) :
    EnvelopesOk name 1 vs ↔ ∀ v ∈ vs, member v "kind" ≠ some (.str []) ∧
      member v "sequence" ≠ some (.bool true) := by
  have hrecord : ∀ i v, vs[i]? = some v →
      (envelopeOk name (1 + i) (JsValue.load v) = true ↔ member v "kind" ≠ some (.str []) ∧
        member v "sequence" ≠ some (.bool true)) := by
    intro i v hv
    obtain ⟨event, ds, -, hload, hrecord⟩ := record_of_accepted h hv
    obtain ⟨dm, hdm, -⟩ := payload_dict hobjects hrecord
    rw [envelopeOk_iff hload hrecord (by omega) hdm]
    obtain ⟨p, hp, -⟩ := hrecord.sequence
    obtain ⟨w, hw, -⟩ := prop_of_lookup (hrecord.event_eq ▸ hload) hp
    have hwexact : exactInts w = true := exactInts_member (hexact v (List.mem_of_getElem? hv)) hw
    rw [hw]
    simp [hwexact]
  constructor
  · intro hok v hv
    obtain ⟨i, hi⟩ := List.getElem?_of_mem hv
    exact (hrecord i v hi).mp (hok i v hi)
  · intro hall i v hv
    exact (hrecord i v hv).mpr (hall v (List.mem_of_getElem? hv))

/-- The events are the same exactly when no integer is rounded. -/
theorem same_events_iff (h : AcceptedFile repo content name events catalog vs) :
    List.Forall₂ (fun e j => same e j = true) events (vs.map JsValue.load) ↔
      ∀ v ∈ vs, exactInts v = true := by
  have hloads := h.loads
  clear h
  induction hloads with
  | nil => simp
  | cons hload _ ih =>
    rw [List.map_cons, List.forall₂_cons, same_load _ hload, List.forall_mem_cons]
    exact and_congr_right fun _ => ih

end

/-- **Agreement of the two readers**: on a file that `validate` accepts, with a catalog
    of object contracts, `parseCapture` returns the same events in the same order
    exactly when the file `ReadsAlike`. -/
theorem parseCapture_agrees_iff (limits : Limits) (repo : Repo) (content name : Text)
    (events : List PyValue)
    (hobjects : ∀ catalog, catalogOf repo name = .ok catalog → ObjectContracts catalog)
    (hvalid : validate limits repo content name true = .ok events) :
    (∃ capture, parseCapture content name = .ok capture ∧
      List.Forall₂ (fun e j => same e j = true) events capture.events) ↔
    ReadsAlike content := by
  obtain ⟨catalog, vs, h⟩ := validate_ok hvalid
  have hcontracts := hobjects catalog h.catalog_eq
  unfold ReadsAlike
  rw [recordsOf_eq h.parses]
  constructor
  · rintro ⟨capture, hcapture, hsame⟩
    unfold parseCapture at hcapture
    split at hcapture
    · cases hcapture
    split at hcapture
    · cases hcapture
    · next js hlines =>
      split at hcapture
      · cases hcapture
        obtain ⟨us, hparses, rfl, hok⟩ := parseLines_eq_ok_iff.mp hlines
        obtain ⟨rfl, hcr⟩ := (parses_pieces_iff h).mp hparses
        have hexact := (same_events_iff h).mp hsame
        have henvelopes := (envelopesOk_iff h hcontracts hexact).mp hok
        exact ⟨hcr, fun v hv => ⟨hexact v hv, henvelopes v hv⟩⟩
      · cases hcapture
  · rintro ⟨hcr, hall⟩
    have hexact : ∀ v ∈ vs, exactInts v = true := fun v hv => (hall v hv).1
    have hparses := (parses_pieces_iff h).mpr ⟨rfl, hcr⟩
    have hok := (envelopesOk_iff h hcontracts hexact).mpr fun v hv => (hall v hv).2
    have hlines := parseLines_eq_ok_iff.mpr ⟨vs, hparses, rfl, hok⟩
    refine ⟨captureOf name (vs.map JsValue.load), ?_, (same_events_iff h).mpr hexact⟩
    unfold parseCapture
    rw [not_all_space h, if_neg Bool.false_ne_true, hlines]
    simp only [completeCapture_of_accepted h hcontracts, if_true]

/-! ## A capture that the two readers do not take alike -/

/-- One record of a capture, with its sequence number, kind and payload. -/
def recordLine (sequence kind data : String) : Text :=
  text "\x7b\"experiment\":\"io\",\"sequence\":" ++ text sequence ++
    text ",\"source\":\x7b\"collector\":\"c\",\"mechanism\":\"framework\"," ++
    text "\"domain\":\"guest\",\"hook\":null\x7d,\"kind\":\"" ++ text kind ++
    text "\",\"timestamp_ns\":\"7\",\"clock_domain\":\"guest:monotonic\"," ++
    text "\"context\":\x7b\"cpu\":0,\"pid\":null,\"tid\":null,\"comm\":null,\"phase\":null," ++
    text "\"operation\":null\x7d,\"quality\":\x7b\"status\":\"complete\",\"reasons\":[]\x7d," ++
    text "\"data\":" ++ text data ++ text "\x7d\n"

/-- An object contract with these fields, all of one type and all required. -/
def objectSpec (typ : TypeName) (fields : List String) : Spec :=
  .mk none false (some .object)
    (some (fields.map fun f => (text f, .mk none false (some typ) none [] none)))
    (fields.map text) none

/-- One experiment, with the records of the lifecycle alone. -/
def sampleRepo : Repo where
  names := [text "io"]
  manifest := fun _ => ⟨text "io", [], false⟩
  payloads := fun _ => some ⟨[], none⟩
  lifecycle := ⟨[(text "framework:capture_started", objectSpec .string []),
    (text "framework:collector_ready", objectSpec .string ["collector"]),
    (text "framework:collector_finished", objectSpec .string ["collector", "dropped", "failures"]),
    (text "framework:capture_finished", objectSpec .boolean ["validated", "restored"])], none⟩

/-- A capture of four records whose first sequence number is written `true`. -/
def sampleCapture : Text :=
  recordLine "true" "capture_started" "\x7b\x7d" ++
  recordLine "2" "collector_ready" "\x7b\"collector\":\"o\"\x7d" ++
  recordLine "3" "collector_finished"
    "\x7b\"collector\":\"o\",\"dropped\":\"0\",\"failures\":\"0\"\x7d" ++
  recordLine "4" "capture_finished" "\x7b\"validated\":true,\"restored\":true\x7d"

theorem sampleRepo_objectContracts (catalog : Catalog)
    (h : catalogOf sampleRepo (text "io") = .ok catalog) : ObjectContracts catalog := by
  cases h
  intro key spec hspec s hs
  -- every entry is an `objectSpec`, which is no reference
  have hentry : ∃ typ fields, spec = objectSpec typ fields := by
    obtain ⟨l₁, l₂, heq, -⟩ := List.lookup_eq_some_iff.mp hspec
    have hmem : (key, spec) ∈ (Catalog.update ⟨[], none⟩ sampleRepo.lifecycle).entries := by
      rw [heq]
      simp
    simp only [Catalog.update, sampleRepo, List.append_nil, List.mem_cons, Prod.mk.injEq,
      List.not_mem_nil, or_false] at hmem
    rcases hmem with ⟨-, rfl⟩ | ⟨-, rfl⟩ | ⟨-, rfl⟩ | ⟨-, rfl⟩
    · exact ⟨_, _, rfl⟩
    · exact ⟨_, _, rfl⟩
    · exact ⟨_, _, rfl⟩
    · exact ⟨_, _, rfl⟩
  obtain ⟨typ, fields, rfl⟩ := hentry
  cases hs
  exact ⟨rfl, rfl⟩

theorem exists_of_isOk {ε α : Type} {x : Except ε α} (h : x.isOk = true) : ∃ a, x = .ok a := by
  cases x with
  | error e => cases h
  | ok a => exact ⟨a, rfl⟩

/-- The framework accepts the capture: `True == 1`. -/
theorem sampleCapture_valid :
    ∃ events, validate cpython sampleRepo sampleCapture (text "io") true = .ok events :=
  exists_of_isOk (by decide +kernel)

theorem parseCapture_agrees_iff_sampleCapture :
    ∃ events, validate cpython sampleRepo sampleCapture (text "io") true = .ok events ∧
      ((∃ capture, parseCapture sampleCapture (text "io") = .ok capture ∧
        List.Forall₂ (fun e j => same e j = true) events capture.events) ↔
      ReadsAlike sampleCapture) := by
  obtain ⟨events, hvalid⟩ := sampleCapture_valid
  exact ⟨events, hvalid, parseCapture_agrees_iff cpython sampleRepo sampleCapture (text "io") events
    sampleRepo_objectContracts hvalid⟩

/-- The dashboard rejects it: `true !== 1`. -/
theorem sampleCapture_invalidEnvelope :
    parseCapture sampleCapture (text "io") = .error (.invalidEnvelope 1) := by
  have hthrows : (match parseCapture sampleCapture (text "io") with
      | .error e => decide (e = .invalidEnvelope 1)
      | .ok _ => false) = true := by decide +kernel
  split at hthrows
  · next e he => rw [he, of_decide_eq_true hthrows]
  · cases hthrows

/-- So a capture that the framework accepts may be none for the dashboard. -/
theorem accepted_capture_rejected :
    ¬ ∀ (limits : Limits) (repo : Repo) (content name : Text) (events : List PyValue),
      (∀ catalog, catalogOf repo name = .ok catalog → ObjectContracts catalog) →
      validate limits repo content name true = .ok events →
      ∃ capture, parseCapture content name = .ok capture ∧
        List.Forall₂ (fun e j => same e j = true) events capture.events := by
  intro hclaim
  obtain ⟨events, hvalid⟩ := sampleCapture_valid
  obtain ⟨capture, hcapture, -⟩ := hclaim cpython sampleRepo sampleCapture (text "io") events
    sampleRepo_objectContracts hvalid
  rw [sampleCapture_invalidEnvelope] at hcapture
  cases hcapture

end LinuxMaxxing.App
