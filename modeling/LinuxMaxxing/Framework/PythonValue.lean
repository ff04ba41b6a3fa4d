import LinuxMaxxing.Lib.Json
import LinuxMaxxing.Lib.Binary64

/-!
# Python Values of JSON Documents

What `json.loads` returns in `runtime.py`, and the operations that the validation
applies to such values whatever their type: `==`, `value[key]`, `set(value)`,
`value.get(key)`. Where Python raises, so do they.

A text is the list of its UTF-16 code units. Python's strings are code points; the two
agree on equality, since neither a file nor `json.loads` yields the two halves of a
surrogate pair as separate code points.

What the interpreter's limits on nesting and on the digits of an integer reject is in `Loads`.
-/

namespace LinuxMaxxing.Framework

open LinuxMaxxing.Lib

/-- A text as its UTF-16 code units. -/
abbrev Text := List Nat

/-- Membership of a text in a list is decided by this instance, under one name everywhere. -/
instance : LawfulBEq Text := inferInstance

/-- The code units of a literal of the source: its octets, since it is ASCII. -/
def text (s : String) : Text := s.toUTF8.data.toList.map UInt8.toNat

/-! ## Values -/

/-- The values of `json.loads`. -/
inductive PyValue where
  | none
  | bool (b : Bool)
  | int (z : Int)
  | float (x : Double)
  | str (s : Text)
  | list (vs : List PyValue)
  | dict (ms : List (Text × PyValue))
  deriving Repr

namespace PyValue

/-- A number literal: an integer, or a float if it has a fraction or an exponent. -/
def ofNumber (n : Json.Number) : PyValue := if n.isInt then .int n.toInt else .float n.double

mutual

/-- The value of a document; `none` when an object has a key twice, for which the
    `pairs` hook raises. -/
def load : Json.Value → Option PyValue
  | .null => some .none
  | .bool b => some (.bool b)
  | .num n => some (ofNumber n)
  | .str s => some (.str s)
  | .arr vs => (loadList vs).map .list
  | .obj ms => (loadMembers ms).bind fun ds =>
    if (ds.map Prod.fst).Nodup then some (.dict ds) else Option.none

def loadList : List Json.Value → Option (List PyValue)
  | [] => some []
  | v :: vs => (load v).bind fun p => (loadList vs).map fun ps => p :: ps

def loadMembers : List (Text × Json.Value) → Option (List (Text × PyValue))
  | [] => some []
  | (k, v) :: ms => (load v).bind fun p => (loadMembers ms).map fun ds => (k, p) :: ds

end

/-! ## Equality -/

/-- The number that a value is for `==`; `True` is 1 and `False` is 0. -/
def asNumber : PyValue → Option Double
  | .bool b => some (.exact (if b then 1 else 0))
  | .int z => some (.exact z)
  | .float x => some x
  | _ => Option.none

mutual

/-- `a == b` -/
def eq : PyValue → PyValue → Bool
  | .none, .none => true
  | .str a, .str b => a = b
  | .list as, .list bs => eqList as bs
  | .dict as, .dict bs => as.length = bs.length && eqMembers as bs
  | .bool a, b => b.asNumber = some (.exact (if a then 1 else 0))
  | .int z, b => b.asNumber = some (.exact z)
  | .float x, b => b.asNumber = some x
  | _, _ => false

def eqList : List PyValue → List PyValue → Bool
  | [], [] => true
  | a :: as, b :: bs => eq a b && eqList as bs
  | _, _ => false

/-- Every member of the first is one of the second. -/
def eqMembers : List (Text × PyValue) → List (Text × PyValue) → Bool
  | [], _ => true
  | (k, a) :: as, bs =>
    (match bs.lookup k with
      | some b => eq a b
      | Option.none => false) && eqMembers as bs

end

/-- `a == "…"` -/
def isText (a : PyValue) (s : Text) : Bool := a.eq (.str s)

/-- `a in (…)` for a tuple of strings. -/
def isOneOf (a : PyValue) (names : List String) : Bool := names.any fun n => a.isText (text n)

end PyValue

/-! ## Exceptions -/

/-- What `LabError` is raised for in the validation of a capture, with the data of its
    text. -/
inductive LabError where
  | blankRecord (index : Nat)
  | invalidJson (index : Nat)
  | cannotBeNull (path : Text)
  | mustBeObject (path : Text)
  | fields (path : Text) (unknown missing : List Text)
  | mustBeArray (path : Text)
  | mustBeBoolean (path : Text)
  | mustBeString (path : Text)
  | mustBeDecimal (path : Text)
  | mustBeHexadecimal (path : Text)
  | onlyNull (path : Text)
  | unknownType (typ : Text)
  | invalidEnvelope (sequence : Nat)
  | invalidTimestamp
  | invalidSource
  | invalidClockDomain
  | unknownMechanism
  | invalidContext
  | invalidContextField (key : Text)
  | invalidQuality
  | qualityDisagrees
  | unregistered (key : Text)
  | incompleteLifecycle
  | failedCapture
  | unknownExperiment (name : Text)
  | manifestName
  | evidence (message : Text)
  deriving DecidableEq, Repr

/-- The exceptions that can leave the validation. -/
inductive PyExn where
  | lab (e : LabError)
  | keyError
  | typeError
  | attributeError
  | osError
  | recursionError
  deriving DecidableEq, Repr

/-- `raise LabError(…)` unless the condition holds. -/
def orRaise (condition : Bool) (e : LabError) : Except PyExn Unit :=
  if condition then .ok () else .error (.lab e)

theorem orRaise_eq_ok {condition : Bool} {e : LabError} {u : Unit} :
    orRaise condition e = .ok u ↔ condition = true := by
  unfold orRaise
  cases condition with
  | false => simp
  | true => simp

/-- A computation that went well did so step by step. -/
theorem bind_eq_ok {ε α β : Type} {x : Except ε α} {f : α → Except ε β} {b : β} :
    (x >>= f) = .ok b ↔ ∃ a, x = .ok a ∧ f a = .ok b := by
  cases x with
  | error e => simp [bind, Except.bind]
  | ok a => simp [bind, Except.bind]

namespace PyValue

/-! ## Subscripts and sets -/

/-- `value[key]` -/
def getItem (value : PyValue) (key : String) : Except PyExn PyValue :=
  match value with
  | .dict ms =>
    match ms.lookup (text key) with
    | some v => .ok v
    | Option.none => .error .keyError
  | _ => .error .typeError

/-- Whether `set` and `Counter` can hold the value. -/
def hashable : PyValue → Bool
  | .list _ => false
  | .dict _ => false
  | _ => true

/-- The elements of `set(value)`; of a string, one for each symbol. -/
def setOf (value : PyValue) : Except PyExn (List PyValue) :=
  match value with
  | .dict ms => .ok (ms.map fun m => .str m.1)
  | .list vs => if vs.all hashable then .ok vs else .error .typeError
  | .str s => .ok (s.map fun c => .str [c])
  | _ => .error .typeError

/-- `set(value) == {…}` for a set of names. -/
def keysAre (value : PyValue) (names : List String) : Except PyExn Bool := do
  let elements ← value.setOf
  return elements.all (·.isOneOf names) && names.all fun n => elements.any (·.isText (text n))

theorem getItem_eq_ok {value v : PyValue} {key : String} (h : value.getItem key = .ok v) :
    ∃ ms, value = .dict ms ∧ ms.lookup (text key) = some v := by
  unfold getItem at h
  split at h
  · next ms =>
    split at h
    · next w hw =>
      cases h
      exact ⟨ms, rfl, hw⟩
    · cases h
  · cases h

theorem eq_of_isText {a : PyValue} {s : Text} (h : a.isText s = true) : a = .str s := by
  unfold isText at h
  cases a with
  | str t =>
    simp only [eq, decide_eq_true_eq] at h
    rw [h]
  | _ => simp [eq, asNumber] at h

theorem exists_of_isOneOf {a : PyValue} {names : List String} (h : a.isOneOf names = true) :
    ∃ n ∈ names, a = .str (text n) := by
  obtain ⟨n, hn, ha⟩ := List.any_eq_true.mp h
  exact ⟨n, hn, eq_of_isText ha⟩

theorem exists_of_eqMembers {as bs : List (Text × PyValue)} (h : eqMembers as bs = true) :
    ∀ m ∈ as, ∃ b, bs.lookup m.1 = some b ∧ m.2.eq b = true := by
  induction as with
  | nil => exact fun m hm => by cases hm
  | cons m as ih =>
    obtain ⟨k, a⟩ := m
    rw [eqMembers, Bool.and_eq_true] at h
    intro m hm
    rcases List.mem_cons.mp hm with rfl | hm
    · have hfirst := h.1
      split at hfirst
      · next b hb => exact ⟨b, hb, hfirst⟩
      · cases hfirst
    · exact ih h.2 m hm

/-- Equal dictionaries have equal members. -/
theorem exists_of_eq_dict {as bs : List (Text × PyValue)} {k : Text} {b : PyValue}
    (hnodup : (as.map Prod.fst).Nodup) (h : (PyValue.dict as).eq (.dict bs) = true)
    (hb : bs.lookup k = some b) : ∃ a, as.lookup k = some a ∧ a.eq b = true := by
  rw [eq, Bool.and_eq_true, decide_eq_true_eq] at h
  have hmembers := exists_of_eqMembers h.2
  -- as many keys, all of them among the other's, are the same keys
  have hsubset : as.map Prod.fst ⊆ bs.map Prod.fst := by
    intro k' hk'
    obtain ⟨m, hm, rfl⟩ := List.mem_map.mp hk'
    obtain ⟨b', hb', -⟩ := hmembers m hm
    obtain ⟨l₁, l₂, rfl, -⟩ := List.lookup_eq_some_iff.mp hb'
    simp
  have hperm : List.Perm (as.map Prod.fst) (bs.map Prod.fst) :=
    (hnodup.subperm hsubset).perm_of_length_le (by simp [h.1])
  have hk : k ∈ as.map Prod.fst := by
    rw [hperm.mem_iff]
    obtain ⟨l₁, l₂, rfl, -⟩ := List.lookup_eq_some_iff.mp hb
    simp
  obtain ⟨m, hm, rfl⟩ := List.mem_map.mp hk
  obtain ⟨a, ha⟩ := Option.isSome_iff_exists.mp
    (List.lookup_isSome_iff.mpr ⟨m, hm, beq_self_eq_true m.1⟩)
  refine ⟨a, ha, ?_⟩
  obtain ⟨l₁, l₂, heq, -⟩ := List.lookup_eq_some_iff.mp ha
  obtain ⟨b', hb', hsame⟩ := hmembers (m.1, a) (by rw [heq]; simp)
  rw [hb] at hb'
  cases hb'
  exact hsame

end PyValue

end LinuxMaxxing.Framework
