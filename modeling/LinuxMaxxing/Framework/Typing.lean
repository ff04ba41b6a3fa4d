import LinuxMaxxing.Framework.Validate

/-!
# The Typing of Payloads

A contract of `payloads.json` describes a set of JSON values, and its `$defs` may refer to each other
and to themselves. `check_type` follows the value and not the contract, so it comes to an end whatever
the references are, and it accepts the values of the contract and no others.

- `NaturalText`, `DecimalText`, `HexadecimalText`: the texts of the two expressions
- `HasType`: the values of a contract; a `$ref` stands for its definition
- `checkTypeWithin`: `check_type` where calls may be nested up to a limit
- `checkTypeWithin_eq`: the depth of the value is limit enough
- `checkType_decides`: what is accepted are the values of the contract
-/

namespace LinuxMaxxing.Framework

open LinuxMaxxing.Lib

/-! ## Texts -/

/-- `0`, or digits of which the first is not `0`. -/
inductive NaturalText : Text → Prop
  | zero : NaturalText [0x30]
  | positive {c : Nat} {digits : Text} (first : 0x31 ≤ c ∧ c ≤ 0x39)
      (others : ∀ d ∈ digits, 0x30 ≤ d ∧ d ≤ 0x39) : NaturalText (c :: digits)

/-- A natural number with or without a minus sign. -/
inductive DecimalText : Text → Prop
  | natural {s : Text} (h : NaturalText s) : DecimalText s
  | negative {s : Text} (h : NaturalText s) : DecimalText (0x2d :: s)

/-- `0x` and digits, the letters in lower case. -/
inductive HexadecimalText : Text → Prop
  | digits {s : Text} (nonempty : s ≠ [])
      (each : ∀ c ∈ s, (0x30 ≤ c ∧ c ≤ 0x39) ∨ (0x61 ≤ c ∧ c ≤ 0x66)) :
      HexadecimalText (text "0x" ++ s)

theorem isNatural_iff {s : Text} : isNatural s = true ↔ NaturalText s := by
  constructor
  · intro h
    cases s with
    | nil => exact absurd h nofun
    | cons c r =>
      simp only [isNatural, isDigit19, Bool.or_eq_true, Bool.and_eq_true, decide_eq_true_eq,
        List.all_eq_true, Json.isDigit] at h
      rcases h with ⟨rfl, rfl⟩ | ⟨hfirst, hothers⟩
      · exact .zero
      · exact .positive hfirst hothers
  · intro h
    cases h with
    | zero => rfl
    | positive first others =>
      simp only [isNatural, isDigit19, Bool.or_eq_true, Bool.and_eq_true, decide_eq_true_eq,
        List.all_eq_true, Json.isDigit]
      exact .inr ⟨first, others⟩

theorem isDecimal_iff {s : Text} : isDecimal s = true ↔ DecimalText s := by
  unfold isDecimal
  rw [Bool.or_eq_true, Bool.and_eq_true, decide_eq_true_eq, isNatural_iff, isNatural_iff]
  constructor
  · rintro (h | ⟨hminus, h⟩)
    · exact .natural h
    · cases s with
      | nil => exact absurd hminus nofun
      | cons c r =>
        obtain rfl := Option.some.inj hminus
        exact .negative h
  · intro h
    cases h with
    | natural h => exact .inl h
    | negative h => exact .inr ⟨rfl, h⟩

theorem isHexadecimal_iff {s : Text} : isHexadecimal s = true ↔ HexadecimalText s := by
  unfold isHexadecimal
  simp only [Bool.and_eq_true, Bool.or_eq_true, decide_eq_true_eq, List.all_eq_true, Json.isDigit]
  constructor
  · rintro ⟨⟨hmark, hne⟩, hall⟩
    rw [← List.take_append_drop 2 s, hmark]
    exact .digits hne hall
  · intro h
    cases h with
    | digits nonempty each => exact ⟨⟨rfl, nonempty⟩, each⟩

/-! ## The relation -/

section Relation

variable (types : List (Text × Spec))

/-- What a contract stands for: a `$ref` for its definition, any other for itself. Nothing else that
    stands next to a `$ref` counts. -/
inductive Denotes : Spec → Spec → Prop
  | itself {spec : Spec} (plain : spec.ref = none) : Denotes spec spec
  | definition {spec d : Spec} {n : Text} (ref : spec.ref = some n)
      (found : types.lookup n = some d) : Denotes spec d

/-- **The values of a contract.** -/
inductive HasType : PyValue → Spec → Prop
  | null {spec d : Spec} (denotes : Denotes types spec d) (nullable : d.nullable = true) :
      HasType .none spec
  /-- Each member has a field and is of its type, and no required one is missing. -/
  | object {spec d : Spec} {ms : List (Text × PyValue)} {props : List (Text × Spec)}
      (denotes : Denotes types spec d) (typ : d.typ = some .object)
      (fields : d.fields = some props) (known : ∀ m ∈ ms, ∃ f, props.lookup m.1 = some f)
      (required : ∀ k ∈ d.required, ∃ m ∈ ms, m.1 = k)
      (members : ∀ m ∈ ms, ∀ f, props.lookup m.1 = some f → HasType m.2 f) :
      HasType (.dict ms) spec
  /-- All elements are of one type; an empty array needs none. -/
  | array {spec d : Spec} {vs : List PyValue} (denotes : Denotes types spec d)
      (typ : d.typ = some .array) (known : ∀ v ∈ vs, ∃ item, d.items = some item)
      (elements : ∀ v ∈ vs, ∀ item, d.items = some item → HasType v item) :
      HasType (.list vs) spec
  | boolean {spec d : Spec} {b : Bool} (denotes : Denotes types spec d)
      (typ : d.typ = some .boolean) : HasType (.bool b) spec
  | string {spec d : Spec} {s : Text} (denotes : Denotes types spec d)
      (typ : d.typ = some .string) : HasType (.str s) spec
  | integer64 {spec d : Spec} {s : Text} (denotes : Denotes types spec d)
      (typ : d.typ = some .integer64) (decimal : DecimalText s) : HasType (.str s) spec
  | hex {spec d : Spec} {s : Text} (denotes : Denotes types spec d)
      (typ : d.typ = some .hex) (hexadecimal : HexadecimalText s) : HasType (.str s) spec

end Relation

section Denotes

variable {types : List (Text × Spec)} {spec d : Spec}

theorem resolve_eq_ok_iff : resolve types spec = .ok d ↔ Denotes types spec d := by
  unfold resolve
  cases href : spec.ref with
  | none =>
    constructor
    · intro h
      obtain rfl := Except.ok.inj h
      exact .itself href
    · intro h
      cases h with
      | itself plain => rfl
      | definition ref found => exact absurd (href.symm.trans ref) nofun
  | some n =>
    dsimp only
    constructor
    · intro h
      cases hlookup : types.lookup n with
      | none =>
        rw [hlookup] at h
        cases h
      | some s =>
        rw [hlookup] at h
        obtain rfl := Except.ok.inj h
        exact .definition href hlookup
    · intro h
      cases h with
      | itself plain => exact absurd (href.symm.trans plain) nofun
      | definition ref found =>
        obtain rfl := Option.some.inj (href.symm.trans ref)
        rw [found]

/-- A contract that stands for nothing has no value. -/
theorem HasType.denotes {value : PyValue} (h : HasType types value spec) :
    ∃ s, Denotes types spec s := by
  cases h with
  | null denotes | object denotes | array denotes | boolean denotes | string denotes
  | integer64 denotes | hex denotes => exact ⟨_, denotes⟩

theorem Denotes.unique {s : Spec} (hd : Denotes types spec d) (hs : Denotes types spec s) : s = d :=
  Except.ok.inj ((resolve_eq_ok_iff.mpr hs).symm.trans (resolve_eq_ok_iff.mpr hd))

/-- The values of a contract are told by what it stands for. -/
theorem HasType.of_denotes {spec' : Spec} {value : PyValue}
    (hsame : ∀ s, Denotes types spec s → Denotes types spec' s) (h : HasType types value spec) :
    HasType types value spec' := by
  cases h with
  | null denotes nullable => exact .null (hsame _ denotes) nullable
  | object denotes typ fields known required members =>
    exact .object (hsame _ denotes) typ fields known required members
  | array denotes typ known elements => exact .array (hsame _ denotes) typ known elements
  | boolean denotes typ => exact .boolean (hsame _ denotes) typ
  | string denotes typ => exact .string (hsame _ denotes) typ
  | integer64 denotes typ decimal => exact .integer64 (hsame _ denotes) typ decimal
  | hex denotes typ hexadecimal => exact .hex (hsame _ denotes) typ hexadecimal

/-- **A `$ref` stands for its definition**: it has the values of the definition, if that is no
    reference again. -/
theorem hasType_ref_iff {n : Text} (href : spec.ref = some n) (hfound : types.lookup n = some d)
    (hplain : d.ref = none) (value : PyValue) : HasType types value spec ↔ HasType types value d := by
  have hsame : ∀ s, Denotes types spec s ↔ Denotes types d s := by
    intro s
    rw [← resolve_eq_ok_iff, ← resolve_eq_ok_iff]
    unfold resolve
    rw [href, hplain]
    dsimp only
    rw [hfound]
  constructor
  · exact HasType.of_denotes fun s => (hsame s).mp
  · exact HasType.of_denotes fun s => (hsame s).mpr

theorem hasType_none_iff (hd : Denotes types spec d) :
    HasType types .none spec ↔ d.nullable = true := by
  constructor
  · rintro ⟨denotes, nullable⟩
    rw [← hd.unique denotes]
    exact nullable
  · exact fun h => .null hd h

/-- The objects of a contract. -/
theorem hasType_dict_iff (hd : Denotes types spec d) {ms : List (Text × PyValue)} :
    HasType types (.dict ms) spec ↔
      d.typ = some .object ∧ ∃ props, d.fields = some props ∧
        (∀ k ∈ d.required, ∃ m ∈ ms, m.1 = k) ∧
        ∀ m ∈ ms, ∃ f, props.lookup m.1 = some f ∧ HasType types m.2 f := by
  constructor
  · intro h
    cases h with
    | object denotes typ fields known required members =>
      obtain rfl := hd.unique denotes
      refine ⟨typ, _, fields, required, fun m hm => ?_⟩
      obtain ⟨f, hf⟩ := known m hm
      exact ⟨f, hf, members m hm f hf⟩
  · rintro ⟨htyp, props, hprops, hrequired, hmembers⟩
    refine .object hd htyp hprops (fun m hm => ?_) hrequired fun m hm f hf => ?_
    · obtain ⟨f, hf, -⟩ := hmembers m hm
      exact ⟨f, hf⟩
    · obtain ⟨f', hf', htype⟩ := hmembers m hm
      obtain rfl := Option.some.inj (hf.symm.trans hf')
      exact htype

/-- The arrays of a contract. -/
theorem hasType_list_iff (hd : Denotes types spec d) {vs : List PyValue} :
    HasType types (.list vs) spec ↔
      d.typ = some .array ∧ ∀ v ∈ vs, ∃ item, d.items = some item ∧ HasType types v item := by
  constructor
  · intro h
    cases h with
    | array denotes typ known elements =>
      obtain rfl := hd.unique denotes
      refine ⟨typ, fun v hv => ?_⟩
      obtain ⟨item, hitem⟩ := known v hv
      exact ⟨item, hitem, elements v hv item hitem⟩
  · rintro ⟨htyp, helements⟩
    refine .array hd htyp (fun v hv => ?_) fun v hv item hitem => ?_
    · obtain ⟨item, hitem, -⟩ := helements v hv
      exact ⟨item, hitem⟩
    · obtain ⟨item', hitem', htype⟩ := helements v hv
      obtain rfl := Option.some.inj (hitem.symm.trans hitem')
      exact htype

theorem hasType_bool_iff (hd : Denotes types spec d) {b : Bool} :
    HasType types (.bool b) spec ↔ d.typ = some .boolean := by
  constructor
  · intro h
    cases h with
    | boolean denotes typ =>
      obtain rfl := hd.unique denotes
      exact typ
  · exact fun h => .boolean hd h

/-- The texts of a contract. -/
theorem hasType_str_iff (hd : Denotes types spec d) {s : Text} :
    HasType types (.str s) spec ↔
      d.typ = some .string ∨ (d.typ = some .integer64 ∧ DecimalText s) ∨
        (d.typ = some .hex ∧ HexadecimalText s) := by
  constructor
  · intro h
    cases h with
    | string denotes typ =>
      obtain rfl := hd.unique denotes
      exact .inl typ
    | integer64 denotes typ decimal =>
      obtain rfl := hd.unique denotes
      exact .inr (.inl ⟨typ, decimal⟩)
    | hex denotes typ hexadecimal =>
      obtain rfl := hd.unique denotes
      exact .inr (.inr ⟨typ, hexadecimal⟩)
  · rintro (htyp | ⟨htyp, hdecimal⟩ | ⟨htyp, hhexadecimal⟩)
    · exact .string hd htyp
    · exact .integer64 hd htyp hdecimal
    · exact .hex hd htyp hhexadecimal

end Denotes

/-! ## The depth of a value -/

namespace PyValue

mutual

/-- How deep arrays and objects are nested. -/
def depth : PyValue → Nat
  | .list vs => depthList vs + 1
  | .dict ms => depthMembers ms + 1
  | .none => 0
  | .bool _ => 0
  | .int _ => 0
  | .float _ => 0
  | .str _ => 0

def depthList : List PyValue → Nat
  | [] => 0
  | v :: vs => max (depth v) (depthList vs)

def depthMembers : List (Text × PyValue) → Nat
  | [] => 0
  | (_, v) :: ms => max (depth v) (depthMembers ms)

end

theorem depth_le_depthList {vs : List PyValue} {v : PyValue} (h : v ∈ vs) :
    v.depth ≤ depthList vs := by
  induction vs with
  | nil => exact absurd h List.not_mem_nil
  | cons w vs ih =>
    rw [depthList]
    rcases List.mem_cons.mp h with rfl | h
    · exact le_max_left _ _
    · exact le_trans (ih h) (le_max_right _ _)

theorem depth_le_depthMembers {ms : List (Text × PyValue)} {m : Text × PyValue} (h : m ∈ ms) :
    m.2.depth ≤ depthMembers ms := by
  induction ms with
  | nil => exact absurd h List.not_mem_nil
  | cons n ms ih =>
    rw [depthMembers]
    rcases List.mem_cons.mp h with rfl | h
    · exact le_max_left _ _
    · exact le_trans (ih h) (le_max_right _ _)

/-- An element is less deep than its array. -/
theorem depth_lt_list {vs : List PyValue} {v : PyValue} (h : v ∈ vs) :
    v.depth < (PyValue.list vs).depth := by
  rw [depth]
  exact Nat.lt_succ_of_le (depth_le_depthList h)

/-- A member is less deep than its object. -/
theorem depth_lt_dict {ms : List (Text × PyValue)} {m : Text × PyValue} (h : m ∈ ms) :
    m.2.depth < (PyValue.dict ms).depth := by
  rw [depth]
  exact Nat.lt_succ_of_le (depth_le_depthMembers h)

end PyValue

/-! ## `check_type` of arrays and objects -/

section Equations

variable {types : List (Text × Spec)} {spec d : Spec} {path : Text}

theorem checkType_list (hd : resolve types spec = .ok d) (vs : List PyValue) :
    checkType types (.list vs) spec path =
      if d.typ = some .array then checkItems types vs d.items path else wrongType d.typ path := by
  rw [checkType, hd]
  dsimp only
  split
  · next htyp => exact (if_pos htyp).symm
  · next hne => exact (if_neg hne).symm

theorem checkType_dict (hd : resolve types spec = .ok d) (ms : List (Text × PyValue)) :
    checkType types (.dict ms) spec path =
      if d.typ = some .object then
        match d.fields with
        | none => .error .keyError
        | some props =>
          let unknown := (ms.map Prod.fst).filter fun k => (props.lookup k).isNone
          let missing := d.required.filter fun k => (ms.lookup k).isNone
          if unknown = [] ∧ missing = [] then checkMembers types ms props path
          else .error (.lab (.fields path unknown missing))
      else wrongType d.typ path := by
  rw [checkType, hd]
  dsimp only
  split
  · next htyp => exact (if_pos htyp).symm
  · next hne => exact (if_neg hne).symm

end Equations

/-! ## Calls up to a limit -/

/-- The calls of a loop in their order, up to the first that raises; `none` where one of them goes
    below the limit. -/
def checkEach {α : Type} (check : α → Option (Except PyExn Unit)) :
    List α → Option (Except PyExn Unit)
  | [] => some (.ok ())
  | a :: as =>
    match check a with
    | none => none
    | some (.error e) => some (.error e)
    | some (.ok ()) => checkEach check as

/-- The call for an element of an array. -/
def itemCall (call : PyValue → Spec → Text → Option (Except PyExn Unit)) (items : Option Spec)
    (path : Text) (v : PyValue) : Option (Except PyExn Unit) :=
  match items with
  | none => some (.error .keyError)
  | some item => call v item (path ++ text "[]")

/-- The call for a member of an object. -/
def memberCall (call : PyValue → Spec → Text → Option (Except PyExn Unit))
    (props : List (Text × Spec)) (path : Text) (m : Text × PyValue) :
    Option (Except PyExn Unit) :=
  match props.lookup m.1 with
  | none => some (.error .keyError)
  | some spec => call m.2 spec (path ++ text "." ++ m.1)

/-- `check_type` with at most so many calls in each other, as the interpreter has a limit for them;
    `none` where that is not enough. Only arrays and objects have calls. -/
def checkTypeWithin (types : List (Text × Spec)) :
    Nat → PyValue → Spec → Text → Option (Except PyExn Unit)
  | 0, _, _, _ => none
  | limit + 1, value, spec, path =>
    match resolve types spec with
    | .error e => some (.error e)
    | .ok d =>
      match value with
      | .dict ms =>
        if d.typ = some .object then
          match d.fields with
          | none => some (.error .keyError)
          | some props =>
            let unknown := (ms.map Prod.fst).filter fun k => (props.lookup k).isNone
            let missing := d.required.filter fun k => (ms.lookup k).isNone
            if unknown = [] ∧ missing = [] then
              checkEach (memberCall (checkTypeWithin types limit) props path) ms
            else some (.error (.lab (.fields path unknown missing)))
        else some (wrongType d.typ path)
      | .list vs =>
        if d.typ = some .array then
          checkEach (itemCall (checkTypeWithin types limit) d.items path) vs
        else some (wrongType d.typ path)
      | value => some (checkType types value spec path)

section Limit

variable {types : List (Text × Spec)} {call : PyValue → Spec → Text → Option (Except PyExn Unit)}
  {path : Text}

/-- The loop over an array, when the calls for its elements go well. -/
theorem checkEach_itemCall {items : Option Spec} {vs : List PyValue}
    (h : ∀ v ∈ vs, ∀ s p, call v s p = some (checkType types v s p)) :
    checkEach (itemCall call items path) vs = some (checkItems types vs items path) := by
  induction vs with
  | nil => rfl
  | cons v vs ih =>
    have hrest := ih fun w hw => h w (List.mem_cons_of_mem _ hw)
    cases items with
    | none => rfl
    | some item =>
      rw [checkEach, checkItems, itemCall, h v List.mem_cons_self]
      cases checkType types v item (path ++ text "[]") with
      | error e => rfl
      | ok u => exact hrest

/-- The loop over an object, when the calls for its members go well. -/
theorem checkEach_memberCall {props : List (Text × Spec)} {ms : List (Text × PyValue)}
    (h : ∀ m ∈ ms, ∀ s p, call m.2 s p = some (checkType types m.2 s p)) :
    checkEach (memberCall call props path) ms = some (checkMembers types ms props path) := by
  induction ms with
  | nil => rfl
  | cons m ms ih =>
    obtain ⟨k, v⟩ := m
    have hrest := ih fun w hw => h w (List.mem_cons_of_mem _ hw)
    rw [checkEach, checkMembers, memberCall]
    cases props.lookup k with
    | none => rfl
    | some f =>
      dsimp only
      rw [h (k, v) List.mem_cons_self]
      cases checkType types v f (path ++ text "." ++ k) with
      | error e => rfl
      | ok u => exact hrest

/-- **Termination**: whatever the references of the contract are, the depth of the value bounds the
    calls that are in each other. By induction on the limit, each call of a loop being one for a part
    of the value. -/
theorem checkTypeWithin_eq {limit : Nat} {value : PyValue} (h : value.depth < limit) (spec : Spec)
    (path : Text) :
    checkTypeWithin types limit value spec path = some (checkType types value spec path) := by
  induction limit generalizing value spec path with
  | zero => exact absurd h (Nat.not_lt_zero _)
  | succ limit ih =>
    rw [checkTypeWithin]
    cases hresolve : resolve types spec with
    | error e => rw [checkType.eq_def, hresolve]
    | ok d =>
      cases value with
      | dict ms =>
        have hparts : ∀ m ∈ ms, ∀ s p,
            checkTypeWithin types limit m.2 s p = some (checkType types m.2 s p) :=
          fun m hm s p => ih (lt_of_lt_of_le (PyValue.depth_lt_dict hm) (Nat.le_of_lt_succ h)) s p
        rw [checkType_dict hresolve]
        dsimp only
        split
        · cases d.fields with
          | none => rfl
          | some props =>
            dsimp only
            split
            · exact checkEach_memberCall hparts
            · rfl
        · rfl
      | list vs =>
        have hparts : ∀ v ∈ vs, ∀ s p,
            checkTypeWithin types limit v s p = some (checkType types v s p) :=
          fun v hv s p => ih (lt_of_lt_of_le (PyValue.depth_lt_list hv) (Nat.le_of_lt_succ h)) s p
        rw [checkType_list hresolve]
        dsimp only
        split
        · exact checkEach_itemCall hparts
        · rfl
      | none => rfl
      | bool b => rfl
      | int z => rfl
      | float x => rfl
      | str s => rfl

end Limit

/-! ## What is accepted -/

section Accepted

variable {types : List (Text × Spec)} {spec d : Spec} {path : Text}

/-- The elements of an accepted array. -/
theorem checkItems_eq_ok_iff {items : Option Spec} {vs : List PyValue} :
    checkItems types vs items path = .ok () ↔
      ∀ v ∈ vs, ∃ item, items = some item ∧
        checkType types v item (path ++ text "[]") = .ok () := by
  induction vs with
  | nil => simp [checkItems]
  | cons v vs ih =>
    rw [List.forall_mem_cons]
    cases items with
    | none => exact iff_of_false nofun fun ⟨⟨item, hitem, _⟩, _⟩ => nomatch hitem
    | some item =>
      rw [checkItems, ← ih]
      simp only [bind_eq_ok, Option.some.injEq, exists_eq_left']
      constructor
      · rintro ⟨_, hfirst, hrest⟩
        exact ⟨hfirst, hrest⟩
      · rintro ⟨hfirst, hrest⟩
        exact ⟨(), hfirst, hrest⟩

/-- The members of an accepted object. -/
theorem checkMembers_eq_ok_iff {props : List (Text × Spec)} {ms : List (Text × PyValue)} :
    checkMembers types ms props path = .ok () ↔
      ∀ m ∈ ms, ∃ f, props.lookup m.1 = some f ∧
        checkType types m.2 f (path ++ text "." ++ m.1) = .ok () := by
  induction ms with
  | nil => simp [checkMembers]
  | cons m ms ih =>
    obtain ⟨k, v⟩ := m
    rw [checkMembers, List.forall_mem_cons]
    cases hlookup : props.lookup k with
    | none =>
      refine iff_of_false nofun ?_
      rintro ⟨⟨f, hf, -⟩, -⟩
      cases hf
    | some f =>
      rw [← ih]
      simp only [bind_eq_ok, Option.some.injEq, exists_eq_left']
      constructor
      · rintro ⟨_, hfirst, hrest⟩
        exact ⟨hfirst, hrest⟩
      · rintro ⟨hfirst, hrest⟩
        exact ⟨(), hfirst, hrest⟩

/-- Keys that are in a list of members, told by the list of those that are not. -/
theorem filter_lookup_eq_nil_iff {α : Type} {keys : List Text} {ms : List (Text × α)} :
    (keys.filter fun k => (ms.lookup k).isNone) = [] ↔ ∀ k ∈ keys, ∃ v, ms.lookup k = some v := by
  rw [List.filter_eq_nil_iff]
  constructor
  · intro h k hk
    exact Option.isSome_iff_exists.mp (by simpa using h k hk)
  · intro h k hk
    obtain ⟨v, hv⟩ := h k hk
    rw [hv]
    exact Bool.false_ne_true

/-- A key is looked up where a member has it. -/
theorem lookup_iff_mem {α : Type} {ms : List (Text × α)} {k : Text} :
    (∃ v, ms.lookup k = some v) ↔ ∃ m ∈ ms, m.1 = k := by
  rw [← Option.isSome_iff_exists, List.lookup_isSome_iff]
  constructor
  · rintro ⟨m, hm, hsame⟩
    exact ⟨m, hm, (eq_of_beq hsame).symm⟩
  · rintro ⟨m, hm, rfl⟩
    exact ⟨m, hm, beq_self_eq_true _⟩

/-- **An accepted object**: its members are all known and accepted, and no required one is missing. -/
theorem checkType_dict_eq_ok_iff (hd : resolve types spec = .ok d) {ms : List (Text × PyValue)} :
    checkType types (.dict ms) spec path = .ok () ↔
      d.typ = some .object ∧ ∃ props, d.fields = some props ∧
        (∀ k ∈ d.required, ∃ m ∈ ms, m.1 = k) ∧
        ∀ m ∈ ms, ∃ f, props.lookup m.1 = some f ∧
          checkType types m.2 f (path ++ text "." ++ m.1) = .ok () := by
  rw [checkType_dict hd]
  by_cases htyp : d.typ = some .object
  · rw [if_pos htyp]
    cases hfields : d.fields with
    | none => exact iff_of_false nofun fun ⟨_, props, hprops, _⟩ => nomatch hprops
    | some props =>
      dsimp only
      constructor
      · intro h
        split at h
        · next hkeys =>
          have hrequired : ∀ k ∈ d.required, ∃ m ∈ ms, m.1 = k :=
            fun k hk => lookup_iff_mem.mp (filter_lookup_eq_nil_iff.mp hkeys.2 k hk)
          exact ⟨htyp, props, rfl, hrequired, checkMembers_eq_ok_iff.mp h⟩
        · cases h
      · rintro ⟨-, _, ⟨⟩, hrequired, hmembers⟩
        have hmissing : (d.required.filter fun k => (ms.lookup k).isNone) = [] :=
          filter_lookup_eq_nil_iff.mpr fun k hk => lookup_iff_mem.mpr (hrequired k hk)
        have hunknown : ((ms.map Prod.fst).filter fun k => (props.lookup k).isNone) = [] := by
          refine filter_lookup_eq_nil_iff.mpr fun k hk => ?_
          obtain ⟨m, hm, rfl⟩ := List.mem_map.mp hk
          obtain ⟨f, hf, -⟩ := hmembers m hm
          exact ⟨f, hf⟩
        rw [if_pos ⟨hunknown, hmissing⟩]
        exact checkMembers_eq_ok_iff.mpr hmembers
  · rw [if_neg htyp]
    exact iff_of_false (wrongType_ne_ok _ _) fun h => htyp h.1

theorem checkType_list_eq_ok_iff (hd : resolve types spec = .ok d) {vs : List PyValue} :
    checkType types (.list vs) spec path = .ok () ↔
      d.typ = some .array ∧ ∀ v ∈ vs, ∃ item, d.items = some item ∧
        checkType types v item (path ++ text "[]") = .ok () := by
  rw [checkType_list hd]
  by_cases htyp : d.typ = some .array
  · rw [if_pos htyp, checkItems_eq_ok_iff]
    exact (and_iff_right htyp).symm
  · rw [if_neg htyp]
    exact iff_of_false (wrongType_ne_ok _ _) fun h => htyp h.1

theorem checkType_bool_eq_ok_iff (hd : resolve types spec = .ok d) {b : Bool} :
    checkType types (.bool b) spec path = .ok () ↔ d.typ = some .boolean := by
  rw [checkType, hd]
  dsimp only
  split
  · next htyp => exact iff_of_true rfl htyp
  · next hne => exact iff_of_false (wrongType_ne_ok _ _) hne

theorem checkType_str_eq_ok_iff (hd : resolve types spec = .ok d) {s : Text} :
    checkType types (.str s) spec path = .ok () ↔
      d.typ = some .string ∨ (d.typ = some .integer64 ∧ DecimalText s) ∨
        (d.typ = some .hex ∧ HexadecimalText s) := by
  rw [checkType, hd]
  dsimp only
  split
  · next htyp => simp [htyp]
  · next htyp => simp [htyp, orRaise_eq_ok, isDecimal_iff]
  · next htyp => simp [htyp, orRaise_eq_ok, isHexadecimal_iff]
  · next hstring hinteger hhex =>
    refine iff_of_false (wrongType_ne_ok _ _) ?_
    rintro (htyp | ⟨htyp, -⟩ | ⟨htyp, -⟩)
    · exact hstring htyp
    · exact hinteger htyp
    · exact hhex htyp

theorem checkType_none_eq_ok_iff (hd : resolve types spec = .ok d) :
    checkType types .none spec path = .ok () ↔ d.nullable = true := by
  rw [checkType, hd]
  exact orRaise_eq_ok

/-- **`check_type` accepts the values of the contract.** By induction on the depth of the value; a
    contract that refers to itself is met again only at a part of the value. -/
theorem checkType_eq_ok_iff (value : PyValue) (spec : Spec) (path : Text) :
    checkType types value spec path = .ok () ↔ HasType types value spec := by
  induction hn : value.depth using Nat.strong_induction_on generalizing value spec path with
  | h n ih =>
    subst hn
    cases hresolve : resolve types spec with
    | error e =>
      rw [checkType.eq_def, hresolve]
      constructor
      · intro h
        cases h
      · intro h
        obtain ⟨d, hd⟩ := h.denotes
        cases hresolve.symm.trans (resolve_eq_ok_iff.mpr hd)
    | ok d =>
      have hd : Denotes types spec d := resolve_eq_ok_iff.mp hresolve
      cases value with
      | none => rw [checkType_none_eq_ok_iff hresolve, hasType_none_iff hd]
      | dict ms =>
        have hpart : ∀ m ∈ ms, ∀ f p, checkType types m.2 f p = .ok () ↔ HasType types m.2 f :=
          fun m hm f p => ih _ (PyValue.depth_lt_dict hm) m.2 f p rfl
        rw [checkType_dict_eq_ok_iff hresolve, hasType_dict_iff hd]
        refine and_congr_right fun _ => exists_congr fun props => and_congr_right fun _ =>
          and_congr_right fun _ => forall₂_congr fun m hm => exists_congr fun f => ?_
        rw [hpart m hm]
      | list vs =>
        have hpart : ∀ v ∈ vs, ∀ s p, checkType types v s p = .ok () ↔ HasType types v s :=
          fun v hv s p => ih _ (PyValue.depth_lt_list hv) v s p rfl
        rw [checkType_list_eq_ok_iff hresolve, hasType_list_iff hd]
        refine and_congr_right fun _ => forall₂_congr fun v hv => exists_congr fun item => ?_
        rw [hpart v hv]
      | bool b => rw [checkType_bool_eq_ok_iff hresolve, hasType_bool_iff hd]
      | str s => rw [checkType_str_eq_ok_iff hresolve, hasType_str_iff hd]
      | int z =>
        refine iff_of_false (fun h => (not_number_of_checkType h).1 z rfl) fun h => ?_
        cases h
      | float x =>
        refine iff_of_false (fun h => (not_number_of_checkType h).2 x rfl) fun h => ?_
        cases h

end Accepted

/-- **`check_type` decides the typing relation**: whatever the references of the contracts are, it
    comes to an end with calls no deeper in each other than the value is, and it accepts the values of
    the contract, where a `$ref` has the values of its definition. -/
theorem checkType_decides (types : List (Text × Spec)) (value : PyValue) (spec : Spec)
    (path : Text) :
    (∀ limit, value.depth < limit → ∃ result,
      checkTypeWithin types limit value spec path = some result ∧
        (result = .ok () ↔ HasType types value spec)) ∧
    (checkType types value spec path = .ok () ↔ HasType types value spec) ∧
    ∀ n d, spec.ref = some n → types.lookup n = some d → d.ref = none →
      (HasType types value spec ↔ HasType types value d) := by
  have haccepts : checkType types value spec path = .ok () ↔ HasType types value spec :=
    checkType_eq_ok_iff value spec path
  refine ⟨fun limit hlimit => ?_, haccepts, ?_⟩
  · exact ⟨_, checkTypeWithin_eq hlimit spec path, haccepts⟩
  · exact fun n d href hfound hplain => hasType_ref_iff href hfound hplain value

/-- A list as a contract that refers to itself: an object with a `value` and the `next` one, or null. -/
def nodeTypes : List (Text × Spec) :=
  [(text "node", .mk none true (some .object)
    (some [(text "value", .mk none false (some .hex) none [] none),
      (text "next", .mk (some (text "node")) false none none [] none)]) [text "value"] none)]

/-- `{"value": "0x1f", "next": {"value": "0xa", "next": null}}` -/
def twoNodes : PyValue :=
  .dict [(text "value", .str (text "0x1f")),
    (text "next", .dict [(text "value", .str (text "0xa")), (text "next", .none)])]

theorem checkType_decides_nodes :
    HasType nodeTypes twoNodes (.mk (some (text "node")) false none none [] none) ∧
      checkTypeWithin nodeTypes 3 twoNodes (.mk (some (text "node")) false none none [] none)
        (text "data") = some (.ok ()) := by
  have hdecides := checkType_decides nodeTypes twoNodes
    (.mk (some (text "node")) false none none [] none) (text "data")
  have htype := hdecides.2.1.mp rfl
  refine ⟨htype, ?_⟩
  obtain ⟨result, hresult, haccepts⟩ := hdecides.1 3 (by decide)
  rw [hresult, haccepts.mpr htype]

end LinuxMaxxing.Framework
