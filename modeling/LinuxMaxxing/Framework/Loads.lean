import LinuxMaxxing.Lib.JsonGrammar
import LinuxMaxxing.Framework.PythonValue

/-!
# Reading JSON within the Interpreter's Limits

`json.loads` goes through a text from left to right and raises at the first thing that is wrong: a
`ValueError` where the text is no JSON, where the hook finds a key twice and where an integer has
too many digits, a `RecursionError` where the stack has no room for one more container or for a
call.

- `Limits`: what the interpreter has room for;
- `scanOnce`, `loads`: the reader;
- `PyValue.fits`: the values that are within the limits;
- `loads_eq_ok_iff`: what is read is the value of the document, if it fits;
- `scanOnce_fuel`: the bound on the calls is none.
-/

namespace LinuxMaxxing.Framework

open LinuxMaxxing.Lib

/-! ## Limits -/

/-- What the interpreter has room for where `json.loads` is called. -/
structure Limits where
  /-- The containers within each other that fit on the stack. -/
  nesting : Nat
  /-- The part of this room that the call of the hook takes when an object ends. -/
  hook : Nat
  /-- The part of it that a call takes which raises: that of the hook where a key comes twice, or
      that of `parse_constant`. -/
  raises : Nat
  /-- The digits of an integer. -/
  digits : Nat

/-- What CPython has by default, when the calls down to the reader have taken a few of a thousand
    places on the stack. -/
def cpython : Limits := ⟨980, 1, 2, 4300⟩

namespace PyValue

section Fits

variable (limits : Limits)

mutual

/-- The value is within the limits, with room for so many containers. -/
def fits (room : Nat) : PyValue → Bool
  | .int z => z.natAbs < 10 ^ limits.digits
  | .list vs => 0 < room && allFit (room - 1) vs
  | .dict ms => limits.hook < room && membersFit (room - 1) ms
  | _ => true

def allFit (room : Nat) : List PyValue → Bool
  | [] => true
  | v :: vs => fits room v && allFit room vs

def membersFit (room : Nat) : List (Text × PyValue) → Bool
  | [] => true
  | (_, v) :: ms => fits room v && membersFit room ms

end

end Fits

end PyValue

/-! ## The reader -/

/-- What `json.loads` raises. -/
inductive LoadError where
  | value
  | recursion
  deriving DecidableEq, Repr

def orValueError {α : Type} : Option α → Except LoadError α
  | some a => .ok a
  | none => .error .value

section Scanner

variable (limits : Limits)

/-- The value of a number literal. Its digits are those of the integer, since it has no leading
    zeros. -/
def parsedNumber (n : Json.Number) : Except LoadError PyValue :=
  if n.isInt && 10 ^ limits.digits ≤ n.int then .error .value else .ok (PyValue.ofNumber n)

/-- The end of an object: the call of the hook. -/
def endObject (room : Nat) (ms : List (Text × PyValue)) : Except LoadError PyValue :=
  if room ≤ limits.hook then .error .recursion
  else if (ms.map Prod.fst).Nodup then .ok (.dict ms)
  else if room ≤ limits.raises then .error .recursion
  else .error .value

/-- `NaN` and the infinities. -/
def isConstant (s : Text) : Bool :=
  (text "NaN").isPrefixOf s || (text "Infinity").isPrefixOf s || (text "-Infinity").isPrefixOf s

/-- `_match_number`, behind the constants, for which `parse_constant` is called. -/
def scanNumber (room : Nat) (s : Text) : Except LoadError (Json.Number × Text) :=
  match Json.parseNumber s with
  | some p => .ok p
  | none => .error (if isConstant s && room < limits.raises then .recursion else .value)

mutual

/-- `scan_once`, with a bound on the number of calls and the room that is left. -/
def scanOnce : Nat → Nat → Text → Except LoadError (PyValue × Text)
  | 0, _, _ => .error .value
  | _ + 1, _, [] => .error .value
  | fuel + 1, room, c :: r =>
    if c = 0x22 then do
      let p ← orValueError (Json.parseChars r)
      return (.str (Json.codeUnits p.1), p.2)
    else if c = 0x5b then
      if room = 0 then .error .recursion
      else if (Json.skipWs r).head? = some 0x5d then .ok (.list [], (Json.skipWs r).tail)
      else do
        let p ← scanArray fuel (room - 1) (Json.skipWs r)
        return (.list p.1, p.2)
    else if c = 0x7b then
      if room = 0 then .error .recursion
      else if (Json.skipWs r).head? = some 0x7d then do
        let v ← endObject limits room []
        return (v, (Json.skipWs r).tail)
      else do
        let p ← scanObject fuel (room - 1) (Json.skipWs r)
        let v ← endObject limits room p.1
        return (v, p.2)
    else if c = 0x74 then do
      let r' ← orValueError (r.dropPrefix? [0x72, 0x75, 0x65])
      return (.bool true, r')
    else if c = 0x66 then do
      let r' ← orValueError (r.dropPrefix? [0x61, 0x6c, 0x73, 0x65])
      return (.bool false, r')
    else if c = 0x6e then do
      let r' ← orValueError (r.dropPrefix? [0x75, 0x6c, 0x6c])
      return (.none, r')
    else do
      let p ← scanNumber limits room (c :: r)
      let v ← parsedNumber limits p.1
      return (v, p.2)

/-- `JSONArray`: the elements of a nonempty array and its closing bracket. -/
def scanArray : Nat → Nat → Text → Except LoadError (List PyValue × Text)
  | 0, _, _ => .error .value
  | fuel + 1, room, s => do
    let p ← scanOnce fuel room s
    match Json.skipWs p.2 with
    | [] => .error .value
    | c :: r =>
      if c = 0x2c then do
        let q ← scanArray fuel room (Json.skipWs r)
        return (p.1 :: q.1, q.2)
      else if c = 0x5d then .ok ([p.1], r)
      else .error .value

/-- `JSONObject`: the members of a nonempty object and its closing brace. -/
def scanObject : Nat → Nat → Text → Except LoadError (List (Text × PyValue) × Text)
  | 0, _, _ => .error .value
  | fuel + 1, room, s => do
    let k ← orValueError (Json.parseName Json.codeUnits s)
    let p ← scanOnce fuel room k.2
    match Json.skipWs p.2 with
    | [] => .error .value
    | c :: r =>
      if c = 0x2c then do
        let q ← scanObject fuel room (Json.skipWs r)
        return ((k.1, p.1) :: q.1, q.2)
      else if c = 0x7d then .ok ([(k.1, p.1)], r)
      else .error .value

end

/-- `json.loads`: one value between whitespace. A symbol is the reason for two calls at most. -/
def loads (s : Text) : Except LoadError PyValue := do
  let p ← scanOnce limits (2 * s.length + 2) limits.nesting (Json.skipWs s)
  if Json.skipWs p.2 = [] then return p.1 else .error .value

end Scanner

/-! ## What is read -/

theorem orValueError_eq_ok {α : Type} {x : Option α} {a : α} :
    orValueError x = .ok a ↔ x = some a := by
  cases x with
  | none => simp [orValueError]
  | some b => simp [orValueError]

section Reads

variable {limits : Limits}

theorem parsedNumber_eq_ok {n : Json.Number} {v : PyValue} {room : Nat} :
    parsedNumber limits n = .ok v ↔
      PyValue.ofNumber n = v ∧ v.fits limits room = true := by
  unfold parsedNumber PyValue.ofNumber
  cases hint : n.isInt with
  | false =>
    simp only [Bool.false_and, Bool.false_eq_true, if_false, Except.ok.injEq]
    refine (and_iff_left_of_imp ?_).symm
    rintro rfl
    rfl
  | true =>
    have habs : n.toInt.natAbs = n.int := by
      unfold Json.Number.toInt
      split
      · exact (Int.natAbs_neg _).trans (Int.natAbs_natCast _)
      · exact Int.natAbs_natCast _
    simp only [Bool.true_and, decide_eq_true_eq, if_true]
    split
    · next hlong =>
      refine ⟨nofun, ?_⟩
      rintro ⟨rfl, hfits⟩
      rw [PyValue.fits, habs, decide_eq_true_eq] at hfits
      exact absurd hlong (Nat.not_le.mpr hfits)
    · next hshort =>
      rw [Except.ok.injEq]
      refine (and_iff_left_of_imp ?_).symm
      rintro rfl
      rw [PyValue.fits, habs, decide_eq_true_eq]
      exact Nat.not_le.mp hshort

theorem endObject_eq_ok {room : Nat} {ms : List (Text × PyValue)} {v : PyValue} :
    endObject limits room ms = .ok v ↔
      limits.hook < room ∧ (ms.map Prod.fst).Nodup ∧ .dict ms = v := by
  unfold endObject
  split
  · next hroom => exact iff_of_false nofun fun h => absurd hroom (Nat.not_le.mpr h.1)
  · next hroom =>
    rw [and_iff_right (Nat.not_le.mp hroom)]
    split
    · next hnodup => rw [and_iff_right hnodup, Except.ok.injEq]
    · next hnodup =>
      refine iff_of_false (fun h => ?_) fun h => hnodup h.1
      split at h <;> cases h

theorem scanNumber_eq_ok {room : Nat} {s : Text} {p : Json.Number × Text} :
    scanNumber limits room s = .ok p ↔ Json.parseNumber s = some p := by
  unfold scanNumber
  cases Json.parseNumber s with
  | none => simp
  | some q => simp

theorem head_of_isConstant {c : Nat} {r : Text} (h : isConstant (c :: r) = true) :
    c = 0x4e ∨ c = 0x49 ∨ c = 0x2d := by
  have htail {k : Nat} {t : Text} (hp : (k :: t).isPrefixOf (c :: r) = true) : c = k := by
    rw [List.isPrefixOf, Bool.and_eq_true, beq_iff_eq] at hp
    exact hp.1.symm
  simp only [isConstant, Bool.or_eq_true] at h
  obtain (hnan | hinfinity) | hminus := h
  · exact .inl (htail hnan)
  · exact .inr (.inl (htail hinfinity))
  · exact .inr (.inr (htail hminus))

/-- What the scanner reads with so many calls, the parser does, and it fits; and the other way
    round. -/
structure Agrees (limits : Limits) (fuel : Nat) : Prop where
  once : ∀ room s v r, scanOnce limits fuel room s = .ok (v, r) ↔
    ∃ j, Json.parseValue Json.codeUnits fuel s = some (j, r) ∧ PyValue.load j = some v ∧
      v.fits limits room = true
  array : ∀ room s vs r, scanArray limits fuel room s = .ok (vs, r) ↔
    ∃ js, Json.parseElements Json.codeUnits fuel s = some (js, r) ∧
      PyValue.loadList js = some vs ∧ PyValue.allFit limits room vs = true
  object : ∀ room s ms r, scanObject limits fuel room s = .ok (ms, r) ↔
    ∃ js, Json.parseMembers Json.codeUnits fuel s = some (js, r) ∧
      PyValue.loadMembers js = some ms ∧ PyValue.membersFit limits room ms = true

theorem agrees_zero : Agrees limits 0 := by
  refine ⟨fun room s v r => ?_, fun room s vs r => ?_, fun room s ms r => ?_⟩
  · simp [scanOnce, Json.parseValue]
  · simp [scanArray, Json.parseElements]
  · simp [scanObject, Json.parseMembers]

/-- A value that is read from an option. -/
theorem scanned_iff {α : Type} {x : Option α} {f : α → PyValue × Text} {g : α → Json.Value × Text}
    {v : PyValue} {r : Text} {room : Nat}
    (h : ∀ a, (f a).2 = (g a).2 ∧ PyValue.load (g a).1 = some (f a).1 ∧
      (f a).1.fits limits room = true) :
    (orValueError x >>= fun a => pure (f a)) = .ok (v, r) ↔
      ∃ j, x.map g = some (j, r) ∧ PyValue.load j = some v ∧ v.fits limits room = true := by
  rw [bind_eq_ok]
  constructor
  · rintro ⟨a, ha, hf⟩
    have hvr : f a = (v, r) := Except.ok.inj hf
    obtain ⟨hrest, hload, hfits⟩ := h a
    rw [hvr] at hrest hload hfits
    refine ⟨(g a).1, ?_, hload, hfits⟩
    rw [orValueError_eq_ok.mp ha, Option.map_some, show r = (g a).2 from hrest]
  · rintro ⟨j, hmap, hload, -⟩
    obtain ⟨a, rfl, hg⟩ := Option.map_eq_some_iff.mp hmap
    obtain ⟨hrest, hload', -⟩ := h a
    rw [hg] at hrest hload'
    refine ⟨a, rfl, congrArg Except.ok (Prod.ext ?_ hrest)⟩
    exact Option.some.inj (hload'.symm.trans hload)

/-- The value of an array fits where its elements do. -/
theorem load_arr_iff {js : List Json.Value} {v : PyValue} {room : Nat} :
    (PyValue.load (.arr js) = some v ∧ v.fits limits room = true) ↔
      ∃ vs, PyValue.loadList js = some vs ∧ v = .list vs ∧ 0 < room ∧
        PyValue.allFit limits (room - 1) vs = true := by
  rw [PyValue.load, Option.map_eq_some_iff]
  constructor
  · rintro ⟨⟨vs, hvs, rfl⟩, hfits⟩
    rw [PyValue.fits, Bool.and_eq_true, decide_eq_true_eq] at hfits
    exact ⟨vs, hvs, rfl, hfits⟩
  · rintro ⟨vs, hvs, rfl, hfits⟩
    rw [PyValue.fits, Bool.and_eq_true, decide_eq_true_eq]
    exact ⟨⟨vs, hvs, rfl⟩, hfits⟩

theorem load_obj_iff {js : List (Text × Json.Value)} {v : PyValue} {room : Nat} :
    (PyValue.load (.obj js) = some v ∧ v.fits limits room = true) ↔
      ∃ ms, PyValue.loadMembers js = some ms ∧ (ms.map Prod.fst).Nodup ∧ v = .dict ms ∧
        limits.hook < room ∧ PyValue.membersFit limits (room - 1) ms = true := by
  rw [PyValue.load, Option.bind_eq_some_iff]
  constructor
  · rintro ⟨⟨ms, hms, hdict⟩, hfits⟩
    rw [Option.ite_none_right_eq_some, Option.some.injEq] at hdict
    obtain ⟨hnodup, rfl⟩ := hdict
    rw [PyValue.fits, Bool.and_eq_true, decide_eq_true_eq] at hfits
    exact ⟨ms, hms, hnodup, rfl, hfits⟩
  · rintro ⟨ms, hms, hnodup, rfl, hfits⟩
    rw [PyValue.fits, Bool.and_eq_true, decide_eq_true_eq]
    exact ⟨⟨ms, hms, if_pos hnodup⟩, hfits⟩

theorem Agrees.once_succ {fuel : Nat} (h : Agrees limits fuel) (room : Nat) (s : Text)
    (v : PyValue) (r : Text) : scanOnce limits (fuel + 1) room s = .ok (v, r) ↔
      ∃ j, Json.parseValue Json.codeUnits (fuel + 1) s = some (j, r) ∧ PyValue.load j = some v ∧
        v.fits limits room = true := by
  cases s with
  | nil => simp [scanOnce, Json.parseValue]
  | cons c s =>
    rw [scanOnce, Json.parseValue]
    -- a string
    split
    · exact scanned_iff fun a => ⟨rfl, rfl, rfl⟩
    -- an array
    split
    · split
      · next hroom =>
        refine iff_of_false nofun ?_
        rintro ⟨j, hj, hload⟩
        obtain ⟨js, rfl⟩ : ∃ js, j = .arr js := by
          split at hj
          · exact ⟨_, (Prod.mk.inj (Option.some.inj hj)).1.symm⟩
          · obtain ⟨p, -, hp⟩ := Option.map_eq_some_iff.mp hj
            exact ⟨_, (Prod.mk.inj hp).1.symm⟩
        obtain ⟨vs, -, -, hpos, -⟩ := load_arr_iff.mp hload
        omega
      next hroom =>
      split
      · constructor
        · rintro heq
          obtain ⟨rfl, rfl⟩ := Prod.mk.inj (Except.ok.inj heq)
          exact ⟨_, rfl, load_arr_iff.mpr ⟨[], rfl, rfl, Nat.pos_of_ne_zero hroom, rfl⟩⟩
        · rintro ⟨j, hj, hload, -⟩
          obtain ⟨rfl, rfl⟩ := Prod.mk.inj (Option.some.inj hj)
          obtain rfl := Option.some.inj hload
          rfl
      · rw [bind_eq_ok]
        constructor
        · rintro ⟨⟨vs, r'⟩, hscan, heq⟩
          obtain ⟨rfl, rfl⟩ := Prod.mk.inj (Except.ok.inj heq)
          obtain ⟨js, hparse, hload, hfits⟩ := (h.array _ _ _ _).mp hscan
          refine ⟨.arr js, by rw [hparse]; rfl, load_arr_iff.mpr ⟨vs, hload, rfl, ?_, hfits⟩⟩
          exact Nat.pos_of_ne_zero hroom
        · rintro ⟨j, hj, hload⟩
          obtain ⟨⟨js, r'⟩, hparse, heq⟩ := Option.map_eq_some_iff.mp hj
          obtain ⟨rfl, rfl⟩ := Prod.mk.inj heq
          obtain ⟨vs, hvs, rfl, -, hfits⟩ := load_arr_iff.mp hload
          exact ⟨(vs, r'), (h.array _ _ _ _).mpr ⟨js, hparse, hvs, hfits⟩, rfl⟩
    -- an object
    split
    · split
      · next hroom =>
        refine iff_of_false nofun ?_
        rintro ⟨j, hj, hload⟩
        obtain ⟨js, rfl⟩ : ∃ js, j = .obj js := by
          split at hj
          · exact ⟨_, (Prod.mk.inj (Option.some.inj hj)).1.symm⟩
          · obtain ⟨p, -, hp⟩ := Option.map_eq_some_iff.mp hj
            exact ⟨_, (Prod.mk.inj hp).1.symm⟩
        obtain ⟨ms, -, -, -, hpos, -⟩ := load_obj_iff.mp hload
        omega
      split
      · rw [bind_eq_ok]
        constructor
        · rintro ⟨v', hend, heq⟩
          obtain ⟨rfl, rfl⟩ := Prod.mk.inj (Except.ok.inj heq)
          obtain ⟨hroom, hnodup, rfl⟩ := endObject_eq_ok.mp hend
          exact ⟨.obj [], rfl, load_obj_iff.mpr ⟨[], rfl, hnodup, rfl, hroom, rfl⟩⟩
        · rintro ⟨j, hj, hload⟩
          obtain ⟨rfl, rfl⟩ := Prod.mk.inj (Option.some.inj hj)
          obtain ⟨ms, hms, hnodup, rfl, hroom, -⟩ := load_obj_iff.mp hload
          obtain rfl := Option.some.inj hms
          exact ⟨_, endObject_eq_ok.mpr ⟨hroom, hnodup, rfl⟩, rfl⟩
      · rw [bind_eq_ok]
        constructor
        · rintro ⟨⟨ms, r'⟩, hscan, hrest⟩
          obtain ⟨v', hend, heq⟩ := bind_eq_ok.mp hrest
          obtain ⟨rfl, rfl⟩ := Prod.mk.inj (Except.ok.inj heq)
          obtain ⟨hroom, hnodup, rfl⟩ := endObject_eq_ok.mp hend
          obtain ⟨js, hparse, hload, hfits⟩ := (h.object _ _ _ _).mp hscan
          exact ⟨.obj js, by rw [hparse]; rfl,
            load_obj_iff.mpr ⟨ms, hload, hnodup, rfl, hroom, hfits⟩⟩
        · rintro ⟨j, hj, hload⟩
          obtain ⟨⟨js, r'⟩, hparse, heq⟩ := Option.map_eq_some_iff.mp hj
          obtain ⟨rfl, rfl⟩ := Prod.mk.inj heq
          obtain ⟨ms, hms, hnodup, rfl, hroom, hfits⟩ := load_obj_iff.mp hload
          refine ⟨(ms, r'), (h.object _ _ _ _).mpr ⟨js, hparse, hms, hfits⟩, bind_eq_ok.mpr ?_⟩
          exact ⟨_, endObject_eq_ok.mpr ⟨hroom, hnodup, rfl⟩, rfl⟩
    -- the three words
    split
    · exact scanned_iff fun a => ⟨rfl, rfl, rfl⟩
    split
    · exact scanned_iff fun a => ⟨rfl, rfl, rfl⟩
    split
    · exact scanned_iff fun a => ⟨rfl, rfl, rfl⟩
    -- a number
    · rw [bind_eq_ok]
      constructor
      · rintro ⟨⟨n, r'⟩, hnumber, hrest⟩
        obtain ⟨v', hparsed, heq⟩ := bind_eq_ok.mp hrest
        obtain ⟨rfl, rfl⟩ := Prod.mk.inj (Except.ok.inj heq)
        obtain ⟨hvalue, hfits⟩ := parsedNumber_eq_ok.mp hparsed
        refine ⟨.num n, ?_, congrArg some hvalue, hfits⟩
        rw [scanNumber_eq_ok.mp hnumber]
        rfl
      · rintro ⟨j, hj, hload, hfits⟩
        obtain ⟨⟨n, r'⟩, hnumber, heq⟩ := Option.map_eq_some_iff.mp hj
        obtain ⟨rfl, rfl⟩ := Prod.mk.inj heq
        refine ⟨(n, r'), scanNumber_eq_ok.mpr hnumber, bind_eq_ok.mpr ⟨v, ?_, rfl⟩⟩
        exact parsedNumber_eq_ok.mpr ⟨Option.some.inj hload, hfits⟩

theorem loadList_cons_iff {j : Json.Value} {js : List Json.Value} {vs : List PyValue}
    {room : Nat} :
    (PyValue.loadList (j :: js) = some vs ∧ PyValue.allFit limits room vs = true) ↔
      ∃ v vs', vs = v :: vs' ∧ (PyValue.load j = some v ∧ v.fits limits room = true) ∧
        PyValue.loadList js = some vs' ∧ PyValue.allFit limits room vs' = true := by
  rw [PyValue.loadList, Option.bind_eq_some_iff]
  constructor
  · rintro ⟨⟨v, hv, hmap⟩, hfits⟩
    obtain ⟨vs', hvs', rfl⟩ := Option.map_eq_some_iff.mp hmap
    rw [PyValue.allFit, Bool.and_eq_true] at hfits
    exact ⟨v, vs', rfl, ⟨hv, hfits.1⟩, hvs', hfits.2⟩
  · rintro ⟨v, vs', rfl, ⟨hv, hfits⟩, hvs', hfits'⟩
    rw [PyValue.allFit, hfits, hfits']
    exact ⟨⟨v, hv, by rw [hvs']; rfl⟩, rfl⟩

theorem loadMembers_cons_iff {k : Text} {j : Json.Value} {js : List (Text × Json.Value)}
    {ms : List (Text × PyValue)} {room : Nat} :
    (PyValue.loadMembers ((k, j) :: js) = some ms ∧ PyValue.membersFit limits room ms = true) ↔
      ∃ v ms', ms = (k, v) :: ms' ∧ (PyValue.load j = some v ∧ v.fits limits room = true) ∧
        PyValue.loadMembers js = some ms' ∧ PyValue.membersFit limits room ms' = true := by
  rw [PyValue.loadMembers, Option.bind_eq_some_iff]
  constructor
  · rintro ⟨⟨v, hv, hmap⟩, hfits⟩
    obtain ⟨ms', hms', rfl⟩ := Option.map_eq_some_iff.mp hmap
    rw [PyValue.membersFit, Bool.and_eq_true] at hfits
    exact ⟨v, ms', rfl, ⟨hv, hfits.1⟩, hms', hfits.2⟩
  · rintro ⟨v, ms', rfl, ⟨hv, hfits⟩, hms', hfits'⟩
    rw [PyValue.membersFit, hfits, hfits']
    exact ⟨⟨v, hv, by rw [hms']; rfl⟩, rfl⟩

/-- **Behind an element** there is a separator and the rest of the container, or its end: what is
    read agrees if it does behind the separator. -/
theorem follows_iff {α β : Type} {scan : Except LoadError (List α × Text)}
    {parse : Option (List β × Text)} {loaded : List β → List α → Prop}
    (hnil : ∀ as, loaded [] as ↔ as = [])
    (h : ∀ as r, scan = .ok (as, r) ↔ ∃ bs, parse = some (bs, r) ∧ loaded bs as)
    {c close : Nat} {s r : Text} {a : α} {b : β} {as : List α} :
    (if c = 0x2c then do
        let q ← scan
        return (a :: q.1, q.2)
      else if c = close then .ok ([a], s) else .error .value) = .ok (as, r) ↔
    ∃ bs as', (if c = 0x2c then parse.map fun q => (b :: q.1, q.2)
        else if c = close then some ([b], s) else none) = some (b :: bs, r) ∧
      as = a :: as' ∧ loaded bs as' := by
  split
  · rw [bind_eq_ok]
    constructor
    · rintro ⟨⟨as', r'⟩, hscan, heq⟩
      obtain ⟨rfl, rfl⟩ := Prod.mk.inj (Except.ok.inj heq)
      obtain ⟨bs, hparse, hloaded⟩ := (h _ _).mp hscan
      exact ⟨bs, as', by rw [hparse]; rfl, rfl, hloaded⟩
    · rintro ⟨bs, as', hmap, rfl, hloaded⟩
      obtain ⟨⟨bs', r'⟩, hparse, heq⟩ := Option.map_eq_some_iff.mp hmap
      obtain ⟨hbs, rfl⟩ := Prod.mk.inj heq
      obtain ⟨-, rfl⟩ := List.cons.inj hbs
      exact ⟨(as', r'), (h _ _).mpr ⟨bs', hparse, hloaded⟩, rfl⟩
  · split
    · constructor
      · intro heq
        obtain ⟨rfl, rfl⟩ := Prod.mk.inj (Except.ok.inj heq)
        exact ⟨[], [], rfl, rfl, (hnil []).mpr rfl⟩
      · rintro ⟨bs, as', heq, rfl, hloaded⟩
        obtain ⟨hbs, rfl⟩ := Prod.mk.inj (Option.some.inj heq)
        obtain ⟨-, rfl⟩ := List.cons.inj hbs
        rw [(hnil as').mp hloaded]
    · exact iff_of_false (by simp) (by simp)

/-- What is parsed behind an element starts with the element. -/
theorem exists_follows {β : Type} {parse : Option (List β × Text)} {c close : Nat} {s r : Text}
    {b : β} {bs : List β}
    (h : (if c = 0x2c then parse.map fun q => (b :: q.1, q.2)
      else if c = close then some ([b], s) else none) = some (bs, r)) :
    ∃ bs', bs = b :: bs' := by
  split at h
  · obtain ⟨q, -, heq⟩ := Option.map_eq_some_iff.mp h
    exact ⟨q.1, (Prod.mk.inj heq).1.symm⟩
  · split at h
    · exact ⟨[], (Prod.mk.inj (Option.some.inj h)).1.symm⟩
    · cases h

theorem loadedList_nil (room : Nat) (vs : List PyValue) :
    (PyValue.loadList [] = some vs ∧ PyValue.allFit limits room vs = true) ↔ vs = [] := by
  constructor
  · rintro ⟨heq, -⟩
    exact (Option.some.inj heq).symm
  · rintro rfl
    exact ⟨rfl, rfl⟩

theorem loadedMembers_nil (room : Nat) (ms : List (Text × PyValue)) :
    (PyValue.loadMembers [] = some ms ∧ PyValue.membersFit limits room ms = true) ↔ ms = [] := by
  constructor
  · rintro ⟨heq, -⟩
    exact (Option.some.inj heq).symm
  · rintro rfl
    exact ⟨rfl, rfl⟩

theorem Agrees.array_succ {fuel : Nat} (h : Agrees limits fuel) (room : Nat) (s : Text)
    (vs : List PyValue) (r : Text) : scanArray limits (fuel + 1) room s = .ok (vs, r) ↔
      ∃ js, Json.parseElements Json.codeUnits (fuel + 1) s = some (js, r) ∧
        PyValue.loadList js = some vs ∧ PyValue.allFit limits room vs = true := by
  rw [scanArray, Json.parseElements, bind_eq_ok]
  constructor
  · rintro ⟨⟨v, t⟩, hscan, hrest⟩
    obtain ⟨j, hparse, hj⟩ := (h.once _ _ _ _).mp hscan
    rw [hparse, Option.bind_some]
    dsimp only at hrest ⊢
    cases hskip : Json.skipWs t with
    | nil =>
      rw [hskip] at hrest
      cases hrest
    | cons c r' =>
      rw [hskip] at hrest
      obtain ⟨js, vs', hjs, rfl, hload⟩ :=
        (follows_iff (b := j) (loadedList_nil room) fun _ _ => h.array _ _ _ _).mp hrest
      exact ⟨j :: js, hjs, loadList_cons_iff.mpr ⟨v, vs', rfl, hj, hload⟩⟩
  · rintro ⟨js, hbind, hload⟩
    obtain ⟨⟨j, t⟩, hparse, hrest⟩ := Option.bind_eq_some_iff.mp hbind
    dsimp only at hrest
    cases hskip : Json.skipWs t with
    | nil =>
      rw [hskip] at hrest
      cases hrest
    | cons c r' =>
      rw [hskip] at hrest
      obtain ⟨js, rfl⟩ := exists_follows hrest
      obtain ⟨v, vs', rfl, hj, hload⟩ := loadList_cons_iff.mp hload
      refine ⟨(v, t), (h.once _ _ _ _).mpr ⟨j, hparse, hj⟩, ?_⟩
      dsimp only
      rw [hskip]
      exact (follows_iff (loadedList_nil room) fun _ _ => h.array _ _ _ _).mpr
        ⟨js, vs', hrest, rfl, hload⟩

theorem Agrees.object_succ {fuel : Nat} (h : Agrees limits fuel) (room : Nat) (s : Text)
    (ms : List (Text × PyValue)) (r : Text) : scanObject limits (fuel + 1) room s = .ok (ms, r) ↔
      ∃ js, Json.parseMembers Json.codeUnits (fuel + 1) s = some (js, r) ∧
        PyValue.loadMembers js = some ms ∧ PyValue.membersFit limits room ms = true := by
  rw [scanObject, Json.parseMembers, bind_eq_ok]
  constructor
  · rintro ⟨⟨k, u⟩, hname, hrest⟩
    obtain ⟨⟨v, t⟩, hscan, hrest⟩ := bind_eq_ok.mp hrest
    obtain ⟨j, hparse, hj⟩ := (h.once _ _ _ _).mp hscan
    rw [orValueError_eq_ok.mp hname, Option.bind_some, hparse, Option.bind_some]
    dsimp only at hrest ⊢
    cases hskip : Json.skipWs t with
    | nil =>
      rw [hskip] at hrest
      cases hrest
    | cons c r' =>
      rw [hskip] at hrest
      obtain ⟨js, ms', hjs, rfl, hload⟩ :=
        (follows_iff (b := (k, j)) (loadedMembers_nil room) fun _ _ => h.object _ _ _ _).mp hrest
      exact ⟨(k, j) :: js, hjs, loadMembers_cons_iff.mpr ⟨v, ms', rfl, hj, hload⟩⟩
  · rintro ⟨js, hbind, hload⟩
    obtain ⟨⟨k, u⟩, hname, hbind⟩ := Option.bind_eq_some_iff.mp hbind
    obtain ⟨⟨j, t⟩, hparse, hrest⟩ := Option.bind_eq_some_iff.mp hbind
    refine ⟨(k, u), orValueError_eq_ok.mpr hname, bind_eq_ok.mpr ?_⟩
    dsimp only at hrest
    cases hskip : Json.skipWs t with
    | nil =>
      rw [hskip] at hrest
      cases hrest
    | cons c r' =>
      rw [hskip] at hrest
      obtain ⟨js, rfl⟩ := exists_follows hrest
      obtain ⟨v, ms', rfl, hj, hload⟩ := loadMembers_cons_iff.mp hload
      refine ⟨(v, t), (h.once _ _ _ _).mpr ⟨j, hparse, hj⟩, ?_⟩
      dsimp only
      rw [hskip]
      exact (follows_iff (loadedMembers_nil room) fun _ _ => h.object _ _ _ _).mpr
        ⟨js, ms', hrest, rfl, hload⟩

theorem agrees (limits : Limits) (fuel : Nat) : Agrees limits fuel := by
  induction fuel with
  | zero => exact agrees_zero
  | succ fuel ih => exact ⟨ih.once_succ, ih.array_succ, ih.object_succ⟩

/-- **What is read** is the value of the document, if it fits the limits. -/
theorem loads_eq_ok_iff {s : Text} {v : PyValue} :
    loads limits s = .ok v ↔
      (Json.parseDocument Json.codeUnits s).bind PyValue.load = some v ∧
        v.fits limits limits.nesting = true := by
  unfold loads
  rw [bind_eq_ok]
  constructor
  · rintro ⟨⟨v', r⟩, hscan, hrest⟩
    dsimp only at hrest
    split at hrest
    · next hblank =>
      obtain rfl := Except.ok.inj hrest
      obtain ⟨j, hparse, hload, hfits⟩ := ((agrees limits _).once _ _ _ _).mp hscan
      obtain ⟨p, hs, hends, hlocal⟩ := (Json.parse_local _).1 _ _ _ hparse
      have hdocument : Json.parseDocument Json.codeUnits s = some j :=
        Json.parseDocument_eq_some_iff.mpr
          ⟨p, r, hs, Json.skipWs_eq_nil_iff.mp hblank, hends, hlocal⟩
      rw [hdocument]
      exact ⟨hload, hfits⟩
    · cases hrest
  · rintro ⟨hbind, hfits⟩
    obtain ⟨j, hdocument, hload⟩ := Option.bind_eq_some_iff.mp hbind
    obtain ⟨p, r, hs, hblank, -, hlocal⟩ := Json.parseDocument_eq_some_iff.mp hdocument
    have hlength : p.length ≤ 2 * s.length + 2 := by
      have hle : (Json.skipWs s).length ≤ s.length := List.length_dropWhile_le _ _
      rw [hs, List.length_append] at hle
      omega
    have hparse := hlocal _ r hlength (.of_ws hblank.starts)
    rw [← hs] at hparse
    refine ⟨(v, r), ((agrees limits _).once _ _ _ _).mpr ⟨j, hparse, hload, hfits⟩, ?_⟩
    exact if_pos (Json.skipWs_eq_nil_iff.mpr hblank)

/-! ## The bound on the calls -/

theorem length_skipWs (s : Text) : (Json.skipWs s).length ≤ s.length :=
  List.length_dropWhile_le _ _

/-- A value takes a symbol at least. -/
theorem length_of_scanOnce {fuel room : Nat} {s r : Text} {v : PyValue}
    (h : scanOnce limits fuel room s = .ok (v, r)) : r.length < s.length := by
  obtain ⟨j, hparse, -⟩ := ((agrees limits fuel).once _ _ _ _).mp h
  obtain ⟨p, rfl, hends, -⟩ := (Json.parse_local fuel).1 _ _ _ hparse
  have := hends.length_pos
  rw [List.length_append]
  omega

theorem length_of_parseName {s r k : Text} (h : Json.parseName Json.codeUnits s = some (k, r)) :
    r.length < s.length := by
  obtain ⟨-, p, rfl, hpos, -⟩ := Json.parseName_local h
  rw [List.length_append]
  omega

/-- Two calls for a symbol are enough: one more changes nothing. -/
structure Enough (limits : Limits) (fuel : Nat) : Prop where
  once : ∀ room s, 2 * s.length + 1 ≤ fuel →
    scanOnce limits (fuel + 1) room s = scanOnce limits fuel room s
  array : ∀ room s, 2 * s.length + 2 ≤ fuel →
    scanArray limits (fuel + 1) room s = scanArray limits fuel room s
  object : ∀ room s, 2 * s.length + 2 ≤ fuel →
    scanObject limits (fuel + 1) room s = scanObject limits fuel room s

theorem enough (limits : Limits) (fuel : Nat) : Enough limits fuel := by
  induction fuel with
  | zero => exact ⟨fun _ _ h => absurd h (by omega), fun _ _ h => absurd h (by omega),
      fun _ _ h => absurd h (by omega)⟩
  | succ fuel ih =>
    refine ⟨fun room s hs => ?_, fun room s hs => ?_, fun room s hs => ?_⟩
    · cases s with
      | nil => rfl
      | cons c r =>
        have hlength : 2 * (Json.skipWs r).length + 2 ≤ fuel := by
          have := length_skipWs r
          rw [List.length_cons] at hs
          omega
        rw [scanOnce, scanOnce, ih.array _ _ hlength, ih.object _ _ hlength]
    · rw [scanArray, scanArray, ih.once _ _ (by omega)]
      cases hscan : scanOnce limits fuel room s with
      | error e => rfl
      | ok p =>
        dsimp only [bind, Except.bind]
        cases hskip : Json.skipWs p.2 with
        | nil => rfl
        | cons c r =>
          have hlength : 2 * (Json.skipWs r).length + 2 ≤ fuel := by
            have := length_skipWs r
            have := length_skipWs p.2
            have := length_of_scanOnce hscan
            rw [hskip, List.length_cons] at *
            omega
          dsimp only
          rw [ih.array _ _ hlength]
    · rw [scanObject, scanObject]
      cases hname : orValueError (Json.parseName Json.codeUnits s) with
      | error e => rfl
      | ok k =>
        have hk := length_of_parseName (orValueError_eq_ok.mp hname)
        dsimp only [bind, Except.bind]
        rw [ih.once _ _ (by omega)]
        cases hscan : scanOnce limits fuel room k.2 with
        | error e => rfl
        | ok p =>
          dsimp only
          cases hskip : Json.skipWs p.2 with
          | nil => rfl
          | cons c r =>
            have hlength : 2 * (Json.skipWs r).length + 2 ≤ fuel := by
              have := length_skipWs r
              have := length_skipWs p.2
              have := length_of_scanOnce hscan
              rw [hskip, List.length_cons] at *
              omega
            dsimp only
            rw [ih.object _ _ hlength]

/-- **The bound is no limit**: the scanner returns the same with any bound from two calls for a
    symbol on. -/
theorem scanOnce_fuel {fuel : Nat} {s : Text} (h : 2 * s.length + 1 ≤ fuel) (room more : Nat) :
    scanOnce limits (fuel + more) room s = scanOnce limits fuel room s := by
  induction more with
  | zero => rfl
  | succ more ih =>
    rw [← ih]
    exact (enough limits (fuel + more)).once room s (by omega)

end Reads

end LinuxMaxxing.Framework
