import LinuxMaxxing.Lib.JsonGrammar
import LinuxMaxxing.Lib.Utf8
import LinuxMaxxing.Common.JsonRoundTrip
import LinuxMaxxing.Framework.PythonValue

/-!
# What `json.dumps` Writes, `json.loads` Reads

`json.dumps` as the framework calls it: all of its text is ASCII, NaN and the infinities raise, and
the whitespace is that of `separators=(",", ":")`, of `indent=2` or the default.

- `Layout`: where the encoder puts whitespace;
- `dumps`: the text of a value, with `float.__repr__` as a parameter;
- `PyValue.wellFormed`: what every Python value is: its dictionaries have no key twice;
- `spells_dumps`: the text spells a document that loads as the value.
-/

namespace LinuxMaxxing.Framework

open LinuxMaxxing.Lib LinuxMaxxing.Common

/-! ## The encoder -/

/-- The whitespace of the encoder: the spaces after a comma and after a colon, and the width of one
    level of indentation, which also puts every item on a line of its own. -/
structure Layout where
  afterComma : Nat
  afterColon : Nat
  indent : Option Nat
  deriving DecidableEq, Repr

/-- `separators=(",", ":")` -/
def Layout.compact : Layout := ⟨0, 0, none⟩

/-- `indent=2` -/
def Layout.indented : Layout := ⟨0, 1, some 2⟩

/-- `newline_indent`: the line break in front of an item of the level. -/
def Layout.newline (l : Layout) (level : Nat) : Text :=
  match l.indent with
  | none => []
  | some width => 0x0a :: List.replicate (width * level) 0x20

/-- What stands behind a comma. -/
def Layout.gap (l : Layout) (level : Nat) : Text :=
  List.replicate l.afterComma 0x20 ++ l.newline level

/-- `ESCAPE_DCT`, and `\u` with four digits for what is no printable ASCII. -/
def escapeAscii (c : Nat) : Text :=
  if c = 0x5c then [0x5c, 0x5c]
  else if c = 0x22 then [0x5c, 0x22]
  else if c = 0x08 then [0x5c, 0x62]
  else if c = 0x0c then [0x5c, 0x66]
  else if c = 0x0a then [0x5c, 0x6e]
  else if c = 0x0d then [0x5c, 0x72]
  else if c = 0x09 then [0x5c, 0x74]
  else if 0x20 ≤ c ∧ c ≤ 0x7e then [c]
  else 0x5c :: 0x75 :: [c / 4096, c / 256 % 16, c / 16 % 16, c % 16].map JsonWriter.hexDigit

/-- `py_encode_basestring_ascii` -/
def encodeAscii (s : Text) : Text := 0x22 :: (s.flatMap escapeAscii ++ [0x22])

section Dumps

variable (l : Layout) (repr : Double → Option Text)

/-- The items between the symbols of their container, each on its line; nothing between them if
    there are none. -/
def bracket (opening closing level : Nat) (items : List Text) : Text :=
  match items with
  | [] => [opening, closing]
  | t :: ts =>
    opening :: (l.newline (level + 1) ++
      (List.intercalate (0x2c :: l.gap (level + 1)) (t :: ts) ++ (l.newline level ++ [closing])))

mutual

/-- `json.dumps(value, allow_nan=False)` at a level of indentation. `repr` has no text for the
    numbers that raise `ValueError`. -/
def dumps (level : Nat) : PyValue → Option Text
  | .none => some JsonWriter.nullText
  | .bool b => some (if b then JsonWriter.trueText else JsonWriter.falseText)
  | .int z => some (JsonWriter.signedDecimal z)
  | .float x => repr x
  | .str s => some (encodeAscii s)
  | .list vs => (dumpsItems (level + 1) vs).map (bracket l 0x5b 0x5d level)
  | .dict ms => (dumpsMembers (level + 1) ms).map (bracket l 0x7b 0x7d level)

def dumpsItems (level : Nat) : List PyValue → Option (List Text)
  | [] => some []
  | v :: vs => (dumps level v).bind fun t => (dumpsItems level vs).map fun ts => t :: ts

def dumpsMembers (level : Nat) : List (Text × PyValue) → Option (List Text)
  | [] => some []
  | (k, v) :: ms => (dumps level v).bind fun t => (dumpsMembers level ms).map fun ts =>
    (encodeAscii k ++ 0x3a :: (List.replicate l.afterColon 0x20 ++ t)) :: ts

end

end Dumps

/-! ## Python values -/

namespace PyValue

mutual

/-- What Python sees to: no dictionary has a key twice, and texts consist of code units. -/
def wellFormed : PyValue → Bool
  | .str s => s.all (· < 0x10000)
  | .list vs => allWellFormed vs
  | .dict ms => (ms.map Prod.fst).Nodup && membersWellFormed ms
  | _ => true

def allWellFormed : List PyValue → Bool
  | [] => true
  | v :: vs => wellFormed v && allWellFormed vs

def membersWellFormed : List (Text × PyValue) → Bool
  | [] => true
  | (k, v) :: ms => k.all (· < 0x10000) && wellFormed v && membersWellFormed ms

end

end PyValue

/-- What the documentation says of `float.__repr__`: a finite number has a literal with a fraction
    or an exponent, which reads back as the number. For an infinity `allow_nan=False` raises. -/
structure FloatRepr (repr : Double → Option Text) : Prop where
  reads : ∀ {x t}, repr x = some t →
    ∃ n, Json.parseNumber t = some (n, []) ∧ n.isInt = false ∧ n.double = x
  visible : ∀ {x t}, repr x = some t → ∀ c ∈ t, Json.Visible c
  text : ∀ x, (repr x).isSome = x.isFinite

/-! ## Strings read back -/

theorem hexValue_hexDigit {d : Nat} (hd : d < 16) :
    Json.hexValue (JsonWriter.hexDigit d) = some d := by
  have hall : ∀ d : Fin 16, Json.hexValue (JsonWriter.hexDigit d) = some d.val := by decide
  exact hall ⟨d, hd⟩

/-- The text of one unit is one item of a string, which stands for this unit. -/
theorem parseChars_escapeAscii {c : Nat} (hc : c < 0x10000) : ∃ item,
    (∀ items, Json.codeUnits (item :: items) = c :: Json.codeUnits items) ∧
    ∀ r, Json.parseChars (escapeAscii c ++ r) =
      (Json.parseChars r).map fun p => (item :: p.1, p.2) := by
  unfold escapeAscii
  -- the seven short escapes
  split
  · next h =>
    subst h
    exact ⟨.unit 0x5c, fun items => rfl, Json.parseChars_escape (by decide)⟩
  split
  · next h =>
    subst h
    exact ⟨.unit 0x22, fun items => rfl, Json.parseChars_escape (by decide)⟩
  split
  · next h =>
    subst h
    exact ⟨.unit 0x08, fun items => rfl, Json.parseChars_escape (by decide)⟩
  split
  · next h =>
    subst h
    exact ⟨.unit 0x0c, fun items => rfl, Json.parseChars_escape (by decide)⟩
  split
  · next h =>
    subst h
    exact ⟨.unit 0x0a, fun items => rfl, Json.parseChars_escape (by decide)⟩
  split
  · next h =>
    subst h
    exact ⟨.unit 0x0d, fun items => rfl, Json.parseChars_escape (by decide)⟩
  split
  · next h =>
    subst h
    exact ⟨.unit 0x09, fun items => rfl, Json.parseChars_escape (by decide)⟩
  split
  · next hslash hquote _ _ _ _ _ hprint =>
    exact ⟨.raw c, fun items => rfl, Json.parseChars_raw hquote hslash (by omega)⟩
  · refine ⟨.unit c, fun items => rfl, fun r => ?_⟩
    have hunit : Json.hex4 (JsonWriter.hexDigit (c / 4096)) (JsonWriter.hexDigit (c / 256 % 16))
        (JsonWriter.hexDigit (c / 16 % 16)) (JsonWriter.hexDigit (c % 16)) = some c := by
      unfold Json.hex4
      rw [hexValue_hexDigit (by omega), hexValue_hexDigit (by omega), hexValue_hexDigit (by omega),
        hexValue_hexDigit (by omega)]
      show some (((c / 4096 * 16 + c / 256 % 16) * 16 + c / 16 % 16) * 16 + c % 16) = some c
      congr 1
      omega
    simp only [List.map_cons, List.map_nil, List.cons_append, List.nil_append]
    rw [Json.parseChars_unicode, hunit, Option.bind_some]

theorem parseChars_encodeAscii {s : Text} (hs : s.all (· < 0x10000) = true) : ∃ items,
    Json.codeUnits items = s ∧
    Json.parseChars (s.flatMap escapeAscii ++ [0x22]) = some (items, []) := by
  induction s with
  | nil => exact ⟨[], rfl, Json.parseChars_quote []⟩
  | cons c s ih =>
    rw [List.all_cons, Bool.and_eq_true, decide_eq_true_eq] at hs
    obtain ⟨items, hunits, hparse⟩ := ih hs.2
    obtain ⟨item, hunit, hstep⟩ := parseChars_escapeAscii hs.1
    refine ⟨item :: items, by rw [hunit, hunits], ?_⟩
    rw [List.flatMap_cons, List.append_assoc, hstep, hparse, Option.map_some]

theorem spells_encodeAscii {s : Text} (hs : s.all (· < 0x10000) = true) :
    Json.Spells Json.codeUnits (encodeAscii s) (.str s) := by
  obtain ⟨items, hunits, hparse⟩ := parseChars_encodeAscii hs
  have hstr := @Json.Spells.str Json.codeUnits _ _ hparse
  rw [hunits] at hstr
  exact hstr

theorem blank_spaces (n : Nat) : Json.Blank (List.replicate n 0x20) := by
  intro c hc
  rw [List.eq_of_mem_replicate hc]
  rfl

theorem spellsName_encodeAscii {s : Text} (hs : s.all (· < 0x10000) = true) (n : Nat) :
    Json.SpellsName Json.codeUnits (encodeAscii s ++ 0x3a :: List.replicate n 0x20) s := by
  obtain ⟨items, hunits, hparse⟩ := parseChars_encodeAscii hs
  have hname := @Json.SpellsName.mk Json.codeUnits _ [] _ _ hparse nofun (blank_spaces n)
  rw [hunits] at hname
  simpa [encodeAscii] using hname

/-! ## Values read back -/

section RoundTrip

variable {l : Layout} {repr : Double → Option Text}

theorem Layout.blank_newline (l : Layout) (level : Nat) : Json.Blank (l.newline level) := by
  unfold Layout.newline
  cases l.indent with
  | none => exact nofun
  | some width =>
    intro c hc
    rcases List.mem_cons.mp hc with rfl | hc
    · rfl
    · exact blank_spaces _ c hc

theorem Layout.blank_gap (l : Layout) (level : Nat) : Json.Blank (l.gap level) :=
  (blank_spaces _).append (l.blank_newline level)

/-- A signed number is read as its sign and its digits. -/
theorem parseNumber_signedDecimal (z : Int) (y : Text) :
    Json.parseNumber (JsonWriter.signedDecimal z ++ y) =
      Json.parseUnsigned (z < 0) (JsonWriter.decimal z.natAbs ++ y) := by
  unfold JsonWriter.signedDecimal
  by_cases hneg : z < 0
  · rw [if_pos hneg, decide_eq_true hneg]
    rfl
  · rw [if_neg hneg, decide_eq_false hneg]
    obtain ⟨c, r, hcons, -⟩ := decimal_eq_cons z.natAbs
    have hdigit : Json.isDigit c = true :=
      isDigit_of_mem_decimal (n := z.natAbs) (by rw [hcons]; exact List.mem_cons_self)
    rw [hcons]
    unfold Json.parseNumber
    split
    · next heq =>
      -- a digit is no minus sign
      rw [(List.cons.inj heq).1] at hdigit
      exact absurd hdigit (by decide)
    · rfl

theorem spells_int (z : Int) : Json.Spells Json.codeUnits (JsonWriter.signedDecimal z)
    (.num ⟨z < 0, z.natAbs, none, none⟩) := by
  apply Json.Spells.num
  have hparse := parseNumber_signedDecimal z []
  have hdigits := parseUnsigned_decimal (z < 0) z.natAbs (y := []) fun c hc => by cases hc
  rw [hdigits, List.append_nil] at hparse
  exact hparse

theorem ofNumber_int (z : Int) :
    PyValue.ofNumber ⟨z < 0, z.natAbs, none, none⟩ = .int z :=
  congrArg PyValue.int (Double.ite_neg_natAbs z)

/-! ## A text for every float -/

/-- The decimal digits of a double behind those of one half, in units of `10 ^ (-1074)`. -/
def exactRepr (x : Double) : Option Text :=
  match x with
  | .finite k =>
    if k = 2 ^ 1073 then some (text "0.5")
    else if x.isFinite then some (JsonWriter.signedDecimal (k * 5 ^ 1074) ++ text "e-1074")
    else none
  | .infinite _ => none

/-- The digits in units of `10 ^ (-scale)`, as a literal. -/
theorem parseNumber_scaled {z : Int} {scale : Nat} {y : Text}
    (hfrac : Json.parseFrac y = some (none, y)) (hdigit : Json.NoDigit y)
    (hexp : Json.parseExp y = some (some (-(scale : Int)), [])) :
    Json.parseNumber (JsonWriter.signedDecimal z ++ y) =
      some (⟨z < 0, z.natAbs, none, some (-(scale : Int))⟩, []) := by
  rw [parseNumber_signedDecimal]
  unfold Json.parseUnsigned
  rw [parseInt_decimal _ hdigit, Option.bind_some, hfrac, Option.bind_some, hexp, Option.map_some]

theorem double_scaled {neg : Bool} {n scale : Nat} (hscale : 0 < scale) :
    (Json.Number.mk neg n none (some (-(scale : Int)))).double = .nearest neg n (10 ^ scale) := by
  have hexponent : (Json.Number.mk neg n none (some (-(scale : Int)))).exponent = -(scale : Int) := by
    unfold Json.Number.exponent
    simp
  unfold Json.Number.double
  rw [hexponent, if_neg (by omega), Int.neg_neg, Int.toNat_natCast]
  rfl

theorem visible_signedDecimal (z : Int) : ∀ c ∈ JsonWriter.signedDecimal z, Json.Visible c := by
  have hdigits : ∀ c ∈ JsonWriter.decimal z.natAbs, Json.Visible c := fun c hc =>
    Json.visible_of_digit (isDigit_of_mem_decimal hc)
  unfold JsonWriter.signedDecimal
  split
  · exact List.forall_mem_cons.mpr ⟨by decide, hdigits⟩
  · exact hdigits

theorem natAbs_mul_pow (k : Int) (scale : Nat) :
    (k * 5 ^ scale).natAbs = k.natAbs * 5 ^ scale ∧ (k * 5 ^ scale < 0 ↔ k < 0) := by
  have hpos : (0 : Int) < 5 ^ scale := by positivity
  constructor
  · rw [Int.natAbs_mul, Int.natAbs_pow]
    rfl
  · exact ⟨fun h => neg_of_mul_neg_left h hpos.le, fun h => mul_neg_of_neg_of_pos h hpos⟩

theorem exponent_noDigit : Json.NoDigit (text "e-1074") := fun c hc => by
  cases hc
  rfl

theorem floatRepr_exactRepr : FloatRepr exactRepr where
  reads := by
    intro x t h
    cases x with
    | infinite neg => cases h
    | finite k =>
      rw [exactRepr] at h
      split at h
      · next hk =>
        -- a half
        cases h
        refine ⟨⟨false, 0, some [0x35], none⟩, rfl, rfl, ?_⟩
        rw [hk]
        decide +kernel
      · split at h
        · next hfinite =>
          -- any other number, as so many of the least one
          cases h
          obtain ⟨habs, hneg⟩ := natAbs_mul_pow k 1074
          have hexp : Json.parseExp (text "e-1074") = some (some (-((1074 : Nat) : Int)), []) := rfl
          refine ⟨_, parseNumber_scaled rfl exponent_noDigit hexp, rfl, ?_⟩
          refine (double_scaled (by decide)).trans ?_
          simp only [habs, hneg]
          exact Double.nearest_of_isFinite hfinite
        · cases h
  visible := by
    intro x t h
    cases x with
    | infinite neg => cases h
    | finite k =>
      rw [exactRepr] at h
      split at h
      · cases h
        unfold Json.Visible
        decide
      · split at h
        · cases h
          intro c hc
          rcases List.mem_append.mp hc with hc | hc
          · exact visible_signedDecimal _ c hc
          · have hall : ∀ d ∈ text "e-1074", Json.Visible d := by
              unfold Json.Visible
              decide
            exact hall c hc
        · cases h
  text := by
    intro x
    cases x with
    | infinite neg => rfl
    | finite k =>
      rw [exactRepr]
      split
      · next hk =>
        subst hk
        decide +kernel
      · split
        · next hfinite => exact hfinite.symm
        · next hfinite => exact (Bool.not_eq_true _ ▸ hfinite).symm

/-- The elements of a text, in the brackets of an array. -/
theorem spells_bracket_list {level : Nat} {ts : List Text} {js : List Json.Value}
    (h : List.Forall₂ (Json.Spells Json.codeUnits) ts js) :
    Json.Spells Json.codeUnits (bracket l 0x5b 0x5d level ts) (.arr js) := by
  cases h with
  | nil => exact .emptyArr (w := []) nofun
  | cons hj hjs =>
    apply Json.Spells.arr (l.blank_newline _)
    exact Json.spellsElements_join (l.blank_gap _) (l.blank_newline _) hj hjs

theorem spells_bracket_dict {level : Nat} {ts : List Text} {js : List (Text × Json.Value)}
    (h : List.Forall₂ (Json.SpellsMember Json.codeUnits) ts js) :
    Json.Spells Json.codeUnits (bracket l 0x7b 0x7d level ts) (.obj js) := by
  cases h with
  | nil => exact .emptyObj (w := []) nofun
  | cons hj hjs =>
    apply Json.Spells.obj (l.blank_newline _)
    exact Json.spellsMembers_join (l.blank_gap _) (l.blank_newline _) hj hjs

mutual

/-- **The text of a value spells a document that loads as the value**, whatever the layout. By
    recursion on the value. -/
theorem spells_dumps (hrepr : FloatRepr repr) (v : PyValue) {level : Nat} {t : Text}
    (hwf : v.wellFormed = true) (ht : dumps l repr level v = some t) :
    ∃ j, Json.Spells Json.codeUnits t j ∧ PyValue.load j = some v := by
  cases v with
  | none =>
    cases ht
    exact ⟨.null, .null, rfl⟩
  | bool b =>
    cases ht
    cases b with
    | true => exact ⟨.bool true, .true, rfl⟩
    | false => exact ⟨.bool false, .false, rfl⟩
  | int z =>
    cases ht
    exact ⟨_, spells_int z, by rw [PyValue.load, ofNumber_int]⟩
  | float x =>
    obtain ⟨n, hparse, hint, hdouble⟩ := hrepr.reads ht
    refine ⟨.num n, .num hparse, ?_⟩
    rw [PyValue.load, PyValue.ofNumber, hint, hdouble]
    rfl
  | str s =>
    cases ht
    rw [PyValue.wellFormed] at hwf
    exact ⟨.str s, spells_encodeAscii hwf, rfl⟩
  | list vs =>
    rw [dumps] at ht
    obtain ⟨ts, hts, rfl⟩ := Option.map_eq_some_iff.mp ht
    rw [PyValue.wellFormed] at hwf
    obtain ⟨js, hspells, hload⟩ := spells_dumpsItems hrepr vs hwf hts
    refine ⟨.arr js, spells_bracket_list hspells, ?_⟩
    rw [PyValue.load, hload]
    rfl
  | dict ms =>
    rw [dumps] at ht
    obtain ⟨ts, hts, rfl⟩ := Option.map_eq_some_iff.mp ht
    rw [PyValue.wellFormed, Bool.and_eq_true] at hwf
    obtain ⟨js, hspells, hload⟩ := spells_dumpsMembers hrepr ms hwf.2 hts
    refine ⟨.obj js, spells_bracket_dict hspells, ?_⟩
    -- the reader's hook meets no key twice
    rw [PyValue.load, hload, Option.bind_some, if_pos (of_decide_eq_true hwf.1)]

theorem spells_dumpsItems (hrepr : FloatRepr repr) (vs : List PyValue) {level : Nat}
    {ts : List Text} (hwf : PyValue.allWellFormed vs = true)
    (hts : dumpsItems l repr level vs = some ts) :
    ∃ js, List.Forall₂ (Json.Spells Json.codeUnits) ts js ∧ PyValue.loadList js = some vs := by
  cases vs with
  | nil =>
    cases hts
    exact ⟨[], .nil, rfl⟩
  | cons v vs =>
    rw [dumpsItems] at hts
    obtain ⟨t, ht, hts⟩ := Option.bind_eq_some_iff.mp hts
    obtain ⟨ts', hts', rfl⟩ := Option.map_eq_some_iff.mp hts
    rw [PyValue.allWellFormed, Bool.and_eq_true] at hwf
    obtain ⟨j, hspells, hload⟩ := spells_dumps hrepr v hwf.1 ht
    obtain ⟨js, hspells', hload'⟩ := spells_dumpsItems hrepr vs hwf.2 hts'
    refine ⟨j :: js, .cons hspells hspells', ?_⟩
    rw [PyValue.loadList, hload, hload']
    rfl

theorem spells_dumpsMembers (hrepr : FloatRepr repr) (ms : List (Text × PyValue)) {level : Nat}
    {ts : List Text} (hwf : PyValue.membersWellFormed ms = true)
    (hts : dumpsMembers l repr level ms = some ts) :
    ∃ js, List.Forall₂ (Json.SpellsMember Json.codeUnits) ts js ∧
      PyValue.loadMembers js = some ms := by
  cases ms with
  | nil =>
    cases hts
    exact ⟨[], .nil, rfl⟩
  | cons m ms =>
    obtain ⟨k, v⟩ := m
    rw [dumpsMembers] at hts
    obtain ⟨t, ht, hts⟩ := Option.bind_eq_some_iff.mp hts
    obtain ⟨ts', hts', rfl⟩ := Option.map_eq_some_iff.mp hts
    rw [PyValue.membersWellFormed, Bool.and_eq_true, Bool.and_eq_true] at hwf
    obtain ⟨⟨hk, hv⟩, hms⟩ := hwf
    obtain ⟨j, hspells, hload⟩ := spells_dumps hrepr v hv ht
    obtain ⟨js, hspells', hload'⟩ := spells_dumpsMembers hrepr ms hms hts'
    have hmember : Json.SpellsMember Json.codeUnits
        (encodeAscii k ++ 0x3a :: (List.replicate l.afterColon 0x20 ++ t)) (k, j) :=
      ⟨_, t, by simp, spellsName_encodeAscii hk l.afterColon, hspells⟩
    refine ⟨(k, j) :: js, .cons hmember hspells', ?_⟩
    rw [PyValue.loadMembers, hload, hload']
    rfl

end

end RoundTrip

/-! ## Printable ASCII -/

/-- The symbols of a text in the layout: printable ASCII, and line feeds if items are on lines of
    their own. -/
def Layout.Plain (l : Layout) (t : Text) : Prop :=
  ∀ c ∈ t, (0x20 ≤ c ∧ c < 0x7f) ∨ (l.indent.isSome = true ∧ c = 0x0a)

section Plain

variable {l : Layout} {repr : Double → Option Text}

theorem Layout.Plain.append {a b : Text} (ha : l.Plain a) (hb : l.Plain b) : l.Plain (a ++ b) := by
  intro c hc
  rcases List.mem_append.mp hc with hc | hc
  · exact ha c hc
  · exact hb c hc

theorem Layout.Plain.cons {c : Nat} {t : Text} (hc : 0x20 ≤ c ∧ c < 0x7f) (ht : l.Plain t) :
    l.Plain (c :: t) :=
  List.forall_mem_cons.mpr ⟨.inl hc, ht⟩

theorem Layout.plain_nil : l.Plain [] := nofun

theorem Layout.plain_spaces (n : Nat) : l.Plain (List.replicate n 0x20) := by
  intro c hc
  rw [List.eq_of_mem_replicate hc]
  exact .inl (by decide)

theorem Layout.plain_newline (level : Nat) : l.Plain (l.newline level) := by
  unfold Layout.newline
  cases hindent : l.indent with
  | none => exact Layout.plain_nil
  | some width =>
    intro c hc
    rcases List.mem_cons.mp hc with rfl | hc
    · exact .inr ⟨by rw [hindent]; rfl, rfl⟩
    · exact Layout.plain_spaces _ c hc

theorem plain_hexDigit {d : Nat} (hd : d < 16) :
    0x20 ≤ JsonWriter.hexDigit d ∧ JsonWriter.hexDigit d < 0x7f := by
  unfold JsonWriter.hexDigit
  split <;> omega

theorem plain_signedDecimal (z : Int) : l.Plain (JsonWriter.signedDecimal z) := by
  intro c hc
  have hvisible := visible_signedDecimal z c hc
  unfold Json.Visible at hvisible
  exact .inl (by omega)

theorem plain_escapeAscii {c : Nat} (hc : c < 0x10000) : l.Plain (escapeAscii c) := by
  have hshort : ∀ e, 0x20 ≤ e ∧ e < 0x7f → l.Plain [0x5c, e] := fun e he =>
    (Layout.plain_nil.cons he).cons (by decide)
  unfold escapeAscii
  iterate 7 (split; · exact hshort _ (by decide))
  split
  · exact Layout.plain_nil.cons (by omega)
  · -- the text of an escape is ASCII whatever the unit
    apply Layout.Plain.cons (by decide)
    apply Layout.Plain.cons (by decide)
    apply Layout.Plain.cons (plain_hexDigit (by omega))
    apply Layout.Plain.cons (plain_hexDigit (by omega))
    apply Layout.Plain.cons (plain_hexDigit (by omega))
    exact Layout.plain_nil.cons (plain_hexDigit (by omega))

theorem plain_encodeAscii {s : Text} (hs : s.all (· < 0x10000) = true) :
    l.Plain (encodeAscii s) := by
  have hbody : l.Plain (s.flatMap escapeAscii) := by
    intro c hc
    obtain ⟨u, hu, hc⟩ := List.mem_flatMap.mp hc
    exact plain_escapeAscii (of_decide_eq_true (List.all_eq_true.mp hs u hu)) c hc
  exact (hbody.append (Layout.plain_nil.cons (by decide))).cons (by decide)

theorem plain_intercalate {w : Text} (hw : l.Plain w) {ts : List Text} (hts : ∀ t ∈ ts, l.Plain t) :
    l.Plain (List.intercalate w ts) := by
  induction ts with
  | nil => exact Layout.plain_nil
  | cons t ts ih =>
    rw [List.forall_mem_cons] at hts
    cases ts with
    | nil => simpa [List.intercalate] using hts.1
    | cons t' ts =>
      have hsplit : List.intercalate w (t :: t' :: ts) =
          t ++ (w ++ List.intercalate w (t' :: ts)) := by simp [List.intercalate]
      rw [hsplit]
      exact hts.1.append (hw.append (ih hts.2))

theorem plain_bracket {opening closing level : Nat} {ts : List Text}
    (hopening : 0x20 ≤ opening ∧ opening < 0x7f) (hclosing : 0x20 ≤ closing ∧ closing < 0x7f)
    (hts : ∀ t ∈ ts, l.Plain t) : l.Plain (bracket l opening closing level ts) := by
  have hend : l.Plain [closing] := Layout.plain_nil.cons hclosing
  cases ts with
  | nil => exact hend.cons hopening
  | cons t ts =>
    have hcomma : l.Plain (0x2c :: l.gap (level + 1)) :=
      ((Layout.plain_spaces _).append (Layout.plain_newline _)).cons (by decide)
    have hitems := plain_intercalate hcomma hts
    exact ((Layout.plain_newline _).append
      (hitems.append ((Layout.plain_newline _).append hend))).cons hopening

mutual

/-- **The text of a value is printable ASCII**, in the compact layout on one line. -/
theorem plain_dumps (hrepr : FloatRepr repr) (v : PyValue) {level : Nat} {t : Text}
    (hwf : v.wellFormed = true) (ht : dumps l repr level v = some t) : l.Plain t := by
  cases v with
  | none =>
    cases ht
    exact fun c hc => .inl (by revert c; decide)
  | bool b =>
    cases ht
    cases b with
    | true => exact fun c hc => .inl (by revert c; decide)
    | false => exact fun c hc => .inl (by revert c; decide)
  | int z =>
    cases ht
    exact plain_signedDecimal z
  | float x =>
    intro c hc
    have hvisible := hrepr.visible ht c hc
    unfold Json.Visible at hvisible
    exact .inl (by omega)
  | str s =>
    cases ht
    rw [PyValue.wellFormed] at hwf
    exact plain_encodeAscii hwf
  | list vs =>
    rw [dumps] at ht
    obtain ⟨ts, hts, rfl⟩ := Option.map_eq_some_iff.mp ht
    rw [PyValue.wellFormed] at hwf
    exact plain_bracket (by decide) (by decide) (plain_dumpsItems hrepr vs hwf hts)
  | dict ms =>
    rw [dumps] at ht
    obtain ⟨ts, hts, rfl⟩ := Option.map_eq_some_iff.mp ht
    rw [PyValue.wellFormed, Bool.and_eq_true] at hwf
    exact plain_bracket (by decide) (by decide) (plain_dumpsMembers hrepr ms hwf.2 hts)

theorem plain_dumpsItems (hrepr : FloatRepr repr) (vs : List PyValue) {level : Nat}
    {ts : List Text} (hwf : PyValue.allWellFormed vs = true)
    (hts : dumpsItems l repr level vs = some ts) : ∀ t ∈ ts, l.Plain t := by
  cases vs with
  | nil =>
    cases hts
    exact nofun
  | cons v vs =>
    rw [dumpsItems] at hts
    obtain ⟨t, ht, hts⟩ := Option.bind_eq_some_iff.mp hts
    obtain ⟨ts', hts', rfl⟩ := Option.map_eq_some_iff.mp hts
    rw [PyValue.allWellFormed, Bool.and_eq_true] at hwf
    exact List.forall_mem_cons.mpr ⟨plain_dumps hrepr v hwf.1 ht, plain_dumpsItems hrepr vs hwf.2 hts'⟩

theorem plain_dumpsMembers (hrepr : FloatRepr repr) (ms : List (Text × PyValue)) {level : Nat}
    {ts : List Text} (hwf : PyValue.membersWellFormed ms = true)
    (hts : dumpsMembers l repr level ms = some ts) : ∀ t ∈ ts, l.Plain t := by
  cases ms with
  | nil =>
    cases hts
    exact nofun
  | cons m ms =>
    obtain ⟨k, v⟩ := m
    rw [dumpsMembers] at hts
    obtain ⟨t, ht, hts⟩ := Option.bind_eq_some_iff.mp hts
    obtain ⟨ts', hts', rfl⟩ := Option.map_eq_some_iff.mp hts
    rw [PyValue.membersWellFormed, Bool.and_eq_true, Bool.and_eq_true] at hwf
    obtain ⟨⟨hk, hv⟩, hms⟩ := hwf
    have hvalue := (Layout.plain_spaces l.afterColon).append (plain_dumps hrepr v hv ht)
    exact List.forall_mem_cons.mpr ⟨(plain_encodeAscii hk).append (hvalue.cons (by decide)),
      plain_dumpsMembers hrepr ms hms hts'⟩

end

end Plain

end LinuxMaxxing.Framework
