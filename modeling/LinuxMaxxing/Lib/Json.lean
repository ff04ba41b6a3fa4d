import Mathlib.Tactic

/-!
# JSON Texts

A parser for the grammar of RFC 8259 over a list of symbols. The symbols are the
octets of a UTF-8 text or the code units of a UTF-16 text; the two differ in what an
escape such as `\u00e9` contributes to a string, which is the parameter `dec`.

- `Value`: JSON values; a number keeps its literal form, members keep their order;
- `parseValue`, `parseElements`, `parseMembers`: by recursion on a bound on the
  number of calls;
- `octets`, `codeUnits`: `dec` for the two kinds of text;
- `parseDocument`: one value between whitespace.
-/

namespace LinuxMaxxing.Lib.Json

/-! ## Values -/

/-- A number literal: sign, integer part, digits of the fraction, exponent. -/
structure Number where
  neg : Bool
  int : Nat
  frac : Option (List Nat)
  exp : Option Int
  deriving DecidableEq, Repr

/-- JSON values. Strings and names are lists of symbols. -/
inductive Value where
  | null
  | bool (b : Bool)
  | num (n : Number)
  | str (s : List Nat)
  | arr (vs : List Value)
  | obj (ms : List (List Nat × Value))
  deriving Repr

/-! ## Whitespace and digits -/

/-- Space, tab, line feed, carriage return. -/
def isWs (c : Nat) : Bool := c = 0x20 || c = 0x09 || c = 0x0a || c = 0x0d

def skipWs (s : List Nat) : List Nat := s.dropWhile isWs

def isDigit (c : Nat) : Bool := 0x30 ≤ c && c ≤ 0x39

/-- The value of a run of digits. -/
def natOfDigits (ds : List Nat) : Nat := ds.foldl (fun n c => 10 * n + (c - 0x30)) 0

/-! ## Numbers -/

/-- `int = zero / ( digit1-9 *DIGIT )` -/
def parseInt (s : List Nat) : Option (Nat × List Nat) :=
  match s with
  | 0x30 :: r => some (0, r)
  | c :: r =>
    if isDigit c then
      some (natOfDigits ((c :: r).takeWhile isDigit), (c :: r).dropWhile isDigit)
    else none
  | [] => none

/-- One digit or more. -/
def parseDigits (s : List Nat) : Option (List Nat × List Nat) :=
  if s.takeWhile isDigit = [] then none
  else some (s.takeWhile isDigit, s.dropWhile isDigit)

/-- `frac = decimal-point 1*DIGIT`, or nothing -/
def parseFrac (s : List Nat) : Option (Option (List Nat) × List Nat) :=
  match s with
  | 0x2e :: r => (parseDigits r).map fun p => (some p.1, p.2)
  | _ => some (none, s)

/-- The optional sign of an exponent. -/
def parseSign (s : List Nat) : Bool × List Nat :=
  match s with
  | 0x2d :: r => (true, r)
  | 0x2b :: r => (false, r)
  | _ => (false, s)

/-- `exp = e [ minus / plus ] 1*DIGIT`, or nothing -/
def parseExp (s : List Nat) : Option (Option Int × List Nat) :=
  match s with
  | c :: r =>
    if c = 0x65 ∨ c = 0x45 then
      (parseDigits (parseSign r).2).map fun p =>
        (some (if (parseSign r).1 then -(natOfDigits p.1 : Int) else natOfDigits p.1), p.2)
    else some (none, s)
  | [] => some (none, s)

/-- The number after its sign. -/
def parseUnsigned (neg : Bool) (s : List Nat) : Option (Number × List Nat) :=
  (parseInt s).bind fun i =>
    (parseFrac i.2).bind fun f =>
      (parseExp f.2).map fun e => (⟨neg, i.1, f.1, e.1⟩, e.2)

def parseNumber (s : List Nat) : Option (Number × List Nat) :=
  match s with
  | 0x2d :: r => parseUnsigned true r
  | _ => parseUnsigned false s

/-! ## Strings -/

/-- A symbol of the text, or the code unit of an escape. -/
inductive StrItem where
  | raw (c : Nat)
  | unit (u : Nat)
  deriving DecidableEq, Repr

/-- The value of a hexadecimal digit. -/
def hexValue (c : Nat) : Option Nat :=
  if isDigit c then some (c - 0x30)
  else if 0x61 ≤ c ∧ c ≤ 0x66 then some (c - 0x61 + 10)
  else if 0x41 ≤ c ∧ c ≤ 0x46 then some (c - 0x41 + 10)
  else none

/-- The code unit of four hexadecimal digits. -/
def hex4 (a b c d : Nat) : Option Nat := do
  let a ← hexValue a
  let b ← hexValue b
  let c ← hexValue c
  let d ← hexValue d
  return ((a * 16 + b) * 16 + c) * 16 + d

/-- The two-character escapes. -/
def shortEscape (c : Nat) : Option Nat :=
  match c with
  | 0x22 => some 0x22
  | 0x5c => some 0x5c
  | 0x2f => some 0x2f
  | 0x62 => some 0x08
  | 0x66 => some 0x0c
  | 0x6e => some 0x0a
  | 0x72 => some 0x0d
  | 0x74 => some 0x09
  | _ => none

/-- The rest of a string after its opening quotation mark. -/
def parseChars : List Nat → Option (List StrItem × List Nat)
  | [] => none
  | c :: r =>
    if c = 0x22 then some ([], r)
    else if c = 0x5c then
      match r with
      | [] => none
      | e :: r' =>
        if e = 0x75 then
          match r' with
          | a :: b :: c :: d :: r'' =>
            (hex4 a b c d).bind fun u => (parseChars r'').map fun p => (.unit u :: p.1, p.2)
          | _ => none
        else (shortEscape e).bind fun u => (parseChars r').map fun p => (.unit u :: p.1, p.2)
    else if c < 0x20 then none
    else (parseChars r).map fun p => (.raw c :: p.1, p.2)

@[simp] theorem parseChars_quote (r : List Nat) : parseChars (0x22 :: r) = some ([], r) := by
  rw [parseChars.eq_def]
  exact if_pos rfl

theorem parseChars_unicode (a b c d : Nat) (r : List Nat) :
    parseChars (0x5c :: 0x75 :: a :: b :: c :: d :: r) =
      (hex4 a b c d).bind fun u => (parseChars r).map fun p => (.unit u :: p.1, p.2) := by
  rw [parseChars.eq_def]
  rfl

theorem parseChars_escape {e : Nat} (he : e ≠ 0x75) (r : List Nat) :
    parseChars (0x5c :: e :: r) =
      (shortEscape e).bind fun u => (parseChars r).map fun p => (.unit u :: p.1, p.2) := by
  rw [parseChars.eq_def]
  simp [he]

theorem parseChars_raw {c : Nat} (hquote : c ≠ 0x22) (hslash : c ≠ 0x5c) (hctl : ¬ c < 0x20)
    (r : List Nat) :
    parseChars (c :: r) = (parseChars r).map fun p => (.raw c :: p.1, p.2) := by
  rw [parseChars.eq_def]
  simp only [if_neg hquote, if_neg hslash, if_neg hctl]

/-! ## String contents -/

/-- The UTF-8 octets of a code point. -/
def utf8 (c : Nat) : List Nat :=
  if c < 0x80 then [c]
  else if c < 0x800 then [0xc0 + c / 64, 0x80 + c % 64]
  else if c < 0x10000 then [0xe0 + c / 4096, 0x80 + c / 64 % 64, 0x80 + c % 64]
  else [0xf0 + c / 262144, 0x80 + c / 4096 % 64, 0x80 + c / 64 % 64, 0x80 + c % 64]

/-- The contents of a string in a text of octets: escapes contribute their UTF-8
    octets, and two escapes may be the surrogates of one code point. -/
def octets : List StrItem → List Nat
  | [] => []
  | .raw c :: items => c :: octets items
  | .unit u :: .unit v :: items =>
    if 0xd800 ≤ u ∧ u < 0xdc00 ∧ 0xdc00 ≤ v ∧ v < 0xe000 then
      utf8 (0x10000 + (u - 0xd800) * 0x400 + (v - 0xdc00)) ++ octets items
    else utf8 u ++ octets (.unit v :: items)
  | .unit u :: items => utf8 u ++ octets items

/-- The contents of a string in a text of UTF-16 code units. -/
def codeUnits (items : List StrItem) : List Nat :=
  items.map fun item =>
    match item with
    | .raw c => c
    | .unit u => u

/-- An ASCII escape is one octet. -/
theorem octets_unit {u : Nat} (hu : u < 0x80) (items : List StrItem) :
    octets (.unit u :: items) = u :: octets items := by
  have hascii : utf8 u = [u] := if_pos hu
  cases items with
  | nil => simp [octets, hascii]
  | cons item items =>
    cases item with
    | raw c => simp [octets, hascii]
    | unit v =>
      have hpair : ¬ (0xd800 ≤ u ∧ u < 0xdc00 ∧ 0xdc00 ≤ v ∧ v < 0xe000) := by omega
      simp only [octets, if_neg hpair, hascii, List.singleton_append]

/-! ## Values and documents -/

section

variable (dec : List StrItem → List Nat)

/-- A name and its colon, up to the value. -/
def parseName : List Nat → Option (List Nat × List Nat)
  | [] => none
  | c :: r =>
    if c = 0x22 then
      (parseChars r).bind fun p =>
        match skipWs p.2 with
        | [] => none
        | c' :: r' => if c' = 0x3a then some (dec p.1, skipWs r') else none
    else none

mutual

/-- One value, without whitespace before it. -/
def parseValue : Nat → List Nat → Option (Value × List Nat)
  | 0, _ => none
  | _ + 1, [] => none
  | fuel + 1, c :: r =>
    if c = 0x22 then (parseChars r).map fun p => (.str (dec p.1), p.2)
    else if c = 0x5b then
      if (skipWs r).head? = some 0x5d then some (.arr [], (skipWs r).tail)
      else (parseElements fuel (skipWs r)).map fun p => (.arr p.1, p.2)
    else if c = 0x7b then
      if (skipWs r).head? = some 0x7d then some (.obj [], (skipWs r).tail)
      else (parseMembers fuel (skipWs r)).map fun p => (.obj p.1, p.2)
    else if c = 0x74 then (r.dropPrefix? [0x72, 0x75, 0x65]).map fun r' => (.bool true, r')
    else if c = 0x66 then
      (r.dropPrefix? [0x61, 0x6c, 0x73, 0x65]).map fun r' => (.bool false, r')
    else if c = 0x6e then (r.dropPrefix? [0x75, 0x6c, 0x6c]).map fun r' => (.null, r')
    else (parseNumber (c :: r)).map fun p => (.num p.1, p.2)

/-- The elements of a nonempty array and its closing bracket. -/
def parseElements : Nat → List Nat → Option (List Value × List Nat)
  | 0, _ => none
  | fuel + 1, s =>
    (parseValue fuel s).bind fun p =>
      match skipWs p.2 with
      | [] => none
      | c :: r =>
        if c = 0x2c then (parseElements fuel (skipWs r)).map fun q => (p.1 :: q.1, q.2)
        else if c = 0x5d then some ([p.1], r)
        else none

/-- The members of a nonempty object and its closing brace. -/
def parseMembers : Nat → List Nat → Option (List (List Nat × Value) × List Nat)
  | 0, _ => none
  | fuel + 1, s =>
    (parseName dec s).bind fun k =>
      (parseValue fuel k.2).bind fun p =>
        match skipWs p.2 with
        | [] => none
        | c :: r =>
          if c = 0x2c then
            (parseMembers fuel (skipWs r)).map fun q => ((k.1, p.1) :: q.1, q.2)
          else if c = 0x7d then some ([(k.1, p.1)], r)
          else none

end

/-- `JSON-text = ws value ws` -/
def parseDocument (s : List Nat) : Option Value :=
  match parseValue dec (s.length + 1) (skipWs s) with
  | some (v, r) => if skipWs r = [] then some v else none
  | none => none

end

end LinuxMaxxing.Lib.Json
