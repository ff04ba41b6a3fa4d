import LinuxMaxxing.Lib.Utf8
import LinuxMaxxing.Common.JsonRoundTrip
import LinuxMaxxing.Framework.Validate

/-!
# Observer Records in a File

What observers write with `json_writer.c`, as `ndjson` of `runtime.py` reads it. The writer copies
every byte from 0x80 on as it is; the reader opens the file as UTF-8 text.

- `ndjsonFile`: the octets of a file, decoded and read;
- `Tree.buffers`: the bytes that `json_string_n` emits of fixed-size buffers;
- `decodes_tree`: the text of a tree is valid exactly if all its strings are;
- `observerFile_accepted_iff`: a file of records is read back exactly if every buffer holds valid
  UTF-8 up to where it ends or is cut.
-/

namespace LinuxMaxxing.Framework

open LinuxMaxxing.Lib LinuxMaxxing.Common

/-! ## The file as text -/

/-- What leaves the iteration over a file: the error of the stream's decoder, which is raised
    outside the `try` around `json.loads`, or what `ndjson` itself raises. -/
inductive ReadExn where
  | unicodeDecodeError
  | raised (e : PyExn)
  deriving DecidableEq, Repr

/-- `list(ndjson(path))` on the octets of the file. The stream decodes in chunks, so a record in
    front of a bad octet may raise before the decoder does; no list is returned either way. -/
def ndjsonFile (limits : Limits) (content : List Nat) : Except ReadExn (List PyValue) :=
  match Utf8.units content with
  | none => .error .unicodeDecodeError
  | some units =>
    match ndjson limits units with
    | .ok events => .ok events
    | .error e => .error (.raised e)

/-! ## The strings of a record -/

/-- Where the bytes of a string come from: from the observer's own text, or from a buffer that the
    kernel filled. -/
inductive Origin where
  | literal
  | buffer
  deriving DecidableEq, Repr

/-- The bytes that are emitted of a string. -/
def scalarStrings : Scalar → List (Origin × List UInt8)
  | .string value => [(.literal, JsonWriter.cString value JsonWriter.sizeMax)]
  | .stringN value maxLen => [(.buffer, JsonWriter.cString value maxLen)]
  | _ => []

/-- The bytes that are emitted of a name. -/
def nameBytes (n : List UInt8) : List UInt8 := JsonWriter.cString n JsonWriter.sizeMax

mutual

/-- All strings of a tree, names included. -/
def treeStrings : Tree → List (Origin × List UInt8)
  | .scalar s => scalarStrings s
  | .arr es => elementStrings es
  | .obj ms => memberStrings ms

def elementStrings : Elements → List (Origin × List UInt8)
  | .nil => []
  | .cons t rest => treeStrings t ++ elementStrings rest

def memberStrings : Members → List (Origin × List UInt8)
  | .nil => []
  | .field n t rest => (.literal, nameBytes n) :: (treeStrings t ++ memberStrings rest)
  | .hex n _ rest => (.literal, nameBytes n) :: memberStrings rest
  | .ptr n _ rest => (.literal, nameBytes n) :: memberStrings rest

end

def stringsFrom (origin : Origin) (t : Tree) : List (List UInt8) :=
  ((treeStrings t).filter fun s => s.1 = origin).map Prod.snd

/-- The names of an object's members. -/
def memberNames : Members → List (List UInt8)
  | .nil => []
  | .field n _ rest => nameBytes n :: memberNames rest
  | .hex n _ rest => nameBytes n :: memberNames rest
  | .ptr n _ rest => nameBytes n :: memberNames rest

mutual

/-- No object has a name twice. -/
def distinctNames : Tree → Bool
  | .scalar _ => true
  | .arr es => elementsDistinct es
  | .obj ms => (memberNames ms).Nodup && membersDistinct ms

def elementsDistinct : Elements → Bool
  | .nil => true
  | .cons t rest => distinctNames t && elementsDistinct rest

def membersDistinct : Members → Bool
  | .nil => true
  | .field _ t rest => distinctNames t && membersDistinct rest
  | .hex _ _ rest => membersDistinct rest
  | .ptr _ _ rest => membersDistinct rest

end

/-- The bytes are valid UTF-8. -/
def ValidBytes (bytes : List UInt8) : Prop := Utf8.Valid (bytes.map UInt8.toNat)

/-! ## The text in code units -/

/-- The code units of the bytes of a string; nothing of invalid ones. -/
def readUnits (bytes : List UInt8) : Text := (Utf8.units (bytes.map UInt8.toNat)).getD []

/-- The text of a tree as the reader has it in front of `json.loads`. -/
def unitQuoting : Quoting where
  dec := Json.codeUnits
  written bytes := (readUnits bytes).flatMap escapedSymbol
  contents := readUnits
  reads bytes := by
    obtain ⟨items, -, hunits, hparse⟩ := parseChars_escaped (readUnits bytes)
    exact ⟨items, hunits, hparse⟩
  plain text := by
    induction text with
    | nil => rfl
    | cons c text ih => exact congrArg (c :: ·) ih
  printable bytes := printable_escaped _

/-- The text decodes to the units, whatever follows it, if `P` holds, and to nothing else. -/
structure Decodes (P : Prop) (octets units : List Nat) : Prop where
  valid : P → ∀ y, Utf8.units (octets ++ y) = (Utf8.units y).map (units ++ ·)
  invalid : ¬ P → ∀ y, Utf8.units (octets ++ y) = none

/-- Only ASCII symbols. -/
def Ascii (octets : List Nat) : Prop := ∀ c ∈ octets, c < 0x80

section Decodes

variable {P Q : Prop} {a b x z : List Nat}

theorem decodes_ascii (hP : P) (ha : Ascii a) : Decodes P a a where
  valid _ y := Utf8.units_ascii_append ha y
  invalid hnot := absurd hP hnot

theorem Decodes.append (ha : Decodes P a x) (hb : Decodes Q b z) :
    Decodes (P ∧ Q) (a ++ b) (x ++ z) where
  valid h y := by
    rw [List.append_assoc, ha.valid h.1, hb.valid h.2, Option.map_map]
    congr 1
    funext rest
    simp
  invalid h y := by
    rw [List.append_assoc]
    by_cases hP : P
    · rw [ha.valid hP, hb.invalid fun hQ => h ⟨hP, hQ⟩]
      rfl
    · exact ha.invalid hP _

theorem Decodes.congr (h : Decodes P a x) (hiff : P ↔ Q) : Decodes Q a x where
  valid hQ := h.valid (hiff.mpr hQ)
  invalid hQ := h.invalid fun hP => hQ (hiff.mp hP)

/-- ASCII symbols in front and behind. -/
theorem Decodes.between (h : Decodes P b z) (ha : Ascii a) (hx : Ascii x) :
    Decodes P (a ++ (b ++ x)) (a ++ (z ++ x)) :=
  ((decodes_ascii trivial ha).append (h.append (decodes_ascii trivial hx))).congr (by simp)

/-- ASCII symbols in front. -/
theorem Decodes.after (h : Decodes P b z) (ha : Ascii a) : Decodes P (a ++ b) (a ++ z) :=
  ((decodes_ascii trivial ha).append h).congr (by simp)

end Decodes

/-! ## What decodes to what -/

theorem ascii_digitsIn {base : Nat} (n : Nat) (hbase : 1 < base) (hmax : base ≤ 16) :
    Ascii (JsonWriter.digitsIn base n) := by
  unfold JsonWriter.digitsIn
  split
  · simp [Ascii]
  · intro c hc
    obtain ⟨d, hd, rfl⟩ := List.mem_map.mp hc
    have hlt := Nat.digits_lt_base hbase (List.mem_reverse.mp hd)
    unfold JsonWriter.hexDigit
    split <;> omega

theorem ascii_signedDecimal (n : Int) : Ascii (JsonWriter.signedDecimal n) := by
  have hdigits : Ascii (JsonWriter.decimal n.natAbs) :=
    ascii_digitsIn _ (by decide) (by decide)
  unfold JsonWriter.signedDecimal
  split
  · exact List.forall_mem_cons.mpr ⟨by decide, hdigits⟩
  · exact hdigits

theorem ascii_zeroPad {digits : List Nat} (h : Ascii digits) (width : Nat) :
    Ascii (JsonWriter.zeroPad width digits) := by
  intro c hc
  rcases List.mem_append.mp hc with hc | hc
  · rw [List.eq_of_mem_replicate hc]
    decide
  · exact h c hc

theorem ascii_prefixed {digits : List Nat} (h : Ascii digits) :
    Ascii (0x22 :: 0x30 :: 0x78 :: (digits ++ [0x22])) := by
  intro c hc
  simp only [List.mem_cons, List.mem_append, List.not_mem_nil, or_false] at hc
  rcases hc with rfl | rfl | rfl | hc | rfl
  · decide
  · decide
  · decide
  · exact h c hc
  · decide

theorem ascii_hexText (v : BitVec 64) : Ascii (hexText v) :=
  ascii_prefixed (ascii_digitsIn _ (by decide) (by decide))

theorem ascii_ptrText (v : BitVec 64) : Ascii (ptrText v) := by
  unfold ptrText
  split
  · exact ascii_prefixed (ascii_zeroPad (ascii_digitsIn _ (by decide) (by decide)) 16)
  · unfold Ascii
    decide

theorem ascii_separator (first : Bool) : Ascii (separator first) := by
  cases first <;> unfold Ascii <;> decide

theorem units_escaped (symbols : List Nat) :
    Utf8.units (symbols.flatMap escapedSymbol) =
      (Utf8.units symbols).map fun units => units.flatMap escapedSymbol := by
  apply Utf8.units_escape
  · -- symbols that are not ASCII are no escapes
    intro c hc
    unfold escapedSymbol
    rw [if_neg (by omega), if_neg (by omega)]
  · intro c _
    unfold escapedSymbol
    split
    · simp
    · split <;> simp
  · intro c hc
    unfold escapedSymbol
    split
    · intro d hd
      simp only [List.mem_cons, List.not_mem_nil, or_false] at hd
      omega
    · split
      · have hdigits : Ascii (JsonWriter.zeroPad 4 (JsonWriter.hex c)) :=
          ascii_zeroPad (ascii_digitsIn _ (by decide) (by decide)) 4
        exact List.forall_mem_cons.mpr ⟨by decide, List.forall_mem_cons.mpr ⟨by decide, hdigits⟩⟩
      · simpa using hc

/-- **A string is decoded if its bytes are valid**, and they are not repaired by its quotation
    marks or its escapes. -/
theorem decodes_quoted (value : List UInt8) (maxLen : Nat) :
    Decodes (ValidBytes (JsonWriter.cString value maxLen)) (quoted value maxLen)
      (unitQuoting.quoted value maxLen) := by
  have hunits : ∀ y, Utf8.units (quoted value maxLen ++ y) =
      ((Utf8.units ((JsonWriter.cString value maxLen).map UInt8.toNat)).bind fun units =>
        (Utf8.units y).map fun rest => 0x22 :: (units.flatMap escapedSymbol ++ 0x22 :: rest)) := by
    intro y
    have htext : quoted value maxLen ++ y =
        [] ++ 0x22 :: (((JsonWriter.cString value maxLen).map UInt8.toNat).flatMap escapedSymbol ++
          0x22 :: y) := by
      simp [quoted, flatMap_escapedByte]
    rw [htext, Utf8.units_append_ascii (by decide), Utf8.units_append_ascii (by decide),
      units_escaped, Utf8.units_nil]
    cases Utf8.units ((JsonWriter.cString value maxLen).map UInt8.toNat) with
    | none => rfl
    | some units =>
      cases Utf8.units y with
      | none => rfl
      | some rest => rfl
  constructor
  · intro hvalid y
    obtain ⟨units, hsome⟩ := Utf8.valid_iff_units.mp hvalid
    rw [hunits, hsome, Option.bind_some]
    congr 1
    funext rest
    simp [Quoting.quoted, unitQuoting, readUnits, hsome]
  · intro hinvalid y
    have hnone : Utf8.units ((JsonWriter.cString value maxLen).map UInt8.toNat) = none := by
      rw [Option.eq_none_iff_forall_ne_some]
      exact fun units hsome => hinvalid (Utf8.valid_iff_units.mpr ⟨units, hsome⟩)
    rw [hunits, hnone, Option.bind_none]

theorem decodes_nameText (n : List UInt8) :
    Decodes (ValidBytes (nameBytes n)) (nameText n) (unitQuoting.nameText n) :=
  ((decodes_quoted n _).append (decodes_ascii trivial (show Ascii [0x3a] by simp [Ascii]))).congr
    (and_iff_left trivial)

/-- All the strings are valid. -/
def AllValid (strings : List (Origin × List UInt8)) : Prop := ∀ s ∈ strings, ValidBytes s.2

theorem allValid_nil : AllValid [] := nofun

theorem allValid_singleton {s : Origin × List UInt8} : AllValid [s] ↔ ValidBytes s.2 := by
  simp [AllValid]

theorem allValid_cons {s : Origin × List UInt8} {rest : List (Origin × List UInt8)} :
    AllValid (s :: rest) ↔ ValidBytes s.2 ∧ AllValid rest := List.forall_mem_cons

theorem allValid_append {a b : List (Origin × List UInt8)} :
    AllValid (a ++ b) ↔ AllValid a ∧ AllValid b := List.forall_mem_append

theorem decodes_scalar (s : Scalar) :
    Decodes (AllValid (scalarStrings s)) s.text (s.render unitQuoting) := by
  cases s with
  | u32 v => exact decodes_ascii allValid_nil (ascii_digitsIn _ (by decide) (by decide))
  | u64 v => exact decodes_ascii allValid_nil (ascii_digitsIn _ (by decide) (by decide))
  | i64 v => exact decodes_ascii allValid_nil (ascii_signedDecimal _)
  | bool v =>
    apply decodes_ascii allValid_nil
    show Ascii (if v then JsonWriter.trueText else JsonWriter.falseText)
    cases v <;> unfold Ascii <;> decide
  | null => exact decodes_ascii allValid_nil (show Ascii JsonWriter.nullText by unfold Ascii; decide)
  | string value =>
    apply (decodes_quoted value _).congr
    rw [scalarStrings, allValid_singleton]
  | stringN value maxLen =>
    apply (decodes_quoted value maxLen).congr
    rw [scalarStrings, allValid_singleton]

mutual

/-- **The text of a tree is valid exactly if its strings are.** By recursion on the tree. -/
theorem decodes_tree (t : Tree) :
    Decodes (AllValid (treeStrings t)) t.text (t.render unitQuoting) := by
  cases t with
  | scalar s => exact decodes_scalar s
  | arr es =>
    exact (decodes_elements es true).between (a := [0x5b]) (x := [0x5d]) (by simp [Ascii])
      (by simp [Ascii])
  | obj ms =>
    exact (decodes_members ms true).between (a := [0x7b]) (x := [0x7d]) (by simp [Ascii])
      (by simp [Ascii])

theorem decodes_elements (es : Elements) (first : Bool) :
    Decodes (AllValid (elementStrings es)) (es.text first) (es.render unitQuoting first) := by
  cases es with
  | nil => exact decodes_ascii allValid_nil nofun
  | cons t rest =>
    have hitems := (decodes_tree t).append (decodes_elements rest false)
    exact (hitems.after (ascii_separator first)).congr allValid_append.symm

theorem decodes_members (ms : Members) (first : Bool) :
    Decodes (AllValid (memberStrings ms)) (ms.text first) (ms.render unitQuoting first) := by
  cases ms with
  | nil => exact decodes_ascii allValid_nil nofun
  | field n t rest =>
    have hmember := (decodes_nameText n).append (decodes_tree t)
    have hmembers := hmember.append (decodes_members rest false)
    refine (hmembers.after (ascii_separator first)).congr ?_
    rw [memberStrings, allValid_cons, allValid_append, and_assoc]
  | hex n v rest =>
    have hvalue : Decodes True (hexText v) (hexText v) := decodes_ascii trivial (ascii_hexText v)
    have hmembers := ((decodes_nameText n).append hvalue).append (decodes_members rest false)
    refine (hmembers.after (ascii_separator first)).congr ?_
    rw [memberStrings, allValid_cons, and_true]
  | ptr n v rest =>
    have hvalue : Decodes True (ptrText v) (ptrText v) := decodes_ascii trivial (ascii_ptrText v)
    have hmembers := ((decodes_nameText n).append hvalue).append (decodes_members rest false)
    refine (hmembers.after (ascii_separator first)).congr ?_
    rw [memberStrings, allValid_cons, and_true]

end
/-! ## Loading -/

theorem readUnits_inj {a b : List UInt8} (ha : ValidBytes a) (hb : ValidBytes b)
    (h : readUnits a = readUnits b) : a = b := by
  obtain ⟨us, hus⟩ := Utf8.valid_iff_units.mp ha
  obtain ⟨vs, hvs⟩ := Utf8.valid_iff_units.mp hb
  unfold readUnits at h
  rw [hus, hvs, Option.getD_some, Option.getD_some] at h
  subst h
  have htoNat : Function.Injective UInt8.toNat := fun c d hcd => UInt8.toNat_inj.mp hcd
  exact List.map_injective_iff.mpr htoNat (Utf8.units_inj hus hvs)

theorem mem_memberStrings {ms : Members} {n : List UInt8} (h : n ∈ memberNames ms) :
    (.literal, n) ∈ memberStrings ms := by
  cases ms with
  | nil => cases h
  | field n' t rest =>
    rw [memberStrings]
    rcases List.mem_cons.mp h with rfl | h
    · exact List.mem_cons_self
    · exact List.mem_cons_of_mem _ (List.mem_append_right _ (mem_memberStrings h))
  | hex n' v rest | ptr n' v rest =>
    rw [memberStrings]
    rcases List.mem_cons.mp h with rfl | h
    · exact List.mem_cons_self
    · exact List.mem_cons_of_mem _ (mem_memberStrings h)

/-- The interpreter has room for the deepest record that an observer can write, and for the digits
    of a 64-bit number. -/
structure Limits.HoldsRecords (limits : Limits) : Prop where
  nesting : jsonWriterMaxDepth + limits.hook ≤ limits.nesting
  digits : 20 ≤ limits.digits

theorem cpython_holdsRecords : cpython.HoldsRecords := ⟨by decide, by decide⟩

theorem load_ptrValue (v : BitVec 64) : ∃ value, PyValue.load (ptrValue v) = some value ∧
    ∀ limits room, value.fits limits room = true := by
  unfold ptrValue
  split
  · exact ⟨_, rfl, fun _ _ => rfl⟩
  · exact ⟨_, rfl, fun _ _ => rfl⟩

/-- A number of the writer has twenty digits at most. -/
theorem fits_ofNumber {limits : Limits} (hdigits : 20 ≤ limits.digits) {n : Nat} (hn : n < 2 ^ 64)
    (neg : Bool) (room : Nat) :
    (PyValue.ofNumber ⟨neg, n, none, none⟩).fits limits room = true := by
  have hlt : n < 10 ^ limits.digits :=
    lt_of_lt_of_le (lt_trans hn (by decide)) (Nat.pow_le_pow_right (by decide) hdigits)
  show decide _ = true
  rw [decide_eq_true_eq]
  cases neg with
  | false => exact hlt
  | true => exact (Int.natAbs_neg (n : Int)).symm ▸ hlt

theorem load_scalar {limits : Limits} (hdigits : 20 ≤ limits.digits) (s : Scalar) (room : Nat) :
    ∃ value, PyValue.load ((Tree.scalar s).reading unitQuoting) = some value ∧
      value.fits limits room = true := by
  cases s with
  | u32 v => exact ⟨_, rfl, fits_ofNumber hdigits (by omega) _ _⟩
  | u64 v => exact ⟨_, rfl, fits_ofNumber hdigits v.isLt _ _⟩
  | i64 v =>
    have hlow := v.le_toInt
    have hhigh := v.toInt_lt
    exact ⟨_, rfl, fits_ofNumber hdigits (by omega) _ _⟩
  | bool b => exact ⟨_, rfl, rfl⟩
  | null => exact ⟨_, rfl, rfl⟩
  | string value => exact ⟨_, rfl, rfl⟩
  | stringN value maxLen => exact ⟨_, rfl, rfl⟩

/-- One member more. -/
theorem loadedMember {limits : Limits} {room : Nat} {n : List UInt8} {names : List (List UInt8)}
    {v : Json.Value} {ms : List (Text × Json.Value)} {p : PyValue} {ds : List (Text × PyValue)}
    (hv : PyValue.load v = some p ∧ p.fits limits room = true)
    (hms : PyValue.loadMembers ms = some ds) (hkeys : ds.map Prod.fst = names.map readUnits)
    (hfits : PyValue.membersFit limits room ds = true) :
    PyValue.loadMembers ((readUnits (nameBytes n), v) :: ms) =
        some ((readUnits (nameBytes n), p) :: ds) ∧
      ((readUnits (nameBytes n), p) :: ds).map Prod.fst = (nameBytes n :: names).map readUnits ∧
      PyValue.membersFit limits room ((readUnits (nameBytes n), p) :: ds) = true := by
  obtain ⟨hload, hfit⟩ := loadMembers_cons_iff.mpr ⟨p, ds, rfl, hv, hms, hfits⟩
  exact ⟨hload, congrArg (readUnits (nameBytes n) :: ·) hkeys, hfit⟩

mutual

/-- A tree with valid strings and distinct names is loaded, and fits where its containers do. By
    recursion on the tree. -/
theorem load_reading {limits : Limits} (hdigits : 20 ≤ limits.digits) (t : Tree)
    (hvalid : AllValid (treeStrings t)) (hnames : distinctNames t = true) {room : Nat}
    (hroom : t.nesting + limits.hook ≤ room) :
    ∃ value, PyValue.load (t.reading unitQuoting) = some value ∧
      value.fits limits room = true := by
  cases t with
  | scalar s => exact load_scalar hdigits s room
  | arr es =>
    rw [Tree.nesting] at hroom
    have hinner : es.nesting + limits.hook ≤ room - 1 := by omega
    obtain ⟨values, hvalues, hfits⟩ := load_elements hdigits es hvalid hnames hinner
    refine ⟨.list values, load_arr_iff.mpr ⟨values, hvalues, rfl, by omega, hfits⟩⟩
  | obj ms =>
    rw [Tree.nesting] at hroom
    rw [distinctNames, Bool.and_eq_true, decide_eq_true_eq] at hnames
    have hinner : ms.nesting + limits.hook ≤ room - 1 := by omega
    obtain ⟨members, hmembers, hkeys, hfits⟩ := load_members hdigits ms hvalid hnames.2 hinner
    have hnodup : (members.map Prod.fst).Nodup := by
      rw [hkeys]
      refine hnames.1.map_on fun a ha b hb hab => ?_
      exact readUnits_inj (hvalid _ (mem_memberStrings ha)) (hvalid _ (mem_memberStrings hb)) hab
    exact ⟨.dict members,
      load_obj_iff.mpr ⟨members, hmembers, hnodup, rfl, by omega, hfits⟩⟩

theorem load_elements {limits : Limits} (hdigits : 20 ≤ limits.digits) (es : Elements)
    (hvalid : AllValid (elementStrings es)) (hnames : elementsDistinct es = true) {room : Nat}
    (hroom : es.nesting + limits.hook ≤ room) :
    ∃ values, PyValue.loadList (es.readings unitQuoting) = some values ∧
      PyValue.allFit limits room values = true := by
  cases es with
  | nil => exact ⟨[], rfl, rfl⟩
  | cons t rest =>
    rw [elementsDistinct, Bool.and_eq_true] at hnames
    rw [elementStrings, allValid_append] at hvalid
    rw [Elements.nesting] at hroom
    have hfirst : t.nesting + limits.hook ≤ room := by omega
    have hrest : rest.nesting + limits.hook ≤ room := by omega
    obtain ⟨value, hvalue⟩ := load_reading hdigits t hvalid.1 hnames.1 hfirst
    obtain ⟨values, hvalues⟩ := load_elements hdigits rest hvalid.2 hnames.2 hrest
    exact ⟨value :: values, loadList_cons_iff.mpr ⟨value, values, rfl, hvalue, hvalues⟩⟩

theorem load_members {limits : Limits} (hdigits : 20 ≤ limits.digits) (ms : Members)
    (hvalid : AllValid (memberStrings ms)) (hnames : membersDistinct ms = true) {room : Nat}
    (hroom : ms.nesting + limits.hook ≤ room) :
    ∃ members, PyValue.loadMembers (ms.readings unitQuoting) = some members ∧
      members.map Prod.fst = (memberNames ms).map readUnits ∧
      PyValue.membersFit limits room members = true := by
  cases ms with
  | nil => exact ⟨[], rfl, rfl, rfl⟩
  | field n t rest =>
    rw [membersDistinct, Bool.and_eq_true] at hnames
    rw [memberStrings, allValid_cons, allValid_append] at hvalid
    rw [Members.nesting] at hroom
    have hfirst : t.nesting + limits.hook ≤ room := by omega
    have hrest : rest.nesting + limits.hook ≤ room := by omega
    obtain ⟨value, hvalue⟩ := load_reading hdigits t hvalid.2.1 hnames.1 hfirst
    obtain ⟨members, hmembers, hkeys, hfits⟩ :=
      load_members hdigits rest hvalid.2.2 hnames.2 hrest
    exact ⟨_, loadedMember hvalue hmembers hkeys hfits⟩
  | hex n v rest =>
    rw [memberStrings, allValid_cons] at hvalid
    obtain ⟨members, hmembers, hkeys, hfits⟩ :=
      load_members hdigits rest hvalid.2 hnames hroom
    exact ⟨_, loadedMember ⟨rfl, rfl⟩ hmembers hkeys hfits⟩
  | ptr n v rest =>
    rw [memberStrings, allValid_cons] at hvalid
    obtain ⟨value, hvalue, hptr⟩ := load_ptrValue v
    obtain ⟨members, hmembers, hkeys, hfits⟩ :=
      load_members hdigits rest hvalid.2 hnames hroom
    exact ⟨_, loadedMember ⟨hvalue, hptr limits room⟩ hmembers hkeys hfits⟩

end

/-! ## Records in a file -/

/-- What the observers' own code sees to: a record is an object that is not nested too deep, the
    texts it provides itself are valid, and no object gets a name twice. -/
structure ObserverRecord (t : Tree) : Prop where
  object : ∃ ms, t = .obj ms
  nesting : t.nesting ≤ jsonWriterMaxDepth
  literals : ∀ bytes ∈ stringsFrom .literal t, ValidBytes bytes
  names : distinctNames t = true

/-- The octets of one record, from `json_writer_init` to `json_newline`. -/
def observerLine (t : Tree) : List Nat := (emitValue (JsonWriter.init []) t).newline.written

/-- The strings of a record that come from buffers. -/
def buffers (t : Tree) : List (List UInt8) := stringsFrom .buffer t

theorem observerLine_eq {t : Tree} (h : t.nesting ≤ jsonWriterMaxDepth) :
    observerLine t = t.text ++ [0x0a] := by
  have hinit : (JsonWriter.init []).Quiet := ⟨rfl, rfl⟩
  have hitem := emitValue_item t hinit (le_of_eq_of_le (Nat.zero_add _) h)
  have hwritten : (emitValue (JsonWriter.init []) t).written = t.text := hitem.written
  unfold observerLine
  rw [JsonWriter.newline, hitem.quiet.putc, JsonWriter.append, hwritten]

theorem ObserverRecord.allValid_iff {t : Tree} (h : ObserverRecord t) :
    AllValid (treeStrings t) ↔ ∀ bytes ∈ buffers t, ValidBytes bytes := by
  have hmem : ∀ {origin bytes}, bytes ∈ stringsFrom origin t ↔ (origin, bytes) ∈ treeStrings t := by
    intro origin bytes
    simp [stringsFrom]
  constructor
  · exact fun hall bytes hbytes => hall _ (hmem.mp hbytes)
  · intro hbuffers s hs
    obtain ⟨origin, bytes⟩ := s
    cases origin with
    | literal => exact h.literals bytes (hmem.mpr hs)
    | buffer => exact hbuffers bytes (hmem.mpr hs)

theorem ObserverRecord.decodes {t : Tree} (h : ObserverRecord t) :
    Decodes (∀ bytes ∈ buffers t, ValidBytes bytes) (observerLine t)
      (t.render unitQuoting ++ [0x0a]) := by
  rw [observerLine_eq h.nesting]
  have hline := (decodes_tree t).append (decodes_ascii trivial (show Ascii [0x0a] by simp [Ascii]))
  exact hline.congr ((and_iff_left trivial).trans h.allValid_iff)

theorem decodes_file {records : List Tree} (h : ∀ t ∈ records, ObserverRecord t) :
    Decodes (∀ t ∈ records, ∀ bytes ∈ buffers t, ValidBytes bytes) (records.flatMap observerLine)
      ((records.map (Tree.render unitQuoting)).flatMap (· ++ [0x0a])) := by
  induction records with
  | nil => exact decodes_ascii (List.forall_mem_nil _) nofun
  | cons t records ih =>
    rw [List.forall_mem_cons] at h
    apply (h.1.decodes.append (ih h.2)).congr
    rw [List.forall_mem_cons]

/-- A record whose strings are valid is read. -/
theorem ndjsonLine_record {limits : Limits} (hlimits : limits.HoldsRecords) {t : Tree}
    (h : ObserverRecord t) (hvalid : AllValid (treeStrings t)) (index : Nat) :
    ∃ value, ndjsonLine limits index (t.render unitQuoting ++ [0x0a]) = .ok value := by
  obtain ⟨value, hload, hfits⟩ := load_reading hlimits.digits t hvalid h.names
    (le_trans (Nat.add_le_add_right h.nesting _) hlimits.nesting)
  have hparse : Json.parseDocument Json.codeUnits (t.render unitQuoting ++ [0x0a]) =
      some (t.reading unitQuoting) := by
    apply parseDocument_render unitQuoting t
    intro c hc
    rw [List.mem_singleton.mp hc]
    rfl
  have hspace : (t.render unitQuoting ++ [0x0a]).all isPySpace = false := by
    obtain ⟨ms, rfl⟩ := h.object
    rfl
  refine ⟨value, ?_⟩
  have hloads : loads limits (t.render unitQuoting ++ [0x0a]) = .ok value := by
    refine loads_eq_ok_iff.mpr ⟨?_, hfits⟩
    rw [hparse, Option.bind_some, hload]
  unfold ndjsonLine
  rw [if_neg (by simp [hspace]), hloads]

theorem ndjsonLines_records {limits : Limits} (hlimits : limits.HoldsRecords)
    {records : List Tree} (h : ∀ t ∈ records, ObserverRecord t)
    (hvalid : ∀ t ∈ records, AllValid (treeStrings t)) (index : Nat) :
    ∃ events, ndjsonLines limits index ((records.map (Tree.render unitQuoting)).map (· ++ [0x0a])) =
        .ok events ∧ events.length = records.length := by
  induction records generalizing index with
  | nil => exact ⟨[], rfl, rfl⟩
  | cons t records ih =>
    rw [List.forall_mem_cons] at h hvalid
    obtain ⟨value, hvalue⟩ := ndjsonLine_record hlimits h.1 hvalid.1 index
    obtain ⟨events, hevents, hlength⟩ := ih h.2 hvalid.2 (index + 1)
    refine ⟨value :: events, ?_, by rw [List.length_cons, List.length_cons, hlength]⟩
    rw [List.map_cons, List.map_cons, ndjsonLines, hvalue, hevents]
    rfl

theorem linesOf_records (records : List Tree) :
    JsonLines.linesOf ((records.map (Tree.render unitQuoting)).flatMap (· ++ [0x0a])) =
      (records.map (Tree.render unitQuoting)).map (· ++ [0x0a]) := by
  apply JsonLines.linesOf_flatMap
  intro l hl
  obtain ⟨t, -, rfl⟩ := List.mem_map.mp hl
  have hprintable := printable_render unitQuoting t
  exact ⟨fun hmem => absurd (hprintable _ hmem) (by decide),
    fun hmem => absurd (hprintable _ hmem) (by decide)⟩

/-- **When observers' records are read back**: every line is valid UTF-8 and `ndjson` yields one
    record for each, exactly if the bytes that are emitted of every buffer are valid UTF-8. A
    buffer that was cut inside a character, or holds no UTF-8 at all, loses the whole file. -/
theorem observerFile_accepted_iff (limits : Limits) (hlimits : limits.HoldsRecords)
    (records : List Tree) (h : ∀ t ∈ records, ObserverRecord t) :
    ((∀ t ∈ records, Utf8.Valid (observerLine t)) ∧
      ∃ events, ndjsonFile limits (records.flatMap observerLine) = .ok events ∧
        events.length = records.length) ↔
      ∀ t ∈ records, ∀ bytes ∈ buffers t, ValidBytes bytes := by
  have hfile := decodes_file h
  constructor
  · -- one bad byte anywhere in the file raises before any line is read
    rintro ⟨-, events, hread, -⟩
    by_contra hinvalid
    have hnone := hfile.invalid hinvalid []
    rw [List.append_nil] at hnone
    unfold ndjsonFile at hread
    rw [hnone] at hread
    cases hread
  · intro hbuffers
    refine ⟨fun t ht => ?_, ?_⟩
    · have hline := (h t ht).decodes.valid (hbuffers t ht) []
      rw [List.append_nil, Utf8.units_nil, Option.map_some] at hline
      exact Utf8.valid_iff_units.mpr ⟨_, hline⟩
    · have hunits := hfile.valid hbuffers []
      rw [List.append_nil, Utf8.units_nil, Option.map_some, List.append_nil] at hunits
      have hvalid : ∀ t ∈ records, AllValid (treeStrings t) :=
        fun t ht => (h t ht).allValid_iff.mpr (hbuffers t ht)
      obtain ⟨events, hevents, hlength⟩ := ndjsonLines_records hlimits h hvalid 1
      refine ⟨events, ?_, hlength⟩
      unfold ndjsonFile ndjson
      rw [hunits]
      simp only [linesOf_records, hevents]

instance (bytes : List UInt8) : Decidable (ValidBytes bytes) :=
  decidable_of_iff ((Utf8.decode (bytes.map UInt8.toNat)).isSome = true)
    (Option.isSome_iff_exists.trans Utf8.valid_iff_decode.symm)

/-- A record with a 16-byte `comm` in its context. -/
def taskRecord (comm : List UInt8) : Tree :=
  .obj (.field [0x63, 0x6f, 0x6e, 0x74, 0x65, 0x78, 0x74]
    (.obj (.field [0x63, 0x6f, 0x6d, 0x6d] (.scalar (.stringN comm 16)) .nil)) .nil)

theorem observerRecord_taskRecord (comm : List UInt8) : ObserverRecord (taskRecord comm) where
  object := ⟨_, rfl⟩
  nesting := show (2 : Nat) ≤ 32 by decide
  literals := by
    show ∀ bytes ∈ [[0x63, 0x6f, 0x6e, 0x74, 0x65, 0x78, 0x74], [0x63, 0x6f, 0x6d, 0x6d]],
      ValidBytes bytes
    decide
  names := by rfl

/-- The name `zażółć` fits, with both bytes of each of its letters. -/
def fittingComm : List UInt8 :=
  [0x7a, 0x61, 0xc5, 0xbc, 0xc3, 0xb3, 0xc5, 0x82, 0xc4, 0x87, 0, 0, 0, 0, 0, 0]

theorem observerFile_accepted_iff_fitting :
    ObserverRecord (taskRecord fittingComm) ∧ Utf8.Valid (observerLine (taskRecord fittingComm)) ∧
    ∃ events, ndjsonFile cpython ([taskRecord fittingComm].flatMap observerLine) = .ok events ∧
      events.length = 1 := by
  have hrecord := observerRecord_taskRecord fittingComm
  have h := (observerFile_accepted_iff cpython cpython_holdsRecords [taskRecord fittingComm]
    (fun t ht => List.mem_singleton.mp ht ▸ hrecord)).mpr (by
      intro t ht
      rw [List.mem_singleton.mp ht]
      show ∀ bytes ∈ [JsonWriter.cString fittingComm 16], ValidBytes bytes
      decide)
  exact ⟨hrecord, h.1 _ List.mem_cons_self, h.2⟩

/-- The kernel keeps 15 bytes of a name; here these end inside the letter after the `a`s. -/
def cutComm : List UInt8 := List.replicate 14 0x61 ++ [0xc3, 0]

theorem cutComm_rejected :
    cutComm.length = 16 ∧ ObserverRecord (taskRecord cutComm) ∧
    ¬ Utf8.Valid (observerLine (taskRecord cutComm)) ∧
    ∀ limits, ndjsonFile limits (observerLine (taskRecord cutComm)) = .error .unicodeDecodeError := by
  have hrecord := observerRecord_taskRecord cutComm
  have hinvalid : ¬ ∀ bytes ∈ buffers (taskRecord cutComm), ValidBytes bytes := by
    show ¬ ∀ bytes ∈ [JsonWriter.cString cutComm 16], ValidBytes bytes
    decide
  have hnone := hrecord.decodes.invalid hinvalid []
  rw [List.append_nil] at hnone
  refine ⟨rfl, hrecord, fun hvalid => ?_, fun limits => ?_⟩
  · obtain ⟨units, hunits⟩ := Utf8.valid_iff_units.mp hvalid
    rw [hnone] at hunits
    cases hunits
  · unfold ndjsonFile
    rw [hnone]

end LinuxMaxxing.Framework
