import Mathlib.Data.List.DropRight
import LinuxMaxxing.Lib.Regex
import LinuxMaxxing.Framework.Validate

/-!
# Fields of a Trace Record

`FIELDS` and `key_values` of `runtime.py`: the fields of a tracepoint, from the text that the
kernel printed of them. A text of the trace is the list of its code points.

- `keyValues`: the matches of `FIELDS`, and as values what stands between them;
- `joined`: `key=value` items with spaces or with commas and spaces between them;
- `keyValues_joined`: what `key_values` makes of such a text; an item after an empty value is lost
  in it where only spaces separate;
- `keyValues_joined_iff`: when this is the mapping that was printed.
-/

namespace LinuxMaxxing.Framework

open LinuxMaxxing.Lib

/-! ## `key_values` -/

/-- What leaves the decoding of a trace: `LabError` with its text, or the `ValueError` of an
    assignment to two names. -/
inductive TraceExn where
  | lab (message : Text)
  | valueError
  deriving DecidableEq, Repr

/-- `[A-Za-z_]` -/
def isIdentHead (c : Nat) : Bool :=
  (0x41 ≤ c && c ≤ 0x5a) || (0x61 ≤ c && c ≤ 0x7a) || c = 0x5f

/-- `[A-Za-z_0-9]` -/
def isIdentTail (c : Nat) : Bool := isIdentHead c || (0x30 ≤ c && c ≤ 0x39)

/-- `([A-Za-z_][A-Za-z_0-9]*)[=:]\s*` -/
def fieldKey : Regex Nat Nat :=
  .seq (.group 1 (.seq (.symbol isIdentHead) (.many isIdentTail)))
    (.seq (.symbol fun c => c = 0x3d || c = 0x3a) (.many isPySpace))

/-- `FIELDS`: `(?:^|\s|,)` and a key -/
def fieldsPattern : Regex Nat Nat :=
  .seq (.alt Regex.atStart (.alt (.symbol isPySpace) (.symbol fun c => c = 0x2c))) fieldKey

/-- The group of a match; `None` if it took no part in it. -/
def groupOf {κ : Type} [DecidableEq κ] (found : Regex.Cursor κ Nat) (key : κ) : Option Text :=
  found.groups.lookup key

/-- `strip(" ,")` -/
def stripCommas (s : Text) : Text :=
  (s.dropWhile fun c => c = 0x20 || c = 0x2c).rdropWhile fun c => c = 0x20 || c = 0x2c

/-- `payload[start:stop]` -/
def slice (s : Text) (start stop : Nat) : Text := (s.take stop).drop start

/-- The loop of `key_values` over the matches that are left. -/
def keyValueLoop (payload : Text) :
    List (Nat × Regex.Cursor Nat Nat) → List (Text × Text) → Except TraceExn (List (Text × Text))
  | [], fields => .ok fields
  | field :: rest, fields =>
    let key := (groupOf field.2 1).getD []
    if key ∈ fields.map Prod.fst then .error (.lab (text "duplicate trace field: " ++ key))
    else
      let stop := match rest with
        | [] => payload.length
        | next :: _ => next.1
      keyValueLoop payload rest
        (fields ++ [(key, stripCommas (slice payload field.2.pos stop))])

/-- `key_values` -/
def keyValues (payload : Text) : Except TraceExn (List (Text × Text)) :=
  match fieldsPattern.finditer 0 0 payload with
  | [] => .error (.lab (text "unrecognized trace fields: " ++ payload.take 160))
  | first :: rest =>
    if (payload.take first.1).all isPySpace then keyValueLoop payload (first :: rest) []
    else .error (.lab (text "unrecognized trace fields: " ++ payload.take 160))

/-! ## Printed fields -/

/-- The separator between items: a comma and a space, or a space alone. -/
def separatorText (comma : Bool) : Text := if comma then [0x2c, 0x20] else [0x20]

/-- `key=value` -/
def item (field : Text × Text) : Text := field.1 ++ 0x3d :: field.2

/-- The items after the first, each with its separator. -/
def moreItems (comma : Bool) (fields : List (Text × Text)) : Text :=
  fields.flatMap fun field => separatorText comma ++ item field

/-- The items with separators between them. -/
def joined (comma : Bool) : List (Text × Text) → Text
  | [] => []
  | field :: fields => item field ++ moreItems comma fields

/-- An identifier. -/
def isIdentifier : Text → Bool
  | [] => false
  | c :: cs => isIdentHead c && cs.all isIdentTail

/-- A value without whitespace, comma, equals sign and colon. -/
def isPlainValue (value : Text) : Bool :=
  value.all fun c => !isPySpace c && c ≠ 0x2c && c ≠ 0x3d && c ≠ 0x3a

/-- What is found of fields that were printed with spaces between them: after an empty value the
    separator belongs to the match, and the next item to the value. -/
def absorbed : List (Text × Text) → List (Text × Text)
  | (key, []) :: next :: fields => (key, item next) :: absorbed fields
  | (key, value) :: fields => (key, value) :: absorbed fields
  | [] => []

/-- What is found of printed fields. -/
def found (comma : Bool) (fields : List (Text × Text)) : List (Text × Text) :=
  if comma then fields else absorbed fields

/-! ## Where `FIELDS` matches -/

section Matches

variable {key s : Text} {n : Nat}

theorem identTail_ne {c : Nat} (h : isIdentTail c = true) : c ≠ 0x3d ∧ c ≠ 0x3a := by
  simp only [isIdentTail, isIdentHead, Bool.or_eq_true, Bool.and_eq_true, decide_eq_true_eq] at h
  omega

/-- The symbols of a key or a plain value separate nothing. -/
def isOpen (c : Nat) : Bool := !isPySpace c && c ≠ 0x2c

theorem isOpen_of_identTail {c : Nat} (h : isIdentTail c = true) : isOpen c = true := by
  simp only [isIdentTail, isIdentHead, Bool.or_eq_true, Bool.and_eq_true, decide_eq_true_eq] at h
  simp only [isOpen, isPySpace, Bool.and_eq_true, Bool.not_eq_true', Bool.or_eq_false_iff,
    Bool.and_eq_false_iff, decide_eq_false_iff_not, decide_eq_true_eq]
  omega

/-- The key itself, in front of its equals sign. -/
theorem search_fieldKey (hkey : isIdentifier key = true) :
    Regex.search fieldKey some ⟨n, key ++ 0x3d :: s, []⟩ =
      some ⟨n + key.length + 1 + (s.takeWhile isPySpace).length, s.dropWhile isPySpace,
        [(1, key)]⟩ := by
  cases key with
  | nil => cases hkey
  | cons c cs =>
    rw [isIdentifier, Bool.and_eq_true, List.all_eq_true] at hkey
    -- the key ends at the equals sign, which no key can hold
    have hrun : ∀ k : Regex.Cursor Nat Nat → Option (Regex.Cursor Nat Nat),
        (∀ n d r, isIdentTail d = true → k ⟨n, d :: r, []⟩ = none) →
        Regex.search (.many isIdentTail) k ⟨n + 1, cs ++ 0x3d :: s, []⟩ =
          k ⟨n + 1 + cs.length, 0x3d :: s, []⟩ :=
      fun k hk => Regex.search_many_run hk hkey.2 (Regex.stops_cons rfl)
    have htake : (c :: (cs ++ 0x3d :: s)).take (n + 1 + cs.length - n) = c :: cs := by
      rw [show n + 1 + cs.length - n = cs.length + 1 by omega, List.take_succ_cons, List.take_left]
    unfold fieldKey
    rw [Regex.search_seq, List.cons_append, Regex.search_group, Regex.search_seq,
      Regex.search_symbol_cons, if_pos hkey.1, hrun]
    · simp only [Regex.search_seq, Regex.search_symbol_cons, htake]
      -- behind the equals sign all whitespace is taken, whatever it separates
      rw [if_pos (by decide)]
      apply Regex.search_many_of_some
      congr 2
      simp only [List.length_cons]
      omega
    · intro m d r hd
      obtain ⟨heq, hcolon⟩ := identTail_ne hd
      simp [heq, hcolon]

/-- The first field. -/
theorem matchAt_first (hkey : isIdentifier key = true) :
    Regex.matchAt fieldsPattern 0 (key ++ 0x3d :: s) =
      some ⟨key.length + 1 + (s.takeWhile isPySpace).length, s.dropWhile isPySpace, [(1, key)]⟩ := by
  unfold Regex.matchAt fieldsPattern
  rw [Regex.search_seq, Regex.search_alt, Regex.search_atStart, if_pos rfl, search_fieldKey hkey,
    Option.some_or, Nat.zero_add]

theorem search_fieldKey_none {c : Nat} (h : isIdentHead c = false) :
    Regex.search fieldKey (some : Regex.Cursor Nat Nat → _) ⟨n, c :: s, []⟩ = none := by
  unfold fieldKey
  rw [Regex.search_seq, Regex.search_group, Regex.search_seq, Regex.search_symbol_cons, h]
  rfl

/-- A field after a space. -/
theorem matchAt_space (hn : n ≠ 0) (hkey : isIdentifier key = true) :
    Regex.matchAt fieldsPattern n (0x20 :: (key ++ 0x3d :: s)) =
      some ⟨n + 1 + key.length + 1 + (s.takeWhile isPySpace).length, s.dropWhile isPySpace,
        [(1, key)]⟩ := by
  unfold Regex.matchAt fieldsPattern
  rw [Regex.search_seq, Regex.search_alt, Regex.search_atStart, if_neg hn, Option.none_or,
    Regex.search_alt, Regex.search_symbol_cons, if_pos (by decide), search_fieldKey hkey,
    Option.some_or]

/-- A comma in front of a space starts no field. -/
theorem matchAt_comma (hn : n ≠ 0) : Regex.matchAt fieldsPattern n (0x2c :: 0x20 :: s) = none := by
  unfold Regex.matchAt fieldsPattern
  rw [Regex.search_seq, Regex.search_alt, Regex.search_atStart, if_neg hn, Option.none_or,
    Regex.search_alt, Regex.search_symbol_cons, if_neg (by decide), Option.none_or,
    Regex.search_symbol_cons, if_pos (by decide), search_fieldKey_none rfl]

/-- No field starts with a symbol that separates nothing. -/
theorem matchAt_open (hn : n ≠ 0) {c : Nat} (hc : isOpen c = true) :
    Regex.matchAt fieldsPattern n (c :: s) = none := by
  simp only [isOpen, Bool.and_eq_true, Bool.not_eq_true', decide_eq_true_eq] at hc
  unfold Regex.matchAt fieldsPattern
  rw [Regex.search_seq, Regex.search_alt, Regex.search_atStart, if_neg hn, Option.none_or,
    Regex.search_alt, Regex.search_symbol_cons, if_neg (by simp [hc.1]), Option.none_or,
    Regex.search_symbol_cons, if_neg (by simpa using hc.2)]

theorem finditer_open {v t : Text} (hn : n ≠ 0) (hv : ∀ c ∈ v, isOpen c = true) :
    fieldsPattern.finditer 0 n (v ++ t) = fieldsPattern.finditer 0 (n + v.length) t := by
  apply Regex.finditer_pass
  intro a b hab hb
  cases b with
  | nil => exact absurd rfl hb
  | cons c b =>
    apply matchAt_open (by omega)
    apply hv c
    rw [hab]
    simp

end Matches

/-! ## What is found -/

section Found

/-- A printed field: an identifier and a plain value. -/
def isField (field : Text × Text) : Bool := isIdentifier field.1 && isPlainValue field.2

theorem isOpen_of_mem_identifier {key : Text} (h : isIdentifier key = true) :
    ∀ c ∈ key, isOpen c = true := by
  cases key with
  | nil => cases h
  | cons d ds =>
    rw [isIdentifier, Bool.and_eq_true, List.all_eq_true] at h
    refine List.forall_mem_cons.mpr ⟨isOpen_of_identTail ?_, fun c hc => isOpen_of_identTail (h.2 c hc)⟩
    rw [isIdentTail, h.1, Bool.true_or]

theorem isOpen_of_mem_value {value : Text} (h : isPlainValue value = true) :
    ∀ c ∈ value, isOpen c = true := by
  intro c hc
  have hplain := List.all_eq_true.mp h c hc
  simp only [Bool.and_eq_true] at hplain
  rw [isOpen, Bool.and_eq_true]
  exact hplain.1.1

theorem isOpen_of_mem_item {field : Text × Text} (h : isField field = true) :
    ∀ c ∈ item field, isOpen c = true := by
  rw [isField, Bool.and_eq_true] at h
  intro c hc
  rcases List.mem_append.mp hc with hc | hc
  · exact isOpen_of_mem_identifier h.1 c hc
  · rcases List.mem_cons.mp hc with rfl | hc
    · rfl
    · exact isOpen_of_mem_value h.2 c hc

/-- What separates before the space. -/
def comma? (comma : Bool) : Text := if comma then [0x2c] else []

theorem separatorText_eq (comma : Bool) : separatorText comma = comma? comma ++ [0x20] := by
  cases comma <;> rfl

theorem finditer_comma? (comma : Bool) {n : Nat} (hn : n ≠ 0) (t : Text) :
    fieldsPattern.finditer 0 n (comma? comma ++ 0x20 :: t) =
      fieldsPattern.finditer 0 (n + (comma? comma).length) (0x20 :: t) := by
  cases comma with
  | false => rfl
  | true =>
    rw [comma?, if_pos rfl]
    apply Regex.finditer_pass
    intro a b hab hb
    cases a with
    | nil =>
      rw [List.nil_append] at hab
      rw [← hab]
      exact matchAt_comma (by omega)
    | cons c a =>
      have hlen := congrArg List.length hab
      have hb' := List.length_pos_of_ne_nil hb
      simp only [List.length_cons, List.length_append, List.length_nil] at hlen
      omega

theorem stripCommas_open {v : Text} (hv : ∀ c ∈ v, isOpen c = true) (comma : Bool) :
    stripCommas (v ++ comma? comma) = v := by
  have hclosed : ∀ c ∈ v, (c = 0x20 || c = 0x2c : Bool) = false := by
    intro c hc
    have hopen := hv c hc
    simp only [isOpen, Bool.and_eq_true, Bool.not_eq_true', decide_eq_true_eq] at hopen
    simp only [Bool.or_eq_false_iff, decide_eq_false_iff_not]
    refine ⟨?_, hopen.2⟩
    rintro rfl
    exact absurd hopen.1 (by decide)
  unfold stripCommas
  cases v with
  | nil => cases comma <;> rfl
  | cons c v =>
    have hhead := hclosed c List.mem_cons_self
    have hlast := hclosed ((c :: v).getLast (List.cons_ne_nil _ _)) (List.getLast_mem _)
    rw [List.cons_append, List.dropWhile_cons_of_neg (by simp [hhead]), ← List.cons_append]
    have hkeep : (c :: v).rdropWhile (fun c => c = 0x20 || c = 0x2c) = c :: v :=
      List.rdropWhile_eq_self_iff.mpr fun _ => by simp [hlast]
    cases comma with
    | false => rw [comma?, if_neg (by decide), List.append_nil, hkeep]
    | true => rw [comma?, if_pos rfl, List.rdropWhile_concat_pos _ _ _ (by decide), hkeep]

theorem slice_append (a b c : Text) :
    slice (a ++ (b ++ c)) a.length (a.length + b.length) = b := by
  unfold slice
  rw [← List.append_assoc, ← List.length_append, List.take_left, List.drop_left]

/-- **One field more**: the match at the next item, whatever whitespace it takes along. -/
theorem finditer_item {comma : Bool} {field : Text × Text} (hfield : isField field = true) {n : Nat}
    (hn : n ≠ 0) {v blanks rest t : Text} (hv : ∀ c ∈ v, isOpen c = true)
    (hrest : field.2 ++ t = blanks ++ rest) (hblanks : ∀ c ∈ blanks, isPySpace c = true)
    (hstops : Regex.Stops isPySpace rest) :
    fieldsPattern.finditer 0 n (v ++ (separatorText comma ++ item field ++ t)) =
      (n + (v ++ comma? comma).length,
        ⟨n + (v ++ comma? comma ++ 0x20 :: (field.1 ++ 0x3d :: blanks)).length, rest,
          [(1, field.1)]⟩) ::
        fieldsPattern.finditer 0
          (n + (v ++ comma? comma ++ 0x20 :: (field.1 ++ 0x3d :: blanks)).length) rest := by
  rw [isField, Bool.and_eq_true] at hfield
  have htext : separatorText comma ++ item field ++ t =
      comma? comma ++ 0x20 :: (field.1 ++ 0x3d :: (blanks ++ rest)) := by
    rw [← hrest]
    simp [separatorText_eq, item]
  have htext' : (0x20 :: (field.1 ++ 0x3d :: (blanks ++ rest)) : Text) =
      0x20 :: (field.1 ++ 0x3d :: blanks) ++ rest := by simp
  have hstart : n + v.length + (comma? comma).length = n + (v ++ comma? comma).length := by
    rw [List.length_append]
    omega
  have hstop : n + (v ++ comma? comma).length + (0x20 :: (field.1 ++ 0x3d :: blanks)).length =
      n + (v ++ comma? comma ++ 0x20 :: (field.1 ++ 0x3d :: blanks)).length := by
    simp only [List.length_append, List.length_cons]
    omega
  have hmatch : Regex.matchAt fieldsPattern (n + (v ++ comma? comma).length)
      (0x20 :: (field.1 ++ 0x3d :: blanks) ++ rest) =
      some ⟨n + (v ++ comma? comma ++ 0x20 :: (field.1 ++ 0x3d :: blanks)).length, rest,
        [(1, field.1)]⟩ := by
    rw [← htext', matchAt_space (by omega) hfield.1, (Regex.takeWhile_run hblanks hstops).1,
      (Regex.takeWhile_run hblanks hstops).2, ← hstop]
    simp only [List.length_cons, List.length_append]
    congr 2
    omega
  rw [htext, finditer_open hn hv, finditer_comma? comma (by omega), htext', hstart,
    Regex.finditer_match (List.cons_ne_nil _ _) hmatch hstop.symm, hstop]

/-- Where the value of the next field ends up: it is found as it was printed, or it is empty and
    the item after it is taken for it. -/
theorem exists_found (comma : Bool) {next : Text × Text} {fields : List (Text × Text)}
    (hnext : isField next = true) (hfields : ∀ field ∈ fields, isField field = true) :
    ∃ blanks v later, next.2 ++ moreItems comma fields = blanks ++ (v ++ moreItems comma later) ∧
      (∀ c ∈ blanks, isPySpace c = true) ∧ Regex.Stops isPySpace (v ++ moreItems comma later) ∧
      (∀ c ∈ v, isOpen c = true) ∧ later <:+ fields ∧
      found comma (next :: fields) = (next.1, v) :: found comma later := by
  obtain ⟨key, value⟩ := next
  have hvalue := isOpen_of_mem_value (Bool.and_eq_true_iff.mp hnext).2
  cases value with
  | cons c value =>
    -- a value that is not empty stops the whitespace at once
    have hc := hvalue c List.mem_cons_self
    rw [isOpen, Bool.and_eq_true, Bool.not_eq_true'] at hc
    refine ⟨[], c :: value, fields, rfl, List.forall_mem_nil _, Regex.stops_cons hc.1, hvalue,
      List.suffix_rfl, ?_⟩
    cases comma <;> rfl
  | nil =>
    cases fields with
    | nil =>
      refine ⟨[], [], [], rfl, List.forall_mem_nil _, Regex.stops_nil, List.forall_mem_nil _,
        List.suffix_rfl, ?_⟩
      cases comma <;> rfl
    | cons field fields =>
      rw [List.forall_mem_cons] at hfields
      cases comma with
      | true =>
        -- the comma stops it
        exact ⟨[], [], field :: fields, rfl, List.forall_mem_nil _, Regex.stops_cons rfl,
          List.forall_mem_nil _, List.suffix_rfl, rfl⟩
      | false =>
        -- the space is taken, and the next item is all that is left of the value
        have hitem := isOpen_of_mem_item hfields.1
        refine ⟨[0x20], item field, fields, ?_, by simp [isPySpace], ?_, hitem,
          List.suffix_cons _ _, rfl⟩
        · simp [moreItems, separatorText]
        · obtain ⟨c, s, hcons⟩ : ∃ c s, item field = c :: s :=
            List.exists_cons_of_ne_nil (by simp [item])
          have hc := hitem c (by rw [hcons]; exact List.mem_cons_self)
          rw [isOpen, Bool.and_eq_true, Bool.not_eq_true'] at hc
          rw [hcons]
          exact Regex.stops_cons hc.1

/-- **The loop finds the fields that are left**, from a match whose value starts behind `before`.
    By induction on the number of items, since one match can take two of them. -/
theorem keyValueLoop_more (comma : Bool) {fields done : List (Text × Text)} {before v key rest : Text}
    {start : Nat} (hfields : ∀ field ∈ fields, isField field = true) (hbefore : before ≠ [])
    (hv : ∀ c ∈ v, isOpen c = true)
    (hnodup : (done.map Prod.fst ++ key :: fields.map Prod.fst).Nodup) :
    keyValueLoop (before ++ (v ++ moreItems comma fields))
      ((start, ⟨before.length, rest, [(1, key)]⟩) ::
        fieldsPattern.finditer 0 before.length (v ++ moreItems comma fields)) done =
      .ok (done ++ (key, v) :: found comma fields) := by
  induction hlen : fields.length using Nat.strong_induction_on
    generalizing fields done before v key rest start with
  | _ len ih =>
    have hpos : before.length ≠ 0 := fun h => hbefore (List.length_eq_zero_iff.mp h)
    have hkey : key ∉ done.map Prod.fst := fun hmem =>
      (List.nodup_append.mp hnodup).2.2 key hmem key List.mem_cons_self rfl
    cases fields with
    | nil =>
      -- no item is left: the value goes up to the end
      have hnone : fieldsPattern.finditer 0 before.length (v ++ moreItems comma []) = [] := by
        rw [finditer_open hpos hv]
        rfl
      have hvalue := stripCommas_open hv false
      rw [comma?, if_neg (by decide), List.append_nil] at hvalue
      have hslice := slice_append before v []
      rw [hnone, keyValueLoop]
      simp only [groupOf, List.lookup_cons, beq_self_eq_true, Option.getD_some, if_neg hkey,
        moreItems, List.flatMap_nil, List.append_nil, List.length_append] at hslice ⊢
      rw [hslice, hvalue, keyValueLoop]
      cases comma <;> rfl
    | cons next fields =>
      rw [List.forall_mem_cons] at hfields
      obtain ⟨blanks, v', later, hrest, hblanks, hstops, hv', hsuffix, hfound⟩ :=
        exists_found comma hfields.1 hfields.2
      have hmore : moreItems comma (next :: fields) =
          separatorText comma ++ item next ++ moreItems comma fields := by simp [moreItems]
      have htext : before ++ (v ++ (separatorText comma ++ item next ++ moreItems comma fields)) =
          before ++ (v ++ comma? comma ++ 0x20 :: (next.1 ++ 0x3d :: blanks)) ++
            (v' ++ moreItems comma later) := by
        have hitem : item next ++ moreItems comma fields =
            next.1 ++ 0x3d :: (blanks ++ (v' ++ moreItems comma later)) := by
          rw [← hrest, item, List.append_assoc, List.cons_append]
        rw [List.append_assoc (separatorText comma), hitem]
        simp [separatorText_eq]
      have hslice := slice_append before (v ++ comma? comma)
        (0x20 :: (next.1 ++ 0x3d :: blanks) ++ (v' ++ moreItems comma later))
      have hpayload : before ++ (v ++ comma? comma ++ 0x20 :: (next.1 ++ 0x3d :: blanks)) ++
          (v' ++ moreItems comma later) = before ++ (v ++ comma? comma ++
            (0x20 :: (next.1 ++ 0x3d :: blanks) ++ (v' ++ moreItems comma later))) := by simp
      rw [hmore, finditer_item hfields.1 hpos hv hrest hblanks hstops, htext, keyValueLoop]
      simp only [groupOf, List.lookup_cons, beq_self_eq_true, Option.getD_some, if_neg hkey]
      have hlength : before.length + (v ++ comma? comma ++ 0x20 :: (next.1 ++ 0x3d :: blanks)).length =
          (before ++ (v ++ comma? comma ++ 0x20 :: (next.1 ++ 0x3d :: blanks))).length :=
        List.length_append.symm
      -- the keys that are left are among those that were to come
      have hkeys : ((done ++ [(key, v)]).map Prod.fst ++ next.1 :: later.map Prod.fst).Nodup := by
        have hsub : (later.map Prod.fst).Sublist (fields.map Prod.fst) := hsuffix.sublist.map _
        refine List.Nodup.sublist ?_ hnodup
        rw [List.map_append, List.append_assoc]
        exact ((hsub.cons_cons next.1).cons_cons key).append_left _
      have hshorter : later.length < len := by
        have hle := hsuffix.length_le
        rw [← hlen, List.length_cons]
        omega
      rw [hpayload, hslice, stripCommas_open hv, ← hpayload, hlength,
        ih later.length hshorter (fun field hf => hfields.2 field (hsuffix.subset hf))
          (List.append_ne_nil_of_left_ne_nil hbefore _) hv' hkeys rfl, hfound]
      simp

end Found

/-! ## When the fields are the printed ones -/

/-- **What `key_values` makes of printed fields.** -/
theorem keyValues_joined (comma : Bool) {fields : List (Text × Text)} (hne : fields ≠ [])
    (hfields : ∀ field ∈ fields, isField field = true) (hnodup : (fields.map Prod.fst).Nodup) :
    keyValues (joined comma fields) = .ok (found comma fields) := by
  cases fields with
  | nil => exact absurd rfl hne
  | cons first fields =>
    rw [List.forall_mem_cons] at hfields
    obtain ⟨blanks, v, later, hrest, hblanks, hstops, hv, hsuffix, hfound⟩ :=
      exists_found comma hfields.1 hfields.2
    have htext : joined comma (first :: fields) =
        first.1 ++ 0x3d :: blanks ++ (v ++ moreItems comma later) := by
      rw [joined, item, List.append_assoc, List.cons_append, hrest]
      simp
    have hmatch : Regex.matchAt fieldsPattern 0
        (first.1 ++ 0x3d :: blanks ++ (v ++ moreItems comma later)) =
        some ⟨(first.1 ++ 0x3d :: blanks).length, v ++ moreItems comma later, [(1, first.1)]⟩ := by
      rw [List.append_assoc, List.cons_append, matchAt_first (Bool.and_eq_true_iff.mp hfields.1).1,
        (Regex.takeWhile_run hblanks hstops).1, (Regex.takeWhile_run hblanks hstops).2]
      simp only [List.length_append, List.length_cons]
      congr 2
      omega
    have hfind := Regex.finditer_match (List.append_ne_nil_of_right_ne_nil _
      (List.cons_ne_nil _ _)) hmatch (Nat.zero_add _).symm
    have hkeys : (([] : List (Text × Text)).map Prod.fst ++
        first.1 :: later.map Prod.fst).Nodup := by
      have hsub : (later.map Prod.fst).Sublist (fields.map Prod.fst) := hsuffix.sublist.map _
      exact hnodup.sublist (hsub.cons_cons first.1)
    rw [Nat.zero_add] at hfind
    unfold keyValues
    rw [htext, hfind]
    simp only [List.take_zero, List.all_nil, if_true]
    rw [keyValueLoop_more comma (fun field hf => hfields.2 field (hsuffix.subset hf))
      (List.append_ne_nil_of_right_ne_nil _ (List.cons_ne_nil _ _)) hv hkeys, hfound]
    rfl

/-- Items are lost exactly after empty values. -/
theorem absorbed_length_iff (fields : List (Text × Text)) :
    (absorbed fields).length ≤ fields.length ∧
      ((absorbed fields).length = fields.length →
        absorbed fields = fields ∧ ∀ field ∈ fields.dropLast, field.2 ≠ []) := by
  induction fields using absorbed.induct with
  | case1 key next fields ih =>
    rw [absorbed, List.length_cons, List.length_cons, List.length_cons]
    refine ⟨by omega, fun h => ?_⟩
    have := ih.1
    omega
  | case2 key value fields hvalue ih =>
    rw [absorbed]
    · rw [List.length_cons, List.length_cons]
      refine ⟨by omega, fun h => ?_⟩
      obtain ⟨hsame, hempty⟩ := ih.2 (by omega)
      refine ⟨by rw [hsame], ?_⟩
      cases fields with
      | nil => simp
      | cons next fields =>
        rw [List.dropLast_cons_of_ne_nil (List.cons_ne_nil _ _)]
        refine List.forall_mem_cons.mpr ⟨fun hnil => hvalue next fields rfl hnil, hempty⟩
    · exact hvalue
  | case3 => simp [absorbed]

theorem absorbed_of_ne_nil {fields : List (Text × Text)}
    (h : ∀ field ∈ fields.dropLast, field.2 ≠ []) : absorbed fields = fields := by
  induction fields using absorbed.induct with
  | case1 key next fields ih =>
    rw [List.dropLast_cons_of_ne_nil (List.cons_ne_nil _ _)] at h
    exact absurd rfl (h _ List.mem_cons_self)
  | case2 key value fields hvalue ih =>
    rw [absorbed]
    · rw [ih]
      intro field hfield
      apply h
      cases fields with
      | nil => cases hfield
      | cons next fields =>
        rw [List.dropLast_cons_of_ne_nil (List.cons_ne_nil _ _)]
        exact List.mem_cons_of_mem _ hfield
    · exact hvalue
  | case3 => rfl

/-- **When `key_values` returns the printed mapping**: always where commas separate; where spaces
    alone separate, exactly if no value but the last is empty. -/
theorem keyValues_joined_iff (comma : Bool) (fields : List (Text × Text)) (hne : fields ≠ [])
    (hfields : ∀ field ∈ fields, isIdentifier field.1 = true ∧ isPlainValue field.2 = true)
    (hnodup : (fields.map Prod.fst).Nodup) :
    (∃ mapping, keyValues (joined comma fields) = .ok mapping ∧ mapping.Perm fields) ↔
      comma = true ∨ ∀ field ∈ fields.dropLast, field.2 ≠ [] := by
  have hfound := keyValues_joined comma hne
    (fun field hf => Bool.and_eq_true_iff.mpr (hfields field hf)) hnodup
  rw [hfound]
  cases comma with
  | true =>
    refine ⟨fun _ => .inl rfl, fun _ => ⟨fields, rfl, List.Perm.refl _⟩⟩
  | false =>
    constructor
    · rintro ⟨mapping, hmapping, hperm⟩
      obtain rfl : absorbed fields = mapping := Except.ok.inj hmapping
      exact .inr ((absorbed_length_iff fields).2 hperm.length_eq).2
    · rintro (h | h)
      · cases h
      · exact ⟨absorbed fields, rfl, by rw [absorbed_of_ne_nil h]⟩

/-- Two fields, of which only the last is empty. -/
theorem keyValues_joined_iff_last :
    ∃ mapping, keyValues (joined false [(text "ret", text "0"), (text "flags", [])]) = .ok mapping ∧
      mapping.Perm [(text "ret", text "0"), (text "flags", [])] :=
  (keyValues_joined_iff false [(text "ret", text "0"), (text "flags", [])] (List.cons_ne_nil _ _)
    (by decide) (by decide)).mpr (.inr (by decide))

/-- With an empty value in front of another field, that field is the value. -/
theorem keyValues_empty_absorbs :
    (∀ field ∈ [(text "flags", []), (text "ret", text "0")],
      isIdentifier field.1 = true ∧ isPlainValue field.2 = true) ∧
    keyValues (joined false [(text "flags", []), (text "ret", text "0")]) =
      .ok [(text "flags", text "ret=0")] ∧
    ¬ ∃ mapping, keyValues (joined false [(text "flags", []), (text "ret", text "0")]) =
        .ok mapping ∧
      mapping.Perm [(text "flags", []), (text "ret", text "0")] := by
  have hfound : keyValues (joined false [(text "flags", []), (text "ret", text "0")]) =
      .ok [(text "flags", text "ret=0")] :=
    keyValues_joined false (List.cons_ne_nil _ _) (by decide) (by decide)
  refine ⟨by decide, hfound, ?_⟩
  rintro ⟨mapping, hmapping, hperm⟩
  rw [hfound] at hmapping
  obtain rfl := Except.ok.inj hmapping
  exact absurd hperm.length_eq (by decide)

end LinuxMaxxing.Framework
