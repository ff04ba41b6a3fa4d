import LinuxMaxxing.Lib.JsonLocality

/-!
# The Grammar of JSON Texts

The texts that spell a value, as a relation: a writer that is free to put whitespace between the
tokens shows that its text is one of them, and needs to know nothing of the parser.

- `Spells`, `SpellsElements`, `SpellsMembers`: the texts of a value, and of the inside of an array
  or an object up to its closing symbol;
- `parse_spells`: the parser reads such a text as this value;
- `spellsElements_join`, `spellsMembers_join`: texts that are joined by commas.
-/

namespace LinuxMaxxing.Lib.Json

/-! ## Texts of values -/

section

variable (dec : List StrItem → List Nat)

/-- A name with its colon and the whitespace around it. -/
inductive SpellsName : List Nat → List Nat → Prop
  | mk {k w w' : List Nat} {items : List StrItem} (hk : parseChars k = some (items, []))
      (hw : Blank w) (hw' : Blank w') : SpellsName (0x22 :: (k ++ (w ++ 0x3a :: w'))) (dec items)

mutual

/-- The text of a value, without whitespace around it. -/
inductive Spells : List Nat → Value → Prop
  | null : Spells [0x6e, 0x75, 0x6c, 0x6c] .null
  | true : Spells [0x74, 0x72, 0x75, 0x65] (.bool true)
  | false : Spells [0x66, 0x61, 0x6c, 0x73, 0x65] (.bool false)
  | num {s : List Nat} {n : Number} (h : parseNumber s = some (n, [])) : Spells s (.num n)
  | str {s : List Nat} {items : List StrItem} (h : parseChars s = some (items, [])) :
      Spells (0x22 :: s) (.str (dec items))
  | emptyArr {w : List Nat} (hw : Blank w) : Spells (0x5b :: (w ++ [0x5d])) (.arr [])
  | arr {w s : List Nat} {vs : List Value} (hw : Blank w) (hs : SpellsElements s vs) :
      Spells (0x5b :: (w ++ s)) (.arr vs)
  | emptyObj {w : List Nat} (hw : Blank w) : Spells (0x7b :: (w ++ [0x7d])) (.obj [])
  | obj {w s : List Nat} {ms : List (List Nat × Value)} (hw : Blank w) (hs : SpellsMembers s ms) :
      Spells (0x7b :: (w ++ s)) (.obj ms)

/-- The elements of a nonempty array and its closing bracket. -/
inductive SpellsElements : List Nat → List Value → Prop
  | last {s w : List Nat} {v : Value} (hv : Spells s v) (hw : Blank w) :
      SpellsElements (s ++ (w ++ [0x5d])) [v]
  | cons {s w w' t : List Nat} {v : Value} {vs : List Value} (hv : Spells s v) (hw : Blank w)
      (hw' : Blank w') (ht : SpellsElements t vs) :
      SpellsElements (s ++ (w ++ 0x2c :: (w' ++ t))) (v :: vs)

/-- The members of a nonempty object and its closing brace. -/
inductive SpellsMembers : List Nat → List (List Nat × Value) → Prop
  | last {k s w name : List Nat} {v : Value} (hk : SpellsName dec k name) (hv : Spells s v)
      (hw : Blank w) : SpellsMembers (k ++ (s ++ (w ++ [0x7d]))) [(name, v)]
  | cons {k s w w' t name : List Nat} {v : Value} {ms : List (List Nat × Value)}
      (hk : SpellsName dec k name) (hv : Spells s v) (hw : Blank w) (hw' : Blank w')
      (ht : SpellsMembers t ms) :
      SpellsMembers (k ++ (s ++ (w ++ 0x2c :: (w' ++ t)))) ((name, v) :: ms)

end

end

variable {dec : List StrItem → List Nat}

/-! ## Where such texts begin -/

theorem Blank.skipWs_append {w : List Nat} (hw : Blank w) (s : List Nat) :
    skipWs (w ++ s) = skipWs s := by
  unfold skipWs
  rw [List.dropWhile_append_of_pos hw]

/-- A text whose first symbol is neither whitespace nor a closing symbol. -/
def Opens (s : List Nat) : Prop := ∃ c r, s = c :: r ∧ isWs c = false ∧ c ≠ 0x5d ∧ c ≠ 0x7d

theorem Opens.skipWs_append {s : List Nat} (h : Opens s) (y : List Nat) :
    skipWs (s ++ y) = s ++ y := by
  obtain ⟨c, r, rfl, hws, -⟩ := h
  exact skipWs_of_not hws

theorem Opens.append {s : List Nat} (h : Opens s) (y : List Nat) : Opens (s ++ y) := by
  obtain ⟨c, r, rfl, hc⟩ := h
  exact ⟨c, r ++ y, rfl, hc⟩

theorem Opens.length_pos {s : List Nat} (h : Opens s) : 0 < s.length := by
  obtain ⟨c, r, rfl, -⟩ := h
  exact Nat.succ_pos _

theorem Opens.head?_ne {s : List Nat} (h : Opens s) {c : Nat} (hc : c = 0x5d ∨ c = 0x7d) :
    s.head? ≠ some c := by
  obtain ⟨d, r, rfl, -, hbracket, hbrace⟩ := h
  intro heq
  cases heq
  rcases hc with hc | hc
  · exact hbracket hc
  · exact hbrace hc

/-- A number starts with its sign or with a digit. -/
theorem head_of_parseNumber {s r : List Nat} {n : Number} (h : parseNumber s = some (n, r)) :
    ∃ c t, s = c :: t ∧ (c = 0x2d ∨ isDigit c = true) := by
  cases s with
  | nil => simp [parseNumber, parseUnsigned, parseInt] at h
  | cons c t =>
    refine ⟨c, t, rfl, ?_⟩
    by_cases hminus : c = 0x2d
    · exact .inl hminus
    · right
      -- without a sign the text starts with the integer part
      have hint : ∃ i, parseInt (c :: t) = some i := by
        unfold parseNumber at h
        split at h
        · next heq => exact absurd (List.cons.inj heq).1 hminus
        · obtain ⟨i, hi, -⟩ := Option.bind_eq_some_iff.mp h
          exact ⟨i, hi⟩
      obtain ⟨i, hi⟩ := hint
      by_contra hdigit
      unfold parseInt at hi
      split at hi
      · next heq =>
        apply hdigit
        rw [(List.cons.inj heq).1]
        rfl
      · next c' r' _ heq =>
        rw [← (List.cons.inj heq).1, if_neg hdigit] at hi
        cases hi
      · next heq => cases heq

theorem opens_of_number {c : Nat} {r : List Nat} (hc : c = 0x2d ∨ isDigit c = true) :
    Opens (c :: r) := by
  have hrange : c = 0x2d ∨ 0x30 ≤ c ∧ c ≤ 0x39 := by simpa [isDigit] using hc
  refine ⟨c, r, rfl, ?_, by omega, by omega⟩
  simp only [isWs, Bool.or_eq_false_iff, decide_eq_false_iff_not]
  omega

theorem Spells.opens {s : List Nat} {v : Value} (h : Spells dec s v) : Opens s := by
  cases h with
  | num h =>
    obtain ⟨c, t, rfl, hc⟩ := head_of_parseNumber h
    exact opens_of_number hc
  | _ => exact ⟨_, _, rfl, rfl, by decide, by decide⟩

theorem SpellsElements.opens {s : List Nat} {vs : List Value} (h : SpellsElements dec s vs) :
    Opens s := by
  cases h with
  | last hv hw => exact hv.opens.append _
  | cons hv hw hw' ht => exact hv.opens.append _

theorem SpellsName.opens {s name : List Nat} (h : SpellsName dec s name) : Opens s := by
  cases h with
  | mk hk hw hw' => exact ⟨_, _, rfl, rfl, by decide, by decide⟩

theorem SpellsMembers.opens {s : List Nat} {ms : List (List Nat × Value)}
    (h : SpellsMembers dec s ms) : Opens s := by
  cases h with
  | last hk hv hw => exact hk.opens.append _
  | cons hk hv hw hw' ht => exact hk.opens.append _

/-! ## The parser reads them -/

/-- A string that ends where its text ends is read in front of anything. -/
theorem parseChars_append {s : List Nat} {items : List StrItem}
    (h : parseChars s = some (items, [])) (y : List Nat) :
    parseChars (s ++ y) = some (items, y) := by
  obtain ⟨p, hs, -, hlocal⟩ := parseChars_local h
  rw [List.append_nil] at hs
  rw [hs]
  exact hlocal y

theorem parseName_spells {s name : List Nat} (h : SpellsName dec s name) {y : List Nat}
    (hy : Opens y) : parseName dec (s ++ y) = some (name, y) := by
  cases h with
  | @mk k w w' items hk hw hw' =>
    have hskip : skipWs (w' ++ y) = y := by
      rw [hw'.skipWs_append, ← List.append_nil y, hy.skipWs_append]
    have htext : 0x22 :: (k ++ (w ++ 0x3a :: w')) ++ y = 0x22 :: (k ++ (w ++ 0x3a :: (w' ++ y))) := by
      simp
    rw [htext, parseName, if_pos rfl, parseChars_append hk, Option.bind_some]
    simp only [hw.skipWs_append, skipWs_of_not (show isWs 0x3a = false from rfl), if_true, hskip]

/-- After a value comes whitespace and then a comma or a closing symbol. -/
theorem delimits_blank {w : List Nat} (hw : Blank w) {c : Nat}
    (hc : c = 0x2c ∨ c = 0x5d ∨ c = 0x7d) (y : List Nat) : Delimits (w ++ c :: y) := by
  cases w with
  | nil =>
    intro d hd
    cases hd
    rcases hc with rfl | rfl | rfl <;> decide
  | cons d w =>
    apply Delimits.of_ws
    intro e he
    cases he
    exact hw d List.mem_cons_self

/-- The value of the text, in front of anything that does not go on with it. -/
def Reads (dec : List StrItem → List Nat) (s : List Nat) (v : Value) : Prop :=
  ∀ fuel y, s.length ≤ fuel → Delimits y → parseValue dec fuel (s ++ y) = some (v, y)

theorem reads_number {s : List Nat} {n : Number} (h : parseNumber s = some (n, [])) :
    Reads dec s (.num n) := by
  intro fuel y hfuel hy
  obtain ⟨p, hs, -, hlocal⟩ := parseNumber_local h
  rw [List.append_nil] at hs
  subst hs
  obtain ⟨c, t, rfl, hc⟩ := head_of_parseNumber h
  have hrange : c = 0x2d ∨ 0x30 ≤ c ∧ c ≤ 0x39 := by simpa [isDigit] using hc
  obtain ⟨fuel, rfl⟩ : ∃ k, fuel = k + 1 := Nat.exists_eq_add_one.mpr (Nat.zero_lt_of_lt hfuel)
  have hnum := hlocal y hy
  rw [List.cons_append] at hnum ⊢
  rw [parseValue, if_neg (by omega), if_neg (by omega), if_neg (by omega), if_neg (by omega),
    if_neg (by omega), if_neg (by omega), hnum]
  rfl

mutual

/-- **The parser reads a text as the value that it spells**, with a bound of the text's length on
    the number of calls. By recursion on the derivation. -/
theorem parse_spells {s : List Nat} {v : Value} (h : Spells dec s v) : Reads dec s v := by
  intro fuel y hfuel hy
  obtain ⟨fuel, rfl⟩ : ∃ k, fuel = k + 1 :=
    Nat.exists_eq_add_one.mpr (Nat.lt_of_lt_of_le h.opens.length_pos hfuel)
  cases h with
  | null => simp [parseValue, List.dropPrefix?]
  | true => simp [parseValue, List.dropPrefix?]
  | false => simp [parseValue, List.dropPrefix?]
  | num h => exact reads_number h (fuel + 1) y hfuel hy
  | str h =>
    rw [List.cons_append, parseValue, if_pos rfl, parseChars_append h]
    rfl
  | emptyArr hw =>
    rw [List.cons_append, List.append_assoc, parseValue, if_neg (by decide), if_pos rfl,
      hw.skipWs_append]
    rfl
  | arr hw hs =>
    simp only [List.length_cons, List.length_append] at hfuel
    rw [List.cons_append, List.append_assoc, parseValue, if_neg (by decide), if_pos rfl,
      hw.skipWs_append, hs.opens.skipWs_append, if_neg ((hs.opens.append y).head?_ne (.inl rfl)),
      parse_spellsElements hs fuel y (by omega)]
    rfl
  | emptyObj hw =>
    rw [List.cons_append, List.append_assoc, parseValue, if_neg (by decide), if_neg (by decide),
      if_pos rfl, hw.skipWs_append]
    rfl
  | obj hw hs =>
    simp only [List.length_cons, List.length_append] at hfuel
    rw [List.cons_append, List.append_assoc, parseValue, if_neg (by decide), if_neg (by decide),
      if_pos rfl, hw.skipWs_append, hs.opens.skipWs_append,
      if_neg ((hs.opens.append y).head?_ne (.inr rfl)), parse_spellsMembers hs fuel y (by omega)]
    rfl

theorem parse_spellsElements {s : List Nat} {vs : List Value} (h : SpellsElements dec s vs)
    (fuel : Nat) (y : List Nat) (hfuel : s.length ≤ fuel) :
    parseElements dec fuel (s ++ y) = some (vs, y) := by
  obtain ⟨fuel, rfl⟩ : ∃ k, fuel = k + 1 :=
    Nat.exists_eq_add_one.mpr (Nat.lt_of_lt_of_le h.opens.length_pos hfuel)
  cases h with
  | last hv hw =>
    simp only [List.length_append, List.length_cons] at hfuel
    rw [List.append_assoc, List.append_assoc, parseElements]
    simp only [List.singleton_append]
    rw [parse_spells hv fuel _ (by omega) (delimits_blank hw (.inr (.inl rfl)) y),
      Option.bind_some]
    simp only [hw.skipWs_append, skipWs_of_not (show isWs 0x5d = false from rfl)]
    rfl
  | cons hv hw hw' ht =>
    simp only [List.length_append, List.length_cons] at hfuel
    rw [List.append_assoc, List.append_assoc, List.cons_append, List.append_assoc, parseElements,
      parse_spells hv fuel _ (by omega) (delimits_blank hw (.inl rfl) _), Option.bind_some]
    simp only [hw.skipWs_append, skipWs_of_not (show isWs 0x2c = false from rfl), if_true,
      hw'.skipWs_append, ht.opens.skipWs_append]
    rw [parse_spellsElements ht fuel y (by omega)]
    rfl

theorem parse_spellsMembers {s : List Nat} {ms : List (List Nat × Value)}
    (h : SpellsMembers dec s ms) (fuel : Nat) (y : List Nat) (hfuel : s.length ≤ fuel) :
    parseMembers dec fuel (s ++ y) = some (ms, y) := by
  obtain ⟨fuel, rfl⟩ : ∃ k, fuel = k + 1 :=
    Nat.exists_eq_add_one.mpr (Nat.lt_of_lt_of_le h.opens.length_pos hfuel)
  cases h with
  | last hk hv hw =>
    simp only [List.length_append, List.length_cons] at hfuel
    rw [List.append_assoc, List.append_assoc, List.append_assoc, parseMembers]
    simp only [List.singleton_append]
    rw [parseName_spells hk (hv.opens.append _), Option.bind_some,
      parse_spells hv fuel _ (by omega) (delimits_blank hw (.inr (.inr rfl)) y), Option.bind_some]
    simp only [hw.skipWs_append, skipWs_of_not (show isWs 0x7d = false from rfl)]
    rfl
  | cons hk hv hw hw' ht =>
    simp only [List.length_append, List.length_cons] at hfuel
    rw [List.append_assoc, List.append_assoc, List.append_assoc, List.cons_append,
      List.append_assoc, parseMembers, parseName_spells hk (hv.opens.append _), Option.bind_some,
      parse_spells hv fuel _ (by omega) (delimits_blank hw (.inl rfl) _), Option.bind_some]
    simp only [hw.skipWs_append, skipWs_of_not (show isWs 0x2c = false from rfl), if_true,
      hw'.skipWs_append, ht.opens.skipWs_append]
    rw [parse_spellsMembers ht fuel y (by omega)]
    rfl

end

/-- **A document** of the value: its text between whitespace. -/
theorem parseDocument_spells {s w w' : List Nat} {v : Value} (h : Spells dec s v) (hw : Blank w)
    (hw' : Blank w') : parseDocument dec (w ++ (s ++ w')) = some v := by
  have hlength : s.length ≤ (w ++ (s ++ w')).length + 1 := by
    simp only [List.length_append]
    omega
  unfold parseDocument
  rw [hw.skipWs_append, h.opens.skipWs_append,
    parse_spells h _ _ hlength (Delimits.of_ws hw'.starts)]
  exact if_pos (skipWs_eq_nil_iff.mpr hw')

/-! ## Texts joined by commas -/

/-- Whitespace and a comma between the texts of the elements. -/
theorem spellsElements_join {w w' : List Nat} (hw : Blank w) (hw' : Blank w') {t : List Nat}
    {v : Value} {ts : List (List Nat)} {vs : List Value} (hv : Spells dec t v)
    (hvs : List.Forall₂ (Spells dec) ts vs) :
    SpellsElements dec (List.intercalate (0x2c :: w) (t :: ts) ++ (w' ++ [0x5d])) (v :: vs) := by
  induction hvs generalizing t v with
  | nil => simpa [List.intercalate] using SpellsElements.last hv hw'
  | @cons t' v' ts vs hv' hvs ih =>
    have hcons := SpellsElements.cons hv (w := []) nofun hw (ih hv')
    have htext : List.intercalate (0x2c :: w) (t :: t' :: ts) ++ (w' ++ [0x5d]) =
        t ++ ([] ++ 0x2c :: (w ++
          (List.intercalate (0x2c :: w) (t' :: ts) ++ (w' ++ [0x5d])))) := by
      simp [List.intercalate]
    rw [htext]
    exact hcons

/-- A member's text: its name, its colon and its value. -/
def SpellsMember (dec : List StrItem → List Nat) (t : List Nat) (m : List Nat × Value) : Prop :=
  ∃ k s, t = k ++ s ∧ SpellsName dec k m.1 ∧ Spells dec s m.2

theorem spellsMembers_join {w w' : List Nat} (hw : Blank w) (hw' : Blank w') {t : List Nat}
    {m : List Nat × Value} {ts : List (List Nat)} {ms : List (List Nat × Value)}
    (hm : SpellsMember dec t m) (hms : List.Forall₂ (SpellsMember dec) ts ms) :
    SpellsMembers dec (List.intercalate (0x2c :: w) (t :: ts) ++ (w' ++ [0x7d])) (m :: ms) := by
  induction hms generalizing t m with
  | nil =>
    obtain ⟨k, s, rfl, hk, hs⟩ := hm
    simpa [List.intercalate] using SpellsMembers.last hk hs hw'
  | @cons t' m' ts ms hm' hms ih =>
    obtain ⟨k, s, rfl, hk, hs⟩ := hm
    have hcons := SpellsMembers.cons hk hs (w := []) nofun hw (ih hm')
    have htext : List.intercalate (0x2c :: w) ((k ++ s) :: t' :: ts) ++ (w' ++ [0x7d]) =
        k ++ (s ++ ([] ++ 0x2c :: (w ++
          (List.intercalate (0x2c :: w) (t' :: ts) ++ (w' ++ [0x7d]))))) := by
      simp [List.intercalate]
    rw [htext]
    exact hcons

end LinuxMaxxing.Lib.Json
