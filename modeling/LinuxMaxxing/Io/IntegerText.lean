import Mathlib.Data.Nat.Digits.Defs
import LinuxMaxxing.Io.Edu

/-!
# The Integers That `kstrtou32` Reads

`kstrtou32` with base 0 against the texts it is documented for: an optional plus sign, a number
whose prefix says its base, and an optional newline, below 2 ^ 32.

- `NumberText`, `IntegerText`: the texts and the numbers they write;
- `parseInteger_digits`, `parseInteger_split`: `_parse_integer` takes the longest run of digits;
- `kstrtou32_eq_some_iff`: `kstrtou32` accepts exactly these texts.
-/

namespace LinuxMaxxing.Io

/-! ## The texts -/

/-- Digits of a base, at least one, most significant first. -/
def DigitsText (base : Nat) (text : List UInt8) (value : Nat) : Prop :=
  ∃ digits : List Nat, digits ≠ [] ∧ text.map digitValue = digits.map some ∧
    (∀ d ∈ digits, d < base) ∧ value = Nat.ofDigits base digits.reverse

/-- A number in base 16, 8 or 10, as its prefix says. -/
inductive NumberText : List UInt8 → Nat → Prop where
  | hexadecimal {x : UInt8} {digits : List UInt8} {value : Nat} (hx : x = 120 ∨ x = 88)
      (h : DigitsText 16 digits value) : NumberText (48 :: x :: digits) value
  | octal {digits : List UInt8} {value : Nat} (h : DigitsText 8 (48 :: digits) value) :
      NumberText (48 :: digits) value
  | decimal {c : UInt8} {digits : List UInt8} {value : Nat} (hc : c ≠ 48)
      (h : DigitsText 10 (c :: digits) value) : NumberText (c :: digits) value

/-- An unsigned 32-bit integer, perhaps with a plus sign before it and a newline after it. -/
def IntegerText (text : List UInt8) (value : Nat) : Prop :=
  ∃ sign number newline, text = sign ++ number ++ newline ∧ (sign = [] ∨ sign = [43]) ∧
    (newline = [] ∨ newline = [10]) ∧ NumberText number value ∧ value < 2 ^ 32

/-! ## `_parse_integer` -/

/-- The next symbol is no digit of the base. -/
def Stops (base : Nat) (rest : List UInt8) : Prop :=
  ∀ c ∈ rest.head?, ∀ d ∈ digitValue c, base ≤ d

theorem stops_newline (base : Nat) {rest : List UInt8} (h : rest = [] ∨ rest = [10]) :
    Stops base rest := by
  rcases h with rfl | rfl
  · exact fun c hc => nomatch hc
  · intro c hc d hd
    obtain rfl := Option.some.inj hc
    cases hd

theorem parseInteger_stops {base : Nat} {rest : List UInt8} (h : Stops base rest)
    (value digits : Nat) : parseInteger base rest value digits = (value, digits, rest) := by
  cases rest with
  | nil => rfl
  | cons c rest =>
    unfold parseInteger
    cases hd : digitValue c with
    | none => rfl
    | some d => exact if_pos (h c rfl d hd)

/-- **A run of digits** is read whole. -/
theorem parseInteger_digits {base : Nat} {run : List UInt8} {digits : List Nat}
    (hrun : run.map digitValue = digits.map some) (hlt : ∀ d ∈ digits, d < base)
    {rest : List UInt8} (hrest : Stops base rest) (value count : Nat) :
    parseInteger base (run ++ rest) value count =
      (digits.foldl (fun v d => v * base + d) value, count + digits.length, rest) := by
  induction run generalizing digits value count with
  | nil =>
    obtain rfl := List.map_eq_nil_iff.mp hrun.symm
    exact parseInteger_stops hrest value count
  | cons c run ih =>
    cases digits with
    | nil => cases hrun
    | cons d digits =>
      obtain ⟨hd, hrun⟩ := List.cons.inj hrun
      have hbelow : ¬ base ≤ d := not_le.mpr (hlt d List.mem_cons_self)
      rw [List.cons_append, parseInteger, hd]
      simp only [hbelow, if_false]
      rw [ih hrun fun e he => hlt e (List.mem_cons_of_mem _ he)]
      simp only [List.foldl_cons, List.length_cons, Nat.add_assoc, Nat.add_comm 1]

/-- Every text begins with a longest run of digits. -/
theorem exists_digits (base : Nat) (text : List UInt8) :
    ∃ (run : List UInt8) (digits : List Nat) (rest : List UInt8), text = run ++ rest ∧
      run.map digitValue = digits.map some ∧
      (∀ d ∈ digits, d < base) ∧ Stops base rest := by
  induction text with
  | nil => exact ⟨[], [], [], rfl, rfl, List.forall_mem_nil _, fun c hc => nomatch hc⟩
  | cons c text ih =>
    by_cases hdigit : ∃ d ∈ digitValue c, d < base
    · obtain ⟨d, hd, hlt⟩ := hdigit
      obtain ⟨run, digits, rest, rfl, hrun, hall, hstops⟩ := ih
      refine ⟨c :: run, d :: digits, rest, rfl, ?_, ?_, hstops⟩
      · rw [List.map_cons, List.map_cons, hrun, hd]
      · exact List.forall_mem_cons.mpr ⟨hlt, hall⟩
    · refine ⟨[], [], c :: text, rfl, rfl, List.forall_mem_nil _, ?_⟩
      intro c' hc' d hd
      obtain rfl := Option.some.inj hc'
      exact not_lt.mp fun hlt => hdigit ⟨d, hd, hlt⟩

/-- The digits from the most significant one on are those of `Nat.ofDigits`. -/
theorem foldl_digits (base : Nat) (digits : List Nat) :
    digits.foldl (fun v d => v * base + d) 0 = Nat.ofDigits base digits.reverse := by
  induction digits using List.reverseRecOn with
  | nil => rfl
  | append_singleton digits d ih =>
    rw [List.foldl_append, ih, List.reverse_append, List.reverse_singleton,
      List.singleton_append, Nat.ofDigits_cons, List.foldl_cons, List.foldl_nil]
    ring

/-- **The parser of one base**: a run of digits and perhaps a newline. -/
theorem parseInteger_eq_iff {base : Nat} {text : List UInt8} {value : Nat} :
    ((parseInteger base text 0 0).1 = value ∧ (parseInteger base text 0 0).2.1 ≠ 0 ∧
      ((parseInteger base text 0 0).2.2 = [] ∨ (parseInteger base text 0 0).2.2 = [10])) ↔
    ∃ run newline, text = run ++ newline ∧ (newline = [] ∨ newline = [10]) ∧
      DigitsText base run value := by
  constructor
  · obtain ⟨run, digits, rest, rfl, hrun, hlt, hstops⟩ := exists_digits base text
    rw [parseInteger_digits hrun hlt hstops]
    rintro ⟨hvalue, hcount, hrest⟩
    refine ⟨run, rest, rfl, hrest, digits, ?_, hrun, hlt, ?_⟩
    · rintro rfl
      exact hcount rfl
    · rw [← foldl_digits]
      exact hvalue.symm
  · rintro ⟨run, newline, rfl, hnewline, digits, hne, hrun, hlt, rfl⟩
    rw [parseInteger_digits hrun hlt (stops_newline base hnewline)]
    refine ⟨foldl_digits base digits, ?_, hnewline⟩
    rw [Nat.zero_add]
    exact fun hzero => hne (List.length_eq_zero_iff.mp hzero)

/-! ## `kstrtou32` -/

theorem DigitsText.head {base : Nat} {c : UInt8} {digits : List UInt8} {value : Nat}
    (h : DigitsText base (c :: digits) value) : ∃ d, digitValue c = some d ∧ d < base := by
  obtain ⟨ds, hne, hmap, hlt, -⟩ := h
  cases ds with
  | nil => exact absurd rfl hne
  | cons d ds => exact ⟨d, (List.cons.inj hmap).1, hlt d List.mem_cons_self⟩

theorem DigitsText.ne_nil {base : Nat} {digits : List UInt8} {value : Nat}
    (h : DigitsText base digits value) : digits ≠ [] := by
  obtain ⟨ds, hne, hmap, -⟩ := h
  rintro rfl
  exact hne (List.map_eq_nil_iff.mp hmap.symm)

/-- The base that `_parse_integer_fixup_radix` finds, and the digits it leaves. -/
theorem fixupRadix_cases (text : List UInt8) :
    (∃ x digits, text = 48 :: x :: digits ∧ (x = 120 ∨ x = 88) ∧
      (∃ d cs, digits = d :: cs ∧ (digitValue d).isSome) ∧ fixupRadix text = (16, digits)) ∨
    (∃ digits, text = 48 :: digits ∧ fixupRadix text = (8, text)) ∨
    (text.head? ≠ some 48 ∧ fixupRadix text = (10, text)) := by
  unfold fixupRadix
  split
  · next x d cs =>
    by_cases hx : (x = 120 ∨ x = 88) ∧ (digitValue d).isSome
    · exact .inl ⟨x, d :: cs, rfl, hx.1, ⟨d, cs, rfl, hx.2⟩, if_pos hx⟩
    · exact .inr (.inl ⟨x :: d :: cs, rfl, if_neg hx⟩)
  · next cs _ => exact .inr (.inl ⟨cs, rfl, rfl⟩)
  · next h =>
    refine .inr (.inr ⟨?_, rfl⟩)
    cases text with
    | nil => simp
    | cons c cs =>
      rintro hc
      obtain rfl := Option.some.inj hc
      exact h cs rfl

section Prefix

variable {c x : UInt8} {digits newline text : List UInt8} {value : Nat}

/-- `0x` in front of a hexadecimal digit is taken off. -/
theorem fixupRadix_hexadecimal (hx : x = 120 ∨ x = 88) (h : DigitsText 16 digits value)
    (newline : List UInt8) :
    fixupRadix (48 :: x :: digits ++ newline) = (16, digits ++ newline) := by
  obtain ⟨d, cs, rfl⟩ := List.exists_cons_of_ne_nil h.ne_nil
  obtain ⟨n, hn, -⟩ := h.head
  exact if_pos ⟨hx, by rw [hn]; rfl⟩

/-- No octal number has an `x` behind its first digit. -/
theorem DigitsText.second_ne (h : DigitsText 8 (48 :: x :: digits) value) : x ≠ 120 ∧ x ≠ 88 := by
  obtain ⟨ds, -, hmap, -⟩ := h
  rcases ds with _ | ⟨_, _ | ⟨d, ds⟩⟩
  · cases hmap
  · cases hmap
  · have hdigit := (List.cons.inj (List.cons.inj hmap).2).1
    constructor
    · rintro rfl
      cases hdigit
    · rintro rfl
      cases hdigit

/-- A `0` in front of an octal number stays. -/
theorem fixupRadix_octal (h : DigitsText 8 (48 :: digits) value)
    (hnewline : newline = [] ∨ newline = [10]) :
    fixupRadix (48 :: digits ++ newline) = (8, 48 :: digits ++ newline) := by
  rcases fixupRadix_cases (48 :: digits ++ newline) with
    ⟨x, rest, htext, hx, ⟨d, cs, rfl, -⟩, -⟩ | ⟨rest, -, hfix⟩ | ⟨hhead, -⟩
  · -- `x` is no octal digit, and no newline
    exfalso
    cases digits with
    | nil =>
      rcases hnewline with rfl | rfl
      · cases htext
      · cases htext
    | cons c digits =>
      obtain ⟨rfl, -⟩ := List.cons.inj (List.cons.inj htext).2
      exact hx.elim h.second_ne.1 h.second_ne.2
  · exact hfix
  · exact absurd rfl hhead

/-- A text without a `0` in front is decimal. -/
theorem fixupRadix_decimal (hc : text.head? ≠ some 48) : fixupRadix text = (10, text) := by
  rcases fixupRadix_cases text with ⟨x, rest, rfl, -⟩ | ⟨rest, rfl, -⟩ | ⟨-, hfix⟩
  · exact absurd rfl hc
  · exact absurd rfl hc
  · exact hfix

/-- **The prefix**: what is left of a text behind it is a run of digits of its base. -/
theorem numberText_iff {text : List UInt8} {value : Nat} :
    (∃ number newline, text = number ++ newline ∧ (newline = [] ∨ newline = [10]) ∧
      NumberText number value) ↔
    ∃ run newline, (fixupRadix text).2 = run ++ newline ∧ (newline = [] ∨ newline = [10]) ∧
      DigitsText (fixupRadix text).1 run value := by
  constructor
  · rintro ⟨number, newline, rfl, hnewline, hnumber⟩
    cases hnumber with
    | hexadecimal hx h =>
      rw [fixupRadix_hexadecimal hx h]
      exact ⟨_, newline, rfl, hnewline, h⟩
    | octal h =>
      rw [fixupRadix_octal h hnewline]
      exact ⟨_, newline, rfl, hnewline, h⟩
    | @decimal c digits _ hc h =>
      have hhead : (c :: digits ++ newline).head? ≠ some 48 := fun heq => hc (Option.some.inj heq)
      rw [fixupRadix_decimal hhead]
      exact ⟨_, newline, rfl, hnewline, h⟩
  -- the prefix that was taken off is put back in front of the run
  · rintro ⟨run, newline, hrun, hnewline, h⟩
    rcases fixupRadix_cases text with ⟨x, digits, rfl, hx, -, hfix⟩ | ⟨digits, rfl, hfix⟩ |
      ⟨hhead, hfix⟩
    · rw [hfix] at hrun h
      change digits = run ++ newline at hrun
      subst hrun
      exact ⟨48 :: x :: run, newline, rfl, hnewline, .hexadecimal hx h⟩
    · rw [hfix] at hrun h
      change 48 :: digits = run ++ newline at hrun
      obtain ⟨c, cs, rfl⟩ := List.exists_cons_of_ne_nil h.ne_nil
      obtain ⟨rfl, rfl⟩ := List.cons.inj hrun
      exact ⟨48 :: cs, newline, rfl, hnewline, .octal h⟩
    · rw [hfix] at hrun h
      change text = run ++ newline at hrun
      subst hrun
      obtain ⟨c, cs, rfl⟩ := List.exists_cons_of_ne_nil h.ne_nil
      exact ⟨c :: cs, newline, rfl, hnewline, .decimal (fun heq => hhead (congrArg some heq)) h⟩

end Prefix

/-- A number does not begin with a plus sign. -/
theorem NumberText.head_ne {text rest : List UInt8} {value : Nat} (h : NumberText text value) :
    text ≠ 43 :: rest := by
  rintro rfl
  cases h with
  | decimal hc h =>
    obtain ⟨d, hd, -⟩ := h.head
    cases hd

/-- `_kstrtoull` with base 0 and the range check, on a text without its sign. -/
theorem unsigned_eq_some_iff {text : List UInt8} {value : Nat} :
    (let (base, digitText) := fixupRadix text
     let (value, digits, rest) := parseInteger base digitText 0 0
     if digits = 0 then none
     else if rest = [] ∨ rest = [10] then (if value < 2 ^ 32 then some value else none)
     else none) = some value ↔
    ∃ number newline, text = number ++ newline ∧ (newline = [] ∨ newline = [10]) ∧
      NumberText number value ∧ value < 2 ^ 32 := by
  have hnumber := @numberText_iff text value
  rw [← parseInteger_eq_iff] at hnumber
  constructor
  · intro h
    simp only at h
    split at h
    · cases h
    · next hdigits =>
      split at h
      · next hrest =>
        split at h
        · next hrange =>
          obtain ⟨number, newline, htext, hnewline, hwrites⟩ :=
            hnumber.mpr ⟨Option.some.inj h, hdigits, hrest⟩
          obtain rfl := Option.some.inj h
          exact ⟨number, newline, htext, hnewline, hwrites, hrange⟩
        · cases h
      · cases h
  · rintro ⟨number, newline, htext, hnewline, hwrites, hrange⟩
    obtain ⟨hvalue, hdigits, hrest⟩ := hnumber.mp ⟨number, newline, htext, hnewline, hwrites⟩
    simp only
    rw [if_neg hdigits, if_pos hrest, hvalue, if_pos hrange]

/-- **`kstrtou32`** reads exactly the texts of unsigned 32-bit integers. -/
theorem kstrtou32_eq_some_iff {text : List UInt8} {value : Nat} :
    kstrtou32 text = some value ↔ IntegerText text value := by
  unfold kstrtou32
  rw [unsigned_eq_some_iff]
  constructor
  · split
    · next cs =>
      rintro ⟨number, newline, rfl, hnewline, hwrites, hrange⟩
      exact ⟨[43], number, newline, rfl, .inr rfl, hnewline, hwrites, hrange⟩
    · rintro ⟨number, newline, rfl, hnewline, hwrites, hrange⟩
      exact ⟨[], number, newline, rfl, .inl rfl, hnewline, hwrites, hrange⟩
  · rintro ⟨sign, number, newline, rfl, rfl | rfl, hnewline, hwrites, hrange⟩
    · split
      · next cs htext =>
        -- the number itself has no sign
        cases hnumber : number with
        | nil =>
          rw [hnumber] at hwrites
          cases hwrites
        | cons c rest =>
          rw [hnumber] at htext
          obtain ⟨rfl, -⟩ := List.cons.inj htext
          exact absurd hnumber hwrites.head_ne
      · exact ⟨number, newline, rfl, hnewline, hwrites, hrange⟩
    · exact ⟨number, newline, rfl, hnewline, hwrites, hrange⟩

theorem DigitsText.zero_notMem {base : Nat} {digits : List UInt8} {value : Nat}
    (h : DigitsText base digits value) : 0 ∉ digits := by
  obtain ⟨ds, -, hmap, -⟩ := h
  intro hmem
  have hnone : digitValue 0 ∈ ds.map some := hmap ▸ List.mem_map_of_mem hmem
  obtain ⟨d, -, hd⟩ := List.mem_map.mp hnone
  cases hd

theorem NumberText.zero_notMem {text : List UInt8} {value : Nat} (h : NumberText text value) :
    0 ∉ text := by
  cases h with
  | hexadecimal hx h =>
    intro hmem
    rcases List.mem_cons.mp hmem with heq | hmem
    · exact absurd heq (by decide)
    · rcases List.mem_cons.mp hmem with rfl | hmem
      · exact absurd hx (by decide)
      · exact h.zero_notMem hmem
  | octal h => exact h.zero_notMem
  | decimal hc h => exact h.zero_notMem

/-- No text of an integer has a NUL. -/
theorem IntegerText.zero_notMem {text : List UInt8} {value : Nat} (h : IntegerText text value) :
    0 ∉ text := by
  obtain ⟨sign, number, newline, rfl, hsign, hnewline, hwrites, -⟩ := h
  intro hmem
  rw [List.mem_append, List.mem_append] at hmem
  rcases hmem with (hmem | hmem) | hmem
  · rcases hsign with rfl | rfl
    · exact absurd hmem List.not_mem_nil
    · exact absurd hmem (by decide)
  · exact hwrites.zero_notMem hmem
  · rcases hnewline with rfl | rfl
    · exact absurd hmem List.not_mem_nil
    · exact absurd hmem (by decide)

end LinuxMaxxing.Io
