import LinuxMaxxing.Lib.Json

/-!
# UTF-8 Texts

A strict decoder for UTF-8, and the UTF-16 code units of what it decodes.

- `Valid`: the octets of a sequence of scalar values;
- `decode`: the scalar values of such a sequence, `decode_eq_some_iff`;
- `decode_append_ascii`: an ASCII octet separates what stands before it from what stands after it,
  so that neither can repair the other;
- `units`: the decoded text in code units; `units_escape`: escaping ASCII octets and decoding
  commute;
- `points`: the code points of code units, `points_flatMap_utf16`.
-/

namespace LinuxMaxxing.Lib.Utf8

open Json

/-! ## Encoding -/

/-- The code points that a text can hold: not the surrogates. -/
def IsScalar (c : Nat) : Prop := c < 0xd800 ∨ 0xe000 ≤ c ∧ c < 0x110000

instance (c : Nat) : Decidable (IsScalar c) := inferInstanceAs (Decidable (_ ∨ _))

/-- The octets of a sequence of code points. -/
def encode (points : List Nat) : List Nat := points.flatMap utf8

/-- The octets are the UTF-8 encoding of some text. -/
def Valid (s : List Nat) : Prop := ∃ points, (∀ c ∈ points, IsScalar c) ∧ s = encode points

theorem utf8_ascii {c : Nat} (h : c < 0x80) : utf8 c = [c] := if_pos h

/-- The octets of the other code points are all in the upper half. -/
theorem le_of_mem_utf8 {c b : Nat} (h : 0x80 ≤ c) (hb : b ∈ utf8 c) : 0x80 ≤ b := by
  unfold utf8 at hb
  rw [if_neg (by omega)] at hb
  split at hb
  · simp only [List.mem_cons, List.not_mem_nil, or_false] at hb
    omega
  · split at hb
    · simp only [List.mem_cons, List.not_mem_nil, or_false] at hb
      omega
    · simp only [List.mem_cons, List.not_mem_nil, or_false] at hb
      omega

/-! ## Decoding -/

/-- One sequence of octets: it has to be the encoding of its code point, so neither an overlong
    form nor a surrogate, and each octet after the first a continuation. -/
def accept (c : Nat) (sequence : List Nat) (rest : Option (List Nat)) : Option (List Nat) :=
  if IsScalar c ∧ utf8 c = sequence then rest.map (c :: ·) else none

/-- The code points of a text; `none` where the strict decoder raises. -/
def decode : List Nat → Option (List Nat)
  | [] => some []
  | a :: r =>
    if a < 0x80 then (decode r).map (a :: ·)
    else if a < 0xe0 then
      match r with
      | b :: r => accept ((a - 0xc0) * 64 + (b - 0x80)) [a, b] (decode r)
      | _ => none
    else if a < 0xf0 then
      match r with
      | b :: c :: r =>
        accept ((a - 0xe0) * 4096 + (b - 0x80) * 64 + (c - 0x80)) [a, b, c] (decode r)
      | _ => none
    else
      match r with
      | b :: c :: d :: r =>
        accept ((a - 0xf0) * 262144 + (b - 0x80) * 4096 + (c - 0x80) * 64 + (d - 0x80))
          [a, b, c, d] (decode r)
      | _ => none

@[simp] theorem decode_nil : decode [] = some [] := by
  rw [decode.eq_def]

theorem decode_ascii {a : Nat} (h : a < 0x80) (r : List Nat) :
    decode (a :: r) = (decode r).map (a :: ·) := by
  rw [decode.eq_def]
  exact if_pos h

theorem accept_eq_some {c : Nat} {sequence points : List Nat} {rest : Option (List Nat)}
    (h : accept c sequence rest = some points) :
    ∃ tail, rest = some tail ∧ points = c :: tail ∧ IsScalar c ∧ sequence = utf8 c := by
  unfold accept at h
  split at h
  · next hc =>
    obtain ⟨tail, htail, rfl⟩ := Option.map_eq_some_iff.mp h
    exact ⟨tail, htail, rfl, hc.1, hc.2.symm⟩
  · cases h

theorem accept_utf8 {c : Nat} (hc : IsScalar c) {c' : Nat} (heq : c' = c) {sequence : List Nat}
    (hsequence : utf8 c = sequence) (rest : Option (List Nat)) :
    accept c' sequence rest = rest.map (c :: ·) := by
  subst heq
  exact if_pos ⟨hc, hsequence⟩

/-- The decoder reads back the octets of a code point. -/
theorem decode_utf8 {c : Nat} (hc : IsScalar c) (r : List Nat) :
    decode (utf8 c ++ r) = (decode r).map (c :: ·) := by
  have hmax : c < 0x110000 := by
    unfold IsScalar at hc
    omega
  -- one case for each length of a sequence; the first byte tells the length back
  by_cases h1 : c < 0x80
  · rw [utf8_ascii h1]
    exact decode_ascii h1 r
  by_cases h2 : c < 0x800
  · have hsequence : utf8 c = [0xc0 + c / 64, 0x80 + c % 64] := by
      unfold utf8
      rw [if_neg h1, if_pos h2]
    rw [hsequence, List.cons_append, List.cons_append, List.nil_append, decode.eq_def]
    simp only [if_neg (show ¬ 0xc0 + c / 64 < 0x80 by omega),
      if_pos (show 0xc0 + c / 64 < 0xe0 by omega)]
    exact accept_utf8 hc (by omega) hsequence _
  by_cases h3 : c < 0x10000
  · have hsequence : utf8 c = [0xe0 + c / 4096, 0x80 + c / 64 % 64, 0x80 + c % 64] := by
      unfold utf8
      rw [if_neg h1, if_neg h2, if_pos h3]
    rw [hsequence, List.cons_append, List.cons_append, List.cons_append, List.nil_append,
      decode.eq_def]
    simp only [if_neg (show ¬ 0xe0 + c / 4096 < 0x80 by omega),
      if_neg (show ¬ 0xe0 + c / 4096 < 0xe0 by omega),
      if_pos (show 0xe0 + c / 4096 < 0xf0 by omega)]
    exact accept_utf8 hc (by omega) hsequence _
  · have hsequence : utf8 c =
        [0xf0 + c / 262144, 0x80 + c / 4096 % 64, 0x80 + c / 64 % 64, 0x80 + c % 64] := by
      unfold utf8
      rw [if_neg h1, if_neg h2, if_neg h3]
    rw [hsequence, List.cons_append, List.cons_append, List.cons_append, List.cons_append,
      List.nil_append, decode.eq_def]
    simp only [if_neg (show ¬ 0xf0 + c / 262144 < 0x80 by omega),
      if_neg (show ¬ 0xf0 + c / 262144 < 0xe0 by omega),
      if_neg (show ¬ 0xf0 + c / 262144 < 0xf0 by omega)]
    exact accept_utf8 hc (by omega) hsequence _

theorem decode_encode_append {points : List Nat} (h : ∀ c ∈ points, IsScalar c) (r : List Nat) :
    decode (encode points ++ r) = (decode r).map (points ++ ·) := by
  induction points with
  | nil => simp [encode]
  | cons c points ih =>
    rw [List.forall_mem_cons] at h
    have hcons : encode (c :: points) ++ r = utf8 c ++ (encode points ++ r) := by simp [encode]
    rw [hcons, decode_utf8 h.1, ih h.2, Option.map_map]
    rfl

theorem eq_encode_of_decode {s points : List Nat} (h : decode s = some points) :
    (∀ c ∈ points, IsScalar c) ∧ s = encode points := by
  -- one sequence in front of a text
  have hcons : ∀ {c : Nat} {sequence r points : List Nat},
      (∀ {tail}, decode r = some tail → (∀ c ∈ tail, IsScalar c) ∧ r = encode tail) →
      accept c sequence (decode r) = some points →
      (∀ c ∈ points, IsScalar c) ∧ sequence ++ r = encode points := by
    intro c sequence r points ih h
    obtain ⟨tail, htail, rfl, hc, rfl⟩ := accept_eq_some h
    obtain ⟨hscalar, hr⟩ := ih htail
    refine ⟨List.forall_mem_cons.mpr ⟨hc, hscalar⟩, ?_⟩
    simp [encode, hr]
  induction s using decode.induct generalizing points with
  | case1 =>
    rw [decode_nil] at h
    cases h
    exact ⟨List.forall_mem_nil _, rfl⟩
  | case2 a r ha ih =>
    rw [decode_ascii ha] at h
    obtain ⟨tail, htail, rfl⟩ := Option.map_eq_some_iff.mp h
    obtain ⟨hscalar, hr⟩ := ih htail
    refine ⟨List.forall_mem_cons.mpr ⟨.inl (by omega), hscalar⟩, ?_⟩
    simp [encode, utf8_ascii ha, hr]
  | case3 a h1 h2 b r ih =>
    rw [decode.eq_def] at h
    simp only [if_neg h1, if_pos h2] at h
    exact hcons ih h
  | case5 a h1 h2 h3 b c r ih =>
    rw [decode.eq_def] at h
    simp only [if_neg h1, if_neg h2, if_pos h3] at h
    exact hcons ih h
  | case7 a h1 h2 h3 b c d r ih =>
    rw [decode.eq_def] at h
    simp only [if_neg h1, if_neg h2, if_neg h3] at h
    exact hcons ih h
  | case4 a r h1 h2 hshort =>
    rw [decode.eq_def] at h
    simp only [if_neg h1, if_pos h2] at h
    cases h
  | case6 a r h1 h2 h3 hshort =>
    rw [decode.eq_def] at h
    simp only [if_neg h1, if_neg h2, if_pos h3] at h
    cases h
  | case8 a r h1 h2 h3 hshort =>
    rw [decode.eq_def] at h
    simp only [if_neg h1, if_neg h2, if_neg h3] at h
    cases h

theorem decode_eq_some_iff {s points : List Nat} :
    decode s = some points ↔ (∀ c ∈ points, IsScalar c) ∧ s = encode points := by
  refine ⟨eq_encode_of_decode, fun h => ?_⟩
  obtain ⟨hscalar, rfl⟩ := h
  have hdecode := decode_encode_append hscalar []
  rw [List.append_nil] at hdecode
  rw [hdecode, decode_nil, Option.map_some, List.append_nil]

theorem valid_iff_decode {s : List Nat} : Valid s ↔ ∃ points, decode s = some points := by
  simp only [Valid, decode_eq_some_iff]

/-! ## ASCII octets separate -/

/-- An ASCII octet of an encoding is a code point of its own. -/
theorem exists_of_encode_eq {points s r : List Nat} {c : Nat} (hc : c < 0x80)
    (h : encode points = s ++ c :: r) : ∃ before after, points = before ++ c :: after ∧
      encode before = s := by
  induction points generalizing s with
  | nil => simp [encode] at h
  | cons p points ih =>
    have hcons : utf8 p ++ encode points = s ++ c :: r := by simpa [encode] using h
    rcases List.append_eq_append_iff.mp hcons with ⟨s', rfl, hrest⟩ | ⟨tail, hutf8, hrest⟩
    · obtain ⟨before, after, rfl, rfl⟩ := ih hrest
      exact ⟨p :: before, after, rfl, by simp [encode]⟩
    · cases tail with
      | nil =>
        obtain ⟨before, after, rfl, hbefore⟩ := ih (s := []) hrest.symm
        refine ⟨p :: before, after, rfl, ?_⟩
        rw [List.append_nil] at hutf8
        rw [← hutf8, ← List.append_nil (utf8 p), ← hbefore]
        simp [encode]
      | cons d tail =>
        -- the octet is one of the first code point's, which is therefore ASCII
        obtain ⟨rfl, -⟩ := List.cons.inj hrest
        have hmem : c ∈ utf8 p := by
          rw [hutf8]
          simp
        have hp : p < 0x80 := by
          by_contra hp
          have := le_of_mem_utf8 (Nat.le_of_not_lt hp) hmem
          omega
        rw [utf8_ascii hp] at hutf8
        cases s with
        | nil =>
          obtain ⟨rfl, -⟩ := List.cons.inj hutf8
          exact ⟨[], points, rfl, rfl⟩
        | cons b s => simp at hutf8

/-- **An ASCII octet separates**: the text before it and the text after it are decoded each for
    itself. -/
theorem decode_append_ascii {c : Nat} (hc : c < 0x80) (s r : List Nat) :
    decode (s ++ c :: r) =
      (decode s).bind fun before => (decode r).map fun after => before ++ c :: after := by
  cases hs : decode s with
  | some points =>
    obtain ⟨hscalar, rfl⟩ := decode_eq_some_iff.mp hs
    rw [decode_encode_append hscalar, decode_ascii hc, Option.map_map]
    rfl
  | none =>
    rw [Option.bind_none, Option.eq_none_iff_forall_ne_some]
    intro points hpoints
    obtain ⟨hscalar, hencode⟩ := decode_eq_some_iff.mp hpoints
    obtain ⟨before, after, rfl, hbefore⟩ := exists_of_encode_eq hc hencode.symm
    have hdecode : decode s = some before := by
      refine decode_eq_some_iff.mpr ⟨fun d hd => hscalar d ?_, hbefore.symm⟩
      exact List.mem_append_left _ hd
    rw [hs] at hdecode
    cases hdecode

/-! ## Code units -/

/-- The UTF-16 code units of a code point. -/
def utf16 (c : Nat) : List Nat :=
  if c < 0x10000 then [c]
  else [0xd800 + (c - 0x10000) / 0x400, 0xdc00 + (c - 0x10000) % 0x400]

/-- The code units of a text of octets. -/
def units (s : List Nat) : Option (List Nat) := (decode s).map fun points => points.flatMap utf16

@[simp] theorem units_nil : units [] = some [] := by
  simp [units]

theorem valid_iff_units {s : List Nat} : Valid s ↔ ∃ us, units s = some us := by
  rw [valid_iff_decode]
  unfold units
  cases decode s with
  | none => simp
  | some points => simp

theorem units_append_ascii {c : Nat} (hc : c < 0x80) (s r : List Nat) :
    units (s ++ c :: r) =
      (units s).bind fun before => (units r).map fun after => before ++ c :: after := by
  have hutf16 : utf16 c = [c] := if_pos (by omega)
  unfold units
  rw [decode_append_ascii hc]
  cases decode s with
  | none => rfl
  | some before =>
    cases decode r with
    | none => rfl
    | some after => simp [hutf16]

theorem units_ascii_append {s : List Nat} (h : ∀ c ∈ s, c < 0x80) (r : List Nat) :
    units (s ++ r) = (units r).map (s ++ ·) := by
  induction s with
  | nil => simp
  | cons c s ih =>
    rw [List.forall_mem_cons] at h
    have hcons : units (c :: (s ++ r)) = (units (s ++ r)).map (c :: ·) := by
      have happend := units_append_ascii h.1 [] (s ++ r)
      rw [units_nil, Option.bind_some, List.nil_append] at happend
      exact happend
    rw [List.cons_append, hcons, ih h.2, Option.map_map]
    rfl

/-- An ASCII text is its own code units. -/
theorem units_ascii {s : List Nat} (h : ∀ c ∈ s, c < 0x80) : units s = some s := by
  have happend := units_ascii_append h []
  rw [List.append_nil, units_nil, Option.map_some, List.append_nil] at happend
  exact happend

theorem le_of_mem_utf16 {c u : Nat} (h : 0x80 ≤ c) (hu : u ∈ utf16 c) : 0x80 ≤ u := by
  unfold utf16 at hu
  split at hu
  · simp only [List.mem_singleton] at hu
    omega
  · simp only [List.mem_cons, List.not_mem_nil, or_false] at hu
    omega

/-- A text of the upper half decodes to code units of the upper half. -/
theorem le_of_mem_units {s us : List Nat} (hs : ∀ b ∈ s, 0x80 ≤ b) (h : units s = some us) :
    ∀ u ∈ us, 0x80 ≤ u := by
  obtain ⟨points, hpoints, rfl⟩ := Option.map_eq_some_iff.mp h
  obtain ⟨-, rfl⟩ := decode_eq_some_iff.mp hpoints
  intro u hu
  obtain ⟨c, hc, hu⟩ := List.mem_flatMap.mp hu
  refine le_of_mem_utf16 (Nat.le_of_not_lt fun hlt => ?_) hu
  have hmem : c ∈ encode points := List.mem_flatMap.mpr ⟨c, hc, by simp [utf8_ascii hlt]⟩
  have := hs c hmem
  omega

/-- A code point is determined by its code units, in front of others. -/
theorem utf16_append_inj {c d : Nat} (hc : IsScalar c) (hd : IsScalar d) {x y : List Nat}
    (h : utf16 c ++ x = utf16 d ++ y) : c = d ∧ x = y := by
  unfold IsScalar at hc hd
  unfold utf16 at h
  split at h
  · split at h
    · simpa using h
    · -- a code unit of its own is no surrogate
      simp only [List.cons_append, List.cons.injEq] at h
      omega
  · split at h
    · simp only [List.cons_append, List.cons.injEq] at h
      omega
    · simp only [List.cons_append, List.nil_append, List.cons.injEq] at h
      exact ⟨by omega, h.2.2⟩

theorem flatMap_utf16_inj {a b : List Nat} (ha : ∀ c ∈ a, IsScalar c) (hb : ∀ c ∈ b, IsScalar c)
    (h : a.flatMap utf16 = b.flatMap utf16) : a = b := by
  have hne : ∀ c, utf16 c ≠ [] := by
    intro c
    unfold utf16
    split <;> simp
  induction a generalizing b with
  | nil =>
    cases b with
    | nil => rfl
    | cons d b => simp [hne] at h
  | cons c a ih =>
    cases b with
    | nil => simp [hne] at h
    | cons d b =>
      rw [List.forall_mem_cons] at ha hb
      rw [List.flatMap_cons, List.flatMap_cons] at h
      obtain ⟨rfl, hrest⟩ := utf16_append_inj ha.1 hb.1 h
      rw [ih ha.2 hb.2 hrest]

/-- Texts with the same code units are the same. -/
theorem units_inj {s t us : List Nat} (hs : units s = some us) (ht : units t = some us) : s = t := by
  obtain ⟨a, ha, hus⟩ := Option.map_eq_some_iff.mp hs
  obtain ⟨b, hb, hut⟩ := Option.map_eq_some_iff.mp ht
  obtain ⟨hascalar, rfl⟩ := decode_eq_some_iff.mp ha
  obtain ⟨hbscalar, rfl⟩ := decode_eq_some_iff.mp hb
  rw [flatMap_utf16_inj hascalar hbscalar (hus.trans hut.symm)]

/-! ## Code points -/

/-- A code point or unit is the first half of a surrogate pair. -/
def isHigh (c : Nat) : Bool := 0xd800 ≤ c && c < 0xdc00

/-- It is the second half. -/
def isLow (c : Nat) : Bool := 0xdc00 ≤ c && c < 0xe000

/-- The code points of code units: two halves that stand next to each other are one code point. -/
def points : List Nat → List Nat
  | u :: v :: us =>
    if isHigh u && isLow v then (0x10000 + (u - 0xd800) * 0x400 + (v - 0xdc00)) :: points us
    else u :: points (v :: us)
  | us => us

/-- The code points are those of Unicode, and no two halves of a pair stand next to each other as
    code points of their own. -/
def unsplit : List Nat → Bool
  | c :: d :: cs => c < 0x110000 && !(isHigh c && isLow d) && unsplit (d :: cs)
  | [c] => c < 0x110000
  | [] => true

theorem lt_of_unsplit {c : Nat} {cs : List Nat} (h : unsplit (c :: cs) = true) :
    c < 0x110000 ∧ unsplit cs = true := by
  cases cs with
  | nil => exact ⟨of_decide_eq_true h, rfl⟩
  | cons d cs =>
    rw [unsplit, Bool.and_eq_true, Bool.and_eq_true, decide_eq_true_eq] at h
    exact ⟨h.1.1, h.2⟩

/-- The code units of a text fit sixteen bits. -/
theorem lt_of_mem_flatMap_utf16 {s : List Nat} (h : unsplit s = true) :
    ∀ u ∈ s.flatMap utf16, u < 0x10000 := by
  induction s with
  | nil => exact fun u hu => by cases hu
  | cons c s ih =>
    obtain ⟨hc, hs⟩ := lt_of_unsplit h
    intro u hu
    rcases List.mem_append.mp (List.flatMap_cons ▸ hu) with hu | hu
    · unfold utf16 at hu
      split at hu
      · rw [List.mem_singleton.mp hu]
        assumption
      · simp only [List.mem_cons, List.not_mem_nil, or_false] at hu
        omega
    · exact ih hs u hu

/-- A code point of its own stays one in front of a text that does not go on with its other
    half. -/
theorem points_cons {c : Nat} {s : List Nat} (h : unsplit (c :: s) = true) :
    points (c :: s.flatMap utf16) = c :: points (s.flatMap utf16) := by
  cases s with
  | nil => rfl
  | cons d s =>
    rw [unsplit, Bool.and_eq_true, Bool.and_eq_true] at h
    rw [List.flatMap_cons]
    unfold utf16
    split
    · have hpair : ¬ (isHigh c && isLow d) = true := by
        rw [Bool.not_eq_true, ← Bool.not_eq_true']
        exact h.1.2
      rw [List.cons_append, points, if_neg hpair]
    · -- the units of a pair start with its first half
      have hpair : ¬ (isHigh c && isLow (0xd800 + (d - 0x10000) / 0x400)) = true := by
        have := (lt_of_unsplit h.2).1
        simp only [isLow, Bool.and_eq_true, decide_eq_true_eq]
        omega
      rw [List.cons_append, points, if_neg hpair]

/-- **A text is read back from its code units**, if no pair is split in it. -/
theorem points_flatMap_utf16 {s : List Nat} (h : unsplit s = true) :
    points (s.flatMap utf16) = s := by
  induction s with
  | nil => rfl
  | cons c s ih =>
    obtain ⟨hc, hs⟩ := lt_of_unsplit h
    by_cases hunit : c < 0x10000
    · rw [List.flatMap_cons, show utf16 c = [c] from if_pos hunit, List.cons_append,
        List.nil_append, points_cons h, ih hs]
    · have hpair : (isHigh (0xd800 + (c - 0x10000) / 0x400) &&
          isLow (0xdc00 + (c - 0x10000) % 0x400)) = true := by
        simp only [isHigh, isLow, Bool.and_eq_true, decide_eq_true_eq]
        omega
      have hunits : utf16 c = [0xd800 + (c - 0x10000) / 0x400, 0xdc00 + (c - 0x10000) % 0x400] :=
        if_neg hunit
      rw [List.flatMap_cons, hunits, List.cons_append, List.cons_append, List.nil_append, points,
        if_pos hpair, ih hs, List.cons.injEq]
      exact ⟨by omega, rfl⟩

/-- Texts in which no pair is split are told apart by their code units. -/
theorem flatMap_utf16_inj_of_unsplit {s t : List Nat} (hs : unsplit s = true)
    (ht : unsplit t = true) (h : s.flatMap utf16 = t.flatMap utf16) : s = t := by
  rw [← points_flatMap_utf16 hs, h, points_flatMap_utf16 ht]

/-! ## Escapes -/

/-- **Escaping commutes with decoding**: where every ASCII octet is replaced by ASCII octets, and
    the upper half stays, the text stays valid or invalid as it was, and its code units are those
    of the text with the same replacements. -/
theorem units_escape {esc : Nat → List Nat} (hhigh : ∀ c, 0x80 ≤ c → esc c = [c])
    (hne : ∀ c, c < 0x80 → esc c ≠ []) (hascii : ∀ c, c < 0x80 → ∀ d ∈ esc c, d < 0x80)
    (s : List Nat) : units (s.flatMap esc) = (units s).map fun us => us.flatMap esc := by
  -- octets of the upper half wait in `high` for the ASCII octet that ends them
  suffices hsuff : ∀ high : List Nat, (∀ b ∈ high, 0x80 ≤ b) →
      units (high ++ s.flatMap esc) = (units (high ++ s)).map fun us => us.flatMap esc from
    hsuff [] (List.forall_mem_nil _)
  have hid : ∀ {t : List Nat}, (∀ b ∈ t, 0x80 ≤ b) → t.flatMap esc = t := by
    intro t ht
    induction t with
    | nil => rfl
    | cons b t ih =>
      rw [List.forall_mem_cons] at ht
      rw [List.flatMap_cons, hhigh b ht.1, ih ht.2, List.singleton_append]
  induction s with
  | nil =>
    intro high hhigh
    rw [List.flatMap_nil, List.append_nil]
    cases hunits : units high with
    | none => rfl
    | some us => rw [Option.map_some, hid (le_of_mem_units hhigh hunits)]
  | cons c s ih =>
    intro high hall
    by_cases hc : c < 0x80
    · cases hesc : esc c with
      | nil => exact absurd hesc (hne c hc)
      | cons d ds =>
        have hd := hascii c hc
        rw [hesc, List.forall_mem_cons] at hd
        rw [List.flatMap_cons, hesc, List.cons_append, units_append_ascii hd.1,
          units_ascii_append hd.2, units_append_ascii hc]
        have htail := ih [] (List.forall_mem_nil _)
        rw [List.nil_append, List.nil_append] at htail
        rw [htail]
        cases hunits : units high with
        | none => rfl
        | some us =>
          cases units s with
          | none => rfl
          | some vs => simp [hesc, hid (le_of_mem_units hall hunits)]
    · have hlow := Nat.le_of_not_lt hc
      have hmore := ih (high ++ [c]) (by
        intro b hb
        rcases List.mem_append.mp hb with hb | hb
        · exact hall b hb
        · rw [List.mem_singleton.mp hb]
          exact hlow)
      rw [List.flatMap_cons, hhigh c hlow]
      simpa using hmore

end LinuxMaxxing.Lib.Utf8
