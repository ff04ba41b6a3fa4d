import LinuxMaxxing.Framework.Quality
import LinuxMaxxing.Common.JsonWriter

/-!
# Records

`normalize` and `record` of `runtime.py`: what an observation becomes in a capture.

- `normalize`: numbers become texts, hexadecimal texts lower case;
- `record`: the envelope with the normalized payload and its quality.
-/

namespace LinuxMaxxing.Framework

open LinuxMaxxing.Common

/-! ## `normalize` -/

/-- `LabError("unsupported observation value: …")`, for this value. -/
structure Unsupported where
  value : PyValue
  deriving Repr

/-- `[0-9a-fA-F]` -/
def isHexSymbol (c : Nat) : Bool :=
  (0x30 ≤ c && c ≤ 0x39) || (0x61 ≤ c && c ≤ 0x66) || (0x41 ≤ c && c ≤ 0x46)

/-- `re.fullmatch(r"0x[0-9a-fA-F]+", value)` -/
def isPrefixedHex (s : Text) : Bool :=
  s.take 2 = text "0x" && s.drop 2 ≠ [] && (s.drop 2).all isHexSymbol

/-- `str.lower` on such a symbol. -/
def lower (c : Nat) : Nat := if 0x41 ≤ c ∧ c ≤ 0x5a then c + 0x20 else c

/-- `normalize` of a text. -/
def normalizeText (s : Text) : Text :=
  if isPrefixedHex s then text "0x" ++ (s.drop 2).map lower else s

mutual

/-- `normalize` -/
def normalize : PyValue → Except Unsupported PyValue
  | .bool b => .ok (.bool b)
  | .none => .ok .none
  | .int z => .ok (.str (JsonWriter.signedDecimal z))
  | .list vs => do return .list (← normalizeItems vs)
  | .dict ms => do return .dict (← normalizeMembers ms)
  | .str s => .ok (.str (normalizeText s))
  | .float x => .error ⟨.float x⟩

def normalizeItems : List PyValue → Except Unsupported (List PyValue)
  | [] => .ok []
  | v :: vs => do
    let v ← normalize v
    return v :: (← normalizeItems vs)

def normalizeMembers : List (Text × PyValue) → Except Unsupported (List (Text × PyValue))
  | [] => .ok []
  | (k, v) :: ms => do
    let v ← normalize v
    return (k, v) :: (← normalizeMembers ms)

end

/-! ### Normalized texts -/

theorem isPrefixedHex_iff {t : Text} :
    isPrefixedHex t = true ↔
      ∃ digits, t = text "0x" ++ digits ∧ digits ≠ [] ∧ digits.all isHexSymbol = true := by
  unfold isPrefixedHex
  simp only [Bool.and_eq_true, decide_eq_true_eq]
  constructor
  · rintro ⟨⟨hstart, hne⟩, hall⟩
    refine ⟨t.drop 2, ?_, hne, hall⟩
    rw [← hstart, List.take_append_drop]
  · rintro ⟨digits, rfl, hne, hall⟩
    exact ⟨⟨rfl, hne⟩, hall⟩

theorem isHexSymbol_lower {c : Nat} (h : isHexSymbol c = true) : isHexSymbol (lower c) = true := by
  unfold isHexSymbol lower at *
  simp only [Bool.or_eq_true, Bool.and_eq_true, decide_eq_true_eq] at h ⊢
  split <;> omega

theorem isPrefixedHex_lower {digits : Text} (hne : digits ≠ [])
    (hall : digits.all isHexSymbol = true) :
    isPrefixedHex (text "0x" ++ digits.map lower) = true := by
  refine isPrefixedHex_iff.mpr ⟨_, rfl, by simpa using hne, ?_⟩
  rw [List.all_map]
  exact List.all_eq_true.mpr fun c hc => isHexSymbol_lower (List.all_eq_true.mp hall c hc)

theorem lower_lower (c : Nat) : lower (lower c) = lower c := by
  unfold lower
  split
  · next hupper => rw [if_neg (by omega)]
  · rfl

theorem lower_eq_iff {c : Nat} (h : isHexSymbol c = true) :
    lower c = c ↔ ¬ (0x41 ≤ c ∧ c ≤ 0x46) := by
  simp only [isHexSymbol, Bool.or_eq_true, Bool.and_eq_true, decide_eq_true_eq] at h
  unfold lower
  split
  · constructor
    · intro heq
      omega
    · intro hnot
      omega
  · refine iff_of_true rfl ?_
    omega

theorem normalizeText_of_not {s : Text} (h : isPrefixedHex s = false) : normalizeText s = s := by
  rw [normalizeText, h, if_neg Bool.false_ne_true]

theorem normalizeText_digits {digits : Text} (h : isPrefixedHex (text "0x" ++ digits) = true) :
    normalizeText (text "0x" ++ digits) = text "0x" ++ digits.map lower := by
  rw [normalizeText, h, if_pos rfl]
  rfl

/-- A normalized text stays as it is. -/
theorem normalizeText_idem (s : Text) : normalizeText (normalizeText s) = normalizeText s := by
  cases hhex : isPrefixedHex s with
  | false => rw [normalizeText_of_not hhex, normalizeText_of_not hhex]
  | true =>
    obtain ⟨digits, rfl, hne, hall⟩ := isPrefixedHex_iff.mp hhex
    have hmap : (digits.map lower).map lower = digits.map lower := by
      rw [List.map_map]
      exact List.map_congr_left fun c _ => lower_lower c
    rw [normalizeText_digits hhex, normalizeText_digits (isPrefixedHex_lower hne hall), hmap]

/-- Only upper-case digits are changed. -/
theorem normalizeText_eq_iff {s : Text} :
    normalizeText s = s ↔ ¬ (isPrefixedHex s = true ∧ ∃ c ∈ s, 0x41 ≤ c ∧ c ≤ 0x46) := by
  cases hhex : isPrefixedHex s with
  | false =>
    rw [normalizeText_of_not hhex]
    simp
  | true =>
    obtain ⟨digits, rfl, -, hall⟩ := isPrefixedHex_iff.mp hhex
    rw [List.all_eq_true] at hall
    have hmap : digits.map lower = digits ↔ ∀ c ∈ digits, lower c = c := by
      conv_lhs => rw [← List.map_id digits, List.map_map]
      exact List.map_inj_left
    have hupper : (∃ c ∈ text "0x" ++ digits, 0x41 ≤ c ∧ c ≤ 0x46) ↔
        ∃ c ∈ digits, 0x41 ≤ c ∧ c ≤ 0x46 := by
      constructor
      · rintro ⟨c, hc, hrange⟩
        rcases List.mem_append.mp hc with hc | hc
        · have hnone : ∀ c ∈ text "0x", ¬ (0x41 ≤ c ∧ c ≤ 0x46) := by decide
          exact absurd hrange (hnone c hc)
        · exact ⟨c, hc, hrange⟩
      · rintro ⟨c, hc, hrange⟩
        exact ⟨c, List.mem_append_right _ hc, hrange⟩
    rw [normalizeText_digits hhex, hupper, List.append_cancel_left_eq, hmap]
    simp only [true_and, not_exists, not_and]
    constructor
    · intro hfixed c hc
      exact not_and.mp ((lower_eq_iff (hall c hc)).mp (hfixed c hc))
    · intro hnone c hc
      exact (lower_eq_iff (hall c hc)).mpr (not_and.mpr (hnone c hc))

/-! ## `record` -/

/-- `str(value)`: that of a text is the text; `other` is the rest of Python's. -/
def pyStr (other : PyValue → Text) : PyValue → Text
  | .str s => s
  | v => other v

/-- One entry of `ctx`. -/
def contextEntry (other : PyValue → Text) (supplied : List (Text × PyValue)) (key : String) :
    Text × PyValue :=
  let value := (supplied.lookup (text key)).getD .none
  (text key,
    match value with
    | .none => .none
    | value => if key = "phase" ∨ key = "operation" then .str (pyStr other value) else value)

/-- `record`; the time stamp is given as its text. -/
def record (other : PyValue → Text) (experiment collector mechanism domain : Text) (kind : PyValue)
    (timestamp : Text) (data hook : PyValue) (context : List (Text × PyValue)) :
    Except Unsupported PyValue := do
  let ctx := contextKeys.map (contextEntry other context)
  let payload ← normalize data
  return .dict [(text "experiment", .str experiment), (text "sequence", .int 0),
    (text "source", .dict [(text "collector", .str collector), (text "mechanism", .str mechanism),
      (text "domain", .str domain), (text "hook", hook)]),
    (text "kind", kind), (text "timestamp_ns", .str timestamp),
    (text "clock_domain", .str (domain ++ text ":monotonic")), (text "context", .dict ctx),
    (text "quality", quality (pyStr other) payload), (text "data", payload)]

/-- **A record carries the quality of its payload**: the one that `quality` computes. -/
theorem record_ok (other : PyValue → Text) (experiment collector mechanism domain : Text)
    (kind : PyValue) (timestamp : Text) (hook : PyValue) (context : List (Text × PyValue))
    {data payload : PyValue} (h : normalize data = .ok payload) :
    ∃ event, record other experiment collector mechanism domain kind timestamp data hook context =
        .ok event ∧
      event.getItem "data" = .ok payload ∧
      event.getItem "quality" = .ok (quality (pyStr other) payload) ∧
      event.getItem "context" = .ok (.dict (contextKeys.map (contextEntry other context))) := by
  unfold record
  rw [h]
  exact ⟨_, rfl, rfl, rfl, rfl⟩

end LinuxMaxxing.Framework
