import Mathlib.Tactic

/-!
# Shell Words

How a line is split into words: at blanks, with single and double quotes and the backslash, as
`shlex.split` of Python does. A text is the list of its symbols.

- `scan`: the scanner, by recursion on the text, in one of four modes;
- `Verbatim`: a text that stands for itself between double quotes;
- `scan_verbatim` and `scan_not_verbatim`: it does, and no other text does.
-/

namespace LinuxMaxxing.Lib.ShellWords

/-! ## The scanner -/

/-- Where the scanner is: between words, in a word, between quotes, or behind a backslash, with
    the quotes that this stands between. -/
inductive Mode where
  | space
  | word
  | quoted (quote : Nat)
  | escaped (quote : Option Nat)
  deriving DecidableEq, Repr

/-- What the end of a text can cut off. -/
inductive ScanError where
  | noClosingQuotation
  | noEscapedCharacter
  deriving DecidableEq, Repr

def isBlank (c : Nat) : Bool := c = 0x20 || c = 0x09 || c = 0x0d || c = 0x0a

def isQuote (c : Nat) : Bool := c = 0x27 || c = 0x22

/-- The words from a mode on; `token` is what there is of the current one. -/
def scan : Mode → List Nat → List Nat → Except ScanError (List (List Nat))
  | .space, _, [] => .ok []
  | .space, token, c :: cs =>
    if isBlank c then scan .space token cs
    else if c = 0x5c then scan (.escaped none) token cs
    else if isQuote c then scan (.quoted c) token cs
    else scan .word [c] cs
  | .word, token, [] => .ok [token]
  | .word, token, c :: cs =>
    if isBlank c then (scan .space [] cs).map (token :: ·)
    else if isQuote c then scan (.quoted c) token cs
    else if c = 0x5c then scan (.escaped none) token cs
    else scan .word (token ++ [c]) cs
  | .quoted _, _, [] => .error .noClosingQuotation
  | .quoted quote, token, c :: cs =>
    if c = quote then scan .word token cs
    -- a backslash between single quotes is a symbol like any other
    else if c = 0x5c ∧ quote = 0x22 then scan (.escaped (some quote)) token cs
    else scan (.quoted quote) (token ++ [c]) cs
  | .escaped _, _, [] => .error .noEscapedCharacter
  | .escaped none, token, c :: cs => scan .word (token ++ [c]) cs
  | .escaped (some quote), token, c :: cs =>
    scan (.quoted quote) (token ++ if c ≠ 0x5c ∧ c ≠ quote then [0x5c, c] else [c]) cs

/-- `shlex.split(text)` -/
def split (s : List Nat) : Except ScanError (List (List Nat)) := scan .space [] s

/-! ## Plain words -/

/-- A symbol that is no blank, no quote and no backslash. -/
def isPlain (c : Nat) : Bool := !isBlank c && !isQuote c && c ≠ 0x5c

theorem scan_word_plain {w : List Nat} (h : ∀ c ∈ w, isPlain c = true) (token rest : List Nat) :
    scan .word token (w ++ rest) = scan .word (token ++ w) rest := by
  induction w generalizing token with
  | nil => simp
  | cons c w ih =>
    have hc := h c List.mem_cons_self
    simp only [isPlain, Bool.and_eq_true, Bool.not_eq_true', decide_eq_true_eq] at hc
    obtain ⟨⟨hblank, hquote⟩, hescape⟩ := hc
    rw [List.cons_append, scan, hblank, hquote]
    simp only [Bool.false_eq_true, if_false, hescape]
    rw [ih fun c hc => h c (List.mem_cons_of_mem _ hc), List.append_assoc, List.singleton_append]

/-- A word begins. -/
theorem scan_space_plain {c : Nat} {w : List Nat} (h : ∀ d ∈ c :: w, isPlain d = true)
    (rest : List Nat) : scan .space [] (c :: w ++ rest) = scan .word (c :: w) rest := by
  have hc := h c List.mem_cons_self
  simp only [isPlain, Bool.and_eq_true, Bool.not_eq_true', decide_eq_true_eq] at hc
  obtain ⟨⟨hblank, hquote⟩, hescape⟩ := hc
  rw [List.cons_append, scan, hblank, hquote]
  simp only [Bool.false_eq_true, if_false, hescape]
  exact scan_word_plain (fun d hd => h d (List.mem_cons_of_mem _ hd)) [c] rest

/-- **A plain word** with a blank behind it. -/
theorem split_plain {w : List Nat} (hw : w ≠ []) (h : ∀ c ∈ w, isPlain c = true)
    (rest : List Nat) : split (w ++ 0x20 :: rest) = (split rest).map (w :: ·) := by
  cases w with
  | nil => exact absurd rfl hw
  | cons c w =>
    show scan .space [] (c :: w ++ 0x20 :: rest) = _
    rw [scan_space_plain h]
    rfl

/-- Plain words with blanks between them, before the rest. -/
theorem split_words {ws : List (List Nat)} (h : ∀ w ∈ ws, w ≠ [] ∧ ∀ c ∈ w, isPlain c = true)
    (rest : List Nat) :
    split (ws.flatMap (· ++ [0x20]) ++ rest) = (split rest).map (ws ++ ·) := by
  induction ws with
  | nil =>
    rw [List.flatMap_nil, List.nil_append]
    cases split rest <;> rfl
  | cons w ws ih =>
    obtain ⟨hw, hplain⟩ := h w List.mem_cons_self
    rw [List.flatMap_cons, List.append_assoc, List.append_assoc, List.singleton_append,
      split_plain hw hplain, ih fun w hw => h w (List.mem_cons_of_mem _ hw)]
    cases split rest <;> rfl

/-! ## Double quotes -/

/-- Between double quotes the text stands for itself: it has no such quote, and each backslash
    has a symbol behind it that is neither. -/
def verbatim : List Nat → Bool
  | [] => true
  | c :: cs =>
    if c = 0x22 then false
    else if c = 0x5c then
      match cs with
      | [] => false
      | d :: cs => d ≠ 0x22 && d ≠ 0x5c && verbatim cs
    else verbatim cs

/-- **A text that stands for itself**, up to the closing quote. -/
theorem scan_verbatim {s : List Nat} (h : verbatim s = true) (token rest : List Nat) :
    scan (.quoted 0x22) token (s ++ 0x22 :: rest) = scan .word (token ++ s) rest := by
  fun_induction verbatim s generalizing token with
  | case1 => simp [scan]
  | case2 => cases h
  | case3 => cases h
  | case4 d cs hquote ih =>
    -- the backslash comes back with the symbol behind it
    simp only [Bool.and_eq_true, decide_eq_true_eq] at h
    obtain ⟨⟨hd, hd'⟩, hcs⟩ := h
    rw [List.cons_append, List.cons_append, scan, if_neg hquote, if_pos ⟨rfl, rfl⟩, scan,
      if_pos ⟨hd', hd⟩, ih hcs]
    simp
  | case5 c cs hquote hescape ih =>
    rw [List.cons_append, scan, if_neg hquote, if_neg (fun hand => hescape hand.1), ih h]
    simp

/-! ### How long a word can be -/

/-- A backslash that is waiting for its symbol can come back with it. -/
def Mode.slack : Mode → Nat
  | .escaped _ => 1
  | _ => 0

/-- What a word gains from a text: at most its symbols, without the quote at its end. -/
def Gains (token : List Nat) (words : List (List Nat)) (n : Nat) : Prop :=
  ∃ w rest, words = (token ++ w) :: rest ∧ w.length ≤ n

theorem Gains.of_append {token added : List Nat} {words : List (List Nat)} {m n : Nat}
    (h : Gains (token ++ added) words m) (hn : added.length + m ≤ n) : Gains token words n := by
  obtain ⟨w, rest, hwords, hw⟩ := h
  refine ⟨added ++ w, rest, by rw [hwords, List.append_assoc], ?_⟩
  rw [List.length_append]
  omega

theorem Gains.mono {token : List Nat} {words : List (List Nat)} {m n : Nat}
    (h : Gains token words m) (hn : m ≤ n) : Gains token words n := by
  obtain ⟨w, rest, hwords, hw⟩ := h
  exact ⟨w, rest, hwords, Nat.le_trans hw hn⟩

/-- **The word in progress**, before a text that ends with a double quote: this quote opens
    a text that has no end, closes one, or loses the backslash before it. -/
theorem scan_gains {mode : Mode} {token r : List Nat} {words : List (List Nat)}
    (h : scan mode token (r ++ [0x22]) = .ok words) (hmode : mode ≠ .space) :
    Gains token words (r.length + mode.slack) := by
  induction r generalizing mode token with
  | nil =>
    cases mode with
    | space => exact absurd rfl hmode
    | word => cases h
    | quoted quote =>
      -- the last quote closes the text, or another kind of quote stays open
      rw [List.nil_append, scan] at h
      split at h
      · cases h
        exact ⟨[], [], by simp, Nat.zero_le _⟩
      · split at h
        · cases h
        · cases h
    | escaped quote =>
      cases quote with
      | none =>
        cases h
        exact ⟨[0x22], [], rfl, Nat.le_refl 1⟩
      | some quote => cases h
  | cons c r ih =>
    rw [List.cons_append] at h
    cases mode with
    | space => exact absurd rfl hmode
    | word =>
      rw [scan] at h
      split at h
      · -- the word ends here
        cases hrest : scan .space [] (r ++ [0x22]) with
        | error e =>
          rw [hrest] at h
          cases h
        | ok rest =>
          rw [hrest] at h
          cases h
          exact ⟨[], rest, by simp, Nat.zero_le _⟩
      · split at h
        · exact (ih h nofun).mono (Nat.le_succ _)
        · split at h
          · exact (ih h nofun).mono (Nat.le_refl _)
          · refine (ih h nofun).of_append ?_
            show 1 + (r.length + 0) ≤ r.length + 1 + 0
            omega
    | quoted quote =>
      rw [scan] at h
      split at h
      · exact (ih h nofun).mono (Nat.le_succ _)
      · split at h
        · exact (ih h nofun).mono (Nat.le_refl _)
        · refine (ih h nofun).of_append ?_
          show 1 + (r.length + 0) ≤ r.length + 1 + 0
          omega
    | escaped quote =>
      cases quote with
      | none =>
        rw [scan] at h
        refine (ih h nofun).of_append ?_
        show 1 + (r.length + 0) ≤ r.length + 1 + 1
        omega
      | some quote =>
        rw [scan] at h
        refine (ih h nofun).of_append ?_
        show _ + (r.length + 0) ≤ r.length + 1 + 1
        split
        · show 2 + (r.length + 0) ≤ r.length + 1 + 1
          omega
        · show 1 + (r.length + 0) ≤ r.length + 1 + 1
          omega

/-- **Any other text** between double quotes makes the word shorter than it is. -/
theorem scan_not_verbatim {s : List Nat} (hs : verbatim s = false) {token : List Nat}
    {words : List (List Nat)} (h : scan (.quoted 0x22) token (s ++ [0x22]) = .ok words) :
    ∃ n < s.length, Gains token words n := by
  fun_induction verbatim s generalizing token with
  | case1 => cases hs
  | case2 cs =>
    -- the text is left at the first quote
    rw [List.cons_append, scan, if_pos rfl] at h
    exact ⟨cs.length, Nat.lt_succ_self _, scan_gains h nofun⟩
  | case3 => cases h
  | case4 d cs hquote ih =>
    rw [List.cons_append, List.cons_append, scan, if_neg hquote, if_pos ⟨rfl, rfl⟩, scan] at h
    split at h
    · next hd =>
      have hcs : verbatim cs = false := by simpa [hd.1, hd.2] using hs
      obtain ⟨n, hn, hgains⟩ := ih hcs h
      refine ⟨2 + n, ?_, hgains.of_append (Nat.le_refl _)⟩
      simp only [List.length_cons]
      omega
    · refine ⟨1 + cs.length, ?_, (scan_gains h nofun).of_append (Nat.le_refl _)⟩
      simp only [List.length_cons]
      omega
  | case5 c cs hquote hescape ih =>
    rw [List.cons_append, scan, if_neg hquote, if_neg fun hand => hescape hand.1] at h
    obtain ⟨n, hn, hgains⟩ := ih hs h
    refine ⟨1 + n, ?_, hgains.of_append (Nat.le_refl _)⟩
    rw [List.length_cons]
    omega

end LinuxMaxxing.Lib.ShellWords
