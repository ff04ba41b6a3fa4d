import Mathlib.Data.List.TakeWhile
import LinuxMaxxing.Lib.Json

/-!
# A Parse Depends on What It Consumes

If a parser succeeds on `s` and leaves `r`, then `s = p ++ r` for a prefix `p`, and on
`p` followed by anything else it succeeds with the same result and leaves the rest.
For a number the rest must not go on with the literal (`Delimits`).

The prefix of a value ends in a printable symbol (`Visible`), and a bound of its
length on the number of calls is enough: together these say that a document may be
parsed with or without the whitespace around it.
-/

namespace LinuxMaxxing.Lib.Json

/-! ## Prefixes -/

/-- `y` does not go on with a number literal. -/
def Delimits (y : List Nat) : Prop :=
  ∀ c ∈ y.head?, isDigit c = false ∧ c ≠ 0x2e ∧ c ≠ 0x65 ∧ c ≠ 0x45

/-- `y` does not go on with a digit. -/
def NoDigit (y : List Nat) : Prop := ∀ c ∈ y.head?, isDigit c = false

theorem Delimits.noDigit {y : List Nat} (h : Delimits y) : NoDigit y := fun c hc => (h c hc).1

/-- The last symbol of `p` satisfies `q`; in particular `p` is not empty. -/
def EndsIn (q : Nat → Prop) (p : List Nat) : Prop := ∃ c ∈ p.getLast?, q c

theorem EndsIn.append {q : Nat → Prop} {p : List Nat} (h : EndsIn q p) (p' : List Nat) :
    EndsIn q (p' ++ p) := by
  obtain ⟨c, hc, hq⟩ := h
  refine ⟨c, ?_, hq⟩
  rw [Option.mem_def] at hc ⊢
  rw [List.getLast?_append, hc]
  rfl

theorem EndsIn.mono {q q' : Nat → Prop} {p : List Nat} (h : EndsIn q p) (hq : ∀ c, q c → q' c) :
    EndsIn q' p := by
  obtain ⟨c, hc, hqc⟩ := h
  exact ⟨c, hc, hq c hqc⟩

theorem EndsIn.cons {q : Nat → Prop} {p : List Nat} (h : EndsIn q p) (c : Nat) :
    EndsIn q (c :: p) := h.append [c]

theorem EndsIn.singleton {q : Nat → Prop} {c : Nat} (h : q c) : EndsIn q [c] :=
  ⟨c, rfl, h⟩

theorem EndsIn.length_pos {q : Nat → Prop} {p : List Nat} (h : EndsIn q p) : 0 < p.length := by
  obtain ⟨c, hc, _⟩ := h
  cases p with
  | nil => cases hc
  | cons _ _ => simp

/-- A printable symbol of ASCII other than the space. -/
def Visible (c : Nat) : Prop := 0x20 < c ∧ c < 0x7f

instance (c : Nat) : Decidable (Visible c) := inferInstanceAs (Decidable (_ ∧ _))

theorem Visible.isWs_eq_false {c : Nat} (h : Visible c) : isWs c = false := by
  unfold Visible at h
  simp only [isWs, Bool.or_eq_false_iff, decide_eq_false_iff_not]
  omega

/-! ## Runs of symbols -/

/-- The whitespace before the rest, and what `skipWs` makes of it again. -/
theorem skipWs_split (s : List Nat) :
    ∃ w, s = w ++ skipWs s ∧ ∀ y, skipWs (w ++ y) = skipWs y := by
  refine ⟨s.takeWhile isWs, (List.takeWhile_append_dropWhile).symm, fun y => ?_⟩
  have hall : ∀ c ∈ s.takeWhile isWs, isWs c = true := fun c hc => List.mem_takeWhile_imp hc
  unfold skipWs
  rw [List.dropWhile_append_of_pos hall]

theorem skipWs_of_not {c : Nat} {y : List Nat} (h : isWs c = false) : skipWs (c :: y) = c :: y := by
  simp [skipWs, h]

theorem isWs_of_skipWs_cons {s r : List Nat} {c : Nat} (h : skipWs s = c :: r) :
    isWs c = false := by
  have hhead := List.head?_dropWhile_not isWs s
  rw [show s.dropWhile isWs = c :: r from h] at hhead
  exact hhead

/-- A run of digits ends where it ended. -/
theorem digits_append {s y : List Nat} (hy : NoDigit y) :
    (s.takeWhile isDigit ++ y).takeWhile isDigit = s.takeWhile isDigit ∧
    (s.takeWhile isDigit ++ y).dropWhile isDigit = y := by
  have hall : ∀ c ∈ s.takeWhile isDigit, isDigit c = true := fun c hc => List.mem_takeWhile_imp hc
  rw [List.takeWhile_append_of_pos hall, List.dropWhile_append_of_pos hall]
  cases y with
  | nil => simp
  | cons c y =>
    have hc : isDigit c = false := hy c rfl
    simp [hc]

theorem endsIn_digits {s : List Nat} (h : s.takeWhile isDigit ≠ []) :
    EndsIn (fun c => isDigit c = true) (s.takeWhile isDigit) := by
  refine ⟨(s.takeWhile isDigit).getLast h, List.getLast?_eq_getLast_of_ne_nil h, ?_⟩
  exact List.mem_takeWhile_imp (List.getLast_mem h)

/-! ## Numbers -/

theorem parseDigits_local {s r ds : List Nat} (h : parseDigits s = some (ds, r)) :
    s = ds ++ r ∧ EndsIn (fun c => isDigit c = true) ds ∧
    ∀ y, NoDigit y → parseDigits (ds ++ y) = some (ds, y) := by
  unfold parseDigits at h
  split at h
  · cases h
  · next hne =>
    cases h
    refine ⟨(List.takeWhile_append_dropWhile).symm, endsIn_digits hne, fun y hy => ?_⟩
    obtain ⟨htake, hdrop⟩ := digits_append (s := s) hy
    simp [parseDigits, htake, hdrop, hne]

theorem parseInt_local {s r : List Nat} {n : Nat} (h : parseInt s = some (n, r)) :
    ∃ p, s = p ++ r ∧ EndsIn (fun c => isDigit c = true) p ∧
    ∀ y, NoDigit y → parseInt (p ++ y) = some (n, y) := by
  unfold parseInt at h
  split at h
  · cases h
    exact ⟨[0x30], rfl, .singleton (by decide), fun y _ => rfl⟩
  · next c r' hne =>
    split at h
    · next hdigit =>
      cases h
      have htake : ((c :: r').takeWhile isDigit) = c :: r'.takeWhile isDigit := by simp [hdigit]
      refine ⟨(c :: r').takeWhile isDigit, (List.takeWhile_append_dropWhile).symm,
        endsIn_digits (by simp [htake]), fun y hy => ?_⟩
      obtain ⟨htake', hdrop⟩ := digits_append (s := c :: r') hy
      rw [htake] at htake' hdrop ⊢
      unfold parseInt
      split
      · next hz =>
        simp only [List.cons_append, List.cons.injEq] at hz
        exact absurd hz.1 hne
      · next c' r'' _ hcons =>
        rw [← hcons, htake', hdrop]
        simp only [List.cons_append, List.cons.injEq] at hcons
        rw [if_pos (hcons.1 ▸ hdigit)]
      · next hnil => simp at hnil
    · cases h
  · cases h

/-- `p` is empty or starts with a symbol that satisfies `q`. -/
def Starts (q : Nat → Prop) (p : List Nat) : Prop := ∀ c ∈ p.head?, q c

/-- The first symbol of an optional part followed by `y`. -/
theorem Starts.append {q : Nat → Prop} {p y : List Nat} (hp : Starts q p) (hy : Starts q y) :
    Starts q (p ++ y) := by
  cases p with
  | nil => exact hy
  | cons c p => exact hp

theorem Starts.mono {q q' : Nat → Prop} {p : List Nat} (h : Starts q p) (hq : ∀ c, q c → q' c) :
    Starts q' p := fun c hc => hq c (h c hc)

theorem parseFrac_local {s r : List Nat} {f : Option (List Nat)} (h : parseFrac s = some (f, r)) :
    ∃ p, s = p ++ r ∧ (p = [] ∨ EndsIn (fun c => isDigit c = true) p) ∧
    Starts (fun c => c = 0x2e) p ∧
    ∀ y, Starts (fun c => isDigit c = false ∧ c ≠ 0x2e) y → parseFrac (p ++ y) = some (f, y) := by
  unfold parseFrac at h
  split at h
  · next r' =>
    obtain ⟨⟨ds, r''⟩, hds, heq⟩ := Option.map_eq_some_iff.mp h
    cases heq
    obtain ⟨hsplit, hends, hlocal⟩ := parseDigits_local hds
    refine ⟨0x2e :: ds, by rw [hsplit]; rfl, .inr (hends.cons _), ?_, fun y hy => ?_⟩
    · rintro c hc
      exact (Option.some.inj hc).symm
    · simp only [List.cons_append, parseFrac, hlocal y (hy.mono fun c hc => hc.1),
        Option.map_some]
  · next hno =>
    cases h
    refine ⟨[], rfl, .inl rfl, nofun, fun y hy => ?_⟩
    simp only [List.nil_append]
    unfold parseFrac
    split
    · next y' => exact absurd rfl (hy 0x2e rfl).2
    · rfl

theorem parseExp_local {s r : List Nat} {e : Option Int} (h : parseExp s = some (e, r)) :
    ∃ p, s = p ++ r ∧ (p = [] ∨ EndsIn (fun c => isDigit c = true) p) ∧
    Starts (fun c => c = 0x65 ∨ c = 0x45) p ∧
    ∀ y, Delimits y → parseExp (p ++ y) = some (e, y) := by
  have hnone : ∀ y, Delimits y → parseExp y = some (none, y) := by
    intro y hy
    cases y with
    | nil => rfl
    | cons c y =>
      have hc := (hy c rfl).2.2
      simp [parseExp, hc]
  unfold parseExp at h
  split at h
  · next c r' =>
    split at h
    · next hc =>
      obtain ⟨⟨ds, r''⟩, hds, heq⟩ := Option.map_eq_some_iff.mp h
      cases heq
      obtain ⟨hsplit, hends, hlocal⟩ := parseDigits_local hds
      -- the sign, if there is one, belongs to the prefix
      obtain ⟨sign, hsign, hagain⟩ : ∃ sign, r' = sign ++ (parseSign r').2 ∧
          ∀ y, parseSign (sign ++ ds ++ y) = ((parseSign r').1, ds ++ y) := by
        unfold parseSign
        split
        · exact ⟨[0x2d], rfl, fun y => rfl⟩
        · exact ⟨[0x2b], rfl, fun y => rfl⟩
        · refine ⟨[], rfl, fun y => ?_⟩
          have hfirst : Starts (fun c => isDigit c = true) ds := by
            have hall : ∀ c ∈ ds, isDigit c = true := by
              unfold parseDigits at hds
              split at hds
              · cases hds
              · cases hds
                exact fun c hc => List.mem_takeWhile_imp hc
            exact fun c hc => hall c (List.mem_of_mem_head? hc)
          cases ds with
          | nil => exact absurd hends.length_pos (by simp)
          | cons d ds =>
            have hd := hfirst d rfl
            simp only [List.nil_append, List.cons_append]
            split
            · next heq =>
              cases heq
              exact absurd hd (by decide)
            · next heq =>
              cases heq
              exact absurd hd (by decide)
            · rfl
      refine ⟨c :: (sign ++ ds), ?_, .inr ((hends.append sign).cons c), ?_, fun y hy => ?_⟩
      · rw [List.cons_append, List.append_assoc, ← hsplit, ← hsign]
      · intro d hd
        cases hd
        exact hc
      · have hsig := hagain y
        simp only [List.cons_append, parseExp, if_pos hc, hsig, hlocal y hy.noDigit,
          Option.map_some]
    · cases h
      exact ⟨[], rfl, .inl rfl, nofun, hnone⟩
  · cases h
    exact ⟨[], rfl, .inl rfl, nofun, hnone⟩

theorem parseUnsigned_local {s r : List Nat} {neg : Bool} {n : Number}
    (h : parseUnsigned neg s = some (n, r)) :
    ∃ p, s = p ++ r ∧ EndsIn (fun c => isDigit c = true) p ∧
    ∀ y, Delimits y → parseUnsigned neg (p ++ y) = some (n, y) := by
  unfold parseUnsigned at h
  obtain ⟨⟨i, r₁⟩, hint, h⟩ := Option.bind_eq_some_iff.mp h
  obtain ⟨⟨f, r₂⟩, hfrac, h⟩ := Option.bind_eq_some_iff.mp h
  obtain ⟨⟨e, r₃⟩, hexp, heq⟩ := Option.map_eq_some_iff.mp h
  cases heq
  obtain ⟨p₁, hs₁, hends₁, hloc₁⟩ := parseInt_local hint
  obtain ⟨p₂, hs₂, hends₂, hstart₂, hloc₂⟩ := parseFrac_local hfrac
  obtain ⟨p₃, hs₃, hends₃, hstart₃, hloc₃⟩ := parseExp_local hexp
  simp only at hs₁ hs₂ hs₃
  refine ⟨p₁ ++ (p₂ ++ p₃), ?_, ?_, fun y hy => ?_⟩
  · rw [hs₁, hs₂, hs₃]
    simp only [List.append_assoc]
  · rcases hends₃ with rfl | hends₃
    · rcases hends₂ with rfl | hends₂
      · simpa using hends₁
      · simpa using hends₂.append p₁
    · exact (hends₃.append p₂).append p₁
  · -- what follows the integer part starts with `.`, with `e`, or outside the literal
    have h₃ : Starts (fun c => isDigit c = false ∧ c ≠ 0x2e) (p₃ ++ y) := by
      apply Starts.append
      · exact hstart₃.mono (by rintro c (rfl | rfl) <;> decide)
      · exact fun c hc => ⟨(hy c hc).1, (hy c hc).2.1⟩
    have h₂ : NoDigit (p₂ ++ (p₃ ++ y)) := by
      apply Starts.append
      · exact hstart₂.mono (by rintro c rfl; decide)
      · exact h₃.mono fun c hc => hc.1
    unfold parseUnsigned
    simp only [List.append_assoc, hloc₁ _ h₂, hloc₂ _ h₃, hloc₃ _ hy, Option.bind_some,
      Option.map_some]

theorem parseNumber_local {s r : List Nat} {n : Number} (h : parseNumber s = some (n, r)) :
    ∃ p, s = p ++ r ∧ EndsIn (fun c => isDigit c = true) p ∧
    ∀ y, Delimits y → parseNumber (p ++ y) = some (n, y) := by
  unfold parseNumber at h
  split at h
  · obtain ⟨p, hs, hends, hloc⟩ := parseUnsigned_local h
    exact ⟨0x2d :: p, by rw [hs]; rfl, hends.cons _, fun y hy => hloc y hy⟩
  · next hno =>
    obtain ⟨p, hs, hends, hloc⟩ := parseUnsigned_local h
    refine ⟨p, hs, hends, fun y hy => ?_⟩
    unfold parseNumber
    split
    · next r' heq =>
      -- the literal itself does not start with a minus sign
      cases p with
      | nil => exact absurd hends.length_pos (by simp)
      | cons c p =>
        simp only [List.cons_append, List.cons.injEq] at heq
        exact absurd (by rw [hs, heq.1]; rfl) (hno (p ++ r))
    · exact hloc y hy

/-! ## Strings and names -/

theorem parseChars_local {s r : List Nat} {items : List StrItem}
    (h : parseChars s = some (items, r)) :
    ∃ p, s = p ++ r ∧ EndsIn (· = 0x22) p ∧ ∀ y, parseChars (p ++ y) = some (items, y) := by
  fun_induction parseChars s generalizing items r with
  | case2 r' =>
    cases h
    exact ⟨[0x22], rfl, .singleton rfl, fun y => parseChars_quote y⟩
  | case4 a b c d r'' _ ih =>
    obtain ⟨u, hu, h⟩ := Option.bind_eq_some_iff.mp h
    obtain ⟨⟨items', r'⟩, hrest, heq⟩ := Option.map_eq_some_iff.mp h
    cases heq
    obtain ⟨p, hs, hends, hloc⟩ := ih hrest
    refine ⟨0x5c :: 0x75 :: a :: b :: c :: d :: p, by rw [hs]; rfl, ?_, fun y => ?_⟩
    · exact hends.append [0x5c, 0x75, a, b, c, d]
    · simp only [List.cons_append, parseChars_unicode, hu, hloc y, Option.bind_some,
        Option.map_some]
  | case6 e r' hne _ ih =>
    obtain ⟨u, hu, h⟩ := Option.bind_eq_some_iff.mp h
    obtain ⟨⟨items', r''⟩, hrest, heq⟩ := Option.map_eq_some_iff.mp h
    cases heq
    obtain ⟨p, hs, hends, hloc⟩ := ih hrest
    refine ⟨0x5c :: e :: p, by rw [hs]; rfl, hends.append [0x5c, e], fun y => ?_⟩
    simp only [List.cons_append, parseChars_escape hne, hu, hloc y, Option.bind_some,
      Option.map_some]
  | case8 c r' hquote hslash hctl ih =>
    obtain ⟨⟨items', r''⟩, hrest, heq⟩ := Option.map_eq_some_iff.mp h
    cases heq
    obtain ⟨p, hs, hends, hloc⟩ := ih hrest
    refine ⟨c :: p, by rw [hs]; rfl, hends.cons c, fun y => ?_⟩
    rw [List.cons_append, parseChars_raw hquote hslash hctl, hloc y, Option.map_some]
  | _ => cases h

/-- Whitespace before a nonempty prefix is skipped again, whatever follows it. -/
theorem skipWs_again {s p r : List Nat} (h : skipWs s = p ++ r) (hp : p ≠ []) :
    ∃ w, s = w ++ (p ++ r) ∧ ∀ y, skipWs (w ++ (p ++ y)) = p ++ y := by
  obtain ⟨w, hsplit, hagain⟩ := skipWs_split s
  rw [h] at hsplit
  refine ⟨w, hsplit, fun y => ?_⟩
  rw [hagain]
  cases p with
  | nil => exact absurd rfl hp
  | cons c p => exact skipWs_of_not (isWs_of_skipWs_cons h)

variable {dec : List StrItem → List Nat}

theorem parseName_local {s r k : List Nat} (h : parseName dec s = some (k, r)) :
    Starts (fun c => isWs c = false) r ∧
    ∃ p, s = p ++ r ∧ 0 < p.length ∧
      ∀ y, Starts (fun c => isWs c = false) y → parseName dec (p ++ y) = some (k, y) := by
  cases s with
  | nil => cases h
  | cons c s =>
    simp only [parseName] at h
    split at h
    · next hc =>
      subst hc
      obtain ⟨⟨items, r₁⟩, hchars, h⟩ := Option.bind_eq_some_iff.mp h
      simp only at h
      split at h
      · cases h
      · next c' r₂ hcolon =>
        split at h
        · next hc' =>
          cases h
          subst hc'
          obtain ⟨p, hs, _, hloc⟩ := parseChars_local hchars
          obtain ⟨w, hw, hagain⟩ := skipWs_again (p := [0x3a]) hcolon (by simp)
          obtain ⟨w', hw', hagain'⟩ := skipWs_split r₂
          refine ⟨?_, 0x22 :: (p ++ (w ++ 0x3a :: w')), ?_, by simp, fun y hy => ?_⟩
          · intro c hc
            cases hr : skipWs r₂ with
            | nil => simp [hr] at hc
            | cons d r₃ =>
              rw [hr] at hc
              cases hc
              exact isWs_of_skipWs_cons hr
          · rw [hs, hw]
            nth_rewrite 1 [hw']
            simp
          · have hskip : skipWs (w' ++ y) = y := by
              rw [hagain']
              cases y with
              | nil => rfl
              | cons d y => exact skipWs_of_not (hy d rfl)
            have hcolon' := hagain (w' ++ y)
            simp only [List.cons_append, List.nil_append] at hcolon'
            simp [parseName, hloc, hcolon', hskip]
        · cases h
    · cases h

/-! ## Values -/

/-- What a successful parse of a value says about its input. -/
def ValueLocal (dec : List StrItem → List Nat) (s : List Nat) (v : Value) (r : List Nat) : Prop :=
  ∃ p, s = p ++ r ∧ EndsIn Visible p ∧
    ∀ m y, p.length ≤ m → Delimits y → parseValue dec m (p ++ y) = some (v, y)

/-- The same for the inside of an array or an object. -/
def BodyLocal {α : Type} (parse : Nat → List Nat → Option (α × List Nat)) (s : List Nat) (a : α)
    (r : List Nat) : Prop :=
  ∃ p, s = p ++ r ∧ EndsIn Visible p ∧
    ∀ m y, p.length ≤ m → parse m (p ++ y) = some (a, y)

theorem visible_of_digit {c : Nat} (h : isDigit c = true) : Visible c := by
  simp only [isDigit, Bool.and_eq_true, decide_eq_true_eq] at h
  unfold Visible
  omega

/-- A container: its opening symbol, and its closing one at once or after a body. -/
theorem container_local {α : Type} {parse : Nat → List Nat → Option (α × List Nat)}
    {close : Nat} (hclose : Visible close) {n : Nat} {s r : List Nat} {v : Value}
    {empty : Value} {wrap : α → Value}
    (hbody : ∀ s a r, parse n s = some (a, r) → BodyLocal parse s a r)
    (h : (if (skipWs s).head? = some close then some (empty, (skipWs s).tail)
      else (parse n (skipWs s)).map fun p => (wrap p.1, p.2)) = some (v, r)) :
    ∃ p, s = p ++ r ∧ EndsIn Visible p ∧ ∀ m y, p.length ≤ m →
      (if (skipWs (p ++ y)).head? = some close then some (empty, (skipWs (p ++ y)).tail)
        else (parse m (skipWs (p ++ y))).map fun q => (wrap q.1, q.2)) = some (v, y) := by
  split at h
  · next hhead =>
    cases h
    obtain ⟨c, t, hskip⟩ : ∃ c t, skipWs s = c :: t := by
      cases hs : skipWs s with
      | nil => simp [hs] at hhead
      | cons c t => exact ⟨c, t, rfl⟩
    have hc : c = close := by
      rw [hskip] at hhead
      exact Option.some.inj hhead
    subst hc
    obtain ⟨w, hw, hagain⟩ := skipWs_again (p := [c]) hskip (by simp)
    refine ⟨w ++ [c], by rw [hskip]; simpa using hw, (EndsIn.singleton hclose).append w,
      fun m y _ => ?_⟩
    rw [List.append_assoc, hagain y]
    simp
  · next hhead =>
    obtain ⟨⟨a, r'⟩, hparse, heq⟩ := Option.map_eq_some_iff.mp h
    cases heq
    obtain ⟨p, hsp, hends, hloc⟩ := hbody _ _ _ hparse
    have hne : p ≠ [] := List.ne_nil_of_length_pos hends.length_pos
    obtain ⟨w, hw, hagain⟩ := skipWs_again hsp hne
    refine ⟨w ++ p, by rw [List.append_assoc]; exact hw, hends.append w, fun m y hm => ?_⟩
    have hsame : ∀ y, (p ++ y).head? = p.head? := by
      intro y
      cases p with
      | nil => exact absurd rfl hne
      | cons c p => rfl
    rw [List.append_assoc, hagain y, hsame, if_neg]
    · rw [hloc m y (by simp only [List.length_append] at hm; omega)]
      rfl
    · rw [hsp, hsame] at hhead
      exact hhead

/-- What follows an item: a comma and the other items, or the closing symbol. -/
theorem separator_local {α : Type} {parse : Nat → List Nat → Option (α × List Nat)}
    {close : Nat} (hclose : Delimits [close] ∧ Visible close) {n : Nat} {s r : List Nat}
    {a single : α} {join : α → α}
    (hbody : ∀ s a r, parse n s = some (a, r) → BodyLocal parse s a r)
    (h : (match skipWs s with
      | [] => none
      | c :: t =>
        if c = 0x2c then (parse n (skipWs t)).map fun q => (join q.1, q.2)
        else if c = close then some (single, t)
        else none) = some (a, r)) :
    ∃ p, s = p ++ r ∧ EndsIn Visible p ∧ (∀ y, Delimits (p ++ y)) ∧
      ∀ m y, p.length ≤ m + 1 → (match skipWs (p ++ y) with
        | [] => none
        | c :: t =>
          if c = 0x2c then (parse m (skipWs t)).map fun q => (join q.1, q.2)
          else if c = close then some (single, t)
          else none) = some (a, y) := by
  -- whitespace and separators do not go on with a number
  have hdelim : ∀ (w : List Nat) (c : Nat) (t : List Nat), (∀ y, skipWs (w ++ (c :: t ++ y)) =
      c :: t ++ y) → Delimits [c] → ∀ y, Delimits (w ++ (c :: t ++ y)) := by
    intro w c t hagain hc y
    cases w with
    | nil => exact hc
    | cons d w =>
      intro e he
      cases he
      have hws : isWs d = true := by
        by_contra hnot
        have hskip := hagain y
        rw [List.cons_append, skipWs_of_not (by simpa using hnot)] at hskip
        have hlen := congrArg List.length hskip
        simp at hlen
        omega
      simp only [isWs, Bool.or_eq_true, decide_eq_true_eq] at hws
      rcases hws with ((rfl | rfl) | rfl) | rfl <;> decide
  split at h
  · cases h
  · next c t hskip =>
    split at h
    · next hcomma =>
      subst hcomma
      obtain ⟨⟨b, r'⟩, hparse, heq⟩ := Option.map_eq_some_iff.mp h
      cases heq
      obtain ⟨p, hsp, hends, hloc⟩ := hbody _ _ _ hparse
      have hne : p ≠ [] := List.ne_nil_of_length_pos hends.length_pos
      obtain ⟨w', hw', hagain'⟩ := skipWs_again hsp hne
      rw [hw'] at hskip
      obtain ⟨w, hw, hagain⟩ := skipWs_again (p := 0x2c :: (w' ++ p)) (r := r')
        (by simpa using hskip) (by simp)
      refine ⟨w ++ (0x2c :: (w' ++ p)), by rw [hw]; simp, ?_, fun y => ?_, fun m y hm => ?_⟩
      · exact ((hends.append w').cons _).append w
      · rw [List.append_assoc]
        exact hdelim w _ _ hagain (by intro c hc; cases hc; decide) y
      · rw [List.append_assoc, hagain y]
        simp only [List.cons_append, if_true, List.append_assoc]
        rw [hagain' y, hloc m y (by simp only [List.length_append, List.length_cons] at hm; omega)]
        rfl
    · next hcomma =>
      split at h
      · next hc =>
        cases h
        subst hc
        obtain ⟨w, hw, hagain⟩ := skipWs_again (p := [c]) hskip (by simp)
        refine ⟨w ++ [c], by rw [hw]; simp, (EndsIn.singleton hclose.2).append w, fun y => ?_,
          fun m y _ => ?_⟩
        · rw [List.append_assoc]
          exact hdelim w c [] hagain hclose.1 y
        · rw [List.append_assoc, hagain y]
          simp [hcomma]
      · cases h

theorem literal_local {lit s r : List Nat} {v w : Value}
    (h : (s.dropPrefix? lit).map (fun r' => (v, r')) = some (w, r)) :
    w = v ∧ s = lit ++ r ∧
    ∀ y, ((lit ++ y).dropPrefix? lit).map (fun r' => (v, r')) = some (v, y) := by
  obtain ⟨r', hdrop, heq⟩ := Option.map_eq_some_iff.mp h
  cases heq
  obtain ⟨p, hs, hp⟩ := List.dropPrefix?_eq_some_iff.mp hdrop
  rw [eq_of_beq hp] at hs
  refine ⟨rfl, hs, fun y => ?_⟩
  have hself : (lit ++ y).dropPrefix? lit = some y :=
    List.dropPrefix?_eq_some_iff.mpr ⟨lit, rfl, beq_self_eq_true lit⟩
  rw [hself]
  rfl

/-- One level of values, from the elements and the members below it. -/
theorem parseValue_local {n : Nat}
    (ihElements : ∀ s vs r, parseElements dec n s = some (vs, r) →
      BodyLocal (parseElements dec) s vs r)
    (ihMembers : ∀ s ms r, parseMembers dec n s = some (ms, r) →
      BodyLocal (parseMembers dec) s ms r) {s r : List Nat} {v : Value}
    (h : parseValue dec (n + 1) s = some (v, r)) : ValueLocal dec s v r := by
  cases s with
  | nil => cases h
  | cons c s =>
    -- the prefix after the first symbol, which decides the kind of value
    have hcons : ∀ p, s = p ++ r → (∀ m y, p.length ≤ m → Delimits y →
        parseValue dec (m + 1) (c :: (p ++ y)) = some (v, y)) →
        EndsIn Visible (c :: p) → ValueLocal dec (c :: s) v r := by
      intro p hs hloc hends
      refine ⟨c :: p, by rw [hs]; rfl, hends, fun m y hm hy => ?_⟩
      rw [List.length_cons] at hm
      obtain ⟨m, rfl⟩ : ∃ k, m = k + 1 := ⟨m - 1, by omega⟩
      exact hloc m y (by omega) hy
    simp only [parseValue] at h hcons
    by_cases hquote : c = 0x22
    · rw [if_pos hquote] at h
      obtain ⟨⟨items, r'⟩, hchars, heq⟩ := Option.map_eq_some_iff.mp h
      cases heq
      obtain ⟨p, hs, hends, hloc⟩ := parseChars_local hchars
      refine hcons p hs (fun m y _ _ => ?_) ((hends.mono (by rintro _ rfl; decide)).cons c)
      rw [if_pos hquote, hloc y]
      rfl
    rw [if_neg hquote] at h
    by_cases hbracket : c = 0x5b
    · rw [if_pos hbracket] at h
      obtain ⟨p, hs, hends, hloc⟩ := container_local (by decide) ihElements h
      refine hcons p hs (fun m y hm _ => ?_) (hends.cons c)
      rw [if_neg hquote, if_pos hbracket]
      exact hloc m y hm
    rw [if_neg hbracket] at h
    by_cases hbrace : c = 0x7b
    · rw [if_pos hbrace] at h
      obtain ⟨p, hs, hends, hloc⟩ := container_local (by decide) ihMembers h
      refine hcons p hs (fun m y hm _ => ?_) (hends.cons c)
      rw [if_neg hquote, if_neg hbracket, if_pos hbrace]
      exact hloc m y hm
    rw [if_neg hbrace] at h
    by_cases htrue : c = 0x74
    · rw [if_pos htrue] at h
      obtain ⟨rfl, hs, hloc⟩ := literal_local h
      refine hcons _ hs (fun m y _ _ => ?_) (EndsIn.cons ⟨0x65, rfl, by decide⟩ c)
      rw [if_neg hquote, if_neg hbracket, if_neg hbrace, if_pos htrue]
      exact hloc y
    rw [if_neg htrue] at h
    by_cases hfalse : c = 0x66
    · rw [if_pos hfalse] at h
      obtain ⟨rfl, hs, hloc⟩ := literal_local h
      refine hcons _ hs (fun m y _ _ => ?_) (EndsIn.cons ⟨0x65, rfl, by decide⟩ c)
      rw [if_neg hquote, if_neg hbracket, if_neg hbrace, if_neg htrue, if_pos hfalse]
      exact hloc y
    rw [if_neg hfalse] at h
    by_cases hnull : c = 0x6e
    · rw [if_pos hnull] at h
      obtain ⟨rfl, hs, hloc⟩ := literal_local h
      refine hcons _ hs (fun m y _ _ => ?_) (EndsIn.cons ⟨0x6c, rfl, by decide⟩ c)
      rw [if_neg hquote, if_neg hbracket, if_neg hbrace, if_neg htrue, if_neg hfalse,
        if_pos hnull]
      exact hloc y
    rw [if_neg hnull] at h
    obtain ⟨⟨num, r'⟩, hnum, heq⟩ := Option.map_eq_some_iff.mp h
    cases heq
    obtain ⟨p, hs, hends, hloc⟩ := parseNumber_local hnum
    cases p with
    | nil => exact absurd hends.length_pos (by simp)
    | cons c' p =>
      simp only [List.cons_append, List.cons.injEq] at hs
      obtain ⟨rfl, hs⟩ := hs
      refine hcons p hs (fun m y _ hy => ?_) (hends.mono fun d hd => visible_of_digit hd)
      have hnum' := hloc y hy
      rw [List.cons_append] at hnum'
      rw [if_neg hquote, if_neg hbracket, if_neg hbrace, if_neg htrue, if_neg hfalse,
        if_neg hnull, hnum']
      rfl

theorem parseElements_local {n : Nat}
    (ihValue : ∀ s v r, parseValue dec n s = some (v, r) → ValueLocal dec s v r)
    (ihElements : ∀ s vs r, parseElements dec n s = some (vs, r) →
      BodyLocal (parseElements dec) s vs r) {s r : List Nat} {vs : List Value}
    (h : parseElements dec (n + 1) s = some (vs, r)) : BodyLocal (parseElements dec) s vs r := by
  simp only [parseElements] at h
  obtain ⟨⟨v, r₁⟩, hv, hrest⟩ := Option.bind_eq_some_iff.mp h
  obtain ⟨p, hs, hends, hloc⟩ := ihValue _ _ _ hv
  obtain ⟨p', hs', hends', hdelim, hloc'⟩ :=
    separator_local ⟨by intro c hc; cases hc; decide, by decide⟩ ihElements hrest
  simp only at hs'
  refine ⟨p ++ p', by rw [hs, hs', List.append_assoc], hends'.append p, fun m y hm => ?_⟩
  have hpos := hends'.length_pos
  rw [List.length_append] at hm
  obtain ⟨m, rfl⟩ : ∃ k, m = k + 1 := ⟨m - 1, by omega⟩
  rw [parseElements, List.append_assoc, hloc m _ (by omega) (hdelim y), Option.bind_some]
  exact hloc' m y (by omega)

theorem parseMembers_local {n : Nat}
    (ihValue : ∀ s v r, parseValue dec n s = some (v, r) → ValueLocal dec s v r)
    (ihMembers : ∀ s ms r, parseMembers dec n s = some (ms, r) →
      BodyLocal (parseMembers dec) s ms r) {s r : List Nat} {ms : List (List Nat × Value)}
    (h : parseMembers dec (n + 1) s = some (ms, r)) : BodyLocal (parseMembers dec) s ms r := by
  simp only [parseMembers] at h
  obtain ⟨⟨k, r₀⟩, hk, h⟩ := Option.bind_eq_some_iff.mp h
  obtain ⟨⟨v, r₁⟩, hv, hrest⟩ := Option.bind_eq_some_iff.mp h
  obtain ⟨hstart, p₀, hs₀, hpos₀, hloc₀⟩ := parseName_local hk
  obtain ⟨p, hs, hends, hloc⟩ := ihValue _ _ _ hv
  obtain ⟨p', hs', hends', hdelim, hloc'⟩ :=
    separator_local ⟨by intro c hc; cases hc; decide, by decide⟩ ihMembers hrest
  simp only at hs hs' hstart
  refine ⟨p₀ ++ (p ++ p'), by rw [hs₀, hs, hs']; simp, (hends'.append p).append p₀,
    fun m y hm => ?_⟩
  have hpos := hends'.length_pos
  simp only [List.length_append] at hm
  obtain ⟨m, rfl⟩ : ∃ k, m = k + 1 := ⟨m - 1, by omega⟩
  have hfirst : Starts (fun c => isWs c = false) (p ++ (p' ++ y)) := by
    cases p with
    | nil => exact absurd hends.length_pos (by simp)
    | cons c p =>
      rw [hs] at hstart
      exact hstart
  rw [parseMembers, List.append_assoc, List.append_assoc, hloc₀ _ hfirst, Option.bind_some]
  simp only
  rw [hloc m _ (by omega) (hdelim y), Option.bind_some]
  exact hloc' m y (by omega)

/-- **Locality**, for values, elements and members together: by induction on the
    bound on the calls. -/
theorem parse_local (n : Nat) :
    (∀ s v r, parseValue dec n s = some (v, r) → ValueLocal dec s v r) ∧
    (∀ s vs r, parseElements dec n s = some (vs, r) → BodyLocal (parseElements dec) s vs r) ∧
    (∀ s ms r, parseMembers dec n s = some (ms, r) → BodyLocal (parseMembers dec) s ms r) := by
  induction n with
  | zero => exact ⟨nofun, nofun, nofun⟩
  | succ n ih =>
    obtain ⟨ihValue, ihElements, ihMembers⟩ := ih
    exact ⟨fun _ _ _ => parseValue_local ihElements ihMembers,
      fun _ _ _ => parseElements_local ihValue ihElements,
      fun _ _ _ => parseMembers_local ihValue ihMembers⟩

/-! ## Documents -/

/-- Only whitespace. -/
def Blank (s : List Nat) : Prop := ∀ c ∈ s, isWs c = true

theorem skipWs_eq_nil_iff {s : List Nat} : skipWs s = [] ↔ Blank s :=
  List.dropWhile_eq_nil_iff

theorem skipWs_append {s : List Nat} (h : skipWs s ≠ []) (t : List Nat) :
    skipWs (s ++ t) = skipWs s ++ t := by
  unfold skipWs at h ⊢
  rw [List.dropWhile_append, if_neg (by simpa using h)]

theorem Blank.append {s t : List Nat} (hs : Blank s) (ht : Blank t) : Blank (s ++ t) := by
  intro c hc
  rcases List.mem_append.mp hc with hc | hc
  · exact hs c hc
  · exact ht c hc

/-- Text that is empty or starts with whitespace does not go on with a number. -/
theorem Delimits.of_ws {s : List Nat} (h : Starts (fun c => isWs c = true) s) : Delimits s := by
  intro c hc
  have hws := h c hc
  simp only [isWs, Bool.or_eq_true, decide_eq_true_eq] at hws
  rcases hws with ((rfl | rfl) | rfl) | rfl <;> decide

theorem Blank.starts {s : List Nat} (h : Blank s) : Starts (fun c => isWs c = true) s :=
  fun c hc => h c (List.mem_of_mem_head? hc)

/-- A document is its value between whitespace: the value's text `p`, which parses
    with any sufficient bound, in front of anything that does not go on with it. -/
theorem parseDocument_eq_some_iff {s : List Nat} {v : Value} :
    parseDocument dec s = some v ↔
    ∃ p r, skipWs s = p ++ r ∧ Blank r ∧ EndsIn Visible p ∧
      ∀ m y, p.length ≤ m → Delimits y → parseValue dec m (p ++ y) = some (v, y) := by
  constructor
  · intro h
    unfold parseDocument at h
    split at h
    · next v' r hparse =>
      split at h
      · next hblank =>
        cases h
        obtain ⟨p, hs, hends, hloc⟩ := (parse_local _).1 _ _ _ hparse
        exact ⟨p, r, hs, skipWs_eq_nil_iff.mp hblank, hends, hloc⟩
      · cases h
    · cases h
  · rintro ⟨p, r, hs, hblank, hends, hloc⟩
    have hdelim : Delimits r := .of_ws hblank.starts
    have hlen : p.length ≤ s.length + 1 := by
      have hle : (skipWs s).length ≤ s.length := List.length_dropWhile_le _ _
      rw [hs, List.length_append] at hle
      omega
    unfold parseDocument
    rw [hs, hloc _ _ hlen hdelim]
    simp only [skipWs_eq_nil_iff.mpr hblank, if_true]

/-- A text that ends in a visible symbol ends before what has none. -/
theorem EndsIn.split_before {x w p r : List Nat} (hsplit : x ++ w = p ++ r)
    (hp : EndsIn Visible p) (hw : ∀ c ∈ w, ¬ Visible c) : ∃ t, x = p ++ t ∧ r = t ++ w := by
  rcases List.append_eq_append_iff.mp hsplit with ⟨t, rfl, hwt⟩ | ⟨t, hx, hr⟩
  · cases t with
    | nil => exact ⟨[], by simp, by simpa using hwt.symm⟩
    | cons c t =>
      -- the last symbol of `p` would be one of `w`
      obtain ⟨d, hd, hvis⟩ := hp
      rw [List.getLast?_append_of_ne_nil _ (by simp)] at hd
      refine absurd hvis (hw d ?_)
      rw [hwt]
      exact List.mem_append_left _ (List.mem_of_mem_getLast? hd)
  · exact ⟨t, hx, hr⟩

theorem Blank.not_visible {w : List Nat} (hw : Blank w) : ∀ c ∈ w, ¬ Visible c := by
  intro c hc hvis
  have hws := hw c hc
  rw [hvis.isWs_eq_false] at hws
  cases hws

/-- **Whitespace after a document** does not matter. -/
theorem parseDocument_append_blank {s w : List Nat} (hw : Blank w) :
    parseDocument dec (s ++ w) = parseDocument dec s := by
  apply Option.ext
  intro v
  rw [parseDocument_eq_some_iff, parseDocument_eq_some_iff]
  by_cases hs : skipWs s = []
  · -- both are blank, and a blank text has no document
    have hsw : skipWs (s ++ w) = [] :=
      skipWs_eq_nil_iff.mpr ((skipWs_eq_nil_iff.mp hs).append hw)
    rw [hs, hsw]
  · rw [skipWs_append hs]
    constructor
    · rintro ⟨p, r, hsplit, hblank, hends, hloc⟩
      obtain ⟨t, hst, hrt⟩ := hends.split_before hsplit hw.not_visible
      refine ⟨p, t, hst, fun c hc => hblank c ?_, hends, hloc⟩
      rw [hrt]
      exact List.mem_append_left _ hc
    · rintro ⟨p, r, hsplit, hblank, hends, hloc⟩
      exact ⟨p, r ++ w, by rw [hsplit, List.append_assoc], hblank.append hw, hends, hloc⟩

/-- A document has a visible symbol. -/
theorem exists_visible_of_parseDocument {s : List Nat} {v : Value}
    (h : parseDocument dec s = some v) : ∃ c ∈ s, Visible c := by
  obtain ⟨p, r, hsplit, -, ⟨c, hc, hvis⟩, -⟩ := parseDocument_eq_some_iff.mp h
  have hmem : c ∈ skipWs s := by
    rw [hsplit]
    exact List.mem_append_left _ (List.mem_of_mem_getLast? hc)
  exact ⟨c, (List.dropWhile_sublist isWs).mem hmem, hvis⟩

/-- What has no visible symbol after a document is whitespace. -/
theorem blank_of_parseDocument_append {s w : List Nat} {v : Value}
    (h : parseDocument dec (s ++ w) = some v) (hw : ∀ c ∈ w, ¬ Visible c)
    (hs : ∃ c ∈ s, isWs c = false) : Blank w := by
  obtain ⟨p, r, hsplit, hblank, hends, -⟩ := parseDocument_eq_some_iff.mp h
  have hne : skipWs s ≠ [] := by
    rw [Ne, skipWs_eq_nil_iff]
    obtain ⟨c, hc, hnot⟩ := hs
    intro hall
    rw [hall c hc] at hnot
    cases hnot
  rw [skipWs_append hne] at hsplit
  obtain ⟨t, -, hrt⟩ := hends.split_before hsplit hw
  intro c hc
  apply hblank c
  rw [hrt]
  exact List.mem_append_right _ hc

/-- **Nothing follows a document**: a text that goes on after whitespace is none. -/
theorem parseDocument_append_none {s t : List Nat} {v : Value}
    (hs : parseDocument dec s = some v) (hstart : Starts (fun c => isWs c = true) t)
    (ht : ¬ Blank t) : parseDocument dec (s ++ t) = none := by
  obtain ⟨p, r, hsplit, hblank, hends, hloc⟩ := parseDocument_eq_some_iff.mp hs
  have hne : skipWs s ≠ [] := by
    rw [hsplit]
    exact List.append_ne_nil_of_left_ne_nil (List.ne_nil_of_length_pos hends.length_pos) _
  have hlen : p.length ≤ (s ++ t).length + 1 := by
    have hle : (skipWs s).length ≤ s.length := List.length_dropWhile_le _ _
    rw [hsplit, List.length_append] at hle
    rw [List.length_append]
    omega
  have hdelim : Delimits (r ++ t) := .of_ws (hblank.starts.append hstart)
  unfold parseDocument
  rw [skipWs_append hne, hsplit, List.append_assoc, hloc _ _ hlen hdelim]
  have hmore : skipWs (r ++ t) ≠ [] := by
    rw [Ne, skipWs_eq_nil_iff]
    exact fun hall => ht fun c hc => hall c (List.mem_append_right _ hc)
  simp only [hmore, if_false]

end LinuxMaxxing.Lib.Json
