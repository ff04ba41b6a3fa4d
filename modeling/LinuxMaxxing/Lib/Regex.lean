import Mathlib.Data.List.TakeWhile
import Mathlib.Tactic

/-!
# Backtracking Regular Expressions

Regular expressions whose repetitions are of single symbols, with the search of a backtracking
engine: alternatives from left to right, greedy repetitions from the longest, lazy ones from the
shortest, and the first way through wins.

- `Regex`, `Cursor`: expressions with named groups, and a position in a text with the groups so far;
- `search`: the search, with what is still to be matched as its continuation;
- `matchAt`, `matchStart`, `finditer`: the uses of it;
- `search_many_of_disjoint` and the rules around it: how a search goes on when a repetition cannot
  be given back;
- `run`, `Stops`: the runs of a class, and the repetitions that read them;
- `search_many_back`, `beforeLast`: what a repetition is left with when it has to give back.
-/

namespace LinuxMaxxing.Lib

/-- Regular expressions over symbols `α` with groups named by `κ`. -/
inductive Regex (κ α : Type) where
  /-- One symbol of a class. -/
  | symbol (p : α → Bool)
  /-- As many symbols of a class as possible, `[…]*`. -/
  | many (p : α → Bool)
  /-- As few symbols of a class as possible, `[…]*?`. -/
  | fewest (p : α → Bool)
  /-- A condition on the position and on the text that follows. -/
  | assert (p : Nat → List α → Bool)
  | group (key : κ) (r : Regex κ α)
  | seq (a b : Regex κ α)
  | alt (a b : Regex κ α)

namespace Regex

variable {κ α β : Type}

/-- A position, the text from there on, and the groups so far, the last one first. -/
structure Cursor (κ α : Type) where
  pos : Nat
  rest : List α
  groups : List (κ × List α)

/-! ## Expressions -/

/-- The empty expression. -/
def empty : Regex κ α := .assert fun _ _ => true

/-- `r?` -/
def optional (r : Regex κ α) : Regex κ α := .alt r empty

/-- `[…]+` -/
def some₁ (p : α → Bool) : Regex κ α := .seq (.symbol p) (.many p)

/-- `^` -/
def atStart : Regex κ α := .assert fun n _ => n = 0

/-- The end of the text. -/
def atEnd : Regex κ α := .assert fun _ rest => rest.isEmpty

/-- A given text. -/
def literal [DecidableEq α] : List α → Regex κ α
  | [] => empty
  | c :: cs => .seq (.symbol fun d => d = c) (literal cs)

/-- One expression after the other. -/
def sequence : List (Regex κ α) → Regex κ α
  | [] => empty
  | [r] => r
  | r :: rs => .seq r (sequence rs)

/-- The keys of the groups, in the order in which they are opened. -/
def keys : Regex κ α → List κ
  | .symbol _ => []
  | .many _ => []
  | .fewest _ => []
  | .assert _ => []
  | .group key r => key :: r.keys
  | .seq a b => a.keys ++ b.keys
  | .alt a b => a.keys ++ b.keys

/-! ## Search -/

section Search

variable (p : α → Bool) (k : Cursor κ α → Option β)

/-- A greedy repetition: the longest first. -/
def longest (groups : List (κ × List α)) : Nat → List α → Option β
  | n, [] => k ⟨n, [], groups⟩
  | n, c :: r =>
    if p c then (longest groups (n + 1) r).or (k ⟨n, c :: r, groups⟩)
    else k ⟨n, c :: r, groups⟩

/-- A lazy repetition: the shortest first. -/
def shortest (groups : List (κ × List α)) : Nat → List α → Option β
  | n, [] => k ⟨n, [], groups⟩
  | n, c :: r =>
    (k ⟨n, c :: r, groups⟩).or (if p c then shortest groups (n + 1) r else none)

end Search

/-- The first way through the expression with which the continuation succeeds. -/
def search : Regex κ α → (Cursor κ α → Option β) → Cursor κ α → Option β
  | .symbol p, k, cur =>
    match cur.rest with
    | [] => none
    | c :: r => if p c then k ⟨cur.pos + 1, r, cur.groups⟩ else none
  | .many p, k, cur => longest p k cur.groups cur.pos cur.rest
  | .fewest p, k, cur => shortest p k cur.groups cur.pos cur.rest
  | .assert p, k, cur => if p cur.pos cur.rest then k cur else none
  | .group key r, k, cur =>
    search r (fun cur' =>
      k ⟨cur'.pos, cur'.rest, (key, cur.rest.take (cur'.pos - cur.pos)) :: cur'.groups⟩) cur
  | .seq a b, k, cur => search a (search b k) cur
  | .alt a b, k, cur => (search a k cur).or (search b k cur)

/-- A match that starts at this position. -/
def matchAt (r : Regex κ α) (n : Nat) (s : List α) : Option (Cursor κ α) := search r some ⟨n, s, []⟩

/-- `re.match` -/
def matchStart (r : Regex κ α) (s : List α) : Option (Cursor κ α) := matchAt r 0 s

/-- `re.fullmatch` -/
def fullMatch (r : Regex κ α) (s : List α) : Option (Cursor κ α) := matchStart (.seq r atEnd) s

/-- The matches that do not overlap, from left to right, with the position where each starts; for
    an expression that matches no empty text. The first argument is how much of the text the last
    match still covers. -/
def finditer (r : Regex κ α) : Nat → Nat → List α → List (Nat × Cursor κ α)
  | _, _, [] => []
  | covered + 1, n, _ :: s => finditer r covered (n + 1) s
  | 0, n, c :: s =>
    match matchAt r n (c :: s) with
    | some cur => (n, cur) :: finditer r (cur.pos - n - 1) (n + 1) s
    | none => finditer r 0 (n + 1) s

/-! ## Rules -/

section Rules

variable {p : α → Bool} {k : Cursor κ α → Option β} {n : Nat} {s t : List α}
  {g : List (κ × List α)}

@[simp] theorem search_seq (a b : Regex κ α) (cur : Cursor κ α) :
    search (.seq a b) k cur = search a (search b k) cur := rfl

@[simp] theorem search_alt (a b : Regex κ α) (cur : Cursor κ α) :
    search (.alt a b) k cur = (search a k cur).or (search b k cur) := rfl

@[simp] theorem search_group (key : κ) (r : Regex κ α) :
    search (.group key r) k ⟨n, s, g⟩ =
      search r (fun cur => k ⟨cur.pos, cur.rest, (key, s.take (cur.pos - n)) :: cur.groups⟩)
        ⟨n, s, g⟩ := rfl

@[simp] theorem search_symbol_nil : search (.symbol p) k ⟨n, [], g⟩ = none := rfl

@[simp] theorem search_symbol_cons (c : α) :
    search (.symbol p) k ⟨n, c :: s, g⟩ = if p c then k ⟨n + 1, s, g⟩ else none := rfl

@[simp] theorem search_empty (cur : Cursor κ α) : search empty k cur = k cur := rfl

@[simp] theorem search_sequence_cons (r r' : Regex κ α) (rs : List (Regex κ α))
    (cur : Cursor κ α) :
    search (sequence (r :: r' :: rs)) k cur = search r (search (sequence (r' :: rs)) k) cur := rfl

@[simp] theorem search_sequence_singleton (r : Regex κ α) (cur : Cursor κ α) :
    search (sequence [r]) k cur = search r k cur := rfl

@[simp] theorem search_atStart (cur : Cursor κ α) :
    search atStart k cur = if cur.pos = 0 then k cur else none := by
  simp [atStart, search]

/-- A given text is there, or it is not. -/
theorem search_literal_append [DecidableEq α] (text : List α) :
    search (literal text) k ⟨n, text ++ s, g⟩ = k ⟨n + text.length, s, g⟩ := by
  induction text generalizing n with
  | nil => rfl
  | cons c text ih =>
    rw [literal, search_seq, List.cons_append, search_symbol_cons, if_pos (decide_eq_true rfl), ih,
      List.length_cons]
    congr 2
    omega

theorem search_literal_none [DecidableEq α] {text : List α} (h : ¬ text <+: s) :
    search (literal text) k ⟨n, s, g⟩ = none := by
  induction text generalizing n s with
  | nil => exact absurd List.nil_prefix h
  | cons c text ih =>
    rw [literal, search_seq]
    cases s with
    | nil => rfl
    | cons d s =>
      rw [search_symbol_cons]
      split
      · next hd =>
        apply ih
        intro hprefix
        rw [of_decide_eq_true hd] at h
        exact h ((List.prefix_cons_inj c).mpr hprefix)
      · rfl

/-- **A greedy repetition that cannot be given back**: where the rest fails in front of every
    symbol of the class, only the longest repetition counts. -/
theorem search_many_of_disjoint
    (h : ∀ n c r, p c = true → k ⟨n, c :: r, g⟩ = none) :
    search (.many p) k ⟨n, s, g⟩ = k ⟨n + (s.takeWhile p).length, s.dropWhile p, g⟩ := by
  show longest p k g n s = _
  induction s generalizing n with
  | nil => rfl
  | cons c s ih =>
    rw [longest]
    cases hc : p c with
    | false => simp [hc]
    | true =>
      rw [if_pos rfl, h n c s hc, Option.or_none, ih, List.takeWhile_cons_of_pos hc,
        List.dropWhile_cons_of_pos hc, List.length_cons]
      congr 2
      omega

/-- A greedy repetition takes the longest if the rest succeeds behind it. -/
theorem search_many_of_some {b : β}
    (h : k ⟨n + (s.takeWhile p).length, s.dropWhile p, g⟩ = some b) :
    search (.many p) k ⟨n, s, g⟩ = some b := by
  show longest p k g n s = _
  induction s generalizing n with
  | nil => exact h
  | cons c s ih =>
    rw [longest]
    cases hc : p c with
    | false => simpa [hc] using h
    | true =>
      rw [List.takeWhile_cons_of_pos hc, List.dropWhile_cons_of_pos hc, List.length_cons] at h
      rw [if_pos rfl, ih (by rw [← h]; congr 2; omega), Option.some_or]

/-- A greedy repetition fails where the rest fails behind every part of the run. -/
theorem search_many_none
    (h : ∀ a b, s.takeWhile p = a ++ b → k ⟨n + a.length, b ++ s.dropWhile p, g⟩ = none) :
    search (.many p) k ⟨n, s, g⟩ = none := by
  show longest p k g n s = none
  induction s generalizing n with
  | nil => exact h [] [] rfl
  | cons c s ih =>
    rw [longest]
    cases hc : p c with
    | false => simpa [hc] using h [] [] (by simp [hc])
    | true =>
      rw [List.takeWhile_cons_of_pos hc, List.dropWhile_cons_of_pos hc] at h
      have hfirst := h [] (c :: s.takeWhile p) rfl
      rw [List.cons_append, List.takeWhile_append_dropWhile] at hfirst
      rw [if_pos rfl, ih, Option.none_or]
      · exact hfirst
      · intro a b hab
        rw [← h (c :: a) b (by rw [hab, List.cons_append]), List.length_cons]
        congr 2
        omega

end Rules

/-! ## Runs of a class -/

/-- A run of a class, not an empty one, and the text after it. -/
def run (p : α → Bool) (s : List α) : Option (List α × List α) :=
  if s.takeWhile p = [] then none else some (s.takeWhile p, s.dropWhile p)

/-- The text does not go on with a symbol of the class. -/
def Stops (p : α → Bool) (t : List α) : Prop := ∀ c ∈ t.head?, p c = false

theorem stops_nil {p : α → Bool} : Stops p [] := nofun

theorem stops_cons {p : α → Bool} {c : α} {t : List α} (h : p c = false) : Stops p (c :: t) := by
  intro d hd
  obtain rfl := Option.some.inj hd
  exact h

theorem takeWhile_run {p : α → Bool} {s t : List α} (hs : ∀ c ∈ s, p c = true) (ht : Stops p t) :
    (s ++ t).takeWhile p = s ∧ (s ++ t).dropWhile p = t := by
  rw [List.takeWhile_append_of_pos hs, List.dropWhile_append_of_pos hs]
  cases t with
  | nil => simp
  | cons c t =>
    have hc := ht c rfl
    simp [hc]

theorem run_eq_some {p : α → Bool} {s w t : List α} (h : run p s = some (w, t)) :
    s = w ++ t ∧ w ≠ [] ∧ (∀ c ∈ w, p c = true) ∧ Stops p t := by
  unfold run at h
  split at h
  · cases h
  · next hne =>
    obtain ⟨rfl, rfl⟩ := Prod.mk.inj (Option.some.inj h)
    refine ⟨List.takeWhile_append_dropWhile.symm, hne, fun c hc => List.mem_takeWhile_imp hc, ?_⟩
    intro c hc
    have hhead := List.head?_dropWhile_not p s
    rw [Option.mem_def.mp hc] at hhead
    exact hhead

theorem run_append {p : α → Bool} {s t : List α} (hne : s ≠ []) (hs : ∀ c ∈ s, p c = true)
    (ht : Stops p t) : run p (s ++ t) = some (s, t) := by
  unfold run
  rw [(takeWhile_run hs ht).1, (takeWhile_run hs ht).2, if_neg hne]

section Runs

variable {p : α → Bool} {k : Cursor κ α → Option β} {n : Nat} {s t : List α}
  {g : List (κ × List α)}

/-- A greedy repetition over a run that cannot be given back. -/
theorem search_many_run (h : ∀ n c r, p c = true → k ⟨n, c :: r, g⟩ = none)
    (hs : ∀ c ∈ s, p c = true) (ht : Stops p t) :
    search (.many p) k ⟨n, s ++ t, g⟩ = k ⟨n + s.length, t, g⟩ := by
  rw [search_many_of_disjoint h, (takeWhile_run hs ht).1, (takeWhile_run hs ht).2]

/-- A greedy repetition over a run behind which the rest succeeds. -/
theorem search_many_run_some {b : β} (hs : ∀ c ∈ s, p c = true) (ht : Stops p t)
    (h : k ⟨n + s.length, t, g⟩ = some b) : search (.many p) k ⟨n, s ++ t, g⟩ = some b := by
  apply search_many_of_some
  rw [(takeWhile_run hs ht).1, (takeWhile_run hs ht).2]
  exact h

end Runs

/-! ## Matches one after the other -/

section Finditer

variable {r : Regex κ α} {n : Nat} {s t : List α}

theorem finditer_covered (s t : List α) :
    finditer r s.length n (s ++ t) = finditer r 0 (n + s.length) t := by
  induction s generalizing n with
  | nil => rfl
  | cons c s ih =>
    rw [List.cons_append, List.length_cons, finditer, ih]
    congr 1
    omega

/-- A match, and on behind it. -/
theorem finditer_match (hs : s ≠ []) {cur : Cursor κ α} (h : matchAt r n (s ++ t) = some cur)
    (hpos : cur.pos = n + s.length) :
    finditer r 0 n (s ++ t) = (n, cur) :: finditer r 0 (n + s.length) t := by
  cases s with
  | nil => exact absurd rfl hs
  | cons c s =>
    rw [List.cons_append] at h ⊢
    rw [List.length_cons] at hpos ⊢
    have hcovered : cur.pos - n - 1 = s.length := by omega
    rw [finditer, h]
    simp only [hcovered, finditer_covered]
    congr 2
    omega

/-- No match starts in this part of the text. -/
theorem finditer_pass
    (h : ∀ a b, s = a ++ b → b ≠ [] → matchAt r (n + a.length) (b ++ t) = none) :
    finditer r 0 n (s ++ t) = finditer r 0 (n + s.length) t := by
  induction s generalizing n with
  | nil => rfl
  | cons c s ih =>
    have hfirst : matchAt r n (c :: (s ++ t)) = none := h [] (c :: s) rfl (List.cons_ne_nil _ _)
    rw [List.cons_append, finditer, hfirst]
    simp only
    rw [ih, List.length_cons]
    · congr 1
      omega
    · intro a b hab hb
      rw [← h (c :: a) b (by rw [hab, List.cons_append]) hb, List.length_cons]
      congr 1
      omega

end Finditer

/-! ## Giving back -/

section Back

variable {p : α → Bool} {k : Cursor κ α → Option β} {n : Nat} {s t : List α}
  {g : List (κ × List α)}

/-- What a greedy repetition finds from further on, it finds. -/
theorem search_many_append_some {b : β} (hs : ∀ c ∈ s, p c = true)
    (h : search (.many p) k ⟨n + s.length, t, g⟩ = some b) :
    search (.many p) k ⟨n, s ++ t, g⟩ = some b := by
  induction s generalizing n with
  | nil => exact h
  | cons c s ih =>
    rw [List.forall_mem_cons] at hs
    have hnext : longest p k g (n + 1) (s ++ t) = some b := by
      apply ih hs.2
      rw [← h, List.length_cons]
      congr 2
      omega
    show longest p k g n (c :: (s ++ t)) = some b
    rw [longest, if_pos hs.1, hnext, Option.some_or]

/-- A greedy repetition gives one symbol back. -/
theorem search_many_back {b : β} {c : α} (hs : ∀ c ∈ s, p c = true) (hc : p c = true)
    (ht : Stops p t) (hfail : k ⟨n + s.length + 1, t, g⟩ = none)
    (h : k ⟨n + s.length, c :: t, g⟩ = some b) :
    search (.many p) k ⟨n, s ++ c :: t, g⟩ = some b := by
  apply search_many_append_some hs
  show longest p k g (n + s.length) (c :: t) = some b
  have hend : longest p k g (n + s.length + 1) t = none := by
    cases t with
    | nil => exact hfail
    | cons d t => rw [longest, if_neg (by simp [ht d rfl]), hfail]
  rw [longest, if_pos hc, hend, Option.none_or, h]

/-- The text before the last occurrence of a symbol. -/
def beforeLast [DecidableEq α] (d : α) : List α → Option (List α)
  | [] => none
  | c :: s => ((beforeLast d s).map (c :: ·)).or (if c = d then some [] else none)

/-- **A greedy repetition in front of one of its own symbols** ends at the last such symbol of the
    run. -/
theorem search_many_last [DecidableEq α] {d : α} {f : Nat → List α → β} (hd : p d = true)
    (hnil : ∀ m, k ⟨m, [], g⟩ = none)
    (hcons : ∀ m c r, k ⟨m, c :: r, g⟩ = if c = d then some (f m r) else none) :
    search (.many p) k ⟨n, s, g⟩ = (beforeLast d (s.takeWhile p)).map fun x =>
      f (n + x.length) (s.drop (x.length + 1)) := by
  show longest p k g n s = _
  induction s generalizing n with
  | nil => exact hnil n
  | cons c s ih =>
    rw [longest, hcons]
    cases hc : p c with
    | false =>
      have hne : c ≠ d := by
        rintro rfl
        rw [hd] at hc
        cases hc
      -- the run ends here, and its end is not the symbol
      simp [hc, hne, beforeLast]
    | true =>
      rw [if_pos rfl, ih, List.takeWhile_cons_of_pos hc, beforeLast]
      cases beforeLast d (s.takeWhile p) with
      | some x =>
        -- a later one wins
        simp only [Option.map_some, Option.some_or, List.length_cons, List.drop_succ_cons]
        congr 2
        omega
      | none =>
        by_cases hcd : c = d
        · simp [hcd]
        · simp [hcd]

theorem beforeLast_append [DecidableEq α] {d : α} (x : List α) : beforeLast d (x ++ [d]) = some x := by
  induction x with
  | nil => simp [beforeLast]
  | cons c x ih => rw [List.cons_append, beforeLast, ih, Option.map_some, Option.some_or]

theorem beforeLast_prefix [DecidableEq α] {d : α} {s x : List α} (h : beforeLast d s = some x) :
    x <+: s := by
  induction s generalizing x with
  | nil => cases h
  | cons c s ih =>
    rw [beforeLast] at h
    cases hs : beforeLast d s with
    | some y =>
      rw [hs, Option.map_some, Option.some_or] at h
      obtain rfl := Option.some.inj h
      exact (List.prefix_cons_inj c).mpr (ih hs)
    | none =>
      rw [hs, Option.map_none, Option.none_or] at h
      split at h
      · obtain rfl := Option.some.inj h
        exact List.nil_prefix
      · cases h

end Back

/-! ## Groups of a run -/

section Groups

variable {p : α → Bool} {k : Cursor κ α → Option β} {n : Nat} {s t : List α}
  {g : List (κ × List α)} {key : κ} {b : β}

/-- `([…]+)` over a run behind which the rest succeeds. -/
theorem search_group_run_some (hne : s ≠ []) (hs : ∀ c ∈ s, p c = true) (ht : Stops p t)
    (h : k ⟨n + s.length, t, (key, s) :: g⟩ = some b) :
    search (.group key (some₁ p)) k ⟨n, s ++ t, g⟩ = some b := by
  cases s with
  | nil => exact absurd rfl hne
  | cons c s =>
    rw [List.forall_mem_cons] at hs
    rw [search_group, some₁, search_seq, List.cons_append, search_symbol_cons, if_pos hs.1]
    apply search_many_run_some hs.2 ht
    have htake : (c :: (s ++ t)).take (n + 1 + s.length - n) = c :: s := by
      rw [show n + 1 + s.length - n = s.length + 1 by omega, List.take_succ_cons, List.take_left]
    rw [← h]
    simp only [htake, List.length_cons]
    congr 2
    omega

/-- `([…]+)` over a run of which the last symbol is given back. -/
theorem search_group_run_back {c : α} (hne : s ≠ []) (hs : ∀ c ∈ s, p c = true)
    (hc : p c = true) (ht : Stops p t) (hfail : ∀ m g, k ⟨m, t, g⟩ = none)
    (h : k ⟨n + s.length, c :: t, (key, s) :: g⟩ = some b) :
    search (.group key (some₁ p)) k ⟨n, s ++ c :: t, g⟩ = some b := by
  cases s with
  | nil => exact absurd rfl hne
  | cons d s =>
    rw [List.forall_mem_cons] at hs
    rw [search_group, some₁, search_seq, List.cons_append, search_symbol_cons, if_pos hs.1]
    have htake : (d :: (s ++ c :: t)).take (n + 1 + s.length - n) = d :: s := by
      rw [show n + 1 + s.length - n = s.length + 1 by omega, List.take_succ_cons, List.take_left]
    apply search_many_back hs.2 hc ht
    · exact hfail _ _
    · rw [← h]
      simp only [htake, List.length_cons]
      congr 2
      omega

end Groups

/-! ## Runs that cannot be given back -/

section Disjoint

variable {p : α → Bool} {k : Cursor κ α → Option β} {n : Nat} {s : List α}
  {g : List (κ × List α)}

/-- `[…]+` that cannot be given back. -/
theorem search_run (h : ∀ n c r, p c = true → k ⟨n, c :: r, g⟩ = none) :
    search (some₁ p) k ⟨n, s, g⟩ = (run p s).bind fun w => k ⟨n + w.1.length, w.2, g⟩ := by
  rw [some₁, search_seq, run]
  cases s with
  | nil => rfl
  | cons c s =>
    rw [search_symbol_cons]
    cases hc : p c with
    | false => simp [hc]
    | true =>
      rw [if_pos rfl, search_many_of_disjoint h]
      simp only [List.takeWhile_cons_of_pos hc, List.dropWhile_cons_of_pos hc, if_neg
        (List.cons_ne_nil _ _), Option.bind_some, List.length_cons]
      congr 2
      omega

/-- `([…]+)` that cannot be given back. -/
theorem search_group_run {key : κ} (h : ∀ n c r g, p c = true → k ⟨n, c :: r, g⟩ = none) :
    search (.group key (some₁ p)) k ⟨n, s, g⟩ =
      (run p s).bind fun w => k ⟨n + w.1.length, w.2, (key, w.1) :: g⟩ := by
  rw [search_group, search_run]
  · unfold run
    split
    · rfl
    · have htake : s.take (s.takeWhile p).length = s.takeWhile p :=
        (List.prefix_iff_eq_take.mp (List.takeWhile_prefix p)).symm
      simp only [Option.bind_some, Nat.add_sub_cancel_left, htake]
  · intro m c r hc
    exact h m c r _ hc

end Disjoint

end Regex

end LinuxMaxxing.Lib
