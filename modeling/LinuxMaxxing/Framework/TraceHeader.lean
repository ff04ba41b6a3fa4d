import LinuxMaxxing.Framework.Trace

/-!
# The Header of a Trace Line

What `TRACE` reads of a line that the kernel printed. The task's name comes first and is skipped
with a lazy wildcard, so a name can spell a header of its own.

- `readHeader`: what the pattern after the name reads at the start of a text, run by run;
- `firstHeader`: the first header behind a name;
- `reads_headerPattern`: the pattern finds what the functions read;
- `exists_parts`, `readHeader_toText`: the parts of what reads as a header.
-/

namespace LinuxMaxxing.Framework

open LinuxMaxxing.Lib LinuxMaxxing.Common

/-! ## Reading a header -/

/-- What follows a symbol. -/
def after (c : Nat) : Text → Option Text
  | [] => none
  | d :: s => if d = c then some s else none

/-- `(?:\(\s*\d+\)\s+)?` in front of something that is no parenthesis. -/
def readThreadGroup (s : Text) : Option Text :=
  match after 0x28 s with
  | none => some s
  | some s =>
    (Regex.run isDigitSymbol (s.dropWhile isPySpace)).bind fun group =>
      (after 0x29 group.2).bind fun s => (Regex.run isPySpace s).map Prod.snd

/-- `(\d+\.\d+)` -/
def readSeconds (s : Text) : Option (Text × Text) :=
  (Regex.run isDigitSymbol s).bind fun whole =>
    (after 0x2e whole.2).bind fun s =>
      (Regex.run isDigitSymbol s).map fun fraction =>
        (whole.1 ++ 0x2e :: fraction.1, fraction.2)

/-- `(.*)$` -/
def readDetail (s : Text) : Option Text :=
  if s.dropWhile isDot = [] ∨ s.dropWhile isDot = [0x0a] then some (s.takeWhile isDot) else none

/-- The numbers of a header, and the detail behind it. -/
structure Numbers where
  tid : Text
  cpu : Text
  seconds : Text
  detail : Text
  deriving DecidableEq, Repr

/-- `-(\d+)\s+(?:\(\s*\d+\)\s+)?\[(\d+)\]\s+\S+\s+(\d+\.\d+):\s+(.*)$` at the start of a text. -/
def readHeader (s : Text) : Option Numbers :=
  (after 0x2d s).bind fun s =>
  (Regex.run isDigitSymbol s).bind fun tid =>
  (Regex.run isPySpace tid.2).bind fun blanks =>
  (readThreadGroup blanks.2).bind fun s =>
  (after 0x5b s).bind fun s =>
  (Regex.run isDigitSymbol s).bind fun cpu =>
  (after 0x5d cpu.2).bind fun s =>
  (Regex.run isPySpace s).bind fun blanks =>
  (Regex.run isVisible blanks.2).bind fun flags =>
  (Regex.run isPySpace flags.2).bind fun blanks =>
  (readSeconds blanks.2).bind fun seconds =>
  (after 0x3a seconds.2).bind fun s =>
  (Regex.run isPySpace s).bind fun blanks =>
  (readDetail blanks.2).map fun detail => ⟨tid.1, cpu.1, seconds.1, detail⟩

/-- The first header behind a name: what of the name comes before it, and its numbers. -/
def firstHeader : Text → Option (Text × Numbers)
  | [] => none
  | c :: s =>
    ((readHeader (c :: s)).map fun numbers => ([], numbers)).or
      (if isDot c then (firstHeader s).map fun found => (c :: found.1, found.2) else none)

/-! ## The pattern reads the same -/

theorem isDigitSymbol_space {c : Nat} (h : isDigitSymbol c = true) : isPySpace c = false := by
  have hall : ∀ z ∈ decimalZeros, ∀ i < 10, isPySpace (z + i) = false := by decide +kernel
  rw [isDigitSymbol, digitValue, Option.isSome_map, List.find?_isSome] at h
  obtain ⟨z, hz, hrange⟩ := h
  simp only [Bool.and_eq_true, decide_eq_true_eq] at hrange
  have hc := hall z hz (c - z) (by omega)
  rwa [Nat.add_sub_cancel' hrange.1] at hc

theorem isDigitSymbol_of_space {c : Nat} (h : isPySpace c = true) : isDigitSymbol c = false := by
  by_contra hdigit
  rw [isDigitSymbol_space (Bool.of_not_eq_false hdigit)] at h
  cases h

section Search

variable {β : Type} {k : Regex.Cursor Nat Nat → Option β} {n : Nat} {s : Text}
  {g : List (Nat × Text)}

theorem search_after {symbol : String} {c : Nat} (htext : text symbol = [c]) :
    Regex.search (lit symbol) k ⟨n, s, g⟩ = (after c s).bind fun t => k ⟨n + 1, t, g⟩ := by
  rw [lit, htext]
  cases s with
  | nil => rfl
  | cons d s =>
    show (if decide (d = c) = true then k ⟨n + 1, s, g⟩ else none) = _
    rw [after]
    by_cases hd : d = c
    · simp [hd]
    · simp [hd]

/-- A symbol fails in front of every symbol of a class to which it does not belong. -/
theorem search_after_none {symbol : String} {c : Nat} (htext : text symbol = [c]) {p : Nat → Bool}
    (hc : p c = false) {d : Nat} (hd : p d = true) :
    Regex.search (lit symbol) k ⟨n, d :: s, g⟩ = none := by
  have hne : d ≠ c := by
    rintro rfl
    rw [hc] at hd
    cases hd
  rw [search_after htext, after, if_neg hne, Option.bind_none]

theorem search_run_none {p : Nat → Bool} {d : Nat} (hd : p d = false) :
    Regex.search (Regex.some₁ p) k ⟨n, d :: s, g⟩ = none := by
  rw [Regex.some₁, Regex.search_seq, Regex.search_symbol_cons, hd]
  rfl

end Search

/-- The groups that a pattern finds are those that the function reads. -/
def Reads (r : Regex Nat Nat) (f : Text → Option (List (Nat × Text))) : Prop :=
  ∀ n s g, (Regex.search r some ⟨n, s, g⟩).map Regex.Cursor.groups = (f s).map (· ++ g)

/-- The pattern matches nothing that starts with a symbol of the class. -/
def Fails (r : Regex Nat Nat) (p : Nat → Bool) : Prop :=
  ∀ n c s g, p c = true → Regex.search r (some : Regex.Cursor Nat Nat → _) ⟨n, c :: s, g⟩ = none

section Reads

variable {r : Regex Nat Nat} {rs : List (Regex Nat Nat)} {f : Text → Option (List (Nat × Text))}
  {p : Nat → Bool}

theorem fails_after {symbol : String} {c : Nat} (htext : text symbol = [c]) (hc : p c = false) :
    Fails (Regex.sequence (lit symbol :: r :: rs)) p := by
  intro n d s g hd
  rw [Regex.search_sequence_cons]
  exact search_after_none htext hc hd

theorem fails_run {q : Nat → Bool} (h : ∀ c, p c = true → q c = false) :
    Fails (Regex.sequence (Regex.some₁ q :: r :: rs)) p := by
  intro n d s g hd
  rw [Regex.search_sequence_cons]
  exact search_run_none (h d hd)

theorem reads_after {symbol : String} {c : Nat} (htext : text symbol = [c])
    (h : Reads (Regex.sequence (r :: rs)) f) :
    Reads (Regex.sequence (lit symbol :: r :: rs)) fun s => (after c s).bind f := by
  intro n s g
  beta_reduce
  rw [Regex.search_sequence_cons, search_after htext]
  cases after c s with
  | none => rfl
  | some t => exact h (n + 1) t g

theorem reads_run (hfails : Fails (Regex.sequence (r :: rs)) p)
    (h : Reads (Regex.sequence (r :: rs)) f) :
    Reads (Regex.sequence (Regex.some₁ p :: r :: rs)) fun s =>
      (Regex.run p s).bind fun w => f w.2 := by
  intro n s g
  beta_reduce
  rw [Regex.search_sequence_cons, Regex.search_run]
  · cases Regex.run p s with
    | none => rfl
    | some w => exact h _ w.2 g
  · intro m c t hc
    exact hfails m c t g hc

theorem reads_group (key : Nat) (hfails : Fails (Regex.sequence (r :: rs)) p)
    (h : Reads (Regex.sequence (r :: rs)) f) :
    Reads (Regex.sequence (.group key (Regex.some₁ p) :: r :: rs)) fun s =>
      (Regex.run p s).bind fun w => (f w.2).map (· ++ [(key, w.1)]) := by
  intro n s g
  beta_reduce
  rw [Regex.search_sequence_cons, Regex.search_group_run]
  · cases Regex.run p s with
    | none => rfl
    | some w =>
      rw [Option.bind_some, h, Option.bind_some, Option.map_map]
      congr 1
      funext groups
      simp
  · intro m c t g hc
    exact hfails m c t g hc

theorem after_of_ne {c d : Nat} (h : d ≠ c) (s : Text) : after c (d :: s) = none := if_neg h

theorem reads_threadGroup (hspace : Fails (Regex.sequence (r :: rs)) isPySpace)
    (hparen : Fails (Regex.sequence (r :: rs)) fun c => c = 0x28)
    (h : Reads (Regex.sequence (r :: rs)) f) :
    Reads (Regex.sequence (threadGroup :: r :: rs)) fun s => (readThreadGroup s).bind f := by
  intro n s g
  beta_reduce
  rw [Regex.search_sequence_cons, threadGroup, Regex.optional, Regex.search_alt,
    Regex.search_empty, Regex.search_sequence_cons, search_after (c := 0x28) rfl, readThreadGroup]
  cases hs : after 0x28 s with
  | none => exact h n s g
  | some t =>
    -- without the group, the parenthesis would have to be something else
    have hnot : Regex.search (Regex.sequence (r :: rs)) some ⟨n, s, g⟩ = none := by
      cases s with
      | nil => cases hs
      | cons c s =>
        refine hparen n c s g (decide_eq_true ?_)
        by_contra hne
        rw [after_of_ne hne] at hs
        cases hs
    rw [hnot, Option.or_none, Option.bind_some, Regex.search_sequence_cons,
      Regex.search_many_of_disjoint, Regex.search_sequence_cons, Regex.search_run]
    · simp only
      cases Regex.run isDigitSymbol (t.dropWhile isPySpace) with
      | none => rfl
      | some group =>
        rw [Option.bind_some, Option.bind_some, Regex.search_sequence_cons,
          search_after (c := 0x29) rfl]
        cases after 0x29 group.2 with
        | none => rfl
        | some u =>
          rw [Option.bind_some, Option.bind_some, Regex.search_sequence_singleton,
            Regex.search_run]
          · cases Regex.run isPySpace u with
            | none => rfl
            | some blanks => exact h _ blanks.2 g
          · intro m c v hc
            exact hspace m c v g hc
    · intro m c v hc
      rw [Regex.search_sequence_cons]
      refine search_after_none (c := 0x29) rfl (p := isDigitSymbol) (by decide) hc
    · intro m c v hc
      rw [Regex.search_sequence_cons]
      exact search_run_none (isDigitSymbol_of_space hc)

theorem reads_seconds (hfails : Fails (Regex.sequence (r :: rs)) isDigitSymbol)
    (h : Reads (Regex.sequence (r :: rs)) f) :
    Reads (Regex.sequence (.group 4 (Regex.sequence [Regex.some₁ isDigitSymbol, lit ".",
      Regex.some₁ isDigitSymbol]) :: r :: rs)) fun s =>
      (readSeconds s).bind fun w => (f w.2).map (· ++ [(4, w.1)]) := by
  intro n s g
  beta_reduce
  rw [Regex.search_sequence_cons, Regex.search_group, Regex.search_sequence_cons, Regex.search_run,
    readSeconds]
  · cases hwhole : Regex.run isDigitSymbol s with
    | none => rfl
    | some whole =>
      rw [Option.bind_some, Option.bind_some, Regex.search_sequence_cons,
        search_after (c := 0x2e) rfl]
      cases hpoint : after 0x2e whole.2 with
      | none => rfl
      | some t =>
        rw [Option.bind_some, Option.bind_some, Regex.search_sequence_singleton, Regex.search_run]
        · cases hfraction : Regex.run isDigitSymbol t with
          | none => rfl
          | some fraction =>
            -- the group is what was read since its start
            have htext : s = (whole.1 ++ 0x2e :: fraction.1) ++ fraction.2 := by
              have ht : whole.2 = 0x2e :: t := by
                cases hrest : whole.2 with
                | nil => rw [hrest] at hpoint; cases hpoint
                | cons c u =>
                  rw [hrest, after] at hpoint
                  split at hpoint
                  · next hc =>
                    cases hpoint
                    rw [hc]
                  · cases hpoint
              rw [(Regex.run_eq_some hwhole).1, ht, (Regex.run_eq_some hfraction).1]
              simp
            have htake : s.take (n + whole.1.length + 1 + fraction.1.length - n) =
                whole.1 ++ 0x2e :: fraction.1 := by
              have hlength : n + whole.1.length + 1 + fraction.1.length - n =
                  (whole.1 ++ 0x2e :: fraction.1).length := by
                simp only [List.length_append, List.length_cons]
                omega
              rw [hlength, htext, List.take_left]
            simp only [Option.bind_some, Option.map_some, htake]
            rw [h, Option.map_map]
            congr 1
            funext groups
            simp
        · intro m c u hc
          exact hfails m c u _ hc
  · intro m c t hc
    rw [Regex.search_sequence_cons]
    exact search_after_none (c := 0x2e) rfl (p := isDigitSymbol) (by decide) hc

/-- A detail with more text in front of it is one only if it is one itself. -/
theorem exists_of_readDetail_append {b t d : Text} (h : readDetail (b ++ t) = some d) :
    ∃ d', readDetail t = some d' := by
  induction b generalizing d with
  | nil => exact ⟨d, h⟩
  | cons c b ih =>
    rw [List.cons_append, readDetail] at h
    cases hc : isDot c with
    | true =>
      rw [List.dropWhile_cons_of_pos hc, List.takeWhile_cons_of_pos hc] at h
      split at h
      · next hend => exact ih (if_pos hend)
      · cases h
    | false =>
      rw [List.dropWhile_cons_of_neg (by simp [hc])] at h
      split at h
      · next hend =>
        rcases hend with hend | hend
        · cases hend
        · have ht := (List.append_eq_nil_iff.mp (List.cons.inj hend).2).2
          exact ⟨[], by rw [ht]; rfl⟩
      · cases h

theorem search_detail (n : Nat) (s : Text) (g : List (Nat × Text)) :
    Regex.search (Regex.sequence [.group 5 (.many isDot), endOfLine]) some ⟨n, s, g⟩ =
      (readDetail s).map fun d => ⟨n + d.length, s.dropWhile isDot, (5, d) :: g⟩ := by
  rw [Regex.search_sequence_cons, Regex.search_group, Regex.search_many_of_disjoint]
  · have htake : s.take (n + (s.takeWhile isDot).length - n) = s.takeWhile isDot := by
      rw [Nat.add_sub_cancel_left]
      exact (List.prefix_iff_eq_take.mp (List.takeWhile_prefix isDot)).symm
    simp only [htake, Regex.search_sequence_singleton, endOfLine, Regex.search, readDetail]
    split <;> simp_all
  · intro m c r hc
    have hne : c ≠ 0x0a := of_decide_eq_true hc
    simp [Regex.search_sequence_singleton, endOfLine, Regex.search, hne]

theorem reads_detail :
    Reads (Regex.sequence [Regex.some₁ isPySpace, .group 5 (.many isDot), endOfLine]) fun s =>
      (Regex.run isPySpace s).bind fun w => (readDetail w.2).map fun d => [(5, d)] := by
  intro n s g
  beta_reduce
  rw [Regex.search_sequence_cons, Regex.some₁, Regex.search_seq]
  cases s with
  | nil => rfl
  | cons c s =>
    rw [Regex.search_symbol_cons]
    cases hc : isPySpace c with
    | false => simp [Regex.run, hc]
    | true =>
      have hrun : Regex.run isPySpace (c :: s) =
          some (c :: s.takeWhile isPySpace, s.dropWhile isPySpace) := by
        rw [Regex.run, List.takeWhile_cons_of_pos hc, List.dropWhile_cons_of_pos hc,
          if_neg (List.cons_ne_nil _ _)]
      rw [if_pos rfl, hrun, Option.bind_some]
      cases hdetail : readDetail (s.dropWhile isPySpace) with
      | some d =>
        rw [Regex.search_many_of_some ((search_detail _ _ _).trans (by rw [hdetail]; rfl))]
        rfl
      | none =>
        rw [Regex.search_many_none]
        · rfl
        · intro a b _
          rw [search_detail, Option.map_eq_none_iff, Option.eq_none_iff_forall_ne_some]
          intro d hd
          obtain ⟨d', hd'⟩ := exists_of_readDetail_append hd
          rw [hdetail] at hd'
          cases hd'

/-- The groups of a header, the last one first. -/
def Numbers.groups (numbers : Numbers) : List (Nat × Text) :=
  [(5, numbers.detail), (4, numbers.seconds), (3, numbers.cpu), (2, numbers.tid)]

/-- **The pattern reads what the function reads**: none of its runs can be given back. -/
theorem reads_headerPattern :
    Reads headerPattern fun s => (readHeader s).map Numbers.groups := by
  have hseconds : ∀ {r : Regex Nat Nat} {rs : List (Regex Nat Nat)}, Fails (Regex.sequence
      (.group 4 (Regex.sequence [Regex.some₁ isDigitSymbol, lit ".", Regex.some₁ isDigitSymbol]) ::
        r :: rs)) isPySpace := by
    intro r rs n c s g hc
    rw [Regex.search_sequence_cons, Regex.search_group, Regex.search_sequence_cons]
    exact search_run_none (isDigitSymbol_of_space hc)
  have hthread : ∀ {rs : List (Regex Nat Nat)} {r : Regex Nat Nat}, Fails (Regex.sequence
      (threadGroup :: lit "[" :: r :: rs)) isPySpace := by
    intro rs r n c s g hc
    rw [Regex.search_sequence_cons, threadGroup, Regex.optional, Regex.search_alt,
      Regex.search_empty, Regex.search_sequence_cons,
      search_after_none (c := 0x28) rfl (p := isPySpace) (by decide) hc, Option.none_or,
      Regex.search_sequence_cons, search_after_none (c := 0x5b) rfl (p := isPySpace) (by decide) hc]
  -- from the detail back to the dash, one piece after the other
  have hcolon := reads_after (show text ":" = [0x3a] from rfl) reads_detail
  have htime := reads_seconds (fails_after (show text ":" = [0x3a] from rfl) (by decide)) hcolon
  have hflags := reads_run (fails_run fun c hc => space_of_isVisible hc) (reads_run hseconds htime)
  have hbracket := reads_after (show text "]" = [0x5d] from rfl)
    (reads_run (fails_run fun c hc => isVisible_of_space hc) hflags)
  have hcpu := reads_group 3 (p := isDigitSymbol)
    (fails_after (show text "]" = [0x5d] from rfl) (by decide)) hbracket
  have hthreads := reads_threadGroup
    (fails_after (show text "[" = [0x5b] from rfl) (by decide))
    (fails_after (show text "[" = [0x5b] from rfl) (by decide))
    (reads_after (show text "[" = [0x5b] from rfl) hcpu)
  have htid := reads_group 2 (fails_run fun c hc => isDigitSymbol_space hc)
    (reads_run hthread hthreads)
  have hdash := reads_after (show text "-" = [0x2d] from rfl) htid
  intro n s g
  refine (hdash n s g).trans ?_
  simp only [readHeader, Numbers.groups, Option.map_bind, Option.map_map, Function.comp_def,
    List.cons_append, List.nil_append]

end Reads

/-! ## The parts of a header -/

/-- The runs of a header from its dash on, and what follows it. -/
structure HeaderParts where
  tid : Text
  blanks₁ : Text
  group : Text
  cpu : Text
  blanks₂ : Text
  flags : Text
  blanks₃ : Text
  whole : Text
  fraction : Text
  blanks₄ : Text
  rest : Text

/-- A run of a class, not an empty one. -/
def IsRun (p : Nat → Bool) (s : Text) : Prop := s ≠ [] ∧ ∀ c ∈ s, p c = true

namespace HeaderParts

/-- Up to the flags. -/
def front (parts : HeaderParts) : Text :=
  parts.tid ++ (parts.blanks₁ ++ (parts.group ++ 0x5b :: (parts.cpu ++ 0x5d :: parts.blanks₂)))

/-- From the flags to the detail. -/
def back (parts : HeaderParts) : Text :=
  parts.blanks₃ ++ (parts.whole ++ 0x2e :: (parts.fraction ++ 0x3a :: parts.blanks₄))

def toText (parts : HeaderParts) : Text :=
  0x2d :: (parts.front ++ (parts.flags ++ (parts.back ++ parts.rest)))

/-- The parts are a header with these numbers. -/
structure Valid (parts : HeaderParts) (numbers : Numbers) : Prop where
  tid : IsRun isDigitSymbol parts.tid
  blanks₁ : IsRun isPySpace parts.blanks₁
  group : parts.group = [] ∨ ∃ t, parts.group = 0x28 :: t
  group_dash : 0x2d ∉ parts.group
  cpu : IsRun isDigitSymbol parts.cpu
  blanks₂ : IsRun isPySpace parts.blanks₂
  flags : IsRun isVisible parts.flags
  blanks₃ : IsRun isPySpace parts.blanks₃
  whole : IsRun isDigitSymbol parts.whole
  fraction : IsRun isDigitSymbol parts.fraction
  blanks₄ : IsRun isPySpace parts.blanks₄
  numbers_eq : numbers =
    ⟨parts.tid, parts.cpu, parts.whole ++ 0x2e :: parts.fraction, numbers.detail⟩
  detail : readDetail parts.rest = some numbers.detail

end HeaderParts

theorem after_eq_some {c : Nat} {s t : Text} (h : after c s = some t) : s = c :: t := by
  cases s with
  | nil => cases h
  | cons d s =>
    rw [after] at h
    split at h
    · next hd =>
      cases h
      rw [hd]
    · cases h

theorem isRun_of_run {p : Nat → Bool} {s : Text} {w : Text × Text} (h : Regex.run p s = some w) :
    s = w.1 ++ w.2 ∧ IsRun p w.1 := by
  obtain ⟨heq, hne, hall, -⟩ := Regex.run_eq_some h
  exact ⟨heq, hne, hall⟩

theorem not_mem_run {p : Nat → Bool} {s : Text} {c : Nat} (h : IsRun p s) (hc : p c = false) :
    c ∉ s := by
  intro hmem
  rw [h.2 c hmem] at hc
  cases hc

theorem readThreadGroup_eq_some {s t : Text} (h : readThreadGroup s = some t) :
    ∃ group, s = group ++ t ∧ (group = [] ∨ ∃ u, group = 0x28 :: u) ∧ 0x2d ∉ group := by
  unfold readThreadGroup at h
  split at h
  · cases h
    exact ⟨[], rfl, .inl rfl, List.not_mem_nil⟩
  · next s' hparen =>
    obtain rfl := after_eq_some hparen
    obtain ⟨number, hnumber, h⟩ := Option.bind_eq_some_iff.mp h
    obtain ⟨u, hclose, h⟩ := Option.bind_eq_some_iff.mp h
    obtain ⟨blanks, hblanks, rfl⟩ := Option.map_eq_some_iff.mp h
    obtain ⟨hnumber_eq, hnumber⟩ := isRun_of_run hnumber
    obtain ⟨rfl, hblanks_run⟩ := isRun_of_run hblanks
    have hclose_eq := after_eq_some hclose
    refine ⟨0x28 :: (s'.takeWhile isPySpace ++ (number.1 ++ 0x29 :: blanks.1)), ?_,
      .inr ⟨_, rfl⟩, ?_⟩
    · have hs' : s' = s'.takeWhile isPySpace ++ (number.1 ++ 0x29 :: (blanks.1 ++ blanks.2)) := by
        rw [← hclose_eq, ← hnumber_eq, List.takeWhile_append_dropWhile]
      conv_lhs => rw [hs']
      simp
    · simp only [List.mem_cons, List.mem_append, not_or]
      refine ⟨by decide, fun hmem => ?_, not_mem_run hnumber (by decide), by decide,
        not_mem_run hblanks_run (by decide)⟩
      exact absurd (List.mem_takeWhile_imp hmem) (by decide)

theorem readSeconds_eq_some {s : Text} {w : Text × Text} (h : readSeconds s = some w) :
    ∃ whole fraction, s = whole ++ 0x2e :: (fraction ++ w.2) ∧ IsRun isDigitSymbol whole ∧
      IsRun isDigitSymbol fraction ∧ w.1 = whole ++ 0x2e :: fraction := by
  unfold readSeconds at h
  obtain ⟨whole, hwhole, h⟩ := Option.bind_eq_some_iff.mp h
  obtain ⟨t, hpoint, h⟩ := Option.bind_eq_some_iff.mp h
  obtain ⟨fraction, hfraction, rfl⟩ := Option.map_eq_some_iff.mp h
  obtain ⟨rfl, hwhole_run⟩ := isRun_of_run hwhole
  obtain ⟨rfl, hfraction_run⟩ := isRun_of_run hfraction
  refine ⟨whole.1, fraction.1, ?_, hwhole_run, hfraction_run, rfl⟩
  rw [after_eq_some hpoint]

/-- **What reads as a header has its parts.** -/
theorem exists_parts {s : Text} {numbers : Numbers} (h : readHeader s = some numbers) :
    ∃ parts : HeaderParts, s = parts.toText ∧ parts.Valid numbers := by
  unfold readHeader at h
  obtain ⟨s₁, hdash, h⟩ := Option.bind_eq_some_iff.mp h
  obtain ⟨tid, htid, h⟩ := Option.bind_eq_some_iff.mp h
  obtain ⟨blanks₁, hblanks₁, h⟩ := Option.bind_eq_some_iff.mp h
  obtain ⟨s₂, hgroup, h⟩ := Option.bind_eq_some_iff.mp h
  obtain ⟨s₃, hopen, h⟩ := Option.bind_eq_some_iff.mp h
  obtain ⟨cpu, hcpu, h⟩ := Option.bind_eq_some_iff.mp h
  obtain ⟨s₄, hclose, h⟩ := Option.bind_eq_some_iff.mp h
  obtain ⟨blanks₂, hblanks₂, h⟩ := Option.bind_eq_some_iff.mp h
  obtain ⟨flags, hflags, h⟩ := Option.bind_eq_some_iff.mp h
  obtain ⟨blanks₃, hblanks₃, h⟩ := Option.bind_eq_some_iff.mp h
  obtain ⟨seconds, hseconds, h⟩ := Option.bind_eq_some_iff.mp h
  obtain ⟨s₅, hcolon, h⟩ := Option.bind_eq_some_iff.mp h
  obtain ⟨blanks₄, hblanks₄, h⟩ := Option.bind_eq_some_iff.mp h
  obtain ⟨detail, hdetail, rfl⟩ := Option.map_eq_some_iff.mp h
  -- every reader consumes what it gives back
  obtain rfl := after_eq_some hdash
  obtain ⟨rfl, htid_run⟩ := isRun_of_run htid
  obtain ⟨htid_eq, hblanks₁_run⟩ := isRun_of_run hblanks₁
  obtain ⟨group, hgroup_eq, hgroup_paren, hgroup_dash⟩ := readThreadGroup_eq_some hgroup
  obtain rfl := after_eq_some hopen
  obtain ⟨rfl, hcpu_run⟩ := isRun_of_run hcpu
  have hclose_eq := after_eq_some hclose
  obtain ⟨rfl, hblanks₂_run⟩ := isRun_of_run hblanks₂
  obtain ⟨hblanks₂_eq, hflags_run⟩ := isRun_of_run hflags
  obtain ⟨hflags_eq, hblanks₃_run⟩ := isRun_of_run hblanks₃
  obtain ⟨whole, fraction, hblanks₃_eq, hwhole, hfraction, hseconds_eq⟩ :=
    readSeconds_eq_some hseconds
  have hcolon_eq := after_eq_some hcolon
  obtain ⟨rfl, hblanks₄_run⟩ := isRun_of_run hblanks₄
  refine ⟨⟨tid.1, blanks₁.1, group, cpu.1, blanks₂.1, flags.1, blanks₃.1, whole, fraction,
    blanks₄.1, blanks₄.2⟩, ?_, ⟨htid_run, hblanks₁_run, hgroup_paren, hgroup_dash, hcpu_run,
      hblanks₂_run, hflags_run, hblanks₃_run, hwhole, hfraction, hblanks₄_run, ?_, hdetail⟩⟩
  · rw [htid_eq, hgroup_eq, hclose_eq, hblanks₂_eq, hflags_eq, hblanks₃_eq, hcolon_eq]
    simp [HeaderParts.toText, HeaderParts.front, HeaderParts.back]
  · rw [hseconds_eq]

theorem isRun_stops {p q : Nat → Bool} {s : Text} (h : IsRun p s)
    (hpq : ∀ c, p c = true → q c = false) (t : Text) : Regex.Stops q (s ++ t) := by
  obtain ⟨c, s', rfl⟩ := List.exists_cons_of_ne_nil h.1
  exact Regex.stops_cons (hpq c (h.2 c List.mem_cons_self))

theorem after_cons (c : Nat) (s : Text) : after c (c :: s) = some s := if_pos rfl

theorem run_isRun {p : Nat → Bool} {s t : Text} (h : IsRun p s) (ht : Regex.Stops p t) :
    Regex.run p (s ++ t) = some (s, t) := Regex.run_append h.1 h.2 ht

theorem isVisible_of_isDigitSymbol {c : Nat} (h : isDigitSymbol c = true) : isVisible c = true := by
  rw [isVisible, isDigitSymbol_space h]
  rfl

/-- **Parts without a thread group read as a header.** -/
theorem readHeader_toText {parts : HeaderParts} {numbers : Numbers} (h : parts.Valid numbers)
    (hgroup : parts.group = []) (hrest : Regex.Stops isPySpace parts.rest) :
    readHeader parts.toText = some numbers := by
  have htext : parts.toText = 0x2d :: (parts.tid ++ (parts.blanks₁ ++ 0x5b :: (parts.cpu ++
      0x5d :: (parts.blanks₂ ++ (parts.flags ++ (parts.blanks₃ ++ (parts.whole ++ 0x2e ::
        (parts.fraction ++ 0x3a :: (parts.blanks₄ ++ parts.rest))))))))) := by
    simp [HeaderParts.toText, HeaderParts.front, HeaderParts.back, hgroup]
  have hseconds : readSeconds (parts.whole ++ 0x2e :: (parts.fraction ++ 0x3a ::
      (parts.blanks₄ ++ parts.rest))) =
      some (parts.whole ++ 0x2e :: parts.fraction, 0x3a :: (parts.blanks₄ ++ parts.rest)) := by
    rw [readSeconds, run_isRun h.whole (Regex.stops_cons (by decide)), Option.bind_some, after_cons,
      Option.bind_some, run_isRun h.fraction (Regex.stops_cons (by decide)), Option.map_some]
  have hthread : ∀ t, readThreadGroup (0x5b :: t) = some (0x5b :: t) := fun _ => rfl
  rw [htext, readHeader, after_cons, Option.bind_some,
    run_isRun h.tid (isRun_stops h.blanks₁ (fun c hc => isDigitSymbol_of_space hc) _),
    Option.bind_some, run_isRun h.blanks₁ (Regex.stops_cons (by decide)), Option.bind_some, hthread,
    Option.bind_some, after_cons, Option.bind_some,
    run_isRun h.cpu (Regex.stops_cons (by decide)), Option.bind_some, after_cons, Option.bind_some,
    run_isRun h.blanks₂ (isRun_stops h.flags (fun c hc => space_of_isVisible hc) _), Option.bind_some,
    run_isRun h.flags (isRun_stops h.blanks₃ (fun c hc => isVisible_of_space hc) _), Option.bind_some,
    run_isRun h.blanks₃ (isRun_stops h.whole (fun c hc => isDigitSymbol_space hc) _),
    Option.bind_some, hseconds, Option.bind_some, after_cons, Option.bind_some,
    run_isRun h.blanks₄ hrest, Option.bind_some, h.detail, Option.map_some, h.numbers_eq]

/-! ## The name -/

/-- The header with these numbers behind a name. -/
def Numbers.header (numbers : Numbers) (comm : Text) : Header :=
  ⟨comm, numbers.tid, numbers.cpu, numbers.seconds, numbers.detail⟩

section Name

variable {s : Text}

/-- The lazy wildcard stops at the first header; `done` is what of the name it has passed. -/
theorem shortest_name (n : Nat) (done s : Text) :
    (Regex.shortest isDot (fun cur => Regex.search headerPattern some
      ⟨cur.pos, cur.rest, (1, (done ++ s).take (cur.pos - n)) :: cur.groups⟩) [] (n + done.length)
      s).map Regex.Cursor.groups =
      (firstHeader s).map fun found => found.2.groups ++ [(1, done ++ found.1)] := by
  have htake : (done ++ s).take (n + done.length - n) = done := by
    rw [Nat.add_sub_cancel_left, List.take_left]
  induction s generalizing done with
  | nil =>
    rw [Regex.shortest, reads_headerPattern]
    rfl
  | cons c s ih =>
    have hhead := reads_headerPattern (n + done.length) (c :: s) [(1, done)]
    rw [Regex.shortest, firstHeader, htake]
    cases hread : readHeader (c :: s) with
    | some numbers =>
      -- a header here: the name ends
      simp only [hread, Option.map_some] at hhead
      obtain ⟨cur, hcur, hgroups⟩ := Option.map_eq_some_iff.mp hhead
      rw [hcur, Option.some_or, Option.map_some, hgroups]
      simp
    | none =>
      -- no header here: the name has one symbol more, if it is no line feed
      simp only [hread, Option.map_none, Option.map_eq_none_iff] at hhead
      rw [hhead, Option.none_or, Option.map_none, Option.none_or]
      cases hdot : isDot c with
      | false => rfl
      | true =>
        have hnext := ih (done ++ [c]) (by
          rw [Nat.add_sub_cancel_left, List.take_left])
        simp only [List.append_assoc, List.cons_append, List.nil_append, List.length_append,
          List.length_singleton, ← Nat.add_assoc] at hnext
        rw [if_pos rfl, if_pos rfl, hnext, Option.map_map]
        rfl

/-- A name of at least one symbol, and the first header behind it. -/
theorem search_name (n c : Nat) (s : Text) :
    (Regex.search (.seq (.group 1 (.seq (.symbol isDot) (.fewest isDot))) headerPattern) some
      ⟨n, c :: s, []⟩).map Regex.Cursor.groups =
      if isDot c then (firstHeader s).map fun found => found.2.groups ++ [(1, c :: found.1)]
      else none := by
  rw [Regex.search_seq, Regex.search_group, Regex.search_seq, Regex.search_symbol_cons]
  cases hdot : isDot c with
  | false => rfl
  | true =>
    rw [if_pos rfl, if_pos rfl]
    exact shortest_name n [c] s

/-- What `TRACE` says of its groups. -/
theorem traceHeader_of_groups {line comm : Text} {numbers : Numbers} {cur : Regex.Cursor Nat Nat}
    (hcur : tracePattern.matchStart line = some cur)
    (hgroups : cur.groups = numbers.groups ++ [(1, comm)]) :
    traceHeader line = some (numbers.header comm) := by
  simp only [traceHeader, hcur, Option.map_some, groupOf, hgroups]
  rfl

variable {lead : Text}

theorem isDot_of_isVisible {c : Nat} (h : isVisible c = true) : isDot c = true := by
  apply decide_eq_true
  rintro rfl
  cases h

/-- **A name with a visible symbol** goes up to the first header behind that symbol. -/
theorem traceHeader_visible (hlead : ∀ c ∈ lead, isPySpace c = true) {c : Nat}
    (hc : isVisible c = true) {found : Text × Numbers} (h : firstHeader s = some found) :
    traceHeader (lead ++ c :: s) = some (found.2.header (c :: found.1)) := by
  have hsearch := search_name (0 + lead.length) c s
  rw [if_pos (isDot_of_isVisible hc), h, Option.map_some] at hsearch
  obtain ⟨cur, hcur, hgroups⟩ := Option.map_eq_some_iff.mp hsearch
  refine traceHeader_of_groups ?_ hgroups
  have hstops : Regex.Stops isPySpace (c :: s) := Regex.stops_cons (space_of_isVisible hc)
  unfold Regex.matchStart Regex.matchAt tracePattern
  rw [Regex.search_seq, Regex.search_atStart, if_pos rfl, Regex.search_seq]
  exact Regex.search_many_run_some hlead hstops hcur

/-- **A name of blanks only** is the last one of them, if no header follows behind the dash. -/
theorem traceHeader_blank (hlead : ∀ c ∈ lead, isPySpace c = true) {w : Nat}
    (hw : isPySpace w = true) (hdot : isDot w = true) {numbers : Numbers}
    (hfirst : firstHeader s = none) (h : readHeader (0x2d :: s) = some numbers) :
    traceHeader (lead ++ w :: 0x2d :: s) = some (numbers.header [w]) := by
  have hfail := search_name (0 + lead.length + 1) 0x2d s
  rw [if_pos (by decide), hfirst, Option.map_none, Option.map_eq_none_iff] at hfail
  have hsearch := search_name (0 + lead.length) w (0x2d :: s)
  rw [if_pos hdot, firstHeader, h, Option.map_some, Option.some_or, Option.map_some] at hsearch
  obtain ⟨cur, hcur, hgroups⟩ := Option.map_eq_some_iff.mp hsearch
  refine traceHeader_of_groups ?_ hgroups
  unfold Regex.matchStart Regex.matchAt tracePattern
  rw [Regex.search_seq, Regex.search_atStart, if_pos rfl, Regex.search_seq]
  -- the repetition gives its last blank back
  exact Regex.search_many_back hlead hw (Regex.stops_cons rfl) hfail hcur

/-- A text in which no header starts is passed over. -/
theorem firstHeader_append {name : Text} (hname : ∀ c ∈ name, isDot c = true)
    (h : ∀ a b, name = a ++ b → b ≠ [] → readHeader (b ++ s) = none) :
    firstHeader (name ++ s) = (firstHeader s).map fun found => (name ++ found.1, found.2) := by
  induction name with
  | nil => simp
  | cons c name ih =>
    rw [List.forall_mem_cons] at hname
    have hfirst := h [] (c :: name) rfl (List.cons_ne_nil _ _)
    have hnext := ih hname.2 fun a b hab hb => h (c :: a) b (by rw [hab, List.cons_append]) hb
    rw [List.cons_append] at hfirst ⊢
    rw [firstHeader, hfirst, Option.map_none, Option.none_or, if_pos hname.1, hnext, Option.map_map]
    rfl

end Name

end LinuxMaxxing.Framework
