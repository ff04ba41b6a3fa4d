import LinuxMaxxing.Framework.Trace

/-!
# System Calls in a Trace

The lines that the kernel prints when a process enters `read` or `write`, with a preview of the
buffer between its address and the count: `trace_record` skips the preview with a lazy wildcard.

- `readCount`: what `,\s*count:\s*(\S+)\)` reads at the start of a text;
- `spelledCount`: the first count that can be read from inside a preview;
- `traceFields_syscall`: the fields are those of the line, except that such a count comes before
  the real one;
- `traceRecord_syscall_iff`: when the record has the fields of the line.
-/

namespace LinuxMaxxing.Framework

open LinuxMaxxing.Lib LinuxMaxxing.Common

/-! ## The count -/

/-- `,\s*count:\s*(\S+)\)` at the start of a text: the run of visible symbols up to its last
    closing parenthesis. -/
def readCount : Text → Option Text
  | [] => none
  | c :: s =>
    if c = 0x2c then
      ((s.dropWhile isPySpace).dropPrefix? (text "count:")).bind fun s =>
        match (s.dropWhile isPySpace).takeWhile isVisible with
        | [] => none
        | d :: run => (Regex.beforeLast 0x29 run).map (d :: ·)
    else none

/-- The first count that can be read from inside a preview, in front of what follows it. -/
def spelledCount (rest : Text) : Text → Option Text
  | [] => none
  | c :: s => (readCount (c :: (s ++ rest))).or (spelledCount rest s)

/-- The first count of a line. -/
def firstCount : Text → Option Text
  | [] => none
  | c :: s => (readCount (c :: s)).or (if isDot c then firstCount s else none)

section Count

variable {β : Type} {k : Regex.Cursor Nat Nat → Option β} {n : Nat} {s : Text}
  {g : List (Nat × Text)}

/-- A text that starts with another symbol. -/
theorem search_lit_ne {start : String} {c d : Nat} {ds : Text} (htext : text start = d :: ds)
    (hne : c ≠ d) : Regex.search (lit start) k ⟨n, c :: s, g⟩ = none := by
  rw [lit, htext]
  apply Regex.search_literal_none
  intro hprefix
  exact hne (List.cons_prefix_cons.mp hprefix).1.symm

theorem search_lit_append (start : String) :
    Regex.search (lit start) k ⟨n, text start ++ s, g⟩ = k ⟨n + (text start).length, s, g⟩ :=
  Regex.search_literal_append _

theorem ne_of_isPySpace {c d : Nat} (hc : isPySpace c = true) (hd : isPySpace d = false) : c ≠ d := by
  rintro rfl
  rw [hc] at hd
  cases hd

/-- The word after `count:`, up to its last closing parenthesis. -/
theorem search_word (s : Text) :
    (Regex.search (Regex.sequence [.group 4 (Regex.some₁ isVisible), lit ")"]) some
      ⟨n, s, g⟩).map Regex.Cursor.groups =
      (match s.takeWhile isVisible with
        | [] => none
        | d :: run => (Regex.beforeLast 0x29 run).map (d :: ·)).map fun count => (4, count) :: g := by
  rw [Regex.search_sequence_cons, Regex.search_group, Regex.some₁, Regex.search_seq]
  cases s with
  | nil => rfl
  | cons d s =>
    rw [Regex.search_symbol_cons]
    cases hd : isVisible d with
    | false => simp [hd]
    | true =>
      rw [if_pos rfl, List.takeWhile_cons_of_pos hd]
      -- the group is what lies between the start of the word and the parenthesis
      rw [Regex.search_many_last (d := 0x29) (f := fun m r =>
        ⟨m + 1, r, (4, (d :: s).take (m - n)) :: g⟩) (by decide)]
      · simp only [Option.map_map]
        cases hlast : Regex.beforeLast 0x29 (s.takeWhile isVisible) with
        | none => rfl
        | some x =>
          have hprefix : x <+: s := by
            exact (Regex.beforeLast_prefix hlast).trans (List.takeWhile_prefix _)
          have htake : s.take x.length = x := (List.prefix_iff_eq_take.mp hprefix).symm
          simp only [Option.map_some, Function.comp_apply]
          rw [show n + 1 + x.length - n = x.length + 1 by omega, List.take_succ_cons, htake]
      · intro m
        rfl
      · intro m c r
        by_cases hc : c = 0x29
        · subst hc
          exact search_lit_append ")"
        · rw [if_neg hc]
          exact search_lit_ne rfl hc

/-- What the pattern for the count reads. -/
theorem search_countPattern (s : Text) :
    (Regex.search countPattern some ⟨n, s, g⟩).map Regex.Cursor.groups =
      (readCount s).map fun count => (4, count) :: g := by
  unfold countPattern
  cases s with
  | nil => rfl
  | cons c s =>
    rw [readCount, Regex.search_sequence_cons]
    by_cases hc : c = 0x2c
    · subst hc
      have hcomma : ∀ k : Regex.Cursor Nat Nat → Option (Regex.Cursor Nat Nat),
          Regex.search (lit ",") k ⟨n, 0x2c :: s, g⟩ = k ⟨n + 1, s, g⟩ :=
        fun k => search_lit_append ","
      rw [hcomma, if_pos rfl, Regex.search_sequence_cons, Regex.search_many_of_disjoint]
      · rw [Regex.search_sequence_cons]
        cases hprefix : (s.dropWhile isPySpace).dropPrefix? (text "count:") with
        | none =>
          have hnot : ¬ text "count:" <+: s.dropWhile isPySpace := by
            rintro ⟨t, ht⟩
            rw [← ht, List.dropPrefix?_append_of_beq t (beq_self_eq_true _)] at hprefix
            cases hprefix
          rw [lit, Regex.search_literal_none hnot]
          rfl
        | some t =>
          obtain ⟨start, heq, hstart⟩ := List.dropPrefix?_eq_some_iff.mp hprefix
          rw [heq, eq_of_beq hstart, search_lit_append, Regex.search_sequence_cons,
            Regex.search_many_of_disjoint, search_word]
          · rfl
          · -- the word cannot start with whitespace
            intro m d r hd
            rw [Regex.search_sequence_cons, Regex.search_group, Regex.some₁, Regex.search_seq,
              Regex.search_symbol_cons, isVisible_of_space hd, if_neg Bool.false_ne_true]
      · intro m d r hd
        rw [Regex.search_sequence_cons]
        exact search_lit_ne rfl (ne_of_isPySpace hd rfl)
    · rw [search_lit_ne rfl hc, if_neg hc]
      rfl

/-- The lazy wildcard stops at the first count. -/
theorem search_fewest_count (s : Text) :
    (Regex.search (.fewest isDot) (Regex.search countPattern some) ⟨n, s, g⟩).map
      Regex.Cursor.groups = (firstCount s).map fun count => (4, count) :: g := by
  show (Regex.shortest isDot (Regex.search countPattern some) g n s).map _ = _
  induction s generalizing n with
  | nil => exact search_countPattern []
  | cons c s ih =>
    rw [Regex.shortest, firstCount]
    have hcount := search_countPattern (n := n) (g := g) (c :: s)
    cases hread : readCount (c :: s) with
    | some count =>
      rw [hread, Option.map_some] at hcount
      obtain ⟨cur, hcur, hgroups⟩ := Option.map_eq_some_iff.mp hcount
      rw [hcur, Option.some_or, Option.some_or, Option.map_some, Option.map_some, hgroups]
    | none =>
      rw [hread, Option.map_none, Option.map_eq_none_iff] at hcount
      rw [hcount, Option.none_or, Option.none_or]
      cases isDot c with
      | true => exact ih
      | false => rfl

/-- Text in which nothing reads as a count is passed over. -/
theorem firstCount_append {s : Text} (hs : 0x0a ∉ s) (rest : Text) :
    firstCount (s ++ rest) = (spelledCount rest s).or (firstCount rest) := by
  induction s with
  | nil => rfl
  | cons c s ih =>
    rw [List.mem_cons, not_or] at hs
    have hdot : isDot c = true := decide_eq_true (Ne.symm hs.1)
    rw [List.cons_append, firstCount, spelledCount, if_pos hdot, ih hs.2, Option.or_assoc]

theorem spelledCount_of_not_mem {s : Text} (hs : 0x2c ∉ s) (rest : Text) :
    spelledCount rest s = none := by
  induction s with
  | nil => rfl
  | cons c s ih =>
    rw [List.mem_cons, not_or] at hs
    rw [spelledCount, readCount, if_neg (Ne.symm hs.1), Option.none_or, ih hs.2]

end Count

/-! ## The line of a system call -/

/-- `(?:0x)?[0-9a-fA-F]+` -/
def isHexNumber (s : Text) : Bool := isPrefixedHex s || (s ≠ [] && s.all isHexSymbol)

/-- What follows the preview. -/
def afterPreview (count : Text) : Text := text "\")" ++ (text ", count: " ++ (count ++ text ")"))

/-- `sys_name(fd: fd, buf: buf ("preview"), count: count)` -/
def syscallText (name fd buf preview count : Text) : Text :=
  text "sys_" ++ (name ++ (text "(fd:" ++ (text " " ++ (fd ++ (text "," ++ (text " " ++ (text "buf:" ++
    (text " " ++ (buf ++ (text " (\"" ++ (preview ++ afterPreview count)))))))))))

/-- What a number of such a line looks like to the pattern. -/
structure Word (s : Text) : Prop where
  ne_nil : s ≠ []
  visible : ∀ c ∈ s, isVisible c = true

theorem isVisible_of_hex {c : Nat} (h : isHexSymbol c = true) : isVisible c = true := by
  simp only [isHexSymbol, Bool.or_eq_true, Bool.and_eq_true, decide_eq_true_eq] at h
  simp only [isVisible, isPySpace, Bool.not_eq_true', Bool.or_eq_false_iff, Bool.and_eq_false_iff,
    decide_eq_false_iff_not]
  omega

theorem word_of_isHexNumber {s : Text} (h : isHexNumber s = true) : Word s := by
  rw [isHexNumber, Bool.or_eq_true] at h
  rcases h with h | h
  · obtain ⟨digits, rfl, -, hall⟩ := isPrefixedHex_iff.mp h
    refine ⟨List.cons_ne_nil _ _, fun c hc => ?_⟩
    rcases List.mem_append.mp hc with hc | hc
    · have hstart : ∀ c ∈ text "0x", isVisible c = true := by decide
      exact hstart c hc
    · exact isVisible_of_hex (List.all_eq_true.mp hall c hc)
  · rw [Bool.and_eq_true, decide_eq_true_eq, List.all_eq_true] at h
    exact ⟨h.1, fun c hc => isVisible_of_hex (h.2 c hc)⟩

section Line

variable {name fd buf preview count : Text} {n : Nat} {g : List (Nat × Text)}

/-- The real count. -/
theorem firstCount_afterPreview (hcount : Word count) :
    firstCount (afterPreview count) = some count := by
  obtain ⟨d, ds, rfl⟩ := List.exists_cons_of_ne_nil hcount.ne_nil
  have hd := hcount.visible d List.mem_cons_self
  have hrun : ((d :: ds) ++ text ")").takeWhile isVisible = d :: (ds ++ [0x29]) := by
    rw [List.takeWhile_append_of_pos hcount.visible]
    rfl
  have hspace : isPySpace d = false := space_of_isVisible hd
  have hblank : (0x20 :: (d :: ds ++ text ")")).dropWhile isPySpace = d :: ds ++ text ")" := by
    rw [List.dropWhile_cons_of_pos (by decide), List.cons_append,
      List.dropWhile_cons_of_neg (by simp [hspace])]
  have hread : readCount (0x2c :: 0x20 :: (text "count:" ++ 0x20 :: (d :: ds ++ text ")"))) =
      some (d :: ds) := by
    have hdrop : (0x20 :: (text "count:" ++ 0x20 :: (d :: ds ++ text ")"))).dropWhile isPySpace =
        text "count:" ++ 0x20 :: (d :: ds ++ text ")") := rfl
    rw [readCount, if_pos rfl, hdrop, List.dropPrefix?_append_of_beq _ (beq_self_eq_true _),
      Option.bind_some, hblank, hrun]
    show (Regex.beforeLast 0x29 (ds ++ [0x29])).map (d :: ·) = _
    rw [Regex.beforeLast_append, Option.map_some]
  show ((none : Option Text).or (if isDot 0x22 then
    (none : Option Text).or (if isDot 0x29 then
      firstCount (0x2c :: 0x20 :: (text "count:" ++ 0x20 :: (d :: ds ++ text ")"))) else none)
    else none)) = _
  rw [firstCount, hread]
  rfl

/-- The count that is found: one that is spelled in the preview, or else the real one. -/
def foundCount (preview count : Text) : Text :=
  (spelledCount (afterPreview count) preview).getD count

theorem firstCount_preview (hpreview : 0x0a ∉ preview) (hcount : Word count) :
    firstCount (text " (\"" ++ (preview ++ afterPreview count)) =
      some (foundCount preview count) := by
  rw [firstCount_append (by decide), spelledCount_of_not_mem (by decide), Option.none_or,
    firstCount_append hpreview, firstCount_afterPreview hcount, foundCount]
  cases spelledCount (afterPreview count) preview <;> rfl

/-- From the address on. -/
theorem search_buf (hbuf : Word buf) (hpreview : 0x0a ∉ preview) (hcount : Word count) :
    ∃ cur : Regex.Cursor Nat Nat,
      Regex.search (Regex.sequence [.group 3 (Regex.some₁ isVisible), .fewest isDot, countPattern])
        some ⟨n, buf ++ (text " (\"" ++ (preview ++ afterPreview count)), g⟩ = some cur ∧
      cur.groups = (4, foundCount preview count) :: (3, buf) :: g := by
  have hfewest := search_fewest_count (n := n + buf.length) (g := (3, buf) :: g)
    (text " (\"" ++ (preview ++ afterPreview count))
  rw [firstCount_preview hpreview hcount, Option.map_some] at hfewest
  obtain ⟨cur, hcur, hgroups⟩ := Option.map_eq_some_iff.mp hfewest
  refine ⟨cur, ?_, hgroups⟩
  rw [Regex.search_sequence_cons]
  exact Regex.search_group_run_some hbuf.ne_nil hbuf.visible (Regex.stops_cons rfl) hcur

/-- A blank in front of something that is no blank. -/
theorem search_blank {β : Type} {k : Regex.Cursor Nat Nat → Option β} {s : Text}
    (hk : ∀ m c r, isPySpace c = true → k ⟨m, c :: r, g⟩ = none) (hs : Regex.Stops isPySpace s) :
    Regex.search (.many isPySpace) k ⟨n, text " " ++ s, g⟩ = k ⟨n + 1, s, g⟩ :=
  Regex.search_many_run (s := text " ") hk (by decide) hs

theorem Word.stops {s : Text} (h : Word s) (t : Text) : Regex.Stops isPySpace (s ++ t) := by
  obtain ⟨c, cs, rfl⟩ := List.exists_cons_of_ne_nil h.ne_nil
  exact Regex.stops_cons (space_of_isVisible (h.visible c List.mem_cons_self))

/-- A word does not start with a blank. -/
theorem search_visible_space {r : Regex Nat Nat} {rs : List (Regex Nat Nat)} {key m c : Nat}
    {s : Text} (hc : isPySpace c = true) :
    Regex.search (Regex.sequence (.group key (Regex.some₁ isVisible) :: r :: rs))
      (some : Regex.Cursor Nat Nat → _) ⟨m, c :: s, g⟩ = none := by
  rw [Regex.search_sequence_cons, Regex.search_group, Regex.some₁, Regex.search_seq,
    Regex.search_symbol_cons, isVisible_of_space hc, if_neg Bool.false_ne_true]

/-- From the comma behind the descriptor on. -/
theorem search_comma (hbuf : Word buf) (hpreview : 0x0a ∉ preview) (hcount : Word count) :
    ∃ cur : Regex.Cursor Nat Nat,
      Regex.search (Regex.sequence [lit ",", .many isPySpace, lit "buf:", .many isPySpace,
        .group 3 (Regex.some₁ isVisible), .fewest isDot, countPattern]) some
        ⟨n, text "," ++ (text " " ++ (text "buf:" ++ (text " " ++ (buf ++ (text " (\"" ++
          (preview ++ afterPreview count)))))), g⟩ = some cur ∧
      cur.groups = (4, foundCount preview count) :: (3, buf) :: g := by
  obtain ⟨cur, hcur, hgroups⟩ := search_buf
    (n := n + (text ",").length + 1 + (text "buf:").length + 1) (g := g) hbuf hpreview hcount
  refine ⟨cur, ?_, hgroups⟩
  have hstops : Regex.Stops isPySpace (text "buf:" ++ (text " " ++ (buf ++ (text " (\"" ++
      (preview ++ afterPreview count))))) := Regex.stops_cons rfl
  rw [Regex.search_sequence_cons, search_lit_append, Regex.search_sequence_cons,
    search_blank _ hstops, Regex.search_sequence_cons, search_lit_append,
    Regex.search_sequence_cons, search_blank _ (hbuf.stops _)]
  · exact hcur
  · intro m c r hc
    exact search_visible_space hc
  · intro m c r hc
    rw [Regex.search_sequence_cons]
    exact search_lit_ne rfl (ne_of_isPySpace hc rfl)

/-- From the opening parenthesis on. -/
theorem search_arguments (hfd : Word fd) (hbuf : Word buf) (hpreview : 0x0a ∉ preview)
    (hcount : Word count) :
    ∃ cur : Regex.Cursor Nat Nat,
      Regex.search (Regex.sequence [lit "(fd:", .many isPySpace,
        .group 2 (Regex.some₁ isVisible), lit ",", .many isPySpace, lit "buf:", .many isPySpace,
        .group 3 (Regex.some₁ isVisible), .fewest isDot, countPattern]) some
        ⟨n, text "(fd:" ++ (text " " ++ (fd ++ (text "," ++ (text " " ++ (text "buf:" ++ (text " " ++
          (buf ++ (text " (\"" ++ (preview ++ afterPreview count))))))))), g⟩ = some cur ∧
      cur.groups = (4, foundCount preview count) :: (3, buf) :: (2, fd) :: g := by
  obtain ⟨cur, hcur, hgroups⟩ := search_comma
    (n := n + (text "(fd:").length + 1 + fd.length) (g := (2, fd) :: g) hbuf hpreview hcount
  refine ⟨cur, ?_, hgroups⟩
  rw [Regex.search_sequence_cons, search_lit_append, Regex.search_sequence_cons,
    search_blank _ (hfd.stops _), Regex.search_sequence_cons]
  · -- the word takes the comma as well and has to give it back
    apply Regex.search_group_run_back (c := 0x2c) hfd.ne_nil hfd.visible rfl
      (Regex.stops_cons rfl)
    · intro m g
      rw [Regex.search_sequence_cons]
      exact search_lit_ne rfl (by decide)
    · exact hcur
  · intro m c r hc
    exact search_visible_space hc

/-- The name of a call. -/
theorem search_name_alt {β : Type} {k : Regex.Cursor Nat Nat → Option β} {s : Text}
    (hname : name = text "read" ∨ name = text "write") {b : β}
    (h : k ⟨n + name.length, s, g⟩ = some b) :
    Regex.search (.alt (lit "read") (lit "write")) k ⟨n, name ++ s, g⟩ = some b := by
  rw [Regex.search_alt]
  rcases hname with rfl | rfl
  · rw [search_lit_append, h, Option.some_or]
  · have hfail : Regex.search (lit "read") k ⟨n, text "write" ++ s, g⟩ = none :=
      search_lit_ne (show text "read" = 0x72 :: text "ead" from rfl) (by decide)
    rw [hfail, Option.none_or, search_lit_append, h]

/-- The whole call. -/
theorem syscallIo_syscallText (hname : name = text "read" ∨ name = text "write") (hfd : Word fd)
    (hbuf : Word buf) (hpreview : 0x0a ∉ preview) (hcount : Word count) :
    ∃ cur : Regex.Cursor Nat Nat,
      syscallIo.matchStart (syscallText name fd buf preview count) = some cur ∧
      cur.groups = [(4, foundCount preview count), (3, buf), (2, fd), (1, name)] := by
  obtain ⟨cur, hcur, hgroups⟩ := search_arguments (n := (text "sys_").length + name.length)
    (g := [(1, name)]) hfd hbuf hpreview hcount
  refine ⟨cur, ?_, hgroups⟩
  unfold Regex.matchStart Regex.matchAt syscallIo syscallText
  rw [Regex.search_sequence_cons, search_lit_append, Regex.search_sequence_cons,
    Regex.search_group]
  apply search_name_alt hname
  simp only [Nat.zero_add, Nat.add_sub_cancel_left, List.take_left]
  exact hcur

end Line

/-! ## The record -/

section Call

variable {wide : Nat → Bool} {name fd buf preview count : Text}

theorem traceFields_syscall (hname : name = text "read" ∨ name = text "write") (hfd : Word fd)
    (hbuf : Word buf) (hpreview : 0x0a ∉ preview) (hcount : Word count) :
    traceFields wide (syscallText name fd buf preview count) = .ok (text "sys_enter_" ++ name,
      [(text "fd", .str fd), (text "buf", .str buf),
        (text "count", .str (foundCount preview count))]) := by
  obtain ⟨cur, hcur, hgroups⟩ := syscallIo_syscallText hname hfd hbuf hpreview hcount
  unfold traceFields
  simp only [hcur, groupValue, groupOf, hgroups]
  rfl

/-- The three fields of an event are texts. -/
def HasCall (event : PyValue) (fd buf count : Text) : Prop :=
  eventField event "fd" = .ok (.str fd) ∧ eventField event "buf" = .ok (.str buf) ∧
    eventField event "count" = .ok (.str count)

/-- **The record of a call** has its descriptor, its address and the count that is found first. -/
theorem traceRecord_syscall (wide : Nat → Bool) (other : PyValue → Text)
    (experiment domain : Text) {line : Text} {header : Header} (hheader : traceHeader line = some header)
    (hdetail : header.detail = syscallText name fd buf preview count)
    (hname : name = text "read" ∨ name = text "write") (hfd : Word fd) (hbuf : Word buf)
    (hpreview : 0x0a ∉ preview) (hcount : Word count) :
    ∃ event, traceRecord wide other experiment domain line = .ok (some event) ∧
      HasCall event (normalizeText fd) (normalizeText buf)
        (normalizeText (foundCount preview count)) := by
  have hfields := @traceFields_syscall wide _ _ _ _ _ hname hfd hbuf hpreview hcount
  rw [← hdetail] at hfields
  have hnormal : normalizeMembers [(text "fd", .str fd), (text "buf", .str buf),
      (text "count", .str (foundCount preview count))] =
      .ok [(text "fd", .str (normalizeText fd)), (text "buf", .str (normalizeText buf)),
        (text "count", .str (normalizeText (foundCount preview count)))] := by
    simp only [normalizeMembers, normalize]
    rfl
  obtain ⟨event, hevent, hfield, -⟩ :=
    traceRecord_ok wide other experiment domain hheader hfields hnormal
  refine ⟨event, hevent, ?_, ?_, ?_⟩
  · rw [hfield]
    rfl
  · rw [hfield]
    rfl
  · rw [hfield]
    rfl

theorem HasCall.unique {event : PyValue} {fd' buf' count' : Text} (h : HasCall event fd buf count)
    (h' : HasCall event fd' buf' count') : fd = fd' ∧ buf = buf' ∧ count = count' := by
  obtain ⟨hfd, hbuf, hcount⟩ := h
  obtain ⟨hfd', hbuf', hcount'⟩ := h'
  refine ⟨?_, ?_, ?_⟩
  · exact PyValue.str.inj (Except.ok.inj (hfd.symm.trans hfd'))
  · exact PyValue.str.inj (Except.ok.inj (hbuf.symm.trans hbuf'))
  · exact PyValue.str.inj (Except.ok.inj (hcount.symm.trans hcount'))

end Call

/-- **When the record of a call has its fields**: the numbers are in lower case, and the first count
    that can be read from inside the preview, if there is one, is the real one. -/
theorem traceRecord_syscall_iff (wide : Nat → Bool) (other : PyValue → Text)
    (experiment domain line : Text) (header : Header) (name fd buf preview count : Text)
    (hheader : traceHeader line = some header)
    (hdetail : header.detail = syscallText name fd buf preview count)
    (hname : name = text "read" ∨ name = text "write") (hfd : isHexNumber fd = true)
    (hbuf : isHexNumber buf = true) (hpreview : 0x0a ∉ preview)
    (hcount : isHexNumber count = true) :
    (∃ event, traceRecord wide other experiment domain line = .ok (some event) ∧
      HasCall event fd buf count) ↔
      normalizeText fd = fd ∧ normalizeText buf = buf ∧ normalizeText count = count ∧
        ∀ spelled, spelledCount (afterPreview count) preview = some spelled →
          normalizeText spelled = count := by
  obtain ⟨event, hevent, hcall⟩ := traceRecord_syscall wide other experiment domain hheader hdetail
    hname (word_of_isHexNumber hfd) (word_of_isHexNumber hbuf) hpreview (word_of_isHexNumber hcount)
  constructor
  · rintro ⟨event', hevent', hcall'⟩
    obtain rfl := Option.some.inj (Except.ok.inj (hevent.symm.trans hevent'))
    obtain ⟨hfd_eq, hbuf_eq, hcount_eq⟩ := hcall.unique hcall'
    refine ⟨hfd_eq, hbuf_eq, ?_, fun spelled hspelled => ?_⟩
    · rw [← hcount_eq, normalizeText_idem]
    · rwa [foundCount, hspelled, Option.getD_some] at hcount_eq
  · rintro ⟨hfd_eq, hbuf_eq, hcount_eq, hspelled⟩
    refine ⟨event, hevent, ?_⟩
    have hfound : normalizeText (foundCount preview count) = count := by
      unfold foundCount
      cases hread : spelledCount (afterPreview count) preview with
      | none => exact hcount_eq
      | some spelled => exact hspelled spelled hread
    rwa [hfd_eq, hbuf_eq, hfound] at hcall

/-- A call that writes five bytes. -/
def writeText (preview : String) : Text :=
  syscallText (text "write") (text "0x1") (text "0x7ffd") (text preview) (text "0x5")

/-- Its header. -/
def writeHeader (preview : String) : Header :=
  ⟨text "cat", text "7", text "001", text "12.000345", writeText preview⟩

/-- Its line. -/
def writeLine (preview : String) : Text :=
  text "             cat-7       [001] .....    12.000345: " ++ writeText preview

/-- A preview with parentheses, commas and the word `count`. -/
theorem traceRecord_syscall_iff_write :
    ∃ event, traceRecord (fun _ => false) (fun _ => []) (text "vfs") (text "host") (writeLine "f(x), count") =
        .ok (some event) ∧
      HasCall event (text "0x1") (text "0x7ffd") (text "0x5") := by
  have hnone : spelledCount (afterPreview (text "0x5")) (text "f(x), count") = none := by decide
  apply (traceRecord_syscall_iff (fun _ => false) (fun _ => []) (text "vfs") (text "host") _
    (writeHeader "f(x), count") (text "write") (text "0x1") (text "0x7ffd") (text "f(x), count")
    (text "0x5") (by decide +kernel) rfl (.inr rfl) (by decide) (by decide) (by decide)
    (by decide)).mpr
  refine ⟨rfl, rfl, rfl, fun spelled hspelled => ?_⟩
  rw [hnone] at hspelled
  cases hspelled

/-- A preview that spells a count of its own: the record has that one. -/
theorem traceRecord_spelled_count :
    (∃ event, traceRecord (fun _ => false) (fun _ => []) (text "vfs") (text "host") (writeLine "x, count: 0x9) y") =
        .ok (some event) ∧
      HasCall event (text "0x1") (text "0x7ffd") (text "0x9")) ∧
    ¬ ∃ event, traceRecord (fun _ => false) (fun _ => []) (text "vfs") (text "host")
          (writeLine "x, count: 0x9) y") = .ok (some event) ∧
        HasCall event (text "0x1") (text "0x7ffd") (text "0x5") := by
  have hheader : traceHeader (writeLine "x, count: 0x9) y") =
      some (writeHeader "x, count: 0x9) y") := by
    decide +kernel
  have hfound : normalizeText (foundCount (text "x, count: 0x9) y") (text "0x5")) = text "0x9" := by
    decide
  have hword : ∀ digits ∈ [text "0x1", text "0x7ffd", text "0x5"], Word digits := by
    intro digits hdigits
    have hhex : ∀ s ∈ [text "0x1", text "0x7ffd", text "0x5"], isHexNumber s = true := by decide
    exact word_of_isHexNumber (hhex digits hdigits)
  obtain ⟨event, hevent, hcall⟩ := traceRecord_syscall (fun _ => false) (fun _ => [])
    (text "vfs") (text "host")
    hheader (show (writeHeader "x, count: 0x9) y").detail = writeText "x, count: 0x9) y" from rfl)
    (.inr rfl) (hword (text "0x1") (by decide))
    (hword (text "0x7ffd") (by decide)) (by decide) (hword (text "0x5") (by decide))
  rw [hfound] at hcall
  refine ⟨⟨event, hevent, hcall⟩, ?_⟩
  rintro ⟨event', hevent', hcall'⟩
  obtain rfl := Option.some.inj (Except.ok.inj (hevent.symm.trans hevent'))
  exact absurd (hcall.unique hcall').2.2 (by decide)

end LinuxMaxxing.Framework
