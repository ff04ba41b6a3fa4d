import LinuxMaxxing.Common.JsonRoundTrip
import LinuxMaxxing.Framework.TraceHeader

/-!
# Lines of the Kernel's Trace

Lines as the kernel prints them, whatever the name of the task, and what `TRACE` reads of them.

- `TraceLine`: the data of a line and its text;
- `otherHeader`: a header that the name spells, or, where the name is blank, the detail;
- `readHeader_inside`: a header that starts in the name takes 14 of its 15 symbols;
- `traceHeader_toText`: what `TRACE` reads of the line.
-/

namespace LinuxMaxxing.Framework

open LinuxMaxxing.Lib LinuxMaxxing.Common

/-! ## Lines -/

/-- A line of the trace: `<comm>-<tid> [<cpu>] <flags> <sec>.<usec>: <detail>`. The kernel pads
    the task and the seconds to a width; `tidGap` and `secGap` are the blanks that this adds. -/
structure TraceLine where
  comm : Text
  tid : Nat
  tidGap : Nat
  cpu : Nat
  flags : Text
  secGap : Nat
  sec : Nat
  usec : Nat
  detail : Text
  terminated : Bool

namespace TraceLine

/-- One blank and more. -/
def blanks (gap : Nat) : Text := List.replicate (gap + 1) 0x20

/-- The line feed, which the last line of a file may lack. -/
def ending (line : TraceLine) : Text := if line.terminated then [0x0a] else []

def cpuText (line : TraceLine) : Text := JsonWriter.zeroPad 3 (JsonWriter.decimal line.cpu)

def usecText (line : TraceLine) : Text := JsonWriter.zeroPad 6 (JsonWriter.decimal line.usec)

/-- From the time on, with what stands for the detail. -/
def fromTime (line : TraceLine) (tail : Text) : Text :=
  JsonWriter.decimal line.sec ++ 0x2e :: (line.usecText ++ 0x3a :: 0x20 :: tail)

/-- From the dash behind the name on. -/
def afterName (line : TraceLine) (tail : Text) : Text :=
  0x2d :: (JsonWriter.decimal line.tid ++ (blanks line.tidGap ++ 0x5b :: (line.cpuText ++ 0x5d ::
    0x20 :: (line.flags ++ (blanks line.secGap ++ line.fromTime tail)))))

/-- The name, right-aligned to 16 symbols. -/
def nameText (line : TraceLine) : Text :=
  List.replicate (16 - line.comm.length) 0x20 ++ line.comm

def toText (line : TraceLine) : Text := line.nameText ++ line.afterName (line.detail ++ line.ending)

/-- The numbers as they are printed; blanks in front of the detail belong to the separator. -/
def numbers (line : TraceLine) : Numbers :=
  ⟨JsonWriter.decimal line.tid, line.cpuText,
    JsonWriter.decimal line.sec ++ 0x2e :: line.usecText, line.detail.dropWhile isPySpace⟩

/-- A name of 1 to 15 symbols on one line, visible flags, seconds of up to 19 digits and six
    digits of a fraction. -/
structure Printed (line : TraceLine) : Prop where
  comm_ne_nil : line.comm ≠ []
  comm_length : line.comm.length ≤ 15
  comm_line : 0x0a ∉ line.comm
  flags : IsRun isVisible line.flags
  sec : line.sec < 10 ^ 19
  usec : line.usec < 10 ^ 6
  detail_line : 0x0a ∉ line.detail

end TraceLine

/-! ## Another header in a line -/

/-- A header that a name spells: one that is complete takes all of the 15 symbols. -/
def spelledNumbers (comm rest : Text) : Option Numbers :=
  match comm with
  | [c, dash, d₁, w₁, left, d₂, right, w₂, f, w₃, d₃, point, d₄, colon, w₄] =>
    if isVisible c ∧ dash = 0x2d ∧ isDigitSymbol d₁ ∧ isPySpace w₁ ∧ left = 0x5b ∧
        isDigitSymbol d₂ ∧ right = 0x5d ∧ isPySpace w₂ ∧ isVisible f ∧ isPySpace w₃ ∧
        isDigitSymbol d₃ ∧ point = 0x2e ∧ isDigitSymbol d₄ ∧ colon = 0x3a ∧ isPySpace w₄ then
      some ⟨[d₁], [d₂], [d₃, 0x2e, d₄], rest⟩
    else none
  | _ => none

/-- The header that is found in place of the line's own: one that the name spells, or, where the
    name is blank, the first one that the detail spells. -/
def TraceLine.otherHeader (line : TraceLine) : Option Numbers :=
  if line.comm.all isPySpace then (firstHeader (line.detail ++ line.ending)).map Prod.snd
  else spelledNumbers line.comm (line.afterName line.detail)

/-! ## The line's own header -/

section Own

theorem isDigitSymbol_ascii {c : Nat} (h : Json.isDigit c = true) : isDigitSymbol c = true := by
  have hall : ∀ i < 10, isDigitSymbol (0x30 + i) = true := by decide
  simp only [Json.isDigit, Bool.and_eq_true, decide_eq_true_eq] at h
  have hc := hall (c - 0x30) (by omega)
  rwa [Nat.add_sub_cancel' h.1] at hc

theorem isRun_decimal (n : Nat) : IsRun isDigitSymbol (JsonWriter.decimal n) := by
  obtain ⟨c, r, hcons, -⟩ := decimal_eq_cons n
  refine ⟨by rw [hcons]; exact List.cons_ne_nil _ _, fun c hc => ?_⟩
  exact isDigitSymbol_ascii (isDigit_of_mem_decimal hc)

theorem isRun_zeroPad {digits : Text} (h : IsRun isDigitSymbol digits) (width : Nat) :
    IsRun isDigitSymbol (JsonWriter.zeroPad width digits) := by
  refine ⟨List.append_ne_nil_of_right_ne_nil _ h.1, fun c hc => ?_⟩
  rcases List.mem_append.mp hc with hc | hc
  · rw [List.eq_of_mem_replicate hc]
    decide
  · exact h.2 c hc

theorem isRun_blanks (gap : Nat) : IsRun isPySpace (TraceLine.blanks gap) := by
  refine ⟨List.cons_ne_nil _ _, fun c hc => ?_⟩
  rw [List.eq_of_mem_replicate hc]
  decide

theorem readDetail_ending {s : Text} (hs : 0x0a ∉ s) (line : TraceLine) :
    readDetail (s ++ line.ending) = some s := by
  have hdot : ∀ c ∈ s, isDot c = true := fun c hc => decide_eq_true fun heq => hs (heq ▸ hc)
  have hstops : Regex.Stops isDot line.ending := by
    unfold TraceLine.ending
    split
    · exact Regex.stops_cons (by decide)
    · exact Regex.stops_nil
  unfold readDetail
  rw [(Regex.takeWhile_run hdot hstops).1, (Regex.takeWhile_run hdot hstops).2, if_pos]
  unfold TraceLine.ending
  cases line.terminated <;> simp

variable {line : TraceLine}

/-- **The line's own header** is read where it stands, unless nothing follows it. -/
theorem readHeader_afterName (h : line.Printed) (hdetail : line.detail.dropWhile isPySpace ≠ []) :
    readHeader (line.afterName (line.detail ++ line.ending)) = some line.numbers := by
  let parts : HeaderParts := ⟨JsonWriter.decimal line.tid, TraceLine.blanks line.tidGap, [],
    line.cpuText, [0x20], line.flags, TraceLine.blanks line.secGap, JsonWriter.decimal line.sec,
    line.usecText, 0x20 :: line.detail.takeWhile isPySpace,
    line.detail.dropWhile isPySpace ++ line.ending⟩
  have htext : line.afterName (line.detail ++ line.ending) = parts.toText := by
    simp only [TraceLine.afterName, TraceLine.fromTime, HeaderParts.toText, HeaderParts.front,
      HeaderParts.back, parts, List.nil_append, List.cons_append, List.append_assoc]
    rw [← List.append_assoc (line.detail.takeWhile isPySpace), List.takeWhile_append_dropWhile]
  have hline : 0x0a ∉ line.detail.dropWhile isPySpace := fun hmem =>
    h.detail_line ((List.dropWhile_suffix _).subset hmem)
  have hvalid : parts.Valid line.numbers := by
    refine ⟨isRun_decimal _, isRun_blanks _, .inl rfl, List.not_mem_nil,
      isRun_zeroPad (isRun_decimal _) 3, isRun_blanks 0, h.flags,
      isRun_blanks _, isRun_decimal _, isRun_zeroPad (isRun_decimal _) 6,
      ⟨List.cons_ne_nil _ _, fun c hc => ?_⟩, rfl, readDetail_ending hline line⟩
    rcases List.mem_cons.mp hc with rfl | hc
    · decide
    · exact List.mem_takeWhile_imp hc
  -- blanks in front of the detail belong to the run behind the colon
  have hstops : Regex.Stops isPySpace (line.detail.dropWhile isPySpace ++ line.ending) := by
    have hhead := List.head?_dropWhile_not isPySpace line.detail
    cases hrest : line.detail.dropWhile isPySpace with
    | nil => exact absurd hrest hdetail
    | cons c s =>
      rw [hrest] at hhead
      exact Regex.stops_cons (by simpa using hhead)
  rw [htext]
  exact readHeader_toText hvalid rfl hstops

end Own

/-! ## A header in the name -/

section Spelled

variable {line : TraceLine} {b tail : Text} {numbers : Numbers}

theorem not_mem_front {parts : HeaderParts} (h : parts.Valid numbers) : 0x2d ∉ parts.front := by
  simp only [HeaderParts.front, List.mem_append, List.mem_cons, not_or]
  exact ⟨not_mem_run h.tid (by decide), not_mem_run h.blanks₁ (by decide), h.group_dash, by decide,
    not_mem_run h.cpu (by decide), by decide, not_mem_run h.blanks₂ (by decide)⟩

theorem not_mem_back {parts : HeaderParts} (h : parts.Valid numbers) : 0x2d ∉ parts.back := by
  simp only [HeaderParts.back, List.mem_append, List.mem_cons, not_or]
  exact ⟨not_mem_run h.blanks₃ (by decide), not_mem_run h.whole (by decide), by decide,
    not_mem_run h.fraction (by decide), by decide, not_mem_run h.blanks₄ (by decide)⟩

/-- What has no dash lies in front of the dash. -/
theorem append_of_not_mem {a x y z : Text} (hx : 0x2d ∉ x) (h : a ++ 0x2d :: y = x ++ z) :
    ∃ a', a = x ++ a' ∧ a' ++ 0x2d :: y = z := by
  rcases List.append_eq_append_iff.mp h with ⟨x', hx', hz⟩ | ⟨a', ha', hz⟩
  · cases x' with
    | nil => exact ⟨[], by simpa using hx'.symm, hz⟩
    | cons c x' =>
      -- the dash would be a symbol of `x`
      obtain ⟨rfl, -⟩ := List.cons.inj hz
      exact absurd (hx' ▸ List.mem_append_right _ List.mem_cons_self) hx
  · exact ⟨a', ha', hz.symm⟩

/-- A word, blanks and what follows them are read in one way. -/
theorem append_blanks_inj {u u' v v' x y : Text} (hu : ∀ c ∈ u, isVisible c = true)
    (hu' : ∀ c ∈ u', isVisible c = true) (hv : IsRun isPySpace v) (hv' : IsRun isPySpace v')
    (hx : Regex.Stops isPySpace x) (hy : Regex.Stops isPySpace y)
    (h : u ++ (v ++ x) = u' ++ (v' ++ y)) : x = y := by
  have hword := (Regex.takeWhile_run hu (isRun_stops hv (fun c hc => isVisible_of_space hc) x)).2
  rw [h, (Regex.takeWhile_run hu' (isRun_stops hv' (fun c hc => isVisible_of_space hc) y)).2] at hword
  have hblanks := (Regex.takeWhile_run hv.2 hx).2
  rw [← hword, (Regex.takeWhile_run hv'.2 hy).2] at hblanks
  exact hblanks.symm

theorem ne_of_isRun_digits {s t : Text} {c : Nat} (h : IsRun isDigitSymbol s)
    (hc : isDigitSymbol c = false) (u : Text) : s ++ t ≠ c :: u := by
  intro heq
  obtain ⟨d, s, rfl⟩ := List.exists_cons_of_ne_nil h.1
  obtain ⟨rfl, -⟩ := List.cons.inj heq
  rw [h.2 d List.mem_cons_self] at hc
  cases hc

/-- The flags do not reach over the line's dash: a bracket, and no time, would follow them. -/
theorem append_of_flags {parts : HeaderParts} (h : parts.Valid numbers) {a : Text}
    (heq : a ++ line.afterName tail = parts.flags ++ (parts.back ++ parts.rest)) :
    ∃ a', a = parts.flags ++ a' ∧ a' ++ line.afterName tail = parts.back ++ parts.rest := by
  rcases List.append_eq_append_iff.mp heq with ⟨x, hx, hz⟩ | ⟨a', ha', hz⟩
  · cases x with
    | nil => exact ⟨[], by simpa using hx.symm, hz⟩
    | cons c x =>
      exfalso
      -- the flags would take the task as well, and the time would have to start with the bracket
      rw [TraceLine.afterName, HeaderParts.back, List.append_assoc, List.append_assoc] at hz
      obtain ⟨-, hrest⟩ := List.cons.inj hz
      have hvisible : ∀ d ∈ x, isVisible d = true := by
        intro d hd
        apply h.flags.2
        rw [hx]
        exact List.mem_append_right _ (List.mem_cons_of_mem _ hd)
      have hsame := append_blanks_inj
        (fun d hd => isVisible_of_isDigitSymbol ((isRun_decimal line.tid).2 d hd)) hvisible
        (isRun_blanks line.tidGap) h.blanks₃ (Regex.stops_cons (by decide))
        (isRun_stops h.whole (fun c hc => isDigitSymbol_space hc) _) hrest
      exact ne_of_isRun_digits h.whole (by decide) _ hsame.symm
  · exact ⟨a', ha', hz.symm⟩

theorem IsRun.length_pos {p : Nat → Bool} {s : Text} (h : IsRun p s) : 1 ≤ s.length :=
  List.length_pos_iff.mpr h.1

theorem IsRun.eq_singleton {p : Nat → Bool} {s : Text} (h : IsRun p s) (hlen : s.length ≤ 1) :
    ∃ c, s = [c] ∧ p c = true := by
  obtain ⟨c, rfl⟩ := List.length_eq_one_iff.mp (le_antisymm hlen h.length_pos)
  exact ⟨c, rfl, h.2 c List.mem_cons_self⟩

/-- The symbols of a header that is as short as can be. -/
structure Shortest (d₁ w₁ d₂ w₂ f w₃ d₃ d₄ w₄ : Nat) : Prop where
  tid : isDigitSymbol d₁ = true
  blank₁ : isPySpace w₁ = true
  cpu : isDigitSymbol d₂ = true
  blank₂ : isPySpace w₂ = true
  flags : isVisible f = true
  blank₃ : isPySpace w₃ = true
  whole : isDigitSymbol d₃ = true
  fraction : isDigitSymbol d₄ = true
  blank₄ : isPySpace w₄ = true

/-- **A header that starts in the last 14 symbols of a name** takes all of them. -/
theorem readHeader_inside (hb : b ≠ []) (hlen : b.length ≤ 14)
    (h : readHeader (b ++ line.afterName tail) = some numbers) :
    ∃ d₁ w₁ d₂ w₂ f w₃ d₃ d₄ w₄, Shortest d₁ w₁ d₂ w₂ f w₃ d₃ d₄ w₄ ∧
      b = [0x2d, d₁, w₁, 0x5b, d₂, 0x5d, w₂, f, w₃, d₃, 0x2e, d₄, 0x3a, w₄] := by
  obtain ⟨parts, htext, hparts⟩ := exists_parts h
  obtain ⟨c, b, rfl⟩ := List.exists_cons_of_ne_nil hb
  rw [List.cons_append, HeaderParts.toText] at htext
  obtain ⟨rfl, hfront⟩ := List.cons.inj htext
  obtain ⟨b₁, rfl, hfrom⟩ := append_of_not_mem (not_mem_front hparts) hfront
  obtain ⟨b₂, rfl, hback⟩ := append_of_flags hparts hfrom
  obtain ⟨b₃, rfl, -⟩ := append_of_not_mem (not_mem_back hparts) hback
  -- nine runs of at least one symbol and five signs are 14 symbols, so every run is one symbol
  have htid := hparts.tid.length_pos
  have hblanks₁ := hparts.blanks₁.length_pos
  have hcpu := hparts.cpu.length_pos
  have hblanks₂ := hparts.blanks₂.length_pos
  have hflags := hparts.flags.length_pos
  have hblanks₃ := hparts.blanks₃.length_pos
  have hwhole := hparts.whole.length_pos
  have hfraction := hparts.fraction.length_pos
  have hblanks₄ := hparts.blanks₄.length_pos
  simp only [HeaderParts.front, HeaderParts.back, List.length_cons, List.length_append] at hlen
  obtain ⟨d₁, htid_eq, hd₁⟩ := hparts.tid.eq_singleton (by omega)
  obtain ⟨w₁, hblanks₁_eq, hw₁⟩ := hparts.blanks₁.eq_singleton (by omega)
  obtain ⟨d₂, hcpu_eq, hd₂⟩ := hparts.cpu.eq_singleton (by omega)
  obtain ⟨w₂, hblanks₂_eq, hw₂⟩ := hparts.blanks₂.eq_singleton (by omega)
  obtain ⟨f, hflags_eq, hf⟩ := hparts.flags.eq_singleton (by omega)
  obtain ⟨w₃, hblanks₃_eq, hw₃⟩ := hparts.blanks₃.eq_singleton (by omega)
  obtain ⟨d₃, hwhole_eq, hd₃⟩ := hparts.whole.eq_singleton (by omega)
  obtain ⟨d₄, hfraction_eq, hd₄⟩ := hparts.fraction.eq_singleton (by omega)
  obtain ⟨w₄, hblanks₄_eq, hw₄⟩ := hparts.blanks₄.eq_singleton (by omega)
  have hgroup : parts.group = [] := List.eq_nil_of_length_eq_zero (by omega)
  have hend : b₃ = [] := List.eq_nil_of_length_eq_zero (by omega)
  refine ⟨d₁, w₁, d₂, w₂, f, w₃, d₃, d₄, w₄, ⟨hd₁, hw₁, hd₂, hw₂, hf, hw₃, hd₃, hd₄, hw₄⟩, ?_⟩
  rw [HeaderParts.front, HeaderParts.back, htid_eq, hblanks₁_eq, hgroup, hcpu_eq, hblanks₂_eq,
    hflags_eq, hblanks₃_eq, hwhole_eq, hfraction_eq, hblanks₄_eq, hend]
  rfl

theorem TraceLine.afterName_append (line : TraceLine) (a b : Text) :
    line.afterName (a ++ b) = line.afterName a ++ b := by
  simp [TraceLine.afterName, TraceLine.fromTime]

theorem readDetail_afterName (h : line.Printed) :
    readDetail (line.afterName (line.detail ++ line.ending)) =
      some (line.afterName line.detail) := by
  rw [TraceLine.afterName_append]
  apply readDetail_ending
  have hcpu := not_mem_run (isRun_zeroPad (isRun_decimal line.cpu) 3) (c := 0x0a) (by decide)
  have husec := not_mem_run (isRun_zeroPad (isRun_decimal line.usec) 6) (c := 0x0a) (by decide)
  have hblanks : ∀ gap, 0x0a ∉ TraceLine.blanks gap := by
    intro gap hmem
    exact absurd (List.eq_of_mem_replicate hmem) (by decide)
  simp only [TraceLine.afterName, TraceLine.fromTime, TraceLine.cpuText, TraceLine.usecText,
    List.mem_cons, List.mem_append, not_or]
  exact ⟨by decide, not_mem_run (isRun_decimal _) (by decide), hblanks _, by decide, hcpu, by decide,
    by decide, not_mem_run h.flags (by decide), hblanks _, not_mem_run (isRun_decimal _) (by decide),
    by decide, husec, by decide, by decide, h.detail_line⟩

section Short

variable {d₁ w₁ d₂ w₂ f w₃ d₃ d₄ w₄ c : Nat} {rest comm : Text}

/-- In front of the line's dash, such a header is read. -/
theorem readHeader_shortest (h : line.Printed) (hs : Shortest d₁ w₁ d₂ w₂ f w₃ d₃ d₄ w₄) :
    readHeader ([0x2d, d₁, w₁, 0x5b, d₂, 0x5d, w₂, f, w₃, d₃, 0x2e, d₄, 0x3a, w₄] ++
      line.afterName (line.detail ++ line.ending)) =
      some ⟨[d₁], [d₂], [d₃, 0x2e, d₄], line.afterName line.detail⟩ := by
  have hone : ∀ {p : Nat → Bool} {c : Nat}, p c = true → IsRun p [c] := by
    intro p c hc
    refine ⟨List.cons_ne_nil _ _, fun d hd => ?_⟩
    rw [List.mem_singleton.mp hd, hc]
  let parts : HeaderParts := ⟨[d₁], [w₁], [], [d₂], [w₂], [f], [w₃], [d₃], [d₄], [w₄],
    line.afterName (line.detail ++ line.ending)⟩
  have hvalid : parts.Valid ⟨[d₁], [d₂], [d₃, 0x2e, d₄], line.afterName line.detail⟩ :=
    ⟨hone hs.tid, hone hs.blank₁, .inl rfl, List.not_mem_nil, hone hs.cpu, hone hs.blank₂,
      hone hs.flags, hone hs.blank₃, hone hs.whole, hone hs.fraction, hone hs.blank₄, rfl,
      readDetail_afterName h⟩
  have hstops : Regex.Stops isPySpace parts.rest := Regex.stops_cons (by decide)
  exact readHeader_toText hvalid rfl hstops

theorem spelledNumbers_shortest (hc : isVisible c = true)
    (hs : Shortest d₁ w₁ d₂ w₂ f w₃ d₃ d₄ w₄) (rest : Text) :
    spelledNumbers (c :: [0x2d, d₁, w₁, 0x5b, d₂, 0x5d, w₂, f, w₃, d₃, 0x2e, d₄, 0x3a, w₄]) rest =
      some ⟨[d₁], [d₂], [d₃, 0x2e, d₄], rest⟩ := by
  obtain ⟨hd₁, hw₁, hd₂, hw₂, hf, hw₃, hd₃, hd₄, hw₄⟩ := hs
  exact if_pos ⟨hc, rfl, hd₁, hw₁, rfl, hd₂, rfl, hw₂, hf, hw₃, hd₃, rfl, hd₄, rfl, hw₄⟩

theorem exists_of_spelledNumbers (h : spelledNumbers comm rest = some numbers) :
    ∃ c d₁ w₁ d₂ w₂ f w₃ d₃ d₄ w₄, isVisible c = true ∧ Shortest d₁ w₁ d₂ w₂ f w₃ d₃ d₄ w₄ ∧
      comm = c :: [0x2d, d₁, w₁, 0x5b, d₂, 0x5d, w₂, f, w₃, d₃, 0x2e, d₄, 0x3a, w₄] := by
  unfold spelledNumbers at h
  split at h
  · split at h
    · next hs =>
      obtain ⟨hc, rfl, hd₁, hw₁, rfl, hd₂, rfl, hw₂, hf, hw₃, hd₃, rfl, hd₄, rfl, hw₄⟩ := hs
      exact ⟨_, _, _, _, _, _, _, _, _, _, hc, ⟨hd₁, hw₁, hd₂, hw₂, hf, hw₃, hd₃, hd₄, hw₄⟩, rfl⟩
    · cases h
  · cases h

theorem spelledNumbers_of_length (h : comm.length ≠ 15) : spelledNumbers comm rest = none := by
  cases hspelled : spelledNumbers comm rest with
  | none => rfl
  | some numbers =>
    obtain ⟨_, _, _, _, _, _, _, _, _, _, -, -, rfl⟩ := exists_of_spelledNumbers hspelled
    exact absurd rfl h

theorem spelledNumbers_of_space (hc : isPySpace c = true) :
    spelledNumbers (c :: comm) rest = none := by
  cases hspelled : spelledNumbers (c :: comm) rest with
  | none => rfl
  | some numbers =>
    obtain ⟨_, _, _, _, _, _, _, _, _, _, hvisible, -, heq⟩ := exists_of_spelledNumbers hspelled
    obtain ⟨rfl, -⟩ := List.cons.inj heq
    rw [isVisible_of_space hc] at hvisible
    cases hvisible

/-- **What is read in the name** is what it spells. -/
theorem readHeader_name (h : line.Printed) (hc : isVisible c = true) (hb : b ≠ [])
    (hlen : b.length ≤ 14) :
    readHeader (b ++ line.afterName (line.detail ++ line.ending)) =
      spelledNumbers (c :: b) (line.afterName line.detail) := by
  -- both sides say that the name is as the shortest header is
  cases hread : readHeader (b ++ line.afterName (line.detail ++ line.ending)) with
  | some numbers =>
    obtain ⟨d₁, w₁, d₂, w₂, f, w₃, d₃, d₄, w₄, hs, rfl⟩ := readHeader_inside hb hlen hread
    rw [readHeader_shortest h hs] at hread
    rw [spelledNumbers_shortest hc hs, ← hread]
  | none =>
    cases hspelled : spelledNumbers (c :: b) (line.afterName line.detail) with
    | none => rfl
    | some numbers =>
      obtain ⟨c', d₁, w₁, d₂, w₂, f, w₃, d₃, d₄, w₄, -, hs, heq⟩ :=
        exists_of_spelledNumbers hspelled
      obtain ⟨-, rfl⟩ := List.cons.inj heq
      rw [readHeader_shortest h hs] at hread
      cases hread

end Short

/-- **The first header behind the first visible symbol of a name.** -/
theorem firstHeader_name (h : line.Printed) (hdetail : line.detail.dropWhile isPySpace ≠ [])
    {c : Nat} (hc : isVisible c = true) (hlen : b.length ≤ 14) (hb : ∀ c ∈ b, isDot c = true) :
    ∃ name, firstHeader (b ++ line.afterName (line.detail ++ line.ending)) = some (name,
      (spelledNumbers (c :: b) (line.afterName line.detail)).getD line.numbers) := by
  cases hspelled : spelledNumbers (c :: b) (line.afterName line.detail) with
  | some numbers =>
    cases b with
    | nil => cases hspelled
    | cons d b =>
      refine ⟨[], ?_⟩
      have hread := (readHeader_name h hc (List.cons_ne_nil d b) hlen).trans hspelled
      rw [List.cons_append] at hread ⊢
      rw [firstHeader, hread]
      rfl
  | none =>
    -- no header starts in the name, so the first one is the line's own
    have hown : firstHeader (line.afterName (line.detail ++ line.ending)) =
        some ([], line.numbers) := by
      have hread := readHeader_afterName h hdetail
      rw [TraceLine.afterName] at hread ⊢
      rw [firstHeader, hread]
      rfl
    refine ⟨b ++ [], ?_⟩
    rw [firstHeader_append hb, hown]
    · rfl
    · intro a b' hab hb'
      have hlen' : a.length + b'.length ≤ 14 := by rwa [hab, List.length_append] at hlen
      rw [readHeader_name h hc hb' (by omega)]
      cases a with
      | nil =>
        obtain rfl : b = b' := hab
        exact hspelled
      | cons d a =>
        -- a part of the name is too short
        apply spelledNumbers_of_length
        rw [List.length_cons] at hlen' ⊢
        omega

/-- A dash between two texts without one. -/
theorem exists_of_dash {pre w post a b' : Text} (hpre : 0x2d ∉ pre) (hpost : 0x2d ∉ post)
    (h : pre ++ (w ++ post) = a ++ 0x2d :: b') :
    ∃ w₁ w₂, w = w₁ ++ 0x2d :: w₂ ∧ b' = w₂ ++ post := by
  obtain ⟨a', -, ha'⟩ := append_of_not_mem hpre h.symm
  rcases List.append_eq_append_iff.mp ha' with ⟨w₂, hw, hb'⟩ | ⟨z, -, hz⟩
  · cases w₂ with
    | nil =>
      rw [List.nil_append] at hb'
      exact absurd (hb' ▸ List.mem_cons_self) hpost
    | cons d w₂ =>
      obtain ⟨rfl, rfl⟩ := List.cons.inj hb'
      exact ⟨a', w₂, hw, rfl⟩
  · exact absurd (hz ▸ List.mem_append_right _ List.mem_cons_self) hpost

/-- Behind a dash in the flags stands a time, and no bracket. -/
theorem readHeader_in_flags (line : TraceLine) {w : Text} (hw : ∀ c ∈ w, isVisible c = true)
    (tail : Text) :
    readHeader (0x2d :: (w ++ (TraceLine.blanks line.secGap ++ line.fromTime tail))) = none := by
  cases hread : readHeader (0x2d :: (w ++ (TraceLine.blanks line.secGap ++ line.fromTime tail))) with
  | none => rfl
  | some numbers =>
    exfalso
    obtain ⟨parts, htext, hparts⟩ := exists_parts hread
    simp only [HeaderParts.toText, HeaderParts.front, List.append_assoc, List.cons_append] at htext
    obtain ⟨-, heq⟩ := List.cons.inj htext
    have hstops : ∀ t, Regex.Stops isPySpace (parts.group ++ 0x5b :: t) := by
      intro t
      rcases hparts.group with hgroup | ⟨u, hgroup⟩
      · rw [hgroup]
        exact Regex.stops_cons (by decide)
      · rw [hgroup]
        exact Regex.stops_cons (by decide)
    have hsame := append_blanks_inj hw
      (fun d hd => isVisible_of_isDigitSymbol (hparts.tid.2 d hd)) (isRun_blanks line.secGap)
      hparts.blanks₁
      (isRun_stops (isRun_decimal line.sec) (fun c hc => isDigitSymbol_space hc) _) (hstops _) heq
    rcases hparts.group with hgroup | ⟨u, hgroup⟩
    · rw [hgroup] at hsame
      exact ne_of_isRun_digits (isRun_decimal line.sec) (by decide) _ hsame
    · rw [hgroup] at hsame
      exact ne_of_isRun_digits (isRun_decimal line.sec) (by decide) _ hsame

/-- Up to the flags. -/
def TraceLine.beforeFlags (line : TraceLine) : Text :=
  JsonWriter.decimal line.tid ++ (TraceLine.blanks line.tidGap ++
    0x5b :: (line.cpuText ++ [0x5d, 0x20]))

/-- From the blanks behind the flags on. -/
def TraceLine.afterFlags (line : TraceLine) (tail : Text) : Text :=
  TraceLine.blanks line.secGap ++ line.fromTime tail

theorem TraceLine.afterName_eq (line : TraceLine) (tail : Text) :
    line.afterName tail =
      0x2d :: ((line.beforeFlags ++ (line.flags ++ line.afterFlags [])) ++ tail) := by
  simp [TraceLine.afterName, TraceLine.fromTime, TraceLine.beforeFlags, TraceLine.afterFlags]

theorem not_mem_around_flags (line : TraceLine) {c : Nat} (hc : isDigitSymbol c = false)
    (hne : c ∉ [0x20, 0x5b, 0x5d, 0x3a, 0x2e]) : c ∉ line.beforeFlags ∧ c ∉ line.afterFlags [] := by
  have hblanks : ∀ gap, c ∉ TraceLine.blanks gap := by
    intro gap hmem
    rw [List.eq_of_mem_replicate hmem] at hne
    exact hne (by decide)
  have hcpu := not_mem_run (isRun_zeroPad (isRun_decimal line.cpu) 3) hc
  have husec := not_mem_run (isRun_zeroPad (isRun_decimal line.usec) 6) hc
  have hdecimal := fun n => not_mem_run (isRun_decimal n) hc
  have hother : c ≠ 0x20 ∧ c ≠ 0x5b ∧ c ≠ 0x5d ∧ c ≠ 0x3a ∧ c ≠ 0x2e := by
    simpa using hne
  simp only [TraceLine.beforeFlags, TraceLine.afterFlags, TraceLine.fromTime, TraceLine.cpuText,
    TraceLine.usecText, List.mem_append, List.mem_cons, List.not_mem_nil, not_or]
  exact ⟨⟨hdecimal _, hblanks _, hother.2.1, hcpu, hother.2.2.1, hother.1, not_false⟩, hblanks _,
    hdecimal _, hother.2.2.2.2, husec, hother.2.2.2.1, hother.1, not_false⟩

/-- No header starts between the line's dash and its detail. -/
theorem firstHeader_detail (h : line.Printed) (tail : Text) :
    ∃ s pre, line.afterName tail = 0x2d :: s ∧
      firstHeader s = (firstHeader tail).map fun found => (pre ++ found.1, found.2) := by
  refine ⟨_, line.beforeFlags ++ (line.flags ++ line.afterFlags []), line.afterName_eq tail, ?_⟩
  have hdash := not_mem_around_flags line (c := 0x2d) (by decide) (by decide)
  have hline := not_mem_around_flags line (c := 0x0a) (by decide) (by decide)
  apply firstHeader_append
  · intro c hc
    apply decide_eq_true
    rintro rfl
    rcases List.mem_append.mp hc with hc | hc
    · exact hline.1 hc
    · rcases List.mem_append.mp hc with hc | hc
      · exact not_mem_run h.flags (by decide) hc
      · exact hline.2 hc
  · intro a b hab hb
    cases hread : readHeader (b ++ tail) with
    | none => rfl
    | some numbers =>
      exfalso
      -- a header starts with a dash, and only the flags have one
      obtain ⟨d, b, rfl⟩ := List.exists_cons_of_ne_nil hb
      obtain ⟨parts, htext, -⟩ := exists_parts hread
      obtain ⟨rfl, -⟩ := List.cons.inj htext
      obtain ⟨w₁, w₂, hw, rfl⟩ := exists_of_dash hdash.1 hdash.2 hab
      have hvisible : ∀ c ∈ w₂, isVisible c = true := by
        intro c hc
        apply h.flags.2
        rw [hw]
        exact List.mem_append_right _ (List.mem_cons_of_mem _ hc)
      have hnone := readHeader_in_flags line hvisible tail
      have hafter : line.afterFlags [] ++ tail =
          TraceLine.blanks line.secGap ++ line.fromTime tail := by
        simp [TraceLine.afterFlags, TraceLine.fromTime]
      rw [List.cons_append, List.append_assoc, hafter, hnone] at hread
      cases hread

end Spelled

/-! ## What `TRACE` reads -/

section Toward

variable {line : TraceLine}

theorem isPySpace_pad (n : Nat) : ∀ c ∈ List.replicate n 0x20, isPySpace c = true := by
  intro c hc
  rw [List.eq_of_mem_replicate hc]
  decide

/-- A name with a visible symbol: the header that it spells, or else the line's own. -/
theorem traceHeader_of_visible (h : line.Printed) (hdetail : line.detail.dropWhile isPySpace ≠ [])
    (hname : line.comm.all isPySpace = false) :
    ∃ comm, traceHeader line.toText =
      some (((spelledNumbers line.comm (line.afterName line.detail)).getD line.numbers).header
        comm) := by
  have hrest : line.comm.dropWhile isPySpace ≠ [] := by
    intro hnil
    rw [List.dropWhile_eq_nil_iff, ← List.all_eq_true] at hnil
    rw [hnil] at hname
    cases hname
  obtain ⟨c, b, hcons⟩ := List.exists_cons_of_ne_nil hrest
  have hcomm : line.comm = line.comm.takeWhile isPySpace ++ c :: b := by
    rw [← hcons, List.takeWhile_append_dropWhile]
  have hc : isVisible c = true := by
    have hhead := List.head?_dropWhile_not isPySpace line.comm
    rw [hcons] at hhead
    simpa [isVisible] using hhead
  have hlength : (line.comm.takeWhile isPySpace).length + (b.length + 1) ≤ 15 := by
    have hlen := h.comm_length
    rwa [hcomm, List.length_append, List.length_cons] at hlen
  have hdot : ∀ d ∈ b, isDot d = true := by
    intro d hd
    apply decide_eq_true
    rintro rfl
    apply h.comm_line
    rw [hcomm]
    exact List.mem_append_right _ (List.mem_cons_of_mem _ hd)
  have hspelled : spelledNumbers line.comm (line.afterName line.detail) =
      spelledNumbers (c :: b) (line.afterName line.detail) := by
    cases hlead : line.comm.takeWhile isPySpace with
    | nil => rw [hcomm, hlead, List.nil_append]
    | cons d lead =>
      -- behind a blank the name is too short to spell a header
      have hd : isPySpace d = true := by
        apply List.mem_takeWhile_imp (l := line.comm)
        rw [hlead]
        exact List.mem_cons_self
      rw [hlead, List.length_cons] at hlength
      rw [hcomm, hlead, List.cons_append, spelledNumbers_of_space hd, spelledNumbers_of_length]
      rw [List.length_cons]
      omega
  obtain ⟨name, hfirst⟩ := firstHeader_name h hdetail hc (by omega) hdot
  refine ⟨c :: name, ?_⟩
  have htext : line.toText = (List.replicate (16 - line.comm.length) 0x20 ++
      line.comm.takeWhile isPySpace) ++
      c :: (b ++ line.afterName (line.detail ++ line.ending)) := by
    rw [TraceLine.toText, TraceLine.nameText, List.append_assoc, List.append_assoc]
    congr 1
    rw [← List.cons_append, ← List.append_assoc, ← hcomm]
  have hlead : ∀ d ∈ List.replicate (16 - line.comm.length) 0x20 ++
      line.comm.takeWhile isPySpace, isPySpace d = true := by
    intro d hd
    rcases List.mem_append.mp hd with hd | hd
    · exact isPySpace_pad _ d hd
    · exact List.mem_takeWhile_imp hd
  rw [htext, traceHeader_visible hlead hc hfirst, hspelled]

/-- A name of blanks only: the first header that the detail spells, or else the line's own. -/
theorem traceHeader_of_blank (h : line.Printed) (hdetail : line.detail.dropWhile isPySpace ≠ [])
    (hname : line.comm.all isPySpace = true) :
    ∃ comm, traceHeader line.toText =
      some ((((firstHeader (line.detail ++ line.ending)).map Prod.snd).getD line.numbers).header
        comm) := by
  have hblank : ∀ c ∈ line.nameText, isPySpace c = true := by
    intro c hc
    rcases List.mem_append.mp hc with hc | hc
    · exact isPySpace_pad _ c hc
    · exact List.all_eq_true.mp hname c hc
  obtain ⟨s, pre, hafter, hfirst⟩ := firstHeader_detail h (line.detail ++ line.ending)
  have htext : line.toText = line.nameText ++ 0x2d :: s := by rw [TraceLine.toText, hafter]
  cases hother : firstHeader (line.detail ++ line.ending) with
  | some found =>
    -- the name is what lies between the line's dash and that header
    rw [hother, Option.map_some] at hfirst
    exact ⟨_, htext ▸ traceHeader_visible hblank (by decide) hfirst⟩
  | none =>
    -- the last blank of the name is given back, and is all of the name that is left
    rw [hother, Option.map_none] at hfirst
    obtain ⟨lead, w, hcomm⟩ : ∃ lead w, line.comm = lead ++ [w] :=
      ⟨_, _, (List.dropLast_append_getLast h.comm_ne_nil).symm⟩
    have hmem : w ∈ line.comm := hcomm ▸ List.mem_append_right _ List.mem_cons_self
    have hlead : ∀ d ∈ List.replicate (16 - line.comm.length) 0x20 ++ lead,
        isPySpace d = true := by
      intro d hd
      apply hblank
      rw [TraceLine.nameText, hcomm, ← List.append_assoc, ← hcomm]
      exact List.mem_append_left _ hd
    have hsplit : line.toText = (List.replicate (16 - line.comm.length) 0x20 ++ lead) ++
        w :: 0x2d :: s := by
      rw [htext, TraceLine.nameText]
      generalize 16 - line.comm.length = pad
      rw [hcomm]
      simp
    have hread := readHeader_afterName h hdetail
    rw [hafter] at hread
    have hdot : isDot w = true := by
      apply decide_eq_true
      rintro rfl
      exact h.comm_line hmem
    refine ⟨[w], ?_⟩
    rw [hsplit]
    exact traceHeader_blank hlead (List.all_eq_true.mp hname w hmem) hdot hfirst hread

/-- **What `TRACE` reads of a printed line**: the numbers of another header, if the line spells one
    too early, and else its own. -/
theorem traceHeader_toText (h : line.Printed) (hdetail : line.detail.dropWhile isPySpace ≠ []) :
    ∃ comm, traceHeader line.toText =
      some ((line.otherHeader.getD line.numbers).header comm) := by
  unfold TraceLine.otherHeader
  cases hname : line.comm.all isPySpace with
  | true => exact traceHeader_of_blank h hdetail hname
  | false => exact traceHeader_of_visible h hdetail hname

end Toward

end LinuxMaxxing.Framework
