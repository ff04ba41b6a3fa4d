import Mathlib.Data.List.DropRight
import LinuxMaxxing.Lib.JsonLocality

/-!
# One JSON Document a Line, Under Two Line Disciplines

A text may be cut into lines with *universal newlines* (LF, CRLF and a lone CR all end
a line, and a line keeps an LF at its end), or by splitting at LF with an optional CR
before it, after trimming whitespace at the end. The two agree on where a document
ends exactly when every CR of the trimmed text stands before an LF.

- `linesOf`: the lines under universal newlines;
- `splitCrLf`: the pieces between line ends;
- `parses_splitCrLf`: if every line is a document and every CR is paired, the pieces
  are the same documents;
- `exists_none_of_not_crPaired`: if a CR is not paired, one of the pieces is none;
- `linesOf_flatMap`: lines put together are cut apart again.
-/

namespace LinuxMaxxing.Lib.JsonLines

open Json

/-! ## Lines and pieces -/

/-- A symbol in front of the first line. -/
def consHead (c : Nat) : List (List Nat) → List (List Nat)
  | [] => [[c]]
  | l :: ls => (c :: l) :: ls

/-- CRLF and lone CR become LF. -/
def universalNewlines : List Nat → List Nat
  | [] => []
  | c :: s =>
    if c = 0x0d then
      if s.head? = some 0x0a then universalNewlines s else 0x0a :: universalNewlines s
    else c :: universalNewlines s

/-- The lines, each with the LF that ends it; the last one may have none. -/
def keepingLf : List Nat → List (List Nat)
  | [] => []
  | c :: s => if c = 0x0a then [c] :: keepingLf s else consHead c (keepingLf s)

/-- The lines under universal newlines. -/
def linesOf (s : List Nat) : List (List Nat) := keepingLf (universalNewlines s)

/-- The pieces between LFs. -/
def splitLf : List Nat → List (List Nat)
  | [] => [[]]
  | c :: s => if c = 0x0a then [] :: splitLf s else consHead c (splitLf s)

/-- The pieces between LFs, each of which takes one CR before it with it. -/
def splitCrLf : List Nat → List (List Nat)
  | [] => [[]]
  | c :: s =>
    if c = 0x0a then [] :: splitCrLf s
    else if c = 0x0d ∧ s.head? = some 0x0a then splitCrLf s
    else consHead c (splitCrLf s)

/-- Every CR stands before an LF. -/
def crPaired : List Nat → Bool
  | [] => true
  | c :: s => (c ≠ 0x0d || s.head? = some 0x0a) && crPaired s

/-! ## Pieces of a concatenation -/

theorem consHead_append (c : Nat) {x : List (List Nat)} (hx : x ≠ []) (y : List (List Nat)) :
    consHead c (x ++ y) = consHead c x ++ y := by
  cases x with
  | nil => exact absurd rfl hx
  | cons l ls => rfl

/-- What extends the last line of `consHead` extends the last line it was built of. -/
theorem consHead_concat {c : Nat} {ks ls : List (List Nat)} {k l : List Nat}
    (h : consHead c (ks ++ [k]) = ls ++ [l]) (x : List Nat) (ys : List (List Nat)) :
    consHead c (ks ++ (k ++ x) :: ys) = ls ++ (l ++ x) :: ys := by
  cases ks with
  | nil =>
    cases ls with
    | nil =>
      cases h
      rfl
    | cons m ms =>
      obtain ⟨-, htail⟩ := List.cons.inj h
      simp at htail
  | cons j js =>
    cases ls with
    | nil =>
      obtain ⟨-, htail⟩ := List.cons.inj h
      simp at htail
    | cons m ms =>
      obtain ⟨rfl, htail⟩ := List.cons.inj h
      obtain ⟨rfl, hlast⟩ := List.append_inj' htail rfl
      cases hlast
      rfl

theorem splitLf_ne_nil (s : List Nat) : splitLf s ≠ [] := by
  cases s with
  | nil => exact List.cons_ne_nil _ _
  | cons c s =>
    rw [splitLf]
    split
    · exact List.cons_ne_nil _ _
    · cases splitLf s with
      | nil => exact List.cons_ne_nil _ _
      | cons l ls => exact List.cons_ne_nil _ _

/-- The last piece. -/
theorem exists_splitLf_concat (s : List Nat) : ∃ ls l, splitLf s = ls ++ [l] :=
  ⟨_, _, (List.dropLast_append_getLast (splitLf_ne_nil s)).symm⟩

theorem splitLf_append_lf (a b : List Nat) : splitLf (a ++ 0x0a :: b) = splitLf a ++ splitLf b := by
  induction a with
  | nil => rfl
  | cons c a ih =>
    rw [List.cons_append, splitLf, splitLf, ih]
    split
    · rfl
    · exact consHead_append c (splitLf_ne_nil a) _

theorem splitLf_eq_singleton {y : List Nat} (hy : 0x0a ∉ y) : splitLf y = [y] := by
  induction y with
  | nil => rfl
  | cons c y ih =>
    rw [List.mem_cons, not_or] at hy
    rw [splitLf, if_neg (Ne.symm hy.1), ih hy.2]
    rfl

/-- Text without LF extends the last piece. -/
theorem splitLf_append {a y l : List Nat} {ls : List (List Nat)} (h : splitLf a = ls ++ [l])
    (hy : 0x0a ∉ y) : splitLf (a ++ y) = ls ++ [l ++ y] := by
  induction a generalizing ls l with
  | nil =>
    have hnil : ls = [] ∧ l = [] := by
      cases ls with
      | nil => simpa [splitLf] using h.symm
      | cons m ms => simp [splitLf] at h
    rw [hnil.1, hnil.2]
    exact splitLf_eq_singleton hy
  | cons c a ih =>
    rw [List.cons_append, splitLf]
    rw [splitLf] at h
    by_cases hc : c = 0x0a
    · rw [if_pos hc] at h ⊢
      cases ls with
      | nil => exact absurd (List.cons.inj h).2 (splitLf_ne_nil a)
      | cons m ms =>
        obtain ⟨rfl, htail⟩ := List.cons.inj h
        rw [ih htail]
        rfl
    · rw [if_neg hc] at h ⊢
      obtain ⟨ks, k, hk⟩ := exists_splitLf_concat a
      rw [ih hk]
      rw [hk] at h
      exact consHead_concat h y []

/-! ## Lines as pieces -/

/-- The lines of a text from its pieces: each piece but the last had an LF. -/
def keepEnds : List (List Nat) → List (List Nat)
  | [] => []
  | [l] => if l = [] then [] else [l]
  | l :: ls => (l ++ [0x0a]) :: keepEnds ls

theorem keepEnds_append (ls : List (List Nat)) {ms : List (List Nat)} (hms : ms ≠ []) :
    keepEnds (ls ++ ms) = ls.map (· ++ [0x0a]) ++ keepEnds ms := by
  induction ls with
  | nil => rfl
  | cons l ls ih =>
    have hne : ls ++ ms ≠ [] := List.append_ne_nil_of_right_ne_nil _ hms
    obtain ⟨k, ks, hks⟩ := List.exists_cons_of_ne_nil hne
    rw [List.cons_append, List.map_cons, List.cons_append, ← ih, hks, keepEnds]
    exact List.cons_ne_nil _ _

theorem keepingLf_eq (s : List Nat) : keepingLf s = keepEnds (splitLf s) := by
  induction s with
  | nil => rfl
  | cons c s ih =>
    obtain ⟨k, ks, hks⟩ := List.exists_cons_of_ne_nil (splitLf_ne_nil s)
    rw [keepingLf, splitLf, ih, hks]
    split
    · next hc =>
      subst hc
      rfl
    · cases ks with
      | nil =>
        cases k with
        | nil => rfl
        | cons d k => rfl
      | cons j js => rfl

theorem mem_of_mem_keepingLf {s l : List Nat} {c : Nat} (hl : l ∈ keepingLf s) (hc : c ∈ l) :
    c ∈ s := by
  induction s generalizing l with
  | nil => cases hl
  | cons d s ih =>
    rw [keepingLf] at hl
    split at hl
    · rcases List.mem_cons.mp hl with rfl | hl
      · rw [List.mem_singleton.mp hc]
        exact List.mem_cons_self
      · exact List.mem_cons_of_mem _ (ih hl hc)
    · cases hk : keepingLf s with
      | nil =>
        rw [hk] at hl
        rw [List.mem_singleton.mp hl] at hc
        rw [List.mem_singleton.mp hc]
        exact List.mem_cons_self
      | cons k ks =>
        rw [hk] at hl ih
        rcases List.mem_cons.mp hl with rfl | hl
        · rcases List.mem_cons.mp hc with rfl | hc
          · exact List.mem_cons_self
          · exact List.mem_cons_of_mem _ (ih List.mem_cons_self hc)
        · exact List.mem_cons_of_mem _ (ih (List.mem_cons_of_mem _ hl) hc)

/-! ## Newlines of a concatenation -/

theorem mem_universalNewlines {s : List Nat} {c : Nat} (h : c ∈ universalNewlines s) :
    c ∈ s ∨ c = 0x0a := by
  induction s with
  | nil => cases h
  | cons d s ih =>
    rw [universalNewlines] at h
    have hrest : c ∈ universalNewlines s → c ∈ d :: s ∨ c = 0x0a := by
      intro hmem
      rcases ih hmem with hc | hc
      · exact .inl (List.mem_cons_of_mem _ hc)
      · exact .inr hc
    split at h
    · split at h
      · exact hrest h
      · rcases List.mem_cons.mp h with hc | hmem
        · exact .inr hc
        · exact hrest hmem
    · rcases List.mem_cons.mp h with rfl | hmem
      · exact .inl List.mem_cons_self
      · exact hrest hmem

/-- A symbol that is no line end separates what stands around it. -/
theorem universalNewlines_append_cons {c : Nat} (hcr : c ≠ 0x0d) (hlf : c ≠ 0x0a)
    (s t : List Nat) :
    universalNewlines (s ++ c :: t) = universalNewlines s ++ c :: universalNewlines t := by
  induction s with
  | nil => simp [universalNewlines, hcr]
  | cons d s ih =>
    have hhead : (s ++ c :: t).head? = some 0x0a ↔ s.head? = some 0x0a := by
      cases s with
      | nil => simp [hlf]
      | cons e s => rfl
    simp only [List.cons_append, universalNewlines, ih, hhead]
    split
    · split
      · rfl
      · rfl
    · rfl

/-- So does a lone CR, which becomes an LF. -/
theorem universalNewlines_append_cr {s t : List Nat} (hs : crPaired s = true)
    (ht : t.head? ≠ some 0x0a) :
    universalNewlines (s ++ 0x0d :: t) = universalNewlines s ++ 0x0a :: universalNewlines t := by
  induction s with
  | nil => simp [universalNewlines, ht]
  | cons d s ih =>
    rw [crPaired, Bool.and_eq_true] at hs
    have hhead : d = 0x0d → (s ++ 0x0d :: t).head? = some 0x0a ∧ s.head? = some 0x0a := by
      intro hd
      have hlf : s.head? = some 0x0a := by simpa [hd] using hs.1
      cases s with
      | nil => cases hlf
      | cons e s => exact ⟨hlf, hlf⟩
    simp only [List.cons_append, universalNewlines, ih hs.2]
    split
    · next hd =>
      obtain ⟨h₁, h₂⟩ := hhead hd
      rw [if_pos h₁, if_pos h₂]
    · rfl

/-- With every CR paired the two disciplines cut alike. -/
theorem splitCrLf_eq {s : List Nat} (h : crPaired s = true) :
    splitCrLf s = splitLf (universalNewlines s) := by
  induction s with
  | nil => rfl
  | cons c s ih =>
    rw [crPaired, Bool.and_eq_true] at h
    rw [splitCrLf, universalNewlines, ih h.2]
    by_cases hcr : c = 0x0d
    · have hlf : s.head? = some 0x0a := by simpa [hcr] using h.1
      subst hcr
      simp [hlf]
    · by_cases hc : c = 0x0a
      · subst hc
        rfl
      · simp [hcr, hc, splitLf]

/-! ## Documents -/

variable {dec : List StrItem → List Nat}

/-- The lines are these documents. -/
def Parses (dec : List StrItem → List Nat) : List (List Nat) → List Value → Prop :=
  List.Forall₂ fun l v => parseDocument dec l = some v

theorem blank_lf : Blank [0x0a] := by
  intro c hc
  rw [List.mem_singleton.mp hc]
  decide

/-- The LF of a line does not matter. -/
theorem parses_map_lf {ls : List (List Nat)} {vs : List Value} :
    Parses dec (ls.map (· ++ [0x0a])) vs ↔ Parses dec ls vs := by
  unfold Parses
  rw [List.forall₂_map_left_iff]
  simp only [parseDocument_append_blank blank_lf]

/-- Lines without visible symbols are no documents. -/
theorem eq_nil_of_parses {s : List Nat} {vs : List Value} (h : Parses dec (keepingLf s) vs)
    (hs : ∀ c ∈ s, ¬ Visible c) : vs = [] := by
  cases hl : keepingLf s with
  | nil =>
    rw [hl] at h
    cases h
    rfl
  | cons l ls =>
    rw [hl] at h
    cases h with
    | cons hparse _ =>
      obtain ⟨c, hc, hvis⟩ := exists_visible_of_parseDocument hparse
      have hmem : c ∈ s := mem_of_mem_keepingLf (by rw [hl]; exact List.mem_cons_self) hc
      exact absurd hvis (hs c hmem)

theorem Parses.of_append {ls ms : List (List Nat)} {vs : List Value}
    (h : Parses dec (ls ++ ms) vs) :
    ∃ us ws, vs = us ++ ws ∧ Parses dec ls us ∧ Parses dec ms ws := by
  induction ls generalizing vs with
  | nil => exact ⟨[], vs, rfl, .nil, h⟩
  | cons l ls ih =>
    cases h with
    | cons hparse hrest =>
      obtain ⟨us, ws, rfl, hls, hms⟩ := ih hrest
      exact ⟨_ :: us, ws, rfl, .cons hparse hls, hms⟩

/-- A line of documents is one. -/
theorem exists_of_parses {ls : List (List Nat)} {vs : List Value} {l : List Nat}
    (h : Parses dec ls vs) (hl : l ∈ ls) : ∃ v, parseDocument dec l = some v := by
  induction h with
  | nil => cases hl
  | cons hparse _ ih =>
    rcases List.mem_cons.mp hl with rfl | hl
    · exact ⟨_, hparse⟩
    · exact ih hl

theorem Parses.append {ls ms : List (List Nat)} {us ws : List Value} (hls : Parses dec ls us)
    (hms : Parses dec ms ws) : Parses dec (ls ++ ms) (us ++ ws) :=
  List.rel_append hls hms

/-- Invisible text `y` behind the pieces of `x` adds at most whitespace to the last
    of them. -/
theorem parses_splitLf_of_append {x y : List Nat} {c : Nat} {vs : List Value} (hc : c ≠ 0x0a)
    (hws : isWs c = false) (hy : ∀ d ∈ y, ¬ Visible d)
    (h : Parses dec (keepingLf (x ++ [c] ++ y)) vs) : Parses dec (splitLf (x ++ [c])) vs := by
  obtain ⟨ls, l, hl⟩ := exists_splitLf_concat x
  have hsplit : splitLf (x ++ [c]) = ls ++ [l ++ [c]] :=
    splitLf_append hl (by simpa using Ne.symm hc)
  -- the last piece, with the invisible text `y'` up to the first LF
  have hlast : ∀ y', (∀ d ∈ y', ¬ Visible d) →
      Parses dec (ls ++ [l ++ [c] ++ y']) vs → Parses dec (ls ++ [l ++ [c]]) vs := by
    intro y' hinvisible hparses
    obtain ⟨us, ws, rfl, hls, hend⟩ := hparses.of_append
    apply hls.append
    cases hend with
    | cons hparse hnil =>
      have hblank := blank_of_parseDocument_append hparse hinvisible ⟨c, by simp, hws⟩
      rw [parseDocument_append_blank hblank] at hparse
      exact .cons hparse hnil
  rw [hsplit]
  rw [keepingLf_eq] at h
  by_cases hlf : 0x0a ∈ y
  · -- what follows the line end would be a line without visible symbols
    obtain ⟨y', z, rfl, hfirst⟩ := List.eq_append_cons_of_mem hlf
    have hy' : ∀ d ∈ y', ¬ Visible d := fun d hd => hy d (List.mem_append_left _ hd)
    have hz : ∀ d ∈ z, ¬ Visible d :=
      fun d hd => hy d (List.mem_append_right _ (List.mem_cons_of_mem _ hd))
    rw [← List.append_assoc, splitLf_append_lf, splitLf_append hsplit hfirst,
      keepEnds_append _ (splitLf_ne_nil z), ← keepingLf_eq] at h
    obtain ⟨us, ws, rfl, hls, hrest⟩ := h.of_append
    rw [eq_nil_of_parses hrest hz, List.append_nil] at hlast ⊢
    exact hlast y' hy' (parses_map_lf.mp hls)
  · apply hlast y hy
    rw [splitLf_append hsplit hlf, keepEnds_append _ (List.cons_ne_nil _ _)] at h
    obtain ⟨us, ws, rfl, hls, hend⟩ := h.of_append
    apply (parses_map_lf.mp hls).append
    rw [keepEnds, if_neg (by simp)] at hend
    exact hend

/-! ## A lone CR -/

theorem splitCrLf_ne_nil (s : List Nat) : splitCrLf s ≠ [] := by
  induction s with
  | nil => exact List.cons_ne_nil _ _
  | cons c s ih =>
    rw [splitCrLf]
    split
    · exact List.cons_ne_nil _ _
    · split
      · exact ih
      · cases splitCrLf s with
        | nil => exact List.cons_ne_nil _ _
        | cons l ls => exact List.cons_ne_nil _ _

/-- The first lone CR. -/
theorem exists_lone_cr {s : List Nat} (h : crPaired s = false) :
    ∃ a b, s = a ++ 0x0d :: b ∧ crPaired a = true ∧ b.head? ≠ some 0x0a := by
  induction s with
  | nil => cases h
  | cons c s ih =>
    by_cases hc : c = 0x0d ∧ s.head? ≠ some 0x0a
    · obtain ⟨rfl, hhead⟩ := hc
      exact ⟨[], s, rfl, rfl, hhead⟩
    · have hpair : (c ≠ 0x0d || s.head? = some 0x0a) = true := by
        by_cases hcr : c = 0x0d
        · have hlf : s.head? = some 0x0a := by
            by_contra hno
            exact hc ⟨hcr, hno⟩
          simp [hlf]
        · simp [hcr]
      rw [crPaired, hpair, Bool.true_and] at h
      obtain ⟨a, b, rfl, ha, hb⟩ := ih h
      refine ⟨c :: a, b, rfl, ?_, hb⟩
      rw [crPaired, ha, Bool.and_true]
      -- the LF after a paired CR is in `a`
      cases a with
      | nil =>
        have hne : c ≠ 0x0d := by
          rintro rfl
          simp at hpair
        simp [hne]
      | cons d a => exact hpair

/-- A lone CR does not end a piece. -/
theorem splitCrLf_append_cr {a b l m : List Nat} {ls ms : List (List Nat)}
    (ha : splitCrLf a = ls ++ [l]) (hb : splitCrLf b = m :: ms) (hhead : b.head? ≠ some 0x0a) :
    splitCrLf (a ++ 0x0d :: b) = ls ++ (l ++ 0x0d :: m) :: ms := by
  induction a generalizing ls l with
  | nil =>
    have hnil : ls = [] ∧ l = [] := by
      cases ls with
      | nil => simpa [splitCrLf] using ha.symm
      | cons k ks => simp [splitCrLf] at ha
    rw [hnil.1, hnil.2]
    simp [splitCrLf, hhead, hb, consHead]
  | cons c a ih =>
    have hnext : (a ++ 0x0d :: b).head? = some 0x0a ↔ a.head? = some 0x0a := by
      cases a with
      | nil => simp
      | cons d a => rfl
    rw [List.cons_append, splitCrLf]
    rw [splitCrLf] at ha
    simp only [hnext]
    split
    · next hc =>
      rw [if_pos hc] at ha
      cases ls with
      | nil => exact absurd (List.cons.inj ha).2 (splitCrLf_ne_nil a)
      | cons k ks =>
        obtain ⟨rfl, htail⟩ := List.cons.inj ha
        rw [ih htail]
        rfl
    · next hc =>
      rw [if_neg hc] at ha
      split
      · next hpair =>
        rw [if_pos hpair] at ha
        exact ih ha
      · next hpair =>
        rw [if_neg hpair] at ha
        obtain ⟨ks, k, hk⟩ : ∃ ks k, splitCrLf a = ks ++ [k] :=
          ⟨_, _, (List.dropLast_append_getLast (splitCrLf_ne_nil a)).symm⟩
        rw [ih hk]
        rw [hk] at ha
        exact consHead_concat ha (0x0d :: m) ms

/-- The first line is the beginning of the first piece. -/
theorem splitLf_head_prefix (s : List Nat) : ∃ l ls m ms,
    splitLf (universalNewlines s) = l :: ls ∧ splitCrLf s = m :: ms ∧ l <+: m := by
  induction s with
  | nil => exact ⟨[], [], [], [], rfl, rfl, List.nil_prefix⟩
  | cons c s ih =>
    obtain ⟨l, ls, m, ms, hl, hm, hbegins⟩ := ih
    rw [universalNewlines, splitCrLf]
    by_cases hcr : c = 0x0d
    · have hlf : c ≠ 0x0a := by
        rintro rfl
        cases hcr
      rw [if_pos hcr, if_neg hlf]
      by_cases hhead : s.head? = some 0x0a
      · rw [if_pos hhead, if_pos ⟨hcr, hhead⟩]
        exact ⟨l, ls, m, ms, hl, hm, hbegins⟩
      · rw [if_neg hhead, if_neg fun hpair => hhead hpair.2, hm]
        exact ⟨[], _, _, _, rfl, rfl, List.nil_prefix⟩
    · rw [if_neg hcr]
      by_cases hlf : c = 0x0a
      · rw [if_pos hlf, splitLf, if_pos hlf]
        exact ⟨[], _, [], _, rfl, rfl, List.nil_prefix⟩
      · rw [if_neg hlf, if_neg fun hpair => hcr hpair.1, splitLf, if_neg hlf, hl, hm]
        exact ⟨c :: l, ls, c :: m, ms, rfl, rfl, List.cons_prefix_cons.mpr ⟨rfl, hbegins⟩⟩

/-- Two documents with a lone CR between them are one piece, and none. -/
theorem exists_none_of_not_crPaired {s : List Nat} {vs : List Value}
    (h : Parses dec (splitLf (universalNewlines s)) vs) (hcr : crPaired s = false) :
    ∃ m ∈ splitCrLf s, parseDocument dec m = none := by
  obtain ⟨a, b, rfl, ha, hb⟩ := exists_lone_cr hcr
  rw [universalNewlines_append_cr ha hb, splitLf_append_lf] at h
  obtain ⟨us, ws, rfl, hbefore, hafter⟩ := h.of_append
  -- the last line before the CR is a document
  obtain ⟨ls, l, hl⟩ := exists_splitLf_concat (universalNewlines a)
  rw [hl] at hbefore
  obtain ⟨_, _, rfl, -, hend⟩ := hbefore.of_append
  obtain ⟨v, hv⟩ : ∃ v, parseDocument dec l = some v := by
    cases hend with
    | cons hparse _ => exact ⟨_, hparse⟩
  -- the first line after it has a visible symbol
  obtain ⟨k, ks, m, ms, hk, hm, hbegins⟩ := splitLf_head_prefix b
  rw [hk] at hafter
  obtain ⟨c, hc, hvis⟩ : ∃ c ∈ k, Visible c := by
    cases hafter with
    | cons hparse _ => exact exists_visible_of_parseDocument hparse
  have hnotblank : ¬ Blank (0x0d :: m) := by
    intro hblank
    have hws := hblank c (List.mem_cons_of_mem _ (hbegins.subset hc))
    rw [hvis.isWs_eq_false] at hws
    cases hws
  have hstart : Starts (fun c => isWs c = true) (0x0d :: m) := by
    intro d hd
    cases hd
    decide
  rw [← splitCrLf_eq ha] at hl
  refine ⟨l ++ 0x0d :: m, ?_, parseDocument_append_none hv hstart hnotblank⟩
  rw [splitCrLf_append_cr hl hm hb]
  simp

/-! ## The two disciplines -/

section

variable {ws : Nat → Bool} (hjson : ∀ c, isWs c = true → ws c = true)
  (hvisible : ∀ c, Visible c → ws c = false)

include hjson hvisible

/-- The documents of the lines are those of the pieces of the trimmed text. -/
theorem parses_splitLf_trimmed {s : List Nat} {vs : List Value} (hne : vs ≠ [])
    (h : Parses dec (linesOf s) vs) :
    Parses dec (splitLf (universalNewlines (s.rdropWhile ws))) vs := by
  have htail : ∀ c ∈ universalNewlines (s.rtakeWhile ws), ¬ Visible c := by
    intro c hc hvis
    rcases mem_universalNewlines hc with hmem | rfl
    · have hws := List.mem_rtakeWhile_imp hmem
      rw [hvisible c hvis] at hws
      cases hws
    · exact absurd hvis (by decide)
  have hs : s.rdropWhile ws ++ s.rtakeWhile ws = s := List.rdropWhile_append_rtakeWhile
  rcases List.eq_nil_or_concat (s.rdropWhile ws) with hnil | ⟨x, c, hx⟩
  · -- nothing but whitespace, which holds no document
    rw [hnil, List.nil_append] at hs
    rw [linesOf, ← hs] at h
    exact absurd (eq_nil_of_parses h htail) hne
  · have hc : ws c = false := by
      have hlast := List.rdropWhile_last_not ws s (by rw [hx]; simp)
      simpa [hx] using hlast
    have hnot : ∀ d, isWs d = true → c ≠ d := by
      rintro d hd rfl
      rw [hjson c hd] at hc
      cases hc
    have hcr := hnot 0x0d (by decide)
    have hlf := hnot 0x0a (by decide)
    have hws : isWs c = false := by
      cases hd : isWs c with
      | false => rfl
      | true => exact absurd rfl (hnot c hd)
    rw [List.concat_eq_append] at hx
    rw [hx, universalNewlines_append_cons hcr hlf]
    refine parses_splitLf_of_append hlf hws htail ?_
    rw [linesOf, ← hs, hx, List.append_assoc, List.singleton_append,
      universalNewlines_append_cons hcr hlf] at h
    simpa [universalNewlines] using h

/-- **Agreement**: with every CR of the trimmed text paired, its pieces are the
    documents of the lines. -/
theorem parses_splitCrLf {s : List Nat} {vs : List Value} (hne : vs ≠ [])
    (h : Parses dec (linesOf s) vs) (hpaired : crPaired (s.rdropWhile ws) = true) :
    Parses dec (splitCrLf (s.rdropWhile ws)) vs := by
  rw [splitCrLf_eq hpaired]
  exact parses_splitLf_trimmed hjson hvisible hne h

end
/-! ## Lines put together -/

theorem universalNewlines_eq_self {s : List Nat} (h : 0x0d ∉ s) : universalNewlines s = s := by
  induction s with
  | nil => rfl
  | cons c s ih =>
    rw [List.mem_cons, not_or] at h
    rw [universalNewlines, if_neg (Ne.symm h.1), ih h.2]

theorem keepingLf_append_lf {l : List Nat} (h : 0x0a ∉ l) (s : List Nat) :
    keepingLf (l ++ 0x0a :: s) = (l ++ [0x0a]) :: keepingLf s := by
  induction l with
  | nil => rfl
  | cons c l ih =>
    rw [List.mem_cons, not_or] at h
    rw [List.cons_append, keepingLf, if_neg (Ne.symm h.1), ih h.2]
    rfl

/-- The lines of a file that was written line by line. -/
theorem linesOf_flatMap {ls : List (List Nat)} (h : ∀ l ∈ ls, 0x0a ∉ l ∧ 0x0d ∉ l) :
    linesOf (ls.flatMap (· ++ [0x0a])) = ls.map (· ++ [0x0a]) := by
  have hcr : 0x0d ∉ ls.flatMap (· ++ [0x0a]) := by
    intro hmem
    obtain ⟨l, hl, hmem⟩ := List.mem_flatMap.mp hmem
    rcases List.mem_append.mp hmem with hmem | hmem
    · exact (h l hl).2 hmem
    · exact absurd (List.mem_singleton.mp hmem) (by decide)
  unfold linesOf
  rw [universalNewlines_eq_self hcr]
  induction ls with
  | nil => rfl
  | cons l ls ih =>
    rw [List.forall_mem_cons] at h
    rw [List.flatMap_cons, List.append_assoc, List.singleton_append, keepingLf_append_lf h.1.1,
      List.map_cons, ih h.2]
    rw [List.flatMap_cons, List.mem_append, not_or] at hcr
    exact hcr.2

end LinuxMaxxing.Lib.JsonLines
