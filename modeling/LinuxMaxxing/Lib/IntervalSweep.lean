import Mathlib

/-!
# Sweeps over Spans

A cursor goes over spans in the order of their starts. Where a span starts behind the cursor, what
lies between is a gap, and the cursor is taken to the end of the span where that is further on. Spans
may overlap, lie in each other or be empty.

- `pieces`: the spans and the gaps before them
- `reach`: where the cursor is at last
- `exists_mem_pieces`: the pieces cover all the cursor went over
- `pieces_pairwise`: a gap meets no other piece
- `tiling`: the pieces of a whole range, with the gap behind the last span
-/

namespace LinuxMaxxing.Lib

universe u

variable {α : Type u}

/-- A span, or a gap between spans. -/
structure Piece (α : Type u) where
  isGap : Bool
  start : α
  stop : α
  deriving DecidableEq, Repr

section Pieces

variable [LinearOrder α]

/-- What a piece covers. -/
def Piece.carrier (p : Piece α) : Set α := Set.Ico p.start p.stop

/-- A gap has nothing of another piece. -/
def Piece.Clear (p q : Piece α) : Prop :=
  p.isGap = true ∨ q.isGap = true → Disjoint p.carrier q.carrier

/-- The spans, each behind the gap before it. -/
def pieces (cursor : α) : List (α × α) → List (Piece α)
  | [] => []
  | s :: spans =>
    (if cursor < s.1 then [⟨true, cursor, s.1⟩] else []) ++
      ⟨false, s.1, s.2⟩ :: pieces (max cursor s.2) spans

/-- The cursor behind the spans. -/
def reach (cursor : α) : List (α × α) → α
  | [] => cursor
  | s :: spans => reach (max cursor s.2) spans

variable {cursor : α} {spans : List (α × α)}

/-- What ends before the other starts. -/
theorem Piece.disjoint_of_le {p q : Piece α} (h : p.stop ≤ q.start) :
    Disjoint p.carrier q.carrier :=
  Set.disjoint_left.mpr fun _ hp hq => absurd (lt_of_lt_of_le hp.2 h) (not_lt.mpr hq.1)

/-- **Coverage**: whatever the cursor went over is in a piece. The order of the spans does not matter
    for it. -/
theorem exists_mem_pieces {a : α} (hlow : cursor ≤ a) (hhigh : a < reach cursor spans) :
    ∃ p ∈ pieces cursor spans, a ∈ p.carrier := by
  induction spans generalizing cursor with
  | nil => exact absurd hhigh (not_lt.mpr hlow)
  | cons s spans ih =>
    rw [pieces]
    by_cases hpassed : a < max cursor s.2
    · have hstop : a < s.2 := (lt_max_iff.mp hpassed).resolve_left (not_lt.mpr hlow)
      by_cases hstart : s.1 ≤ a
      · exact ⟨_, List.mem_append_right _ List.mem_cons_self, hstart, hstop⟩
      · -- before the span the cursor left a gap
        have hgap : cursor < s.1 := lt_of_le_of_lt hlow (not_le.mp hstart)
        rw [if_pos hgap]
        exact ⟨_, List.mem_append_left _ List.mem_cons_self, hlow, not_le.mp hstart⟩
    · obtain ⟨p, hp, ha⟩ := ih (not_lt.mp hpassed) hhigh
      exact ⟨p, List.mem_append_right _ (List.mem_cons_of_mem _ hp), ha⟩

/-- A piece is a span, or a gap that starts at the cursor or behind it. -/
theorem span_or_gap {p : Piece α} (h : p ∈ pieces cursor spans) :
    (p.isGap = false ∧ (p.start, p.stop) ∈ spans) ∨ (p.isGap = true ∧ cursor ≤ p.start) := by
  induction spans generalizing cursor with
  | nil => exact absurd h List.not_mem_nil
  | cons s spans ih =>
    rw [pieces] at h
    rcases List.mem_append.mp h with h | h
    · split at h
      · rw [List.mem_singleton.mp h]
        exact .inr ⟨rfl, le_rfl⟩
      · exact absurd h List.not_mem_nil
    · rcases List.mem_cons.mp h with rfl | h
      · exact .inl ⟨rfl, List.mem_cons_self⟩
      · rcases ih h with ⟨hspan, hmem⟩ | ⟨hgap, hstart⟩
        · exact .inl ⟨hspan, List.mem_cons_of_mem _ hmem⟩
        · exact .inr ⟨hgap, le_trans (le_max_left _ _) hstart⟩

/-- **Gaps are clear**: in spans sorted by their starts no gap meets another piece. -/
theorem pieces_pairwise (hsorted : spans.Pairwise fun s t => s.1 ≤ t.1)
    (hle : ∀ s ∈ spans, s.1 ≤ s.2) : (pieces cursor spans).Pairwise Piece.Clear := by
  induction spans generalizing cursor with
  | nil => exact List.Pairwise.nil
  | cons s spans ih =>
    obtain ⟨hfirst, hsorted⟩ := List.pairwise_cons.mp hsorted
    have hs : s.1 ≤ s.2 := hle s List.mem_cons_self
    have hrest : (pieces (max cursor s.2) spans).Pairwise Piece.Clear :=
      ih hsorted fun t ht => hle t (List.mem_cons_of_mem _ ht)
    -- the pieces behind the span start behind the span's start, their gaps behind its end
    have hspan : ∀ p ∈ pieces (max cursor s.2) spans, s.1 ≤ p.start := by
      intro p hp
      rcases span_or_gap hp with ⟨-, hmem⟩ | ⟨-, hstart⟩
      · exact hfirst _ hmem
      · exact le_trans hs (le_trans (le_max_right _ _) hstart)
    have hclear : (⟨false, s.1, s.2⟩ :: pieces (max cursor s.2) spans).Pairwise Piece.Clear := by
      refine List.pairwise_cons.mpr ⟨fun p hp hgap => ?_, hrest⟩
      rcases span_or_gap hp with ⟨hfalse, -⟩ | ⟨-, hstart⟩
      · rw [hfalse] at hgap
        rcases hgap with hgap | hgap
        · exact absurd hgap Bool.false_ne_true
        · exact absurd hgap Bool.false_ne_true
      · exact Piece.disjoint_of_le (le_trans (le_max_right _ _) hstart)
    rw [pieces]
    split
    · refine List.pairwise_cons.mpr ⟨fun p hp _ => Piece.disjoint_of_le ?_, hclear⟩
      rcases List.mem_cons.mp hp with rfl | hp
      · exact le_rfl
      · exact hspan p hp
    · exact hclear

theorem le_reach : cursor ≤ reach cursor spans := by
  induction spans generalizing cursor with
  | nil => exact le_rfl
  | cons s spans ih => exact le_trans (le_max_left _ _) ih

/-- No piece ends behind the cursor: a gap ends where the next span starts. -/
theorem stop_le_reach {p : Piece α} (hle : ∀ s ∈ spans, s.1 ≤ s.2)
    (h : p ∈ pieces cursor spans) : p.stop ≤ reach cursor spans := by
  induction spans generalizing cursor with
  | nil => exact absurd h List.not_mem_nil
  | cons s spans ih =>
    have hstop : s.2 ≤ reach (max cursor s.2) spans := le_trans (le_max_right _ _) le_reach
    rw [pieces] at h
    rcases List.mem_append.mp h with h | h
    · split at h
      · rw [List.mem_singleton.mp h]
        exact le_trans (hle s List.mem_cons_self) hstop
      · exact absurd h List.not_mem_nil
    · rcases List.mem_cons.mp h with rfl | h
      · exact hstop
      · exact ih (fun t ht => hle t (List.mem_cons_of_mem _ ht)) h

/-! ## A whole range -/

/-- The pieces from `bottom` to `top`, with the gap behind the last span. -/
def tiling (bottom top : α) (spans : List (α × α)) : List (Piece α) :=
  pieces bottom spans ++
    if reach bottom spans < top then [⟨true, reach bottom spans, top⟩] else []

variable {bottom top : α}

/-- **The tiling covers the range.** -/
theorem exists_mem_tiling {a : α} (hlow : bottom ≤ a) (hhigh : a < top) :
    ∃ p ∈ tiling bottom top spans, a ∈ p.carrier := by
  rw [tiling]
  by_cases hreach : a < reach bottom spans
  · obtain ⟨p, hp, ha⟩ := exists_mem_pieces hlow hreach
    exact ⟨p, List.mem_append_left _ hp, ha⟩
  · have htop : reach bottom spans < top := lt_of_le_of_lt (not_lt.mp hreach) hhigh
    rw [if_pos htop]
    exact ⟨_, List.mem_append_right _ List.mem_cons_self, not_lt.mp hreach, hhigh⟩

/-- **The gaps of the tiling are clear.** -/
theorem tiling_pairwise (hsorted : spans.Pairwise fun s t => s.1 ≤ t.1)
    (hle : ∀ s ∈ spans, s.1 ≤ s.2) : (tiling bottom top spans).Pairwise Piece.Clear := by
  rw [tiling]
  refine List.pairwise_append.mpr ⟨pieces_pairwise hsorted hle, ?_, fun p hp q hq _ => ?_⟩
  · split
    · exact List.pairwise_singleton _ _
    · exact List.Pairwise.nil
  · split at hq
    · rw [List.mem_singleton.mp hq]
      exact Piece.disjoint_of_le (stop_le_reach hle hp)
    · exact absurd hq List.not_mem_nil

end Pieces

end LinuxMaxxing.Lib
