import Mathlib.Tactic

/-!
# Sinks That Refuse

A stream that is written piece by piece, where each piece goes out whole or is refused, and that
is given up at the first refusal.

- `put`, `putAll`: writing pieces;
- `accepted`: what a sink lets through, up to the first piece that it refuses;
- `putAll_written`, `putAll_failed`: a stream has what its sink lets through, and has failed when
  that is not all.
-/

namespace LinuxMaxxing.Lib

universe u

/-- What was written, whether the stream has failed, and for the coming pieces whether the sink
    refuses them (none of them once the list ends). -/
structure Sink (α : Type u) where
  written : List α
  refuses : List Bool
  failed : Bool

namespace Sink

variable {α : Type u} {s : Sink α} {piece : List α} {pieces : List (List α)}

/-- A sink to which nothing has been written. -/
def new (refuses : List Bool) : Sink α := ⟨[], refuses, false⟩

/-- A piece is written, unless the stream has failed. -/
def put (s : Sink α) (piece : List α) : Sink α :=
  if s.failed then s
  else if s.refuses.headD false then { s with refuses := s.refuses.tail, failed := true }
  else { s with refuses := s.refuses.tail, written := s.written ++ piece }

def putAll (s : Sink α) (pieces : List (List α)) : Sink α := pieces.foldl put s

/-- The stream is given up. -/
def fail (s : Sink α) : Sink α := { s with failed := true }

/-- What goes through until the first refusal. -/
def accepted : List Bool → List (List α) → List α
  | _, [] => []
  | [], pieces => pieces.flatten
  | true :: _, _ => []
  | false :: refuses, piece :: pieces => piece ++ accepted refuses pieces

/-- Some piece is refused. -/
def refused : List Bool → List (List α) → Bool
  | _, [] => false
  | [], _ => false
  | true :: _, _ => true
  | false :: refuses, _ :: pieces => refused refuses pieces

theorem put_failed (h : s.failed = true) (piece : List α) : s.put piece = s := if_pos h

theorem putAll_of_failed (h : s.failed = true) (pieces : List (List α)) : s.putAll pieces = s := by
  induction pieces with
  | nil => rfl
  | cons piece pieces ih =>
    unfold putAll at ih ⊢
    rw [List.foldl_cons, put_failed h, ih]

theorem putAll_append (s : Sink α) (pieces pieces' : List (List α)) :
    s.putAll (pieces ++ pieces') = (s.putAll pieces).putAll pieces' := List.foldl_append

theorem putAll_cons (s : Sink α) (piece : List α) (pieces : List (List α)) :
    s.putAll (piece :: pieces) = (s.put piece).putAll pieces := rfl

/-- **What is written** of pieces is what the sink lets through. -/
theorem putAll_written (h : s.failed = false) (pieces : List (List α)) :
    (s.putAll pieces).written = s.written ++ accepted s.refuses pieces ∧
      (s.putAll pieces).failed = refused s.refuses pieces := by
  induction pieces generalizing s with
  | nil => cases hr : s.refuses <;> simp [putAll, accepted, refused, h]
  | cons piece pieces ih =>
    rw [putAll_cons, put, if_neg (by simp [h])]
    cases hr : s.refuses with
    | nil =>
      -- nothing is refused any more
      obtain ⟨hwritten, hfailed⟩ :=
        @ih { s with refuses := [], written := s.written ++ piece } h
      rw [if_neg (by simp)]
      refine ⟨?_, ?_⟩
      · rw [List.tail_nil, hwritten]
        cases pieces <;> simp [accepted]
      · rw [List.tail_nil, hfailed]
        cases pieces <;> simp [refused]
    | cons refuse refuses =>
      cases refuse with
      | true =>
        rw [if_pos (show (true :: refuses).headD false = true from rfl), putAll_of_failed rfl]
        simp [accepted, refused]
      | false =>
        obtain ⟨hwritten, hfailed⟩ :=
          @ih { s with refuses := refuses, written := s.written ++ piece } h
        rw [if_neg (by simp)]
        refine ⟨?_, ?_⟩
        · rw [List.tail_cons, hwritten, accepted, List.append_assoc]
        · rw [List.tail_cons, hfailed, refused]

theorem accepted_isPrefix (refuses : List Bool) (pieces : List (List α)) :
    accepted refuses pieces <+: pieces.flatten := by
  induction pieces generalizing refuses with
  | nil => cases refuses <;> exact List.prefix_refl _
  | cons piece pieces ih =>
    cases refuses with
    | nil => exact List.prefix_refl _
    | cons refuse refuses =>
      cases refuse with
      | true => exact List.nil_prefix
      | false =>
        rw [List.flatten_cons, accepted]
        exact (List.prefix_append_right_inj piece).mpr (ih refuses)

/-- **Nothing was refused** exactly when everything went through, of pieces that are not empty. -/
theorem refused_iff (refuses : List Bool) (h : ∀ piece ∈ pieces, piece ≠ []) :
    refused refuses pieces = false ↔ accepted refuses pieces = pieces.flatten := by
  induction pieces generalizing refuses with
  | nil => cases refuses <;> simp [refused, accepted]
  | cons piece pieces ih =>
    have hpiece := h piece List.mem_cons_self
    have hpieces := fun p hp => h p (List.mem_cons_of_mem _ hp)
    cases refuses with
    | nil => simp [refused, accepted]
    | cons refuse refuses =>
      cases refuse with
      | true => simp [refused, accepted, hpiece, eq_comm]
      | false =>
        rw [refused, accepted, List.flatten_cons, List.append_cancel_left_eq]
        exact ih refuses hpieces

end Sink

end LinuxMaxxing.Lib
