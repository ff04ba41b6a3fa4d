import Mathlib.Data.List.Perm.Basic

/-!
# Requests Served from a List

Requests come one after the other, and each takes the first item left that fits it. What they are
given, and what is left, is told by the items and the requests alone; items that come in behind while
requests are served change neither what is given nor the order of what is left.

- `serve`: what the requests are given, and what is left
- `serve_append`: later items
- `serve_concat_eq_some`: one more request
- `serve_perm`, `serve_sublist`: every item is given once or left, in its order
-/

namespace LinuxMaxxing.Lib

universe u v

variable {α : Type u} {κ : Type v} (fits : κ → α → Bool)

/-- What the requests are given and what is left; `none` where a request fits nothing. -/
def serve : List α → List κ → Option (List α × List α)
  | items, [] => some ([], items)
  | items, k :: ks =>
    match items.find? (fits k) with
    | none => none
    | some a => (serve (items.eraseP (fits k)) ks).map fun served => (a :: served.1, served.2)

variable {fits} {items given left : List α} {ks : List κ}

/-- The first item that fits, between those before it, which do not, and the others. -/
theorem exists_of_find {p : α → Bool} {a : α} (h : items.find? p = some a) :
    ∃ before after, items = before ++ a :: after ∧ items.eraseP p = before ++ after ∧
      ∀ b ∈ before, p b = false := by
  obtain ⟨ha, before, after, rfl, hbefore⟩ := List.find?_eq_some_iff_append.mp h
  have hnone : ∀ b ∈ before, p b = false := fun b hb => by simpa using hbefore b hb
  refine ⟨before, after, rfl, ?_, hnone⟩
  rw [List.eraseP_append_right _ fun b hb => by simp [hnone b hb], List.eraseP_cons_of_pos ha]

theorem serve_cons_eq_some {k : κ} :
    serve fits items (k :: ks) = some (given, left) ↔
      ∃ a rest, items.find? (fits k) = some a ∧ given = a :: rest ∧
        serve fits (items.eraseP (fits k)) ks = some (rest, left) := by
  rw [serve]
  cases items.find? (fits k) with
  | none => simp
  | some a =>
    simp only [Option.map_eq_some_iff, Prod.exists, Prod.mk.injEq, Option.some.injEq]
    constructor
    · rintro ⟨rest, left', hserve, rfl, rfl⟩
      exact ⟨a, rest, rfl, rfl, hserve⟩
    · rintro ⟨a', rest, rfl, rfl, hserve⟩
      exact ⟨rest, left, hserve, rfl, rfl⟩

/-- **Later items**: they are left, behind the others. -/
theorem serve_append (h : serve fits items ks = some (given, left)) (later : List α) :
    serve fits (items ++ later) ks = some (given, left ++ later) := by
  induction ks generalizing items given with
  | nil =>
    cases h
    rfl
  | cons k ks ih =>
    obtain ⟨a, rest, hfind, rfl, hserve⟩ := serve_cons_eq_some.mp h
    have herase : (items ++ later).eraseP (fits k) = items.eraseP (fits k) ++ later :=
      List.eraseP_append_left (List.find?_some hfind) later (List.mem_of_find?_eq_some hfind)
    rw [serve_cons_eq_some]
    refine ⟨a, rest, ?_, rfl, ?_⟩
    · rw [List.find?_append, hfind]
      rfl
    · rw [herase]
      exact ih hserve

/-- **One more request** is given the first item left that fits it. -/
theorem serve_concat_eq_some {k : κ} {given' left' : List α} :
    serve fits items (ks ++ [k]) = some (given', left') ↔
      ∃ given left a, serve fits items ks = some (given, left) ∧ left.find? (fits k) = some a ∧
        given' = given ++ [a] ∧ left' = left.eraseP (fits k) := by
  induction ks generalizing items given' with
  | nil =>
    rw [List.nil_append, serve_cons_eq_some]
    constructor
    · rintro ⟨a, rest, hfind, rfl, hserve⟩
      cases hserve
      exact ⟨[], items, a, rfl, hfind, rfl, rfl⟩
    · rintro ⟨given, left, a, hserve, hfind, rfl, rfl⟩
      cases hserve
      exact ⟨a, [], hfind, rfl, rfl⟩
  | cons k' ks ih =>
    rw [List.cons_append, serve_cons_eq_some]
    constructor
    · rintro ⟨a', rest, hfind', rfl, hall⟩
      obtain ⟨given, left, a, hserve, hfind, rfl, rfl⟩ := ih.mp hall
      exact ⟨a' :: given, left, a, serve_cons_eq_some.mpr ⟨a', given, hfind', rfl, hserve⟩, hfind,
        rfl, rfl⟩
    · rintro ⟨given, left, a, hall, hfind, rfl, rfl⟩
      obtain ⟨a', rest, hfind', rfl, hserve⟩ := serve_cons_eq_some.mp hall
      exact ⟨a', rest ++ [a], hfind', rfl, ih.mpr ⟨rest, left, a, hserve, hfind, rfl, rfl⟩⟩

/-- **Nothing is lost or given twice**. -/
theorem serve_perm (h : serve fits items ks = some (given, left)) : (given ++ left).Perm items := by
  induction ks generalizing items given with
  | nil =>
    cases h
    exact .refl _
  | cons k ks ih =>
    obtain ⟨a, rest, hfind, rfl, hserve⟩ := serve_cons_eq_some.mp h
    obtain ⟨before, after, rfl, herase, -⟩ := exists_of_find hfind
    rw [herase] at hserve
    exact ((ih hserve).cons a).trans List.perm_middle.symm

/-- What is left keeps its order. -/
theorem serve_sublist (h : serve fits items ks = some (given, left)) : left.Sublist items := by
  induction ks generalizing items given with
  | nil =>
    cases h
    exact .refl _
  | cons k ks ih =>
    obtain ⟨a, rest, -, rfl, hserve⟩ := serve_cons_eq_some.mp h
    exact (ih hserve).trans List.eraseP_sublist

end LinuxMaxxing.Lib
