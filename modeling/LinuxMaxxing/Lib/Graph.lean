import Mathlib.Tactic
import Mathlib.Logic.Relation
import Mathlib.Data.Finset.Card

/-!
# Cycles of a Graph

Walks along the edges of a graph that remember what they have seen.

- `CycleReachable`: a walk from here can come to a point that it comes back to;
- `not_cycleReachable_of_acc`: where every walk ends there is no such point;
- `unseen`: how many points are left, which a walk to a new point makes smaller;
- `Search`: depth-first search, with the depth that it is nested to.
-/

namespace LinuxMaxxing.Lib.Graph

open Relation

universe u

variable {α : Type u} {edge : α → α → Prop} {a b : α}

/-! ## Cycles -/

/-- A cycle is reachable. -/
def CycleReachable (edge : α → α → Prop) (a : α) : Prop :=
  ∃ b, ReflTransGen edge a b ∧ TransGen edge b b

theorem CycleReachable.step (h : edge a b) (hb : CycleReachable edge b) :
    CycleReachable edge a := by
  obtain ⟨c, hreach, hcycle⟩ := hb
  exact ⟨c, hreach.head h, hcycle⟩

/-- Every walk from here ends. -/
def Ends (edge : α → α → Prop) (a : α) : Prop := Acc (fun b a => edge a b) a

theorem Ends.reach (h : Ends edge a) (hreach : ReflTransGen edge a b) : Ends edge b := by
  induction hreach with
  | refl => exact h
  | tail _ hedge ih => exact ih.inv hedge

theorem Ends.not_cycle (h : Ends edge a) : ¬ TransGen edge a a := by
  induction h with
  | intro a _ ih =>
    intro hcycle
    obtain ⟨b, hab, hba⟩ := TransGen.head'_iff.mp hcycle
    exact ih b hab (TransGen.tail' hba hab)

/-- **Where every walk ends** there is no cycle. -/
theorem not_cycleReachable_of_ends (h : Ends edge a) : ¬ CycleReachable edge a := by
  rintro ⟨b, hreach, hcycle⟩
  exact (h.reach hreach).not_cycle hcycle

/-! ## Points that are left -/

section Unseen

variable [DecidableEq α] {keys seen seen' : List α}

/-- How many points of a list have not been seen. -/
def unseen (keys seen : List α) : Nat := (keys.toFinset \ seen.toFinset).card

theorem unseen_mono (h : seen ⊆ seen') : unseen keys seen' ≤ unseen keys seen := by
  apply Finset.card_le_card
  apply Finset.sdiff_subset_sdiff (Finset.Subset.refl _)
  intro c hc
  rw [List.mem_toFinset] at hc ⊢
  exact h hc

/-- **A new point** is one less to see. -/
theorem unseen_cons (hkey : a ∈ keys) (hnew : a ∉ seen) :
    unseen keys (a :: seen) < unseen keys seen := by
  apply Finset.card_lt_card
  rw [Finset.ssubset_iff_of_subset]
  · refine ⟨a, ?_, ?_⟩
    · simp [hkey, hnew]
    · simp
  · intro c hc
    simp only [Finset.mem_sdiff, List.mem_toFinset, List.mem_cons, not_or] at hc ⊢
    exact ⟨hc.1, hc.2.2⟩

theorem unseen_le_length (keys seen : List α) : unseen keys seen ≤ keys.length :=
  (Finset.card_le_card Finset.sdiff_subset).trans (List.toFinset_card_le keys)

end Unseen

/-! ## Depth-first search -/

/-- A search from a pointer that goes to each point once, to its first pointer before its second,
    and is nested at most so deep: the points that it has seen before and after. -/
inductive Search (next : α → Option (Option α × Option α)) :
    Nat → Option α → List α → List α → Prop where
  | absent {n : Nat} {pointer : Option α} {seen : List α} (h : pointer.bind next = none) :
      Search next (n + 1) pointer seen seen
  | again {n : Nat} {a : α} {seen : List α} (h : (next a).isSome) (hseen : a ∈ seen) :
      Search next (n + 1) (some a) seen seen
  | enter {n : Nat} {a : α} {first second : Option α} {seen seen₁ seen₂ : List α}
      (h : next a = some (first, second)) (hnew : a ∉ seen)
      (hfirst : Search next n first (a :: seen) seen₁)
      (hsecond : Search next n second seen₁ seen₂) : Search next (n + 1) (some a) seen seen₂

/-- **A search ends** where it may be nested deeper than there are points to see. -/
theorem exists_search [DecidableEq α] {next : α → Option (Option α × Option α)} {keys : List α}
    {n : Nat} {seen : List α} (pointer : Option α)
    (hkeys : ∀ a, (next a).isSome → a ∈ keys ∨ a ∈ seen) (h : unseen keys seen < n) :
    ∃ seen', seen ⊆ seen' ∧ Search next n pointer seen seen' := by
  induction n generalizing pointer seen with
  | zero => exact absurd h (Nat.not_lt_zero _)
  | succ n ih =>
    cases hnext : pointer.bind next with
    | none => exact ⟨seen, List.Subset.refl _, .absent hnext⟩
    | some pointers =>
      obtain ⟨a, rfl, ha⟩ := Option.bind_eq_some_iff.mp hnext
      have hpoint : (next a).isSome := Option.isSome_of_eq_some ha
      by_cases hseen : a ∈ seen
      · exact ⟨seen, List.Subset.refl _, .again hpoint hseen⟩
      · -- the point is new, which leaves less to see for the searches below it
        have hless := unseen_cons ((hkeys a hpoint).resolve_right hseen) hseen
        obtain ⟨seen₁, hsub, hfirst⟩ := @ih (a :: seen) pointers.1
          (fun b hb => (hkeys b hb).imp_right (List.mem_cons_of_mem a)) (by omega)
        obtain ⟨seen₂, hsub', hsecond⟩ := @ih seen₁ pointers.2
          (fun b hb => (hkeys b hb).imp_right fun hmem => hsub (List.mem_cons_of_mem a hmem))
          (Nat.lt_of_le_of_lt (unseen_mono hsub) (by omega))
        exact ⟨seen₂, fun c hc => hsub' (hsub (List.mem_cons_of_mem a hc)),
          .enter ha hseen hfirst hsecond⟩

/-! ## Bounded walks -/

/-- Every walk from here ends before it has so many points. -/
def EndsWithin (edge : α → α → Prop) : Nat → α → Prop
  | 0, _ => False
  | n + 1, a => ∀ b, edge a b → EndsWithin edge n b

/-- **A walk without a cycle** has no more points than there are. -/
theorem endsWithin_of_not_cycleReachable [DecidableEq α] {keys seen : List α} {n : Nat}
    (hkeys : ∀ a b, edge a b → a ∈ keys) (hseen : ∀ c ∈ seen, TransGen edge c a)
    (h : ¬ CycleReachable edge a) (hn : unseen keys seen < n) : EndsWithin edge n a := by
  induction n generalizing a seen with
  | zero => exact absurd hn (Nat.not_lt_zero _)
  | succ n ih =>
    intro b hedge
    have hnew : a ∉ seen := fun hmem => h ⟨a, .refl, hseen a hmem⟩
    have hless := unseen_cons (hkeys a b hedge) hnew
    refine @ih b (a :: seen) ?_ ?_ ?_
    · intro c hc
      rcases List.mem_cons.mp hc with rfl | hc
      · exact .single hedge
      · exact (hseen c hc).tail hedge
    · exact fun hb => h (hb.step hedge)
    · omega

end LinuxMaxxing.Lib.Graph
