import Mathlib.Data.List.Basic
import Mathlib.Tactic

/-!
# Logs of Calls and Returns

A log whose entries belong to keys (tasks, CPUs) and are read key by key.

- `Reader`: what has been read of a key, computed entry by entry;
- `Reader.Conforms`: every entry of a log fits what was read of its key before it;
- `Held`: one slot for each function holds what was saved by the innermost call of that function
  in progress. It is kept by an entry that fills its slot and by a return that clears it, as long
  as no function is called inside itself (`Held.enter`, `Held.leave`).
-/

namespace LinuxMaxxing.Lib

universe u v w

/-! ## Reading a log -/

/-- A way to read the entries of one key. -/
structure Reader (ε : Type u) (κ : Type v) (β : Type w) where
  key : ε → κ
  start : β
  advance : β → ε → β

namespace Reader

variable {ε : Type u} {κ : Type v} {β : Type w} [DecidableEq κ] (R : Reader ε κ β)

/-- What has been read of a key at the end of a log. -/
def view (log : List ε) (k : κ) : β :=
  (log.filter fun e => R.key e = k).foldl R.advance R.start

/-- Every entry fits what was read of its key before it. -/
def Conforms (P : β → ε → Prop) (log : List ε) : Prop :=
  ∀ before e after, log = before ++ e :: after → P (R.view before (R.key e)) e

variable {R} {log : List ε} {e : ε} {k : κ} {P : β → ε → Prop}

@[simp] theorem view_nil : R.view [] k = R.start := rfl

theorem view_append_self : R.view (log ++ [e]) (R.key e) = R.advance (R.view log (R.key e)) e := by
  unfold view
  rw [List.filter_append, List.foldl_append]
  simp

theorem view_append_of_ne (h : k ≠ R.key e) : R.view (log ++ [e]) k = R.view log k := by
  unfold view
  rw [List.filter_append, List.filter_singleton]
  simp [Ne.symm h]

theorem conforms_nil : R.Conforms P [] := by
  intro before e after h
  exact absurd h.symm (by simp)

/-- A log grows by an entry that fits. -/
theorem conforms_append :
    R.Conforms P (log ++ [e]) ↔ R.Conforms P log ∧ P (R.view log (R.key e)) e := by
  constructor
  · intro h
    refine ⟨fun before e' after heq => ?_, h log e [] rfl⟩
    apply h before e' (after ++ [e])
    rw [heq, List.append_assoc, List.cons_append]
  · rintro ⟨hlog, he⟩ before e' after heq
    -- the entry is the last one or one of those before it
    rcases List.eq_nil_or_concat after with rfl | ⟨after', last, rfl⟩
    · obtain ⟨rfl, hlast⟩ := List.append_inj' heq rfl
      obtain rfl := (List.cons.inj hlast).1
      exact he
    · apply hlog before e' after'
      rw [List.concat_eq_append, ← List.cons_append, ← List.append_assoc] at heq
      exact (List.append_inj' heq rfl).1

end Reader

/-! ## Calls in progress and what they saved -/

/-- Where an entry of a log stands: at the beginning or at the end of a call. -/
inductive Edge (φ : Type u) where
  | enter (f : φ)
  | leave (f : φ)
  deriving DecidableEq, Repr

section Held

variable {ε : Type u} {φ : Type v} {σ : φ → Type w} [DecidableEq φ] (edge : ε → Option (Edge φ))
  (save : (f : φ) → ε → σ f)

/-- The innermost call of a function among the calls in progress. -/
def innermost (opened : List ε) (f : φ) : Option ε := opened.find? fun o => edge o = some (.enter f)

/-- Every slot holds what the innermost call of its function saved. -/
def Held (slots : (f : φ) → Option (σ f)) (opened : List ε) : Prop :=
  ∀ f, slots f = (innermost edge opened f).map (save f)

variable {edge save} {slots : (f : φ) → Option (σ f)} {opened : List ε} {e : ε} {f : φ}

theorem held_nil : Held edge save (fun _ => none) [] := fun _ => rfl

/-- A call fills its slot. -/
theorem Held.enter (h : Held edge save slots opened) (he : edge e = some (.enter f)) :
    Held edge save (Function.update slots f (some (save f e))) (e :: opened) := by
  intro g
  unfold innermost
  by_cases hg : g = f
  · subst hg
    rw [Function.update_self, List.find?_cons_of_pos (by simpa using he)]
    rfl
  · have hskip : ¬ edge e = some (.enter g) := by
      rw [he]
      exact fun heq => hg (Edge.enter.inj (Option.some.inj heq)).symm
    rw [Function.update_of_ne hg, List.find?_cons_of_neg (by simpa using hskip)]
    exact h g

/-- **A return finds what its own call saved**, and leaves the slots of the calls around it. -/
theorem Held.leave (h : Held edge save slots (e :: opened)) (he : edge e = some (.enter f))
    (hsingle : ∀ o ∈ opened, edge o ≠ some (.enter f)) :
    slots f = some (save f e) ∧ Held edge save (Function.update slots f none) opened := by
  constructor
  · rw [h f, innermost, List.find?_cons_of_pos (by simpa using he)]
    rfl
  · intro g
    by_cases hg : g = f
    · subst hg
      have hnone : innermost edge opened g = none := by
        apply List.find?_eq_none.mpr
        intro o ho
        simpa using hsingle o ho
      rw [Function.update_self, hnone]
      rfl
    · have hskip : ¬ edge e = some (.enter g) := by
        rw [he]
        exact fun heq => hg (Edge.enter.inj (Option.some.inj heq)).symm
      rw [Function.update_of_ne hg, h g, innermost, List.find?_cons_of_neg (by simpa using hskip)]
      rfl

end Held

end LinuxMaxxing.Lib
