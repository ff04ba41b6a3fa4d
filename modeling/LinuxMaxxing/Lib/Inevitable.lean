import LinuxMaxxing.Lib.Transition

/-!
# What Every Run Comes To

`M.Inevitable Goal s`: from `s` every run that goes on for as long as it can comes to a state in
`Goal`, whoever moves at each point. No fairness is assumed, so this is a bound on the work that
is left: `Inevitable` is the least set that contains the goal and every state that can move and
moves into it only.

- `Inevitable.trans`: one stage after another;
- `Inevitable.of_rank`: a natural number that every step makes smaller;
- `Inevitable.of_reach`, `Inevitable.throughout`: with a goal in which nothing moves any more, what
  is known there of the whole run is known in every state on the way.
-/

namespace LinuxMaxxing.Lib

namespace System

universe u v

variable {σ : Type u} {α : Type v} {M : System σ α} {Goal Goal' : σ → Prop} {s s' : σ}

variable (M) in
/-- Every run that goes on for as long as it can comes to the goal. -/
inductive Inevitable (Goal : σ → Prop) : σ → Prop where
  | now {s : σ} : Goal s → Inevitable Goal s
  | later {s : σ} : (∃ a s', M.step s a = some s') →
      (∀ a s', M.step s a = some s' → Inevitable Goal s') → Inevitable Goal s

/-- Nothing moves. -/
def Stuck (M : System σ α) (s : σ) : Prop := ∀ a, M.step s a = none

/-! ## Rules -/

/-- **One stage after another.** -/
theorem Inevitable.trans (h : M.Inevitable Goal s)
    (hgoal : ∀ s, Goal s → M.Inevitable Goal' s) : M.Inevitable Goal' s := by
  induction h with
  | now hs => exact hgoal _ hs
  | later hgo _ ih => exact .later hgo ih

/-- **Rank rule**: work that every step makes less, and that is only over in the goal. -/
theorem Inevitable.of_rank {Inv : σ → Nat → Prop} {n : Nat} (hs : Inv s n)
    (hstep : ∀ s n, Inv s n → M.Inevitable Goal s ∨
      (∃ a s', M.step s a = some s') ∧
        ∀ a s', M.step s a = some s' → ∃ m, m < n ∧ Inv s' m) :
    M.Inevitable Goal s := by
  induction n using Nat.strong_induction_on generalizing s with
  | _ n ih =>
    rcases hstep s n hs with hgoal | ⟨hgo, hless⟩
    · exact hgoal
    · apply Inevitable.later hgo
      intro a s' hmove
      obtain ⟨m, hm, hinv⟩ := hless a s' hmove
      exact ih m hm hinv

/-! ## Use -/

/-- The goal is reached where the runs are. -/
theorem Inevitable.reachable (h : M.Inevitable Goal s) (hs : M.Reachable s) :
    M.Inevitable (fun s => Goal s ∧ M.Reachable s) s := by
  induction h with
  | now hgoal => exact .now ⟨hgoal, hs⟩
  | later hgo _ ih => exact .later hgo fun a s' hmove => ih a s' hmove (hs.step trivial hmove)

/-- What is inevitable stays so, until it has happened for good. -/
theorem Inevitable.step {a : α} (h : M.Inevitable Goal s) (hstuck : ∀ s, Goal s → M.Stuck s)
    (hmove : M.step s a = some s') : M.Inevitable Goal s' := by
  cases h with
  | now hs => exact absurd hmove (by simp [hstuck s hs a])
  | later _ hnext => exact hnext a s' hmove

theorem Inevitable.of_reach (hinit : ∀ s, M.init s → M.Inevitable Goal s)
    (hstuck : ∀ s, Goal s → M.Stuck s) (h : M.Reachable s) : M.Inevitable Goal s :=
  Reach.invariant _ hinit (fun _ _ _ hs _ hmove => hs.step hstuck hmove) h

/-- What no step brings back holds on the whole way, if it holds at its end. -/
theorem Inevitable.throughout {P : σ → Prop} (h : M.Inevitable Goal s)
    (hback : ∀ s a s', M.step s a = some s' → P s' → P s) (hgoal : ∀ s, Goal s → P s) : P s := by
  induction h with
  | now hs => exact hgoal _ hs
  | later hgo _ ih =>
    obtain ⟨a, s', hmove⟩ := hgo
    exact hback _ a s' hmove (ih a s' hmove)

end System

end LinuxMaxxing.Lib
