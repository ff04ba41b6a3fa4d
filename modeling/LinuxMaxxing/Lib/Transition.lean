import Mathlib.Tactic

/-!
# Transition Systems with Guarded Runs

A system is a set of initial states and a partial step function: the label of a
step carries every nondeterministic choice, so that a run is a list of labels and
can be evaluated.

Two notions of reachability are used by the developments on top:

- `System.Reach ok`: the states at the end of the runs whose steps all meet the
  condition `ok` (a condition on the state before the step and its label);
- `System.Reachable`: no condition.

`Reach.invariant` is the induction every safety theorem goes through,
`reachable_of_exec` turns a concrete run into a reachable state, and
`exec_simulates` puts the runs of another system that match single steps together.
-/

namespace LinuxMaxxing.Lib

universe u v

/-- A transition system: initial states and a labelled partial step function. -/
structure System (σ : Type u) (α : Type v) where
  init : σ → Prop
  step : σ → α → Option σ

namespace System

variable {σ : Type u} {α : Type v} (M : System σ α)

/-! ## Reachability -/

/-- States reached by runs in which every step meets `ok`. -/
inductive Reach (ok : σ → α → Prop) : σ → Prop where
  | init {s : σ} : M.init s → Reach ok s
  | step {s s' : σ} {a : α} : Reach ok s → ok s a → M.step s a = some s' → Reach ok s'

/-- States reached by any run. -/
def Reachable : σ → Prop := M.Reach fun _ _ => True

variable {M}

/-- **Invariant rule**: what holds initially and is preserved by every step that
    meets `ok` holds in every state such runs reach. -/
theorem Reach.invariant {ok : σ → α → Prop} (Inv : σ → Prop)
    (hinit : ∀ s, M.init s → Inv s)
    (hstep : ∀ s a s', Inv s → ok s a → M.step s a = some s' → Inv s')
    {s : σ} (h : M.Reach ok s) : Inv s := by
  induction h with
  | init h0 => exact hinit _ h0
  | step _ hok hs ih => exact hstep _ _ _ ih hok hs

/-! ## Executing a list of labels -/

variable (M)

/-- Run a list of labels from a state; `none` when some step is not enabled. -/
def exec (s : σ) : List α → Option σ
  | [] => some s
  | a :: as =>
    match M.step s a with
    | none => none
    | some s' => exec s' as

/-- Every step of the run is enabled and meets `ok`. -/
def RunsOk (ok : σ → α → Prop) (s : σ) : List α → Prop
  | [] => True
  | a :: as =>
    ok s a ∧ match M.step s a with
      | none => False
      | some s' => RunsOk ok s' as

instance RunsOk.decidable (ok : σ → α → Prop) [∀ s a, Decidable (ok s a)] :
    ∀ (s : σ) (as : List α), Decidable (M.RunsOk ok s as)
  | _, [] => isTrue trivial
  | s, a :: as =>
    match h : M.step s a with
    | none => isFalse (by simp [RunsOk, h])
    | some s' =>
      have := RunsOk.decidable ok s' as
      decidable_of_iff (ok s a ∧ M.RunsOk ok s' as) (by simp [RunsOk, h])

variable {M}

/-- The end of a run that meets `ok` and starts in a reached state is reached. -/
theorem Reach.exec {ok : σ → α → Prop} {s t : σ} {as : List α} (h : M.Reach ok s)
    (hok : M.RunsOk ok s as) (hrun : M.exec s as = some t) : M.Reach ok t := by
  induction as generalizing s with
  | nil =>
    cases hrun
    exact h
  | cons a as ih =>
    simp only [System.exec] at hrun
    simp only [RunsOk] at hok
    cases hs : M.step s a with
    | none => simp [hs] at hrun
    | some s' =>
      simp only [hs] at hrun hok
      exact ih (.step h hok.1 hs) hok.2 hrun

/-- A run of enabled steps meets the trivial condition. -/
theorem runsOk_of_exec {s t : σ} {as : List α} (hrun : M.exec s as = some t) :
    M.RunsOk (fun _ _ => True) s as := by
  induction as generalizing s with
  | nil => trivial
  | cons a as ih =>
    simp only [System.exec] at hrun
    simp only [RunsOk, true_and]
    cases hs : M.step s a with
    | none => simp [hs] at hrun
    | some s' =>
      simp only [hs] at hrun
      exact ih hrun

/-- A concrete run from an initial state ends in a reachable state. -/
theorem reachable_of_exec {s t : σ} {as : List α} (h0 : M.init s)
    (hrun : M.exec s as = some t) : M.Reachable t :=
  Reach.exec (.init h0) (runsOk_of_exec hrun) hrun

/-- What is reached from a reachable state is reachable. -/
theorem Reachable.exec {s t : σ} {as : List α} (h : M.Reachable s) (hrun : M.exec s as = some t) :
    M.Reachable t :=
  Reach.exec h (runsOk_of_exec hrun) hrun

theorem exec_singleton {s t : σ} {a : α} (h : M.step s a = some t) : M.exec s [a] = some t := by
  rw [System.exec, h]
  rfl

theorem exec_append {s t : σ} {as : List α} (h : M.exec s as = some t) (bs : List α) :
    M.exec s (as ++ bs) = M.exec t bs := by
  induction as generalizing s with
  | nil =>
    cases h
    rfl
  | cons a as ih =>
    rw [List.cons_append, System.exec]
    rw [System.exec] at h
    cases hs : M.step s a with
    | none => simp [hs] at h
    | some s' =>
      rw [hs] at h
      exact ih h

/-! ## Simulation -/

/-- **Simulation rule**: where every step is matched by a run of another system on what it sees of
    the state, so is every run, step by step. -/
theorem exec_simulates {τ : Type u} {β : Type v} {N : System τ β} {view : σ → τ}
    {matched : α → List β → Prop} (Inv : σ → Prop)
    (hstep : ∀ s a t, Inv s → M.step s a = some t →
      Inv t ∧ ∃ bs, matched a bs ∧ N.exec (view s) bs = some (view t))
    {s t : σ} {as : List α} (hs : Inv s) (hrun : M.exec s as = some t) :
    ∃ runs, List.Forall₂ matched as runs ∧ N.exec (view s) runs.flatten = some (view t) := by
  induction as generalizing s with
  | nil =>
    cases hrun
    exact ⟨[], .nil, rfl⟩
  | cons a as ih =>
    rw [System.exec] at hrun
    cases hmove : M.step s a with
    | none => simp [hmove] at hrun
    | some s' =>
      rw [hmove] at hrun
      obtain ⟨hs', bs, hbs, hfirst⟩ := hstep s a s' hs hmove
      obtain ⟨runs, hruns, hrest⟩ := ih hs' hrun
      refine ⟨bs :: runs, .cons hbs hruns, ?_⟩
      rw [List.flatten_cons, exec_append hfirst, hrest]

end System

end LinuxMaxxing.Lib
