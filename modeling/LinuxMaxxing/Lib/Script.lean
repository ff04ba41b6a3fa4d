import Mathlib.Tactic

/-!
# Scripts of Calls that May Fail

A script makes calls on a world, one after the other, and chooses the next one by what the
last one returned. A call may fail, and a run may be cut off at any call, with a part of
that call done: where and how is the fault of the run.

- `Script`: the program, a monad over its calls;
- `Machine`: what the calls do, and what a call that is cut off leaves;
- `Script.exec`: a run with a given fault;
- `Script.Ensures`: from a world, every run ends well or stops in a world that meets an
  assertion. It is computed along the script, with a rule for each construct.
-/

namespace LinuxMaxxing.Lib

/-- Programs over calls `C`, where call `c` returns an `R c`. -/
inductive Script (C : Type) (R : C → Type) (α : Type) where
  | ret (a : α)
  | stop (message : String)
  | call (c : C) (next : R c → Script C R α)

/-- What calls do in a world, and what they leave there when they are cut off. -/
structure Machine (C : Type) (R : C → Type) (K W : Type) where
  perform : (c : C) → W → Option (R c × W)
  cutOff : C → K → W → W

namespace Script

variable {C : Type} {R : C → Type} {K W : Type} {α β : Type}

protected def bind : Script C R α → (α → Script C R β) → Script C R β
  | .ret a, f => f a
  | .stop message, _ => .stop message
  | .call c next, f => .call c fun r => (next r).bind f

instance : Monad (Script C R) where
  pure := .ret
  bind := Script.bind

@[simp] theorem pure_eq (a : α) : (pure a : Script C R α) = .ret a := rfl

@[simp] theorem ret_bind (a : α) (f : α → Script C R β) : (.ret a : Script C R α) >>= f = f a := rfl

@[simp] theorem stop_bind (message : String) (f : α → Script C R β) :
    (.stop message : Script C R α) >>= f = .stop message := rfl

@[simp] theorem call_bind (c : C) (next : R c → Script C R α) (f : α → Script C R β) :
    (.call c next : Script C R α) >>= f = .call c fun r => next r >>= f := rfl

theorem bind_assoc {γ : Type} (x : Script C R α) (f : α → Script C R β) (g : β → Script C R γ) :
    x >>= f >>= g = x >>= fun a => f a >>= g := by
  induction x with
  | ret a => rfl
  | stop message => rfl
  | call c next ih =>
    rw [call_bind, call_bind, call_bind]
    congr 1
    funext r
    exact ih r

/-- A call by itself. -/
def perform (c : C) : Script C R (R c) := .call c .ret

/-! ## Runs -/

/-- How a run ended, and the world it left. -/
inductive Outcome (α W : Type) where
  | returned (a : α) (w : W)
  | stopped (w : W)

def Outcome.world : Outcome α W → W
  | .returned _ w => w
  | .stopped w => w

/-- Whether a run returned. -/
def Outcome.isReturned : Outcome α W → Bool
  | .returned _ _ => true
  | .stopped _ => false

theorem Outcome.eq_returned {x : Outcome Unit W} (h : x.isReturned = true) :
    x = .returned () x.world := by
  cases x with
  | returned a w => rfl
  | stopped w => exact absurd h Bool.false_ne_true

/-- The cut of a fault that is due at the next call. -/
def due : Option (Nat × K) → Option K
  | some (0, k) => some k
  | _ => none

/-- The fault as seen after one more call. -/
def later (fault : Option (Nat × K)) : Option (Nat × K) := fault.map fun (n, k) => (n - 1, k)

/-- A run. The fault counts the calls before the one that is cut off; without one, a run stops
    only at a `stop` and at a call that fails. -/
def exec (M : Machine C R K W) : Script C R α → Option (Nat × K) → W → Outcome α W
  | .ret a, _, w => .returned a w
  | .stop _, _, w => .stopped w
  | .call c next, fault, w =>
    match due fault with
    | some k => .stopped (M.cutOff c k w)
    | none =>
      match M.perform c w with
      | none => .stopped w
      | some (r, w') => (next r).exec M (later fault) w'

/-- A run without a fault, of a script and of what comes after it. -/
theorem exec_bind (M : Machine C R K W) (x : Script C R α) (f : α → Script C R β) (w : W) :
    (x >>= f).exec M none w = match x.exec M none w with
      | .returned a w' => (f a).exec M none w'
      | .stopped w' => .stopped w' := by
  induction x generalizing w with
  | ret a => rfl
  | stop message => rfl
  | call c next ih =>
    rw [call_bind, exec, exec]
    cases hperform : M.perform c w with
    | none => rfl
    | some result => exact ih result.1 result.2

/-- What comes after a script that returns. -/
theorem exec_bind_returned {M : Machine C R K W} {x : Script C R α} {f : α → Script C R β}
    {w w' : W} {a : α} (h : x.exec M none w = .returned a w') :
    (x >>= f).exec M none w = (f a).exec M none w' := by
  rw [exec_bind, h]

/-- A call that is made, without a fault. -/
theorem exec_perform {M : Machine C R K W} {c : C} {w w' : W} {r : R c}
    (h : M.perform c w = some (r, w')) :
    (Script.perform c).exec M none w = .returned r w' := by
  unfold Script.perform exec
  rw [h]
  rfl

/-! ## Assertions -/

/-- Every run from `w` returns with `Q` or stops in a world that meets `E`. -/
def Ensures (M : Machine C R K W) (E : W → Prop) : Script C R α → (α → W → Prop) → W → Prop
  | .ret a, Q, w => Q a w
  | .stop _, _, w => E w
  | .call c next, Q, w =>
    (∀ k, E (M.cutOff c k w)) ∧
      (M.perform c w = none → E w) ∧
      ∀ r w', M.perform c w = some (r, w') → (next r).Ensures M E Q w'

section Rules

variable {M : Machine C R K W} {E : W → Prop} {Q Q' : α → W → Prop}

/-- **Soundness**: what is ensured holds of every run. -/
theorem Ensures.exec {x : Script C R α} {w : W} (h : x.Ensures M E Q w)
    (fault : Option (Nat × K)) :
    match x.exec M fault w with
    | .returned a w' => Q a w'
    | .stopped w' => E w' := by
  induction x generalizing fault w with
  | ret a => exact h
  | stop message => exact h
  | call c next ih =>
    obtain ⟨hcut, hfail, hnext⟩ := h
    unfold Script.exec
    cases due fault with
    | some k => exact hcut k
    | none =>
      cases hperform : M.perform c w with
      | none => exact hfail hperform
      | some result => exact ih _ (hnext _ _ hperform) _

theorem Ensures.world {x : Script C R α} {w : W} (h : x.Ensures M E (fun _ => E) w)
    (fault : Option (Nat × K)) : E (x.exec M fault w).world := by
  have hrun := h.exec fault
  cases hx : x.exec M fault w with
  | returned a w' =>
    rw [hx] at hrun
    exact hrun
  | stopped w' =>
    rw [hx] at hrun
    exact hrun

/-- Consequence. -/
theorem Ensures.weaken {x : Script C R α} {w : W} (h : x.Ensures M E Q w)
    (hQ : ∀ a w, Q a w → Q' a w) : x.Ensures M E Q' w := by
  induction x generalizing w with
  | ret a => exact hQ a w h
  | stop message => exact h
  | call c next ih => exact ⟨h.1, h.2.1, fun r w' hperform => ih r (h.2.2 r w' hperform)⟩

/-- What is ensured of a return is ensured of the return of the run without a fault. -/
theorem Ensures.returned {x : Script C R α} {w : W} (h : x.Ensures M E Q w) :
    x.Ensures M E (fun a w' => Q a w' ∧ x.exec M none w = .returned a w') w := by
  induction x generalizing w with
  | ret a => exact ⟨h, rfl⟩
  | stop message => exact h
  | call c next ih =>
    refine ⟨h.1, h.2.1, fun r w' hperform => (ih r (h.2.2 r w' hperform)).weaken ?_⟩
    rintro a w'' ⟨hQ, hexec⟩
    refine ⟨hQ, ?_⟩
    rw [Script.exec, hperform]
    exact hexec

/-- Sequencing. -/
theorem Ensures.bind {x : Script C R α} {f : α → Script C R β} {Q : β → W → Prop} {w : W}
    (h : x.Ensures M E (fun a w' => (f a).Ensures M E Q w') w) :
    (x >>= f).Ensures M E Q w := by
  induction x generalizing w with
  | ret a => exact h
  | stop message => exact h
  | call c next ih => exact ⟨h.1, h.2.1, fun r w' hperform => ih r (h.2.2 r w' hperform)⟩

/-- A single call. -/
theorem Ensures.perform {c : C} {Q : R c → W → Prop} {w : W} (hcut : ∀ k, E (M.cutOff c k w))
    (hfail : M.perform c w = none → E w)
    (hdone : ∀ r w', M.perform c w = some (r, w') → Q r w') :
    (Script.perform c).Ensures M E Q w :=
  ⟨hcut, hfail, hdone⟩

/-- **Invariant rule**: what every call keeps, done or cut off, a script keeps. -/
theorem Ensures.invariant {I : W → Prop}
    (hcall : ∀ c w, I w → (∀ k, I (M.cutOff c k w)) ∧
      ∀ r w', M.perform c w = some (r, w') → I w')
    (x : Script C R α) {w : W} (h : I w) : x.Ensures M I (fun _ => I) w := by
  induction x generalizing w with
  | ret a => exact h
  | stop message => exact h
  | call c next ih =>
    refine ⟨(hcall c w h).1, fun _ => h, fun r w' hperform => ?_⟩
    exact ih r ((hcall c w h).2 r w' hperform)

end Rules

end Script

end LinuxMaxxing.Lib
