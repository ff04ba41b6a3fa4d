import Mathlib.Tactic

/-!
# Programs with State and Exceptions

`EStateM ε σ` run on a state: what each construct does, as simp lemmas, so that a
program can be executed symbolically with `simp`. An exception keeps the state, and
an exception of a `finally` block takes the place of the one before it.
-/

namespace LinuxMaxxing.Lib

universe u

variable {ε σ α β : Type u}

/-! ## The state and the exception of a result -/

/-- The state a program ends in, whether it raised or not. -/
def stateOf : EStateM.Result ε σ α → σ
  | .ok _ s => s
  | .error _ s => s

/-- The program ended with an exception. -/
def raisedIn : EStateM.Result ε σ α → Bool
  | .ok _ _ => false
  | .error _ _ => true

@[simp] theorem stateOf_ok (a : α) (s : σ) : stateOf (.ok a s : EStateM.Result ε σ α) = s := rfl

@[simp] theorem stateOf_error (e : ε) (s : σ) :
    stateOf (.error e s : EStateM.Result ε σ α) = s := rfl

@[simp] theorem raisedIn_ok (a : α) (s : σ) :
    raisedIn (.ok a s : EStateM.Result ε σ α) = false := rfl

@[simp] theorem raisedIn_error (e : ε) (s : σ) :
    raisedIn (.error e s : EStateM.Result ε σ α) = true := rfl

/-! ## Running the constructs -/

@[simp] theorem run_pure (a : α) (s : σ) : (pure a : EStateM ε σ α) s = .ok a s := rfl

@[simp] theorem run_throw (e : ε) (s : σ) : (throw e : EStateM ε σ α) s = .error e s := rfl

@[simp] theorem run_bind (x : EStateM ε σ α) (f : α → EStateM ε σ β) (s : σ) :
    (x >>= f) s = match x s with
      | .ok a s' => f a s'
      | .error e s' => .error e s' := rfl

@[simp] theorem run_get (s : σ) : (get : EStateM ε σ σ) s = .ok s s := rfl

@[simp] theorem run_modify {σ' : Type} {ε' : Type} (f : σ' → σ') (s : σ') :
    (modify f : EStateM ε' σ' PUnit) s = .ok ⟨⟩ (f s) := rfl

@[simp] theorem run_tryFinally (x : EStateM ε σ α) (y : EStateM ε σ β) (s : σ) :
    (tryFinally x y) s = match x s with
      | .ok a s' => (match y s' with
        | .ok _ s'' => .ok a s''
        | .error e s'' => .error e s'')
      | .error e s' => (match y s' with
        | .ok _ s'' => .error e s''
        | .error e' s'' => .error e' s'') := by
  unfold tryFinally
  simp only [MonadFinally.tryFinally', Functor.map, EStateM.map]
  cases x s with
  | ok a s' => cases hy : y s' <;> simp only [hy]
  | error e s' => cases hy : y s' <;> simp only [hy]

@[simp] theorem run_tryCatch (x : EStateM ε σ α) (h : ε → EStateM ε σ α) (s : σ) :
    (tryCatch x h) s = match x s with
      | .ok a s' => .ok a s'
      | .error e s' => h e s' := by
  show EStateM.tryCatch x h s = _
  unfold EStateM.tryCatch
  cases x s <;> rfl

/-! ## Working on a part of the state -/

variable {τ : Type u}

/-- Run a program on a part of a larger state. -/
def zoom (part : τ → σ) (put : τ → σ → τ) (x : EStateM ε σ α) : EStateM ε τ α := fun t =>
  match x (part t) with
  | .ok a s => .ok a (put t s)
  | .error e s => .error e (put t s)

@[simp] theorem run_zoom (part : τ → σ) (put : τ → σ → τ) (x : EStateM ε σ α) (t : τ) :
    zoom part put x t = match x (part t) with
      | .ok a s => .ok a (put t s)
      | .error e s => .error e (put t s) := rfl

@[simp] theorem run_ofExcept_ok (a : α) (s : σ) :
    (MonadExcept.ofExcept (.ok a) : EStateM ε σ α) s = .ok a s := rfl

@[simp] theorem run_ofExcept_error (e : ε) (s : σ) :
    (MonadExcept.ofExcept (.error e) : EStateM ε σ α) s = .error e s := rfl

/-! ## Which exceptions a computation raises -/

section Raises

variable {P : ε → Prop}

/-- Every exception of the computation is one of these. -/
def OnlyRaises (P : ε → Prop) (x : Except ε α) : Prop := ∀ e, x = .error e → P e

theorem onlyRaises_ok (a : α) : OnlyRaises P (.ok a : Except ε α) := by
  intro e h
  cases h

@[simp] theorem onlyRaises_error (e : ε) : OnlyRaises P (.error e : Except ε α) ↔ P e := by
  constructor
  · exact fun h => h e rfl
  · rintro h e' heq
    cases heq
    exact h

/-- **Sequencing**: each step raises only these exceptions, as far as the steps before it went. -/
theorem onlyRaises_bind {x : Except ε α} {f : α → Except ε β} :
    OnlyRaises P (x >>= f) ↔ OnlyRaises P x ∧ ∀ a, x = .ok a → OnlyRaises P (f a) := by
  cases x with
  | error e =>
    show OnlyRaises P (Except.error e : Except ε β) ↔ _
    rw [onlyRaises_error]
    constructor
    · exact fun h => ⟨(onlyRaises_error e).mpr h, fun a ha => nomatch ha⟩
    · exact fun h => (onlyRaises_error e).mp h.1
  | ok a =>
    constructor
    · refine fun h => ⟨onlyRaises_ok a, ?_⟩
      rintro a' heq
      cases heq
      exact h
    · exact fun h => h.2 a rfl

theorem OnlyRaises.bind {x : Except ε α} {f : α → Except ε β} (hx : OnlyRaises P x)
    (hf : ∀ a, x = .ok a → OnlyRaises P (f a)) : OnlyRaises P (x >>= f) :=
  onlyRaises_bind.mpr ⟨hx, hf⟩

/-- A step of which the result is known. -/
theorem onlyRaises_bind_ok {x : Except ε α} {a : α} (hx : x = .ok a) {f : α → Except ε β} :
    OnlyRaises P (x >>= f) ↔ OnlyRaises P (f a) := by
  subst hx
  exact Iff.rfl

theorem onlyRaises_mapM {γ : Type u} {f : γ → Except ε α} {items : List γ}
    (h : ∀ item ∈ items, OnlyRaises P (f item)) : OnlyRaises P (items.mapM f) := by
  induction items with
  | nil => exact onlyRaises_ok []
  | cons item items ih =>
    rw [List.mapM_cons]
    refine (h item List.mem_cons_self).bind fun a _ => ?_
    refine (ih fun item hitem => h item (List.mem_cons_of_mem _ hitem)).bind fun as _ => ?_
    exact onlyRaises_ok _

end Raises

end LinuxMaxxing.Lib
