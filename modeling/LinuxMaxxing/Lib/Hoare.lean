import LinuxMaxxing.Lib.Exceptions

/-!
# Triples for Programs with Exceptions

`Triple P x Q E`: from a state that meets `P` the program `x` either returns in a state that
meets `Q` or raises in one that meets `E`. One rule for each construct, so that a proof
follows the program from its first statement to its last and names what holds between two
of them.
-/

namespace LinuxMaxxing.Lib

universe u

variable {ε σ α β : Type u}

/-- From `P` the program returns in `Q` or raises in `E`. -/
def Triple (P : σ → Prop) (x : EStateM ε σ α) (Q : α → σ → Prop) (E : σ → Prop) : Prop :=
  ∀ s, P s → match x s with
    | .ok a s' => Q a s'
    | .error _ s' => E s'

namespace Triple

variable {P P' : σ → Prop} {Q Q' : α → σ → Prop} {R : β → σ → Prop} {E E' : σ → Prop}

/-! ## Rules -/

theorem pure {a : α} (h : ∀ s, P s → Q a s) : Triple P (Pure.pure a : EStateM ε σ α) Q E := h

theorem throw {e : ε} (h : ∀ s, P s → E s) :
    Triple P (MonadExcept.throw e : EStateM ε σ α) Q E := h

/-- Sequencing: what the first part returns in is what the second starts in. -/
theorem bind {x : EStateM ε σ α} {f : α → EStateM ε σ β} (hx : Triple P x Q E)
    (hf : ∀ a, Triple (Q a) (f a) R E) : Triple P (x >>= f) R E := by
  intro s hs
  have h := hx s hs
  rw [run_bind]
  cases hrun : x s with
  | ok a s' =>
    rw [hrun] at h
    exact hf a s' h
  | error e s' =>
    rw [hrun] at h
    exact h

/-- Reading the state: what follows may be proved for each state by itself. -/
theorem get_bind {f : σ → EStateM ε σ β} (h : ∀ t, P t → Triple (fun s => s = t) (f t) R E) :
    Triple P (get >>= f) R E := by
  intro s hs
  exact h s hs s rfl

theorem modify {σ : Type} {ε : Type} {P : σ → Prop} {Q : PUnit → σ → Prop} {E : σ → Prop}
    {g : σ → σ} (h : ∀ s, P s → Q ⟨⟩ (g s)) :
    Triple P (modify g : EStateM ε σ PUnit) Q E := h

theorem ite {c : Prop} [Decidable c] {x y : EStateM ε σ α} (hx : c → Triple P x Q E)
    (hy : ¬ c → Triple P y Q E) : Triple P (if c then x else y) Q E := by
  split
  · exact hx ‹_›
  · exact hy ‹_›

/-- Consequence. -/
theorem weaken {x : EStateM ε σ α} (h : Triple P x Q E) (hP : ∀ s, P' s → P s)
    (hQ : ∀ a s, Q a s → Q' a s) (hE : ∀ s, E s → E' s) : Triple P' x Q' E' := by
  intro s hs
  have hrun := h s (hP s hs)
  cases hx : x s with
  | ok a s' =>
    rw [hx] at hrun
    exact hQ a s' hrun
  | error e s' =>
    rw [hx] at hrun
    exact hE s' hrun

/-- Consequence after the program alone. -/
theorem post {x : EStateM ε σ α} (h : Triple P x Q E) (hQ : ∀ a s, Q a s → Q' a s) :
    Triple P x Q' E :=
  h.weaken (fun _ hs => hs) hQ fun _ hs => hs

/-- Consequence before the program alone. -/
theorem pre {x : EStateM ε σ α} (h : Triple P x Q E) (hP : ∀ s, P' s → P s) : Triple P' x Q E :=
  h.weaken hP (fun _ _ hs => hs) fun _ hs => hs

/-! ## Use -/

/-- A program that keeps an assertion however it ends. -/
theorem stateOf {I : σ → Prop} {x : EStateM ε σ α} (h : Triple P x (fun _ => I) I) {s : σ}
    (hs : P s) : I (Lib.stateOf (x s)) := by
  have hrun := h s hs
  cases hx : x s with
  | ok a s' =>
    rw [hx] at hrun
    exact hrun
  | error e s' =>
    rw [hx] at hrun
    exact hrun

/-- A program that cannot raise returns. -/
theorem returns {x : EStateM ε σ α} (h : Triple P x Q fun _ => False) {s : σ} (hs : P s) :
    ∃ a s', x s = .ok a s' ∧ Q a s' := by
  have hrun := h s hs
  cases hx : x s with
  | ok a s' =>
    rw [hx] at hrun
    exact ⟨a, s', rfl, hrun⟩
  | error e s' =>
    rw [hx] at hrun
    exact hrun.elim

end Triple

end LinuxMaxxing.Lib
