import Mathlib.Tactic

/-!
# Stacks of Calls in Progress

One stack of calls under each key (a task, a CPU): a call is entered on top of the stack of its
key, and the call on top is the next to return.

- `mem_push`, `mem_of_mem_pop`, `mem_pop`: which calls are in progress after an entry or a return;
- `pairwise_push`, `pairwise_pop`: a relation between each call and the calls that it was made in.
-/

namespace LinuxMaxxing.Lib

variable {κ α : Type*} [DecidableEq κ] {stackOf : κ → List α} {key key' : κ} {call other : α}
  {calls : List α}

/-! ## Calls in progress -/

/-- After an entry: the call that has been entered, or one that was in progress before. -/
theorem mem_push :
    other ∈ Function.update stackOf key (call :: stackOf key) key' ↔
      key' = key ∧ other = call ∨ other ∈ stackOf key' := by
  by_cases hkey : key' = key
  · subst hkey
    rw [Function.update_self, List.mem_cons]
    simp
  · rw [Function.update_of_ne hkey]
    simp [hkey]

theorem mem_of_mem_pop (hcalls : stackOf key = call :: calls)
    (h : other ∈ Function.update stackOf key calls key') : other ∈ stackOf key' := by
  by_cases hkey : key' = key
  · subst hkey
    rw [Function.update_self] at h
    rw [hcalls]
    exact List.mem_cons_of_mem _ h
  · rwa [Function.update_of_ne hkey] at h

/-- A return takes away one call only. -/
theorem mem_pop (hcalls : stackOf key = call :: calls) (h : other ∈ stackOf key')
    (hne : other ≠ call) : other ∈ Function.update stackOf key calls key' := by
  by_cases hkey : key' = key
  · subst hkey
    rw [Function.update_self]
    rw [hcalls] at h
    exact (List.mem_cons.mp h).resolve_left hne
  · rwa [Function.update_of_ne hkey]

/-! ## Calls and the calls that they were made in -/

variable {R : κ → α → α → Prop}

theorem pairwise_push (h : ∀ key, (stackOf key).Pairwise (R key))
    (hcall : ∀ outer ∈ stackOf key, R key call outer) :
    ∀ key', (Function.update stackOf key (call :: stackOf key) key').Pairwise (R key') := by
  intro key'
  by_cases hkey : key' = key
  · subst hkey
    rw [Function.update_self]
    exact List.pairwise_cons.mpr ⟨hcall, h _⟩
  · rw [Function.update_of_ne hkey]
    exact h key'

theorem pairwise_pop (h : ∀ key, (stackOf key).Pairwise (R key))
    (hcalls : stackOf key = call :: calls) :
    ∀ key', (Function.update stackOf key calls key').Pairwise (R key') := by
  intro key'
  by_cases hkey : key' = key
  · subst hkey
    have hstack := h key'
    rw [hcalls] at hstack
    rw [Function.update_self]
    exact (List.pairwise_cons.mp hstack).2
  · rw [Function.update_of_ne hkey]
    exact h key'

end LinuxMaxxing.Lib
