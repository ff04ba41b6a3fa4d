import Mathlib.Tactic

/-!
# Bounded Loops of BPF Programs

`bpf_loop` calls its body with the indices from 0 on, at most `n` times, and stops early
when the body returns 1; an unrolled loop over an array runs through all its indices.
`bpfLoop_ensures` is the rule for a loop by an invariant. `bpfLoop_rel` and `finFoldl_rel`
relate two such loops whose bodies stop together: they are the rules for a loop that runs on two
different states.
-/

namespace LinuxMaxxing.Lib

universe u v

variable {σ : Type u} {τ : Type v}

/-- The body from index `i` on, at most `n` times; it says whether to stop. -/
def bpfLoopFrom (body : Nat → σ → σ × Bool) : Nat → Nat → σ → σ
  | 0, _, s => s
  | n + 1, i, s =>
    match body i s with
    | (s', true) => s'
    | (s', false) => bpfLoopFrom body n (i + 1) s'

/-- `bpf_loop(n, body, ..., 0)` -/
def bpfLoop (n : Nat) (body : Nat → σ → σ × Bool) (s : σ) : σ := bpfLoopFrom body n 0 s

/-- **A loop that may stop**: what holds before each round, and gives `Q` where the body stops
    and after the last round. -/
theorem bpfLoop_ensures {n : Nat} {body : Nat → σ → σ × Bool} {s : σ} (I : Nat → σ → Prop)
    (Q : σ → Prop) (h0 : I 0 s)
    (hbody : ∀ i < n, ∀ s, I i s → (body i s).2 = true ∧ Q (body i s).1 ∨
      (body i s).2 = false ∧ I (i + 1) (body i s).1)
    (hend : ∀ s, I n s → Q s) : Q (bpfLoop n body s) := by
  have hfrom : ∀ k i s, i + k = n → I i s → Q (bpfLoopFrom body k i s) := by
    intro k
    induction k with
    | zero =>
      rintro i s rfl hinv
      exact hend s hinv
    | succ k ih =>
      intro i s hi hinv
      unfold bpfLoopFrom
      rw [← Prod.mk.eta (p := body i s)]
      rcases hbody i (by omega) s hinv with ⟨hstop, hq⟩ | ⟨hgo, hnext⟩
      · rw [hstop]
        exact hq
      · rw [hgo]
        exact ih (i + 1) _ (by omega) hnext
  exact hfrom n 0 s (Nat.zero_add n) h0

/-- **Two loops**: what relates the states before each round, and lets the bodies go on
    together, relates them after the last. -/
theorem bpfLoop_rel {n : Nat} {f : Nat → σ → σ × Bool} {g : Nat → τ → τ × Bool}
    {s : σ} {t : τ} (R : Nat → σ → τ → Prop) (h0 : R 0 s t)
    (hbody : ∀ i < n, ∀ s t, R i s t → (f i s).2 = false ∧ (g i t).2 = false ∧
      R (i + 1) (f i s).1 (g i t).1) :
    R n (bpfLoop n f s) (bpfLoop n g t) := by
  have hfrom : ∀ k i s t, i + k = n → R i s t →
      R n (bpfLoopFrom f k i s) (bpfLoopFrom g k i t) := by
    intro k
    induction k with
    | zero =>
      rintro i s t rfl hrel
      exact hrel
    | succ k ih =>
      intro i s t hi hrel
      obtain ⟨hgo, hgo', hnext⟩ := hbody i (by omega) s t hrel
      unfold bpfLoopFrom
      rw [← Prod.mk.eta (p := f i s), ← Prod.mk.eta (p := g i t), hgo, hgo']
      exact ih (i + 1) _ _ (by omega) hnext
  exact hfrom n 0 s t (Nat.zero_add n) h0

/-- **Two unrolled loops**: the same for a loop over all the indices of an array. -/
theorem finFoldl_rel {n : Nat} {f : σ → Fin n → σ} {g : τ → Fin n → τ} {s : σ} {t : τ}
    (R : Nat → σ → τ → Prop) (h0 : R 0 s t)
    (hbody : ∀ (i : Fin n) s t, R i s t → R (i + 1) (f s i) (g t i)) :
    R n (Fin.foldl n f s) (Fin.foldl n g t) := by
  induction n with
  | zero => simpa only [Fin.foldl_zero] using h0
  | succ n ih =>
    rw [Fin.foldl_succ_last, Fin.foldl_succ_last]
    apply hbody (Fin.last n)
    apply ih
    intro i s t hrel
    exact hbody i.castSucc s t hrel

end LinuxMaxxing.Lib
