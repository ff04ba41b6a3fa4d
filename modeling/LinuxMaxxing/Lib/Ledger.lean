import Mathlib.Data.Multiset.AddSub
import Mathlib.Tactic

/-!
# Ledgers of Held Resources

What the parties of a system hold of its resources, as a multiset of tokens. A token may need
others: it is held only while they are. A ledger carries this discipline in its fields, so that
an operation on it has a result exactly when it keeps the discipline:

- `acquire`: a token that nobody holds, and of which everything that it needs is held;
- `release`: a token that is held, and that no other held token needs.

One party's share of a ledger (`Splits`) is what the ledger holds besides the tokens of the
others. The rules `Splits.acquire` and `Splits.release` say when that party can act, from its
own share alone.
-/

namespace LinuxMaxxing.Lib

universe u

/-- Tokens held at one time; `needs t` are the tokens that `t` stands on. -/
structure Ledger {τ : Type u} (needs : τ → List τ) where
  held : Multiset τ
  nodup : held.Nodup
  closed : ∀ t ∈ held, ∀ v ∈ needs t, v ∈ held

namespace Ledger

/-! ## One party's share -/

variable {τ : Type u} {needs : τ → List τ} {l : Ledger needs} {t : τ} {others own : Multiset τ}

/-- The ledger holds `others`, which stand on nothing but themselves, and besides them `own`. -/
structure Splits (l : Ledger needs) (others own : Multiset τ) : Prop where
  held : l.held = others + own
  apart : ∀ t ∈ others, ∀ v ∈ needs t, v ∈ others

theorem Splits.mem_held (h : l.Splits others own) (ht : t ∈ own) : t ∈ l.held := by
  rw [h.held]
  exact Multiset.mem_add.mpr (.inr ht)

/-- A token belongs to one side only. -/
theorem Splits.notMem_others (h : l.Splits others own) (ht : t ∈ own) : t ∉ others := by
  have hnodup := l.nodup
  rw [h.held, Multiset.nodup_add] at hnodup
  exact fun hothers => (Multiset.disjoint_left.mp hnodup.2.2) hothers ht

variable [DecidableEq τ]

/-! ## Operations -/

def empty : Ledger needs := ⟨0, Multiset.nodup_zero, by simp⟩

/-- `t` can be taken. -/
def Available (l : Ledger needs) (t : τ) : Prop := t ∉ l.held ∧ ∀ v ∈ needs t, v ∈ l.held

/-- `t` can be given back. -/
def Releasable (l : Ledger needs) (t : τ) : Prop := t ∈ l.held ∧ ∀ v ∈ l.held, t ∉ needs v

instance (l : Ledger needs) (t : τ) : Decidable (l.Available t) :=
  inferInstanceAs (Decidable (_ ∧ _))

instance (l : Ledger needs) (t : τ) : Decidable (l.Releasable t) :=
  inferInstanceAs (Decidable (_ ∧ _))

/-- Take a token; `none` against the discipline. -/
def acquire (l : Ledger needs) (t : τ) : Option (Ledger needs) :=
  if h : l.Available t then
    some
      { held := t ::ₘ l.held
        nodup := Multiset.nodup_cons.mpr ⟨h.1, l.nodup⟩
        closed := by
          intro v hv w hw
          rcases Multiset.mem_cons.mp hv with rfl | hv
          · exact Multiset.mem_cons_of_mem (h.2 w hw)
          · exact Multiset.mem_cons_of_mem (l.closed v hv w hw) }
  else none

/-- Give a token back; `none` against the discipline. -/
def release (l : Ledger needs) (t : τ) : Option (Ledger needs) :=
  if h : l.Releasable t then
    some
      { held := l.held.erase t
        nodup := l.nodup.erase t
        closed := by
          intro v hv w hw
          have hv' := Multiset.mem_of_mem_erase hv
          refine (Multiset.mem_erase_of_ne ?_).mpr (l.closed v hv' w hw)
          rintro rfl
          exact h.2 v hv' hw }
  else none

theorem acquire_of_available (h : l.Available t) :
    ∃ l', l.acquire t = some l' ∧ l'.held = t ::ₘ l.held :=
  ⟨_, dif_pos h, rfl⟩

theorem release_of_releasable (h : l.Releasable t) :
    ∃ l', l.release t = some l' ∧ l'.held = l.held.erase t :=
  ⟨_, dif_pos h, rfl⟩

theorem held_of_acquire {l' : Ledger needs} (h : l.acquire t = some l') :
    l'.held = t ::ₘ l.held := by
  unfold acquire at h
  split at h
  · cases h
    rfl
  · cases h

theorem held_of_release {l' : Ledger needs} (h : l.release t = some l') :
    t ∈ l.held ∧ l'.held = l.held.erase t := by
  unfold release at h
  split at h
  · next hrel =>
    cases h
    exact ⟨hrel.1, rfl⟩
  · cases h

/-! ## Operations on a share -/

/-- **Taking a token** that stands on the share makes it part of the share. -/
theorem Splits.acquire (h : l.Splits others own) (hfree : t ∉ l.held)
    (hneeds : ∀ v ∈ needs t, v ∈ own) :
    ∃ l', l.acquire t = some l' ∧ l'.Splits others (t ::ₘ own) := by
  obtain ⟨l', hrun, hheld⟩ :=
    acquire_of_available (l := l) ⟨hfree, fun v hv => h.mem_held (hneeds v hv)⟩
  refine ⟨l', hrun, ?_, h.apart⟩
  rw [hheld, h.held, Multiset.add_cons]

/-- **Giving a token back** needs nothing of the others. -/
theorem Splits.release (h : l.Splits others own) (ht : t ∈ own)
    (hneeded : ∀ v ∈ own, t ∉ needs v) :
    ∃ l', l.release t = some l' ∧ l'.Splits others (own.erase t) := by
  have hothers := h.notMem_others ht
  have hreleasable : l.Releasable t := by
    refine ⟨h.mem_held ht, fun v hv hneed => ?_⟩
    rw [h.held, Multiset.mem_add] at hv
    rcases hv with hv | hv
    · exact hothers (h.apart v hv t hneed)
    · exact hneeded v hv hneed
  obtain ⟨l', hrun, hheld⟩ := release_of_releasable hreleasable
  refine ⟨l', hrun, ?_, h.apart⟩
  rw [hheld, h.held, Multiset.erase_add_right_neg _ hothers]

/-- The others take a token for themselves. -/
theorem Splits.acquire_others {l' : Ledger needs} (h : l.Splits others own)
    (hneeds : ∀ v ∈ needs t, v ∈ others) (hrun : l.acquire t = some l') :
    l'.Splits (t ::ₘ others) own := by
  refine ⟨?_, ?_⟩
  · rw [held_of_acquire hrun, h.held, Multiset.cons_add]
  · intro v hv w hw
    rcases Multiset.mem_cons.mp hv with rfl | hv
    · exact Multiset.mem_cons_of_mem (hneeds w hw)
    · exact Multiset.mem_cons_of_mem (h.apart v hv w hw)

/-- The others give one of their tokens back. -/
theorem Splits.release_others {l' : Ledger needs} (h : l.Splits others own) (ht : t ∈ others)
    (hrun : l.release t = some l') : l'.Splits (others.erase t) own := by
  have hrel : l.Releasable t := by
    by_contra hnot
    simp [Ledger.release, hnot] at hrun
  refine ⟨?_, ?_⟩
  · rw [(held_of_release hrun).2, h.held, Multiset.erase_add_left_pos _ ht]
  · intro v hv w hw
    have hv' := Multiset.mem_of_mem_erase hv
    refine (Multiset.mem_erase_of_ne ?_).mpr (h.apart v hv' w hw)
    rintro rfl
    exact hrel.2 v (by rw [h.held]; exact Multiset.mem_add.mpr (.inl hv')) hw

end Ledger

end LinuxMaxxing.Lib
