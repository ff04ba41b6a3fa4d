import Mathlib.Tactic

/-!
# Radix Trees with Entries at Every Level

A node has `w` slots. A slot of a node of level `l` covers `w ^ l` indices: it holds an entry
that covers them all, or a node of level `l - 1` that divides them, or nothing. An entry of
more than one slot sits in its first one, and the others are siblings of it.

Two readings of such a tree:

- `Slot.find`: the descent to one index; `Slot.findWithin` gives up after so many nodes
- `Slot.entries`: the list of all entries, each with its first index and its level

`find_of_mem` and `mem_of_find` say that they agree: the descent to an index finds an entry
exactly when the index is in the span of the entry's first slot.
-/

namespace LinuxMaxxing.Lib.Radix

universe u

variable {α : Type u}

/-- A slot of a node of level `l`. -/
inductive Slot (α : Type u) : Nat → Type u where
  | empty {l : Nat} : Slot α l
  /-- something that is no entry of interest -/
  | value {l : Nat} : Slot α l
  | entry {l : Nat} (item : α) : Slot α l
  | sibling {l : Nat} (canonical : Nat) : Slot α l
  | node {l : Nat} (slots : Nat → Slot α l) : Slot α (l + 1)

/-- An entry of the tree: the first index and the level of its first slot. -/
structure Entry (α : Type u) where
  first : Nat
  level : Nat
  item : α
  deriving DecidableEq

variable (w : Nat)

/-- The last index of the entry's first slot, and one more. -/
def Entry.stop (e : Entry α) : Nat := e.first + w ^ e.level

namespace Slot

/-- The descent to an index: level and item of the entry it ends in. -/
def find : {l : Nat} → Slot α l → Nat → Option (Nat × α)
  | l, .entry item, _ => some (l, item)
  | _, .node (l := l) slots, index => (slots (index / w ^ l % w)).find index
  | _, .empty, _ | _, .value, _ | _, .sibling _, _ => none

/-- The same through at most so many nodes. -/
def findWithin : {l : Nat} → Slot α l → Nat → Nat → Option (Nat × α)
  | l, .entry item, _, _ => some (l, item)
  | _, .node _, 0, _ => none
  | _, .node (l := l) slots, n + 1, index => (slots (index / w ^ l % w)).findWithin n index
  | _, .empty, _, _ | _, .value, _, _ | _, .sibling _, _, _ => none

/-- The entries of a slot whose first index is `base`, in index order. -/
def entries : {l : Nat} → Slot α l → Nat → List (Entry α)
  | l, .entry item, base => [⟨base, l, item⟩]
  | _, .node (l := l) slots, base =>
    (List.range w).flatMap fun i => (slots i).entries (base + i * w ^ l)
  | _, .empty, _ | _, .value, _ | _, .sibling _, _ => []

variable {w} {l : Nat} {s : Slot α l}

/-! ## The descent -/

theorem find_level_le {index level : Nat} {item : α} (h : s.find w index = some (level, item)) :
    level ≤ l := by
  induction s with
  | entry a =>
    simp only [find, Option.some.injEq, Prod.mk.injEq] at h
    omega
  | node slots ih => exact Nat.le_succ_of_le (ih _ h)
  | empty => cases h
  | value => cases h
  | sibling canonical => cases h

/-- A bounded descent finds what lies at most so many nodes deep. -/
theorem findWithin_eq_some_iff {n index level : Nat} {item : α} :
    s.findWithin w n index = some (level, item) ↔
      s.find w index = some (level, item) ∧ l ≤ level + n := by
  induction s generalizing n with
  | entry a =>
    simp only [findWithin, find, Option.some.injEq, Prod.mk.injEq]
    constructor
    · rintro ⟨rfl, rfl⟩
      exact ⟨⟨rfl, rfl⟩, Nat.le_add_right _ _⟩
    · rintro ⟨h, -⟩
      exact h
  | @node l slots ih =>
    cases n with
    | zero =>
      -- no node may be entered, and every entry lies below this one
      simp only [findWithin, reduceCtorEq, false_iff, not_and]
      intro hfind
      have hlevel : level ≤ l := find_level_le hfind
      omega
    | succ n =>
      rw [findWithin, ih, find]
      refine and_congr_right fun _ => ?_
      omega
  | empty => simp [findWithin, find]
  | value => simp [findWithin, find]
  | sibling canonical => simp [findWithin, find]

/-! ## The entries -/

/-- The slots of a node of level `l` lie one behind the other. -/
theorem slot_le {i : Nat} (hi : i < w) (base l : Nat) :
    base + i * w ^ l + w ^ l ≤ base + w ^ (l + 1) := by
  have hmul : (i + 1) * w ^ l ≤ w * w ^ l := Nat.mul_le_mul_right _ hi
  have hsucc : w ^ (l + 1) = w * w ^ l := by rw [Nat.pow_succ, Nat.mul_comm]
  rw [Nat.add_mul, Nat.one_mul] at hmul
  omega

/-- An entry lies inside its slot. -/
theorem mem_entries_bounds {base : Nat} {e : Entry α} (h : e ∈ s.entries w base) :
    base ≤ e.first ∧ e.stop w ≤ base + w ^ l := by
  induction s generalizing base with
  | entry a =>
    obtain rfl := List.mem_singleton.mp h
    exact ⟨le_rfl, le_rfl⟩
  | @node l slots ih =>
    obtain ⟨i, hi, hmem⟩ := List.mem_flatMap.mp h
    obtain ⟨hlo, hhi⟩ := ih i hmem
    have hslot := slot_le (List.mem_range.mp hi) base l
    omega
  | empty => cases h
  | value => cases h
  | sibling canonical => cases h

/-- The slot that the descent takes for an index of slot `i`. -/
theorem index_slot {base i index : Nat} (hi : i < w) (hbase : w ^ (l + 1) ∣ base)
    (hlo : base + i * w ^ l ≤ index) (hhi : index < base + i * w ^ l + w ^ l) :
    index / w ^ l % w = i := by
  obtain ⟨q, rfl⟩ := hbase
  have hdiv : index / w ^ l = w * q + i := by
    apply Nat.div_eq_of_lt_le
    · calc (w * q + i) * w ^ l = w ^ (l + 1) * q + i * w ^ l := by ring
        _ ≤ index := hlo
    · calc index < w ^ (l + 1) * q + i * w ^ l + w ^ l := hhi
        _ = (w * q + i).succ * w ^ l := by rw [Nat.succ_eq_add_one]; ring
  rw [hdiv, Nat.mul_add_mod, Nat.mod_eq_of_lt hi]

theorem dvd_slot {base i : Nat} (hbase : w ^ (l + 1) ∣ base) : w ^ l ∣ base + i * w ^ l :=
  Nat.dvd_add (dvd_trans (pow_dvd_pow w (Nat.le_succ l)) hbase) (Nat.dvd_mul_left _ _)

/-- The descent to any index of an entry's first slot finds the entry. -/
theorem find_of_mem {base : Nat} (hbase : w ^ l ∣ base) {e : Entry α}
    (h : e ∈ s.entries w base) {index : Nat} (hlo : e.first ≤ index) (hhi : index < e.stop w) :
    s.find w index = some (e.level, e.item) := by
  induction s generalizing base with
  | entry a =>
    obtain rfl := List.mem_singleton.mp h
    rfl
  | @node l slots ih =>
    obtain ⟨i, hi, hmem⟩ := List.mem_flatMap.mp h
    obtain ⟨hlo', hhi'⟩ := mem_entries_bounds hmem
    rw [find, index_slot (List.mem_range.mp hi) hbase (by omega) (by omega)]
    exact ih i (dvd_slot hbase) hmem
  | empty => cases h
  | value => cases h
  | sibling canonical => cases h

/-- What the descent finds for an index of the slot is an entry that has the index in its
    first slot. -/
theorem mem_of_find (hw : 0 < w) {base : Nat} (hbase : w ^ l ∣ base) {index level : Nat}
    {item : α} (hlo : base ≤ index) (hhi : index < base + w ^ l)
    (h : s.find w index = some (level, item)) :
    ∃ e ∈ s.entries w base, e.level = level ∧ e.item = item ∧ e.first ≤ index ∧
      index < e.stop w := by
  induction s generalizing base with
  | entry a =>
    simp only [find, Option.some.injEq, Prod.mk.injEq] at h
    obtain ⟨rfl, rfl⟩ := h
    exact ⟨_, List.mem_singleton_self _, rfl, rfl, hlo, hhi⟩
  | @node l slots ih =>
    have hpos : 0 < w ^ l := Nat.pow_pos hw
    -- the slot of the index
    obtain ⟨i, hi, hslot_lo, hslot_hi⟩ : ∃ i < w, base + i * w ^ l ≤ index ∧
        index < base + i * w ^ l + w ^ l := by
      refine ⟨(index - base) / w ^ l, ?_, ?_, ?_⟩
      · rw [Nat.div_lt_iff_lt_mul hpos]
        have hsucc : w ^ (l + 1) = w * w ^ l := by rw [Nat.pow_succ, Nat.mul_comm]
        omega
      · have := Nat.div_mul_le_self (index - base) (w ^ l)
        omega
      · have := Nat.lt_div_mul_add (a := index - base) hpos
        omega
    rw [find, index_slot hi hbase hslot_lo hslot_hi] at h
    obtain ⟨e, hmem, hrest⟩ := ih i (dvd_slot hbase) hslot_lo hslot_hi h
    exact ⟨e, List.mem_flatMap.mpr ⟨i, List.mem_range.mpr hi, hmem⟩, hrest⟩
  | empty => cases h
  | value => cases h
  | sibling canonical => cases h

/-- An entry starts at a multiple of what its slot covers. -/
theorem dvd_first {base : Nat} (hbase : w ^ l ∣ base) {e : Entry α} (h : e ∈ s.entries w base) :
    w ^ e.level ∣ e.first := by
  induction s generalizing base with
  | entry a =>
    obtain rfl := List.mem_singleton.mp h
    exact hbase
  | @node l slots ih =>
    obtain ⟨i, _, hmem⟩ := List.mem_flatMap.mp h
    exact ih i (dvd_slot hbase) hmem
  | empty => cases h
  | value => cases h
  | sibling canonical => cases h

/-! ## Both readings at an index -/

/-- The entries whose first slot has the index. -/
theorem spans_iff (hw : 0 < w) {index : Nat} (hindex : index < w ^ l) {item : α}
    {P : Nat → Prop} :
    (∃ e ∈ s.entries w 0, e.item = item ∧ e.first ≤ index ∧ index < e.stop w ∧ P e.level) ↔
      ∃ level, s.find w index = some (level, item) ∧ P level := by
  constructor
  · rintro ⟨e, hmem, rfl, hlo, hhi, hP⟩
    exact ⟨e.level, find_of_mem (dvd_zero _) hmem hlo hhi, hP⟩
  · rintro ⟨level, hfind, hP⟩
    obtain ⟨e, hmem, rfl, rfl, hlo, hhi⟩ :=
      mem_of_find hw (dvd_zero _) (Nat.zero_le _) (by omega) hfind
    exact ⟨e, hmem, rfl, hlo, hhi, hP⟩

/-- The entries that start at the index. -/
theorem starts_iff (hw : 0 < w) {index : Nat} (hindex : index < w ^ l) {item : α} :
    (∃ e ∈ s.entries w 0, e.item = item ∧ e.first = index) ↔
      ∃ level, s.find w index = some (level, item) ∧ w ^ level ∣ index := by
  rw [← spans_iff hw hindex (P := fun level => w ^ level ∣ index)]
  constructor
  · rintro ⟨e, hmem, rfl, rfl⟩
    have hpos : 0 < w ^ e.level := Nat.pow_pos hw
    exact ⟨e, hmem, rfl, le_rfl, Nat.lt_add_of_pos_right hpos, dvd_first (dvd_zero _) hmem⟩
  · rintro ⟨e, hmem, rfl, hlo, hhi, hdvd⟩
    -- two multiples of the span, less than a span apart
    refine ⟨e, hmem, rfl, ?_⟩
    have hsub : index - e.first = 0 :=
      Nat.eq_zero_of_dvd_of_lt (Nat.dvd_sub hdvd (dvd_first (dvd_zero _) hmem))
        (by unfold Entry.stop at hhi; omega)
    omega

end Slot

end LinuxMaxxing.Lib.Radix
