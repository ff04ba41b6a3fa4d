import Mathlib.Tactic

/-!
# Walks through Multi-Level Page Tables

A table has 512 entries of eight bytes, and an entry of level `l` covers `512 ^ l` pages. The
walk for a page takes the entry of its slot, level after level, until an entry leads to no
further table. What the slots of a table hold is any function, and so is which entries lead on.

- `walk`: the entries on the way; `final`: the one in which it ends
- `final_congr`: the pages that an entry covers share their walk
- `seen_iff`: over pages one behind the other, an entry is new at its first page
-/

namespace LinuxMaxxing.Lib.PageTable

/-- An entry that a walk reads, and where it lies. -/
structure Step where
  level : Nat
  location : BitVec 64
  entry : BitVec 64
  deriving DecidableEq, Repr

/-- The slot of a page in a table of this level. -/
def slot (page level : Nat) : Nat := page / 512 ^ level % 512

/-- The nine bits of an address that select the slot. -/
theorem toNat_slotBits (address : BitVec 64) (level : Nat) :
    ((address >>> (12 + 9 * level)) &&& 0x1ff).toNat = slot (address.toNat / 4096) level := by
  rw [BitVec.toNat_and, BitVec.toNat_ushiftRight, Nat.shiftRight_eq_div_pow]
  show address.toNat / 2 ^ (12 + 9 * level) &&& (2 ^ 9 - 1) = _
  rw [Nat.and_two_pow_sub_one_eq_mod, slot, Nat.pow_add, Nat.pow_mul, Nat.div_div_eq_div_mul]

/-- The address of the entry. -/
def slotAddress (table : BitVec 64) (page level : Nat) : BitVec 64 :=
  table + BitVec.ofNat 64 (slot page level * 8)

/-- The entry of a page in a table; `mem level table slot` is what the slot holds. -/
def stepAt (mem : Nat → BitVec 64 → Nat → BitVec 64) (page level : Nat) (table : BitVec 64) :
    Step where
  level := level
  location := slotAddress table page level
  entry := mem level table (slot page level)

section Walk

-- `down level entry` is the table that the entry leads to, if it does
variable (mem : Nat → BitVec 64 → Nat → BitVec 64) (down : Nat → BitVec 64 → Option (BitVec 64))

/-- The entries that the walk for a page reads. -/
def walk (page : Nat) : Nat → BitVec 64 → List Step
  | 0, table => [stepAt mem page 0 table]
  | level + 1, table =>
    stepAt mem page (level + 1) table ::
      match down (level + 1) (stepAt mem page (level + 1) table).entry with
      | none => []
      | some next => walk page level next

/-- The entry in which the walk for a page ends. -/
def final (page : Nat) : Nat → BitVec 64 → Step
  | 0, table => stepAt mem page 0 table
  | level + 1, table =>
    match down (level + 1) (stepAt mem page (level + 1) table).entry with
    | none => stepAt mem page (level + 1) table
    | some next => final page level next

variable {mem down} {page page' level : Nat} {table : BitVec 64}

theorem walk_getLast : (walk mem down page level table).getLast? =
    some (final mem down page level table) := by
  induction level generalizing table with
  | zero => rfl
  | succ level ih =>
    rw [walk, final]
    cases down (level + 1) (stepAt mem page (level + 1) table).entry with
    | none => rfl
    | some next =>
      have hne : walk mem down page level next ≠ [] := by
        intro hnil
        have hlast : (walk mem down page level next).getLast? =
            some (final mem down page level next) := ih
        simp [hnil] at hlast
      rw [List.getLast?_cons, ih]
      rfl

theorem final_level_le : (final mem down page level table).level ≤ level := by
  induction level generalizing table with
  | zero => exact le_rfl
  | succ level ih =>
    rw [final]
    cases down (level + 1) (stepAt mem page (level + 1) table).entry with
    | none => exact le_rfl
    | some next => exact Nat.le_succ_of_le ih

/-- It has an entry of every level down to that one. -/
theorem exists_mem_walk {l : Nat} (hfinal : (final mem down page level table).level ≤ l)
    (hl : l ≤ level) : ∃ s ∈ walk mem down page level table, s.level = l := by
  induction level generalizing table with
  | zero => exact ⟨_, List.mem_singleton_self _, (Nat.le_zero.mp hl).symm⟩
  | succ level ih =>
    rw [walk]
    rw [final] at hfinal
    rcases Nat.lt_or_eq_of_le hl with hlt | rfl
    · cases hdown : down (level + 1) (stepAt mem page (level + 1) table).entry with
      | none =>
        rw [hdown] at hfinal
        exact absurd hfinal (Nat.not_le.mpr hlt)
      | some next =>
        rw [hdown] at hfinal
        obtain ⟨s, hs, hlevel⟩ := ih hfinal (by omega)
        exact ⟨s, List.mem_cons_of_mem _ hs, hlevel⟩
    · exact ⟨_, List.mem_cons_self, rfl⟩

/-- All the entries before the last lead on, and lie above it. -/
theorem eq_final_or_down {s : Step} (hs : s ∈ walk mem down page level table) :
    s = final mem down page level table ∨
      (final mem down page level table).level < s.level ∧
        ∃ next, down s.level s.entry = some next := by
  induction level generalizing table with
  | zero => exact .inl (List.mem_singleton.mp hs)
  | succ level ih =>
    rw [walk] at hs
    rw [final]
    cases hdown : down (level + 1) (stepAt mem page (level + 1) table).entry with
    | none =>
      rw [hdown] at hs
      exact .inl (List.mem_singleton.mp hs)
    | some next =>
      rw [hdown] at hs
      rcases List.mem_cons.mp hs with rfl | hs
      · exact .inr ⟨Nat.lt_succ_of_le final_level_le, next, hdown⟩
      · exact ih hs

/-- **The same tables elsewhere**: a walk reads the same entries in tables that lie elsewhere, if
    entries lead to the same tables there. -/
theorem final_moved {mem' : Nat → BitVec 64 → Nat → BitVec 64}
    {down' : Nat → BitVec 64 → Option (BitVec 64)} {moved : BitVec 64 → BitVec 64}
    (hmem : ∀ l t s, mem' l (moved t) s = mem l t s)
    (hdown : ∀ l e, 0 < l → l ≤ level → down' l e = (down l e).map moved) :
    (final mem' down' page level (moved table)).level = (final mem down page level table).level ∧
      (final mem' down' page level (moved table)).entry =
        (final mem down page level table).entry := by
  induction level generalizing table with
  | zero => exact ⟨rfl, hmem 0 table _⟩
  | succ level ih =>
    have hentry : (stepAt mem' page (level + 1) (moved table)).entry =
        (stepAt mem page (level + 1) table).entry := hmem _ _ _
    rw [final, final, hentry, hdown _ _ (Nat.succ_pos level) le_rfl]
    cases down (level + 1) (stepAt mem page (level + 1) table).entry with
    | none => exact ⟨rfl, hentry⟩
    | some next => exact ih fun l e hpos hle => hdown l e hpos (Nat.le_succ_of_le hle)

/-! ## The pages that an entry covers -/

/-- Pages that share their slots from a level on, share those above it. -/
theorem div_pow_congr {k : Nat} (h : page / 512 ^ k = page' / 512 ^ k) (hle : k ≤ level) :
    page / 512 ^ level = page' / 512 ^ level := by
  obtain ⟨d, rfl⟩ := Nat.exists_eq_add_of_le hle
  rw [Nat.pow_add, ← Nat.div_div_eq_div_mul, ← Nat.div_div_eq_div_mul, h]

theorem stepAt_congr (h : page / 512 ^ level = page' / 512 ^ level) :
    stepAt mem page level table = stepAt mem page' level table := by
  simp only [stepAt, slotAddress, slot, h]

/-- **The pages of an entry**: a page that the final entry covers ends its walk there too. -/
theorem final_congr
    (h : page / 512 ^ (final mem down page level table).level =
      page' / 512 ^ (final mem down page level table).level) :
    final mem down page' level table = final mem down page level table := by
  induction level generalizing table with
  | zero => exact (stepAt_congr h).symm
  | succ level ih =>
    have hslot : stepAt mem page (level + 1) table = stepAt mem page' (level + 1) table :=
      stepAt_congr (div_pow_congr h final_level_le)
    rw [final, ← hslot]
    rw [final] at h ⊢
    cases hdown : down (level + 1) (stepAt mem page (level + 1) table).entry with
    | none => rfl
    | some next =>
      rw [hdown] at h
      exact ih h

/-! ## Entries told by where they lie -/

variable {base : Nat}

/-- Below the root the tables lie alike in their pages, and the location gives the slot. -/
theorem final_location (hdown : ∀ l e next, down l e = some next → next.toNat % 4096 = base)
    (hlevel : (final mem down page level table).level < level) :
    (final mem down page level table).location.toNat % 4096 =
      (base + slot page (final mem down page level table).level * 8) % 4096 := by
  have hbelow : ∀ l table, table.toNat % 4096 = base →
      (final mem down page l table).location.toNat % 4096 =
        (base + slot page (final mem down page l table).level * 8) % 4096 := by
    have hstep : ∀ l (table : BitVec 64), table.toNat % 4096 = base →
        (stepAt mem page l table).location.toNat % 4096 = (base + slot page l * 8) % 4096 := by
      intro l table htable
      have hslot : slot page l < 512 := Nat.mod_lt _ (by decide)
      simp only [stepAt, slotAddress, BitVec.toNat_add, BitVec.toNat_ofNat]
      omega
    intro l
    induction l with
    | zero => exact hstep 0
    | succ l ih =>
      intro table htable
      rw [final]
      cases hcase : down (l + 1) (stepAt mem page (l + 1) table).entry with
      | none => exact hstep (l + 1) table htable
      | some next => exact ih next (hdown _ _ _ hcase)
  cases level with
  | zero => exact absurd hlevel (Nat.not_lt_zero _)
  | succ level =>
    rw [final] at hlevel ⊢
    cases hcase : down (level + 1) (stepAt mem page (level + 1) table).entry with
    | none =>
      rw [hcase] at hlevel
      exact absurd hlevel (lt_irrefl _)
    | some next => exact hbelow level next (hdown _ _ _ hcase)

/-- Two pages less than a table apart that end in the same entry below the root are both
    covered by it. -/
theorem div_pow_eq_of_location
    (hdown : ∀ l e next, down l e = some next → next.toNat % 4096 = base)
    (hnear : page ≤ page' ∧ page' < page + 512)
    (hlevel : (final mem down page level table).level < level)
    (heq : (final mem down page' level table).level = (final mem down page level table).level)
    (hloc : (final mem down page' level table).location =
      (final mem down page level table).location) :
    page / 512 ^ (final mem down page level table).level =
      page' / 512 ^ (final mem down page level table).level := by
  have h := final_location hdown hlevel
  have h' : (final mem down page' level table).location.toNat % 4096 =
      (base + slot page' (final mem down page' level table).level * 8) % 4096 :=
    final_location hdown (heq.trans_lt hlevel)
  rw [hloc, h, heq] at h'
  generalize (final mem down page level table).level = k at h' ⊢
  have hslot : slot page k < 512 := Nat.mod_lt _ (by decide)
  have hslot' : slot page' k < 512 := Nat.mod_lt _ (by decide)
  have hsame : slot page k = slot page' k := by omega
  -- less than 512 slots of this level lie between the two pages
  have hle : page / 512 ^ k ≤ page' / 512 ^ k := Nat.div_le_div_right hnear.1
  have hlt : page' / 512 ^ k < page / 512 ^ k + 512 := by
    have hpos : 0 < 512 ^ k := Nat.pow_pos (by decide)
    rw [Nat.div_lt_iff_lt_mul hpos, Nat.add_mul]
    have hone : 512 * 1 ≤ 512 * 512 ^ k := Nat.mul_le_mul_left _ hpos
    have hdiv := Nat.lt_div_mul_add (a := page) hpos
    omega
  unfold slot at hsame
  omega

end Walk

/-! ## Pages one behind the other -/

section Window

variable (mem : Nat → BitVec 64 → Nat → BitVec 64) (down : Nat → BitVec 64 → Option (BitVec 64))
  (top : Nat) (root : BitVec 64) (first : Nat)

/-- The entry of the `i`-th page from `first` on. -/
def finalAt (i : Nat) : Step := final mem down (first + i) top root

/-- The entries in which the walks for the first `n` pages end, each once. -/
def finals (n : Nat) : Finset Step :=
  ((List.range n).map (finalAt mem down top root first)).toFinset

variable {mem down top root first} {base n : Nat}

/-- Inside an entry the page before has the same one. -/
theorem finalAt_pred (hpos : 0 < n)
    (hinside : (first + n) % 512 ^ (finalAt mem down top root first n).level ≠ 0) :
    finalAt mem down top root first (n - 1) = finalAt mem down top root first n := by
  apply final_congr
  show (first + n) / 512 ^ (finalAt mem down top root first n).level =
    (first + (n - 1)) / 512 ^ (finalAt mem down top root first n).level
  generalize 512 ^ (finalAt mem down top root first n).level = span at hinside ⊢
  obtain ⟨k, rfl⟩ : ∃ k, n = k + 1 := ⟨n - 1, by omega⟩
  rw [Nat.add_sub_cancel, ← Nat.add_assoc, Nat.succ_div_of_not_dvd]
  rwa [Nat.dvd_iff_mod_eq_zero, Nat.add_assoc]

/-- **New entries**: in a window of at most 512 pages an entry below the root has been met
    before unless this is the first page of the window or of the entry. -/
theorem finalAt_mem_finals
    (hdown : ∀ l e next, down l e = some next → next.toNat % 4096 = base)
    (hn : n < 512) (hlevel : (finalAt mem down top root first n).level < top) :
    finalAt mem down top root first n ∈ finals mem down top root first n ↔
      0 < n ∧ (first + n) % 512 ^ (finalAt mem down top root first n).level ≠ 0 := by
  simp only [finals, List.mem_toFinset, List.mem_map, List.mem_range]
  constructor
  · rintro ⟨j, hj, heq⟩
    refine ⟨by omega, fun hstart => ?_⟩
    -- page `j` lies before the first page of the entry that it shares
    have hshared : final mem down (first + j) top root = finalAt mem down top root first n := heq
    have hdiv := div_pow_eq_of_location hdown (by omega) (hshared ▸ hlevel)
      (congrArg Step.level hshared.symm) (congrArg Step.location hshared.symm)
    rw [hshared] at hdiv
    have hpos : 0 < 512 ^ (finalAt mem down top root first n).level := Nat.pow_pos (by decide)
    generalize 512 ^ (finalAt mem down top root first n).level = span at hstart hdiv hpos
    have hlow := Nat.lt_div_mul_add (a := first + j) hpos
    have hmul := Nat.div_mul_cancel (Nat.dvd_of_mod_eq_zero hstart)
    have hup := Nat.div_mul_le_self (first + j) span
    rw [hdiv, hmul] at hup
    omega
  · rintro ⟨hpos, hinside⟩
    exact ⟨n - 1, by omega, finalAt_pred hpos hinside⟩

theorem finals_succ : finals mem down top root first (n + 1) =
    insert (finalAt mem down top root first n) (finals mem down top root first n) := by
  ext s
  simp only [finals, List.range_succ, List.map_append, List.map_cons, List.map_nil,
    List.mem_toFinset, List.mem_append, List.mem_singleton, Finset.mem_insert]
  exact or_comm

/-- **Counting entries**: one more for the first page of the window, and for the first page of
    an entry. -/
theorem card_filter_finals_succ
    (hdown : ∀ l e next, down l e = some next → next.toNat % 4096 = base)
    (hn : n < 512) (p : Step → Prop) [DecidablePred p]
    (htop : p (finalAt mem down top root first n) →
      (finalAt mem down top root first n).level < top) :
    ((finals mem down top root first (n + 1)).filter p).card =
      ((finals mem down top root first n).filter p).card +
        if p (finalAt mem down top root first n) ∧ (n = 0 ∨
          (first + n) % 512 ^ (finalAt mem down top root first n).level = 0) then 1 else 0 := by
  rw [finals_succ]
  by_cases hp : p (finalAt mem down top root first n)
  · have hseen := finalAt_mem_finals (n := n) hdown hn (htop hp)
    rw [Finset.filter_insert, if_pos hp]
    by_cases hnew : n = 0 ∨ (first + n) % 512 ^ (finalAt mem down top root first n).level = 0
    · rw [if_pos ⟨hp, hnew⟩, Finset.card_insert_of_notMem]
      rw [Finset.mem_filter, hseen]
      rintro ⟨⟨hpos, hne⟩, -⟩
      exact hnew.elim (by omega) hne
    · rw [not_or] at hnew
      rw [if_neg (fun h => h.2.elim hnew.1 hnew.2), Finset.insert_eq_of_mem, Nat.add_zero]
      rw [Finset.mem_filter, hseen]
      exact ⟨⟨Nat.pos_of_ne_zero hnew.1, hnew.2⟩, hp⟩
  · rw [Finset.filter_insert, if_neg hp, if_neg (fun h => hp h.1), Nat.add_zero]

end Window

end LinuxMaxxing.Lib.PageTable
