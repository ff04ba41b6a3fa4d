import LinuxMaxxing.Lib.PageTable
import LinuxMaxxing.Memory.CacheWalk
import LinuxMaxxing.Memory.WriteSnapshot

/-!
# What the Page-Table Sample of a VMA Says

`walk_page_table` over the sampled pages of a VMA, and the summary that `write_page_table`
makes of the sample in userspace, while kernel memory does not change.

The reference is the recursive walk of `Lib.PageTable` over tables of four levels: what a page
is mapped to is told by the entry in which its walk ends. The summary has no entries any more,
only a state and a dirty bit for each page, and counts a huge leaf at the first page of the
sample, after a page of another state, and where the address is aligned to its size.

- `capturePages_leaf`: the sample has the state and the dirty bit of every final entry
- `summary_counts`: the summary counts the final entries, each once
- `capture_summary`: both, for the record of a VMA
-/

namespace LinuxMaxxing.Memory

open LinuxMaxxing.Lib
open LinuxMaxxing.Lib.PageTable (Step final finalAt finals slot slotAddress stepAt
  toNat_slotBits final_level_le finalAt_pred card_filter_finals_succ)

/-! ## The reference walk -/

/-- What `read_u64` finds in a slot of a table, whatever its level. -/
def Kernel.table (k : Kernel) (vma : Nat) (_level : Nat) (table : BitVec 64) (slot : Nat) :
    BitVec 64 :=
  readU64 k ⟨vma, 0, 0⟩ (table + BitVec.ofNat 64 (slot * 8))

/-- The level of the PGD; the PTEs have level 0. -/
def pgdLevel : Nat := 3

/-- The table that an entry leads to: it is present, and no leaf. A PGD entry is never a leaf. -/
def tableBelow (pageOffsetBase : BitVec 64) (level : Nat) (entry : BitVec 64) :
    Option (BitVec 64) :=
  if entry.getLsbD 0 ∧ ¬ (level < pgdLevel ∧ entry.getLsbD 7) then
    some (nextTable entry pageOffsetBase)
  else none

/-- What a page is mapped to, by the entry in which its walk ends. -/
def leafState (leaf : Step) : BitVec 8 :=
  if leaf.entry.getLsbD 0 then
    if leaf.level = 0 then mmPagePte
    else if leaf.level = 1 then mmPageHugePmd
    else mmPageHugePud
  else if leaf.level = 0 ∧ leaf.entry ≠ 0 then mmPageSwap
  else mmPageNone

/-- The leaf is present and dirty. -/
def leafDirty (leaf : Step) : Bool := leaf.entry.getLsbD 0 && leaf.entry.getLsbD 6

/-- The frame number that the walker makes of the leaf for an address. -/
def leafTarget (leaf : Step) (address : BitVec 64) : BitVec 64 :=
  if leaf.entry.getLsbD 0 then
    if leaf.level = 0 then (leaf.entry &&& pteAddressMask) >>> 12
    else
      ((leaf.entry &&& pteAddressMask) >>> 12) +
        ((address &&& (if leaf.level = 1 then 0x1fffff else 0x3fffffff)) >>> 12)
  else 0

/-- The walk for the `i`-th page of a range. -/
def PtWalk.leafAt (w : PtWalk) (k : Kernel) (i : Nat) : Step :=
  finalAt (k.table w.vmaIndex) (tableBelow w.pageOffsetBase) pgdLevel w.pgd
    (w.start.toNat / 4096) i

/-- The entries in which the walks for the first `n` pages end. -/
def PtWalk.leaves (w : PtWalk) (k : Kernel) (n : Nat) : Finset Step :=
  finals (k.table w.vmaIndex) (tableBelow w.pageOffsetBase) pgdLevel w.pgd
    (w.start.toNat / 4096) n

section Reference

variable {base : BitVec 64}

/-- Tables lie alike in their pages: the low bits of an entry are masked out. -/
theorem tableBelow_aligned (base : BitVec 64) (level : Nat) (entry next : BitVec 64)
    (h : tableBelow base level entry = some next) : next.toNat % 4096 = base.toNat % 4096 := by
  unfold tableBelow at h
  split at h
  · obtain rfl := Option.some.inj h
    have hmask : (entry &&& pteAddressMask).toNat % 4096 = 0 := by
      show (entry.toNat &&& 0x000ffffffffff000) % 2 ^ 12 = 0
      rw [Nat.and_mod_two_pow]
      exact Nat.and_zero _
    simp only [nextTable, BitVec.toNat_add]
    omega
  · exact absurd h (by simp)

theorem tableBelow_absent {level : Nat} {entry : BitVec 64} (h : entry.getLsbD 0 = false) :
    tableBelow base level entry = none :=
  if_neg fun hdown => absurd hdown.1 (Bool.eq_false_iff.mp h)

theorem tableBelow_large {level : Nat} {entry : BitVec 64} (hlevel : level < pgdLevel)
    (h : entry.getLsbD 7 = true) : tableBelow base level entry = none :=
  if_neg fun hdown => hdown.2 ⟨hlevel, h⟩

theorem tableBelow_table {level : Nat} {entry : BitVec 64} (h : entry.getLsbD 0 = true)
    (hlarge : level < pgdLevel → entry.getLsbD 7 = false) :
    tableBelow base level entry = some (nextTable entry base) :=
  if_pos ⟨h, fun hleaf => absurd hleaf.2 (Bool.eq_false_iff.mp (hlarge hleaf.1))⟩

/-- A present entry in which a walk ends is a leaf, so it lies below the PGD. -/
theorem present_level_lt {mem : Nat → BitVec 64 → Nat → BitVec 64} {page : Nat} {pgd : BitVec 64}
    (hpresent : (final mem (tableBelow base) page pgdLevel pgd).entry.getLsbD 0 = true) :
    (final mem (tableBelow base) page pgdLevel pgd).level < pgdLevel := by
  rw [show pgdLevel = 2 + 1 from rfl, final] at hpresent ⊢
  cases hdown : tableBelow base (2 + 1) (stepAt mem page (2 + 1) pgd).entry with
  | none =>
    rw [hdown] at hpresent
    have hpresent : (stepAt mem page 3 pgd).entry.getLsbD 0 = true := hpresent
    rw [tableBelow_table hpresent (fun h : 2 + 1 < pgdLevel => absurd h (by decide))] at hdown
    exact absurd hdown (Option.some_ne_none _)
  | some next => exact Nat.lt_succ_of_le final_level_le

end Reference

/-! ## One page -/

theorem slotAddress_shift (table address : BitVec 64) (level : Nat) :
    table + ((address >>> (12 + 9 * level)) &&& 0x1ff) * 8 =
      slotAddress table (address.toNat / 4096) level := by
  have hlt : slot (address.toNat / 4096) level < 512 := Nat.mod_lt _ (by decide)
  rw [slotAddress]
  congr 1
  apply BitVec.eq_of_toNat_eq
  rw [BitVec.toNat_mul, toNat_slotBits, BitVec.toNat_ofNat]
  rfl

theorem Kernel.Still.readSlot {k : Kernel} {vma : Nat} (hstill : k.Still vma)
    (address : BitVec 64) (round depth level : Nat) (table : BitVec 64) :
    readU64 k ⟨vma, round, depth⟩ (table + ((address >>> (12 + 9 * level)) &&& 0x1ff) * 8) =
      k.table vma level table (slot (address.toNat / 4096) level) := by
  rw [slotAddress_shift]
  unfold Kernel.table readU64 slotAddress
  rw [hstill ⟨vma, round, depth⟩ rfl]

/-- **The unrolled walk**: `walk_page_table` finds the state, the target and the dirty bit of the
    entry in which the recursive walk ends. -/
theorem pageLeaf_final {k : Kernel} {w : PtWalk} (hstill : k.Still w.vmaIndex) (index : Nat)
    (address : BitVec 64) :
    pageLeaf k w index address =
      let leaf := final (k.table w.vmaIndex) (tableBelow w.pageOffsetBase)
        (address.toNat / 4096) pgdLevel w.pgd
      (leafState leaf, leafTarget leaf address, leafDirty leaf) := by
  have h39 := hstill.readSlot address index 0 3
  have h30 := hstill.readSlot address index 1 2
  have h21 := hstill.readSlot address index 2 1
  have h12 := hstill.readSlot address index 3 0
  simp only [Nat.reduceMul, Nat.reduceAdd] at h39 h30 h21 h12
  unfold pageLeaf
  simp only [h39, h30, h21, h12]
  generalize k.table w.vmaIndex = mem
  generalize address.toNat / 4096 = page
  rw [pgdLevel, final]
  simp only [stepAt]
  generalize mem 3 w.pgd (slot page 3) = entry
  cases hpgd : entry.getLsbD 0 with
  | false =>
    rw [tableBelow_absent hpgd]
    simp [leafState, leafTarget, leafDirty, hpgd, -BitVec.getLsbD_eq_getElem]
  | true =>
    -- the PGD's entry is never a leaf
    rw [tableBelow_table hpgd (fun h : 3 < pgdLevel => absurd h (by decide))]
    simp only [final, stepAt]
    generalize mem 2 (nextTable entry w.pageOffsetBase) (slot page 2) = entry
    cases hpud : entry.getLsbD 0 with
    | false =>
      rw [tableBelow_absent hpud]
      simp [leafState, leafTarget, leafDirty, hpud, -BitVec.getLsbD_eq_getElem]
    | true =>
      cases hlarge : entry.getLsbD 7 with
      | true =>
        rw [tableBelow_large (by decide) hlarge]
        simp [leafState, leafTarget, leafDirty, hpud, -BitVec.getLsbD_eq_getElem]
      -- no 1 GiB page, so the PMD is read
      | false =>
        rw [tableBelow_table hpud (fun _ => hlarge)]
        simp only [Bool.not_true]
        generalize mem 1 (nextTable entry w.pageOffsetBase) (slot page 1) = entry
        cases hpmd : entry.getLsbD 0 with
        | false =>
          rw [tableBelow_absent hpmd]
          simp [leafState, leafTarget, leafDirty, hpmd, -BitVec.getLsbD_eq_getElem]
        | true =>
          cases hlarge : entry.getLsbD 7 with
          | true =>
            rw [tableBelow_large (by decide) hlarge]
            simp [leafState, leafTarget, leafDirty, hpmd, -BitVec.getLsbD_eq_getElem]
          -- no 2 MiB page, so the PTE is read
          | false =>
            rw [tableBelow_table hpmd (fun _ => hlarge)]
            simp only
            generalize mem 0 (nextTable entry w.pageOffsetBase) (slot page 0) = entry
            cases hpte : entry.getLsbD 0 with
            | false =>
              -- an absent PTE with anything in it is swapped out
              by_cases hzero : entry = 0#64 <;> simp
                [leafState, leafTarget, leafDirty, hpte, hzero, -BitVec.getLsbD_eq_getElem]
            | true =>
              simp [leafState, leafTarget, leafDirty, hpte, -BitVec.getLsbD_eq_getElem]

/-! ## The sample -/

section Sample

variable {k : Kernel} {w : PtWalk}

/-- What the sample says after `n` pages. -/
structure PageTable.Samples (pt : PageTable) (k : Kernel) (w : PtWalk) (n : Nat) : Prop where
  scannedPages : pt.scannedPages = w.pages
  states : ∀ i < n, pt.states i = leafState (w.leafAt k i)
  dirty : ∀ i, (pt.dirty (i / 64)).getLsbD (i % 64) = (decide (i < n) && leafDirty (w.leafAt k i))

theorem setPage_states {pt : PageTable} {i : Nat} (hi : i < pt.scannedPages.toNat)
    (hmax : pt.scannedPages.toNat ≤ maxPagesPerVma) (state : BitVec 8) (target : BitVec 64)
    (dirty : Bool) :
    (setPage pt i state target dirty).states = Function.update pt.states i state := by
  have hmod : i % maxPagesPerVma = i := Nat.mod_eq_of_lt (by omega)
  unfold setPage
  simp only [hmod, not_le.mpr hi, if_false]

/-- A page sets its own bit and no other. -/
theorem setPage_dirty {pt : PageTable} {i : Nat} (hi : i < pt.scannedPages.toNat)
    (hmax : pt.scannedPages.toNat ≤ maxPagesPerVma) (state : BitVec 8) (target : BitVec 64)
    (dirty : Bool) (j : Nat) :
    ((setPage pt i state target dirty).dirty (j / 64)).getLsbD (j % 64) =
      ((pt.dirty (j / 64)).getLsbD (j % 64) || (dirty && decide (j = i))) := by
  have hmod : i % maxPagesPerVma = i := Nat.mod_eq_of_lt (by omega)
  unfold setPage
  simp only [hmod, not_le.mpr hi, if_false]
  cases dirty with
  | false => simp
  | true =>
    rw [if_pos rfl, Bool.true_and]
    by_cases hword : j / 64 = i / 64
    · have hone : (1 : BitVec 64).getLsbD (j % 64 - i % 64) = decide (j % 64 - i % 64 = 0) := by
        simp [BitVec.getLsbD_one]
      rw [hword, Function.update_self, BitVec.getLsbD_or, BitVec.getLsbD_shiftLeft, hone]
      congr 1
      rw [Bool.eq_iff_iff]
      simp only [Bool.and_eq_true, Bool.not_eq_true', decide_eq_true_iff, decide_eq_false_iff_not]
      omega
    · have hne : j ≠ i := fun heq => hword (heq ▸ rfl)
      rw [Function.update_of_ne hword, decide_eq_false hne, Bool.or_false]

/-- One more page. -/
theorem PageTable.Samples.setPage {pt : PageTable} {n : Nat} (h : pt.Samples k w n)
    (hn : n < w.pages.toNat) (hmax : w.pages.toNat ≤ maxPagesPerVma) (target : BitVec 64) :
    (setPage pt n (leafState (w.leafAt k n)) target (leafDirty (w.leafAt k n))).Samples k w
      (n + 1) := by
  have hn' : n < pt.scannedPages.toNat := h.scannedPages ▸ hn
  have hmax' : pt.scannedPages.toNat ≤ maxPagesPerVma := h.scannedPages ▸ hmax
  refine ⟨?_, ?_, ?_⟩
  · unfold Memory.setPage
    simp only
    split
    · exact h.scannedPages
    · exact h.scannedPages
  · intro i hi
    rw [setPage_states hn' hmax']
    rcases Nat.lt_succ_iff_lt_or_eq.mp hi with hlt | rfl
    · rw [Function.update_of_ne (Nat.ne_of_lt hlt), h.states i hlt]
    · rw [Function.update_self]
  · intro i
    rw [setPage_dirty hn' hmax', h.dirty]
    by_cases heq : i = n
    · simp [heq]
    · have hlt : i < n + 1 ↔ i < n := by omega
      simp [heq, hlt]

/-- **The sample**: after the walk every sampled page has the state and the dirty bit of the
    entry in which the recursive walk for it ends. -/
theorem capturePages_leaf (c : Call) {index : Nat} (hindex : index < maxVmas)
    (hstill : c.kernel.Still index) {r : VmaRecord} (hle : r.start ≤ r.stop) :
    (capturePages c index r).pt.Samples c.kernel (ptWalk c index r.start r.stop)
      (ptWalk c index r.start r.stop).pages.toNat := by
  have hmax : (ptWalk c index r.start r.stop).pages.toNat ≤ maxPagesPerVma :=
    sampledPages_le r.start r.stop
  refine bpfLoop_ensures (fun n (pt : PageTable) =>
    pt.Samples c.kernel (ptWalk c index r.start r.stop) n)
    _ ⟨rfl, fun i hi => absurd hi (Nat.not_lt_zero i), fun i => by simp⟩ ?_ (fun _ h => h)
  intro i hi pt h
  right
  rw [walkPageTable_sampled c hindex hle hi]
  have hleaf := pageLeaf_final (w := ptWalk c index r.start r.stop) hstill i
    (r.start + BitVec.ofNat 64 i * pageSize)
  have hpage : (r.start.toNat + i * 4096) / 4096 = r.start.toNat / 4096 + i :=
    Nat.add_mul_div_right _ _ (by decide)
  rw [page_address_toNat hle hi, hpage] at hleaf
  refine ⟨rfl, ?_⟩
  show (setPage pt i _ _ _).Samples _ _ _
  rw [hleaf]
  exact h.setPage hi hmax _

end Sample

/-! ## The summary -/

/-- The counts of `write_page_table` behind its loop. -/
def PageTable.summary (pt : PageTable) (start : BitVec 64) : PageSummary :=
  pt.pages.foldl (summarise start pt) ⟨0, 0, 0, 0, 0, 0, 0, 0, 255⟩

section Summary

variable {k : Kernel} {w : PtWalk} {pt : PageTable} {n m : Nat}

theorem PageTable.pages_eq (hmax : pt.scannedPages.toNat ≤ maxPagesPerVma) :
    pt.pages = List.range pt.scannedPages.toNat := by
  obtain ⟨rest, hrest⟩ := Nat.exists_eq_add_of_le hmax
  unfold PageTable.pages
  rw [hrest, List.range_add, List.filter_append, List.filter_eq_self.mpr, List.filter_eq_nil_iff.mpr,
    List.append_nil]
  · intro page hpage
    obtain ⟨i, -, rfl⟩ := List.mem_map.mp hpage
    simp
  · intro page hpage
    simpa using hpage

theorem PageTable.dirtyBit_eq (i : Nat) :
    (pt.dirtyBit i).setWidth 32 =
      if (pt.dirty (i / 64)).getLsbD (i % 64) then (1 : BitVec 32) else 0 := by
  have hbit : pt.dirtyBit i =
      (BitVec.ofBool ((pt.dirty (i / 64)).getLsbD (i % 64))).setWidth 64 := by
    unfold PageTable.dirtyBit
    show _ &&& 1#64 = _
    rw [BitVec.and_one_eq_setWidth_ofBool_getLsbD, BitVec.getLsbD_ushiftRight, Nat.add_zero]
  rw [hbit]
  cases (pt.dirty (i / 64)).getLsbD (i % 64) <;> rfl

/-- The five kinds of entries in which a walk ends. -/
theorem leafAt_cases (k : Kernel) (w : PtWalk) (n : Nat) :
    let leaf := w.leafAt k n
    (leaf.entry.getLsbD 0 = true ∧ leaf.level = 0 ∧ leafState leaf = mmPagePte) ∨
    (leaf.entry.getLsbD 0 = true ∧ leaf.level = 1 ∧ leafState leaf = mmPageHugePmd) ∨
    (leaf.entry.getLsbD 0 = true ∧ leaf.level = 2 ∧ leafState leaf = mmPageHugePud) ∨
    (leaf.entry.getLsbD 0 = false ∧ leafState leaf = mmPageSwap) ∨
    (leaf.entry.getLsbD 0 = false ∧ leafState leaf = mmPageNone) := by
  intro leaf
  cases hpresent : leaf.entry.getLsbD 0 with
  | false =>
    unfold leafState
    rw [hpresent]
    by_cases hswap : leaf.level = 0 ∧ leaf.entry ≠ 0
    · exact .inr (.inr (.inr (.inl ⟨rfl, if_pos hswap⟩)))
    · exact .inr (.inr (.inr (.inr ⟨rfl, if_neg hswap⟩)))
  | true =>
    have hlevel : leaf.level < 3 := present_level_lt hpresent
    unfold leafState
    rw [hpresent]
    interval_cases leaf.level <;> simp

/-- The first page of the sample or of an entry. -/
def PtWalk.FirstOf (w : PtWalk) (k : Kernel) (n : Nat) : Prop :=
  n = 0 ∨ (w.start.toNat / 4096 + n) % 512 ^ (w.leafAt k n).level = 0

instance : Decidable (w.FirstOf k n) := inferInstanceAs (Decidable (_ ∨ _))

/-- **The first slot of a huge leaf**: what the summary sees of it says when it is new. -/
theorem firstHugeSlot_iff {previous : BitVec 8} {address : BitVec 64} (mask : BitVec 64)
    (hprevious : 0 < n → previous = leafState (w.leafAt k (n - 1)))
    (haddress : address.toNat = (w.start.toNat / 4096 + n) * 4096)
    (hmask : mask.toNat = 512 ^ (w.leafAt k n).level * 4096 - 1) :
    (previous ≠ leafState (w.leafAt k n) ∨ n = 0 ∨ address &&& mask = 0) ↔ w.FirstOf k n := by
  have haligned : address &&& mask = 0 ↔
      (w.start.toNat / 4096 + n) % 512 ^ (w.leafAt k n).level = 0 := by
    generalize (w.leafAt k n).level = level at hmask ⊢
    have hpow : 512 ^ level * 4096 = 2 ^ (9 * level + 12) := by
      rw [Nat.pow_add, Nat.pow_mul]
    rw [hpow] at hmask
    rw [← BitVec.toNat_inj, BitVec.toNat_and, hmask, Nat.and_two_pow_sub_one_eq_mod, haddress,
      ← hpow, Nat.mul_mod_mul_right]
    show _ * 4096 = 0 ↔ _
    omega
  rw [haligned]
  unfold PtWalk.FirstOf
  constructor
  · rintro (hnew | hfirst)
    · -- a page inside its entry has the state of the page before
      by_contra hinside
      rw [not_or] at hinside
      have hpos : 0 < n := Nat.pos_of_ne_zero hinside.1
      have hsame : w.leafAt k (n - 1) = w.leafAt k n := finalAt_pred hpos hinside.2
      rw [hprevious hpos, hsame] at hnew
      exact hnew rfl
    · exact hfirst
  · exact Or.inr

/-- **One round**: every count goes up by what the walk of the page says. -/
theorem summarise_eq {start : BitVec 64} {s : PageSummary} (hpt : pt.Samples k w m)
    (hn : n < m) (hprevious : 0 < n → s.previous = leafState (w.leafAt k (n - 1)))
    (haddress : (start + BitVec.ofNat 64 n * 4096).toNat = (w.start.toNat / 4096 + n) * 4096) :
    summarise start pt s n =
      let leaf := w.leafAt k n
      { presentPages := s.presentPages + if leaf.entry.getLsbD 0 then 1 else 0
        nonePages := s.nonePages + if leafState leaf = mmPageNone then 1 else 0
        swapPages := s.swapPages + if leafState leaf = mmPageSwap then 1 else 0
        hugePmdPages := s.hugePmdPages + if leafState leaf = mmPageHugePmd then 1 else 0
        hugePmdEntries := s.hugePmdEntries +
          if leafState leaf = mmPageHugePmd ∧ w.FirstOf k n then 1 else 0
        hugePudPages := s.hugePudPages + if leafState leaf = mmPageHugePud then 1 else 0
        hugePudEntries := s.hugePudEntries +
          if leafState leaf = mmPageHugePud ∧ w.FirstOf k n then 1 else 0
        dirtyEntries := s.dirtyEntries +
          if leafDirty leaf = true ∧ w.FirstOf k n then 1 else 0
        previous := leafState leaf } := by
  have hdirty : (pt.dirtyBit n).setWidth 32 =
      if leafDirty (w.leafAt k n) then (1 : BitVec 32) else 0 := by
    rw [PageTable.dirtyBit_eq, hpt.dirty, decide_eq_true hn, Bool.true_and]
  unfold summarise
  rw [hpt.states n hn, hdirty]
  rcases leafAt_cases k w n with ⟨hpresent, hlevel, hstate⟩ | ⟨hpresent, hlevel, hstate⟩ |
    ⟨hpresent, hlevel, hstate⟩ | ⟨habsent, hstate⟩ | ⟨habsent, hstate⟩
  · have hfirst : w.FirstOf k n := .inr (by rw [hlevel]; exact Nat.mod_one _)
    simp only [hstate, hpresent, hfirst]
    simp [mmPagePte, mmPageNone, mmPageSwap, mmPageHugePmd, mmPageHugePud]
  · have hfirst := firstHugeSlot_iff 0x1fffff hprevious haddress (by rw [hlevel]; rfl)
    rw [hstate] at hfirst
    simp only [hstate, hpresent, hfirst]
    by_cases hnew : w.FirstOf k n <;>
      simp [hnew, mmPagePte, mmPageNone, mmPageSwap, mmPageHugePmd, mmPageHugePud]
  · have hfirst := firstHugeSlot_iff 0x3fffffff hprevious haddress (by rw [hlevel]; rfl)
    rw [hstate] at hfirst
    simp only [hstate, hpresent, hfirst]
    by_cases hnew : w.FirstOf k n <;>
      simp [hnew, mmPagePte, mmPageNone, mmPageSwap, mmPageHugePmd, mmPageHugePud]
  · have hclean : leafDirty (w.leafAt k n) = false := by rw [leafDirty, habsent, Bool.false_and]
    simp only [hstate, habsent, hclean]
    simp [mmPagePte, mmPageNone, mmPageSwap, mmPageHugePmd, mmPageHugePud]
  · have hclean : leafDirty (w.leafAt k n) = false := by rw [leafDirty, habsent, Bool.false_and]
    simp only [hstate, habsent, hclean]
    simp [mmPagePte, mmPageNone, mmPageSwap, mmPageHugePmd, mmPageHugePud]

/-- What the summary says after `n` pages. -/
structure PageSummary.Counts (s : PageSummary) (k : Kernel) (w : PtWalk) (n : Nat) : Prop where
  presentPages : s.presentPages =
    BitVec.ofNat 32 (Nat.count (fun i => (w.leafAt k i).entry.getLsbD 0) n)
  nonePages : s.nonePages =
    BitVec.ofNat 32 (Nat.count (fun i => leafState (w.leafAt k i) = mmPageNone) n)
  swapPages : s.swapPages =
    BitVec.ofNat 32 (Nat.count (fun i => leafState (w.leafAt k i) = mmPageSwap) n)
  hugePmdEntries : s.hugePmdEntries =
    BitVec.ofNat 32 ((w.leaves k n).filter (leafState · = mmPageHugePmd)).card
  hugePudEntries : s.hugePudEntries =
    BitVec.ofNat 32 ((w.leaves k n).filter (leafState · = mmPageHugePud)).card
  dirtyEntries : s.dirtyEntries =
    BitVec.ofNat 32 ((w.leaves k n).filter (leafDirty · = true)).card
  previous : 0 < n → s.previous = leafState (w.leafAt k (n - 1))

theorem ofNat_count_succ (p : Nat → Prop) [DecidablePred p] (n : Nat) :
    BitVec.ofNat 32 (Nat.count p (n + 1)) =
      BitVec.ofNat 32 (Nat.count p n) + if p n then 1 else 0 := by
  rw [Nat.count_succ, BitVec.ofNat_add]
  split <;> rfl

theorem ofNat_leaves_succ (hn : n < maxPagesPerVma) (p : Step → Prop) [DecidablePred p]
    (hleaf : ∀ i, p (w.leafAt k i) → (w.leafAt k i).entry.getLsbD 0 = true) :
    BitVec.ofNat 32 ((w.leaves k (n + 1)).filter p).card =
      BitVec.ofNat 32 ((w.leaves k n).filter p).card +
        if p (w.leafAt k n) ∧ w.FirstOf k n then 1 else 0 := by
  have hcard := card_filter_finals_succ (tableBelow_aligned w.pageOffsetBase) hn p
    (fun hp => present_level_lt (hleaf n hp))
  unfold PtWalk.leaves
  rw [hcard, BitVec.ofNat_add]
  congr 1
  split_ifs <;> first | rfl | contradiction

theorem PageSummary.Counts.step {start : BitVec 64} {s : PageSummary} (h : s.Counts k w n)
    (hpt : pt.Samples k w m) (hn : n < m) (hmax : m ≤ maxPagesPerVma)
    (haddress : (start + BitVec.ofNat 64 n * 4096).toNat =
      (w.start.toNat / 4096 + n) * 4096) :
    (summarise start pt s n).Counts k w (n + 1) := by
  have hhuge : ∀ state, state = mmPageHugePmd ∨ state = mmPageHugePud → ∀ i,
      leafState (w.leafAt k i) = state → (w.leafAt k i).entry.getLsbD 0 = true := by
    rintro state hstate i rfl
    rcases leafAt_cases k w i with h | h | h | h | h
    · exact h.1
    · exact h.1
    · exact h.1
    · exact absurd hstate (by rw [h.2]; decide)
    · exact absurd hstate (by rw [h.2]; decide)
  have hdirty : ∀ i, leafDirty (w.leafAt k i) = true →
      (w.leafAt k i).entry.getLsbD 0 = true := fun i hi => (Bool.and_eq_true _ _ ▸ hi).1
  have hlt : n < maxPagesPerVma := Nat.lt_of_lt_of_le hn hmax
  rw [summarise_eq hpt hn h.previous haddress]
  refine ⟨?_, ?_, ?_, ?_, ?_, ?_, fun _ => rfl⟩
  · rw [ofNat_count_succ, h.presentPages]
  · rw [ofNat_count_succ, h.nonePages]
  · rw [ofNat_count_succ, h.swapPages]
  · rw [ofNat_leaves_succ hlt _ (hhuge _ (.inl rfl)), h.hugePmdEntries]
  · rw [ofNat_leaves_succ hlt _ (hhuge _ (.inr rfl)), h.hugePudEntries]
  · rw [ofNat_leaves_succ hlt _ hdirty, h.dirtyEntries]

/-- **The loop**: the summary counts the final entries of the sampled pages, each once. -/
theorem summary_counts {start : BitVec 64} (hpt : pt.Samples k w w.pages.toNat)
    (hmax : w.pages.toNat ≤ maxPagesPerVma)
    (haddress : ∀ i < w.pages.toNat, (start + BitVec.ofNat 64 i * 4096).toNat =
      (w.start.toNat / 4096 + i) * 4096) :
    (pt.summary start).Counts k w w.pages.toNat := by
  have hrounds : ∀ i ≤ w.pages.toNat,
      ((List.range i).foldl (summarise start pt) ⟨0, 0, 0, 0, 0, 0, 0, 0, 255⟩).Counts k w i := by
    intro i
    induction i with
    | zero =>
      intro _
      exact ⟨rfl, rfl, rfl, rfl, rfl, rfl, fun h => absurd h (lt_irrefl 0)⟩
    | succ i ih =>
      intro hi
      rw [List.range_succ, List.foldl_append]
      exact (ih (by omega)).step hpt hi hmax (haddress i hi)
  unfold PageTable.summary
  rw [PageTable.pages_eq (hpt.scannedPages ▸ hmax), hpt.scannedPages]
  exact hrounds _ le_rfl

/-- Every page is present, swapped out or empty. -/
theorem count_states (n : Nat) :
    Nat.count (fun i => (w.leafAt k i).entry.getLsbD 0) n +
      Nat.count (fun i => leafState (w.leafAt k i) = mmPageNone) n +
      Nat.count (fun i => leafState (w.leafAt k i) = mmPageSwap) n = n := by
  induction n with
  | zero => rfl
  | succ n ih =>
    have hone : (if (w.leafAt k n).entry.getLsbD 0 then 1 else 0) +
        (if leafState (w.leafAt k n) = mmPageNone then 1 else 0) +
        (if leafState (w.leafAt k n) = mmPageSwap then 1 else 0) = 1 := by
      rcases leafAt_cases k w n with h | h | h | h | h
      · rw [h.1, h.2.2]; rfl
      · rw [h.1, h.2.2]; rfl
      · rw [h.1, h.2.2]; rfl
      · rw [h.1, h.2]; rfl
      · rw [h.1, h.2]; rfl
    rw [Nat.count_succ, Nat.count_succ, Nat.count_succ]
    omega

theorem PtWalk.card_leaves_le (p : Step → Prop) [DecidablePred p] (hmax : n ≤ maxPagesPerVma) :
    ((w.leaves k n).filter p).card < 2 ^ 32 := by
  have hfilter := Finset.card_filter_le (w.leaves k n) p
  have hleaves : (w.leaves k n).card ≤ n := by
    refine (List.toFinset_card_le _).trans ?_
    rw [List.length_map, List.length_range]
  have h512 : maxPagesPerVma = 512 := rfl
  omega

end Summary

/-! ## The record of a VMA -/

theorem captureRecord_capturePages (c : Call) (index : Nat) (seen : BitVec 64 → Bool) (v : Vma)
    (r : VmaRecord) : ∃ r' : VmaRecord, r'.start = v.start ∧ r'.stop = v.stop ∧ r'.pt = r.pt ∧
      captureRecord c index seen v r = capturePages c index r' := by
  obtain ⟨hstart, hstop, hpt⟩ := captureFile_range c index seen
    (c.kernel.read ⟨index, 0, 0⟩ .vmFile v.address) { r with
      start := v.start
      stop := v.stop
      flags := c.kernel.read ⟨index, 0, 0⟩ .vmFlags v.address
      pgoff := c.kernel.read ⟨index, 0, 0⟩ .vmPgoff v.address }
  exact ⟨captureAnonVma c index v _, hstart, hstop, hpt, rfl⟩

/-- **The walk and its summary**: for every VMA that starts at a page, whatever the tables hold
    while the record is filled. The state of a page is the one its recursive walk finds, every
    page is present, swapped out or empty, and the summary counts the huge leaves and the dirty
    leaves that the sampled pages overlap, each once. -/
theorem capture_summary (c : Call) {index : Nat} (hindex : index < maxVmas)
    (hstill : c.kernel.Still index) (seen : BitVec 64 → Bool) (v : Vma) (r : VmaRecord)
    (haligned : v.start.toNat % 4096 = 0) :
    let record := captureRecord c index seen v r
    let summary := record.pt.summary record.start
    let walk := ptWalk c index v.start v.stop
    let scanned := record.pt.scannedPages.toNat
    record.pt.scannedPages = sampledPages v.start v.stop ∧
      (∀ i < scanned, record.pt.states i = leafState (walk.leafAt c.kernel i)) ∧
      summary.presentPages.toNat + summary.nonePages.toNat + summary.swapPages.toNat = scanned ∧
      summary.hugePmdEntries.toNat =
        ((walk.leaves c.kernel scanned).filter (leafState · = mmPageHugePmd)).card ∧
      summary.hugePudEntries.toNat =
        ((walk.leaves c.kernel scanned).filter (leafState · = mmPageHugePud)).card ∧
      summary.dirtyEntries.toNat =
        ((walk.leaves c.kernel scanned).filter (leafDirty · = true)).card := by
  obtain ⟨r', hstart, hstop, -, hrecord⟩ := captureRecord_capturePages c index seen v r
  intro record summary walk scanned
  have hle : r'.start ≤ r'.stop := by
    rw [hstart, hstop]
    exact v.start_le
  have hpt : record.pt.Samples c.kernel walk walk.pages.toNat := by
    have hsamples := capturePages_leaf c hindex hstill hle
    rw [hstart, hstop, ← hrecord] at hsamples
    exact hsamples
  have hscanned : scanned = walk.pages.toNat := congrArg BitVec.toNat hpt.scannedPages
  have hmax : walk.pages.toNat ≤ maxPagesPerVma := sampledPages_le v.start v.stop
  have hrecordStart : record.start = v.start := by
    show (captureRecord c index seen v r).start = v.start
    rw [hrecord]
    exact hstart
  have hcounts : summary.Counts c.kernel walk walk.pages.toNat := by
    refine summary_counts hpt hmax fun i hi => ?_
    rw [hrecordStart]
    have haddress := page_address_toNat v.start_le hi
    show _ = (v.start.toNat / 4096 + i) * 4096
    exact haddress.trans (by omega)
  have hsum := count_states (k := c.kernel) (w := walk) walk.pages.toNat
  rw [hscanned]
  refine ⟨hpt.scannedPages, hpt.states, ?_, ?_, ?_, ?_⟩
  · rw [hcounts.presentPages, hcounts.nonePages, hcounts.swapPages, BitVec.toNat_ofNat,
      BitVec.toNat_ofNat, BitVec.toNat_ofNat]
    have h512 : maxPagesPerVma = 512 := rfl
    omega
  · rw [hcounts.hugePmdEntries, BitVec.toNat_ofNat]
    exact Nat.mod_eq_of_lt (PtWalk.card_leaves_le _ hmax)
  · rw [hcounts.hugePudEntries, BitVec.toNat_ofNat]
    exact Nat.mod_eq_of_lt (PtWalk.card_leaves_le _ hmax)
  · rw [hcounts.dirtyEntries, BitVec.toNat_ofNat]
    exact Nat.mod_eq_of_lt (PtWalk.card_leaves_le _ hmax)

/-- Tables with a dirty huge leaf for the first 2 MiB, then a dirty page and one in swap. -/
def someTables : Kernel where
  read _ member address :=
    match member, address.toNat with
    | .pgd, _ => 0x1000
    | .word, 0x1000 => 0x2001
    | .word, 0x2000 => 0x3001
    | .word, 0x3000 => 0xc1
    | .word, 0x3008 => 0x4001
    | .word, 0x4000 => 0x5041
    | .word, 0x4008 => 0x6
    | _, _ => 0
  string _ _ := none

def someCall : Call where
  kernel := someTables
  pageFlags := someFlags
  pageOffsetBase := 0
  comm _ := 0
  pidTgid := 0
  cpu := 0
  timeNs := 0
  phaseSeq := none
  mm := 0
  vmas := []
  delivered := true

def someVma : Vma where
  address := 0
  start := 0x1fe000
  stop := 0x202000
  start_le := by decide

def clearedRecord : VmaRecord where
  start := 0
  stop := 0
  flags := 0
  pgoff := 0
  structFile := 0
  anonVma := 0
  anonVmaRoot := 0
  anonVmaParent := 0
  inode := 0
  device := 0
  fileName _ := 0
  mapping := 0
  cachePages := 0
  cache := .zero
  pt := ⟨0, fun _ => 0, fun _ => 0, fun _ => 0⟩

/-- Two pages of the huge leaf and the two behind it: one huge entry, two dirty ones. -/
theorem capture_summary_fourPages :
    let record := captureRecord someCall 0 (fun _ => false) someVma clearedRecord
    record.pt.states 0 = mmPageHugePmd ∧ record.pt.states 3 = mmPageSwap ∧
      (record.pt.summary record.start).hugePmdEntries.toNat = 1 ∧
      (record.pt.summary record.start).dirtyEntries.toNat = 2 := by
  have hstill : someCall.kernel.Still 0 := fun _ _ _ _ => rfl
  obtain ⟨hscanned, hstates, -, hpmd, -, hdirty⟩ := capture_summary someCall (by decide) hstill
    (fun _ => false) someVma clearedRecord (by decide)
  have hfour : sampledPages someVma.start someVma.stop = 4 := by decide
  rw [hscanned, hfour] at hstates hpmd hdirty
  refine ⟨(hstates 0 (by decide)).trans ?_, (hstates 3 (by decide)).trans ?_, hpmd.trans ?_,
    hdirty.trans ?_⟩
  · decide
  · decide
  · decide
  · decide

end LinuxMaxxing.Memory
