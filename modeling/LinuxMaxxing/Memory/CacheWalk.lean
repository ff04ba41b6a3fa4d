import LinuxMaxxing.Lib.RadixTree
import LinuxMaxxing.Memory.PhaseBoundary

/-!
# Which Folios the Cache Walk Counts

`walk_xarray` over the slots 0 to 4095 of the page cache of a mapping, while kernel memory
does not change. The page cache is a radix tree with 64 slots a node; a folio of order `o`
sits at level `o / 6`, in the first of its slots.

A head entry, a tree of one level and a tree of two levels have code of their own, which
counts a folio at its first index only. Deeper trees go through the bounded point lookup:
it counts a folio at every index of its first slot, and enters four nodes at most.

- `xaCounted_shallow`, `xaCounted_deep`: at which indices a folio is counted
- `walk_eq_foldl`: the loop counts these folios, one after the other
- `walk_counts_each_once`: what the counters say about the folios below index 4096
-/

namespace LinuxMaxxing.Memory

open LinuxMaxxing.Lib LinuxMaxxing.Lib.Radix

/-! ## The page cache in memory -/

/-- `XA_CHUNK_SIZE` -/
def xaChunkSize : Nat := 64

/-- `address_space->i_pages`: the head is an entry of its own, or the node at the root. The
    folios are told by their addresses, and none is in the array twice. -/
inductive XArray where
  | direct (head : Slot (BitVec 64) 0)
  /-- an index has 64 bits, so the shift of the root is 60 at most -/
  | tree (level : Nat) (slots : Nat → Slot (BitVec 64) level) (bits : level ≤ 10)

/-- How many levels of nodes there are. -/
def XArray.levels : XArray → Nat
  | .direct _ => 0
  | .tree level _ _ => level + 1

/-- The head as the slot that covers all indices. -/
def XArray.head : (x : XArray) → Slot (BitVec 64) x.levels
  | .direct head => head
  | .tree _ slots _ => .node slots

/-- The folios, in index order. -/
def XArray.folios (x : XArray) : List (Radix.Entry (BitVec 64)) := x.head.entries xaChunkSize 0

/-- The folios whose first index is one that the walk asks for. -/
def XArray.foliosBelow (x : XArray) : List (Radix.Entry (BitVec 64)) :=
  x.folios.filter (·.first < maxXarrayScanSlots)

/-- No folio is in the array twice. -/
def XArray.Distinct (x : XArray) : Prop := (x.folios.map (·.item)).Nodup

/-- Kernel memory does not change while the record is filled. -/
def Kernel.Still (k : Kernel) (vma : Nat) : Prop :=
  ∀ m : Moment, m.vma = vma → ∀ f a, k.read m f a = k.read ⟨vma, 0, 0⟩ f a

/-- The word in memory stands for the slot: 0, a tagged value, the address of a folio, the
    number of the canonical slot, or the address of a node. -/
def Encodes (k : Kernel) (vma : Nat) : {l : Nat} → Slot (BitVec 64) l → BitVec 64 → Prop
  | _, .empty, word => word = 0
  | _, .value, word => word &&& 1 = 1
  | _, .entry folio, word => word = folio ∧ folio ≠ 0 ∧ folio &&& 3 = 0
  | _, .sibling canonical, word => canonical < 63 ∧ word = BitVec.ofNat 64 (4 * canonical + 2)
  | _, .node (l := l) slots, word =>
    xaIsNodeEntry word = true ∧
      (k.read ⟨vma, 0, 0⟩ .xaShift (xaToNodeAddress word)).toNat % 256 = 6 * l ∧
      ∀ i < xaChunkSize, Encodes k vma (slots i)
        (k.read ⟨vma, 0, 0⟩ (.xaSlot i) (xaToNodeAddress word))

/-- The mapping holds the array, and memory does not change. -/
structure Kernel.Caches (k : Kernel) (vma : Nat) (mapping : BitVec 64) (x : XArray) : Prop where
  still : k.Still vma
  head : Encodes k vma x.head (k.read ⟨vma, 0, 0⟩ .xaHead mapping)
  distinct : x.Distinct

/-! ## What one call of `walk_xarray` counts -/

/-- The entry as a folio: no empty slot, no value, no internal entry. -/
def folioOf (entry : BitVec 64) : Option (BitVec 64) :=
  if entry = 0 ∨ entry &&& 1 = 1 ∨ xaIsInternalEntry entry ∨ xaIsSiblingEntry entry then none
  else some entry

/-- The folio that the walk counts at a slot. -/
def xaCounted (k : Kernel) (vma slot : Nat) (mapping : BitVec 64) : Option (BitVec 64) :=
  (xaEntry k vma slot mapping).bind folioOf

/-- The folios that the walk counts, slot after slot. -/
def countedFolios (k : Kernel) (vma : Nat) (mapping : BitVec 64) : List (BitVec 64) :=
  (List.range maxXarrayScanSlots).filterMap fun slot => xaCounted k vma slot mapping

theorem walkXarray_eq (pg : PageFlags) (k : Kernel) {vma slot : Nat} {mapping : BitVec 64}
    (c : CacheCounters) (hslot : slot < maxXarrayScanSlots) (hvma : vma < maxVmas)
    (hmapping : mapping ≠ 0) :
    walkXarray pg k vma mapping slot c =
      (match xaCounted k vma slot mapping with
        | none => c
        | some folio => countCacheFolio pg k ⟨vma, slot, 0⟩ folio c, false) := by
  have hgo : ¬ (maxXarrayScanSlots ≤ slot ∨ maxVmas ≤ vma ∨ mapping = 0) := by
    simp only [not_or, Nat.not_le]
    exact ⟨hslot, hvma, hmapping⟩
  unfold walkXarray xaCounted
  rw [if_neg hgo]
  cases xaEntry k vma slot mapping with
  | none => rfl
  | some entry =>
    simp only [Option.bind_some, folioOf]
    split <;> rfl

/-! ## Words in memory -/

theorem and_one_eq_one_iff (word : BitVec 64) : word &&& 1 = 1 ↔ word.toNat % 2 = 1 := by
  have h : (word &&& 1).toNat = word.toNat % 2 := Nat.and_two_pow_sub_one_eq_mod _ 1
  rw [← BitVec.toNat_inj, h]
  rfl

theorem toNat_and_three (word : BitVec 64) : (word &&& 3).toNat = word.toNat % 4 :=
  Nat.and_two_pow_sub_one_eq_mod _ 2

theorem xaIsInternalEntry_iff (word : BitVec 64) :
    xaIsInternalEntry word = true ↔ word.toNat % 4 = 2 := by
  unfold xaIsInternalEntry
  rw [decide_eq_true_iff, ← BitVec.toNat_inj, toNat_and_three]
  rfl

theorem xaIsNodeEntry_iff (word : BitVec 64) :
    xaIsNodeEntry word = true ↔ word.toNat % 4 = 2 ∧ 4096 < word.toNat := by
  unfold xaIsNodeEntry
  rw [Bool.and_eq_true, xaIsInternalEntry_iff, decide_eq_true_iff, BitVec.lt_def]
  rfl

theorem xaIsSiblingEntry_iff (word : BitVec 64) :
    xaIsSiblingEntry word = true ↔ word.toNat % 4 = 2 ∧ word.toNat < 254 := by
  unfold xaIsSiblingEntry
  rw [Bool.and_eq_true, xaIsInternalEntry_iff, decide_eq_true_iff, BitVec.lt_def]
  rfl

/-- The first test of the walk: an empty slot or a tagged value. -/
theorem not_entry_iff (word : BitVec 64) :
    word = 0 ∨ word &&& 1 = 1 ↔ word.toNat = 0 ∨ word.toNat % 2 = 1 := by
  rw [and_one_eq_one_iff, ← BitVec.toNat_inj]
  rfl

theorem folioOf_eq_none_iff (word : BitVec 64) :
    folioOf word = none ↔ word.toNat % 4 ≠ 0 ∨ word.toNat = 0 := by
  unfold folioOf
  rw [ite_eq_left_iff]
  simp only [reduceCtorEq, imp_false, not_not, ← or_assoc, not_entry_iff]
  simp only [xaIsInternalEntry_iff, xaIsSiblingEntry_iff]
  omega

theorem folioOf_of_aligned {word : BitVec 64} (h : word.toNat % 4 = 0) (hne : word.toNat ≠ 0) :
    folioOf word = some word := by
  cases hfolio : folioOf word with
  | none =>
    rw [folioOf_eq_none_iff] at hfolio
    omega
  | some folio =>
    unfold folioOf at hfolio
    split at hfolio
    · cases hfolio
    · exact hfolio.symm

section Encodes

variable {k : Kernel} {vma l : Nat} {word : BitVec 64}

theorem Encodes.entry {folio : BitVec 64}
    (h : Encodes k vma (.entry (l := l) folio) word) :
    word = folio ∧ word.toNat % 4 = 0 ∧ word.toNat ≠ 0 := by
  obtain ⟨rfl, hne, halign⟩ := h
  refine ⟨rfl, ?_, ?_⟩
  · rw [← toNat_and_three, halign]
    rfl
  · intro hzero
    exact hne (BitVec.eq_of_toNat_eq hzero)

theorem Encodes.sibling {canonical : Nat}
    (h : Encodes k vma (.sibling (l := l) canonical) word) :
    word.toNat % 4 = 2 ∧ word.toNat < 254 := by
  obtain ⟨hlt, rfl⟩ := h
  rw [BitVec.toNat_ofNat]
  omega

/-- What the walk makes of the word of a slot that is no node. -/
theorem Encodes.folioOf {s : Slot (BitVec 64) l} (h : Encodes k vma s word)
    (hnode : xaIsNodeEntry word = false) :
    Memory.folioOf word =
      match s with
      | .entry folio => some folio
      | _ => none := by
  cases s with
  | empty =>
    rw [folioOf_eq_none_iff, show word = 0 from h]
    exact .inr rfl
  | value =>
    have hodd := (and_one_eq_one_iff word).mp h
    rw [folioOf_eq_none_iff]
    omega
  | entry folio =>
    obtain ⟨rfl, halign, hne⟩ := h.entry
    exact folioOf_of_aligned halign hne
  | sibling canonical =>
    have hword := h.sibling
    rw [folioOf_eq_none_iff]
    omega
  | node slots => exact absurd h.1 (by simp [hnode])

end Encodes

/-! ## At which slots a folio is counted -/

section Counted

variable {k : Kernel} {vma : Nat}

/-- The offset of a slot in a node is the digit of the descent. -/
theorem offset_eq {level shift : Nat} (hlevel : level ≤ 10) (hshift : shift = 6 * level)
    (slot : Nat) : slot / 2 ^ (shift % 64) % 64 = slot / xaChunkSize ^ level % xaChunkSize := by
  have hmod : shift % 64 = 6 * level := by omega
  rw [hmod, Nat.pow_mul]
  rfl

/-- A word that is no node ends the descent. -/
theorem Encodes.folioOf_findWithin {l : Nat} {s : Slot (BitVec 64) l} {word : BitVec 64}
    (h : Encodes k vma s word) (hnode : xaIsNodeEntry word = false) (n slot : Nat) :
    Memory.folioOf word = (s.findWithin xaChunkSize n slot).map Prod.snd := by
  rw [h.folioOf hnode]
  cases s with
  | node slots => exact absurd h.1 (by simp [hnode])
  | _ => cases n <;> rfl

/-- The word of an entry is no pointer to a node. -/
theorem Encodes.entry_ne {l : Nat} {folio word : BitVec 64}
    (h : Encodes k vma (.entry (l := l) folio) word) : ¬ word.toNat % 4 = 2 := by
  have hentry := h.entry
  omega

/-- The bounded point lookup is the bounded descent. -/
theorem xaLookup_folioOf (hstill : k.Still vma) {n l depth slot : Nat}
    {s : Slot (BitVec 64) l} {word : BitVec 64} (hl : l ≤ 11) (h : Encodes k vma s word) :
    (xaLookup k vma slot n depth word).bind folioOf =
      (s.findWithin xaChunkSize n slot).map Prod.snd := by
  induction n generalizing l s word depth with
  | zero =>
    rw [xaLookup, Option.bind_some]
    cases hnode : xaIsNodeEntry word with
    | false => exact h.folioOf_findWithin hnode 0 slot
    | true =>
      -- no node is left for the lookup, and a node is no folio
      have hword := (xaIsNodeEntry_iff word).mp hnode
      have hnone : folioOf word = none := by
        rw [folioOf_eq_none_iff]
        omega
      rw [hnone]
      cases s with
      | entry folio => exact absurd hword.1 h.entry_ne
      | _ => rfl
  | succ n ih =>
    unfold xaLookup
    cases hnode : xaIsNodeEntry word with
    | false =>
      simp only [Bool.not_false, if_true, Option.bind_some]
      exact h.folioOf_findWithin hnode (n + 1) slot
    | true =>
      have hword := (xaIsNodeEntry_iff word).mp hnode
      simp only [Bool.not_true, Bool.false_eq_true, if_false]
      cases s with
      | node slots =>
        obtain ⟨-, hshift, hslots⟩ := h
        rw [hstill ⟨vma, slot, depth⟩ rfl .xaShift, hstill ⟨vma, slot, depth⟩ rfl (.xaSlot _),
          offset_eq (by omega) hshift]
        rename_i l
        have hoffset : slot / xaChunkSize ^ l % xaChunkSize < xaChunkSize :=
          Nat.mod_lt _ (by decide)
        have hchild := hslots _ hoffset
        rw [Slot.findWithin]
        split
        · -- a sibling entry ends the lookup
          rename_i hsibling
          have hword' := (xaIsSiblingEntry_iff _).mp hsibling
          cases hslot : slots (slot / xaChunkSize ^ l % xaChunkSize) with
          | entry folio =>
            rw [hslot] at hchild
            exact absurd hword'.1 hchild.entry_ne
          | node slots' =>
            rw [hslot] at hchild
            have := (xaIsNodeEntry_iff _).mp hchild.1
            omega
          | _ => rfl
        · exact ih (by omega) hchild
      | entry folio => exact absurd hword.1 h.entry_ne
      | sibling canonical =>
        have := h.sibling
        omega
      | empty =>
        rw [show word = 0 from h] at hword
        simp at hword
      | value =>
        have := (and_one_eq_one_iff word).mp h
        omega

theorem XArray.levels_le (x : XArray) : x.levels ≤ 11 := by
  cases x with
  | direct head => exact Nat.zero_le _
  | tree level slots bits => exact Nat.succ_le_succ bits

/-- A root shift other than 0 and 6 leads to the point lookup. -/
theorem xaEntry_deep {mapping : BitVec 64} {x : XArray} (hx : k.Caches vma mapping x)
    (hdeep : 3 ≤ x.levels) (slot : Nat) :
    xaEntry k vma slot mapping =
      xaLookup k vma slot maxXarrayDepth 1 (k.read ⟨vma, 0, 0⟩ .xaHead mapping) := by
  cases x with
  | direct head => simp [XArray.levels] at hdeep
  | tree level slots bits =>
    simp only [XArray.levels] at hdeep
    obtain ⟨hnode, hshift, -⟩ := hx.head
    have hword := (xaIsNodeEntry_iff _).mp hnode
    unfold xaEntry
    simp only [hx.still ⟨vma, slot, 0⟩ rfl, not_entry_iff, hnode, hshift, if_true]
    rw [if_neg (by omega), if_neg (by omega), if_neg (by omega)]

/-- At which slots a folio is counted, in a tree of three levels or more: at every index of
    its first slot, if it lies four nodes deep at most. -/
theorem xaCounted_deep {mapping : BitVec 64} {x : XArray} (hx : k.Caches vma mapping x)
    (hdeep : 3 ≤ x.levels) {slot : Nat} (hslot : slot < maxXarrayScanSlots)
    {folio : BitVec 64} :
    xaCounted k vma slot mapping = some folio ↔
      ∃ e ∈ x.folios, e.item = folio ∧ e.first ≤ slot ∧ slot < e.stop xaChunkSize ∧
        x.levels ≤ e.level + maxXarrayDepth := by
  have hindex : slot < xaChunkSize ^ x.levels :=
    lt_of_lt_of_le hslot (show 64 ^ 2 ≤ 64 ^ x.levels from
      Nat.pow_le_pow_right (by decide) (by omega))
  rw [xaCounted, xaEntry_deep hx hdeep, xaLookup_folioOf hx.still x.levels_le hx.head,
    XArray.folios, Slot.spans_iff (by decide) hindex
      (P := fun level => x.levels ≤ level + maxXarrayDepth)]
  simp only [Option.map_eq_some_iff, Prod.exists, Slot.findWithin_eq_some_iff]
  constructor
  · rintro ⟨level, a, ⟨hfind, hle⟩, rfl⟩
    exact ⟨level, hfind, hle⟩
  · rintro ⟨level, hfind, hle⟩
    exact ⟨level, folio, ⟨hfind, hle⟩, rfl⟩

/-- A slot of a leaf, or of the head without nodes, is no node. -/
theorem Encodes.not_node {s : Slot (BitVec 64) 0} {word : BitVec 64}
    (h : Encodes k vma s word) : xaIsNodeEntry word = false := by
  rw [Bool.eq_false_iff, ne_eq, xaIsNodeEntry_iff]
  cases s with
  | empty =>
    rw [show word = 0 from h]
    decide
  | value =>
    have := (and_one_eq_one_iff word).mp h
    omega
  | entry folio =>
    have := h.entry
    omega
  | sibling canonical =>
    have := h.sibling
    omega

theorem Encodes.folioOf_leaf {s : Slot (BitVec 64) 0} {word : BitVec 64}
    (h : Encodes k vma s word) (index : Nat) :
    Memory.folioOf word = (s.find xaChunkSize index).map Prod.snd := by
  rw [h.folioOf h.not_node]
  cases s <;> rfl

/-- In a leaf every entry covers one index. -/
theorem find_leaf {s : Slot (BitVec 64) 0} {slot : Nat} {folio : BitVec 64} :
    (s.find xaChunkSize slot).map Prod.snd = some folio ↔
      ∃ level, s.find xaChunkSize slot = some (level, folio) ∧ xaChunkSize ^ level ∣ slot := by
  simp only [Option.map_eq_some_iff, Prod.exists]
  constructor
  · rintro ⟨level, a, hfind, rfl⟩
    obtain rfl : level = 0 := Nat.le_zero.mp (Slot.find_level_le hfind)
    exact ⟨0, hfind, one_dvd _⟩
  · rintro ⟨level, hfind, -⟩
    exact ⟨level, folio, hfind, rfl⟩

/-- No folio starts behind the indices of the array. -/
theorem XArray.not_starts {x : XArray} {slot : Nat} (h : xaChunkSize ^ x.levels ≤ slot)
    (folio : BitVec 64) : ¬ ∃ e ∈ x.folios, e.item = folio ∧ e.first = slot := by
  rintro ⟨e, hmem, -, rfl⟩
  obtain ⟨-, hstop⟩ := Slot.mem_entries_bounds hmem
  have hpos : 0 < xaChunkSize ^ e.level := Nat.pow_pos (by decide)
  unfold Entry.stop at hstop
  omega

/-- A head entry is counted at slot 0. -/
theorem xaCounted_direct {mapping : BitVec 64} (hstill : k.Still vma) {head : Slot (BitVec 64) 0}
    (hhead : Encodes k vma head (k.read ⟨vma, 0, 0⟩ .xaHead mapping)) (slot : Nat) :
    xaCounted k vma slot mapping =
      if slot = 0 then (head.find xaChunkSize slot).map Prod.snd else none := by
  have hfolio := hhead.folioOf_leaf slot
  unfold xaCounted xaEntry
  simp only [hstill ⟨vma, slot, 0⟩ rfl]
  generalize k.read ⟨vma, 0, 0⟩ .xaHead mapping = word at hhead hfolio ⊢
  rw [← hfolio]
  by_cases hnone : word = 0 ∨ word &&& 1 = 1
  · rw [if_pos hnone]
    have hfolio : folioOf word = none := by
      rw [folioOf_eq_none_iff]
      have := (not_entry_iff word).mp hnone
      omega
    simp [hfolio]
  · rw [if_neg hnone]
    rw [hhead.not_node]
    by_cases hzero : slot = 0
    · simp [hzero]
    · simp [hzero]

/-- A tree of one level: the slots of its leaf. -/
theorem xaCounted_leaf {mapping : BitVec 64} (hstill : k.Still vma)
    {slots : Nat → Slot (BitVec 64) 0}
    (hhead : Encodes k vma (.node slots) (k.read ⟨vma, 0, 0⟩ .xaHead mapping)) (slot : Nat) :
    xaCounted k vma slot mapping =
      if slot < xaChunkSize then ((slots slot).find xaChunkSize slot).map Prod.snd else none := by
  obtain ⟨hnode, hshift, hslots⟩ := hhead
  have hword := (xaIsNodeEntry_iff _).mp hnode
  unfold xaCounted xaEntry
  simp only [hstill ⟨vma, slot, 0⟩ rfl, not_entry_iff, hnode, hshift, if_true, Nat.mul_zero]
  rw [if_neg (by omega)]
  by_cases hin : slot < xaChunkSize
  · rw [if_neg (show ¬ 64 ≤ slot from Nat.not_le.mpr hin), if_pos hin]
    exact (hslots slot hin).folioOf_leaf slot
  · rw [if_pos (show 64 ≤ slot from Nat.not_lt.mp hin), if_neg hin]
    rfl

/-- A tree of two levels: a folio in the root is counted at leaf slot 0. -/
theorem xaCounted_two {mapping : BitVec 64} (hstill : k.Still vma)
    {slots : Nat → Slot (BitVec 64) 1}
    (hhead : Encodes k vma (.node slots) (k.read ⟨vma, 0, 0⟩ .xaHead mapping)) {slot : Nat}
    (hslot : slot < maxXarrayScanSlots) {folio : BitVec 64} :
    xaCounted k vma slot mapping = some folio ↔
      ∃ level, (slots (slot / xaChunkSize)).find xaChunkSize slot = some (level, folio) ∧
        xaChunkSize ^ level ∣ slot := by
  obtain ⟨hnode, hshift, hslots⟩ := hhead
  have hword := (xaIsNodeEntry_iff _).mp hnode
  have hroot : slot / 64 < xaChunkSize := Nat.div_lt_of_lt_mul hslot
  have hentry := hslots _ hroot
  unfold xaCounted xaEntry
  simp only [hstill ⟨vma, slot, _⟩ rfl, hnode, hshift, if_true]
  rw [if_neg (by rw [not_entry_iff]; omega), if_neg (by omega),
    if_neg (show ¬ 64 ≤ slot / 64 from Nat.not_le.mpr hroot)]
  generalize k.read ⟨vma, 0, 0⟩ (.xaSlot (slot / 64)) _ = entry at hentry ⊢
  show _ ↔ ∃ level, (slots (slot / 64)).find xaChunkSize slot = some (level, folio) ∧ _
  cases hcase : slots (slot / 64) with
  | empty =>
    rw [hcase] at hentry
    rw [if_pos (.inl hentry)]
    simp [Slot.find]
  | value =>
    rw [hcase] at hentry
    rw [if_pos (.inr (.inl hentry))]
    simp [Slot.find]
  | sibling canonical =>
    rw [hcase] at hentry
    rw [if_pos (.inr (.inr ((xaIsSiblingEntry_iff _).mpr hentry.sibling)))]
    simp [Slot.find]
  | entry a =>
    rw [hcase] at hentry
    obtain ⟨rfl, halign, hne⟩ := hentry.entry
    have hentry_node : xaIsNodeEntry entry = false := by
      rw [Bool.eq_false_iff, ne_eq, xaIsNodeEntry_iff]
      omega
    rw [if_neg (by rw [← or_assoc, not_entry_iff, xaIsSiblingEntry_iff]; omega),
      if_neg (by simp [hentry_node])]
    -- a folio of the root has 64 slots, of which the first counts it
    have hdvd : xaChunkSize ∣ slot ↔ slot % 64 = 0 := Nat.dvd_iff_mod_eq_zero
    by_cases hleaf : slot % 64 = 0
    · simp [hleaf, hdvd, Slot.find, folioOf_of_aligned halign hne]
    · simp [hleaf, hdvd, Slot.find]
  | node leaf =>
    rw [hcase] at hentry
    obtain ⟨hentry_node, -, hleaf⟩ := hentry
    have hentry_word := (xaIsNodeEntry_iff _).mp hentry_node
    have hword' := (hleaf (slot % 64) (Nat.mod_lt slot (by decide))).folioOf_leaf slot
    rw [if_neg (by rw [← or_assoc, not_entry_iff, xaIsSiblingEntry_iff]; omega),
      if_pos hentry_node, Option.bind_some, hword', find_leaf, Slot.find, pow_zero,
      Nat.div_one]
    rfl

/-- At which slots a folio is counted, in an array of at most two levels: at its first index. -/
theorem xaCounted_shallow {mapping : BitVec 64} {x : XArray} (hx : k.Caches vma mapping x)
    (hshallow : x.levels ≤ 2) {slot : Nat} (hslot : slot < maxXarrayScanSlots)
    {folio : BitVec 64} :
    xaCounted k vma slot mapping = some folio ↔
      ∃ e ∈ x.folios, e.item = folio ∧ e.first = slot := by
  by_cases hindex : slot < xaChunkSize ^ x.levels
  · rw [XArray.folios, Slot.starts_iff (by decide) hindex]
    obtain ⟨hstill, hhead, -⟩ := hx
    cases x with
    | direct head =>
      obtain rfl : slot = 0 := Nat.lt_one_iff.mp hindex
      rw [xaCounted_direct hstill hhead, if_pos rfl]
      exact find_leaf
    | tree level slots bits =>
      obtain rfl | rfl : level = 0 ∨ level = 1 := by
        simp only [XArray.levels] at hshallow
        omega
      · have hin : slot < xaChunkSize := by simpa [XArray.levels] using hindex
        have hfind : (XArray.head (.tree 0 slots bits)).find xaChunkSize slot =
            (slots slot).find xaChunkSize slot := by
          show (slots (slot / xaChunkSize ^ 0 % xaChunkSize)).find xaChunkSize slot = _
          rw [pow_zero, Nat.div_one, Nat.mod_eq_of_lt hin]
        rw [xaCounted_leaf hstill hhead, if_pos hin, find_leaf, hfind]
      · have hroot : slot / xaChunkSize < xaChunkSize := Nat.div_lt_of_lt_mul hslot
        have hfind : (XArray.head (.tree 1 slots bits)).find xaChunkSize slot =
            (slots (slot / xaChunkSize)).find xaChunkSize slot := by
          show (slots (slot / xaChunkSize ^ 1 % xaChunkSize)).find xaChunkSize slot = _
          rw [pow_one, Nat.mod_eq_of_lt hroot]
        rw [xaCounted_two hstill hhead hslot, hfind]
  · -- behind the array, and only arrays of less than two levels end before slot 4095
    have hnone : xaCounted k vma slot mapping = none := by
      obtain ⟨hstill, hhead, -⟩ := hx
      cases x with
      | direct head =>
        rw [xaCounted_direct hstill hhead, if_neg]
        rintro rfl
        exact hindex Nat.one_pos
      | tree level slots bits =>
        obtain rfl | rfl : level = 0 ∨ level = 1 := by
          simp only [XArray.levels] at hshallow
          omega
        · rw [xaCounted_leaf hstill hhead, if_neg (by simpa [XArray.levels] using hindex)]
        · exact absurd hslot hindex
    rw [hnone]
    exact iff_of_false (by simp) (XArray.not_starts (Nat.not_lt.mp hindex) folio)

end Counted

/-! ## The loop over the slots -/

/-- `count_cache_folio` for one folio after the other, in memory that does not change. -/
def countFolios (pg : PageFlags) (k : Kernel) (vma : Nat) (folios : List (BitVec 64))
    (c : CacheCounters) : CacheCounters :=
  folios.foldl (fun c folio => countCacheFolio pg k ⟨vma, 0, 0⟩ folio c) c

theorem countCacheFolio_still {k : Kernel} {vma : Nat} (hstill : k.Still vma) (pg : PageFlags)
    (round depth : Nat) (folio : BitVec 64) (c : CacheCounters) :
    countCacheFolio pg k ⟨vma, round, depth⟩ folio c =
      countCacheFolio pg k ⟨vma, 0, 0⟩ folio c := by
  simp only [countCacheFolio, hstill ⟨vma, round, depth⟩ rfl]

/-- The loop counts the folios that its slots count, in this order. -/
theorem walk_eq_countFolios (pg : PageFlags) {k : Kernel} {vma : Nat} {mapping : BitVec 64}
    (hstill : k.Still vma) (hvma : vma < maxVmas) (hmapping : mapping ≠ 0) (c : CacheCounters) :
    bpfLoop maxXarrayScanSlots (walkXarray pg k vma mapping) c =
      countFolios pg k vma (countedFolios k vma mapping) c := by
  apply bpfLoop_ensures (fun i c' => c' = countFolios pg k vma
      ((List.range i).filterMap fun slot => xaCounted k vma slot mapping) c)
    (fun c' => c' = countFolios pg k vma (countedFolios k vma mapping) c)
  · rfl
  · rintro i hi c' rfl
    right
    rw [walkXarray_eq pg k _ hi hvma hmapping]
    refine ⟨rfl, ?_⟩
    rw [List.range_succ, List.filterMap_append]
    cases hcounted : xaCounted k vma i mapping with
    | none => simp [hcounted]
    | some folio => simp [hcounted, countFolios, countCacheFolio_still hstill]
  · exact fun c' h => h

/-! ## What the counters say -/

section Tally

variable (pg : PageFlags) (k : Kernel) (vma : Nat)

/-- The folio carries the flag. -/
def hasFlag (flag : Nat) (folio : BitVec 64) : Bool :=
  (k.read ⟨vma, 0, 0⟩ .folioFlags folio).getLsbD flag

/-- The bucket of the folio. -/
def orderBucket (folio : BitVec 64) : Nat :=
  min (if hasFlag k vma pg.head folio then
    (k.read ⟨vma, 0, 0⟩ .folioFlags1 folio &&& 0xff).toNat else 0) (maxCacheOrders - 1)

/-- The counters are those of exactly these folios. -/
structure Tally (counted : List (BitVec 64)) (c : CacheCounters) : Prop where
  folios : c.folios.toNat = counted.length
  buckets : ∑ order ∈ Finset.range maxCacheOrders, (c.orderFolios order).toNat = counted.length
  dirtyBuckets : ∑ order ∈ Finset.range maxCacheOrders, (c.orderDirty order).toNat =
    counted.countP (hasFlag k vma pg.dirty)
  clean : c.cleanFolios.toNat = counted.countP fun folio =>
    !hasFlag k vma pg.dirty folio && !hasFlag k vma pg.writeback folio
  dirty : c.dirtyFolios.toNat = counted.countP (hasFlag k vma pg.dirty)
  writeback : c.writebackFolios.toNat = counted.countP (hasFlag k vma pg.writeback)
  lru : c.lruFolios.toNat = counted.countP (hasFlag k vma pg.lru)
  active : c.activeFolios.toNat = counted.countP (hasFlag k vma pg.active)
  referenced : c.referencedFolios.toNat = counted.countP (hasFlag k vma pg.referenced)
  workingset : c.workingsetFolios.toNat = counted.countP (hasFlag k vma pg.workingset)
  unevictable : c.unevictableFolios.toNat = counted.countP (hasFlag k vma pg.unevictable)

variable {pg k vma}

/-- The order of the folios does not matter. -/
theorem Tally.perm {folios folios' : List (BitVec 64)} {c : CacheCounters}
    (h : Tally pg k vma folios c) (hperm : folios.Perm folios') : Tally pg k vma folios' c where
  folios := by rw [h.folios, hperm.length_eq]
  buckets := by rw [h.buckets, hperm.length_eq]
  dirtyBuckets := by rw [h.dirtyBuckets, hperm.countP_eq]
  clean := by rw [h.clean, hperm.countP_eq]
  dirty := by rw [h.dirty, hperm.countP_eq]
  writeback := by rw [h.writeback, hperm.countP_eq]
  lru := by rw [h.lru, hperm.countP_eq]
  active := by rw [h.active, hperm.countP_eq]
  referenced := by rw [h.referenced, hperm.countP_eq]
  workingset := by rw [h.workingset, hperm.countP_eq]
  unevictable := by rw [h.unevictable, hperm.countP_eq]

/-- A counter that each folio bumps under a condition. -/
theorem countFolios_bump {w : Nat} {counter : CacheCounters → BitVec w} {p : BitVec 64 → Bool}
    (hbump : ∀ c folio, counter (countCacheFolio pg k ⟨vma, 0, 0⟩ folio c) =
      bump (p folio) (counter c)) (folios : List (BitVec 64)) (c : CacheCounters) :
    counter (countFolios pg k vma folios c) =
      counter c + BitVec.ofNat w (folios.countP p) := by
  induction folios generalizing c with
  | nil => simp [countFolios]
  | cons folio folios ih =>
    have hstep : counter (countFolios pg k vma (folio :: folios) c) =
        counter (countCacheFolio pg k ⟨vma, 0, 0⟩ folio c) + BitVec.ofNat w (folios.countP p) :=
      ih _
    rw [hstep, hbump]
    cases hp : p folio with
    | false => simp [bump, hp]
    | true =>
      simp only [bump, if_true, List.countP_cons, hp]
      rw [BitVec.add_assoc, BitVec.add_comm 1]
      exact congrArg _ (BitVec.ofNat_add _ 1).symm

/-- The same from 0, while the counter does not overflow. -/
theorem toNat_countFolios {w : Nat} {f : CacheCounters → BitVec w} {p : BitVec 64 → Bool}
    (hbump : ∀ c folio, f (countCacheFolio pg k ⟨vma, 0, 0⟩ folio c) = bump (p folio) (f c))
    (hzero : f .zero = 0#w) {folios : List (BitVec 64)} (hlen : folios.length < 2 ^ w) :
    (f (countFolios pg k vma folios .zero)).toNat = folios.countP p := by
  have hcount : folios.countP p < 2 ^ w := lt_of_le_of_lt List.countP_le_length hlen
  rw [countFolios_bump hbump, hzero, BitVec.zero_add, BitVec.toNat_ofNat,
    Nat.mod_eq_of_lt hcount]

/-- Sorted into buckets, the elements that meet a condition are as many as before. -/
theorem sum_countP_bucket {α : Type} (p : α → Bool) {bucket : α → Nat} {n : Nat}
    (hbucket : ∀ a, bucket a < n) (l : List α) :
    ∑ i ∈ Finset.range n, l.countP (fun a => p a && decide (bucket a = i)) = l.countP p := by
  induction l with
  | nil => simp
  | cons a l ih =>
    simp only [List.countP_cons, Finset.sum_add_distrib, ih]
    congr 1
    cases p a with
    | false => simp
    | true => simp [hbucket a]

variable (pg k vma)

theorem orderFolios_countCacheFolio (folio : BitVec 64) (c : CacheCounters) :
    (countCacheFolio pg k ⟨vma, 0, 0⟩ folio c).orderFolios =
      Function.update c.orderFolios (orderBucket pg k vma folio)
        (c.orderFolios (orderBucket pg k vma folio) + 1) := rfl

theorem orderDirty_countCacheFolio (folio : BitVec 64) (c : CacheCounters) :
    (countCacheFolio pg k ⟨vma, 0, 0⟩ folio c).orderDirty =
      Function.update c.orderDirty (orderBucket pg k vma folio)
        (bump (hasFlag k vma pg.dirty folio) (c.orderDirty (orderBucket pg k vma folio))) := rfl

/-- **The counters**: after a count from zero they are those of the counted folios. The
    buckets have 16 bits, and there are 4096 slots. -/
theorem tally_countFolios {folios : List (BitVec 64)}
    (hlen : folios.length ≤ maxXarrayScanSlots) :
    Tally pg k vma folios (countFolios pg k vma folios .zero) := by
  have h16 : folios.length < 2 ^ 16 := lt_of_le_of_lt hlen (by decide)
  have h32 : folios.length < 2 ^ 32 := lt_of_le_of_lt hlen (by decide)
  have hbucket : ∀ folio, orderBucket pg k vma folio < maxCacheOrders :=
    fun folio => Nat.lt_of_le_of_lt (Nat.min_le_right _ _) (by decide)
  constructor
  · rw [toNat_countFolios (p := fun _ => true) (fun _ _ => rfl) rfl h32]
    simp
  · have horder : ∀ order, ((countFolios pg k vma folios .zero).orderFolios order).toNat =
        folios.countP fun folio => true && decide (orderBucket pg k vma folio = order) := by
      intro order
      refine toNat_countFolios (f := fun c => c.orderFolios order) ?_ rfl h16
      intro c folio
      rw [orderFolios_countCacheFolio]
      by_cases h : order = orderBucket pg k vma folio
      · simp [h, bump]
      · simp [h, Ne.symm h, bump]
    simp only [horder]
    rw [sum_countP_bucket _ hbucket]
    simp
  · have horder : ∀ order, ((countFolios pg k vma folios .zero).orderDirty order).toNat =
        folios.countP fun folio =>
          hasFlag k vma pg.dirty folio && decide (orderBucket pg k vma folio = order) := by
      intro order
      refine toNat_countFolios (f := fun c => c.orderDirty order) ?_ rfl h16
      intro c folio
      rw [orderDirty_countCacheFolio]
      by_cases h : order = orderBucket pg k vma folio
      · simp [h]
      · simp [h, Ne.symm h, bump]
    simp only [horder]
    exact sum_countP_bucket _ hbucket _
  · exact toNat_countFolios (fun _ _ => rfl) rfl h32
  · exact toNat_countFolios (fun _ _ => rfl) rfl h32
  · exact toNat_countFolios (fun _ _ => rfl) rfl h32
  · exact toNat_countFolios (fun _ _ => rfl) rfl h32
  · exact toNat_countFolios (fun _ _ => rfl) rfl h32
  · exact toNat_countFolios (fun _ _ => rfl) rfl h32
  · exact toNat_countFolios (fun _ _ => rfl) rfl h32
  · exact toNat_countFolios (fun _ _ => rfl) rfl h32

end Tally

/-! ## Each folio once -/

/-- A slot that alone counts the folio. -/
theorem count_countedFolios {k : Kernel} {vma : Nat} {mapping folio : BitVec 64} {first : Nat}
    (hfirst : first < maxXarrayScanSlots)
    (h : ∀ slot < maxXarrayScanSlots, xaCounted k vma slot mapping = some folio ↔ slot = first) :
    (countedFolios k vma mapping).count folio = 1 := by
  rw [countedFolios, List.count_filterMap]
  have hsame : ∀ slot ∈ List.range maxXarrayScanSlots,
      ((xaCounted k vma slot mapping == some folio) = true ↔ (slot == first) = true) := by
    intro slot hslot
    rw [beq_iff_eq, beq_iff_eq]
    exact h slot (List.mem_range.mp hslot)
  rw [List.countP_congr hsame]
  exact List.count_eq_one_of_mem List.nodup_range (List.mem_range.mpr hfirst)

/-- Where the folio is in the array. -/
theorem XArray.Distinct.eq {x : XArray} (h : x.Distinct) {e e' : Radix.Entry (BitVec 64)}
    (he : e ∈ x.folios) (he' : e' ∈ x.folios) (hitem : e.item = e'.item) : e = e' :=
  List.inj_on_of_nodup_map h he he' hitem

/-- The folios that the walk gets right: those of an array of at most two levels, and those
    in the leaves of one of at most four. -/
def XArray.Reached (x : XArray) (e : Radix.Entry (BitVec 64)) : Prop :=
  x.levels ≤ 2 ∨ e.level = 0

theorem counted_iff_first {k : Kernel} {vma : Nat} {mapping : BitVec 64} {x : XArray}
    (hx : k.Caches vma mapping x) (hlevels : x.levels ≤ maxXarrayDepth)
    {e : Radix.Entry (BitVec 64)} (he : e ∈ x.folios) (hreached : x.Reached e) {slot : Nat}
    (hslot : slot < maxXarrayScanSlots) :
    xaCounted k vma slot mapping = some e.item ↔ slot = e.first := by
  by_cases hshallow : x.levels ≤ 2
  · rw [xaCounted_shallow hx hshallow hslot]
    constructor
    · rintro ⟨e', he', hitem, rfl⟩
      rw [hx.distinct.eq he' he hitem]
    · rintro rfl
      exact ⟨e, he, rfl, rfl⟩
  · have hlevel : e.level = 0 := hreached.resolve_left hshallow
    rw [xaCounted_deep hx (by omega) hslot]
    constructor
    · rintro ⟨e', he', hitem, hlo, hhi, -⟩
      -- the span of a folio in a leaf is one index
      obtain rfl := hx.distinct.eq he' he hitem
      rw [Entry.stop, hlevel, pow_zero] at hhi
      omega
    · rintro rfl
      refine ⟨e, he, rfl, le_rfl, ?_, by omega⟩
      rw [Entry.stop, hlevel, pow_zero]
      omega

/-- Only folios below index 4096 are counted. -/
theorem mem_foliosBelow_of_counted {k : Kernel} {vma : Nat} {mapping folio : BitVec 64}
    {x : XArray} (hx : k.Caches vma mapping x) (h : folio ∈ countedFolios k vma mapping) :
    folio ∈ x.foliosBelow.map (·.item) := by
  obtain ⟨slot, hmem, hcounted⟩ := List.mem_filterMap.mp h
  have hslot := List.mem_range.mp hmem
  obtain ⟨e, he, rfl, hle⟩ : ∃ e ∈ x.folios, e.item = folio ∧ e.first ≤ slot := by
    by_cases hshallow : x.levels ≤ 2
    · obtain ⟨e, he, hitem, rfl⟩ := (xaCounted_shallow hx hshallow hslot).mp hcounted
      exact ⟨e, he, hitem, le_rfl⟩
    · obtain ⟨e, he, hitem, hlo, -⟩ := (xaCounted_deep hx (by omega) hslot).mp hcounted
      exact ⟨e, he, hitem, hlo⟩
  refine List.mem_map.mpr ⟨e, List.mem_filter.mpr ⟨he, ?_⟩, rfl⟩
  simp only [decide_eq_true_eq]
  omega

theorem length_countedFolios_le (k : Kernel) (vma : Nat) (mapping : BitVec 64) :
    (countedFolios k vma mapping).length ≤ maxXarrayScanSlots := by
  have h := List.length_filterMap_le (fun slot => xaCounted k vma slot mapping)
    (List.range maxXarrayScanSlots)
  rwa [List.length_range] at h

/-- **Each folio once**: over a page cache that does not change, the counters are always
    those of the folios that the slots count, one after the other. In an array of at most
    four levels, each folio below index 4096 that lies in a leaf, or in an array of at most
    two levels, is counted exactly once; and where all of them do, the counters are those of
    exactly the folios below index 4096. -/
theorem walk_counts_each_once (pg : PageFlags) {k : Kernel} {vma : Nat} {mapping : BitVec 64}
    {x : XArray} (hvma : vma < maxVmas) (hmapping : mapping ≠ 0) (hx : k.Caches vma mapping x) :
    let c := bpfLoop maxXarrayScanSlots (walkXarray pg k vma mapping) .zero
    let counted := countedFolios k vma mapping
    c = countFolios pg k vma counted .zero ∧ Tally pg k vma counted c ∧
    (x.levels ≤ maxXarrayDepth →
      (∀ e ∈ x.foliosBelow, x.Reached e → counted.count e.item = 1) ∧
      ((∀ e ∈ x.foliosBelow, x.Reached e) →
        counted.Perm (x.foliosBelow.map (·.item)) ∧
          Tally pg k vma (x.foliosBelow.map (·.item)) c)) := by
  intro c counted
  have hwalk : c = countFolios pg k vma counted .zero :=
    walk_eq_countFolios pg hx.still hvma hmapping .zero
  have htally : Tally pg k vma counted c := by
    rw [hwalk]
    exact tally_countFolios pg k vma (length_countedFolios_le k vma mapping)
  refine ⟨hwalk, htally, fun hlevels => ?_⟩
  have honce : ∀ e ∈ x.foliosBelow, x.Reached e → counted.count e.item = 1 := by
    intro e he hreached
    obtain ⟨hmem, hbelow⟩ := List.mem_filter.mp he
    exact count_countedFolios (by simpa using hbelow) fun slot hslot =>
      counted_iff_first hx hlevels hmem hreached hslot
  refine ⟨honce, fun hall => ?_⟩
  have hperm : counted.Perm (x.foliosBelow.map (·.item)) := by
    rw [List.perm_iff_count]
    intro folio
    have hnodup : (x.foliosBelow.map (·.item)).Nodup :=
      hx.distinct.sublist (List.filter_sublist.map _)
    by_cases hmem : folio ∈ x.foliosBelow.map (·.item)
    · obtain ⟨e, he, rfl⟩ := List.mem_map.mp hmem
      rw [honce e he (hall e he), List.count_eq_one_of_mem hnodup hmem]
    · rw [List.count_eq_zero_of_not_mem hmem, List.count_eq_zero_of_not_mem fun h =>
        hmem (mem_foliosBelow_of_counted hx h)]
  exact ⟨hperm, htally.perm hperm⟩

/-! ## Chains of nodes -/

/-- One node a level, each with the next one, and the last with the folio, in slot 0. -/
def chain (bottom : Nat) (folio : BitVec 64) : (n : Nat) → Slot (BitVec 64) (bottom + n)
  | 0 => .entry folio
  | n + 1 => .node fun i => if i = 0 then chain bottom folio n else .empty

/-- The chain in memory: the node of level `l` at 0x10000 + 0x1000 * l, the folio at 0x8000
    in the node of level `bottom`. -/
def chainKernel (bottom levels : Nat) : Kernel where
  read _ f a :=
    match f with
    | .xaHead => BitVec.ofNat 64 (0x10000 + 0x1000 * (levels - 1) + 2)
    | .xaShift => BitVec.ofNat 64 (6 * ((a.toNat - 0x10000) / 0x1000))
    | .xaSlot 0 => if a.toNat = 0x10000 + 0x1000 * bottom then 0x8000 else a - 0x1000 + 2
    | _ => 0
  string _ _ := none

/-- A node of a chain. -/
theorem encodes_chain {bottom levels n : Nat} {word : BitVec 64}
    (hnode : xaIsNodeEntry word = true)
    (hshift : 6 * (((xaToNodeAddress word).toNat - 0x10000) / 0x1000) = 6 * (bottom + n))
    (hbits : bottom + n ≤ 10)
    (hnext : Encodes (chainKernel bottom levels) 0 (chain bottom 0x8000 n)
      ((chainKernel bottom levels).read ⟨0, 0, 0⟩ (.xaSlot 0) (xaToNodeAddress word))) :
    Encodes (chainKernel bottom levels) 0 (chain bottom 0x8000 (n + 1)) word := by
  refine ⟨hnode, ?_, fun i _ => ?_⟩
  · show (BitVec.ofNat 64 (6 * (((xaToNodeAddress word).toNat - 0x10000) / 0x1000))).toNat % 256 =
      6 * (bottom + n)
    rw [hshift, BitVec.toNat_ofNat]
    omega
  · cases i with
    | zero => exact hnext
    | succ i => exact show (0 : BitVec 64) = 0 from rfl

/-- Page flags. -/
def someFlags : PageFlags where
  dirty := 4
  writeback := 1
  lru := 5
  active := 8
  referenced := 2
  workingset := 9
  unevictable := 18
  head := 6

/-- A page in the leaf of a tree of five levels. -/
def pageInFive : XArray :=
  .tree 4 (fun i => if i = 0 then chain 0 0x8000 4 else .empty) (by decide)

/-- A folio of 64 pages in a tree of three levels. -/
def largeInThree : XArray :=
  .tree 2 (fun i => if i = 0 then chain 1 0x8000 1 else .empty) (by decide)

theorem caches_pageInFive : (chainKernel 0 5).Caches 0 0x1000 pageInFive where
  still _ _ _ _ := rfl
  head := by
    refine encodes_chain (n := 4) (by decide) (by decide) (by decide) ?_
    refine encodes_chain (n := 3) (by decide) (by decide) (by decide) ?_
    refine encodes_chain (n := 2) (by decide) (by decide) (by decide) ?_
    refine encodes_chain (n := 1) (by decide) (by decide) (by decide) ?_
    refine encodes_chain (n := 0) (by decide) (by decide) (by decide) ?_
    exact ⟨by decide, by decide, by decide⟩
  distinct := by
    show (List.map _ _).Nodup
    decide

theorem caches_largeInThree : (chainKernel 1 3).Caches 0 0x1000 largeInThree where
  still _ _ _ _ := rfl
  head := by
    refine encodes_chain (n := 1) (by decide) (by decide) (by decide) ?_
    refine encodes_chain (n := 0) (by decide) (by decide) (by decide) ?_
    exact ⟨by decide, by decide, by decide⟩
  distinct := by
    show (List.map _ _).Nodup
    decide

/-- In the leaf a page, a folio of two pages with its sibling slot, and a swapped page; behind the
    leaf a folio of 64 pages. -/
def mixedInTwo : XArray :=
  .tree 1 (fun i =>
    if i = 0 then
      .node fun i =>
        if i = 0 then .entry 0x8000
        else if i = 2 then .entry 0x8040
        else if i = 3 then .sibling 2
        else if i = 4 then .value
        else .empty
    else if i = 1 then .entry 0x9000
    else .empty) (by decide)

/-- The tree in memory: the root at 0x11000, and the leaf at 0x10000. -/
def mixedKernel : Kernel where
  read _ f a :=
    match f with
    | .xaHead => 0x11002
    | .xaShift => if a = 0x11000 then 6 else 0
    | .xaSlot i =>
      if a = 0x11000 then
        if i = 0 then 0x10002 else if i = 1 then 0x9000 else 0
      else
        if i = 0 then 0x8000 else if i = 2 then 0x8040 else if i = 3 then 10
        else if i = 4 then 0x5 else 0
    | _ => 0
  string _ _ := none

theorem caches_mixedInTwo : mixedKernel.Caches 0 0x1000 mixedInTwo where
  still _ _ _ _ := rfl
  head := by
    refine ⟨by decide, by decide, fun i hi => ?_⟩
    by_cases hleaf : i = 0
    · subst hleaf
      refine ⟨by decide, by decide, fun i hi => ?_⟩
      unfold xaChunkSize at hi
      interval_cases i
      · exact ⟨by decide, by decide, by decide⟩
      · exact show (0 : BitVec 64) = 0 from rfl
      · exact ⟨by decide, by decide, by decide⟩
      · exact ⟨by decide, by decide⟩
      · exact show (0x5 : BitVec 64) &&& 1 = 1 by decide
      all_goals exact show (0 : BitVec 64) = 0 from rfl
    · unfold xaChunkSize at hi
      interval_cases i
      · exact absurd rfl hleaf
      · exact ⟨by decide, by decide, by decide⟩
      all_goals exact show (0 : BitVec 64) = 0 from rfl
  distinct := by
    show (List.map _ _).Nodup
    decide

/-- Each of the three folios is counted once, the two large ones too. -/
theorem walk_counts_each_once_mixed :
    (bpfLoop maxXarrayScanSlots (walkXarray someFlags mixedKernel 0 0x1000) .zero).folios.toNat =
        3 ∧
      ∀ folio ∈ [0x8000, 0x8040, 0x9000], (countedFolios mixedKernel 0 0x1000).count folio = 1 := by
  have hfolios : mixedInTwo.foliosBelow = [⟨0, 0, 0x8000⟩, ⟨2, 0, 0x8040⟩, ⟨64, 1, 0x9000⟩] := by
    decide
  have hreached : ∀ e ∈ mixedInTwo.foliosBelow, mixedInTwo.Reached e :=
    fun _ _ => .inl (by decide)
  obtain ⟨-, -, hlevels⟩ := walk_counts_each_once someFlags (by decide) (by decide)
    caches_mixedInTwo
  obtain ⟨honce, hall⟩ := hlevels (by decide)
  have htally := (hall hreached).2.folios
  rw [hfolios] at htally honce
  refine ⟨htally, fun folio hfolio => ?_⟩
  rw [← show ([⟨0, 0, 0x8000⟩, ⟨2, 0, 0x8040⟩, ⟨64, 1, 0x9000⟩] :
    List (Radix.Entry (BitVec 64))).map (·.item) = [0x8000, 0x8040, 0x9000] from rfl] at hfolio
  obtain ⟨e, he, rfl⟩ := List.mem_map.mp hfolio
  exact honce e he (.inl (by decide))

/-- In a tree of five levels the walk stops above the leaf and counts no folio where there is
    one, and in a tree of three levels it counts a folio of 64 pages again and again. -/
theorem walk_miscounts :
    ((chainKernel 0 5).Caches 0 0x1000 pageInFive ∧ pageInFive.foliosBelow.length = 1 ∧
      (bpfLoop maxXarrayScanSlots (walkXarray someFlags (chainKernel 0 5) 0 0x1000)
        .zero).folios = 0) ∧
    ((chainKernel 1 3).Caches 0 0x1000 largeInThree ∧ largeInThree.foliosBelow.length = 1 ∧
      (countedFolios (chainKernel 1 3) 0 0x1000).count 0x8000 = 64) := by
  refine ⟨⟨caches_pageInFive, by decide, ?_⟩, caches_largeInThree, by decide, ?_⟩
  · have hnone : countedFolios (chainKernel 0 5) 0 0x1000 = [] := by
      refine List.eq_nil_iff_forall_not_mem.mpr fun folio hmem => ?_
      obtain ⟨slot, hrange, hcounted⟩ := List.mem_filterMap.mp hmem
      obtain ⟨e, he, -, -, -, hdepth⟩ := (xaCounted_deep caches_pageInFive (by decide)
        (List.mem_range.mp hrange)).mp hcounted
      have hfolios : pageInFive.folios = [⟨0, 0, 0x8000⟩] := by decide
      rw [hfolios] at he
      obtain rfl := List.mem_singleton.mp he
      exact absurd hdepth (by decide)
    rw [walk_eq_countFolios someFlags caches_pageInFive.still (by decide) (by decide), hnone]
    rfl
  · rw [countedFolios, List.count_filterMap]
    have hfolios : largeInThree.folios = [⟨0, 1, 0x8000⟩] := by decide
    have hspan : ∀ slot ∈ List.range maxXarrayScanSlots,
        ((xaCounted (chainKernel 1 3) 0 slot 0x1000 == some 0x8000) = true ↔
          decide (slot < 64) = true) := by
      intro slot hslot
      rw [beq_iff_eq, decide_eq_true_iff, xaCounted_deep caches_largeInThree (by decide)
        (List.mem_range.mp hslot), hfolios]
      simp [Entry.stop, xaChunkSize, XArray.levels, largeInThree, maxXarrayDepth]
    rw [List.countP_congr hspan]
    decide +kernel

end LinuxMaxxing.Memory
