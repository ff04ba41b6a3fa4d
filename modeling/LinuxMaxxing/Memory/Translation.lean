import LinuxMaxxing.Lib.Paging
import LinuxMaxxing.Memory.PageWalk

/-!
# The Frames That the Page-Table Sample Names

The frame number that `walk_page_table` passes to `set_page`, beside the one of the processor's own
translation in `Lib.Paging`. The walker reads the tables through the direct map, which moves every
table by the same distance, so it ends in the same leaf (`walk_translate`).

It takes the address of a leaf with the mask of a table's: bit 12 is in it, which in a large leaf is
the PAT bit (`target_eq`). So a huge page whose memory type needs that bit gets the next frame.
-/

namespace LinuxMaxxing.Memory

open LinuxMaxxing.Lib
open LinuxMaxxing.Lib.PageTable (Step final slot stepAt final_moved)
open LinuxMaxxing.Lib.Paging (field tableOf entries leafShift IsLeaf translate frame)

/-! ## The direct map -/

/-- Physical memory as the direct map shows it. -/
def Kernel.physicalMemory (k : Kernel) (w : PtWalk) (address : BitVec 64) : BitVec 64 :=
  readU64 k ⟨w.vmaIndex, 0, 0⟩ (address + w.pageOffsetBase)

/-- Where the PGD lies in physical memory: what the processor has in CR3. -/
def PtWalk.root (w : PtWalk) : BitVec 64 := w.pgd - w.pageOffsetBase

/-- The processor's leaf for an address. -/
def PtWalk.translate (w : PtWalk) (k : Kernel) (address : BitVec 64) : Option Step :=
  Paging.translate (k.physicalMemory w) w.root address

section Walk

variable {k : Kernel} {w : PtWalk} {leaf : Step} {address : BitVec 64}

/-- `PTE_ADDRESS_MASK` leaves the address field of an entry. -/
theorem toNat_and_pteAddressMask (entry : BitVec 64) :
    (entry &&& pteAddressMask).toNat = field entry 12 52 * 4096 := by
  have hmask : pteAddressMask.toNat = (2 ^ 40 - 1) <<< 12 := rfl
  have hshift : entry.toNat &&& (2 ^ 40 - 1) <<< 12 =
      ((entry.toNat >>> 12) &&& (2 ^ 40 - 1)) <<< 12 := by
    apply Nat.eq_of_testBit_eq
    intro i
    rw [Nat.testBit_and, Nat.testBit_shiftLeft, Nat.testBit_shiftLeft, Nat.testBit_and,
      Nat.testBit_shiftRight]
    by_cases hi : 12 ≤ i
    · simp [hi]
    · simp [hi]
  rw [BitVec.toNat_and, hmask, hshift, Nat.and_two_pow_sub_one_eq_mod, Nat.shiftLeft_eq,
    Nat.shiftRight_eq_div_pow]
  rfl

theorem nextTable_eq (entry base : BitVec 64) :
    nextTable entry base = BitVec.ofNat 64 (field entry 12 52 * 4096) + base := by
  rw [nextTable, ← toNat_and_pteAddressMask, BitVec.ofNat_toNat, BitVec.setWidth_eq]

theorem readTable_physical (level : Nat) (table : BitVec 64) (slot : Nat) :
    k.table w.vmaIndex level (table + w.pageOffsetBase) slot =
      entries (k.physicalMemory w) level table slot := by
  unfold Kernel.table entries Kernel.physicalMemory
  rw [BitVec.add_assoc, BitVec.add_comm w.pageOffsetBase, ← BitVec.add_assoc]

/-- Below the PGD the walker goes on where the processor does. -/
theorem tableBelow_physical {level : Nat} (hlevel : level < pgdLevel) (entry : BitVec 64) :
    tableBelow w.pageOffsetBase level entry =
      (tableOf level entry).map (· + w.pageOffsetBase) := by
  unfold tableBelow tableOf
  simp only [hlevel, true_and]
  split
  · rw [Option.map_some, nextTable_eq]
  · rfl

/-- **The same leaf**: where the processor translates an address, the walker ends in its leaf. -/
theorem walk_translate (h : w.translate k address = some leaf) :
    (final (k.table w.vmaIndex) (tableBelow w.pageOffsetBase) (address.toNat / 4096) pgdLevel
        w.pgd).level = leaf.level ∧
      (final (k.table w.vmaIndex) (tableBelow w.pageOffsetBase) (address.toNat / 4096) pgdLevel
        w.pgd).entry = leaf.entry := by
  obtain ⟨hleaf, -, hbelow, -⟩ := Paging.translate_eq_some h
  have hpgd : w.pgd = w.root + w.pageOffsetBase := (BitVec.sub_add_cancel _ _).symm
  have hentry : (stepAt (k.table w.vmaIndex) (address.toNat / 4096) 3 w.pgd).entry =
      (stepAt (entries (k.physicalMemory w)) (address.toNat / 4096) 3 w.root).entry := by
    rw [hpgd]
    exact readTable_physical 3 w.root _
  rw [Paging.top, final] at hleaf
  rw [show pgdLevel = 2 + 1 from rfl, final, hentry]
  generalize (stepAt (entries (k.physicalMemory w)) (address.toNat / 4096) 3 w.root).entry = entry
    at hleaf
  cases hnext : tableOf (2 + 1) entry with
  | none =>
    -- nothing is mapped at the top
    rw [hnext] at hleaf
    rw [hleaf] at hbelow
    exact absurd hbelow (lt_irrefl 3)
  | some next =>
    rw [hnext] at hleaf
    obtain ⟨⟨hpresent, -⟩, hnext⟩ := (Option.ite_none_right_eq_some).mp hnext
    -- below the top both go through the same tables, the walker's behind the direct map
    rw [tableBelow_table hpresent (fun h : 2 + 1 < pgdLevel => absurd h (by decide)),
      nextTable_eq, Option.some.inj hnext, hleaf]
    exact final_moved readTable_physical
      fun level entry _ hle => tableBelow_physical (Nat.lt_succ_of_le hle) entry

/-! ## The target -/

theorem toNat_addressField (entry : BitVec 64) :
    ((entry &&& pteAddressMask) >>> 12).toNat = field entry 12 52 := by
  rw [BitVec.toNat_ushiftRight, toNat_and_pteAddressMask, Nat.shiftRight_eq_div_pow,
    Nat.mul_div_cancel _ (by decide)]

/-- The page of an address inside a large leaf. -/
theorem toNat_pageInLeaf {mask : BitVec 64} {shift : Nat} (hmask : mask.toNat = 2 ^ shift - 1)
    (address : BitVec 64) :
    ((address &&& mask) >>> 12).toNat = address.toNat % 2 ^ shift / 4096 := by
  rw [BitVec.toNat_ushiftRight, BitVec.toNat_and, hmask, Nat.and_two_pow_sub_one_eq_mod,
    Nat.shiftRight_eq_div_pow]

/-- **The target**: the frame of the leaf, and the PAT bit of a large one beside it. -/
theorem target_eq (hleaf : IsLeaf leaf) (address : BitVec 64) :
    (leafTarget leaf address).toNat =
      frame leaf address + if leaf.level = 0 then 0 else (leaf.entry.getLsbD 12).toNat := by
  have hfield := hleaf.address_field
  have hframe := Paging.frame_eq leaf address
  have hwide : field leaf.entry 12 52 < 2 ^ 40 := Nat.mod_lt _ (by decide)
  obtain ⟨hpresent, hlevel, -⟩ := hleaf
  unfold leafTarget
  rw [if_pos hpresent]
  by_cases hzero : leaf.level = 0
  -- bit 12 of a base page is an address bit, of a large leaf the PAT bit
  · rw [if_pos hzero] at hfield ⊢
    rw [if_pos hzero, toNat_addressField, hfield, hframe, hzero, leafShift]
    omega
  · have hpage : ((address &&& if leaf.level = 1 then 0x1fffff else 0x3fffffff) >>> 12).toNat =
        address.toNat % 2 ^ leafShift leaf.level / 4096 := by
      by_cases hone : leaf.level = 1
      · rw [if_pos hone, hone]
        exact toNat_pageInLeaf rfl address
      · have htwo : leaf.level = 2 := by
          have htop : leaf.level < 3 := hlevel
          omega
        rw [if_neg hone, htwo]
        exact toNat_pageInLeaf rfl address
    -- the sum of the field and the page stays below 2^64
    have hsmall : address.toNat % 2 ^ leafShift leaf.level / 4096 < 2 ^ 52 := by
      have hmod := Nat.mod_le address.toNat (2 ^ leafShift leaf.level)
      have hlt := address.isLt
      omega
    rw [if_neg hzero] at hfield ⊢
    rw [if_neg hzero, BitVec.toNat_add, toNat_addressField, hpage, Nat.mod_eq_of_lt (by omega),
      hframe, hfield]
    omega

/-- What the record calls a leaf of this level. -/
def leafName (level : Nat) : BitVec 8 :=
  if level = 0 then mmPagePte else if level = 1 then mmPageHugePmd else mmPageHugePud

/-- **The walker and the processor**: for an address that maps through a leaf, the walker finds a
    leaf of its size, and the frame of the address beside the PAT bit. -/
theorem pageLeaf_translate (hstill : k.Still w.vmaIndex) (h : w.translate k address = some leaf)
    (index : Nat) :
    (pageLeaf k w index address).1 = leafName leaf.level ∧
      (pageLeaf k w index address).2.1.toNat =
        frame leaf address + if leaf.level = 0 then 0 else (leaf.entry.getLsbD 12).toNat := by
  obtain ⟨hlevel, hentry⟩ := walk_translate h
  have hleaf := (Paging.translate_eq_some h).2
  rw [pageLeaf_final hstill]
  constructor
  · simp only [leafState, hlevel, hentry, hleaf.1, if_true, leafName]
  · rw [← target_eq hleaf]
    simp only [leafTarget, hlevel, hentry]

/-- The frame that `walk_page_table` passes to `set_page` for a sampled address is the processor's
    exactly if the address maps through a base page or the PAT bit of its large leaf is clear. -/
theorem target_eq_frame_iff (hstill : k.Still w.vmaIndex) {index : Nat} {pt : PageTable}
    (hsampled : (walkPageTable k w index pt).2 = false)
    (h : w.translate k (w.start + BitVec.ofNat 64 index * pageSize) = some leaf) :
    let passed := pageLeaf k w index (w.start + BitVec.ofNat 64 index * pageSize)
    (walkPageTable k w index pt).1 = setPage pt index passed.1 passed.2.1 passed.2.2 ∧
      passed.1 = leafName leaf.level ∧
      (passed.2.1.toNat = frame leaf (w.start + BitVec.ofNat 64 index * pageSize) ↔
        leaf.level = 0 ∨ leaf.entry.getLsbD 12 = false) := by
  intro passed
  obtain ⟨hname, htarget⟩ := pageLeaf_translate hstill h index
  refine ⟨?_, hname, ?_⟩
  · unfold walkPageTable at hsampled ⊢
    simp only at hsampled ⊢
    split at hsampled
    · cases hsampled
    · next hgo => rw [if_neg hgo]
  · show (pageLeaf _ _ _ _).2.1.toNat = _ ↔ _
    rw [htarget]
    by_cases hzero : leaf.level = 0
    · simp [hzero]
    · cases leaf.entry.getLsbD 12 <;> simp [hzero]

end Walk

/-! ## Huge pages -/

/-- A walk for the two pages behind 2 MiB - 4 KiB in `someTables`. -/
def someWalk : PtWalk where
  start := 0x1ff000
  stop := 0x201000
  pgd := 0x1000
  pageOffsetBase := 0
  pages := 2
  vmaIndex := 0

/-- The last page of the huge leaf at frame 0. -/
theorem target_eq_frame_iff_huge :
    (pageLeaf someTables someWalk 0 0x1ff000).2.1.toNat = 511 := by
  have hstill : someTables.Still someWalk.vmaIndex := fun _ _ _ _ => rfl
  have hsampled : (walkPageTable someTables someWalk 0 clearedRecord.pt).2 = false := by decide
  have htranslate : someWalk.translate someTables
      (someWalk.start + BitVec.ofNat 64 0 * pageSize) = some ⟨1, 0x3000, 0xc1⟩ := by decide
  obtain ⟨-, -, hiff⟩ := target_eq_frame_iff hstill hsampled htranslate
  exact (hiff.mpr (.inr (by decide))).trans (by decide)

/-- A huge leaf whose memory type needs the PAT bit, at 2 MiB of physical memory. -/
def patTables : Kernel where
  read _ member address :=
    match member, address.toNat with
    | .word, 0x1000 => 0x2001
    | .word, 0x2000 => 0x3001
    | .word, 0x3000 => 0x201083
    | _, _ => 0
  string _ _ := none

/-- **The defect**: the last page of it gets the frame behind the leaf. -/
theorem target_pat_bit :
    ¬ ∀ (k : Kernel) (w : PtWalk) (index : Nat) (pt : PageTable) (leaf : Step),
      k.Still w.vmaIndex → (walkPageTable k w index pt).2 = false →
      w.translate k (w.start + BitVec.ofNat 64 index * pageSize) = some leaf →
      (pageLeaf k w index (w.start + BitVec.ofNat 64 index * pageSize)).2.1.toNat =
        frame leaf (w.start + BitVec.ofNat 64 index * pageSize) := by
  intro hall
  have hsampled : (walkPageTable patTables someWalk 0 clearedRecord.pt).2 = false := by decide
  have hframe := hall patTables someWalk 0 clearedRecord.pt ⟨1, 0x3000, 0x201083⟩
    (fun _ _ _ _ => rfl) hsampled (by decide)
  exact absurd hframe (by decide)

end LinuxMaxxing.Memory
