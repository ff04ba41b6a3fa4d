import LinuxMaxxing.Lib.PageTable

/-!
# Address Translation of x86-64

What the processor makes of tables of four levels: an entry of a table below the top may be a leaf
for 2 MiB or 1 GiB, and its address then begins above the bits that the leaf's own pages need. Bit 12
of such a leaf is the PAT bit, the others below the address are reserved, and a walk that meets a
reserved bit faults, as it does at an entry that is not present.

Physical addresses may have up to 52 bits. A processor with fewer address bits faults
at more entries, and translates the others to the same frames.
-/

namespace LinuxMaxxing.Lib.Paging

open LinuxMaxxing.Lib.PageTable

/-- The bits of an entry from `lo` up to `hi`, `hi` excluded. -/
def field (entry : BitVec 64) (lo hi : Nat) : Nat := entry.toNat / 2 ^ lo % 2 ^ (hi - lo)

/-- The table that an entry leads to. Bit 7 marks a leaf; at the top it is reserved. -/
def tableOf (_level : Nat) (entry : BitVec 64) : Option (BitVec 64) :=
  if entry.getLsbD 0 ∧ ¬ entry.getLsbD 7 then some (BitVec.ofNat 64 (field entry 12 52 * 4096))
  else none

/-- The entries of a table in physical memory. -/
def entries (memory : BitVec 64 → BitVec 64) (_level : Nat) (table : BitVec 64) (slot : Nat) :
    BitVec 64 :=
  memory (table + BitVec.ofNat 64 (slot * 8))

/-- The bits of an address that a leaf of this level leaves alone. -/
def leafShift (level : Nat) : Nat := 12 + 9 * level

/-- The level of the tables in which a walk begins. -/
def top : Nat := 3

/-- A leaf: present, below the top, and none of its reserved bits is set. -/
def IsLeaf (leaf : Step) : Prop :=
  leaf.entry.getLsbD 0 = true ∧ leaf.level < top ∧ field leaf.entry 13 (leafShift leaf.level) = 0

instance (leaf : Step) : Decidable (IsLeaf leaf) := inferInstanceAs (Decidable (_ ∧ _ ∧ _))

/-- The leaf through which an address maps. -/
def translate (memory : BitVec 64 → BitVec 64) (root address : BitVec 64) : Option Step :=
  let leaf := final (entries memory) tableOf (address.toNat / 4096) top root
  if IsLeaf leaf then some leaf else none

/-- The physical address that a leaf gives to an address. -/
def physical (leaf : Step) (address : BitVec 64) : Nat :=
  field leaf.entry (leafShift leaf.level) 52 * 2 ^ leafShift leaf.level +
    address.toNat % 2 ^ leafShift leaf.level

/-- Its frame. -/
def frame (leaf : Step) (address : BitVec 64) : Nat := physical leaf address / 4096

/-! ## Fields -/

section Fields

variable {entry : BitVec 64}

/-- The bits of a field from one in its middle on, and those before it. -/
theorem field_split {lo mid hi : Nat} (hlo : lo ≤ mid) (hhi : mid ≤ hi) :
    field entry lo hi = field entry lo mid + 2 ^ (mid - lo) * field entry mid hi := by
  obtain ⟨a, rfl⟩ := Nat.exists_eq_add_of_le hlo
  obtain ⟨b, rfl⟩ := Nat.exists_eq_add_of_le hhi
  unfold field
  rw [Nat.add_assoc lo a b, Nat.add_sub_cancel_left, Nat.add_sub_cancel_left, ← Nat.add_assoc,
    Nat.add_sub_cancel_left, Nat.pow_add 2 a b, Nat.mod_mul, Nat.pow_add 2 lo a,
    Nat.div_div_eq_div_mul]

/-- A field of one bit. -/
theorem field_bit (i : Nat) : field entry i (i + 1) = (entry.getLsbD i).toNat := by
  rw [field, Nat.add_sub_cancel_left, BitVec.getLsbD, Nat.toNat_testBit, Nat.pow_one]

end Fields

/-! ## Translation -/

section Translate

variable {memory : BitVec 64 → BitVec 64} {root address : BitVec 64} {leaf : Step}

theorem translate_eq_some (h : translate memory root address = some leaf) :
    leaf = final (entries memory) tableOf (address.toNat / 4096) top root ∧ IsLeaf leaf := by
  simp only [translate, Option.ite_none_right_eq_some, Option.some.injEq] at h
  obtain ⟨hleaf, rfl⟩ := h
  exact ⟨rfl, hleaf⟩

/-- The frames of a leaf lie one behind the other. -/
theorem frame_eq (leaf : Step) (address : BitVec 64) :
    frame leaf address = 2 ^ (9 * leaf.level) * field leaf.entry (leafShift leaf.level) 52 +
      address.toNat % 2 ^ leafShift leaf.level / 4096 := by
  have hshift : 2 ^ leafShift leaf.level = 4096 * 2 ^ (9 * leaf.level) := by
    rw [leafShift, Nat.pow_add]
  unfold frame physical
  rw [hshift, ← Nat.mul_assoc, Nat.mul_comm _ 4096, Nat.mul_assoc, Nat.mul_comm (field _ _ _),
    Nat.mul_add_div (by decide)]

/-- What bits 12 to 51 of a leaf are: its address, and below that the PAT bit of a large leaf. -/
theorem IsLeaf.address_field (h : IsLeaf leaf) :
    field leaf.entry 12 52 = 2 ^ (9 * leaf.level) * field leaf.entry (leafShift leaf.level) 52 +
      if leaf.level = 0 then 0 else (leaf.entry.getLsbD 12).toNat := by
  obtain ⟨-, hlevel, hreserved⟩ := h
  by_cases hzero : leaf.level = 0
  · rw [hzero, if_pos rfl, leafShift, Nat.mul_zero, Nat.pow_zero, Nat.one_mul, Nat.add_zero]
  · have htop : leaf.level < 3 := hlevel
    have hmid : 13 ≤ leafShift leaf.level := by unfold leafShift; omega
    have hhi : leafShift leaf.level ≤ 52 := by unfold leafShift; omega
    rw [if_neg hzero, field_split (show 12 ≤ 13 by decide) (by decide), field_bit,
      field_split hmid hhi, hreserved, Nat.zero_add,
      ← Nat.mul_assoc, ← Nat.pow_add, Nat.add_comm]
    congr 3
    unfold leafShift
    omega

end Translate

end LinuxMaxxing.Lib.Paging
