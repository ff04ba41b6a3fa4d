import LinuxMaxxing.Lib.PageTable
import LinuxMaxxing.VirtEpt.Callbacks

/-!
# The EPT Walk of a Sampled Guest Frame

`walk_gfn` has four rounds and makes all of them: after the MMIO marker, an entry that is not
present or a leaf it goes on without a table, and a round without a table writes an empty
entry. The reference is the recursive walk of `Lib.PageTable`, which ends there.

EPT level `n` is level `n - 1` of the reference; the rounds go from level 4 down.

- `walkLevel_eq`: all that one round does
- `walkRounds_walked`: what the rounds from a level on leave, for any table
- `walkGfn_reference`: the record against the reference walk
-/

namespace LinuxMaxxing.VirtEpt

open LinuxMaxxing.Lib
open LinuxMaxxing.Lib.PageTable (Step slot slotAddress stepAt walk final toNat_slotBits
  walk_getLast final_level_le exists_mem_walk eq_final_or_down)

/-! ## The reference walk -/

/-- KVM's marker of emulated MMIO. -/
def IsMmio (spte : BitVec 64) : Prop := spte ≠ 0 ∧ spte &&& eptMmioMask = eptMmioValue

/-- The hardware uses the entry. -/
def IsPresent (spte : BitVec 64) : Prop :=
  ¬ IsMmio spte ∧ spte &&& (eptRead ||| eptWrite ||| eptExec) ≠ 0

/-- The entry maps memory. -/
def IsLeaf (level : Nat) (spte : BitVec 64) : Prop :=
  IsPresent spte ∧ (level = 0 ∨ spte &&& eptLarge ≠ 0)

instance (spte : BitVec 64) : Decidable (IsMmio spte) := inferInstanceAs (Decidable (_ ∧ _))
instance (spte : BitVec 64) : Decidable (IsPresent spte) := inferInstanceAs (Decidable (_ ∧ _))
instance (level : Nat) (spte : BitVec 64) : Decidable (IsLeaf level spte) :=
  inferInstanceAs (Decidable (_ ∧ _))

/-- What a slot of a table holds when the walk of a sample comes to it. At address 0 there is
    no table. -/
def Call.slotAt (c : Call) (sample level : Nat) (table : BitVec 64) (slot : Nat) : BitVec 64 :=
  if table ≠ 0 then
    readU64 c ⟨sample, eptLevels - 1 - level⟩ .spte (table + BitVec.ofNat 64 (slot * 8))
  else 0

/-- The table that a present entry leads to, unless it is a leaf. -/
def Call.tableBelow (c : Call) (sample level : Nat) (spte : BitVec 64) : Option (BitVec 64) :=
  if IsPresent spte ∧ ¬ IsLeaf level spte then
    some (hpaToDirectMap c ⟨sample, eptLevels - level⟩ (spte &&& spteAddressMask))
  else none

/-- The table at the root; 0 and all ones are no root. -/
def Call.rootTable (c : Call) (sample : Nat) (rootHpa : BitVec 64) : BitVec 64 :=
  if rootHpa ≠ 0 ∧ rootHpa ≠ ~~~0 then hpaToDirectMap c ⟨sample, 0⟩ rootHpa else 0

/-- The guest physical address of a sample. -/
def sampleGpa (sample : Nat) : BitVec 64 := sampledGfn sample <<< pageShift

/-- The entries that the reference walk reads. -/
def eptWalk (c : Call) (sample : Nat) (rootHpa : BitVec 64) : List Step :=
  walk (c.slotAt sample) (c.tableBelow sample) ((sampleGpa sample).toNat / 4096) (eptLevels - 1)
    (c.rootTable sample rootHpa)

/-- The entry in which it ends. -/
def eptFinal (c : Call) (sample : Nat) (rootHpa : BitVec 64) : Step :=
  final (c.slotAt sample) (c.tableBelow sample) ((sampleGpa sample).toNat / 4096) (eptLevels - 1)
    (c.rootTable sample rootHpa)

/-! ## One round -/

/-- The round that writes the entry of a level. -/
def round (level : Nat) : Fin eptLevels := ⟨eptLevels - 1 - level, by
  have hlevels : eptLevels = 4 := rfl
  omega⟩

/-- The record of an entry of a level. -/
def entryOf (gpa : BitVec 64) (level : Nat) (spte tableHpa : BitVec 64) : EntryRecord :=
  { walkEntry spte tableHpa (eptIndex gpa (level + 1)) (level + 1) with
    leaf := flag (IsLeaf level spte) }

theorem round_ne {level level' : Nat} (h : level < level') (h' : level' < eptLevels) :
    round level ≠ round level' := by
  intro heq
  have hval : eptLevels - 1 - level = eptLevels - 1 - level' := congrArg Fin.val heq
  omega

theorem flag_ne_zero (b : Bool) : flag b ≠ 0 ↔ b = true := by
  cases b <;> decide

theorem flag_eq_one (b : Bool) : flag b = 1 ↔ b = true := by
  cases b <;> decide

/-- **The index**: the nine bits of the address that belong to the level. -/
theorem eptIndex_toNat (gpa : BitVec 64) {level : Nat} (hlevel : level < eptLevels) :
    (eptIndex gpa (level + 1)).toNat = slot (gpa.toNat / 4096) level := by
  have hbits : eptIndex gpa (level + 1) =
      ((gpa >>> (12 + 9 * level)) &&& 0x1ff).setWidth 16 := by
    have hlevels : eptLevels = 4 := rfl
    rw [hlevels] at hlevel
    interval_cases level <;> rfl
  have hlt : slot (gpa.toNat / 4096) level < 512 := Nat.mod_lt _ (by decide)
  rw [hbits, BitVec.toNat_setWidth, toNat_slotBits]
  omega

theorem entryOf_inner {gpa spte tableHpa : BitVec 64} {level : Nat} (h : ¬ IsLeaf level spte) :
    entryOf gpa level spte tableHpa =
      walkEntry spte tableHpa (eptIndex gpa (level + 1)) (level + 1) := by
  unfold entryOf
  rw [decide_eq_false h]
  rfl

theorem mmio_ne_zero_iff {spte tableHpa : BitVec 64} {index : BitVec 16} {n : Nat} :
    (walkEntry spte tableHpa index n).mmio ≠ 0 ↔ IsMmio spte :=
  (flag_ne_zero _).trans decide_eq_true_iff

theorem present_eq_zero_iff {spte tableHpa : BitVec 64} {index : BitVec 16} {n : Nat} :
    (walkEntry spte tableHpa index n).present = 0 ↔ ¬ IsPresent spte :=
  not_iff_not.mp ((flag_ne_zero _).trans (decide_eq_true_iff.trans not_not.symm))

/-- **The entry** that a round reads is the one of the reference walk; without a table it is 0. -/
theorem readU64_eq (c : Call) (sample : Nat) (gpa : BitVec 64) (w : Walk) {level : Nat}
    (hlevel : level < eptLevels) :
    (if w.table ≠ 0 then
      readU64 c ⟨sample, round level⟩ .spte
        (w.table + (eptIndex gpa (level + 1)).setWidth 64 * 8) else 0) =
      (stepAt (c.slotAt sample) (gpa.toNat / 4096) level w.table).entry := by
  have haddress : (eptIndex gpa (level + 1)).setWidth 64 * 8 =
      BitVec.ofNat 64 (slot (gpa.toNat / 4096) level * 8) := by
    have hindex := eptIndex_toNat gpa hlevel
    have hlt : slot (gpa.toNat / 4096) level < 512 := Nat.mod_lt _ (by decide)
    apply BitVec.eq_of_toNat_eq
    rw [BitVec.toNat_mul, BitVec.toNat_setWidth, hindex, BitVec.toNat_ofNat]
    show slot (gpa.toNat / 4096) level % 2 ^ 64 * 8 % 2 ^ 64 = _
    omega
  rw [haddress]
  rfl

/-- **One round**: the entry of its level, and the table of the next. -/
theorem walkLevel_eq (c : Call) (sample : Nat) (gpa : BitVec 64) (w : Walk) {level : Nat}
    (hlevel : level < eptLevels) :
    walkLevel c sample gpa w (round level) =
      let spte := (stepAt (c.slotAt sample) (gpa.toNat / 4096) level w.table).entry
      { record :=
          { w.record with
            entries := Function.update w.record.entries (round level)
              (entryOf gpa level spte w.tableHpa)
            eptMapped := if IsLeaf level spte then 1 else w.record.eptMapped
            eptMmio := if IsMmio spte then 1 else w.record.eptMmio
            leafLevel :=
              if IsLeaf level spte then BitVec.ofNat 8 (level + 1) else w.record.leafLevel
            leafPfn :=
              if IsLeaf level spte then eptLeafPfn spte gpa (level + 1) else w.record.leafPfn }
        tableHpa := if (c.tableBelow sample level spte).isSome then spte &&& spteAddressMask else 0
        table := (c.tableBelow sample level spte).getD 0 } := by
  have hnumber : eptLevels - (round level : Nat) = level + 1 := by
    show eptLevels - (eptLevels - 1 - level) = level + 1
    omega
  have hnext : (round level : Nat) + 1 = eptLevels - level := by
    show eptLevels - 1 - level + 1 = eptLevels - level
    omega
  have hread := readU64_eq c sample gpa w hlevel
  unfold walkLevel
  simp only [hnumber, hread, hnext]
  generalize (stepAt (c.slotAt sample) (gpa.toNat / 4096) level w.table).entry = spte
  by_cases hmmio : IsMmio spte
  -- an MMIO entry ends the walk before it is asked whether it is present
  · have hleaf : ¬ IsLeaf level spte := fun h => h.1.1 hmmio
    have hbelow : c.tableBelow sample level spte = none := if_neg fun h => h.1.1 hmmio
    rw [if_pos (mmio_ne_zero_iff.mpr hmmio), hbelow, entryOf_inner hleaf]
    simp only [if_neg hleaf, if_pos hmmio]
    rfl
  · rw [if_neg (fun h => hmmio (mmio_ne_zero_iff.mp h))]
    by_cases hpresent : IsPresent spte
    · rw [if_neg (fun h => present_eq_zero_iff.mp h hpresent)]
      by_cases hleaf : IsLeaf level spte
      · have hend : level + 1 = 1 ∨ spte &&& eptLarge ≠ 0 := hleaf.2.imp_left (congrArg (· + 1))
        have hbelow : c.tableBelow sample level spte = none := if_neg fun h => h.2 hleaf
        rw [if_pos hend, hbelow, entryOf, decide_eq_true hleaf]
        simp only [if_pos hleaf, if_neg hmmio]
        rfl
      -- a table: only here the walk goes on
      · have hend : ¬ (level + 1 = 1 ∨ spte &&& eptLarge ≠ 0) :=
          fun h => hleaf ⟨hpresent, h.imp_left Nat.succ.inj⟩
        have hbelow : c.tableBelow sample level spte = some _ := if_pos ⟨hpresent, hleaf⟩
        rw [if_neg hend, hbelow, entryOf_inner hleaf]
        simp only [if_neg hleaf, if_neg hmmio]
        rfl
    · have hleaf : ¬ IsLeaf level spte := fun h => hpresent h.1
      have hbelow : c.tableBelow sample level spte = none := if_neg fun h => hpresent h.1
      rw [if_pos (present_eq_zero_iff.mpr hpresent), hbelow, entryOf_inner hleaf]
      simp only [if_neg hleaf, if_neg hmmio]
      rfl

/-! ## All rounds -/

/-- The rounds from a level on down. -/
def walkRounds (c : Call) (sample : Nat) (gpa : BitVec 64) : Nat → Walk → Walk
  | 0, w => walkLevel c sample gpa w (round 0)
  | level + 1, w => walkRounds c sample gpa level (walkLevel c sample gpa w (round (level + 1)))

/-- The walk before its first round. -/
def walkStart (c : Call) (sample : Nat) (rootHpa : BitVec 64) (record : GuestGfn) : Walk where
  record :=
    { record with
      gfn := sampledGfn sample
      gva := sampleGpa sample
      gpa := sampleGpa sample
      eptMapped := 0
      eptMmio := 0
      leafLevel := 0
      leafPfn := 0 }
  tableHpa := rootHpa
  table := c.rootTable sample rootHpa

theorem walkGfn_rounds (c : Call) (sample : Nat) (rootHpa : BitVec 64) (record : GuestGfn) :
    walkGfn c sample rootHpa record =
      (walkRounds c sample (sampleGpa sample) (eptLevels - 1)
        (walkStart c sample rootHpa record)).record := by
  have hfour : ∀ (f : Walk → Fin 4 → Walk) w, Fin.foldl 4 f w = f (f (f (f w 0) 1) 2) 3 := by
    intro f w
    simp only [Fin.foldl_succ, Fin.foldl_zero]
    rfl
  exact congrArg Walk.record (hfour (walkLevel c sample (sampleGpa sample))
    (walkStart c sample rootHpa record))

section Rounds

variable {c : Call} {sample : Nat} {gpa : BitVec 64}

variable (c sample gpa) in
/-- What the rounds from a level on down leave of a record, when the walk of its table reads
    `steps` and ends in `last`. -/
structure Walked (level : Nat) (w : Walk) (steps : List Step) (last : Step) (r : GuestGfn) :
    Prop where
  mapped : r.eptMapped = if IsLeaf last.level last.entry then 1 else w.record.eptMapped
  mmio : r.eptMmio = if IsMmio last.entry then 1 else w.record.eptMmio
  leafLevel : r.leafLevel =
    if IsLeaf last.level last.entry then BitVec.ofNat 8 (last.level + 1) else w.record.leafLevel
  leafPfn : r.leafPfn =
    if IsLeaf last.level last.entry then eptLeafPfn last.entry gpa (last.level + 1)
    else w.record.leafPfn
  above : ∀ l, level < l → l < eptLevels → r.entries (round l) = w.record.entries (round l)
  first : r.entries (round level) = entryOf gpa level
    (stepAt (c.slotAt sample) (gpa.toNat / 4096) level w.table).entry w.tableHpa
  steps : ∀ s ∈ steps, ∃ hpa, r.entries (round s.level) = entryOf gpa s.level s.entry hpa
  tables : ∀ l < level, last.level ≤ l →
    (r.entries (round l)).tableHpa = (r.entries (round (l + 1))).spte &&& spteAddressMask
  below : ∀ l < last.level, r.entries (round l) = entryOf gpa l 0 0

theorem not_isMmio_zero : ¬ IsMmio 0 := fun h => h.1 rfl

theorem not_isLeaf_zero (level : Nat) : ¬ IsLeaf level 0 := fun h => h.1.2 BitVec.zero_and

theorem stepAt_null (page level : Nat) : (stepAt (c.slotAt sample) page level 0).entry = 0 := by
  show c.slotAt sample level 0 (slot page level) = 0
  exact if_neg fun h => h rfl

theorem tableBelow_zero (level : Nat) : c.tableBelow sample level 0 = none :=
  if_neg fun h => h.1.2 BitVec.zero_and

theorem tableBelow_eq_some {level : Nat} {spte next : BitVec 64}
    (h : c.tableBelow sample level spte = some next) : IsPresent spte ∧ ¬ IsLeaf level spte := by
  by_contra hnone
  rw [Call.tableBelow, if_neg hnone] at h
  exact Option.some_ne_none _ h.symm

/-- Without a table the walk ends at once. -/
theorem final_null (page level : Nat) :
    final (c.slotAt sample) (c.tableBelow sample) page level 0 =
      stepAt (c.slotAt sample) page level 0 := by
  cases level with
  | zero => rfl
  | succ level =>
    rw [final, stepAt_null, tableBelow_zero]

/-- The rounds without a table add empty entries and nothing else. -/
theorem Walked.of_null {level : Nat} {w : Walk} {steps : List Step} {r : GuestGfn}
    (htable : w.table = 0) (hhpa : w.tableHpa = 0)
    (h : Walked c sample gpa level w steps
      (final (c.slotAt sample) (c.tableBelow sample) (gpa.toNat / 4096) level w.table) r) :
    r.eptMapped = w.record.eptMapped ∧ r.eptMmio = w.record.eptMmio ∧
      r.leafLevel = w.record.leafLevel ∧ r.leafPfn = w.record.leafPfn ∧
      ∀ l < level + 1, r.entries (round l) = entryOf gpa l 0 0 := by
  obtain ⟨hmapped, hmmio, hleafLevel, hleafPfn, -, hfirst, -, -, hbelow⟩ := h
  rw [htable, final_null, stepAt_null] at hmapped hmmio hleafLevel hleafPfn
  rw [htable, final_null] at hbelow
  rw [htable, stepAt_null, hhpa] at hfirst
  rw [if_neg (not_isLeaf_zero _)] at hmapped hleafLevel hleafPfn
  rw [if_neg not_isMmio_zero] at hmmio
  refine ⟨hmapped, hmmio, hleafLevel, hleafPfn, fun l hl => ?_⟩
  rcases Nat.lt_succ_iff_lt_or_eq.mp hl with hlt | rfl
  · exact hbelow l hlt
  · exact hfirst

/-- **The run**: the rounds leave what the walk of the table tells, for any table that they
    have reached. -/
theorem walkRounds_walked {level : Nat} (hlevel : level < eptLevels) (w : Walk) :
    Walked c sample gpa level w
      (walk (c.slotAt sample) (c.tableBelow sample) (gpa.toNat / 4096) level w.table)
      (final (c.slotAt sample) (c.tableBelow sample) (gpa.toNat / 4096) level w.table)
      (walkRounds c sample gpa level w).record := by
  induction level generalizing w with
  | zero =>
    rw [walkRounds, walkLevel_eq c sample gpa w hlevel, PageTable.walk, final]
    have hentry := fun entry => Function.update_self (round 0) entry w.record.entries
    refine ⟨rfl, rfl, rfl, rfl, ?_, hentry _, ?_, ?_, ?_⟩
    · intro l hl hl'
      exact Function.update_of_ne (round_ne hl hl').symm _ _
    · intro s hs
      obtain rfl := List.mem_singleton.mp hs
      exact ⟨_, hentry _⟩
    · intro l hl
      exact absurd hl (Nat.not_lt_zero l)
    · intro l hl
      exact absurd hl (Nat.not_lt_zero l)
  | succ level ih =>
    rw [walkRounds, PageTable.walk, final]
    have hround := walkLevel_eq c sample gpa w hlevel
    simp only at hround
    generalize walkLevel c sample gpa w (round (level + 1)) = w' at hround ⊢
    generalize hstep : stepAt (c.slotAt sample) (gpa.toNat / 4096) (level + 1) w.table = step
      at hround ⊢
    have hstepLevel : step.level = level + 1 := by rw [← hstep]; rfl
    have hih := ih (Nat.lt_of_succ_lt hlevel) w'
    -- the later rounds leave the entry of this one and those above it alone
    have hentry : (walkRounds c sample gpa level w').record.entries (round (level + 1)) =
        entryOf gpa (level + 1) step.entry w.tableHpa := by
      rw [hih.above (level + 1) (Nat.lt_succ_self level) hlevel, hround]
      exact Function.update_self ..
    have habove : ∀ l, level + 1 < l → l < eptLevels →
        (walkRounds c sample gpa level w').record.entries (round l) =
          w.record.entries (round l) := by
      intro l hl hl'
      rw [hih.above l (Nat.lt_of_succ_lt hl) hl', hround]
      exact Function.update_of_ne (round_ne hl hl').symm _ _
    cases hdown : c.tableBelow sample (level + 1) step.entry with
    | none =>
      -- the walk ends here, and the rounds below have no table
      have htable : w'.table = 0 := by rw [hround, hdown]; rfl
      have hhpa : w'.tableHpa = 0 := by rw [hround, hdown]; rfl
      obtain ⟨hmapped, hmmio, hleafLevel, hleafPfn, hbelow⟩ := hih.of_null htable hhpa
      refine ⟨?_, ?_, ?_, ?_, habove, ?_, ?_, ?_, ?_⟩
      · rw [hmapped, hround, hstepLevel]
      · rw [hmmio, hround]
      · rw [hleafLevel, hround, hstepLevel]
      · rw [hleafPfn, hround, hstepLevel]
      · rw [hentry, hstep]
      · intro s hs
        obtain rfl := List.mem_singleton.mp hs
        rw [hstepLevel]
        exact ⟨_, hentry⟩
      · intro l hl hle
        exact absurd hle (by rw [hstepLevel]; omega)
      · intro l hl
        rw [hstepLevel] at hl
        exact hbelow l hl
    | some next =>
      have htable : w'.table = next := by rw [hround, hdown]; rfl
      have hhpa : w'.tableHpa = step.entry &&& spteAddressMask := by rw [hround, hdown]; rfl
      obtain ⟨hpresent, hleaf⟩ := tableBelow_eq_some hdown
      have hmmio : ¬ IsMmio step.entry := hpresent.1
      have hkept : w'.record.eptMapped = w.record.eptMapped ∧
          w'.record.eptMmio = w.record.eptMmio ∧ w'.record.leafLevel = w.record.leafLevel ∧
          w'.record.leafPfn = w.record.leafPfn := by
        rw [hround]
        exact ⟨if_neg hleaf, if_neg hmmio, if_neg hleaf, if_neg hleaf⟩
      rw [htable] at hih
      refine ⟨?_, ?_, ?_, ?_, habove, ?_, ?_, ?_, hih.below⟩
      · rw [hih.mapped, hkept.1]
      · rw [hih.mmio, hkept.2.1]
      · rw [hih.leafLevel, hkept.2.2.1]
      · rw [hih.leafPfn, hkept.2.2.2]
      · rw [hentry, hstep]
      · intro s hs
        rcases List.mem_cons.mp hs with rfl | hs
        · rw [hstepLevel]
          exact ⟨_, hentry⟩
        · exact hih.steps s hs
      · intro l hl hle
        rcases Nat.lt_succ_iff_lt_or_eq.mp hl with hlt | rfl
        · exact hih.tables l hlt hle
        · -- the table of the next round is the one that this entry holds
          rw [hih.first, hentry, hhpa]
          show step.entry &&& spteAddressMask &&& spteAddressMask = step.entry &&& spteAddressMask
          rw [BitVec.and_assoc, BitVec.and_self]

end Rounds

/-! ## The record -/

/-- The frame of a leaf and the offset of the address in it, counted in pages. -/
theorem eptLeafPfn_toNat (spte gpa : BitVec 64) {level : Nat} (hlevel : level < eptLevels) :
    (eptLeafPfn spte gpa (level + 1)).toNat =
      (spte &&& spteAddressMask).toNat / 4096 + gpa.toNat / 4096 % 512 ^ level := by
  have hlevels : eptLevels = 4 := rfl
  rw [hlevels] at hlevel
  have hmask : ((1 : BitVec 64) <<< (pageShift + 9 * (level + 1 - 1)) - 1).toNat =
      2 ^ (12 + 9 * level) - 1 := by
    interval_cases level <;> rfl
  have hoffset : (gpa &&& ((1 : BitVec 64) <<< (pageShift + 9 * (level + 1 - 1)) - 1)).toNat / 4096 =
      gpa.toNat / 4096 % 512 ^ level := by
    rw [BitVec.toNat_and, hmask, Nat.and_two_pow_sub_one_eq_mod, Nat.pow_add, Nat.pow_mul]
    exact Nat.mod_mul_right_div_self ..
  have hbase : (spte &&& spteAddressMask).toNat < 2 ^ 52 := by
    rw [BitVec.toNat_and]
    exact Nat.lt_of_le_of_lt Nat.and_le_right (by decide)
  have hsmall : gpa.toNat / 4096 % 512 ^ level < 2 ^ 27 := by
    have hlt : gpa.toNat / 4096 % 512 ^ level < 512 ^ level :=
      Nat.mod_lt _ (Nat.pow_pos (by decide))
    have hpow : 512 ^ level ≤ 512 ^ 3 := Nat.pow_le_pow_right (by decide) (by omega)
    omega
  have hpages : ∀ x : BitVec 64, (x >>> pageShift).toNat = x.toNat / 4096 := fun x => by
    rw [BitVec.toNat_ushiftRight, Nat.shiftRight_eq_div_pow]
    rfl
  unfold eptLeafPfn
  simp only
  rw [BitVec.toNat_add, hpages]
  by_cases hlarge : 1 < level + 1
  · rw [if_pos hlarge, hpages, hoffset]
    omega
  · obtain rfl : level = 0 := by omega
    rw [if_neg hlarge, Nat.pow_zero, Nat.mod_one]
    show ((spte &&& spteAddressMask).toNat / 4096 + 0) % 2 ^ 64 = _
    omega

section Record

variable {c : Call} {sample : Nat} {rootHpa : BitVec 64} {record : GuestGfn}

/-- Leaves and MMIO markers end the walk. -/
theorem eq_eptFinal {s : Step} (hs : s ∈ eptWalk c sample rootHpa)
    (hend : IsLeaf s.level s.entry ∨ IsMmio s.entry) : s = eptFinal c sample rootHpa := by
  rcases eq_final_or_down hs with heq | ⟨-, next, hnext⟩
  · exact heq
  · obtain ⟨hpresent, hleaf⟩ := tableBelow_eq_some hnext
    rcases hend with h | h
    · exact absurd h hleaf
    · exact absurd h hpresent.1

theorem eptFinal_mem : eptFinal c sample rootHpa ∈ eptWalk c sample rootHpa :=
  List.mem_of_getLast? walk_getLast

theorem eptFinal_level_lt : (eptFinal c sample rootHpa).level < eptLevels :=
  Nat.lt_of_le_of_lt final_level_le (by decide)

/-- Only the end of the walk is on the level where it ends. -/
theorem eq_eptFinal_of_level {s : Step} (hs : s ∈ eptWalk c sample rootHpa)
    (heq : s.level = (eptFinal c sample rootHpa).level) : s = eptFinal c sample rootHpa :=
  (eq_final_or_down hs).elim id fun h => absurd heq h.1.ne'

theorem eptFinal_level_le {s : Step} (hs : s ∈ eptWalk c sample rootHpa) :
    (eptFinal c sample rootHpa).level ≤ s.level :=
  (eq_final_or_down hs).elim (fun h => h ▸ le_rfl) fun h => h.1.le

/-- All four rounds. -/
theorem walkGfn_walked (c : Call) (sample : Nat) (rootHpa : BitVec 64) (record : GuestGfn) :
    Walked c sample (sampleGpa sample) (eptLevels - 1) (walkStart c sample rootHpa record)
      (eptWalk c sample rootHpa) (eptFinal c sample rootHpa)
      (walkGfn c sample rootHpa record) := by
  rw [walkGfn_rounds]
  exact walkRounds_walked (by decide) _

theorem one_iff_of_ite {p : Prop} [Decidable p] {v : BitVec 8} (h : v = if p then 1 else 0) :
    v = 1 ↔ p := by
  rw [h]
  by_cases hp : p
  · rw [if_pos hp]
    exact iff_of_true rfl hp
  · rw [if_neg hp]
    exact iff_of_false (by decide) hp

section Walked

variable {r : GuestGfn} (h : Walked c sample (sampleGpa sample) (eptLevels - 1)
  (walkStart c sample rootHpa record) (eptWalk c sample rootHpa) (eptFinal c sample rootHpa) r)

include h

theorem Walked.eptMapped_iff : r.eptMapped = 1 ↔
    IsLeaf (eptFinal c sample rootHpa).level (eptFinal c sample rootHpa).entry :=
  one_iff_of_ite h.mapped

theorem Walked.eptMmio_iff : r.eptMmio = 1 ↔ IsMmio (eptFinal c sample rootHpa).entry :=
  one_iff_of_ite h.mmio

/-- The entries of the record, with their index, above the end of the walk and below it. -/
theorem Walked.exists_entry {l : Nat} (hl : l < eptLevels) :
    ∃ spte hpa, r.entries (round l) = entryOf (sampleGpa sample) l spte hpa ∧
      (IsLeaf l spte ↔ l = (eptFinal c sample rootHpa).level ∧
        IsLeaf (eptFinal c sample rootHpa).level (eptFinal c sample rootHpa).entry) := by
  rcases Nat.lt_or_ge l (eptFinal c sample rootHpa).level with hunder | habove
  · exact ⟨0, 0, h.below l hunder, fun h => absurd h (not_isLeaf_zero l),
      fun h => absurd h.1 (Nat.ne_of_lt hunder)⟩
  · obtain ⟨s, hs, rfl⟩ : ∃ s ∈ eptWalk c sample rootHpa, s.level = l :=
      exists_mem_walk habove (Nat.le_sub_one_of_lt hl)
    obtain ⟨hpa, hrecorded⟩ := h.steps s hs
    refine ⟨s.entry, hpa, hrecorded, ?_, ?_⟩
    · intro hleaf
      exact eq_eptFinal hs (.inl hleaf) ▸ ⟨rfl, hleaf⟩
    · rintro ⟨heq, hleaf⟩
      rw [eq_eptFinal_of_level hs heq]
      exact hleaf

/-- The entry of a level is a leaf exactly if the record says that this is where the walk ended. -/
theorem Walked.leaf_iff {level : Nat} (hlevel : level < eptLevels) :
    (r.entries (round level)).leaf = 1 ↔
      r.eptMapped = 1 ∧ r.leafLevel = BitVec.ofNat 8 (level + 1) := by
  have hlt : (eptFinal c sample rootHpa).level < eptLevels := eptFinal_level_lt
  obtain ⟨spte, hpa, hrecorded, hleaf⟩ := h.exists_entry hlevel
  rw [hrecorded, h.eptMapped_iff, h.leafLevel]
  show flag _ = 1 ↔ _
  rw [flag_eq_one, decide_eq_true_iff, hleaf, and_comm]
  refine and_congr_right fun hleaf => ?_
  rw [if_pos hleaf]
  constructor
  · rintro rfl
    rfl
  · intro heq
    have hnat : ((eptFinal c sample rootHpa).level + 1) % 2 ^ 8 = (level + 1) % 2 ^ 8 :=
      congrArg BitVec.toNat heq
    have hfour : eptLevels = 4 := rfl
    omega

end Walked

end Record

end LinuxMaxxing.VirtEpt
