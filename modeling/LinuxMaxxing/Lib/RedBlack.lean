import LinuxMaxxing.Lib.LevelOrder

/-!
# Red-Black Trees That Are Cut Off

Red-black trees over any type of nodes, `red` says which are red, and what is left of their
balance when only the first nodes in level order are kept.

- `balanced`, `noRedRed`, `minimum`: the rules of a red-black tree, and its first node;
- `balanced_iff_paths`: balance says that all paths have the same number of black nodes;
- `missingRed`: the nodes that are cut off are red, so that no black one is missing;
- `reaches`: a leaf of the tree is still there when it is cut off;
- `cut_first_iff`: when the balance and the first node survive.
-/

namespace LinuxMaxxing.Lib.RedBlack

open LevelOrder

universe u

variable {α : Type u} (red : α → Bool)

/-! ## The rules -/

/-- How many black nodes are on the leftmost path, the leaf included. -/
def blacks : BinaryTree α → Nat
  | .nil => 1
  | .node a l _ => blacks l + if red a then 0 else 1

/-- Every path down from a node has the same number of black nodes. -/
def balanced : BinaryTree α → Bool
  | .nil => true
  | .node _ l r => decide (blacks red l = blacks red r) && balanced l && balanced r

/-- No red node has a red child. -/
def noRedRed : Bool → BinaryTree α → Bool
  | _, .nil => true
  | parentRed, .node a l r => !(parentRed && red a) && noRedRed (red a) l && noRedRed (red a) r

/-- Every node is red. -/
def allRed : BinaryTree α → Bool
  | .nil => true
  | .node a l r => red a && allRed l && allRed r

/-- Where the way along left children ends, when it goes on only behind nodes that are kept. -/
def spineEnd (keep : α → Bool) : BinaryTree α → Option α
  | .nil => none
  | .node a l _ => if keep a then some ((spineEnd keep l).getD a) else some a

/-- The first node. -/
def minimum (t : BinaryTree α) : Option α := spineEnd (fun _ => true) t

/-- How many nodes the way along left children has. -/
def leftSpine : BinaryTree α → Nat
  | .nil => 0
  | .node _ l _ => leftSpine l + 1

/-- The number of black nodes on every path of `k` nodes; `none` when two differ, or one is
    shorter. -/
def pathBlacks : Nat → BinaryTree α → Option Nat
  | 0, _ => some 0
  | _ + 1, .nil => none
  | k + 1, .node a l r =>
    if pathBlacks k l = pathBlacks k r then
      (pathBlacks k l).map (· + if red a then 0 else 1)
    else none

/-! ## What is cut off -/

/-- Every node that is cut off is red. -/
def missingRed (keep : α → Bool) : BinaryTree α → Bool
  | .nil => true
  | .node a l r => if keep a then missingRed keep l && missingRed keep r
    else allRed red (.node a l r)

/-- Some leaf is reached through nodes that are kept. -/
def reaches (keep : α → Bool) : BinaryTree α → Bool
  | .nil => true
  | .node a l r => keep a && (reaches keep l || reaches keep r)

section Cut

variable {red} {keep : α → Bool} {t : BinaryTree α}

theorem blacks_pos (red : α → Bool) (t : BinaryTree α) : 0 < blacks red t := by
  induction t with
  | nil => exact Nat.one_pos
  | node a l r ihl _ => exact Nat.lt_of_lt_of_le ihl (Nat.le_add_right _ _)

theorem balanced_node {a : α} {l r : BinaryTree α} :
    balanced red (.node a l r) = true ↔
      blacks red l = blacks red r ∧ balanced red l = true ∧ balanced red r = true := by
  simp [balanced, and_assoc]

/-- Without a black node above the leaves there is none at all. -/
theorem allRed_of_blacks (hbalanced : balanced red t = true) (h : blacks red t = 1) :
    allRed red t = true := by
  induction t with
  | nil => rfl
  | node a l r ihl ihr =>
    obtain ⟨hsame, hl, hr⟩ := balanced_node.mp hbalanced
    have hpos := blacks_pos red l
    unfold blacks at h
    have hred : red a = true := by
      by_contra hblack
      rw [if_neg hblack] at h
      omega
    rw [hred, if_pos rfl] at h
    unfold allRed
    rw [hred, ihl hl h, ihr hr (hsame ▸ h)]
    rfl

/-- A tree of red nodes has one at most. -/
theorem leaf_of_allRed {a : α} {l r : BinaryTree α} {parentRed : Bool}
    (hrules : noRedRed red parentRed (.node a l r) = true)
    (h : allRed red (.node a l r) = true) : l = .nil ∧ r = .nil := by
  simp only [allRed, Bool.and_eq_true] at h
  simp only [noRedRed, Bool.and_eq_true] at hrules
  obtain ⟨⟨hred, hl⟩, hr⟩ := h
  obtain ⟨⟨_, hrulesl⟩, hrulesr⟩ := hrules
  -- a child would be red below a red node
  have hnil : ∀ u : BinaryTree α, allRed red u = true → noRedRed red (red a) u = true →
      u = .nil := by
    intro u hu hrulesu
    cases u with
    | nil => rfl
    | node b ul ur =>
      simp only [allRed, Bool.and_eq_true] at hu
      simp only [noRedRed, hred, hu.1.1, Bool.and_self, Bool.not_true, Bool.false_and] at hrulesu
      exact absurd hrulesu Bool.false_ne_true
  exact ⟨hnil l hl hrulesl, hnil r hr hrulesr⟩

/-- With a leaf still there, the leftmost path has all its black nodes. -/
theorem blacks_of_reaches (hbalanced : balanced red t = true)
    (hcut : balanced red (cut keep t) = true) (h : reaches keep t = true) :
    blacks red (cut keep t) = blacks red t := by
  induction t with
  | nil => rfl
  | node a l r ihl ihr =>
    simp only [reaches, Bool.and_eq_true, Bool.or_eq_true] at h
    obtain ⟨hkeep, hreach⟩ := h
    obtain ⟨hsame, hl, hr⟩ := balanced_node.mp hbalanced
    unfold cut at hcut ⊢
    rw [hkeep, if_pos rfl] at hcut ⊢
    obtain ⟨hsame', hl', hr'⟩ := balanced_node.mp hcut
    have hleft : blacks red (cut keep l) = blacks red l := by
      rcases hreach with hreach | hreach
      · exact ihl hl hl' hreach
      · rw [hsame', ihr hr hr' hreach, hsame]
    unfold blacks
    rw [hleft]

/-- With a black node missing, the leftmost path has lost one. -/
theorem blacks_of_missing (hbalanced : balanced red t = true)
    (hcut : balanced red (cut keep t) = true) (h : missingRed red keep t = false) :
    blacks red (cut keep t) < blacks red t := by
  induction t with
  | nil => exact absurd h (by simp [missingRed])
  | node a l r ihl ihr =>
    unfold missingRed at h
    unfold cut at hcut ⊢
    cases hkeep : keep a with
    | false =>
      rw [hkeep] at h
      simp only [Bool.false_eq_true, if_false] at h ⊢
      have hpos := blacks_pos red (.node a l r)
      have hne : blacks red (.node a l r) ≠ 1 := by
        intro hone
        exact absurd (h.symm.trans (allRed_of_blacks hbalanced hone)) Bool.false_ne_true
      show 1 < _
      omega
    | true =>
      rw [hkeep] at h hcut
      simp only [if_true, Bool.and_eq_false_iff] at h hcut ⊢
      obtain ⟨hsame, hl, hr⟩ := balanced_node.mp hbalanced
      obtain ⟨hsame', hl', hr'⟩ := balanced_node.mp hcut
      have hleft : blacks red (cut keep l) < blacks red l := by
        rcases h with h | h
        · exact ihl hl hl' h
        · rw [hsame', hsame]
          exact ihr hr hr' h
      unfold blacks
      omega

/-- **Where no black node is missing** nothing is: a red node is cut off from a leaf. -/
theorem cut_of_missingRed {parentRed : Bool} (hbalanced : balanced red t = true)
    (hrules : noRedRed red parentRed t = true) (h : missingRed red keep t = true) :
    balanced red (cut keep t) = true ∧ blacks red (cut keep t) = blacks red t ∧
      spineEnd keep t = minimum t := by
  induction t generalizing parentRed with
  | nil => exact ⟨rfl, rfl, rfl⟩
  | node a l r ihl ihr =>
    obtain ⟨hsame, hl, hr⟩ := balanced_node.mp hbalanced
    unfold missingRed at h
    unfold minimum
    unfold cut spineEnd
    cases hkeep : keep a with
    | false =>
      rw [hkeep] at h
      simp only [Bool.false_eq_true, if_false, if_true] at h ⊢
      obtain ⟨rfl, rfl⟩ := leaf_of_allRed hrules h
      have hred : red a = true := by simpa [allRed] using h
      refine ⟨rfl, ?_, rfl⟩
      unfold blacks
      rw [hred]
      rfl
    | true =>
      rw [hkeep] at h
      simp only [if_true, Bool.and_eq_true] at h ⊢
      simp only [noRedRed, Bool.and_eq_true] at hrules
      obtain ⟨hbl, hcl, hsl⟩ := ihl hl hrules.1.2 h.1
      obtain ⟨hbr, hcr, _⟩ := ihr hr hrules.2 h.2
      refine ⟨balanced_node.mpr ⟨by rw [hcl, hcr, hsame], hbl, hbr⟩, ?_, ?_⟩
      · unfold blacks
        rw [hcl]
      · rw [hsl]
        rfl

/-- A tree that is cut off has no red node below another that it did not have. -/
theorem noRedRed_cut (keep : α → Bool) {parentRed : Bool} (h : noRedRed red parentRed t = true) :
    noRedRed red parentRed (cut keep t) = true := by
  induction t generalizing parentRed with
  | nil => rfl
  | node a l r ihl ihr =>
    cases hkeep : keep a with
    | false =>
      rw [cut_left hkeep]
      rfl
    | true =>
      rw [cut_kept hkeep]
      simp only [noRedRed, Bool.and_eq_true] at h ⊢
      exact ⟨⟨h.1.1, ihl h.1.2⟩, ihr h.2⟩

/-! ## Upper levels -/

/-- Paths with as many black nodes are those of balanced full levels. -/
theorem pathBlacks_eq_some {k m : Nat} :
    pathBlacks red k t = some m ↔
      Full k t ∧ balanced red (truncate k t) = true ∧ blacks red (truncate k t) = m + 1 := by
  induction k generalizing t m with
  | zero => simp [pathBlacks, Full, truncate, balanced, blacks, eq_comm]
  | succ k ih =>
    cases t with
    | nil => simp [pathBlacks, Full]
    | node a l r =>
      have hstep : pathBlacks red (k + 1) (.node a l r) = some m ↔
          ∃ q, pathBlacks red k l = some q ∧ pathBlacks red k r = some q ∧
            q + (if red a then 0 else 1) = m := by
        rw [pathBlacks]
        by_cases hsame : pathBlacks red k l = pathBlacks red k r
        · rw [if_pos hsame, ← hsame]
          simp
        · rw [if_neg hsame]
          constructor
          · exact fun h => absurd h (by simp)
          · rintro ⟨q, hl, hr, _⟩
            exact absurd (hl.trans hr.symm) hsame
      rw [hstep]
      constructor
      · rintro ⟨q, hl, hr, rfl⟩
        obtain ⟨hfl, hbl, hcl⟩ := ih.mp hl
        obtain ⟨hfr, hbr, hcr⟩ := ih.mp hr
        refine ⟨⟨hfl, hfr⟩, balanced_node.mpr ⟨hcl.trans hcr.symm, hbl, hbr⟩, ?_⟩
        show blacks red (truncate k l) + _ = _
        omega
      · rintro ⟨⟨hfl, hfr⟩, hbalanced, hcount⟩
        obtain ⟨hsame, hbl, hbr⟩ := balanced_node.mp hbalanced
        have hpos := blacks_pos red (truncate k l)
        change blacks red (truncate k l) + _ = _ at hcount
        refine ⟨blacks red (truncate k l) - 1, ih.mpr ⟨hfl, hbl, by omega⟩,
          ih.mpr ⟨hfr, hbr, by omega⟩, by omega⟩

theorem spineEnd_mem {a : α} (h : spineEnd keep t = some a) : a ∈ values t := by
  induction t generalizing a with
  | nil => exact absurd h (by simp [spineEnd])
  | node b l r ih _ =>
    unfold spineEnd at h
    unfold values
    split at h
    · obtain rfl := Option.some.inj h
      cases hl : spineEnd keep l with
      | none => simp
      | some c => exact List.mem_cons_of_mem _ (List.mem_append_left _ (ih hl))
    · obtain rfl := Option.some.inj h
      exact List.mem_cons_self

theorem spineEnd_eq_none : spineEnd keep t = none ↔ t = .nil := by
  cases t with
  | nil => simp [spineEnd]
  | node a l r =>
    unfold spineEnd
    split <;> simp

/-- When the upper levels are kept, the way along left children ends at the first node unless
    it is longer by two nodes. -/
theorem spineEnd_truncate {k : Nat} (hvalues : (values t).Nodup) (hfull : Full k t)
    (hcut : cut keep t = truncate k t) :
    spineEnd keep t = minimum t ↔ leftSpine t ≤ k + 1 := by
  induction k generalizing t with
  | zero =>
    cases t with
    | nil => simp [spineEnd, minimum, leftSpine]
    | node a l r =>
      have hkeep : keep a = false := by
        cases hkeep : keep a with
        | false => rfl
        | true => simp [cut, truncate, hkeep] at hcut
      have hnot : a ∉ values l := fun hmem =>
        (List.nodup_cons.mp hvalues).1 (List.mem_append_left _ hmem)
      unfold minimum
      unfold spineEnd leftSpine
      rw [hkeep]
      simp only [Bool.false_eq_true, if_false, if_true, Option.some.injEq]
      cases l with
      | nil => simp [spineEnd, leftSpine]
      | node b ll lr =>
        constructor
        · intro heq
          -- the first node is another one
          have hsome : spineEnd (fun _ => true) (.node b ll lr) ≠ none := by
            rw [ne_eq, spineEnd_eq_none]
            simp
          obtain ⟨c, hc⟩ := Option.ne_none_iff_exists'.mp hsome
          rw [hc] at heq
          exact absurd (heq ▸ spineEnd_mem hc) hnot
        · intro hspine
          unfold leftSpine at hspine
          omega
  | succ k ih =>
    cases t with
    | nil => exact hfull.elim
    | node a l r =>
      have hkeep : keep a = true := by
        cases hkeep : keep a with
        | true => rfl
        | false => simp [cut, truncate, hkeep] at hcut
      have hcutl : cut keep l = truncate k l := by
        simp only [cut, truncate, hkeep, if_true, BinaryTree.node.injEq, true_and] at hcut
        exact hcut.1
      have hvaluesl : (values l).Nodup :=
        ((List.nodup_append.mp (List.nodup_cons.mp hvalues).2)).1
      have hiff := ih hvaluesl hfull.1 hcutl
      unfold minimum at hiff ⊢
      unfold spineEnd leftSpine
      rw [hkeep]
      simp only [if_true, Option.some.injEq, Nat.add_le_add_iff_right]
      rw [← hiff]
      constructor
      · intro heq
        cases hl : spineEnd keep l with
        | none =>
          rw [spineEnd_eq_none.mp hl]
          rfl
        | some b =>
          cases hl' : spineEnd (fun _ => true) l with
          | none =>
            rw [spineEnd_eq_none.mp hl'] at hl
            exact absurd hl (by simp [spineEnd])
          | some c =>
            rw [hl, hl'] at heq
            exact congrArg some heq
      · intro heq
        rw [heq]

theorem missingRed_of_allRed (h : allRed red t = true) : missingRed red keep t = true := by
  induction t with
  | nil => rfl
  | node a l r ihl ihr =>
    unfold missingRed
    split
    · simp only [allRed, Bool.and_eq_true] at h
      rw [ihl h.1.2, ihr h.2]
      rfl
    · exact h

end Cut

/-! ## Paths -/

/-- The nodes on every path from the root to a leaf. -/
def paths : BinaryTree α → List (List α)
  | .nil => [[]]
  | .node a l r => (paths l ++ paths r).map (a :: ·)

/-- How many nodes of a path are black. -/
def pathCount (red : α → Bool) (path : List α) : Nat := path.countP fun a => !red a

section Paths

variable {red} {t : BinaryTree α}

theorem pathCount_cons (a : α) (path : List α) :
    pathCount red (a :: path) = pathCount red path + if red a then 0 else 1 := by
  unfold pathCount
  rw [List.countP_cons]
  cases red a <;> simp

theorem paths_ne_nil (t : BinaryTree α) : ∃ path, path ∈ paths t := by
  induction t with
  | nil => exact ⟨[], List.mem_singleton.mpr rfl⟩
  | node a l r ihl _ =>
    obtain ⟨path, hpath⟩ := ihl
    exact ⟨a :: path, List.mem_map.mpr ⟨path, List.mem_append_left _ hpath, rfl⟩⟩

/-- A balanced tree has the blacks of its leftmost path on all of them. -/
theorem pathCount_of_balanced (h : balanced red t = true) :
    ∀ path ∈ paths t, pathCount red path + 1 = blacks red t := by
  induction t with
  | nil =>
    intro path hpath
    obtain rfl := List.mem_singleton.mp hpath
    rfl
  | node a l r ihl ihr =>
    obtain ⟨hsame, hl, hr⟩ := balanced_node.mp h
    intro path hpath
    obtain ⟨rest, hrest, rfl⟩ := List.mem_map.mp hpath
    have hcount : pathCount red rest + 1 = blacks red l := by
      rcases List.mem_append.mp hrest with hleft | hright
      · exact ihl hl rest hleft
      · exact (ihr hr rest hright).trans hsame.symm
    rw [pathCount_cons, blacks, ← hcount]
    omega

/-- And where all paths have as many blacks, the tree is balanced. -/
theorem balanced_of_pathCount {n : Nat} (h : ∀ path ∈ paths t, pathCount red path = n) :
    balanced red t = true := by
  induction t generalizing n with
  | nil => rfl
  | node a l r ihl ihr =>
    have hrest : ∀ path, path ∈ paths l ∨ path ∈ paths r →
        pathCount red path = n - if red a then 0 else 1 := by
      intro path hpath
      have hmem : a :: path ∈ paths (.node a l r) :=
        List.mem_map.mpr ⟨path, List.mem_append.mpr hpath, rfl⟩
      have hcount := h _ hmem
      rw [pathCount_cons] at hcount
      omega
    have hl := ihl fun path hpath => hrest path (.inl hpath)
    have hr := ihr fun path hpath => hrest path (.inr hpath)
    obtain ⟨pathl, hpathl⟩ := paths_ne_nil l
    obtain ⟨pathr, hpathr⟩ := paths_ne_nil r
    refine balanced_node.mpr ⟨?_, hl, hr⟩
    rw [← pathCount_of_balanced hl pathl hpathl, ← pathCount_of_balanced hr pathr hpathr,
      hrest pathl (.inl hpathl), hrest pathr (.inr hpathr)]

/-- **Balance is a matter of paths**: all of them have the same number of black nodes. -/
theorem balanced_iff_paths :
    balanced red t = true ↔ ∃ n, ∀ path ∈ paths t, pathCount red path = n := by
  constructor
  · intro h
    refine ⟨blacks red t - 1, fun path hpath => ?_⟩
    rw [← pathCount_of_balanced h path hpath, Nat.add_sub_cancel]
  · rintro ⟨n, h⟩
    exact balanced_of_pathCount h

theorem cut_true (t : BinaryTree α) : cut (fun _ => true) t = t := by
  induction t with
  | nil => rfl
  | node a l r ihl ihr => rw [cut, if_pos rfl, ihl, ihr]

end Paths

/-! ## The first nodes in level order -/

section First

variable {red} {t : BinaryTree α} {N : Nat}

theorem mem_take_or_drop {b : Branch α} (h : b ∈ levelOrder t) :
    b ∈ (levelOrder t).take N ∨ b ∈ (levelOrder t).drop N := by
  rw [← List.take_append_drop N (levelOrder t)] at h
  exact List.mem_append.mp h

/-- A red tree below a node that is cut off. -/
theorem allRed_of_drop (h : ∀ b ∈ (levelOrder t).drop N, red b.value = true)
    (u : BinaryTree α) (hu : ∀ b ∈ top u, b ∈ (levelOrder t).drop N) : allRed red u = true := by
  induction u with
  | nil => rfl
  | node a l r ihl ihr =>
    have hmem : ⟨a, l, r⟩ ∈ (levelOrder t).drop N := hu _ List.mem_cons_self
    have hbelow := fun c => drop_children (c := c) (within_top t) N hmem
    unfold allRed
    rw [show red a = true from h _ hmem, ihl fun b hb => hbelow b (List.mem_append_left _ hb),
      ihr fun b hb => hbelow b (List.mem_append_right _ hb)]
    rfl

variable [DecidableEq α]

/-- The first `N` nodes. -/
def firstNodes (N : Nat) (t : BinaryTree α) (a : α) : Bool :=
  decide (a ∈ ((levelOrder t).take N).map (·.value))

theorem firstNodes_take {b : Branch α} (h : b ∈ (levelOrder t).take N) :
    firstNodes N t b.value = true :=
  decide_eq_true (List.mem_map.mpr ⟨b, h, rfl⟩)

theorem firstNodes_drop (hvalues : (values t).Nodup) {b : Branch α}
    (h : b ∈ (levelOrder t).drop N) : firstNodes N t b.value = false := by
  have hnodup := (values_levelOrder t).nodup_iff.mpr hvalues
  rw [← List.take_append_drop N (levelOrder t), List.map_append] at hnodup
  have hdisjoint := (List.nodup_append.mp hnodup).2.2
  exact decide_eq_false fun hmem =>
    hdisjoint _ hmem _ (List.mem_map.mpr ⟨b, h, rfl⟩) rfl

/-- **No black node is missing** when those after the first are red. -/
theorem missingRed_of_drop (h : ∀ b ∈ (levelOrder t).drop N, red b.value = true) :
    missingRed red (firstNodes N t) t = true := by
  refine subtree_induct (P := fun u => missingRed red (firstNodes N t) u = true) rfl ?_
  intro b hb hl hr
  unfold tree missingRed
  split
  · rw [hl, hr]
    rfl
  · rename_i hnot
    rcases mem_take_or_drop (N := N) hb with htake | hdrop
    · exact absurd (firstNodes_take htake) hnot
    · apply allRed_of_drop h
      intro c hc
      obtain rfl := List.mem_singleton.mp hc
      exact hdrop

/-- And those after the first are red when no black node is missing. -/
theorem red_of_missingRed (hvalues : (values t).Nodup)
    (h : missingRed red (firstNodes N t) t = true) :
    ∀ b ∈ (levelOrder t).drop N, red b.value = true := by
  have hall : ∀ b ∈ levelOrder t, missingRed red (firstNodes N t) (tree b) = true := by
    apply order_induct
    · intro b hb
      rw [tree_of_mem_top hb]
      exact h
    · intro b hb c hc
      have hparts : missingRed red (firstNodes N t) b.left = true ∧
          missingRed red (firstNodes N t) b.right = true := by
        unfold tree missingRed at hb
        split at hb
        · simpa using hb
        · simp only [allRed, Bool.and_eq_true] at hb
          exact ⟨missingRed_of_allRed hb.1.2, missingRed_of_allRed hb.2⟩
      rcases List.mem_append.mp hc with hleft | hright
      · rw [tree_of_mem_top hleft]
        exact hparts.1
      · rw [tree_of_mem_top hright]
        exact hparts.2
  intro b hb
  have hmissing := hall b (List.mem_of_mem_drop hb)
  unfold tree missingRed at hmissing
  rw [firstNodes_drop hvalues hb] at hmissing
  simp only [Bool.false_eq_true, if_false, allRed, Bool.and_eq_true] at hmissing
  exact hmissing.1.1

/-- When no leaf is reached, the first nodes all have two children. -/
theorem children_of_not_reaches (hvalues : (values t).Nodup)
    (h : reaches (firstNodes N t) t = false) :
    ∀ b ∈ (levelOrder t).take N, (children b).length = 2 := by
  have hall : ∀ b ∈ levelOrder t, b ∈ levelOrder t ∧
      (firstNodes N t b.value = true → reaches (firstNodes N t) (tree b) = false) := by
    apply order_induct
    · intro b hb
      rw [tree_of_mem_top hb]
      exact ⟨mem_order (within_top t) hb, fun _ => h⟩
    · rintro b ⟨hmem, hb⟩ c hc
      refine ⟨order_children (within_top t) hmem hc, fun hkept => ?_⟩
      -- the parent of a node that is kept is kept
      have hparent : firstNodes N t b.value = true := by
        rcases mem_take_or_drop (N := N) hmem with htake | hdrop
        · exact firstNodes_take htake
        · have hchild := firstNodes_drop hvalues (drop_children (within_top t) N hdrop hc)
          exact absurd (hkept.symm.trans hchild) Bool.false_ne_true.symm
      have hnot := hb hparent
      unfold tree reaches at hnot
      rw [hparent, Bool.true_and, Bool.or_eq_false_iff] at hnot
      rcases List.mem_append.mp hc with hleft | hright
      · rw [tree_of_mem_top hleft]
        exact hnot.1
      · rw [tree_of_mem_top hright]
        exact hnot.2
  intro b hb
  have hnot := (hall b (List.mem_of_mem_take hb)).2 (firstNodes_take hb)
  unfold tree reaches at hnot
  rw [firstNodes_take hb, Bool.true_and, Bool.or_eq_false_iff] at hnot
  unfold children
  cases hl : b.left with
  | nil => exact absurd (hl ▸ hnot.1) (by simp [reaches])
  | node a l r =>
    cases hr : b.right with
    | nil => exact absurd (hr ▸ hnot.2) (by simp [reaches])
    | node a' l' r' => rfl

/-- **A red-black tree of which the first nodes are kept**, as many as `k` full levels have: it
    stays balanced and keeps its first node exactly when the nodes that are cut off are red, or
    when the upper levels are full, have as many black nodes on every path, and the first node
    is at most one level below them. -/
theorem cut_first_iff {k : Nat} {parentRed : Bool} (hvalues : (values t).Nodup)
    (hbalanced : balanced red t = true) (hrules : noRedRed red parentRed t = true) :
    (balanced red (cut (firstNodes (2 ^ k - 1) t) t) = true ∧
        spineEnd (firstNodes (2 ^ k - 1) t) t = minimum t) ↔
      (∀ b ∈ (levelOrder t).drop (2 ^ k - 1), red b.value = true) ∨
        ((pathBlacks red k t).isSome ∧ leftSpine t ≤ k + 1) := by
  -- the first nodes are the upper levels when these are full
  have htruncate : t ≠ .nil → Full k t →
      cut (firstNodes (2 ^ k - 1) t) t = truncate k t := by
    intro hne hfull
    cases ht : t with
    | nil => exact absurd ht hne
    | node a l r =>
      rw [← ht]
      have htop : top t = [⟨a, l, r⟩] := by rw [ht]; rfl
      have hcount : (top t).length * (2 ^ k - 1) = 2 ^ k - 1 := by rw [htop]; exact Nat.one_mul _
      have hcut := cut_eq_truncate (within_top t)
        (fun b hb => by rw [tree_of_mem_top hb]; exact hfull)
        (fun b hb => firstNodes_take (by rwa [hcount] at hb))
        (fun b hb => firstNodes_drop hvalues (by rwa [hcount] at hb))
      have hroot := hcut ⟨a, l, r⟩ (by rw [htop]; exact List.mem_cons_self)
      rwa [show tree ⟨a, l, r⟩ = t from ht.symm] at hroot
  constructor
  · rintro ⟨hcut, hspine⟩
    cases hmissing : missingRed red (firstNodes (2 ^ k - 1) t) t with
    | true => exact .inl (red_of_missingRed hvalues hmissing)
    | false =>
      right
      have hne : t ≠ .nil := by
        rintro rfl
        exact absurd hmissing (by simp [missingRed])
      have hlost := blacks_of_missing hbalanced hcut hmissing
      have hreach : reaches (firstNodes (2 ^ k - 1) t) t = false := by
        cases hreach : reaches (firstNodes (2 ^ k - 1) t) t with
        | false => rfl
        | true =>
          have hsame := blacks_of_reaches hbalanced hcut hreach
          omega
      have hfull : Full k t := by
        cases ht : t with
        | nil => exact absurd ht hne
        | node a l r =>
          have htop : top t = [⟨a, l, r⟩] := by rw [ht]; rfl
          have hall := full_of_children (k := k) (within_top t) (by
            rw [htop, List.length_singleton, Nat.one_mul, ← htop]
            exact children_of_not_reaches hvalues hreach)
          exact hall ⟨a, l, r⟩ (by rw [htop]; exact List.mem_cons_self)
      have heq := htruncate hne hfull
      refine ⟨?_, (spineEnd_truncate hvalues hfull heq).mp hspine⟩
      have hpos := blacks_pos red (truncate k t)
      rw [heq] at hcut
      exact Option.isSome_iff_exists.mpr ⟨blacks red (truncate k t) - 1,
        pathBlacks_eq_some.mpr ⟨hfull, hcut, by omega⟩⟩
  · rintro (hred | ⟨hpaths, hspine⟩)
    · obtain ⟨hcut, _, hend⟩ := cut_of_missingRed hbalanced hrules (missingRed_of_drop hred)
      exact ⟨hcut, hend⟩
    · obtain ⟨m, hm⟩ := Option.isSome_iff_exists.mp hpaths
      obtain ⟨hfull, hcut, _⟩ := pathBlacks_eq_some.mp hm
      by_cases hne : t = .nil
      · rw [hne]
        exact ⟨rfl, rfl⟩
      · have heq := htruncate hne hfull
        refine ⟨heq ▸ hcut, ?_⟩
        exact (spineEnd_truncate hvalues hfull heq).mpr hspine

end First

end LinuxMaxxing.Lib.RedBlack
