import Mathlib.Tactic
import Mathlib.Data.Tree.Basic

/-!
# Level Order

The nodes of a binary tree from the top down, and trees that are cut off.

- `levelOrder`: the nodes level by level, each with what hangs below it;
- `levelOrder_fixed`: the equation of a breadth-first search, the nodes are the root and the
  children of the nodes;
- `drop_children`: what comes after a prefix is closed under children;
- `cut`, `truncate`: a tree without the nodes that a predicate rejects, and without the nodes
  below a depth; `cut_eq_truncate` says when the first nodes in level order are the upper levels.
-/

namespace LinuxMaxxing.Lib

universe u

/-- A node of a binary tree with what hangs below it. -/
structure Branch (α : Type u) where
  value : α
  left : BinaryTree α
  right : BinaryTree α

namespace LevelOrder

variable {α : Type u}

/-! ## Nodes level by level -/

/-- The node at the top of a tree, if there is one. -/
def top : BinaryTree α → List (Branch α)
  | .nil => []
  | .node a l r => [⟨a, l, r⟩]

/-- The nodes below a node. -/
def children (b : Branch α) : List (Branch α) := top b.left ++ top b.right

/-- The tree of a node. -/
def tree (b : Branch α) : BinaryTree α := .node b.value b.left b.right

/-- The nodes of a forest, `n` levels of them. -/
def order : Nat → List (Branch α) → List (Branch α)
  | 0, _ => []
  | n + 1, f => f ++ order n (f.flatMap children)

/-- The nodes of a tree, level by level. -/
def levelOrder (t : BinaryTree α) : List (Branch α) := order t.height (top t)

/-- At most `n` levels. -/
def Within (n : Nat) (f : List (Branch α)) : Prop := ∀ b ∈ f, (tree b).height ≤ n

theorem tree_of_mem_top {t : BinaryTree α} {b : Branch α} (h : b ∈ top t) : tree b = t := by
  cases t with
  | nil => exact absurd h List.not_mem_nil
  | node a l r =>
    obtain rfl := List.mem_singleton.mp h
    rfl

theorem height_pos (b : Branch α) : 0 < (tree b).height := Nat.succ_pos _

theorem height_child {b c : Branch α} (h : c ∈ children b) : (tree c).height < (tree b).height := by
  have hchild : tree c = b.left ∨ tree c = b.right := by
    rcases List.mem_append.mp h with hleft | hright
    · exact .inl (tree_of_mem_top hleft)
    · exact .inr (tree_of_mem_top hright)
  show _ < max b.left.height b.right.height + 1
  rcases hchild with heq | heq
  · rw [heq]
    omega
  · rw [heq]
    omega

theorem Within.children {n : Nat} {f : List (Branch α)} (h : Within (n + 1) f) :
    Within n (f.flatMap children) := by
  intro c hc
  obtain ⟨b, hb, hcb⟩ := List.mem_flatMap.mp hc
  have hheight := h b hb
  have hbelow := height_child hcb
  omega

theorem Within.zero {f : List (Branch α)} (h : Within 0 f) : f = [] := by
  apply List.eq_nil_iff_forall_not_mem.mpr
  intro b hb
  have hheight := h b hb
  have hpos := height_pos b
  omega

theorem within_top (t : BinaryTree α) : Within t.height (top t) := by
  intro b hb
  rw [tree_of_mem_top hb]

theorem mem_order {n : Nat} {f : List (Branch α)} (hn : Within n f) {b : Branch α} (hb : b ∈ f) :
    b ∈ order n f := by
  cases n with
  | zero =>
    rw [hn.zero] at hb
    exact absurd hb List.not_mem_nil
  | succ n => exact List.mem_append_left _ hb

/-! ## The equation of a breadth-first search -/

theorem order_fixed {n : Nat} {f : List (Branch α)} (hn : Within n f) :
    order n f = f ++ (order n f).flatMap children := by
  induction n generalizing f with
  | zero =>
    rw [hn.zero]
    rfl
  | succ n ih =>
    have hrest := ih hn.children
    unfold order
    rw [List.flatMap_append, ← hrest]

/-- **Breadth first**: the nodes are the root and the children of the nodes, in this order. -/
theorem levelOrder_fixed (t : BinaryTree α) :
    levelOrder t = top t ++ (levelOrder t).flatMap children := order_fixed (within_top t)

/-- How many nodes a forest has. -/
def weight (f : List (Branch α)) : Nat := (f.map fun b => (tree b).numNodes).sum

theorem weight_top (t : BinaryTree α) : weight (top t) = t.numNodes := by
  cases t with
  | nil => rfl
  | node a l r => exact Nat.add_zero _

theorem weight_append (f g : List (Branch α)) : weight (f ++ g) = weight f + weight g := by
  simp [weight]

theorem weight_children (f : List (Branch α)) :
    weight (f.flatMap children) + f.length = weight f := by
  induction f with
  | nil => rfl
  | cons b f ih =>
    have hhead : weight (children b) + 1 = (tree b).numNodes := by
      unfold children
      rw [weight_append, weight_top, weight_top]
      rfl
    have hsum : weight (b :: f) = (tree b).numNodes + weight f := by simp [weight]
    rw [List.flatMap_cons, weight_append, List.length_cons, hsum]
    omega

theorem length_order {n : Nat} {f : List (Branch α)} (hn : Within n f) :
    (order n f).length = weight f := by
  induction n generalizing f with
  | zero =>
    rw [hn.zero]
    rfl
  | succ n ih =>
    have hbelow := ih hn.children
    have hweight := weight_children f
    unfold order
    rw [List.length_append]
    omega

/-- **Every node once**: the level order is as long as the tree has nodes. -/
theorem length_levelOrder (t : BinaryTree α) : (levelOrder t).length = t.numNodes := by
  unfold levelOrder
  rw [length_order (within_top t), weight_top]

/-- A forest that is its own next level is empty. -/
theorem eq_nil_of_children {f : List (Branch α)} (h : f = f.flatMap children) : f = [] := by
  have hweight := weight_children f
  rw [← h] at hweight
  exact List.length_eq_zero_iff.mp (by omega)

/-! ## Prefixes of the order -/

theorem order_children {n : Nat} {f : List (Branch α)} (hn : Within n f) {b c : Branch α}
    (hb : b ∈ order n f) (hc : c ∈ children b) : c ∈ order n f := by
  rw [order_fixed hn]
  exact List.mem_append_right _ (List.mem_flatMap.mpr ⟨b, hb, hc⟩)

/-- **What comes after a prefix** is closed under children. -/
theorem drop_children {n : Nat} {f : List (Branch α)} (hn : Within n f) (N : Nat)
    {b c : Branch α} (hb : b ∈ (order n f).drop N) (hc : c ∈ children b) :
    c ∈ (order n f).drop N := by
  induction n generalizing f N with
  | zero =>
    rw [order, List.drop_nil] at hb
    exact absurd hb List.not_mem_nil
  | succ n ih =>
    unfold order at hb ⊢
    rw [List.drop_append] at hb ⊢
    rcases List.mem_append.mp hb with hlevel | hrest
    · -- the child of a node that is left of this level is on the next, of which all is left
      have hN : N - f.length = 0 := by
        have hlength := List.length_pos_of_mem hlevel
        rw [List.length_drop] at hlength
        omega
      rw [hN, List.drop_zero]
      apply List.mem_append_right
      apply mem_order hn.children
      exact List.mem_flatMap.mpr ⟨b, List.mem_of_mem_drop hlevel, hc⟩
    · exact List.mem_append_right _ (ih hn.children _ hrest)

/-- What holds of the roots of a forest and goes on to children holds of all its nodes. -/
theorem order_induct {n : Nat} {f : List (Branch α)} {P : Branch α → Prop} (hf : ∀ b ∈ f, P b)
    (hstep : ∀ b, P b → ∀ c ∈ children b, P c) : ∀ b ∈ order n f, P b := by
  induction n generalizing f with
  | zero => exact fun b hb => absurd hb List.not_mem_nil
  | succ n ih =>
    intro b hb
    rcases List.mem_append.mp hb with hroot | hrest
    · exact hf b hroot
    · refine ih (fun c hc => ?_) b hrest
      obtain ⟨d, hd, hcd⟩ := List.mem_flatMap.mp hc
      exact hstep d (hf d hd) c hcd

/-- What goes from the two subtrees of a node to the node holds of a tree, when it does so for
    the nodes of the tree. -/
theorem subtree_induct {t : BinaryTree α} {P : BinaryTree α → Prop} (hnil : P .nil)
    (hnode : ∀ b ∈ levelOrder t, P b.left → P b.right → P (tree b)) : P t := by
  have hall : ∀ u : BinaryTree α, (∀ b ∈ top u, b ∈ levelOrder t) → P u := by
    intro u
    induction u with
    | nil => exact fun _ => hnil
    | node a l r ihl ihr =>
      intro hu
      have hmem : ⟨a, l, r⟩ ∈ levelOrder t := hu _ List.mem_cons_self
      have hbelow := fun c => order_children (c := c) (within_top t) hmem
      exact hnode ⟨a, l, r⟩ hmem (ihl fun b hb => hbelow b (List.mem_append_left _ hb))
        (ihr fun b hb => hbelow b (List.mem_append_right _ hb))
  exact hall t fun b hb => mem_order (within_top t) hb

/-! ## Values -/

/-- The values of a tree, each before those below it. -/
def values : BinaryTree α → List α
  | .nil => []
  | .node a l r => a :: (values l ++ values r)

theorem values_top (t : BinaryTree α) : (top t).flatMap (fun b => values (tree b)) = values t := by
  cases t with
  | nil => rfl
  | node a l r => exact List.append_nil _

theorem values_tree (b : Branch α) :
    values (tree b) = b.value :: (children b).flatMap fun c => values (tree c) := by
  unfold children
  rw [List.flatMap_append, values_top, values_top]
  rfl

theorem values_order {n : Nat} {f : List (Branch α)} (hn : Within n f) :
    ((order n f).map (·.value)).Perm (f.flatMap fun b => values (tree b)) := by
  induction n generalizing f with
  | zero =>
    rw [hn.zero]
    exact .nil
  | succ n ih =>
    unfold order
    rw [List.map_append]
    refine ((ih hn.children).append_left _).trans ?_
    rw [List.flatMap_assoc]
    clear ih hn
    -- the values of this level go before those below it, node by node
    induction f with
    | nil => exact .nil
    | cons b f ih =>
      rw [List.map_cons, List.flatMap_cons, List.flatMap_cons, values_tree, List.cons_append,
        List.cons_append]
      apply List.Perm.cons
      refine List.Perm.trans ?_ (ih.append_left _)
      rw [← List.append_assoc, ← List.append_assoc]
      exact List.perm_append_comm.append_right _

/-- **Every value once**: the level order lists the values of the tree. -/
theorem values_levelOrder (t : BinaryTree α) :
    ((levelOrder t).map (·.value)).Perm (values t) := by
  have hperm := values_order (within_top t)
  rw [values_top] at hperm
  exact hperm

/-! ## Cutting trees off -/

/-- A tree without the nodes that are not kept, nor what hangs below them. -/
def cut (keep : α → Bool) : BinaryTree α → BinaryTree α
  | .nil => .nil
  | .node a l r => if keep a then .node a (cut keep l) (cut keep r) else .nil

theorem cut_kept {keep : α → Bool} {a : α} (h : keep a = true) (l r : BinaryTree α) :
    cut keep (.node a l r) = .node a (cut keep l) (cut keep r) := if_pos h

theorem cut_left {keep : α → Bool} {a : α} (h : keep a = false) (l r : BinaryTree α) :
    cut keep (.node a l r) = .nil := if_neg (ne_true_of_eq_false h)

/-- The upper levels of a tree. -/
def truncate : Nat → BinaryTree α → BinaryTree α
  | 0, _ => .nil
  | _ + 1, .nil => .nil
  | k + 1, .node a l r => .node a (truncate k l) (truncate k r)

/-- The upper levels are full. -/
def Full : Nat → BinaryTree α → Prop
  | 0, _ => True
  | _ + 1, .nil => False
  | k + 1, .node _ l r => Full k l ∧ Full k r

theorem children_of_full {k : Nat} {b : Branch α} (h : Full (k + 2) (tree b)) :
    (children b).length = 2 := by
  obtain ⟨hleft, hright⟩ := h
  unfold children
  cases hl : b.left with
  | nil =>
    rw [hl] at hleft
    exact hleft.elim
  | node a l r =>
    cases hr : b.right with
    | nil =>
      rw [hr] at hright
      exact hright.elim
    | node a' l' r' => rfl

/-- A node with two children. -/
theorem children_eq_pair {b : Branch α} (h : (children b).length = 2) :
    ∃ c d, children b = [c, d] ∧ tree c = b.left ∧ tree d = b.right := by
  unfold children at h ⊢
  cases hl : b.left with
  | nil =>
    rw [hl] at h
    cases hr : b.right with
    | nil => simp [hr, top] at h
    | node a l r => simp [hr, top] at h
  | node a l r =>
    rw [hl] at h
    cases hr : b.right with
    | nil => simp [hr, top] at h
    | node a' l' r' => exact ⟨⟨a, l, r⟩, ⟨a', l', r'⟩, rfl, rfl, rfl⟩

theorem length_children {f : List (Branch α)} (h : ∀ b ∈ f, (children b).length = 2) :
    (f.flatMap children).length = 2 * f.length := by
  induction f with
  | nil => rfl
  | cons b f ih =>
    rw [List.flatMap_cons, List.length_append, List.length_cons, h b List.mem_cons_self,
      ih fun b hb => h b (List.mem_cons_of_mem _ hb)]
    ring

/-- How many nodes `k` full levels below a forest have, one level down. -/
theorem levels_succ (m k : Nat) : m * (2 ^ (k + 1) - 1) = m + 2 * m * (2 ^ k - 1) := by
  have hpos := Nat.one_le_two_pow (n := k)
  obtain ⟨q, hq⟩ := Nat.exists_eq_add_of_le hpos
  have hnext : 2 ^ (k + 1) - 1 = 1 + 2 * q := by
    rw [pow_succ, hq]
    omega
  rw [hnext, hq, Nat.add_sub_cancel_left]
  ring

/-- **Where the first nodes all have two children**, the upper levels are full. -/
theorem full_of_children {k n : Nat} {f : List (Branch α)} (hn : Within n f)
    (h : ∀ b ∈ (order n f).take (f.length * (2 ^ k - 1)), (children b).length = 2) :
    ∀ b ∈ f, Full k (tree b) := by
  induction k generalizing n f with
  | zero => exact fun _ _ => trivial
  | succ k ih =>
    intro b hb
    cases n with
    | zero =>
      rw [hn.zero] at hb
      exact absurd hb List.not_mem_nil
    | succ n =>
      unfold order at h
      rw [levels_succ, List.take_append, List.take_of_length_le (Nat.le_add_right _ _),
        Nat.add_sub_cancel_left] at h
      have hlevel : ∀ b ∈ f, (children b).length = 2 :=
        fun b hb => h b (List.mem_append_left _ hb)
      have hnext : ∀ c ∈ f.flatMap children, Full k (tree c) := by
        apply ih hn.children
        rw [length_children hlevel]
        exact fun c hc => h c (List.mem_append_right _ hc)
      obtain ⟨c, d, hpair, hc, hd⟩ := children_eq_pair (hlevel b hb)
      have hbelow : ∀ e ∈ [c, d], Full k (tree e) := by
        intro e he
        exact hnext e (List.mem_flatMap.mpr ⟨b, hb, hpair ▸ he⟩)
      refine ⟨?_, ?_⟩
      · rw [← hc]
        exact hbelow c (by simp)
      · rw [← hd]
        exact hbelow d (by simp)

/-- **Full levels are cut off whole**: when as many nodes are kept as `k` full levels have,
    what is kept is these levels. -/
theorem cut_eq_truncate {k n : Nat} {f : List (Branch α)} (hn : Within n f) {keep : α → Bool}
    (hfull : ∀ b ∈ f, Full k (tree b))
    (hkept : ∀ b ∈ (order n f).take (f.length * (2 ^ k - 1)), keep b.value = true)
    (hleft : ∀ b ∈ (order n f).drop (f.length * (2 ^ k - 1)), keep b.value = false) :
    ∀ b ∈ f, cut keep (tree b) = truncate k (tree b) := by
  induction k generalizing n f with
  | zero =>
    intro b hb
    have hnot : keep b.value = false := by
      apply hleft b
      rw [pow_zero, Nat.sub_self, Nat.mul_zero, List.drop_zero]
      exact mem_order hn hb
    unfold tree cut truncate
    rw [hnot]
    rfl
  | succ k ih =>
    intro b hb
    cases n with
    | zero =>
      rw [hn.zero] at hb
      exact absurd hb List.not_mem_nil
    | succ n =>
      unfold order at hkept hleft
      rw [levels_succ, List.take_append, List.take_of_length_le (Nat.le_add_right _ _),
        Nat.add_sub_cancel_left] at hkept
      rw [levels_succ, List.drop_append, List.drop_of_length_le (Nat.le_add_right _ _),
        Nat.add_sub_cancel_left, List.nil_append] at hleft
      -- the children of this level are full levels again, twice as many nodes
      have hcount : (f.flatMap children).length * (2 ^ k - 1) = 2 * f.length * (2 ^ k - 1) := by
        cases k with
        | zero => rw [pow_zero, Nat.sub_self, Nat.mul_zero, Nat.mul_zero]
        | succ k => rw [length_children fun b hb => children_of_full (hfull b hb)]
      have hchild : ∀ c ∈ f.flatMap children, Full k (tree c) := by
        intro c hc
        obtain ⟨b, hb, hcb⟩ := List.mem_flatMap.mp hc
        obtain ⟨hl, hr⟩ := hfull b hb
        rcases List.mem_append.mp hcb with hleft | hright
        · rw [tree_of_mem_top hleft]
          exact hl
        · rw [tree_of_mem_top hright]
          exact hr
      have hnext := ih hn.children hchild
        (by rw [hcount]; exact fun c hc => hkept c (List.mem_append_right _ hc))
        (by rw [hcount]; exact hleft)
      have hbelow : ∀ t, (∀ c ∈ top t, c ∈ children b) → cut keep t = truncate k t := by
        intro t ht
        cases t with
        | nil => cases k <;> rfl
        | node a l r =>
          have hmem : ⟨a, l, r⟩ ∈ children b := ht _ List.mem_cons_self
          exact hnext _ (List.mem_flatMap.mpr ⟨b, hb, hmem⟩)
      have hkeep : keep b.value = true := hkept b (List.mem_append_left _ hb)
      unfold tree cut truncate
      rw [hkeep, if_pos rfl, hbelow b.left fun c hc => List.mem_append_left _ hc,
        hbelow b.right fun c hc => List.mem_append_right _ hc]

end LevelOrder

end LinuxMaxxing.Lib
