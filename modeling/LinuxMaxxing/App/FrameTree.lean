import LinuxMaxxing.App.VerifyFrame
import LinuxMaxxing.Lib.RedBlack

/-!
# Frames That Show Trees

`verifyFrame` on a map that has the nodes of a binary tree, of which some may be missing.

- `Entered`: the map has the nodes of a tree that are kept, with their pointers;
- `Walks.tree`, `Entered.minimum`: what the walk and the loop find of the tree that is left;
- `verifyFrame_tree`: the checks of a frame with all of a tree are the rules of a red-black tree,
  if its addresses are only that and the call stack has room for its height.
-/

namespace LinuxMaxxing.App

open LinuxMaxxing.Framework (Text text)
open LinuxMaxxing.Lib LinuxMaxxing.Lib.LevelOrder LinuxMaxxing.Lib.RedBlack

universe u

/-! ## Trees in a map -/

section Trees

variable {α : Type u} (name : α → Text) (red : α → Bool) (keep : α → Bool)

/-- The pointer to a tree. -/
def linkTo : BinaryTree α → Option Text
  | .nil => none
  | .node a _ _ => some (name a)

/-- The entry of a branch. -/
def entryOf (b : Branch α) : FrameNode where
  address := name b.value
  left := linkTo name b.left
  right := linkTo name b.right
  red := red b.value

/-- A tree of which the map has the nodes that are kept. -/
def Entered (map : FrameMap) : BinaryTree α → Prop
  | .nil => True
  | .node a l r =>
    map.lookup (name a) = (if keep a then some (entryOf name red ⟨a, l, r⟩) else none) ∧
      Entered map l ∧ Entered map r

/-- The names in a tree. -/
def namesOf (t : BinaryTree α) : List Text := (values (cut keep t)).map name

/-- What a walk over a tree changes. -/
structure TreeWalked (t : BinaryTree α) (parentRed : Bool) (st st' : WalkState) : Prop where
  seen : ∀ a, a ∈ st'.seen ↔ a ∈ namesOf name keep t ∨ a ∈ st.seen
  redOK : st'.redOK = (st.redOK && noRedRed red parentRed (cut keep t))
  bhOK : st'.bhOK = (st.bhOK && balanced red (cut keep t))
  cycle : st'.cycle = st.cycle

end Trees

section Walk

variable {α : Type u} {name : α → Text} {red : α → Bool} {keep : α → Bool} {map : FrameMap}
  {stack : Nat} {t : BinaryTree α}

/-- The names in a tree are only addresses. -/
def PlainNames (name : α → Text) (t : BinaryTree α) : Prop := ∀ a ∈ values t, PlainAddress (name a)

theorem PlainNames.node {a : α} {l r : BinaryTree α} (h : PlainNames name (.node a l r)) :
    PlainAddress (name a) ∧ PlainNames name l ∧ PlainNames name r := by
  obtain ⟨ha, hrest⟩ := List.forall_mem_cons.mp h
  exact ⟨ha, fun b hb => hrest b (List.mem_append_left _ hb),
    fun b hb => hrest b (List.mem_append_right _ hb)⟩

/-- A pointer to a tree leads to its entry. -/
theorem Entered.follow {a : α} {l r : BinaryTree α} (h : Entered name red keep map (.node a l r))
    (hplain : PlainNames name (.node a l r)) :
    follow map (linkTo name (.node a l r)) =
      if keep a then some (entryOf name red ⟨a, l, r⟩) else none :=
  hplain.node.1.follow.trans h.1

/-- A walk over a tree returns where the call stack has room for the height of the tree. -/
theorem Entered.exists_walks (h : Entered name red keep map t) (hplain : PlainNames name t)
    (hstack : t.height < stack) : ∀ (parentRed : Bool) (st : WalkState),
      ∃ n st', Walks map stack (linkTo name t) parentRed st n st' := by
  induction t generalizing stack with
  | nil =>
    intro parentRed st
    obtain ⟨k, rfl⟩ := Nat.exists_eq_add_of_lt hstack
    exact ⟨1, st, .absent rfl⟩
  | node a l r ihl ihr =>
    intro parentRed st
    obtain ⟨k, rfl⟩ := Nat.exists_eq_add_of_lt hstack
    have hfollow := h.follow hplain
    obtain ⟨-, hl, hr⟩ := h
    obtain ⟨-, hplainl, hplainr⟩ := hplain.node
    cases hkeep : keep a with
    | false =>
      -- a node that the frame leaves out ends the walk as a leaf does
      rw [hkeep, if_neg Bool.false_ne_true] at hfollow
      exact ⟨1, st, .absent hfollow⟩
    | true =>
      rw [hkeep, if_pos rfl] at hfollow
      by_cases hseen : name a ∈ st.seen
      · exact ⟨0, _, .again hfollow hseen⟩
      · -- each subtree is lower, and each call has the room that is left
        have hheight : (BinaryTree.node a l r).height = max l.height r.height + 1 := rfl
        obtain ⟨n, st₁, hleft⟩ :=
          @ihl ((BinaryTree.node a l r).height + k) hl hplainl (by omega) (red a)
            (enterNode (name a) (entryOf name red ⟨a, l, r⟩) parentRed st)
        obtain ⟨m, st₂, hright⟩ :=
          @ihr ((BinaryTree.node a l r).height + k) hr hplainr (by omega) (red a) st₁
        exact ⟨_, _, .enter hfollow hseen hleft hright⟩

theorem namesOf_node {a : α} (hkeep : keep a = true) (l r : BinaryTree α) :
    namesOf name keep (.node a l r) = name a :: (namesOf name keep l ++ namesOf name keep r) := by
  unfold namesOf
  rw [cut_kept hkeep, values, List.map_cons, List.map_append]

theorem TreeWalked.none {parentRed : Bool} (st : WalkState) (h : cut keep t = .nil) :
    TreeWalked name red keep t parentRed st st := by
  refine ⟨fun a => ?_, ?_, ?_, rfl⟩
  · simp [namesOf, h, values]
  · simp [h, noRedRed]
  · simp [h, balanced]

/-- **The walk** finds the black height of the tree that is kept, and whether its rules hold. -/
theorem Walks.tree {parentRed : Bool} {st st' : WalkState} {n : Nat}
    (h : Entered name red keep map t) (hplain : PlainNames name t)
    (hnodup : (namesOf name keep t).Nodup) (hunseen : ∀ a ∈ namesOf name keep t, a ∉ st.seen)
    (hwalk : Walks map stack (linkTo name t) parentRed st n st') :
    n = blacks red (cut keep t) ∧ TreeWalked name red keep t parentRed st st' := by
  induction t generalizing stack parentRed st st' n with
  | nil =>
    cases hwalk with
    | absent => exact ⟨rfl, .none st rfl⟩
  | node a l r ihl ihr =>
    have hnode := h.follow hplain
    obtain ⟨-, hl, hr⟩ := h
    obtain ⟨-, hplainl, hplainr⟩ := hplain.node
    cases hkeep : keep a with
    | false =>
      -- the pointer leads nowhere, as a null pointer does
      rw [hkeep, if_neg Bool.false_ne_true] at hnode
      have hcut := cut_left hkeep l r
      cases hwalk with
      | absent =>
        rw [hcut]
        exact ⟨rfl, .none st hcut⟩
      | again hfound => exact absurd (hnode.symm.trans hfound) (by simp)
      | enter hfound => exact absurd (hnode.symm.trans hfound) (by simp)
    | true =>
      rw [hkeep, if_pos rfl] at hnode
      have hcut := cut_kept hkeep l r
      rw [namesOf_node hkeep] at hnodup hunseen
      obtain ⟨hself, hrest⟩ := List.nodup_cons.mp hnodup
      obtain ⟨hnodupl, hnodupr, hdisjoint⟩ := List.nodup_append.mp hrest
      cases hwalk with
      | absent habsent => exact absurd (hnode.symm.trans habsent) (by simp)
      | again _ hseen => exact absurd hseen (hunseen _ List.mem_cons_self)
      | enter hfound hnew hleft hright =>
        rename_i st₁ st₂ left right
        obtain rfl := Option.some.inj (hnode.symm.trans hfound)
        have hunseenl : ∀ b ∈ namesOf name keep l,
            b ∉ (enterNode (name a) (entryOf name red ⟨a, l, r⟩) parentRed st).seen := by
          intro b hb hseen
          rcases List.mem_cons.mp hseen with rfl | hseen
          · exact hself (List.mem_append_left _ hb)
          · exact hunseen b (List.mem_cons_of_mem _ (List.mem_append_left _ hb)) hseen
        obtain ⟨hcountl, hwalkl⟩ := ihl hl hplainl hnodupl hunseenl hleft
        have hunseenr : ∀ b ∈ namesOf name keep r, b ∉ st₁.seen := by
          intro b hb hseen
          rcases (hwalkl.seen b).mp hseen with hmem | hseen
          · exact hdisjoint b hmem b hb rfl
          · rcases List.mem_cons.mp hseen with rfl | hseen
            · exact hself (List.mem_append_right _ hb)
            · exact hunseen b (List.mem_cons_of_mem _ (List.mem_append_right _ hb)) hseen
        obtain ⟨hcountr, hwalkr⟩ := ihr hr hplainr hnodupr hunseenr hright
        rw [hcut]
        refine ⟨congrArg (· + if red a then 0 else 1) hcountl, ?_, ?_, ?_, ?_⟩
        · intro b
          show b ∈ st₂.seen ↔ _
          rw [hwalkr.seen, hwalkl.seen, namesOf_node hkeep, enterNode, List.mem_cons,
            List.mem_cons, List.mem_append]
          tauto
        · show st₂.redOK = _
          rw [hwalkr.redOK, hwalkl.redOK, hcut, noRedRed, Bool.and_comm parentRed, enterNode]
          simp only [Bool.and_assoc]
          rfl
        · show (st₂.bhOK && decide (left = right)) = _
          rw [hwalkr.bhOK, hwalkl.bhOK, hcountl, hcountr, hcut, balanced, enterNode,
            Bool.and_assoc, Bool.and_assoc, Bool.and_assoc]
          congr 1
          rw [← Bool.and_assoc, Bool.and_comm]
        · show st₂.cycle = _
          rw [hwalkr.cycle, hwalkl.cycle, enterNode]

/-- **The way along left children** ends where the nodes that are kept do. -/
theorem Entered.minimum (h : Entered name red keep map t) (hplain : PlainNames name t) :
    Minimum map (linkTo name t) ((spineEnd keep t).map name) := by
  induction t with
  | nil => exact .stop rfl
  | node a l r ih _ =>
    have hnode := h.follow hplain
    obtain ⟨-, hl, -⟩ := h
    obtain ⟨-, hplainl, -⟩ := hplain.node
    rw [spineEnd]
    cases hkeep : keep a with
    | false =>
      -- the map has no entry here, so the loop stops in front of it
      rw [hkeep, if_neg Bool.false_ne_true] at hnode
      exact .stop (by rw [leftOf, hnode]; rfl)
    | true =>
      rw [hkeep, if_pos rfl] at hnode
      have hleft : leftOf map (linkTo name (.node a l r)) = truthyAddress (linkTo name l) := by
        rw [leftOf, hnode]
        rfl
      cases l with
      | nil => exact .stop hleft
      | node b ll lr =>
        have hbelow := ih hl hplainl
        rw [show truthyAddress (linkTo name (.node b ll lr)) = linkTo name (.node b ll lr) from
          hplainl.node.1.truthy] at hleft
        cases hend : spineEnd keep (.node b ll lr) with
        | none => exact absurd (spineEnd_eq_none.mp hend) (by simp)
        | some c =>
          rw [hend] at hbelow
          exact .next hleft hbelow

end Walk

/-! ## All of a tree -/

/-- A node of a tree that a frame shows. -/
structure TreeEntry where
  address : Text
  red : Bool
  deriving DecidableEq, Repr

/-- The map of a frame is a tree, and the root is its root. -/
structure ShowsTree (frame : Frame) (t : BinaryTree TreeEntry) : Prop where
  root : frame.root = linkTo TreeEntry.address t
  entered : Entered TreeEntry.address TreeEntry.red (fun _ => true) frame.map t
  distinct : ((values t).map TreeEntry.address).Nodup
  only : ∀ a ∈ keys frame.map, a ∈ (values t).map TreeEntry.address

/-- The root is black, if there is one. -/
def blackRoot : BinaryTree TreeEntry → Bool
  | .nil => true
  | .node a _ _ => !a.red

/-- The rules that a frame with a tree is checked against. An empty text is as good as null. -/
structure Rules (frame : Frame) (t : BinaryTree TreeEntry) : Prop where
  black : blackRoot t = true
  noRedRed : noRedRed TreeEntry.red false t = true
  blackHeight : ∃ n, ∀ path ∈ paths t, pathCount TreeEntry.red path = n
  leftmost : truthyAddress frame.leftmost = none ∨
    frame.leftmost = (minimum t).map TreeEntry.address

section All

variable {stack : Nat} {frame : Frame} {t : BinaryTree TreeEntry}

theorem ShowsTree.rootBlackOf (h : ShowsTree frame t) (hplain : PlainNames TreeEntry.address t) :
    rootBlackOf frame = some (blackRoot t) := by
  unfold App.rootBlackOf
  rw [h.root]
  cases t with
  | nil => rfl
  | node a l r =>
    have hnode := h.entered.1
    rw [if_pos rfl, ← hplain.node.1.nodeAt] at hnode
    rw [linkTo, hplain.node.1.truthy]
    dsimp only
    rw [hnode]
    rfl

theorem ShowsTree.leftmostCorrect (h : ShowsTree frame t)
    (hplain : PlainNames TreeEntry.address t) :
    LeftmostCorrect frame (decide (truthyAddress frame.leftmost = none ∨
      frame.leftmost = (RedBlack.minimum t).map TreeEntry.address)) := by
  cases heq : truthyAddress frame.leftmost with
  | none =>
    rw [decide_eq_true (.inl rfl)]
    exact .absent heq
  | some leftmost =>
    have hmin : Minimum frame.map frame.root ((RedBlack.minimum t).map TreeEntry.address) :=
      h.root ▸ h.entered.minimum hplain
    have hcorrect := LeftmostCorrect.compare heq hmin
    rw [(truthyAddress_eq_some.mp heq).1]
    simpa using hcorrect

/-- The walk over all of a tree. -/
theorem ShowsTree.walks (h : ShowsTree frame t) (hplain : PlainNames TreeEntry.address t)
    (hstack : t.height < stack) :
    ∃ st, Walks frame.map stack frame.root false startWalk (blacks TreeEntry.red t) st ∧
      st.redOK = noRedRed TreeEntry.red false t ∧ st.bhOK = balanced TreeEntry.red t ∧
      st.cycle = false := by
  have hnodup : (namesOf TreeEntry.address (fun _ => true) t).Nodup := by
    unfold namesOf
    rw [cut_true]
    exact h.distinct
  have hunseen : ∀ a ∈ namesOf TreeEntry.address (fun _ => true) t, a ∉ startWalk.seen := by
    intro a ha
    rw [namesOf, cut_true] at ha
    obtain ⟨entry, hentry, rfl⟩ := List.mem_map.mp ha
    exact (hplain entry hentry).not_name
  obtain ⟨n, st, hwalks⟩ := h.entered.exists_walks hplain hstack false startWalk
  obtain ⟨rfl, hwalked⟩ := hwalks.tree h.entered hplain hnodup hunseen
  rw [← h.root, cut_true] at hwalks
  refine ⟨st, hwalks, ?_, ?_, hwalked.cycle⟩
  · rw [hwalked.redOK, cut_true]
    rfl
  · rw [hwalked.bhOK, cut_true]
    rfl

/-- **The checks of a frame with all of a tree** are the rules of a red-black tree, and the height
    of a tree that keeps them is the number of black nodes on every path; the addresses are no names
    that every object has, and the call stack has room for the height of the tree. -/
theorem verifyFrame_tree (h : ShowsTree frame t) (hplain : PlainNames TreeEntry.address t)
    (hstack : t.height < stack) :
    ∃ checks, verifyFrame stack frame = some checks ∧ (checks.ok = true ↔ Rules frame t) ∧
      (checks.ok = true → ∀ path ∈ paths t, pathCount TreeEntry.red path = checks.height) := by
  obtain ⟨st, hwalks, hred, hbalanced, hcycle⟩ := h.walks hplain hstack
  have hverifies := Verifies.intro hwalks (h.rootBlackOf hplain) (h.leftmostCorrect hplain)
  have hok : (checksOf frame (blacks TreeEntry.red t) st (blackRoot t)
      (decide (truthyAddress frame.leftmost = none ∨
        frame.leftmost = (RedBlack.minimum t).map TreeEntry.address))).ok = true ↔
      Rules frame t := by
    unfold checksOf
    rw [hred, hbalanced, hcycle]
    simp only [Bool.and_eq_true, Bool.not_false, decide_eq_true_eq]
    constructor
    · rintro ⟨⟨⟨⟨hblack, hrules⟩, hheight⟩, -⟩, hleftmost⟩
      exact ⟨hblack, hrules, balanced_iff_paths.mp hheight, hleftmost⟩
    · rintro ⟨hblack, hrules, hheight, hleftmost⟩
      exact ⟨⟨⟨⟨hblack, hrules⟩, balanced_iff_paths.mpr hheight⟩, trivial⟩, hleftmost⟩
  refine ⟨_, verifyFrame_eq_some.mpr hverifies, hok, ?_⟩
  -- the height that is reported leaves out the nil leaf, which `blacks` counts
  intro htrue path hpath
  have hheight := balanced_iff_paths.mpr (hok.mp htrue).blackHeight
  show _ = blacks TreeEntry.red t - 1
  rw [← pathCount_of_balanced hheight path hpath, Nat.add_sub_cancel]

/-- A black node with a red child to the left. -/
def twoEntries : BinaryTree TreeEntry :=
  .node ⟨text "0x20", false⟩ (.node ⟨text "0x10", true⟩ .nil .nil) .nil

/-- The frame of two entries. -/
def twoFrame : Frame where
  rq := text "0x40"
  entity := none
  runNode := none
  focus := none
  root := some (text "0x20")
  leftmost := some (text "0x10")
  truncated := false
  map :=
    [(text "0x20", ⟨text "0x20", some (text "0x10"), none, false⟩),
      (text "0x10", ⟨text "0x10", none, none, true⟩)]
  count := 2

theorem showsTree_twoFrame : ShowsTree twoFrame twoEntries := by
  refine ⟨rfl, ⟨rfl, ⟨rfl, trivial, trivial⟩, trivial⟩, ?_, ?_⟩
  · decide
  · decide

theorem verifyFrame_tree_two :
    ∃ checks, verifyFrame 1000 twoFrame = some checks ∧
      (checks.ok = true ↔ Rules twoFrame twoEntries) ∧
      (checks.ok = true →
        ∀ path ∈ paths twoEntries, pathCount TreeEntry.red path = checks.height) := by
  apply verifyFrame_tree showsTree_twoFrame
  · have hall : ∀ a ∈ values twoEntries, a.address ≠ [] ∧ a.address ∉ objectNames := by decide
    exact fun a ha => ⟨(hall a ha).1, (hall a ha).2⟩
  · decide

/-- One black node, under a name that every object has. -/
def constructorEntry : BinaryTree TreeEntry := .node ⟨text "constructor", false⟩ .nil .nil

/-- The frame of this node. -/
def constructorFrame : Frame where
  rq := text "0x40"
  entity := none
  runNode := none
  focus := none
  root := some (text "constructor")
  leftmost := some (text "constructor")
  truncated := false
  map := [(text "constructor", ⟨text "constructor", none, none, false⟩)]
  count := 1

/-- **`seen` knows the name of a node** before the walk has come to it, which is reported as a cycle
    of a tree that keeps the rules; and a call stack with room for two calls returns nothing for a
    tree of height two. -/
theorem constructorFrame_not_ok :
    ShowsTree constructorFrame constructorEntry ∧ Rules constructorFrame constructorEntry ∧
      (∃ checks, verifyFrame 1000 constructorFrame = some checks ∧ checks.ok = false) ∧
      ShowsTree twoFrame twoEntries ∧ verifyFrame 2 twoFrame = none := by
  refine ⟨⟨rfl, ⟨rfl, trivial, trivial⟩, ?_, ?_⟩, ⟨rfl, rfl, ⟨1, ?_⟩, .inr rfl⟩, ?_,
    showsTree_twoFrame, by decide⟩
  · decide
  · decide
  · decide
  · have hnot : (verifyFrame 1000 constructorFrame).map Checks.ok = some false := by decide
    exact Option.map_eq_some_iff.mp hnot

end All

end LinuxMaxxing.App
