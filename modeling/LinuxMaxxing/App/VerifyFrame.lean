import LinuxMaxxing.App.SchedulerView
import LinuxMaxxing.Lib.Graph

/-!
# Frames of Any Shape

`verifyFrame` on a map whose pointers form any graph: what it returns without a bound on its loop,
and when it returns at all.

- `Walks`, `Minimum`, `Verifies`: the calls that return, as `scheduler.js` makes them;
- `verifyFrame_eq_some`: the bound of `verifyFrame` is large enough;
- `walks_iff_search`: a walk returns where a depth-first search is not nested too deep;
- `Walks.ends`: a walk that has found no cycle has seen a graph without one;
- `verifyFrame_returns_iff`: when the checks are returned, and fail a graph that has a cycle.
-/

namespace LinuxMaxxing.App

open LinuxMaxxing.Framework (Text text)
open LinuxMaxxing.Lib LinuxMaxxing.Lib.Graph

/-! ## Calls that return -/

/-- The state in which a walk goes on below a node. -/
def enterNode (address : Text) (node : FrameNode) (parentRed : Bool) (st : WalkState) :
    WalkState :=
  { st with
    seen := address :: st.seen
    redOK := st.redOK && !(node.red && parentRed) }

/-- `walk(address, parentRed)`, where the call stack has room for so many calls, returns a height
    and leaves a state behind. -/
inductive Walks (map : FrameMap) :
    Nat → Option Text → Bool → WalkState → Nat → WalkState → Prop where
  | absent {stack : Nat} {address : Option Text} {parentRed : Bool} {st : WalkState}
      (h : follow map address = none) : Walks map (stack + 1) address parentRed st 1 st
  | again {stack : Nat} {address : Text} {node : FrameNode} {parentRed : Bool} {st : WalkState}
      (hnode : follow map (some address) = some node) (hseen : address ∈ st.seen) :
      Walks map (stack + 1) (some address) parentRed st 0 { st with cycle := true }
  | enter {stack : Nat} {address : Text} {node : FrameNode} {parentRed : Bool}
      {st st₁ st₂ : WalkState} {left right : Nat}
      (hnode : follow map (some address) = some node) (hnew : address ∉ st.seen)
      (hleft : Walks map stack node.left node.red (enterNode address node parentRed st) left st₁)
      (hright : Walks map stack node.right node.red st₁ right st₂) :
      Walks map (stack + 1) (some address) parentRed st (left + if node.red then 0 else 1)
        { st₂ with bhOK := st₂.bhOK && decide (left = right) }

/-- `min = map[min].left` -/
def leftOf (map : FrameMap) (min : Option Text) : Option Text :=
  truthyAddress ((follow map min).bind FrameNode.left)

/-- `structuralMinimum` returns. -/
inductive Minimum (map : FrameMap) : Option Text → Option Text → Prop where
  | stop {min : Option Text} (h : leftOf map min = none) : Minimum map min min
  | next {min : Option Text} {left : Text} {result : Option Text}
      (h : leftOf map min = some left) (hrest : Minimum map (some left) result) :
      Minimum map min result

/-- `rootBlack`; `none` when reading the colour throws. -/
def rootBlackOf (frame : Frame) : Option Bool :=
  match truthyAddress frame.root with
  | none => some true
  | some root => (nodeAt frame.map root).map fun node => !node.red

/-- `leftmostCorrect` is evaluated. -/
inductive LeftmostCorrect (frame : Frame) : Bool → Prop where
  | absent (h : truthyAddress frame.leftmost = none) : LeftmostCorrect frame true
  | compare {leftmost : Text} {min : Option Text} (h : truthyAddress frame.leftmost = some leftmost)
      (hmin : Minimum frame.map frame.root min) :
      LeftmostCorrect frame (decide (some leftmost = min))

/-- What `verifyFrame` returns when its walk and its loop are done. -/
def checksOf (frame : Frame) (height : Nat) (st : WalkState) (rootBlack leftmost : Bool) :
    Checks where
  root := frame.root
  rootBlack := rootBlack
  red := st.redOK && !st.cycle
  bh := st.bhOK && !st.cycle
  height := height - 1
  leftmost := leftmost
  ok := rootBlack && st.redOK && st.bhOK && !st.cycle && leftmost

/-- `verifyFrame` returns. -/
inductive Verifies (stack : Nat) (frame : Frame) : Checks → Prop where
  | intro {height : Nat} {st : WalkState} {rootBlack leftmost : Bool}
      (hwalk : Walks frame.map stack frame.root false startWalk height st)
      (hroot : rootBlackOf frame = some rootBlack) (hleftmost : LeftmostCorrect frame leftmost) :
      Verifies stack frame (checksOf frame height st rootBlack leftmost)

/-! ## Looking a pointer up -/

section Lookup

variable {map : FrameMap} {address : Option Text} {a : Text} {node : FrameNode}

theorem truthyAddress_eq_some : truthyAddress address = some a ↔ address = some a ∧ a ≠ [] := by
  simp [truthyAddress, Option.filter_eq_some_iff]

theorem follow_eq_some :
    follow map address = some node ↔ ∃ a, address = some a ∧ a ≠ [] ∧ nodeAt map a = some node := by
  unfold follow
  rw [Option.bind_eq_some_iff]
  simp only [truthyAddress_eq_some, and_assoc]

/-- What is found is an entry of the map, or what every object has. -/
theorem nodeAt_eq_some :
    nodeAt map a = some node ↔ map.lookup a = some node ∨
      map.lookup a = none ∧ a ∈ objectNames ∧ inherited a = node := by
  unfold nodeAt
  cases map.lookup a with
  | none => simp
  | some entry => simp

/-- A text that is only an address: not empty, and no name that every object has. -/
structure PlainAddress (address : Text) : Prop where
  ne_nil : address ≠ []
  not_name : address ∉ objectNames

theorem PlainAddress.nodeAt (h : PlainAddress a) : nodeAt map a = map.lookup a := by
  rw [App.nodeAt, if_neg h.not_name, Option.or_none]

theorem PlainAddress.truthy (h : PlainAddress a) : truthyAddress (some a) = some a :=
  truthyAddress_eq_some.mpr ⟨rfl, h.ne_nil⟩

theorem PlainAddress.follow (h : PlainAddress a) : follow map (some a) = map.lookup a := by
  rw [App.follow, h.truthy]
  exact h.nodeAt

/-- The addresses of a map. -/
def keys (map : FrameMap) : List Text := map.map Prod.fst

theorem mem_keys (h : map.lookup a = some node) : a ∈ keys map := by
  have hsome : (map.lookup a).isSome := Option.isSome_of_eq_some h
  obtain ⟨entry, hmem, heq⟩ := List.lookup_isSome_iff.mp hsome
  exact List.mem_map.mpr ⟨entry, hmem, (beq_iff_eq.mp heq).symm⟩

theorem mem_keys_or_names (h : nodeAt map a = some node) : a ∈ keys map ∨ a ∈ objectNames := by
  rcases nodeAt_eq_some.mp h with hentry | ⟨-, hname, -⟩
  · exact .inl (mem_keys hentry)
  · exact .inr hname

end Lookup

/-! ## The bounds are large enough -/

section Bounds

variable {map : FrameMap} {stack : Nat} {address min : Option Text} {parentRed : Bool}
  {st st' st'' : WalkState} {n m : Nat}

/-- A walk at an entry that is new: the left subtree, then the right one, each from the state
    before it. -/
theorem walk_new {a : Text} {node : FrameNode} (hnode : follow map (some a) = some node)
    (hnew : a ∉ st.seen) :
    walk map (stack + 1) (some a) parentRed st =
      (walk map stack node.left node.red (enterNode a node parentRed st)).bind fun left =>
        (walk map stack node.right node.red left.2).bind fun right =>
          some (left.1 + if node.red then 0 else 1,
            { right.2 with bhOK := right.2.bhOK && decide (left.1 = right.1) }) := by
  obtain ⟨_, heq, hne, hnode⟩ := follow_eq_some.mp hnode
  cases heq
  have htruthy : truthyAddress (some a) = some a := truthyAddress_eq_some.mpr ⟨rfl, hne⟩
  rw [App.walk]
  simp only [htruthy, hnode, if_neg hnew]
  rfl

/-- **A walk** that comes back is a call that returns. -/
theorem walk_eq_some :
    walk map stack address parentRed st = some (n, st') ↔
      Walks map stack address parentRed st n st' := by
  constructor
  · intro h
    induction stack generalizing address parentRed st n st' with
    | zero => cases h
    | succ stack ih =>
      -- a call for nothing, for a node that has been seen, or for a new one
      cases hnode : follow map address with
      | none =>
        have habsent : walk map (stack + 1) address parentRed st = some (1, st) := by
          rw [App.walk]
          cases htruthy : truthyAddress address with
          | none => rfl
          | some a =>
            have hnone : nodeAt map a = none := by
              rw [follow, htruthy] at hnode
              exact hnode
            simp only [hnone]
        rw [habsent] at h
        cases h
        exact .absent hnode
      | some node =>
        obtain ⟨a, rfl, hne, hfound⟩ := follow_eq_some.mp hnode
        by_cases hseen : a ∈ st.seen
        · have htruthy : truthyAddress (some a) = some a := truthyAddress_eq_some.mpr ⟨rfl, hne⟩
          rw [App.walk] at h
          simp only [htruthy, hfound, if_pos hseen] at h
          cases h
          exact .again hnode hseen
        · rw [walk_new hnode hseen] at h
          obtain ⟨⟨left, st₁⟩, hleft, h⟩ := Option.bind_eq_some_iff.mp h
          obtain ⟨⟨right, st₂⟩, hright, h⟩ := Option.bind_eq_some_iff.mp h
          cases h
          exact .enter hnode hseen (ih hleft) (ih hright)
  · intro h
    induction h with
    | absent hnone =>
      rw [App.walk]
      rename_i address _ _
      cases htruthy : truthyAddress address with
      | none => rfl
      | some a =>
        rw [follow, htruthy] at hnone
        have hnone : nodeAt map a = none := hnone
        simp only [hnone]
    | again hnode hseen =>
      obtain ⟨_, heq, hne, hfound⟩ := follow_eq_some.mp hnode
      cases heq
      rw [App.walk]
      simp only [truthyAddress_eq_some.mpr ⟨rfl, hne⟩, hfound, if_pos hseen]
    | enter hnode hnew _ _ ihl ihr =>
      rw [walk_new hnode hnew, ihl, Option.bind_some, ihr, Option.bind_some]

/-- A walk has one result. -/
theorem Walks.unique (h : Walks map stack address parentRed st n st')
    (h' : Walks map stack address parentRed st m st'') : n = m ∧ st' = st'' := by
  have heq := (walk_eq_some.mpr h).symm.trans (walk_eq_some.mpr h')
  exact Prod.mk.inj (Option.some.inj heq)

/-- More room on the stack changes nothing. -/
theorem Walks.mono {stack' : Nat} (h : Walks map stack address parentRed st n st')
    (hle : stack ≤ stack') : Walks map stack' address parentRed st n st' := by
  induction h generalizing stack' with
  | absent hnone =>
    obtain ⟨k, rfl⟩ := Nat.exists_eq_add_of_lt hle
    exact .absent hnone
  | again hnode hseen =>
    obtain ⟨k, rfl⟩ := Nat.exists_eq_add_of_lt hle
    exact .again hnode hseen
  | enter hnode hnew _ _ ihl ihr =>
    obtain ⟨k, rfl⟩ := Nat.exists_eq_add_of_lt hle
    exact .enter hnode hnew (ihl (Nat.le_add_right _ k)) (ihr (Nat.le_add_right _ k))

theorem structuralMinimum_minimum {rounds : Nat} {result : Option Text}
    (h : structuralMinimum map rounds min = some result) : Minimum map min result := by
  induction rounds generalizing min with
  | zero => exact absurd h (by simp [structuralMinimum])
  | succ rounds ih =>
    rw [structuralMinimum] at h
    cases hleft : leftOf map min with
    | none =>
      unfold leftOf at hleft
      rw [hleft] at h
      obtain rfl := Option.some.inj h
      exact .stop hleft
    | some left =>
      have hfound := hleft
      unfold leftOf at hfound
      rw [hfound] at h
      exact .next hleft (ih h)

/-- The loop has one result. -/
theorem Minimum.unique {result result' : Option Text} (h : Minimum map min result) :
    Minimum map min result' → result = result' := by
  induction h with
  | stop hstop =>
    intro h'
    cases h' with
    | stop => rfl
    | next hleft => exact absurd (hstop.symm.trans hleft) (by simp)
  | next hleft _ ih =>
    intro h'
    cases h' with
    | stop hstop => exact absurd (hstop.symm.trans hleft) (by simp)
    | next hleft' hrest =>
      obtain rfl := Option.some.inj (hleft.symm.trans hleft')
      exact ih hrest

end Bounds

/-! ## The search in a walk -/

section Search

variable {map : FrameMap} {stack : Nat} {address : Option Text} {parentRed : Bool} {st : WalkState}

/-- The pointers of an entry. -/
def pointersAt (map : FrameMap) (address : Text) : Option (Option Text × Option Text) :=
  (follow map (some address)).map fun node => (node.left, node.right)

theorem bind_pointersAt : address.bind (pointersAt map) =
    (follow map address).map fun node => (node.left, node.right) := by
  cases address with
  | none => rfl
  | some a => rfl

/-- **A walk returns** where a depth-first search along the pointers is not nested deeper than the
    stack has room for. -/
theorem walks_iff_search {seen : List Text} :
    (∃ n st', Walks map stack address parentRed st n st' ∧ st'.seen = seen) ↔
      Search (pointersAt map) stack address st.seen seen := by
  constructor
  · rintro ⟨n, st', h, rfl⟩
    induction h with
    | absent hnone => exact .absent (by rw [bind_pointersAt, hnone]; rfl)
    | again hnode hseen => exact .again (by rw [pointersAt, hnode]; rfl) hseen
    | enter hnode hnew _ _ ihl ihr => exact .enter (by rw [pointersAt, hnode]; rfl) hnew ihl ihr
  · intro h
    generalize hseen₀ : st.seen = seen₀ at h
    induction h generalizing parentRed st with
    | absent hnone =>
      rw [bind_pointersAt, Option.map_eq_none_iff] at hnone
      exact ⟨1, st, .absent hnone, hseen₀⟩
    | again hfound hseen =>
      rw [pointersAt, Option.isSome_map] at hfound
      obtain ⟨node, hnode⟩ := Option.isSome_iff_exists.mp hfound
      exact ⟨0, { st with cycle := true }, .again hnode (hseen₀ ▸ hseen), hseen₀⟩
    | @enter _ a first second _ _ _ hfound hnew _ _ ihl ihr =>
      obtain ⟨node, hnode, hpointers⟩ := Option.map_eq_some_iff.mp hfound
      cases hpointers
      obtain ⟨left, st₁, hleft, hseen₁⟩ :=
        @ihl node.red (enterNode a node parentRed st) (congrArg (a :: ·) hseen₀)
      obtain ⟨right, st₂, hright, hseen₂⟩ := @ihr node.red st₁ hseen₁
      exact ⟨_, _, .enter hnode (hseen₀ ▸ hnew) hleft hright, hseen₂⟩

/-- **A stack with room for the whole map** is large enough. -/
theorem exists_walks (map : FrameMap) (address : Option Text) (parentRed : Bool)
    (h : map.length < stack) : ∃ n st, Walks map stack address parentRed startWalk n st := by
  have hkeys : ∀ a, (pointersAt map a).isSome → a ∈ keys map ∨ a ∈ startWalk.seen := by
    intro a ha
    rw [pointersAt, Option.isSome_map] at ha
    obtain ⟨node, hnode⟩ := Option.isSome_iff_exists.mp ha
    obtain ⟨_, heq, -, hfound⟩ := follow_eq_some.mp hnode
    cases heq
    exact mem_keys_or_names hfound
  have hunseen : unseen (keys map) startWalk.seen < stack := by
    have hle := unseen_le_length (keys map) startWalk.seen
    have hlength : (keys map).length = map.length := List.length_map _
    omega
  obtain ⟨seen, -, hsearch⟩ := exists_search address hkeys hunseen
  obtain ⟨n, st, hwalks, -⟩ := walks_iff_search.mpr hsearch
  exact ⟨n, st, hwalks⟩

end Search

/-! ## Cycles of a map -/

section Cycles

variable {map : FrameMap} {stack : Nat} {address : Option Text} {parentRed : Bool}
  {st st' : WalkState} {n : Nat} {a : Text}

/-- A pointer of the entry at one address is another. -/
def Child (map : FrameMap) (a b : Text) : Prop :=
  ∃ node, follow map (some a) = some node ∧
    (truthyAddress node.left = some b ∨ truthyAddress node.right = some b)

/-- The left pointer of the entry at one address is another. -/
def LeftChild (map : FrameMap) (a b : Text) : Prop := leftOf map (some a) = some b

theorem Walks.cycle_mono (h : Walks map stack address parentRed st n st') :
    st.cycle = true → st'.cycle = true := by
  induction h with
  | absent => exact fun hcycle => hcycle
  | again => exact fun _ => rfl
  | enter _ _ _ _ ihl ihr => exact fun hcycle => ihr (ihl hcycle)

/-- **A walk that has found no cycle** has seen a graph whose paths all end. -/
theorem Walks.ends (h : Walks map stack address parentRed st n st') :
    st'.cycle = false → ∀ a, address = some a → Ends (Child map) a := by
  induction h with
  | absent habsent =>
    rintro _ a rfl
    refine Acc.intro a fun b hchild => ?_
    obtain ⟨node, hnode, _⟩ := hchild
    exact absurd (habsent.symm.trans hnode) (by simp)
  | again => exact fun hcycle => absurd hcycle (by simp)
  | enter hnode _ hleft hright ihl ihr =>
    rintro hcycle a heq
    obtain rfl := Option.some.inj heq
    -- a cycle on the left would still be known on the right
    have hcyclel := Bool.eq_false_iff.mpr fun htrue =>
      Bool.eq_false_iff.mp hcycle (hright.cycle_mono htrue)
    refine Acc.intro _ fun b hchild => ?_
    obtain ⟨node, hnode', hside⟩ := hchild
    obtain rfl := Option.some.inj (hnode.symm.trans hnode')
    rcases hside with hside | hside
    · exact ihl hcyclel b (truthyAddress_eq_some.mp hside).1
    · exact ihr hcycle b (truthyAddress_eq_some.mp hside).1

theorem Minimum.ends {min result : Option Text} (h : Minimum map min result) :
    ∀ a, min = some a → Ends (LeftChild map) a := by
  induction h with
  | stop hstop =>
    rintro a rfl
    refine Acc.intro a fun b hchild => ?_
    exact absurd (hstop.symm.trans hchild) (by simp)
  | next hleft _ ih =>
    rintro a rfl
    refine Acc.intro a fun b hchild => ?_
    exact ih b (hleft.symm.trans hchild)

theorem structuralMinimum_of_endsWithin {rounds : Nat} (h : EndsWithin (LeftChild map) rounds a) :
    ∃ result, structuralMinimum map rounds (some a) = some result := by
  induction rounds generalizing a with
  | zero => exact h.elim
  | succ rounds ih =>
    rw [structuralMinimum]
    cases hleft : leftOf map (some a) with
    | none =>
      unfold leftOf at hleft
      rw [hleft]
      exact ⟨_, rfl⟩
    | some left =>
      have hfound := hleft
      unfold leftOf at hfound
      rw [hfound]
      exact ih (h left hleft)

/-- What every object has has no left pointer. -/
theorem leftChild_keys (a b : Text) (h : LeftChild map a b) : a ∈ keys map := by
  obtain ⟨hleft, -⟩ := truthyAddress_eq_some.mp h
  obtain ⟨node, hfollow, hnode⟩ := Option.bind_eq_some_iff.mp hleft
  obtain ⟨_, heq, -, hfound⟩ := follow_eq_some.mp hfollow
  cases heq
  rcases nodeAt_eq_some.mp hfound with hentry | ⟨-, -, rfl⟩
  · exact mem_keys hentry
  · cases hnode

/-- **The way along left children** from the root ends within the bound, unless it comes to a
    cycle. -/
theorem structuralMinimum_isSome (root : Option Text)
    (h : ∀ a, root = some a → ¬ CycleReachable (LeftChild map) a) :
    ∃ result, structuralMinimum map (map.length + 1) root = some result := by
  cases root with
  | none => exact ⟨none, rfl⟩
  | some a =>
    have hunseen : unseen (keys map) [] < map.length + 1 := by
      have hle := unseen_le_length (keys map) []
      unfold keys at hle ⊢
      rw [List.length_map] at hle
      omega
    exact structuralMinimum_of_endsWithin (endsWithin_of_not_cycleReachable leftChild_keys
      (fun c hc => absurd hc List.not_mem_nil) (h a rfl) hunseen)

end Cycles

/-! ## What `verifyFrame` returns -/

section Verify

variable {stack : Nat} {frame : Frame} {checks : Checks}

/-- `leftmostCorrect`, with the bound of `verifyFrame`. -/
def leftmostCorrectOf (frame : Frame) : Option Bool :=
  match truthyAddress frame.leftmost with
  | none => some true
  | some leftmost =>
    (structuralMinimum frame.map (frame.map.length + 1) frame.root).map fun min =>
      decide (some leftmost = min)

theorem verifyFrame_eq (stack : Nat) (frame : Frame) :
    verifyFrame stack frame =
      (walk frame.map stack frame.root false startWalk).bind fun walked =>
        (rootBlackOf frame).bind fun rootBlack =>
          (leftmostCorrectOf frame).bind fun leftmost =>
            some (checksOf frame walked.1 walked.2 rootBlack leftmost) := by
  unfold verifyFrame rootBlackOf leftmostCorrectOf
  generalize walk frame.map stack frame.root false startWalk = walked
  unfold checksOf
  cases walked with
  | none => rfl
  | some walked =>
    cases truthyAddress frame.root with
    | none => cases truthyAddress frame.leftmost <;> rfl
    | some root => cases truthyAddress frame.leftmost <;> rfl

/-- The root reaches a cycle along edges of a kind. -/
def RootCycle (frame : Frame) (edge : FrameMap → Text → Text → Prop) : Prop :=
  ∃ root, frame.root = some root ∧ CycleReachable (edge frame.map) root

theorem minimum_iff_of_root {min : Option Text} :
    structuralMinimum frame.map (frame.map.length + 1) frame.root = some min ↔
      Minimum frame.map frame.root min := by
  refine ⟨structuralMinimum_minimum, fun hmin => ?_⟩
  obtain ⟨result, hresult⟩ := structuralMinimum_isSome frame.root
    fun a ha => not_cycleReachable_of_ends (hmin.ends a ha)
  rw [hresult, (structuralMinimum_minimum hresult).unique hmin]

theorem leftmostCorrectOf_eq_some {leftmost : Bool} :
    leftmostCorrectOf frame = some leftmost ↔ LeftmostCorrect frame leftmost := by
  unfold leftmostCorrectOf
  constructor
  · intro h
    cases hleftmost : truthyAddress frame.leftmost with
    | none =>
      rw [hleftmost] at h
      obtain rfl := Option.some.inj h
      exact .absent hleftmost
    | some address =>
      rw [hleftmost] at h
      obtain ⟨min, hmin, rfl⟩ := Option.map_eq_some_iff.mp h
      exact .compare hleftmost (minimum_iff_of_root.mp hmin)
  · intro h
    cases h with
    | absent hleftmost => simp [hleftmost]
    | compare hleftmost hmin => simp [hleftmost, minimum_iff_of_root.mpr hmin]

/-- **The bounds are large enough**: `verifyFrame` is `none` only where nothing is returned. -/
theorem verifyFrame_eq_some : verifyFrame stack frame = some checks ↔ Verifies stack frame checks := by
  rw [verifyFrame_eq]
  constructor
  · intro h
    obtain ⟨walked, hwalk, h⟩ := Option.bind_eq_some_iff.mp h
    obtain ⟨rootBlack, hroot, h⟩ := Option.bind_eq_some_iff.mp h
    obtain ⟨leftmost, hleftmost, h⟩ := Option.bind_eq_some_iff.mp h
    obtain rfl := Option.some.inj h
    exact .intro (walk_eq_some.mp hwalk) hroot (leftmostCorrectOf_eq_some.mp hleftmost)
  · rintro ⟨hwalk, hroot, hleftmost⟩
    rw [walk_eq_some.mpr hwalk, hroot, leftmostCorrectOf_eq_some.mpr hleftmost]
    rfl

theorem Verifies.ok_of_cycle (h : Verifies stack frame checks) (hcycle : RootCycle frame Child) :
    checks.ok = false := by
  obtain ⟨root, hroot, hreach⟩ := hcycle
  cases h with
  | intro hwalk =>
    unfold checksOf
    rename_i st _ _ _ _
    cases hfound : st.cycle with
    | true => simp
    | false =>
      exact absurd hreach (not_cycleReachable_of_ends (hwalk.ends hfound root hroot))

/-- The root's color can be read: it is null or empty, or something is found under it. -/
def RootFound (frame : Frame) : Prop :=
  ∀ root, truthyAddress frame.root = some root → (nodeAt frame.map root).isSome

/-- The depth-first search from the root is not nested deeper than the stack has room for. -/
def SearchFits (stack : Nat) (frame : Frame) : Prop :=
  ∃ seen, Search (pointersAt frame.map) stack frame.root objectNames seen

/-- **Checking a frame of any shape** returns, and fails a graph that has a cycle, exactly when
    the root is found if there is one, and there is no leftmost node to look for, or none of the way
    along left children is a cycle, and the search along the pointers fits the call stack. -/
theorem verifyFrame_returns_iff (stack : Nat) (frame : Frame) :
    (∃ checks, Verifies stack frame checks ∧ (RootCycle frame Child → checks.ok = false)) ↔
      RootFound frame ∧ (truthyAddress frame.leftmost = none ∨ ¬ RootCycle frame LeftChild) ∧
        SearchFits stack frame := by
  constructor
  · -- what is returned has read the root's entry and come to the end of the left children
    rintro ⟨_, ⟨hwalk, hroot, hleftmost⟩, _⟩
    refine ⟨fun root heq => ?_, ?_, _, walks_iff_search.mp ⟨_, _, hwalk, rfl⟩⟩
    · unfold rootBlackOf at hroot
      rw [heq] at hroot
      obtain ⟨node, hnode, _⟩ := Option.map_eq_some_iff.mp hroot
      exact Option.isSome_of_eq_some hnode
    · cases hleftmost with
      | absent habsent => exact .inl habsent
      | compare _ hmin =>
        right
        rintro ⟨root, heq, hcycle⟩
        exact not_cycleReachable_of_ends (hmin.ends root heq) hcycle
  · -- these three are all that can fail
    rintro ⟨hfound, hleft, seen, hsearch⟩
    have hwalks := @walks_iff_search frame.map stack frame.root false startWalk seen
    obtain ⟨height, st, hwalk, -⟩ := hwalks.mpr hsearch
    -- `map[root].color`
    obtain ⟨rootBlack, hroot⟩ : ∃ rootBlack, rootBlackOf frame = some rootBlack := by
      unfold rootBlackOf
      cases heq : truthyAddress frame.root with
      | none => exact ⟨true, rfl⟩
      | some root =>
        obtain ⟨node, hnode⟩ := Option.isSome_iff_exists.mp (hfound root heq)
        exact ⟨!node.red, by simp [hnode]⟩
    -- `structuralMinimum`, which is called for a leftmost node only
    obtain ⟨leftmost, hleftmost⟩ : ∃ leftmost, LeftmostCorrect frame leftmost := by
      cases heq : truthyAddress frame.leftmost with
      | none => exact ⟨true, .absent heq⟩
      | some address =>
        have hends : ¬ RootCycle frame LeftChild := by
          rcases hleft with hnone | hends
          · exact absurd (heq.symm.trans hnone) (by simp)
          · exact hends
        obtain ⟨min, hmin⟩ := structuralMinimum_isSome frame.root
          fun a ha hcycle => hends ⟨a, ha, hcycle⟩
        exact ⟨_, .compare heq (structuralMinimum_minimum hmin)⟩
    have hverifies : Verifies stack frame _ := .intro hwalk hroot hleftmost
    exact ⟨_, hverifies, hverifies.ok_of_cycle⟩

/-- A search fits a stack with room for a call for each entry and one more. -/
theorem searchFits_of_length (h : frame.map.length < stack) : SearchFits stack frame := by
  obtain ⟨n, st, hwalks⟩ := exists_walks frame.map frame.root false h
  exact ⟨_, walks_iff_search.mp ⟨n, st, hwalks, rfl⟩⟩

/-- A node that is its own left child, and the leftmost one. -/
def selfLoop : Frame :=
  let address := text "0x10"
  { rq := text "0x40"
    entity := none
    runNode := none
    focus := none
    root := some address
    leftmost := some address
    truncated := false
    map := [(address, ⟨address, some address, none, false⟩)]
    count := 1 }

/-- The way along left children never ends, so that nothing is returned. -/
theorem selfLoop_hangs :
    ¬ ∃ checks, Verifies 1000 selfLoop checks ∧ (RootCycle selfLoop Child → checks.ok = false) := by
  rintro ⟨checks, h, _⟩
  have hreturned := verifyFrame_eq_some.mpr h
  rw [show verifyFrame 1000 selfLoop = none by decide] at hreturned
  exact absurd hreturned (by simp)

end Verify

end LinuxMaxxing.App
