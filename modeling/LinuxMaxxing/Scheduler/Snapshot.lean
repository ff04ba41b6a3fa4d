import LinuxMaxxing.Lib.BpfLoop
import LinuxMaxxing.Lib.RedBlack

/-!
# Snapshots of a Runqueue

`emit_snapshot` of `cfs.bpf.c`: the breadth-first walk over the red-black tree of a runqueue,
with room for 31 nodes.

- `KernelMemory`: the nodes as the probe reads them; `InMemory` says that a tree is there;
- `ScratchState`: the per-CPU workspace, with whatever an earlier snapshot left in it;
- `emitSnapshot_spec`, `emitSnapshot_firstNodes`: the event has the first 31 nodes in level order.
-/

namespace LinuxMaxxing.Scheduler

open LinuxMaxxing.Lib LinuxMaxxing.Lib.LevelOrder

/-! ## Kernel memory -/

/-- `MAX_TREE_NODES` -/
def maxTreeNodes : Nat := 31

/-- A `struct rb_node` with the task around it; `comm` is what `bpf_probe_read_kernel_str` reads
    of the task's name, `none` when it fails. -/
structure KernelNode where
  rbParentColor : BitVec 64
  rbLeft : BitVec 64
  rbRight : BitVec 64
  pid : BitVec 32
  comm : Option (List UInt8)

/-- What is at the addresses of nodes. -/
abbrev KernelMemory := BitVec 64 → KernelNode

/-- A `struct cfs_rq`. -/
structure CfsRq where
  address : BitVec 64
  nrRunning : BitVec 64
  rbRoot : BitVec 64
  rbLeftmost : BitVec 64

/-! ## The event -/

/-- `struct tree_node` -/
structure TreeNode where
  node : BitVec 64
  left : BitVec 64
  right : BitVec 64
  pid : BitVec 32
  color : BitVec 32
  comm : List UInt8

/-- `struct cfs_event_info` -/
structure CfsEventInfo where
  enqueuedEntity : BitVec 64
  enqueuedRbNode : BitVec 64

/-- `struct cfs_context` -/
structure CfsContext where
  cpu : BitVec 32
  pid : BitVec 32
  tid : BitVec 32
  comm : List UInt8

/-- `struct cfs_state` -/
structure CfsState where
  cfsRq : BitVec 64
  nrRunning : BitVec 64
  root : BitVec 64
  leftmost : BitVec 64
  nodeCount : BitVec 32
  truncated : BitVec 32
  nodes : Nat → TreeNode

/-- `struct cfs_event` -/
structure CfsEvent where
  timeNs : BitVec 64
  eventInfo : CfsEventInfo
  context : CfsContext
  state : CfsState

/-- `struct scratch_state` -/
structure ScratchState where
  event : CfsEvent
  traversalWorklist : Nat → BitVec 64
  head : Nat
  tail : Nat

/-! ## The walk -/

/-- `read_node_comm` -/
def readNodeComm (comm : Option (List UInt8)) : List UInt8 :=
  let name := (comm.getD []).take 15
  name ++ List.replicate (16 - name.length) 0

/-- `fill_node` -/
def fillNode (memory : KernelMemory) (dst : TreeNode) (node : BitVec 64) : TreeNode :=
  if node = 0 then { dst with node := node }
  else
    { node := node
      left := (memory node).rbLeft
      right := (memory node).rbRight
      pid := (memory node).pid
      color := ((memory node).rbParentColor &&& 1).setWidth 32
      comm := readNodeComm (memory node).comm }

/-- A child goes to the worklist, if there is one and there is room. -/
def pushChild (s : ScratchState) (child : BitVec 64) : ScratchState :=
  if child ≠ 0 then
    if s.tail < maxTreeNodes then
      { s with
        traversalWorklist := Function.update s.traversalWorklist s.tail child
        tail := s.tail + 1 }
    else { s with event.state.truncated := 1 }
  else s

/-- A node is taken off the worklist and stored. -/
def storeNode (s : ScratchState) (index : Nat) (node : TreeNode) : ScratchState :=
  { s with
    event.state.nodes := Function.update s.event.state.nodes index node
    head := s.head + 1 }

/-- `walk_one_node`, and whether it returns 1. -/
def walkOneNode (memory : KernelMemory) (index : Nat) (s : ScratchState) : ScratchState × Bool :=
  if index ≥ maxTreeNodes ∨ s.head ≥ maxTreeNodes ∨ s.tail > maxTreeNodes ∨ s.head ≥ s.tail ∨
      s.traversalWorklist s.head = 0 then (s, true)
  else
    let node := fillNode memory (s.event.state.nodes index) (s.traversalWorklist s.head)
    let s := storeNode s index node
    (pushChild (pushChild s node.left) node.right, false)

/-- What the probe finds around it. -/
structure Probe where
  timeNs : BitVec 64
  pidTgid : BitVec 64
  cpu : BitVec 32
  comm : List UInt8
  runNodeOffset : BitVec 64

/-- `emit_snapshot` up to the walk. -/
def beginSnapshot (probe : Probe) (cfsRq : CfsRq) (se : BitVec 64) (scratch : ScratchState) :
    ScratchState where
  event :=
    { timeNs := probe.timeNs
      eventInfo := ⟨se, se + probe.runNodeOffset⟩
      context :=
        ⟨probe.cpu, (probe.pidTgid >>> 32).setWidth 32, probe.pidTgid.setWidth 32, probe.comm⟩
      state :=
        { cfsRq := cfsRq.address
          nrRunning := cfsRq.nrRunning
          root := cfsRq.rbRoot
          leftmost := cfsRq.rbLeftmost
          nodeCount := 0
          truncated := 0
          nodes := scratch.event.state.nodes } }
  head := 0
  tail := 1
  traversalWorklist := Function.update scratch.traversalWorklist 0 cfsRq.rbRoot

/-- `emit_snapshot` after the walk. -/
def endSnapshot (s : ScratchState) : CfsEvent :=
  { s.event with
    state.nodeCount := BitVec.ofNat 32 s.head
    state.truncated := if s.head < s.tail then 1 else s.event.state.truncated }

/-- `emit_snapshot`: the event that it puts out. -/
def emitSnapshot (memory : KernelMemory) (probe : Probe) (cfsRq : CfsRq) (se : BitVec 64)
    (scratch : ScratchState) : CfsEvent :=
  endSnapshot (bpfLoop maxTreeNodes (walkOneNode memory) (beginSnapshot probe cfsRq se scratch))

/-! ## Trees in memory -/

/-- A node of a red-black tree: where it is, and its colour. -/
structure RbNode where
  address : BitVec 64
  red : Bool
  deriving DecidableEq, Repr

/-- A red-black tree. -/
abbrev RbTree := BinaryTree RbNode

/-- The pointer to a tree. -/
def pointer : RbTree → BitVec 64
  | .nil => 0
  | .node n _ _ => n.address

/-- `CFS_RB_RED` and `CFS_RB_BLACK` -/
def colorBit (red : Bool) : BitVec 64 := if red then 0 else 1

/-- The tree is in memory. -/
def InMemory (memory : KernelMemory) : RbTree → Prop
  | .nil => True
  | .node n l r =>
    n.address ≠ 0 ∧ (memory n.address).rbParentColor &&& 1 = colorBit n.red ∧
      (memory n.address).rbLeft = pointer l ∧ (memory n.address).rbRight = pointer r ∧
      InMemory memory l ∧ InMemory memory r

/-- The node that a snapshot has of a branch. -/
def captured (memory : KernelMemory) (b : Branch RbNode) : TreeNode where
  node := b.value.address
  left := pointer b.left
  right := pointer b.right
  pid := (memory b.value.address).pid
  color := (colorBit b.value.red).setWidth 32
  comm := readNodeComm (memory b.value.address).comm

section Walk

variable {memory : KernelMemory} {t : RbTree}

theorem inMemory_order (h : InMemory memory t) :
    ∀ b ∈ levelOrder t, InMemory memory (tree b) := by
  apply order_induct
  · intro b hb
    rw [tree_of_mem_top hb]
    exact h
  · intro b hb c hc
    obtain ⟨_, _, _, _, hl, hr⟩ := hb
    rcases List.mem_append.mp hc with hleft | hright
    · rw [tree_of_mem_top hleft]
      exact hl
    · rw [tree_of_mem_top hright]
      exact hr

/-- `fill_node` reads all of a branch. -/
theorem fillNode_branch {b : Branch RbNode} (h : InMemory memory (tree b)) (dst : TreeNode) :
    fillNode memory dst b.value.address = captured memory b := by
  obtain ⟨hne, hcolor, hleft, hright, _, _⟩ := h
  unfold fillNode captured
  rw [if_neg hne, hcolor, hleft, hright]

/-- The worklist holds these nodes, as far as there is room for them, and `truncated` says
    whether there was. -/
structure Queued (s : ScratchState) (queue : List (Branch RbNode)) : Prop where
  tail : s.tail = min maxTreeNodes queue.length
  entries : ∀ j (hj : j < queue.length), j < s.tail →
    s.traversalWorklist j = queue[j].value.address
  truncated : s.event.state.truncated = if queue.length ≤ maxTreeNodes then 0 else 1

/-- What a push leaves alone. -/
structure Pushed (s s' : ScratchState) : Prop where
  head : s'.head = s.head
  event : ∃ truncated, s'.event = { s.event with state.truncated := truncated }

theorem Pushed.trans {s s' s'' : ScratchState} (h : Pushed s s') (h' : Pushed s' s'') :
    Pushed s s'' := by
  obtain ⟨truncated, heq⟩ := h.event
  obtain ⟨truncated', heq'⟩ := h'.event
  refine ⟨h'.head.trans h.head, truncated', ?_⟩
  rw [heq', heq]

/-- **A push** appends the child to the queue. -/
theorem pushChild_spec {s : ScratchState} {queue : List (Branch RbNode)} (h : Queued s queue)
    {u : RbTree} (hu : InMemory memory u) :
    Queued (pushChild s (pointer u)) (queue ++ top u) ∧
      Pushed s (pushChild s (pointer u)) := by
  unfold pushChild
  cases u with
  | nil =>
    rw [if_neg (by simp [pointer]), top, List.append_nil]
    exact ⟨h, rfl, s.event.state.truncated, rfl⟩
  | node n l r =>
    rw [if_pos (show pointer (.node n l r) ≠ 0 from hu.1)]
    have hlength : (queue ++ top (.node n l r)).length = queue.length + 1 := by simp [top]
    have htail := h.tail
    by_cases hroom : s.tail < maxTreeNodes
    · rw [if_pos hroom]
      have hsame : s.tail = queue.length := by omega
      refine ⟨⟨?_, ?_, ?_⟩, rfl, s.event.state.truncated, rfl⟩
      · show s.tail + 1 = _
        omega
      · intro j hj hjtail
        change j < s.tail + 1 at hjtail
        show Function.update s.traversalWorklist s.tail (pointer (.node n l r)) j = _
        by_cases hlast : j = s.tail
        · subst hlast
          rw [Function.update_self]
          simp [hsame, top, pointer]
        · have hj' : j < queue.length := by omega
          rw [Function.update_of_ne hlast, h.entries j hj' (by omega),
            List.getElem_append_left hj']
      · show s.event.state.truncated = _
        rw [h.truncated, hlength, if_pos (by omega), if_pos (by omega)]
    · rw [if_neg hroom]
      refine ⟨⟨?_, ?_, ?_⟩, rfl, 1, rfl⟩
      · show s.tail = _
        omega
      · intro j hj hjtail
        have hj' : j < queue.length := by
          change j < s.tail at hjtail
          omega
        rw [List.getElem_append_left hj']
        exact h.entries j hj' hjtail
      · show (1 : BitVec 32) = _
        rw [hlength, if_neg (by omega)]

/-- The queue of a breadth-first search that has visited `i` nodes. -/
def queueAt (t : RbTree) (i : Nat) : List (Branch RbNode) :=
  top t ++ ((levelOrder t).take i).flatMap children

theorem queueAt_isPrefix (t : RbTree) (i : Nat) : queueAt t i <+: levelOrder t := by
  refine ⟨((levelOrder t).drop i).flatMap children, ?_⟩
  unfold queueAt
  rw [List.append_assoc, ← List.flatMap_append, List.take_append_drop, ← levelOrder_fixed]

/-- When all of the queue is visited, all of the tree is. -/
theorem length_of_visited {i : Nat} (h : (queueAt t i).length = i) :
    (levelOrder t).length = i := by
  have hle := (queueAt_isPrefix t i).length_le
  have hsplit : levelOrder t = queueAt t i ++ ((levelOrder t).drop i).flatMap children := by
    unfold queueAt
    rw [List.append_assoc, ← List.flatMap_append, List.take_append_drop, ← levelOrder_fixed]
  have hrest : (levelOrder t).drop i = ((levelOrder t).drop i).flatMap children := by
    conv_lhs => rw [hsplit]
    rw [List.drop_append_of_le_length (by omega), List.drop_of_length_le (by omega),
      List.nil_append]
  have hdone := List.drop_eq_nil_iff.mp (eq_nil_of_children hrest)
  omega

theorem queueAt_succ {i : Nat} (hi : i < (levelOrder t).length) :
    queueAt t (i + 1) = queueAt t i ++ children (levelOrder t)[i] := by
  unfold queueAt
  rw [List.take_succ_eq_append_getElem hi, List.flatMap_append, List.flatMap_singleton,
    List.append_assoc]

theorem queueAt_getElem {i : Nat} (hi : i < (queueAt t i).length)
    (hi' : i < (levelOrder t).length) : (queueAt t i)[i] = (levelOrder t)[i] :=
  (queueAt_isPrefix t i).getElem hi

/-- What has been done after `i` rounds. -/
structure Walked (memory : KernelMemory) (t : RbTree) (start : CfsEvent) (i : Nat)
    (s : ScratchState) : Prop where
  head : s.head = i
  queue : i ≤ (queueAt t i).length
  queued : Queued s (queueAt t i)
  nodes : ∀ j (hj : j < (levelOrder t).length), j < i →
    s.event.state.nodes j = captured memory (levelOrder t)[j]
  event : ∃ nodes truncated,
    s.event = { start with state.nodes := nodes, state.truncated := truncated }

/-- **One round** of the walk stops with all nodes visited, or visits one. -/
theorem walkOneNode_spec (ht : InMemory memory t) {start : CfsEvent} {i : Nat}
    (hi : i < maxTreeNodes) {s : ScratchState} (h : Walked memory t start i s) :
    (walkOneNode memory i s).2 = true ∧ (walkOneNode memory i s).1 = s ∧
        (levelOrder t).length = i ∨
      (walkOneNode memory i s).2 = false ∧
        Walked memory t start (i + 1) (walkOneNode memory i s).1 := by
  have htail := h.queued.tail
  have hhead := h.head
  have hqueue := h.queue
  by_cases hmore : i < (queueAt t i).length
  -- the worklist has a node at its head, the `i`-th in level order
  · right
    have hi' : i < (levelOrder t).length :=
      Nat.lt_of_lt_of_le hmore (queueAt_isPrefix t i).length_le
    have hbranch := inMemory_order ht _ (List.getElem_mem hi')
    have hentry : s.traversalWorklist s.head = (levelOrder t)[i].value.address := by
      rw [hhead, h.queued.entries i hmore (by omega), queueAt_getElem hmore hi']
    have hgo : ¬ (i ≥ maxTreeNodes ∨ s.head ≥ maxTreeNodes ∨ s.tail > maxTreeNodes ∨
        s.head ≥ s.tail ∨ s.traversalWorklist s.head = 0) := by
      rw [hentry]
      rintro (hge | hge | hgt | hge | hnull)
      · omega
      · omega
      · omega
      · omega
      · exact hbranch.1 hnull
    unfold walkOneNode
    rw [if_neg hgo, hentry, fillNode_branch hbranch]
    refine ⟨rfl, ?_⟩
    obtain ⟨_, _, _, _, hl, hr⟩ := hbranch
    have hqueued : Queued (storeNode s i (captured memory (levelOrder t)[i])) (queueAt t i) :=
      ⟨h.queued.tail, h.queued.entries, h.queued.truncated⟩
    obtain ⟨hleft, hpushedl⟩ := pushChild_spec hqueued hl
    obtain ⟨hright, hpushedr⟩ := pushChild_spec hleft hr
    have hpushed := hpushedl.trans hpushedr
    obtain ⟨truncated, hevent⟩ := hpushed.event
    have hnext := queueAt_succ (t := t) hi'
    rw [List.append_assoc] at hright
    refine ⟨?_, ?_, ?_, ?_, ?_⟩
    · exact hpushed.head.trans (congrArg (· + 1) hhead)
    · rw [hnext, List.length_append]
      omega
    · rw [hnext]
      exact hright
    -- the children go to the worklist, and no record of a node changes but this one's
    · intro j hj hjlt
      refine (congrArg (fun event : CfsEvent => event.state.nodes j) hevent).trans ?_
      show Function.update s.event.state.nodes i (captured memory (levelOrder t)[i]) j = _
      by_cases hlast : j = i
      · subst hlast
        rw [Function.update_self]
      · rw [Function.update_of_ne hlast]
        exact h.nodes j hj (by omega)
    · obtain ⟨nodes, truncated', hstart⟩ := h.event
      refine ⟨Function.update s.event.state.nodes i (captured memory (levelOrder t)[i]),
        truncated, hevent.trans ?_⟩
      unfold storeNode
      rw [hstart]
  -- the worklist is empty: the walk has visited every node
  · left
    have hstop : i ≥ maxTreeNodes ∨ s.head ≥ maxTreeNodes ∨ s.tail > maxTreeNodes ∨
        s.head ≥ s.tail ∨ s.traversalWorklist s.head = 0 :=
      .inr (.inr (.inr (.inl (by omega))))
    unfold walkOneNode
    rw [if_pos hstop]
    exact ⟨rfl, rfl, length_of_visited (by omega)⟩

/-- The walk, from a worklist that has the root. -/
theorem walk_spec (ht : InMemory memory t) (hne : t ≠ .nil) {s : ScratchState}
    (hhead : s.head = 0) (htail : s.tail = 1) (hroot : s.traversalWorklist 0 = pointer t)
    (htruncated : s.event.state.truncated = 0) :
    ∃ i, Walked memory t s.event i (bpfLoop maxTreeNodes (walkOneNode memory) s) ∧
      i = min maxTreeNodes (levelOrder t).length := by
  have hqueue : queueAt t 0 = top t := by
    unfold queueAt
    rw [List.take_zero, List.flatMap_nil, List.append_nil]
  have hstart : Walked memory t s.event 0 s := by
    refine ⟨hhead, Nat.zero_le _, ?_, fun j _ hj => absurd hj (Nat.not_lt_zero j),
      s.event.state.nodes, s.event.state.truncated, rfl⟩
    rw [hqueue]
    cases ht' : t with
    | nil => exact absurd ht' hne
    | node n l r =>
      refine ⟨htail, fun j hj hjtail => ?_, htruncated⟩
      have hj0 : j = 0 := by omega
      subst hj0
      rw [hroot, ht']
      rfl
  refine bpfLoop_ensures (Walked memory t s.event) (fun s' => ∃ i,
    Walked memory t s.event i s' ∧ i = min maxTreeNodes (levelOrder t).length) hstart ?_ ?_
  · intro i hi s' h
    rcases walkOneNode_spec ht hi h with ⟨hstop, hsame, hall⟩ | hgo
    · refine .inl ⟨hstop, i, ?_, by omega⟩
      rw [hsame]
      exact h
    · exact .inr hgo
  · intro s' h
    refine ⟨maxTreeNodes, h, ?_⟩
    have hle := (queueAt_isPrefix t maxTreeNodes).length_le
    have hvisited := h.queue
    omega

/-- With nothing at the head of the worklist the walk stops at once. -/
theorem walk_null {s : ScratchState} (hnull : s.traversalWorklist s.head = 0) :
    bpfLoop maxTreeNodes (walkOneNode memory) s = s := by
  refine bpfLoop_ensures (fun i s' => i = 0 ∧ s' = s) (fun s' => s' = s) ⟨rfl, rfl⟩ ?_ ?_
  · rintro i _ s' ⟨rfl, rfl⟩
    left
    unfold walkOneNode
    rw [if_pos (.inr (.inr (.inr (.inr hnull))))]
    exact ⟨rfl, rfl⟩
  · rintro s' ⟨hzero, _⟩
    exact absurd hzero (by decide)

/-- The nodes that the rounds have captured are the first in level order. -/
theorem Walked.nodes_eq {start : CfsEvent} {i : Nat} {s : ScratchState}
    (h : Walked memory t start i s) (hi : i = min maxTreeNodes (levelOrder t).length) :
    (List.range i).map s.event.state.nodes =
      ((levelOrder t).take maxTreeNodes).map (captured memory) := by
  apply List.ext_getElem
  · simp [hi]
  · intro j hj hj'
    have hlt : j < i := by simpa using hj
    rw [List.getElem_map, List.getElem_map, List.getElem_range, List.getElem_take]
    exact h.nodes j (by omega) hlt

end Walk

/-! ## The emitted event -/

/-- An event that shows the first nodes of a tree. -/
structure SnapshotOf (memory : KernelMemory) (t : RbTree) (rq : CfsRq) (e : CfsEvent) : Prop where
  nodes : (List.range e.state.nodeCount.toNat).map e.state.nodes =
    ((levelOrder t).take maxTreeNodes).map (captured memory)
  cfsRq : e.state.cfsRq = rq.address
  root : e.state.root = rq.rbRoot
  leftmost : e.state.leftmost = rq.rbLeftmost
  truncated : t ≠ .nil →
    e.state.truncated = if (levelOrder t).length ≤ maxTreeNodes then 0 else 1

/-- **The snapshot**: the first 31 nodes in level order, whatever an earlier one left behind, and
    `truncated` exactly when there are more. -/
theorem emitSnapshot_spec {memory : KernelMemory} {t : RbTree} (ht : InMemory memory t)
    {cfsRq : CfsRq} (hroot : cfsRq.rbRoot = pointer t) (probe : Probe) (se : BitVec 64)
    (scratch : ScratchState) :
    SnapshotOf memory t cfsRq (emitSnapshot memory probe cfsRq se scratch) := by
  unfold emitSnapshot
  generalize hstart : beginSnapshot probe cfsRq se scratch = s
  have hfirst : s.traversalWorklist 0 = pointer t := by
    rw [← hstart, ← hroot]
    exact Function.update_self 0 cfsRq.rbRoot scratch.traversalWorklist
  by_cases hne : t = .nil
  · -- the walk stops at once
    have hnull : s.traversalWorklist s.head = 0 := by
      have hhead : s.head = 0 := by
        rw [← hstart]
        rfl
      rw [hhead, hfirst, hne]
      rfl
    rw [walk_null hnull, ← hstart]
    refine ⟨?_, rfl, rfl, rfl, fun h => absurd hne h⟩
    rw [hne]
    rfl
  · obtain ⟨i, hwalked, hi⟩ := walk_spec ht hne (s := s) (by rw [← hstart]; rfl)
      (by rw [← hstart]; rfl) hfirst (by rw [← hstart]; rfl)
    generalize bpfLoop maxTreeNodes (walkOneNode memory) s = s' at hwalked
    have hmax : maxTreeNodes = 31 := rfl
    have hqueued := hwalked.queued
    have hhead := hwalked.head
    have hqueue := hwalked.queue
    have hle := (queueAt_isPrefix t i).length_le
    have hdone : ¬ s'.head < s'.tail := by
      rw [hqueued.tail, hhead]
      omega
    obtain ⟨nodes, truncated, hevent⟩ := hwalked.event
    have hcount : (BitVec.ofNat 32 s'.head).toNat = i := by
      rw [BitVec.toNat_ofNat, hhead]
      omega
    refine ⟨?_, ?_, ?_, ?_, fun _ => ?_⟩
    · show (List.range (BitVec.ofNat 32 s'.head).toNat).map s'.event.state.nodes = _
      rw [hcount]
      exact hwalked.nodes_eq hi
    · show s'.event.state.cfsRq = _
      rw [hevent, ← hstart]
      rfl
    · show s'.event.state.root = _
      rw [hevent, ← hstart]
      rfl
    · show s'.event.state.leftmost = _
      rw [hevent, ← hstart]
      rfl
    · show (if s'.head < s'.tail then 1 else s'.event.state.truncated) = _
      rw [if_neg hdone, hqueued.truncated]
      by_cases hall : (levelOrder t).length ≤ maxTreeNodes
      · rw [if_pos hall, if_pos (by omega)]
      · rw [if_neg hall, if_neg]
        -- a worklist that is just full would have all the nodes
        intro hfull
        have hvisited := length_of_visited (t := t) (i := i) (by omega)
        omega

/-- What the walk makes of a tree with nodes: how many of them there is room for, the first so
    many in level order, and whether that is all. -/
theorem emitSnapshot_firstNodes {memory : KernelMemory} {t : RbTree} (ht : InMemory memory t)
    (hne : t ≠ .nil) {cfsRq : CfsRq} (hroot : cfsRq.rbRoot = pointer t) (probe : Probe)
    (se : BitVec 64) (scratch : ScratchState) :
    let e := emitSnapshot memory probe cfsRq se scratch
    e.state.nodeCount.toNat = min maxTreeNodes t.numNodes ∧
      (∀ i (hi : i < (levelOrder t).length), i < e.state.nodeCount.toNat →
        e.state.nodes i = captured memory (levelOrder t)[i]) ∧
      (e.state.truncated = 1 ↔ maxTreeNodes < t.numNodes) := by
  intro e
  have hshown : SnapshotOf memory t cfsRq e := emitSnapshot_spec ht hroot probe se scratch
  have hcount : e.state.nodeCount.toNat = min maxTreeNodes t.numNodes := by
    have hlength := congrArg List.length hshown.nodes
    rw [List.length_map, List.length_range, List.length_map, List.length_take,
      length_levelOrder] at hlength
    exact hlength
  refine ⟨hcount, ?_, ?_⟩
  · intro i hi hlt
    have hget := congrArg (fun nodes => nodes[i]?) hshown.nodes
    have hroom : i < min maxTreeNodes (levelOrder t).length := by
      rw [length_levelOrder]
      exact hcount ▸ hlt
    have hkept : i < maxTreeNodes := Nat.lt_of_lt_of_le hroom (Nat.min_le_left _ _)
    simpa [hlt, hkept, hi] using hget
  · rw [hshown.truncated hne, length_levelOrder]
    by_cases hall : t.numNodes ≤ maxTreeNodes
    · simp [hall]
    · simp [hall, Nat.lt_of_not_le hall]

/-- A runqueue of two tasks: the root at 8, and its child to the right at 16. -/
theorem emitSnapshot_firstNodes_two :
    let child : KernelNode := ⟨8, 0, 0, 2, none⟩
    let memory : KernelMemory := fun a => if a = 8 then ⟨1, 0, 16, 1, none⟩ else child
    let t : RbTree := .node ⟨8, false⟩ .nil (.node ⟨16, true⟩ .nil .nil)
    let stale : TreeNode := ⟨0, 0, 0, 0, 0, []⟩
    let event : CfsEvent := ⟨0, ⟨0, 0⟩, ⟨0, 0, 0, []⟩, ⟨0, 0, 0, 0, 7, 1, fun _ => stale⟩⟩
    let e := emitSnapshot memory ⟨0, 0, 0, [], 0⟩ ⟨64, 2, 8, 8⟩ 0 ⟨event, fun _ => 5, 9, 9⟩
    e.state.nodeCount.toNat = min maxTreeNodes t.numNodes ∧
      (∀ i (hi : i < (levelOrder t).length), i < e.state.nodeCount.toNat →
        e.state.nodes i = captured memory (levelOrder t)[i]) ∧
      (e.state.truncated = 1 ↔ maxTreeNodes < t.numNodes) := by
  intro child memory t stale event e
  have ht : InMemory memory t := by
    simp [InMemory, memory, t, child, pointer, colorBit]
  have hne : t ≠ .nil := by simp [t]
  have hroot : (⟨64, 2, 8, 8⟩ : CfsRq).rbRoot = pointer t := rfl
  exact emitSnapshot_firstNodes ht hne hroot ⟨0, 0, 0, [], 0⟩ 0 ⟨event, fun _ => 5, 9, 9⟩

end LinuxMaxxing.Scheduler
