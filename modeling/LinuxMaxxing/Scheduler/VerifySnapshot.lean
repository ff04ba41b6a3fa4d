import LinuxMaxxing.App.Agreement
import LinuxMaxxing.App.FrameTree
import LinuxMaxxing.Scheduler.WriteSnapshot

/-!
# Verifying Snapshots

A red-black tree in kernel memory, captured by `emit_snapshot`, written as a line, read by
`parseSnapshot` and checked by `verifyFrame`.

- `parseSnapshot_snapshot`: the frame has the captured nodes, by their addresses;
- `Shown`: a tree of which a map has the nodes that are kept, which makes it a tree as
  `App.FrameTree` has them;
- `verify_snapshot_iff`: the frame is not reported as a failure exactly when the nodes after the
  first 31 are red, or the first five levels look like a tree of their own.

Strings keep their octets; all but the names of tasks are ASCII.
-/

namespace LinuxMaxxing.Scheduler

open LinuxMaxxing.Lib LinuxMaxxing.Lib.LevelOrder LinuxMaxxing.Lib.RedBlack
open LinuxMaxxing.Common LinuxMaxxing.Common.JsonWriter
open LinuxMaxxing.Framework (Text text)
open LinuxMaxxing.App LinuxMaxxing.App.JsValue

/-! ## Names and addresses -/

/-- A literal of the writer is the literal of the reader. -/
theorem stringOctets_literal (s : String) (hzero : (0 : UInt8) ∉ s.toUTF8.data.toList)
    (hsize : s.toUTF8.data.toList.length ≤ sizeMax) :
    stringOctets (literal s) sizeMax = text s :=
  octets_literal s hzero hsize

/-- The text of an address. -/
def addressText (v : BitVec 64) : Text := 0x30 :: 0x78 :: zeroPad 16 (hex v.toNat)

theorem addressText_injective {v w : BitVec 64} (hv : v ≠ 0) (hw : w ≠ 0)
    (h : addressText v = addressText w) : v = w := by
  apply ptrValue_injective
  unfold ptrValue
  rw [if_pos hv, if_pos hw]
  exact congrArg Json.Value.str h

/-- An address as the frame has it. -/
def shownAddress (v : BitVec 64) : Option Text := if v = 0 then none else some (addressText v)

/-- **A pointer is read back** by its text, and a null pointer as null. -/
theorem addressOf_ptrValue (v : BitVec 64) :
    addressOf (some (load (ptrValue v))) = shownAddress v := by
  unfold ptrValue shownAddress
  by_cases hv : v = 0
  · rw [if_neg (not_not.mpr hv), if_pos hv, load]
    rfl
  · rw [if_pos hv, if_neg hv, load]
    -- none of the names of the null pointer is as long
    have hne : ∀ c : Text, c.length < 18 → isStr (some (.str (addressText v))) c = false := by
      intro c hc
      refine decide_eq_false fun heq => ?_
      have hlength : 18 ≤ (addressText v).length := by
        simp only [addressText, zeroPad, List.length_cons, List.length_append,
          List.length_replicate]
        omega
      rw [heq] at hlength
      omega
    have hvalid : valid (some (.str (addressText v))) = true := by
      unfold valid
      rw [hne _ (by decide), hne _ (by decide), hne _ (by decide)]
      rfl
    show addressOf (some (.str (addressText v))) = _
    unfold addressOf
    rw [if_pos hvalid]

/-! ## Reading a record -/

theorem prop_obj {ms : List (Text × Json.Value)} (h : (ms.map Prod.fst).Nodup) (name : String) :
    (load (.obj ms)).prop name = (ms.lookup (text name)).map load := by
  have hload : load (.obj ms) = .obj (loadMembers ms) := by
    rw [load, foldl_setMember, List.nil_append]
    rw [List.nil_append, keys_js]
    exact h
  rw [hload, prop, lookup_js]

theorem prop_record {ms : Members} (h : (ms.values.map Prod.fst).Nodup) (name : String) :
    (load (Tree.obj ms).value).prop name = (ms.values.lookup (text name)).map load := by
  rw [Tree.value]
  exact prop_obj h name

theorem load_literal (s : String) (hzero : (0 : UInt8) ∉ s.toUTF8.data.toList)
    (hsize : s.toUTF8.data.toList.length ≤ sizeMax) :
    load (Tree.scalar (.string (literal s))).value = .str (text s) := by
  rw [Tree.value, Scalar.value, stringOctets_literal s hzero hsize, load]

section Record

variable (event : CfsEvent) (seq : BitVec 32)

theorem record_props :
    (load (snapshotTree event seq).value).prop "kind" = some (.str (text "enqueue_entity")) ∧
      (load (snapshotTree event seq).value).prop "context" =
        some (load (Tree.obj (contextMembers event.context)).value) ∧
      (load (snapshotTree event seq).value).prop "state" = some (load (Tree.obj (.field
        (literal "runqueue") (.obj (runqueueMembers event.state event.eventInfo)) .nil)).value) := by
  unfold snapshotTree stringField u32Field
  rw [prop_record, prop_record, prop_record, ← load_literal "enqueue_entity" (by decide) (by decide)]
  · simp (disch := decide) only [Members.values, nameOctets, stringOctets_literal]
    exact ⟨rfl, rfl, rfl⟩
  all_goals
    simp (disch := decide) only [Members.values, nameOctets, stringOctets_literal, List.map]
    decide

theorem context_cpu (context : CfsContext) :
    (load (Tree.obj (contextMembers context)).value).prop "cpu" =
      some (load (Tree.scalar (.u32 context.cpu)).value) := by
  unfold contextMembers u32Field
  rw [prop_record]
  · simp (disch := decide) only [Members.values, nameOctets, stringOctets_literal]
    rfl
  · simp (disch := decide) only [Members.values, nameOctets, stringOctets_literal, List.map]
    decide

theorem state_runqueue (ms : Members) :
    (load (Tree.obj (.field (literal "runqueue") (.obj ms) .nil)).value).prop "runqueue" =
      some (load (Tree.obj ms).value) := by
  rw [prop_record]
  · simp (disch := decide) only [Members.values, nameOctets, stringOctets_literal]
    rfl
  · exact List.nodup_singleton _

theorem runqueue_props (state : CfsState) (eventInfo : CfsEventInfo) :
    (load (Tree.obj (runqueueMembers state eventInfo)).value).prop "address" =
        some (load (ptrValue state.cfsRq)) ∧
      (load (Tree.obj (runqueueMembers state eventInfo)).value).prop "root" =
        some (load (ptrValue state.root)) ∧
      (load (Tree.obj (runqueueMembers state eventInfo)).value).prop "leftmost" =
        some (load (ptrValue state.leftmost)) ∧
      (load (Tree.obj (runqueueMembers state eventInfo)).value).prop "nodes" =
        some (load (Tree.arr (nodeElements state.shown)).value) := by
  unfold runqueueMembers u32Field
  rw [prop_record, prop_record, prop_record, prop_record]
  · simp (disch := decide) only [Members.values, nameOctets, stringOctets_literal]
    exact ⟨rfl, rfl, rfl, rfl⟩
  all_goals
    simp (disch := decide) only [Members.values, nameOctets, stringOctets_literal, List.map]
    decide

theorem node_props (node : TreeNode) :
    (load (nodeTree node).value).prop "address" = some (load (ptrValue node.node)) ∧
      (load (nodeTree node).value).prop "left" = some (load (ptrValue node.left)) ∧
      (load (nodeTree node).value).prop "right" = some (load (ptrValue node.right)) ∧
      (load (nodeTree node).value).prop "color" =
        some (load (Tree.scalar (.string (colorName node.color))).value) := by
  unfold nodeTree stringField u32Field
  rw [prop_record, prop_record, prop_record, prop_record]
  · simp (disch := decide) only [Members.values, nameOctets, stringOctets_literal]
    exact ⟨rfl, rfl, rfl, rfl⟩
  all_goals
    simp (disch := decide) only [Members.values, nameOctets, stringOctets_literal, List.map]
    decide

theorem load_nodes (nodes : List TreeNode) :
    load (Tree.arr (nodeElements nodes)).value =
      .arr (nodes.map fun node => load (nodeTree node).value) := by
  rw [Tree.value, load]
  congr 1
  induction nodes with
  | nil => rfl
  | cons node nodes ih =>
    rw [nodeElements, Elements.values, loadList, ih]
    rfl

end Record

/-! ## The frame of a snapshot -/

/-- The entry of a frame for a branch. -/
def shownNode (b : Branch RbNode) : FrameNode where
  address := addressText b.value.address
  left := shownAddress (pointer b.left)
  right := shownAddress (pointer b.right)
  red := b.value.red

/-- The map of a frame with these nodes. -/
def shownMap (bs : List (Branch RbNode)) : FrameMap :=
  bs.map fun b => ((shownNode b).address, shownNode b)

theorem isStr_colorName (red : Bool) :
    isStr (some (load (Tree.scalar (.string (colorName ((colorBit red).setWidth 32)))).value))
      (text "red") = red := by
  cases red with
  | true =>
    rw [show colorName ((colorBit true).setWidth 32) = literal "red" from rfl,
      load_literal "red" (by decide) (by decide)]
    decide
  | false =>
    rw [show colorName ((colorBit false).setWidth 32) = literal "black" from rfl,
      load_literal "black" (by decide) (by decide)]
    decide

theorem addNode_captured (memory : KernelMemory) (map : FrameMap) {b : Branch RbNode}
    (hb : b.value.address ≠ 0) :
    addNode map (load (nodeTree (captured memory b)).value) = setNode map (shownNode b) := by
  obtain ⟨haddress, hleft, hright, hcolor⟩ := node_props (captured memory b)
  unfold addNode
  rw [haddress, hleft, hright, hcolor, addressOf_ptrValue, addressOf_ptrValue,
    addressOf_ptrValue]
  have hshown : shownAddress (captured memory b).node = some (addressText b.value.address) :=
    if_neg hb
  rw [hshown]
  show setNode map _ = _
  rw [show (captured memory b).color = (colorBit b.value.red).setWidth 32 from rfl,
    isStr_colorName]
  rfl

/-- **Nodes with different addresses** are entered one after the other. -/
theorem foldl_addNode (memory : KernelMemory) (bs : List (Branch RbNode)) :
    ∀ done : List (Branch RbNode), (∀ b ∈ bs, b.value.address ≠ 0) →
      ((done ++ bs).map fun b => addressText b.value.address).Nodup →
      (bs.map fun b => load (nodeTree (captured memory b)).value).foldl addNode (shownMap done) =
        shownMap (done ++ bs) := by
  induction bs with
  | nil =>
    intro done _ _
    rw [List.append_nil]
    rfl
  | cons b bs ih =>
    intro done hne hnodup
    have hfresh : (((shownMap done).map Prod.fst).contains (shownNode b).address) = false := by
      rw [List.map_append, List.map_cons] at hnodup
      have hdisjoint := (List.nodup_append.mp hnodup).2.2
      rw [List.contains_eq_mem, decide_eq_false_iff_not]
      intro hmem
      obtain ⟨c, hc, heq⟩ : ∃ c ∈ done, addressText c.value.address = (shownNode b).address := by
        simpa [shownMap, shownNode] using hmem
      exact hdisjoint _ (List.mem_map.mpr ⟨c, hc, rfl⟩) _ List.mem_cons_self heq
    have hset : setNode (shownMap done) (shownNode b) = shownMap (done ++ [b]) := by
      unfold setNode
      rw [hfresh, if_neg Bool.false_ne_true]
      simp [shownMap]
    rw [List.map_cons, List.foldl_cons, addNode_captured memory _ (hne b List.mem_cons_self), hset,
      ih (done ++ [b]) (fun c hc => hne c (List.mem_cons_of_mem _ hc)) (by simpa using hnodup)]
    simp

/-! ## The nodes of a frame -/

/-- A link of a frame to a tree. -/
def link (t : RbTree) : Option Text := shownAddress (pointer t)

/-- The name of a node in a frame. -/
def nodeName (n : RbNode) : Text := addressText n.address

/-- A tree of which the map has the nodes that are kept. -/
def Shown (map : FrameMap) (keep : RbNode → Bool) : RbTree → Prop
  | .nil => True
  | .node n l r => n.address ≠ 0 ∧
      map.lookup (nodeName n) = (if keep n then some (shownNode ⟨n, l, r⟩) else none) ∧
      Shown map keep l ∧ Shown map keep r

theorem link_node {n : RbNode} {l r : RbTree} (h : n.address ≠ 0) :
    link (.node n l r) = some (nodeName n) := if_neg h

/-- The name of a node is only an address: it begins with a digit. -/
theorem plainAddress_nodeName (n : RbNode) : PlainAddress (nodeName n) := by
  refine ⟨List.cons_ne_nil _ _, fun hname => ?_⟩
  have hfirst : ∀ name ∈ objectNames, name.head? ≠ some 0x30 := by decide
  exact hfirst _ hname rfl

theorem lookup_shownMap {bs : List (Branch RbNode)}
    (hnodup : (bs.map fun b => nodeName b.value).Nodup) {b : Branch RbNode} (hb : b ∈ bs) :
    (shownMap bs).lookup (nodeName b.value) = some (shownNode b) := by
  induction bs with
  | nil => exact absurd hb List.not_mem_nil
  | cons c bs ih =>
    rw [List.map_cons, List.nodup_cons] at hnodup
    unfold shownMap
    rw [List.map_cons, List.lookup_cons]
    rcases List.mem_cons.mp hb with rfl | hrest
    · rw [show (nodeName b.value == (shownNode b).address) = true from beq_self_eq_true _]
    · have hne : nodeName b.value ≠ nodeName c.value := fun heq =>
        hnodup.1 (List.mem_map.mpr ⟨b, hrest, heq⟩)
      rw [show (nodeName b.value == (shownNode c).address) = false from beq_false_of_ne hne]
      exact ih hnodup.2 hrest

theorem lookup_shownMap_eq_none {bs : List (Branch RbNode)} {name : Text}
    (h : name ∉ bs.map fun b => nodeName b.value) : (shownMap bs).lookup name = none := by
  induction bs with
  | nil => rfl
  | cons c bs ih =>
    rw [List.map_cons, List.mem_cons, not_or] at h
    unfold shownMap
    rw [List.map_cons, List.lookup_cons,
      show (name == (shownNode c).address) = false from beq_false_of_ne h.1]
    exact ih h.2

theorem Shown.link_eq {map : FrameMap} {keep : RbNode → Bool} {t : RbTree} (h : Shown map keep t) :
    link t = linkTo nodeName t := by
  cases t with
  | nil => rfl
  | node n l r => exact link_node h.1

/-- **What is shown is entered**: its links are the pointers of the tree. -/
theorem Shown.entered {map : FrameMap} {keep : RbNode → Bool} {t : RbTree}
    (h : Shown map keep t) : Entered nodeName RbNode.red keep map t := by
  induction t with
  | nil => trivial
  | node n l r ihl ihr =>
    obtain ⟨-, hnode, hl, hr⟩ := h
    have hentry : shownNode ⟨n, l, r⟩ = entryOf nodeName RbNode.red ⟨n, l, r⟩ := by
      rw [entryOf, ← hl.link_eq, ← hr.link_eq]
      rfl
    rw [hentry] at hnode
    exact ⟨hnode, ihl hl, ihr hr⟩

/-! ## A snapshot of a tree in the kernel -/

/-- What the kernel keeps true of the tree of a runqueue. -/
structure KernelTree (memory : KernelMemory) (rq : CfsRq) (t : RbTree) : Prop where
  address : rq.address ≠ 0
  inMemory : InMemory memory t
  distinct : ((values t).map RbNode.address).Nodup
  root : rq.rbRoot = pointer t
  black : ∀ b ∈ top t, b.value.red = false
  noRedRed : noRedRed RbNode.red false t = true
  balanced : balanced RbNode.red t = true
  leftmost : rq.rbLeftmost = ((minimum t).map RbNode.address).getD 0

/-- The frame of a snapshot, if there is one, is not reported as a failure; the call stack has room
    for a call for each captured node and one more. -/
def Passes (event : CfsEvent) (seq : BitVec 32) : Prop :=
  ∃ record, Json.parseDocument Json.octets (line event seq) = some record ∧
    ∀ frame, parseSnapshot (load record) = some frame →
      ∃ checks, verifyFrame (maxTreeNodes + 1) frame = some checks ∧ checks.ok = true

section Kernel

variable {memory : KernelMemory} {rq : CfsRq} {t : RbTree}

theorem KernelTree.address_ne (h : KernelTree memory rq t) {b : Branch RbNode}
    (hb : b ∈ levelOrder t) : b.value.address ≠ 0 := (inMemory_order h.inMemory b hb).1

theorem KernelTree.nodup (h : KernelTree memory rq t) : (values t).Nodup :=
  List.Nodup.of_map _ h.distinct

/-- Different nodes have different names. -/
theorem KernelTree.names_nodup (h : KernelTree memory rq t) :
    ((levelOrder t).map fun b => nodeName b.value).Nodup := by
  have hperm := (values_levelOrder t).map RbNode.address
  have hdistinct := hperm.nodup_iff.mpr h.distinct
  rw [List.map_map] at hdistinct
  refine List.Nodup.map_on ?_ (List.Nodup.of_map _ hdistinct)
  intro b hb c hc heq
  exact List.inj_on_of_nodup_map hdistinct hb hc
    (addressText_injective (h.address_ne hb) (h.address_ne hc) heq)

/-- **The frame has the first nodes** of the tree. -/
theorem parseSnapshot_snapshot (h : KernelTree memory rq t) {event : CfsEvent}
    (hevent : SnapshotOf memory t rq event) (seq : BitVec 32) :
    ∃ frame : Frame, frame.root = link t ∧ frame.leftmost = shownAddress rq.rbLeftmost ∧
      frame.map = shownMap ((levelOrder t).take maxTreeNodes) ∧
      parseSnapshot (load (snapshotTree event seq).value) =
        if frame.map = [] then none else some frame := by
  obtain ⟨hkind, hcontext, hstate⟩ := record_props event seq
  obtain ⟨haddress, hroot, hleftmost, hnodes⟩ := runqueue_props event.state event.eventInfo
  generalize hrq : load (Tree.obj (runqueueMembers event.state event.eventInfo)).value = value
    at haddress hroot hleftmost hnodes
  have hshown : event.state.shown =
      ((levelOrder t).take maxTreeNodes).map (captured memory) := hevent.nodes
  rw [load_nodes, hshown, List.map_map] at hnodes
  refine ⟨frameOf (addressText rq.address) value, ?_, ?_, ?_, ?_⟩
  · show addressOf (value.prop "root") = _
    rw [hroot, addressOf_ptrValue, hevent.root, h.root]
    rfl
  · show addressOf (value.prop "leftmost") = _
    rw [hleftmost, addressOf_ptrValue, hevent.leftmost]
  · unfold frameOf
    dsimp only
    rw [hnodes]
    refine foldl_addNode memory _ [] (fun b hb => h.address_ne (List.mem_of_mem_take hb)) ?_
    exact (h.names_nodup.sublist ((List.take_sublist _ _).map _))
  · have hstate' : ((load (snapshotTree event seq).value).prop "state").bind
        (fun state => state.prop "runqueue") = some value := by
      rw [hstate, Option.bind_some, state_runqueue, hrq]
    have hcpu : ((load (snapshotTree event seq).value).prop "context").bind
        (fun context => context.prop "cpu") =
          some (.num (⟨false, event.context.cpu.toNat, none, none⟩ : Json.Number).double) := by
      rw [hcontext, Option.bind_some, context_cpu]
      rfl
    have haddressOf : addressOf (value.prop "address") = some (addressText rq.address) := by
      rw [haddress, addressOf_ptrValue, hevent.cfsRq]
      exact if_neg h.address
    unfold parseSnapshot
    rw [hkind, hstate', hcpu, if_pos (show isStr (some (.str _)) _ = true from decide_eq_true rfl)]
    simp only [haddressOf]

/-- The frame shows the tree, without the nodes that are left out. -/
theorem KernelTree.shown (h : KernelTree memory rq t) (N : Nat) :
    Shown (shownMap ((levelOrder t).take N)) (firstNodes N t) t := by
  have hnodup := h.names_nodup
  rw [← List.take_append_drop N (levelOrder t), List.map_append] at hnodup
  obtain ⟨hfirst, _, hdisjoint⟩ := List.nodup_append.mp hnodup
  refine subtree_induct (P := Shown _ _) trivial ?_
  intro b hb hl hr
  refine ⟨h.address_ne hb, ?_, hl, hr⟩
  rcases mem_take_or_drop (N := N) hb with htake | hdrop
  · rw [if_pos (firstNodes_take htake)]
    exact lookup_shownMap hfirst htake
  · rw [if_neg (ne_true_of_eq_false (firstNodes_drop h.nodup hdrop))]
    apply lookup_shownMap_eq_none
    intro hmem
    exact hdisjoint _ hmem _ (List.mem_map.mpr ⟨b, hdrop, rfl⟩) rfl

theorem KernelTree.names_values (h : KernelTree memory rq t) :
    ((values t).map nodeName).Nodup := by
  have hperm := (values_levelOrder t).map nodeName
  rw [List.map_map] at hperm
  exact hperm.nodup_iff.mp h.names_nodup

theorem KernelTree.names_cut (h : KernelTree memory rq t) (keep : RbNode → Bool) :
    (namesOf nodeName keep t).Nodup := by
  have hsub : ∀ u : RbTree, List.Sublist (values (cut keep u)) (values u) := by
    intro u
    induction u with
    | nil => exact List.Sublist.refl _
    | node n l r ihl ihr =>
      cases hkeep : keep n with
      | false =>
        rw [cut_left hkeep]
        exact List.nil_sublist _
      | true =>
        rw [cut_kept hkeep]
        exact (ihl.append ihr).cons_cons n
  exact h.names_values.sublist ((hsub t).map nodeName)

/-- The first node that the frame names is that of the tree. -/
theorem KernelTree.leftmost_shown (h : KernelTree memory rq t) :
    shownAddress rq.rbLeftmost = (minimum t).map nodeName := by
  rw [h.leftmost]
  cases hmin : minimum t with
  | none => rfl
  | some m =>
    have hmem := (values_levelOrder t).mem_iff.mpr (spineEnd_mem hmin)
    obtain ⟨b, hb, rfl⟩ := List.mem_map.mp hmem
    exact if_neg (h.address_ne hb)

/-- The first node of the frame is that of the tree when the way along left children ends there. -/
theorem KernelTree.minimum_iff (h : KernelTree memory rq t) (keep : RbNode → Bool) :
    (minimum t).map nodeName = (spineEnd keep t).map nodeName ↔ spineEnd keep t = minimum t := by
  constructor
  · intro heq
    cases hmin : minimum t with
    | none =>
      rw [spineEnd_eq_none.mp hmin]
      rfl
    | some m =>
      rw [hmin] at heq
      obtain ⟨c, hc, hname⟩ := Option.map_eq_some_iff.mp heq.symm
      rw [hc, List.inj_on_of_nodup_map h.names_values (spineEnd_mem hc) (spineEnd_mem hmin) hname]
  · intro heq
    rw [heq]

/-- The root of the frame is black. -/
theorem KernelTree.rootBlack (h : KernelTree memory rq t) (hne : t ≠ .nil) {frame : Frame}
    (hroot : frame.root = link t)
    (hshown : Shown frame.map (firstNodes maxTreeNodes t) t) : rootBlackOf frame = some true := by
  cases ht : t with
  | nil => exact absurd ht hne
  | node n l r =>
    rw [ht] at hshown h hroot
    have htop : (⟨n, l, r⟩ : Branch RbNode) ∈ (levelOrder (.node n l r)).take maxTreeNodes := by
      rw [levelOrder_fixed]
      exact List.mem_cons_self
    obtain ⟨haddress, hnode, -, -⟩ := hshown
    rw [if_pos (firstNodes_take htop)] at hnode
    have hred : n.red = false := h.black ⟨n, l, r⟩ List.mem_cons_self
    rw [← (plainAddress_nodeName n).nodeAt] at hnode
    rw [rootBlackOf, hroot, link_node haddress, (plainAddress_nodeName n).truthy]
    dsimp only
    rw [hnode]
    show some (!n.red) = some true
    rw [hred]
    rfl

/-- **The checks of a frame** that shows a tree. -/
theorem verifyFrame_shown (h : KernelTree memory rq t) (hne : t ≠ .nil) {frame : Frame}
    (hroot : frame.root = link t) (hleftmost : frame.leftmost = shownAddress rq.rbLeftmost)
    (hmap : frame.map = shownMap ((levelOrder t).take maxTreeNodes)) :
    ∃ checks, verifyFrame (maxTreeNodes + 1) frame = some checks ∧
      checks.ok = (balanced RbNode.red (cut (firstNodes maxTreeNodes t) t) &&
        decide (spineEnd (firstNodes maxTreeNodes t) t = minimum t)) := by
  have hshown : Shown frame.map (firstNodes maxTreeNodes t) t := hmap ▸ h.shown maxTreeNodes
  have hrules := noRedRed_cut (firstNodes maxTreeNodes t) h.noRedRed
  obtain ⟨m, hmin⟩ := Option.ne_none_iff_exists'.mp
    (show minimum t ≠ none from fun hnone => hne (spineEnd_eq_none.mp hnone))
  rw [h.leftmost_shown, hmin] at hleftmost
  have hplain : PlainNames nodeName t := fun n _ => plainAddress_nodeName n
  have hunseen : ∀ name ∈ namesOf nodeName (firstNodes maxTreeNodes t) t,
      name ∉ startWalk.seen := by
    intro name hname
    obtain ⟨n, -, rfl⟩ := List.mem_map.mp hname
    exact (plainAddress_nodeName n).not_name
  have hlength : frame.map.length < maxTreeNodes + 1 := by
    rw [hmap, shownMap, List.length_map, List.length_take]
    omega
  -- the walk and the loop find what they find in any tree that is entered
  obtain ⟨height, st, hwalks⟩ := exists_walks frame.map frame.root false hlength
  have hmost : Minimum frame.map frame.root
      ((spineEnd (firstNodes maxTreeNodes t) t).map nodeName) := by
    rw [hroot, hshown.link_eq]
    exact hshown.entered.minimum hplain
  have htruthy : truthyAddress frame.leftmost = some (nodeName m) := by
    rw [hleftmost]
    exact (plainAddress_nodeName m).truthy
  have hverifies := Verifies.intro hwalks (h.rootBlack hne hroot hshown)
    (.compare htruthy hmost)
  rw [hroot, hshown.link_eq] at hwalks
  obtain ⟨-, hwalked⟩ := hwalks.tree hshown.entered hplain (h.names_cut _) hunseen
  have hfirst := h.minimum_iff (firstNodes maxTreeNodes t)
  rw [hmin] at hfirst ⊢
  have hsame : decide (some (nodeName m) =
      (spineEnd (firstNodes maxTreeNodes t) t).map nodeName) =
        decide (spineEnd (firstNodes maxTreeNodes t) t = some m) := decide_eq_decide.mpr hfirst
  refine ⟨_, verifyFrame_eq_some.mpr hverifies, ?_⟩
  unfold checksOf
  rw [hwalked.redOK, hwalked.bhOK, hwalked.cycle, hrules, hsame]
  simp [startWalk]

/-- **A frame passes** when what is left of the tree is balanced and has its first node. -/
theorem passes_iff_cut (h : KernelTree memory rq t) (probe : Probe) (se : BitVec 64)
    (scratch : ScratchState) (seq : BitVec 32) :
    Passes (emitSnapshot memory probe rq se scratch) seq ↔
      balanced RbNode.red (cut (firstNodes maxTreeNodes t) t) = true ∧
        spineEnd (firstNodes maxTreeNodes t) t = minimum t := by
  have hevent := emitSnapshot_spec h.inMemory h.root probe se scratch
  generalize emitSnapshot memory probe rq se scratch = event at hevent
  obtain ⟨frame, hroot, hleftmost, hmap, hparse⟩ := parseSnapshot_snapshot h hevent seq
  unfold Passes
  rw [parse_line]
  by_cases hne : t = .nil
  · subst hne
    have hnone : frame.map = [] := hmap
    rw [if_pos hnone] at hparse
    refine iff_of_true ⟨_, rfl, fun frame' hframe' => ?_⟩ ⟨rfl, rfl⟩
    rw [hparse] at hframe'
    exact absurd hframe' (by simp)
  · obtain ⟨checks, hchecks, hok⟩ := verifyFrame_shown h hne hroot hleftmost hmap
    have hsome : frame.map ≠ [] := by
      cases ht : t with
      | nil => exact absurd ht hne
      | node n l r =>
        rw [hmap, ht, levelOrder_fixed]
        exact List.cons_ne_nil _ _
    rw [if_neg hsome] at hparse
    rw [← decide_eq_true_iff (p := spineEnd _ t = _), ← Bool.and_eq_true, ← hok]
    constructor
    · rintro ⟨record, hrecord, hall⟩
      obtain rfl := Option.some.inj hrecord
      obtain ⟨checks', hchecks', hok'⟩ := hall frame hparse
      obtain rfl := Option.some.inj (hchecks.symm.trans hchecks')
      exact hok'
    · intro hok'
      refine ⟨_, rfl, fun frame' hframe' => ⟨checks, ?_, hok'⟩⟩
      obtain rfl := Option.some.inj (hparse.symm.trans hframe')
      exact hchecks

/-- **Which frames pass**: those of trees in which all nodes after the first 31 are red, and those
    of trees whose first five levels are full, with as many black nodes on every path, and whose
    first node is on the sixth level at most. -/
theorem verify_snapshot_iff (h : KernelTree memory rq t) (probe : Probe) (se : BitVec 64)
    (scratch : ScratchState) (seq : BitVec 32) :
    Passes (emitSnapshot memory probe rq se scratch) seq ↔
      (∀ b ∈ (levelOrder t).drop maxTreeNodes, b.value.red = true) ∨
        ((pathBlacks RbNode.red 5 t).isSome ∧ leftSpine t ≤ 6) :=
  (passes_iff_cut h probe se scratch seq).trans
    (cut_first_iff (k := 5) h.nodup h.balanced h.noRedRed)

end Kernel

/-! ## Trees to capture -/

/-- A memory with a tree in it. -/
def memoryOf (t : RbTree) : KernelMemory := fun address =>
  match (levelOrder t).find? fun b => b.value.address = address with
  | some b => ⟨colorBit b.value.red, pointer b.left, pointer b.right, 0, none⟩
  | none => ⟨0, 0, 0, 0, none⟩

theorem inMemory_memoryOf {t : RbTree} (hne : ∀ n ∈ values t, n.address ≠ 0)
    (hdistinct : ((values t).map RbNode.address).Nodup) : InMemory (memoryOf t) t := by
  have hperm := values_levelOrder t
  have hnodup : ((levelOrder t).map fun b => b.value.address).Nodup := by
    have haddresses := (hperm.map RbNode.address).nodup_iff.mpr hdistinct
    rwa [List.map_map] at haddresses
  refine subtree_induct (P := InMemory _) trivial ?_
  intro b hb hl hr
  have hfind : (levelOrder t).find? (fun c => c.value.address = b.value.address) = some b := by
    obtain ⟨c, hc⟩ := Option.isSome_iff_exists.mp (List.find?_isSome
      (p := fun c : Branch RbNode => decide (c.value.address = b.value.address)) |>.mpr
      ⟨b, hb, decide_eq_true rfl⟩)
    have hsame : c.value.address = b.value.address := by simpa using List.find?_some hc
    rw [hc, List.inj_on_of_nodup_map hnodup (List.mem_of_find?_eq_some hc) hb hsame]
  have hbnode : memoryOf t b.value.address =
      ⟨colorBit b.value.red, pointer b.left, pointer b.right, 0, none⟩ := by
    unfold memoryOf
    rw [hfind]
  refine ⟨hne _ (hperm.mem_iff.mp (List.mem_map.mpr ⟨b, hb, rfl⟩)), ?_, ?_, ?_, hl, hr⟩
  · rw [hbnode]
    exact (show ∀ red, colorBit red &&& 1 = colorBit red by decide) b.value.red
  · rw [hbnode]
  · rw [hbnode]

/-- The runqueue of a tree. -/
def runqueueOf (t : RbTree) : CfsRq where
  address := 0xffff888000000000
  nrRunning := 0
  rbRoot := pointer t
  rbLeftmost := ((minimum t).map RbNode.address).getD 0

/-- A tree whose rules are decided. -/
theorem kernelTree_memoryOf {t : RbTree} (hne : ∀ n ∈ values t, n.address ≠ 0)
    (hdistinct : ((values t).map RbNode.address).Nodup) (hblack : ∀ b ∈ top t, b.value.red = false)
    (hrules : noRedRed RbNode.red false t = true) (hbalanced : balanced RbNode.red t = true) :
    KernelTree (memoryOf t) (runqueueOf t) t where
  address := show (0xffff888000000000 : BitVec 64) ≠ 0 by decide
  inMemory := inMemory_memoryOf hne hdistinct
  distinct := hdistinct
  root := rfl
  black := hblack
  noRedRed := hrules
  balanced := hbalanced
  leftmost := rfl

/-- A full tree of black nodes; the children of the node `i` are `2 * i` and `2 * i + 1`. -/
def blackTree : Nat → Nat → RbTree
  | 0, _ => .nil
  | height + 1, i => .node ⟨BitVec.ofNat 64 (16 * i), false⟩ (blackTree height (2 * i))
      (blackTree height (2 * i + 1))

/-- The probe that takes a first snapshot. -/
def someProbe : Probe := ⟨0, 0, 0, [], 16⟩

/-- A workspace that no snapshot was taken in. -/
def cleanScratch : ScratchState :=
  { event := ⟨0, ⟨0, 0⟩, ⟨0, 0, 0, []⟩, ⟨0, 0, 0, 0, 0, 0, fun _ => ⟨0, 0, 0, 0, 0, []⟩⟩⟩
    traversalWorklist := fun _ => 0
    head := 0
    tail := 0 }

/-- Three black nodes are captured whole. -/
theorem verify_snapshot_three :
    Passes (emitSnapshot (memoryOf (blackTree 2 1)) someProbe (runqueueOf (blackTree 2 1)) 0
      cleanScratch) 1 :=
  (verify_snapshot_iff (kernelTree_memoryOf (by decide) (by decide) (by decide) (by decide)
    (by decide)) someProbe 0 cleanScratch 1).mpr (.inl (by decide))

/-- 47 nodes: the left subtree has four levels of black nodes, and the right one the same four
    below a red node. -/
def tallTree : RbTree :=
  .node ⟨0x10, false⟩ (blackTree 4 2) (.node ⟨0x30, true⟩ (blackTree 4 6) (blackTree 4 7))

theorem kernelTree_tallTree : KernelTree (memoryOf tallTree) (runqueueOf tallTree) tallTree :=
  kernelTree_memoryOf (by decide) (by decide +kernel) (by decide) (by decide) (by decide)

/-- **A tree of 47 nodes** is reported as a failure: its last level of black nodes is not in the
    snapshot, on one side only. -/
theorem tallTree_fails :
    ¬ ∀ (memory : KernelMemory) (rq : CfsRq) (t : RbTree), KernelTree memory rq t →
      ∀ probe se scratch seq, Passes (emitSnapshot memory probe rq se scratch) seq := by
  intro hall
  have hpasses := hall _ _ _ kernelTree_tallTree someProbe 0 cleanScratch 1
  have hcut := (passes_iff_cut kernelTree_tallTree someProbe 0 cleanScratch 1).mp hpasses
  exact absurd hcut.1 (by decide +kernel)

end LinuxMaxxing.Scheduler
