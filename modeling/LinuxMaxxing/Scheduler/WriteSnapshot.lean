import LinuxMaxxing.Common.JsonRoundTrip
import LinuxMaxxing.Scheduler.Snapshot

/-!
# Writing Runqueue Snapshots

The callback of `scheduler/observer.c` that turns an event into a line of NDJSON, and the value
that the line has.
-/

namespace LinuxMaxxing.Scheduler

open LinuxMaxxing.Lib LinuxMaxxing.Common LinuxMaxxing.Common.JsonWriter

/-! ## The parts of a record -/

/-- `write_event_info` -/
def writeEventInfo (jw : JsonWriter) : JsonWriter :=
  ((jw.string (literal "name") (literal "enqueue_entity")).string (literal "phase")
    (literal "after")).string (literal "probe") (literal "kretprobe/__enqueue_entity")

/-- `write_context` -/
def writeContext (jw : JsonWriter) (context : CfsContext) : JsonWriter :=
  (((jw.u32 (literal "cpu") context.cpu).u32 (literal "pid") context.pid).u32 (literal "tid")
    context.tid).stringN (literal "comm") context.comm 16

/-- `"red"` or `"black"` -/
def colorName (color : BitVec 32) : List UInt8 :=
  if color = 0 then literal "red" else literal "black"

/-- `write_node` -/
def writeNode (jw : JsonWriter) (node : TreeNode) : JsonWriter :=
  let jw := jw.objectBegin
  let jw := jw.ptr (literal "address") node.node
  let jw := jw.ptr (literal "left") node.left
  let jw := jw.ptr (literal "right") node.right
  let jw := jw.u32 (literal "pid") node.pid
  let jw := jw.string (literal "color") (colorName node.color)
  let jw := jw.stringN (literal "comm") node.comm 16
  jw.objectEnd

/-- The nodes of an event. -/
def CfsState.shown (state : CfsState) : List TreeNode :=
  (List.range state.nodeCount.toNat).map state.nodes

/-- `write_state` -/
def writeState (jw : JsonWriter) (state : CfsState) (eventInfo : CfsEventInfo) : JsonWriter :=
  let jw := jw.objectBeginField (literal "runqueue")
  let jw := jw.ptr (literal "address") state.cfsRq
  let jw := jw.u32 (literal "nr_running") (state.nrRunning.setWidth 32)
  let jw := jw.ptr (literal "root") state.root
  let jw := jw.ptr (literal "leftmost") state.leftmost
  let jw := jw.objectBeginField (literal "enqueued_entity")
  let jw := jw.ptr (literal "address") eventInfo.enqueuedEntity
  let jw := jw.ptr (literal "rb_node") eventInfo.enqueuedRbNode
  let jw := jw.objectEnd
  let jw := jw.u32 (literal "node_count") state.nodeCount
  let jw := jw.bool (literal "truncated") (state.truncated ≠ 0)
  let jw := jw.arrayBeginField (literal "nodes")
  let jw := state.shown.foldl writeNode jw
  jw.arrayEnd.objectEnd

/-- `write_snapshot` -/
def writeSnapshot (jw : JsonWriter) (event : CfsEvent) (seq : BitVec 32) : JsonWriter :=
  let jw := jw.objectBegin
  let jw := jw.string (literal "experiment") (literal "scheduler")
  let jw := jw.string (literal "kind") (literal "enqueue_entity")
  let jw := jw.string (literal "source") (literal "ebpf")
  let jw := jw.u32 (literal "seq") seq
  let jw := jw.u64 (literal "time_ns") event.timeNs
  let jw := (writeEventInfo (jw.objectBeginField (literal "event_info"))).objectEnd
  let jw := (writeContext (jw.objectBeginField (literal "context")) event.context).objectEnd
  let jw := (writeState (jw.objectBeginField (literal "state")) event.state
    event.eventInfo).objectEnd
  jw.objectEnd.newline

/-- The line that the observer puts out for an event. -/
def line (event : CfsEvent) (seq : BitVec 32) : List Nat :=
  (writeSnapshot (JsonWriter.init []) event seq).written.takeWhile (· ≠ 0x0a)

/-! ## The tree of a record -/

def stringField (n value : List UInt8) (rest : Members) : Members :=
  .field n (.scalar (.string value)) rest

def u32Field (n : List UInt8) (v : BitVec 32) (rest : Members) : Members :=
  .field n (.scalar (.u32 v)) rest

/-- The members of the parts of a record. -/
def eventInfoMembers : Members :=
  stringField (literal "name") (literal "enqueue_entity") <|
  stringField (literal "phase") (literal "after") <|
  stringField (literal "probe") (literal "kretprobe/__enqueue_entity") .nil

def contextMembers (context : CfsContext) : Members :=
  u32Field (literal "cpu") context.cpu <| u32Field (literal "pid") context.pid <|
  u32Field (literal "tid") context.tid <|
  .field (literal "comm") (.scalar (.stringN context.comm 16)) .nil

def nodeTree (node : TreeNode) : Tree :=
  .obj <| .ptr (literal "address") node.node <| .ptr (literal "left") node.left <|
  .ptr (literal "right") node.right <| u32Field (literal "pid") node.pid <|
  stringField (literal "color") (colorName node.color) <|
  .field (literal "comm") (.scalar (.stringN node.comm 16)) .nil

def nodeElements : List TreeNode → Elements
  | [] => .nil
  | node :: nodes => .cons (nodeTree node) (nodeElements nodes)

def runqueueMembers (state : CfsState) (eventInfo : CfsEventInfo) : Members :=
  .ptr (literal "address") state.cfsRq <|
  u32Field (literal "nr_running") (state.nrRunning.setWidth 32) <|
  .ptr (literal "root") state.root <| .ptr (literal "leftmost") state.leftmost <|
  .field (literal "enqueued_entity") (.obj <|
    .ptr (literal "address") eventInfo.enqueuedEntity <|
    .ptr (literal "rb_node") eventInfo.enqueuedRbNode .nil) <|
  u32Field (literal "node_count") state.nodeCount <|
  .field (literal "truncated") (.scalar (.bool (state.truncated ≠ 0))) <|
  .field (literal "nodes") (.arr (nodeElements state.shown)) .nil

def snapshotTree (event : CfsEvent) (seq : BitVec 32) : Tree :=
  .obj <| stringField (literal "experiment") (literal "scheduler") <|
  stringField (literal "kind") (literal "enqueue_entity") <|
  stringField (literal "source") (literal "ebpf") <| u32Field (literal "seq") seq <|
  .field (literal "time_ns") (.scalar (.u64 event.timeNs)) <|
  .field (literal "event_info") (.obj eventInfoMembers) <|
  .field (literal "context") (.obj (contextMembers event.context)) <|
  .field (literal "state") (.obj <|
    .field (literal "runqueue") (.obj (runqueueMembers event.state event.eventInfo)) .nil) .nil

theorem emitElements_nodes (nodes : List TreeNode) (jw : JsonWriter) :
    emitElements jw (nodeElements nodes) = nodes.foldl writeNode jw := by
  induction nodes generalizing jw with
  | nil => rfl
  | cons node nodes ih => exact ih (writeNode jw node)

theorem writeState_eq (jw : JsonWriter) (state : CfsState) (eventInfo : CfsEventInfo) :
    writeState jw state eventInfo =
      emitField jw (literal "runqueue") (.obj (runqueueMembers state eventInfo)) := by
  simp only [writeState, ← emitElements_nodes]
  rfl

/-- **The calls of the callback** are those for the tree. -/
theorem writeSnapshot_eq (jw : JsonWriter) (event : CfsEvent) (seq : BitVec 32) :
    writeSnapshot jw event seq = (emitValue jw (snapshotTree event seq)).newline := by
  simp only [writeSnapshot, writeState_eq]
  rfl

theorem nesting_nodes (nodes : List TreeNode) : (nodeElements nodes).nesting ≤ 1 := by
  induction nodes with
  | nil => exact Nat.zero_le 1
  | cons node nodes ih => exact max_le (le_refl 1) ih

theorem nesting_snapshot (event : CfsEvent) (seq : BitVec 32) :
    (snapshotTree event seq).nesting ≤ jsonWriterMaxDepth := by
  have hnodes := nesting_nodes event.state.shown
  simp only [snapshotTree, runqueueMembers, eventInfoMembers, contextMembers, stringField,
    u32Field, Tree.nesting, Members.nesting, jsonWriterMaxDepth]
  omega

/-- **The line** is a JSON text of the tree. -/
theorem parse_line (event : CfsEvent) (seq : BitVec 32) :
    Json.parseDocument Json.octets (line event seq) = some (snapshotTree event seq).value := by
  obtain ⟨hparse, hline, _, _, hwritten, _⟩ :=
    emit_round_trip (snapshotTree event seq) (nesting_snapshot event seq)
  have hsame : line event seq = (emitValue (JsonWriter.init []) (snapshotTree event seq)).written := by
    unfold line
    rw [writeSnapshot_eq, hwritten, List.takeWhile_append_of_pos]
    · simp
    · intro c hc
      exact decide_eq_true fun heq => hline (heq ▸ hc)
  rw [hsame]
  exact hparse

end LinuxMaxxing.Scheduler
