import LinuxMaxxing.App.ParseCapture

/-!
# The Scheduler View

`parseSnapshot` and `verifyFrame` of `scheduler.js`: a record becomes a frame, and a frame is
checked against the rules of a red-black tree.

An address is null or a text; a text that is empty is as good as null. `map` and `seen` are plain
objects: under some names they have what every object has. The engine's call stack has room for so
many calls of `walk` inside each other. What a frame holds only to be drawn is left out.
-/

namespace LinuxMaxxing.App

open LinuxMaxxing.Framework (Text text)
open JsValue

/-! ## Frames -/

/-- `ZERO_ADDR` -/
def zeroAddr : Text := text "0000000000000000"

/-- `valid` -/
def valid (value : Option JsValue) : Bool :=
  value.any truthy && !isStr value zeroAddr && !isStr value (text "0x0") &&
    !isStr value (text "(null)")

/-- `valid(value) ? value : null` -/
def addressOf (value : Option JsValue) : Option Text :=
  if valid value then
    match value with
    | some (.str s) => some s
    | _ => none
  else none

/-- An entry of `map`. -/
structure FrameNode where
  address : Text
  left : Option Text
  right : Option Text
  red : Bool
  deriving DecidableEq, Repr

/-- `map`: an object with a property for each address. -/
abbrev FrameMap := List (Text × FrameNode)

/-- The names of the properties that every object has from `Object.prototype`. -/
def objectNames : List Text :=
  ["constructor", "__defineGetter__", "__defineSetter__", "hasOwnProperty", "__lookupGetter__",
    "__lookupSetter__", "isPrototypeOf", "propertyIsEnumerable", "toString", "valueOf", "__proto__",
    "toLocaleString"].map text

/-- What is found under such a name has neither pointers nor a color. -/
def inherited (name : Text) : FrameNode := ⟨name, none, none, false⟩

/-- `map[address]`: its own property, or what every object has. -/
def nodeAt (map : FrameMap) (address : Text) : Option FrameNode :=
  (map.lookup address).or (if address ∈ objectNames then some (inherited address) else none)

/-- A pointer, unless it is null or the empty text. -/
def truthyAddress (address : Option Text) : Option Text := address.filter fun a => a ≠ []

/-- `address && map[address]` -/
def follow (map : FrameMap) (address : Option Text) : Option FrameNode :=
  (truthyAddress address).bind (nodeAt map)

/-- `map[node.address] = node` -/
def setNode (map : FrameMap) (node : FrameNode) : FrameMap :=
  if (map.map Prod.fst).contains node.address then
    map.map fun entry => if entry.1 = node.address then (node.address, node) else entry
  else map ++ [(node.address, node)]

/-- The body of the loop over `rq.nodes`. -/
def addNode (map : FrameMap) (node : JsValue) : FrameMap :=
  match addressOf (node.prop "address") with
  | none => map
  | some address => setNode map
    { address := address
      left := addressOf (node.prop "left")
      right := addressOf (node.prop "right")
      red := isStr (node.prop "color") (text "red") }

/-- What `parseSnapshot` returns. -/
structure Frame where
  rq : Text
  entity : Option Text
  runNode : Option Text
  focus : Option Text
  root : Option Text
  leftmost : Option Text
  truncated : Bool
  map : FrameMap
  count : Nat

/-- The frame of a runqueue. -/
def frameOf (address : Text) (rq : JsValue) : Frame :=
  let map := match rq.prop "nodes" with
    | some (.arr nodes) => nodes.foldl addNode []
    | _ => []
  let enqueued := rq.prop "enqueued_entity"
  let runNode := addressOf (enqueued.bind fun e => e.prop "rb_node")
  { rq := address
    entity := addressOf (enqueued.bind fun e => e.prop "address")
    runNode := runNode
    focus := runNode.filter fun node => (nodeAt map node).isSome
    root := addressOf (rq.prop "root")
    leftmost := addressOf (rq.prop "leftmost")
    truncated := (rq.prop "truncated").any truthy
    map := map
    count := map.length }

/-- `parseSnapshot`; `none` is null. -/
def parseSnapshot (record : JsValue) : Option Frame :=
  if isStr (record.prop "kind") (text "enqueue_entity") then
    match (record.prop "state").bind fun state => state.prop "runqueue",
        (record.prop "context").bind fun context => context.prop "cpu" with
    | _, none | _, some .null | none, _ => none
    | some rq, some _ =>
      match addressOf (rq.prop "address") with
      | none => none
      | some address =>
        let frame := frameOf address rq
        if frame.map = [] then none else some frame
  else none

/-! ## Checking a frame -/

/-- `structuralMinimum`, going on for at most so many rounds; `none` when there are more. -/
def structuralMinimum (map : FrameMap) : Nat → Option Text → Option (Option Text)
  | 0, _ => none
  | rounds + 1, min =>
    match truthyAddress ((follow map min).bind FrameNode.left) with
    | some left => structuralMinimum map rounds (some left)
    | none => some min

/-- The variables of `verifyFrame` that `walk` sets. -/
structure WalkState where
  seen : List Text
  redOK : Bool
  bhOK : Bool
  cycle : Bool

/-- Before the walk. `seen` has the properties of every object. -/
def startWalk : WalkState := ⟨objectNames, true, true, false⟩

/-- `walk`, where the call stack has room for so many calls; `none` is the `RangeError` of one more. -/
def walk (map : FrameMap) : Nat → Option Text → Bool → WalkState → Option (Nat × WalkState)
  | 0, _, _, _ => none
  | stack + 1, address, parentRed, st =>
    match truthyAddress address with
    | none => some (1, st)
    | some address =>
      match nodeAt map address with
      | none => some (1, st)
      | some node =>
        if address ∈ st.seen then some (0, { st with cycle := true })
        else do
          let st := { st with
            seen := address :: st.seen
            redOK := st.redOK && !(node.red && parentRed) }
          let (left, st) ← walk map stack node.left node.red st
          let (right, st) ← walk map stack node.right node.red st
          some (left + if node.red then 0 else 1,
            { st with bhOK := st.bhOK && decide (left = right) })

/-- What `verifyFrame` returns. -/
structure Checks where
  root : Option Text
  rootBlack : Bool
  red : Bool
  bh : Bool
  height : Nat
  leftmost : Bool
  ok : Bool
  deriving DecidableEq, Repr

/-- `verifyFrame`, on a call stack with room for so many calls of `walk`; `none` when it throws, or
    goes on for ever. A way along left children that is longer than the map is a cycle. -/
def verifyFrame (stack : Nat) (frame : Frame) : Option Checks := do
  let (height, st) ← walk frame.map stack frame.root false startWalk
  let rootBlack ← match truthyAddress frame.root with
    | none => some true
    | some root => (nodeAt frame.map root).map fun node => !node.red
  let leftmostCorrect ← match truthyAddress frame.leftmost with
    | none => some true
    | some leftmost =>
      (structuralMinimum frame.map (frame.map.length + 1) frame.root).map fun min =>
        decide (some leftmost = min)
  some
    { root := frame.root
      rootBlack := rootBlack
      red := st.redOK && !st.cycle
      bh := st.bhOK && !st.cycle
      height := height - 1
      leftmost := leftmostCorrect
      ok := rootBlack && st.redOK && st.bhOK && !st.cycle && leftmostCorrect }

end LinuxMaxxing.App
