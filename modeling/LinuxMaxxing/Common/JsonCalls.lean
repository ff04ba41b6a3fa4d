import LinuxMaxxing.Common.JsonWriter
import LinuxMaxxing.Lib.Sink

/-!
# Runs of the JSON Writer

Any sequence of calls of the entry points of `json_writer.c`, balanced or not, on a sink that may
refuse any of its pieces.

- `JsonCall`: the calls; `perform` makes one;
- `render`: what a sequence of calls stands for, without a limit and without failures, from a stack
  that says for every open container whether its next item is the first;
- `performAll_spec`: what reaches the sink, and what `json_writer_ok` says of it.
-/

namespace LinuxMaxxing.Common

open LinuxMaxxing.Lib

/-! ## Calls -/

/-- A call of an entry point, with its name and its value. -/
inductive JsonCall where
  | objectBegin
  | objectBeginField (name : List UInt8)
  | objectEnd
  | arrayBegin
  | arrayBeginField (name : List UInt8)
  | arrayEnd
  | string (name value : List UInt8)
  | stringN (name value : List UInt8) (maxLen : Nat)
  | u32 (name : List UInt8) (value : BitVec 32)
  | u64 (name : List UInt8) (value : BitVec 64)
  | i64 (name : List UInt8) (value : BitVec 64)
  | bool (name : List UInt8) (value : Bool)
  | null (name : List UInt8)
  | hex (name : List UInt8) (value : BitVec 64)
  | ptr (name : List UInt8) (value : BitVec 64)
  | u32Value (value : BitVec 32)
  | u64Value (value : BitVec 64)
  | i64Value (value : BitVec 64)
  | stringValue (value : List UInt8)
  | stringNValue (value : List UInt8) (maxLen : Nat)
  | boolValue (value : Bool)
  | nullValue
  | newline
  deriving DecidableEq, Repr

namespace JsonWriter

/-- The call is made. -/
def perform (jw : JsonWriter) : JsonCall → JsonWriter
  | .objectBegin => jw.objectBegin
  | .objectBeginField name => jw.objectBeginField name
  | .objectEnd => jw.objectEnd
  | .arrayBegin => jw.arrayBegin
  | .arrayBeginField name => jw.arrayBeginField name
  | .arrayEnd => jw.arrayEnd
  | .string name value => jw.string name value
  | .stringN name value maxLen => jw.stringN name value maxLen
  | .u32 name value => jw.u32 name value
  | .u64 name value => jw.u64 name value
  | .i64 name value => jw.i64 name value
  | .bool name value => jw.bool name value
  | .null name => jw.null name
  | .hex name value => jw.hexField name value
  | .ptr name value => jw.ptr name value
  | .u32Value value => jw.u32Value value
  | .u64Value value => jw.u64Value value
  | .i64Value value => jw.i64Value value
  | .stringValue value => jw.stringValue value
  | .stringNValue value maxLen => jw.stringNValue value maxLen
  | .boolValue value => jw.boolValue value
  | .nullValue => jw.nullValue
  | .newline => jw.newline

def performAll (jw : JsonWriter) (calls : List JsonCall) : JsonWriter := calls.foldl perform jw

end JsonWriter

/-! ## What a call stands for -/

namespace JsonCall

open JsonWriter

/-- The pieces of a byte of a string. -/
def bytePieces (c : UInt8) : List (List Nat) :=
  if c = 0x22 ∨ c = 0x5c then [[0x5c], [c.toNat]]
  else if c < 0x20 then [snprintf 8 (0x5c :: 0x75 :: zeroPad 4 (JsonWriter.hex c.toNat))]
  else [[c.toNat]]

/-- The pieces of a string in quotes. -/
def quotedPieces (value : List UInt8) (maxLen : Nat) : List (List Nat) :=
  [0x22] :: ((cString value maxLen).flatMap bytePieces ++ [[0x22]])

/-- The pieces of a name and its colon. -/
def namePieces (name : List UInt8) : List (List Nat) := quotedPieces name sizeMax ++ [[0x3a]]

/-- The texts of the scalars. -/
def u32Text (value : BitVec 32) : List Nat := snprintf 16 (decimal value.toNat)
def u64Text (value : BitVec 64) : List Nat := snprintf 24 (decimal value.toNat)
def i64Text (value : BitVec 64) : List Nat := snprintf 24 (signedDecimal value.toInt)
def boolText (value : Bool) : List Nat := if value then trueText else falseText
def hexText (value : BitVec 64) : List Nat :=
  snprintf 32 (0x22 :: 0x30 :: 0x78 :: (JsonWriter.hex value.toNat ++ [0x22]))
def ptrText (value : BitVec 64) : List Nat :=
  if value ≠ 0 then
    snprintf 32 (0x22 :: 0x30 :: 0x78 :: (zeroPad 16 (JsonWriter.hex value.toNat) ++ [0x22]))
  else nullText

/-- What a call does to the containers. -/
inductive Role where
  | opens
  | closes
  | item
  | plain
  deriving DecidableEq, Repr

def role : JsonCall → Role
  | .objectBegin | .objectBeginField _ | .arrayBegin | .arrayBeginField _ => .opens
  | .objectEnd | .arrayEnd => .closes
  | .newline => .plain
  | _ => .item

/-- The pieces of a call behind its comma. -/
def body : JsonCall → List (List Nat)
  | .objectBegin => [[0x7b]]
  | .objectBeginField name => namePieces name ++ [[0x7b]]
  | .objectEnd => [[0x7d]]
  | .arrayBegin => [[0x5b]]
  | .arrayBeginField name => namePieces name ++ [[0x5b]]
  | .arrayEnd => [[0x5d]]
  | .string name value => namePieces name ++ quotedPieces value sizeMax
  | .stringN name value maxLen => namePieces name ++ quotedPieces value maxLen
  | .u32 name value => namePieces name ++ [u32Text value]
  | .u64 name value => namePieces name ++ [u64Text value]
  | .i64 name value => namePieces name ++ [i64Text value]
  | .bool name value => namePieces name ++ [boolText value]
  | .null name => namePieces name ++ [nullText]
  | .hex name value => namePieces name ++ [hexText value]
  | .ptr name value => namePieces name ++ [ptrText value]
  | .u32Value value => [u32Text value]
  | .u64Value value => [u64Text value]
  | .i64Value value => [i64Text value]
  | .stringValue value => quotedPieces value sizeMax
  | .stringNValue value maxLen => quotedPieces value maxLen
  | .boolValue value => [boolText value]
  | .nullValue => [nullText]
  | .newline => [[0x0a]]

/-- What separates an item from those before it; the stack has the open containers, the innermost
    first, each `true` as long as it has no item. -/
def commaPieces : List Bool → List (List Nat)
  | false :: _ => [[0x2c]]
  | _ => []

/-- The innermost container has an item. -/
def touched : List Bool → List Bool
  | [] => []
  | _ :: rest => false :: rest

/-- The pieces of a call in these containers. -/
def pieces (stack : List Bool) (call : JsonCall) : List (List Nat) :=
  match call.role with
  | .opens | .item => commaPieces stack ++ call.body
  | .closes | .plain => call.body

/-- The containers after a call. -/
def next (stack : List Bool) (call : JsonCall) : List Bool :=
  match call.role with
  | .opens => true :: touched stack
  | .item => touched stack
  | .closes => stack.tail
  | .plain => stack

end JsonCall

/-- The pieces of a sequence of calls. -/
def allPieces : List Bool → List JsonCall → List (List Nat)
  | _, [] => []
  | stack, call :: calls => call.pieces stack ++ allPieces (call.next stack) calls

/-- The text of a sequence of calls. -/
def render (calls : List JsonCall) : List Nat := (allPieces [] calls).flatten

/-- How deep containers are nested after a call. -/
def nest (depth : Nat) (call : JsonCall) : Nat :=
  match call.role with
  | .opens => depth + 1
  | .closes => depth - 1
  | .item | .plain => depth

/-- Containers get nested deeper than the writer can, beginning at a depth. -/
def TooDeepFrom (depth : Nat) (calls : List JsonCall) : Prop :=
  ∃ done, done <+: calls ∧ jsonWriterMaxDepth < done.foldl nest depth

def TooDeep (calls : List JsonCall) : Prop := TooDeepFrom 0 calls

/-- The pieces up to the bracket that is nested too deep. -/
def piecesInDepth : List Bool → List JsonCall → List (List Nat)
  | _, [] => []
  | stack, call :: calls =>
    call.pieces stack ++
      if jsonWriterMaxDepth < (call.next stack).length then []
      else piecesInDepth (call.next stack) calls

/-! ## Output -/

namespace JsonWriter

/-- The sink behind a writer. -/
def sink (jw : JsonWriter) : Sink Nat := ⟨jw.written, jw.refuses, jw.error⟩

/-- Pieces were written, and nothing else changed. -/
structure Wrote (jw jw' : JsonWriter) (pieces : List (List Nat)) : Prop where
  sink : jw'.sink = jw.sink.putAll pieces
  depth : jw'.depth = jw.depth
  first : jw'.first = jw.first

open JsonCall (commaPieces touched)

section Wrote

variable {jw jw' jw'' : JsonWriter}

theorem Wrote.none (jw : JsonWriter) : Wrote jw jw [] := ⟨rfl, rfl, rfl⟩

theorem Wrote.trans {pieces pieces' : List (List Nat)} (h : Wrote jw jw' pieces)
    (h' : Wrote jw' jw'' pieces') : Wrote jw jw'' (pieces ++ pieces') where
  sink := by rw [h'.sink, h.sink, Sink.putAll_append]
  depth := h'.depth.trans h.depth
  first := h'.first.trans h.first

/-- **A piece** is written or refused, as the sink says. -/
theorem wrote_put (jw : JsonWriter) (piece : List Nat) : Wrote jw (jw.put piece) [piece] := by
  refine ⟨?_, ?_, ?_⟩
  · show _ = jw.sink.put piece
    unfold JsonWriter.put Sink.put JsonWriter.sink
    split
    · rfl
    · split <;> rfl
  · unfold JsonWriter.put
    split
    · rfl
    · split <;> rfl
  · unfold JsonWriter.put
    split
    · rfl
    · split <;> rfl

theorem wrote_byte (jw : JsonWriter) (c : UInt8) :
    Wrote jw (jw.putEscapedByte c) (JsonCall.bytePieces c) := by
  unfold putEscapedByte JsonCall.bytePieces
  split
  · exact (wrote_put _ _).trans (wrote_put _ _)
  · split
    · exact wrote_put _ _
    · exact wrote_put _ _

theorem wrote_bytes (bytes : List UInt8) (jw : JsonWriter) :
    Wrote jw (bytes.foldl putEscapedByte jw) (bytes.flatMap JsonCall.bytePieces) := by
  induction bytes generalizing jw with
  | nil => exact .none jw
  | cons c bytes ih => exact (wrote_byte jw c).trans (ih _)

theorem wrote_quoted (jw : JsonWriter) (value : List UInt8) (maxLen : Nat) :
    Wrote jw (jw.putEscaped value maxLen) (JsonCall.quotedPieces value maxLen) :=
  (wrote_put jw _).trans ((wrote_bytes _ _).trans (wrote_put _ _))

theorem wrote_name (jw : JsonWriter) (n : List UInt8) :
    Wrote jw (jw.name n) (JsonCall.namePieces n) :=
  (wrote_quoted jw n _).trans (wrote_put _ _)

/-- A call between its comma and its brackets. -/
def writeBody (jw : JsonWriter) : JsonCall → JsonWriter
  | .objectBegin => jw.putc 0x7b
  | .objectBeginField name => (jw.name name).putc 0x7b
  | .objectEnd => jw.putc 0x7d
  | .arrayBegin => jw.putc 0x5b
  | .arrayBeginField name => (jw.name name).putc 0x5b
  | .arrayEnd => jw.putc 0x5d
  | .string name value => (jw.name name).putEscaped value sizeMax
  | .stringN name value maxLen => (jw.name name).putEscaped value maxLen
  | .u32 name value => (jw.name name).putU32 value
  | .u64 name value => (jw.name name).putU64 value
  | .i64 name value => (jw.name name).putI64 value
  | .bool name value => (jw.name name).putBool value
  | .null name => (jw.name name).putNull
  | .hex name value => (jw.name name).putHex value
  | .ptr name value => (jw.name name).putPtr value
  | .u32Value value => jw.putU32 value
  | .u64Value value => jw.putU64 value
  | .i64Value value => jw.putI64 value
  | .stringValue value => jw.putEscaped value sizeMax
  | .stringNValue value maxLen => jw.putEscaped value maxLen
  | .boolValue value => jw.putBool value
  | .nullValue => jw.putNull
  | .newline => jw.putc 0x0a

/-- **A call** is its comma, its body and what it does to the containers. -/
theorem perform_eq (jw : JsonWriter) (call : JsonCall) :
    jw.perform call =
      match call.role with
      | .opens => (jw.comma.writeBody call).enter
      | .closes => (jw.writeBody call).leave
      | .item => jw.comma.writeBody call
      | .plain => jw.writeBody call := by
  cases call <;> rfl

theorem wrote_ptr (jw : JsonWriter) (value : BitVec 64) :
    Wrote jw (jw.putPtr value) [JsonCall.ptrText value] := by
  unfold putPtr JsonCall.ptrText
  split
  · exact wrote_put _ _
  · exact wrote_put _ _

theorem wrote_body (jw : JsonWriter) (call : JsonCall) :
    Wrote jw (jw.writeBody call) call.body := by
  cases call with
  | objectBegin | objectEnd | arrayBegin | arrayEnd | newline => exact wrote_put _ _
  | objectBeginField name | arrayBeginField name => exact (wrote_name _ _).trans (wrote_put _ _)
  | string name value => exact (wrote_name _ _).trans (wrote_quoted _ _ _)
  | stringN name value maxLen => exact (wrote_name _ _).trans (wrote_quoted _ _ _)
  | u32 name value | u64 name value | i64 name value | bool name value | null name
  | hex name value => exact (wrote_name _ _).trans (wrote_put _ _)
  | ptr name value => exact (wrote_name _ _).trans (wrote_ptr _ _)
  | u32Value value | u64Value value | i64Value value | boolValue value | nullValue =>
    exact wrote_put _ _
  | stringValue value => exact wrote_quoted _ _ _
  | stringNValue value maxLen => exact wrote_quoted _ _ _

/-! ## Containers -/

/-- The writer knows these containers. -/
structure Tracks (jw : JsonWriter) (stack : List Bool) : Prop where
  depth : jw.depth = stack.length
  first : ∀ i (hi : i < stack.length), jw.first (stack.length - 1 - i) = stack[i]

theorem Tracks.wrote {stack : List Bool} {pieces : List (List Nat)} (h : Tracks jw stack)
    (hwrote : Wrote jw jw' pieces) : Tracks jw' stack := by
  refine ⟨hwrote.depth.trans h.depth, fun i hi => ?_⟩
  rw [hwrote.first]
  exact h.first i hi

/-- **A comma** is written behind an item, and the container then has one. -/
theorem Tracks.comma {stack : List Bool} (h : Tracks jw stack) :
    jw.comma.sink = jw.sink.putAll (commaPieces stack) ∧ Tracks jw.comma (touched stack) := by
  unfold JsonWriter.comma
  cases stack with
  | nil =>
    rw [if_pos (show jw.depth = 0 from h.depth)]
    exact ⟨rfl, h⟩
  | cons first rest =>
    have hdepth : jw.depth = rest.length + 1 := h.depth
    have htop : jw.first (jw.depth - 1) = first := by
      have hget := h.first 0 (by simp)
      rw [hdepth]
      simpa using hget
    rw [if_neg (by omega), htop]
    cases first with
    | false =>
      -- an item before: a comma, and the flags stay
      have hput := wrote_put jw [0x2c]
      exact ⟨hput.sink, h.wrote hput⟩
    | true =>
      -- the first item: no comma, and the flag of this container alone is cleared
      refine ⟨rfl, hdepth, fun i hi => ?_⟩
      show Function.update jw.first (jw.depth - 1) false _ = _
      rw [hdepth]
      cases i with
      | zero => simp [touched]
      | succ i =>
        have hget := h.first (i + 1) (by simpa [touched] using hi)
        rw [Function.update_of_ne (by simp [touched] at hi ⊢; omega)]
        simpa [touched] using hget

theorem Tracks.enter {stack : List Bool} (h : Tracks jw stack)
    (hdepth : stack.length < jsonWriterMaxDepth) :
    jw.enter.sink = jw.sink ∧ Tracks jw.enter (true :: stack) := by
  unfold JsonWriter.enter
  rw [if_pos (h.depth ▸ hdepth)]
  refine ⟨rfl, congrArg (· + 1) h.depth, fun i hi => ?_⟩
  show Function.update jw.first jw.depth true _ = _
  rw [h.depth]
  cases i with
  | zero => simp
  | succ i =>
    have hi' : i < stack.length := by simpa using hi
    rw [Function.update_of_ne (by simp; omega)]
    have hget := h.first i hi'
    simpa [Nat.sub_sub, Nat.add_comm] using hget

theorem Tracks.leave {stack : List Bool} (h : Tracks jw stack) :
    jw.leave.sink = jw.sink ∧ Tracks jw.leave stack.tail := by
  unfold JsonWriter.leave
  cases stack with
  | nil =>
    rw [if_neg (by rw [h.depth]; simp)]
    exact ⟨rfl, h⟩
  | cons first rest =>
    rw [if_pos (by rw [h.depth]; simp)]
    refine ⟨rfl, ?_, fun i hi => ?_⟩
    · show jw.depth - 1 = _
      rw [h.depth]
      rfl
    · have hget := h.first (i + 1) (by simpa using hi)
      simpa [Nat.sub_sub, Nat.add_comm] using hget

theorem touched_length (stack : List Bool) : (touched stack).length = stack.length := by
  cases stack <;> rfl

/-! ## One call -/

/-- **One call** writes its pieces and leaves the containers as they are to be; at a bracket that
    is nested too deep the writer gives up. -/
theorem Tracks.perform {stack : List Bool} (h : Tracks jw stack)
    (hdepth : stack.length ≤ jsonWriterMaxDepth) (call : JsonCall) :
    ((call.next stack).length ≤ jsonWriterMaxDepth →
        (jw.perform call).sink = jw.sink.putAll (call.pieces stack) ∧
          Tracks (jw.perform call) (call.next stack)) ∧
      (jsonWriterMaxDepth < (call.next stack).length →
        (jw.perform call).sink = (jw.sink.putAll (call.pieces stack)).fail) := by
  rw [perform_eq]
  unfold JsonCall.next JsonCall.pieces
  obtain ⟨hcomma, htouched⟩ := h.comma
  have hbody := wrote_body jw.comma call
  have hitem : (jw.comma.writeBody call).sink =
      jw.sink.putAll (commaPieces stack ++ call.body) := by
    rw [hbody.sink, hcomma, Sink.putAll_append]
  have hwritten := htouched.wrote hbody
  have hplain := wrote_body jw call
  cases call.role with
  | opens =>
    simp only [List.length_cons, touched_length]
    constructor
    · intro hroom
      obtain ⟨hsink, htracks⟩ := hwritten.enter (by rw [touched_length]; omega)
      exact ⟨hsink.trans hitem, htracks⟩
    · -- the bracket has gone out before the depth is checked
      intro hfull
      rw [← hitem]
      unfold JsonWriter.enter
      rw [if_neg (by rw [hwritten.depth, touched_length]; omega)]
      rfl
  | item =>
    simp only [touched_length]
    exact ⟨fun _ => ⟨hitem, hwritten⟩, fun hfull => absurd hfull (Nat.not_lt.mpr hdepth)⟩
  | closes =>
    simp only [List.length_tail]
    obtain ⟨hsink, htracks⟩ := (h.wrote hplain).leave
    refine ⟨fun _ => ⟨hsink.trans hplain.sink, htracks⟩, fun hfull => ?_⟩
    omega
  | plain =>
    exact ⟨fun _ => ⟨hplain.sink, h.wrote hplain⟩, fun hfull => absurd hfull (Nat.not_lt.mpr hdepth)⟩

/-- **A writer that has failed** writes nothing more. -/
theorem perform_failed (h : jw.error = true) (call : JsonCall) :
    (jw.perform call).sink = jw.sink := by
  have hput : ∀ {jw' : JsonWriter}, jw'.sink = jw.sink →
      (jw'.writeBody call).sink = jw.sink := by
    intro jw' hsame
    rw [(wrote_body jw' call).sink, hsame, Sink.putAll_of_failed h]
  have hcomma : jw.comma.sink = jw.sink := by
    unfold JsonWriter.comma
    split
    · rfl
    · split
      · rfl
      · exact (wrote_put jw _).sink.trans (Sink.putAll_of_failed h _)
  have henter : ∀ {jw' : JsonWriter}, jw'.sink = jw.sink → jw'.enter.sink = jw.sink := by
    intro jw' hsame
    unfold JsonWriter.enter
    split
    · exact hsame
    · rw [← hsame]
      have herror : jw'.error = true := (congrArg Sink.failed hsame).trans h
      show Sink.mk jw'.written jw'.refuses true = Sink.mk jw'.written jw'.refuses jw'.error
      rw [herror]
  have hleave : ∀ {jw' : JsonWriter}, jw'.sink = jw.sink → jw'.leave.sink = jw.sink := by
    intro jw' hsame
    unfold JsonWriter.leave
    split <;> exact hsame
  rw [perform_eq]
  cases call.role with
  | opens => exact henter (hput hcomma)
  | closes => exact hleave (hput rfl)
  | item => exact hput hcomma
  | plain => exact hput rfl

theorem performAll_failed (h : jw.error = true) (calls : List JsonCall) :
    (jw.performAll calls).sink = jw.sink := by
  induction calls generalizing jw with
  | nil => rfl
  | cons call calls ih =>
    have hone := perform_failed h call
    have herror : (jw.perform call).error = true := (congrArg Sink.failed hone).trans h
    exact (ih herror).trans hone

/-! ## Runs of calls -/

theorem next_length (stack : List Bool) (call : JsonCall) :
    (call.next stack).length = nest stack.length call := by
  unfold JsonCall.next nest
  cases call.role <;> simp [touched_length]

theorem tooDeepFrom_cons {depth : Nat} (hdepth : depth ≤ jsonWriterMaxDepth) (call : JsonCall)
    (calls : List JsonCall) :
    TooDeepFrom depth (call :: calls) ↔
      jsonWriterMaxDepth < nest depth call ∨ TooDeepFrom (nest depth call) calls := by
  constructor
  · rintro ⟨done, hstart, hdeep⟩
    cases done with
    | nil => exact absurd hdeep (Nat.not_lt.mpr hdepth)
    | cons first done =>
      obtain ⟨rfl, hrest⟩ := List.cons_prefix_cons.mp hstart
      exact .inr ⟨done, hrest, hdeep⟩
  · rintro (hdeep | ⟨done, hstart, hdeep⟩)
    · exact ⟨[call], List.cons_prefix_cons.mpr ⟨rfl, List.nil_prefix⟩, hdeep⟩
    · exact ⟨call :: done, List.cons_prefix_cons.mpr ⟨rfl, hstart⟩, hdeep⟩

/-- **A run** writes the pieces of all its calls, or those up to the bracket that is nested too
    deep. -/
theorem Tracks.performAll {stack : List Bool} (h : Tracks jw stack)
    (hdepth : stack.length ≤ jsonWriterMaxDepth) (calls : List JsonCall) :
    (¬ TooDeepFrom stack.length calls →
        (jw.performAll calls).sink = jw.sink.putAll (allPieces stack calls)) ∧
      (TooDeepFrom stack.length calls →
        (jw.performAll calls).sink = (jw.sink.putAll (piecesInDepth stack calls)).fail) := by
  induction calls generalizing jw stack with
  | nil =>
    refine ⟨fun _ => rfl, ?_⟩
    rintro ⟨done, hstart, hdeep⟩
    rw [List.prefix_nil.mp hstart] at hdeep
    exact absurd hdeep (Nat.not_lt.mpr hdepth)
  | cons call calls ih =>
    rw [tooDeepFrom_cons hdepth, ← next_length]
    obtain ⟨hroom, hfull⟩ := h.perform hdepth call
    by_cases hdeep : jsonWriterMaxDepth < (call.next stack).length
    · -- this call fails the writer, so the later ones write nothing
      have hgiven := hfull hdeep
      have herror : (jw.perform call).error = true := congrArg Sink.failed hgiven
      refine ⟨fun hnot => absurd (.inl hdeep) hnot, fun _ => ?_⟩
      rw [piecesInDepth, if_pos hdeep, List.append_nil]
      exact (performAll_failed herror calls).trans hgiven
    · obtain ⟨hsink, htracks⟩ := hroom (Nat.not_lt.mp hdeep)
      obtain ⟨hall, hcut⟩ := ih htracks (Nat.not_lt.mp hdeep)
      constructor
      · intro hnot
        rw [allPieces, Sink.putAll_append, ← hsink]
        exact hall fun hlater => hnot (.inr hlater)
      · intro hlater
        rw [piecesInDepth, if_neg hdeep, Sink.putAll_append, ← hsink]
        exact hcut (hlater.resolve_left hdeep)

end Wrote

/-! ## Pieces -/

theorem digitsIn_ne_nil (base n : Nat) : digitsIn base n ≠ [] := by
  unfold digitsIn
  split
  · simp
  · next hn => simp [Nat.digits_ne_nil_iff_ne_zero.mpr hn]

theorem snprintf_ne_nil {size : Nat} {text : List Nat} (hsize : 1 < size) (h : text ≠ []) :
    snprintf size text ≠ [] := by
  unfold snprintf
  rw [ne_eq, List.take_eq_nil_iff, not_or]
  exact ⟨by omega, h⟩

theorem quotedPieces_ne_nil {value : List UInt8} {maxLen : Nat} {piece : List Nat}
    (h : piece ∈ JsonCall.quotedPieces value maxLen) : piece ≠ [] := by
  unfold JsonCall.quotedPieces at h
  simp only [List.mem_cons, List.mem_append, List.mem_flatMap, List.not_mem_nil, or_false] at h
  rcases h with rfl | ⟨c, _, hc⟩ | rfl
  · simp
  · unfold JsonCall.bytePieces at hc
    split at hc
    · rcases List.mem_cons.mp hc with rfl | hc
      · simp
      · rw [List.mem_singleton.mp hc]
        simp
    · split at hc
      · rw [List.mem_singleton.mp hc]
        exact snprintf_ne_nil (by decide) (by simp)
      · rw [List.mem_singleton.mp hc]
        simp
  · simp

theorem namePieces_ne_nil {name : List UInt8} {piece : List Nat}
    (h : piece ∈ JsonCall.namePieces name) : piece ≠ [] := by
  rcases List.mem_append.mp h with hquoted | hcolon
  · exact quotedPieces_ne_nil hquoted
  · rw [List.mem_singleton.mp hcolon]
    simp

theorem scalarText_ne_nil :
    (∀ v, JsonCall.u32Text v ≠ []) ∧ (∀ v, JsonCall.u64Text v ≠ []) ∧
      (∀ v, JsonCall.i64Text v ≠ []) ∧ (∀ v, JsonCall.boolText v ≠ []) ∧ nullText ≠ [] ∧
      (∀ v, JsonCall.hexText v ≠ []) ∧ ∀ v, JsonCall.ptrText v ≠ [] := by
  refine ⟨?_, ?_, ?_, ?_, ?_, ?_, ?_⟩
  · exact fun v => snprintf_ne_nil (by decide) (digitsIn_ne_nil _ _)
  · exact fun v => snprintf_ne_nil (by decide) (digitsIn_ne_nil _ _)
  · intro v
    apply snprintf_ne_nil (by decide)
    unfold signedDecimal
    split
    · simp
    · exact digitsIn_ne_nil _ _
  · intro v
    cases v <;> simp [JsonCall.boolText, trueText, falseText]
  · simp [nullText]
  · exact fun v => snprintf_ne_nil (by decide) (by simp)
  · intro v
    unfold JsonCall.ptrText
    split
    · exact snprintf_ne_nil (by decide) (by simp)
    · simp [nullText]

/-- No piece is empty, so that a refusal is always a loss. -/
theorem body_ne_nil {call : JsonCall} {piece : List Nat} (h : piece ∈ call.body) : piece ≠ [] := by
  obtain ⟨hu32, hu64, hi64, hbool, hnull, hhex, hptr⟩ := scalarText_ne_nil
  have hnamed : ∀ {name : List UInt8} {text : List Nat}, text ≠ [] →
      piece ∈ JsonCall.namePieces name ++ [text] → piece ≠ [] := by
    intro name text htext hmem
    rcases List.mem_append.mp hmem with hname | hlast
    · exact namePieces_ne_nil hname
    · rw [List.mem_singleton.mp hlast]
      exact htext
  have hstring : ∀ {name value : List UInt8} {maxLen : Nat},
      piece ∈ JsonCall.namePieces name ++ JsonCall.quotedPieces value maxLen → piece ≠ [] := by
    intro name value maxLen hmem
    rcases List.mem_append.mp hmem with hname | hquoted
    · exact namePieces_ne_nil hname
    · exact quotedPieces_ne_nil hquoted
  cases call with
  | objectBegin | objectEnd | arrayBegin | arrayEnd | newline =>
    rw [List.mem_singleton.mp h]
    simp
  | objectBeginField name | arrayBeginField name => exact hnamed (by simp) h
  | string name value => exact hstring h
  | stringN name value maxLen => exact hstring h
  | u32 name value => exact hnamed (hu32 value) h
  | u64 name value => exact hnamed (hu64 value) h
  | i64 name value => exact hnamed (hi64 value) h
  | bool name value => exact hnamed (hbool value) h
  | null name => exact hnamed hnull h
  | hex name value => exact hnamed (hhex value) h
  | ptr name value => exact hnamed (hptr value) h
  | u32Value value => exact List.mem_singleton.mp h ▸ hu32 value
  | u64Value value => exact List.mem_singleton.mp h ▸ hu64 value
  | i64Value value => exact List.mem_singleton.mp h ▸ hi64 value
  | stringValue value => exact quotedPieces_ne_nil h
  | stringNValue value maxLen => exact quotedPieces_ne_nil h
  | boolValue value => exact List.mem_singleton.mp h ▸ hbool value
  | nullValue => exact List.mem_singleton.mp h ▸ hnull

theorem allPieces_ne_nil {calls : List JsonCall} {stack : List Bool} {piece : List Nat}
    (h : piece ∈ allPieces stack calls) : piece ≠ [] := by
  induction calls generalizing stack with
  | nil => exact absurd h List.not_mem_nil
  | cons call calls ih =>
    rcases List.mem_append.mp h with hcall | hrest
    · have hcomma : ∀ piece ∈ JsonCall.commaPieces stack, piece ≠ [] := by
        unfold JsonCall.commaPieces
        split <;> simp
      unfold JsonCall.pieces at hcall
      split at hcall
      · exact (List.mem_append.mp hcall).elim (hcomma _) body_ne_nil
      · exact (List.mem_append.mp hcall).elim (hcomma _) body_ne_nil
      · exact body_ne_nil hcall
      · exact body_ne_nil hcall
    · exact ih hrest

theorem piecesInDepth_isPrefix (stack : List Bool) (calls : List JsonCall) :
    (piecesInDepth stack calls).flatten <+: (allPieces stack calls).flatten := by
  induction calls generalizing stack with
  | nil => exact List.prefix_refl _
  | cons call calls ih =>
    rw [piecesInDepth, allPieces, List.flatten_append, List.flatten_append]
    apply (List.prefix_append_right_inj _).mpr
    split
    · exact List.nil_prefix
    · exact ih _

end JsonWriter

/-! ## What reaches the sink -/

open JsonWriter

section Output

variable (refuses : List Bool) {calls : List JsonCall}

theorem tracks_init : Tracks (init refuses) [] :=
  ⟨rfl, fun i hi => absurd hi (by simp)⟩

theorem piecesInDepth_eq {stack : List Bool} (hdepth : stack.length ≤ jsonWriterMaxDepth)
    (h : ¬ TooDeepFrom stack.length calls) : piecesInDepth stack calls = allPieces stack calls := by
  induction calls generalizing stack with
  | nil => rfl
  | cons call calls ih =>
    rw [tooDeepFrom_cons hdepth, not_or, ← next_length] at h
    rw [piecesInDepth, allPieces, if_neg h.1, ih (Nat.not_lt.mp h.1) h.2]

theorem piecesInDepth_all (h : ¬ TooDeep calls) : piecesInDepth [] calls = allPieces [] calls :=
  @piecesInDepth_eq calls [] (Nat.zero_le _) h

/-- What a run has written, and whether it has failed. -/
theorem performAll_output (calls : List JsonCall) :
    ((init refuses).performAll calls).written = Sink.accepted refuses (piecesInDepth [] calls) ∧
      (((init refuses).performAll calls).error = true ↔
        Sink.refused refuses (piecesInDepth [] calls) = true ∨ TooDeep calls) := by
  have hstart : (init refuses).sink.failed = false := rfl
  obtain ⟨hwritten, hfailed⟩ := Sink.putAll_written hstart (piecesInDepth [] calls)
  obtain ⟨hall, hcut⟩ := (tracks_init refuses).performAll (Nat.zero_le _) calls
  by_cases hdeep : TooDeep calls
  · have hsink := hcut hdeep
    have herror : ((init refuses).performAll calls).error = true := congrArg Sink.failed hsink
    exact ⟨(congrArg Sink.written hsink).trans hwritten, fun _ => .inr hdeep, fun _ => herror⟩
  · have hsink := hall hdeep
    rw [← piecesInDepth_all hdeep] at hsink
    have herror : ((init refuses).performAll calls).error = _ :=
      (congrArg Sink.failed hsink).trans hfailed
    refine ⟨(congrArg Sink.written hsink).trans hwritten, ?_⟩
    rw [herror]
    exact ⟨.inl, fun h => h.resolve_right hdeep⟩

/-- The text of calls is what the writer makes of them where nothing fails. -/
theorem performAll_free (h : ¬ TooDeep calls) :
    ((init []).performAll calls).written = render calls := by
  rw [(performAll_output [] calls).1, piecesInDepth_all h, render]
  cases allPieces [] calls <;> rfl

/-- **Any calls on any sink**: a prefix of their text is written, which ends at the first refusal
    and at the first bracket that is nested too deep, and the writer is fine exactly when all of
    the text is written and nothing is nested too deep. -/
theorem performAll_spec (calls : List JsonCall) :
    let jw := (init refuses).performAll calls
    jw.written <+: render calls ∧
      jw.written = Sink.accepted refuses (piecesInDepth [] calls) ∧
      (∀ done, done <+: calls →
        ((init refuses).performAll done).error = true ∨ TooDeep done →
          jw.written = ((init refuses).performAll done).written) ∧
      (jw.ok = true ↔ jw.written = render calls ∧ ¬ TooDeep calls) := by
  intro jw
  obtain ⟨hwritten, herror⟩ : jw.written = _ ∧ (jw.error = true ↔ _) :=
    performAll_output refuses calls
  have hstart : jw.written <+: render calls := by
    rw [hwritten]
    exact (Sink.accepted_isPrefix _ _).trans (piecesInDepth_isPrefix _ _)
  refine ⟨hstart, hwritten, ?_, ?_⟩
  · -- a bracket too deep fails the writer as a refusal does
    rintro done ⟨rest, rfl⟩ hstop
    have hfailed : ((init refuses).performAll done).error = true := by
      rcases hstop with hfailed | hdeep
      · exact hfailed
      · exact (performAll_output refuses done).2.mpr (.inr hdeep)
    have hsplit : jw = ((init refuses).performAll done).performAll rest := List.foldl_append
    rw [hsplit]
    exact congrArg Sink.written (performAll_failed hfailed rest)
  · have hok : jw.ok = true ↔ ¬ jw.error = true := by simp [ok]
    rw [hok, herror, not_or]
    constructor
    · rintro ⟨hrefused, hdeep⟩
      refine ⟨?_, hdeep⟩
      rw [piecesInDepth_all hdeep, Bool.not_eq_true] at hrefused
      rw [hwritten, piecesInDepth_all hdeep]
      exact (Sink.refused_iff refuses fun _ => allPieces_ne_nil).mp hrefused
    · rintro ⟨hall, hdeep⟩
      refine ⟨?_, hdeep⟩
      rw [hwritten, piecesInDepth_all hdeep] at hall
      rw [piecesInDepth_all hdeep, Bool.not_eq_true]
      exact (Sink.refused_iff refuses fun _ => allPieces_ne_nil).mpr hall

end Output

end LinuxMaxxing.Common
