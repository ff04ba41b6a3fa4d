import Mathlib.Data.Nat.Digits.Lemmas
import LinuxMaxxing.Lib.JsonLocality
import LinuxMaxxing.Common.JsonWriter

/-!
# What the Writer Writes Is the Tree It Was Given

A tree of names, scalars, arrays and objects, emitted through the entry points of
`json_writer.h`: field calls inside objects, value calls inside arrays. The proof goes
through the tree's text.

- `emitValue`, `emitElements`, `emitField`, `emitMembers`: the calls for a tree;
- `Tree.text`: the text of a tree, by recursion on the tree and without a writer;
- `emit_item`: the calls append this text, with the comma that its place needs, and
  leave the open containers as they were;
- `Quoting`, `Tree.render`, `Tree.reading`: the text with its strings written in octets or in code
  units, and what a reader makes of it;
- `parse_text`: the text parses back to the tree, however its strings are written.

The top-level value is at depth 0, where no comma is written; the depth at every call
plus the nesting of what is still to come stays within `JSON_WRITER_MAX_DEPTH`.
-/

namespace LinuxMaxxing.Common

open LinuxMaxxing.Lib

/-! ## Trees and their calls -/

/-- The scalars that have both a field and a value call. -/
inductive Scalar where
  | u32 (v : BitVec 32)
  | u64 (v : BitVec 64)
  | i64 (v : BitVec 64)
  | bool (v : Bool)
  | null
  | string (value : List UInt8)
  | stringN (value : List UInt8) (maxLen : Nat)

mutual

/-- A JSON tree as the writer's callers see it. -/
inductive Tree where
  | scalar (s : Scalar)
  | arr (es : Elements)
  | obj (ms : Members)

/-- The elements of an array. -/
inductive Elements where
  | nil
  | cons (t : Tree) (rest : Elements)

/-- The members of an object; `json_hex` and `json_ptr` exist for members only. -/
inductive Members where
  | nil
  | field (n : List UInt8) (t : Tree) (rest : Members)
  | hex (n : List UInt8) (v : BitVec 64) (rest : Members)
  | ptr (n : List UInt8) (v : BitVec 64) (rest : Members)

end

/-- The value call of a scalar. -/
def emitScalarValue (jw : JsonWriter) : Scalar → JsonWriter
  | .u32 v => jw.u32Value v
  | .u64 v => jw.u64Value v
  | .i64 v => jw.i64Value v
  | .bool v => jw.boolValue v
  | .null => jw.nullValue
  | .string value => jw.stringValue value
  | .stringN value maxLen => jw.stringNValue value maxLen

/-- The field call of a scalar. -/
def emitScalarField (jw : JsonWriter) (n : List UInt8) : Scalar → JsonWriter
  | .u32 v => jw.u32 n v
  | .u64 v => jw.u64 n v
  | .i64 v => jw.i64 n v
  | .bool v => jw.bool n v
  | .null => jw.null n
  | .string value => jw.string n value
  | .stringN value maxLen => jw.stringN n value maxLen

mutual

/-- The calls for a tree in value position. -/
def emitValue (jw : JsonWriter) : Tree → JsonWriter
  | .scalar s => emitScalarValue jw s
  | .arr es => (emitElements jw.arrayBegin es).arrayEnd
  | .obj ms => (emitMembers jw.objectBegin ms).objectEnd

/-- The calls for a tree as a member. -/
def emitField (jw : JsonWriter) (n : List UInt8) : Tree → JsonWriter
  | .scalar s => emitScalarField jw n s
  | .arr es => (emitElements (jw.arrayBeginField n) es).arrayEnd
  | .obj ms => (emitMembers (jw.objectBeginField n) ms).objectEnd

def emitElements (jw : JsonWriter) : Elements → JsonWriter
  | .nil => jw
  | .cons t rest => emitElements (emitValue jw t) rest

def emitMembers (jw : JsonWriter) : Members → JsonWriter
  | .nil => jw
  | .field n t rest => emitMembers (emitField jw n t) rest
  | .hex n v rest => emitMembers (jw.hexField n v) rest
  | .ptr n v rest => emitMembers (jw.ptr n v) rest

end

mutual

/-- How many containers are open at most inside a tree. -/
def Tree.nesting : Tree → Nat
  | .scalar _ => 0
  | .arr es => es.nesting + 1
  | .obj ms => ms.nesting + 1

def Elements.nesting : Elements → Nat
  | .nil => 0
  | .cons t rest => max t.nesting rest.nesting

def Members.nesting : Members → Nat
  | .nil => 0
  | .field _ t rest => max t.nesting rest.nesting
  | .hex _ _ rest => rest.nesting
  | .ptr _ _ rest => rest.nesting

end

/-! ## The JSON value of a tree -/

/-- The octets of a name or string. -/
def stringOctets (value : List UInt8) (maxLen : Nat) : List Nat :=
  (JsonWriter.cString value maxLen).map UInt8.toNat

/-- An integer literal. -/
def integer (n : Int) : Json.Value := .num ⟨n < 0, n.natAbs, none, none⟩

/-- A scalar's value. -/
def Scalar.value : Scalar → Json.Value
  | .u32 v => integer v.toNat
  | .u64 v => integer v.toNat
  | .i64 v => integer v.toInt
  | .bool v => .bool v
  | .null => .null
  | .string value => .str (stringOctets value JsonWriter.sizeMax)
  | .stringN value maxLen => .str (stringOctets value maxLen)

/-- The project's hexadecimal convention, `0x%llx`. -/
def hexValue (v : BitVec 64) : Json.Value := .str (0x30 :: 0x78 :: JsonWriter.hex v.toNat)

/-- The project's pointer convention: `0x%016llx`, and null for zero. -/
def ptrValue (v : BitVec 64) : Json.Value :=
  if v ≠ 0 then .str (0x30 :: 0x78 :: JsonWriter.zeroPad 16 (JsonWriter.hex v.toNat)) else .null

/-- A member's name. -/
def nameOctets (n : List UInt8) : List Nat := stringOctets n JsonWriter.sizeMax

/-- The octets of a string, one after the other. -/
theorem toList_loop (bs : ByteArray) (i : Nat) (r : List UInt8) :
    ByteArray.toList.loop bs i r = r.reverse ++ bs.data.toList.drop i := by
  fun_induction ByteArray.toList.loop bs i r with
  | case1 i r hlt ih =>
    have hi : i < bs.data.toList.length := hlt
    have hget : bs.get! i = bs.data.toList[i] := getElem!_pos bs.data i hlt
    rw [ih, List.reverse_cons, List.append_assoc, List.drop_eq_getElem_cons hi, hget]
    rfl
  | case2 i r hlt =>
    have hi : bs.data.toList.length ≤ i := Nat.le_of_not_lt hlt
    rw [List.drop_eq_nil_of_le hi, List.append_nil]

/-- The octets of a literal without a NUL. -/
theorem octets_literal (s : String) (hzero : (0 : UInt8) ∉ s.toUTF8.data.toList)
    (hsize : s.toUTF8.data.toList.length ≤ JsonWriter.sizeMax) :
    stringOctets (JsonWriter.literal s) JsonWriter.sizeMax =
      s.toUTF8.data.toList.map UInt8.toNat := by
  have hbytes : JsonWriter.literal s = s.toUTF8.data.toList := toList_loop s.toUTF8 0 []
  unfold stringOctets JsonWriter.cString
  rw [hbytes, List.take_of_length_le hsize, List.takeWhile_eq_self_iff.mpr]
  intro c hc
  exact decide_eq_true fun heq : c = 0 => hzero (heq ▸ hc)

mutual

/-- The JSON value of a tree. -/
def Tree.value : Tree → Json.Value
  | .scalar s => s.value
  | .arr es => .arr es.values
  | .obj ms => .obj ms.values

def Elements.values : Elements → List Json.Value
  | .nil => []
  | .cons t rest => t.value :: rest.values

def Members.values : Members → List (List Nat × Json.Value)
  | .nil => []
  | .field n t rest => (nameOctets n, t.value) :: rest.values
  | .hex n v rest => (nameOctets n, hexValue v) :: rest.values
  | .ptr n v rest => (nameOctets n, ptrValue v) :: rest.values

end

/-! ## The text of a tree -/

/-- The text of one byte of a string. -/
def escapedByte (c : UInt8) : List Nat :=
  if c = 0x22 ∨ c = 0x5c then [0x5c, c.toNat]
  else if c < 0x20 then 0x5c :: 0x75 :: JsonWriter.zeroPad 4 (JsonWriter.hex c.toNat)
  else [c.toNat]

/-- The text of a name or string. -/
def quoted (value : List UInt8) (maxLen : Nat) : List Nat :=
  0x22 :: ((JsonWriter.cString value maxLen).flatMap escapedByte ++ [0x22])

/-- A name and its colon. -/
def nameText (n : List UInt8) : List Nat := quoted n JsonWriter.sizeMax ++ [0x3a]

def Scalar.text : Scalar → List Nat
  | .u32 v => JsonWriter.decimal v.toNat
  | .u64 v => JsonWriter.decimal v.toNat
  | .i64 v => JsonWriter.signedDecimal v.toInt
  | .bool v => if v then JsonWriter.trueText else JsonWriter.falseText
  | .null => JsonWriter.nullText
  | .string value => quoted value JsonWriter.sizeMax
  | .stringN value maxLen => quoted value maxLen

def hexText (v : BitVec 64) : List Nat :=
  0x22 :: 0x30 :: 0x78 :: (JsonWriter.hex v.toNat ++ [0x22])

def ptrText (v : BitVec 64) : List Nat :=
  if v ≠ 0 then 0x22 :: 0x30 :: 0x78 :: (JsonWriter.zeroPad 16 (JsonWriter.hex v.toNat) ++ [0x22])
  else JsonWriter.nullText

/-- The comma before every item but the first. -/
def separator (first : Bool) : List Nat := if first then [] else [0x2c]

mutual

/-- The text of a tree. -/
def Tree.text : Tree → List Nat
  | .scalar s => s.text
  | .arr es => 0x5b :: (es.text true ++ [0x5d])
  | .obj ms => 0x7b :: (ms.text true ++ [0x7d])

/-- The text of the elements, of which the next one is the first or not. -/
def Elements.text (first : Bool) : Elements → List Nat
  | .nil => []
  | .cons t rest => separator first ++ (t.text ++ rest.text false)

def Members.text (first : Bool) : Members → List Nat
  | .nil => []
  | .field n t rest => separator first ++ (nameText n ++ t.text ++ rest.text false)
  | .hex n v rest => separator first ++ (nameText n ++ hexText v ++ rest.text false)
  | .ptr n v rest => separator first ++ (nameText n ++ ptrText v ++ rest.text false)

end

/-! ## Buffers

Every text fits its buffer, so `snprintf` cuts nothing off. -/

namespace JsonWriter

theorem snprintf_of_fits {size : Nat} {text : List Nat} (h : text.length < size) :
    snprintf size text = text :=
  List.take_of_length_le (by omega)

theorem digitsIn_length_le {base n k : Nat} (hbase : 1 < base) (hk : 0 < k) (h : n < base ^ k) :
    (digitsIn base n).length ≤ k := by
  unfold digitsIn
  split
  · exact hk
  · rw [List.length_map, List.length_reverse]
    exact (Nat.digits_length_le_iff hbase n).mpr h

theorem zeroPad_length_le {width : Nat} {digits : List Nat} (h : digits.length ≤ width) :
    (zeroPad width digits).length ≤ width := by
  unfold zeroPad
  rw [List.length_append, List.length_replicate]
  omega

theorem decimal_length_le (v : Nat) (h : v < 2 ^ 64) : (decimal v).length ≤ 20 :=
  digitsIn_length_le (by decide) (by decide) (by omega)

theorem hex_length_le (v : BitVec 64) : (hex v.toNat).length ≤ 16 :=
  digitsIn_length_le (by decide) (by decide) v.isLt

theorem signedDecimal_length_le (v : BitVec 64) : (signedDecimal v.toInt).length ≤ 21 := by
  have habs : v.toInt.natAbs < 2 ^ 64 := by
    have hlow := BitVec.le_toInt v
    have hhigh := BitVec.toInt_lt (x := v)
    omega
  have hlen := decimal_length_le _ habs
  unfold signedDecimal
  split
  · rw [List.length_cons]
    omega
  · omega

/-! ## Output on a sink that accepts everything -/

/-- No error, and the sink refuses nothing. -/
structure Quiet (jw : JsonWriter) : Prop where
  error : jw.error = false
  refuses : jw.refuses = []

/-- The writer with more text behind it. -/
def append (jw : JsonWriter) (text : List Nat) : JsonWriter :=
  { jw with written := jw.written ++ text }

@[simp] theorem append_append (jw : JsonWriter) (a b : List Nat) :
    (jw.append a).append b = jw.append (a ++ b) := by
  simp [append]

theorem append_nil (jw : JsonWriter) : jw.append [] = jw := by
  simp [append]

theorem Quiet.append {jw : JsonWriter} (h : Quiet jw) (text : List Nat) : Quiet (jw.append text) :=
  ⟨h.error, h.refuses⟩

theorem Quiet.put {jw : JsonWriter} (h : Quiet jw) (text : List Nat) :
    jw.put text = jw.append text := by
  simp [JsonWriter.put, JsonWriter.append, h.error, h.refuses]

theorem Quiet.putc {jw : JsonWriter} (h : Quiet jw) (c : Nat) : jw.putc c = jw.append [c] :=
  h.put [c]

theorem Quiet.puts {jw : JsonWriter} (h : Quiet jw) {text : List Nat} :
    jw.puts text = jw.append text := h.put text

theorem Quiet.putEscapedByte {jw : JsonWriter} (h : Quiet jw) (c : UInt8) :
    jw.putEscapedByte c = jw.append (escapedByte c) := by
  unfold JsonWriter.putEscapedByte escapedByte
  split
  · rw [h.putc, (h.append _).putc, append_append]
    rfl
  · split
    · next hctl =>
      have hlt : c.toNat < 0x20 := by simpa [UInt8.lt_iff_toNat_lt] using hctl
      have hlen : (hex c.toNat).length ≤ 4 :=
        digitsIn_length_le (by decide) (by decide) (by omega)
      have hpad := zeroPad_length_le hlen
      rw [h.puts, snprintf_of_fits]
      simp only [List.length_cons]
      omega
    · exact h.putc _

theorem Quiet.foldl_putEscapedByte {jw : JsonWriter} (h : Quiet jw) (bytes : List UInt8) :
    bytes.foldl JsonWriter.putEscapedByte jw = jw.append (bytes.flatMap escapedByte) := by
  induction bytes generalizing jw with
  | nil => exact (append_nil jw).symm
  | cons c bytes ih =>
    rw [List.foldl_cons, h.putEscapedByte, ih (h.append _), append_append, List.flatMap_cons]

theorem Quiet.putEscaped {jw : JsonWriter} (h : Quiet jw) (value : List UInt8) (maxLen : Nat) :
    jw.putEscaped value maxLen = jw.append (quoted value maxLen) := by
  unfold JsonWriter.putEscaped quoted
  rw [h.putc, (h.append _).foldl_putEscapedByte, ((h.append _).append _).putc, append_append,
    append_append]
  simp

theorem Quiet.name {jw : JsonWriter} (h : Quiet jw) (n : List UInt8) :
    jw.name n = jw.append (nameText n) := by
  unfold JsonWriter.name nameText
  rw [h.putEscaped, (h.append _).putc, append_append]

theorem Quiet.putU32 {jw : JsonWriter} (h : Quiet jw) (v : BitVec 32) :
    jw.putU32 v = jw.append (decimal v.toNat) := by
  have hlen : (decimal v.toNat).length ≤ 10 :=
    digitsIn_length_le (by decide) (by decide) (by have := v.isLt; omega)
  unfold JsonWriter.putU32
  rw [h.puts, snprintf_of_fits (by omega)]

theorem Quiet.putU64 {jw : JsonWriter} (h : Quiet jw) (v : BitVec 64) :
    jw.putU64 v = jw.append (decimal v.toNat) := by
  have hlen := decimal_length_le v.toNat v.isLt
  unfold JsonWriter.putU64
  rw [h.puts, snprintf_of_fits (by omega)]

theorem Quiet.putI64 {jw : JsonWriter} (h : Quiet jw) (v : BitVec 64) :
    jw.putI64 v = jw.append (signedDecimal v.toInt) := by
  have hlen := signedDecimal_length_le v
  unfold JsonWriter.putI64
  rw [h.puts, snprintf_of_fits (by omega)]

theorem Quiet.putHex {jw : JsonWriter} (h : Quiet jw) (v : BitVec 64) :
    jw.putHex v = jw.append (hexText v) := by
  have hlen := hex_length_le v
  unfold JsonWriter.putHex
  rw [h.puts, snprintf_of_fits]
  · rfl
  · simp only [List.length_cons, List.length_append, List.length_nil]
    omega

theorem Quiet.putPtr {jw : JsonWriter} (h : Quiet jw) (v : BitVec 64) :
    jw.putPtr v = jw.append (ptrText v) := by
  have hlen := zeroPad_length_le (hex_length_le v)
  unfold JsonWriter.putPtr ptrText
  split
  · rw [h.puts, snprintf_of_fits]
    simp only [List.length_cons, List.length_append, List.length_nil]
    omega
  · exact h.puts

/-- The next item is the first of its container, or stands at the top level. -/
def atFirst (jw : JsonWriter) : Bool := jw.depth = 0 || jw.first (jw.depth - 1)

end JsonWriter

/-! ## Items and containers -/

/-- From `jw` to `jw'` one item was written: its text after the comma it needs. The
    enclosing containers stay as they were, and the innermost has an item now. -/
structure Item (jw jw' : JsonWriter) (text : List Nat) : Prop where
  written : jw'.written = jw.written ++ (separator jw.atFirst ++ text)
  quiet : jw'.Quiet
  depth : jw'.depth = jw.depth
  outer : ∀ i, i + 1 < jw.depth → jw'.first i = jw.first i
  used : 0 < jw.depth → jw'.first (jw.depth - 1) = false

/-- From `jw` to `jw'` items of the innermost container were written; the text
    depends on whether the first of them is the container's first. -/
structure Items (jw jw' : JsonWriter) (text : Bool → List Nat) : Prop where
  written : jw'.written = jw.written ++ text (jw.first (jw.depth - 1))
  quiet : jw'.Quiet
  depth : jw'.depth = jw.depth
  outer : ∀ i, i + 1 < jw.depth → jw'.first i = jw.first i

theorem comma_item {jw : JsonWriter} (h : jw.Quiet) : Item jw jw.comma [] := by
  unfold JsonWriter.comma
  split
  · next hzero =>
    refine ⟨?_, h, rfl, fun _ _ => rfl, fun hpos => by omega⟩
    simp [JsonWriter.atFirst, hzero, separator]
  · next hpos =>
    split
    · next hfirst =>
      refine ⟨?_, ⟨h.error, h.refuses⟩, rfl, fun i hi => ?_, fun _ => ?_⟩
      · simp [JsonWriter.atFirst, hfirst, separator]
      · exact Function.update_of_ne (by omega) _ _
      · exact Function.update_self _ _ _
    · next hfirst =>
      rw [h.putc]
      refine ⟨?_, h.append _, rfl, fun _ _ => rfl, fun _ => ?_⟩
      · simp [JsonWriter.atFirst, hfirst, hpos, separator, JsonWriter.append]
      · show jw.first (jw.depth - 1) = false
        simpa using hfirst

theorem Item.append {jw jw' : JsonWriter} {text : List Nat} (h : Item jw jw' text)
    (more : List Nat) : Item jw (jw'.append more) (text ++ more) where
  written := by simp [JsonWriter.append, h.written]
  quiet := h.quiet.append more
  depth := h.depth
  outer := h.outer
  used := h.used

/-- Opening a container behind `pre`. -/
theorem Item.enter_eq {jw jw₁ : JsonWriter} {pre : List Nat} (hpre : Item jw jw₁ pre)
    (hdepth : jw.depth < jsonWriterMaxDepth) (opening : Nat) :
    (jw₁.putc opening).enter = { jw₁.append [opening] with
      first := Function.update jw₁.first jw.depth true, depth := jw.depth + 1 } := by
  rw [hpre.quiet.putc]
  unfold JsonWriter.enter
  rw [if_pos (show (jw₁.append [opening]).depth < _ from hpre.depth ▸ hdepth)]
  simp [JsonWriter.append, hpre.depth]

/-- A container is one item: opened behind `pre`, filled by `fill`, closed. -/
theorem Item.container {jw jw₁ : JsonWriter} {pre : List Nat} {text : Bool → List Nat}
    {fill : JsonWriter → JsonWriter} {opening closing : Nat} (hpre : Item jw jw₁ pre)
    (hdepth : jw.depth < jsonWriterMaxDepth)
    (hfill : ∀ jw' : JsonWriter, jw'.Quiet → jw'.depth = jw.depth + 1 → Items jw' (fill jw') text) :
    Item jw ((fill (jw₁.putc opening).enter).putc closing).leave
      (pre ++ opening :: (text true ++ [closing])) := by
  rw [hpre.enter_eq hdepth]
  have hitems := hfill { jw₁.append [opening] with
    first := Function.update jw₁.first jw.depth true, depth := jw.depth + 1 }
    ⟨hpre.quiet.error, hpre.quiet.refuses⟩ rfl
  generalize fill _ = jw₂ at hitems ⊢
  have hdepth₂ : jw₂.depth = jw.depth + 1 := hitems.depth
  have hleave : (jw₂.putc closing).leave =
      { jw₂.append [closing] with depth := jw.depth } := by
    rw [hitems.quiet.putc]
    unfold JsonWriter.leave
    rw [if_pos (show 0 < (jw₂.append [closing]).depth from hdepth₂ ▸ Nat.succ_pos _)]
    simp [JsonWriter.append, hdepth₂]
  -- closing the container brings back the flags of the enclosing ones
  have hflags : ∀ i, i < jw.depth → jw₂.first i = jw₁.first i := by
    intro i hi
    rw [hitems.outer i (Nat.succ_lt_succ hi)]
    exact Function.update_of_ne (by omega) _ _
  have hwritten : jw₂.written = jw₁.written ++ [opening] ++ text true := by
    rw [hitems.written]
    simp [JsonWriter.append]
  rw [hleave]
  refine ⟨?_, ⟨hitems.quiet.error, hitems.quiet.refuses⟩, rfl, fun i hi => ?_, fun hpos => ?_⟩
  · simp [JsonWriter.append, hwritten, hpre.written]
  · exact (hflags i (by omega)).trans (hpre.outer i hi)
  · exact (hflags _ (by omega)).trans (hpre.used hpos)

theorem Items.nil {jw : JsonWriter} (h : jw.Quiet) : Items jw jw (fun _ => []) :=
  ⟨by simp, h, rfl, fun _ _ => rfl⟩

theorem Items.cons {jw jw₁ jw₂ : JsonWriter} {text : List Nat} {rest : Bool → List Nat}
    (hpos : 0 < jw.depth) (hitem : Item jw jw₁ text) (hrest : Items jw₁ jw₂ rest) :
    Items jw jw₂ (fun first => separator first ++ (text ++ rest false)) where
  written := by
    have hused : jw₁.first (jw₁.depth - 1) = false := hitem.depth ▸ hitem.used hpos
    have hfirst : jw.atFirst = jw.first (jw.depth - 1) := by
      simp [JsonWriter.atFirst, hpos.ne']
    simp [hrest.written, hused, hitem.written, hfirst]
  quiet := hrest.quiet
  depth := hrest.depth.trans hitem.depth
  outer := fun i hi => (hrest.outer i (hitem.depth ▸ hi)).trans (hitem.outer i hi)

/-! ## The calls write the text -/

/-- The value part of a scalar's calls. -/
def putScalar (jw : JsonWriter) : Scalar → JsonWriter
  | .u32 v => jw.putU32 v
  | .u64 v => jw.putU64 v
  | .i64 v => jw.putI64 v
  | .bool v => jw.putBool v
  | .null => jw.putNull
  | .string value => jw.putEscaped value JsonWriter.sizeMax
  | .stringN value maxLen => jw.putEscaped value maxLen

theorem putScalar_eq {jw : JsonWriter} (h : jw.Quiet) (s : Scalar) :
    putScalar jw s = jw.append s.text := by
  cases s with
  | u32 v => exact h.putU32 v
  | u64 v => exact h.putU64 v
  | i64 v => exact h.putI64 v
  | bool v => exact h.puts
  | null => exact h.puts
  | string value => exact h.putEscaped value _
  | stringN value maxLen => exact h.putEscaped value maxLen

theorem emitScalarValue_item {jw : JsonWriter} (h : jw.Quiet) (s : Scalar) :
    Item jw (emitScalarValue jw s) s.text := by
  have hcomma := comma_item h
  have hcalls : emitScalarValue jw s = putScalar jw.comma s := by cases s <;> rfl
  rw [hcalls, putScalar_eq hcomma.quiet]
  exact hcomma.append s.text

/-- A name is the beginning of an item. -/
theorem name_item {jw : JsonWriter} (h : jw.Quiet) (n : List UInt8) :
    Item jw (jw.comma.name n) (nameText n) := by
  have hcomma := comma_item h
  rw [hcomma.quiet.name]
  exact hcomma.append (nameText n)

theorem emitScalarField_item {jw : JsonWriter} (h : jw.Quiet) (n : List UInt8) (s : Scalar) :
    Item jw (emitScalarField jw n s) (nameText n ++ s.text) := by
  have hname := name_item h n
  have hcalls : emitScalarField jw n s = putScalar (jw.comma.name n) s := by cases s <;> rfl
  rw [hcalls, putScalar_eq hname.quiet]
  exact hname.append s.text

mutual

/-- **The calls write the text**: a tree in value position is one item. By recursion
    on the tree, with the flags of the open containers in `Item` and `Items`. -/
theorem emitValue_item (t : Tree) {jw : JsonWriter} (h : jw.Quiet)
    (hdepth : jw.depth + t.nesting ≤ jsonWriterMaxDepth) : Item jw (emitValue jw t) t.text := by
  cases t with
  | scalar s => exact emitScalarValue_item h s
  | arr es =>
    rw [Tree.nesting] at hdepth
    have hes : ∀ jw' : JsonWriter, jw'.Quiet → jw'.depth = jw.depth + 1 →
        Items jw' (emitElements jw' es) es.text :=
      fun jw' h' hdepth' => emitElements_items es h' (by omega) (by omega)
    exact (comma_item h).container (by omega) hes
  | obj ms =>
    rw [Tree.nesting] at hdepth
    have hms : ∀ jw' : JsonWriter, jw'.Quiet → jw'.depth = jw.depth + 1 →
        Items jw' (emitMembers jw' ms) ms.text :=
      fun jw' h' hdepth' => emitMembers_items ms h' (by omega) (by omega)
    exact (comma_item h).container (by omega) hms

/-- A tree as a member is one item. -/
theorem emitField_item (t : Tree) (n : List UInt8) {jw : JsonWriter} (h : jw.Quiet)
    (hdepth : jw.depth + t.nesting ≤ jsonWriterMaxDepth) :
    Item jw (emitField jw n t) (nameText n ++ t.text) := by
  cases t with
  | scalar s => exact emitScalarField_item h n s
  | arr es =>
    rw [Tree.nesting] at hdepth
    have hes : ∀ jw' : JsonWriter, jw'.Quiet → jw'.depth = jw.depth + 1 →
        Items jw' (emitElements jw' es) es.text :=
      fun jw' h' hdepth' => emitElements_items es h' (by omega) (by omega)
    exact (name_item h n).container (by omega) hes
  | obj ms =>
    rw [Tree.nesting] at hdepth
    have hms : ∀ jw' : JsonWriter, jw'.Quiet → jw'.depth = jw.depth + 1 →
        Items jw' (emitMembers jw' ms) ms.text :=
      fun jw' h' hdepth' => emitMembers_items ms h' (by omega) (by omega)
    exact (name_item h n).container (by omega) hms

theorem emitElements_items (es : Elements) {jw : JsonWriter} (h : jw.Quiet) (hpos : 0 < jw.depth)
    (hdepth : jw.depth + es.nesting ≤ jsonWriterMaxDepth) :
    Items jw (emitElements jw es) es.text := by
  cases es with
  | nil => exact Items.nil h
  | cons t rest =>
    rw [Elements.nesting] at hdepth
    have hitem := emitValue_item t h (by omega)
    have hsame := hitem.depth
    exact Items.cons hpos hitem (emitElements_items rest hitem.quiet (by omega) (by omega))

theorem emitMembers_items (ms : Members) {jw : JsonWriter} (h : jw.Quiet) (hpos : 0 < jw.depth)
    (hdepth : jw.depth + ms.nesting ≤ jsonWriterMaxDepth) :
    Items jw (emitMembers jw ms) ms.text := by
  cases ms with
  | nil => exact Items.nil h
  | field n t rest =>
    rw [Members.nesting] at hdepth
    have hitem := emitField_item t n h (by omega)
    have hsame := hitem.depth
    exact Items.cons hpos hitem (emitMembers_items rest hitem.quiet (by omega) (by omega))
  | hex n v rest =>
    rw [Members.nesting] at hdepth
    have hname := name_item h n
    have hitem := hname.append (hexText v)
    rw [← hname.quiet.putHex] at hitem
    have hsame := hitem.depth
    exact Items.cons hpos hitem (emitMembers_items rest hitem.quiet (by omega) (by omega))
  | ptr n v rest =>
    rw [Members.nesting] at hdepth
    have hname := name_item h n
    have hitem := hname.append (ptrText v)
    rw [← hname.quiet.putPtr] at hitem
    have hsame := hitem.depth
    exact Items.cons hpos hitem (emitMembers_items rest hitem.quiet (by omega) (by omega))

end

/-! ## Numbers parse back -/

theorem hexDigit_isDigit {d : Nat} (hd : d < 10) : Json.isDigit (JsonWriter.hexDigit d) = true := by
  simp only [Json.isDigit, JsonWriter.hexDigit, if_pos hd, Bool.and_eq_true, decide_eq_true_eq]
  omega

/-- Digits, most significant first, read as a number in their base. -/
theorem foldl_map_hexDigit (base : Nat) (read : Nat → Nat) (ds : List Nat)
    (hread : ∀ d ∈ ds, read (JsonWriter.hexDigit d) = d) :
    (ds.reverse.map JsonWriter.hexDigit).foldl (fun n c => base * n + read c) 0 =
      Nat.ofDigits base ds := by
  induction ds with
  | nil => rfl
  | cons d ds ih =>
    rw [List.reverse_cons, List.map_append, List.foldl_append,
      ih fun e he => hread e (List.mem_cons_of_mem _ he), Nat.ofDigits_cons]
    simp only [List.map_cons, List.map_nil, List.foldl_cons, List.foldl_nil,
      hread d List.mem_cons_self]
    omega

theorem isDigit_of_mem_decimal {n c : Nat} (hc : c ∈ JsonWriter.decimal n) :
    Json.isDigit c = true := by
  unfold JsonWriter.decimal JsonWriter.digitsIn at hc
  split at hc
  · rw [List.mem_singleton.mp hc]
    decide
  · obtain ⟨d, hd, rfl⟩ := List.mem_map.mp hc
    exact hexDigit_isDigit (Nat.digits_lt_base (by decide) (List.mem_reverse.mp hd))

/-- The first digit, which is 0 only in the text of 0. -/
theorem decimal_eq_cons (n : Nat) :
    ∃ c r, JsonWriter.decimal n = c :: r ∧ (c = 0x30 → n = 0 ∧ r = []) := by
  unfold JsonWriter.decimal JsonWriter.digitsIn
  split
  · next hn => exact ⟨0x30, [], rfl, fun _ => ⟨hn, rfl⟩⟩
  · next hn =>
    have hne : Nat.digits 10 n ≠ [] := Nat.digits_ne_nil_iff_ne_zero.mpr hn
    have hlast : (Nat.digits 10 n).getLast hne ≠ 0 := Nat.getLast_digit_ne_zero 10 hn
    have hlt : (Nat.digits 10 n).getLast hne < 10 :=
      Nat.digits_lt_base (by decide) (List.getLast_mem hne)
    refine ⟨JsonWriter.hexDigit ((Nat.digits 10 n).getLast hne),
      (Nat.digits 10 n).dropLast.reverse.map JsonWriter.hexDigit, ?_, fun hzero => ?_⟩
    · conv_lhs => rw [← List.dropLast_append_getLast hne]
      simp
    · simp only [JsonWriter.hexDigit, if_pos hlt] at hzero
      omega

theorem natOfDigits_decimal (n : Nat) : Json.natOfDigits (JsonWriter.decimal n) = n := by
  unfold JsonWriter.decimal JsonWriter.digitsIn
  split
  · next hn =>
    subst hn
    rfl
  · have hread : ∀ d ∈ Nat.digits 10 n, JsonWriter.hexDigit d - 0x30 = d := by
      intro d hd
      have hlt : d < 10 := Nat.digits_lt_base (by decide) hd
      rw [JsonWriter.hexDigit, if_pos hlt]
      omega
    exact (foldl_map_hexDigit 10 (· - 0x30) _ hread).trans (Nat.ofDigits_digits 10 n)

theorem parseInt_decimal (n : Nat) {y : List Nat} (hy : Json.NoDigit y) :
    Json.parseInt (JsonWriter.decimal n ++ y) = some (n, y) := by
  obtain ⟨c, r, hcons, hzero⟩ := decimal_eq_cons n
  by_cases hc : c = 0x30
  · obtain ⟨hn, hr⟩ := hzero hc
    rw [hcons, hc, hr, hn]
    rfl
  · have hall : ∀ d ∈ JsonWriter.decimal n, Json.isDigit d = true :=
      fun d hd => isDigit_of_mem_decimal hd
    have hwhole : (JsonWriter.decimal n).takeWhile Json.isDigit = JsonWriter.decimal n :=
      List.takeWhile_eq_self_iff.mpr hall
    obtain ⟨htake, hdrop⟩ := Json.digits_append (s := JsonWriter.decimal n) hy
    rw [hwhole] at htake hdrop
    unfold Json.parseInt
    split
    · next heq =>
      rw [hcons] at heq
      cases heq
      exact absurd rfl hc
    · next c' r' _ heq =>
      have hdigit : Json.isDigit c' = true := by
        rw [hcons] at heq
        cases heq
        exact hall _ (by rw [hcons]; exact List.mem_cons_self)
      rw [if_pos hdigit, ← heq, htake, hdrop, natOfDigits_decimal]
    · next heq =>
      rw [hcons] at heq
      cases heq

theorem parseUnsigned_decimal (neg : Bool) (n : Nat) {y : List Nat} (hy : Json.Delimits y) :
    Json.parseUnsigned neg (JsonWriter.decimal n ++ y) = some (⟨neg, n, none, none⟩, y) := by
  have hfrac : Json.parseFrac y = some (none, y) := by
    unfold Json.parseFrac
    split
    · exact absurd rfl (hy 0x2e rfl).2.1
    · rfl
  have hexp : Json.parseExp y = some (none, y) := by
    cases y with
    | nil => rfl
    | cons c y =>
      have hc := (hy c rfl).2.2
      simp [Json.parseExp, hc]
  unfold Json.parseUnsigned
  simp only [parseInt_decimal n hy.noDigit, hfrac, hexp, Option.bind_some, Option.map_some]

/-- A value that starts with a digit or a minus sign is a number. -/
theorem parseValue_number {c : Nat} {r y : List Nat} {num : Json.Number}
    (hc : c = 0x2d ∨ Json.isDigit c = true) (h : Json.parseNumber (c :: r) = some (num, y))
    (dec : List Json.StrItem → List Nat) (fuel : Nat) :
    Json.parseValue dec (fuel + 1) (c :: r) = some (.num num, y) := by
  have hrange : c = 0x2d ∨ 0x30 ≤ c ∧ c ≤ 0x39 := by
    simpa [Json.isDigit] using hc
  rw [Json.parseValue, if_neg (by omega), if_neg (by omega), if_neg (by omega), if_neg (by omega),
    if_neg (by omega), if_neg (by omega), h]
  rfl

theorem parseValue_signedDecimal (dec : List Json.StrItem → List Nat) (n : Int) (fuel : Nat)
    {y : List Nat} (hy : Json.Delimits y) :
    Json.parseValue dec (fuel + 1) (JsonWriter.signedDecimal n ++ y) =
      some (integer n, y) := by
  unfold JsonWriter.signedDecimal integer
  split
  · next hneg =>
    have hnum := parseUnsigned_decimal true n.natAbs hy
    rw [List.cons_append, parseValue_number (.inl rfl) hnum]
    simp [hneg]
  · next hpos =>
    obtain ⟨c, r, hcons, -⟩ := decimal_eq_cons n.natAbs
    have hdigit : Json.isDigit c = true :=
      isDigit_of_mem_decimal (n := n.natAbs) (by rw [hcons]; exact List.mem_cons_self)
    have hminus : c ≠ 0x2d := by
      rintro rfl
      exact absurd hdigit (by decide)
    have hnum : Json.parseNumber (JsonWriter.decimal n.natAbs ++ y) =
        some (⟨false, n.natAbs, none, none⟩, y) := by
      rw [← parseUnsigned_decimal false n.natAbs hy]
      rw [hcons]
      unfold Json.parseNumber
      split
      · next heq =>
        cases heq
        exact absurd rfl hminus
      · rfl
    rw [hcons] at hnum ⊢
    rw [List.cons_append] at hnum ⊢
    rw [parseValue_number (.inr hdigit) hnum]
    simp [hpos]

/-! ## Strings parse back -/

theorem control_escape : ∀ c : Fin 0x20, ∃ a b,
    JsonWriter.zeroPad 4 (JsonWriter.hex c) = [0x30, 0x30, a, b] ∧
    Json.hex4 0x30 0x30 a b = some c.val := by
  intro c
  refine ⟨JsonWriter.hexDigit (c / 16), JsonWriter.hexDigit (c % 16), ?_, ?_⟩
  · revert c
    decide
  · revert c
    decide

/-- The text of one symbol of a string, an octet or a code unit. -/
def escapedSymbol (c : Nat) : List Nat :=
  if c = 0x22 ∨ c = 0x5c then [0x5c, c]
  else if c < 0x20 then 0x5c :: 0x75 :: JsonWriter.zeroPad 4 (JsonWriter.hex c)
  else [c]

theorem escapedByte_eq (c : UInt8) : escapedByte c = escapedSymbol c.toNat := by
  unfold escapedByte escapedSymbol
  simp only [UInt8.lt_iff_toNat_lt, ← UInt8.toNat_inj]
  rfl

theorem flatMap_escapedByte (bytes : List UInt8) :
    bytes.flatMap escapedByte = (bytes.map UInt8.toNat).flatMap escapedSymbol := by
  rw [List.flatMap_map, funext escapedByte_eq]

/-- The text of one symbol is one item of a string, which stands for this symbol. -/
theorem parseChars_escapedSymbol (c : Nat) : ∃ item,
    (∀ items, Json.octets (item :: items) = c :: Json.octets items) ∧
    (∀ items, Json.codeUnits (item :: items) = c :: Json.codeUnits items) ∧
    ∀ r, Json.parseChars (escapedSymbol c ++ r) =
      (Json.parseChars r).map fun p => (item :: p.1, p.2) := by
  unfold escapedSymbol
  split
  · next hshort =>
    refine ⟨.unit c, fun items => ?_, fun items => rfl, fun r => ?_⟩
    · apply Json.octets_unit
      omega
    · rcases hshort with rfl | rfl
      · exact Json.parseChars_escape (by decide) r
      · exact Json.parseChars_escape (by decide) r
  · next hshort =>
    split
    · next hlt =>
      obtain ⟨a, b, htext, hhex⟩ := control_escape ⟨c, hlt⟩
      refine ⟨.unit c, fun items => Json.octets_unit (by omega) items, fun items => rfl,
        fun r => ?_⟩
      simp only at htext
      rw [htext]
      simp only [List.cons_append, List.nil_append]
      rw [Json.parseChars_unicode, hhex, Option.bind_some]
    · next hge =>
      rw [not_or] at hshort
      refine ⟨.raw c, fun items => rfl, fun items => rfl, fun r => ?_⟩
      exact Json.parseChars_raw hshort.1 hshort.2 hge r

/-- A string parses back, as octets and as code units. -/
theorem parseChars_escaped (symbols : List Nat) : ∃ items,
    Json.octets items = symbols ∧ Json.codeUnits items = symbols ∧
    ∀ y, Json.parseChars (symbols.flatMap escapedSymbol ++ 0x22 :: y) = some (items, y) := by
  induction symbols with
  | nil => exact ⟨[], rfl, rfl, fun y => Json.parseChars_quote y⟩
  | cons c symbols ih =>
    obtain ⟨items, hoctets, hunits, hparse⟩ := ih
    obtain ⟨item, hoctet, hunit, hstep⟩ := parseChars_escapedSymbol c
    refine ⟨item :: items, by rw [hoctet, hoctets], by rw [hunit, hunits], fun y => ?_⟩
    rw [List.flatMap_cons, List.append_assoc, hstep, hparse, Option.map_some]

/-- A text without quotation marks, backslashes and controls stands for itself. -/
theorem parseChars_plain (text : List Nat)
    (h : ∀ c ∈ text, c ≠ 0x22 ∧ c ≠ 0x5c ∧ ¬ c < 0x20) (y : List Nat) :
    Json.parseChars (text ++ 0x22 :: y) = some (text.map .raw, y) := by
  induction text with
  | nil => exact Json.parseChars_quote y
  | cons c text ih =>
    obtain ⟨hquote, hslash, hctl⟩ := h c List.mem_cons_self
    rw [List.cons_append, Json.parseChars_raw hquote hslash hctl,
      ih fun d hd => h d (List.mem_cons_of_mem _ hd), Option.map_some, List.map_cons]

/-! ## No raw newline -/

/-- Only printable symbols and the upper half: nothing below the space. -/
def Printable (text : List Nat) : Prop := ∀ c ∈ text, 0x20 ≤ c

theorem Printable.append {a b : List Nat} (ha : Printable a) (hb : Printable b) :
    Printable (a ++ b) := by
  intro c hc
  rcases List.mem_append.mp hc with hc | hc
  · exact ha c hc
  · exact hb c hc

theorem Printable.cons {c : Nat} {a : List Nat} (hc : 0x20 ≤ c) (ha : Printable a) :
    Printable (c :: a) := List.forall_mem_cons.mpr ⟨hc, ha⟩

theorem printable_nil : Printable [] := nofun

theorem printable_digitsIn (base n : Nat) : Printable (JsonWriter.digitsIn base n) := by
  unfold JsonWriter.digitsIn
  split
  · exact printable_nil.cons (by decide)
  · intro c hc
    obtain ⟨d, -, rfl⟩ := List.mem_map.mp hc
    unfold JsonWriter.hexDigit
    split <;> omega

theorem printable_zeroPad {digits : List Nat} (h : Printable digits) (width : Nat) :
    Printable (JsonWriter.zeroPad width digits) := by
  apply Printable.append _ h
  intro c hc
  rw [List.eq_of_mem_replicate hc]
  decide

theorem printable_escaped (symbols : List Nat) : Printable (symbols.flatMap escapedSymbol) := by
  intro d hd
  obtain ⟨c, -, hd⟩ := List.mem_flatMap.mp hd
  unfold escapedSymbol at hd
  split at hd
  · next hshort =>
    have hge : 0x20 ≤ c := by omega
    exact (printable_nil.cons hge).cons (by decide) d hd
  · split at hd
    · exact ((printable_zeroPad (printable_digitsIn _ _) 4).cons (by decide)).cons (by decide) d hd
    · exact printable_nil.cons (by omega) d hd

/-! ## Ways to write a string

The same tree can be written in octets, as the writer does, or in the code units that a reader
makes of the octets. The two texts differ between the quotation marks only. -/

/-- How the bytes of a string are written between the quotation marks, and the contents that a
    parser finds there. -/
structure Quoting where
  dec : List Json.StrItem → List Nat
  written : List UInt8 → List Nat
  contents : List UInt8 → List Nat
  reads : ∀ bytes, ∃ items, dec items = contents bytes ∧
    ∀ y, Json.parseChars (written bytes ++ 0x22 :: y) = some (items, y)
  plain : ∀ text : List Nat, dec (text.map .raw) = text
  printable : ∀ bytes, Printable (written bytes)

/-- The writer's own way. -/
def octetQuoting : Quoting where
  dec := Json.octets
  written bytes := bytes.flatMap escapedByte
  contents bytes := bytes.map UInt8.toNat
  reads bytes := by
    obtain ⟨items, hoctets, -, hparse⟩ := parseChars_escaped (bytes.map UInt8.toNat)
    rw [flatMap_escapedByte]
    exact ⟨items, hoctets, hparse⟩
  plain text := by
    induction text with
    | nil => rfl
    | cons c text ih => rw [List.map_cons, Json.octets, ih]
  printable bytes := by
    rw [flatMap_escapedByte]
    exact printable_escaped _

section Quoting

variable (q : Quoting)

/-- A name or string, with its quotation marks. -/
def Quoting.quoted (value : List UInt8) (maxLen : Nat) : List Nat :=
  0x22 :: (q.written (JsonWriter.cString value maxLen) ++ [0x22])

def Quoting.nameText (n : List UInt8) : List Nat := q.quoted n JsonWriter.sizeMax ++ [0x3a]

/-- The contents of a name or string. -/
def Quoting.string (value : List UInt8) (maxLen : Nat) : List Nat :=
  q.contents (JsonWriter.cString value maxLen)

def Quoting.name (n : List UInt8) : List Nat := q.string n JsonWriter.sizeMax

def Scalar.render : Scalar → List Nat
  | .string value => q.quoted value JsonWriter.sizeMax
  | .stringN value maxLen => q.quoted value maxLen
  | s => s.text

def Scalar.reading : Scalar → Json.Value
  | .string value => .str (q.string value JsonWriter.sizeMax)
  | .stringN value maxLen => .str (q.string value maxLen)
  | s => s.value

mutual

/-- The text of a tree, written in this way. -/
def Tree.render : Tree → List Nat
  | .scalar s => s.render q
  | .arr es => 0x5b :: (es.render true ++ [0x5d])
  | .obj ms => 0x7b :: (ms.render true ++ [0x7d])

def Elements.render (first : Bool) : Elements → List Nat
  | .nil => []
  | .cons t rest => separator first ++ (t.render ++ rest.render false)

def Members.render (first : Bool) : Members → List Nat
  | .nil => []
  | .field n t rest => separator first ++ (q.nameText n ++ t.render ++ rest.render false)
  | .hex n v rest => separator first ++ (q.nameText n ++ hexText v ++ rest.render false)
  | .ptr n v rest => separator first ++ (q.nameText n ++ ptrText v ++ rest.render false)

end

mutual

/-- The JSON value of a tree, read in this way. -/
def Tree.reading : Tree → Json.Value
  | .scalar s => s.reading q
  | .arr es => .arr es.readings
  | .obj ms => .obj ms.readings

def Elements.readings : Elements → List Json.Value
  | .nil => []
  | .cons t rest => t.reading :: rest.readings

def Members.readings : Members → List (List Nat × Json.Value)
  | .nil => []
  | .field n t rest => (q.name n, t.reading) :: rest.readings
  | .hex n v rest => (q.name n, hexValue v) :: rest.readings
  | .ptr n v rest => (q.name n, ptrValue v) :: rest.readings

end

end Quoting

theorem Scalar.render_octets (s : Scalar) : s.render octetQuoting = s.text := by
  cases s <;> rfl

theorem Scalar.reading_octets (s : Scalar) : s.reading octetQuoting = s.value := by
  cases s <;> rfl

mutual

theorem Tree.render_octets (t : Tree) : t.render octetQuoting = t.text := by
  cases t with
  | scalar s => rw [Tree.render, Tree.text, s.render_octets]
  | arr es => rw [Tree.render, Tree.text, es.render_octets]
  | obj ms => rw [Tree.render, Tree.text, ms.render_octets]

theorem Elements.render_octets (es : Elements) (first : Bool) :
    es.render octetQuoting first = es.text first := by
  cases es with
  | nil => rfl
  | cons t rest => rw [Elements.render, Elements.text, t.render_octets, rest.render_octets]

theorem Members.render_octets (ms : Members) (first : Bool) :
    ms.render octetQuoting first = ms.text first := by
  cases ms with
  | nil => rfl
  | field n t rest =>
    rw [Members.render, Members.text, t.render_octets, rest.render_octets]
    rfl
  | hex n v rest =>
    rw [Members.render, Members.text, rest.render_octets]
    rfl
  | ptr n v rest =>
    rw [Members.render, Members.text, rest.render_octets]
    rfl

end

mutual

theorem Tree.reading_octets (t : Tree) : t.reading octetQuoting = t.value := by
  cases t with
  | scalar s => rw [Tree.reading, Tree.value, s.reading_octets]
  | arr es => rw [Tree.reading, Tree.value, es.readings_octets]
  | obj ms => rw [Tree.reading, Tree.value, ms.readings_octets]

theorem Elements.readings_octets (es : Elements) : es.readings octetQuoting = es.values := by
  cases es with
  | nil => rfl
  | cons t rest =>
    rw [Elements.readings, Elements.values, t.reading_octets, rest.readings_octets]

theorem Members.readings_octets (ms : Members) : ms.readings octetQuoting = ms.values := by
  cases ms with
  | nil => rfl
  | field n t rest =>
    rw [Members.readings, Members.values, t.reading_octets, rest.readings_octets]
    rfl
  | hex n v rest =>
    rw [Members.readings, Members.values, rest.readings_octets]
    rfl
  | ptr n v rest =>
    rw [Members.readings, Members.values, rest.readings_octets]
    rfl

end

/-! ## Strings in a value -/

variable (q : Quoting)

theorem parseValue_string {text s y : List Nat} {items : List Json.StrItem}
    (hdec : q.dec items = s) (h : Json.parseChars text = some (items, y)) (fuel : Nat) :
    Json.parseValue q.dec (fuel + 1) (0x22 :: text) = some (.str s, y) := by
  rw [Json.parseValue, if_pos rfl, h, Option.map_some, hdec]

theorem parseValue_quoted (value : List UInt8) (maxLen fuel : Nat) (y : List Nat) :
    Json.parseValue q.dec (fuel + 1) (q.quoted value maxLen ++ y) =
      some (.str (q.string value maxLen), y) := by
  obtain ⟨items, hdec, hparse⟩ := q.reads (JsonWriter.cString value maxLen)
  unfold Quoting.quoted
  rw [List.cons_append, List.append_assoc]
  exact parseValue_string q hdec (hparse y) fuel

/-- A name with its colon, in front of a value. -/
theorem parseName_nameText (n : List UInt8) {y : List Nat}
    (hy : Json.Starts (fun c => Json.isWs c = false) y) :
    Json.parseName q.dec (q.nameText n ++ y) = some (q.name n, y) := by
  obtain ⟨items, hdec, hparse⟩ := q.reads (JsonWriter.cString n JsonWriter.sizeMax)
  have hskip : Json.skipWs y = y := by
    cases y with
    | nil => rfl
    | cons c y => exact Json.skipWs_of_not (hy c rfl)
  unfold Quoting.nameText Quoting.quoted
  simp only [List.cons_append, List.append_assoc, List.nil_append]
  rw [Json.parseName, if_pos rfl, hparse, Option.bind_some]
  simp only [Json.skipWs_of_not (show Json.isWs 0x3a = false from rfl), if_true, hskip, hdec]
  rfl

/-! ## Hexadecimal texts -/

/-- A digit is neither a quotation mark nor a backslash nor a control. -/
theorem plain_of_mem_hex {n c : Nat} (hc : c ∈ JsonWriter.hex n) :
    c ≠ 0x22 ∧ c ≠ 0x5c ∧ ¬ c < 0x20 := by
  unfold JsonWriter.hex JsonWriter.digitsIn at hc
  split at hc
  · rw [List.mem_singleton.mp hc]
    decide
  · obtain ⟨d, -, rfl⟩ := List.mem_map.mp hc
    unfold JsonWriter.hexDigit
    split <;> omega

/-- The texts of `json_hex` and `json_ptr` are strings of such digits. -/
theorem parseValue_digits {digits : List Nat}
    (h : ∀ c ∈ digits, c ≠ 0x22 ∧ c ≠ 0x5c ∧ ¬ c < 0x20) (fuel : Nat) (y : List Nat) :
    Json.parseValue q.dec (fuel + 1) (0x22 :: 0x30 :: 0x78 :: (digits ++ [0x22]) ++ y) =
      some (.str (0x30 :: 0x78 :: digits), y) := by
  have hplain : ∀ c ∈ 0x30 :: 0x78 :: digits, c ≠ 0x22 ∧ c ≠ 0x5c ∧ ¬ c < 0x20 := by
    simp only [List.forall_mem_cons]
    exact ⟨by decide, by decide, h⟩
  have htext : 0x22 :: 0x30 :: 0x78 :: (digits ++ [0x22]) ++ y =
      0x22 :: (0x30 :: 0x78 :: digits ++ 0x22 :: y) := by simp
  rw [htext]
  exact parseValue_string q (q.plain _) (parseChars_plain _ hplain y) fuel

theorem parseValue_null (fuel : Nat) (y : List Nat) :
    Json.parseValue q.dec (fuel + 1) (JsonWriter.nullText ++ y) = some (.null, y) := by
  simp [Json.parseValue, JsonWriter.nullText, List.dropPrefix?]

theorem parseValue_hexText (v : BitVec 64) (fuel : Nat) (y : List Nat) :
    Json.parseValue q.dec (fuel + 1) (hexText v ++ y) = some (hexValue v, y) :=
  parseValue_digits q (fun _ hc => plain_of_mem_hex hc) fuel y

theorem parseValue_ptrText (v : BitVec 64) (fuel : Nat) (y : List Nat) :
    Json.parseValue q.dec (fuel + 1) (ptrText v ++ y) = some (ptrValue v, y) := by
  unfold ptrText ptrValue
  split
  · refine parseValue_digits q (fun c hc => ?_) fuel y
    rcases List.mem_append.mp hc with hpad | hdigit
    · rw [List.eq_of_mem_replicate hpad]
      decide
    · exact plain_of_mem_hex hdigit
  · exact parseValue_null q fuel y

/-! ## Trees parse back -/

theorem parseValue_scalar (s : Scalar) (fuel : Nat) {y : List Nat} (hy : Json.Delimits y) :
    Json.parseValue q.dec (fuel + 1) (s.render q ++ y) = some (s.reading q, y) := by
  -- an unsigned number is a signed one
  have hdecimal : ∀ n : Nat, JsonWriter.decimal n = JsonWriter.signedDecimal n := by
    intro n
    simp [JsonWriter.signedDecimal]
  cases s with
  | u32 v =>
    show Json.parseValue q.dec (fuel + 1) (JsonWriter.decimal v.toNat ++ y) = _
    rw [hdecimal]
    exact parseValue_signedDecimal q.dec _ fuel hy
  | u64 v =>
    show Json.parseValue q.dec (fuel + 1) (JsonWriter.decimal v.toNat ++ y) = _
    rw [hdecimal]
    exact parseValue_signedDecimal q.dec _ fuel hy
  | i64 v => exact parseValue_signedDecimal q.dec _ fuel hy
  | bool v =>
    cases v with
    | true => simp [Scalar.render, Scalar.reading, Scalar.text, Scalar.value, JsonWriter.trueText,
        Json.parseValue, List.dropPrefix?]
    | false => simp [Scalar.render, Scalar.reading, Scalar.text, Scalar.value, JsonWriter.falseText,
        Json.parseValue, List.dropPrefix?]
  | null => exact parseValue_null q fuel y
  | string value => exact parseValue_quoted q value _ fuel y
  | stringN value maxLen => exact parseValue_quoted q value maxLen fuel y

/-- The first symbol of a value: not whitespace and not a closing bracket. -/
def Opens (text : List Nat) : Prop :=
  ∃ c r, text = c :: r ∧ Json.isWs c = false ∧ c ≠ 0x5d

theorem Opens.starts {text : List Nat} (h : Opens text) (y : List Nat) :
    Json.Starts (fun c => Json.isWs c = false) (text ++ y) := by
  obtain ⟨c, r, rfl, hws, -⟩ := h
  intro d hd
  cases hd
  exact hws

theorem Opens.skipWs {text : List Nat} (h : Opens text) (y : List Nat) :
    Json.skipWs (text ++ y) = text ++ y := by
  obtain ⟨c, r, rfl, hws, -⟩ := h
  exact Json.skipWs_of_not hws

theorem Opens.length_pos {text : List Nat} (h : Opens text) : 0 < text.length := by
  obtain ⟨c, r, rfl, -⟩ := h
  exact Nat.succ_pos _

theorem opens_decimal (n : Nat) : Opens (JsonWriter.decimal n) := by
  obtain ⟨c, r, hcons, -⟩ := decimal_eq_cons n
  have hdigit : Json.isDigit c = true :=
    isDigit_of_mem_decimal (n := n) (by rw [hcons]; exact List.mem_cons_self)
  refine ⟨c, r, hcons, ?_, ?_⟩
  · simp only [Json.isDigit, Bool.and_eq_true, decide_eq_true_eq] at hdigit
    simp only [Json.isWs, Bool.or_eq_false_iff, decide_eq_false_iff_not]
    omega
  · rintro rfl
    exact absurd hdigit (by decide)

theorem opens_text (t : Tree) : Opens (t.render q) := by
  cases t with
  | scalar s =>
    cases s with
    | u32 v => exact opens_decimal _
    | u64 v => exact opens_decimal _
    | i64 v =>
      show Opens (JsonWriter.signedDecimal v.toInt)
      unfold JsonWriter.signedDecimal
      split
      · exact ⟨0x2d, _, rfl, rfl, by decide⟩
      · exact opens_decimal _
    | bool v =>
      cases v with
      | true => exact ⟨0x74, _, rfl, rfl, by decide⟩
      | false => exact ⟨0x66, _, rfl, rfl, by decide⟩
    | null => exact ⟨0x6e, _, rfl, rfl, by decide⟩
    | string value => exact ⟨0x22, _, rfl, rfl, by decide⟩
    | stringN value maxLen => exact ⟨0x22, _, rfl, rfl, by decide⟩
  | arr es => exact ⟨0x5b, _, rfl, rfl, by decide⟩
  | obj ms => exact ⟨0x7b, _, rfl, rfl, by decide⟩

theorem opens_ptrText (v : BitVec 64) : Opens (ptrText v) := by
  unfold ptrText
  split
  · exact ⟨0x22, _, rfl, rfl, by decide⟩
  · exact ⟨0x6e, _, rfl, rfl, by decide⟩

/-- After an item comes a comma with the others, or the closing symbol. -/
theorem Elements.render_false {es : Elements} (h : es ≠ .nil) :
    es.render q false = 0x2c :: es.render q true := by
  cases es with
  | nil => exact absurd rfl h
  | cons t rest => rfl

theorem Members.render_false {ms : Members} (h : ms ≠ .nil) :
    ms.render q false = 0x2c :: ms.render q true := by
  cases ms with
  | nil => exact absurd rfl h
  | field n t rest => rfl
  | hex n v rest => rfl
  | ptr n v rest => rfl

theorem Elements.opens {es : Elements} (h : es ≠ .nil) : Opens (es.render q true) := by
  cases es with
  | nil => exact absurd rfl h
  | cons t rest =>
    obtain ⟨c, r, hcons, hopen⟩ := opens_text q t
    exact ⟨c, r ++ rest.render q false, by simp [Elements.render, separator, hcons], hopen⟩

/-- The members of an object start with a name. -/
theorem Members.quote {ms : Members} (h : ms ≠ .nil) : ∃ r, ms.render q true = 0x22 :: r := by
  cases ms with
  | nil => exact absurd rfl h
  | field n t rest => exact ⟨_, rfl⟩
  | hex n v rest => exact ⟨_, rfl⟩
  | ptr n v rest => exact ⟨_, rfl⟩

/-- The elements after the value at hand parse back, if there are any. -/
def ElementsBack (fuel : Nat) (es : Elements) : Prop :=
  es ≠ .nil → ∀ y, Json.parseElements q.dec fuel (es.render q true ++ 0x5d :: y) =
    some (es.readings q, y)

/-- The members after the one at hand parse back, if there are any. -/
def MembersBack (fuel : Nat) (ms : Members) : Prop :=
  ms ≠ .nil → ∀ y, Json.parseMembers q.dec fuel (ms.render q true ++ 0x7d :: y) =
    some (ms.readings q, y)

/-- A value's text parses back in front of anything that ends it. -/
def ValueBack (fuel : Nat) (text : List Nat) (value : Json.Value) : Prop :=
  ∀ y, Json.Delimits y → Json.parseValue q.dec fuel (text ++ y) = some (value, y)

theorem parseElements_cons {fuel : Nat} {t : Tree} {rest : Elements}
    (ht : ValueBack q fuel (t.render q) (t.reading q)) (hrest : ElementsBack q fuel rest) :
    ElementsBack q (fuel + 1) (.cons t rest) := by
  intro _ y
  have htext : (Elements.cons t rest).render q true ++ 0x5d :: y =
      t.render q ++ (rest.render q false ++ 0x5d :: y) := by simp [Elements.render, separator]
  rw [htext, Json.parseElements, Elements.readings]
  by_cases hnil : rest = .nil
  · subst hnil
    rw [Elements.render, List.nil_append, ht _ (by intro c hc; cases hc; decide), Option.bind_some]
    rfl
  · rw [Elements.render_false q hnil, List.cons_append, ht _ (by intro c hc; cases hc; decide),
      Option.bind_some]
    simp only [Json.skipWs_of_not (show Json.isWs 0x2c = false from rfl), if_true,
      (Elements.opens q hnil).skipWs, hrest hnil y, Option.map_some]

theorem parseMembers_cons {fuel : Nat} {n : List UInt8} {text : List Nat} {value : Json.Value}
    {rest : Members} (hopens : Opens text) (hvalue : ValueBack q fuel text value)
    (hrest : MembersBack q fuel rest) (y : List Nat) :
    Json.parseMembers q.dec (fuel + 1)
      (separator true ++ (q.nameText n ++ text ++ rest.render q false) ++ 0x7d :: y) =
      some ((q.name n, value) :: rest.readings q, y) := by
  have htext : separator true ++ (q.nameText n ++ text ++ rest.render q false) ++ 0x7d :: y =
      q.nameText n ++ (text ++ (rest.render q false ++ 0x7d :: y)) := by simp [separator]
  rw [htext, Json.parseMembers, parseName_nameText q n (hopens.starts _), Option.bind_some]
  by_cases hnil : rest = .nil
  · subst hnil
    rw [Members.render, List.nil_append, hvalue _ (by intro c hc; cases hc; decide),
      Option.bind_some]
    rfl
  · rw [Members.render_false q hnil, List.cons_append, hvalue _ (by intro c hc; cases hc; decide),
      Option.bind_some]
    obtain ⟨r, hquote⟩ := Members.quote q hnil
    have hskip : Json.skipWs (rest.render q true ++ 0x7d :: y) =
        rest.render q true ++ 0x7d :: y := by
      rw [hquote]
      exact Json.skipWs_of_not rfl
    simp only [Json.skipWs_of_not (show Json.isWs 0x2c = false from rfl), if_true, hskip,
      hrest hnil y, Option.map_some]

mutual

/-- **The text parses back to the tree**, with a bound of the text's length on the
    number of calls. By recursion on the tree. -/
theorem parse_text (t : Tree) {fuel : Nat} (hfuel : (t.render q).length ≤ fuel) :
    ValueBack q fuel (t.render q) (t.reading q) := by
  have hpos := (opens_text q t).length_pos
  obtain ⟨fuel, rfl⟩ : ∃ k, fuel = k + 1 := ⟨fuel - 1, by omega⟩
  intro y hy
  cases t with
  | scalar s => exact parseValue_scalar q s fuel hy
  | arr es =>
    simp only [Tree.render, List.length_cons, List.length_append, List.length_nil] at hfuel
    rw [Tree.render, Tree.reading, List.cons_append, Json.parseValue, if_neg (by decide),
      if_pos rfl, List.append_assoc, List.singleton_append]
    by_cases hnil : es = .nil
    · subst hnil
      rfl
    · obtain ⟨d, r, hd, hws, hclose⟩ := Elements.opens q hnil
      rw [(Elements.opens q hnil).skipWs, if_neg (by rw [hd]; simpa using hclose),
        parse_elements es (by omega) hnil, Option.map_some]
  | obj ms =>
    simp only [Tree.render, List.length_cons, List.length_append, List.length_nil] at hfuel
    rw [Tree.render, Tree.reading, List.cons_append, Json.parseValue, if_neg (by decide),
      if_neg (by decide), if_pos rfl, List.append_assoc, List.singleton_append]
    by_cases hnil : ms = .nil
    · subst hnil
      rfl
    · obtain ⟨r, hquote⟩ := Members.quote q hnil
      have hskip : Json.skipWs (ms.render q true ++ 0x7d :: y) = ms.render q true ++ 0x7d :: y := by
        rw [hquote]
        exact Json.skipWs_of_not rfl
      rw [hskip, if_neg (by rw [hquote]; simp), parse_members ms (by omega) hnil, Option.map_some]

theorem parse_elements (es : Elements) {fuel : Nat} (hfuel : (es.render q true).length < fuel) :
    ElementsBack q fuel es := by
  obtain ⟨fuel, rfl⟩ : ∃ k, fuel = k + 1 := ⟨fuel - 1, by omega⟩
  cases es with
  | nil => exact fun h => absurd rfl h
  | cons t rest =>
    simp only [Elements.render, separator, if_true, List.nil_append, List.length_append] at hfuel
    refine parseElements_cons q (parse_text t (by omega)) fun hnil => ?_
    rw [Elements.render_false q hnil, List.length_cons] at hfuel
    exact parse_elements rest (by omega) hnil

theorem parse_members (ms : Members) {fuel : Nat} (hfuel : (ms.render q true).length < fuel) :
    MembersBack q fuel ms := by
  obtain ⟨fuel, rfl⟩ : ∃ k, fuel = k + 1 := ⟨fuel - 1, by omega⟩
  cases ms with
  | nil => exact fun h => absurd rfl h
  | field n t rest =>
    simp only [Members.render, separator, if_true, List.nil_append, List.length_append] at hfuel
    intro _ y
    refine parseMembers_cons q (opens_text q t) (parse_text t (by omega)) (fun hnil => ?_) y
    rw [Members.render_false q hnil, List.length_cons] at hfuel
    exact parse_members rest (by omega) hnil
  | hex n v rest =>
    simp only [Members.render, separator, if_true, List.nil_append, List.length_append] at hfuel
    have hopens : Opens (hexText v) := ⟨0x22, _, rfl, rfl, by decide⟩
    have hpos := hopens.length_pos
    obtain ⟨fuel, rfl⟩ : ∃ k, fuel = k + 1 := ⟨fuel - 1, by omega⟩
    intro _ y
    refine parseMembers_cons q hopens (fun y _ => parseValue_hexText q v fuel y) (fun hnil => ?_) y
    rw [Members.render_false q hnil, List.length_cons] at hfuel
    exact parse_members rest (by omega) hnil
  | ptr n v rest =>
    simp only [Members.render, separator, if_true, List.nil_append, List.length_append] at hfuel
    have hopens := opens_ptrText v
    have hpos := hopens.length_pos
    obtain ⟨fuel, rfl⟩ : ∃ k, fuel = k + 1 := ⟨fuel - 1, by omega⟩
    intro _ y
    refine parseMembers_cons q hopens (fun y _ => parseValue_ptrText q v fuel y) (fun hnil => ?_) y
    rw [Members.render_false q hnil, List.length_cons] at hfuel
    exact parse_members rest (by omega) hnil

end

/-- **A tree's text is a document of the tree**, also with whitespace after it. -/
theorem parseDocument_render (t : Tree) {y : List Nat} (hy : ∀ c ∈ y, Json.isWs c = true) :
    Json.parseDocument q.dec (t.render q ++ y) = some (t.reading q) := by
  have hdelimits : Json.Delimits y := by
    intro c hc
    have hws := hy c (List.mem_of_mem_head? hc)
    simp only [Json.isWs, Bool.or_eq_true, decide_eq_true_eq] at hws
    simp only [Json.isDigit, Bool.and_eq_false_iff, decide_eq_false_iff_not]
    omega
  have hlength : (t.render q).length ≤ (t.render q ++ y).length + 1 := by
    rw [List.length_append]
    omega
  have hempty : Json.skipWs y = [] := List.dropWhile_eq_nil_iff.mpr hy
  unfold Json.parseDocument
  rw [(opens_text q t).skipWs, parse_text q t hlength y hdelimits]
  exact if_pos hempty

/-! ## A tree is one line -/

theorem printable_quoted (value : List UInt8) (maxLen : Nat) : Printable (q.quoted value maxLen) :=
  ((q.printable _).append (printable_nil.cons (by decide))).cons (by decide)

theorem printable_nameText (n : List UInt8) : Printable (q.nameText n) :=
  (printable_quoted q n _).append (printable_nil.cons (by decide))

theorem printable_scalar (s : Scalar) : Printable (s.render q) := by
  cases s with
  | u32 v => exact printable_digitsIn _ _
  | u64 v => exact printable_digitsIn _ _
  | i64 v =>
    show Printable (JsonWriter.signedDecimal v.toInt)
    unfold JsonWriter.signedDecimal
    split
    · exact (printable_digitsIn _ _).cons (by decide)
    · exact printable_digitsIn _ _
  | bool v =>
    show Printable (if v then JsonWriter.trueText else JsonWriter.falseText)
    cases v <;> unfold Printable <;> decide
  | null =>
    show Printable JsonWriter.nullText
    unfold Printable
    decide
  | string value => exact printable_quoted q _ _
  | stringN value maxLen => exact printable_quoted q _ _

theorem printable_hexText (v : BitVec 64) : Printable (hexText v) := by
  have hend : Printable [0x22] := printable_nil.cons (by decide)
  exact ((((printable_digitsIn 16 v.toNat).append hend).cons (by decide)).cons (by decide)).cons
    (by decide)

theorem printable_ptrText (v : BitVec 64) : Printable (ptrText v) := by
  have hend : Printable [0x22] := printable_nil.cons (by decide)
  unfold ptrText
  split
  · have hdigits := printable_zeroPad (printable_digitsIn 16 v.toNat) 16
    exact (((hdigits.append hend).cons (by decide)).cons (by decide)).cons (by decide)
  · unfold Printable
    decide

theorem printable_separator (first : Bool) : Printable (separator first) := by
  cases first <;> unfold Printable <;> decide

mutual

theorem printable_render (t : Tree) : Printable (t.render q) := by
  cases t with
  | scalar s => exact printable_scalar q s
  | arr es =>
    have hend : Printable [0x5d] := printable_nil.cons (by decide)
    exact ((printable_elements es true).append hend).cons (by decide)
  | obj ms =>
    have hend : Printable [0x7d] := printable_nil.cons (by decide)
    exact ((printable_members ms true).append hend).cons (by decide)

theorem printable_elements (es : Elements) (first : Bool) : Printable (es.render q first) := by
  cases es with
  | nil => exact printable_nil
  | cons t rest =>
    apply (printable_separator first).append
    exact (printable_render t).append (printable_elements rest false)

theorem printable_members (ms : Members) (first : Bool) : Printable (ms.render q first) := by
  cases ms with
  | nil => exact printable_nil
  | field n t rest =>
    apply (printable_separator first).append
    exact ((printable_nameText q n).append (printable_render t)).append
      (printable_members rest false)
  | hex n v rest =>
    apply (printable_separator first).append
    exact ((printable_nameText q n).append (printable_hexText v)).append
      (printable_members rest false)
  | ptr n v rest =>
    apply (printable_separator first).append
    exact ((printable_nameText q n).append (printable_ptrText v)).append
      (printable_members rest false)

end

/-! ## The round trip -/

/-- **Round trip**: the calls for a tree nested at most 32 deep, on a fresh writer,
    write a JSON text of exactly this tree, all on one line; they close what they
    opened and report no error. `json_newline` then ends the line. -/
theorem emit_round_trip (t : Tree) (hnesting : t.nesting ≤ jsonWriterMaxDepth) :
    Json.parseDocument Json.octets (emitValue (JsonWriter.init []) t).written = some t.value ∧
    0x0a ∉ (emitValue (JsonWriter.init []) t).written ∧
    (emitValue (JsonWriter.init []) t).depth = 0 ∧
    (emitValue (JsonWriter.init []) t).ok = true ∧
    (emitValue (JsonWriter.init []) t).newline.written =
      (emitValue (JsonWriter.init []) t).written ++ [0x0a] ∧
    (emitValue (JsonWriter.init []) t).newline.ok = true := by
  have hinit : (JsonWriter.init []).Quiet := ⟨rfl, rfl⟩
  have hitem := emitValue_item t hinit (le_of_eq_of_le (Nat.zero_add _) hnesting)
  have hwritten : (emitValue (JsonWriter.init []) t).written = t.text := hitem.written
  have hparse := parseDocument_render octetQuoting t (List.forall_mem_nil _)
  rw [List.append_nil, t.render_octets, t.reading_octets] at hparse
  refine ⟨?_, ?_, hitem.depth, ?_, ?_, ?_⟩
  · rw [hwritten]
    exact hparse
  · rw [hwritten, ← t.render_octets]
    exact fun hmem => absurd (printable_render octetQuoting t _ hmem) (by decide)
  · rw [JsonWriter.ok, hitem.quiet.error]
    rfl
  · rw [JsonWriter.newline, hitem.quiet.putc]
    rfl
  · rw [JsonWriter.newline, hitem.quiet.putc, JsonWriter.ok, (hitem.quiet.append _).error]
    rfl

/-- A record with a name and a string that need escapes, a negative number, an empty
    array, a hexadecimal text and a null pointer. -/
def sampleRecord : Tree :=
  .obj (.field [0x61, 0x0a] (.arr (.cons (.scalar (.i64 (-1))) (.cons (.scalar (.string [0x22, 0xff]))
    (.cons (.arr .nil) .nil)))) (.hex [0x68] 255 (.ptr [0x70, 0x00, 0x71] 0 .nil)))

theorem emit_round_trip_sampleRecord : sampleRecord.nesting = 3 ∧
    Json.parseDocument Json.octets (emitValue (JsonWriter.init []) sampleRecord).written =
      some (.obj [([0x61, 0x0a], .arr [.num ⟨true, 1, none, none⟩, .str [0x22, 0xff], .arr []]),
        ([0x68], .str [0x30, 0x78, 0x66, 0x66]), ([0x70], .null)]) ∧
    0x0a ∉ (emitValue (JsonWriter.init []) sampleRecord).written := by
  have h := emit_round_trip sampleRecord (by decide)
  exact ⟨rfl, h.1, h.2.1⟩

/-! ## Hexadecimal texts keep the number -/

/-- The number of a run of hexadecimal digits. -/
def readHex (digits : List Nat) : Nat :=
  digits.foldl (fun n c => 16 * n + (Json.hexValue c).getD 0) 0

theorem readHex_hex (n : Nat) : readHex (JsonWriter.hex n) = n := by
  unfold JsonWriter.hex JsonWriter.digitsIn
  split
  · next hn =>
    subst hn
    rfl
  · have hdigit : ∀ d : Fin 16, (Json.hexValue (JsonWriter.hexDigit d)).getD 0 = d := by decide
    have hread : ∀ d ∈ Nat.digits 16 n, (Json.hexValue (JsonWriter.hexDigit d)).getD 0 = d :=
      fun d hd => hdigit ⟨d, Nat.digits_lt_base (by decide) hd⟩
    exact (foldl_map_hexDigit 16 (fun c => (Json.hexValue c).getD 0) _ hread).trans
      (Nat.ofDigits_digits 16 n)

theorem readHex_zeroPad (width : Nat) (digits : List Nat) :
    readHex (JsonWriter.zeroPad width digits) = readHex digits := by
  unfold readHex JsonWriter.zeroPad
  rw [List.foldl_append]
  congr 1
  -- leading zeros keep the number at 0
  induction width - digits.length with
  | zero => rfl
  | succ k ih =>
    rw [List.replicate_succ, List.foldl_cons]
    exact ih

theorem ptrValue_injective : Function.Injective ptrValue := by
  intro v w h
  unfold ptrValue at h
  split at h
  · split at h
    · simp only [Json.Value.str.injEq, List.cons.injEq, true_and] at h
      apply BitVec.eq_of_toNat_eq
      rw [← readHex_hex v.toNat, ← readHex_zeroPad 16, h, readHex_zeroPad, readHex_hex]
    · cases h
  · next hv =>
    split at h
    · cases h
    · next hw => rw [not_not.mp hv, not_not.mp hw]

end LinuxMaxxing.Common
