import LinuxMaxxing.Lib.Json

/-!
# The Streaming JSON Writer

`json_writer.c`: the writer's state, its output primitives and all its entry points.
The writer keeps, for every open container, whether its next item is the first one.

Each `fputc` and `fputs` writes all its bytes or, when the sink refuses it, none; the
refusals are part of the state. A name or string value is the bytes the pointer leads
to; what counts of them ends at the first NUL or at `max_len`.
-/

namespace LinuxMaxxing.Common

/-! ## State and output -/

/-- `JSON_WRITER_MAX_DEPTH` -/
def jsonWriterMaxDepth : Nat := 32

/-- `struct json_writer` with the sink behind `out`: the octets written, and for the
    coming calls whether the sink refuses them (none of them once the list ends). -/
structure JsonWriter where
  written : List Nat
  refuses : List Bool
  error : Bool
  depth : Nat
  first : Nat → Bool

namespace JsonWriter

/-- `json_writer_init` on a sink. -/
def init (refuses : List Bool) : JsonWriter where
  written := []
  refuses := refuses
  error := false
  depth := 0
  first := fun _ => false

/-- `json_writer_ok` -/
def ok (jw : JsonWriter) : Bool := !jw.error

/-- One call of the C library that writes `octets`. -/
def put (jw : JsonWriter) (octets : List Nat) : JsonWriter :=
  if jw.error then jw
  else if jw.refuses.headD false then { jw with refuses := jw.refuses.tail, error := true }
  else { jw with refuses := jw.refuses.tail, written := jw.written ++ octets }

/-- `jw_putc` -/
def putc (jw : JsonWriter) (c : Nat) : JsonWriter := jw.put [c]

/-- `jw_puts` -/
def puts (jw : JsonWriter) (octets : List Nat) : JsonWriter := jw.put octets

/-- `jw_comma` -/
def comma (jw : JsonWriter) : JsonWriter :=
  if jw.depth = 0 then jw
  else if jw.first (jw.depth - 1) then
    { jw with first := Function.update jw.first (jw.depth - 1) false }
  else jw.putc 0x2c

/-! ## Text -/

/-- The digit of a value below 16, lower case. -/
def hexDigit (d : Nat) : Nat := if d < 10 then 0x30 + d else 0x61 + (d - 10)

/-- The digits of `n` in the base, most significant first; `"0"` for 0. -/
def digitsIn (base n : Nat) : List Nat :=
  if n = 0 then [0x30] else (Nat.digits base n).reverse.map hexDigit

/-- Leading zeros up to the width. -/
def zeroPad (width : Nat) (digits : List Nat) : List Nat :=
  List.replicate (width - digits.length) 0x30 ++ digits

/-- `snprintf` into a buffer of `size` bytes: the text as far as it fits, with its
    terminator. -/
def snprintf (size : Nat) (text : List Nat) : List Nat := text.take (size - 1)

/-- `%u` and `%llu` -/
def decimal (n : Nat) : List Nat := digitsIn 10 n

/-- `%lld` -/
def signedDecimal (n : Int) : List Nat :=
  if n < 0 then 0x2d :: decimal n.natAbs else decimal n.natAbs

/-- `%llx` -/
def hex (n : Nat) : List Nat := digitsIn 16 n

/-- `"true"`, `"false"` and `"null"` -/
def trueText : List Nat := [0x74, 0x72, 0x75, 0x65]
def falseText : List Nat := [0x66, 0x61, 0x6c, 0x73, 0x65]
def nullText : List Nat := [0x6e, 0x75, 0x6c, 0x6c]

/-- One byte of a string. -/
def putEscapedByte (jw : JsonWriter) (c : UInt8) : JsonWriter :=
  if c = 0x22 ∨ c = 0x5c then (jw.putc 0x5c).putc c.toNat
  else if c < 0x20 then jw.puts (snprintf 8 (0x5c :: 0x75 :: zeroPad 4 (hex c.toNat)))
  else jw.putc c.toNat

/-- The bytes of a string value: up to its first NUL, at most `maxLen` of them. -/
def cString (value : List UInt8) (maxLen : Nat) : List UInt8 :=
  (value.take maxLen).takeWhile (· ≠ 0)

/-- `SIZE_MAX` -/
def sizeMax : Nat := 2 ^ 64 - 1

/-- `jw_put_escaped` -/
def putEscaped (jw : JsonWriter) (value : List UInt8) (maxLen : Nat) : JsonWriter :=
  ((cString value maxLen).foldl putEscapedByte (jw.putc 0x22)).putc 0x22

/-- `jw_name` -/
def name (jw : JsonWriter) (n : List UInt8) : JsonWriter := (jw.putEscaped n sizeMax).putc 0x3a

/-! ## Containers -/

/-- A container is open; too deep a nesting is an error. -/
def enter (jw : JsonWriter) : JsonWriter :=
  if jw.depth < jsonWriterMaxDepth then
    { jw with first := Function.update jw.first jw.depth true, depth := jw.depth + 1 }
  else { jw with error := true }

/-- A container is closed. -/
def leave (jw : JsonWriter) : JsonWriter :=
  if 0 < jw.depth then { jw with depth := jw.depth - 1 } else jw

/-- `json_object_begin` -/
def objectBegin (jw : JsonWriter) : JsonWriter := (jw.comma.putc 0x7b).enter

/-- `json_object_begin_field` -/
def objectBeginField (jw : JsonWriter) (n : List UInt8) : JsonWriter :=
  ((jw.comma.name n).putc 0x7b).enter

/-- `json_object_end` -/
def objectEnd (jw : JsonWriter) : JsonWriter := (jw.putc 0x7d).leave

/-- `json_array_begin` -/
def arrayBegin (jw : JsonWriter) : JsonWriter := (jw.comma.putc 0x5b).enter

/-- `json_array_begin_field` -/
def arrayBeginField (jw : JsonWriter) (n : List UInt8) : JsonWriter :=
  ((jw.comma.name n).putc 0x5b).enter

/-- `json_array_end` -/
def arrayEnd (jw : JsonWriter) : JsonWriter := (jw.putc 0x5d).leave

/-! ## Fields and values -/

/-- The text of an unsigned or signed number, a truth value, and null. -/
def putU32 (jw : JsonWriter) (v : BitVec 32) : JsonWriter :=
  jw.puts (snprintf 16 (decimal v.toNat))

def putU64 (jw : JsonWriter) (v : BitVec 64) : JsonWriter :=
  jw.puts (snprintf 24 (decimal v.toNat))

def putI64 (jw : JsonWriter) (v : BitVec 64) : JsonWriter :=
  jw.puts (snprintf 24 (signedDecimal v.toInt))

def putBool (jw : JsonWriter) (v : Bool) : JsonWriter :=
  jw.puts (if v then trueText else falseText)

def putNull (jw : JsonWriter) : JsonWriter := jw.puts nullText

def putHex (jw : JsonWriter) (v : BitVec 64) : JsonWriter :=
  jw.puts (snprintf 32 (0x22 :: 0x30 :: 0x78 :: (hex v.toNat ++ [0x22])))

def putPtr (jw : JsonWriter) (v : BitVec 64) : JsonWriter :=
  if v ≠ 0 then jw.puts (snprintf 32 (0x22 :: 0x30 :: 0x78 :: (zeroPad 16 (hex v.toNat) ++ [0x22])))
  else jw.putNull

/-- `json_string`, `json_string_n`, `json_u32`, `json_u64`, `json_i64`, `json_bool`,
    `json_null`, `json_hex` and `json_ptr`: comma, name, value. -/
def string (jw : JsonWriter) (n value : List UInt8) : JsonWriter :=
  (jw.comma.name n).putEscaped value sizeMax

def stringN (jw : JsonWriter) (n value : List UInt8) (maxLen : Nat) : JsonWriter :=
  (jw.comma.name n).putEscaped value maxLen

def u32 (jw : JsonWriter) (n : List UInt8) (v : BitVec 32) : JsonWriter :=
  (jw.comma.name n).putU32 v

def u64 (jw : JsonWriter) (n : List UInt8) (v : BitVec 64) : JsonWriter :=
  (jw.comma.name n).putU64 v

def i64 (jw : JsonWriter) (n : List UInt8) (v : BitVec 64) : JsonWriter :=
  (jw.comma.name n).putI64 v

def bool (jw : JsonWriter) (n : List UInt8) (v : Bool) : JsonWriter :=
  (jw.comma.name n).putBool v

def null (jw : JsonWriter) (n : List UInt8) : JsonWriter := (jw.comma.name n).putNull

def hexField (jw : JsonWriter) (n : List UInt8) (v : BitVec 64) : JsonWriter :=
  (jw.comma.name n).putHex v

def ptr (jw : JsonWriter) (n : List UInt8) (v : BitVec 64) : JsonWriter :=
  (jw.comma.name n).putPtr v

/-- `json_u32_value` and the other value-position scalars: comma, value. -/
def u32Value (jw : JsonWriter) (v : BitVec 32) : JsonWriter := jw.comma.putU32 v

def u64Value (jw : JsonWriter) (v : BitVec 64) : JsonWriter := jw.comma.putU64 v

def i64Value (jw : JsonWriter) (v : BitVec 64) : JsonWriter := jw.comma.putI64 v

def stringValue (jw : JsonWriter) (value : List UInt8) : JsonWriter :=
  jw.comma.putEscaped value sizeMax

def stringNValue (jw : JsonWriter) (value : List UInt8) (maxLen : Nat) : JsonWriter :=
  jw.comma.putEscaped value maxLen

def boolValue (jw : JsonWriter) (v : Bool) : JsonWriter := jw.comma.putBool v

def nullValue (jw : JsonWriter) : JsonWriter := jw.comma.putNull

/-- `json_newline` -/
def newline (jw : JsonWriter) : JsonWriter := jw.putc 0x0a

/-- The bytes of a string literal. -/
def literal (s : String) : List UInt8 := s.toUTF8.toList

end JsonWriter

end LinuxMaxxing.Common
