import LinuxMaxxing.Framework.KeyValues
import LinuxMaxxing.Framework.Record

/-!
# Trace Records

`trace_record` of `runtime.py` with what it calls: a line of the kernel's trace becomes a record of
a capture.

- `tracePattern`: `TRACE`, the header that the kernel prints in front of every event;
- `Decimal`: the arithmetic of the time stamp;
- `decode`: the fields of a tracepoint, by the patterns of `PATTERNS` or by `key_values`;
- `traceFields`, `traceRecord`: kind and fields of an event, and its record.

`\w` takes letters and digits of all scripts: `wide` says which symbols beyond ASCII are such, as
the interpreter's tables do.
-/

namespace LinuxMaxxing.Framework

open LinuxMaxxing.Lib LinuxMaxxing.Common

/-! ## Classes of symbols -/

/-- The zeros of Unicode's decimal digits. -/
def decimalZeros : List Nat :=
  [0x30, 0x660, 0x6f0, 0x7c0, 0x966, 0x9e6, 0xa66, 0xae6, 0xb66, 0xbe6, 0xc66, 0xce6, 0xd66, 0xde6,
    0xe50, 0xed0, 0xf20, 0x1040, 0x1090, 0x17e0, 0x1810, 0x1946, 0x19d0, 0x1a80, 0x1a90, 0x1b50,
    0x1bb0, 0x1c40, 0x1c50, 0xa620, 0xa8d0, 0xa900, 0xa9d0, 0xa9f0, 0xaa50, 0xabf0, 0xff10, 0x104a0,
    0x10d30, 0x11066, 0x110f0, 0x11136, 0x111d0, 0x112f0, 0x11450, 0x114d0, 0x11650, 0x116c0,
    0x11730, 0x118e0, 0x11950, 0x11c50, 0x11d50, 0x11da0, 0x11f50, 0x16a60, 0x16ac0, 0x16b50,
    0x1d7ce, 0x1d7d8, 0x1d7e2, 0x1d7ec, 0x1d7f6, 0x1e140, 0x1e2f0, 0x1e4f0, 0x1e950, 0x1fbf0]

/-- The value of a decimal digit. -/
def digitValue (c : Nat) : Option Nat :=
  (decimalZeros.find? fun z => z ≤ c && c < z + 10).map fun z => c - z

/-- `\d` -/
def isDigitSymbol (c : Nat) : Bool := (digitValue c).isSome

/-- `\S` -/
def isVisible (c : Nat) : Bool := !isPySpace c

/-- `.` -/
def isDot (c : Nat) : Bool := c ≠ 0x0a

/-- `\w` -/
def isWord (wide : Nat → Bool) (c : Nat) : Bool := isIdentTail c || (0x80 ≤ c && wide c)

theorem isVisible_of_space {c : Nat} (h : isPySpace c = true) : isVisible c = false := by
  rw [isVisible, h]
  rfl

theorem space_of_isVisible {c : Nat} (h : isVisible c = true) : isPySpace c = false := by
  simpa [isVisible] using h

/-- `int` of decimal digits. -/
def decimalValue (digits : Text) : Nat :=
  digits.foldl (fun n c => 10 * n + (digitValue c).getD 0) 0

/-! ## `TRACE` -/

/-- A given text. -/
def lit {κ : Type} (s : String) : Regex κ Nat := Regex.literal (text s)

/-- `$`: the end, or a line feed in front of it -/
def endOfLine {κ : Type} : Regex κ Nat := .assert fun _ rest => rest = [] || rest = [0x0a]

/-- `(?:\(\s*\d+\)\s+)?` -/
def threadGroup : Regex Nat Nat :=
  Regex.optional (Regex.sequence [lit "(", .many isPySpace, Regex.some₁ isDigitSymbol, lit ")",
    Regex.some₁ isPySpace])

/-- `-(\d+)\s+(?:\(\s*\d+\)\s+)?\[(\d+)\]\s+\S+\s+(\d+\.\d+):\s+(.*)$` -/
def headerPattern : Regex Nat Nat :=
  Regex.sequence [lit "-", .group 2 (Regex.some₁ isDigitSymbol), Regex.some₁ isPySpace,
    threadGroup, lit "[", .group 3 (Regex.some₁ isDigitSymbol), lit "]", Regex.some₁ isPySpace,
    Regex.some₁ isVisible, Regex.some₁ isPySpace,
    .group 4 (Regex.sequence [Regex.some₁ isDigitSymbol, lit ".", Regex.some₁ isDigitSymbol]),
    lit ":", Regex.some₁ isPySpace, .group 5 (.many isDot), endOfLine]

/-- `TRACE`: `^\s*(.+?)` and the rest of the header -/
def tracePattern : Regex Nat Nat :=
  .seq Regex.atStart (.seq (.many isPySpace)
    (.seq (.group 1 (.seq (.symbol isDot) (.fewest isDot))) headerPattern))

/-! ## Time stamps -/

/-- A finite `Decimal` that is not negative. -/
structure Decimal where
  coefficient : Nat
  exponent : Int
  deriving DecidableEq, Repr

/-- `Decimal(seconds)` of digits, a point and digits: exact. -/
def Decimal.ofText (seconds : Text) : Decimal :=
  let whole := seconds.takeWhile isDigitSymbol
  let fraction := (seconds.dropWhile isDigitSymbol).tail
  ⟨decimalValue (whole ++ fraction), -(fraction.length : Int)⟩

/-- The default precision of a context. -/
def decimalPrecision : Nat := 28

/-- A result of the arithmetic: rounded to the precision, half to even. -/
def Decimal.fix (d : Decimal) : Decimal :=
  let excess := (Nat.digits 10 d.coefficient).length - decimalPrecision
  let quotient := d.coefficient / 10 ^ excess
  let rest := d.coefficient % 10 ^ excess
  let up := 10 ^ excess < 2 * rest || (2 * rest = 10 ^ excess && quotient % 2 = 1)
  if excess = 0 then d else ⟨if up then quotient + 1 else quotient, d.exponent + excess⟩

/-- `a * b` -/
def Decimal.mul (a b : Decimal) : Decimal :=
  Decimal.fix ⟨a.coefficient * b.coefficient, a.exponent + b.exponent⟩

/-- `int(d)` -/
def Decimal.toInt (d : Decimal) : Nat :=
  if 0 ≤ d.exponent then d.coefficient * 10 ^ d.exponent.toNat
  else d.coefficient / 10 ^ (-d.exponent).toNat

/-- `int(Decimal(seconds) * 1_000_000_000)` -/
def nanoseconds (seconds : Text) : Nat :=
  ((Decimal.ofText seconds).mul ⟨1000000000, 0⟩).toInt

/-! ## `PATTERNS` -/

section Patterns

/-- `(?P<key>…)` -/
def named (key : String) (r : Regex Text Nat) : Regex Text Nat := .group (text key) r

/-- `(?P<key>\d+)` -/
def number (key : String) : Regex Text Nat := named key (Regex.some₁ isDigitSymbol)

/-- `(?P<key>\S+)` -/
def word (key : String) : Regex Text Nat := named key (Regex.some₁ isVisible)

/-- `(?P<key>[^…]+)` -/
def upTo (key stops : String) : Regex Text Nat :=
  named key (Regex.some₁ fun c => !(text stops).contains c)

/-- `(?P<key>prefix\w+)` -/
def operation (wide : Nat → Bool) (key start : String) : Regex Text Nat :=
  named key (.seq (lit start) (Regex.some₁ (isWord wide)))

/-- `PATTERNS` -/
def patterns (wide : Nat → Bool) : List (Text × Regex Text Nat) :=
  [(text "kvm_entry", Regex.sequence [lit "vcpu ", number "vcpu",
      Regex.optional (Regex.sequence [lit ", rip ", word "rip"])]),
    (text "kvm_exit", Regex.sequence [lit "vcpu ", number "vcpu", lit " reason ", word "reason",
      lit " rip ", word "rip", lit " info1 ", word "info1", lit " info2 ", word "info2",
      lit " intr_info ", word "intr_info", lit " error_code ", word "error_code",
      Regex.optional (Regex.sequence [lit " (", .many isDot, lit ")"])]),
    (text "kvm_page_fault", Regex.sequence [lit "vcpu ", number "vcpu", lit " rip ", word "rip",
      lit " address ", word "address", lit " error_code ", word "error_code"]),
    (text "kvm_userspace_exit", Regex.sequence [lit "reason ", word "reason", lit " (",
      upTo "code" ")", lit ")"]),
    (text "kvm_mmio", Regex.sequence [lit "mmio ", word "direction", lit " len ", number "length",
      lit " gpa ", word "gpa", lit " val ", word "value"]),
    (text "kvm_pio", Regex.sequence [operation wide "direction" "pio_", lit " at ", word "port",
      lit " size ", number "size", lit " count ", number "count", lit " val ", word "value"]),
    (text "kvm_set_irq", Regex.sequence [lit "gsi ", number "gsi", lit " level ", number "level",
      lit " source ", number "source"]),
    (text "kvm_inj_virq", Regex.sequence [lit "IRQ ", word "vector",
      Regex.optional (Regex.sequence [lit " [", upTo "reinjected" "]", lit "]"])]),
    (text "kvm_apic_accept_irq", Regex.sequence [lit "apicid ", number "apic_id", lit " vec ",
      number "vector", lit " (", upTo "mode" ")", lit ")"]),
    (text "kvm_ioapic_set_irq", Regex.sequence [lit "pin ", number "pin", lit " dst ",
      number "destination", lit " vec ", number "vector", lit " (", upTo "mode" ")", lit ")"]),
    (text "kvm_msi_set_irq", Regex.sequence [lit "dst ", number "destination", lit " vec ",
      number "vector", lit " (", upTo "mode" ")", lit ")"]),
    (text "kvm_cr", Regex.sequence [operation wide "operation" "cr_", lit " ", number "register",
      lit " = ", word "value"]),
    (text "kvm_apic", Regex.sequence [operation wide "operation" "apic_", lit " ", word "register",
      lit " = ", word "value"]),
    (text "kvm_emulate_insn", Regex.sequence [upTo "cs" ":", lit ":", upTo "rip" ":", lit ":",
      named "instruction" (.fewest isDot), lit " (", upTo "mode" ")", lit ")",
      Regex.optional (Regex.sequence [lit " ", named "failed" (lit "failed")])]),
    (text "kvm_unmap_hva_range", Regex.sequence [lit "mmu notifier unmap range: ", word "start",
      lit " -- ", word "end"]),
    (text "kvm_mmu_spte_requested", Regex.sequence [lit "gfn ", word "gfn", lit " pfn ", word "pfn",
      lit " level ", number "level"]),
    (text "kvm_mmu_set_spte", Regex.sequence [lit "gfn ", word "gfn", lit " spte ", word "spte",
      lit " (", upTo "permissions" ")", lit ") level ", number "level", lit " at ",
      word "address"]),
    (text "kvm_tdp_mmu_spte_changed", Regex.sequence [lit "as id ", number "address_space",
      lit " gfn ", word "gfn", lit " level ", number "level", lit " old_spte ", word "old_spte",
      lit " new_spte ", word "new_spte"]),
    (text "kvm_mmu_split_huge_page", Regex.sequence [lit "gfn ", word "gfn", lit " spte ",
      word "spte", lit " level ", number "level", lit " errno ",
      named "errno" (.seq (Regex.optional (lit "-")) (Regex.some₁ isDigitSymbol))]),
    (text "writeback_pages_written", number "pages"),
    (text "exit_mmap", Regex.sequence [lit "mt_mod ", word "maple_tree", lit ", ",
      word "operation"]),
    (text "workqueue_execute_start", Regex.sequence [lit "work struct ", upTo "work" ": ",
      lit ": function ", named "function" (Regex.some₁ isDot)]),
    (text "workqueue_execute_end", Regex.sequence [lit "work struct ", upTo "work" ": ",
      lit ": function ", named "function" (Regex.some₁ isDot)])]

end Patterns

/-! ## `decode` -/

/-- A group as a value: `None` if it took no part in the match. -/
def groupValue {κ : Type} [DecidableEq κ] (found : Regex.Cursor κ Nat) (key : κ) : PyValue :=
  match groupOf found key with
  | some s => .str s
  | none => .none

/-- `match.groupdict()` -/
def groupDict (r : Regex Text Nat) (found : Regex.Cursor Text Nat) : List (Text × PyValue) :=
  r.keys.map fun key => (key, groupValue found key)

/-- `payload.replace(old, new, 1)` -/
def replaceFirst (old new : Text) : Text → Text
  | [] => []
  | c :: s =>
    if old.isPrefixOf (c :: s) then new ++ (c :: s).drop old.length
    else c :: replaceFirst old new s

/-- The text before a separator and the text after it, where it stands first. -/
def cutAt (separator : Text) : Text → Option (Text × Text)
  | [] => none
  | c :: s =>
    if separator.isPrefixOf (c :: s) then some ([], (c :: s).drop separator.length)
    else (cutAt separator s).map fun parts => (c :: parts.1, parts.2)

/-- `bdi (\S+): (?:sb_dev (\S+) )?` -/
def bdiPattern : Regex Nat Nat :=
  Regex.sequence [lit "bdi ", .group 1 (Regex.some₁ isVisible), lit ": ",
    Regex.optional (Regex.sequence [lit "sb_dev ", .group 2 (Regex.some₁ isVisible), lit " "])]

/-- `dev (\S+) ino (\S+) ` -/
def filemapPattern : Regex Nat Nat :=
  Regex.sequence [lit "dev ", .group 1 (Regex.some₁ isVisible), lit " ino ",
    .group 2 (Regex.some₁ isVisible), lit " "]

/-- The fields that some tracepoints print in front of the others, and what is left of the
    payload. -/
def decodePrefix (kind payload : Text) : Except TraceExn (List (Text × PyValue) × Text) :=
  if kind = text "dma_alloc" then
    match cutAt (text " ") payload with
    | some (device, payload) => .ok ([(text "device", .str device)], payload)
    | none => .error .valueError
  else if (text "writeback_").isPrefixOf kind || kind = text "wbc_writepage" then
    match bdiPattern.matchStart payload with
    | some found =>
      let device := (groupOf found 2).map fun s => (text "sb_dev", PyValue.str s)
      .ok ((text "bdi", groupValue found 1) :: device.toList, payload.drop found.pos)
    | none => .ok ([], payload)
  else if kind = text "mm_filemap_add_to_page_cache" ∨
      kind = text "mm_filemap_delete_from_page_cache" then
    match filemapPattern.matchStart payload with
    | some found =>
      .ok ([(text "device", groupValue found 1), (text "inode", groupValue found 2)],
        payload.drop found.pos)
    | none => .error (.lab (text "unrecognized filemap format"))
  else if kind = text "workqueue_queue_work" then
    .ok ([], replaceFirst (text "work struct=") (text "work=") payload)
  else if kind = text "workqueue_activate_work" then
    .ok ([], replaceFirst (text "work struct ") (text "work=") payload)
  else .ok ([], payload)

/-- `decode` -/
def decode (wide : Nat → Bool) (kind payload : Text) : Except TraceExn (List (Text × PyValue)) :=
  match (patterns wide).lookup kind with
  | some pattern =>
    match pattern.fullMatch payload with
    | some found => .ok (groupDict pattern found)
    | none =>
      .error (.lab (text "trace format changed for " ++ kind ++ text ": " ++ payload.take 180))
  | none => do
    let (leading, payload) ← decodePrefix kind payload
    let fields ← keyValues payload
    if fields.any fun field => (leading.map Prod.fst).contains field.1 then
      .error (.lab (text "duplicate trace prefix field"))
    else .ok (leading ++ fields.map fun field => (field.1, .str field.2))

/-! ## `trace_record` -/

/-- `str.strip()` -/
def strip (s : Text) : Text := (s.dropWhile isPySpace).rdropWhile isPySpace

/-- `,\s*count:\s*(\S+)\)` -/
def countPattern : Regex Nat Nat :=
  Regex.sequence [lit ",", .many isPySpace, lit "count:", .many isPySpace,
    .group 4 (Regex.some₁ isVisible), lit ")"]

/-- `sys_(read|write)\(fd:\s*(\S+),\s*buf:\s*(\S+).*?,\s*count:\s*(\S+)\)` -/
def syscallIo : Regex Nat Nat :=
  Regex.sequence [lit "sys_", .group 1 (.alt (lit "read") (lit "write")), lit "(fd:",
    .many isPySpace, .group 2 (Regex.some₁ isVisible), lit ",", .many isPySpace, lit "buf:",
    .many isPySpace, .group 3 (Regex.some₁ isVisible), .fewest isDot, countPattern]

/-- `sys_(\w+)(?:\((.*)\)| -> (.*))` -/
def syscallPattern (wide : Nat → Bool) : Regex Nat Nat :=
  Regex.sequence [lit "sys_", .group 1 (Regex.some₁ (isWord wide)),
    .alt (Regex.sequence [lit "(", .group 2 (.many isDot), lit ")"])
      (.seq (lit " -> ") (.group 3 (.many isDot)))]

/-- Kind and fields of the event that a line goes on with after its header. -/
def traceFields (wide : Nat → Bool) (detail : Text) :
    Except TraceExn (Text × List (Text × PyValue)) :=
  match syscallIo.matchStart detail with
  | some found =>
    .ok (text "sys_enter_" ++ (groupOf found 1).getD [],
      [(text "fd", groupValue found 2), (text "buf", groupValue found 3),
        (text "count", groupValue found 4)])
  | none =>
    match (syscallPattern wide).fullMatch detail with
    | some found =>
      match groupOf found 2 with
      | some arguments => do
        let fields ← keyValues arguments
        return (text "sys_enter_" ++ (groupOf found 1).getD [],
          fields.map fun field => (field.1, .str field.2))
      | none =>
        .ok (text "sys_exit_" ++ (groupOf found 1).getD [], [(text "result", groupValue found 3)])
    | none =>
      match cutAt (text ": ") detail with
      | some (kind, payload) => do
        let fields ← decode wide kind (strip payload)
        return (kind, fields)
      | none => .error (.lab (text "unrecognized tracepoint boundary: " ++ detail))

/-- What the header of a line says. -/
structure Header where
  comm : Text
  tid : Text
  cpu : Text
  seconds : Text
  detail : Text
  deriving DecidableEq, Repr

/-- `match.groups()` of `TRACE` -/
def traceHeader (line : Text) : Option Header :=
  (tracePattern.matchStart line).map fun found =>
    ⟨(groupOf found 1).getD [], (groupOf found 2).getD [], (groupOf found 3).getD [],
      (groupOf found 4).getD [], (groupOf found 5).getD []⟩

/-- `trace_record`; `other` is Python's `str` and `repr` of values that are no texts. -/
def traceRecord (wide : Nat → Bool) (other : PyValue → Text) (experiment domain line : Text) :
    Except TraceExn (Option PyValue) :=
  match traceHeader line with
  | none =>
    if line.all isPySpace || (line.dropWhile isPySpace).head? = some 0x23 then .ok none
    else .error (.lab (text "unrecognized trace record: " ++ line.take 180))
  | some header => do
    let (kind, fields) ← traceFields wide header.detail
    match record other experiment (text "tracefs") (text "tracefs") domain (.str kind)
        (JsonWriter.decimal (nanoseconds header.seconds))
        (.dict [(text "fields", .dict fields)]) (.str kind)
        [(text "tid", .int (decimalValue header.tid)), (text "cpu", .int (decimalValue header.cpu)),
          (text "comm", .str (strip header.comm))] with
    | .ok event => .ok (some event)
    | .error e => .error (.lab (text "unsupported observation value: " ++ other e.value))

/-! ## What a record says -/

/-- `event["data"]["fields"][key]` -/
def eventField (event : PyValue) (key : String) : Except PyExn PyValue := do
  let data ← event.getItem "data"
  let fields ← data.getItem "fields"
  fields.getItem key

/-- `event["context"][key]` -/
def eventContext (event : PyValue) (key : String) : Except PyExn PyValue := do
  let context ← event.getItem "context"
  context.getItem key

/-- A line that is read gives a record of its header and its normalized fields. -/
theorem traceRecord_ok (wide : Nat → Bool) (other : PyValue → Text) (experiment domain : Text)
    {line kind : Text}
    {header : Header} {fields normal : List (Text × PyValue)} (hheader : traceHeader line = some header)
    (hfields : traceFields wide header.detail = .ok (kind, fields))
    (hnormal : normalizeMembers fields = .ok normal) :
    ∃ event, traceRecord wide other experiment domain line = .ok (some event) ∧
      (∀ key, eventField event key = (PyValue.dict normal).getItem key) ∧
      eventContext event "tid" = .ok (.int (decimalValue header.tid)) ∧
      eventContext event "cpu" = .ok (.int (decimalValue header.cpu)) ∧
      event.getItem "timestamp_ns" =
        .ok (.str (JsonWriter.decimal (nanoseconds header.seconds))) := by
  have hdata : normalize (.dict [(text "fields", .dict fields)]) =
      .ok (.dict [(text "fields", .dict normal)]) := by
    simp only [normalize, normalizeMembers, hnormal]
    rfl
  unfold traceRecord record
  simp only [hheader, hfields, hdata, bind, Except.bind]
  exact ⟨_, rfl, fun _ => rfl, rfl, rfl, rfl⟩

end LinuxMaxxing.Framework
