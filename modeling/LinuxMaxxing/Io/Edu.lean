import Mathlib.Tactic

/-!
# The QEMU EDU Device and qedu's Register Contract

The hardware side of `experiments/io`: the constants of `qedu.h`, the EDU device with
its one DMA engine and its factorial engine, and `kstrtou32`, the kernel parser that
`qedu_write` uses to choose between the two engines.

What is assumed of EDU:

- a DMA register write is ignored while a transfer is running; a started transfer ends
  at an arbitrary later moment, moves its bytes then, clears the start bit and latches
  the DMA interrupt bit if the command asked for it;
- a write to the factorial register is ignored while the engine is busy; the engine
  replaces its operand by the factorial (32-bit arithmetic) at an arbitrary later moment
  and latches the factorial interrupt bit if that interrupt is enabled.
-/

namespace LinuxMaxxing.Io

/-! ## Constants of `qedu.h` -/

/-- Device address of EDU's internal DMA buffer (`QEDU_DMA_DEV_BUF`). -/
def qeduDmaDevBuf : Nat := 0x40000

/-- Size of the coherent buffer (`QEDU_DMA_SIZE`). -/
def qeduDmaSize : Nat := 4096

/-- `enum qedu_dma_stage`. -/
inductive DmaStage where
  | idle
  | toDevice
  | fromDevice
  deriving DecidableEq, Repr

/-- `enum qedu_io_engine`. -/
inductive IoEngine where
  | none
  | factorial
  | dma
  deriving DecidableEq, Repr

/-- The two DMA work items of `struct qedu_dev`. -/
inductive Work where
  | advance
  | finish
  deriving DecidableEq, Repr

/-! ## Byte buffers -/

/-- A byte buffer, indexed from its first byte. -/
abbrev Buffer := Nat → UInt8

/-- The first `n` bytes of `src` over `dst`. -/
def Buffer.copy (n : Nat) (src dst : Buffer) : Buffer :=
  fun i => if i < n then src i else dst i

/-- The bytes of a list over `dst`. -/
def Buffer.store (bytes : List UInt8) (dst : Buffer) : Buffer :=
  fun i => bytes.getD i (dst i)

/-- `memset(buffer, 0, n)`. -/
def Buffer.clear (n : Nat) (dst : Buffer) : Buffer :=
  fun i => if i < n then 0 else dst i

/-- The buffer begins with exactly these bytes. -/
def Buffer.Holds (buf : Buffer) (bytes : List UInt8) : Prop :=
  ∀ i (h : i < bytes.length), buf i = bytes[i]

theorem Buffer.store_holds (bytes : List UInt8) (dst : Buffer) :
    (Buffer.store bytes dst).Holds bytes := by
  intro i h
  simp [Buffer.store, List.getD, h]

theorem Buffer.copy_holds {src : Buffer} {bytes : List UInt8} (h : src.Holds bytes)
    (dst : Buffer) :
    (Buffer.copy bytes.length src dst).Holds bytes := by
  intro i hi
  simp [Buffer.copy, hi, h i hi]

/-- A byte stored behind the bytes a buffer holds does not disturb them. -/
theorem Buffer.holds_update {buf : Buffer} {bytes : List UInt8} (h : buf.Holds bytes)
    (b : UInt8) : Buffer.Holds (Function.update buf bytes.length b) bytes := by
  intro i hi
  rw [Function.update_of_ne (Nat.ne_of_lt hi)]
  exact h i hi

/-! ## The device -/

/-- Command bits of `QEDU_REG_DMA_CMD`: start, direction (EDU to RAM), interrupt. -/
structure DmaCmd where
  start : Bool
  dir : Bool
  irq : Bool
  deriving DecidableEq, Repr

/-- The EDU device behind BAR0. -/
structure Edu where
  dmaSrc : Nat
  dmaDst : Nat
  dmaCnt : Nat
  dmaCmd : DmaCmd
  /-- internal buffer at `qeduDmaDevBuf` -/
  buf : Buffer
  /-- `QEDU_IRQ_FACTORIAL` in the interrupt status register -/
  irqFactorial : Bool
  /-- `QEDU_IRQ_DMA` in the interrupt status register -/
  irqDma : Bool
  fact : Nat
  factBusy : Bool
  /-- `QEDU_STATUS_FACTORIAL_IRQ_ENABLE` -/
  factIrqEnable : Bool

namespace Edu

/-- A transfer is running while the start bit is set. -/
abbrev running (e : Edu) : Bool := e.dmaCmd.start

def writeDmaSrc (e : Edu) (v : Nat) : Edu :=
  if e.running then e else { e with dmaSrc := v }

def writeDmaDst (e : Edu) (v : Nat) : Edu :=
  if e.running then e else { e with dmaDst := v }

def writeDmaCnt (e : Edu) (v : Nat) : Edu :=
  if e.running then e else { e with dmaCnt := v }

def writeDmaCmd (e : Edu) (c : DmaCmd) : Edu :=
  if e.running then e else { e with dmaCmd := c }

/-! A stopped engine takes every register write. -/

theorem writeDmaSrc_of_stopped {e : Edu} (h : e.running = false) (v : Nat) :
    e.writeDmaSrc v = { e with dmaSrc := v } := by
  simp [writeDmaSrc, h]

theorem writeDmaDst_of_stopped {e : Edu} (h : e.running = false) (v : Nat) :
    e.writeDmaDst v = { e with dmaDst := v } := by
  simp [writeDmaDst, h]

theorem writeDmaCnt_of_stopped {e : Edu} (h : e.running = false) (v : Nat) :
    e.writeDmaCnt v = { e with dmaCnt := v } := by
  simp [writeDmaCnt, h]

theorem writeDmaCmd_of_stopped {e : Edu} (h : e.running = false) (c : DmaCmd) :
    e.writeDmaCmd c = { e with dmaCmd := c } := by
  simp [writeDmaCmd, h]

/-- The bytes a transfer moves when it ends: the device buffer and the coherent buffer
    (at bus address `ram`) afterwards. A transfer whose registers name other addresses
    moves nothing between these two buffers. -/
def moveBytes (e : Edu) (ram : Nat) (mem : Buffer) : Buffer × Buffer :=
  if e.dmaCmd.dir then
    if e.dmaSrc = qeduDmaDevBuf ∧ e.dmaDst = ram then (e.buf, Buffer.copy e.dmaCnt e.buf mem)
    else (e.buf, mem)
  else
    if e.dmaSrc = ram ∧ e.dmaDst = qeduDmaDevBuf then (Buffer.copy e.dmaCnt mem e.buf, mem)
    else (e.buf, mem)

/-- The running transfer ends. -/
def completeDma (e : Edu) (ram : Nat) (mem : Buffer) : Edu × Buffer :=
  ({ e with
      buf := (e.moveBytes ram mem).1
      dmaCmd := { e.dmaCmd with start := false }
      irqDma := e.irqDma || e.dmaCmd.irq },
    (e.moveBytes ram mem).2)

/-- The source or the destination of a running transfer is the bus address `ram`. -/
def InFlight (e : Edu) (ram : Nat) : Prop :=
  e.running = true ∧ (e.dmaSrc = ram ∨ e.dmaDst = ram)

instance (e : Edu) (ram : Nat) : Decidable (e.InFlight ram) :=
  inferInstanceAs (Decidable (_ ∧ _))

/-- What the factorial engine computes: the product in 32-bit arithmetic. -/
def factorialResult (n : Nat) : Nat := n.factorial % 2 ^ 32

/-- `iowrite32(input, QEDU_REG_FACTORIAL)`. -/
def writeFactorial (e : Edu) (input : Nat) : Edu :=
  if e.factBusy then e else { e with fact := input, factBusy := true }

/-- The factorial engine is done. -/
def completeFactorial (e : Edu) : Edu :=
  { e with
    fact := factorialResult e.fact
    factBusy := false
    irqFactorial := e.irqFactorial || e.factIrqEnable }

end Edu

/-! ## `kstrtou32` with base 0 -/

/-- The NUL-terminated text at the start of a buffer of `n` bytes. -/
def cString (buf : Buffer) (i : Nat) : Nat → List UInt8
  | 0 => []
  | n + 1 => if buf i = 0 then [] else buf i :: cString buf (i + 1) n

/-- `'0'..'9'`, `'a'..'f'` and `'A'..'F'` as digits (`_parse_integer`). -/
def digitValue (c : UInt8) : Option Nat :=
  if 48 ≤ c ∧ c ≤ 57 then some (c.toNat - 48)
  else if 97 ≤ c ∧ c ≤ 102 then some (c.toNat - 87)
  else if 65 ≤ c ∧ c ≤ 70 then some (c.toNat - 55)
  else none

/-- `_parse_integer`: the value and number of the leading digits below `base`, and the
    text after them. -/
def parseInteger (base : Nat) : List UInt8 → Nat → Nat → Nat × Nat × List UInt8
  | [], value, digits => (value, digits, [])
  | c :: cs, value, digits =>
    match digitValue c with
    | none => (value, digits, c :: cs)
    | some d =>
      if base ≤ d then (value, digits, c :: cs)
      else parseInteger base cs (value * base + d) (digits + 1)

/-- `_parse_integer_fixup_radix` for base 0: the radix and the text after its prefix. -/
def fixupRadix : List UInt8 → Nat × List UInt8
  | 48 :: x :: d :: cs =>
    if (x = 120 ∨ x = 88) ∧ (digitValue d).isSome then (16, d :: cs) else (8, 48 :: x :: d :: cs)
  | 48 :: cs => (8, 48 :: cs)
  | cs => (10, cs)

/-- `kstrtou32(s, 0, &res)` on the text of `s`: `none` for `-EINVAL` and `-ERANGE`. -/
def kstrtou32 (text : List UInt8) : Option Nat :=
  let unsignedText := match text with
    | 43 :: cs => cs
    | cs => cs
  let (base, digitText) := fixupRadix unsignedText
  let (value, digits, rest) := parseInteger base digitText 0 0
  if digits = 0 then none
  else if rest = [] ∨ rest = [10] then (if value < 2 ^ 32 then some value else none)
  else none

end LinuxMaxxing.Io
