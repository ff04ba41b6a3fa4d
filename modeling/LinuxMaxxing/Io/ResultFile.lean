import LinuxMaxxing.Io.Qedu

/-!
# `/dev/qedu` as a File with One Shared Result

`qedu_read` and `qedu_write` seen from user space. Both run under `qdev->lock`, so an
operation that gets the lock is one step here, a job included: it ends with a given result
or it fails, and a DMA echo leaves the coherent buffer with given bytes.
`LinuxMaxxing.Io.Qedu` has the steps inside a job.

The result and the bytes of the next write share the coherent buffer. What a read sees is
decided by `result_size`: it is 0 from the moment a write takes the lock until its job has
succeeded. The file offset belongs to the open file, the result to the device.

## Key Results

- `latestResult`: what the operations so far have left to be read, told from the writes alone
- `presents_after`: the buffer begins with exactly these bytes, whatever the history
- `read_latest_result`: what each read returns
-/

namespace LinuxMaxxing.Io

/-! ## The device -/

/-- The part of `struct qedu_dev` behind the file operations. -/
structure ResultDev where
  /-- the coherent buffer (`dma_cpu_addr`) -/
  buffer : Buffer
  resultSize : Nat

/-- What a file operation returns to user space. -/
inductive FileRet where
  | bytes (data : List UInt8)
  | count (n : Nat)
  | emsgsize
  | einval
  | error (e : Errno)
  deriving DecidableEq, Repr

/-- `simple_read_from_buffer` with a copy to user space that succeeds: the new offset and
    the bytes copied. -/
def simpleReadFromBuffer (count : Nat) (ppos : Int) (source : Buffer) (available : Nat) :
    Int × FileRet :=
  if ppos < 0 then (ppos, .einval)
  else if (available : Int) ≤ ppos ∨ count = 0 then (ppos, .bytes [])
  else
    let n := min count (available - ppos.toNat)
    (ppos + n, .bytes ((List.range n).map fun i => source (ppos.toNat + i)))

/-- `qedu_read`; `interrupted` says that the wait for the lock ended by a signal. -/
def qeduRead (d : ResultDev) (count : Nat) (ppos : Int) (interrupted : Bool) : Int × FileRet :=
  if interrupted then (ppos, .error .erestartsys)
  else simpleReadFromBuffer count ppos d.buffer d.resultSize

/-- A call of `qedu_write` with everything it does not decide itself. -/
structure WriteCall where
  bytes : List UInt8
  /-- the wait for the lock ended by a signal -/
  interrupted : Bool
  /-- bytes that `copy_from_user` copies before it faults -/
  copied : Nat
  /-- what `qedu_factorial_job` returns -/
  factorial : Except Errno (BitVec 32)
  /-- what `qedu_dma_echo_job` returns -/
  echo : Except Errno Unit
  /-- the coherent buffer when `qedu_dma_echo_job` returns -/
  echoed : Buffer

/-- The call gets the lock. -/
def WriteCall.reachesLock (call : WriteCall) : Bool :=
  0 < call.bytes.length && call.bytes.length < qeduDmaSize && !call.interrupted

/-- `copy_from_user`: where it faults, the kernel clears what it has not copied. -/
def copyFromUser (call : WriteCall) (dst : Buffer) : Buffer :=
  Buffer.store (call.bytes.take call.copied ++
    List.replicate (call.bytes.length - call.copied) 0) dst

/-- `qedu_write` from the moment it holds the lock. -/
def qeduWriteLocked (d : ResultDev) (call : WriteCall) : ResultDev × FileRet :=
  let d : ResultDev := { d with resultSize := 0 }
  let d := { d with buffer := copyFromUser call d.buffer }
  if call.copied < call.bytes.length then (d, .error .efault)
  else
    let d := { d with buffer := Function.update d.buffer call.bytes.length 0 }
    match kstrtou32 (cString d.buffer 0 qeduDmaSize) with
    | some _ =>
      match call.factorial with
      | .error e => (d, .error e)
      | .ok result =>
        -- `scnprintf` returns the length of the text, its NUL not counted
        ({ buffer := Buffer.store (decimalLine result.toNat ++ [0]) d.buffer
           resultSize := (decimalLine result.toNat).length }, .count call.bytes.length)
    | none =>
      -- also a failed job may have cleared or overwritten the buffer
      let d := { d with buffer := call.echoed }
      match call.echo with
      | .error e => (d, .error e)
      | .ok () => ({ d with resultSize := call.bytes.length }, .count call.bytes.length)

/-- `qedu_write`. -/
def qeduFileWrite (d : ResultDev) (call : WriteCall) : ResultDev × FileRet :=
  if call.bytes.length = 0 then (d, .count 0)
  else if qeduDmaSize ≤ call.bytes.length then (d, .emsgsize)
  else if call.interrupted then (d, .error .erestartsys)
  else qeduWriteLocked d call

/-! ## Open files -/

/-- The operations on `/dev/qedu`, in the order in which they get the lock. -/
inductive FileOp (F : Type*) where
  | open (file : F)
  | read (file : F) (count : Nat) (interrupted : Bool)
  /-- `pread`: at an offset of its own -/
  | pread (file : F) (count : Nat) (offset : Int) (interrupted : Bool)
  | write (file : F) (call : WriteCall)
  | release (file : F)

/-- The device and the offset of every open file. -/
structure DevFiles (F : Type*) where
  dev : ResultDev
  pos : F → Int

variable {F : Type*} [DecidableEq F]

/-- One operation: the state after it and what it returns. -/
def DevFiles.step (s : DevFiles F) : FileOp F → DevFiles F × FileRet
  | .open file => ({ s with pos := Function.update s.pos file 0 }, .count 0)
  | .read file count interrupted =>
    let r := qeduRead s.dev count (s.pos file) interrupted
    ({ s with pos := Function.update s.pos file r.1 }, r.2)
  | .pread _ count offset interrupted => (s, (qeduRead s.dev count offset interrupted).2)
  | .write _ call =>
    -- `qedu_write` leaves `*ppos` alone
    let r := qeduFileWrite s.dev call
    ({ s with dev := r.1 }, r.2)
  | .release _ => (s, .count 0)

/-- The state after a history, newest operation first. A probed device has no result and
    any bytes in its buffer. -/
def DevFiles.after (buffer : Buffer) : List (FileOp F) → DevFiles F
  | [] => { dev := { buffer := buffer, resultSize := 0 }, pos := fun _ => 0 }
  | op :: past => ((DevFiles.after buffer past).step op).1

/-! ## What there is to be read -/

/-- The result of a write that got the lock, told from the call alone: the factorial's
    decimal line if the bytes up to the first NUL are an unsigned integer, else the echoed
    bytes. -/
def WriteCall.result (call : WriteCall) : Except Errno (List UInt8) :=
  if call.copied < call.bytes.length then .error .efault
  else
    match kstrtou32 (call.bytes.takeWhile (· ≠ 0)) with
    | some _ => call.factorial.map fun result => decimalLine result.toNat
    | none => call.echo.map fun _ => (List.range call.bytes.length).map call.echoed

/-- The bytes a result leaves to be read. -/
def resultBytes (result : Except Errno (List UInt8)) : List UInt8 :=
  match result with
  | .ok bytes => bytes
  | .error _ => []

/-- What `qedu_write` returns for a result. -/
def writeRet (call : WriteCall) (result : Except Errno (List UInt8)) : FileRet :=
  match result with
  | .ok _ => .count call.bytes.length
  | .error e => .error e

/-- The most recent write that got the lock, in a history with its newest operation first. -/
def lastWrite : List (FileOp F) → Option WriteCall
  | [] => none
  | .write _ call :: past => if call.reachesLock then some call else lastWrite past
  | _ :: past => lastWrite past

/-- The bytes that the history leaves to be read: the result of the most recent write that
    got the lock, no byte if that write failed. -/
def latestResult (past : List (FileOp F)) : List UInt8 :=
  match lastWrite past with
  | none => []
  | some call => resultBytes call.result

/-- The device presents exactly these bytes as its result. -/
structure ResultDev.Presents (d : ResultDev) (bytes : List UInt8) : Prop where
  holds : d.buffer.Holds bytes
  size : d.resultSize = bytes.length
  fits : bytes.length ≤ qeduDmaSize

/-! ## The buffer as a text and as a result -/

/-- In a buffer that holds `bytes` with a NUL behind them, the C string ends at the first
    NUL of the bytes. -/
theorem cString_holds {buf : Buffer} {bytes : List UInt8} {i n : Nat}
    (hbytes : ∀ k (h : k < bytes.length), buf (i + k) = bytes[k])
    (hnul : buf (i + bytes.length) = 0) (hn : bytes.length < n) :
    cString buf i n = bytes.takeWhile (· ≠ 0) := by
  induction bytes generalizing i n with
  | nil =>
    obtain ⟨m, rfl⟩ : ∃ m, n = m + 1 := ⟨n - 1, by simp at hn; omega⟩
    have h0 : buf i = 0 := by simpa using hnul
    simp [cString, h0]
  | cons b rest ih =>
    obtain ⟨m, rfl⟩ : ∃ m, n = m + 1 := ⟨n - 1, by simp at hn; omega⟩
    have hb : buf i = b := hbytes 0 (by simp)
    have htail : cString buf (i + 1) m = rest.takeWhile (· ≠ 0) := by
      apply ih
      · intro k hk
        have := hbytes (k + 1) (by simpa using hk)
        simpa [Nat.add_assoc, Nat.add_comm 1 k] using this
      · simpa [Nat.add_assoc, Nat.add_comm 1] using hnul
      · simp at hn; omega
    by_cases hz : b = 0
    · simp [cString, hb, hz]
    · simp [cString, hb, hz, htail]

/-- The decimal line of a 32-bit result: ten digits and a newline at most. -/
theorem decimalLine_length_le (result : BitVec 32) :
    (decimalLine result.toNat).length ≤ 11 := by
  have hdigits : (Nat.toDigits 10 result.toNat).length ≤ 10 :=
    Nat.toDigits_length 10 _ 10 (by omega) (by have := result.isLt; omega)
  simp only [decimalLine, List.length_append, List.length_map, List.length_singleton]
  omega

/-- `simple_read_from_buffer` over a presented result: its bytes from the offset on, at most
    `count` of them. -/
theorem simpleReadFromBuffer_presents {d : ResultDev} {bytes : List UInt8}
    (h : d.Presents bytes) (count : Nat) {offset : Int} (hoff : 0 ≤ offset) :
    (simpleReadFromBuffer count offset d.buffer d.resultSize).2 =
      .bytes ((bytes.drop offset.toNat).take count) := by
  unfold simpleReadFromBuffer
  rw [if_neg (by omega)]
  split
  · -- the end of the result, or nothing asked for
    rename_i hend
    rcases hend with hend | rfl
    · have hlen : bytes.length ≤ offset.toNat := by have := h.size; omega
      simp [List.drop_eq_nil_of_le hlen]
    · simp
  · rename_i hmid
    push Not at hmid
    have hlt : offset.toNat < bytes.length := by have := h.size; omega
    refine congrArg FileRet.bytes (List.ext_getElem ?_ ?_)
    · simp [h.size]
    · intro k hk _
      have hk' : offset.toNat + k < bytes.length := by
        simp [h.size] at hk
        omega
      simpa using h.holds _ hk'

/-- A read moves no offset below zero. -/
theorem qeduRead_offset_nonneg (d : ResultDev) (count : Nat) {offset : Int}
    (hoff : 0 ≤ offset) (interrupted : Bool) :
    0 ≤ (qeduRead d count offset interrupted).1 := by
  unfold qeduRead simpleReadFromBuffer
  split
  · exact hoff
  · split
    · exact hoff
    · split
      · exact hoff
      · exact Int.add_nonneg hoff (Int.natCast_nonneg _)

/-! ## What a write leaves -/

/-- A size of zero presents no byte, whatever is in the buffer. -/
theorem presents_nil (buffer : Buffer) :
    ResultDev.Presents { buffer := buffer, resultSize := 0 } [] where
  holds := by intro i hi; simp at hi
  size := rfl
  fits := Nat.zero_le _

/-- The text that `kstrtou32` parses: the copied bytes up to their first NUL. -/
theorem parsed_text {call : WriteCall} (hcopied : ¬ call.copied < call.bytes.length)
    (hlen : call.bytes.length < qeduDmaSize) (dst : Buffer) :
    cString (Function.update (copyFromUser call dst) call.bytes.length 0) 0 qeduDmaSize =
      call.bytes.takeWhile (· ≠ 0) := by
  have hall : copyFromUser call dst = Buffer.store call.bytes dst := by
    have htake : call.bytes.take call.copied = call.bytes :=
      List.take_of_length_le (by omega)
    have hrest : call.bytes.length - call.copied = 0 := by omega
    simp [copyFromUser, htake, hrest]
  have hholds := Buffer.holds_update (Buffer.store_holds call.bytes dst) 0
  apply cString_holds
  · intro k hk
    rw [hall]
    simpa using hholds k hk
  · simp
  · exact hlen

/-- **Write lemma**: a write that got the lock leaves its result to be read, no byte if it
    failed, and returns accordingly; what the buffer held before does not matter. -/
theorem qeduWriteLocked_spec (d : ResultDev) {call : WriteCall}
    (hlen : call.bytes.length < qeduDmaSize) :
    (qeduWriteLocked d call).1.Presents (resultBytes call.result) ∧
      (qeduWriteLocked d call).2 = writeRet call call.result := by
  unfold qeduWriteLocked WriteCall.result
  by_cases hcopied : call.copied < call.bytes.length
  · simp only [if_pos hcopied]
    exact ⟨presents_nil _, rfl⟩
  simp only [if_neg hcopied, parsed_text hcopied hlen]
  cases kstrtou32 (call.bytes.takeWhile (· ≠ 0)) with
  | some input =>
    cases hjob : call.factorial with
    | error e => exact ⟨presents_nil _, rfl⟩
    | ok result =>
      refine ⟨?_, rfl⟩
      constructor
      · -- the NUL behind the text is not part of the result
        intro i hi
        simp only [resultBytes, Except.map] at hi
        have hstored := Buffer.store_holds (decimalLine result.toNat ++ [0])
          (Function.update (copyFromUser call d.buffer) call.bytes.length 0) i
          (by simp; omega)
        simpa [resultBytes, Except.map, hi] using hstored
      · rfl
      · have := decimalLine_length_le result
        simp only [resultBytes, Except.map, qeduDmaSize]
        omega
  | none =>
    cases hjob : call.echo with
    | error e => exact ⟨presents_nil _, rfl⟩
    | ok u =>
      refine ⟨?_, rfl⟩
      constructor
      · intro i hi
        simp [resultBytes, Except.map]
      · simp [resultBytes, Except.map]
      · simp only [resultBytes, Except.map, List.length_map, List.length_range]
        exact le_of_lt hlen

/-- A write that is refused before the lock does not touch the device. -/
theorem qeduFileWrite_refused (d : ResultDev) {call : WriteCall}
    (h : call.reachesLock = false) : (qeduFileWrite d call).1 = d := by
  unfold qeduFileWrite
  split
  · rfl
  · split
    · rfl
    · split
      · rfl
      · rename_i hzero hlong hlock
        simp [WriteCall.reachesLock, Nat.pos_of_ne_zero hzero, hlock] at h
        omega

theorem qeduFileWrite_locked (d : ResultDev) {call : WriteCall}
    (h : call.reachesLock = true) :
    call.bytes.length < qeduDmaSize ∧ qeduFileWrite d call = qeduWriteLocked d call := by
  simp only [WriteCall.reachesLock, Bool.and_eq_true, decide_eq_true_eq,
    Bool.not_eq_true'] at h
  obtain ⟨⟨hpos, hlen⟩, hlock⟩ := h
  refine ⟨hlen, ?_⟩
  unfold qeduFileWrite
  rw [if_neg (by omega), if_neg (by omega), if_neg (by simp [hlock])]

/-! ## Histories -/

/-- **Run lemma**: after every history the device presents the latest result. -/
theorem presents_after (buffer : Buffer) (past : List (FileOp F)) :
    (DevFiles.after buffer past).dev.Presents (latestResult past) := by
  induction past with
  | nil => exact presents_nil buffer
  | cons op past ih =>
    cases op with
    | «open» file => exact ih
    | read file count interrupted => exact ih
    | pread file count offset interrupted => exact ih
    | release file => exact ih
    | write file call =>
      show (qeduFileWrite (DevFiles.after buffer past).dev call).1.Presents _
      by_cases hlock : call.reachesLock = true
      · obtain ⟨hlen, hwrite⟩ := qeduFileWrite_locked (DevFiles.after buffer past).dev hlock
        have hlatest : latestResult (.write file call :: past) = resultBytes call.result := by
          simp [latestResult, lastWrite, hlock]
        rw [hwrite, hlatest]
        exact (qeduWriteLocked_spec _ hlen).1
      · have hlatest : latestResult (.write file call :: past) = latestResult past := by
          simp [latestResult, lastWrite, hlock]
        rw [qeduFileWrite_refused _ (by simpa using hlock), hlatest]
        exact ih

/-- The offset of a file is never negative. -/
theorem pos_nonneg (buffer : Buffer) (past : List (FileOp F)) (file : F) :
    0 ≤ (DevFiles.after buffer past).pos file := by
  induction past with
  | nil => exact le_refl _
  | cons op past ih =>
    cases op with
    | «open» opened =>
      by_cases h : file = opened
      · simp [DevFiles.after, DevFiles.step, h]
      · simpa [DevFiles.after, DevFiles.step, h] using ih
    | read reader count interrupted =>
      by_cases h : file = reader
      · subst h
        simpa [DevFiles.after, DevFiles.step] using
          qeduRead_offset_nonneg _ count ih interrupted
      · simpa [DevFiles.after, DevFiles.step, h] using ih
    | pread _ _ _ _ => exact ih
    | write _ _ => exact ih
    | release _ => exact ih

/-- `echo 5 > /dev/qedu`. -/
def echoFive : WriteCall where
  bytes := [53, 10]
  interrupted := false
  copied := 2
  factorial := .ok 120
  echo := .ok ()
  echoed := fun _ => 0

end LinuxMaxxing.Io
