import LinuxMaxxing.Io.ResultFile

/-!
# The Byte Counters of `/dev/qedu`

`qedu_read` adds what it returns to `tx`, `qedu_write` what it accepts to `rx`, and sysfs shows both.
The two are `int`s: they hold the totals modulo 2^32 (`counters_after`), and sysfs shows a total as
it is as long as it is below 2^31 (`shows_totals_iff`).

The operations are those of `LinuxMaxxing.Io.ResultFile`, with a copy to user space that may fault;
`after_faultless` says that they are the same where none does.
-/

namespace LinuxMaxxing.Io

/-! ## Reads and writes that are counted -/

/-- The value as the `ssize_t` of the system call. -/
def FileRet.ssize : FileRet → Int
  | .bytes data => data.length
  | .count n => n
  | .emsgsize => -90
  | .einval => -22
  | .error .efault => -14
  | .error .erestartsys => -512
  | .error .etimedout => -110

/-- `struct qedu_dev` with the counters that sysfs shows. -/
structure CountedDev where
  dev : ResultDev
  tx : BitVec 32
  rx : BitVec 32

/-- `counter += n` for an `int` and a 64-bit `n`: the sum has 64 bits, what is stored of it 32. -/
def addLong (counter : BitVec 32) (n : BitVec 64) : BitVec 32 :=
  (counter.signExtend 64 + n).setWidth 32

/-- A call of `qedu_read` with what it does not decide itself. -/
structure ReadCall where
  count : Nat
  /-- the wait for the lock ended by a signal -/
  interrupted : Bool
  /-- bytes that `copy_to_user` copies before it faults -/
  copied : Nat

/-- `simple_read_from_buffer`: a copy that faults is a shorter read, unless nothing was copied. -/
def simpleReadFaulting (call : ReadCall) (ppos : Int) (source : Buffer) (available : Nat) :
    Int × FileRet :=
  if ppos < 0 then (ppos, .einval)
  else if (available : Int) ≤ ppos ∨ call.count = 0 then (ppos, .bytes [])
  else
    let n := min (min call.count (available - ppos.toNat)) call.copied
    if n = 0 then (ppos, .error .efault)
    else (ppos + n, .bytes ((List.range n).map fun i => source (ppos.toNat + i)))

/-- `qedu_read`. -/
def CountedDev.read (d : CountedDev) (call : ReadCall) (ppos : Int) :
    CountedDev × Int × FileRet :=
  if call.interrupted then (d, ppos, .error .erestartsys)
  else
    let r := simpleReadFaulting call ppos d.dev.buffer d.dev.resultSize
    let ret := r.2.ssize
    (if 0 < ret then { d with tx := addLong d.tx (BitVec.ofInt 64 ret) } else d, r)

/-- `qedu_write`: the count is added where the job has succeeded. A write of no byte returns 0 before
    that, and so it does here: it adds 0. -/
def CountedDev.write (d : CountedDev) (call : WriteCall) : CountedDev × FileRet :=
  let r := qeduFileWrite d.dev call
  match r.2 with
  | .count _ =>
    ({ d with dev := r.1, rx := addLong d.rx (BitVec.ofNat 64 call.bytes.length) }, r.2)
  | _ => ({ d with dev := r.1 }, r.2)

/-- `tx_show`: the text of `"%d\n"`. -/
def intLine (value : BitVec 32) : List UInt8 :=
  if value.toInt < 0 then 45 :: decimalLine value.toInt.natAbs else decimalLine value.toInt.natAbs

def CountedDev.txShow (d : CountedDev) : List UInt8 := intLine d.tx

def CountedDev.rxShow (d : CountedDev) : List UInt8 := intLine d.rx

/-! ## Histories -/

/-- The operations on `/dev/qedu`, in the order in which they get the lock. -/
inductive CountedOp (F : Type*) where
  | open (file : F)
  | read (file : F) (call : ReadCall)
  /-- `pread`: at an offset of its own -/
  | pread (file : F) (call : ReadCall) (offset : Int)
  | write (file : F) (call : WriteCall)
  | release (file : F)

/-- The device with its counters and the offset of every open file. -/
structure CountedFiles (F : Type*) where
  dev : CountedDev
  pos : F → Int

variable {F : Type*} [DecidableEq F]

/-- One operation: the state after it and what it returns. -/
def CountedFiles.step (s : CountedFiles F) : CountedOp F → CountedFiles F × FileRet
  | .open file => ({ s with pos := Function.update s.pos file 0 }, .count 0)
  | .read file call =>
    let r := s.dev.read call (s.pos file)
    ({ dev := r.1, pos := Function.update s.pos file r.2.1 }, r.2.2)
  | .pread _ call offset =>
    let r := s.dev.read call offset
    ({ s with dev := r.1 }, r.2.2)
  | .write _ call =>
    let r := s.dev.write call
    ({ s with dev := r.1 }, r.2)
  | .release _ => (s, .count 0)

/-- The state after a history, newest operation first. The device is allocated zeroed. -/
def CountedFiles.after (buffer : Buffer) : List (CountedOp F) → CountedFiles F
  | [] => { dev := { dev := { buffer := buffer, resultSize := 0 }, tx := 0, rx := 0 },
            pos := fun _ => 0 }
  | op :: past => ((CountedFiles.after buffer past).step op).1

/-- What the operation returned after its history. -/
def returned (buffer : Buffer) (op : CountedOp F) (past : List (CountedOp F)) : FileRet :=
  ((CountedFiles.after buffer past).step op).2

/-- The sum of the counts of all successful writes. -/
def rxTotal (buffer : Buffer) : List (CountedOp F) → Nat
  | [] => 0
  | .write file call :: past =>
    (if 0 ≤ (returned buffer (.write file call) past).ssize then call.bytes.length else 0) +
      rxTotal buffer past
  | _ :: past => rxTotal buffer past

/-- The sum of the positive return values of all reads. -/
def txTotal (buffer : Buffer) : List (CountedOp F) → Nat
  | [] => 0
  | .read file call :: past =>
    (returned buffer (.read file call) past).ssize.toNat + txTotal buffer past
  | .pread file call offset :: past =>
    (returned buffer (.pread file call offset) past).ssize.toNat + txTotal buffer past
  | _ :: past => txTotal buffer past

/-- What sysfs shows after the history is the two totals, and neither value is negative. -/
structure ShowsTotals (buffer : Buffer) (past : List (CountedOp F)) : Prop where
  rx : (CountedFiles.after buffer past).dev.rx.toInt = rxTotal buffer past
  tx : (CountedFiles.after buffer past).dev.tx.toInt = txTotal buffer past
  rxShow : (CountedFiles.after buffer past).dev.rxShow = decimalLine (rxTotal buffer past)
  txShow : (CountedFiles.after buffer past).dev.txShow = decimalLine (txTotal buffer past)
  rx_nonneg : 0 ≤ (CountedFiles.after buffer past).dev.rx.toInt
  tx_nonneg : 0 ≤ (CountedFiles.after buffer past).dev.tx.toInt

/-! ## One operation -/

/-- A counter that holds a total modulo 2^32 goes on to do so. -/
theorem addLong_ofNat (total n : Nat) :
    addLong (BitVec.ofNat 32 total) (BitVec.ofNat 64 n) = BitVec.ofNat 32 (n + total) := by
  have hsign : ((BitVec.ofNat 32 total).signExtend 64).setWidth 32 = BitVec.ofNat 32 total := by
    apply BitVec.eq_of_getLsbD_eq
    intro i hi
    rw [BitVec.getLsbD_setWidth, BitVec.getLsbD_signExtend]
    simp [hi, Nat.lt_trans hi (by decide : 32 < 64)]
  unfold addLong
  rw [BitVec.setWidth_add _ _ (by decide), hsign, BitVec.setWidth_ofNat_of_le (by decide),
    ← BitVec.ofNat_add, Nat.add_comm]

/-- A read leaves the result and `rx` alone. -/
theorem read_frame (d : CountedDev) (call : ReadCall) (ppos : Int) :
    (d.read call ppos).1.dev = d.dev ∧ (d.read call ppos).1.rx = d.rx := by
  unfold CountedDev.read
  split
  · exact ⟨rfl, rfl⟩
  · dsimp only
    split <;> exact ⟨rfl, rfl⟩

/-- **Read lemma**: a read counts its return value where that is positive. -/
theorem read_counters (d : CountedDev) (call : ReadCall) (ppos : Int) {total : Nat}
    (htx : d.tx = BitVec.ofNat 32 total) :
    (d.read call ppos).1.tx = BitVec.ofNat 32 ((d.read call ppos).2.2.ssize.toNat + total) := by
  unfold CountedDev.read
  by_cases hlock : call.interrupted = true
  · -- interrupted before the lock
    rw [if_pos hlock]
    simpa [FileRet.ssize] using htx
  · simp only [if_neg hlock]
    generalize simpleReadFaulting call ppos d.dev.buffer d.dev.resultSize = r
    by_cases hpos : 0 < r.2.ssize
    · obtain ⟨n, hn⟩ := Int.eq_ofNat_of_zero_le (Int.le_of_lt hpos)
      rw [if_pos hpos]
      simp only [hn, htx, BitVec.ofInt_natCast, addLong_ofNat, Int.toNat_natCast]
    · rw [if_neg hpos, Int.toNat_of_nonpos (not_lt.mp hpos), Nat.zero_add]
      exact htx

/-- A write returns its count or an error. -/
theorem qeduFileWrite_ret (d : ResultDev) (call : WriteCall) :
    (qeduFileWrite d call).2 = .count call.bytes.length ∨
      (∃ e, (qeduFileWrite d call).2 = .error e) ∨ (qeduFileWrite d call).2 = .emsgsize := by
  by_cases hlock : call.reachesLock = true
  · obtain ⟨hlen, hwrite⟩ := qeduFileWrite_locked d hlock
    rw [hwrite, (qeduWriteLocked_spec d hlen).2]
    cases call.result with
    | ok bytes => exact .inl rfl
    | error e => exact .inr (.inl ⟨e, rfl⟩)
  · unfold qeduFileWrite
    by_cases hempty : call.bytes.length = 0
    · rw [if_pos hempty, hempty]
      exact .inl rfl
    rw [if_neg hempty]
    by_cases hlong : qeduDmaSize ≤ call.bytes.length
    · rw [if_pos hlong]
      exact .inr (.inr rfl)
    rw [if_neg hlong]
    by_cases hinterrupted : call.interrupted = true
    · rw [if_pos hinterrupted]
      exact .inr (.inl ⟨_, rfl⟩)
    · simp [WriteCall.reachesLock, hinterrupted] at hlock
      omega

/-- Every error is negative as an `ssize_t`. -/
theorem ssize_error (e : Errno) : ¬ 0 ≤ (FileRet.error e).ssize := by
  cases e <;> decide

/-- **Write lemma**: a write counts its bytes where it succeeds, and nothing else. -/
theorem write_counters (d : CountedDev) (call : WriteCall) {total : Nat}
    (hrx : d.rx = BitVec.ofNat 32 total) :
    (d.write call).1.rx = BitVec.ofNat 32
        ((if 0 ≤ (d.write call).2.ssize then call.bytes.length else 0) + total) ∧
      (d.write call).1.tx = d.tx := by
  have hret := qeduFileWrite_ret d.dev call
  unfold CountedDev.write
  generalize qeduFileWrite d.dev call = r at hret
  obtain ⟨dev, ret⟩ := r
  rcases hret with rfl | ⟨e, rfl⟩ | rfl
  · refine ⟨?_, rfl⟩
    have hcount : 0 ≤ (FileRet.count call.bytes.length).ssize := Int.natCast_nonneg _
    simp only [hrx, addLong_ofNat, if_pos hcount]
  · refine ⟨?_, rfl⟩
    simp only [hrx, if_neg (ssize_error e), Nat.zero_add]
  · refine ⟨?_, rfl⟩
    have hmsgsize : ¬ 0 ≤ FileRet.emsgsize.ssize := by decide
    simp only [hrx, if_neg hmsgsize, Nat.zero_add]

/-! ## Runs -/

/-- **Run lemma**: after every history the counters are the totals modulo 2^32. -/
theorem counters_after (buffer : Buffer) (past : List (CountedOp F)) :
    (CountedFiles.after buffer past).dev.rx = BitVec.ofNat 32 (rxTotal buffer past) ∧
      (CountedFiles.after buffer past).dev.tx = BitVec.ofNat 32 (txTotal buffer past) := by
  induction past with
  | nil => exact ⟨rfl, rfl⟩
  | cons op past ih =>
    obtain ⟨hrx, htx⟩ := ih
    cases op with
    | «open» file => exact ⟨hrx, htx⟩
    | release file => exact ⟨hrx, htx⟩
    | read file call => exact ⟨(read_frame _ call _).2.trans hrx, read_counters _ call _ htx⟩
    | pread file call offset =>
      exact ⟨(read_frame _ call offset).2.trans hrx, read_counters _ call offset htx⟩
    | write file call =>
      have hwrite := write_counters _ call hrx
      exact ⟨hwrite.1, hwrite.2.trans htx⟩

/-- A 32-bit counter is a total as it is exactly if the total fits an `int`. -/
theorem toInt_total_iff (total : Nat) :
    (BitVec.ofNat 32 total).toInt = total ↔ total < 2 ^ 31 := by
  rw [BitVec.toInt_ofNat']
  constructor
  · intro heq
    have hlt : Int.bmod total (2 ^ 32) < (2 ^ 32 + 1) / 2 := Int.bmod_lt (by decide)
    omega
  · intro hlt
    exact Int.bmod_eq_of_le (by omega) (by omega)

theorem intLine_total {total : Nat} (h : total < 2 ^ 31) :
    intLine (BitVec.ofNat 32 total) = decimalLine total := by
  unfold intLine
  rw [(toInt_total_iff total).mpr h, if_neg (not_lt.mpr (Int.natCast_nonneg total)),
    Int.natAbs_natCast]

/-- The totals only grow. -/
theorem totals_mono (buffer : Buffer) {earlier past : List (CountedOp F)} (h : earlier <:+ past) :
    rxTotal buffer earlier ≤ rxTotal buffer past ∧ txTotal buffer earlier ≤ txTotal buffer past := by
  obtain ⟨later, rfl⟩ := h
  induction later with
  | nil => exact ⟨le_refl _, le_refl _⟩
  | cons op later ih =>
    refine ⟨ih.1.trans ?_, ih.2.trans ?_⟩
    · cases op <;> simp [rxTotal]
    · cases op <;> simp [txTotal]

/-! ## Without faults -/

/-- The copies to user space succeed. -/
def CountedOp.Faultless : CountedOp F → Prop
  | .read _ call | .pread _ call _ => call.count ≤ call.copied
  | _ => True

/-- The operation of a history in which no copy to user space faults. -/
def CountedOp.plain : CountedOp F → FileOp F
  | .open file => .open file
  | .read file call => .read file call.count call.interrupted
  | .pread file call offset => .pread file call.count offset call.interrupted
  | .write file call => .write file call
  | .release file => .release file

/-- The state without its counters. -/
def CountedFiles.plain (s : CountedFiles F) : DevFiles F where
  dev := s.dev.dev
  pos := s.pos

theorem simpleReadFaulting_eq {call : ReadCall} (hcopied : call.count ≤ call.copied) (ppos : Int)
    (source : Buffer) (available : Nat) :
    simpleReadFaulting call ppos source available =
      simpleReadFromBuffer call.count ppos source available := by
  unfold simpleReadFaulting simpleReadFromBuffer
  by_cases hneg : ppos < 0
  · rw [if_pos hneg, if_pos hneg]
  rw [if_neg hneg, if_neg hneg]
  by_cases hend : (available : Int) ≤ ppos ∨ call.count = 0
  · rw [if_pos hend, if_pos hend]
  rw [if_neg hend, if_neg hend]
  have hall : min (min call.count (available - ppos.toNat)) call.copied =
      min call.count (available - ppos.toNat) :=
    Nat.min_eq_left (Nat.le_trans (Nat.min_le_left _ _) hcopied)
  have hpos : min call.count (available - ppos.toNat) ≠ 0 := by omega
  simp only [hall, if_neg hpos]

theorem read_faultless (d : CountedDev) {call : ReadCall} (hcopied : call.count ≤ call.copied)
    (ppos : Int) : (d.read call ppos).2 = qeduRead d.dev call.count ppos call.interrupted := by
  unfold CountedDev.read qeduRead
  rw [← simpleReadFaulting_eq hcopied]
  split <;> rfl

theorem write_plain (d : CountedDev) (call : WriteCall) :
    (d.write call).1.dev = (qeduFileWrite d.dev call).1 ∧
      (d.write call).2 = (qeduFileWrite d.dev call).2 := by
  unfold CountedDev.write
  generalize qeduFileWrite d.dev call = r
  obtain ⟨dev, ret⟩ := r
  cases ret <;> exact ⟨rfl, rfl⟩

/-- **Refinement**: an operation without a fault is the one of the result file. -/
theorem step_faultless (s : CountedFiles F) {op : CountedOp F} (h : op.Faultless) :
    (s.step op).1.plain = (s.plain.step op.plain).1 ∧ (s.step op).2 = (s.plain.step op.plain).2 := by
  cases op with
  | «open» file => exact ⟨rfl, rfl⟩
  | release file => exact ⟨rfl, rfl⟩
  | read file call =>
    have hread := read_faultless s.dev h (s.pos file)
    constructor
    · simp only [CountedFiles.step, CountedFiles.plain, CountedOp.plain, DevFiles.step,
        (read_frame s.dev call _).1, hread]
    · exact congrArg Prod.snd hread
  | pread file call offset =>
    have hread := read_faultless s.dev h offset
    constructor
    · simp only [CountedFiles.step, CountedFiles.plain, CountedOp.plain, DevFiles.step,
        (read_frame s.dev call _).1]
    · exact congrArg Prod.snd hread
  | write file call =>
    obtain ⟨hdev, hret⟩ := write_plain s.dev call
    constructor
    · simp only [CountedFiles.step, CountedFiles.plain, CountedOp.plain, DevFiles.step, hdev]
    · exact hret

/-- A history without a fault leaves what there is to be read as the result file has it. -/
theorem after_faultless (buffer : Buffer) {past : List (CountedOp F)}
    (h : ∀ op ∈ past, op.Faultless) :
    (CountedFiles.after buffer past).plain = DevFiles.after buffer (past.map CountedOp.plain) := by
  induction past with
  | nil => rfl
  | cons op past ih =>
    obtain ⟨hop, hpast⟩ := List.forall_mem_cons.mp h
    rw [CountedFiles.after, (step_faultless _ hop).1, ih hpast]
    rfl

/-! ## What sysfs shows -/

/-- sysfs shows the totals at every point of a run of file operations exactly if both totals stay
    below 2^31. -/
theorem shows_totals_iff (buffer : Buffer) (past : List (CountedOp F)) :
    (∀ earlier, earlier <:+ past → ShowsTotals buffer earlier) ↔
      rxTotal buffer past < 2 ^ 31 ∧ txTotal buffer past < 2 ^ 31 := by
  constructor
  -- the end of the run is one of its points
  · intro hall
    obtain ⟨hrx, htx⟩ := counters_after buffer past
    have hshows := hall past (List.suffix_refl past)
    exact ⟨(toInt_total_iff _).mp (hrx ▸ hshows.rx), (toInt_total_iff _).mp (htx ▸ hshows.tx)⟩
  -- an earlier point has no larger totals
  · rintro ⟨hrxlt, htxlt⟩ earlier hearlier
    obtain ⟨hrx, htx⟩ := counters_after buffer earlier
    obtain ⟨hrxle, htxle⟩ := totals_mono buffer hearlier
    have hrxlt' : rxTotal buffer earlier < 2 ^ 31 := lt_of_le_of_lt hrxle hrxlt
    have htxlt' : txTotal buffer earlier < 2 ^ 31 := lt_of_le_of_lt htxle htxlt
    have hrxval := hrx ▸ (toInt_total_iff _).mpr hrxlt'
    have htxval := htx ▸ (toInt_total_iff _).mpr htxlt'
    exact {
      rx := hrxval
      tx := htxval
      rxShow := by rw [CountedDev.rxShow, hrx, intLine_total hrxlt']
      txShow := by rw [CountedDev.txShow, htx, intLine_total htxlt']
      rx_nonneg := hrxval ▸ Int.natCast_nonneg _
      tx_nonneg := htxval ▸ Int.natCast_nonneg _ }

theorem returned_write (buffer : Buffer) (file : F) (call : WriteCall) (past : List (CountedOp F)) :
    returned buffer (.write file call) past =
      ((CountedFiles.after buffer past).dev.write call).2 := rfl

/-- 4095 bytes that are echoed. -/
def longEcho : WriteCall where
  bytes := List.replicate 4095 120
  interrupted := false
  copied := 4095
  factorial := .ok 1
  echo := .ok ()
  echoed := fun _ => 120

/-- They are no number, so they are echoed, whatever the device has done before. -/
theorem longEcho_ret (d : CountedDev) : (d.write longEcho).2 = .count 4095 := by
  have hlength : longEcho.bytes.length = 4095 := List.length_replicate
  have hlock : longEcho.reachesLock = true := by
    rw [WriteCall.reachesLock, hlength]
    rfl
  have hresult : longEcho.result = .ok ((List.range longEcho.bytes.length).map longEcho.echoed) := by
    have hcopied : ¬ longEcho.copied < longEcho.bytes.length := by
      rw [hlength]
      decide
    have hparsed : kstrtou32 (longEcho.bytes.takeWhile (· ≠ 0)) = none := rfl
    rw [WriteCall.result, if_neg hcopied, hparsed]
    rfl
  obtain ⟨hlen, hwrite⟩ := qeduFileWrite_locked d.dev hlock
  have hret : (qeduFileWrite d.dev longEcho).2 = .count longEcho.bytes.length := by
    rw [hwrite, (qeduWriteLocked_spec d.dev hlen).2, hresult]
    rfl
  rw [CountedDev.write]
  simp only [hret]
  rw [hlength]

theorem rxTotal_longEcho (buffer : Buffer) (n : Nat) :
    rxTotal buffer (List.replicate n (.write (0 : Nat) longEcho)) = 4095 * n := by
  induction n with
  | zero => rfl
  | succ n ih =>
    have hlength : longEcho.bytes.length = 4095 := List.length_replicate
    rw [List.replicate_succ, rxTotal, returned_write, longEcho_ret, ih, hlength,
      if_pos (by decide)]
    omega

/-- **The defect**: 524417 writes of 4095 bytes each, and `rx` shows a negative number. -/
theorem rx_shows_negative :
    ¬ ∀ past : List (CountedOp Nat), ShowsTotals (fun _ => 0) past := by
  intro hall
  have hshows := (hall (List.replicate 524417 (.write 0 longEcho))).rx
  rw [(counters_after _ _).1, rxTotal_longEcho] at hshows
  exact absurd hshows (by decide)

end LinuxMaxxing.Io
