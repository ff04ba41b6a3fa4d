import LinuxMaxxing.Virtio.ProcessQueue

/-!
# What One Call of `process_queue` Does

`process_queue` run to its end while the guest leaves its memory alone. Both ring indices
are 16-bit counters that wrap, and each is reduced modulo the queue size to a slot.

The entropy comes from an arbitrary `RandomSource`: any pattern of interruptions, short
counts and errors, except that it does not answer EINTR for ever. The request fails or is
filled (`Fill`), and with it the call consumes pending entries up to the first one that it
refuses (`Serves`).

## Key Results

- `fill_total`: the `getrandom` loop always ends
- `serve_entry`, `serve_pending`: one round of the loop, and all of them
- `process_queue_serves`: the call as a whole, from any ready queue of the fixed layout
-/

namespace LinuxMaxxing.Virtio

open LinuxMaxxing.Lib

/-! ## The entropy source -/

/-- What the `n`-th call of `getrandom` does when it is asked for so many bytes. -/
structure RandomSource where
  call : Nat → Nat → GetRandom
  /-- never more than asked for -/
  bounded : ∀ n asked bs, call n asked = .bytes bs → bs.length ≤ asked
  /-- no endless interruption -/
  answers : ∀ n asked, ∃ m, n ≤ m ∧ call m asked ≠ .eintr

/-- `Fill src n asked filled n'`: from its `n`-th `getrandom` on, the loop for `asked`
    missing bytes ends before the call `n'`; with all of them if `filled`. -/
inductive Fill (src : RandomSource) : Nat → Nat → Bool → Nat → Prop where
  | complete {n : Nat} : Fill src n 0 true n
  | interrupted {n n' asked : Nat} {filled : Bool} : src.call n (asked + 1) = .eintr →
      Fill src (n + 1) (asked + 1) filled n' → Fill src n (asked + 1) filled n'
  | error {n asked : Nat} : src.call n (asked + 1) = .error → Fill src n (asked + 1) false (n + 1)
  | zero {n asked : Nat} : src.call n (asked + 1) = .bytes [] →
      Fill src n (asked + 1) false (n + 1)
  | bytes {n n' asked : Nat} {filled : Bool} {b : UInt8} {bs : List UInt8} :
      src.call n (asked + 1) = .bytes (b :: bs) →
      Fill src (n + 1) (asked - bs.length) filled n' → Fill src n (asked + 1) filled n'

/-! ## Running the call -/

/-- The call with the memory it works on and the number of `getrandom` calls so far. -/
structure Call where
  dev : VirtioMmioDevice
  mem : Memory
  frame : Frame
  calls : Nat

/-- The bytes `getrandom` is asked for next. -/
def Frame.asked (f : Frame) : Nat := f.request.len.toNat - f.filled

/-- One step of the call; nobody else moves. -/
def Call.step (src : RandomSource) (c : Call) : Option Call :=
  (processQueue c.dev c.mem c.frame (src.call c.calls c.frame.asked)).map fun p =>
    { dev := p.dev
      mem := p.mem
      frame := p.frame
      calls := if c.frame.pc = .fill ∧ c.frame.filled < c.frame.request.len.toNat then c.calls + 1
        else c.calls }

/-- The call gets from one state to the other. -/
def Call.Reaches (src : RandomSource) : Call → Call → Prop :=
  Relation.ReflTransGen fun c c' => c.step src = some c'

/-! ## Guest memory through the layout -/

/-- `avail->idx`. -/
def availIdx (m : Memory) : BitVec 16 :=
  BitVec.ofNat 16 (m.loadLe (virtqAvailGpa + virtqAvailIdxOffset) 2)

/-- `avail->ring[slot]`. -/
def availRing (m : Memory) (slot : Nat) : BitVec 16 :=
  BitVec.ofNat 16 (m.loadLe (virtqAvailGpa + virtqAvailRingOffset + 2 * slot) 2)

/-- `desc[head]`. -/
def descAt (m : Memory) (head : Nat) : VirtqDesc :=
  let base := virtqDescGpa + virtqDescSize * head
  { addr := BitVec.ofNat 64 (m.loadLe (base + virtqDescAddrOffset) 8)
    len := BitVec.ofNat 32 (m.loadLe (base + virtqDescLenOffset) 4)
    flags := BitVec.ofNat 16 (m.loadLe (base + virtqDescFlagsOffset) 2)
    next := BitVec.ofNat 16 (m.loadLe (base + virtqDescNextOffset) 2) }

/-- `used->idx`. -/
def usedIdx (m : Memory) : BitVec 16 :=
  BitVec.ofNat 16 (m.loadLe (virtqUsedGpa + virtqUsedIdxOffset) 2)

/-- One completion in the used ring. -/
structure VirtqUsedElem where
  id : Nat
  len : Nat
  deriving DecidableEq, Repr

/-- Address of `used->ring[slot]`. -/
def usedElemAddr (slot : Nat) : Nat :=
  virtqUsedGpa + virtqUsedRingOffset + virtqUsedElemSize * slot

/-- `used->ring[slot]`. -/
def usedElem (m : Memory) (slot : Nat) : VirtqUsedElem where
  id := m.loadLe (usedElemAddr slot + virtqUsedElemIdOffset) 4
  len := m.loadLe (usedElemAddr slot + virtqUsedElemLenOffset) 4

/-- The slot of a ring index. -/
def ringSlot (idx : BitVec 16) : Nat := idx.toNat % virtqSize

/-- The heads of the next `n` available entries, from the index `last` on. -/
def pendingHeads (m : Memory) (last : BitVec 16) : Nat → List (BitVec 16)
  | 0 => []
  | n + 1 => availRing m (ringSlot last) :: pendingHeads m (last + 1) n

@[simp] theorem length_pendingHeads (m : Memory) (last : BitVec 16) (n : Nat) :
    (pendingHeads m last n).length = n := by
  induction n generalizing last with
  | zero => rfl
  | succ n ih => simp [pendingHeads, ih]

/-! ## What is served -/

/-- The entry names a descriptor that is exactly the direct writable entropy buffer of its
    index. -/
def ValidEntry (m : Memory) (head : BitVec 16) : Prop :=
  head.toNat < virtqSize ∧
    descAt m head.toNat =
      { addr := BitVec.ofNat 64 (virtioRngBufferGpa + head.toNat * virtioRngBufferStride)
        len := BitVec.ofNat 32 virtioRngRequestLen
        flags := virtqDescFWrite
        next := 0 }

instance (m : Memory) (head : BitVec 16) : Decidable (ValidEntry m head) :=
  inferInstanceAs (Decidable (_ ∧ _))

/-- `Serves src m n pending done`: with its next `getrandom` being the `n`-th, the call serves
    the entries `done` of `pending`: all of them, or those before the first one that is not
    valid or for which `getrandom` fails. -/
inductive Serves (src : RandomSource) (m : Memory) :
    Nat → List (BitVec 16) → List (BitVec 16) → Prop where
  | all {n : Nat} : Serves src m n [] []
  | invalid {n : Nat} {head : BitVec 16} {rest : List (BitVec 16)} :
      ¬ ValidEntry m head → Serves src m n (head :: rest) []
  | starved {n n' : Nat} {head : BitVec 16} {rest : List (BitVec 16)} :
      ValidEntry m head → Fill src n virtioRngRequestLen false n' →
      Serves src m n (head :: rest) []
  | serve {n n' : Nat} {head : BitVec 16} {rest done : List (BitVec 16)} :
      ValidEntry m head → Fill src n virtioRngRequestLen true n' →
      Serves src m n' rest done → Serves src m n (head :: rest) (head :: done)

/-- The bytes that a completion changes: `used->idx`, the slots of the used ring, and the
    entropy buffers. -/
def Changeable (i : Nat) : Prop :=
  (virtqUsedGpa + virtqUsedIdxOffset ≤ i ∧ i < virtqUsedGpa + virtqUsedBytes) ∨
    ∃ head < virtqSize, virtioRngBufferGpa + head * virtioRngBufferStride ≤ i ∧
      i < virtioRngBufferGpa + head * virtioRngBufferStride + virtioRngRequestLen

/-- `after` is `before` with one completion published for each of the heads, in order, from
    the used index on. -/
structure Published (before after : Memory) (heads : List (BitVec 16)) : Prop where
  idx : usedIdx after = usedIdx before + BitVec.ofNat 16 heads.length
  elems : ∀ k (h : k < heads.length),
    usedElem after (ringSlot (usedIdx before + BitVec.ofNat 16 k)) =
      ⟨heads[k].toNat, virtioRngRequestLen⟩
  others : ∀ slot < virtqSize,
    (∀ k < heads.length, slot ≠ ringSlot (usedIdx before + BitVec.ofNat 16 k)) →
      usedElem after slot = usedElem before slot
  frame : ∀ i, ¬ Changeable i → after i = before i

/-! ## Steps -/

namespace Call

variable {src : RandomSource} {c c' c'' : Call}

theorem Reaches.refl : c.Reaches src c := Relation.ReflTransGen.refl

theorem Reaches.trans (h : c.Reaches src c') (h' : c'.Reaches src c'') : c.Reaches src c'' :=
  Relation.ReflTransGen.trans h h'

/-- A step that does not depend on `getrandom`. -/
theorem Reaches.next {p : Progress} (hpc : c.frame.pc ≠ .fill)
    (hstep : processQueue c.dev c.mem c.frame .eintr = some p)
    (h : Reaches src ⟨p.dev, p.mem, p.frame, c.calls⟩ c'') : c.Reaches src c'' := by
  refine Relation.ReflTransGen.head ?_ h
  have hany : ∀ r, processQueue c.dev c.mem c.frame r = some p := by
    intro r
    rw [← hstep]
    cases hcase : c.frame.pc <;> simp only [processQueue, hcase]
    exact absurd hcase hpc
  simp [step, hany, hpc]

end Call

/-! ## The `getrandom` loop -/

/-- The loop for the missing bytes always ends. -/
theorem fill_total (src : RandomSource) (n asked : Nat) :
    ∃ filled n', Fill src n asked filled n' := by
  induction asked using Nat.strong_induction_on generalizing n with
  | _ asked ih =>
    cases asked with
    | zero => exact ⟨true, n, .complete⟩
    | succ asked =>
      have hanswered : ∀ n, src.call n (asked + 1) ≠ .eintr →
          ∃ filled n', Fill src n (asked + 1) filled n' := by
        intro n hanswer
        cases hcall : src.call n (asked + 1) with
        | eintr => exact absurd hcall hanswer
        | error => exact ⟨false, n + 1, .error hcall⟩
        | bytes bs =>
          cases bs with
          | nil => exact ⟨false, n + 1, .zero hcall⟩
          | cons b bs =>
            obtain ⟨filled, n', hrest⟩ := ih (asked - bs.length) (by omega) (n + 1)
            exact ⟨filled, n', .bytes hcall hrest⟩
      obtain ⟨m, hle, hanswer⟩ := src.answers n (asked + 1)
      obtain ⟨d, rfl⟩ := Nat.exists_eq_add_of_le hle
      clear hle
      -- induction on the distance to a call that is not interrupted
      induction d generalizing n with
      | zero => exact hanswered n hanswer
      | succ d ihd =>
        by_cases hcall : src.call n (asked + 1) = .eintr
        · obtain ⟨filled, n', hrest⟩ :=
            ihd (n + 1) (by rwa [show n + 1 + d = n + (d + 1) by omega])
          exact ⟨filled, n', .interrupted hcall hrest⟩
        · exact hanswered n hcall

/-- A loop that asks for bytes has not filled the buffer. -/
theorem Frame.filled_lt_of_asked {f : Frame} {missing : Nat} (h : f.asked = missing + 1) :
    f.filled < f.request.len.toNat := by
  unfold Frame.asked at h
  omega

/-- The loop as steps of the call: it goes on with the completion or gives up, and changes
    memory in the requested buffer only. -/
theorem fill_reaches {src : RandomSource} {n n' asked : Nat} {filled : Bool}
    (hfill : Fill src n asked filled n') (dev : VirtioMmioDevice) (mem : Memory) {f : Frame}
    (hpc : f.pc = .fill) (hasked : f.asked = asked) (hle : f.filled ≤ f.request.len.toNat) :
    ∃ mem' k, Call.Reaches src ⟨dev, mem, f, n⟩
        ⟨dev, mem', { f with filled := k, pc := if filled then .loadUsedIdx else .returned (-1) },
          n'⟩ ∧
      ∀ i, i < f.request.addr.toNat ∨ f.request.addr.toNat + f.request.len.toNat ≤ i →
        mem' i = mem i := by
  induction hfill generalizing mem f with
  | complete =>
    refine ⟨mem, f.filled, ?_, fun _ _ => rfl⟩
    apply Relation.ReflTransGen.single
    have hfull : ¬ f.filled < f.request.len.toNat := by
      unfold Frame.asked at hasked
      omega
    simp [Call.step, processQueue, fillBuffer, hpc, hfull, Progress.goto]
  | interrupted hcall _ ih =>
    -- EINTR: the same call is made again
    obtain ⟨mem', k, hreach, hframe⟩ := @ih mem f hpc hasked hle
    refine ⟨mem', k, Relation.ReflTransGen.head ?_ hreach, hframe⟩
    have hmore : f.filled < f.request.len.toNat := Frame.filled_lt_of_asked hasked
    cases f
    simp_all [Call.step, processQueue, fillBuffer, Progress.goto]
  | error hcall =>
    refine ⟨mem, f.filled, ?_, fun _ _ => rfl⟩
    apply Relation.ReflTransGen.single
    have hmore : f.filled < f.request.len.toNat := Frame.filled_lt_of_asked hasked
    simp [Call.step, processQueue, fillBuffer, hpc, hmore, hasked, hcall, Progress.goto]
  | zero hcall =>
    refine ⟨mem, f.filled, ?_, fun _ _ => rfl⟩
    apply Relation.ReflTransGen.single
    have hmore : f.filled < f.request.len.toNat := Frame.filled_lt_of_asked hasked
    simp [Call.step, processQueue, fillBuffer, hpc, hmore, hasked, hcall, Progress.goto]
  | @bytes n n' asked filled b bs hcall _ ih =>
    have hmore : f.filled < f.request.len.toNat := Frame.filled_lt_of_asked hasked
    have hfits : (b :: bs).length ≤ f.request.len.toNat - f.filled := by
      have := src.bounded _ _ _ hcall
      unfold Frame.asked at hasked
      omega
    simp only [List.length_cons] at hfits
    obtain ⟨mem', k, hreach, hframe⟩ := @ih
      (mem.storeBytes (f.request.addr.toNat + f.filled) (b :: bs))
      { f with filled := f.filled + (b :: bs).length } hpc
      (by
        unfold Frame.asked at hasked ⊢
        simp only [List.length_cons]
        omega)
      (by
        simp only [List.length_cons]
        omega)
    refine ⟨mem', k, Relation.ReflTransGen.head ?_ hreach, fun i hi => ?_⟩
    · simp [Call.step, processQueue, fillBuffer, hpc, hmore, hasked, hcall, hfits]
    · rw [hframe i hi]
      apply Memory.storeBytes_frame
      simp only [List.length_cons]
      omega

/-! ## One entry -/

theorem toNat_ringSlot (idx : BitVec 16) :
    (idx % BitVec.ofNat 16 virtqSize).toNat = ringSlot idx := by
  rw [BitVec.toNat_umod]
  rfl

/-- The loop test and the load of the head at `last_avail_idx`, with its bound. -/
theorem load_head (src : RandomSource) {dev : VirtioMmioDevice} (mem : Memory) {f : Frame}
    (n : Nat) (hpc : f.pc = .loopTest) (havail : f.avail = virtqAvailGpa)
    (hne : dev.queue.lastAvailIdx ≠ f.availIdx) :
    let last := dev.queue.lastAvailIdx
    let head := availRing mem (ringSlot last)
    Call.Reaches src ⟨dev, mem, f, n⟩
      ⟨dev, mem, { f with
        slot := last % BitVec.ofNat 16 virtqSize
        filled := 0
        head := head
        pc := if virtqSize ≤ head.toNat then .returned (-1) else .loadAddr }, n⟩ := by
  obtain ⟨pc, desc, avail, used, availIdx, slot, oldHead, request, filled, oldUsedIdx⟩ := f
  obtain rfl : pc = .loopTest := hpc
  obtain rfl : avail = virtqAvailGpa := havail
  refine Call.Reaches.next (by simp) (if_pos hne) ?_
  refine Call.Reaches.next (by simp) rfl ?_
  refine Call.Reaches.next (by simp) rfl ?_
  simp only [Progress.goto, Progress.load, Frame.availRingAddr, toNat_ringSlot]
  exact .refl

/-- The four loads of `request = desc[head]`. -/
theorem load_request {src : RandomSource} {dev : VirtioMmioDevice} {mem : Memory} {f : Frame}
    {n : Nat} (hpc : f.pc = .loadAddr) (hdesc : f.desc = virtqDescGpa) :
    Call.Reaches src ⟨dev, mem, f, n⟩
      ⟨dev, mem, { f with request := descAt mem f.head.toNat, pc := .checkRequest }, n⟩ := by
  obtain ⟨pc, desc, avail, used, availIdx, slot, head, request, filled, oldUsedIdx⟩ := f
  obtain rfl : pc = .loadAddr := hpc
  obtain rfl : desc = virtqDescGpa := hdesc
  refine Call.Reaches.next (by simp) rfl ?_
  refine Call.Reaches.next (by simp) rfl ?_
  refine Call.Reaches.next (by simp) rfl ?_
  refine Call.Reaches.next (by simp) rfl ?_
  exact .refl

/-- The check of the copied descriptor is the check of the entry. -/
theorem requestAccepted_iff {m : Memory} {f : Frame} (hhead : f.head.toNat < virtqSize)
    (hreq : f.request = descAt m f.head.toNat) :
    f.requestAccepted = true ↔ ValidEntry m f.head := by
  rw [Frame.requestAccepted, decide_eq_true_iff, ValidEntry, ← hreq, Frame.expectedBuffer]
  obtain ⟨addr, len, flags, next⟩ := f.request
  simp only [virtqSize] at hhead
  simp only [VirtqDesc.mk.injEq, virtioRngBufferGpa, virtioRngBufferStride, virtioRngRequestLen,
    virtioGuestMemSize, virtqSize]
  constructor
  · rintro ⟨haddr, hlen, hflags, hnext, -⟩
    exact ⟨hhead, by bv_omega, by bv_omega, hflags, hnext⟩
  · rintro ⟨-, rfl, rfl, hflags, hnext⟩
    refine ⟨by simp; omega, by simp, hflags, hnext, ?_⟩
    simp
    omega

/-! ## What a completion changes -/

theorem ringSlot_lt (idx : BitVec 16) : ringSlot idx < virtqSize :=
  Nat.mod_lt _ (by decide)

/-- The queue structures of the guest lie below everything a completion changes. -/
theorem not_changeable {i : Nat} (h : i < virtqUsedGpa) : ¬ Changeable i := by
  rintro (⟨hlo, -⟩ | ⟨head, -, hlo, -⟩)
  · omega
  · have : virtqUsedGpa < virtioRngBufferGpa := by decide
    omega

/-- The descriptor table and the available ring read the same. -/
theorem guest_rings_congr {m m' : Memory} (h : ∀ i, ¬ Changeable i → m' i = m i) :
    (∀ head < virtqSize, descAt m' head = descAt m head) ∧
    (∀ slot < virtqSize, availRing m' slot = availRing m slot) := by
  have hload : ∀ addr n, addr + n ≤ virtqUsedGpa → m'.loadLe addr n = m.loadLe addr n :=
    fun addr n hle => Memory.loadLe_congr fun i _ hhi => h i (not_changeable (by omega))
  constructor
  · intro head hhead
    simp only [virtqSize] at hhead
    unfold descAt
    simp only [virtqDescGpa, virtqDescSize, virtqDescAddrOffset, virtqDescLenOffset,
      virtqDescFlagsOffset, virtqDescNextOffset]
    rw [hload _ 8 (by simp only [virtqUsedGpa]; omega), hload _ 4 (by simp only [virtqUsedGpa]; omega),
      hload (_ + 12) 2 (by simp only [virtqUsedGpa]; omega),
      hload (_ + 14) 2 (by simp only [virtqUsedGpa]; omega)]
  · intro slot hslot
    simp only [virtqSize] at hslot
    unfold availRing
    rw [hload _ 2 (by simp only [virtqAvailGpa, virtqAvailRingOffset, virtqUsedGpa]; omega)]

theorem validEntry_congr {m m' : Memory} (h : ∀ i, ¬ Changeable i → m' i = m i)
    (head : BitVec 16) : ValidEntry m' head ↔ ValidEntry m head := by
  unfold ValidEntry
  constructor
  · rintro ⟨hhead, hdesc⟩
    exact ⟨hhead, by rw [← (guest_rings_congr h).1 _ hhead, hdesc]⟩
  · rintro ⟨hhead, hdesc⟩
    exact ⟨hhead, by rw [(guest_rings_congr h).1 _ hhead, hdesc]⟩

/-- What is served depends on the guest's part of memory only. -/
theorem Serves.congr {src : RandomSource} {m m' : Memory}
    (h : ∀ i, ¬ Changeable i → m' i = m i) {n : Nat} {pending done : List (BitVec 16)}
    (hserves : Serves src m n pending done) : Serves src m' n pending done := by
  induction hserves with
  | all => exact .all
  | invalid hinvalid => exact .invalid (by rwa [validEntry_congr h])
  | starved hvalid hfill => exact .starved ((validEntry_congr h _).mpr hvalid) hfill
  | serve hvalid hfill _ ih => exact .serve ((validEntry_congr h _).mpr hvalid) hfill ih

/-! ## The used ring -/

theorem Published.nil (m : Memory) : Published m m [] where
  idx := by simp
  elems := by intro k hk; simp at hk
  others := fun _ _ _ => rfl
  frame := fun _ _ => rfl

/-- Indices less than a whole ring apart have different slots. -/
theorem ringSlot_ne (idx : BitVec 16) {j k : Nat} (hjk : j < k) (hk : k < j + virtqSize) :
    ringSlot (idx + BitVec.ofNat 16 k) ≠ ringSlot (idx + BitVec.ofNat 16 j) := by
  simp only [ringSlot, BitVec.toNat_add, BitVec.toNat_ofNat, virtqSize] at hk ⊢
  omega

/-- A slot of the used ring lies behind `used->idx` and before the entropy buffers. -/
theorem usedElemAddr_bounds {slot : Nat} (h : slot < virtqSize) :
    virtqUsedGpa + virtqUsedIdxOffset + 2 ≤ usedElemAddr slot ∧
      usedElemAddr slot + virtqUsedElemSize ≤ virtqUsedGpa + virtqUsedBytes ∧
      usedElemAddr slot + virtqUsedElemSize ≤ virtioRngBufferGpa := by
  simp only [virtqSize] at h
  simp only [usedElemAddr, virtqUsedGpa, virtqUsedRingOffset, virtqUsedElemSize,
    virtqUsedIdxOffset, virtqUsedBytes, virtqSize, virtioRngBufferGpa]
  omega

theorem usedElemAddr_apart {slot slot' : Nat} (h : slot ≠ slot') :
    usedElemAddr slot + virtqUsedElemSize ≤ usedElemAddr slot' ∨
      usedElemAddr slot' + virtqUsedElemSize ≤ usedElemAddr slot := by
  simp only [usedElemAddr, virtqUsedElemSize]
  omega

/-- The three stores of a completion. -/
def publish (m : Memory) (head : BitVec 16) : Memory :=
  ((m.storeLe (usedElemAddr (ringSlot (usedIdx m)) + virtqUsedElemIdOffset) 4
      head.toNat).storeLe
    (usedElemAddr (ringSlot (usedIdx m)) + virtqUsedElemLenOffset) 4 virtioRngRequestLen).storeLe
    (virtqUsedGpa + virtqUsedIdxOffset) 2 (usedIdx m + 1).toNat

theorem usedIdx_publish (m : Memory) (head : BitVec 16) :
    usedIdx (publish m head) = usedIdx m + 1 := by
  show BitVec.ofNat 16 ((publish m head).loadLe (virtqUsedGpa + virtqUsedIdxOffset) 2) = _
  rw [publish, Memory.loadLe_storeLe _ _ (BitVec.isLt _), BitVec.ofNat_toNat,
    BitVec.setWidth_eq]

theorem usedElem_publish (m : Memory) (head : BitVec 16) :
    usedElem (publish m head) (ringSlot (usedIdx m)) = ⟨head.toNat, virtioRngRequestLen⟩ := by
  obtain ⟨hidx, -, -⟩ := usedElemAddr_bounds (ringSlot_lt (usedIdx m))
  have hid : (publish m head).loadLe
      (usedElemAddr (ringSlot (usedIdx m)) + virtqUsedElemIdOffset) 4 = head.toNat := by
    simp only [publish, virtqUsedElemIdOffset, virtqUsedElemLenOffset]
    rw [Memory.loadLe_storeLe_of_disjoint _ (by omega),
      Memory.loadLe_storeLe_of_disjoint _ (by omega),
      Memory.loadLe_storeLe _ _ (lt_trans head.isLt (by decide))]
  have hlen : (publish m head).loadLe
      (usedElemAddr (ringSlot (usedIdx m)) + virtqUsedElemLenOffset) 4 =
        virtioRngRequestLen := by
    simp only [publish, virtqUsedElemLenOffset]
    rw [Memory.loadLe_storeLe_of_disjoint _ (by omega), Memory.loadLe_storeLe _ _ (by decide)]
  rw [usedElem, hid, hlen]

theorem usedElem_publish_of_ne (m : Memory) (head : BitVec 16) {slot : Nat}
    (hslot : slot < virtqSize) (hne : slot ≠ ringSlot (usedIdx m)) :
    usedElem (publish m head) slot = usedElem m slot := by
  obtain ⟨hidx, -, -⟩ := usedElemAddr_bounds hslot
  have hapart := usedElemAddr_apart hne
  simp only [virtqUsedElemSize] at hapart
  have hload : ∀ offset, offset + 4 ≤ 8 →
      (publish m head).loadLe (usedElemAddr slot + offset) 4 =
        m.loadLe (usedElemAddr slot + offset) 4 := by
    intro offset hoff
    simp only [publish, virtqUsedElemIdOffset, virtqUsedElemLenOffset]
    rw [Memory.loadLe_storeLe_of_disjoint _ (by omega),
      Memory.loadLe_storeLe_of_disjoint _ (by omega),
      Memory.loadLe_storeLe_of_disjoint _ (by omega)]
  rw [usedElem, hload _ (by decide), hload _ (by decide), ← usedElem]

theorem publish_frame (m : Memory) (head : BitVec 16) {i : Nat}
    (hi : ¬ (virtqUsedGpa + virtqUsedIdxOffset ≤ i ∧ i < virtqUsedGpa + virtqUsedBytes)) :
    publish m head i = m i := by
  obtain ⟨hidx, hend, -⟩ := usedElemAddr_bounds (ringSlot_lt (usedIdx m))
  simp only [virtqUsedElemSize] at hend
  simp only [publish, Memory.storeLe, virtqUsedElemIdOffset, virtqUsedElemLenOffset]
  rw [Memory.storeBytes_frame _ (by rw [Memory.length_leBytes]; omega),
    Memory.storeBytes_frame _ (by rw [Memory.length_leBytes]; omega),
    Memory.storeBytes_frame _ (by rw [Memory.length_leBytes]; omega)]

/-- Bytes in an entropy buffer publish nothing. -/
theorem published_buffer {before after : Memory} {head : Nat} (hhead : head < virtqSize)
    (hbuffer : ∀ i, i < virtioRngBufferGpa + head * virtioRngBufferStride ∨
      virtioRngBufferGpa + head * virtioRngBufferStride + virtioRngRequestLen ≤ i →
        after i = before i) :
    Published before after [] := by
  have hload : ∀ addr n, addr + n ≤ virtioRngBufferGpa →
      after.loadLe addr n = before.loadLe addr n :=
    fun addr n hle => Memory.loadLe_congr fun i _ hhi => hbuffer i (by omega)
  constructor
  · unfold usedIdx
    rw [hload _ _ (by decide)]
    exact (BitVec.add_zero _).symm
  · intro k hk
    exact absurd hk (Nat.not_lt_zero k)
  · intro slot hslot _
    obtain ⟨-, -, hend⟩ := usedElemAddr_bounds hslot
    simp only [virtqUsedElemSize] at hend
    rw [usedElem, usedElem, hload _ 4 (by simp only [virtqUsedElemIdOffset]; omega),
      hload _ 4 (by simp only [virtqUsedElemLenOffset]; omega)]
  · intro i hi
    apply hbuffer
    by_contra hin
    push Not at hin
    exact hi (.inr ⟨head, hhead, hin⟩)

/-- The stores of a completion publish it. -/
theorem published_publish (m : Memory) (head : BitVec 16) :
    Published m (publish m head) [head] := by
  have hzero : usedIdx m + BitVec.ofNat 16 0 = usedIdx m := BitVec.add_zero _
  constructor
  · exact usedIdx_publish m head
  · intro k hk
    obtain rfl : k = 0 := by simpa using hk
    rw [hzero]
    exact usedElem_publish m head
  · intro slot hslot hne
    have hne := hne 0 (by simp)
    rw [hzero] at hne
    exact usedElem_publish_of_ne m head hslot hne
  · intro i hi
    exact publish_frame m head fun h => hi (.inl h)

/-- Completions after others: while they fill no more than the ring, each keeps its slot. -/
theorem Published.append {before mid after : Memory} {heads heads' : List (BitVec 16)}
    (h : Published before mid heads) (h' : Published mid after heads')
    (hlen : heads.length + heads'.length ≤ virtqSize) :
    Published before after (heads ++ heads') := by
  have hidx : ∀ k : Nat, usedIdx mid + BitVec.ofNat 16 k =
      usedIdx before + BitVec.ofNat 16 (heads.length + k) := by
    intro k
    rw [h.idx, BitVec.add_assoc, BitVec.ofNat_add]
  constructor
  · rw [h'.idx, hidx, List.length_append]
  · intro k hk
    rw [List.length_append] at hk
    by_cases hfirst : k < heads.length
    · -- the later completions are less than a ring ahead
      have hkeep := h'.others (ringSlot (usedIdx before + BitVec.ofNat 16 k)) (ringSlot_lt _)
        (by
          intro j hj
          rw [hidx]
          exact (ringSlot_ne _ (by omega) (by omega)).symm)
      rw [hkeep, h.elems k hfirst, List.getElem_append_left hfirst]
    · obtain ⟨j, rfl⟩ := Nat.exists_eq_add_of_le (Nat.not_lt.mp hfirst)
      rw [← hidx, h'.elems j (by omega), List.getElem_append_right (by omega)]
      simp only [Nat.add_sub_cancel_left]
  · intro slot hslot hne
    rw [List.length_append] at hne
    rw [h'.others slot hslot, h.others slot hslot]
    · intro k hk
      exact hne k (by omega)
    · intro k hk
      rw [hidx]
      exact hne _ (by omega)
  · intro i hi
    rw [h'.frame i hi, h.frame i hi]

/-! ## Rounds of the loop -/

/-- The steps of a completion. -/
theorem publish_entry {src : RandomSource} {dev : VirtioMmioDevice} {mem : Memory} {f : Frame}
    {n : Nat} (hpc : f.pc = .loadUsedIdx) (hused : f.used = virtqUsedGpa)
    (hlen : f.request.len.toNat = virtioRngRequestLen) :
    Call.Reaches src ⟨dev, mem, f, n⟩
      ⟨{ dev with queue := { dev.queue with lastAvailIdx := dev.queue.lastAvailIdx + 1 } },
        publish mem f.head,
        { f with
          oldUsedIdx := usedIdx mem
          slot := usedIdx mem % BitVec.ofNat 16 virtqSize
          pc := .loopTest }, n⟩ := by
  obtain ⟨pc, desc, avail, used, availIdx, slot, head, request, filled, oldUsedIdx⟩ := f
  obtain rfl : pc = .loadUsedIdx := hpc
  obtain rfl : used = virtqUsedGpa := hused
  refine Call.Reaches.next (by simp) rfl ?_
  refine Call.Reaches.next (by simp) rfl ?_
  refine Call.Reaches.next (by simp) rfl ?_
  refine Call.Reaches.next (by simp) rfl ?_
  refine Call.Reaches.next (by simp) rfl ?_
  refine Call.Reaches.next (by simp) rfl ?_
  simp only [Progress.load, Progress.store, Progress.goto, Frame.usedElemAddr, Frame.usedIdxAddr,
    toNat_ringSlot, publish, ← hlen]
  exact .refl

/-- The check of the descriptor. -/
theorem check_request {src : RandomSource} {dev : VirtioMmioDevice} {mem : Memory} {f : Frame}
    {n : Nat} (hpc : f.pc = .checkRequest) :
    Call.Reaches src ⟨dev, mem, f, n⟩
      ⟨dev, mem, { f with pc := if f.requestAccepted then .fill else .returned (-1) }, n⟩ := by
  refine Call.Reaches.next (by simp [hpc]) (p := .goto dev mem f
    (if f.requestAccepted then .fill else .returned (-1))) ?_ .refl
  simp only [processQueue, hpc]
  split <;> rfl

/-- The call gives up on an entry that is not valid, before it has changed anything. -/
theorem refuse_entry (src : RandomSource) {dev : VirtioMmioDevice} {mem : Memory} {f : Frame}
    (n : Nat) (hpc : f.pc = .loopTest) (hrings : f.Rings)
    (hne : dev.queue.lastAvailIdx ≠ f.availIdx)
    (hinvalid : ¬ ValidEntry mem (availRing mem (ringSlot dev.queue.lastAvailIdx))) :
    ∃ f', Call.Reaches src ⟨dev, mem, f, n⟩ ⟨dev, mem, f', n⟩ ∧ f'.pc = .returned (-1) := by
  have hhead := load_head src mem n hpc hrings.2.1 hne
  by_cases hout : virtqSize ≤ (availRing mem (ringSlot dev.queue.lastAvailIdx)).toNat
  · simp only [if_pos hout] at hhead
    exact ⟨_, hhead, rfl⟩
  · simp only [if_neg hout] at hhead
    have hcheck := (hhead.trans (load_request rfl hrings.1)).trans (check_request rfl)
    rw [if_neg] at hcheck
    · exact ⟨_, hcheck, rfl⟩
    · intro hacc
      refine hinvalid ((requestAccepted_iff ?_ ?_).mp hacc)
      · exact Nat.not_le.mp hout
      · rfl

/-- The call gets to `getrandom` with a valid entry. -/
theorem accept_entry (src : RandomSource) {dev : VirtioMmioDevice} {mem : Memory} {f : Frame}
    (n : Nat) (hpc : f.pc = .loopTest) (hrings : f.Rings)
    (hne : dev.queue.lastAvailIdx ≠ f.availIdx)
    (hvalid : ValidEntry mem (availRing mem (ringSlot dev.queue.lastAvailIdx))) :
    let head := availRing mem (ringSlot dev.queue.lastAvailIdx)
    Call.Reaches src ⟨dev, mem, f, n⟩
      ⟨dev, mem, { f with
        slot := dev.queue.lastAvailIdx % BitVec.ofNat 16 virtqSize
        filled := 0
        head := head
        request := descAt mem head.toNat
        pc := .fill }, n⟩ := by
  have hhead := load_head src mem n hpc hrings.2.1 hne
  simp only [if_neg (Nat.not_le.mpr hvalid.1)] at hhead
  have hcheck := (hhead.trans (load_request rfl hrings.1)).trans (check_request rfl)
  rw [if_pos] at hcheck
  · exact hcheck
  · refine (requestAccepted_iff ?_ ?_).mpr hvalid
    · exact hvalid.1
    · rfl

/-- The buffer of a valid entry. -/
theorem ValidEntry.buffer {m : Memory} {head : BitVec 16} (h : ValidEntry m head) :
    (descAt m head.toNat).addr.toNat =
        virtioRngBufferGpa + head.toNat * virtioRngBufferStride ∧
      (descAt m head.toNat).len.toNat = virtioRngRequestLen := by
  have hhead := h.1
  rw [h.2]
  simp only [virtqSize] at hhead
  simp only [virtioRngBufferGpa, virtioRngBufferStride, virtioRngRequestLen, BitVec.toNat_ofNat]
  constructor
  · omega
  · trivial

/-- What `fill` starts from after a valid entry, and what it can change. -/
theorem fill_entry {src : RandomSource} {dev : VirtioMmioDevice} {mem : Memory} {f : Frame}
    {n n' : Nat} {filled : Bool} (hpc : f.pc = .loopTest) (hrings : f.Rings)
    (hne : dev.queue.lastAvailIdx ≠ f.availIdx)
    (hvalid : ValidEntry mem (availRing mem (ringSlot dev.queue.lastAvailIdx)))
    (hfill : Fill src n virtioRngRequestLen filled n') :
    let head := availRing mem (ringSlot dev.queue.lastAvailIdx)
    ∃ mem' f', Call.Reaches src ⟨dev, mem, f, n⟩ ⟨dev, mem', f', n'⟩ ∧
      f'.pc = (if filled then .loadUsedIdx else .returned (-1)) ∧ f'.Rings ∧
      f'.availIdx = f.availIdx ∧ f'.head = head ∧
      f'.request.len.toNat = virtioRngRequestLen ∧
      ∀ i, i < virtioRngBufferGpa + head.toNat * virtioRngBufferStride ∨
        virtioRngBufferGpa + head.toNat * virtioRngBufferStride + virtioRngRequestLen ≤ i →
          mem' i = mem i := by
  intro head
  have haccept := accept_entry src n hpc hrings hne hvalid
  obtain ⟨haddr, hlen⟩ := hvalid.buffer
  obtain ⟨mem', k, hreach, hframe⟩ := fill_reaches hfill dev mem
    (f := { f with
      slot := dev.queue.lastAvailIdx % BitVec.ofNat 16 virtqSize
      filled := 0
      head := head
      request := descAt mem head.toNat
      pc := .fill }) rfl hlen (Nat.zero_le _)
  refine ⟨mem', _, haccept.trans hreach, rfl, hrings, rfl, rfl, hlen, fun i hi => hframe i ?_⟩
  show i < (descAt mem head.toNat).addr.toNat ∨
    (descAt mem head.toNat).addr.toNat + (descAt mem head.toNat).len.toNat ≤ i
  rw [haddr, hlen]
  exact hi

/-- Some entries are always served, possibly none. -/
theorem serves_total (src : RandomSource) (m : Memory) (n : Nat) (pending : List (BitVec 16)) :
    ∃ done, Serves src m n pending done := by
  induction pending generalizing n with
  | nil => exact ⟨[], .all⟩
  | cons head rest ih =>
    by_cases hvalid : ValidEntry m head
    · obtain ⟨filled, n', hfill⟩ := fill_total src n virtioRngRequestLen
      cases filled with
      | true =>
        obtain ⟨done, hserves⟩ := ih n'
        exact ⟨head :: done, .serve hvalid hfill hserves⟩
      | false => exact ⟨[], .starved hvalid hfill⟩
    · exact ⟨[], .invalid hvalid⟩

theorem Serves.isPrefix {src : RandomSource} {m : Memory} {n : Nat}
    {pending done : List (BitVec 16)} (h : Serves src m n pending done) : done <+: pending := by
  induction h with
  | all => exact List.prefix_rfl
  | invalid => exact List.nil_prefix
  | starved => exact List.nil_prefix
  | serve _ _ _ ih => exact (List.prefix_cons_inj _).mpr ih

/-- An index with entries before it is not the next one. -/
theorem index_ne_of_pending {idx last : BitVec 16} {n : Nat} (hidx : idx = last + BitVec.ofNat 16 n)
    (hpos : 0 < n) (hn : n ≤ virtqSize) : last ≠ idx := by
  simp only [virtqSize] at hn
  bv_omega

/-- The device after so many entries. -/
def VirtioMmioDevice.advance (dev : VirtioMmioDevice) (n : Nat) : VirtioMmioDevice :=
  { dev with queue :=
    { dev.queue with lastAvailIdx := dev.queue.lastAvailIdx + BitVec.ofNat 16 n } }

theorem VirtioMmioDevice.advance_zero (dev : VirtioMmioDevice) : dev.advance 0 = dev := by
  simp [advance]

theorem VirtioMmioDevice.advance_advance (dev : VirtioMmioDevice) (n : Nat) :
    (dev.advance 1).advance n = dev.advance (n + 1) := by
  simp only [advance, BitVec.add_assoc, ← BitVec.ofNat_add, Nat.add_comm 1 n]

/-- The loop stands before `pending`, the entries up to the index it has read. -/
structure AtLoop (m : Memory) (c : Call) (pending : List (BitVec 16)) : Prop where
  pc : c.frame.pc = .loopTest
  rings : c.frame.Rings
  mem : ∀ i, ¬ Changeable i → c.mem i = m i
  idx : c.frame.availIdx = c.dev.queue.lastAvailIdx + BitVec.ofNat 16 pending.length
  fits : pending.length ≤ virtqSize
  heads : pending = pendingHeads m c.dev.queue.lastAvailIdx pending.length

namespace AtLoop

variable {m : Memory} {c : Call} {head : BitVec 16} {rest : List (BitVec 16)}

theorem ne (h : AtLoop m c (head :: rest)) : c.dev.queue.lastAvailIdx ≠ c.frame.availIdx :=
  index_ne_of_pending h.idx (Nat.succ_pos _) h.fits

/-- The entry that the next round loads. -/
theorem head_eq (h : AtLoop m c (head :: rest)) :
    availRing c.mem (ringSlot c.dev.queue.lastAvailIdx) = head := by
  rw [(guest_rings_congr h.mem).2 _ (ringSlot_lt _)]
  exact (List.cons.inj h.heads).1.symm

end AtLoop

/-- **Run lemma**: the loop serves the pending entries and returns 0 exactly when it has
    served them all. -/
theorem serve_pending {src : RandomSource} {m : Memory} {n : Nat}
    {pending done : List (BitVec 16)} (hserves : Serves src m n pending done)
    {c : Call} (h : AtLoop m c pending) (hcalls : c.calls = n) :
    ∃ mem' f' n', c.Reaches src ⟨c.dev.advance done.length, mem', f', n'⟩ ∧
      f'.pc = .returned (if done = pending then 0 else -1) ∧ Published c.mem mem' done := by
  induction hserves generalizing c with
  | @all n =>
    have heq : c.dev.queue.lastAvailIdx = c.frame.availIdx := by simpa using h.idx.symm
    refine ⟨c.mem, { c.frame with pc := .returned 0 }, n, ?_, rfl, Published.nil c.mem⟩
    rw [List.length_nil, VirtioMmioDevice.advance_zero, ← hcalls]
    refine Call.Reaches.next (by simp [h.pc]) (p := .goto c.dev c.mem c.frame (.returned 0)) ?_
      .refl
    simp [processQueue, h.pc, heq]
  | @invalid n head rest hinvalid =>
    obtain ⟨f', hreach, hret⟩ := refuse_entry src n h.pc h.rings h.ne
      (by rwa [h.head_eq, validEntry_congr h.mem])
    refine ⟨c.mem, f', n, ?_, by simpa using hret, Published.nil c.mem⟩
    rw [List.length_nil, VirtioMmioDevice.advance_zero]
    subst hcalls
    exact hreach
  | @starved n n' head rest hvalid hfill =>
    obtain ⟨mem', f', hreach, hret, -, -, -, -, hframe⟩ := fill_entry h.pc h.rings h.ne
      (by rwa [h.head_eq, validEntry_congr h.mem]) hfill
    rw [h.head_eq] at hframe
    refine ⟨mem', f', n', ?_, by simpa using hret, published_buffer hvalid.1 hframe⟩
    rw [List.length_nil, VirtioMmioDevice.advance_zero]
    subst hcalls
    exact hreach
  | @serve n n' head rest done hvalid hfill hserves ih =>
    obtain ⟨mem', f', hreach, hpc, hrings, hidx, hhead, hlen, hframe⟩ :=
      fill_entry h.pc h.rings h.ne (by rwa [h.head_eq, validEntry_congr h.mem]) hfill
    rw [h.head_eq] at hframe hhead
    have hround : c.Reaches src ⟨c.dev.advance 1, publish mem' head, { f' with
        oldUsedIdx := usedIdx mem'
        slot := usedIdx mem' % BitVec.ofNat 16 virtqSize
        pc := .loopTest }, n'⟩ := by
      rw [← hhead]
      subst hcalls
      exact hreach.trans (publish_entry hpc hrings.2.2 hlen)
    have hpublished : Published c.mem (publish mem' head) [head] :=
      (published_buffer hvalid.1 hframe).append (published_publish mem' head)
        (by simp [virtqSize])
    obtain ⟨hfirst, hheads⟩ := List.cons.inj h.heads
    have hfits := h.fits
    rw [List.length_cons] at hfits
    obtain ⟨mem'', f'', n'', hreach', hret, hpublished'⟩ := ih
      (c := ⟨c.dev.advance 1, publish mem' head, { f' with
        oldUsedIdx := usedIdx mem'
        slot := usedIdx mem' % BitVec.ofNat 16 virtqSize
        pc := .loopTest }, n'⟩)
      { pc := rfl
        rings := hrings
        mem := fun i hi => (hpublished.frame i hi).trans (h.mem i hi)
        idx := by
          rw [hidx, h.idx, List.length_cons]
          simp only [VirtioMmioDevice.advance, BitVec.add_assoc, ← BitVec.ofNat_add,
            Nat.add_comm 1]
        fits := by omega
        heads := hheads } rfl
    refine ⟨mem'', f'', n'', ?_, by simpa using hret, ?_⟩
    · rw [List.length_cons, ← VirtioMmioDevice.advance_advance]
      exact hround.trans hreach'
    · have hdone := hserves.isPrefix.length_le
      exact hpublished.append hpublished' (by rw [List.length_singleton]; omega)

/-! ## The call -/

/-- The call ends in this state. -/
def Call.Ends (src : RandomSource) (c c' : Call) : Prop :=
  c.Reaches src c' ∧ c'.step src = none

theorem Call.Reaches.ends {src : RandomSource} {c c' : Call} {result : Int}
    (h : c.Reaches src c') (hpc : c'.frame.pc = .returned result) : c.Ends src c' :=
  ⟨h, by simp [Call.step, processQueue, hpc]⟩

/-- The checks before the loop: the number of pending entries decides. -/
theorem enter_loop (src : RandomSource) {dev : VirtioMmioDevice} (mem : Memory) {f : Frame}
    (n : Nat) (hpc : f.pc = .checkReady) (hready : dev.queue.ready ≠ 0)
    (hlayout : dev.queue.FixedLayout) :
    ∃ f', Call.Reaches src ⟨dev, mem, f, n⟩ ⟨dev, mem, f', n⟩ ∧
      f'.pc = (if availIdx mem - dev.queue.lastAvailIdx = 0 then .returned 0
        else if virtqSize < (availIdx mem - dev.queue.lastAvailIdx).toNat then .returned (-1)
        else .loopTest) ∧ f'.Rings ∧ f'.availIdx = availIdx mem := by
  obtain ⟨hsize, hdesc, hdriver, hdevice⟩ := hlayout
  have hload : BitVec.ofNat 16
      (mem.loadLe (dev.queue.driverAddr.toNat + virtqAvailIdxOffset) 2) = availIdx mem := by
    rw [hdriver]
    rfl
  refine ⟨{ f with
      desc := dev.queue.descAddr.toNat
      avail := dev.queue.driverAddr.toNat
      used := dev.queue.deviceAddr.toNat
      availIdx := availIdx mem
      pc := if availIdx mem - dev.queue.lastAvailIdx = 0 then .returned 0
        else if virtqSize < (availIdx mem - dev.queue.lastAvailIdx).toNat then .returned (-1)
        else .loopTest }, ?_, rfl, ⟨hdesc, hdriver, hdevice⟩, rfl⟩
  refine Call.Reaches.next (by simp [hpc]) (p := .goto dev mem f .checkSize) ?_ ?_
  · simp only [processQueue, hpc]
    rw [if_neg hready]
  refine Call.Reaches.next (by simp) (p := .goto dev mem f .translate) ?_ ?_
  · exact if_neg (not_not.mpr hsize)
  refine Call.Reaches.next (by simp) rfl ?_
  refine Call.Reaches.next (by simp) rfl ?_
  simp only [Progress.goto, Progress.load, Frame.availIdxAddr, hload]
  exact .refl

/-- **`process_queue` serves the queue**: on a ready queue of the fixed layout, for every
    guest memory, ring indices and entropy source, the call ends. With more than eight
    entries pending it returns -1 and changes nothing. Else it serves the longest run of
    entries that are valid and get their entropy, publishes exactly these in order, and
    returns 0 if and only if that is all of them. -/
theorem process_queue_serves (src : RandomSource) {dev : VirtioMmioDevice} (mem : Memory)
    {f : Frame} (n : Nat) (hpc : f.pc = .checkReady) (hready : dev.queue.ready ≠ 0)
    (hlayout : dev.queue.FixedLayout) :
    let pending := (availIdx mem - dev.queue.lastAvailIdx).toNat
    let heads := pendingHeads mem dev.queue.lastAvailIdx pending
    (virtqSize < pending → ∃ f', Call.Ends src ⟨dev, mem, f, n⟩ ⟨dev, mem, f', n⟩ ∧
      f'.pc = .returned (-1)) ∧
    (pending ≤ virtqSize → ∃ done mem' f' n',
      Serves src mem n heads done ∧ done <+: heads ∧
      Call.Ends src ⟨dev, mem, f, n⟩ ⟨dev.advance done.length, mem', f', n'⟩ ∧
      f'.pc = .returned (if done = heads then 0 else -1) ∧
      Published mem mem' done ∧ ∀ i < virtqUsedGpa, mem' i = mem i) := by
  intro pending heads
  obtain ⟨f', henter, hpc', hrings, hidx⟩ :=
    enter_loop src mem n hpc hready hlayout
  constructor
  · intro hmany
    have hne : availIdx mem - dev.queue.lastAvailIdx ≠ 0 := by
      intro hzero
      have : pending = 0 := congrArg BitVec.toNat hzero
      omega
    rw [if_neg hne, if_pos hmany] at hpc'
    exact ⟨f', henter.ends hpc', hpc'⟩
  · intro hfew
    obtain ⟨done, hserves⟩ := serves_total src mem n heads
    have hlength : heads.length = pending := length_pendingHeads mem _ pending
    by_cases hzero : availIdx mem - dev.queue.lastAvailIdx = 0
    · -- nothing is pending, and the call returns before its loop
      have hnil : heads = [] := List.length_eq_zero_iff.mp
        (hlength.trans (congrArg BitVec.toNat hzero))
      rw [hnil] at hserves ⊢
      obtain rfl : done = [] := List.prefix_nil.mp hserves.isPrefix
      rw [if_pos hzero] at hpc'
      refine ⟨[], mem, f', n, hserves, List.prefix_rfl, ?_, hpc', Published.nil mem,
        fun _ _ => rfl⟩
      rw [List.length_nil, VirtioMmioDevice.advance_zero]
      exact henter.ends hpc'
    · rw [if_neg hzero, if_neg (Nat.not_lt.mpr hfew)] at hpc'
      have hsum : availIdx mem = dev.queue.lastAvailIdx + BitVec.ofNat 16 heads.length := by
        rw [hlength, BitVec.ofNat_toNat, BitVec.setWidth_eq, BitVec.add_comm,
          BitVec.sub_add_cancel]
      obtain ⟨mem', f'', n', hreach, hret, hpublished⟩ := serve_pending hserves
        (c := ⟨dev, mem, f', n⟩)
        { pc := hpc'
          rings := hrings
          mem := fun _ _ => rfl
          idx := hidx.trans hsum
          fits := hlength ▸ hfew
          heads := by rw [hlength] } rfl
      exact ⟨done, mem', f'', n', hserves, hserves.isPrefix, (henter.trans hreach).ends hret,
        hret, hpublished, fun i hi => hpublished.frame i (not_changeable hi)⟩

/-! ## A call across the wrap of both indices -/

/-- `getrandom` always gives all that is asked for. -/
def steadySource : RandomSource where
  call _ asked := .bytes (List.replicate asked 7)
  bounded := by
    rintro n asked bs ⟨⟩
    simp
  answers n asked := ⟨n, le_rfl, by simp⟩

theorem fill_steadySource {n asked n' : Nat} {filled : Bool}
    (h : Fill steadySource n asked filled n') : filled = true := by
  induction h with
  | complete => rfl
  | bytes _ _ ih => exact ih
  | interrupted hcall => simp [steadySource] at hcall
  | error hcall => simp [steadySource] at hcall
  | zero hcall => simp [steadySource, List.replicate_succ] at hcall

/-- Descriptor 0 is pending, `avail.idx` is 0 and `used.idx` is 65535. -/
def wrappedRequest : Memory := fun i =>
  if i = 0x6002 ∨ i = 0x6003 then 0xff
  else if i = 0x4001 then 0x70
  else if i = 0x4008 then 32
  else if i = 0x400c then 2
  else 0

/-- The device has consumed 65535 entries. -/
def wrappedDevice : VirtioMmioDevice :=
  { readyDevice with queue := { readyDevice.queue with lastAvailIdx := 65535 } }

/-- The entry is taken from slot 7 and completed in slot 7, and both indices go on at 0. -/
theorem process_queue_serves_wrapped :
    ∃ mem' f' n', Call.Ends steadySource ⟨wrappedDevice, wrappedRequest, {}, 0⟩
        ⟨wrappedDevice.advance 1, mem', f', n'⟩ ∧
      f'.pc = .returned 0 ∧ usedIdx mem' = 0 ∧ usedElem mem' 7 = ⟨0, 32⟩ ∧
      (wrappedDevice.advance 1).queue.lastAvailIdx = 0 := by
  obtain ⟨done, mem', f', n', hserves, -, hends, hret, hpublished, -⟩ :=
    (@process_queue_serves steadySource wrappedDevice wrappedRequest {} 0 rfl
      (by decide) (by decide)).2 (by decide)
  have hheads : pendingHeads wrappedRequest wrappedDevice.queue.lastAvailIdx
      (availIdx wrappedRequest - wrappedDevice.queue.lastAvailIdx).toNat = [0] := by decide
  rw [hheads] at hserves hret
  have hdone : done = [0] := by
    cases hserves with
    | invalid hinvalid => exact absurd (by decide) hinvalid
    | starved _ hfill => exact absurd (fill_steadySource hfill) (by decide)
    | serve _ _ hrest =>
      cases hrest
      rfl
  subst hdone
  exact ⟨mem', f', n', hends, by simpa using hret, hpublished.idx.trans (by decide),
    hpublished.elems 0 (by decide), by decide⟩

end LinuxMaxxing.Virtio
