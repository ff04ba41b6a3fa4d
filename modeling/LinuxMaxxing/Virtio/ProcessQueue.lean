import LinuxMaxxing.Lib.Transition
import LinuxMaxxing.Virtio.Layout

/-!
# The Virtqueue Backend

`process_queue` of `rng_virtqueue.c` as a machine that makes at most one access
to guest memory in a step, so that a guest on another thread may change any byte
between two accesses.

- `Frame`: the program counter and the C locals of the call;
- `processQueue`: one step, with the accesses it makes;
- `backend`: the call next to an arbitrary guest, with its access log;
- `BackendInv`: what holds at each program counter, whatever the guest does.

The main result is that the call stays inside guest memory, writes nothing but
the used ring and the entropy buffers, and ends its loop after eight rounds.
-/

namespace LinuxMaxxing.Virtio

open LinuxMaxxing.Lib

/-! ## The call frame -/

/-- Where `process_queue` stands. -/
inductive Pc where
  /-- `!dev->queue.ready`: the first load of the check -/
  | checkReady
  /-- `dev->queue.size != VIRTQ_SIZE`: its second load -/
  | checkSize
  /-- the three GPAs become host addresses -/
  | translate
  /-- `avail_idx = avail->idx` and the test of `pending` -/
  | loadAvailIdx
  /-- `while (dev->queue.last_avail_idx != avail_idx)` -/
  | loopTest
  /-- `slot = dev->queue.last_avail_idx % VIRTQ_SIZE` -/
  | slot
  /-- `head = avail->ring[slot]` and its bound -/
  | loadHead
  /-- `request = desc[head]`, field by field -/
  | loadAddr
  | loadLen
  | loadFlags
  | loadNext
  /-- the descriptor is compared with the expected buffer -/
  | checkRequest
  /-- `while (filled < request.len)` around `getrandom` -/
  | fill
  | loadUsedIdx
  | storeId
  | storeLen
  | storeUsedIdx
  /-- `dev->queue.last_avail_idx++` -/
  | advance
  /-- the trace line at the end of the round reads `used->idx` once more -/
  | report
  | returned (result : Int)
  deriving DecidableEq, Repr

/-- The locals of the call. The ring pointers are offsets from `guest_mem`. -/
structure Frame where
  pc : Pc := .checkReady
  desc : Nat := 0
  avail : Nat := 0
  used : Nat := 0
  availIdx : BitVec 16 := 0
  slot : BitVec 16 := 0
  head : BitVec 16 := 0
  request : VirtqDesc := ⟨0, 0, 0, 0⟩
  filled : Nat := 0
  oldUsedIdx : BitVec 16 := 0
  deriving DecidableEq, Repr

/-- What one `getrandom` call does. -/
inductive GetRandom where
  | eintr
  | error
  /-- that many bytes were written, possibly none -/
  | bytes (bs : List UInt8)
  deriving DecidableEq, Repr

/-- Device, guest memory and the call's frame after a step, and the accesses to
    guest memory made in it. -/
structure Progress where
  dev : VirtioMmioDevice
  mem : Memory
  frame : Frame
  accesses : List Access

/-! ## Addresses -/

namespace Frame

variable (f : Frame)

def availIdxAddr : Nat := f.avail + virtqAvailIdxOffset
def availRingAddr : Nat := f.avail + virtqAvailRingOffset + 2 * f.slot.toNat
def descAddr (offset : Nat) : Nat := f.desc + virtqDescSize * f.head.toNat + offset
def usedIdxAddr : Nat := f.used + virtqUsedIdxOffset

def usedElemAddr (offset : Nat) : Nat :=
  f.used + virtqUsedRingOffset + virtqUsedElemSize * f.slot.toNat + offset

/-- `VIRTIO_RNG_BUFFER_GPA + (uint64_t)head * VIRTIO_RNG_BUFFER_STRIDE` -/
def expectedBuffer : Nat := virtioRngBufferGpa + f.head.toNat * virtioRngBufferStride

/-- The descriptor is the direct writable entropy buffer of its index, and lies
    in guest memory. -/
def requestAccepted : Bool :=
  f.request.addr.toNat = f.expectedBuffer ∧ f.request.len.toNat = virtioRngRequestLen ∧
  f.request.flags = virtqDescFWrite ∧ f.request.next = 0 ∧
  ¬ (virtioGuestMemSize < f.request.addr.toNat ∨
      virtioGuestMemSize - f.request.addr.toNat < f.request.len.toNat)

end Frame

/-! ## One step -/

/-- A step that only changes the frame. -/
@[simps] def Progress.goto (dev : VirtioMmioDevice) (mem : Memory) (f : Frame) (pc : Pc) : Progress :=
  ⟨dev, mem, { f with pc := pc }, []⟩

/-- A step that reads guest memory into the frame. -/
@[simps] def Progress.load (dev : VirtioMmioDevice) (mem : Memory) (f : Frame) (addr len : Nat) :
    Progress :=
  ⟨dev, mem, f, [⟨.read, addr, len⟩]⟩

/-- A step that writes a value to guest memory. -/
@[simps] def Progress.store (dev : VirtioMmioDevice) (mem : Memory) (f : Frame) (addr len v : Nat) :
    Progress :=
  ⟨dev, mem.storeLe addr len v, f, [⟨.write, addr, len⟩]⟩

/-- The `getrandom` loop: what is asked for is the rest of the request. -/
def fillBuffer (dev : VirtioMmioDevice) (mem : Memory) (f : Frame) (r : GetRandom) :
    Option Progress :=
  let addr := f.request.addr.toNat + f.filled
  let rest := f.request.len.toNat - f.filled
  if f.filled < f.request.len.toNat then
    match r with
    | .eintr => some (.goto dev mem f .fill)
    | .error => some (.goto dev mem f (.returned (-1)))
    | .bytes [] => some (.goto dev mem f (.returned (-1)))
    | .bytes bs =>
      if bs.length ≤ rest then
        some ⟨dev, mem.storeBytes addr bs, { f with filled := f.filled + bs.length },
          [⟨.write, addr, bs.length⟩]⟩
      else none
  else some (.goto dev mem f .loadUsedIdx)

/-- One step of `process_queue`; `none` once it has returned. The last argument
    is the outcome of `getrandom`, read at `fill` only. -/
def processQueue (dev : VirtioMmioDevice) (mem : Memory) (f : Frame) (r : GetRandom) :
    Option Progress :=
  match f.pc with
  | .checkReady =>
    if dev.queue.ready = 0 then some (.goto dev mem f (.returned (-1)))
    else some (.goto dev mem f .checkSize)
  | .checkSize =>
    if dev.queue.size.toNat ≠ virtqSize then some (.goto dev mem f (.returned (-1)))
    else some (.goto dev mem f .translate)
  | .translate =>
    some (.goto dev mem { f with
      desc := dev.queue.descAddr.toNat
      avail := dev.queue.driverAddr.toNat
      used := dev.queue.deviceAddr.toNat } .loadAvailIdx)
  | .loadAvailIdx =>
    let availIdx := BitVec.ofNat 16 (mem.loadLe f.availIdxAddr 2)
    let pending := availIdx - dev.queue.lastAvailIdx
    some (.load dev mem { f with
        availIdx := availIdx
        pc := if pending = 0 then .returned 0
          else if virtqSize < pending.toNat then .returned (-1)
          else .loopTest } f.availIdxAddr 2)
  | .loopTest =>
    if dev.queue.lastAvailIdx ≠ f.availIdx then some (.goto dev mem f .slot)
    else some (.goto dev mem f (.returned 0))
  | .slot =>
    some (.goto dev mem { f with
      slot := dev.queue.lastAvailIdx % BitVec.ofNat 16 virtqSize, filled := 0 } .loadHead)
  | .loadHead =>
    let head := BitVec.ofNat 16 (mem.loadLe f.availRingAddr 2)
    some (.load dev mem { f with
        head := head
        pc := if virtqSize ≤ head.toNat then .returned (-1) else .loadAddr }
      f.availRingAddr 2)
  | .loadAddr =>
    let addr := f.descAddr virtqDescAddrOffset
    some (.load dev mem { f with
        request := { f.request with addr := BitVec.ofNat 64 (mem.loadLe addr 8) }
        pc := .loadLen } addr 8)
  | .loadLen =>
    let addr := f.descAddr virtqDescLenOffset
    some (.load dev mem { f with
        request := { f.request with len := BitVec.ofNat 32 (mem.loadLe addr 4) }
        pc := .loadFlags } addr 4)
  | .loadFlags =>
    let addr := f.descAddr virtqDescFlagsOffset
    some (.load dev mem { f with
        request := { f.request with flags := BitVec.ofNat 16 (mem.loadLe addr 2) }
        pc := .loadNext } addr 2)
  | .loadNext =>
    let addr := f.descAddr virtqDescNextOffset
    some (.load dev mem { f with
        request := { f.request with next := BitVec.ofNat 16 (mem.loadLe addr 2) }
        pc := .checkRequest } addr 2)
  | .checkRequest =>
    if f.requestAccepted then some (.goto dev mem f .fill)
    else some (.goto dev mem f (.returned (-1)))
  | .fill => fillBuffer dev mem f r
  | .loadUsedIdx =>
    let oldUsedIdx := BitVec.ofNat 16 (mem.loadLe f.usedIdxAddr 2)
    some (.load dev mem { f with
        oldUsedIdx := oldUsedIdx
        slot := oldUsedIdx % BitVec.ofNat 16 virtqSize
        pc := .storeId } f.usedIdxAddr 2)
  | .storeId =>
    some (.store dev mem { f with pc := .storeLen } (f.usedElemAddr virtqUsedElemIdOffset) 4
      f.head.toNat)
  | .storeLen =>
    some (.store dev mem { f with pc := .storeUsedIdx } (f.usedElemAddr virtqUsedElemLenOffset)
      4 f.request.len.toNat)
  | .storeUsedIdx =>
    some (.store dev mem { f with pc := .advance } f.usedIdxAddr 2 (f.oldUsedIdx + 1).toNat)
  | .advance =>
    some (.goto { dev with
      queue := { dev.queue with lastAvailIdx := dev.queue.lastAvailIdx + 1 } } mem f .report)
  | .report => some (.load dev mem { f with pc := .loopTest } f.usedIdxAddr 2)
  | .returned _ => none

/-! ## What holds at each program counter -/

/-- The ring pointers are those of the fixed layout. -/
def Frame.Rings (f : Frame) : Prop :=
  f.desc = virtqDescGpa ∧ f.avail = virtqAvailGpa ∧ f.used = virtqUsedGpa

/-- What the call knows at its program counter. Nothing here speaks of guest
    memory, so nothing here can be undone by the guest. -/
def Known (dev : VirtioMmioDevice) (f : Frame) : Prop :=
  match f.pc with
  | .checkReady | .returned _ => True
  | .checkSize | .translate => dev.queue.FixedLayout
  | .loadAvailIdx | .loopTest | .slot | .loadUsedIdx | .storeUsedIdx | .advance | .report =>
    f.Rings
  | .loadHead | .storeId | .storeLen => f.Rings ∧ f.slot.toNat < virtqSize
  | .loadAddr | .loadLen | .loadFlags | .loadNext | .checkRequest =>
    f.Rings ∧ f.head.toNat < virtqSize
  | .fill =>
    f.Rings ∧ f.head.toNat < virtqSize ∧ f.request.addr.toNat = f.expectedBuffer ∧
      f.request.len.toNat = virtioRngRequestLen

/-- The byte range the backend may write: the used ring or one of the eight
    entropy buffers. -/
def Writable (a : Access) : Prop :=
  a.Within virtqUsedGpa virtqUsedBytes ∨
  ∃ head < virtqSize,
    a.Within (virtioRngBufferGpa + head * virtioRngBufferStride) virtioRngRequestLen

/-- An access that stays in guest memory and writes only where it may. -/
structure Confined (a : Access) : Prop where
  inside : a.Within 0 virtioGuestMemSize
  writable : a.dir = .write → Writable a

theorem Confined.read {addr len : Nat} (h : addr + len ≤ virtioGuestMemSize) :
    Confined ⟨.read, addr, len⟩ := by
  refine ⟨⟨Nat.zero_le _, ?_⟩, by simp⟩
  show addr + len ≤ 0 + virtioGuestMemSize
  omega

theorem Confined.write {addr len : Nat} (h : Writable ⟨.write, addr, len⟩) :
    Confined ⟨.write, addr, len⟩ := by
  refine ⟨⟨Nat.zero_le _, ?_⟩, fun _ => h⟩
  rcases h with ⟨_, hhi⟩ | ⟨head, hhead, _, hhi⟩
  · simp only [virtqUsedGpa, virtqUsedBytes, virtqSize, virtqUsedElemSize,
      virtioGuestMemSize] at hhi ⊢
    omega
  · simp only [virtqSize, virtioRngBufferGpa, virtioRngBufferStride, virtioRngRequestLen,
      virtioGuestMemSize] at hhead hhi ⊢
    omega

/-- A ring index is taken modulo the queue size. -/
theorem slot_lt (idx : BitVec 16) : (idx % BitVec.ofNat 16 virtqSize).toNat < virtqSize := by
  rw [BitVec.toNat_umod]
  exact Nat.mod_lt _ (by decide)

variable {dev : VirtioMmioDevice} {mem : Memory} {f : Frame} {r : GetRandom} {p : Progress}

/-- What a step at `fill` can do: wait on, give up, go on with the completion, or
    write some of the requested bytes. -/
theorem fillBuffer_cases (hs : fillBuffer dev mem f r = some p) :
    p = .goto dev mem f .fill ∨ p = .goto dev mem f (.returned (-1)) ∨
    p = .goto dev mem f .loadUsedIdx ∨
    ∃ bs : List UInt8, f.filled + bs.length ≤ f.request.len.toNat ∧
      p = ⟨dev, mem.storeBytes (f.request.addr.toNat + f.filled) bs,
        { f with filled := f.filled + bs.length },
        [⟨.write, f.request.addr.toNat + f.filled, bs.length⟩]⟩ := by
  simp only [fillBuffer] at hs
  split at hs
  · next hlt =>
    split at hs
    · cases hs
      exact .inl rfl
    · cases hs
      exact .inr (.inl rfl)
    · cases hs
      exact .inr (.inl rfl)
    · next bs _ =>
      split at hs
      · cases hs
        exact .inr (.inr (.inr ⟨bs, by omega, rfl⟩))
      · cases hs
  · cases hs
    exact .inr (.inr (.inl rfl))

/-- Consuming an entry does not touch the layout of the queue. -/
theorem VirtioQueue.ReadyFixed.advance {q : VirtioQueue} (h : q.ReadyFixed) (idx : BitVec 16) :
    VirtioQueue.ReadyFixed { q with lastAvailIdx := idx } := by
  intro hne
  obtain ⟨hsize, hdesc, hdriver, hdevice⟩ := h hne
  exact ⟨hsize, hdesc, hdriver, hdevice⟩

/-- A step leaves the device as it is, except for `last_avail_idx`. -/
theorem processQueue_dev (hs : processQueue dev mem f r = some p) :
    p.dev = { dev with queue := { dev.queue with lastAvailIdx := p.dev.queue.lastAvailIdx } } := by
  cases hpc : f.pc <;> simp only [processQueue, hpc, Option.some.injEq] at hs
  case checkReady | checkSize | loopTest | checkRequest => split at hs <;> cases hs <;> rfl
  case fill => rcases fillBuffer_cases hs with rfl | rfl | rfl | ⟨bs, _, rfl⟩ <;> rfl
  case returned => cases hs
  all_goals
    subst hs
    rfl

/-- **The call keeps what it knows**, whatever bytes it reads. -/
theorem Known.processQueue (hready : dev.queue.ReadyFixed) (h : Known dev f)
    (hs : processQueue dev mem f r = some p) : Known p.dev p.frame := by
  cases hpc : f.pc <;> simp only [Virtio.processQueue, Known, hpc, Option.some.injEq] at hs h
  case checkReady =>
    -- a ready queue has the fixed layout: this is where the call relies on it
    split at hs
    · cases hs
      trivial
    · next hpass =>
      cases hs
      exact hready hpass
  case checkSize =>
    split at hs
    · cases hs
      trivial
    · cases hs
      exact h
  case translate =>
    subst hs
    exact ⟨h.desc, h.driver, h.device⟩
  case loadAvailIdx =>
    subst hs
    simp only [Known, Progress.load_frame]
    split_ifs
    · trivial
    · trivial
    · exact h
  case loopTest =>
    split at hs
    · cases hs
      exact h
    · cases hs
      trivial
  case slot =>
    subst hs
    exact ⟨h, slot_lt _⟩
  case loadHead =>
    subst hs
    simp only [Known, Progress.load_frame]
    split_ifs with hbig
    · trivial
    · exact ⟨h.1, Nat.lt_of_not_le hbig⟩
  case checkRequest =>
    split at hs
    · next hacc =>
      cases hs
      simp only [Frame.requestAccepted, decide_eq_true_eq] at hacc
      exact ⟨h.1, h.2, hacc.1, hacc.2.1⟩
    · cases hs
      trivial
  case fill =>
    -- only `filled` and the program counter change
    rcases fillBuffer_cases hs with rfl | rfl | rfl | ⟨bs, _, rfl⟩
    · exact h
    · trivial
    · exact h.1
    · simp only [Known, hpc]
      exact h
  case loadUsedIdx =>
    subst hs
    exact ⟨h, slot_lt _⟩
  case storeLen =>
    subst hs
    exact h.1
  case returned => cases hs
  all_goals
    subst hs
    exact h

/-- Reading a field of a descriptor in the table. -/
theorem confined_desc {offset len : Nat} (hdesc : f.desc = virtqDescGpa)
    (hhead : f.head.toNat < virtqSize) (hfit : offset + len ≤ virtqDescSize) :
    Confined ⟨.read, f.descAddr offset, len⟩ := by
  apply Confined.read
  simp only [Frame.descAddr, hdesc, virtqDescGpa, virtqDescSize, virtioGuestMemSize,
    virtqSize] at *
  omega

/-- Writing a field of a used element in the ring. -/
theorem confined_usedElem {offset len : Nat} (hused : f.used = virtqUsedGpa)
    (hslot : f.slot.toNat < virtqSize) (hfit : offset + len ≤ virtqUsedElemSize) :
    Confined ⟨.write, f.usedElemAddr offset, len⟩ := by
  apply Confined.write
  left
  simp only [Access.Within, Frame.usedElemAddr, hused, virtqUsedGpa, virtqUsedRingOffset,
    virtqUsedElemSize, virtqUsedBytes, virtqSize] at *
  omega

/-- Writing into the entropy buffer the head names. -/
theorem confined_buffer {filled n : Nat} (hhead : f.head.toNat < virtqSize)
    (haddr : f.request.addr.toNat = f.expectedBuffer)
    (hfit : filled + n ≤ virtioRngRequestLen) :
    Confined ⟨.write, f.request.addr.toNat + filled, n⟩ := by
  apply Confined.write
  right
  refine ⟨f.head.toNat, hhead, ?_, ?_⟩
  · simp only [haddr, Frame.expectedBuffer]
    omega
  · simp only [haddr, Frame.expectedBuffer]
    omega

/-- **Every access is confined**: the call knows enough at each program counter. -/
theorem Known.confined (h : Known dev f) (hs : Virtio.processQueue dev mem f r = some p) :
    ∀ a ∈ p.accesses, Confined a := by
  cases hpc : f.pc <;> simp only [Virtio.processQueue, Known, hpc, Option.some.injEq] at hs h
  case checkReady | checkSize | loopTest | checkRequest =>
    split at hs <;> cases hs <;> simp
  case loadAvailIdx =>
    subst hs
    simp only [Progress.load_accesses, List.mem_singleton, forall_eq]
    apply Confined.read
    rw [Frame.availIdxAddr, h.2.1]
    decide
  case loadHead =>
    subst hs
    simp only [Progress.load_accesses, List.mem_singleton, forall_eq]
    apply Confined.read
    obtain ⟨⟨_, havail, _⟩, hslot⟩ := h
    simp only [Frame.availRingAddr, havail, virtqAvailGpa, virtqAvailRingOffset,
      virtioGuestMemSize, virtqSize] at *
    omega
  case loadAddr | loadLen | loadFlags | loadNext =>
    subst hs
    simp only [Progress.load_accesses, List.mem_singleton, forall_eq]
    exact confined_desc h.1.1 h.2 (by decide)
  case loadUsedIdx | report =>
    subst hs
    simp only [Progress.load_accesses, List.mem_singleton, forall_eq]
    apply Confined.read
    rw [Frame.usedIdxAddr, h.2.2]
    decide
  case fill =>
    obtain ⟨_, hhead, haddr, hlen⟩ := h
    rcases fillBuffer_cases hs with rfl | rfl | rfl | ⟨bs, hfit, rfl⟩
    case inr.inr.inr =>
      simp only [List.mem_singleton, forall_eq]
      exact confined_buffer hhead haddr (by omega)
    all_goals simp
  case storeId | storeLen =>
    subst hs
    simp only [Progress.store_accesses, List.mem_singleton, forall_eq]
    exact confined_usedElem h.1.2.2 h.2 (by decide)
  case storeUsedIdx =>
    subst hs
    simp only [Progress.store_accesses, List.mem_singleton, forall_eq]
    apply Confined.write
    left
    rw [Frame.usedIdxAddr, h.2.2]
    decide
  case returned => cases hs
  all_goals
    subst hs
    simp

/-- A step changes guest memory only at the bytes of its write accesses. -/
theorem processQueue_frame (hs : processQueue dev mem f r = some p) {i : Nat}
    (hout : ∀ a ∈ p.accesses, a.dir = .write → ¬ a.Touches i) : p.mem i = mem i := by
  cases hpc : f.pc <;> simp only [processQueue, hpc, Option.some.injEq] at hs
  case checkReady | checkSize | loopTest | checkRequest => split at hs <;> cases hs <;> rfl
  case fill =>
    rcases fillBuffer_cases hs with rfl | rfl | rfl | ⟨bs, _, rfl⟩
    case inr.inr.inr =>
      have hnot := hout _ (List.mem_singleton_self _) rfl
      simp only [Access.Touches] at hnot
      exact Memory.storeBytes_frame _ (by omega)
    all_goals rfl
  case storeId | storeLen | storeUsedIdx =>
    subst hs
    have hnot := hout _ (List.mem_singleton_self _) rfl
    simp only [Access.Touches] at hnot
    exact Memory.storeBytes_frame _ (by rw [Memory.length_leBytes]; omega)
  case returned => cases hs
  all_goals
    subst hs
    rfl

/-! ## Rounds of the loop -/

/-- Entries between `last_avail_idx` and the index read at the start. -/
def outstanding (dev : VirtioMmioDevice) (f : Frame) : Nat :=
  (f.availIdx - dev.queue.lastAvailIdx).toNat

/-- After `n` rounds at most `8 - n` entries are outstanding; inside a round its
    own entry is still among them. -/
def RoundsInv (dev : VirtioMmioDevice) (f : Frame) (n : Nat) : Prop :=
  match f.pc with
  | .checkReady | .checkSize | .translate | .loadAvailIdx => n = 0
  | .loopTest | .report => n + outstanding dev f ≤ virtqSize
  | .returned _ => n ≤ virtqSize
  | _ => 0 < outstanding dev f ∧ n + outstanding dev f ≤ virtqSize + 1

theorem RoundsInv.bound {n : Nat} (h : RoundsInv dev f n) : n ≤ virtqSize := by
  unfold RoundsInv at h
  split at h <;> omega

/-- The step enters a round of the loop. -/
def startsRound (f f' : Frame) : Bool := f.pc = .loopTest ∧ f'.pc = .slot

theorem not_startsRound {f' : Frame} (h : f.pc ≠ .loopTest) : ¬ startsRound f f' := by
  simp [startsRound, h]

/-- An index that differs from the target comes one closer to it when it
    advances. -/
theorem outstanding_advance {target idx : BitVec 16} (h : 0 < (target - idx).toNat) :
    (target - (idx + 1)).toNat + 1 = (target - idx).toNat := by
  bv_omega

theorem outstanding_pos {target idx : BitVec 16} (h : idx ≠ target) :
    0 < (target - idx).toNat := by
  bv_omega

/-- **A round per entry**: the loop starts a round only with an entry outstanding
    and takes one away in it. -/
theorem RoundsInv.processQueue {n : Nat} (h : RoundsInv dev f n)
    (hs : Virtio.processQueue dev mem f r = some p) :
    RoundsInv p.dev p.frame (if startsRound f p.frame then n + 1 else n) := by
  have hbound := h.bound
  by_cases hloop : f.pc = .loopTest
  · -- the only step that starts a round
    simp only [Virtio.processQueue, RoundsInv, hloop] at hs h
    split at hs
    · next hne =>
      cases hs
      have hpos : 0 < outstanding dev f := outstanding_pos hne
      rw [if_pos (by simp [startsRound, hloop])]
      refine ⟨hpos, ?_⟩
      show n + 1 + outstanding dev f ≤ virtqSize + 1
      omega
    · cases hs
      rw [if_neg (by simp [startsRound])]
      exact hbound
  rw [if_neg (not_startsRound hloop)]
  cases hpc : f.pc <;> simp only [Virtio.processQueue, RoundsInv, hpc, Option.some.injEq] at hs h
  case loopTest => exact absurd hpc hloop
  case checkReady | checkSize =>
    split at hs
    · cases hs
      exact hbound
    · cases hs
      exact h
  case checkRequest =>
    split at hs
    · cases hs
      exact h
    · cases hs
      exact hbound
  case loadAvailIdx =>
    subst hs
    simp only [RoundsInv, Progress.load_frame, Progress.load_dev]
    split_ifs with hnone hmany
    · exact hbound
    · exact hbound
    · simp only [h, Nat.zero_add]
      exact Nat.le_of_not_lt hmany
  case loadHead =>
    subst hs
    simp only [RoundsInv, Progress.load_frame, Progress.load_dev]
    split_ifs
    · exact hbound
    · exact h
  case fill =>
    rcases fillBuffer_cases hs with rfl | rfl | rfl | ⟨bs, _, rfl⟩
    · exact h
    · exact hbound
    · exact h
    · simp only [RoundsInv, hpc]
      exact h
  case advance =>
    subst hs
    obtain ⟨hpos, hle⟩ := h
    have hadv := outstanding_advance hpos
    show n + (f.availIdx - (dev.queue.lastAvailIdx + 1)).toNat ≤ virtqSize
    unfold outstanding at hle
    omega
  case returned => cases hs
  all_goals
    subst hs
    exact h

/-! ## The call next to an arbitrary guest -/

/-- The call of `process_queue`, guest memory and what the call has done. -/
structure Backend where
  dev : VirtioMmioDevice
  mem : Memory
  frame : Frame
  log : List Access
  iterations : Nat

/-- Who moves. -/
inductive BackendAct where
  /-- the guest stores a byte to its memory -/
  | guest (addr : Nat) (byte : UInt8)
  /-- the call makes a step -/
  | run (r : GetRandom)

/-- One step of the call or of the guest. -/
def Backend.step (s : Backend) : BackendAct → Option Backend
  | .guest addr byte =>
    if addr < virtioGuestMemSize then
      some { s with mem := s.mem.storeBytes addr [byte] }
    else none
  | .run r =>
    (processQueue s.dev s.mem s.frame r).map fun p =>
      { dev := p.dev
        mem := p.mem
        frame := p.frame
        log := s.log ++ p.accesses
        iterations := if startsRound s.frame p.frame then s.iterations + 1 else s.iterations }

/-- The call starts on any device whose ready queue has the fixed layout and on
    any guest memory; its locals are not initialised. -/
def backend : System Backend BackendAct where
  init s := s.dev.queue.ReadyFixed ∧ s.frame.pc = .checkReady ∧ s.log = [] ∧ s.iterations = 0
  step := Backend.step

/-- The invariant of the call next to its guest. -/
structure BackendInv (s : Backend) : Prop where
  readyFixed : s.dev.queue.ReadyFixed
  known : Known s.dev s.frame
  rounds : RoundsInv s.dev s.frame s.iterations
  log : ∀ a ∈ s.log, Confined a

theorem BackendInv.init {s : Backend} (h : backend.init s) : BackendInv s := by
  obtain ⟨hready, hpc, hlog, hiter⟩ := h
  exact ⟨hready, by simp [Known, hpc], by simp [RoundsInv, hpc, hiter], by simp [hlog]⟩

theorem BackendInv.step {s s' : Backend} {a : BackendAct} (h : BackendInv s)
    (hs : s.step a = some s') : BackendInv s' := by
  cases a with
  | guest addr byte =>
    simp only [Backend.step] at hs
    split at hs
    · cases hs
      exact ⟨h.readyFixed, h.known, h.rounds, h.log⟩
    · cases hs
  | run r =>
    simp only [Backend.step, Option.map_eq_some_iff] at hs
    obtain ⟨p, hp, rfl⟩ := hs
    refine ⟨?_, h.known.processQueue h.readyFixed hp, h.rounds.processQueue hp, fun a ha => ?_⟩
    · rw [processQueue_dev hp]
      exact h.readyFixed.advance _
    · rcases List.mem_append.mp ha with hold | hnew
      · exact h.log a hold
      · exact h.known.confined hp a hnew

/-- The invariant holds whatever the guest does between two accesses. -/
theorem backendInv {s : Backend} (h : backend.Reachable s) : BackendInv s :=
  h.invariant BackendInv (fun _ => .init) (fun _ _ _ hinv _ hs => hinv.step hs)

/-- **`process_queue` is confined**: for every guest that changes any byte between
    any two accesses, every access lies inside guest memory, every write access in
    the used ring or an entropy buffer, and the loop makes at most eight rounds.
    The bytes a step changes are those of its write accesses. -/
theorem process_queue_confined {s : Backend} (h : backend.Reachable s) :
    (∀ a ∈ s.log, a.Within 0 virtioGuestMemSize) ∧
    (∀ a ∈ s.log, a.dir = .write → Writable a) ∧
    s.iterations ≤ virtqSize ∧
    ∀ r s', s.step (.run r) = some s' → ∀ i, s'.mem i ≠ s.mem i →
      ∃ a ∈ s'.log, a.dir = .write ∧ a.Touches i := by
  have hinv := backendInv h
  refine ⟨fun a ha => (hinv.log a ha).inside, fun a ha => (hinv.log a ha).writable,
    hinv.rounds.bound, fun r s' hs i hne => ?_⟩
  simp only [Backend.step, Option.map_eq_some_iff] at hs
  obtain ⟨p, hp, rfl⟩ := hs
  by_contra hno
  refine hne (processQueue_frame hp fun a ha hdir htouch => hno ⟨a, ?_, hdir, htouch⟩)
  exact List.mem_append_right _ ha

/-! ## A concrete call -/

/-- A guest with one request: descriptor 0 names the first entropy buffer. -/
def oneRequest : Memory := fun i =>
  if i = 0x5002 then 1
  else if i = 0x4001 then 0x70
  else if i = 0x4008 then 32
  else if i = 0x400c then 2
  else 0

/-- The device after the guest has set its queue up. -/
def readyDevice : VirtioMmioDevice where
  status := virtioStatusOperational
  driverFeatures1 := virtioFVersion1Mask
  queue :=
    { size := 8, ready := 1, descAddr := 0x4000, driverAddr := 0x5000, deviceAddr := 0x6000 }

/-- The guest moves `used.idx` to 7 while the call is between two accesses. -/
def oneRequestRun : List BackendAct :=
  List.replicate 12 (.run .eintr) ++
  [.run (.bytes (List.replicate 20 7)), .guest 0x6002 7, .run (.bytes (List.replicate 12 9))] ++
  List.replicate 8 (.run .eintr)

theorem process_queue_confined_oneRequest :
    ∃ s, backend.Reachable s ∧ s.frame.pc = .returned 0 ∧ s.iterations = 1 ∧
      (∀ a ∈ s.log, a.dir = .write → Writable a) ∧ ⟨.write, 0x603c, 4⟩ ∈ s.log := by
  obtain ⟨s, hrun, hpc, hiter, hmem⟩ :
      ∃ s ∈ backend.exec ⟨readyDevice, oneRequest, {}, [], 0⟩ oneRequestRun,
        s.frame.pc = .returned 0 ∧ s.iterations = 1 ∧ ⟨.write, 0x603c, 4⟩ ∈ s.log := by
    decide +kernel
  have hreach : backend.Reachable s :=
    System.reachable_of_exec ⟨by decide, rfl, rfl, rfl⟩ hrun
  exact ⟨s, hreach, hpc, hiter, (process_queue_confined hreach).2.1, hmem⟩

end LinuxMaxxing.Virtio
