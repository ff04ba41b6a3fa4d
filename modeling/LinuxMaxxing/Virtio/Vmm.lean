import LinuxMaxxing.Virtio.Registers

/-!
# Two Notification Paths

The VMM of `vmm.c` and the backend worker of `rng_virtqueue.c` as two threads
over one device and one guest memory.

- the *slow path*: a QueueNotify write exits to userspace and `write_register`
  runs `process_queue` on the vCPU thread;
- the *fast path*: after the second QueueNotify exit the VMM registers an
  ioeventfd; from then on a QueueNotify write only raises the eventfd, and the
  worker runs `process_queue` through `process_ioeventfd_kick`.

The slow path checks status and readiness in `write_register`. The fast path has
only `process_queue`'s own check, which does not look at the status: this module
says when the two admit the same work.
-/

namespace LinuxMaxxing.Virtio

open LinuxMaxxing.Lib

/-! ## State -/

/-- Where the vCPU thread stands. -/
inductive VcpuPc where
  /-- in `KVM_RUN` -/
  | guest
  /-- a QueueNotify write is in `process_queue` -/
  | processQueue (f : Frame)
  /-- the MMIO exit was handled; the test for registering the ioeventfd is next -/
  | handled
  /-- the loop was left, the worker has not been told -/
  | left
  /-- `stop` is set and the wake has been written; waiting for the worker -/
  | joining
  deriving DecidableEq, Repr

/-- Where `virtio_backend_worker` stands. -/
inductive WorkerPc where
  | notStarted
  /-- in `read(kick_fd)` -/
  | read
  /-- the test of `stop` after a read of `count` -/
  | checkStop (count : Nat)
  /-- `process_ioeventfd_kick(count)` is entered -/
  | kick (count : Nat)
  | processQueue (f : Frame)
  /-- `dev->queue.last_avail_idx != VIRTIO_TOTAL_REQUEST_COUNT` -/
  | checkIndex
  /-- `used->idx != VIRTIO_TOTAL_REQUEST_COUNT` -/
  | checkUsed
  /-- InterruptStatus is published -/
  | interrupt
  /-- `signal_irqfd_completion` -/
  | signal
  | exited
  deriving DecidableEq, Repr

/-- The VMM process. -/
structure Vmm where
  dev : VirtioMmioDevice
  mem : Memory
  vcpu : VcpuPc
  worker : WorkerPc
  queueNotifyExits : Nat
  ioeventfdRegistered : Bool
  /-- counter of the kick eventfd -/
  kickCount : Nat
  stop : Bool

/-- Who moves, with the choices of the environment. -/
inductive VmmAct where
  /-- the guest stores a byte -/
  | store (addr : Nat) (byte : UInt8)
  /-- the guest writes to an MMIO address -/
  | mmioWrite (address : BitVec 64) (len : Nat) (value : BitVec 32)
  | mmioRead (address : BitVec 64) (len : Nat)
  /-- any other exit of `KVM_RUN`: each of them leaves the loop -/
  | exit
  /-- the vCPU thread goes on in userspace; `ok` is whether the calls that set up
      the ioeventfd, the irqfd and the worker succeed -/
  | vcpu (r : GetRandom) (ok : Bool)
  /-- the worker goes on; `ok` is whether its `read` or `write` succeeds -/
  | worker (r : GetRandom) (ok : Bool)
  deriving DecidableEq, Repr

/-! ## MMIO exits -/

/-- The accesses `do_mmio` accepts. -/
def mmioValid (address : BitVec 64) (len : Nat) : Bool :=
  virtioMmioBase ≤ address.toNat ∧ address.toNat ≤ virtioMmioBase + virtioMmioSize - 4 ∧
  len = 4 ∧ address &&& 3 = 0

/-- `(uint32_t)(address - VIRTIO_MMIO_BASE)` -/
def mmioOffset (address : BitVec 64) : BitVec 32 :=
  (address - BitVec.ofNat 64 virtioMmioBase).setWidth 32

def isQueueNotify (address : BitVec 64) : Bool :=
  address.toNat = virtioMmioBase + virtioMmioQueueNotify.toNat

/-- The write matches the registered ioeventfd (address, length and datamatch) and
    does not exit to userspace. -/
def Vmm.intercepted (s : Vmm) (address : BitVec 64) (len : Nat) (value : BitVec 32) : Bool :=
  s.ioeventfdRegistered ∧ isQueueNotify address ∧ len = 4 ∧ value = virtioRngQueueIndex

/-- `do_mmio` for a write. -/
def Vmm.doMmioWrite (s : Vmm) (address : BitVec 64) (len : Nat) (value : BitVec 32) : Vmm :=
  if mmioValid address len then
    match writeRegister s.dev (mmioOffset address) value with
    | .done dev result => { s with dev := dev, vcpu := if result < 0 then .left else .handled }
    | .processQueue => { s with vcpu := .processQueue {} }
  else { s with vcpu := .left }

/-- A write to an MMIO address: an eventfd kick or an exit to the VMM loop. -/
def Vmm.mmioWrite (s : Vmm) (address : BitVec 64) (len : Nat) (value : BitVec 32) : Vmm :=
  if s.intercepted address len value then { s with kickCount := s.kickCount + 1 }
  else if isQueueNotify address then
    -- a notify that still exits although the ioeventfd is registered ends the run
    if s.ioeventfdRegistered then
      { s with queueNotifyExits := s.queueNotifyExits + 1, vcpu := .left }
    else { s with queueNotifyExits := s.queueNotifyExits + 1 }.doMmioWrite address len value
  else s.doMmioWrite address len value

/-- A read from an MMIO address; the value goes to the guest. -/
def Vmm.mmioRead (s : Vmm) (address : BitVec 64) (len : Nat) : Vmm :=
  if mmioValid address len ∧ (readRegister s.dev (mmioOffset address)).isSome then
    { s with vcpu := .handled }
  else { s with vcpu := .left }

/-! ## The two threads -/

/-- Phase C is complete: five requests published, used and consumed. -/
def Vmm.phaseCComplete (s : Vmm) : Bool :=
  BitVec.ofNat 16 (s.mem.loadLe (virtqAvailGpa + virtqAvailIdxOffset) 2) =
      virtioRngRequestCount ∧
  BitVec.ofNat 16 (s.mem.loadLe (virtqUsedGpa + virtqUsedIdxOffset) 2) =
      virtioRngRequestCount ∧
  s.dev.queue.lastAvailIdx = virtioRngRequestCount

/-- The vCPU thread in userspace. -/
def Vmm.vcpuStep (s : Vmm) (r : GetRandom) (ok : Bool) : Option Vmm :=
  match s.vcpu with
  | .guest | .joining => none
  | .processQueue f =>
    (processQueue s.dev s.mem f r).map fun p =>
      { s with
        dev := p.dev
        mem := p.mem
        vcpu :=
          match p.frame.pc with
          | .returned result => if result < 0 then .left else .handled
          | _ => .processQueue p.frame }
  | .handled =>
    if s.queueNotifyExits = 2 ∧ ¬ s.ioeventfdRegistered then
      if s.phaseCComplete ∧ ok then
        some { s with ioeventfdRegistered := true, worker := .read, vcpu := .guest }
      else some { s with vcpu := .left }
    else some { s with vcpu := .guest }
  | .left =>
    -- the ioeventfd is deassigned; a started worker is told to stop
    some { s with
      vcpu := .joining
      stop := true
      kickCount := if s.worker = .notStarted then s.kickCount else s.kickCount + 1 }

/-- `virtio_backend_worker` with `process_ioeventfd_kick` and
    `signal_irqfd_completion`. -/
def Vmm.workerStep (s : Vmm) (r : GetRandom) (ok : Bool) : Option Vmm :=
  match s.worker with
  | .notStarted | .exited => none
  | .read =>
    if ok then
      if s.kickCount = 0 then none
      else some { s with kickCount := 0, worker := .checkStop s.kickCount }
    else some { s with worker := .exited }
  | .checkStop count => some { s with worker := if s.stop then .exited else .kick count }
  | .kick count => some { s with worker := if count ≠ 1 then .exited else .processQueue {} }
  | .processQueue f =>
    (processQueue s.dev s.mem f r).map fun p =>
      { s with
        dev := p.dev
        mem := p.mem
        worker :=
          match p.frame.pc with
          | .returned result => if result < 0 then .exited else .checkIndex
          | _ => .processQueue p.frame }
  | .checkIndex =>
    some { s with
      worker := if s.dev.queue.lastAvailIdx ≠ virtioTotalRequestCount then .exited
        else .checkUsed }
  | .checkUsed =>
    let idx := BitVec.ofNat 16 (s.mem.loadLe (virtqUsedGpa + virtqUsedIdxOffset) 2)
    some { s with worker := if idx ≠ virtioTotalRequestCount then .exited else .interrupt }
  | .interrupt =>
    some { s with
      dev := { s.dev with interruptStatus := s.dev.interruptStatus ||| virtioMmioIntVring }
      worker := .signal }
  | .signal => some { s with worker := if ok then .read else .exited }

/-- One step of the VMM. The guest moves only while the vCPU is in `KVM_RUN`. -/
def Vmm.step (s : Vmm) : VmmAct → Option Vmm
  | .store addr byte =>
    if s.vcpu = .guest ∧ addr < virtioGuestMemSize then
      some { s with mem := s.mem.storeBytes addr [byte] }
    else none
  | .mmioWrite address len value =>
    if s.vcpu = .guest then some (s.mmioWrite address len value) else none
  | .mmioRead address len =>
    if s.vcpu = .guest then some (s.mmioRead address len) else none
  | .exit => if s.vcpu = .guest then some { s with vcpu := .left } else none
  | .vcpu r ok => s.vcpuStep r ok
  | .worker r ok => s.workerStep r ok

/-- The VMM starts with a zeroed device, the guest image below the code limit and
    zeroes above it. -/
def vmm : System Vmm VmmAct where
  init s := s.dev = {} ∧ s.vcpu = .guest ∧ s.worker = .notStarted ∧ s.queueNotifyExits = 0 ∧
    s.ioeventfdRegistered = false ∧ s.kickCount = 0 ∧ s.stop = false ∧
    ∀ i, 0x1000 ≤ i → s.mem i = 0
  step := Vmm.step

/-! ## Admitted work -/

/-- The call is publishing a used element or about to advance `last_avail_idx`. -/
def Frame.Consuming (f : Frame) : Prop :=
  f.pc = .storeId ∨ f.pc = .storeLen ∨ f.pc = .storeUsedIdx ∨ f.pc = .advance

/-- Status is OPERATIONAL and the queue is ready: what the slow path checks. -/
def Vmm.Operational (s : Vmm) : Prop :=
  s.dev.status = virtioStatusOperational ∧ s.dev.queue.ready ≠ 0

instance (s : Vmm) : Decidable s.Operational := by
  unfold Vmm.Operational
  infer_instance

/-- The call has not passed the check of the queue. -/
def Frame.Entering (f : Frame) : Prop := f.pc = .checkReady ∨ f.pc = .checkSize

instance (f : Frame) : Decidable f.Entering := by
  unfold Frame.Entering
  infer_instance

/-- Neither thread consumes an entry unless the device is operational. -/
def Vmm.AdmitsWork (s : Vmm) : Prop :=
  (∀ f, s.vcpu = .processQueue f → f.Consuming → s.Operational) ∧
  (∀ f, s.worker = .processQueue f → f.Consuming → s.Operational)

/-- The fast path is used as the slow path would allow: the worker passes the check
    of `process_queue`, which looks at `ready` first and at `size` after that, only
    on a device that is operational then; and while it is past that check the guest
    writes no 0 to Status or QueueReady. -/
def Vmm.Disciplined (s : Vmm) (a : VmmAct) : Prop :=
  match s.worker, a with
  | .processQueue f, .worker _ _ =>
    f.pc = .checkSize → s.dev.queue.size.toNat = virtqSize → s.Operational
  | .processQueue f, .mmioWrite address _ value =>
    ¬ f.Entering → value = 0 →
      Register.ofOffset (mmioOffset address) ≠ some .status ∧
      Register.ofOffset (mmioOffset address) ≠ some .queueReady
  | _, _ => True

instance (s : Vmm) (a : VmmAct) : Decidable (s.Disciplined a) := by
  unfold Vmm.Disciplined
  split <;> infer_instance

/-- The invariant behind `AdmitsWork`. -/
structure AdmitInv (s : Vmm) : Prop where
  /-- the worker exists only once the ioeventfd is registered -/
  registered : s.worker ≠ .notStarted → s.ioeventfdRegistered
  /-- the slow path runs without a worker, on the device that passed its check -/
  slow : ∀ f, s.vcpu = .processQueue f → s.worker = .notStarted ∧ s.Operational
  /-- past its check the worker runs on an operational device -/
  fast : ∀ f, s.worker = .processQueue f → ¬ f.Entering → s.Operational

theorem AdmitInv.admits {s : Vmm} (h : AdmitInv s) : s.AdmitsWork := by
  refine ⟨fun f hf _ => (h.slow f hf).2, fun f hf hc => h.fast f hf ?_⟩
  rintro (hpc | hpc)
  all_goals simp [Frame.Consuming, hpc] at hc

theorem AdmitInv.init {s : Vmm} (h : vmm.init s) : AdmitInv s := by
  obtain ⟨_, hvcpu, hworker, _⟩ := h
  refine ⟨by simp [hworker], by simp [hvcpu], by simp [hworker]⟩

/-! ### Step lemmas -/

section Steps

variable {s s' : Vmm} {r : GetRandom} {ok : Bool}

/-- Consuming an entry keeps the device operational. -/
theorem processQueue_operational {dev : VirtioMmioDevice} {mem : Memory} {f : Frame}
    {p : Progress} (hp : processQueue dev mem f r = some p) :
    p.dev.status = dev.status ∧ p.dev.queue.ready = dev.queue.ready := by
  rw [processQueue_dev hp]
  exact ⟨rfl, rfl⟩

/-- The call passes its check only at the second load, on a queue of full size. -/
theorem processQueue_passes {dev : VirtioMmioDevice} {mem : Memory} {f : Frame} {p : Progress}
    (hp : processQueue dev mem f r = some p) (hentry : f.Entering) (hpast : ¬ p.frame.Entering)
    (hlive : ∀ result, p.frame.pc ≠ .returned result) :
    f.pc = .checkSize ∧ dev.queue.size.toNat = virtqSize := by
  rcases hentry with hpc | hpc
  · simp only [processQueue, hpc] at hp
    split at hp
    · cases hp
      exact absurd rfl (hlive (-1))
    · cases hp
      exact absurd (.inr rfl) hpast
  · simp only [processQueue, hpc] at hp
    split at hp
    · cases hp
      exact absurd rfl (hlive (-1))
    · next h => exact ⟨hpc, not_not.mp h⟩

/-- In the device window only the QueueNotify address has its offset. -/
theorem isQueueNotify_of_offset {address : BitVec 64} {len : Nat}
    (hvalid : mmioValid address len) (hoff : mmioOffset address = virtioMmioQueueNotify) :
    isQueueNotify address := by
  simp only [mmioValid, decide_eq_true_eq] at hvalid
  obtain ⟨hlo, hhi, _⟩ := hvalid
  have hnat := congrArg BitVec.toNat hoff
  simp only [mmioOffset, virtioMmioBase, virtioMmioSize, virtioMmioQueueNotify,
    BitVec.toNat_setWidth, BitVec.toNat_sub, BitVec.toNat_ofNat] at hlo hhi hnat
  simp only [isQueueNotify, virtioMmioBase, virtioMmioQueueNotify, BitVec.toNat_ofNat,
    decide_eq_true_eq]
  omega

/-- A write that exits to the VMM: the device is settled by the register file, or
    the slow path starts on an operational device. -/
theorem doMmioWrite_cases (s : Vmm) (address : BitVec 64) (len : Nat) (value : BitVec 32) :
    (∃ dev pc, s.doMmioWrite address len value = { s with dev := dev, vcpu := pc } ∧
      (∀ f, pc ≠ .processQueue f) ∧
      (dev = s.dev ∨ Accepts s.dev (mmioOffset address) value dev)) ∨
    (s.doMmioWrite address len value = { s with vcpu := .processQueue {} } ∧
      isQueueNotify address ∧ s.Operational) := by
  unfold Vmm.doMmioWrite
  split
  · next hvalid =>
    rcases writeRegister_settled s.dev (mmioOffset address) value with hw | hw | ⟨dev', hw, hacc⟩
    · rw [hw.calls]
      exact .inr ⟨rfl, isQueueNotify_of_offset hvalid hw.notify, hw.operational, hw.ready⟩
    · rw [hw]
      exact .inl ⟨s.dev, .left, rfl, nofun, .inl rfl⟩
    · rw [hw]
      exact .inl ⟨dev', .handled, rfl, nofun, .inr hacc⟩
  · exact .inl ⟨s.dev, .left, rfl, nofun, .inl rfl⟩

/-- The worker and the registration do not change, the vCPU is outside
    `process_queue`, and the device stays operational for the worker. -/
theorem AdmitInv.keep (h : AdmitInv s) (hworker : s'.worker = s.worker)
    (hreg : s.ioeventfdRegistered → s'.ioeventfdRegistered)
    (hvcpu : ∀ f, s'.vcpu ≠ .processQueue f)
    (hop : ∀ f, s.worker = .processQueue f → ¬ f.Entering → s.Operational →
      s'.Operational) : AdmitInv s' := by
  refine ⟨fun hne => hreg (h.registered (hworker ▸ hne)), fun f hf => absurd hf (hvcpu f),
    fun f hf hpc => ?_⟩
  rw [hworker] at hf
  exact hop f hf hpc (h.fast f hf hpc)

theorem AdmitInv.doMmioWrite (h : AdmitInv s) {address : BitVec 64} {len : Nat}
    {value : BitVec 32} (hd : s.Disciplined (.mmioWrite address len value))
    (hnot : isQueueNotify address → s.worker = .notStarted) :
    AdmitInv (s.doMmioWrite address len value) := by
  rcases doMmioWrite_cases s address len value with ⟨dev, pc, heq, hpc, hdev⟩ | ⟨heq, hisn, hop⟩
  · rw [heq]
    refine h.keep rfl id hpc fun f hf hchk hop => ?_
    rcases hdev with rfl | hacc
    · exact hop
    · simp only [Vmm.Disciplined, hf] at hd
      exact hacc.operational hop.1 hop.2 (hd hchk)
  · rw [heq]
    have hidle := hnot hisn
    refine ⟨fun hne => absurd hidle hne, fun f _ => ⟨hidle, hop⟩, fun f hf => ?_⟩
    rw [show s.worker = .processQueue f from hf] at hidle
    cases hidle

theorem AdmitInv.mmioWrite (h : AdmitInv s) {address : BitVec 64} {len : Nat}
    {value : BitVec 32} (hguest : s.vcpu = .guest)
    (hd : s.Disciplined (.mmioWrite address len value)) :
    AdmitInv (s.mmioWrite address len value) := by
  unfold Vmm.mmioWrite
  split_ifs with hkick hnotify hreg
  · exact h.keep rfl id (by simp [hguest]) fun _ _ _ hop => hop
  · exact h.keep rfl id nofun fun _ _ _ hop => hop
  · have h' : AdmitInv { s with queueNotifyExits := s.queueNotifyExits + 1 } :=
      ⟨h.registered, h.slow, h.fast⟩
    apply h'.doMmioWrite hd
    -- no ioeventfd yet, so no worker
    intro _
    by_contra hne
    exact hreg (h.registered hne)
  · exact h.doMmioWrite hd fun hisn => absurd hisn hnotify

theorem AdmitInv.vcpuStep (h : AdmitInv s) (hs : s.vcpuStep r ok = some s') : AdmitInv s' := by
  cases hpc : s.vcpu with
  | guest | joining => simp [Vmm.vcpuStep, hpc] at hs
  | processQueue f =>
    obtain ⟨hidle, hop⟩ := h.slow f hpc
    simp only [Vmm.vcpuStep, hpc, Option.map_eq_some_iff] at hs
    obtain ⟨p, hp, rfl⟩ := hs
    obtain ⟨hstatus, hready⟩ := processQueue_operational hp
    refine ⟨h.registered, fun f _ => ⟨hidle, ?_, ?_⟩, fun f hf => ?_⟩
    · exact hstatus.trans hop.1
    · exact hready ▸ hop.2
    · rw [show s.worker = .processQueue f from hf] at hidle
      cases hidle
  | handled =>
    simp only [Vmm.vcpuStep, hpc] at hs
    split_ifs at hs
    · cases hs
      exact ⟨fun _ => rfl, nofun, nofun⟩
    · cases hs
      exact h.keep rfl id nofun fun _ _ _ hop => hop
    · cases hs
      exact h.keep rfl id nofun fun _ _ _ hop => hop
  | left =>
    simp only [Vmm.vcpuStep, hpc] at hs
    cases hs
    exact h.keep rfl id nofun fun _ _ _ hop => hop

/-- The worker moves to a point outside `process_queue`, or to its start, without
    touching status and readiness. -/
theorem AdmitInv.moveWorker (h : AdmitInv s) (hold : s.worker ≠ .notStarted)
    (hreg : s'.ioeventfdRegistered = s.ioeventfdRegistered) (hvcpu : s'.vcpu = s.vcpu)
    (hnew : ∀ f, s'.worker = .processQueue f → f.Entering) : AdmitInv s' := by
  refine ⟨fun _ => hreg ▸ h.registered hold, fun f hf => ?_, fun f hf hpc => ?_⟩
  · rw [hvcpu] at hf
    exact absurd (h.slow f hf).1 hold
  · exact absurd (hnew f hf) hpc

theorem AdmitInv.workerStep (h : AdmitInv s) (hd : s.Disciplined (.worker r ok))
    (hs : s.workerStep r ok = some s') : AdmitInv s' := by
  cases hpc : s.worker with
  | notStarted | exited => simp [Vmm.workerStep, hpc] at hs
  | processQueue f =>
    simp only [Vmm.workerStep, hpc, Option.map_eq_some_iff] at hs
    obtain ⟨p, hp, rfl⟩ := hs
    obtain ⟨hstatus, hready⟩ := processQueue_operational hp
    have hold : s.worker ≠ .notStarted := by simp [hpc]
    refine ⟨fun _ => h.registered hold, fun f' hf' => ?_, fun f' hf' hchk => ?_⟩
    · exact absurd (h.slow f' hf').1 hold
    · -- the call goes on, so it has passed its check now or before
      have hlive : ∀ result, p.frame.pc ≠ .returned result := by
        intro result hret
        simp only [hret] at hf'
        split at hf' <;> cases hf'
      have hpast : ¬ p.frame.Entering := by
        dsimp only at hf'
        split at hf'
        · next result hret => exact absurd hret (hlive result)
        · cases hf'
          exact hchk
      have hop : s.Operational := by
        by_cases hentry : f.Entering
        · obtain ⟨hsecond, hsize⟩ := processQueue_passes hp hentry hpast hlive
          simp only [Vmm.Disciplined, hpc] at hd
          exact hd hsecond hsize
        · exact h.fast f hpc hentry
      exact ⟨hstatus.trans hop.1, hready ▸ hop.2⟩
  | read =>
    simp only [Vmm.workerStep, hpc] at hs
    split_ifs at hs
    all_goals
      cases hs
      exact h.moveWorker (by simp [hpc]) rfl rfl nofun
  | kick count =>
    simp only [Vmm.workerStep, hpc] at hs
    cases hs
    refine h.moveWorker (by simp [hpc]) rfl rfl fun f hf => ?_
    simp only at hf
    split at hf <;> cases hf
    exact .inl rfl
  | checkStop count | checkIndex | checkUsed | signal =>
    simp only [Vmm.workerStep, hpc] at hs
    cases hs
    refine h.moveWorker (by simp [hpc]) rfl rfl fun f hf => ?_
    simp only at hf
    split at hf <;> cases hf
  | interrupt =>
    simp only [Vmm.workerStep, hpc] at hs
    cases hs
    exact h.moveWorker (by simp [hpc]) rfl rfl nofun

theorem AdmitInv.step {a : VmmAct} (h : AdmitInv s) (hd : s.Disciplined a)
    (hs : s.step a = some s') : AdmitInv s' := by
  cases a with
  | store addr byte =>
    simp only [Vmm.step] at hs
    split_ifs at hs
    cases hs
    exact ⟨h.registered, h.slow, h.fast⟩
  | mmioWrite address len value =>
    simp only [Vmm.step] at hs
    split_ifs at hs with hguest
    cases hs
    exact h.mmioWrite hguest hd
  | mmioRead address len =>
    simp only [Vmm.step] at hs
    split_ifs at hs
    cases hs
    unfold Vmm.mmioRead
    split
    · exact h.keep rfl id nofun fun _ _ _ hop => hop
    · exact h.keep rfl id nofun fun _ _ _ hop => hop
  | exit =>
    simp only [Vmm.step] at hs
    split_ifs at hs
    cases hs
    exact h.keep rfl id nofun fun _ _ _ hop => hop
  | vcpu r ok => exact h.vcpuStep hs
  | worker r ok => exact h.workerStep hd hs

end Steps

/-- **Both paths admit the same work** in every run in which the worker passes
    `process_queue`'s check only on a device that is operational at its second load
    and the guest does not take the device down while the worker is past it. -/
theorem notification_paths_admit_same_work {s : Vmm} (h : vmm.Reach Vmm.Disciplined s) :
    s.AdmitsWork :=
  (h.invariant AdmitInv (fun _ => .init) (fun _ _ _ hinv hd hs => hinv.step hd hs)).admits

/-! ## Concrete runs -/

/-- The guest fills in the first `n` descriptors and publishes them. -/
def publishRequests (n : Nat) : List VmmAct :=
  (List.range n).flatMap (fun i =>
    [.store (0x4001 + 16 * i) (UInt8.ofNat (0x70 + i)), .store (0x4008 + 16 * i) 32,
      .store (0x400c + 16 * i) 2, .store (0x5004 + 2 * i) (UInt8.ofNat i)]) ++
  [.store 0x5002 (UInt8.ofNat n)]

/-- A register write and the VMM's way back into the guest. -/
def writeReg (offset : BitVec 64) (value : BitVec 32) : List VmmAct :=
  [.mmioWrite (0x10000000 + offset) 4 value, .vcpu .eintr true]

/-- A step of `process_queue` with all the entropy it may ask for. -/
def entropy : GetRandom := .bytes (List.replicate 32 7)

/-- Handshake, five requests on the slow path, a second QueueNotify with nothing
    pending: the ioeventfd is registered. -/
def phaseC : List VmmAct :=
  handshake.flatMap (fun w => writeReg (w.1.setWidth 64) w.2) ++ publishRequests 5 ++
  [.mmioWrite 0x10000050 4 0] ++ List.replicate 86 (.vcpu entropy true) ++
  [.mmioWrite 0x10000050 4 0] ++ List.replicate 5 (.vcpu entropy true)

/-- Reset, a queue set up without any handshake, and a kick. -/
def resetAndKick : List VmmAct :=
  writeReg 0x070 0 ++ writeReg 0x038 8 ++ writeReg 0x080 0x4000 ++ writeReg 0x090 0x5000 ++
  writeReg 0x0a0 0x6000 ++ writeReg 0x044 1 ++ [.mmioWrite 0x10000050 4 0]

def bootVmm : Vmm := ⟨{}, fun _ => 0, .guest, .notStarted, 0, false, 0, false⟩

theorem vmm_init_boot : vmm.init bootVmm :=
  ⟨rfl, rfl, rfl, rfl, rfl, rfl, rfl, fun _ _ => rfl⟩

/-- The worker is about to advance `last_avail_idx`. -/
def Vmm.workerAdvances (s : Vmm) : Bool :=
  match s.worker with
  | .processQueue f => f.pc = .advance
  | _ => false

theorem Vmm.AdmitsWork.of_advances {s : Vmm} (h : s.AdmitsWork) (hadv : s.workerAdvances) :
    s.Operational := by
  unfold Vmm.workerAdvances at hadv
  split at hadv
  · next f hf => exact h.2 f hf (.inr (.inr (.inr (by simpa using hadv))))
  · cases hadv

theorem notification_paths_admit_same_work_sixth :
    ∃ s, vmm.Reach Vmm.Disciplined s ∧ s.workerAdvances ∧ s.AdmitsWork := by
  obtain ⟨s, hrun, hadv⟩ :
      ∃ s ∈ vmm.exec bootVmm (phaseC ++ publishRequests 6 ++ [.mmioWrite 0x10000050 4 0] ++
        List.replicate 21 (.worker entropy true)), s.workerAdvances := by
    decide +kernel
  have hok : vmm.RunsOk Vmm.Disciplined bootVmm (phaseC ++ publishRequests 6 ++
      [.mmioWrite 0x10000050 4 0] ++ List.replicate 21 (.worker entropy true)) := by
    decide +kernel
  have hreach : vmm.Reach Vmm.Disciplined s :=
    System.Reach.exec (.init vmm_init_boot) hok hrun
  exact ⟨s, hreach, hadv, notification_paths_admit_same_work hreach⟩

/-- After a reset the guest sets the queue up again, never touches Status, and kicks:
    the worker consumes entries of a device whose status is 0, where a QueueNotify
    on the slow path is refused. -/
theorem worker_consumes_after_reset :
    ∃ s, vmm.Reachable s ∧ s.dev.status = 0 ∧ s.workerAdvances ∧
      writeRegister s.dev virtioMmioQueueNotify virtioRngQueueIndex = .refuse s.dev ∧
      ¬ s.AdmitsWork := by
  obtain ⟨s, hrun, hstatus, hadv, hslow⟩ :
      ∃ s ∈ vmm.exec bootVmm (phaseC ++ resetAndKick ++
          List.replicate 21 (.worker entropy true)),
        s.dev.status = 0 ∧ s.workerAdvances ∧
          writeRegister s.dev virtioMmioQueueNotify virtioRngQueueIndex = .refuse s.dev := by
    decide +kernel
  refine ⟨s, System.reachable_of_exec vmm_init_boot hrun, hstatus, hadv, hslow, fun hadm => ?_⟩
  have hop := (hadm.of_advances hadv).1
  rw [hstatus] at hop
  exact absurd hop (by decide)

end LinuxMaxxing.Virtio
