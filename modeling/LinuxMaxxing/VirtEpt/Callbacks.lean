import LinuxMaxxing.Lib.BpfHash
import LinuxMaxxing.Lib.BpfLoop

/-!
# Callbacks of the EPT Observer

The programs of `virt-ept/ept.bpf.c`. Each takes the per-CPU scratch event, resets the
validity of its sections with `new_event`, fills some of them and submits a copy.

- an event has the sections of `ept_event.h`; the five that pair a request with its return
  are one structure with the request as its parameter;
- a call carries what the helpers answer and how kernel memory reads: two reads at
  different moments may give different values at one address;
- the hash maps are shared by all calls.

`Callback.run_same` is the result: two scratch events give the same maps, and submitted
events that are equal in all sections that are present.
-/

namespace LinuxMaxxing.VirtEpt

open LinuxMaxxing.Lib

/-! ## Limits of `ept_event.h` -/

def eptLevels : Nat := 4
def slot0GfnSamples : Nat := 16
def hugeGfnSamples : Nat := 8
def maxGfnSamples : Nat := slot0GfnSamples + hugeGfnSamples
def hugeGfnBase : Nat := 512
def hugeGfnStride : Nat := 64

/-- `enum ept_event_type` -/
inductive EventType where
  | kvmEntry | kvmExit | kvmUserspaceExit | kvmUnmapHvaRange | kvmMmuSpteRequested
  | kvmMmuSetSpte | kvmFlushRemoteTlbs | controlBegin | controlEnd | memslotBegin
  | memslotEnd | sysEnterIoctl | sysExitIoctl | kvmPageFault | kvmMmuSplitHugePage
  | markMmioSpte | sysEnterMadvise | sysExitMadvise | sysEnterMmap | sysExitMmap
  deriving DecidableEq, Repr

/-- The value of an event type. -/
def EventType.value : EventType → BitVec 32
  | .kvmEntry => 0
  | .kvmExit => 1
  | .kvmUserspaceExit => 2
  | .kvmUnmapHvaRange => 3
  | .kvmMmuSpteRequested => 4
  | .kvmMmuSetSpte => 5
  | .kvmFlushRemoteTlbs => 6
  | .controlBegin => 7
  | .controlEnd => 8
  | .memslotBegin => 9
  | .memslotEnd => 10
  | .sysEnterIoctl => 11
  | .sysExitIoctl => 12
  | .kvmPageFault => 13
  | .kvmMmuSplitHugePage => 14
  | .markMmioSpte => 15
  | .sysEnterMadvise => 16
  | .sysExitMadvise => 17
  | .sysEnterMmap => 18
  | .sysExitMmap => 19

/-! ## `struct ept_event` -/

/-- `struct ept_entry_record` -/
@[ext] structure EntryRecord where
  spte : BitVec 64
  tableHpa : BitVec 64
  index : BitVec 16
  level : BitVec 8
  present : BitVec 8
  mmio : BitVec 8
  leaf : BitVec 8
  readable : BitVec 8
  writable : BitVec 8
  executable : BitVec 8
  accessed : BitVec 8
  dirty : BitVec 8
  deriving Inhabited

/-- `struct ept_guest_gfn` -/
@[ext] structure GuestGfn where
  gfn : BitVec 64
  gva : BitVec 64
  gpa : BitVec 64
  leafPfn : BitVec 64
  eptMapped : BitVec 8
  eptMmio : BitVec 8
  leafLevel : BitVec 8
  entries : Fin eptLevels → EntryRecord
  deriving Inhabited

/-- The request of `struct ept_control_info`. -/
structure ControlRequest where
  command : BitVec 8
  operationId : BitVec 64
  deriving Inhabited

/-- The request of `struct ept_memslot_info`. -/
structure MemslotRequest where
  controlCommand : BitVec 8
  vmFd : BitVec 32
  slot : BitVec 32
  flags : BitVec 32
  guestPhysAddr : BitVec 64
  userspaceAddr : BitVec 64
  size : BitVec 64
  operationId : BitVec 64
  deriving Inhabited

/-- The request of `struct ept_ioctl_info`. -/
structure IoctlRequest where
  fd : BitVec 32
  request : BitVec 64
  argument : BitVec 64
  callId : BitVec 64
  deriving Inhabited

/-- The request of `struct ept_madvise_info`. -/
structure MadviseRequest where
  advice : BitVec 32
  start : BitVec 64
  length : BitVec 64
  callId : BitVec 64
  deriving Inhabited

/-- The request of `struct ept_mmap_info`. -/
structure MmapRequest where
  prot : BitVec 32
  flags : BitVec 32
  fd : BitVec 32
  requestedAddr : BitVec 64
  length : BitVec 64
  offset : BitVec 64
  callId : BitVec 64
  deriving Inhabited

/-- A section that pairs a request with its return. `w` is the width of the result. -/
structure PairedInfo (w : Nat) (ρ : Type) where
  present : BitVec 8
  completed : BitVec 8
  result : BitVec w
  durationNs : BitVec 64
  request : ρ
  deriving Inhabited

/-- `struct ept_disposition_info` -/
structure DispositionInfo where
  present : BitVec 8
  result : BitVec 32
  deriving Inhabited

/-- `struct ept_context` -/
structure EptContext where
  pid : BitVec 32
  tid : BitVec 32
  cpu : BitVec 32
  comm : Fin 16 → UInt8
  deriving Inhabited

/-- `struct ept_state` -/
@[ext] structure EptState where
  present : BitVec 8
  vcpu : BitVec 64
  kvm : BitVec 64
  mmu : BitVec 64
  rootHpa : BitVec 64
  rootPgd : BitVec 64
  gfns : Fin maxGfnSamples → GuestGfn
  deriving Inhabited

/-- `struct ept_event` -/
structure EptEvent where
  timeNs : BitVec 64
  event : BitVec 32
  context : EptContext
  control : PairedInfo 32 ControlRequest
  memslot : PairedInfo 32 MemslotRequest
  ioctl : PairedInfo 64 IoctlRequest
  madvise : PairedInfo 64 MadviseRequest
  mmap : PairedInfo 64 MmapRequest
  disposition : DispositionInfo
  state : EptState
  deriving Inhabited

/-! ## What a call meets -/

/-- When a read happens: in the walk of which sample, at which of its levels. -/
structure Moment where
  slot : Nat
  level : Nat

/-- What is read of kernel memory. -/
inductive Member where
  | archMmu | vcpuKvm | rootHpa | rootPgd
  | pageOffsetBase
  | spte

/-- A run of a program: the answers of its helpers and of kernel memory, and whether the
    ring buffer takes its event. -/
structure Call where
  pidTgid : BitVec 64
  cpu : BitVec 32
  comm : Fin 16 → UInt8
  timeNs : BitVec 64
  /-- `page_offset_base_address`, the loader's constant -/
  pageOffsetBaseAddress : BitVec 64
  read : Moment → Member → BitVec 64 → BitVec 64
  delivered : Bool

/-- `struct control_args` and its siblings: the request and when it started. -/
structure Active (ρ : Type) where
  startedNs : BitVec 64
  request : ρ

/-- A hash map of the observer, keyed by `pid_tgid`. -/
abbrev TaskMap (ν : Type) := BpfHash (BitVec 64) ν 64

/-- The maps. -/
structure Maps where
  currentVcpu : TaskMap (BitVec 64)
  activeControl : TaskMap (Active ControlRequest)
  activeMemslot : TaskMap (Active MemslotRequest)
  activeIoctl : TaskMap (Active IoctlRequest)
  activeMadvise : TaskMap (Active MadviseRequest)
  activeMmap : TaskMap (Active MmapRequest)
  operationCounters : TaskMap (BitVec 64)
  ioctlCounters : TaskMap (BitVec 64)
  madviseCounters : TaskMap (BitVec 64)
  mmapCounters : TaskMap (BitVec 64)
  experimentTasks : TaskMap (BitVec 8)

/-- `lab_map_update`; a full map stays as it is. -/
def labMapUpdate {ν : Type} (m : TaskMap ν) (key : BitVec 64) (value : ν) : TaskMap ν :=
  (m.update key value).getD m

/-- What a program leaves: the maps, the scratch event, and the event it submits. -/
structure Outcome where
  maps : Maps
  scratch : EptEvent
  submitted : Option EptEvent

/-! ## `new_event` -/

/-- `is_vmm_comm` -/
def isVmmComm (comm : Fin 16 → UInt8) : Bool :=
  comm 0 = 0x76 ∧ comm 1 = 0x6d ∧ comm 2 = 0x6d ∧ comm 3 = 0

/-- The validity of a section, reset. -/
def PairedInfo.reset {w : Nat} {ρ : Type} (s : PairedInfo w ρ) : PairedInfo w ρ :=
  { s with present := 0, completed := 0, result := 0, durationNs := 0 }

/-- `new_event`: the scratch event, and whether the pointer to it is returned. -/
def newEvent (c : Call) (eventType : EventType) (e : EptEvent) : EptEvent × Bool :=
  let e := { e with
    control := e.control.reset
    memslot := e.memslot.reset
    ioctl := e.ioctl.reset
    madvise := e.madvise.reset
    mmap := e.mmap.reset
    disposition := { e.disposition with present := 0, result := 0 }
    state := { e.state with present := 0 }
    context := { e.context with comm := c.comm } }
  if !isVmmComm e.context.comm then (e, false)
  else
    ({ e with
      timeNs := c.timeNs
      event := eventType.value
      context :=
        { pid := (c.pidTgid >>> 32).setWidth 32
          tid := c.pidTgid.setWidth 32
          cpu := c.cpu
          comm := e.context.comm } }, true)

/-- The number after the last one of a task, 1 if it has none. -/
def nextId (counters : TaskMap (BitVec 64)) (key : BitVec 64) : BitVec 64 :=
  match counters.lookup key with
  | some last => last + 1
  | none => 1

/-- `next_operation_id` -/
def nextOperationId (m : Maps) (key : BitVec 64) : BitVec 64 × Maps :=
  let next := nextId m.operationCounters key
  (next, { m with operationCounters := labMapUpdate m.operationCounters key next })

/-! ## The walk -/

def pageShift : Nat := 12
def ptrMask : BitVec 64 := 0x1ff
def spteAddressMask : BitVec 64 := 0x000ffffffffff000
def eptRead : BitVec 64 := 1 <<< 0
def eptWrite : BitVec 64 := 1 <<< 1
def eptExec : BitVec 64 := 1 <<< 2
def eptLarge : BitVec 64 := 1 <<< 7
def eptAccessed : BitVec 64 := 1 <<< 8
def eptDirty : BitVec 64 := 1 <<< 9
def eptSuppressVe : BitVec 64 := 1 <<< 63
def eptMmioMask : BitVec 64 := eptRead ||| eptWrite ||| eptExec ||| eptSuppressVe
def eptMmioValue : BitVec 64 := eptWrite ||| eptExec

/-- `read_u64` -/
def readU64 (c : Call) (m : Moment) (what : Member) (address : BitVec 64) : BitVec 64 :=
  if address = 0 then 0 else c.read m what address

/-- `hpa_to_direct_map` -/
def hpaToDirectMap (c : Call) (m : Moment) (hpa : BitVec 64) : BitVec 64 :=
  (hpa &&& spteAddressMask) + readU64 c m .pageOffsetBase c.pageOffsetBaseAddress

/-- `ept_index` -/
def eptIndex (gpa : BitVec 64) (level : Nat) : BitVec 16 :=
  if level = 4 then ((gpa >>> 39) &&& ptrMask).setWidth 16
  else if level = 3 then ((gpa >>> 30) &&& ptrMask).setWidth 16
  else if level = 2 then ((gpa >>> 21) &&& ptrMask).setWidth 16
  else ((gpa >>> 12) &&& ptrMask).setWidth 16

/-- `ept_leaf_pfn` -/
def eptLeafPfn (spte gpa : BitVec 64) (level : Nat) : BitVec 64 :=
  let basePfn := (spte &&& spteAddressMask) >>> pageShift
  let offsetPages :=
    if 1 < level then
      let offsetBits := pageShift + 9 * (level - 1)
      (gpa &&& (((1 : BitVec 64) <<< offsetBits) - 1)) >>> pageShift
    else 0
  basePfn + offsetPages

/-- `sampled_gfn` -/
def sampledGfn (slot : Nat) : BitVec 64 :=
  if slot < slot0GfnSamples then BitVec.ofNat 64 slot
  else BitVec.ofNat 64 (hugeGfnBase + (slot - slot0GfnSamples) * hugeGfnStride)

/-- A condition as C stores it in a byte. -/
def flag (condition : Bool) : BitVec 8 := if condition then 1 else 0

/-- The loop of `walk_gfn`: the record it fills and the table it has reached. -/
structure Walk where
  record : GuestGfn
  tableHpa : BitVec 64
  table : BitVec 64

/-- The entry that one round of the loop writes, all but its `leaf`. -/
def walkEntry (spte tableHpa : BitVec 64) (index : BitVec 16) (level : Nat) : EntryRecord :=
  let mmio := spte ≠ 0 ∧ spte &&& eptMmioMask = eptMmioValue
  { spte := spte
    tableHpa := tableHpa &&& spteAddressMask
    index := index
    level := BitVec.ofNat 8 level
    mmio := flag mmio
    present := flag (¬ mmio ∧ spte &&& (eptRead ||| eptWrite ||| eptExec) ≠ 0)
    readable := flag (spte &&& eptRead ≠ 0)
    writable := flag (spte &&& eptWrite ≠ 0)
    executable := flag (spte &&& eptExec ≠ 0)
    accessed := flag (spte &&& eptAccessed ≠ 0)
    dirty := flag (spte &&& eptDirty ≠ 0)
    leaf := 0 }

/-- One round of the loop of `walk_gfn`. -/
def walkLevel (c : Call) (slot : Nat) (gpa : BitVec 64) (w : Walk) (i : Fin eptLevels) : Walk :=
  let level := eptLevels - i
  let index := eptIndex gpa level
  let spte :=
    if w.table ≠ 0 then readU64 c ⟨slot, i⟩ .spte (w.table + index.setWidth 64 * 8) else 0
  let entry := walkEntry spte w.tableHpa index level
  let put (entry : EntryRecord) : Fin eptLevels → EntryRecord :=
    Function.update w.record.entries i entry
  if entry.mmio ≠ 0 then
    { record := { w.record with entries := put entry, eptMmio := 1 }
      tableHpa := 0
      table := 0 }
  else if entry.present = 0 then
    { record := { w.record with entries := put entry }
      tableHpa := 0
      table := 0 }
  else if level = 1 ∨ spte &&& eptLarge ≠ 0 then
    { record :=
        { w.record with
          entries := put { entry with leaf := 1 }
          eptMapped := 1
          leafLevel := BitVec.ofNat 8 level
          leafPfn := eptLeafPfn spte gpa level }
      tableHpa := 0
      table := 0 }
  else
    { record := { w.record with entries := put entry }
      tableHpa := spte &&& spteAddressMask
      table := hpaToDirectMap c ⟨slot, i + 1⟩ (spte &&& spteAddressMask) }

/-- `walk_gfn` on the record of its sample. -/
def walkGfn (c : Call) (slot : Nat) (rootHpa : BitVec 64) (record : GuestGfn) : GuestGfn :=
  let gfn := sampledGfn slot
  let gpa := gfn <<< pageShift
  let table :=
    if rootHpa ≠ 0 ∧ rootHpa ≠ ~~~0 then hpaToDirectMap c ⟨slot, 0⟩ rootHpa else 0
  let record := { record with
    gfn := gfn
    gva := gpa
    gpa := gpa
    eptMapped := 0
    eptMmio := 0
    leafLevel := 0
    leafPfn := 0 }
  (Fin.foldl eptLevels (walkLevel c slot gpa) ⟨record, rootHpa, table⟩).record

/-- `sample_vcpu_state` -/
def sampleVcpuState (c : Call) (vcpu : BitVec 64) (e : EptEvent) : EptEvent :=
  if vcpu = 0 then e
  else
    let mmu := c.read ⟨0, 0⟩ .archMmu vcpu
    let rootHpa := if mmu ≠ 0 then c.read ⟨0, 0⟩ .rootHpa mmu else 0
    let rootPgd := if mmu ≠ 0 then c.read ⟨0, 0⟩ .rootPgd mmu else 0
    { e with
      state :=
        { present := 1
          vcpu := vcpu
          kvm := c.read ⟨0, 0⟩ .vcpuKvm vcpu
          mmu := mmu
          rootHpa := rootHpa
          rootPgd := rootPgd
          gfns := Fin.foldl maxGfnSamples
            (fun gfns i => Function.update gfns i (walkGfn c i rootHpa (gfns i))) e.state.gfns } }

/-- `sample_current_state` -/
def sampleCurrentState (c : Call) (m : Maps) (e : EptEvent) : EptEvent :=
  match m.currentVcpu.lookup c.pidTgid with
  | some vcpu => sampleVcpuState c vcpu e
  | none => e

/-- `emit_event` of the scratch event. -/
def emitEvent (m : Maps) (e : EptEvent) : Outcome := ⟨m, e, some e⟩

/-! ## Callbacks without a request -/

/-- `snapshot_current_mm` -/
def snapshotCurrentMm (eventType : EventType) (c : Call) (m : Maps) (e : EptEvent) : Outcome :=
  match newEvent c eventType e with
  | (e, false) => ⟨m, e, none⟩
  | (e, true) => emitEvent m (sampleCurrentState c m e)

/-- `snapshot_vcpu_mm` -/
def snapshotVcpuMm (vcpu : BitVec 64) (eventType : EventType) (c : Call) (m : Maps)
    (e : EptEvent) : Outcome :=
  match newEvent c eventType e with
  | (e, false) => ⟨m, e, none⟩
  | (e, true) =>
    if vcpu = 0 then ⟨m, e, none⟩
    else
      let m := { m with currentVcpu := labMapUpdate m.currentVcpu c.pidTgid vcpu }
      emitEvent m (sampleVcpuState c vcpu e)

/-- `snapshot_vcpu_mm` of the vCPU that the task ran last. -/
def snapshotLastVcpu (eventType : EventType) (c : Call) (m : Maps) (e : EptEvent) : Outcome :=
  match m.currentVcpu.lookup c.pidTgid with
  | none => ⟨m, e, none⟩
  | some vcpu => snapshotVcpuMm vcpu eventType c m e

/-- `observe_vmm_main` -/
def observeVmmMain (c : Call) (m : Maps) (e : EptEvent) : Outcome :=
  ⟨{ m with experimentTasks := labMapUpdate m.experimentTasks c.pidTgid 1 }, e, none⟩

def kvmEntrySnapshot (vcpu : BitVec 64) := snapshotVcpuMm vcpu .kvmEntry
def kvmExitSnapshot := snapshotLastVcpu .kvmExit
def kvmPageFaultSnapshot := snapshotCurrentMm .kvmPageFault
def kvmUserspaceExitSnapshot := snapshotLastVcpu .kvmUserspaceExit
def kvmUnmapHvaRangeSnapshot := snapshotLastVcpu .kvmUnmapHvaRange
def kvmMmuSpteRequestedSnapshot := snapshotLastVcpu .kvmMmuSpteRequested
def kvmMmuSetSpteSnapshot := snapshotLastVcpu .kvmMmuSetSpte
def kvmMmuSplitHugePageSnapshot := snapshotCurrentMm .kvmMmuSplitHugePage
def markMmioSpteSnapshot := snapshotCurrentMm .markMmioSpte
def kvmFlushRemoteTlbsSnapshot := snapshotLastVcpu .kvmFlushRemoteTlbs

/-! ## What of an event is present -/

/-- A section as far as its validity lets one read it. -/
def PairedInfo.visible {w : Nat} {ρ : Type} [Inhabited ρ] (s : PairedInfo w ρ) :
    PairedInfo w ρ :=
  if s.present = 0 then { s with request := default } else s

def EptState.visible (s : EptState) : EptState := if s.present = 0 then default else s

def EptEvent.visible (e : EptEvent) : EptEvent :=
  { e with
    control := e.control.visible
    memslot := e.memslot.visible
    ioctl := e.ioctl.visible
    madvise := e.madvise.visible
    mmap := e.mmap.visible
    state := e.state.visible }

/-- Two events that are equal in what is present. -/
def EptEvent.Same (e e' : EptEvent) : Prop := e.visible = e'.visible

/-! ## Callbacks with a request -/

/-- A section of the event as a callback fills it: it is written alone, and its fields are
    visible on their own. -/
structure Section (w : Nat) (ρ : Type) [Inhabited ρ] where
  get : EptEvent → PairedInfo w ρ
  set : PairedInfo w ρ → EptEvent → EptEvent
  get_visible : ∀ e, (get e.visible) = (get e).visible
  set_visible : ∀ s e, (set s e).visible = set s.visible e.visible

def Section.control : Section 32 ControlRequest where
  get e := e.control
  set s e := { e with control := s }
  get_visible _ := rfl
  set_visible _ _ := rfl

def Section.memslot : Section 32 MemslotRequest where
  get e := e.memslot
  set s e := { e with memslot := s }
  get_visible _ := rfl
  set_visible _ _ := rfl

def Section.ioctl : Section 64 IoctlRequest where
  get e := e.ioctl
  set s e := { e with ioctl := s }
  get_visible _ := rfl
  set_visible _ _ := rfl

def Section.madvise : Section 64 MadviseRequest where
  get e := e.madvise
  set s e := { e with madvise := s }
  get_visible _ := rfl
  set_visible _ _ := rfl

def Section.mmap : Section 64 MmapRequest where
  get e := e.mmap
  set s e := { e with mmap := s }
  get_visible _ := rfl
  set_visible _ _ := rfl

/-- One of the maps. -/
structure MapField (ν : Type) where
  get : Maps → TaskMap ν
  set : Maps → TaskMap ν → Maps

def MapField.activeControl : MapField (Active ControlRequest) :=
  ⟨(·.activeControl), fun m v => { m with activeControl := v }⟩
def MapField.activeMemslot : MapField (Active MemslotRequest) :=
  ⟨(·.activeMemslot), fun m v => { m with activeMemslot := v }⟩
def MapField.activeIoctl : MapField (Active IoctlRequest) :=
  ⟨(·.activeIoctl), fun m v => { m with activeIoctl := v }⟩
def MapField.activeMadvise : MapField (Active MadviseRequest) :=
  ⟨(·.activeMadvise), fun m v => { m with activeMadvise := v }⟩
def MapField.activeMmap : MapField (Active MmapRequest) :=
  ⟨(·.activeMmap), fun m v => { m with activeMmap := v }⟩
def MapField.ioctlCounters : MapField (BitVec 64) :=
  ⟨(·.ioctlCounters), fun m v => { m with ioctlCounters := v }⟩
def MapField.madviseCounters : MapField (BitVec 64) :=
  ⟨(·.madviseCounters), fun m v => { m with madviseCounters := v }⟩
def MapField.mmapCounters : MapField (BitVec 64) :=
  ⟨(·.mmapCounters), fun m v => { m with mmapCounters := v }⟩

def MapField.update {ν : Type} (f : MapField ν) (m : Maps) (key : BitVec 64) (value : ν) : Maps :=
  f.set m (labMapUpdate (f.get m) key value)

section Paired

variable {w : Nat} {ρ : Type} [Inhabited ρ]

/-- A request enters its section; the return part stays as `new_event` left it. -/
def PairedInfo.begin (s : PairedInfo w ρ) (request : ρ) : PairedInfo w ρ :=
  { s with present := 1, request := request }

/-- A request and its return. -/
def PairedInfo.finish (request : ρ) (result : BitVec w) (durationNs : BitVec 64) :
    PairedInfo w ρ :=
  { present := 1, completed := 1, result := result, durationNs := durationNs, request := request }

/-- A request is remembered, put into its section, and submitted. -/
def submitBegin (sec : Section w ρ) (active : MapField (Active ρ)) (request : ρ) (c : Call)
    (m : Maps) (e : EptEvent) : Outcome :=
  let m := active.update m c.pidTgid ⟨e.timeNs, request⟩
  let e := sec.set ((sec.get e).begin request) e
  emitEvent m (sampleCurrentState c m e)

/-- The return of a request that was remembered. -/
def observePairedEnd (sec : Section w ρ) (active : MapField (Active ρ)) (eventType : EventType)
    (result : BitVec w) (c : Call) (m : Maps) (e : EptEvent) : Outcome :=
  match (active.get m).lookup c.pidTgid with
  | none => ⟨m, e, none⟩
  | some args =>
    let outcome : Outcome :=
      match newEvent c eventType e with
      | (e, false) => ⟨m, e, none⟩
      | (e, true) =>
        let e := sec.set (.finish args.request result (e.timeNs - args.startedNs)) e
        emitEvent m (sampleCurrentState c m e)
    { outcome with maps := active.set m ((active.get m).delete c.pidTgid) }

/-- The entry of a system call; `request` makes its request from the number of the call. -/
def observeSyscallEnter (sec : Section w ρ) (active : MapField (Active ρ))
    (counters : MapField (BitVec 64)) (eventType : EventType) (request : BitVec 64 → ρ)
    (c : Call) (m : Maps) (e : EptEvent) : Outcome :=
  if (m.experimentTasks.lookup c.pidTgid).isNone then ⟨m, e, none⟩
  else
    let next := nextId (counters.get m) c.pidTgid
    match newEvent c eventType e with
    | (e, false) => ⟨m, e, none⟩
    | (e, true) =>
      submitBegin sec active (request next) c (counters.update m c.pidTgid next) e

end Paired

/-- `ctx->args` of a system call. -/
abbrev SyscallArgs := Fin 6 → BitVec 64

/-- `(int)ctx->args[i]` -/
def SyscallArgs.int (args : SyscallArgs) (i : Fin 6) : BitVec 32 := (args i).setWidth 32

def observeIoctlEnter (args : SyscallArgs) :=
  observeSyscallEnter .ioctl .activeIoctl .ioctlCounters .sysEnterIoctl
    fun next => ⟨args.int 0, args 1, args 2, next⟩
def observeIoctlExit (ret : BitVec 64) := observePairedEnd .ioctl .activeIoctl .sysExitIoctl ret

def observeMadviseEnter (args : SyscallArgs) :=
  observeSyscallEnter .madvise .activeMadvise .madviseCounters .sysEnterMadvise
    fun next => ⟨args.int 2, args 0, args 1, next⟩
def observeMadviseExit (ret : BitVec 64) :=
  observePairedEnd .madvise .activeMadvise .sysExitMadvise ret

def observeMmapEnter (args : SyscallArgs) :=
  observeSyscallEnter .mmap .activeMmap .mmapCounters .sysEnterMmap
    fun next => ⟨args.int 2, args.int 3, args.int 4, args 0, args 1, args 5, next⟩
def observeMmapExit (ret : BitVec 64) := observePairedEnd .mmap .activeMmap .sysExitMmap ret

/-- `observe_control_begin` -/
def observeControlBegin (command : BitVec 8) (c : Call) (m : Maps) (e : EptEvent) : Outcome :=
  match newEvent c .controlBegin e with
  | (e, false) => ⟨m, e, none⟩
  | (e, true) =>
    let (operationId, m) := nextOperationId m c.pidTgid
    submitBegin .control .activeControl ⟨command, operationId⟩ c m e

def observeControlEnd (result : BitVec 32) :=
  observePairedEnd .control .activeControl .controlEnd result

/-- `observe_memslot_begin` -/
def observeMemslotBegin (vmFd slot : BitVec 32) (guestPhysAddr memory size : BitVec 64)
    (flags : BitVec 32) (c : Call) (m : Maps) (e : EptEvent) : Outcome :=
  let control := m.activeControl.lookup c.pidTgid
  match newEvent c .memslotBegin e with
  | (e, false) => ⟨m, e, none⟩
  | (e, true) =>
    let (operationId, m) := nextOperationId m c.pidTgid
    let controlCommand := match control with
      | some control => control.request.command
      | none => 0
    submitBegin .memslot .activeMemslot
      ⟨controlCommand, vmFd, slot, flags, guestPhysAddr, memory, size, operationId⟩ c m e

def observeMemslotEnd (result : BitVec 32) :=
  observePairedEnd .memslot .activeMemslot .memslotEnd result

/-- The programs with their own arguments. -/
inductive Callback where
  | vmmMain
  | ioctlEnter (args : SyscallArgs) | ioctlExit (ret : BitVec 64)
  | madviseEnter (args : SyscallArgs) | madviseExit (ret : BitVec 64)
  | mmapEnter (args : SyscallArgs) | mmapExit (ret : BitVec 64)
  | controlBegin (command : BitVec 8) | controlEnd (result : BitVec 32)
  | memslotBegin (vmFd slot : BitVec 32) (guestPhysAddr memory size : BitVec 64)
      (flags : BitVec 32)
  | memslotEnd (result : BitVec 32)
  | kvmEntry (vcpu : BitVec 64)
  | kvmExit | kvmPageFault | kvmUserspaceExit | kvmUnmapHvaRange | kvmMmuSpteRequested
  | kvmMmuSetSpte | kvmMmuSplitHugePage | markMmioSpte | kvmFlushRemoteTlbs

def Callback.run : Callback → Call → Maps → EptEvent → Outcome
  | .vmmMain => observeVmmMain
  | .ioctlEnter args => observeIoctlEnter args
  | .ioctlExit ret => observeIoctlExit ret
  | .madviseEnter args => observeMadviseEnter args
  | .madviseExit ret => observeMadviseExit ret
  | .mmapEnter args => observeMmapEnter args
  | .mmapExit ret => observeMmapExit ret
  | .controlBegin command => observeControlBegin command
  | .controlEnd result => observeControlEnd result
  | .memslotBegin vmFd slot guestPhysAddr memory size flags =>
    observeMemslotBegin vmFd slot guestPhysAddr memory size flags
  | .memslotEnd result => observeMemslotEnd result
  | .kvmEntry vcpu => kvmEntrySnapshot vcpu
  | .kvmExit => kvmExitSnapshot
  | .kvmPageFault => kvmPageFaultSnapshot
  | .kvmUserspaceExit => kvmUserspaceExitSnapshot
  | .kvmUnmapHvaRange => kvmUnmapHvaRangeSnapshot
  | .kvmMmuSpteRequested => kvmMmuSpteRequestedSnapshot
  | .kvmMmuSetSpte => kvmMmuSetSpteSnapshot
  | .kvmMmuSplitHugePage => kvmMmuSplitHugePageSnapshot
  | .markMmioSpte => markMmioSpteSnapshot
  | .kvmFlushRemoteTlbs => kvmFlushRemoteTlbsSnapshot

section Same

/-! ## The walk writes its whole record -/

/-- Two walks that stand at one table, with records that agree in the levels written. -/
structure Walk.Same (i : Nat) (w w' : Walk) : Prop where
  record : { w.record with entries := default } = { w'.record with entries := default }
  entries : ∀ j : Fin eptLevels, (j : Nat) < i → w.record.entries j = w'.record.entries j
  tableHpa : w.tableHpa = w'.tableHpa
  table : w.table = w'.table

theorem Walk.Same.record_eq {w w' : Walk} (h : w.Same eptLevels w') : w.record = w'.record := by
  have hrecord := h.record
  simp only [GuestGfn.mk.injEq, and_true] at hrecord
  obtain ⟨hgfn, hgva, hgpa, hpfn, hmapped, hmmio, hleaf⟩ := hrecord
  exact GuestGfn.ext hgfn hgva hgpa hpfn hmapped hmmio hleaf
    (funext fun j => h.entries j j.isLt)

/-- What is written at an index agrees up to it. -/
theorem update_agree {n : Nat} {α : Type} {f g : Fin n → α} {i : Fin n}
    (h : ∀ j : Fin n, (j : Nat) < i → f j = g j) (a : α) :
    ∀ j : Fin n, (j : Nat) < i + 1 → Function.update f i a j = Function.update g i a j := by
  intro j hj
  by_cases hij : j = i
  · rw [hij, Function.update_self, Function.update_self]
  · rw [Function.update_of_ne hij, Function.update_of_ne hij]
    exact h j (by omega)

theorem walkLevel_same (c : Call) (slot : Nat) (gpa : BitVec 64) (i : Fin eptLevels)
    {w w' : Walk} (h : w.Same i w') :
    (walkLevel c slot gpa w i).Same (i + 1) (walkLevel c slot gpa w' i) := by
  have hrecord := h.record
  simp only [GuestGfn.mk.injEq, and_true] at hrecord
  obtain ⟨hgfn, hgva, hgpa, hpfn, hmapped, hmmio, hleaf⟩ := hrecord
  have hput := fun entry => update_agree h.entries entry
  unfold walkLevel
  rw [← h.table, ← h.tableHpa]
  simp only
  generalize (ite (w.table ≠ 0) _ _) = spte
  generalize walkEntry spte w.tableHpa _ _ = entry
  split
  · exact ⟨by simp only [hgfn, hgva, hgpa, hpfn, hmapped, hleaf], hput _, rfl, rfl⟩
  · split
    · exact ⟨by simp only [hgfn, hgva, hgpa, hpfn, hmapped, hmmio, hleaf], hput _, rfl, rfl⟩
    · split
      · exact ⟨by simp only [hgfn, hgva, hgpa, hmmio], hput _, rfl, rfl⟩
      · exact ⟨by simp only [hgfn, hgva, hgpa, hpfn, hmapped, hmmio, hleaf], hput _, rfl, rfl⟩

/-- Nothing of the record before the walk is in the record after it. -/
theorem walkGfn_forgets (c : Call) (slot : Nat) (rootHpa : BitVec 64) (r r' : GuestGfn) :
    walkGfn c slot rootHpa r = walkGfn c slot rootHpa r' := by
  unfold walkGfn
  simp only
  apply Walk.Same.record_eq
  apply finFoldl_rel Walk.Same
  · exact ⟨rfl, fun j hj => absurd hj (Nat.not_lt_zero j), rfl, rfl⟩
  · exact fun i w w' h => walkLevel_same c slot _ i h

/-- The samples are all walked. -/
theorem gfns_forget (c : Call) (rootHpa : BitVec 64) (g g' : Fin maxGfnSamples → GuestGfn) :
    Fin.foldl maxGfnSamples
        (fun gfns i => Function.update gfns i (walkGfn c i rootHpa (gfns i))) g =
      Fin.foldl maxGfnSamples
        (fun gfns i => Function.update gfns i (walkGfn c i rootHpa (gfns i))) g' := by
  have hall := finFoldl_rel (fun i (g g' : Fin maxGfnSamples → GuestGfn) =>
      ∀ j : Fin maxGfnSamples, (j : Nat) < i → g j = g' j)
    (f := fun gfns i => Function.update gfns i (walkGfn c i rootHpa (gfns i)))
    (g := fun gfns i => Function.update gfns i (walkGfn c i rootHpa (gfns i)))
    (s := g) (t := g') (fun j hj => absurd hj (Nat.not_lt_zero j))
    (by
      intro i g g' h
      rw [walkGfn_forgets c i rootHpa (g i) (g' i)]
      exact update_agree h _)
  exact funext fun j => hall j j.isLt

/-! ## One lemma for each operation on the event -/

section Sections

variable {w : Nat} {ρ : Type} [Inhabited ρ]

@[simp] theorem PairedInfo.visible_reset (s : PairedInfo w ρ) :
    s.reset.visible = ⟨0, 0, 0, 0, default⟩ := rfl

@[simp] theorem PairedInfo.visible_finish (request : ρ) (result : BitVec w)
    (durationNs : BitVec 64) :
    (PairedInfo.finish request result durationNs).visible =
      .finish request result durationNs := by
  simp [PairedInfo.visible, PairedInfo.finish]

/-- The return part of a section is visible whether or not the section is present. -/
theorem PairedInfo.visible_begin (s : PairedInfo w ρ) (request : ρ) :
    (s.begin request).visible = s.visible.begin request := by
  unfold PairedInfo.visible PairedInfo.begin
  by_cases h : s.present = 0
  · simp [h]
  · simp only [if_neg h]
    rfl

end Sections

/-- All sections are reset, so that only what the call brings is left. -/
theorem newEvent_same (c : Call) (eventType : EventType) (e e' : EptEvent) :
    (newEvent c eventType e).2 = (newEvent c eventType e').2 ∧
      ((newEvent c eventType e).2 = true →
        (newEvent c eventType e).1.Same (newEvent c eventType e').1) := by
  unfold newEvent
  simp only
  by_cases h : isVmmComm c.comm = true
  · rw [h]
    exact ⟨rfl, fun _ => rfl⟩
  · rw [Bool.not_eq_true] at h
    rw [h]
    exact ⟨rfl, fun hfalse => absurd hfalse Bool.false_ne_true⟩

theorem EptEvent.Same.timeNs {e e' : EptEvent} (h : e.Same e') : e.timeNs = e'.timeNs :=
  show e.visible.timeNs = e'.visible.timeNs from congrArg EptEvent.timeNs h

/-- The state is sampled whole. -/
theorem sampleVcpuState_same (c : Call) (vcpu : BitVec 64) {e e' : EptEvent} (h : e.Same e') :
    (sampleVcpuState c vcpu e).Same (sampleVcpuState c vcpu e') := by
  unfold sampleVcpuState
  simp only
  split
  · exact h
  · rw [gfns_forget c _ e.state.gfns e'.state.gfns]
    unfold EptEvent.Same EptEvent.visible at h ⊢
    simp only [EptEvent.mk.injEq] at h ⊢
    simp only [h, and_self]

theorem sampleCurrentState_same (c : Call) (m : Maps) {e e' : EptEvent} (h : e.Same e') :
    (sampleCurrentState c m e).Same (sampleCurrentState c m e') := by
  unfold sampleCurrentState
  split
  · exact sampleVcpuState_same c _ h
  · exact h

/-! ## Outcomes -/

/-- Two outcomes with the same maps and submitted events that are equal in what is present. -/
structure Outcome.Same (o o' : Outcome) : Prop where
  maps : o.maps = o'.maps
  submitted : o.submitted.map EptEvent.visible = o'.submitted.map EptEvent.visible

theorem Outcome.Same.withMaps {o o' : Outcome} (h : o.Same o') (m : Maps) :
    { o with maps := m }.Same { o' with maps := m } :=
  ⟨rfl, h.submitted⟩

theorem emitEvent_same (m : Maps) {e e' : EptEvent} (h : e.Same e') :
    (emitEvent m e).Same (emitEvent m e') :=
  ⟨rfl, congrArg some h⟩

/-- **After `new_event`**: the rest of a callback may rely on equal visible sections. -/
theorem newEvent_cases {c : Call} {eventType : EventType} {m : Maps} {e e' : EptEvent}
    {rest : EptEvent → Outcome}
    (hrest : ∀ e e' : EptEvent, e.Same e' → (rest e).Same (rest e')) :
    Outcome.Same
      (match newEvent c eventType e with
        | (e, false) => ⟨m, e, none⟩
        | (e, true) => rest e)
      (match newEvent c eventType e' with
        | (e, false) => ⟨m, e, none⟩
        | (e, true) => rest e) := by
  obtain ⟨husable, hsame⟩ := newEvent_same c eventType e e'
  generalize newEvent c eventType e = result at husable hsame ⊢
  generalize newEvent c eventType e' = result' at husable hsame ⊢
  obtain ⟨filled, usable⟩ := result
  obtain ⟨filled', usable'⟩ := result'
  obtain rfl : usable = usable' := husable
  cases usable with
  | false => exact ⟨rfl, rfl⟩
  | true => exact hrest filled filled' (hsame rfl)

theorem snapshotCurrentMm_same (eventType : EventType) (c : Call) (m : Maps) (e e' : EptEvent) :
    (snapshotCurrentMm eventType c m e).Same (snapshotCurrentMm eventType c m e') :=
  newEvent_cases fun _ _ h => emitEvent_same m (sampleCurrentState_same c m h)

theorem snapshotVcpuMm_same (vcpu : BitVec 64) (eventType : EventType) (c : Call) (m : Maps)
    (e e' : EptEvent) :
    (snapshotVcpuMm vcpu eventType c m e).Same (snapshotVcpuMm vcpu eventType c m e') := by
  apply newEvent_cases
  intro e e' h
  by_cases hvcpu : vcpu = 0
  · rw [if_pos hvcpu, if_pos hvcpu]
    exact ⟨rfl, rfl⟩
  · rw [if_neg hvcpu, if_neg hvcpu]
    exact emitEvent_same _ (sampleVcpuState_same c vcpu h)

theorem snapshotLastVcpu_same (eventType : EventType) (c : Call) (m : Maps) (e e' : EptEvent) :
    (snapshotLastVcpu eventType c m e).Same (snapshotLastVcpu eventType c m e') := by
  unfold snapshotLastVcpu
  split
  · exact ⟨rfl, rfl⟩
  · exact snapshotVcpuMm_same _ eventType c m e e'

section Paired

variable {w : Nat} {ρ : Type} [Inhabited ρ]

theorem submitBegin_same (sec : Section w ρ) (active : MapField (Active ρ)) (request : ρ)
    (c : Call) (m : Maps) {e e' : EptEvent} (h : e.Same e') :
    (submitBegin sec active request c m e).Same (submitBegin sec active request c m e') := by
  have hset : (sec.set ((sec.get e).begin request) e).Same
      (sec.set ((sec.get e').begin request) e') := by
    unfold EptEvent.Same
    rw [sec.set_visible, sec.set_visible, PairedInfo.visible_begin, PairedInfo.visible_begin,
      ← sec.get_visible, ← sec.get_visible, h]
  unfold submitBegin
  rw [h.timeNs]
  exact emitEvent_same _ (sampleCurrentState_same c _ hset)

theorem observePairedEnd_same (sec : Section w ρ) (active : MapField (Active ρ))
    (eventType : EventType) (result : BitVec w) (c : Call) (m : Maps) (e e' : EptEvent) :
    (observePairedEnd sec active eventType result c m e).Same
      (observePairedEnd sec active eventType result c m e') := by
  unfold observePairedEnd
  split
  · exact ⟨rfl, rfl⟩
  · rename_i args _
    apply Outcome.Same.withMaps
    apply newEvent_cases
    intro e e' h
    have hset : (sec.set (.finish args.request result (e.timeNs - args.startedNs)) e).Same
        (sec.set (.finish args.request result (e'.timeNs - args.startedNs)) e') := by
      unfold EptEvent.Same
      rw [sec.set_visible, sec.set_visible, h.timeNs, h]
    exact emitEvent_same m (sampleCurrentState_same c m hset)

theorem observeSyscallEnter_same (sec : Section w ρ) (active : MapField (Active ρ))
    (counters : MapField (BitVec 64)) (eventType : EventType) (request : BitVec 64 → ρ)
    (c : Call) (m : Maps) (e e' : EptEvent) :
    (observeSyscallEnter sec active counters eventType request c m e).Same
      (observeSyscallEnter sec active counters eventType request c m e') := by
  unfold observeSyscallEnter
  split
  · exact ⟨rfl, rfl⟩
  · exact newEvent_cases fun _ _ h => submitBegin_same sec active _ c _ h

end Paired

theorem observeControlBegin_same (command : BitVec 8) (c : Call) (m : Maps) (e e' : EptEvent) :
    (observeControlBegin command c m e).Same (observeControlBegin command c m e') :=
  newEvent_cases fun _ _ h => submitBegin_same _ _ _ c _ h

theorem observeMemslotBegin_same (vmFd slot : BitVec 32) (guestPhysAddr memory size : BitVec 64)
    (flags : BitVec 32) (c : Call) (m : Maps) (e e' : EptEvent) :
    (observeMemslotBegin vmFd slot guestPhysAddr memory size flags c m e).Same
      (observeMemslotBegin vmFd slot guestPhysAddr memory size flags c m e') :=
  newEvent_cases fun _ _ h => submitBegin_same _ _ _ c _ h

/-- **Callbacks forget**: a run on two scratch events gives the same maps and submits events
    that are equal in what is present. -/
theorem Callback.run_same (f : Callback) (c : Call) (m : Maps) (e e' : EptEvent) :
    (f.run c m e).Same (f.run c m e') := by
  cases f with
  | vmmMain => exact ⟨rfl, rfl⟩
  | ioctlEnter | madviseEnter | mmapEnter => exact observeSyscallEnter_same _ _ _ _ _ c m e e'
  | ioctlExit | madviseExit | mmapExit | controlEnd | memslotEnd =>
    exact observePairedEnd_same _ _ _ _ c m e e'
  | controlBegin command => exact observeControlBegin_same command c m e e'
  | memslotBegin vmFd slot guestPhysAddr memory size flags =>
    exact observeMemslotBegin_same vmFd slot guestPhysAddr memory size flags c m e e'
  | kvmEntry vcpu => exact snapshotVcpuMm_same vcpu _ c m e e'
  | kvmPageFault | kvmMmuSplitHugePage | markMmioSpte => exact snapshotCurrentMm_same _ c m e e'
  | kvmExit | kvmUserspaceExit | kvmUnmapHvaRange | kvmMmuSpteRequested | kvmMmuSetSpte
  | kvmFlushRemoteTlbs => exact snapshotLastVcpu_same _ c m e e'

end Same

end LinuxMaxxing.VirtEpt
