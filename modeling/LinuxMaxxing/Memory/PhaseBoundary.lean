import LinuxMaxxing.Common.JsonWriter
import LinuxMaxxing.Lib.BpfLoop

/-!
# Memory Snapshots at Phase Boundaries

`phase_boundary_ret` of `memory/mm.bpf.c` with the two walkers it includes. It fills a
per-CPU scratch event that is never cleared and submits a copy.

- a VMA record, its cache counters and its page-table sample, with the fields of
  `mm_event.h`; arrays are functions of their index;
- every read of kernel memory is answered by `Kernel`: two reads at different moments may
  give different values at one address;
- a VMA comes from the iterator, which holds the lock of the address space: its range is
  not reversed.

`phaseBoundaryRet_same` is the result: from any two contents of the scratch event the same
calls fill two events that agree in all that is initialised.
-/

namespace LinuxMaxxing.Memory

open LinuxMaxxing.Lib

/-! ## Limits of `mm_event.h` -/

def maxVmas : Nat := 16
def maxPagesPerVma : Nat := 512
def maxXarrayScanSlots : Nat := 4096
def maxXarrayDepth : Nat := 4
def maxCacheOrders : Nat := 10

/-- `enum mm_page_state` -/
def mmPageNone : BitVec 8 := 0
def mmPagePte : BitVec 8 := 1
def mmPageSwap : BitVec 8 := 2
def mmPageHugePmd : BitVec 8 := 3
def mmPageHugePud : BitVec 8 := 4

/-! ## `struct mm_event` -/

/-- The cache counters of `struct mm_vma_record`. -/
structure CacheCounters where
  folios : BitVec 32
  orderFolios : Nat → BitVec 16
  orderDirty : Nat → BitVec 16
  cleanFolios : BitVec 32
  dirtyFolios : BitVec 32
  writebackFolios : BitVec 32
  lruFolios : BitVec 32
  activeFolios : BitVec 32
  referencedFolios : BitVec 32
  workingsetFolios : BitVec 32
  unevictableFolios : BitVec 32

/-- The page-table sample of `struct mm_vma_record`. -/
structure PageTable where
  scannedPages : BitVec 32
  states : Nat → BitVec 8
  dirty : Nat → BitVec 64
  targets : Nat → BitVec 16

/-- `struct mm_vma_record` -/
structure VmaRecord where
  start : BitVec 64
  stop : BitVec 64
  flags : BitVec 64
  pgoff : BitVec 64
  structFile : BitVec 32
  anonVma : BitVec 64
  anonVmaRoot : BitVec 64
  anonVmaParent : BitVec 64
  inode : BitVec 64
  device : BitVec 32
  fileName : Nat → UInt8
  mapping : BitVec 64
  cachePages : BitVec 64
  cache : CacheCounters
  pt : PageTable

/-- `struct mm_context` -/
structure MmContext where
  pid : BitVec 32
  tid : BitVec 32
  cpu : BitVec 32
  comm : Nat → UInt8

/-- `struct mm_state` without its records. -/
structure MmState where
  mm : BitVec 64
  mmapBase : BitVec 64
  totalVm : BitVec 64
  dataVm : BitVec 64
  execVm : BitVec 64
  stackVm : BitVec 64
  pgtablesBytes : BitVec 64
  mapCount : BitVec 32
  anonPages : BitVec 64
  filePages : BitVec 64
  shmemPages : BitVec 64
  swapEntries : BitVec 64

/-- `struct mm_event` -/
structure MmEvent where
  timeNs : BitVec 64
  phaseSeq : BitVec 32
  context : MmContext
  state : MmState
  vmaCount : Nat
  vmas : Nat → VmaRecord

/-! ## What the kernel answers -/

/-- When a read happens: in which VMA, in which round of its loop, at which depth. -/
structure Moment where
  vma : Nat
  round : Nat
  depth : Nat

/-- The members that are read with `BPF_CORE_READ`, and plain words. -/
inductive Member where
  | mmapBase | totalVm | dataVm | execVm | stackVm | pgtablesBytes | mapCount
  | anonPages | filePages | shmemPages | swapEntries | pgd
  | vmFlags | vmPgoff | vmFile | anonVma
  | fInode | fPathDentry | fMapping | iIno | iSb | sDev | dName | nrpages
  | xaHead | xaShift | xaSlot (slot : Nat)
  | folioFlags | folioFlags1
  | anonRoot | anonParent
  | word

/-- The answers of kernel memory. `string` is what `bpf_probe_read_kernel_str` finds before
    the terminator; `none` is a fault. -/
structure Kernel where
  read : Moment → Member → BitVec 64 → BitVec 64
  string : Moment → BitVec 64 → Option (List UInt8)

/-- A VMA that the iterator yields. -/
structure Vma where
  address : BitVec 64
  start : BitVec 64
  stop : BitVec 64
  start_le : start ≤ stop

/-- `read_u64` -/
def readU64 (k : Kernel) (m : Moment) (address : BitVec 64) : BitVec 64 :=
  if address = 0 then 0 else k.read m .word address

/-- `bpf_probe_read_kernel_str` into 64 bytes: the bytes and their terminator, as far as they
    fit; zeros when the read faults. -/
def probeReadKernelStr (found : Option (List UInt8)) (dst : Nat → UInt8) : Nat → UInt8 :=
  match found with
  | none => fun _ => 0
  | some bytes =>
    let text := (bytes.takeWhile (· ≠ 0)).take 63
    fun i => if i < text.length then text.getD i 0 else if i = text.length then 0 else dst i

/-! ## `mm_xarray_walk.bpf.h` -/

def xaIsInternalEntry (entry : BitVec 64) : Bool := entry &&& 3 = 2
def xaIsNodeEntry (entry : BitVec 64) : Bool := xaIsInternalEntry entry && decide (4096 < entry)
def xaIsSiblingEntry (entry : BitVec 64) : Bool :=
  xaIsInternalEntry entry && decide (entry < 254)
def xaToNodeAddress (entry : BitVec 64) : BitVec 64 := entry - 2

/-- Page flags. The values of `enum pageflags` are the kernel's. -/
structure PageFlags where
  dirty : Nat
  writeback : Nat
  lru : Nat
  active : Nat
  referenced : Nat
  workingset : Nat
  unevictable : Nat
  head : Nat

/-- A counter that is incremented under a condition. -/
def bump {w : Nat} (condition : Bool) (counter : BitVec w) : BitVec w :=
  if condition then counter + 1 else counter

/-- `count_cache_folio` -/
def countCacheFolio (pg : PageFlags) (k : Kernel) (m : Moment) (folio : BitVec 64)
    (c : CacheCounters) : CacheCounters :=
  let flags := k.read m .folioFlags folio
  let dirty := flags.getLsbD pg.dirty
  let writeback := flags.getLsbD pg.writeback
  let order :=
    if flags.getLsbD pg.head then (k.read m .folioFlags1 folio &&& 0xff).toNat else 0
  let order := min order (maxCacheOrders - 1)
  { folios := c.folios + 1
    orderFolios := Function.update c.orderFolios order (c.orderFolios order + 1)
    orderDirty := Function.update c.orderDirty order (bump dirty (c.orderDirty order))
    cleanFolios := bump (!dirty && !writeback) c.cleanFolios
    dirtyFolios := bump dirty c.dirtyFolios
    writebackFolios := bump writeback c.writebackFolios
    lruFolios := bump (flags.getLsbD pg.lru) c.lruFolios
    activeFolios := bump (flags.getLsbD pg.active) c.activeFolios
    referencedFolios := bump (flags.getLsbD pg.referenced) c.referencedFolios
    workingsetFolios := bump (flags.getLsbD pg.workingset) c.workingsetFolios
    unevictableFolios := bump (flags.getLsbD pg.unevictable) c.unevictableFolios }

/-- The bounded point lookup for deeper trees; `none` when it meets a sibling entry. -/
def xaLookup (k : Kernel) (vma slot : Nat) : Nat → Nat → BitVec 64 → Option (BitVec 64)
  | 0, _, entry => some entry
  | n + 1, depth, entry =>
    if !xaIsNodeEntry entry then some entry
    else
      let node := xaToNodeAddress entry
      let shift := (k.read ⟨vma, slot, depth⟩ .xaShift node).toNat % 256
      let offset := (slot / 2 ^ (shift % 64)) % 64
      let entry := k.read ⟨vma, slot, depth⟩ (.xaSlot offset) node
      if xaIsSiblingEntry entry then none else xaLookup k vma slot n (depth + 1) entry

/-- The entry of a slot as `walk_xarray` finds it; `none` when it counts nothing. -/
def xaEntry (k : Kernel) (vma slot : Nat) (mapping : BitVec 64) : Option (BitVec 64) :=
  let entry := k.read ⟨vma, slot, 0⟩ .xaHead mapping
  if entry = 0 ∨ entry &&& 1 = 1 then none
  else if xaIsNodeEntry entry then
    let root := xaToNodeAddress entry
    let rootShift := (k.read ⟨vma, slot, 0⟩ .xaShift root).toNat % 256
    if rootShift = 0 then
      if 64 ≤ slot then none else some (k.read ⟨vma, slot, 0⟩ (.xaSlot slot) root)
    else if rootShift = 6 then
      let rootSlot := slot / 64
      let leafSlot := slot % 64
      if 64 ≤ rootSlot then none
      else
        let entry := k.read ⟨vma, slot, 0⟩ (.xaSlot rootSlot) root
        if entry = 0 ∨ entry &&& 1 = 1 ∨ xaIsSiblingEntry entry then none
        else if xaIsNodeEntry entry then
          some (k.read ⟨vma, slot, 1⟩ (.xaSlot leafSlot) (xaToNodeAddress entry))
        else if leafSlot ≠ 0 then none
        else some entry
    else xaLookup k vma slot maxXarrayDepth 1 entry
  else if slot ≠ 0 then none
  else some entry

/-- `walk_xarray` on the counters of the record it fills. -/
def walkXarray (pg : PageFlags) (k : Kernel) (vma : Nat) (mapping : BitVec 64) (slot : Nat)
    (c : CacheCounters) : CacheCounters × Bool :=
  if maxXarrayScanSlots ≤ slot ∨ maxVmas ≤ vma ∨ mapping = 0 then (c, true)
  else
    match xaEntry k vma slot mapping with
    | none => (c, false)
    | some entry =>
      if entry = 0 ∨ entry &&& 1 = 1 ∨ xaIsInternalEntry entry ∨ xaIsSiblingEntry entry then
        (c, false)
      else (countCacheFolio pg k ⟨vma, slot, 0⟩ entry c, false)

/-! ## `mm_page_walk.bpf.h` -/

def pageSize : BitVec 64 := 0x1000
def pteAddressMask : BitVec 64 := 0x000ffffffffff000

/-- `struct pt_walk` -/
structure PtWalk where
  start : BitVec 64
  stop : BitVec 64
  pgd : BitVec 64
  pageOffsetBase : BitVec 64
  pages : BitVec 32
  vmaIndex : Nat

/-- `next_table` -/
def nextTable (entry pageOffsetBase : BitVec 64) : BitVec 64 :=
  (entry &&& pteAddressMask) + pageOffsetBase

/-- `set_page` on the sample of the record. -/
def setPage (pt : PageTable) (index : Nat) (state : BitVec 8) (target : BitVec 64)
    (dirty : Bool) : PageTable :=
  let pageIndex := index % maxPagesPerVma
  if pt.scannedPages.toNat ≤ pageIndex then pt
  else { pt with
    states := Function.update pt.states pageIndex state
    dirty :=
      if dirty then
        Function.update pt.dirty (pageIndex / 64)
          (pt.dirty (pageIndex / 64) ||| (1 : BitVec 64) <<< (pageIndex % 64))
      else pt.dirty
    targets := Function.update pt.targets pageIndex
      ((target ^^^ (target >>> 16) ^^^ (target >>> 32)).setWidth 16) }

/-- What the walker finds at an address: the leaf's state, its target and its dirty bit. -/
def pageLeaf (k : Kernel) (walk : PtWalk) (index : Nat) (address : BitVec 64) :
    BitVec 8 × BitVec 64 × Bool :=
  let slot (table : BitVec 64) (shift depth : Nat) : BitVec 64 :=
    readU64 k ⟨walk.vmaIndex, index, depth⟩ (table + ((address >>> shift) &&& 0x1ff) * 8)
  let present (entry : BitVec 64) : Bool := entry.getLsbD 0
  let dirty (entry : BitVec 64) : Bool := entry.getLsbD 6
  let large (entry : BitVec 64) : Bool := entry.getLsbD 7
  let none := (mmPageNone, 0, false)
  let entry := slot walk.pgd 39 0
  if !present entry then none
  else
    let entry := slot (nextTable entry walk.pageOffsetBase) 30 1
    if !present entry then none
    else if large entry then
      (mmPageHugePud, ((entry &&& pteAddressMask) >>> 12) + ((address &&& 0x3fffffff) >>> 12),
        dirty entry)
    else
      let entry := slot (nextTable entry walk.pageOffsetBase) 21 2
      if !present entry then none
      else if large entry then
        (mmPageHugePmd, ((entry &&& pteAddressMask) >>> 12) + ((address &&& 0x1fffff) >>> 12),
          dirty entry)
      else
        let entry := slot (nextTable entry walk.pageOffsetBase) 12 3
        if present entry then (mmPagePte, (entry &&& pteAddressMask) >>> 12, dirty entry)
        else if entry ≠ 0 then (mmPageSwap, 0, false)
        else none

/-- `walk_page_table` -/
def walkPageTable (k : Kernel) (walk : PtWalk) (index : Nat) (pt : PageTable) :
    PageTable × Bool :=
  let address := walk.start + BitVec.ofNat 64 index * pageSize
  if walk.pages.toNat ≤ index ∨ walk.stop ≤ address ∨ maxVmas ≤ walk.vmaIndex then (pt, true)
  else
    let (state, target, dirty) := pageLeaf k walk index address
    (setPage pt index state target dirty, false)

/-! ## `phase_boundary_ret` -/

/-- What a call of the return probe meets. `pageOffsetBase` is the loader's constant. -/
structure Call where
  kernel : Kernel
  pageFlags : PageFlags
  pageOffsetBase : BitVec 64
  comm : Nat → UInt8
  pidTgid : BitVec 64
  cpu : BitVec 32
  timeNs : BitVec 64
  /-- `active_args` at this `pid_tgid` -/
  phaseSeq : Option (BitVec 32)
  /-- `task->mm` -/
  mm : BitVec 64
  vmas : List Vma
  /-- the ring buffer takes the event -/
  delivered : Bool

/-- `is_memory_workload`: the first 15 bytes of the name. -/
def isMemoryWorkload (comm : Nat → UInt8) : Bool :=
  (List.range 15).all fun i =>
    comm i = ([119, 111, 114, 107, 108, 111, 97, 100, 95, 109, 109] : List UInt8).getD i 0

/-- The counters are reset before a walk, and left so when there is none. -/
def CacheCounters.zero : CacheCounters := ⟨0, fun _ => 0, fun _ => 0, 0, 0, 0, 0, 0, 0, 0, 0⟩

/-- `mapping_seen`: an earlier record of this event has the mapping. -/
def mappingSeen (e : MmEvent) (mapping : BitVec 64) : Bool :=
  (List.range maxVmas).any fun previous =>
    previous < e.vmaCount && (e.vmas previous).mapping = mapping

/-- The part of record `index` that describes the file of the VMA, if it has one; `seen` says
    which mappings an earlier record has. -/
def captureFile (c : Call) (index : Nat) (seen : BitVec 64 → Bool) (file : BitVec 64)
    (r : VmaRecord) : VmaRecord :=
  let m : Moment := ⟨index, 0, 0⟩
  if file ≠ 0 then
    let inode := c.kernel.read m .fInode file
    let dentry := c.kernel.read m .fPathDentry file
    let name := c.kernel.read m .dName dentry
    let mapping := c.kernel.read m .fMapping file
    let fileName := Function.update r.fileName 0 0
    let r := { r with
      structFile := 1
      inode := if inode ≠ 0 then c.kernel.read m .iIno inode else 0
      device :=
        if inode ≠ 0 then
          (c.kernel.read m .sDev (c.kernel.read m .iSb inode)).setWidth 32
        else 0
      fileName :=
        if dentry ≠ 0 ∧ name ≠ 0 then probeReadKernelStr (c.kernel.string m name) fileName
        else fileName
      mapping := mapping
      cachePages := if mapping ≠ 0 then c.kernel.read m .nrpages mapping else 0
      cache := .zero }
    if mapping ≠ 0 ∧ !seen mapping then
      { r with
        cache := bpfLoop maxXarrayScanSlots
          (walkXarray c.pageFlags c.kernel index mapping) r.cache }
    else r
  else
    { r with
      structFile := 0
      inode := 0
      device := 0
      fileName := Function.update r.fileName 0 0
      mapping := 0
      cachePages := 0
      cache := .zero }

/-- The anonymous reverse map of the VMA. -/
def captureAnonVma (c : Call) (index : Nat) (v : Vma) (r : VmaRecord) : VmaRecord :=
  let m : Moment := ⟨index, 0, 0⟩
  let anonVma := c.kernel.read m .anonVma v.address
  { r with
    anonVma := anonVma
    anonVmaRoot := if anonVma ≠ 0 then c.kernel.read m .anonRoot anonVma else 0
    anonVmaParent := if anonVma ≠ 0 then c.kernel.read m .anonParent anonVma else 0 }

/-- How many pages of a range are sampled. -/
def sampledPages (start stop : BitVec 64) : BitVec 32 :=
  let pages := ((stop - start) >>> 12).setWidth 32
  if maxPagesPerVma < pages.toNat then BitVec.ofNat 32 maxPagesPerVma else pages

/-- The walk over the pages of a range. -/
def ptWalk (c : Call) (index : Nat) (start stop : BitVec 64) : PtWalk where
  start := start
  stop := stop
  pgd := c.kernel.read ⟨index, 0, 0⟩ .pgd c.mm
  pageOffsetBase := readU64 c.kernel ⟨index, 0, 0⟩ c.pageOffsetBase
  pages := sampledPages start stop
  vmaIndex := index

/-- The page-table sample of the VMA. -/
def capturePages (c : Call) (index : Nat) (r : VmaRecord) : VmaRecord :=
  let walk := ptWalk c index r.start r.stop
  { r with
    pt := bpfLoop walk.pages.toNat (walkPageTable c.kernel walk)
      { r.pt with scannedPages := walk.pages, dirty := fun _ => 0 } }

/-- The whole record of the VMA. -/
def captureRecord (c : Call) (index : Nat) (seen : BitVec 64 → Bool) (v : Vma)
    (r : VmaRecord) : VmaRecord :=
  let m : Moment := ⟨index, 0, 0⟩
  let r := { r with
    start := v.start
    stop := v.stop
    flags := c.kernel.read m .vmFlags v.address
    pgoff := c.kernel.read m .vmPgoff v.address }
  let r := captureFile c index seen (c.kernel.read m .vmFile v.address) r
  capturePages c index (captureAnonVma c index v r)

/-- `bpf_for_each(task_vma, ...)` -/
def captureVmas (c : Call) : List Vma → MmEvent → MmEvent
  | [], e => e
  | v :: vmas, e =>
    if maxVmas ≤ e.vmaCount then e
    else captureVmas c vmas { e with
      vmas := Function.update e.vmas e.vmaCount
        (captureRecord c e.vmaCount (mappingSeen e) v (e.vmas e.vmaCount))
      vmaCount := e.vmaCount + 1 }

/-- The head of the state, read from the address space. -/
def captureState (c : Call) : MmState :=
  let mm (f : Member) := c.kernel.read ⟨0, 0, 0⟩ f c.mm
  { mm := c.mm
    mmapBase := mm .mmapBase
    totalVm := mm .totalVm
    dataVm := mm .dataVm
    execVm := mm .execVm
    stackVm := mm .stackVm
    pgtablesBytes := mm .pgtablesBytes
    mapCount := (mm .mapCount).setWidth 32
    anonPages := mm .anonPages
    filePages := mm .filePages
    shmemPages := mm .shmemPages
    swapEntries := mm .swapEntries }

/-- `phase_boundary_ret`: the scratch event it leaves, and whether it submits it. -/
def phaseBoundaryRet (c : Call) (e : MmEvent) : MmEvent × Bool :=
  let e := { e with context := { e.context with comm := c.comm } }
  if !isMemoryWorkload c.comm then (e, false)
  else
    let e := { e with
      phaseSeq := c.phaseSeq.getD 0
      context :=
        { pid := (c.pidTgid >>> 32).setWidth 32
          tid := c.pidTgid.setWidth 32
          cpu := c.cpu
          comm := c.comm } }
    if c.mm = 0 then (e, false)
    else
      (captureVmas c c.vmas
        { e with timeNs := c.timeNs, state := captureState c, vmaCount := 0 }, true)

/-! ## Records that agree in what is initialised -/

/-- Two samples with the same valid entries. -/
structure PageTable.Same (pt pt' : PageTable) : Prop where
  scannedPages : pt.scannedPages = pt'.scannedPages
  dirty : pt.dirty = pt'.dirty
  states : ∀ i < pt.scannedPages.toNat, pt.states i = pt'.states i
  targets : ∀ i < pt.scannedPages.toNat, pt.targets i = pt'.targets i

/-- The fields that are written whole. -/
def VmaRecord.fixed (r : VmaRecord) : VmaRecord :=
  { r with fileName := fun _ => 0, pt := ⟨0, fun _ => 0, fun _ => 0, fun _ => 0⟩ }

/-- The bytes of `file_name`. -/
def VmaRecord.nameBytes (r : VmaRecord) : List UInt8 := (List.range 64).map r.fileName

/-- The name as far as its terminator. -/
def VmaRecord.name (r : VmaRecord) : List UInt8 := Common.JsonWriter.cString r.nameBytes 64

/-- Two records that agree in all but the bytes behind the name and the entries behind the
    sample. -/
structure VmaRecord.Same (r r' : VmaRecord) : Prop where
  fixed : r.fixed = r'.fixed
  name : r.name = r'.name
  pt : r.pt.Same r'.pt

/-- Two events that agree up to their last record. -/
structure MmEvent.Same (e e' : MmEvent) : Prop where
  timeNs : e.timeNs = e'.timeNs
  phaseSeq : e.phaseSeq = e'.phaseSeq
  context : e.context = e'.context
  state : e.state = e'.state
  vmaCount : e.vmaCount = e'.vmaCount
  vmas : ∀ i < e.vmaCount, (e.vmas i).Same (e'.vmas i)

section Same

/-! ### The name -/

/-- A name that is terminated within its 64 bytes ends there. -/
theorem cString_terminated {f : Nat → UInt8} {text : List UInt8} (hlen : text.length < 64)
    (hne : ∀ ch ∈ text, ch ≠ 0) (hf : ∀ i < text.length, f i = text.getD i 0)
    (hend : f text.length = 0) :
    Common.JsonWriter.cString ((List.range 64).map f) 64 = text := by
  have hsplit : (List.range 64).map f =
      text ++ 0 :: (List.range (63 - text.length)).map fun i => f (text.length + (i + 1)) := by
    have h64 : 64 = text.length + ((63 - text.length) + 1) := by omega
    conv_lhs => rw [h64, List.range_add, List.map_append, List.range_succ_eq_map]
    have hhead : (List.range text.length).map f = text := by
      apply List.ext_getElem
      · simp
      · intro i _ hi
        simp [hf i hi, List.getElem?_eq_getElem hi]
    rw [hhead]
    simp [hend, Function.comp_def]
  unfold Common.JsonWriter.cString
  rw [List.take_of_length_le (by simp), hsplit, List.takeWhile_append_of_pos (by simpa using hne)]
  simp

/-- What was in the buffer does not show in the name that is read into it. -/
theorem probeReadKernelStr_name (found : Option (List UInt8)) (dst dst' : Nat → UInt8) :
    Common.JsonWriter.cString ((List.range 64).map (probeReadKernelStr found dst)) 64 =
      Common.JsonWriter.cString ((List.range 64).map (probeReadKernelStr found dst')) 64 := by
  cases found with
  | none => rfl
  | some bytes =>
    have hname : ∀ dst, Common.JsonWriter.cString
        ((List.range 64).map (probeReadKernelStr (some bytes) dst)) 64 =
        (bytes.takeWhile (· ≠ 0)).take 63 := by
      intro dst
      apply cString_terminated
      · rw [List.length_take]
        omega
      · intro ch hch
        simpa using List.all_eq_true.mp List.all_takeWhile ch (List.mem_of_mem_take hch)
      · intro i hi
        simp only [probeReadKernelStr, if_pos hi]
      · simp only [probeReadKernelStr, lt_irrefl, if_false, if_true]
    rw [hname, hname]

/-! ### The page-table sample -/

/-- The sampled pages lie inside the range. -/
theorem sampled_offset_lt {start stop : BitVec 64} (hle : start ≤ stop) {i : Nat}
    (hi : i < (sampledPages start stop).toNat) : start.toNat + i * 4096 < stop.toNat := by
  have hle' : start.toNat ≤ stop.toNat := hle
  have hdiff : (stop - start).toNat = stop.toNat - start.toNat := BitVec.toNat_sub_of_le hle
  have hpages : (sampledPages start stop).toNat ≤ (stop.toNat - start.toNat) / 4096 := by
    have htrunc : (((stop - start) >>> 12).setWidth 32).toNat ≤
        (stop.toNat - start.toNat) / 4096 := by
      rw [BitVec.toNat_setWidth, BitVec.toNat_ushiftRight, hdiff, Nat.shiftRight_eq_div_pow]
      exact Nat.mod_le _ _
    unfold sampledPages
    simp only
    split
    · rename_i hlt
      have h512 : (BitVec.ofNat 32 maxPagesPerVma).toNat = maxPagesPerVma := rfl
      omega
    · exact htrunc
  omega

/-- So their addresses do not wrap around. -/
theorem page_address_toNat {start stop : BitVec 64} (hle : start ≤ stop) {i : Nat}
    (hi : i < (sampledPages start stop).toNat) :
    (start + BitVec.ofNat 64 i * pageSize).toNat = start.toNat + i * 4096 := by
  have hlt := sampled_offset_lt hle hi
  have hstop := stop.isLt
  have hoffset : (BitVec.ofNat 64 i * pageSize).toNat = i * 4096 := by
    have h4096 : pageSize.toNat = 4096 := rfl
    rw [BitVec.toNat_mul, BitVec.toNat_ofNat, h4096]
    omega
  rw [BitVec.toNat_add, hoffset]
  omega

theorem page_address_lt {start stop : BitVec 64} (hle : start ≤ stop) {i : Nat}
    (hi : i < (sampledPages start stop).toNat) :
    (start + BitVec.ofNat 64 i * pageSize).toNat < stop.toNat := by
  rw [page_address_toNat hle hi]
  exact sampled_offset_lt hle hi

theorem sampledPages_le (start stop : BitVec 64) :
    (sampledPages start stop).toNat ≤ maxPagesPerVma := by
  unfold sampledPages
  simp only
  split
  · exact le_rfl
  · exact not_lt.mp ‹_›

/-- Writing an entry that is sampled, in two samples. -/
theorem setPage_same {pt pt' : PageTable} {pages : BitVec 32} {index : Nat}
    (hindex : index < pages.toNat) (hmax : pages.toNat ≤ maxPagesPerVma)
    (hpt : pt.scannedPages = pages) (hpt' : pt'.scannedPages = pages)
    (hdirty : pt.dirty = pt'.dirty) (state : BitVec 8) (target : BitVec 64) (dirty : Bool)
    (hbelow : ∀ j < index, pt.states j = pt'.states j ∧ pt.targets j = pt'.targets j) :
    (setPage pt index state target dirty).scannedPages = pages ∧
      (setPage pt' index state target dirty).scannedPages = pages ∧
      (setPage pt index state target dirty).dirty = (setPage pt' index state target dirty).dirty ∧
      ∀ j < index + 1,
        (setPage pt index state target dirty).states j =
          (setPage pt' index state target dirty).states j ∧
        (setPage pt index state target dirty).targets j =
          (setPage pt' index state target dirty).targets j := by
  have hmod : index % maxPagesPerVma = index := Nat.mod_eq_of_lt (by omega)
  unfold setPage
  simp only [hmod, hpt, hpt', not_le.mpr hindex, if_false, hdirty, true_and]
  intro j hj
  rcases Nat.lt_succ_iff_lt_or_eq.mp hj with hlt | rfl
  · simpa only [Function.update_of_ne (Nat.ne_of_lt hlt)] using hbelow j hlt
  · simp

/-- A sampled page is walked. -/
theorem walkPageTable_sampled (c : Call) {index : Nat} (hindex : index < maxVmas)
    {start stop : BitVec 64} (hle : start ≤ stop) {i : Nat}
    (hi : i < (ptWalk c index start stop).pages.toNat) (pt : PageTable) :
    walkPageTable c.kernel (ptWalk c index start stop) i pt =
      let leaf := pageLeaf c.kernel (ptWalk c index start stop) i
        (start + BitVec.ofNat 64 i * pageSize)
      (setPage pt i leaf.1 leaf.2.1 leaf.2.2, false) := by
  have hlt : start + BitVec.ofNat 64 i * pageSize < stop := page_address_lt hle hi
  have hgo : ¬ ((ptWalk c index start stop).pages.toNat ≤ i ∨
      stop ≤ start + BitVec.ofNat 64 i * pageSize ∨ maxVmas ≤ index) := by
    rintro (h | h | h)
    · omega
    · exact absurd h (BitVec.not_le.mpr hlt)
    · omega
  unfold walkPageTable
  exact if_neg hgo

/-- The walk writes every entry it claims to have scanned. -/
theorem capturePages_same (c : Call) {index : Nat} (hindex : index < maxVmas) {r r' : VmaRecord}
    (hstart : r.start = r'.start) (hstop : r.stop = r'.stop) (hle : r.start ≤ r.stop) :
    (capturePages c index r).pt.Same (capturePages c index r').pt := by
  have hmax : (ptWalk c index r.start r.stop).pages.toNat ≤ maxPagesPerVma :=
    sampledPages_le r.start r.stop
  have hwalked := fun i hi => walkPageTable_sampled c hindex hle (i := i) hi
  unfold capturePages
  rw [← hstart, ← hstop]
  generalize ptWalk c index r.start r.stop = walk at hmax hwalked ⊢
  obtain ⟨hpt, hpt', hdirty, hbelow⟩ := bpfLoop_rel (n := walk.pages.toNat)
    (f := walkPageTable c.kernel walk) (g := walkPageTable c.kernel walk)
    (s := { r.pt with scannedPages := walk.pages, dirty := fun _ => 0 })
    (t := { r'.pt with scannedPages := walk.pages, dirty := fun _ => 0 })
    (fun i (pt pt' : PageTable) => pt.scannedPages = walk.pages ∧ pt'.scannedPages = walk.pages ∧
      pt.dirty = pt'.dirty ∧
      ∀ j < i, pt.states j = pt'.states j ∧ pt.targets j = pt'.targets j)
    ⟨rfl, rfl, rfl, fun j hj => absurd hj (Nat.not_lt_zero j)⟩
    (by
      rintro i hi pt pt' ⟨hpt, hpt', hdirty, hbelow⟩
      simp only [hwalked i hi, true_and]
      exact setPage_same hi hmax hpt hpt' hdirty _ _ _ hbelow)
  exact ⟨hpt.trans hpt'.symm, hdirty, fun i hi => (hbelow i (hpt ▸ hi)).1,
    fun i hi => (hbelow i (hpt ▸ hi)).2⟩

/-! ### The record -/

/-- An empty name, whatever is behind it. -/
theorem cleared_name (f : Nat → UInt8) :
    Common.JsonWriter.cString ((List.range 64).map (Function.update f 0 0)) 64 = [] :=
  cString_terminated (by decide) (by simp) (by simp) (by simp)

/-- The file part writes its own fields whole, and the name up to its terminator. -/
theorem captureFile_same (c : Call) (index : Nat) (seen : BitVec 64 → Bool) (file : BitVec 64)
    {r r' : VmaRecord} (hstart : r.start = r'.start) (hstop : r.stop = r'.stop)
    (hflags : r.flags = r'.flags) (hpgoff : r.pgoff = r'.pgoff) :
    (captureFile c index seen file r).name = (captureFile c index seen file r').name ∧
      ∀ (anonVma root parent : BitVec 64),
        { captureFile c index seen file r with
          anonVma := anonVma, anonVmaRoot := root, anonVmaParent := parent }.fixed =
        { captureFile c index seen file r' with
          anonVma := anonVma, anonVmaRoot := root, anonVmaParent := parent }.fixed := by
  unfold captureFile
  simp only
  by_cases hfile : file ≠ 0
  · rw [if_pos hfile, if_pos hfile]
    generalize c.kernel.read ⟨index, 0, 0⟩ .dName _ = dname
    have hname : ∀ (r r' : VmaRecord) (condition : Prop) [Decidable condition],
        Common.JsonWriter.cString ((List.range 64).map
          (if condition then probeReadKernelStr (c.kernel.string ⟨index, 0, 0⟩ dname)
            (Function.update r.fileName 0 0) else Function.update r.fileName 0 0)) 64 =
        Common.JsonWriter.cString ((List.range 64).map
          (if condition then probeReadKernelStr (c.kernel.string ⟨index, 0, 0⟩ dname)
            (Function.update r'.fileName 0 0) else Function.update r'.fileName 0 0)) 64 := by
      intro r r' condition _
      split
      · exact probeReadKernelStr_name _ _ _
      · rw [cleared_name, cleared_name]
    constructor
    · split
      · exact hname r r' _
      · exact hname r r' _
    · intro anonVma root parent
      unfold VmaRecord.fixed
      split
      · simp only [hstart, hstop, hflags, hpgoff]
      · simp only [hstart, hstop, hflags, hpgoff]
  · rw [if_neg hfile, if_neg hfile]
    constructor
    · exact (cleared_name r.fileName).trans (cleared_name r'.fileName).symm
    · intro anonVma root parent
      unfold VmaRecord.fixed
      simp only [hstart, hstop, hflags, hpgoff]

theorem captureFile_range (c : Call) (index : Nat) (seen : BitVec 64 → Bool) (file : BitVec 64)
    (r : VmaRecord) :
    (captureFile c index seen file r).start = r.start ∧
      (captureFile c index seen file r).stop = r.stop ∧
      (captureFile c index seen file r).pt = r.pt := by
  unfold captureFile
  simp only
  split
  · split <;> exact ⟨rfl, rfl, rfl⟩
  · exact ⟨rfl, rfl, rfl⟩

/-- A record is written from what the call meets and which mappings have been seen. -/
theorem captureRecord_same (c : Call) {index : Nat} (hindex : index < maxVmas)
    (seen : BitVec 64 → Bool) (v : Vma) (r r' : VmaRecord) :
    (captureRecord c index seen v r).Same (captureRecord c index seen v r') := by
  unfold captureRecord
  simp only
  generalize hr : ({ r with
    start := v.start
    stop := v.stop
    flags := c.kernel.read ⟨index, 0, 0⟩ .vmFlags v.address
    pgoff := c.kernel.read ⟨index, 0, 0⟩ .vmPgoff v.address } : VmaRecord) = q
  generalize hr' : ({ r' with
    start := v.start
    stop := v.stop
    flags := c.kernel.read ⟨index, 0, 0⟩ .vmFlags v.address
    pgoff := c.kernel.read ⟨index, 0, 0⟩ .vmPgoff v.address } : VmaRecord) = q'
  generalize c.kernel.read ⟨index, 0, 0⟩ .vmFile v.address = file
  have hq : q.start = v.start ∧ q.stop = v.stop := by
    subst hr
    exact ⟨rfl, rfl⟩
  have hq' : q'.start = v.start ∧ q'.stop = v.stop := by
    subst hr'
    exact ⟨rfl, rfl⟩
  have hflags : q.flags = q'.flags ∧ q.pgoff = q'.pgoff := by
    subst hr hr'
    exact ⟨rfl, rfl⟩
  obtain ⟨hname, hfixed⟩ := captureFile_same c index seen file (hq.1.trans hq'.1.symm)
    (hq.2.trans hq'.2.symm) hflags.1 hflags.2
  obtain ⟨hstart, hstop, -⟩ := captureFile_range c index seen file q
  obtain ⟨hstart', hstop', -⟩ := captureFile_range c index seen file q'
  refine ⟨hfixed _ _ _, hname, ?_⟩
  have hle : (captureFile c index seen file q).start ≤ (captureFile c index seen file q).stop := by
    rw [hstart, hstop, hq.1, hq.2]
    exact v.start_le
  apply capturePages_same c hindex
  · show (captureFile c index seen file q).start = (captureFile c index seen file q').start
    rw [hstart, hstart', hq.1, hq'.1]
  · show (captureFile c index seen file q).stop = (captureFile c index seen file q').stop
    rw [hstop, hstop', hq.2, hq'.2]
  · exact hle

/-! ### The event -/

/-- Which mappings have been seen is read from the records of this event only. -/
theorem mappingSeen_congr {e e' : MmEvent} (h : e.Same e') : mappingSeen e = mappingSeen e' := by
  funext mapping
  unfold mappingSeen
  rw [← h.vmaCount]
  congr 1
  funext previous
  by_cases hlt : previous < e.vmaCount
  · have hmapping : (e.vmas previous).mapping = (e'.vmas previous).mapping := by
      show (e.vmas previous).fixed.mapping = (e'.vmas previous).fixed.mapping
      rw [(h.vmas previous hlt).fixed]
    rw [hmapping]
  · simp only [hlt, decide_false, Bool.false_and]

theorem captureVmas_same (c : Call) (vmas : List Vma) {e e' : MmEvent} (h : e.Same e') :
    (captureVmas c vmas e).Same (captureVmas c vmas e') := by
  induction vmas generalizing e e' with
  | nil => exact h
  | cons v vmas ih =>
    unfold captureVmas
    rw [← h.vmaCount, ← mappingSeen_congr h]
    split
    · exact h
    · rename_i hroom
      apply ih
      refine ⟨h.timeNs, h.phaseSeq, h.context, h.state, rfl, ?_⟩
      intro i hi
      rcases Nat.lt_succ_iff_lt_or_eq.mp hi with hlt | rfl
      · simpa only [Function.update_of_ne (Nat.ne_of_lt hlt)] using h.vmas i hlt
      · simpa only [Function.update_self] using
          captureRecord_same c (not_le.mp hroom) (mappingSeen e) v _ _

/-- **Snapshots forget**: a call fills two scratch events alike, whatever they held. -/
theorem phaseBoundaryRet_same (c : Call) (e e' : MmEvent) :
    (phaseBoundaryRet c e).2 = (phaseBoundaryRet c e').2 ∧
      ((phaseBoundaryRet c e).2 = true →
        (phaseBoundaryRet c e).1.Same (phaseBoundaryRet c e').1) := by
  unfold phaseBoundaryRet
  simp only
  split
  · exact ⟨rfl, fun h => absurd h Bool.false_ne_true⟩
  · split
    · exact ⟨rfl, fun h => absurd h Bool.false_ne_true⟩
    · refine ⟨rfl, fun _ => captureVmas_same c c.vmas ?_⟩
      exact ⟨rfl, rfl, rfl, rfl, rfl, fun i hi => absurd hi (Nat.not_lt_zero i)⟩

end Same

end LinuxMaxxing.Memory
