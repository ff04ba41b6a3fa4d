import LinuxMaxxing.Memory.PhaseBoundary

/-!
# Writing Memory Snapshots

The callback of `memory/observer.c` that turns a submitted event into a record, and the
whole way from calls of the return probe to the observer's output.

`stream_forgets` is the result: the output is the one in which every call starts from an
empty scratch event, so that nothing of an earlier snapshot shows in a later one.
-/

namespace LinuxMaxxing.Memory

open LinuxMaxxing.Common LinuxMaxxing.Common.JsonWriter

/-! ## The parts of a record -/

/-- `write_event_info` -/
def writeEventInfo (jw : JsonWriter) (phaseSeq : BitVec 32) : JsonWriter :=
  jw.u32 (literal "phase_seq") phaseSeq

/-- `write_context` -/
def writeContext (jw : JsonWriter) (context : MmContext) : JsonWriter :=
  (((jw.u32 (literal "cpu") context.cpu).u32 (literal "pid") context.pid).u32 (literal "tid")
    context.tid).stringN (literal "comm") ((List.range 16).map context.comm) 16

/-- `write_rss` -/
def writeRss (jw : JsonWriter) (state : MmState) : JsonWriter :=
  let jw := jw.objectBeginField (literal "rss")
  let jw := jw.i64 (literal "anon_pages") state.anonPages
  let jw := jw.i64 (literal "file_pages") state.filePages
  let jw := jw.i64 (literal "shmem_pages") state.shmemPages
  let jw := jw.i64 (literal "swap_entries") state.swapEntries
  jw.objectEnd

/-- `write_file_cache` -/
def writeFileCache (jw : JsonWriter) (cache : CacheCounters) : JsonWriter :=
  let jw := jw.objectBeginField (literal "file_cache")
  let jw := jw.u32 (literal "folios") cache.folios
  let jw := jw.u32 (literal "clean_folios") cache.cleanFolios
  let jw := jw.u32 (literal "dirty_folios") cache.dirtyFolios
  let jw := jw.u32 (literal "writeback_folios") cache.writebackFolios
  let jw := jw.u32 (literal "lru_folios") cache.lruFolios
  let jw := jw.u32 (literal "active_folios") cache.activeFolios
  let jw := jw.u32 (literal "referenced_folios") cache.referencedFolios
  let jw := jw.u32 (literal "workingset_folios") cache.workingsetFolios
  let jw := jw.u32 (literal "unevictable_folios") cache.unevictableFolios
  let jw := jw.arrayBeginField (literal "order_buckets")
  let jw := (List.range maxCacheOrders).foldl (fun jw order =>
    let jw := jw.objectBegin
    let jw := jw.u32 (literal "order") (BitVec.ofNat 32 order)
    let jw := jw.u32 (literal "pages_per_folio") ((1 : BitVec 32) <<< order)
    let jw := jw.u32 (literal "folios") ((cache.orderFolios order).setWidth 32)
    let jw := jw.u32 (literal "dirty") ((cache.orderDirty order).setWidth 32)
    jw.objectEnd) jw
  jw.arrayEnd.objectEnd

/-- `write_file_backing` -/
def writeFileBacking (jw : JsonWriter) (vma : VmaRecord) : JsonWriter :=
  if vma.structFile = 0 then jw.null (literal "file")
  else
    let jw := jw.objectBeginField (literal "file")
    let jw := jw.stringN (literal "name") vma.nameBytes 64
    let jw := jw.u64 (literal "inode") vma.inode
    let jw := jw.u32 (literal "device") vma.device
    let jw := jw.ptr (literal "mapping") vma.mapping
    let jw := jw.u64 (literal "cache_pages") vma.cachePages
    jw.objectEnd

/-! ## The page table -/

/-- The summary counts, and the state of the page before. -/
structure PageSummary where
  presentPages : BitVec 32
  nonePages : BitVec 32
  swapPages : BitVec 32
  hugePmdPages : BitVec 32
  hugePmdEntries : BitVec 32
  hugePudPages : BitVec 32
  hugePudEntries : BitVec 32
  dirtyEntries : BitVec 32
  previous : BitVec 8

/-- The dirty bit of a page. -/
def PageTable.dirtyBit (pt : PageTable) (page : Nat) : BitVec 64 :=
  (pt.dirty (page / 64) >>> (page % 64)) &&& 1

/-- The pages that `write_page_table` goes over. -/
def PageTable.pages (pt : PageTable) : List Nat :=
  (List.range maxPagesPerVma).filter (· < pt.scannedPages.toNat)

/-- One round of the loop that counts. -/
def summarise (start : BitVec 64) (pt : PageTable) (s : PageSummary) (page : Nat) :
    PageSummary :=
  let state := pt.states page
  let dirty := (pt.dirtyBit page).setWidth 32
  let address := start + BitVec.ofNat 64 page * 4096
  let s :=
    if state = mmPagePte then
      { s with presentPages := s.presentPages + 1, dirtyEntries := s.dirtyEntries + dirty }
    else if state = mmPageSwap then { s with swapPages := s.swapPages + 1 }
    else if state = mmPageHugePmd then
      let s := { s with presentPages := s.presentPages + 1, hugePmdPages := s.hugePmdPages + 1 }
      if s.previous ≠ mmPageHugePmd ∨ page = 0 ∨ address &&& 0x1fffff = 0 then
        { s with
          hugePmdEntries := s.hugePmdEntries + 1
          dirtyEntries := s.dirtyEntries + dirty }
      else s
    else if state = mmPageHugePud then
      let s := { s with presentPages := s.presentPages + 1, hugePudPages := s.hugePudPages + 1 }
      if s.previous ≠ mmPageHugePud ∨ page = 0 ∨ address &&& 0x3fffffff = 0 then
        { s with
          hugePudEntries := s.hugePudEntries + 1
          dirtyEntries := s.dirtyEntries + dirty }
      else s
    else { s with nonePages := s.nonePages + 1 }
  { s with previous := state }

/-- `write_page_table` -/
def writePageTable (jw : JsonWriter) (start : BitVec 64) (pt : PageTable) : JsonWriter :=
  let s := pt.pages.foldl (summarise start pt) ⟨0, 0, 0, 0, 0, 0, 0, 0, 255⟩
  let jw := jw.objectBeginField (literal "page_table")
  let jw := jw.u32 (literal "scanned_pages") pt.scannedPages
  let jw := jw.u32 (literal "present_pages") s.presentPages
  let jw := jw.u32 (literal "none_pages") s.nonePages
  let jw := jw.u32 (literal "swap_pages") s.swapPages
  let jw := jw.u32 (literal "huge_pmd_pages") s.hugePmdPages
  let jw := jw.u32 (literal "huge_pmd_entries") s.hugePmdEntries
  let jw := jw.u32 (literal "huge_pud_pages") s.hugePudPages
  let jw := jw.u32 (literal "huge_pud_entries") s.hugePudEntries
  let jw := jw.u32 (literal "dirty_entries") s.dirtyEntries
  let jw := jw.arrayBeginField (literal "pages")
  let jw := pt.pages.foldl (fun jw page => jw.u32Value ((pt.states page).setWidth 32)) jw
  let jw := jw.arrayEnd.arrayBeginField (literal "dirty")
  let jw := pt.pages.foldl (fun jw page => jw.u32Value ((pt.dirtyBit page).setWidth 32)) jw
  let jw := jw.arrayEnd.arrayBeginField (literal "targets")
  let jw := pt.pages.foldl
    (fun jw page => jw.u32Value ((pt.targets page).setWidth 32 &&& 0x3fff)) jw
  jw.arrayEnd.objectEnd

/-! ## The record -/

/-- `write_vma` -/
def writeVma (jw : JsonWriter) (vma : VmaRecord) : JsonWriter :=
  let jw := jw.objectBegin.objectBeginField (literal "range")
  let jw := jw.hexField (literal "start") vma.start
  let jw := jw.hexField (literal "end") vma.stop
  let jw := (jw.u64 (literal "pgoff") vma.pgoff).objectEnd
  let jw := jw.hexField (literal "flags") vma.flags
  let jw := jw.objectBeginField (literal "anon_vma")
  let jw := jw.ptr (literal "address") vma.anonVma
  let jw := jw.ptr (literal "root") vma.anonVmaRoot
  let jw := (jw.ptr (literal "parent") vma.anonVmaParent).objectEnd
  let jw := writeFileBacking jw vma
  let jw := writeFileCache jw vma.cache
  (writePageTable jw vma.start vma.pt).objectEnd

/-- `write_mm_state` -/
def writeMmState (jw : JsonWriter) (e : MmEvent) : JsonWriter :=
  let jw := jw.objectBeginField (literal "mm")
  let jw := jw.ptr (literal "address") e.state.mm
  let jw := jw.ptr (literal "mmap_base") e.state.mmapBase
  let jw := jw.objectBeginField (literal "accounting")
  let jw := jw.u64 (literal "total_vm") e.state.totalVm
  let jw := jw.u64 (literal "data_vm") e.state.dataVm
  let jw := jw.u64 (literal "exec_vm") e.state.execVm
  let jw := jw.u64 (literal "stack_vm") e.state.stackVm
  let jw := (jw.u64 (literal "pgtables_bytes") e.state.pgtablesBytes).objectEnd
  let jw := writeRss jw e.state
  let jw := jw.u32 (literal "map_count") e.state.mapCount
  let jw := (jw.u32 (literal "vma_count") (BitVec.ofNat 32 e.vmaCount)).objectEnd
  let jw := jw.arrayBeginField (literal "vmas")
  let jw := ((List.range maxVmas).filter (· < e.vmaCount)).foldl
    (fun jw i => writeVma jw (e.vmas i)) jw
  jw.arrayEnd

/-- `write_snapshot` -/
def writeSnapshot (jw : JsonWriter) (e : MmEvent) (seq : BitVec 32) : JsonWriter :=
  let jw := jw.objectBegin.string (literal "experiment") (literal "memory")
  let jw := jw.string (literal "kind") (literal "memory_snapshot")
  let jw := jw.string (literal "source") (literal "ebpf")
  let jw := jw.u32 (literal "seq") seq
  let jw := jw.u64 (literal "time_ns") e.timeNs
  let jw := (writeEventInfo (jw.objectBeginField (literal "event_info")) e.phaseSeq).objectEnd
  let jw := (writeContext (jw.objectBeginField (literal "context")) e.context).objectEnd
  let jw := (writeMmState (jw.objectBeginField (literal "state")) e).objectEnd
  jw.objectEnd.newline

/-! ## From the probe to the output -/

/-- The observer: its output and `seq_counter`. -/
structure Observer where
  out : JsonWriter
  seqCounter : BitVec 32

/-- `handle_event`: a fresh writer on the same output. -/
def Observer.handleEvent (o : Observer) (e : MmEvent) : Observer where
  out := writeSnapshot { o.out with error := false, depth := 0, first := fun _ => false } e
    (o.seqCounter + 1)
  seqCounter := o.seqCounter + 1

/-- One call of the return probe, and the callback on the event it submits. -/
def observeCall (c : Call) (scratch : MmEvent) (o : Observer) : MmEvent × Observer :=
  let (e, submitted) := phaseBoundaryRet c scratch
  (e, if submitted && c.delivered then o.handleEvent e else o)

/-- The calls of a run, each on the scratch event of its CPU. -/
def stream : List Call → (BitVec 32 → MmEvent) → Observer → Observer
  | [], _, o => o
  | c :: calls, scratch, o =>
    let (e, o) := observeCall c (scratch c.cpu) o
    stream calls (Function.update scratch c.cpu e) o

section Forgets

/-! ### Equal records of equal events -/

theorem PageTable.Same.pages {pt pt' : PageTable} (h : pt.Same pt') : pt.pages = pt'.pages := by
  unfold PageTable.pages
  rw [h.scannedPages]

theorem PageTable.mem_pages {pt : PageTable} {page : Nat} (h : page ∈ pt.pages) :
    page < pt.scannedPages.toNat := by
  simpa using (List.mem_filter.mp h).2

theorem PageTable.Same.dirtyBit {pt pt' : PageTable} (h : pt.Same pt') (page : Nat) :
    pt.dirtyBit page = pt'.dirtyBit page := by
  unfold PageTable.dirtyBit
  rw [h.dirty]

theorem writePageTable_same {pt pt' : PageTable} (h : pt.Same pt') (jw : JsonWriter)
    (start : BitVec 64) : writePageTable jw start pt = writePageTable jw start pt' := by
  have hsummary : ∀ s, pt.pages.foldl (summarise start pt) s =
      pt'.pages.foldl (summarise start pt') s := by
    intro s
    rw [← h.pages]
    apply List.foldl_ext
    intro s page hpage
    unfold summarise
    rw [h.states page (PageTable.mem_pages hpage), h.dirtyBit page]
  have hstates : ∀ jw, pt.pages.foldl
      (fun jw page => u32Value jw ((pt.states page).setWidth 32)) jw =
      pt'.pages.foldl (fun jw page => u32Value jw ((pt'.states page).setWidth 32)) jw := by
    intro jw
    rw [← h.pages]
    apply List.foldl_ext
    intro jw page hpage
    rw [h.states page (PageTable.mem_pages hpage)]
  have hdirty : ∀ jw, pt.pages.foldl
      (fun jw page => u32Value jw ((pt.dirtyBit page).setWidth 32)) jw =
      pt'.pages.foldl (fun jw page => u32Value jw ((pt'.dirtyBit page).setWidth 32)) jw := by
    intro jw
    rw [← h.pages]
    apply List.foldl_ext
    intro jw page _
    rw [h.dirtyBit page]
  have htargets : ∀ jw, pt.pages.foldl
      (fun jw page => u32Value jw ((pt.targets page).setWidth 32 &&& 0x3fff)) jw =
      pt'.pages.foldl
        (fun jw page => u32Value jw ((pt'.targets page).setWidth 32 &&& 0x3fff)) jw := by
    intro jw
    rw [← h.pages]
    apply List.foldl_ext
    intro jw page hpage
    rw [h.targets page (PageTable.mem_pages hpage)]
  unfold writePageTable
  simp only [hsummary, hstates, hdirty, htargets, h.scannedPages]

/-- A string field prints its bytes up to the terminator. -/
theorem stringN_congr (jw : JsonWriter) (n : List UInt8) {value value' : List UInt8}
    {maxLen : Nat} (h : cString value maxLen = cString value' maxLen) :
    jw.stringN n value maxLen = jw.stringN n value' maxLen := by
  unfold stringN putEscaped
  rw [h]

theorem writeVma_same {r r' : VmaRecord} (h : r.Same r') (jw : JsonWriter) :
    writeVma jw r = writeVma jw r' := by
  have hfixed := h.fixed
  simp only [VmaRecord.fixed, VmaRecord.mk.injEq, and_true, true_and] at hfixed
  have hname : ∀ jw : JsonWriter, jw.stringN (literal "name") r.nameBytes 64 =
      jw.stringN (literal "name") r'.nameBytes 64 := fun jw => stringN_congr jw _ h.name
  have hpages : ∀ jw start, writePageTable jw start r.pt = writePageTable jw start r'.pt :=
    fun jw start => writePageTable_same h.pt jw start
  unfold writeVma writeFileBacking
  simp only [hname, hpages, hfixed]

theorem writeSnapshot_same {e e' : MmEvent} (h : e.Same e') (jw : JsonWriter) (seq : BitVec 32) :
    writeSnapshot jw e seq = writeSnapshot jw e' seq := by
  have hvmas : ∀ jw, ((List.range maxVmas).filter (· < e'.vmaCount)).foldl
      (fun jw i => writeVma jw (e.vmas i)) jw =
      ((List.range maxVmas).filter (· < e'.vmaCount)).foldl
        (fun jw i => writeVma jw (e'.vmas i)) jw := by
    intro jw
    rw [← h.vmaCount]
    apply List.foldl_ext
    intro jw i hi
    exact writeVma_same (h.vmas i (by simpa using (List.mem_filter.mp hi).2)) jw
  unfold writeSnapshot writeMmState
  simp only [hvmas, h.timeNs, h.phaseSeq, h.context, h.state, h.vmaCount]

/-! ### Runs -/

theorem handleEvent_same {e e' : MmEvent} (h : e.Same e') (o : Observer) :
    o.handleEvent e = o.handleEvent e' := by
  unfold Observer.handleEvent
  rw [writeSnapshot_same h]

/-- What a call adds to the output does not depend on the scratch event. -/
theorem observeCall_same (c : Call) (e e' : MmEvent) (o : Observer) :
    (observeCall c e o).2 = (observeCall c e' o).2 := by
  obtain ⟨hsubmitted, hsame⟩ := phaseBoundaryRet_same c e e'
  unfold observeCall
  generalize phaseBoundaryRet c e = result at hsubmitted hsame ⊢
  generalize phaseBoundaryRet c e' = result' at hsubmitted hsame ⊢
  obtain ⟨filled, submitted⟩ := result
  obtain ⟨filled', submitted'⟩ := result'
  obtain rfl : submitted = submitted' := hsubmitted
  have hhandled : submitted = true → o.handleEvent filled = o.handleEvent filled' :=
    fun h => handleEvent_same (hsame h) o
  by_cases h : submitted = true
  · simp only [hhandled h]
  · simp only [h, Bool.false_and, Bool.false_eq_true, if_false]

/-- **Snapshots forget**: the output of a run is the same from any two contents of the scratch
    events, and every record in it is the one its call makes from any other content. -/
theorem stream_forgets (calls : List Call) (scratch scratch' : BitVec 32 → MmEvent)
    (o : Observer) (blank : MmEvent) :
    stream calls scratch o = stream calls scratch' o ∧
      stream calls scratch o = calls.foldl (fun o c => (observeCall c blank o).2) o := by
  have hfold : ∀ calls scratch o,
      stream calls scratch o = calls.foldl (fun o c => (observeCall c blank o).2) o := by
    intro calls
    induction calls with
    | nil => exact fun _ _ => rfl
    | cons c calls ih =>
      intro scratch o
      unfold stream
      simp only
      rw [ih, List.foldl_cons, observeCall_same c (scratch c.cpu) blank]
  exact ⟨(hfold calls scratch o).trans (hfold calls scratch' o).symm, hfold calls scratch o⟩

end Forgets

end LinuxMaxxing.Memory
