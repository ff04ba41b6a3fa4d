import LinuxMaxxing.Common.JsonRoundTrip
import LinuxMaxxing.Memory.PageWalk

/-!
# Which Pages of a VMA Are Sampled

`phase_boundary_ret` counts the pages of a VMA in 32 bits before it clamps the count to 512: a VMA of
2^32 pages or more is taken for one of the remainder (`toNat_sampledPages`), which may be none.

Whatever the count is, the walk fills that many slots of the record, from the first page on, and no
other (`capturePages_fills`), and the three arrays of the serialised record have that length
(`writePageTable_eq`, `arrayLength_pageTable`). Kernel memory may change while it is read.
-/

namespace LinuxMaxxing.Memory

open LinuxMaxxing.Lib LinuxMaxxing.Common
open LinuxMaxxing.Common.JsonWriter (literal)

/-! ## The count -/

/-- The whole pages of a VMA. -/
def Vma.pageCount (v : Vma) : Nat := (v.stop.toNat - v.start.toNat) / 4096

/-- What is sampled of a VMA, counted in 32 bits. -/
theorem toNat_sampledPages (v : Vma) :
    (sampledPages v.start v.stop).toNat = min maxPagesPerVma (v.pageCount % 2 ^ 32) := by
  have hcount : (((v.stop - v.start) >>> 12).setWidth 32).toNat = v.pageCount % 2 ^ 32 := by
    rw [BitVec.toNat_setWidth, BitVec.toNat_ushiftRight, BitVec.toNat_sub_of_le v.start_le,
      Nat.shiftRight_eq_div_pow]
    rfl
  unfold sampledPages
  simp only [hcount]
  split
  · next hmore =>
    rw [Nat.min_eq_left (Nat.le_of_lt hmore)]
    rfl
  · next hfew => rw [Nat.min_eq_right (not_lt.mp hfew), hcount]

/-- The count is right unless its low 32 bits are below 512 by what was cut off. -/
theorem sampledPages_eq_iff (v : Vma) :
    (sampledPages v.start v.stop).toNat = min maxPagesPerVma v.pageCount ↔
      v.pageCount < 2 ^ 32 ∨ maxPagesPerVma ≤ v.pageCount % 2 ^ 32 := by
  rw [toNat_sampledPages]
  have h512 : maxPagesPerVma = 512 := rfl
  constructor
  · intro heq
    by_contra hcut
    rw [not_or, not_lt, not_le] at hcut
    rw [Nat.min_eq_right (Nat.le_of_lt hcut.2), Nat.min_eq_left (by omega)] at heq
    omega
  · rintro (hsmall | hrest)
    · rw [Nat.mod_eq_of_lt hsmall]
    · have hmod := Nat.mod_le v.pageCount (2 ^ 32)
      rw [Nat.min_eq_left hrest, Nat.min_eq_left (hrest.trans hmod)]

/-! ## The slots -/

/-- The 14 bits that the view compares are the low ones of this fold of a frame number. -/
def pageIdentity (target : BitVec 64) : BitVec 16 :=
  (target ^^^ (target >>> 16) ^^^ (target >>> 32)).setWidth 16

/-- What the walk of this snapshot finds for the `i`-th page. -/
def sampledLeaf (c : Call) (index : Nat) (v : Vma) (i : Nat) : BitVec 8 × BitVec 64 × Bool :=
  pageLeaf c.kernel (ptWalk c index v.start v.stop) i (v.start + BitVec.ofNat 64 i * pageSize)

/-- The first `n` slots are those of this snapshot, the others as they were, without a dirty bit. -/
structure PageTable.Filled (pt : PageTable) (c : Call) (index : Nat) (v : Vma) (old : PageTable)
    (n : Nat) : Prop where
  states : ∀ i < n, pt.states i = (sampledLeaf c index v i).1
  targets : ∀ i < n, pt.targets i = pageIdentity (sampledLeaf c index v i).2.1
  dirty : ∀ i, (pt.dirty (i / 64)).getLsbD (i % 64) = (decide (i < n) && (sampledLeaf c index v i).2.2)
  oldStates : ∀ i, n ≤ i → pt.states i = old.states i
  oldTargets : ∀ i, n ≤ i → pt.targets i = old.targets i

theorem setPage_targets {pt : PageTable} {i : Nat} (hi : i < pt.scannedPages.toNat)
    (hmax : pt.scannedPages.toNat ≤ maxPagesPerVma) (state : BitVec 8) (target : BitVec 64)
    (dirty : Bool) :
    (setPage pt i state target dirty).targets =
      Function.update pt.targets i (pageIdentity target) := by
  have hmod : i % maxPagesPerVma = i := Nat.mod_eq_of_lt (by omega)
  unfold setPage
  simp only [hmod, not_le.mpr hi, if_false]
  rfl

theorem setPage_scannedPages (pt : PageTable) (i : Nat) (state : BitVec 8) (target : BitVec 64)
    (dirty : Bool) : (setPage pt i state target dirty).scannedPages = pt.scannedPages := by
  unfold setPage
  dsimp only
  split <;> rfl

/-- One more slot. -/
theorem PageTable.Filled.setPage {pt old : PageTable} {c : Call} {index : Nat} {v : Vma} {n : Nat}
    (h : pt.Filled c index v old n) (hn : n < pt.scannedPages.toNat)
    (hmax : pt.scannedPages.toNat ≤ maxPagesPerVma) :
    (setPage pt n (sampledLeaf c index v n).1 (sampledLeaf c index v n).2.1
      (sampledLeaf c index v n).2.2).Filled c index v old (n + 1) where
  states := by
    intro i hi
    rw [setPage_states hn hmax]
    rcases Nat.lt_succ_iff_lt_or_eq.mp hi with hlt | rfl
    · rw [Function.update_of_ne (Nat.ne_of_lt hlt), h.states i hlt]
    · rw [Function.update_self]
  targets := by
    intro i hi
    rw [setPage_targets hn hmax]
    rcases Nat.lt_succ_iff_lt_or_eq.mp hi with hlt | rfl
    · rw [Function.update_of_ne (Nat.ne_of_lt hlt), h.targets i hlt]
    · rw [Function.update_self]
  dirty := by
    -- set_page only sets bits, so it matters that the one of this slot was clear
    intro i
    rw [setPage_dirty hn hmax, h.dirty]
    by_cases heq : i = n
    · simp [heq]
    · have hlt : i < n + 1 ↔ i < n := by omega
      simp [heq, hlt]
  oldStates := by
    intro i hi
    rw [setPage_states hn hmax, Function.update_of_ne (by omega), h.oldStates i (by omega)]
  oldTargets := by
    intro i hi
    rw [setPage_targets hn hmax, Function.update_of_ne (by omega), h.oldTargets i (by omega)]

/-- **The walk fills the sample**: every slot up to the count, and no other. -/
theorem capturePages_fills (c : Call) {index : Nat} (hindex : index < maxVmas) {v : Vma}
    {r : VmaRecord} (hstart : r.start = v.start) (hstop : r.stop = v.stop) :
    (capturePages c index r).pt.scannedPages = sampledPages v.start v.stop ∧
      (capturePages c index r).pt.Filled c index v r.pt (sampledPages v.start v.stop).toNat := by
  have hmax : (ptWalk c index v.start v.stop).pages.toNat ≤ maxPagesPerVma :=
    sampledPages_le v.start v.stop
  unfold capturePages
  rw [hstart, hstop]
  refine bpfLoop_ensures (fun n (pt : PageTable) =>
    pt.scannedPages = sampledPages v.start v.stop ∧ pt.Filled c index v r.pt n) _ ?_ ?_
    (fun _ h => h)
  · exact ⟨rfl, fun i hi => absurd hi (Nat.not_lt_zero i), fun i hi => absurd hi (Nat.not_lt_zero i),
      fun i => by simp, fun _ _ => rfl, fun _ _ => rfl⟩
  · rintro i hi pt ⟨hscanned, hfilled⟩
    right
    rw [walkPageTable_sampled c hindex v.start_le hi]
    refine ⟨rfl, (setPage_scannedPages _ _ _ _ _).trans hscanned, ?_⟩
    exact hfilled.setPage (hscanned ▸ hi) (hscanned ▸ hmax)

/-! ## The records of an event -/

/-- Records that have been filled stay as they are. -/
theorem captureVmas_below (c : Call) (vmas : List Vma) (e : MmEvent) {j : Nat}
    (hj : j < e.vmaCount) : (captureVmas c vmas e).vmas j = e.vmas j := by
  induction vmas generalizing e with
  | nil => rfl
  | cons v vmas ih =>
    rw [captureVmas]
    split
    · rfl
    · exact (ih _ (Nat.lt_succ_of_lt hj)).trans (Function.update_of_ne (Nat.ne_of_lt hj) _ _)

/-- Every VMA has its record, as far as there are records. -/
theorem captureVmas_record (c : Call) (vmas : List Vma) (e : MmEvent) {i : Nat} {v : Vma}
    (hv : vmas[i]? = some v) (hi : e.vmaCount + i < maxVmas) :
    ∃ seen, (captureVmas c vmas e).vmas (e.vmaCount + i) =
      captureRecord c (e.vmaCount + i) seen v (e.vmas (e.vmaCount + i)) := by
  induction vmas generalizing e i with
  | nil => cases hv
  | cons first vmas ih =>
    rw [captureVmas, if_neg (by omega)]
    cases i with
    | zero =>
      obtain rfl := Option.some.inj hv
      refine ⟨mappingSeen e, ?_⟩
      rw [captureVmas_below c vmas _ (Nat.lt_succ_self _)]
      exact Function.update_self _ _ _
    | succ i =>
      have hmore : e.vmaCount + 1 + i = e.vmaCount + (i + 1) := by omega
      obtain ⟨seen, hrecord⟩ := ih { e with
        vmas := Function.update e.vmas e.vmaCount
          (captureRecord c e.vmaCount (mappingSeen e) first (e.vmas e.vmaCount))
        vmaCount := e.vmaCount + 1 } hv (hmore ▸ hi)
      simp only [hmore] at hrecord
      rw [Function.update_of_ne (by omega)] at hrecord
      exact ⟨seen, hrecord⟩

/-- The records of a submitted event are those of the address space. -/
theorem phaseBoundaryRet_record {c : Call} {e event : MmEvent}
    (hevent : phaseBoundaryRet c e = (event, true)) {i : Nat} {v : Vma} (hv : c.vmas[i]? = some v)
    (hi : i < maxVmas) : ∃ seen, event.vmas i = captureRecord c i seen v (e.vmas i) := by
  simp only [phaseBoundaryRet] at hevent
  split at hevent
  · cases hevent
  · split at hevent
    · cases hevent
    · obtain rfl := (Prod.ext_iff.mp hevent).1
      have hrecord := captureVmas_record c c.vmas
        { e with
          phaseSeq := c.phaseSeq.getD 0
          context :=
            { pid := (c.pidTgid >>> 32).setWidth 32
              tid := c.pidTgid.setWidth 32
              cpu := c.cpu
              comm := c.comm }
          timeNs := c.timeNs
          state := captureState c
          vmaCount := 0 } hv (by simpa using hi)
      simpa using hrecord

/-! ## The arrays -/

/-- An array of numbers. -/
def u32Elements : List (BitVec 32) → Elements
  | [] => .nil
  | value :: values => .cons (.scalar (.u32 value)) (u32Elements values)

def u32Member (name : List UInt8) (value : BitVec 32) (rest : Members) : Members :=
  .field name (.scalar (.u32 value)) rest

/-- One number for each page that is shown. -/
def PageTable.shown (pt : PageTable) (number : Nat → BitVec 32) : Tree :=
  .arr (u32Elements (pt.pages.map number))

/-- The members of `page_table`. -/
def pageTableMembers (start : BitVec 64) (pt : PageTable) : Members :=
  let summary := pt.summary start
  u32Member (literal "scanned_pages") pt.scannedPages <|
  u32Member (literal "present_pages") summary.presentPages <|
  u32Member (literal "none_pages") summary.nonePages <|
  u32Member (literal "swap_pages") summary.swapPages <|
  u32Member (literal "huge_pmd_pages") summary.hugePmdPages <|
  u32Member (literal "huge_pmd_entries") summary.hugePmdEntries <|
  u32Member (literal "huge_pud_pages") summary.hugePudPages <|
  u32Member (literal "huge_pud_entries") summary.hugePudEntries <|
  u32Member (literal "dirty_entries") summary.dirtyEntries <|
  .field (literal "pages") (pt.shown fun page => (pt.states page).setWidth 32) <|
  .field (literal "dirty") (pt.shown fun page => (pt.dirtyBit page).setWidth 32) <|
  .field (literal "targets") (pt.shown fun page => (pt.targets page).setWidth 32 &&& 0x3fff) .nil

theorem emitElements_u32 (pages : List Nat) (number : Nat → BitVec 32) (jw : JsonWriter) :
    emitElements jw (u32Elements (pages.map number)) =
      pages.foldl (fun jw page => jw.u32Value (number page)) jw := by
  induction pages generalizing jw with
  | nil => rfl
  | cons page pages ih => exact ih _

/-- **The calls of the serialiser** are those for the members. -/
theorem writePageTable_eq (jw : JsonWriter) (start : BitVec 64) (pt : PageTable) :
    writePageTable jw start pt =
      emitField jw (literal "page_table") (.obj (pageTableMembers start pt)) := by
  simp only [writePageTable, ← emitElements_u32]
  rfl

theorem length_values_u32 (values : List (BitVec 32)) :
    (u32Elements values).values.length = values.length := by
  induction values with
  | nil => rfl
  | cons value values ih => exact congrArg (· + 1) ih

/-- The length of an array among the members of an object. -/
def arrayLength (members : List (List Nat × Json.Value)) (name : List UInt8) : Option Nat :=
  match members.lookup (nameOctets name) with
  | some (.arr values) => some values.length
  | _ => none

def sampleArrays : List (List UInt8) := [literal "pages", literal "dirty", literal "targets"]

theorem arrayLength_pageTable {pt : PageTable} (hmax : pt.scannedPages.toNat ≤ maxPagesPerVma)
    (start : BitVec 64) : ∀ name ∈ sampleArrays,
      arrayLength (pageTableMembers start pt).values name = some pt.scannedPages.toNat := by
  have hlength : ∀ number : Nat → BitVec 32,
      (u32Elements (pt.pages.map number)).values.length = pt.scannedPages.toNat := by
    intro number
    rw [length_values_u32, List.length_map, PageTable.pages_eq hmax, List.length_range]
  intro name hname
  simp only [sampleArrays, List.mem_cons, List.not_mem_nil, or_false] at hname
  unfold arrayLength pageTableMembers u32Member
  simp (disch := decide) only [Members.values, nameOctets, octets_literal]
  rcases hname with rfl | rfl | rfl
  all_goals
    rw [octets_literal _ (by decide) (by decide)]
    exact congrArg some (hlength _)

/-! ## Samples -/

/-- The snapshot samples exactly the first `n` pages of the VMA: it says so, these slots are from
    its walk and the others as the scratch record had them, and its arrays have that length. -/
structure SamplesFirst (c : Call) (index : Nat) (v : Vma) (old record : VmaRecord) (n : Nat) :
    Prop where
  scannedPages : record.pt.scannedPages.toNat = n
  filled : record.pt.Filled c index v old.pt n
  serialised : ∀ jw, writePageTable jw record.start record.pt =
    emitField jw (literal "page_table") (.obj (pageTableMembers record.start record.pt))
  arrays : ∀ name ∈ sampleArrays,
    arrayLength (pageTableMembers record.start record.pt).values name = some n

/-- A record samples the first pages, as many as were counted. -/
theorem captureRecord_samples (c : Call) {index : Nat} (hindex : index < maxVmas)
    (seen : BitVec 64 → Bool) (v : Vma) (r : VmaRecord) :
    SamplesFirst c index v r (captureRecord c index seen v r)
      (sampledPages v.start v.stop).toNat := by
  obtain ⟨r', hstart, hstop, hpt, hrecord⟩ := captureRecord_capturePages c index seen v r
  obtain ⟨hscanned, hfilled⟩ := capturePages_fills c hindex hstart hstop
  rw [hrecord]
  refine ⟨congrArg BitVec.toNat hscanned, hpt ▸ hfilled, fun jw => writePageTable_eq jw _ _, ?_⟩
  intro name hname
  have hmax := sampledPages_le v.start v.stop
  rw [← hscanned] at hmax ⊢
  exact arrayLength_pageTable hmax _ name hname

/-- A snapshot samples exactly the first 512 pages of a VMA, or all of a smaller one, exactly if the
    VMA has less than 2^32 pages or the remainder of their number is at least 512. -/
theorem samples_first_iff {c : Call} {e event : MmEvent}
    (hevent : phaseBoundaryRet c e = (event, true)) {i : Nat} {v : Vma} (hv : c.vmas[i]? = some v)
    (hi : i < maxVmas) :
    SamplesFirst c i v (e.vmas i) (event.vmas i) (min maxPagesPerVma v.pageCount) ↔
      v.pageCount < 2 ^ 32 ∨ maxPagesPerVma ≤ v.pageCount % 2 ^ 32 := by
  obtain ⟨seen, hrecord⟩ := phaseBoundaryRet_record hevent hv hi
  have hsamples := captureRecord_samples c hi seen v (e.vmas i)
  rw [← hrecord] at hsamples
  rw [← sampledPages_eq_iff]
  constructor
  · intro hfirst
    exact hsamples.scannedPages.symm.trans hfirst.scannedPages
  · intro hcount
    rw [← hcount]
    exact hsamples

/-- The workload ends a phase with one VMA mapped. -/
def oneVma (v : Vma) : Call :=
  { someCall with
    comm := fun i =>
      ([119, 111, 114, 107, 108, 111, 97, 100, 95, 109, 109] : List UInt8).getD i 0
    mm := 0x1000
    vmas := [v] }

/-- The scratch event before the first snapshot. -/
def clearedEvent : MmEvent where
  timeNs := 0
  phaseSeq := 0
  context := ⟨0, 0, 0, fun _ => 0⟩
  state := captureState someCall
  vmaCount := 0
  vmas _ := clearedRecord

theorem oneVma_submitted (v : Vma) :
    phaseBoundaryRet (oneVma v) clearedEvent =
      ((phaseBoundaryRet (oneVma v) clearedEvent).1, true) := rfl

/-- All four pages of a small VMA are sampled. -/
theorem samples_first_iff_fourPages :
    SamplesFirst (oneVma someVma) 0 someVma clearedRecord
      ((phaseBoundaryRet (oneVma someVma) clearedEvent).1.vmas 0) 4 :=
  (samples_first_iff (oneVma_submitted someVma) (i := 0) rfl (by decide)).mpr (.inl (by decide))

/-- 2^44 bytes of address space, reserved above 2^44. -/
def hugeVma : Vma where
  address := 0
  start := 0x100000000000
  stop := 0x200000000000
  start_le := by decide

/-- **The defect**: of a VMA of 2^32 pages no page is sampled. -/
theorem samples_nothing :
    ¬ ∀ (c : Call) (e event : MmEvent) (v : Vma), phaseBoundaryRet c e = (event, true) →
      c.vmas[0]? = some v → v.start.toNat % 4096 = 0 → v.stop.toNat % 4096 = 0 →
      v.start < v.stop → v.stop.toNat ≤ 2 ^ 47 →
      SamplesFirst c 0 v (e.vmas 0) (event.vmas 0) (min maxPagesPerVma v.pageCount) := by
  intro hall
  have hfirst := hall (oneVma hugeVma) clearedEvent _ hugeVma (oneVma_submitted hugeVma) rfl
    (by decide) (by decide) (by decide) (by decide)
  obtain ⟨seen, hrecord⟩ := phaseBoundaryRet_record (oneVma_submitted hugeVma) (i := 0) rfl
    (by decide)
  have hsamples := captureRecord_samples (oneVma hugeVma) (by decide : 0 < maxVmas) seen hugeVma
    (clearedEvent.vmas 0)
  rw [← hrecord] at hsamples
  exact absurd (hfirst.scannedPages.symm.trans hsamples.scannedPages) (by decide)

end LinuxMaxxing.Memory
