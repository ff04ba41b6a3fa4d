import LinuxMaxxing.Kapi.TaskRoundTrip
import LinuxMaxxing.Lib.IntervalSweep

/-!
# The Address Space Layout

`print_global_constants` of `kapi.c` prints the regions of the address space. A cursor goes over them,
and what no region before it reached is printed as a reserved gap, up to the last address.

- `layout`: the intervals that are printed, and `printGlobalConstants` their lines
- `foldl_step`: the loop is a sweep over the regions
- `layout_numbers`: the gaps are numbered in their order
- `readRegion`: what a printed line says, read from its text
- `layout_tiles`: the intervals that the lines show cover the address space, and the gaps meet nothing
-/

namespace LinuxMaxxing.Kapi

open LinuxMaxxing.Lib LinuxMaxxing.Common LinuxMaxxing.Framework

/-! ## `print_region` -/

/-- The level of a message: `pr_info` or `pr_warn`. -/
inductive Level where
  | info
  | warn
  deriving DecidableEq, Repr

structure LogLine where
  level : Level
  message : Text
  deriving DecidableEq, Repr

/-- `print_region`; `stop` is its `end`. -/
def printRegion (name : Text) (start stop : BitVec 64) (kind source : Text) : LogLine :=
  let line (bytes : Text) : Text :=
    text "domain=kapi phase=layout action=region id=" ++ name ++ text " start=0x" ++
      printPointer start ++ text " end=0x" ++ printPointer stop ++ text " bytes=" ++ bytes ++
      text " kind=" ++ kind ++ text " source=" ++ source
  if stop ≤ start then ⟨.warn, kapiEvt (line (text "0"))⟩
  else ⟨.info, kapiEvt (line (JsonWriter.decimal (stop - start).toNat))⟩

/-! ## The table -/

/-- The name of a region: one word. -/
structure Label where
  text : Text
  plain : 0x20 ∉ text
  deriving DecidableEq, Repr

def label (s : String) (plain : 0x20 ∉ text s := by decide) : Label := ⟨text s, plain⟩

/-- An entry of `regions`. -/
structure Region where
  name : Label
  start : BitVec 64
  stop : BitVec 64
  kind : Text
  source : Text
  deriving DecidableEq, Repr

/-- The addresses of the kernel that the table is made of, under the names of its headers. -/
structure KernelAddresses where
  taskSizeMax : BitVec 64
  guardHoleBaseAddr : BitVec 64
  guardHoleEndAddr : BitVec 64
  ldtBaseAddr : BitVec 64
  ldtEndAddr : BitVec 64
  pageOffset : BitVec 64
  vmallocStart : BitVec 64
  vmallocEnd : BitVec 64
  vmemmapStart : BitVec 64
  sizeofStructPage : BitVec 64
  cpuEntryAreaBase : BitVec 64
  cpuEntryAreaMapSize : BitVec 64
  espfixBaseAddr : BitVec 64
  p4dSize : BitVec 64
  efiVaStart : BitVec 64
  efiVaEnd : BitVec 64
  startKernelMap : BitVec 64
  kernelImageSize : BitVec 64
  modulesVaddr : BitVec 64
  modulesEnd : BitVec 64
  fixaddrStart : BitVec 64
  fixaddrTop : BitVec 64

/-- `PAGE_SHIFT` and `PAGE_SIZE` of x86-64. -/
def pageShift : Nat := 12

def pageSize : BitVec 64 := 1 <<< pageShift

def ulongMax : BitVec 64 := BitVec.allOnes 64

/-- `regions` of `print_global_constants`. -/
def regions (k : KernelAddresses) (ramBytes : BitVec 64) : List Region :=
  let canonicalEnd := k.taskSizeMax + pageSize
  let kernelStart := 0 - canonicalEnd
  [⟨label "user_vas", 0, k.taskSizeMax, text "process_specific", text "TASK_SIZE_MAX"⟩,
    ⟨label "user_guard", k.taskSizeMax, canonicalEnd, text "guard",
      text "TASK_SIZE_MAX+PAGE_SIZE"⟩,
    ⟨label "noncanonical", canonicalEnd, kernelStart, text "invalid", text "TASK_SIZE_MAX"⟩,
    ⟨label "kernel_guard_hole", k.guardHoleBaseAddr, k.guardHoleEndAddr, text "guard",
      text "GUARD_HOLE_BASE_ADDR+GUARD_HOLE_END_ADDR"⟩,
    ⟨label "ldt_remap", k.ldtBaseAddr, k.ldtEndAddr, text "conditional",
      text "LDT_BASE_ADDR+LDT_END_ADDR"⟩,
    ⟨label "direct_map_observed_ram", k.pageOffset, k.pageOffset + ramBytes,
      text "physical_direct_map", text "PAGE_OFFSET+totalram_pages"⟩,
    ⟨label "vmalloc", k.vmallocStart, k.vmallocEnd, text "vmalloc_ioremap",
      text "VMALLOC_START+VMALLOC_END"⟩,
    ⟨label "vmemmap_observed_descriptors", k.vmemmapStart,
      k.vmemmapStart + (ramBytes >>> pageShift) * k.sizeofStructPage, text "struct_page_array",
      text "VMEMMAP_START+totalram_pages+sizeof_struct_page"⟩,
    ⟨label "cpu_entry_area", k.cpuEntryAreaBase, k.cpuEntryAreaBase + k.cpuEntryAreaMapSize,
      text "per_cpu_entry", text "CPU_ENTRY_AREA_BASE+CPU_ENTRY_AREA_MAP_SIZE"⟩,
    ⟨label "espfix", k.espfixBaseAddr, k.espfixBaseAddr + k.p4dSize, text "espfix_stacks",
      text "ESPFIX_BASE_ADDR+P4D_SIZE"⟩,
    ⟨label "efi_runtime", k.efiVaEnd, k.efiVaStart, text "efi_runtime",
      text "EFI_VA_END+EFI_VA_START"⟩,
    ⟨label "kernel_image", k.startKernelMap, k.startKernelMap + k.kernelImageSize,
      text "kernel_image", text "__START_KERNEL_map+KERNEL_IMAGE_SIZE"⟩,
    ⟨label "modules", k.modulesVaddr, k.modulesEnd, text "module_space",
      text "MODULES_VADDR+MODULES_END"⟩,
    ⟨label "fixmap", k.fixaddrStart, k.fixaddrTop, text "fixed_mappings",
      text "FIXADDR_START+FIXADDR_TOP"⟩]

/-! ## The loop -/

/-- A call of `print_region`: for an entry of the table, for the gap before one, or for the rest. -/
inductive Interval where
  | region (r : Region)
  | reservedGap (gap : BitVec 32) (start stop : BitVec 64)
  | reservedTop (start : BitVec 64)
  deriving DecidableEq, Repr

namespace Interval

/-- The name of a gap: a buffer of 32 octets. -/
def name : Interval → Text
  | region r => r.name.text
  | reservedGap gap _ _ =>
    JsonWriter.snprintf 32 (text "reserved_gap_" ++ JsonWriter.decimal gap.toNat)
  | reservedTop _ => text "reserved_top"

def start : Interval → BitVec 64
  | region r => r.start
  | reservedGap _ start _ => start
  | reservedTop start => start

def stop : Interval → BitVec 64
  | region r => r.stop
  | reservedGap _ _ stop => stop
  | reservedTop _ => ulongMax

def kind : Interval → Text
  | region r => r.kind
  | reservedGap _ _ _ => text "reserved"
  | reservedTop _ => text "reserved"

def source : Interval → Text
  | region r => r.source
  | reservedGap _ _ _ => text "adjacent_layout_boundaries"
  | reservedTop _ => text "FIXADDR_TOP+ULONG_MAX"

def print (i : Interval) : LogLine := printRegion i.name i.start i.stop i.kind i.source

/-- The entry of the table, if it is one. -/
def region? : Interval → Option Region
  | region r => some r
  | reservedGap _ _ _ => none
  | reservedTop _ => none

/-- Whether no entry of the table is printed. -/
def isGap (i : Interval) : Bool := i.region?.isNone

/-- The number in the name of a gap. -/
def number : Interval → Option (BitVec 32)
  | region _ => none
  | reservedGap gap _ _ => some gap
  | reservedTop _ => none

end Interval

/-- The variables of the loop, and what is printed so far. -/
structure Sweep where
  cursor : BitVec 64
  gap : BitVec 32
  printed : List Interval

/-- A round of the loop. -/
def Sweep.step (s : Sweep) (r : Region) : Sweep :=
  let before : Sweep :=
    if r.start > s.cursor then
      { s with gap := s.gap + 1, printed := s.printed ++ [.reservedGap s.gap s.cursor r.start] }
    else s
  { before with
    cursor := if r.stop > s.cursor then r.stop else s.cursor
    printed := before.printed ++ [.region r] }

/-- The intervals in the order they are printed. -/
def layout (table : List Region) : List Interval :=
  let s := table.foldl Sweep.step ⟨0, 0, []⟩
  if s.cursor < ulongMax then s.printed ++ [.reservedTop s.cursor] else s.printed

/-- The line of the constants; `l5Enabled` is `pgtable_l5_enabled`. -/
def constantsLine (l5Enabled : Bool) (ramBytes : BitVec 64) : LogLine :=
  ⟨.info, kapiEvt (text "domain=kapi phase=layout action=constants page_size=" ++
    JsonWriter.decimal pageSize.toNat ++ text " page_shift=" ++ JsonWriter.decimal pageShift ++
    text " page_mask=0x" ++ printPointer (~~~(pageSize - 1)) ++ text " bits_per_long=" ++
    JsonWriter.decimal 64 ++ text " ram_bytes=" ++ JsonWriter.decimal ramBytes.toNat ++
    text " paging_levels=" ++ JsonWriter.decimal (if l5Enabled then 5 else 4))⟩

/-- `print_global_constants`; the table it has is `regions k ramBytes`. -/
def printGlobalConstants (table : List Region) (l5Enabled : Bool) (ramBytes : BitVec 64) :
    List LogLine :=
  [⟨.info, kapiEvt (text "domain=kapi phase=layout action=begin")⟩,
    constantsLine l5Enabled ramBytes] ++
  (layout table).map Interval.print ++
  [⟨.info, kapiEvt (text "domain=kapi phase=layout action=end")⟩]

/-! ## The lines -/

/-- What a line shows of a region. -/
structure Shown where
  name : Text
  start : Nat
  stop : Nat
  bytes : Nat
  deriving DecidableEq, Repr

/-- The addresses of a region, as its line shows it. -/
def Shown.addresses (s : Shown) : Set Nat := Set.Ico s.start s.stop

/-- What stands behind a key, up to the next blank, and the text from there on. -/
def takeField (key : Text) (s : Text) : Option (Text × Text) :=
  if key <+: s then
    some ((s.drop key.length).takeWhile (· ≠ 0x20), (s.drop key.length).dropWhile (· ≠ 0x20))
  else none

/-- A region's line read from its text. -/
def readRegion (message : Text) : Option Shown := do
  let (name, rest) ← takeField (text "KAPI_EVT domain=kapi phase=layout action=region id=") message
  let (start, rest) ← takeField (text " start=0x") rest
  let (stop, rest) ← takeField (text " end=0x") rest
  let (bytes, _) ← takeField (text " bytes=") rest
  if start.all isHexSymbol ∧ stop.all isHexSymbol ∧ bytes.all Json.isDigit then
    some ⟨name, readHex start, readHex stop, Json.natOfDigits bytes⟩
  else none

/-- What the line of an interval ought to show. -/
def Interval.shown (i : Interval) : Shown where
  name := i.name
  start := i.start.toNat
  stop := i.stop.toNat
  bytes := i.stop.toNat - i.start.toNat

theorem takeField_block {key value rest : Text} (h : 0x20 ∉ value) :
    takeField key (key ++ (value ++ 0x20 :: rest)) = some (value, 0x20 :: rest) := by
  have hvalue : ∀ c ∈ value, decide (c ≠ 0x20) = true :=
    fun c hc => decide_eq_true fun heq => h (heq ▸ hc)
  have hblank : decide (0x20 ≠ 0x20) = false := rfl
  rw [takeField, if_pos (List.prefix_append _ _), List.drop_left, takeWhile_block hvalue hblank,
    dropWhile_block hvalue hblank]

theorem readHex_printPointer (v : BitVec 64) : readHex (printPointer v) = v.toNat := by
  rw [printPointer, readHex_zeroPad, readHex_hex]

theorem isHexSymbol_printPointer (v : BitVec 64) : (printPointer v).all isHexSymbol = true := by
  refine List.all_eq_true.mpr fun c hc => ?_
  have hsymbol := mem_printPointer hc
  simp only [Json.isDigit, Bool.and_eq_true, decide_eq_true_eq] at hsymbol
  simp only [isHexSymbol, Bool.or_eq_true, Bool.and_eq_true, decide_eq_true_eq]
  omega

theorem blank_notMem_printPointer (v : BitVec 64) : 0x20 ∉ printPointer v := by
  intro h
  have hsymbol := List.all_eq_true.mp (isHexSymbol_printPointer v) _ h
  exact absurd hsymbol (by decide)

theorem blank_notMem_decimal (n : Nat) : 0x20 ∉ JsonWriter.decimal n := by
  intro h
  exact absurd (isDigit_of_mem_decimal h) (by decide)

/-- **A line of `print_region`** shows the name, both bounds, and how many bytes lie between. -/
theorem readRegion_printRegion {name : Text} (h : 0x20 ∉ name) (start stop : BitVec 64)
    (kind source : Text) :
    readRegion (printRegion name start stop kind source).message =
      some ⟨name, start.toNat, stop.toNat, stop.toNat - start.toNat⟩ := by
  have hread (bytes : Nat) : readRegion (kapiEvt
      (text "domain=kapi phase=layout action=region id=" ++ name ++ text " start=0x" ++
        printPointer start ++ text " end=0x" ++ printPointer stop ++ text " bytes=" ++
        JsonWriter.decimal bytes ++ text " kind=" ++ kind ++ text " source=" ++ source)) =
      some ⟨name, start.toNat, stop.toNat, bytes⟩ := by
    -- a field ends at the blank in front of the next one
    have hline : kapiEvt
        (text "domain=kapi phase=layout action=region id=" ++ name ++ text " start=0x" ++
          printPointer start ++ text " end=0x" ++ printPointer stop ++ text " bytes=" ++
          JsonWriter.decimal bytes ++ text " kind=" ++ kind ++ text " source=" ++ source) =
        text "KAPI_EVT domain=kapi phase=layout action=region id=" ++ (name ++
          0x20 :: (text "start=0x" ++ (printPointer start ++ 0x20 :: (text "end=0x" ++
            (printPointer stop ++ 0x20 :: (text "bytes=" ++ (JsonWriter.decimal bytes ++
              0x20 :: (text "kind=" ++ kind ++ text " source=" ++ source)))))))) := by
      simp only [kapiEvt, List.append_assoc]
      rfl
    have hdigits : (JsonWriter.decimal bytes).all Json.isDigit = true :=
      List.all_eq_true.mpr fun c hc => isDigit_of_mem_decimal hc
    rw [hline, readRegion, takeField_block h]
    simp only [Option.bind_eq_bind, Option.bind_some]
    rw [show ∀ rest, 0x20 :: (text "start=0x" ++ rest) = text " start=0x" ++ rest from
      fun _ => rfl, takeField_block (blank_notMem_printPointer start)]
    simp only [Option.bind_some]
    rw [show ∀ rest, 0x20 :: (text "end=0x" ++ rest) = text " end=0x" ++ rest from fun _ => rfl,
      takeField_block (blank_notMem_printPointer stop)]
    simp only [Option.bind_some]
    rw [show ∀ rest, 0x20 :: (text "bytes=" ++ rest) = text " bytes=" ++ rest from fun _ => rfl,
      takeField_block (blank_notMem_decimal bytes)]
    simp only [Option.bind_some]
    rw [if_pos ⟨isHexSymbol_printPointer start, isHexSymbol_printPointer stop, hdigits⟩,
      readHex_printPointer, readHex_printPointer, natOfDigits_decimal]
  unfold printRegion
  dsimp only
  -- a region that ends where it starts has no bytes
  by_cases hle : stop ≤ start
  · have hnone : stop.toNat - start.toNat = 0 := Nat.sub_eq_zero_of_le (BitVec.le_def.mp hle)
    rw [if_pos hle, hnone]
    exact hread 0
  · have hlt : start.toNat < stop.toNat := not_le.mp fun h => hle (BitVec.le_def.mpr h)
    have hbytes : (stop - start).toNat = stop.toNat - start.toNat :=
      BitVec.toNat_sub_of_le (BitVec.le_def.mpr hlt.le)
    rw [if_neg hle, hbytes]
    exact hread _

/-- The names are words. -/
theorem Interval.blank_notMem_name (i : Interval) : 0x20 ∉ i.name := by
  cases i with
  | region r => exact r.name.plain
  | reservedGap gap start stop =>
    intro h
    rcases List.mem_append.mp (List.mem_of_mem_take h) with h | h
    · exact absurd h (by decide)
    · exact blank_notMem_decimal _ h
  | reservedTop start => exact show 0x20 ∉ text "reserved_top" by decide

theorem Interval.readRegion_print (i : Interval) : readRegion i.print.message = some i.shown :=
  readRegion_printRegion i.blank_notMem_name i.start i.stop i.kind i.source

/-! ## The sweep -/

/-- The span of an entry. -/
def Region.span (r : Region) : Nat × Nat := (r.start.toNat, r.stop.toNat)

/-- What an interval is in the sweep. -/
def Interval.piece (i : Interval) : Piece Nat := ⟨i.isGap, i.start.toNat, i.stop.toNat⟩

section Step

variable (s : Sweep) (r : Region)

theorem Sweep.step_cursor : (s.step r).cursor.toNat = max s.cursor.toNat r.stop.toNat := by
  show (if r.stop > s.cursor then r.stop else s.cursor).toNat = _
  by_cases h : r.stop > s.cursor
  · have hlt : s.cursor.toNat < r.stop.toNat := BitVec.lt_def.mp h
    rw [if_pos h, max_eq_right (le_of_lt hlt)]
  · have hle : r.stop.toNat ≤ s.cursor.toNat := not_lt.mp fun hlt => h (BitVec.lt_def.mpr hlt)
    rw [if_neg h, max_eq_left hle]

/-- What a round prints: the gap before the entry, and the entry. -/
theorem Sweep.step_printed : (s.step r).printed = s.printed ++
    (if s.cursor < r.start then [.reservedGap s.gap s.cursor r.start] else []) ++ [.region r] := by
  unfold Sweep.step
  by_cases h : s.cursor < r.start
  · simp only [gt_iff_lt, if_pos h]
  · simp only [gt_iff_lt, if_neg h, List.append_nil]

theorem Sweep.step_gap :
    (s.step r).gap = if s.cursor < r.start then s.gap + 1 else s.gap := by
  unfold Sweep.step
  by_cases h : s.cursor < r.start
  · simp only [gt_iff_lt, if_pos h]
  · simp only [gt_iff_lt, if_neg h]

end Step

/-- **The loop is a sweep**: it prints the pieces of the spans behind what it printed before, and its
    cursor is where the sweep is. -/
theorem foldl_step (table : List Region) (s : Sweep) :
    (table.foldl Sweep.step s).printed.map Interval.piece =
        s.printed.map Interval.piece ++ pieces s.cursor.toNat (table.map Region.span) ∧
      (table.foldl Sweep.step s).cursor.toNat =
        reach s.cursor.toNat (table.map Region.span) := by
  induction table generalizing s with
  | nil => exact ⟨(List.append_nil _).symm, rfl⟩
  | cons r table ih =>
    obtain ⟨hprinted, hcursor⟩ := ih (s.step r)
    rw [Sweep.step_cursor] at hprinted hcursor
    rw [List.foldl_cons, List.map_cons, pieces, reach]
    refine ⟨?_, hcursor⟩
    rw [hprinted, Sweep.step_printed]
    by_cases h : s.cursor < r.start
    · have hgap : s.cursor.toNat < r.span.1 := BitVec.lt_def.mp h
      rw [if_pos h, if_pos hgap]
      simp only [List.map_append, List.append_assoc]
      rfl
    · have hgap : ¬ s.cursor.toNat < r.span.1 := fun hlt => h (BitVec.lt_def.mpr hlt)
      rw [if_neg h, if_neg hgap]
      simp only [List.map_append, List.append_assoc]
      rfl

/-- The sweep from the first address. -/
theorem foldl_start (table : List Region) :
    (table.foldl Sweep.step ⟨0, 0, []⟩).printed.map Interval.piece =
        pieces 0 (table.map Region.span) ∧
      (table.foldl Sweep.step ⟨0, 0, []⟩).cursor.toNat = reach 0 (table.map Region.span) :=
  foldl_step table ⟨0, 0, []⟩

theorem toNat_ulongMax : ulongMax.toNat = 2 ^ 64 - 1 := BitVec.toNat_allOnes

/-- **The layout is a tiling** of the addresses below the last. -/
theorem layout_pieces (table : List Region) :
    (layout table).map Interval.piece = tiling 0 (2 ^ 64 - 1) (table.map Region.span) := by
  obtain ⟨hprinted, hcursor⟩ := foldl_start table
  have hiff : (table.foldl Sweep.step ⟨0, 0, []⟩).cursor < ulongMax ↔
      reach 0 (table.map Region.span) < 2 ^ 64 - 1 := by
    rw [← hcursor, ← toNat_ulongMax]
    exact BitVec.lt_def
  unfold layout tiling
  by_cases h : (table.foldl Sweep.step ⟨0, 0, []⟩).cursor < ulongMax
  · have htop : (Interval.reservedTop (table.foldl Sweep.step ⟨0, 0, []⟩).cursor).piece =
        ⟨true, reach 0 (table.map Region.span), 2 ^ 64 - 1⟩ := by
      rw [← hcursor, ← toNat_ulongMax]
      rfl
    rw [if_pos (hiff.mp h)]
    simp only [if_pos h]
    rw [List.map_append, hprinted, List.map_singleton, htop]
  · rw [if_neg fun hlt => h (hiff.mpr hlt), List.append_nil]
    simp only [if_neg h]
    exact hprinted

/-- The entries are printed, all and in their order. -/
theorem foldl_regions (table : List Region) (s : Sweep) :
    (table.foldl Sweep.step s).printed.filterMap Interval.region? =
      s.printed.filterMap Interval.region? ++ table := by
  induction table generalizing s with
  | nil => exact (List.append_nil _).symm
  | cons r table ih =>
    rw [List.foldl_cons, ih, Sweep.step_printed]
    have hgap : (if s.cursor < r.start then [Interval.reservedGap s.gap s.cursor r.start] else
        []).filterMap Interval.region? = [] := by
      split
      · rfl
      · rfl
    rw [List.filterMap_append, List.filterMap_append, hgap, List.append_nil, List.append_assoc]
    rfl

theorem layout_regions (table : List Region) :
    (layout table).filterMap Interval.region? = table := by
  have hregions := foldl_regions table ⟨0, 0, []⟩
  unfold layout
  by_cases h : (table.foldl Sweep.step ⟨0, 0, []⟩).cursor < ulongMax
  · simp only [if_pos h]
    rw [List.filterMap_append, hregions]
    exact List.append_nil table
  · simp only [if_neg h]
    exact hregions

/-- The gaps are numbered from the number the loop has. -/
theorem foldl_numbers (table : List Region) (s : Sweep) :
    ∃ count ≤ table.length, (table.foldl Sweep.step s).printed.filterMap Interval.number =
      s.printed.filterMap Interval.number ++
        (List.range count).map fun k => s.gap + BitVec.ofNat 32 k := by
  induction table generalizing s with
  | nil => exact ⟨0, le_rfl, (List.append_nil _).symm⟩
  | cons r table ih =>
    obtain ⟨count, hle, hcount⟩ := ih (s.step r)
    rw [List.foldl_cons, hcount, Sweep.step_printed, Sweep.step_gap]
    by_cases h : s.cursor < r.start
    · refine ⟨count + 1, Nat.succ_le_succ hle, ?_⟩
      have hnumber : [Interval.reservedGap s.gap s.cursor r.start, Interval.region r].filterMap
          Interval.number = [s.gap + BitVec.ofNat 32 0] := by
        rw [BitVec.add_zero]
        rfl
      have hnext : ∀ k, s.gap + 1 + BitVec.ofNat 32 k = s.gap + BitVec.ofNat 32 (k + 1) := by
        intro k
        rw [BitVec.add_assoc, BitVec.add_comm 1]
        exact congrArg (s.gap + ·) (BitVec.ofNat_add k 1).symm
      simp only [if_pos h, List.filterMap_append, List.append_assoc, List.singleton_append, hnumber,
        List.range_succ_eq_map, List.map_cons, List.map_map, hnext, Function.comp_def,
        Nat.succ_eq_add_one]
    · refine ⟨count, Nat.le_succ_of_le hle, ?_⟩
      have hregion : [Interval.region r].filterMap Interval.number = [] := rfl
      simp only [if_neg h, List.filterMap_append, hregion, List.append_nil]

/-- **The gaps are numbered** in their order, from zero on. -/
theorem layout_numbers (table : List Region) :
    ∃ count ≤ table.length, (layout table).filterMap Interval.number =
      (List.range count).map (BitVec.ofNat 32) := by
  obtain ⟨count, hle, hcount⟩ := foldl_numbers table ⟨0, 0, []⟩
  have hzero : (fun k => 0 + BitVec.ofNat 32 k) = BitVec.ofNat 32 :=
    funext fun k => BitVec.zero_add _
  rw [List.filterMap_nil, List.nil_append, hzero] at hcount
  refine ⟨count, hle, ?_⟩
  unfold layout
  by_cases h : (table.foldl Sweep.step ⟨0, 0, []⟩).cursor < ulongMax
  · simp only [if_pos h]
    rw [List.filterMap_append, hcount]
    exact List.append_nil _
  · simp only [if_neg h]
    exact hcount

/-! ## The tiling -/

/-- What the sweep needs of the table: its entries by their starts, none with its end in front. -/
structure Sorted (table : List Region) : Prop where
  starts : table.Pairwise fun r s => r.start ≤ s.start
  ends : ∀ r ∈ table, r.start ≤ r.stop

theorem Sorted.spans {table : List Region} (h : Sorted table) :
    ((table.map Region.span).Pairwise fun s t => s.1 ≤ t.1) ∧
      ∀ s ∈ table.map Region.span, s.1 ≤ s.2 := by
  constructor
  · exact List.pairwise_map.mpr (h.starts.imp fun hle => BitVec.le_def.mp hle)
  · intro s hs
    obtain ⟨r, hr, rfl⟩ := List.mem_map.mp hs
    exact BitVec.le_def.mp (h.ends r hr)

/-- **The layout tiles the address space**: the lines between the constants and the end show, by
    names and bounds, intervals that have the entries of the table in their order; what they show
    covers all addresses below the last, and a gap among it meets nothing else. -/
theorem layout_tiles {table : List Region} (h : Sorted table) (l5Enabled : Bool)
    (ramBytes : BitVec 64) :
    ∃ printed : List Interval,
      printGlobalConstants table l5Enabled ramBytes =
        [⟨.info, kapiEvt (text "domain=kapi phase=layout action=begin")⟩,
          constantsLine l5Enabled ramBytes] ++ printed.map Interval.print ++
        [⟨.info, kapiEvt (text "domain=kapi phase=layout action=end")⟩] ∧
      (∀ i ∈ printed, readRegion i.print.message = some i.shown) ∧
      printed.filterMap Interval.region? = table ∧
      (∀ a < 2 ^ 64 - 1, ∃ i ∈ printed, a ∈ i.shown.addresses) ∧
      printed.Pairwise fun i j => i.isGap = true ∨ j.isGap = true →
        Disjoint i.shown.addresses j.shown.addresses := by
  refine ⟨layout table, rfl, fun i _ => i.readRegion_print, layout_regions table,
    fun a ha => ?_, ?_⟩
  -- what is printed are the pieces of the tiling, as spans of addresses
  · obtain ⟨p, hp, hmem⟩ : ∃ p ∈ tiling 0 (2 ^ 64 - 1) (table.map Region.span), a ∈ p.carrier :=
      exists_mem_tiling (Nat.zero_le a) ha
    rw [← layout_pieces] at hp
    obtain ⟨i, hi, rfl⟩ := List.mem_map.mp hp
    exact ⟨i, hi, hmem⟩
  · have hclear : ((layout table).map Interval.piece).Pairwise Piece.Clear := by
      rw [layout_pieces]
      exact tiling_pairwise h.spans.1 h.spans.2
    exact List.pairwise_map.mp hclear

/-- A table of a region, one in it, an empty one and one behind a gap. -/
def fourRegions : List Region :=
  [⟨label "outer", 0x1000, 0x9000, text "kind", text "source"⟩,
    ⟨label "inner", 0x2000, 0x3000, text "kind", text "source"⟩,
    ⟨label "empty", 0xa000, 0xa000, text "kind", text "source"⟩,
    ⟨label "last", 0xb000, 0xc000, text "kind", text "source"⟩]

theorem fourRegions_sorted : Sorted fourRegions where
  starts := by decide
  ends := by decide

theorem layout_tiles_four : Sorted fourRegions ∧
    ∃ printed : List Interval,
      printGlobalConstants fourRegions false 0 =
        [⟨.info, kapiEvt (text "domain=kapi phase=layout action=begin")⟩,
          constantsLine false 0] ++ printed.map Interval.print ++
        [⟨.info, kapiEvt (text "domain=kapi phase=layout action=end")⟩] ∧
      (∀ i ∈ printed, readRegion i.print.message = some i.shown) ∧
      printed.filterMap Interval.region? = fourRegions ∧
      (∀ a < 2 ^ 64 - 1, ∃ i ∈ printed, a ∈ i.shown.addresses) ∧
      printed.Pairwise fun i j => i.isGap = true ∨ j.isGap = true →
        Disjoint i.shown.addresses j.shown.addresses :=
  ⟨fourRegions_sorted, layout_tiles fourRegions_sorted false 0⟩

/-- Three gaps and the top are printed between the four regions. -/
example : (layout fourRegions).filterMap Interval.number = [0, 1, 2] := by decide

end LinuxMaxxing.Kapi
