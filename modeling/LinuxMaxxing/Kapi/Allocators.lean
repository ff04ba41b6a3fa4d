import Mathlib.Tactic.DeriveFintype
import LinuxMaxxing.Lib.Hoare
import LinuxMaxxing.Lib.Ledger
import LinuxMaxxing.Lib.Transition

/-!
# The Allocator Study of the Module

`kapi_init` of `kapi.c` allocates from the page, slab and vmalloc allocators and keeps what it
got in global variables; `kapi_exit` and the error paths free it. Any allocation may fail.

- `Module`: the globals and the kernel's ledger of blocks in use, shared with everybody else;
- a block is freed with the function that belongs to the one that allocated it, at its order or
  size: the ledger knows blocks by how they were allocated, so that freeing one in another way,
  twice, or under the objects of a cache is a `BadUse`, as is writing to a block not in use;
- `allocate…`, `free…`, `kapiInit`, `kapiExit`: the functions of the source;
- `At others live m`: the ledger holds what the others hold and the blocks of the globals in
  `live`, which are those that are not `NULL`.

`kapi_never_leaks` is about loading and unloading the module any number of times, while others
allocate and free.
-/

namespace LinuxMaxxing.Kapi

open LinuxMaxxing.Lib

/-! ## Blocks -/

/-- An address, or `NULL`, which is 0. -/
abbrev Addr := Nat

/-- How a block was allocated. -/
inductive BlockKind where
  /-- `__get_free_pages`, `__get_free_page`, `get_zeroed_page` -/
  | freePages (order : Nat)
  /-- `alloc_pages`; the address is that of the `struct page` -/
  | pages (order : Nat)
  /-- `alloc_pages_exact` -/
  | exactPages (size : Nat)
  /-- `kmalloc`, `kzalloc` -/
  | kmalloc
  /-- `kmem_cache_create` -/
  | cache
  /-- `kmem_cache_alloc` from that cache -/
  | cacheObject (cache : Addr)
  /-- `vmalloc`, `vzalloc` -/
  | vmalloc
  deriving DecidableEq, Repr

structure Block where
  kind : BlockKind
  addr : Addr
  deriving DecidableEq, Repr

/-- A cache outlives its objects. -/
def Block.needs : Block → List Block
  | ⟨.cacheObject cache, _⟩ => [⟨.cache, cache⟩]
  | _ => []

/-! ## The module -/

def buddyPageOrder : Nat := 3
/-- `PAGE_SIZE + 100`. -/
def exactPageAllocSize : Nat := 4096 + 100
abbrev customCacheObjects : Nat := 8

def ENOMEM : Int := 12
def EINVAL : Int := 22

/-- The global variables that hold an allocation. -/
inductive Global where
  | onePage
  | zeroPage
  | orderPages
  | exactPages
  | pageDesc
  | slabBuf
  | ctx
  | customCache
  | customObject (i : Fin customCacheObjects)
  | vbuf
  | vzbuf
  deriving DecidableEq, Fintype, Repr

/-- The module's globals, and the blocks in use in the kernel. -/
structure Module where
  global : Global → Addr
  /-- `page_desc_addr`, which is only a view of `page_desc` -/
  pageDescAddr : Addr
  heap : Ledger Block.needs
  /-- allocations asked for so far -/
  calls : Nat

/-- What the kernel answers: to each allocation an address or `NULL`, and the mapping of the
    pages of a descriptor or `NULL`. -/
structure Allocator where
  reply : Nat → Addr
  pageAddress : Addr → Addr
  maxPageOrder : Nat

/-- A use of the allocators that corrupts the kernel. -/
inductive BadUse where
  | allocated (b : Block)
  | freed (b : Block)
  | touched (a : Addr)
  deriving Repr

abbrev KapiM := EStateM BadUse Module

/-! ## Allocating, using and freeing -/

def Module.assign (m : Module) (g : Global) (a : Addr) : Module :=
  { m with global := Function.update m.global g a }

/-- One allocation: `NULL`, or a block, which the kernel never hands out while it is in use. -/
def allocate (A : Allocator) (kind : BlockKind) : KapiM Addr := do
  let m ← get
  modify fun m => { m with calls := m.calls + 1 }
  let a := A.reply m.calls
  if a = 0 ∨ ⟨kind, a⟩ ∈ m.heap.held then return 0
  else
    match m.heap.acquire ⟨kind, a⟩ with
    | some heap =>
      modify fun m => { m with heap := heap }
      return a
    | none => throw (.allocated ⟨kind, a⟩)

/-- The function that a site calls and its order or size. Those of a cache's objects take the cache. -/
abbrev Api := Module → BlockKind

/-- `g = alloc(...)`, with the test `if (!g)` that follows each. -/
def allocGlobal (A : Allocator) (g : Global) (api : Api) : KapiM Bool := do
  let m ← get
  let a ← allocate A (api m)
  modify fun m => m.assign g a
  return a ≠ 0

/-- `memset` and the inspection of the block of a global. -/
def touch (g : Global) : KapiM Unit := do
  let m ← get
  if m.global g ∈ m.heap.held.map Block.addr then return ()
  else throw (.touched (m.global g))

/-- `if (g) { free(g); g = NULL; }` -/
def freeGlobal (g : Global) (api : Api) : KapiM Unit := do
  let m ← get
  if m.global g = 0 then return ()
  else
    match m.heap.release ⟨api m, m.global g⟩ with
    | some heap => modify fun m => { m.assign g 0 with heap := heap }
    | none => throw (.freed ⟨api m, m.global g⟩)

/-! ## Page memory -/

/-- The branch of `free_page_memory` for `page_desc`, which also clears the view of it. -/
def freePageDesc : KapiM Unit := do
  let m ← get
  if m.global .pageDesc = 0 then return ()
  else
    freeGlobal .pageDesc fun _ => .pages buddyPageOrder
    modify fun m => { m with pageDescAddr := 0 }

def freePageMemory : KapiM Unit := do
  freeGlobal .exactPages fun _ => .exactPages exactPageAllocSize
  freePageDesc
  freeGlobal .orderPages fun _ => .freePages buddyPageOrder
  freeGlobal .zeroPage fun _ => .freePages 0
  freeGlobal .onePage fun _ => .freePages 0

def allocatePageMemory (A : Allocator) : KapiM Int := do
  if A.maxPageOrder - 1 < buddyPageOrder then return -EINVAL
  else if ← allocGlobal A .onePage fun _ => .freePages 0 then
    touch .onePage
    if ← allocGlobal A .zeroPage fun _ => .freePages 0 then
      touch .zeroPage
      if ← allocGlobal A .orderPages fun _ => .freePages buddyPageOrder then
        touch .orderPages
        if ← allocGlobal A .pageDesc fun _ => .pages buddyPageOrder then
          modify fun m => { m with pageDescAddr := A.pageAddress (m.global .pageDesc) }
          let m ← get
          if m.pageDescAddr = 0 then
            freePageMemory
            return -ENOMEM
          else
            touch .pageDesc
            if ← allocGlobal A .exactPages fun _ => .exactPages exactPageAllocSize then
              touch .exactPages
              return 0
            else errNomem
        else errNomem
      else errNomem
    else errNomem
  else return -ENOMEM
where
  errNomem : KapiM Int := do
    freePageMemory
    return -ENOMEM

/-! ## Slab and vmalloc memory -/

/-- Free two globals, the one allocated last first. -/
def freePair (first second : Global) (kind : BlockKind) : KapiM Unit := do
  freeGlobal second fun _ => kind
  freeGlobal first fun _ => kind

/-- Allocate and fill two globals, or neither. -/
def allocatePair (A : Allocator) (first second : Global) (kind : BlockKind) : KapiM Int := do
  if ← allocGlobal A first fun _ => kind then
    touch first
    if ← allocGlobal A second fun _ => kind then
      touch second
      return 0
    else
      freePair first second kind
      return -ENOMEM
  else return -ENOMEM

def freeSlabMemory : KapiM Unit := freePair .slabBuf .ctx .kmalloc

def allocateSlabMemory (A : Allocator) : KapiM Int := allocatePair A .slabBuf .ctx .kmalloc

def freeVmallocMemory : KapiM Unit := freePair .vbuf .vzbuf .vmalloc

def allocateVmallocMemory (A : Allocator) : KapiM Int := allocatePair A .vbuf .vzbuf .vmalloc

/-! ## The custom cache -/

/-- The loop of `free_custom_slab_cache` over the objects from there on. -/
def freeObjects : List (Fin customCacheObjects) → KapiM Unit
  | [] => return ()
  | i :: rest => do
    freeGlobal (.customObject i) fun m => .cacheObject (m.global .customCache)
    freeObjects rest

def freeCustomSlabCache : KapiM Unit := do
  freeObjects (List.finRange customCacheObjects)
  freeGlobal .customCache fun _ => .cache

/-- The loop of `create_custom_slab_cache` over the objects from there on. -/
def allocateObjects (A : Allocator) : List (Fin customCacheObjects) → KapiM Int
  | [] => do
    touch (.customObject 0)
    return 0
  | i :: rest => do
    if ← allocGlobal A (.customObject i) fun m => .cacheObject (m.global .customCache) then
      touch (.customObject i)
      allocateObjects A rest
    else
      freeCustomSlabCache
      return -ENOMEM

def createCustomSlabCache (A : Allocator) : KapiM Int := do
  if ← allocGlobal A .customCache fun _ => .cache then
    allocateObjects A (List.finRange customCacheObjects)
  else return -ENOMEM

/-! ## Loading and unloading -/

/-- `kapi_init`, after the address space and the tasks have been printed. -/
def kapiInit (A : Allocator) : KapiM Int := do
  let ret ← allocatePageMemory A
  if ret ≠ 0 then return ret
  else
    let ret ← allocateSlabMemory A
    if ret ≠ 0 then
      freePageMemory
      return ret
    else
      let ret ← createCustomSlabCache A
      if ret ≠ 0 then
        freeSlabMemory
        freePageMemory
        return ret
      else
        let ret ← allocateVmallocMemory A
        if ret ≠ 0 then
          freeCustomSlabCache
          freeSlabMemory
          freePageMemory
          return ret
        else return 0

def kapiExit : KapiM Unit := do
  freeVmallocMemory
  freeCustomSlabCache
  freeSlabMemory
  freePageMemory

/-! ## What the module holds -/

/-- The kind of the block that a global names. -/
def Module.kind (m : Module) : Global → BlockKind
  | .onePage | .zeroPage => .freePages 0
  | .orderPages => .freePages buddyPageOrder
  | .exactPages => .exactPages exactPageAllocSize
  | .pageDesc => .pages buddyPageOrder
  | .slabBuf | .ctx => .kmalloc
  | .customCache => .cache
  | .customObject _ => .cacheObject (m.global .customCache)
  | .vbuf | .vzbuf => .vmalloc

def Module.block (m : Module) (g : Global) : Block := ⟨m.kind g, m.global g⟩

/-- The blocks that the globals name. -/
def Module.owned (m : Module) : Multiset Block :=
  ∑ g : Global, if m.global g = 0 then 0 else {m.block g}

/-- The others hold `others`, the module the blocks of its globals, and the globals that are not
    `NULL` are those in `live`. -/
structure At (others : Multiset Block) (live : Finset Global) (m : Module) : Prop where
  share : m.heap.Splits others m.owned
  live : ∀ g, m.global g ≠ 0 ↔ g ∈ live

/-- While there are objects there is their cache. -/
def Cached (live : Finset Global) : Prop :=
  ∀ i, .customObject i ∈ live → .customCache ∈ live

section Assign

variable {m : Module} {g : Global} {a : Addr} {others : Multiset Block} {live : Finset Global}

theorem assign_self : (m.assign g a).global g = a := Function.update_self _ _ _

theorem assign_of_ne {g' : Global} (h : g' ≠ g) : (m.assign g a).global g' = m.global g' :=
  Function.update_of_ne h _ _

/-- Only the cache's address is part of other blocks: those of its objects. -/
theorem block_assign {g' : Global} (h : g' ≠ g)
    (hcache : g = .customCache → ∀ i, g' ≠ .customObject i) :
    (m.assign g a).block g' = m.block g' := by
  unfold Module.block
  rw [assign_of_ne h]
  cases g' with
  | customObject i =>
    have hg : Global.customCache ≠ g := fun heq => hcache heq.symm i rfl
    simp only [Module.kind, assign_of_ne hg]
  | _ => rfl

/-- **Ownership moves one block at a time**: the blocks of the other globals are as before. -/
theorem owned_assign (hcache : g = .customCache → ∀ i, m.global (.customObject i) = 0) :
    (m.assign g a).owned + (if m.global g = 0 then 0 else {m.block g}) =
      (if a = 0 then 0 else {(m.assign g a).block g}) + m.owned := by
  unfold Module.owned
  rw [← Finset.add_sum_erase _ _ (Finset.mem_univ g),
    ← Finset.add_sum_erase _ (fun g => if m.global g = 0 then 0 else {m.block g})
      (Finset.mem_univ g), assign_self, add_assoc]
  congr 1
  rw [add_comm]
  congr 1
  apply Finset.sum_congr rfl
  intro g' hg'
  have hne : g' ≠ g := Finset.ne_of_mem_erase hg'
  rw [assign_of_ne hne]
  split_ifs with hzero
  · rfl
  · rw [block_assign hne]
    rintro hg i rfl
    exact hzero (hcache hg i)

theorem mem_owned (h : m.global g ≠ 0) : m.block g ∈ m.owned := by
  unfold Module.owned
  rw [Multiset.mem_sum]
  exact ⟨g, Finset.mem_univ g, by simp [h]⟩

theorem exists_of_mem_owned {b : Block} (h : b ∈ m.owned) :
    ∃ g, m.global g ≠ 0 ∧ b = m.block g := by
  unfold Module.owned at h
  rw [Multiset.mem_sum] at h
  obtain ⟨g, -, hg⟩ := h
  split_ifs at hg with hzero
  · exact absurd hg (Multiset.notMem_zero b)
  · exact ⟨g, hzero, Multiset.mem_singleton.mp hg⟩

/-- Without live globals the module holds nothing. -/
theorem At.held (h : At others ∅ m) : m.heap.held = others := by
  have hnone : m.owned = 0 := by
    apply Multiset.eq_zero_of_forall_notMem
    intro b hb
    obtain ⟨g, hg, -⟩ := exists_of_mem_owned hb
    exact absurd ((h.live g).mp hg) (Finset.notMem_empty g)
  rw [h.share.held, hnone, add_zero]

/-- A change of one global, and of the share to match. -/
theorem At.assign {live' : Finset Global} (h : At others live m) {heap : Ledger Block.needs}
    (hshare : heap.Splits others (m.assign g a).owned) (ha : a ≠ 0 ↔ g ∈ live')
    (hsame : ∀ g', g' ≠ g → (g' ∈ live ↔ g' ∈ live')) {calls : Nat} :
    At others live' { m.assign g a with heap := heap, calls := calls } := by
  refine ⟨hshare, fun g' => ?_⟩
  by_cases hg : g' = g
  · subst hg
    rw [← ha]
    exact not_congr (by rw [assign_self])
  · rw [← hsame g' hg, ← h.live g']
    exact not_congr (by rw [assign_of_ne hg])

/-- The block a global names right after it was allocated. -/
theorem block_assign_self : (m.assign g a).block g = ⟨m.kind g, a⟩ := by
  unfold Module.block
  rw [assign_self]
  congr 1
  cases g with
  | customObject i =>
    have hcache : Global.customCache ≠ .customObject i := by simp
    simp only [Module.kind, assign_of_ne hcache]
  | _ => rfl

end Assign

/-! ## One step -/

section Steps

variable {others : Multiset Block} {live : Finset Global} {A : Allocator}

/-- **An allocation** makes its global live or leaves everything as it was; objects are only
    allocated from a cache that is there. -/
theorem allocGlobal_spec {g : Global} {api : Api} (hapi : ∀ m, api m = m.kind g) (hg : g ∉ live)
    (hcached : Cached live) (hobject : ∀ i, g = .customObject i → .customCache ∈ live) :
    Triple (At others live) (allocGlobal A g api)
      (fun ok => At others (if ok then insert g live else live)) fun _ => False := by
  intro m hm
  have hzero : m.global g = 0 := by
    by_contra hne
    exact hg ((hm.live g).mp hne)
  have hnoObjects : g = .customCache → ∀ i, m.global (.customObject i) = 0 := by
    rintro rfl i
    by_contra hne
    exact hg (hcached i ((hm.live _).mp hne))
  have hown (a : Addr) := owned_assign (a := a) hnoObjects
  simp only [hzero, if_true, add_zero, block_assign_self] at hown
  by_cases hnull : A.reply m.calls = 0 ∨ ⟨m.kind g, A.reply m.calls⟩ ∈ m.heap.held
  · -- `NULL`, which the global holds already
    have hrun : allocGlobal A g api m = .ok false { m.assign g 0 with calls := m.calls + 1 } := by
      simp only [allocGlobal, allocate, run_bind, run_get, run_modify, hapi, if_pos hnull, run_pure]
      rfl
    rw [hrun]
    apply hm.assign
    · rw [hown 0, if_pos rfl, zero_add]
      exact hm.share
    · simp [hg]
    · simp
  · obtain ⟨hne, hfree⟩ := not_or.mp hnull
    have hneeds : ∀ v ∈ Block.needs ⟨m.kind g, A.reply m.calls⟩, v ∈ m.owned := by
      intro v hv
      cases g with
      | customObject i =>
        obtain rfl := List.mem_singleton.mp hv
        exact mem_owned (g := .customCache) ((hm.live _).mpr (hobject i rfl))
      | _ => exact absurd hv List.not_mem_nil
    obtain ⟨heap, hacquire, hshare⟩ := hm.share.acquire hfree hneeds
    have hrun : allocGlobal A g api m = .ok (A.reply m.calls ≠ 0)
        { m.assign g (A.reply m.calls) with heap := heap, calls := m.calls + 1 } := by
      simp only [allocGlobal, allocate, run_bind, run_get, run_modify, hapi, if_neg hnull, hacquire,
        run_pure]
      rfl
    rw [hrun]
    simp only [ne_eq, hne, not_false_eq_true, decide_true, if_true]
    apply hm.assign
    · rw [hown, if_neg hne]
      exact hshare
    · simp [hne]
    · intro g' hg'
      simp [hg']

/-- Reading or writing the block of a live global is fine. -/
theorem touch_spec {g : Global} (hg : g ∈ live) :
    Triple (At others live) (touch g) (fun _ => At others live) fun _ => False := by
  intro m hm
  have hin : m.global g ∈ m.heap.held.map Block.addr :=
    Multiset.mem_map_of_mem Block.addr (hm.share.mem_held (mem_owned ((hm.live g).mpr hg)))
  have hrun : touch g m = .ok () m := by
    simp only [touch, run_bind, run_get, if_pos hin, run_pure]
  rw [hrun]
  exact hm

/-- **Freeing a global**, live or not; the cache only once no object is left. -/
theorem freeGlobal_spec {g : Global} {api : Api} (hapi : ∀ m, api m = m.kind g)
    (hcache : g = .customCache → ∀ i, .customObject i ∉ live) :
    Triple (At others live) (freeGlobal g api) (fun _ => At others (live.erase g))
      fun _ => False := by
  intro m hm
  by_cases hzero : m.global g = 0
  · have hrun : freeGlobal g api m = .ok () m := by
      simp only [freeGlobal, run_bind, run_get, if_pos hzero, run_pure]
    have hnot : g ∉ live := fun hg => (hm.live g).mpr hg hzero
    rw [hrun, Finset.erase_eq_of_notMem hnot]
    exact hm
  · have hnoObjects : g = .customCache → ∀ i, m.global (.customObject i) = 0 := by
      intro hg i
      by_contra hne
      exact hcache hg i ((hm.live _).mp hne)
    have hneeded : ∀ v ∈ m.owned, m.block g ∉ v.needs := by
      intro v hv hneed
      obtain ⟨g', hg', rfl⟩ := exists_of_mem_owned hv
      -- only an object needs a block, and that block is a cache
      cases g' with
      | customObject i =>
        have hkind : m.kind g = .cache := congrArg Block.kind (List.mem_singleton.mp hneed)
        cases g with
        | customCache => exact hg' (hnoObjects rfl i)
        | _ => cases hkind
      | _ => exact absurd hneed List.not_mem_nil
    have hmem : m.block g ∈ m.owned := mem_owned hzero
    obtain ⟨heap, hrelease, hshare⟩ := hm.share.release hmem hneeded
    have hrelease' : m.heap.release ⟨api m, m.global g⟩ = some heap := by
      rw [hapi]
      exact hrelease
    have hrun : freeGlobal g api m = .ok () { m.assign g 0 with heap := heap, calls := m.calls } := by
      simp only [freeGlobal, run_bind, run_get, if_neg hzero, hrelease', run_modify]
      rfl
    rw [hrun]
    apply hm.assign
    · have hown := owned_assign (a := 0) hnoObjects
      rw [if_neg hzero, if_pos rfl, zero_add] at hown
      rw [show (m.assign g 0).owned = m.owned.erase (m.block g) by
        rw [← hown, Multiset.add_comm, Multiset.singleton_add, Multiset.erase_cons_head]]
      exact hshare
    · simp
    · intro g' hg'
      simp [hg']

/-- `g = alloc(...); if (!g) goto …` for a global that is not an object. -/
theorem alloc_then {g : Global} {api : Api} {x y : KapiM Int} {Q : Int → Module → Prop}
    (hapi : ∀ m, api m = m.kind g) (hplain : ∀ i, g ≠ .customObject i) (hg : g ∉ live) (hcached : Cached live)
    (hyes : Cached (insert g live) → Triple (At others (insert g live)) x Q fun _ => False)
    (hno : Triple (At others live) y Q fun _ => False) :
    Triple (At others live) (do if ← allocGlobal A g api then x else y) Q fun _ => False := by
  apply Triple.bind (allocGlobal_spec hapi hg hcached fun i hi => absurd hi (hplain i))
  intro ok
  apply Triple.ite
  · rintro rfl
    apply hyes
    intro i hi
    rcases Finset.mem_insert.mp hi with hi | hi
    · exact absurd hi.symm (hplain i)
    · exact Finset.mem_insert_of_mem (hcached i hi)
  · intro hok
    rw [if_neg hok]
    exact hno

/-- The use that follows a successful allocation. -/
theorem touch_then {g : Global} {x : KapiM Int} {Q : Int → Module → Prop} (hg : g ∈ live)
    (hx : Triple (At others live) x Q fun _ => False) :
    Triple (At others live) (do touch g; x) Q fun _ => False :=
  Triple.bind (touch_spec hg) fun _ => hx

end Steps

/-! ## One allocator -/

def pageGlobals : Finset Global := {.onePage, .zeroPage, .orderPages, .pageDesc, .exactPages}
def slabGlobals : Finset Global := {.slabBuf, .ctx}
def vmallocGlobals : Finset Global := {.vbuf, .vzbuf}

def objectGlobals (objects : List (Fin customCacheObjects)) : Finset Global :=
  (objects.map Global.customObject).toFinset

def cacheGlobals : Finset Global :=
  insert .customCache (objectGlobals (List.finRange customCacheObjects))

section Allocators

variable {others : Multiset Block} {live : Finset Global} {A : Allocator}

/-- The view of `page_desc` is no block. -/
theorem At.setPageDescAddr {m : Module} (h : At others live m) (a : Addr) :
    At others live { m with pageDescAddr := a } :=
  ⟨h.share, h.live⟩

theorem freePageDesc_spec :
    Triple (At others live) freePageDesc (fun _ => At others (live.erase .pageDesc))
      fun _ => False := by
  apply Triple.get_bind
  intro m hm
  apply Triple.ite
  · rintro hzero s rfl
    have hnot : Global.pageDesc ∉ live := fun hg => (hm.live _).mpr hg hzero
    rw [run_pure, Finset.erase_eq_of_notMem hnot]
    exact hm
  · intro _
    have hfree : Triple (At others live) (freeGlobal .pageDesc fun _ => .pages buddyPageOrder)
        (fun _ => At others (live.erase .pageDesc)) fun _ => False := freeGlobal_spec (fun _ => rfl) (by simp)
    have hclear : Triple (At others (live.erase .pageDesc))
        (modify fun m => { m with pageDescAddr := 0 } : KapiM PUnit)
        (fun _ => At others (live.erase .pageDesc)) fun _ => False :=
      Triple.modify fun _ h => h.setPageDescAddr 0
    apply (hfree.bind fun _ => hclear).pre
    rintro s rfl
    exact hm

@[simp] theorem mem_pageGlobals {g : Global} :
    g ∈ pageGlobals ↔
      g = .onePage ∨ g = .zeroPage ∨ g = .orderPages ∨ g = .pageDesc ∨ g = .exactPages := by
  simp [pageGlobals]

theorem freePageMemory_spec :
    Triple (At others live) freePageMemory (fun _ => At others (live \ pageGlobals))
      fun _ => False := by
  have herase : live \ pageGlobals =
      ((((live.erase .exactPages).erase .pageDesc).erase .orderPages).erase .zeroPage).erase
        .onePage := by
    ext g
    simp only [mem_pageGlobals, Finset.mem_sdiff, Finset.mem_erase]
    tauto
  rw [herase]
  apply Triple.bind (freeGlobal_spec (fun _ => rfl) (by simp))
  intro _
  apply Triple.bind freePageDesc_spec
  intro _
  apply Triple.bind (freeGlobal_spec (fun _ => rfl) (by simp))
  intro _
  apply Triple.bind (freeGlobal_spec (fun _ => rfl) (by simp))
  intro _
  exact freeGlobal_spec (fun _ => rfl) (by simp)

/-- A failed allocation frees what was allocated before it. -/
theorem errNomem_spec {taken : Finset Global} (h : taken \ pageGlobals = live) :
    Triple (At others taken) allocatePageMemory.errNomem
      (fun ret => At others (if ret = 0 then live ∪ pageGlobals else live)) fun _ => False := by
  subst h
  apply Triple.bind freePageMemory_spec
  intro _
  apply Triple.pure
  intro s hs
  exact hs

theorem allocatePageMemory_spec (hcached : Cached live) (hfree : Disjoint live pageGlobals) :
    Triple (At others live) (allocatePageMemory A)
      (fun ret => At others (if ret = 0 then live ∪ pageGlobals else live)) fun _ => False := by
  have hnot (g : Global) (hg : g ∈ pageGlobals) : g ∉ live := Finset.disjoint_right.mp hfree hg
  have hback : live \ pageGlobals = live := Finset.sdiff_eq_self_of_disjoint hfree
  have hdone : insert .exactPages (insert .pageDesc (insert .orderPages
      (insert .zeroPage (insert .onePage live)))) = live ∪ pageGlobals := by
    ext g
    simp only [Finset.mem_insert, Finset.mem_union, mem_pageGlobals]
    tauto
  unfold allocatePageMemory
  apply Triple.ite
  · intro _
    apply Triple.pure
    intro s hs
    exact hs
  intro _
  -- each allocation that fails goes to `err_nomem`, which frees those before it
  apply alloc_then (fun _ => rfl) (by simp) (hnot _ (by decide)) hcached
  · intro hcached
    apply touch_then (by simp)
    apply alloc_then (fun _ => rfl) (by simp) (by simp [hnot]) hcached
    · intro hcached
      apply touch_then (by simp)
      apply alloc_then (fun _ => rfl) (by simp) (by simp [hnot]) hcached
      · intro hcached
        apply touch_then (by simp)
        apply alloc_then (fun _ => rfl) (by simp) (by simp [hnot]) hcached
        · intro hcached
          apply Triple.bind (Triple.modify (Q := fun _ => At others _)
            fun _ h => At.setPageDescAddr h _)
          intro _
          apply Triple.get_bind
          intro m hm
          apply (Triple.ite (P := At others _) ?_ ?_).pre fun s hs => hs ▸ hm
          · intro _
            exact errNomem_spec (by simp [Finset.insert_sdiff_of_mem, hback])
          · intro _
            apply touch_then (by simp)
            apply alloc_then (fun _ => rfl) (by simp) (by simp [hnot]) hcached
            · intro _
              apply touch_then (by simp)
              apply Triple.pure
              intro s hs
              rw [if_pos rfl, ← hdone]
              exact hs
            · exact errNomem_spec (by simp [Finset.insert_sdiff_of_mem, hback])
        · exact errNomem_spec (by simp [Finset.insert_sdiff_of_mem, hback])
      · exact errNomem_spec (by simp [Finset.insert_sdiff_of_mem, hback])
    · exact errNomem_spec (by simp [Finset.insert_sdiff_of_mem, hback])
  · apply Triple.pure
    intro s hs
    exact hs

theorem freePair_spec {first second : Global} {kind : BlockKind} (hfirst : first ≠ .customCache)
    (hsecond : second ≠ .customCache) (hkind : ∀ m : Module, kind = m.kind first)
    (hkind' : ∀ m : Module, kind = m.kind second) :
    Triple (At others live) (freePair first second kind)
      (fun _ => At others (live \ {first, second})) fun _ => False := by
  have herase : live \ {first, second} = (live.erase second).erase first := by
    ext g
    simp only [Finset.mem_sdiff, Finset.mem_insert, Finset.mem_singleton, Finset.mem_erase]
    tauto
  rw [herase]
  apply Triple.bind (freeGlobal_spec hkind' fun h => absurd h hsecond)
  intro _
  exact freeGlobal_spec hkind fun h => absurd h hfirst

/-- A global that is neither the cache nor an object. -/
def Global.Single (g : Global) : Prop := g ≠ .customCache ∧ ∀ i, g ≠ .customObject i

theorem allocatePair_spec {first second : Global} {kind : BlockKind} (hfirst : first.Single)
    (hsecond : second.Single) (hkind : ∀ m : Module, kind = m.kind first)
    (hkind' : ∀ m : Module, kind = m.kind second) (hne : second ≠ first) (hcached : Cached live)
    (hfree : Disjoint live {first, second}) :
    Triple (At others live) (allocatePair A first second kind)
      (fun ret => At others (if ret = 0 then live ∪ {first, second} else live))
      fun _ => False := by
  have hnot (g : Global) (hg : g ∈ ({first, second} : Finset Global)) : g ∉ live :=
    Finset.disjoint_right.mp hfree hg
  have hback : live \ {first, second} = live := Finset.sdiff_eq_self_of_disjoint hfree
  unfold allocatePair
  apply alloc_then hkind hfirst.2 (hnot _ (by simp)) hcached
  · intro hcached
    apply touch_then (by simp)
    apply alloc_then hkind' hsecond.2 (by simp [hnot, hne]) hcached
    · intro _
      apply touch_then (by simp)
      apply Triple.pure
      intro s hs
      have hdone : insert second (insert first live) = live ∪ {first, second} := by
        ext g
        simp only [Finset.mem_insert, Finset.mem_union, Finset.mem_singleton]
        tauto
      rw [if_pos rfl, ← hdone]
      exact hs
    · apply Triple.bind (freePair_spec hfirst.1 hsecond.1 hkind hkind')
      intro _
      apply Triple.pure
      intro s hs
      rw [Finset.insert_sdiff_of_mem _ (by simp), hback] at hs
      exact hs
  · apply Triple.pure
    intro s hs
    exact hs

/-! ## The objects of the cache -/

theorem mem_objectGlobals {g : Global} {objects : List (Fin customCacheObjects)} :
    g ∈ objectGlobals objects ↔ ∃ i ∈ objects, g = .customObject i := by
  simp [objectGlobals, eq_comm]

theorem freeObjects_spec (objects : List (Fin customCacheObjects)) :
    Triple (At others live) (freeObjects objects)
      (fun _ => At others (live \ objectGlobals objects)) fun _ => False := by
  induction objects generalizing live with
  | nil =>
    apply Triple.pure
    intro s hs
    simpa [objectGlobals] using hs
  | cons i rest ih =>
    have herase : live \ objectGlobals (i :: rest) =
        (live.erase (.customObject i)) \ objectGlobals rest := by
      ext g
      simp only [Finset.mem_sdiff, mem_objectGlobals, List.mem_cons, Finset.mem_erase]
      grind
    rw [herase]
    apply Triple.bind (freeGlobal_spec (fun _ => rfl) (by simp))
    intro _
    exact ih

theorem freeCustomSlabCache_spec :
    Triple (At others live) freeCustomSlabCache (fun _ => At others (live \ cacheGlobals))
      fun _ => False := by
  have herase : live \ cacheGlobals =
      (live \ objectGlobals (List.finRange customCacheObjects)).erase .customCache := by
    ext g
    simp only [cacheGlobals, Finset.mem_sdiff, Finset.mem_insert, Finset.mem_erase]
    tauto
  rw [herase]
  apply Triple.bind (freeObjects_spec _)
  intro _
  apply freeGlobal_spec fun _ => rfl
  -- the loop has left no object to the cache
  rintro - i hi
  refine (Finset.mem_sdiff.mp hi).2 (mem_objectGlobals.mpr ⟨i, List.mem_finRange i, rfl⟩)

theorem mem_cacheGlobals {g : Global} :
    g ∈ cacheGlobals ↔ g = .customCache ∨ ∃ i, g = .customObject i := by
  simp [cacheGlobals, mem_objectGlobals]

/-- **The loop over the objects**: with every object allocated the globals of the cache are
    live, and after a failure none of them. -/
theorem allocateObjects_spec {objects : List (Fin customCacheObjects)} {taken : Finset Global}
    (hnodup : objects.Nodup) (hcache : .customCache ∈ taken)
    (hfree : ∀ i ∈ objects, .customObject i ∉ taken) (hback : taken \ cacheGlobals = live)
    (hrest : taken ∪ objectGlobals objects = live ∪ cacheGlobals) :
    Triple (At others taken) (allocateObjects A objects)
      (fun ret => At others (if ret = 0 then live ∪ cacheGlobals else live)) fun _ => False := by
  induction objects generalizing taken with
  | nil =>
    have hall : taken = live ∪ cacheGlobals := by simpa [objectGlobals] using hrest
    have hzero : .customObject 0 ∈ taken := by
      rw [hall]
      exact Finset.mem_union_right _ (mem_cacheGlobals.mpr (.inr ⟨0, rfl⟩))
    apply touch_then hzero
    apply Triple.pure
    intro s hs
    rw [if_pos rfl, ← hall]
    exact hs
  | cons i rest ih =>
    have hi : .customObject i ∈ cacheGlobals := mem_cacheGlobals.mpr (.inr ⟨i, rfl⟩)
    rw [List.nodup_cons] at hnodup
    apply Triple.bind (allocGlobal_spec (fun _ => rfl) (hfree i List.mem_cons_self)
      (fun _ _ => hcache) fun _ _ => hcache)
    intro ok
    apply Triple.ite
    · rintro rfl
      apply touch_then (Finset.mem_insert_self _ _)
      apply ih hnodup.2 (Finset.mem_insert_of_mem hcache)
      · intro j hj
        have hne : j ≠ i := fun h => hnodup.1 (h ▸ hj)
        simp [hne, hfree j (List.mem_cons_of_mem _ hj)]
      · rw [Finset.insert_sdiff_of_mem _ hi, hback]
      · rw [← hrest]
        simp [objectGlobals]
    · intro hok
      rw [if_neg hok]
      apply Triple.bind freeCustomSlabCache_spec
      intro _
      apply Triple.pure
      intro s hs
      rw [← hback]
      exact hs

theorem createCustomSlabCache_spec (hcached : Cached live) (hfree : Disjoint live cacheGlobals) :
    Triple (At others live) (createCustomSlabCache A)
      (fun ret => At others (if ret = 0 then live ∪ cacheGlobals else live)) fun _ => False := by
  have hnot (g : Global) (hg : g ∈ cacheGlobals) : g ∉ live := Finset.disjoint_right.mp hfree hg
  have hmem : .customCache ∈ cacheGlobals := mem_cacheGlobals.mpr (.inl rfl)
  apply alloc_then (fun _ => rfl) (by simp) (hnot _ hmem) hcached
  · intro _
    apply allocateObjects_spec (List.nodup_finRange _) (Finset.mem_insert_self _ _)
    · intro i _
      simp [hnot _ (mem_cacheGlobals.mpr (.inr ⟨i, rfl⟩))]
    · rw [Finset.insert_sdiff_of_mem _ hmem]
      exact Finset.sdiff_eq_self_of_disjoint hfree
    · rw [cacheGlobals, Finset.insert_union, Finset.union_insert]
  · apply Triple.pure
    intro s hs
    exact hs

end Allocators

/-! ## Loading and unloading -/

section Lifecycle

variable {others : Multiset Block} {A : Allocator}

/-- The next allocator of `kapi_init`: on success go on, on failure undo what came before. -/
theorem init_then {x : KapiM Int} {y : Int → KapiM Int} {z : KapiM Int}
    {live live' : Finset Global}
    (hx : Triple (At others live) x (fun ret => At others (if ret = 0 then live' else live))
      fun _ => False)
    (hy : ∀ ret, ret ≠ 0 → Triple (At others live) (y ret)
      (fun ret => At others (if ret = 0 then Finset.univ else ∅)) fun _ => False)
    (hz : Triple (At others live') z
      (fun ret => At others (if ret = 0 then Finset.univ else ∅)) fun _ => False) :
    Triple (At others live) (do
      let ret ← x
      if ret ≠ 0 then y ret else z)
      (fun ret => At others (if ret = 0 then Finset.univ else ∅)) fun _ => False := by
  apply Triple.bind hx
  intro ret
  apply Triple.ite
  · intro hret
    simp only [if_neg hret]
    exact hy ret hret
  · intro hret
    have hzero : ret = 0 := by simpa using hret
    simp only [hzero, if_true]
    exact hz

/-- Reporting a failure. -/
theorem fail_spec {ret : Int} (hret : ret ≠ 0) :
    Triple (At others ∅) (pure ret : KapiM Int)
      (fun ret => At others (if ret = 0 then Finset.univ else ∅)) fun _ => False := by
  apply Triple.pure
  intro s hs
  rw [if_neg hret]
  exact hs

/-- **All or nothing**: `kapi_init` ends with every global live, or with none. -/
theorem kapiInit_spec :
    Triple (At others ∅) (kapiInit A)
      (fun ret => At others (if ret = 0 then Finset.univ else ∅)) fun _ => False := by
  have hfreePages : Triple (At others (∅ ∪ pageGlobals)) freePageMemory (fun _ => At others ∅)
      fun _ => False := freePageMemory_spec
  have hfreeSlab : Triple (At others (∅ ∪ pageGlobals ∪ slabGlobals)) freeSlabMemory
      (fun _ => At others (∅ ∪ pageGlobals)) fun _ => False :=
    freePair_spec (by simp) (by simp) (fun _ => rfl) fun _ => rfl
  have hfreeCache : Triple (At others (∅ ∪ pageGlobals ∪ slabGlobals ∪ cacheGlobals))
      freeCustomSlabCache (fun _ => At others (∅ ∪ pageGlobals ∪ slabGlobals)) fun _ => False :=
    freeCustomSlabCache_spec
  apply init_then (allocatePageMemory_spec (by simp [Cached]) (by simp))
  · exact fun ret hret => fail_spec hret
  apply init_then (allocatePair_spec (by simp [Global.Single]) (by simp [Global.Single])
    (fun _ => rfl) (fun _ => rfl) (by simp)
    (by simp [Cached]) (by decide))
  · exact fun ret hret => Triple.bind hfreePages fun _ => fail_spec hret
  apply init_then (createCustomSlabCache_spec (by simp [Cached]) (by decide))
  · exact fun ret hret => Triple.bind hfreeSlab fun _ =>
      Triple.bind hfreePages fun _ => fail_spec hret
  apply init_then (allocatePair_spec (by simp [Global.Single]) (by simp [Global.Single])
    (fun _ => rfl) (fun _ => rfl) (by simp)
    ?_ (by decide))
  · exact fun ret hret => Triple.bind hfreeCache fun _ => Triple.bind hfreeSlab fun _ =>
      Triple.bind hfreePages fun _ => fail_spec hret
  · apply Triple.pure
    intro s hs
    have hall : ∅ ∪ pageGlobals ∪ slabGlobals ∪ cacheGlobals ∪ vmallocGlobals = Finset.univ := by
      decide
    rw [if_pos rfl, ← hall]
    exact hs
  · exact fun i _ => Finset.mem_union_right _ (mem_cacheGlobals.mpr (.inl rfl))

/-- `kapi_exit` frees whatever is live. -/
theorem kapiExit_spec {live : Finset Global} :
    Triple (At others live) kapiExit (fun _ => At others ∅) fun _ => False := by
  have hall : (((live \ vmallocGlobals) \ cacheGlobals) \ slabGlobals) \ pageGlobals = ∅ := by
    have huniv : ∀ g, g ∈ vmallocGlobals ∨ g ∈ cacheGlobals ∨ g ∈ slabGlobals ∨
        g ∈ pageGlobals := by
      decide
    apply Finset.eq_empty_of_forall_notMem
    intro g hg
    simp only [Finset.mem_sdiff] at hg
    have hg' := huniv g
    tauto
  rw [← hall]
  apply Triple.bind (freePair_spec (by simp) (by simp) (fun _ => rfl) fun _ => rfl)
  intro _
  apply Triple.bind freeCustomSlabCache_spec
  intro _
  apply Triple.bind (freePair_spec (by simp) (by simp) (fun _ => rfl) fun _ => rfl)
  intro _
  exact freePageMemory_spec

end Lifecycle

/-! ## The kernel -/

/-- The kernel with the module loaded or not, and what everybody else has allocated. -/
structure Kernel where
  module : Module
  loaded : Bool
  others : Multiset Block
  /-- a `BadUse` has happened -/
  corrupted : Bool

inductive KernelAct where
  | insmod (A : Allocator)
  | rmmod
  | othersAlloc (b : Block)
  | othersFree (b : Block)

/-- A module just read from its file: its globals are zero. -/
def Module.fresh (heap : Ledger Block.needs) : Module := ⟨fun _ => 0, 0, heap, 0⟩

/-- Run a function of the module. -/
def Kernel.run {α : Type} (k : Kernel) (m : Module) (x : KapiM α) (loaded : α → Bool) : Kernel :=
  match x m with
  | .ok a m' => { k with module := m', loaded := loaded a }
  | .error _ m' => { k with module := m', corrupted := true }

/-- A load that fails leaves the module unloaded. -/
def Kernel.step (k : Kernel) : KernelAct → Option Kernel
  | .insmod A =>
    if k.loaded then none
    else some (k.run (.fresh k.module.heap) (kapiInit A) fun ret => ret = 0)
  | .rmmod =>
    if k.loaded then some (k.run k.module kapiExit fun _ => false) else none
  | .othersAlloc b =>
    -- nobody else uses the module's cache
    if ∀ v ∈ b.needs, v ∈ k.others then
      (k.module.heap.acquire b).map fun heap =>
        { k with module := { k.module with heap := heap }, others := b ::ₘ k.others }
    else none
  | .othersFree b =>
    if b ∈ k.others then
      (k.module.heap.release b).map fun heap =>
        { k with module := { k.module with heap := heap }, others := k.others.erase b }
    else none

/-- Nothing is loaded, and nobody holds anything. -/
def Kernel.boot : Kernel := ⟨.fresh .empty, false, 0, false⟩

def kapiKernel : System Kernel KernelAct where
  init k := k = .boot
  step := Kernel.step

/-- The module holds all its blocks or none. -/
structure KernelInv (k : Kernel) : Prop where
  sound : k.corrupted = false
  holds : At k.others (if k.loaded then Finset.univ else ∅) k.module

section Runs

variable {k : Kernel} {m : Module} {live : Finset Global}

/-- What the others do is none of the module's business. -/
theorem At.others {others others' : Multiset Block} {heap : Ledger Block.needs}
    (h : At others live m) (hshare : heap.Splits others' m.owned) :
    At others' live { m with heap := heap } :=
  ⟨hshare, h.live⟩

/-- **One function of the module** keeps the invariant. -/
theorem KernelInv.run {α : Type} {x : KapiM α} {loaded : α → Bool} (h : KernelInv k)
    (hm : At k.others live m)
    (hx : Triple (At k.others live) x
      (fun a => At k.others (if loaded a then Finset.univ else ∅)) fun _ => False) :
    KernelInv (k.run m x loaded) := by
  obtain ⟨a, m', hrun, hpost⟩ := hx.returns hm
  unfold Kernel.run
  rw [hrun]
  exact ⟨h.sound, hpost⟩

theorem KernelInv.step {k' : Kernel} {a : KernelAct} (h : KernelInv k) (hs : k.step a = some k') :
    KernelInv k' := by
  cases a with
  | insmod A =>
    simp only [Kernel.step] at hs
    split at hs
    · cases hs
    · next hloaded =>
      cases hs
      have hnone : At k.others ∅ k.module := by simpa [hloaded] using h.holds
      -- a module that is loaded again starts with what others have left of the heap
      have hfresh : At k.others ∅ (.fresh k.module.heap) := by
        refine ⟨⟨?_, hnone.share.apart⟩, by simp [Module.fresh]⟩
        show k.module.heap.held = _
        rw [hnone.held]
        simp [Module.owned, Module.fresh]
      apply h.run hfresh
      simpa using kapiInit_spec
  | rmmod =>
    simp only [Kernel.step] at hs
    split at hs
    · cases hs
      exact h.run h.holds kapiExit_spec
    · cases hs
  | othersAlloc b =>
    simp only [Kernel.step] at hs
    split at hs
    · next hneeds =>
      obtain ⟨heap, hheap, rfl⟩ := Option.map_eq_some_iff.mp hs
      exact ⟨h.sound, h.holds.others (h.holds.share.acquire_others hneeds hheap)⟩
    · cases hs
  | othersFree b =>
    simp only [Kernel.step] at hs
    split at hs
    · next hb =>
      obtain ⟨heap, hheap, rfl⟩ := Option.map_eq_some_iff.mp hs
      exact ⟨h.sound, h.holds.others (h.holds.share.release_others hb hheap)⟩
    · cases hs

theorem KernelInv.of_reachable (h : kapiKernel.Reachable k) : KernelInv k := by
  refine System.Reach.invariant KernelInv ?_ (fun _ _ _ hk _ hs => hk.step hs) h
  rintro k rfl
  refine ⟨rfl, ⟨?_, by simp [Kernel.boot]⟩, by simp [Kernel.boot, Module.fresh]⟩
  simp [Kernel.boot, Module.fresh, Ledger.empty, Module.owned]

end Runs

/-- **The module never leaks nor frees twice.** However often it is loaded and unloaded, whichever
    allocations fail and whatever the others allocate and free meanwhile: no block is used or freed
    that is not in use; without the module exactly the blocks of the others are; with it, besides
    these, one block for each of its globals, and no global is `NULL`. -/
theorem kapi_never_leaks {k : Kernel} (h : kapiKernel.Reachable k) :
    k.corrupted = false ∧
      (k.loaded = false → k.module.heap.held = k.others) ∧
      (k.loaded = true → (∀ g, k.module.global g ≠ 0) ∧
        k.module.heap.held = k.others + ∑ g : Global, {k.module.block g}) := by
  have hinv := KernelInv.of_reachable h
  refine ⟨hinv.sound, ?_, ?_⟩
  · intro hloaded
    have hholds := hinv.holds
    rw [if_neg (by simp [hloaded])] at hholds
    exact hholds.held
  · intro hloaded
    have hholds := hinv.holds
    rw [if_pos hloaded] at hholds
    have hlive (g : Global) : k.module.global g ≠ 0 := (hholds.live g).mpr (Finset.mem_univ g)
    refine ⟨hlive, ?_⟩
    rw [hholds.share.held, Module.owned]
    simp [hlive]

/-- A load in which the third allocation fails, and then one in which none does. -/
theorem kapi_never_leaks_reloaded :
    ∃ k, kapiKernel.exec .boot
        [.insmod ⟨fun n => if n = 2 then 0 else n + 1, id, 11⟩, .othersAlloc ⟨.kmalloc, 100⟩,
          .insmod ⟨fun n => n + 1, id, 11⟩] = some k ∧
      k.corrupted = false ∧ k.loaded = true ∧
      k.module.heap.held = k.others + ∑ g : Global, {k.module.block g} := by
  have hloads : (kapiKernel.exec .boot
      [.insmod ⟨fun n => if n = 2 then 0 else n + 1, id, 11⟩, .othersAlloc ⟨.kmalloc, 100⟩,
        .insmod ⟨fun n => n + 1, id, 11⟩]).map (fun k => k.loaded) = some true := by
    decide +kernel
  obtain ⟨k, hrun, hloaded⟩ := Option.map_eq_some_iff.mp hloads
  have hinv := kapi_never_leaks (System.reachable_of_exec rfl hrun)
  exact ⟨k, hrun, hinv.1, hloaded, (hinv.2.2 hloaded).2⟩

end LinuxMaxxing.Kapi
