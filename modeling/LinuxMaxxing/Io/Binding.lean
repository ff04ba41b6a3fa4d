import LinuxMaxxing.Lib.Hoare
import LinuxMaxxing.Lib.Ledger
import LinuxMaxxing.Lib.Transition

/-!
# Binding and Unbinding the qedu Driver

`qedu_probe` takes what the driver needs of a PCI function layer by layer, and each error label
gives back the layers before the failure; `qedu_remove` gives back all of them. Any call into the
kernel may fail.

- `Resource.needs`: what the users of a resource touch. The interrupt handler reads a register
  of BAR0, the works of the queue touch BAR0 and the buffer, and the file operations use these
  and the workqueue and wait for interrupts;
- `QeduDev` here has the pointers of `struct qedu_dev` only, as `NULL` or not;
- the line is shared: between any two statements the handler may be entered, as long as its
  action is registered (`handler`). Following a pointer to something that is no longer held is
  a `BadUse`, as is giving something back that is not held or still needed;
- any number of functions may be bound at one time.

The values of the trace events and of the messages are left out.
-/

namespace LinuxMaxxing.Io.Binding

open LinuxMaxxing.Lib

/-! ## Resources -/

/-- What a bound function holds. -/
inductive Resource where
  /-- the `qedu_dev`, as driver data of its function -/
  | drvdata
  /-- `pci_enable_device` -/
  | enabled
  /-- `pci_request_regions` -/
  | regions
  /-- `pci_iomap` -/
  | bar0
  /-- `request_irq` -/
  | irqAction
  /-- `pci_set_master` -/
  | busMaster
  /-- `dma_alloc_coherent` -/
  | coherent
  /-- `alloc_ordered_workqueue` -/
  | workqueue
  /-- `misc_register` -/
  | miscdev
  /-- `debugfs_create_dir` -/
  | debugfsDir
  deriving DecidableEq, Repr

instance : Fintype Resource where
  elems := {.drvdata, .enabled, .regions, .bar0, .irqAction, .busMaster, .coherent, .workqueue,
    .miscdev, .debugfsDir}
  complete r := by cases r <;> decide

def Resource.needs : Resource → List Resource
  | .drvdata | .enabled => []
  | .regions | .busMaster | .coherent => [.enabled]
  | .bar0 => [.regions]
  | .irqAction => [.bar0, .drvdata]
  | .debugfsDir => [.drvdata]
  | .workqueue => [.drvdata, .bar0, .coherent]
  | .miscdev => [.drvdata, .bar0, .irqAction, .coherent, .workqueue]

/-- A resource of one PCI function. -/
structure Token where
  function : Nat
  resource : Resource
  deriving DecidableEq, Repr

def Token.needs (t : Token) : List Token := t.resource.needs.map (Token.mk t.function)

/-! ## State -/

/-- The pointers of `struct qedu_dev`; `false` is `NULL`. -/
structure QeduDev where
  bar0 : Bool
  dmaCpuAddr : Bool
  dmaWq : Bool
  debugfsDir : Bool
  deriving DecidableEq, Repr

/-- A `qedu_dev` as `devm_kzalloc` returns it. -/
def QeduDev.zero : QeduDev := ⟨false, false, false, false⟩

/-- What the driver's functions see for the one function they work on. -/
structure PciState where
  ledger : Ledger Token.needs
  qdev : QeduDev
  /-- calls that can fail, so far -/
  calls : Nat

/-- What the kernel and the device answer: 0, or an error. -/
structure Env where
  ret : Nat → Int
  selftest : Bool

inductive BadUse where
  | acquired (t : Token)
  | released (t : Token)
  | touched (t : Token)
  | interrupted (function : Nat)
  deriving Repr

abbrev BindM := EStateM BadUse PciState

def ENOMEM : Int := 12

/-! ## Statements -/

/-- What `qedu_irq_handler` and `qedu_dma_irq_complete` follow is held. -/
def handlerSafe (f : Nat) (s : PciState) : Prop :=
  ⟨f, .bar0⟩ ∈ s.ledger.held ∧ s.qdev.bar0 = true ∧
    (s.qdev.dmaWq = true → ⟨f, .workqueue⟩ ∈ s.ledger.held)

instance (f : Nat) (s : PciState) : Decidable (handlerSafe f s) :=
  inferInstanceAs (Decidable (_ ∧ _))

/-- The shared line is raised: the handler runs if its action is registered. -/
def handler (f : Nat) : BindM Unit := do
  let s ← get
  if ⟨f, .irqAction⟩ ∈ s.ledger.held ∧ ¬ handlerSafe f s then throw (.interrupted f)
  else return ()

/-- A call that can fail. -/
def call (E : Env) : BindM Int := do
  let s ← get
  modify fun s => { s with calls := s.calls + 1 }
  return E.ret s.calls

/-- A call that cannot fail takes `r`. -/
def take (f : Nat) (r : Resource) : BindM Unit := do
  let s ← get
  match s.ledger.acquire ⟨f, r⟩ with
  | some ledger =>
    modify fun s => { s with ledger := ledger }
    handler f
  | none => throw (.acquired ⟨f, r⟩)

/-- A call that takes `r`, or fails. -/
def acquire (E : Env) (f : Nat) (r : Resource) : BindM Int := do
  let ret ← call E
  if ret ≠ 0 then return ret
  else
    take f r
    return 0

def release (f : Nat) (r : Resource) : BindM Unit := do
  let s ← get
  match s.ledger.release ⟨f, r⟩ with
  | some ledger =>
    modify fun s => { s with ledger := ledger }
    handler f
  | none => throw (.released ⟨f, r⟩)

/-- An assignment to a pointer of the `qedu_dev`. -/
def assign (f : Nat) (g : QeduDev → QeduDev) : BindM Unit := do
  modify fun s => { s with qdev := g s.qdev }
  handler f

/-- An access to a register or to the buffer. -/
def touch (f : Nat) (r : Resource) : BindM Unit := do
  let s ← get
  if ⟨f, r⟩ ∈ s.ledger.held then handler f else throw (.touched ⟨f, r⟩)

/-! ## PCI -/

def qeduPciInit (E : Env) (f : Nat) : BindM Int := do
  let ret ← acquire E f .enabled
  if ret ≠ 0 then return ret
  else
    let ret ← acquire E f .regions
    if ret ≠ 0 then
      release f .enabled
      return ret
    else
      let ret ← acquire E f .bar0
      if ret ≠ 0 then
        -- `pci_iomap` returned `NULL`
        assign f fun q => { q with bar0 := false }
        release f .regions
        release f .enabled
        return -ENOMEM
      else
        assign f fun q => { q with bar0 := true }
        return 0

def qeduPciExit (f : Nat) : BindM Unit := do
  release f .bar0
  assign f fun q => { q with bar0 := false }
  release f .regions
  release f .enabled

/-! ## Interrupts -/

def qeduIrqInit (E : Env) (f : Nat) : BindM Int := acquire E f .irqAction

def qeduIrqExit (f : Nat) : BindM Unit := release f .irqAction

/-! ## DMA -/

def qeduDmaInit (E : Env) (f : Nat) : BindM Int := do
  -- `dma_set_mask_and_coherent`
  let ret ← call E
  if ret ≠ 0 then return ret
  else
    take f .busMaster
    let ret ← acquire E f .coherent
    if ret ≠ 0 then
      assign f fun q => { q with dmaCpuAddr := false }
      release f .busMaster
      return -ENOMEM
    else
      assign f fun q => { q with dmaCpuAddr := true }
      let ret ← acquire E f .workqueue
      if ret ≠ 0 then
        assign f fun q => { q with dmaWq := false }
        release f .coherent
        assign f fun q => { q with dmaCpuAddr := false }
        release f .busMaster
        return -ENOMEM
      else
        assign f fun q => { q with dmaWq := true }
        return 0

/-- The branch of `qedu_dma_exit` for the workqueue. -/
def destroyWorkqueue (f : Nat) : BindM Unit := do
  let s ← get
  if s.qdev.dmaWq then
    release f .workqueue
    assign f fun q => { q with dmaWq := false }
  else return ()

/-- The branch of `qedu_dma_exit` for the buffer. -/
def freeCoherent (f : Nat) : BindM Unit := do
  let s ← get
  if s.qdev.dmaCpuAddr then
    release f .coherent
    assign f fun q => { q with dmaCpuAddr := false }
  else return ()

def qeduDmaExit (f : Nat) : BindM Unit := do
  destroyWorkqueue f
  freeCoherent f
  release f .busMaster

/-! ## The self-test -/

/-- `qedu_test_registers`, which polls the factorial engine until it is done or time is up. -/
def qeduTestRegisters (E : Env) (f : Nat) : BindM Int := do
  touch f .bar0
  call E

/-- Fill the buffer, start a transfer and poll it. -/
def qeduDmaSmokeTest (E : Env) (f : Nat) : BindM Int := do
  touch f .coherent
  touch f .bar0
  call E

def qeduSelftest (E : Env) (f : Nat) : BindM Int := do
  let ret ← qeduTestRegisters E f
  if ret ≠ 0 then return ret
  else
    -- `qedu_raise_test_irq`
    touch f .bar0
    qeduDmaSmokeTest E f

/-! ## The character device and debugfs -/

def qeduChrdevInit (E : Env) (f : Nat) : BindM Int := acquire E f .miscdev

def qeduChrdevExit (f : Nat) : BindM Unit := release f .miscdev

/-- The driver does without debugfs when it cannot have it. -/
def qeduDebugfsInit (E : Env) (f : Nat) : BindM Unit := do
  let ret ← acquire E f .debugfsDir
  if ret ≠ 0 then assign f fun q => { q with debugfsDir := false }
  else
    assign f fun q => { q with debugfsDir := true }
    -- `debugfs_create_file`
    let ret ← call E
    if ret ≠ 0 then
      release f .debugfsDir
      assign f fun q => { q with debugfsDir := false }
    else return ()

/-- `debugfs_remove_recursive` ignores `NULL`. -/
def qeduDebugfsExit (f : Nat) : BindM Unit := do
  let s ← get
  if s.qdev.debugfsDir then
    release f .debugfsDir
    assign f fun q => { q with debugfsDir := false }
  else assign f fun q => { q with debugfsDir := false }

/-! ## Probe and remove -/

/-- A failed `devm_kzalloc` leaves the function without driver data. -/
def qeduAllocDevice (E : Env) (f : Nat) : BindM Int := do
  let ret ← acquire E f .drvdata
  if ret ≠ 0 then return -ENOMEM
  else
    assign f fun _ => .zero
    return 0

def qeduClearDeviceData (f : Nat) : BindM Unit := release f .drvdata

/-- `err_free` -/
def errFree (f : Nat) (ret : Int) : BindM Int := do
  qeduClearDeviceData f
  return ret

/-- `err_pci` -/
def errPci (f : Nat) (ret : Int) : BindM Int := do
  qeduPciExit f
  errFree f ret

/-- `err_irq` -/
def errIrq (f : Nat) (ret : Int) : BindM Int := do
  qeduIrqExit f
  errPci f ret

/-- `err_irq_dma` -/
def errIrqDma (f : Nat) (ret : Int) : BindM Int := do
  qeduIrqExit f
  qeduDmaExit f
  errPci f ret

/-- `qedu_probe` from `qedu_chrdev_init` on. -/
def probeChrdev (E : Env) (f : Nat) : BindM Int := do
  let ret ← qeduChrdevInit E f
  if ret ≠ 0 then errIrqDma f ret
  else
    qeduDebugfsInit E f
    return 0

def qeduProbe (E : Env) (f : Nat) : BindM Int := do
  let ret ← qeduAllocDevice E f
  if ret ≠ 0 then return ret
  else
    let ret ← qeduPciInit E f
    if ret ≠ 0 then errFree f ret
    else
      let ret ← qeduIrqInit E f
      if ret ≠ 0 then errPci f ret
      else
        let ret ← qeduDmaInit E f
        if ret ≠ 0 then errIrq f ret
        else if E.selftest then
          let ret ← qeduSelftest E f
          if ret ≠ 0 then errIrqDma f ret else probeChrdev E f
        else probeChrdev E f

def qeduRemove (f : Nat) : BindM Unit := do
  qeduDebugfsExit f
  qeduChrdevExit f
  qeduIrqExit f
  qeduDmaExit f
  qeduPciExit f
  qeduClearDeviceData f

/-! ## What a function holds -/

/-- Resources of one function, and the pointers of its `qedu_dev`. -/
@[ext]
structure Share where
  own : Finset Resource
  qdev : QeduDev

instance : DecidableEq Share := fun _ _ => decidable_of_iff _ Share.ext_iff.symm

def tokens (f : Nat) (own : Finset Resource) : Multiset Token := own.val.map (Token.mk f)

theorem mem_tokens {f : Nat} {own : Finset Resource} {t : Token} :
    t ∈ tokens f own ↔ t.function = f ∧ t.resource ∈ own := by
  obtain ⟨g, r⟩ := t
  simp only [tokens, Multiset.mem_map, Token.mk.injEq]
  constructor
  · rintro ⟨r', hr', rfl, rfl⟩
    exact ⟨rfl, hr'⟩
  · rintro ⟨rfl, hr⟩
    exact ⟨r, hr, rfl, rfl⟩

/-- What is registered with the shared line finds everything it follows. -/
def Share.Quiet (h : Share) : Prop :=
  .irqAction ∈ h.own → .bar0 ∈ h.own ∧ h.qdev.bar0 = true ∧
    (h.qdev.dmaWq = true → .workqueue ∈ h.own)

instance (h : Share) : Decidable h.Quiet := inferInstanceAs (Decidable (_ → _))

/-- The function `f` has the share `h`, and the others hold `others`. -/
structure At (f : Nat) (others : Multiset Token) (h : Share) (s : PciState) : Prop where
  splits : s.ledger.Splits others (tokens f h.own)
  foreign : ∀ t ∈ others, t.function ≠ f
  qdev : s.qdev = h.qdev

/-! ## One statement -/

section Statements

variable {f : Nat} {others : Multiset Token} {h k : Share} {E : Env} {r : Resource}

theorem At.mem_held_iff {s : PciState} (hs : At f others h s) :
    ⟨f, r⟩ ∈ s.ledger.held ↔ r ∈ h.own := by
  rw [hs.splits.held, Multiset.mem_add, mem_tokens]
  constructor
  · rintro (hother | hown)
    · exact absurd rfl (hs.foreign _ hother)
    · exact hown.2
  · exact fun hr => .inr ⟨rfl, hr⟩

/-- **An interrupt** at any moment is harmless. -/
theorem handler_spec (hq : h.Quiet) :
    Triple (At f others h) (handler f) (fun _ => At f others h) fun _ => False := by
  intro s hs
  have hsafe : ¬ (⟨f, .irqAction⟩ ∈ s.ledger.held ∧ ¬ handlerSafe f s) := by
    rintro ⟨hirq, hunsafe⟩
    apply hunsafe
    unfold handlerSafe
    rw [hs.mem_held_iff, hs.mem_held_iff, hs.qdev]
    exact hq (hs.mem_held_iff.mp hirq)
  have hrun : handler f s = .ok () s := by
    simp only [handler, run_bind, run_get, if_neg hsafe, run_pure]
  rw [hrun]
  exact hs

theorem call_spec :
    Triple (At f others h) (call E) (fun _ => At f others h) fun _ => False := by
  intro s hs
  exact ⟨hs.splits, hs.foreign, hs.qdev⟩

theorem take_spec (hr : r ∉ h.own) (hneeds : ∀ v ∈ r.needs, v ∈ h.own)
    (hh : k = ⟨insert r h.own, h.qdev⟩) (hq : k.Quiet) :
    Triple (At f others h) (take f r) (fun _ => At f others k) fun _ => False := by
  subst hh
  intro s hs
  have hfree : ⟨f, r⟩ ∉ s.ledger.held := fun hmem => hr (hs.mem_held_iff.mp hmem)
  have hheld : ∀ t ∈ Token.needs ⟨f, r⟩, t ∈ tokens f h.own := by
    intro t ht
    obtain ⟨v, hv, rfl⟩ := List.mem_map.mp ht
    exact mem_tokens.mpr ⟨rfl, hneeds v hv⟩
  obtain ⟨ledger, hledger, hsplits⟩ := hs.splits.acquire hfree hheld
  have hrun : take f r s = handler f { s with ledger := ledger } := by
    simp only [take, run_bind, run_get, hledger, run_modify]
  rw [hrun]
  apply handler_spec hq
  refine ⟨?_, hs.foreign, hs.qdev⟩
  have htokens : tokens f (insert r h.own) = ⟨f, r⟩ ::ₘ tokens f h.own := by
    simp [tokens, Finset.insert_val_of_notMem hr]
  rw [htokens]
  exact hsplits

theorem release_spec (hr : r ∈ h.own) (hneeded : ∀ v ∈ h.own, r ∉ v.needs)
    (hh : k = ⟨h.own.erase r, h.qdev⟩) (hq : k.Quiet) :
    Triple (At f others h) (release f r) (fun _ => At f others k) fun _ => False := by
  subst hh
  intro s hs
  have hunneeded : ∀ t ∈ tokens f h.own, ⟨f, r⟩ ∉ t.needs := by
    intro t ht hmem
    obtain ⟨v, hv, heq⟩ := List.mem_map.mp hmem
    obtain rfl : v = r := congrArg Token.resource heq
    exact hneeded _ (mem_tokens.mp ht).2 hv
  have hmem : ⟨f, r⟩ ∈ tokens f h.own := mem_tokens.mpr ⟨rfl, hr⟩
  obtain ⟨ledger, hledger, hsplits⟩ := hs.splits.release hmem hunneeded
  have hrun : release f r s = handler f { s with ledger := ledger } := by
    simp only [release, run_bind, run_get, hledger, run_modify]
  rw [hrun]
  apply handler_spec hq
  refine ⟨?_, hs.foreign, hs.qdev⟩
  have htokens : tokens f (h.own.erase r) = (tokens f h.own).erase ⟨f, r⟩ := by
    have hinj : Function.Injective (Token.mk f) := fun _ _ heq => congrArg Token.resource heq
    rw [tokens, tokens, Finset.erase_val, Multiset.map_erase _ hinj]
  rw [htokens]
  exact hsplits

theorem assign_spec {g : QeduDev → QeduDev} (hh : k = ⟨h.own, g h.qdev⟩) (hq : k.Quiet) :
    Triple (At f others h) (assign f g) (fun _ => At f others k) fun _ => False := by
  subst hh
  have hset : Triple (At f others h)
      (modify fun s => { s with qdev := g s.qdev } : BindM PUnit)
      (fun _ => At f others ⟨h.own, g h.qdev⟩) fun _ => False :=
    Triple.modify fun s hs => ⟨hs.splits, hs.foreign, congrArg g hs.qdev⟩
  exact Triple.bind hset fun _ => handler_spec hq

theorem touch_spec (hr : r ∈ h.own) (hq : h.Quiet) :
    Triple (At f others h) (touch f r) (fun _ => At f others h) fun _ => False := by
  intro s hs
  have hmem : ⟨f, r⟩ ∈ s.ledger.held := hs.mem_held_iff.mpr hr
  have hrun : touch f r s = handler f s := by
    simp only [touch, run_bind, run_get, if_pos hmem]
  rw [hrun]
  exact handler_spec hq s hs

/-- A call that may fail, and the test of its result. -/
theorem call_then {α : Type} {x : BindM α} {y : Int → BindM α} {Q : α → PciState → Prop}
    (hyes : Triple (At f others h) x Q fun _ => False)
    (hno : ∀ ret, ret ≠ 0 → Triple (At f others h) (y ret) Q fun _ => False) :
    Triple (At f others h) (do
      let ret ← call E
      if ret ≠ 0 then y ret else x) Q fun _ => False :=
  Triple.bind call_spec fun ret => Triple.ite (hno ret) fun _ => hyes

theorem acquire_spec (hr : r ∉ h.own) (hneeds : ∀ v ∈ r.needs, v ∈ h.own)
    (hh : k = ⟨insert r h.own, h.qdev⟩) (hq : k.Quiet) :
    Triple (At f others h) (acquire E f r) (fun ret => At f others (if ret = 0 then k else h))
      fun _ => False := by
  apply call_then
  · apply Triple.bind (take_spec hr hneeds hh hq)
    intro _
    exact Triple.pure fun _ hs => hs
  · intro ret hret
    simp only [Triple, run_pure, if_neg hret]
    exact fun _ hs => hs

/-- `ret = …; if (ret) goto …` -/
theorem init_then {α : Type} {i : BindM Int} {x : BindM α} {y : Int → BindM α}
    {Q : α → PciState → Prop}
    (hi : Triple (At f others h) i (fun ret => At f others (if ret = 0 then k else h))
      fun _ => False)
    (hyes : Triple (At f others k) x Q fun _ => False)
    (hno : ∀ ret, ret ≠ 0 → Triple (At f others h) (y ret) Q fun _ => False) :
    Triple (At f others h) (do
      let ret ← i
      if ret ≠ 0 then y ret else x) Q fun _ => False := by
  apply Triple.bind hi
  intro ret
  by_cases hret : ret = 0
  · rw [if_neg (not_not.mpr hret), if_pos hret]
    exact hyes
  · rw [if_pos hret, if_neg hret]
    exact hno ret hret

/-- A branch on a pointer of the `qedu_dev`. -/
theorem pointer_then {α : Type} {p : QeduDev → Bool} {x y : BindM α} {Q : α → PciState → Prop}
    (hx : p h.qdev = true → Triple (At f others h) x Q fun _ => False)
    (hy : p h.qdev = false → Triple (At f others h) y Q fun _ => False) :
    Triple (At f others h) (do
      let s ← get
      if p s.qdev then x else y) Q fun _ => False := by
  apply Triple.get_bind
  intro m hm
  rw [hm.qdev]
  cases hp : p h.qdev with
  | true => exact (hx hp).pre fun s hs => hs ▸ hm
  | false => exact (hy hp).pre fun s hs => hs ▸ hm

/-- Returning a known value. -/
theorem return_spec {ret : Int} {Q : Int → PciState → Prop}
    (hQ : ∀ s, At f others h s → Q ret s) :
    Triple (At f others h) (pure ret : BindM Int) Q fun _ => False :=
  Triple.pure hQ

end Statements

/-! ## One layer -/

/-- `qedu_alloc_device` has succeeded. -/
def allocated : Share := ⟨{.drvdata}, .zero⟩

/-- … and `qedu_pci_init` … -/
def mapped : Share := ⟨{.drvdata, .enabled, .regions, .bar0}, { QeduDev.zero with bar0 := true }⟩

/-- … and `qedu_irq_init` … -/
def wired : Share := ⟨insert .irqAction mapped.own, mapped.qdev⟩

/-- … and `qedu_dma_init` … -/
def dmaReady : Share :=
  ⟨{.busMaster, .coherent, .workqueue} ∪ wired.own, ⟨true, true, true, false⟩⟩

/-- … and the rest of `qedu_probe`, with debugfs or without it. -/
def bound (debugfs : Bool) : Share :=
  ⟨if debugfs then Finset.univ else Finset.univ.erase .debugfsDir, ⟨true, true, true, debugfs⟩⟩

section Layers

variable {f : Nat} {others : Multiset Token} {E : Env}

theorem qeduPciInit_spec :
    Triple (At f others allocated) (qeduPciInit E f)
      (fun ret => At f others (if ret = 0 then mapped else allocated)) fun _ => False := by
  apply init_then (acquire_spec (by decide) (by decide) rfl (by decide))
  · apply init_then (acquire_spec (by decide) (by decide) rfl (by decide))
    · apply init_then (acquire_spec (by decide) (by decide) rfl (by decide))
      · apply Triple.bind (assign_spec (k := mapped) (by decide) (by decide))
        intro _
        exact return_spec fun _ hs => hs
      · intro ret hret
        apply Triple.bind (assign_spec rfl (by decide))
        intro _
        apply Triple.bind (release_spec (by decide) (by decide) rfl (by decide))
        intro _
        apply Triple.bind (release_spec (k := allocated) (by decide) (by decide) (by decide)
          (by decide))
        intro _
        exact return_spec fun _ hs => hs
    · intro ret hret
      apply Triple.bind (release_spec (k := allocated) (by decide) (by decide) (by decide)
        (by decide))
      intro _
      apply return_spec
      rw [if_neg hret]
      exact fun _ hs => hs
  · intro ret hret
    apply return_spec
    rw [if_neg hret]
    exact fun _ hs => hs

theorem qeduPciExit_spec :
    Triple (At f others mapped) (qeduPciExit f) (fun _ => At f others allocated)
      fun _ => False := by
  apply Triple.bind (release_spec (by decide) (by decide) rfl (by decide))
  intro _
  apply Triple.bind (assign_spec rfl (by decide))
  intro _
  apply Triple.bind (release_spec (by decide) (by decide) rfl (by decide))
  intro _
  exact release_spec (by decide) (by decide) (by decide) (by decide)

theorem qeduIrqInit_spec :
    Triple (At f others mapped) (qeduIrqInit E f)
      (fun ret => At f others (if ret = 0 then wired else mapped)) fun _ => False :=
  acquire_spec (by decide) (by decide) (by decide) (by decide)

/-- From here on an interrupt may come in between any two statements. -/
theorem qeduDmaInit_spec :
    Triple (At f others wired) (qeduDmaInit E f)
      (fun ret => At f others (if ret = 0 then dmaReady else wired)) fun _ => False := by
  apply call_then
  · apply Triple.bind (take_spec (by decide) (by decide) rfl (by decide))
    intro _
    apply init_then (acquire_spec (by decide) (by decide) rfl (by decide))
    · apply Triple.bind (assign_spec rfl (by decide))
      intro _
      apply init_then (acquire_spec (by decide) (by decide) rfl (by decide))
      · apply Triple.bind (assign_spec (k := dmaReady) (by decide) (by decide))
        intro _
        exact return_spec fun _ hs => hs
      · intro ret hret
        apply Triple.bind (assign_spec rfl (by decide))
        intro _
        apply Triple.bind (release_spec (by decide) (by decide) rfl (by decide))
        intro _
        apply Triple.bind (assign_spec rfl (by decide))
        intro _
        apply Triple.bind (release_spec (k := wired) (by decide) (by decide) (by decide)
          (by decide))
        intro _
        exact return_spec fun _ hs => hs
    · intro ret hret
      apply Triple.bind (assign_spec rfl (by decide))
      intro _
      apply Triple.bind (release_spec (k := wired) (by decide) (by decide) (by decide)
        (by decide))
      intro _
      exact return_spec fun _ hs => hs
  · intro ret hret
    apply return_spec
    rw [if_neg hret]
    exact fun _ hs => hs

/-- `qedu_irq_exit` comes first in every teardown: the rest runs without interrupts. -/
def unwired : Share := ⟨dmaReady.own.erase .irqAction, dmaReady.qdev⟩

theorem qeduIrqExit_spec :
    Triple (At f others dmaReady) (qeduIrqExit f) (fun _ => At f others unwired)
      fun _ => False :=
  release_spec (by decide) (by decide) (by decide) (by decide)

theorem qeduDmaExit_spec :
    Triple (At f others unwired) (qeduDmaExit f) (fun _ => At f others mapped)
      fun _ => False := by
  apply Triple.bind (Q := fun _ => At f others
    ⟨unwired.own.erase .workqueue, { unwired.qdev with dmaWq := false }⟩)
  · apply pointer_then
    · intro _
      apply Triple.bind (release_spec (by decide) (by decide) rfl (by decide))
      intro _
      exact assign_spec (by decide) (by decide)
    · intro hnull
      cases hnull
  intro _
  apply Triple.bind (Q := fun _ => At f others ⟨insert .busMaster mapped.own, mapped.qdev⟩)
  · apply pointer_then
    · intro _
      apply Triple.bind (release_spec (by decide) (by decide) rfl (by decide))
      intro _
      exact assign_spec (by decide) (by decide)
    · intro hnull
      cases hnull
  intro _
  exact release_spec (by decide) (by decide) (by decide) (by decide)

theorem qeduSelftest_spec :
    Triple (At f others dmaReady) (qeduSelftest E f) (fun _ => At f others dmaReady)
      fun _ => False := by
  have htouch {r : Resource} (hr : r ∈ dmaReady.own) :
      Triple (At f others dmaReady) (touch f r) (fun _ => At f others dmaReady) fun _ => False :=
    touch_spec hr (by decide)
  apply Triple.bind (Triple.bind (htouch (by decide)) fun _ => call_spec)
  intro ret
  apply Triple.ite
  · exact fun _ => Triple.pure fun _ hs => hs
  · intro _
    apply Triple.bind (htouch (by decide))
    intro _
    apply Triple.bind (htouch (by decide))
    intro _
    apply Triple.bind (htouch (by decide))
    intro _
    exact call_spec

/-! ## Error labels -/

/-- What is left after a probe that has failed. -/
def Unbound (f : Nat) (others : Multiset Token) (s : PciState) : Prop :=
  ∃ q, At f others ⟨∅, q⟩ s

/-- The result of `qedu_probe`: everything, or nothing. -/
def ProbeEnds (f : Nat) (others : Multiset Token) (ret : Int) (s : PciState) : Prop :=
  if ret = 0 then ∃ debugfs, At f others (bound debugfs) s else Unbound f others s

variable {ret : Int}

theorem errFree_spec (hret : ret ≠ 0) :
    Triple (At f others allocated) (errFree f ret) (ProbeEnds f others) fun _ => False := by
  apply Triple.bind (release_spec (by decide) (by decide) rfl (by decide))
  intro _
  apply return_spec
  intro s hs
  rw [ProbeEnds, if_neg hret]
  exact ⟨_, hs⟩

theorem errPci_spec (hret : ret ≠ 0) :
    Triple (At f others mapped) (errPci f ret) (ProbeEnds f others) fun _ => False :=
  Triple.bind qeduPciExit_spec fun _ => errFree_spec hret

theorem errIrq_spec (hret : ret ≠ 0) :
    Triple (At f others wired) (errIrq f ret) (ProbeEnds f others) fun _ => False := by
  apply Triple.bind (release_spec (k := mapped) (by decide) (by decide) (by decide) (by decide))
  intro _
  exact errPci_spec hret

theorem errIrqDma_spec (hret : ret ≠ 0) :
    Triple (At f others dmaReady) (errIrqDma f ret) (ProbeEnds f others) fun _ => False := by
  apply Triple.bind qeduIrqExit_spec
  intro _
  apply Triple.bind qeduDmaExit_spec
  intro _
  exact errPci_spec hret

/-! ## Probe and remove -/

/-- Without debugfs the driver is bound all the same. -/
theorem qeduDebugfsInit_spec :
    Triple (At f others (bound false)) (qeduDebugfsInit E f)
      (fun _ s => ∃ debugfs, At f others (bound debugfs) s) fun _ => False := by
  apply init_then (acquire_spec (by decide) (by decide) rfl (by decide))
  · apply Triple.bind (assign_spec (k := bound true) (by decide) (by decide))
    intro _
    apply call_then
    · exact Triple.pure fun _ hs => ⟨true, hs⟩
    · intro ret hret
      apply Triple.bind (release_spec (by decide) (by decide) rfl (by decide))
      intro _
      apply Triple.post (assign_spec (k := bound false) (by decide) (by decide))
      exact fun _ _ hs => ⟨false, hs⟩
  · intro ret hret
    apply Triple.post (assign_spec (k := bound false) (by decide) (by decide))
    exact fun _ _ hs => ⟨false, hs⟩

theorem probeChrdev_spec :
    Triple (At f others dmaReady) (probeChrdev E f) (ProbeEnds f others) fun _ => False := by
  apply init_then (k := bound false)
    (acquire_spec (by decide) (by decide) (by decide) (by decide))
  · apply Triple.bind qeduDebugfsInit_spec
    intro _
    exact Triple.pure fun _ hs => hs
  · exact fun ret hret => errIrqDma_spec hret

/-- **Probing binds the function or leaves nothing behind.** -/
theorem qeduProbe_spec {q : QeduDev} :
    Triple (At f others ⟨∅, q⟩) (qeduProbe E f) (ProbeEnds f others) fun _ => False := by
  have hnothing : (⟨∅, q⟩ : Share).Quiet := fun hirq => absurd hirq (Finset.notMem_empty _)
  have halloc : Triple (At f others ⟨∅, q⟩) (qeduAllocDevice E f)
      (fun ret => At f others (if ret = 0 then allocated else ⟨∅, q⟩)) fun _ => False := by
    apply init_then (acquire_spec (by simp) (by simp [Resource.needs]) rfl (by simp [Share.Quiet]))
    · apply Triple.bind (assign_spec (k := allocated) rfl (by decide))
      intro _
      exact return_spec fun _ hs => hs
    · exact fun ret hret => return_spec fun _ hs => hs
  -- the initialisers in their order, and the label that each failure jumps to
  apply init_then halloc
  · apply init_then qeduPciInit_spec
    · apply init_then qeduIrqInit_spec
      · apply init_then qeduDmaInit_spec
        · apply Triple.ite
          · intro _
            apply Triple.bind qeduSelftest_spec
            intro ret
            exact Triple.ite errIrqDma_spec fun _ => probeChrdev_spec
          · exact fun _ => probeChrdev_spec
        · exact fun ret hret => errIrq_spec hret
      · exact fun ret hret => errPci_spec hret
    · exact fun ret hret => errFree_spec hret
  · intro ret hret
    apply return_spec
    intro s hs
    rw [ProbeEnds, if_neg hret]
    exact ⟨q, hs⟩

/-- **Removing gives everything back.** -/
theorem qeduRemove_spec {debugfs : Bool} :
    Triple (At f others (bound debugfs)) (qeduRemove f) (fun _ => Unbound f others)
      fun _ => False := by
  have hdebugfs : Triple (At f others (bound debugfs)) (qeduDebugfsExit f)
      (fun _ => At f others (bound false)) fun _ => False := by
    apply pointer_then
    · rintro rfl
      apply Triple.bind (release_spec (by decide) (by decide) rfl (by decide))
      intro _
      exact assign_spec (by decide) (by decide)
    · rintro rfl
      exact assign_spec (by decide) (by decide)
  apply Triple.bind hdebugfs
  intro _
  apply Triple.bind (release_spec (k := dmaReady) (by decide) (by decide) (by decide) (by decide))
  intro _
  apply Triple.bind qeduIrqExit_spec
  intro _
  apply Triple.bind qeduDmaExit_spec
  intro _
  apply Triple.bind qeduPciExit_spec
  intro _
  apply Triple.post (release_spec (by decide) (by decide) rfl (by decide))
  exact fun _ _ hs => ⟨_, hs⟩

end Layers

/-! ## The bus -/

/-- The PCI functions that match `qedu_ids`. -/
structure Bus where
  ledger : Ledger Token.needs
  qdev : Nat → QeduDev
  /-- the functions the driver is bound to -/
  functions : Finset Nat
  /-- a `BadUse` has happened -/
  corrupted : Bool

inductive BusAct where
  | probe (E : Env) (f : Nat)
  | remove (f : Nat)
  /-- the shared line is raised -/
  | interrupt (f : Nat)

/-- Run a function of the driver on `f`, after which it is bound or not. -/
def Bus.run {α : Type} (bus : Bus) (f : Nat) (x : BindM α) (binds : α → Bool) : Bus :=
  match x ⟨bus.ledger, bus.qdev f, 0⟩ with
  | .ok a s =>
    { bus with
      ledger := s.ledger
      qdev := Function.update bus.qdev f s.qdev
      functions := if binds a then insert f bus.functions else bus.functions.erase f }
  | .error _ _ => { bus with corrupted := true }

/-- The driver core probes a function that has no driver, and removes one that has. -/
def Bus.step (bus : Bus) : BusAct → Option Bus
  | .probe E f =>
    if f ∈ bus.functions then none else some (bus.run f (qeduProbe E f) fun ret => ret = 0)
  | .remove f =>
    if f ∈ bus.functions then some (bus.run f (qeduRemove f) fun _ => false) else none
  | .interrupt f =>
    if f ∈ bus.functions then some (bus.run f (handler f) fun _ => true) else none

/-- No function has been probed. -/
def Bus.boot : Bus := ⟨.empty, fun _ => .zero, ∅, false⟩

def qeduBus : System Bus BusAct where
  init bus := bus = .boot
  step := Bus.step

/-- What the functions in `functions` hold, by their pointers. -/
def holdings (qdev : Nat → QeduDev) (functions : Finset Nat) : Multiset Token :=
  ∑ f ∈ functions, tokens f (bound (qdev f).debugfsDir).own

structure BusInv (bus : Bus) : Prop where
  sound : bus.corrupted = false
  held : bus.ledger.held = holdings bus.qdev bus.functions
  qdev : ∀ f ∈ bus.functions, bus.qdev f = (bound (bus.qdev f).debugfsDir).qdev

section Runs

variable {bus : Bus} {f : Nat}

theorem mem_holdings {qdev : Nat → QeduDev} {functions : Finset Nat} {t : Token} :
    t ∈ holdings qdev functions ↔
      t.function ∈ functions ∧ t.resource ∈ (bound (qdev t.function).debugfsDir).own := by
  simp only [holdings, Multiset.mem_sum, mem_tokens]
  constructor
  · rintro ⟨f, hf, rfl, hr⟩
    exact ⟨hf, hr⟩
  · rintro ⟨hf, hr⟩
    exact ⟨t.function, hf, rfl, hr⟩

theorem holdings_of_mem {qdev : Nat → QeduDev} {functions : Finset Nat} (hf : f ∈ functions) :
    holdings qdev functions =
      holdings qdev (functions.erase f) + tokens f (bound (qdev f).debugfsDir).own := by
  rw [holdings, holdings, Finset.sum_erase_add _ _ hf]

/-- Between probe and remove everything a resource needs is there. -/
theorem bound_closed (debugfs : Bool) :
    ∀ r ∈ (bound debugfs).own, ∀ v ∈ r.needs, v ∈ (bound debugfs).own := by
  cases debugfs <;> decide

/-- What one function sees of the bus: its own share, and the rest as the others'. -/
theorem BusInv.at {h : Share} (hinv : BusInv bus) (n : Nat) (hqdev : bus.qdev f = h.qdev)
    (hown : holdings bus.qdev bus.functions =
      holdings bus.qdev (bus.functions.erase f) + tokens f h.own) :
    At f (holdings bus.qdev (bus.functions.erase f)) h ⟨bus.ledger, bus.qdev f, n⟩ := by
  refine ⟨⟨hinv.held.trans hown, ?_⟩, ?_, hqdev⟩
  · intro t ht v hv
    obtain ⟨hf, hr⟩ := mem_holdings.mp ht
    obtain ⟨r, hneeds, rfl⟩ := List.mem_map.mp hv
    exact mem_holdings.mpr ⟨hf, bound_closed _ _ hr r hneeds⟩
  · exact fun t ht => Finset.ne_of_mem_erase (mem_holdings.mp ht).1

/-- The share of a bound function. -/
theorem BusInv.at_bound (hinv : BusInv bus) (hf : f ∈ bus.functions) (n : Nat) :
    At f (holdings bus.qdev (bus.functions.erase f)) (bound (bus.qdev f).debugfsDir)
      ⟨bus.ledger, bus.qdev f, n⟩ := by
  exact hinv.at n (hinv.qdev f hf) (holdings_of_mem hf)

/-- The share of a function without driver. -/
theorem BusInv.at_unbound (hinv : BusInv bus) (hf : f ∉ bus.functions) (n : Nat) :
    At f (holdings bus.qdev (bus.functions.erase f)) ⟨∅, bus.qdev f⟩
      ⟨bus.ledger, bus.qdev f, n⟩ := by
  apply hinv.at n rfl
  simp [holdings, Finset.erase_eq_of_notMem hf, tokens]

/-- The pointers of another function do not matter. -/
theorem holdings_update {q : QeduDev} :
    holdings (Function.update bus.qdev f q) (bus.functions.erase f) =
      holdings bus.qdev (bus.functions.erase f) := by
  apply Finset.sum_congr rfl
  intro g hg
  rw [Function.update_of_ne (Finset.ne_of_mem_erase hg)]

/-- The result of a function that leaves `f` bound or with nothing. -/
def Ends {α : Type} (f : Nat) (others : Multiset Token) (binds : α → Bool) (a : α)
    (s : PciState) : Prop :=
  if binds a then ∃ debugfs, At f others (bound debugfs) s else Unbound f others s

/-- **One function of the driver** keeps the invariant. -/
theorem BusInv.run {α : Type} {x : BindM α} {binds : α → Bool} {h : Share} (hinv : BusInv bus)
    (hat : At f (holdings bus.qdev (bus.functions.erase f)) h ⟨bus.ledger, bus.qdev f, 0⟩)
    (hx : Triple (At f (holdings bus.qdev (bus.functions.erase f)) h) x
      (Ends f (holdings bus.qdev (bus.functions.erase f)) binds) fun _ => False) :
    BusInv (bus.run f x binds) := by
  obtain ⟨a, s, hrun, hends⟩ := hx.returns hat
  -- the pointers of the other functions are as they were
  have hothers : ∀ g ∈ bus.functions.erase f, Function.update bus.qdev f s.qdev g =
      (bound (Function.update bus.qdev f s.qdev g).debugfsDir).qdev := by
    intro g hg
    rw [Function.update_of_ne (Finset.ne_of_mem_erase hg)]
    exact hinv.qdev g (Finset.mem_of_mem_erase hg)
  unfold Bus.run
  rw [hrun]
  unfold Ends at hends
  cases hbinds : binds a with
  | true =>
    rw [if_pos hbinds] at hends
    obtain ⟨debugfs, hat'⟩ := hends
    have hqdev : (bound s.qdev.debugfsDir).qdev = s.qdev := by rw [hat'.qdev]; rfl
    have hown : (bound s.qdev.debugfsDir).own = (bound debugfs).own := by rw [hat'.qdev]; rfl
    refine ⟨hinv.sound, ?_, ?_⟩
    · simp only [hbinds, if_true]
      rw [hat'.splits.held, holdings_of_mem (Finset.mem_insert_self f bus.functions),
        Finset.erase_insert_eq_erase, holdings_update, Function.update_self, hown]
    · simp only [hbinds, if_true]
      intro g hg
      by_cases hgf : g = f
      · subst hgf
        rw [Function.update_self, hqdev]
      · exact hothers g (Finset.mem_erase.mpr ⟨hgf, Finset.mem_of_mem_insert_of_ne hg hgf⟩)
  | false =>
    rw [if_neg (by simp [hbinds])] at hends
    obtain ⟨q, hat'⟩ := hends
    refine ⟨hinv.sound, ?_, ?_⟩
    · simp only [hbinds, Bool.false_eq_true, if_false]
      rw [hat'.splits.held, holdings_update]
      simp [tokens]
    · simp only [hbinds, Bool.false_eq_true, if_false]
      exact hothers

theorem BusInv.step {bus' : Bus} {a : BusAct} (hinv : BusInv bus) (hs : bus.step a = some bus') :
    BusInv bus' := by
  cases a with
  | probe E f =>
    simp only [Bus.step] at hs
    split at hs
    · cases hs
    · next hf =>
      cases hs
      apply hinv.run (hinv.at_unbound hf 0)
      apply Triple.post qeduProbe_spec
      intro ret s hends
      simpa [Ends, ProbeEnds] using hends
  | remove f =>
    simp only [Bus.step] at hs
    split at hs
    · next hf =>
      cases hs
      exact hinv.run (hinv.at_bound hf 0) qeduRemove_spec
    · cases hs
  | interrupt f =>
    simp only [Bus.step] at hs
    split at hs
    · next hf =>
      cases hs
      apply hinv.run (hinv.at_bound hf 0)
      apply Triple.post (handler_spec ?_)
      · exact fun _ s hs => ⟨_, hs⟩
      · cases (bus.qdev f).debugfsDir <;> decide
    · cases hs

theorem BusInv.of_reachable (h : qeduBus.Reachable bus) : BusInv bus := by
  refine System.Reach.invariant BusInv ?_ (fun _ _ _ hinv _ hs => hinv.step hs) h
  rintro bus rfl
  exact ⟨rfl, rfl, by simp [Bus.boot]⟩

end Runs

/-- **Binding is all or nothing.** Whatever the driver core probes and removes, whichever calls
    fail, and whenever the shared line is raised meanwhile: nothing is given back twice or while
    something needs it, and the handler never follows a pointer to something that is gone. A bound
    function holds every resource, debugfs apart if it could not be had, and its pointers say so;
    of any other function nothing is held. -/
theorem qedu_binding_all_or_nothing {bus : Bus} (h : qeduBus.Reachable bus) :
    bus.corrupted = false ∧ bus.ledger.held.Nodup ∧
      (∀ f r, ⟨f, r⟩ ∈ bus.ledger.held ↔
        f ∈ bus.functions ∧ (r = .debugfsDir → (bus.qdev f).debugfsDir = true)) ∧
      ∀ f ∈ bus.functions, (bus.qdev f).bar0 = true ∧ (bus.qdev f).dmaCpuAddr = true ∧
        (bus.qdev f).dmaWq = true := by
  have hinv := BusInv.of_reachable h
  refine ⟨hinv.sound, bus.ledger.nodup, ?_, ?_⟩
  · intro f r
    rw [hinv.held, mem_holdings]
    refine and_congr_right fun _ => ?_
    cases (bus.qdev f).debugfsDir <;> cases r <;> simp [bound]
  · intro f hf
    rw [hinv.qdev f hf]
    exact ⟨rfl, rfl, rfl⟩

/-- One function is bound without debugfs, then another fails for want of a workqueue, and the
    line is raised. -/
theorem qedu_binding_all_or_nothing_shared :
    ∃ bus, qeduBus.exec .boot
        [.probe ⟨fun n => if n = 11 then 19 else 0, true⟩ 0,
          .probe ⟨fun n => if n = 7 then 12 else 0, false⟩ 1, .interrupt 0] = some bus ∧
      bus.corrupted = false ∧ bus.functions = {0} ∧
      (⟨0, .miscdev⟩ ∈ bus.ledger.held ↔
        0 ∈ bus.functions ∧ (Resource.miscdev = .debugfsDir → (bus.qdev 0).debugfsDir = true)) := by
  have hbinds : (qeduBus.exec .boot
      [.probe ⟨fun n => if n = 11 then 19 else 0, true⟩ 0,
        .probe ⟨fun n => if n = 7 then 12 else 0, false⟩ 1,
        .interrupt 0]).map (fun bus => bus.functions) = some {0} := by
    decide +kernel
  obtain ⟨bus, hrun, hfunctions⟩ := Option.map_eq_some_iff.mp hbinds
  have hbus := qedu_binding_all_or_nothing (System.reachable_of_exec rfl hrun)
  exact ⟨bus, hrun, hbus.1, hfunctions, hbus.2.2.1 0 .miscdev⟩

end LinuxMaxxing.Io.Binding
