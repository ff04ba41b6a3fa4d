import LinuxMaxxing.Common.JsonWriter
import LinuxMaxxing.VirtEpt.Callbacks

/-!
# Writing EPT Snapshots

The callback of `virt-ept/observer.c` that turns a submitted event into a record, and the
whole way from the programs to the observer's output.

`records_forget` is the result: the output is the one in which every program starts from an
empty scratch event, so that nothing an earlier program left there shows in a later record.
-/

namespace LinuxMaxxing.VirtEpt

open LinuxMaxxing.Common LinuxMaxxing.Common.JsonWriter

/-! ## Names -/

/-- `event_name` -/
def eventName (event : BitVec 32) : String :=
  if event = EventType.value .kvmEntry then "kvm_entry"
  else if event = EventType.value .kvmExit then "kvm_exit"
  else if event = EventType.value .kvmUserspaceExit then "kvm_userspace_exit"
  else if event = EventType.value .kvmUnmapHvaRange then "kvm_unmap_hva_range"
  else if event = EventType.value .kvmMmuSpteRequested then "kvm_mmu_spte_requested"
  else if event = EventType.value .kvmMmuSetSpte then "kvm_mmu_set_spte"
  else if event = EventType.value .kvmFlushRemoteTlbs then "kvm_flush_remote_tlbs"
  else if event = EventType.value .controlBegin then "control_begin"
  else if event = EventType.value .controlEnd then "control_end"
  else if event = EventType.value .memslotBegin then "memslot_begin"
  else if event = EventType.value .memslotEnd then "memslot_end"
  else if event = EventType.value .sysEnterIoctl then "sys_enter_ioctl"
  else if event = EventType.value .sysExitIoctl then "sys_exit_ioctl"
  else if event = EventType.value .kvmPageFault then "kvm_page_fault"
  else if event = EventType.value .kvmMmuSplitHugePage then "kvm_mmu_split_huge_page"
  else if event = EventType.value .markMmioSpte then "mark_mmio_spte"
  else if event = EventType.value .sysEnterMadvise then "sys_enter_madvise"
  else if event = EventType.value .sysExitMadvise then "sys_exit_madvise"
  else if event = EventType.value .sysEnterMmap then "sys_enter_mmap"
  else if event = EventType.value .sysExitMmap then "sys_exit_mmap"
  else "unknown"

/-- `event_hook` -/
def eventHook (event : BitVec 32) : String :=
  if event = EventType.value .kvmEntry then "raw_tp/kvm_entry"
  else if event = EventType.value .kvmExit then "tp/kvm/kvm_exit"
  else if event = EventType.value .kvmUserspaceExit then "tp/kvm/kvm_userspace_exit"
  else if event = EventType.value .kvmUnmapHvaRange then "tp/kvm/kvm_unmap_hva_range"
  else if event = EventType.value .kvmMmuSpteRequested then "tp/kvmmmu/kvm_mmu_spte_requested"
  else if event = EventType.value .kvmMmuSetSpte then "tp/kvmmmu/kvm_mmu_set_spte"
  else if event = EventType.value .kvmFlushRemoteTlbs then "kprobe/kvm_flush_remote_tlbs"
  else if event = EventType.value .controlBegin then "uprobe/build/vmm:handle_control_command"
  else if event = EventType.value .controlEnd then "uretprobe/build/vmm:handle_control_command"
  else if event = EventType.value .memslotBegin then "uprobe/build/vmm:set_memory_region"
  else if event = EventType.value .memslotEnd then "uretprobe/build/vmm:set_memory_region"
  else if event = EventType.value .sysEnterIoctl then "tracepoint/syscalls/sys_enter_ioctl"
  else if event = EventType.value .sysExitIoctl then "tracepoint/syscalls/sys_exit_ioctl"
  else if event = EventType.value .kvmPageFault then "tp/kvm/kvm_page_fault"
  else if event = EventType.value .kvmMmuSplitHugePage then "tp/kvmmmu/kvm_mmu_split_huge_page"
  else if event = EventType.value .markMmioSpte then "tp/kvmmmu/mark_mmio_spte"
  else if event = EventType.value .sysEnterMadvise then "tracepoint/syscalls/sys_enter_madvise"
  else if event = EventType.value .sysExitMadvise then "tracepoint/syscalls/sys_exit_madvise"
  else if event = EventType.value .sysEnterMmap then "tracepoint/syscalls/sys_enter_mmap"
  else if event = EventType.value .sysExitMmap then "tracepoint/syscalls/sys_exit_mmap"
  else "unknown"

/-- `ioctl_request_name`, with the request numbers of `linux/kvm.h` on x86-64. -/
def ioctlRequestName (request : BitVec 64) : String :=
  if request = 0xae00 then "KVM_GET_API_VERSION"
  else if request = 0xae03 then "KVM_CHECK_EXTENSION"
  else if request = 0xae01 then "KVM_CREATE_VM"
  else if request = 0x4020ae46 then "KVM_SET_USER_MEMORY_REGION"
  else if request = 0xae41 then "KVM_CREATE_VCPU"
  else if request = 0xae04 then "KVM_GET_VCPU_MMAP_SIZE"
  else if request = 0x8138ae83 then "KVM_GET_SREGS"
  else if request = 0x4138ae84 then "KVM_SET_SREGS"
  else if request = 0x4090ae82 then "KVM_SET_REGS"
  else if request = 0xc018aec0 then "KVM_CLEAR_DIRTY_LOG"
  else if request = 0xae80 then "KVM_RUN"
  else "UNKNOWN_IOCTL"

/-- `madvise_name` -/
def madviseName (advice : BitVec 32) : String :=
  if advice = 4 then "MADV_DONTNEED"
  else if advice = 14 then "MADV_HUGEPAGE"
  else "UNKNOWN_ADVICE"

/-! ## The parts of a record -/

/-- `write_entry` -/
def writeEntry (jw : JsonWriter) (entry : EntryRecord) : JsonWriter :=
  let jw := jw.objectBegin
  let jw := jw.u32 (literal "level") (entry.level.setWidth 32)
  let jw := jw.hexField (literal "table_hpa") entry.tableHpa
  let jw := jw.u32 (literal "index") (entry.index.setWidth 32)
  let jw := jw.hexField (literal "spte") entry.spte
  let jw := jw.bool (literal "present") (entry.present ≠ 0)
  let jw := jw.bool (literal "mmio") (entry.mmio ≠ 0)
  let jw := jw.bool (literal "leaf") (entry.leaf ≠ 0)
  let jw := jw.bool (literal "r") (entry.readable ≠ 0)
  let jw := jw.bool (literal "w") (entry.writable ≠ 0)
  let jw := jw.bool (literal "x") (entry.executable ≠ 0)
  let jw := jw.bool (literal "a") (entry.accessed ≠ 0)
  let jw := jw.bool (literal "d") (entry.dirty ≠ 0)
  jw.objectEnd

/-- `write_gfn` -/
def writeGfn (jw : JsonWriter) (gfn : GuestGfn) : JsonWriter :=
  let jw := jw.objectBegin
  let jw := jw.u64 (literal "gfn") gfn.gfn
  let jw := jw.hexField (literal "gva") gfn.gva
  let jw := jw.hexField (literal "gpa") gfn.gpa
  let jw := jw.bool (literal "ept_mapped") (gfn.eptMapped ≠ 0)
  let jw := jw.bool (literal "ept_mmio") (gfn.eptMmio ≠ 0)
  let jw := jw.u32 (literal "leaf_level") (gfn.leafLevel.setWidth 32)
  let jw := jw.hexField (literal "leaf_pfn") gfn.leafPfn
  let jw := jw.arrayBeginField (literal "entries")
  let jw := Fin.foldl eptLevels (fun jw i => writeEntry jw (gfn.entries i)) jw
  jw.arrayEnd.objectEnd

/-- `write_control` -/
def writeControl (jw : JsonWriter) (control : PairedInfo 32 ControlRequest) : JsonWriter :=
  let jw := jw.objectBeginField (literal "control")
  let jw := jw.bool (literal "present") (control.present ≠ 0)
  let jw :=
    if control.present ≠ 0 then
      let jw := jw.bool (literal "completed") (control.completed ≠ 0)
      let jw := jw.u32 (literal "command") (control.request.command.setWidth 32)
      let jw := jw.u64 (literal "operation_id") control.request.operationId
      let jw := jw.u64 (literal "duration_ns") control.durationNs
      jw.i64 (literal "result") (control.result.signExtend 64)
    else jw
  jw.objectEnd

/-- `write_memslot` -/
def writeMemslot (jw : JsonWriter) (memslot : PairedInfo 32 MemslotRequest) : JsonWriter :=
  let jw := jw.objectBeginField (literal "memslot")
  let jw := jw.bool (literal "present") (memslot.present ≠ 0)
  let jw :=
    if memslot.present ≠ 0 then
      let jw := jw.bool (literal "completed") (memslot.completed ≠ 0)
      let jw := jw.u32 (literal "control_command") (memslot.request.controlCommand.setWidth 32)
      let jw := jw.i64 (literal "vm_fd") (memslot.request.vmFd.signExtend 64)
      let jw := jw.u32 (literal "slot") memslot.request.slot
      let jw := jw.hexField (literal "flags") (memslot.request.flags.setWidth 64)
      let jw := jw.hexField (literal "guest_phys_addr") memslot.request.guestPhysAddr
      let jw := jw.ptr (literal "userspace_addr") memslot.request.userspaceAddr
      let jw := jw.hexField (literal "size") memslot.request.size
      let jw := jw.u64 (literal "operation_id") memslot.request.operationId
      let jw := jw.u64 (literal "duration_ns") memslot.durationNs
      jw.i64 (literal "result") (memslot.result.signExtend 64)
    else jw
  jw.objectEnd

/-- `write_ioctl` -/
def writeIoctl (jw : JsonWriter) (ioctl : PairedInfo 64 IoctlRequest) : JsonWriter :=
  let jw := jw.objectBeginField (literal "ioctl")
  let jw := jw.bool (literal "present") (ioctl.present ≠ 0)
  let jw := jw.bool (literal "completed") (ioctl.completed ≠ 0)
  let jw :=
    if ioctl.present ≠ 0 then
      let jw := jw.i64 (literal "fd") (ioctl.request.fd.signExtend 64)
      let jw := jw.hexField (literal "request") ioctl.request.request
      let jw := jw.string (literal "request_name")
        (literal (ioctlRequestName ioctl.request.request))
      let jw := jw.hexField (literal "argument") ioctl.request.argument
      let jw := jw.u64 (literal "call_id") ioctl.request.callId
      let jw := jw.i64 (literal "result") ioctl.result
      jw.u64 (literal "duration_ns") ioctl.durationNs
    else jw
  jw.objectEnd

/-- `write_madvise` -/
def writeMadvise (jw : JsonWriter) (madvise : PairedInfo 64 MadviseRequest) : JsonWriter :=
  let jw := jw.objectBeginField (literal "madvise")
  let jw := jw.bool (literal "present") (madvise.present ≠ 0)
  let jw := jw.bool (literal "completed") (madvise.completed ≠ 0)
  let jw :=
    if madvise.present ≠ 0 then
      let jw := jw.ptr (literal "start") madvise.request.start
      let jw := jw.hexField (literal "length") madvise.request.length
      let jw := jw.i64 (literal "advice") (madvise.request.advice.signExtend 64)
      let jw := jw.string (literal "advice_name") (literal (madviseName madvise.request.advice))
      let jw := jw.u64 (literal "call_id") madvise.request.callId
      let jw := jw.i64 (literal "result") madvise.result
      jw.u64 (literal "duration_ns") madvise.durationNs
    else jw
  jw.objectEnd

/-- `write_mmap` -/
def writeMmap (jw : JsonWriter) (mmap : PairedInfo 64 MmapRequest) : JsonWriter :=
  let jw := jw.objectBeginField (literal "mmap")
  let jw := jw.bool (literal "present") (mmap.present ≠ 0)
  let jw := jw.bool (literal "completed") (mmap.completed ≠ 0)
  let jw :=
    if mmap.present ≠ 0 then
      let jw := jw.ptr (literal "requested_addr") mmap.request.requestedAddr
      let jw := jw.hexField (literal "length") mmap.request.length
      -- the `int` arguments of a `u64` parameter are sign-extended
      let jw := jw.hexField (literal "prot") (mmap.request.prot.signExtend 64)
      let jw := jw.hexField (literal "flags") (mmap.request.flags.signExtend 64)
      let jw := jw.i64 (literal "fd") (mmap.request.fd.signExtend 64)
      let jw := jw.hexField (literal "offset") mmap.request.offset
      let jw := jw.u64 (literal "call_id") mmap.request.callId
      let jw := jw.ptr (literal "result_hva") mmap.result
      jw.u64 (literal "duration_ns") mmap.durationNs
    else jw
  jw.objectEnd

/-- `write_disposition` -/
def writeDisposition (jw : JsonWriter) (disposition : DispositionInfo) : JsonWriter :=
  let jw := jw.objectBeginField (literal "disposition")
  (jw.bool (literal "present") (disposition.present ≠ 0)).objectEnd

/-- `write_state` -/
def writeState (jw : JsonWriter) (state : EptState) : JsonWriter :=
  let jw := jw.objectBeginField (literal "state")
  let jw := jw.bool (literal "present") (state.present ≠ 0)
  let jw :=
    if state.present ≠ 0 then
      let jw := jw.ptr (literal "vcpu") state.vcpu
      let jw := jw.ptr (literal "kvm") state.kvm
      let jw := jw.ptr (literal "mmu") state.mmu
      let jw := jw.hexField (literal "root_hpa") state.rootHpa
      let jw := jw.hexField (literal "root_pgd") state.rootPgd
      let jw := jw.arrayBeginField (literal "gfns")
      let jw := Fin.foldl maxGfnSamples (fun jw i => writeGfn jw (state.gfns i)) jw
      jw.arrayEnd
    else
      let jw := jw.null (literal "vcpu")
      let jw := jw.null (literal "kvm")
      let jw := jw.null (literal "mmu")
      let jw := jw.null (literal "root_hpa")
      let jw := jw.null (literal "root_pgd")
      jw.null (literal "gfns")
  jw.objectEnd

/-- `write_context` -/
def writeContext (jw : JsonWriter) (context : EptContext) : JsonWriter :=
  let jw := jw.objectBeginField (literal "context")
  let jw := jw.u32 (literal "pid") context.pid
  let jw := jw.u32 (literal "tid") context.tid
  let jw := jw.u32 (literal "cpu") context.cpu
  (jw.stringN (literal "comm") (List.ofFn context.comm) 16).objectEnd

/-- `write_event_info` -/
def writeEventInfo (jw : JsonWriter) (event : BitVec 32) : JsonWriter :=
  let jw := jw.objectBeginField (literal "event_info")
  let jw := jw.u32 (literal "event") event
  (jw.string (literal "event_name") (literal (eventName event))).objectEnd

/-- `write_snapshot` -/
def writeSnapshot (jw : JsonWriter) (e : EptEvent) (seq : BitVec 32) : JsonWriter :=
  let jw := jw.objectBegin
  let jw := jw.string (literal "experiment") (literal "virt-ept")
  let jw := jw.string (literal "kind") (literal "snapshot")
  let jw := jw.string (literal "source") (literal "ebpf")
  let jw := jw.u32 (literal "seq") seq
  let jw := jw.string (literal "hook") (literal (eventHook e.event))
  let jw := jw.u64 (literal "time_ns") e.timeNs
  let jw := writeEventInfo jw e.event
  let jw := writeContext jw e.context
  let jw := writeControl jw e.control
  let jw := writeMemslot jw e.memslot
  let jw := writeIoctl jw e.ioctl
  let jw := writeMadvise jw e.madvise
  let jw := writeMmap jw e.mmap
  let jw := writeDisposition jw e.disposition
  let jw := writeState jw e.state
  jw.objectEnd.newline

/-! ## From the programs to the output -/

/-- The observer: its output and `seq_counter`. -/
structure Observer where
  out : JsonWriter
  seqCounter : BitVec 32

/-- `handle_event`: a fresh writer on the same output. -/
def Observer.handleEvent (o : Observer) (e : EptEvent) : Observer where
  out := writeSnapshot { o.out with error := false, depth := 0, first := fun _ => false } e
    (o.seqCounter + 1)
  seqCounter := o.seqCounter + 1

/-- The ring buffer: a submitted event reaches the callback, or is dropped. -/
def Observer.drain (o : Observer) (c : Call) : Option EptEvent → Observer
  | none => o
  | some e => if c.delivered then o.handleEvent e else o

/-- What the programs share apart from the scratch events. -/
structure Shared where
  maps : Maps
  observer : Observer

/-- One run of a program on a scratch event. -/
def observe (f : Callback) (c : Call) (scratch : EptEvent) (s : Shared) : EptEvent × Shared :=
  let outcome := f.run c s.maps scratch
  (outcome.scratch, ⟨outcome.maps, s.observer.drain c outcome.submitted⟩)

/-- The programs of a run, each on the scratch event of its CPU. -/
def records : List (Callback × Call) → (BitVec 32 → EptEvent) → Shared → Shared
  | [], _, s => s
  | (f, c) :: calls, scratch, s =>
    let (e, s) := observe f c (scratch c.cpu) s
    records calls (Function.update scratch c.cpu e) s

section Forget

/-! ### A record shows what is present -/

section Sections

variable {w : Nat} {ρ : Type} [Inhabited ρ]

theorem PairedInfo.visible_fields (s : PairedInfo w ρ) :
    s.visible.present = s.present ∧ s.visible.completed = s.completed ∧
      (s.present ≠ 0 → s.visible = s) := by
  unfold PairedInfo.visible
  by_cases h : s.present = 0
  · rw [if_pos h]
    exact ⟨rfl, rfl, fun hne => absurd h hne⟩
  · rw [if_neg h]
    exact ⟨rfl, rfl, fun _ => rfl⟩

/-- A writer that looks at a section only where it is present, beside its two flags. -/
theorem write_visible {write : JsonWriter → PairedInfo w ρ → JsonWriter}
    (hwrite : ∀ jw s s', s.present = s'.present → s.completed = s'.completed →
      s.present = 0 → write jw s = write jw s') (jw : JsonWriter) (s : PairedInfo w ρ) :
    write jw s.visible = write jw s := by
  obtain ⟨hpresent, hcompleted, hsame⟩ := s.visible_fields
  by_cases h : s.present = 0
  · exact hwrite jw s.visible s hpresent hcompleted (hpresent.trans h)
  · rw [hsame h]

end Sections

theorem writeControl_visible (jw : JsonWriter) (s : PairedInfo 32 ControlRequest) :
    writeControl jw s.visible = writeControl jw s := by
  apply write_visible
  intro jw s s' hpresent _ habsent
  unfold writeControl
  simp only [← hpresent, habsent, ne_eq, not_true_eq_false, if_false]

theorem writeMemslot_visible (jw : JsonWriter) (s : PairedInfo 32 MemslotRequest) :
    writeMemslot jw s.visible = writeMemslot jw s := by
  apply write_visible
  intro jw s s' hpresent _ habsent
  unfold writeMemslot
  simp only [← hpresent, habsent, ne_eq, not_true_eq_false, if_false]

theorem writeIoctl_visible (jw : JsonWriter) (s : PairedInfo 64 IoctlRequest) :
    writeIoctl jw s.visible = writeIoctl jw s := by
  apply write_visible
  intro jw s s' hpresent hcompleted habsent
  unfold writeIoctl
  simp only [← hpresent, hcompleted, habsent, ne_eq, not_true_eq_false, if_false]

theorem writeMadvise_visible (jw : JsonWriter) (s : PairedInfo 64 MadviseRequest) :
    writeMadvise jw s.visible = writeMadvise jw s := by
  apply write_visible
  intro jw s s' hpresent hcompleted habsent
  unfold writeMadvise
  simp only [← hpresent, hcompleted, habsent, ne_eq, not_true_eq_false, if_false]

theorem writeMmap_visible (jw : JsonWriter) (s : PairedInfo 64 MmapRequest) :
    writeMmap jw s.visible = writeMmap jw s := by
  apply write_visible
  intro jw s s' hpresent hcompleted habsent
  unfold writeMmap
  simp only [← hpresent, hcompleted, habsent, ne_eq, not_true_eq_false, if_false]

theorem writeState_visible (jw : JsonWriter) (s : EptState) :
    writeState jw s.visible = writeState jw s := by
  unfold EptState.visible
  by_cases h : s.present = 0
  · have hdefault : (default : EptState).present = 0 := rfl
    unfold writeState
    simp only [h, if_true, hdefault, ne_eq, not_true_eq_false, if_false]
  · rw [if_neg h]

theorem writeSnapshot_visible (jw : JsonWriter) (e : EptEvent) (seq : BitVec 32) :
    writeSnapshot jw e.visible seq = writeSnapshot jw e seq := by
  unfold writeSnapshot EptEvent.visible
  simp only [writeControl_visible, writeMemslot_visible, writeIoctl_visible,
    writeMadvise_visible, writeMmap_visible, writeState_visible]

/-! ### Runs -/

theorem handleEvent_visible (o : Observer) (e : EptEvent) :
    o.handleEvent e.visible = o.handleEvent e := by
  unfold Observer.handleEvent
  rw [writeSnapshot_visible]

theorem drain_visible (o : Observer) (c : Call) (submitted : Option EptEvent) :
    o.drain c (submitted.map EptEvent.visible) = o.drain c submitted := by
  cases submitted with
  | none => rfl
  | some e =>
    show (if c.delivered then o.handleEvent e.visible else o) = _
    rw [handleEvent_visible]
    rfl

/-- What a program leaves in the maps and in the output does not depend on the scratch event. -/
theorem observe_same (f : Callback) (c : Call) (e e' : EptEvent) (s : Shared) :
    (observe f c e s).2 = (observe f c e' s).2 := by
  have hsame := f.run_same c s.maps e e'
  have hdrain : s.observer.drain c (f.run c s.maps e).submitted =
      s.observer.drain c (f.run c s.maps e').submitted := by
    rw [← drain_visible, hsame.submitted, drain_visible]
  unfold observe
  simp only [hsame.maps, hdrain]

/-- **Records forget**: the maps and the output of a run are the same from any two contents of
    the scratch events, and every record is the one its program makes from any other content. -/
theorem records_forget (calls : List (Callback × Call)) (scratch scratch' : BitVec 32 → EptEvent)
    (s : Shared) (blank : EptEvent) :
    records calls scratch s = records calls scratch' s ∧
      records calls scratch s = calls.foldl (fun s fc => (observe fc.1 fc.2 blank s).2) s := by
  have hfold : ∀ calls scratch s, records calls scratch s =
      calls.foldl (fun s fc => (observe fc.1 fc.2 blank s).2) s := by
    intro calls
    induction calls with
    | nil => exact fun _ _ => rfl
    | cons fc calls ih =>
      obtain ⟨f, c⟩ := fc
      intro scratch s
      unfold records
      simp only
      rw [ih, List.foldl_cons, observe_same f c (scratch c.cpu) blank]
  exact ⟨(hfold calls scratch s).trans (hfold calls scratch' s).symm, hfold calls scratch s⟩

end Forget

end LinuxMaxxing.VirtEpt
