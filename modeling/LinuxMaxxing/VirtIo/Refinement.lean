import LinuxMaxxing.VirtIo.ToyDevice

/-!
# What a Register Write Means

The specification of the toy device: its registers, the two memories it moves bytes
between, and the completions it has raised. `Executes` says what a command does with them
and `Writes` what a register write does; every clause names all that changes.

- `Writes.deterministic`: the specification leaves the device no choice;
- `vmm_refines_spec`: every run of four-byte register writes is a run of the
  specification, with guest RAM changing between the writes as the guest likes.
-/

namespace LinuxMaxxing.VirtIo

open LinuxMaxxing.Lib

/-! ## The specification -/

/-- How the completion of a command reaches the guest. -/
inductive Completion where
  /-- One edge on the legacy line. -/
  | legacyEdge
  /-- One message-signalled interrupt. -/
  | msi
  deriving DecidableEq, Repr

/-- The device as its driver sees it. -/
structure SpecState where
  command : BitVec 32
  status : BitVec 32
  dmaGpa : BitVec 32
  result : BitVec 32
  buffer : Memory
  guest : Memory
  completions : List Completion

namespace SpecState

/-- A command has succeeded. -/
def complete (s : SpecState) (c : Completion) : SpecState :=
  { s with status := statusDone, completions := s.completions ++ [c] }

/-- A command was rejected: nothing else changes. -/
def reject (s : SpecState) : SpecState := { s with status := statusError }

end SpecState

/-- `dst'` is `dst` with the 64 bytes of `src` at `srcAddr` copied to `dstAddr`. -/
structure Copied (dst : Memory) (dstAddr : Nat) (src : Memory) (srcAddr : Nat)
    (dst' : Memory) : Prop where
  copied : ∀ i < 64, dst' (dstAddr + i) = src (srcAddr + i)
  frame : ∀ i, i < dstAddr ∨ dstAddr + 64 ≤ i → dst' i = dst i

/-- The sum of the first 64 bytes. -/
def checksum (m : Memory) : Nat := ∑ i ∈ Finset.range 64, (m i).toNat

/-- The effect of the command in `COMMAND`, with `size` bytes of guest RAM. -/
inductive Executes (size : Nat) (s : SpecState) : SpecState → Prop where
  | irqOnly : s.command = cmdIrqOnly → Executes size s (s.complete .legacyEdge)
  | msiOnly : s.command = cmdMsiOnly → Executes size s (s.complete .msi)
  | dmaTo {buffer : Memory} {result : BitVec 32} :
      s.command = cmdDmaToDevice → s.dmaGpa.toNat + 64 ≤ size →
      Copied s.buffer 0 s.guest s.dmaGpa.toNat buffer → result.toNat = checksum buffer →
      Executes size s ({ s with buffer := buffer, result := result }.complete .legacyEdge)
  | dmaFrom {guest : Memory} {result : BitVec 32} :
      s.command = cmdDmaFromDevice → s.dmaGpa.toNat + 64 ≤ size →
      Copied s.guest s.dmaGpa.toNat s.buffer 0 guest → result.toNat = checksum s.buffer →
      Executes size s ({ s with guest := guest, result := result }.complete .legacyEdge)
  | outOfRange : s.command = cmdDmaToDevice ∨ s.command = cmdDmaFromDevice →
      size < s.dmaGpa.toNat + 64 → Executes size s s.reject
  | unknown : s.command ∉ [cmdIrqOnly, cmdDmaToDevice, cmdDmaFromDevice, cmdMsiOnly] →
      Executes size s s.reject

/-- The effect of a register write. -/
inductive Writes (size : Nat) (s : SpecState) (offset value : BitVec 32) : SpecState → Prop where
  | command {s' : SpecState} : offset = regCommand →
      Executes size { s with command := value } s' → Writes size s offset value s'
  | dmaGpa : offset = regDmaGpa → Writes size s offset value { s with dmaGpa := value }
  | irqAck : offset = regIrqAck →
      Writes size s offset value { s with status := s.status &&& ~~~statusDone }
  | other : offset ∉ [regCommand, regDmaGpa, regIrqAck] → Writes size s offset value s

/-- What the driver does: it stores into guest RAM, or writes the four bytes at an offset of
    the window while `run->mmio.data` still holds `stale`. -/
inductive DriverAct where
  | store (addr : Nat) (bytes : List UInt8)
  | write (offset : Fin deviceMmioSize) (value : BitVec 32) (stale : Memory)

/-- One step of the specification. -/
inductive SpecStep (size : Nat) (s : SpecState) : DriverAct → SpecState → Prop where
  | store {addr : Nat} {bytes : List UInt8} :
      SpecStep size s (.store addr bytes) { s with guest := s.guest.storeBytes addr bytes }
  | write {offset : Fin deviceMmioSize} {value : BitVec 32} {stale : Memory} {s' : SpecState} :
      Writes size s (BitVec.ofNat 32 offset) value s' →
      SpecStep size s (.write offset value stale) s'

/-- A run of the specification. -/
inductive SpecRun (size : Nat) : SpecState → List DriverAct → SpecState → Prop where
  | nil {s : SpecState} : SpecRun size s [] s
  | cons {s t u : SpecState} {act : DriverAct} {acts : List DriverAct} :
      SpecStep size s act t → SpecRun size t acts u → SpecRun size s (act :: acts) u

/-- The device at power-on. -/
def SpecState.boot (guest behind : Memory) : SpecState :=
  ⟨0, 0, 0, 0, refillDevicePattern behind, guest, []⟩

/-! ### The specification is deterministic -/

section Deterministic

variable {size : Nat} {s t u : SpecState}

theorem Copied.unique {dst src m m' : Memory} {dstAddr srcAddr : Nat}
    (h : Copied dst dstAddr src srcAddr m) (h' : Copied dst dstAddr src srcAddr m') : m = m' := by
  funext i
  by_cases hi : i < dstAddr ∨ dstAddr + 64 ≤ i
  · rw [h.frame i hi, h'.frame i hi]
  · obtain ⟨j, rfl⟩ : ∃ j, i = dstAddr + j := ⟨i - dstAddr, by omega⟩
    rw [h.copied j (by omega), h'.copied j (by omega)]

theorem Executes.deterministic (h : Executes size s t) (h' : Executes size s u) : t = u := by
  -- clauses for different commands exclude each other
  cases h <;> cases h' <;>
    first
    | rfl
    | (exfalso; simp_all [cmdIrqOnly, cmdMsiOnly, cmdDmaToDevice, cmdDmaFromDevice]; done)
    | skip
  case dmaTo.dmaTo hcopy hsum _ _ _ _ hcopy' hsum' =>
    obtain rfl := hcopy.unique hcopy'
    obtain rfl := BitVec.eq_of_toNat_eq (hsum.trans hsum'.symm)
    rfl
  case dmaFrom.dmaFrom hcopy hsum _ _ _ _ hcopy' hsum' =>
    obtain rfl := hcopy.unique hcopy'
    obtain rfl := BitVec.eq_of_toNat_eq (hsum.trans hsum'.symm)
    rfl
  all_goals omega

theorem Writes.deterministic {offset value : BitVec 32} (h : Writes size s offset value t)
    (h' : Writes size s offset value u) : t = u := by
  -- clauses for different registers exclude each other
  cases h <;> cases h' <;>
    first
    | rfl
    | (exfalso; simp_all [regCommand, regDmaGpa, regIrqAck]; done)
    | skip
  case command.command _ h _ h' =>
    exact h.deterministic h'

theorem SpecRun.deterministic {acts : List DriverAct} (h : SpecRun size s acts t)
    (h' : SpecRun size s acts u) : t = u := by
  induction h with
  | nil =>
    cases h'
    rfl
  | cons hstep _ ih =>
    cases h' with
    | cons hstep' hrun' =>
      cases hstep with
      | store =>
        cases hstep'
        exact ih hrun'
      | write hw =>
        cases hstep' with
        | write hw' =>
          obtain rfl := hw.deterministic hw'
          exact ih hrun'

end Deterministic

/-! ## The device refines it -/

/-- The ioctls a completion is made of. -/
def Completion.ioctls : Completion → List Ioctl
  | .legacyEdge => [.irqLine deviceGsi 1, .irqLine deviceGsi 0]
  | .msi => [.signalMsi 0xfee00000 0 msiVector]

/-- The device stands as the specification says, and the VMM runs. -/
structure Refines (v : Vmm) (s : SpecState) : Prop where
  command : v.dev.command = s.command
  status : v.dev.status = s.status
  dmaGpa : v.dev.dmaGpa = s.dmaGpa
  result : v.dev.result = s.result
  buffer : v.dev.buffer = s.buffer
  guest : v.guest = s.guest
  ioctls : v.ioctls = s.completions.flatMap Completion.ioctls
  running : v.exited = false

/-- The access of a register write. -/
def registerWrite (offset : Fin deviceMmioSize) (value : BitVec 32) (stale : Memory) : Mmio where
  physAddr := BitVec.ofNat 64 (deviceMmioBase + offset)
  data := stale.storeLe 0 4 value.toNat
  len := 4
  isWrite := true
  len_pos := register_pos
  len_le := register_le

/-- What the VMM sees of the driver. -/
def DriverAct.guestAct : DriverAct → GuestAct
  | .store addr bytes => .store addr bytes
  | .write offset value stale => .mmio (registerWrite offset value stale)

theorem registerWrite_physAddr (offset : Fin deviceMmioSize) (value : BitVec 32)
    (stale : Memory) :
    (registerWrite offset value stale).physAddr.toNat = deviceMmioBase + offset := by
  have hlt : deviceMmioBase + offset < 2 ^ 64 :=
    (Nat.add_lt_add_left offset.isLt _).trans (by decide)
  exact Nat.mod_eq_of_lt hlt

theorem registerWrite_inWindow (offset : Fin deviceMmioSize) (value : BitVec 32)
    (stale : Memory) : (registerWrite offset value stale).InWindow := by
  unfold Mmio.InWindow
  rw [registerWrite_physAddr]
  exact ⟨Nat.le_add_right _ _, Nat.add_lt_add_left offset.isLt _⟩

theorem registerWrite_offset (offset : Fin deviceMmioSize) (value : BitVec 32)
    (stale : Memory) : (registerWrite offset value stale).offset = BitVec.ofNat 32 offset := by
  apply BitVec.eq_of_toNat_eq
  rw [(registerWrite_inWindow offset value stale).offset_toNat, registerWrite_physAddr,
    Nat.add_sub_cancel_left, BitVec.toNat_ofNat, Nat.mod_eq_of_lt]
  exact offset.isLt.trans (by decide)

section Refinement

variable {env : Env} {v : Vmm} {s : SpecState}

/-! ### Data movement -/

theorem memcpy_copied (dst src : Memory) (dstAddr srcAddr : Nat) :
    Copied dst dstAddr src srcAddr (memcpy dst dstAddr src srcAddr 64) where
  copied i hi := by
    simp [memcpy, hi]
  frame i hi := by
    unfold memcpy
    rw [if_neg (by omega)]

/-- `bytesum` is the sum in 32-bit arithmetic. -/
theorem bytesum_eq_sum (m : Memory) (len : Nat) :
    bytesum m len = BitVec.ofNat 32 (∑ i ∈ Finset.range len, (m i).toNat) := by
  induction len with
  | zero => rfl
  | succ len ih => rw [bytesum, ih, Finset.sum_range_succ, BitVec.ofNat_add]

/-- Sixty-four bytes do not overflow it. -/
theorem bytesum_toNat (m : Memory) : (bytesum m 64).toNat = checksum m := by
  have hbound : checksum m ≤ 64 * 255 := by
    have h := Finset.sum_le_card_nsmul (Finset.range 64) (fun i => (m i).toNat) 255
      fun i _ => Nat.le_of_lt_succ (m i).toNat_lt
    simpa [checksum] using h
  rw [bytesum_eq_sum, BitVec.toNat_ofNat]
  exact Nat.mod_eq_of_lt (by show checksum m < _; omega)

/-! ### Transfers -/

/-- A transfer is refused exactly when its range leaves guest RAM. -/
theorem range_check_iff (gpa : BitVec 32) :
    (gpa.setWidth 64 + dmaXferSize.setWidth 64 < gpa.setWidth 64 ∨
      env.guestMemSize < gpa.setWidth 64 + dmaXferSize.setWidth 64) ↔
      env.guestMemSize.toNat < gpa.toNat + 64 := by
  have hgpa := gpa.isLt
  have hsum : (gpa.setWidth 64 + dmaXferSize.setWidth 64).toNat = gpa.toNat + 64 := by
    have hlen : (dmaXferSize.setWidth 64).toNat = 64 := by decide
    rw [BitVec.toNat_add, BitVec.toNat_setWidth, hlen]
    omega
  rw [BitVec.lt_def, BitVec.lt_def, hsum, BitVec.toNat_setWidth]
  omega

theorem deviceDmaTransfer_rejects {dir gpa : BitVec 32}
    (hrange : env.guestMemSize.toNat < gpa.toNat + 64) :
    deviceDmaTransfer env v dir (gpa.setWidth 64) dmaXferSize = (false, v) := by
  unfold deviceDmaTransfer
  rw [if_neg (by decide), if_pos (range_check_iff gpa |>.mpr hrange)]

/-- A transfer into the device leaves it as the specification says. -/
theorem deviceDmaTransfer_to (h : Refines v s)
    (hrange : s.dmaGpa.toNat + 64 ≤ env.guestMemSize.toNat) :
    ∃ w buffer result, deviceDmaTransfer env v cmdDmaToDevice (s.dmaGpa.setWidth 64) dmaXferSize
        = (true, w) ∧
      Copied s.buffer 0 s.guest s.dmaGpa.toNat buffer ∧ result.toNat = checksum buffer ∧
      Refines w { s with buffer := buffer, result := result } := by
  have hgpa : (s.dmaGpa.setWidth 64).toNat = s.dmaGpa.toNat := by
    rw [BitVec.toNat_setWidth]
    omega
  unfold deviceDmaTransfer
  rw [if_neg (by decide), if_neg (mt (range_check_iff s.dmaGpa).mp (by omega)), if_pos rfl]
  refine ⟨_, memcpy s.buffer 0 s.guest s.dmaGpa.toNat 64, _, rfl, memcpy_copied _ _ _ _,
    bytesum_toNat _, ?_⟩
  constructor
  case buffer =>
    show memcpy v.dev.buffer 0 v.guest (s.dmaGpa.setWidth 64).toNat 64 = _
    rw [h.buffer, h.guest, hgpa]
  case result =>
    show bytesum (memcpy v.dev.buffer 0 v.guest (s.dmaGpa.setWidth 64).toNat 64) 64 = _
    rw [h.buffer, h.guest, hgpa]
  all_goals first
    | exact h.command
    | exact h.status
    | exact h.dmaGpa
    | exact h.guest
    | exact h.ioctls
    | exact h.running

/-- A transfer out of the device writes 64 bytes of guest RAM. -/
theorem deviceDmaTransfer_from (h : Refines v s)
    (hrange : s.dmaGpa.toNat + 64 ≤ env.guestMemSize.toNat) :
    ∃ w guest result,
      deviceDmaTransfer env v cmdDmaFromDevice (s.dmaGpa.setWidth 64) dmaXferSize = (true, w) ∧
      Copied s.guest s.dmaGpa.toNat s.buffer 0 guest ∧ result.toNat = checksum s.buffer ∧
      Refines w { s with guest := guest, result := result } := by
  have hgpa : (s.dmaGpa.setWidth 64).toNat = s.dmaGpa.toNat := by
    rw [BitVec.toNat_setWidth]
    omega
  unfold deviceDmaTransfer
  rw [if_neg (by decide), if_neg (mt (range_check_iff s.dmaGpa).mp (by omega)),
    if_neg (by decide), if_pos rfl]
  refine ⟨_, memcpy s.guest s.dmaGpa.toNat s.buffer 0 64, _, rfl, memcpy_copied _ _ _ _,
    bytesum_toNat _, ?_⟩
  constructor
  case guest =>
    show memcpy v.guest (s.dmaGpa.setWidth 64).toNat v.dev.buffer 0 64 = _
    rw [h.buffer, h.guest, hgpa]
  case result =>
    show bytesum v.dev.buffer 64 = _
    rw [h.buffer]
  all_goals first
    | exact h.command
    | exact h.status
    | exact h.dmaGpa
    | exact h.buffer
    | exact h.ioctls
    | exact h.running

/-! ### Commands -/

theorem Refines.setStatus (h : Refines v s) (status : BitVec 32) :
    Refines (v.setStatus status) { s with status := status } :=
  ⟨h.command, rfl, h.dmaGpa, h.result, h.buffer, h.guest, h.ioctls, h.running⟩

theorem Refines.legacyDone (h : Refines v s) :
    Refines (deviceRaiseLegacyIrq (v.setStatus statusDone)) (s.complete .legacyEdge) := by
  refine ⟨h.command, rfl, h.dmaGpa, h.result, h.buffer, h.guest, ?_, h.running⟩
  show v.ioctls ++ _ = _
  rw [h.ioctls, SpecState.complete, List.flatMap_append]
  rfl

theorem Refines.msiDone (h : Refines v s)
    (hioctl : (deviceSignalMsi env (v.setStatus statusDone)).Succeeded env) :
    Refines (deviceSignalMsi env (v.setStatus statusDone)) (s.complete .msi) := by
  refine ⟨h.command, rfl, h.dmaGpa, h.result, h.buffer, h.guest, ?_, ?_⟩
  · show v.ioctls ++ _ = _
    rw [h.ioctls, SpecState.complete, List.flatMap_append]
    rfl
  · have hmsi : 0 < env.ioctl v.ioctls.length :=
      of_decide_eq_true (hioctl v.ioctls.length _ List.getElem?_concat_length)
    exact decide_eq_false (not_le.mpr hmsi)

/-- A transfer keeps the command register. -/
theorem Refines.executed (h : Refines v s) (hne : s.command ≠ cmdMsiOnly) :
    (if (v.setStatus statusDone).dev.command = cmdMsiOnly
      then deviceSignalMsi env (v.setStatus statusDone)
      else deviceRaiseLegacyIrq (v.setStatus statusDone)) =
    deviceRaiseLegacyIrq (v.setStatus statusDone) := by
  have hcommand : (v.setStatus statusDone).dev.command = s.command := h.command
  rw [hcommand, if_neg hne]

/-- **Commands**: executing the command in `COMMAND` is what the specification says. -/
theorem deviceExecuteCommand_refines (h : Refines v s)
    (hioctl : (deviceExecuteCommand env v).Succeeded env) :
    ∃ s', Executes env.guestMemSize.toNat s s' ∧ Refines (deviceExecuteCommand env v) s' := by
  have hbusy := h.setStatus statusBusy
  have hcommand : (v.setStatus statusBusy).dev.command = s.command := h.command
  have hdmaGpa : (v.setStatus statusBusy).dev.dmaGpa = s.dmaGpa := h.dmaGpa
  unfold deviceExecuteCommand dispatchCommand at hioctl ⊢
  rw [hcommand, hdmaGpa] at hioctl ⊢
  by_cases hirq : s.command = cmdIrqOnly
  · rw [if_pos (.inl hirq)]
    simp only [Bool.not_true, Bool.false_eq_true, if_false]
    rw [hbusy.executed (by rw [hirq]; decide)]
    exact ⟨_, .irqOnly hirq, hbusy.legacyDone⟩
  by_cases hmsi : s.command = cmdMsiOnly
  · rw [if_pos (.inr hmsi)] at hioctl ⊢
    simp only [Bool.not_true, Bool.false_eq_true, if_false] at hioctl ⊢
    rw [if_pos (show (((v.setStatus statusBusy).setStatus statusDone).dev.command = cmdMsiOnly)
      from h.command.trans hmsi)] at hioctl ⊢
    exact ⟨_, .msiOnly hmsi, hbusy.msiDone hioctl⟩
  rw [if_neg (by simp [hirq, hmsi])]
  by_cases hto : s.command = cmdDmaToDevice
  · rw [if_pos (.inl hto), hto]
    rcases Nat.lt_or_ge env.guestMemSize.toNat (s.dmaGpa.toNat + 64) with hrange | hrange
    · rw [deviceDmaTransfer_rejects hrange]
      exact ⟨_, .outOfRange (.inl hto) hrange, hbusy.setStatus statusError⟩
    · obtain ⟨w, buffer, result, htransfer, hcopy, hsum, hw⟩ :=
        deviceDmaTransfer_to hbusy hrange
      rw [htransfer]
      simp only [Bool.not_true, Bool.false_eq_true, if_false]
      rw [hw.executed hmsi]
      exact ⟨_, .dmaTo hto hrange hcopy hsum, hw.legacyDone⟩
  by_cases hfrom : s.command = cmdDmaFromDevice
  · rw [if_pos (.inr hfrom), hfrom]
    rcases Nat.lt_or_ge env.guestMemSize.toNat (s.dmaGpa.toNat + 64) with hrange | hrange
    · rw [deviceDmaTransfer_rejects hrange]
      exact ⟨_, .outOfRange (.inr hfrom) hrange, hbusy.setStatus statusError⟩
    · obtain ⟨w, guest, result, htransfer, hcopy, hsum, hw⟩ :=
        deviceDmaTransfer_from hbusy hrange
      rw [htransfer]
      simp only [Bool.not_true, Bool.false_eq_true, if_false]
      rw [hw.executed hmsi]
      exact ⟨_, .dmaFrom hfrom hrange hcopy hsum, hw.legacyDone⟩
  · rw [if_neg (by simp [hto, hfrom])]
    exact ⟨_, .unknown (by simp [hirq, hmsi, hto, hfrom]), hbusy.setStatus statusError⟩

/-! ### Register writes and runs -/

theorem deviceMmioWrite_refines (h : Refines v s) (offset value : BitVec 32) (data : Memory)
    (hdata : data.loadLe 0 4 = value.toNat)
    (hioctl : (deviceMmioWrite env v offset data).Succeeded env) :
    ∃ s', Writes env.guestMemSize.toNat s offset value s' ∧
      Refines (deviceMmioWrite env v offset data) s' := by
  have hvalue : BitVec.ofNat 32 (data.loadLe 0 4) = value := by
    rw [hdata, BitVec.ofNat_toNat, BitVec.setWidth_eq]
  unfold deviceMmioWrite at hioctl ⊢
  simp only [hvalue] at hioctl ⊢
  by_cases hgpa : offset = regDmaGpa
  · rw [if_pos hgpa]
    exact ⟨_, .dmaGpa hgpa,
      h.command, h.status, rfl, h.result, h.buffer, h.guest, h.ioctls, h.running⟩
  rw [if_neg hgpa] at hioctl ⊢
  by_cases hcommand : offset = regCommand
  · rw [if_pos hcommand] at hioctl ⊢
    have hw : Refines { v with dev := { v.dev with command := value } }
        { s with command := value } :=
      ⟨rfl, h.status, h.dmaGpa, h.result, h.buffer, h.guest, h.ioctls, h.running⟩
    obtain ⟨s', hexec, hrefines⟩ := deviceExecuteCommand_refines hw hioctl
    exact ⟨s', .command hcommand hexec, hrefines⟩
  rw [if_neg hcommand]
  by_cases hack : offset = regIrqAck
  · rw [if_pos hack, h.status]
    exact ⟨_, .irqAck hack, h.setStatus _⟩
  · rw [if_neg hack]
    exact ⟨s, .other (by simp [hgpa, hcommand, hack]), h⟩

/-- One act of the driver is one step of the specification. -/
theorem step_refines (h : Refines v s) (act : DriverAct)
    (hioctl : ∀ v', step env v act.guestAct = some v' → v'.Succeeded env) :
    ∃ v' s', step env v act.guestAct = some v' ∧ SpecStep env.guestMemSize.toNat s act s' ∧
      Refines v' s' := by
  unfold step at hioctl ⊢
  rw [if_neg (by simp [h.running])] at hioctl ⊢
  cases act with
  | store addr bytes =>
    refine ⟨_, _, rfl, .store, h.command, h.status, h.dmaGpa, h.result, h.buffer, ?_, h.ioctls,
      h.running⟩
    show v.guest.storeBytes addr bytes = s.guest.storeBytes addr bytes
    rw [h.guest]
  | write offset value stale =>
    have hdata : (stale.storeLe 0 4 value.toNat).loadLe 0 4 = value.toNat :=
      Memory.loadLe_storeLe stale 0 value.isLt
    have hexit : mmioExit env v (registerWrite offset value stale) =
        deviceMmioWrite env v (BitVec.ofNat 32 offset) (stale.storeLe 0 4 value.toNat) := by
      unfold mmioExit
      rw [if_pos (registerWrite_inWindow offset value stale),
        if_pos (show (registerWrite offset value stale).isWrite = true from rfl),
        registerWrite_offset]
      rfl
    obtain ⟨s', hwrites, hrefines⟩ := deviceMmioWrite_refines h (BitVec.ofNat 32 offset) value _
      hdata (hexit ▸ hioctl _ rfl)
    exact ⟨_, s', rfl, .write hwrites, hexit ▸ hrefines⟩

/-- **Refinement**: a run of four-byte register writes, with any stores into guest RAM between
    them and every interrupt ioctl of it a success, is a run of the specification, and the VMM takes
    every step of it. -/
theorem vmm_refines_spec (env : Env) (guest behind : Memory) (acts : List DriverAct)
    (hioctl : ∀ done v, done <+: acts →
      (vmm env).exec (boot guest behind) (done.map DriverAct.guestAct) = some v →
        v.Succeeded env) :
    ∃ v s, (vmm env).exec (boot guest behind) (acts.map DriverAct.guestAct) = some v ∧
      SpecRun env.guestMemSize.toNat (.boot guest behind) acts s ∧ Refines v s := by
  have hboot : Refines (boot guest behind) (.boot guest behind) :=
    ⟨rfl, rfl, rfl, rfl, rfl, rfl, rfl, rfl⟩
  generalize boot guest behind = v at hboot hioctl
  generalize SpecState.boot guest behind = s at hboot
  induction acts generalizing v s with
  | nil => exact ⟨v, s, rfl, .nil, hboot⟩
  | cons act acts ih =>
    obtain ⟨v', s', hstep, hspec, hrefines⟩ := step_refines hboot act fun v' hstep =>
      hioctl [act] v' (List.prefix_append [act] acts) (by
        rw [List.map_singleton, System.exec, show (vmm env).step v act.guestAct = some v' from hstep]
        rfl)
    have hstep' : (vmm env).step v act.guestAct = some v' := hstep
    obtain ⟨w, t, hexec, hrun, hfinal⟩ := ih v' (fun done w hdone hexec =>
      hioctl (act :: done) w (List.cons_prefix_cons.mpr ⟨rfl, hdone⟩) (by
        rw [List.map_cons, System.exec, hstep']
        exact hexec)) s' hrefines
    refine ⟨w, t, ?_, .cons hspec hrun, hfinal⟩
    rw [List.map_cons, System.exec, hstep']
    exact hexec

end Refinement

/-- The driver sets the DMA address, starts a transfer into the device and asks for a message. -/
def dmaThenMsi : List DriverAct :=
  [.write dmaGpaOffset 0x8000 fun _ => 0xff, .write commandOffset cmdDmaToDevice fun _ => 0,
    .write commandOffset cmdMsiOnly fun _ => 0]

/-- `KVM_IRQ_LINE` returns 0 for both levels of the edge, and `KVM_SIGNAL_MSI` 1. -/
def dmaThenMsiEnv : Env := ⟨0x20000, fun n => if n = 2 then 1 else 0⟩

theorem vmm_refines_spec_dma :
    ∃ v s, (vmm dmaThenMsiEnv).exec (boot (fun _ => 7) fun _ => 0)
        (dmaThenMsi.map DriverAct.guestAct) = some v ∧
      SpecRun dmaThenMsiEnv.guestMemSize.toNat (.boot (fun _ => 7) fun _ => 0) dmaThenMsi s ∧
        Refines v s := by
  refine vmm_refines_spec dmaThenMsiEnv _ _ dmaThenMsi fun done v hdone hexec k i hk => ?_
  have hlen : done.length < 4 := Nat.lt_succ_of_le hdone.length_le
  rw [List.prefix_iff_eq_take.mp hdone] at hexec
  have hall : ∀ n < 4, ∀ k < 3, ((vmm dmaThenMsiEnv).exec (boot (fun _ => 7) fun _ => 0)
      ((dmaThenMsi.take n).map DriverAct.guestAct)).all (fun v => v.ioctls.length ≤ 3 ∧
        (v.ioctls[k]?).all (dmaThenMsiEnv.succeeds k)) = true := by decide +kernel
  have hshort := hall done.length hlen 0 (by decide)
  rw [hexec] at hshort
  have hk3 : k < 3 := (List.getElem?_eq_some_iff.mp hk).1.trans_le (of_decide_eq_true hshort).1
  have hsucceeds := hall done.length hlen k hk3
  rw [hexec] at hsucceeds
  have hboth := (of_decide_eq_true hsucceeds).2
  rw [hk] at hboth
  exact hboth

end LinuxMaxxing.VirtIo
