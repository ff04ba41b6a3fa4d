import LinuxMaxxing.VirtIo.ToyDevice

/-!
# Accesses of the Toy Device Stay Confined

The guest controls the offset of an MMIO access, the DMA address and the command, and they
are checked in different functions. `accesses_confined_iff` says when every access the
device makes to its buffer and to guest RAM stays inside: in every run in which the guest
does not read at one of the last three offsets of the readback window.

The `do_mmio` of virt-virtio refuses such a read: it asks for four bytes, aligned, that
end inside the window.
-/

namespace LinuxMaxxing.VirtIo

open LinuxMaxxing.Lib

/-! ## Confinement -/

/-- Every index of the access is inside its region. -/
def Touch.Confined (env : Env) (t : Touch) : Prop :=
  t.access.Within 0 (match t.region with
    | .buffer => deviceBufferSize
    | .guest => env.guestMemSize.toNat)

instance (env : Env) (t : Touch) : Decidable (t.Confined env) :=
  inferInstanceAs (Decidable (Access.Within _ _ _))

/-- A read whose four bytes begin in the readback window and end behind it. -/
def GuestAct.ReadsPastBuffer : GuestAct → Prop
  | .store _ _ => False
  | .mmio m =>
    m.InWindow ∧ m.isWrite = false ∧ regBuffer.toNat + deviceBufferSize < m.offset.toNat + 4

instance : (a : GuestAct) → Decidable a.ReadsPastBuffer
  | .store _ _ => inferInstanceAs (Decidable False)
  | .mmio _ => inferInstanceAs (Decidable (_ ∧ _ ∧ _))

/-- All accesses the device has made are confined. -/
def Vmm.Confined (env : Env) (v : Vmm) : Prop := ∀ t ∈ v.touched, t.Confined env

@[simp] theorem confined_buffer {env : Env} {dir : Direction} {addr len : Nat} :
    Touch.Confined env ⟨.buffer, ⟨dir, addr, len⟩⟩ ↔ addr + len ≤ deviceBufferSize := by
  simp [Touch.Confined, Access.Within]

@[simp] theorem confined_guest {env : Env} {dir : Direction} {addr len : Nat} :
    Touch.Confined env ⟨.guest, ⟨dir, addr, len⟩⟩ ↔ addr + len ≤ env.guestMemSize.toNat := by
  simp [Touch.Confined, Access.Within]

@[simp] theorem Vmm.confined_touch {env : Env} {v : Vmm} {region : Region} {dir : Direction}
    {addr len : Nat} :
    (v.touch region dir addr len).Confined env ↔
      v.Confined env ∧ Touch.Confined env ⟨region, ⟨dir, addr, len⟩⟩ := by
  simp only [Vmm.Confined, Vmm.touch, List.mem_append, List.mem_singleton]
  constructor
  · intro h
    exact ⟨fun t ht => h t (.inl ht), h _ (.inr rfl)⟩
  · rintro ⟨hv, hnew⟩ t (ht | rfl)
    · exact hv t ht
    · exact hnew

section Confinement

variable {env : Env}

/-! ## The functions of the device -/

/-- The two range checks leave a transfer inside the buffer and inside guest RAM. -/
theorem deviceDmaTransfer_confined (v : Vmm) (dir : BitVec 32) (gpa : BitVec 64)
    (len : BitVec 32) : (deviceDmaTransfer env v dir gpa len).2.Confined env ↔ v.Confined env := by
  unfold deviceDmaTransfer
  split
  · exact Iff.rfl
  · rename_i hlen
    split
    · exact Iff.rfl
    · rename_i hrange
      have hbuf : len.toNat ≤ deviceBufferSize := by
        have := not_or.mp hlen
        omega
      -- the sum does not wrap, so it is the end of the range in guest RAM
      have hend : gpa.toNat + len.toNat ≤ env.guestMemSize.toNat := by
        obtain ⟨hwrap, hsize⟩ := not_or.mp hrange
        simp only [BitVec.lt_def, BitVec.toNat_add, BitVec.toNat_setWidth] at hwrap hsize
        omega
      split
      · show (((v.touch .guest .read gpa.toNat len.toNat).touch .buffer .write 0
          len.toNat).touch .buffer .read 0 len.toNat).Confined env ↔ _
        simp [hbuf, hend]
      · split
        · show (((v.touch .buffer .read 0 len.toNat).touch .guest .write gpa.toNat
            len.toNat).touch .buffer .read 0 len.toNat).Confined env ↔ _
          simp [hbuf, hend]
        · exact Iff.rfl

/-- A command accesses memory only through its transfer. -/
theorem deviceExecuteCommand_confined (v : Vmm) :
    (deviceExecuteCommand env v).Confined env ↔ v.Confined env := by
  have hdispatch : (dispatchCommand env (v.setStatus statusBusy)).2.Confined env ↔
      v.Confined env := by
    unfold dispatchCommand
    split
    · exact Iff.rfl
    · split
      · exact deviceDmaTransfer_confined (v.setStatus statusBusy) _ _ _
      · exact Iff.rfl
  rw [← hdispatch]
  unfold deviceExecuteCommand
  simp only
  split
  · exact Iff.rfl
  · split <;> exact Iff.rfl

theorem deviceMmioWrite_confined (v : Vmm) (offset : BitVec 32) (data : Memory) :
    (deviceMmioWrite env v offset data).Confined env ↔ v.Confined env := by
  unfold deviceMmioWrite
  simp only
  split
  · exact Iff.rfl
  · split
    · rw [deviceExecuteCommand_confined]
      exact Iff.rfl
    · split <;> exact Iff.rfl

/-- A register read accesses the buffer only in the readback window, and there it takes
    four bytes from the offset on, also where fewer are left. -/
theorem deviceMmioRead_confined (v : Vmm) (offset : BitVec 32)
    (hwindow : offset.toNat < regBuffer.toNat + deviceBufferSize) :
    (deviceMmioRead v offset).1.Confined env ↔
      v.Confined env ∧ offset.toNat + 4 ≤ regBuffer.toNat + deviceBufferSize := by
  unfold deviceMmioRead
  by_cases hbuffer : regBuffer ≤ offset
  · have hle : regBuffer.toNat ≤ offset.toNat := hbuffer
    have hindex : (offset - regBuffer).toNat = offset.toNat - regBuffer.toNat :=
      BitVec.toNat_sub_of_le hbuffer
    -- the registers lie below the window
    have hregister : ∀ reg : BitVec 32, reg.toNat < regBuffer.toNat → offset ≠ reg := by
      rintro reg hreg rfl
      omega
    rw [if_neg (hregister regCommand (by decide)), if_neg (hregister regStatus (by decide)),
      if_neg (hregister regDmaGpa (by decide)), if_neg (hregister regResult (by decide)),
      if_pos ⟨hbuffer, hwindow⟩, Vmm.confined_touch, confined_buffer, hindex]
    exact and_congr Iff.rfl (by omega)
  · have hlt : offset.toNat < regBuffer.toNat := not_le.mp hbuffer
    have hfits : offset.toNat + 4 ≤ regBuffer.toNat + deviceBufferSize := by
      have : deviceBufferSize = 256 := rfl
      omega
    simp only [hbuffer, false_and, if_false, hfits, and_true]
    repeat' split
    all_goals exact Iff.rfl

/-! ## Runs -/

/-- One step keeps the accesses confined exactly when it is no read past the buffer. -/
theorem step_confined {v v' : Vmm} {a : GuestAct} (hstep : step env v a = some v') :
    v'.Confined env ↔ v.Confined env ∧ ¬ a.ReadsPastBuffer := by
  unfold step at hstep
  split at hstep
  · cases hstep
  · cases a with
    | store addr bytes =>
      cases hstep
      simp only [GuestAct.ReadsPastBuffer, not_false_eq_true, and_true]
      exact Iff.rfl
    | mmio m =>
      cases hstep
      simp only [GuestAct.ReadsPastBuffer, mmioExit]
      by_cases hwindow : m.InWindow
      · rw [if_pos hwindow]
        cases hwrite : m.isWrite with
        | true => simp [deviceMmioWrite_confined]
        | false =>
          have hoffset : m.offset.toNat < regBuffer.toNat + deviceBufferSize := by
            obtain ⟨hlo, hhi⟩ := hwindow
            rw [Mmio.InWindow.offset_toNat ⟨hlo, hhi⟩]
            exact Nat.sub_lt_left_of_lt_add hlo hhi
          simp [deviceMmioRead_confined v m.offset hoffset, hwindow]
      · simp [hwindow]

/-- **Confinement**: every access of the device to its buffer and to guest RAM stays inside
    exactly in the runs in which the guest reads at no offset with fewer than four bytes of
    the buffer behind it. -/
theorem accesses_confined_iff (env : Env) (guest behind : Memory) (acts : List GuestAct)
    (v : Vmm) (hrun : (vmm env).exec (boot guest behind) acts = some v) :
    v.Confined env ↔ ∀ a ∈ acts, ¬ a.ReadsPastBuffer := by
  have hgen : ∀ w, (vmm env).exec w acts = some v →
      (v.Confined env ↔ w.Confined env ∧ ∀ a ∈ acts, ¬ a.ReadsPastBuffer) := by
    clear hrun
    induction acts with
    | nil =>
      rintro w hw
      cases hw
      simp
    | cons a acts ih =>
      intro w hw
      simp only [System.exec] at hw
      cases hs : (vmm env).step w a with
      | none => simp [hs] at hw
      | some w' =>
        rw [hs] at hw
        rw [ih w' hw, step_confined hs, List.forall_mem_cons, and_assoc]
  rw [hgen _ hrun]
  exact and_iff_right fun t ht => absurd ht (List.not_mem_nil)

end Confinement

/-- A DMA command, then the readback of the last four bytes of the buffer. -/
def dmaAndReadback : List GuestAct :=
  [.mmio ⟨0x10000000, fun i => if i = 0 then 2 else 0, 4, true, register_pos, register_le⟩,
    .mmio ⟨0x10000114, fun _ => 0, 4, false, register_pos, register_le⟩]

theorem accesses_confined_iff_readback :
    ∃ v, (vmm labEnv).exec (boot (fun _ => 0) fun _ => 0) dmaAndReadback = some v ∧
      v.Confined labEnv := by
  refine ⟨_, rfl, ?_⟩
  apply (accesses_confined_iff labEnv (fun _ => 0) (fun _ => 0) dmaAndReadback _ rfl).mpr
  decide

/-- A one-byte read at the last offset of the readback window. -/
def readLastByte : Mmio := ⟨0x10000117, fun _ => 0, 1, false, byte_pos, byte_le⟩

/-- It lies in the device window, and takes three bytes from behind the buffer. -/
theorem readLastByte_not_confined :
    ∃ v, (vmm labEnv).exec (boot (fun _ => 0) fun _ => 0) [.mmio readLastByte] = some v ∧
      readLastByte.InWindow ∧ ¬ v.Confined labEnv := by
  refine ⟨_, rfl, by decide, ?_⟩
  intro hconfined
  have h := hconfined ⟨.buffer, ⟨.read, 255, 4⟩⟩ (by decide)
  exact absurd h (by decide)

end LinuxMaxxing.VirtIo
