import LinuxMaxxing.VirtIo.Refinement

/-!
# What the Device Learns from an Exit

`run->mmio.data` holds the bytes of the access in its first `len` places; behind them it
holds what earlier exits left. `device_mmio_write` takes four bytes whatever `len` is.

Two runs in which the guest makes the same accesses may differ in those stale bytes only.
`stale_bytes_iff` says for which access sequences the device does the same in both: those
in which `COMMAND` and `DMA_GPA` are written with at least four bytes. The `do_mmio` of
virt-virtio refuses every access of another length.
-/

namespace LinuxMaxxing.VirtIo

open LinuxMaxxing.Lib

/-! ## Runs that differ in stale bytes -/

/-- The same access of the guest: the same bytes of a write, as far as the access goes. -/
inductive SameAccess : GuestAct → GuestAct → Prop where
  | store {addr : Nat} {bytes : List UInt8} : SameAccess (.store addr bytes) (.store addr bytes)
  | mmio {m m' : Mmio} : m.physAddr = m'.physAddr → m.len = m'.len → m.isWrite = m'.isWrite →
      (m.isWrite = true → ∀ i < m.len, m.data i = m'.data i) → SameAccess (.mmio m) (.mmio m')

theorem SameAccess.refl : ∀ a : GuestAct, SameAccess a a
  | .store _ _ => .store
  | .mmio _ => .mmio rfl rfl rfl fun _ _ _ => rfl

/-- The device and the interrupts it has raised, after every act of a run. -/
def trace (env : Env) (v : Vmm) : List GuestAct → List (ToyDevice × List Ioctl)
  | [] => []
  | a :: acts =>
    match step env v a with
    | none => []
    | some v' => (v'.dev, v'.ioctls) :: trace env v' acts

/-- A write to `COMMAND` or `DMA_GPA` brings the four bytes the device takes. -/
def GuestAct.FullWidth : GuestAct → Prop
  | .store _ _ => True
  | .mmio m => m.InWindow → m.isWrite = true →
      m.offset = regCommand ∨ m.offset = regDmaGpa → 4 ≤ m.len

section StaleBytes

variable {env : Env} {v : Vmm}

/-! ## Full-width accesses -/

/-- A write to another register does not look at the bytes, and these two have them all. -/
theorem deviceMmioWrite_congr {offset : BitVec 32} {data data' : Memory}
    (h : offset = regCommand ∨ offset = regDmaGpa → data.loadLe 0 4 = data'.loadLe 0 4) :
    deviceMmioWrite env v offset data = deviceMmioWrite env v offset data' := by
  unfold deviceMmioWrite
  by_cases hgpa : offset = regDmaGpa
  · simp only [h (.inr hgpa)]
  · by_cases hcommand : offset = regCommand
    · simp only [h (.inl hcommand)]
    · simp only [if_neg hgpa, if_neg hcommand]

theorem step_congr {a a' : GuestAct} (hsame : SameAccess a a') (hwidth : a.FullWidth) :
    step env v a = step env v a' := by
  cases hsame with
  | store => rfl
  | @mmio m m' haddr hlen hwrite hdata =>
    have hwindow : m'.InWindow ↔ m.InWindow := by
      unfold Mmio.InWindow
      rw [haddr]
    have hoffset : m'.offset = m.offset := by
      unfold Mmio.offset
      rw [haddr]
    suffices hexit : mmioExit env v m = mmioExit env v m' by
      simp only [step, hexit]
    unfold mmioExit
    rw [hoffset, ← hwrite]
    by_cases hin : m.InWindow
    · rw [if_pos hin, if_pos (hwindow.mpr hin)]
      cases hw : m.isWrite with
      | false => rfl
      | true =>
        rw [if_pos rfl, if_pos rfl]
        apply deviceMmioWrite_congr
        intro hreg
        have hfull : 4 ≤ m.len := hwidth hin hw hreg
        apply Memory.loadLe_congr
        intro i _ hi
        exact hdata hw i (by omega)
    · rw [if_neg hin, if_neg (mt hwindow.mp hin)]

theorem trace_congr {acts acts' : List GuestAct} (hsame : List.Forall₂ SameAccess acts acts')
    (hwidth : ∀ a ∈ acts, a.FullWidth) : trace env v acts = trace env v acts' := by
  induction hsame generalizing v with
  | nil => rfl
  | cons hhead _ ih =>
    rw [trace, trace, step_congr hhead (hwidth _ List.mem_cons_self)]
    cases step env v _ with
    | none => rfl
    | some v' =>
      simp only
      rw [ih fun a ha => hwidth a (List.mem_cons_of_mem _ ha)]

/-! ## Short writes -/

theorem toNat_loadLe (m : Memory) : (BitVec.ofNat 32 (m.loadLe 0 4)).toNat = m.loadLe 0 4 :=
  Nat.mod_eq_of_lt (m.loadLe_lt 0 4)

theorem succeeded_of_pos (hioctl : ∀ n, 0 < env.ioctl n) (v : Vmm) : v.Succeeded env := by
  intro k i _
  cases i with
  | irqLine => exact decide_eq_true (hioctl k).le
  | signalMsi => exact decide_eq_true (hioctl k)

theorem Refines.mmioExit {s : SpecState} (hioctl : ∀ n, 0 < env.ioctl n) (h : Refines v s)
    (m : Mmio) : ∃ s', Refines (mmioExit env v m) s' := by
  unfold VirtIo.mmioExit
  split
  · split
    · obtain ⟨s', -, hs'⟩ :=
        deviceMmioWrite_refines h m.offset _ m.data (toNat_loadLe m.data).symm
          (succeeded_of_pos hioctl _)
      exact ⟨s', hs'⟩
    · refine ⟨s, ?_⟩
      unfold deviceMmioRead
      repeat' split
      all_goals
        exact ⟨h.command, h.status, h.dmaGpa, h.result, h.buffer, h.guest, h.ioctls, h.running⟩
  · exact ⟨s, h⟩

/-- With ioctls that succeed the VMM takes every act of a run. -/
theorem trace_append {s : SpecState} (hioctl : ∀ n, 0 < env.ioctl n) (h : Refines v s)
    (before : List GuestAct) :
    ∃ v' s', Refines v' s' ∧
      ∀ acts, trace env v (before ++ acts) = trace env v before ++ trace env v' acts := by
  induction before generalizing v s with
  | nil => exact ⟨v, s, h, fun _ => rfl⟩
  | cons a before ih =>
    obtain ⟨w, t, hstep, hw⟩ : ∃ w t, step env v a = some w ∧ Refines w t := by
      unfold step
      rw [if_neg (by simp [h.running])]
      cases a with
      | store addr bytes =>
        refine ⟨_, { s with guest := s.guest.storeBytes addr bytes }, rfl, h.command, h.status,
          h.dmaGpa, h.result, h.buffer, ?_, h.ioctls, h.running⟩
        show v.guest.storeBytes addr bytes = s.guest.storeBytes addr bytes
        rw [h.guest]
      | mmio m =>
        obtain ⟨t, ht⟩ := h.mmioExit hioctl m
        exact ⟨_, t, rfl, ht⟩
    obtain ⟨v', s', hs', htrace⟩ := ih hw
    refine ⟨v', s', hs', fun acts => ?_⟩
    rw [List.cons_append, trace, trace, hstep]
    simp only [htrace acts, List.cons_append]

/-- A register write stores the value it takes. -/
theorem Writes.stored {size : Nat} {s s' : SpecState} {offset value : BitVec 32}
    (h : Writes size s offset value s') :
    (offset = regCommand → s'.command = value) ∧ (offset = regDmaGpa → s'.dmaGpa = value) := by
  cases h with
  | command hreg hexec =>
    subst hreg
    refine ⟨fun _ => ?_, fun hne => absurd hne (by decide)⟩
    cases hexec <;> rfl
  | dmaGpa hreg =>
    subst hreg
    exact ⟨fun hne => absurd hne (by decide), fun _ => rfl⟩
  | irqAck hreg =>
    subst hreg
    exact ⟨fun hne => absurd hne (by decide), fun hne => absurd hne (by decide)⟩
  | other hreg =>
    exact ⟨fun heq => absurd heq (by simp_all), fun heq => absurd heq (by simp_all)⟩

/-- The access with another byte in the last of the four places. -/
def Mmio.stale (m : Mmio) : Mmio :=
  { m with data := fun i => if i = 3 then m.data 3 + 1 else m.data i }

/-- After a short write the device shows a byte the guest has not written. -/
theorem mmioExit_stale_ne {s : SpecState} (hioctl : ∀ n, 0 < env.ioctl n) (h : Refines v s)
    {m : Mmio} (hin : m.InWindow) (hwrite : m.isWrite = true)
    (hreg : m.offset = regCommand ∨ m.offset = regDmaGpa) :
    (mmioExit env v m).dev ≠ (mmioExit env v m.stale).dev := by
  have hvalue : ∀ data : Memory, ∃ s', Writes env.guestMemSize.toNat s m.offset
      (BitVec.ofNat 32 (data.loadLe 0 4)) s' ∧ Refines (deviceMmioWrite env v m.offset data) s' :=
    fun data => deviceMmioWrite_refines h _ _ _ (toNat_loadLe data).symm (succeeded_of_pos hioctl _)
  obtain ⟨t, ht, hrefines⟩ := hvalue m.data
  obtain ⟨t', ht', hrefines'⟩ := hvalue m.stale.data
  have hexit : mmioExit env v m = deviceMmioWrite env v m.offset m.data := by
    rw [mmioExit, if_pos hin, if_pos hwrite]
  have hexit' : mmioExit env v m.stale = deviceMmioWrite env v m.offset m.stale.data := by
    rw [mmioExit, if_pos (show m.stale.InWindow from hin),
      if_pos (show m.stale.isWrite = true from hwrite)]
    rfl
  intro heq
  rw [hexit, hexit'] at heq
  -- the register holds the value of all four bytes, and the last of them differs
  have hload : BitVec.ofNat 32 (m.data.loadLe 0 4) = BitVec.ofNat 32 (m.stale.data.loadLe 0 4) := by
    rcases hreg with hreg | hreg
    · rw [← ht.stored.1 hreg, ← ht'.stored.1 hreg, ← hrefines.command, ← hrefines'.command, heq]
    · rw [← ht.stored.2 hreg, ← ht'.stored.2 hreg, ← hrefines.dmaGpa, ← hrefines'.dmaGpa, heq]
  have hnat : m.data.loadLe 0 4 = m.stale.data.loadLe 0 4 := by
    rw [← toNat_loadLe m.data, hload, toNat_loadLe]
  have hbyte : m.data 3 = m.data 3 + 1 := Memory.loadLe_inj hnat (by omega) (by omega)
  exact absurd hbyte (by simp)

/-- **Stale bytes**: the device and its interrupts are the same in all runs with the same
    accesses exactly when these write `COMMAND` and `DMA_GPA` with at least four bytes. -/
theorem stale_bytes_iff (acts : List GuestAct) :
    (∀ env guest behind acts', List.Forall₂ SameAccess acts acts' →
      trace env (boot guest behind) acts = trace env (boot guest behind) acts') ↔
    ∀ a ∈ acts, a.FullWidth := by
  constructor
  · intro hsame a ha
    cases a with
    | store addr bytes => trivial
    | mmio m =>
      intro hin hwrite hreg
      by_contra hshort
      obtain ⟨before, after, rfl⟩ := List.append_of_mem ha
      have hrelated : List.Forall₂ SameAccess (before ++ .mmio m :: after)
          (before ++ .mmio m.stale :: after) := by
        have hrefl : ∀ acts, List.Forall₂ SameAccess acts acts :=
          fun acts => List.forall₂_same.mpr fun a _ => .refl a
        apply List.rel_append (hrefl before)
        refine .cons (.mmio rfl rfl rfl fun _ i hi => ?_) (hrefl after)
        exact (if_neg (by omega)).symm
      have hboot : Refines (boot (fun _ => 0) fun _ => 0) (.boot (fun _ => 0) fun _ => 0) :=
        ⟨rfl, rfl, rfl, rfl, rfl, rfl, rfl, rfl⟩
      have hioctl : ∀ n, 0 < labEnv.ioctl n := fun _ => (by decide : (0 : Int) < 1)
      obtain ⟨v, s, hv, htrace⟩ := trace_append hioctl hboot before
      have hrun := hsame labEnv (fun _ => 0) (fun _ => 0) _ hrelated
      rw [htrace, htrace] at hrun
      have hafter := List.append_cancel_left hrun
      simp only [trace, step, hv.running, Bool.false_eq_true, if_false, List.cons.injEq,
        Prod.mk.injEq] at hafter
      exact mmioExit_stale_ne hioctl hv hin hwrite hreg hafter.1.1
  · intro hwidth env guest behind acts' hsame
    exact trace_congr hsame hwidth

end StaleBytes

/-- A one-byte write of `CMD_IRQ_ONLY` to `COMMAND`. -/
def shortCommand (stale : UInt8) : Mmio :=
  ⟨0x10000000, fun i => if i = 0 then 1 else stale, 1, true, byte_pos, byte_le⟩

/-- Over zero bytes it runs the command; over other bytes it is an unknown command, and the
    device answers with an error and no interrupt. -/
theorem shortCommand_trace_ne :
    SameAccess (.mmio (shortCommand 0)) (.mmio (shortCommand 1)) ∧
      ∃ d d', trace labEnv (boot (fun _ => 0) fun _ => 0) [.mmio (shortCommand 0)] =
          [(d, [.irqLine deviceGsi 1, .irqLine deviceGsi 0])] ∧ d.status = statusDone ∧
        trace labEnv (boot (fun _ => 0) fun _ => 0) [.mmio (shortCommand 1)] = [(d', [])] ∧
        d'.status = statusError := by
  refine ⟨.mmio rfl rfl rfl ?_, _, _, rfl, rfl, rfl, rfl⟩
  intro _ i hi
  have hzero : i = 0 := Nat.lt_one_iff.mp hi
  subst hzero
  rfl

end LinuxMaxxing.VirtIo
