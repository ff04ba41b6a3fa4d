import LinuxMaxxing.Virtio.GuestDriver

/-!
# The Queue as the Guest Builds It

The memory that guest and device share, in terms of the requests: `Requests m d o p u` says that
the first `d` descriptors and the first `o` entries of the available ring are as the driver wants
them, and that `p` requests are published and `u` of them completed.

The straight pieces of the program that only work on memory are run by `runMemory`, and each moves
one of the four numbers; `Requests.serve` is what `process_queue` does to them.
-/

namespace LinuxMaxxing.Virtio

open LinuxMaxxing.Lib

/-- A straight piece of the program that works on memory only, if all it expects is there. -/
def runMemory (m : Memory) : List Insn → Option Memory
  | [] => some m
  | .store addr len value :: rest => runMemory (m.storeLe addr len value) rest
  | .zero addr len :: rest => runMemory (m.storeBytes addr (List.replicate len 0)) rest
  | .expect addr len value _ :: rest =>
    if m.loadLe addr len = value then runMemory m rest else none
  | _ => none

theorem runMemory_append {m m' : Memory} {code code' : List Insn}
    (h : runMemory m code = some m') : runMemory m (code ++ code') = runMemory m' code' := by
  induction code generalizing m with
  | nil =>
    cases h
    rfl
  | cons insn rest ih =>
    cases insn with
    | store addr len value => exact ih h
    | zero addr len => exact ih h
    | expect addr len value l =>
      simp only [runMemory] at h
      split at h
      · next hexpect =>
        simp only [List.cons_append, runMemory, if_pos hexpect]
        exact ih h
      · cases h
    | _ => cases h

/-! ## Straight pieces -/

/-- From `P` the piece runs to its end, and there `Q` holds. -/
def RunsMemory (P : Memory → Prop) (c : List Insn) (Q : Memory → Prop) : Prop :=
  ∀ m, P m → ∃ m', runMemory m c = some m' ∧ Q m'

namespace RunsMemory

variable {P Q R : Memory → Prop} {c d : List Insn}

theorem append (h : RunsMemory P c Q) (h' : RunsMemory Q d R) :
    RunsMemory P (c ++ d) R := by
  intro m hm
  obtain ⟨m', hrun, hQ⟩ := h m hm
  obtain ⟨m'', hrun', hR⟩ := h' m' hQ
  refine ⟨m'', ?_, hR⟩
  rw [runMemory_append hrun]
  exact hrun'

theorem store {addr len value : Nat} (h : ∀ m, P m → Q (m.storeLe addr len value)) :
    RunsMemory P [.store addr len value] Q :=
  fun m hm => ⟨_, rfl, h m hm⟩

theorem zero {addr len : Nat} (h : ∀ m, P m → Q (m.storeBytes addr (List.replicate len 0))) :
    RunsMemory P [.zero addr len] Q :=
  fun m hm => ⟨_, rfl, h m hm⟩

theorem expect {addr len value : Nat} {l : Label} (h : ∀ m, P m → m.loadLe addr len = value) :
    RunsMemory P [.expect addr len value l] P := by
  intro m hm
  refine ⟨m, ?_, hm⟩
  simp only [runMemory, if_pos (h m hm)]

end RunsMemory

/-! ## Reading the queue -/

/-- The `i`-th request: the whole of the `i`-th entropy buffer. -/
def request (i : Nat) : VirtqDesc where
  addr := BitVec.ofNat 64 (virtioRngBufferGpa + i * virtioRngBufferStride)
  len := BitVec.ofNat 32 virtioRngRequestLen
  flags := virtqDescFWrite
  next := 0

/-- `m` below the descriptor table, and above it `d` descriptors, `o` entries offered, `p`
    requests published and `u` completed. -/
structure Requests (m₀ : Memory) (d o p u : Nat) (m : Memory) : Prop where
  below : ∀ j < virtqDescGpa, m j = m₀ j
  desc : ∀ i < d, descAt m i = request i
  ring : ∀ i < o, availRing m i = BitVec.ofNat 16 i
  availLoad : m.loadLe (virtqAvailGpa + virtqAvailIdxOffset) 2 = p
  usedLoad : m.loadLe (virtqUsedGpa + virtqUsedIdxOffset) 2 = u
  elems : ∀ i < u, usedElem m i = ⟨i, virtioRngRequestLen⟩

section Congr

variable {m m' : Memory} {i : Nat}

/-- A descriptor depends on its own bytes only. -/
theorem descAt_congr
    (h : ∀ j, virtqDescGpa + virtqDescSize * i ≤ j →
      j < virtqDescGpa + virtqDescSize * i + virtqDescSize → m j = m' j) :
    descAt m i = descAt m' i := by
  simp only [virtqDescSize] at h
  unfold descAt
  simp only [virtqDescSize, virtqDescAddrOffset, virtqDescLenOffset, virtqDescFlagsOffset,
    virtqDescNextOffset]
  rw [Memory.loadLe_congr fun j hlo hhi => h j (by omega) (by omega),
    Memory.loadLe_congr (n := 4) fun j hlo hhi => h j (by omega) (by omega),
    Memory.loadLe_congr (n := 2) fun j hlo hhi => h j (by omega) (by omega),
    Memory.loadLe_congr (n := 2) fun j hlo hhi => h j (by omega) (by omega)]

theorem availRing_congr
    (h : ∀ j, virtqAvailGpa + virtqAvailRingOffset + 2 * i ≤ j →
      j < virtqAvailGpa + virtqAvailRingOffset + 2 * i + 2 → m j = m' j) :
    availRing m i = availRing m' i := by
  unfold availRing
  rw [Memory.loadLe_congr h]

theorem usedElem_congr
    (h : ∀ j, usedElemAddr i ≤ j → j < usedElemAddr i + virtqUsedElemSize → m j = m' j) :
    usedElem m i = usedElem m' i := by
  simp only [virtqUsedElemSize] at h
  unfold usedElem
  simp only [virtqUsedElemIdOffset, virtqUsedElemLenOffset]
  rw [Memory.loadLe_congr (n := 4) fun j hlo hhi => h j (by omega) (by omega),
    Memory.loadLe_congr (n := 4) fun j hlo hhi => h j (by omega) (by omega)]

end Congr

/-! ## Steps of the driver -/

/-- The five stores of `describe i`. -/
def described (m : Memory) (i : Nat) : Memory :=
  let desc := virtqDescGpa + virtqDescSize * i
  ((((m.storeLe (desc + virtqDescAddrOffset) 4
    (virtioRngBufferGpa + i * virtioRngBufferStride)).storeLe
    (desc + virtqDescAddrOffset + 4) 4 0).storeLe
    (desc + virtqDescLenOffset) 4 virtioRngRequestLen).storeLe
    (desc + virtqDescFlagsOffset) 2 virtqDescFWrite.toNat).storeLe
    (desc + virtqDescNextOffset) 2 0

theorem descAt_described (m : Memory) {i : Nat} (hi : i < virtqSize) :
    descAt (described m i) i = request i := by
  simp only [virtqSize] at hi
  have hbuffer : virtioRngBufferGpa + i * virtioRngBufferStride < 256 ^ 4 := by
    simp only [virtioRngBufferGpa, virtioRngBufferStride]
    omega
  unfold descAt described
  simp only [virtqDescAddrOffset, virtqDescLenOffset, virtqDescFlagsOffset, virtqDescNextOffset,
    Nat.add_zero]
  -- the address is written in two halves
  rw [Memory.loadLe_add _ _ 4 4]
  simp (disch := omega) only [Memory.loadLe_storeLe_of_disjoint]
  rw [Memory.loadLe_storeLe _ _ hbuffer, Memory.loadLe_storeLe _ _ (by decide),
    Memory.loadLe_storeLe _ _ (by decide), Memory.loadLe_storeLe _ _ (by decide),
    Memory.loadLe_storeLe _ _ (by decide)]
  rfl

namespace Requests

variable {m₀ m : Memory} {d o p u : Nat}

/-- A store above what is described and beside what is offered. -/
theorem store {addr len value p' : Nat} (h : Requests m₀ d o p u m)
    (hdesc : virtqDescGpa + virtqDescSize * d ≤ addr)
    (hring : virtqAvailGpa + virtqAvailRingOffset + 2 * o ≤ addr ∨
      addr + len ≤ virtqAvailGpa + virtqAvailRingOffset)
    (hused : addr + len ≤ virtqUsedGpa)
    (hidx : (m.storeLe addr len value).loadLe (virtqAvailGpa + virtqAvailIdxOffset) 2 = p') :
    Requests m₀ d o p' u (m.storeLe addr len value) := by
  have hframe : ∀ j, j < addr ∨ addr + len ≤ j → m.storeLe addr len value j = m j := by
    intro j hj
    apply Memory.storeBytes_frame
    rw [Memory.length_leBytes]
    exact hj
  simp only [virtqDescSize] at hdesc
  constructor
  · intro j hj
    rw [hframe j (by omega), h.below j hj]
  · intro i hi
    rw [← h.desc i hi]
    apply descAt_congr
    intro j _ hj
    simp only [virtqDescSize] at hj
    exact hframe j (by omega)
  · intro i hi
    rw [← h.ring i hi]
    apply availRing_congr
    intro j hlo hhi
    exact hframe j (by omega)
  · exact hidx
  · rw [← h.usedLoad]
    apply Memory.loadLe_congr
    intro j hj _
    exact hframe j (by omega)
  · intro i hi
    rw [← h.elems i hi]
    apply usedElem_congr
    intro j hj _
    simp only [usedElemAddr] at hj
    exact hframe j (by omega)

/-- A store beside `avail->idx` keeps the number of published requests. -/
theorem storeBeside {addr len value : Nat} (h : Requests m₀ d o p u m)
    (hdesc : virtqDescGpa + virtqDescSize * d ≤ addr)
    (hring : virtqAvailGpa + virtqAvailRingOffset + 2 * o ≤ addr ∨
      addr + len ≤ virtqAvailGpa + virtqAvailIdxOffset)
    (hused : addr + len ≤ virtqUsedGpa) : Requests m₀ d o p u (m.storeLe addr len value) := by
  simp only [virtqAvailRingOffset, virtqAvailIdxOffset] at hring
  apply h.store hdesc
  · simp only [virtqAvailRingOffset]
    omega
  · exact hused
  · rw [Memory.loadLe_storeLe_of_disjoint, h.availLoad]
    simp only [virtqAvailIdxOffset]
    omega

/-- The three pages are cleared. -/
theorem zeroed : RunsMemory (· = m₀) queueMemory (Requests m₀ 0 0 0 0) := by
  rintro m rfl
  refine ⟨_, rfl, ?_⟩
  constructor
  · intro j hj
    simp only [virtqDescGpa, virtqAvailGpa, virtqUsedGpa, virtqPageSize] at hj ⊢
    rw [Memory.storeBytes_frame _ (by rw [List.length_replicate]; omega),
      Memory.storeBytes_frame _ (by rw [List.length_replicate]; omega),
      Memory.storeBytes_frame _ (by rw [List.length_replicate]; omega)]
  · intro i hi
    exact absurd hi (Nat.not_lt_zero i)
  · intro i hi
    exact absurd hi (Nat.not_lt_zero i)
  · apply Memory.loadLe_zeroed
    intro i hlo hhi
    simp only [virtqAvailGpa, virtqAvailIdxOffset, virtqUsedGpa, virtqPageSize] at hlo hhi ⊢
    rw [Memory.storeBytes_frame _ (by rw [List.length_replicate]; omega),
      Memory.storeBytes_zero _ (by omega) (by omega)]
  · apply Memory.loadLe_zeroed
    intro i hlo hhi
    simp only [virtqUsedGpa, virtqUsedIdxOffset, virtqPageSize] at hlo hhi ⊢
    rw [Memory.storeBytes_zero _ (by omega) (by omega)]
  · intro i hi
    exact absurd hi (Nat.not_lt_zero i)

/-- Another descriptor. -/
theorem describe (hd : d < virtqSize) :
    RunsMemory (Requests m₀ d o p u) (describe d) (Requests m₀ (d + 1) o p u) := by
  intro m h
  refine ⟨described m d, rfl, ?_⟩
  have hkeep : Requests m₀ d o p u (described m d) := by
    apply storeBeside (storeBeside (storeBeside (storeBeside (storeBeside h ..) ..) ..) ..)
    all_goals
      simp only [virtqSize, virtqDescGpa, virtqDescSize, virtqDescAddrOffset, virtqDescLenOffset,
        virtqDescFlagsOffset, virtqDescNextOffset, virtqAvailGpa, virtqAvailIdxOffset,
        virtqAvailRingOffset, virtqUsedGpa] at hd ⊢
      omega
  refine { hkeep with desc := fun i hi => ?_ }
  rcases Nat.lt_succ_iff_lt_or_eq.mp hi with hold | rfl
  · exact hkeep.desc i hold
  · exact descAt_described m hd

/-- Another entry of the available ring. -/
theorem offer (hd : d ≤ virtqSize) (ho : o < virtqSize) :
    RunsMemory (Requests m₀ d o p u) [offer o] (Requests m₀ d (o + 1) p u) := by
  apply RunsMemory.store
  intro m h
  simp only [virtqSize] at hd ho
  have hkeep : Requests m₀ d o p u
      (m.storeLe (virtqAvailGpa + virtqAvailRingOffset + 2 * o) 2 o) := by
    apply storeBeside h
    all_goals
      simp only [virtqDescGpa, virtqDescSize, virtqAvailGpa, virtqAvailIdxOffset,
        virtqAvailRingOffset, virtqUsedGpa]
      omega
  refine { hkeep with ring := fun i hi => ?_ }
  rcases Nat.lt_succ_iff_lt_or_eq.mp hi with hold | rfl
  · exact hkeep.ring i hold
  · unfold availRing
    rw [Memory.loadLe_storeLe _ _ (by omega)]

/-- Entries are offered without being published. -/
theorem publishAvail {n : Nat} (hd : d ≤ virtqSize) (hn : n < 2 ^ 16) :
    RunsMemory (Requests m₀ d o p u) [publishAvail n] (Requests m₀ d o n u) := by
  apply RunsMemory.store
  intro m h
  simp only [virtqSize] at hd
  apply h.store
  · simp only [virtqDescGpa, virtqDescSize, virtqAvailGpa, virtqAvailIdxOffset]
    omega
  · right
    simp only [virtqAvailIdxOffset, virtqAvailRingOffset]
    omega
  · decide
  · exact Memory.loadLe_storeLe _ _ (by omega)

theorem expectAvail {l : Label} :
    RunsMemory (Requests m₀ d o p u) [.expect (virtqAvailGpa + virtqAvailIdxOffset) 2 p l]
      (Requests m₀ d o p u) :=
  .expect fun _ h => h.availLoad

theorem expectUsedIdx {l : Label} :
    RunsMemory (Requests m₀ d o p u) [.expect (virtqUsedGpa + virtqUsedIdxOffset) 2 u l]
      (Requests m₀ d o p u) :=
  .expect fun _ h => h.usedLoad

/-- A completed request is found completed. -/
theorem expectUsed {i : Nat} (hi : i < u) :
    RunsMemory (Requests m₀ d o p u) (expectUsed i) (Requests m₀ d o p u) := by
  refine RunsMemory.append (c := [_]) (.expect fun m h => ?_) (.expect fun m h => ?_)
  · exact congrArg VirtqUsedElem.id (h.elems i hi)
  · exact congrArg VirtqUsedElem.len (h.elems i hi)

/-- What lies below the descriptor table may change. -/
theorem rebase {m' : Memory} (h : Requests m₀ d o p u m)
    (hframe : ∀ j, virtqDescGpa ≤ j → m' j = m j) : Requests m' d o p u m' := by
  constructor
  · intro _ _
    rfl
  · intro i hi
    rw [← h.desc i hi]
    apply descAt_congr
    intro j hj _
    exact hframe j (by omega)
  · intro i hi
    rw [← h.ring i hi]
    apply availRing_congr
    intro j hj _
    simp only [virtqAvailGpa] at hj
    exact hframe j (by simp only [virtqDescGpa]; omega)
  · rw [← h.availLoad]
    apply Memory.loadLe_congr
    intro j hj _
    simp only [virtqAvailGpa] at hj
    exact hframe j (by simp only [virtqDescGpa]; omega)
  · rw [← h.usedLoad]
    apply Memory.loadLe_congr
    intro j hj _
    simp only [virtqUsedGpa] at hj
    exact hframe j (by simp only [virtqDescGpa]; omega)
  · intro i hi
    rw [← h.elems i hi]
    apply usedElem_congr
    intro j hj _
    simp only [usedElemAddr, virtqUsedGpa] at hj
    exact hframe j (by simp only [virtqDescGpa]; omega)

/-! ## The three notifications -/

/-- Everything before the first notification: one request. -/
theorem first : RunsMemory (Requests m₀ 0 0 0 0)
    (Virtio.describe 0 ++ [.store (virtqAvailGpa + virtqAvailFlagsOffset) 2 0] ++
      [Virtio.publishAvail 0] ++ [Virtio.offer 0] ++ [Virtio.publishAvail 1])
    (Requests m₀ 1 1 1 0) := by
  have hflags : RunsMemory (Requests m₀ 1 0 0 0)
      [.store (virtqAvailGpa + virtqAvailFlagsOffset) 2 0] (Requests m₀ 1 0 0 0) :=
    .store fun _ h => h.storeBeside (by decide) (by decide) (by decide)
  have hempty : RunsMemory (Requests m₀ 0 0 0 0) _ (Requests m₀ 1 0 0 0) :=
    ((describe (by decide)).append hflags).append (publishAvail (by decide) (by decide))
  exact (hempty.append (offer (by decide) (by decide))).append
    (publishAvail (by decide) (by decide))

/-- Everything between the first and the second notification: four more. -/
theorem second {l : Label} : RunsMemory (Requests m₀ 1 1 1 1)
    (Virtio.expectUsed 0 ++ Virtio.describe 1 ++ Virtio.describe 2 ++ Virtio.describe 3 ++
      Virtio.describe 4 ++ [Virtio.offer 1] ++ [Virtio.offer 2] ++ [Virtio.offer 3] ++
      [Virtio.offer 4] ++ [.expect (virtqAvailGpa + virtqAvailIdxOffset) 2 1 l] ++
      [Virtio.publishAvail virtioRngRequestCount.toNat])
    (Requests m₀ 5 5 5 1) := by
  have hused : RunsMemory (Requests m₀ 1 1 1 1) (Virtio.expectUsed 0) (Requests m₀ 1 1 1 1) :=
    expectUsed (by decide)
  have hdescribe : RunsMemory (Requests m₀ 1 1 1 1) _ (Requests m₀ 5 1 1 1) :=
    (((hused.append (describe (by decide))).append (describe (by decide))).append
      (describe (by decide))).append (describe (by decide))
  have hoffer : RunsMemory (Requests m₀ 1 1 1 1) _ (Requests m₀ 5 5 1 1) :=
    (((hdescribe.append (offer (by decide) (by decide))).append
      (offer (by decide) (by decide))).append (offer (by decide) (by decide))).append
      (offer (by decide) (by decide))
  exact (hoffer.append expectAvail).append (publishAvail (by decide) (by decide))

/-- Everything between the interrupt set-up and the third notification: the last one. -/
theorem third {l : Label} : RunsMemory (Requests m₀ 5 5 5 5)
    (Virtio.describe virtioIoeventfdDescIndex ++ [Virtio.offer virtioIoeventfdDescIndex] ++
      [.expect (virtqAvailGpa + virtqAvailIdxOffset) 2 virtioRngRequestCount.toNat l] ++
      [Virtio.publishAvail virtioTotalRequestCount.toNat])
    (Requests m₀ 6 6 6 5) :=
  (((describe (by decide)).append (offer (by decide) (by decide))).append expectAvail).append
    (publishAvail (by decide) (by decide))

end Requests

/-! ## What the device does with it -/

/-- Numbers of requests as the driver keeps them. -/
structure Ordered (d o p u : Nat) : Prop where
  completed : u ≤ p
  described : p ≤ d
  offered : p ≤ o
  descFits : d ≤ virtqSize
  ringFits : o ≤ virtqSize

/-- Somewhere `getrandom` leaves a request without its bytes. -/
def RandomSource.Starves (src : RandomSource) : Prop :=
  ∃ n n', Fill src n virtioRngRequestLen false n'

/-- Valid entries are all served, or one of them is starved. -/
theorem Serves.all_or_starves {src : RandomSource} {m : Memory} {n : Nat}
    {pending done : List (BitVec 16)} (h : Serves src m n pending done)
    (hvalid : ∀ head ∈ pending, ValidEntry m head) : done = pending ∨ src.Starves := by
  induction h with
  | all => exact .inl rfl
  | invalid hinvalid => exact absurd (hvalid _ (List.mem_cons_self ..)) hinvalid
  | starved _ hfill => exact .inr ⟨_, _, hfill⟩
  | serve _ _ _ ih =>
    rcases ih fun head hmem => hvalid head (List.mem_cons_of_mem _ hmem) with rfl | hstarves
    · exact .inl rfl
    · exact .inr hstarves

/-- A small index is its own slot. -/
theorem ringSlot_ofNat {i : Nat} (hi : i < virtqSize) : ringSlot (BitVec.ofNat 16 i) = i := by
  simp only [ringSlot, BitVec.toNat_ofNat, virtqSize] at hi ⊢
  omega

namespace Requests

variable {m₀ m m' : Memory} {d o p u : Nat}

theorem pendingHeads_eq (h : Requests m₀ d o p u m) (ho : o ≤ virtqSize) {last n : Nat}
    (hlast : last + n ≤ o) :
    pendingHeads m (BitVec.ofNat 16 last) n = (List.range' last n).map (BitVec.ofNat 16) := by
  induction n generalizing last with
  | zero => rfl
  | succ n ih =>
    have hsucc : BitVec.ofNat 16 last + 1 = BitVec.ofNat 16 (last + 1) :=
      (BitVec.ofNat_add last 1).symm
    rw [pendingHeads, ringSlot_ofNat (by omega), h.ring last (by omega), hsucc,
      ih (by omega), List.range'_succ, List.map_cons]

/-- A described request is what the device accepts. -/
theorem validEntry (h : Requests m₀ d o p u m) (hd : d ≤ virtqSize) {i : Nat} (hi : i < d) :
    ValidEntry m (BitVec.ofNat 16 i) := by
  have hnat : (BitVec.ofNat 16 i).toNat = i := by
    simp only [BitVec.toNat_ofNat, virtqSize] at hd ⊢
    omega
  refine ⟨?_, ?_⟩
  · rw [hnat]
    omega
  · rw [hnat, h.desc i hi]
    rfl

/-- The device reads as many as are published and not completed. -/
theorem pending_eq (h : Requests m₀ d o p u m) (hord : Ordered d o p u) :
    (availIdx m - BitVec.ofNat 16 u).toNat = p - u := by
  have hup := hord.completed
  have hpo := hord.offered
  have ho := hord.ringFits
  simp only [virtqSize] at ho
  rw [availIdx, h.availLoad]
  simp only [BitVec.toNat_sub, BitVec.toNat_ofNat]
  omega

/-- Completions of all that is published. -/
theorem published (h : Requests m₀ d o p u m) (hord : Ordered d o p u)
    (hpub : Published m m' ((List.range' u (p - u)).map (BitVec.ofNat 16))) :
    Requests m₀ d o p p m' := by
  obtain ⟨hup, hpd, hpo, hd, ho⟩ := hord
  have hslot : ∀ k < p - u, ringSlot (usedIdx m + BitVec.ofNat 16 k) = u + k := by
    intro k hk
    rw [usedIdx, h.usedLoad, ← BitVec.ofNat_add, ringSlot_ofNat (by omega)]
  have hlow : ∀ j < virtqUsedGpa, m' j = m j := fun j hj => hpub.frame j (not_changeable hj)
  constructor
  · intro j hj
    rw [hlow j (lt_trans hj (by decide)), h.below j hj]
  · intro i hi
    rw [(guest_rings_congr hpub.frame).1 i (by omega), h.desc i hi]
  · intro i hi
    rw [(guest_rings_congr hpub.frame).2 i (by omega), h.ring i hi]
  · rw [← h.availLoad]
    apply Memory.loadLe_congr
    intro j _ hj
    exact hlow j (lt_of_lt_of_le hj (by decide))
  · have hidx := congrArg BitVec.toNat hpub.idx
    have hlt := Memory.loadLe_lt m' (virtqUsedGpa + virtqUsedIdxOffset) 2
    rw [usedIdx, usedIdx, h.usedLoad, List.length_map, List.length_range', ← BitVec.ofNat_add]
      at hidx
    simp only [BitVec.toNat_ofNat, virtqSize] at hidx ho
    omega
  · intro i hi
    by_cases hold : i < u
    · -- an earlier completion keeps its slot
      rw [hpub.others i (by omega), h.elems i hold]
      intro k hk
      rw [List.length_map, List.length_range'] at hk
      rw [hslot k hk]
      omega
    · obtain ⟨k, rfl⟩ := Nat.exists_eq_add_of_le (Nat.not_lt.mp hold)
      have hk : k < p - u := by omega
      have helem := hpub.elems k (by rw [List.length_map, List.length_range']; exact hk)
      rw [hslot k hk] at helem
      rw [helem]
      simp only [List.getElem_map, List.getElem_range', Nat.one_mul, BitVec.toNat_ofNat,
        VirtqUsedElem.mk.injEq, and_true]
      simp only [virtqSize] at ho
      omega

/-- **A notification completes what is published**, or `getrandom` starves a request. -/
theorem serve (src : RandomSource) (h : Requests m₀ d o p u m) (hord : Ordered d o p u)
    {dev : VirtioMmioDevice} {f : Frame} (n : Nat) (hpc : f.pc = .checkReady)
    (hready : dev.queue.ready ≠ 0) (hlayout : dev.queue.FixedLayout)
    (hlast : dev.queue.lastAvailIdx = BitVec.ofNat 16 u) :
    ∃ k m' f' n', Call.Reaches src ⟨dev, m, f, n⟩ ⟨dev.advance k, m', f', n'⟩ ∧
      (f'.pc = .returned 0 ∧ k = p - u ∧ Requests m₀ d o p p m' ∨
        f'.pc = .returned (-1) ∧ src.Starves) := by
  have hcall := (process_queue_serves src m n hpc hready hlayout).2
  have hpd := hord.described
  have hpo := hord.offered
  have ho := hord.ringFits
  have hup := hord.completed
  rw [hlast, h.pending_eq hord, h.pendingHeads_eq ho (by omega)] at hcall
  obtain ⟨done, m', f', n', hserves, -, hends, hret, hpub, -⟩ := hcall (by omega)
  have hvalid : ∀ head ∈ (List.range' u (p - u)).map (BitVec.ofNat 16), ValidEntry m head := by
    intro head hmem
    obtain ⟨i, hi, rfl⟩ := List.mem_map.mp hmem
    rw [List.mem_range'_1] at hi
    exact h.validEntry hord.descFits (by omega)
  refine ⟨done.length, m', f', n', hends.1, ?_⟩
  by_cases hdone : done = (List.range' u (p - u)).map (BitVec.ofNat 16)
  · rw [if_pos hdone] at hret
    refine .inl ⟨hret, ?_, h.published hord (hdone ▸ hpub)⟩
    rw [hdone, List.length_map, List.length_range']
  · rw [if_neg hdone] at hret
    exact .inr ⟨hret, (hserves.all_or_starves hvalid).resolve_left hdone⟩

end Requests

/-! ## The interrupt gate -/

/-- `idtSetup` up to the load of the table. -/
def idtStores (isr : BitVec 16) : List Insn := (idtSetup isr).dropLast

/-- The stores of an interrupt gate. -/
def withGate (m : Memory) (gate : Nat) (isr : BitVec 16) : Memory :=
  ((((m.storeLe gate 2 isr.toNat).storeLe (gate + 2) 2 0x08).storeLe (gate + 4) 1 0).storeLe
    (gate + 5) 1 0x8e).storeLe (gate + 6) 2 0

theorem withGate_loads (m : Memory) (gate : Nat) (isr : BitVec 16) :
    (withGate m gate isr).loadLe gate 2 = isr.toNat ∧
    (withGate m gate isr).loadLe (gate + 2) 2 = 0x08 ∧
    (withGate m gate isr).loadLe (gate + 5) 1 = 0x8e ∧
    (withGate m gate isr).loadLe (gate + 6) 2 = 0 := by
  unfold withGate
  simp (disch := omega) only [Memory.loadLe_storeLe_of_disjoint]
  exact ⟨Memory.loadLe_storeLe _ _ isr.isLt, Memory.loadLe_storeLe _ _ (by decide),
    Memory.loadLe_storeLe _ _ (by decide), Memory.loadLe_storeLe _ _ (by decide)⟩

theorem withGate_frame (m : Memory) {gate i : Nat} (isr : BitVec 16) (hi : gate + 8 ≤ i) :
    withGate m gate isr i = m i := by
  unfold withGate Memory.storeLe
  rw [Memory.storeBytes_frame _ (by rw [Memory.length_leBytes]; omega),
    Memory.storeBytes_frame _ (by rw [Memory.length_leBytes]; omega),
    Memory.storeBytes_frame _ (by rw [Memory.length_leBytes]; omega),
    Memory.storeBytes_frame _ (by rw [Memory.length_leBytes]; omega),
    Memory.storeBytes_frame _ (by rw [Memory.length_leBytes]; omega)]

/-- The gate is set up, and the queue is as it was. -/
theorem runsMemory_idtStores {m₀ : Memory} {d o p u : Nat} {isr : BitVec 16} :
    RunsMemory (Requests m₀ d o p u) (idtStores isr)
      fun m => Requests m d o p u m ∧ gateOpen isr m virtioIrqVector = true := by
  intro m hreq
  refine ⟨withGate (m.storeBytes virtioGuestIdtGpa (List.replicate virtioGuestIdtSize 0))
    (virtioGuestIdtGpa + 8 * virtioIrqVector) isr, rfl, hreq.rebase fun j hj => ?_, ?_⟩
  · rw [withGate_frame _ _ (le_trans (by decide) hj)]
    apply Memory.storeBytes_frame
    rw [List.length_replicate]
    exact .inr (le_trans (by decide) hj)
  · exact decide_eq_true ⟨le_rfl, withGate_loads _ _ isr⟩

/-- The guest has set up what it waits with: the gate, and a completion word that is clear. -/
structure Awaiting (isr : BitVec 16) (m : Memory) : Prop where
  gate : gateOpen isr m virtioIrqVector = true
  word : m.loadLe virtioGuestCompletionGpa 4 = 0

/-- A gate depends on its eight bytes. -/
theorem gateOpen_congr (isr : BitVec 16) {m m' : Memory} {vector : Nat}
    (h : ∀ j, virtioGuestIdtGpa + 8 * vector ≤ j → j < virtioGuestIdtGpa + 8 * vector + 8 →
      m' j = m j) : gateOpen isr m' vector = gateOpen isr m vector := by
  have hload : ∀ k n, k + n ≤ 8 → m'.loadLe (virtioGuestIdtGpa + 8 * vector + k) n =
      m.loadLe (virtioGuestIdtGpa + 8 * vector + k) n :=
    fun k n hle => Memory.loadLe_congr fun j hlo hhi => h j (by omega) (by omega)
  have hfirst := hload 0 2 (by decide)
  rw [Nat.add_zero] at hfirst
  simp only [gateOpen, hfirst, hload 2 2 (by decide), hload 5 1 (by decide),
    hload 6 2 (by decide)]

/-- All of this lies below the queue. -/
theorem Awaiting.congr {isr : BitVec 16} {m m' : Memory} (h : Awaiting isr m)
    (hbelow : ∀ j < virtqDescGpa, m' j = m j) : Awaiting isr m' := by
  constructor
  · rw [← h.gate]
    apply gateOpen_congr
    intro j _ hj
    exact hbelow j (lt_of_lt_of_le hj (by decide))
  · rw [← h.word]
    apply Memory.loadLe_congr
    intro j _ hj
    exact hbelow j (lt_of_lt_of_le hj (by decide))

/-- The completion word lies behind the gate. -/
theorem awaiting_store {isr : BitVec 16} {m : Memory}
    (hgate : gateOpen isr m virtioIrqVector = true) :
    Awaiting isr (m.storeLe virtioGuestCompletionGpa 4 0) := by
  constructor
  · rw [← hgate]
    apply gateOpen_congr
    intro j _ hj
    exact Memory.storeBytes_frame _ (.inl (lt_of_lt_of_le hj (by decide)))
  · exact Memory.loadLe_storeLe _ _ (by decide)

/-- The completion word is cleared, and the last request is published. -/
theorem runsMemory_last {isr : BitVec 16} {l : Label} :
    RunsMemory (fun m => Requests m 5 5 5 5 m ∧ gateOpen isr m virtioIrqVector = true)
      ([.store virtioGuestCompletionGpa 4 0] ++
        (describe virtioIoeventfdDescIndex ++ [offer virtioIoeventfdDescIndex] ++
          [.expect (virtqAvailGpa + virtqAvailIdxOffset) 2 virtioRngRequestCount.toNat l] ++
          [publishAvail virtioTotalRequestCount.toNat]))
      fun m => ∃ m₀, Requests m₀ 6 6 6 5 m ∧ Awaiting isr m := by
  rintro m ⟨hreq, hgate⟩
  have hrebased : Requests (m.storeLe virtioGuestCompletionGpa 4 0) 5 5 5 5
      (m.storeLe virtioGuestCompletionGpa 4 0) := by
    apply hreq.rebase
    intro j hj
    apply Memory.storeBytes_frame
    rw [Memory.length_leBytes]
    exact .inr (le_trans (by decide) hj)
  obtain ⟨m', hmem, hreq'⟩ := Requests.third (l := l) _ hrebased
  exact ⟨m', hmem, _, hreq', (awaiting_store hgate).congr hreq'.below⟩

end LinuxMaxxing.Virtio
