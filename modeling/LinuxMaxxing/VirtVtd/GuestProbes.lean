import Mathlib.Logic.Function.Basic
import LinuxMaxxing.VirtVtd.Event

/-!
# Probes on the Guest Kernel

The probes of `vtd.bpf.c` on `ixgbe_run_loopback_test`, `dma_map_page_attrs` and the interrupt
handlers. A call of `dma_map_page_attrs` saves a `guest_pending` under the `pid_tgid` of its task,
a handler saves one under its CPU and IRQ, and both use the one map.
-/

namespace LinuxMaxxing.VirtVtd

/-! ## Guest state -/

/-- `struct guest_pending` -/
structure GuestPending where
  direction : BitVec 32 := 0
  irq : BitVec 32 := 0
  size : BitVec 64 := 0
  episodeId : BitVec 64 := 0
  phase : VtdGuestPhase := .none
  action : List UInt8 := []
  deriving DecidableEq, Repr

/-- `struct guest_control` -/
structure GuestControl where
  episodeCounter : BitVec 64 := 0
  once : BitVec 64 := 0
  phase : VtdGuestPhase := .none
  active : Bool := false
  deriving DecidableEq, Repr

/-- The maps and the ring buffer; `targetInterface` is what the loader has put there. -/
structure GuestMaps where
  targetInterface : List UInt8
  control : GuestControl
  pendingStates : BitVec 64 → Option GuestPending
  events : List VtdEvent

/-- The loop of `guest_irq_name_matches`, with so many rounds to go. -/
def nameMatchesFrom (target name : List UInt8) : Nat → Nat → Bool
  | 0, _ => true
  | rounds + 1, index =>
    if target.getD index 0 = 0 then 0 < index
    else if name.getD index 0 ≠ target.getD index 0 then false
    else nameMatchesFrom target name rounds (index + 1)

/-- `guest_irq_name_matches` -/
def guestIrqNameMatches (target name : List UInt8) : Bool := nameMatchesFrom target name 16 0

/-- `bpf_probe_read_str(state.action, …)`, into a buffer of zeros; `none` when it fails. -/
def readAction (name : Option (List UInt8)) : List UInt8 :=
  let read := (name.getD []).take 63
  read ++ List.replicate (64 - read.length) 0

/-- `((__u64)cpu << 32) | (__u32)context->irq` -/
def irqKey (cpu irq : BitVec 32) : BitVec 64 := cpu.setWidth 64 <<< 32 ||| irq.setWidth 64

/-- `copy_guest_episode` -/
def copyGuestEpisode (event : VtdEvent) (state : GuestPending) : VtdEvent :=
  { event with
    state.episodeId := state.episodeId
    state.guestPhase := state.phase
    state.irq := state.irq
    state.action := state.action }

namespace GuestMaps

/-! ## Helpers -/

/-- `bpf_ringbuf_submit`, for an event that was reserved. -/
def submit (m : GuestMaps) : Option VtdEvent → GuestMaps
  | none => m
  | some event => { m with events := m.events ++ [event] }

/-- `reserve_unfiltered_event` -/
def reserve (m : GuestMaps) (probe : Probe) (kind : VtdEventKind) : Option VtdEvent :=
  reserveUnfilteredEvent probe m.control.phase kind

/-- `claim_guest_once` would succeed. -/
def unclaimed (m : GuestMaps) (bit : Nat) : Bool := m.control.once &&& (1 <<< bit) = 0

/-- The bit that `claim_guest_once` sets. -/
def claim (m : GuestMaps) (bit : Nat) : GuestMaps :=
  { m with control.once := m.control.once ||| (1 <<< bit) }

/-- `set_guest_phase` -/
def setGuestPhase (m : GuestMaps) (phase : VtdGuestPhase) : GuestMaps :=
  { m with control.phase := phase }

/-- `lab_map_update(&guest_pending_states, …)` -/
def savePending (m : GuestMaps) (probe : Probe) (key : BitVec 64) (state : GuestPending) :
    GuestMaps :=
  if probe.updates then
    { m with pendingStates := Function.update m.pendingStates key (some state) }
  else m

/-- `bpf_map_delete_elem(&guest_pending_states, …)` -/
def deletePending (m : GuestMaps) (key : BitVec 64) : GuestMaps :=
  { m with pendingStates := Function.update m.pendingStates key none }

/-! ## The loopback test -/

/-- `guest_run_entry` -/
def guestRunEntry (m : GuestMaps) (probe : Probe) : GuestMaps :=
  let m := { m with control.active := true }
  let m := m.setGuestPhase .loopbackRun
  if !m.unclaimed 0 then m.claim 0
  else
    let m := m.claim 0
    m.submit (m.reserve probe .guestRunEntry)

/-- `guest_run_exit` -/
def guestRunExit (m : GuestMaps) (probe : Probe) (result : BitVec 64) : GuestMaps :=
  let m := { m with control.active := false }
  if !m.unclaimed 1 then m.claim 1
  else
    let m := m.claim 1
    match m.reserve probe .guestRunExit with
    | none => m
    | some event =>
      (m.submit (some { event with eventInfo.result := result })).setGuestPhase .none

/-! ## DMA mappings -/

/-- What `guest_dma_map_entry` saves. -/
def mappingState (size : BitVec 64) (direction : BitVec 32) : GuestPending where
  size := size
  direction := direction

/-- `guest_dma_map_entry` goes on behind its filter. -/
def samplesMapping (m : GuestMaps) : Bool := m.control.active && m.unclaimed 2

/-- `guest_dma_map_entry` -/
def guestDmaMapEntry (m : GuestMaps) (probe : Probe) (size : BitVec 64) (direction : BitVec 32) :
    GuestMaps :=
  if !m.control.active then m
  else if !m.unclaimed 2 then m.claim 2
  else
    let m := m.claim 2
    let m := m.savePending probe probe.pidTgid (mappingState size direction)
    m.submit ((m.reserve probe .guestDmaMapEntry).map fun event : VtdEvent =>
      { event with
        state.dataLength := size
        state.dmaDirection := direction })

/-- `guest_dma_map_exit` -/
def guestDmaMapExit (m : GuestMaps) (probe : Probe) (dmaAddress : BitVec 64) : GuestMaps :=
  match m.pendingStates probe.pidTgid with
  | none => m
  | some call =>
    (m.submit ((m.reserve probe .guestDmaMapExit).map fun event : VtdEvent =>
      { event with
        state.dmaAddress := dmaAddress
        state.dataLength := call.size
        state.dmaDirection := call.direction })).deletePending probe.pidTgid

/-! ## Interrupt handlers -/

/-- What `guest_irq_entry` saves. -/
def handlerState (m : GuestMaps) (irq : BitVec 32) (name : Option (List UInt8)) : GuestPending where
  action := readAction name
  episodeId := m.control.episodeCounter + 1
  phase := m.control.phase
  irq := irq

/-- `guest_irq_entry` -/
def guestIrqEntry (m : GuestMaps) (probe : Probe) (irq : BitVec 32) (name : Option (List UInt8)) :
    GuestMaps :=
  if !guestIrqNameMatches m.targetInterface (readAction name) then m
  else
    let state := m.handlerState irq name
    let m := { m with control.episodeCounter := m.control.episodeCounter + 1 }
    let m := m.savePending probe (irqKey probe.cpu irq) state
    m.submit ((m.reserve probe .guestIrqEntry).map fun event => copyGuestEpisode event state)

/-- `guest_irq_exit` -/
def guestIrqExit (m : GuestMaps) (probe : Probe) (irq : BitVec 32) (ret : BitVec 64) : GuestMaps :=
  match m.pendingStates (irqKey probe.cpu irq) with
  | none => m
  | some state =>
    (m.submit ((m.reserve probe .guestIrqExit).map fun event : VtdEvent =>
      copyGuestEpisode { event with eventInfo.result := ret } state)).deletePending
        (irqKey probe.cpu irq)

end GuestMaps

end LinuxMaxxing.VirtVtd
