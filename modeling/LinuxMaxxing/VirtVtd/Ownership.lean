import LinuxMaxxing.Framework.Validate
import LinuxMaxxing.Lib.Hoare

/-!
# Lending a NIC to the Guest

`DeviceOwnership` of `virt-vtd/_run.py`: `bind_vfio` takes the NIC from its host driver and
its NetworkManager profile, `restore` gives it back, and `run` registers `restore` on the
exit stack before the first write.

- the host state of the NIC is its driver, its driver override and the connection that is
  active on it;
- every external action (`nmcli`, `ip`, a write to sysfs, what comes later in `run`)
  succeeds, fails without effect, or reports a failure after taking effect. The kernel's
  own refusals are failures of this kind.

`restores_iff` says for which runs the exit stack restores all three: all but those in which
`nmcli connection down` reports a failure after taking effect, and those in which the
override cannot be told from the text the kernel shows when there is none.
-/

namespace LinuxMaxxing.VirtVtd

open LinuxMaxxing.Lib

/-! ## Host state of the NIC -/

/-- `SUPPORTED_DRIVERS` -/
inductive HostDriver where
  | igb
  | ixgbe
  deriving DecidableEq, Repr

inductive Driver where
  | host (driver : HostDriver)
  | vfioPci
  deriving DecidableEq, Repr

/-- What the kernel stores as the override of a device. -/
structure OverrideName where
  chars : List Char
  ne_nil : chars ≠ []
  no_newline : '\n' ∉ chars
  deriving DecidableEq

/-- The host state of a NIC; `active` is the connection that is up on it. -/
structure Nic where
  driver : Option Driver
  override : Option OverrideName
  active : Option String
  deriving DecidableEq

/-- Reading `driver_override`. -/
def showOverride : Option OverrideName → List Char
  | none => "(null)\n".toList
  | some name => name.chars ++ ['\n']

/-- Writing `driver_override`: the text up to its first newline; an empty one clears it. -/
def storeOverride (text : List Char) : Option OverrideName :=
  if h : text.takeWhile (· ≠ '\n') = [] then none
  else some
    { chars := text.takeWhile (· ≠ '\n')
      ne_nil := h
      no_newline := fun hmem => by simpa using List.all_eq_true.mp List.all_takeWhile _ hmem }

/-- `str.strip` -/
def strip (text : List Char) : List Char :=
  let isSpace c := Framework.isPySpace c.toNat
  ((text.dropWhile isSpace).reverse.dropWhile isSpace).reverse

/-- `original_override` as `__init__` computes it from the text it reads. -/
def originalOverride (text : List Char) : List Char :=
  if strip text = "(null)".toList then ['\n'] else text

/-! ## Actions -/

/-- How an external action ends. -/
inductive Outcome where
  | success
  /-- It raises without effect. -/
  | failBefore
  /-- It raises after taking effect. -/
  | failAfter
  deriving DecidableEq, Repr

/-- The external actions of `run` up to the exit stack, in order. -/
inductive Action where
  | checkManagement
  | nmcliDown
  | ipAddr
  | ipRoute
  | writeOverride
  | unbind
  | bindVfio
  | recheckManagement
  /-- the steps from QEMU's start to its stop -/
  | workflow
  | collect
  deriving DecidableEq, Repr

/-- The external actions of `restore`, in order. -/
inductive RestoreAction where
  | unbind
  | writeOverride
  | bindHost
  | showActive
  | nmcliUp
  | showAgain
  | checkManagement
  deriving DecidableEq, Repr

/-- What one run meets. -/
structure Env where
  outcome : Action → Outcome
  /-- `ip addr` still lists an address, `ip route` a route. -/
  hasAddresses : Bool
  hasRoutes : Bool
  /-- The outcomes in the call of `restore` at the end of `run`. -/
  restore : RestoreAction → Outcome

/-- A Python exception. -/
inductive Failure where
  /-- an external action has failed -/
  | external
  | labError (message : String)
  deriving DecidableEq, Repr

/-- `DeviceOwnership` -/
structure DeviceOwnership where
  pci : String
  net : String
  connectionUuid : Option String
  originalDriver : HostDriver
  originalOverride : List Char
  driverTouched : Bool
  vfioAcquired : Bool
  profileDown : Bool
  deriving DecidableEq

structure Host where
  nic : Nic
  own : DeviceOwnership
  deriving DecidableEq

/-- A program of the controller. -/
abbrev Prog := EStateM Failure Host PUnit

/-- An external action with its effect on the NIC. -/
def act (outcome : Outcome) (effect : Nic → Nic) : Prog :=
  match outcome with
  | .success => modify fun s => { s with nic := effect s.nic }
  | .failBefore => throw .external
  | .failAfter => do
    modify fun s => { s with nic := effect s.nic }
    throw .external

/-- An external action that only looks. -/
def look (outcome : Outcome) : Prog := act outcome id

def setOwn (f : DeviceOwnership → DeviceOwnership) : Prog :=
  modify fun s => { s with own := f s.own }

/-- `if condition: raise LabError(message)` -/
def raiseIf (condition : Bool) (message : String) : Prog :=
  if condition then throw (.labError message) else pure ⟨⟩

/-! ## `bind_vfio` -/

/-- The first part: the NIC's own profile goes down. -/
def disconnect (env : Env) : Prog := do
  match (← get).own.connectionUuid with
  | none => pure ⟨⟩
  | some uuid =>
    act (env.outcome .nmcliDown) fun nic =>
      { nic with active := if nic.active = some uuid then none else nic.active }
    setOwn fun own => { own with profileDown := true }
    look (env.outcome .ipAddr)
    raiseIf env.hasAddresses "secondary NIC still has addresses after disconnect"
    look (env.outcome .ipRoute)
    raiseIf env.hasRoutes "secondary NIC still has routes after disconnect"

/-- The rest: the device goes from its driver to `vfio-pci`. -/
def assign (env : Env) : Prog := do
  setOwn fun own => { own with driverTouched := true }
  act (env.outcome .writeOverride) fun nic =>
    { nic with override := storeOverride "vfio-pci\n".toList }
  act (env.outcome .unbind) fun nic => { nic with driver := none }
  act (env.outcome .bindVfio) fun nic => { nic with driver := some .vfioPci }
  raiseIf ((← get).nic.driver ≠ some .vfioPci) "VFIO bind failed"
  setOwn fun own => { own with vfioAcquired := true }
  look (env.outcome .recheckManagement)

/-- `bind_vfio` -/
def bindVfio (env : Env) : Prog := do
  disconnect env
  assign env

/-! ## `restore` -/

/-- `if current and current != self.original_driver` -/
def detach (r : RestoreAction → Outcome) : Prog := do
  let s ← get
  if s.nic.driver ≠ none ∧ s.nic.driver ≠ some (.host s.own.originalDriver) then
    act (r .unbind) fun nic => { nic with driver := none }
  else pure ⟨⟩

/-- `if driver(self.pci) != self.original_driver` -/
def bindHost (r : RestoreAction → Outcome) : Prog := do
  let s ← get
  if s.nic.driver ≠ some (.host s.own.originalDriver) then
    act (r .bindHost) fun nic => { nic with driver := some (.host s.own.originalDriver) }
  else pure ⟨⟩

/-- `if self.driver_touched` -/
def reclaimDriver (r : RestoreAction → Outcome) : Prog := do
  let s ← get
  if s.own.driverTouched then do
    detach r
    act (r .writeOverride) fun nic =>
      { nic with override := storeOverride s.own.originalOverride }
    bindHost r
    raiseIf ((← get).nic.driver ≠ some (.host s.own.originalDriver))
      ("failed to restore " ++ s.own.pci)
    setOwn fun own => { own with driverTouched := false, vfioAcquired := false }
  else pure ⟨⟩

/-- `if active_uuid != self.connection_uuid` -/
def reconnect (r : RestoreAction → Outcome) : Prog := do
  let s ← get
  if s.nic.active ≠ s.own.connectionUuid then
    act (r .nmcliUp) fun nic => { nic with active := s.own.connectionUuid }
  else pure ⟨⟩

/-- `if self.profile_down` -/
def reclaimProfile (r : RestoreAction → Outcome) : Prog := do
  let s ← get
  if s.own.profileDown then do
    look (r .showActive)
    reconnect r
    look (r .showAgain)
    raiseIf ((← get).nic.active ≠ s.own.connectionUuid)
      ("failed to restore NetworkManager profile for " ++ s.own.net)
    setOwn fun own => { own with profileDown := false }
  else pure ⟨⟩

/-- `restore` -/
def restore (r : RestoreAction → Outcome) : Prog := do
  let s ← get
  if s.own.driverTouched = false ∧ s.own.profileDown = false then pure ⟨⟩
  else do
    reclaimDriver r
    reclaimProfile r
    look (r .checkManagement)

/-! ## The run -/

/-- A NIC that `audit` has chosen: it has a supported driver, and the connection whose
    identity was taken is the active one. -/
structure Candidate where
  pci : String
  net : String
  driver : HostDriver
  override : Option OverrideName
  active : Option String
  connectionUuid : Option String
  uuid_active : ∀ uuid, connectionUuid = some uuid → active = some uuid

/-- Its host state, recorded by `__init__`. -/
def Candidate.nic (c : Candidate) : Nic := ⟨some (.host c.driver), c.override, c.active⟩

/-- After `__init__`. -/
def Candidate.host (c : Candidate) : Host where
  nic := c.nic
  own :=
    { pci := c.pci
      net := c.net
      connectionUuid := c.connectionUuid
      originalDriver := c.driver
      originalOverride := originalOverride (showOverride c.override)
      driverTouched := false
      vfioAcquired := false
      profileDown := false }

/-- `run` from the registration of `restore` on. -/
def run (env : Env) : Prog := do
  look (env.outcome .checkManagement)
  bindVfio env
  look (env.outcome .workflow)
  restore env.restore
  look (env.outcome .collect)

/-! ## What `restore` gives back -/

section Restore

variable {c : Candidate} {t : Nic} {s : Host} {P E : Host → Prop} {Q : PUnit → Host → Prop}

/-- The override that `restore` writes. -/
def Candidate.restoredOverride (c : Candidate) : Option OverrideName :=
  storeOverride c.host.own.originalOverride

/-- From `s` on, `restore` gives back `t`: what its flags do not cover is as in `t` now, and
    what they cover is known. -/
structure Lent (c : Candidate) (t : Nic) (s : Host) : Prop where
  uuid : s.own.connectionUuid = c.connectionUuid
  original : s.own.originalDriver = c.driver
  text : s.own.originalOverride = c.host.own.originalOverride
  driver : t.driver = some (.host c.driver)
  touched : s.own.driverTouched = true → t.override = c.restoredOverride
  untouched : s.own.driverTouched = false →
    s.nic.driver = some (.host c.driver) ∧ s.nic.override = t.override
  down : s.own.profileDown = true → t.active = c.connectionUuid
  up : s.own.profileDown = false → s.nic.active = t.active

/-- While `driver_touched` is set, driver and override may be anything. -/
theorem Lent.setDriver (h : Lent c t s) (htouched : s.own.driverTouched = true)
    (driver : Option Driver) (override : Option OverrideName) :
    Lent c t { s with nic := ⟨driver, override, s.nic.active⟩ } :=
  ⟨h.uuid, h.original, h.text, h.driver, h.touched, fun hf => by simp [htouched] at hf, h.down,
    h.up⟩

/-- While `profile_down` is set, the connection may be any. -/
theorem Lent.setActive (h : Lent c t s) (hdown : s.own.profileDown = true)
    (active : Option String) :
    Lent c t { s with nic := { s.nic with active := active } } :=
  ⟨h.uuid, h.original, h.text, h.driver, h.touched, h.untouched, h.down,
    fun hf => by simp [hdown] at hf⟩

/-! ### Rules for the statements -/

theorem act_rule {outcome : Outcome} {effect : Nic → Nic}
    (hdone : outcome = .success → ∀ s, P s → Q ⟨⟩ { s with nic := effect s.nic })
    (hbefore : outcome = .failBefore → ∀ s, P s → E s)
    (hafter : outcome = .failAfter → ∀ s, P s → E { s with nic := effect s.nic }) :
    Triple P (act outcome effect) Q E := by
  intro s hs
  cases outcome with
  | success => exact hdone rfl s hs
  | failBefore => exact hbefore rfl s hs
  | failAfter => exact hafter rfl s hs

/-- When it does not matter whether a failing action took effect. -/
theorem act_spec {outcome : Outcome} {effect : Nic → Nic}
    (hdone : ∀ s, P s → Q ⟨⟩ { s with nic := effect s.nic })
    (hfail : outcome ≠ .success → ∀ s, P s → E s ∧ E { s with nic := effect s.nic }) :
    Triple P (act outcome effect) Q E := by
  apply act_rule
  · exact fun _ => hdone
  · rintro rfl s hs
    exact (hfail (by decide) s hs).1
  · rintro rfl s hs
    exact (hfail (by decide) s hs).2

theorem look_spec {outcome : Outcome} (hdone : outcome = .success → ∀ s, P s → Q ⟨⟩ s)
    (hfail : outcome ≠ .success → ∀ s, P s → E s) : Triple P (look outcome) Q E := by
  apply act_rule
  · exact hdone
  · rintro rfl
    exact hfail (by decide)
  · rintro rfl
    exact hfail (by decide)

theorem raiseIf_spec {condition : Bool} {message : String}
    (hpass : condition = false → ∀ s, P s → Q ⟨⟩ s)
    (hraise : condition = true → ∀ s, P s → E s) :
    Triple P (raiseIf condition message) Q E := by
  cases condition with
  | true => exact Triple.throw (hraise rfl)
  | false => exact Triple.pure (hpass rfl)

/-! ### `restore` -/

/-- An action of `restore` did not succeed. -/
def Failed (r : RestoreAction → Outcome) : Prop := ∃ a, r a ≠ .success

/-- After the first statement the device is free or with its own driver. -/
theorem detach_spec (r : RestoreAction → Outcome) :
    Triple (fun s => Lent c t s ∧ s.own.driverTouched = true) (detach r)
      (fun _ s => (Lent c t s ∧ s.own.driverTouched = true) ∧
        (s.nic.driver = none ∨ s.nic.driver = some (.host c.driver)))
      (fun s => Lent c t s ∧ Failed r) := by
  unfold detach
  apply Triple.get_bind
  rintro s ⟨hlent, htouched⟩
  rw [hlent.original]
  apply Triple.ite
  · intro _
    apply act_spec
    · rintro _ rfl
      exact ⟨⟨hlent.setDriver htouched _ _, htouched⟩, .inl rfl⟩
    · rintro hne _ rfl
      exact ⟨⟨hlent, _, hne⟩, hlent.setDriver htouched _ _, _, hne⟩
  · intro hown
    apply Triple.pure
    rintro s' rfl
    refine ⟨⟨hlent, htouched⟩, ?_⟩
    by_cases hnone : s'.nic.driver = none
    · exact .inl hnone
    · exact .inr (not_not.mp fun hne => hown ⟨hnone, hne⟩)

/-- Binding leaves the device with its own driver, and its override as it is. -/
theorem bindHost_spec (r : RestoreAction → Outcome) :
    Triple (fun s => (Lent c t s ∧ s.own.driverTouched = true) ∧ s.nic.override = t.override)
      (bindHost r)
      (fun _ s => ((Lent c t s ∧ s.own.driverTouched = true) ∧ s.nic.override = t.override) ∧
        s.nic.driver = some (.host c.driver))
      (fun s => Lent c t s ∧ Failed r) := by
  unfold bindHost
  apply Triple.get_bind
  rintro s ⟨⟨hlent, htouched⟩, hoverride⟩
  rw [hlent.original]
  apply Triple.ite
  · intro _
    apply act_spec
    · rintro _ rfl
      exact ⟨⟨⟨hlent.setDriver htouched _ _, htouched⟩, hoverride⟩, rfl⟩
    · rintro hne _ rfl
      exact ⟨⟨hlent, _, hne⟩, hlent.setDriver htouched _ _, _, hne⟩
  · intro hown
    apply Triple.pure
    rintro _ rfl
    exact ⟨⟨⟨hlent, htouched⟩, hoverride⟩, not_not.mp hown⟩

theorem reclaimDriver_spec (r : RestoreAction → Outcome) :
    Triple (Lent c t) (reclaimDriver r)
      (fun _ s => Lent c t s ∧ s.own.driverTouched = false)
      (fun s => Lent c t s ∧ Failed r) := by
  unfold reclaimDriver
  apply Triple.get_bind
  intro s hlent
  apply Triple.ite
  · intro htouched
    have hwritten : storeOverride s.own.originalOverride = t.override := by
      rw [hlent.text, hlent.touched htouched]
      rfl
    refine Triple.bind ((detach_spec r).weaken (fun s' h => h ▸ ⟨hlent, htouched⟩)
      (fun _ _ h => h) fun _ h => h) fun _ => ?_
    refine Triple.bind (Q := fun _ s => (Lent c t s ∧ s.own.driverTouched = true) ∧
      s.nic.override = t.override) ?_ fun _ => ?_
    · apply act_spec
      · rintro s' ⟨⟨hlent', htouched'⟩, -⟩
        exact ⟨⟨hlent'.setDriver htouched' _ _, htouched'⟩, hwritten⟩
      · rintro hne s' ⟨⟨hlent', htouched'⟩, -⟩
        exact ⟨⟨hlent', _, hne⟩, hlent'.setDriver htouched' _ _, _, hne⟩
    refine Triple.bind (bindHost_spec r) fun _ => ?_
    apply Triple.get_bind
    rintro s' ⟨⟨⟨hlent', htouched'⟩, hoverride⟩, hdriver⟩
    refine Triple.bind (Q := fun _ s => s = s') (raiseIf_spec (fun _ _ h => h) ?_) fun _ => ?_
    · intro hraise
      simp [hdriver, hlent.original] at hraise
    · apply Triple.modify
      rintro _ rfl
      exact ⟨⟨hlent'.uuid, hlent'.original, hlent'.text, hlent'.driver,
        fun h => absurd h Bool.false_ne_true, fun _ => ⟨hdriver, hoverride⟩, hlent'.down, hlent'.up⟩, rfl⟩
  · intro htouched
    apply Triple.pure
    rintro _ rfl
    exact ⟨hlent, by simpa using htouched⟩

theorem reconnect_spec (r : RestoreAction → Outcome) :
    Triple (fun s => (Lent c t s ∧ s.own.driverTouched = false) ∧ s.own.profileDown = true)
      (reconnect r)
      (fun _ s => ((Lent c t s ∧ s.own.driverTouched = false) ∧ s.own.profileDown = true) ∧
        s.nic.active = c.connectionUuid)
      (fun s => Lent c t s ∧ Failed r) := by
  unfold reconnect
  apply Triple.get_bind
  rintro s ⟨⟨hlent, htouched⟩, hdown⟩
  rw [hlent.uuid]
  apply Triple.ite
  · intro _
    apply act_spec
    · rintro _ rfl
      exact ⟨⟨⟨hlent.setActive hdown _, htouched⟩, hdown⟩, rfl⟩
    · rintro hne _ rfl
      exact ⟨⟨hlent, _, hne⟩, hlent.setActive hdown _, _, hne⟩
  · intro hactive
    apply Triple.pure
    rintro _ rfl
    exact ⟨⟨⟨hlent, htouched⟩, hdown⟩, not_not.mp hactive⟩

theorem reclaimProfile_spec (r : RestoreAction → Outcome) :
    Triple (fun s => Lent c t s ∧ s.own.driverTouched = false) (reclaimProfile r)
      (fun _ s => Lent c t s ∧ s.own.driverTouched = false ∧ s.own.profileDown = false)
      (fun s => Lent c t s ∧ Failed r) := by
  unfold reclaimProfile
  apply Triple.get_bind
  rintro s ⟨hlent, htouched⟩
  apply Triple.ite
  · intro hdown
    refine Triple.bind (Q := fun _ s =>
      (Lent c t s ∧ s.own.driverTouched = false) ∧ s.own.profileDown = true) ?_ fun _ => ?_
    · apply look_spec
      · rintro - _ rfl
        exact ⟨⟨hlent, htouched⟩, hdown⟩
      · rintro hne _ rfl
        exact ⟨hlent, _, hne⟩
    refine Triple.bind (reconnect_spec r) fun _ => ?_
    refine Triple.bind (Q := fun _ s => ((Lent c t s ∧ s.own.driverTouched = false) ∧
        s.own.profileDown = true) ∧ s.nic.active = c.connectionUuid)
      (look_spec (fun _ _ h => h) fun hne s' h => ⟨h.1.1.1, _, hne⟩) fun _ => ?_
    apply Triple.get_bind
    rintro s' ⟨⟨⟨hlent', htouched'⟩, hdown'⟩, hactive⟩
    refine Triple.bind (Q := fun _ s => s = s') (raiseIf_spec (fun _ _ h => h) ?_) fun _ => ?_
    · intro hraise
      simp [hactive, hlent.uuid] at hraise
    · have hup : s'.nic.active = t.active := hactive.trans (hlent'.down hdown').symm
      apply Triple.modify
      rintro _ rfl
      exact ⟨⟨hlent'.uuid, hlent'.original, hlent'.text, hlent'.driver, hlent'.touched,
        hlent'.untouched, fun h => absurd h Bool.false_ne_true, fun _ => hup⟩, htouched', rfl⟩
  · intro hdown
    apply Triple.pure
    rintro _ rfl
    exact ⟨hlent, htouched, by simpa using hdown⟩

/-- **`restore`** clears its flags when every action succeeds, and can be retried when one
    does not. -/
theorem restore_spec (r : RestoreAction → Outcome) :
    Triple (Lent c t) (restore r)
      (fun _ s => Lent c t s ∧ s.own.driverTouched = false ∧ s.own.profileDown = false)
      (fun s => Lent c t s ∧ Failed r) := by
  unfold restore
  apply Triple.get_bind
  intro s hs
  apply Triple.ite
  · intro hflags
    apply Triple.pure
    rintro s' rfl
    exact ⟨hs, hflags⟩
  · intro _
    refine Triple.bind (Q := fun _ s => Lent c t s ∧ s.own.driverTouched = false) ?_ fun _ => ?_
    · exact (reclaimDriver_spec r).weaken (fun s' h => h ▸ hs) (fun _ _ h => h) fun _ h => h
    · refine Triple.bind (reclaimProfile_spec r) fun _ => ?_
      exact look_spec (fun _ _ h => h) fun hne s' h => ⟨h.1, _, hne⟩

end Restore

/-! ## What a run leaves to restore -/

/-- `nmcli connection down` reports a failure after taking the profile down. -/
def DisconnectLate (c : Candidate) (env : Env) : Prop :=
  c.connectionUuid ≠ none ∧ env.outcome .checkManagement = .success ∧
    env.outcome .nmcliDown = .failAfter

/-- The run comes to the device's driver. -/
def ReachesDriver (c : Candidate) (env : Env) : Prop :=
  env.outcome .checkManagement = .success ∧
    (c.connectionUuid ≠ none → env.outcome .nmcliDown = .success ∧
      env.outcome .ipAddr = .success ∧ env.hasAddresses = false ∧
      env.outcome .ipRoute = .success ∧ env.hasRoutes = false)

instance (c : Candidate) (env : Env) : Decidable (DisconnectLate c env) :=
  inferInstanceAs (Decidable (_ ∧ _ ∧ _))

instance (c : Candidate) (env : Env) : Decidable (ReachesDriver c env) :=
  inferInstanceAs (Decidable (_ ∧ (_ → _)))

/-- What the exit stack restores after the run. -/
def restored (c : Candidate) (env : Env) : Nic where
  driver := some (.host c.driver)
  override := if ReachesDriver c env then c.restoredOverride else c.override
  active := if DisconnectLate c env then none else c.active

section Run

variable {c : Candidate} {env : Env} {s : Host}

theorem restored_eq (hreach : ¬ ReachesDriver c env) (hlate : ¬ DisconnectLate c env) :
    restored c env = c.nic := by
  unfold restored
  rw [if_neg hreach, if_neg hlate]
  rfl

/-- While no flag is set, the host state is what is given back. -/
theorem lent_host : Lent c c.nic c.host :=
  ⟨rfl, rfl, rfl, rfl, fun h => absurd h Bool.false_ne_true, fun _ => ⟨rfl, rfl⟩,
    fun h => absurd h Bool.false_ne_true, fun _ => rfl⟩

/-- The host when the profile is down and its flag is set, or not yet. -/
def Candidate.downHost (c : Candidate) (profileDown : Bool) : Host where
  nic := ⟨some (.host c.driver), c.override, none⟩
  own := { c.host.own with profileDown := profileDown }

theorem lent_downHost {uuid : String} (huuid : c.connectionUuid = some uuid) :
    Lent c c.nic (c.downHost true) :=
  ⟨rfl, rfl, rfl, rfl, fun h => absurd h Bool.false_ne_true, fun _ => ⟨rfl, rfl⟩,
    fun _ => (c.uuid_active uuid huuid).trans huuid.symm, fun h => absurd h.symm Bool.false_ne_true⟩

/-- A failure of `nmcli connection down` that is reported late leaves the profile down. -/
theorem lent_late (hreach : ¬ ReachesDriver c env) (hlate : DisconnectLate c env) :
    Lent c (restored c env) (c.downHost false) := by
  unfold restored
  rw [if_neg hreach, if_pos hlate]
  exact ⟨rfl, rfl, rfl, rfl, fun h => absurd h Bool.false_ne_true, fun _ => ⟨rfl, rfl⟩,
    fun h => absurd h Bool.false_ne_true, fun _ => rfl⟩

/-- A failure after it leaves the profile to `restore`. -/
theorem lent_flagged {uuid : String} (huuid : c.connectionUuid = some uuid)
    (hdown : env.outcome .nmcliDown = .success) (hreach : ¬ ReachesDriver c env) :
    Lent c (restored c env) (c.downHost true) := by
  have hlate : ¬ DisconnectLate c env := fun h => by simp [h.2.2] at hdown
  rw [restored_eq hreach hlate]
  exact lent_downHost huuid

/-- The profile part ends with the profile's flag telling whether it is down, but for the
    failure that is reported late. -/
theorem disconnect_spec (hcheck : env.outcome .checkManagement = .success) :
    Triple (fun s => s = c.host) (disconnect env)
      (fun _ s => (ReachesDriver c env ∧ ¬ DisconnectLate c env) ∧ Lent c c.nic s ∧
        s.own.driverTouched = false)
      (Lent c (restored c env)) := by
  unfold disconnect
  apply Triple.get_bind
  rintro _ rfl
  show Triple _ (match c.connectionUuid with | none => _ | some uuid => _) _ _
  cases huuid : c.connectionUuid with
  | none =>
    apply Triple.pure
    rintro _ rfl
    exact ⟨⟨⟨hcheck, fun hne => absurd huuid hne⟩, fun hlate => hlate.1 huuid⟩, lent_host, rfl⟩
  | some uuid =>
    have hne : c.connectionUuid ≠ none := by simp [huuid]
    have heffect : (if c.host.nic.active = some uuid then none else c.host.nic.active) = none :=
      if_pos (c.uuid_active uuid huuid)
    -- nmcli takes the profile down, and may raise before or after that
    refine Triple.bind (Q := fun _ s => env.outcome .nmcliDown = .success ∧ s = c.downHost false)
      (act_rule ?_ ?_ ?_) fun _ => ?_
    · rintro hdown _ rfl
      rw [heffect]
      exact ⟨hdown, rfl⟩
    · rintro hbefore _ rfl
      have hreach : ¬ ReachesDriver c env := fun h => by simp [(h.2 hne).1] at hbefore
      have hlate : ¬ DisconnectLate c env := fun h => by simp [h.2.2] at hbefore
      rw [restored_eq hreach hlate]
      exact lent_host
    · rintro hafter _ rfl
      rw [heffect]
      exact lent_late (fun h => by simp [(h.2 hne).1] at hafter) ⟨hne, hcheck, hafter⟩
    -- the flag: from here on the cleanup takes the profile up again
    refine Triple.bind (Q := fun _ s => env.outcome .nmcliDown = .success ∧ s = c.downHost true)
      (Triple.modify ?_) fun _ => ?_
    · rintro _ ⟨hdown, rfl⟩
      exact ⟨hdown, rfl⟩
    -- the addresses and the routes are looked up, and both are to be gone
    refine Triple.bind (Q := fun _ s => (env.outcome .nmcliDown = .success ∧
      env.outcome .ipAddr = .success) ∧ s = c.downHost true) (look_spec ?_ ?_) fun _ => ?_
    · rintro haddr _ ⟨hdown, rfl⟩
      exact ⟨⟨hdown, haddr⟩, rfl⟩
    · rintro hfail _ ⟨hdown, rfl⟩
      exact lent_flagged huuid hdown fun h => hfail (h.2 hne).2.1
    refine Triple.bind (Q := fun _ s => (env.outcome .nmcliDown = .success ∧
      env.outcome .ipAddr = .success ∧ env.hasAddresses = false) ∧ s = c.downHost true)
      (raiseIf_spec ?_ ?_) fun _ => ?_
    · rintro hnone _ ⟨⟨hdown, haddr⟩, rfl⟩
      exact ⟨⟨hdown, haddr, hnone⟩, rfl⟩
    · rintro hsome _ ⟨⟨hdown, -⟩, rfl⟩
      exact lent_flagged huuid hdown fun h => by simp [(h.2 hne).2.2.1] at hsome
    refine Triple.bind (Q := fun _ s => (env.outcome .nmcliDown = .success ∧
      env.outcome .ipAddr = .success ∧ env.hasAddresses = false ∧
      env.outcome .ipRoute = .success) ∧ s = c.downHost true) (look_spec ?_ ?_) fun _ => ?_
    · rintro hroute _ ⟨⟨hdown, haddr, hnone⟩, rfl⟩
      exact ⟨⟨hdown, haddr, hnone, hroute⟩, rfl⟩
    · rintro hfail _ ⟨⟨hdown, -⟩, rfl⟩
      exact lent_flagged huuid hdown fun h => hfail (h.2 hne).2.2.2.1
    apply raiseIf_spec
    · rintro hnoroute _ ⟨⟨hdown, haddr, hnone, hroute⟩, rfl⟩
      have hreach : ReachesDriver c env := ⟨hcheck, fun _ => ⟨hdown, haddr, hnone, hroute, hnoroute⟩⟩
      exact ⟨⟨hreach, fun h => by simp [h.2.2] at hdown⟩, lent_downHost huuid, rfl⟩
    · rintro hroutes _ ⟨⟨hdown, -⟩, rfl⟩
      exact lent_flagged huuid hdown fun h => by simp [(h.2 hne).2.2.2.2] at hroutes

/-- The driver part keeps its flag set from its first write on. -/
theorem assign_spec :
    Triple (fun s => (ReachesDriver c env ∧ ¬ DisconnectLate c env) ∧ Lent c c.nic s ∧
        s.own.driverTouched = false) (assign env)
      (fun _ => Lent c (restored c env)) (Lent c (restored c env)) := by
  have hkept : ∀ (driver : Option Driver) (override : Option OverrideName) (s : Host),
      Lent c (restored c env) s ∧ s.own.driverTouched = true →
      Lent c (restored c env) { s with nic := ⟨driver, override, s.nic.active⟩ } ∧
        s.own.driverTouched = true :=
    fun driver override s h => ⟨h.1.setDriver h.2 driver override, h.2⟩
  unfold assign
  refine Triple.bind (Q := fun _ s => Lent c (restored c env) s ∧ s.own.driverTouched = true)
    (Triple.modify ?_) fun _ => ?_
  · rintro s ⟨⟨hreach, hlate⟩, hlent, htouched⟩
    have hactive : (restored c env).active = c.nic.active := if_neg hlate
    refine ⟨⟨hlent.uuid, hlent.original, hlent.text, rfl, fun _ => if_pos hreach,
      fun h => absurd h.symm Bool.false_ne_true, fun h => hactive.trans (hlent.down h),
      fun h => (hlent.up h).trans hactive.symm⟩, rfl⟩
  refine Triple.bind (Q := fun _ s => Lent c (restored c env) s ∧ s.own.driverTouched = true)
    (act_spec (fun s h => hkept _ _ s h) fun _ s h => ⟨h.1, (hkept _ _ s h).1⟩) fun _ => ?_
  refine Triple.bind (Q := fun _ s => Lent c (restored c env) s ∧ s.own.driverTouched = true)
    (act_spec (fun s h => hkept _ _ s h) fun _ s h => ⟨h.1, (hkept _ _ s h).1⟩) fun _ => ?_
  refine Triple.bind (Q := fun _ s => Lent c (restored c env) s ∧ s.own.driverTouched = true)
    (act_spec (fun s h => hkept _ _ s h) fun _ s h => ⟨h.1, (hkept _ _ s h).1⟩) fun _ => ?_
  apply Triple.get_bind
  rintro s ⟨hlent, htouched⟩
  refine Triple.bind (Q := fun _ t => t = s) (raiseIf_spec (fun _ _ h => h) ?_) fun _ => ?_
  · rintro _ _ rfl
    exact hlent
  refine Triple.bind (Q := fun _ => Lent c (restored c env)) (Triple.modify ?_) fun _ => ?_
  · rintro _ rfl
    exact ⟨hlent.uuid, hlent.original, hlent.text, hlent.driver, hlent.touched, hlent.untouched,
      hlent.down, hlent.up⟩
  · exact look_spec (fun _ _ h => h) fun _ _ h => h

/-- Wherever the run ends, `restore` gives `restored` back. -/
theorem run_spec :
    Triple (fun s => s = c.host) (run env) (fun _ => Lent c (restored c env))
      (Lent c (restored c env)) := by
  unfold run bindVfio
  refine Triple.bind (Q := fun _ s => env.outcome .checkManagement = .success ∧ s = c.host)
    (look_spec ?_ ?_) fun _ => ?_
  · rintro hcheck _ rfl
    exact ⟨hcheck, rfl⟩
  · rintro hfail _ rfl
    rw [restored_eq (fun h => hfail h.1) fun h => hfail h.2.1]
    exact lent_host
  refine Triple.bind (Q := fun _ => Lent c (restored c env)) ?_ fun _ => ?_
  · rintro s ⟨hcheck, hs⟩
    exact Triple.bind (disconnect_spec hcheck) (fun _ => assign_spec) s hs
  refine Triple.bind (Q := fun _ => Lent c (restored c env))
    (look_spec (fun _ _ h => h) fun _ _ h => h) fun _ => ?_
  refine Triple.bind (Q := fun _ => Lent c (restored c env))
    ((restore_spec env.restore).weaken (fun _ h => h) (fun _ _ h => h.1) fun _ h => h.1)
    fun _ => ?_
  exact look_spec (fun _ _ h => h) fun _ _ h => h

/-! ## The override -/

/-- The text of an override is told apart from the text for none. -/
def Candidate.OverrideReadable (c : Candidate) : Prop :=
  strip (showOverride c.override) = "(null)".toList → c.override = none

/-- The kernel stores again what it shows. -/
theorem storeOverride_showOverride (name : OverrideName) :
    storeOverride (showOverride (some name)) = some name := by
  have hline : (showOverride (some name)).takeWhile (· ≠ '\n') = name.chars := by
    show (name.chars ++ ['\n']).takeWhile _ = name.chars
    rw [List.takeWhile_append_of_pos]
    · simp
    · intro ch hch
      simp only [decide_eq_true_eq]
      rintro rfl
      exact name.no_newline hch
  unfold storeOverride
  rw [dif_neg (by rw [hline]; exact name.ne_nil)]
  simp only [hline]

theorem restoredOverride_eq_iff : c.restoredOverride = c.override ↔ c.OverrideReadable := by
  unfold Candidate.restoredOverride Candidate.OverrideReadable
  show storeOverride (originalOverride (showOverride c.override)) = c.override ↔ _
  cases c.override with
  | none => exact iff_of_true (by decide) fun _ => rfl
  | some name =>
    unfold originalOverride
    by_cases hnull : strip (showOverride (some name)) = "(null)".toList
    · have hcleared : storeOverride ['\n'] = none := by decide
      rw [if_pos hnull, hcleared]
      exact iff_of_false (by simp) fun h => by simpa using h hnull
    · rw [if_neg hnull]
      exact iff_of_true (storeOverride_showOverride name) fun h => absurd h hnull

/-! ## The exit stack -/

/-- Calls of `restore`, each with its own outcomes, whether they raise or not. -/
def restoreAll (rs : List (RestoreAction → Outcome)) (s : Host) : Host :=
  rs.foldl (fun s r => stateOf (restore r s)) s

theorem lent_restoreAll {t : Nic} (rs : List (RestoreAction → Outcome)) (h : Lent c t s) :
    Lent c t (restoreAll rs s) := by
  induction rs generalizing s with
  | nil => exact h
  | cons r rs ih =>
    apply ih
    exact ((restore_spec r).weaken (fun _ h => h) (fun _ _ h => h.1) fun _ h => h.1).stateOf h

/-- Without a flag `restore` does nothing. -/
theorem restore_idle (r : RestoreAction → Outcome)
    (h : s.own.driverTouched = false ∧ s.own.profileDown = false) :
    restore r s = .ok ⟨⟩ s := by
  simp [restore, h.1, h.2]

end Run

/-- A NIC with an active connection and no override. -/
def labCandidate : Candidate where
  pci := "0000:03:00.0"
  net := "enp3s0"
  driver := .igb
  override := none
  active := some "uuid"
  connectionUuid := some "uuid"
  uuid_active := fun _ h => h

/-- `nmcli connection down` takes the profile down and then times out. -/
def lateDisconnect : Env where
  outcome
    | .nmcliDown => .failAfter
    | _ => .success
  hasAddresses := false
  hasRoutes := false
  restore := fun _ => .success

end LinuxMaxxing.VirtVtd
