import LinuxMaxxing.Framework.ValidateErrors

/-!
# The Quality of an Event

`quality` of `runtime.py` names the observations of a payload that are cut short. `record` puts
it into the event; the validation does not compute it again, it only checks that the status and
the reasons of an event agree.

- `walk`: the reasons, by recursion on the payload;
- `Flagged`: the payload has, at whatever depth, an observation that is cut short;
- `walk_eq_nil_iff`: there are reasons exactly for these payloads;
- `accepted_quality`: what the qualities of an accepted capture say.
-/

namespace LinuxMaxxing.Framework

open LinuxMaxxing.Lib

/-! ## `quality` -/

/-- `child not in (False, "0", None)` -/
def isSet (child : PyValue) : Bool :=
  !(child.eq (.bool false) || child.isText (text "0") || child.eq .none)

/-- The test on one member of an object. -/
def cutShort (key : Text) (child : PyValue) : Bool :=
  (decide (text "truncated" <:+: key) && isSet child) ||
    (decide (key = text "sample_status") && !child.isOneOf ["complete", "ok"])

section Walk

variable (str : PyValue → Text)

mutual

/-- The inner `walk`: the reasons that it appends; `str` is that of Python. -/
def walk (value : PyValue) (path : Text) : List Text :=
  match value with
  | .dict ms => walkMembers ms path
  | .list vs => walkItems vs 0 path
  | _ => []

def walkMembers (ms : List (Text × PyValue)) (path : Text) : List Text :=
  match ms with
  | [] => []
  | (key, child) :: ms =>
    let loc := path ++ text "." ++ key
    (if cutShort key child then [loc ++ text "=" ++ str child] else []) ++
      walk child loc ++ walkMembers ms path

def walkItems (vs : List PyValue) (i : Nat) (path : Text) : List Text :=
  match vs with
  | [] => []
  | child :: vs =>
    walk child (path ++ text "[" ++ text (toString i) ++ text "]") ++ walkItems vs (i + 1) path

end

/-- `quality` -/
def quality (data : PyValue) : PyValue :=
  let reasons := walk str data (text "data")
  .dict [(text "status", .str (if reasons.isEmpty then text "complete" else text "partial")),
    (text "reasons", .list (reasons.map .str))]

end Walk

/-! ## Payloads that are cut short -/

/-- At some depth there is a set `truncated` flag or a `sample_status` that is neither
    `complete` nor `ok`. -/
inductive Flagged : PyValue → Prop
  | here {ms : List (Text × PyValue)} {key : Text} {child : PyValue} :
      (key, child) ∈ ms → cutShort key child = true → Flagged (.dict ms)
  | member {ms : List (Text × PyValue)} {key : Text} {child : PyValue} :
      (key, child) ∈ ms → Flagged child → Flagged (.dict ms)
  | item {vs : List PyValue} {child : PyValue} : child ∈ vs → Flagged child → Flagged (.list vs)

section Flagged

theorem flagged_list {vs : List PyValue} : Flagged (.list vs) ↔ ∃ child ∈ vs, Flagged child := by
  constructor
  · intro h
    cases h with
    | item hchild hflagged => exact ⟨_, hchild, hflagged⟩
  · rintro ⟨child, hchild, hflagged⟩
    exact .item hchild hflagged

theorem flagged_dict {ms : List (Text × PyValue)} :
    Flagged (.dict ms) ↔ ∃ m ∈ ms, cutShort m.1 m.2 = true ∨ Flagged m.2 := by
  constructor
  · intro h
    cases h with
    | here hm hcut => exact ⟨_, hm, .inl hcut⟩
    | member hm hflagged => exact ⟨_, hm, .inr hflagged⟩
  · rintro ⟨m, hm, hcut | hflagged⟩
    · exact .here hm hcut
    · exact .member hm hflagged

mutual

/-- **The walk** finds a reason exactly where there is one. By recursion on the payload. -/
theorem walk_eq_nil_iff (str : PyValue → Text) (value : PyValue) (path : Text) :
    walk str value path = [] ↔ ¬ Flagged value := by
  cases value with
  | dict ms =>
    rw [walk, walkMembers_eq_nil_iff str ms path, flagged_dict]
    simp only [not_exists, not_and]
  | list vs =>
    rw [walk, walkItems_eq_nil_iff str vs 0 path, flagged_list]
    simp only [not_exists, not_and]
  | _ =>
    -- a scalar has no members and no elements
    refine iff_of_true (by simp [walk]) fun h => ?_
    cases h

theorem walkMembers_eq_nil_iff (str : PyValue → Text) (ms : List (Text × PyValue))
    (path : Text) :
    walkMembers str ms path = [] ↔ ∀ m ∈ ms, ¬ (cutShort m.1 m.2 = true ∨ Flagged m.2) := by
  cases ms with
  | nil => simp [walkMembers]
  | cons m ms =>
    obtain ⟨key, child⟩ := m
    rw [walkMembers, List.append_eq_nil_iff, List.append_eq_nil_iff,
      walk_eq_nil_iff str child, walkMembers_eq_nil_iff str ms path, List.forall_mem_cons]
    refine and_congr_left fun _ => ?_
    cases cutShort key child with
    | true => simp
    | false => simp

theorem walkItems_eq_nil_iff (str : PyValue → Text) (vs : List PyValue) (i : Nat)
    (path : Text) :
    walkItems str vs i path = [] ↔ ∀ child ∈ vs, ¬ Flagged child := by
  cases vs with
  | nil => simp [walkItems]
  | cons child vs =>
    rw [walkItems, List.append_eq_nil_iff, walk_eq_nil_iff str child,
      walkItems_eq_nil_iff str vs (i + 1) path, List.forall_mem_cons]

end

end Flagged

/-! ## What the validation checks of a quality -/

/-- A quality that agrees with itself. -/
structure Consistent (q : PyValue) (status : Text) (reasons : List PyValue) : Prop where
  keys : q.keysAre qualityKeys = .ok true
  status_eq : q.getItem "status" = .ok (.str status)
  reasons_eq : q.getItem "reasons" = .ok (.list reasons)
  complete_iff : status = text "complete" ↔ reasons = []

theorem isText_str {s t : Text} : (PyValue.str s).isText t = true ↔ s = t := by
  simp [PyValue.isText, PyValue.eq]

theorem eq_nil_list {vs : List PyValue} : (PyValue.list vs).eq (.list []) = true ↔ vs = [] := by
  cases vs with
  | nil => simp [PyValue.eq, PyValue.eqList]
  | cons v vs => simp [PyValue.eq, PyValue.eqList]

theorem consistent_of_checkQuality {event : PyValue} (h : checkQuality event = .ok ()) :
    ∃ q status reasons, event.getItem "quality" = .ok q ∧ Consistent q status reasons := by
  unfold checkQuality at h
  obtain ⟨q, hq, h⟩ := bind_eq_ok.mp h
  obtain ⟨same, hkeys, h⟩ := bind_eq_ok.mp h
  obtain ⟨_, hsame, h⟩ := bind_eq_ok.mp h
  obtain ⟨status, hstatus, h⟩ := bind_eq_ok.mp h
  obtain ⟨_, hone, h⟩ := bind_eq_ok.mp h
  obtain ⟨reasons, hreasons, h⟩ := bind_eq_ok.mp h
  obtain ⟨_, hlist, h⟩ := bind_eq_ok.mp h
  -- the last comparison reads both members again
  rw [hstatus, hreasons] at h
  have hagree := orRaise_eq_ok.mp h
  obtain ⟨n, _, rfl⟩ := PyValue.exists_of_isOneOf (orRaise_eq_ok.mp hone)
  rw [orRaise_eq_ok] at hsame hlist
  subst hsame
  cases reasons with
  | list rs =>
    refine ⟨q, text n, rs, hq, hkeys, hstatus, hreasons, ?_⟩
    rw [beq_iff_eq] at hagree
    rw [← isText_str, ← eq_nil_list, hagree]
  | _ => cases hlist

/-- A step that is taken under a condition went well, and so did the rest. -/
theorem of_guarded {c : Bool} {x rest : Except PyExn Unit}
    (h : (if c = true then x >>= fun _ => rest else rest) = .ok ()) :
    (c = true → x = .ok ()) ∧ rest = .ok () := by
  cases c with
  | true =>
    obtain ⟨_, hx, hrest⟩ := bind_eq_ok.mp h
    exact ⟨fun _ => hx, hrest⟩
  | false => exact ⟨fun hc => absurd hc Bool.false_ne_true, h⟩

/-- Every status is complete, or partial where this is allowed. -/
theorem requireEvents_ok {allowPartial : Bool} {events : List PyValue}
    (h : requireEvents allowPartial events = .ok ()) :
    ∀ event ∈ events, ∃ q status, event.getItem "quality" = .ok q ∧
      q.getItem "status" = .ok status ∧ (status = .str (text "complete") ∨
        allowPartial = true ∧ status = .str (text "partial")) := by
  induction events with
  | nil => exact fun event hevent => absurd hevent List.not_mem_nil
  | cons event events ih =>
    rw [requireEvents] at h
    obtain ⟨kind, -, h⟩ := bind_eq_ok.mp h
    obtain ⟨q, hq, h⟩ := bind_eq_ok.mp (of_guarded h).2
    obtain ⟨status, hstatus, h⟩ := bind_eq_ok.mp h
    obtain ⟨hshort, h⟩ := of_guarded h
    have hrest := ih (of_guarded h).2
    intro e he
    rcases List.mem_cons.mp he with rfl | he
    · refine ⟨q, status, hq, hstatus, ?_⟩
      cases hcomplete : status.isText (text "complete") with
      | true => exact .inl (PyValue.eq_of_isText hcomplete)
      | false =>
        have hallowed := orRaise_eq_ok.mp (hshort (by rw [hcomplete]; rfl))
        obtain ⟨hallow, htext⟩ := Bool.and_eq_true_iff.mp hallowed
        exact .inr ⟨hallow, PyValue.eq_of_isText htext⟩
    · exact hrest e he

/-- A status that is equal to that of `quality`. -/
theorem status_of_eq_quality {str : PyValue → Text} {q data : PyValue} {status : Text}
    (hstatus : q.getItem "status" = .ok (.str status)) (h : q.eq (quality str data) = true) :
    status = text "complete" ↔ ¬ Flagged data := by
  obtain ⟨qm, rfl, hlookup⟩ := PyValue.getItem_eq_ok hstatus
  obtain ⟨l₁, l₂, hsplit, -⟩ := List.lookup_eq_some_iff.mp hlookup
  rw [quality, PyValue.eq, Bool.and_eq_true] at h
  obtain ⟨b, hb, hsame⟩ := PyValue.exists_of_eqMembers h.2 (text "status", .str status)
    (by rw [hsplit]; exact List.mem_append_right _ List.mem_cons_self)
  obtain rfl := Option.some.inj hb
  rw [← walk_eq_nil_iff str data (text "data"), isText_str.mp hsame]
  cases walk str data (text "data") with
  | nil => exact iff_of_true rfl rfl
  | cons reason reasons => 
    refine iff_of_false ?_ (List.cons_ne_nil reason reasons)
    show ¬ text "partial" = text "complete"
    decide

/-! ## Accepted captures -/

/-- The quality of the event is the one that `record` gives to its payload. -/
def Computed (str : PyValue → Text) (event : PyValue) : Prop :=
  ∃ q data, event.getItem "quality" = .ok q ∧ event.getItem "data" = .ok data ∧
    q.eq (quality str data) = true

/-- The payload of the event is not cut short. -/
def Whole (event : PyValue) : Prop :=
  ∃ data, event.getItem "data" = .ok data ∧ ¬ Flagged data

theorem checkQuality_of_validateRecord {event : PyValue} {name : Text} {catalog : Catalog}
    {sequence : Nat} (h : validateRecord event name catalog sequence = .ok ()) :
    checkQuality event = .ok () := by
  unfold validateRecord at h
  obtain ⟨_, -, h⟩ := bind_eq_ok.mp h
  obtain ⟨_, -, h⟩ := bind_eq_ok.mp h
  obtain ⟨_, -, h⟩ := bind_eq_ok.mp h
  obtain ⟨_, -, h⟩ := bind_eq_ok.mp h
  obtain ⟨_, hquality, -⟩ := bind_eq_ok.mp h
  exact hquality

/-- The loop over the events went through with the manifest of the experiment. -/
theorem requireEvents_of_validate {limits : Limits} {repo : Repo} {content name : Text}
    {events : List PyValue}
    (h : validate limits repo content name true = .ok events) :
    requireEvents (repo.manifest name).allowPartial events = .ok () := by
  unfold validate at h
  obtain ⟨catalog, -, h⟩ := bind_eq_ok.mp h
  obtain ⟨es, -, h⟩ := bind_eq_ok.mp h
  obtain ⟨_, -, h⟩ := bind_eq_ok.mp h
  obtain ⟨_, -, h⟩ := bind_eq_ok.mp h
  obtain ⟨failed, -, h⟩ := bind_eq_ok.mp h
  obtain ⟨_, -, h⟩ := bind_eq_ok.mp h
  simp only [if_true] at h
  obtain ⟨_, hevidence, h⟩ := bind_eq_ok.mp h
  obtain rfl := Except.ok.inj h
  unfold validateEvidence at hevidence
  obtain ⟨cfg, hcfg, hevidence⟩ := bind_eq_ok.mp hevidence
  have hmanifest : cfg = repo.manifest name := by
    unfold manifest at hcfg
    obtain ⟨_, -, hcfg⟩ := bind_eq_ok.mp hcfg
    obtain ⟨_, -, hcfg⟩ := bind_eq_ok.mp hcfg
    exact (Except.ok.inj hcfg).symm
  obtain ⟨_, -, hevidence⟩ := bind_eq_ok.mp hevidence
  obtain ⟨_, -, hevidence⟩ := bind_eq_ok.mp hevidence
  obtain ⟨_, -, hevidence⟩ := bind_eq_ok.mp hevidence
  obtain ⟨_, -, hevidence⟩ := bind_eq_ok.mp hevidence
  obtain ⟨_, -, hevidence⟩ := bind_eq_ok.mp hevidence
  obtain ⟨_, -, hevidence⟩ := bind_eq_ok.mp hevidence
  obtain ⟨_, -, hevidence⟩ := bind_eq_ok.mp hevidence
  obtain ⟨_, -, hevidence⟩ := bind_eq_ok.mp hevidence
  obtain ⟨_, hloop, -⟩ := bind_eq_ok.mp hevidence
  rw [← hmanifest]
  exact hloop

/-- **Accepted qualities** agree with themselves and with what the experiment allows. Where they
    are the ones that `record` computed they are complete exactly for the payloads that are not
    cut short. -/
theorem accepted_quality (str : PyValue → Text) (limits : Limits) (repo : Repo)
    (content name : Text)
    (events : List PyValue) (h : validate limits repo content name true = .ok events) :
    ∀ event ∈ events, ∃ q status reasons, event.getItem "quality" = .ok q ∧
      Consistent q status reasons ∧
      (status = text "complete" ∨
        (repo.manifest name).allowPartial = true ∧ status = text "partial") ∧
      (Computed str event → (status = text "complete" ↔ Whole event) ∧
        ((repo.manifest name).allowPartial = false → Whole event)) := by
  obtain ⟨catalog, vs, haccepted⟩ := validate_ok h
  have hevents := requireEvents_of_validate h
  intro event hevent
  obtain ⟨i, hi⟩ := List.mem_iff_getElem?.mp hevent
  obtain ⟨q, status, reasons, hq, hconsistent⟩ :=
    consistent_of_checkQuality (checkQuality_of_validateRecord (haccepted.records i event hi))
  have hallowed : status = text "complete" ∨
      (repo.manifest name).allowPartial = true ∧ status = text "partial" := by
    obtain ⟨q', status', hq', hstatus', hallowed⟩ := requireEvents_ok hevents event hevent
    obtain rfl := Except.ok.inj (hq.symm.trans hq')
    obtain rfl := Except.ok.inj (hconsistent.status_eq.symm.trans hstatus')
    simpa only [PyValue.str.injEq] using hallowed
  refine ⟨q, status, reasons, hq, hconsistent, hallowed, ?_⟩
  rintro ⟨q', data, hq', hdata, hsame⟩
  obtain rfl := Except.ok.inj (hq.symm.trans hq')
  have hflagged := status_of_eq_quality hconsistent.status_eq hsame
  have hwhole : Whole event ↔ ¬ Flagged data := by
    constructor
    · rintro ⟨data', hdata', hnot⟩
      obtain rfl := Except.ok.inj (hdata.symm.trans hdata')
      exact hnot
    · exact fun hnot => ⟨data, hdata, hnot⟩
  refine ⟨hflagged.trans hwhole.symm, fun hforbidden => ?_⟩
  rcases hallowed with hcomplete | ⟨hallow, -⟩
  · exact hwhole.mpr (hflagged.mp hcomplete)
  · exact absurd (hforbidden.symm.trans hallow) Bool.false_ne_true

/-! ## A capture with a quality of its own -/

/-- The contract `ebpf:guest_ixgbe_close` of `virt-vtd`. -/
def guestIxgbeClose : Spec :=
  closedSpec [
    ("event_info", closedSpec [("hook", scalarSpec .string), ("operation", scalarSpec .string),
      ("request_id", scalarSpec .integer64), ("sample_status", scalarSpec .string),
      ("fd", scalarSpec .integer64), ("command", scalarSpec .hex),
      ("argsz", scalarSpec .integer64), ("flags", scalarSpec .integer64),
      ("slot", scalarSpec .integer64), ("result", scalarSpec .integer64)]),
    ("state", closedSpec [("execution", closedSpec [("episode_id", scalarSpec .integer64),
      ("phase", scalarSpec .string)])]),
    ("producer_sequence", scalarSpec .integer64)]

/-- An experiment that does not allow partial observations. -/
def closeRepo : Repo where
  names := [text "virt-vtd"]
  manifest := fun _ => ⟨text "virt-vtd", [], false⟩
  payloads := fun _ => some ⟨[(text "ebpf:guest_ixgbe_close", guestIxgbeClose)], none⟩
  lifecycle := lifecycleCatalog

/-- One record of a capture whose quality says that it is complete. -/
def completeLine (sequence mechanism kind data : String) : Text :=
  text "\x7b\"experiment\":\"virt-vtd\",\"sequence\":" ++ text sequence ++
    text ",\"source\":\x7b\"collector\":\"vtd\",\"mechanism\":\"" ++ text mechanism ++
    text "\",\"domain\":\"host\",\"hook\":null\x7d,\"kind\":\"" ++ text kind ++
    text "\",\"timestamp_ns\":\"7\",\"clock_domain\":\"host:monotonic\"," ++
    text "\"context\":\x7b\"cpu\":0,\"pid\":null,\"tid\":null,\"comm\":null,\"phase\":null," ++
    text "\"operation\":null\x7d,\"quality\":\x7b\"status\":\"complete\",\"reasons\":[]\x7d," ++
    text "\"data\":" ++ text data ++ text "\x7d\n"

/-- A capture that calls an event complete whose arguments could not be read. -/
def closeCapture : Text :=
  completeLine "1" "framework" "capture_started"
    ("\x7b\"environment\":\x7b\"kernel\":\"k\",\"architecture\":\"x86_64\",\"os\":\"o\"," ++
      "\"packages\":[],\"image_sha256\":\"\",\"kernel_revision\":\"r\",\"qemu\":\"q\"\x7d," ++
      "\"source_digest\":\"d\",\"enabled\":[],\"skipped\":[]\x7d") ++
  completeLine "2" "framework" "collector_ready" "\x7b\"collector\":\"vtd\"\x7d" ++
  completeLine "3" "ebpf" "guest_ixgbe_close"
    ("\x7b\"event_info\":\x7b\"hook\":\"h\",\"operation\":\"none\",\"request_id\":\"0\"," ++
      "\"sample_status\":\"read_failed\",\"fd\":\"0\",\"command\":\"0x0\",\"argsz\":\"0\"," ++
      "\"flags\":\"0\",\"slot\":\"0\",\"result\":\"0\"\x7d,\"state\":\x7b\"execution\":" ++
      "\x7b\"episode_id\":\"0\",\"phase\":\"none\"\x7d\x7d,\"producer_sequence\":\"1\"\x7d") ++
  completeLine "4" "framework" "collector_finished"
    "\x7b\"collector\":\"vtd\",\"dropped\":\"0\",\"failures\":\"0\"\x7d" ++
  completeLine "5" "framework" "capture_finished"
    "\x7b\"validated\":true,\"restored\":true\x7d"

/-- An event with reasons that its quality does not have. -/
def unreported (event : PyValue) : Bool :=
  match event.getItem "quality", event.getItem "data" with
  | .ok q, .ok data =>
    !q.eq (quality (fun _ => []) data) && !(walk (fun _ => []) data (text "data")).isEmpty
  | _, _ => false

theorem not_computed_of_unreported {event : PyValue} (h : unreported event = true) :
    ¬ Computed (fun _ => []) event ∧ ¬ Whole event := by
  unfold unreported at h
  split at h
  · next q data hq hdata =>
    rw [Bool.and_eq_true, Bool.not_eq_true', Bool.not_eq_true'] at h
    constructor
    · rintro ⟨q', data', hq', hdata', hsame⟩
      obtain rfl := Except.ok.inj (hq.symm.trans hq')
      obtain rfl := Except.ok.inj (hdata.symm.trans hdata')
      exact absurd (h.1.symm.trans hsame) Bool.false_ne_true
    · rintro ⟨data', hdata', hnot⟩
      obtain rfl := Except.ok.inj (hdata.symm.trans hdata')
      rw [(walk_eq_nil_iff (fun _ => []) data (text "data")).mpr hnot] at h
      exact absurd h.2 (by decide)
  · cases h

/-- The capture is accepted, and one of its events is such an event. -/
theorem closeCapture_valid :
    ∃ events, validate cpython closeRepo closeCapture (text "virt-vtd") true = .ok events ∧
      ∃ event ∈ events, unreported event = true := by
  have hany : (match validate cpython closeRepo closeCapture (text "virt-vtd") true with
      | .ok events => events.any unreported
      | .error _ => false) = true := by decide +kernel
  split at hany
  · next events hvalid => exact ⟨events, hvalid, List.any_eq_true.mp hany⟩
  · cases hany

theorem accepted_quality_closeCapture :
    ∃ events, validate cpython closeRepo closeCapture (text "virt-vtd") true = .ok events ∧
      ∀ event ∈ events, ∃ q status reasons, event.getItem "quality" = .ok q ∧
        Consistent q status reasons ∧ status = text "complete" := by
  obtain ⟨events, hvalid, -⟩ := closeCapture_valid
  refine ⟨events, hvalid, fun event hevent => ?_⟩
  obtain ⟨q, status, reasons, hq, hconsistent, hallowed, -⟩ :=
    accepted_quality (fun _ => []) cpython closeRepo closeCapture (text "virt-vtd") events hvalid event
      hevent
  refine ⟨q, status, reasons, hq, hconsistent, hallowed.resolve_right ?_⟩
  rintro ⟨hallow, -⟩
  exact absurd hallow (by decide)

/-- **An accepted quality** need not be the one that belongs to the payload, nor does it keep
    payloads that are cut short out of an experiment that does not allow them. -/
theorem accepted_quality_not_computed :
    (¬ ∀ (str : PyValue → Text) (limits : Limits) (repo : Repo) (content name : Text)
      (events : List PyValue), validate limits repo content name true = .ok events → ∀ event ∈ events, Computed str event) ∧
    ¬ ∀ (limits : Limits) (repo : Repo) (content name : Text) (events : List PyValue),
      validate limits repo content name true = .ok events →
        (repo.manifest name).allowPartial = false → ∀ event ∈ events, Whole event := by
  obtain ⟨events, hvalid, event, hevent, hunreported⟩ := closeCapture_valid
  obtain ⟨hcomputed, hwhole⟩ := not_computed_of_unreported hunreported
  constructor
  · intro hclaim
    exact hcomputed (hclaim _ cpython closeRepo closeCapture (text "virt-vtd") events hvalid event hevent)
  · intro hclaim
    exact hwhole (hclaim cpython closeRepo closeCapture (text "virt-vtd") events hvalid rfl event hevent)

end LinuxMaxxing.Framework
