import LinuxMaxxing.Lib.Exceptions
import LinuxMaxxing.Framework.Validate

/-!
# What the Validation Raises

`validate` takes records apart before it knows what they are: `event["kind"]`, `set(source)`,
`source["mechanism"] + ":" + event["kind"]`. Where these do not fit, an exception that is no
`LabError` leaves it.

- `Fits`: `set(value) == {…}` does not raise, and only an object passes it;
- `RecordFits`: the same along the checks of a record, as far as they go;
- `Contracts`: what the contracts of the repository are like;
- `validate_labError_iff`: only `LabError` is raised exactly when the records fit.
-/

namespace LinuxMaxxing.Framework

open LinuxMaxxing.Lib

/-! ## Sets of keys -/

/-- The exception is a `LabError`. -/
def IsLab (e : PyExn) : Prop := ∃ l, e = .lab l

/-- The value is an object, a text, or an array of scalars that are not these names. -/
def Fits (value : PyValue) (names : List String) : Prop :=
  match value with
  | .dict _ => True
  | .str _ => True
  | .list vs => vs.all PyValue.hashable = true ∧ value.keysAre names ≠ .ok true
  | _ => False

theorem isLab_orRaise {condition : Bool} {e : LabError} : OnlyRaises IsLab (orRaise condition e) := by
  unfold orRaise
  split
  · exact onlyRaises_ok _
  · exact (onlyRaises_error _).mpr ⟨e, rfl⟩

/-- An object with these keys has each of them. -/
theorem lookup_of_keysAre {ms : List (Text × PyValue)} {names : List String}
    (h : (PyValue.dict ms).keysAre names = .ok true) {n : String} (hn : n ∈ names) :
    ∃ v, ms.lookup (text n) = some v := by
  have hall : (names.all fun n => (ms.map fun m => PyValue.str m.1).any (·.isText (text n))) = true :=
    (Bool.and_eq_true_iff.mp (Except.ok.inj h)).2
  obtain ⟨key, hkey, hsame⟩ := List.any_eq_true.mp (List.all_eq_true.mp hall n hn)
  obtain ⟨m, hm, rfl⟩ := List.mem_map.mp hkey
  have hname : m.1 = text n := PyValue.str.inj (PyValue.eq_of_isText hsame)
  exact Option.isSome_iff_exists.mp
    (List.lookup_isSome_iff.mpr ⟨m, hm, by rw [hname]; exact beq_self_eq_true _⟩)

/-- The symbols of a text are no names. -/
theorem keysAre_str_ne {s : Text} {names : List String} (h : ∃ n ∈ names, (text n).length ≠ 1) :
    (PyValue.str s).keysAre names ≠ .ok true := by
  intro heq
  obtain ⟨n, hn, hlength⟩ := h
  have hall : (names.all fun n => (s.map fun c => PyValue.str [c]).any (·.isText (text n))) = true :=
    (Bool.and_eq_true_iff.mp (Except.ok.inj heq)).2
  obtain ⟨symbol, hsymbol, hsame⟩ := List.any_eq_true.mp (List.all_eq_true.mp hall n hn)
  obtain ⟨c, _, rfl⟩ := List.mem_map.mp hsymbol
  rw [← PyValue.str.inj (PyValue.eq_of_isText hsame)] at hlength
  exact hlength rfl

/-- A comparison of the keys that has a result: what comes after it is reached when they agree. -/
theorem onlyRaises_keysAre_ok {value : PyValue} {names : List String} {e : LabError}
    {rest : Unit → Except PyExn Unit} {same : Bool} (hsame : value.keysAre names = .ok same) :
    OnlyRaises IsLab (value.keysAre names >>= fun same => orRaise same e >>= rest) ↔
      (same = true → OnlyRaises IsLab (rest ())) := by
  rw [onlyRaises_bind_ok hsame]
  cases same with
  | true => exact ⟨fun h _ => h, fun h => h rfl⟩
  | false =>
    refine iff_of_true (isLab_orRaise.bind fun _ h => ?_) fun h => absurd h Bool.false_ne_true
    cases h

/-- A comparison of the keys that raises a `TypeError`. -/
theorem not_onlyRaises_keysAre {value : PyValue} {names : List String} {e : LabError}
    {rest : Unit → Except PyExn Unit} (herror : value.keysAre names = .error .typeError) :
    ¬ OnlyRaises IsLab (value.keysAre names >>= fun same => orRaise same e >>= rest) := by
  intro h
  rw [herror] at h
  obtain ⟨l, hl⟩ := (onlyRaises_error PyExn.typeError).mp h
  cases hl

/-- **A check of the keys**, with what comes after it: only an object goes on. -/
theorem onlyRaises_keysAre {value : PyValue} {names : List String} {e : LabError}
    {rest : Unit → Except PyExn Unit} (hnames : ∃ n ∈ names, (text n).length ≠ 1)
    (hlist : ∀ vs, value = .list vs → value.keysAre names = .ok true → ¬ OnlyRaises IsLab (rest ())) :
    OnlyRaises IsLab (value.keysAre names >>= fun same => orRaise same e >>= rest) ↔
      Fits value names ∧
        (∀ ms, value = .dict ms → value.keysAre names = .ok true → OnlyRaises IsLab (rest ())) := by
  cases value with
  | dict ms =>
    rw [onlyRaises_keysAre_ok rfl]
    constructor
    · rintro h
      exact ⟨trivial, fun _ _ hsame => h (Except.ok.inj hsame)⟩
    · rintro ⟨-, h⟩ hsame
      exact h ms rfl (congrArg Except.ok hsame)
  | str s =>
    -- the set of a text is that of its symbols
    rw [onlyRaises_keysAre_ok rfl]
    constructor
    · exact fun _ => ⟨trivial, fun _ heq => nomatch heq⟩
    · rintro _ hsame
      exact absurd (congrArg Except.ok hsame) (keysAre_str_ne hnames)
  | list vs =>
    cases hvs : vs.all PyValue.hashable with
    | false =>
      have herror : (PyValue.list vs).keysAre names = .error .typeError := by
        rw [PyValue.keysAre, PyValue.setOf, hvs]
        rfl
      refine iff_of_false (not_onlyRaises_keysAre herror) ?_
      rintro ⟨⟨hall, _⟩, _⟩
      rw [hvs] at hall
      cases hall
    | true =>
      obtain ⟨same, hsame⟩ : ∃ same, (PyValue.list vs).keysAre names = .ok same := by
        rw [PyValue.keysAre, PyValue.setOf, hvs]
        exact ⟨_, rfl⟩
      rw [onlyRaises_keysAre_ok hsame]
      constructor
      · intro h
        refine ⟨⟨hvs, fun htrue => ?_⟩, fun _ heq => nomatch heq⟩
        refine hlist vs rfl htrue (h ?_)
        rw [hsame] at htrue
        exact Except.ok.inj htrue
      · rintro ⟨⟨_, hne⟩, _⟩ rfl
        exact absurd hsame hne
  | _ => exact iff_of_false (not_onlyRaises_keysAre rfl) fun h => h.1.elim

/-! ## The checks of a record -/

theorem getItem_dict {ms : List (Text × PyValue)} {key : String} {v : PyValue}
    (h : ms.lookup (text key) = some v) : (PyValue.dict ms).getItem key = .ok v := by
  rw [PyValue.getItem, h]

/-- Reading a key of an array raises a `TypeError`. -/
theorem not_onlyRaises_getItem_list {vs : List PyValue} {key : String}
    {rest : PyValue → Except PyExn Unit} :
    ¬ OnlyRaises IsLab ((PyValue.list vs).getItem key >>= rest) := by
  intro h
  obtain ⟨l, hl⟩ := (onlyRaises_error PyExn.typeError).mp h
  cases hl

/-- **The envelope** raises only `LabError` when it fits. -/
theorem onlyRaises_checkEnvelope {event : PyValue} {name : Text} {sequence : Nat} :
    OnlyRaises IsLab (checkEnvelope event name sequence) ↔ Fits event envelope := by
  refine (onlyRaises_keysAre ⟨"experiment", by decide, by decide⟩ ?_).trans
    (and_iff_left ?_)
  · rintro vs rfl _
    exact not_onlyRaises_getItem_list
  · rintro ms rfl hkeys
    obtain ⟨experiment, hexperiment⟩ := lookup_of_keysAre hkeys (n := "experiment") (by decide)
    obtain ⟨number, hnumber⟩ := lookup_of_keysAre hkeys (n := "sequence") (by decide)
    rw [getItem_dict hexperiment, getItem_dict hnumber]
    exact isLab_orRaise.bind fun _ _ => isLab_orRaise

/-- An object with the keys of the envelope. -/
structure Enveloped (ms : List (Text × PyValue)) : Prop where
  has : ∀ n ∈ envelope, ∃ v, ms.lookup (text n) = some v

theorem enveloped_of_checkEnvelope {event : PyValue} {name : Text} {sequence : Nat}
    (h : checkEnvelope event name sequence = .ok ()) : ∃ ms, event = .dict ms ∧ Enveloped ms := by
  obtain ⟨ms, rfl, _⟩ := checkEnvelope_ok h
  unfold checkEnvelope at h
  obtain ⟨same, hsame, h⟩ := bind_eq_ok.mp h
  obtain ⟨_, htrue, -⟩ := bind_eq_ok.mp h
  rw [orRaise_eq_ok] at htrue
  subst htrue
  exact ⟨ms, rfl, ⟨fun n hn => lookup_of_keysAre hsame hn⟩⟩

section Checks

variable {ms : List (Text × PyValue)}

theorem onlyRaises_checkTimestamp (h : Enveloped ms) :
    OnlyRaises IsLab (checkTimestamp (.dict ms)) := by
  obtain ⟨stamp, hstamp⟩ := h.has "timestamp_ns" (by decide)
  unfold checkTimestamp
  rw [getItem_dict hstamp]
  cases stamp with
  | str s =>
    show OnlyRaises IsLab (orRaise (isNatural s) .invalidTimestamp)
    exact isLab_orRaise
  | _ => exact (onlyRaises_error _).mpr ⟨_, rfl⟩

/-- The keys of `source`. -/
def sourceKeys : List String := ["collector", "mechanism", "domain", "hook"]

theorem onlyRaises_checkClockDomain (h : Enveloped ms) {sm : List (Text × PyValue)}
    {domain : PyValue} (hdomain : sm.lookup (text "domain") = some domain) :
    OnlyRaises IsLab (checkClockDomain (.dict ms) (.dict sm)) := by
  obtain ⟨clock, hclock⟩ := h.has "clock_domain" (by decide)
  unfold checkClockDomain
  rw [getItem_dict hdomain, getItem_dict hclock]
  refine isLab_orRaise.bind fun _ hone => ?_
  obtain ⟨n, _, rfl⟩ := PyValue.exists_of_isOneOf (orRaise_eq_ok.mp hone)
  exact isLab_orRaise

theorem onlyRaises_checkSource (h : Enveloped ms) :
    OnlyRaises IsLab (checkSource (.dict ms)) ↔
      ∀ source, (PyValue.dict ms).getItem "source" = .ok source → Fits source sourceKeys := by
  obtain ⟨source, hsource⟩ := h.has "source" (by decide)
  have hone : (∀ v, (PyValue.dict ms).getItem "source" = .ok v → Fits v sourceKeys) ↔
      Fits source sourceKeys := by
    rw [getItem_dict hsource]
    exact ⟨fun hall => hall source rfl, fun hfits v hv => Except.ok.inj hv ▸ hfits⟩
  rw [hone]
  unfold checkSource
  rw [getItem_dict hsource]
  refine (onlyRaises_keysAre ⟨"collector", by decide, by decide⟩ ?_).trans (and_iff_left ?_)
  · rintro vs rfl _ hraises
    exact not_onlyRaises_getItem_list (onlyRaises_bind.mp hraises).1
  · rintro sm rfl hkeys
    obtain ⟨domain, hdomain⟩ := lookup_of_keysAre hkeys (n := "domain") (by decide)
    obtain ⟨mechanism, hmechanism⟩ := lookup_of_keysAre hkeys (n := "mechanism") (by decide)
    refine (onlyRaises_checkClockDomain h hdomain).bind fun _ _ => ?_
    rw [getItem_dict hmechanism]
    exact isLab_orRaise

theorem onlyRaises_checkContextFields {cm : List (Text × PyValue)} {check : PyValue → Bool}
    {keys : List String} (h : ∀ key ∈ keys, ∃ v, cm.lookup (text key) = some v) :
    OnlyRaises IsLab (checkContextFields (.dict cm) check keys) := by
  induction keys with
  | nil => exact onlyRaises_ok ()
  | cons key keys ih =>
    obtain ⟨v, hv⟩ := h key List.mem_cons_self
    rw [checkContextFields, getItem_dict hv]
    exact isLab_orRaise.bind fun _ _ => ih fun key hkey => h key (List.mem_cons_of_mem _ hkey)

theorem onlyRaises_checkContext (h : Enveloped ms) :
    OnlyRaises IsLab (checkContext (.dict ms)) ↔
      ∀ ctx, (PyValue.dict ms).getItem "context" = .ok ctx → Fits ctx contextKeys := by
  obtain ⟨ctx, hctx⟩ := h.has "context" (by decide)
  have hone : (∀ v, (PyValue.dict ms).getItem "context" = .ok v → Fits v contextKeys) ↔
      Fits ctx contextKeys := by
    rw [getItem_dict hctx]
    exact ⟨fun hall => hall ctx rfl, fun hfits v hv => Except.ok.inj hv ▸ hfits⟩
  rw [hone]
  unfold checkContext
  rw [getItem_dict hctx]
  refine (onlyRaises_keysAre ⟨"cpu", by decide, by decide⟩ ?_).trans (and_iff_left ?_)
  · rintro vs rfl _ hraises
    have hfirst := (onlyRaises_bind.mp hraises).1
    rw [checkContextFields] at hfirst
    exact not_onlyRaises_getItem_list hfirst
  · rintro cm rfl hkeys
    have hhas : ∀ key ∈ contextKeys, ∃ v, cm.lookup (text key) = some v :=
      fun key hkey => lookup_of_keysAre hkeys hkey
    refine (onlyRaises_checkContextFields fun key hkey => hhas key ?_).bind fun _ _ =>
      onlyRaises_checkContextFields fun key hkey => hhas key ?_
    · exact List.mem_append_left ["comm", "phase", "operation"] hkey
    · exact List.mem_append_right ["cpu", "pid", "tid"] hkey

/-- The keys of `quality`. -/
def qualityKeys : List String := ["status", "reasons"]

theorem onlyRaises_checkQuality (h : Enveloped ms) :
    OnlyRaises IsLab (checkQuality (.dict ms)) ↔
      ∀ q, (PyValue.dict ms).getItem "quality" = .ok q → Fits q qualityKeys := by
  obtain ⟨q, hq⟩ := h.has "quality" (by decide)
  have hone : (∀ v, (PyValue.dict ms).getItem "quality" = .ok v → Fits v qualityKeys) ↔
      Fits q qualityKeys := by
    rw [getItem_dict hq]
    exact ⟨fun hall => hall q rfl, fun hfits v hv => Except.ok.inj hv ▸ hfits⟩
  rw [hone]
  unfold checkQuality
  rw [getItem_dict hq]
  refine (onlyRaises_keysAre ⟨"status", by decide, by decide⟩ ?_).trans (and_iff_left ?_)
  · rintro vs rfl _
    exact not_onlyRaises_getItem_list
  · rintro qm rfl hkeys
    obtain ⟨status, hstatus⟩ := lookup_of_keysAre hkeys (n := "status") (by decide)
    obtain ⟨reasons, hreasons⟩ := lookup_of_keysAre hkeys (n := "reasons") (by decide)
    rw [getItem_dict hstatus, getItem_dict hreasons]
    exact isLab_orRaise.bind fun _ _ => isLab_orRaise.bind fun _ _ => isLab_orRaise

end Checks

/-! ## Contracts -/

/-- A contract has all that `check_type` reads of it, and so have those of its parts. -/
def Sound (types : List (Text × Spec)) (spec : Spec) : Prop :=
  ∃ S : Spec → Prop, S spec ∧ ∀ c, S c → ∃ s, resolve types c = .ok s ∧ s.typ ≠ none ∧
    (s.typ = some .object → ∃ props, s.fields = some props ∧ ∀ k f, props.lookup k = some f → S f) ∧
    (s.typ = some .array → ∃ item, s.items = some item ∧ S item)

section CheckType

variable {types : List (Text × Spec)}

theorem Sound.resolved {spec : Spec} (h : Sound types spec) :
    ∃ s, resolve types spec = .ok s ∧ s.typ ≠ none ∧
      (s.typ = some .object →
        ∃ props, s.fields = some props ∧ ∀ k f, props.lookup k = some f → Sound types f) ∧
      (s.typ = some .array → ∃ item, s.items = some item ∧ Sound types item) := by
  obtain ⟨S, hspec, hall⟩ := h
  obtain ⟨s, hs, htyp, hobject, harray⟩ := hall spec hspec
  refine ⟨s, hs, htyp, ?_, ?_⟩
  · intro heq
    obtain ⟨props, hprops, hfields⟩ := hobject heq
    exact ⟨props, hprops, fun k f hf => ⟨S, hfields k f hf, hall⟩⟩
  · intro heq
    obtain ⟨item, hitem, hS⟩ := harray heq
    exact ⟨item, hitem, S, hS, hall⟩

theorem onlyRaises_wrongType {typ : Option TypeName} (h : typ ≠ none) (path : Text) :
    OnlyRaises IsLab (wrongType typ path) := by
  cases typ with
  | none => exact absurd rfl h
  | some typ =>
    cases typ with
    | _ => exact (onlyRaises_error _).mpr ⟨_, rfl⟩

mutual

/-- **A payload** against a contract that is sound: only `LabError`. By recursion on the
    payload. -/
theorem onlyRaises_checkType (value : PyValue) {spec : Spec} (h : Sound types spec)
    (path : Text) : OnlyRaises IsLab (checkType types value spec path) := by
  obtain ⟨s, hs, htyp, hobject, harray⟩ := h.resolved
  rw [checkType.eq_def, hs]
  cases value with
  | none => exact isLab_orRaise
  | bool b =>
    dsimp only
    split
    · exact onlyRaises_ok ()
    · exact onlyRaises_wrongType htyp path
  | int z => exact onlyRaises_wrongType htyp path
  | float x => exact onlyRaises_wrongType htyp path
  | str t =>
    dsimp only
    split
    · exact onlyRaises_ok ()
    · exact isLab_orRaise
    · exact isLab_orRaise
    · exact onlyRaises_wrongType htyp path
  | list vs =>
    dsimp only
    split
    · next heq =>
      obtain ⟨item, hitem, hsound⟩ := harray heq
      rw [hitem]
      exact onlyRaises_checkItems vs hsound path
    · exact onlyRaises_wrongType htyp path
  | dict ms =>
    dsimp only
    split
    · next heq =>
      obtain ⟨props, hprops, hfields⟩ := hobject heq
      rw [hprops]
      dsimp only
      split
      · next hknown =>
        -- no member is unknown, so each has its contract
        refine onlyRaises_checkMembers ms (fun k hk => ?_) path
        have hsome : (props.lookup k).isSome := by
          by_contra hnone
          have hmem : k ∈ (ms.map Prod.fst).filter fun k => (props.lookup k).isNone := by
            refine List.mem_filter.mpr ⟨hk, ?_⟩
            cases hlookup : props.lookup k with
            | none => rfl
            | some f => exact absurd (by rw [hlookup]; rfl) hnone
          rw [hknown.1] at hmem
          exact absurd hmem List.not_mem_nil
        obtain ⟨f, hf⟩ := Option.isSome_iff_exists.mp hsome
        exact ⟨f, hf, hfields k f hf⟩
      · exact (onlyRaises_error _).mpr ⟨_, rfl⟩
    · exact onlyRaises_wrongType htyp path

theorem onlyRaises_checkItems (vs : List PyValue) {item : Spec} (h : Sound types item)
    (path : Text) : OnlyRaises IsLab (checkItems types vs (some item) path) := by
  cases vs with
  | nil => exact onlyRaises_ok ()
  | cons v vs =>
    rw [checkItems]
    exact (onlyRaises_checkType v h _).bind fun _ _ => onlyRaises_checkItems vs h path

theorem onlyRaises_checkMembers (ms : List (Text × PyValue)) {props : List (Text × Spec)}
    (h : ∀ k ∈ ms.map Prod.fst, ∃ f, props.lookup k = some f ∧ Sound types f) (path : Text) :
    OnlyRaises IsLab (checkMembers types ms props path) := by
  cases ms with
  | nil => exact onlyRaises_ok ()
  | cons m ms =>
    obtain ⟨k, v⟩ := m
    obtain ⟨f, hf, hsound⟩ := h k List.mem_cons_self
    rw [checkMembers, hf]
    exact (onlyRaises_checkType v hsound _).bind fun _ _ =>
      onlyRaises_checkMembers ms (fun k hk => h k (List.mem_cons_of_mem _ hk)) path

end

/-- Every member of an object has been checked against the contract of its key. -/
theorem checkMembers_lookup {ms : List (Text × PyValue)} {props : List (Text × Spec)}
    {path : Text} (h : checkMembers types ms props path = .ok ()) {k : Text} {v : PyValue}
    (hv : ms.lookup k = some v) :
    ∃ spec path', props.lookup k = some spec ∧ checkType types v spec path' = .ok () := by
  induction ms with
  | nil => exact absurd hv (by simp)
  | cons m ms ih =>
    obtain ⟨key, first⟩ := m
    rw [checkMembers] at h
    split at h
    · cases h
    · next spec hspec =>
      obtain ⟨_, hfirst, hrest⟩ := bind_eq_ok.mp h
      rw [List.lookup_cons] at hv
      cases hsame : k == key with
      | true =>
        rw [hsame] at hv
        obtain rfl := Option.some.inj hv
        exact ⟨spec, _, (eq_of_beq hsame) ▸ hspec, hfirst⟩
      | false =>
        rw [hsame] at hv
        exact ih hrest hv

/-- What passes the contract of an object that cannot be null. -/
theorem members_of_checkType {value : PyValue} {spec s : Spec} {path : Text}
    (h : checkType types value spec path = .ok ()) (hresolve : resolve types spec = .ok s)
    (htyp : s.typ = some .object) (hnull : s.nullable = false) {props : List (Text × Spec)}
    (hprops : s.fields = some props) :
    ∃ ms, value = .dict ms ∧ (∀ k ∈ s.required, ∃ v, ms.lookup k = some v) ∧
      ∀ k v, ms.lookup k = some v → ∃ f path', props.lookup k = some f ∧
        checkType types v f path' = .ok () := by
  rw [checkType.eq_def, hresolve] at h
  simp only [htyp, hnull] at h
  cases value with
  | dict ms =>
    simp only [hprops] at h
    split at h
    · next hknown =>
      refine ⟨ms, rfl, fun k hk => ?_, ?_⟩
      · by_contra hnone
        have hmem : k ∈ s.required.filter fun k => (ms.lookup k).isNone := by
          refine List.mem_filter.mpr ⟨hk, ?_⟩
          cases hlookup : ms.lookup k with
          | none => rfl
          | some v => exact absurd ⟨v, hlookup⟩ hnone
        rw [hknown.2] at hmem
        exact absurd hmem List.not_mem_nil
      · intro k v hv
        exact checkMembers_lookup h hv
    · cases h
  | none => exact absurd (orRaise_eq_ok.mp h) Bool.false_ne_true
  | _ => exact absurd h (wrongType_ne_ok _ _)

end CheckType

/-- A key that an object has to have. -/
structure Requires (types : List (Text × Spec)) (spec : Spec) (field : String)
    (P : Spec → Prop) : Prop where
  contract : ∃ s props f, resolve types spec = .ok s ∧ s.typ = some .object ∧ s.nullable = false ∧
    s.fields = some props ∧ text field ∈ s.required ∧ props.lookup (text field) = some f ∧ P f

/-- A text, which is not null. -/
def IsTextSpec (types : List (Text × Spec)) (f : Spec) : Prop :=
  ∃ s, resolve types f = .ok s ∧ s.typ = some .string ∧ s.nullable = false

/-- An object, which is not null. -/
def IsObjectSpec (types : List (Text × Spec)) (f : Spec) : Prop :=
  ∃ s props, resolve types f = .ok s ∧ s.typ = some .object ∧ s.nullable = false ∧
    s.fields = some props

/-- What the contracts of an experiment are like: those in `payloads.json` and in
    `lifecycle.json` are sound, a collector that is ready or finished names itself, one that is
    finished counts its losses, and the `state` of a summary is an object. -/
structure Contracts (repo : Repo) (name : Text) (catalog : Catalog) : Prop where
  catalog_eq : catalogOf repo name = .ok catalog
  sound : ∀ key spec, catalog.entries.lookup key = some spec → Sound catalog.types spec
  ready : ∀ mechanism spec,
    catalog.entries.lookup (mechanism ++ text ":" ++ text "collector_ready") = some spec →
    Requires catalog.types spec "collector" (IsTextSpec catalog.types)
  finished : ∀ mechanism spec,
    catalog.entries.lookup (mechanism ++ text ":" ++ text "collector_finished") = some spec →
    Requires catalog.types spec "collector" (IsTextSpec catalog.types) ∧
      Requires catalog.types spec "dropped" (fun _ => True) ∧
      Requires catalog.types spec "failures" (fun _ => True)
  summary : ∀ mechanism spec,
    catalog.entries.lookup (mechanism ++ text ":" ++ text "collector_summary") = some spec →
    ∃ s props, resolve catalog.types spec = .ok s ∧ s.typ = some .object ∧ s.nullable = false ∧
      s.fields = some props ∧ ∀ f, props.lookup (text "state") = some f →
        IsObjectSpec catalog.types f

/-! ## Records -/

/-- Along the checks of a record, as far as they go, each part fits what is done with it. -/
def RecordFits (event : PyValue) (name : Text) (sequence : Nat) : Prop :=
  Fits event envelope ∧
    (checkEnvelope event name sequence = .ok () → checkTimestamp event = .ok () →
      (∀ source, event.getItem "source" = .ok source → Fits source sourceKeys) ∧
      (checkSource event = .ok () →
        (∀ ctx, event.getItem "context" = .ok ctx → Fits ctx contextKeys) ∧
        (checkContext event = .ok () →
          (∀ q, event.getItem "quality" = .ok q → Fits q qualityKeys) ∧
          (checkQuality event = .ok () →
            ∃ kind, event.getItem "kind" = .ok (.str kind)))))

/-- The mechanism of a record whose source is accepted. -/
theorem mechanism_of_checkSource {event : PyValue} (h : checkSource event = .ok ()) :
    ∃ source m, event.getItem "source" = .ok source ∧
      source.getItem "mechanism" = .ok (.str m) := by
  unfold checkSource at h
  obtain ⟨source, hsource, h⟩ := bind_eq_ok.mp h
  obtain ⟨_, -, h⟩ := bind_eq_ok.mp h
  obtain ⟨_, -, h⟩ := bind_eq_ok.mp h
  obtain ⟨_, -, h⟩ := bind_eq_ok.mp h
  obtain ⟨mechanism, hmechanism, h⟩ := bind_eq_ok.mp h
  obtain ⟨n, _, rfl⟩ := PyValue.exists_of_isOneOf (orRaise_eq_ok.mp h)
  exact ⟨source, text n, hsource, hmechanism⟩

section Record

variable {catalog : Catalog}
  (hsound : ∀ key spec, catalog.entries.lookup key = some spec → Sound catalog.types spec)

include hsound

theorem onlyRaises_checkPayload {ms : List (Text × PyValue)} (h : Enveloped ms)
    (hsource : checkSource (.dict ms) = .ok ()) :
    OnlyRaises IsLab (checkPayload (.dict ms) catalog) ↔
      ∃ kind, (PyValue.dict ms).getItem "kind" = .ok (.str kind) := by
  obtain ⟨source, m, hitem, hmechanism⟩ := mechanism_of_checkSource hsource
  obtain ⟨kind, hkind⟩ := h.has "kind" (by decide)
  obtain ⟨data, hdata⟩ := h.has "data" (by decide)
  unfold checkPayload
  rw [onlyRaises_bind_ok hitem, onlyRaises_bind_ok hmechanism,
    onlyRaises_bind_ok (getItem_dict hkind), getItem_dict hkind]
  cases kind with
  | str k =>
    refine iff_of_true ?_ ⟨k, rfl⟩
    dsimp only
    split
    · exact (onlyRaises_error _).mpr ⟨_, rfl⟩
    · next spec hspec =>
      rw [onlyRaises_bind_ok (getItem_dict hdata)]
      exact onlyRaises_checkType data (hsound _ spec hspec) _
  | _ =>
    refine iff_of_false ?_ ?_
    · intro hraises
      obtain ⟨l, hl⟩ := (onlyRaises_error PyExn.typeError).mp hraises
      cases hl
    · rintro ⟨k, hk⟩
      cases hk

/-- **A record** raises only `LabError` exactly when it fits. -/
theorem onlyRaises_validateRecord {event : PyValue} {name : Text} {sequence : Nat} :
    OnlyRaises IsLab (validateRecord event name catalog sequence) ↔
      RecordFits event name sequence := by
  unfold validateRecord RecordFits
  rw [onlyRaises_bind, onlyRaises_checkEnvelope]
  refine and_congr_right fun _ => ?_
  -- each check is made on what the checks before it have accepted
  constructor
  · intro h henvelope htimestamp
    obtain ⟨ms, rfl, hms⟩ := enveloped_of_checkEnvelope henvelope
    have hrest := h () henvelope
    rw [onlyRaises_bind_ok htimestamp, onlyRaises_bind, onlyRaises_checkSource hms] at hrest
    refine ⟨hrest.1, fun hsource => ?_⟩
    have hrest := hrest.2 () hsource
    rw [onlyRaises_bind, onlyRaises_checkContext hms] at hrest
    refine ⟨hrest.1, fun hcontext => ?_⟩
    have hrest := hrest.2 () hcontext
    rw [onlyRaises_bind, onlyRaises_checkQuality hms] at hrest
    refine ⟨hrest.1, fun hquality => ?_⟩
    exact (onlyRaises_checkPayload hsound hms hsource).mp (hrest.2 () hquality)
  · intro h _ henvelope
    obtain ⟨ms, rfl, hms⟩ := enveloped_of_checkEnvelope henvelope
    refine (onlyRaises_checkTimestamp hms).bind fun _ htimestamp => ?_
    obtain ⟨hfits, h⟩ := h henvelope htimestamp
    refine ((onlyRaises_checkSource hms).mpr hfits).bind fun _ hsource => ?_
    obtain ⟨hfits, h⟩ := h hsource
    refine ((onlyRaises_checkContext hms).mpr hfits).bind fun _ hcontext => ?_
    obtain ⟨hfits, h⟩ := h hcontext
    refine ((onlyRaises_checkQuality hms).mpr hfits).bind fun _ hquality => ?_
    exact (onlyRaises_checkPayload hsound hms hsource).mpr (h hquality)

/-- The records of a file, each as far as those before it are accepted. -/
theorem onlyRaises_validateRecords {name : Text} {sequence : Nat} {events : List PyValue} :
    OnlyRaises IsLab (validateRecords name catalog sequence events) ↔
      ∀ i event, events[i]? = some event →
        (∀ j e, j < i → events[j]? = some e →
          validateRecord e name catalog (sequence + j) = .ok ()) →
        RecordFits event name (sequence + i) := by
  induction events generalizing sequence with
  | nil => exact iff_of_true (onlyRaises_ok ()) fun i event h => by simp at h
  | cons event events ih =>
    rw [validateRecords, onlyRaises_bind, onlyRaises_validateRecord hsound]
    constructor
    · rintro ⟨hfirst, hrest⟩ i e he hbefore
      cases i with
      | zero =>
        obtain rfl := Option.some.inj he
        exact hfirst
      | succ i =>
        have hok := hbefore 0 event (Nat.succ_pos i) rfl
        have hnext := (ih.mp (hrest () hok)) i e he fun j e' hj he' => by
          have hstep := hbefore (j + 1) e' (Nat.succ_lt_succ hj) he'
          rw [show sequence + 1 + j = sequence + (j + 1) by omega]
          exact hstep
        rw [show sequence + (i + 1) = sequence + 1 + i by omega]
        exact hnext
    · intro h
      refine ⟨h 0 event rfl fun j e hj => absurd hj (Nat.not_lt_zero j), fun _ hok => ?_⟩
      refine ih.mpr fun i e he hbefore => ?_
      have hnext := h (i + 1) e he fun j e' hj he' => by
        cases j with
        | zero =>
          obtain rfl := Option.some.inj he'
          exact hok
        | succ j =>
          rw [show sequence + (j + 1) = sequence + 1 + j by omega]
          exact hbefore j e' (Nat.lt_of_succ_lt_succ hj) he'
      rw [show sequence + 1 + i = sequence + (i + 1) by omega]
      exact hnext

end Record

/-! ## The evidence -/

/-- What is read of an accepted record after its own checks. -/
structure Readable (catalog : Catalog) (event : PyValue) : Prop where
  source : ∃ source m, event.getItem "source" = .ok source ∧
    source.getItem "mechanism" = .ok (.str m)
  payload : ∃ m k data spec path, event.getItem "kind" = .ok (.str k) ∧
    event.getItem "data" = .ok data ∧ catalog.entries.lookup (m ++ text ":" ++ k) = some spec ∧
    checkType catalog.types data spec path = .ok ()
  quality : ∃ q status, event.getItem "quality" = .ok q ∧ q.getItem "status" = .ok status

theorem readable_of_validateRecord {event : PyValue} {name : Text} {catalog : Catalog}
    {sequence : Nat} (h : validateRecord event name catalog sequence = .ok ()) :
    Readable catalog event := by
  obtain ⟨ms, haccepted⟩ := validateRecord_ok h
  obtain ⟨m, k, data, spec, hkind, hspec, hdata, hcheck⟩ := haccepted.payload
  obtain ⟨qm, status, hq, hstatus, -⟩ := haccepted.quality
  unfold validateRecord at h
  obtain ⟨_, -, h⟩ := bind_eq_ok.mp h
  obtain ⟨_, -, h⟩ := bind_eq_ok.mp h
  obtain ⟨_, hsource, -⟩ := bind_eq_ok.mp h
  obtain rfl := haccepted.event_eq
  refine ⟨mechanism_of_checkSource hsource, ?_, ?_⟩
  · exact ⟨m, k, data, spec, _, getItem_dict hkind, getItem_dict hdata, hspec, hcheck⟩
  · exact ⟨_, _, getItem_dict hq, getItem_dict hstatus⟩

/-- The member that a contract requires, and its own contract. -/
theorem Requires.member {types : List (Text × Spec)} {spec : Spec} {field : String}
    {P : Spec → Prop} (h : Requires types spec field P) {data : PyValue} {path : Text}
    (hcheck : checkType types data spec path = .ok ()) :
    ∃ v f path', data.getItem field = .ok v ∧ P f ∧ checkType types v f path' = .ok () := by
  obtain ⟨s, props, f, hs, htyp, hnull, hprops, hrequired, hf, hP⟩ := h.contract
  obtain ⟨ms, rfl, hhas, hmembers⟩ := members_of_checkType hcheck hs htyp hnull hprops
  obtain ⟨v, hv⟩ := hhas _ hrequired
  obtain ⟨f', path', hf', hcheck'⟩ := hmembers _ _ hv
  obtain rfl := Option.some.inj (hf.symm.trans hf')
  exact ⟨v, f, path', getItem_dict hv, hP, hcheck'⟩

/-- Only texts pass the contract of a text. -/
theorem str_of_checkType {types : List (Text × Spec)} {v : PyValue} {f : Spec} {path : Text}
    (hf : IsTextSpec types f) (h : checkType types v f path = .ok ()) : ∃ t, v = .str t := by
  obtain ⟨s, hs, htyp, hnull⟩ := hf
  rw [checkType.eq_def, hs] at h
  simp only [htyp, hnull] at h
  cases v with
  | str t => exact ⟨t, rfl⟩
  | none => exact absurd (orRaise_eq_ok.mp h) Bool.false_ne_true
  | _ => exact absurd h (wrongType_ne_ok _ _)

section Evidence

variable {catalog : Catalog} {events : List PyValue}

theorem onlyRaises_ofKind {kind : String} (h : ∀ e ∈ events, Readable catalog e) :
    OnlyRaises IsLab (ofKind kind events) := by
  induction events with
  | nil => exact onlyRaises_ok []
  | cons e events ih =>
    obtain ⟨_, k, _, _, _, hk, -⟩ := (h e List.mem_cons_self).payload
    rw [ofKind, onlyRaises_bind_ok hk]
    refine (ih fun e he => h e (List.mem_cons_of_mem _ he)).bind fun _ _ => ?_
    exact onlyRaises_ok _

theorem mem_of_ofKind {kind : String} {selected : List PyValue}
    (h : ofKind kind events = .ok selected) : ∀ e ∈ selected, e ∈ events := by
  induction events generalizing selected with
  | nil =>
    cases h
    exact fun e he => absurd he List.not_mem_nil
  | cons e events ih =>
    rw [ofKind] at h
    obtain ⟨k, -, h⟩ := bind_eq_ok.mp h
    obtain ⟨rest, hrest, h⟩ := bind_eq_ok.mp h
    have hout : (if k.isText (text kind) = true then e :: rest else rest) = selected :=
      Except.ok.inj h
    subst hout
    intro e' he'
    split at he'
    · rcases List.mem_cons.mp he' with rfl | he'
      · exact List.mem_cons_self
      · exact List.mem_cons_of_mem _ (ih hrest e' he')
    · exact List.mem_cons_of_mem _ (ih hrest e' he')

theorem onlyRaises_selected {kind mechanism : String} (h : ∀ e ∈ events, Readable catalog e) :
    OnlyRaises IsLab (selected kind mechanism events) := by
  refine (onlyRaises_ofKind h).bind fun ofThisKind hkind => ?_
  refine OnlyRaises.bind (onlyRaises_mapM fun e he => ?_) fun _ _ => onlyRaises_ok _
  obtain ⟨source, m, hsource, hm⟩ := (h e (mem_of_ofKind hkind e he)).source
  rw [onlyRaises_bind_ok hsource, hm]
  exact onlyRaises_ok _

theorem onlyRaises_requireKinds {kinds : List PyValue} {required : List Text} :
    OnlyRaises IsLab (requireKinds kinds required) := by
  induction required with
  | nil => exact onlyRaises_ok ()
  | cons kind required ih => exact isLab_orRaise.bind fun _ _ => ih

/-- The collectors, where a record of this kind names its own. -/
theorem onlyRaises_collectorsOf {kind : String} (h : ∀ e ∈ events, Readable catalog e)
    (hrequires : ∀ m spec, catalog.entries.lookup (m ++ text ":" ++ text kind) = some spec →
      Requires catalog.types spec "collector" (IsTextSpec catalog.types)) :
    OnlyRaises IsLab (collectorsOf kind events) := by
  induction events with
  | nil => exact onlyRaises_ok []
  | cons e events ih =>
    have hrest := ih fun e he => h e (List.mem_cons_of_mem _ he)
    obtain ⟨m, k, data, spec, path, hk, hdata, hspec, hcheck⟩ :=
      (h e List.mem_cons_self).payload
    rw [collectorsOf, onlyRaises_bind_ok hk]
    split
    · next hkind =>
      obtain rfl := PyValue.str.inj (PyValue.eq_of_isText hkind)
      obtain ⟨v, f, path', hv, hf, hcheck'⟩ := (hrequires m spec hspec).member hcheck
      obtain ⟨t, rfl⟩ := str_of_checkType hf hcheck'
      rw [onlyRaises_bind_ok hdata, onlyRaises_bind_ok hv]
      exact hrest.bind fun _ _ => onlyRaises_ok _
    · exact hrest

theorem onlyRaises_requireNoLoss {event data : PyValue} {spec : Spec} {path : Text}
    (hdata : event.getItem "data" = .ok data)
    (hcheck : checkType catalog.types data spec path = .ok ())
    (hdropped : Requires catalog.types spec "dropped" fun _ => True)
    (hfailures : Requires catalog.types spec "failures" fun _ => True) :
    OnlyRaises IsLab (requireNoLoss event) := by
  obtain ⟨dropped, _, _, hgot, -⟩ := hdropped.member hcheck
  obtain ⟨failures, _, _, hgot', -⟩ := hfailures.member hcheck
  unfold requireNoLoss
  rw [onlyRaises_bind_ok hdata, onlyRaises_bind_ok hgot, onlyRaises_bind_ok hdata,
    onlyRaises_bind_ok hgot']
  exact isLab_orRaise

theorem onlyRaises_requireSummary {event data : PyValue} {spec s : Spec} {path : Text}
    {props : List (Text × Spec)} (hdata : event.getItem "data" = .ok data)
    (hcheck : checkType catalog.types data spec path = .ok ())
    (hs : resolve catalog.types spec = .ok s) (htyp : s.typ = some .object)
    (hnull : s.nullable = false) (hprops : s.fields = some props)
    (hstate : ∀ f, props.lookup (text "state") = some f → IsObjectSpec catalog.types f) :
    OnlyRaises IsLab (requireSummary event) := by
  obtain ⟨ms, rfl, -, hmembers⟩ := members_of_checkType hcheck hs htyp hnull hprops
  -- the state is an object whether it is in the data or the default
  obtain ⟨states, hget⟩ : ∃ states,
      getOr (PyValue.dict ms) "state" (.dict []) = .ok (.dict states) := by
    rw [getOr]
    cases hlookup : ms.lookup (text "state") with
    | none => exact ⟨[], rfl⟩
    | some v =>
      obtain ⟨f, path', hf, hcheck'⟩ := hmembers _ _ hlookup
      obtain ⟨s', props', hs', htyp', hnull', hprops'⟩ := hstate f hf
      obtain ⟨states, rfl, -⟩ := members_of_checkType hcheck' hs' htyp' hnull' hprops'
      exact ⟨states, rfl⟩
  unfold requireSummary
  rw [onlyRaises_bind_ok hdata, onlyRaises_bind_ok hget]
  exact isLab_orRaise

end Evidence

section Validate

variable {repo : Repo} {name : Text} {catalog : Catalog} {events : List PyValue}

theorem onlyRaises_requireEvents (hrepo : Contracts repo name catalog) {allowPartial : Bool}
    (h : ∀ e ∈ events, Readable catalog e) :
    OnlyRaises IsLab (requireEvents allowPartial events) := by
  induction events with
  | nil => exact onlyRaises_ok ()
  | cons e events ih =>
    have hrest := ih fun e he => h e (List.mem_cons_of_mem _ he)
    obtain ⟨m, k, data, spec, path, hk, hdata, hspec, hcheck⟩ :=
      (h e List.mem_cons_self).payload
    obtain ⟨q, status, hq, hstatus⟩ := (h e List.mem_cons_self).quality
    have hloss : (PyValue.str k).isText (text "collector_finished") = true →
        OnlyRaises IsLab (requireNoLoss e) := by
      intro hkind
      obtain rfl := PyValue.str.inj (PyValue.eq_of_isText hkind)
      obtain ⟨-, hdropped, hfailures⟩ := hrepo.finished m spec hspec
      exact onlyRaises_requireNoLoss hdata hcheck hdropped hfailures
    have hsummary : (PyValue.str k).isText (text "collector_summary") = true →
        OnlyRaises IsLab (requireSummary e) := by
      intro hkind
      obtain rfl := PyValue.str.inj (PyValue.eq_of_isText hkind)
      obtain ⟨s, props, hs, htyp, hnull, hprops, hstate⟩ := hrepo.summary m spec hspec
      exact onlyRaises_requireSummary hdata hcheck hs htyp hnull hprops hstate
    -- the three tests, from the last to the first
    have hthird : OnlyRaises IsLab (if (PyValue.str k).isText (text "collector_summary") = true then
        requireSummary e >>= fun _ => requireEvents allowPartial events
        else requireEvents allowPartial events) := by
      split
      · next hkind => exact (hsummary hkind).bind fun _ _ => hrest
      · exact hrest
    have hsecond : OnlyRaises IsLab (e.getItem "quality" >>= fun q => q.getItem "status" >>=
        fun status => if (!status.isText (text "complete")) = true then
          require (allowPartial && status.isText (text "partial"))
            (text "undeclared partial observation") >>= fun _ =>
            if (PyValue.str k).isText (text "collector_summary") = true then
              requireSummary e >>= fun _ => requireEvents allowPartial events
            else requireEvents allowPartial events
          else if (PyValue.str k).isText (text "collector_summary") = true then
            requireSummary e >>= fun _ => requireEvents allowPartial events
          else requireEvents allowPartial events) := by
      rw [onlyRaises_bind_ok hq, onlyRaises_bind_ok hstatus]
      split
      · exact isLab_orRaise.bind fun _ _ => hthird
      · exact hthird
    rw [requireEvents, onlyRaises_bind_ok hk]
    dsimp only
    split
    · next hkind => exact (hloss hkind).bind fun _ _ => hsecond
    · exact hsecond

theorem isLab_manifest : OnlyRaises IsLab (manifest repo name) := by
  refine isLab_orRaise.bind fun _ _ => ?_
  exact isLab_orRaise.bind fun _ _ => onlyRaises_ok _

/-- **The evidence** of accepted records, of which the last has data. -/
theorem onlyRaises_validateEvidence (hrepo : Contracts repo name catalog)
    (h : ∀ e ∈ events, Readable catalog e) (hne : events ≠ []) :
    OnlyRaises IsLab (validateEvidence repo name events) := by
  have hlast : events.getLastD .none ∈ events := by
    rw [List.getLastD_eq_getLast?, List.getLast?_eq_some_getLast hne]
    exact List.getLast_mem hne
  obtain ⟨_, _, data, _, _, -, hdata, -⟩ := (h _ hlast).payload
  refine isLab_manifest.bind fun cfg _ => ?_
  refine OnlyRaises.bind (onlyRaises_mapM fun e he => ?_) fun kinds _ => ?_
  · obtain ⟨_, k, _, _, _, hk, -⟩ := (h e he).payload
    rw [hk]
    exact onlyRaises_ok _
  refine onlyRaises_requireKinds.bind fun _ _ => ?_
  refine isLab_orRaise.bind fun _ _ => ?_
  refine (onlyRaises_bind_ok hdata).mpr ?_
  refine isLab_orRaise.bind fun _ _ => ?_
  refine (onlyRaises_collectorsOf h hrepo.ready).bind fun ready _ => ?_
  refine (onlyRaises_collectorsOf h fun m spec hspec => (hrepo.finished m spec hspec).1).bind
    fun done _ => ?_
  refine isLab_orRaise.bind fun _ _ => ?_
  refine (onlyRaises_requireEvents hrepo h).bind fun _ _ => ?_
  refine (onlyRaises_selected h).bind fun enters _ => ?_
  exact (onlyRaises_selected h).bind fun exits _ => isLab_orRaise

/-! ## A file -/

/-- The stack has room for every line that is read: where `json.loads` reads all lines in front of
    one, it raises no `RecursionError` for it. -/
def HasRoom (limits : Limits) (lines : List Text) : Prop :=
  ∀ done line rest, lines = done ++ line :: rest → (∀ l ∈ done, ∃ v, loads limits l = .ok v) →
    loads limits line ≠ .error .recursion

section Lines

variable {limits : Limits}

theorem hasRoom_cons {line : Text} {lines : List Text} :
    HasRoom limits (line :: lines) ↔ loads limits line ≠ .error .recursion ∧
      ((∃ v, loads limits line = .ok v) → HasRoom limits lines) := by
  constructor
  · intro h
    refine ⟨h [] line lines rfl (List.forall_mem_nil _), fun hok done l rest hsplit hdone => ?_⟩
    refine h (line :: done) l rest (congrArg (line :: ·) hsplit) ?_
    exact List.forall_mem_cons.mpr ⟨hok, hdone⟩
  · rintro ⟨hfirst, hrest⟩ done l rest hsplit hdone
    cases done with
    | nil =>
      obtain ⟨rfl, -⟩ := List.cons.inj hsplit
      exact hfirst
    | cons l' done =>
      obtain ⟨rfl, hlines⟩ := List.cons.inj hsplit
      rw [List.forall_mem_cons] at hdone
      exact hrest hdone.1 done l rest hlines hdone.2

/-- A line of spaces is no document, and no container opens in it. -/
theorem loads_blank {line : Text} (h : line.all isPySpace = true) :
    loads limits line = .error .value := by
  unfold loads
  cases hskip : Json.skipWs line with
  | nil => rfl
  | cons c r =>
    have hc : isPySpace c = true := by
      refine List.all_eq_true.mp h c ?_
      exact (List.dropWhile_sublist _).mem (hskip ▸ List.mem_cons_self)
    simp only [isPySpace, Bool.or_eq_true, Bool.and_eq_true, decide_eq_true_eq] at hc
    have hnumber : Json.parseNumber (c :: r) = none := by
      by_contra hsome
      obtain ⟨⟨n, r'⟩, hparse⟩ := Option.ne_none_iff_exists'.mp hsome
      obtain ⟨c', t, heq, hstart⟩ := Json.head_of_parseNumber hparse
      obtain ⟨rfl, -⟩ := List.cons.inj heq
      simp only [Json.isDigit, Bool.and_eq_true, decide_eq_true_eq] at hstart
      omega
    have hconstant : isConstant (c :: r) = false := by
      refine Bool.eq_false_iff.mpr fun hstart => ?_
      have := head_of_isConstant hstart
      omega
    have hscan : scanOnce limits (2 * line.length + 2) limits.nesting (c :: r) =
        .error .value := by
      rw [scanOnce, if_neg (by omega), if_neg (by omega), if_neg (by omega), if_neg (by omega),
        if_neg (by omega), if_neg (by omega), scanNumber, hnumber, hconstant]
      rfl
    rw [hscan]
    rfl

/-- What `ndjson` reads of a line is what `json.loads` reads. -/
theorem ndjsonLine_eq_ok_iff {index : Nat} {line : Text} {v : PyValue} :
    ndjsonLine limits index line = .ok v ↔ loads limits line = .ok v := by
  unfold ndjsonLine
  split
  · next hblank =>
    rw [loads_blank hblank]
    exact iff_of_false nofun nofun
  · split
    · next hloads => rw [hloads]; simp
    · next hloads => rw [hloads]; exact iff_of_false nofun nofun
    · next hloads => rw [hloads]; exact iff_of_false nofun nofun

theorem onlyRaises_ndjsonLine {index : Nat} {line : Text} :
    OnlyRaises IsLab (ndjsonLine limits index line) ↔ loads limits line ≠ .error .recursion := by
  unfold ndjsonLine
  split
  · next hblank =>
    rw [loads_blank hblank]
    exact iff_of_true ((onlyRaises_error _).mpr ⟨_, rfl⟩) nofun
  · split
    · next hloads => rw [hloads]; exact iff_of_true (onlyRaises_ok _) nofun
    · next hloads =>
      rw [hloads]
      exact iff_of_true ((onlyRaises_error _).mpr ⟨_, rfl⟩) nofun
    · next hloads =>
      rw [hloads]
      refine iff_of_false (fun h => ?_) (not_not.mpr rfl)
      obtain ⟨l, hl⟩ := (onlyRaises_error _).mp h
      cases hl

/-- **Only `LabError`** leaves the reading of the lines exactly when the stack has room. By
    induction on the lines. -/
theorem onlyRaises_ndjsonLines {index : Nat} {lines : List Text} :
    OnlyRaises IsLab (ndjsonLines limits index lines) ↔ HasRoom limits lines := by
  induction lines generalizing index with
  | nil =>
    refine iff_of_true (onlyRaises_ok []) fun done line rest hsplit => ?_
    exact absurd hsplit (by simp)
  | cons line lines ih =>
    rw [ndjsonLines, onlyRaises_bind, onlyRaises_ndjsonLine, hasRoom_cons]
    refine and_congr_right fun _ => ?_
    simp only [ndjsonLine_eq_ok_iff]
    constructor
    · rintro h ⟨v, hv⟩
      exact ih.mp (onlyRaises_bind.mp (h v hv)).1
    · exact fun h v hv => (ih.mpr (h ⟨v, hv⟩)).bind fun _ _ => onlyRaises_ok _

end Lines

/-- `event["kind"]` can be read. -/
def HasKind (event : PyValue) : Prop := ∃ kind, event.getItem "kind" = .ok kind

/-- `event["kind"]` is this. -/
def IsKind (event : PyValue) (kind : String) : Prop :=
  event.getItem "kind" = .ok (.str (text kind))

theorem isKind_iff {event kind : PyValue} {name : String} (h : event.getItem "kind" = .ok kind) :
    IsKind event name ↔ kind.isText (text name) = true := by
  unfold IsKind
  rw [h]
  constructor
  · intro heq
    obtain rfl := Except.ok.inj heq
    simp [PyValue.isText, PyValue.eq]
  · exact fun htext => congrArg Except.ok (PyValue.eq_of_isText htext)

theorem not_onlyRaises_getItem {event : PyValue} {key : String}
    (h : ¬ ∃ v, event.getItem key = .ok v) : ¬ OnlyRaises IsLab (event.getItem key) := by
  intro hraises
  cases hitem : event.getItem key with
  | ok v => exact h ⟨v, hitem⟩
  | error e =>
    obtain ⟨l, rfl⟩ := hraises e hitem
    unfold PyValue.getItem at hitem
    split at hitem
    · split at hitem
      · cases hitem
      · cases hitem
    · cases hitem

theorem onlyRaises_orRaise {α : Type} {condition : Bool} {e : LabError}
    {rest : Unit → Except PyExn α} :
    OnlyRaises IsLab (orRaise condition e >>= rest) ↔
      (condition = true → OnlyRaises IsLab (rest ())) := by
  refine onlyRaises_bind.trans ((and_iff_right isLab_orRaise).trans ?_)
  constructor
  · exact fun h hcondition => h () (orRaise_eq_ok.mpr hcondition)
  · exact fun h _ hok => h (orRaise_eq_ok.mp hok)

/-- A test that reads the kind of a record. -/
theorem onlyRaises_kind {α : Type} {event : PyValue} {kind : String} {e : LabError}
    {rest : Unit → Except PyExn α} :
    OnlyRaises IsLab (event.getItem "kind" >>= fun k => orRaise (k.isText (text kind)) e >>= rest) ↔
      HasKind event ∧ (IsKind event kind → OnlyRaises IsLab (rest ())) := by
  by_cases hkind : HasKind event
  · obtain ⟨k, hk⟩ := hkind
    rw [onlyRaises_bind_ok hk, onlyRaises_orRaise, isKind_iff hk]
    exact (and_iff_right ⟨k, hk⟩).symm
  · refine iff_of_false (fun h => ?_) fun h => hkind h.1
    exact not_onlyRaises_getItem hkind (onlyRaises_bind.mp h).1

/-- What fits the checks of a file, as far as they go: the first and the last record have a
    kind, and between `capture_started` and `capture_finished` every record fits. -/
def FileFits (name : Text) (catalog : Catalog) (events : List PyValue) : Prop :=
  3 ≤ events.length →
    HasKind (events.headD .none) ∧ (IsKind (events.headD .none) "capture_started" →
      HasKind (events.getLastD .none) ∧ (IsKind (events.getLastD .none) "capture_finished" →
        ∀ i event, events[i]? = some event →
          (∀ j e, j < i → events[j]? = some e → validateRecord e name catalog (1 + j) = .ok ()) →
          RecordFits event name (1 + i)))

theorem onlyRaises_checkLifecycle {rest : Unit → Except PyExn (List PyValue)} :
    OnlyRaises IsLab (checkLifecycle events >>= rest) ↔
      (3 ≤ events.length → HasKind (events.headD .none) ∧
        (IsKind (events.headD .none) "capture_started" → HasKind (events.getLastD .none) ∧
          (IsKind (events.getLastD .none) "capture_finished" → OnlyRaises IsLab (rest ())))) := by
  simp only [checkLifecycle, bind_assoc]
  rw [onlyRaises_orRaise, decide_eq_true_iff]
  refine imp_congr_right fun _ => onlyRaises_kind.trans (and_congr_right fun _ => ?_)
  exact imp_congr_right fun _ => onlyRaises_kind

/-- What comes after the lifecycle of a capture. -/
theorem onlyRaises_afterLifecycle (hrepo : Contracts repo name catalog) {evidence : Bool}
    (hne : events ≠ []) :
    OnlyRaises IsLab (validateRecords name catalog 1 events >>= fun _ =>
      ofKind "capture_failed" events >>= fun failed =>
      orRaise failed.isEmpty .failedCapture >>= fun _ =>
      if evidence = true then validateEvidence repo name events >>= fun _ => return events
      else return events) ↔
    OnlyRaises IsLab (validateRecords name catalog 1 events) := by
  refine onlyRaises_bind.trans (and_iff_left fun _ hrecords => ?_)
  have hreadable : ∀ e ∈ events, Readable catalog e := by
    intro e he
    obtain ⟨i, hi⟩ := List.mem_iff_getElem?.mp he
    exact readable_of_validateRecord (validateRecords_ok hrecords i e hi)
  refine (onlyRaises_ofKind hreadable).bind fun failed _ => ?_
  refine isLab_orRaise.bind fun _ _ => ?_
  split
  · exact (onlyRaises_validateEvidence hrepo hreadable hne).bind fun _ _ => onlyRaises_ok _
  · exact onlyRaises_ok _

/-- **Only `LabError`** leaves the validation of a file exactly when the stack has room for its
    lines, as far as they are read, and its records, as far as the checks go, fit. -/
theorem validate_labError_iff (limits : Limits) (repo : Repo) (name : Text) (catalog : Catalog)
    (hrepo : Contracts repo name catalog) (content : Text) (evidence : Bool) :
    OnlyRaises IsLab (validate limits repo content name evidence) ↔
      HasRoom limits (JsonLines.linesOf content) ∧
        ∀ events, ndjson limits content = .ok events → FileFits name catalog events := by
  unfold validate
  rw [onlyRaises_bind_ok hrepo.catalog_eq]
  -- the lines, the lifecycle, then the records; nothing behind them raises anything else
  refine onlyRaises_bind.trans (and_congr onlyRaises_ndjsonLines ?_)
  refine forall_congr' fun events => forall_congr' fun _ => onlyRaises_checkLifecycle.trans ?_
  refine forall_congr' fun hlength => and_congr_right fun _ => ?_
  refine imp_congr_right fun _ => and_congr_right fun _ => imp_congr_right fun _ => ?_
  have hne : events ≠ [] := by
    rintro rfl
    exact absurd hlength (by decide)
  refine (onlyRaises_afterLifecycle hrepo hne).trans ?_
  exact onlyRaises_validateRecords hrepo.sound

end Validate

/-! ## Contracts without references -/

namespace Spec

mutual

/-- The contract names a type and no other contract, and so do its parts. -/
def complete : Spec → Bool
  | .mk ref _ typ fields _ items =>
    ref.isNone && typ.isSome && (typ ≠ some .object || completeFields fields) &&
      (typ ≠ some .array || completeItems items)

def completeFields : Option (List (Text × Spec)) → Bool
  | none => false
  | some fields => completeList fields

def completeList : List (Text × Spec) → Bool
  | [] => true
  | (_, spec) :: fields => complete spec && completeList fields

def completeItems : Option Spec → Bool
  | none => false
  | some spec => complete spec

end

theorem complete_of_lookup {fields : List (Text × Spec)} (h : completeList fields = true)
    {k : Text} {f : Spec} (hf : fields.lookup k = some f) : f.complete = true := by
  induction fields with
  | nil => cases hf
  | cons field fields ih =>
    obtain ⟨k', spec⟩ := field
    rw [completeList, Bool.and_eq_true] at h
    rw [List.lookup_cons] at hf
    split at hf
    · obtain rfl := Option.some.inj hf
      exact h.1
    · exact ih h.2 hf

end Spec

theorem sound_of_complete {types : List (Text × Spec)} {spec : Spec} (h : spec.complete = true) :
    Sound types spec := by
  refine ⟨fun s => s.complete = true, h, fun c hc => ⟨c, ?_⟩⟩
  obtain ⟨ref, nullable, typ, fields, required, items⟩ := c
  rw [Spec.complete] at hc
  simp only [Bool.and_eq_true, Option.isNone_iff_eq_none, Bool.or_eq_true, decide_eq_true_eq] at hc
  obtain ⟨⟨⟨rfl, htyp⟩, hfields⟩, hitems⟩ := hc
  refine ⟨rfl, ?_, ?_, ?_⟩
  · rintro rfl
    cases htyp
  · rintro rfl
    obtain hne | hfields := hfields
    · exact absurd rfl hne
    · cases fields with
      | none => cases hfields
      | some fields => exact ⟨fields, rfl, fun k f hf => Spec.complete_of_lookup hfields hf⟩
  · rintro rfl
    obtain hne | hitems := hitems
    · exact absurd rfl hne
    · cases items with
      | none => cases hitems
      | some item => exact ⟨item, rfl, hitems⟩

/-- A contract without parts. -/
def scalarSpec (typ : TypeName) : Spec := .mk none false (some typ) none [] none

/-- An array of texts. -/
def textsSpec : Spec := .mk none false (some .array) none [] (some (scalarSpec .string))

/-- An object that has all its fields. -/
def closedSpec (fields : List (String × Spec)) : Spec :=
  .mk none false (some .object) (some (fields.map fun f => (text f.1, f.2)))
    (fields.map fun f => text f.1) none

/-- `lifecycle.json` -/
def lifecycleCatalog : Catalog where
  entries := [
    (text "framework:capture_started", closedSpec [
      ("environment", closedSpec [("kernel", scalarSpec .string),
        ("architecture", scalarSpec .string), ("os", scalarSpec .string), ("packages", textsSpec),
        ("image_sha256", scalarSpec .string), ("kernel_revision", scalarSpec .string),
        ("qemu", scalarSpec .string)]),
      ("source_digest", scalarSpec .string), ("enabled", textsSpec), ("skipped", textsSpec)]),
    (text "framework:collector_ready", closedSpec [("collector", scalarSpec .string)]),
    (text "framework:workload_started", closedSpec [("command", textsSpec)]),
    (text "framework:workload_finished", closedSpec [("exit_code", scalarSpec .integer64)]),
    (text "framework:collector_finished", closedSpec [("collector", scalarSpec .string),
      ("dropped", scalarSpec .integer64), ("failures", scalarSpec .integer64)]),
    (text "framework:capture_finished", closedSpec [("validated", scalarSpec .boolean),
      ("restored", scalarSpec .boolean)]),
    (text "framework:capture_failed", closedSpec [("error", scalarSpec .string)])]
  defs := none

/-- An experiment with the records of the lifecycle alone. -/
def lifecycleRepo : Repo where
  names := [text "io"]
  manifest := fun _ => ⟨text "io", [], false⟩
  payloads := fun _ => some ⟨[], none⟩
  lifecycle := lifecycleCatalog

theorem mem_entries_of_lookup {entries : List (Text × Spec)} {key : Text} {spec : Spec}
    (h : entries.lookup key = some spec) : (key, spec) ∈ entries := by
  obtain ⟨l₁, l₂, rfl, -⟩ := List.lookup_eq_some_iff.mp h
  exact List.mem_append_right l₁ List.mem_cons_self

/-- The entry of a kind, of whatever mechanism. -/
theorem lifecycle_entry {mechanism : Text} {kind : String} {spec : Spec}
    (h : lifecycleCatalog.entries.lookup (mechanism ++ text ":" ++ text kind) = some spec) :
    ∃ entry ∈ lifecycleCatalog.entries.filter
      (fun entry => (text ":" ++ text kind).isSuffixOf entry.1), entry.2 = spec := by
  refine ⟨_, List.mem_filter.mpr ⟨mem_entries_of_lookup h, ?_⟩, rfl⟩
  rw [List.isSuffixOf_iff_suffix]
  exact ⟨mechanism, List.append_assoc _ _ _ ▸ rfl⟩

/-- A field that an object of the lifecycle has. -/
theorem requires_closedSpec {types : List (Text × Spec)} {fields : List (String × Spec)}
    {field : String} {f : Spec} {P : Spec → Prop}
    (hf : (fields.map fun f => (text f.1, f.2)).lookup (text field) = some f)
    (hmem : text field ∈ fields.map fun f => text f.1) (hP : P f) :
    Requires types (closedSpec fields) field P :=
  ⟨_, _, f, rfl, rfl, rfl, rfl, hmem, hf, hP⟩

theorem isTextSpec_scalarSpec {types : List (Text × Spec)} :
    IsTextSpec types (scalarSpec .string) :=
  ⟨_, rfl, rfl, rfl⟩

theorem lifecycleRepo_contracts : Contracts lifecycleRepo (text "io") lifecycleCatalog where
  catalog_eq := rfl
  sound := by
    intro key spec hspec
    have hall : ∀ entry ∈ lifecycleCatalog.entries, entry.2.complete = true := by decide +kernel
    exact sound_of_complete (hall _ (mem_entries_of_lookup hspec))
  ready := by
    intro mechanism spec hspec
    obtain ⟨entry, hentry, rfl⟩ := lifecycle_entry hspec
    obtain rfl := List.mem_singleton.mp
      (show entry ∈ [(text "framework:collector_ready", _)] from hentry)
    exact requires_closedSpec rfl (by decide) isTextSpec_scalarSpec
  finished := by
    intro mechanism spec hspec
    obtain ⟨entry, hentry, rfl⟩ := lifecycle_entry hspec
    obtain rfl := List.mem_singleton.mp
      (show entry ∈ [(text "framework:collector_finished", _)] from hentry)
    refine ⟨requires_closedSpec rfl (by decide) isTextSpec_scalarSpec, ?_, ?_⟩
    · exact requires_closedSpec rfl (by decide) trivial
    · exact requires_closedSpec rfl (by decide) trivial
  summary := by
    intro mechanism spec hspec
    obtain ⟨entry, hentry, rfl⟩ := lifecycle_entry hspec
    exact absurd (show entry ∈ [] from hentry) List.not_mem_nil

/-- Three records, each an array. -/
theorem validate_labError_iff_arrays :
    OnlyRaises IsLab (validate cpython lifecycleRepo (text "[]\n[]\n[]\n") (text "io") true) ↔
      HasRoom cpython (JsonLines.linesOf (text "[]\n[]\n[]\n")) ∧
        ∀ events, ndjson cpython (text "[]\n[]\n[]\n") = .ok events →
          FileFits (text "io") lifecycleCatalog events :=
  validate_labError_iff cpython lifecycleRepo (text "io") lifecycleCatalog lifecycleRepo_contracts _ true

/-- `events[0]["kind"]` of an array is a `TypeError`. -/
theorem arrays_typeError :
    ¬ ∀ (limits : Limits) (repo : Repo) (content name : Text) (evidence : Bool)
      (catalog : Catalog), Contracts repo name catalog →
        OnlyRaises IsLab (validate limits repo content name evidence) := by
  intro hclaim
  have hraises : (match validate cpython lifecycleRepo (text "[]\n[]\n[]\n") (text "io") true with
      | .error .typeError => true
      | _ => false) = true := by decide +kernel
  have hlab := hclaim cpython lifecycleRepo (text "[]\n[]\n[]\n") (text "io") true lifecycleCatalog
    lifecycleRepo_contracts
  split at hraises
  · next herror =>
    obtain ⟨l, hl⟩ := hlab _ herror
    cases hl
  · cases hraises

end LinuxMaxxing.Framework
