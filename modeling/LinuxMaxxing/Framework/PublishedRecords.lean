import LinuxMaxxing.Framework.JsonFile
import LinuxMaxxing.Framework.NdjsonFile
import LinuxMaxxing.Framework.ValidateErrors

/-!
# A Published Capture Holds the Session's Records

`Capture.save` numbers the records and writes each as a line; `publish` validates the file it finds
and copies its bytes; whoever reads the capture reads it with `ndjson`. Between the two ends lie
`json.dumps`, three file operations that may fail, and `json.loads`.

- `Record`: a record, which is a dictionary;
- `captureRuntime`: the runtime of `execute` with `json.dumps` and `validate`;
- `readRecords_renderFrom`: a saved file that is accepted is read as the numbered records;
- `published_records`: what a run that returns has published;
- `failed_run_replaces_capture`: what a run may have published that raises.
-/

namespace LinuxMaxxing.Framework

open LinuxMaxxing.Lib

/-! ## Records -/

/-- `record[key] = value`: in the place of the key, or behind the others. -/
def setItem (ms : List (Text × PyValue)) (key : Text) (value : PyValue) : List (Text × PyValue) :=
  if key ∈ ms.map Prod.fst then ms.map fun m => if m.1 = key then (key, value) else m
  else ms ++ [(key, value)]

theorem map_fst_setItem (ms : List (Text × PyValue)) (key : Text) (value : PyValue) :
    (setItem ms key value).map Prod.fst =
      if key ∈ ms.map Prod.fst then ms.map Prod.fst else ms.map Prod.fst ++ [key] := by
  unfold setItem
  split
  · rw [List.map_map]
    apply List.map_congr_left
    intro m _
    by_cases hm : m.1 = key
    · simp [hm]
    · simp [hm]
  · simp

theorem mem_setItem {ms : List (Text × PyValue)} {key : Text} {value : PyValue}
    {m : Text × PyValue} (h : m ∈ setItem ms key value) : m ∈ ms ∨ m = (key, value) := by
  unfold setItem at h
  split at h
  · obtain ⟨m', hm', heq⟩ := List.mem_map.mp h
    split at heq
    · exact .inr heq.symm
    · exact .inl (heq ▸ hm')
  · rcases List.mem_append.mp h with h | h
    · exact .inl h
    · exact .inr (List.mem_singleton.mp h)

theorem lookup_setItem (ms : List (Text × PyValue)) (key : Text) (value : PyValue) :
    (setItem ms key value).lookup key = some value := by
  unfold setItem
  split
  · next hkey =>
    induction ms with
    | nil => cases hkey
    | cons m ms ih =>
      by_cases hm : m.1 = key
      · simp [hm]
      · have hrest : key ∈ ms.map Prod.fst := by
          rw [List.map_cons, List.mem_cons] at hkey
          exact hkey.resolve_left (Ne.symm hm)
        have hne : (key == m.1) = false := beq_eq_false_iff_ne.mpr (Ne.symm hm)
        rw [List.map_cons, if_neg hm, List.lookup_cons, hne]
        exact ih hrest
  · next hkey =>
    have hnone : ms.lookup key = none := by
      rw [List.lookup_eq_none_iff]
      intro m hm
      apply bne_iff_ne.mpr
      rintro rfl
      exact hkey (List.mem_map_of_mem hm)
    rw [List.lookup_append, hnone]
    simp

/-- Assigning to a key keeps a dictionary a dictionary. -/
theorem unsplit_setItem {ms : List (Text × PyValue)} {key : Text} {value : PyValue}
    (h : (PyValue.dict ms).unsplit = true) (hkey : Utf8.unsplit key = true)
    (hvalue : value.unsplit = true) :
    (PyValue.dict (setItem ms key value)).unsplit = true := by
  rw [PyValue.unsplit, Bool.and_eq_true, decide_eq_true_eq, PyValue.membersUnsplit_iff] at h ⊢
  constructor
  · rw [map_fst_setItem]
    split
    · exact h.1
    · next hnew => exact h.1.append (List.nodup_singleton key) (by simpa using hnew)
  · intro m hm
    rcases mem_setItem hm with hm | rfl
    · exact h.2 m hm
    · exact ⟨hkey, hvalue⟩

/-- A record of a capture: a dictionary, its texts in code points. -/
structure Record where
  members : List (Text × PyValue)
  unsplit : (PyValue.dict members).unsplit = true

def Record.value (e : Record) : PyValue := .dict e.members

/-- `event["sequence"] = seq` -/
def Record.numbered (e : Record) (seq : Nat) : Record where
  members := setItem e.members (text "sequence") (.int seq)
  unsplit := unsplit_setItem e.unsplit (by decide) rfl

/-- The values of the records, numbered from `seq` on. -/
def numberedFrom (seq : Nat) : List Record → List PyValue
  | [] => []
  | e :: es => (e.numbered seq).value :: numberedFrom (seq + 1) es

/-! ## The runtime of a capture -/

/-- One line of `Capture.save`. -/
def saveLine (encoder : Encoder) (seq : Nat) (e : Record) : Except Exn Bytes :=
  match encoder.textOf .compact (e.numbered seq).value with
  | .ok t => .ok (encode (t ++ [0x0a]))
  | .error e => .error e

/-- The exceptions of the validation, as `execute` sees them. -/
def ofPyExn : PyExn → Exn
  | .lab _ => labError "invalid capture"
  | .keyError => ⟨"KeyError", ""⟩
  | .typeError => ⟨"TypeError", ""⟩
  | .attributeError => ⟨"AttributeError", ""⟩
  | .osError => ⟨"OSError", ""⟩
  | .recursionError => ⟨"RecursionError", ""⟩

/-- `validate(path, name)` on the bytes of the file. -/
def validateFile (limits : Limits) (repo : Repo) (name : Text) (content : Bytes) :
    Except Exn Unit :=
  match Utf8.units (content.map UInt8.toNat) with
  | none => .error ⟨"UnicodeDecodeError", ""⟩
  | some units =>
    match validate limits repo units name true with
    | .ok _ => .ok ()
    | .error e => .error (ofPyExn e)

/-- The runtime of `execute`; how a lifecycle record is built and the trace entered does not matter
    here. -/
def captureRuntime (encoder : Encoder) (limits : Limits) (repo : Repo) (name : Text)
    (lifecycle : Lifecycle → Record) (setTrace : List String × List String → Record → Record) :
    Runtime Record where
  lifecycle := lifecycle
  setTrace := setTrace
  dumps := saveLine encoder
  validate := validateFile limits repo name

/-- `list(ndjson(path))` on the bytes of the file, the texts in code points. -/
def readRecords (limits : Limits) (content : Bytes) : Except ReadExn (List PyValue) := do
  let values ← ndjsonFile limits (content.map UInt8.toNat)
  return values.map PyValue.points

/-! ## Saved and read back -/

/-- The value of a line, whatever room there is for it. -/
def document (line : Text) : Option PyValue :=
  (Json.parseDocument Json.codeUnits line).bind PyValue.load

theorem map_document_of_ndjsonLines {limits : Limits} {index : Nat} {lines : List Text}
    {values : List PyValue} (h : ndjsonLines limits index lines = .ok values) :
    lines.map document = values.map some := by
  induction lines generalizing index values with
  | nil =>
    cases h
    rfl
  | cons line lines ih =>
    rw [ndjsonLines] at h
    obtain ⟨value, hline, h⟩ := bind_eq_ok.mp h
    obtain ⟨values', hlines, h⟩ := bind_eq_ok.mp h
    cases h
    have hdocument : document line = some value :=
      (loads_eq_ok_iff.mp (ndjsonLine_eq_ok_iff.mp hline)).1
    rw [List.map_cons, List.map_cons, hdocument, ih hlines]

section

variable {encoder : Encoder} (hrepr : FloatRepr encoder.repr) {limits : Limits} {repo : Repo}
  {name : Text} {lifecycle : Lifecycle → Record}
  {setTrace : List String × List String → Record → Record}

include hrepr

/-- The bytes of a line are its text, and the line has the record. -/
theorem saveLine_ok {seq : Nat} {e : Record} {line : Bytes}
    (h : saveLine encoder seq e = .ok line) :
    ∃ t, line.map UInt8.toNat = t ++ [0x0a] ∧ (∀ c ∈ t, 0x20 ≤ c ∧ c < 0x7f) ∧
      document (t ++ [0x0a]) = some (e.numbered seq).value.units := by
  unfold saveLine at h
  split at h
  case h_2 => cases h
  case h_1 t ht =>
    cases h
    obtain ⟨hplain, hdocument⟩ := encoder.textOf_document hrepr (e.numbered seq).unsplit ht
    have hprint : ∀ c ∈ t, 0x20 ≤ c ∧ c < 0x7f := by
      intro c hc
      exact (hplain c hc).resolve_right fun hlf => absurd hlf.1 (by decide)
    have hbyte : ∀ c ∈ t ++ [0x0a], c < 256 := by
      refine List.forall_mem_append.mpr ⟨fun c hc => ?_, List.forall_mem_singleton.mpr (by decide)⟩
      exact Nat.lt_trans (hprint c hc).2 (by decide)
    exact ⟨t, toNat_encode hbyte, hprint, hdocument⟩

/-- The lines of a saved file, one for each record. By induction on the records. -/
theorem renderFrom_ok {es : List Record} {seq : Nat} {content : Bytes}
    (h : renderFrom (captureRuntime encoder limits repo name lifecycle setTrace) seq es =
      .ok content) :
    ∃ ts : List Text, content.map UInt8.toNat = ts.flatMap (· ++ [0x0a]) ∧
      (∀ t ∈ ts, ∀ c ∈ t, 0x20 ≤ c ∧ c < 0x7f) ∧
      (ts.map (· ++ [0x0a])).map document =
        ((numberedFrom seq es).map PyValue.units).map some := by
  induction es generalizing seq content with
  | nil =>
    cases h
    exact ⟨[], rfl, fun _ ht => absurd ht List.not_mem_nil, rfl⟩
  | cons e es ih =>
    rw [renderFrom] at h
    obtain ⟨line, hline, h⟩ := bind_eq_ok.mp h
    obtain ⟨rest, hrest, h⟩ := bind_eq_ok.mp h
    cases h
    obtain ⟨t, hbytes, hplain, hdocument⟩ := saveLine_ok hrepr hline
    obtain ⟨ts, hbytes', hplain', hdocuments⟩ := ih hrest
    refine ⟨t :: ts, ?_, List.forall_mem_cons.mpr ⟨hplain, hplain'⟩, ?_⟩
    · rw [List.map_append, hbytes, hbytes', List.flatMap_cons]
    · rw [List.map_cons, List.map_cons, hdocument, hdocuments]
      rfl

/-- A saved file has the lines of its records, whatever room there is to read them. -/
theorem linesOf_renderFrom {es : List Record} {seq : Nat} {content : Bytes}
    (h : renderFrom (captureRuntime encoder limits repo name lifecycle setTrace) seq es =
      .ok content) :
    ∃ units, Utf8.units (content.map UInt8.toNat) = some units ∧
      (JsonLines.linesOf units).map document =
        ((numberedFrom seq es).map PyValue.units).map some := by
  obtain ⟨ts, hbytes, hplain, hdocuments⟩ := renderFrom_ok hrepr h
  have hascii : ∀ c ∈ ts.flatMap (· ++ [0x0a]), c < 0x80 := by
    intro c hc
    obtain ⟨t, ht, hc⟩ := List.mem_flatMap.mp hc
    have hline : ∀ c ∈ t ++ [0x0a], c < 0x80 := by
      refine List.forall_mem_append.mpr ⟨fun c hc => ?_, List.forall_mem_singleton.mpr (by decide)⟩
      exact Nat.lt_trans (hplain t ht c hc).2 (by decide)
    exact hline c hc
  have hlines : JsonLines.linesOf (ts.flatMap (· ++ [0x0a])) = ts.map (· ++ [0x0a]) := by
    apply JsonLines.linesOf_flatMap
    intro t ht
    exact ⟨fun hmem => absurd (hplain t ht _ hmem).1 (by decide),
      fun hmem => absurd (hplain t ht _ hmem).1 (by decide)⟩
  refine ⟨_, by rw [hbytes, Utf8.units_ascii hascii], ?_⟩
  rw [hlines]
  exact hdocuments

omit hrepr in
theorem points_numberedFrom (seq : Nat) (es : List Record) :
    ((numberedFrom seq es).map PyValue.units).map PyValue.points = numberedFrom seq es := by
  induction es generalizing seq with
  | nil => rfl
  | cons e es ih =>
    rw [numberedFrom, List.map_cons, List.map_cons, ih]
    exact congrArg (· :: numberedFrom (seq + 1) es)
      (PyValue.points_units _ (e.numbered seq).unsplit)

/-- **A saved file that is accepted is read as the numbered records.** -/
theorem readRecords_renderFrom {es : List Record} {seq : Nat} {content : Bytes}
    (h : renderFrom (captureRuntime encoder limits repo name lifecycle setTrace) seq es =
      .ok content) (hvalid : validateFile limits repo name content = .ok ()) :
    readRecords limits content = .ok (numberedFrom seq es) := by
  obtain ⟨units, hunits, hdocuments⟩ := linesOf_renderFrom hrepr h
  -- the validator reads the file, so there is room for all of its lines
  obtain ⟨values, hvalues⟩ : ∃ values, ndjson limits units = .ok values := by
    unfold validateFile at hvalid
    rw [hunits] at hvalid
    dsimp only at hvalid
    split at hvalid
    · next events hevents =>
      obtain ⟨catalog, -, hrest⟩ := bind_eq_ok.mp hevents
      obtain ⟨values, hvalues, -⟩ := bind_eq_ok.mp hrest
      exact ⟨values, hvalues⟩
    · cases hvalid
  rw [map_document_of_ndjsonLines hvalues] at hdocuments
  have heq : values = (numberedFrom seq es).map PyValue.units :=
    (List.map_injective_iff.mpr (Option.some_injective _)) hdocuments
  unfold readRecords ndjsonFile
  rw [hunits]
  dsimp only
  rw [hvalues, heq]
  exact congrArg Except.ok (points_numberedFrom seq es)

/-! ## What a run publishes -/

omit hrepr in
theorem numberedFrom_sequence {es : List Record} {seq i : Nat} {v : PyValue}
    (h : (numberedFrom seq es)[i]? = some v) :
    v.getItem "sequence" = .ok (.int ((seq + i : Nat) : Int)) := by
  induction es generalizing seq i with
  | nil => cases h
  | cons e es ih =>
    cases i with
    | zero =>
      cases h
      dsimp only [Record.numbered, Record.value, PyValue.getItem]
      rw [lookup_setItem]
      rfl
    | succ i =>
      rw [ih h]
      congr 2
      omega

/-- **What a run that returns has published**: the workflow returned, and the published file is
    accepted by the validator and read back as exactly the records of the session, with the trace
    in the first one and the closing record behind them; their numbers count from 1. -/
theorem published_records (limits : Limits) (repo : Repo) (name : Text)
    (lifecycle : Lifecycle → Record) (setTrace : List String × List String → Record → Record)
    (run : Run Record) (w w' : World Record)
    (h : execute (captureRuntime encoder limits repo name lifecycle setTrace) run w = .ok () w') :
    ∃ facts digest s content, ∃ events : List PyValue,
      run.workflow (startedSession (captureRuntime encoder limits repo name lifecycle setTrace)
        w.session facts digest) = .ok () s ∧
      events = numberedFrom 1
        (finishedEvents (captureRuntime encoder limits repo name lifecycle setTrace) s) ∧
      w'.published.file = some content ∧
      readRecords limits content = .ok events ∧
      validateFile limits repo name content = .ok () ∧
      ∀ (i : Nat) (v : PyValue), events[i]? = some v →
        v.getItem "sequence" = .ok (.int ((1 + i : Nat) : Int)) := by
  rcases execute_spec (captureRuntime encoder limits repo name lifecycle setTrace) run w with
    ⟨content, hreach, hfile, hraised⟩ | ⟨-, -, hraised⟩
  · rw [h] at hfile hraised
    obtain ⟨hreplaces, -⟩ := hraised.mp rfl
    rw [if_pos hreplaces] at hfile
    obtain ⟨-, facts, digest, -, -, s, hwork, -, hrender, -, -, hvalid, -⟩ := hreach
    exact ⟨facts, digest, s, content, _, hwork, rfl, hfile,
      readRecords_renderFrom hrepr hrender hvalid, hvalid, fun i v => numberedFrom_sequence⟩
  · -- a run that gives up raises
    rw [h] at hraised
    cases hraised

end

/-! ## A capture of four records -/

/-- A record of the controller. -/
def controllerValue (kind : String) (data : List (Text × PyValue)) : List (Text × PyValue) :=
  [(text "experiment", .str (text "io")), (text "sequence", .int 0),
    (text "source", .dict [(text "collector", .str (text "controller")),
      (text "mechanism", .str (text "framework")), (text "domain", .str (text "host")),
      (text "hook", .none)]),
    (text "kind", .str (text kind)), (text "timestamp_ns", .str (text "7")),
    (text "clock_domain", .str (text "host:monotonic")),
    (text "context", .dict (contextKeys.map fun key => (text key, .none))),
    (text "quality", .dict [(text "status", .str (text "complete")), (text "reasons", .list [])]),
    (text "data", .dict data)]

/-- The record of a collector, with a name that is no ASCII. -/
def collectorRecord (kind : String) (data : List (Text × PyValue))
    (h : (PyValue.dict (controllerValue kind
      ((text "collector", .str [0x17c, 0x1f600]) :: data))).unsplit = true) : Record :=
  ⟨_, h⟩

def readyRecord : Record := collectorRecord "collector_ready" [] (by decide +kernel)

def doneRecord : Record :=
  collectorRecord "collector_finished"
    [(text "dropped", .str (text "0")), (text "failures", .str (text "0"))] (by decide +kernel)

def startedRecord : Record :=
  ⟨controllerValue "capture_started"
    [(text "environment", .dict (["kernel", "architecture", "os"].map (fun key =>
        (text key, .str [])) ++ (text "packages", .list []) ::
        ["image_sha256", "kernel_revision", "qemu"].map fun key => (text key, .str []))),
      (text "source_digest", .str []), (text "enabled", .list []), (text "skipped", .list [])],
    by decide +kernel⟩

def finishedRecord : Record :=
  ⟨controllerValue "capture_finished"
    [(text "validated", .bool true), (text "restored", .bool true)], by decide +kernel⟩

def failedRecord : Record :=
  ⟨controllerValue "capture_failed" [(text "error", .str [])], by decide +kernel⟩

/-- The lifecycle records of the capture. -/
def controllerRecord : Lifecycle → Record
  | .captureStarted _ _ => startedRecord
  | .captureFinished => finishedRecord
  | .captureFailed _ => failedRecord

/-- A run in which nothing fails and one collector reports. -/
def quietRun : Run Record where
  euid := 0
  environment := .ok ""
  digest := .ok ""
  workflow := modify fun s => { s with events := s.events ++ [readyRecord, doneRecord] }
  saveFaults := .none
  readBytes := .none
  publishFaults := .none
  failedSaveFaults := .none

def emptyWorld : World Record := ⟨⟨.none, .none⟩, ⟨⟨.none, .none⟩, [], [], .none⟩⟩

theorem published_records_quietRun :
    ∃ w' content,
      execute (captureRuntime roomyEncoder cpython lifecycleRepo (text "io") controllerRecord
        fun _ e => e) quietRun emptyWorld = .ok () w' ∧
      w'.published.file = some content ∧
      readRecords cpython content = .ok (numberedFrom 1
        [controllerRecord (.captureStarted "" ""), readyRecord, doneRecord,
          controllerRecord .captureFinished]) := by
  have hrepr : FloatRepr roomyEncoder.repr := floatRepr_exactRepr
  have hreturns : raisedIn (execute (captureRuntime roomyEncoder cpython lifecycleRepo (text "io")
      controllerRecord fun _ e => e) quietRun emptyWorld) = false := by
    decide +kernel
  cases hrun : execute (captureRuntime roomyEncoder cpython lifecycleRepo (text "io")
      controllerRecord fun _ e => e) quietRun emptyWorld with
  | error e w' =>
    rw [hrun] at hreturns
    cases hreturns
  | ok u w' =>
    obtain ⟨facts, digest, s, content, events, hwork, rfl, hfile, hread, -, -⟩ :=
      published_records hrepr cpython lifecycleRepo (text "io") controllerRecord (fun _ e => e)
        quietRun emptyWorld w' hrun
    refine ⟨w', content, rfl, hfile, ?_⟩
    cases hwork
    exact hread

/-! ## A run whose directory cannot be synchronised -/

/-- A run in which nothing fails but the synchronisation of the directory of the published
    capture. -/
def dirFsyncFails : Run Record where
  euid := 0
  environment := .ok ""
  digest := .ok ""
  workflow := quietRun.workflow
  saveFaults := .none
  readBytes := .none
  publishFaults :=
    ⟨fun c => if c = .dirFsync then some ⟨"OSError", "Input/output error"⟩ else .none, 0⟩
  failedSaveFaults := .none

/-- A previous capture of one line. -/
def previousCapture : World Record := ⟨⟨some [0x0a], .none⟩, ⟨⟨.none, .none⟩, [], [], .none⟩⟩

/-- The run raises, and the previous capture is gone. -/
theorem failed_run_replaces_capture :
    raisedIn (execute (captureRuntime roomyEncoder cpython lifecycleRepo (text "io")
      controllerRecord fun _ e => e) dirFsyncFails previousCapture) = true ∧
    (stateOf (execute (captureRuntime roomyEncoder cpython lifecycleRepo (text "io")
      controllerRecord fun _ e => e) dirFsyncFails previousCapture)).published.file ≠
        previousCapture.published.file ∧
    ¬ PublishesSafely (captureRuntime roomyEncoder cpython lifecycleRepo (text "io")
      controllerRecord fun _ e => e) dirFsyncFails previousCapture := by
  have hraised : raisedIn (execute (captureRuntime roomyEncoder cpython lifecycleRepo (text "io")
      controllerRecord fun _ e => e) dirFsyncFails previousCapture) = true := by
    decide +kernel
  have hfile : (stateOf (execute (captureRuntime roomyEncoder cpython lifecycleRepo (text "io")
      controllerRecord fun _ e => e) dirFsyncFails previousCapture)).published.file ≠
        previousCapture.published.file := by
    decide +kernel
  exact ⟨hraised, hfile, fun hsafe => hfile (hsafe.2 hraised)⟩

end LinuxMaxxing.Framework
