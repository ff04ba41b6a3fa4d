import LinuxMaxxing.Common.JsonRoundTrip
import LinuxMaxxing.Kapi.Tasks

/-!
# Task Lines Read Back

Which task lines come back from the log as they were printed.

- `message_eq`: a task line as its fields, `key=value` with blanks between them, and `comm`;
- `decodeFields_fields`: fields with keys of their own are read back;
- `Readable`: the names that a shell reads as they are, between double quotes;
- `task_line_round_trip_iff`: the event of a line is that of the task exactly for these;
- `showAllThreads_round_trip_iff`: so it is for all lines of `show_all_threads` together.
-/

namespace LinuxMaxxing.Kapi

open LinuxMaxxing.Lib LinuxMaxxing.Common LinuxMaxxing.Framework

/-! ## The text of the fields -/

section Blocks

variable {p : Nat → Bool} {block rest : Text} {c : Nat}

/-- A block of symbols up to the first that is none. -/
theorem takeWhile_block (h : ∀ d ∈ block, p d = true) (hc : p c = false) :
    (block ++ c :: rest).takeWhile p = block := by
  rw [List.takeWhile_append_of_pos h, List.takeWhile_cons_of_neg (by rw [hc]; decide),
    List.append_nil]

theorem dropWhile_block (h : ∀ d ∈ block, p d = true) (hc : p c = false) :
    (block ++ c :: rest).dropWhile p = c :: rest := by
  rw [List.dropWhile_append_of_pos h, List.dropWhile_cons_of_neg (by rw [hc]; decide)]

end Blocks

section Numbers

theorem isPlain_of_isDigit {c : Nat} (h : Json.isDigit c = true) : ShellWords.isPlain c = true := by
  simp only [Json.isDigit, Bool.and_eq_true, decide_eq_true_eq] at h
  simp only [ShellWords.isPlain, ShellWords.isBlank, ShellWords.isQuote]
  simp
  omega

/-- The symbols of a number. -/
theorem mem_printInt {v : BitVec 32} {c : Nat} (h : c ∈ printInt v) :
    c = 0x2d ∨ Json.isDigit c = true := by
  unfold printInt JsonWriter.signedDecimal at h
  split at h
  · rcases List.mem_cons.mp h with rfl | h
    · exact .inl rfl
    · exact .inr (isDigit_of_mem_decimal h)
  · exact .inr (isDigit_of_mem_decimal h)

theorem printInt_length_le (v : BitVec 32) : (printInt v).length ≤ 11 := by
  have habs : v.toInt.natAbs < 10 ^ 10 := by
    have hlow := BitVec.le_toInt v
    have hhigh := BitVec.toInt_lt (x := v)
    omega
  have hlength : (JsonWriter.decimal v.toInt.natAbs).length ≤ 10 :=
    JsonWriter.digitsIn_length_le (by decide) (by decide) habs
  unfold printInt JsonWriter.signedDecimal
  split
  · exact Nat.succ_le_succ hlength
  · exact Nat.le_succ_of_le hlength

/-- The symbols of an address. -/
theorem mem_printPointer {v : BitVec 64} {c : Nat} (h : c ∈ printPointer v) :
    Json.isDigit c = true ∨ (0x61 ≤ c ∧ c ≤ 0x66) := by
  unfold printPointer JsonWriter.zeroPad at h
  rcases List.mem_append.mp h with h | h
  · rw [List.eq_of_mem_replicate h]
    exact .inl rfl
  · unfold JsonWriter.hex JsonWriter.digitsIn at h
    split at h
    · rw [List.mem_singleton.mp h]
      exact .inl rfl
    · obtain ⟨d, hd, rfl⟩ := List.mem_map.mp h
      have hlt : d < 16 := Nat.digits_lt_base (by decide) (List.mem_reverse.mp hd)
      by_cases hten : d < 10
      · exact .inl (hexDigit_isDigit hten)
      · right
        simp only [JsonWriter.hexDigit, if_neg hten]
        omega

end Numbers

/-! ## The fields of a task line -/

/-- A field of a line. -/
def word (f : String × Text) : Text := text f.1 ++ 0x3d :: f.2

/-- The fields before `comm`. -/
def TaskLine.fields (l : TaskLine) : List (String × Text) :=
  [("domain", text "kapi"), ("phase", text "tasks"), ("action", text "task"),
    ("tgid", printInt l.tgid), ("pid", printInt l.pid), ("ppid", printInt l.ppid),
    ("cpu", printInt l.cpu), ("task", printPointer l.task), ("stack", printPointer l.stack),
    ("mm", printPointer l.mm), ("type", text l.type.name)]

/-- **A task line** is its fields, with a blank behind each, and `comm` between quotes. -/
theorem message_eq (l : TaskLine) :
    l.message = (l.fields.map word).flatMap (· ++ [0x20]) ++
      (text "comm=" ++ 0x22 :: (l.comm.bytes ++ [0x22])) := by
  -- the equation of so long a text takes seconds to make, its definition is put in directly
  delta TaskLine.message
  simp only [TaskLine.fields, List.map_cons, List.map_nil, List.flatMap_cons, List.flatMap_nil,
    word, List.append_assoc, List.nil_append]
  rfl

/-- The keys before `comm`. -/
def keys : List String :=
  ["domain", "phase", "action", "tgid", "pid", "ppid", "cpu", "task", "stack", "mm", "type"]

theorem key_mem {l : TaskLine} {f : String × Text} (hf : f ∈ l.fields) : f.1 ∈ keys :=
  show f.1 ∈ l.fields.map Prod.fst from List.mem_map_of_mem hf

theorem key_plain {l : TaskLine} {f : String × Text} (hf : f ∈ l.fields) :
    text f.1 ≠ [] ∧ ∀ c ∈ text f.1, ShellWords.isPlain c = true ∧ c ≠ 0x3d := by
  have hall : ∀ k ∈ keys, text k ≠ [] ∧ ∀ c ∈ text k, ShellWords.isPlain c = true ∧ c ≠ 0x3d := by
    decide
  exact hall f.1 (key_mem hf)

/-- The values before `comm`: numbers, addresses and names. -/
theorem value_cases {l : TaskLine} {f : String × Text} (hf : f ∈ l.fields) :
    (∃ v, f.2 = printInt v) ∨ (∃ v, f.2 = printPointer v) ∨
      f.2 ∈ [text "kapi", text "tasks", text "task", text "idle", text "kthread",
        text "user-MT", text "user-ST"] := by
  simp only [TaskLine.fields, List.mem_cons, List.not_mem_nil, or_false] at hf
  rcases hf with rfl | rfl | rfl | rfl | rfl | rfl | rfl | rfl | rfl | rfl | rfl
  · exact .inr (.inr (by decide))
  · exact .inr (.inr (by decide))
  · exact .inr (.inr (by decide))
  · exact .inl ⟨_, rfl⟩
  · exact .inl ⟨_, rfl⟩
  · exact .inl ⟨_, rfl⟩
  · exact .inl ⟨_, rfl⟩
  · exact .inr (.inl ⟨_, rfl⟩)
  · exact .inr (.inl ⟨_, rfl⟩)
  · exact .inr (.inl ⟨_, rfl⟩)
  · right
    right
    cases l.type with
    | idle => decide
    | kthread => decide
    | userMT => decide
    | userST => decide

theorem isPlain_of_lowerHex {c : Nat} (h : 0x61 ≤ c ∧ c ≤ 0x66) : ShellWords.isPlain c = true := by
  simp only [ShellWords.isPlain, ShellWords.isBlank, ShellWords.isQuote]
  simp
  omega

theorem value_plain {l : TaskLine} {f : String × Text} (hf : f ∈ l.fields) :
    ∀ c ∈ f.2, ShellWords.isPlain c = true := by
  intro c hc
  rcases value_cases hf with ⟨v, hv⟩ | ⟨v, hv⟩ | hname
  · rw [hv] at hc
    rcases mem_printInt hc with rfl | hdigit
    · decide
    · exact isPlain_of_isDigit hdigit
  · rw [hv] at hc
    rcases mem_printPointer hc with hdigit | hletter
    · exact isPlain_of_isDigit hdigit
    · exact isPlain_of_lowerHex hletter
  · have hall : ∀ s ∈ [text "kapi", text "tasks", text "task", text "idle", text "kthread",
        text "user-MT", text "user-ST"], ∀ c ∈ s, ShellWords.isPlain c = true := by decide
    exact hall f.2 hname c hc

theorem fields_plain (l : TaskLine) :
    ∀ w ∈ l.fields.map word, w ≠ [] ∧ ∀ c ∈ w, ShellWords.isPlain c = true := by
  intro w hw
  obtain ⟨f, hf, rfl⟩ := List.mem_map.mp hw
  refine ⟨List.append_ne_nil_of_right_ne_nil _ (List.cons_ne_nil _ _), fun c hc => ?_⟩
  rcases List.mem_append.mp hc with hkey | hrest
  · exact ((key_plain hf).2 c hkey).1
  · rcases List.mem_cons.mp hrest with rfl | hvalue
    · decide
    · exact value_plain hf c hvalue

/-! ## Tokens -/

/-- The tokens from `comm` on. -/
def commTokens (l : TaskLine) : Except ShellWords.ScanError (List Text) :=
  ShellWords.scan (.quoted 0x22) (text "comm=") (l.comm.bytes ++ [0x22])

/-- **The tokens of a task line**: a word for each field, then what there is of `comm`. -/
theorem split_message (l : TaskLine) :
    ShellWords.split l.message = (commTokens l).map (l.fields.map word ++ ·) := by
  rw [message_eq, ShellWords.split_words (fields_plain l)]
  rfl

/-- One field behind others. -/
theorem decodeFields_word {data : List (Text × Option Text)} {f : String × Text}
    {tokens : List Text} (hkey : ∀ c ∈ text f.1, c ≠ 0x3d) (hnew : data.lookup (text f.1) = none) :
    decodeFields data (word f :: tokens) =
      decodeFields (data ++ [(text f.1, fieldValue f.2)]) tokens := by
  have htake : (word f).takeWhile (· ≠ 0x3d) = text f.1 :=
    takeWhile_block (fun c hc => decide_eq_true (hkey c hc)) rfl
  have hdrop : (word f).dropWhile (· ≠ 0x3d) = 0x3d :: f.2 :=
    dropWhile_block (fun c hc => decide_eq_true (hkey c hc)) rfl
  have hmem : 0x3d ∈ word f := List.mem_append_right _ List.mem_cons_self
  rw [decodeFields, htake, hdrop, if_neg]
  · rfl
  · rw [hnew]
    simp [hmem]

/-- The fields of a line as entries of the data. -/
def entries (fs : List (String × Text)) : List (Text × Option Text) :=
  fs.map fun f => (text f.1, fieldValue f.2)

/-- **Fields with keys of their own** are read one after the other. -/
theorem decodeFields_fields {fs : List (String × Text)} (hkey : ∀ f ∈ fs, ∀ c ∈ text f.1, c ≠ 0x3d)
    {data : List (Text × Option Text)} (hnew : ∀ f ∈ fs, data.lookup (text f.1) = none)
    (hnodup : (fs.map fun f => text f.1).Nodup) (tokens : List Text) :
    decodeFields data (fs.map word ++ tokens) = decodeFields (data ++ entries fs) tokens := by
  induction fs generalizing data with
  | nil => simp [entries]
  | cons f fs ih =>
    obtain ⟨hself, hnodup⟩ := List.nodup_cons.mp hnodup
    rw [List.map_cons, List.cons_append, decodeFields_word (hkey f List.mem_cons_self)
      (hnew f List.mem_cons_self), ih (fun g hg => hkey g (List.mem_cons_of_mem _ hg)) ?_ hnodup]
    · simp [entries]
    · intro g hg
      have hne : text g.1 ≠ text f.1 :=
        fun heq => hself (List.mem_map.mpr ⟨g, hg, heq⟩)
      rw [List.lookup_append, hnew g (List.mem_cons_of_mem _ hg), List.lookup_cons,
        beq_false_of_ne hne]
      rfl

/-- What is read stays, and the rest comes behind it. -/
theorem decodeFields_append {data result : List (Text × Option Text)} {tokens : List Text}
    (h : decodeFields data tokens = .ok result) : ∃ extra, result = data ++ extra := by
  induction tokens generalizing data with
  | nil =>
    cases h
    exact ⟨[], (List.append_nil _).symm⟩
  | cons token tokens ih =>
    rw [decodeFields] at h
    split at h
    · cases h
    · obtain ⟨extra, rfl⟩ := ih h
      exact ⟨_ :: extra, by rw [List.append_assoc, List.singleton_append]⟩

/-! ## Numbers read back -/

theorem not_pySpace_of_printInt {v : BitVec 32} {c : Nat} (h : c ∈ printInt v) :
    isPySpace c = false := by
  rcases mem_printInt h with rfl | hdigit
  · decide
  · simp only [Json.isDigit, Bool.and_eq_true, decide_eq_true_eq] at hdigit
    simp only [isPySpace, Bool.or_eq_false_iff, Bool.and_eq_false_iff, decide_eq_false_iff_not]
    omega

/-- Nothing is stripped from a text without space. -/
theorem strip_eq {s : Text} (h : ∀ c ∈ s, isPySpace c = false) :
    ((s.dropWhile isPySpace).reverse.dropWhile isPySpace).reverse = s := by
  have hdrop : ∀ t : Text, (∀ c ∈ t, isPySpace c = false) → t.dropWhile isPySpace = t := by
    intro t ht
    cases t with
    | nil => rfl
    | cons c t => rw [List.dropWhile_cons_of_neg (by simp [ht c List.mem_cons_self])]
  rw [hdrop s h, hdrop s.reverse fun c hc => h c (List.mem_reverse.mp hc), List.reverse_reverse]

theorem pyInt_digits {ds : Text} (hne : ds ≠ []) (h : ∀ c ∈ ds, Json.isDigit c = true) :
    (ds.splitOn 0x5f).all (fun g => g ≠ [] && g.all Json.isDigit) = true ∧
      ds.filter (· ≠ 0x5f) = ds := by
  have hscore : ∀ c ∈ ds, c ≠ 0x5f := by
    rintro c hc rfl
    exact absurd (h _ hc) (by decide)
  constructor
  · rw [List.splitOn_eq_singleton fun hmem => hscore _ hmem rfl]
    simpa [hne] using h
  · exact List.filter_eq_self.mpr fun c hc => decide_eq_true (hscore c hc)

/-- **A number is read back.** -/
theorem pyInt_printInt (v : BitVec 32) : pyInt (printInt v) = some v.toInt := by
  have hdigits : ∀ n, ∀ c ∈ JsonWriter.decimal n, Json.isDigit c = true :=
    fun _ _ => isDigit_of_mem_decimal
  obtain ⟨c, r, hcons, -⟩ := decimal_eq_cons v.toInt.natAbs
  have hne : JsonWriter.decimal v.toInt.natAbs ≠ [] := by
    rw [hcons]
    exact List.cons_ne_nil c r
  obtain ⟨hall, hfilter⟩ := pyInt_digits hne (hdigits _)
  unfold pyInt
  rw [strip_eq fun c hc => not_pySpace_of_printInt hc]
  unfold printInt JsonWriter.signedDecimal
  by_cases hneg : v.toInt < 0
  · simp only [if_pos hneg, List.head?_cons, List.tail_cons, true_or, if_true, hall, hfilter,
      natOfDigits_decimal]
    congr 1
    omega
  · have hhead : (JsonWriter.decimal v.toInt.natAbs).head? = some c := by rw [hcons]; rfl
    have hc : Json.isDigit c = true := hdigits _ c (hcons ▸ List.mem_cons_self)
    have hsign : some c ≠ some 0x2d ∧ some c ≠ some 0x2b := by
      constructor
      · rintro ⟨⟩
        exact absurd hc (by decide)
      · rintro ⟨⟩
        exact absurd hc (by decide)
    simp only [if_neg hneg, hhead, hsign.1, hsign.2, or_self, if_false, hall, if_true, hfilter,
      natOfDigits_decimal]
    congr 1
    omega

/-- A text that is not as long as an address is its own value. -/
theorem fieldValue_of_length {s : Text} (h : s.length ≠ 16) : fieldValue s = some s := by
  unfold fieldValue isPointer
  rw [decide_eq_false h]
  rfl

/-- A text without an `x` is normal. -/
theorem normalizeText_of_not_mem {s : Text} (h : 0x78 ∉ s) : normalizeText s = s := by
  have hprefix : isPrefixedHex s = false := by
    unfold isPrefixedHex
    have hne : s.take 2 ≠ text "0x" := by
      intro heq
      have hmem : 0x78 ∈ s.take 2 := by
        rw [heq]
        decide
      exact h (List.mem_of_mem_take hmem)
    rw [decide_eq_false hne]
    rfl
  rw [normalizeText, hprefix]
  rfl

theorem fieldValue_printInt (v : BitVec 32) : fieldValue (printInt v) = some (printInt v) :=
  fieldValue_of_length (Nat.ne_of_lt (Nat.lt_of_le_of_lt (printInt_length_le v) (by decide)))

theorem normalizeText_printInt (v : BitVec 32) : normalizeText (printInt v) = printInt v := by
  refine normalizeText_of_not_mem fun h => ?_
  rcases mem_printInt h with h | h
  · exact absurd h (by decide)
  · exact absurd h (by decide)

/-! ## The record of the fields -/

/-- The payload of the data. -/
theorem normalizeMembers_fields (data : List (Text × Option Text)) :
    normalizeMembers (data.map fun f => (f.1, fieldPy f.2)) =
      .ok (data.map fun f => (f.1, fieldPy (f.2.map normalizeText))) := by
  induction data with
  | nil => rfl
  | cons f data ih =>
    obtain ⟨k, v⟩ := f
    have hvalue : normalize (fieldPy v) = .ok (fieldPy (v.map normalizeText)) := by
      cases v with
      | none => rfl
      | some s => rfl
    rw [List.map_cons, normalizeMembers, hvalue, ih]
    rfl

theorem lookup_payload (data : List (Text × Option Text)) (k : Text) :
    (data.map fun f => (f.1, fieldPy (f.2.map normalizeText))).lookup k =
      (data.lookup k).map fun v => fieldPy (v.map normalizeText) := by
  induction data with
  | nil => rfl
  | cons f data ih =>
    rw [List.map_cons, List.lookup_cons, List.lookup_cons]
    cases k == f.1 with
    | true => rfl
    | false => exact ih

/-- The event has the name, the numbers and the processor of the line. -/
structure Exact (event : PyValue) (l : TaskLine) : Prop where
  data : ∃ payload, event.getItem "data" = .ok payload ∧
    payload.getItem "comm" = .ok (.str l.comm.bytes) ∧
    payload.getItem "pid" = .ok (.str (printInt l.pid)) ∧
    payload.getItem "tgid" = .ok (.str (printInt l.tgid)) ∧
    payload.getItem "ppid" = .ok (.str (printInt l.ppid)) ∧
    payload.getItem "cpu" = .ok (.str (printInt l.cpu))
  context : ∃ ctx, event.getItem "context" = .ok ctx ∧
    ctx.getItem "comm" = .ok (.str l.comm.bytes) ∧
    ctx.getItem "pid" = .ok (.int l.tgid.toInt) ∧
    ctx.getItem "tid" = .ok (.int l.pid.toInt) ∧
    ctx.getItem "cpu" = .ok (.int l.cpu.toInt)

section Record

variable {l : TaskLine} {extra : List (Text × Option Text)}

/-- A number of the line in the data. -/
theorem optionalInt_eq {key : String} {v : BitVec 32} {data : List (Text × Option Text)}
    (h : data.lookup (text key) = some (fieldValue (printInt v))) :
    optionalInt data key = .ok (.int v.toInt) := by
  rw [fieldValue_printInt] at h
  unfold optionalInt
  simp only [h, pyInt_printInt]

/-- A number of the line in the payload. -/
theorem payload_eq {key : String} {v : BitVec 32} {data : List (Text × Option Text)}
    (h : data.lookup (text key) = some (fieldValue (printInt v))) :
    (PyValue.dict (data.map fun f => (f.1, fieldPy (f.2.map normalizeText)))).getItem key =
      .ok (.str (printInt v)) := by
  rw [fieldValue_printInt] at h
  rw [PyValue.getItem, lookup_payload, h]
  show Except.ok (PyValue.str (normalizeText (printInt v))) = _
  rw [normalizeText_printInt]

/-- The context that a task line gives to its record. -/
def contextOf (l : TaskLine) (comm : PyValue) : List (Text × PyValue) :=
  [(text "phase", .str (text "tasks")), (text "cpu", .int l.cpu.toInt),
    (text "pid", .int l.tgid.toInt), (text "tid", .int l.pid.toInt), (text "comm", comm)]

/-- The name comes into the context as it is. -/
theorem context_comm (other : PyValue → Text) (comm : PyValue) :
    (PyValue.dict (contextKeys.map (contextEntry other (contextOf l comm)))).getItem "comm" =
      .ok comm := by
  cases comm with
  | _ => rfl

/-- **The event of the fields** is that of the task if `comm` is, and stays as it is when it is
    normalized. -/
theorem decodeRecord_exact_iff (other : PyValue → Text) (stamp : Text) :
    ∃ event, decodeRecord other stamp (entries l.fields ++ extra) = .ok event ∧
      (Exact event l ↔ extra.lookup (text "comm") = some (some l.comm.bytes) ∧
        normalizeText l.comm.bytes = l.comm.bytes) := by
  have hcomm : (entries l.fields ++ extra).lookup (text "comm") = extra.lookup (text "comm") := by
    rw [List.lookup_append]
    rfl
  have haction : item (entries l.fields ++ extra) "action" = .ok (.str (text "task")) := rfl
  have hphase : item (entries l.fields ++ extra) "phase" = .ok (.str (text "tasks")) := rfl
  have htgid : (entries l.fields ++ extra).lookup (text "tgid") =
      some (fieldValue (printInt l.tgid)) := rfl
  have hpid : (entries l.fields ++ extra).lookup (text "pid") =
      some (fieldValue (printInt l.pid)) := rfl
  have hppid : (entries l.fields ++ extra).lookup (text "ppid") =
      some (fieldValue (printInt l.ppid)) := rfl
  have hcpu : (entries l.fields ++ extra).lookup (text "cpu") =
      some (fieldValue (printInt l.cpu)) := rfl
  generalize entries l.fields ++ extra = data at *
  have hpayload : Framework.normalize (.dict (data.map fun f => (f.1, fieldPy f.2))) =
      .ok (.dict (data.map fun f => (f.1, fieldPy (f.2.map normalizeText)))) := by
    rw [Framework.normalize, normalizeMembers_fields]
    rfl
  obtain ⟨event, hevent, hdata, -, hcontext⟩ := record_ok other (text "kapi") (text "module")
    (text "module") (text "guest") (.str (text "task")) (JsonWriter.decimal (nanoseconds stamp))
    (.str (text "kapi:printk"))
    (contextOf l (((data.lookup (text "comm")).map fieldPy).getD .none)) hpayload
  refine ⟨event, ?_, ?_⟩
  · unfold decodeRecord
    rw [haction, hphase, optionalInt_eq hcpu, optionalInt_eq htgid, optionalInt_eq hpid]
    dsimp only [Bind.bind, Except.bind]
    rw [contextOf] at hevent
    rw [hevent]
  · rw [← hcomm]
    constructor
    · intro h
      obtain ⟨payload, hdata', hpayloadComm, -⟩ := h.data
      obtain ⟨ctx, hcontext', hcontextComm, -⟩ := h.context
      obtain rfl := Except.ok.inj (hdata.symm.trans hdata')
      obtain rfl := Except.ok.inj (hcontext.symm.trans hcontext')
      rw [context_comm] at hcontextComm
      -- the context has the name before it is normalized
      have hlookup : data.lookup (text "comm") = some (some l.comm.bytes) := by
        have hname := Except.ok.inj hcontextComm
        cases hdatum : data.lookup (text "comm") with
        | none =>
          rw [hdatum] at hname
          cases hname
        | some v =>
          rw [hdatum] at hname
          cases v with
          | none => cases hname
          | some t => rw [PyValue.str.inj hname]
      rw [PyValue.getItem, lookup_payload, hlookup] at hpayloadComm
      exact ⟨hlookup, PyValue.str.inj (Except.ok.inj hpayloadComm)⟩
    · rintro ⟨hlookup, hnormal⟩
      refine ⟨⟨_, hdata, ?_, payload_eq hpid, payload_eq htgid, payload_eq hppid,
        payload_eq hcpu⟩, ⟨_, hcontext, ?_, rfl, rfl, rfl⟩⟩
      · rw [PyValue.getItem, lookup_payload, hlookup]
        show Except.ok (PyValue.str (normalizeText l.comm.bytes)) = _
        rw [hnormal]
      · rw [context_comm, hlookup]
        rfl

end Record

/-! ## Names -/

/-- A shell reads the name as it is, between double quotes, and it is no hexadecimal number with
    an upper-case digit. -/
def Readable (comm : Text) : Prop :=
  ShellWords.verbatim comm = true ∧
    ¬ (isPrefixedHex comm = true ∧ ∃ c ∈ comm, 0x41 ≤ c ∧ c ≤ 0x46)

/-- **The name is read** as it is exactly if it stands for itself between double quotes. -/
theorem name_read_iff (l : TaskLine) :
    (∃ tokens extra, commTokens l = .ok tokens ∧
      decodeFields (entries l.fields) tokens = .ok (entries l.fields ++ extra) ∧
      extra.lookup (text "comm") = some (some l.comm.bytes)) ↔
    ShellWords.verbatim l.comm.bytes = true := by
  have hkey : ∀ c ∈ text "comm", c ≠ 0x3d := by decide
  have hnew : (entries l.fields).lookup (text "comm") = none := rfl
  have hshort : ∀ s : Text, s.length ≤ l.comm.bytes.length → fieldValue s = some s := by
    intro s hs
    have hle := l.comm.length_le
    exact fieldValue_of_length (by omega)
  constructor
  · rintro ⟨tokens, extra, htokens, hdecode, hlookup⟩
    by_contra hverbatim
    obtain ⟨n, hn, w, rest, rfl, hw⟩ :=
      ShellWords.scan_not_verbatim (eq_false_of_ne_true hverbatim) htokens
    -- the value is shorter than the name, whatever follows
    rw [show text "comm=" ++ w = word ("comm", w) from rfl, decodeFields_word hkey hnew] at hdecode
    obtain ⟨extra', hextra⟩ := decodeFields_append hdecode
    rw [List.append_assoc, List.append_cancel_left_eq] at hextra
    rw [hextra] at hlookup
    have hvalue : fieldValue w = some l.comm.bytes := Option.some.inj hlookup
    rw [hshort w (by omega)] at hvalue
    rw [Option.some.inj hvalue] at hw
    omega
  · intro hverbatim
    refine ⟨[word ("comm", l.comm.bytes)], [(text "comm", some l.comm.bytes)], ?_, ?_, rfl⟩
    · exact ShellWords.scan_verbatim hverbatim (text "comm=") []
    · rw [decodeFields_word hkey hnew, hshort _ (Nat.le_refl _)]
      rfl

/-! ## A line of the log -/

/-- The text of a stamp. -/
def Stamp.text (stamp : Stamp) : Text :=
  JsonWriter.decimal stamp.seconds ++ [0x2e] ++
    JsonWriter.zeroPad 6 (JsonWriter.decimal stamp.microseconds)

theorem isDigit_of_mem_zeroPad {width : Nat} {n c : Nat}
    (h : c ∈ JsonWriter.zeroPad width (JsonWriter.decimal n)) : Json.isDigit c = true := by
  rcases List.mem_append.mp h with h | h
  · rw [List.eq_of_mem_replicate h]
    rfl
  · exact isDigit_of_mem_decimal h

/-- **The record of a line** is found at its start. -/
theorem searchRecord_dmesgLine (stamp : Stamp) {message : Text} (h : 0x0a ∉ message) :
    searchRecord (dmesgLine stamp (kapiEvt message)) = some (stamp.text, message) := by
  have hwhole : ∀ c ∈ JsonWriter.decimal stamp.seconds, Json.isDigit c = true :=
    fun _ => isDigit_of_mem_decimal
  have hfraction : ∀ c ∈ JsonWriter.zeroPad 6 (JsonWriter.decimal stamp.microseconds),
      Json.isDigit c = true := fun _ => isDigit_of_mem_zeroPad
  have hfractionNe : JsonWriter.zeroPad 6 (JsonWriter.decimal stamp.microseconds) ≠ [] := by
    obtain ⟨c, r, hcons, -⟩ := decimal_eq_cons stamp.microseconds
    rw [JsonWriter.zeroPad, hcons]
    exact List.append_ne_nil_of_right_ne_nil _ (List.cons_ne_nil c r)
  obtain ⟨c, r, hcons, -⟩ := decimal_eq_cons stamp.seconds
  have hspaces : ∀ d ∈ List.replicate stamp.padding 0x20, isPySpace d = true := by
    intro d hd
    rw [List.eq_of_mem_replicate hd]
    rfl
  have hc : isPySpace c = false := by
    have hdigit := hwhole c (hcons ▸ List.mem_cons_self)
    simp only [Json.isDigit, Bool.and_eq_true, decide_eq_true_eq] at hdigit
    simp only [isPySpace, Bool.or_eq_false_iff, Bool.and_eq_false_iff, decide_eq_false_iff_not]
    omega
  have hline : dmesgLine stamp (kapiEvt message) = 0x5b :: (List.replicate stamp.padding 0x20 ++
      (JsonWriter.decimal stamp.seconds ++ 0x2e ::
        (JsonWriter.zeroPad 6 (JsonWriter.decimal stamp.microseconds) ++ 0x5d ::
          0x20 :: (text "KAPI_EVT " ++ message)))) := by
    simp only [dmesgLine, kapiEvt, List.append_assoc]
    rfl
  generalize hwholeEq : JsonWriter.decimal stamp.seconds = whole at *
  generalize hfractionEq : JsonWriter.zeroPad 6 (JsonWriter.decimal stamp.microseconds) =
    fraction at *
  have hstart : (List.replicate stamp.padding 0x20 ++ (whole ++ 0x2e :: (fraction ++ 0x5d ::
      0x20 :: (text "KAPI_EVT " ++ message)))).dropWhile isPySpace =
      whole ++ 0x2e :: (fraction ++ 0x5d :: 0x20 :: (text "KAPI_EVT " ++ message)) := by
    rw [hcons, List.cons_append]
    exact dropWhile_block hspaces hc
  have hwholeNe : whole ≠ [] := by
    rw [hcons]
    exact List.cons_ne_nil c r
  -- behind the bracket: one blank, and the record up to the end of the line
  have htail : (0x20 :: (text "KAPI_EVT " ++ message)).dropWhile isPySpace =
      text "KAPI_EVT " ++ message := rfl
  have hmessage : ((text "KAPI_EVT " ++ message).drop 9).takeWhile (· ≠ 0x0a) = message := by
    show message.takeWhile (· ≠ 0x0a) = message
    refine List.takeWhile_eq_self_iff.mpr fun d hd => decide_eq_true ?_
    rintro rfl
    exact h hd
  rw [hline, searchRecord]
  have hmatch : matchRecord (0x5b :: (List.replicate stamp.padding 0x20 ++
      (whole ++ 0x2e :: (fraction ++ 0x5d :: 0x20 :: (text "KAPI_EVT " ++ message))))) =
      some (whole ++ [0x2e] ++ fraction, message) := by
    have hdot : Json.isDigit 0x2e = false := rfl
    have hclose : Json.isDigit 0x5d = false := rfl
    unfold matchRecord
    simp only [hstart, dropWhile_block hwhole hdot, takeWhile_block hwhole hdot,
      dropWhile_block hfraction hclose, takeWhile_block hfraction hclose, htail, hmessage]
    rw [if_pos ⟨hwholeNe, hfractionNe, rfl, List.prefix_append _ _⟩]
  rw [hmatch, Stamp.text, hwholeEq, hfractionEq]

/-- What comes before the name. -/
def TaskLine.front (l : TaskLine) : Text :=
  (l.fields.map word).flatMap (· ++ [0x20]) ++ text "comm=\""

theorem message_front (l : TaskLine) : l.message = l.front ++ (l.comm.bytes ++ [0x22]) := by
  rw [message_eq, TaskLine.front, List.append_assoc]
  rfl

/-- No line break and no `L` before the name. -/
theorem front_symbols (l : TaskLine) : ∀ c ∈ l.front, c ≠ 0x0a ∧ c ≠ 0x4c := by
  have hplain : ∀ w ∈ l.fields.map word, ∀ c ∈ w, c ≠ 0x0a ∧ c ≠ 0x4c := by
    intro w hw c hc
    obtain ⟨f, hf, rfl⟩ := List.mem_map.mp hw
    rcases List.mem_append.mp hc with hkey | hrest
    · have hall : ∀ k ∈ keys, ∀ c ∈ text k, c ≠ 0x0a ∧ c ≠ 0x4c := by decide
      exact hall f.1 (key_mem hf) c hkey
    · rcases List.mem_cons.mp hrest with rfl | hvalue
      · decide
      · rcases value_cases hf with ⟨v, hv⟩ | ⟨v, hv⟩ | hname
        · rw [hv] at hvalue
          rcases mem_printInt hvalue with rfl | hdigit
          · decide
          · constructor <;> rintro rfl <;> exact absurd hdigit (by decide)
        · rw [hv] at hvalue
          rcases mem_printPointer hvalue with hdigit | hletter
          · constructor <;> rintro rfl <;> exact absurd hdigit (by decide)
          · omega
        · have hall : ∀ s ∈ [text "kapi", text "tasks", text "task", text "idle", text "kthread",
              text "user-MT", text "user-ST"], ∀ c ∈ s, c ≠ 0x0a ∧ c ≠ 0x4c := by decide
          exact hall f.2 hname c hvalue
  intro c hc
  rcases List.mem_append.mp hc with hc | hc
  · obtain ⟨w, hw, hc⟩ := List.mem_flatMap.mp hc
    rcases List.mem_append.mp hc with hc | hc
    · exact hplain w hw c hc
    · rw [List.mem_singleton.mp hc]
      decide
  · have hall : ∀ c ∈ text "comm=\"", c ≠ 0x0a ∧ c ≠ 0x4c := by decide
    exact hall c hc

theorem not_mem_message (l : TaskLine) : 0x0a ∉ l.message := by
  rw [message_front]
  intro h
  rcases List.mem_append.mp h with h | h
  · exact (front_symbols l _ h).1 rfl
  · rcases List.mem_append.mp h with h | h
    · exact absurd (l.comm.printable _ h).1 (by decide)
    · exact absurd (List.mem_singleton.mp h) (by decide)

/-- A text whose first symbol is not in front has to fit into the rest. -/
theorem length_le_of_infix {a : Nat} {m front back : Text} (h : a :: m <:+: front ++ back)
    (ha : a ∉ front) : m.length + 1 ≤ back.length := by
  obtain ⟨s, t, hst⟩ := h
  rw [List.append_assoc, List.append_eq_append_iff] at hst
  rcases hst with ⟨r, hfront, hrest⟩ | ⟨r, hs, hback⟩
  · cases r with
    | nil =>
      have hlength := congrArg List.length hrest
      simp only [List.nil_append, List.length_append, List.length_cons] at hlength
      omega
    | cons x r =>
      -- the first symbol is the one that follows in front
      obtain ⟨rfl, -⟩ := List.cons.inj hrest
      rw [hfront] at ha
      exact absurd (List.mem_append_right s List.mem_cons_self) ha
  · rw [hback]
    simp only [List.length_append, List.length_cons]
    omega

/-- **The marker** is longer than a name, and the line has its first letter nowhere else. -/
theorem not_isInfix_marker (pid acquired : Nat) (stamp : Stamp) (l : TaskLine) :
    ¬ marker pid acquired <:+: dmesgLine stamp (kapiEvt l.message) := by
  intro h
  have hmarker : marker pid acquired = 0x4c :: (text "AB_KAPI_BEGIN_" ++
      JsonWriter.decimal pid ++ text "_" ++ JsonWriter.decimal acquired) := rfl
  have hline : dmesgLine stamp (kapiEvt l.message) =
      (text "[" ++ List.replicate stamp.padding 0x20 ++ JsonWriter.decimal stamp.seconds ++
        text "." ++ JsonWriter.zeroPad 6 (JsonWriter.decimal stamp.microseconds) ++ text "] " ++
        text "KAPI_EVT " ++ l.front) ++ (l.comm.bytes ++ [0x22]) := by
    rw [dmesgLine, kapiEvt, message_front]
    simp only [List.append_assoc]
  rw [hmarker, hline] at h
  have hlength := length_le_of_infix h ?_
  · have hle := l.comm.length_le
    obtain ⟨c, r, hcons, -⟩ := decimal_eq_cons pid
    have hfourteen : (text "AB_KAPI_BEGIN_").length = 14 := rfl
    have hone : (text "_").length = 1 := rfl
    rw [hcons] at hlength
    simp only [List.length_append, List.length_cons, List.length_nil, hfourteen, hone] at hlength
    omega
  · simp only [List.mem_append, not_or]
    refine ⟨⟨⟨⟨⟨⟨⟨by decide, fun hmem => ?_⟩, fun hmem => ?_⟩, by decide⟩, fun hmem => ?_⟩,
      by decide⟩, by decide⟩, fun hmem => (front_symbols l _ hmem).2 rfl⟩
    · exact absurd (List.eq_of_mem_replicate hmem) (by decide)
    · exact absurd (isDigit_of_mem_decimal hmem) (by decide)
    · exact absurd (isDigit_of_mem_zeroPad hmem) (by decide)

/-! ## The round trip -/

/-- The event of a task line. -/
theorem decodeLine_eq (other : PyValue → Text) (stamp : Stamp) (l : TaskLine) :
    decodeLine other (dmesgLine stamp (kapiEvt l.message)) =
      match commTokens l with
      | .error _ => .error .valueError
      | .ok tokens =>
        decodeFields (entries l.fields) tokens >>= decodeRecord other stamp.text := by
  have hfields : ∀ tokens, decodeFields [] (l.fields.map word ++ tokens) =
      decodeFields (entries l.fields) tokens := by
    intro tokens
    have hnodup : (keys.map text).Nodup := by decide
    exact decodeFields_fields (fun f hf c hc => ((key_plain hf).2 c hc).2) (fun _ _ => rfl)
      (show ((l.fields.map fun f => text f.1)).Nodup from hnodup) tokens
  unfold decodeLine
  rw [searchRecord_dmesgLine stamp (not_mem_message l)]
  dsimp only
  rw [split_message]
  cases commTokens l with
  | error e => rfl
  | ok tokens =>
    show (decodeFields [] (l.fields.map word ++ tokens) >>= _) = _
    rw [hfields]

/-- The line reaches the decoder, whatever the name is. -/
theorem decodeLog_cons (other : PyValue → Text) (pid acquired : Nat) (stamp : Stamp)
    (l : TaskLine) (lines : List Text) :
    decodeLog other (marker pid acquired) true (dmesgLine stamp (kapiEvt l.message) :: lines) = do
      let event ← decodeLine other (dmesgLine stamp (kapiEvt l.message))
      return event :: (← decodeLog other (marker pid acquired) true lines) := by
  have hrecord : text "KAPI_EVT " <:+: dmesgLine stamp (kapiEvt l.message) := by
    rw [dmesgLine, kapiEvt, ← List.append_assoc]
    exact List.infix_append _ _ _
  rw [decodeLog, if_neg (not_isInfix_marker pid acquired stamp l), if_pos ⟨rfl, hrecord⟩]

/-- The lines that yield an event: the tokens of `comm` and what they are decoded to. -/
theorem decodeLine_eq_ok_iff {other : PyValue → Text} {stamp : Stamp} {l : TaskLine}
    {event : PyValue} :
    decodeLine other (dmesgLine stamp (kapiEvt l.message)) = .ok event ↔ ∃ tokens extra,
      commTokens l = .ok tokens ∧
      decodeFields (entries l.fields) tokens = .ok (entries l.fields ++ extra) ∧
      decodeRecord other stamp.text (entries l.fields ++ extra) = .ok event := by
  rw [decodeLine_eq]
  cases htokens : commTokens l with
  | error e => exact iff_of_false nofun fun ⟨_, _, h, _⟩ => nomatch h
  | ok tokens =>
    dsimp only
    cases hdata : decodeFields (entries l.fields) tokens with
    | error e =>
      refine iff_of_false nofun ?_
      rintro ⟨_, _, ⟨⟩, h, -⟩
      rw [hdata] at h
      cases h
    | ok data =>
      obtain ⟨extra, rfl⟩ := decodeFields_append hdata
      constructor
      · intro hevent
        exact ⟨tokens, extra, rfl, hdata, hevent⟩
      · rintro ⟨_, extra', ⟨⟩, hdata', hrecord⟩
        have hsame := Except.ok.inj (hdata.symm.trans hdata')
        rw [hsame]
        exact hrecord

/-- The event of a line is that of its task exactly if the name is readable. -/
theorem decodeLine_exact_iff (other : PyValue → Text) (stamp : Stamp) (l : TaskLine) :
    (∃ event, decodeLine other (dmesgLine stamp (kapiEvt l.message)) = .ok event ∧
      Exact event l) ↔ Readable l.comm.bytes := by
  rw [Readable, ← name_read_iff, ← normalizeText_eq_iff]
  constructor
  · rintro ⟨event, hevent, hexact⟩
    obtain ⟨tokens, extra, htokens, hdata, hrecord⟩ := decodeLine_eq_ok_iff.mp hevent
    obtain ⟨event', hrecord', hiff⟩ := decodeRecord_exact_iff other stamp.text
    obtain rfl := Except.ok.inj (hrecord.symm.trans hrecord')
    obtain ⟨hlookup, hnormal⟩ := hiff.mp hexact
    exact ⟨⟨tokens, extra, htokens, hdata, hlookup⟩, hnormal⟩
  · rintro ⟨⟨tokens, extra, htokens, hdata, hlookup⟩, hnormal⟩
    obtain ⟨event, hrecord, hiff⟩ := decodeRecord_exact_iff other stamp.text
    exact ⟨event, decodeLine_eq_ok_iff.mpr ⟨tokens, extra, htokens, hdata, hrecord⟩,
      hiff.mpr ⟨hlookup, hnormal⟩⟩

/-- A line alone yields an event exactly if it is decoded to it. -/
theorem decodeLog_eq_ok_iff {other : PyValue → Text} {pid acquired : Nat} {stamp : Stamp}
    {l : TaskLine} {event : PyValue} :
    decodeLog other (marker pid acquired) true [dmesgLine stamp (kapiEvt l.message)] =
        .ok [event] ↔ decodeLine other (dmesgLine stamp (kapiEvt l.message)) = .ok event := by
  rw [decodeLog_cons]
  cases decodeLine other (dmesgLine stamp (kapiEvt l.message)) with
  | error e => exact iff_of_false (fun h => by cases h) fun h => by cases h
  | ok event' =>
    constructor
    · intro hevent
      obtain ⟨rfl, -⟩ := List.cons.inj (Except.ok.inj hevent)
      rfl
    · rintro ⟨⟩
      rfl

/-- **A task line comes back** from the log, as the event of its task, exactly if the name is
    readable. -/
theorem task_line_round_trip_iff (other : PyValue → Text) (pid acquired : Nat) (stamp : Stamp)
    (l : TaskLine) :
    (∃ event, decodeLog other (marker pid acquired) true
        [dmesgLine stamp (kapiEvt l.message)] = .ok [event] ∧ Exact event l) ↔
      Readable l.comm.bytes := by
  simp only [decodeLog_eq_ok_iff]
  exact decodeLine_exact_iff other stamp l

/-- A log of task lines, each with its own time. -/
theorem decodeLog_lines_iff (other : PyValue → Text) (pid acquired : Nat)
    (log : List (Stamp × TaskLine)) :
    (∃ events, decodeLog other (marker pid acquired) true
        (log.map fun e => dmesgLine e.1 (kapiEvt e.2.message)) = .ok events ∧
      List.Forall₂ Exact events (log.map Prod.snd)) ↔ ∀ e ∈ log, Readable e.2.comm.bytes := by
  induction log with
  | nil => exact iff_of_true ⟨[], rfl, .nil⟩ (by simp)
  | cons e log ih =>
    rw [List.forall_mem_cons, ← ih, ← decodeLine_exact_iff other e.1 e.2]
    simp only [List.map_cons]
    rw [decodeLog_cons]
    cases decodeLine other (dmesgLine e.1 (kapiEvt e.2.message)) with
    | error err =>
      refine iff_of_false ?_ ?_
      · rintro ⟨events, hevents, -⟩
        cases hevents
      · rintro ⟨⟨event, hevent, -⟩, -⟩
        cases hevent
    | ok event =>
      cases decodeLog other (marker pid acquired) true
          (log.map fun e => dmesgLine e.1 (kapiEvt e.2.message)) with
      | error err =>
        refine iff_of_false ?_ ?_
        · rintro ⟨events, hevents, -⟩
          cases hevents
        · rintro ⟨-, events, hevents, -⟩
          cases hevents
      | ok rest =>
        constructor
        · rintro ⟨events, hevents, hexact⟩
          obtain rfl := Except.ok.inj hevents
          obtain ⟨hevent, hrest⟩ := List.forall₂_cons.mp hexact
          exact ⟨⟨event, rfl, hevent⟩, rest, rfl, hrest⟩
        · rintro ⟨⟨event', hevent, hexact⟩, rest', hrest, hexacts⟩
          obtain rfl := Except.ok.inj hevent
          obtain rfl := Except.ok.inj hrest
          exact ⟨event :: rest, rfl, .cons hexact hexacts⟩

/-- **All threads**: behind the line that opens them, the lines of `show_all_threads` come back as
    one event for each task, as many as it returns, exactly if every name is readable. -/
theorem showAllThreads_round_trip_iff (other : PyValue → Text) (pid acquired : Nat)
    (initTask : TaskStruct) (threads : List TaskStruct) (stamps : List Stamp)
    (hstamps : stamps.length = (showAllThreads initTask threads).2) :
    (∃ events, decodeLog other (marker pid acquired) true
        (List.zipWith dmesgLine stamps (showAllThreads initTask threads).1.tail) = .ok events ∧
      events.length = (showAllThreads initTask threads).2 ∧
      List.Forall₂ Exact events (initTask.idleLine :: threads.map TaskStruct.line)) ↔
      ∀ t ∈ initTask :: threads, Readable t.comm.bytes := by
  have hlines : (initTask.idleLine :: threads.map TaskStruct.line).length = stamps.length := by
    rw [hstamps, List.length_cons, List.length_map]
    exact Nat.add_comm _ _
  have hlog : List.zipWith dmesgLine stamps (showAllThreads initTask threads).1.tail =
      (stamps.zip (initTask.idleLine :: threads.map TaskStruct.line)).map
        fun e => dmesgLine e.1 (kapiEvt e.2.message) := by
    have htail : (showAllThreads initTask threads).1.tail =
        (initTask.idleLine :: threads.map TaskStruct.line).map fun l => kapiEvt l.message := by
      simp [showAllThreads]
    rw [htail, List.zipWith_map_right, List.map_zip_eq_zipWith]
    rfl
  have hsnd : (stamps.zip (initTask.idleLine :: threads.map TaskStruct.line)).map Prod.snd =
      initTask.idleLine :: threads.map TaskStruct.line :=
    List.map_snd_zip hlines.le
  have hnames : (∀ e ∈ stamps.zip (initTask.idleLine :: threads.map TaskStruct.line),
      Readable e.2.comm.bytes) ↔ ∀ t ∈ initTask :: threads, Readable t.comm.bytes := by
    have hmap := List.forall_mem_map (f := Prod.snd)
      (l := stamps.zip (initTask.idleLine :: threads.map TaskStruct.line))
      (P := fun l : TaskLine => Readable l.comm.bytes)
    rw [← hmap, hsnd, List.forall_mem_cons, List.forall_mem_map, List.forall_mem_cons]
    rfl
  rw [hlog, ← hnames, ← decodeLog_lines_iff other pid acquired, hsnd]
  constructor
  · rintro ⟨events, hevents, -, hexact⟩
    exact ⟨events, hevents, hexact⟩
  · rintro ⟨events, hevents, hexact⟩
    exact ⟨events, hevents, hexact.length_eq.trans (hlines.trans hstamps), hexact⟩

/-- The name `a"b`. -/
def quotedName : Comm where
  bytes := text "a\"b"
  length_pos := by decide
  length_le := by decide
  printable := by decide

/-- A task of that name. -/
def quotedTask : TaskStruct := ⟨7, 7, 1, 0, 0x1000, 0x2000, 0, 1, quotedName⟩

/-- **A quote in a name** opens a text that has no end: the line is rejected. -/
theorem quotedTask_rejected :
    ¬ ∀ (other : PyValue → Text) (pid acquired : Nat) (stamp : Stamp) (t : TaskStruct),
      ∃ event, decodeLog other (marker pid acquired) true
        [dmesgLine stamp (kapiEvt t.line.message)] = .ok [event] ∧ Exact event t.line := by
  intro hclaim
  obtain ⟨event, hevent, -⟩ := hclaim (fun _ => []) 1 1 ⟨4, 1, 0⟩ quotedTask
  obtain ⟨tokens, _, htokens, -, -⟩ := decodeLine_eq_ok_iff.mp (decodeLog_eq_ok_iff.mp hevent)
  have hrejected : commTokens quotedTask.line = .error .noClosingQuotation := rfl
  cases hrejected.symm.trans htokens

end LinuxMaxxing.Kapi
