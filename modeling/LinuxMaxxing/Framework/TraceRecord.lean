import LinuxMaxxing.Framework.TraceLine

/-!
# The Record of a Trace Line

What `trace_record` makes of a line as the kernel prints it.

- `nanoseconds_exact`: the arithmetic of the time stamp rounds nothing off;
- `traceFields_textual`: whatever the decoding finds can be normalized;
- `traceRecord_header_iff`: a record has what the header says;
- `traceRecord_toText_iff`: when the record has the line's task, processor and time.
-/

namespace LinuxMaxxing.Framework

open LinuxMaxxing.Lib LinuxMaxxing.Common

/-! ## The arithmetic of the time stamp -/

theorem digitValue_ascii {c : Nat} (h : Json.isDigit c = true) : digitValue c = some (c - 0x30) := by
  simp only [Json.isDigit, Bool.and_eq_true, decide_eq_true_eq] at h
  rw [digitValue, decimalZeros, List.find?_cons_of_pos]
  · rfl
  · simp only [Bool.and_eq_true, decide_eq_true_eq]
    omega

theorem foldl_digits (s : Text) (n : Nat) :
    s.foldl (fun n c => 10 * n + (digitValue c).getD 0) n = n * 10 ^ s.length + decimalValue s := by
  induction s generalizing n with
  | nil => simp [decimalValue]
  | cons c s ih =>
    rw [decimalValue, List.foldl_cons, List.foldl_cons, ih, ih, List.length_cons]
    ring

theorem decimalValue_append (a b : Text) :
    decimalValue (a ++ b) = decimalValue a * 10 ^ b.length + decimalValue b := by
  rw [decimalValue, List.foldl_append, foldl_digits]
  rfl

theorem decimalValue_ascii {s : Text} (h : ∀ c ∈ s, Json.isDigit c = true) :
    decimalValue s = Json.natOfDigits s := by
  have hfold : ∀ n, s.foldl (fun n c => 10 * n + (digitValue c).getD 0) n =
      s.foldl (fun n c => 10 * n + (c - 0x30)) n := by
    intro n
    induction s generalizing n with
    | nil => rfl
    | cons c s ih =>
      rw [List.forall_mem_cons] at h
      rw [List.foldl_cons, List.foldl_cons, digitValue_ascii h.1, ih h.2]
      rfl
  exact hfold 0

/-- The digits of a number have its value. -/
@[simp] theorem decimalValue_decimal (n : Nat) : decimalValue (JsonWriter.decimal n) = n := by
  rw [decimalValue_ascii fun c hc => isDigit_of_mem_decimal hc, natOfDigits_decimal]

@[simp] theorem decimalValue_zeroPad (width : Nat) (digits : Text) :
    decimalValue (JsonWriter.zeroPad width digits) = decimalValue digits := by
  have hzero : ∀ k, decimalValue (List.replicate k 0x30) = 0 := by
    intro k
    induction k with
    | zero => rfl
    | succ k ih =>
      rw [List.replicate_succ', decimalValue_append, ih]
      rfl
  rw [JsonWriter.zeroPad, decimalValue_append, hzero, Nat.zero_mul, Nat.zero_add]

theorem length_decimal_le {n k : Nat} (hk : 0 < k) (h : n < 10 ^ k) :
    (JsonWriter.decimal n).length ≤ k := by
  unfold JsonWriter.decimal JsonWriter.digitsIn
  split
  · exact hk
  · rw [List.length_map, List.length_reverse]
    exact (Nat.digits_length_le_iff (by decide) n).mpr h

theorem length_zeroPad {digits : Text} {width : Nat} (h : digits.length ≤ width) :
    (JsonWriter.zeroPad width digits).length = width := by
  rw [JsonWriter.zeroPad, List.length_append, List.length_replicate]
  omega

/-- **Rounding to the precision drops zeros only**, where the number has no more digits than its
    trailing zeros allow. -/
theorem Decimal.toInt_fix {c k : Nat} (hdvd : 10 ^ k ∣ c) (hc : c < 10 ^ (decimalPrecision + k)) :
    (Decimal.fix ⟨c, -(k : Int)⟩).toInt = c / 10 ^ k := by
  have hlength : (Nat.digits 10 c).length ≤ decimalPrecision + k :=
    (Nat.digits_length_le_iff (by decide) c).mpr hc
  -- `e` digits are dropped, and all of them are zeros
  obtain ⟨e, he⟩ : ∃ e, (Nat.digits 10 c).length - decimalPrecision = e := ⟨_, rfl⟩
  have hle : e ≤ k := by omega
  have hrest : c % 10 ^ e = 0 := Nat.mod_eq_zero_of_dvd ((Nat.pow_dvd_pow 10 hle).trans hdvd)
  have hpos : ¬ 10 ^ e = 0 := by positivity
  have hfix : Decimal.fix ⟨c, -(k : Int)⟩ = ⟨c / 10 ^ e, -(k : Int) + e⟩ := by
    simp only [Decimal.fix, he, hrest]
    by_cases hzero : e = 0
    · simp [hzero]
    · simp [hzero, Ne.symm hpos]
  have hquotient : c / 10 ^ e / 10 ^ (k - e) = c / 10 ^ k := by
    rw [Nat.div_div_eq_div_mul, ← pow_add, Nat.add_sub_cancel' hle]
  rw [hfix, Decimal.toInt]
  by_cases hlt : e = k
  · simp [hlt]
  · have hneg : ¬ (0 : Int) ≤ -(k : Int) + e := by omega
    have hexp : (-(-(k : Int) + e)).toNat = k - e := by omega
    simp only [hneg, if_false, hexp, hquotient]

/-- **The time stamp is exact.** -/
theorem nanoseconds_exact {sec usec : Nat} (hsec : sec < 10 ^ 19) (husec : usec < 10 ^ 6) :
    nanoseconds (JsonWriter.decimal sec ++ 0x2e :: JsonWriter.zeroPad 6 (JsonWriter.decimal usec)) =
      sec * 10 ^ 9 + usec * 1000 := by
  have hsplit := Regex.takeWhile_run (isRun_decimal sec).2
    (Regex.stops_cons (p := isDigitSymbol) (c := 0x2e)
      (t := JsonWriter.zeroPad 6 (JsonWriter.decimal usec)) (by decide))
  have hlength : (JsonWriter.zeroPad 6 (JsonWriter.decimal usec)).length = 6 :=
    length_zeroPad (length_decimal_le (by decide) husec)
  have htext : Decimal.ofText (JsonWriter.decimal sec ++ 0x2e ::
      JsonWriter.zeroPad 6 (JsonWriter.decimal usec)) = ⟨sec * 10 ^ 6 + usec, -(6 : Nat)⟩ := by
    simp only [Decimal.ofText, hsplit.1, hsplit.2, List.tail_cons, decimalValue_append, hlength,
      decimalValue_decimal, decimalValue_zeroPad]
  have hproduct : (sec * 10 ^ 6 + usec) * 1000000000 =
      10 ^ 6 * (sec * 10 ^ 9 + usec * 1000) := by ring
  rw [nanoseconds, htext, Decimal.mul, Int.add_zero, hproduct, Decimal.toInt_fix]
  · exact Nat.mul_div_cancel_left _ (by decide)
  · exact Nat.dvd_mul_right _ _
  · rw [decimalPrecision]
    omega

/-! ## The record of a line -/

/-- The detail of a line can be decoded. -/
def Decodable (wide : Nat → Bool) (detail : Text) : Prop :=
  ∃ kind fields, traceFields wide detail = .ok (kind, fields)

/-- Every value is a text or missing. -/
def Textual (fields : List (Text × PyValue)) : Prop :=
  ∀ field ∈ fields, field.2 = .none ∨ ∃ s, field.2 = .str s

theorem textual_nil : Textual [] := by
  intro field hfield
  cases hfield

theorem textual_cons {key : Text} {v : PyValue} {fields : List (Text × PyValue)}
    (hv : v = .none ∨ ∃ s, v = .str s) (h : Textual fields) : Textual ((key, v) :: fields) := by
  intro field hfield
  rcases List.mem_cons.mp hfield with rfl | hfield
  · exact hv
  · exact h field hfield

theorem textual_append {a b : List (Text × PyValue)} (ha : Textual a) (hb : Textual b) :
    Textual (a ++ b) := by
  intro field hfield
  rcases List.mem_append.mp hfield with hfield | hfield
  · exact ha field hfield
  · exact hb field hfield

theorem textual_str (fields : List (Text × Text)) :
    Textual (fields.map fun field => (field.1, .str field.2)) := by
  intro field hfield
  obtain ⟨field, -, rfl⟩ := List.mem_map.mp hfield
  exact .inr ⟨field.2, rfl⟩

theorem groupValue_textual {κ : Type} [DecidableEq κ] (found : Regex.Cursor κ Nat) (key : κ) :
    groupValue found key = .none ∨ ∃ s, groupValue found key = .str s := by
  unfold groupValue
  split
  · exact .inr ⟨_, rfl⟩
  · exact .inl rfl

theorem groupDict_textual (r : Regex Text Nat) (found : Regex.Cursor Text Nat) :
    Textual (groupDict r found) := by
  intro field hfield
  obtain ⟨key, -, rfl⟩ := List.mem_map.mp hfield
  exact groupValue_textual found key

theorem decodePrefix_textual {kind payload : Text} {leading : List (Text × PyValue)} {rest : Text}
    (h : decodePrefix kind payload = .ok (leading, rest)) : Textual leading := by
  unfold decodePrefix at h
  split at h
  · -- a device in front of the fields
    split at h
    · cases h
      exact textual_cons (.inr ⟨_, rfl⟩) textual_nil
    · cases h
  · split at h
    · -- `bdi`, and `sb_dev` where it is there
      split at h
      · next found _ =>
        cases h
        apply textual_cons (groupValue_textual _ _)
        cases groupOf found 2 with
        | none => exact textual_nil
        | some s => exact textual_cons (.inr ⟨s, rfl⟩) textual_nil
      · cases h
        exact textual_nil
    · split at h
      · -- device and inode of a page
        split at h
        · cases h
          exact textual_cons (groupValue_textual _ _)
            (textual_cons (groupValue_textual _ _) textual_nil)
        · cases h
      · -- the others have nothing in front of their fields
        split at h
        · cases h
          exact textual_nil
        · split at h
          · cases h
            exact textual_nil
          · cases h
            exact textual_nil

theorem decode_textual {wide : Nat → Bool} {kind payload : Text} {fields : List (Text × PyValue)}
    (h : decode wide kind payload = .ok fields) : Textual fields := by
  unfold decode at h
  split at h
  · split at h
    · cases h
      exact groupDict_textual _ _
    · cases h
  · cases hleading : decodePrefix kind payload with
    | error e =>
      rw [hleading] at h
      cases h
    | ok leading =>
      rw [hleading] at h
      change (keyValues leading.2 >>= _) = _ at h
      cases hvalues : keyValues leading.2 with
      | error e =>
        rw [hvalues] at h
        cases h
      | ok pairs =>
        rw [hvalues] at h
        change (if _ then _ else _) = _ at h
        split at h
        · cases h
        · cases h
          exact textual_append (decodePrefix_textual hleading) (textual_str pairs)

theorem traceFields_textual {wide : Nat → Bool} {detail kind : Text}
    {fields : List (Text × PyValue)} (h : traceFields wide detail = .ok (kind, fields)) : Textual fields := by
  unfold traceFields at h
  split at h
  · -- entering `read` or `write`
    cases h
    exact textual_cons (groupValue_textual _ _) (textual_cons (groupValue_textual _ _)
      (textual_cons (groupValue_textual _ _) textual_nil))
  · split at h
    · split at h
      · -- entering another call
        next arguments _ =>
        cases hvalues : keyValues arguments with
        | error e =>
          rw [hvalues] at h
          cases h
        | ok pairs =>
          rw [hvalues] at h
          cases h
          exact textual_str pairs
      · -- leaving a call
        cases h
        exact textual_cons (groupValue_textual _ _) textual_nil
    · split at h
      · -- a tracepoint
        next kind' payload _ =>
        cases hdecode : decode wide kind' (strip payload) with
        | error e =>
          rw [hdecode] at h
          cases h
        | ok fields' =>
          rw [hdecode] at h
          cases h
          exact decode_textual hdecode
      · cases h

/-- Such fields can be normalized. -/
theorem normalizeMembers_textual {fields : List (Text × PyValue)} (h : Textual fields) :
    ∃ normal, normalizeMembers fields = .ok normal := by
  induction fields with
  | nil => exact ⟨[], rfl⟩
  | cons field fields ih =>
    obtain ⟨key, v⟩ := field
    obtain ⟨normal, hnormal⟩ := ih fun field hfield => h field (List.mem_cons_of_mem _ hfield)
    rcases h (key, v) List.mem_cons_self with rfl | ⟨s, rfl⟩
    · refine ⟨(key, .none) :: normal, ?_⟩
      simp only [normalizeMembers, normalize, hnormal]
      rfl
    · refine ⟨(key, .str (normalizeText s)) :: normal, ?_⟩
      simp only [normalizeMembers, normalize, hnormal]
      rfl

/-- Task, processor and time of an event. -/
def HasHeader (event : PyValue) (tid cpu stamp : Nat) : Prop :=
  eventContext event "tid" = .ok (.int tid) ∧ eventContext event "cpu" = .ok (.int cpu) ∧
    event.getItem "timestamp_ns" = .ok (.str (JsonWriter.decimal stamp))

theorem HasHeader.unique {event : PyValue} {tid cpu stamp tid' cpu' stamp' : Nat}
    (h : HasHeader event tid cpu stamp) (h' : HasHeader event tid' cpu' stamp') :
    tid = tid' ∧ cpu = cpu' ∧ stamp = stamp' := by
  obtain ⟨htid, hcpu, hstamp⟩ := h
  obtain ⟨htid', hcpu', hstamp'⟩ := h'
  refine ⟨?_, ?_, ?_⟩
  · exact Int.ofNat_inj.mp (PyValue.int.inj (Except.ok.inj (htid.symm.trans htid')))
  · exact Int.ofNat_inj.mp (PyValue.int.inj (Except.ok.inj (hcpu.symm.trans hcpu')))
  · have hdigits := PyValue.str.inj (Except.ok.inj (hstamp.symm.trans hstamp'))
    rw [← natOfDigits_decimal stamp, hdigits, natOfDigits_decimal]

/-- **The record of a line** exists if its detail can be decoded, and has what the header says. -/
theorem traceRecord_header_iff (wide : Nat → Bool) (other : PyValue → Text)
    (experiment domain : Text) {line : Text} {header : Header} (hheader : traceHeader line = some header) (tid cpu stamp : Nat) :
    (∃ event, traceRecord wide other experiment domain line = .ok (some event) ∧
      HasHeader event tid cpu stamp) ↔
      decimalValue header.tid = tid ∧ decimalValue header.cpu = cpu ∧
        nanoseconds header.seconds = stamp ∧ Decodable wide header.detail := by
  have hrecord : ∀ {kind : Text} {fields : List (Text × PyValue)},
      traceFields wide header.detail = .ok (kind, fields) →
      ∃ event, traceRecord wide other experiment domain line = .ok (some event) ∧ HasHeader event
        (decimalValue header.tid) (decimalValue header.cpu) (nanoseconds header.seconds) := by
    intro kind fields hfields
    obtain ⟨normal, hnormal⟩ := normalizeMembers_textual (traceFields_textual hfields)
    obtain ⟨event, hevent, -, htid, hcpu, hstamp⟩ :=
      traceRecord_ok wide other experiment domain hheader hfields hnormal
    exact ⟨event, hevent, htid, hcpu, hstamp⟩
  constructor
  · -- whatever can be decoded can be normalized, so nothing but the decoding raises
    rintro ⟨event, hevent, hhas⟩
    cases hfields : traceFields wide header.detail with
    | error e =>
      simp only [traceRecord, hheader, hfields] at hevent
      cases hevent
    | ok found =>
      obtain ⟨event', hevent', hhas'⟩ := hrecord hfields
      obtain rfl := Option.some.inj (Except.ok.inj (hevent.symm.trans hevent'))
      obtain ⟨htid, hcpu, hstamp⟩ := hhas'.unique hhas
      exact ⟨htid, hcpu, hstamp, found.1, found.2, hfields⟩
  · rintro ⟨rfl, rfl, rfl, kind, fields, hfields⟩
    exact hrecord hfields

theorem detail_ne_nil {wide : Nat → Bool} {detail : Text}
    (h : Decodable wide (detail.dropWhile isPySpace)) :
    detail.dropWhile isPySpace ≠ [] := by
  intro hnil
  obtain ⟨kind, fields, hfields⟩ := h
  rw [hnil] at hfields
  cases hfields

/-- The line's own numbers have its values. -/
theorem numbers_exact {line : TraceLine} (h : line.Printed) :
    decimalValue line.numbers.tid = line.tid ∧ decimalValue line.numbers.cpu = line.cpu ∧
      nanoseconds line.numbers.seconds = line.sec * 10 ^ 9 + line.usec * 1000 := by
  refine ⟨decimalValue_decimal _, ?_, nanoseconds_exact h.sec h.usec⟩
  exact (decimalValue_zeroPad 3 _).trans (decimalValue_decimal _)

/-- **When the record of a printed line has the line's task, processor and time**: where the line
    spells no other header too early, or one with the same values. -/
theorem traceRecord_toText_iff (wide : Nat → Bool) (other : PyValue → Text)
    (experiment domain : Text) (line : TraceLine) (h : line.Printed)
    (hdetail : Decodable wide (line.detail.dropWhile isPySpace)) :
    (∃ event, traceRecord wide other experiment domain line.toText = .ok (some event) ∧
      HasHeader event line.tid line.cpu (line.sec * 10 ^ 9 + line.usec * 1000)) ↔
      ∀ numbers, line.otherHeader = some numbers →
        decimalValue numbers.tid = line.tid ∧ decimalValue numbers.cpu = line.cpu ∧
          nanoseconds numbers.seconds = line.sec * 10 ^ 9 + line.usec * 1000 ∧
          Decodable wide numbers.detail := by
  obtain ⟨comm, hheader⟩ := traceHeader_toText h (detail_ne_nil hdetail)
  rw [traceRecord_header_iff wide other experiment domain hheader]
  cases hother : line.otherHeader with
  | some numbers =>
    constructor
    · intro hsame numbers' heq
      obtain rfl := Option.some.inj heq
      exact hsame
    · intro hsame
      exact hsame numbers rfl
  | none =>
    obtain ⟨htid, hcpu, hstamp⟩ := numbers_exact h
    refine iff_of_true ⟨htid, hcpu, hstamp, hdetail⟩ fun numbers heq => ?_
    cases heq

/-- A line of the scheduler with this name. -/
def switchLine (comm : String) : TraceLine where
  comm := text comm
  tid := 1234
  tidGap := 2
  cpu := 1
  flags := text "d..2."
  secGap := 3
  sec := 1234
  usec := 567890
  detail := text "sched_switch: prev_pid=7"
  terminated := true

theorem switchLine_decodable (wide : Nat → Bool) (comm : String) :
    Decodable wide ((switchLine comm).detail.dropWhile isPySpace) :=
  ⟨text "sched_switch", [(text "prev_pid", .str (text "7"))], rfl⟩

theorem switchLine_printed {comm : String} (hne : text comm ≠ []) (hlength : (text comm).length ≤ 15)
    (hline : 0x0a ∉ text comm) : (switchLine comm).Printed where
  comm_ne_nil := hne
  comm_length := hlength
  comm_line := hline
  flags := ⟨List.cons_ne_nil _ _, show ∀ c ∈ text "d..2.", isVisible c = true by decide⟩
  sec := by norm_num [switchLine]
  usec := by norm_num [switchLine]
  detail_line := show 0x0a ∉ text "sched_switch: prev_pid=7" by decide

/-- A name with a dash, digits and brackets. -/
theorem traceRecord_toText_iff_brackets :
    ∃ event, traceRecord (fun _ => false) (fun _ => []) (text "vfs") (text "host")
        (switchLine "kworker-1 [2]:").toText = .ok (some event) ∧
      HasHeader event 1234 1 1234567890000 := by
  refine (traceRecord_toText_iff (fun _ => false) (fun _ => []) (text "vfs") (text "host")
    (switchLine "kworker-1 [2]:") (switchLine_printed (by decide) (by decide) (by decide))
    (switchLine_decodable _ _)).mpr fun numbers hnumbers => ?_
  have hother : (switchLine "kworker-1 [2]:").otherHeader = none := rfl
  rw [hother] at hnumbers
  cases hnumbers

/-- A name that spells a header: the record has its task, processor and time. -/
theorem traceRecord_spelled_header :
    (switchLine "a-1 [2] f 3.4: ").Printed ∧
    Decodable (fun _ => false) ((switchLine "a-1 [2] f 3.4: ").detail.dropWhile isPySpace) ∧
    (∃ event, traceRecord (fun _ => false) (fun _ => []) (text "vfs") (text "host")
        (switchLine "a-1 [2] f 3.4: ").toText = .ok (some event) ∧
      HasHeader event 1 2 3400000000) ∧
    ¬ ∃ event, traceRecord (fun _ => false) (fun _ => []) (text "vfs") (text "host")
          (switchLine "a-1 [2] f 3.4: ").toText = .ok (some event) ∧
        HasHeader event 1234 1 1234567890000 := by
  have hprinted : (switchLine "a-1 [2] f 3.4: ").Printed :=
    switchLine_printed (by decide) (by decide) (by decide)
  have hother : (switchLine "a-1 [2] f 3.4: ").otherHeader = some
      ⟨text "1", text "2", text "3.4",
        (switchLine "a-1 [2] f 3.4: ").afterName (text "sched_switch: prev_pid=7")⟩ := rfl
  have hafter : (switchLine "a-1 [2] f 3.4: ").afterName (text "sched_switch: prev_pid=7") =
      text "-1234   [001] d..2.    1234.567890: sched_switch: prev_pid=7" := by
    decide +kernel
  obtain ⟨comm, hheader⟩ :=
    traceHeader_toText hprinted (detail_ne_nil (switchLine_decodable (fun _ => false) "a-1 [2] f 3.4: "))
  rw [hother, hafter, Option.getD_some] at hheader
  have hdetail : Decodable (fun _ => false)
      (text "-1234   [001] d..2.    1234.567890: sched_switch: prev_pid=7") :=
    ⟨text "-1234   [001] d..2.    1234.567890", [(text "sched_switch", .str (text "prev_pid=7"))],
      rfl⟩
  have hstamp : nanoseconds (text "3.4") = 3400000000 := by decide +kernel
  have hrecord := traceRecord_header_iff (fun _ => false) (fun _ => []) (text "vfs")
    (text "host") hheader
  refine ⟨hprinted, switchLine_decodable _ _, ?_, ?_⟩
  · exact (hrecord 1 2 3400000000).mpr ⟨rfl, rfl, hstamp, hdetail⟩
  · intro hevent
    have htid : decimalValue (text "1") = 1234 := ((hrecord _ _ _).mp hevent).1
    exact absurd htid (by decide)

end LinuxMaxxing.Framework
