import LinuxMaxxing.Lib.JsonLines
import LinuxMaxxing.Framework.PythonText
import LinuxMaxxing.Framework.Publish

/-!
# JSON Files

`atomic_json` and `read_json` of `runtime.py`: the facts of a node, the identity of a kernel, the
stamp of an image and the result of a guest are written by the one and read by the other, in
another process or on another day.

- `readJson`: the value of a file's bytes;
- `Encoder`: what `json.dumps` gets from the interpreter;
- `atomicJson`: `atomic_bytes` with an indented text;
- `atomicJson_spec`: the file has the value or is the previous one, whatever fails.
-/

namespace LinuxMaxxing.Framework

open LinuxMaxxing.Lib

/-- `.encode()` of an ASCII text. -/
def encode (t : Text) : Bytes := t.map UInt8.ofNat

/-- `read_json` of a file with this content; `none` for what it raises, be the content no UTF-8, no
    JSON, an object with a key twice, or more than the interpreter has room for. -/
def readJson (limits : Limits) (content : Bytes) : Option PyValue :=
  (Utf8.units (content.map UInt8.toNat)).bind fun units =>
    match loads limits (JsonLines.universalNewlines units) with
    | .ok value => some value.points
    | .error _ => none

/-- What `json.dumps` gets from the interpreter: the texts of the floats, which values it has room
    for, and what it raises for the others and for an infinity. -/
structure Encoder where
  repr : Double → Option Text
  room : PyValue → Bool
  raises : PyValue → Exn

/-- `json.dumps(value, allow_nan=False)` -/
def Encoder.textOf (encoder : Encoder) (l : Layout) (value : PyValue) : Except Exn Text :=
  if encoder.room value then
    match dumps l encoder.repr 0 value.units with
    | some t => .ok t
    | none => .error (encoder.raises value)
  else .error (encoder.raises value)

/-- `atomic_json` -/
def atomicJson (f : Faults) (encoder : Encoder) (value : PyValue) : EStateM Exn Dir Unit := do
  match encoder.textOf .indented value with
  | .ok t => atomicBytes f (encode (t ++ [0x0a]))
  | .error e => throw e

/-- Every symbol of the text fits a byte. -/
theorem toNat_encode {t : Text} (h : ∀ c ∈ t, c < 256) : (encode t).map UInt8.toNat = t := by
  unfold encode
  rw [List.map_map]
  conv_rhs => rw [← List.map_id t]
  apply List.map_congr_left
  intro c hc
  exact UInt8.toNat_ofNat_of_lt (h c hc)

theorem Layout.Plain.lt {l : Layout} {t : Text} (h : l.Plain t) : ∀ c ∈ t, c < 0x80 ∧ c ≠ 0x0d := by
  intro c hc
  rcases h c hc with hprint | ⟨-, rfl⟩
  · omega
  · decide

section

variable {encoder : Encoder}

theorem Encoder.textOf_eq_ok {l : Layout} {v : PyValue} {t : Text} :
    encoder.textOf l v = .ok t ↔
      encoder.room v = true ∧ dumps l encoder.repr 0 v.units = some t := by
  unfold Encoder.textOf
  split
  · next hroom =>
    rw [and_iff_right hroom]
    cases dumps l encoder.repr 0 v.units with
    | none => simp
    | some t' => simp
  · next hroom => exact iff_of_false (by simp) fun h => hroom h.1

/-- A value has a text if there is room for it and none of its numbers is infinite. -/
theorem Encoder.exists_textOf_iff (hrepr : FloatRepr encoder.repr) {l : Layout} {v : PyValue} :
    (∃ t, encoder.textOf l v = .ok t) ↔ v.isFinite = true ∧ encoder.room v = true := by
  simp only [Encoder.textOf_eq_ok, exists_and_left]
  rw [← Option.isSome_iff_exists, dumps_isSome hrepr, PyValue.units, PyValue.isFinite_mapText]
  exact and_comm

/-- The text of a value and a line feed are a document, which loads as the value. -/
theorem Encoder.textOf_document (hrepr : FloatRepr encoder.repr) {l : Layout} {v : PyValue}
    (hunsplit : v.unsplit = true) {t : Text} (ht : encoder.textOf l v = .ok t) :
    l.Plain t ∧
      (Json.parseDocument Json.codeUnits (t ++ [0x0a])).bind PyValue.load = some v.units := by
  have ht := (Encoder.textOf_eq_ok.mp ht).2
  have hwf := PyValue.wellFormed_units v hunsplit
  obtain ⟨j, hspells, hload⟩ := spells_dumps hrepr v.units hwf ht
  have hblank : Json.Blank [0x0a] := fun c hc => by
    rw [List.mem_singleton.mp hc]
    rfl
  have hparse := Json.parseDocument_spells hspells (w := []) nofun hblank
  rw [List.nil_append] at hparse
  rw [hparse]
  exact ⟨plain_dumps hrepr v.units hwf ht, hload⟩

/-- **What `atomic_json` encodes, `read_json` reads**, if it has room for it. -/
theorem readJson_encode (hrepr : FloatRepr encoder.repr) {limits : Limits} {v : PyValue}
    (hunsplit : v.unsplit = true) (hfits : v.fits limits limits.nesting = true) {t : Text}
    (ht : encoder.textOf .indented v = .ok t) :
    readJson limits (encode (t ++ [0x0a])) = some v := by
  obtain ⟨hplain, hdocument⟩ := encoder.textOf_document hrepr hunsplit ht
  -- the file is ASCII without a carriage return, so its text is its bytes
  have hfile : ∀ c ∈ t ++ [0x0a], c < 0x80 ∧ c ≠ 0x0d :=
    List.forall_mem_append.mpr ⟨hplain.lt, List.forall_mem_singleton.mpr (by decide)⟩
  have hunits : Utf8.units (t ++ [0x0a]) = some (t ++ [0x0a]) :=
    Utf8.units_ascii fun c hc => (hfile c hc).1
  have hlines : JsonLines.universalNewlines (t ++ [0x0a]) = t ++ [0x0a] :=
    JsonLines.universalNewlines_eq_self fun hcr => (hfile _ hcr).2 rfl
  have hloads : loads limits (t ++ [0x0a]) = .ok v.units := by
    rw [loads_eq_ok_iff, PyValue.units, PyValue.fits_mapText]
    exact ⟨hdocument, hfits⟩
  unfold readJson
  rw [toNat_encode fun c hc => Nat.lt_trans (hfile c hc).1 (by decide), hunits, Option.bind_some,
    hlines, hloads]
  exact congrArg some (PyValue.points_units v hunsplit)

/-- **A JSON file is whole, and old or new**: whichever call of `atomic_json` fails, `read_json`
    then gives the value that was to be written or what it gave before. It gives the value if
    `atomic_json` returned, which it does exactly if no number in the value is infinite, the encoder
    has room for it, and every call up to the synchronisation of the directory succeeds; a value
    without a text leaves the directory alone. -/
theorem atomicJson_spec (hrepr : FloatRepr encoder.repr) (limits : Limits) (f : Faults)
    (v : PyValue) (hunsplit : v.unsplit = true) (hfits : v.fits limits limits.nesting = true)
    (d : Dir) :
    ((stateOf (atomicJson f encoder v d)).file = d.file ∨
      (stateOf (atomicJson f encoder v d)).file.bind (readJson limits) = some v) ∧
    (raisedIn (atomicJson f encoder v d) = false →
      (stateOf (atomicJson f encoder v d)).file.bind (readJson limits) = some v) ∧
    (raisedIn (atomicJson f encoder v d) = false ↔
      (v.isFinite = true ∧ encoder.room v = true) ∧ f.Replaces ∧ f.SyncsDirectory) ∧
    (¬ (v.isFinite = true ∧ encoder.room v = true) → stateOf (atomicJson f encoder v d) = d) := by
  rw [← Encoder.exists_textOf_iff hrepr (l := .indented)]
  unfold atomicJson
  cases ht : encoder.textOf .indented v with
  | error e =>
    have hnone : ¬ ∃ t, (Except.error e : Except Exn Text) = .ok t := by simp
    refine ⟨.inl rfl, fun h => ?_, ⟨fun h => ?_, fun h => absurd h.1 hnone⟩, fun _ => rfl⟩
    · exact absurd h (by decide : true ≠ false)
    · exact absurd h (by decide : true ≠ false)
  | ok t =>
    have hsome : ∃ t', (Except.ok t : Except Exn Text) = .ok t' := ⟨t, rfl⟩
    obtain ⟨hfile, hraised⟩ := atomicBytes_spec f (encode (t ++ [0x0a])) d
    have hread := readJson_encode hrepr hunsplit hfits ht
    have hnew : f.Replaces →
        (stateOf (atomicBytes f (encode (t ++ [0x0a])) d)).file.bind (readJson limits) =
          some v := by
      intro hreplaces
      rw [hfile, if_pos hreplaces]
      exact hread
    refine ⟨?_, fun h => hnew (hraised.mp h).1, ?_, fun h => absurd hsome h⟩
    · by_cases hreplaces : f.Replaces
      · exact .inr (hnew hreplaces)
      · left
        rw [hfile, if_neg hreplaces]
    · exact hraised.trans ⟨fun h => ⟨hsome, h⟩, fun h => h.2⟩

/-- An encoder that has room for every value. -/
def roomyEncoder : Encoder where
  repr := exactRepr
  room := fun _ => true
  raises := fun _ => ⟨"ValueError", "Out of range float values are not JSON compliant"⟩

/-- The result of a guest whose experiment failed, with a line break, a letter that is no ASCII, a
    symbol of two code units and half a pair in the error, and a number that is no integer. -/
def failedResult : PyValue :=
  .dict [(text "success", .bool false),
    (text "error", .str [0x61, 0x0a, 0x22, 0x17c, 0x1f600, 0xd83d]),
    (text "took", .list [.float (.finite (2 ^ 1073)), .int (-7), .dict [], .none])]

/-- The file is replaced and its directory cannot be synchronised: the result is there. -/
theorem atomicJson_spec_failedResult :
    raisedIn (atomicJson
      ⟨fun c => if c = .dirFsync then some ⟨"OSError", "Input/output error"⟩ else .none, 0⟩
      roomyEncoder failedResult ⟨some [], .none⟩) = true ∧
    (stateOf (atomicJson
      ⟨fun c => if c = .dirFsync then some ⟨"OSError", "Input/output error"⟩ else .none, 0⟩
      roomyEncoder failedResult ⟨some [], .none⟩)).file.bind (readJson cpython) =
        some failedResult := by
  have hrepr : FloatRepr roomyEncoder.repr := floatRepr_exactRepr
  have hspec := atomicJson_spec hrepr cpython
    ⟨fun c => if c = .dirFsync then some ⟨"OSError", "Input/output error"⟩ else .none, 0⟩
    failedResult (by decide) (by decide +kernel) ⟨some [], .none⟩
  refine ⟨by decide +kernel, hspec.1.resolve_left ?_⟩
  decide +kernel

end

end LinuxMaxxing.Framework
