import LinuxMaxxing.Framework.Dumps
import LinuxMaxxing.Framework.Loads

/-!
# The Texts of Python

Python's texts are sequences of code points, which a writer of ASCII turns into the code units of
their escapes, and the reader joins again. A text with the two halves of a surrogate pair next to
each other, coded separately, has the code units of another text: the reader cannot know it.

- `mapText`: a value with its texts and the names of its members rewritten;
- `PyValue.units`, `PyValue.points`: a value in code units, and in code points;
- `PyValue.unsplit`: the values that have no split pair; `points_units`: they are read back;
- `dumps_isSome`: the values that have a text are those without an infinity.
-/

namespace LinuxMaxxing.Framework

open LinuxMaxxing.Lib

namespace PyValue

/-! ## Code units and code points -/

section MapText

variable (f : Text → Text)

mutual

/-- The value with its texts and the names of its members rewritten. -/
def mapText : PyValue → PyValue
  | .str s => .str (f s)
  | .list vs => .list (mapElements vs)
  | .dict ms => .dict (mapMembers ms)
  | v => v

def mapElements : List PyValue → List PyValue
  | [] => []
  | v :: vs => mapText v :: mapElements vs

def mapMembers : List (Text × PyValue) → List (Text × PyValue)
  | [] => []
  | (k, v) :: ms => (f k, mapText v) :: mapMembers ms

end

end MapText

/-- A value in code points, with its texts in code units. -/
def units (v : PyValue) : PyValue := v.mapText fun s => s.flatMap Utf8.utf16

/-- A value in code units, with its texts in code points. -/
def points (v : PyValue) : PyValue := v.mapText Utf8.points

mutual

/-- No dictionary has a key twice, and no text a split surrogate pair. -/
def unsplit : PyValue → Bool
  | .str s => Utf8.unsplit s
  | .list vs => allUnsplit vs
  | .dict ms => (ms.map Prod.fst).Nodup && membersUnsplit ms
  | _ => true

def allUnsplit : List PyValue → Bool
  | [] => true
  | v :: vs => unsplit v && allUnsplit vs

def membersUnsplit : List (Text × PyValue) → Bool
  | [] => true
  | (k, v) :: ms => Utf8.unsplit k && unsplit v && membersUnsplit ms

end

theorem membersUnsplit_iff {ms : List (Text × PyValue)} :
    membersUnsplit ms = true ↔ ∀ m ∈ ms, Utf8.unsplit m.1 = true ∧ m.2.unsplit = true := by
  induction ms with
  | nil => simp [membersUnsplit]
  | cons m ms ih =>
    obtain ⟨k, v⟩ := m
    rw [membersUnsplit, Bool.and_eq_true, Bool.and_eq_true, ih, List.forall_mem_cons]

theorem map_fst_mapMembers (f : Text → Text) (ms : List (Text × PyValue)) :
    (mapMembers f ms).map Prod.fst = (ms.map Prod.fst).map f := by
  induction ms with
  | nil => rfl
  | cons m ms ih =>
    obtain ⟨k, v⟩ := m
    rw [mapMembers, List.map_cons, ih]
    rfl

mutual

/-- **A value is read back from its code units**, if no pair is split in it. By recursion on the
    value. -/
theorem points_units (v : PyValue) (h : v.unsplit = true) : v.units.points = v := by
  unfold units points
  cases v with
  | str s =>
    rw [unsplit] at h
    rw [mapText, mapText, Utf8.points_flatMap_utf16 h]
  | list vs =>
    rw [unsplit] at h
    rw [mapText, mapText, points_unitsElements vs h]
  | dict ms =>
    rw [unsplit, Bool.and_eq_true] at h
    rw [mapText, mapText, points_unitsMembers ms h.2]
  | _ => rfl

theorem points_unitsElements (vs : List PyValue) (h : allUnsplit vs = true) :
    mapElements Utf8.points (mapElements (fun s => s.flatMap Utf8.utf16) vs) = vs := by
  cases vs with
  | nil => rfl
  | cons v vs =>
    rw [allUnsplit, Bool.and_eq_true] at h
    rw [mapElements, mapElements, points_unitsElements vs h.2]
    exact congrArg (· :: vs) (points_units v h.1)

theorem points_unitsMembers (ms : List (Text × PyValue)) (h : membersUnsplit ms = true) :
    mapMembers Utf8.points (mapMembers (fun s => s.flatMap Utf8.utf16) ms) = ms := by
  cases ms with
  | nil => rfl
  | cons m ms =>
    obtain ⟨k, v⟩ := m
    rw [membersUnsplit, Bool.and_eq_true, Bool.and_eq_true] at h
    rw [mapMembers, mapMembers, points_unitsMembers ms h.2, Utf8.points_flatMap_utf16 h.1.1]
    exact congrArg (fun w => (k, w) :: ms) (points_units v h.1.2)

end

mutual

/-- In code units it is what the encoder takes: the names of the members stay apart. -/
theorem wellFormed_units (v : PyValue) (h : v.unsplit = true) : v.units.wellFormed = true := by
  unfold units
  cases v with
  | str s =>
    rw [unsplit] at h
    rw [mapText, wellFormed, List.all_eq_true]
    exact fun u hu => decide_eq_true (Utf8.lt_of_mem_flatMap_utf16 h u hu)
  | list vs =>
    rw [unsplit] at h
    rw [mapText, wellFormed, wellFormed_unitsElements vs h]
  | dict ms =>
    rw [unsplit, Bool.and_eq_true, decide_eq_true_eq] at h
    rw [mapText, wellFormed, wellFormed_unitsMembers ms h.2, Bool.and_true, decide_eq_true_eq,
      map_fst_mapMembers]
    refine List.Nodup.map_on ?_ h.1
    intro k hk k' hk' heq
    obtain ⟨m, hm, rfl⟩ := List.mem_map.mp hk
    obtain ⟨m', hm', rfl⟩ := List.mem_map.mp hk'
    exact Utf8.flatMap_utf16_inj_of_unsplit (membersUnsplit_iff.mp h.2 m hm).1
      (membersUnsplit_iff.mp h.2 m' hm').1 heq
  | _ => rfl

theorem wellFormed_unitsElements (vs : List PyValue) (h : allUnsplit vs = true) :
    allWellFormed (mapElements (fun s => s.flatMap Utf8.utf16) vs) = true := by
  cases vs with
  | nil => rfl
  | cons v vs =>
    rw [allUnsplit, Bool.and_eq_true] at h
    rw [mapElements, allWellFormed, wellFormed_unitsElements vs h.2, Bool.and_true]
    exact wellFormed_units v h.1

theorem wellFormed_unitsMembers (ms : List (Text × PyValue)) (h : membersUnsplit ms = true) :
    membersWellFormed (mapMembers (fun s => s.flatMap Utf8.utf16) ms) = true := by
  cases ms with
  | nil => rfl
  | cons m ms =>
    obtain ⟨k, v⟩ := m
    rw [membersUnsplit, Bool.and_eq_true, Bool.and_eq_true] at h
    rw [mapMembers, membersWellFormed, wellFormed_unitsMembers ms h.2, Bool.and_true,
      Bool.and_eq_true]
    refine ⟨?_, wellFormed_units v h.1.2⟩
    rw [List.all_eq_true]
    exact fun u hu => decide_eq_true (Utf8.lt_of_mem_flatMap_utf16 h.1.1 u hu)

end

mutual

/-- The limits are on containers and integers. -/
theorem fits_mapText (f : Text → Text) (limits : Limits) (v : PyValue) (room : Nat) :
    (v.mapText f).fits limits room = v.fits limits room := by
  cases v with
  | list vs => rw [mapText, fits, fits, allFit_mapElements f limits vs]
  | dict ms => rw [mapText, fits, fits, membersFit_mapMembers f limits ms]
  | _ => rfl

theorem allFit_mapElements (f : Text → Text) (limits : Limits) (vs : List PyValue) (room : Nat) :
    allFit limits room (mapElements f vs) = allFit limits room vs := by
  cases vs with
  | nil => rfl
  | cons v vs =>
    rw [mapElements, allFit, allFit, fits_mapText f limits v, allFit_mapElements f limits vs]

theorem membersFit_mapMembers (f : Text → Text) (limits : Limits) (ms : List (Text × PyValue))
    (room : Nat) : membersFit limits room (mapMembers f ms) = membersFit limits room ms := by
  cases ms with
  | nil => rfl
  | cons m ms =>
    obtain ⟨k, v⟩ := m
    rw [mapMembers, membersFit, membersFit, fits_mapText f limits v,
      membersFit_mapMembers f limits ms]

end

/-! ## Values with a text -/

mutual

/-- No number in the value is infinite. -/
def isFinite : PyValue → Bool
  | .float x => x.isFinite
  | .list vs => allFinite vs
  | .dict ms => membersFinite ms
  | _ => true

def allFinite : List PyValue → Bool
  | [] => true
  | v :: vs => isFinite v && allFinite vs

def membersFinite : List (Text × PyValue) → Bool
  | [] => true
  | (_, v) :: ms => isFinite v && membersFinite ms

end

mutual

theorem isFinite_mapText (f : Text → Text) (v : PyValue) : (v.mapText f).isFinite = v.isFinite := by
  cases v with
  | list vs => rw [mapText, isFinite, isFinite, allFinite_mapElements f vs]
  | dict ms => rw [mapText, isFinite, isFinite, membersFinite_mapMembers f ms]
  | _ => rfl

theorem allFinite_mapElements (f : Text → Text) (vs : List PyValue) :
    allFinite (mapElements f vs) = allFinite vs := by
  cases vs with
  | nil => rfl
  | cons v vs =>
    rw [mapElements, allFinite, allFinite, isFinite_mapText f v, allFinite_mapElements f vs]

theorem membersFinite_mapMembers (f : Text → Text) (ms : List (Text × PyValue)) :
    membersFinite (mapMembers f ms) = membersFinite ms := by
  cases ms with
  | nil => rfl
  | cons m ms =>
    obtain ⟨k, v⟩ := m
    rw [mapMembers, membersFinite, membersFinite, isFinite_mapText f v,
      membersFinite_mapMembers f ms]

end

end PyValue

section

variable {l : Layout} {repr : Double → Option Text}

mutual

/-- **The values that have a text** are those without an infinity. By recursion on the value. -/
theorem dumps_isSome (hrepr : FloatRepr repr) (v : PyValue) (level : Nat) :
    (dumps l repr level v).isSome = v.isFinite := by
  cases v with
  | float x => exact hrepr.text x
  | list vs => rw [dumps, Option.isSome_map, dumpsItems_isSome hrepr vs, PyValue.isFinite]
  | dict ms => rw [dumps, Option.isSome_map, dumpsMembers_isSome hrepr ms, PyValue.isFinite]
  | _ => rfl

theorem dumpsItems_isSome (hrepr : FloatRepr repr) (vs : List PyValue) (level : Nat) :
    (dumpsItems l repr level vs).isSome = PyValue.allFinite vs := by
  cases vs with
  | nil => rfl
  | cons v vs =>
    rw [dumpsItems, PyValue.allFinite, ← dumps_isSome hrepr v level,
      ← dumpsItems_isSome hrepr vs level]
    cases dumps l repr level v with
    | none => rfl
    | some t => exact Option.isSome_map

theorem dumpsMembers_isSome (hrepr : FloatRepr repr) (ms : List (Text × PyValue)) (level : Nat) :
    (dumpsMembers l repr level ms).isSome = PyValue.membersFinite ms := by
  cases ms with
  | nil => rfl
  | cons m ms =>
    obtain ⟨k, v⟩ := m
    rw [dumpsMembers, PyValue.membersFinite, ← dumps_isSome hrepr v level,
      ← dumpsMembers_isSome hrepr ms level]
    cases dumps l repr level v with
    | none => rfl
    | some t => exact Option.isSome_map

end

end

end LinuxMaxxing.Framework
