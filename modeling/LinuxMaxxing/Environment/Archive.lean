import LinuxMaxxing.Environment.Bootstrap

/-!
# The Entries of an Archive

What the script reads from a stream that `Remote.archive` made: one entry for each file that was
archived, under the file's own path, and no entry whose temporary is the path of another.
-/

namespace LinuxMaxxing.Environment

/-! ## Paths -/

/-- A name that stands in a path. -/
def Plain (name : Name) : Prop := name ≠ [] ∧ '/' ∉ name ∧ name ≠ ".".toList ∧ name ≠ "..".toList

/-- The text of a relative path is read back. -/
theorem ofText_strOf {parts : List Name} (hne : parts ≠ []) (h : ∀ name ∈ parts, Plain name) :
    PurePosixPath.ofText (strOf parts) = ⟨false, parts⟩ := by
  have hparts : (strOf parts).splitOn '/' = parts :=
    List.splitOn_intercalate '/' (fun name hname => (h name hname).2.1) hne
  have hhead : (strOf parts).head? ≠ some '/' := by
    obtain ⟨first, rest, rfl⟩ := List.exists_cons_of_ne_nil hne
    have hfirst := h first List.mem_cons_self
    obtain ⟨c, cs, rfl⟩ := List.exists_cons_of_ne_nil hfirst.1
    have hc : c ≠ '/' := fun heq => hfirst.2.1 (heq ▸ List.mem_cons_self)
    cases rest with
    | nil => simpa [strOf, List.intercalate] using hc
    | cons second rest => simpa [strOf, List.intercalate] using hc
  have hkept : parts.filter (fun part => part ≠ [] ∧ part ≠ ".".toList) = parts := by
    apply List.filter_eq_self.mpr
    intro name hname
    simpa using ⟨(h name hname).1, (h name hname).2.2.1⟩
  unfold PurePosixPath.ofText
  rw [hparts, hkept]
  simp [hhead]

/-! ## Members -/

/-- Every member is checked. -/
theorem entriesOf_forall₂ {members : List Member} {es : List Entry}
    (h : entriesOf members = .ok es) :
    List.Forall₂ (fun m e => checkMember m = .ok e) members es := by
  induction members generalizing es with
  | nil =>
    obtain rfl : [] = es := Except.ok.inj h
    exact .nil
  | cons m members ih =>
    unfold entriesOf at h
    rw [List.mapM_cons] at h
    cases hm : checkMember m with
    | error message => simp [hm, bind, Except.bind] at h
    | ok first =>
      cases hrest : members.mapM checkMember with
      | error message => simp [hm, hrest, bind, Except.bind] at h
      | ok rest =>
        simp only [hm, hrest, bind, Except.bind, pure, Except.pure, Except.ok.injEq] at h
        obtain rfl := h
        exact .cons hm (ih hrest)

/-! ## Temporaries -/

theorem temporary_getLast (rel : List Name) :
    (temporary rel).getLast? = some ('.' :: rel.getLastD [] ++ ".sync".toList) := by
  unfold temporary
  rw [List.getLast?_append]
  rfl

theorem temporary_ne {rel names : List Name} {name : Name} (hlast : names.getLast? = some name)
    (hne : ∀ stem : Name, name ≠ '.' :: stem ++ ".sync".toList) : temporary rel ≠ names := by
  intro heq
  have h := temporary_getLast rel
  rw [heq, hlast] at h
  exact hne _ (Option.some.inj h)

/-- `path.suffix` of a temporary. -/
theorem suffixOf_temporary (stem : Name) :
    suffixOf ('.' :: stem ++ ".sync".toList) = ".sync".toList := by
  have hreverse : ('.' :: stem ++ ".sync".toList).reverse =
      "cnys".toList ++ '.' :: (stem.reverse ++ ['.']) := by
    simp
  have htail : ('.' :: stem ++ ".sync".toList).reverse.takeWhile (· ≠ '.') = "cnys".toList := by
    rw [hreverse]
    rfl
  unfold suffixOf
  rw [htail, hreverse]
  simp

/-! ## The files of an archive -/

/-- The files that are archived, in the order of their paths. -/
def archived (t : SourceTree) : List SourceFile :=
  (t.lab :: t.files.filter kept).mergeSort fun f g => decide (f.rel ≤ g.rel)

/-- The entry of a file. -/
def entryOf (f : SourceFile) : Entry := ⟨f.rel, f.mode &&& 0o777, f.data⟩

/-- The entries of a source tree. -/
def sourceEntries (t : SourceTree) : List Entry := (archived t).map entryOf

/-- Under the directories that are archived, or `lab.sh`. -/
def Managed (names : List Name) : Prop :=
  names = labSh ∨ ∃ first ∈ sourceRoots, ∃ rest, names = first :: rest

section Archived

variable {t : SourceTree} {f : SourceFile}

theorem mem_archived (hf : f ∈ archived t) : f = t.lab ∨ f ∈ t.files ∧ kept f = true := by
  have hmem := (List.mergeSort_perm _ _).mem_iff.mp hf
  rcases List.mem_cons.mp hmem with heq | hfilter
  · exact .inl heq
  · exact .inr (List.mem_filter.mp hfilter)

theorem archived_managed (hf : f ∈ archived t) : Managed f.rel := by
  rcases mem_archived hf with rfl | ⟨hmem, _⟩
  · exact .inl t.lab_rel
  · obtain ⟨first, hfirst, rest, _, heq⟩ := t.below f hmem
    exact .inr ⟨first, hfirst, rest, heq⟩

theorem archived_ne_nil (hf : f ∈ archived t) : f.rel ≠ [] := by
  rcases archived_managed hf with heq | ⟨first, _, rest, heq⟩
  · rw [heq]
    exact List.cons_ne_nil _ _
  · rw [heq]
    exact List.cons_ne_nil _ _

theorem archived_plain (hf : f ∈ archived t) : ∀ name ∈ f.rel, Plain name := by
  rcases mem_archived hf with rfl | ⟨hmem, _⟩
  · intro name hname
    rw [t.lab_rel] at hname
    obtain rfl := List.mem_singleton.mp hname
    exact ⟨by decide, by decide, by decide, by decide⟩
  · exact t.names f hmem

/-- Every path is archived once. -/
theorem archived_nodup (t : SourceTree) : ((archived t).map (·.rel)).Nodup := by
  have hperm := (List.mergeSort_perm (t.lab :: t.files.filter kept)
    (fun f g => decide (f.rel ≤ g.rel))).map (·.rel)
  refine hperm.nodup_iff.mpr (List.nodup_cons.mpr ⟨?_, ?_⟩)
  · intro hmem
    obtain ⟨f, hf, hrel⟩ := List.mem_map.mp hmem
    obtain ⟨first, _, rest, hrest, heq⟩ := t.below f (List.mem_of_mem_filter hf)
    -- `lab.sh` is not below a directory
    have hlab : first :: rest = labSh := (heq.symm.trans hrel).trans t.lab_rel
    exact hrest (List.cons.inj hlab).2
  · exact t.distinct.sublist (List.filter_sublist.map SourceFile.rel)

/-- No archived file is a temporary. -/
theorem temporary_ne_archived (hf : f ∈ archived t) (rel : List Name) : temporary rel ≠ f.rel := by
  rcases mem_archived hf with rfl | ⟨_, hkept⟩
  · rw [t.lab_rel]
    exact temporary_ne rfl fun stem heq => absurd (List.cons.inj heq).1 (by decide)
  · intro heq
    have hlast : f.rel.getLastD [] = '.' :: rel.getLastD [] ++ ".sync".toList := by
      rw [List.getLastD_eq_getLast?, ← heq, temporary_getLast]
      rfl
    unfold kept at hkept
    simp only [hlast, suffixOf_temporary] at hkept
    simp at hkept

/-- What the script reads of an archived file. -/
theorem checkMember_tarAdd (hf : f ∈ archived t) {e : Entry} (h : checkMember (tarAdd f) = .ok e) :
    e = entryOf f := by
  have hname : PurePosixPath.ofText (tarAdd f).name = ⟨false, f.rel⟩ :=
    ofText_strOf (archived_ne_nil hf) (archived_plain hf)
  unfold checkMember at h
  simp only [hname] at h
  split at h
  · exact absurd h (by simp)
  · split at h
    · exact absurd h (by simp)
    · split at h
      · exact absurd h (by simp)
      · exact (Except.ok.inj h).symm

/-- **The entries of an archive** are those of the files that were archived. -/
theorem entriesOf_archive {es : List Entry} (h : entriesOf (archive t) = .ok es) :
    es = sourceEntries t := by
  have hall : ∀ (files : List SourceFile) (es : List Entry), (∀ f ∈ files, f ∈ archived t) →
      List.Forall₂ (fun m e => checkMember m = .ok e) (files.map tarAdd) es →
      es = files.map entryOf := by
    intro files es hfiles hes
    rw [List.forall₂_map_left_iff] at hes
    induction hes with
    | nil => rfl
    | @cons f e files es hchecked _ ih =>
      have hf := hfiles f List.mem_cons_self
      rw [List.map_cons, checkMember_tarAdd hf hchecked,
        ← ih fun f hf => hfiles f (List.mem_cons_of_mem _ hf)]
  exact hall (archived t) es (fun _ hf => hf) (entriesOf_forall₂ h)

end Archived

end LinuxMaxxing.Environment
