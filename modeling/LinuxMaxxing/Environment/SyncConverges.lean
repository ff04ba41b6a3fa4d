import LinuxMaxxing.Environment.SyncConfined
import LinuxMaxxing.Lib.Transition

/-!
# What Synchronisations Leave in a Workspace

Synchronisations of one workspace after another, each cut off anywhere or not at all.

- `Files`: the abstract workspace, the files by their names below the root; `synced` is what
  a completed run of the script makes of it;
- `Holds`: a tree that has these files, and no links. The loops of the script refine the
  operations on `Files`, and a run that is cut off leaves a tree that holds some files;
- `Converged`: the files under the managed directories are those of the archive, and the
  provenance lists them;
- `sync_converges_iff`: a run that completes converges exactly when every file it found was
  accounted for by the archive or by the provenance.
-/

namespace LinuxMaxxing.Environment

open LinuxMaxxing.Lib

variable {H : Type}

/-! ## The abstract workspace -/

/-- The files of a workspace, by their names below the root. -/
abbrev Files (H : Type) := List Name → Option (Content H × Nat)

/-- `root / 'source-provenance.json'`, below the root. -/
def provenanceName : List Name := ["source-provenance.json".toList]

/-- Stale files go. -/
def removeFiles (current : List (List Name)) (items : List (Option PurePosixPath)) (F : Files H) :
    Files H := fun names =>
  if some ⟨false, names⟩ ∈ items ∧ isStale current ⟨false, names⟩ = true then none else F names

/-- An entry comes through its temporary. -/
def extractFile (F : Files H) (e : Entry) : Files H :=
  Function.update (Function.update F (temporary e.rel) none) e.rel (some (.bytes e.data, e.mode))

/-- A completed run, but for the lock. -/
def synced (py : Python H) (es : List Entry) (items : List (Option PurePosixPath)) (mode : Nat)
    (F : Files H) : Files H :=
  Function.update (es.foldl extractFile (removeFiles (es.map (·.rel)) items F)) provenanceName
    (some (.listing (listingOf py es), mode))

/-- A tree with these files and no links below the root. -/
structure Holds (root : Location Name) (F : Files H) (t : Workspace H) : Prop where
  dir : t.node root = some .dir
  links : ∀ names text, t.node (root ++ names) ≠ some (.link text)
  files : ∀ names, t.fileAt (root ++ names) = F names

section Calls

variable {root : Location Name} {F : Files H} {d : Disk Name (Content H)}

theorem Holds.clear (h : Holds root F d.tree) (names : List Name) : Clear root d.tree names :=
  fun q _ _ _ text => h.links q text

/-- A place below the root changes, and with it that file. -/
theorem Holds.change (h : Holds root F d.tree) {names : List Name}
    {x : Option (Node Name (Content H))} (hfree : d.tree.Free (root ++ names))
    (hnew : ∀ text, x ≠ some (.link text)) :
    Holds root (Function.update F names (FileTree.fileOf x))
      (d.apply [(root ++ names, x)]).tree := by
  have hroot : root ≠ root ++ names := by
    intro heq
    exact hfree.2.2 (heq ▸ h.dir)
  refine ⟨?_, ?_, ?_⟩
  · exact (FileTree.put_node_of_ne hroot x).trans h.dir
  · intro q text
    show (d.tree.put (root ++ names) x).node (root ++ q) ≠ _
    by_cases hq : root ++ q = root ++ names
    · rw [hq, FileTree.put_node hfree]
      exact hnew text
    · rw [FileTree.put_node_of_ne hq]
      exact h.links q text
  · intro q
    show (d.tree.put (root ++ names) x).fileAt (root ++ q) = _
    rw [FileTree.fileAt_put hfree]
    by_cases hq : q = names
    · rw [hq, if_pos rfl, Function.update_self]
    · rw [if_neg (fun heq => hq (List.append_cancel_left heq)), Function.update_of_ne hq]
      exact h.files q

/-- Where a place is no file, a directory changes no file. -/
theorem Holds.mkdir (h : Holds root F d.tree) {p : Location Name} {names : List Name}
    (hp : p <+: root ++ names) {r : Unit} {changes : Changes Name (Content H)}
    (heffect : d.tree.effect (.mkdir p.path) = some (r, changes)) :
    Holds root F (d.apply changes).tree := by
  obtain ⟨p', hlocate, ⟨hnone, rfl⟩ | ⟨_, _, rfl⟩⟩ := FileTree.effect_mkdir heffect
  · have hfree := FileTree.locate_free hlocate (by rw [hnone]; simp)
    rcases List.prefix_or_prefix_of_prefix hp (List.prefix_append root names) with habove | ⟨q, rfl⟩
    · exfalso
      have hdir : d.tree.node p = some .dir := by
        have hroot := h.dir
        obtain ⟨r, rfl⟩ := habove
        by_cases hr : r = []
        · rw [hr, List.append_nil] at hroot
          exact hroot
        · exact FileTree.dir_above hr (by rw [hroot]; exact Option.some_ne_none _)
      have hfound := FileTree.locate_location false
        (FileTree.dir_dropLast hdir) (fun hlast => absurd hlast Bool.false_ne_true)
      obtain rfl := Option.some.inj (hfound.symm.trans hlocate)
      exact absurd (hnone.symm.trans hdir) (by simp)
    · obtain rfl := (h.clear q).locate h.dir hlocate
      have hchange := h.change (x := some .dir) hfree (by simp)
      have hsame : F q = none := by
        rw [← h.files q]
        unfold FileTree.fileAt
        rw [hnone]
        rfl
      rwa [show FileTree.fileOf (some .dir : Option (Node Name (Content H))) = F q from hsame.symm,
        Function.update_eq_self] at hchange
  · exact h

theorem Holds.write (h : Holds root F d.tree) {place : Location Name} {names : List Name}
    (hplace : place = root ++ names) {content : Content H} {mode : Nat} {r : Unit}
    {changes : Changes Name (Content H)}
    (heffect : d.tree.effect (.write place.path content mode) = some (r, changes)) :
    ∃ m, Holds root (Function.update F names (some (content, m))) (d.apply changes).tree := by
  subst hplace
  obtain ⟨p, m, hlocate, hplain, rfl⟩ := FileTree.effect_write heffect
  have hfree := FileTree.locate_free hlocate hplain.1
  obtain rfl := (h.clear names).locate h.dir hlocate
  exact ⟨m, h.change (x := some (.file content m)) hfree (by simp)⟩

theorem Holds.chmod (h : Holds root F d.tree) {place : Location Name} {names : List Name}
    (hplace : place = root ++ names) {mode : Nat} {r : Unit}
    {changes : Changes Name (Content H)}
    (heffect : d.tree.effect (.chmod place.path mode) = some (r, changes)) :
    ∃ content m, F names = some (content, m) ∧
      Holds root (Function.update F names (some (content, mode))) (d.apply changes).tree := by
  subst hplace
  obtain ⟨p, content, m, hlocate, hnode, rfl⟩ := FileTree.effect_chmod heffect
  have hfree := FileTree.locate_free hlocate (by rw [hnode]; simp)
  obtain rfl := (h.clear names).locate h.dir hlocate
  refine ⟨content, m, ?_, h.change (x := some (.file content mode)) hfree (by simp)⟩
  rw [← h.files names]
  unfold FileTree.fileAt
  rw [hnode]
  rfl

theorem Holds.unlink (h : Holds root F d.tree) {path : Path Name} {names : List Name}
    (hpath : path = Location.path (root ++ names)) {r : Unit}
    {changes : Changes Name (Content H)}
    (heffect : d.tree.effect (.unlink path) = some (r, changes)) :
    Holds root (Function.update F names none) (d.apply changes).tree := by
  subst hpath
  obtain ⟨p, hlocate, _, hdir, rfl⟩ := FileTree.effect_unlink heffect
  have hfree := FileTree.locate_free hlocate hdir
  obtain rfl := (h.clear names).locate h.dir hlocate
  exact h.change (x := none) hfree (by simp)

theorem Holds.replace (h : Holds root F d.tree) {place : Location Name}
    {source target : List Name} (hplace : place = root ++ source) (hne : source ≠ target)
    {r : Unit} {changes : Changes Name (Content H)}
    (heffect : d.tree.effect (.replace place.path (Location.path (root ++ target))) =
      some (r, changes)) :
    Holds root (Function.update (Function.update F source none) target (F source))
      (d.apply changes).tree := by
  subst hplace
  obtain ⟨p, q, x, hp, hq, hdir, hnode, hx, rfl⟩ := FileTree.effect_replace heffect
  have hfree := FileTree.locate_free hp (by rw [hnode]; exact fun heq => hx (Option.some.inj heq))
  have hfree' := FileTree.locate_free hq hdir
  obtain rfl := (h.clear source).locate h.dir hp
  obtain rfl := (h.clear target).locate h.dir hq
  have hlocation : root ++ target ≠ root ++ source :=
    fun heq => hne (List.append_cancel_left heq).symm
  rw [if_neg (Ne.symm hlocation)]
  have hcleared := h.change (x := none) hfree (by simp)
  -- the target's directory is still there once the source is gone
  have hfree'' : (d.apply [(root ++ source, none)]).tree.Free (root ++ target) := by
    refine ⟨hfree'.1, ?_, ?_⟩
    · have hparent : (root ++ target).dropLast ≠ root ++ source := by
        intro heq
        have hsource := hfree'.2.1
        rw [heq] at hsource
        exact hfree.2.2 hsource
      exact (FileTree.put_node_of_ne hparent none).trans hfree'.2.1
    · exact fun heq => hfree'.2.2 ((FileTree.put_node_of_ne hlocation none).symm.trans heq)
  have hmoved := hcleared.change (x := some x) hfree''
    (fun text heq => h.links source text (hnode.trans heq))
  have hfile : FileTree.fileOf (some x) = F source := by
    rw [← h.files source]
    unfold FileTree.fileAt
    rw [hnode]
  rw [hfile] at hmoved
  exact hmoved

end Calls

/-! ## The script refines the abstract workspace -/

/-- A content that the script reads as a provenance, or refuses. -/
def Readable : Content H → Prop
  | .bytes _ => False
  | .listing l => ∀ file ∈ l.files, file.1 ≠ [] ∧ "..".toList ∉ file.1
  | .torn => True

/-- What a synchronisation may find: no links, and a provenance that one of them wrote. -/
def Sound (root : Location Name) (t : Workspace H) : Prop :=
  ∃ F, Holds root F t ∧ ∀ content mode, F provenanceName = some (content, mode) → Readable content

section Script

variable {py : Python H} {root : Location Name} {F : Files H}

/-- The provenance can be read, if there is one. -/
def Recorded (F : Files H) : Prop :=
  ∀ content mode, F provenanceName = some (content, mode) → Readable content

theorem Holds.sound {t : Workspace H} (h : Holds root F t) (hF : Recorded F) : Sound root t :=
  ⟨F, h, hF⟩

theorem Recorded.update (hF : Recorded F) {names : List Name} (hne : names ≠ provenanceName)
    (f : Option (Content H × Nat)) : Recorded (Function.update F names f) := by
  intro content mode h
  rw [Function.update_of_ne (Ne.symm hne)] at h
  exact hF content mode h

/-- The lock changes no other file. -/
theorem lock_holds {d : Disk Name (Content H)} (h : Holds root F d.tree) (hF : Recorded F) :
    (os (.openAppend (lockOf root).path (.bytes []) py.fileMode)).Ensures Disk.machine
      (fun d => Sound root d.tree)
      (fun _ d' => ∃ F', Holds root F' d'.tree ∧ ∀ names, names ≠ [".lock".toList] →
        F' names = F names) d := by
  apply Disk.ensures_call (h.sound hF)
  · exact fun n path content mode hc => by cases hc
  · intro r changes heffect
    have hne : [".lock".toList] ≠ provenanceName := by decide
    obtain ⟨p, hlocate, ⟨hnone, rfl⟩ | ⟨_, rfl⟩⟩ := FileTree.effect_openAppend heffect
    · have hfree := FileTree.locate_free hlocate (by rw [hnone]; simp)
      obtain rfl := (h.clear [".lock".toList]).locate h.dir hlocate
      have hchange := h.change (x := some (.file (.bytes []) py.fileMode)) hfree (by simp)
      exact ⟨hchange.sound (hF.update hne _), _, hchange,
        fun names hnames => Function.update_of_ne hnames _ _⟩
    · exact ⟨h.sound hF, F, h, fun _ _ => rfl⟩

theorem joined_eq {parts : List Name} (h : "..".toList ∉ parts) :
    joined root parts = Location.path (root ++ parts) := by
  have hparts : parts.map component = Location.path parts := by
    apply List.map_congr_left
    intro part hpart
    have hne : part ≠ "..".toList := fun heq => h (heq ▸ hpart)
    exact if_neg hne
  unfold joined
  rw [hparts]
  simp [Location.path]

/-- A file is found by `is_file`, and nothing else is. -/
theorem Holds.isFile {t : Workspace H} (h : Holds root F t) (names : List Name) :
    t.isFile (Location.path (root ++ names)) = (F names).isSome := by
  rw [← h.files names]
  unfold FileTree.isFile FileTree.lookup FileTree.fileAt
  cases hlocate : t.locate true (Location.path (root ++ names)) with
  | some p =>
    have hclear : Clear root t names := fun q _ _ _ text => h.links q text
    obtain rfl := hclear.locate h.dir hlocate
    simp only [Option.bind_some]
    cases t.node (root ++ names) with
    | none => rfl
    | some node => cases node <;> rfl
  | none =>
    -- an entry would be found by its location
    cases hnode : t.node (root ++ names) with
    | none => rfl
    | some node =>
      have hparent : t.node (root ++ names).dropLast = some .dir := by
        rcases List.eq_nil_or_concat' (root ++ names) with hnil | ⟨q, n, heq⟩
        · rw [hnil]
          exact t.top
        · rw [heq, List.dropLast_concat]
          exact t.closed q n (by rw [← heq, hnode]; exact Option.some_ne_none _)
      have hfound := FileTree.locate_location true hparent
        (fun _ text => h.links names text)
      exact absurd (hlocate.symm.trans hfound) (by simp)

theorem removeFiles_nil {current : List (List Name)} : removeFiles current [] F = F := by
  funext names
  simp [removeFiles]

theorem removeFiles_cons {current : List (List Name)} {parts : List Name}
    {items : List (Option PurePosixPath)} :
    removeFiles current (some ⟨false, parts⟩ :: items) F = removeFiles current items
      (if isStale current ⟨false, parts⟩ then Function.update F parts none else F) := by
  funext names
  unfold removeFiles
  by_cases hnames : names = parts
  · subst hnames
    by_cases hstale : isStale current ⟨false, names⟩ <;> simp [hstale]
  · by_cases hstale : isStale current ⟨false, parts⟩ <;> simp [hstale, hnames]

/-- The script's own files are never stale. -/
theorem isStale_provenanceName {current : List (List Name)} :
    isStale current ⟨false, provenanceName⟩ = false := by
  unfold isStale
  simp [provenanceName, labSh, sourceRoots]

/-- **The stale loop** removes the stale files that are listed. -/
theorem removeStale_holds {current : List (List Name)} {items : List (Option PurePosixPath)}
    (hitems : ∀ item ∈ items, ∃ parts, item = some ⟨false, parts⟩ ∧ "..".toList ∉ parts)
    {d : Disk Name (Content H)} (h : Holds root F d.tree) (hF : Recorded F) :
    (removeStale root current items).Ensures Disk.machine (fun d => Sound root d.tree)
      (fun _ d' => Holds root (removeFiles current items F) d'.tree) d := by
  induction items generalizing F d with
  | nil =>
    rw [removeFiles_nil]
    exact h
  | cons item items ih =>
    obtain ⟨parts, rfl, hup⟩ := hitems item List.mem_cons_self
    have hrest := fun item hitem => hitems item (List.mem_cons_of_mem _ hitem)
    rw [removeFiles_cons]
    unfold removeStale
    cases hstale : isStale current ⟨false, parts⟩ with
    | false =>
      simp only [Bool.false_eq_true, if_false]
      exact ih hrest h hF
    | true =>
      have hparts : parts ≠ provenanceName := by
        rintro rfl
        exact absurd (isStale_provenanceName.symm.trans hstale) (by decide)
      simp only [if_true, joined_eq hup]
      apply Script.Ensures.bind
      apply Disk.ensures_look rfl (fun path content mode hc => by cases hc) (h.sound hF)
      split
      · exact h.sound hF
      · apply Script.Ensures.bind
        apply Disk.ensures_look rfl (fun path content mode hc => by cases hc) (h.sound hF)
        rw [h.isFile]
        cases hfile : (F parts).isSome with
        | true =>
          apply Script.Ensures.bind
          apply Disk.ensures_call (h.sound hF)
          · exact fun n path content mode hc => by cases hc
          · intro r changes heffect
            have hunlinked := h.unlink (joined_eq hup) heffect
            have hF' := hF.update hparts none
            exact ⟨hunlinked.sound hF', ih hrest hunlinked hF'⟩
        | false =>
          have hnone : F parts = none := by simpa using hfile
          rw [← hnone, Function.update_eq_self]
          exact ih hrest h hF

theorem mkdirs_holds {names : List Name} {ps : List (Location Name)}
    (hps : ∀ p ∈ ps, p <+: root ++ names) {d : Disk Name (Content H)}
    (h : Holds root F d.tree) (hF : Recorded F) :
    (mkdirs ps).Ensures Disk.machine (fun d => Sound root d.tree)
      (fun _ d' => Holds root F d'.tree) d := by
  induction ps generalizing d with
  | nil => exact h
  | cons p ps ih =>
    apply Script.Ensures.bind
    apply Disk.ensures_call (h.sound hF)
    · exact fun n path content mode hc => by cases hc
    · intro r changes heffect
      have hmade := h.mkdir (hps p List.mem_cons_self) heffect
      exact ⟨hmade.sound hF, ih (fun p hp => hps p (List.mem_cons_of_mem _ hp)) hmade⟩

/-- An entry whose names the script leaves alone otherwise. -/
structure Entry.Proper (e : Entry) : Prop where
  rel : e.rel ≠ []
  moved : temporary e.rel ≠ e.rel
  provenance : e.rel ≠ provenanceName ∧ temporary e.rel ≠ provenanceName

/-- The three calls that bring an entry in. -/
theorem store_holds (py : Python H) {e : Entry} (he : e.Proper) {d : Disk Name (Content H)}
    (h : Holds root F d.tree) (hF : Recorded F) :
    Script.Ensures Disk.machine (fun d => Sound root d.tree) (do
      os (.write (temporary (root ++ e.rel)).path (.bytes e.data) py.fileMode)
      os (.chmod (temporary (root ++ e.rel)).path e.mode)
      os (.replace (temporary (root ++ e.rel)).path (Location.path (root ++ e.rel))))
      (fun _ d' => Holds root (extractFile F e) d'.tree) d := by
  have hplace := temporary_append root he.rel
  have hF' : ∀ f, Recorded (Function.update F (temporary e.rel) f) :=
    fun f => hF.update he.provenance.2 f
  apply Script.Ensures.bind
  apply Disk.ensures_call (h.sound hF)
  · rintro n path content mode hc r changes heffect
    cases hc
    obtain ⟨m, hwritten⟩ := h.write hplace heffect
    exact hwritten.sound (hF' _)
  · intro r changes heffect
    obtain ⟨m, hwritten⟩ := h.write hplace heffect
    refine ⟨hwritten.sound (hF' _), ?_⟩
    apply Script.Ensures.bind
    apply Disk.ensures_call (hwritten.sound (hF' _))
    · exact fun n path content mode hc => by cases hc
    · intro r changes heffect
      obtain ⟨content, m', hcontent, hmode⟩ := hwritten.chmod hplace heffect
      rw [Function.update_self] at hcontent
      obtain ⟨rfl, rfl⟩ := Prod.mk.inj (Option.some.inj hcontent)
      rw [Function.update_idem] at hmode
      refine ⟨hmode.sound (hF' _), ?_⟩
      apply Disk.ensures_call (hmode.sound (hF' _))
      · exact fun n path content mode hc => by cases hc
      · intro r changes heffect
        have hmoved := hmode.replace hplace he.moved heffect
        rw [Function.update_self, Function.update_idem] at hmoved
        exact ⟨hmoved.sound ((hF' none).update he.provenance.1 _), hmoved⟩

theorem Recorded.extractFile {e : Entry} (he : e.Proper) (hF : Recorded F) :
    Recorded (extractFile F e) :=
  (hF.update he.provenance.2 none).update he.provenance.1 _

/-- **The loop over the entries** brings them all in. -/
theorem extract_holds {es : List Entry} (hes : ∀ e ∈ es, e.Proper) {d : Disk Name (Content H)}
    (h : Holds root F d.tree) (hF : Recorded F) :
    (extract py root es).Ensures Disk.machine (fun d => Sound root d.tree)
      (fun _ d' => Holds root (es.foldl extractFile F) d'.tree) d := by
  induction es generalizing F d with
  | nil => exact h
  | cons e es ih =>
    have he := hes e List.mem_cons_self
    apply Script.Ensures.bind
    apply anySymlink_ensures (h.sound hF)
    -- there is no link that the check could find
    have hrefused : ((root ++ e.rel) :: (parentsOf (root ++ e.rel)).filter (· ≠ root.dropLast)).any
        (fun p => d.tree.isSymlink p.path) = false := (refused_iff h.dir).mpr (h.clear e.rel)
    rw [hrefused]
    apply Script.Ensures.bind
    have hdirs : ∀ p ∈ (root ++ e.rel).dropLast.inits, p <+: root ++ e.rel := fun p hp =>
      ((List.mem_inits _ _).mp hp).trans (List.dropLast_prefix _)
    refine (mkdirs_holds hdirs h hF).weaken fun _ d₁ h₁ => ?_
    have hstore := (store_holds py he h₁ hF).weaken fun _ d₂ h₂ =>
      ih (fun e he => hes e (List.mem_cons_of_mem _ he)) h₂ (hF.extractFile he)
    exact Script.Ensures.bind hstore

theorem provenanceOf_eq : provenanceOf root = root ++ provenanceName := rfl

/-- The listing of proper entries can be read. -/
theorem listingOf_readable {es : List Entry} (hes : ∀ e ∈ es, e.rel ≠ [] ∧ "..".toList ∉ e.rel) :
    Readable (.listing (listingOf py es)) := by
  intro file hfile
  obtain ⟨e, he, rfl⟩ := List.mem_map.mp hfile
  exact hes e he

/-- The provenance is found by its location. -/
theorem Holds.lookup_provenance {t : Workspace H} (h : Holds root F t) :
    t.lookup true (provenanceOf root).path = t.node (provenanceOf root) := by
  have hparent : t.node (provenanceOf root).dropLast = some .dir := by
    unfold provenanceOf
    rw [List.dropLast_concat]
    exact h.dir
  unfold FileTree.lookup
  rw [FileTree.locate_location _ hparent (fun _ text => h.links provenanceName text)]
  rfl

/-- What the script reads is what the workspace holds. -/
theorem Holds.recorded {t : Workspace H} (h : Holds root F t) :
    recorded py root t = (F provenanceName).bind fun f => py.filesOf f.1 := by
  have hfile := h.files provenanceName
  unfold Environment.recorded
  rw [h.lookup_provenance, ← hfile, provenanceOf_eq]
  unfold FileTree.fileAt
  cases t.node (root ++ provenanceName) with
  | none => rfl
  | some node => cases node <;> rfl

/-- What a synchronisation finds in a provenance can be read. -/
theorem filesOf_items {content : Content H} (h : Readable content)
    {items : List (Option PurePosixPath)} (hitems : py.filesOf content = some items) :
    ∀ item ∈ items, ∃ parts, item = some ⟨false, parts⟩ ∧ "..".toList ∉ parts := by
  cases content with
  | bytes data => exact h.elim
  | torn => exact absurd hitems (by simp [Python.filesOf])
  | listing l =>
    obtain rfl := Option.some.inj hitems
    intro item hitem
    obtain ⟨file, hfile, rfl⟩ := List.mem_map.mp hitem
    exact ⟨file.1, rfl, (h file hfile).2⟩

theorem Recorded.removeFiles (hF : Recorded F) (current : List (List Name))
    (items : List (Option PurePosixPath)) : Recorded (removeFiles current items F) := by
  intro content mode heq
  unfold Environment.removeFiles at heq
  split at heq
  · exact absurd heq (by simp)
  · exact hF content mode heq

theorem Recorded.extractFiles {es : List Entry} (hes : ∀ e ∈ es, e.Proper) (hF : Recorded F) :
    Recorded (es.foldl Environment.extractFile F) := by
  induction es generalizing F with
  | nil => exact hF
  | cons e es ih =>
    exact ih (fun e he => hes e (List.mem_cons_of_mem _ he))
      (hF.extractFile (hes e List.mem_cons_self))

/-- What the script writes as its provenance can be read. -/
theorem recorded_written (F : Files H) {content : Content H} (mode : Nat)
    (hcontent : Readable content) :
    Recorded (Function.update F provenanceName (some (content, mode))) := by
  intro content' mode' heq
  rw [Function.update_self] at heq
  obtain ⟨rfl, rfl⟩ := Prod.mk.inj (Option.some.inj heq)
  exact hcontent

/-- **From the entries on**: they are extracted and the provenance is written. -/
theorem finish_holds {es : List Entry} (hproper : ∀ e ∈ es, e.Proper)
    (hlisting : Readable (.listing (listingOf py es))) {items : List (Option PurePosixPath)}
    (hF : Recorded (removeFiles (es.map (·.rel)) items F)) {d : Disk Name (Content H)}
    (h : Holds root (removeFiles (es.map (·.rel)) items F) d.tree) :
    Script.Ensures Disk.machine (fun d => Sound root d.tree) (do
      extract py root es
      os (.write (provenanceOf root).path (.listing (listingOf py es)) py.fileMode))
      (fun _ d => ∃ mode, Holds root (synced py es items mode F) d.tree ∧ Sound root d.tree) d := by
  apply Script.Ensures.bind
  refine (extract_holds hproper h hF).weaken fun _ d' h' => ?_
  apply Disk.ensures_call (h'.sound (hF.extractFiles hproper))
  · -- stopped while it writes: what is left of the listing
    rintro n path content mode hc r changes heffect
    cases hc
    obtain ⟨m, htorn⟩ := h'.write provenanceOf_eq heffect
    exact htorn.sound (recorded_written _ m trivial)
  · intro r changes heffect
    obtain ⟨m, hdone⟩ := h'.write provenanceOf_eq heffect
    have hsound := hdone.sound (recorded_written _ m hlisting)
    exact ⟨hsound, m, hdone, hsound⟩

/-- **A run of the script** returns in the abstract workspace of a completed one, or stops in a
    workspace that the next one may find. -/
theorem bootstrap_holds {members : List Member}
    (hmembers : ∀ es, entriesOf members = .ok es → ∀ e ∈ es, e.Proper ∧ "..".toList ∉ e.rel)
    {t : Workspace H} (h : Holds root F t) (hF : Recorded F) :
    (bootstrap py root members).Ensures Disk.machine (fun d => Sound root d.tree)
      (fun _ d => ∃ es F' mode, entriesOf members = .ok es ∧
        (∀ names, names ≠ [".lock".toList] → F' names = F names) ∧
        Holds root (synced py es ((recorded py root t).getD []) mode F') d.tree ∧
        Sound root d.tree) ⟨t, []⟩ := by
  apply Script.Ensures.bind
  refine (lock_holds (d := ⟨t, []⟩) h hF).weaken fun _ d ⟨F', h', hsame⟩ => ?_
  have hprovenance : F' provenanceName = F provenanceName := hsame _ (by decide)
  have hF' : Recorded F' := by
    unfold Recorded
    rw [hprovenance]
    exact hF
  apply Script.Ensures.bind
  apply Disk.ensures_look rfl (fun path content mode hc => by cases hc) (h'.sound hF')
  cases hentries : entriesOf members with
  -- a member that is refused: nothing has been written yet
  | error message => exact h'.sound hF'
  | ok es =>
    have hproper := fun e he => (hmembers es hentries e he).1
    have hlisting : Readable (.listing (listingOf py es)) := listingOf_readable fun e he =>
      ⟨(hproper e he).rel, (hmembers es hentries e he).2⟩
    simp only
    apply Script.Ensures.bind
    apply Disk.ensures_look rfl (fun path content mode hc => by cases hc) (h'.sound hF')
    rw [h'.lookup_provenance, h.recorded, ← hprovenance]
    have hfile := h'.files provenanceName
    unfold FileTree.fileAt at hfile
    rw [← provenanceOf_eq] at hfile
    cases hnode : d.tree.node (provenanceOf root) with
    | none =>
      -- no provenance, so no file of an earlier run is known and none is removed
      rw [hnode] at hfile
      rw [← hfile]
      have hnone : Holds root (removeFiles (es.map (·.rel)) [] F') d.tree := by
        rw [removeFiles_nil]
        exact h'
      refine (finish_holds hproper hlisting (hF'.removeFiles _ _) hnone).weaken ?_
      rintro _ d' ⟨mode, hdone, hsound⟩
      exact ⟨es, F', mode, rfl, hsame, hdone, hsound⟩
    | some node =>
      have hlookup := h'.lookup_provenance.trans hnode
      apply Script.Ensures.bind
      cases node with
      | dir | link =>
        apply Disk.ensures_fail _ (fun path content mode hc => by cases hc) (h'.sound hF')
        simp only [FileTree.effect, hlookup]
      | file content mode =>
        rw [hnode] at hfile
        have hread : d.tree.effect (.readText (provenanceOf root).path) = some (content, []) := by
          simp only [FileTree.effect, hlookup]
          rfl
        apply Disk.ensures_look hread (fun path content mode hc => by cases hc) (h'.sound hF')
        have hreadable : Readable content := hF' content mode hfile.symm
        rw [← hfile]
        simp only [FileTree.fileOf, Option.bind_some]
        cases hitems : py.filesOf content with
        | none => exact h'.sound hF'
        | some items =>
          -- the recorded files go first, then the entries come
          apply Script.Ensures.bind
          refine (removeStale_holds (filesOf_items hreadable hitems) h' hF').weaken
            fun _ d' hremoved => ?_
          refine (finish_holds hproper hlisting (hF'.removeFiles _ _) hremoved).weaken ?_
          rintro _ d'' ⟨mode', hdone, hsound⟩
          exact ⟨es, F', mode', rfl, hsame, hdone, hsound⟩

/-! ## The entries of an archive in the abstract workspace -/

/-- Files that no entry is for, and no temporary, stay. -/
theorem foldl_extract_of_ne {es : List Entry} {names : List Name}
    (h : ∀ e ∈ es, names ≠ e.rel ∧ names ≠ temporary e.rel) (F : Files H) :
    es.foldl extractFile F names = F names := by
  induction es generalizing F with
  | nil => rfl
  | cons e es ih =>
    obtain ⟨hrel, htemporary⟩ := h e List.mem_cons_self
    rw [List.foldl_cons, ih (fun e he => h e (List.mem_cons_of_mem _ he))]
    unfold extractFile
    rw [Function.update_of_ne hrel, Function.update_of_ne htemporary]

/-- No temporary is left. -/
theorem foldl_extract_temporary {es : List Entry} {names : List Name}
    (hrel : ∀ e ∈ es, names ≠ e.rel) {F : Files H}
    (h : F names = none ∨ ∃ e ∈ es, names = temporary e.rel) :
    es.foldl extractFile F names = none := by
  induction es generalizing F with
  | nil =>
    rcases h with hnone | ⟨e, he, _⟩
    · exact hnone
    · exact absurd he (by simp)
  | cons e es ih =>
    rw [List.foldl_cons]
    apply ih fun e he => hrel e (List.mem_cons_of_mem _ he)
    have hstep : extractFile F e names = Function.update F (temporary e.rel) none names :=
      Function.update_of_ne (hrel e List.mem_cons_self) _ _
    rw [hstep]
    rcases h with hnone | ⟨e', he', heq⟩
    · left
      by_cases htemporary : names = temporary e.rel
      · rw [htemporary, Function.update_self]
      · rw [Function.update_of_ne htemporary]
        exact hnone
    · rcases List.mem_cons.mp he' with rfl | he'
      · left
        rw [heq, Function.update_self]
      · exact .inr ⟨e', he', heq⟩

/-- Every entry has its file. -/
theorem foldl_extract_mem {es : List Entry} (hnodup : (es.map (·.rel)).Nodup)
    (htemporary : ∀ e ∈ es, ∀ e' ∈ es, temporary e'.rel ≠ e.rel) {e : Entry} (he : e ∈ es)
    (F : Files H) : es.foldl extractFile F e.rel = some (.bytes e.data, e.mode) := by
  induction es generalizing F with
  | nil => exact absurd he (by simp)
  | cons first es ih =>
    rw [List.map_cons, List.nodup_cons] at hnodup
    rw [List.foldl_cons]
    rcases List.mem_cons.mp he with rfl | he
    · rw [foldl_extract_of_ne]
      · exact Function.update_self _ _ _
      · intro e' he'
        refine ⟨fun heq => hnodup.1 (List.mem_map.mpr ⟨e', he', heq.symm⟩), ?_⟩
        exact (htemporary e List.mem_cons_self e' (List.mem_cons_of_mem _ he')).symm
    · refine ih hnodup.2 (fun e he e' he' => ?_) he _
      exact htemporary e (List.mem_cons_of_mem _ he) e' (List.mem_cons_of_mem _ he')

end Script

/-! ## Histories -/

/-- A workspace with nothing in it. -/
def Empty (root : Location Name) (t : Workspace H) : Prop :=
  t.node root = some .dir ∧ ∀ names, names ≠ [] → t.node (root ++ names) = none

/-- The synchronisations of a workspace: each with its source tree and its fault. -/
def workspace (py : Python H) (root : Location Name) :
    System (Workspace H) (SourceTree × Option (Nat × Cut)) where
  init := Empty root
  step t label := some (sync py root (archive label.1) label.2 t).world.tree

/-- The files under the managed directories are those of the archive, and the provenance lists
    them. -/
structure Converged (py : Python H) (root : Location Name) (source : SourceTree)
    (t : Workspace H) : Prop where
  files : ∀ names, Managed names → ∀ content mode,
    t.fileAt (root ++ names) = some (content, mode) ↔
      ∃ e ∈ sourceEntries source, e.rel = names ∧ content = .bytes e.data ∧ mode = e.mode
  provenance : ∃ mode, t.fileAt (provenanceOf root) =
    some (.listing (listingOf py (sourceEntries source)), mode)

/-- Every managed file that a run finds is one that it replaces, removes or moves. -/
def Accounted (py : Python H) (root : Location Name) (source : SourceTree)
    (t : Workspace H) : Prop :=
  ∀ names, Managed names → t.fileAt (root ++ names) ≠ none →
    (∃ e ∈ sourceEntries source, names = e.rel ∨ names = temporary e.rel) ∨
    ∃ items, recorded py root t = some items ∧ some ⟨false, names⟩ ∈ items

section Histories

variable {py : Python H} {root : Location Name} {t : Workspace H} {source : SourceTree}

theorem Empty.sound (h : Empty root t) : Sound root t := by
  refine ⟨fun _ => none, ⟨h.1, ?_, ?_⟩, fun _ _ heq => absurd heq (by simp)⟩
  · intro names text
    by_cases hnames : names = []
    · rw [hnames, List.append_nil, h.1]
      simp
    · rw [h.2 names hnames]
      simp
  · intro names
    unfold FileTree.fileAt
    by_cases hnames : names = []
    · rw [hnames, List.append_nil, h.1]
      rfl
    · rw [h.2 names hnames]
      rfl

theorem sourceEntries_proper {e : Entry} (he : e ∈ sourceEntries source) :
    e.Proper ∧ "..".toList ∉ e.rel := by
  obtain ⟨f, hf, rfl⟩ := List.mem_map.mp he
  have hprovenance : ¬ Managed provenanceName := by
    unfold Managed provenanceName labSh sourceRoots
    simp
  refine ⟨⟨archived_ne_nil hf, temporary_ne_archived hf f.rel, ?_, ?_⟩, ?_⟩
  · exact fun heq => hprovenance (heq ▸ archived_managed hf)
  · exact temporary_ne rfl fun stem heq => absurd (List.cons.inj heq).1 (by decide)
  · exact fun hmem => (archived_plain hf _ hmem).2.2.2 rfl

theorem archive_proper {es : List Entry} (h : entriesOf (archive source) = .ok es) :
    ∀ e ∈ es, e.Proper ∧ "..".toList ∉ e.rel := by
  obtain rfl := entriesOf_archive h
  exact fun e he => sourceEntries_proper he

/-- `bootstrap_holds` of the archive of a source tree. -/
theorem archive_holds (py : Python H) (source : SourceTree) {F : Files H} (h : Holds root F t)
    (hF : Recorded F) :
    (bootstrap py root (archive source)).Ensures Disk.machine (fun d => Sound root d.tree)
      (fun _ d => ∃ F' mode,
        (∀ names, names ≠ [".lock".toList] → F' names = F names) ∧
        Holds root (synced py (sourceEntries source) ((recorded py root t).getD []) mode F')
          d.tree ∧
        Sound root d.tree) ⟨t, []⟩ := by
  have hmembers : ∀ es, entriesOf (archive source) = .ok es →
      ∀ e ∈ es, e.Proper ∧ "..".toList ∉ e.rel := fun es hes => archive_proper hes
  refine (bootstrap_holds hmembers h hF).weaken ?_
  rintro _ d ⟨es, F', mode, hes, hsame, hholds, hsound⟩
  obtain rfl := entriesOf_archive hes
  exact ⟨F', mode, hsame, hholds, hsound⟩

/-- Every workspace of a history is one that the next run may find. -/
theorem sound_of_reachable (h : (workspace py root).Reachable t) : Sound root t := by
  refine h.invariant (Sound root) (fun _ h0 => Empty.sound h0) ?_
  intro t label t' ⟨F, hholds, hF⟩ _ hstep
  obtain rfl := Option.some.inj hstep
  have hrun := archive_holds py label.1 hholds hF
  exact (hrun.weaken fun _ d ⟨_, _, _, _, hsound⟩ => hsound).world label.2

/-- A managed name that is not archived is looked for. -/
theorem Managed.isStale {names : List Name} (h : Managed names) (current : List (List Name))
    (hnew : names ∉ current) : isStale current ⟨false, names⟩ = true := by
  unfold Environment.isStale
  rcases h with rfl | ⟨first, hfirst, rest, rfl⟩
  · have hdecide : decide (labSh ∉ current) = true := decide_eq_true hnew
    rw [hdecide]
    decide
  · simp [hnew, hfirst]

/-- What a completed run makes of a managed name. -/
theorem synced_managed {F F' : Files H} (hsame : ∀ names, names ≠ [".lock".toList] → F' names = F names)
    {items : List (Option PurePosixPath)} {mode : Nat} {names : List Name} (h : Managed names)
    (hentry : ∀ e ∈ sourceEntries source, names ≠ e.rel) :
    synced py (sourceEntries source) items mode F' names =
      if (∃ e ∈ sourceEntries source, names = temporary e.rel) ∨ some ⟨false, names⟩ ∈ items then
        none
      else F names := by
  have hprovenance : names ≠ provenanceName := by
    rintro rfl
    simp [Managed, provenanceName, labSh, sourceRoots] at h
  have hlock : names ≠ [".lock".toList] := by
    rintro rfl
    simp [Managed, labSh, sourceRoots] at h
  have hstale := h.isStale ((sourceEntries source).map (·.rel)) (by
    intro hmem
    obtain ⟨e, he, heq⟩ := List.mem_map.mp hmem
    exact hentry e he heq.symm)
  unfold synced
  rw [Function.update_of_ne hprovenance]
  by_cases htemporary : ∃ e ∈ sourceEntries source, names = temporary e.rel
  · rw [if_pos (.inl htemporary)]
    exact foldl_extract_temporary hentry (.inr htemporary)
  · rw [foldl_extract_of_ne fun e he => ⟨hentry e he, fun heq => htemporary ⟨e, he, heq⟩⟩]
    unfold removeFiles
    by_cases hitem : some ⟨false, names⟩ ∈ items
    · rw [if_pos ⟨hitem, hstale⟩, if_pos (.inr hitem)]
    · rw [if_neg (fun h => hitem h.1), if_neg (fun h => h.elim htemporary hitem), hsame names hlock]

/-- And of an archived one. -/
theorem synced_entry {F : Files H} {items : List (Option PurePosixPath)} {mode : Nat} {e : Entry}
    (he : e ∈ sourceEntries source) :
    synced py (sourceEntries source) items mode F e.rel = some (.bytes e.data, e.mode) := by
  unfold synced
  rw [Function.update_of_ne (sourceEntries_proper he).1.provenance.1]
  apply foldl_extract_mem _ _ he
  · have hrels : (sourceEntries source).map (·.rel) = (archived source).map (·.rel) := by
      unfold sourceEntries
      rw [List.map_map]
      rfl
    rw [hrels]
    exact archived_nodup source
  · intro e he e' _
    obtain ⟨f, hf, rfl⟩ := List.mem_map.mp he
    exact temporary_ne_archived hf e'.rel

end Histories

/-- **Convergence**: after any history of synchronisations that starts from an empty workspace,
    a run that completes converges to its archive exactly when the managed files it found were
    all accounted for. -/
theorem sync_converges_iff (py : Python H) (root : Location Name) {t : Workspace H}
    (h : (workspace py root).Reachable t) (source : SourceTree) (fault : Option (Nat × Cut))
    {d : Disk Name (Content H)} (hdone : sync py root (archive source) fault t = .returned () d) :
    Converged py root source d.tree ↔ Accounted py root source t := by
  obtain ⟨F, hholds, hF⟩ := sound_of_reachable h
  have hend := (archive_holds py source hholds hF).exec fault
  unfold sync at hdone
  rw [hdone] at hend
  obtain ⟨F', mode, hsame, hdone, _⟩ := hend
  have hitems : ∀ names : List Name,
      some ⟨false, names⟩ ∈ (recorded py root t).getD [] ↔
        ∃ items, recorded py root t = some items ∧ some ⟨false, names⟩ ∈ items := by
    intro names
    cases recorded py root t with
    | none => simp
    | some items => simp
  constructor
  · intro hconverged names hmanaged hfound
    by_contra hleft
    rw [not_or] at hleft
    obtain ⟨hentry, hlisted⟩ := hleft
    -- the file is still there
    have hkept : d.tree.fileAt (root ++ names) = F names := by
      rw [hdone.files, synced_managed hsame hmanaged, if_neg]
      · rintro (⟨e, he, heq⟩ | hmem)
        · exact hentry ⟨e, he, .inr heq⟩
        · exact hlisted ((hitems names).mp hmem)
      · exact fun e he heq => hentry ⟨e, he, .inl heq⟩
    rw [hholds.files] at hfound
    obtain ⟨⟨content, m⟩, hfile⟩ := Option.ne_none_iff_exists'.mp hfound
    obtain ⟨e, he, hrel, _⟩ :=
      (hconverged.files names hmanaged content m).mp (hkept.trans hfile)
    exact hentry ⟨e, he, .inl hrel.symm⟩
  · intro haccounted
    refine ⟨fun names hmanaged content m => ?_, mode, ?_⟩
    · rw [hdone.files]
      by_cases hentry : ∃ e ∈ sourceEntries source, names = e.rel
      · obtain ⟨e, he, rfl⟩ := hentry
        rw [synced_entry he]
        constructor
        · intro heq
          obtain ⟨rfl, rfl⟩ := Prod.mk.inj (Option.some.inj heq)
          exact ⟨e, he, rfl, rfl, rfl⟩
        · rintro ⟨e', he', hrel, rfl, rfl⟩
          have hsynced : synced py (sourceEntries source) ((recorded py root t).getD []) mode F'
              e'.rel = some (.bytes e'.data, e'.mode) := synced_entry he'
          rw [hrel, synced_entry he] at hsynced
          exact hsynced
      · constructor
        · intro heq
          exfalso
          rw [synced_managed hsame hmanaged fun e he heq => hentry ⟨e, he, heq⟩] at heq
          split at heq
          · exact absurd heq (by simp)
          · rename_i hleft
            have hfound : t.fileAt (root ++ names) ≠ none := by
              rw [hholds.files, heq]
              simp
            rcases haccounted names hmanaged hfound with ⟨e, he, hrel | htemporary⟩ | hlisted
            · exact hentry ⟨e, he, hrel⟩
            · exact hleft (.inl ⟨e, he, htemporary⟩)
            · exact hleft (.inr ((hitems names).mpr hlisted))
        · rintro ⟨e, he, hrel, _⟩
          exact absurd ⟨e, he, hrel.symm⟩ hentry
    · rw [provenanceOf_eq, hdone.files]
      unfold synced
      rw [Function.update_self]

/-! ## Runs -/

/-- A repository of `lab.sh` alone. -/
def labOnly : SourceTree where
  lab := ⟨labSh, true, false, false, 0o755, [7]⟩
  files := []
  lab_rel := rfl
  distinct := List.nodup_nil
  below := by simp
  names := by simp

theorem archive_labOnly : archive labOnly = sampleMembers := by
  unfold archive
  rw [show labOnly.files.filter kept = [] from rfl, List.mergeSort_singleton]
  rfl

theorem sampleTree_below {names : List Name} (hnames : names ≠ []) :
    sampleTree.node (sampleRoot ++ names) = none := by
  have hne : sampleRoot ++ names ≠ sampleRoot := by simpa using hnames
  exact FileTree.put_node_of_ne hne _

theorem sampleTree_reachable : (workspace plainPython sampleRoot).Reachable sampleTree :=
  .init ⟨by decide, fun _ hnames => sampleTree_below hnames⟩

/-- `framework/x.c` -/
def exampleC : SourceFile :=
  ⟨["framework".toList, "x.c".toList], true, false, false, 0o644, [1]⟩

/-- A repository with one more file. -/
def withExample : SourceTree where
  lab := labOnly.lab
  files := [exampleC]
  lab_rel := rfl
  distinct := List.nodup_singleton _
  below := by
    intro f hf
    obtain rfl := List.mem_singleton.mp hf
    exact ⟨"framework".toList, by decide, ["x.c".toList], by decide, rfl⟩
  names := by
    intro f hf
    obtain rfl := List.mem_singleton.mp hf
    decide

theorem archive_withExample : archive withExample = [tarAdd exampleC, tarAdd labOnly.lab] := by
  have horder : ¬ labOnly.lab.rel ≤ exampleC.rel := by decide
  unfold archive
  rw [show withExample.lab :: withExample.files.filter kept = [labOnly.lab, exampleC] from rfl]
  simp [List.mergeSort, List.MergeSort.Internal.splitInTwo, horder]

/-- A workspace after a run that brought `framework/x.c`. -/
def broughtTree : Workspace Nat :=
  (sync plainPython sampleRoot (archive withExample) none sampleTree).world.tree

theorem broughtTree_reachable : (workspace plainPython sampleRoot).Reachable broughtTree := by
  refine .step (a := (withExample, none)) sampleTree_reachable trivial ?_
  unfold broughtTree
  rfl

/-- `sync_converges_iff` on a second run, which removes a file that the first one has listed. -/
theorem sync_converges_iff_lab :
    (broughtTree.fileAt (sampleRoot ++ exampleC.rel)).isSome = true ∧
      ∃ d, sync plainPython sampleRoot (archive labOnly) none broughtTree = .returned () d ∧
        Converged plainPython sampleRoot labOnly d.tree := by
  have hfirst : (sync plainPython sampleRoot (archive withExample) none
      sampleTree).isReturned = true := by
    rw [archive_withExample]
    decide +kernel
  have hsecond : (sync plainPython sampleRoot (archive labOnly) none
      broughtTree).isReturned = true := by
    unfold broughtTree
    rw [archive_labOnly, archive_withExample]
    decide +kernel
  have hempty : Accounted plainPython sampleRoot withExample sampleTree := by
    intro names hmanaged hfound
    have hnames : names ≠ [] := by
      rintro rfl
      simp [Managed, labSh] at hmanaged
    unfold FileTree.fileAt at hfound
    rw [sampleTree_below hnames] at hfound
    exact absurd rfl hfound
  have hbrought : Converged plainPython sampleRoot withExample broughtTree :=
    (sync_converges_iff plainPython sampleRoot sampleTree_reachable withExample none
      (Script.Outcome.eq_returned hfirst)).mpr hempty
  have hstale : (broughtTree.fileAt (sampleRoot ++ exampleC.rel)).isSome = true := by
    unfold broughtTree
    rw [archive_withExample]
    decide +kernel
  -- what the first run has brought, it has listed
  obtain ⟨mode, hlisting⟩ := hbrought.provenance
  obtain ⟨F, hholds, _⟩ := sound_of_reachable broughtTree_reachable
  have hprovenance : F provenanceName =
      some (.listing (listingOf plainPython (sourceEntries withExample)), mode) := by
    rw [← hholds.files, ← provenanceOf_eq]
    exact hlisting
  have hrecorded : recorded plainPython sampleRoot broughtTree = _ := hholds.recorded
  rw [hprovenance, Option.bind_some] at hrecorded
  have haccounted : Accounted plainPython sampleRoot labOnly broughtTree := by
    intro names hmanaged hfound
    obtain ⟨⟨content, mode'⟩, hfile⟩ := Option.ne_none_iff_exists'.mp hfound
    obtain ⟨e, he, rfl, _⟩ := (hbrought.files names hmanaged content mode').mp hfile
    refine .inr ⟨_, hrecorded, List.mem_map.mpr ⟨(e.rel, plainPython.sha256 e.data), ?_, rfl⟩⟩
    exact List.mem_map.mpr ⟨e, he, rfl⟩
  exact ⟨hstale, _, Script.Outcome.eq_returned hsecond, (sync_converges_iff plainPython
    sampleRoot broughtTree_reachable labOnly none (Script.Outcome.eq_returned hsecond)).mpr
      haccounted⟩

/-- A workspace after a run that was cut off when it had brought `framework/x.c`. -/
def abortedTree : Workspace Nat :=
  (sync plainPython sampleRoot (archive withExample) (some (12, .before)) sampleTree).world.tree

theorem abortedTree_reachable : (workspace plainPython sampleRoot).Reachable abortedTree := by
  refine .step (a := (withExample, some (12, .before))) sampleTree_reachable trivial ?_
  unfold abortedTree
  rfl

/-- A run that completes does not remove it. -/
theorem aborted_sync_not_converged :
    (workspace plainPython sampleRoot).Reachable abortedTree ∧
      ∃ d, sync plainPython sampleRoot (archive labOnly) none abortedTree = .returned () d ∧
        ¬ Converged plainPython sampleRoot labOnly d.tree := by
  refine ⟨abortedTree_reachable, ?_⟩
  have hreturned :
      (sync plainPython sampleRoot (archive labOnly) none abortedTree).isReturned = true := by
    unfold abortedTree
    rw [archive_labOnly, archive_withExample]
    decide +kernel
  refine ⟨_, Script.Outcome.eq_returned hreturned, fun h => ?_⟩
  have hkept : ((sync plainPython sampleRoot (archive labOnly) none abortedTree).world.tree.fileAt
      (sampleRoot ++ exampleC.rel)).isSome = true := by
    unfold abortedTree
    rw [archive_labOnly, archive_withExample]
    decide +kernel
  obtain ⟨⟨content, mode⟩, hfile⟩ := Option.isSome_iff_exists.mp hkept
  have hmanaged : Managed exampleC.rel := .inr ⟨_, by decide, _, rfl⟩
  obtain ⟨e, he, hrel, _⟩ := (h.files _ hmanaged content mode).mp hfile
  obtain ⟨f, hf, rfl⟩ := List.mem_map.mp he
  rcases mem_archived hf with rfl | ⟨hmem, _⟩
  · exact absurd hrel (by decide)
  · exact absurd hmem (by simp [labOnly])

end LinuxMaxxing.Environment
