import LinuxMaxxing.Environment.Archive

/-!
# A Synchronisation Stays in Its Workspace

The script checks a file it extracts, and everything above it, for symbolic links. Four
places it uses without that check: the lock, the directories above a stale file, the
temporary next to a file it extracts, and the provenance.

- `Confined`: what a run creates, replaces or deletes lies below the root;
- `SafePlaces`: none of the four places leads out of the workspace when the script gets to it;
- `sync_confined`: exactly then every run is confined, at whatever call it is cut off.
-/

namespace LinuxMaxxing.Environment

open LinuxMaxxing.Lib

variable {H : Type}

/-- A workspace: the tree it lies in. -/
abbrev Workspace (H : Type) := FileTree Name (Content H)

/-- Every location that a run touches is below the root, and nothing else has changed. -/
def Confined (root : Location Name) (t : Workspace H)
    (o : Script.Outcome Unit (Disk Name (Content H))) : Prop :=
  (∀ p ∈ o.world.touched, root <+: p) ∧
    ∀ p, ¬ root <+: p → o.world.tree.node p = t.node p

/-! ## The condition -/

/-- What the script reads under `files`; `none` when it raises, or finds no provenance. -/
def recorded (py : Python H) (root : Location Name) (t : Workspace H) :
    Option (List (Option PurePosixPath)) :=
  match t.lookup true (provenanceOf root).path with
  | some (.file content _) => py.filesOf content
  | _ => none

/-- The stale files that the script gets to: it stops at one that is a symbolic link. -/
def staleFiles (root : Location Name) (t : Workspace H) (current : List (List Name)) :
    List (Option PurePosixPath) → List PurePosixPath
  | [] => []
  | none :: _ => []
  | some rel :: items =>
    if isStale current rel then
      if t.isSymlink (joined root rel.parts) then []
      else rel :: staleFiles root t current items
    else staleFiles root t current items

/-- The script gets past the lock: `.lock` is a file, or free. -/
def Opens (root : Location Name) (t : Workspace H) : Prop :=
  ∃ p, t.locate true (lockOf root).path = some p ∧
    (t.node p = none ∨ (t.fileAt p).isSome = true)

/-- What the script checks of an entry before it extracts it. -/
def checked (root : Location Name) (e : Entry) : List (Location Name) :=
  (root ++ e.rel) :: (parentsOf (root ++ e.rel)).filter (· ≠ root.dropLast)

/-- The script stops at an entry that is a symbolic link, or below one. -/
def refused (root : Location Name) (t : Workspace H) (e : Entry) : Bool :=
  (checked root e).any fun p => t.isSymlink p.path

/-- What is written to a path lands below the root. -/
def Inside (root : Location Name) (t : Workspace H) (path : Path Name) : Prop :=
  ∀ p, t.locate true path = some p → t.node p ≠ some .dir → root <+: p

/-- The script before the entries: the lock, and the stale files. -/
def prepare (py : Python H) (root : Location Name) (current : List (List Name)) :
    SyncM H Unit := do
  os (.openAppend (lockOf root).path (.bytes []) py.fileMode)
  os (.lock (lockOf root).path)
  if ← pathExists (provenanceOf root).path then
    let previous ← os (.readText (provenanceOf root).path)
    match py.filesOf previous with
    | none => .stop "unreadable provenance"
    | some items => removeStale root current items
  else pure ()

/-- The script gets past the lock, the stale files and the first ones of the entries, and `d` is
    what it has then. -/
def GetsPast (py : Python H) (root : Location Name) (t : Workspace H) (es first : List Entry)
    (d : Disk Name (Content H)) : Prop :=
  (prepare py root (es.map (·.rel)) >>= fun _ => extract py root first).exec Disk.machine none
    ⟨t, []⟩ = .returned () d

/-- The places that are used without a check do not lead out of the workspace. -/
structure SafePlaces (py : Python H) (root : Location Name) (members : List Member)
    (t : Workspace H) : Prop where
  /-- `.lock` does not lead to a free name outside. -/
  lock : ∀ p, t.locate true (lockOf root).path = some p → t.node p = none → root <+: p
  /-- No stale file that the script gets to lies outside. -/
  stale : Opens root t → ∀ es, entriesOf members = .ok es →
    ∀ items, recorded py root t = some items →
    ∀ rel ∈ staleFiles root t (es.map (·.rel)) items, ∀ p content mode,
      t.locate false (joined root rel.parts) = some p → t.node p = some (.file content mode) →
        root <+: p
  /-- When the script gets to an entry that it does not refuse, the temporary of the entry does
      not lead outside. -/
  temporary : ∀ es, entriesOf members = .ok es → ∀ first e rest, es = first ++ e :: rest →
    ∀ d, GetsPast py root t es first d → refused root d.tree e = false →
      Inside root d.tree (temporary (root ++ e.rel)).path
  /-- When the script gets past all entries, the provenance does not lead outside. -/
  provenance : ∀ es, entriesOf members = .ok es → ∀ d, GetsPast py root t es es d →
    Inside root d.tree (provenanceOf root).path

section Proof

/-- What a run has touched lies below the root. -/
def Touched (root : Location Name) (d : Disk Name (Content H)) : Prop :=
  ∀ p ∈ d.touched, root <+: p

theorem Touched.apply {root : Location Name} {d : Disk Name (Content H)} (h : Touched root d)
    {changes : Changes Name (Content H)} (hchanges : ∀ c ∈ changes, root <+: c.1) :
    Touched root (d.apply changes) := by
  intro p hp
  rw [Disk.apply_touched, List.mem_append, List.mem_map] at hp
  rcases hp with hp | ⟨c, hc, rfl⟩
  · exact h p hp
  · exact hchanges c hc

/-! ### Entries -/

/-- The parts of an entry: there is one, and none leads up. -/
theorem checkMember_rel {m : Member} {e : Entry} (h : checkMember m = .ok e) :
    e.rel ≠ [] ∧ "..".toList ∉ e.rel := by
  unfold checkMember at h
  simp only at h
  split at h
  · exact absurd h (by simp)
  · rename_i first rest hparts
    split at h
    · exact absurd h (by simp)
    · rename_i hvalid
      split at h
      · exact absurd h (by simp)
      · obtain rfl := Except.ok.inj h
        simp only [not_or] at hvalid
        exact ⟨by simp [hparts], hvalid.2.1⟩

theorem entriesOf_mem {members : List Member} {es : List Entry} (h : entriesOf members = .ok es)
    {e : Entry} (he : e ∈ es) : ∃ m ∈ members, checkMember m = .ok e := by
  have hall := entriesOf_forall₂ h
  clear h
  induction hall with
  | nil => exact absurd he (by simp)
  | @cons m first members es hm _ ih =>
    rcases List.mem_cons.mp he with rfl | he
    · exact ⟨m, List.mem_cons_self, hm⟩
    · obtain ⟨m', hm', hcheck⟩ := ih he
      exact ⟨m', List.mem_cons_of_mem _ hm', hcheck⟩

theorem entriesOf_rel {members : List Member} {es : List Entry} (h : entriesOf members = .ok es)
    {e : Entry} (he : e ∈ es) : e.rel ≠ [] := by
  obtain ⟨m, _, hm⟩ := entriesOf_mem h he
  exact (checkMember_rel hm).1

/-- No link is at a place below the root, nor on the way to it. -/
def Clear (root : Location Name) (t : Workspace H) (names : List Name) : Prop :=
  ∀ q r, names = q ++ r → q ≠ [] → ∀ text, t.node (root ++ q) ≠ some (.link text)

theorem Clear.of_prefix {root : Location Name} {t : Workspace H} {names q : List Name}
    (h : Clear root t names) (hq : q <+: names) : Clear root t q := by
  obtain ⟨r, rfl⟩ := hq
  rintro q' r' rfl
  exact h q' (r' ++ r) (List.append_assoc _ _ _)

theorem Clear.grows {root : Location Name} {t t' : Workspace H} {names : List Name}
    (h : Clear root t names) (hgrows : FileTree.Grows t t') : Clear root t' names :=
  fun q r hsplit hq text hnode => h q r hsplit hq text ((hgrows.links _ text).mp hnode)

/-- A clear place is found where it is written. -/
theorem Clear.locate {root : Location Name} {t : Workspace H} {names : List Name} {last : Bool}
    {p : Location Name} (h : Clear root t names) (hroot : t.node root = some .dir)
    (hp : t.locate last (Location.path (root ++ names)) = some p) : p = root ++ names :=
  FileTree.locate_plain hroot (fun q r hsplit hq _ => h q r hsplit hq) hp

/-- What is checked lies above the root, or between it and the entry. -/
theorem mem_checked_iff {root : Location Name} {e : Entry} {p : Location Name}
    (hp : p ∈ checked root e) : p <+: root ∨ ∃ q, q <+: e.rel ∧ p = root ++ q := by
  have hpre : p <+: root ++ e.rel := by
    rcases List.mem_cons.mp hp with rfl | hp
    · exact List.prefix_refl _
    · have hmem := List.mem_of_mem_filter hp
      unfold parentsOf at hmem
      rw [List.mem_reverse, List.mem_inits] at hmem
      exact hmem.trans (List.dropLast_prefix _)
  rcases List.prefix_or_prefix_of_prefix hpre (List.prefix_append root e.rel) with h | ⟨q, rfl⟩
  · exact .inl h
  · exact .inr ⟨q, (List.prefix_append_right_inj root).mp hpre, rfl⟩

theorem mem_checked {root : Location Name} {e : Entry} {q : Location Name}
    (hq : q ≠ []) (hpre : q <+: e.rel) : root ++ q ∈ checked root e := by
  obtain ⟨r, hsplit⟩ := hpre
  unfold checked
  by_cases hr : r = []
  · rw [← hsplit, hr, List.append_nil]
    exact List.mem_cons_self
  · apply List.mem_cons_of_mem
    rw [List.mem_filter]
    constructor
    · unfold parentsOf
      rw [List.mem_reverse, List.mem_inits, ← hsplit, ← List.append_assoc,
        List.dropLast_append_of_ne_nil hr]
      exact List.prefix_append _ _
    · have hlength : root.dropLast.length < (root ++ q).length := by
        have := List.length_pos_iff.mpr hq
        rw [List.length_dropLast, List.length_append]
        omega
      simpa using fun heq : root ++ q = root.dropLast => (Nat.ne_of_gt hlength) (by rw [heq])

/-- **What the check of an entry means**: nothing on the way to it is a link. -/
theorem refused_iff {root : Location Name} {t : Workspace H} {e : Entry}
    (hroot : t.node root = some .dir) : refused root t e = false ↔ Clear root t e.rel := by
  unfold refused
  rw [List.any_eq_false]
  constructor
  · intro h q r hsplit hq text
    have hmem : root ++ q ∈ checked root e := mem_checked hq ⟨r, hsplit.symm⟩
    exact FileTree.isSymlink_location (by simpa using h _ hmem) text
  · intro h p hp
    rw [Bool.not_eq_true]
    rcases mem_checked_iff hp with hp | ⟨q, hq, rfl⟩
    · -- above the root there are directories
      have hdir : t.node p = some .dir := by
        obtain ⟨r, rfl⟩ := hp
        by_cases hr : r = []
        · rw [hr, List.append_nil] at hroot
          exact hroot
        · exact FileTree.dir_above hr (by rw [hroot]; exact Option.some_ne_none _)
      unfold FileTree.isSymlink
      rw [FileTree.lookup_location (by rw [hdir]; exact Option.some_ne_none _), hdir]
    · -- below it the way is clear, so a lookup stays on it
      unfold FileTree.isSymlink FileTree.lookup
      cases hlocate : t.locate false (Location.path (root ++ q)) with
      | none => rfl
      | some p =>
        obtain rfl := (h.of_prefix hq).locate hroot hlocate
        simp only [Option.bind_some]
        by_cases hnil : q = []
        · rw [hnil, List.append_nil, hroot]
        · have hlink := h.of_prefix hq q [] (List.append_nil q).symm hnil
          split
          · exact absurd ‹_› (hlink _)
          · rfl

theorem temporary_append (root : Location Name) {rel : Location Name} (hrel : rel ≠ []) :
    temporary (root ++ rel) = root ++ temporary rel := by
  unfold temporary
  rw [List.dropLast_append_of_ne_nil hrel, List.append_assoc]
  congr 3
  rw [List.getLastD_eq_getLast?, List.getLastD_eq_getLast?, List.getLast?_append_of_ne_nil _ hrel]

/-- What lies above a temporary lies above its entry. -/
theorem above_temporary {rel q r : Location Name} (hsplit : temporary rel = q ++ r) (hr : r ≠ []) :
    q <+: rel := by
  have hdrop : q <+: rel.dropLast := by
    have hlast := congrArg List.dropLast hsplit
    unfold temporary at hlast
    rw [List.dropLast_concat, List.dropLast_append_of_ne_nil hr] at hlast
    exact ⟨r.dropLast, hlast.symm⟩
  exact hdrop.trans (List.dropLast_prefix _)

/-- A temporary that is no link is clear as its entry is. -/
theorem Clear.temporary {root rel : Location Name} {t : Workspace H} (h : Clear root t rel)
    (hlink : ∀ text, t.node (root ++ temporary rel) ≠ some (.link text)) :
    Clear root t (temporary rel) := by
  intro q r hsplit hq text
  by_cases hr : r = []
  · rw [hr, List.append_nil] at hsplit
    rw [← hsplit]
    exact hlink text
  · exact h.of_prefix (above_temporary hsplit hr) q [] (List.append_nil q).symm hq text

/-! ### The loop over the entries -/

/-- The tree has grown since `t`, below the root. -/
structure Grown (root : Location Name) (t : Workspace H) (d : Disk Name (Content H)) : Prop where
  grows : FileTree.Grows t d.tree
  touched : Touched root d

/-- Change one free place below the root. -/
theorem Grown.change {root : Location Name} {t : Workspace H} {d : Disk Name (Content H)}
    (h : Grown root t d) {p : Location Name} {x : Option (Node Name (Content H))}
    (hp : root <+: p) (hold : FileTree.Plain (d.tree.node p))
    (hnew : ∀ text, x ≠ some (.link text)) : Grown root t (d.apply [(p, x)]) :=
  ⟨h.grows.trans (FileTree.grows_put hold hnew),
    h.touched.apply fun c hc => by rw [List.mem_singleton.mp hc]; exact hp⟩

variable {py : Python H} {root : Location Name} {t : Workspace H}

/-- What making directories changes: free names among them, and nothing where they are there. -/
structure Made (ps : List (Location Name)) (d d' : Disk Name (Content H)) : Prop where
  frame : ∀ q, q ∉ ps → d'.tree.node q = d.tree.node q
  still : (∀ p ∈ ps, d.tree.node p = some .dir) → d' = d

/-- The directories above an entry are made below the root. -/
theorem mkdirs_ensures (hroot : t.node root = some .dir) {names : List Name}
    (hclear : Clear root t names) {ps : List (Location Name)} (hps : ∀ p ∈ ps, p <+: root ++ names)
    {d : Disk Name (Content H)} (h : Grown root t d) :
    (mkdirs ps).Ensures Disk.machine (Touched root)
      (fun _ d' => Grown root t d' ∧ Made ps d d') d := by
  induction ps generalizing d with
  | nil => exact ⟨h, fun _ _ => rfl, fun _ => rfl⟩
  | cons p ps ih =>
    apply Script.Ensures.bind
    apply Disk.ensures_call h.touched
    · exact fun n path content mode hc => by cases hc
    · intro r changes heffect
      have hrootd := h.grows.dirs root hroot
      have hmade : Grown root t (d.apply changes) ∧ Made [p] d (d.apply changes) := by
        obtain ⟨p', hlocate, ⟨hfree, rfl⟩ | ⟨_, _, rfl⟩⟩ := FileTree.effect_mkdir heffect
        · have hp := hps p List.mem_cons_self
          rcases List.prefix_or_prefix_of_prefix hp (List.prefix_append root names) with
            habove | ⟨q, rfl⟩
          · -- a directory above the root is there already
            exfalso
            have hdir : d.tree.node p = some .dir := by
              obtain ⟨r, rfl⟩ := habove
              by_cases hr : r = []
              · rw [hr, List.append_nil] at hrootd
                exact hrootd
              · exact FileTree.dir_above hr (by rw [hrootd]; exact Option.some_ne_none _)
            have hfound := FileTree.locate_location false
              (FileTree.dir_dropLast hdir) (fun hlast => absurd hlast Bool.false_ne_true)
            obtain rfl := Option.some.inj (hfound.symm.trans hlocate)
            exact absurd (hfree.symm.trans hdir) (by simp)
          · -- a free name below it is filled, at the place that is written
            have hq := (List.prefix_append_right_inj root).mp hp
            obtain rfl := ((hclear.of_prefix hq).grows h.grows).locate hrootd hlocate
            refine ⟨h.change (List.prefix_append root q) (by rw [hfree]; exact FileTree.plain_none)
              (by simp), fun r hr => Disk.apply_frame (by simpa using hr), fun hdirs => ?_⟩
            exact absurd (hfree.symm.trans (hdirs _ List.mem_cons_self)) (by simp)
        · -- the directory is there
          exact ⟨h, fun _ _ => rfl, fun _ => rfl⟩
      obtain ⟨hgrown, hfirst⟩ := hmade
      refine ⟨hgrown.touched, (ih (fun p hp => hps p (List.mem_cons_of_mem _ hp)) hgrown).weaken
        fun _ d' ⟨hgrown', hrest⟩ => ⟨hgrown', fun q hq => ?_, fun hdirs => ?_⟩⟩
      · rw [List.mem_cons, not_or] at hq
        exact (hrest.frame q hq.2).trans (hfirst.frame q (by simpa using hq.1))
      · have hsame := hfirst.still fun q hq => hdirs q (by
          rw [List.mem_singleton.mp hq]
          exact List.mem_cons_self)
        rw [← hsame]
        refine hrest.still fun q hq => ?_
        rw [hsame]
        exact hdirs q (List.mem_cons_of_mem _ hq)

/-- Writing a file at a path that leads inside. -/
theorem write_ensures {path : Path Name} {content : Content H} {mode : Nat}
    {d : Disk Name (Content H)} (h : Grown root t d) (hinside : Inside root d.tree path) :
    (os (.write path content mode)).Ensures Disk.machine
      (Touched root) (fun _ d' => Grown root t d' ∧ Inside root d'.tree path) d := by
  have hwrite : ∀ content r changes,
      d.tree.effect (.write path content mode) = some (r, changes) →
        Grown root t (d.apply changes) ∧ Inside root (d.apply changes).tree path := by
    intro content r changes heffect
    obtain ⟨p, m, hlocate, hplain, rfl⟩ := FileTree.effect_write heffect
    have hp := hinside p hlocate hplain.1
    refine ⟨h.change hp hplain (by simp), fun q hq _ => ?_⟩
    -- the path leads to the file that was written
    have hgrows : FileTree.Grows d.tree (d.apply [(p, some (.file content m))]).tree :=
      FileTree.grows_put hplain (by simp)
    obtain rfl := Option.some.inj ((hgrows.locate hlocate).symm.trans hq)
    exact hp
  apply Disk.ensures_call h.touched
  · rintro n path' content' mode' hc r changes heffect
    cases hc
    exact (hwrite _ r changes heffect).1.touched
  · exact fun r changes heffect =>
      ⟨(hwrite _ r changes heffect).1.touched, hwrite _ r changes heffect⟩

theorem chmod_ensures {path : Path Name} {mode : Nat} {d : Disk Name (Content H)}
    (h : Grown root t d) (hinside : Inside root d.tree path) :
    (os (.chmod path mode)).Ensures Disk.machine
      (Touched root) (fun _ => Grown root t) d := by
  apply Disk.ensures_call h.touched
  · exact fun n path content mode hc => by cases hc
  · intro r changes heffect
    obtain ⟨p, content, m, hlocate, hnode, rfl⟩ := FileTree.effect_chmod heffect
    have hgrown := h.change (hinside p hlocate (by rw [hnode]; simp))
      (x := some (.file content mode)) (by rw [hnode]; exact FileTree.plain_file _ _) (by simp)
    exact ⟨hgrown.touched, hgrown⟩

/-- The root is a directory, and what has been touched lies below it. -/
structure Within (root : Location Name) (d : Disk Name (Content H)) : Prop where
  dir : d.tree.node root = some .dir
  touched : Touched root d

theorem Within.grown {d : Disk Name (Content H)} (h : Within root d) : Grown root d.tree d :=
  ⟨FileTree.Grows.refl d.tree, h.touched⟩

/-- Moving what is at a temporary, be it a link, onto its entry. -/
theorem replace_ensures (hroot : t.node root = some .dir) {rel : List Name} (hrel : rel ≠ [])
    (hclear : Clear root t rel) {d : Disk Name (Content H)} (h : Grown root t d) :
    (os (.replace (temporary (root ++ rel)).path (Location.path (root ++ rel)))).Ensures
      Disk.machine (Touched root) (fun _ => Within root) d := by
  rw [temporary_append root hrel]
  have hrootd := h.grows.dirs root hroot
  apply Disk.ensures_call h.touched
  · exact fun n path content mode hc => by cases hc
  · intro r changes heffect
    obtain ⟨p, q, x, hp, hq, hdir, hnode, hx, rfl⟩ := FileTree.effect_replace heffect
    obtain rfl := (hclear.grows h.grows).locate hrootd hq
    -- `os.replace` does not follow the last name, so the temporary may be a link itself
    obtain rfl : p = root ++ temporary rel := by
      refine FileTree.locate_plain hrootd (fun q r hsplit hq hlast text => ?_) hp
      have hr : r ≠ [] := fun hnil => absurd (hlast hnil) Bool.false_ne_true
      exact (hclear.grows h.grows) q _ (List.prefix_iff_eq_append.mp (above_temporary hsplit hr)).symm
        hq text
    have hinside : ∀ c ∈ (if root ++ temporary rel = root ++ rel then [] else
        [(root ++ temporary rel, none), (root ++ rel, some x)] : Changes Name (Content H)),
        root <+: c.1 ∧ root ≠ c.1 := by
      intro c hc
      split at hc
      · exact absurd hc (by simp)
      · rcases List.mem_cons.mp hc with rfl | hc
        · exact ⟨List.prefix_append _ _, by simp [temporary]⟩
        · obtain rfl := List.mem_singleton.mp hc
          exact ⟨List.prefix_append _ _, by simpa using hrel⟩
    have htouched := h.touched.apply fun c hc => (hinside c hc).1
    -- the root is none of the two names, and still a directory
    refine ⟨htouched, ?_, htouched⟩
    rw [Disk.apply_frame]
    · exact hrootd
    · intro hmem
      obtain ⟨c, hc, heq⟩ := List.mem_map.mp hmem
      exact (hinside c hc).2 heq.symm

/-- The check goes through a list of locations and touches nothing. -/
theorem anySymlink_ensures {ps : List (Location Name)} {d : Disk Name (Content H)}
    {E : Disk Name (Content H) → Prop} {Q : Bool → Disk Name (Content H) → Prop} (h : E d)
    (hQ : Q (ps.any fun p => d.tree.isSymlink p.path) d) :
    (anySymlink ps).Ensures Disk.machine E Q d := by
  induction ps with
  | nil => exact hQ
  | cons p ps ih =>
    apply Script.Ensures.bind
    apply Disk.ensures_look rfl (fun path content mode hc => by cases hc) h
    rw [List.any_cons] at hQ
    cases hlink : d.tree.isSymlink p.path with
    | true =>
      rw [hlink, Bool.true_or] at hQ
      exact hQ
    | false =>
      rw [hlink, Bool.false_or] at hQ
      exact ih hQ

/-- **The temporary of an entry** leads inside once the directories above it are made. -/
theorem inside_made {rel : List Name} (hrel : rel ≠ []) {d d' : Disk Name (Content H)}
    (hroot : d.tree.node root = some .dir) (hclear : Clear root d.tree rel)
    (hgrows : FileTree.Grows d.tree d'.tree) (hmade : Made (root ++ rel).dropLast.inits d d')
    (hinside : Inside root d.tree (Location.path (temporary (root ++ rel)))) :
    Inside root d'.tree (Location.path (temporary (root ++ rel))) := by
  have hplace := temporary_append root hrel
  by_cases hlink : ∃ text, d.tree.node (root ++ temporary rel) = some (.link text)
  · -- there is a link, so the directories above it have been there
    obtain ⟨text, hnode⟩ := hlink
    have hsame : d' = d := hmade.still fun p hp => by
      obtain ⟨q, hq⟩ := (List.mem_inits _ _).mp hp
      have hbelow : p ++ (q ++ [(temporary rel).getLastD []]) = root ++ temporary rel := by
        rw [← List.append_assoc, hq, List.dropLast_append_of_ne_nil hrel, List.append_assoc]
        simp [temporary]
      refine FileTree.dir_above (q := q ++ [(temporary rel).getLastD []]) (by simp) ?_
      rw [hbelow, hnode]
      exact Option.some_ne_none _
    rw [hsame]
    exact hinside
  · -- there is none, and making directories has made none
    rw [hplace]
    intro p hp _
    have hnode : d'.tree.node (root ++ temporary rel) = d.tree.node (root ++ temporary rel) := by
      refine hmade.frame _ fun hmem => ?_
      have hlength := ((List.mem_inits _ _).mp hmem).length_le
      have hpos := List.length_pos_iff.mpr hrel
      simp only [temporary, List.length_append, List.length_dropLast, List.length_cons,
        List.length_nil] at hlength
      omega
    have htemp : Clear root d'.tree (temporary rel) :=
      (hclear.grows hgrows).temporary fun text heq => hlink ⟨text, hnode.symm.trans heq⟩
    rw [htemp.locate (hgrows.dirs root hroot) hp]
    exact List.prefix_append _ _

/-- One entry is extracted below the root, when its temporary does not lead outside. -/
theorem extractOne_ensures {e : Entry} (hrel : e.rel ≠ []) {d : Disk Name (Content H)}
    (h : Within root d) (hsafe : refused root d.tree e = false →
      Inside root d.tree (temporary (root ++ e.rel)).path) :
    (extract py root [e]).Ensures Disk.machine (Touched root) (fun _ => Within root) d := by
  apply Script.Ensures.bind
  apply anySymlink_ensures h.touched
  cases hrefused : refused root d.tree e with
  | true =>
    change Script.Ensures _ _ (if refused root d.tree e = true then _ else _) _ _
    rw [hrefused]
    exact h.touched
  | false =>
    change Script.Ensures _ _ (if refused root d.tree e = true then _ else _) _ _
    rw [hrefused]
    have hclear : Clear root d.tree e.rel := (refused_iff h.dir).mp hrefused
    have hdirs : ∀ p ∈ (root ++ e.rel).dropLast.inits, p <+: root ++ e.rel := fun p hp =>
      ((List.mem_inits _ _).mp hp).trans (List.dropLast_prefix _)
    simp only [Bool.false_eq_true, if_false]
    apply Script.Ensures.bind
    refine (mkdirs_ensures h.dir hclear hdirs h.grown).weaken fun _ d₁ ⟨h₁, hmade⟩ => ?_
    have hinside := inside_made hrel h.dir hclear h₁.grows hmade (hsafe hrefused)
    apply Script.Ensures.bind
    refine (write_ensures h₁ hinside).weaken fun _ d₂ ⟨h₂, hinside₂⟩ => ?_
    apply Script.Ensures.bind
    refine (chmod_ensures h₂ hinside₂).weaken fun _ d₃ h₃ => ?_
    apply Script.Ensures.bind
    exact (replace_ensures h.dir hrel hclear h₃).weaken fun _ _ h₄ => h₄

theorem extract_append (py : Python H) (root : Location Name) (es rest : List Entry) :
    extract py root (es ++ rest) = extract py root es >>= fun _ => extract py root rest := by
  induction es with
  | nil => rfl
  | cons e es ih =>
    rw [List.cons_append, extract, extract, Script.bind_assoc]
    congr 1
    funext refused
    split
    · rfl
    · rw [ih, Script.bind_assoc]
      rfl

theorem GetsPast.append {es first more : List Entry} {d d' : Disk Name (Content H)}
    (h : GetsPast py root t es first d)
    (hmore : (extract py root more).exec Disk.machine none d = .returned () d') :
    GetsPast py root t es (first ++ more) d' := by
  unfold GetsPast at h ⊢
  simp only [extract_append]
  rw [← Script.bind_assoc]
  exact (Script.exec_bind_returned h).trans hmore

/-- **Extraction**: with every temporary inside when the script gets to it, everything lands
    below the root. -/
theorem extract_ensures {es : List Entry} (hes : ∀ e ∈ es, e.rel ≠ [])
    (hsafe : ∀ first e rest, es = first ++ e :: rest → ∀ d, GetsPast py root t es first d →
      refused root d.tree e = false → Inside root d.tree (temporary (root ++ e.rel)).path)
    {first rest : List Entry} (hsplit : es = first ++ rest) {d : Disk Name (Content H)}
    (hpast : GetsPast py root t es first d) (h : Within root d) :
    (extract py root rest).Ensures Disk.machine (Touched root)
      (fun _ d' => Within root d' ∧ GetsPast py root t es es d') d := by
  induction rest generalizing first d with
  | nil =>
    rw [List.append_nil] at hsplit
    subst hsplit
    exact ⟨h, hpast⟩
  | cons e rest ih =>
    have hmem : e ∈ es := hsplit ▸ List.mem_append_right _ List.mem_cons_self
    have hone : (extract py root [e]).Ensures Disk.machine (Touched root) (fun _ => Within root)
        d := extractOne_ensures (hes e hmem) h (hsafe first e rest hsplit d hpast)
    rw [show e :: rest = [e] ++ rest from rfl, extract_append]
    apply Script.Ensures.bind
    refine hone.returned.weaken fun _ d' ⟨h', hexec⟩ => ?_
    exact ih (by rw [hsplit, List.append_assoc]; rfl) (hpast.append hexec) h'

/-! ### The loop over the provenance -/

/-- Below the root files have come and gone; the shape of the tree is that of `t`. -/
structure Kept (root : Location Name) (t : Workspace H) (d : Disk Name (Content H)) : Prop where
  shape : FileTree.SameShape t d.tree
  touched : Touched root d
  outside : ∀ p, ¬ root <+: p → d.tree.node p = t.node p

theorem Kept.grown {d : Disk Name (Content H)} (h : Kept root t d) : Grown root t d :=
  ⟨h.shape.grows, h.touched⟩

theorem Kept.change {d : Disk Name (Content H)} (h : Kept root t d) {p : Location Name}
    {x : Option (Node Name (Content H))} (hp : root <+: p)
    (hold : FileTree.Plain (d.tree.node p)) (hnew : FileTree.Plain x) :
    Kept root t (d.apply [(p, x)]) := by
  refine ⟨h.shape.trans (FileTree.sameShape_put hold hnew),
    (h.grown.change hp hold hnew.2).touched, ?_⟩
  intro q hq
  have hqp : q ≠ p := fun heq => hq (heq ▸ hp)
  rw [Disk.apply_frame (by simpa using hqp)]
  exact h.outside q hq

/-- A stale file that is no link is deleted below the root, or not at all. -/
theorem unlink_ensures {path : Path Name} (hlink : t.isSymlink path = false)
    (hinside : ∀ p content mode, t.locate false path = some p →
      t.node p = some (.file content mode) → root <+: p)
    {d : Disk Name (Content H)} (h : Kept root t d) :
    (os (.unlink path)).Ensures Disk.machine (Touched root) (fun _ => Kept root t) d := by
  apply Disk.ensures_call h.touched
  · exact fun n path content mode hc => by cases hc
  · intro r changes heffect
    obtain ⟨p, hlocate, hsome, hdir, rfl⟩ := FileTree.effect_unlink heffect
    have hnotLink : ∀ text, d.tree.node p ≠ some (.link text) := by
      intro text hnode
      rw [← h.shape.isSymlink] at hlink
      unfold FileTree.isSymlink FileTree.lookup at hlink
      rw [hlocate, Option.bind_some, hnode] at hlink
      exact absurd hlink.symm Bool.false_ne_true
    rw [h.shape.locate] at hlocate
    have hp : root <+: p := by
      by_contra hout
      -- outside everything is as the run found it, and there the file would be inside
      have hnode := h.outside p hout
      cases hfile : t.node p with
      | none => exact hsome (hnode.trans hfile)
      | some node =>
        cases node with
        | file content mode => exact hout (hinside p content mode hlocate hfile)
        | dir => exact hdir (hnode.trans hfile)
        | link text => exact hnotLink text (hnode.trans hfile)
    have hkept := h.change hp ⟨hdir, hnotLink⟩ FileTree.plain_none
    exact ⟨hkept.touched, hkept⟩

/-- **Stale deletion**: with the stale files inside it stays below the root. -/
theorem removeStale_ensures {current : List (List Name)} {items : List (Option PurePosixPath)}
    (hstale : ∀ rel ∈ staleFiles root t current items, ∀ p content mode,
      t.locate false (joined root rel.parts) = some p → t.node p = some (.file content mode) →
        root <+: p)
    {d : Disk Name (Content H)} (h : Kept root t d) :
    (removeStale root current items).Ensures Disk.machine (Touched root) (fun _ => Kept root t)
      d := by
  induction items generalizing d with
  | nil => exact h
  | cons item items ih =>
    cases item with
    | none => exact h.touched
    | some rel =>
      unfold removeStale
      cases hisStale : isStale current rel with
      | false =>
        simp only [Bool.false_eq_true, if_false]
        refine ih (fun rel' hrel' => hstale rel' ?_) h
        unfold staleFiles
        rw [hisStale]
        exact hrel'
      | true =>
        simp only [if_true]
        apply Script.Ensures.bind
        apply Disk.ensures_look rfl (fun path content mode hc => by cases hc) h.touched
        rw [h.shape.isSymlink]
        cases hlink : t.isSymlink (joined root rel.parts) with
        | true => exact h.touched
        | false =>
          simp only [Bool.false_eq_true, if_false]
          have hcons : staleFiles root t current (some rel :: items) =
              rel :: staleFiles root t current items := by
            rw [staleFiles, hisStale, hlink]
            rfl
          rw [hcons] at hstale
          -- what is left to do once this file is gone, or was none
          have hrest : ∀ d', Kept root t d' → (removeStale root current items).Ensures Disk.machine
              (Touched root) (fun _ => Kept root t) d' := fun d' h' =>
            ih (fun rel' hrel' => hstale rel' (List.mem_cons_of_mem _ hrel')) h'
          apply Script.Ensures.bind
          apply Disk.ensures_look rfl (fun path content mode hc => by cases hc) h.touched
          split
          · apply Script.Ensures.bind
            refine (unlink_ensures hlink (hstale rel List.mem_cons_self) h).weaken ?_
            exact fun _ d' h' => hrest d' h'
          · exact hrest d h

/-! ### The whole script -/

/-- The lock makes at most an empty file. -/
theorem lock_ensures (hlock : ∀ p, t.locate true (lockOf root).path = some p → t.node p = none →
    root <+: p) :
    (os (.openAppend (lockOf root).path (.bytes []) py.fileMode)).Ensures Disk.machine
      (Touched root) (fun _ d => Kept root t d ∧ Opens root t ∧
        ∀ p, d.tree.node p = t.node p ∨
          t.node p = none ∧ ∃ mode, d.tree.node p = some (.file (.bytes []) mode)) ⟨t, []⟩ := by
  have hstart : Kept root t ⟨t, []⟩ :=
    ⟨FileTree.SameShape.refl t, by simp [Touched], fun _ _ => rfl⟩
  apply Disk.ensures_call hstart.touched
  · exact fun n path content mode hc => by cases hc
  · intro r changes heffect
    obtain ⟨p, hlocate, ⟨hfree, rfl⟩ | ⟨hfile, rfl⟩⟩ := FileTree.effect_openAppend heffect
    · have hkept := hstart.change (hlock p hlocate hfree)
        (by show FileTree.Plain (t.node p); rw [hfree]; exact FileTree.plain_none)
        (FileTree.plain_file (Content.bytes []) py.fileMode)
      have hmade : (Disk.apply ⟨t, []⟩
          [(p, some (.file (.bytes []) py.fileMode))]).tree.node p =
          some (.file (Content.bytes []) py.fileMode) :=
        FileTree.put_node (FileTree.locate_free hlocate (by rw [hfree]; simp)) _
      refine ⟨hkept.touched, hkept, ⟨p, hlocate, .inl hfree⟩, fun q => ?_⟩
      by_cases hq : q = p
      · subst hq
        exact .inr ⟨hfree, py.fileMode, hmade⟩
      · exact .inl (Disk.apply_frame (by simpa using hq))
    · exact ⟨hstart.touched, hstart, ⟨p, hlocate, .inr hfile⟩, fun q => .inl rfl⟩

/-- **Before the entries** the script stays below the root, when the lock and the stale files do
    not lead outside. -/
theorem prepare_ensures {current : List (List Name)}
    (hlock : ∀ p, t.locate true (lockOf root).path = some p → t.node p = none → root <+: p)
    (hstale : Opens root t → ∀ items, recorded py root t = some items →
      ∀ rel ∈ staleFiles root t current items, ∀ p content mode,
        t.locate false (joined root rel.parts) = some p → t.node p = some (.file content mode) →
          root <+: p) :
    (prepare py root current).Ensures Disk.machine (Touched root) (fun _ => Kept root t)
      ⟨t, []⟩ := by
  apply Script.Ensures.bind
  refine (lock_ensures hlock).weaken fun _ d ⟨hkept, hopens, hcreated⟩ => ?_
  apply Script.Ensures.bind
  apply Disk.ensures_look rfl (fun path content mode hc => by cases hc) hkept.touched
  apply Script.Ensures.bind
  apply Disk.ensures_look rfl (fun path content mode hc => by cases hc) hkept.touched
  have hlookup : d.tree.lookup true (provenanceOf root).path =
        t.lookup true (provenanceOf root).path ∨
      t.lookup true (provenanceOf root).path = none ∧
        ∃ mode, d.tree.lookup true (provenanceOf root).path = some (.file (.bytes []) mode) := by
    unfold FileTree.lookup
    rw [hkept.shape.locate]
    cases t.locate true (provenanceOf root).path with
    | none => exact .inl rfl
    | some p => exact hcreated p
  cases hprovenance : d.tree.lookup true (provenanceOf root).path with
  | none => exact hkept
  | some node =>
    simp only [Option.isSome_some]
    apply Script.Ensures.bind
    cases node with
    | dir | link =>
      apply Disk.ensures_fail _ (fun path content mode hc => by cases hc) hkept.touched
      simp only [FileTree.effect, hprovenance]
    | file content mode =>
      have hread : d.tree.effect (.readText (provenanceOf root).path) = some (content, []) := by
        simp only [FileTree.effect, hprovenance]
        rfl
      apply Disk.ensures_look hread (fun path content mode hc => by cases hc) hkept.touched
      cases hfiles : py.filesOf content with
      | none => exact hkept.touched
      | some items =>
        simp only
        -- an empty file that the lock made is refused
        have hsame : t.lookup true (provenanceOf root).path = some (.file content mode) := by
          rcases hlookup with heq | ⟨_, mode', hempty⟩
          · exact heq.symm.trans hprovenance
          · obtain ⟨rfl, rfl⟩ : content = .bytes [] ∧ mode = mode' := by
              simpa using hprovenance.symm.trans hempty
            exact absurd hfiles (by simp [Python.filesOf])
        have hrecorded : recorded py root t = some items := by
          unfold recorded
          rw [hsame]
          exact hfiles
        exact removeStale_ensures (hstale hopens items hrecorded) hkept

theorem bootstrap_error {members : List Member} {message : String}
    (h : entriesOf members = .error message) :
    bootstrap py root members = (do
      os (.openAppend (lockOf root).path (.bytes []) py.fileMode)
      os (.lock (lockOf root).path)
      .stop message) := by
  unfold bootstrap
  rw [h]

/-- The parts of the script. -/
theorem bootstrap_ok {members : List Member} {es : List Entry} (h : entriesOf members = .ok es) :
    bootstrap py root members = prepare py root (es.map (·.rel)) >>= fun _ =>
      extract py root es >>= fun _ =>
        os (.write (provenanceOf root).path (.listing (listingOf py es)) py.fileMode) := by
  unfold bootstrap prepare
  rw [h]
  refine congrArg (Script.call _) (funext fun _ => congrArg (Script.call _) (funext fun _ =>
    congrArg (Script.call _) (funext fun found => ?_)))
  cases found with
  | false => rfl
  | true =>
    refine congrArg (Script.call _) (funext fun previous => ?_)
    simp only [Script.bind]
    cases py.filesOf previous with
    | none => rfl
    | some items => rfl

theorem bootstrap_ensures {members : List Member} (hroot : t.node root = some .dir)
    (h : SafePlaces py root members t) :
    (bootstrap py root members).Ensures Disk.machine (Touched root) (fun _ => Touched root)
      ⟨t, []⟩ := by
  cases hentries : entriesOf members with
  | error message =>
    rw [bootstrap_error hentries]
    apply Script.Ensures.bind
    refine (lock_ensures h.lock).weaken fun _ d ⟨hkept, _⟩ => ?_
    apply Script.Ensures.bind
    apply Disk.ensures_look rfl (fun path content mode hc => by cases hc) hkept.touched
    exact hkept.touched
  | ok es =>
    rw [bootstrap_ok hentries]
    apply Script.Ensures.bind
    refine (prepare_ensures h.lock fun hopens => h.stale hopens es hentries).returned.weaken
      fun _ d ⟨hkept, hexec⟩ => ?_
    have hpast : GetsPast py root t es [] d := by
      unfold GetsPast
      rw [Script.exec_bind, hexec]
      rfl
    have hwithin : Within root d := ⟨hkept.shape.grows.dirs root hroot, hkept.touched⟩
    apply Script.Ensures.bind
    refine (extract_ensures (fun e he => entriesOf_rel hentries he) (h.temporary es hentries)
      (List.nil_append es).symm hpast hwithin).weaken fun _ d' ⟨hwithin', hpast'⟩ => ?_
    exact (write_ensures hwithin'.grown (h.provenance es hentries d' hpast')).weaken
      fun _ _ hdone => hdone.1.touched

end Proof

section Needed

variable {py : Python H} {root : Location Name} {t : Workspace H}

/-- A file of the start that nothing has touched is still there. -/
theorem isFile_untouched {path : Path Name} {p : Location Name} {content : Content H} {mode : Nat}
    (hlocate : t.locate false path = some p) (hnode : t.node p = some (.file content mode))
    {d : Disk Name (Content H)} (hshape : FileTree.SameShape t d.tree)
    (hframed : Disk.Framed t d) (hlink : d.tree.isSymlink path = false)
    (htouched : p ∉ d.touched) : d.tree.isFile path = true := by
  unfold FileTree.isFile FileTree.lookup
  rw [← FileTree.locate_of_not_symlink hlink, hshape.locate, hlocate, Option.bind_some,
    hframed p htouched, hnode]

/-- What the script finds out about a path it has looked at. -/
theorem exec_isSymlink (path : Path Name) (d : Disk Name (Content H)) :
    (isSymlink path : SyncM H Bool).exec Disk.machine none d =
      .returned (d.tree.isSymlink path) d :=
  Script.exec_perform rfl

theorem exec_isFile (path : Path Name) (d : Disk Name (Content H)) :
    (isFile path : SyncM H Bool).exec Disk.machine none d = .returned (d.tree.isFile path) d :=
  Script.exec_perform rfl

/-- A stale file that the script gets to is touched. -/
theorem removeStale_touches {current : List (List Name)} {items : List (Option PurePosixPath)}
    {rel : PurePosixPath} (hrel : rel ∈ staleFiles root t current items) {p : Location Name}
    {content : Content H} {mode : Nat} (hlocate : t.locate false (joined root rel.parts) = some p)
    (hnode : t.node p = some (.file content mode)) {d : Disk Name (Content H)}
    (hshape : FileTree.SameShape t d.tree) (hframed : Disk.Framed t d) :
    p ∈ ((removeStale root current items).exec Disk.machine none d).world.touched := by
  induction items generalizing d with
  | nil => exact absurd hrel (by simp [staleFiles])
  | cons item items ih =>
    cases item with
    | none => exact absurd hrel (by simp [staleFiles])
    | some first =>
      unfold removeStale
      unfold staleFiles at hrel
      cases hstale : isStale current first with
      | false =>
        rw [hstale] at hrel
        simp only [Bool.false_eq_true, if_false] at hrel ⊢
        exact ih hrel hshape hframed
      | true =>
        rw [hstale] at hrel
        simp only [if_true] at hrel ⊢
        cases hlink : t.isSymlink (joined root first.parts) with
        | true =>
          rw [hlink] at hrel
          exact absurd hrel (by simp)
        | false =>
          rw [hlink] at hrel
          simp only [Bool.false_eq_true, if_false, List.mem_cons] at hrel
          have hlink' := (hshape.isSymlink (joined root first.parts)).trans hlink
          have hsame := FileTree.locate_of_not_symlink hlink'
          have hlooked := exec_isSymlink (joined root first.parts) d
          rw [hlink'] at hlooked
          refine Disk.touched_bind hlooked ?_
          simp only [Bool.false_eq_true, if_false]
          refine Disk.touched_bind (exec_isFile (joined root first.parts) d) ?_
          -- what is left to do when the first file is gone, or was none
          have hrest : ∀ d', FileTree.SameShape t d'.tree → Disk.Framed t d' →
              (rel = first → p ∈ d'.touched) →
              p ∈ ((removeStale root current items).exec Disk.machine none d').world.touched := by
            intro d' hshape' hframed' hfirst
            rcases hrel with heq | hrel
            · exact Disk.exec_touched _ none (hfirst heq)
            · exact ih hrel hshape' hframed'
          cases hisFile : d.tree.isFile (joined root first.parts) with
          | true =>
            obtain ⟨q, content', mode', hq, hnode'⟩ := FileTree.isFile_eq_true hisFile
            have hunlink := Disk.perform_unlink (hsame.trans hq) hnode'
            have hunlinked : (os (.unlink (joined root first.parts)) : SyncM H Unit).exec
                Disk.machine none d = .returned () (d.apply [(q, none)]) :=
              Script.exec_perform hunlink
            simp only [if_true]
            refine Disk.touched_bind hunlinked ?_
            have hold : FileTree.Plain (d.tree.node q) := by
              rw [hnode']
              exact FileTree.plain_file content' mode'
            refine hrest _ (hshape.trans (FileTree.sameShape_put hold FileTree.plain_none))
              (Disk.framed_perform hframed hunlink) ?_
            rintro rfl
            have hp : q = p := by
              have hfound := hsame.trans hq
              rw [hshape.locate] at hfound
              exact Option.some.inj (hfound.symm.trans hlocate)
            rw [hp, Disk.apply_touched]
            simp
          | false =>
            simp only [Bool.false_eq_true, if_false]
            refine hrest d hshape hframed ?_
            rintro rfl
            -- it was there at the start, so it was touched
            by_contra htouched
            have hfound := isFile_untouched hlocate hnode hshape hframed hlink' htouched
            exact absurd (hisFile.symm.trans hfound) Bool.false_ne_true

/-- What opening the lock leaves. -/
theorem lock_opened (py : Python H) {p : Location Name}
    (hlocate : t.locate true (lockOf root).path = some p)
    (hnode : t.node p = none ∨ (t.fileAt p).isSome = true) :
    ∃ d : Disk Name (Content H),
      (os (.openAppend (lockOf root).path (.bytes []) py.fileMode) : SyncM H Unit).exec
        Disk.machine none ⟨t, []⟩ = .returned () d ∧
      FileTree.SameShape t d.tree ∧ Disk.Framed t d ∧ (t.node p = none → p ∈ d.touched) ∧
      ∀ q, t.node q ≠ none → d.tree.node q = t.node q := by
  have hperform := Disk.perform_openAppend (d := ⟨t, []⟩) (.bytes []) py.fileMode hlocate
    hnode
  refine ⟨_, Script.exec_perform hperform, ?_, ?_, ?_, ?_⟩
  · split
    · rename_i hfree
      apply FileTree.sameShape_put _ (FileTree.plain_file _ _)
      show FileTree.Plain (t.node p)
      rw [show t.node p = none from hfree]
      exact FileTree.plain_none
    · exact FileTree.SameShape.refl t
  · exact Disk.framed_perform (fun q _ => rfl) hperform
  · intro hfree
    rw [if_pos (show (Disk.mk t []).tree.node p = none from hfree), Disk.apply_touched]
    simp
  · intro q hq
    split
    · rename_i hfree
      refine FileTree.put_node_of_ne (fun heq => hq ?_) _
      rw [heq]
      exact hfree
    · rfl

/-- A confined run meets the condition on the lock. -/
theorem confined_lock {members : List Member}
    (h : Confined root t (sync py root members none t)) (p : Location Name)
    (hlocate : t.locate true (lockOf root).path = some p) (hfree : t.node p = none) :
    root <+: p := by
  obtain ⟨d, hopened, _, _, htouched, _⟩ := lock_opened py hlocate (.inl hfree)
  apply h.1 p
  unfold sync bootstrap
  refine Disk.touched_bind hopened ?_
  exact Disk.exec_touched _ none (htouched hfree)

/-- A confined run meets the condition on the stale files. -/
theorem confined_stale {members : List Member}
    (h : Confined root t (sync py root members none t)) (hopens : Opens root t) {es : List Entry}
    (hes : entriesOf members = .ok es) {items : List (Option PurePosixPath)}
    (hitems : recorded py root t = some items) {rel : PurePosixPath}
    (hrel : rel ∈ staleFiles root t (es.map (·.rel)) items) {p : Location Name}
    {content : Content H} {mode : Nat} (hlocate : t.locate false (joined root rel.parts) = some p)
    (hnode : t.node p = some (.file content mode)) : root <+: p := by
  obtain ⟨q, hq, hqnode⟩ := hopens
  obtain ⟨d, hopened, hshape, hframed, _, hkept⟩ := lock_opened py hq hqnode
  have htouched := removeStale_touches hrel hlocate hnode hshape hframed
  apply h.1 p
  unfold recorded at hitems
  split at hitems
  · rename_i previous mode' hlookup
    have hlookup' : d.tree.lookup true (provenanceOf root).path =
        some (.file previous mode') := by
      obtain ⟨r, hr, hrnode⟩ := Option.bind_eq_some_iff.mp hlookup
      unfold FileTree.lookup
      rw [hshape.locate, hr, Option.bind_some, hkept r (by rw [hrnode]; simp)]
      exact hrnode
    have hlock : (os (.lock (lockOf root).path) : SyncM H Unit).exec Disk.machine none d =
        .returned () d := Script.exec_perform rfl
    have hexists : (pathExists (provenanceOf root).path : SyncM H Bool).exec Disk.machine
        none d = .returned true d := by
      apply Script.exec_perform
      show some ((d.tree.lookup true _).isSome, _) = _
      rw [hlookup']
      rfl
    have hread : (os (.readText (provenanceOf root).path) : SyncM H (Content H)).exec
        Disk.machine none d = .returned previous d := by
      apply Script.exec_perform
      unfold Disk.machine Disk.perform
      simp only [FileTree.effect, hlookup']
      rfl
    -- the run opens the lock, takes it, and reads the provenance; then it deletes the stale files
    unfold sync bootstrap
    refine Disk.touched_bind hopened (Disk.touched_bind hlock ?_)
    rw [hes]
    refine Disk.touched_bind hexists ?_
    simp only
    refine Disk.touched_bind hread ?_
    rw [hitems]
    exact Disk.touched_bind_left htouched
  · exact absurd hitems (by simp)

/-- A file that can be written is touched. -/
theorem write_touches {path : Path Name} {p : Location Name} {d : Disk Name (Content H)}
    (hlocate : d.tree.locate true path = some p) (hdir : d.tree.node p ≠ some .dir)
    (content : Content H) (mode : Nat) :
    p ∈ ((os (.write path content mode) : SyncM H Unit).exec Disk.machine none d).world.touched := by
  obtain ⟨m, hperform⟩ := Disk.perform_write content mode hlocate hdir
  rw [show (os (.write path content mode) : SyncM H Unit).exec Disk.machine none d =
    .returned () _ from Script.exec_perform hperform]
  show p ∈ (d.apply [(p, some (.file content m))]).touched
  rw [Disk.apply_touched]
  simp

theorem exec_anySymlink (ps : List (Location Name)) (d : Disk Name (Content H)) :
    (anySymlink ps : SyncM H Bool).exec Disk.machine none d =
      .returned (ps.any fun p => d.tree.isSymlink p.path) d := by
  induction ps with
  | nil => rfl
  | cons p ps ih =>
    unfold anySymlink
    rw [Script.exec_bind, exec_isSymlink, List.any_cons]
    cases d.tree.isSymlink p.path with
    | true => rfl
    | false => exact ih

/-- Directories that are there are not made again. -/
theorem exec_mkdirs {ps : List (Location Name)} {d : Disk Name (Content H)}
    (h : ∀ p ∈ ps, d.tree.node p = some .dir) :
    (mkdirs ps : SyncM H Unit).exec Disk.machine none d = .returned () d := by
  induction ps with
  | nil => rfl
  | cons p ps ih =>
    have hmade : (os (.mkdir p.path) : SyncM H Unit).exec Disk.machine none d =
        .returned () d := Script.exec_perform (Disk.perform_mkdir (h p List.mem_cons_self))
    unfold mkdirs
    refine (Script.exec_bind_returned hmade).trans ?_
    exact ih fun q hq => h q (List.mem_cons_of_mem _ hq)

/-- Where a temporary leads, the directories above its entry are there. -/
theorem dir_above_temporary {rel : List Name} (hrel : rel ≠ []) {s : Workspace H}
    (hroot : s.node root = some .dir) (hclear : Clear root s rel) {p : Location Name}
    (hlocate : s.locate true (Location.path (temporary (root ++ rel))) = some p) :
    s.node (root ++ rel).dropLast = some .dir := by
  rw [temporary_append root hrel] at hlocate
  have hplace : (root ++ temporary rel).dropLast = (root ++ rel).dropLast := by
    unfold temporary
    rw [← List.append_assoc, List.dropLast_concat, List.dropLast_append_of_ne_nil hrel]
  rw [← hplace]
  by_cases hlink : ∃ text, s.node (root ++ temporary rel) = some (.link text)
  · obtain ⟨text, hnode⟩ := hlink
    refine FileTree.dir_above (q := [(temporary rel).getLastD []]) (by simp) ?_
    rw [show (root ++ temporary rel).dropLast ++ [(temporary rel).getLastD []] =
      root ++ temporary rel from ?_, hnode]
    · exact Option.some_ne_none _
    · rw [hplace, List.dropLast_append_of_ne_nil hrel]
      simp [temporary]
  · have htemp := hclear.temporary fun text heq => hlink ⟨text, heq⟩
    obtain rfl := htemp.locate hroot hlocate
    exact FileTree.locate_parent hlocate

/-- The temporary of an entry that is not refused is touched where it leads. -/
theorem extract_touches {e : Entry} (hrel : e.rel ≠ []) {rest : List Entry}
    {d : Disk Name (Content H)} (hroot : d.tree.node root = some .dir)
    (hrefused : refused root d.tree e = false) {p : Location Name}
    (hlocate : d.tree.locate true (temporary (root ++ e.rel)).path = some p)
    (hdir : d.tree.node p ≠ some .dir) :
    p ∈ ((extract py root (e :: rest)).exec Disk.machine none d).world.touched := by
  have hparent := dir_above_temporary hrel hroot ((refused_iff hroot).mp hrefused) hlocate
  have hdirs : ∀ q ∈ (root ++ e.rel).dropLast.inits, d.tree.node q = some .dir := by
    intro q hq
    obtain ⟨r, hr⟩ := (List.mem_inits _ _).mp hq
    by_cases hnil : r = []
    · rw [hnil, List.append_nil] at hr
      rw [hr]
      exact hparent
    · exact FileTree.dir_above hnil (by rw [hr, hparent]; exact Option.some_ne_none _)
  refine Disk.touched_bind (exec_anySymlink _ d) ?_
  change p ∈ (Script.exec Disk.machine (if refused root d.tree e = true then _ else _) none
    d).world.touched
  rw [hrefused]
  simp only [Bool.false_eq_true, if_false]
  refine Disk.touched_bind (exec_mkdirs hdirs) ?_
  exact Disk.touched_bind_left (write_touches hlocate hdir _ _)

/-- No call removes a directory. -/
theorem exec_dir {α : Type} (x : SyncM H α) {d : Disk Name (Content H)} {p : Location Name}
    (h : d.tree.node p = some .dir) :
    (x.exec Disk.machine none d).world.tree.node p = some .dir := by
  have hcall : ∀ (c : FileCall Name (Content H)) (d : Disk Name (Content H)),
      d.tree.node p = some .dir → ∀ r d', d.perform c = some (r, d') →
        d'.tree.node p = some .dir := fun c d hd r d' hperform => Disk.perform_dir hd hperform
  have hensures : x.Ensures Disk.machine (fun d => d.tree.node p = some .dir)
      (fun _ d => d.tree.node p = some .dir) d := by
    apply Script.Ensures.invariant
    · exact fun c d hd => ⟨fun k => Disk.cutOff_keeps hcall c k hd, hcall c d hd⟩
    · exact h
  exact hensures.world none

theorem GetsPast.dir {es first : List Entry} {d : Disk Name (Content H)}
    (h : GetsPast py root t es first d) (hroot : t.node root = some .dir) :
    d.tree.node root = some .dir := by
  have hdir := exec_dir (d := ⟨t, []⟩) (prepare py root (es.map (·.rel)) >>= fun _ =>
    extract py root first) hroot
  rw [h] at hdir
  exact hdir

end Needed

/-- **Confinement**: every run of the script stays below the root, at whatever call it is cut off,
    exactly when none of the places that it uses without a check leads out. -/
theorem sync_confined (py : Python H) (root : Location Name) (members : List Member)
    (t : Workspace H) (hroot : t.node root = some .dir) :
    (∀ fault, Confined root t (sync py root members fault t)) ↔ SafePlaces py root members t := by
  constructor
  · intro h
    -- a run without a fault uses them all
    have hrun := (h none).1
    refine ⟨confined_lock (h none), fun hopens es hes items hitems rel hrel p content mode =>
      confined_stale (h none) hopens hes hitems hrel, ?_, ?_⟩
    · -- the run goes on from the entry that the script has got to
      intro es hes first e rest hsplit d hpast hrefused p hlocate hdir
      apply hrun p
      have hmem : e ∈ es := hsplit ▸ List.mem_append_right _ List.mem_cons_self
      have hrootd : d.tree.node root = some .dir := hpast.dir hroot
      unfold sync
      rw [bootstrap_ok hes, hsplit, extract_append, Script.bind_assoc, ← Script.bind_assoc]
      rw [hsplit] at hpast
      refine Disk.touched_bind hpast (Disk.touched_bind_left ?_)
      exact extract_touches (entriesOf_rel hes hmem) hrootd hrefused hlocate hdir
    · intro es hes d hpast p hlocate hdir
      apply hrun p
      unfold sync
      rw [bootstrap_ok hes, ← Script.bind_assoc]
      exact Disk.touched_bind hpast (write_touches hlocate hdir _ _)
  · intro h fault
    have htouched : Touched root (sync py root members fault t).world :=
      (bootstrap_ensures hroot h).world fault
    refine ⟨htouched, fun p hp => ?_⟩
    exact Disk.framed_exec (bootstrap py root members) fault t p fun hmem => hp (htouched p hmem)

/-! ## Runs -/

/-- Python without its library's values. -/
def plainPython : Python Nat := ⟨fun _ => 0, fun _ => 0, fun _ => none, 0o644⟩

/-- The root of a workspace, and a tree that has nothing else. -/
def sampleRoot : Location Name := ["w".toList]

def sampleTree : Workspace Nat := FileTree.bare.put sampleRoot (some .dir)

/-- An archive of `lab.sh` alone. -/
def sampleMembers : List Member := [⟨"lab.sh".toList, true, 0o755, [7]⟩]

/-- A workspace with links that do not lead out: `experiments` was replaced by a link to
    `framework`, after a synchronisation that brought `experiments/y.c`, and the temporary of
    `lab.sh` is a link to `notes`. -/
def insideTree : Workspace Nat :=
  let framework := "framework".toList
  let experiments := "experiments".toList
  let entries : List Entry := [⟨labSh, 0o755, [7]⟩, ⟨[experiments, "y.c".toList], 0o644, [1]⟩]
  let t := ((sampleTree.put (sampleRoot ++ [framework]) (some .dir)).put
    (sampleRoot ++ [framework, "y.c".toList]) (some (.file (.bytes [1]) 0o644))).put
      (sampleRoot ++ [experiments]) (some (.link ⟨false, [.down framework]⟩))
  (t.put (temporary (sampleRoot ++ labSh)) (some (.link ⟨false, [.down "notes".toList]⟩))).put
    (provenanceOf sampleRoot) (some (.file (.listing (listingOf plainPython entries)) 0o644))

theorem entriesOf_sample : entriesOf sampleMembers = .ok [⟨labSh, 0o755, [7]⟩] := rfl

/-- What a run on `insideTree` has when it gets past the first ones of its entries. -/
def sampleRun (first : List Entry) : Disk Name (Content Nat) :=
  ((prepare plainPython sampleRoot [labSh] >>= fun _ =>
    extract plainPython sampleRoot first).exec Disk.machine none ⟨insideTree, []⟩).world

theorem sampleRun_eq {first : List Entry} {d : Disk Name (Content Nat)}
    (h : GetsPast plainPython sampleRoot insideTree [⟨labSh, 0o755, [7]⟩] first d) :
    d = sampleRun first :=
  (congrArg Script.Outcome.world h).symm

/-- `sync_confined` where a stale file and a temporary are found through links. -/
theorem sync_confined_sample :
    insideTree.isSymlink (temporary (sampleRoot ++ labSh)).path = true ∧
      ∀ fault, Confined sampleRoot insideTree
        (sync plainPython sampleRoot sampleMembers fault insideTree) := by
  refine ⟨by decide, (sync_confined plainPython sampleRoot sampleMembers insideTree
    (by decide)).mpr ⟨?_, ?_, ?_, ?_⟩⟩
  · intro p hp _
    obtain rfl : lockOf sampleRoot = p := Option.some.inj ((by decide : _ = _).symm.trans hp)
    exact List.prefix_append _ _
  · intro _ es hes items hitems rel hrel p content mode hp _
    obtain rfl := Except.ok.inj (entriesOf_sample.symm.trans hes)
    obtain rfl : [some ⟨false, labSh⟩, some ⟨false, ["experiments".toList, "y.c".toList]⟩] = items :=
      Option.some.inj ((by rfl : _ = _).symm.trans hitems)
    have hstale : staleFiles sampleRoot insideTree [labSh]
        [some ⟨false, labSh⟩, some ⟨false, ["experiments".toList, "y.c".toList]⟩] =
        [⟨false, ["experiments".toList, "y.c".toList]⟩] := by decide
    obtain rfl := List.mem_singleton.mp (hstale ▸ hrel)
    have hlocate : insideTree.locate false (joined sampleRoot
        ["experiments".toList, "y.c".toList]) =
        some (sampleRoot ++ ["framework".toList, "y.c".toList]) := by decide
    obtain rfl := Option.some.inj (hlocate.symm.trans hp)
    exact List.prefix_append _ _
  · intro es hes first e rest hsplit d hpast _ p hp _
    obtain rfl := Except.ok.inj (entriesOf_sample.symm.trans hes)
    obtain ⟨rfl, rfl, rfl⟩ : first = [] ∧ e = ⟨labSh, 0o755, [7]⟩ ∧ rest = [] := by
      cases first with
      | nil =>
        obtain ⟨rfl, rfl⟩ := List.cons.inj hsplit
        exact ⟨rfl, rfl, rfl⟩
      | cons _ _ => exact absurd (congrArg List.length hsplit) (by simp)
    have hlocate : (sampleRun []).tree.locate true (temporary (sampleRoot ++ labSh)).path =
        some (sampleRoot ++ ["notes".toList]) := by decide
    obtain rfl := Option.some.inj (hlocate.symm.trans (sampleRun_eq hpast ▸ hp))
    exact List.prefix_append _ _
  · intro es hes d hpast p hp _
    obtain rfl := Except.ok.inj (entriesOf_sample.symm.trans hes)
    have hlocate : (sampleRun [⟨labSh, 0o755, [7]⟩]).tree.locate true
        (provenanceOf sampleRoot).path = some (provenanceOf sampleRoot) := by decide
    obtain rfl := Option.some.inj (hlocate.symm.trans (sampleRun_eq hpast ▸ hp))
    exact List.prefix_append _ _

/-- A workspace whose `framework` was replaced by a link to a directory outside, after a
    synchronisation that brought `framework/x.c`. -/
def linkedTree : Workspace Nat :=
  let framework := "framework".toList
  let entries : List Entry := [⟨labSh, 0o755, [7]⟩, ⟨[framework, "x.c".toList], 0o644, [1]⟩]
  let t := ((sampleTree.put ["o".toList] (some .dir)).put ["o".toList, "x.c".toList]
    (some (.file (.bytes [2]) 0o644))).put (sampleRoot ++ [framework])
      (some (.link ⟨true, [.down "o".toList]⟩))
  t.put (provenanceOf sampleRoot) (some (.file (.listing (listingOf plainPython entries)) 0o644))

/-- The file outside is deleted as a stale one. -/
theorem linked_directory_not_confined :
    linkedTree.node sampleRoot = some .dir ∧
      ¬ Confined sampleRoot linkedTree
        (sync plainPython sampleRoot sampleMembers none linkedTree) := by
  refine ⟨by decide, fun h => ?_⟩
  have hmem : ["o".toList, "x.c".toList] ∈
      (sync plainPython sampleRoot sampleMembers none linkedTree).world.touched := by decide
  exact absurd (h.1 _ hmem) (by decide)

end LinuxMaxxing.Environment
