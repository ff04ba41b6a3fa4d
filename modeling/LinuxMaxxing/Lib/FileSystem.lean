import LinuxMaxxing.Lib.Script

/-!
# File Trees with Symbolic Links

A tree of regular files, directories and symbolic links, and the POSIX calls on it.

- a *path* is what a program passes to a call, a *location* is the list of names from the
  top to an entry; `locate` follows a path to a location, through links and `..`;
- `FileTree` carries that whatever has an entry below it is a directory;
- each call fails or changes the tree at locations named by `touches`, and nowhere else
  (`perform_frame`);
- where a path leads depends on directories and links alone (`Grows.locate`), and a path
  that names an entry by its location leads there (`locate_location`).
-/

namespace LinuxMaxxing.Lib

/-! ## Trees -/

/-- A component of a path. -/
inductive Comp (N : Type) where
  | up
  | down (n : N)
  deriving DecidableEq, Repr

/-- The text of a symbolic link. -/
structure LinkText (N : Type) where
  absolute : Bool
  parts : List (Comp N)
  deriving DecidableEq, Repr

/-- What is at a location. -/
inductive Node (N D : Type) where
  | file (content : D) (mode : Nat)
  | dir
  | link (text : LinkText N)
  deriving DecidableEq, Repr

instance {N D : Type} (x : Option (Node N D)) : Decidable (x = some .dir) :=
  match x with
  | some .dir => isTrue rfl
  | some (.file _ _) => isFalse (by simp)
  | some (.link _) => isFalse (by simp)
  | none => isFalse (by simp)

/-- The names from the top of the tree to an entry. -/
abbrev Location (N : Type) := List N

/-- A tree: only directories have entries. -/
structure FileTree (N D : Type) where
  node : Location N → Option (Node N D)
  top : node [] = some .dir
  closed : ∀ p n, node (p ++ [n]) ≠ none → node p = some .dir

variable {N D : Type}

/-- A tree with nothing in it. -/
def FileTree.bare : FileTree N D where
  node p := if p.isEmpty then some .dir else none
  top := rfl
  closed p n h := absurd (by simp) h

/-! ## Where a path leads -/

/-- A path, seen from the top. -/
abbrev Path (N : Type) := List (Comp N)

/-- The components of a location. -/
def Location.path (p : Location N) : Path N := p.map .down

/-- The walk along a path. `follow` goes on behind a link; a link at the very end is
    followed only with `last`. -/
def walk (node : Location N → Option (Node N D)) (follow : Location N → Path N → Option (Location N))
    (last : Bool) : Location N → Path N → Option (Location N)
  | here, [] => some here
  | here, .up :: rest => walk node follow last here.dropLast rest
  | here, .down n :: rest =>
    match node (here ++ [n]) with
    | some (.link text) =>
      if rest.isEmpty && !last then some (here ++ [n])
      else follow (if text.absolute then [] else here) (text.parts ++ rest)
    | some .dir => walk node follow last (here ++ [n]) rest
    | some (.file _ _) | none => if rest.isEmpty then some (here ++ [n]) else none

/-- The walk that follows at most `links` links. -/
def walkWithin (node : Location N → Option (Node N D)) (last : Bool) :
    Nat → Location N → Path N → Option (Location N)
  | 0 => walk node (fun _ _ => none) last
  | links + 1 => walk node (walkWithin node last links) last

/-- How many links the kernel follows. -/
def maxLinks : Nat := 40

/-- Where a path leads; `none` when something on the way is missing or no directory, or when
    there are too many links. The last name may be free. -/
def FileTree.locate (t : FileTree N D) (last : Bool) (path : Path N) : Option (Location N) :=
  walkWithin t.node last maxLinks [] path

/-! ## Changing an entry -/

section Change

variable [DecidableEq N]

/-- There may be an entry here: a name in a directory, and no directory itself. -/
def FileTree.Free (t : FileTree N D) (p : Location N) : Prop :=
  p ≠ [] ∧ t.node p.dropLast = some .dir ∧ t.node p ≠ some .dir

theorem closed_update {t : FileTree N D} {p : Location N} (h : t.Free p)
    (x : Option (Node N D)) (q : Location N) (n : N)
    (hq : Function.update t.node p x (q ++ [n]) ≠ none) :
    Function.update t.node p x q = some .dir := by
  obtain ⟨hne, hparent, hdir⟩ := h
  by_cases hchild : q ++ [n] = p
  · -- the entry itself: its directory is another location
    have hdrop : p.dropLast = q := by rw [← hchild, List.dropLast_concat]
    have hqp : q ≠ p := by
      rw [← hchild]
      exact fun heq => by simpa using congrArg List.length heq
    rw [Function.update_of_ne hqp, ← hdrop]
    exact hparent
  · rw [Function.update_of_ne hchild] at hq
    have hqdir := t.closed q n hq
    have hqp : q ≠ p := fun heq => hdir (heq ▸ hqdir)
    rw [Function.update_of_ne hqp]
    exact hqdir

instance (t : FileTree N D) (p : Location N) : Decidable (t.Free p) :=
  inferInstanceAs (Decidable (p ≠ [] ∧ t.node p.dropLast = some .dir ∧ t.node p ≠ some .dir))

/-- Put something at a free location, or clear it. -/
def FileTree.put (t : FileTree N D) (p : Location N) (x : Option (Node N D)) : FileTree N D :=
  if h : t.Free p then
    { node := Function.update t.node p x
      top := by rw [Function.update_of_ne (Ne.symm h.1)]; exact t.top
      closed := closed_update h x }
  else t

end Change

/-! ## Calls -/

/-- The calls. A file that is created gets `mode`. -/
inductive FileCall (N D : Type) where
  | isSymlink (path : Path N)
  | exists (path : Path N)
  | isFile (path : Path N)
  | readText (path : Path N)
  | openAppend (path : Path N) (empty : D) (mode : Nat)
  | lock (path : Path N)
  | write (path : Path N) (content : D) (mode : Nat)
  | chmod (path : Path N) (mode : Nat)
  | mkdir (path : Path N)
  | unlink (path : Path N)
  | replace (source target : Path N)

/-- What a call returns. -/
def FileCall.Reply : FileCall N D → Type
  | .isSymlink _ => Bool
  | .exists _ => Bool
  | .isFile _ => Bool
  | .readText _ => D
  | _ => Unit

/-- What a call puts where. -/
abbrev Changes (N D : Type) := List (Location N × Option (Node N D))

namespace FileTree

/-- The node at the end of a path. -/
def lookup (t : FileTree N D) (last : Bool) (path : Path N) : Option (Node N D) :=
  (t.locate last path).bind t.node

/-- `lstat`: is there a symbolic link at the end of the path? -/
def isSymlink (t : FileTree N D) (path : Path N) : Bool :=
  match t.lookup false path with
  | some (.link _) => true
  | _ => false

/-- `stat`: is there a regular file at the end of the path? -/
def isFile (t : FileTree N D) (path : Path N) : Bool :=
  match t.lookup true path with
  | some (.file _ _) => true
  | _ => false

/-- The file that a node is. -/
def fileOf : Option (Node N D) → Option (D × Nat)
  | some (.file content mode) => some (content, mode)
  | _ => none

/-- The file at a location. -/
def fileAt (t : FileTree N D) (p : Location N) : Option (D × Nat) := fileOf (t.node p)

variable [DecidableEq N]

/-- The reply of a call and what it changes; `none` is an `OSError`. -/
def effect (t : FileTree N D) : (c : FileCall N D) → Option (c.Reply × Changes N D)
  | .isSymlink path => some (t.isSymlink path, [])
  | .exists path => some ((t.lookup true path).isSome, [])
  | .isFile path => some (t.isFile path, [])
  | .readText path =>
    match t.lookup true path with
    | some (.file content _) => some (content, [])
    | _ => none
  | .openAppend path empty mode =>
    (t.locate true path).bind fun p =>
      match t.node p with
      | none => some ((), [(p, some (.file empty mode))])
      | some (.file _ _) => some ((), [])
      | _ => none
  | .lock _ => some ((), [])
  | .write path content mode =>
    (t.locate true path).bind fun p =>
      match t.node p with
      | none => some ((), [(p, some (.file content mode))])
      | some (.file _ mode) => some ((), [(p, some (.file content mode))])
      | _ => none
  | .chmod path mode =>
    (t.locate true path).bind fun p =>
      match t.node p with
      | some (.file content _) => some ((), [(p, some (.file content mode))])
      | _ => none
  | .mkdir path =>
    (t.locate false path).bind fun p =>
      match t.node p with
      | none => some ((), [(p, some .dir)])
      | some _ => if t.lookup true path = some .dir then some ((), []) else none
  | .unlink path =>
    (t.locate false path).bind fun p =>
      match t.node p with
      | some (.file _ _) => some ((), [(p, none)])
      | some (.link _) => some ((), [(p, none)])
      | _ => none
  | .replace source target =>
    (t.locate false source).bind fun p =>
      (t.locate false target).bind fun q =>
        if t.node q = some .dir then none
        else match t.node p with
          | none => none
          | some .dir => none
          | some x => some ((), if p = q then [] else [(p, none), (q, some x)])

end FileTree

/-- A tree, and the locations that calls have changed. -/
structure Disk (N D : Type) where
  tree : FileTree N D
  touched : List (Location N)

/-- How a call is cut off: before it starts, in the middle of what it writes, at its end. -/
inductive Cut where
  | before
  | during (written : Nat)
  | after

/-- A content of which only a part was written. -/
class Partial (D : Type) where
  cut : Nat → D → D

namespace Disk

variable [DecidableEq N]

def change (d : Disk N D) (p : Location N) (x : Option (Node N D)) : Disk N D :=
  ⟨d.tree.put p x, d.touched ++ [p]⟩

def apply (d : Disk N D) (changes : Changes N D) : Disk N D :=
  changes.foldl (fun d c => d.change c.1 c.2) d

/-- A call on a disk. -/
def perform (c : FileCall N D) (d : Disk N D) : Option (c.Reply × Disk N D) :=
  (d.tree.effect c).map fun (r, changes) => (r, d.apply changes)

/-- A call that was made, if it could be. -/
def done (c : FileCall N D) (d : Disk N D) : Disk N D := (d.perform c).elim d Prod.snd

variable [Partial D]

/-- A call that was cut off: a file may be written in part. -/
def cutOff (c : FileCall N D) (k : Cut) (d : Disk N D) : Disk N D :=
  match k, c with
  | .before, _ => d
  | .during n, .write path content mode => d.done (.write path (Partial.cut n content) mode)
  | .during _, c => d.done c
  | .after, c => d.done c

/-- The machine of the calls. -/
def machine : Machine (FileCall N D) FileCall.Reply Cut (Disk N D) where
  perform c d := d.perform c
  cutOff c k d := d.cutOff c k

end Disk

/-! ## Directories above an entry -/

namespace FileTree

variable {t t' : FileTree N D}

theorem dir_above {p q : Location N} (hq : q ≠ []) (h : t.node (p ++ q) ≠ none) :
    t.node p = some .dir := by
  induction q using List.reverseRecOn with
  | nil => exact absurd rfl hq
  | append_singleton q n ih =>
    rw [← List.append_assoc] at h
    have hdir := t.closed (p ++ q) n h
    by_cases hnil : q = []
    · rw [hnil, List.append_nil] at hdir
      exact hdir
    · exact ih hnil (by rw [hdir]; exact Option.some_ne_none _)

theorem dir_dropLast {p : Location N} (h : t.node p = some .dir) :
    t.node p.dropLast = some .dir := by
  rcases List.eq_nil_or_concat' p with rfl | ⟨q, n, rfl⟩
  · exact h
  · rw [List.dropLast_concat]
    exact t.closed q n (by rw [h]; exact Option.some_ne_none _)

/-! ## Where paths lead -/

/-- An induction over walks: what holds of a start in a directory, of links and of ends. -/
theorem walkWithin_induct {last : Bool} {P : Location N → Path N → Location N → Prop}
    (hnil : ∀ here, t.node here = some .dir → P here [] here)
    (hup : ∀ here rest p, P here.dropLast rest p → P here (.up :: rest) p)
    (hdir : ∀ here n rest p, t.node (here ++ [n]) = some .dir → P (here ++ [n]) rest p →
      P here (.down n :: rest) p)
    (hlink : ∀ here n rest text p, t.node (here ++ [n]) = some (.link text) →
      ¬ (rest = [] ∧ last = false) →
      P (if text.absolute then [] else here) (text.parts ++ rest) p → P here (.down n :: rest) p)
    (hend : ∀ here n, t.node here = some .dir → t.node (here ++ [n]) ≠ some .dir →
      (last = true → ∀ text, t.node (here ++ [n]) ≠ some (.link text)) →
      P here [.down n] (here ++ [n]))
    {links : Nat} {here : Location N} {path : Path N} {p : Location N}
    (hhere : t.node here = some .dir) (h : walkWithin t.node last links here path = some p) :
    P here path p := by
  -- the steps of one walk, when what follows a link is known
  have hwalk : ∀ follow : Location N → Path N → Option (Location N),
      (∀ here path p, t.node here = some .dir → follow here path = some p → P here path p) →
      ∀ path here p, t.node here = some .dir → walk t.node follow last here path = some p →
        P here path p := by
    intro follow hfollow path
    induction path with
    | nil =>
      rintro here p hhere h
      obtain rfl : here = p := Option.some.inj h
      exact hnil here hhere
    | cons c rest ih =>
      intro here p hhere h
      cases c with
      | up => exact hup here rest p (ih _ p (dir_dropLast hhere) h)
      | down n =>
        unfold walk at h
        cases hnode : t.node (here ++ [n]) with
        | none =>
          simp only [hnode, List.isEmpty_iff, Option.ite_none_right_eq_some,
            Option.some.injEq] at h
          obtain ⟨rfl, rfl⟩ := h
          exact hend here n hhere (by simp [hnode]) (by simp [hnode])
        | some node =>
          cases node with
          | dir =>
            rw [hnode] at h
            exact hdir here n rest p hnode (ih _ p hnode h)
          | file content mode =>
            simp only [hnode, List.isEmpty_iff, Option.ite_none_right_eq_some,
              Option.some.injEq] at h
            obtain ⟨rfl, rfl⟩ := h
            exact hend here n hhere (by simp [hnode]) (by simp [hnode])
          | link text =>
            rw [hnode] at h
            by_cases hstop : rest = [] ∧ last = false
            · obtain ⟨rfl, rfl⟩ := hstop
              obtain rfl : here ++ [n] = p := by simpa using h
              exact hend here n hhere (by simp [hnode]) (by simp)
            · have hgo : (rest.isEmpty && !last) = false := by
                simpa [List.isEmpty_iff] using hstop
              simp only [hgo, Bool.false_eq_true, if_false] at h
              refine hlink here n rest text p hnode hstop (hfollow _ _ p ?_ h)
              split
              · exact t.top
              · exact hhere
  induction links generalizing here path p with
  | zero => exact hwalk _ (fun _ _ _ _ h => by simp at h) path here p hhere h
  | succ links ih => exact hwalk _ (fun _ _ _ hh h => ih hh h) path here p hhere h

/-- A path leads into a directory, to a free name of one or to an entry of one. -/
theorem locate_parent {last : Bool} {path : Path N} {p : Location N}
    (h : t.locate last path = some p) : t.node p.dropLast = some .dir := by
  refine walkWithin_induct (P := fun _ _ p => t.node p.dropLast = some .dir)
    ?_ ?_ ?_ ?_ ?_ t.top h
  · exact fun here hhere => dir_dropLast hhere
  · exact fun here rest p h => h
  · exact fun here n rest p _ h => h
  · exact fun here n rest text p _ _ h => h
  · intro here n hhere _ _
    rw [List.dropLast_concat]
    exact hhere

/-- A link at the end of a path is followed. -/
theorem locate_follows {path : Path N} {p : Location N} (h : t.locate true path = some p)
    (text : LinkText N) : t.node p ≠ some (.link text) := by
  refine walkWithin_induct (P := fun _ _ p => t.node p ≠ some (.link text)) ?_ ?_ ?_ ?_ ?_ t.top h
  · intro here hhere
    rw [hhere]
    simp
  · exact fun here rest p h => h
  · exact fun here n rest p _ h => h
  · exact fun here n rest text p _ _ h => h
  · exact fun here n _ _ hlink => hlink rfl text

theorem locate_free [DecidableEq N] {last : Bool} {path : Path N} {p : Location N}
    (h : t.locate last path = some p) (hdir : t.node p ≠ some .dir) : t.Free p := by
  refine ⟨?_, locate_parent h, hdir⟩
  rintro rfl
  exact hdir t.top

/-! ### Locations as paths -/

/-- A path goes down directories as it is written. -/
theorem walk_down {follow : Location N → Path N → Option (Location N)} {last : Bool}
    (here : Location N) {names : Location N} (h : t.node (here ++ names) = some .dir)
    (rest : Path N) :
    walk t.node follow last here (names.path ++ rest) =
      walk t.node follow last (here ++ names) rest := by
  induction names generalizing here with
  | nil => rw [List.append_nil]; rfl
  | cons n names ih =>
    have hassoc : here ++ n :: names = here ++ [n] ++ names := by simp
    rw [hassoc] at h ⊢
    have hdir : t.node (here ++ [n]) = some .dir := by
      by_cases hnil : names = []
      · rw [hnil, List.append_nil] at h
        exact h
      · exact dir_above hnil (by rw [h]; exact Option.some_ne_none _)
    rw [← ih _ h]
    show walk t.node follow last here (.down n :: (Location.path names ++ rest)) = _
    rw [walk, hdir]

/-- The start of a path that names a directory by its location. -/
theorem locate_below {last : Bool} {root : Location N} (h : t.node root = some .dir)
    (rest : Path N) :
    t.locate last (root.path ++ rest) = walkWithin t.node last maxLinks root rest :=
  walk_down [] h rest

/-- **An entry is found by its location**, and so is a free name in a directory. -/
theorem locate_location (last : Bool) {p : Location N} (hparent : t.node p.dropLast = some .dir)
    (hlink : last = true → ∀ text, t.node p ≠ some (.link text)) :
    t.locate last p.path = some p := by
  rcases List.eq_nil_or_concat' p with rfl | ⟨q, n, rfl⟩
  · rfl
  · rw [List.dropLast_concat] at hparent
    have hpath : Location.path (q ++ [n]) = Location.path q ++ [.down n] := by simp [Location.path]
    rw [hpath, locate_below hparent]
    show walk t.node _ last q [.down n] = _
    unfold walk
    cases hnode : t.node (q ++ [n]) with
    | none => rfl
    | some node =>
      cases node with
      | dir => rfl
      | file content mode => rfl
      | link text =>
        have hlast : last = false := by
          cases last with
          | false => rfl
          | true => exact absurd hnode (hlink rfl text)
        rw [hlast]
        rfl

/-- What `lstat` says of an entry. -/
theorem lookup_location {p : Location N} (h : t.node p ≠ none) :
    t.lookup false p.path = t.node p := by
  have hparent : t.node p.dropLast = some .dir := by
    rcases List.eq_nil_or_concat' p with rfl | ⟨q, n, rfl⟩
    · exact t.top
    · rw [List.dropLast_concat]
      exact t.closed q n h
  unfold lookup
  rw [locate_location _ hparent (fun hlast => absurd hlast Bool.false_ne_true)]
  rfl

/-- No link by name means no link at the location. -/
theorem isSymlink_location {p : Location N} (h : t.isSymlink p.path = false)
    (text : LinkText N) : t.node p ≠ some (.link text) := by
  intro hnode
  unfold isSymlink at h
  rw [lookup_location (by rw [hnode]; exact Option.some_ne_none _), hnode] at h
  exact absurd h.symm Bool.false_ne_true

/-- Whether a link at the end is followed matters only where there is one. -/
theorem locate_last (path : Path N) :
    t.locate false path = t.locate true path ∨
      ∃ p text, t.locate false path = some p ∧ t.node p = some (.link text) := by
  have hwalk : ∀ follow follow' : Location N → Path N → Option (Location N),
      (∀ here path, follow here path = follow' here path ∨
        ∃ p text, follow here path = some p ∧ t.node p = some (.link text)) →
      ∀ path here, walk t.node follow false here path = walk t.node follow' true here path ∨
        ∃ p text, walk t.node follow false here path = some p ∧ t.node p = some (.link text) := by
    intro follow follow' hfollow path
    induction path with
    | nil => exact fun here => .inl rfl
    | cons c rest ih =>
      intro here
      cases c with
      | up => exact ih here.dropLast
      | down n =>
        unfold walk
        cases hnode : t.node (here ++ [n]) with
        | none => exact .inl rfl
        | some node =>
          cases node with
          | file content mode => exact .inl rfl
          | dir => exact ih (here ++ [n])
          | link text =>
            cases rest with
            | nil => exact .inr ⟨here ++ [n], text, rfl, hnode⟩
            | cons c rest => exact hfollow _ _
  have hwithin : ∀ links path here,
      walkWithin t.node false links here path = walkWithin t.node true links here path ∨
        ∃ p text, walkWithin t.node false links here path = some p ∧
          t.node p = some (.link text) := by
    intro links
    induction links with
    | zero => exact hwalk _ _ fun _ _ => .inl rfl
    | succ links ih => exact hwalk _ _ fun here path => ih path here
  exact hwithin maxLinks path []

theorem locate_of_not_symlink {path : Path N} (h : t.isSymlink path = false) :
    t.locate false path = t.locate true path := by
  rcases locate_last path with heq | ⟨p, text, hlocate, hnode⟩
  · exact heq
  · unfold isSymlink lookup at h
    rw [hlocate, Option.bind_some, hnode] at h
    exact absurd h.symm Bool.false_ne_true

theorem isFile_eq_true {path : Path N} (h : t.isFile path = true) :
    ∃ p content mode, t.locate true path = some p ∧ t.node p = some (.file content mode) := by
  unfold isFile lookup at h
  split at h
  · rename_i content mode hlookup
    obtain ⟨p, hp, hnode⟩ := Option.bind_eq_some_iff.mp hlookup
    exact ⟨p, content, mode, hp, hnode⟩
  · exact absurd h Bool.false_ne_true

/-- **A path without links** leads where it is written. -/
theorem locate_plain {last : Bool} {root names p : Location N} (hroot : t.node root = some .dir)
    (hlink : ∀ q r, names = q ++ r → q ≠ [] → (r = [] → last = true) →
      ∀ text, t.node (root ++ q) ≠ some (.link text))
    (h : t.locate last (root ++ names).path = some p) : p = root ++ names := by
  have hpath : (root ++ names).path = Location.path root ++ Location.path names := by
    simp [Location.path]
  rw [hpath, locate_below hroot] at h
  show p = root ++ names
  -- by induction on the names, from any directory on
  have hwalk : ∀ follow names here, t.node here = some .dir →
      (∀ q r, names = q ++ r → q ≠ [] → (r = [] → last = true) →
        ∀ text, t.node (here ++ q) ≠ some (.link text)) →
      walk t.node follow last here (Location.path names) = some p → p = here ++ names := by
    intro follow names
    induction names with
    | nil =>
      intro here _ _ h
      rw [List.append_nil]
      exact (Option.some.inj h).symm
    | cons n names ih =>
      intro here hhere hlink h
      change walk t.node follow last here (.down n :: Location.path names) = some p at h
      unfold walk at h
      cases hnode : t.node (here ++ [n]) with
      | none =>
        simp only [hnode, List.isEmpty_iff, Option.ite_none_right_eq_some,
          Option.some.injEq] at h
        obtain ⟨hnil, rfl⟩ := h
        rw [List.map_eq_nil_iff.mp hnil]
      | some node =>
        cases node with
        | file content mode =>
          simp only [hnode, List.isEmpty_iff, Option.ite_none_right_eq_some,
            Option.some.injEq] at h
          obtain ⟨hnil, rfl⟩ := h
          rw [List.map_eq_nil_iff.mp hnil]
        | dir =>
          rw [hnode] at h
          have hassoc : here ++ n :: names = here ++ [n] ++ names := by simp
          rw [hassoc]
          apply ih (here ++ [n]) hnode ?_ h
          intro q r hsplit hq hr text
          have := hlink (n :: q) r (by rw [hsplit]; rfl) (by simp) hr text
          simpa using this
        | link text =>
          rw [hnode] at h
          by_cases hstop : names = [] ∧ last = false
          · obtain ⟨rfl, rfl⟩ := hstop
            exact (Option.some.inj h).symm
          · exact absurd hnode
              (hlink [n] names rfl (by simp) (fun hnil => by simpa [hnil] using hstop) text)
  exact hwalk _ names root hroot hlink h

/-! ### Growing trees -/

/-- Directories stay, and links neither come nor go. -/
structure Grows (t t' : FileTree N D) : Prop where
  dirs : ∀ p, t.node p = some .dir → t'.node p = some .dir
  links : ∀ p text, t'.node p = some (.link text) ↔ t.node p = some (.link text)

theorem Grows.refl (t : FileTree N D) : Grows t t := ⟨fun _ h => h, fun _ _ => Iff.rfl⟩

theorem Grows.trans {t'' : FileTree N D} (h : Grows t t') (h' : Grows t' t'') : Grows t t'' :=
  ⟨fun p hp => h'.dirs p (h.dirs p hp), fun p text => (h'.links p text).trans (h.links p text)⟩

/-- **A path that leads somewhere leads there still.** -/
theorem Grows.locate (h : Grows t t') {last : Bool} {path : Path N} {p : Location N}
    (hp : t.locate last path = some p) : t'.locate last path = some p := by
  have hwalk : ∀ follow follow' : Location N → Path N → Option (Location N),
      (∀ here path p, follow here path = some p → follow' here path = some p) →
      ∀ path here p, walk t.node follow last here path = some p →
        walk t'.node follow' last here path = some p := by
    intro follow follow' hfollow path
    induction path with
    | nil => exact fun here p hp => hp
    | cons c rest ih =>
      intro here p hp
      cases c with
      | up => exact ih _ p hp
      | down n =>
        unfold walk at hp ⊢
        -- a free name or a file is the end; it may be a directory by now, but no link
        have hend : (∀ text, t.node (here ++ [n]) ≠ some (.link text)) → rest = [] →
            here ++ [n] = p → (match t'.node (here ++ [n]) with
              | some (.link text) =>
                if rest.isEmpty && !last then some (here ++ [n])
                else follow' (if text.absolute then [] else here) (text.parts ++ rest)
              | some .dir => walk t'.node follow' last (here ++ [n]) rest
              | some (.file _ _) => if rest.isEmpty then some (here ++ [n]) else none
              | none => if rest.isEmpty then some (here ++ [n]) else none) = some p := by
          rintro hlink rfl rfl
          cases hnode : t'.node (here ++ [n]) with
          | none => rfl
          | some node =>
            cases node with
            | dir => rfl
            | file content mode => rfl
            | link text => exact absurd ((h.links _ text).mp hnode) (hlink text)
        cases hnode : t.node (here ++ [n]) with
        | none =>
          simp only [hnode, List.isEmpty_iff, Option.ite_none_right_eq_some,
            Option.some.injEq] at hp
          exact hend (by simp [hnode]) hp.1 hp.2
        | some node =>
          cases node with
          | file content mode =>
            simp only [hnode, List.isEmpty_iff, Option.ite_none_right_eq_some,
              Option.some.injEq] at hp
            exact hend (by simp [hnode]) hp.1 hp.2
          | dir =>
            rw [hnode] at hp
            rw [h.dirs _ hnode]
            exact ih _ p hp
          | link text =>
            rw [hnode] at hp
            rw [(h.links _ text).mpr hnode]
            by_cases hstop : (rest.isEmpty && !last) = true
            · simpa only [hstop, if_true] using hp
            · simp only [hstop, Bool.false_eq_true, if_false] at hp ⊢
              exact hfollow _ _ _ hp
  have hwithin : ∀ links here path p, walkWithin t.node last links here path = some p →
      walkWithin t'.node last links here path = some p := by
    intro links
    induction links with
    | zero => exact fun here path p => hwalk _ _ (fun _ _ _ h => h) path here p
    | succ links ih => exact fun here path p => hwalk _ _ ih path here p
  exact hwithin maxLinks [] path p hp

/-- The same directories and the same links. -/
structure SameShape (t t' : FileTree N D) : Prop where
  grows : Grows t t'
  shrinks : Grows t' t

theorem SameShape.refl (t : FileTree N D) : SameShape t t := ⟨Grows.refl t, Grows.refl t⟩

theorem SameShape.trans {t'' : FileTree N D} (h : SameShape t t') (h' : SameShape t' t'') :
    SameShape t t'' :=
  ⟨h.grows.trans h'.grows, h'.shrinks.trans h.shrinks⟩

/-- Paths lead to the same places. -/
theorem SameShape.locate (h : SameShape t t') (last : Bool) (path : Path N) :
    t'.locate last path = t.locate last path := by
  cases hlocate : t.locate last path with
  | some p => exact h.grows.locate hlocate
  | none =>
    cases hlocate' : t'.locate last path with
    | none => rfl
    | some p => exact absurd (h.shrinks.locate hlocate') (by simp [hlocate])

theorem SameShape.isSymlink (h : SameShape t t') (path : Path N) :
    t'.isSymlink path = t.isSymlink path := by
  have hiff : t'.isSymlink path = true ↔ t.isSymlink path = true := by
    unfold FileTree.isSymlink lookup
    rw [h.locate]
    cases t.locate false path with
    | none => rfl
    | some p =>
      have hlinks := h.grows.links p
      simp only [Option.bind_some]
      constructor
      · intro hlink
        split at hlink
        · rename_i text hnode
          rw [(hlinks text).mp hnode]
        · exact absurd hlink Bool.false_ne_true
      · intro hlink
        split at hlink
        · rename_i text hnode
          rw [(hlinks text).mpr hnode]
        · exact absurd hlink Bool.false_ne_true
  exact Bool.eq_iff_iff.mpr hiff

/-! ## What calls change -/

/-- Neither a link nor a directory. -/
def Plain (x : Option (Node N D)) : Prop := x ≠ some .dir ∧ ∀ text, x ≠ some (.link text)

@[simp] theorem plain_none : Plain (none : Option (Node N D)) := ⟨by simp, by simp⟩

@[simp] theorem plain_file (content : D) (mode : Nat) :
    Plain (some (.file content mode) : Option (Node N D)) := ⟨by simp, by simp⟩

section Change

variable [DecidableEq N]

theorem put_node {p : Location N} (h : t.Free p) (x : Option (Node N D)) :
    (t.put p x).node p = x := by
  unfold put
  rw [dif_pos h]
  exact Function.update_self p x t.node

theorem put_node_of_ne {p q : Location N} (h : q ≠ p) (x : Option (Node N D)) :
    (t.put p x).node q = t.node q := by
  unfold put
  split
  · exact Function.update_of_ne h x t.node
  · rfl

/-- A tree grows when files come and go, and when free names become directories. -/
theorem grows_put {p : Location N} {x : Option (Node N D)} (hold : Plain (t.node p))
    (hnew : ∀ text, x ≠ some (.link text)) : Grows t (t.put p x) := by
  unfold put
  split
  · refine ⟨fun q hq => ?_, fun q text => ?_⟩
    · have hqp : q ≠ p := fun heq => hold.1 (heq ▸ hq)
      show Function.update t.node p x q = some .dir
      rw [Function.update_of_ne hqp]
      exact hq
    · show Function.update t.node p x q = some (.link text) ↔ _
      by_cases hqp : q = p
      · rw [hqp, Function.update_self]
        exact ⟨fun h => absurd h (hnew text), fun h => absurd h (hold.2 text)⟩
      · rw [Function.update_of_ne hqp]
  · exact Grows.refl t

theorem fileAt_put {p : Location N} (h : t.Free p) (x : Option (Node N D)) (q : Location N) :
    (t.put p x).fileAt q = if q = p then fileOf x else t.fileAt q := by
  unfold fileAt
  by_cases hq : q = p
  · rw [if_pos hq, hq, put_node h]
  · rw [if_neg hq, put_node_of_ne hq]

/-- Files come and go without changing the shape of the tree. -/
theorem sameShape_put {p : Location N} {x : Option (Node N D)} (hold : Plain (t.node p))
    (hnew : Plain x) : SameShape t (t.put p x) := by
  refine ⟨grows_put hold hnew.2, ?_⟩
  have hlinks := (grows_put hold hnew.2).links
  refine ⟨fun q hq => ?_, fun q text => (hlinks q text).symm⟩
  by_cases hqp : q = p
  · subst hqp
    unfold put at hq
    split at hq
    · exact absurd ((Function.update_self q x t.node).symm.trans hq) hnew.1
    · exact hq
  · rw [put_node_of_ne hqp] at hq
    exact hq

/-! ### One lemma for each call -/

theorem effect_openAppend {path : Path N} {empty : D} {mode : Nat} {r : Unit}
    {changes : Changes N D} (h : t.effect (.openAppend path empty mode) = some (r, changes)) :
    ∃ p, t.locate true path = some p ∧
      ((t.node p = none ∧ changes = [(p, some (.file empty mode))]) ∨
        (t.fileAt p).isSome ∧ changes = []) := by
  obtain ⟨p, hp, h⟩ := Option.bind_eq_some_iff.mp h
  refine ⟨p, hp, ?_⟩
  split at h
  · exact .inl ⟨‹_›, (Prod.mk.inj (Option.some.inj h)).2.symm⟩
  · rename_i content mode' hnode
    refine .inr ⟨?_, (Prod.mk.inj (Option.some.inj h)).2.symm⟩
    unfold fileAt
    rw [hnode]
    rfl
  · exact absurd h (by simp)

theorem effect_write {path : Path N} {content : D} {mode : Nat} {r : Unit}
    {changes : Changes N D} (h : t.effect (.write path content mode) = some (r, changes)) :
    ∃ p m, t.locate true path = some p ∧ Plain (t.node p) ∧
      changes = [(p, some (.file content m))] := by
  obtain ⟨p, hp, h⟩ := Option.bind_eq_some_iff.mp h
  split at h
  · rename_i hnode
    exact ⟨p, mode, hp, by rw [hnode]; exact plain_none, (Prod.mk.inj (Option.some.inj h)).2.symm⟩
  · rename_i old m hnode
    exact ⟨p, m, hp, by rw [hnode]; exact plain_file old m,
      (Prod.mk.inj (Option.some.inj h)).2.symm⟩
  · exact absurd h (by simp)

theorem effect_chmod {path : Path N} {mode : Nat} {r : Unit} {changes : Changes N D}
    (h : t.effect (.chmod path mode) = some (r, changes)) :
    ∃ p content m, t.locate true path = some p ∧ t.node p = some (.file content m) ∧
      changes = [(p, some (.file content mode))] := by
  obtain ⟨p, hp, h⟩ := Option.bind_eq_some_iff.mp h
  split at h
  · exact ⟨p, _, _, hp, ‹_›, (Prod.mk.inj (Option.some.inj h)).2.symm⟩
  · exact absurd h (by simp)

theorem effect_mkdir {path : Path N} {r : Unit} {changes : Changes N D}
    (h : t.effect (.mkdir path) = some (r, changes)) :
    ∃ p, t.locate false path = some p ∧
      ((t.node p = none ∧ changes = [(p, some .dir)]) ∨
        (t.node p ≠ none ∧ t.lookup true path = some .dir ∧ changes = [])) := by
  obtain ⟨p, hp, h⟩ := Option.bind_eq_some_iff.mp h
  refine ⟨p, hp, ?_⟩
  split at h
  · exact .inl ⟨‹_›, (Prod.mk.inj (Option.some.inj h)).2.symm⟩
  · rename_i hnode
    split at h
    · exact .inr ⟨by simp [hnode], ‹_›, (Prod.mk.inj (Option.some.inj h)).2.symm⟩
    · exact absurd h (by simp)

theorem effect_unlink {path : Path N} {r : Unit} {changes : Changes N D}
    (h : t.effect (.unlink path) = some (r, changes)) :
    ∃ p, t.locate false path = some p ∧ t.node p ≠ none ∧ t.node p ≠ some .dir ∧
      changes = [(p, none)] := by
  obtain ⟨p, hp, h⟩ := Option.bind_eq_some_iff.mp h
  refine ⟨p, hp, ?_⟩
  split at h
  · rename_i hnode
    exact ⟨by simp [hnode], by simp [hnode], (Prod.mk.inj (Option.some.inj h)).2.symm⟩
  · rename_i hnode
    exact ⟨by simp [hnode], by simp [hnode], (Prod.mk.inj (Option.some.inj h)).2.symm⟩
  · exact absurd h (by simp)

theorem effect_replace {source target : Path N} {r : Unit} {changes : Changes N D}
    (h : t.effect (.replace source target) = some (r, changes)) :
    ∃ p q x, t.locate false source = some p ∧ t.locate false target = some q ∧
      t.node q ≠ some .dir ∧ t.node p = some x ∧ x ≠ .dir ∧
      changes = if p = q then [] else [(p, none), (q, some x)] := by
  obtain ⟨p, hp, h⟩ := Option.bind_eq_some_iff.mp h
  obtain ⟨q, hq, h⟩ := Option.bind_eq_some_iff.mp h
  split at h
  · exact absurd h (by simp)
  · rename_i hdir
    split at h
    · exact absurd h (by simp)
    · exact absurd h (by simp)
    · rename_i x hx hnode
      exact ⟨p, q, x, hp, hq, hdir, hnode, fun heq => hx (heq ▸ rfl),
        (Prod.mk.inj (Option.some.inj h)).2.symm⟩

/-- A call changes no directory. -/
theorem effect_not_dir {c : FileCall N D} {r : c.Reply} {changes : Changes N D}
    (h : t.effect c = some (r, changes)) {change : Location N × Option (Node N D)}
    (hmem : change ∈ changes) : t.node change.1 ≠ some .dir := by
  cases c with
  | isSymlink | «exists» | isFile | lock =>
    obtain rfl := (Prod.mk.inj (Option.some.inj h)).2
    exact absurd hmem (by simp)
  | readText path =>
    simp only [effect] at h
    split at h
    · obtain rfl := (Prod.mk.inj (Option.some.inj h)).2
      exact absurd hmem (by simp)
    · exact absurd h (by simp)
  | openAppend path empty mode =>
    obtain ⟨p, _, ⟨hnone, rfl⟩ | ⟨_, rfl⟩⟩ := effect_openAppend h
    · obtain rfl := List.mem_singleton.mp hmem
      rw [hnone]
      simp
    · exact absurd hmem (by simp)
  | write path content mode =>
    obtain ⟨p, m, _, hplain, rfl⟩ := effect_write h
    obtain rfl := List.mem_singleton.mp hmem
    exact hplain.1
  | chmod path mode =>
    obtain ⟨p, content, m, _, hnode, rfl⟩ := effect_chmod h
    obtain rfl := List.mem_singleton.mp hmem
    rw [hnode]
    simp
  | mkdir path =>
    obtain ⟨p, _, ⟨hnone, rfl⟩ | ⟨_, _, rfl⟩⟩ := effect_mkdir h
    · obtain rfl := List.mem_singleton.mp hmem
      rw [hnone]
      simp
    · exact absurd hmem (by simp)
  | unlink path =>
    obtain ⟨p, _, _, hdir, rfl⟩ := effect_unlink h
    obtain rfl := List.mem_singleton.mp hmem
    exact hdir
  | replace source target =>
    obtain ⟨p, q, x, _, _, hdir, hnode, hx, rfl⟩ := effect_replace h
    split at hmem
    · exact absurd hmem (by simp)
    · rcases List.mem_cons.mp hmem with rfl | hmem
      · rw [hnode]
        exact fun heq => hx (Option.some.inj heq)
      · obtain rfl := List.mem_singleton.mp hmem
        exact hdir

end Change

end FileTree

namespace Disk

variable [DecidableEq N] {d : Disk N D}

theorem apply_nil (d : Disk N D) : d.apply [] = d := rfl

theorem apply_cons (d : Disk N D) (p : Location N) (x : Option (Node N D))
    (changes : Changes N D) : d.apply ((p, x) :: changes) = (d.change p x).apply changes := rfl

theorem apply_touched (d : Disk N D) (changes : Changes N D) :
    (d.apply changes).touched = d.touched ++ changes.map Prod.fst := by
  induction changes generalizing d with
  | nil => simp [apply_nil]
  | cons c changes ih =>
    obtain ⟨p, x⟩ := c
    rw [apply_cons, ih]
    simp [change]

/-- Away from what it touches, a call leaves the tree as it is. -/
theorem apply_frame {changes : Changes N D} {q : Location N} (h : q ∉ changes.map Prod.fst) :
    (d.apply changes).tree.node q = d.tree.node q := by
  induction changes generalizing d with
  | nil => rfl
  | cons c changes ih =>
    obtain ⟨p, x⟩ := c
    simp only [List.map_cons, List.mem_cons, not_or] at h
    rw [apply_cons, ih h.2]
    exact FileTree.put_node_of_ne h.1 x

theorem perform_eq_some {c : FileCall N D} {r : c.Reply} {d' : Disk N D}
    (h : d.perform c = some (r, d')) :
    ∃ changes, d.tree.effect c = some (r, changes) ∧ d' = d.apply changes := by
  obtain ⟨⟨r', changes⟩, heffect, hresult⟩ := Option.map_eq_some_iff.mp h
  obtain ⟨rfl, rfl⟩ := Prod.mk.inj hresult
  exact ⟨changes, heffect, rfl⟩

theorem perform_unlink {d : Disk N D} {path : Path N} {p : Location N} {content : D} {mode : Nat}
    (hp : d.tree.locate false path = some p) (hnode : d.tree.node p = some (.file content mode)) :
    d.perform (.unlink path) = some ((), d.apply [(p, none)]) := by
  unfold perform
  simp only [FileTree.effect, hp, Option.bind_some, hnode, Option.map_some]
  rfl

/-- A file, or a free name, is written. -/
theorem perform_write {d : Disk N D} {path : Path N} {p : Location N} (content : D) (mode : Nat)
    (hp : d.tree.locate true path = some p) (hdir : d.tree.node p ≠ some .dir) :
    ∃ m, d.perform (.write path content mode) =
      some ((), d.apply [(p, some (.file content m))]) := by
  unfold perform
  cases hnode : d.tree.node p with
  | none =>
    refine ⟨mode, ?_⟩
    simp only [FileTree.effect, hp, Option.bind_some, hnode, Option.map_some]
    rfl
  | some node =>
    cases node with
    | file old m =>
      refine ⟨m, ?_⟩
      simp only [FileTree.effect, hp, Option.bind_some, hnode, Option.map_some]
      rfl
    | dir => exact absurd hnode hdir
    | link text => exact absurd hnode (FileTree.locate_follows hp text)

/-- A directory that is there is not made. -/
theorem perform_mkdir {d : Disk N D} {p : Location N} (h : d.tree.node p = some .dir) :
    d.perform (.mkdir p.path) = some ((), d) := by
  have hlocate := fun last => FileTree.locate_location last (FileTree.dir_dropLast h)
    fun _ text => by rw [h]; simp
  unfold perform
  simp only [FileTree.effect, FileTree.lookup, hlocate, Option.bind_some, h, if_true,
    Option.map_some]
  rfl

/-- No call removes a directory. -/
theorem perform_dir {d d' : Disk N D} {c : FileCall N D} {r : c.Reply} {p : Location N}
    (h : d.tree.node p = some .dir) (hperform : d.perform c = some (r, d')) :
    d'.tree.node p = some .dir := by
  obtain ⟨changes, heffect, rfl⟩ := perform_eq_some hperform
  have hchanged : p ∉ changes.map Prod.fst := by
    intro hmem
    obtain ⟨c', hc', rfl⟩ := List.mem_map.mp hmem
    exact FileTree.effect_not_dir heffect hc' h
  rw [apply_frame hchanged]
  exact h

theorem perform_openAppend {d : Disk N D} {path : Path N} {p : Location N} (empty : D) (mode : Nat)
    (hp : d.tree.locate true path = some p)
    (hnode : d.tree.node p = none ∨ (d.tree.fileAt p).isSome = true) :
    d.perform (.openAppend path empty mode) = some ((), d.apply
      (if d.tree.node p = none then [(p, some (.file empty mode))] else [])) := by
  unfold perform
  cases hfile : d.tree.node p with
  | none =>
    simp only [FileTree.effect, hp, Option.bind_some, hfile, Option.map_some, if_true]
    rfl
  | some node =>
    have hsome : (FileTree.fileOf (some node)).isSome = true := by
      rcases hnode with hnone | hfound
      · exact absurd (hfile.symm.trans hnone) (by simp)
      · unfold FileTree.fileAt at hfound
        rwa [hfile] at hfound
    cases node with
    | file content mode' =>
      simp only [FileTree.effect, hp, Option.bind_some, hfile, Option.map_some, reduceCtorEq,
        if_false]
      rfl
    | dir | link => exact absurd hsome Bool.false_ne_true

/-- The tree is that of the start, but for what was touched. -/
def Framed (start : FileTree N D) (d : Disk N D) : Prop :=
  ∀ q, q ∉ d.touched → d.tree.node q = start.node q

theorem framed_perform {start : FileTree N D} {c : FileCall N D} {r : c.Reply} {d' : Disk N D}
    (h : Framed start d) (hperform : d.perform c = some (r, d')) : Framed start d' := by
  obtain ⟨changes, _, rfl⟩ := perform_eq_some hperform
  intro q hq
  rw [apply_touched, List.mem_append, not_or] at hq
  rw [apply_frame hq.2]
  exact h q hq.1

theorem done_eq (c : FileCall N D) (d : Disk N D) :
    d.done c = d ∨ ∃ r, d.perform c = some (r, d.done c) := by
  unfold done
  cases hperform : d.perform c with
  | none => exact .inl rfl
  | some result => exact .inr ⟨result.1, rfl⟩

variable [Partial D]

/-- What a call that is cut off leaves: nothing done, or one call done whole. -/
theorem cutOff_eq (c : FileCall N D) (k : Cut) (d : Disk N D) :
    d.cutOff c k = d ∨ d.cutOff c k = d.done c ∨
      ∃ n path content mode, c = .write path content mode ∧
        d.cutOff c k = d.done (.write path (Partial.cut n content) mode) := by
  cases k with
  | before => exact .inl rfl
  | after => exact .inr (.inl rfl)
  | during n =>
    cases c with
    | write path content mode => exact .inr (.inr ⟨n, path, content, mode, rfl, rfl⟩)
    | _ => exact .inr (.inl rfl)

/-- What every call keeps, a call that is cut off keeps. -/
theorem cutOff_keeps {I : Disk N D → Prop}
    (hcall : ∀ c d, I d → ∀ r d', d.perform c = some (r, d') → I d') (c : FileCall N D) (k : Cut)
    (h : I d) : I (d.cutOff c k) := by
  have hdone : ∀ c, I (d.done c) := by
    intro c
    rcases done_eq c d with heq | ⟨r, hperform⟩
    · rw [heq]
      exact h
    · exact hcall c d h r _ hperform
  rcases cutOff_eq c k d with heq | heq | ⟨n, path, content, mode, rfl, heq⟩
  · rw [heq]
    exact h
  · rw [heq]
    exact hdone c
  · rw [heq]
    exact hdone _

/-- **Frame**: whatever a script does, the tree is unchanged where it touched nothing. -/
theorem framed_exec {α : Type} (x : Script (FileCall N D) FileCall.Reply α)
    (fault : Option (Nat × Cut)) (t : FileTree N D) :
    Framed t (x.exec machine fault ⟨t, []⟩).world := by
  have hcall : ∀ (c : FileCall N D) (d : Disk N D), Framed t d → ∀ r d',
      d.perform c = some (r, d') → Framed t d' := fun c d hd r d' hp => framed_perform hd hp
  have hensures : x.Ensures machine (Framed t) (fun _ => Framed t) ⟨t, []⟩ := by
    apply Script.Ensures.invariant
    · exact fun c d hd => ⟨fun k => cutOff_keeps hcall c k hd, hcall c d hd⟩
    · exact fun q _ => rfl
  exact hensures.world fault

/-- What was touched stays so. -/
theorem exec_touched {α : Type} (x : Script (FileCall N D) FileCall.Reply α)
    (fault : Option (Nat × Cut)) {p : Location N} {d : Disk N D} (h : p ∈ d.touched) :
    p ∈ (x.exec machine fault d).world.touched := by
  have hcall : ∀ (c : FileCall N D) (d : Disk N D), p ∈ d.touched → ∀ r d',
      d.perform c = some (r, d') → p ∈ d'.touched := by
    intro c d hd r d' hperform
    obtain ⟨changes, _, rfl⟩ := perform_eq_some hperform
    rw [apply_touched]
    exact List.mem_append_left _ hd
  have hensures : x.Ensures machine (fun d => p ∈ d.touched) (fun _ d => p ∈ d.touched) d := by
    apply Script.Ensures.invariant
    · exact fun c d hd => ⟨fun k => cutOff_keeps hcall c k hd, hcall c d hd⟩
    · exact h
  exact hensures.world fault

/-- What comes after a script touches. -/
theorem touched_bind {α β : Type} {x : Script (FileCall N D) FileCall.Reply α}
    {f : α → Script (FileCall N D) FileCall.Reply β} {d d' : Disk N D} {a : α} {p : Location N}
    (h : x.exec machine none d = .returned a d')
    (hp : p ∈ ((f a).exec machine none d').world.touched) :
    p ∈ ((x >>= f).exec machine none d).world.touched := by
  rw [Script.exec_bind, h]
  exact hp

/-- What a script touches is touched when more comes after it. -/
theorem touched_bind_left {α β : Type} {x : Script (FileCall N D) FileCall.Reply α}
    {f : α → Script (FileCall N D) FileCall.Reply β} {d : Disk N D} {p : Location N}
    (h : p ∈ (x.exec machine none d).world.touched) :
    p ∈ ((x >>= f).exec machine none d).world.touched := by
  rw [Script.exec_bind]
  cases hx : x.exec machine none d with
  | returned a d' =>
    rw [hx] at h
    exact exec_touched _ none h
  | stopped d' =>
    rw [hx] at h
    exact h

/-! ## Rules for scripts on a disk -/

section Rules

variable {E : Disk N D → Prop}

/-- A call, which may be cut off. -/
theorem ensures_call {c : FileCall N D} {Q : c.Reply → Disk N D → Prop} (h : E d)
    (hpart : ∀ n path content mode, c = .write path content mode → ∀ r changes,
      d.tree.effect (.write path (Partial.cut n content) mode) = some (r, changes) →
        E (d.apply changes))
    (hcall : ∀ r changes, d.tree.effect c = some (r, changes) →
      E (d.apply changes) ∧ Q r (d.apply changes)) :
    (Script.perform c : Script (FileCall N D) FileCall.Reply c.Reply).Ensures machine E Q d := by
  have hdone : ∀ c', (∀ r changes, d.tree.effect c' = some (r, changes) →
      E (d.apply changes)) → E (d.done c') := by
    intro c' hc'
    rcases done_eq c' d with heq | ⟨r, hperform⟩
    · rw [heq]
      exact h
    · obtain ⟨changes, heffect, heq⟩ := perform_eq_some hperform
      rw [heq]
      exact hc' r changes heffect
  apply Script.Ensures.perform
  · intro k
    show E (d.cutOff c k)
    rcases cutOff_eq c k d with heq | heq | ⟨n, path, content, mode, hc, heq⟩
    · rw [heq]
      exact h
    · rw [heq]
      exact hdone c fun r changes heffect => (hcall r changes heffect).1
    · rw [heq]
      exact hdone _ (hpart n path content mode hc)
  · exact fun _ => h
  · intro r d' hperform
    obtain ⟨changes, heffect, rfl⟩ := perform_eq_some hperform
    exact (hcall r changes heffect).2

/-- A call that only looks. -/
theorem ensures_look {c : FileCall N D} {value : c.Reply} {Q : c.Reply → Disk N D → Prop}
    (hlook : d.tree.effect c = some (value, []))
    (hwrite : ∀ path content mode, c ≠ .write path content mode) (h : E d) (hQ : Q value d) :
    (Script.perform c : Script (FileCall N D) FileCall.Reply c.Reply).Ensures machine E Q d := by
  apply ensures_call h
  · exact fun n path content mode hc => absurd hc (hwrite path content mode)
  · intro r changes heffect
    obtain ⟨rfl, rfl⟩ := Prod.mk.inj (Option.some.inj (hlook.symm.trans heffect))
    exact ⟨h, hQ⟩

/-- A call that fails. -/
theorem ensures_fail {c : FileCall N D} {Q : c.Reply → Disk N D → Prop}
    (hfail : d.tree.effect c = none) (hwrite : ∀ path content mode, c ≠ .write path content mode)
    (h : E d) :
    (Script.perform c : Script (FileCall N D) FileCall.Reply c.Reply).Ensures machine E Q d := by
  apply ensures_call h
  · exact fun n path content mode hc => absurd hc (hwrite path content mode)
  · exact fun r changes heffect => absurd (hfail.symm.trans heffect) (by simp)

end Rules

end Disk

end LinuxMaxxing.Lib
