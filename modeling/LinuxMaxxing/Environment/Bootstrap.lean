import Mathlib.Data.Char
import Mathlib.Data.List.Lex
import LinuxMaxxing.Lib.FileSystem

/-!
# Source Synchronisation

`Remote.archive` and the script `BOOTSTRAP` of `framework/environment.py`, up to the write of
`source-provenance.json`.

- `Remote.archive` makes the members of a tar stream from the files of a source tree;
- `bootstrap` is the script. The workspace root has been made and resolved: it is a location,
  and a directory there;
- every call of the script on the file system may fail, and may be cut off; the child is
  started when the script returns.

Paths are kept by their parts, which is how `pathlib` compares them. The text of a provenance
file is kept as what it lists: `json.loads` reads back what `json.dumps` wrote, and refuses a
text that was cut off.
-/

namespace LinuxMaxxing.Environment

open LinuxMaxxing.Lib

/-! ## Paths -/

/-- A name of a directory entry, without `/`. -/
abbrev Name := List Char

/-- `pathlib.PurePosixPath` -/
structure PurePosixPath where
  absolute : Bool
  parts : List Name
  deriving DecidableEq, Repr

/-- `PurePosixPath(text)`: empty parts and `.` are dropped. -/
def PurePosixPath.ofText (text : List Char) : PurePosixPath where
  absolute := text.head? = some '/'
  parts := (text.splitOn '/').filter fun part => part ≠ [] ∧ part ≠ ".".toList

/-- `str` of a relative path. -/
def strOf (parts : List Name) : List Char := ['/'].intercalate parts

/-- A part as the kernel reads it. -/
def component (part : Name) : Comp Name := if part = "..".toList then .up else .down part

/-- `root / rel` as it is passed to a call. -/
def joined (root : Location Name) (parts : List Name) : Path Name :=
  root.path ++ parts.map component

/-- `target.with_name('.' + target.name + '.sync')` -/
def temporary (target : Location Name) : Location Name :=
  target.dropLast ++ ['.' :: target.getLastD [] ++ ".sync".toList]

/-- `target.parents` of a target that is not the top itself. -/
def parentsOf (target : Location Name) : List (Location Name) := target.dropLast.inits.reverse

/-! ## Files -/

/-- `{'digest': digest, 'files': files}` -/
structure Listing (H : Type) where
  digest : H
  files : List (List Name × H)

/-- The content of a file in the workspace; `torn` is the text of a listing that was cut off. -/
inductive Content (H : Type) where
  | bytes (data : List UInt8)
  | listing (l : Listing H)
  | torn

instance {H : Type} : Partial (Content H) where
  cut
    | n, .bytes data => .bytes (data.take n)
    | _, .listing _ => .torn
    | _, .torn => .torn

/-- What the script takes from Python's library: the hash of a content, the digest of a list of
    files, what `json.loads` finds under `files` in a text that is no listing (an item whose
    path cannot be read is `none`), and the mode of a new file. -/
structure Python (H : Type) where
  sha256 : List UInt8 → H
  digest : List (List Name × H) → H
  loads : List UInt8 → Option (List (Option PurePosixPath))
  fileMode : Nat

/-- `json.loads(...).get('files', [])`; `none` when it raises. -/
def Python.filesOf {H : Type} (py : Python H) : Content H → Option (List (Option PurePosixPath))
  | .bytes [] => none
  | .bytes data => py.loads data
  | .listing l => some (l.files.map fun file => some ⟨false, file.1⟩)
  | .torn => none

/-! ## The archive -/

/-- A member of a tar stream. -/
structure Member where
  name : List Char
  isFile : Bool
  mode : Nat
  data : List UInt8

/-- A path below the repository's root. `repeated` says that it is a hard link to a file that
    is added before. -/
structure SourceFile where
  rel : List Name
  isFile : Bool
  isSymlink : Bool
  repeated : Bool
  mode : Nat
  data : List UInt8

/-- The directories that are archived. -/
def sourceRoots : List Name :=
  ["framework".toList, "experiments".toList, "common".toList]

def labSh : List Name := ["lab.sh".toList]

/-- `path.suffix` of a name. -/
def suffixOf (name : Name) : Name :=
  let tail := name.reverse.takeWhile (· ≠ '.')
  let stem := name.reverse.drop (tail.length + 1)
  if tail = [] ∨ stem = [] then [] else '.' :: tail.reverse

/-- Which paths below the three directories are archived. -/
def kept (f : SourceFile) : Bool :=
  let name := f.rel.getLastD []
  !f.rel.any (· ∈ ["__pycache__".toList, "_captures".toList, "build".toList, "_exps".toList]) &&
    f.isFile && !f.isSymlink &&
    (suffixOf name ∈ [".py".toList, ".json".toList, ".c".toList, ".h".toList, ".S".toList,
        ".sh".toList, ".md".toList] || name = "Makefile".toList)

/-- `tar.add(path, arcname=str(rel), recursive=False)` -/
def tarAdd (f : SourceFile) : Member where
  name := strOf f.rel
  isFile := f.isFile && !f.isSymlink && !f.repeated
  mode := f.mode
  data := f.data

/-- The paths of a repository: `lab.sh`, and what `rglob` finds below the three directories. -/
structure SourceTree where
  lab : SourceFile
  files : List SourceFile
  lab_rel : lab.rel = labSh
  distinct : (files.map (·.rel)).Nodup
  below : ∀ f ∈ files, ∃ first ∈ sourceRoots, ∃ rest, rest ≠ [] ∧ f.rel = first :: rest
  names : ∀ f ∈ files, ∀ n ∈ f.rel, n ≠ [] ∧ '/' ∉ n ∧ n ≠ ".".toList ∧ n ≠ "..".toList

/-- `Remote.archive` -/
def archive (t : SourceTree) : List Member :=
  ((t.lab :: t.files.filter kept).mergeSort fun f g => decide (f.rel ≤ g.rel)).map tarAdd

/-! ## The script -/

/-- An entry of `entries`. -/
structure Entry where
  rel : List Name
  mode : Nat
  data : List UInt8

/-- The checks of one member. -/
def checkMember (m : Member) : Except String Entry :=
  let rel := PurePosixPath.ofText m.name
  match rel.parts with
  | [] => .error "invalid source archive member"
  | first :: _ =>
    if rel.absolute ∨ "..".toList ∈ rel.parts ∨ m.isFile = false then
      .error "invalid source archive member"
    else if first ∉ sourceRoots ∧ rel.parts ≠ labSh then
      .error "unexpected source archive member"
    else .ok ⟨rel.parts, m.mode &&& 0o777, m.data⟩

/-- The loop over the archive. -/
def entriesOf (members : List Member) : Except String (List Entry) := members.mapM checkMember

/-- Which listed files the script looks for. -/
def isStale (current : List (List Name)) (rel : PurePosixPath) : Bool :=
  !rel.absolute && decide (rel.parts ∉ current) &&
    match rel.parts with
    | [] => false
    | first :: _ => decide (first ∈ "infra".toList :: sourceRoots) || decide (rel.parts = labSh)

/-- Scripts on the workspace. -/
abbrev SyncM (H : Type) := Script (FileCall Name (Content H)) FileCall.Reply

section Script

variable {H : Type}

/-- A call. -/
def os (c : FileCall Name (Content H)) : SyncM H c.Reply := Script.perform c

def isSymlink (path : Path Name) : SyncM H Bool := os (.isSymlink path)
def pathExists (path : Path Name) : SyncM H Bool := os (.exists path)
def isFile (path : Path Name) : SyncM H Bool := os (.isFile path)

/-- The loop over the files of the provenance. -/
def removeStale (root : Location Name) (current : List (List Name)) :
    List (Option PurePosixPath) → SyncM H Unit
  | [] => pure ()
  | none :: _ => .stop "unreadable item"
  | some rel :: items => do
    if isStale current rel then
      let target := joined root rel.parts
      if ← isSymlink target then .stop "symlink in stale source destination"
      else if ← isFile target then os (.unlink target)
      else pure ()
    else pure ()
    removeStale root current items

/-- `any(p.is_symlink() for p in ...)` -/
def anySymlink : List (Location Name) → SyncM H Bool
  | [] => pure false
  | p :: ps => do if ← isSymlink p.path then pure true else anySymlink ps

/-- `directory.mkdir(parents=True, exist_ok=True)`, from the top down. -/
def mkdirs : List (Location Name) → SyncM H Unit
  | [] => pure ()
  | p :: ps => do
    os (.mkdir p.path)
    mkdirs ps

/-- The loop over the entries. -/
def extract (py : Python H) (root : Location Name) : List Entry → SyncM H Unit
  | [] => pure ()
  | e :: es => do
    let target := root ++ e.rel
    if ← anySymlink (target :: (parentsOf target).filter (· ≠ root.dropLast)) then
      .stop "symlink in source destination"
    else
      mkdirs target.dropLast.inits
      os (.write (temporary target).path (.bytes e.data) py.fileMode)
      os (.chmod (temporary target).path e.mode)
      os (.replace (temporary target).path target.path)
      extract py root es

/-- `root / 'source-provenance.json'` -/
def provenanceOf (root : Location Name) : Location Name :=
  root ++ ["source-provenance.json".toList]

/-- `root / '.lock'` -/
def lockOf (root : Location Name) : Location Name := root ++ [".lock".toList]

/-- The provenance of a set of entries. -/
def listingOf (py : Python H) (entries : List Entry) : Listing H :=
  let files := entries.map fun e => (e.rel, py.sha256 e.data)
  ⟨py.digest files, files⟩

/-- `BOOTSTRAP` from the lock to the provenance. -/
def bootstrap (py : Python H) (root : Location Name) (members : List Member) : SyncM H Unit := do
  os (.openAppend (lockOf root).path (.bytes []) py.fileMode)
  os (.lock (lockOf root).path)
  match entriesOf members with
  | .error message => .stop message
  | .ok entries =>
    if ← pathExists (provenanceOf root).path then
      let previous ← os (.readText (provenanceOf root).path)
      match py.filesOf previous with
      | none => .stop "unreadable provenance"
      | some items => removeStale root (entries.map (·.rel)) items
    else pure ()
    extract py root entries
    os (.write (provenanceOf root).path (.listing (listingOf py entries)) py.fileMode)

/-- A run of the script, from a tree, with a fault. -/
def sync (py : Python H) (root : Location Name) (members : List Member)
    (fault : Option (Nat × Cut)) (t : FileTree Name (Content H)) :
    Script.Outcome Unit (Disk Name (Content H)) :=
  (bootstrap py root members).exec Disk.machine fault ⟨t, []⟩

end Script

end LinuxMaxxing.Environment
