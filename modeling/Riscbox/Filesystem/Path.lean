import Riscbox.Filesystem.Types

/-!
# Names, paths and lookups

The read-only half of the namespace: the checks on names, the splitting of a path
into names, the lookups that follow entries downwards, and `pathsOf`, which follows
the reverse links upwards.
-/

namespace Riscbox.Filesystem

/-- The checks that `child` and `entry_path` make on one literal name. -/
def checkName (name : String) : Outcome FilesystemError Unit :=
  if name = "" ∨ name = "." ∨ name = ".." ∨ '/' ∈ name.toList ∨ '\x00' ∈ name.toList then
    .err .invalidPath
  else if maxNameBytes < name.utf8ByteSize then .err .nameTooLong
  else .ok ()

/-- `path.split('/')` on the characters of a path. -/
def splitSlash : List Char → List (List Char)
  | [] => [[]]
  | c :: rest =>
    if c = '/' then [] :: splitSlash rest
    else
      match splitSlash rest with
      | [] => [[c]]
      | part :: parts => (c :: part) :: parts

def parts (path : String) : Outcome FilesystemError (List String) :=
  if '\x00' ∈ path.toList then .err .invalidPath
  else
    let relative := if path.toList.head? = some '/' then path.toList.tail else path.toList
    if relative = [] then .ok []
    else
      let parts := (splitSlash relative).map String.ofList
      if parts.any (fun part => part = "" ∨ part = "." ∨ part = "..") then .err .invalidPath
      else if parts.any (fun part => maxNameBytes < part.utf8ByteSize) then .err .nameTooLong
      else .ok parts

/-- The loop of `lookup` over the names of a path. -/
def lookupParts (fs : Filesystem) : InodeId → List String → Outcome FilesystemError InodeId
  | current, [] => .ok current
  | current, part :: rest => do
    let inode ← fs.inodeOf current
    match inode.kind with
    | .directory entries _ =>
      let entry ← Outcome.okOr .notFound entries[part]?
      fs.lookupParts entry.inode rest
    | _ => .err .notDirectory

def lookup (fs : Filesystem) (path : String) : Outcome FilesystemError InodeId := do
  let parts ← parts path
  fs.lookupParts fs.root parts

def child (fs : Filesystem) (parent : InodeId) (name : String) :
    Outcome FilesystemError InodeId := do
  checkName name
  let inode ← fs.inodeOf parent
  match inode.kind with
  | .directory entries _ =>
    let entry ← Outcome.okOr .notFound entries[name]?
    .ok entry.inode
  | _ => .err .notDirectory

/-- The parent directory of a path, and the last name. -/
def parent (fs : Filesystem) (path : String) :
    Outcome FilesystemError (InodeId × String) := do
  let parts ← parts path
  let name ← Outcome.okOr .invalidPath parts.getLast?
  let parent ← fs.lookup ("/".intercalate parts.dropLast)
  .ok (parent, name)

def directoryEntriesOf (fs : Filesystem) (id : InodeId) :
    Outcome FilesystemError (List ListedEntry) := do
  let inode ← fs.inodeOf id
  match inode.kind with
  | .directory entries _ =>
    let listed := entries.toList.map fun p =>
      { name := p.1, inode := p.2.inode, cookie := p.2.cookie : ListedEntry }
    .ok (listed.insertionSort fun a b => a.cookie ≤ b.cookie)
  | _ => .err .notDirectory

def fileBody (fs : Filesystem) (id : InodeId) : Outcome FilesystemError (List UInt8) := do
  let inode ← fs.inodeOf id
  match inode.kind with
  | .file body => .ok body
  | _ => .err .isDirectory

/-! ## Paths of an inode -/

/-- A name in front of the part of the path already collected. -/
def joinSuffix (name suffix : String) : String :=
  if suffix = "" then name else name ++ "/" ++ suffix

/-- The loop of `paths_of`.  The top of the stack is its head; the links of an inode
are pushed in their order, so the last one is visited first. -/
def climbLinks (fs : Filesystem) :
    Nat → List (InodeId × String) → List String → Option (List String)
  | _, [], result => some result
  | 0, _ :: _, _ => none
  | fuel + 1, (id, suffix) :: ancestors, result =>
    if id = fs.root then fs.climbLinks fuel ancestors (result ++ [suffix])
    else
      let aliases := (fs.linksOf id).toList.map fun link => (link.1, joinSuffix link.2 suffix)
      fs.climbLinks fuel (aliases.reverse ++ ancestors) result

/-- Enough for every alias of the target to climb through every directory. -/
def climbFuel (fs : Filesystem) (target : InodeId) : Nat :=
  1 + (fs.linksOf target).size * fs.inodes.size

/-- Every current path of an inode; `none` when the climb does not end. -/
def pathsOf (fs : Filesystem) (target : InodeId) : Option (List String) :=
  if target = fs.root then some [""]
  else
    (fs.climbLinks (fs.climbFuel target) [(target, "")] []).map
      (·.insertionSort (· ≤ ·))

/-- The path of an entry, for notifications.  The checks that every namespace
operation makes on a parent and a name are here. -/
def entryPath (fs : Filesystem) (parent : InodeId) (name : String) :
    Outcome FilesystemError String := do
  checkName name
  let directory ← fs.inodeOf parent
  if !directory.kind.isDirectory then .err .notDirectory
  else if directory.linkCount = 0 then .err .notFound
  else if !fs.recordChanges then .ok ""
  else do
    let paths ← Outcome.expect (fs.pathsOf parent)
    let pre ← Outcome.okOr .notFound paths.head?
    .ok (if pre = "" then name else pre ++ "/" ++ name)

end Riscbox.Filesystem
