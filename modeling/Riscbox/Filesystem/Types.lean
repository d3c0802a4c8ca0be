import Riscbox.Collections.OrderedMap
import Riscbox.Program.Outcome

/-!
# The namespace of a 9p share

The state behind `src/ninep.rs`.  Inode numbers, cookies, counters and lengths are
natural numbers, with the machine bound written out wherever the source checks it.
Modes, owners, versions and times are only copied, masked and wrapped, and keep the
width of the source.  The runtime is shipped for `wasm32`, so `usize` has 32 bits.
-/

namespace Riscbox

def usizeMax : Nat := 2 ^ 32 - 1

def u32Max : Nat := 2 ^ 32 - 1

def u64Max : Nat := 2 ^ 64 - 1

def maxNameBytes : Nat := 255

/-- The longest symlink target that fits one protocol message. -/
def maxTargetBytes : Nat := 65535

/-- `checked_add` on a type whose largest value is `max`. -/
def checkedAdd (max a b : Nat) : Option Nat := if a + b ≤ max then some (a + b) else none

theorem checkedAdd_eq_some {max a b c : Nat} :
    checkedAdd max a b = some c ↔ a + b ≤ max ∧ c = a + b := by
  unfold checkedAdd
  split <;> simp_all [eq_comm]

inductive FilesystemError where
  | invalidPath
  | notFound
  | notDirectory
  | isDirectory
  | alreadyExists
  | notEmpty
  | fileTooLarge
  | noSpace
  | nameTooLong
  deriving DecidableEq, Repr

/-- A timestamp, with its nanoseconds inside one second. -/
structure FileTime where
  seconds : UInt64
  nanoseconds : UInt32
  bounded : nanoseconds.toNat < 1000000000
  deriving DecidableEq

def FileTime.new (seconds nanoseconds : UInt64) : Outcome FilesystemError FileTime :=
  if h : nanoseconds.toNat ≥ 1000000000 then .err .invalidPath
  else .ok
    { seconds := seconds
      nanoseconds := nanoseconds.toUInt32
      bounded := by rw [UInt64.toNat_toUInt32]; omega }

inductive TimeUpdate where
  | current
  | explicit (time : FileTime)
  deriving DecidableEq

structure AttributeUpdate where
  mode : Option UInt32
  uid : Option UInt32
  gid : Option UInt32
  size : Option UInt64
  atime : Option TimeUpdate
  mtime : Option TimeUpdate
  changeCtime : Bool
  deriving DecidableEq

def AttributeUpdate.default : AttributeUpdate :=
  { mode := none, uid := none, gid := none, size := none, atime := none, mtime := none,
    changeCtime := false }

structure Metadata where
  mode : Option UInt32
  uid : Option UInt32
  gid : Option UInt32
  atime : Option UInt64
  mtime : Option UInt64
  ctime : Option UInt64
  deriving DecidableEq

def Metadata.default : Metadata :=
  { mode := none, uid := none, gid := none, atime := none, mtime := none, ctime := none }

abbrev InodeId : Type := Nat

structure DirectoryEntry where
  inode : InodeId
  cookie : Nat
  deriving DecidableEq, Repr

structure ListedEntry where
  name : String
  inode : InodeId
  cookie : Nat
  deriving DecidableEq, Repr

abbrev Entries : Type := BTreeMap String DirectoryEntry

inductive InodeKind where
  | directory (entries : Entries) (nextCookie : Nat)
  | file (body : List UInt8)
  | symlink (target : String)

namespace InodeKind

def isDirectory : InodeKind → Bool
  | directory _ _ => true
  | _ => false

def isFile : InodeKind → Bool
  | file _ => true
  | _ => false

/-- The length counted against the tree quota: only regular files hold bytes. -/
def bodyLength : InodeKind → Nat
  | file body => body.length
  | _ => 0

def targetLength : InodeKind → Nat
  | symlink target => target.utf8ByteSize
  | _ => 0

/-- The entries of a directory; other inodes have none. -/
def entries : InodeKind → Entries
  | directory entries _ => entries
  | _ => ∅

def nextCookie : InodeKind → Nat
  | directory _ nextCookie => nextCookie
  | _ => 0

end InodeKind

structure Inode where
  id : InodeId
  kind : InodeKind
  parent : Option InodeId
  mode : UInt32
  uid : UInt32
  gid : UInt32
  version : UInt32
  linkCount : Nat
  fidRefs : Nat
  atime : UInt64
  mtime : UInt64
  ctime : UInt64
  atimeNanoseconds : UInt32
  mtimeNanoseconds : UInt32
  ctimeNanoseconds : UInt32

namespace Inode

def size (inode : Inode) : Nat :=
  match inode.kind with
  | .file body => body.length
  | .symlink target => target.utf8ByteSize
  | .directory _ _ => 0

def touch (inode : Inode) (now : UInt64) : Inode :=
  { inode with
    version := inode.version + 1
    mtime := now
    ctime := now
    mtimeNanoseconds := 0
    ctimeNanoseconds := 0 }

/-- The change time and version written by an unlink, a link and a rename. -/
def changed (inode : Inode) (now : UInt64) : Inode :=
  { inode with ctime := now, ctimeNanoseconds := 0, version := inode.version + 1 }

end Inode

/-- The writes of `apply_metadata`. -/
def Metadata.apply (metadata : Metadata) (inode : Inode) : Inode :=
  let inode := match metadata.mode with
    | some mode => { inode with mode := mode &&& 0o7777 }
    | none => inode
  let inode := match metadata.uid with
    | some uid => { inode with uid := uid }
    | none => inode
  let inode := match metadata.gid with
    | some gid => { inode with gid := gid }
    | none => inode
  let inode := match metadata.atime with
    | some atime => { inode with atime := atime, atimeNanoseconds := 0 }
    | none => inode
  let inode := match metadata.mtime with
    | some mtime => { inode with mtime := mtime, mtimeNanoseconds := 0 }
    | none => inode
  match metadata.ctime with
    | some ctime => { inode with ctime := ctime, ctimeNanoseconds := 0 }
    | none => inode

/-- The value a time update stands for. -/
def TimeUpdate.resolve (now : UInt64) : TimeUpdate → UInt64 × UInt32
  | .current => (now, 0)
  | .explicit time => (time.seconds, time.nanoseconds)

/-- The fields of an attribute update other than its size. -/
def AttributeUpdate.apply (update : AttributeUpdate) (now : UInt64) (inode : Inode) : Inode :=
  let inode := match update.mode with
    | some mode => { inode with mode := mode &&& 0o7777 }
    | none => inode
  let inode := match update.uid with
    | some uid => { inode with uid := uid }
    | none => inode
  let inode := match update.gid with
    | some gid => { inode with gid := gid }
    | none => inode
  let inode := match update.atime with
    | some time =>
      { inode with atime := (time.resolve now).1, atimeNanoseconds := (time.resolve now).2 }
    | none => inode
  let inode := match update.mtime with
    | some time =>
      { inode with mtime := (time.resolve now).1, mtimeNanoseconds := (time.resolve now).2 }
    | none => inode
  inode.changed now

inductive LockKind where
  | read
  | write
  deriving DecidableEq, Repr

structure ByteRangeLock where
  inode : InodeId
  session : Nat
  kind : LockKind
  start : UInt64
  length : UInt64
  process : UInt32
  client : String
  deriving DecidableEq

/-- Quotas.  Each is a `usize`. -/
structure Limits where
  maxFileBytes : Nat
  maxTreeBytes : Nat
  maxInodes : Nat
  maxDirectoryEntries : Nat
  maxFileBytes_le : maxFileBytes ≤ usizeMax
  maxTreeBytes_le : maxTreeBytes ≤ usizeMax
  maxInodes_le : maxInodes ≤ usizeMax
  maxDirectoryEntries_le : maxDirectoryEntries ≤ usizeMax

def Limits.default : Limits where
  maxFileBytes := 256 * 1024 * 1024
  maxTreeBytes := 1024 * 1024 * 1024
  maxInodes := 2 ^ 20
  maxDirectoryEntries := 2 ^ 20
  maxFileBytes_le := by decide
  maxTreeBytes_le := by decide
  maxInodes_le := by decide
  maxDirectoryEntries_le := by decide

inductive ChangeKind where
  | create
  | write
  | metadata
  | remove
  | rename
  | reset
  | rescan
  deriving DecidableEq, Repr

inductive ChangeSource where
  | host
  | hostOrigin (origin : UInt64)
  | guest
  deriving DecidableEq

structure Change where
  kind : ChangeKind
  inode : Option InodeId
  path : String
  oldPath : Option String
  paths : List String
  source : ChangeSource
  deriving DecidableEq

structure SpaceUsage where
  maximumBytes : Nat
  usedBytes : Nat
  maximumInodes : Nat
  usedInodes : Nat

/-- The front of `changes` is its head.  `identity` is the allocation that the
lifetime token of the source points to. -/
structure Filesystem where
  identity : Nat
  nextSession : Nat
  inodes : BTreeMap InodeId Inode
  links : BTreeMap InodeId (BTreeSet (InodeId × String))
  root : InodeId
  nextInode : Nat
  generation : Nat
  limits : Limits
  logicalBytes : Nat
  directoryEntries : Nat
  locks : List ByteRangeLock
  changes : List Change
  now : UInt64
  mutationSource : ChangeSource
  recordChanges : Bool

abbrev FsOp (α : Type) : Type := Op Filesystem FilesystemError α

namespace Filesystem

def rootInode (root : InodeId) (now : UInt64) : Inode where
  id := root
  kind := .directory ∅ 1
  parent := none
  mode := 0o755
  uid := 1000
  gid := 1000
  version := 0
  linkCount := 1
  fidRefs := 0
  atime := now
  mtime := now
  ctime := now
  atimeNanoseconds := 0
  mtimeNanoseconds := 0
  ctimeNanoseconds := 0

def new (identity : Nat) (limits : Limits) (now : UInt64) : Filesystem where
  identity := identity
  nextSession := 1
  inodes := (∅ : BTreeMap InodeId Inode).insert 1 (rootInode 1 now)
  links := ∅
  root := 1
  nextInode := 2
  generation := 1
  limits := limits
  logicalBytes := 0
  directoryEntries := 0
  locks := []
  changes := []
  now := now
  mutationSource := .host
  recordChanges := true

/-- A write through `inodes.get_mut` or `inodes.insert`. -/
def setInode (fs : Filesystem) (id : InodeId) (inode : Inode) : Filesystem :=
  { fs with inodes := fs.inodes.insert id inode }

/-- The reverse links of an inode; a missing key stands for the empty set. -/
def linksOf (fs : Filesystem) (id : InodeId) : BTreeSet (InodeId × String) :=
  fs.links[id]?.getD ∅

/-- `self.inodes.get(&id).ok_or(NotFound)`. -/
def inodeOf (fs : Filesystem) (id : InodeId) : Outcome FilesystemError Inode :=
  .okOr .notFound fs.inodes[id]?

def parentInode (fs : Filesystem) (id : InodeId) : Option InodeId :=
  fs.inodes[id]?.bind (·.parent)

def spaceUsage (fs : Filesystem) : SpaceUsage where
  maximumBytes := fs.limits.maxTreeBytes
  usedBytes := fs.logicalBytes
  maximumInodes := fs.limits.maxInodes
  usedInodes := fs.inodes.size

end Filesystem

end Riscbox
