import Riscbox.Filesystem.Lock
import Riscbox.Filesystem.Notify

/-!
# The operations of the namespace

Every mutator of `Filesystem`, in the order of the source.  A check that fails ends
the call at once; what was written before it stays written.
-/

namespace Riscbox.Filesystem

def setTime (now : UInt64) : FsOp Unit := Op.modify fun fs => { fs with now := now }

def setMutationSource (source : ChangeSource) : FsOp Unit :=
  Op.modify fun fs => { fs with mutationSource := source }

def allocateSession : FsOp Nat := do
  let fs ← Op.get
  let next ← Op.lift (.okOr .noSpace (checkedAdd u64Max fs.nextSession 1))
  Op.set { fs with nextSession := next }
  return fs.nextSession

/-! ## Fids -/

def retainFid (id : InodeId) : FsOp Unit := do
  let fs ← Op.get
  let inode ← Op.lift (fs.inodeOf id)
  let refs ← Op.lift (.okOr .noSpace (checkedAdd u32Max inode.fidRefs 1))
  Op.set (fs.setInode id { inode with fidRefs := refs })

def releaseFid (id : InodeId) : FsOp Unit := do
  let fs ← Op.get
  let inode ← Op.lift (fs.inodeOf id)
  if inode.fidRefs = 0 then Op.fail .invalidPath
  else do
    let inode := { inode with fidRefs := inode.fidRefs - 1 }
    Op.set (fs.setInode id inode)
    if inode.fidRefs = 0 ∧ inode.linkCount = 0 then do
      let fs ← Op.get
      let logicalBytes ← Op.checkedSub fs.logicalBytes inode.kind.bodyLength
      Op.set
        { fs with
          inodes := fs.inodes.erase id
          links := fs.links.erase id
          logicalBytes := logicalBytes
          locks := fs.locks.filter (·.inode ≠ id) }
    else return ()

/-! ## Metadata -/

def applyMetadata (id : InodeId) (metadata : Metadata) : FsOp Unit := do
  let fs ← Op.get
  let inode ← Op.lift (fs.inodeOf id)
  Op.set (fs.setInode id (Metadata.apply metadata inode))

def setMetadata (id : InodeId) (update : Metadata) : FsOp Unit := do
  let fs ← Op.get
  let inode ← Op.lift (fs.inodeOf id)
  if update = Metadata.default then return ()
  else do
    Op.set (fs.setInode id (inode.changed fs.now))
    applyMetadata id update
    emitInode .metadata id fs.mutationSource

/-! ## Creation -/

def newInode (id : InodeId) (kind : InodeKind) (parent : InodeId) (mode : UInt32)
    (now : UInt64) : Inode where
  id := id
  kind := kind
  parent := if kind.isDirectory then some parent else none
  mode := mode
  uid := 1000
  gid := 1000
  version := 0
  linkCount := 1
  fidRefs := 0
  atime := now
  mtime := now
  ctime := now
  atimeNanoseconds := 0
  mtimeNanoseconds := 0
  ctimeNanoseconds := 0

/-- `self.links.entry(id).or_default().insert((parent, name))`. -/
def addLink (fs : Filesystem) (id parent : InodeId) (name : String) :
    BTreeMap InodeId (BTreeSet (InodeId × String)) :=
  fs.links.insert id ((fs.linksOf id).insert (parent, name))

def insert (parent : InodeId) (name : String) (kind : InodeKind) (mode : UInt32) :
    FsOp InodeId := do
  let fs ← Op.get
  let atCapacity := fs.limits.maxInodes ≤ fs.inodes.size ∨
    fs.limits.maxDirectoryEntries ≤ fs.directoryEntries
  let directory ← Op.lift (fs.inodeOf parent)
  match directory.kind with
  | .directory entries nextCookie =>
    if entries[name]?.isSome then Op.fail .alreadyExists
    else if atCapacity then Op.fail .noSpace
    else do
      let id := fs.nextInode
      let nextInode ← Op.lift (.okOr .noSpace (checkedAdd u64Max fs.nextInode 1))
      let followingCookie ← Op.lift (.okOr .noSpace (checkedAdd u64Max nextCookie 1))
      let entries := entries.insert name { inode := id, cookie := nextCookie }
      let fs := fs.setInode parent
        ({ directory with kind := .directory entries followingCookie }.touch fs.now)
      let fs := { fs with
        nextInode := nextInode
        directoryEntries := fs.directoryEntries + 1 }
      let fs := fs.setInode id (newInode id kind parent mode fs.now)
      Op.set { fs with links := fs.addLink id parent name }
      return id
  | _ => Op.fail .notDirectory

def createAt (parent : InodeId) (name : String) (kind : InodeKind) (mode uid gid : UInt32) :
    FsOp InodeId := do
  let path ← Op.reading (·.entryPath parent name)
  let directory ← Op.reading (·.inodeOf parent)
  let inheritedGroup := directory.mode &&& 0o2000 ≠ 0
  let gid := if inheritedGroup then directory.gid else gid
  let mode := if inheritedGroup ∧ kind.isDirectory then mode ||| 0o2000 else mode
  let id ← insert parent name kind (mode &&& 0o7777)
  let fs ← Op.get
  let inode ← Op.lift (.expect fs.inodes[id]?)
  Op.set (fs.setInode id { inode with uid := uid, gid := gid })
  emit .create (some id) path none fs.mutationSource
  return id

def createFileAt (parent : InodeId) (name : String) (mode uid gid : UInt32) : FsOp InodeId :=
  createAt parent name (.file []) mode uid gid

def mkdirAt (parent : InodeId) (name : String) (mode uid gid : UInt32) : FsOp InodeId :=
  createAt parent name (.directory ∅ 1) mode uid gid

def symlinkAt (parent : InodeId) (name target : String) (uid gid : UInt32) : FsOp InodeId :=
  if '\x00' ∈ target.toList ∨ maxTargetBytes < target.utf8ByteSize then Op.fail .invalidPath
  else createAt parent name (.symlink target) 0o777 uid gid

def mkdir (path : String) : FsOp InodeId := do
  let (parent, name) ← Op.reading (·.parent path)
  mkdirAt parent name 0o755 1000 1000

def symlink (path target : String) : FsOp InodeId := do
  let (parent, name) ← Op.reading (·.parent path)
  symlinkAt parent name target 1000 1000

/-- The length of the file that `write_file` replaces; a new file replaces nothing. -/
def replacedSize (fs : Filesystem) : Option InodeId → Outcome FilesystemError Nat
  | none => .ok 0
  | some id => do
    let inode ← fs.inodeOf id
    match inode.kind with
    | .file body => .ok body.length
    | _ => .err .isDirectory

def writeFile (path : String) (bytes : List UInt8) : FsOp InodeId := do
  let fs ← Op.get
  if fs.limits.maxFileBytes < bytes.length then Op.fail .fileTooLarge
  else do
    let (parent, name) ← Op.lift (fs.parent path)
    let directory ← Op.lift (fs.inodeOf parent)
    match directory.kind with
    | .directory entries _ =>
      let existing := entries[name]?.map (·.inode)
      let oldSize ← Op.lift (fs.replacedSize existing)
      let remaining ← Op.checkedSub fs.logicalBytes oldSize
      let newTotal ← Op.lift (.okOr .noSpace (checkedAdd usizeMax remaining bytes.length))
      if fs.limits.maxTreeBytes < newTotal then Op.fail .noSpace
      else do
        let (id, kind) ← match existing with
          | some id => do
            let inode ← Op.lift (fs.inodeOf id)
            Op.set (fs.setInode id ({ inode with kind := .file bytes }.touch fs.now))
            pure (id, ChangeKind.write)
          | none => do
            let id ← insert parent name (.file bytes) 0o644
            pure (id, ChangeKind.create)
        Op.modify fun fs => { fs with logicalBytes := newTotal }
        emit kind (some id) path none fs.mutationSource
        return id
    | _ => Op.fail .notDirectory

/-! ## Removal -/

/-- The reverse links after one is removed; an empty set is not stored. -/
def dropLink (fs : Filesystem) (id parent : InodeId) (name : String) :
    BTreeMap InodeId (BTreeSet (InodeId × String)) :=
  match fs.links[id]? with
  | some links =>
    let links := links.erase (parent, name)
    if links.isEmpty then fs.links.erase id else fs.links.insert id links
  | none => fs.links

def removeAt (parent : InodeId) (name : String) : FsOp Unit := do
  let path ← Op.reading (·.entryPath parent name)
  let fs ← Op.get
  let directory ← Op.lift (fs.inodeOf parent)
  match directory.kind with
  | .directory entries nextCookie => do
    let entry ← Op.lift (.okOr .notFound entries[name]?)
    let id := entry.inode
    let inode ← Op.lift (fs.inodeOf id)
    if inode.kind.isDirectory ∧ !inode.kind.entries.isEmpty then Op.fail .notEmpty
    else do
      let oldSize := inode.kind.bodyLength
      let fs := fs.setInode parent
        ({ directory with kind := .directory (entries.erase name) nextCookie }.touch fs.now)
      Op.set { fs with links := fs.dropLink id parent name }
      let directoryEntries ← Op.checkedSub fs.directoryEntries 1
      Op.modify fun fs => { fs with directoryEntries := directoryEntries }
      let fs ← Op.get
      let inode ← Op.lift (fs.inodeOf id)
      let linkCount ← Op.checkedSub inode.linkCount 1
      let inode := { inode with linkCount := linkCount }.changed fs.now
      let inode := if inode.linkCount = 0 then { inode with parent := none } else inode
      Op.set (fs.setInode id inode)
      if inode.linkCount = 0 ∧ inode.fidRefs = 0 then do
        let fs ← Op.get
        Op.set { fs with inodes := fs.inodes.erase id }
        let logicalBytes ← Op.checkedSub fs.logicalBytes oldSize
        Op.modify fun fs => { fs with
          logicalBytes := logicalBytes
          locks := fs.locks.filter (·.inode ≠ id) }
        emit .remove (some id) path none fs.mutationSource
      else emit .remove (some id) path none fs.mutationSource
  | _ => Op.fail .notDirectory

def remove (path : String) : FsOp Unit := do
  let (parent, name) ← Op.reading (·.parent path)
  removeAt parent name

/-! ## Links and renames -/

def linkAt (parent : InodeId) (name : String) (id : InodeId) : FsOp Unit := do
  let newPath ← Op.reading (·.entryPath parent name)
  let fs ← Op.get
  let inode ← Op.lift (fs.inodeOf id)
  if inode.kind.isDirectory then Op.fail .isDirectory
  else do
    let nextLinks ← Op.lift (.okOr .noSpace (checkedAdd u32Max inode.linkCount 1))
    let atCapacity := fs.limits.maxDirectoryEntries ≤ fs.directoryEntries
    let directory ← Op.lift (fs.inodeOf parent)
    match directory.kind with
    | .directory entries nextCookie =>
      if entries[name]?.isSome then Op.fail .alreadyExists
      else if atCapacity then Op.fail .noSpace
      else do
        let followingCookie ← Op.lift (.okOr .noSpace (checkedAdd u64Max nextCookie 1))
        let entries := entries.insert name { inode := id, cookie := nextCookie }
        let fs := fs.setInode parent
          ({ directory with kind := .directory entries followingCookie }.touch fs.now)
        Op.set { fs with directoryEntries := fs.directoryEntries + 1 }
        let fs ← Op.get
        let inode ← Op.lift (fs.inodeOf id)
        let fs := fs.setInode id ({ inode with linkCount := nextLinks }.changed fs.now)
        Op.set { fs with links := fs.addLink id parent name }
        emit .create (some id) newPath none fs.mutationSource
    | _ => Op.fail .notDirectory

def hardLink (existing newPath : String) : FsOp Unit := do
  let id ← Op.reading (·.lookup existing)
  let (parent, name) ← Op.reading (·.parent newPath)
  linkAt parent name id

/-- The ancestor loop of `rename_at`. -/
def checkAncestors (fs : Filesystem) (moving : InodeId) :
    Nat → Option InodeId → Outcome FilesystemError Unit
  | _, none => .ok ()
  | 0, some _ => .panic
  | fuel + 1, some id =>
    if id = moving then .err .invalidPath
    else fs.checkAncestors moving fuel (fs.parentInode id)

/-- May an entry for `moving` replace one for `destination`? -/
def checkReplace (moving destination : InodeKind) : Outcome FilesystemError Unit :=
  match moving, destination with
  | .directory _ _, .directory entries _ =>
    if !entries.isEmpty then .err .notEmpty else .ok ()
  | .directory _ _, _ => .err .notDirectory
  | _, .directory _ _ => .err .isDirectory
  | _, _ => .ok ()

/-- The reverse links after the moved entry changes its place. -/
def moveLink (fs : Filesystem) (id oldParent : InodeId) (oldName : String)
    (newParent : InodeId) (newName : String) :
    BTreeMap InodeId (BTreeSet (InodeId × String)) :=
  match fs.links[id]? with
  | some links => fs.links.insert id ((links.erase (oldParent, oldName)).insert (newParent, newName))
  | none => fs.links

/-- The writes of `rename_at`, after the replaced entry is gone. -/
def moveEntry (oldParent : InodeId) (oldName : String) (newParent : InodeId) (newName : String)
    (moved : InodeId) (cookie : Nat) : FsOp Unit := do
  let fs ← Op.get
  let directory ← Op.lift (fs.inodeOf oldParent)
  match directory.kind with
  | .directory entries nextCookie => do
    let fs := fs.setInode oldParent
      ({ directory with kind := .directory (entries.erase oldName) nextCookie }.touch fs.now)
    Op.set { fs with links := fs.moveLink moved oldParent oldName newParent newName }
    let fs ← Op.get
    let directory ← Op.lift (fs.inodeOf newParent)
    match directory.kind with
    | .directory entries nextCookie => do
      let entries := entries.insert newName { inode := moved, cookie := cookie }
      let nextCookie := if oldParent ≠ newParent then nextCookie + 1 else nextCookie
      Op.set (fs.setInode newParent
        ({ directory with kind := .directory entries nextCookie }.touch fs.now))
      let fs ← Op.get
      let inode ← Op.lift (fs.inodeOf moved)
      let inode :=
        if inode.kind.isDirectory then { inode with parent := some newParent } else inode
      Op.set (fs.setInode moved (inode.changed fs.now))
    | _ => Op.fail .notDirectory
  | _ => Op.fail .notDirectory

def renameAt (oldParent : InodeId) (oldName : String) (newParent : InodeId) (newName : String) :
    FsOp Unit := do
  let oldPath ← Op.reading (·.entryPath oldParent oldName)
  let newPath ← Op.reading (·.entryPath newParent newName)
  let fs ← Op.get
  let oldDirectory ← Op.lift (fs.inodeOf oldParent)
  match oldDirectory.kind with
  | .directory oldEntries _ => do
    let oldEntry ← Op.lift (.okOr .notFound oldEntries[oldName]?)
    let moving ← Op.lift (fs.inodeOf oldEntry.inode)
    Op.lift (if moving.kind.isDirectory then
      fs.checkAncestors moving.id (fs.inodes.size + 1) (some newParent) else .ok ())
    let newDirectory ← Op.lift (fs.inodeOf newParent)
    match newDirectory.kind with
    | .directory entries nextCookie => do
      let replaced := entries[newName]?.map (·.inode)
      if replaced = some oldEntry.inode then return ()
      else do
        Op.lift (match replaced with
          | some replacedId => do
            let destination ← fs.inodeOf replacedId
            checkReplace moving.kind destination.kind
          | none => .ok ())
        let cookie := if oldParent = newParent then oldEntry.cookie else nextCookie
        Op.lift (if oldParent ≠ newParent then
          (Outcome.okOr .noSpace (checkedAdd u64Max nextCookie 1)) >>= fun _ => .ok ()
          else .ok ())
        if replaced.isSome then removeAt newParent newName
        moveEntry oldParent oldName newParent newName oldEntry.inode cookie
        emit .rename (some oldEntry.inode) newPath (some oldPath) fs.mutationSource
    | _ => Op.fail .notDirectory
  | _ => Op.fail .notDirectory

def rename (oldPath newPath : String) : FsOp Unit := do
  let (oldParent, oldName) ← Op.reading (·.parent oldPath)
  let (newParent, newName) ← Op.reading (·.parent newPath)
  renameAt oldParent oldName newParent newName

/-! ## Clearing and resetting -/

/-- The loop of `clear` over the entries of one directory. -/
def gatherEntries (fs : Filesystem) (parent : InodeId) :
    List (String × DirectoryEntry) → List InodeId → List (InodeId × String) →
      Outcome FilesystemError (List InodeId × List (InodeId × String))
  | [], directories, removals => .ok (directories, removals)
  | (name, entry) :: rest, directories, removals => do
    let child ← fs.inodeOf entry.inode
    let directories := if child.kind.isDirectory then entry.inode :: directories else directories
    fs.gatherEntries parent rest directories (removals ++ [(parent, name)])

/-- The loop of `clear` over its stack of directories; the top is the head. -/
def gatherRemovals (fs : Filesystem) :
    Nat → List InodeId → List (InodeId × String) →
      Outcome FilesystemError (List (InodeId × String))
  | _, [], removals => .ok removals
  | 0, _ :: _, _ => .panic
  | fuel + 1, parent :: directories, removals => do
    let inode ← fs.inodeOf parent
    match inode.kind with
    | .directory entries _ => do
      let (directories, removals) ← fs.gatherEntries parent entries.toList directories removals
      fs.gatherRemovals fuel directories removals
    | _ => .err .notDirectory

def removeAll : List (InodeId × String) → FsOp Unit
  | [] => return ()
  | (parent, name) :: rest => do
    removeAt parent name
    removeAll rest

def clear : FsOp Unit := do
  let removals ← Op.reading fun fs => fs.gatherRemovals fs.inodes.size [fs.root] []
  removeAll removals.reverse

def replaceRoot (id : Nat) : FsOp Unit := do
  let fs ← Op.get
  let next ← Op.lift (.okOr .noSpace (checkedAdd u64Max id 1))
  let root ← Op.lift (.expect fs.inodes[fs.root]?)
  Op.set
    { fs with
      inodes := (fs.inodes.erase fs.root).insert id { root with id := id }
      root := id
      nextInode := next }

def reset : FsOp Unit := do
  let fs ← Op.get
  let generation ← Op.lift (.okOr .noSpace (checkedAdd u64Max fs.generation 1))
  let followingInode ← Op.lift (.okOr .noSpace (checkedAdd u64Max fs.nextInode 1))
  Op.set { new fs.identity fs.limits fs.now with nextSession := fs.nextSession }
  replaceRoot fs.nextInode
  Op.modify fun t =>
    { t with
      nextInode := followingInode
      generation := generation
      mutationSource := fs.mutationSource
      recordChanges := fs.recordChanges }
  emit .reset none "" none fs.mutationSource

/-! ## File contents -/

/-- `&bytes[start..end]`, which panics outside the slice. -/
def slice (bytes : List UInt8) (first last : Nat) : Outcome FilesystemError (List UInt8) :=
  if first ≤ last ∧ last ≤ bytes.length then .ok ((bytes.drop first).take (last - first))
  else .panic

/-- `usize::try_from(value)` for a `u64` file size or offset. -/
def toUsize (value : Nat) : Outcome FilesystemError Nat :=
  if value ≤ usizeMax then .ok value else .err .fileTooLarge

def readInode (id : InodeId) (offset : UInt64) (count : Nat) (updateAtime : Bool) :
    FsOp (List UInt8) := do
  let fs ← Op.get
  let inode ← Op.lift (fs.inodeOf id)
  match inode.kind with
  | .file bytes =>
    if count = 0 ∨ bytes.length ≤ offset.toNat then return []
    else do
      if updateAtime then
        Op.set (fs.setInode id { inode with atime := fs.now, atimeNanoseconds := 0 })
      let start ← Op.lift (toUsize offset.toNat)
      let left ← Op.checkedSub bytes.length start
      Op.lift (slice bytes start (start + min count left))
  | _ => Op.fail .isDirectory

def validateResize (fs : Filesystem) (id : InodeId) (size : Nat) :
    Outcome FilesystemError Nat := do
  let body ← fs.fileBody id
  let size ← toUsize size
  if fs.limits.maxFileBytes < size then .err .fileTooLarge
  else if fs.logicalBytes < body.length then .panic
  else do
    let total ← Outcome.okOr .noSpace
      (checkedAdd usizeMax (fs.logicalBytes - body.length) size)
    if fs.limits.maxTreeBytes < total then .err .noSpace else .ok size

def validateWrite (fs : Filesystem) (id : InodeId) (offset : UInt64) (count : Nat)
    (append : Bool) : Outcome FilesystemError Nat := do
  let body ← fs.fileBody id
  let old := body.length
  if count = 0 then .ok old
  else do
    let offset := if append then old else offset.toNat
    let finish ← Outcome.okOr .fileTooLarge (checkedAdd u64Max offset count)
    fs.validateResize id (max finish old)

/-- `Vec::resize(size, 0)`. -/
def resize (bytes : List UInt8) (size : Nat) : List UInt8 :=
  bytes.take size ++ List.replicate (size - bytes.length) 0

/-- `bytes[start..start + data.len()].copy_from_slice(data)`. -/
def copyAt (bytes : List UInt8) (start : Nat) (data : List UInt8) :
    Outcome FilesystemError (List UInt8) :=
  if start + data.length ≤ bytes.length then
    .ok (bytes.take start ++ data ++ bytes.drop (start + data.length))
  else .panic

def writeInode (id : InodeId) (offset : UInt64) (data : List UInt8) (append : Bool) :
    FsOp Unit := do
  let fs ← Op.get
  let size ← Op.lift (fs.validateWrite id offset data.length append)
  if data = [] then return ()
  else do
    let inode ← Op.lift (fs.inodeOf id)
    match inode.kind with
    | .file bytes => do
      let old := bytes.length
      let start ← if append then pure old else Op.lift (toUsize offset.toNat)
      let bytes ← Op.lift (copyAt (resize bytes size) start data)
      let remaining ← Op.checkedSub fs.logicalBytes old
      let fs := { fs with logicalBytes := remaining + size }
      Op.set (fs.setInode id ({ inode with kind := .file bytes }.touch fs.now))
      emitInode .write id fs.mutationSource
    | _ => Op.fail .isDirectory

def updateAttributes (id : InodeId) (update : AttributeUpdate) : FsOp Unit := do
  let fs ← Op.get
  let size ← match update.size with
    | some size => do
      let size ← Op.lift (fs.validateResize id size.toNat)
      pure (some size)
    | none => pure none
  let inode ← Op.lift (fs.inodeOf id)
  if update = AttributeUpdate.default then return ()
  else
    match size with
    | some size =>
      match inode.kind with
      | .file body => do
        let remaining ← Op.checkedSub fs.logicalBytes body.length
        let fs := { fs with logicalBytes := remaining + size }
        let inode := { inode with
          kind := .file (resize body size), mtime := fs.now, mtimeNanoseconds := 0 }
        Op.set (fs.setInode id (AttributeUpdate.apply update fs.now inode))
        emitInode .write id fs.mutationSource
      | _ => Op.fail .isDirectory
    | none => do
      Op.set (fs.setInode id (AttributeUpdate.apply update fs.now inode))
      emitInode .metadata id fs.mutationSource

end Riscbox.Filesystem
