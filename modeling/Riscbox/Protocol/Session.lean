import Riscbox.Filesystem.Mutate
import Riscbox.Protocol.Request

/-!
# Sessions

A session of the 9P2000.L server of `src/ninep_protocol.rs`, and what one request does to
it and to the namespace.  A request runs to its end before the next one.  The reply is
passed from step to step; an error drops it.
-/

namespace Riscbox

def maxMessageSize : Nat := 64 * 1024

def maxFids : Nat := 65536

def NOTAG : UInt16 := 0xffff

def NOFID : UInt32 := 0xffffffff

inductive ProtocolError where
  | malformed
  | replyTooSmall
  | wrongFilesystem
  | closed
  | invariant
  deriving DecidableEq, Repr

inductive Access where
  | read
  | write
  | readWrite
  deriving DecidableEq

structure OpenFlags where
  access : Access
  raw : UInt32
  deriving DecidableEq

namespace OpenFlags

def readable (flags : OpenFlags) : Bool := flags.access = .read ∨ flags.access = .readWrite

def writable (flags : OpenFlags) : Bool := flags.access = .write ∨ flags.access = .readWrite

def append (flags : OpenFlags) : Bool := flags.raw &&& 0x400 ≠ 0

def truncate (flags : OpenFlags) : Bool := flags.raw &&& 0x200 ≠ 0

def directory (flags : OpenFlags) : Bool := flags.raw &&& 0x10000 ≠ 0

def noAtime (flags : OpenFlags) : Bool := flags.raw &&& 0x40000 ≠ 0

def access? (raw : UInt32) : Wire Access :=
  let low := raw &&& 3
  if low = 0 then .ok .read
  else if low = 1 then .ok .write
  else if low = 2 then .ok .readWrite
  else .err EINVAL

def parse (raw : UInt32) : Wire OpenFlags :=
  if raw &&& ~~~0x001fffff ≠ 0 then .err EOPNOTSUPP
  else do
    let access ← access? raw
    let result : OpenFlags := { access := access, raw := raw }
    if result.truncate ∧ !result.writable then .err EINVAL
    else .ok result

end OpenFlags

/-- `opened` is the source's `open`. -/
structure Fid where
  inode : InodeId
  uid : UInt32
  opened : Option OpenFlags
  deriving DecidableEq

inductive IoOperation where
  | read (inode : InodeId) (offset : UInt64) (count : Nat) (noAtime : Bool)
  | write (inode : InodeId) (offset : UInt64) (data : List UInt8) (append : Bool)
  | attributes (inode : InodeId) (update : AttributeUpdate)

structure NinePSession where
  identity : Nat
  generation : Nat
  session : Nat
  fids : BTreeMap UInt32 Fid
  msize : Nat
  negotiated : Bool
  closed : Bool

/-- What one request works on. -/
structure Activation where
  session : NinePSession
  fs : Filesystem

abbrev SessionOp (ε α : Type) : Type := Op Activation ε α

/-- A call on the namespace, with its error translated. -/
def onFs {ε α : Type} (translate : FilesystemError → ε) (x : FsOp α) : SessionOp ε α := fun a =>
  ((x a.fs).1.mapErr translate, { a with fs := (x a.fs).2 })

def modifySession {ε : Type} (f : NinePSession → NinePSession) : SessionOp ε Unit :=
  Op.modify fun a => { a with session := f a.session }

namespace NinePSession

def new : FsOp NinePSession := do
  let fs ← Op.get
  let session ← Filesystem.allocateSession
  return {
    identity := fs.identity
    generation := fs.generation
    session := session
    fids := ∅
    msize := maxMessageSize
    negotiated := false
    closed := false }

def errno : FilesystemError → UInt32
  | .notFound => ENOENT
  | .notDirectory => ENOTDIR
  | .isDirectory => EISDIR
  | .alreadyExists => EEXIST
  | .notEmpty => ENOTEMPTY
  | .fileTooLarge => EFBIG
  | .noSpace => ENOSPC
  | .invalidPath => EINVAL
  | .nameTooLong => ENAMETOOLONG

/-- A call on the namespace inside a request. -/
def calling {α : Type} (x : FsOp α) : SessionOp UInt32 α := onFs errno x

def error (tag : UInt16) (errno : UInt32) (capacity : Nat) :
    Outcome ProtocolError (List UInt8) := do
  let reply ← (Writer.new 7 tag capacity).mapErr fun _ => .replyTooSmall
  let reply ← (reply.u32 errno).mapErr fun _ => .replyTooSmall
  reply.finish

def checkIdentity (a : Activation) : Outcome ProtocolError Unit :=
  if a.session.identity ≠ a.fs.identity then .err .wrongFilesystem
  else if a.session.closed then .err .closed
  else .ok ()

def syncGeneration : SessionOp ProtocolError Unit := do
  Op.reading checkIdentity
  let a ← Op.get
  if a.session.generation ≠ a.fs.generation then
    modifySession fun s => { s with fids := ∅, generation := a.fs.generation }
  else return ()

def releaseEach : List (UInt32 × Fid) → SessionOp ProtocolError Unit
  | [] => return ()
  | (_, fid) :: rest => do
    onFs (fun _ => .invariant) (Filesystem.releaseFid fid.inode)
    releaseEach rest

def releaseFids : SessionOp ProtocolError Unit := do
  let a ← Op.get
  modifySession fun s => { s with fids := ∅ }
  releaseEach a.session.fids.toList
  onFs (fun _ => .invariant) (Filesystem.releaseSessionLocks a.session.session)

def reset : SessionOp ProtocolError Unit := do
  Op.reading checkIdentity
  let a ← Op.get
  if a.session.generation = a.fs.generation then releaseFids
  else modifySession fun s => { s with fids := ∅ }
  let a ← Op.get
  modifySession fun s =>
    { s with generation := a.fs.generation, msize := maxMessageSize, negotiated := false }

def close : SessionOp ProtocolError Unit := do
  let a ← Op.get
  if a.session.closed then
    if a.session.identity = a.fs.identity then return ()
    else Op.fail .wrongFilesystem
  else do
    reset
    modifySession fun s => { s with closed := true }

/-! ## Fids -/

def fid (number : UInt32) (a : Activation) : Wire Fid := .okOr EBADF a.session.fids[number]?

/-- `fs.inode(id).ok_or(ESTALE)`. -/
def inode (id : InodeId) (a : Activation) : Wire Inode := .okOr ESTALE a.fs.inodes[id]?

def directory (number : UInt32) (a : Activation) : Wire Fid := do
  let fid ← fid number a
  let inode ← inode fid.inode a
  if inode.kind.isDirectory then .ok fid else .err ENOTDIR

def opened (number : UInt32) (a : Activation) : Wire (Fid × OpenFlags) := do
  let fid ← fid number a
  let flags ← Outcome.okOr EBADF fid.opened
  .ok (fid, flags)

def checkNewFid (number : UInt32) (a : Activation) : Wire Unit :=
  if number = NOFID then .err EINVAL
  else if a.session.fids[number]?.isSome then .err EEXIST
  else if maxFids ≤ a.session.fids.size then .err ENOSPC
  else .ok ()

def installFid (number : UInt32) (fid : Fid) : SessionOp UInt32 Unit := do
  calling (Filesystem.retainFid fid.inode)
  let a ← Op.get
  modifySession fun s => { s with fids := s.fids.insert number fid }
  match a.session.fids[number]? with
  | some old => calling (Filesystem.releaseFid old.inode)
  | none => return ()

/-! ## Requests -/

def version (tag : UInt16) (size : UInt32) (version : String) (reply : Writer) :
    SessionOp UInt32 Writer :=
  if tag ≠ NOTAG then Op.fail EPROTO
  else
    let size := min size.toNat maxMessageSize
    if size < 256 then Op.fail EINVAL
    else do
      let word ← Op.lift (Writer.expectU32 size)
      let reply ← Op.lift (reply.u32 word)
      let reply ← Op.lift (reply.string (if version = "9P2000.L" then version else "unknown"))
      let released ← Op.attempt releaseFids
      match released with
      | .error _ => Op.fail EIO
      | .ok () => do
        modifySession fun s => { s with msize := size, negotiated := version = "9P2000.L" }
        return reply

def attach (number afid uid : UInt32) (reply : Writer) : SessionOp UInt32 Writer := do
  Op.reading (checkNewFid number)
  if afid ≠ NOFID then Op.fail EOPNOTSUPP
  else do
    let a ← Op.get
    let root ← Op.lift (inode a.fs.root a)
    let reply ← Op.lift (reply.qid root)
    installFid number
      { inode := root.id, uid := if uid = NOFID then root.uid else uid, opened := none }
    return reply

/-- One name of a walk. -/
def step (fs : Filesystem) (current : InodeId) (inode : Inode) (name : String) : Wire InodeId :=
  match inode.kind with
  | .directory _ _ =>
    if name = "." then .ok current
    else if name = ".." then
      if current = fs.root then .ok current else .okOr ENOENT (fs.parentInode current)
    else (fs.child current name).mapErr errno
  | _ => .err ENOTDIR

/-- The loop over the names: a failure after the first step only ends the walk. -/
def steps (fs : Filesystem) : InodeId → List InodeId → List String →
    Wire (InodeId × List InodeId)
  | current, qids, [] => .ok (current, qids)
  | current, qids, name :: names => do
    let inode ← Outcome.okOr ESTALE fs.inodes[current]?
    match step fs current inode name with
    | .ok id => steps fs id (qids ++ [id]) names
    | .err e => if qids = [] then .err e else .ok (current, qids)
    | .panic => .panic

def qids (fs : Filesystem) : List InodeId → Writer → Wire Writer
  | [], reply => .ok reply
  | id :: rest, reply => do
    let inode ← Outcome.okOr ESTALE fs.inodes[id]?
    let reply ← reply.qid inode
    qids fs rest reply

/-- `u16::try_from(value).expect(..)`. -/
def expectU16 (value : Nat) : Wire UInt16 :=
  if value ≤ 65535 then .ok (UInt16.ofNat value) else .panic

def walk (number newFid : UInt32) (names : List String) (reply : Writer) :
    SessionOp UInt32 Writer := do
  let fid ← Op.reading (fid number)
  if fid.opened.isSome then Op.fail EBADF
  else do
    if newFid ≠ number then Op.reading (checkNewFid newFid)
    let a ← Op.get
    let (current, found) ← Op.lift (steps a.fs fid.inode [] names)
    let count ← Op.lift (expectU16 found.length)
    let reply ← Op.lift (reply.u16 count)
    let reply ← Op.lift (qids a.fs found reply)
    if found.length = names.length then installFid newFid { fid with inode := current }
    return reply

def truncated : AttributeUpdate := { AttributeUpdate.default with size := some 0 }

/-- The truncation of an inode that is opened with `O_TRUNC`. -/
def truncateFor (flags : OpenFlags) (id : InodeId) : SessionOp UInt32 Unit :=
  if flags.truncate then calling (Filesystem.updateAttributes id truncated) else return ()

/-- `u32::try_from(self.msize - 24).expect(..)`. -/
def iounit (a : Activation) : Wire UInt32 := do
  let unit ← Outcome.sub a.session.msize 24
  Writer.expectU32 unit

def checkOpen (flags : OpenFlags) : InodeKind → Wire Unit
  | .directory _ _ => if flags.writable ∨ flags.truncate then .err EISDIR else .ok ()
  | .symlink _ => .err ELOOP
  | .file _ => if flags.directory then .err ENOTDIR else .ok ()

def lopen (number raw : UInt32) (reply : Writer) : SessionOp UInt32 Writer := do
  let fid ← Op.reading (fid number)
  if fid.opened.isSome then Op.fail EBUSY
  else do
    let flags ← Op.lift (OpenFlags.parse raw)
    let file ← Op.reading (inode fid.inode)
    Op.lift (checkOpen flags file.kind)
    truncateFor flags fid.inode
    let file ← Op.reading (inode fid.inode)
    let reply ← Op.lift (reply.qid file)
    let unit ← Op.reading iounit
    let reply ← Op.lift (reply.u32 unit)
    let a ← Op.get
    let fid ← Op.lift (.expect a.session.fids[number]?)
    modifySession fun s => { s with fids := s.fids.insert number { fid with opened := some flags } }
    return reply

/-- May a create open the inode that has the name already? -/
def checkExisting : InodeKind → Wire Unit
  | .directory _ _ => .err EISDIR
  | .symlink _ => .err ELOOP
  | .file _ => .ok ()

def createdInode (fid : Fid) (flags : OpenFlags) (file : Creation) : SessionOp UInt32 InodeId := do
  let a ← Op.get
  match a.fs.child fid.inode file.name with
  | .ok id =>
    if file.flags &&& 0x80 ≠ 0 then Op.fail EEXIST
    else do
      let existing ← Op.reading (inode id)
      Op.lift (checkExisting existing.kind)
      truncateFor flags id
      return id
  | .err .notFound =>
    calling (Filesystem.createFileAt fid.inode file.name file.mode fid.uid file.gid)
  | .err e => Op.fail (errno e)
  | .panic => Op.abort

def create (number : UInt32) (file : Creation) (reply : Writer) : SessionOp UInt32 Writer := do
  let fid ← Op.reading (directory number)
  if fid.opened.isSome then Op.fail EBADF
  else do
    let flags ← Op.lift (OpenFlags.parse file.flags)
    if flags.directory then Op.fail ENOTDIR
    else do
      let id ← createdInode fid flags file
      installFid number { inode := id, uid := fid.uid, opened := some flags }
      let created ← Op.reading (inode id)
      let reply ← Op.lift (reply.qid created)
      let unit ← Op.reading iounit
      Op.lift (reply.u32 unit)

/-- The time under one validity bit, taken from the message under another. -/
def timeOf (mask bit explicit : UInt32) (seconds ns : UInt64) : Wire (Option TimeUpdate) :=
  if mask &&& bit = 0 then .ok none
  else if mask &&& explicit = 0 then .ok (some .current)
  else do
    let time ← (FileTime.new seconds ns).mapErr errno
    .ok (some (.explicit time))

def given {α : Type} (mask bit : UInt32) (value : α) : Option α :=
  if mask &&& bit ≠ 0 then some value else none

def attributes (raw : Attributes) : Wire AttributeUpdate :=
  if raw.mask &&& ~~~0x1ff ≠ 0 ∨ (raw.mask &&& 0x80 ≠ 0 ∧ raw.mask &&& 0x10 = 0) ∨
      (raw.mask &&& 0x100 ≠ 0 ∧ raw.mask &&& 0x20 = 0) then .err EINVAL
  else do
    let atime ← timeOf raw.mask 0x10 0x80 raw.atime raw.atimeNs
    let mtime ← timeOf raw.mask 0x20 0x100 raw.mtime raw.mtimeNs
    .ok
      { mode := given raw.mask 1 raw.mode
        uid := given raw.mask 2 raw.uid
        gid := given raw.mask 4 raw.gid
        size := given raw.mask 8 raw.size
        atime := atime
        mtime := mtime
        changeCtime := raw.mask &&& 0x40 ≠ 0 }

def finishIo (operation : IoOperation) (reply : Writer) : SessionOp UInt32 Writer :=
  match operation with
  | .read inode offset count noAtime => do
    let bytes ← calling (Filesystem.readInode inode offset count (!noAtime))
    let length ← Op.lift (Writer.expectU32 bytes.length)
    let reply ← Op.lift (reply.u32 length)
    Op.lift (reply.append bytes)
  | .write inode offset data append => do
    calling (Filesystem.writeInode inode offset data append)
    let length ← Op.lift (Writer.expectU32 data.length)
    Op.lift (reply.u32 length)
  | .attributes inode update => do
    calling (Filesystem.updateAttributes inode update)
    return reply

/-- `u64::try_from(value).expect(..)`. -/
def expectU64 (value : Nat) : Wire UInt64 :=
  if value ≤ u64Max then .ok (UInt64.ofNat value) else .panic

/-- Fields of eight bytes in a row. -/
def words (reply : Writer) : List UInt64 → Wire Writer
  | [] => .ok reply
  | value :: rest => do
    let reply ← reply.u64 value
    words reply rest

def statfs (number : UInt32) (reply : Writer) (a : Activation) : Wire Writer := do
  let _ ← fid number a
  let usage := a.fs.spaceUsage
  let reply ← reply.u32 0x01021997
  let reply ← reply.u32 4096
  let maximum ← expectU64 (usage.maximumBytes / 4096)
  let reply ← reply.u64 maximum
  let unused ← Outcome.sub usage.maximumBytes usage.usedBytes
  let free ← expectU64 (unused / 4096)
  let reply ← words reply [free, free]
  let maximumInodes ← expectU64 usage.maximumInodes
  let reply ← reply.u64 maximumInodes
  let freeInodes ← expectU64 (usage.maximumInodes - usage.usedInodes)
  let reply ← words reply [freeInodes, UInt64.ofNat a.fs.root]
  reply.u32 255

def mode (inode : Inode) : UInt32 :=
  inode.mode ||| match inode.kind with
    | .directory _ _ => 0o040000
    | .file _ => 0o100000
    | .symlink _ => 0o120000

/-- Is the entry one of a directory? -/
def isSubdirectory (fs : Filesystem) (entry : DirectoryEntry) : Bool :=
  fs.inodes[entry.inode]?.any (·.kind.isDirectory)

/-- The links of an inode as Linux counts them. -/
def linkCountOf (fs : Filesystem) (inode : Inode) : Wire UInt64 :=
  match inode.kind with
  | .directory entries _ =>
    if inode.linkCount ≠ 0 then do
      let count ← expectU64 (entries.toList.countP fun p => isSubdirectory fs p.2)
      let links ← Outcome.expect (checkedAdd u64Max 2 count.toNat)
      .ok (UInt64.ofNat links)
    else .ok (UInt64.ofNat inode.linkCount)
  | _ => .ok (UInt64.ofNat inode.linkCount)

def getattr (id : InodeId) (mask : UInt64) (reply : Writer) (a : Activation) : Wire Writer := do
  let inode ← inode id a
  let reply ← reply.u64 (mask &&& 0x7ff)
  let reply ← reply.qid inode
  let reply ← reply.u32 (mode inode)
  let reply ← reply.u32 inode.uid
  let reply ← reply.u32 inode.gid
  let links ← linkCountOf a.fs inode
  let size ← expectU64 inode.size
  words reply [links, 0, size, 4096, UInt64.ofNat ((size.toNat + 511) / 512),
    inode.atime, inode.atimeNanoseconds.toUInt64, inode.mtime,
    inode.mtimeNanoseconds.toUInt64, inode.ctime, inode.ctimeNanoseconds.toUInt64, 0, 0, 0, 0]

def entryType : InodeKind → UInt8
  | .directory _ _ => 4
  | .file _ => 8
  | .symlink _ => 10

def entrySize (entry : ListedEntry) : Nat := 24 + entry.name.utf8ByteSize

/-- The loop of `readdir` over the entries after `offset`. -/
def listEntries (fs : Filesystem) (start maximum : Nat) (offset : UInt64) :
    List ListedEntry → Writer → Wire Writer
  | [], reply => .ok reply
  | entry :: rest, reply =>
    if entry.cookie ≤ offset.toNat then listEntries fs start maximum offset rest reply
    else do
      let used ← Outcome.sub reply.bytes.length start
      if maximum < used + entrySize entry then .ok reply
      else do
        let inode ← Outcome.okOr ESTALE fs.inodes[entry.inode]?
        let reply ← reply.qid inode
        let reply ← reply.u64 (UInt64.ofNat entry.cookie)
        let reply ← reply.u8 (entryType inode.kind)
        let reply ← reply.string entry.name
        listEntries fs start maximum offset rest reply

/-- `reply.bytes[7..11].copy_from_slice(word)`, for a word of four bytes. -/
def patch (reply : Writer) (word : UInt32) : Wire Writer :=
  if h : 11 ≤ reply.bytes.length then .ok
    { bytes := reply.bytes.take 7 ++ LittleEndian.encode 4 word.toNat ++ reply.bytes.drop 11
      capacity := reply.capacity
      header := by simp; omega
      bounded := by have := reply.bounded; simp; omega }
  else .panic

def readdir (number : UInt32) (offset : UInt64) (count : UInt32) (reply : Writer)
    (a : Activation) : Wire Writer := do
  let (fid, flags) ← opened number a
  if !flags.readable then .err EBADF
  else do
    let maximum := min count.toNat (reply.remaining - 4)
    let reply ← reply.u32 0
    let start := reply.bytes.length
    let entries ← (a.fs.directoryEntriesOf fid.inode).mapErr errno
    let reply ← listEntries a.fs start maximum offset entries reply
    let used ← Outcome.sub reply.bytes.length start
    let count ← Writer.expectU32 used
    patch reply count

def readlink (number : UInt32) (reply : Writer) (a : Activation) : Wire Writer := do
  let fid ← fid number a
  let inode ← inode fid.inode a
  match inode.kind with
  | .symlink target => reply.string target
  | _ => .err EINVAL

/-! ## Locks -/

def lockKind (kind : UInt8) (flags : OpenFlags) (checkAccess : Bool) : Wire LockKind :=
  if kind = 0 ∧ (flags.readable ∨ !checkAccess) then .ok .read
  else if kind = 1 ∧ (flags.writable ∨ !checkAccess) then .ok .write
  else if kind = 0 ∨ kind = 1 then .err EBADF
  else if kind = 2 then .ok .read
  else .err EINVAL

def lockRequest (raw : Lock) (checkAccess : Bool) (a : Activation) : Wire ByteRangeLock := do
  let (fid, flags) ← opened raw.fid a
  let inode ← inode fid.inode a
  if !inode.kind.isFile then .err EOPNOTSUPP
  else do
    let kind ← lockKind raw.kind flags checkAccess
    .ok
      { inode := fid.inode
        session := a.session.session
        kind := kind
        start := raw.start
        length := raw.length
        process := raw.process
        client := raw.client }

def acquire (raw : Lock) (lock : ByteRangeLock) : SessionOp UInt32 Bool :=
  if raw.kind = 2 then do
    let a ← Op.get
    calling (Filesystem.unlock lock.inode a.session.session lock.process lock.client
      lock.start lock.length)
    return true
  else calling (Filesystem.tryLock lock)

def lock (raw : Lock) (reply : Writer) : SessionOp UInt32 Writer :=
  if raw.flags &&& ~~~1 ≠ 0 then Op.fail EOPNOTSUPP
  else do
    let lock ← Op.reading (lockRequest raw true)
    let acquired ← acquire raw lock
    Op.lift (reply.u8 (if acquired then 0 else 1))

def getlock (raw : Lock) (reply : Writer) (a : Activation) : Wire Writer :=
  if raw.kind = 2 then .err EINVAL
  else do
    let requested ← lockRequest raw false a
    let conflict ← (a.fs.conflictingLock requested).mapErr errno
    match conflict with
    | some held => do
      let reply ← reply.u8 (match held.kind with | .read => 0 | .write => 1)
      let reply ← reply.u64 held.start
      let reply ← reply.u64 held.length
      let reply ← reply.u32 held.process
      reply.string held.client
    | none => do
      let reply ← reply.u8 2
      let reply ← reply.u64 raw.start
      let reply ← reply.u64 raw.length
      let reply ← reply.u32 raw.process
      reply.string raw.client

/-! ## Dispatch -/

def makeSymlink (number : UInt32) (name target : String) (gid : UInt32) (reply : Writer) :
    SessionOp UInt32 Writer := do
  let directory ← Op.reading (directory number)
  let id ← calling (Filesystem.symlinkAt directory.inode name target directory.uid gid)
  let created ← Op.reading (inode id)
  Op.lift (reply.qid created)

def makeDirectory (number : UInt32) (name : String) (mode gid : UInt32) (reply : Writer) :
    SessionOp UInt32 Writer := do
  let directory ← Op.reading (directory number)
  let id ← calling (Filesystem.mkdirAt directory.inode name mode directory.uid gid)
  let created ← Op.reading (inode id)
  Op.lift (reply.qid created)

def link (directoryNumber number : UInt32) (name : String) : SessionOp UInt32 Unit := do
  let directory ← Op.reading (directory directoryNumber)
  let fid ← Op.reading (fid number)
  let target ← Op.reading (inode fid.inode)
  if target.kind.isDirectory then Op.fail EPERM
  else calling (Filesystem.linkAt directory.inode name fid.inode)

def rename (oldNumber : UInt32) (oldName : String) (newNumber : UInt32) (newName : String) :
    SessionOp UInt32 Unit := do
  let old ← Op.reading (directory oldNumber)
  let new ← Op.reading (directory newNumber)
  calling (Filesystem.renameAt old.inode oldName new.inode newName)

def unlink (number : UInt32) (name : String) (flags : UInt32) : SessionOp UInt32 Unit :=
  if flags &&& ~~~0x200 ≠ 0 then Op.fail EINVAL
  else do
    let parent ← Op.reading (directory number)
    let a ← Op.get
    let id ← Op.lift ((a.fs.child parent.inode name).mapErr errno)
    let target ← Op.reading (inode id)
    let isDirectory := target.kind.isDirectory
    if (flags &&& 0x200 ≠ 0) ≠ (isDirectory = true) then
      Op.fail (if isDirectory then EISDIR else ENOTDIR)
    else calling (Filesystem.removeAt parent.inode name)

def fsync (number dataOnly : UInt32) (a : Activation) : Wire Unit := do
  let _ ← opened number a
  if 1 < dataOnly then .err EINVAL else .ok ()

/-- A request that answers with a bare header. -/
def answering (x : SessionOp UInt32 Unit) (reply : Writer) : SessionOp UInt32 Writer := do
  x
  return reply

def filesystemOperation (request : Request) (reply : Writer) : SessionOp UInt32 Writer :=
  match request with
  | .statfs fid => Op.reading (statfs fid reply)
  | .getattr number mask => do
    let fid ← Op.reading (fid number)
    Op.reading (getattr fid.inode mask reply)
  | .readdir fid offset count => Op.reading (readdir fid offset count reply)
  | .fsync fid dataOnly => answering (Op.reading (fsync fid dataOnly)) reply
  | .readlink fid => Op.reading (readlink fid reply)
  | .symlink fid name target gid => makeSymlink fid name target gid reply
  | .mkdir fid name mode gid => makeDirectory fid name mode gid reply
  | .link directory fid name => answering (link directory fid name) reply
  | .rename oldDirectory oldName newDirectory newName =>
    answering (rename oldDirectory oldName newDirectory newName) reply
  | .unlink directory name flags => answering (unlink directory name flags) reply
  | .lock raw => lock raw reply
  | .getlock raw => Op.reading (getlock raw reply)
  | _ => Op.fail EOPNOTSUPP

def clunk (number : UInt32) : SessionOp UInt32 Unit := do
  let fid ← Op.reading (fid number)
  calling (Filesystem.releaseFid fid.inode)
  modifySession fun s => { s with fids := s.fids.erase number }

def execute (request : Request) (tag : UInt16) (capacity : Nat) (reply : Writer) :
    SessionOp UInt32 Writer :=
  match request with
  | .version size name => version tag size name reply
  | .attach fid afid uid => attach fid afid uid reply
  | .walk fid newFid names => walk fid newFid names reply
  | .lopen fid flags => lopen fid flags reply
  | .create fid file => create fid file reply
  | .read number offset count => do
    let (fid, flags) ← Op.reading (opened number)
    if !flags.readable then Op.fail EBADF
    else do
      let room ← Op.checkedSub capacity 11
      finishIo (.read fid.inode offset (min count.toNat room) flags.noAtime) reply
  | .write number offset data => do
    let (fid, flags) ← Op.reading (opened number)
    if !flags.writable then Op.fail EBADF
    else finishIo (.write fid.inode offset data flags.append) reply
  | .setattr number raw => do
    let fid ← Op.reading (fid number)
    let update ← Op.lift (attributes raw)
    finishIo (.attributes fid.inode update) reply
  | .clunk fid => answering (clunk fid) reply
  | other => filesystemOperation other reply

/-! ## Submission -/

structure Header where
  declared : Nat
  kind : UInt8
  tag : UInt16

def readHeader : ReaderOp Header := do
  let declared ← Reader.u32
  let kind ← Reader.u8
  let tag ← Reader.u16
  return { declared := declared.toNat, kind := kind, tag := tag }

/-- The largest message of a type: `Tversion` comes before a size is agreed. -/
def messageLimit (a : Activation) (kind : UInt8) : Nat :=
  if kind = 100 then maxMessageSize else a.session.msize

/-- An error reply, except to a flush. -/
def refuse (header : Header) (errno : UInt32) (capacity : Nat) :
    Outcome ProtocolError (List UInt8) :=
  if header.kind = 108 then .err .malformed else error header.tag errno capacity

/-- The request with the guest as the source of its changes. -/
def run (request : Request) (header : Header) (capacity : Nat) (reply : Writer) :
    SessionOp ProtocolError (List UInt8) := do
  let a ← Op.get
  let source := a.fs.mutationSource
  onFs (fun _ => .invariant) (Filesystem.setMutationSource .guest)
  let result ← Op.attempt (execute request header.tag capacity reply)
  onFs (fun _ => .invariant) (Filesystem.setMutationSource source)
  match result with
  | .ok reply => Op.lift reply.finish
  | .error errno => Op.lift (error header.tag errno capacity)

def submit (bytes : List UInt8) (capacity : Nat) : SessionOp ProtocolError (List UInt8) := do
  syncGeneration
  let header ← Op.lift ((readHeader (Reader.new bytes)).1.mapErr fun _ => .malformed)
  let a ← Op.get
  let capacity := min capacity (messageLimit a header.kind)
  if header.declared ≠ bytes.length ∨ messageLimit a header.kind < header.declared then
    Op.lift (refuse header EPROTO capacity)
  else do
    let body ← Op.lift (if 7 ≤ bytes.length then .ok (bytes.drop 7) else .panic)
    match Request.parse header.kind body with
    | .err errno => Op.lift (refuse header errno capacity)
    | .panic => Op.abort
    | .ok request =>
      if (header.tag = NOTAG ∧ header.kind ≠ 100) ∨
          (!a.session.negotiated ∧ header.kind ≠ 100 ∧ header.kind ≠ 108) then
        Op.lift (refuse header EPROTO capacity)
      else if capacity < request.minimumReply then
        Op.lift (error header.tag ENOSPC capacity)
      else do
        let reply ← Op.lift ((Writer.new (header.kind + 1) header.tag capacity).mapErr
          fun _ => .replyTooSmall)
        match request with
        | .flush => Op.lift reply.finish
        | request => run request header capacity reply

end NinePSession

end Riscbox
