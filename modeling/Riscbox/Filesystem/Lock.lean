import Riscbox.Filesystem.Types

/-!
# Byte-range locks

Locks are intervals of file offsets, kept in one list for the whole namespace.  A
length of zero extends to the end of the offset space.  Ends are computed in 128 bits,
so they are natural numbers here.
-/

namespace Riscbox

def u128Max : Nat := 2 ^ 128 - 1

/-- The number of file offsets, `u64::MAX + 1`. -/
def offsetLimit : Nat := 2 ^ 64

namespace Filesystem

def rangesOverlap (leftStart leftLength rightStart rightLength : UInt64) : Bool :=
  let leftEnd := if leftLength = 0 then u128Max else leftStart.toNat + leftLength.toNat
  let rightEnd := if rightLength = 0 then u128Max else rightStart.toNat + rightLength.toNat
  leftStart.toNat < rightEnd && rightStart.toNat < leftEnd

def checkFileInode (fs : Filesystem) (id : InodeId) : Outcome FilesystemError Unit := do
  let inode ← fs.inodeOf id
  if inode.kind.isFile then .ok () else .err .isDirectory

def sameLockOwner (left right : ByteRangeLock) : Bool :=
  left.process = right.process && left.client = right.client

def lockEnd (lock : ByteRangeLock) : Nat :=
  if lock.length = 0 then offsetLimit
  else min (lock.start.toNat + lock.length.toNat) offsetLimit

def conflicts (requested held : ByteRangeLock) : Bool :=
  held.inode = requested.inode && !sameLockOwner held requested &&
    (held.kind = .write || requested.kind = .write) &&
    rangesOverlap held.start held.length requested.start requested.length

def conflictingLock (fs : Filesystem) (requested : ByteRangeLock) :
    Outcome FilesystemError (Option ByteRangeLock) := do
  fs.checkFileInode requested.inode
  .ok (fs.locks.find? (conflicts requested))

/-- `u64::try_from(value).expect(..)`. -/
def expectU64 (value : Nat) : Outcome FilesystemError UInt64 :=
  if value ≤ u64Max then .ok (UInt64.ofNat value) else .panic

/-- The pieces of a held lock of the same owner that lie outside the request. -/
def remainingPieces (requested held : ByteRangeLock) :
    Outcome FilesystemError (List ByteRangeLock) := do
  let heldEnd := lockEnd held
  let requestedEnd := lockEnd requested
  let left :=
    if held.start < requested.start then
      [{ held with length := requested.start - held.start }]
    else []
  if requestedEnd < heldEnd then do
    let start ← expectU64 requestedEnd
    let length ← if heldEnd = offsetLimit then .ok 0 else expectU64 (heldEnd - requestedEnd)
    .ok (left ++ [{ held with start := start, length := length }])
  else .ok left

/-- The loop of `subtract_owned_range` over the stored locks. -/
def subtractOwned (requested : ByteRangeLock) :
    List ByteRangeLock → Outcome FilesystemError (List ByteRangeLock)
  | [] => .ok []
  | held :: rest =>
    if held.inode ≠ requested.inode ∨ !sameLockOwner held requested ∨
        !rangesOverlap held.start held.length requested.start requested.length then do
      let retained ← subtractOwned requested rest
      .ok (held :: retained)
    else do
      let pieces ← remainingPieces requested held
      let retained ← subtractOwned requested rest
      .ok (pieces ++ retained)

def subtractOwnedRange (requested : ByteRangeLock) : FsOp Unit := do
  let fs ← Op.get
  let retained ← Op.lift (subtractOwned requested fs.locks)
  Op.set { fs with locks := retained }

def tryLock (requested : ByteRangeLock) : FsOp Bool := do
  let conflict ← Op.reading (·.conflictingLock requested)
  if conflict.isSome then return false
  else do
    subtractOwnedRange requested
    Op.modify fun fs => { fs with locks := fs.locks ++ [requested] }
    return true

def unlock (inode : InodeId) (session : Nat) (process : UInt32) (client : String)
    (start length : UInt64) : FsOp Unit := do
  Op.reading (·.checkFileInode inode)
  subtractOwnedRange
    { inode := inode, session := session, process := process, client := client,
      kind := .read, start := start, length := length }

def releaseSessionLocks (session : Nat) : FsOp Unit :=
  Op.modify fun fs => { fs with locks := fs.locks.filter (·.session ≠ session) }

end Filesystem

end Riscbox
