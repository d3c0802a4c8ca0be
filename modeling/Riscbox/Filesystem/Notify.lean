import Riscbox.Filesystem.Path

/-!
# Change notifications

A bounded queue of change records.  A full queue collapses to one `rescan` record,
and nothing more is queued until that record is popped.
-/

namespace Riscbox.Filesystem

def maxChanges : Nat := 1024

/-- `path.trim_start_matches('/')`. -/
def trimSlashes (path : String) : String :=
  String.ofList (path.toList.dropWhile (· = '/'))

def rescanRecord (source : ChangeSource) : Change where
  kind := .rescan
  inode := none
  path := ""
  oldPath := none
  paths := []
  source := source

/-- The paths stored in a record: those of the inode, and the given path if it is
not one of them. -/
def recordPaths (paths : List String) (path : String) : List String :=
  if path ≠ "" ∧ path ∉ paths then (paths ++ [path]).insertionSort (· ≤ ·) else paths

def emit (kind : ChangeKind) (inode : Option InodeId) (path : String)
    (oldPath : Option String) (source : ChangeSource) : FsOp Unit := do
  let fs ← Op.get
  if !fs.recordChanges then return ()
  else if fs.changes.head?.any (·.kind = .rescan) then return ()
  else if maxChanges ≤ fs.changes.length then
    Op.set { fs with changes := [rescanRecord source] }
  else do
    let path := trimSlashes path
    let oldPath := oldPath.map trimSlashes
    let paths ← match inode with
      | none => pure []
      | some id => Op.lift (Outcome.expect (fs.pathsOf id))
    let paths := recordPaths paths path
    Op.set { fs with changes := fs.changes ++ [
      { kind := kind, inode := inode, path := path, oldPath := oldPath, paths := paths,
        source := source }] }

/-- The write of `emit_inode` to the back of the queue. -/
def fillPath (inode : InodeId) (changes : List Change) : List Change :=
  match changes.getLast? with
  | some change =>
    if change.inode = some inode then
      changes.dropLast ++ [{ change with path := change.paths.head?.getD "" }]
    else changes
  | none => changes

def emitInode (kind : ChangeKind) (inode : InodeId) (source : ChangeSource) : FsOp Unit := do
  emit kind (some inode) "" none source
  Op.modify fun fs => { fs with changes := fillPath inode fs.changes }

def nextChange : FsOp (Option Change) := do
  let fs ← Op.get
  Op.set { fs with changes := fs.changes.tail }
  return fs.changes.head?

def setChangeTracking (enabled : Bool) : FsOp Unit := do
  let fs ← Op.get
  if fs.recordChanges = enabled then return ()
  else do
    Op.set { fs with recordChanges := enabled, changes := [] }
    if enabled then emit .rescan none "" none fs.mutationSource
    else return ()

end Riscbox.Filesystem
