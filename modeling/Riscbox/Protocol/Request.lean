import Riscbox.Protocol.Wire

/-!
# Requests

The body of a message, parsed by its type byte.  Numbers are those of 9P2000.L.
-/

namespace Riscbox

structure Attributes where
  mask : UInt32
  mode : UInt32
  uid : UInt32
  gid : UInt32
  size : UInt64
  atime : UInt64
  atimeNs : UInt64
  mtime : UInt64
  mtimeNs : UInt64

structure Lock where
  fid : UInt32
  kind : UInt8
  flags : UInt32
  start : UInt64
  length : UInt64
  process : UInt32
  client : String

structure Creation where
  name : String
  flags : UInt32
  mode : UInt32
  gid : UInt32

/-- `lopen` is the source's `Open`. -/
inductive Request where
  | version (size : UInt32) (version : String)
  | attach (fid afid uid : UInt32)
  | flush
  | walk (fid newFid : UInt32) (names : List String)
  | lopen (fid flags : UInt32)
  | create (fid : UInt32) (file : Creation)
  | read (fid : UInt32) (offset : UInt64) (count : UInt32)
  | write (fid : UInt32) (offset : UInt64) (data : List UInt8)
  | clunk (fid : UInt32)
  | statfs (fid : UInt32)
  | getattr (fid : UInt32) (mask : UInt64)
  | setattr (fid : UInt32) (attributes : Attributes)
  | readdir (fid : UInt32) (offset : UInt64) (count : UInt32)
  | fsync (fid dataOnly : UInt32)
  | symlink (fid : UInt32) (name target : String) (gid : UInt32)
  | readlink (fid : UInt32)
  | mkdir (fid : UInt32) (name : String) (mode gid : UInt32)
  | link (directory fid : UInt32) (name : String)
  | rename (oldDirectory : UInt32) (oldName : String) (newDirectory : UInt32)
      (newName : String)
  | unlink (directory : UInt32) (name : String) (flags : UInt32)
  | lock (lock : Lock)
  | getlock (lock : Lock)
  | unsupported

namespace Request

open Reader

/-- `Tlock` carries flags and `Tgetlock` does not. -/
def readLock (flagged : Bool) : ReaderOp Lock := do
  let fid ← u32
  let kind ← u8
  let flags ← if flagged then u32 else pure 0
  let start ← u64
  let length ← u64
  let process ← u32
  let client ← string
  return { fid := fid, kind := kind, flags := flags, start := start, length := length,
           process := process, client := client }

def readAttributes : ReaderOp Attributes := do
  let mask ← u32
  let mode ← u32
  let uid ← u32
  let gid ← u32
  let size ← u64
  let atime ← u64
  let atimeNs ← u64
  let mtime ← u64
  let mtimeNs ← u64
  return { mask := mask, mode := mode, uid := uid, gid := gid, size := size, atime := atime,
           atimeNs := atimeNs, mtime := mtime, mtimeNs := mtimeNs }

def readCreation : ReaderOp Creation := do
  let name ← string
  let flags ← u32
  let mode ← u32
  let gid ← u32
  return { name := name, flags := flags, mode := mode, gid := gid }

def maxNames : Nat := 16

/-- The fields of each known type, in the order of the wire. -/
def fields (kind : Nat) : Option (ReaderOp Request) :=
  match kind with
  | 100 => some do return .version (← u32) (← string)
  | 104 => some do
    let fid ← u32
    let afid ← u32
    let _ ← string
    let _ ← string
    return .attach fid afid (← u32)
  | 108 => some do
    let _ ← u16
    return .flush
  | 110 => some do
    let fid ← u32
    let newFid ← u32
    let count ← u16
    if maxNames < count.toNat then Op.fail EINVAL
    else return .walk fid newFid (← strings count.toNat)
  | 12 => some do return .lopen (← u32) (← u32)
  | 14 => some do return .create (← u32) (← readCreation)
  | 116 => some do return .read (← u32) (← u64) (← u32)
  | 118 => some do
    let fid ← u32
    let offset ← u64
    let count ← u32
    return .write fid offset (← take count.toNat)
  | 120 => some do return .clunk (← u32)
  | 8 => some do return .statfs (← u32)
  | 24 => some do return .getattr (← u32) (← u64)
  | 26 => some do return .setattr (← u32) (← readAttributes)
  | 40 => some do return .readdir (← u32) (← u64) (← u32)
  | 50 => some do return .fsync (← u32) (← u32)
  | 16 => some do return .symlink (← u32) (← string) (← string) (← u32)
  | 22 => some do return .readlink (← u32)
  | 72 => some do return .mkdir (← u32) (← string) (← u32) (← u32)
  | 70 => some do return .link (← u32) (← u32) (← string)
  | 74 => some do return .rename (← u32) (← string) (← u32) (← string)
  | 76 => some do return .unlink (← u32) (← string) (← u32)
  | 52 => some do return .lock (← readLock true)
  | 54 => some do return .getlock (← readLock false)
  | _ => none

def parse (kind : UInt8) (bytes : List UInt8) : Wire Request :=
  match fields kind.toNat with
  | none => .ok .unsupported
  | some body =>
    ((do
      let request ← body
      done
      return request : ReaderOp Request) (Reader.new bytes)).1

def minimumReply : Request → Nat
  | lopen _ _ | create _ _ => 24
  | attach _ _ _ | symlink _ _ _ _ | mkdir _ _ _ _ => 20
  | walk _ _ _ => 9
  | statfs _ => 67
  | getattr _ _ => 160
  | read _ _ _ | write _ _ _ | readdir _ _ _ => 11
  | getlock _ => 30
  | lock _ => 8
  | _ => 7

end Request

end Riscbox
