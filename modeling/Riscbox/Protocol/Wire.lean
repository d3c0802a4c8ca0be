import Riscbox.Collections.LittleEndian
import Riscbox.Filesystem.Types

/-!
# Messages on the wire

The reader and the writer behind `src/ninep_protocol.rs`.  Both fail with an errno.
A reader moves through a request.  A writer is passed along by value: it carries
that it has room for the length word and never outgrows its capacity.
-/

namespace Riscbox

def EPERM : UInt32 := 1
def ENOENT : UInt32 := 2
def EIO : UInt32 := 5
def EBADF : UInt32 := 9
def EBUSY : UInt32 := 16
def EEXIST : UInt32 := 17
def ENOTDIR : UInt32 := 20
def EISDIR : UInt32 := 21
def EINVAL : UInt32 := 22
def EFBIG : UInt32 := 27
def ENOSPC : UInt32 := 28
def ENAMETOOLONG : UInt32 := 36
def ENOTEMPTY : UInt32 := 39
def ELOOP : UInt32 := 40
def EPROTO : UInt32 := 71
def EOPNOTSUPP : UInt32 := 95
def ESTALE : UInt32 := 116

/-- An errno beside a value. -/
abbrev Wire (α : Type) : Type := Outcome UInt32 α

/-! ## Reading -/

structure Reader where
  bytes : List UInt8
  offset : Nat

abbrev ReaderOp (α : Type) : Type := Op Reader UInt32 α

namespace Reader

def new (bytes : List UInt8) : Reader where
  bytes := bytes
  offset := 0

def take (size : Nat) : ReaderOp (List UInt8) := do
  let r ← Op.get
  let finish ← Op.lift (.okOr EPROTO (checkedAdd usizeMax r.offset size))
  if finish ≤ r.bytes.length then do
    Op.set { r with offset := finish }
    return (r.bytes.drop r.offset).take size
  else Op.fail EPROTO

/-- `from_le_bytes` of the next `size` bytes, which panics on another number of bytes. -/
def word (size : Nat) : ReaderOp Nat := do
  let bytes ← take size
  if bytes.length = size then return LittleEndian.decode bytes
  else Op.abort

def u8 : ReaderOp UInt8 := UInt8.ofNat <$> word 1

def u16 : ReaderOp UInt16 := UInt16.ofNat <$> word 2

def u32 : ReaderOp UInt32 := UInt32.ofNat <$> word 4

def u64 : ReaderOp UInt64 := UInt64.ofNat <$> word 8

def string : ReaderOp String := do
  let size ← u16
  let bytes ← take size.toNat
  let value ← Op.lift (.okOr EPROTO (String.fromUTF8? ⟨bytes.toArray⟩))
  if '\x00' ∈ value.toList then Op.fail EPROTO
  else return value

/-- `count` strings in a row. -/
def strings : Nat → ReaderOp (List String)
  | 0 => return []
  | count + 1 => do
    let value ← string
    let rest ← strings count
    return value :: rest

def done : ReaderOp Unit := do
  let r ← Op.get
  if r.offset = r.bytes.length then return ()
  else Op.fail EPROTO

end Reader

/-! ## Writing -/

structure Writer where
  bytes : List UInt8
  capacity : Nat
  header : 4 ≤ bytes.length
  bounded : bytes.length ≤ capacity

namespace Writer

/-- `capacity - bytes.len()`; `bounded` keeps it from underflowing. -/
def remaining (w : Writer) : Nat := w.capacity - w.bytes.length

theorem append_header (w : Writer) (bytes : List UInt8) : 4 ≤ (w.bytes ++ bytes).length := by
  have hheader := w.header
  rw [List.length_append]
  omega

theorem append_bounded {w : Writer} {bytes : List UInt8}
    (h : ¬w.capacity < w.bytes.length + bytes.length) :
    (w.bytes ++ bytes).length ≤ w.capacity := by
  rw [List.length_append]
  omega

def append (w : Writer) (bytes : List UInt8) : Wire Writer :=
  match checkedAdd usizeMax w.bytes.length bytes.length with
  | none => .err ENOSPC
  | some _ =>
    if h : w.capacity < w.bytes.length + bytes.length then .err ENOSPC
    else .ok
      { bytes := w.bytes ++ bytes
        capacity := w.capacity
        header := append_header w bytes
        bounded := append_bounded h }

def u8 (w : Writer) (value : UInt8) : Wire Writer := w.append [value]

def u16 (w : Writer) (value : UInt16) : Wire Writer :=
  w.append (LittleEndian.encode 2 value.toNat)

def u32 (w : Writer) (value : UInt32) : Wire Writer :=
  w.append (LittleEndian.encode 4 value.toNat)

def u64 (w : Writer) (value : UInt64) : Wire Writer :=
  w.append (LittleEndian.encode 8 value.toNat)

def utf8 (value : String) : List UInt8 := value.toUTF8.data.toList

def string (w : Writer) (value : String) : Wire Writer :=
  if 65535 < value.utf8ByteSize then .err ENOSPC
  else do
    let w ← w.u16 (UInt16.ofNat value.utf8ByteSize)
    w.append (utf8 value)

def qidType : InodeKind → UInt8
  | .directory _ _ => 0x80
  | .symlink _ => 2
  | .file _ => 0

def qid (w : Writer) (inode : Inode) : Wire Writer := do
  let w ← w.u8 (qidType inode.kind)
  let w ← w.u32 inode.version
  w.u64 (UInt64.ofNat inode.id)

def new (kind : UInt8) (tag : UInt16) (capacity : Nat) : Wire Writer :=
  if h : capacity < 7 then .err ENOSPC
  else do
    let w : Writer :=
      { bytes := List.replicate 4 0
        capacity := capacity
        header := by rw [List.length_replicate]
        bounded := by rw [List.length_replicate]; omega }
    let w ← w.u8 kind
    w.u16 tag

/-- `u32::try_from(value).expect(..)`. -/
def expectU32 {ε : Type} (value : Nat) : Outcome ε UInt32 :=
  if value ≤ u32Max then .ok (UInt32.ofNat value) else .panic

/-- The message, with its length in the first four bytes. -/
def finish {ε : Type} (w : Writer) : Outcome ε (List UInt8) := do
  let length ← expectU32 w.bytes.length
  .ok (LittleEndian.encode 4 length.toNat ++ w.bytes.drop 4)

end Writer

end Riscbox
