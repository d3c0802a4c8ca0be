import Riscbox.Collections.LittleEndian
import Riscbox.Collections.StringTable

/-!
# Flattened device trees

The tree, its structure block with a string table beside it, and a reader of the format
in version 17.  A tree over offsets is what the structure block holds; the string table
turns the offsets into names.
-/

namespace Riscbox
namespace Devicetree

open StringTable (Name nameAt)

/-- The properties and the subnodes of a node, in order. -/
inductive Items (ν : Type) where
  | nil
  | property (name : ν) (value : List UInt8) (rest : Items ν)
  | node (name : Name) (children rest : Items ν)
  deriving DecidableEq, Repr

structure Node (ν : Type) where
  name : Name
  items : Items ν
  deriving DecidableEq, Repr

/-! ## Words and padding -/

def bigEndian (n : Nat) : List UInt8 := (LittleEndian.encode 4 n).reverse

def readWord : List UInt8 → Option (Nat × List UInt8)
  | a :: b :: c :: d :: rest => some (LittleEndian.decode [d, c, b, a], rest)
  | _ => none

def padding (length : Nat) : Nat := (4 - length % 4) % 4

def padded (value : List UInt8) : List UInt8 := value ++ List.replicate (padding value.length) 0

/-- `length` bytes and the zeros up to the next word. -/
def readPadded (length : Nat) (bytes : List UInt8) : Option (List UInt8 × List UInt8) :=
  if length + padding length ≤ bytes.length ∧
      (bytes.drop length).take (padding length) = List.replicate (padding length) 0 then
    some (bytes.take length, bytes.drop (length + padding length))
  else none

/-- A terminated name, with its padding. -/
def readName (bytes : List UInt8) : Option (Name × List UInt8) := do
  let name := bytes.takeWhile (· ≠ 0)
  let (_, rest) ← readPadded (name.length + 1) bytes
  pure (name, rest)

/-! ## The structure block -/

def beginNode : Nat := 1
def endNode : Nat := 2
def prop : Nat := 3
def nop : Nat := 4
def endToken : Nat := 9

/-- The next token that is not `nop`. -/
def readToken : List UInt8 → Option (Nat × List UInt8)
  | a :: b :: c :: d :: rest =>
    if LittleEndian.decode [d, c, b, a] = nop then readToken rest
    else some (LittleEndian.decode [d, c, b, a], rest)
  | _ => none

/-- The items of a node up to its end. -/
def readItems : Nat → List UInt8 → Option (Items Nat × List UInt8)
  | 0, _ => none
  | fuel + 1, bytes => do
    let (token, bytes) ← readToken bytes
    if token = endNode then pure (.nil, bytes)
    else if token = prop then do
      let (length, bytes) ← readWord bytes
      let (offset, bytes) ← readWord bytes
      let (value, bytes) ← readPadded length bytes
      let (rest, bytes) ← readItems fuel bytes
      pure (.property offset value rest, bytes)
    else if token = beginNode then do
      let (name, bytes) ← readName bytes
      let (children, bytes) ← readItems fuel bytes
      let (rest, bytes) ← readItems fuel bytes
      pure (.node name children rest, bytes)
    else none

/-- One node, and the end of the block. -/
def readStructure (bytes : List UInt8) : Option (Node Nat) := do
  let (token, bytes) ← readToken bytes
  if token = beginNode then do
    let (name, bytes) ← readName bytes
    let (items, bytes) ← readItems (bytes.length + 1) bytes
    let (token, bytes) ← readToken bytes
    if token = endToken ∧ bytes = [] then pure ⟨name, items⟩ else none
  else none

namespace Items

variable {ν μ : Type}

def map (f : ν → μ) : Items ν → Items μ
  | nil => nil
  | property name value rest => property (f name) value (rest.map f)
  | node name children rest => node name (children.map f) (rest.map f)

/-- The names that the offsets stand for. -/
def resolve (strings : List UInt8) : Items Nat → Option (Items Name)
  | nil => some nil
  | property offset value rest => do
    let name ← nameAt strings offset
    let rest ← rest.resolve strings
    pure (property name value rest)
  | node name children rest => do
    let children ← children.resolve strings
    let rest ← rest.resolve strings
    pure (node name children rest)

/-- The names of the properties. -/
def names : Items ν → List ν
  | nil => []
  | property name _ rest => name :: rest.names
  | node _ children rest => children.names ++ rest.names

/-- The structure block of the items. -/
def encode : Items Nat → List UInt8
  | nil => []
  | property offset value rest =>
    bigEndian prop ++ bigEndian value.length ++ bigEndian offset ++ padded value ++ rest.encode
  | node name children rest =>
    bigEndian beginNode ++ padded (name ++ [0]) ++ children.encode ++ bigEndian endNode ++
      rest.encode

/-- The number of tokens. -/
def tokens : Items ν → Nat
  | nil => 0
  | property _ _ rest => 1 + rest.tokens
  | node _ children rest => 2 + children.tokens + rest.tokens

/-- What can be encoded: node names without zero bytes, and words. -/
def Encodable : Items Nat → Prop
  | nil => True
  | property offset value rest =>
    offset < 2 ^ 32 ∧ value.length < 2 ^ 32 ∧ rest.Encodable
  | node name children rest =>
    (0 : UInt8) ∉ name ∧ children.Encodable ∧ rest.Encodable

end Items

namespace Node

variable {ν μ : Type}

def map (f : ν → μ) (root : Node ν) : Node μ := ⟨root.name, root.items.map f⟩

def resolve (strings : List UInt8) (root : Node Nat) : Option (Node Name) :=
  (root.items.resolve strings).map (Node.mk root.name)

def encode (root : Node Nat) : List UInt8 :=
  bigEndian beginNode ++ padded (root.name ++ [0]) ++ root.items.encode ++ bigEndian endNode ++
    bigEndian endToken

end Node

/-! ## The blob -/

structure Header where
  magic : Nat
  totalsize : Nat
  offDtStruct : Nat
  offDtStrings : Nat
  offMemRsvmap : Nat
  version : Nat
  lastCompVersion : Nat
  bootCpuidPhys : Nat
  sizeDtStrings : Nat
  sizeDtStruct : Nat
  deriving DecidableEq, Repr

namespace Header

def read (bytes : List UInt8) : Option Header := do
  let (magic, bytes) ← readWord bytes
  let (totalsize, bytes) ← readWord bytes
  let (offDtStruct, bytes) ← readWord bytes
  let (offDtStrings, bytes) ← readWord bytes
  let (offMemRsvmap, bytes) ← readWord bytes
  let (version, bytes) ← readWord bytes
  let (lastCompVersion, bytes) ← readWord bytes
  let (bootCpuidPhys, bytes) ← readWord bytes
  let (sizeDtStrings, bytes) ← readWord bytes
  let (sizeDtStruct, _) ← readWord bytes
  pure
    { magic, totalsize, offDtStruct, offDtStrings, offMemRsvmap, version, lastCompVersion
      bootCpuidPhys, sizeDtStrings, sizeDtStruct }

def words (h : Header) : List Nat :=
  [h.magic, h.totalsize, h.offDtStruct, h.offDtStrings, h.offMemRsvmap, h.version,
    h.lastCompVersion, h.bootCpuidPhys, h.sizeDtStrings, h.sizeDtStruct]

def encode (h : Header) : List UInt8 := h.words.flatMap bigEndian

/-- Version 17, with its blocks inside of the blob. -/
structure Sound (h : Header) (blob : List UInt8) : Prop where
  magic : h.magic = 0xd00dfeed
  version : h.version = 17
  lastCompVersion : h.lastCompVersion ≤ 17
  totalsize : h.totalsize ≤ blob.length
  struct : h.offDtStruct + h.sizeDtStruct ≤ h.totalsize
  strings : h.offDtStrings + h.sizeDtStrings ≤ h.totalsize
  rsvmap : h.offMemRsvmap + 16 ≤ h.totalsize

instance (h : Header) (blob : List UInt8) : Decidable (h.Sound blob) :=
  decidable_of_iff
    (h.magic = 0xd00dfeed ∧ h.version = 17 ∧ h.lastCompVersion ≤ 17 ∧
      h.totalsize ≤ blob.length ∧ h.offDtStruct + h.sizeDtStruct ≤ h.totalsize ∧
      h.offDtStrings + h.sizeDtStrings ≤ h.totalsize ∧ h.offMemRsvmap + 16 ≤ h.totalsize)
    ⟨fun ⟨h₁, h₂, h₃, h₄, h₅, h₆, h₇⟩ => ⟨h₁, h₂, h₃, h₄, h₅, h₆, h₇⟩,
      fun ⟨h₁, h₂, h₃, h₄, h₅, h₆, h₇⟩ => ⟨h₁, h₂, h₃, h₄, h₅, h₆, h₇⟩⟩

end Header

def slice (blob : List UInt8) (start size : Nat) : List UInt8 := (blob.drop start).take size

/-- The tree of a blob without memory reservations. -/
def read (blob : List UInt8) : Option (Node Name) := do
  let header ← Header.read blob
  if header.Sound blob ∧ slice blob header.offMemRsvmap 16 = List.replicate 16 0 then do
    let root ← readStructure (slice blob header.offDtStruct header.sizeDtStruct)
    root.resolve (slice blob header.offDtStrings header.sizeDtStrings)
  else none

end Devicetree
end Riscbox
