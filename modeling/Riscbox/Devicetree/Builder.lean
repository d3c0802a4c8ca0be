import Riscbox.Devicetree.Format
import Riscbox.Program.Outcome

/-!
# The builder of the device tree

`Builder` of `src/fdt.rs`, and the tree of the machine that `build` makes with it.
-/

namespace Riscbox
namespace Devicetree

open StringTable (Name entryAt flat add)

/-- `block` is the field `structure` of the source. -/
structure Builder where
  block : List UInt8
  strings : List UInt8
  depth : Nat
  deriving DecidableEq, Repr

abbrev Built (α : Type) : Type := Outcome Empty α

/-- `u32::try_from` with `expect`. -/
def toU32 (n : Nat) : Built Nat := if n < 2 ^ 32 then .ok n else .panic

namespace Builder

def init : Builder := ⟨[], [], 0⟩

def word (value : Nat) (b : Builder) : Builder := { b with block := b.block ++ bigEndian value }

/-- The block grows to the next word with zeros. -/
def data (value : List UInt8) (b : Builder) : Builder :=
  let block := b.block ++ value
  { b with block := block ++ List.replicate (padding block.length) 0 }

def node (name : Name) (b : Builder) : Builder :=
  let b := (b.word beginNode).data (name ++ [0])
  { b with depth := b.depth + 1 }

def endNode (b : Builder) : Built Builder := do
  let b := b.word Devicetree.endNode
  let depth ← Outcome.sub b.depth 1
  pure { b with depth := depth }

/-- The loop of `string_offset`: the entries of the table from `start` on. -/
def scan (strings : List UInt8) (name : Name) (start : Nat) : Option Nat :=
  if start < strings.length then
    if entryAt strings start = name then some start
    else scan strings name (start + (entryAt strings start).length + 1)
  else none
termination_by strings.length - start

def stringOffset (name : Name) (b : Builder) : Built (Nat × Builder) :=
  match scan b.strings name 0 with
  | some start => do
    let offset ← toU32 start
    pure (offset, b)
  | none => do
    let offset ← toU32 b.strings.length
    pure (offset, { b with strings := b.strings ++ name ++ [0] })

def property (name : Name) (value : List UInt8) (b : Builder) : Built Builder := do
  let (offset, b) ← b.stringOffset name
  let b := b.word prop
  let length ← toU32 value.length
  pure (((b.word length).word offset).data value)

/-- `next_multiple_of(8)`. -/
def align (total : Nat) : Nat := (total + 7) / 8 * 8

/-- The header of a blob with blocks of these sizes. -/
def header (structLength stringsLength total : Nat) : Header where
  magic := 0xd00dfeed
  totalsize := total
  offDtStruct := 56
  offDtStrings := 56 + structLength
  offMemRsvmap := 40
  version := 17
  lastCompVersion := 16
  bootCpuidPhys := 0
  sizeDtStrings := stringsLength
  sizeDtStruct := structLength

def finish (b : Builder) : Built (List UInt8) :=
  if b.depth ≠ 0 then .panic
  else do
    let b := b.word endToken
    let structLength ← toU32 b.block.length
    let stringOffset ← toU32 (56 + structLength)
    let total := stringOffset + b.strings.length
    let alignedTotal ← toU32 (align total)
    let stringsLength ← toU32 b.strings.length
    let output := (header structLength stringsLength alignedTotal).encode ++
      List.replicate 16 0 ++ b.block ++ b.strings
    pure (output ++ List.replicate (align total - output.length) 0)

end Builder

/-! ## Sequences of calls -/

inductive Call
  | node (name : Name)
  | endNode
  | property (name : Name) (value : List UInt8)
  deriving DecidableEq, Repr

namespace Call

def apply : Call → Builder → Built Builder
  | node name, b => .ok (b.node name)
  | endNode, b => b.endNode
  | property name value, b => b.property name value

def applyAll : List Call → Builder → Built Builder
  | [], b => .ok b
  | call :: rest, b => do
    let b ← call.apply b
    applyAll rest b

/-- The blob that a builder makes of the calls. -/
def blob (calls : List Call) : Built (List UInt8) := do
  let b ← applyAll calls .init
  b.finish

/-- The names that the calls give are terminated strings. -/
def Named : Call → Prop
  | node name => (0 : UInt8) ∉ name
  | endNode => True
  | property name _ => (0 : UInt8) ∉ name

/-- From `depth` open nodes the calls close every node with the last of them. -/
def Closes : Nat → List Call → Prop
  | 0, calls => calls = []
  | _ + 1, [] => False
  | depth + 1, node _ :: rest => Closes (depth + 2) rest
  | depth + 1, endNode :: rest => Closes depth rest
  | depth + 1, property _ _ :: rest => Closes (depth + 1) rest

/-- The calls make one root node. -/
def Rooted : List Call → Prop
  | node _ :: rest => Closes 1 rest
  | _ => False

def size : Call → Nat
  | node name => 4 + (padded (name ++ [0])).length
  | endNode => 4
  | property _ value => 12 + (padded value).length

def propertyName : Call → Option Name
  | property name _ => some name
  | _ => none

/-- The string table, in the order of the first uses. -/
def table (calls : List Call) : List Name := (calls.filterMap propertyName).foldl add []

/-- The structure block with its end. -/
def structLength (calls : List Call) : Nat := (calls.map size).sum + 4

def totalSize (calls : List Call) : Nat :=
  Builder.align (56 + structLength calls + (flat (table calls)).length)

end Call

/-! ## The calls of a tree -/

namespace Items

def calls : Items Name → List Call
  | nil => []
  | property name value rest => .property name value :: rest.calls
  | node name children rest => .node name :: (children.calls ++ .endNode :: rest.calls)

end Items

def Node.calls (root : Node Name) : List Call :=
  .node root.name :: (root.items.calls ++ [.endNode])

end Devicetree
end Riscbox
