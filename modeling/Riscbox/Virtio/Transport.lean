import Riscbox.Filesystem.Types
import Riscbox.Program.Outcome
import Riscbox.Virtio.Memory

/-!
# Split rings

The queue side of `src/virtio.rs`: taking chains from an available ring, copying
through them, and publishing them in a used ring.
-/

namespace Riscbox
namespace Virtio

inductive QueueError where
  | notReady
  | invalidQueue
  | invalidSize
  | invalidDescriptor
  | descriptorLoop
  | unsupportedIndirect
  | directionChange
  | tooShort
  | overflow
  | misaligned
  | memory
  deriving DecidableEq, Repr

structure VirtQueue where
  maxSize : UInt16
  size : UInt16
  ready : Bool
  lastAvail : UInt16
  desc : UInt64
  avail : UInt64
  used : UInt64
  deriving DecidableEq, Repr

structure Segment where
  address : Nat
  len : Nat
  writable : Bool
  deriving DecidableEq, Repr

structure DescriptorChain where
  head : UInt16
  readable : Nat
  writable : Nat
  segments : List Segment
  deriving DecidableEq, Repr

structure VirtioTransport where
  deviceId : UInt32
  deviceFeatures : UInt64
  driverFeatures : UInt64
  deviceFeaturesSel : UInt32
  driverFeaturesSel : UInt32
  queueSel : UInt16
  queues : List VirtQueue
  status : UInt32
  interruptStatus : UInt32
  configGeneration : UInt32
  deriving DecidableEq, Repr

namespace VirtioTransport

def queueChecked (transport : VirtioTransport) (index : UInt16) : Outcome QueueError VirtQueue :=
  .okOr .invalidQueue transport.queues[index.toNat]?

def raiseConfigInterrupt (transport : VirtioTransport) : VirtioTransport :=
  { transport with
    configGeneration := transport.configGeneration + 1
    interruptStatus := transport.interruptStatus ||| 2 }

end VirtioTransport

/-- What happens on a bus, for the statements about it: the source keeps no such record. -/
inductive Event where
  | taken (queue : UInt16) (chain : DescriptorChain)
  | wrote (address : Nat) (bytes : List UInt8)
  | completed (queue : UInt16) (chain : DescriptorChain) (written : Nat)
  deriving DecidableEq, Repr

/-- What a device reaches when it serves a queue. -/
structure Bus where
  transport : VirtioTransport
  memory : GuestMemory
  trace : List Event

namespace Bus

def log (event : Event) (bus : Bus) : Bus := { bus with trace := bus.trace ++ [event] }

end Bus

abbrev BusOp (α : Type) : Type := Op Bus QueueError α

/-- `checked_add` on addresses. -/
def addAddress (base offset : Nat) : Outcome QueueError Nat :=
  .okOr .overflow (checkedAdd u64Max base offset)

def readWord (memory : GuestMemory) (address width : Nat) : Outcome QueueError Nat :=
  .okOr .memory (memory.read address width)

def readU16 (memory : GuestMemory) (address : Nat) : Outcome QueueError UInt16 := do
  let word ← readWord memory address 2
  return UInt16.ofNat word

/-- Guest bytes change here only. -/
def store (address : Nat) (bytes : List UInt8) : BusOp Unit := fun bus =>
  match bus.memory.writeBytes address bytes with
  | none => (.err .memory, bus)
  | some memory => (.ok (), { bus with memory := memory }.log (.wrote address bytes))

def writeWord (address width value : Nat) : BusOp Unit :=
  store address (LittleEndian.encode width value)

def validateQueue (queue : VirtQueue) : Outcome QueueError Unit :=
  if queue.size = 0 ∨ ¬queue.size.toNat.isPowerOfTwo ∨ queue.size > queue.maxSize then
    .err .invalidSize
  else if queue.desc % 16 ≠ 0 ∨ queue.avail % 2 ≠ 0 ∨ queue.used % 4 ≠ 0 then .err .misaligned
  else .ok ()

/-! ## Descriptor chains -/

/-- What `read_chain` has gathered before a descriptor. -/
structure Gathered where
  writing : Bool
  readable : Nat
  writable : Nat
  segments : List Segment

def Gathered.none : Gathered := { writing := false, readable := 0, writable := 0, segments := [] }

/-- One descriptor: its segment added, and the next index if it has one. -/
def readDescriptor (memory : GuestMemory) (queue : VirtQueue) (index : UInt16)
    (gathered : Gathered) : Outcome QueueError (Gathered × Option UInt16) := do
  if index ≥ queue.size then .err .invalidDescriptor else .ok ()
  let address ← addAddress queue.desc.toNat (index.toNat * 16)
  let dataAddress ← readWord memory address 8
  let len ← readWord memory (← addAddress address 8) 4
  let flags ← readU16 memory (← addAddress address 12)
  let next ← readU16 memory (← addAddress address 14)
  if flags &&& 4 ≠ 0 then .err .unsupportedIndirect else .ok ()
  let isWritable := decide (flags &&& 2 ≠ 0)
  if isWritable = false ∧ gathered.writing = true then .err .directionChange else .ok ()
  let total ← .okOr .overflow
    (checkedAdd u32Max (if isWritable then gathered.writable else gathered.readable) len)
  if len ≠ 0 then
    let _ ← addAddress dataAddress len
    if memory.validateRam dataAddress len isWritable then .ok () else .err .memory
  else .ok ()
  let gathered : Gathered :=
    { writing := gathered.writing || isWritable
      readable := if isWritable then gathered.readable else total
      writable := if isWritable then total else gathered.writable
      segments := gathered.segments ++
        [{ address := dataAddress, len := len, writable := isWritable }] }
  return (gathered, if flags &&& 1 = 0 then none else some next)

/-- The walk visits no more descriptors than the queue has. -/
def readChainLoop (memory : GuestMemory) (queue : VirtQueue) (head : UInt16) :
    Nat → UInt16 → Gathered → Outcome QueueError DescriptorChain
  | 0, _, _ => .err .descriptorLoop
  | fuel + 1, index, gathered => do
    let (gathered, next) ← readDescriptor memory queue index gathered
    match next with
    | none =>
      .ok
        { head := head, readable := gathered.readable, writable := gathered.writable
          segments := gathered.segments }
    | some next => readChainLoop memory queue head fuel next gathered

def readChain (memory : GuestMemory) (queue : VirtQueue) (head : UInt16) :
    Outcome QueueError DescriptorChain :=
  readChainLoop memory queue head queue.size.toNat head .none

/-! ## Taking and completing chains -/

/-- The index that the driver has published. -/
def availIndex (memory : GuestMemory) (queue : VirtQueue) : Outcome QueueError UInt16 := do
  let address ← addAddress queue.avail.toNat 2
  readU16 memory address

/-- The chain at the head that the available ring names next. -/
def headChain (memory : GuestMemory) (queue : VirtQueue) : Outcome QueueError DescriptorChain := do
  let slot := queue.lastAvail &&& (queue.size - 1)
  let address ← addAddress queue.avail.toNat (4 + slot.toNat * 2)
  let head ← readU16 memory address
  if head ≥ queue.size then .err .invalidDescriptor else .ok ()
  readChain memory queue head

/-- The queue with its next chain taken. -/
def VirtQueue.advanced (queue : VirtQueue) : VirtQueue :=
  { queue with lastAvail := queue.lastAvail + 1 }

def nextChain (index : UInt16) : BusOp (Option DescriptorChain) := fun bus =>
  match bus.transport.queueChecked index with
  | .err e => (.err e, bus)
  | .panic => (.panic, bus)
  | .ok queue =>
    let found : Outcome QueueError (Option DescriptorChain) := do
      if queue.ready = false then .err .notReady else .ok ()
      validateQueue queue
      let published ← availIndex bus.memory queue
      if queue.lastAvail = published then return none
      let chain ← headChain bus.memory queue
      return some chain
    match found with
    | .ok (some chain) =>
      let transport := { bus.transport with
        queues := bus.transport.queues.set index.toNat queue.advanced }
      (.ok (some chain), { bus with transport := transport }.log (.taken index chain))
    | ending => (ending, bus)

/-- The bytes of the readable segments from `skip` on. -/
def gather (memory : GuestMemory) : List Segment → Nat → Nat → Outcome QueueError (List UInt8)
  | [], _, count => if count = 0 then .ok [] else .err .tooShort
  | segment :: rest, skip, count =>
    if skip ≥ segment.len then gather memory rest (skip - segment.len) count
    else do
      let length := min (segment.len - skip) count
      let address ← addAddress segment.address skip
      let bytes ← .okOr .memory (memory.readBytes address length)
      if length = count then return bytes
      let more ← gather memory rest 0 (count - length)
      return bytes ++ more

/-- `read_chain` of the transport. -/
def copyChain (memory : GuestMemory) (chain : DescriptorChain) (offset count : Nat) :
    Outcome QueueError (List UInt8) :=
  if count > u32Max ∨ offset + count > u32Max then .err .overflow
  else if offset + count > chain.readable then .err .tooShort
  else gather memory (chain.segments.filter fun segment => !segment.writable) offset count

/-- Bytes written over the writable segments from `skip` on. -/
def scatter : List Segment → Nat → List UInt8 → BusOp Unit
  | [], _, bytes => if bytes.length = 0 then pure () else Op.fail .tooShort
  | segment :: rest, skip, bytes =>
    if skip ≥ segment.len then scatter rest (skip - segment.len) bytes
    else do
      let length := min (segment.len - skip) bytes.length
      let address ← Op.lift (addAddress segment.address skip)
      store address (bytes.take length)
      if length = bytes.length then pure () else scatter rest 0 (bytes.drop length)

def writeChain (chain : DescriptorChain) (offset : Nat) (bytes : List UInt8) : BusOp Unit :=
  if bytes.length > u32Max ∨ offset + bytes.length > u32Max then Op.fail .overflow
  else if offset + bytes.length > chain.writable then Op.fail .tooShort
  else scatter (chain.segments.filter (·.writable)) offset bytes

/-- The used element, then the used index, then the interrupt. -/
def publish (index : UInt16) (queue : VirtQueue) (chain : DescriptorChain) (written : Nat) :
    BusOp Unit := do
  Op.lift (validateQueue queue)
  if written > chain.writable then Op.fail .tooShort
  let indexAddress ← Op.lift (addAddress queue.used.toNat 2)
  let usedIndex ← Op.reading fun bus => readU16 bus.memory indexAddress
  let slot := usedIndex &&& (queue.size - 1)
  let element ← Op.lift (addAddress queue.used.toNat (4 + slot.toNat * 8))
  writeWord element 4 chain.head.toNat
  let length ← Op.lift (addAddress element 4)
  writeWord length 4 written
  writeWord indexAddress 2 (usedIndex + 1).toNat
  Op.modify fun bus =>
    { bus with
      transport := { bus.transport with
        interruptStatus := bus.transport.interruptStatus ||| 1 } }.log
      (.completed index chain written)

def completeChain (index : UInt16) (chain : DescriptorChain) (written : Nat) : BusOp Unit := do
  let queue ← Op.reading fun bus => bus.transport.queueChecked index
  publish index queue chain written

end Virtio
end Riscbox
