import Riscbox.Storage.Store
import Riscbox.Virtio.Transport

/-!
# Devices

How the devices of `src/virtio_devices.rs` serve their queues.  The loop over a queue
runs on fuel, and says so when it has used all of it: `none` is a device that is
still busy.
-/

namespace Riscbox
namespace Virtio

open Storage (BlockStore)
open Storage.BlockStore (BlockRequestStatus)

inductive DeviceError where
  | queue (error : QueueError)
  | invalidRequest
  | backend
  deriving DecidableEq, Repr

/-- A device on its bus. -/
structure Attached (δ : Type) where
  device : δ
  bus : Bus

abbrev DeviceOp (δ α : Type) : Type := Op (Attached δ) DeviceError α

variable {δ α : Type}

def onBus (x : BusOp α) : DeviceOp δ α := fun s =>
  match x s.bus with
  | (.ok a, bus) => (.ok a, { s with bus := bus })
  | (.err e, bus) => (.err (.queue e), { s with bus := bus })
  | (.panic, bus) => (.panic, { s with bus := bus })

/-- The bytes that `read_chain` of the transport copies. -/
def copied (chain : DescriptorChain) (offset count : Nat) : BusOp (List UInt8) := fun bus =>
  (copyChain bus.memory chain offset count, bus)

def setDevice (f : δ → δ) : DeviceOp δ Unit := Op.modify fun s => { s with device := f s.device }

/-- How a call on a device ends, if it does. -/
abbrev Ending : Type := Option (Outcome DeviceError Unit)

/-- `while let Some(chain) = transport.next_chain(..)?` with the body of the loop, while
there is `more` to do.  The body tells whether to go on. -/
def drain (index : UInt16) (more : δ → Bool) (body : DescriptorChain → DeviceOp δ Bool) :
    Nat → Attached δ → Ending × Attached δ
  | 0, s => (none, s)
  | fuel + 1, s =>
    if more s.device = false then (some (.ok ()), s)
    else match onBus (nextChain index) s with
      | (.err e, s) => (some (.err e), s)
      | (.panic, s) => (some .panic, s)
      | (.ok none, s) => (some (.ok ()), s)
      | (.ok (some chain), s) =>
        match body chain s with
        | (.err e, s) => (some (.err e), s)
        | (.panic, s) => (some .panic, s)
        | (.ok false, s) => (some (.ok ()), s)
        | (.ok true, s) => drain index more body fuel s

def always (_ : δ) : Bool := true

/-- A call that ends without a loop. -/
def ended (ending : Outcome DeviceError Unit) (s : Attached δ) : Ending × Attached δ :=
  (some ending, s)

/-- `status & 4`: the driver runs. -/
def driverOk (s : Attached δ) : Bool := s.bus.transport.status &&& 4 ≠ 0

/-! ## Entropy -/

class EntropySource (ε : Type) where
  fill : (length : Nat) → ε → Option { bytes : List UInt8 // bytes.length = length } × ε

structure EntropyDevice (ε : Type) where
  source : ε

namespace EntropyDevice

variable {ε : Type} [EntropySource ε]

def chunkSize : Nat := 65536

def fill (length : Nat) : DeviceOp (EntropyDevice ε) (List UInt8) := fun s =>
  match EntropySource.fill length s.device.source with
  | (some bytes, source) => (.ok bytes.1, { s with device := { source := source } })
  | (none, source) => (.err .backend, { s with device := { source := source } })

/-- Every turn fills a byte at least, so the length of the chain is fuel enough. -/
def fillChain (chain : DescriptorChain) : Nat → Nat → DeviceOp (EntropyDevice ε) Unit
  | 0, _ => pure ()
  | fuel + 1, offset =>
    if offset < chain.writable then do
      let length := min (chain.writable - offset) chunkSize
      let bytes ← fill length
      onBus (writeChain chain offset bytes)
      fillChain chain fuel (offset + length)
    else pure ()

def serve (queue : UInt16) (chain : DescriptorChain) : DeviceOp (EntropyDevice ε) Bool := do
  if chain.readable ≠ 0 then Op.fail .invalidRequest
  fillChain chain chain.writable 0
  onBus (completeChain queue chain chain.writable)
  return true

def notify (fuel : Nat) (queue : UInt16) (s : Attached (EntropyDevice ε)) :
    Ending × Attached (EntropyDevice ε) :=
  if queue ≠ 0 then ended (.err .invalidRequest) s
  else drain queue always (serve queue) fuel s

end EntropyDevice

/-! ## Block -/

class BlockBackend (β : Type) where
  capacitySectors : β → Nat
  reset : β → β
  readRequest : Nat → List UInt8 → β → List UInt8 × Outcome Unit BlockRequestStatus × β
  writeRequest : Nat → List UInt8 → β → Outcome Unit BlockRequestStatus × β

instance : BlockBackend BlockStore where
  capacitySectors := BlockStore.capacitySectors
  reset := BlockStore.reset
  readRequest := BlockStore.readRequest
  writeRequest := BlockStore.writeRequest

structure BlockDevice (β : Type) where
  backend : β
  id : List UInt8
  pending : Option (UInt16 × DescriptorChain)

namespace BlockDevice

variable {β : Type} [BlockBackend β]

def reset (device : BlockDevice β) : BlockDevice β :=
  { device with pending := none, backend := BlockBackend.reset device.backend }

def validateRange (device : BlockDevice β) (sector len : Nat) : Outcome DeviceError Unit :=
  if len = 0 ∨ ¬512 ∣ len then .err .invalidRequest
  else match checkedAdd u64Max sector (len / 512) with
    | none => .err .invalidRequest
    | some stop =>
      if stop > BlockBackend.capacitySectors device.backend then .err .invalidRequest else .ok ()

def readBackend (sector len : Nat) :
    DeviceOp (BlockDevice β) (List UInt8 × Except Unit BlockRequestStatus) := fun s =>
  match BlockBackend.readRequest sector (List.replicate len 0) s.device.backend with
  | (data, .ok status, backend) =>
    (.ok (data, .ok status), { s with device := { s.device with backend := backend } })
  | (data, .err e, backend) =>
    (.ok (data, .error e), { s with device := { s.device with backend := backend } })
  | (_, .panic, backend) => (.panic, { s with device := { s.device with backend := backend } })

def writeBackend (sector : Nat) (data : List UInt8) :
    DeviceOp (BlockDevice β) (Except Unit BlockRequestStatus) := fun s =>
  match BlockBackend.writeRequest sector data s.device.backend with
  | (.ok status, backend) =>
    (.ok (.ok status), { s with device := { s.device with backend := backend } })
  | (.err e, backend) =>
    (.ok (.error e), { s with device := { s.device with backend := backend } })
  | (.panic, backend) => (.panic, { s with device := { s.device with backend := backend } })

/-- The status byte and the number of written bytes, once a request is over. -/
abbrev Answered : Type := Option (UInt8 × Nat)

def readSectors (chain : DescriptorChain) (sector : Nat) : DeviceOp (BlockDevice β) Answered := do
  let len := chain.writable - 1
  Op.reading fun s => s.device.validateRange sector len
  let (data, result) ← readBackend sector len
  match result with
  | .ok .pending => return none
  | .ok .complete => do
    onBus (writeChain chain 0 data)
    return some (0, len + 1)
  | .error _ => do
    onBus (writeChain chain 0 data)
    return some (1, len + 1)

def writeSectors (chain : DescriptorChain) (sector : Nat) : DeviceOp (BlockDevice β) Answered := do
  let len := chain.readable - 16
  Op.reading fun s => s.device.validateRange sector len
  let data ← onBus (copied chain 16 len)
  match ← writeBackend sector data with
  | .ok .pending => return none
  | .ok .complete => return some (0, 1)
  | .error _ => return some (1, 1)

def identify (chain : DescriptorChain) : DeviceOp (BlockDevice β) Answered := do
  let s ← Op.get
  onBus (writeChain chain 0 s.device.id)
  return some (0, 21)

/-- The request in the header of a chain, up to its status byte. -/
def answer (chain : DescriptorChain) : DeviceOp (BlockDevice β) Answered := do
  if chain.readable < 16 ∨ chain.writable < 1 then Op.fail .invalidRequest
  let header ← onBus (copied chain 0 16)
  let kind := LittleEndian.decode (header.take 4)
  let sector := LittleEndian.decode (header.drop 8)
  if kind = 0 then readSectors chain sector
  else if kind = 1 then writeSectors chain sector
  else if kind = 8 ∧ chain.writable = 21 then identify chain
  else return some (2, 1)

/-- The status byte, and the chain returned. -/
def finish (queue : UInt16) (chain : DescriptorChain) (status : UInt8) (written : Nat) :
    DeviceOp (BlockDevice β) Unit := do
  onBus (writeChain chain (chain.writable - 1) [status])
  onBus (completeChain queue chain written)

def request (queue : UInt16) (chain : DescriptorChain) :
    DeviceOp (BlockDevice β) BlockRequestStatus := do
  match ← answer chain with
  | none => return .pending
  | some (status, written) => do
    finish queue chain status written
    return .complete

def setPending (pending : Option (UInt16 × DescriptorChain)) : DeviceOp (BlockDevice β) Unit :=
  setDevice fun device => { device with pending := pending }

/-- The turn of the loop: a pending request ends it. -/
def serve (queue : UInt16) (chain : DescriptorChain) : DeviceOp (BlockDevice β) Bool := do
  match ← request queue chain with
  | .pending => do
    setPending (some (queue, chain))
    return false
  | .complete => return true

def notify (fuel : Nat) (queue : UInt16) (s : Attached (BlockDevice β)) :
    Ending × Attached (BlockDevice β) :=
  if s.device.pending.isSome then ended (.ok ()) s else drain queue always (serve queue) fuel s

def resume (fuel : Nat) (s : Attached (BlockDevice β)) : Ending × Attached (BlockDevice β) :=
  match s.device.pending with
  | none => ended (.ok ()) s
  | some (queue, chain) =>
    match serve queue chain { s with device := { s.device with pending := none } } with
    | (.err e, s) => (some (.err e), s)
    | (.panic, s) => (some .panic, s)
    | (.ok false, s) => (some (.ok ()), s)
    | (.ok true, s) => notify fuel queue s

end BlockDevice

/-! ## Console -/

structure ConsoleDevice where
  output : List UInt8
  input : List UInt8
  width : UInt16
  height : UInt16

namespace ConsoleDevice

def reset (device : ConsoleDevice) : ConsoleDevice := { device with input := [], output := [] }

def serveInput (chain : DescriptorChain) : DeviceOp ConsoleDevice Bool := do
  let s ← Op.get
  let count := min s.device.input.length chain.writable
  onBus (writeChain chain 0 (s.device.input.take count))
  setDevice fun device => { device with input := device.input.drop count }
  onBus (completeChain 0 chain count)
  return true

def drainInput (fuel : Nat) (s : Attached ConsoleDevice) : Ending × Attached ConsoleDevice :=
  drain 0 (fun device => !device.input.isEmpty) serveInput fuel s

def receive (fuel : Nat) (bytes : List UInt8) (s : Attached ConsoleDevice) :
    Ending × Attached ConsoleDevice :=
  let s := { s with device := { s.device with input := s.device.input ++ bytes } }
  if driverOk s then drainInput fuel s else ended (.ok ()) s

def resize (width height : UInt16) (s : Attached ConsoleDevice) : Attached ConsoleDevice :=
  { device := { s.device with width := width, height := height }
    bus := { s.bus with transport := s.bus.transport.raiseConfigInterrupt } }

def serveOutput (queue : UInt16) (chain : DescriptorChain) : DeviceOp ConsoleDevice Bool :=
  if queue = 1 then do
    let data ← onBus (copied chain 0 chain.readable)
    setDevice fun device => { device with output := device.output ++ data }
    onBus (completeChain queue chain 0)
    return true
  else Op.fail .invalidRequest

def notify (fuel : Nat) (queue : UInt16) (s : Attached ConsoleDevice) :
    Ending × Attached ConsoleDevice :=
  if queue = 0 then drainInput fuel s else drain queue always (serveOutput queue) fuel s

end ConsoleDevice

/-! ## Network -/

class NetworkBackend (ν : Type) where
  transmit : List UInt8 → ν → Bool × ν

structure NetworkDevice (ν : Type) where
  backend : ν
  carrierUp : Bool
  receive : List (List UInt8)
  receiveBytes : Nat

inductive NetworkIngress where
  | accepted
  | dropped
  deriving DecidableEq, Repr

namespace NetworkDevice

variable {ν : Type} [NetworkBackend ν]

def headerLen : Nat := 10

def maxFrameSize : Nat := 65535

def maxPendingFrames : Nat := 256

def maxPendingBytes : Nat := 2 ^ 20

/-- Its carrier outlives a reset. -/
def reset (device : NetworkDevice ν) : NetworkDevice ν :=
  { device with receive := [], receiveBytes := 0 }

def pushPacket (packet : List UInt8) (device : NetworkDevice ν) :
    NetworkIngress × NetworkDevice ν :=
  if packet.isEmpty ∨ packet.length > maxFrameSize ∨ device.receive.length ≥ maxPendingFrames ∨
      device.receiveBytes + packet.length > maxPendingBytes then (.dropped, device)
  else
    (.accepted,
      { device with
        receiveBytes := device.receiveBytes + packet.length
        receive := device.receive ++ [packet] })

def popPacket : DeviceOp (NetworkDevice ν) (List UInt8) := fun s =>
  match s.device.receive with
  | [] => (.panic, s)
  | packet :: rest =>
    (.ok packet,
      { s with
        device := { s.device with
          receive := rest, receiveBytes := s.device.receiveBytes - packet.length } })

def serveReceive (chain : DescriptorChain) : DeviceOp (NetworkDevice ν) Bool := do
  let packet ← popPacket
  let total := headerLen + packet.length
  if total > chain.writable then do
    onBus (completeChain 0 chain 0)
    return true
  else do
    onBus (writeChain chain 0 (List.replicate headerLen 0))
    onBus (writeChain chain 10 packet)
    onBus (completeChain 0 chain total)
    return true

def drainReceive (fuel : Nat) (s : Attached (NetworkDevice ν)) :
    Ending × Attached (NetworkDevice ν) :=
  drain 0 (fun device => !device.receive.isEmpty) serveReceive fuel s

def receivePacket (fuel : Nat) (packet : List UInt8) (s : Attached (NetworkDevice ν)) :
    Ending × Attached (NetworkDevice ν) :=
  match pushPacket packet s.device with
  | (.dropped, device) => ended (.ok ()) { s with device := device }
  | (.accepted, device) =>
    let s := { s with device := device }
    if driverOk s then drainReceive fuel s else ended (.ok ()) s

def setCarrier (up : Bool) (s : Attached (NetworkDevice ν)) : Attached (NetworkDevice ν) :=
  if s.device.carrierUp ≠ up then
    { device := { s.device with carrierUp := up }
      bus := { s.bus with transport := s.bus.transport.raiseConfigInterrupt } }
  else s

def transmit (frame : List UInt8) : DeviceOp (NetworkDevice ν) Unit := fun s =>
  match NetworkBackend.transmit frame s.device.backend with
  | (true, backend) => (.ok (), { s with device := { s.device with backend := backend } })
  | (false, backend) =>
    (.err .backend, { s with device := { s.device with backend := backend } })

def serveTransmit (queue : UInt16) (chain : DescriptorChain) : DeviceOp (NetworkDevice ν) Bool :=
  if queue = 1 then do
    if chain.readable < 10 then Op.fail .invalidRequest
    let data ← onBus (copied chain 0 chain.readable)
    if (data.take headerLen).any (· ≠ 0) then Op.fail .invalidRequest
    transmit (data.drop headerLen)
    onBus (completeChain queue chain 0)
    return true
  else Op.fail .invalidRequest

def notify (fuel : Nat) (queue : UInt16) (s : Attached (NetworkDevice ν)) :
    Ending × Attached (NetworkDevice ν) :=
  if queue = 0 then drainReceive fuel s else drain queue always (serveTransmit queue) fuel s

end NetworkDevice

/-! ## 9p -/

class NinePEndpoint (π : Type) where
  reset : π → π
  submit : List UInt8 → Nat → π → Option (List UInt8) × π

structure NinePDevice (π : Type) where
  endpoint : π

def validate9p (message : List UInt8) : Outcome DeviceError Unit :=
  if message.length < 7 ∨ LittleEndian.decode (message.take 4) ≠ message.length then
    .err .invalidRequest
  else .ok ()

namespace NinePDevice

variable {π : Type} [NinePEndpoint π]

def reset (device : NinePDevice π) : NinePDevice π :=
  { endpoint := NinePEndpoint.reset device.endpoint }

def submit (request : List UInt8) (capacity : Nat) : DeviceOp (NinePDevice π) (List UInt8) :=
  fun s =>
    match NinePEndpoint.submit request capacity s.device.endpoint with
    | (some reply, endpoint) => (.ok reply, { s with device := { endpoint := endpoint } })
    | (none, endpoint) => (.err .backend, { s with device := { endpoint := endpoint } })

/-- The tag of a message. -/
def tagOf (message : List UInt8) : List UInt8 := (message.drop 5).take 2

def complete (queue : UInt16) (chain : DescriptorChain) (requestTag reply : List UInt8) :
    DeviceOp (NinePDevice π) Unit := do
  Op.lift (validate9p reply)
  if requestTag ≠ tagOf reply ∨ reply.length > chain.writable then Op.fail .invalidRequest
  onBus (writeChain chain 0 reply)
  onBus (completeChain queue chain reply.length)

def serve (queue : UInt16) (chain : DescriptorChain) : DeviceOp (NinePDevice π) Bool := do
  let request ← onBus (copied chain 0 chain.readable)
  Op.lift (validate9p request)
  let reply ← submit request chain.writable
  complete queue chain (tagOf request) reply
  return true

def notify (fuel : Nat) (queue : UInt16) (s : Attached (NinePDevice π)) :
    Ending × Attached (NinePDevice π) :=
  drain queue always (serve queue) fuel s

end NinePDevice

/-! ## Input -/

structure InputEvent where
  kind : UInt16
  code : UInt16
  value : UInt32
  deriving DecidableEq, Repr

def InputEvent.bytes (event : InputEvent) : List UInt8 :=
  LittleEndian.encode 2 event.kind.toNat ++ LittleEndian.encode 2 event.code.toNat ++
    LittleEndian.encode 4 event.value.toNat

inductive InputKind where
  | keyboard
  | mouse
  | tablet
  deriving DecidableEq, Repr

structure InputDevice where
  kind : InputKind
  select : UInt8
  subsel : UInt8
  events : List InputEvent
  buttons : UInt32

namespace InputDevice

def reset (device : InputDevice) : InputDevice :=
  { device with select := 0, subsel := 0, events := [], buttons := 0 }

def popEvent : DeviceOp InputDevice InputEvent := fun s =>
  match s.device.events with
  | [] => (.panic, s)
  | event :: rest => (.ok event, { s with device := { s.device with events := rest } })

def serveEvent (chain : DescriptorChain) : DeviceOp InputDevice Bool := do
  if chain.writable < 8 then Op.fail .invalidRequest
  let event ← popEvent
  onBus (writeChain chain 0 event.bytes)
  onBus (completeChain 0 chain 8)
  return true

def drainEvents (fuel : Nat) (s : Attached InputDevice) : Ending × Attached InputDevice :=
  drain 0 (fun device => !device.events.isEmpty) serveEvent fuel s

/-- Queued events are delivered once the driver runs. -/
def send (fuel : Nat) (events : List InputEvent) (s : Attached InputDevice) :
    Ending × Attached InputDevice :=
  let s := { s with device := { s.device with events := s.device.events ++ events } }
  if driverOk s then drainEvents fuel s else ended (.ok ()) s

def sendKey (fuel : Nat) (code : UInt16) (down : Bool) (s : Attached InputDevice) :
    Ending × Attached InputDevice :=
  if s.device.kind ≠ .keyboard then ended (.err .invalidRequest) s
  else
    send fuel
      [{ kind := 1, code := code, value := if down then 1 else 0 },
        { kind := 0, code := 0, value := 0 }] s

/-- The events of one pointer report; the buttons follow the changed bits. -/
def pointerEvents (device : InputDevice) (kind : UInt16) (x y wheel buttons : UInt32) :
    List InputEvent :=
  [{ kind := kind, code := 0, value := x }, { kind := kind, code := 1, value := y }] ++
    (if wheel ≠ 0 then [{ kind := 2, code := 8, value := wheel }] else []) ++
    ([((1 : UInt32), (0x110 : UInt16)), (2, 0x111), (4, 0x112)].filterMap fun entry =>
      if buttons &&& entry.1 ≠ device.buttons &&& entry.1 then
        some { kind := 1, code := entry.2, value := if buttons &&& entry.1 ≠ 0 then 1 else 0 }
      else none) ++
    [{ kind := 0, code := 0, value := 0 }]

def sendPointer (fuel : Nat) (x y wheel buttons : UInt32) (s : Attached InputDevice) :
    Ending × Attached InputDevice :=
  match s.device.kind with
  | .keyboard => ended (.err .invalidRequest) s
  | kind =>
    let events := s.device.pointerEvents (if kind = .mouse then 2 else 3) x y wheel buttons
    send fuel events { s with device := { s.device with buttons := buttons } }

def serveStatus (queue : UInt16) (chain : DescriptorChain) : DeviceOp InputDevice Bool :=
  if queue = 1 then do
    onBus (completeChain queue chain 0)
    return true
  else Op.fail .invalidRequest

def notify (fuel : Nat) (queue : UInt16) (s : Attached InputDevice) :
    Ending × Attached InputDevice :=
  if queue = 0 then drainEvents fuel s else drain queue always (serveStatus queue) fuel s

end InputDevice

end Virtio
end Riscbox
