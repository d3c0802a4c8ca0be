import Riscbox.Virtio.Devices

/-!
# Device slots

The registers of a device on the platform bus: `VirtioTransport::write_mmio` of
`src/virtio.rs`, `VirtioMmioDevice` of `src/virtio_devices.rs` and the slots of
`src/machine.rs`.  Register reads change nothing here and are left out.
-/

namespace Riscbox
namespace Virtio

inductive AccessWidth where
  | byte
  | half
  | word
  | doubleWord
  deriving DecidableEq, Repr

def setLow (value : UInt64) (low : UInt32) : UInt64 :=
  (value &&& (0xffffffff00000000 : UInt64)) ||| low.toUInt64

def setHigh (value : UInt64) (high : UInt32) : UInt64 :=
  (value &&& (0xffffffff : UInt64)) ||| (high.toUInt64 <<< 32)

def setSelected (value : UInt64) (selector half : UInt32) : UInt64 :=
  if selector = 0 then setLow value half
  else if selector = 1 then setHigh value half
  else value

def VirtQueue.cleared (queue : VirtQueue) : VirtQueue :=
  { queue with
    size := queue.maxSize, ready := false, lastAvail := 0, desc := 0, avail := 0, used := 0 }

namespace VirtioTransport

def maxQueues : Nat := 8

def reset (transport : VirtioTransport) : VirtioTransport :=
  { transport with
    driverFeatures := 0
    deviceFeaturesSel := 0
    driverFeaturesSel := 0
    queueSel := 0
    status := 0
    interruptStatus := 0
    queues := transport.queues.map VirtQueue.cleared }

/-- `new`: unused queues have no size. -/
def create (deviceId : UInt32) (deviceFeatures : UInt64) (queueMaxima : List UInt16) :
    VirtioTransport :=
  { deviceId := deviceId
    deviceFeatures := deviceFeatures ||| 0x100000000
    driverFeatures := 0
    deviceFeaturesSel := 0
    driverFeaturesSel := 0
    queueSel := 0
    queues := (queueMaxima ++ List.replicate (maxQueues - queueMaxima.length) 0).map fun maximum =>
      { maxSize := maximum, size := maximum, ready := false, lastAvail := 0
        desc := 0, avail := 0, used := 0 }
    status := 0
    interruptStatus := 0
    configGeneration := 0 }

def setQueue (f : VirtQueue → VirtQueue) (transport : VirtioTransport) : VirtioTransport :=
  { transport with queues := transport.queues.modify transport.queueSel.toNat f }

def writeStatus (value : UInt32) (transport : VirtioTransport) : VirtioTransport :=
  if value = 0 then transport.reset
  else if value &&& 8 ≠ 0 ∧ transport.driverFeatures &&& ~~~transport.deviceFeatures ≠ 0 then
    { transport with status := value &&& ~~~8 }
  else { transport with status := value }

def writeMmio (offset : Nat) (value : UInt32) (width : AccessWidth)
    (transport : VirtioTransport) : VirtioTransport :=
  if width ≠ .word then transport
  else match offset with
    | 0x014 => { transport with deviceFeaturesSel := value }
    | 0x020 =>
      { transport with
        driverFeatures := setSelected transport.driverFeatures transport.driverFeaturesSel value }
    | 0x024 => { transport with driverFeaturesSel := value }
    | 0x030 =>
      if value.toNat < maxQueues then { transport with queueSel := value.toUInt16 } else transport
    | 0x038 =>
      transport.setQueue fun queue =>
        if value.toNat.isPowerOfTwo ∧ value.toNat ≤ queue.maxSize.toNat then
          { queue with size := value.toUInt16 }
        else queue
    | 0x044 => transport.setQueue fun queue => { queue with ready := value &&& 1 ≠ 0 }
    | 0x064 => { transport with interruptStatus := transport.interruptStatus &&& ~~~value }
    | 0x070 => transport.writeStatus value
    | 0x080 => transport.setQueue fun queue => { queue with desc := setLow queue.desc value }
    | 0x084 => transport.setQueue fun queue => { queue with desc := setHigh queue.desc value }
    | 0x090 => transport.setQueue fun queue => { queue with avail := setLow queue.avail value }
    | 0x094 => transport.setQueue fun queue => { queue with avail := setHigh queue.avail value }
    | 0x0a0 => transport.setQueue fun queue => { queue with used := setLow queue.used value }
    | 0x0a4 => transport.setQueue fun queue => { queue with used := setHigh queue.used value }
    | _ => transport

end VirtioTransport

/-! ## Devices behind registers -/

class VirtioDevice (δ : Type) where
  writeConfig : Nat → UInt32 → AccessWidth → δ → δ
  reset : δ → δ
  notify : Nat → UInt16 → Attached δ → Ending × Attached δ

instance {ε : Type} [EntropySource ε] : VirtioDevice (EntropyDevice ε) where
  writeConfig _ _ _ := id
  reset := id
  notify := EntropyDevice.notify

instance {β : Type} [BlockBackend β] : VirtioDevice (BlockDevice β) where
  writeConfig _ _ _ := id
  reset := BlockDevice.reset
  notify := BlockDevice.notify

instance : VirtioDevice ConsoleDevice where
  writeConfig _ _ _ := id
  reset := ConsoleDevice.reset
  notify := ConsoleDevice.notify

instance {ν : Type} [NetworkBackend ν] : VirtioDevice (NetworkDevice ν) where
  writeConfig _ _ _ := id
  reset := NetworkDevice.reset
  notify := NetworkDevice.notify

instance {π : Type} [NinePEndpoint π] : VirtioDevice (NinePDevice π) where
  writeConfig _ _ _ := id
  reset := NinePDevice.reset
  notify := NinePDevice.notify

/-- The two selectors of the configuration space. -/
def InputDevice.writeConfig (offset : Nat) (value : UInt32) (width : AccessWidth)
    (device : InputDevice) : InputDevice :=
  if width ≠ .byte then device
  else if offset = 0 then { device with select := value.toUInt8 }
  else if offset = 1 then { device with subsel := value.toUInt8 }
  else device

instance : VirtioDevice InputDevice where
  writeConfig := InputDevice.writeConfig
  reset := InputDevice.reset
  notify := InputDevice.notify

structure VirtioMmioDevice (δ : Type) where
  transport : VirtioTransport
  device : δ

namespace VirtioMmioDevice

variable {δ : Type}

/-- The device on a bus of its own, for one call. -/
def attach (mmio : VirtioMmioDevice δ) (memory : GuestMemory) : Attached δ :=
  { device := mmio.device
    bus := { transport := mmio.transport, memory := memory, trace := [] } }

def detach (s : Attached δ) : VirtioMmioDevice δ :=
  { transport := s.bus.transport, device := s.device }

variable [VirtioDevice δ]

def reset (mmio : VirtioMmioDevice δ) : VirtioMmioDevice δ :=
  { transport := mmio.transport.reset, device := VirtioDevice.reset mmio.device }

def configBase : Nat := 0x100

/-- A register write; `none` is a notification that does not return. -/
def write (fuel offset : Nat) (value : UInt32) (width : AccessWidth) (s : Attached δ) :
    Ending × Attached δ :=
  if offset ≥ configBase then
    ended (.ok ())
      { s with device := VirtioDevice.writeConfig (offset - configBase) value width s.device }
  else if offset = 0x050 ∧ width = .word then
    if value.toNat ≥ 2 ^ 16 then ended (.err .invalidRequest) s
    else if s.bus.transport.status &&& 4 = 0 then ended (.err .invalidRequest) s
    else if (s.bus.transport.queues[value.toNat]?.map (·.ready)).getD false = false then
      ended (.err (.queue .notReady)) s
    else VirtioDevice.notify fuel value.toUInt16 s
  else
    let device := if offset = 0x070 ∧ width = .word ∧ value = 0 then VirtioDevice.reset s.device
      else s.device
    ended (.ok ())
      { device := device
        bus := { s.bus with transport := s.bus.transport.writeMmio offset value width } }

end VirtioMmioDevice

/-! ## Slots -/

/-- The network backend of the browser: packets wait for the host. -/
structure OutputNetwork where
  packets : List (List UInt8)

instance : NetworkBackend OutputNetwork where
  transmit packet network := (true, { packets := network.packets ++ [packet] })

/-- The slots that the browser runtime fills. -/
inductive VirtioSlot (ε π : Type) where
  | storageBlock (mmio : VirtioMmioDevice (BlockDevice Storage.BlockStore))
  | console (mmio : VirtioMmioDevice ConsoleDevice)
  | network (mmio : VirtioMmioDevice (NetworkDevice OutputNetwork))
  | nineP (mmio : VirtioMmioDevice (NinePDevice π))
  | input (mmio : VirtioMmioDevice InputDevice)
  | entropy (mmio : VirtioMmioDevice (EntropyDevice ε))

namespace VirtioSlot

variable {ε π : Type} [EntropySource ε] [NinePEndpoint π]

def reset : VirtioSlot ε π → VirtioSlot ε π
  | storageBlock mmio => storageBlock mmio.reset
  | console mmio => console mmio.reset
  | network mmio => network mmio.reset
  | nineP mmio => nineP mmio.reset
  | input mmio => input mmio.reset
  | entropy mmio => entropy mmio.reset

/-- How a call on a slot ends, with the slot and the memory after it. -/
abbrev Served (ε π : Type) : Type := Ending × VirtioSlot ε π × GuestMemory

/-- A call on the device of a slot. -/
def serve {δ : Type} (slot : VirtioMmioDevice δ → VirtioSlot ε π) (mmio : VirtioMmioDevice δ)
    (memory : GuestMemory) (call : Attached δ → Ending × Attached δ) : Served ε π :=
  let (ending, s) := call (mmio.attach memory)
  (ending, slot (.detach s), s.bus.memory)

def write (fuel offset : Nat) (value : UInt32) (width : AccessWidth) (memory : GuestMemory) :
    VirtioSlot ε π → Served ε π
  | storageBlock mmio =>
    serve storageBlock mmio memory (VirtioMmioDevice.write fuel offset value width)
  | console mmio => serve console mmio memory (VirtioMmioDevice.write fuel offset value width)
  | network mmio => serve network mmio memory (VirtioMmioDevice.write fuel offset value width)
  | nineP mmio => serve nineP mmio memory (VirtioMmioDevice.write fuel offset value width)
  | input mmio => serve input mmio memory (VirtioMmioDevice.write fuel offset value width)
  | entropy mmio => serve entropy mmio memory (VirtioMmioDevice.write fuel offset value width)

end VirtioSlot

end Virtio
end Riscbox
