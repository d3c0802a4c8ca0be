import Riscbox.Machine.Slots

/-!
# The machine

`src/machine.rs` as its host sees it.  The interpreter and the platform registers are
outside this model: what the guest does in a CPU run is given with the run, as the
accesses that reach memory, the device slots and the finisher.
-/

namespace Riscbox
namespace Virtio

open Storage (BlockStore StorageError HttpRequest)

inductive MachineError where
  | memory
  | coreAllocation
  | invalidRamSize (size : Nat)
  | invalidFramebuffer
  | firmwareTooLarge
  | kernelTooLarge
  | invalidCompressedKernel
  | invalidCompressedFirmware
  | deviceTreeTooLarge
  | invalidBootLayout (reason : String)
  | virtio (error : DeviceError)
  | virtioSlotLimit
  | wrongVirtioDevice
  | storage (error : StorageError)
  | entropy
  deriving DecidableEq, Repr

inductive FinishStatus where
  | running
  | passed
  | reset
  | failed (code : UInt16)
  deriving DecidableEq, Repr

/-- Why a call gave no value: it reported an error, it has not returned, or its own
arithmetic left the range of its integers. -/
inductive Failure (ε : Type) where
  | busy
  | overflow
  | error (e : ε)
  deriving DecidableEq, Repr

/-- What happens on the disks of a machine, for the statements about it: the source keeps
no such record. -/
inductive DiskEvent where
  | numbered (slot before after : Nat)
  | attempted (slot sector length : Nat)
  deriving DecidableEq, Repr

structure Machine (ε π : Type) where
  virtio : List (VirtioSlot ε π)
  memory : GuestMemory
  ramSize : Nat
  finisher : FinishStatus
  guestTimerTicks : Nat
  guestRtcNs : Nat
  disks : List DiskEvent

abbrev MachineOp (ε π α : Type) : Type := Op (Machine ε π) (Failure MachineError) α

/-- What a guest does in a CPU run. -/
inductive GuestAccess where
  | store (address : Nat) (bytes : List UInt8)
  | device (fuel slot offset : Nat) (value : UInt32) (width : AccessWidth)
  | finish (status : FinishStatus)

/-- The steps of `load_boot_at` that depend on the boot images and on the host: the checks
of the images, the seed from the entropy source, the place of the device tree, and the
memory once everything is copied. -/
structure BootLoad where
  images : Option MachineError
  seed : Bool
  tree : Option MachineError
  memory : GuestMemory

namespace Machine

variable {ε π α : Type} [EntropySource ε] [NinePEndpoint π]

def ramBase : Nat := 0x80000000

/-- The number of the last request of the store behind a slot. -/
def lastRequest : Option (VirtioSlot ε π) → Nat
  | some (.storageBlock mmio) =>
    match mmio.device.backend with
    | .http store => store.queue.nextId
    | .array _ => 0
  | _ => 0

/-- A slot and the memory after a call on it. -/
def put (slot : Nat) (device : VirtioSlot ε π) (memory : GuestMemory) (machine : Machine ε π) :
    Machine ε π :=
  { machine with
    virtio := machine.virtio.set slot device
    memory := memory
    disks := machine.disks ++
      [.numbered slot (lastRequest machine.virtio[slot]?) (lastRequest (some device))] }

def pendingChain (slot : Nat) (machine : Machine ε π) : Option DescriptorChain :=
  match machine.virtio[slot]? with
  | some (.storageBlock mmio) => mmio.device.pending.map Prod.snd
  | _ => none

/-- The read that a chain asks for, by its header. -/
def requestedRead (memory : GuestMemory) (chain : DescriptorChain) : Option (Nat × Nat) :=
  match copyChain memory chain 0 16 with
  | .ok header => some (LittleEndian.decode (header.drop 8), chain.writable - 1)
  | _ => none

/-- The read that an attempt has left pending. -/
def noteAttempt (slot : Nat) (machine : Machine ε π) : Machine ε π :=
  match (machine.pendingChain slot).bind (requestedRead machine.memory) with
  | some (sector, length) =>
    { machine with disks := machine.disks ++ [.attempted slot sector length] }
  | none => machine

/-- The end of a call on a slot, as the machine reports it. -/
def conclude (slot : Nat) (served : VirtioSlot.Served ε π) : MachineOp ε π Unit := fun machine =>
  let (ending, device, memory) := served
  let machine := machine.put slot device memory
  match ending with
  | none => (.err .busy, machine)
  | some (.ok _) => (.ok (), machine)
  | some (.err e) => (.err (.error (.virtio e)), machine)
  | some .panic => (.panic, machine)

/-! ## The guest -/

/-- A refused access is a fault of the guest. -/
def refused : Outcome (Failure MachineError) Unit → Outcome (Failure MachineError) Unit
  | .err (.error _) => .ok ()
  | ending => ending

def writeSlot (fuel slot offset : Nat) (value : UInt32) (width : AccessWidth)
    (device : VirtioSlot ε π) : MachineOp ε π Unit := fun machine =>
  let called := conclude slot (device.write fuel offset value width machine.memory) machine
  (refused called.1,
    if machine.pendingChain slot = none then called.2.noteAttempt slot else called.2)

def access : GuestAccess → MachineOp ε π Unit
  | .store address bytes =>
    Op.modify fun machine =>
      { machine with memory := (machine.memory.writeBytes address bytes).getD machine.memory }
  | .device fuel slot offset value width => fun machine =>
    match machine.virtio[slot]? with
    | none => (.ok (), machine)
    | some device => writeSlot fuel slot offset value width device machine
  | .finish status => Op.modify fun machine => { machine with finisher := status }

def runCpu : List GuestAccess → MachineOp ε π Unit
  | [] => pure ()
  | first :: rest => do
    access first
    runCpu rest

/-! ## The host -/

def storage (slot : Nat) (machine : Machine ε π) :
    Outcome (Failure MachineError) (VirtioMmioDevice (BlockDevice BlockStore)) :=
  match machine.virtio[slot]? with
  | some (.storageBlock mmio) => .ok mmio
  | _ => .err (.error .wrongVirtioDevice)

/-- A disk with another store behind it. -/
def withBackend (store : BlockStore)
    (mmio : VirtioMmioDevice (BlockDevice BlockStore)) :
    VirtioMmioDevice (BlockDevice BlockStore) :=
  { mmio with device := { mmio.device with backend := store } }

/-- `storage_mut`: an operation on the store behind a disk. -/
def withStorage (slot : Nat) (operation : BlockStore → α × BlockStore) : MachineOp ε π α :=
  fun machine =>
    match machine.storage slot with
    | .ok mmio =>
      let (a, store) := operation mmio.device.backend
      (.ok a, machine.put slot (.storageBlock (withBackend store mmio)) machine.memory)
    | .err e => (.err e, machine)
    | .panic => (.panic, machine)

def nextHttpBlockRequest (slot : Nat) : MachineOp ε π (Option HttpRequest) :=
  withStorage slot BlockStore.nextRequest

/-- The end of a retried request. -/
def resumeGuest (slot : Nat) (served : VirtioSlot.Served ε π) : MachineOp ε π Unit :=
  fun machine =>
    let (ending, machine) := conclude slot served machine
    (ending, machine.noteAttempt slot)

/-- A completion that the store does not know is dropped. -/
def completeHttpBlockRequest (fuel slot request : Nat) (data : Option (List UInt8))
    (resume : Bool) : MachineOp ε π Unit := do
  match ← withStorage slot (BlockStore.complete request data) with
  | .err .unknownRequest => pure ()
  | .err error => Op.fail (.error (.storage error))
  | .panic => Op.abort
  | .ok _ =>
    if resume then do
      let machine ← Op.get
      let mmio ← Op.lift (machine.storage slot)
      resumeGuest slot
        (VirtioSlot.serve .storageBlock mmio machine.memory (BlockDevice.resume fuel))
    else pure ()

def presentGuestClocks (ticks ns : Nat) (machine : Machine ε π) : Machine ε π :=
  { machine with guestTimerTicks := ticks, guestRtcNs := ns }

def virtioConsoleReceive (fuel slot : Nat) (bytes : List UInt8) : MachineOp ε π Unit :=
  fun machine =>
    match machine.virtio[slot]? with
    | some (.console mmio) =>
      conclude slot
        (VirtioSlot.serve .console mmio machine.memory (ConsoleDevice.receive fuel bytes)) machine
    | _ => (.err (.error .wrongVirtioDevice), machine)

/-- The output is taken out of the device. -/
def takeVirtioConsoleOutput (slot : Nat) : MachineOp ε π (List UInt8) := fun machine =>
  match machine.virtio[slot]? with
  | some (.console mmio) =>
    (.ok mmio.device.output,
      machine.put slot (.console { mmio with device := { mmio.device with output := [] } })
        machine.memory)
  | _ => (.err (.error .wrongVirtioDevice), machine)

def resizeVirtioConsole (slot : Nat) (width height : UInt16) : MachineOp ε π Unit :=
  fun machine =>
    match machine.virtio[slot]? with
    | some (.console mmio) =>
      let s := ConsoleDevice.resize width height (mmio.attach machine.memory)
      (.ok (), machine.put slot (.console (.detach s)) s.bus.memory)
    | _ => (.err (.error .wrongVirtioDevice), machine)

def virtioNetworkReceive (fuel slot : Nat) (packet : List UInt8) : MachineOp ε π Unit :=
  fun machine =>
    match machine.virtio[slot]? with
    | some (.network mmio) =>
      conclude slot
        (VirtioSlot.serve .network mmio machine.memory
          (NetworkDevice.receivePacket fuel packet)) machine
    | _ => (.err (.error .wrongVirtioDevice), machine)

def virtioNetworkSetCarrier (slot : Nat) (up : Bool) : MachineOp ε π Unit := fun machine =>
  match machine.virtio[slot]? with
  | some (.network mmio) =>
    let s := NetworkDevice.setCarrier up (mmio.attach machine.memory)
    (.ok (), machine.put slot (.network (.detach s)) s.bus.memory)
  | _ => (.err (.error .wrongVirtioDevice), machine)

/-- The packets that the network device sent. -/
def takeNetworkOutput (slot : Nat) (machine : Machine ε π) :
    List (List UInt8) × Machine ε π :=
  match machine.virtio[slot]? with
  | some (.network mmio) =>
    (mmio.device.backend.packets,
      machine.put slot
        (.network { mmio with device := { mmio.device with backend := { packets := [] } } })
        machine.memory)
  | _ => ([], machine)

def virtioKeyEvent (fuel slot : Nat) (code : UInt16) (down : Bool) : MachineOp ε π Unit :=
  fun machine =>
    match machine.virtio[slot]? with
    | some (.input mmio) =>
      conclude slot
        (VirtioSlot.serve .input mmio machine.memory (InputDevice.sendKey fuel code down)) machine
    | _ => (.err (.error .wrongVirtioDevice), machine)

def virtioPointerEvent (fuel slot : Nat) (x y wheel buttons : UInt32) : MachineOp ε π Unit :=
  fun machine =>
    match machine.virtio[slot]? with
    | some (.input mmio) =>
      conclude slot
        (VirtioSlot.serve .input mmio machine.memory
          (InputDevice.sendPointer fuel x y wheel buttons)) machine
    | _ => (.err (.error .wrongVirtioDevice), machine)

/-! ## Reset and boot -/

def resetDevices (machine : Machine ε π) : Machine ε π :=
  { machine with
    finisher := .running
    guestTimerTicks := 0
    guestRtcNs := 0
    virtio := machine.virtio.map VirtioSlot.reset }

/-- `reset`, given whether the CPU could be allocated. -/
def reset (allocated : Bool) : MachineOp ε π Unit := fun machine =>
  if allocated = false then (.err (.error .coreAllocation), machine)
  else (.ok (), machine.resetDevices)

def writeRam (address : Nat) (bytes : List UInt8) : MachineOp ε π Unit := fun machine =>
  match machine.memory.writeBytes address bytes with
  | none => (.err (.error .memory), machine)
  | some memory => (.ok (), { machine with memory := memory })

/-- The pages of RAM from an offset on are cleared. -/
def clearPages (offset : Nat) : Nat → MachineOp ε π Unit
  | 0 => pure ()
  | pages + 1 => do
    writeRam (ramBase + offset) (List.replicate 4096 0)
    clearPages (offset + 4096) pages

def clearRam : MachineOp ε π Unit := fun machine =>
  clearPages 0 ((machine.ramSize + 4095) / 4096) machine

/-- Memory is written once every check has passed. -/
def loadBootAt (load : BootLoad) : MachineOp ε π Unit := fun machine =>
  match load.images with
  | some error => (.err (.error error), machine)
  | none =>
    if load.seed = false then (.err (.error .entropy), machine)
    else match load.tree with
      | some error => (.err (.error error), machine)
      | none => (.ok (), { machine with memory := load.memory })

/-! ## Assembly -/

/-- `virtio_irq_checked`: there are interrupt lines for this many slots. -/
def virtioSlots : Nat := 29

def addVirtio (device : VirtioSlot ε π) : MachineOp ε π Nat := fun machine =>
  if machine.virtio.length ≥ virtioSlots then (.err (.error .virtioSlotLimit), machine)
  else (.ok machine.virtio.length, { machine with virtio := machine.virtio ++ [device] })

def addStorageBlockDevice (store : BlockStore) (id : List UInt8) : MachineOp ε π Nat :=
  addVirtio (.storageBlock
    { transport := .create 2 0 [16]
      device := { backend := store, id := id, pending := none } })

def addConsoleDevice (width height : UInt16) : MachineOp ε π Nat :=
  addVirtio (.console
    { transport := .create 3 1 [16, 16]
      device := { output := [], input := [], width := width, height := height } })

def addNetworkDevice : MachineOp ε π Nat :=
  addVirtio (.network
    { transport := .create 1 0x10020 [16, 16]
      device :=
        { backend := { packets := [] }, carrierUp := false, receive := [], receiveBytes := 0 } })

def addNinePDevice (endpoint : π) : MachineOp ε π Nat :=
  addVirtio (.nineP { transport := .create 9 1 [128], device := { endpoint := endpoint } })

def addInputDevice (kind : InputKind) : MachineOp ε π Nat :=
  addVirtio (.input
    { transport := .create 18 0 [256, 256]
      device := { kind := kind, select := 0, subsel := 0, events := [], buttons := 0 } })

def addEntropyDevice (source : ε) : MachineOp ε π Nat :=
  addVirtio (.entropy { transport := .create 4 0 [16], device := { source := source } })

end Machine

end Virtio
end Riscbox
