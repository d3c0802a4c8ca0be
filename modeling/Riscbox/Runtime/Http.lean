import Riscbox.Program.Steps
import Riscbox.Runtime.State

/-!
# Requests and loading

How the runtime issues requests, assembles a machine from their answers, and passes
chunks on to the disks of a machine.
-/

namespace Riscbox
namespace Runtime

open Virtio
open Storage (Value BlockStore HttpBlockStore StorageError)

variable {ε π α : Type} [EntropySource ε] [NinePEndpoint π]

/-- What a call that may load or boot a machine gets from outside: the parsers, the
machine's memory, the entropy source, the shared trees, and the boot images' fate. -/
structure Assembly (ε π : Type) where
  config : Outcome RuntimeError VmConfig
  parseValue : String → Option Value
  created : Except MachineError GuestMemory
  macSeed : Bool
  source : ε
  newTree : Nat
  endpoint : Nat → Except FilesystemError π
  load : BootLoad

def ofMachine (x : Op (Machine ε π) (Failure MachineError) α) :
    Op (Machine ε π) (Failure RuntimeError) α :=
  x.mapError fun failure =>
    match failure with
    | .busy => .busy
    | .overflow => .overflow
    | .error e => .error (.machineError e)

def refuse {σ : Type} (error : RuntimeError) : Op σ (Failure RuntimeError) α :=
  Op.fail (.error error)

/-- `(200..300).contains(&status)`. -/
def success (status : UInt16) : Bool := decide (200 ≤ status.toNat ∧ status.toNat < 300)

namespace BrowserRuntime

/-- The id after this one; zero is skipped. -/
def followingId (id : Nat) : Nat := max ((id + 1) % 2 ^ 32) 1

def allocateRequest (url : String) (disk : Option Nat) (runtime : BrowserRuntime ε π) :
    BrowserRuntime ε π :=
  { runtime with nextRequestId := followingId runtime.nextRequestId }.push
    (.request { id := runtime.nextRequestId, url := url, disk := disk })

end BrowserRuntime

/-! ## Chunk requests -/

/-- The chunk that a request of a store is for. -/
def chunkOf (store : BlockStore) (request : Nat) : Nat :=
  match store with
  | .array _ => 0
  | .http store => (store.pending[request]?.map (·.block)).getD 0

/-- What the pump works on: the machine is out of the runtime meanwhile. -/
structure Pump (ε π : Type) where
  running : Running ε π
  runtime : BrowserRuntime ε π

/-- One request moves from the queue of a store to the host. -/
def Pump.issue (index slot : Nat) (store : BlockStore) (request : Storage.HttpRequest)
    (pump : Pump ε π) : Pump ε π :=
  let id := pump.runtime.nextRequestId
  { running :=
      { pump.running with
        pendingHttp := pump.running.pendingHttp.insert id
          { slot := slot, request := request.id } }
    runtime :=
      (pump.runtime.allocateRequest request.url (some index)).record
        (.issuedChunk id slot (chunkOf store request.id)) }

/-- The requests that wait in a store. -/
def outgoing : BlockStore → Nat
  | .array _ => 0
  | .http store => store.queue.outgoing.length

/-- The inner loop; the store has no more requests than the fuel. -/
def pumpSlot (index slot : Nat) : Nat → Op (Pump ε π) (Failure RuntimeError) Unit
  | 0 => pure ()
  | fuel + 1 => fun pump =>
    match pump.running.machine.storage slot with
    | .ok mmio =>
      let (popped, machine) :=
        ofMachine (Machine.nextHttpBlockRequest slot) pump.running.machine
      let next := { pump with running := { pump.running with machine := machine } }
      match popped with
      | .ok none => (.ok (), next)
      | .ok (some request) =>
        pumpSlot index slot fuel (Pump.issue index slot mmio.device.backend request next)
      | .err e => (.err e, next)
      | .panic => (.panic, next)
    | .err _ => (.err (.error (.machineError .wrongVirtioDevice)), pump)
    | .panic => (.panic, pump)

def pumpSlots : Nat → List Nat → Op (Pump ε π) (Failure RuntimeError) Unit
  | _, [] => pure ()
  | index, slot :: rest => fun pump =>
    let fuel := match pump.running.machine.storage slot with
      | .ok mmio => outgoing mmio.device.backend + 1
      | _ => 1
    ((pumpSlot index slot fuel) >>= fun _ => pumpSlots (index + 1) rest) pump

namespace BrowserRuntime

/-- A machine back in the runtime. -/
def restore (halted : Bool) (running : Running ε π) (runtime : BrowserRuntime ε π) :
    BrowserRuntime ε π :=
  { runtime with state := if halted then .halted running else .running running }

def pumpRunning (halted : Bool) (running : Running ε π) : RuntimeOp ε π Unit := fun s =>
  let (ending, pump) := pumpSlots 0 running.blockSlots { running := running, runtime := s }
  (ending, pump.runtime.restore halted pump.running)

def pumpHttpRequests : RuntimeOp ε π Unit := fun s =>
  match s.state with
  | .running running => pumpRunning false running { s with state := .vmInactive }
  | .halted running => pumpRunning true running { s with state := .vmInactive }
  | _ => (.ok (), s)

/-! ## Loading -/

/-- The slots of an assembled machine. -/
structure Slots where
  consoleSlot : Option Nat
  networkSlot : Option Nat
  keyboardSlot : Option Nat
  powerSlot : Nat
  pointerSlot : Option Nat
  blockSlots : List Nat

/-- `HttpBlockStore::from_manifest` with the cache of the browser. -/
def openDrive (env : Assembly ε π) (drive : DriveConfig)
    (manifest : Option (String × List UInt8)) : Outcome RuntimeError BlockStore :=
  match drive with
  | .array capacitySectors => Outcome.mapErr .storageError (BlockStore.newArray capacitySectors)
  | .http _ =>
    match manifest with
    | none => .err (.invalidConfig "missing drive manifest")
    | some (url, bytes) =>
      match String.fromUTF8? ⟨bytes.toArray⟩ with
      | none => .err (.invalidConfig "drive manifest is not UTF-8")
      | some source =>
        match HttpBlockStore.fromManifest env.parseValue url source (16 * 2 ^ 20) with
        | .ok store => .ok (.http store)
        | .err e => .err (.storageError e)
        | .panic => .panic

/-- The name of a disk in 20 bytes. -/
def diskId (index : Nat) : List UInt8 :=
  let name := (toString "riscbox-disk-" ++ toString index).toUTF8.data.toList
  name ++ List.replicate (20 - name.length) 0

def addDrives (env : Assembly ε π) :
    Nat → List (DriveConfig × Option (String × List UInt8)) →
      Op (Machine ε π) (Failure RuntimeError) (List Nat)
  | _, [] => pure []
  | index, (drive, manifest) :: rest => do
    let store ← Op.lift (Outcome.mapErr .error (openDrive env drive manifest))
    let slot ← ofMachine (Machine.addStorageBlockDevice store (diskId index))
    let slots ← addDrives env (index + 1) rest
    return slot :: slots

def addFilesystems (env : Assembly ε π) (trees : BTreeMap String Nat) :
    List FilesystemConfig → Op (Machine ε π) (Failure RuntimeError) Unit
  | [] => pure ()
  | filesystem :: rest =>
    match trees[filesystem.server]? with
    | none =>
      refuse (.invalidConfig ("missing configured 9p filesystem: " ++ filesystem.server))
    | some tree =>
      match env.endpoint tree with
      | .error e => refuse (.filesystem e)
      | .ok endpoint => do
        let _ ← ofMachine (Machine.addNinePDevice endpoint)
        addFilesystems env trees rest

def addNetwork (env : Assembly ε π) (loading : Loading) :
    Op (Machine ε π) (Failure RuntimeError) (Option Nat) :=
  if loading.start.hasNetwork = true ∧ loading.config.networks ≠ 0 then
    if env.macSeed = false then refuse (.machineError .entropy)
    else do
      let slot ← ofMachine Machine.addNetworkDevice
      return some slot
  else pure none

def addConsole (config : VmConfig) : Op (Machine ε π) (Failure RuntimeError) (Option Nat) :=
  if config.console = .virtio then do
    let slot ← ofMachine (Machine.addConsoleDevice 80 25)
    return some slot
  else pure none

/-- A keyboard and a tablet. -/
def addInputs (config : VmConfig) :
    Op (Machine ε π) (Failure RuntimeError) (Option (Nat × Nat)) :=
  if config.inputDevice = some "virtio" then do
    let keyboard ← ofMachine (Machine.addInputDevice .keyboard)
    let pointer ← ofMachine (Machine.addInputDevice .tablet)
    return some (keyboard, pointer)
  else pure none

/-- The keyboard that has the power key. -/
def addPower (inputs : Option (Nat × Nat)) : Op (Machine ε π) (Failure RuntimeError) Nat :=
  match inputs with
  | some slots => pure slots.1
  | none => ofMachine (Machine.addInputDevice .keyboard)

/-- The devices in the order in which they are added, and then the boot images. -/
def assemble (env : Assembly ε π) (trees : BTreeMap String Nat) (loading : Loading) :
    Op (Machine ε π) (Failure RuntimeError) Slots := do
  let blockSlots ← addDrives env 0 (loading.config.drives.zip loading.driveManifests)
  addFilesystems env trees loading.config.filesystems
  let consoleSlot ← addConsole loading.config
  let networkSlot ← addNetwork env loading
  let inputs ← addInputs loading.config
  let _ ← ofMachine (Machine.addEntropyDevice env.source)
  let powerSlot ← addPower inputs
  ofMachine (Machine.loadBootAt env.load)
  return { consoleSlot := consoleSlot
           networkSlot := networkSlot
           keyboardSlot := inputs.map Prod.fst
           powerSlot := powerSlot
           pointerSlot := inputs.map Prod.snd
           blockSlots := blockSlots }

/-- One tree for each server that the configuration names. -/
def newTrees (env : Assembly ε π) (filesystems : List FilesystemConfig) : BTreeMap String Nat :=
  filesystems.foldl
    (fun trees entry =>
      if trees.contains entry.server then trees
      else trees.insert entry.server (env.newTree + trees.size)) ∅

def pointerDimensions (loading : Loading) : Option (UInt32 × UInt32) :=
  if loading.start.width ≠ 0 ∧ loading.start.height ≠ 0 then
    some (loading.start.width, loading.start.height)
  else loading.config.display

def booted (loading : Loading) (slots : Slots) (machine : Machine ε π) : Running ε π :=
  { machine := machine
    boot :=
      { firmware := loading.firmware
        kernel := loading.kernel
        initrd := loading.initrd
        commandLine := loading.config.commandLine.getD ""
        addresses := loading.config.addresses }
    consoleSlot := slots.consoleSlot
    uartOutput := decide (loading.config.console = .uart) || loading.config.uartOutput
    networkSlot := slots.networkSlot
    keyboardSlot := slots.keyboardSlot
    powerSlot := slots.powerSlot
    pointerSlot := slots.pointerSlot
    pointerDimensions := pointerDimensions loading
    blockSlots := slots.blockSlots
    pendingHttp := ∅ }

/-- The loading state is gone when this fails. -/
def finishLoading (env : Assembly ε π) (loading : Loading) : RuntimeOp ε π Unit := fun s =>
  match env.created with
  | .error e => (.err (.error (.machineError e)), s)
  | .ok memory =>
    let trees := newTrees env loading.config.filesystems
    let machine : Machine ε π :=
      { virtio := [], memory := memory, ramSize := loading.start.ramMib.toNat * 2 ^ 20
        finisher := .running, guestTimerTicks := 0, guestRtcNs := 0, disks := [] }
    match assemble env trees loading machine with
    | (.err e, _) => (.err e, s)
    | (.panic, _) => (.panic, s)
    | (.ok slots, machine) =>
      let s := { s with filesystems := trees }.restore (!s.autoBoot) (booted loading slots machine)
      pumpHttpRequests (s.push (if s.autoBoot then .started else .prepared))

/-- The next asset is requested, or everything is there. -/
def requestNextAsset (env : Assembly ε π) (loading : Loading) : RuntimeOp ε π Unit := fun s =>
  match loading.assets with
  | (kind, url) :: rest =>
    let id := s.nextRequestId
    let s := (s.allocateRequest url none).record (.issued id kind)
    (.ok (),
      { s with state := .loading { loading with assets := rest, waiting := some (id, kind) } })
  | [] => finishLoading env loading { s with state := .vmInactive }

/-- The assets of a configuration: boot images, then the manifests of its HTTP drives. -/
def assetsOf (config : VmConfig) : List (AssetKind × String) :=
  ([(AssetKind.firmware, config.bios), (.kernel, config.kernel),
      (.initrd, config.initrd)].filterMap fun entry => entry.2.map fun path => (entry.1, path)) ++
    (config.drives.zipIdx.filterMap fun entry =>
      match entry.1 with
      | .http file => some (.drive entry.2, file)
      | .array _ => none)

def beginLoading (env : Assembly ε π) (start : RuntimeStart) (config : VmConfig) :
    RuntimeOp ε π Unit :=
  requestNextAsset env
    { start := start, config := config, assets := assetsOf config, waiting := none
      firmware := none, kernel := none, initrd := none
      driveManifests := config.drives.map fun _ => none }

def start (start : RuntimeStart) : RuntimeOp ε π Unit := fun s =>
  match s.state with
  | .vmInactive =>
    let id := s.nextRequestId
    let s := { s with guestClockFloorTicks := 0, autoBoot := true }
    let s := (s.allocateRequest start.configUrl none).record (.issuedConfig id)
    (.ok (), { s with state := .config start id })
  | _ => (.err (.error .alreadyStarted), s)

def startResolved (env : Assembly ε π) (start : RuntimeStart) (config : VmConfig) :
    RuntimeOp ε π Unit := fun s =>
  match s.state with
  | .vmInactive =>
    beginLoading env start config { s with guestClockFloorTicks := 0, autoBoot := true }
  | _ => (.err (.error .alreadyStarted), s)

def prepareResolved (env : Assembly ε π) (start : RuntimeStart) (config : VmConfig) :
    RuntimeOp ε π Unit := fun s =>
  match s.state with
  | .vmInactive =>
    beginLoading env start config { s with autoBoot := false, guestClockFloorTicks := 0 }
  | _ => (.err (.error .alreadyStarted), s)

/-! ## Responses -/

/-- A loaded asset in its place. -/
def supply (kind : AssetKind) (bytes : List UInt8) (loading : Loading) :
    Outcome RuntimeError Loading :=
  match kind with
  | .firmware => .ok { loading with firmware := some bytes }
  | .kernel => .ok { loading with kernel := some bytes }
  | .initrd => .ok { loading with initrd := some bytes }
  | .drive index =>
    match loading.config.drives[index]? with
    | none => .err (.invalidConfig "invalid drive index")
    | some (.array _) => .err (.invalidConfig "invalid drive source")
    | some (.http file) =>
      .ok { loading with
        driveManifests := loading.driveManifests.set index (some (file, bytes)) }

def completeLoading (env : Assembly ε π) (id : Nat) (bytes : List UInt8) (loading : Loading) :
    RuntimeOp ε π Unit := fun s =>
  match loading.waiting with
  | none => (.err (.error (.unexpectedResponse id)), s)
  | some (requestId, kind) =>
    if requestId ≠ id then (.err (.error (.unexpectedResponse id)), s)
    else
      let s := { s with state := .vmInactive }.record (.answered id)
      match supply kind bytes { loading with waiting := none } with
      | .err e => (.err (.error e), s)
      | .panic => (.panic, s)
      | .ok loading => requestNextAsset env loading s

/-- A chunk goes to the disk that asked for it. -/
def completeChunk (fuel id : Nat) (data : Option (List UInt8)) (halted : Bool)
    (running : Running ε π) : RuntimeOp ε π Unit := fun s =>
  match running.pendingHttp[id]? with
  | none => (.err (.error (.unexpectedResponse id)), s)
  | some pending =>
    let completion := ofMachine
      (Machine.completeHttpBlockRequest fuel pending.slot pending.request data (!halted))
      running.machine
    let s := (s.record (.answered id)).restore halted
      { running with machine := completion.2, pendingHttp := running.pendingHttp.erase id }
    match completion.1 with
    | .ok _ => pumpHttpRequests s
    | .err e => (.err e, s)
    | .panic => (.panic, s)

def completeHttp (env : Assembly ε π) (fuel id : Nat) (status : UInt16) (bytes : List UInt8) :
    RuntimeOp ε π Unit := fun s =>
  if s.retiredHttp.contains id then
    (.ok (), { s with retiredHttp := s.retiredHttp.erase id }.record (.answered id))
  else if success status = false ∧ s.isRunning = false ∧ s.isHalted = false then
    (.err (.error (.httpStatus status)), s)
  else match s.state with
    | .config start requestId =>
      if requestId = id then
        let s := { s with state := .vmInactive }.record (.answered id)
        match env.config with
        | .ok config => beginLoading env start config s
        | .err e => (.err (.error e), s)
        | .panic => (.panic, s)
      else (.err (.error (.unexpectedResponse id)), s)
    | .loading loading => completeLoading env id bytes loading s
    | .running running =>
      completeChunk fuel id (if success status then some bytes else none) false running s
    | .halted running =>
      completeChunk fuel id (if success status then some bytes else none) true running s
    | .vmInactive => (.err (.error (.unexpectedResponse id)), s)

end BrowserRuntime

end Runtime
end Riscbox
