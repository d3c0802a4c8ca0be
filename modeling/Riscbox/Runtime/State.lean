import Riscbox.Machine.Machine
import Riscbox.Runtime.Input

/-!
# The state of the browser runtime

The types of `src/browser_runtime.rs`.  The floating point rate estimators and speed
statistics are outside this model: the rates and the budget of a quantum are given when
it begins.  A shared filesystem is a handle, its tree is the subject of `Filesystem`.
-/

namespace Riscbox
namespace Runtime

open Virtio
open Storage (Value BlockStore HttpBlockStore StorageError)

/-! ## Configurations -/

inductive Console where
  | virtio
  | uart
  deriving DecidableEq, Repr

inductive DriveConfig where
  | http (file : String)
  | array (capacitySectors : Nat)
  deriving DecidableEq, Repr

structure FilesystemConfig where
  server : String
  tag : String
  deriving DecidableEq, Repr

structure BootAddresses where
  firmware : Option Nat
  kernel : Option Nat
  initrd : Option Nat
  fdt : Option Nat
  deriving DecidableEq, Repr

structure VmConfig where
  bios : Option String
  kernel : Option String
  initrd : Option String
  addresses : BootAddresses
  commandLine : Option String
  console : Console
  uartOutput : Bool
  drives : List DriveConfig
  filesystems : List FilesystemConfig
  networks : Nat
  display : Option (UInt32 × UInt32)
  inputDevice : Option String
  deriving DecidableEq, Repr

structure RuntimeStart where
  configUrl : String
  ramMib : UInt32
  commandLine : String
  width : UInt32
  height : UInt32
  hasNetwork : Bool
  deriving DecidableEq, Repr

/-! ## What the host sees -/

structure HttpRequest where
  id : Nat
  url : String
  disk : Option Nat
  deriving DecidableEq, Repr

inductive LifecycleCause where
  | guestPoweroff
  | guestReboot
  | hostHalt
  | hostReset
  | hostBoot
  | guestFailure
  deriving DecidableEq, Repr

structure FramebufferUpdate where
  arenaOffset : Nat
  x : UInt32
  y : UInt32
  width : UInt32
  height : UInt32
  stride : UInt32
  deriving DecidableEq, Repr

inductive HostAction where
  | request (request : HttpRequest)
  | started
  | prepared
  | console (bytes : List UInt8)
  | network (packet : List UInt8)
  | framebuffer (update : FramebufferUpdate)
  | halted (cause : LifecycleCause)
  | reset (cause : LifecycleCause)
  deriving DecidableEq, Repr

/-- An error of the machine or of a store reaches the host as its text. -/
inductive RuntimeError where
  | alreadyStarted
  | unexpectedResponse (id : Nat)
  | httpStatus (status : UInt16)
  | invalidConfig (reason : String)
  | machine (reason : String)
  | machineError (error : MachineError)
  | storageError (error : StorageError)
  | filesystem (error : FilesystemError)
  deriving DecidableEq, Repr

/-! ## Loading and running -/

inductive AssetKind where
  | firmware
  | kernel
  | initrd
  | drive (index : Nat)
  deriving DecidableEq, Repr

structure Loading where
  start : RuntimeStart
  config : VmConfig
  assets : List (AssetKind × String)
  waiting : Option (Nat × AssetKind)
  firmware : Option (List UInt8)
  kernel : Option (List UInt8)
  initrd : Option (List UInt8)
  driveManifests : List (Option (String × List UInt8))
  deriving DecidableEq, Repr

structure BootState where
  firmware : Option (List UInt8)
  kernel : Option (List UInt8)
  initrd : Option (List UInt8)
  commandLine : String
  addresses : BootAddresses
  deriving DecidableEq, Repr

/-- `PendingHttp::Block`. -/
structure PendingHttp where
  slot : Nat
  request : Nat
  deriving DecidableEq, Repr

structure Running (ε π : Type) where
  machine : Machine ε π
  boot : BootState
  consoleSlot : Option Nat
  uartOutput : Bool
  networkSlot : Option Nat
  keyboardSlot : Option Nat
  powerSlot : Nat
  pointerSlot : Option Nat
  pointerDimensions : Option (UInt32 × UInt32)
  blockSlots : List Nat
  pendingHttp : BTreeMap Nat PendingHttp

inductive State (ε π : Type) where
  | vmInactive
  | config (start : RuntimeStart) (requestId : Nat)
  | loading (loading : Loading)
  | running (running : Running ε π)
  | halted (running : Running ε π)

/-! ## Quanta -/

inductive QuantumStart where
  | ready
  | vmInactive
  | alreadyActive
  deriving DecidableEq, Repr

inductive QuantumOutcome where
  | hostServiceRequired
  | budgetReached
  | wfiSleep
  | vmInactive
  deriving DecidableEq, Repr

inductive CpuRunExitReason where
  | cycleLimitReached
  | wfiSleep
  | hostServiceRequested
  | timerReprogrammed
  deriving DecidableEq, Repr

structure ActiveQuantum where
  startGuestTicks : Nat
  cyclesPerHostSecond : Nat
  guestTicksPerHostSecond : Nat
  carriedGuestTicks : Nat
  budgetCycles : Nat
  consumedCycles : Nat
  stalledCpuRuns : Nat
  cpuRuns : Nat
  timerReprogrammingExits : Nat
  timerIntervalsGuestTicks : List Nat
  recordTimerInterval : Bool
  wfiWakeDelayGuestTicks : Nat
  terminal : Option QuantumOutcome
  deriving DecidableEq, Repr

/-- What happens in a runtime, for the statements about it: the source keeps no such
record. -/
inductive RuntimeEvent where
  | issued (id : Nat) (asset : AssetKind)
  | issuedConfig (id : Nat)
  | issuedChunk (id slot block : Nat)
  | answered (id : Nat)
  | presented (ticks : Nat)
  | executed (carrier : Option Bool)
  deriving DecidableEq, Repr

structure BrowserRuntime (ε π : Type) where
  state : State ε π
  filesystems : BTreeMap String Nat
  nextRequestId : Nat
  actions : List HostAction
  retiredHttp : BTreeSet Nat
  diagnostics : Bool
  guestClockFloorTicks : Nat
  activeQuantum : Option ActiveQuantum
  autoBoot : Bool
  log : List RuntimeEvent

abbrev RuntimeOp (ε π α : Type) : Type := Op (BrowserRuntime ε π) (Failure RuntimeError) α

namespace BrowserRuntime

variable {ε π : Type}

def default : BrowserRuntime ε π :=
  { state := .vmInactive, filesystems := ∅, nextRequestId := 1, actions := [], retiredHttp := ∅
    diagnostics := false, guestClockFloorTicks := 0, activeQuantum := none, autoBoot := true
    log := [] }

def isRunning (runtime : BrowserRuntime ε π) : Bool :=
  match runtime.state with
  | .running _ => true
  | _ => false

def isHalted (runtime : BrowserRuntime ε π) : Bool :=
  match runtime.state with
  | .halted _ => true
  | _ => false

def push (action : HostAction) (runtime : BrowserRuntime ε π) : BrowserRuntime ε π :=
  { runtime with actions := runtime.actions ++ [action] }

def record (event : RuntimeEvent) (runtime : BrowserRuntime ε π) : BrowserRuntime ε π :=
  { runtime with log := runtime.log ++ [event] }

def nextAction (runtime : BrowserRuntime ε π) : Option HostAction × BrowserRuntime ε π :=
  match runtime.actions with
  | [] => (none, runtime)
  | action :: rest => (some action, { runtime with actions := rest })

end BrowserRuntime

end Runtime
end Riscbox
