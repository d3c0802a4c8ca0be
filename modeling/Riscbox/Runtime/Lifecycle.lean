import Riscbox.Runtime.Http

/-!
# Halt, reset and disks of a halted machine

The calls that start, stop and dispose of a machine, and the host's calls on the disks of
a machine that is halted.
-/

namespace Riscbox
namespace Runtime

open Virtio
open Storage (BlockStore StorageError)

variable {ε π α : Type} [EntropySource ε] [NinePEndpoint π]

/-- How the CPU allocation and the boot images fare in one restart. -/
structure Restart where
  allocated : Bool
  load : BootLoad

abbrev RunningOp (ε π α : Type) : Type := Op (Running ε π) (Failure RuntimeError) α

namespace Running

def onMachine (x : Op (Machine ε π) (Failure MachineError) α) : RunningOp ε π α := fun running =>
  let (ending, machine) := ofMachine x running.machine
  (ending, { running with machine := machine })

/-- The requests that the host still works on are not waited for any more. -/
def forgetHttp (running : Running ε π) : Running ε π := { running with pendingHttp := ∅ }

/-- `network_output.clear()`. -/
def clearNetworkOutput (running : Running ε π) : Running ε π :=
  match running.networkSlot with
  | some slot => { running with machine := (running.machine.takeNetworkOutput slot).2 }
  | none => running

def resetDevices (running : Running ε π) : Running ε π :=
  { running with machine := running.machine.resetDevices }

/-- The runtime ids of the requests for the chunks of one slot. -/
def requestsOf (slot : Nat) (running : Running ε π) : List Nat :=
  (running.pendingHttp.filter fun _ pending => pending.slot == slot).keys

def withoutSlot (slot : Nat) (running : Running ε π) : Running ε π :=
  { running with
    pendingHttp := running.pendingHttp.filter fun _ pending => pending.slot != slot }

end Running

namespace BrowserRuntime

/-- A call on the machine of the runtime, which stays where it is. -/
def held (halted : Bool) (running : Running ε π) (x : RunningOp ε π α) : RuntimeOp ε π α :=
  fun s =>
    let (ending, running) := x running
    (ending, s.restore halted running)

def retire (ids : List Nat) (runtime : BrowserRuntime ε π) : BrowserRuntime ε π :=
  { runtime with retiredHttp := runtime.retiredHttp.insertMany ids }

/-! ## Disks -/

def withDisk (id : Nat) (operation : BlockStore → α × BlockStore) : RuntimeOp ε π α := fun s =>
  match s.state with
  | .halted running =>
    match running.blockSlots[id]? with
    | none => (.err (.error (.invalidConfig "unknown disk")), s)
    | some slot =>
      (held true running (Running.onMachine (Machine.withStorage slot operation)) >>= fun result =>
        pumpHttpRequests >>= fun _ => pure result) s
  | _ => (.err (.error (.machine "disk host access requires halted VM")), s)

def discardDiskChanges (id : Nat) : RuntimeOp ε π Unit := fun s =>
  match s.state with
  | .halted running =>
    match running.blockSlots[id]? with
    | none => (.err (.error (.invalidConfig "unknown disk")), s)
    | some slot =>
      let (ending, running) :=
        Running.onMachine (Machine.withStorage slot BlockStore.discardChanges) running
      match ending with
      | .ok (.ok _) =>
        (.ok (), (s.retire (running.requestsOf slot)).restore true (running.withoutSlot slot))
      | .ok (.err e) => (.err (.error (.storageError e)), s.restore true running)
      | .err e => (.err e, s.restore true running)
      | _ => (.panic, s.restore true running)
  | _ => (.err (.error (.machine "disk discard requires halted VM")), s)

/-! ## Restarts -/

def coldReset (restart : Restart) : RuntimeOp ε π Unit := fun s =>
  match s.state with
  | .halted running =>
    held true running.forgetHttp
      (Running.onMachine do
        Machine.reset restart.allocated
        Machine.clearRam
        Machine.loadBootAt restart.load)
      (s.retire running.pendingHttp.keys)
  | _ => (.err (.error (.machine "cold reset requires halted VM")), s)

/-- Obsolete device actions are dropped, console output stays. -/
def HostAction.isConsole : HostAction → Bool
  | .console _ => true
  | _ => false

def enterHalted (running : Running ε π) (cause : LifecycleCause)
    (runtime : BrowserRuntime ε π) : BrowserRuntime ε π :=
  let runtime := (runtime.retire running.pendingHttp.keys).restore true
    running.forgetHttp.resetDevices.clearNetworkOutput
  { runtime with actions := runtime.actions.filter HostAction.isConsole }.push (.halted cause)

def quantumActive : RuntimeError := .machine "quantum is active"

def halt : RuntimeOp ε π Unit := fun s =>
  if s.activeQuantum.isSome then (.err (.error quantumActive), s)
  else match s.state with
    | .running running => (.ok (), s.enterHalted running .hostHalt)
    | _ => (.err (.error (.machine "VM is not running")), s)

/-- The machine is out of the runtime until its boot images are loaded again. -/
def restartMachine (restart : Restart) (cause : LifecycleCause) (running : Running ε π) :
    RuntimeOp ε π Unit := fun s =>
  let s := { s with state := .vmInactive }.retire running.pendingHttp.keys
  match Running.onMachine (do
      Machine.reset restart.allocated
      Machine.loadBootAt restart.load) running.forgetHttp with
  | (.ok _, running) =>
    pumpHttpRequests ((s.restore false running.clearNetworkOutput).push (.reset cause))
  | (.err e, _) => (.err e, s)
  | (.panic, _) => (.panic, s)

def resetMachine (restart : Restart) (cause : LifecycleCause) : RuntimeOp ε π Unit := fun s =>
  match s.state with
  | .running running => restartMachine restart cause running s
  | .halted running => restartMachine restart cause running s
  | _ => (.err (.error (.machine "VM is not initialized")), s)

def reset (restart : Restart) : RuntimeOp ε π Unit := fun s =>
  if s.activeQuantum.isSome then (.err (.error quantumActive), s)
  else resetMachine restart (if s.isHalted then .hostBoot else .hostReset) s

/-! ## Power -/

def keyPower : UInt16 := 116

def keyRestart : UInt16 := 408

def requestPowerKey (fuel : Nat) (code : UInt16) : RuntimeOp ε π Unit := fun s =>
  match s.state with
  | .running running =>
    held false running
      (Running.onMachine do
        Machine.virtioKeyEvent fuel running.powerSlot code true
        Machine.virtioKeyEvent fuel running.powerSlot code false) s
  | _ => (.err (.error (.machine "VM is not running")), s)

def requestShutdown (fuel : Nat) : RuntimeOp ε π Unit := requestPowerKey fuel keyPower

def requestReboot (fuel : Nat) : RuntimeOp ε π Unit := requestPowerKey fuel keyRestart

/-- What is left of the runtime when its machine or its loading is given up. -/
def emptied (ids : List Nat) (runtime : BrowserRuntime ε π) : BrowserRuntime ε π :=
  { runtime.retire ids with state := .vmInactive, filesystems := ∅, actions := [] }

def destroy : RuntimeOp ε π Unit := fun s =>
  if s.activeQuantum.isSome then (.err (.error quantumActive), s)
  else match s.state with
    | .running _ => (.err (.error (.machine "VM is not halted")), s)
    | .halted running => (.ok (), s.emptied running.pendingHttp.keys)
    | .vmInactive => (.ok (), { s with filesystems := ∅ })
    | .config _ requestId => (.ok (), s.emptied [requestId])
    | .loading loading => (.ok (), s.emptied (loading.waiting.map Prod.fst).toList)

end BrowserRuntime

end Runtime
end Riscbox
