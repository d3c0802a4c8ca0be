import Riscbox.Runtime.Lifecycle

/-!
# One CPU run

`run_cpu_once`: the waiting input goes to the devices, the guest runs, and its output,
its requests and its finisher are served.
-/

namespace Riscbox
namespace Runtime

open Virtio
open Storage (BlockStore)

variable {ε π α : Type} [EntropySource ε] [NinePEndpoint π]

/-- What the CPU and the platform registers do in one run: the timer before it, room in
the UART, the accesses of the guest, the cycles that it took and why it ended, the UART
output, the redrawn parts of the display with the error that cut them off, the state after
it, and how a restart fares that the guest asks for. -/
structure CpuTurn where
  timer : Option Nat
  fuel : Nat
  receiveSpace : Nat
  accesses : List GuestAccess
  consumed : UInt32
  reason : CpuRunExitReason
  uart : List UInt8
  redraw : List FramebufferUpdate
  redrawError : Option MachineError
  wfiSleeping : Bool
  timerAfter : Option Nat
  restart : Restart

/-- The runtime with the queue of host input. -/
structure Browser (ε π : Type) where
  runtime : BrowserRuntime ε π
  queue : BrowserInputQueue

abbrev BrowserOp (ε π α : Type) : Type := Op (Browser ε π) (Failure RuntimeError) α

def onRuntime (x : RuntimeOp ε π α) : BrowserOp ε π α := fun s =>
  let (ending, runtime) := x s.runtime
  (ending, { s with runtime := runtime })

/-! ## Input -/

def scalePointerCoordinate (value extent : UInt32) : UInt32 :=
  if extent = 0 then 0
  else (min value.toNat (extent.toNat - 1) * 32768 / extent.toNat).toUInt32

/-- `i32::try_from(..).unwrap_or(i32::MAX)`. -/
def clampPosition (value : UInt32) : UInt32 :=
  if value.toNat < 2 ^ 31 then value else (2 ^ 31 - 1 : Nat).toUInt32

namespace Running

def deliverEvent (fuel : Nat) (event : BrowserEvent) : RunningOp ε π Unit := fun running =>
  match event with
  | .key pressed code =>
    match running.keyboardSlot with
    | some slot => onMachine (Machine.virtioKeyEvent fuel slot code pressed) running
    | none => (.ok (), running)
  | .pointer x y wheel buttons =>
    match running.pointerSlot with
    | some slot =>
      let position := match running.pointerDimensions with
        | some (width, height) =>
          (scalePointerCoordinate x width, scalePointerCoordinate y height)
        | none => (x, y)
      onMachine
        (Machine.virtioPointerEvent fuel slot (clampPosition position.1)
          (clampPosition position.2) wheel buttons) running
    | none => (.ok (), running)
  | .networkPacket packet =>
    match running.networkSlot with
    | some slot => onMachine (Machine.virtioNetworkReceive fuel slot packet) running
    | none => (.ok (), running)
  | .networkCarrier up =>
    match running.networkSlot with
    | some slot => onMachine (Machine.virtioNetworkSetCarrier slot up) running
    | none => (.ok (), running)

def resizeConsole (size : Option TerminalSize) : RunningOp ε π Unit := fun running =>
  match size, running.consoleSlot with
  | some size, some slot =>
    onMachine (Machine.resizeVirtioConsole slot size.columns size.rows) running
  | _, _ => (.ok (), running)

/-- Without a console device the bytes go to the UART. -/
def receiveConsole (fuel : Nat) (bytes : List UInt8) : RunningOp ε π Unit := fun running =>
  match running.consoleSlot with
  | some slot =>
    if bytes.isEmpty then (.ok (), running)
    else onMachine (Machine.virtioConsoleReceive fuel slot bytes) running
  | none => (.ok (), running)

/-- The carrier of the network device. -/
def carrier (running : Running ε π) : Option Bool :=
  match running.networkSlot with
  | some slot =>
    match running.machine.virtio[slot]? with
    | some (.network mmio) => some mmio.device.carrierUp
    | _ => none
  | none => none

end Running

/-- The machine with the queue of host input. -/
structure Fed (ε π : Type) where
  running : Running ε π
  queue : BrowserInputQueue

def onRunning (x : RunningOp ε π α) : Op (Fed ε π) (Failure RuntimeError) α := fun fed =>
  let (ending, running) := x fed.running
  (ending, { fed with running := running })

def onQueue (f : BrowserInputQueue → α × BrowserInputQueue) :
    Op (Fed ε π) (Failure RuntimeError) α := fun fed =>
  let (a, queue) := f fed.queue
  (.ok a, { fed with queue := queue })

/-- The loop over the queued events; there are no more of them than the fuel. -/
def deliverEvents (fuel : Nat) : Nat → Op (Fed ε π) (Failure RuntimeError) Unit
  | 0 => pure ()
  | count + 1 => do
    match ← onQueue BrowserInputQueue.nextEvent with
    | none => pure ()
    | some event =>
      onRunning (Running.deliverEvent fuel event)
      deliverEvents fuel count

def inputLimit (turn : CpuTurn) (running : Running ε π) : Nat :=
  if running.consoleSlot.isSome then 128 else min 128 turn.receiveSpace

def deliverInput (turn : CpuTurn) : Op (Fed ε π) (Failure RuntimeError) Unit := do
  let size ← onQueue BrowserInputQueue.takeResize
  onRunning (Running.resizeConsole size)
  let fed ← Op.get
  let bytes ← onQueue (BrowserInputQueue.readConsole (inputLimit turn fed.running))
  onRunning (Running.receiveConsole turn.fuel bytes)
  let fed ← Op.get
  deliverEvents turn.fuel fed.queue.events.length

/-! ## The guest -/

namespace BrowserRuntime

/-- What the console device has for the host. -/
def takeConsole (running : Running ε π) :
    Outcome (Failure RuntimeError) (List UInt8) × Running ε π :=
  match running.consoleSlot with
  | some slot => Running.onMachine (Machine.takeVirtioConsoleOutput slot) running
  | none => (.ok [], running)

def pushConsole (bytes : List UInt8) (runtime : BrowserRuntime ε π) : BrowserRuntime ε π :=
  if bytes.isEmpty then runtime else runtime.push (.console bytes)

def pushAll (actions : List HostAction) (runtime : BrowserRuntime ε π) : BrowserRuntime ε π :=
  { runtime with actions := runtime.actions ++ actions }

/-- The packets that the guest sent. -/
def packets (running : Running ε π) : List HostAction :=
  match running.networkSlot with
  | some slot => (running.machine.takeNetworkOutput slot).1.map .network
  | none => []

/-- The output of the guest becomes actions for the host. -/
def collectOutput (turn : CpuTurn) (running : Running ε π) : RuntimeOp ε π Unit := fun s =>
  let (console, running) := takeConsole running
  match console with
  | .ok bytes =>
    let s := s.pushConsole ((if running.uartOutput then turn.uart else []) ++ bytes)
    let s := s.pushAll (packets running)
    let s := (s.restore false running.clearNetworkOutput).pushAll (turn.redraw.map .framebuffer)
    match turn.redrawError with
    | some e => (.err (.error (.machineError e)), s)
    | none => (.ok (), s)
  | .err e => (.err e, s.restore false running)
  | .panic => (.panic, s.restore false running)

/-- The clocks are presented, and the guest runs. -/
def execute (turn : CpuTurn) (ticks ns : Nat) (running : Running ε π) : RuntimeOp ε π Unit :=
  fun s =>
    let running := { running with machine := running.machine.presentGuestClocks ticks ns }
    let s := (s.record (.presented ticks)).record (.executed running.carrier)
    let (ending, running) := Running.onMachine (Machine.runCpu turn.accesses) running
    match ending with
    | .ok _ => collectOutput turn running s
    | .err e => (.err e, s.restore false running)
    | .panic => (.panic, s.restore false running)

end BrowserRuntime

open BrowserRuntime

/-- What the finisher of the guest asks for. -/
def serveFinish (turn : CpuTurn) : BrowserOp ε π (Option CpuTurn) := fun s =>
  match s.runtime.state with
  | .running running =>
    match running.machine.finisher with
    | .running => (.ok (some turn), s)
    | .reset =>
      (onRuntime (resetMachine turn.restart .guestReboot) >>= fun _ =>
        Op.modify (fun s => { s with queue := .default }) >>= fun _ => pure (some turn)) s
    | .passed =>
      (.ok none,
        { runtime := s.runtime.enterHalted running .guestPoweroff
          queue := s.queue.retireGuestWork })
    | .failed _ =>
      (.ok none,
        { runtime := s.runtime.enterHalted running .guestFailure
          queue := s.queue.retireGuestWork })
  | _ => (.ok (some turn), s)

def runCpuOnce (turn : CpuTurn) (ticks ns : Nat) : BrowserOp ε π (Option CpuTurn) := fun s =>
  match s.runtime.state with
  | .running running =>
    let (ending, fed) := deliverInput turn { running := running, queue := s.queue }
    let s := { runtime := s.runtime.restore false fed.running, queue := fed.queue }
    match ending with
    | .ok _ =>
      (onRuntime (execute turn ticks ns fed.running) >>= fun _ =>
        onRuntime pumpHttpRequests >>= fun _ => serveFinish turn) s
    | .err e => (.err e, s)
    | .panic => (.panic, s)
  | _ => (.ok none, s)

end Runtime
end Riscbox
