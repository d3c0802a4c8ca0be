import Riscbox.Virtio.Devices

/-!
# Host input

`src/browser_input.rs`: what the host has given to the guest and the guest has not
been handed yet.
-/

namespace Riscbox
namespace Runtime

open Virtio (NetworkDevice.maxFrameSize NetworkDevice.maxPendingFrames
  NetworkDevice.maxPendingBytes)

def consoleInputCapacity : Nat := 1024

inductive NetworkInputResult where
  | accepted
  | dropped
  deriving DecidableEq, Repr

structure TerminalSize where
  columns : UInt16
  rows : UInt16
  deriving DecidableEq, Repr

inductive BrowserEvent where
  | key (pressed : Bool) (code : UInt16)
  | pointer (x y wheel buttons : UInt32)
  | networkPacket (packet : List UInt8)
  | networkCarrier (up : Bool)
  deriving DecidableEq, Repr

structure BrowserInputQueue where
  console : List UInt8
  resize : Option TerminalSize
  events : List BrowserEvent
  pointerX : UInt32
  pointerY : UInt32
  pointerButtons : UInt32
  networkCarrier : Bool
  networkFrames : Nat
  networkBytes : Nat
  deriving DecidableEq, Repr

namespace BrowserInputQueue

def default : BrowserInputQueue :=
  { console := [], resize := none, events := [], pointerX := 0, pointerY := 0
    pointerButtons := 0, networkCarrier := false, networkFrames := 0, networkBytes := 0 }

/-- Guest input is retired; terminal and carrier settings of the host are retained. -/
def retireGuestWork (queue : BrowserInputQueue) : BrowserInputQueue :=
  { default with resize := queue.resize, networkCarrier := queue.networkCarrier }

def queueConsole (data : List UInt8) (queue : BrowserInputQueue) : Nat × BrowserInputQueue :=
  let accepted := min data.length (consoleInputCapacity - queue.console.length)
  (accepted, { queue with console := queue.console ++ data.take accepted })

def readConsole (limit : Nat) (queue : BrowserInputQueue) : List UInt8 × BrowserInputQueue :=
  let count := min limit queue.console.length
  (queue.console.take count, { queue with console := queue.console.drop count })

def setSize (columns rows : UInt16) (queue : BrowserInputQueue) : BrowserInputQueue :=
  { queue with resize := some { columns := columns, rows := rows } }

def takeResize (queue : BrowserInputQueue) : Option TerminalSize × BrowserInputQueue :=
  (queue.resize, { queue with resize := none })

def push (event : BrowserEvent) (queue : BrowserInputQueue) : BrowserInputQueue :=
  { queue with events := queue.events ++ [event] }

def keyEvent (pressed : Bool) (code : UInt16) (queue : BrowserInputQueue) : BrowserInputQueue :=
  queue.push (.key pressed code)

def pointerEvent (x y buttons : UInt32) (queue : BrowserInputQueue) : BrowserInputQueue :=
  { queue with pointerX := x, pointerY := y, pointerButtons := buttons }.push
    (.pointer x y 0 buttons)

def wheelEvent (wheel : UInt32) (queue : BrowserInputQueue) : BrowserInputQueue :=
  queue.push (.pointer queue.pointerX queue.pointerY wheel queue.pointerButtons)

def networkPacket (packet : List UInt8) (queue : BrowserInputQueue) :
    NetworkInputResult × BrowserInputQueue :=
  if packet.isEmpty ∨ packet.length > NetworkDevice.maxFrameSize ∨
      queue.networkFrames ≥ NetworkDevice.maxPendingFrames ∨
      ¬queue.networkBytes + packet.length ≤ NetworkDevice.maxPendingBytes then
    (.dropped, queue)
  else
    (.accepted,
      { queue.push (.networkPacket packet) with
        networkFrames := queue.networkFrames + 1
        networkBytes := queue.networkBytes + packet.length })

/-- The transition is remembered and queued. -/
def setCarrier (up : Bool) (queue : BrowserInputQueue) : BrowserInputQueue :=
  { queue with networkCarrier := up }.push (.networkCarrier up)

def nextEvent (queue : BrowserInputQueue) : Option BrowserEvent × BrowserInputQueue :=
  match queue.events with
  | [] => (none, queue)
  | .networkPacket packet :: rest =>
    (some (.networkPacket packet),
      { queue with
        events := rest
        networkFrames := queue.networkFrames - 1
        networkBytes := queue.networkBytes - packet.length })
  | event :: rest => (some event, { queue with events := rest })

end BrowserInputQueue

end Runtime
end Riscbox
