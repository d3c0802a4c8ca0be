import Riscbox.Program.Outcome

/-!
# The WebSocket network link

`WebSocketNetwork` of `src/js/network/index.ts`, with the sockets and the timers of its
host.  A socket behaves as the WebSocket standard says: it opens at most once, has no
messages unless it is open, and its `close` accepts a code of 1000 or from 3000 to 4999
only.
-/

namespace Riscbox
namespace Network

inductive ReadyState where
  | connecting
  | opened
  | closing
  | closed
  deriving DecidableEq, Repr

/-- A socket of the host, and what has happened to it. -/
structure Socket where
  readyState : ReadyState
  sent : List (List UInt8)
  opened : Bool
  failed : Bool
  finished : Bool
  violated : Bool
  deriving DecidableEq, Repr

namespace Socket

def new : Socket where
  readyState := .connecting
  sent := []
  opened := false
  failed := false
  finished := false
  violated := false

/-- The connection is established. -/
def establish (socket : Socket) : Socket := { socket with readyState := .opened, opened := true }

/-- The connection has failed. -/
def fail (socket : Socket) : Socket := { socket with readyState := .closed, failed := true }

/-- The connection is closed. -/
def finish (socket : Socket) : Socket := { socket with readyState := .closed, finished := true }

def note (violation : Bool) (socket : Socket) : Socket :=
  { socket with violated := socket.violated || violation }

def send (packet : List UInt8) (socket : Socket) : Socket :=
  { socket with sent := socket.sent ++ [packet] }

/-- The codes that `close` does not refuse. -/
def ClosesWith (code : Nat) : Prop := code = 1000 ∨ (3000 ≤ code ∧ code ≤ 4999)

instance (code : Nat) : Decidable (ClosesWith code) :=
  inferInstanceAs (Decidable (code = 1000 ∨ (3000 ≤ code ∧ code ≤ 4999)))

/-- The end of a socket that is not on its way to it. -/
def shut (socket : Socket) : Socket :=
  match socket.readyState with
  | .connecting => { socket with readyState := .closing }
  | .opened => { socket with readyState := .closing }
  | .closing => socket
  | .closed => socket

end Socket

/-- The fields of `WebSocketNetwork`. -/
structure Link where
  attached : Bool
  socket : Option Nat
  reconnectTimer : Option Nat
  reconnectDelay : Nat
  stopped : Bool
  deriving DecidableEq, Repr

/-- The link and its host: the sockets in the order of their creation, the timers that
are pending, and what was reported to the runtime. -/
structure World extends Link where
  sockets : List Socket
  timers : List Nat
  nextTimer : Nat
  carriers : List Bool
  packets : List (Nat × List UInt8)
  errors : List String
  deriving DecidableEq, Repr

inductive Thrown where
  | alreadyAttached
  | notAttached
  | invalidAccess
  deriving DecidableEq, Repr

abbrev Call (α : Type) : Type := Op World Thrown α

def maxEthernetFrameSize : Nat := 65535

def networkSendHighWater : Nat := 1 <<< 20

def initialReconnectDelayMs : Nat := 250

def maxReconnectDelayMs : Nat := 10000

def init : World where
  attached := false
  socket := none
  reconnectTimer := none
  reconnectDelay := initialReconnectDelayMs
  stopped := true
  sockets := []
  timers := []
  nextTimer := 0
  carriers := []
  packets := []
  errors := []

namespace World

def reported (message : String) (w : World) : World := { w with errors := w.errors ++ [message] }

/-- `runtime?.networkCarrier`. -/
def networkCarrier (up : Bool) (w : World) : World :=
  if w.attached = true then { w with carriers := w.carriers ++ [up] } else w

def setSocket (id : Nat) (f : Socket → Socket) (w : World) : World :=
  { w with sockets := w.sockets.modify id f }

def scheduleReconnect (w : World) : World :=
  if w.stopped = true ∨ w.reconnectTimer ≠ none then w
  else
    { w with
      reconnectDelay := min (w.reconnectDelay * 2) maxReconnectDelayMs
      reconnectTimer := some w.nextTimer
      timers := w.timers ++ [w.nextTimer]
      nextTimer := w.nextTimer + 1 }

/-- `openSocket`, given the message of the error that the factory throws, if it does. -/
def openSocket (failure : Option String) (w : World) : World :=
  match failure with
  | some message => (w.reported message).scheduleReconnect
  | none => { w with socket := some w.sockets.length, sockets := w.sockets ++ [.new] }

/-- `socket.close`. -/
def closeSocket (id code : Nat) : Call Unit := fun w =>
  if Socket.ClosesWith code then (.ok (), w.setSocket id Socket.shut)
  else (.err .invalidAccess, w)

/-! ## The calls -/

def attach : Call Unit := fun w =>
  if w.attached = true then (.err .alreadyAttached, w)
  else (.ok (), { w with attached := true }.networkCarrier false)

def connect (failure : Option String) : Call Unit := fun w =>
  if w.attached = false then (.err .notAttached, w)
  else if w.stopped = false ∨ w.socket ≠ none then (.ok (), w)
  else (.ok (), { w with stopped := false }.openSocket failure)

def close : Call Unit := fun w =>
  let timers := w.reconnectTimer.elim w.timers w.timers.erase
  let down :=
    { w with stopped := true, reconnectTimer := none, timers, socket := none }.networkCarrier false
  match w.socket with
  | none => (.ok (), down)
  | some id => closeSocket id 1000 down

/-- `transmit`, given the `bufferedAmount` of the socket. -/
def transmit (packet : List UInt8) (buffered : Nat) : Call Bool := fun w =>
  if packet.length = 0 ∨ maxEthernetFrameSize < packet.length then (.ok false, w)
  else
    match w.socket with
    | none => (.ok false, w)
    | some id =>
      if (w.sockets[id]?).map Socket.readyState ≠ some .opened then (.ok false, w)
      else if networkSendHighWater < buffered + packet.length then (.ok false, w)
      else (.ok true, w.setSocket id (Socket.send packet))

/-! ## The events -/

inductive Data where
  | text
  | binary (bytes : List UInt8)
  deriving DecidableEq, Repr

def protocolError (id : Nat) (message : String) : Call Unit := fun w =>
  closeSocket id 1003 ((w.reported message).networkCarrier false)

def onOpen (id : Nat) (w : World) : World :=
  if w.socket ≠ some id ∨ w.stopped = true then w
  else { w with reconnectDelay := initialReconnectDelayMs }.networkCarrier true

/-- The handler of messages, given what `networkInput` returns. -/
def onMessage (id : Nat) (data : Data) (result : Int) : Call Unit := fun w =>
  if w.socket ≠ some id ∨ w.stopped = true then (.ok (), w)
  else
    match data with
    | .text => protocolError id "network WebSocket sent a non-binary message" w
    | .binary packet =>
      if packet.length = 0 ∨ maxEthernetFrameSize < packet.length then
        protocolError id "network WebSocket sent an invalid frame size" w
      else if w.attached = true then
        let w := { w with packets := w.packets ++ [(id, packet)] }
        (.ok (), if result < 0 then w.reported "Riscbox rejected network ingress" else w)
      else (.ok (), w)

def onError (id : Nat) (w : World) : World :=
  if w.socket ≠ some id ∨ w.stopped = true then w
  else (w.networkCarrier false).reported "network WebSocket failed"

def onClose (id : Nat) (w : World) : World :=
  if w.socket ≠ some id then w
  else ({ w with socket := none }.networkCarrier false).scheduleReconnect

/-- The callback of a timer. -/
def onTimer (failure : Option String) (w : World) : World :=
  let w := { w with reconnectTimer := none }
  if w.stopped = true then w else w.openSocket failure

end World

/-! ## Runs -/

open World (Data)

/-- What the user of the link or its host does.  A socket starts to close, fails and ends
by itself. -/
inductive Action where
  | attach
  | connect (failure : Option String)
  | close
  | transmit (packet : List UInt8) (buffered : Nat)
  | openEvent (id : Nat)
  | messageEvent (id : Nat) (data : Data) (result : Int)
  | closing (id : Nat)
  | errorEvent (id : Nat)
  | closeEvent (id : Nat)
  | expire (timer : Nat) (failure : Option String)
  deriving DecidableEq, Repr

/-- A message that is no frame. -/
def World.Data.Violates : Data → Prop
  | .text => True
  | .binary packet => packet.length = 0 ∨ maxEthernetFrameSize < packet.length

instance : DecidablePred Data.Violates
  | .text => isTrue trivial
  | .binary packet =>
    inferInstanceAs (Decidable (packet.length = 0 ∨ maxEthernetFrameSize < packet.length))

namespace World

/-- A step, if the host can take it. -/
def perform : Action → World → Option World
  | .attach, w => some (attach w).2
  | .connect failure, w => some (connect failure w).2
  | .close, w => some (close w).2
  | .transmit packet buffered, w => some (transmit packet buffered w).2
  | .openEvent id, w =>
    if (w.sockets[id]?).map Socket.readyState = some .connecting then
      some ((w.setSocket id Socket.establish).onOpen id)
    else none
  | .messageEvent id data result, w =>
    if (w.sockets[id]?).map Socket.readyState = some .opened then
      some (onMessage id data result (w.setSocket id (Socket.note (decide data.Violates)))).2
    else none
  | .closing id, w =>
    if (w.sockets[id]?).map Socket.finished = some false then some (w.setSocket id Socket.shut)
    else none
  | .errorEvent id, w =>
    if (w.sockets[id]?).map Socket.finished = some false then
      some ((w.setSocket id Socket.fail).onError id)
    else none
  | .closeEvent id, w =>
    if (w.sockets[id]?).map Socket.finished = some false then
      some ((w.setSocket id Socket.finish).onClose id)
    else none
  | .expire timer failure, w =>
    if timer ∈ w.timers then some ({ w with timers := w.timers.erase timer }.onTimer failure)
    else none

def run : List Action → World → Option World
  | [], w => some w
  | action :: rest, w => (w.perform action).bind (run rest)

end World

end Network
end Riscbox
