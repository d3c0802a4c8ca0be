import Riscbox.Network.WebSocket

/-!
# What the link reports

In every run of the link and its host, the carrier that was reported last is that of the
current socket, and there is one socket or one reconnect timer.  A message that is no
frame leaves its socket open, because the code that the link closes it with is refused:
what the link promises about such a socket holds in the runs without one.
-/

namespace Riscbox
namespace Network

/-! ## Sockets -/

namespace Socket

/-- The socket has opened, and nothing has ended its carrier. -/
def up (socket : Socket) : Bool :=
  socket.opened && !socket.failed && !socket.finished && !socket.violated

/-- The history of a socket is that of its state. -/
structure Coherent (socket : Socket) : Prop where
  connecting : socket.readyState = .connecting → socket.opened = false ∧ socket.violated = false
  opened : socket.readyState = .opened → socket.opened = true
  alive : socket.readyState = .connecting ∨ socket.readyState = .opened →
    socket.failed = false ∧ socket.finished = false

theorem coherent_new : new.Coherent where
  connecting := fun _ => ⟨rfl, rfl⟩
  opened := fun h => nomatch h
  alive := fun _ => ⟨rfl, rfl⟩

theorem shut_readyState (socket : Socket) :
    socket.shut.readyState = .closing ∨ socket.shut.readyState = .closed := by
  unfold shut
  cases h : socket.readyState <;> simp [h]

theorem shut_history (socket : Socket) :
    socket.shut.opened = socket.opened ∧ socket.shut.failed = socket.failed ∧
      socket.shut.finished = socket.finished ∧ socket.shut.violated = socket.violated := by
  unfold shut
  cases h : socket.readyState <;> simp

theorem coherent_shut (socket : Socket) : socket.shut.Coherent := by
  have hstate := shut_readyState socket
  constructor
  · intro h
    rw [h] at hstate
    simp at hstate
  · intro h
    rw [h] at hstate
    simp at hstate
  · intro h
    rcases h with h | h
    · rw [h] at hstate
      simp at hstate
    · rw [h] at hstate
      simp at hstate

theorem up_shut (socket : Socket) : socket.shut.up = socket.up := by
  obtain ⟨hopened, hfailed, hfinished, hviolated⟩ := shut_history socket
  rw [up, up, hopened, hfailed, hfinished, hviolated]

end Socket

namespace World

variable {w w' : World} {id : Nat} {f : Socket → Socket}

/-- The socket of the link. -/
def current (w : World) : Option Socket := w.socket.bind fun id => w.sockets[id]?

def up (w : World) : Bool := w.current.any Socket.up

/-- The link, its timers and its sockets fit together, and so does the carrier that was
reported last. -/
structure Sound (w : World) : Prop where
  stopped : w.stopped = true → w.socket = none ∧ w.reconnectTimer = none
  timers : w.timers = w.reconnectTimer.toList
  either : w.socket ≠ none → w.reconnectTimer = none
  attached : w.stopped = false → w.attached = true
  present : w.socket ≠ none → ∃ socket, w.current = some socket ∧ socket.finished = false
  coherent : ∀ socket ∈ w.sockets, socket.Coherent
  carrier : w.carriers.getLast? = some true ↔ w.up = true

theorem sound_init : Sound init where
  stopped := fun _ => ⟨rfl, rfl⟩
  timers := rfl
  either := fun _ => rfl
  attached := fun h => nomatch h
  present := fun h => absurd rfl h
  coherent := fun _ h => absurd h List.not_mem_nil
  carrier := by simp [init, up, current]

/-! ## What the host does to a socket -/

theorem getElem?_setSocket (other : Nat) :
    (w.setSocket id f).sockets[other]? =
      if id = other then (w.sockets[other]?).map f else w.sockets[other]? := by
  show (w.sockets.modify id f)[other]? = _
  rw [List.getElem?_modify]
  by_cases h : id = other
  · simp [h]
  · simp [h]

theorem current_setSocket (hid : w.socket = some id) :
    (w.setSocket id f).current = w.current.map f := by
  have hsocket : (w.setSocket id f).socket = some id := hid
  rw [current, current, hsocket, hid, Option.bind_some, Option.bind_some, getElem?_setSocket,
    if_pos rfl]

theorem current_setSocket_other (hid : w.socket ≠ some id) :
    (w.setSocket id f).current = w.current := by
  have hsocket : (w.setSocket id f).socket = w.socket := rfl
  rw [current, current, hsocket]
  cases hother : w.socket with
  | none => rfl
  | some other =>
    have hne : id ≠ other := fun h => hid (hother.trans (congrArg some h.symm))
    rw [Option.bind_some, Option.bind_some, getElem?_setSocket, if_neg hne]

theorem coherent_setSocket (h : ∀ socket ∈ w.sockets, socket.Coherent)
    (hf : ∀ socket, w.sockets[id]? = some socket → socket.Coherent → (f socket).Coherent) :
    ∀ socket ∈ (w.setSocket id f).sockets, socket.Coherent := by
  intro socket hsocket
  obtain ⟨other, hother⟩ := List.mem_iff_getElem?.mp hsocket
  rw [getElem?_setSocket] at hother
  by_cases hid : id = other
  · rw [if_pos hid] at hother
    obtain ⟨before, hbefore, rfl⟩ := Option.map_eq_some_iff.mp hother
    exact hf before (by rw [hid, hbefore]) (h before (List.mem_of_getElem? hbefore))
  · rw [if_neg hid] at hother
    exact h socket (List.mem_of_getElem? hother)

/-- A socket that changes without a change of the carrier of the current one. -/
theorem Sound.setSocket (h : Sound w)
    (hf : ∀ socket, w.sockets[id]? = some socket → socket.Coherent → (f socket).Coherent)
    (hcurrent : w.socket = some id → ∀ socket, w.sockets[id]? = some socket →
      (f socket).up = socket.up ∧ (f socket).finished = socket.finished) :
    Sound (w.setSocket id f) := by
  have hcoherent := coherent_setSocket h.coherent hf
  by_cases hid : w.socket = some id
  · obtain ⟨socket, hsocket, hfinished⟩ := h.present (by rw [hid]; simp)
    have hat : w.sockets[id]? = some socket := by
      rw [current, hid] at hsocket
      exact hsocket
    obtain ⟨hup, hstill⟩ := hcurrent hid socket hat
    have hafter : (w.setSocket id f).current = some (f socket) := by
      rw [current_setSocket hid, hsocket]
      rfl
    refine ⟨h.stopped, h.timers, h.either, h.attached, fun _ => ⟨_, hafter, ?_⟩, hcoherent, ?_⟩
    · rw [hstill]
      exact hfinished
    · have hcarrier := h.carrier
      rw [up, hsocket] at hcarrier
      rw [up, hafter]
      show w.carriers.getLast? = some true ↔ (f socket).up = true
      rw [hup]
      exact hcarrier
  · have hafter := current_setSocket_other (f := f) hid
    refine ⟨h.stopped, h.timers, h.either, h.attached, ?_, hcoherent, ?_⟩
    · rw [hafter]
      exact h.present
    · rw [up, hafter]
      exact h.carrier

/-! ## The steps of the link -/

@[simp] theorem networkCarrier_attached (h : w.attached = true) (up : Bool) :
    w.networkCarrier up = { w with carriers := w.carriers ++ [up] } := if_pos h

theorem up_of_none (h : w.socket = none) : w.up = false := by
  rw [up, current, h]
  rfl

/-- A link without a socket, with its carrier down and perhaps with a timer. -/
theorem sound_of_down (hsocket : w.socket = none) (hcarrier : w.carriers.getLast? ≠ some true)
    (hstopped : w.stopped = true → w.reconnectTimer = none)
    (htimers : w.timers = w.reconnectTimer.toList)
    (hattached : w.stopped = false → w.attached = true)
    (hcoherent : ∀ socket ∈ w.sockets, socket.Coherent) : Sound w := by
  refine ⟨fun h => ⟨hsocket, hstopped h⟩, htimers, fun h => absurd hsocket h, hattached,
    fun h => absurd hsocket h, hcoherent, ?_⟩
  rw [up_of_none hsocket]
  simp [hcarrier]

theorem Sound.down (h : Sound w) (hsocket : w.socket = none) : w.carriers.getLast? ≠ some true := by
  intro hlast
  have hup := h.carrier.mp hlast
  rw [up_of_none hsocket] at hup
  cases hup

/-- A timer for the next socket. -/
theorem sound_scheduleReconnect (h : Sound w) (hsocket : w.socket = none) :
    Sound w.scheduleReconnect := by
  unfold scheduleReconnect
  by_cases hskip : w.stopped = true ∨ w.reconnectTimer ≠ none
  · rw [if_pos hskip]
    exact h
  · rw [if_neg hskip]
    rw [not_or, not_not, Bool.not_eq_true] at hskip
    apply sound_of_down
    · exact hsocket
    · exact h.down hsocket
    · intro hstopped
      rw [show w.stopped = true from hstopped] at hskip
      exact absurd hskip.1 (by decide)
    · show w.timers ++ [w.nextTimer] = [w.nextTimer]
      rw [h.timers, hskip.2]
      rfl
    · exact h.attached
    · exact h.coherent

theorem sound_openSocket (h : Sound w) (hsocket : w.socket = none) (htimer : w.reconnectTimer = none)
    (hrunning : w.stopped = false) (failure : Option String) : Sound (w.openSocket failure) := by
  cases failure with
  | some message =>
    have hreported : Sound (w.reported message) :=
      ⟨h.stopped, h.timers, h.either, h.attached, h.present, h.coherent, h.carrier⟩
    exact sound_scheduleReconnect hreported hsocket
  | none =>
    have hcurrent : (w.openSocket none).current = some Socket.new := by
      show (w.sockets ++ [Socket.new])[w.sockets.length]? = some Socket.new
      simp
    constructor
    · intro hstopped
      rw [show w.stopped = true from hstopped] at hrunning
      cases hrunning
    · exact h.timers
    · exact fun _ => htimer
    · exact h.attached
    · exact fun _ => ⟨_, hcurrent, rfl⟩
    · intro socket hmem
      rcases List.mem_append.mp hmem with hmem | hmem
      · exact h.coherent socket hmem
      · rw [List.mem_singleton.mp hmem]
        exact Socket.coherent_new
    · rw [up, hcurrent]
      have hdown := h.down hsocket
      constructor
      · exact fun hlast => absurd hlast hdown
      · exact fun hup => by cases hup

theorem sound_attach (h : Sound w) : Sound (attach w).2 := by
  unfold attach
  by_cases hattached : w.attached = true
  · rw [if_pos hattached]
    exact h
  · rw [if_neg hattached]
    have hstopped : w.stopped = true := by
      by_contra hrunning
      exact hattached (h.attached (by simpa using hrunning))
    obtain ⟨hsocket, htimer⟩ := h.stopped hstopped
    show Sound ({ w with attached := true }.networkCarrier false)
    rw [networkCarrier_attached rfl]
    apply sound_of_down
    · exact hsocket
    · simp
    · exact fun _ => htimer
    · exact h.timers
    · exact fun _ => rfl
    · exact h.coherent

theorem sound_connect (h : Sound w) (failure : Option String) : Sound (connect failure w).2 := by
  unfold connect
  by_cases hattached : w.attached = false
  · rw [if_pos hattached]
    exact h
  · rw [if_neg hattached]
    by_cases hskip : w.stopped = false ∨ w.socket ≠ none
    · rw [if_pos hskip]
      exact h
    · rw [if_neg hskip]
      rw [not_or, Bool.not_eq_false, not_not] at hskip
      obtain ⟨hsocket, htimer⟩ := h.stopped hskip.1
      have hstarted : Sound { w with stopped := false } := by
        apply sound_of_down
        · exact hsocket
        · exact h.down hsocket
        · exact fun hstopped => by cases hstopped
        · exact h.timers
        · exact fun _ => by simpa using hattached
        · exact h.coherent
      exact sound_openSocket hstarted hsocket htimer rfl failure

/-- The link that `close` leaves, before it closes the socket. -/
theorem sound_stopped (h : Sound w) (timers : List Nat)
    (htimers : timers = w.reconnectTimer.elim w.timers w.timers.erase) :
    Sound ({ w with stopped := true, reconnectTimer := none, timers := timers, socket := none
      }.networkCarrier false) := by
  have hempty : timers = [] := by
    rw [htimers, h.timers]
    cases w.reconnectTimer with
    | none => rfl
    | some timer => simp
  by_cases hattached : w.attached = true
  · simp only [networkCarrier, hattached, if_true]
    apply sound_of_down
    · rfl
    · simp
    · exact fun _ => rfl
    · exact hempty
    · exact fun hrunning => by cases hrunning
    · exact h.coherent
  · have hsocket : w.socket = none := by
      by_cases hstopped : w.stopped = true
      · exact (h.stopped hstopped).1
      · exact absurd (h.attached (by simpa using hstopped)) hattached
    simp only [networkCarrier, hattached, if_false, Bool.false_eq_true]
    apply sound_of_down
    · rfl
    · exact h.down hsocket
    · exact fun _ => rfl
    · exact hempty
    · exact fun hrunning => by cases hrunning
    · exact h.coherent

theorem closeSocket_refused {code : Nat} (h : ¬Socket.ClosesWith code) :
    (closeSocket id code w).2 = w := by
  rw [closeSocket, if_neg h]

theorem sound_close (h : Sound w) : Sound (close w).2 := by
  have hstopped := sound_stopped h _ rfl
  unfold close
  cases hsocket : w.socket with
  | none => exact hstopped
  | some id =>
    show Sound (closeSocket id 1000 _).2
    rw [closeSocket, if_pos (by decide)]
    apply hstopped.setSocket
    · exact fun socket _ _ => Socket.coherent_shut socket
    · intro hcurrent
      unfold networkCarrier at hcurrent
      split at hcurrent <;> cases hcurrent

theorem sound_transmit (h : Sound w) (packet : List UInt8) (buffered : Nat) :
    Sound (transmit packet buffered w).2 := by
  unfold transmit
  by_cases hsize : packet.length = 0 ∨ maxEthernetFrameSize < packet.length
  · rw [if_pos hsize]
    exact h
  · rw [if_neg hsize]
    cases hsocket : w.socket with
    | none => exact h
    | some id =>
      by_cases hstate : (w.sockets[id]?).map Socket.readyState ≠ some .opened
      · simp only [if_pos hstate]
        exact h
      · by_cases hpressure : networkSendHighWater < buffered + packet.length
        · simp only [if_neg hstate, if_pos hpressure]
          exact h
        · simp only [if_neg hstate, if_neg hpressure]
          apply h.setSocket
          · exact fun socket _ hcoherent =>
              ⟨hcoherent.connecting, hcoherent.opened, hcoherent.alive⟩
          · exact fun _ socket _ => ⟨rfl, rfl⟩

/-! ## The events of a socket -/

theorem Sound.running (h : Sound w) (hid : w.socket = some id) :
    w.stopped = false ∧ w.attached = true := by
  have hrunning : w.stopped = false := by
    by_contra hstopped
    have hnone := (h.stopped (by simpa using hstopped)).1
    rw [hid] at hnone
    cases hnone
  exact ⟨hrunning, h.attached hrunning⟩

/-- The current socket, as the host has it. -/
theorem Sound.present_at (h : Sound w) (hid : w.socket = some id) :
    ∃ socket, w.sockets[id]? = some socket ∧ socket.finished = false := by
  obtain ⟨socket, hsocket, hfinished⟩ := h.present (by rw [hid]; simp)
  rw [current, hid] at hsocket
  exact ⟨socket, hsocket, hfinished⟩

/-- An event of the current socket that reports the carrier it leaves. -/
theorem sound_reported (h : Sound w) (hid : w.socket = some id) (delay : Nat)
    (errors : List String) (report : Bool)
    (hf : ∀ socket, w.sockets[id]? = some socket → socket.Coherent →
      (f socket).Coherent ∧ (f socket).finished = socket.finished ∧ (f socket).up = report) :
    Sound
      { w.setSocket id f with
        reconnectDelay := delay, carriers := w.carriers ++ [report], errors := errors } := by
  obtain ⟨socket, hsocket, hfinished⟩ := h.present_at hid
  obtain ⟨-, hstill, hup⟩ := hf socket hsocket (h.coherent socket (List.mem_of_getElem? hsocket))
  have hcurrent : (w.setSocket id f).current = some (f socket) := by
    rw [current_setSocket hid, current, hid, Option.bind_some, hsocket]
    rfl
  refine ⟨h.stopped, h.timers, h.either, h.attached, fun _ => ⟨f socket, hcurrent, ?_⟩,
    coherent_setSocket h.coherent fun socket hat hcoherent => (hf socket hat hcoherent).1, ?_⟩
  · rw [hstill]
    exact hfinished
  · show (w.carriers ++ [report]).getLast? = some true ↔
      (w.setSocket id f).current.any Socket.up = true
    rw [hcurrent, Option.any_some, hup, List.getLast?_concat, Option.some.injEq]

theorem onOpen_current (hid : w.socket = some id) (hrunning : w.stopped = false)
    (hattached : w.attached = true) :
    w.onOpen id =
      { w with
        reconnectDelay := initialReconnectDelayMs, carriers := w.carriers ++ [true] } := by
  have hskip : ¬(w.socket ≠ some id ∨ w.stopped = true) := by simp [hid, hrunning]
  rw [onOpen, if_neg hskip]
  exact if_pos hattached

theorem onError_current (hid : w.socket = some id) (hrunning : w.stopped = false)
    (hattached : w.attached = true) :
    w.onError id =
      { w with
        carriers := w.carriers ++ [false]
        errors := w.errors ++ ["network WebSocket failed"] } := by
  have hskip : ¬(w.socket ≠ some id ∨ w.stopped = true) := by simp [hid, hrunning]
  rw [onError, if_neg hskip, networkCarrier_attached hattached]
  rfl

theorem coherent_establish {socket : Socket} (h : socket.Coherent)
    (hconnecting : socket.readyState = .connecting) :
    socket.establish.Coherent ∧ socket.establish.up = true := by
  obtain ⟨hopened, hviolated⟩ := h.connecting hconnecting
  obtain ⟨hfailed, hfinished⟩ := h.alive (.inl hconnecting)
  constructor
  · constructor
    · exact fun hstate => by cases hstate
    · exact fun _ => rfl
    · exact fun _ => ⟨hfailed, hfinished⟩
  · simp [Socket.up, Socket.establish, hfailed, hfinished, hviolated]

theorem coherent_of_closed {socket : Socket} (h : socket.readyState = .closed) :
    socket.Coherent := by
  constructor
  · intro hstate
    rw [h] at hstate
    cases hstate
  · intro hstate
    rw [h] at hstate
    cases hstate
  · rintro (hstate | hstate)
    · rw [h] at hstate
      cases hstate
    · rw [h] at hstate
      cases hstate

theorem coherent_note {socket : Socket} (h : socket.Coherent) (hopen : socket.readyState = .opened)
    (violation : Bool) : (socket.note violation).Coherent := by
  constructor
  · intro hstate
    rw [show socket.readyState = .connecting from hstate] at hopen
    cases hopen
  · exact h.opened
  · exact h.alive

theorem sound_openEvent (h : Sound w)
    (hstate : (w.sockets[id]?).map Socket.readyState = some .connecting) :
    Sound ((w.setSocket id Socket.establish).onOpen id) := by
  have hconnecting : ∀ socket, w.sockets[id]? = some socket → socket.readyState = .connecting := by
    intro socket hsocket
    rw [hsocket] at hstate
    exact Option.some.inj hstate
  by_cases hid : w.socket = some id
  · obtain ⟨hrunning, hattached⟩ := h.running hid
    rw [onOpen_current (w := w.setSocket id Socket.establish) hid hrunning hattached]
    apply sound_reported h hid
    intro socket hsocket hcoherent
    obtain ⟨hafter, hup⟩ := coherent_establish hcoherent (hconnecting socket hsocket)
    exact ⟨hafter, rfl, hup⟩
  · rw [onOpen, if_pos (.inl hid)]
    apply h.setSocket
    · exact fun socket hsocket hcoherent =>
        (coherent_establish hcoherent (hconnecting socket hsocket)).1
    · exact fun hcurrent => absurd hcurrent hid

theorem sound_errorEvent (h : Sound w) : Sound ((w.setSocket id Socket.fail).onError id) := by
  by_cases hid : w.socket = some id
  · obtain ⟨hrunning, hattached⟩ := h.running hid
    rw [onError_current (w := w.setSocket id Socket.fail) hid hrunning hattached]
    apply sound_reported h hid
    intro socket _ _
    refine ⟨coherent_of_closed rfl, rfl, ?_⟩
    simp [Socket.up, Socket.fail]
  · rw [onError, if_pos (.inl hid)]
    apply h.setSocket
    · exact fun socket _ _ => coherent_of_closed rfl
    · exact fun hcurrent => absurd hcurrent hid

theorem sound_closeEvent (h : Sound w) : Sound ((w.setSocket id Socket.finish).onClose id) := by
  unfold onClose
  by_cases hid : w.socket = some id
  · obtain ⟨hrunning, hattached⟩ := h.running hid
    have hskip : ¬(w.setSocket id Socket.finish).socket ≠ some id := not_not.mpr hid
    rw [if_neg hskip]
    apply sound_scheduleReconnect
    · simp only [networkCarrier, setSocket, hattached, if_true]
      apply sound_of_down
      · rfl
      · simp
      · exact fun _ => h.either (by rw [hid]; simp)
      · exact h.timers
      · exact fun _ => rfl
      · exact coherent_setSocket (f := Socket.finish) h.coherent fun _ _ _ => coherent_of_closed rfl
    · simp only [networkCarrier, setSocket, hattached, if_true]
  · have hskip : (w.setSocket id Socket.finish).socket ≠ some id := hid
    rw [if_pos hskip]
    apply h.setSocket
    · exact fun socket _ _ => coherent_of_closed rfl
    · exact fun hcurrent => absurd hcurrent hid

theorem sound_closing (h : Sound w) : Sound (w.setSocket id Socket.shut) := by
  apply h.setSocket
  · exact fun socket _ _ => Socket.coherent_shut socket
  · exact fun _ socket _ => ⟨Socket.up_shut socket, (Socket.shut_history socket).2.2.1⟩

/-- What the link makes of a message that is no frame: the code of its `close` is refused. -/
theorem protocolError_refused (message : String) (hattached : w.attached = true) :
    (protocolError id message w).2 =
      { w with carriers := w.carriers ++ [false], errors := w.errors ++ [message] } := by
  have hreported : (w.reported message).attached = true := hattached
  rw [protocolError, closeSocket_refused (by decide), networkCarrier, if_pos hreported]
  rfl

section Message

variable {data : Data} {result : Int}

theorem onMessage_stale (hid : w.socket ≠ some id) : (onMessage id data result w).2 = w := by
  unfold onMessage
  rw [if_pos (.inl hid)]

theorem onMessage_violation (result : Int) (hid : w.socket = some id) (hrunning : w.stopped = false)
    (hattached : w.attached = true) (hdata : data.Violates) :
    ∃ errors, (onMessage id data result w).2 =
      { w with carriers := w.carriers ++ [false], errors := errors } := by
  have hskip : ¬(w.socket ≠ some id ∨ w.stopped = true) := by simp [hid, hrunning]
  cases data with
  | text =>
    rw [onMessage, if_neg hskip]
    exact ⟨_, protocolError_refused _ hattached⟩
  | binary packet =>
    have hsize : packet.length = 0 ∨ maxEthernetFrameSize < packet.length := hdata
    simp only [onMessage, if_neg hskip, if_pos hsize]
    exact ⟨_, protocolError_refused _ hattached⟩

theorem onMessage_frame (result : Int) (hid : w.socket = some id) (hrunning : w.stopped = false)
    (hattached : w.attached = true) (hdata : ¬data.Violates) :
    ∃ packet errors, data = .binary packet ∧ (onMessage id data result w).2 =
      { w with packets := w.packets ++ [(id, packet)], errors := errors } := by
  have hskip : ¬(w.socket ≠ some id ∨ w.stopped = true) := by simp [hid, hrunning]
  cases data with
  | text => exact absurd trivial hdata
  | binary packet =>
    have hsize : ¬(packet.length = 0 ∨ maxEthernetFrameSize < packet.length) := hdata
    simp only [onMessage, if_neg hskip, if_neg hsize, hattached, if_true]
    by_cases hresult : result < 0
    · exact ⟨packet, _, rfl, if_pos hresult⟩
    · exact ⟨packet, w.errors, rfl, if_neg hresult⟩

theorem sound_messageEvent (h : Sound w)
    (hstate : (w.sockets[id]?).map Socket.readyState = some .opened) :
    Sound (onMessage id data result (w.setSocket id (Socket.note (decide data.Violates)))).2 := by
  have hopen : ∀ socket, w.sockets[id]? = some socket → socket.readyState = .opened := by
    intro socket hsocket
    rw [hsocket] at hstate
    exact Option.some.inj hstate
  have hcoherent : ∀ violation socket, w.sockets[id]? = some socket → socket.Coherent →
      (socket.note violation).Coherent := fun violation socket hsocket hbefore =>
    coherent_note hbefore (hopen socket hsocket) violation
  by_cases hid : w.socket = some id
  · obtain ⟨hrunning, hattached⟩ := h.running hid
    by_cases hdata : data.Violates
    · obtain ⟨errors, hafter⟩ := onMessage_violation
        (w := w.setSocket id (Socket.note (decide data.Violates))) result hid hrunning hattached hdata
      rw [hafter]
      apply sound_reported h hid
      intro socket hsocket hbefore
      refine ⟨hcoherent _ socket hsocket hbefore, rfl, ?_⟩
      simp [Socket.up, Socket.note, hdata]
    · obtain ⟨packet, errors, -, hafter⟩ := onMessage_frame
        (w := w.setSocket id (Socket.note (decide data.Violates))) result hid hrunning hattached hdata
      rw [hafter]
      have hnoted : Sound (w.setSocket id (Socket.note (decide data.Violates))) := by
        apply h.setSocket (hcoherent _)
        intro _ socket _
        simp [Socket.up, Socket.note, hdata]
      exact ⟨hnoted.stopped, hnoted.timers, hnoted.either, hnoted.attached, hnoted.present,
        hnoted.coherent, hnoted.carrier⟩
  · rw [onMessage_stale (w := w.setSocket id _) hid]
    apply h.setSocket (hcoherent _)
    exact fun hcurrent => absurd hcurrent hid

end Message

/-- The timer that expires is the one of the link. -/
theorem sound_expire {timer : Nat} (h : Sound w) (htimer : timer ∈ w.timers)
    (failure : Option String) :
    Sound ({ w with timers := w.timers.erase timer }.onTimer failure) := by
  have hpending : w.reconnectTimer = some timer := by
    rw [h.timers] at htimer
    exact Option.mem_toList.mp htimer
  have hsocket : w.socket = none := by
    by_contra hsome
    have hnone := h.either hsome
    rw [hpending] at hnone
    cases hnone
  have hrunning : w.stopped = false := by
    by_contra hstopped
    have hnone := (h.stopped (by simpa using hstopped)).2
    rw [hpending] at hnone
    cases hnone
  have hexpired : Sound { w with reconnectTimer := none, timers := w.timers.erase timer } := by
    apply sound_of_down
    · exact hsocket
    · exact h.down hsocket
    · exact fun _ => rfl
    · show w.timers.erase timer = []
      rw [h.timers, hpending]
      simp
    · exact h.attached
    · exact h.coherent
  have hopens := sound_openSocket hexpired hsocket rfl hrunning failure
  simp only [onTimer, hrunning, Bool.false_eq_true, if_false]
  rw [hrunning] at hopens
  exact hopens

/-! ## Steps and runs -/

/-- What a step preserves, whatever it is. -/
theorem Sound.perform {action : Action} (h : Sound w) (hstep : w.perform action = some w') :
    Sound w' := by
  cases action with
  | attach =>
    cases hstep
    exact sound_attach h
  | connect failure =>
    cases hstep
    exact sound_connect h failure
  | close =>
    cases hstep
    exact sound_close h
  | transmit packet buffered =>
    cases hstep
    exact sound_transmit h packet buffered
  | openEvent id =>
    obtain ⟨hstate, heq⟩ := Option.ite_none_right_eq_some.mp hstep
    cases heq
    exact sound_openEvent h hstate
  | messageEvent id data result =>
    obtain ⟨hstate, heq⟩ := Option.ite_none_right_eq_some.mp hstep
    cases heq
    exact sound_messageEvent h hstate
  | closing id =>
    obtain ⟨-, heq⟩ := Option.ite_none_right_eq_some.mp hstep
    cases heq
    exact sound_closing h
  | errorEvent id =>
    obtain ⟨-, heq⟩ := Option.ite_none_right_eq_some.mp hstep
    cases heq
    exact sound_errorEvent h
  | closeEvent id =>
    obtain ⟨-, heq⟩ := Option.ite_none_right_eq_some.mp hstep
    cases heq
    exact sound_closeEvent h
  | expire timer failure =>
    obtain ⟨htimer, heq⟩ := Option.ite_none_right_eq_some.mp hstep
    cases heq
    exact sound_expire h htimer failure

theorem run_cons {action : Action} {rest : List Action}
    (h : w.run (action :: rest) = some w') :
    ∃ between, w.perform action = some between ∧ between.run rest = some w' :=
  Option.bind_eq_some_iff.mp h

/-- An invariant of the steps is one of the runs. -/
theorem run_induction {P : World → Prop} {actions : List Action}
    (hstep : ∀ w w' action, action ∈ actions → P w → w.perform action = some w' → P w')
    (h : P w) (hrun : w.run actions = some w') : P w' := by
  induction actions generalizing w with
  | nil =>
    cases hrun
    exact h
  | cons action rest ih =>
    obtain ⟨between, hfirst, hrest⟩ := run_cons hrun
    refine ih ?_ (hstep w between action List.mem_cons_self h hfirst) hrest
    intro w w' other hother
    exact hstep w w' other (List.mem_cons_of_mem _ hother)

theorem Sound.run {actions : List Action} (h : Sound w) (hrun : w.run actions = some w') :
    Sound w' :=
  run_induction (fun _ _ _ _ hsound hstep => hsound.perform hstep) h hrun

end World

end Network
end Riscbox
