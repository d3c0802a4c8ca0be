import Riscbox.Network.Carrier

/-!
# When the link keeps its promises

What is promised of the link in every state of a run, and the runs in which it holds.
-/

namespace Riscbox
namespace Network

open World (Data)

/-- The socket of an event. -/
def Action.socketEvent : Action → Option Nat
  | .openEvent id => some id
  | .messageEvent id _ _ => some id
  | .errorEvent id => some id
  | .closeEvent id => some id
  | _ => none

/-- A socket delivers a message that is no frame. -/
def Action.Violates : Action → Prop
  | .messageEvent _ data _ => data.Violates
  | _ => False

namespace World

/-- The frames that a socket has delivered to the runtime. -/
def deliveredBy (id : Nat) (w : World) : List (List UInt8) :=
  (w.packets.filter fun packet => packet.1 = id).map Prod.snd

/-- One socket or one timer, a carrier that is that of the socket, nothing from a socket
that is not current or from a link that was closed, and a new socket after every end of
one; a socket that has violated the protocol is closed and delivers nothing more. -/
structure Truthful (w : World) : Prop where
  timer : w.timers.length ≤ 1
  exclusive : w.socket ≠ none → w.timers = []
  stale : ∀ action id w', action.socketEvent = some id → w.socket ≠ some id →
    w.perform action = some w' → ∃ f, w' = w.setSocket id f
  quiet : w.stopped = true → ∀ action w', (∀ failure, action ≠ .connect failure) →
    w.perform action = some w' →
      w'.stopped = true ∧ w'.socket = none ∧ w'.timers = [] ∧
        w'.sockets.length = w.sockets.length ∧
        (w'.carriers = w.carriers ∨ w'.carriers = w.carriers ++ [false])
  carrier : w.carriers.getLast? = some true ↔ w.up = true
  offender : ∀ socket ∈ w.sockets, socket.violated = true →
    socket.readyState = .closing ∨ socket.readyState = .closed
  undelivered : ∀ id socket action w', w.sockets[id]? = some socket → socket.violated = true →
    w.perform action = some w' → w'.deliveredBy id = w.deliveredBy id
  recovery : ∀ id, w.socket = some id → ∃ closed timer reopened,
    w.perform (.closeEvent id) = some closed ∧ closed.timers = [timer] ∧
      closed.perform (.expire timer none) = some reopened ∧
      reopened.socket = some w.sockets.length

variable {w w' : World} {id : Nat} {action : Action} {actions : List Action}

/-! ## What the steps leave alone -/

@[simp] theorem networkCarrier_sockets (up : Bool) (w : World) :
    (w.networkCarrier up).sockets = w.sockets := by
  unfold networkCarrier
  split <;> rfl

@[simp] theorem scheduleReconnect_sockets (w : World) :
    w.scheduleReconnect.sockets = w.sockets := by
  unfold scheduleReconnect
  split <;> rfl

@[simp] theorem onOpen_sockets (id : Nat) (w : World) : (w.onOpen id).sockets = w.sockets := by
  unfold onOpen
  split
  · rfl
  · rw [networkCarrier_sockets]

@[simp] theorem onError_sockets (id : Nat) (w : World) : (w.onError id).sockets = w.sockets := by
  unfold onError
  split
  · rfl
  · exact networkCarrier_sockets _ _

@[simp] theorem onClose_sockets (id : Nat) (w : World) : (w.onClose id).sockets = w.sockets := by
  unfold onClose
  split
  · rfl
  · rw [scheduleReconnect_sockets, networkCarrier_sockets]

theorem protocolError_sockets (id : Nat) (message : String) (w : World) :
    (protocolError id message w).2.sockets = w.sockets := by
  rw [protocolError, closeSocket_refused (by decide), networkCarrier_sockets]
  rfl

/-- A message leaves its socket open, also where the link asks to close it. -/
@[simp] theorem onMessage_sockets (id : Nat) (data : Data) (result : Int) (w : World) :
    (onMessage id data result w).2.sockets = w.sockets := by
  unfold onMessage
  split
  · rfl
  · cases data with
    | text => exact protocolError_sockets id _ w
    | binary packet =>
      dsimp only
      split
      · exact protocolError_sockets id _ w
      · split
        · show (if result < 0 then _ else _ : World).sockets = _
          split <;> rfl
        · rfl

theorem openSocket_sockets (failure : Option String) (w : World) :
    (w.openSocket failure).sockets = w.sockets ∨
      (w.openSocket failure).sockets = w.sockets ++ [.new] := by
  cases failure with
  | none => exact .inr rfl
  | some message => exact .inl (scheduleReconnect_sockets _)

/-! ## Violations -/

def Unviolated (w : World) : Prop := ∀ socket ∈ w.sockets, socket.violated = false

theorem Unviolated.of_sockets (h : Unviolated w) (hsockets : w'.sockets = w.sockets) :
    Unviolated w' := by
  unfold Unviolated
  rw [hsockets]
  exact h

theorem Unviolated.setSocket {f : Socket → Socket} (h : Unviolated w)
    (hf : ∀ socket, socket.violated = false → (f socket).violated = false) :
    Unviolated (w.setSocket id f) := by
  intro socket hsocket
  obtain ⟨other, hother⟩ := List.mem_iff_getElem?.mp hsocket
  rw [getElem?_setSocket] at hother
  by_cases hid : id = other
  · rw [if_pos hid] at hother
    obtain ⟨before, hbefore, rfl⟩ := Option.map_eq_some_iff.mp hother
    exact hf before (h before (List.mem_of_getElem? hbefore))
  · rw [if_neg hid] at hother
    exact h socket (List.mem_of_getElem? hother)

theorem Unviolated.openSocket (h : Unviolated w) (failure : Option String) :
    Unviolated (w.openSocket failure) := by
  rcases openSocket_sockets failure w with hsockets | hsockets
  · exact h.of_sockets hsockets
  · unfold Unviolated
    rw [hsockets]
    intro socket hsocket
    rcases List.mem_append.mp hsocket with hsocket | hsocket
    · exact h socket hsocket
    · rw [List.mem_singleton.mp hsocket]
      rfl

theorem shut_unviolated (socket : Socket) (h : socket.violated = false) :
    socket.shut.violated = false := (Socket.shut_history socket).2.2.2.trans h

/-- A step that violates nothing leaves no socket violated. -/
theorem Unviolated.perform (h : Unviolated w) (haction : ¬action.Violates)
    (hstep : w.perform action = some w') : Unviolated w' := by
  cases action with
  | attach =>
    cases hstep
    unfold attach
    split
    · exact h
    · exact h.of_sockets (networkCarrier_sockets _ _)
  | connect failure =>
    cases hstep
    unfold connect
    split
    · exact h
    · split
      · exact h
      · exact Unviolated.openSocket (w := { w with stopped := false }) h failure
  | close =>
    cases hstep
    have hdown : ∀ down : World, down.sockets = w.sockets →
        Unviolated (down.networkCarrier false) := fun down hsockets =>
      h.of_sockets ((networkCarrier_sockets false down).trans hsockets)
    unfold close
    cases w.socket with
    | none => exact hdown _ rfl
    | some id =>
      dsimp only
      rw [closeSocket, if_pos (by decide)]
      show Unviolated (World.setSocket id Socket.shut _)
      refine Unviolated.setSocket (hdown _ ?_) shut_unviolated
      rfl
  | transmit packet buffered =>
    cases hstep
    unfold transmit
    split
    · exact h
    · cases w.socket with
      | none => exact h
      | some id =>
        dsimp only
        split
        · exact h
        · split
          · exact h
          · exact h.setSocket fun socket hsocket => hsocket
  | openEvent id =>
    obtain ⟨-, heq⟩ := Option.ite_none_right_eq_some.mp hstep
    cases heq
    have hset : Unviolated (w.setSocket id Socket.establish) := h.setSocket fun socket hsocket => hsocket
    exact hset.of_sockets (onOpen_sockets _ _)
  | messageEvent id data result =>
    obtain ⟨-, heq⟩ := Option.ite_none_right_eq_some.mp hstep
    cases heq
    have hframe : ¬data.Violates := haction
    refine Unviolated.of_sockets (h.setSocket fun socket hsocket => ?_) (onMessage_sockets _ _ _ _)
    simp [Socket.note, hsocket, hframe]
  | closing id =>
    obtain ⟨-, heq⟩ := Option.ite_none_right_eq_some.mp hstep
    cases heq
    exact h.setSocket shut_unviolated
  | errorEvent id =>
    obtain ⟨-, heq⟩ := Option.ite_none_right_eq_some.mp hstep
    cases heq
    have hset : Unviolated (w.setSocket id Socket.fail) := h.setSocket fun socket hsocket => hsocket
    exact hset.of_sockets (onError_sockets _ _)
  | closeEvent id =>
    obtain ⟨-, heq⟩ := Option.ite_none_right_eq_some.mp hstep
    cases heq
    have hset : Unviolated (w.setSocket id Socket.finish) := h.setSocket fun socket hsocket => hsocket
    exact hset.of_sockets (onClose_sockets _ _)
  | expire timer failure =>
    obtain ⟨-, heq⟩ := Option.ite_none_right_eq_some.mp hstep
    cases heq
    unfold onTimer
    dsimp only
    split
    · exact h
    · exact Unviolated.openSocket (w := { w with reconnectTimer := none, timers := _ }) h failure

/-- A message that is no frame leaves an open socket that has violated the protocol. -/
theorem violation_open {data : Data} {result : Int} (hdata : data.Violates)
    (hstep : w.perform (.messageEvent id data result) = some w') :
    ∃ socket ∈ w'.sockets, socket.violated = true ∧ socket.readyState = .opened := by
  obtain ⟨hstate, heq⟩ := Option.ite_none_right_eq_some.mp hstep
  obtain ⟨socket, hsocket, hopen⟩ := Option.map_eq_some_iff.mp hstate
  refine ⟨socket.note true, ?_, by simp [Socket.note], hopen⟩
  rw [← Option.some.inj heq, onMessage_sockets]
  apply List.mem_of_getElem? (i := id)
  rw [getElem?_setSocket, if_pos rfl, hsocket, decide_eq_true hdata]
  rfl

/-! ## The promises, one by one -/

theorem stale_event (hevent : action.socketEvent = some id)
    (hid : w.socket ≠ some id) (hstep : w.perform action = some w') :
    ∃ f, w' = w.setSocket id f := by
  cases action with
  | openEvent other =>
    cases hevent
    obtain ⟨-, heq⟩ := Option.ite_none_right_eq_some.mp hstep
    refine ⟨Socket.establish, ?_⟩
    rw [← Option.some.inj heq, onOpen, if_pos (.inl hid)]
  | messageEvent other data result =>
    cases hevent
    obtain ⟨-, heq⟩ := Option.ite_none_right_eq_some.mp hstep
    refine ⟨Socket.note (decide data.Violates), ?_⟩
    rw [← Option.some.inj heq]
    exact onMessage_stale (w := w.setSocket id _) hid
  | errorEvent other =>
    cases hevent
    obtain ⟨-, heq⟩ := Option.ite_none_right_eq_some.mp hstep
    refine ⟨Socket.fail, ?_⟩
    rw [← Option.some.inj heq, onError, if_pos (.inl hid)]
  | closeEvent other =>
    cases hevent
    obtain ⟨-, heq⟩ := Option.ite_none_right_eq_some.mp hstep
    refine ⟨Socket.finish, ?_⟩
    rw [← Option.some.inj heq]
    exact if_pos hid
  | attach => cases hevent
  | connect failure => cases hevent
  | close => cases hevent
  | transmit packet buffered => cases hevent
  | closing other => cases hevent
  | expire timer failure => cases hevent

/-- What a link that was closed stays, until the next `connect`. -/
def Quiet (w w' : World) : Prop :=
  w'.stopped = true ∧ w'.socket = none ∧ w'.timers = [] ∧
    w'.sockets.length = w.sockets.length ∧
    (w'.carriers = w.carriers ∨ w'.carriers = w.carriers ++ [false])

theorem Sound.quiet (h : Sound w) (hstopped : w.stopped = true)
    (haction : ∀ failure, action ≠ .connect failure) (hstep : w.perform action = some w') :
    Quiet w w' := by
  obtain ⟨hsocket, htimer⟩ := h.stopped hstopped
  have htimers : w.timers = [] := by
    rw [h.timers, htimer]
    rfl
  have hset : ∀ id f, Quiet w (w.setSocket id f) := fun id f =>
    ⟨hstopped, hsocket, htimers, List.length_modify .., .inl rfl⟩
  have hevent : ∀ id, action.socketEvent = some id → Quiet w w' := by
    intro id hid
    obtain ⟨f, rfl⟩ := stale_event hid (by rw [hsocket]; simp) hstep
    exact hset id f
  cases action with
  | attach =>
    cases hstep
    unfold attach
    by_cases hattached : w.attached = true
    · rw [if_pos hattached]
      exact ⟨hstopped, hsocket, htimers, rfl, .inl rfl⟩
    · rw [if_neg hattached]
      exact ⟨hstopped, hsocket, htimers, rfl, .inr rfl⟩
  | connect failure => exact absurd rfl (haction failure)
  | close =>
    cases hstep
    unfold close
    rw [hsocket]
    simp only [networkCarrier, htimer, Option.elim]
    by_cases hattached : w.attached = true
    · simp only [hattached, if_true]
      exact ⟨rfl, rfl, htimers, rfl, .inr rfl⟩
    · simp only [hattached, Bool.false_eq_true, if_false]
      exact ⟨rfl, rfl, htimers, rfl, .inl rfl⟩
  | transmit packet buffered =>
    cases hstep
    unfold transmit
    rw [hsocket]
    dsimp only
    split <;> exact ⟨hstopped, hsocket, htimers, rfl, .inl rfl⟩
  | openEvent id => exact hevent id rfl
  | messageEvent id data result => exact hevent id rfl
  | closing id =>
    obtain ⟨-, heq⟩ := Option.ite_none_right_eq_some.mp hstep
    cases heq
    exact hset id _
  | errorEvent id => exact hevent id rfl
  | closeEvent id => exact hevent id rfl
  | expire timer failure =>
    obtain ⟨hmem, -⟩ := Option.ite_none_right_eq_some.mp hstep
    rw [htimers] at hmem
    exact absurd hmem List.not_mem_nil

/-- The end of the current socket leads to a new one. -/
theorem Sound.recovery (h : Sound w) (hid : w.socket = some id) : ∃ closed timer reopened,
    w.perform (.closeEvent id) = some closed ∧ closed.timers = [timer] ∧
      closed.perform (.expire timer none) = some reopened ∧
      reopened.socket = some w.sockets.length := by
  obtain ⟨hrunning, hattached⟩ := h.running hid
  obtain ⟨socket, hsocket, hfinished⟩ := h.present_at hid
  have htimer := h.either (by rw [hid]; simp)
  have htimers : w.timers = [] := by
    rw [h.timers, htimer]
    rfl
  have hcan : (w.sockets[id]?).map Socket.finished = some false := by
    rw [hsocket, Option.map_some, hfinished]
  refine ⟨_, w.nextTimer, _, if_pos hcan, ?_, if_pos ?_, ?_⟩
  · simp [onClose, World.setSocket, hid, networkCarrier, hattached, scheduleReconnect, hrunning, htimer,
      htimers]
  · simp [onClose, World.setSocket, hid, networkCarrier, hattached, scheduleReconnect, hrunning, htimer]
  · simp [onClose, World.setSocket, hid, networkCarrier, hattached, scheduleReconnect, hrunning, htimer,
      onTimer, World.openSocket]

/-! ## All of them -/

theorem truthful_of_unviolated (h : Sound w) (hunviolated : Unviolated w) : Truthful w := by
  have hnever : ∀ socket ∈ w.sockets, socket.violated ≠ true := by
    intro socket hsocket hviolated
    rw [hunviolated socket hsocket] at hviolated
    cases hviolated
  constructor
  · rw [h.timers]
    cases w.reconnectTimer <;> simp
  · intro hsocket
    rw [h.timers, h.either hsocket]
    rfl
  · exact fun action id w' hevent hid hstep => stale_event hevent hid hstep
  · exact fun hstopped action w' haction hstep => h.quiet hstopped haction hstep
  · exact h.carrier
  · exact fun socket hsocket hviolated => absurd hviolated (hnever socket hsocket)
  · exact fun id socket action w' hat hviolated _ =>
      absurd hviolated (hnever socket (List.mem_of_getElem? hat))
  · exact fun id hid => h.recovery hid

theorem run_append {before after : List Action} (hrun : w.run (before ++ after) = some w') :
    ∃ between, w.run before = some between ∧ between.run after = some w' := by
  induction before generalizing w with
  | nil => exact ⟨w, rfl, hrun⟩
  | cons action before ih =>
    obtain ⟨first, hfirst, hrest⟩ := run_cons hrun
    obtain ⟨between, hbetween, hafter⟩ := ih hrest
    refine ⟨between, ?_, hafter⟩
    rw [run, hfirst]
    exact hbetween

/-- The promises hold in every state of a run exactly if no socket of it delivers a
message that is no frame. -/
theorem truthful_iff (hrun : init.run actions = some w) :
    (∀ before state, before <+: actions → init.run before = some state → Truthful state) ↔
      ∀ action ∈ actions, ¬action.Violates := by
  constructor
  · intro hall action haction hviolates
    obtain ⟨before, after, rfl⟩ := List.append_of_mem haction
    rw [List.append_cons] at hrun hall
    obtain ⟨state, hstate, -⟩ := run_append hrun
    have htruthful := hall _ state (List.prefix_append _ _) hstate
    obtain ⟨between, -, hlast⟩ := run_append hstate
    obtain ⟨after', hstep, hend⟩ := run_cons hlast
    cases hend
    cases action with
    | messageEvent id data result =>
      obtain ⟨socket, hsocket, hviolated, hopen⟩ := violation_open hviolates hstep
      have hclosed := htruthful.offender socket hsocket hviolated
      rw [hopen] at hclosed
      simp at hclosed
    | _ => exact hviolates
  · intro hframes before state hbefore hstate
    have hclean : ∀ action ∈ before, ¬action.Violates := fun action haction =>
      hframes action (hbefore.subset haction)
    have hunviolated : Unviolated state :=
      run_induction (fun w w' action haction h hstep => h.perform (hclean action haction) hstep)
        (show Unviolated init from fun socket hsocket => absurd hsocket List.not_mem_nil) hstate
    exact truthful_of_unviolated (sound_init.run hstate) hunviolated

theorem truthful_iff_frame :
    ∃ state, init.run [.attach, .connect none, .openEvent 0, .messageEvent 0 (.binary [7]) 0] =
        some state ∧
      ((∀ before state, before <+:
          [.attach, .connect none, .openEvent 0, .messageEvent 0 (.binary [7]) 0] →
          init.run before = some state → Truthful state) ↔
        ∀ action ∈ [Action.attach, .connect none, .openEvent 0, .messageEvent 0 (.binary [7]) 0],
          ¬action.Violates) :=
  ⟨_, rfl, truthful_iff rfl⟩

/-- The code 1003 is refused, so the socket stays open. -/
theorem not_truthful_text :
    ∃ state, init.run [.attach, .connect none, .openEvent 0, .messageEvent 0 .text 0] = some state ∧
      state.socket = some 0 ∧ ¬Truthful state := by
  refine ⟨_, rfl, rfl, fun h => ?_⟩
  have hoffender := h.offender _ (List.mem_singleton.mpr rfl) rfl
  rcases hoffender with hclosing | hclosed
  · cases hclosing
  · cases hclosed

end World

end Network
end Riscbox
