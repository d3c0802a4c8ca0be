import Riscbox.Runtime.Input
import Riscbox.Virtio.Ingress

/-!
# Packets for the guest

The packets among the events of the browser queue, and the two queues that a packet
passes.
-/

namespace Riscbox
namespace Runtime

open Virtio (NetworkBackend NetworkDevice NetworkDevice.maxFrameSize
  NetworkDevice.maxPendingFrames NetworkDevice.maxPendingBytes NetworkDevice.totalBytes)

namespace BrowserEvent

def packet? : BrowserEvent → Option (List UInt8)
  | networkPacket packet => some packet
  | _ => none

end BrowserEvent

namespace BrowserInputQueue

/-- What became of a packet: the runtime has taken it, or guest work was retired. -/
inductive Fate where
  | taken
  | retired
  deriving DecidableEq, Repr

abbrev Receipt : Type := List UInt8 × Fate

def packets (queue : BrowserInputQueue) : List (List UInt8) :=
  queue.events.filterMap BrowserEvent.packet?

inductive InputCall where
  | console (data : List UInt8)
  | readConsole (limit : Nat)
  | setSize (columns rows : UInt16)
  | takeResize
  | key (pressed : Bool) (code : UInt16)
  | pointer (x y buttons : UInt32)
  | wheel (delta : UInt32)
  | packet (bytes : List UInt8)
  | carrier (up : Bool)
  | next
  | retire
  deriving DecidableEq, Repr

namespace InputCall

def run (queue : BrowserInputQueue) : InputCall → BrowserInputQueue
  | console data => (queue.queueConsole data).2
  | readConsole limit => (queue.readConsole limit).2
  | setSize columns rows => queue.setSize columns rows
  | takeResize => queue.takeResize.2
  | key pressed code => queue.keyEvent pressed code
  | pointer x y buttons => queue.pointerEvent x y buttons
  | wheel delta => queue.wheelEvent delta
  | packet bytes => (queue.networkPacket bytes).2
  | carrier up => queue.setCarrier up
  | next => queue.nextEvent.2
  | retire => queue.retireGuestWork

/-- The packet that the call accepts. -/
def accepts (queue : BrowserInputQueue) : InputCall → List (List UInt8)
  | packet bytes => if (queue.networkPacket bytes).1 = .accepted then [bytes] else []
  | _ => []

/-- The packets that the call removes. -/
def settles (queue : BrowserInputQueue) : InputCall → List Receipt
  | next => (queue.nextEvent.1.bind BrowserEvent.packet?).toList.map fun packet => (packet, .taken)
  | retire => queue.packets.map fun packet => (packet, .retired)
  | _ => []

end InputCall

/-- The packets that a run of the queue has accepted, with what became of them. -/
inductive Ingress : BrowserInputQueue → List (List UInt8) → List Receipt → Prop
  | start : Ingress default [] []
  | call {queue : BrowserInputQueue} {accepted : List (List UInt8)} {settled : List Receipt}
      (call : InputCall) : Ingress queue accepted settled →
      Ingress (call.run queue) (accepted ++ call.accepts queue) (settled ++ call.settles queue)

/-- The counts are those of the packets that wait, and every accepted packet waits or has
a receipt. -/
structure Kept (queue : BrowserInputQueue) (accepted : List (List UInt8))
    (settled : List Receipt) : Prop where
  frames_eq : queue.networkFrames = queue.packets.length
  bytes_eq : queue.networkBytes = NetworkDevice.totalBytes queue.packets
  frames_le : queue.networkFrames ≤ NetworkDevice.maxPendingFrames
  bytes_le : queue.networkBytes ≤ NetworkDevice.maxPendingBytes
  conserved : Ledger.Conserves accepted settled queue.packets

variable {queue queue' : BrowserInputQueue} {accepted : List (List UInt8)} {settled : List Receipt}

/-- The packets and their counts are as they were. -/
def SamePackets (queue queue' : BrowserInputQueue) : Prop :=
  queue'.packets = queue.packets ∧ queue'.networkFrames = queue.networkFrames ∧
    queue'.networkBytes = queue.networkBytes

theorem Kept.same (h : Kept queue accepted settled) (hsame : SamePackets queue queue') :
    Kept queue' accepted settled := by
  obtain ⟨hpackets, hframes, hbytes⟩ := hsame
  refine ⟨?_, ?_, ?_, ?_, ?_⟩
  · rw [hpackets, hframes]
    exact h.frames_eq
  · rw [hpackets, hbytes]
    exact h.bytes_eq
  · rw [hframes]
    exact h.frames_le
  · rw [hbytes]
    exact h.bytes_le
  · rw [hpackets]
    exact h.conserved

theorem push_samePackets {event : BrowserEvent} (h : event.packet? = none)
    (queue : BrowserInputQueue) : SamePackets queue (queue.push event) := by
  refine ⟨?_, rfl, rfl⟩
  show (queue.events ++ [event]).filterMap BrowserEvent.packet? = _
  rw [List.filterMap_append, List.filterMap_cons_none h]
  exact List.append_nil _

theorem packets_cons {queue : BrowserInputQueue} {event : BrowserEvent}
    {rest : List BrowserEvent} (h : queue.events = event :: rest) :
    queue.packets = event.packet?.toList ++ rest.filterMap BrowserEvent.packet? := by
  unfold packets
  rw [h, List.filterMap_cons]
  cases event.packet? <;> rfl

/-- The front event, and its packet off the counts. -/
theorem nextEvent_cons {event : BrowserEvent} {rest : List BrowserEvent}
    (h : queue.events = event :: rest) :
    queue.nextEvent.1 = some event ∧ queue.nextEvent.2.events = rest ∧
      queue.nextEvent.2.networkFrames = queue.networkFrames - event.packet?.toList.length ∧
      queue.nextEvent.2.networkBytes =
        queue.networkBytes - NetworkDevice.totalBytes event.packet?.toList := by
  unfold nextEvent
  rw [h]
  cases event <;> exact ⟨rfl, rfl, rfl, rfl⟩

theorem nextEvent_nil (h : queue.events = []) : queue.nextEvent = (none, queue) := by
  unfold nextEvent
  rw [h]

/-- The packets that wait are those that the next event leaves, after its own. -/
theorem nextEvent_packets (queue : BrowserInputQueue) :
    queue.packets = (queue.nextEvent.1.bind BrowserEvent.packet?).toList ++
        queue.nextEvent.2.packets ∧
      queue.nextEvent.2.networkFrames = queue.networkFrames -
        (queue.nextEvent.1.bind BrowserEvent.packet?).toList.length ∧
      queue.nextEvent.2.networkBytes = queue.networkBytes -
        NetworkDevice.totalBytes (queue.nextEvent.1.bind BrowserEvent.packet?).toList := by
  cases hevents : queue.events with
  | nil =>
    rw [nextEvent_nil hevents]
    exact ⟨rfl, rfl, rfl⟩
  | cons event rest =>
    obtain ⟨hevent, hrest, hframes, hbytes⟩ := nextEvent_cons hevents
    rw [hevent]
    refine ⟨?_, hframes, hbytes⟩
    rw [packets_cons hevents]
    unfold packets
    rw [hrest]
    rfl

theorem Kept.next (h : Kept queue accepted settled) :
    Kept queue.nextEvent.2 accepted (settled ++ InputCall.next.settles queue) := by
  obtain ⟨hpackets, hframes, hbytes⟩ := nextEvent_packets queue
  have hframes_eq := h.frames_eq
  have hbytes_eq := h.bytes_eq
  have hframes_le := h.frames_le
  have hbytes_le := h.bytes_le
  rw [hpackets, List.length_append] at hframes_eq
  rw [hpackets, NetworkDevice.totalBytes_append] at hbytes_eq
  refine ⟨by omega, by omega, by omega, by omega, h.conserved.settle ?_⟩
  show _ = (((queue.nextEvent.1.bind BrowserEvent.packet?).toList.map
    fun packet => (packet, Fate.taken)).map Prod.fst) ++ _
  rw [List.map_map, hpackets]
  exact congrArg (· ++ _) (List.map_id _).symm

theorem Kept.retire (h : Kept queue accepted settled) :
    Kept queue.retireGuestWork accepted (settled ++ InputCall.retire.settles queue) := by
  refine ⟨rfl, rfl, Nat.zero_le _, Nat.zero_le _, h.conserved.settle ?_⟩
  show queue.packets = ((queue.packets.map fun packet => (packet, Fate.retired)).map Prod.fst) ++ []
  rw [List.map_map, List.append_nil]
  exact (List.map_id queue.packets).symm

theorem Kept.packet (h : Kept queue accepted settled) (bytes : List UInt8) :
    Kept (queue.networkPacket bytes).2 (accepted ++ (InputCall.packet bytes).accepts queue)
      settled := by
  show Kept _ (accepted ++ if (queue.networkPacket bytes).1 = .accepted then [bytes] else []) _
  unfold networkPacket
  by_cases hfull : bytes.isEmpty ∨ bytes.length > NetworkDevice.maxFrameSize ∨
      queue.networkFrames ≥ NetworkDevice.maxPendingFrames ∨
      ¬queue.networkBytes + bytes.length ≤ NetworkDevice.maxPendingBytes
  · rw [if_pos hfull]
    show Kept queue (accepted ++ []) settled
    rw [List.append_nil]
    exact h
  · rw [if_neg hfull, if_pos rfl]
    have hframes_eq := h.frames_eq
    have hbytes_eq := h.bytes_eq
    have hpackets : (queue.push (.networkPacket bytes)).packets = queue.packets ++ [bytes] := by
      show (queue.events ++ [BrowserEvent.networkPacket bytes]).filterMap _ = _
      rw [List.filterMap_append]
      rfl
    refine ⟨?_, ?_, ?_, ?_, ?_⟩
    · show queue.networkFrames + 1 = (queue.push (.networkPacket bytes)).packets.length
      rw [hpackets, List.length_append, hframes_eq]
      rfl
    · show queue.networkBytes + bytes.length =
        NetworkDevice.totalBytes (queue.push (.networkPacket bytes)).packets
      rw [hpackets, NetworkDevice.totalBytes_append, NetworkDevice.totalBytes_cons, hbytes_eq]
      rfl
    · show queue.networkFrames + 1 ≤ _
      omega
    · show queue.networkBytes + bytes.length ≤ _
      omega
    · show Ledger.Conserves _ _ (queue.push (.networkPacket bytes)).packets
      rw [hpackets]
      exact h.conserved.accept [bytes]

theorem Kept.call (h : Kept queue accepted settled) (call : InputCall) :
    Kept (call.run queue) (accepted ++ call.accepts queue) (settled ++ call.settles queue) := by
  have hsame (hrun : SamePackets queue (call.run queue)) (haccepts : call.accepts queue = [])
      (hsettles : call.settles queue = []) :
      Kept (call.run queue) (accepted ++ call.accepts queue) (settled ++ call.settles queue) := by
    rw [haccepts, hsettles, List.append_nil, List.append_nil]
    exact h.same hrun
  cases call with
  | console data => exact hsame ⟨rfl, rfl, rfl⟩ rfl rfl
  | readConsole limit => exact hsame ⟨rfl, rfl, rfl⟩ rfl rfl
  | setSize columns rows => exact hsame ⟨rfl, rfl, rfl⟩ rfl rfl
  | takeResize => exact hsame ⟨rfl, rfl, rfl⟩ rfl rfl
  | key pressed code => exact hsame (push_samePackets rfl _) rfl rfl
  | pointer x y buttons => exact hsame (push_samePackets rfl _) rfl rfl
  | wheel delta => exact hsame (push_samePackets rfl _) rfl rfl
  | carrier up => exact hsame (push_samePackets rfl _) rfl rfl
  | packet bytes =>
    show Kept _ _ (settled ++ [])
    rw [List.append_nil]
    exact h.packet bytes
  | next =>
    show Kept _ (accepted ++ []) _
    rw [List.append_nil]
    exact h.next
  | retire =>
    show Kept _ (accepted ++ []) _
    rw [List.append_nil]
    exact h.retire

theorem Ingress.kept (h : Ingress queue accepted settled) : Kept queue accepted settled := by
  induction h with
  | start => exact ⟨rfl, rfl, Nat.zero_le _, Nat.zero_le _, Ledger.Conserves.nil⟩
  | call call _ ih => exact ih.call call

/-- The counts are those of the packets that wait, no call takes more off them than they
hold, a packet is refused only for its size or theirs, and the packets taken are accepted
ones in order. -/
structure Exact (queue : BrowserInputQueue) (accepted : List (List UInt8))
    (settled : List Receipt) : Prop where
  frames_eq : queue.networkFrames = queue.packets.length
  bytes_eq : queue.networkBytes = NetworkDevice.totalBytes queue.packets
  frames_le : queue.networkFrames ≤ NetworkDevice.maxPendingFrames
  bytes_le : queue.networkBytes ≤ NetworkDevice.maxPendingBytes
  front : ∀ packet rest, queue.events = .networkPacket packet :: rest →
    1 ≤ queue.networkFrames ∧ packet.length ≤ queue.networkBytes
  refused : ∀ packet, (queue.networkPacket packet).1 = .dropped ↔
    packet = [] ∨ NetworkDevice.maxFrameSize < packet.length ∨
      NetworkDevice.maxPendingFrames < queue.networkFrames + 1 ∨
      NetworkDevice.maxPendingBytes < queue.networkBytes + packet.length
  conserved : Ledger.Conserves accepted settled queue.packets
  taken : (Ledger.fated (· == .taken) settled).Sublist accepted

theorem networkPacket_refused (queue : BrowserInputQueue) (packet : List UInt8) :
    (queue.networkPacket packet).1 = .dropped ↔
      packet = [] ∨ NetworkDevice.maxFrameSize < packet.length ∨
        NetworkDevice.maxPendingFrames < queue.networkFrames + 1 ∨
        NetworkDevice.maxPendingBytes < queue.networkBytes + packet.length := by
  rw [← List.isEmpty_iff, Nat.lt_succ_iff, ← Nat.not_le (a := queue.networkBytes + packet.length)]
  unfold networkPacket
  by_cases hfull : packet.isEmpty ∨ packet.length > NetworkDevice.maxFrameSize ∨
      queue.networkFrames ≥ NetworkDevice.maxPendingFrames ∨
      ¬queue.networkBytes + packet.length ≤ NetworkDevice.maxPendingBytes
  · rw [if_pos hfull]
    exact iff_of_true rfl hfull
  · rw [if_neg hfull]
    exact iff_of_false (fun h => by cases h) hfull

theorem Ingress.exact (h : Ingress queue accepted settled) : Exact queue accepted settled := by
  have hkept := h.kept
  have hframes := hkept.frames_eq
  have hbytes := hkept.bytes_eq
  refine ⟨hframes, hbytes, hkept.frames_le, hkept.bytes_le, fun packet rest hevents => ?_,
    networkPacket_refused queue, hkept.conserved, hkept.conserved.fated_sublist _⟩
  have hpackets : queue.packets = packet :: rest.filterMap BrowserEvent.packet? :=
    packets_cons hevents
  rw [hpackets, List.length_cons] at hframes
  rw [hpackets, NetworkDevice.totalBytes_cons] at hbytes
  omega

end BrowserInputQueue

/-- Both queues of packets are exact in every run, and lossless for what they accept. -/
theorem packets_conserved {ν : Type} [NetworkBackend ν] :
    (∀ queue accepted settled, BrowserInputQueue.Ingress queue accepted settled →
      BrowserInputQueue.Exact queue accepted settled) ∧
    ∀ (device : NetworkDevice ν) accepted settled,
      NetworkDevice.Ingress device accepted settled →
      NetworkDevice.Exact device accepted settled := by
  constructor
  · intro queue accepted settled h
    exact h.exact
  · intro device accepted settled h
    exact h.exact

end Runtime
end Riscbox
