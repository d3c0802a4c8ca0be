import Riscbox.Machine.Slots
import Riscbox.Virtio.Chains
import Riscbox.Virtio.Frames

/-!
# The header of a network frame

The device offers `VERSION_1`, under which a frame has a header of twelve bytes, and
handles one of ten.  What its driver sends and receives is therefore shifted by two.
-/

namespace Riscbox
namespace Virtio
namespace NetworkDevice

/-- The header of VirtIO 1.x without merged buffers: the offload fields, then the number of
buffers. -/
def modernHeader (buffers : Nat) : List UInt8 :=
  List.replicate 10 0 ++ LittleEndian.encode 2 buffers

theorem length_modernHeader (buffers : Nat) : (modernHeader buffers).length = 12 := by
  unfold modernHeader
  rw [List.length_append, List.length_replicate, LittleEndian.length_encode]

/-- The transport of `add_network_device`. -/
def offered : VirtioTransport := .create 1 0x10020 [16, 16]

/-- `VIRTIO_F_VERSION_1` is offered and `VIRTIO_NET_F_MRG_RXBUF` is not. -/
theorem offered_modern : offered.deviceFeatures &&& 0x100000000 ≠ 0 ∧
    offered.deviceFeatures &&& 0x8000 = 0 := by decide

abbrev Network : Type := NetworkDevice OutputNetwork

/-! ## Sending -/

/-- The next chain of the transmit queue holds the bytes to read. -/
structure Posted (s : Attached Network) (bytes : List UInt8) : Prop where
  separate : s.bus.memory.Separate
  next : ∃ chain bus, nextChain 1 s.bus = (.ok (some chain), bus) ∧
    (positions chain.readables).map s.bus.memory.byteAt = bytes.map some

/-- The next packet of the backend is the frame. -/
def Sends (frame : List UInt8) (s after : Attached Network) : Prop :=
  s.device.backend.packets ++ [frame] <+: after.device.backend.packets

/-- Sent packets stay. -/
def Appends (d e : Network) : Prop := d.backend.packets <+: e.backend.packets

theorem Appends.refl (d : Network) : Appends d d := List.prefix_refl _

theorem Appends.trans (d e f : Network) (h : Appends d e) (h' : Appends e f) : Appends d f :=
  List.IsPrefix.trans h h'

theorem transmit_appends (frame : List UInt8) :
    Keeps Appends (transmit frame : DeviceOp Network Unit) :=
  fun s => List.prefix_append s.device.backend.packets [frame]

theorem serveTransmit_appends (queue : UInt16) (chain : DescriptorChain) :
    Keeps Appends (serveTransmit queue chain : DeviceOp Network Bool) :=
  serveTransmit_keeps Appends.refl Appends.trans transmit_appends queue chain

/-- The device takes ten bytes of the header off. -/
theorem serveTransmit_sends {chain : DescriptorChain} {s : Attached Network}
    {frame : List UInt8} (hbuffer : Buffer chain s.bus)
    (hreadable : chain.readable = (positions chain.readables).length)
    (hbytes : (positions chain.readables).map s.bus.memory.byteAt =
      (modernHeader 0 ++ frame).map some) :
    Sends (0 :: 0 :: frame) s (serveTransmit 1 chain s).2 := by
  have hlength : (positions chain.readables).length = 12 + frame.length := by
    have hmap := congrArg List.length hbytes
    rw [List.length_map, List.length_map, List.length_append, length_modernHeader] at hmap
    exact hmap
  obtain ⟨data, hcopy, hdata⟩ := hbuffer.reads 0 chain.readable (by omega)
  have hwindow : window chain.readables 0 chain.readable = positions chain.readables := by
    unfold window
    rw [List.drop_zero, hreadable, List.take_length]
  have hdata : data = modernHeader 0 ++ frame := by
    rw [hwindow, hbytes] at hdata
    exact List.map_injective_iff.mpr (Option.some_injective _) hdata
  have hcopied : (onBus (copied chain 0 chain.readable) : DeviceOp Network _) s =
      (.ok data, s) := by
    unfold onBus copied
    rw [hcopy]
  have hlong : ¬chain.readable < 10 := by omega
  have hzero : ¬(data.take headerLen).any (· ≠ 0) = true := by
    rw [hdata]
    exact Bool.false_ne_true
  have hdrop : data.drop headerLen = 0 :: 0 :: frame := by
    rw [hdata]
    rfl
  obtain ⟨t, hsent, htransmit⟩ : ∃ t, Sends (0 :: 0 :: frame) s t ∧
      (transmit (0 :: 0 :: frame) : DeviceOp Network Unit) s = (.ok (), t) :=
    ⟨{ s with device := { s.device with
      backend := { packets := s.device.backend.packets ++ [0 :: 0 :: frame] } } },
      List.prefix_refl _, rfl⟩
  have htail : serveTransmit 1 chain s = (transmit (0 :: 0 :: frame) >>= fun _ =>
      onBus (completeChain 1 chain 0) >>= fun _ => pure true : DeviceOp Network Bool) s := by
    unfold serveTransmit
    rw [if_pos rfl, if_neg hlong]
    dsimp only
    rw [Op.bind_ok hcopied, if_neg hzero, hdrop]
  rw [htail, Op.bind_ok htransmit]
  -- what is left completes the chain
  have hrefl := fun (s : Attached Network) => Appends.refl s.device
  have htrans := fun (s t u : Attached Network) => Appends.trans s.device t.device u.device
  have hcomplete : Keeps Appends (onBus (completeChain 1 chain 0) >>= fun _ => pure true :
      DeviceOp Network Bool) :=
    Op.Along.bind htrans (onBus_keeps Appends.refl _) fun _ => Op.along_pure hrefl _
  exact List.IsPrefix.trans hsent (hcomplete t)

theorem notify_sends {s : Attached Network} {frame : List UInt8}
    (h : Posted s (modernHeader 0 ++ frame)) (fuel : Nat) :
    Sends (0 :: 0 :: frame) s (notify (fuel + 1) 1 s).2 := by
  obtain ⟨chain, bus, hnext, hbytes⟩ := h.next
  obtain ⟨⟨queue, -, hchain⟩, hbuffers⟩ := taken_buffer h.separate hnext
  obtain ⟨_, _, -, -, -, -, hbus⟩ := nextChain_taken hnext
  have hmemory : bus.memory = s.bus.memory := by rw [hbus]; rfl
  have hbuffer := (hbuffers bus (congrArg GuestMemory.layout hmemory)).1
  have hreadable : chain.readable = (positions chain.readables).length :=
    hchain.readable_eq.trans (total_eq _)
  rw [← hmemory] at hbytes
  have hserve : Sends (0 :: 0 :: frame) { s with bus := bus }
      (serveTransmit 1 chain { s with bus := bus }).2 :=
    serveTransmit_sends hbuffer hreadable hbytes
  have hrest := drain_from Appends.refl Appends.trans (serveTransmit_appends 1)
    (show always s.device = true from rfl) hnext fuel
  exact List.IsPrefix.trans hserve hrest

/-- The frame is not what the device sends. -/
theorem Sends.ne {frame : List UInt8} {s after : Attached Network}
    (h : Sends (0 :: 0 :: frame) s after) : ¬Sends frame s after := by
  intro hsends
  have hlength : (s.device.backend.packets ++ [0 :: 0 :: frame]).length ≤
      (s.device.backend.packets ++ [frame]).length := by
    rw [List.length_append, List.length_append]
    rfl
  have hsame := List.prefix_of_prefix_length_le h hsends hlength
  rw [List.prefix_append_right_inj] at hsame
  have hmem := List.mem_singleton.mp (hsame.subset List.mem_cons_self)
  have hlengths := congrArg List.length hmem
  rw [List.length_cons, List.length_cons] at hlengths
  omega

/-! ## Receiving -/

/-- The next chain of the receive queue has room for the next frame and its header. -/
structure Awaits (s : Attached Network) (frame : List UInt8) (chain : DescriptorChain) :
    Prop where
  front : ∃ rest, s.device.receive = frame :: rest
  next : ∃ bus, nextChain 0 s.bus = (.ok (some chain), bus)
  room : 12 + frame.length ≤ chain.writable

/-- The chain is returned with the header and the frame. -/
structure Receives (frame : List UInt8) (chain : DescriptorChain) (s after : Attached Network) :
    Prop where
  completed : ∃ events, after.bus.trace = s.bus.trace ++ events ∧
    .completed 0 chain (12 + frame.length) ∈ events
  bytes : (window chain.writables 0 (12 + frame.length)).map after.bus.memory.byteAt =
    (modernHeader 1 ++ frame).map some

/-- A chain is returned with one of the lengths only. -/
def Event.CompletesBy (lengths : List Nat) (_ : List VirtQueue) : Event → Prop
  | .completed _ _ written => written ∈ lengths
  | _ => True

theorem writeChain_completesBy (lengths : List Nat) (chain : DescriptorChain) (offset : Nat)
    (bytes : List UInt8) :
    Contained id (Event.CompletesBy lengths) (writeChain chain offset bytes) := by
  unfold writeChain
  refine contained_ite (fun _ => contained_fail _) fun _ => ?_
  refine contained_ite (fun _ => contained_fail _) fun _ => ?_
  exact scatter_contained _ _ _ fun _ _ _ _ _ _ _ _ => trivial

theorem completeChain_completesBy {lengths : List Nat} {written : Nat} (h : written ∈ lengths)
    (index : UInt16) (chain : DescriptorChain) :
    Contained id (Event.CompletesBy lengths) (completeChain index chain written) := by
  unfold completeChain
  refine (contained_reading _).bind fun queue => ?_
  exact publish_contained index queue chain written (fun _ _ _ _ => trivial) fun _ => h

/-- The lengths with which the device returns a chain for a frame. -/
def usedLengths (frame : List UInt8) : List Nat := [0, 10 + frame.length]

/-- One frame, however its turn ends. -/
theorem serveReceive_completesBy {s : Attached Network} {frame : List UInt8}
    {rest : List (List UInt8)} (hfront : s.device.receive = frame :: rest)
    (chain : DescriptorChain) :
    ∃ events, Effects (Event.CompletesBy (usedLengths frame)) s.bus
      (serveReceive chain s).2.bus events := by
  obtain ⟨t, hbus, hpop⟩ : ∃ t, t.bus = s.bus ∧ popPacket s = (.ok frame, t) := by
    unfold popPacket
    rw [hfront]
    exact ⟨{ s with device := { s.device with
      receive := rest, receiveBytes := s.device.receiveBytes - frame.length } }, rfl, rfl⟩
  have hzero : 0 ∈ usedLengths frame := List.mem_cons_self
  have htotal : headerLen + frame.length ∈ usedLengths frame :=
    List.mem_cons_of_mem 0 List.mem_cons_self
  unfold serveReceive
  rw [Op.bind_ok hpop, ← hbus]
  by_cases hroom : headerLen + frame.length > chain.writable
  · rw [if_pos hroom]
    have hcall : Contained Attached.bus (Event.CompletesBy (usedLengths frame))
        (onBus (completeChain 0 chain 0) >>= fun _ => pure true : DeviceOp Network Bool) :=
      (onBus_contained (completeChain_completesBy hzero 0 chain)).bind fun _ => contained_pure _
    exact hcall t
  · rw [if_neg hroom]
    have hcall : Contained Attached.bus (Event.CompletesBy (usedLengths frame))
        (onBus (writeChain chain 0 (List.replicate headerLen 0)) >>= fun _ =>
          onBus (writeChain chain 10 frame) >>= fun _ =>
          onBus (completeChain 0 chain (headerLen + frame.length)) >>= fun _ => pure true :
            DeviceOp Network Bool) := by
      refine (onBus_contained (writeChain_completesBy _ chain _ _)).bind fun _ => ?_
      refine (onBus_contained (writeChain_completesBy _ chain _ _)).bind fun _ => ?_
      exact (onBus_contained (completeChain_completesBy htotal 0 chain)).bind fun _ =>
        contained_pure _
    exact hcall t

theorem drainReceive_one {s : Attached Network} {chain : DescriptorChain} {bus : Bus}
    (hmore : s.device.receive ≠ []) (hnext : nextChain 0 s.bus = (.ok (some chain), bus)) :
    (drainReceive 1 s).2 = (serveReceive chain { s with bus := bus }).2 := by
  have htake : onBus (nextChain 0) s = (.ok (some chain), { s with bus := bus }) := by
    unfold onBus
    rw [hnext]
  have hwork : ¬(!s.device.receive.isEmpty) = false := by
    rw [Bool.not_eq_false', List.isEmpty_iff]
    exact hmore
  rw [drainReceive, drain, if_neg hwork, htake]
  dsimp only
  rcases serveReceive chain { s with bus := bus } with ⟨(_ | _) | e | _, t⟩ <;> rfl

theorem drainReceive_not_receives {s : Attached Network} {frame : List UInt8}
    {chain : DescriptorChain} (h : Awaits s frame chain) :
    ¬Receives frame chain s (drainReceive 1 s).2 := by
  intro hreceives
  obtain ⟨rest, hfront⟩ := h.front
  obtain ⟨bus, hnext⟩ := h.next
  obtain ⟨_, _, -, -, -, -, hbus⟩ := nextChain_taken hnext
  have hmore : s.device.receive ≠ [] := by
    rw [hfront]
    exact List.cons_ne_nil _ _
  have hfront' : ({ s with bus := bus } : Attached Network).device.receive = frame :: rest :=
    hfront
  obtain ⟨events, heffects⟩ := serveReceive_completesBy hfront' chain
  obtain ⟨events', htrace, hmem⟩ := hreceives.completed
  rw [drainReceive_one hmore hnext, heffects.trace_eq, hbus] at htrace
  have htrace : s.bus.trace ++ [.taken 0 chain] ++ events = s.bus.trace ++ events' := htrace
  rw [List.append_assoc, List.append_right_inj] at htrace
  rw [← htrace] at hmem
  rcases List.mem_cons.mp hmem with htaken | hmem
  · cases htaken
  · have hused : 12 + frame.length ∈ usedLengths frame := heffects.allowed _ hmem
    rcases List.mem_cons.mp hused with hlength | hused
    · omega
    · have hlength := List.mem_singleton.mp hused
      omega

/-! ## Both ways -/

/-- Under the features it offers, the device passes no frame: what it sends for a frame has
two bytes too many, and no frame that it receives comes in a chain of its length. -/
theorem frames_shifted (frame : List UInt8) :
    (∀ s fuel, Posted s (modernHeader 0 ++ frame) →
      Sends (0 :: 0 :: frame) s (notify (fuel + 1) 1 s).2 ∧
        ¬Sends frame s (notify (fuel + 1) 1 s).2) ∧
    ∀ s chain, Awaits s frame chain → ¬Receives frame chain s (drainReceive 1 s).2 := by
  constructor
  · intro s fuel h
    have hsends := notify_sends h fuel
    exact ⟨hsends, hsends.ne⟩
  · intro s chain h
    exact drainReceive_not_receives h

/-- A driver of VirtIO 1.x that has posted a frame, and a chain for the next one. -/
def modernDriver : Attached Network :=
  { device := { backend := { packets := [] }, carrierUp := true, receive := [[7, 8]]
                receiveBytes := 2 }
    bus :=
      { transport :=
          { offered with
            driverFeatures := 0x100000000
            status := 15
            queues :=
              [{ maxSize := 16, size := 1, ready := true, lastAvail := 0
                 desc := 0x80000000, avail := 0x80000020, used := 0x80000028 },
                { maxSize := 16, size := 1, ready := true, lastAvail := 0
                  desc := 0x80000040, avail := 0x80000060, used := 0x80000068 }] }
        memory :=
          [{ addr := 0x80000000, size := 160, isRam := true, isRom := false
             bytes := LittleEndian.encode 8 0x80000090 ++ [16, 0, 0, 0, 2, 0, 0, 0] ++
               List.replicate 16 0 ++ [0, 0, 1, 0, 0, 0, 0, 0] ++ List.replicate 24 0 ++
               LittleEndian.encode 8 0x80000080 ++ [14, 0, 0, 0, 0, 0, 0, 0] ++
               List.replicate 16 0 ++ [0, 0, 1, 0, 0, 0, 0, 0] ++ List.replicate 24 0 ++
               modernHeader 0 ++ [7, 8] ++ List.replicate 18 0
             length_eq := fun _ => rfl }]
        trace := [] } }

def receiveChain : DescriptorChain :=
  { head := 0, readable := 0, writable := 16, segments := [⟨0x80000090, 16, true⟩] }

theorem modernDriver_shifted : Posted modernDriver (modernHeader 0 ++ [7, 8]) ∧
    ¬Sends [7, 8] modernDriver (notify 2 1 modernDriver).2 ∧
    Awaits modernDriver [7, 8] receiveChain ∧
    ¬Receives [7, 8] receiveChain modernDriver (drainReceive 1 modernDriver).2 := by
  have hposted : Posted modernDriver (modernHeader 0 ++ [7, 8]) :=
    { separate := List.pairwise_singleton _ _
      next := ⟨{ head := 0, readable := 14, writable := 0, segments := [⟨0x80000080, 14, false⟩] },
        (nextChain 1 modernDriver.bus).2, rfl, rfl⟩ }
  have hawaits : Awaits modernDriver [7, 8] receiveChain :=
    { front := ⟨[], rfl⟩
      next := ⟨(nextChain 0 modernDriver.bus).2, rfl⟩
      room := by decide }
  exact ⟨hposted, (notify_sends hposted 1).ne, hawaits, drainReceive_not_receives hawaits⟩

end NetworkDevice
end Virtio
end Riscbox
