import Riscbox.Program.Steps
import Riscbox.Virtio.Devices

/-!
# What a device keeps

Rules for a relation between the device before a call and the device after it, whatever
the bus does meanwhile.
-/

namespace Riscbox
namespace Virtio

variable {δ α : Type} {P : δ → δ → Prop}

abbrev Keeps (P : δ → δ → Prop) (x : DeviceOp δ α) : Prop :=
  Op.Along (fun s t => P s.device t.device) x

section Rules

variable (hrefl : ∀ d, P d d) (htrans : ∀ d e f, P d e → P e f → P d f)

include hrefl in
theorem onBus_keeps (x : BusOp α) : Keeps P (onBus x) := by
  intro s
  unfold onBus
  rcases x s.bus with ⟨_ | _ | _, bus⟩ <;> exact hrefl s.device

theorem setDevice_keeps {f : δ → δ} (h : ∀ d, P d (f d)) : Keeps P (setDevice f) :=
  Op.along_modify fun s => h s.device

include hrefl htrans in
theorem drain_keeps {index : UInt16} {more : δ → Bool} {body : DescriptorChain → DeviceOp δ Bool}
    (hbody : ∀ chain, Keeps P (body chain)) (fuel : Nat) (s : Attached δ) :
    P s.device (drain index more body fuel s).2.device := by
  induction fuel generalizing s with
  | zero => exact hrefl s.device
  | succ fuel ih =>
      unfold drain
      by_cases hmore : more s.device = false
      · rw [if_pos hmore]
        exact hrefl s.device
      · rw [if_neg hmore]
        have htake := onBus_keeps hrefl (nextChain index) s
        rcases hnext : onBus (nextChain index) s with ⟨taken, t⟩
        rw [hnext] at htake
        rcases taken with (_ | chain) | e | _
        · exact htake
        · have hserve := hbody chain t
          simp only []
          rcases hcase : body chain t with ⟨(_ | _) | e | _, u⟩ <;> rw [hcase] at hserve
          · exact htrans _ _ _ htake hserve
          · exact htrans _ _ _ (htrans _ _ _ htake hserve) (ih u)
          · exact htrans _ _ _ htake hserve
          · exact htrans _ _ _ htake hserve
        · exact htake
        · exact htake

include hrefl htrans in
/-- A call goes on from its first turn. -/
theorem drain_from {index : UInt16} {more : δ → Bool} {body : DescriptorChain → DeviceOp δ Bool}
    (hbody : ∀ chain, Keeps P (body chain)) {s : Attached δ} {chain : DescriptorChain} {bus : Bus}
    (hmore : more s.device = true) (hnext : nextChain index s.bus = (.ok (some chain), bus))
    (fuel : Nat) :
    P (body chain { s with bus := bus }).2.device
      (drain index more body (fuel + 1) s).2.device := by
  have htake : onBus (nextChain index) s = (.ok (some chain), { s with bus := bus }) := by
    unfold onBus
    rw [hnext]
  rw [drain, if_neg (by rw [hmore]; decide), htake]
  dsimp only
  rcases body chain { s with bus := bus } with ⟨(_ | _) | e | _, t⟩
  · exact hrefl t.device
  · exact drain_keeps hrefl htrans hbody fuel t
  · exact hrefl t.device
  · exact hrefl t.device

end Rules

/-! ## The network device -/

namespace NetworkDevice

variable {ν : Type}

/-- The carrier is the host's: no call of the guest changes it. -/
def SameCarrier (d e : NetworkDevice ν) : Prop := e.carrierUp = d.carrierUp

theorem SameCarrier.refl (d : NetworkDevice ν) : SameCarrier d d := rfl

theorem SameCarrier.trans (d e f : NetworkDevice ν) (h : SameCarrier d e) (h' : SameCarrier e f) :
    SameCarrier d f := Eq.trans h' h

theorem onBus_sameCarrier (x : BusOp α) : Keeps (SameCarrier : NetworkDevice ν → NetworkDevice ν → Prop) (onBus x) :=
  onBus_keeps SameCarrier.refl x

theorem popPacket_sameCarrier : Keeps SameCarrier (popPacket : DeviceOp (NetworkDevice ν) _) := by
  intro s
  unfold popPacket
  cases s.device.receive <;> rfl

theorem pushPacket_sameCarrier (packet : List UInt8) (d : NetworkDevice ν) :
    SameCarrier d (pushPacket packet d).2 := by
  unfold pushPacket
  split <;> rfl

theorem serveReceive_sameCarrier (chain : DescriptorChain) :
    Keeps SameCarrier (serveReceive chain : DeviceOp (NetworkDevice ν) _) := by
  have hrefl := fun (s : Attached (NetworkDevice ν)) => SameCarrier.refl s.device
  have htrans := fun (s t u : Attached (NetworkDevice ν)) =>
    SameCarrier.trans s.device t.device u.device
  refine Op.Along.bind htrans popPacket_sameCarrier fun packet => ?_
  refine Op.along_ite (fun _ => ?_) fun _ => ?_
  · exact Op.Along.bind htrans (onBus_sameCarrier _) fun _ => Op.along_pure hrefl _
  · refine Op.Along.bind htrans (onBus_sameCarrier _) fun _ => ?_
    refine Op.Along.bind htrans (onBus_sameCarrier _) fun _ => ?_
    exact Op.Along.bind htrans (onBus_sameCarrier _) fun _ => Op.along_pure hrefl _

theorem drainReceive_sameCarrier (fuel : Nat) (s : Attached (NetworkDevice ν)) :
    SameCarrier s.device (drainReceive fuel s).2.device :=
  drain_keeps SameCarrier.refl SameCarrier.trans serveReceive_sameCarrier fuel s

theorem receivePacket_sameCarrier (fuel : Nat) (packet : List UInt8)
    (s : Attached (NetworkDevice ν)) :
    SameCarrier s.device (receivePacket fuel packet s).2.device := by
  have hpush := pushPacket_sameCarrier packet s.device
  unfold receivePacket
  rcases hcase : pushPacket packet s.device with ⟨_ | _, device⟩ <;> rw [hcase] at hpush
  · simp only []
    split
    · exact SameCarrier.trans _ _ _ hpush (drainReceive_sameCarrier fuel { s with device := device })
    · exact hpush
  · exact hpush

variable [NetworkBackend ν]

theorem transmit_sameCarrier (frame : List UInt8) :
    Keeps SameCarrier (transmit frame : DeviceOp (NetworkDevice ν) _) := by
  intro s
  unfold transmit
  rcases NetworkBackend.transmit frame s.device.backend with ⟨_ | _, backend⟩ <;> rfl

/-- A chain to send changes what sending its frame changes. -/
theorem serveTransmit_keeps {P : NetworkDevice ν → NetworkDevice ν → Prop} (hrefl : ∀ d, P d d)
    (htrans : ∀ d e f, P d e → P e f → P d f) (htransmit : ∀ frame, Keeps P (transmit frame))
    (queue : UInt16) (chain : DescriptorChain) : Keeps P (serveTransmit queue chain) := by
  have hstill := fun (s : Attached (NetworkDevice ν)) => hrefl s.device
  have hseq := fun (s t u : Attached (NetworkDevice ν)) => htrans s.device t.device u.device
  refine Op.along_ite (fun _ => ?_) fun _ => Op.along_fail hstill _
  refine Op.along_guard hstill hseq fun _ => ?_
  refine Op.Along.bind hseq (onBus_keeps hrefl _) fun data => ?_
  refine Op.along_guard hstill hseq fun _ => ?_
  refine Op.Along.bind hseq (htransmit _) fun _ => ?_
  exact Op.Along.bind hseq (onBus_keeps hrefl _) fun _ => Op.along_pure hstill _

theorem serveTransmit_sameCarrier (queue : UInt16) (chain : DescriptorChain) :
    Keeps SameCarrier (serveTransmit queue chain : DeviceOp (NetworkDevice ν) _) :=
  serveTransmit_keeps SameCarrier.refl SameCarrier.trans transmit_sameCarrier queue chain

theorem notify_sameCarrier (fuel : Nat) (queue : UInt16) (s : Attached (NetworkDevice ν)) :
    SameCarrier s.device (notify fuel queue s).2.device := by
  unfold notify
  split
  · exact drainReceive_sameCarrier fuel s
  · exact drain_keeps SameCarrier.refl SameCarrier.trans (serveTransmit_sameCarrier queue) fuel s

end NetworkDevice

end Virtio
end Riscbox
