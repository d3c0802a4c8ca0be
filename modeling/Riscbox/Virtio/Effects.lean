import Riscbox.Virtio.Devices

/-!
# What serving a chain touches

Between two takings of a chain, a device changes guest memory by its recorded writes
only, and no queue register.
-/

namespace Riscbox
namespace Virtio

/-- A write elsewhere. -/
def Event.Spares (address len : Nat) : Event → Prop
  | .wrote start bytes => start + bytes.length ≤ address ∨ address + len ≤ start
  | _ => True

def Event.isTaken : Event → Bool
  | .taken _ _ => true
  | _ => false

def takenCount (events : List Event) : Nat := events.countP Event.isTaken

/-- A range of bytes in one of the buffers that a chain offers. -/
def DescriptorChain.Offers (chain : DescriptorChain) (start len : Nat) : Prop :=
  ∃ segment ∈ chain.segments, segment.writable = true ∧ segment.len ≠ 0 ∧
    segment.address ≤ start ∧ start + len ≤ segment.address + segment.len

/-- A range of bytes in the used ring, from its index on. -/
def VirtQueue.Records (queue : VirtQueue) (start len : Nat) : Prop :=
  queue.used.toNat + 2 ≤ start ∧ start + len ≤ queue.used.toNat + 4 + 8 * queue.size.toNat

/-- What may happen while a chain is served: no chain is taken, and the writes stay in the
buffers of the chain and in the used ring of its queue. -/
def Event.Granted (index : UInt16) (chain : DescriptorChain) (queues : List VirtQueue) :
    Event → Prop
  | .taken _ _ => False
  | .wrote start bytes =>
    chain.Offers start bytes.length ∨
      ∃ queue, queues[index.toNat]? = some queue ∧ queue.Records start bytes.length
  | .completed _ _ _ => True

/-- What happened between two states of a bus. -/
structure Effects (allowed : List VirtQueue → Event → Prop) (b b' : Bus) (events : List Event) :
    Prop where
  queues_eq : b'.transport.queues = b.transport.queues
  trace_eq : b'.trace = b.trace ++ events
  allowed : ∀ event ∈ events, allowed b.transport.queues event
  memory : ∀ address len, (∀ event ∈ events, event.Spares address len) →
    b'.memory.readBytes address len = b.memory.readBytes address len

variable {allowed : List VirtQueue → Event → Prop} {b b' b'' : Bus} {events events' : List Event}

theorem Effects.refl (b : Bus) : Effects allowed b b [] :=
  ⟨rfl, (List.append_nil _).symm, fun _ he => absurd he List.not_mem_nil, fun _ _ _ => rfl⟩

theorem Effects.trans (h : Effects allowed b b' events) (h' : Effects allowed b' b'' events') :
    Effects allowed b b'' (events ++ events') where
  queues_eq := h'.queues_eq.trans h.queues_eq
  trace_eq := by rw [h'.trace_eq, h.trace_eq, List.append_assoc]
  allowed := by
    intro event he
    rcases List.mem_append.mp he with he | he
    · exact h.allowed event he
    · have hallowed := h'.allowed event he
      rw [h.queues_eq] at hallowed
      exact hallowed
  memory := fun address len hspares =>
    (h'.memory address len fun e he => hspares e (List.mem_append_right _ he)).trans
      (h.memory address len fun e he => hspares e (List.mem_append_left _ he))

/-! ## Calls with such effects only -/

section Contained

variable {σ ε α β : Type} {view : σ → Bus}

/-- Whatever the call does to the bus is allowed. -/
def Contained (view : σ → Bus) (allowed : List VirtQueue → Event → Prop) (x : Op σ ε α) : Prop :=
  ∀ s, ∃ events, Effects allowed (view s) (view (x s).2) events

theorem contained_still {x : Op σ ε α} (h : ∀ s, view (x s).2 = view s) :
    Contained view allowed x :=
  fun s => ⟨[], by rw [h]; exact .refl _⟩

theorem contained_pure (a : α) : Contained view allowed (pure a : Op σ ε α) :=
  contained_still fun _ => rfl

theorem contained_fail (e : ε) : Contained view allowed (Op.fail e : Op σ ε α) :=
  contained_still fun _ => rfl

theorem contained_reading (r : σ → Outcome ε α) : Contained view allowed (Op.reading r) :=
  contained_still fun _ => rfl

theorem Contained.bind {x : Op σ ε α} {f : α → Op σ ε β} (hx : Contained view allowed x)
    (hf : ∀ a, Contained view allowed (f a)) : Contained view allowed (x >>= f) := by
  intro s
  obtain ⟨events, hevents⟩ := hx s
  rw [Op.bind_apply]
  rcases hcase : x s with ⟨ending, t⟩
  rw [hcase] at hevents
  cases ending with
  | ok a =>
      obtain ⟨events', hevents'⟩ := hf a t
      exact ⟨events ++ events', hevents.trans hevents'⟩
  | err e => exact ⟨events, hevents⟩
  | panic => exact ⟨events, hevents⟩

theorem contained_checked {r : Outcome ε α} {f : α → Op σ ε β}
    (hf : ∀ a, r = .ok a → Contained view allowed (f a)) :
    Contained view allowed (Op.lift r >>= f) := by
  cases r with
  | ok a => exact hf a rfl
  | err e => exact contained_fail e
  | panic => exact contained_still fun _ => rfl

theorem contained_ite {c : Prop} [Decidable c] {x y : Op σ ε α}
    (hx : c → Contained view allowed x) (hy : ¬c → Contained view allowed y) :
    Contained view allowed (if c then x else y) := by
  by_cases h : c
  · rw [if_pos h]
    exact hx h
  · rw [if_neg h]
    exact hy h

/-- A check in the middle of a call. -/
theorem contained_guard {c : Prop} [Decidable c] {e : ε} {f : Unit → Op σ ε β}
    (hf : ∀ u, Contained view allowed (f u)) :
    Contained view allowed (if c then Op.fail e >>= f else f ()) :=
  contained_ite (fun _ => (contained_fail e).bind hf) fun _ => hf ()

end Contained

/-! ## The bus -/

theorem store_contained {address : Nat} {bytes : List UInt8}
    (h : ∀ queues, allowed queues (.wrote address bytes)) :
    Contained id allowed (store address bytes) := by
  intro b
  unfold store
  cases hwrite : b.memory.writeBytes address bytes with
  | none => exact ⟨[], .refl b⟩
  | some memory =>
      refine ⟨[.wrote address bytes], rfl, rfl, fun event he => ?_, fun other len hspares => ?_⟩
      · rw [List.mem_singleton.mp he]
        exact h _
      · exact GuestMemory.readBytes_write_of_disjoint hwrite
          (hspares (.wrote address bytes) (List.mem_singleton.mpr rfl))

theorem addAddress_eq {base offset address : Nat} (h : addAddress base offset = .ok address) :
    address = base + offset := by
  have hsome := Outcome.okOr_eq_ok.mp h
  unfold checkedAdd at hsome
  by_cases hle : base + offset ≤ u64Max
  · rw [if_pos hle] at hsome
    exact (Option.some.inj hsome).symm
  · rw [if_neg hle] at hsome
    cases hsome

theorem scatter_contained (segments : List Segment) (skip : Nat) (bytes : List UInt8)
    (hsegments : ∀ segment ∈ segments, ∀ start written, segment.len ≠ 0 →
      segment.address ≤ start → start + written.length ≤ segment.address + segment.len →
      ∀ queues, allowed queues (.wrote start written)) :
    Contained id allowed (scatter segments skip bytes) := by
  induction segments generalizing skip bytes with
  | nil => exact contained_ite (fun _ => contained_pure _) fun _ => contained_fail _
  | cons segment rest ih =>
      have hrest := fun s hs => hsegments s (List.mem_cons_of_mem _ hs)
      unfold scatter
      refine contained_ite (fun _ => ih _ _ hrest) fun hskip =>
        contained_checked fun address haddress => ?_
      have hstart := addAddress_eq haddress
      refine (store_contained fun queues => ?_).bind fun _ => ?_
      · refine hsegments segment List.mem_cons_self address _ ?_ ?_ ?_ queues
        · omega
        · omega
        · rw [List.length_take]
          omega
      · exact contained_ite (fun _ => contained_pure _) fun _ => ih _ _ hrest

theorem validateQueue_size {queue : VirtQueue} (h : validateQueue queue = .ok ()) :
    queue.size ≠ 0 := by
  intro hzero
  unfold validateQueue at h
  rw [if_pos (.inl hzero)] at h
  cases h

/-- A slot of a ring, by the mask of its size. -/
theorem slot_lt {size : UInt16} (h : size ≠ 0) (index : UInt16) :
    (index &&& (size - 1)).toNat < size.toNat := by
  have hpos : 0 < size.toNat := by
    rcases Nat.eq_zero_or_pos size.toNat with hz | hz
    · exact absurd (UInt16.toNat_inj.mp hz) h
    · exact hz
  have hle : (1 : UInt16) ≤ size := hpos
  rw [UInt16.toNat_and, UInt16.toNat_sub_of_le _ _ hle]
  have hand := Nat.and_le_right (n := index.toNat) (m := size.toNat - (1 : UInt16).toNat)
  have hone : (1 : UInt16).toNat = 1 := rfl
  omega

/-- Only used elements, and the index before them, are written. -/
theorem publish_contained (index : UInt16) (queue : VirtQueue) (chain : DescriptorChain)
    (written : Nat)
    (hrecords : ∀ start bytes, queue.Records start bytes.length →
      ∀ queues, allowed queues (.wrote start bytes))
    (hcompleted : ∀ queues, allowed queues (.completed index chain written)) :
    Contained id allowed (publish index queue chain written) := by
  unfold publish
  refine contained_checked fun _ hvalid => contained_guard fun _ => ?_
  refine contained_checked fun indexAddress hindex => ?_
  refine (contained_reading _).bind fun usedIndex => ?_
  refine contained_checked fun element helement => ?_
  have hslot := slot_lt (validateQueue_size hvalid) usedIndex
  have hindex' := addAddress_eq hindex
  have helement' := addAddress_eq helement
  refine (store_contained fun queues => hrecords _ _ ⟨?_, ?_⟩ queues).bind fun _ => ?_
  · omega
  · rw [LittleEndian.length_encode]
    omega
  refine contained_checked fun length hlength => ?_
  have hlength' := addAddress_eq hlength
  refine (store_contained fun queues => hrecords _ _ ⟨?_, ?_⟩ queues).bind fun _ => ?_
  · omega
  · rw [LittleEndian.length_encode]
    omega
  refine (store_contained fun queues => hrecords _ _ ⟨?_, ?_⟩ queues).bind fun _ => ?_
  · omega
  · rw [LittleEndian.length_encode]
    omega
  intro b
  refine ⟨[.completed index chain written], rfl, rfl, fun event he => ?_, fun _ _ _ => rfl⟩
  rw [List.mem_singleton.mp he]
  exact hcompleted _

section Attached

variable {δ α : Type}

variable {index : UInt16} {chain : DescriptorChain}

/-- A device call that serves a chain of a queue. -/
abbrev Quiet (index : UInt16) (chain : DescriptorChain) (x : DeviceOp δ α) : Prop :=
  Contained Attached.bus (Event.Granted index chain) x

theorem onBus_contained {x : BusOp α} (h : Contained id allowed x) :
    Contained Attached.bus allowed (onBus x : DeviceOp δ α) := by
  intro s
  obtain ⟨events, hevents⟩ := h s.bus
  refine ⟨events, ?_⟩
  unfold onBus
  rcases hcase : x s.bus with ⟨ending, bus⟩
  rw [hcase] at hevents
  cases ending <;> exact hevents

end Attached

/-! ## The devices -/

variable {index : UInt16} {chain : DescriptorChain}

namespace EntropyDevice

variable {ε : Type} [EntropySource ε]

end EntropyDevice

namespace BlockDevice

variable {β : Type} [BlockBackend β]

end BlockDevice

namespace ConsoleDevice

end ConsoleDevice

namespace NetworkDevice

variable {ν : Type} [NetworkBackend ν]

end NetworkDevice

namespace NinePDevice

variable {π : Type} [NinePEndpoint π]

end NinePDevice

namespace InputDevice

end InputDevice

end Virtio
end Riscbox
