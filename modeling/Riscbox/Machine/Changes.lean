import Riscbox.Machine.Machine
import Riscbox.Virtio.Frames

/-!
# What calls do to a machine

Every call on a machine is a sequence of changes of single slots, of memory, of the
finisher and of the clocks.  A relation that allows these allows every call.
-/

namespace Riscbox
namespace Virtio

open Storage (BlockStore)

variable {ε π α : Type}

/-- A slot keeps its kind of device; carriers change as `C` allows and disks as `Q` does. -/
inductive SlotChange (C : Bool → Bool → Prop)
    (Q : BlockDevice BlockStore → BlockDevice BlockStore → Prop) :
    VirtioSlot ε π → VirtioSlot ε π → Prop
  | storageBlock {a b : VirtioMmioDevice (BlockDevice BlockStore)} (h : Q a.device b.device) :
      SlotChange C Q (.storageBlock a) (.storageBlock b)
  | console (a b : VirtioMmioDevice ConsoleDevice) : SlotChange C Q (.console a) (.console b)
  | network {a b : VirtioMmioDevice (NetworkDevice OutputNetwork)}
      (h : C a.device.carrierUp b.device.carrierUp) : SlotChange C Q (.network a) (.network b)
  | nineP (a b : VirtioMmioDevice (NinePDevice π)) : SlotChange C Q (.nineP a) (.nineP b)
  | input (a b : VirtioMmioDevice InputDevice) : SlotChange C Q (.input a) (.input b)
  | entropy (a b : VirtioMmioDevice (EntropyDevice ε)) : SlotChange C Q (.entropy a) (.entropy b)

/-- The disk changes that a guest can cause by register writes. -/
structure DiskRules (Q : BlockDevice BlockStore → BlockDevice BlockStore → Prop) : Prop where
  refl : ∀ d, Q d d
  notify : ∀ fuel queue (s : Attached (BlockDevice BlockStore)),
    Q s.device (BlockDevice.notify fuel queue s).2.device
  reset : ∀ d, Q d d.reset

/-- What a register write may do to a device. -/
theorem VirtioMmioDevice.write_keeps {δ : Type} [VirtioDevice δ] {P : δ → δ → Prop}
    (hrefl : ∀ d, P d d)
    (hconfig : ∀ offset value width d, P d (VirtioDevice.writeConfig offset value width d))
    (hreset : ∀ d, P d (VirtioDevice.reset d))
    (hnotify : ∀ fuel queue (s : Attached δ), P s.device (VirtioDevice.notify fuel queue s).2.device)
    (fuel offset : Nat) (value : UInt32) (width : AccessWidth) (s : Attached δ) :
    P s.device (write fuel offset value width s).2.device := by
  unfold write
  by_cases hspace : offset ≥ configBase
  · rw [if_pos hspace]
    exact hconfig _ _ _ _
  · rw [if_neg hspace]
    by_cases hcall : offset = 0x050 ∧ width = .word
    · rw [if_pos hcall]
      by_cases hbig : value.toNat ≥ 2 ^ 16
      · rw [if_pos hbig]
        exact hrefl _
      · rw [if_neg hbig]
        split
        · exact hrefl _
        · split
          · exact hrefl _
          · exact hnotify _ _ _
    · rw [if_neg hcall]
      show P s.device (if _ then _ else _)
      split
      · exact hreset _
      · exact hrefl _

theorem write_change [EntropySource ε] [NinePEndpoint π] {C : Bool → Bool → Prop}
    {Q : BlockDevice BlockStore → BlockDevice BlockStore → Prop} (hC : ∀ up, C up up)
    (hQ : DiskRules Q) (fuel offset : Nat) (value : UInt32) (width : AccessWidth)
    (memory : GuestMemory) (d : VirtioSlot ε π) :
    SlotChange C Q d (d.write fuel offset value width memory).2.1 := by
  cases d with
  | storageBlock mmio =>
      refine .storageBlock ?_
      exact VirtioMmioDevice.write_keeps (P := Q) hQ.refl (fun _ _ _ => hQ.refl) hQ.reset
        hQ.notify fuel offset value width (mmio.attach memory)
  | console mmio => exact .console _ _
  | network mmio =>
      refine .network ?_
      have hsame := VirtioMmioDevice.write_keeps (P := NetworkDevice.SameCarrier)
        NetworkDevice.SameCarrier.refl (fun _ _ _ => NetworkDevice.SameCarrier.refl)
        (fun d => NetworkDevice.SameCarrier.refl d) NetworkDevice.notify_sameCarrier fuel offset value width
        (mmio.attach memory)
      have hsame : (VirtioMmioDevice.write fuel offset value width
        (mmio.attach memory)).2.device.carrierUp = mmio.device.carrierUp := hsame
      show C mmio.device.carrierUp (VirtioMmioDevice.write fuel offset value width
        (mmio.attach memory)).2.device.carrierUp
      rw [hsame]
      exact hC _
  | nineP mmio => exact .nineP _ _
  | input mmio => exact .input _ _
  | entropy mmio => exact .entropy _ _

/-! ## Slots side by side -/

/-- The same slots, each related to what it was. -/
structure Machine.Alike (R : VirtioSlot ε π → VirtioSlot ε π → Prop) (m m' : Machine ε π) :
    Prop where
  length_eq : m'.virtio.length = m.virtio.length
  slots : ∀ (i : Nat) (d : VirtioSlot ε π), m.virtio[i]? = some d →
    ∃ d', m'.virtio[i]? = some d' ∧ R d d'

theorem SlotChange.refl {C : Bool → Bool → Prop}
    {Q : BlockDevice BlockStore → BlockDevice BlockStore → Prop} (hC : ∀ up, C up up)
    (hQ : ∀ d, Q d d) (d : VirtioSlot ε π) : SlotChange C Q d d := by
  cases d with
  | storageBlock mmio => exact .storageBlock (hQ _)
  | console mmio => exact .console _ _
  | network mmio => exact .network (hC _)
  | nineP mmio => exact .nineP _ _
  | input mmio => exact .input _ _
  | entropy mmio => exact .entropy _ _

theorem SlotChange.mono {C C' : Bool → Bool → Prop}
    {Q Q' : BlockDevice BlockStore → BlockDevice BlockStore → Prop}
    (hC : ∀ a b, C a b → C' a b) (hQ : ∀ a b, Q a b → Q' a b) {d d' : VirtioSlot ε π}
    (h : SlotChange C Q d d') : SlotChange C' Q' d d' := by
  cases h with
  | storageBlock h => exact .storageBlock (hQ _ _ h)
  | console a b => exact .console a b
  | network h => exact .network (hC _ _ h)
  | nineP a b => exact .nineP a b
  | input a b => exact .input a b
  | entropy a b => exact .entropy a b

namespace Machine

variable {R : VirtioSlot ε π → VirtioSlot ε π → Prop}

theorem alike_of_same (hR : ∀ d, R d d) {m m' : Machine ε π} (h : m'.virtio = m.virtio) :
    m.Alike R m' := by
  refine ⟨by rw [h], fun i d hd => ⟨d, ?_, hR d⟩⟩
  rw [h]
  exact hd

theorem alike_put (hR : ∀ d, R d d) {m : Machine ε π} {slot : Nat} {d d' : VirtioSlot ε π}
    (memory : GuestMemory) (hd : m.virtio[slot]? = some d) (h : R d d') :
    m.Alike R (m.put slot d' memory) := by
  refine ⟨List.length_set, fun i e he => ?_⟩
  show ∃ e', (m.virtio.set slot d')[i]? = some e' ∧ R e e'
  rw [List.getElem?_set]
  by_cases hslot : slot = i
  · subst hslot
    have hlt : slot < m.virtio.length := (List.getElem?_eq_some_iff.mp he).1
    rw [if_pos rfl, if_pos hlt]
    rw [hd] at he
    rw [← Option.some.inj he]
    exact ⟨d', rfl, h⟩
  · rw [if_neg hslot]
    exact ⟨e, he, hR e⟩

theorem Alike.trans (htrans : ∀ d e f, R d e → R e f → R d f) {m n o : Machine ε π}
    (h : m.Alike R n) (h' : n.Alike R o) : m.Alike R o := by
  refine ⟨h'.length_eq.trans h.length_eq, fun i d hd => ?_⟩
  obtain ⟨e, he, hde⟩ := h.slots i d hd
  obtain ⟨f, hf, hef⟩ := h'.slots i e he
  exact ⟨f, hf, htrans d e f hde hef⟩

theorem noteAttempt_virtio (slot : Nat) (m : Machine ε π) :
    (m.noteAttempt slot).virtio = m.virtio := by
  unfold noteAttempt
  split <;> rfl

end Machine

/-! ## Steps of a machine -/

/-- What calls on a machine are made of, its disks apart: register writes of a running
guest, and calls of the host that set a carrier only as `K` allows. -/
inductive MachineStep [EntropySource ε] [NinePEndpoint π] (K : Bool → Prop) (guest : Prop) :
    Machine ε π → Machine ε π → Prop
  | write (hguest : guest) (fuel slot offset : Nat) (value : UInt32) (width : AccessWidth)
      (d : VirtioSlot ε π) (m : Machine ε π) (hd : m.virtio[slot]? = some d) :
      MachineStep K guest m (Machine.writeSlot fuel slot offset value width d m).2
  | host (slot : Nat) (d d' : VirtioSlot ε π) (memory : GuestMemory) (m : Machine ε π)
      (hd : m.virtio[slot]? = some d)
      (hchange : SlotChange (fun a b => b = a ∨ K b) (fun _ _ => False) d d') :
      MachineStep K guest m (m.put slot d' memory)
  | memory (memory : GuestMemory) (m : Machine ε π) :
      MachineStep K guest m { m with memory := memory }
  | finisher (status : FinishStatus) (m : Machine ε π) :
      MachineStep K guest m { m with finisher := status }
  | clocks (ticks ns : Nat) (m : Machine ε π) :
      MachineStep K guest m (m.presentGuestClocks ticks ns)

theorem Machine.writeSlot_virtio [EntropySource ε] [NinePEndpoint π] (fuel slot offset : Nat)
    (value : UInt32) (width : AccessWidth) (d : VirtioSlot ε π) (m : Machine ε π) :
    (Machine.writeSlot fuel slot offset value width d m).2.virtio =
      m.virtio.set slot (d.write fuel offset value width m.memory).2.1 := by
  have hconclude : (conclude slot (d.write fuel offset value width m.memory) m).2.virtio =
      m.virtio.set slot (d.write fuel offset value width m.memory).2.1 := by
    unfold conclude
    rcases d.write fuel offset value width m.memory with ⟨_ | _ | _ | _, device, memory⟩ <;> rfl
  unfold writeSlot
  dsimp only
  split
  · rw [noteAttempt_virtio, hconclude]
  · exact hconclude

/-- What a step does to the slots. -/
theorem MachineStep.alike [EntropySource ε] [NinePEndpoint π] {K : Bool → Prop} {guest : Prop}
    {Q : BlockDevice BlockStore → BlockDevice BlockStore → Prop} (hQ : DiskRules Q)
    {m m' : Machine ε π} (h : MachineStep K guest m m') :
    m.Alike (SlotChange (fun a b => b = a ∨ K b) Q) m' := by
  have hrefl := fun d : VirtioSlot ε π =>
    SlotChange.refl (C := fun a b => b = a ∨ K b) (fun _ => .inl rfl) hQ.refl d
  cases h with
  | write _ fuel slot offset value width d _ hd =>
      have hput := Machine.alike_put hrefl m.memory hd
        (write_change (C := fun a b => b = a ∨ K b) (fun _ => .inl rfl) hQ fuel offset value
          width m.memory d)
      have hvirtio := Machine.writeSlot_virtio fuel slot offset value width d m
      refine ⟨?_, fun i e he => ?_⟩
      · rw [hvirtio]
        exact hput.length_eq
      · rw [hvirtio]
        exact hput.slots i e he
  | host slot d d' memory _ hd hchange =>
      exact Machine.alike_put hrefl _ hd
        (hchange.mono (fun _ _ h => h) fun _ _ h => absurd h not_false)
  | memory memory => exact Machine.alike_of_same hrefl rfl
  | finisher status => exact Machine.alike_of_same hrefl rfl
  | clocks ticks ns => exact Machine.alike_of_same hrefl rfl

abbrev MachineSteps [EntropySource ε] [NinePEndpoint π] (K : Bool → Prop) (guest : Prop) :
    Machine ε π → Machine ε π → Prop := Relation.ReflTransGen (MachineStep K guest)

namespace Machine

theorem conclude_snd (slot : Nat) (served : VirtioSlot.Served ε π) (m : Machine ε π) :
    (conclude slot served m).2 = m.put slot served.2.1 served.2.2 := by
  unfold conclude
  obtain ⟨_ | _ | _ | _, device, memory⟩ := served <;> rfl

theorem storage_eq_ok {m : Machine ε π} {slot : Nat}
    {mmio : VirtioMmioDevice (BlockDevice BlockStore)} (h : m.storage slot = .ok mmio) :
    m.virtio[slot]? = some (.storageBlock mmio) := by
  unfold storage at h
  split at h
  · next hslot =>
      rw [hslot, Outcome.ok.inj h]
  · simp at h

theorem storage_of_slot {m : Machine ε π} {slot : Nat}
    {mmio : VirtioMmioDevice (BlockDevice BlockStore)}
    (h : m.virtio[slot]? = some (.storageBlock mmio)) : m.storage slot = .ok mmio := by
  unfold storage
  rw [h]

theorem storage_ne_panic (m : Machine ε π) (slot : Nat) : m.storage slot ≠ .panic := by
  unfold storage
  split <;> simp

variable [EntropySource ε] [NinePEndpoint π] {K : Bool → Prop} {guest : Prop}

theorem steps_refl (m : Machine ε π) : MachineSteps K guest m m := .refl

theorem steps_trans (m n o : Machine ε π) (h : MachineSteps K guest m n)
    (h' : MachineSteps K guest n o) : MachineSteps K guest m o := h.trans h'

theorem conclude_steps {m : Machine ε π} {slot : Nat} {d : VirtioSlot ε π}
    {served : VirtioSlot.Served ε π} (hd : m.virtio[slot]? = some d)
    (hserved : SlotChange (fun a b => b = a ∨ K b) (fun _ _ => False) d served.2.1) :
    MachineSteps K guest m (conclude slot served m).2 := by
  rw [conclude_snd]
  exact .single (.host slot d _ _ m hd hserved)

/-! ## The guest -/

theorem access_steps (hguest : guest) (first : GuestAccess) :
    Op.Along (MachineSteps K guest : Machine ε π → _ → Prop) (access first) := by
  intro m
  cases first with
  | store address bytes => exact .single (.memory _ m)
  | device fuel slot offset value width =>
      rw [access]
      dsimp only
      split
      · exact .refl
      · next d hd => exact .single (.write hguest fuel slot offset value width d m hd)
  | finish status => exact .single (.finisher status m)

theorem runCpu_steps (hguest : guest) (accesses : List GuestAccess) :
    Op.Along (MachineSteps K guest : Machine ε π → _ → Prop) (runCpu accesses) := by
  induction accesses with
  | nil => exact Op.along_pure steps_refl _
  | cons first rest ih => exact (access_steps hguest first).bind steps_trans fun _ => ih

/-! ## The host -/

theorem virtioConsoleReceive_steps (fuel slot : Nat) (bytes : List UInt8) :
    Op.Along (MachineSteps K guest)
      (virtioConsoleReceive fuel slot bytes : MachineOp ε π Unit) := by
  intro m
  unfold virtioConsoleReceive
  split
  · next hslot => exact conclude_steps hslot (.console _ _)
  · exact .refl

theorem takeVirtioConsoleOutput_steps (slot : Nat) :
    Op.Along (MachineSteps K guest)
      (takeVirtioConsoleOutput slot : MachineOp ε π (List UInt8)) := by
  intro m
  unfold takeVirtioConsoleOutput
  split
  · next hslot => exact .single (.host slot _ _ _ m hslot (.console _ _))
  · exact .refl

theorem resizeVirtioConsole_steps (slot : Nat) (width height : UInt16) :
    Op.Along (MachineSteps K guest)
      (resizeVirtioConsole slot width height : MachineOp ε π Unit) := by
  intro m
  unfold resizeVirtioConsole
  split
  · next hslot => exact .single (.host slot _ _ _ m hslot (.console _ _))
  · exact .refl

theorem virtioNetworkReceive_steps (fuel slot : Nat) (packet : List UInt8) :
    Op.Along (MachineSteps K guest)
      (virtioNetworkReceive fuel slot packet : MachineOp ε π Unit) := by
  intro m
  unfold virtioNetworkReceive
  split
  · next mmio hslot =>
      refine conclude_steps hslot (.network (.inl ?_))
      exact NetworkDevice.receivePacket_sameCarrier fuel packet (mmio.attach m.memory)
  · exact .refl

theorem setCarrier_up (up : Bool) (s : Attached (NetworkDevice OutputNetwork)) :
    (NetworkDevice.setCarrier up s).device.carrierUp = up := by
  unfold NetworkDevice.setCarrier
  by_cases h : s.device.carrierUp ≠ up
  · rw [if_pos h]
  · rw [if_neg h]
    exact not_not.mp h

theorem virtioNetworkSetCarrier_steps (slot : Nat) {up : Bool} (hup : K up) :
    Op.Along (MachineSteps K guest)
      (virtioNetworkSetCarrier slot up : MachineOp ε π Unit) := by
  intro m
  unfold virtioNetworkSetCarrier
  split
  · next mmio hslot =>
      refine .single (.host slot _ _ _ m hslot (.network (.inr ?_)))
      show K (NetworkDevice.setCarrier up (mmio.attach m.memory)).device.carrierUp
      rw [setCarrier_up]
      exact hup
  · exact .refl

theorem takeNetworkOutput_steps (slot : Nat) (m : Machine ε π) :
    MachineSteps K guest m (m.takeNetworkOutput slot).2 := by
  unfold takeNetworkOutput
  split
  · next hslot => exact .single (.host slot _ _ _ m hslot (.network (.inl rfl)))
  · exact .refl

theorem virtioKeyEvent_steps (fuel slot : Nat) (code : UInt16) (down : Bool) :
    Op.Along (MachineSteps K guest)
      (virtioKeyEvent fuel slot code down : MachineOp ε π Unit) := by
  intro m
  unfold virtioKeyEvent
  split
  · next hslot => exact conclude_steps hslot (.input _ _)
  · exact .refl

theorem virtioPointerEvent_steps (fuel slot : Nat) (x y wheel buttons : UInt32) :
    Op.Along (MachineSteps K guest)
      (virtioPointerEvent fuel slot x y wheel buttons : MachineOp ε π Unit) := by
  intro m
  unfold virtioPointerEvent
  split
  · next hslot => exact conclude_steps hslot (.input _ _)
  · exact .refl

/-! ## Memory -/

theorem writeRam_steps (address : Nat) (bytes : List UInt8) :
    Op.Along (MachineSteps K guest) (writeRam address bytes : MachineOp ε π Unit) := by
  intro m
  unfold writeRam
  split
  · exact .refl
  · exact .single (.memory _ m)

theorem clearPages_steps (pages offset : Nat) :
    Op.Along (MachineSteps K guest) (clearPages offset pages : MachineOp ε π Unit) := by
  induction pages generalizing offset with
  | zero => exact Op.along_pure steps_refl _
  | succ pages ih => exact (writeRam_steps _ _).bind steps_trans fun _ => ih _

theorem clearRam_steps : Op.Along (MachineSteps K guest) (clearRam : MachineOp ε π Unit) :=
  fun m => clearPages_steps _ _ m

theorem loadBootAt_steps (load : BootLoad) :
    Op.Along (MachineSteps K guest) (loadBootAt load : MachineOp ε π Unit) := by
  intro m
  unfold loadBootAt
  split
  · exact .refl
  · split
    · exact .refl
    · split
      · exact .refl
      · exact .single (.memory _ m)

end Machine

end Virtio
end Riscbox
