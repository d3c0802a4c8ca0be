import Riscbox.Runtime.Kept

/-!
# The carrier over the life of a machine

The carrier that the host sets waits in the input queue until a CPU run hands it to the
device.  Halts and resets keep the carrier of the device and drop the queue.
-/

namespace Riscbox
namespace Runtime

open Virtio
open Storage (BlockStore)

variable {ε π α : Type}

/-! ## Carriers of machines -/

/-- The same devices, with their carriers. -/
abbrev CarrierKept : VirtioSlot ε π → VirtioSlot ε π → Prop :=
  SlotChange (fun a b => b = a) fun _ _ => True

theorem CarrierKept.refl (d : VirtioSlot ε π) : CarrierKept d d :=
  SlotChange.refl (C := fun a b => b = a) (fun _ => rfl) (fun _ => trivial) d

theorem carrier_of_alike {r r' : Running ε π} (hslot : r'.networkSlot = r.networkSlot)
    (h : r.machine.Alike CarrierKept r'.machine) : r'.carrier = r.carrier := by
  unfold Running.carrier
  rw [hslot]
  cases r.networkSlot with
  | none => rfl
  | some slot =>
    dsimp only
    cases hd : r.machine.virtio[slot]? with
    | none =>
      have hnone : r'.machine.virtio[slot]? = none := by
        rw [List.getElem?_eq_none_iff, h.length_eq]
        exact List.getElem?_eq_none_iff.mp hd
      rw [hnone]
    | some d =>
      obtain ⟨d', hd', hchange⟩ := h.slots slot d hd
      rw [hd']
      cases hchange with
      | network hup => exact congrArg some hup
      | storageBlock => rfl
      | console => rfl
      | nineP => rfl
      | input => rfl
      | entropy => rfl

theorem CarrierKept.trans (d e f : VirtioSlot ε π) (h : CarrierKept d e) (h' : CarrierKept e f) :
    CarrierKept d f :=
  slotChange_trans (fun _ _ _ h h' => h'.trans h) (fun _ _ _ _ _ => trivial) h h'

theorem onMachine_carrier_of_kept {x : MachineOp ε π α}
    (h : Op.Along (Machine.Alike CarrierKept) x) (r : Running ε π) :
    (Running.onMachine x r).2.carrier = r.carrier := by
  rw [onMachine_snd]
  exact carrier_of_alike (r := r) rfl (h r.machine)

theorem carrierKept_trans (m n o : Machine ε π) (h : m.Alike CarrierKept n)
    (h' : n.Alike CarrierKept o) : m.Alike CarrierKept o := h.trans CarrierKept.trans h'

section Machines

variable [EntropySource ε] [NinePEndpoint π]

/-- No step but one that sets the carrier changes it. -/
theorem carrierKept_of_steps (guest : Prop) {m m' : Machine ε π}
    (h : MachineSteps (fun _ => False) guest m m') : m.Alike CarrierKept m' := by
  induction h with
  | refl => exact Machine.alike_of_same CarrierKept.refl rfl
  | tail _ hlast ih =>
      refine ih.trans CarrierKept.trans ?_
      have hstep := hlast.alike diskRules_any
      exact ⟨hstep.length_eq, fun i d hd => (hstep.slots i d hd).imp fun d' hd' =>
        ⟨hd'.1, hd'.2.mono (fun _ _ hup => hup.resolve_right not_false) fun _ _ h => h⟩⟩

theorem onMachine_carrier (guest : Prop) {x : MachineOp ε π α}
    (h : Op.Along (MachineSteps (fun _ => False) guest) x) (r : Running ε π) :
    (Running.onMachine x r).2.carrier = r.carrier := by
  rw [onMachine_snd]
  exact carrier_of_alike (r := r) rfl (carrierKept_of_steps guest (h r.machine))

theorem clearNetworkOutput_carrier (r : Running ε π) : r.clearNetworkOutput.carrier = r.carrier := by
  unfold Running.clearNetworkOutput
  split
  · next slot hslot =>
      exact carrier_of_alike (r := r) rfl
        (carrierKept_of_steps False (Machine.takeNetworkOutput_steps slot r.machine))
  · rfl

theorem resetDevices_carrier (r : Running ε π) : r.resetDevices.carrier = r.carrier :=
  carrier_of_alike (r := r) rfl (resetDevices_alike
    (SlotChange.reset (fun _ => rfl) fun _ => trivial : ∀ d, CarrierKept d d.reset) r.machine)

theorem carrierKept_along {x : MachineOp ε π α}
    (h : Op.Along (MachineSteps (fun _ => False) False) x) :
    Op.Along (Machine.Alike CarrierKept) x := fun m => carrierKept_of_steps False (h m)

theorem reset_carrierKept (allocated : Bool) :
    Op.Along (Machine.Alike CarrierKept) (Machine.reset allocated : MachineOp ε π Unit) := by
  intro m
  unfold Machine.reset
  split
  · exact Machine.alike_of_same CarrierKept.refl rfl
  · exact resetDevices_alike
      (SlotChange.reset (fun _ => rfl) fun _ => trivial : ∀ d, CarrierKept d d.reset) m

end Machines

/-! ## Carriers of runtimes -/

namespace BrowserRuntime

/-- If there is a machine it has this carrier. -/
def CarriedBy (carrier : Option Bool) (s : BrowserRuntime ε π) : Prop :=
  ∀ r, s.state = .running r ∨ s.state = .halted r → r.carrier = carrier

variable {carrier : Option Bool}

theorem carriedBy_restore {halted : Bool} {s : BrowserRuntime ε π} {r : Running ε π} :
    (s.restore halted r).CarriedBy carrier ↔ r.carrier = carrier :=
  forall_restore (P := fun r => r.carrier = carrier)

theorem CarriedBy.of_state {s t : BrowserRuntime ε π} (h : s.CarriedBy carrier)
    (heq : t.state = s.state) : t.CarriedBy carrier := by
  intro r hr
  rw [heq] at hr
  exact h r hr

theorem carriedBy_idle {s : BrowserRuntime ε π} (h : s.state = .vmInactive) :
    s.CarriedBy carrier := by
  intro r hr
  rw [h] at hr
  simp at hr

/-! ### Requests -/

def SamePump (p p' : Pump ε π) : Prop := p'.running.carrier = p.running.carrier

theorem SamePump.refl (p : Pump ε π) : SamePump p p := rfl

theorem SamePump.trans (p p' p'' : Pump ε π) (h : SamePump p p') (h' : SamePump p' p'') :
    SamePump p p'' := Eq.trans h' h

theorem pumpSlot_carrier (index slot fuel : Nat) :
    Op.Along SamePump (pumpSlot index slot fuel : Op (Pump ε π) _ _) := by
  induction fuel with
  | zero => exact Op.along_pure SamePump.refl _
  | succ fuel ih =>
      intro p
      rw [pumpSlot]
      dsimp only
      split
      · next mmio hmmio =>
          have hkept := withStorage_slotChange (C := fun a b => b = a) (fun _ => rfl) slot
            BlockStore.nextRequest p.running.machine
          have hsame : ({ p.running with machine := (ofMachine
              (Machine.nextHttpBlockRequest slot) p.running.machine).2 } : Running ε π).carrier =
                p.running.carrier := by
            rw [ofMachine_snd]
            exact carrier_of_alike (r := p.running) rfl hkept
          split
          · exact hsame
          · next request _ => exact Eq.trans (ih _) hsame
          · exact hsame
          · exact hsame
      · exact SamePump.refl p
      · exact SamePump.refl p

theorem pumpSlots_carrier (index : Nat) (slots : List Nat) :
    Op.Along SamePump (pumpSlots index slots : Op (Pump ε π) _ _) := by
  induction slots generalizing index with
  | nil => exact Op.along_pure SamePump.refl _
  | cons slot rest ih =>
      intro p
      rw [pumpSlots]
      exact (pumpSlot_carrier index slot _).bind SamePump.trans (fun _ => ih _) p

theorem pumpHttpRequests_carriedBy {s : BrowserRuntime ε π} (h : s.CarriedBy carrier) :
    (pumpHttpRequests s).2.CarriedBy carrier := by
  unfold pumpHttpRequests
  split
  · next r hs =>
      refine carriedBy_restore.mpr ?_
      exact Eq.trans (pumpSlots_carrier 0 r.blockSlots _) (h r (.inl hs))
  · next r hs =>
      refine carriedBy_restore.mpr ?_
      exact Eq.trans (pumpSlots_carrier 0 r.blockSlots _) (h r (.inr hs))
  · exact h

variable [EntropySource ε] [NinePEndpoint π]

/-! ### Halts and resets -/

theorem enterHalted_carriedBy {r : Running ε π} (h : r.carrier = carrier) (cause : LifecycleCause)
    (s : BrowserRuntime ε π) : (s.enterHalted r cause).CarriedBy carrier := by
  have hcarrier : r.forgetHttp.resetDevices.clearNetworkOutput.carrier = carrier := by
    rw [clearNetworkOutput_carrier, resetDevices_carrier]
    exact h
  have hrestored : (s.restore true r.forgetHttp.resetDevices.clearNetworkOutput).CarriedBy carrier :=
    carriedBy_restore.mpr hcarrier
  exact hrestored.of_state rfl

theorem halt_carriedBy {s : BrowserRuntime ε π} (h : s.CarriedBy carrier) :
    (BrowserRuntime.halt s).2.CarriedBy carrier := by
  unfold BrowserRuntime.halt
  split
  · exact h
  · split
    · next r hs => exact enterHalted_carriedBy (h r (.inl hs)) _ s
    · exact h

theorem restartMachine_carriedBy (restart : Restart) (cause : LifecycleCause) {r : Running ε π}
    (h : r.carrier = carrier) (s : BrowserRuntime ε π) :
    (restartMachine restart cause r s).2.CarriedBy carrier := by
  have hload := onMachine_carrier_of_kept ((reset_carrierKept restart.allocated).bind
    carrierKept_trans fun _ => carrierKept_along (Machine.loadBootAt_steps restart.load)) r.forgetHttp
  unfold restartMachine
  dsimp only
  split
  · next booted hbooted =>
      rw [hbooted] at hload
      have hcarrier : booted.clearNetworkOutput.carrier = carrier := by
        rw [clearNetworkOutput_carrier]
        exact Eq.trans hload h
      have hrestored : (s.restore false booted.clearNetworkOutput).CarriedBy carrier :=
        carriedBy_restore.mpr hcarrier
      exact pumpHttpRequests_carriedBy (hrestored.of_state rfl)
  · exact carriedBy_idle rfl
  · exact carriedBy_idle rfl

theorem resetMachine_carriedBy (restart : Restart) (cause : LifecycleCause)
    {s : BrowserRuntime ε π} (h : s.CarriedBy carrier) :
    (resetMachine restart cause s).2.CarriedBy carrier := by
  unfold resetMachine
  split
  · next r hs => exact restartMachine_carriedBy restart cause (h r (.inl hs)) s
  · next r hs => exact restartMachine_carriedBy restart cause (h r (.inr hs)) s
  · exact h

theorem reset_carriedBy {restart : Restart} {s : BrowserRuntime ε π} (h : s.CarriedBy carrier) :
    (BrowserRuntime.reset restart s).2.CarriedBy carrier := by
  unfold BrowserRuntime.reset
  split
  · exact h
  · exact resetMachine_carriedBy restart _ h

theorem coldReset_carriedBy {restart : Restart} {s : BrowserRuntime ε π}
    (h : s.CarriedBy carrier) : (coldReset restart s).2.CarriedBy carrier := by
  unfold coldReset
  split
  · next r hs =>
      have hload := onMachine_carrier_of_kept ((reset_carrierKept restart.allocated).bind
        carrierKept_trans fun _ => (carrierKept_along Machine.clearRam_steps).bind
          carrierKept_trans fun _ => carrierKept_along (Machine.loadBootAt_steps restart.load))
        r.forgetHttp
      exact carriedBy_restore.mpr (Eq.trans hload (h r (.inr hs)))
  · exact h

/-! ### CPU runs -/

theorem collectOutput_carriedBy {r : Running ε π} (h : r.carrier = carrier) (turn : CpuTurn)
    (s : BrowserRuntime ε π) : (collectOutput turn r s).2.CarriedBy carrier := by
  have htaken : (takeConsole r).2.carrier = carrier := by
    unfold takeConsole
    split
    · next slot _ =>
        exact Eq.trans (onMachine_carrier False
          (Machine.takeVirtioConsoleOutput_steps slot) r) h
    · exact h
  unfold collectOutput
  rcases hcase : takeConsole r with ⟨console, taken⟩
  rw [hcase] at htaken
  have hcleared : taken.clearNetworkOutput.carrier = carrier := by
    rw [clearNetworkOutput_carrier]
    exact htaken
  cases console with
  | ok bytes =>
    have hrestored : (s.restore false taken.clearNetworkOutput).CarriedBy carrier :=
      carriedBy_restore.mpr hcleared
    dsimp only
    split
    · exact hrestored.of_state rfl
    · exact hrestored.of_state rfl
  | err e => exact carriedBy_restore.mpr htaken
  | panic => exact carriedBy_restore.mpr htaken

theorem execute_carriedBy {r : Running ε π} (h : r.carrier = carrier) (turn : CpuTurn)
    (ticks ns : Nat) (s : BrowserRuntime ε π) :
    (execute turn ticks ns r s).2.CarriedBy carrier := by
  have hrun := onMachine_carrier True (Machine.runCpu_steps trivial turn.accesses)
    { r with machine := r.machine.presentGuestClocks ticks ns }
  unfold execute
  dsimp only
  rcases hcase : Running.onMachine (Machine.runCpu turn.accesses)
    { r with machine := r.machine.presentGuestClocks ticks ns } with ⟨ending, after⟩
  rw [hcase] at hrun
  have hafter : after.carrier = carrier := Eq.trans hrun h
  cases ending with
  | ok _ => exact collectOutput_carriedBy hafter turn _
  | err e => exact carriedBy_restore.mpr hafter
  | panic => exact carriedBy_restore.mpr hafter

end BrowserRuntime

/-! ## The queue -/

/-- The carrier of the device once it has been given the event. -/
def BrowserEvent.carrier : BrowserEvent → Bool → Bool
  | .networkCarrier up, _ => up
  | _, up => up

/-- The carrier that the queued events leave the device with. -/
def settled (events : List BrowserEvent) (up : Bool) : Bool :=
  events.foldl (fun up event => event.carrier up) up

theorem settled_setCarrier (queue : BrowserInputQueue) (up c : Bool) :
    settled (queue.setCarrier up).events c = up := by
  show settled (queue.events ++ [.networkCarrier up]) c = up
  rw [settled, List.foldl_append]
  rfl

theorem carrier_eq_some {r : Running ε π} {up : Bool} (h : r.carrier = some up) :
    ∃ slot mmio, r.networkSlot = some slot ∧ r.machine.virtio[slot]? = some (.network mmio) ∧
      mmio.device.carrierUp = up := by
  unfold Running.carrier at h
  split at h
  · next slot hslot =>
      split at h
      · next mmio hmmio => exact ⟨slot, mmio, hslot, hmmio, Option.some.inj h⟩
      · simp at h
  · simp at h

theorem setCarrier_carrier {r : Running ε π} {up : Bool} {slot : Nat}
    {mmio : VirtioMmioDevice (NetworkDevice OutputNetwork)} (hslot : r.networkSlot = some slot)
    (hmmio : r.machine.virtio[slot]? = some (.network mmio)) :
    (Running.onMachine (Machine.virtioNetworkSetCarrier slot up) r).2.carrier = some up := by
  rw [onMachine_snd]
  unfold Running.carrier Machine.virtioNetworkSetCarrier
  rw [hmmio]
  dsimp only
  rw [hslot]
  dsimp only
  have hlt : slot < r.machine.virtio.length := (List.getElem?_eq_some_iff.mp hmmio).1
  rw [show (r.machine.put slot _ _).virtio[slot]? = some _ from List.getElem?_set_self hlt]
  exact congrArg some (Machine.setCarrier_up up _)

/-- The device has this carrier once it has been given the queue. -/
def FedLeaves (up : Bool) (f : Fed ε π) : Prop :=
  ∃ c, f.running.carrier = some c ∧ settled f.queue.events c = up

theorem onRunning_leaves {up : Bool} {x : RunningOp ε π α}
    (hx : ∀ r : Running ε π, (x r).2.carrier = r.carrier) {f : Fed ε π} (h : FedLeaves up f) :
    FedLeaves up (onRunning x f).2 := by
  obtain ⟨c, hcarrier, hsettled⟩ := h
  exact ⟨c, (hx f.running).trans hcarrier, hsettled⟩

/-- Where the delivery ends without an error the queue has no events left. -/
def Handed (up : Bool) (p : Outcome (Failure RuntimeError) Unit × Fed ε π) : Prop :=
  FedLeaves up p.2 ∧ ∀ a, p.1 = .ok a → p.2.queue.events = []

theorem handed_bind {up : Bool} {x : Op (Fed ε π) (Failure RuntimeError) α}
    {g : α → Op (Fed ε π) (Failure RuntimeError) Unit}
    (hx : ∀ f, FedLeaves up f → FedLeaves up (x f).2)
    (hg : ∀ a f, FedLeaves up f → Handed up (g a f)) {f : Fed ε π} (h : FedLeaves up f) :
    Handed up ((x >>= g) f) := by
  have hleaves := hx f h
  rw [Op.bind_apply]
  rcases hcase : x f with ⟨a | e | _, t⟩ <;> rw [hcase] at hleaves
  · exact hg a t hleaves
  · exact ⟨hleaves, nofun⟩
  · exact ⟨hleaves, nofun⟩

section Delivery

variable [EntropySource ε] [NinePEndpoint π] {up : Bool}

theorem deliverEvent_carrier {r : Running ε π} (h : r.carrier = some up) (fuel : Nat)
    (event : BrowserEvent) :
    (Running.deliverEvent fuel event r).2.carrier = some (event.carrier up) := by
  unfold Running.deliverEvent
  cases event with
  | key pressed code =>
      dsimp only
      split
      · exact Eq.trans (onMachine_carrier False (Machine.virtioKeyEvent_steps _ _ _ _) r) h
      · exact h
  | pointer x y wheel buttons =>
      dsimp only
      split
      · exact Eq.trans (onMachine_carrier False (Machine.virtioPointerEvent_steps _ _ _ _ _ _) r) h
      · exact h
  | networkPacket packet =>
      dsimp only
      split
      · exact Eq.trans (onMachine_carrier False (Machine.virtioNetworkReceive_steps _ _ _) r) h
      · exact h
  | networkCarrier carrier =>
      obtain ⟨slot, mmio, hslot, hmmio, _⟩ := carrier_eq_some h
      dsimp only
      rw [hslot]
      exact setCarrier_carrier hslot hmmio

theorem deliverEvents_handed (fuel count : Nat) {f : Fed ε π} (h : FedLeaves up f)
    (hcount : f.queue.events.length ≤ count) : Handed up (deliverEvents fuel count f) := by
  induction count generalizing f with
  | zero => exact ⟨h, fun _ _ => List.length_eq_zero_iff.mp (Nat.le_zero.mp hcount)⟩
  | succ count ih =>
      obtain ⟨c, hcarrier, hsettled⟩ := h
      obtain ⟨r, queue⟩ := f
      rw [deliverEvents, Op.bind_apply]
      cases hevents : queue.events with
      | nil =>
        have hnext : queue.nextEvent = (none, queue) := by
          rw [BrowserInputQueue.nextEvent, hevents]
        rw [onQueue, hnext]
        exact ⟨⟨c, hcarrier, hsettled⟩, fun _ _ => hevents⟩
      | cons event rest =>
        obtain ⟨queue', hnext, hrest⟩ : ∃ queue', queue.nextEvent = (some event, queue') ∧
            queue'.events = rest := by
          rw [BrowserInputQueue.nextEvent, hevents]
          cases event <;> exact ⟨_, rfl, rfl⟩
        have hdelivered := deliverEvent_carrier hcarrier fuel event
        dsimp only at hsettled hcount
        rw [hevents] at hsettled hcount
        rw [onQueue, hnext]
        dsimp only
        rw [Op.bind_apply, onRunning]
        dsimp only
        have hleaves : FedLeaves up
            { running := (Running.deliverEvent fuel event r).2, queue := queue' } :=
          ⟨_, hdelivered, by rw [hrest]; exact hsettled⟩
        rcases hcase : Running.deliverEvent fuel event r with ⟨_ | _ | _, r'⟩ <;>
          rw [hcase] at hleaves
        · exact ih hleaves (by rw [hrest]; exact Nat.le_of_succ_le_succ hcount)
        · exact ⟨hleaves, nofun⟩
        · exact ⟨hleaves, nofun⟩

theorem resizeConsole_carrier (size : Option TerminalSize) (r : Running ε π) :
    (Running.resizeConsole size r).2.carrier = r.carrier := by
  unfold Running.resizeConsole
  split
  · exact onMachine_carrier False (Machine.resizeVirtioConsole_steps _ _ _) r
  · rfl

theorem receiveConsole_carrier (fuel : Nat) (bytes : List UInt8) (r : Running ε π) :
    (Running.receiveConsole fuel bytes r).2.carrier = r.carrier := by
  unfold Running.receiveConsole
  split
  · split
    · rfl
    · exact onMachine_carrier False (Machine.virtioConsoleReceive_steps _ _ _) r
  · rfl

theorem deliverInput_handed (turn : CpuTurn) {f : Fed ε π} (h : FedLeaves up f) :
    Handed up (deliverInput turn f) := by
  refine handed_bind (fun f h => h) (fun size f h => ?_) h
  refine handed_bind (fun f h => onRunning_leaves (resizeConsole_carrier size) h)
    (fun _ f h => ?_) h
  refine handed_bind (fun f h => h) (fun fed f h => ?_) h
  refine handed_bind (fun f h => h) (fun bytes f h => ?_) h
  refine handed_bind (fun f h => onRunning_leaves (receiveConsole_carrier _ bytes) h)
    (fun _ f h => ?_) h
  rw [Op.bind_apply, Op.get_apply]
  exact deliverEvents_handed _ _ h (Nat.le_refl _)

end Delivery

/-! ## Runs of the host -/

/-- The calls of the host on a prepared machine: its carrier, the start and the end of the
execution, and CPU runs. -/
inductive CarrierCall where
  | networkCarrier (up : Bool)
  | halt
  | reset (pending : Bool) (restart : Restart)
  | coldReset (restart : Restart)
  | run (turn : CpuTurn) (ticks ns : Nat)

/-- The carrier of the device once it has been given what the queue holds. -/
def Leaves (up : Bool) (b : Browser ε π) : Prop :=
  ∀ r, b.runtime.state = .running r ∨ b.runtime.state = .halted r →
    FedLeaves up { running := r, queue := b.queue }

/-- The queue holds no carrier that the device does not have. -/
def Delivered (b : Browser ε π) : Prop :=
  ∀ r c, b.runtime.state = .running r ∨ b.runtime.state = .halted r → r.carrier = some c →
    settled b.queue.events c = c

theorem leaves_of_carriedBy {up : Bool} {b : Browser ε π}
    (h : b.runtime.CarriedBy (some up)) (hevents : settled b.queue.events up = up) :
    Leaves up b := fun r hr => ⟨up, h r hr, hevents⟩

theorem Leaves.carriedBy {up : Bool} {b : Browser ε π} (h : Leaves up b) (hdelivered : Delivered b) :
    b.runtime.CarriedBy (some up) := by
  intro r hr
  obtain ⟨c, hcarrier, hsettled⟩ := h r hr
  rw [hcarrier, ← hsettled]
  exact congrArg some (hdelivered r c hr hcarrier).symm

section Calls

variable {up : Bool} {b : Browser ε π} {x : RuntimeOp ε π Unit}

/-- A call that drops the queue keeps the carrier that the device has. -/
theorem leaves_of_dropped (queue : BrowserInputQueue) (hnone : queue.events = []) (h : Leaves up b)
    (hdelivered : Delivered b)
    (hx : ∀ {carrier s}, BrowserRuntime.CarriedBy carrier s → (x s).2.CarriedBy carrier) :
    Leaves up { runtime := (x b.runtime).2, queue := queue } := by
  apply leaves_of_carriedBy (hx (h.carriedBy hdelivered))
  show settled queue.events up = up
  rw [hnone]
  rfl

/-- A call that keeps the queue keeps what the queue leaves the device with. -/
theorem leaves_of_queued (h : Leaves up b)
    (hx : ∀ {carrier s}, BrowserRuntime.CarriedBy carrier s → (x s).2.CarriedBy carrier) :
    Leaves up { b with runtime := (x b.runtime).2 } := by
  intro r hr
  by_cases hheld : ∃ r₀, b.runtime.state = .running r₀ ∨ b.runtime.state = .halted r₀
  · obtain ⟨r₀, hr₀⟩ := hheld
    obtain ⟨c, hcarrier, hsettled⟩ := h r₀ hr₀
    have hcarried : b.runtime.CarriedBy (some c) := by
      intro r₁ hr₁
      obtain hs | hs := hr₀ <;> rw [hs] at hr₁
      · rw [← State.running.inj (hr₁.resolve_right nofun)]
        exact hcarrier
      · rw [← State.halted.inj (hr₁.resolve_left nofun)]
        exact hcarrier
    exact ⟨c, hx hcarried r hr, hsettled⟩
  · -- A call makes no machine where there was none.
    have hnone : ∀ carrier, b.runtime.CarriedBy carrier := fun _ r₀ hr₀ => absurd ⟨r₀, hr₀⟩ hheld
    have hcontra := (hx (hnone none) r hr).symm.trans (hx (hnone (some up)) r hr)
    simp at hcontra

end Calls

/-- The carrier of the machine, if there is one. -/
def carrierOf (s : BrowserRuntime ε π) : Option (Option Bool) :=
  match s.state with
  | .running r => some r.carrier
  | .halted r => some r.carrier
  | _ => none

theorem leaves_of_carrierOf {up : Bool} {b : Browser ε π} (h : carrierOf b.runtime = some (some up))
    (hnone : b.queue.events = []) : Leaves up b := by
  intro r hr
  have hcarrier : some r.carrier = some (some up) := by
    rw [← h, carrierOf]
    obtain hs | hs := hr <;> rw [hs]
  refine ⟨up, Option.some.inj hcarrier, ?_⟩
  dsimp only
  rw [hnone]
  rfl

theorem loadBootAt_passed {load : BootLoad} {m m' : Machine ε π}
    (h : Machine.loadBootAt load m = (.ok (), m')) :
    load.images = none ∧ load.seed = true ∧ load.tree = none := by
  unfold Machine.loadBootAt at h
  split at h
  · simp at h
  · next himages =>
      split at h
      · simp at h
      · next hseed =>
          split at h
          · simp at h
          · next htree => exact ⟨himages, by simpa using hseed, htree⟩

variable [EntropySource ε] [NinePEndpoint π]

namespace CarrierCall

/-- The calls of `browser_abi.rs`; a reset waits for the requests of the disks. -/
def perform : CarrierCall → Browser ε π → Browser ε π
  | .networkCarrier up, b => { b with queue := b.queue.setCarrier up }
  | .halt, b =>
    match BrowserRuntime.halt b.runtime with
    | (.ok _, s) => { runtime := s, queue := b.queue.retireGuestWork }
    | (_, s) => { b with runtime := s }
  | .reset pending restart, b =>
    if pending then b
    else match BrowserRuntime.reset restart b.runtime with
      | (.ok _, s) => { runtime := s, queue := .default }
      | (_, s) => { b with runtime := s }
  | .coldReset restart, b =>
    match BrowserRuntime.coldReset restart b.runtime with
    | (.ok _, s) => { runtime := s, queue := .default }
    | (_, s) => { b with runtime := s }
  | .run turn ticks ns, b => (runCpuOnce turn ticks ns b).2

def performAll (b : Browser ε π) (calls : List CarrierCall) : Browser ε π :=
  calls.foldl (fun b call => call.perform b) b

/-- The carrier that the host has set last. -/
def latest (up : Bool) (calls : List CarrierCall) : Bool :=
  calls.foldl (fun up call => match call with | .networkCarrier up => up | _ => up) up

/-- The call drops the queue: it is made in the state that it asks for, and its restart has
what a restart needs. -/
def Retires (b : Browser ε π) : CarrierCall → Prop
  | .networkCarrier _ => False
  | .halt => b.runtime.activeQuantum.isSome = false ∧ b.runtime.isRunning = true
  | .reset pending restart =>
    pending = false ∧ b.runtime.activeQuantum.isSome = false ∧
      (b.runtime.isRunning = true ∨ b.runtime.isHalted = true) ∧ restart.Boots
  | .coldReset restart => b.runtime.isHalted = true ∧ restart.Boots
  | .run _ _ _ => False

/-- A call that drops the queue finds no carrier waiting in it. -/
def Safe (b : Browser ε π) (call : CarrierCall) : Prop := call.Retires b → Delivered b

/-- Every call of the run is safe where it is made. -/
def SafeRun (b : Browser ε π) (calls : List CarrierCall) : Prop :=
  ∀ before call after, calls = before ++ call :: after → call.Safe (performAll b before)

end CarrierCall

section Calls

variable {up : Bool} {b : Browser ε π}

theorem serveFinish_leaves (turn : CpuTurn) (h : b.runtime.CarriedBy (some up))
    (hnone : b.queue.events = []) : Leaves up (serveFinish turn b).2 := by
  have hempty : settled b.queue.events up = up := by
    rw [hnone]
    rfl
  unfold serveFinish
  split
  · next r hs =>
      split
      · exact leaves_of_carriedBy h hempty
      · have hreset := BrowserRuntime.resetMachine_carriedBy turn.restart .guestReboot h
        rw [Op.bind_apply, onRuntime]
        dsimp only
        rcases hcase : BrowserRuntime.resetMachine turn.restart .guestReboot b.runtime with
          ⟨_ | _ | _, s⟩ <;> rw [hcase] at hreset
        · exact leaves_of_carriedBy hreset rfl
        · exact leaves_of_carriedBy hreset hempty
        · exact leaves_of_carriedBy hreset hempty
      · exact leaves_of_carriedBy
          (BrowserRuntime.enterHalted_carriedBy (h r (.inl hs)) _ b.runtime) rfl
      · exact leaves_of_carriedBy
          (BrowserRuntime.enterHalted_carriedBy (h r (.inl hs)) _ b.runtime) rfl
  · exact leaves_of_carriedBy h hempty

/-- The machine that the guest runs on has been given the whole queue. -/
theorem delivered_carrier {turn : CpuTurn} {r : Running ε π} {fed : Fed ε π} (h : Leaves up b)
    (hr : b.runtime.state = .running r)
    (hinput : deliverInput turn { running := r, queue := b.queue } = (.ok (), fed)) :
    fed.running.carrier = some up ∧ fed.queue.events = [] := by
  have hhanded := deliverInput_handed turn (h r (.inl hr))
  rw [hinput] at hhanded
  have hnone : fed.queue.events = [] := hhanded.2 () rfl
  obtain ⟨c, hcarrier, hsettled⟩ := hhanded.1
  dsimp only at hcarrier hsettled
  rw [hnone] at hsettled
  obtain rfl : c = up := hsettled
  exact ⟨hcarrier, hnone⟩

theorem runCpuOnce_leaves (turn : CpuTurn) (ticks ns : Nat) (h : Leaves up b) :
    Leaves up (runCpuOnce turn ticks ns b).2 := by
  unfold runCpuOnce
  split
  · next r hs =>
      have hhanded := deliverInput_handed turn (h r (.inl hs))
      rcases hgiven : deliverInput turn { running := r, queue := b.queue } with ⟨ending, fed⟩
      rw [hgiven] at hhanded
      have hrestored : Leaves up
          { runtime := b.runtime.restore false fed.running, queue := fed.queue } := by
        intro r' hr'
        obtain heq | heq := hr'
        · rw [← State.running.inj heq]
          exact hhanded.1
        · simp [BrowserRuntime.restore] at heq
      dsimp only
      cases ending with
      | ok _ =>
        obtain ⟨hcarrier, hnone⟩ := delivered_carrier h hs hgiven
        have hempty : settled fed.queue.events up = up := by
          rw [hnone]
          rfl
        have hexecuted := BrowserRuntime.execute_carriedBy hcarrier turn ticks ns
          (b.runtime.restore false fed.running)
        dsimp only
        rw [Op.bind_apply, onRuntime]
        dsimp only
        rcases hdone : BrowserRuntime.execute turn ticks ns fed.running
          (b.runtime.restore false fed.running) with ⟨_ | _ | _, s⟩ <;> rw [hdone] at hexecuted
        · have hpumped := BrowserRuntime.pumpHttpRequests_carriedBy hexecuted
          dsimp only
          rw [Op.bind_apply, onRuntime]
          dsimp only
          rcases hlast : BrowserRuntime.pumpHttpRequests s with ⟨_ | _ | _, t⟩ <;>
            rw [hlast] at hpumped
          · exact serveFinish_leaves turn (b := { runtime := t, queue := fed.queue }) hpumped hnone
          · exact leaves_of_carriedBy hpumped hempty
          · exact leaves_of_carriedBy hpumped hempty
        · exact leaves_of_carriedBy hexecuted hempty
        · exact leaves_of_carriedBy hexecuted hempty
      | err e => exact hrestored
      | panic => exact hrestored
  · exact h

open CarrierCall

theorem halt_retires {s t : BrowserRuntime ε π} (h : BrowserRuntime.halt s = (.ok (), t)) :
    s.activeQuantum.isSome = false ∧ s.isRunning = true := by
  unfold BrowserRuntime.halt at h
  split at h
  · simp at h
  · next hquantum =>
      split at h
      · next r hs => exact ⟨by simpa using hquantum, by rw [BrowserRuntime.isRunning, hs]⟩
      · simp at h

theorem boots_of_restarted {restart : Restart} {cause : LifecycleCause} {r : Running ε π}
    {s t : BrowserRuntime ε π}
    (h : BrowserRuntime.restartMachine restart cause r s = (.ok (), t)) : restart.Boots := by
  by_contra hnot
  obtain ⟨e, s', herr, _⟩ := BrowserRuntime.restartMachine_err hnot cause r s
  rw [herr] at h
  simp at h

theorem reset_retires {restart : Restart} {s t : BrowserRuntime ε π}
    (h : BrowserRuntime.reset restart s = (.ok (), t)) :
    s.activeQuantum.isSome = false ∧ (s.isRunning = true ∨ s.isHalted = true) ∧
      restart.Boots := by
  unfold BrowserRuntime.reset at h
  split at h
  · simp at h
  · next hquantum =>
      unfold BrowserRuntime.resetMachine at h
      split at h
      · next r hs =>
          exact ⟨by simpa using hquantum, .inl (by rw [BrowserRuntime.isRunning, hs]),
            boots_of_restarted h⟩
      · next r hs =>
          exact ⟨by simpa using hquantum, .inr (by rw [BrowserRuntime.isHalted, hs]),
            boots_of_restarted h⟩
      · simp at h

theorem coldReset_retires {restart : Restart} {s t : BrowserRuntime ε π}
    (h : BrowserRuntime.coldReset restart s = (.ok (), t)) :
    s.isHalted = true ∧ restart.Boots := by
  unfold BrowserRuntime.coldReset at h
  split at h
  · next r hs =>
      refine ⟨by rw [BrowserRuntime.isHalted, hs], ?_⟩
      have hdone : (ofMachine (Machine.reset restart.allocated >>= fun _ =>
          Machine.clearRam >>= fun _ => Machine.loadBootAt restart.load) r.machine).1 = .ok () :=
        congrArg Prod.fst h
      obtain ⟨_, m, hreset, hrest⟩ := Op.bind_eq_ok (ofMachine_eq_ok (Prod.ext hdone rfl))
      obtain ⟨_, _, _, hload⟩ := Op.bind_eq_ok hrest
      refine ⟨?_, loadBootAt_passed hload⟩
      unfold Machine.reset at hreset
      split at hreset
      · simp at hreset
      · next hallocated => simpa using hallocated
  · simp at h

/-- A safe call keeps what the host has set last. -/
theorem perform_leaves (call : CarrierCall) (h : Leaves up b) (hsafe : call.Safe b) :
    Leaves (latest up [call]) (call.perform b) := by
  cases call with
  | networkCarrier carrier =>
      intro r hr
      obtain ⟨c, hcarrier, _⟩ := h r hr
      exact ⟨c, hcarrier, settled_setCarrier b.queue carrier c⟩
  | halt =>
      have hqueued := leaves_of_queued h BrowserRuntime.halt_carriedBy
      rw [perform]
      rcases hcase : BrowserRuntime.halt b.runtime with ⟨_ | _ | _, s⟩ <;> rw [hcase] at hqueued
      · have hdropped := leaves_of_dropped b.queue.retireGuestWork rfl h
          (hsafe (halt_retires hcase)) BrowserRuntime.halt_carriedBy
        rwa [hcase] at hdropped
      · exact hqueued
      · exact hqueued
  | reset pending restart =>
      have hqueued := leaves_of_queued h (x := BrowserRuntime.reset restart)
        BrowserRuntime.reset_carriedBy
      rw [perform]
      split
      · exact h
      · next hpending =>
          rcases hcase : BrowserRuntime.reset restart b.runtime with ⟨_ | _ | _, s⟩ <;>
            rw [hcase] at hqueued
          · have hdropped := leaves_of_dropped .default rfl h
              (hsafe ⟨by simpa using hpending, reset_retires hcase⟩)
              (x := BrowserRuntime.reset restart) BrowserRuntime.reset_carriedBy
            rwa [hcase] at hdropped
          · exact hqueued
          · exact hqueued
  | coldReset restart =>
      have hqueued := leaves_of_queued h (x := BrowserRuntime.coldReset restart)
        BrowserRuntime.coldReset_carriedBy
      rw [perform]
      rcases hcase : BrowserRuntime.coldReset restart b.runtime with ⟨_ | _ | _, s⟩ <;>
        rw [hcase] at hqueued
      · have hdropped := leaves_of_dropped .default rfl h
          (hsafe (coldReset_retires hcase)) (x := BrowserRuntime.coldReset restart)
          BrowserRuntime.coldReset_carriedBy
        rwa [hcase] at hdropped
      · exact hqueued
      · exact hqueued
  | run turn ticks ns => exact runCpuOnce_leaves turn ticks ns h

theorem safeRun_init {calls : List CarrierCall} {call : CarrierCall}
    (h : SafeRun b (calls ++ [call])) : SafeRun b calls := by
  intro before first after heq
  refine h before first (after ++ [call]) ?_
  rw [heq, List.append_assoc, List.cons_append]

theorem performAll_leaves {calls : List CarrierCall} (h : Leaves up b) (hsafe : SafeRun b calls) :
    Leaves (latest up calls) (performAll b calls) := by
  induction calls using List.reverseRecOn with
  | nil => exact h
  | append_singleton calls call ih =>
      have hbefore := ih (safeRun_init hsafe)
      have hcall : call.Safe (performAll b calls) := hsafe calls call [] rfl
      rw [performAll, latest, List.foldl_append, List.foldl_append]
      exact perform_leaves call hbefore hcall

end Calls

/-- Wherever the guest runs in these calls, the device has the carrier that was set last. -/
def CarrierHolds (up : Bool) (b : Browser ε π) (calls : List CarrierCall) : Prop :=
  ∀ before after turn ticks ns r fed, calls = before ++ .run turn ticks ns :: after →
    (CarrierCall.performAll b before).runtime.state = .running r →
    deliverInput turn { running := r, queue := (CarrierCall.performAll b before).queue } =
      (.ok (), fed) →
    fed.running.carrier = some (CarrierCall.latest up before)

/-- In a run whose halts and resets find no carrier waiting, the guest runs with the carrier
that the host has set last. -/
theorem carrier_survives {up : Bool} {b : Browser ε π} {calls : List CarrierCall}
    (hstart : Leaves up b) (hsafe : CarrierCall.SafeRun b calls) : CarrierHolds up b calls := by
  intro before after turn ticks ns r fed hcalls hr hinput
  have hbefore : CarrierCall.SafeRun b before := by
    intro first call rest heq
    refine hsafe first call (rest ++ .run turn ticks ns :: after) ?_
    rw [hcalls, heq, List.append_assoc, List.cons_append]
  exact (delivered_carrier (performAll_leaves hstart hbefore) hr hinput).1

/-! ## A carrier that a boot drops -/

/-- A machine with a network device, halted before its first boot. -/
def linked : Browser Unit Empty where
  runtime := .performAll .default
    [.prepareResolved bareAssembly { bareStart with hasNetwork := true }
      { bareConfig with networks := 1 }]
  queue := .default

def seeded : Restart := ⟨true, none, true, none, []⟩

/-- A turn in which the guest does nothing. -/
def idleTurn : CpuTurn where
  timer := none
  fuel := 1
  receiveSpace := 16
  accesses := []
  consumed := 1
  reason := .cycleLimitReached
  uart := []
  redraw := []
  redrawError := none
  wfiSleeping := false
  timerAfter := none
  restart := seeded

theorem safeRun_nil (b : Browser ε π) : CarrierCall.SafeRun b [] :=
  fun before _ _ heq => absurd heq (by simp)

theorem safeRun_cons {b : Browser ε π} {call : CarrierCall} {calls : List CarrierCall}
    (hcall : call.Safe b) (h : CarrierCall.SafeRun (call.perform b) calls) :
    CarrierCall.SafeRun b (call :: calls) := by
  intro before other after heq
  cases before with
  | nil =>
    obtain ⟨rfl, _⟩ := List.cons.inj heq
    exact hcall
  | cons first before =>
    obtain ⟨rfl, hrest⟩ := List.cons.inj heq
    exact h before other after hrest

theorem carrier_survives_linked :
    CarrierHolds false linked [.reset false seeded, .networkCarrier true, .run idleTurn 0 0] := by
  apply carrier_survives
  · exact leaves_of_carrierOf (by decide +kernel) rfl
  · refine safeRun_cons (fun _ _ _ _ _ => rfl) ?_
    exact safeRun_cons False.elim (safeRun_cons False.elim (safeRun_nil _))

/-- The carrier with which the guest would run now, if the input is delivered. -/
def presented (turn : CpuTurn) (b : Browser ε π) : Option (Option Bool) :=
  match b.runtime.state with
  | .running r =>
    match deliverInput turn { running := r, queue := b.queue } with
    | (.ok _, fed) => some fed.running.carrier
    | _ => none
  | _ => none

theorem not_holds_of_presented {up c : Bool} {b : Browser ε π} (before : List CarrierCall)
    {turn : CpuTurn} (h : presented turn (CarrierCall.performAll b before) = some (some c))
    (hne : CarrierCall.latest up before ≠ c) (ticks ns : Nat) :
    ¬ CarrierHolds up b (before ++ [.run turn ticks ns]) := by
  intro hholds
  unfold presented at h
  split at h
  · next r hr =>
      split at h
      · next fed hinput =>
          have hcarrier := hholds before [] turn ticks ns r fed rfl hr hinput
          rw [Option.some.inj h] at hcarrier
          exact hne (Option.some.inj hcarrier).symm
      · simp at h
  · simp at h

/-- The transport connects before the boot, and the guest runs without a carrier. -/
theorem boot_drops_carrier : Leaves false linked ∧ ¬ CarrierHolds false linked
    [.networkCarrier true, .reset false seeded, .run idleTurn 0 0] := by
  refine ⟨leaves_of_carrierOf (by decide +kernel) rfl, ?_⟩
  exact not_holds_of_presented (c := false) [.networkCarrier true, .reset false seeded]
    (by decide +kernel) (by decide) 0 0

end Runtime
end Riscbox
