import Riscbox.Runtime.Assembled
import Riscbox.Runtime.Steps

/-!
# What a failed call leaves

A call that starts, stops or disposes of a machine, and a call on its disks, may fail.
The machine and its disks are then still there, unless the call was to restart it.
-/

namespace Riscbox
namespace Runtime

open Virtio
open Storage (BlockStore Geometry Overlay)

variable {ε π α : Type}

/-! ## Slots of disks -/

/-- Each of the slots has a disk. -/
def HoldsDisks (slots : List Nat) (m : Machine ε π) : Prop :=
  ∀ slot ∈ slots, ∃ mmio, m.virtio[slot]? = some (.storageBlock mmio)

theorem HoldsDisks.alike {slots : List Nat} {m m' : Machine ε π} {C : Bool → Bool → Prop}
    {Q : BlockDevice BlockStore → BlockDevice BlockStore → Prop} (h : HoldsDisks slots m)
    (halike : m.Alike (SlotChange C Q) m') : HoldsDisks slots m' := by
  intro slot hslot
  obtain ⟨mmio, hmmio⟩ := h slot hslot
  obtain ⟨d, hd, hchange⟩ := halike.slots slot _ hmmio
  cases hchange with
  | storageBlock _ => exact ⟨_, hd⟩

section Changes

variable {C : Bool → Bool → Prop} {Q : BlockDevice BlockStore → BlockDevice BlockStore → Prop}

theorem slotChange_trans (hC : ∀ a b c, C a b → C b c → C a c)
    (hQ : ∀ a b c, Q a b → Q b c → Q a c) {d e f : VirtioSlot ε π} (h : SlotChange C Q d e)
    (h' : SlotChange C Q e f) : SlotChange C Q d f := by
  cases h with
  | storageBlock h =>
    cases h' with
    | storageBlock h' => exact .storageBlock (hQ _ _ _ h h')
  | network h =>
    cases h' with
    | network h' => exact .network (hC _ _ _ h h')
  | console => cases h'; constructor
  | nineP => cases h'; constructor
  | input => cases h'; constructor
  | entropy => cases h'; constructor

/-- An operation on the store behind a disk changes no other device. -/
theorem withStorage_slotChange (hC : ∀ up, C up up) (slot : Nat)
    (operation : BlockStore → α × BlockStore) (m : Machine ε π) :
    m.Alike (SlotChange C fun _ _ => True) (Machine.withStorage slot operation m).2 := by
  have hrefl := SlotChange.refl (ε := ε) (π := π) hC (Q := fun _ _ => True) fun _ => trivial
  unfold Machine.withStorage
  split
  · next mmio hmmio =>
      exact Machine.alike_put hrefl _ (Machine.storage_eq_ok hmmio) (.storageBlock trivial)
  · exact Machine.alike_of_same hrefl rfl
  · exact Machine.alike_of_same hrefl rfl

end Changes

/-- The same devices, in whatever state. -/
abbrev AnyChange : VirtioSlot ε π → VirtioSlot ε π → Prop :=
  SlotChange (fun _ _ => True) fun _ _ => True

theorem AnyChange.refl (d : VirtioSlot ε π) : AnyChange d d :=
  SlotChange.refl (fun _ => trivial) (fun _ => trivial) d

theorem AnyChange.trans (d e f : VirtioSlot ε π) (h : AnyChange d e) (h' : AnyChange e f) :
    AnyChange d f :=
  slotChange_trans (fun _ _ _ _ _ => trivial) (fun _ _ _ _ _ => trivial) h h'

theorem diskRules_any : DiskRules fun _ _ => True :=
  ⟨fun _ => trivial, fun _ _ _ => trivial, fun _ => trivial⟩

theorem withStorage_alike (slot : Nat) (operation : BlockStore → α × BlockStore)
    (m : Machine ε π) : m.Alike AnyChange (Machine.withStorage slot operation m).2 :=
  withStorage_slotChange (fun _ => trivial) slot operation m

theorem resumeGuest_alike {slot : Nat} {m : Machine ε π} {d : VirtioSlot ε π}
    {served : VirtioSlot.Served ε π} (hd : m.virtio[slot]? = some d)
    (h : AnyChange d served.2.1) : m.Alike AnyChange (Machine.resumeGuest slot served m).2 := by
  have hput := Machine.alike_put AnyChange.refl served.2.2 hd h
  rw [← Machine.conclude_snd] at hput
  exact hput.trans AnyChange.trans
    (Machine.alike_of_same AnyChange.refl (Machine.noteAttempt_virtio slot _))

theorem completeHttpBlockRequest_alike (fuel slot request : Nat) (data : Option (List UInt8))
    (resume : Bool) : Op.Along (Machine.Alike AnyChange)
      (Machine.completeHttpBlockRequest fuel slot request data resume : MachineOp ε π Unit) := by
  have hsame : ∀ m : Machine ε π, m.Alike AnyChange m := fun m =>
    Machine.alike_of_same AnyChange.refl rfl
  have htrans : ∀ m n o : Machine ε π, m.Alike AnyChange n → n.Alike AnyChange o →
      m.Alike AnyChange o := fun _ _ _ h h' => h.trans AnyChange.trans h'
  have hstore : Op.Along (Machine.Alike AnyChange)
      (Machine.withStorage slot (BlockStore.complete request data) : MachineOp ε π _) :=
    fun m => withStorage_alike slot _ m
  unfold Machine.completeHttpBlockRequest
  refine hstore.bind htrans fun ending => ?_
  split
  · exact Op.along_pure hsame _
  · exact Op.along_fail hsame _
  · exact fun m => hsame m
  · split
    · intro m
      rw [Op.bind_apply, Op.get_apply]
      dsimp only
      rw [Op.bind_apply, Op.lift_apply]
      rcases hmmio : m.storage slot with mmio | e | _
      · exact resumeGuest_alike (Machine.storage_eq_ok hmmio) (.storageBlock trivial)
      · exact hsame m
      · exact hsame m
    · exact Op.along_pure hsame _

theorem HoldsDisks.grown {slots : List Nat} {m m' : Machine ε π} (h : HoldsDisks slots m)
    (hgrown : m.virtio <+: m'.virtio) : HoldsDisks slots m' := by
  intro slot hslot
  obtain ⟨mmio, hmmio⟩ := h slot hslot
  obtain ⟨more, hmore⟩ := hgrown
  refine ⟨mmio, ?_⟩
  rw [← hmore, List.getElem?_append_left (List.getElem?_eq_some_iff.mp hmmio).1]
  exact hmmio

/-- Devices have been added to the slots. -/
def Extends (m m' : Machine ε π) : Prop := m.virtio <+: m'.virtio

theorem Extends.refl (m : Machine ε π) : Extends m m := List.prefix_rfl

theorem Extends.trans (m n o : Machine ε π) (h : Extends m n) (h' : Extends n o) :
    Extends m o := List.IsPrefix.trans h h'

theorem Extends.of_along {β ρ : Type} {x : Op (Machine ε π) ρ β} (h : Op.Along Extends x)
    {m m' : Machine ε π} {ending : Outcome ρ β} (heq : x m = (ending, m')) : Extends m m' := by
  have hstep := h m
  rwa [heq] at hstep

theorem addVirtio_extends (d : VirtioSlot ε π) :
    Op.Along Extends (ofMachine (Machine.addVirtio d)) := by
  intro m
  rw [ofMachine_snd]
  unfold Machine.addVirtio
  split
  · exact Extends.refl m
  · exact List.prefix_append _ _

namespace BrowserRuntime

/-- The drives of the machine, if there is one, have their disks. -/
def Slotted (s : BrowserRuntime ε π) : Prop :=
  ∀ r, s.state = .running r ∨ s.state = .halted r → HoldsDisks r.blockSlots r.machine

/-- The machine of a runtime that has been given one back is that machine. -/
theorem forall_restore {P : Running ε π → Prop} {halted : Bool} {s : BrowserRuntime ε π}
    {r : Running ε π} : (∀ r', (s.restore halted r).state = .running r' ∨
      (s.restore halted r).state = .halted r' → P r') ↔ P r := by
  unfold restore
  cases halted with
  | false =>
    exact ⟨fun h => h r (.inl rfl), fun h r' hr' =>
      hr'.elim (fun heq => State.running.inj heq ▸ h) fun heq => by simp at heq⟩
  | true =>
    exact ⟨fun h => h r (.inr rfl), fun h r' hr' =>
      hr'.elim (fun heq => by simp at heq) fun heq => State.halted.inj heq ▸ h⟩

theorem slotted_restore {halted : Bool} {s : BrowserRuntime ε π} {r : Running ε π} :
    (s.restore halted r).Slotted ↔ HoldsDisks r.blockSlots r.machine :=
  forall_restore (P := fun r => HoldsDisks r.blockSlots r.machine)

theorem slotted_of_none {s : BrowserRuntime ε π} (h : ∀ r, s.state ≠ .running r ∧ s.state ≠ .halted r) :
    s.Slotted := fun r hr => hr.elim (fun heq => absurd heq (h r).1) fun heq => absurd heq (h r).2

theorem slotted_of_same {s t : BrowserRuntime ε π} (h : s.Slotted) (heq : t.state = s.state) :
    t.Slotted := by
  intro r hr
  rw [heq] at hr
  exact h r hr

end BrowserRuntime

/-! ## Assembly -/

namespace BrowserRuntime

theorem addFilesystems_extends (env : Assembly ε π) (trees : BTreeMap String Nat)
    (filesystems : List FilesystemConfig) :
    Op.Along Extends (addFilesystems env trees filesystems) := by
  induction filesystems with
  | nil => exact Op.along_pure Extends.refl _
  | cons filesystem rest ih =>
      rw [addFilesystems]
      split
      · exact fun m => Extends.refl m
      · split
        · exact fun m => Extends.refl m
        · exact (addVirtio_extends _).bind Extends.trans fun _ => ih

theorem addConsole_extends (config : VmConfig) :
    Op.Along Extends (addConsole config : Op (Machine ε π) (Failure RuntimeError) _) := by
  unfold addConsole
  split
  · exact (addVirtio_extends _).bind Extends.trans fun _ => Op.along_pure Extends.refl _
  · exact Op.along_pure Extends.refl _

theorem addNetwork_extends (env : Assembly ε π) (loading : Loading) :
    Op.Along Extends (addNetwork env loading) := by
  unfold addNetwork
  split
  · split
    · exact fun m => Extends.refl m
    · exact (addVirtio_extends _).bind Extends.trans fun _ => Op.along_pure Extends.refl _
  · exact Op.along_pure Extends.refl _

theorem addInputs_extends (config : VmConfig) :
    Op.Along Extends (addInputs config : Op (Machine ε π) (Failure RuntimeError) _) := by
  unfold addInputs
  split
  · exact (addVirtio_extends _).bind Extends.trans fun _ =>
      (addVirtio_extends _).bind Extends.trans fun _ => Op.along_pure Extends.refl _
  · exact Op.along_pure Extends.refl _

theorem addPower_extends (inputs : Option (Nat × Nat)) :
    Op.Along Extends (addPower inputs : Op (Machine ε π) (Failure RuntimeError) _) := by
  unfold addPower
  split
  · exact Op.along_pure Extends.refl _
  · exact addVirtio_extends _

theorem loadBootAt_extends (load : BootLoad) :
    Op.Along Extends (ofMachine (Machine.loadBootAt load : MachineOp ε π Unit)) := by
  intro m
  rw [ofMachine_snd]
  unfold Machine.loadBootAt
  split
  · exact Extends.refl m
  · split
    · exact Extends.refl m
    · split <;> exact List.prefix_rfl

/-- Each drive of an assembled machine has a disk in its slot. -/
theorem assemble_holdsDisks {env : Assembly ε π} {trees : BTreeMap String Nat}
    {loading : Loading} {slots : Slots} {fresh machine : Machine ε π} (hfresh : fresh.virtio = [])
    (h : assemble env trees loading fresh = (.ok slots, machine)) :
    HoldsDisks slots.blockSlots machine := by
  have hplan : Plan [] fresh := by
    refine ⟨List.nodup_nil, fun slot hslot => absurd hslot List.not_mem_nil, fun slot mmio hmmio => ?_⟩
    rw [hfresh] at hmmio
    simp at hmmio
  obtain ⟨drives, m₁, hdrives, h⟩ := Op.bind_eq_ok h
  obtain ⟨_, m₂, htrees, h⟩ := Op.bind_eq_ok h
  obtain ⟨console, m₃, hconsole, h⟩ := Op.bind_eq_ok h
  obtain ⟨network, m₄, hnetwork, h⟩ := Op.bind_eq_ok h
  obtain ⟨inputs, m₅, hinputs, h⟩ := Op.bind_eq_ok h
  obtain ⟨entropy, m₆, hentropy, h⟩ := Op.bind_eq_ok h
  obtain ⟨power, m₇, hpower, h⟩ := Op.bind_eq_ok h
  obtain ⟨_, m₈, hload, h⟩ := Op.bind_eq_ok h
  have hslots : slots.blockSlots = drives := by
    rw [← Outcome.ok.inj (congrArg Prod.fst h)]
  have hmachine : m₈ = machine := congrArg Prod.snd h
  have hheld : HoldsDisks drives m₁ := (addDrives_plan env _ hplan hdrives).1.storage
  have e₂ : Extends m₁ m₂ := Extends.of_along (addFilesystems_extends env trees _) htrees
  have e₃ : Extends m₂ m₃ := Extends.of_along (addConsole_extends _) hconsole
  have e₄ : Extends m₃ m₄ := Extends.of_along (addNetwork_extends env loading) hnetwork
  have e₅ : Extends m₄ m₅ := Extends.of_along (addInputs_extends _) hinputs
  have e₆ : Extends m₅ m₆ := Extends.of_along (addVirtio_extends _) hentropy
  have e₇ : Extends m₆ m₇ := Extends.of_along (addPower_extends inputs) hpower
  have e₈ : Extends m₇ m₈ := Extends.of_along (loadBootAt_extends env.load) hload
  rw [hslots, ← hmachine]
  exact ((((((hheld.grown e₂).grown e₃).grown e₄).grown e₅).grown e₆).grown e₇).grown e₈

/-! ## Requests -/

theorem pumpSlot_ok (index : Nat) {slot : Nat} {slots : List Nat} (fuel : Nat) {p : Pump ε π}
    (h : HoldsDisks slots p.running.machine) (hslot : slot ∈ slots) :
    ∃ p', pumpSlot index slot fuel p = (.ok (), p') ∧ HoldsDisks slots p'.running.machine := by
  induction fuel generalizing p with
  | zero => exact ⟨p, rfl, h⟩
  | succ fuel ih =>
      obtain ⟨mmio, hmmio⟩ := h slot hslot
      have hstorage := Machine.storage_of_slot hmmio
      have hnext := nextHttpBlockRequest_of_storage hstorage
      have halike := withStorage_alike slot BlockStore.nextRequest p.running.machine
      rw [show Machine.withStorage slot BlockStore.nextRequest p.running.machine = _ from hnext]
        at halike
      rw [pumpSlot]
      dsimp only
      rw [hstorage, ofMachine, Op.mapError, hnext]
      dsimp only
      cases hrequest : mmio.device.backend.nextRequest.1 with
      | none => exact ⟨_, rfl, h.alike halike⟩
      | some request =>
        obtain ⟨p', hp', hheld⟩ := ih (p := Pump.issue index slot mmio.device.backend request
          { p with running := { p.running with machine := _ } }) (h.alike halike)
        exact ⟨p', hp', hheld⟩

theorem pumpSlots_ok {all : List Nat} (slots : List Nat) (index : Nat) {p : Pump ε π}
    (h : HoldsDisks all p.running.machine) (hslots : slots ⊆ all) :
    ∃ p', pumpSlots index slots p = (.ok (), p') := by
  induction slots generalizing index p with
  | nil => exact ⟨p, rfl⟩
  | cons slot rest ih =>
      rw [pumpSlots]
      dsimp only
      obtain ⟨p', hp', hheld⟩ := pumpSlot_ok index _ h (hslots List.mem_cons_self)
      rw [Op.bind_ok hp']
      exact ih (index + 1) hheld fun x hx => hslots (List.mem_cons_of_mem _ hx)

/-- With a disk in every slot of a drive the pump does not fail. -/
theorem pumpHttpRequests_ok {s : BrowserRuntime ε π} (h : s.Slotted) :
    (pumpHttpRequests s).1 = .ok () := by
  unfold pumpHttpRequests
  split
  · next r hs =>
      obtain ⟨p', hp'⟩ := pumpSlots_ok (p := ⟨r, { s with state := .vmInactive }⟩) r.blockSlots 0
        (h r (.inl hs)) (List.Subset.refl _)
      unfold pumpRunning
      rw [hp']
  · next r hs =>
      obtain ⟨p', hp'⟩ := pumpSlots_ok (p := ⟨r, { s with state := .vmInactive }⟩) r.blockSlots 0
        (h r (.inr hs)) (List.Subset.refl _)
      unfold pumpRunning
      rw [hp']
  · rfl

end BrowserRuntime

/-! ## Disks over runs -/

section Runs

variable [EntropySource ε] [NinePEndpoint π]

theorem resetDevices_alike {R : VirtioSlot ε π → VirtioSlot ε π → Prop} (hR : ∀ d, R d d.reset)
    (m : Machine ε π) : m.Alike R m.resetDevices := by
  refine ⟨List.length_map _, fun i d hd => ⟨d.reset, ?_, hR d⟩⟩
  show (m.virtio.map VirtioSlot.reset)[i]? = some d.reset
  rw [List.getElem?_map, hd]
  rfl

theorem SlotChange.reset {C : Bool → Bool → Prop}
    {Q : BlockDevice BlockStore → BlockDevice BlockStore → Prop} (hC : ∀ up, C up up)
    (hQ : ∀ d, Q d d.reset) (d : VirtioSlot ε π) : SlotChange C Q d d.reset := by
  cases d with
  | storageBlock mmio => exact .storageBlock (hQ _)
  | console mmio => exact .console _ _
  | network mmio => exact .network (hC _)
  | nineP mmio => exact .nineP _ _
  | input mmio => exact .input _ _
  | entropy mmio => exact .entropy _ _

namespace BrowserRuntime

/-- No step takes a disk out of its slot. -/
theorem slotted_step {A : Leave} (s t : BrowserRuntime ε π) (h : Step A s t) (hs : s.Slotted) :
    t.Slotted := by
  cases h with
  | guest s r m' h =>
      rw [slotted_restore] at hs ⊢
      exact hs.alike (h.alike diskRules_any)
  | host halted s r m' h =>
      rw [slotted_restore] at hs ⊢
      exact hs.alike (h.alike diskRules_any)
  | presented s r ticks ns =>
      rw [slotted_restore] at hs ⊢
      exact hs
  | executed s r =>
      rw [slotted_restore] at hs ⊢
      exact hs
  | operate s r slot op m' h =>
      rw [slotted_restore] at hs ⊢
      exact hs.alike (congrArg Prod.snd h ▸ withStorage_alike slot _ r.machine)
  | discard s r slot m' h =>
      rw [slotted_restore] at hs ⊢
      exact hs.alike (congrArg Prod.snd h ▸ withStorage_alike slot _ r.machine)
  | polled halted s r slot m' h =>
      rw [slotted_restore] at hs ⊢
      exact hs.alike (congrArg Prod.snd h ▸ withStorage_alike slot _ r.machine)
  | issue halted s r index slot mmio request m' _ h =>
      rw [slotted_restore] at hs
      refine slotted_restore.mpr ?_
      exact hs.alike (congrArg Prod.snd h ▸ withStorage_alike slot _ r.machine)
  | respond halted s r id fuel pending data _ =>
      rw [slotted_restore] at hs ⊢
      exact hs.alike (completeHttpBlockRequest_alike fuel _ _ data _ r.machine)
  | restart halted halted' s r =>
      rw [slotted_restore] at hs ⊢
      exact hs.alike (resetDevices_alike
        (SlotChange.reset (fun _ => trivial) fun _ => trivial : ∀ d, AnyChange d d.reset) r.machine)
  | forget _ halted s r =>
      rw [slotted_restore] at hs ⊢
      exact hs
  | lose => exact slotted_of_none fun r => ⟨nofun, nofun⟩
  | booted halted s env loading trees slots fresh machine hfresh _ h =>
      rw [slotted_restore]
      exact assemble_holdsDisks hfresh h
  | ask => exact slotted_of_none fun r => ⟨nofun, nofun⟩
  | next => exact slotted_of_none fun r => ⟨nofun, nofun⟩
  | answer => exact slotted_of_none fun r => ⟨nofun, nofun⟩
  | late => exact slotted_of_same hs rfl
  | cancel => exact slotted_of_none fun r => ⟨nofun, nofun⟩
  | quit => exact slotted_of_none fun r => ⟨nofun, nofun⟩
  | actions => exact slotted_of_same hs rfl
  | trees => exact slotted_of_same hs rfl
  | auto => exact slotted_of_same hs rfl
  | clock => exact slotted_of_same hs rfl

/-- A state that a run passes through, between its calls or within one. -/
def Visited (s : BrowserRuntime ε π) : Prop :=
  ∃ start : BrowserRuntime ε π, start.Reached ∧ Steps .all start s

theorem Reached.visited {s : BrowserRuntime ε π} (h : s.Reached) : s.Visited := ⟨s, h, .refl⟩

theorem Visited.slotted {s : BrowserRuntime ε π} (h : s.Visited) : s.Slotted := by
  obtain ⟨start, hstart, hsteps⟩ := h
  refine steps_rule slotted_step hsteps (hstart.rule ?_ slotted_step)
  exact slotted_of_none fun r => ⟨nofun, nofun⟩

end BrowserRuntime

end Runs

/-! ## The machine that a call keeps -/

/-- What would be lost with a disk: the bytes of an array, or the overlays on the chunks that
its manifest gives. -/
def kept : BlockStore → List UInt8 ⊕ (String × Geometry × BTreeMap Nat Overlay)
  | .array bytes => .inl bytes
  | .http store => .inr (store.baseUrl, store.geometry, store.overlays)

def SameDisk (a b : BlockDevice BlockStore) : Prop :=
  b.id = a.id ∧ kept b.backend = kept a.backend

theorem SameDisk.refl (a : BlockDevice BlockStore) : SameDisk a a := ⟨rfl, rfl⟩

/-- The same devices, with what is kept on the disks. -/
abbrev DiskKept : VirtioSlot ε π → VirtioSlot ε π → Prop := SlotChange (fun _ _ => True) SameDisk

theorem DiskKept.refl (d : VirtioSlot ε π) : DiskKept d d :=
  SlotChange.refl (fun _ => trivial) SameDisk.refl d

theorem DiskKept.trans (d e f : VirtioSlot ε π) (h : DiskKept d e) (h' : DiskKept e f) :
    DiskKept d f :=
  slotChange_trans (fun _ _ _ _ _ => trivial)
    (fun _ _ _ h h' => ⟨h'.1.trans h.1, h'.2.trans h.2⟩) h h'

/-- One machine at two times: its slots, its disks and its boot images are the same, its
memory, its registers and the requests under way may differ. -/
structure SameVm (r r' : Running ε π) : Prop where
  machine : r.machine.Alike DiskKept r'.machine
  ramSize : r'.machine.ramSize = r.machine.ramSize
  rest : r' = { r with machine := r'.machine, pendingHttp := r'.pendingHttp }

/-- Running stays running, and halted stays halted, with the machine. -/
inductive SameState : State ε π → State ε π → Prop
  | same (state : State ε π) : SameState state state
  | running {r r' : Running ε π} (h : SameVm r r') : SameState (.running r) (.running r')
  | halted {r r' : Running ε π} (h : SameVm r r') : SameState (.halted r) (.halted r')

/-- The runtime has the machine, the disks and the shared trees that it had. -/
def Keeps (s s' : BrowserRuntime ε π) : Prop :=
  SameState s.state s'.state ∧ s'.filesystems = s.filesystems

theorem Keeps.refl (s : BrowserRuntime ε π) : Keeps s s := ⟨.same _, rfl⟩

/-- A refusal changes nothing. -/
theorem Keeps.of_same {s s' : BrowserRuntime ε π}
    {ending other : Outcome (Failure RuntimeError) Unit} (h : (ending, s) = (other, s')) :
    Keeps s s' := by
  rw [← show s = s' from congrArg Prod.snd h]
  exact Keeps.refl s

theorem Keeps.isHalted {s s' : BrowserRuntime ε π} (h : Keeps s s') : s'.isHalted = s.isHalted := by
  unfold BrowserRuntime.isHalted
  have hstate := h.1
  cases hs : s.state <;> cases hs' : s'.state <;> rw [hs, hs'] at hstate <;> cases hstate

theorem collectOutput_running (turn : CpuTurn) (r : Running ε π) (s : BrowserRuntime ε π) :
    (BrowserRuntime.collectOutput turn r s).2.isRunning = true := by
  unfold BrowserRuntime.collectOutput
  dsimp only
  split
  · split <;> rfl
  · rfl
  · rfl

/-! ## Calls that refuse -/

/-- The machine apart from its memory, its registers and the contents of its requests. -/
def Untouched (m m' : Machine ε π) : Prop :=
  m.Alike DiskKept m' ∧ m'.ramSize = m.ramSize

theorem Untouched.refl (m : Machine ε π) : Untouched m m :=
  ⟨Machine.alike_of_same DiskKept.refl rfl, rfl⟩

theorem Untouched.trans (m n o : Machine ε π) (h : Untouched m n) (h' : Untouched n o) :
    Untouched m o := ⟨h.1.trans DiskKept.trans h'.1, h'.2.trans h.2⟩

variable [EntropySource ε] [NinePEndpoint π]

theorem Untouched.step {K : Bool → Prop} {m m' : Machine ε π} (h : MachineStep K False m m') :
    Untouched m m' := by
  cases h with
  | write hguest => exact hguest.elim
  | host slot d d' memory _ hd hchange =>
      refine ⟨Machine.alike_put DiskKept.refl _ hd ?_, rfl⟩
      exact hchange.mono (fun _ _ _ => trivial) fun _ _ h => absurd h not_false
  | memory memory => exact ⟨Machine.alike_of_same DiskKept.refl rfl, rfl⟩
  | finisher status => exact ⟨Machine.alike_of_same DiskKept.refl rfl, rfl⟩
  | clocks ticks ns => exact ⟨Machine.alike_of_same DiskKept.refl rfl, rfl⟩

/-- What the host does to a machine, its disks apart, leaves them alone. -/
theorem Untouched.steps {K : Bool → Prop} {m m' : Machine ε π} (h : MachineSteps K False m m') :
    Untouched m m' := by
  induction h with
  | refl => exact Untouched.refl m
  | tail _ hlast ih => exact Untouched.trans _ _ _ ih (Untouched.step hlast)

theorem Untouched.along {x : MachineOp ε π α}
    (h : Op.Along (MachineSteps (fun _ => True) False) x) : Op.Along Untouched x :=
  fun m => Untouched.steps (h m)

/-- What a restart needs: the CPU, boot images that pass their checks, a seed for the device
tree, and a place for the tree. -/
def Restart.Boots (restart : Restart) : Prop :=
  restart.allocated = true ∧ restart.load.images = none ∧ restart.load.seed = true ∧
    restart.load.tree = none

/-- A restart of the machine succeeds exactly if it has what it needs. -/
theorem restart_cases (restart : Restart) (m : Machine ε π) :
    (restart.Boots ∧ ∃ m', (Machine.reset restart.allocated >>= fun _ =>
      Machine.loadBootAt restart.load) m = (.ok (), m')) ∨
    (¬ restart.Boots ∧ ∃ e m', (Machine.reset restart.allocated >>= fun _ =>
      Machine.loadBootAt restart.load) m = (.err e, m')) := by
  unfold Restart.Boots
  by_cases hallocated : restart.allocated = false
  · refine .inr ⟨fun h => ?_, .error .coreAllocation, m, ?_⟩
    · rw [hallocated] at h
      exact Bool.false_ne_true h.1
    · rw [Op.bind_apply, Machine.reset, if_pos hallocated]
  · have hreset : Machine.reset restart.allocated m = (.ok (), m.resetDevices) := by
      unfold Machine.reset
      rw [if_neg hallocated]
    rw [Op.bind_ok hreset]
    unfold Machine.loadBootAt
    cases himages : restart.load.images with
    | some e => exact .inr ⟨fun h => by simp at h, _, _, rfl⟩
    | none =>
      cases hseed : restart.load.seed with
      | false => exact .inr ⟨fun h => by simp at h, _, _, rfl⟩
      | true =>
        cases htree : restart.load.tree with
        | some e => exact .inr ⟨fun h => by simp at h, _, _, rfl⟩
        | none => exact .inl ⟨⟨by simpa using hallocated, rfl, rfl, rfl⟩, _, rfl⟩

namespace BrowserRuntime

theorem restartMachine_err {restart : Restart} (hnot : ¬ restart.Boots) (cause : LifecycleCause)
    (r : Running ε π) (s : BrowserRuntime ε π) :
    ∃ e s', restartMachine restart cause r s = (.err e, s') ∧ s'.state = .vmInactive := by
  obtain ⟨hboots, _⟩ | ⟨_, e, m', herr⟩ := restart_cases restart r.machine
  · exact absurd hboots hnot
  · have hfailed : ∃ e', Running.onMachine (Machine.reset restart.allocated >>= fun _ =>
        Machine.loadBootAt restart.load) r.forgetHttp =
          (.err e', { r.forgetHttp with machine := m' }) := by
      unfold Running.onMachine ofMachine Op.mapError
      rw [show r.forgetHttp.machine = r.machine from rfl, herr]
      exact ⟨_, rfl⟩
    obtain ⟨e', hfailed⟩ := hfailed
    unfold restartMachine
    dsimp only
    rw [hfailed]
    exact ⟨e', _, rfl, rfl⟩

end BrowserRuntime

/-! ## The calls -/

/-- The calls that start, stop and dispose of a machine, the host's calls on its disks, and
the end of a CPU run, which restarts the machine where the guest asks for it. -/
inductive LifecycleCall where
  | halt
  | reset (restart : Restart)
  | coldReset (restart : Restart)
  | destroy
  | withDisk (id : Nat) (operation : BlockStore → BlockStore)
  | discardDiskChanges (id : Nat)
  | requestShutdown (fuel : Nat)
  | finish (turn : CpuTurn) (queue : BrowserInputQueue)

namespace LifecycleCall

def perform : LifecycleCall → RuntimeOp ε π Unit
  | .halt => BrowserRuntime.halt
  | .reset restart => BrowserRuntime.reset restart
  | .coldReset restart => BrowserRuntime.coldReset restart
  | .destroy => BrowserRuntime.destroy
  | .withDisk id operation => BrowserRuntime.withDisk id fun store => ((), operation store)
  | .discardDiskChanges id => BrowserRuntime.discardDiskChanges id
  | .requestShutdown fuel => BrowserRuntime.requestShutdown fuel
  | .finish turn queue => unanswered (withQueue queue (serveFinish turn))

end LifecycleCall

section Calls

variable {s s' : BrowserRuntime ε π} {e : Failure RuntimeError}

variable {call : LifecycleCall}

end Calls

theorem execute_running (turn : CpuTurn) (ticks ns : Nat) (r : Running ε π)
    (s : BrowserRuntime ε π) :
    (BrowserRuntime.execute turn ticks ns r s).2.isRunning = true := by
  unfold BrowserRuntime.execute
  dsimp only
  split
  · exact collectOutput_running turn _ _
  · rfl
  · rfl

theorem BrowserRuntime.Visited.steps {s t : BrowserRuntime ε π} (h : s.Visited)
    (hsteps : Steps .all s t) : t.Visited := by
  obtain ⟨start, hstart, hs⟩ := h
  exact ⟨start, hstart, hs.trans hsteps⟩

/-- A CPU run fails before its end with the machine still running, or it ends by serving the
finisher in a state of the run. -/
theorem runCpuOnce_ends (turn : CpuTurn) (ticks ns : Nat) {b : Browser ε π}
    (h : b.runtime.Visited) :
    (runCpuOnce turn ticks ns b).2.runtime.isRunning = b.runtime.isRunning ∨
      ∃ c : Browser ε π, c.runtime.Visited ∧ runCpuOnce turn ticks ns b = serveFinish turn c := by
  unfold runCpuOnce
  split
  · next r hs =>
      have hrunning : b.runtime.isRunning = true := by rw [BrowserRuntime.isRunning, hs]
      have hfed := deliverInput_steps (A := .all) (fun _ => trivial) turn
        { running := r, queue := b.queue } b.runtime
      rw [restore_running hs] at hfed
      dsimp only
      rcases hgiven : deliverInput turn { running := r, queue := b.queue } with ⟨ending, fed⟩
      rw [hgiven] at hfed
      rw [hrunning]
      cases ending with
      | ok _ =>
        let t := b.runtime.restore false fed.running
        have hexecuted : Steps .all t (BrowserRuntime.execute turn ticks ns fed.running t).2 :=
          execute_steps turn (trivial : Leave.all.ticks ticks) ns t fed.running
        have hvisited := (h.steps hfed).steps hexecuted
        have hstill := execute_running turn ticks ns fed.running t
        dsimp only
        rw [Op.bind_apply, onRuntime]
        dsimp only
        rcases hdone : BrowserRuntime.execute turn ticks ns fed.running t with ⟨_ | e | _, u⟩ <;>
          rw [hdone] at hvisited hstill
        · have hpump := BrowserRuntime.pumpHttpRequests_ok hvisited.slotted
          have hpumped := hvisited.steps (pumpHttpRequests_steps u)
          dsimp only
          rw [Op.bind_apply, onRuntime]
          dsimp only
          rcases hlast : BrowserRuntime.pumpHttpRequests u with ⟨ending, v⟩
          rw [hlast] at hpump hpumped
          obtain rfl : ending = .ok () := hpump
          exact .inr ⟨{ runtime := v, queue := fed.queue }, hpumped, rfl⟩
        · exact .inl hstill
        · exact .inl hstill
      | err e => exact .inl rfl
      | panic => exact .inl rfl
  · exact .inl rfl

/-! ## A halted machine that a failed boot loses -/

instance : EntropySource Unit where
  fill _ source := (none, source)

instance : NinePEndpoint Empty where
  reset := id
  submit _ _ endpoint := (none, endpoint)

def bareStart : RuntimeStart where
  configUrl := ""
  ramMib := 1
  commandLine := ""
  width := 0
  height := 0
  hasNetwork := false

/-- One drive in memory, and no boot images. -/
def bareConfig : VmConfig where
  bios := none
  kernel := none
  initrd := none
  addresses := ⟨none, none, none, none⟩
  commandLine := none
  console := .uart
  uartOutput := true
  drives := [.array 8]
  filesystems := []
  networks := 0
  display := none
  inputDevice := none

def bareAssembly : Assembly Unit Empty where
  config := .ok bareConfig
  parseValue := fun _ => none
  created := .ok []
  macSeed := true
  source := ()
  newTree := 0
  endpoint := fun _ => .error .notFound
  load := ⟨none, true, none, []⟩

def prepared : BrowserRuntime Unit Empty :=
  .performAll .default [.prepareResolved bareAssembly bareStart bareConfig]

end Runtime
end Riscbox
