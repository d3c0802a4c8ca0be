import Riscbox.Machine.Changes
import Riscbox.Runtime.Calls

/-!
# What calls do to the runtime

Every public call is a sequence of the steps below.  A fact about all runs of the runtime
is a fact about each of these steps.
-/

namespace Riscbox
namespace Runtime

open Virtio
open Storage (BlockStore)

variable {ε π α : Type}

open BrowserRuntime

/-! ## The machine of the runtime -/

theorem ofMachine_snd (x : MachineOp ε π α) (m : Machine ε π) : (ofMachine x m).2 = (x m).2 := by
  unfold ofMachine Op.mapError
  rcases x m with ⟨_ | _ | _, _⟩ <;> rfl

theorem onMachine_snd (x : MachineOp ε π α) (r : Running ε π) :
    (Running.onMachine x r).2 = { r with machine := (x r.machine).2 } := by
  show ({ r with machine := (ofMachine x r.machine).2 } : Running ε π) = _
  rw [ofMachine_snd]

theorem onMachine_bind (x : MachineOp ε π α) (y : MachineOp ε π Unit) (r : Running ε π)
    {a : α} {m : Machine ε π} (h : x r.machine = (.ok a, m)) :
    Running.onMachine (x >>= fun _ => y) r = Running.onMachine y { r with machine := m } := by
  unfold Running.onMachine ofMachine Op.mapError
  rw [Op.bind_ok h]

theorem restore_running {s : BrowserRuntime ε π} {r : Running ε π} (h : s.state = .running r) :
    s.restore false r = s := by
  cases s
  cases h
  rfl

theorem restore_halted {s : BrowserRuntime ε π} {r : Running ε π} (h : s.state = .halted r) :
    s.restore true r = s := by
  cases s
  cases h
  rfl

/-- What asking a disk for its next request gives. -/
theorem nextHttpBlockRequest_of_storage {m : Machine ε π} {slot : Nat}
    {mmio : VirtioMmioDevice (BlockDevice BlockStore)} (h : m.storage slot = .ok mmio) :
    Machine.nextHttpBlockRequest slot m =
      (.ok mmio.device.backend.nextRequest.1,
        m.put slot
          (.storageBlock (Machine.withBackend mmio.device.backend.nextRequest.2 mmio)) m.memory) := by
  unfold Machine.nextHttpBlockRequest Machine.withStorage
  rw [h]

/-! ## Steps -/

variable [EntropySource ε] [NinePEndpoint π]

/-- What the steps of a call may do beyond what every call may: the ticks that they
present, the carriers that they set, whether they touch the clock and the quantum, and
whether they forget requests without a reset of the devices. -/
structure Leave where
  ticks : Nat → Prop
  carriers : Bool → Prop
  clock : Prop
  forgets : Prop

namespace BrowserRuntime

/-- The request that loading waits for. -/
def awaited (runtime : BrowserRuntime ε π) : Option Nat :=
  match runtime.state with
  | .config _ requestId => some requestId
  | .loading loading => loading.waiting.map Prod.fst
  | _ => none

/-- The runtime while it has no machine and loads none. -/
def idle (runtime : BrowserRuntime ε π) : BrowserRuntime ε π := { runtime with state := .vmInactive }

end BrowserRuntime

inductive Step (A : Leave) : BrowserRuntime ε π → BrowserRuntime ε π → Prop
  | guest (s : BrowserRuntime ε π) (r : Running ε π) (m' : Machine ε π)
      (h : MachineStep A.carriers True r.machine m') :
      Step A (s.restore false r) (s.restore false { r with machine := m' })
  | host (halted : Bool) (s : BrowserRuntime ε π) (r : Running ε π) (m' : Machine ε π)
      (h : MachineStep A.carriers False r.machine m') :
      Step A (s.restore halted r) (s.restore halted { r with machine := m' })
  | presented (s : BrowserRuntime ε π) (r : Running ε π) (ticks ns : Nat) (h : A.ticks ticks) :
      Step A (s.restore false r)
        ((s.record (.presented ticks)).restore false
          { r with machine := r.machine.presentGuestClocks ticks ns })
  | executed (s : BrowserRuntime ε π) (r : Running ε π) :
      Step A (s.restore false r) ((s.record (.executed r.carrier)).restore false r)
  | operate (s : BrowserRuntime ε π) (r : Running ε π) (slot : Nat) (op : DiskOperation)
      (m' : Machine ε π)
      (h : Machine.withStorage slot (fun store => ((), op.perform store)) r.machine = (.ok (), m')) :
      Step A (s.restore true r) (s.restore true { r with machine := m' })
  | discard (s : BrowserRuntime ε π) (r : Running ε π) (slot : Nat) (m' : Machine ε π)
      (h : Machine.withStorage slot BlockStore.discardChanges r.machine = (.ok (.ok ()), m')) :
      Step A (s.restore true r)
        ((s.retire (r.requestsOf slot)).restore true ({ r with machine := m' }.withoutSlot slot))
  | polled (halted : Bool) (s : BrowserRuntime ε π) (r : Running ε π) (slot : Nat)
      (m' : Machine ε π) (h : Machine.nextHttpBlockRequest slot r.machine = (.ok none, m')) :
      Step A (s.restore halted r) (s.restore halted { r with machine := m' })
  | issue (halted : Bool) (s : BrowserRuntime ε π) (r : Running ε π) (index slot : Nat)
      (mmio : VirtioMmioDevice (BlockDevice BlockStore)) (request : Storage.HttpRequest)
      (m' : Machine ε π) (hmmio : r.machine.storage slot = .ok mmio)
      (h : Machine.nextHttpBlockRequest slot r.machine = (.ok (some request), m')) :
      Step A (s.restore halted r)
        (let pump := Pump.issue index slot mmio.device.backend request
          { running := { r with machine := m' }, runtime := s }
        pump.runtime.restore halted pump.running)
  | respond (halted : Bool) (s : BrowserRuntime ε π) (r : Running ε π) (id fuel : Nat)
      (pending : PendingHttp) (data : Option (List UInt8))
      (h : r.pendingHttp[id]? = some pending) :
      Step A (s.restore halted r)
        ((s.record (.answered id)).restore halted
          { r with
            machine := (Machine.completeHttpBlockRequest fuel pending.slot pending.request data
              (!halted) r.machine).2
            pendingHttp := r.pendingHttp.erase id })
  | restart (halted halted' : Bool) (s : BrowserRuntime ε π) (r : Running ε π) :
      Step A (s.restore halted r)
        ((s.retire r.pendingHttp.keys).restore halted' r.forgetHttp.resetDevices)
  | forget (hA : A.forgets) (halted : Bool) (s : BrowserRuntime ε π) (r : Running ε π) :
      Step A (s.restore halted r) ((s.retire r.pendingHttp.keys).restore halted r.forgetHttp)
  | lose (halted : Bool) (s : BrowserRuntime ε π) (r : Running ε π) :
      Step A (s.restore halted r) (s.idle.retire r.pendingHttp.keys)
  | booted (halted : Bool) (s : BrowserRuntime ε π) (env : Assembly ε π) (loading : Loading)
      (trees : BTreeMap String Nat) (slots : Slots) (fresh machine : Machine ε π)
      (hfresh : fresh.virtio = []) (hs : s.state = .vmInactive)
      (h : assemble env trees loading fresh = (.ok slots, machine)) :
      Step A s (s.restore halted (booted loading slots machine))
  | ask (s : BrowserRuntime ε π) (start : RuntimeStart) (hs : s.state = .vmInactive) :
      Step A s
        { (s.allocateRequest start.configUrl none).record (.issuedConfig s.nextRequestId) with
          state := .config start s.nextRequestId }
  | next (s : BrowserRuntime ε π) (loading : Loading) (kind : AssetKind) (url : String)
      (rest : List (AssetKind × String)) (hs : s.state = .vmInactive) :
      Step A s
        { (s.allocateRequest url none).record (.issued s.nextRequestId kind) with
          state := .loading
            { loading with assets := rest, waiting := some (s.nextRequestId, kind) } }
  | answer (s : BrowserRuntime ε π) (id : Nat) (h : s.awaited = some id) :
      Step A s (s.idle.record (.answered id))
  | late (s : BrowserRuntime ε π) (id : Nat) (h : s.retiredHttp.contains id = true) :
      Step A s ({ s with retiredHttp := s.retiredHttp.erase id }.record (.answered id))
  | cancel (s : BrowserRuntime ε π) (id : Nat) (h : s.awaited = some id) :
      Step A s (s.idle.retire [id])
  | quit (s : BrowserRuntime ε π) (loading : Loading) (hs : s.state = .loading loading)
      (h : s.awaited = none) : Step A s s.idle
  | actions (s : BrowserRuntime ε π) (actions : List HostAction) :
      Step A s { s with actions := actions }
  | trees (s : BrowserRuntime ε π) (filesystems : BTreeMap String Nat) :
      Step A s { s with filesystems := filesystems }
  | auto (s : BrowserRuntime ε π) (autoBoot : Bool) : Step A s { s with autoBoot := autoBoot }
  | clock (hA : A.clock) (s : BrowserRuntime ε π) (floor : Nat)
      (quantum : Option ActiveQuantum) (diagnostics : Bool) :
      Step A s
        { s with
          guestClockFloorTicks := floor, activeQuantum := quantum, diagnostics := diagnostics }

abbrev Steps (A : Leave) : BrowserRuntime ε π → BrowserRuntime ε π → Prop :=
  Relation.ReflTransGen (Step A)

variable {A : Leave}

theorem Steps.refl' (s : BrowserRuntime ε π) : Steps A s s := .refl

theorem Steps.trans' (s t u : BrowserRuntime ε π) (h : Steps A s t) (h' : Steps A t u) :
    Steps A s u := h.trans h'

/-! ## Calls on a machine that the runtime holds -/

/-- What a call on the machine of the runtime leads to. -/
def HeldSteps (A : Leave) (halted : Bool) (r r' : Running ε π) : Prop :=
  ∀ s : BrowserRuntime ε π, Steps A (s.restore halted r) (s.restore halted r')

theorem HeldSteps.refl (halted : Bool) (r : Running ε π) : HeldSteps A halted r r := fun _ => .refl

theorem HeldSteps.trans (halted : Bool) (r r' r'' : Running ε π) (h : HeldSteps A halted r r')
    (h' : HeldSteps A halted r' r'') : HeldSteps A halted r r'' := fun s => (h s).trans (h' s)

theorem HeldSteps.host {halted : Bool} {r : Running ε π} {m' : Machine ε π}
    (h : MachineSteps A.carriers False r.machine m') :
    HeldSteps A halted r { r with machine := m' } := by
  intro s
  induction h with
  | refl => exact .refl
  | tail _ hstep ih => exact ih.tail (.host halted s { r with machine := _ } _ hstep)

theorem HeldSteps.guest {r : Running ε π} {m' : Machine ε π}
    (h : MachineSteps A.carriers True r.machine m') :
    HeldSteps A false r { r with machine := m' } := by
  intro s
  induction h with
  | refl => exact .refl
  | tail _ hstep ih => exact ih.tail (.guest s { r with machine := _ } _ hstep)

theorem onMachine_host {halted : Bool} {x : MachineOp ε π α}
    (h : Op.Along (MachineSteps A.carriers False) x) :
    Op.Along (HeldSteps A halted) (Running.onMachine x) := by
  intro r
  rw [onMachine_snd]
  exact HeldSteps.host (h r.machine)

theorem onMachine_guest {x : MachineOp ε π α}
    (h : Op.Along (MachineSteps A.carriers True) x) :
    Op.Along (HeldSteps A false) (Running.onMachine x) := by
  intro r
  rw [onMachine_snd]
  exact HeldSteps.guest (h r.machine)

theorem held_steps {halted : Bool} {x : RunningOp ε π α} (h : Op.Along (HeldSteps A halted) x)
    (s : BrowserRuntime ε π) (r : Running ε π) :
    Steps A (s.restore halted r) (held halted r x s).2 := h r s

/-! ## Requests -/

def PumpSteps (A : Leave) (halted : Bool) (p p' : Pump ε π) : Prop :=
  Steps A (p.runtime.restore halted p.running) (p'.runtime.restore halted p'.running)

theorem PumpSteps.refl (halted : Bool) (p : Pump ε π) : PumpSteps A halted p p :=
  Relation.ReflTransGen.refl

theorem PumpSteps.trans (halted : Bool) (p p' p'' : Pump ε π) (h : PumpSteps A halted p p')
    (h' : PumpSteps A halted p' p'') : PumpSteps A halted p p'' := Relation.ReflTransGen.trans h h'

theorem pumpSlot_steps (halted : Bool) (index slot fuel : Nat) :
    Op.Along (PumpSteps A halted) (pumpSlot index slot fuel : Op (Pump ε π) _ _) := by
  induction fuel with
  | zero => exact Op.along_pure (PumpSteps.refl halted) _
  | succ fuel ih =>
      intro p
      rw [pumpSlot]
      dsimp only
      split
      · next mmio hmmio =>
          have hnext := nextHttpBlockRequest_of_storage hmmio
          rw [ofMachine, Op.mapError, hnext]
          dsimp only
          split
          · next hpopped =>
              rw [Outcome.ok.inj hpopped] at hnext
              exact .single (.polled halted p.runtime p.running slot _ hnext)
          · next request hpopped =>
              rw [Outcome.ok.inj hpopped] at hnext
              exact PumpSteps.trans halted _ _ _
                (.single (.issue halted p.runtime p.running index slot mmio request _ hmmio hnext))
                (ih _)
          · next hpopped => exact absurd hpopped (by simp)
          · next hpopped => exact absurd hpopped (by simp)
      · exact PumpSteps.refl halted p
      · exact PumpSteps.refl halted p

theorem pumpSlots_steps (halted : Bool) (index : Nat) (slots : List Nat) :
    Op.Along (PumpSteps A halted) (pumpSlots index slots : Op (Pump ε π) _ _) := by
  induction slots generalizing index with
  | nil => exact Op.along_pure (PumpSteps.refl halted) _
  | cons slot rest ih =>
      intro p
      rw [pumpSlots]
      exact (pumpSlot_steps halted index slot _).bind (PumpSteps.trans halted) (fun _ => ih _) p

theorem pumpRunning_steps (halted : Bool) (s : BrowserRuntime ε π) (r : Running ε π) :
    Steps A (s.restore halted r) (pumpRunning halted r s).2 :=
  pumpSlots_steps halted 0 r.blockSlots { running := r, runtime := s }

theorem pumpHttpRequests_steps : Op.Along (Steps A) (pumpHttpRequests : RuntimeOp ε π Unit) := by
  intro s
  unfold pumpHttpRequests
  split
  · next r hs =>
      rw [← restore_running hs]
      exact pumpRunning_steps false { s with state := .vmInactive } r
  · next r hs =>
      rw [← restore_halted hs]
      exact pumpRunning_steps true { s with state := .vmInactive } r
  · exact .refl

/-! ## Loading -/

theorem finishLoading_steps (env : Assembly ε π) (loading : Loading) {s : BrowserRuntime ε π}
    (hs : s.state = .vmInactive) : Steps A s (finishLoading env loading s).2 := by
  unfold finishLoading
  split
  · exact .refl
  · dsimp only
    split
    · exact .refl
    · exact .refl
    · next slots machine hassembled =>
        have hbooted := Step.booted (A := A) (!s.autoBoot) s env loading
          (newTrees env loading.config.filesystems) slots _ machine rfl hs hassembled
        let trees := newTrees env loading.config.filesystems
        let t := s.restore (!s.autoBoot) (booted loading slots machine)
        have htrees : Steps A s { t with filesystems := trees } :=
          (Relation.ReflTransGen.single hbooted).tail (.trees t trees)
        have hpushed : Steps A s ({ t with filesystems := trees }.push
            (if s.autoBoot then .started else .prepared)) :=
          htrees.tail (.actions { t with filesystems := trees } _)
        exact hpushed.trans (pumpHttpRequests_steps _)

theorem requestNextAsset_steps (env : Assembly ε π) (loading : Loading)
    {s : BrowserRuntime ε π} (hs : s.state = .vmInactive) :
    Steps A s (requestNextAsset env loading s).2 := by
  unfold requestNextAsset
  split
  · next kind url rest _ => exact .single (.next s loading kind url rest hs)
  · have hidle : ({ s with state := .vmInactive } : BrowserRuntime ε π) = s := by
      cases s
      cases hs
      rfl
    rw [hidle]
    exact finishLoading_steps env loading hs

theorem beginLoading_steps (env : Assembly ε π) (start : RuntimeStart) (config : VmConfig)
    {s : BrowserRuntime ε π} (hs : s.state = .vmInactive) :
    Steps A s (beginLoading env start config s).2 := requestNextAsset_steps env _ hs

theorem start_steps (hA : A.clock) (start : RuntimeStart) :
    Op.Along (Steps A) (BrowserRuntime.start start : RuntimeOp ε π Unit) := by
  intro s
  unfold BrowserRuntime.start
  split
  · next hs =>
      refine ((Relation.ReflTransGen.single (.clock hA s 0 s.activeQuantum s.diagnostics)).tail
        (.auto _ true)).tail ?_
      exact .ask _ start hs
  · exact .refl

theorem startResolved_steps (hA : A.clock) (env : Assembly ε π) (start : RuntimeStart)
    (config : VmConfig) : Op.Along (Steps A) (startResolved env start config) := by
  intro s
  unfold startResolved
  split
  · next hs =>
      refine ((Relation.ReflTransGen.single (.clock hA s 0 s.activeQuantum s.diagnostics)).tail
        (.auto _ true)).trans ?_
      exact beginLoading_steps env start config hs
  · exact .refl

theorem prepareResolved_steps (hA : A.clock) (env : Assembly ε π) (start : RuntimeStart)
    (config : VmConfig) : Op.Along (Steps A) (prepareResolved env start config) := by
  intro s
  unfold prepareResolved
  split
  · next hs =>
      refine ((Relation.ReflTransGen.single (.clock hA s 0 s.activeQuantum s.diagnostics)).tail
        (.auto _ false)).trans ?_
      exact beginLoading_steps env start config hs
  · exact .refl

/-! ## Responses -/

theorem completeLoading_steps (env : Assembly ε π) (id : Nat) (bytes : List UInt8)
    {loading : Loading} {s : BrowserRuntime ε π} (hs : s.state = .loading loading) :
    Steps A s (completeLoading env id bytes loading s).2 := by
  unfold completeLoading
  split
  · exact .refl
  · next requestId kind hwaiting =>
      by_cases hid : requestId ≠ id
      · rw [if_pos hid]
      · rw [if_neg hid]
        have hawaited : s.awaited = some id := by
          unfold awaited
          rw [hs, ← not_not.mp hid]
          simp only [hwaiting]
          rfl
        have hanswer := Relation.ReflTransGen.single (Step.answer (A := A) s id hawaited)
        dsimp only
        split
        · exact hanswer
        · exact hanswer
        · exact hanswer.trans (requestNextAsset_steps env _ rfl)

theorem completeChunk_steps (fuel id : Nat) (data : Option (List UInt8)) (halted : Bool)
    (s : BrowserRuntime ε π) (r : Running ε π) :
    Steps A (s.restore halted r) (completeChunk fuel id data halted r (s.restore halted r)).2 := by
  unfold completeChunk
  split
  · exact .refl
  · next pending hpending =>
      have hrespond := Relation.ReflTransGen.single
        (Step.respond (A := A) halted s r id fuel pending data hpending)
      dsimp only
      rw [ofMachine_snd]
      split
      · exact hrespond.trans (pumpHttpRequests_steps _)
      · exact hrespond
      · exact hrespond

theorem completeHttp_steps (env : Assembly ε π) (fuel id : Nat) (status : UInt16)
    (bytes : List UInt8) : Op.Along (Steps A) (completeHttp env fuel id status bytes) := by
  intro s
  unfold completeHttp
  by_cases hretired : s.retiredHttp.contains id = true
  · rw [if_pos hretired]
    exact .single (.late s id hretired)
  · rw [if_neg hretired]
    split
    · exact .refl
    · split
      · next start requestId hs =>
          by_cases hid : requestId = id
          · rw [if_pos hid]
            have hawaited : s.awaited = some id := by
              unfold awaited
              rw [hs, ← hid]
            have hanswer := Relation.ReflTransGen.single (Step.answer (A := A) s id hawaited)
            dsimp only
            split
            · exact hanswer.trans (beginLoading_steps env start _ rfl)
            · exact hanswer
            · exact hanswer
          · rw [if_neg hid]
      · next loading hs => exact completeLoading_steps env id bytes hs
      · next r hs =>
          have h := completeChunk_steps (A := A) fuel id
            (if success status then some bytes else none) false s r
          rwa [restore_running hs] at h
      · next r hs =>
          have h := completeChunk_steps (A := A) fuel id
            (if success status then some bytes else none) true s r
          rwa [restore_halted hs] at h
      · exact .refl

/-! ## Lifecycle -/

/-- The machine after an operation on a disk depends on what it does to the store only. -/
theorem withStorage_steps {slot : Nat} {operation : BlockStore → α × BlockStore}
    {op : DiskOperation} (hop : ∀ store, (operation store).2 = op.perform store) :
    Op.Along (HeldSteps A true)
      (Running.onMachine (Machine.withStorage slot operation) : RunningOp ε π α) := by
  intro r s
  rw [onMachine_snd]
  unfold Machine.withStorage
  cases hmmio : r.machine.storage slot with
  | ok mmio =>
      refine .single (.operate s r slot op _ ?_)
      unfold Machine.withStorage
      rw [hmmio]
      show _ = (Outcome.ok (), r.machine.put slot
        (.storageBlock (Machine.withBackend (operation mmio.device.backend).2 mmio)) _)
      rw [hop]
  | err e => exact .refl
  | panic => exact .refl

theorem withDisk_steps (id : Nat) {operation : BlockStore → α × BlockStore}
    {op : DiskOperation} (hop : ∀ store, (operation store).2 = op.perform store) :
    Op.Along (Steps A) (withDisk id operation : RuntimeOp ε π α) := by
  intro s
  unfold withDisk
  split
  · next r hs =>
      split
      · exact .refl
      · next slot _ =>
          have hstorage : Op.Along (HeldSteps A true)
              (Running.onMachine (Machine.withStorage slot operation) : RunningOp ε π α) :=
            withStorage_steps hop
          have hheld := held_steps hstorage s r
          rw [restore_halted hs] at hheld
          rw [Op.bind_apply]
          rcases hcase : held true r (Running.onMachine (Machine.withStorage slot operation)) s with
            ⟨ending, t⟩
          rw [hcase] at hheld
          cases ending with
          | ok result =>
              have hpump : Op.Along (Steps A)
                  (pumpHttpRequests >>= fun _ => pure result : RuntimeOp ε π α) :=
                pumpHttpRequests_steps.bind Steps.trans' fun _ => Op.along_pure Steps.refl' _
              exact hheld.trans (hpump t)
          | err e => exact hheld
          | panic => exact hheld
  · exact .refl

theorem discardDiskChanges_steps (id : Nat) :
    Op.Along (Steps A) (discardDiskChanges id : RuntimeOp ε π Unit) := by
  intro s
  unfold discardDiskChanges
  split
  · next r hs =>
      split
      · exact .refl
      · next slot _ =>
          dsimp only
          unfold Running.onMachine ofMachine Op.mapError Machine.withStorage
          conv => lhs; rw [← restore_halted hs]
          cases hmmio : r.machine.storage slot with
          | ok mmio =>
              dsimp only
              cases hstore : mmio.device.backend with
              | array bytes =>
                  refine .single (.operate s r slot .capacitySectors _ ?_)
                  unfold Machine.withStorage
                  rw [hmmio]
                  dsimp only
                  rw [hstore]
                  rfl
              | http store =>
                  refine .single (.discard s r slot _ ?_)
                  unfold Machine.withStorage
                  rw [hmmio]
                  dsimp only
                  rw [hstore]
                  rfl
          | err e => exact .refl
          | panic => exact absurd hmmio (Machine.storage_ne_panic _ _)
  · exact .refl

theorem clearNetworkOutput_steps (halted : Bool) (r : Running ε π) :
    HeldSteps A halted r r.clearNetworkOutput := by
  unfold Running.clearNetworkOutput
  split
  · exact HeldSteps.host (Machine.takeNetworkOutput_steps _ _)
  · exact HeldSteps.refl halted r

/-- A reset that fails before it has touched the devices has forgotten the requests. -/
theorem coldReset_steps (restart : Restart) (hA : restart.allocated = false → A.forgets) :
    Op.Along (Steps A) (coldReset restart : RuntimeOp ε π Unit) := by
  intro s
  unfold coldReset
  split
  · next r hs =>
      by_cases hallocated : restart.allocated = false
      · have hforget := Relation.ReflTransGen.single
          (Step.forget (A := A) (hA hallocated) true s r)
        rw [restore_halted hs] at hforget
        unfold held
        rw [hallocated]
        exact hforget
      · have hreset : Machine.reset restart.allocated r.machine =
            (.ok (), r.machine.resetDevices) := by
          unfold Machine.reset
          rw [if_neg hallocated]
        have hrestart := Relation.ReflTransGen.single (Step.restart (A := A) true true s r)
        rw [restore_halted hs] at hrestart
        have hload : Op.Along (MachineSteps A.carriers False) (do
            Machine.clearRam
            Machine.loadBootAt restart.load : MachineOp ε π Unit) :=
          Machine.clearRam_steps.bind Machine.steps_trans fun _ =>
            Machine.loadBootAt_steps restart.load
        refine hrestart.trans ?_
        unfold held
        rw [onMachine_bind _ _ r.forgetHttp hreset]
        exact onMachine_host hload r.forgetHttp.resetDevices (s.retire r.pendingHttp.keys)
  · exact .refl

theorem enterHalted_steps (s : BrowserRuntime ε π) (r : Running ε π) (cause : LifecycleCause) :
    Steps A (s.restore false r) (s.enterHalted r cause) := by
  have hrestart := Relation.ReflTransGen.single (Step.restart (A := A) false true s r)
  have hclear := clearNetworkOutput_steps (A := A) true r.forgetHttp.resetDevices
    (s.retire r.pendingHttp.keys)
  exact (hrestart.trans hclear).tail (.actions _ _)

theorem halt_steps : Op.Along (Steps A) (BrowserRuntime.halt : RuntimeOp ε π Unit) := by
  intro s
  unfold BrowserRuntime.halt
  split
  · exact .refl
  · split
    · next r hs =>
        have h := enterHalted_steps (A := A) s r .hostHalt
        rwa [restore_running hs] at h
    · exact .refl

theorem restartMachine_steps (restart : Restart) (cause : LifecycleCause) (halted : Bool)
    (s : BrowserRuntime ε π) (r : Running ε π) :
    Steps A (s.restore halted r) (restartMachine restart cause r (s.restore halted r)).2 := by
  have hlose := Relation.ReflTransGen.single (Step.lose (A := A) halted s r)
  unfold restartMachine
  dsimp only
  split
  · next booted hbooted =>
      have hallocated : restart.allocated ≠ false := by
        intro hfalse
        rw [hfalse] at hbooted
        simp [Running.onMachine, ofMachine, Op.mapError, Machine.reset, Op.bind_apply] at hbooted
      have hreset : Machine.reset restart.allocated r.machine =
          (.ok (), r.machine.resetDevices) := by
        unfold Machine.reset
        rw [if_neg hallocated]
      rw [onMachine_bind _ _ r.forgetHttp hreset] at hbooted
      have hload : HeldSteps A false r.forgetHttp.resetDevices
          (Running.onMachine (Machine.loadBootAt restart.load) r.forgetHttp.resetDevices).2 :=
        onMachine_host (Machine.loadBootAt_steps restart.load) _
      have hbooted : (Running.onMachine (Machine.loadBootAt restart.load)
        r.forgetHttp.resetDevices).2 = booted := congrArg Prod.snd hbooted
      rw [hbooted] at hload
      let t := s.retire r.pendingHttp.keys
      have hrestart := Relation.ReflTransGen.single (Step.restart (A := A) halted false s r)
      have hbooted : Steps A (s.restore halted r) (t.restore false booted.clearNetworkOutput) :=
        (hrestart.trans (hload t)).trans (clearNetworkOutput_steps false booted t)
      have hpushed : Steps A (s.restore halted r)
          ((t.restore false booted.clearNetworkOutput).push (.reset cause)) :=
        hbooted.tail (.actions _ _)
      exact hpushed.trans (pumpHttpRequests_steps _)
  · exact hlose
  · exact hlose

theorem resetMachine_steps (restart : Restart) (cause : LifecycleCause) :
    Op.Along (Steps A) (resetMachine restart cause : RuntimeOp ε π Unit) := by
  intro s
  unfold resetMachine
  split
  · next r hs =>
      have h := restartMachine_steps (A := A) restart cause false s r
      rwa [restore_running hs] at h
  · next r hs =>
      have h := restartMachine_steps (A := A) restart cause true s r
      rwa [restore_halted hs] at h
  · exact .refl

theorem reset_steps (restart : Restart) :
    Op.Along (Steps A) (BrowserRuntime.reset restart : RuntimeOp ε π Unit) := by
  intro s
  unfold BrowserRuntime.reset
  split
  · exact .refl
  · exact resetMachine_steps restart _ s

theorem requestPowerKey_steps (fuel : Nat) (code : UInt16) :
    Op.Along (Steps A) (requestPowerKey fuel code : RuntimeOp ε π Unit) := by
  intro s
  unfold requestPowerKey
  split
  · next r hs =>
      have hkeys : Op.Along (HeldSteps A false) (Running.onMachine
          (Machine.virtioKeyEvent fuel r.powerSlot code true >>= fun _ =>
            Machine.virtioKeyEvent fuel r.powerSlot code false) : RunningOp ε π Unit) :=
        onMachine_host ((Machine.virtioKeyEvent_steps fuel r.powerSlot code true).bind
          Machine.steps_trans fun _ =>
            Machine.virtioKeyEvent_steps fuel r.powerSlot code false)
      have h := held_steps hkeys s r
      rwa [restore_running hs] at h
  · exact .refl

theorem destroy_steps : Op.Along (Steps A) (BrowserRuntime.destroy : RuntimeOp ε π Unit) := by
  intro s
  unfold BrowserRuntime.destroy
  split
  · exact .refl
  · split
    · exact .refl
    · next r hs =>
        have h := Relation.ReflTransGen.single (Step.lose (A := A) true s r)
        rw [restore_halted hs] at h
        exact (h.tail (.trees _ ∅)).tail (.actions _ [])
    · exact .single (.trees s ∅)
    · next start requestId hs =>
        have hawaited : s.awaited = some requestId := by
          unfold awaited
          rw [hs]
        exact ((Relation.ReflTransGen.single (Step.cancel (A := A) s requestId hawaited)).tail
          (.trees _ ∅)).tail (.actions _ [])
    · next loading hs =>
        cases hwaiting : loading.waiting with
        | none =>
            have hawaited : s.awaited = none := by
              unfold awaited
              rw [hs]
              simp only [hwaiting]
              rfl
            exact ((Relation.ReflTransGen.single (Step.quit (A := A) s loading hs hawaited)).tail
              (.trees _ ∅)).tail (.actions _ [])
        | some waiting =>
            have hawaited : s.awaited = some waiting.1 := by
              unfold awaited
              rw [hs]
              simp only [hwaiting]
              rfl
            exact ((Relation.ReflTransGen.single
              (Step.cancel (A := A) s waiting.1 hawaited)).tail (.trees _ ∅)).tail (.actions _ [])

/-! ## CPU runs -/

theorem deliverEvent_steps (hK : ∀ up, A.carriers up) (fuel : Nat) (event : BrowserEvent) :
    Op.Along (HeldSteps A false) (Running.deliverEvent fuel event : RunningOp ε π Unit) := by
  intro r
  unfold Running.deliverEvent
  cases event with
  | key pressed code =>
      dsimp only
      split
      · exact onMachine_host (Machine.virtioKeyEvent_steps _ _ _ _) r
      · exact HeldSteps.refl false r
  | pointer x y wheel buttons =>
      dsimp only
      split
      · exact onMachine_host (Machine.virtioPointerEvent_steps _ _ _ _ _ _) r
      · exact HeldSteps.refl false r
  | networkPacket packet =>
      dsimp only
      split
      · exact onMachine_host (Machine.virtioNetworkReceive_steps _ _ _) r
      · exact HeldSteps.refl false r
  | networkCarrier up =>
      dsimp only
      split
      · exact onMachine_host (Machine.virtioNetworkSetCarrier_steps _ (hK up)) r
      · exact HeldSteps.refl false r

/-- The steps of the runtime while its machine is fed from the queue. -/
def FedSteps (A : Leave) (f f' : Fed ε π) : Prop := HeldSteps A false f.running f'.running

theorem FedSteps.refl (f : Fed ε π) : FedSteps A f f := HeldSteps.refl false f.running

theorem FedSteps.trans (f f' f'' : Fed ε π) (h : FedSteps A f f') (h' : FedSteps A f' f'') :
    FedSteps A f f'' := HeldSteps.trans false _ _ _ h h'

theorem onRunning_steps {x : RunningOp ε π α} (h : Op.Along (HeldSteps A false) x) :
    Op.Along (FedSteps A) (onRunning x) := fun f => h f.running

theorem onQueue_steps (f : BrowserInputQueue → α × BrowserInputQueue) :
    Op.Along (FedSteps A) (onQueue f : Op (Fed ε π) (Failure RuntimeError) α) :=
  fun fed => FedSteps.refl fed

theorem deliverEvents_steps (hK : ∀ up, A.carriers up) (fuel count : Nat) :
    Op.Along (FedSteps A)
      (deliverEvents fuel count : Op (Fed ε π) (Failure RuntimeError) Unit) := by
  induction count with
  | zero => exact Op.along_pure FedSteps.refl _
  | succ count ih =>
      refine (onQueue_steps _).bind FedSteps.trans fun event => ?_
      cases event with
      | none => exact Op.along_pure FedSteps.refl _
      | some event =>
          exact (onRunning_steps (deliverEvent_steps hK fuel event)).bind FedSteps.trans
            fun _ => ih

theorem resizeConsole_steps (size : Option TerminalSize) :
    Op.Along (HeldSteps A false) (Running.resizeConsole size : RunningOp ε π Unit) := by
  intro r
  unfold Running.resizeConsole
  split
  · exact onMachine_host (Machine.resizeVirtioConsole_steps _ _ _) r
  · exact HeldSteps.refl false r

theorem receiveConsole_steps (fuel : Nat) (bytes : List UInt8) :
    Op.Along (HeldSteps A false) (Running.receiveConsole fuel bytes : RunningOp ε π Unit) := by
  intro r
  unfold Running.receiveConsole
  split
  · split
    · exact HeldSteps.refl false r
    · exact onMachine_host (Machine.virtioConsoleReceive_steps _ _ _) r
  · exact HeldSteps.refl false r

theorem deliverInput_steps (hK : ∀ up, A.carriers up) (turn : CpuTurn) :
    Op.Along (FedSteps A) (deliverInput turn : Op (Fed ε π) (Failure RuntimeError) Unit) := by
  refine (onQueue_steps _).bind FedSteps.trans fun size => ?_
  refine (onRunning_steps (resizeConsole_steps size)).bind FedSteps.trans fun _ => ?_
  refine (Op.along_get FedSteps.refl).bind FedSteps.trans fun fed => ?_
  refine (onQueue_steps _).bind FedSteps.trans fun bytes => ?_
  refine (onRunning_steps (receiveConsole_steps _ _)).bind FedSteps.trans fun _ => ?_
  refine (Op.along_get FedSteps.refl).bind FedSteps.trans fun fed => ?_
  exact deliverEvents_steps hK _ _

theorem takeConsole_steps (r : Running ε π) : HeldSteps A false r (takeConsole r).2 := by
  unfold takeConsole
  split
  · exact onMachine_host (Machine.takeVirtioConsoleOutput_steps _) r
  · exact HeldSteps.refl false r

theorem pushConsole_steps (bytes : List UInt8) (s : BrowserRuntime ε π) :
    Steps A s (s.pushConsole bytes) := by
  unfold pushConsole
  split
  · exact .refl
  · exact .single (.actions s _)

theorem collectOutput_steps (turn : CpuTurn) (s : BrowserRuntime ε π) (r : Running ε π) :
    Steps A (s.restore false r) (collectOutput turn r s).2 := by
  have htaken := takeConsole_steps (A := A) r s
  unfold collectOutput
  rcases hcase : takeConsole r with ⟨console, taken⟩
  rw [hcase] at htaken
  cases console with
  | ok bytes =>
      let output := (if taken.uartOutput then turn.uart else []) ++ bytes
      have hconsole : Steps A (s.restore false taken)
          ((s.pushConsole output).restore false taken) := by
        unfold pushConsole
        split
        · exact .refl
        · exact .single (.actions _ _)
      have hpackets : Steps A ((s.pushConsole output).restore false taken)
          (((s.pushConsole output).pushAll (packets taken)).restore false taken) :=
        .single (.actions _ _)
      have hcleared := clearNetworkOutput_steps (A := A) false taken
        ((s.pushConsole output).pushAll (packets taken))
      have hall := ((htaken.trans hconsole).trans hpackets).trans hcleared
      dsimp only
      split
      · exact hall.tail (.actions _ _)
      · exact hall.tail (.actions _ _)
  | err e => exact htaken
  | panic => exact htaken

theorem execute_steps (turn : CpuTurn) {ticks : Nat} (hticks : A.ticks ticks) (ns : Nat)
    (s : BrowserRuntime ε π) (r : Running ε π) :
    Steps A (s.restore false r) (execute turn ticks ns r s).2 := by
  let presented := { r with machine := r.machine.presentGuestClocks ticks ns }
  let t := (s.record (.presented ticks)).record (.executed presented.carrier)
  have hstart : Steps A (s.restore false r) (t.restore false presented) :=
    (Relation.ReflTransGen.single (Step.presented s r ticks ns hticks)).tail
      (.executed (s.record (.presented ticks)) presented)
  have hrun := onMachine_guest (A := A) (Machine.runCpu_steps trivial turn.accesses) presented t
  have hall := hstart.trans hrun
  unfold execute
  dsimp only
  rcases hcase : Running.onMachine (Machine.runCpu turn.accesses) presented with ⟨ending, after⟩
  rw [hcase] at hall
  cases ending with
  | ok _ => exact hall.trans (collectOutput_steps turn t after)
  | err e => exact hall
  | panic => exact hall

def BrowserSteps (A : Leave) (b b' : Browser ε π) : Prop := Steps A b.runtime b'.runtime

theorem BrowserSteps.refl (b : Browser ε π) : BrowserSteps A b b := Relation.ReflTransGen.refl

theorem BrowserSteps.trans (b b' b'' : Browser ε π) (h : BrowserSteps A b b')
    (h' : BrowserSteps A b' b'') : BrowserSteps A b b'' := Relation.ReflTransGen.trans h h'

theorem onRuntime_steps {x : RuntimeOp ε π α} (h : Op.Along (Steps A) x) :
    Op.Along (BrowserSteps A) (onRuntime x) := fun b => h b.runtime

theorem serveFinish_steps (turn : CpuTurn) :
    Op.Along (BrowserSteps A) (serveFinish turn : BrowserOp ε π (Option CpuTurn)) := by
  intro b
  unfold serveFinish
  split
  · next r hs =>
      have hhalted := fun cause => enterHalted_steps (A := A) b.runtime r cause
      rw [restore_running hs] at hhalted
      split
      · exact BrowserSteps.refl b
      · have hreset : Op.Along (BrowserSteps A)
            (onRuntime (resetMachine turn.restart .guestReboot) >>= fun _ =>
              Op.modify (fun s => { s with queue := .default }) >>= fun _ => pure (some turn) :
              BrowserOp ε π (Option CpuTurn)) := by
          refine (onRuntime_steps (resetMachine_steps _ _)).bind BrowserSteps.trans fun _ => ?_
          refine Op.Along.bind BrowserSteps.trans ?_ fun _ => Op.along_pure BrowserSteps.refl _
          exact Op.along_modify fun b => BrowserSteps.refl b
        exact hreset b
      · exact hhalted _
      · exact hhalted _
  · exact BrowserSteps.refl b

theorem runCpuOnce_steps (hK : ∀ up, A.carriers up) (turn : CpuTurn) {ticks : Nat}
    (hticks : A.ticks ticks) (ns : Nat) :
    Op.Along (BrowserSteps A) (runCpuOnce turn ticks ns : BrowserOp ε π (Option CpuTurn)) := by
  intro b
  unfold runCpuOnce
  split
  · next r hs =>
      have hfed := deliverInput_steps (A := A) hK turn { running := r, queue := b.queue } b.runtime
      rw [restore_running hs] at hfed
      dsimp only
      rcases hcase : deliverInput turn { running := r, queue := b.queue } with ⟨ending, fed⟩
      rw [hcase] at hfed
      let b' : Browser ε π :=
        { runtime := b.runtime.restore false fed.running, queue := fed.queue }
      have hgiven : BrowserSteps A b b' := hfed
      cases ending with
      | ok _ =>
          have hexecute : BrowserSteps A b' (onRuntime (execute turn ticks ns fed.running) b').2 := by
            exact execute_steps turn hticks ns b'.runtime fed.running
          have hrest : Op.Along (BrowserSteps A)
              (onRuntime pumpHttpRequests >>= fun _ => serveFinish turn :
                BrowserOp ε π (Option CpuTurn)) :=
            (onRuntime_steps pumpHttpRequests_steps).bind BrowserSteps.trans fun _ =>
              serveFinish_steps turn
          refine BrowserSteps.trans _ _ _ hgiven ?_
          dsimp only
          rw [Op.bind_apply]
          rcases hdone : onRuntime (execute turn ticks ns fed.running) b' with ⟨_ | _ | _, c⟩ <;>
            rw [hdone] at hexecute
          · exact BrowserSteps.trans _ _ _ hexecute (hrest c)
          · exact hexecute
          · exact hexecute
      | err e => exact hgiven
      | panic => exact hgiven
  · exact BrowserSteps.refl b

/-! ## Quanta -/

def AdvanceSteps (A : Leave) (a a' : Advance ε π) : Prop :=
  Steps A a.browser.runtime a'.browser.runtime

theorem AdvanceSteps.refl (a : Advance ε π) : AdvanceSteps A a a := Relation.ReflTransGen.refl

theorem AdvanceSteps.trans (a a' a'' : Advance ε π) (h : AdvanceSteps A a a')
    (h' : AdvanceSteps A a' a'') : AdvanceSteps A a a'' := Relation.ReflTransGen.trans h h'

theorem nextTimer_steps {ticks : Nat} (hticks : A.ticks ticks) (answer : Option Nat)
    (s : BrowserRuntime ε π) : Steps A s (s.nextTimer ticks answer).2 := by
  unfold nextTimer
  split
  · next r hs =>
      have h := Relation.ReflTransGen.single
        (Step.presented (A := A) s r ticks (min (ticks * 100) u64Max) hticks)
      rwa [restore_running hs] at h
  · exact .refl

theorem askTimer_steps {ticks : Nat} (hticks : A.ticks ticks) (answer : Option Nat) :
    Op.Along (AdvanceSteps A) (Advance.askTimer ticks answer : AdvanceOp ε π (Option Nat)) :=
  fun a => nextTimer_steps hticks answer a.browser.runtime

theorem setQuantum_steps (f : ActiveQuantum → ActiveQuantum) :
    Op.Along (AdvanceSteps A) (Advance.setQuantum f : AdvanceOp ε π Unit) :=
  fun a => AdvanceSteps.refl a

theorem update_steps (f : ActiveQuantum → Outcome (Failure RuntimeError) ActiveQuantum) :
    Op.Along (AdvanceSteps A) (Advance.update f : AdvanceOp ε π Unit) := by
  intro a
  unfold Advance.update
  split <;> exact AdvanceSteps.refl a

theorem sleep_steps (hT : ∀ ticks, A.ticks ticks) (turn : CpuTurn) :
    Op.Along (AdvanceSteps A) (Advance.sleep turn : AdvanceOp ε π Unit) := by
  refine Op.along_ite (fun _ => ?_) fun _ => Op.along_pure AdvanceSteps.refl _
  refine (Op.along_reading AdvanceSteps.refl _).bind AdvanceSteps.trans fun ticks => ?_
  refine (askTimer_steps (hT ticks) _).bind AdvanceSteps.trans fun timer => ?_
  refine Op.along_modify fun a => ?_
  split <;> exact AdvanceSteps.refl a

theorem finishTurn_steps (turn : CpuTurn) :
    Op.Along (AdvanceSteps A)
      (Advance.finishTurn turn : AdvanceOp ε π (Option QuantumOutcome)) := by
  intro a
  unfold Advance.finishTurn
  dsimp only
  split <;> exact AdvanceSteps.refl a

theorem settleTurn_steps (hT : ∀ ticks, A.ticks ticks) (turn : CpuTurn) :
    Op.Along (AdvanceSteps A)
      (Advance.settleTurn turn : AdvanceOp ε π (Option QuantumOutcome)) := by
  refine (Op.along_get AdvanceSteps.refl).bind AdvanceSteps.trans fun a => ?_
  refine (update_steps _).bind AdvanceSteps.trans fun _ => ?_
  refine (Op.along_get AdvanceSteps.refl).bind AdvanceSteps.trans fun a' => ?_
  refine Op.along_ite (fun _ => Op.along_fail AdvanceSteps.refl _) fun _ => ?_
  refine (update_steps _).bind AdvanceSteps.trans fun _ => ?_
  exact (sleep_steps hT turn).bind AdvanceSteps.trans fun _ => finishTurn_steps turn

theorem turn_steps (hT : ∀ ticks, A.ticks ticks) (hK : ∀ up, A.carriers up) (turn : CpuTurn) :
    Op.Along (AdvanceSteps A) (Advance.turn turn : AdvanceOp ε π (Option QuantumOutcome)) := by
  refine (Op.along_reading AdvanceSteps.refl _).bind AdvanceSteps.trans fun ticks => ?_
  refine (askTimer_steps (hT ticks) _).bind AdvanceSteps.trans fun timer => ?_
  refine (Op.along_reading AdvanceSteps.refl _).bind AdvanceSteps.trans fun _ => ?_
  refine (Op.along_get AdvanceSteps.refl).bind AdvanceSteps.trans fun a => ?_
  refine (setQuantum_steps _).bind AdvanceSteps.trans fun _ => ?_
  have hrun : Op.Along (AdvanceSteps A)
      (Advance.onBrowser (runCpuOnce turn ticks (min (ticks * nanosecondsPerGuestTick) u64Max)) :
        AdvanceOp ε π (Option CpuTurn)) :=
    fun a => runCpuOnce_steps hK turn (hT ticks) _ a.browser
  refine hrun.bind AdvanceSteps.trans fun outcome => ?_
  cases outcome with
  | none =>
      exact (setQuantum_steps _).bind AdvanceSteps.trans fun _ =>
        Op.along_pure AdvanceSteps.refl _
  | some turn => exact settleTurn_steps hT turn

theorem loop_steps (hT : ∀ ticks, A.ticks ticks) (hK : ∀ up, A.carriers up)
    (turns : List CpuTurn) :
    Op.Along (AdvanceSteps A) (Advance.loop turns : AdvanceOp ε π QuantumOutcome) := by
  induction turns with
  | nil =>
      intro a
      rw [Advance.loop]
      dsimp only
      split <;> exact AdvanceSteps.refl a
  | cons first rest ih =>
      intro a
      rw [Advance.loop]
      dsimp only
      split
      · have hnext : Op.Along (AdvanceSteps A)
            (Advance.turn first >>= Advance.proceed (Advance.loop rest) :
              AdvanceOp ε π QuantumOutcome) := by
          refine (turn_steps hT hK first).bind AdvanceSteps.trans fun outcome => ?_
          cases outcome with
          | none => exact ih
          | some outcome => exact Op.along_pure AdvanceSteps.refl _
        exact hnext a
      · exact AdvanceSteps.refl a

theorem runQuantum_steps (hT : ∀ ticks, A.ticks ticks) (hK : ∀ up, A.carriers up)
    (hclock : A.clock) (turns : List CpuTurn) :
    Op.Along (BrowserSteps A) (Runtime.runQuantum turns : BrowserOp ε π QuantumOutcome) := by
  intro b
  unfold Runtime.runQuantum
  split
  · exact BrowserSteps.refl b
  · next quantum hquantum =>
      let a : Advance ε π :=
        { browser := { b with runtime := { b.runtime with activeQuantum := none } }
          quantum := quantum }
      have hrun : AdvanceSteps A a (Advance.run turns a).2 := by
        unfold Advance.run
        split
        · exact AdvanceSteps.refl a
        · exact loop_steps hT hK turns a
      have htaken : Steps A b.runtime a.browser.runtime :=
        .single (.clock hclock b.runtime _ none b.runtime.diagnostics)
      have hgiven : Steps A b.runtime (Advance.run turns a).2.browser.runtime := htaken.trans hrun
      exact hgiven.tail (.clock hclock _ _ (some (Advance.run turns a).2.quantum) _)

/-! ## Public calls -/

namespace Call

/-- The calls that forget requests without a reset of the devices. -/
def Forgets : Call ε π → Prop
  | .coldReset restart => restart.allocated = false
  | _ => False

theorem unanswered_steps {x : RuntimeOp ε π α} (h : Op.Along (Steps A) x) :
    Op.Along (Steps A) (unanswered x) :=
  h.bind Steps.trans' fun _ => Op.along_pure Steps.refl' _

theorem withQueue_steps (queue : BrowserInputQueue) {x : BrowserOp ε π α}
    (h : Op.Along (BrowserSteps A) x) : Op.Along (Steps A) (withQueue queue x) :=
  fun s => h { runtime := s, queue := queue }

theorem beginQuantum_steps (hclock : A.clock) (epochMs rate tickRate budget : Nat)
    (s : BrowserRuntime ε π) : Steps A s (s.beginQuantum epochMs rate tickRate budget).2 := by
  unfold BrowserRuntime.beginQuantum
  split
  · exact .refl
  · split
    · exact .refl
    · exact .single (.clock hclock s _ _ _)

theorem finishQuantum_steps (hclock : A.clock) (elapsed : Bool) (epochMs : Nat) :
    Op.Along (Steps A) (BrowserRuntime.finishQuantum elapsed epochMs : RuntimeOp ε π Nat) := by
  intro s
  unfold BrowserRuntime.finishQuantum
  split
  · exact .refl
  · split
    · exact .refl
    · split
      · exact .refl
      · split <;> exact .single (.clock hclock s _ _ _)

theorem abortQuantum_steps (hclock : A.clock) :
    Op.Along (Steps A) (BrowserRuntime.abortQuantum : RuntimeOp ε π Unit) := by
  intro s
  unfold BrowserRuntime.abortQuantum
  split
  · exact .refl
  · split <;> exact .single (.clock hclock s _ _ _)

theorem configureQuantum_steps (hclock : A.clock) (valid diagnostics : Bool) :
    Op.Along (Steps A)
      (BrowserRuntime.configureQuantum valid diagnostics : RuntimeOp ε π Unit) := by
  intro s
  unfold BrowserRuntime.configureQuantum
  split
  · exact .refl
  · exact .single (.clock hclock s _ _ _)

theorem nextAction_steps (s : BrowserRuntime ε π) : Steps A s s.nextAction.2 := by
  unfold BrowserRuntime.nextAction
  split
  · exact .refl
  · exact .single (.actions s _)

theorem perform_steps (hT : ∀ ticks, A.ticks ticks) (hK : ∀ up, A.carriers up)
    (hclock : A.clock) (call : Call ε π) (hforgets : call.Forgets → A.forgets) :
    Op.Along (Steps A) call.perform := by
  cases call with
  | start request => exact start_steps hclock request
  | startResolved env request config => exact startResolved_steps hclock env request config
  | prepareResolved env request config => exact prepareResolved_steps hclock env request config
  | completeHttp env fuel id status bytes => exact completeHttp_steps env fuel id status bytes
  | withDisk id operation => exact withDisk_steps id fun _ => rfl
  | discardDiskChanges id => exact discardDiskChanges_steps id
  | coldReset restart => exact coldReset_steps restart hforgets
  | halt => exact halt_steps
  | reset restart => exact reset_steps restart
  | requestShutdown fuel => exact requestPowerKey_steps fuel _
  | requestReboot fuel => exact requestPowerKey_steps fuel _
  | destroy => exact destroy_steps
  | configureQuantum valid diagnostics => exact configureQuantum_steps hclock valid diagnostics
  | beginQuantum epochMs rate tickRate budget =>
      exact beginQuantum_steps hclock epochMs rate tickRate budget
  | runQuantum turns queue =>
      exact unanswered_steps (withQueue_steps queue (runQuantum_steps hT hK hclock turns))
  | finishQuantum elapsed epochMs =>
      exact unanswered_steps (finishQuantum_steps hclock elapsed epochMs)
  | abortQuantum => exact abortQuantum_steps hclock
  | runCpuOnce turn ticks ns queue =>
      exact unanswered_steps (withQueue_steps queue (runCpuOnce_steps hK turn (hT ticks) ns))
  | nextAction => exact nextAction_steps

end Call

/-- Every call, whatever it may do. -/
def Leave.all : Leave :=
  { ticks := fun _ => True, carriers := fun _ => True, clock := True, forgets := True }

theorem Call.perform_all (call : Call ε π) : Op.Along (Steps .all) call.perform :=
  Call.perform_steps (fun _ => trivial) (fun _ => trivial) trivial call fun _ => trivial

theorem steps_rule {I : BrowserRuntime ε π → Prop}
    (hstep : ∀ s t : BrowserRuntime ε π, Step A s t → I s → I t) {s t : BrowserRuntime ε π}
    (h : Steps A s t) (hs : I s) : I t := by
  induction h with
  | refl => exact hs
  | tail _ hlast ih => exact hstep _ _ hlast ih

/-- What every step keeps holds in every reached state. -/
theorem BrowserRuntime.Reached.rule {I : BrowserRuntime ε π → Prop}
    {s : BrowserRuntime ε π} (h : s.Reached) (hdefault : I default)
    (hstep : ∀ s t : BrowserRuntime ε π, Step .all s t → I s → I t) : I s := by
  obtain ⟨calls, rfl⟩ := h
  induction calls using List.reverseRecOn with
  | nil => exact hdefault
  | append_singleton calls call ih =>
      rw [performAll, List.foldl_append]
      exact steps_rule hstep (Call.perform_all call (performAll default calls)) ih

end Runtime
end Riscbox
