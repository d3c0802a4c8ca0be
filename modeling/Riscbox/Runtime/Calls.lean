import Riscbox.Runtime.Quantum

/-!
# Runs of the runtime

The public calls of `BrowserRuntime`, and the states that they lead to in any order.
-/

namespace Riscbox
namespace Runtime

open Virtio
open Storage (BlockStore StorageError)

variable {ε π α : Type} [EntropySource ε] [NinePEndpoint π]

/-- What the host does to a disk of a halted machine. -/
inductive DiskOperation where
  | capacitySectors
  | clearErrors
  | readSectors (sector : Nat) (data : List UInt8)
  | writeSectors (sector : Nat) (data : List UInt8)
  deriving DecidableEq, Repr

def DiskOperation.perform : DiskOperation → BlockStore → BlockStore
  | .capacitySectors, store => store
  | .clearErrors, store => store.clearErrors
  | .readSectors sector data, store => (store.readSectors sector data).2.2
  | .writeSectors sector data, store => (store.writeSectors sector data).2

/-- A public call, with what it gets from outside. -/
inductive Call (ε π : Type) where
  | start (start : RuntimeStart)
  | startResolved (env : Assembly ε π) (start : RuntimeStart) (config : VmConfig)
  | prepareResolved (env : Assembly ε π) (start : RuntimeStart) (config : VmConfig)
  | completeHttp (env : Assembly ε π) (fuel id : Nat) (status : UInt16) (bytes : List UInt8)
  | withDisk (id : Nat) (operation : DiskOperation)
  | discardDiskChanges (id : Nat)
  | coldReset (restart : Restart)
  | halt
  | reset (restart : Restart)
  | requestShutdown (fuel : Nat)
  | requestReboot (fuel : Nat)
  | destroy
  | configureQuantum (valid diagnostics : Bool)
  | beginQuantum (epochMs rate tickRate budget : Nat)
  | runQuantum (turns : List CpuTurn) (queue : BrowserInputQueue)
  | finishQuantum (elapsed : Bool) (epochMs : Nat)
  | abortQuantum
  | runCpuOnce (turn : CpuTurn) (ticks ns : Nat) (queue : BrowserInputQueue)
  | nextAction

/-- A call with an input queue that the host keeps. -/
def withQueue (queue : BrowserInputQueue) (x : BrowserOp ε π α) : RuntimeOp ε π α := fun s =>
  let (ending, browser) := x { runtime := s, queue := queue }
  (ending, browser.runtime)

/-- A call whose answer is not looked at. -/
def unanswered (x : RuntimeOp ε π α) : RuntimeOp ε π Unit := x >>= fun _ => pure ()

namespace Call

def perform : Call ε π → RuntimeOp ε π Unit
  | .start request => BrowserRuntime.start request
  | .startResolved env request config => BrowserRuntime.startResolved env request config
  | .prepareResolved env request config => BrowserRuntime.prepareResolved env request config
  | .completeHttp env fuel id status bytes => BrowserRuntime.completeHttp env fuel id status bytes
  | .withDisk id operation =>
    BrowserRuntime.withDisk id fun store => ((), operation.perform store)
  | .discardDiskChanges id => BrowserRuntime.discardDiskChanges id
  | .coldReset restart => BrowserRuntime.coldReset restart
  | .halt => BrowserRuntime.halt
  | .reset restart => BrowserRuntime.reset restart
  | .requestShutdown fuel => BrowserRuntime.requestShutdown fuel
  | .requestReboot fuel => BrowserRuntime.requestReboot fuel
  | .destroy => BrowserRuntime.destroy
  | .configureQuantum valid diagnostics => BrowserRuntime.configureQuantum valid diagnostics
  | .beginQuantum epochMs rate tickRate budget =>
    Op.modify fun s => (s.beginQuantum epochMs rate tickRate budget).2
  | .runQuantum turns queue => unanswered (withQueue queue (Runtime.runQuantum turns))
  | .finishQuantum elapsed epochMs => unanswered (BrowserRuntime.finishQuantum elapsed epochMs)
  | .abortQuantum => BrowserRuntime.abortQuantum
  | .runCpuOnce turn ticks ns queue =>
    unanswered (withQueue queue (Runtime.runCpuOnce turn ticks ns))
  | .nextAction => Op.modify fun s => s.nextAction.2

end Call

namespace BrowserRuntime

/-- The state after some calls. -/
def performAll (runtime : BrowserRuntime ε π) (calls : List (Call ε π)) : BrowserRuntime ε π :=
  calls.foldl (fun s call => (call.perform s).2) runtime

/-- A state that calls lead to. -/
def Reached (runtime : BrowserRuntime ε π) : Prop :=
  ∃ calls : List (Call ε π), runtime = performAll default calls

theorem reached_default : (default : BrowserRuntime ε π).Reached := ⟨[], rfl⟩

theorem Reached.next {s : BrowserRuntime ε π} (h : s.Reached) (call : Call ε π) :
    (call.perform s).2.Reached := by
  obtain ⟨calls, rfl⟩ := h
  refine ⟨calls ++ [call], ?_⟩
  rw [performAll, performAll, List.foldl_append]
  rfl

end BrowserRuntime

end Runtime
end Riscbox
