import Riscbox.Filesystem.Types

/-!
# Requests for backing data

The errors and the request queue of `src/block_storage.rs`.
-/

namespace Riscbox
namespace Storage

inductive StorageError where
  | invalidManifest (name : String)
  | invalidResponse
  | unknownRequest
  | missingBlock (block : Nat)
  | outOfRange
  | backingFailed
  deriving DecidableEq, Repr

/-- `checked_mul` on a type whose largest value is `max`. -/
def checkedMul (max a b : Nat) : Option Nat := if a * b ≤ max then some (a * b) else none

theorem checkedMul_eq_some {max a b c : Nat} :
    checkedMul max a b = some c ↔ a * b ≤ max ∧ c = a * b := by
  unfold checkedMul
  split <;> simp_all [eq_comm]

inductive HttpMethod where
  | get
  | post (body : List UInt8)
  deriving DecidableEq, Repr

structure HttpRequest where
  id : Nat
  url : String
  method : HttpMethod
  authorization : Option (String × String)
  deriving DecidableEq, Repr

structure HttpQueue where
  nextId : Nat
  pending : BTreeMap Nat String
  outgoing : List HttpRequest

namespace HttpQueue

def default : HttpQueue := { nextId := 0, pending := ∅, outgoing := [] }

/-- The number after `nextId`: it wraps at 32 bits and skips zero. -/
def freshId (queue : HttpQueue) : Nat := max ((queue.nextId + 1) % 2 ^ 32) 1

def request (queue : HttpQueue) (url : String) (method : HttpMethod)
    (authorization : Option (String × String)) : Nat × HttpQueue :=
  let id := queue.freshId
  (id,
    { nextId := id
      pending := queue.pending.insert id url
      outgoing := queue.outgoing ++
        [{ id := id, url := url, method := method, authorization := authorization }] })

def get (queue : HttpQueue) (url : String) : Nat × HttpQueue := queue.request url .get none

def nextRequest (queue : HttpQueue) : Option HttpRequest × HttpQueue :=
  match queue.outgoing with
  | [] => (none, queue)
  | request :: rest => (some request, { queue with outgoing := rest })

def hasOutgoing (queue : HttpQueue) : Bool := !queue.outgoing.isEmpty

def clear (queue : HttpQueue) : HttpQueue := { queue with pending := ∅, outgoing := [] }

def complete (queue : HttpQueue) (id : Nat) : Outcome StorageError String × HttpQueue :=
  match queue.pending[id]? with
  | none => (.err .unknownRequest, queue)
  | some url => (.ok url, { queue with pending := queue.pending.erase id })

end HttpQueue

end Storage
end Riscbox
