import Riscbox.Storage.Requests

/-!
# Waiting reads

The reads that wait on one chunked store: the reads of the host in
`src/block_abi.rs`, which `DiskHandle.poll` retries in the order of their ids, or
the one read of the guest that `BlockDevice::resume` retries.
-/

namespace Riscbox
namespace Storage

inductive Side where
  | host
  | guest
  deriving DecidableEq, Repr

structure Reader where
  side : Side
  sector : Nat
  bytes : List UInt8

namespace Reader

/-- The number of sectors. -/
def count (reader : Reader) : Nat := reader.bytes.length / sectorSize

/-- The chunks that a read spans. -/
def span (g : Geometry) (reader : Reader) : Nat := g.span reader.sector reader.count

/-- One attempt, and whether the read still waits.  The guest's `read_request`
forgets failed chunks once it has reported one. -/
def attempt (reader : Reader) (store : HttpBlockStore) : Bool × Reader × HttpBlockStore :=
  match store.readSectors reader.sector reader.bytes with
  | (bytes, .err (.missingBlock _), store) => (true, { reader with bytes := bytes }, store)
  | (bytes, .err _, store) =>
    (false, { reader with bytes := bytes },
      match reader.side with
      | .host => store
      | .guest => store.clearErrors)
  | (bytes, _, store) => (false, { reader with bytes := bytes }, store)

end Reader

/-- All waiting reads are retried in order; those that end leave. -/
def poll : List Reader → HttpBlockStore → List Reader × HttpBlockStore
  | [], store => ([], store)
  | reader :: rest, store =>
    let (waits, reader, store) := reader.attempt store
    let (rest, store) := poll rest store
    (if waits then reader :: rest else rest, store)

/-- A store and the reads that wait on it. -/
structure SharedStore where
  store : HttpBlockStore
  waiting : List Reader

namespace SharedStore

inductive Event where
  | read (reader : Reader)
  | write (sector : Nat) (data : List UInt8)
  | nextRequest
  | complete (id : Nat) (data : List UInt8)
  | fail (id : Nat)
  | discard
  | reset

/-- The waiting reads are polled after the store has changed. -/
def polled (x : SharedStore) (store : HttpBlockStore) : SharedStore :=
  { store := (poll x.waiting store).2, waiting := (poll x.waiting store).1 }

/-- A host read that nothing waits with first forgets failed chunks. -/
def prepared (x : SharedStore) (reader : Reader) : HttpBlockStore :=
  match reader.side with
  | .host => if x.waiting.isEmpty then x.store.clearErrors else x.store
  | .guest => x.store

def read (x : SharedStore) (reader : Reader) : SharedStore :=
  let (waits, reader, store) := reader.attempt (x.prepared reader)
  { store := store, waiting := if waits then x.waiting ++ [reader] else x.waiting }

def perform (x : SharedStore) : Event → SharedStore
  | .read reader => x.read reader
  | .write sector data => x.polled (x.store.writeSectors sector data).2
  | .nextRequest => { x with store := x.store.nextRequest.2 }
  | .complete id data => x.polled (x.store.complete id data).2
  | .fail id => x.polled (x.store.fail id).2
  | .discard => { store := x.store.discardChanges, waiting := [] }
  | .reset => { store := x.store.resetRequests, waiting := [] }

/-! ## Counters -/

/-- The reads that an event attempts. -/
def attempted (x : SharedStore) : Event → List Reader
  | .read reader => [reader]
  | _ => x.waiting

/-- Neither the use counter nor the request numbers wrap in an event. -/
structure Unwrapped (x : SharedStore) (event : Event) : Prop where
  clock : x.store.clock + 1 + ((x.attempted event).map Reader.count).sum ≤ u64Max
  ids : x.store.queue.nextId + (x.attempted event).length ≤ u32Max

/-- The states that events reach from a new store. -/
inductive Reached (parseValue : String → Option Value)
    (allowed : SharedStore → Event → Prop) : SharedStore → Prop
  | start {manifestUrl source : String} {cacheLimit : Nat} {store : HttpBlockStore} :
      HttpBlockStore.fromManifest parseValue manifestUrl source cacheLimit = .ok store →
      Reached parseValue allowed { store := store, waiting := [] }
  | next {x : SharedStore} {event : Event} : Reached parseValue allowed x → allowed x event →
      Reached parseValue allowed (x.perform event)

/-! ## Rounds -/

/-- A response: the number of the request, and its bytes. -/
abbrev Response : Type := Nat × List UInt8

def deliver (x : SharedStore) (response : Response) : SharedStore :=
  x.perform (.complete response.1 response.2)

/-- A round answers every request in flight at its start, in any order. -/
structure Round (x : SharedStore) (responses : List Response) : Prop where
  ids : (responses.map Prod.fst).Perm (x.store.pending.toList.map Prod.fst)
  whole : ∀ response ∈ responses, response.2.length = x.store.blockSize

def Rounds : SharedStore → List (List Response) → Prop
  | _, [] => True
  | x, round :: rest => x.Round round ∧ Rounds (round.foldl deliver x) rest

/-- The counters do not wrap while the responses arrive. -/
def NoWrap : SharedStore → List Response → Prop
  | _, [] => True
  | x, response :: rest =>
    x.Unwrapped (.complete response.1 response.2) ∧ NoWrap (x.deliver response) rest

/-- The rounds that the reads may take: one for each read and one for each chunk
that it spans. -/
def budget (x : SharedStore) : Nat :=
  (x.waiting.map fun reader => 1 + reader.span x.store.geometry).sum

/-- A new request is for a chunk that was neither cached nor in flight. -/
def NewRequests (s t : HttpBlockStore) : Prop :=
  ∀ (id : Nat) (p : PendingChunk), s.pending[id]? = none → t.pending[id]? = some p →
    s.cache[p.block]? = none ∧
      ∀ (id' : Nat) (p' : PendingChunk), s.pending[id']? = some p' → p'.block ≠ p.block

/-- Every attempt of a poll makes new requests only. -/
def PollRequests : List Reader → HttpBlockStore → Prop
  | [], _ => True
  | reader :: rest, store =>
    NewRequests store (reader.attempt store).2.2 ∧
      PollRequests rest (reader.attempt store).2.2

/-- So does every attempt while the responses arrive. -/
def RunRequests : SharedStore → List Response → Prop
  | _, [] => True
  | x, response :: rest =>
    PollRequests x.waiting (x.store.complete response.1 response.2).2 ∧
      RunRequests (x.deliver response) rest

end SharedStore
end Storage
end Riscbox
