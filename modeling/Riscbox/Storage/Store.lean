import Riscbox.Collections.Slices
import Riscbox.Storage.Http

/-!
# Sector stores

The stores of `src/block_storage.rs`: an array of bytes, and an immutable base
that is fetched in chunks under overlay clusters of written sectors.  As for the
namespace, `usize` has 32 bits.
-/

namespace Riscbox
namespace Storage

open Slices

def sectorSize : Nat := 512

def clusterSize : Nat := 4096

/-- A parsed manifest value; object keys are unique. -/
inductive Value where
  | null
  | bool (value : Bool)
  | integer (value : Int32)
  | string (value : String)
  | array (values : List Value)
  | object (fields : List (String × Value))

namespace Value

def asInteger : Value → Option Int32
  | integer value => some value
  | _ => none

def asArray : Value → Option (List Value)
  | array values => some values
  | _ => none

def asObject : Value → Option (List (String × Value))
  | object fields => some fields
  | _ => none

end Value

/-- The written sectors of one cluster; a bit of `dirty` is one sector. -/
structure Overlay where
  bytes : List UInt8
  dirty : BitVec 8
  length_eq : bytes.length = clusterSize

namespace Overlay

def clean : Overlay :=
  { bytes := List.replicate clusterSize 0, dirty := 0, length_eq := List.length_replicate }

def isDirty (overlay : Overlay) (offset : Nat) : Bool :=
  overlay.dirty &&& ((1 : BitVec 8) <<< (offset / sectorSize)) ≠ 0

def sector (overlay : Overlay) (offset : Nat) : List UInt8 :=
  slice overlay.bytes offset sectorSize

/-- Whole sectors of a cluster are overwritten in place, so it keeps its size. -/
def write (overlay : Overlay) (offset : Nat) (chunk : List UInt8)
    (h : offset + chunk.length ≤ clusterSize) : Overlay :=
  { bytes := splice overlay.bytes offset chunk
    dirty := overlay.dirty ||| ((1 : BitVec 8) <<< (offset / sectorSize))
    length_eq := by rw [length_splice (by rw [overlay.length_eq]; exact h), overlay.length_eq] }

end Overlay

structure PendingChunk where
  block : Nat
  demanded : Bool
  deriving DecidableEq, Repr

/-- The dimensions that `from_manifest` checks. -/
structure Geometry where
  blockSize : Nat
  blockCount : Nat
  isPowerOfTwo : blockSize.isPowerOfTwo
  wholeSectors : sectorSize ∣ blockSize
  addressable : blockSize ≤ usizeMax
  blockCount_pos : 0 < blockCount
  blockCount_le : blockCount ≤ u32Max

structure HttpBlockStore where
  baseUrl : String
  geometry : Geometry
  cacheLimit : Nat
  clock : Nat
  cache : BTreeMap Nat (Nat × List UInt8)
  overlays : BTreeMap Nat Overlay
  failed : BTreeSet Nat
  pending : BTreeMap Nat PendingChunk
  queue : HttpQueue

namespace HttpBlockStore

def blockSize (store : HttpBlockStore) : Nat := store.geometry.blockSize

def blockCount (store : HttpBlockStore) : Nat := store.geometry.blockCount

def capacitySectors (store : HttpBlockStore) : Nat :=
  store.blockCount * (store.blockSize / sectorSize)

/-- `clock.wrapping_add(1)`. -/
def tick (store : HttpBlockStore) : HttpBlockStore :=
  { store with clock := (store.clock + 1) % 2 ^ 64 }

/-! ## Requests -/

/-- A block number as `{block:09}`. -/
def blockName (block : Nat) : String :=
  let digits := toString block
  String.ofList (List.replicate (9 - digits.length) '0') ++ digits

def findPending (store : HttpBlockStore) (block : Nat) : Option (Nat × PendingChunk) :=
  store.pending.toList.find? fun entry => entry.2.block == block

def requestBlock (block : Nat) (demanded : Bool) : Op HttpBlockStore StorageError Unit :=
  fun store =>
    if block ≥ store.blockCount then (.err .outOfRange, store)
    else if store.cache.contains block then (.ok (), store)
    else match store.findPending block with
      | some (id, pending) =>
        (.ok (),
          { store with
            pending := store.pending.insert id
              { pending with demanded := pending.demanded || demanded } })
      | none =>
        let (id, queue) := store.queue.get (store.baseUrl ++ "blk" ++ blockName block ++ ".bin")
        (.ok (),
          { store with
            queue := queue
            pending := store.pending.insert id { block := block, demanded := demanded } })

def nextRequest (store : HttpBlockStore) : Option HttpRequest × HttpBlockStore :=
  let (request, queue) := store.queue.nextRequest
  (request, { store with queue := queue })

def hasOutgoing (store : HttpBlockStore) : Bool := store.queue.hasOutgoing

def resetRequests (store : HttpBlockStore) : HttpBlockStore :=
  { store with pending := ∅, queue := store.queue.clear, failed := ∅ }

def discardChanges (store : HttpBlockStore) : HttpBlockStore :=
  { store.resetRequests with overlays := ∅ }

def clearErrors (store : HttpBlockStore) : HttpBlockStore := { store with failed := ∅ }

/-! ## Responses -/

/-- The least recently used chunk, the first in chunk order among equals. -/
def oldest (cache : BTreeMap Nat (Nat × List UInt8)) : Option Nat :=
  (cache.toList.minOn? fun entry => entry.2.1).map Prod.fst

/-- One eviction for each unit of fuel, while the cache is over its limit. -/
def trimLoop (store : HttpBlockStore) :
    Nat → BTreeMap Nat (Nat × List UInt8) → BTreeMap Nat (Nat × List UInt8)
  | 0, cache => cache
  | fuel + 1, cache =>
    if min (cache.size * store.blockSize) usizeMax > store.cacheLimit then
      match oldest cache with
      | none => cache
      | some block => trimLoop store fuel (cache.erase block)
    else cache

/-- Every turn of the loop removes a chunk, so the size of the cache is fuel
enough. -/
def trimCache (store : HttpBlockStore) : HttpBlockStore :=
  { store with cache := store.trimLoop store.cache.size store.cache }

/-- The request leaves the queue and the table of pending chunks. -/
def takePending (id : Nat) : Op HttpBlockStore StorageError PendingChunk := fun store =>
  match store.queue.complete id with
  | (.err e, queue) => (.err e, { store with queue := queue })
  | (.panic, queue) => (.panic, { store with queue := queue })
  | (.ok _, queue) =>
    let store := { store with queue := queue }
    match store.pending[id]? with
    | none => (.err .unknownRequest, store)
    | some pending => (.ok pending, { store with pending := store.pending.erase id })

def markFailed (pending : PendingChunk) (store : HttpBlockStore) : HttpBlockStore :=
  if pending.demanded then { store with failed := store.failed.insert pending.block } else store

def fail (id : Nat) : Op HttpBlockStore StorageError Unit := do
  let pending ← takePending id
  Op.modify (markFailed pending)

/-- A response of the right size enters the cache as its newest chunk. -/
def accept (block : Nat) (data : List UInt8) (store : HttpBlockStore) : HttpBlockStore :=
  let store := store.tick
  { store with cache := store.cache.insert block (store.clock, data) }.trimCache

def respond (pending : PendingChunk) (data : List UInt8) :
    Op HttpBlockStore StorageError Unit := fun store =>
  if data.length ≠ store.blockSize then (.err .invalidResponse, markFailed pending store)
  else (.ok (), accept pending.block data store)

def complete (id : Nat) (data : List UInt8) : Op HttpBlockStore StorageError Unit := do
  let pending ← takePending id
  respond pending data

/-! ## Reading and writing -/

def validateRange (store : HttpBlockStore) (sector length : Nat) :
    Outcome StorageError Unit :=
  if length = 0 ∨ ¬ sectorSize ∣ length then .err .outOfRange
  else match checkedAdd u64Max sector (length / sectorSize) with
    | none => .err .outOfRange
    | some stop => if stop > store.capacitySectors then .err .outOfRange else .ok ()

def startByte (sector : Nat) : Outcome StorageError Nat :=
  .okOr .outOfRange (checkedMul u64Max sector sectorSize)

/-- The cache grows to hold every chunk of one read. -/
def retainWorkingSet (start length : Nat) : Op HttpBlockStore StorageError Unit := fun store =>
  match checkedAdd u64Max start (length - 1) with
  | none => (.err .outOfRange, store)
  | some last =>
    let blocks := last / store.blockSize - start / store.blockSize + 1
    match checkedMul usizeMax blocks store.blockSize with
    | none => (.err .outOfRange, store)
    | some bytes => (.ok (), { store with cacheLimit := max store.cacheLimit bytes })

/-- The sector of an overlay that overrides the base at this byte. -/
def dirtySector (store : HttpBlockStore) (byte : Nat) : Option (List UInt8) :=
  match store.overlays[byte / clusterSize]? with
  | none => none
  | some overlay =>
    if overlay.isDirty (byte % clusterSize) then some (overlay.sector (byte % clusterSize))
    else none

/-- A cached chunk becomes the newest. -/
def touch (block : Nat) (bytes : List UInt8) (store : HttpBlockStore) : HttpBlockStore :=
  let store := store.tick
  { store with cache := store.cache.insert block (store.clock, bytes) }

/-- The turn of the read loop for the sector at this byte. -/
def readSector (byte : Nat) : Op HttpBlockStore StorageError (List UInt8) := fun store =>
  match store.dirtySector byte with
  | some bytes => (.ok bytes, store)
  | none =>
    let block := byte / store.blockSize
    if block > u32Max then (.err .outOfRange, store)
    else if store.failed.contains block then (.err .backingFailed, store)
    else match store.cache[block]? with
      | none =>
        match requestBlock block true store with
        | (.ok _, store) => (.err (.missingBlock block), store)
        | (.err e, store) => (.err e, store)
        | (.panic, store) => (.panic, store)
      | some (_, bytes) =>
        let offset := byte % store.blockSize
        if offset + sectorSize ≤ bytes.length then
          (.ok (slice bytes offset sectorSize), store.touch block bytes)
        else (.panic, store.touch block bytes)

/-- The read loop from sector `index` of the buffer on: the sectors that it has
filled, and how it ended. -/
def readLoop (start : Nat) : Nat → Nat → HttpBlockStore →
    List UInt8 × Outcome StorageError Unit × HttpBlockStore
  | _, 0, store => ([], .ok (), store)
  | index, count + 1, store =>
    match checkedAdd u64Max start (index * sectorSize) with
    | none => ([], .err .outOfRange, store)
    | some byte =>
      match readSector byte store with
      | (.err e, store) => ([], .err e, store)
      | (.panic, store) => ([], .panic, store)
      | (.ok bytes, store) =>
        let (rest, ending, store) := readLoop start (index + 1) count store
        (bytes ++ rest, ending, store)

/-- What stands before the read loop. -/
def prepareRead (sector length : Nat) : Op HttpBlockStore StorageError Nat := do
  Op.reading fun store => store.validateRange sector length
  let start ← Op.lift (startByte sector)
  retainWorkingSet start length
  pure start

/-- `read_sectors`: the buffer after the call, however it ended. -/
def readSectors (sector : Nat) (data : List UInt8) (store : HttpBlockStore) :
    List UInt8 × Outcome StorageError Unit × HttpBlockStore :=
  match prepareRead sector data.length store with
  | (.err e, store) => (data, .err e, store)
  | (.panic, store) => (data, .panic, store)
  | (.ok start, store) =>
    let (filled, ending, store) := readLoop start 0 (data.length / sectorSize) store
    (filled ++ data.drop filled.length, ending, store)

/-- The turn of the write loop for the sector at this byte. -/
def writeSector (byte : Nat) (chunk : List UInt8) (store : HttpBlockStore) :
    Outcome StorageError Unit × HttpBlockStore :=
  let overlay := (store.overlays[byte / clusterSize]?).getD .clean
  if h : byte % clusterSize + chunk.length ≤ clusterSize then
    (.ok (),
      { store with
        overlays := store.overlays.insert (byte / clusterSize)
          (overlay.write (byte % clusterSize) chunk h) })
  else (.panic, store)

def writeLoop (start : Nat) : Nat → List (List UInt8) → Op HttpBlockStore StorageError Unit
  | _, [] => pure ()
  | index, chunk :: rest => fun store =>
    match checkedAdd u64Max start (index * sectorSize) with
    | none => (.err .outOfRange, store)
    | some byte =>
      match writeSector byte chunk store with
      | (.ok _, store) => writeLoop start (index + 1) rest store
      | (.err e, store) => (.err e, store)
      | (.panic, store) => (.panic, store)

/-- `data.chunks(SECTOR_SIZE)`. -/
def chunks (data : List UInt8) : List (List UInt8) :=
  (List.range ((data.length + sectorSize - 1) / sectorSize)).map fun index =>
    slice data (index * sectorSize) sectorSize

def writeSectors (sector : Nat) (data : List UInt8) : Op HttpBlockStore StorageError Unit := do
  Op.reading fun store => store.validateRange sector data.length
  let start ← Op.lift (startByte sector)
  writeLoop start 0 (chunks data)

/-! ## Manifests -/

def field (fields : List (String × Value)) (name : String) : Option Value :=
  (fields.find? fun entry => entry.1 == name).map Prod.snd

def positiveInteger (value : Option Value) (name : String) : Outcome StorageError Int32 :=
  .okOr (.invalidManifest name) ((value.bind Value.asInteger).filter fun n => 0 < n.toInt)

/-- The text up to and with its last slash. -/
def baseUrlOf (manifestUrl : String) : String :=
  String.ofList (manifestUrl.toList.reverse.dropWhile (· ≠ '/')).reverse

/-- A block size that `from_manifest` accepts. -/
abbrev BlockSize : Type :=
  { size : Nat // size.isPowerOfTwo ∧ sectorSize ∣ size ∧ size ≤ usizeMax }

def blockSizeOf (blockKib : Nat) : Outcome StorageError BlockSize :=
  match checkedMul usizeMax blockKib 1024 with
  | none => .err (.invalidManifest "invalid block_size")
  | some size =>
    if h : size.isPowerOfTwo ∧ sectorSize ∣ size ∧ size ≤ usizeMax then .ok ⟨size, h⟩
    else .err (.invalidManifest "invalid block_size")

def geometryOf (size : BlockSize) (blockCount : Nat) : Outcome StorageError Geometry :=
  if h : 0 < blockCount ∧ blockCount ≤ u32Max then
    .ok
      { blockSize := size.1, blockCount := blockCount
        isPowerOfTwo := size.2.1, wholeSectors := size.2.2.1, addressable := size.2.2.2
        blockCount_pos := h.1, blockCount_le := h.2 }
  else .err (.invalidManifest "invalid n_block")

def prefetchBlock (block : Value) : Op HttpBlockStore StorageError Unit :=
  match block.asInteger with
  | none => Op.fail (.invalidManifest "prefetch integer expected")
  | some index =>
    if index.toInt < 0 then Op.fail (.invalidManifest "invalid prefetch block")
    else requestBlock index.toInt.toNat false

def prefetchBlocks : List Value → Op HttpBlockStore StorageError Unit
  | [] => pure ()
  | block :: rest => do
    prefetchBlock block
    prefetchBlocks rest

/-- `from_manifest`, over the parser that delivers the manifest value. -/
def fromManifest (parseValue : String → Option Value) (manifestUrl source : String)
    (cacheLimit : Nat) : Outcome StorageError HttpBlockStore := do
  let value ← .okOr (.invalidManifest "syntax") (parseValue source)
  let object ← .okOr (.invalidManifest "object expected") value.asObject
  let blockKib ← positiveInteger (field object "block_size") "block_size"
  let size ← blockSizeOf blockKib.toInt.toNat
  let blockCount ← positiveInteger (field object "n_block") "n_block"
  let geometry ← geometryOf size blockCount.toInt.toNat
  let store : HttpBlockStore :=
    { baseUrl := baseUrlOf manifestUrl
      geometry := geometry
      cacheLimit := max cacheLimit geometry.blockSize
      clock := 0
      cache := ∅
      overlays := ∅
      failed := ∅
      pending := ∅
      queue := .default }
  match field object "prefetch" with
  | none => .ok store
  | some blocks => do
    let blocks ← .okOr (.invalidManifest "prefetch array expected") blocks.asArray
    match prefetchBlocks blocks store with
    | (.ok _, store) => .ok store
    | (.err e, _) => .err e
    | (.panic, _) => .panic

end HttpBlockStore

/-! ## Disks -/

inductive BlockStore where
  | array (bytes : List UInt8)
  | http (store : HttpBlockStore)

namespace BlockStore

/-- `isize::MAX`, the largest allocation. -/
def allocationMax : Nat := 2 ^ 31 - 1

/-- A zero-filled disk. -/
def newArray (capacitySectors : Nat) : Outcome StorageError BlockStore :=
  match checkedMul u64Max capacitySectors 512 with
  | none => .err .outOfRange
  | some length =>
    if length > usizeMax ∨ length = 0 then .err .outOfRange
    else if length > allocationMax then .err .outOfRange
    else .ok (.array (List.replicate length 0))

def range (sector length capacity : Nat) : Outcome StorageError (Nat × Nat) :=
  match checkedMul u64Max sector 512 with
  | none => .err .outOfRange
  | some start =>
    if start > usizeMax then .err .outOfRange
    else match checkedAdd usizeMax start length with
      | none => .err .outOfRange
      | some stop =>
        if stop > capacity then .err .outOfRange
        else if length = 0 ∨ ¬ 512 ∣ length then .err .outOfRange
        else .ok (start, stop)

def capacitySectors : BlockStore → Nat
  | array bytes => bytes.length / 512
  | http store => store.capacitySectors

def readSectors (sector : Nat) (data : List UInt8) :
    BlockStore → List UInt8 × Outcome StorageError Unit × BlockStore
  | array bytes =>
    match range sector data.length bytes.length with
    | .ok (start, _) => (slice bytes start data.length, .ok (), array bytes)
    | .err e => (data, .err e, array bytes)
    | .panic => (data, .panic, array bytes)
  | http store =>
    let (data, ending, store) := store.readSectors sector data
    (data, ending, http store)

def writeSectors (sector : Nat) (data : List UInt8) :
    BlockStore → Outcome StorageError Unit × BlockStore
  | array bytes =>
    match range sector data.length bytes.length with
    | .ok (start, _) => (.ok (), array (splice bytes start data))
    | .err e => (.err e, array bytes)
    | .panic => (.panic, array bytes)
  | http store =>
    let (ending, store) := store.writeSectors sector data
    (ending, http store)

def nextRequest : BlockStore → Option HttpRequest × BlockStore
  | array bytes => (none, array bytes)
  | http store =>
    let (request, store) := store.nextRequest
    (request, http store)

def hasOutgoing : BlockStore → Bool
  | array _ => false
  | http store => store.hasOutgoing

/-- A response of the wrong size counts as delivered: its readers find the
failed chunk. -/
def complete (id : Nat) (result : Option (List UInt8)) :
    BlockStore → Outcome StorageError Unit × BlockStore
  | array bytes => (.err .unknownRequest, array bytes)
  | http store =>
    match result with
    | some data =>
      match store.complete id data with
      | (.err .invalidResponse, store) => (.ok (), http store)
      | (ending, store) => (ending, http store)
    | none =>
      let (ending, store) := store.fail id
      (ending, http store)

def clearErrors : BlockStore → BlockStore
  | array bytes => array bytes
  | http store => http store.clearErrors

def discardChanges : BlockStore → Outcome StorageError Unit × BlockStore
  | array bytes => (.err .outOfRange, array bytes)
  | http store => (.ok (), http store.discardChanges)

/-- The backend's reset retires requests and keeps the stored bytes. -/
def reset : BlockStore → BlockStore
  | array bytes => array bytes
  | http store => http store.resetRequests

inductive BlockRequestStatus where
  | complete
  | pending
  deriving DecidableEq, Repr

/-- `read_request` of the backend; every failure is its one `Backend` error. -/
def readRequest (sector : Nat) (data : List UInt8) (store : BlockStore) :
    List UInt8 × Outcome Unit BlockRequestStatus × BlockStore :=
  match store.readSectors sector data with
  | (data, .ok _, store) => (data, .ok .complete, store)
  | (data, .err (.missingBlock _), store) => (data, .ok .pending, store)
  | (data, .err _, store) => (data, .err (), store.clearErrors)
  | (data, .panic, store) => (data, .panic, store)

def writeRequest (sector : Nat) (data : List UInt8) (store : BlockStore) :
    Outcome Unit BlockRequestStatus × BlockStore :=
  match store.writeSectors sector data with
  | (.ok _, store) => (.ok .complete, store)
  | (.err _, store) => (.err (), store)
  | (.panic, store) => (.panic, store)

end BlockStore

end Storage
end Riscbox
