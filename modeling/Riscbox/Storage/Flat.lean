import Riscbox.Storage.Sectors

/-!
# The flat disk

A copy-on-write store is a flat array of sectors: each sector holds what was last
written to it since the changes were last discarded, or else its base bytes.
-/

namespace Riscbox
namespace Storage

open Slices

/-! ## Calls on a store -/

inductive Operation where
  | readSectors (sector : Nat) (data : List UInt8)
  | writeSectors (sector : Nat) (data : List UInt8)
  | nextRequest
  | complete (id : Nat) (data : List UInt8)
  | fail (id : Nat)
  | clearErrors
  | resetRequests
  | discardChanges

/-- The store after a call. -/
def Operation.perform (store : HttpBlockStore) : Operation → HttpBlockStore
  | readSectors sector data => (store.readSectors sector data).2.2
  | writeSectors sector data => (store.writeSectors sector data).2
  | nextRequest => store.nextRequest.2
  | complete id data => (store.complete id data).2
  | fail id => (store.fail id).2
  | clearErrors => store.clearErrors
  | resetRequests => store.resetRequests
  | discardChanges => store.discardChanges

/-- The store after a sequence of calls. -/
def performAll (store : HttpBlockStore) (ops : List Operation) : HttpBlockStore :=
  ops.foldl Operation.perform store

/-- The immutable bytes of each chunk. -/
abbrev Base : Type := Nat → List UInt8

/-- A response of the right size for a pending chunk carries its base bytes. -/
def Operation.Honest (base : Base) (store : HttpBlockStore) : Operation → Prop
  | complete id data => ∀ pending, store.pending[id]? = some pending →
      data.length = store.blockSize → data = base pending.block
  | _ => True

def HonestRun (base : Base) (store : HttpBlockStore) : List Operation → Prop
  | [] => True
  | op :: rest => op.Honest base store ∧ HonestRun base (op.perform store) rest

/-! ## The abstract disk -/

structure FlatDisk where
  capacity : Nat
  base : Nat → List UInt8
  /-- The sectors written since the changes were last discarded. -/
  written : Nat → Option (List UInt8)

namespace FlatDisk

def contents (disk : FlatDisk) (sector : Nat) : List UInt8 :=
  (disk.written sector).getD (disk.base sector)

/-- The bytes of `count` sectors. -/
def bytes (disk : FlatDisk) (sector count : Nat) : List UInt8 :=
  (List.range' sector count).flatMap disk.contents

def write (disk : FlatDisk) (sector : Nat) (data : List UInt8) : FlatDisk :=
  { disk with
    written := fun i =>
      if sector ≤ i ∧ i < sector + data.length / sectorSize then
        some (slice data ((i - sector) * sectorSize) sectorSize)
      else disk.written i }

def discard (disk : FlatDisk) : FlatDisk := { disk with written := fun _ => none }

/-- Of all calls, only accepted writes and discards change the disk. -/
def perform (disk : FlatDisk) : Operation → FlatDisk
  | .writeSectors sector data =>
    if InRange disk.capacity sector data.length then disk.write sector data else disk
  | .discardChanges => disk.discard
  | _ => disk

def performAll (disk : FlatDisk) (ops : List Operation) : FlatDisk :=
  ops.foldl perform disk

end FlatDisk

/-- The untouched disk over a chunked base. -/
def HttpBlockStore.blank (base : Base) (store : HttpBlockStore) : FlatDisk :=
  { capacity := store.capacitySectors
    base := fun sector =>
      HttpBlockStore.cut store.geometry sector (base (store.geometry.chunk sector))
    written := fun _ => none }

/-! ## The store represents the disk -/

namespace HttpBlockStore

/-- Cached chunks are whole and hold the base bytes. -/
def Backed (base : Base) (s : HttpBlockStore) : Prop :=
  ∀ (block age : Nat) (bytes : List UInt8), s.cache[block]? = some (age, bytes) →
    bytes.length = s.blockSize ∧ bytes = base block

structure Represents (base : Base) (s : HttpBlockStore) (disk : FlatDisk) : Prop where
  backed : s.Backed base
  capacity_eq : disk.capacity = s.capacitySectors
  base_eq : ∀ sector, disk.base sector = cut s.geometry sector (base (s.geometry.chunk sector))
  written_eq : ∀ sector, disk.written sector = s.overlaid sector

theorem Backed.whole {base : Base} {s : HttpBlockStore} (h : s.Backed base) : s.Whole :=
  fun block age bytes hb => (h block age bytes hb).1

theorem Backed.of_same {base : Base} {s t : HttpBlockStore} (h : s.Backed base)
    (hdisk : SameDisk s t) (hbytes : SameBytes s t) : t.Backed base := by
  intro block age bytes ht
  obtain ⟨old, hold⟩ := hbytes.of_some ht
  rw [blockSize, hdisk.geometry_eq]
  exact h block old bytes hold

variable {base : Base} {s t : HttpBlockStore} {disk : FlatDisk}

theorem Represents.of_same (h : Represents base s disk) (hdisk : SameDisk s t)
    (hbytes : SameBytes s t) : Represents base t disk where
  backed := h.backed.of_same hdisk hbytes
  capacity_eq := h.capacity_eq.trans hdisk.capacity_eq.symm
  base_eq := by
    intro sector
    rw [hdisk.geometry_eq]
    exact h.base_eq sector
  written_eq := fun sector => (h.written_eq sector).trans (hdisk.overlaid_eq sector).symm

/-- What completions and resets leave alone: the disk, and no new cached bytes. -/
theorem Represents.of_backed (h : Represents base s disk) (hgeometry : t.geometry = s.geometry)
    (hoverlays : t.overlays = s.overlays) (hbacked : t.Backed base) :
    Represents base t disk where
  backed := hbacked
  capacity_eq := by
    rw [h.capacity_eq, capacitySectors, capacitySectors, blockCount, blockCount, blockSize,
      blockSize, hgeometry]
  base_eq := by
    intro sector
    rw [hgeometry]
    exact h.base_eq sector
  written_eq := by
    intro sector
    rw [h.written_eq, overlaid, overlaid, dirtySector, dirtySector, hoverlays]

/-! ## Completions -/

theorem trimLoop_sub (store : HttpBlockStore) (fuel : Nat)
    {cache : BTreeMap Nat (Nat × List UInt8)} {block : Nat} {entry : Nat × List UInt8}
    (h : (store.trimLoop fuel cache)[block]? = some entry) : cache[block]? = some entry := by
  induction fuel generalizing cache with
  | zero => exact h
  | succ fuel ih =>
      unfold trimLoop at h
      split at h
      · cases hold : oldest cache with
        | none =>
            rw [hold] at h
            exact h
        | some victim =>
            rw [hold] at h
            have herase := ih h
            rw [BTreeMap.get_erase] at herase
            by_cases hv : victim = block
            · rw [if_pos hv] at herase
              simp at herase
            · rwa [if_neg hv] at herase
      · exact h

/-- How a request leaves the tables. -/
theorem takePending_spec (s : HttpBlockStore) (id : Nat) :
    ((takePending id s).1 = .err .unknownRequest ∨
        ∃ p, (takePending id s).1 = .ok p ∧ s.pending[id]? = some p) ∧
      (takePending id s).2.geometry = s.geometry ∧
      (takePending id s).2.overlays = s.overlays ∧
      (takePending id s).2.cache = s.cache := by
  unfold takePending HttpQueue.complete
  cases hq : s.queue.pending[id]? with
  | none => exact ⟨.inl rfl, rfl, rfl, rfl⟩
  | some url =>
      simp only []
      cases hp : s.pending[id]? with
      | none => exact ⟨.inl rfl, rfl, rfl, rfl⟩
      | some p => exact ⟨.inr ⟨p, rfl, rfl⟩, rfl, rfl, rfl⟩

theorem markFailed_same (pending : PendingChunk) (s : HttpBlockStore) :
    (markFailed pending s).geometry = s.geometry ∧
      (markFailed pending s).overlays = s.overlays ∧
      (markFailed pending s).cache = s.cache := by
  unfold markFailed
  split <;> exact ⟨rfl, rfl, rfl⟩

theorem accept_backed {block : Nat} {data : List UInt8} (h : s.Backed base)
    (hlength : data.length = s.blockSize) (hdata : data = base block) :
    (accept block data s).Backed base := by
  intro b age bytes hb
  have hinsert : (s.cache.insert block (s.tick.clock, data))[b]? = some (age, bytes) :=
    trimLoop_sub _ _ hb
  rw [BTreeMap.get_insert] at hinsert
  by_cases hblock : block = b
  · rw [if_pos hblock] at hinsert
    have hbytes : bytes = data := by
      have := Option.some.inj hinsert
      exact (Prod.ext_iff.mp this).2.symm
    rw [hbytes, ← hblock]
    exact ⟨hlength, hdata⟩
  · rw [if_neg hblock] at hinsert
    exact h b age bytes hinsert

theorem Represents.complete (h : Represents base s disk) {id : Nat} {data : List UInt8}
    (honest : (Operation.complete id data).Honest base s) :
    Represents base (HttpBlockStore.complete id data s).2 disk := by
  obtain ⟨htake, hgeometry, hoverlays, hcache⟩ := takePending_spec s id
  have htaken : Represents base (takePending id s).2 disk := by
    refine h.of_backed hgeometry hoverlays ?_
    intro block age bytes hb
    rw [hcache] at hb
    rw [blockSize, hgeometry]
    exact h.backed block age bytes hb
  unfold HttpBlockStore.complete
  rw [Op.bind_apply]
  rcases hcase : takePending id s with ⟨ending, t⟩
  rw [hcase] at htake htaken hgeometry
  rcases htake with herr | ⟨p, hok, hp⟩
  · obtain rfl : ending = _ := herr
    exact htaken
  · obtain rfl : ending = _ := hok
    simp only [respond]
    split
    · obtain ⟨hg, ho, hc⟩ := markFailed_same p t
      refine htaken.of_backed hg ho ?_
      intro block age bytes hb
      rw [hc] at hb
      rw [blockSize, hg]
      exact htaken.backed block age bytes hb
    · next hlength =>
      have hlength := not_not.mp hlength
      refine htaken.of_backed rfl rfl (accept_backed htaken.backed hlength ?_)
      refine honest p hp ?_
      rw [hlength, blockSize, blockSize, hgeometry]

theorem Represents.fail (h : Represents base s disk) (id : Nat) :
    Represents base (HttpBlockStore.fail id s).2 disk := by
  obtain ⟨htake, hgeometry, hoverlays, hcache⟩ := takePending_spec s id
  have htaken : Represents base (takePending id s).2 disk := by
    refine h.of_backed hgeometry hoverlays ?_
    intro block age bytes hb
    rw [hcache] at hb
    rw [blockSize, hgeometry]
    exact h.backed block age bytes hb
  unfold HttpBlockStore.fail
  rw [Op.bind_apply]
  rcases hcase : takePending id s with ⟨ending, t⟩
  rw [hcase] at htake htaken
  rcases htake with herr | ⟨p, hok, _⟩
  · obtain rfl : ending = _ := herr
    exact htaken
  · obtain rfl : ending = _ := hok
    obtain ⟨hg, ho, hc⟩ := markFailed_same p t
    refine htaken.of_backed hg ho ?_
    intro block age bytes hb
    have hb : t.cache[block]? = some (age, bytes) := hc ▸ hb
    rw [blockSize, show (Op.modify (markFailed p) t : Outcome StorageError Unit × _).2.geometry =
      t.geometry from hg]
    exact htaken.backed block age bytes hb

/-! ## Reads and writes -/

theorem Reads.bytes_eq {sector count : Nat} {filled : List UInt8}
    {ending : Outcome StorageError Unit} (hreads : Reads s sector count filled ending t)
    (h : Represents base s disk) (hok : ending = .ok ()) :
    filled = disk.bytes sector count := by
  induction hreads with
  | done => rfl
  | @next s t u sector count bytes rest ending hread _ ih =>
      have hrest := ih (h.of_same hread.same.1 hread.same.2) hok
      have hbytes : bytes = disk.contents sector := by
        rw [FlatDisk.contents, h.written_eq]
        cases hread with
        | overlaid hover =>
            rw [hover]
            rfl
        | cached hover _ hcache =>
            rw [hover, Option.getD_none, h.base_eq, (h.backed _ _ _ hcache).2]
      rw [hbytes, hrest, FlatDisk.bytes, FlatDisk.bytes, List.range'_succ, List.flatMap_cons]
  | stop => simp at hok

theorem length_overlaid {sector : Nat} {bytes : List UInt8}
    (h : s.overlaid sector = some bytes) : bytes.length = sectorSize := by
  unfold overlaid dirtySector at h
  cases hget : s.overlays[sector * sectorSize / clusterSize]? with
  | none =>
      rw [hget] at h
      simp at h
  | some overlay =>
      rw [hget] at h
      simp only [] at h
      split at h
      · injection h with h
        rw [← h]
        exact length_slice (by rw [overlay.length_eq]; exact sector_in_cluster sector)
      · simp at h

theorem SectorRead.length_eq {sector : Nat} {bytes : List UInt8} (hwhole : s.Whole)
    (h : SectorRead s sector (.ok bytes) t) : bytes.length = sectorSize := by
  cases h with
  | overlaid hover => exact length_overlaid hover
  | cached _ _ hcache =>
      exact length_slice (by rw [hwhole _ _ _ hcache]; exact s.geometry.sector_inside sector)

theorem Reads.length_eq {sector count : Nat} {filled : List UInt8}
    {ending : Outcome StorageError Unit} (hreads : Reads s sector count filled ending t)
    (hwhole : s.Whole) (hok : ending = .ok ()) : filled.length = count * sectorSize := by
  induction hreads with
  | done => exact (Nat.zero_mul _).symm
  | next hread _ ih =>
      have hrest := ih (hwhole.of_same hread.same.1 hread.same.2) hok
      rw [List.length_append, hread.length_eq hwhole, hrest, Nat.add_mul, Nat.one_mul,
        Nat.add_comm]
  | stop => simp at hok

/-- A read inside the disk is never out of range. -/
theorem Reads.ne_outOfRange {sector count : Nat} {filled : List UInt8}
    {ending : Outcome StorageError Unit} (hreads : Reads s sector count filled ending t) :
    ending ≠ .err .outOfRange := by
  induction hreads with
  | done => simp
  | next _ _ ih => exact ih
  | stop hread => cases hread <;> simp

/-- Written sectors are read whatever is cached, pending or failed. -/
theorem Reads.ok_of_overlaid {sector count : Nat} {filled : List UInt8}
    {ending : Outcome StorageError Unit} (hreads : Reads s sector count filled ending t)
    (hover : ∀ i, sector ≤ i → i < sector + count → s.overlaid i ≠ none) : ending = .ok () := by
  induction hreads with
  | done => rfl
  | @next s t u sector count bytes rest ending hread _ ih =>
      refine ih fun i hle hlt => ?_
      rw [hread.same.1.overlaid_eq]
      exact hover i (by omega) (by omega)
  | @stop s t sector count e hread =>
      have hsector := hover sector (Nat.le_refl _) (by omega)
      cases hread <;> contradiction

theorem retained_same (s : HttpBlockStore) (sector count : Nat) :
    SameDisk s (s.retained sector count) ∧ SameBytes s (s.retained sector count) :=
  ⟨⟨rfl, rfl, rfl⟩, fun _ => rfl⟩

theorem readSectors_same (hwhole : s.Whole) (sector : Nat) (data : List UInt8) :
    SameDisk s (readSectors sector data s).2.2 ∧
      SameBytes s (readSectors sector data s).2.2 := by
  have hspec := readSectors_spec hwhole sector data
  split at hspec
  · obtain ⟨filled, ending, t, hreads, heq⟩ := hspec
    rw [heq]
    obtain ⟨hdisk, hbytes⟩ := retained_same s sector (data.length / sectorSize)
    exact ⟨hdisk.trans hreads.same.1, hbytes.trans hreads.same.2⟩
  · rw [hspec]
    exact ⟨⟨rfl, rfl, rfl⟩, fun _ => rfl⟩

theorem Represents.write (h : Represents base s disk) (sector : Nat) (data : List UInt8) :
    Represents base (writeSectors sector data s).2
      (disk.perform (.writeSectors sector data)) := by
  have hspec := writeSectors_spec s sector data
  simp only [FlatDisk.perform, h.capacity_eq]
  by_cases hrange : InRange s.capacitySectors sector data.length
  · rw [if_pos hrange] at hspec ⊢
    obtain ⟨overlays, heq, hview⟩ := hspec
    rw [heq]
    refine ⟨h.backed, h.capacity_eq, h.base_eq, fun i => ?_⟩
    rw [hview i, FlatDisk.write]
    simp only [h.written_eq]
  · rw [if_neg hrange] at hspec ⊢
    rw [hspec]
    exact h

theorem overlaid_discard (s : HttpBlockStore) (sector : Nat) :
    s.discardChanges.overlaid sector = none := by
  unfold overlaid dirtySector
  rw [show s.discardChanges.overlays[sector * sectorSize / clusterSize]? = none by
    simp [discardChanges]]

/-- Every call keeps the store a representation of the disk. -/
theorem Represents.perform (h : Represents base s disk) {op : Operation}
    (honest : op.Honest base s) : Represents base (op.perform s) (disk.perform op) := by
  cases op with
  | readSectors sector data =>
      obtain ⟨hdisk, hbytes⟩ := readSectors_same h.backed.whole sector data
      exact h.of_same hdisk hbytes
  | writeSectors sector data => exact h.write sector data
  | nextRequest => exact h.of_backed rfl rfl h.backed
  | complete id data => exact h.complete honest
  | fail id => exact h.fail id
  | clearErrors => exact h.of_backed rfl rfl h.backed
  | resetRequests => exact h.of_backed rfl rfl h.backed
  | discardChanges =>
      exact ⟨h.backed, h.capacity_eq, h.base_eq, fun i => (overlaid_discard s i).symm⟩

theorem Represents.performAll (h : Represents base s disk) {ops : List Operation}
    (honest : HonestRun base s ops) :
    Represents base (performAll s ops) (disk.performAll ops) := by
  induction ops generalizing s disk with
  | nil => exact h
  | cons op rest ih => exact ih (h.perform honest.1) honest.2

/-! ## Manifests -/

/-- A new store caches nothing and has no written sector. -/
structure Blank (s : HttpBlockStore) : Prop where
  cache_eq : s.cache = ∅
  overlays_eq : s.overlays = ∅

theorem Blank.of_requested {block : Nat} {demanded : Bool} (h : Blank s)
    (hreq : Requested s block demanded t) : Blank t :=
  ⟨hreq.cache_eq.trans h.cache_eq, hreq.sameDisk.overlays_eq.trans h.overlays_eq⟩

/-- A store before its first request. -/
structure Bare (s : HttpBlockStore) : Prop where
  clock_eq : s.clock = 0
  cache_eq : s.cache = ∅
  overlays_eq : s.overlays = ∅
  failed_eq : s.failed = ∅
  pending_eq : s.pending = ∅
  queue_eq : s.queue = .default

/-- Prefetching keeps what a request that nobody waits for keeps. -/
theorem prefetchBlocks_rule {P : HttpBlockStore → Prop} {blocks : List Value}
    (hstep : ∀ (s t : HttpBlockStore) (block : Nat), P s → block < s.blockCount →
      Requested s block false t → P t)
    (h : P s) (hok : prefetchBlocks blocks s = (.ok (), t)) : P t := by
  induction blocks generalizing s with
  | nil =>
      have hst : s = t := congrArg Prod.snd hok
      exact hst ▸ h
  | cons block rest ih =>
      obtain ⟨_, u, hblock, hrest⟩ := Op.bind_eq_ok hok
      refine ih ?_ hrest
      unfold prefetchBlock at hblock
      cases hindex : block.asInteger with
      | none =>
          rw [hindex] at hblock
          simp [Op.fail] at hblock
      | some index =>
          rw [hindex] at hblock
          simp only [] at hblock
          split at hblock
          · simp [Op.fail] at hblock
          · by_cases hin : index.toInt.toNat < s.blockCount
            · obtain ⟨v, hreq, hv⟩ := requestBlock_spec hin false
              rw [hreq] at hblock
              obtain rfl : v = u := congrArg Prod.snd hblock
              exact hstep s v _ h hin hv
            · unfold requestBlock at hblock
              rw [if_pos (by omega)] at hblock
              simp at hblock

/-- A new store is a bare one after its prefetches. -/
theorem fromManifest_rule {P : HttpBlockStore → Prop} {parseValue : String → Option Value}
    {manifestUrl source : String} {cacheLimit : Nat} (hbare : ∀ s : HttpBlockStore, s.Bare → P s)
    (hstep : ∀ (s t : HttpBlockStore) (block : Nat), P s → block < s.blockCount →
      Requested s block false t → P t)
    (h : fromManifest parseValue manifestUrl source cacheLimit = .ok s) : P s := by
  unfold fromManifest at h
  obtain ⟨value, _, h⟩ := Outcome.bind_eq_ok.mp h
  obtain ⟨object, _, h⟩ := Outcome.bind_eq_ok.mp h
  obtain ⟨blockKib, _, h⟩ := Outcome.bind_eq_ok.mp h
  obtain ⟨size, _, h⟩ := Outcome.bind_eq_ok.mp h
  obtain ⟨blockCount, _, h⟩ := Outcome.bind_eq_ok.mp h
  obtain ⟨geometry, _, h⟩ := Outcome.bind_eq_ok.mp h
  simp only [] at h
  split at h
  · injection h with h
    subst h
    exact hbare _ ⟨rfl, rfl, rfl, rfl, rfl, rfl⟩
  · obtain ⟨blocks, _, h⟩ := Outcome.bind_eq_ok.mp h
    split at h
    · next hprefetch =>
      injection h with h
      subst h
      exact prefetchBlocks_rule hstep (hbare _ ⟨rfl, rfl, rfl, rfl, rfl, rfl⟩) hprefetch
    · simp at h
    · simp at h

theorem fromManifest_blank {parseValue : String → Option Value} {manifestUrl source : String}
    {cacheLimit : Nat} (h : fromManifest parseValue manifestUrl source cacheLimit = .ok s) :
    Blank s :=
  fromManifest_rule (fun _ hbare => ⟨hbare.cache_eq, hbare.overlays_eq⟩)
    (fun _ _ _ hblank _ hrequested => hblank.of_requested hrequested) h

theorem Blank.represents (base : Base) (h : Blank s) : Represents base s (s.blank base) where
  backed := by
    intro block age bytes hb
    rw [h.cache_eq] at hb
    simp at hb
  capacity_eq := rfl
  base_eq := fun _ => rfl
  written_eq := by
    intro sector
    unfold overlaid dirtySector
    rw [h.overlays_eq]
    simp [blank]

end HttpBlockStore

/-! ## What the calls answer -/

/-- The answers of a store that stands for a flat disk. -/
structure Refines (store : HttpBlockStore) (disk : FlatDisk) : Prop where
  /-- A finished read delivers the sectors of the disk. -/
  read : ∀ (sector : Nat) (data data' : List UInt8) (t : HttpBlockStore),
    store.readSectors sector data = (data', .ok (), t) →
      data' = disk.bytes sector (data.length / sectorSize)
  /-- Written sectors are read at once. -/
  resident : ∀ (sector : Nat) (data : List UInt8),
    (store.readSectors sector data).2.1 ≠ .err .outOfRange →
    (∀ i, sector ≤ i → i < sector + data.length / sectorSize → disk.written i ≠ none) →
      (store.readSectors sector data).2.1 = .ok ()
  write : ∀ (sector : Nat) (data : List UInt8),
    (store.writeSectors sector data).1 = .ok () ↔ InRange disk.capacity sector data.length
  /-- An array disk of the same capacity accepts the same ranges. -/
  array : ∀ array : BlockStore, BlockStore.newArray disk.capacity = .ok array →
    ∀ (sector : Nat) (data : List UInt8),
      ((store.readSectors sector data).2.1 ≠ .err .outOfRange ↔
        (array.readSectors sector data).2.1 = .ok ()) ∧
      ((store.writeSectors sector data).1 = .ok () ↔
        (array.writeSectors sector data).1 = .ok ())

theorem BlockStore.range_eq (sector length : Nat) {capacity : Nat} (h : capacity ≤ usizeMax) :
    BlockStore.range sector length capacity =
      if length ≠ 0 ∧ 512 ∣ length ∧ sector * 512 + length ≤ capacity then
        .ok (sector * 512, sector * 512 + length)
      else .err .outOfRange := by
  have husize : usizeMax ≤ u64Max := by decide
  unfold BlockStore.range
  by_cases hfits : sector * 512 ≤ u64Max
  · rw [checkedMul_eq_some.mpr ⟨hfits, rfl⟩]
    simp only []
    by_cases hstart : sector * 512 > usizeMax
    · rw [if_pos hstart, if_neg (by omega)]
    · rw [if_neg hstart]
      by_cases hstop : sector * 512 + length ≤ usizeMax
      · rw [checkedAdd_eq_some.mpr ⟨hstop, rfl⟩]
        simp only []
        by_cases hinside : sector * 512 + length > capacity
        · rw [if_pos hinside, if_neg (by omega)]
        · rw [if_neg hinside]
          by_cases hbad : length = 0 ∨ ¬ 512 ∣ length
          · rw [if_pos hbad, if_neg]
            rintro ⟨hne, hdvd, _⟩
            rcases hbad with h0 | hodd
            · exact hne h0
            · exact hodd hdvd
          · obtain ⟨hne, hdvd⟩ := not_or.mp hbad
            rw [if_neg hbad, if_pos ⟨hne, not_not.mp hdvd, Nat.le_of_not_gt hinside⟩]
      · have hnone : checkedAdd usizeMax (sector * 512) length = none := if_neg hstop
        rw [hnone, if_neg (by omega)]
  · have hnone : checkedMul u64Max sector 512 = none := if_neg hfits
    rw [hnone, if_neg (by omega)]

theorem inRange_bytes {capacity sector length : Nat} :
    InRange capacity sector length ↔
      length ≠ 0 ∧ 512 ∣ length ∧ sector * 512 + length ≤ capacity * 512 := by
  constructor
  · rintro ⟨hne, ⟨count, rfl⟩, hinside⟩
    rw [Nat.mul_div_cancel_left _ (by decide)] at hinside
    refine ⟨hne, ⟨count, rfl⟩, ?_⟩
    unfold sectorSize
    omega
  · rintro ⟨hne, ⟨count, rfl⟩, hinside⟩
    refine ⟨hne, ⟨count, rfl⟩, ?_⟩
    rw [show 512 * count / sectorSize = count from Nat.mul_div_cancel_left _ (by decide)]
    omega

/-- The chunks of a range inside the disk hold no more than the disk. -/
theorem Geometry.span_le (g : Geometry) {sector count : Nat} (hcount : 0 < count)
    (h : sector + count ≤ g.blockCount * g.chunkSectors) :
    g.span sector count * g.blockSize ≤ g.blockCount * g.chunkSectors * sectorSize := by
  have hlast : g.chunk (sector + count - 1) < g.blockCount := g.chunk_lt (by omega)
  have hspan : g.span sector count ≤ g.blockCount := by
    unfold span
    omega
  rw [Nat.mul_assoc, ← g.blockSize_eq]
  exact Nat.mul_le_mul_right _ hspan

theorem newArray_eq_ok {capacity : Nat} {array : BlockStore}
    (h : BlockStore.newArray capacity = .ok array) :
    capacity * 512 ≤ usizeMax ∧ array = .array (List.replicate (capacity * 512) 0) := by
  unfold BlockStore.newArray at h
  cases hmul : checkedMul u64Max capacity 512 with
  | none =>
      rw [hmul] at h
      simp at h
  | some length =>
      obtain ⟨_, rfl⟩ := checkedMul_eq_some.mp hmul
      rw [hmul] at h
      simp only [] at h
      split at h
      · simp at h
      · split at h
        · simp at h
        · injection h with h
          exact ⟨by omega, h.symm⟩

namespace HttpBlockStore

variable {base : Base} {s : HttpBlockStore} {disk : FlatDisk}

theorem Represents.refines (h : Represents base s disk) : Refines s disk where
  read := by
    intro sector data data' t hread
    have hspec := readSectors_spec h.backed.whole sector data
    split at hspec
    · next hrange =>
      obtain ⟨filled, ending, u, hreads, heq⟩ := hspec
      rw [heq] at hread
      obtain ⟨rfl, hrest⟩ := Prod.mk.inj hread
      obtain ⟨rfl, rfl⟩ := Prod.mk.inj hrest
      obtain ⟨hdisk, hbytes⟩ := retained_same s sector (data.length / sectorSize)
      have hfilled := hreads.bytes_eq (h.of_same hdisk hbytes) rfl
      have hlength : filled.length = data.length := by
        rw [hreads.length_eq (h.backed.whole.of_same hdisk hbytes) rfl]
        exact Nat.div_mul_cancel hrange.1.aligned
      rw [List.drop_eq_nil_of_le (by omega), List.append_nil, hfilled]
    · rw [hspec] at hread
      simp at hread
  resident := by
    intro sector data haccept hwritten
    have hspec := readSectors_spec h.backed.whole sector data
    split at hspec
    · obtain ⟨filled, ending, u, hreads, heq⟩ := hspec
      rw [heq]
      refine hreads.ok_of_overlaid fun i hle hlt => ?_
      rw [(retained_same s sector _).1.overlaid_eq, ← h.written_eq]
      exact hwritten i hle hlt
    · rw [hspec] at haccept
      exact absurd rfl haccept
  write := by
    intro sector data
    have hspec := writeSectors_spec s sector data
    rw [h.capacity_eq]
    split at hspec
    · next hrange =>
      obtain ⟨overlays, heq, _⟩ := hspec
      rw [heq]
      exact ⟨fun _ => hrange, fun _ => rfl⟩
    · next hrange =>
      rw [hspec]
      exact ⟨fun hc => by simp at hc, fun hc => absurd hc hrange⟩
  array := by
    intro array harray sector data
    obtain ⟨hsize, rfl⟩ := newArray_eq_ok harray
    have hlength : (List.replicate (disk.capacity * 512) (0 : UInt8)).length =
        disk.capacity * 512 := List.length_replicate
    have hrange := BlockStore.range_eq sector data.length hsize
    by_cases hin : InRange disk.capacity sector data.length
    · have hbytes := inRange_bytes.mp hin
      rw [if_pos hbytes] at hrange
      constructor
      · have hspan : s.geometry.span sector (data.length / sectorSize) * s.blockSize ≤
            usizeMax := by
          have hpos : 0 < data.length / sectorSize :=
            Nat.div_pos (Nat.le_of_dvd (Nat.pos_of_ne_zero hin.nonempty) hin.aligned)
              (by decide)
          have hinside := hin.inside
          rw [h.capacity_eq] at hinside hsize
          exact (s.geometry.span_le hpos hinside).trans hsize
        have hspec := readSectors_spec h.backed.whole sector data
        rw [if_pos ⟨h.capacity_eq ▸ hin, hspan⟩] at hspec
        obtain ⟨filled, ending, u, hreads, heq⟩ := hspec
        rw [heq, BlockStore.readSectors, hlength, hrange]
        exact ⟨fun _ => rfl, fun _ => hreads.ne_outOfRange⟩
      · have hspec := writeSectors_spec s sector data
        rw [if_pos (h.capacity_eq ▸ hin)] at hspec
        obtain ⟨overlays, heq, _⟩ := hspec
        rw [heq, BlockStore.writeSectors, hlength, hrange]
    · rw [if_neg fun hbytes => hin (inRange_bytes.mpr hbytes)] at hrange
      constructor
      · have hspec := readSectors_spec h.backed.whole sector data
        rw [if_neg fun hc => hin (h.capacity_eq ▸ hc.1)] at hspec
        rw [hspec, BlockStore.readSectors, hlength, hrange]
        exact ⟨fun hc => absurd rfl hc, fun hc => by simp at hc⟩
      · have hspec := writeSectors_spec s sector data
        rw [if_neg fun hc => hin (h.capacity_eq ▸ hc)] at hspec
        rw [hspec, BlockStore.writeSectors, hlength, hrange]

end HttpBlockStore

/-- A store made from a manifest refines the flat disk over its base through
every sequence of calls, in whatever order the responses come. -/
theorem fromManifest_refines (parseValue : String → Option Value) (manifestUrl source : String)
    (cacheLimit : Nat) (store : HttpBlockStore) (base : Base) (ops : List Operation)
    (hstore : HttpBlockStore.fromManifest parseValue manifestUrl source cacheLimit = .ok store)
    (honest : HonestRun base store ops) :
    Refines (performAll store ops) ((store.blank base).performAll ops) := by
  have hblank := HttpBlockStore.fromManifest_blank hstore
  exact ((hblank.represents base).performAll honest).refines

/-- Two chunks of two sectors. -/
def smallManifest : Value :=
  .object [("block_size", .integer 1), ("n_block", .integer 2)]

/-- The store of `smallManifest`. -/
def smallStore : HttpBlockStore :=
  { baseUrl := ""
    geometry :=
      { blockSize := 1024, blockCount := 2, isPowerOfTwo := ⟨10, rfl⟩
        wholeSectors := by decide, addressable := by decide
        blockCount_pos := by decide, blockCount_le := by decide }
    cacheLimit := 4096
    clock := 0
    cache := ∅
    overlays := ∅
    failed := ∅
    pending := ∅
    queue := .default }

set_option maxRecDepth 20000 in
/-- A stray response of the wrong size, then a write. -/
theorem fromManifest_refines_small :
    Refines
      (performAll smallStore [.complete 1 [], .writeSectors 1 (List.replicate 512 7)])
      ((smallStore.blank fun _ => []).performAll
        [.complete 1 [], .writeSectors 1 (List.replicate 512 7)]) :=
  fromManifest_refines (fun _ => some smallManifest) "disk.json" "" 4096 smallStore (fun _ => [])
    _ (by rfl) ⟨fun _ _ h => absurd h (by decide), trivial, trivial⟩

end Storage
end Riscbox
