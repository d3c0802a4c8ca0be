import Riscbox.Storage.Store

/-!
# One sector at a time

What each turn of the read and write loops does.
-/

namespace Riscbox
namespace Storage

open Slices

/-! ## Chunks and clusters of a sector -/

namespace Geometry

/-- The chunk that holds a sector. -/
def chunk (g : Geometry) (sector : Nat) : Nat := sector * sectorSize / g.blockSize

/-- Sectors in one chunk. -/
def chunkSectors (g : Geometry) : Nat := g.blockSize / sectorSize

variable (g : Geometry)

theorem blockSize_pos : 0 < g.blockSize := Nat.pos_of_isPowerOfTwo g.isPowerOfTwo

theorem blockSize_eq : g.blockSize = g.chunkSectors * sectorSize :=
  (Nat.div_mul_cancel g.wholeSectors).symm

theorem chunkSectors_pos : 0 < g.chunkSectors := by
  have hpos := g.blockSize_pos
  rw [g.blockSize_eq] at hpos
  exact Nat.pos_of_mul_pos_right hpos

theorem chunk_eq (sector : Nat) : g.chunk sector = sector / g.chunkSectors := by
  rw [chunk, g.blockSize_eq]
  exact Nat.mul_div_mul_right _ _ (by decide)

theorem chunk_mono {a b : Nat} (h : a ≤ b) : g.chunk a ≤ g.chunk b := by
  rw [g.chunk_eq, g.chunk_eq]
  exact Nat.div_le_div_right h

/-- A sector does not cross the end of its chunk. -/
theorem sector_inside (sector : Nat) :
    sector * sectorSize % g.blockSize + sectorSize ≤ g.blockSize := by
  have hmod : sector * sectorSize % (g.chunkSectors * sectorSize) =
      sector % g.chunkSectors * sectorSize := Nat.mul_mod_mul_right _ _ _
  have hlt : sector % g.chunkSectors + 1 ≤ g.chunkSectors :=
    Nat.mod_lt _ g.chunkSectors_pos
  have hle := Nat.mul_le_mul_right sectorSize hlt
  rw [Nat.add_mul, Nat.one_mul] at hle
  rw [g.blockSize_eq, hmod]
  exact hle

theorem chunk_lt {sector : Nat} (h : sector < g.blockCount * g.chunkSectors) :
    g.chunk sector < g.blockCount := by
  rw [g.chunk_eq]
  exact Nat.div_lt_of_lt_mul (by rwa [Nat.mul_comm] at h)

/-- Every byte of a disk is numbered by 64 bits. -/
theorem capacity_bytes_le : g.blockCount * g.chunkSectors * sectorSize ≤ u64Max := by
  have hcount := g.blockCount_le
  have hsize := g.addressable
  rw [Nat.mul_assoc, ← g.blockSize_eq]
  refine (Nat.mul_le_mul hcount hsize).trans ?_
  decide

end Geometry

theorem cluster_of_sector (sector : Nat) : sector * sectorSize / clusterSize = sector / 8 := by
  unfold sectorSize clusterSize
  omega

theorem offset_of_sector (sector : Nat) :
    sector * sectorSize % clusterSize = sector % 8 * sectorSize := by
  unfold sectorSize clusterSize
  omega

theorem sector_in_cluster (sector : Nat) :
    sector * sectorSize % clusterSize + sectorSize ≤ clusterSize := by
  rw [offset_of_sector]
  unfold sectorSize clusterSize
  omega

/-! ## Overlays -/

theorem dirty_index (sector : Nat) :
    sector * sectorSize % clusterSize / sectorSize = sector % 8 := by
  rw [offset_of_sector]
  exact Nat.mul_div_cancel _ (by decide)

theorem Overlay.isDirty_eq (overlay : Overlay) (sector : Nat) :
    overlay.isDirty (sector * sectorSize % clusterSize) =
      overlay.dirty.getLsbD (sector % 8) := by
  have hlt : sector % 8 < 8 := Nat.mod_lt _ (by decide)
  have hand := BitVec.and_twoPow overlay.dirty (sector % 8)
  rw [isDirty, dirty_index]
  change decide (overlay.dirty &&& BitVec.twoPow 8 (sector % 8) ≠ 0) = _
  rw [hand]
  cases hbit : overlay.dirty.getLsbD (sector % 8) with
  | false => simp
  | true =>
      have hne : BitVec.twoPow 8 (sector % 8) ≠ 0 := by
        intro hzero
        have hbit := congrArg (fun b => BitVec.getLsbD b (sector % 8)) hzero
        simp [hlt] at hbit
      simpa using hne

theorem Overlay.clean_isDirty (offset : Nat) : Overlay.clean.isDirty offset = false := by
  simp [isDirty, clean]

theorem Overlay.write_isDirty (overlay : Overlay) (written sector : Nat) (chunk : List UInt8)
    (h : written * sectorSize % clusterSize + chunk.length ≤ clusterSize) :
    (overlay.write (written * sectorSize % clusterSize) chunk h).isDirty
        (sector * sectorSize % clusterSize) =
      (decide (written % 8 = sector % 8) ||
        overlay.isDirty (sector * sectorSize % clusterSize)) := by
  have hlt : sector % 8 < 8 := Nat.mod_lt _ (by decide)
  rw [isDirty_eq, isDirty_eq, write, dirty_index]
  change (overlay.dirty ||| BitVec.twoPow 8 (written % 8)).getLsbD (sector % 8) = _
  have hwritten : written % 8 < 8 := Nat.mod_lt _ (by decide)
  rw [BitVec.getLsbD_or, BitVec.getLsbD_twoPow, Bool.or_comm]
  simp [hwritten]

theorem Overlay.write_sector_self (overlay : Overlay) (sector : Nat) {chunk : List UInt8}
    (hchunk : chunk.length = sectorSize)
    (h : sector * sectorSize % clusterSize + chunk.length ≤ clusterSize) :
    (overlay.write (sector * sectorSize % clusterSize) chunk h).sector
      (sector * sectorSize % clusterSize) = chunk := by
  have hinside : sector * sectorSize % clusterSize + chunk.length ≤ overlay.bytes.length := by
    rw [overlay.length_eq]
    exact h
  have hslice := slice_splice_self hinside
  rw [hchunk] at hslice
  exact hslice

theorem Overlay.write_sector_of_ne (overlay : Overlay) {written sector : Nat}
    {chunk : List UInt8} (hchunk : chunk.length = sectorSize)
    (h : written * sectorSize % clusterSize + chunk.length ≤ clusterSize)
    (hne : written % 8 ≠ sector % 8) :
    (overlay.write (written * sectorSize % clusterSize) chunk h).sector
      (sector * sectorSize % clusterSize) =
      overlay.sector (sector * sectorSize % clusterSize) := by
  refine slice_splice_disjoint (by rw [overlay.length_eq]; exact h) ?_
  rw [hchunk, offset_of_sector, offset_of_sector]
  unfold sectorSize
  omega

/-- A whole-sector range inside a disk. -/
structure InRange (capacity sector length : Nat) : Prop where
  nonempty : length ≠ 0
  aligned : sectorSize ∣ length
  inside : sector + length / sectorSize ≤ capacity

instance (capacity sector length : Nat) : Decidable (InRange capacity sector length) :=
  decidable_of_iff (length ≠ 0 ∧ sectorSize ∣ length ∧ sector + length / sectorSize ≤ capacity)
    ⟨fun h => ⟨h.1, h.2.1, h.2.2⟩, fun h => ⟨h.nonempty, h.aligned, h.inside⟩⟩

namespace HttpBlockStore

/-! ## Requests for a chunk -/

/-- How a request for a chunk changes the store. -/
inductive Requested (s : HttpBlockStore) (block : Nat) (demanded : Bool) :
    HttpBlockStore → Prop
  | cached : s.cache[block]? ≠ none → Requested s block demanded s
  | joined {id : Nat} {pending : PendingChunk} :
      s.cache[block]? = none → s.pending[id]? = some pending → pending.block = block →
      Requested s block demanded
        { s with
          pending := s.pending.insert id
            { pending with demanded := pending.demanded || demanded } }
  | queued {url : String} :
      s.cache[block]? = none → (∀ (id : Nat) (p : PendingChunk), s.pending[id]? = some p → p.block ≠ block) →
      Requested s block demanded
        { s with
          queue := (s.queue.get url).2
          pending := s.pending.insert s.queue.freshId { block := block, demanded := demanded } }

theorem findPending_eq_some {s : HttpBlockStore} {block id : Nat} {p : PendingChunk}
    (h : s.findPending block = some (id, p)) : s.pending[id]? = some p ∧ p.block = block := by
  have hmem := List.mem_of_find?_eq_some h
  have hblock := List.find?_some h
  exact ⟨BTreeMap.mem_toList.mp hmem, by simpa using hblock⟩

theorem findPending_eq_none {s : HttpBlockStore} {block : Nat}
    (h : s.findPending block = none) {id : Nat} {p : PendingChunk}
    (hp : s.pending[id]? = some p) : p.block ≠ block := by
  have hnone := List.find?_eq_none.mp h (id, p) (BTreeMap.mem_toList.mpr hp)
  simpa using hnone

theorem requestBlock_spec {s : HttpBlockStore} {block : Nat} (h : block < s.blockCount)
    (demanded : Bool) :
    ∃ t, requestBlock block demanded s = (.ok (), t) ∧ Requested s block demanded t := by
  unfold requestBlock
  rw [if_neg (by omega)]
  by_cases hcached : s.cache.contains block = true
  · rw [if_pos hcached]
    refine ⟨s, rfl, .cached ?_⟩
    rw [BTreeMap.contains_eq_isSome] at hcached
    exact Option.isSome_iff_ne_none.mp hcached
  · rw [if_neg hcached]
    have hmiss : s.cache[block]? = none := by
      rw [BTreeMap.contains_eq_isSome] at hcached
      simpa using hcached
    cases hfind : s.findPending block with
    | some entry =>
        obtain ⟨id, p⟩ := entry
        obtain ⟨hp, hblock⟩ := findPending_eq_some hfind
        exact ⟨_, rfl, .joined hmiss hp hblock⟩
    | none => exact ⟨_, rfl, .queued hmiss fun id p hp => findPending_eq_none hfind hp⟩

/-! ## Reading a sector -/

/-- Cached chunks are whole. -/
def Whole (s : HttpBlockStore) : Prop :=
  ∀ (block age : Nat) (bytes : List UInt8), s.cache[block]? = some (age, bytes) →
    bytes.length = s.blockSize

/-- The bytes that override the base in a sector. -/
def overlaid (s : HttpBlockStore) (sector : Nat) : Option (List UInt8) :=
  s.dirtySector (sector * sectorSize)

/-- The base bytes of a sector, out of the bytes of its chunk. -/
def cut (g : Geometry) (sector : Nat) (bytes : List UInt8) : List UInt8 :=
  slice bytes (sector * sectorSize % g.blockSize) sectorSize

/-- How the read of one sector ends. -/
inductive SectorRead (s : HttpBlockStore) (sector : Nat) :
    Outcome StorageError (List UInt8) → HttpBlockStore → Prop
  | overlaid {bytes : List UInt8} : s.overlaid sector = some bytes →
      SectorRead s sector (.ok bytes) s
  | failed : s.overlaid sector = none → s.geometry.chunk sector ∈ s.failed →
      SectorRead s sector (.err .backingFailed) s
  | missing {t : HttpBlockStore} : s.overlaid sector = none →
      s.geometry.chunk sector ∉ s.failed → s.cache[s.geometry.chunk sector]? = none →
      Requested s (s.geometry.chunk sector) true t →
      SectorRead s sector (.err (.missingBlock (s.geometry.chunk sector))) t
  | cached {age : Nat} {bytes : List UInt8} : s.overlaid sector = none →
      s.geometry.chunk sector ∉ s.failed →
      s.cache[s.geometry.chunk sector]? = some (age, bytes) →
      SectorRead s sector (.ok (cut s.geometry sector bytes))
        (s.touch (s.geometry.chunk sector) bytes)

theorem readSector_spec {s : HttpBlockStore} (hwhole : s.Whole) {sector : Nat}
    (hsector : sector < s.capacitySectors) :
    SectorRead s sector (readSector (sector * sectorSize) s).1
      (readSector (sector * sectorSize) s).2 := by
  have hblock : s.geometry.chunk sector < s.blockCount := s.geometry.chunk_lt hsector
  have hcount : s.blockCount ≤ u32Max := s.geometry.blockCount_le
  have hchunk : sector * sectorSize / s.blockSize = s.geometry.chunk sector := rfl
  unfold readSector
  cases hover : s.overlaid sector with
  | some bytes =>
      rw [show s.dirtySector (sector * sectorSize) = some bytes from hover]
      exact .overlaid hover
  | none =>
      rw [show s.dirtySector (sector * sectorSize) = none from hover]
      simp only [hchunk]
      rw [if_neg (show ¬ s.geometry.chunk sector > u32Max by omega)]
      by_cases hfailed : s.failed.contains (s.geometry.chunk sector) = true
      · rw [if_pos hfailed]
        exact .failed hover (Std.ExtTreeSet.contains_iff_mem.mp hfailed)
      · rw [if_neg hfailed]
        have hnot : s.geometry.chunk sector ∉ s.failed :=
          fun h => hfailed (Std.ExtTreeSet.contains_iff_mem.mpr h)
        cases hcache : s.cache[s.geometry.chunk sector]? with
        | none =>
            obtain ⟨t, hrequest, ht⟩ := requestBlock_spec hblock true
            simp only [hrequest]
            exact .missing hover hnot hcache ht
        | some entry =>
            obtain ⟨age, bytes⟩ := entry
            have hlen := hwhole _ age bytes hcache
            have hinside := s.geometry.sector_inside sector
            simp only []
            rw [if_pos (by rw [hlen]; exact hinside)]
            exact .cached hover hnot hcache

/-- What reading does not change. -/
structure SameDisk (s t : HttpBlockStore) : Prop where
  geometry_eq : t.geometry = s.geometry
  overlays_eq : t.overlays = s.overlays
  failed_eq : t.failed = s.failed

/-- The cached bytes are the same; their ages may differ. -/
def SameBytes (s t : HttpBlockStore) : Prop :=
  ∀ block : Nat, (t.cache[block]?).map Prod.snd = (s.cache[block]?).map Prod.snd

theorem SameDisk.trans {s t u : HttpBlockStore} (h₁ : SameDisk s t) (h₂ : SameDisk t u) :
    SameDisk s u :=
  ⟨h₂.geometry_eq.trans h₁.geometry_eq, h₂.overlays_eq.trans h₁.overlays_eq,
    h₂.failed_eq.trans h₁.failed_eq⟩

theorem SameBytes.trans {s t u : HttpBlockStore} (h₁ : SameBytes s t) (h₂ : SameBytes t u) :
    SameBytes s u := fun block => (h₂ block).trans (h₁ block)

theorem SameDisk.overlaid_eq {s t : HttpBlockStore} (h : SameDisk s t) (sector : Nat) :
    t.overlaid sector = s.overlaid sector := by
  rw [overlaid, overlaid, dirtySector, dirtySector, h.overlays_eq]

theorem SameDisk.capacity_eq {s t : HttpBlockStore} (h : SameDisk s t) :
    t.capacitySectors = s.capacitySectors := by
  rw [capacitySectors, capacitySectors, blockCount, blockCount, blockSize, blockSize,
    h.geometry_eq]

theorem SameBytes.of_some {s t : HttpBlockStore} (h : SameBytes s t) {block age : Nat}
    {bytes : List UInt8} (ht : t.cache[block]? = some (age, bytes)) :
    ∃ old, s.cache[block]? = some (old, bytes) := by
  have hb := h block
  rw [ht] at hb
  cases hs : s.cache[block]? with
  | none =>
      rw [hs] at hb
      simp at hb
  | some entry =>
      obtain ⟨old, bytes'⟩ := entry
      rw [hs] at hb
      have hbytes : bytes = bytes' := by simpa using hb
      rw [hbytes]
      exact ⟨old, rfl⟩

theorem Whole.of_same {s t : HttpBlockStore} (hs : s.Whole) (hdisk : SameDisk s t)
    (hbytes : SameBytes s t) : t.Whole := by
  intro block age bytes ht
  obtain ⟨old, hold⟩ := hbytes.of_some ht
  rw [blockSize, hdisk.geometry_eq]
  exact hs block old bytes hold

theorem Requested.sameDisk {s t : HttpBlockStore} {block : Nat} {demanded : Bool}
    (h : Requested s block demanded t) : SameDisk s t := by
  cases h <;> exact ⟨rfl, rfl, rfl⟩

theorem Requested.cache_eq {s t : HttpBlockStore} {block : Nat} {demanded : Bool}
    (h : Requested s block demanded t) : t.cache = s.cache := by
  cases h <;> rfl

theorem touch_sameBytes {s : HttpBlockStore} {block age : Nat} {bytes : List UInt8}
    (h : s.cache[block]? = some (age, bytes)) : SameBytes s (s.touch block bytes) := by
  intro b
  show ((s.cache.insert block _)[b]?).map Prod.snd = _
  rw [BTreeMap.get_insert]
  by_cases hb : block = b
  · subst hb
    rw [if_pos rfl, h]
    rfl
  · rw [if_neg hb]

theorem SectorRead.same {s t : HttpBlockStore} {sector : Nat}
    {ending : Outcome StorageError (List UInt8)} (h : SectorRead s sector ending t) :
    SameDisk s t ∧ SameBytes s t := by
  cases h with
  | overlaid _ => exact ⟨⟨rfl, rfl, rfl⟩, fun _ => rfl⟩
  | failed _ _ => exact ⟨⟨rfl, rfl, rfl⟩, fun _ => rfl⟩
  | missing _ _ _ hr => exact ⟨hr.sameDisk, fun block => by rw [hr.cache_eq]⟩
  | cached _ _ hc => exact ⟨⟨rfl, rfl, rfl⟩, touch_sameBytes hc⟩

/-! ## Reading a range -/

/-- The read loop over `count` sectors from `sector` on. -/
inductive Reads : HttpBlockStore → Nat → Nat → List UInt8 → Outcome StorageError Unit →
    HttpBlockStore → Prop
  | done {s : HttpBlockStore} {sector : Nat} : Reads s sector 0 [] (.ok ()) s
  | next {s t u : HttpBlockStore} {sector count : Nat} {bytes rest : List UInt8}
      {ending : Outcome StorageError Unit} :
      SectorRead s sector (.ok bytes) t → Reads t (sector + 1) count rest ending u →
      Reads s sector (count + 1) (bytes ++ rest) ending u
  | stop {s t : HttpBlockStore} {sector count : Nat} {e : StorageError} :
      SectorRead s sector (.err e) t → Reads s sector (count + 1) [] (.err e) t

theorem Reads.same {s t : HttpBlockStore} {sector count : Nat} {bytes : List UInt8}
    {ending : Outcome StorageError Unit} (h : Reads s sector count bytes ending t) :
    SameDisk s t ∧ SameBytes s t := by
  induction h with
  | done => exact ⟨⟨rfl, rfl, rfl⟩, fun _ => rfl⟩
  | next hread _ ih =>
      exact ⟨hread.same.1.trans ih.1, hread.same.2.trans ih.2⟩
  | stop hread => exact hread.same

theorem SectorRead.ne_panic {s t : HttpBlockStore} {sector : Nat}
    {ending : Outcome StorageError (List UInt8)} (h : SectorRead s sector ending t) :
    ending ≠ .panic := by
  cases h <;> simp

theorem readLoop_spec {sector : Nat} (count : Nat) {s : HttpBlockStore} (hwhole : s.Whole)
    (index : Nat) (hrange : sector + index + count ≤ s.capacitySectors) :
    Reads s (sector + index) count (readLoop (sector * sectorSize) index count s).1
      (readLoop (sector * sectorSize) index count s).2.1
      (readLoop (sector * sectorSize) index count s).2.2 := by
  induction count generalizing s index with
  | zero => exact .done
  | succ count ih =>
      have hsector : sector + index < s.capacitySectors := by omega
      have hbytes : (sector + index) * sectorSize ≤ u64Max := by
        refine (Nat.mul_le_mul_right _ (Nat.le_of_lt hsector)).trans ?_
        exact s.geometry.capacity_bytes_le
      have hadd : checkedAdd u64Max (sector * sectorSize) (index * sectorSize) =
          some ((sector + index) * sectorSize) := by
        rw [checkedAdd_eq_some, Nat.add_mul]
        exact ⟨by rw [← Nat.add_mul]; exact hbytes, rfl⟩
      have hread := readSector_spec hwhole hsector
      unfold readLoop
      rw [hadd]
      simp only []
      rcases hcase : readSector ((sector + index) * sectorSize) s with ⟨ending, t⟩
      rw [hcase] at hread
      cases ending with
      | panic => exact absurd rfl hread.ne_panic
      | err e => exact .stop hread
      | ok bytes =>
          obtain ⟨hdisk, hsame⟩ := hread.same
          exact .next hread (ih (hwhole.of_same hdisk hsame) (index + 1)
            (by rw [hdisk.capacity_eq]; omega))

theorem capacity_le (s : HttpBlockStore) : s.capacitySectors * sectorSize ≤ u64Max :=
  s.geometry.capacity_bytes_le

theorem validateRange_eq (s : HttpBlockStore) (sector length : Nat) :
    s.validateRange sector length =
      if InRange s.capacitySectors sector length then .ok () else .err .outOfRange := by
  have hcap := s.capacity_le
  unfold validateRange
  by_cases hbad : length = 0 ∨ ¬ sectorSize ∣ length
  · rw [if_pos hbad, if_neg]
    intro h
    rcases hbad with h0 | hodd
    · exact h.nonempty h0
    · exact hodd h.aligned
  · rw [if_neg hbad]
    obtain ⟨h0, hdvd⟩ := not_or.mp hbad
    by_cases hfits : sector + length / sectorSize ≤ u64Max
    · rw [checkedAdd_eq_some.mpr ⟨hfits, rfl⟩]
      simp only []
      by_cases hinside : sector + length / sectorSize ≤ s.capacitySectors
      · rw [if_neg (by omega), if_pos ⟨h0, not_not.mp hdvd, hinside⟩]
      · rw [if_pos (by omega), if_neg fun h => hinside h.inside]
    · have hnone : checkedAdd u64Max sector (length / sectorSize) = none := by
        rw [checkedAdd, if_neg hfits]
      rw [hnone, if_neg]
      intro h
      have hinside := h.inside
      unfold sectorSize at hcap hinside hfits
      omega

end HttpBlockStore

/-- The number of chunks that meet a range of sectors. -/
def Geometry.span (g : Geometry) (sector count : Nat) : Nat :=
  g.chunk (sector + count - 1) - g.chunk sector + 1

/-- The last byte of a sector lies in the chunk of the sector. -/
theorem Geometry.chunk_last (g : Geometry) (sector : Nat) :
    (sector * sectorSize + (sectorSize - 1)) / g.blockSize = g.chunk sector := by
  have hlast : (sector * sectorSize + (sectorSize - 1)) / sectorSize = sector := by
    unfold sectorSize
    omega
  have hcomm : g.blockSize = sectorSize * g.chunkSectors := by
    rw [g.blockSize_eq, Nat.mul_comm]
  rw [g.chunk_eq, hcomm, ← Nat.div_div_eq_div_mul, hlast]

namespace HttpBlockStore

/-- The store once the cache limit covers a range. -/
def retained (s : HttpBlockStore) (sector count : Nat) : HttpBlockStore :=
  { s with cacheLimit := max s.cacheLimit (s.geometry.span sector count * s.blockSize) }

theorem prepareRead_spec (s : HttpBlockStore) (sector length : Nat) :
    prepareRead sector length s =
      if InRange s.capacitySectors sector length ∧
          s.geometry.span sector (length / sectorSize) * s.blockSize ≤ usizeMax then
        (.ok (sector * sectorSize), s.retained sector (length / sectorSize))
      else (.err .outOfRange, s) := by
  unfold prepareRead
  by_cases hrange : InRange s.capacitySectors sector length
  · have hcap := s.capacity_le
    obtain ⟨hne, hdvd, hinside⟩ := hrange
    obtain ⟨count, hcount⟩ := hdvd
    have hdiv : length / sectorSize = count := by
      rw [hcount]
      exact Nat.mul_div_cancel_left _ (by decide)
    have hpos : 0 < count := by
      rcases Nat.eq_zero_or_pos count with h0 | hpos
      · rw [h0, Nat.mul_zero] at hcount
        exact absurd hcount hne
      · exact hpos
    rw [hdiv] at hinside ⊢
    have hstart : startByte sector = .ok (sector * sectorSize) := by
      have hfits : sector * sectorSize ≤ u64Max := by
        have := Nat.mul_le_mul_right sectorSize (show sector ≤ s.capacitySectors by omega)
        omega
      rw [startByte, checkedMul_eq_some.mpr ⟨hfits, rfl⟩]
      rfl
    have hlast : sector * sectorSize + (length - 1) =
        (sector + count - 1) * sectorSize + (sectorSize - 1) := by
      rw [hcount]
      unfold sectorSize
      omega
    have hadd : checkedAdd u64Max (sector * sectorSize) (length - 1) =
        some ((sector + count - 1) * sectorSize + (sectorSize - 1)) := by
      rw [checkedAdd_eq_some, hlast]
      refine ⟨?_, rfl⟩
      have hlimit := Nat.mul_le_mul_right sectorSize hinside
      have hnext : sector + count = (sector + count - 1) + 1 := by omega
      rw [hnext, Nat.add_mul, Nat.one_mul] at hlimit
      omega
    have hvalid : Op.reading (fun store => validateRange store sector length) s =
        (.ok (), s) := by
      rw [Op.reading_apply, validateRange_eq,
        if_pos ⟨hne, ⟨count, hcount⟩, by rw [hdiv]; exact hinside⟩]
    have hretain : retainWorkingSet (sector * sectorSize) length s =
        if s.geometry.span sector count * s.blockSize ≤ usizeMax then
          (.ok (), s.retained sector count) else (.err .outOfRange, s) := by
      unfold retainWorkingSet
      rw [hadd]
      simp only []
      rw [show ((sector + count - 1) * sectorSize + (sectorSize - 1)) / s.blockSize =
          s.geometry.chunk (sector + count - 1) from s.geometry.chunk_last _]
      rw [show s.geometry.chunk (sector + count - 1) - sector * sectorSize / s.blockSize + 1 =
        s.geometry.span sector count from rfl]
      unfold checkedMul
      by_cases hfits : s.geometry.span sector count * s.blockSize ≤ usizeMax
      · rw [if_pos hfits, if_pos hfits]
        rfl
      · rw [if_neg hfits, if_neg hfits]
    refine (Op.bind_ok hvalid).trans ?_
    refine (Op.bind_ok (Op.lift_ok hstart s)).trans ?_
    rw [Op.bind_apply, hretain]
    by_cases hfits : s.geometry.span sector count * s.blockSize ≤ usizeMax
    · rw [if_pos hfits, if_pos ⟨⟨hne, ⟨count, hcount⟩, by rw [hdiv]; exact hinside⟩, hfits⟩]
      rfl
    · rw [if_neg hfits, if_neg fun h => hfits h.2]
  · rw [if_neg fun h => hrange h.1]
    refine (Op.bind_err ?_)
    rw [Op.reading_apply, validateRange_eq, if_neg hrange]

/-- `read_sectors` rejects a range before it changes anything, or runs the read
loop under the raised limit. -/
theorem readSectors_spec {s : HttpBlockStore} (hwhole : s.Whole) (sector : Nat)
    (data : List UInt8) :
    if InRange s.capacitySectors sector data.length ∧
        s.geometry.span sector (data.length / sectorSize) * s.blockSize ≤ usizeMax then
      ∃ filled ending t,
        Reads (s.retained sector (data.length / sectorSize)) sector
          (data.length / sectorSize) filled ending t ∧
        readSectors sector data s = (filled ++ data.drop filled.length, ending, t)
    else readSectors sector data s = (data, .err .outOfRange, s) := by
  unfold readSectors
  rw [prepareRead_spec]
  by_cases hrange : InRange s.capacitySectors sector data.length ∧
      s.geometry.span sector (data.length / sectorSize) * s.blockSize ≤ usizeMax
  · rw [if_pos hrange, if_pos hrange]
    exact ⟨_, _, _, readLoop_spec _ (show (s.retained sector _).Whole from hwhole) 0
      hrange.1.inside, rfl⟩
  · rw [if_neg hrange, if_neg hrange]

/-! ## Writing -/

theorem overlaid_insert (s : HttpBlockStore) (written sector : Nat) (overlay : Overlay) :
    ({ s with overlays := s.overlays.insert (written * sectorSize / clusterSize) overlay } :
        HttpBlockStore).overlaid sector =
      if written / 8 = sector / 8 then
        if overlay.isDirty (sector * sectorSize % clusterSize) then
          some (overlay.sector (sector * sectorSize % clusterSize))
        else none
      else s.overlaid sector := by
  unfold overlaid dirtySector
  rw [cluster_of_sector, cluster_of_sector, BTreeMap.get_insert]
  by_cases hcluster : written / 8 = sector / 8
  · rw [if_pos hcluster, if_pos hcluster]
  · rw [if_neg hcluster, if_neg hcluster]

theorem writeSector_spec (s : HttpBlockStore) (sector : Nat) {chunk : List UInt8}
    (hchunk : chunk.length = sectorSize) :
    ∃ overlays, writeSector (sector * sectorSize) chunk s =
        (.ok (), { s with overlays := overlays }) ∧
      ∀ i, ({ s with overlays := overlays } : HttpBlockStore).overlaid i =
        if i = sector then some chunk else s.overlaid i := by
  have hinside : sector * sectorSize % clusterSize + chunk.length ≤ clusterSize := by
    rw [hchunk]
    exact sector_in_cluster sector
  unfold writeSector
  simp only []
  rw [dif_pos hinside]
  refine ⟨_, rfl, fun i => ?_⟩
  rw [overlaid_insert]
  by_cases hi : i = sector
  · subst hi
    rw [if_pos rfl, if_pos rfl, Overlay.write_isDirty, Overlay.write_sector_self _ _ hchunk]
    simp
  · rw [if_neg hi]
    by_cases hcluster : sector / 8 = i / 8
    · have hne : sector % 8 ≠ i % 8 := by omega
      rw [if_pos hcluster, Overlay.write_isDirty, Overlay.write_sector_of_ne _ hchunk _ hne,
        decide_eq_false hne, Bool.false_or, cluster_of_sector]
      unfold overlaid dirtySector
      rw [cluster_of_sector, hcluster]
      cases s.overlays[i / 8]? with
      | none => simp [Overlay.clean_isDirty]
      | some overlay => rfl
    · rw [if_neg hcluster]

theorem writeLoop_spec (sector : Nat) (pieces : List (List UInt8))
    (hpieces : ∀ piece ∈ pieces, piece.length = sectorSize) (s : HttpBlockStore) (index : Nat)
    (hrange : (sector + index + pieces.length) * sectorSize ≤ u64Max) :
    ∃ overlays, writeLoop (sector * sectorSize) index pieces s =
        (.ok (), { s with overlays := overlays }) ∧
      ∀ i, ({ s with overlays := overlays } : HttpBlockStore).overlaid i =
        if sector + index ≤ i ∧ i < sector + index + pieces.length then
          pieces[i - (sector + index)]?
        else s.overlaid i := by
  induction pieces generalizing s index with
  | nil =>
      refine ⟨s.overlays, rfl, fun i => ?_⟩
      rw [if_neg (by rw [List.length_nil]; omega)]
  | cons piece rest ih =>
      have hfits : (sector + index) * sectorSize ≤ u64Max := by
        refine (Nat.mul_le_mul_right _ ?_).trans hrange
        omega
      have hadd : checkedAdd u64Max (sector * sectorSize) (index * sectorSize) =
          some ((sector + index) * sectorSize) := by
        rw [checkedAdd_eq_some, Nat.add_mul]
        exact ⟨by rw [← Nat.add_mul]; exact hfits, rfl⟩
      have hpiece := hpieces piece List.mem_cons_self
      obtain ⟨overlays, hwrite, hview⟩ := writeSector_spec s (sector + index) hpiece
      have hshift : sector + (index + 1) + rest.length =
          sector + index + (piece :: rest).length := by
        rw [List.length_cons]
        omega
      obtain ⟨overlays', hloop, hview'⟩ := ih (fun p hp => hpieces p (List.mem_cons_of_mem _ hp))
        { s with overlays := overlays } (index + 1) (by rw [hshift]; exact hrange)
      refine ⟨overlays', ?_, fun i => ?_⟩
      · unfold writeLoop
        rw [hadd]
        simp only [hwrite]
        exact hloop
      · rw [show ({ s with overlays := overlays' } : HttpBlockStore).overlaid i =
          ({ ({ s with overlays := overlays } : HttpBlockStore) with
            overlays := overlays' } : HttpBlockStore).overlaid i from rfl, hview' i, hview i,
          List.length_cons]
        by_cases hi : i = sector + index
        · subst hi
          rw [if_neg (by omega), if_pos rfl, if_pos (by omega), Nat.sub_self]
          rfl
        · by_cases hin : sector + (index + 1) ≤ i ∧ i < sector + (index + 1) + rest.length
          · rw [if_pos hin, if_pos (by omega)]
            obtain ⟨j, hj⟩ : ∃ j, i = sector + (index + 1) + j := ⟨i - (sector + (index + 1)), by omega⟩
            rw [hj, show sector + (index + 1) + j - (sector + (index + 1)) = j by omega,
              show sector + (index + 1) + j - (sector + index) = j + 1 by omega]
            rfl
          · rw [if_neg hin, if_neg hi, if_neg (by omega)]

theorem length_chunks {data : List UInt8} {count : Nat} (h : data.length = count * sectorSize) :
    (chunks data).length = count := by
  rw [chunks, List.length_map, List.length_range, h]
  unfold sectorSize
  omega

theorem getElem?_chunks {data : List UInt8} {count : Nat} (h : data.length = count * sectorSize)
    (i : Nat) : (chunks data)[i]? =
      if i < count then some (slice data (i * sectorSize) sectorSize) else none := by
  have hcount : (data.length + sectorSize - 1) / sectorSize = count := by
    rw [h]
    unfold sectorSize
    omega
  rw [chunks, hcount, List.getElem?_map]
  by_cases hi : i < count
  · rw [if_pos hi, List.getElem?_range hi]
    rfl
  · rw [if_neg hi, List.getElem?_eq_none (by rw [List.length_range]; omega)]
    rfl

theorem chunk_length {data : List UInt8} {count : Nat} (h : data.length = count * sectorSize)
    {piece : List UInt8} (hpiece : piece ∈ chunks data) : piece.length = sectorSize := by
  obtain ⟨i, hi⟩ := List.mem_iff_getElem?.mp hpiece
  rw [getElem?_chunks h] at hi
  by_cases hlt : i < count
  · rw [if_pos hlt] at hi
    rw [← Option.some.inj hi]
    apply length_slice
    have := Nat.mul_le_mul_right sectorSize (Nat.succ_le_of_lt hlt)
    rw [Nat.succ_mul] at this
    omega
  · rw [if_neg hlt] at hi
    simp at hi

/-- `write_sectors` overlays each sector of a range inside the disk, and rejects
every other range. -/
theorem writeSectors_spec (s : HttpBlockStore) (sector : Nat) (data : List UInt8) :
    if InRange s.capacitySectors sector data.length then
      ∃ overlays, writeSectors sector data s = (.ok (), { s with overlays := overlays }) ∧
        ∀ i, ({ s with overlays := overlays } : HttpBlockStore).overlaid i =
          if sector ≤ i ∧ i < sector + data.length / sectorSize then
            some (slice data ((i - sector) * sectorSize) sectorSize)
          else s.overlaid i
    else writeSectors sector data s = (.err .outOfRange, s) := by
  by_cases hrange : InRange s.capacitySectors sector data.length
  · rw [if_pos hrange]
    have hlength : data.length = data.length / sectorSize * sectorSize :=
      (Nat.div_mul_cancel hrange.aligned).symm
    have hlimit : (sector + data.length / sectorSize) * sectorSize ≤ u64Max :=
      (Nat.mul_le_mul_right _ hrange.inside).trans s.capacity_le
    have hvalid : Op.reading (fun store => validateRange store sector data.length) s =
        (.ok (), s) := by
      rw [Op.reading_apply, validateRange_eq, if_pos hrange]
    have hstart : startByte sector = .ok (sector * sectorSize) := by
      have hfits : sector * sectorSize ≤ u64Max :=
        (Nat.mul_le_mul_right _ (Nat.le_add_right _ _)).trans hlimit
      rw [startByte, checkedMul_eq_some.mpr ⟨hfits, rfl⟩]
      rfl
    obtain ⟨overlays, hloop, hview⟩ := writeLoop_spec sector (chunks data)
      (fun piece hp => chunk_length hlength hp) s 0
      (by rw [length_chunks hlength, Nat.add_zero]; exact hlimit)
    refine ⟨overlays, ?_, fun i => ?_⟩
    · refine (Op.bind_ok hvalid).trans ?_
      exact (Op.bind_ok (Op.lift_ok hstart s)).trans hloop
    · rw [hview i, length_chunks hlength, Nat.add_zero, getElem?_chunks hlength]
      by_cases hi : sector ≤ i ∧ i < sector + data.length / sectorSize
      · rw [if_pos hi, if_pos hi, if_pos (by omega)]
      · rw [if_neg hi, if_neg hi]
  · rw [if_neg hrange]
    refine Op.bind_err ?_
    rw [Op.reading_apply, validateRange_eq, if_neg hrange]

end HttpBlockStore

end Storage
end Riscbox
