import Riscbox.Collections.Recency
import Riscbox.Storage.Readers

/-!
# Demand fetching makes progress

The read that was retried last has its resident chunks as the newest of the
cache, and the limit holds its whole span.  A completion therefore evicts none of
them, and the first missing chunk only moves forward.
-/

namespace Riscbox
namespace Storage
namespace HttpBlockStore

open Recency

variable {s t u : HttpBlockStore}

/-! ## Chunks that a read has used -/

/-- The base chunks of the first sectors of a range. -/
def needed (s : HttpBlockStore) : Nat → Nat → Finset Nat
  | _, 0 => ∅
  | sector, count + 1 =>
    if s.overlaid sector = none then
      insert (s.geometry.chunk sector) (s.needed (sector + 1) count)
    else s.needed (sector + 1) count

theorem mem_needed {sector count block : Nat} : block ∈ s.needed sector count ↔
    ∃ i < count, s.overlaid (sector + i) = none ∧ s.geometry.chunk (sector + i) = block := by
  induction count generalizing sector with
  | zero => simp [needed]
  | succ count ih =>
      have hshift : (∃ i < count + 1, s.overlaid (sector + i) = none ∧
          s.geometry.chunk (sector + i) = block) ↔
          (s.overlaid sector = none ∧ s.geometry.chunk sector = block) ∨
            ∃ i < count, s.overlaid (sector + 1 + i) = none ∧
              s.geometry.chunk (sector + 1 + i) = block := by
        constructor
        · rintro ⟨i, hi, hover, hchunk⟩
          cases i with
          | zero => exact .inl ⟨hover, hchunk⟩
          | succ i =>
              rw [show sector + (i + 1) = sector + 1 + i by omega] at hover hchunk
              exact .inr ⟨i, by omega, hover, hchunk⟩
        · rintro (⟨hover, hchunk⟩ | ⟨i, hi, hover, hchunk⟩)
          · exact ⟨0, by omega, hover, hchunk⟩
          · rw [show sector + 1 + i = sector + (i + 1) by omega] at hover hchunk
            exact ⟨i + 1, by omega, hover, hchunk⟩
      rw [hshift, needed, ← ih]
      by_cases hover : s.overlaid sector = none
      · rw [if_pos hover, Finset.mem_insert]
        simp [hover, eq_comm]
      · rw [if_neg hover]
        simp [hover]

/-- Reading this sector does not miss. -/
def Resident (s : HttpBlockStore) (sector : Nat) : Prop :=
  s.overlaid sector ≠ none ∨ s.cache[s.geometry.chunk sector]? ≠ none

/-- The store keeps its disk and its cached bytes; failed chunks may be forgotten. -/
structure Kept (s t : HttpBlockStore) : Prop where
  geometry_eq : t.geometry = s.geometry
  overlays_eq : t.overlays = s.overlays
  bytes_eq : SameBytes s t
  limit_le : s.cacheLimit ≤ t.cacheLimit

theorem Kept.refl (s : HttpBlockStore) : Kept s s := ⟨rfl, rfl, fun _ => rfl, Nat.le_refl _⟩

theorem Kept.trans (h₁ : Kept s t) (h₂ : Kept t u) : Kept s u :=
  ⟨h₂.geometry_eq.trans h₁.geometry_eq, h₂.overlays_eq.trans h₁.overlays_eq,
    h₁.bytes_eq.trans h₂.bytes_eq, h₁.limit_le.trans h₂.limit_le⟩

theorem Kept.overlaid_eq (h : Kept s t) (sector : Nat) : t.overlaid sector = s.overlaid sector := by
  rw [overlaid, overlaid, dirtySector, dirtySector, h.overlays_eq]

theorem SameBytes.none_iff (h : SameBytes s t) (block : Nat) :
    t.cache[block]? = none ↔ s.cache[block]? = none := by
  have hb := h block
  constructor
  · intro ht
    rw [ht] at hb
    simpa using hb.symm
  · intro hs
    rw [hs] at hb
    simpa using hb

theorem Kept.resident_iff (h : Kept s t) (sector : Nat) : t.Resident sector ↔ s.Resident sector := by
  unfold Resident
  rw [h.overlaid_eq, h.geometry_eq, ne_eq, ne_eq, h.bytes_eq.none_iff]

theorem Kept.needed_eq (h : Kept s t) (sector count : Nat) :
    t.needed sector count = s.needed sector count := by
  ext block
  simp only [mem_needed, h.overlaid_eq, h.geometry_eq]

/-! ## Numbers in use -/

/-- The counters are ahead of everything that they have numbered. -/
structure Counted (s : HttpBlockStore) : Prop where
  used : UsedBy s.cache s.clock
  numbered : ∀ (id : Nat) (p : PendingChunk), s.pending[id]? = some p → id ≤ s.queue.nextId

/-- Requests in flight keep their numbers and chunks. -/
def InFlight (s t : HttpBlockStore) : Prop :=
  ∀ (id : Nat) (p : PendingChunk), s.pending[id]? = some p →
    ∃ q, t.pending[id]? = some q ∧ q.block = p.block

theorem InFlight.trans (h₁ : InFlight s t) (h₂ : InFlight t u) : InFlight s u := by
  intro id p hp
  obtain ⟨q, hq, hqp⟩ := h₁ id p hp
  obtain ⟨r, hr, hrq⟩ := h₂ id q hq
  exact ⟨r, hr, hrq.trans hqp⟩

theorem freshId_eq (h : s.queue.nextId + 1 ≤ u32Max) : s.queue.freshId = s.queue.nextId + 1 := by
  unfold HttpQueue.freshId
  rw [Nat.mod_eq_of_lt (by unfold u32Max at h; omega)]
  omega

/-- A request that is numbered afresh, or the one that is already in flight. -/
structure RequestStep (s t : HttpBlockStore) (block : Nat) : Prop where
  counted : t.Counted
  next_le : t.queue.nextId ≤ s.queue.nextId + 1
  flight : InFlight s t
  pending : s.cache[block]? = none →
    ∃ (id : Nat) (p : PendingChunk), t.pending[id]? = some p ∧ p.block = block
  fresh : SharedStore.NewRequests s t

theorem Requested.step {block : Nat} {demanded : Bool} (h : Requested s block demanded t)
    (hs : s.Counted) (hroom : s.queue.nextId + 1 ≤ u32Max) : RequestStep s t block := by
  cases h with
  | cached hstored =>
      refine ⟨hs, Nat.le_succ _, fun id p hp => ⟨p, hp, rfl⟩, fun hmiss => absurd hmiss hstored,
        fun id p hnone hp => ?_⟩
      rw [hnone] at hp
      simp at hp
  | @joined id pending hmiss hpending hblock =>
      have hget : ∀ a : Nat,
          (s.pending.insert id { pending with demanded := pending.demanded || demanded })[a]? =
            if id = a then some { pending with demanded := pending.demanded || demanded }
            else s.pending[a]? := fun a => BTreeMap.get_insert _ _ _ _
      refine ⟨⟨hs.used, fun a p ha => ?_⟩, Nat.le_succ _, fun a p ha => ?_,
        fun _ => ⟨id, _, (hget id).trans (if_pos rfl), hblock⟩, fun a p hnone ha => ?_⟩
      · rw [hget] at ha
        by_cases hid : id = a
        · rw [← hid]
          exact hs.numbered id pending hpending
        · rw [if_neg hid] at ha
          exact hs.numbered a p ha
      · rw [hget]
        by_cases hid : id = a
        · rw [if_pos hid]
          rw [← hid, hpending] at ha
          rw [← Option.some.inj ha]
          exact ⟨_, rfl, rfl⟩
        · rw [if_neg hid]
          exact ⟨p, ha, rfl⟩
      · rw [hget] at ha
        by_cases hid : id = a
        · rw [← hid, hpending] at hnone
          simp at hnone
        · rw [if_neg hid, hnone] at ha
          simp at ha
  | @queued url hmiss hnew =>
      have hid := freshId_eq hroom
      have hget : ∀ a : Nat,
          (s.pending.insert s.queue.freshId { block := block, demanded := demanded })[a]? =
            if s.queue.freshId = a then some { block := block, demanded := demanded }
            else s.pending[a]? := fun a => BTreeMap.get_insert _ _ _ _
      refine ⟨⟨hs.used, fun a p ha => ?_⟩, ?_, fun a p ha => ?_,
        fun _ => ⟨s.queue.freshId, _, (hget _).trans (if_pos rfl), rfl⟩, fun a p hnone ha => ?_⟩
      · show a ≤ s.queue.freshId
        rw [hget] at ha
        by_cases ha' : s.queue.freshId = a
        · omega
        · rw [if_neg ha'] at ha
          have := hs.numbered a p ha
          omega
      · show s.queue.freshId ≤ s.queue.nextId + 1
        omega
      · have hle := hs.numbered a p ha
        rw [hget, if_neg (by omega)]
        exact ⟨p, ha, rfl⟩
      · rw [hget] at ha
        by_cases ha' : s.queue.freshId = a
        · rw [if_pos ha'] at ha
          rw [← Option.some.inj ha]
          exact ⟨hmiss, hnew⟩
        · rw [if_neg ha', hnone] at ha
          simp at ha

/-! ## One attempt -/

/-- What the attempt of a read does to the counters and the requests. -/
structure ReadStep (s t : HttpBlockStore) (count : Nat) : Prop where
  counted : t.Counted
  clock_le : t.clock ≤ s.clock + count
  next_le : t.queue.nextId ≤ s.queue.nextId + 1
  flight : InFlight s t
  fresh : SharedStore.NewRequests s t

theorem Counted.readStep (hs : s.Counted) (count : Nat) : ReadStep s s count := by
  refine ⟨hs, Nat.le_add_right _ _, Nat.le_succ _, fun id p hp => ⟨p, hp, rfl⟩,
    fun id p hnone hp => ?_⟩
  rw [hnone] at hp
  simp at hp

theorem touch_clock (h : s.clock + 1 ≤ u64Max) (block : Nat) (bytes : List UInt8) :
    s.touch block bytes =
      { s with clock := s.clock + 1, cache := s.cache.insert block (s.clock + 1, bytes) } := by
  have hclock : (s.clock + 1) % 2 ^ 64 = s.clock + 1 :=
    Nat.mod_eq_of_lt (by unfold u64Max at h; omega)
  unfold touch tick
  rw [hclock]

theorem touch_counted (hs : s.Counted) (h : s.clock + 1 ≤ u64Max) (block : Nat)
    (bytes : List UInt8) : (s.touch block bytes).Counted := by
  rw [touch_clock h]
  exact ⟨hs.used.insert block bytes, hs.numbered⟩

/-- Touching a cached chunk first changes nothing for the requests after it. -/
theorem ReadStep.touched {block age count : Nat} {bytes : List UInt8}
    (hcache : s.cache[block]? = some (age, bytes)) (h : s.clock + 1 ≤ u64Max)
    (hstep : ReadStep (s.touch block bytes) u count) : ReadStep s u (count + 1) := by
  obtain ⟨hcounted, hclock, hnext, hflight, hfresh⟩ := hstep
  have hsame := touch_sameBytes hcache
  refine ⟨hcounted, ?_, hnext, hflight, fun id p hnone hp => ?_⟩
  · rw [touch_clock h] at hclock
    have hclock : u.clock ≤ s.clock + 1 + count := hclock
    omega
  · obtain ⟨hmiss, hnew⟩ := hfresh id p hnone hp
    exact ⟨(hsame.none_iff p.block).mp hmiss, hnew⟩

theorem Reads.step {sector count : Nat} {filled : List UInt8}
    {ending : Outcome StorageError Unit} (h : Reads s sector count filled ending t)
    (hs : s.Counted) (hclock : s.clock + count ≤ u64Max)
    (hroom : s.queue.nextId + 1 ≤ u32Max) : ReadStep s t count := by
  induction h with
  | done => exact hs.readStep 0
  | @next s t u sector count bytes rest ending hread _ ih =>
      cases hread with
      | overlaid _ =>
          obtain ⟨hcounted, hle, hnext, hflight, hfresh⟩ := ih hs (by omega) hroom
          exact ⟨hcounted, by omega, hnext, hflight, hfresh⟩
      | @cached age base _ _ hcache =>
          have hone : s.clock + 1 ≤ u64Max := by omega
          refine ReadStep.touched hcache hone (ih (touch_counted hs hone _ _) ?_ hroom)
          rw [touch_clock hone]
          show s.clock + 1 + count ≤ u64Max
          omega
  | @stop s t sector count e hread =>
      cases hread with
      | failed _ _ => exact hs.readStep _
      | missing _ _ _ hrequested =>
          obtain ⟨hcounted, hnext, hflight, _, hfresh⟩ := hrequested.step hs hroom
          have htick : t.clock = s.clock := by cases hrequested <;> rfl
          exact ⟨hcounted, by omega, hnext, hflight, hfresh⟩

/-- Reading this sector misses a chunk. -/
structure Missing (s : HttpBlockStore) (sector block : Nat) : Prop where
  overlaid_eq : s.overlaid sector = none
  chunk_eq : s.geometry.chunk sector = block
  uncached : s.cache[block]? = none

theorem Missing.not_resident {sector block : Nat} (h : s.Missing sector block) :
    ¬s.Resident sector := by
  rintro (hover | hcached)
  · exact hover h.overlaid_eq
  · rw [h.chunk_eq] at hcached
    exact hcached h.uncached

theorem Kept.missing_iff (h : Kept s t) (sector block : Nat) :
    t.Missing sector block ↔ s.Missing sector block := by
  constructor
  · rintro ⟨hover, hchunk, hmiss⟩
    rw [h.overlaid_eq] at hover
    rw [h.geometry_eq] at hchunk
    exact ⟨hover, hchunk, (h.bytes_eq.none_iff block).mp hmiss⟩
  · rintro ⟨hover, hchunk, hmiss⟩
    refine ⟨?_, ?_, (h.bytes_eq.none_iff block).mpr hmiss⟩
    · rw [h.overlaid_eq]
      exact hover
    · rw [h.geometry_eq]
      exact hchunk

theorem Reads.kept {sector count : Nat} {filled : List UInt8}
    {ending : Outcome StorageError Unit} (h : Reads s sector count filled ending t) :
    Kept s t := by
  have hlimit : s.cacheLimit ≤ t.cacheLimit := by
    induction h with
    | done => exact Nat.le_refl _
    | next hread _ ih =>
        refine Nat.le_trans ?_ ih
        cases hread <;> exact Nat.le_refl _
    | stop hread =>
        cases hread with
        | failed => exact Nat.le_refl _
        | missing _ _ _ hrequested => cases hrequested <;> exact Nat.le_refl _
  exact ⟨h.same.1.geometry_eq, h.same.1.overlays_eq, h.same.2, hlimit⟩

/-- Where a read stops that misses a chunk: the chunks that it used before are the
newest ones, and the missing one is in flight. -/
theorem Reads.walk {sector count block : Nat} {filled : List UInt8}
    {ending : Outcome StorageError Unit} (h : Reads s sector count filled ending t)
    (hs : s.Counted) (hclock : s.clock + count ≤ u64Max)
    (hroom : s.queue.nextId + 1 ≤ u32Max) {ks : Finset Nat} (hnew : Newest s.cache ks)
    (hmiss : ending = .err (.missingBlock block)) :
    ∃ ahead < count, (∀ i < ahead, s.Resident (sector + i)) ∧
      s.Missing (sector + ahead) block ∧ Newest t.cache (ks ∪ s.needed sector ahead) ∧
      ∃ (id : Nat) (p : PendingChunk), t.pending[id]? = some p ∧ p.block = block := by
  induction h generalizing ks with
  | done => simp at hmiss
  | @next s t u sector count bytes rest ending hread _ ih =>
      have hfirst : s.Resident sector := by
        cases hread with
        | overlaid hover => exact .inl (by rw [hover]; simp)
        | cached _ _ hcache => exact .inr (by rw [hcache]; simp)
      have hkept : Kept s t := by
        refine ⟨hread.same.1.geometry_eq, hread.same.1.overlays_eq, hread.same.2, ?_⟩
        cases hread <;> exact Nat.le_refl _
      -- the first sector adds its chunk to the newest ones, unless it is overlaid
      have hrest : ∃ ks', Newest t.cache ks' ∧ t.Counted ∧ t.clock + count ≤ u64Max ∧
          t.queue.nextId + 1 ≤ u32Max ∧
          ∀ n, ks' ∪ s.needed (sector + 1) n = ks ∪ s.needed sector (n + 1) := by
        cases hread with
        | overlaid hover =>
            refine ⟨ks, hnew, hs, by omega, hroom, fun n => ?_⟩
            rw [needed, if_neg (by rw [hover]; simp)]
        | @cached age base hover _ hcache =>
            have hone : s.clock + 1 ≤ u64Max := by omega
            refine ⟨insert (s.geometry.chunk sector) ks, ?_, touch_counted hs hone _ _, ?_, hroom,
              fun n => ?_⟩
            · rw [touch_clock hone]
              exact hnew.insert hs.used _ _
            · rw [touch_clock hone]
              show s.clock + 1 + count ≤ u64Max
              omega
            · rw [needed, if_pos hover, Finset.insert_union, Finset.union_insert]
      obtain ⟨ks', hnew', ht, hclock', hroom', hunion⟩ := hrest
      obtain ⟨ahead, hlt, hresident, hmissing, hnewest, hpending⟩ :=
        ih ht hclock' hroom' hnew' hmiss
      refine ⟨ahead + 1, by omega, fun i hi => ?_, ?_, ?_, hpending⟩
      · cases i with
        | zero => exact hfirst
        | succ i =>
            have hres := (hkept.resident_iff _).mp (hresident i (by omega))
            rw [show sector + 1 + i = sector + (i + 1) by omega] at hres
            exact hres
      · have hm := (hkept.missing_iff _ _).mp hmissing
        rw [show sector + 1 + ahead = sector + (ahead + 1) by omega] at hm
        exact hm
      · rw [hkept.needed_eq, hunion] at hnewest
        exact hnewest
  | @stop s t sector count e hread =>
      cases hread with
      | failed _ _ => simp at hmiss
      | missing hover _ hnone hrequested =>
          obtain rfl : s.geometry.chunk sector = block := by simpa using hmiss
          have hstep := hrequested.step hs hroom
          refine ⟨0, by omega, fun i hi => absurd hi (Nat.not_lt_zero i), ⟨hover, rfl, hnone⟩, ?_,
            hstep.pending hnone⟩
          rw [needed, Finset.union_empty, hrequested.cache_eq]
          exact hnew

theorem Reads.length_le {sector count : Nat} {filled : List UInt8}
    {ending : Outcome StorageError Unit} (h : Reads s sector count filled ending t)
    (hwhole : s.Whole) : filled.length ≤ count * sectorSize := by
  induction h with
  | done => exact Nat.zero_le _
  | next hread _ ih =>
      have hrest := ih (hwhole.of_same hread.same.1 hread.same.2)
      rw [List.length_append, hread.length_eq hwhole, Nat.add_mul, Nat.one_mul]
      omega
  | stop _ => exact Nat.zero_le _

/-- A read that waits: its resident chunks are the newest, its missing chunk is in
flight, and the limit holds its span. -/
structure Blocked (s : HttpBlockStore) (reader : Reader) (block : Nat) : Prop where
  fits : reader.span s.geometry * s.blockSize ≤ s.cacheLimit
  pending : ∃ (id : Nat) (p : PendingChunk), s.pending[id]? = some p ∧ p.block = block
  ahead : ∃ ahead < reader.count, (∀ i < ahead, s.Resident (reader.sector + i)) ∧
    s.Missing (reader.sector + ahead) block ∧ Newest s.cache (s.needed reader.sector ahead)

/-- The sectors of a read before chunk `block` do not miss. -/
def Passed (s : HttpBlockStore) (reader : Reader) (block : Nat) : Prop :=
  ∃ ahead < reader.count, (∀ i < ahead, s.Resident (reader.sector + i)) ∧
    s.geometry.chunk (reader.sector + ahead) = block

theorem Blocked.passed {reader : Reader} {block : Nat} (h : s.Blocked reader block) :
    s.Passed reader block := by
  obtain ⟨ahead, hlt, hresident, hmissing, _⟩ := h.ahead
  exact ⟨ahead, hlt, hresident, hmissing.chunk_eq⟩

theorem Kept.passed {reader : Reader} {block : Nat} (h : Kept s t) (hs : s.Passed reader block) :
    t.Passed reader block := by
  obtain ⟨ahead, hlt, hresident, hchunk⟩ := hs
  refine ⟨ahead, hlt, fun i hi => (h.resident_iff _).mpr (hresident i hi), ?_⟩
  rw [h.geometry_eq]
  exact hchunk

/-- The same sectors, into another buffer. -/
structure SameRange (reader reader' : Reader) : Prop where
  sector_eq : reader'.sector = reader.sector
  length_eq : reader'.bytes.length = reader.bytes.length

theorem SameRange.count_eq {reader reader' : Reader} (h : SameRange reader reader') :
    reader'.count = reader.count := by
  rw [Reader.count, Reader.count, h.length_eq]

theorem SameRange.span_eq {reader reader' : Reader} (h : SameRange reader reader')
    (g : Geometry) : reader'.span g = reader.span g := by
  rw [Reader.span, Reader.span, h.count_eq, h.sector_eq]

/-- How an attempt ends. -/
structure Attempted (reader : Reader) (s : HttpBlockStore) (waits : Bool) (reader' : Reader)
    (t : HttpBlockStore) : Prop where
  range : SameRange reader reader'
  kept : Kept s t
  tidy : t.Tidy
  step : ReadStep s t reader.count
  blocked : waits = true → ∃ block, t.Blocked reader' block ∧ s.cache[block]? = none ∧
    ∀ passed, s.Passed reader passed → passed ≤ block

theorem Kept.retained (s : HttpBlockStore) (sector count : Nat) : Kept s (s.retained sector count) :=
  ⟨rfl, rfl, fun _ => rfl, Nat.le_max_left _ _⟩

theorem Kept.clearErrors (s : HttpBlockStore) : Kept s s.clearErrors :=
  ⟨rfl, rfl, fun _ => rfl, Nat.le_refl _⟩

/-- The waiting read of a loop that missed a chunk. -/
theorem Reads.blocked {reader : Reader} {block : Nat} {filled : List UInt8}
    (h : Reads (s.retained reader.sector reader.count) reader.sector reader.count filled
      (.err (.missingBlock block)) t)
    (hs : s.Counted) (hclock : s.clock + reader.count ≤ u64Max)
    (hroom : s.queue.nextId + 1 ≤ u32Max) :
    t.Blocked reader block ∧ s.cache[block]? = none ∧
      ∀ passed, s.Passed reader passed → passed ≤ block := by
  have hkept := h.kept
  obtain ⟨ahead, hlt, hresident, hmissing, hnewest, hpending⟩ :=
    h.walk ⟨hs.used, hs.numbered⟩ hclock hroom (newest_empty _) rfl
  refine ⟨⟨?_, hpending, ahead, hlt, fun i hi => (hkept.resident_iff _).mpr (hresident i hi),
    (hkept.missing_iff _ _).mpr hmissing, ?_⟩, hmissing.uncached, ?_⟩
  · refine le_trans ?_ hkept.limit_le
    rw [hkept.geometry_eq, blockSize, hkept.geometry_eq]
    exact Nat.le_max_right _ _
  · rw [hkept.needed_eq]
    rwa [Finset.empty_union] at hnewest
  · rintro passed ⟨n, _, hres, rfl⟩
    have hle : n ≤ ahead := by
      by_contra hgt
      exact hmissing.not_resident (hres ahead (by omega))
    have hmono := s.geometry.chunk_mono (Nat.add_le_add_left hle reader.sector)
    have hchunk : s.geometry.chunk (reader.sector + ahead) = block := hmissing.chunk_eq
    omega

theorem attempt_spec (hs : s.Tidy) (hcounted : s.Counted) (reader : Reader)
    (hclock : s.clock + reader.count ≤ u64Max) (hroom : s.queue.nextId + 1 ≤ u32Max) :
    Attempted reader s (reader.attempt s).1 (reader.attempt s).2.1 (reader.attempt s).2.2 := by
  have hspec := readSectors_spec hs.whole reader.sector reader.bytes
  unfold Reader.attempt
  split at hspec
  · obtain ⟨filled, ending, t, hreads, heq⟩ := hspec
    have hkept : Kept s t := (Kept.retained s _ _).trans hreads.kept
    have htidy : t.Tidy := hreads.tidy (hs.retained _ _)
    have hstep : ReadStep s t reader.count := by
      have h := hreads.step ⟨hcounted.used, hcounted.numbered⟩ hclock hroom
      exact ⟨h.counted, h.clock_le, h.next_le, h.flight, h.fresh⟩
    have hrange : SameRange reader
        { reader with bytes := filled ++ reader.bytes.drop filled.length } := by
      have hle := hreads.length_le hs.whole
      have hmul := Nat.div_mul_le_self reader.bytes.length sectorSize
      refine ⟨rfl, ?_⟩
      show (filled ++ reader.bytes.drop filled.length).length = reader.bytes.length
      rw [List.length_append, List.length_drop]
      omega
    rw [heq]
    cases ending with
    | ok _ => exact ⟨hrange, hkept, htidy, hstep, fun h => by simp at h⟩
    | panic => exact ⟨hrange, hkept, htidy, hstep, fun h => by simp at h⟩
    | err e =>
        cases e with
        | missingBlock block =>
            refine ⟨hrange, hkept, htidy, hstep, fun _ => ?_⟩
            obtain ⟨hblocked, hmiss, hpassed⟩ := Reads.blocked hreads hcounted hclock hroom
            refine ⟨block, ⟨?_, hblocked.pending, ?_⟩, hmiss, hpassed⟩
            · rw [hrange.span_eq]
              exact hblocked.fits
            · rw [hrange.count_eq]
              exact hblocked.ahead
        | _ =>
            cases reader.side with
            | host =>
                exact ⟨⟨hrange.sector_eq, hrange.length_eq⟩, hkept, htidy, hstep,
                  fun h => by simp at h⟩
            | guest =>
                exact ⟨⟨hrange.sector_eq, hrange.length_eq⟩, hkept.trans (Kept.clearErrors t), clearErrors_tidy htidy,
                  ⟨⟨hstep.counted.used, hstep.counted.numbered⟩, hstep.clock_le, hstep.next_le,
                    hstep.flight, hstep.fresh⟩, fun h => by simp at h⟩
  · rw [hspec]
    have hstep := hcounted.readStep reader.count
    cases reader.side with
    | host => exact ⟨⟨rfl, rfl⟩, Kept.refl s, hs, hstep, fun h => by simp at h⟩
    | guest =>
        exact ⟨⟨rfl, rfl⟩, Kept.clearErrors s, clearErrors_tidy hs,
          ⟨⟨hstep.counted.used, hstep.counted.numbered⟩, hstep.clock_le, hstep.next_le,
            hstep.flight, hstep.fresh⟩, fun h => by simp at h⟩

/-! ## A poll -/

/-- How a poll ends. -/
structure Polled (readers : List Reader) (s : HttpBlockStore) (readers' : List Reader)
    (t : HttpBlockStore) : Prop where
  kept : Kept s t
  tidy : t.Tidy
  counted : t.Counted
  clock_le : t.clock ≤ s.clock + (readers.map Reader.count).sum
  next_le : t.queue.nextId ≤ s.queue.nextId + readers.length
  flight : InFlight s t
  requests : SharedStore.PollRequests readers s
  awaited : readers' ≠ [] → ∃ (id : Nat) (p : PendingChunk), t.pending[id]? = some p
  /-- What depends on the range of a read alone does not grow. -/
  cost_le : ∀ f : Reader → Nat, (∀ r r', SameRange r r' → f r' = f r) →
    (readers'.map f).sum ≤ (readers.map f).sum

theorem poll_spec (hs : s.Tidy) (hcounted : s.Counted) (readers : List Reader)
    (hclock : s.clock + (readers.map Reader.count).sum ≤ u64Max)
    (hroom : s.queue.nextId + readers.length ≤ u32Max) :
    Polled readers s (poll readers s).1 (poll readers s).2 := by
  induction readers generalizing s with
  | nil =>
      exact ⟨Kept.refl s, hs, hcounted, Nat.le_add_right _ _, Nat.le_add_right _ _,
        fun id p hp => ⟨p, hp, rfl⟩, trivial, fun h => absurd rfl h, fun _ _ => Nat.le_refl _⟩
  | cons reader rest ih =>
      rw [List.map_cons, List.sum_cons] at hclock
      rw [List.length_cons] at hroom
      have hone := attempt_spec hs hcounted reader (by omega) (by omega)
      unfold poll
      rcases hcase : reader.attempt s with ⟨waits, reader', t⟩
      rw [hcase] at hone
      obtain ⟨hrange, hkept, htidy, hstep, hblocked⟩ : Attempted reader s waits reader' t := hone
      show Polled (reader :: rest) s
        (if waits = true then reader' :: (poll rest t).1 else (poll rest t).1) (poll rest t).2
      have hrest := ih htidy hstep.counted (by have := hstep.clock_le; omega)
        (by have := hstep.next_le; omega)
      obtain ⟨hkept', htidy', hcounted', hclock', hnext', hflight', hrequests, hawaited, hcost⟩ :=
        hrest
      refine ⟨hkept.trans hkept', htidy', hcounted', ?_, ?_, hstep.flight.trans hflight', ?_, ?_,
        fun f hf => ?_⟩
      · rw [List.map_cons, List.sum_cons]
        have := hstep.clock_le
        omega
      · rw [List.length_cons]
        have := hstep.next_le
        omega
      · refine ⟨?_, ?_⟩
        · rw [hcase]
          exact hstep.fresh
        · rw [hcase]
          exact hrequests
      · intro hne
        by_cases hwaits : waits = true
        · obtain ⟨block, hb, _⟩ := hblocked hwaits
          obtain ⟨id, p, hp, _⟩ := hb.pending
          obtain ⟨q, hq, _⟩ := hflight' id p hp
          exact ⟨id, q, hq⟩
        · refine hawaited fun hnil => ?_
          rw [if_neg hwaits] at hne
          exact hne hnil
      · have hle := hcost f hf
        have hsame := hf reader reader' hrange
        rw [List.map_cons, List.sum_cons]
        by_cases hwaits : waits = true
        · rw [if_pos hwaits, List.map_cons, List.sum_cons]
          omega
        · rw [if_neg hwaits]
          omega

/-- The last read is retried after all others. -/
theorem poll_append (front : List Reader) (reader : Reader) (s : HttpBlockStore) :
    poll (front ++ [reader]) s =
      ((poll front s).1 ++
          (if (reader.attempt (poll front s).2).1 then
            [(reader.attempt (poll front s).2).2.1] else []),
        (reader.attempt (poll front s).2).2.2) := by
  induction front generalizing s with
  | nil => rfl
  | cons first front ih =>
      rw [List.cons_append]
      unfold poll
      simp only [ih]
      by_cases hwaits : (first.attempt s).1 = true
      · rw [if_pos hwaits, if_pos hwaits, List.cons_append]
      · rw [if_neg hwaits, if_neg hwaits]

/-! ## A completion -/

theorem oldest_spec {cache : BTreeMap Nat (Nat × List UInt8)} {block : Nat}
    (h : oldest cache = some block) :
    ∃ e, cache[block]? = some e ∧
      ∀ (k : Nat) (e' : Nat × List UInt8), cache[k]? = some e' → e.1 ≤ e'.1 := by
  obtain ⟨entry, hmin, rfl⟩ := Option.map_eq_some_iff.mp h
  refine ⟨entry.2, BTreeMap.mem_toList.mp (List.minOn?_mem hmin), fun k e' hk => ?_⟩
  have hmem : (k, e') ∈ cache.toList := BTreeMap.mem_toList.mpr hk
  have hle := List.apply_get_minOn?_le_of_mem (f := fun entry => entry.2.1) hmem
  have hget : (cache.toList.minOn? fun entry => entry.2.1).get
      (List.isSome_minOn?_of_mem hmem) = entry := Option.get_of_mem _ hmin
  rw [hget] at hle
  exact hle

/-- Eviction spares the newest chunks as long as the limit holds them. -/
theorem trimLoop_newest (s : HttpBlockStore) (fuel : Nat)
    {cache : BTreeMap Nat (Nat × List UInt8)} {ks : Finset Nat} (h : Newest cache ks)
    (hfits : ks.card * s.blockSize ≤ s.cacheLimit) : Newest (s.trimLoop fuel cache) ks := by
  induction fuel generalizing cache with
  | zero => exact h
  | succ fuel ih =>
      unfold trimLoop
      by_cases hover : min (cache.size * s.blockSize) usizeMax > s.cacheLimit
      · rw [if_pos hover]
        cases hold : oldest cache with
        | none => exact h
        | some victim =>
            have hlt : ks.card < cache.size := by
              have hmul : ks.card * s.blockSize < cache.size * s.blockSize :=
                lt_of_le_of_lt hfits (lt_of_lt_of_le hover (Nat.min_le_left _ _))
              exact Nat.lt_of_mul_lt_mul_right hmul
            obtain ⟨e, he, hmin⟩ := oldest_spec hold
            exact ih (h.erase (h.not_mem_of_oldest hlt he hmin))
      · rw [if_neg hover]
        exact h

/-- What the response to a request does. -/
structure Delivered (s : HttpBlockStore) (id block : Nat) (t : HttpBlockStore) : Prop where
  geometry_eq : t.geometry = s.geometry
  overlays_eq : t.overlays = s.overlays
  limit_eq : t.cacheLimit = s.cacheLimit
  tidy : t.Tidy
  counted : t.Counted
  clock_eq : t.clock = s.clock + 1
  next_eq : t.queue.nextId = s.queue.nextId
  flight : ∀ (a : Nat) (q : PendingChunk), a ≠ id → s.pending[a]? = some q → t.pending[a]? = some q
  newest : ∀ ks : Finset Nat, Newest s.cache ks →
    (insert block ks).card * s.blockSize ≤ s.cacheLimit → Newest t.cache (insert block ks)

theorem complete_spec (hs : s.Tidy) (hcounted : s.Counted) (hclock : s.clock + 1 ≤ u64Max)
    {id : Nat} {p : PendingChunk} (hp : s.pending[id]? = some p) {data : List UInt8}
    (hlength : data.length = s.blockSize) : Delivered s id p.block (complete id data s).2 := by
  have htidy := complete_tidy hs id data
  rw [complete_eq hs, hp] at htidy ⊢
  simp only [respond] at htidy ⊢
  rw [if_neg (show ¬data.length ≠ (s.settled id).blockSize from not_not.mpr hlength)] at htidy ⊢
  have htick : (s.clock + 1) % 2 ^ 64 = s.clock + 1 :=
    Nat.mod_eq_of_lt (by unfold u64Max at hclock; omega)
  refine ⟨rfl, rfl, rfl, htidy, ⟨fun b e hb => ?_, fun a q hq => ?_⟩, htick, rfl,
    fun a q hne hq => ?_, fun ks hks hfits => ?_⟩
  · rcases accept_get hb with ⟨_, heq⟩ | hold
    · rw [heq]
      exact Nat.le_refl _
    · refine (hcounted.used b e hold).trans ?_
      show s.clock ≤ (s.clock + 1) % 2 ^ 64
      omega
  · exact hcounted.numbered a q (settled_get hq).2
  · show (s.pending.erase id)[a]? = some q
    rw [BTreeMap.get_erase_of_ne _ (Ne.symm hne)]
    exact hq
  · refine trimLoop_newest _ _ ?_ hfits
    show Newest (s.cache.insert p.block ((s.clock + 1) % 2 ^ 64, data)) _
    rw [htick]
    exact hks.insert hcounted.used _ _

/-! ## A new store -/

/-- Prefetches have distinct chunks, so they are no more than the chunks. -/
structure Prefetched (s : HttpBlockStore) : Prop where
  tidy : s.Tidy
  failed_eq : s.failed = ∅
  counted : s.Counted
  next_eq : s.queue.nextId = s.pending.size
  inside : ∀ (id : Nat) (p : PendingChunk), s.pending[id]? = some p → p.block < s.blockCount

theorem Prefetched.size_lt (h : s.Prefetched) {block : Nat}
    (hblock : block < s.blockCount)
    (hnew : ∀ (id : Nat) (p : PendingChunk), s.pending[id]? = some p → p.block ≠ block) :
    s.pending.size < s.blockCount := by
  have hnodup : (s.pending.toList.map fun entry => entry.2.block).Nodup := by
    refine List.Nodup.map_on (fun a ha b hb heq => ?_) (BTreeMap.nodup_toList s.pending)
    have hid := h.tidy.distinct a.1 b.1 a.2 b.2 (BTreeMap.mem_toList.mp ha)
      (BTreeMap.mem_toList.mp hb) heq
    have ha := BTreeMap.mem_toList.mp ha
    rw [hid, BTreeMap.mem_toList.mp hb] at ha
    exact Prod.ext hid (Option.some.inj ha).symm
  have hsub : (block :: s.pending.toList.map fun entry => entry.2.block).toFinset ⊆
      Finset.range s.blockCount := by
    intro b hb
    rw [Finset.mem_range]
    rcases List.mem_cons.mp (List.mem_toFinset.mp hb) with rfl | hb
    · exact hblock
    · obtain ⟨entry, hentry, rfl⟩ := List.mem_map.mp hb
      exact h.inside entry.1 entry.2 (BTreeMap.mem_toList.mp hentry)
  have hcard := Finset.card_le_card hsub
  rw [List.toFinset_card_of_nodup, Finset.card_range, List.length_cons, List.length_map,
    Std.ExtTreeMap.length_toList] at hcard
  · exact hcard
  · refine List.nodup_cons.mpr ⟨fun hmem => ?_, hnodup⟩
    obtain ⟨entry, hentry, heq⟩ := List.mem_map.mp hmem
    exact hnew entry.1 entry.2 (BTreeMap.mem_toList.mp hentry) heq

theorem Prefetched.requested (h : s.Prefetched) {block : Nat}
    (hblock : block < s.blockCount) (hreq : Requested s block false t) : t.Prefetched := by
  have htidy : t.Tidy := hreq.tidy h.tidy (by rw [h.failed_eq]; exact Std.ExtTreeSet.not_mem_empty)
  have hfailed : t.failed = ∅ := hreq.sameDisk.failed_eq.trans h.failed_eq
  have hcount := s.geometry.blockCount_le
  change s.blockCount ≤ u32Max at hcount
  have hstep := hreq.step h.counted
  cases hreq with
  | cached _ => exact h
  | @joined id pending _ hpending _ =>
      refine ⟨htidy, hfailed, ⟨h.counted.used, fun a p ha => ?_⟩, ?_, fun a p ha => ?_⟩
      · rw [BTreeMap.get_insert] at ha
        by_cases hid : id = a
        · rw [← hid]
          exact h.counted.numbered id pending hpending
        · rw [if_neg hid] at ha
          exact h.counted.numbered a p ha
      · show s.queue.nextId = (s.pending.insert id _).size
        rw [BTreeMap.size_insert_of_some _ hpending]
        exact h.next_eq
      · rw [BTreeMap.get_insert] at ha
        by_cases hid : id = a
        · rw [if_pos hid] at ha
          rw [← Option.some.inj ha]
          exact h.inside id pending hpending
        · rw [if_neg hid] at ha
          exact h.inside a p ha
  | @queued url _ hnew =>
      have hsize := h.size_lt hblock hnew
      have hnext := h.next_eq
      have hroom : s.queue.nextId + 1 ≤ u32Max := by omega
      have hid := freshId_eq hroom
      have hnone : s.pending[s.queue.freshId]? = none := by
        cases hp : s.pending[s.queue.freshId]? with
        | none => rfl
        | some p =>
            have := h.counted.numbered _ p hp
            omega
      refine ⟨htidy, hfailed, ?_, ?_, fun a p ha => ?_⟩
      · exact (hstep hroom).counted
      · show s.queue.freshId = (s.pending.insert s.queue.freshId _).size
        rw [BTreeMap.size_insert_of_none _ hnone]
        omega
      · rw [BTreeMap.get_insert] at ha
        by_cases hid : s.queue.freshId = a
        · rw [if_pos hid] at ha
          rw [← Option.some.inj ha]
          exact hblock
        · rw [if_neg hid] at ha
          exact h.inside a p ha

theorem fromManifest_counted {parseValue : String → Option Value} {manifestUrl source : String}
    {cacheLimit : Nat} {store : HttpBlockStore}
    (h : fromManifest parseValue manifestUrl source cacheLimit = .ok store) :
    store.Counted := by
  have hall := fromManifest_rule (P := Prefetched) (fun u hbare => ?_)
    (fun u v block hu hblock hv => hu.requested hblock hv) h
  · exact hall.counted
  · refine ⟨hbare.tidy, hbare.failed_eq, ⟨fun b e hb => ?_, fun id p hp => ?_⟩, ?_,
      fun id p hp => ?_⟩
    · simp [hbare.cache_eq] at hb
    · simp [hbare.pending_eq] at hp
    · rw [hbare.pending_eq, hbare.queue_eq]
      rfl
    · simp [hbare.pending_eq] at hp

end HttpBlockStore
end Storage
end Riscbox
