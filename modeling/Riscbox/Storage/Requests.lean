import Riscbox.Storage.Flat

/-!
# Requests in flight

The table of pending chunks against the request queue, the cache and the failed
chunks, after any calls on a store.
-/

namespace Riscbox
namespace Storage
namespace HttpBlockStore

/-- The request table agrees with the queue, and a chunk is either wanted once,
or cached, or failed. -/
structure Tidy (s : HttpBlockStore) : Prop where
  whole : s.Whole
  queued : ∀ id : Nat, s.queue.pending[id]? = none ↔ s.pending[id]? = none
  distinct : ∀ (id id' : Nat) (p p' : PendingChunk), s.pending[id]? = some p →
    s.pending[id']? = some p' → p.block = p'.block → id = id'
  uncached : ∀ (id : Nat) (p : PendingChunk), s.pending[id]? = some p →
    s.cache[p.block]? = none
  unfailed : ∀ (id : Nat) (p : PendingChunk), s.pending[id]? = some p → p.block ∉ s.failed

variable {s t : HttpBlockStore}

/-! ## Reads -/

theorem Requested.tidy {block : Nat} {demanded : Bool} (h : Requested s block demanded t)
    (hs : s.Tidy) (hfailed : block ∉ s.failed) : t.Tidy := by
  obtain ⟨hwhole, hqueued, hdistinct, huncached, hunfailed⟩ := hs
  cases h with
  | cached _ => exact ⟨hwhole, hqueued, hdistinct, huncached, hunfailed⟩
  | @joined id pending hmiss hpending hblock =>
      -- the entry keeps its chunk, so every lookup keeps its chunk
      have hget : ∀ (a : Nat) (p : PendingChunk),
          (s.pending.insert id { pending with demanded := pending.demanded || demanded })[a]? =
            some p → ∃ q, s.pending[a]? = some q ∧ q.block = p.block := by
        intro a p ha
        rw [BTreeMap.get_insert] at ha
        by_cases hid : id = a
        · rw [if_pos hid] at ha
          rw [← hid, ← Option.some.inj ha]
          exact ⟨pending, hpending, rfl⟩
        · rw [if_neg hid] at ha
          exact ⟨p, ha, rfl⟩
      refine ⟨hwhole, fun a => ?_, fun a a' p p' ha ha' heq => ?_, fun a p ha => ?_,
        fun a p ha => ?_⟩
      · show s.queue.pending[a]? = none ↔ (s.pending.insert id _)[a]? = none
        rw [hqueued a, BTreeMap.get_insert]
        by_cases hid : id = a
        · rw [if_pos hid, ← hid, hpending]
          simp
        · rw [if_neg hid]
      · obtain ⟨q, hq, hqp⟩ := hget a p ha
        obtain ⟨q', hq', hqp'⟩ := hget a' p' ha'
        exact hdistinct a a' q q' hq hq' (hqp.trans (heq.trans hqp'.symm))
      · obtain ⟨q, hq, hqp⟩ := hget a p ha
        rw [← hqp]
        exact huncached a q hq
      · obtain ⟨q, hq, hqp⟩ := hget a p ha
        rw [← hqp]
        exact hunfailed a q hq
  | @queued url hmiss hnew =>
      have hget : ∀ (a : Nat) (p : PendingChunk),
          (s.pending.insert s.queue.freshId { block := block, demanded := demanded })[a]? =
            some p → (s.queue.freshId = a ∧ p.block = block) ∨ s.pending[a]? = some p := by
        intro a p ha
        rw [BTreeMap.get_insert] at ha
        by_cases hid : s.queue.freshId = a
        · rw [if_pos hid] at ha
          rw [← Option.some.inj ha]
          exact .inl ⟨hid, rfl⟩
        · rw [if_neg hid] at ha
          exact .inr ha
      refine ⟨hwhole, fun a => ?_, fun a a' p p' ha ha' heq => ?_, fun a p ha => ?_,
        fun a p ha => ?_⟩
      · show (s.queue.pending.insert s.queue.freshId url)[a]? = none ↔
          (s.pending.insert s.queue.freshId _)[a]? = none
        rw [BTreeMap.get_insert, BTreeMap.get_insert]
        by_cases hid : s.queue.freshId = a
        · rw [if_pos hid, if_pos hid]
          simp
        · rw [if_neg hid, if_neg hid]
          exact hqueued a
      · rcases hget a p ha with ⟨ha, hp⟩ | hold
        · rcases hget a' p' ha' with ⟨ha', _⟩ | hold'
          · exact ha.symm.trans ha'
          · exact absurd (heq.symm.trans hp) (hnew a' p' hold')
        · rcases hget a' p' ha' with ⟨_, hp'⟩ | hold'
          · exact absurd (heq.trans hp') (hnew a p hold)
          · exact hdistinct a a' p p' hold hold' heq
      · rcases hget a p ha with ⟨_, hp⟩ | hold
        · rw [hp]
          exact hmiss
        · exact huncached a p hold
      · rcases hget a p ha with ⟨_, hp⟩ | hold
        · rw [hp]
          exact hfailed
        · exact hunfailed a p hold

theorem touch_tidy (hs : s.Tidy) {block age : Nat} {bytes : List UInt8}
    (hcache : s.cache[block]? = some (age, bytes)) : (s.touch block bytes).Tidy := by
  have hsame := touch_sameBytes hcache
  refine ⟨hs.whole.of_same ⟨rfl, rfl, rfl⟩ hsame, hs.queued, hs.distinct, fun id p hp => ?_,
    hs.unfailed⟩
  have hnone := hsame p.block
  rw [hs.uncached id p hp] at hnone
  simpa using hnone

theorem SectorRead.tidy {sector : Nat} {ending : Outcome StorageError (List UInt8)}
    (h : SectorRead s sector ending t) (hs : s.Tidy) : t.Tidy := by
  cases h with
  | overlaid _ => exact hs
  | failed _ _ => exact hs
  | missing _ hfailed _ hrequested => exact hrequested.tidy hs hfailed
  | cached _ _ hcache => exact touch_tidy hs hcache

theorem Reads.tidy {sector count : Nat} {filled : List UInt8}
    {ending : Outcome StorageError Unit} (h : Reads s sector count filled ending t)
    (hs : s.Tidy) : t.Tidy := by
  induction h with
  | done => exact hs
  | next hread _ ih => exact ih (hread.tidy hs)
  | stop hread => exact hread.tidy hs

theorem Tidy.retained (hs : s.Tidy) (sector count : Nat) : (s.retained sector count).Tidy :=
  ⟨hs.whole, hs.queued, hs.distinct, hs.uncached, hs.unfailed⟩

theorem readSectors_tidy (hs : s.Tidy) (sector : Nat) (data : List UInt8) :
    (readSectors sector data s).2.2.Tidy := by
  have hspec := readSectors_spec hs.whole sector data
  split at hspec
  · obtain ⟨filled, ending, t, hreads, heq⟩ := hspec
    rw [heq]
    exact hreads.tidy (hs.retained _ _)
  · rw [hspec]
    exact hs

/-! ## Responses -/

/-- The tables once a request has left them. -/
def settled (s : HttpBlockStore) (id : Nat) : HttpBlockStore :=
  { s with
    queue := { s.queue with pending := s.queue.pending.erase id }
    pending := s.pending.erase id }

theorem takePending_eq (hs : s.Tidy) (id : Nat) :
    takePending id s = match s.pending[id]? with
      | none => (.err .unknownRequest, s)
      | some p => (.ok p, s.settled id) := by
  unfold takePending HttpQueue.complete
  cases hp : s.pending[id]? with
  | none =>
      rw [(hs.queued id).mpr hp]
  | some p =>
      cases hq : s.queue.pending[id]? with
      | none =>
          rw [(hs.queued id).mp hq] at hp
          simp at hp
      | some url =>
          simp only []
          rw [hp]
          rfl

theorem settled_get {id a : Nat} {p : PendingChunk} (h : (s.settled id).pending[a]? = some p) :
    id ≠ a ∧ s.pending[a]? = some p := by
  have h : (s.pending.erase id)[a]? = some p := h
  rw [BTreeMap.get_erase] at h
  by_cases hid : id = a
  · rw [if_pos hid] at h
    simp at h
  · rw [if_neg hid] at h
    exact ⟨hid, h⟩

theorem settled_tidy (hs : s.Tidy) (id : Nat) : (s.settled id).Tidy := by
  refine ⟨hs.whole, fun a => ?_, fun a a' p p' ha ha' heq => ?_, fun a p ha => ?_,
    fun a p ha => ?_⟩
  · show (s.queue.pending.erase id)[a]? = none ↔ (s.pending.erase id)[a]? = none
    rw [BTreeMap.get_erase, BTreeMap.get_erase]
    by_cases hid : id = a
    · simp [hid]
    · rw [if_neg hid, if_neg hid]
      exact hs.queued a
  · exact hs.distinct a a' p p' (settled_get ha).2 (settled_get ha').2 heq
  · exact hs.uncached a p (settled_get ha).2
  · exact hs.unfailed a p (settled_get ha).2

/-- No other request wants the chunk of a settled one. -/
theorem settled_ne (hs : s.Tidy) {id a : Nat} {p q : PendingChunk} (hp : s.pending[id]? = some p)
    (hq : (s.settled id).pending[a]? = some q) : q.block ≠ p.block := by
  obtain ⟨hne, hq⟩ := settled_get hq
  exact fun heq => hne (hs.distinct id a p q hp hq heq.symm)

theorem markFailed_tidy (hs : s.Tidy) {p : PendingChunk}
    (hp : ∀ (a : Nat) (q : PendingChunk), s.pending[a]? = some q → q.block ≠ p.block) :
    (markFailed p s).Tidy := by
  unfold markFailed
  split
  · refine ⟨hs.whole, hs.queued, hs.distinct, hs.uncached, fun a q hq hmem => ?_⟩
    rcases BTreeSet.mem_insert_iff.mp hmem with heq | hold
    · exact hp a q hq heq.symm
    · exact hs.unfailed a q hq hold
  · exact hs

theorem accept_get {block b : Nat} {data : List UInt8} {entry : Nat × List UInt8}
    (h : (accept block data s).cache[b]? = some entry) :
    (block = b ∧ entry = (s.tick.clock, data)) ∨ s.cache[b]? = some entry := by
  have hinsert : (s.cache.insert block (s.tick.clock, data))[b]? = some entry := trimLoop_sub _ _ h
  rw [BTreeMap.get_insert] at hinsert
  by_cases hb : block = b
  · rw [if_pos hb] at hinsert
    exact .inl ⟨hb, (Option.some.inj hinsert).symm⟩
  · rw [if_neg hb] at hinsert
    exact .inr hinsert

theorem accept_tidy (hs : s.Tidy) {block : Nat} {data : List UInt8}
    (hlength : data.length = s.blockSize)
    (hblock : ∀ (a : Nat) (q : PendingChunk), s.pending[a]? = some q → q.block ≠ block) :
    (accept block data s).Tidy := by
  refine ⟨fun b age bytes hb => ?_, hs.queued, hs.distinct, fun a q hq => ?_, hs.unfailed⟩
  · rcases accept_get hb with ⟨_, heq⟩ | hold
    · rw [show bytes = data from (Prod.ext_iff.mp heq).2]
      exact hlength
    · exact hs.whole b age bytes hold
  · cases hcase : (accept block data s).cache[q.block]? with
    | none => rfl
    | some entry =>
        rcases accept_get hcase with ⟨heq, _⟩ | hold
        · exact absurd heq.symm (hblock a q hq)
        · rw [hs.uncached a q hq] at hold
          simp at hold

theorem complete_eq (hs : s.Tidy) (id : Nat) (data : List UInt8) :
    complete id data s = match s.pending[id]? with
      | none => (.err .unknownRequest, s)
      | some p => respond p data (s.settled id) := by
  unfold complete
  rw [Op.bind_apply, takePending_eq hs]
  cases s.pending[id]? with
  | none => rfl
  | some p => rfl

theorem fail_eq (hs : s.Tidy) (id : Nat) :
    fail id s = match s.pending[id]? with
      | none => (.err .unknownRequest, s)
      | some p => (.ok (), markFailed p (s.settled id)) := by
  unfold fail
  rw [Op.bind_apply, takePending_eq hs]
  cases s.pending[id]? with
  | none => rfl
  | some p => rfl

theorem complete_tidy (hs : s.Tidy) (id : Nat) (data : List UInt8) :
    (complete id data s).2.Tidy := by
  rw [complete_eq hs]
  cases hp : s.pending[id]? with
  | none => exact hs
  | some p =>
      have hne := fun a q => settled_ne (a := a) (q := q) hs hp
      simp only [respond]
      split
      · exact markFailed_tidy (settled_tidy hs id) hne
      · next hlength => exact accept_tidy (settled_tidy hs id) (not_not.mp hlength) hne

theorem fail_tidy (hs : s.Tidy) (id : Nat) : (fail id s).2.Tidy := by
  rw [fail_eq hs]
  cases hp : s.pending[id]? with
  | none => exact hs
  | some p => exact markFailed_tidy (settled_tidy hs id) fun a q => settled_ne hs hp

/-! ## All calls -/

theorem writeSectors_tidy (hs : s.Tidy) (sector : Nat) (data : List UInt8) :
    (writeSectors sector data s).2.Tidy := by
  have hspec := writeSectors_spec s sector data
  split at hspec
  · obtain ⟨overlays, heq, _⟩ := hspec
    rw [heq]
    exact ⟨hs.whole, hs.queued, hs.distinct, hs.uncached, hs.unfailed⟩
  · rw [hspec]
    exact hs

theorem nextRequest_tidy (hs : s.Tidy) : s.nextRequest.2.Tidy := by
  unfold nextRequest HttpQueue.nextRequest
  cases s.queue.outgoing with
  | nil => exact hs
  | cons _ _ => exact ⟨hs.whole, hs.queued, hs.distinct, hs.uncached, hs.unfailed⟩

theorem clearErrors_tidy (hs : s.Tidy) : s.clearErrors.Tidy :=
  ⟨hs.whole, hs.queued, hs.distinct, hs.uncached,
    fun _ _ _ => Std.ExtTreeSet.not_mem_empty⟩

theorem resetRequests_tidy (hs : s.Tidy) : s.resetRequests.Tidy where
  whole := hs.whole
  queued := fun id => by simp [resetRequests, HttpQueue.clear]
  distinct := fun id id' p p' hp => by simp [resetRequests] at hp
  uncached := fun id p hp => by simp [resetRequests] at hp
  unfailed := fun id p hp => by simp [resetRequests] at hp

theorem discardChanges_tidy (hs : s.Tidy) : s.discardChanges.Tidy :=
  have h := resetRequests_tidy hs
  ⟨h.whole, h.queued, h.distinct, h.uncached, h.unfailed⟩

theorem Bare.tidy (h : s.Bare) : s.Tidy := by
  refine ⟨fun block age bytes hb => ?_, fun id => ?_, fun id id' p p' hp => ?_,
    fun id p hp => ?_, fun id p hp => ?_⟩
  · simp [h.cache_eq] at hb
  · simp [h.pending_eq, h.queue_eq, HttpQueue.default]
  · simp [h.pending_eq] at hp
  · simp [h.pending_eq] at hp
  · simp [h.pending_eq] at hp

theorem fromManifest_tidy {parseValue : String → Option Value} {manifestUrl source : String}
    {cacheLimit : Nat} (h : fromManifest parseValue manifestUrl source cacheLimit = .ok s) :
    s.Tidy := by
  have hboth : s.Tidy ∧ s.failed = ∅ := by
    refine fromManifest_rule (P := fun u => u.Tidy ∧ u.failed = ∅)
      (fun u hbare => ⟨hbare.tidy, hbare.failed_eq⟩) (fun u v block hu _ hv => ?_) h
    refine ⟨hv.tidy hu.1 ?_, hv.sameDisk.failed_eq.trans hu.2⟩
    rw [hu.2]
    exact Std.ExtTreeSet.not_mem_empty
  exact hboth.1

end HttpBlockStore

open HttpBlockStore

theorem Operation.perform_tidy {s : HttpBlockStore} (hs : s.Tidy) (op : Operation) :
    (op.perform s).Tidy := by
  cases op with
  | readSectors sector data => exact readSectors_tidy hs sector data
  | writeSectors sector data => exact writeSectors_tidy hs sector data
  | nextRequest => exact nextRequest_tidy hs
  | complete id data => exact complete_tidy hs id data
  | fail id => exact fail_tidy hs id
  | clearErrors => exact clearErrors_tidy hs
  | resetRequests => exact resetRequests_tidy hs
  | discardChanges => exact discardChanges_tidy hs

theorem performAll_tidy {s : HttpBlockStore} (hs : s.Tidy) (ops : List Operation) :
    (performAll s ops).Tidy := by
  induction ops generalizing s with
  | nil => exact hs
  | cons op ops ih => exact ih (Operation.perform_tidy hs op)

end Storage
end Riscbox
