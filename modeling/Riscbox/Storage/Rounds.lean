import Riscbox.Storage.Progress

/-!
# Rounds of responses

Each round after the first moves the read that is retried last to a later chunk;
when it ends, the read before it takes its place.
-/

namespace Riscbox
namespace Storage

open Recency HttpBlockStore

namespace HttpBlockStore

variable {s t : HttpBlockStore} {reader : Reader} {block missing : Nat}

/-- The chunks of a read from its missing one on. -/
def chunksLeft (g : Geometry) (reader : Reader) (missing : Nat) : Nat :=
  g.chunk (reader.sector + reader.count - 1) + 1 - missing

theorem Passed.bounds (h : s.Passed reader missing) :
    s.geometry.chunk reader.sector ≤ missing ∧
      missing ≤ s.geometry.chunk (reader.sector + reader.count - 1) := by
  obtain ⟨ahead, hlt, _, rfl⟩ := h
  exact ⟨s.geometry.chunk_mono (Nat.le_add_right _ _), s.geometry.chunk_mono (by omega)⟩

/-- The used chunks of a waiting read lie between its first and its missing one. -/
theorem needed_card {sector ahead : Nat} (hresident : ∀ i < ahead, s.Resident (sector + i))
    (hmissing : s.Missing (sector + ahead) missing) :
    (s.needed sector ahead).card ≤ missing - s.geometry.chunk sector := by
  have hsub : s.needed sector ahead ⊆ Finset.Ico (s.geometry.chunk sector) missing := by
    intro b hb
    obtain ⟨i, hi, hover, hchunk⟩ := mem_needed.mp hb
    have hlow := s.geometry.chunk_mono (Nat.le_add_right sector i)
    have hhigh := s.geometry.chunk_mono (show sector + i ≤ sector + ahead by omega)
    rw [hmissing.chunk_eq, hchunk] at hhigh
    rw [hchunk] at hlow
    have hne : b ≠ missing := by
      intro heq
      rcases hresident i hi with h | h
      · exact h hover
      · rw [hchunk, heq] at h
        exact h hmissing.uncached
    exact Finset.mem_Ico.mpr ⟨hlow, lt_of_le_of_ne hhigh hne⟩
  have hcard := Finset.card_le_card hsub
  rwa [Nat.card_Ico] at hcard

/-- A response evicts none of the chunks that a waiting read has used. -/
theorem Delivered.passed {id : Nat} (h : Delivered s id block t)
    (hblocked : s.Blocked reader missing) :
    t.Passed reader missing ∧ t.cache[block]? ≠ none := by
  have hbounds := hblocked.passed.bounds
  have hlimit := hblocked.fits
  obtain ⟨ahead, hlt, hresident, hmissing, hnewest⟩ := hblocked.ahead
  have hcard : (insert block (s.needed reader.sector ahead)).card ≤ reader.span s.geometry := by
    have hneeded := needed_card hresident hmissing
    have hinsert := Finset.card_insert_le block (s.needed reader.sector ahead)
    unfold Reader.span Geometry.span
    omega
  have hfits : (insert block (s.needed reader.sector ahead)).card * s.blockSize ≤ s.cacheLimit :=
    (Nat.mul_le_mul_right _ hcard).trans hlimit
  have hkept := h.newest _ hnewest hfits
  refine ⟨⟨ahead, hlt, fun i hi => ?_, ?_⟩, hkept.stored block (Finset.mem_insert_self _ _)⟩
  · have hover : t.overlaid (reader.sector + i) = s.overlaid (reader.sector + i) := by
      rw [overlaid, overlaid, dirtySector, dirtySector, h.overlays_eq]
    by_cases hnone : s.overlaid (reader.sector + i) = none
    · refine .inr (hkept.stored _ (Finset.mem_insert_of_mem ?_))
      rw [h.geometry_eq]
      exact mem_needed.mpr ⟨i, hi, hnone, rfl⟩
    · exact .inl (by rw [hover]; exact hnone)
  · rw [h.geometry_eq]
    exact hmissing.chunk_eq

end HttpBlockStore

namespace SharedStore

variable {x : SharedStore}

/-- What holds while the counters do not wrap. -/
structure Sound (x : SharedStore) : Prop where
  tidy : x.store.Tidy
  counted : x.store.Counted
  awaited : x.waiting ≠ [] → ∃ (id : Nat) (p : PendingChunk), x.store.pending[id]? = some p

/-- The rounds that these reads may take. -/
def cost (g : Geometry) (readers : List Reader) : Nat :=
  (readers.map fun reader => 1 + reader.span g).sum

theorem cost_append (g : Geometry) (front : List Reader) (reader : Reader) :
    cost g (front ++ [reader]) = cost g front + (1 + reader.span g) := by
  rw [cost, List.map_append, List.sum_append]
  rfl

/-- Where the read that is retried last stands after one more response. -/
structure Delivering (x : SharedStore) (id block : Nat) (y : SharedStore) : Prop where
  sound : y.Sound
  geometry_eq : y.store.geometry = x.store.geometry
  flight : ∀ (a : Nat) (p : PendingChunk), a ≠ id → x.store.pending[a]? = some p →
    ∃ q, y.store.pending[a]? = some q ∧ q.block = p.block
  idle : x.waiting = [] → y.waiting = []
  last : ∀ (front : List Reader) (reader : Reader), x.waiting = front ++ [reader] →
    ∃ front', cost x.store.geometry front' ≤ cost x.store.geometry front ∧
      (y.waiting = front' ∨ ∃ reader' missing', SameRange reader reader' ∧
        y.waiting = front' ++ [reader'] ∧ y.store.Blocked reader' missing' ∧
        ∀ missing, x.store.Blocked reader missing →
          missing ≤ missing' ∧ (missing = block → missing < missing'))

theorem deliver_spec (hx : x.Sound) {response : Response}
    (hroom : x.Unwrapped (.complete response.1 response.2)) {p : PendingChunk}
    (hp : x.store.pending[response.1]? = some p)
    (hlength : response.2.length = x.store.blockSize) :
    Delivering x response.1 p.block (x.deliver response) ∧
      PollRequests x.waiting (x.store.complete response.1 response.2).2 := by
  obtain ⟨id, data⟩ := response
  have hclock : x.store.clock + 1 + (x.waiting.map Reader.count).sum ≤ u64Max := hroom.clock
  have hids : x.store.queue.nextId + x.waiting.length ≤ u32Max := hroom.ids
  have hdone := complete_spec hx.tidy hx.counted (by omega) hp hlength
  have hdeliver : x.deliver (id, data) = x.polled (x.store.complete id data).2 := rfl
  rw [hdeliver]
  change Delivering x id p.block (x.polled (x.store.complete id data).2) ∧
    PollRequests x.waiting (x.store.complete id data).2
  generalize (x.store.complete id data).2 = t at hdone ⊢
  have hpolled := poll_spec hdone.tidy hdone.counted x.waiting
    (by rw [hdone.clock_eq]; exact hclock) (by rw [hdone.next_eq]; exact hids)
  refine ⟨⟨⟨hpolled.tidy, hpolled.counted, hpolled.awaited⟩,
    hpolled.kept.geometry_eq.trans hdone.geometry_eq, fun a q hne hq => ?_, fun hnil => ?_,
    fun front reader hwaiting => ?_⟩, hpolled.requests⟩
  · exact hpolled.flight a q (hdone.flight a q hne hq)
  · unfold polled
    rw [hnil]
    rfl
  · rw [hwaiting, List.map_append, List.sum_append] at hclock
    have hclock : x.store.clock + 1 + ((front.map Reader.count).sum + reader.count) ≤ u64Max :=
      hclock
    rw [hwaiting, List.length_append, List.length_singleton] at hids
    have hclock_eq := hdone.clock_eq
    have hnext_eq := hdone.next_eq
    have hfront := poll_spec hdone.tidy hdone.counted front (by omega) (by omega)
    have hlast := attempt_spec hfront.tidy hfront.counted reader
      (by have := hfront.clock_le; omega) (by have := hfront.next_le; omega)
    refine ⟨(poll front t).1, ?_, ?_⟩
    · refine hfront.cost_le (fun r => 1 + r.span x.store.geometry) fun r r' hr => ?_
      rw [hr.span_eq]
    · unfold polled
      rw [hwaiting, poll_append]
      by_cases hwaits : (reader.attempt (poll front t).2).1 = true
      · obtain ⟨missing', hblocked, hmiss, hpassed⟩ := hlast.blocked hwaits
        refine .inr ⟨(reader.attempt (poll front t).2).2.1, missing', hlast.range, ?_, hblocked,
          fun missing hold => ?_⟩
        · simp only [if_pos hwaits]
        · obtain ⟨hpast, hcached⟩ := hdone.passed hold
          have hle := hpassed missing (hfront.kept.passed hpast)
          refine ⟨hle, fun heq => lt_of_le_of_ne hle fun hsame => ?_⟩
          rw [← hsame, heq, hfront.kept.bytes_eq.none_iff] at hmiss
          exact hcached hmiss
      · refine .inl ?_
        simp only [if_neg hwaits, List.append_nil]

/-! ## Counting rounds -/

/-- The reads need at most `n` rounds. -/
def Within (x : SharedStore) (n : Nat) : Prop :=
  x.waiting = [] ∨ ∃ front reader, x.waiting = front ++ [reader] ∧
    (cost x.store.geometry (front ++ [reader]) ≤ n ∨ ∃ missing, x.store.Blocked reader missing ∧
      cost x.store.geometry front + chunksLeft x.store.geometry reader missing ≤ n)

theorem within_cost (x : SharedStore) {n : Nat} (h : cost x.store.geometry x.waiting ≤ n) :
    x.Within n := by
  rcases List.eq_nil_or_concat x.waiting with hnil | ⟨front, reader, hwaiting⟩
  · exact .inl hnil
  · rw [List.concat_eq_append] at hwaiting
    exact .inr ⟨front, reader, hwaiting, .inl (by rw [← hwaiting]; exact h)⟩

variable {y : SharedStore} {id block n : Nat}

theorem chunksLeft_eq {s : HttpBlockStore} {reader reader' : Reader}
    (h : SameRange reader reader') (missing : Nat) :
    chunksLeft s.geometry reader' missing = chunksLeft s.geometry reader missing := by
  rw [chunksLeft, chunksLeft, h.count_eq, h.sector_eq]

/-- A response makes up for the round that establishes the last read. -/
theorem Delivering.established (h : Delivering x id block y) {front : List Reader}
    {reader : Reader} (hwaiting : x.waiting = front ++ [reader])
    (hn : cost x.store.geometry front + reader.span x.store.geometry ≤ n) : y.Within n := by
  obtain ⟨front', hcost, hend | ⟨reader', missing', hrange, hend, hblocked, _⟩⟩ :=
    h.last front reader hwaiting
  · refine within_cost y ?_
    rw [hend, h.geometry_eq]
    omega
  · refine .inr ⟨front', reader', hend, .inr ⟨missing', hblocked, ?_⟩⟩
    have hlow := hblocked.passed.bounds.1
    rw [h.geometry_eq, hrange.sector_eq] at hlow
    rw [h.geometry_eq, chunksLeft_eq hrange]
    unfold Reader.span Geometry.span at hn
    unfold chunksLeft
    omega

/-- A response never sets a read back. -/
theorem Delivering.advances (h : Delivering x id block y) {front : List Reader}
    {reader : Reader} (hwaiting : x.waiting = front ++ [reader]) {missing : Nat}
    (hblocked : x.store.Blocked reader missing)
    (hn : cost x.store.geometry front + chunksLeft x.store.geometry reader missing ≤ n + 1) :
    y.Within n ∨ block ≠ missing ∧ ∃ front' reader', SameRange reader reader' ∧
      y.waiting = front' ++ [reader'] ∧ y.store.Blocked reader' missing ∧
      cost x.store.geometry front' ≤ cost x.store.geometry front := by
  have hhigh := hblocked.passed.bounds.2
  obtain ⟨front', hcost, hend | ⟨reader', missing', hrange, hend, hblocked', hnext⟩⟩ :=
    h.last front reader hwaiting
  · refine .inl (within_cost y ?_)
    rw [hend, h.geometry_eq]
    unfold chunksLeft at hn
    omega
  · obtain ⟨hle, hlt⟩ := hnext missing hblocked
    rcases Nat.lt_or_eq_of_le hle with hlater | hsame
    · refine .inl (.inr ⟨front', reader', hend, .inr ⟨missing', hblocked', ?_⟩⟩)
      rw [h.geometry_eq, chunksLeft_eq hrange]
      unfold chunksLeft at hn ⊢
      omega
    · refine .inr ⟨fun heq => ?_, front', reader', hrange, hend, hsame ▸ hblocked', hcost⟩
      have := hlt heq.symm
      omega

theorem Delivering.within (h : Delivering x id block y) (hx : x.Within n) : y.Within n := by
  rcases hx with hnil | ⟨front, reader, hwaiting, hcost | ⟨missing, hblocked, hn⟩⟩
  · exact .inl (h.idle hnil)
  · rw [cost_append] at hcost
    exact h.established hwaiting (by omega)
  · rcases h.advances hwaiting hblocked (Nat.le_succ_of_le hn) with
      hwithin | ⟨_, front', reader', hrange, hend, hblocked', hcost⟩
    · exact hwithin
    · refine .inr ⟨front', reader', hend, .inr ⟨missing, hblocked', ?_⟩⟩
      rw [h.geometry_eq, chunksLeft_eq hrange]
      omega

/-! ## A round -/

/-- Responses of the right size to distinct requests in flight. -/
structure Answers (x : SharedStore) (responses : List Response) : Prop where
  nodup : (responses.map Prod.fst).Nodup
  inFlight : ∀ response ∈ responses, ∃ p, x.store.pending[response.1]? = some p
  whole : ∀ response ∈ responses, response.2.length = x.store.blockSize

theorem Round.answers {responses : List Response} (h : x.Round responses) :
    x.Answers responses := by
  refine ⟨h.ids.nodup_iff.mpr (BTreeMap.nodup_keys _), fun response hmem => ?_, h.whole⟩
  have hkey := (h.ids.mem_iff (a := response.1)).mp (List.mem_map_of_mem hmem)
  obtain ⟨⟨id, p⟩, hentry, hid⟩ := List.mem_map.mp hkey
  obtain rfl : id = response.1 := hid
  exact ⟨p, BTreeMap.mem_toList.mp hentry⟩

theorem Delivering.answers {response : Response} {rest : List Response}
    (h : Delivering x response.1 block y) (hx : x.Answers (response :: rest)) : y.Answers rest := by
  have hnodup := List.nodup_cons.mp (show (response.1 :: rest.map Prod.fst).Nodup from hx.nodup)
  refine ⟨hnodup.2, fun other hmem => ?_, fun other hmem => ?_⟩
  · obtain ⟨p, hp⟩ := hx.inFlight other (List.mem_cons_of_mem _ hmem)
    have hne : other.1 ≠ response.1 := fun heq => hnodup.1 (heq ▸ List.mem_map_of_mem hmem)
    obtain ⟨q, hq, _⟩ := h.flight other.1 p hne hp
    exact ⟨q, hq⟩
  · rw [blockSize, h.geometry_eq]
    exact hx.whole other (List.mem_cons_of_mem _ hmem)

/-- The first of the responses, delivered. -/
theorem Answers.deliver {response : Response} {rest : List Response} (hx : x.Sound)
    (h : x.Answers (response :: rest)) (hroom : x.NoWrap (response :: rest)) :
    ∃ p, x.store.pending[response.1]? = some p ∧
      Delivering x response.1 p.block (x.deliver response) ∧
      PollRequests x.waiting (x.store.complete response.1 response.2).2 ∧
      (x.deliver response).Answers rest ∧ (x.deliver response).NoWrap rest := by
  obtain ⟨p, hp⟩ := h.inFlight response List.mem_cons_self
  obtain ⟨hdelivering, hrequests⟩ :=
    deliver_spec hx hroom.1 hp (h.whole response List.mem_cons_self)
  exact ⟨p, hp, hdelivering, hrequests, hdelivering.answers h, hroom.2⟩

/-- What any responses keep. -/
structure Delivered (x : SharedStore) (responses : List Response) (y : SharedStore) : Prop where
  sound : y.Sound
  requests : x.RunRequests responses
  within : ∀ n, x.Within n → y.Within n

theorem Answers.deliverAll {responses : List Response} (h : x.Answers responses)
    (hx : x.Sound) (hroom : x.NoWrap responses) :
    Delivered x responses (responses.foldl SharedStore.deliver x) := by
  induction responses generalizing x with
  | nil => exact ⟨hx, trivial, fun _ hn => hn⟩
  | cons response rest ih =>
      obtain ⟨p, _, hdelivering, hrequests, hanswers, hnowrap⟩ := h.deliver hx hroom
      obtain ⟨hsound, hrest, hwithin⟩ := ih hanswers hdelivering.sound hnowrap
      exact ⟨hsound, ⟨hrequests, hrest⟩, fun n hn => hwithin n (hdelivering.within hn)⟩

/-- The response that the last read waits for moves it on, in whatever order the
responses come. -/
theorem Answers.advances {responses : List Response} (h : x.Answers responses) (hx : x.Sound)
    (hroom : x.NoWrap responses) {front : List Reader} {reader : Reader}
    (hwaiting : x.waiting = front ++ [reader]) {missing : Nat}
    (hblocked : x.store.Blocked reader missing)
    (hn : cost x.store.geometry front + chunksLeft x.store.geometry reader missing ≤ n + 1)
    {id : Nat} {p : PendingChunk} (hp : x.store.pending[id]? = some p) (hblock : p.block = missing)
    (hmem : id ∈ responses.map Prod.fst) :
    (responses.foldl SharedStore.deliver x).Within n := by
  induction responses generalizing x front reader p with
  | nil => simp at hmem
  | cons response rest ih =>
      obtain ⟨q, hq, hdelivering, _, hanswers, hnowrap⟩ := h.deliver hx hroom
      rcases hdelivering.advances hwaiting hblocked hn with
        hwithin | ⟨hother, front', reader', hrange, hend, hblocked', hcost⟩
      · exact (hanswers.deliverAll hdelivering.sound hnowrap).within n hwithin
      · have hne : id ≠ response.1 := by
          rintro rfl
          rw [hq] at hp
          exact hother (Option.some.inj hp ▸ hblock)
        obtain ⟨p', hp', hblock'⟩ := hdelivering.flight id p hne hp
        refine ih hanswers hdelivering.sound hnowrap hend hblocked' ?_ hp'
          (hblock'.trans hblock) ((List.mem_cons.mp hmem).resolve_left hne)
        rw [hdelivering.geometry_eq, chunksLeft_eq hrange]
        omega

theorem Round.advances {responses : List Response} (h : x.Round responses) (hx : x.Sound)
    (hroom : x.NoWrap responses) (hn : x.Within (n + 1)) :
    (responses.foldl SharedStore.deliver x).Within n := by
  have hanswers := h.answers
  rcases hn with hnil | ⟨front, reader, hwaiting, hcost | ⟨missing, hblocked, hcost⟩⟩
  · exact (hanswers.deliverAll hx hroom).within n (.inl hnil)
  · obtain ⟨id, p, hp⟩ := hx.awaited (by rw [hwaiting]; simp)
    have hmem : id ∈ responses.map Prod.fst :=
      h.ids.mem_iff.mpr (List.mem_map.mpr ⟨(id, p), BTreeMap.mem_toList.mpr hp, rfl⟩)
    cases responses with
    | nil => simp at hmem
    | cons response rest =>
        obtain ⟨q, _, hdelivering, _, hrest, hnowrap⟩ := hanswers.deliver hx hroom
        rw [cost_append] at hcost
        exact (hrest.deliverAll hdelivering.sound hnowrap).within n
          (hdelivering.established hwaiting (by omega))
  · obtain ⟨id, p, hp, hblock⟩ := hblocked.pending
    exact hanswers.advances hx hroom hwaiting hblocked hcost hp hblock
      (h.ids.mem_iff.mpr (List.mem_map.mpr ⟨(id, p), BTreeMap.mem_toList.mpr hp, rfl⟩))

/-! ## All rounds -/

theorem noWrap_append {first rest : List Response} (h : x.NoWrap (first ++ rest)) :
    x.NoWrap first ∧ (first.foldl SharedStore.deliver x).NoWrap rest := by
  induction first generalizing x with
  | nil => exact ⟨trivial, h⟩
  | cons response first ih =>
      obtain ⟨hfirst, hrest⟩ := ih h.2
      exact ⟨⟨h.1, hfirst⟩, hrest⟩

theorem runRequests_append {first rest : List Response} (hfirst : x.RunRequests first)
    (hrest : (first.foldl SharedStore.deliver x).RunRequests rest) :
    x.RunRequests (first ++ rest) := by
  induction first generalizing x with
  | nil => exact hrest
  | cons response first ih => exact ⟨hfirst.1, ih hfirst.2 hrest⟩

theorem Rounds.advance {rounds : List (List Response)} (h : x.Rounds rounds) (hx : x.Sound)
    (hroom : x.NoWrap rounds.flatten) (hn : x.Within n) :
    (rounds.flatten.foldl SharedStore.deliver x).Within (n - rounds.length) ∧
      x.RunRequests rounds.flatten := by
  induction rounds generalizing x n with
  | nil => exact ⟨hn, trivial⟩
  | cons round rest ih =>
      rw [List.flatten_cons] at hroom ⊢
      obtain ⟨hround, hrest⟩ := h
      obtain ⟨hfirst, hlater⟩ := noWrap_append hroom
      have hdone := hround.answers.deliverAll hx hfirst
      have hnext : (round.foldl SharedStore.deliver x).Within (n - 1) := by
        cases n with
        | zero => exact hdone.within 0 hn
        | succ n => exact hround.advances hx hfirst hn
      obtain ⟨hwithin, hrequests⟩ := ih hrest hdone.sound hlater hnext
      rw [List.foldl_append, List.length_cons]
      refine ⟨?_, runRequests_append hdone.requests hrequests⟩
      rw [show n - (rest.length + 1) = n - 1 - rest.length by omega]
      exact hwithin

/-- What a change of the store owes before the waiting reads are polled. -/
structure Changed (s t : HttpBlockStore) : Prop where
  tidy : t.Tidy
  counted : t.Counted
  clock_le : t.clock ≤ s.clock + 1
  next_eq : t.queue.nextId = s.queue.nextId

theorem complete_changed {s : HttpBlockStore} (hs : s.Tidy) (hcounted : s.Counted)
    (hclock : s.clock + 1 ≤ u64Max) (id : Nat) (data : List UInt8) :
    Changed s (s.complete id data).2 := by
  cases hp : s.pending[id]? with
  | none =>
      rw [complete_eq hs, hp]
      exact ⟨hs, hcounted, Nat.le_succ _, rfl⟩
  | some p =>
      by_cases hlength : data.length = s.blockSize
      · have h := complete_spec hs hcounted hclock hp hlength
        exact ⟨h.tidy, h.counted, Nat.le_of_eq h.clock_eq, h.next_eq⟩
      · have htidy := complete_tidy hs id data
        rw [complete_eq hs, hp] at htidy ⊢
        simp only [respond] at htidy ⊢
        rw [if_pos (show data.length ≠ (s.settled id).blockSize from hlength)] at htidy ⊢
        refine ⟨htidy, ?_, ?_, ?_⟩ <;> unfold markFailed <;> split
        · exact ⟨hcounted.used, fun a q hq => hcounted.numbered a q (settled_get hq).2⟩
        · exact ⟨hcounted.used, fun a q hq => hcounted.numbered a q (settled_get hq).2⟩
        · exact Nat.le_succ _
        · exact Nat.le_succ _
        · rfl
        · rfl

theorem fail_changed {s : HttpBlockStore} (hs : s.Tidy) (hcounted : s.Counted) (id : Nat) :
    Changed s (s.fail id).2 := by
  have htidy := fail_tidy hs id
  rw [fail_eq hs] at htidy ⊢
  cases hp : s.pending[id]? with
  | none => exact ⟨hs, hcounted, Nat.le_succ _, rfl⟩
  | some p =>
      rw [hp] at htidy
      refine ⟨htidy, ?_, ?_, ?_⟩ <;> simp only [] <;> unfold markFailed <;> split
      · exact ⟨hcounted.used, fun a q hq => hcounted.numbered a q (settled_get hq).2⟩
      · exact ⟨hcounted.used, fun a q hq => hcounted.numbered a q (settled_get hq).2⟩
      · exact Nat.le_succ _
      · exact Nat.le_succ _
      · rfl
      · rfl

theorem write_changed {s : HttpBlockStore} (hs : s.Tidy) (hcounted : s.Counted) (sector : Nat)
    (data : List UInt8) : Changed s (s.writeSectors sector data).2 := by
  have htidy := writeSectors_tidy hs sector data
  have hspec := writeSectors_spec s sector data
  split at hspec
  · obtain ⟨overlays, heq, _⟩ := hspec
    rw [heq] at htidy ⊢
    exact ⟨htidy, ⟨hcounted.used, hcounted.numbered⟩, Nat.le_succ _, rfl⟩
  · rw [hspec]
    exact ⟨hs, hcounted, Nat.le_succ _, rfl⟩

theorem Changed.sound {store : HttpBlockStore} (h : Changed x.store store)
    (hclock : x.store.clock + 1 + (x.waiting.map Reader.count).sum ≤ u64Max)
    (hids : x.store.queue.nextId + x.waiting.length ≤ u32Max) : (x.polled store).Sound := by
  have hle := h.clock_le
  have hnext := h.next_eq
  have hpolled := poll_spec h.tidy h.counted x.waiting (by omega) (by omega)
  exact ⟨hpolled.tidy, hpolled.counted, hpolled.awaited⟩

theorem Sound.read (hx : x.Sound) (reader : Reader) (hroom : x.Unwrapped (.read reader)) :
    (x.read reader).Sound := by
  have hclock : x.store.clock + 1 + (reader.count + 0) ≤ u64Max := hroom.clock
  have hids : x.store.queue.nextId + 1 ≤ u32Max := hroom.ids
  -- preparing forgets failed chunks at most
  have hprepared : ∃ failed, x.prepared reader = { x.store with failed := failed } ∧
      (x.prepared reader).Tidy := by
    unfold prepared
    cases reader.side with
    | guest => exact ⟨x.store.failed, rfl, hx.tidy⟩
    | host =>
        simp only []
        split
        · exact ⟨∅, rfl, clearErrors_tidy hx.tidy⟩
        · exact ⟨x.store.failed, rfl, hx.tidy⟩
  obtain ⟨failed, heq, htidy⟩ := hprepared
  have hcounted : (x.prepared reader).Counted := by
    rw [heq]
    exact ⟨hx.counted.used, hx.counted.numbered⟩
  have hattempt := attempt_spec htidy hcounted reader
    (by rw [heq]; show x.store.clock + reader.count ≤ u64Max; omega) (by rw [heq]; exact hids)
  refine ⟨hattempt.tidy, hattempt.step.counted, fun hne => ?_⟩
  by_cases hwaits : (reader.attempt (x.prepared reader)).1 = true
  · obtain ⟨block, hblocked, _⟩ := hattempt.blocked hwaits
    obtain ⟨id, p, hp, _⟩ := hblocked.pending
    exact ⟨id, p, hp⟩
  · have hwaiting : x.waiting ≠ [] := by
      intro hnil
      refine hne ?_
      unfold SharedStore.read
      simp only [if_neg hwaits, hnil]
    obtain ⟨id, p, hp⟩ := hx.awaited hwaiting
    obtain ⟨q, hq, _⟩ := hattempt.step.flight id p (by rw [heq]; exact hp)
    exact ⟨id, q, hq⟩

theorem Sound.perform (hx : x.Sound) {event : Event} (hroom : x.Unwrapped event) :
    (x.perform event).Sound := by
  obtain ⟨htidy, hcounted, hawaited⟩ := hx
  cases event with
  | read reader => exact Sound.read ⟨htidy, hcounted, hawaited⟩ reader hroom
  | write sector data =>
      exact (write_changed htidy hcounted sector data).sound hroom.clock hroom.ids
  | complete id data =>
      exact (complete_changed htidy hcounted (le_trans (Nat.le_add_right _ _) hroom.clock)
        id data).sound hroom.clock hroom.ids
  | fail id => exact (fail_changed htidy hcounted id).sound hroom.clock hroom.ids
  | nextRequest =>
      refine ⟨nextRequest_tidy htidy, ?_, ?_⟩
      · simp only [SharedStore.perform, HttpBlockStore.nextRequest, HttpQueue.nextRequest]
        split <;> exact ⟨hcounted.used, hcounted.numbered⟩
      · simp only [SharedStore.perform, HttpBlockStore.nextRequest, HttpQueue.nextRequest]
        exact hawaited
  | discard =>
      exact ⟨discardChanges_tidy htidy, ⟨hcounted.used, fun id p hp => by
        simp [SharedStore.perform, discardChanges, resetRequests] at hp⟩, fun h => absurd rfl h⟩
  | reset =>
      exact ⟨resetRequests_tidy htidy, ⟨hcounted.used, fun id p hp => by
        simp [SharedStore.perform, resetRequests] at hp⟩, fun h => absurd rfl h⟩

theorem Reached.sound {parseValue : String → Option Value}
    (h : Reached parseValue Unwrapped x) : x.Sound := by
  induction h with
  | start hstore => exact ⟨fromManifest_tidy hstore, fromManifest_counted hstore,
      fun h => absurd rfl h⟩
  | next _ hroom ih => exact ih.perform hroom

def zeros : List UInt8 := List.replicate 1024 0

end SharedStore
end Storage
end Riscbox
