import Riscbox.Virtio.Bytes
import Riscbox.Virtio.Returns

/-!
# Descriptor chains as buffers

A chain that `next_chain` returns is a buffer that the guest has scattered over its
memory.  Its positions are the addresses of its segments in order; the two copies read and
write the bytes at a window of them.
-/

namespace Riscbox
namespace Virtio

open Scatter

/-! ## Segments -/

/-- The addresses of the segments, in order. -/
def positions (segments : List Segment) : List Nat :=
  segments.flatMap fun segment => List.range' segment.address segment.len

/-- The `count` positions from `offset` on. -/
def window (segments : List Segment) (offset count : Nat) : List Nat :=
  ((positions segments).drop offset).take count

def DescriptorChain.readables (chain : DescriptorChain) : List Segment :=
  chain.segments.filter fun segment => !segment.writable

def DescriptorChain.writables (chain : DescriptorChain) : List Segment :=
  chain.segments.filter (·.writable)

/-- An access of the segment is allowed all along it. -/
def Segment.Allowed (memory : GuestMemory) (write : Bool) (segment : Segment) : Prop :=
  segment.len ≠ 0 → segment.address + segment.len ≤ u64Max ∧
    memory.validateRam segment.address segment.len write = true

theorem Segment.Allowed.congr {memory memory' : GuestMemory} {write : Bool} {segment : Segment}
    (h : segment.Allowed memory write) (hlayout : memory'.layout = memory.layout) :
    segment.Allowed memory' write := by
  intro hlen
  rw [GuestMemory.validateRam_congr hlayout]
  exact h hlen

theorem length_positions_cons (segment : Segment) (segments : List Segment) :
    (positions (segment :: segments)).length = segment.len + (positions segments).length := by
  unfold positions
  rw [List.flatMap_cons, List.length_append, List.length_range']

theorem window_skip {segment : Segment} {offset : Nat} (h : segment.len ≤ offset)
    (segments : List Segment) (count : Nat) :
    window (segment :: segments) offset count = window segments (offset - segment.len) count := by
  unfold window positions
  rw [List.flatMap_cons, List.drop_append, List.drop_of_length_le (by rw [List.length_range']; exact h),
    List.nil_append, List.length_range']

/-- A window that starts in the first segment. -/
theorem window_cons {segment : Segment} {offset : Nat} (h : offset < segment.len)
    (segments : List Segment) (count : Nat) :
    window (segment :: segments) offset count =
      List.range' (segment.address + offset) (min (segment.len - offset) count) ++
        window segments 0 (count - min (segment.len - offset) count) := by
  have htake : (List.range' (segment.address + offset) (segment.len - offset)).take count =
      List.range' (segment.address + offset) (min (segment.len - offset) count) := by
    rcases Nat.le_total (segment.len - offset) count with hle | hge
    · rw [List.take_range'_of_length_le hle, Nat.min_eq_left hle]
    · rw [List.take_range'_of_length_ge hge, Nat.min_eq_right hge]
  unfold window positions
  rw [List.flatMap_cons, List.drop_append_of_le_length (by rw [List.length_range']; omega),
    List.drop_range', Nat.mul_one, List.take_append, htake, List.length_range', List.drop_zero]
  congr 2
  omega

theorem window_zero (segments : List Segment) (offset : Nat) : window segments offset 0 = [] :=
  List.take_zero

/-! ## Copies -/

variable {memory : GuestMemory}

/-- What `gather` gives. -/
theorem gather_bytes (hsep : memory.Separate) {segments : List Segment}
    (hallowed : ∀ segment ∈ segments, segment.Allowed memory false) {skip count : Nat}
    (h : skip + count ≤ (positions segments).length) :
    ∃ bytes, gather memory segments skip count = .ok bytes ∧
      bytes.map some = (window segments skip count).map memory.byteAt := by
  induction segments generalizing skip count with
  | nil =>
    have hzero : count = 0 := by
      rw [positions, List.flatMap_nil, List.length_nil] at h
      omega
    rw [hzero, window_zero]
    exact ⟨[], rfl, rfl⟩
  | cons segment rest ih =>
    rw [length_positions_cons] at h
    have hrest : ∀ s ∈ rest, s.Allowed memory false :=
      fun s hs => hallowed s (List.mem_cons_of_mem segment hs)
    unfold gather
    by_cases hskip : skip ≥ segment.len
    · rw [if_pos hskip, window_skip hskip]
      exact ih hrest (by omega)
    · obtain ⟨hfits, hvalid⟩ := hallowed segment List.mem_cons_self (by omega)
      have hlt : skip < segment.len := by omega
      have hpart := GuestMemory.validateRam_part hsep hlt
        (Nat.min_le_left (segment.len - skip) count) hvalid
      obtain ⟨bytes, hread, hbytes⟩ := GuestMemory.readBytes_byteAt hsep hpart
      have haddress : addAddress segment.address skip = .ok (segment.address + skip) :=
        addAddress_ok (by omega)
      rw [if_neg hskip, window_cons hlt]
      dsimp only
      rw [haddress, Outcome.ok_bind, hread, Outcome.okOr_some, Outcome.ok_bind]
      by_cases hdone : min (segment.len - skip) count = count
      · rw [if_pos hdone, hdone, Nat.sub_self, window_zero, List.append_nil]
        rw [hdone] at hbytes
        exact ⟨bytes, rfl, hbytes⟩
      · have hfits : 0 + (count - min (segment.len - skip) count) ≤ (positions rest).length := by
          omega
        obtain ⟨more, hmore, hmap⟩ := ih hrest hfits
        rw [if_neg hdone, hmore, Outcome.ok_bind]
        refine ⟨bytes ++ more, rfl, ?_⟩
        rw [List.map_append, List.map_append, hbytes, hmap]

theorem length_window {segments : List Segment} {offset count : Nat}
    (h : offset + count ≤ (positions segments).length) :
    (window segments offset count).length = count := by
  unfold window
  rw [List.length_take, List.length_drop]
  omega

theorem store_of_write {bus : Bus} {address : Nat} {data : List UInt8}
    (h : bus.memory.writeBytes address data = some memory) :
    ∃ next, store address data bus = (.ok (), next) ∧ next.transport = bus.transport ∧
      next.memory = memory := by
  unfold store
  rw [h]
  exact ⟨_, rfl, rfl, rfl⟩

/-- What `scatter` stores. -/
theorem scatter_bytes {segments : List Segment} {skip : Nat} {bytes : List UInt8} {bus : Bus}
    (hsep : bus.memory.Separate)
    (hallowed : ∀ segment ∈ segments, segment.Allowed bus.memory true)
    (h : skip + bytes.length ≤ (positions segments).length) :
    ∃ bus', scatter segments skip bytes bus = (.ok (), bus') ∧
      bus'.transport = bus.transport ∧ bus'.memory.layout = bus.memory.layout ∧
      bus'.memory.byteAt =
        poke bus.memory.byteAt (window segments skip bytes.length) (bytes.map some) := by
  induction segments generalizing skip bytes bus with
  | nil =>
    have hzero : bytes.length = 0 := by
      rw [positions, List.flatMap_nil, List.length_nil] at h
      omega
    unfold scatter
    rw [if_pos hzero, hzero, window_zero]
    exact ⟨bus, rfl, rfl, rfl, rfl⟩
  | cons segment rest ih =>
    rw [length_positions_cons] at h
    unfold scatter
    by_cases hskip : skip ≥ segment.len
    · rw [if_pos hskip, window_skip hskip]
      exact ih hsep (fun s hs => hallowed s (List.mem_cons_of_mem segment hs)) (by omega)
    · obtain ⟨hfits, hvalid⟩ := hallowed segment List.mem_cons_self (by omega)
      have hlt : skip < segment.len := by omega
      have hlength : (bytes.take (min (segment.len - skip) bytes.length)).length =
          min (segment.len - skip) bytes.length := by
        rw [List.length_take]
        omega
      have hpart : bus.memory.validateRam (segment.address + skip)
          (bytes.take (min (segment.len - skip) bytes.length)).length true = true := by
        rw [hlength]
        exact GuestMemory.validateRam_part hsep hlt (Nat.min_le_left _ _) hvalid
      obtain ⟨memory, hwrite⟩ := GuestMemory.writeBytes_of_validateRam hpart
      have haddress : addAddress segment.address skip = .ok (segment.address + skip) :=
        addAddress_ok (by omega)
      have hlayout := GuestMemory.writeBytes_layout hwrite
      have hbytes := GuestMemory.writeBytes_byteAt hsep hwrite
      rw [hlength] at hbytes
      obtain ⟨next, hstore, htransport, hmemory⟩ := store_of_write hwrite
      rw [if_neg hskip, window_cons hlt, Op.bind_ok (Op.lift_ok haddress bus),
        Op.bind_ok hstore]
      rw [← hmemory] at hlayout hbytes
      by_cases hdone : min (segment.len - skip) bytes.length = bytes.length
      · rw [if_pos hdone, hdone, Nat.sub_self, window_zero, List.append_nil]
        rw [hdone, List.take_length] at hbytes
        exact ⟨next, rfl, htransport, hlayout, hbytes⟩
      · have hdrop : (bytes.drop (min (segment.len - skip) bytes.length)).length =
            bytes.length - min (segment.len - skip) bytes.length := List.length_drop
        have hrest : ∀ s ∈ rest, s.Allowed next.memory true := fun s hs =>
          (hallowed s (List.mem_cons_of_mem segment hs)).congr hlayout
        have hroom : 0 + (bytes.drop (min (segment.len - skip) bytes.length)).length ≤
            (positions rest).length := by omega
        obtain ⟨bus', hrun, htransport', hlayout', hbytes'⟩ :=
          ih (hsep.congr hlayout) hrest hroom
        rw [if_neg hdone]
        refine ⟨bus', hrun, htransport'.trans htransport, hlayout'.trans hlayout, ?_⟩
        rw [hbytes', hdrop, hbytes, ← poke_append]
        · rw [← List.map_append, List.take_append_drop]
        · rw [List.length_range', List.length_map, hlength]

/-! ## The walk of a chain -/

/-- What a descriptor says: its segment, and the next index if it has one. -/
def descriptor (memory : GuestMemory) (queue : VirtQueue) (index : UInt16) :
    Outcome QueueError (Segment × Option UInt16) := do
  let address ← addAddress queue.desc.toNat (index.toNat * 16)
  let dataAddress ← readWord memory address 8
  let len ← readWord memory (← addAddress address 8) 4
  let flags ← readU16 memory (← addAddress address 12)
  let next ← readU16 memory (← addAddress address 14)
  return ({ address := dataAddress, len := len, writable := decide (flags &&& 2 ≠ 0) },
    if flags &&& 1 = 0 then none else some next)

/-- The descriptors from an index to the end of its chain. -/
inductive Links (memory : GuestMemory) (queue : VirtQueue) :
    UInt16 → List UInt16 → List Segment → Prop
  | last {index : UInt16} {segment : Segment} : index < queue.size →
      descriptor memory queue index = .ok (segment, none) →
      Links memory queue index [index] [segment]
  | more {index next : UInt16} {segment : Segment} {indices : List UInt16}
      {segments : List Segment} : index < queue.size →
      descriptor memory queue index = .ok (segment, some next) →
      Links memory queue next indices segments →
      Links memory queue index (index :: indices) (segment :: segments)

/-- The lengths of the segments together. -/
def total (segments : List Segment) : Nat := (segments.map Segment.len).sum

variable {queue : VirtQueue}

theorem Links.unique {index : UInt16} {indices indices' : List UInt16}
    {segments segments' : List Segment} (h : Links memory queue index indices segments)
    (h' : Links memory queue index indices' segments') : indices = indices' := by
  induction h generalizing indices' segments' with
  | last _ hdescriptor =>
    cases h' with
    | last => rfl
    | more _ hmore => rw [hdescriptor] at hmore; cases hmore
  | more _ hdescriptor _ ih =>
    cases h' with
    | last _ hlast => rw [hdescriptor] at hlast; cases hlast
    | more _ hmore hrest =>
      rw [hdescriptor] at hmore
      cases hmore
      rw [ih hrest]

theorem Links.bounded {index : UInt16} {indices : List UInt16} {segments : List Segment}
    (h : Links memory queue index indices segments) : ∀ i ∈ indices, i < queue.size := by
  induction h with
  | last hlt _ =>
    intro i hi
    rw [List.mem_singleton.mp hi]
    exact hlt
  | more hlt _ _ ih =>
    intro i hi
    rcases List.mem_cons.mp hi with rfl | hi
    · exact hlt
    · exact ih i hi

theorem Links.length_eq {index : UInt16} {indices : List UInt16} {segments : List Segment}
    (h : Links memory queue index indices segments) : indices.length = segments.length := by
  induction h with
  | last => rfl
  | more _ _ _ ih => exact congrArg (· + 1) ih

/-- From each index of a chain the rest of the chain follows. -/
theorem Links.suffix {index : UInt16} {indices : List UInt16} {segments : List Segment}
    (h : Links memory queue index indices segments) : ∀ i ∈ indices,
      ∃ rest segments', rest <:+ indices ∧ Links memory queue i rest segments' := by
  induction h with
  | last hlt hdescriptor =>
    intro i hi
    rw [List.mem_singleton.mp hi]
    exact ⟨_, _, List.suffix_refl _, .last hlt hdescriptor⟩
  | more hlt hdescriptor hrest ih =>
    intro i hi
    rcases List.mem_cons.mp hi with rfl | hi
    · exact ⟨_, _, List.suffix_refl _, .more hlt hdescriptor hrest⟩
    · obtain ⟨rest, segments', hsuffix, hlinks⟩ := ih i hi
      exact ⟨rest, segments', hsuffix.trans (List.suffix_cons _ _), hlinks⟩

/-- A chain that ends visits no descriptor twice. -/
theorem Links.nodup {index : UInt16} {indices : List UInt16} {segments : List Segment}
    (h : Links memory queue index indices segments) : indices.Nodup := by
  induction h with
  | last => exact List.nodup_singleton _
  | @more index next segment indices segments hlt hdescriptor hrest ih =>
    refine List.nodup_cons.mpr ⟨fun hmem => ?_, ih⟩
    -- the rest would contain the whole chain again
    obtain ⟨again, _, hsuffix, hlinks⟩ := hrest.suffix index hmem
    have hsame := (Links.more hlt hdescriptor hrest).unique hlinks
    have hlength := hsuffix.length_le
    rw [← hsame, List.length_cons] at hlength
    omega

theorem guard_ok {α : Type} {c : Prop} [Decidable c] {e : QueueError}
    {f : Unit → Outcome QueueError α} {a : α}
    (h : (if c then Outcome.err e >>= f else Outcome.ok () >>= f) = .ok a) :
    ¬c ∧ f () = .ok a := by
  by_cases hc : c
  · rw [if_pos hc] at h
    cases h
  · rw [if_neg hc] at h
    exact ⟨hc, h⟩

theorem ram_ok {α : Type} {len address : Nat} {v : Bool}
    {f : Unit → Outcome QueueError α} {a : α}
    (h : (if len ≠ 0 then addAddress address len >>= fun _ =>
        if v = true then Outcome.ok () >>= f else Outcome.err .memory >>= f
      else Outcome.ok () >>= f) = .ok a) :
    (len ≠ 0 → address + len ≤ u64Max ∧ v = true) ∧ f () = .ok a := by
  by_cases hlen : len ≠ 0
  · rw [if_pos hlen] at h
    obtain ⟨limit, hlimit, h⟩ := Outcome.bind_eq_ok.mp h
    have hfits := (checkedAdd_eq_some.mp (Outcome.okOr_eq_ok.mp hlimit)).1
    by_cases hv : v = true
    · rw [if_pos hv] at h
      exact ⟨fun _ => ⟨hfits, hv⟩, h⟩
    · rw [if_neg hv] at h
      cases h
  · rw [if_neg hlen] at h
    exact ⟨fun hne => absurd hne hlen, h⟩

/-- What the walk has checked of a descriptor. -/
theorem readDescriptor_ok {index : UInt16} {gathered gathered' : Gathered}
    {next : Option UInt16}
    (h : readDescriptor memory queue index gathered = .ok (gathered', next)) :
    ∃ segment, index < queue.size ∧ descriptor memory queue index = .ok (segment, next) ∧
      segment.Allowed memory segment.writable ∧
      (gathered.writing = true → segment.writable = true) ∧
      gathered'.writing = (gathered.writing || segment.writable) ∧
      gathered'.segments = gathered.segments ++ [segment] ∧
      (segment.writable = true → gathered'.readable = gathered.readable ∧
        gathered'.writable = gathered.writable + segment.len ∧
        gathered'.writable ≤ u32Max) ∧
      (segment.writable = false → gathered'.writable = gathered.writable ∧
        gathered'.readable = gathered.readable + segment.len ∧
        gathered'.readable ≤ u32Max) := by
  unfold readDescriptor at h
  obtain ⟨hsize, h⟩ := guard_ok h
  obtain ⟨address, haddress, h⟩ := Outcome.bind_eq_ok.mp h
  obtain ⟨dataAddress, hdata, h⟩ := Outcome.bind_eq_ok.mp h
  obtain ⟨lenAddress, hlenAddress, h⟩ := Outcome.bind_eq_ok.mp h
  obtain ⟨len, hlen, h⟩ := Outcome.bind_eq_ok.mp h
  obtain ⟨flagsAddress, hflagsAddress, h⟩ := Outcome.bind_eq_ok.mp h
  obtain ⟨flags, hflags, h⟩ := Outcome.bind_eq_ok.mp h
  obtain ⟨nextAddress, hnextAddress, h⟩ := Outcome.bind_eq_ok.mp h
  obtain ⟨follows, hnext, h⟩ := Outcome.bind_eq_ok.mp h
  obtain ⟨-, h⟩ := guard_ok h
  obtain ⟨hdirection, h⟩ := guard_ok h
  obtain ⟨sum, hsum, h⟩ := Outcome.bind_eq_ok.mp h
  obtain ⟨hram, h⟩ := ram_ok h
  obtain ⟨hsumle, hsumeq⟩ := checkedAdd_eq_some.mp (Outcome.okOr_eq_ok.mp hsum)
  have hpair := Outcome.ok.inj h
  have hgathered := congrArg Prod.fst hpair
  have hlink := congrArg Prod.snd hpair
  dsimp only at hgathered hlink
  rw [← hgathered]
  refine ⟨{ address := dataAddress, len := len, writable := decide (flags &&& 2 ≠ 0) },
    UInt16.not_le.mp hsize, ?_, hram, ?_, rfl, rfl, ?_, ?_⟩
  · unfold descriptor
    rw [haddress, Outcome.ok_bind, hdata, Outcome.ok_bind, hlenAddress, Outcome.ok_bind, hlen,
      Outcome.ok_bind, hflagsAddress, Outcome.ok_bind, hflags, Outcome.ok_bind, hnextAddress,
      Outcome.ok_bind, hnext, Outcome.ok_bind, ← hlink]
    rfl
  · intro hwriting
    by_contra hreadable
    rw [Bool.not_eq_true] at hreadable
    exact hdirection ⟨hreadable, hwriting⟩
  · intro hwritable
    dsimp only at hwritable ⊢
    rw [if_pos hwritable] at hsumle hsumeq
    rw [if_pos hwritable, if_pos hwritable, hsumeq]
    exact ⟨rfl, rfl, hsumle⟩
  · intro hreadable
    have hnot : ¬decide (flags &&& 2 ≠ 0) = true :=
      fun hwritable => Bool.false_ne_true (hreadable.symm.trans hwritable)
    dsimp only
    rw [if_neg hnot] at hsumle hsumeq
    rw [if_neg hnot, if_neg hnot, hsumeq]
    exact ⟨rfl, rfl, hsumle⟩

/-- The readable segments come first. -/
def Ordered (segments : List Segment) : Prop :=
  segments.Pairwise fun segment later => segment.writable = true → later.writable = true

/-- What the loop adds to what it has gathered. -/
structure Gathers (memory : GuestMemory) (gathered : Gathered) (segments : List Segment)
    (chain : DescriptorChain) : Prop where
  segments_eq : chain.segments = gathered.segments ++ segments
  readable_eq : chain.readable =
    gathered.readable + total (segments.filter fun segment => !segment.writable)
  writable_eq : chain.writable = gathered.writable + total (segments.filter (·.writable))
  readable_le : gathered.readable ≤ u32Max → chain.readable ≤ u32Max
  writable_le : gathered.writable ≤ u32Max → chain.writable ≤ u32Max
  allowed : ∀ segment ∈ segments, segment.Allowed memory segment.writable
  ordered : Ordered segments
  writing : gathered.writing = true → ∀ segment ∈ segments, segment.writable = true

theorem total_cons (segment : Segment) (segments : List Segment) :
    total (segment :: segments) = segment.len + total segments := rfl

/-- One descriptor before the rest. -/
theorem Gathers.cons {index : UInt16} {gathered gathered' : Gathered} {link : Option UInt16}
    {segment : Segment} {segments : List Segment} {chain : DescriptorChain}
    (hread : readDescriptor memory queue index gathered = .ok (gathered', link))
    (hsegment : descriptor memory queue index = .ok (segment, link))
    (h : Gathers memory gathered' segments chain) :
    Gathers memory gathered (segment :: segments) chain := by
  obtain ⟨segment', -, hsegment', hallowed, hwriting, hwriting', hsegments, hwritable, hreadable⟩ :=
    readDescriptor_ok hread
  rw [hsegment] at hsegment'
  cases hsegment'
  have hafter : segment.writable = true → ∀ s ∈ segments, s.writable = true := by
    intro hsegment
    apply h.writing
    rw [hwriting', hsegment, Bool.or_true]
  refine ⟨?_, ?_, ?_, ?_, ?_, ?_, ?_, ?_⟩
  · rw [h.segments_eq, hsegments, List.append_assoc, List.singleton_append]
  · rw [h.readable_eq]
    cases hs : segment.writable with
    | true =>
      rw [(hwritable hs).1, List.filter_cons_of_neg (by rw [hs]; exact Bool.false_ne_true)]
    | false =>
      rw [(hreadable hs).2.1, List.filter_cons_of_pos (by rw [hs]; rfl), total_cons,
        Nat.add_assoc]
  · rw [h.writable_eq]
    cases hs : segment.writable with
    | true =>
      rw [(hwritable hs).2.1, List.filter_cons_of_pos hs, total_cons, Nat.add_assoc]
    | false =>
      rw [(hreadable hs).1, List.filter_cons_of_neg (by rw [hs]; exact Bool.false_ne_true)]
  · intro hle
    apply h.readable_le
    cases hs : segment.writable with
    | true =>
      rw [(hwritable hs).1]
      exact hle
    | false => exact (hreadable hs).2.2
  · intro hle
    apply h.writable_le
    cases hs : segment.writable with
    | true => exact (hwritable hs).2.2
    | false =>
      rw [(hreadable hs).1]
      exact hle
  · intro s hs
    rcases List.mem_cons.mp hs with rfl | hs
    · exact hallowed
    · exact h.allowed s hs
  · exact List.pairwise_cons.mpr ⟨fun s hs hsegment => hafter hsegment s hs, h.ordered⟩
  · intro hgathered s hs
    rcases List.mem_cons.mp hs with rfl | hs
    · exact hwriting hgathered
    · exact hafter (hwriting hgathered) s hs

/-- The end of a chain. -/
theorem Gathers.nil (gathered : Gathered) (head : UInt16) :
    Gathers memory gathered []
      { head := head, readable := gathered.readable, writable := gathered.writable
        segments := gathered.segments } where
  segments_eq := (List.append_nil _).symm
  readable_eq := rfl
  writable_eq := rfl
  readable_le := id
  writable_le := id
  allowed := fun segment hsegment => absurd hsegment List.not_mem_nil
  ordered := List.Pairwise.nil
  writing := fun _ segment hsegment => absurd hsegment List.not_mem_nil

theorem readChainLoop_ok {head : UInt16} {fuel : Nat} {index : UInt16} {gathered : Gathered}
    {chain : DescriptorChain} (h : readChainLoop memory queue head fuel index gathered = .ok chain) :
    ∃ indices segments, Links memory queue index indices segments ∧ indices.length ≤ fuel ∧
      Gathers memory gathered segments chain := by
  induction fuel generalizing index gathered with
  | zero => cases h
  | succ fuel ih =>
    unfold readChainLoop at h
    obtain ⟨⟨gathered', link⟩, hread, h⟩ := Outcome.bind_eq_ok.mp h
    obtain ⟨segment, hlt, hsegment, -⟩ := readDescriptor_ok hread
    cases link with
    | none =>
      rw [← Outcome.ok.inj h]
      exact ⟨[index], [segment], .last hlt hsegment, by rw [List.length_singleton]; omega,
        (Gathers.nil gathered' head).cons hread hsegment⟩
    | some next =>
      obtain ⟨indices, segments, hlinks, hlength, hgathers⟩ := ih h
      exact ⟨index :: indices, segment :: segments, .more hlt hsegment hlinks,
        Nat.succ_le_succ hlength, hgathers.cons hread hsegment⟩

theorem readChainLoop_head {head : UInt16} {fuel : Nat} {index : UInt16} {gathered : Gathered}
    {chain : DescriptorChain} (h : readChainLoop memory queue head fuel index gathered = .ok chain) :
    chain.head = head := by
  induction fuel generalizing index gathered with
  | zero => cases h
  | succ fuel ih =>
    unfold readChainLoop at h
    obtain ⟨⟨gathered', link⟩, hread, h⟩ := Outcome.bind_eq_ok.mp h
    cases link with
    | none =>
      rw [← Outcome.ok.inj h]
    | some next => exact ih h

/-! ## Chains that are taken -/

/-- The access lies in one RAM range, and in one that can be written where it writes. -/
def GuestMemory.InRam (memory : GuestMemory) (address len : Nat) (write : Bool) : Prop :=
  ∃ range ∈ memory, range.isRam = true ∧ (write = true → range.isRom = false) ∧
    range.addr ≤ address ∧ address + len ≤ range.addr + range.size

/-- A chain of the queue. -/
structure WellFormedChain (memory : GuestMemory) (queue : VirtQueue)
    (chain : DescriptorChain) : Prop where
  links : ∃ indices, Links memory queue chain.head indices chain.segments ∧ indices.Nodup ∧
    indices.length ≤ queue.size.toNat ∧ ∀ index ∈ indices, index < queue.size
  ordered : Ordered chain.segments
  readable_eq : chain.readable = total chain.readables
  writable_eq : chain.writable = total chain.writables
  readable_le : chain.readable ≤ u32Max
  writable_le : chain.writable ≤ u32Max
  inRam : ∀ segment ∈ chain.segments, segment.len ≠ 0 →
    memory.InRam segment.address segment.len segment.writable

theorem total_eq (segments : List Segment) : total segments = (positions segments).length := by
  induction segments with
  | nil => rfl
  | cons segment segments ih => rw [total_cons, length_positions_cons, ih]

theorem inRam_of_validateRam {address len : Nat} {write : Bool} (hlen : len ≠ 0)
    (h : memory.validateRam address len write = true) : memory.InRam address len write := by
  obtain ⟨range, hrange, hholds, hram, hrom, hfits⟩ := GuestMemory.exists_of_validateRam h
  have hat := of_decide_eq_true hholds
  refine ⟨range, hrange, hram, ?_, hat.1, by omega⟩
  intro hwrite
  by_contra hnot
  rw [Bool.not_eq_false] at hnot
  exact hrom ⟨hwrite, hnot⟩

theorem headChain_wellFormed {chain : DescriptorChain}
    (h : headChain memory queue = .ok chain) :
    WellFormedChain memory queue chain ∧
      ∀ segment ∈ chain.segments, segment.Allowed memory segment.writable := by
  unfold headChain at h
  obtain ⟨address, -, h⟩ := Outcome.bind_eq_ok.mp h
  obtain ⟨head, -, h⟩ := Outcome.bind_eq_ok.mp h
  obtain ⟨-, h⟩ := guard_ok h
  unfold readChain at h
  obtain ⟨indices, segments, hlinks, hlength, hgathers⟩ := readChainLoop_ok h
  have hsegments : chain.segments = segments := hgathers.segments_eq.trans (List.nil_append _)
  have hhead := readChainLoop_head h
  subst hsegments
  subst hhead
  refine ⟨⟨⟨indices, hlinks, hlinks.nodup, hlength, hlinks.bounded⟩, hgathers.ordered, ?_, ?_, ?_,
    ?_, ?_⟩, hgathers.allowed⟩
  · exact hgathers.readable_eq.trans (Nat.zero_add _)
  · exact hgathers.writable_eq.trans (Nat.zero_add _)
  · exact hgathers.readable_le (Nat.zero_le _)
  · exact hgathers.writable_le (Nat.zero_le _)
  · intro segment hsegment hlen
    exact inRam_of_validateRam hlen (hgathers.allowed segment hsegment hlen).2

/-! ## Chains as buffers -/

/-- The two copies of the chain on a bus: at a window inside the chain they read and write
the bytes at its positions, in chain order; beyond the chain they refuse and leave the bus
as it was. -/
structure Buffer (chain : DescriptorChain) (bus : Bus) : Prop where
  reads : ∀ offset count, offset + count ≤ chain.readable →
    ∃ bytes, copyChain bus.memory chain offset count = .ok bytes ∧
      bytes.map some = (window chain.readables offset count).map bus.memory.byteAt
  readRefused : ∀ offset count, chain.readable < offset + count →
    ∃ e, copyChain bus.memory chain offset count = .err e
  writes : ∀ offset bytes, offset + bytes.length ≤ chain.writable →
    ∃ bus', writeChain chain offset bytes bus = (.ok (), bus') ∧
      bus'.transport = bus.transport ∧ bus'.memory.layout = bus.memory.layout ∧
      bus'.memory.byteAt =
        poke bus.memory.byteAt (window chain.writables offset bytes.length) (bytes.map some)
  writeRefused : ∀ offset bytes, chain.writable < offset + bytes.length →
    ∃ e, writeChain chain offset bytes bus = (.err e, bus)

/-- A write at positions of their own: its bytes stand there, and every other byte of
guest memory is as it was. -/
def Exact (chain : DescriptorChain) (bus : Bus) : Prop :=
  (positions chain.writables).Nodup → ∀ offset bytes,
    offset + bytes.length ≤ chain.writable →
    ∃ bus', writeChain chain offset bytes bus = (.ok (), bus') ∧
      (window chain.writables offset bytes.length).map bus'.memory.byteAt = bytes.map some ∧
      ∀ address ∉ window chain.writables offset bytes.length,
        bus'.memory.byteAt address = bus.memory.byteAt address

theorem buffer_of_allowed {chain : DescriptorChain} {bus : Bus} (hsep : bus.memory.Separate)
    (hchain : WellFormedChain memory queue chain)
    (hallowed : ∀ segment ∈ chain.segments, segment.Allowed bus.memory segment.writable) :
    Buffer chain bus := by
  have hreadables : ∀ segment ∈ chain.readables, segment.Allowed bus.memory false := by
    intro segment hsegment
    obtain ⟨hmem, hnot⟩ := List.mem_filter.mp hsegment
    have hfalse : segment.writable = false := by simpa using hnot
    rw [← hfalse]
    exact hallowed segment hmem
  have hwritables : ∀ segment ∈ chain.writables, segment.Allowed bus.memory true := by
    intro segment hsegment
    obtain ⟨hmem, htrue⟩ := List.mem_filter.mp hsegment
    have htrue : segment.writable = true := htrue
    rw [← htrue]
    exact hallowed segment hmem
  have hreadable : chain.readable = (positions chain.readables).length :=
    hchain.readable_eq.trans (total_eq _)
  have hwritable : chain.writable = (positions chain.writables).length :=
    hchain.writable_eq.trans (total_eq _)
  have hreadMax := hchain.readable_le
  have hwriteMax := hchain.writable_le
  refine ⟨?_, ?_, ?_, ?_⟩
  · intro offset count h
    have hsmall : ¬(count > u32Max ∨ offset + count > u32Max) := by omega
    have hinside : ¬offset + count > chain.readable := by omega
    unfold copyChain
    rw [if_neg hsmall, if_neg hinside]
    exact gather_bytes hsep hreadables (by omega)
  · intro offset count h
    unfold copyChain
    by_cases hover : count > u32Max ∨ offset + count > u32Max
    · rw [if_pos hover]
      exact ⟨_, rfl⟩
    · rw [if_neg hover, if_pos h]
      exact ⟨_, rfl⟩
  · intro offset bytes h
    have hsmall : ¬(bytes.length > u32Max ∨ offset + bytes.length > u32Max) := by omega
    have hinside : ¬offset + bytes.length > chain.writable := by omega
    unfold writeChain
    have hfits : offset + bytes.length ≤ (positions chain.writables).length := by omega
    rw [if_neg hsmall, if_neg hinside]
    exact scatter_bytes hsep hwritables hfits
  · intro offset bytes h
    unfold writeChain
    by_cases hover : bytes.length > u32Max ∨ offset + bytes.length > u32Max
    · rw [if_pos hover]
      exact ⟨_, rfl⟩
    · rw [if_neg hover, if_pos h]
      exact ⟨_, rfl⟩

theorem Buffer.exact {chain : DescriptorChain} {bus : Bus} (h : Buffer chain bus)
    (hchain : WellFormedChain memory queue chain) : Exact chain bus := by
  intro hnodup offset bytes hfits
  obtain ⟨bus', hwrite, -, -, hbytes⟩ := h.writes offset bytes hfits
  have hroom : offset + bytes.length ≤ (positions chain.writables).length := by
    rw [← total_eq]
    show _ ≤ total chain.writables
    rw [← hchain.writable_eq]
    exact hfits
  have hwindow : (window chain.writables offset bytes.length).Nodup :=
    (hnodup.sublist (List.drop_sublist _ _)).sublist (List.take_sublist _ _)
  refine ⟨bus', hwrite, ?_, ?_⟩
  · rw [hbytes]
    apply map_poke hwindow
    rw [length_window hroom, List.length_map]
  · intro address haddress
    rw [hbytes, poke_of_not_mem haddress]

/-- A chain that is taken is a buffer, now and later, as long as the map is the same. -/
theorem taken_buffer {bus bus' : Bus} {index : UInt16} {chain : DescriptorChain}
    (hsep : bus.memory.Separate) (h : nextChain index bus = (.ok (some chain), bus')) :
    (∃ queue, bus.transport.queueChecked index = .ok queue ∧
      WellFormedChain bus.memory queue chain) ∧
    ∀ later : Bus, later.memory.layout = bus.memory.layout →
      Buffer chain later ∧ Exact chain later := by
  obtain ⟨queue, published, hqueue, -, -, hhead, -⟩ := nextChain_taken h
  obtain ⟨hchain, hallowed⟩ := headChain_wellFormed hhead
  refine ⟨⟨queue, hqueue, hchain⟩, fun later hlayout => ?_⟩
  have hbuffer : Buffer chain later := buffer_of_allowed (hsep.congr hlayout) hchain
    fun segment hsegment => (hallowed segment hsegment).congr hlayout
  exact ⟨hbuffer, hbuffer.exact hchain⟩

end Virtio
end Riscbox
