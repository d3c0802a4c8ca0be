import Riscbox.Virtio.Effects

/-!
# Calls that serve a queue return

A turn of the loop takes one chain.  While no turn writes over the index that the
driver published, the chains left to take become fewer.
-/

namespace Riscbox
namespace Virtio

/-! ## Taking a chain -/

/-- The chains that the driver published and the device has not taken. -/
def Bus.remaining (index : UInt16) (bus : Bus) : Nat :=
  match bus.transport.queueChecked index with
  | .ok queue =>
    match availIndex bus.memory queue with
    | .ok published => (published - queue.lastAvail).toNat
    | _ => 0
  | _ => 0

variable {index : UInt16} {chain : DescriptorChain} {b b' : Bus} {events : List Event}

/-- The bus once a chain is taken. -/
def Bus.take (index : UInt16) (queue : VirtQueue) (chain : DescriptorChain) (bus : Bus) : Bus :=
  { bus with
    transport := { bus.transport with
      queues := bus.transport.queues.set index.toNat queue.advanced } }.log (.taken index chain)

/-- What `next_chain` finds on a queue, before it takes it. -/
theorem nextChain_taken (h : nextChain index b = (.ok (some chain), b')) :
    ∃ queue published, b.transport.queueChecked index = .ok queue ∧
      availIndex b.memory queue = .ok published ∧ queue.lastAvail ≠ published ∧
      headChain b.memory queue = .ok chain ∧ b' = b.take index queue chain := by
  unfold nextChain at h
  split at h
  next => cases h
  next => cases h
  next queue hqueue =>
    dsimp only at h
    split at h
    next taken hfound =>
      obtain ⟨rfl, rfl⟩ : taken = chain ∧ b.take index queue taken = b' := by
        simpa [Bus.take] using h
      by_cases hready : queue.ready = false
      · rw [if_pos hready] at hfound
        cases hfound
      rw [if_neg hready] at hfound
      obtain ⟨_, -, hfound⟩ := Outcome.bind_eq_ok.mp hfound
      obtain ⟨_, -, hfound⟩ := Outcome.bind_eq_ok.mp hfound
      obtain ⟨published, hpublished, hfound⟩ := Outcome.bind_eq_ok.mp hfound
      by_cases heq : queue.lastAvail = published
      · rw [if_pos heq] at hfound
        cases hfound
      · rw [if_neg heq] at hfound
        obtain ⟨found, hhead, hfound⟩ := Outcome.bind_eq_ok.mp hfound
        cases hfound
        exact ⟨queue, published, hqueue, hpublished, heq, hhead, rfl⟩
    next ending hending =>
      obtain ⟨hsome, -⟩ := Prod.mk.inj h
      exact absurd hsome (hending chain)

/-- Two ranges of bytes that do not meet. -/
def Apart (start len start' len' : Nat) : Prop := start + len ≤ start' ∨ start' + len' ≤ start

/-- Neither the chain that is next on the queue nor its used ring lets the device write
over the index that the driver published. -/
def Bus.Aside (index : UInt16) (bus : Bus) : Prop :=
  ∀ queue chain, bus.transport.queueChecked index = .ok queue →
    headChain bus.memory queue = .ok chain →
    (∀ segment ∈ chain.segments, segment.writable = true → segment.len ≠ 0 →
      Apart segment.address segment.len (queue.avail.toNat + 2) 2) ∧
    Apart (queue.used.toNat + 2) (2 + 8 * queue.size.toNat) (queue.avail.toNat + 2) 2

section Loop

variable {δ α : Type} {more : δ → Bool} {body : DescriptorChain → DeviceOp δ Bool}
  {s t : Attached δ}

/-- The call ends, having taken no more chains than `bound`. -/
def Returns (bound : Nat) (call : Nat → Attached δ → Ending × Attached δ) (s : Attached δ) :
    Prop :=
  ∃ ending t events, (∀ fuel, bound < fuel → call fuel s = (some ending, t)) ∧
    t.bus.trace = s.bus.trace ++ events ∧ takenCount events ≤ bound

/-- The turns of a loop that go on. -/
def Turn (index : UInt16) (more : δ → Bool) (body : DescriptorChain → DeviceOp δ Bool)
    (s t : Attached δ) : Prop :=
  ∃ chain u, more s.device = true ∧ nextChain index s.bus = (.ok (some chain), u) ∧
    body chain { s with bus := u } = (.ok true, t)

/-- There is work for a turn. -/
def Ready (index : UInt16) (more : δ → Bool) (s : Attached δ) : Prop :=
  more s.device = true ∧ ∃ chain u, nextChain index s.bus = (.ok (some chain), u)

theorem Returns.mono {call : Nat → Attached δ → Ending × Attached δ} {bound bound' : Nat}
    (h : Returns bound call s) (hle : bound ≤ bound') : Returns bound' call s := by
  obtain ⟨ending, t, events, hending, htrace, hcount⟩ := h
  exact ⟨ending, t, events, fun fuel hfuel => hending fuel (Nat.lt_of_le_of_lt hle hfuel), htrace,
    Nat.le_trans hcount hle⟩

/-- A call that goes on as another call from a later state. -/
theorem Returns.after {call call' : Nat → Attached δ → Ending × Attached δ} {bound : Nat}
    {earlier : List Event} (h : Returns bound call' t)
    (hcall : ∀ fuel, call fuel s = call' fuel t)
    (htrace : t.bus.trace = s.bus.trace ++ earlier) (hearlier : takenCount earlier = 0) :
    Returns bound call s := by
  obtain ⟨ending, u, events, hending, hevents, hcount⟩ := h
  refine ⟨ending, u, earlier ++ events, fun fuel hfuel => ?_, ?_, ?_⟩
  · rw [hcall]
    exact hending fuel hfuel
  · rw [hevents, htrace, List.append_assoc]
  · unfold takenCount at hcount hearlier ⊢
    rw [List.countP_append]
    omega

/-- The same, where the bus is as it was. -/
theorem Returns.from {call call' : Nat → Attached δ → Ending × Attached δ} {bound : Nat}
    (h : Returns bound call' t) (hcall : ∀ fuel, call fuel s = call' fuel t)
    (hbus : t.bus = s.bus) : Returns bound call s :=
  h.after hcall (by rw [hbus, List.append_nil]) rfl

end Loop

/-! ## What a turn hands out -/

section Still

variable {δ α β : Type}

/-- The call leaves the device as it is. -/
def Still (x : DeviceOp δ α) : Prop := ∀ s, (x s).2.device = s.device

theorem Still.bind {x : DeviceOp δ α} {f : α → DeviceOp δ β} (hx : Still x)
    (hf : ∀ a, Still (f a)) : Still (x >>= f) := by
  intro s
  have hstep := hx s
  rw [Op.bind_apply]
  rcases hcase : x s with ⟨ending, t⟩
  rw [hcase] at hstep
  cases ending with
  | ok a => exact (hf a t).trans hstep
  | err e => exact hstep
  | panic => exact hstep

end Still

section Calls

variable {δ : Type} {served : Attached δ → UInt16} {held : Attached δ → Option Nat}
  {call : Nat → Attached δ → Ending × Attached δ} {s t : Attached δ}
  {more : δ → Bool} {body : DescriptorChain → DeviceOp δ Bool} {index : UInt16}

/-- Each time the call is about to take a chain, the published index is out of the way. -/
def Spared (index : UInt16) (call : Nat → Attached δ → Ending × Attached δ) (s : Attached δ) :
    Prop :=
  ∀ n t, call n s = (none, t) → t.bus.Aside index

theorem Spared.from {call' : Nat → Attached δ → Ending × Attached δ}
    (h : Spared index call s) (hcall : ∀ fuel, call fuel s = call' fuel t) :
    Spared index call' t :=
  fun n u hu => h n u ((hcall n).trans hu)

end Calls

/-! ## A queue whose rings are apart, and one whose rings are one -/

section Spinning

theorem addAddress_ok {base offset : Nat} (h : base + offset ≤ u64Max) :
    addAddress base offset = .ok (base + offset) := by
  unfold addAddress checkedAdd
  rw [if_pos h]
  rfl

end Spinning

end Virtio
end Riscbox
