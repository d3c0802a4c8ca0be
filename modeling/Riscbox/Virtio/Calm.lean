import Riscbox.Virtio.Effects

/-!
# Queue calls do not panic
-/

namespace Riscbox
namespace Virtio

variable {α : Type}

/-! ## Chains -/

theorem addAddress_ne_panic (base offset : Nat) : addAddress base offset ≠ .panic :=
  Outcome.okOr_ne_panic _ _

theorem readWord_ne_panic (memory : GuestMemory) (address width : Nat) :
    readWord memory address width ≠ .panic :=
  Outcome.okOr_ne_panic _ _

theorem readU16_ne_panic (memory : GuestMemory) (address : Nat) :
    readU16 memory address ≠ .panic :=
  Outcome.bind_ne_panic (readWord_ne_panic memory address 2) fun _ _ h => by cases h

theorem guard_ne_panic {c : Prop} [Decidable c] {e : QueueError} {f : Unit → Outcome QueueError α}
    (h : f () ≠ .panic) :
    (if c then Outcome.err e >>= f else Outcome.ok () >>= f) ≠ .panic := by
  by_cases hc : c
  · rw [if_pos hc]
    exact fun hpanic => by cases hpanic
  · rw [if_neg hc]
    exact h

theorem readDescriptor_ne_panic (memory : GuestMemory) (queue : VirtQueue) (index : UInt16)
    (gathered : Gathered) : readDescriptor memory queue index gathered ≠ .panic := by
  unfold readDescriptor
  refine guard_ne_panic ?_
  refine Outcome.bind_ne_panic (addAddress_ne_panic _ _) fun address _ => ?_
  refine Outcome.bind_ne_panic (readWord_ne_panic _ _ _) fun dataAddress _ => ?_
  refine Outcome.bind_ne_panic (addAddress_ne_panic _ _) fun _ _ => ?_
  refine Outcome.bind_ne_panic (readWord_ne_panic _ _ _) fun len _ => ?_
  refine Outcome.bind_ne_panic (addAddress_ne_panic _ _) fun _ _ => ?_
  refine Outcome.bind_ne_panic (readU16_ne_panic _ _) fun flags _ => ?_
  refine Outcome.bind_ne_panic (addAddress_ne_panic _ _) fun _ _ => ?_
  refine Outcome.bind_ne_panic (readU16_ne_panic _ _) fun next _ => ?_
  refine guard_ne_panic ?_
  refine guard_ne_panic ?_
  refine Outcome.bind_ne_panic (Outcome.okOr_ne_panic _ _) fun total _ => ?_
  by_cases hlen : len ≠ 0
  · rw [if_pos hlen]
    refine Outcome.bind_ne_panic (addAddress_ne_panic _ _) fun _ _ => ?_
    by_cases hram : memory.validateRam dataAddress len (decide (flags &&& 2 ≠ 0)) = true
    · rw [if_pos hram]
      exact fun h => by cases h
    · rw [if_neg hram]
      exact fun h => by cases h
  · rw [if_neg hlen]
    exact fun h => by cases h

theorem readChainLoop_ne_panic (memory : GuestMemory) (queue : VirtQueue) (head : UInt16)
    (fuel : Nat) (index : UInt16) (gathered : Gathered) :
    readChainLoop memory queue head fuel index gathered ≠ .panic := by
  induction fuel generalizing index gathered with
  | zero => exact fun h => by cases h
  | succ fuel ih =>
    unfold readChainLoop
    refine Outcome.bind_ne_panic (readDescriptor_ne_panic _ _ _ _) fun read _ => ?_
    obtain ⟨gathered', _ | next⟩ := read
    · exact fun h => by cases h
    · exact ih next gathered'

theorem headChain_ne_panic (memory : GuestMemory) (queue : VirtQueue) :
    headChain memory queue ≠ .panic := by
  unfold headChain
  refine Outcome.bind_ne_panic (addAddress_ne_panic _ _) fun _ _ => ?_
  refine Outcome.bind_ne_panic (readU16_ne_panic _ _) fun head _ => ?_
  exact guard_ne_panic (readChainLoop_ne_panic _ _ _ _ _ _)

theorem validateQueue_ne_panic (queue : VirtQueue) : validateQueue queue ≠ .panic := by
  unfold validateQueue
  split
  · exact fun h => by cases h
  · split <;> exact fun h => by cases h

theorem availIndex_ne_panic (memory : GuestMemory) (queue : VirtQueue) :
    availIndex memory queue ≠ .panic :=
  Outcome.bind_ne_panic (addAddress_ne_panic _ _) fun _ _ => readU16_ne_panic _ _

/-! ## Calls -/

/-- Whatever its state, the call ends. -/
abbrev Calm {σ ε : Type} (x : Op σ ε α) : Prop := x.Gives fun _ => True

section Rules

variable {σ ε β : Type} {x : Op σ ε α}

theorem calm_lift {r : Outcome ε α} (h : r ≠ .panic) : Calm (Op.lift r : Op σ ε α) :=
  Op.gives_lift h fun _ _ => trivial

theorem calm_pure (a : α) : Calm (pure a : Op σ ε α) := fun _ => trivial

theorem calm_fail (e : ε) : Calm (Op.fail e : Op σ ε α) := fun _ => trivial

theorem calm_reading {r : σ → Outcome ε α} (h : ∀ s, r s ≠ .panic) : Calm (Op.reading r) :=
  fun s => calm_lift (h s) s

theorem Calm.bind {f : α → Op σ ε β} (hx : Calm x) (hf : ∀ a, Calm (f a)) : Calm (x >>= f) :=
  Op.Gives.bind hx fun a _ => hf a

theorem calm_ite {c : Prop} [Decidable c] {y : Op σ ε α} (hx : Calm x) (hy : Calm y) :
    Calm (if c then x else y) := by
  by_cases h : c
  · rw [if_pos h]
    exact hx
  · rw [if_neg h]
    exact hy

theorem calm_guard {c : Prop} [Decidable c] {e : ε} {f : Unit → Op σ ε β}
    (hf : ∀ u, Calm (f u)) : Calm (if c then Op.fail e >>= f else f ()) :=
  calm_ite ((calm_fail e).bind hf) (hf ())

end Rules

theorem nextChain_calm (index : UInt16) : Calm (nextChain index) := by
  intro b
  unfold nextChain
  cases hqueue : b.transport.queueChecked index with
  | err e => trivial
  | panic => exact absurd hqueue (Outcome.okOr_ne_panic _ _)
  | ok queue =>
    simp only []
    have hfound : (do
        if queue.ready = false then Outcome.err QueueError.notReady else .ok ()
        validateQueue queue
        let published ← availIndex b.memory queue
        if queue.lastAvail = published then return none
        let chain ← headChain b.memory queue
        return some chain : Outcome QueueError (Option DescriptorChain)) ≠ .panic := by
      refine guard_ne_panic ?_
      refine Outcome.bind_ne_panic (validateQueue_ne_panic queue) fun _ _ => ?_
      refine Outcome.bind_ne_panic (availIndex_ne_panic _ _) fun published _ => ?_
      split
      · exact fun h => by cases h
      · exact Outcome.bind_ne_panic (headChain_ne_panic _ _) fun _ _ h => by cases h
    revert hfound
    generalize (do
        if queue.ready = false then Outcome.err QueueError.notReady else .ok ()
        validateQueue queue
        let published ← availIndex b.memory queue
        if queue.lastAvail = published then return none
        let chain ← headChain b.memory queue
        return some chain : Outcome QueueError (Option DescriptorChain)) = found
    intro hfound
    rcases found with (_ | chain) | e | _
    · trivial
    · trivial
    · trivial
    · exact absurd rfl hfound

theorem store_calm (address : Nat) (bytes : List UInt8) : Calm (store address bytes) := by
  intro b
  unfold store
  cases b.memory.writeBytes address bytes <;> trivial

theorem scatter_calm (segments : List Segment) (skip : Nat) (bytes : List UInt8) :
    Calm (scatter segments skip bytes) := by
  induction segments generalizing skip bytes with
  | nil => exact calm_ite (calm_pure _) (calm_fail _)
  | cons segment rest ih =>
    unfold scatter
    refine calm_ite (ih _ _) ?_
    refine (calm_lift (addAddress_ne_panic _ _)).bind fun _ => ?_
    refine (store_calm _ _).bind fun _ => ?_
    exact calm_ite (calm_pure _) (ih _ _)

theorem writeChain_calm (chain : DescriptorChain) (offset : Nat) (bytes : List UInt8) :
    Calm (writeChain chain offset bytes) := by
  unfold writeChain
  exact calm_ite (calm_fail _) (calm_ite (calm_fail _) (scatter_calm _ _ _))

theorem completeChain_calm (index : UInt16) (chain : DescriptorChain) (written : Nat) :
    Calm (completeChain index chain written) := by
  unfold completeChain
  refine (calm_reading fun b => Outcome.okOr_ne_panic _ _).bind fun queue => ?_
  unfold publish
  refine (calm_lift (validateQueue_ne_panic queue)).bind fun _ => ?_
  refine calm_guard fun _ => ?_
  refine (calm_lift (addAddress_ne_panic _ _)).bind fun _ => ?_
  refine (calm_reading fun b => readU16_ne_panic _ _).bind fun usedIndex => ?_
  refine (calm_lift (addAddress_ne_panic _ _)).bind fun _ => ?_
  refine (store_calm _ _).bind fun _ => ?_
  refine (calm_lift (addAddress_ne_panic _ _)).bind fun _ => ?_
  refine (store_calm _ _).bind fun _ => ?_
  exact (store_calm _ _).bind fun _ _ => trivial

theorem onBus_calm {δ : Type} {x : BusOp α} (h : Calm x) : Calm (onBus x : DeviceOp δ α) := by
  intro s
  have hs := h s.bus
  unfold onBus
  rcases hcase : x s.bus with ⟨_ | _ | _, bus⟩ <;> rw [hcase] at hs
  · trivial
  · trivial
  · exact hs

end Virtio
end Riscbox
