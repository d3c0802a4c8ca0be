import Riscbox.Runtime.Http

/-!
# Assembled machines

What `finish_loading` puts into the slots of a new machine.
-/

namespace Riscbox
namespace Runtime

open Virtio
open Storage (BlockStore HttpBlockStore)

variable {ε π α : Type}

/-- A store that no call has touched yet. -/
def Fresh : BlockStore → Prop
  | .array _ => True
  | .http store => ∃ parseValue manifestUrl source cacheLimit,
      HttpBlockStore.fromManifest parseValue manifestUrl source cacheLimit = .ok store

/-- The disks of a machine that has not run: each one has a slot of its own. -/
structure Plan (drives : List Nat) (m : Machine ε π) : Prop where
  nodup : drives.Nodup
  storage : ∀ slot ∈ drives, ∃ mmio, m.virtio[slot]? = some (.storageBlock mmio)
  fresh : ∀ (slot : Nat) (mmio : VirtioMmioDevice (BlockDevice BlockStore)),
    m.virtio[slot]? = some (.storageBlock mmio) →
      slot ∈ drives ∧ mmio.device.pending = none ∧ Fresh mmio.device.backend

/-- Devices have been added. -/
structure Grown (m m' : Machine ε π) : Prop where
  slots : m.virtio <+: m'.virtio
  disks_eq : m'.disks = m.disks

theorem Grown.refl (m : Machine ε π) : Grown m m := ⟨List.prefix_rfl, rfl⟩

theorem Grown.trans (m n o : Machine ε π) (h : Grown m n) (h' : Grown n o) : Grown m o :=
  ⟨h.slots.trans h'.slots, h'.disks_eq.trans h.disks_eq⟩

theorem Grown.slot {m m' : Machine ε π} (h : Grown m m') {slot : Nat} {d : VirtioSlot ε π}
    (hd : m.virtio[slot]? = some d) : m'.virtio[slot]? = some d := by
  obtain ⟨more, hmore⟩ := h.slots
  rw [← hmore, List.getElem?_append_left (List.getElem?_eq_some_iff.mp hd).1]
  exact hd

theorem mapErr_eq_ok {ε₁ ε₂ : Type} {f : ε₁ → ε₂} {x : Outcome ε₁ α} {a : α}
    (h : x.mapErr f = .ok a) : x = .ok a := by
  cases x with
  | ok b => exact congrArg Outcome.ok (Outcome.ok.inj h)
  | err e => simp at h
  | panic => simp [Outcome.mapErr] at h

theorem ofMachine_eq_ok {x : MachineOp ε π α} {m m' : Machine ε π} {a : α}
    (h : ofMachine x m = (.ok a, m')) : x m = (.ok a, m') := by
  unfold ofMachine Op.mapError at h
  rcases hx : x m with ⟨b | e | _, n⟩ <;> rw [hx] at h <;> dsimp only at h
  · obtain ⟨hb, hn⟩ := Prod.ext_iff.mp h
    rw [Outcome.ok.inj hb, show n = m' from hn]
  · simp at h
  · simp at h

theorem addVirtio_eq_ok {d : VirtioSlot ε π} {m m' : Machine ε π} {slot : Nat}
    (h : Machine.addVirtio d m = (.ok slot, m')) :
    slot = m.virtio.length ∧ m' = { m with virtio := m.virtio ++ [d] } := by
  unfold Machine.addVirtio at h
  split at h
  · simp at h
  · obtain ⟨hslot, hm⟩ := Prod.ext_iff.mp h
    exact ⟨(Outcome.ok.inj hslot).symm, hm.symm⟩

theorem getElem?_append_singleton {l : List α} {a b : α} {i : Nat}
    (h : (l ++ [a])[i]? = some b) : l[i]? = some b ∨ i = l.length ∧ b = a := by
  rcases Nat.lt_trichotomy i l.length with hlt | heq | hgt
  · rw [List.getElem?_append_left hlt] at h
    exact .inl h
  · subst heq
    rw [List.getElem?_concat_length] at h
    exact .inr ⟨rfl, (Option.some.inj h).symm⟩
  · rw [List.getElem?_eq_none (by rw [List.length_append, List.length_singleton]; omega)] at h
    simp at h

theorem grown_append (m : Machine ε π) (d : VirtioSlot ε π) :
    Grown m { m with virtio := m.virtio ++ [d] } := ⟨List.prefix_append _ _, rfl⟩

section Plans

variable {drives : List Nat} {m : Machine ε π}

theorem Plan.add_other (h : Plan drives m) {d : VirtioSlot ε π}
    (hd : ∀ mmio, d ≠ .storageBlock mmio) :
    Plan drives { m with virtio := m.virtio ++ [d] } := by
  refine ⟨h.nodup, fun slot hslot => ?_, fun slot mmio hmmio => ?_⟩
  · obtain ⟨mmio, hmmio⟩ := h.storage slot hslot
    exact ⟨mmio, (grown_append m d).slot hmmio⟩
  · rcases getElem?_append_singleton hmmio with hold | ⟨_, heq⟩
    · exact h.fresh slot mmio hold
    · exact absurd heq.symm (hd mmio)

theorem Plan.add_disk (h : Plan drives m) {mmio : VirtioMmioDevice (BlockDevice BlockStore)}
    (hpending : mmio.device.pending = none) (hfresh : Fresh mmio.device.backend) :
    Plan (drives ++ [m.virtio.length]) { m with virtio := m.virtio ++ [.storageBlock mmio] } := by
  have hnew : m.virtio.length ∉ drives := by
    intro hmem
    obtain ⟨old, hold⟩ := h.storage _ hmem
    rw [List.getElem?_eq_none (Nat.le_refl _)] at hold
    simp at hold
  refine ⟨?_, fun slot hslot => ?_, fun slot old hold => ?_⟩
  · rw [List.nodup_append]
    refine ⟨h.nodup, List.nodup_singleton _, fun a ha b hb => ?_⟩
    rw [List.mem_singleton.mp hb]
    exact fun heq => hnew (heq ▸ ha)
  · rcases List.mem_append.mp hslot with hold | hlast
    · obtain ⟨old, hmmio⟩ := h.storage slot hold
      exact ⟨old, (grown_append m _).slot hmmio⟩
    · rw [List.mem_singleton.mp hlast]
      exact ⟨mmio, List.getElem?_concat_length⟩
  · rcases getElem?_append_singleton hold with hold | ⟨hslot, heq⟩
    · obtain ⟨hmem, hrest⟩ := h.fresh slot old hold
      exact ⟨List.mem_append_left _ hmem, hrest⟩
    · obtain rfl : old = mmio := VirtioSlot.storageBlock.inj heq
      rw [hslot]
      exact ⟨List.mem_append_right _ (List.mem_singleton_self _), hpending, hfresh⟩

theorem Plan.of_virtio {m' : Machine ε π} (h : Plan drives m) (heq : m'.virtio = m.virtio) :
    Plan drives m' := by
  refine ⟨h.nodup, fun slot hslot => ?_, fun slot mmio hmmio => ?_⟩
  · rw [heq]
    exact h.storage slot hslot
  · rw [heq] at hmmio
    exact h.fresh slot mmio hmmio

end Plans

/-! ## The devices in turn -/

namespace BrowserRuntime

theorem openDrive_fresh {env : Assembly ε π} {drive : DriveConfig}
    {manifest : Option (String × List UInt8)} {store : BlockStore}
    (h : openDrive env drive manifest = .ok store) : Fresh store := by
  cases store with
  | array bytes => trivial
  | http store =>
      unfold openDrive at h
      cases drive with
      | array capacitySectors =>
          unfold BlockStore.newArray at h
          dsimp only at h
          split at h
          · simp at h
          · split at h
            · simp at h
            · split at h
              · simp at h
              · simp at h
      | http file =>
          dsimp only at h
          split at h
          · simp at h
          · split at h
            · simp at h
            · split at h
              · next hopened =>
                  rw [← BlockStore.http.inj (Outcome.ok.inj h)]
                  exact ⟨_, _, _, _, hopened⟩
              · simp at h
              · simp at h

/-- An added device keeps the plan, unless it is a disk. -/
theorem add_other {drives : List Nat} {m m' : Machine ε π} {d : VirtioSlot ε π} {slot : Nat}
    (hplan : Plan drives m) (hd : ∀ mmio, d ≠ .storageBlock mmio)
    (h : ofMachine (Machine.addVirtio d) m = (.ok slot, m')) :
    slot = m.virtio.length ∧ m' = { m with virtio := m.virtio ++ [d] } ∧ Plan drives m' ∧
      Grown m m' := by
  obtain ⟨hslot, rfl⟩ := addVirtio_eq_ok (ofMachine_eq_ok h)
  exact ⟨hslot, rfl, hplan.add_other hd, grown_append m d⟩

theorem addDrives_plan (env : Assembly ε π)
    (entries : List (DriveConfig × Option (String × List UInt8))) {index : Nat}
    {drives slots : List Nat} {m m' : Machine ε π} (hplan : Plan drives m)
    (h : addDrives env index entries m = (.ok slots, m')) :
    Plan (drives ++ slots) m' ∧ Grown m m' := by
  induction entries generalizing index drives slots m with
  | nil =>
      obtain ⟨hslots, rfl⟩ := Prod.ext_iff.mp h
      rw [← Outcome.ok.inj hslots]
      exact ⟨(List.append_nil drives).symm ▸ hplan, Grown.refl _⟩
  | cons entry rest ih =>
      obtain ⟨drive, manifest⟩ := entry
      obtain ⟨store, m₁, hstore, hadded⟩ := Op.bind_eq_ok h
      obtain ⟨slot, m₂, hslot, hnext⟩ := Op.bind_eq_ok hadded
      obtain ⟨more, m₃, hmore, hdone⟩ := Op.bind_eq_ok hnext
      have hopened : openDrive env drive manifest = .ok store :=
        mapErr_eq_ok (congrArg Prod.fst hstore)
      have hm₁ : m = m₁ := congrArg Prod.snd hstore
      have hm₃ : m₃ = m' := congrArg Prod.snd hdone
      have hslots : slot :: more = slots := Outcome.ok.inj (congrArg Prod.fst hdone)
      subst hm₁ hm₃
      obtain ⟨hlast, hm₂⟩ := addVirtio_eq_ok (ofMachine_eq_ok hslot)
      subst hlast hm₂
      obtain ⟨hrest, hgrown⟩ := ih (hplan.add_disk rfl (openDrive_fresh hopened)) hmore
      rw [List.append_assoc, List.singleton_append, hslots] at hrest
      exact ⟨hrest, (grown_append _ _).trans _ _ _ hgrown⟩

end BrowserRuntime

end Runtime
end Riscbox
