import Mathlib

/-!
# Climbing a parent function

A partial parent function is a forest on the nodes from which the root is reached.
`Climb par root x l` says that following `par` from `x` visits the nodes of `l` and
ends at the root.  A climb visits no node twice, so its length is bounded by any set
that contains it, and it survives every change of the parent function away from it.
-/

namespace Riscbox

variable {α : Type}

inductive Climb (par : α → Option α) (root : α) : α → List α → Prop
  | root : Climb par root root [root]
  | up {x p : α} {l : List α} : x ≠ root → par x = some p → Climb par root p l →
      Climb par root x (x :: l)

/-- The root is reached from `x`. -/
def Climbs (par : α → Option α) (root x : α) : Prop := ∃ l, Climb par root x l

namespace Climb

variable {par par' : α → Option α} {root x y : α} {l l' : List α}

theorem mem_self (h : Climb par root x l) : x ∈ l := by
  cases h with
  | root => exact List.mem_singleton.mpr rfl
  | up _ _ _ => exact List.mem_cons_self

theorem unique (h : Climb par root x l) : ∀ {l' : List α}, Climb par root x l' → l = l' := by
  induction h with
  | root =>
    intro l' h'
    cases h' with
    | root => rfl
    | up hne _ _ => exact absurd rfl hne
  | up hne hp _ ih =>
    intro l' h'
    cases h' with
    | root => exact absurd rfl hne
    | up _ hp' h' =>
      rw [hp] at hp'
      cases hp'
      rw [ih h']

/-- A visited node starts a climb of its own, which is no longer. -/
theorem of_mem (h : Climb par root x l) (hy : y ∈ l) :
    ∃ l', Climb par root y l' ∧ l'.length ≤ l.length := by
  induction h with
  | root =>
    rw [List.mem_singleton] at hy
    subst hy
    exact ⟨_, .root, Nat.le_refl _⟩
  | up hne hp hl ih =>
    rcases List.mem_cons.mp hy with rfl | hy
    · exact ⟨_, .up hne hp hl, Nat.le_refl _⟩
    · obtain ⟨l', hl', hle⟩ := ih hy
      exact ⟨l', hl', Nat.le_succ_of_le hle⟩

theorem nodup (h : Climb par root x l) : l.Nodup := by
  induction h with
  | root => exact List.nodup_singleton _
  | up hne hp hl ih =>
    refine List.nodup_cons.mpr ⟨?_, ih⟩
    intro hmem
    obtain ⟨l', hl', hle⟩ := hl.of_mem hmem
    have heq := (Climb.up hne hp hl).unique hl'
    rw [← heq, List.length_cons] at hle
    omega

/-- Every node on a climb is the start, or is the parent of a node on it. -/
theorem mem_cases (h : Climb par root x l) (hy : y ∈ l) :
    y = x ∨ ∃ z, z ∈ l ∧ par z = some y := by
  induction h with
  | root => exact Or.inl (List.mem_singleton.mp hy)
  | @up x p l hne hp hl ih =>
    rcases List.mem_cons.mp hy with rfl | hy
    · exact Or.inl rfl
    · rcases ih hy with rfl | ⟨z, hz, hzy⟩
      · exact Or.inr ⟨x, List.mem_cons_self, hp⟩
      · exact Or.inr ⟨z, List.mem_cons_of_mem _ hz, hzy⟩

/-- A climb is the same under a function that agrees on its nodes. -/
theorem congr (h : Climb par root x l) (heq : ∀ y ∈ l, y ≠ root → par' y = par y) :
    Climb par' root x l := by
  induction h with
  | root => exact .root
  | @up x p l hne hp _ ih =>
    refine .up hne ?_ (ih fun y hy => heq y (List.mem_cons_of_mem _ hy))
    rw [heq x List.mem_cons_self hne, hp]

theorem par_ne_self (h : Climb par root x l) (hx : x ≠ root) : par x ≠ some x := by
  intro he
  cases h with
  | root => exact hx rfl
  | @up _ p l _ hp hl =>
    rw [he] at hp
    cases hp
    have hlen := congrArg List.length ((Climb.up hx he hl).unique hl)
    rw [List.length_cons] at hlen
    omega

end Climb

namespace Climbs

variable {par par' : α → Option α} {root x y q : α}

theorem base : Climbs par root root := ⟨_, .root⟩

theorem up {p : α} (hne : x ≠ root) (hp : par x = some p) (h : Climbs par root p) :
    Climbs par root x := by
  obtain ⟨l, hl⟩ := h
  exact ⟨_, .up hne hp hl⟩

theorem congr (h : Climbs par root x) (heq : ∀ y, y ≠ root → par' y = par y) :
    Climbs par' root x := by
  obtain ⟨l, hl⟩ := h
  exact ⟨l, hl.congr fun y _ => heq y⟩

/-- Hanging `x` below a node whose climb avoids `x` keeps every climb. -/
theorem reparent (hx : par' x = some q) (heq : ∀ y, y ≠ x → y ≠ root → par' y = par y)
    {lq : List α} (hq : Climb par root q lq) (hxq : x ∉ lq) (hxr : x ≠ root)
    (hy : Climbs par root y) : Climbs par' root y := by
  have hq' : Climbs par' root q :=
    ⟨lq, hq.congr fun z hz hzr => heq z (fun he => hxq (he ▸ hz)) hzr⟩
  obtain ⟨l, hl⟩ := hy
  induction hl with
  | root => exact Climbs.base
  | @up y p l hne hp _ ih =>
    by_cases hyx : y = x
    · subst hyx
      exact Climbs.up hxr hx hq'
    · exact Climbs.up hne (by rw [heq y hyx hne, hp]) ih

/-- Cutting off a node that is nobody's parent keeps the climbs of the others. -/
theorem cut (heq : ∀ y, y ≠ x → y ≠ root → par' y = par y) (hleaf : ∀ z, par z ≠ some x)
    (hyx : y ≠ x) (hy : Climbs par root y) : Climbs par' root y := by
  obtain ⟨l, hl⟩ := hy
  refine ⟨l, hl.congr fun z hz hzr => heq z ?_ hzr⟩
  intro he
  subst he
  rcases hl.mem_cases hz with rfl | ⟨w, _, hw⟩
  · exact hyx rfl
  · exact hleaf w hw

end Climbs

end Riscbox
