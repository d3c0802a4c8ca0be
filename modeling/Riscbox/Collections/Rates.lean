import Mathlib.Order.GaloisConnection.Basic
import Mathlib.Algebra.Order.Ring.Nat
import Mathlib.Data.Nat.Init

/-!
# Counters of two rates

While one counter takes `source` steps, another takes `target` of them, rounded down.
Its inverse rounds up: the two are adjoint, so that the inverse is the first step at
which a value of the other counter is reached.
-/

namespace Riscbox
namespace Rates

def scaled (source target steps : Nat) : Nat := steps * target / source

def needed (source target value : Nat) : Nat := (value * source + (target - 1)) / target

variable {source target : Nat}

theorem needed_le_iff (hsource : 0 < source) (htarget : 0 < target) (value steps : Nat) :
    needed source target value ≤ steps ↔ value ≤ scaled source target steps := by
  have hup : needed source target value ≤ steps ↔ value * source ≤ steps * target := by
    unfold needed
    rw [← Nat.lt_succ_iff, Nat.div_lt_iff_lt_mul htarget, Nat.succ_mul]
    omega
  rw [hup, scaled, Nat.le_div_iff_mul_le hsource]

theorem needed_adjoint (hsource : 0 < source) (htarget : 0 < target) :
    GaloisConnection (needed source target) (scaled source target) :=
  needed_le_iff hsource htarget

theorem scaled_mono (hsource : 0 < source) (htarget : 0 < target) :
    Monotone (scaled source target) :=
  (needed_adjoint hsource htarget).monotone_u

theorem scaled_lt_iff (hsource : 0 < source) (htarget : 0 < target) (value steps : Nat) :
    scaled source target steps < value ↔ steps < needed source target value := by
  rw [← not_le, ← not_le, needed_le_iff hsource htarget]

end Rates
end Riscbox
