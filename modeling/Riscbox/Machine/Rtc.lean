import Mathlib.Data.BitVec

/-!
# The real-time clock

`GoldfishRtc` of `src/platform.rs`: a count of nanoseconds with an offset that the guest
sets, and an alarm that fires once.
-/

namespace Riscbox
namespace Platform

structure GoldfishRtc where
  timeOffset : BitVec 64
  latchedTimeHigh : BitVec 32
  alarm : BitVec 64
  alarmRunning : Bool
  irqPending : Bool
  irqEnabled : Bool
  deriving DecidableEq, Repr

namespace GoldfishRtc

def init : GoldfishRtc := ⟨0, 0, 0, false, false, false⟩

/-- The count wraps. -/
def count (r : GoldfishRtc) (ns : BitVec 64) : BitVec 64 := ns + r.timeOffset

/-- The alarm is due. -/
def Due (r : GoldfishRtc) (ns : BitVec 64) : Prop := r.alarmRunning = true ∧ r.alarm ≤ r.count ns

instance (r : GoldfishRtc) (ns : BitVec 64) : Decidable (r.Due ns) :=
  inferInstanceAs (Decidable (_ ∧ _))

def checkAlarm (r : GoldfishRtc) (ns : BitVec 64) : GoldfishRtc :=
  if r.Due ns then { r with alarmRunning := false, irqPending := true } else r

def irq (r : GoldfishRtc) : Bool := r.irqPending && r.irqEnabled

def read (r : GoldfishRtc) (offset : Nat) (ns : BitVec 64) : BitVec 32 × GoldfishRtc :=
  match offset with
  | 0 =>
    let time := r.count ns
    (time.setWidth 32, { r with latchedTimeHigh := (time >>> 32).setWidth 32 })
  | 4 => (r.latchedTimeHigh, r)
  | 8 => (r.alarm.setWidth 32, r)
  | 0x0c => ((r.alarm >>> 32).setWidth 32, r)
  | 0x10 => (if r.irqEnabled then 1 else 0, r)
  | 0x18 =>
    let r := r.checkAlarm ns
    (if r.alarmRunning then 1 else 0, r)
  | _ => (0, r)

def setLow (value : BitVec 64) (low : BitVec 32) : BitVec 64 :=
  (value &&& ~~~0xffffffff) ||| low.setWidth 64

def setHigh (value : BitVec 64) (high : BitVec 32) : BitVec 64 :=
  (value &&& 0xffffffff) ||| high.setWidth 64 <<< 32

/-- A half of the count is set through the offset. -/
def setTime (r : GoldfishRtc) (new ns : BitVec 64) : GoldfishRtc :=
  { r with timeOffset := r.timeOffset + (new - r.count ns) }

def write (r : GoldfishRtc) (offset : Nat) (value : BitVec 32) (ns : BitVec 64) : GoldfishRtc :=
  match offset with
  | 0 => r.setTime (setLow (r.count ns) value) ns
  | 4 => r.setTime (setHigh (r.count ns) value) ns
  | 8 => { r with alarm := setLow r.alarm value, alarmRunning := true }.checkAlarm ns
  | 0x0c => { r with alarm := setHigh r.alarm value }
  | 0x10 => { r with irqEnabled := value &&& 1 ≠ 0 }
  | 0x14 => { r with alarmRunning := false }
  | 0x1c => { r with irqPending := false }
  | _ => r

def refreshAlarm (r : GoldfishRtc) (ns : BitVec 64) : GoldfishRtc := r.checkAlarm ns

/-- The time to the alarm, rounded up to guest ticks. -/
def alarmRemainingGuestTicks (r : GoldfishRtc) (ns : BitVec 64) : Option Nat :=
  if r.alarmRunning = false then none
  else some ((r.alarm.toNat - (r.count ns).toNat + 99) / 100)

/-! ## The alarm over time -/

variable {r : GoldfishRtc} {ns : BitVec 64}

theorem checkAlarm_of_due (h : r.Due ns) :
    r.checkAlarm ns = { r with alarmRunning := false, irqPending := true } := if_pos h

theorem checkAlarm_of_not_due (h : ¬r.Due ns) : r.checkAlarm ns = r := if_neg h

theorem not_due_checkAlarm (r : GoldfishRtc) (ns : BitVec 64) : ¬(r.checkAlarm ns).Due ns := by
  by_cases hdue : r.Due ns
  · rw [checkAlarm_of_due hdue]
    exact fun h => Bool.false_ne_true h.1
  · rw [checkAlarm_of_not_due hdue]
    exact hdue

/-- Without wrap, the count grows with the clock. -/
theorem count_later {ticks later : Nat} (hle : ticks ≤ later) (hns : 100 * later < 2 ^ 64)
    (hcount : (r.count (BitVec.ofNat 64 (100 * ticks))).toNat + 100 * (later - ticks) < 2 ^ 64) :
    (r.count (BitVec.ofNat 64 (100 * later))).toNat =
      (r.count (BitVec.ofNat 64 (100 * ticks))).toNat + 100 * (later - ticks) := by
  have hsum : 100 * later = 100 * ticks + 100 * (later - ticks) := by omega
  have hadd : r.count (BitVec.ofNat 64 (100 * later)) =
      r.count (BitVec.ofNat 64 (100 * ticks)) + BitVec.ofNat 64 (100 * (later - ticks)) := by
    unfold count
    rw [hsum, BitVec.ofNat_add, BitVec.add_assoc, BitVec.add_assoc, BitVec.add_comm r.timeOffset]
  have hfits : 100 * (later - ticks) % 2 ^ 64 = 100 * (later - ticks) :=
    Nat.mod_eq_of_lt (by omega)
  rw [hadd, BitVec.toNat_add, BitVec.toNat_ofNat, hfits, Nat.mod_eq_of_lt hcount]

end GoldfishRtc
end Platform
end Riscbox
