import Mathlib.Data.Fin.Basic
import Mathlib.Data.List.Basic

/-!
# The serial port

`Uart16550` of `src/platform.rs`: the registers, the receive FIFO and the bytes that the
guest has transmitted.
-/

namespace Riscbox
namespace Platform

structure Uart16550 where
  dll : UInt8
  dlm : UInt8
  ier : UInt8
  fcr : UInt8
  lcr : UInt8
  mcr : UInt8
  scratch : UInt8
  rx : Fin 16 → UInt8
  rxHead : Fin 16
  rxCount : Nat
  overrun : Bool
  transmitterPending : Bool
  transmitted : List UInt8

namespace Uart16550

local instance neZeroCapacity : @NeZero Nat Zero.ofOfNat0 16 := ⟨Nat.succ_ne_zero 15⟩

def init : Uart16550 where
  dll := 0
  dlm := 0
  ier := 0
  fcr := 0
  lcr := 0
  mcr := 0
  scratch := 0
  rx := fun _ => 0
  rxHead := ⟨0, Nat.zero_lt_succ 15⟩
  rxCount := 0
  overrun := false
  transmitterPending := false
  transmitted := []

def capacity (u : Uart16550) : Nat := if u.fcr &&& 1 ≠ 0 then 16 else 1

def trigger (u : Uart16550) : Nat :=
  if u.fcr &&& 1 = 0 then 1 else [1, 4, 8, 14].getD (u.fcr >>> 6).toNat 0

def pendingId (u : Uart16550) : UInt8 :=
  if u.ier &&& 4 ≠ 0 ∧ u.overrun then 6
  else if u.ier &&& 1 ≠ 0 ∧ u.rxCount ≥ u.trigger then 4
  else if u.ier &&& 1 ≠ 0 ∧ u.rxCount ≠ 0 then 0x0c
  else if u.ier &&& 2 ≠ 0 ∧ u.transmitterPending then 2
  else 1

def irq (u : Uart16550) : Bool := decide (u.pendingId ≠ 1)

/-- A byte of a register made of a flag. -/
def bit (flag : Bool) (shift : UInt8) : UInt8 := (if flag then 1 else 0) <<< shift

/-- The modem status; in the loop it shows the modem control. -/
def modemStatus (mcr : UInt8) : UInt8 :=
  if mcr &&& 0x10 = 0 then 0xb0
  else ((mcr &&& 2) <<< 3) ||| ((mcr &&& 1) <<< 5) ||| ((mcr &&& 4) <<< 4) |||
    ((mcr &&& 8) <<< 4)

def read (u : Uart16550) (offset : Nat) : UInt8 × Uart16550 :=
  if offset ≥ 8 then (0, u)
  else if u.lcr &&& 0x80 ≠ 0 ∧ offset ≤ 1 then (if offset = 0 then u.dll else u.dlm, u)
  else match offset with
    | 0 =>
      if u.rxCount = 0 then (0, u)
      else (u.rx u.rxHead, { u with rxHead := u.rxHead + 1, rxCount := u.rxCount - 1 })
    | 1 => (u.ier, u)
    | 2 =>
      let id := u.pendingId
      (id ||| (if u.fcr &&& 1 ≠ 0 then 0xc0 else 0),
        if id = 2 then { u with transmitterPending := false } else u)
    | 3 => (u.lcr, u)
    | 4 => (u.mcr, u)
    | 5 => (0x60 ||| bit (u.rxCount ≠ 0) 0 ||| bit u.overrun 1, { u with overrun := false })
    | 6 => (modemStatus u.mcr, u)
    | 7 => (u.scratch, u)
    | _ => (0, u)

/-- A byte that finds no room is lost. -/
def push (u : Uart16550) (value : UInt8) : Uart16550 :=
  if u.rxCount ≥ u.capacity then { u with overrun := true }
  else
    { u with
      rx := Function.update u.rx (u.rxHead + Fin.ofNat 16 u.rxCount) value
      rxCount := u.rxCount + 1 }

/-- A change of the FIFO mode clears both FIFOs. -/
def writeFcr (u : Uart16550) (value : UInt8) : Uart16550 :=
  let fcr := value &&& 0xc9
  let clear := if (u.fcr ^^^ fcr) &&& 1 ≠ 0 then value ||| 6 else value
  let u := { u with fcr := fcr }
  let u := if clear &&& 2 ≠ 0 then
      { u with rxHead := ⟨0, Nat.zero_lt_succ 15⟩, rxCount := 0, overrun := false }
    else u
  if clear &&& 4 ≠ 0 then { u with transmitterPending := true } else u

def writeIer (u : Uart16550) (value : UInt8) : Uart16550 :=
  let ier := value &&& 0x0f
  { u with
    ier := ier
    transmitterPending :=
      if u.ier &&& 2 = 0 ∧ ier &&& 2 ≠ 0 then true
      else if ier &&& 2 = 0 then false
      else u.transmitterPending }

def write (u : Uart16550) (offset : Nat) (value : UInt8) : Uart16550 :=
  if offset ≥ 8 then u
  else if u.lcr &&& 0x80 ≠ 0 ∧ offset ≤ 1 then
    if offset = 0 then { u with dll := value } else { u with dlm := value }
  else match offset with
    | 0 =>
      let u := if u.mcr &&& 0x10 ≠ 0 then u.push value
        else { u with transmitted := u.transmitted ++ [value] }
      { u with transmitterPending := true }
    | 1 => u.writeIer value
    | 2 => u.writeFcr value
    | 3 => { u with lcr := value }
    | 4 => { u with mcr := value &&& 0x1f }
    | 7 => { u with scratch := value }
    | _ => u

/-- In the loop no byte comes from outside. -/
def receiveSpace (u : Uart16550) : Nat :=
  if u.mcr &&& 0x10 ≠ 0 then 0 else u.capacity - u.rxCount

/-- As many bytes as there is room for are taken. -/
def receive (u : Uart16550) (bytes : List UInt8) : Nat × Uart16550 :=
  let count := min bytes.length u.receiveSpace
  (count, (bytes.take count).foldl push u)

def takeTransmitted (u : Uart16550) : List UInt8 × Uart16550 :=
  (u.transmitted, { u with transmitted := [] })

end Uart16550
end Platform
end Riscbox
