import Riscbox.Runtime.CpuRun

/-!
# Quanta of guest time

`begin_quantum`, `run_quantum`, `finish_quantum` and `abort_quantum`.  The rates and the
budget come from floating point estimators: here they are arguments.
-/

namespace Riscbox
namespace Runtime

open Virtio

variable {ε π α : Type} [EntropySource ε] [NinePEndpoint π]

def u32Max : Nat := 2 ^ 32 - 1

def u64Max : Nat := 2 ^ 64 - 1

def u128Max : Nat := 2 ^ 128 - 1

/-- An unsigned sum or product that has to fit. -/
def fits (bound value : Nat) : Outcome (Failure RuntimeError) Nat :=
  if value ≤ bound then .ok value else .err .overflow

def quotient (a b : Nat) : Outcome (Failure RuntimeError) Nat :=
  if b = 0 then .err .overflow else .ok (a / b)

def difference (a b : Nat) : Outcome (Failure RuntimeError) Nat :=
  if b ≤ a then .ok (a - b) else .err .overflow

def guestTicksPerMillisecond : Nat := 10000

def nanosecondsPerGuestTick : Nat := 100

def maxWfiWakeDelayGuestTicks : Nat := 1000000

/-- `saturating_mul` of a host time in milliseconds. -/
def hostTicks (epochMs : Nat) : Nat := min (epochMs * guestTicksPerMillisecond) u64Max

namespace ActiveQuantum

/-- One integer mapping owns guest time for the complete quantum. -/
def guestTicks (quantum : ActiveQuantum) : Outcome (Failure RuntimeError) Nat := do
  let product ← fits u128Max (quantum.consumedCycles * quantum.guestTicksPerHostSecond)
  let offset ← quotient product quantum.cyclesPerHostSecond
  pure (min (quantum.startGuestTicks + min offset u64Max) u64Max)

/-- Ceiling inversion reaches the first cycle whose guest tick is due. -/
def cyclesUntilDeadline (remaining : Nat) (quantum : ActiveQuantum) :
    Outcome (Failure RuntimeError) Nat := do
  let ticks ← quantum.guestTicks
  let elapsed ← difference ticks quantum.startGuestTicks
  let offset ← fits u128Max (elapsed + remaining)
  let round ← difference quantum.guestTicksPerHostSecond 1
  let numerator := min (min (offset * quantum.cyclesPerHostSecond) u128Max + round) u128Max
  let target ← quotient numerator quantum.guestTicksPerHostSecond
  pure (min (max (target - quantum.consumedCycles) 1) u32Max)

/-- The cycle limit of the next CPU run. -/
def cycleLimit (timer : Option Nat) (quantum : ActiveQuantum) :
    Outcome (Failure RuntimeError) Nat := do
  let remaining ← difference quantum.budgetCycles quantum.consumedCycles
  match timer with
  | some ticks => do
    let cycles ← quantum.cyclesUntilDeadline ticks
    pure (min remaining cycles)
  | none => pure remaining

/-- A timer interval is recorded after the guest has set a timer. -/
def recordInterval (diagnostics : Bool) (timer : Option Nat) (quantum : ActiveQuantum) :
    ActiveQuantum :=
  match timer with
  | some ticks =>
    if quantum.recordTimerInterval = true ∧ diagnostics = true ∧
        quantum.timerIntervalsGuestTicks.length < 10000 then
      { quantum with
        timerIntervalsGuestTicks := quantum.timerIntervalsGuestTicks ++ [ticks]
        recordTimerInterval := false }
    else { quantum with recordTimerInterval := false }
  | none => { quantum with recordTimerInterval := false }

/-- The cycles and the counters after a CPU run. -/
def account (diagnostics : Bool) (turn : CpuTurn) (quantum : ActiveQuantum) :
    Outcome (Failure RuntimeError) ActiveQuantum := do
  let consumed ← fits u64Max (quantum.consumedCycles + turn.consumed.toNat)
  let runs ← if diagnostics then fits u32Max (quantum.cpuRuns + 1) else pure quantum.cpuRuns
  let stalled ← if turn.consumed = 0 then fits u32Max (quantum.stalledCpuRuns + 1) else pure 0
  pure { quantum with consumedCycles := consumed, cpuRuns := runs, stalledCpuRuns := stalled }

def stuck (turn : CpuTurn) (quantum : ActiveQuantum) : Bool :=
  quantum.stalledCpuRuns > 1 ∨ turn.reason = .cycleLimitReached ∧ turn.consumed = 0

def countReprogramming (diagnostics : Bool) (turn : CpuTurn) (quantum : ActiveQuantum) :
    Outcome (Failure RuntimeError) ActiveQuantum :=
  if turn.reason = .timerReprogrammed then do
    let exits ← if diagnostics then fits u32Max (quantum.timerReprogrammingExits + 1)
      else pure quantum.timerReprogrammingExits
    pure { quantum with recordTimerInterval := true, timerReprogrammingExits := exits }
  else .ok quantum

end ActiveQuantum

namespace BrowserRuntime

/-- Querying at the driver's current tick presents it to the machine. -/
def nextTimer (ticks : Nat) (answer : Option Nat) (runtime : BrowserRuntime ε π) :
    Option Nat × BrowserRuntime ε π :=
  match runtime.state with
  | .running running =>
    (answer,
      (runtime.restore false
        { running with
          machine := running.machine.presentGuestClocks ticks (min (ticks * 100) u64Max) }).record
        (.presented ticks))
  | _ => (none, runtime)

def beginQuantum (epochMs rate tickRate budget : Nat) (runtime : BrowserRuntime ε π) :
    QuantumStart × BrowserRuntime ε π :=
  if runtime.activeQuantum.isSome then (.alreadyActive, runtime)
  else if runtime.isRunning = false then (.vmInactive, runtime)
  else
    let carried := runtime.guestClockFloorTicks - hostTicks epochMs
    (.ready,
      { runtime with
        activeQuantum := some
          { startGuestTicks := max (hostTicks epochMs) runtime.guestClockFloorTicks
            cyclesPerHostSecond := rate
            guestTicksPerHostSecond := tickRate
            carriedGuestTicks := carried
            budgetCycles := budget
            consumedCycles := 0
            stalledCpuRuns := 0
            cpuRuns := 0
            timerReprogrammingExits := 0
            timerIntervalsGuestTicks := []
            recordTimerInterval := false
            wfiWakeDelayGuestTicks := 0
            terminal := none } })

end BrowserRuntime

open BrowserRuntime

/-- A running quantum: it is out of the runtime meanwhile. -/
structure Advance (ε π : Type) where
  browser : Browser ε π
  quantum : ActiveQuantum

abbrev AdvanceOp (ε π α : Type) : Type := Op (Advance ε π) (Failure RuntimeError) α

namespace Advance

def onBrowser (x : BrowserOp ε π α) : AdvanceOp ε π α := fun s =>
  let (ending, browser) := x s.browser
  (ending, { s with browser := browser })

def setQuantum (f : ActiveQuantum → ActiveQuantum) : AdvanceOp ε π Unit :=
  Op.modify fun s => { s with quantum := f s.quantum }

def update (f : ActiveQuantum → Outcome (Failure RuntimeError) ActiveQuantum) :
    AdvanceOp ε π Unit := fun s =>
  match f s.quantum with
  | .ok quantum => (.ok (), { s with quantum := quantum })
  | .err e => (.err e, s)
  | .panic => (.panic, s)

def askTimer (ticks : Nat) (answer : Option Nat) : AdvanceOp ε π (Option Nat) := fun s =>
  let (timer, runtime) := s.browser.runtime.nextTimer ticks answer
  (.ok timer, { s with browser := { s.browser with runtime := runtime } })

def diagnostics (s : Advance ε π) : Bool := s.browser.runtime.diagnostics

/-- A sleeping guest ends the quantum. -/
def sleep (turn : CpuTurn) : AdvanceOp ε π Unit :=
  if turn.reason = .wfiSleep then do
    let ticks ← Op.reading fun s => s.quantum.guestTicks
    let timer ← askTimer ticks turn.timerAfter
    Op.modify fun s =>
      if s.browser.runtime.isRunning = true ∧ turn.wfiSleeping = true then
        { s with
          quantum :=
            { s.quantum with
              wfiWakeDelayGuestTicks := min (timer.getD u64Max) maxWfiWakeDelayGuestTicks
              terminal := some .wfiSleep } }
      else s
  else pure ()

/-- How the loop goes on after a CPU run. -/
def finishTurn (turn : CpuTurn) : AdvanceOp ε π (Option QuantumOutcome) := fun s =>
  let quantum :=
    if s.quantum.budgetCycles ≤ s.quantum.consumedCycles ∧ s.quantum.terminal = none then
      { s.quantum with terminal := some .budgetReached }
    else s.quantum
  let next := { s with quantum := quantum }
  if s.browser.runtime.actions ≠ [] ∨ turn.reason = .hostServiceRequested then
    (.ok (some .hostServiceRequired), next)
  else (.ok quantum.terminal, next)

/-- What follows a CPU run that leaves the machine running. -/
def settleTurn (turn : CpuTurn) : AdvanceOp ε π (Option QuantumOutcome) := do
  let s ← Op.get
  update (ActiveQuantum.account s.diagnostics turn)
  let t ← Op.get
  if t.quantum.stuck turn then Op.fail (.error (.machine "CPU made no progress")) else do
    update (ActiveQuantum.countReprogramming s.diagnostics turn)
    sleep turn
    finishTurn turn

/-- One pass of the loop: the outcome of the call, if it ends here. -/
def turn (turn : CpuTurn) : AdvanceOp ε π (Option QuantumOutcome) := do
  let ticks ← Op.reading fun s => s.quantum.guestTicks
  let timer ← askTimer ticks turn.timer
  let _ ← Op.reading fun s => s.quantum.cycleLimit timer
  let s ← Op.get
  setQuantum (ActiveQuantum.recordInterval s.diagnostics timer)
  match ← onBrowser (runCpuOnce turn ticks (min (ticks * nanosecondsPerGuestTick) u64Max)) with
  | none => do
    setQuantum fun quantum => { quantum with terminal := some .vmInactive }
    pure (some .vmInactive)
  | some turn => settleTurn turn

/-- The call ends with an outcome, or the loop goes on. -/
def proceed (rest : AdvanceOp ε π QuantumOutcome) :
    Option QuantumOutcome → AdvanceOp ε π QuantumOutcome
  | some outcome => pure outcome
  | none => rest

/-- The loop over the CPU runs; while it wants more of them than are given, the call has
not returned. -/
def loop : List CpuTurn → AdvanceOp ε π QuantumOutcome
  | [] => fun s =>
    if s.quantum.consumedCycles < s.quantum.budgetCycles then (.err .busy, s)
    else (.ok .budgetReached,
      { s with quantum := { s.quantum with terminal := some .budgetReached } })
  | first :: rest => fun s =>
    if s.quantum.consumedCycles < s.quantum.budgetCycles then
      (turn first >>= proceed (loop rest)) s
    else (.ok .budgetReached,
      { s with quantum := { s.quantum with terminal := some .budgetReached } })

def run (turns : List CpuTurn) : AdvanceOp ε π QuantumOutcome := fun s =>
  match s.quantum.terminal with
  | some terminal => (.ok terminal, s)
  | none => loop turns s

end Advance

def runQuantum (turns : List CpuTurn) : BrowserOp ε π QuantumOutcome := fun s =>
  match s.runtime.activeQuantum with
  | none => (.err (.error (.machine "advance without an active quantum")), s)
  | some quantum =>
    let (ending, advance) := Advance.run turns
      { browser := { s with runtime := { s.runtime with activeQuantum := none } }
        quantum := quantum }
    (ending,
      { advance.browser with
        runtime := { advance.browser.runtime with activeQuantum := some advance.quantum } })

namespace BrowserRuntime

/-- The delay that a sleeping guest asks for. -/
def requestedDelay (epochMs floor : Nat) (quantum : ActiveQuantum) : Nat :=
  if quantum.terminal = some .wfiSleep then
    let due := min (floor + quantum.wfiWakeDelayGuestTicks) u64Max
    min ((due - hostTicks epochMs + (guestTicksPerMillisecond - 1)) / guestTicksPerMillisecond)
      u32Max
  else 0

/-- `elapsed` tells whether the measured duration is a finite number from zero on. -/
def finishQuantum (elapsed : Bool) (epochMs : Nat) : RuntimeOp ε π Nat := fun s =>
  if elapsed = false then (.err (.error (.invalidConfig "invalid quantum elapsed time")), s)
  else match s.activeQuantum with
    | none => (.err (.error (.machine "finish without an active quantum")), s)
    | some quantum =>
      if quantum.terminal = none then
        (.err (.error (.machine "unfinished browser quantum")), s)
      else
        match quantum.guestTicks with
        | .ok ticks =>
          (.ok (requestedDelay epochMs ticks quantum),
            { s with activeQuantum := none, guestClockFloorTicks := ticks })
        | .err e => (.err e, { s with activeQuantum := none })
        | .panic => (.panic, { s with activeQuantum := none })

def abortQuantum : RuntimeOp ε π Unit := fun s =>
  match s.activeQuantum with
  | none => (.ok (), s)
  | some quantum =>
    match quantum.guestTicks with
    | .ok ticks =>
      (.ok (),
        { s with
          activeQuantum := none, guestClockFloorTicks := max s.guestClockFloorTicks ticks })
    | .err e => (.err e, { s with activeQuantum := none })
    | .panic => (.panic, { s with activeQuantum := none })

/-- `valid` tells whether the target is a finite duration of at most 100 ms. -/
def configureQuantum (valid diagnostics : Bool) : RuntimeOp ε π Unit := fun s =>
  if valid = false ∨ s.activeQuantum.isSome = true then
    (.err (.error (.invalidConfig "invalid quantum duration")), s)
  else (.ok (), { s with diagnostics := diagnostics })

end BrowserRuntime

end Runtime
end Riscbox
