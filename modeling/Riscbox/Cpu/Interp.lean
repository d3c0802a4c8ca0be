import Riscbox.Cpu.Compressed

/-!
# The interpreter loop and the calls of the host
-/

namespace Riscbox
namespace Cpu

variable {t : Target} {π : Type}

namespace CpuState

/-- `raise_exception2`. -/
def raiseException2 (s : CpuState t) (cause : BitVec 32) (tval : BitVec 64) : CpuState t :=
  s.setPriv (Cpu.raiseException2 s.toRiscvCpuState cause tval)

/-- The interrupts of `mask` that their destinations take. -/
def enabledInts (s : CpuState t) : BitVec 32 :=
  match s.priv with
  | .M => if s.mstatus &&& mstatusMie ≠ 0 then ~~~s.mideleg else 0
  | .S => if s.mstatus &&& mstatusSie ≠ 0 then ~~~s.mideleg ||| s.mideleg else ~~~s.mideleg
  | .U | .H => BitVec.allOnes 32

def getPendingIrqMask (s : CpuState t) : BitVec 32 :=
  let pendingInts := s.mip &&& s.mie
  if pendingInts = 0 then 0 else pendingInts &&& s.enabledInts

/-- `ctz32` of a mask that is not zero. -/
def irqNum (mask : BitVec 32) : Nat := ((List.range 32).find? fun i => mask.getLsbD i).getD 32

/-- `raise_interrupt`; nothing where no interrupt is taken. -/
def raiseInterrupt (s : CpuState t) : Option (CpuState t) :=
  let mask := s.getPendingIrqMask
  if mask = 0 then none
  else some (s.raiseException2 (BitVec.ofNat 32 (irqNum mask) ||| causeInterrupt) 0)

/-- `n_cycles--`, as `mcycle` sees it. -/
def tick (s : CpuState t) : CpuState t := { s with cycleCounter := s.cycleCounter + 1 }

/-- The end of an instruction that has stored an exception. -/
def takeException (s : CpuState t) : CpuState t :=
  s.tick.raiseException2 s.pendingException s.pendingTval

/-- `RETIRE_INSN`. -/
def retired (s : CpuState t) : CpuState t :=
  { s with
    minstretCounter := if s.minstretWrite then s.minstretCounter else s.minstretCounter + 1
    minstretWrite := false }

end CpuState

namespace TinyemuCore

def onCpu (f : CpuState t → CpuState t) (c : TinyemuCore t π) : TinyemuCore t π :=
  { c with cpu := f c.cpu }

/-- The trap value of an illegal instruction. -/
def illegalTval (insn : BitVec 32) : BitVec 64 :=
  if insn &&& 3 = 3 then insn.setWidth 64 else (insn &&& 0xffff).setWidth 64

/-- Where an instruction leaves the core. -/
def afterInsn (insn : BitVec 32) : Outcome Stop Flow × TinyemuCore t π → TinyemuCore t π
  | (.ok (.next length), c) => c.onCpu fun s => { s.retired with pc := s.pc + length }
  | (.ok .jump, c) => c.onCpu CpuState.retired
  | (.err .doneInterp, c) => c
  | (.err .illegalInsn, c) => c.onCpu fun s =>
    { s with
      pendingException := causeIllegalInstruction
      pendingTval := illegalTval insn }.takeException
  | (.err .exception, c) => c.onCpu CpuState.takeException
  | (.panic, c) => c

/-- One pass through the loop for the instruction word `insn`. -/
def runInsn (env : Env t π) (insn : BitVec 32) (c : TinyemuCore t π) : TinyemuCore t π :=
  afterInsn insn (Exec.exec env insn (c.onCpu CpuState.tick))

/-- The fetch at a block boundary, with the exception that it may take. -/
def runFetch (env : Env t π) (c : TinyemuCore t π) : TinyemuCore t π :=
  match Exec.fetchInsn env c with
  | (.ok _, c) => c
  | (.err _, c) => c.onCpu CpuState.takeException
  | (.panic, c) => c

/-- The start of `riscv_cpu_interp_x`. -/
def enterInterp (c : TinyemuCore t π) : TinyemuCore t π :=
  c.onCpu fun s => { s with pendingException := -1, pendingTval := 0 }

/-! ## Calls of the host -/

/-- `tinyemu_core_set_guest_timer_ticks`. -/
def setGuestTimerTicks (ticks : BitVec 64) (c : TinyemuCore t π) : TinyemuCore t π :=
  { c with guestTimerTicks := ticks, cpu := c.cpu.updateTime ticks }

/-- `tinyemu_core_reset_cpu`. -/
def resetCpu (c : TinyemuCore t π) : TinyemuCore t π := { c with cpu := .init }

/-- `riscv_cpu_flush_tlb_write_range_ram`. -/
def flushTlbWriteRangeRam (s : CpuState t) (ramPtr : Ptr t) (ramSize : Nat) : CpuState t :=
  let ramEnd := ramPtr + BitVec.ofNat _ ramSize
  { s with tlbWrite := fun i =>
      let e := s.tlbWrite i
      let ptr := e.memAddend + toPtr e.vaddr
      if e.vaddr ≠ -1 ∧ ramPtr ≤ ptr ∧ ptr < ramEnd then { e with vaddr := -1 } else e }

/-- `default_get_dirty_bits`, which the snapshot of range `i` is. -/
def getDirtyBits (i : Nat) (pr : PhysMemoryRange t) (c : TinyemuCore t π) :
    List (BitVec 32) × TinyemuCore t π :=
  let words := (c.ram.dirty i).current
  let c :=
    if words.any (· ≠ 0) ∧ pr.size ≠ 0 then
      c.onCpu fun s => flushTlbWriteRangeRam s pr.physMem pr.orgSize.toNat
    else c
  (words, { c with ram :=
    { c.ram with
      dirty := fun j => if j = i then (c.ram.dirty j).swap pr.dirtyWords else c.ram.dirty j
      stored := fun q => c.ram.stored q && !decide (pr.Holds q) } })

/-- `tinyemu_core_take_dirty`; nothing where the call fails. -/
def takeDirty (env : Env t π) (region : Nat) (count : Nat) (c : TinyemuCore t π) :
    Option (List (BitVec 32)) × TinyemuCore t π :=
  match env.map.ranges[region]? with
  | none => (none, c)
  | some pr =>
    if !pr.isRam ∨ !pr.isTracked ∨ count ≠ pr.dirtyWords then (none, c)
    else
      let (words, c) := c.getDirtyBits region pr
      (some words, c)

/-- `phys_mem_reset_dirty_bit`. -/
def resetDirtyBit (i : Nat) (pr : PhysMemoryRange t) (offset : BitVec 64)
    (c : TinyemuCore t π) : TinyemuCore t π :=
  let page := offset.toNat / 4096
  if pr.isTracked ∧ isDirtyPage page (c.ram.dirty i).current then
    let ptr := pr.physMem + toPtr (offset &&& ~~~0xfff)
    { cpu := flushTlbWriteRangeRam c.cpu ptr 4096
      ram :=
        { c.ram with
          dirty := fun j => if j = i then (c.ram.dirty j).modify (resetPage page) else c.ram.dirty j
          stored := fun q => c.ram.stored q && !decide ((q - ptr).toNat < 4096) }
      guestTimerTicks := c.guestTimerTicks
      platform := c.platform }
  else c

/-- `tinyemu_core_clear_dirty`; whether the call succeeds. -/
def clearDirty (env : Env t π) (region : Nat) (offset : BitVec 64) (c : TinyemuCore t π) :
    Bool × TinyemuCore t π :=
  match env.map.ranges[region]? with
  | none => (false, c)
  | some pr =>
    if !pr.isRam ∨ offset ≥ pr.orgSize then (false, c)
    else (true, c.resetDirtyBit region pr offset)

/-- The start of `tinyemu_core_run_cpu`. -/
def startRun (c : TinyemuCore t π) : TinyemuCore t π :=
  c.onCpu fun s => { s with hostServiceRequested := false, timerReprogrammed := false }

/-- Why `tinyemu_core_run_cpu` returns. -/
inductive RunReason
  | limitReached
  | wfiSleep
  | hostServiceRequested
  | timerReprogrammed
  deriving DecidableEq, Repr

def runReason (c : TinyemuCore t π) : RunReason :=
  if c.cpu.timerReprogrammed then .timerReprogrammed
  else if c.cpu.hostServiceRequested then .hostServiceRequested
  else if c.cpu.powerDownFlag then .wfiSleep
  else .limitReached

/-! ## Runs -/

/-- What may happen to the core next. -/
inductive Event (π : Type)
  | enterInterp
  | interrupt
  | fetch
  | insn (insn : BitVec 32)
  | setGuestTimerTicks (ticks : BitVec 64)
  | setInterrupts (mask : BitVec 32)
  | resetCpu
  | takeDirty (region count : Nat)
  | clearDirty (region : Nat) (offset : BitVec 64)
  | ramRange (address : BitVec 64) (len : Nat)
  | writeRam (address : BitVec 64) (bytes : List (BitVec 8))
  | startRun
  | platform (platform : π)

/-- The interpreter runs only while the hart is not powered down. -/
def Event.isCpu : Event π → Bool
  | .enterInterp | .interrupt | .fetch | .insn _ => true
  | _ => false

/-- The core after an event.  The instruction words of a block are those that its code
pointer meets, so that any word may come next. -/
def next (env : Env t π) (c : TinyemuCore t π) : Event π → Option (TinyemuCore t π)
  | .enterInterp => some c.enterInterp
  | .interrupt => c.cpu.raiseInterrupt.map fun s => { c with cpu := s.tick }
  | .fetch => if c.cpu.getPendingIrqMask = 0 then some (c.runFetch env) else none
  | .insn insn => some (c.runInsn env insn)
  | .setGuestTimerTicks ticks => some (c.setGuestTimerTicks ticks)
  | .setInterrupts mask => some (c.setInterrupts mask)
  | .resetCpu => some c.resetCpu
  | .takeDirty region count => some (c.takeDirty env region count).2
  | .clearDirty region offset => some (c.clearDirty env region offset).2
  | .ramRange address len => (c.ramRangeForWrite env address len).map Prod.snd
  | .writeRam address bytes => some (c.writeRam env address bytes)
  | .startRun => some c.startRun
  | .platform platform => some { c with platform := platform }

/-- One event. -/
def Step (env : Env t π) (c : TinyemuCore t π) (e : Event π) (c' : TinyemuCore t π) : Prop :=
  (e.isCpu → c.cpu.powerDownFlag = false) ∧ c.next env e = some c'

/-- The core as `tinyemu_core_create` and the registration of its memory leave it: a
CPU after reset, RAM of any contents, clear bitmaps. -/
structure Initial (env : Env t π) (c : TinyemuCore t π) : Prop where
  cpu : c.cpu = .init
  ticks : c.guestTimerTicks = 0
  dirty : ∀ (i : Nat) (pr : PhysMemoryRange t), env.map.ranges[i]? = some pr → ∀ index,
    (c.ram.dirty i).tab index = List.replicate pr.dirtyWords 0
  changed : c.ram.changed = fun _ => false
  stored : c.ram.stored = fun _ => false

/-- A state reached by events that each meet `allowed`. -/
inductive Reached (env : Env t π) (allowed : TinyemuCore t π → Event π → Prop) :
    TinyemuCore t π → Prop
  | init {c : TinyemuCore t π} : Initial env c → Reached env allowed c
  | step {c c' : TinyemuCore t π} {e : Event π} :
      Reached env allowed c → allowed c e → Step env c e c' → Reached env allowed c'

end TinyemuCore

end Cpu
end Riscbox
