import Riscbox.Cpu.PhysMemory
import Riscbox.Cpu.Trap
import Riscbox.Program.Outcome

/-!
# The state of the core
-/

namespace Riscbox
namespace Cpu

variable {t : Target} {π : Type}

/-- The integer registers, of which the first reads as zero. -/
structure Registers where
  get : BitVec 5 → BitVec 64
  zero : get 0 = 0

namespace Registers

/-- `if (rd != 0) s->reg[rd] = val`. -/
def set (r : Registers) (rd : BitVec 5) (val : BitVec 64) : Registers where
  get := fun i => if i = rd ∧ rd ≠ 0 then val else r.get i
  zero := by
    by_cases h : rd = 0
    · rw [if_neg (fun hi => hi.2 h)]
      exact r.zero
    · rw [if_neg (fun hi => h hi.1.symm)]
      exact r.zero

def init : Registers := ⟨fun _ => 0, rfl⟩

@[simp] theorem get_zero (r : Registers) : r.get 0 = 0 := r.zero

end Registers

structure TLBEntry (t : Target) where
  vaddr : BitVec 64
  memAddend : Ptr t

abbrev Tlb (t : Target) := BitVec 8 → TLBEntry t

namespace Tlb

/-- `(addr >> PG_SHIFT) & (TLB_SIZE - 1)`. -/
def index (addr : BitVec 64) : BitVec 8 := (addr >>> pageShift).setWidth 8

/-- `addr & ~PG_MASK`. -/
def page (addr : BitVec 64) : BitVec 64 := addr &&& ~~~0xfff

def flush (tlb : Tlb t) : Tlb t := fun i => { tlb i with vaddr := -1 }

/-- An entry from the page of `addr` to the host page around `ptr`. -/
def fill (tlb : Tlb t) (addr : BitVec 64) (ptr : Ptr t) : Tlb t := fun i =>
  if i = index addr then ⟨page addr, ptr - toPtr addr⟩ else tlb i

end Tlb

/-- `struct RISCVCPUState`.  The program counter is the one of the instruction being
executed, which the source recovers from its code pointer.  `mieWritten` is a history
variable that no function reads: what the guest last wrote to `mie` and `sie`. -/
structure CpuState (t : Target) extends RiscvCpuState where
  reg : Registers
  fpReg : BitVec 5 → BitVec 64
  fflags : BitVec 32
  frm : BitVec 8
  cycleCounter : BitVec 64
  minstretCounter : BitVec 64
  minstretWrite : Bool
  powerDownFlag : Bool
  hostServiceRequested : Bool
  timerReprogrammed : Bool
  pendingException : BitVec 32
  pendingTval : BitVec 64
  mscratch : BitVec 64
  mhartid : BitVec 64
  misa : BitVec 32
  mie : BitVec 32
  mieWritten : BitVec 32
  mip : BitVec 32
  mcounteren : BitVec 32
  menvcfg : BitVec 64
  stimecmp : BitVec 64
  pmpcfg : Fin 16 → BitVec 8
  pmpaddr : Fin 16 → BitVec 64
  sscratch : BitVec 64
  senvcfg : BitVec 64
  satp : BitVec 64
  scounteren : BitVec 32
  loadRes : BitVec 64
  loadResSize : BitVec 8
  loadResValid : Bool
  tlbRead : Tlb t
  tlbWrite : Tlb t
  tlbCode : Tlb t

namespace CpuState

def tlbFlushAll (s : CpuState t) : CpuState t :=
  { s with tlbRead := s.tlbRead.flush, tlbWrite := s.tlbWrite.flush, tlbCode := s.tlbCode.flush }

/-- The registers of trap entry and return after a step that ends in `set_priv`,
which flushes the TLBs when the mode changes. -/
def setPriv (s : CpuState t) (r : RiscvCpuState) : CpuState t :=
  if s.priv = r.priv then { s with toRiscvCpuState := r }
  else { s.tlbFlushAll with toRiscvCpuState := r }

end CpuState

def mipSsip : BitVec 32 := 1 <<< 1
def mipMsip : BitVec 32 := 1 <<< 3
def mipStip : BitVec 32 := 1 <<< 5
def mipMtip : BitVec 32 := 1 <<< 7
def mipSeip : BitVec 32 := 1 <<< 9
def mipMeip : BitVec 32 := 1 <<< 11

def misaExtension (c : Char) : BitVec 32 := (1 : BitVec 32) <<< (c.toNat - 'A'.toNat)

/-- `riscv_cpu_init`. -/
def CpuState.init : CpuState t where
  pc := 0x1000
  priv := .M
  fs := 0
  mstatus := 0
  mtvec := 0
  mepc := 0
  mcause := 0
  mtval := 0
  medeleg := 0
  mideleg := 0
  stvec := 0
  sepc := 0
  scause := 0
  stval := 0
  reg := .init
  fpReg := fun _ => 0
  fflags := 0
  frm := 0
  cycleCounter := 0
  minstretCounter := 0
  minstretWrite := false
  powerDownFlag := false
  hostServiceRequested := false
  timerReprogrammed := false
  pendingException := 0
  pendingTval := 0
  mscratch := 0
  mhartid := 0
  misa := misaExtension 'S' ||| misaExtension 'U' ||| misaExtension 'I' |||
    misaExtension 'M' ||| misaExtension 'A' ||| misaExtension 'B' ||| misaExtension 'F' |||
    misaExtension 'D' ||| misaExtension 'C'
  mie := 0
  mieWritten := 0
  mip := 0
  mcounteren := 0
  menvcfg := 0
  stimecmp := -1
  pmpcfg := fun _ => 0
  pmpaddr := fun _ => 0
  sscratch := 0
  senvcfg := 0
  satp := 0
  scounteren := 0
  loadRes := 0
  loadResSize := 0
  loadResValid := false
  tlbRead := fun _ => ⟨-1, 0⟩
  tlbWrite := fun _ => ⟨-1, 0⟩
  tlbCode := fun _ => ⟨-1, 0⟩

/-- `struct TinyemuCore`, with the memory that its map points to and the platform
that its devices call. -/
structure TinyemuCore (t : Target) (π : Type) where
  cpu : CpuState t
  ram : Ram t
  guestTimerTicks : BitVec 64
  platform : π

/-- What a device write does: its status, the platform after it, and the bytes that
it wrote to guest RAM. -/
structure DeviceWrite (π : Type) where
  ok : Bool
  platform : π
  writes : List (BitVec 64 × List (BitVec 8))

/-- What surrounds the core: the memory map, the callbacks of the platform, and the
floating-point arithmetic.  `fpu` gets the instruction, the registers and the rounding
mode, and returns the registers and the new exception flags, or nothing where the
instruction is illegal. -/
structure Env (t : Target) (π : Type) where
  map : PhysMemoryMap t
  platformRead : π → HostMem t → BitVec 64 → Nat → Bool × BitVec 32 × π
  platformWrite : π → HostMem t → BitVec 64 → Nat → BitVec 32 → DeviceWrite π
  platformInterrupts : π → BitVec 32
  platformServiceRequested : π → Bool
  fpu : BitVec 32 → Registers → (BitVec 5 → BitVec 64) → BitVec 8 → BitVec 32 →
    Option (Registers × (BitVec 5 → BitVec 64) × BitVec 32 × Bool)

/-! ## Instructions as calls on the core -/

/-- The labels that an instruction may jump to. -/
inductive Stop
  | illegalInsn
  | exception
  | doneInterp
  deriving DecidableEq, Repr

/-- How an instruction goes on: after its own length, or at the `pc` it has set. -/
inductive Flow
  | next (length : BitVec 64)
  | jump
  deriving DecidableEq, Repr

abbrev Exec (t : Target) (π : Type) := Op (TinyemuCore t π) Stop

namespace Exec

/-- A value of the CPU. -/
def read {α : Type} (f : CpuState t → α) : Exec t π α := Op.reading fun c => .ok (f c.cpu)

def update (f : CpuState t → CpuState t) : Exec t π Unit :=
  Op.modify fun c => { c with cpu := f c.cpu }

def illegal {α : Type} : Exec t π α := Op.fail .illegalInsn

def getReg (r : BitVec 5) : Exec t π (BitVec 64) := read fun s => s.reg.get r

def setReg (rd : BitVec 5) (val : BitVec 64) : Exec t π Unit :=
  update fun s => { s with reg := s.reg.set rd val }

def setPending (cause : BitVec 32) (tval : BitVec 64) : Exec t π Unit :=
  update fun s => { s with pendingException := cause, pendingTval := tval }

/-- `mmu_exception`, with the exception that it takes. -/
def fault {α : Type} (cause : BitVec 32) (tval : BitVec 64) : Exec t π α := do
  setPending cause tval
  Op.fail .exception

/-- `RETIRE_INSN`. -/
def retire : Exec t π Unit := update fun s =>
  { s with
    minstretCounter := if s.minstretWrite then s.minstretCounter else s.minstretCounter + 1
    minstretWrite := false }

/-- The instruction retires and leaves the interpreter. -/
def done {α : Type} (length : BitVec 64) : Exec t π α := do
  retire
  update fun s => { s with pc := s.pc + length }
  Op.fail .doneInterp

end Exec

end Cpu
end Riscbox
