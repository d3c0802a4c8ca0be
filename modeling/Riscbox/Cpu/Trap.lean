import Mathlib.Data.BitVec
import Riscbox.Collections.Bits

/-!
# Trap entry and return
-/

namespace Riscbox
namespace Cpu

inductive Privilege
  | U
  | S
  | H
  | M
  deriving DecidableEq, Repr

namespace Privilege

/-- The `PRV_x` numbers. -/
def code : Privilege → Nat
  | U => 0
  | S => 1
  | H => 2
  | M => 3

/-- The mode that the low two bits of a previous-privilege field name. -/
def ofField (field : BitVec 64) : Privilege :=
  if field = 0 then U else if field = 1 then S else if field = 2 then H else M

end Privilege

/-- The registers that trap entry, trap return and accesses to the status
registers use. -/
structure RiscvCpuState where
  pc : BitVec 64
  priv : Privilege
  fs : BitVec 2
  mstatus : BitVec 64
  mtvec : BitVec 64
  mepc : BitVec 64
  mcause : BitVec 64
  mtval : BitVec 64
  medeleg : BitVec 32
  mideleg : BitVec 32
  stvec : BitVec 64
  sepc : BitVec 64
  scause : BitVec 64
  stval : BitVec 64
  deriving DecidableEq, Repr

/-! ## The status register -/

def mstatusSpieShift : Nat := 5
def mstatusMpieShift : Nat := 7
def mstatusSppShift : Nat := 8
def mstatusMppShift : Nat := 11
def mstatusFsShift : Nat := 13
def mstatusUxlShift : Nat := 32
def mstatusSxlShift : Nat := 34

def mstatusUie : BitVec 64 := (1 : BitVec 64) <<< 0
def mstatusSie : BitVec 64 := (1 : BitVec 64) <<< 1
def mstatusMie : BitVec 64 := (1 : BitVec 64) <<< 3
def mstatusUpie : BitVec 64 := (1 : BitVec 64) <<< 4
def mstatusSpie : BitVec 64 := (1 : BitVec 64) <<< mstatusSpieShift
def mstatusMpie : BitVec 64 := (1 : BitVec 64) <<< mstatusMpieShift
def mstatusSpp : BitVec 64 := (1 : BitVec 64) <<< mstatusSppShift
def mstatusMpp : BitVec 64 := (3 : BitVec 64) <<< mstatusMppShift
def mstatusFs : BitVec 64 := (3 : BitVec 64) <<< mstatusFsShift
def mstatusXs : BitVec 64 := (3 : BitVec 64) <<< 15
def mstatusMprv : BitVec 64 := (1 : BitVec 64) <<< 17
def mstatusSum : BitVec 64 := (1 : BitVec 64) <<< 18
def mstatusMxr : BitVec 64 := (1 : BitVec 64) <<< 19
def mstatusTvm : BitVec 64 := (1 : BitVec 64) <<< 20
def mstatusTw : BitVec 64 := (1 : BitVec 64) <<< 21
def mstatusTsr : BitVec 64 := (1 : BitVec 64) <<< 22
def mstatusUxl : BitVec 64 := (3 : BitVec 64) <<< mstatusUxlShift

def sstatusMask : BitVec 64 :=
  mstatusUie ||| mstatusSie ||| mstatusUpie ||| mstatusSpie ||| mstatusSpp |||
    mstatusFs ||| mstatusXs ||| mstatusSum ||| mstatusMxr ||| mstatusUxl

def mstatusMask : BitVec 64 :=
  mstatusUie ||| mstatusSie ||| mstatusMie ||| mstatusUpie ||| mstatusSpie |||
    mstatusMpie ||| mstatusSpp ||| mstatusMpp ||| mstatusFs ||| mstatusMprv |||
    mstatusSum ||| mstatusMxr ||| mstatusTvm ||| mstatusTw ||| mstatusTsr

/-- The status word as a read of `mstatus` or `sstatus` delivers it. -/
def getMstatus (s : RiscvCpuState) (mask : BitVec 64) : BitVec 64 :=
  let val := (s.mstatus ||| s.fs.zeroExtend 64 <<< mstatusFsShift |||
    (2 : BitVec 64) <<< mstatusUxlShift ||| (2 : BitVec 64) <<< mstatusSxlShift) &&& mask
  if val &&& mstatusFs = mstatusFs ∨ val &&& mstatusXs = mstatusXs then
    val ||| (1 : BitVec 64) <<< 63
  else val

def setMstatus (s : RiscvCpuState) (val : BitVec 64) : RiscvCpuState :=
  let mask := mstatusMask &&& ~~~mstatusFs
  { s with
    fs := ((val >>> mstatusFsShift) &&& 3).truncate 2
    mstatus := (s.mstatus &&& ~~~mask) ||| (val &&& mask) }

/-- A write to `sstatus`, the only view of the status word below machine
mode. -/
def writeSstatus (s : RiscvCpuState) (val : BitVec 64) : RiscvCpuState :=
  setMstatus s ((s.mstatus &&& ~~~sstatusMask) ||| (val &&& sstatusMask))

/-! ## Entry and return -/

def causeInterrupt : BitVec 32 := (1 : BitVec 32) <<< 31

/-- Whether the trap goes to supervisor mode.  A shift past the width of the
delegation register, undefined in C, reads as not delegated. -/
def delegated (s : RiscvCpuState) (cause : BitVec 32) : Bool :=
  if s.priv.code ≤ Privilege.S.code then
    if cause &&& causeInterrupt ≠ 0 then
      (s.mideleg >>> (cause &&& 63)) &&& 1 ≠ 0
    else (s.medeleg >>> cause) &&& 1 ≠ 0
  else false

def causeCode (cause : BitVec 32) : BitVec 64 :=
  let causel := (cause &&& 0x7fffffff).zeroExtend 64
  if cause &&& causeInterrupt ≠ 0 then causel ||| (1 : BitVec 64) <<< 63 else causel

def raiseException2 (s : RiscvCpuState) (cause : BitVec 32) (tval : BitVec 64) :
    RiscvCpuState :=
  if delegated s cause then
    let saved := (s.mstatus &&& ~~~mstatusSpie) |||
      (((s.mstatus >>> s.priv.code) &&& 1) <<< mstatusSpieShift)
    let moved := (saved &&& ~~~mstatusSpp) |||
      (BitVec.ofNat 64 s.priv.code <<< mstatusSppShift)
    { s with
      scause := causeCode cause
      sepc := s.pc
      stval := tval
      mstatus := moved &&& ~~~mstatusSie
      priv := .S
      pc := s.stvec }
  else
    let saved := (s.mstatus &&& ~~~mstatusMpie) |||
      (((s.mstatus >>> s.priv.code) &&& 1) <<< mstatusMpieShift)
    let moved := (saved &&& ~~~mstatusMpp) |||
      (BitVec.ofNat 64 s.priv.code <<< mstatusMppShift)
    { s with
      mcause := causeCode cause
      mepc := s.pc
      mtval := tval
      mstatus := moved &&& ~~~mstatusMie
      priv := .M
      pc := s.mtvec }

def handleSret (s : RiscvCpuState) : RiscvCpuState :=
  let spp := (s.mstatus >>> mstatusSppShift) &&& 1
  let spie := (s.mstatus >>> mstatusSpieShift) &&& 1
  let restored := (s.mstatus &&& ~~~mstatusSie) ||| (if spie ≠ 0 then mstatusSie else 0)
  { s with
    mstatus := ((restored ||| mstatusSpie) &&& ~~~mstatusSpp) &&& ~~~mstatusMprv
    priv := Privilege.ofField spp
    pc := s.sepc }

def handleMret (s : RiscvCpuState) : RiscvCpuState :=
  let mpp := (s.mstatus >>> mstatusMppShift) &&& 3
  let mpie := (s.mstatus >>> mstatusMpieShift) &&& 1
  let restored := (s.mstatus &&& ~~~mstatusMie) ||| (if mpie ≠ 0 then mstatusMie else 0)
  let cleared := (restored ||| mstatusMpie) &&& ~~~mstatusMpp
  { s with
    mstatus := if mpp < 3 then cleared &&& ~~~mstatusMprv else cleared
    priv := Privilege.ofField mpp
    pc := s.mepc }

/-! ## The bits that entry and return move -/

/-- The low bits of a status read are those of the stored word. -/
theorem getMstatus_bit (s : RiscvCpuState) (mask : BitVec 64) {i : Nat} (hi : i < 13) :
    (getMstatus s mask).getLsbD i = (s.mstatus.getLsbD i && mask.getLsbD i) := by
  have hfs := shiftLeft_bit (s.fs.zeroExtend 64) (show i < mstatusFsShift from hi)
  have huxl := shiftLeft_bit 2 (show i < mstatusUxlShift by unfold mstatusUxlShift; omega)
  have hsxl := shiftLeft_bit 2 (show i < mstatusSxlShift by unfold mstatusSxlShift; omega)
  have hsd := shiftLeft_bit 1 (show i < 63 by omega)
  simp only [getMstatus]
  split <;>
    simp only [BitVec.getLsbD_or, BitVec.getLsbD_and, hfs, huxl, hsxl, hsd, Bool.or_false]

/-- A write through `sstatus` never reaches the machine-mode enable bit. -/
theorem writeSstatus_mie (s : RiscvCpuState) (val : BitVec 64) :
    (writeSstatus s val).mstatus.getLsbD 3 = s.mstatus.getLsbD 3 := by
  simp [writeSstatus, setMstatus, sstatusMask, mstatusMask, mstatusUie, mstatusSie,
    mstatusMie, mstatusUpie, mstatusSpie, mstatusMpie, mstatusSpp, mstatusMpp, mstatusFs,
    mstatusXs, mstatusMprv, mstatusSum, mstatusMxr, mstatusTvm, mstatusTw, mstatusTsr,
    mstatusUxl, mstatusSpieShift, mstatusMpieShift, mstatusSppShift, mstatusMppShift,
    mstatusFsShift, mstatusUxlShift]

section Supervisor

variable {s : RiscvCpuState} {cause : BitVec 32}

theorem delegated_priv (h : delegated s cause = true) : s.priv = .U ∨ s.priv = .S := by
  unfold delegated at h
  cases hp : s.priv <;> simp_all [Privilege.code]

theorem raise_delegated (h : delegated s cause = true) (tval : BitVec 64) :
    (raiseException2 s cause tval).sepc = s.pc ∧
      (raiseException2 s cause tval).mstatus.getLsbD 5 =
        s.mstatus.getLsbD s.priv.code ∧
      (raiseException2 s cause tval).mstatus.getLsbD 8 = decide (s.priv = .S) ∧
      (raiseException2 s cause tval).mstatus.getLsbD 3 = s.mstatus.getLsbD 3 := by
  simp only [raiseException2, h, if_true]
  refine ⟨trivial, ?_, ?_, ?_⟩
  · simp [mstatusSpie, mstatusSpieShift, mstatusSpp, mstatusSppShift, mstatusSie]
  · rcases delegated_priv h with hp | hp <;>
      simp [hp, Privilege.code, mstatusSpie, mstatusSpieShift, mstatusSpp,
        mstatusSppShift, mstatusSie]
  · simp [mstatusSpie, mstatusSpieShift, mstatusSpp, mstatusSppShift, mstatusSie]

theorem handleSret_spec (t : RiscvCpuState) :
    (handleSret t).pc = t.sepc ∧
      (handleSret t).priv = (if t.mstatus.getLsbD 8 then .S else .U) ∧
      (handleSret t).mstatus.getLsbD 1 = t.mstatus.getLsbD 5 ∧
      (handleSret t).mstatus.getLsbD 3 = t.mstatus.getLsbD 3 := by
  simp only [handleSret, field_one, mstatusSppShift, mstatusSpieShift]
  refine ⟨trivial, ?_, ?_, ?_⟩
  · cases t.mstatus.getLsbD 8 <;> simp [Privilege.ofField]
  · cases t.mstatus.getLsbD 5 <;>
      simp [mstatusSie, mstatusSpie, mstatusSpieShift, mstatusSpp, mstatusSppShift,
        mstatusMprv]
  · cases t.mstatus.getLsbD 5 <;>
      simp [mstatusSie, mstatusSpie, mstatusSpieShift, mstatusSpp, mstatusSppShift,
        mstatusMprv]

end Supervisor

section Machine

variable {s : RiscvCpuState} {cause : BitVec 32}

theorem raise_undelegated (h : delegated s cause = false) (tval : BitVec 64) :
    (raiseException2 s cause tval).mepc = s.pc ∧
      (raiseException2 s cause tval).mstatus.getLsbD 7 =
        s.mstatus.getLsbD s.priv.code ∧
      (raiseException2 s cause tval).mstatus.getLsbD 11 = s.priv.code.testBit 0 ∧
      (raiseException2 s cause tval).mstatus.getLsbD 12 = s.priv.code.testBit 1 ∧
      (raiseException2 s cause tval).mstatus.getLsbD 1 = s.mstatus.getLsbD 1 := by
  simp only [raiseException2, h, Bool.false_eq_true, if_false]
  refine ⟨trivial, ?_, ?_, ?_, ?_⟩
  · simp [mstatusMpie, mstatusMpieShift, mstatusMpp, mstatusMppShift, mstatusMie]
  · cases s.priv <;>
      simp [Privilege.code, mstatusMpie, mstatusMpieShift, mstatusMpp, mstatusMppShift,
        mstatusMie]
  · cases s.priv <;>
      simp [Privilege.code, mstatusMpie, mstatusMpieShift, mstatusMpp, mstatusMppShift,
        mstatusMie, Nat.testBit]
  · simp [mstatusMpie, mstatusMpieShift, mstatusMpp, mstatusMppShift, mstatusMie]

theorem handleMret_spec (t : RiscvCpuState) :
    (handleMret t).pc = t.mepc ∧
      (handleMret t).priv = Privilege.ofField (BitVec.ofNat 64
        ((t.mstatus.getLsbD 11).toNat + 2 * (t.mstatus.getLsbD 12).toNat)) ∧
      (handleMret t).mstatus.getLsbD 3 = t.mstatus.getLsbD 7 ∧
      (handleMret t).mstatus.getLsbD 1 = t.mstatus.getLsbD 1 := by
  simp only [handleMret, field_one, field_two, mstatusMppShift, mstatusMpieShift]
  refine ⟨trivial, trivial, ?_, ?_⟩
  · cases t.mstatus.getLsbD 7 <;> split <;>
      simp [mstatusMie, mstatusMpie, mstatusMpieShift, mstatusMpp, mstatusMppShift,
        mstatusMprv]
  · cases t.mstatus.getLsbD 7 <;> split <;>
      simp [mstatusMie, mstatusMpie, mstatusMpieShift, mstatusMpp, mstatusMppShift,
        mstatusMprv]

theorem ofField_code (p : Privilege) :
    Privilege.ofField (BitVec.ofNat 64
      ((p.code.testBit 0).toNat + 2 * (p.code.testBit 1).toNat)) = p := by
  cases p <;> decide

end Machine

/-! ## Handlers -/

/-- Where a trap is taken. -/
inductive Destination
  | supervisor
  | machine
  deriving DecidableEq, Repr

def destination (s : RiscvCpuState) (cause : BitVec 32) : Destination :=
  if delegated s cause then .supervisor else .machine

namespace Destination

/-- The position of `xIE`. -/
def ie : Destination → Nat
  | supervisor => 1
  | machine => 3

/-- The position of `xPIE`. -/
def pie : Destination → Nat
  | supervisor => 5
  | machine => 7

def epc : Destination → RiscvCpuState → BitVec 64
  | supervisor, s => s.sepc
  | machine, s => s.mepc

/-- The status register as the destination mode reads it. -/
def status : Destination → RiscvCpuState → BitVec 64
  | supervisor, s => getMstatus s sstatusMask
  | machine, s => getMstatus s (BitVec.allOnes 64)

def xret : Destination → RiscvCpuState → RiscvCpuState
  | supervisor => handleSret
  | machine => handleMret

/-- What the handler's own instructions may do.  Machine mode may change the
whole state; supervisor mode reaches the status word through `sstatus`, which
does not hold `MIE`. -/
def Work : Destination → RiscvCpuState → RiscvCpuState → Prop
  | supervisor, s, t => t.mstatus.getLsbD 3 = s.mstatus.getLsbD 3
  | machine, _, _ => True

/-- `t` has the `xepc` and the `xstatus` of `s`. -/
structure Keeps (x : Destination) (s t : RiscvCpuState) : Prop where
  epc_eq : x.epc t = x.epc s
  status_eq : x.status t = x.status s

end Destination

/-- A handler in mode `x`: instructions of its own and nested traps, each of
which meets `allowed`, is handled under the same rule and returns. -/
inductive Handler (allowed : RiscvCpuState → BitVec 32 → Prop) :
    Destination → RiscvCpuState → RiscvCpuState → Prop
  | work {x s t} : x.Work s t → Handler allowed x s t
  | nested {x s t} (cause : BitVec 32) (tval : BitVec 64) :
      allowed s cause →
      Handler allowed (destination s cause) (raiseException2 s cause tval) t →
      (destination s cause).Keeps (raiseException2 s cause tval) t →
      Handler allowed x s ((destination s cause).xret t)
  | seq {x s t u} : Handler allowed x s t → Handler allowed x t u → Handler allowed x s u

/-- The bit that trap entry saves, that of the interrupted mode, agrees with
the one it clears. -/
def Matched (s : RiscvCpuState) (cause : BitVec 32) : Prop :=
  s.mstatus.getLsbD s.priv.code = s.mstatus.getLsbD (destination s cause).ie

instance (s : RiscvCpuState) (cause : BitVec 32) : Decidable (Matched s cause) :=
  inferInstanceAs (Decidable (_ = _))

/-- `t` continues where `s` was interrupted. -/
structure Restores (s t : RiscvCpuState) : Prop where
  pc_eq : t.pc = s.pc
  priv_eq : t.priv = s.priv
  sie_eq : t.mstatus.getLsbD 1 = s.mstatus.getLsbD 1
  mie_eq : t.mstatus.getLsbD 3 = s.mstatus.getLsbD 3

/-! ## A trap and its return -/

theorem keeps_bit_supervisor {s t : RiscvCpuState} (h : Destination.supervisor.Keeps s t)
    {i : Nat} (hi : i < 13) (hmask : sstatusMask.getLsbD i = true) :
    t.mstatus.getLsbD i = s.mstatus.getLsbD i := by
  have hbit := congrArg (fun a => BitVec.getLsbD a i) h.status_eq
  simpa [Destination.status, getMstatus_bit _ _ hi, hmask] using hbit

theorem keeps_bit_machine {s t : RiscvCpuState} (h : Destination.machine.Keeps s t)
    {i : Nat} (hi : i < 13) : t.mstatus.getLsbD i = s.mstatus.getLsbD i := by
  have hbit : (getMstatus t (BitVec.allOnes 64)).getLsbD i =
      (getMstatus s (BitVec.allOnes 64)).getLsbD i :=
    congrArg (fun a => BitVec.getLsbD a i) h.status_eq
  have hmask : (BitVec.allOnes 64).getLsbD i = true := by
    rw [BitVec.getLsbD_allOnes]
    exact decide_eq_true (by omega)
  rw [getMstatus_bit _ _ hi, getMstatus_bit _ _ hi, hmask, Bool.and_true,
    Bool.and_true] at hbit
  exact hbit

theorem sret_return {s t : RiscvCpuState} {cause : BitVec 32} {tval : BitVec 64}
    (hd : delegated s cause = true)
    (h : Destination.supervisor.Keeps (raiseException2 s cause tval) t) :
    (handleSret t).pc = s.pc ∧ (handleSret t).priv = s.priv ∧
      (handleSret t).mstatus.getLsbD 1 = s.mstatus.getLsbD s.priv.code ∧
      (handleSret t).mstatus.getLsbD 3 = t.mstatus.getLsbD 3 := by
  obtain ⟨hepc, hpie, hpp, -⟩ := raise_delegated hd tval
  obtain ⟨hpc, hpriv, hsie, hmie⟩ := handleSret_spec t
  refine ⟨?_, ?_, ?_, hmie⟩
  · rw [hpc, ← hepc]
    exact h.epc_eq
  · rw [hpriv, keeps_bit_supervisor h (by omega) (by decide), hpp]
    rcases delegated_priv hd with hp | hp <;> simp [hp]
  · rw [hsie, keeps_bit_supervisor h (by omega) (by decide), hpie]

theorem mret_return {s t : RiscvCpuState} {cause : BitVec 32} {tval : BitVec 64}
    (hd : delegated s cause = false)
    (h : Destination.machine.Keeps (raiseException2 s cause tval) t) :
    (handleMret t).pc = s.pc ∧ (handleMret t).priv = s.priv ∧
      (handleMret t).mstatus.getLsbD 1 = s.mstatus.getLsbD 1 ∧
      (handleMret t).mstatus.getLsbD 3 = s.mstatus.getLsbD s.priv.code := by
  obtain ⟨hepc, hpie, hpp0, hpp1, hsie⟩ := raise_undelegated hd tval
  obtain ⟨hpc, hpriv, hmie, hsie'⟩ := handleMret_spec t
  refine ⟨?_, ?_, ?_, ?_⟩
  · rw [hpc, ← hepc]
    exact h.epc_eq
  · rw [hpriv, keeps_bit_machine h (by omega), keeps_bit_machine h (by omega), hpp0, hpp1]
    exact ofField_code s.priv
  · rw [hsie', keeps_bit_machine h (by omega), hsie]
  · rw [hmie, keeps_bit_machine h (by omega), hpie]

/-- Only a nested machine trap could move `MIE` under a supervisor handler, and
a matched one puts it back. -/
theorem Handler.mie {x : Destination} {s t : RiscvCpuState}
    (h : Handler Matched x s t) (hx : x = .supervisor) :
    t.mstatus.getLsbD 3 = s.mstatus.getLsbD 3 := by
  induction h with
  | work hw =>
      subst hx
      exact hw
  | @nested x s t cause tval hm _ hk ih =>
      cases hd : delegated s cause with
      | true =>
          have hdest : destination s cause = .supervisor := by simp [destination, hd]
          rw [hdest] at hk ih ⊢
          obtain ⟨-, -, -, hraise⟩ := raise_delegated hd tval
          obtain ⟨-, -, -, hmie⟩ := sret_return hd hk
          show (handleSret t).mstatus.getLsbD 3 = _
          rw [hmie, ih rfl, hraise]
      | false =>
          have hdest : destination s cause = .machine := by simp [destination, hd]
          rw [Matched, hdest] at hm
          rw [hdest] at hk ⊢
          obtain ⟨-, -, -, hmie⟩ := mret_return hd hk
          show (handleMret t).mstatus.getLsbD 3 = _
          rw [hmie, hm]
          rfl
  | seq _ _ ih₁ ih₂ => rw [ih₂ hx, ih₁ hx]

/-- A trap and its return give back the interrupted state exactly when the bit
that entry saves is the one it clears, whatever the nesting below it. -/
theorem trap_return {s t : RiscvCpuState} {cause : BitVec 32} {tval : BitVec 64}
    (hhandler : Handler Matched (destination s cause) (raiseException2 s cause tval) t)
    (hkeeps : (destination s cause).Keeps (raiseException2 s cause tval) t) :
    (Restores s ((destination s cause).xret t) ↔ Matched s cause) ∧
      ((raiseException2 s cause tval).mstatus.getLsbD (destination s cause).pie =
        s.mstatus.getLsbD (destination s cause).ie ↔ Matched s cause) := by
  cases hd : delegated s cause with
  | true =>
      have hdest : destination s cause = .supervisor := by simp [destination, hd]
      have hmatched : Matched s cause ↔
          s.mstatus.getLsbD s.priv.code = s.mstatus.getLsbD 1 := by
        rw [Matched, hdest]
        rfl
      rw [hdest] at hhandler hkeeps ⊢
      obtain ⟨-, hpie, -, hraise⟩ := raise_delegated hd tval
      obtain ⟨hpc, hpriv, hsie, hmie⟩ := sret_return hd hkeeps
      rw [hhandler.mie rfl, hraise] at hmie
      rw [hmatched]
      refine ⟨⟨fun h => ?_, fun h => ⟨hpc, hpriv, ?_, hmie⟩⟩, ?_⟩
      · rw [← hsie]
        exact h.sie_eq
      · rw [← h]
        exact hsie
      · show (raiseException2 s cause tval).mstatus.getLsbD 5 = _ ↔ _
        rw [hpie]
        rfl
  | false =>
      have hdest : destination s cause = .machine := by simp [destination, hd]
      have hmatched : Matched s cause ↔
          s.mstatus.getLsbD s.priv.code = s.mstatus.getLsbD 3 := by
        rw [Matched, hdest]
        rfl
      rw [hdest] at hkeeps ⊢
      obtain ⟨-, hpie, -, -, -⟩ := raise_undelegated hd tval
      obtain ⟨hpc, hpriv, hsie, hmie⟩ := mret_return hd hkeeps
      rw [hmatched]
      refine ⟨⟨fun h => ?_, fun h => ⟨hpc, hpriv, hsie, ?_⟩⟩, ?_⟩
      · rw [← hmie]
        exact h.mie_eq
      · rw [← h]
        exact hmie
      · show (raiseException2 s cause tval).mstatus.getLsbD 7 = _ ↔ _
        rw [hpie]
        rfl

/-- Supervisor code that calls the firmware, machine calls delegated to
nobody. -/
def firmwareCall (mstatus : BitVec 64) : RiscvCpuState :=
  { pc := 0x80200000, priv := .S, fs := 0, mstatus := mstatus, mtvec := 0x80000000,
    mepc := 0, mcause := 0, mtval := 0, medeleg := 0xb1ff, mideleg := 0x222,
    stvec := 0x80200100, sepc := 0, scause := 0, stval := 0 }

/-- With both enable bits set the call returns as it came. -/
theorem trap_return_firmwareCall :
    Restores (firmwareCall 0xa)
      (handleMret (raiseException2 (firmwareCall 0xa) 9 0)) :=
  (@trap_return (firmwareCall 0xa) (raiseException2 (firmwareCall 0xa) 9 0) 9 0
    (.work trivial) ⟨rfl, rfl⟩).1.mpr (by decide)

/-- With `SIE` set and `MIE` clear, the return from the call sets `MIE`. -/
theorem trap_return_unmatched :
    ¬ ∀ (s t : RiscvCpuState) (cause : BitVec 32) (tval : BitVec 64),
      Handler (fun _ _ => True) (destination s cause) (raiseException2 s cause tval) t →
      (destination s cause).Keeps (raiseException2 s cause tval) t →
      Restores s ((destination s cause).xret t) := by
  intro h
  have hrestores := h (firmwareCall 2) (raiseException2 (firmwareCall 2) 9 0) 9 0
    (.work trivial) ⟨rfl, rfl⟩
  have hmie := hrestores.mie_eq
  revert hmie
  decide

end Cpu
end Riscbox
