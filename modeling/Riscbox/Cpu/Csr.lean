import Riscbox.Cpu.State

/-!
# Control and status registers
-/

namespace Riscbox
namespace Cpu

variable {t : Target} {π : Type}

def menvcfgAdue : BitVec 64 := 1 <<< 61
def menvcfgPbmte : BitVec 64 := 1 <<< 62
def menvcfgStce : BitVec 64 := 1 <<< 63
def envcfgCbie : BitVec 64 := 3 <<< 4
def envcfgCbcfe : BitVec 64 := 1 <<< 6
def envcfgCbze : BitVec 64 := 1 <<< 7
def envcfgCboMask : BitVec 64 := envcfgCbie ||| envcfgCbcfe ||| envcfgCbze
def menvcfgMask : BitVec 64 := envcfgCboMask ||| menvcfgAdue ||| menvcfgPbmte ||| menvcfgStce

def counterenMask : BitVec 64 := 7

/-- The registers that `csr_read` knows. -/
inductive Csr
  | fflags
  | frm
  | fcsr
  | ucycle
  | time
  | uinstret
  | sstatus
  | sie
  | stvec
  | scounteren
  | senvcfg
  | sscratch
  | sepc
  | scause
  | stval
  | sip
  | stimecmp
  | satp
  | mstatus
  | misa
  | medeleg
  | mideleg
  | mie
  | mtvec
  | mcounteren
  | menvcfg
  | mcountinhibit
  | pmpcfg0
  | pmpcfg2
  | mscratch
  | mepc
  | mcause
  | mtval
  | mip
  | mcycle
  | minstret
  | mvendorid
  | marchid
  | mimpid
  | mhartid
  | mconfigptr
  | pmpaddr (i : Fin 16)
  deriving DecidableEq, Repr

def Csr.ofNumber (csr : BitVec 12) : Option Csr :=
  match csr.toNat with
  | 0x001 => some fflags
  | 0x002 => some frm
  | 0x003 => some fcsr
  | 0xc00 => some ucycle
  | 0xc01 => some time
  | 0xc02 => some uinstret
  | 0x100 => some sstatus
  | 0x104 => some sie
  | 0x105 => some stvec
  | 0x106 => some scounteren
  | 0x10a => some senvcfg
  | 0x140 => some sscratch
  | 0x141 => some sepc
  | 0x142 => some scause
  | 0x143 => some stval
  | 0x144 => some sip
  | 0x14d => some stimecmp
  | 0x180 => some satp
  | 0x300 => some mstatus
  | 0x301 => some misa
  | 0x302 => some medeleg
  | 0x303 => some mideleg
  | 0x304 => some mie
  | 0x305 => some mtvec
  | 0x306 => some mcounteren
  | 0x30a => some menvcfg
  | 0x320 => some mcountinhibit
  | 0x3a0 => some pmpcfg0
  | 0x3a2 => some pmpcfg2
  | 0x340 => some mscratch
  | 0x341 => some mepc
  | 0x342 => some mcause
  | 0x343 => some mtval
  | 0x344 => some mip
  | 0xb00 => some mcycle
  | 0xb02 => some minstret
  | 0xf11 => some mvendorid
  | 0xf12 => some marchid
  | 0xf13 => some mimpid
  | 0xf14 => some mhartid
  | 0xf15 => some mconfigptr
  | n => if h : 0x3b0 ≤ n ∧ n < 0x3b0 + 16 then some (pmpaddr ⟨n - 0x3b0, by omega⟩) else none

inductive CSRWriteResult
  | error
  | ok
  | flushTlb
  | minstret
  | interrupt
  deriving DecidableEq, Repr

namespace CpuState

def counterAccessEnabled (s : CpuState t) (counterIndex : Nat) : Bool :=
  if s.priv = .M then true
  else if !s.mcounteren.getLsbD counterIndex then false
  else !(s.priv = .U && !s.scounteren.getLsbD counterIndex)

/-- Eight configuration bytes from `first` on. -/
def getPmpcfg (s : CpuState t) (first : Fin 16) : BitVec 64 :=
  (List.range 8).foldl (fun val i =>
    val ||| (s.pmpcfg (first + Fin.ofNat 16 i)).setWidth 64 <<< (8 * i)) 0

def pmpCfgL : BitVec 8 := 0x80
def pmpCfgR : BitVec 8 := 1
def pmpCfgW : BitVec 8 := 2
def pmpCfgX : BitVec 8 := 4
def pmpCfgAMask : BitVec 8 := 0x18
def pmpCfgATor : BitVec 8 := 0x08
def pmpAddrMask : BitVec 64 := (1 <<< 54) - 1

/-- The configuration byte that a write leaves in an unlocked entry. -/
def pmpCfgOf (byte : BitVec 8) : BitVec 8 :=
  let cfg := byte &&& (pmpCfgL ||| pmpCfgAMask ||| pmpCfgX ||| pmpCfgW ||| pmpCfgR)
  if cfg &&& (pmpCfgR ||| pmpCfgW) = pmpCfgW then cfg &&& ~~~pmpCfgW else cfg

def setPmpcfg (s : CpuState t) (first : Fin 16) (val : BitVec 64) : Bool × CpuState t :=
  (List.range 8).foldl (fun (changed, s) i =>
    let entry := first + Fin.ofNat 16 i
    if s.pmpcfg entry &&& pmpCfgL ≠ 0 then (changed, s)
    else
      let cfg := pmpCfgOf ((val >>> (8 * i)).setWidth 8)
      if s.pmpcfg entry = cfg then (changed, s)
      else (true, { s with pmpcfg := fun j => if j = entry then cfg else s.pmpcfg j }))
    (false, s)

def setPmpaddr (s : CpuState t) (entry : Fin 16) (val : BitVec 64) : Bool × CpuState t :=
  if s.pmpcfg entry &&& pmpCfgL ≠ 0 then (false, s)
  else if entry.val + 1 < 16 ∧
      s.pmpcfg (entry + 1) &&& (pmpCfgL ||| pmpCfgAMask) = pmpCfgL ||| pmpCfgATor then
    (false, s)
  else if s.pmpaddr entry = val &&& pmpAddrMask then (false, s)
  else
    (true, { s with pmpaddr := fun j => if j = entry then val &&& pmpAddrMask else s.pmpaddr j })

/-- `riscv_cpu_update_time`. -/
def updateTime (s : CpuState t) (time : BitVec 64) : CpuState t :=
  if s.menvcfg &&& menvcfgStce = 0 then s
  else if time ≥ s.stimecmp then
    let mip := s.mip ||| mipStip
    { s with
      mip := mip
      powerDownFlag := if s.powerDownFlag ∧ mip &&& s.mie ≠ 0 then false else s.powerDownFlag }
  else { s with mip := s.mip &&& ~~~mipStip }

/-- The read that `csr_read` performs after its access checks; `time` is the clock of
the core. -/
def readCsr (s : CpuState t) (time : BitVec 64) : Csr → Option (BitVec 64)
  | .fflags => if s.fs = 0 then none else some (s.fflags.setWidth 64)
  | .frm => if s.fs = 0 then none else some (s.frm.setWidth 64)
  | .fcsr =>
    if s.fs = 0 then none
    else some ((s.fflags ||| s.frm.setWidth 32 <<< 5).setWidth 64)
  | .ucycle => if s.counterAccessEnabled 0 then some s.cycleCounter else none
  | .time => if s.counterAccessEnabled 1 then some time else none
  | .uinstret => if s.counterAccessEnabled 2 then some s.minstretCounter else none
  | .sstatus => some (getMstatus s.toRiscvCpuState sstatusMask)
  | .sie => some ((s.mie &&& s.mideleg).setWidth 64)
  | .stvec => some s.stvec
  | .scounteren => some (s.scounteren.setWidth 64)
  | .senvcfg => some s.senvcfg
  | .sscratch => some s.sscratch
  | .sepc => some s.sepc
  | .scause => some s.scause
  | .stval => some s.stval
  | .sip => some ((s.mip &&& s.mideleg).setWidth 64)
  | .stimecmp => some s.stimecmp
  | .satp => some s.satp
  | .mstatus => some (getMstatus s.toRiscvCpuState (BitVec.allOnes 64))
  | .misa => some (s.misa.setWidth 64 ||| 2 <<< 62)
  | .medeleg => some (s.medeleg.setWidth 64)
  | .mideleg => some (s.mideleg.setWidth 64)
  | .mie => some (s.mie.setWidth 64)
  | .mtvec => some s.mtvec
  | .mcounteren => some (s.mcounteren.setWidth 64)
  | .menvcfg => some s.menvcfg
  | .mcountinhibit => some 0
  | .pmpcfg0 => some (s.getPmpcfg 0)
  | .pmpcfg2 => some (s.getPmpcfg 8)
  | .mscratch => some s.mscratch
  | .mepc => some s.mepc
  | .mcause => some s.mcause
  | .mtval => some s.mtval
  | .mip => some (s.mip.setWidth 64)
  | .mcycle => some s.cycleCounter
  | .minstret => some s.minstretCounter
  | .mvendorid | .marchid | .mimpid | .mconfigptr => some 0
  | .mhartid => some s.mhartid
  | .pmpaddr i => some (s.pmpaddr i)

/-- Below machine mode `stimecmp` needs both enables. -/
def stimecmpDenied (s : CpuState t) : Prop :=
  s.priv ≠ .M ∧ (s.menvcfg &&& menvcfgStce = 0 ∨ s.mcounteren.getLsbD 1 = false)

instance (s : CpuState t) : Decidable s.stimecmpDenied := inferInstanceAs (Decidable (_ ∧ _))

/-- Supervisor access to `satp` under `mstatus.TVM`. -/
def satpDenied (s : CpuState t) : Prop := s.priv = .S ∧ s.mstatus &&& mstatusTvm ≠ 0

instance (s : CpuState t) : Decidable s.satpDenied := inferInstanceAs (Decidable (_ ∧ _))

def csrRead (s : CpuState t) (time : BitVec 64) (csr : BitVec 12) (willWrite : Bool) :
    Option (BitVec 64) :=
  if csr &&& 0xc00 = 0xc00 ∧ willWrite then none
  else if s.priv.code < (csr >>> 8 &&& 3).toNat then none
  else if csr = 0x180 ∧ s.satpDenied then none
  else if csr = 0x14d ∧ s.stimecmpDenied then none
  else (Csr.ofNumber csr).bind (s.readCsr time)

/-- `set_mstatus`, with its flush. -/
def setMstatus (s : CpuState t) (val : BitVec 64) : CpuState t :=
  let mod := s.mstatus ^^^ val
  let s :=
    if mod &&& (mstatusMprv ||| mstatusSum ||| mstatusMxr) ≠ 0 ∨
        (s.mstatus &&& mstatusMprv ≠ 0 ∧ mod &&& mstatusMpp ≠ 0) then s.tlbFlushAll
    else s
  { s with toRiscvCpuState := Cpu.setMstatus s.toRiscvCpuState val }

def setFrm (s : CpuState t) (val : BitVec 64) : CpuState t :=
  { s with frm := (val &&& 7).setWidth 8 }

/-- The bits of `val` under `mask`, the others of `old`. -/
def merge {w : Nat} (old val mask : BitVec w) : BitVec w := (old &&& ~~~mask) ||| (val &&& mask)

def ofEnvcfg (val : BitVec 64) : BitVec 64 :=
  if val &&& envcfgCbie = 2 <<< 4 then val &&& ~~~envcfgCbie else val

def satpMode (satp val : BitVec 64) : BitVec 64 :=
  let newMode := val >>> 60 &&& 0xf
  if newMode = 0 ∨ newMode = 8 then newMode else satp >>> 60

def satpPpnMask : BitVec 64 := (1 <<< 44) - 1

def requestHost (s : CpuState t) : CpuState t :=
  { s with hostServiceRequested := true, timerReprogrammed := true }

/-- The bits of `mip` that a write to `sip` reaches. -/
def sipMask (s : CpuState t) : BitVec 32 :=
  if s.menvcfg &&& menvcfgStce ≠ 0 then s.mideleg &&& ~~~mipStip else s.mideleg

def mipMask (s : CpuState t) : BitVec 32 :=
  if s.menvcfg &&& menvcfgStce ≠ 0 then (mipSsip ||| mipStip) &&& ~~~mipStip
  else mipSsip ||| mipStip

def writeSstatus (s : CpuState t) (val : BitVec 64) : CSRWriteResult × CpuState t :=
  let u := s.setMstatus ((s.mstatus &&& ~~~sstatusMask) ||| (val &&& sstatusMask))
  if s.mstatus &&& mstatusSie = 0 ∧ u.mstatus &&& mstatusSie ≠ 0 ∧
      u.mip &&& u.mie &&& u.mideleg ≠ 0 then (.interrupt, u)
  else (.ok, u)

def writeMstatus (s : CpuState t) (val : BitVec 64) : CSRWriteResult × CpuState t :=
  let u := s.setMstatus val
  if s.mstatus &&& mstatusMie = 0 ∧ u.mstatus &&& mstatusMie ≠ 0 ∧
      u.mip &&& u.mie &&& ~~~u.mideleg ≠ 0 then (.interrupt, u)
  else (.ok, u)

/-- The supervisor timer line after a change of `menvcfg`. -/
def refreshTimer (s : CpuState t) (time : BitVec 64) : CpuState t :=
  if s.menvcfg &&& menvcfgStce ≠ 0 then s.updateTime time
  else { s with mip := s.mip &&& ~~~mipStip }

def writeMenvcfg (s : CpuState t) (time val : BitVec 64) : CSRWriteResult × CpuState t :=
  let menvcfg := ofEnvcfg (val &&& menvcfgMask)
  let changed := menvcfg ^^^ s.menvcfg
  if menvcfg = s.menvcfg then (.ok, s)
  else
    let s := { s with menvcfg := menvcfg }.refreshTimer time
    let s := if changed &&& menvcfgStce ≠ 0 then s.requestHost else s
    if changed &&& (menvcfgAdue ||| menvcfgPbmte) ≠ 0 then (.flushTlb, s.tlbFlushAll)
    else (.interrupt, s)

/-- The end of a write that flushes when it changed something. -/
def flushIf : Bool × CpuState t → CSRWriteResult × CpuState t
  | (true, s) => (.flushTlb, s.tlbFlushAll)
  | (false, s) => (.ok, s)

/-- The write that `csr_write` performs for a register it knows. -/
def writeCsr (s : CpuState t) (time val : BitVec 64) : Csr → CSRWriteResult × CpuState t
  | .fflags => (.ok, { s with fflags := (val &&& 0x1f).setWidth 32, fs := 3 })
  | .frm => (.ok, { s.setFrm (val &&& 7) with fs := 3 })
  | .fcsr =>
    (.ok, { s.setFrm (val >>> 5 &&& 7) with fflags := (val &&& 0x1f).setWidth 32, fs := 3 })
  | .sstatus => s.writeSstatus val
  | .sie =>
    (.ok, { s with
      mie := merge s.mie (val.setWidth 32) s.mideleg
      mieWritten := merge s.mieWritten (val.setWidth 32) s.mideleg })
  | .stvec => (.ok, { s with stvec := val &&& ~~~3 })
  | .scounteren => (.ok, { s with scounteren := (val &&& counterenMask).setWidth 32 })
  | .senvcfg => (.ok, { s with senvcfg := ofEnvcfg (val &&& envcfgCboMask) })
  | .sscratch => (.ok, { s with sscratch := val })
  | .sepc => (.ok, { s with sepc := val &&& ~~~1 })
  | .scause => (.ok, { s with scause := val })
  | .stval => (.ok, { s with stval := val })
  | .sip => (.ok, { s with mip := merge s.mip (val.setWidth 32) s.sipMask })
  | .stimecmp =>
    if s.stimecmpDenied then (.error, s)
    else (.interrupt, ({ s with stimecmp := val }.updateTime time).requestHost)
  | .satp =>
    (.flushTlb, { s with
      satp := (val &&& satpPpnMask) ||| satpMode s.satp val <<< 60 }.tlbFlushAll)
  | .mstatus => s.writeMstatus val
  | .misa => (.ok, s)
  | .medeleg => (.ok, { s with medeleg := merge s.medeleg (val.setWidth 32) 0xffff })
  | .mideleg =>
    (.ok, { s with
      mideleg := merge s.mideleg (val.setWidth 32) (mipSsip ||| mipStip ||| mipSeip) })
  | .mie =>
    (.ok, { s with
      mie := merge s.mie (val.setWidth 32) (mipMsip ||| mipMtip ||| mipSsip ||| mipStip |||
        mipSeip)
      mieWritten := val.setWidth 32 })
  | .mtvec => (.ok, { s with mtvec := val &&& ~~~3 })
  | .mcounteren => (.ok, { s with mcounteren := (val &&& counterenMask).setWidth 32 })
  | .menvcfg => s.writeMenvcfg time val
  | .mcountinhibit => (.ok, s)
  | .pmpcfg0 => flushIf (s.setPmpcfg 0 val)
  | .pmpcfg2 => flushIf (s.setPmpcfg 8 val)
  | .mcycle => (.ok, { s with cycleCounter := val })
  | .minstret => (.minstret, { s with minstretCounter := val })
  | .mscratch => (.ok, { s with mscratch := val })
  | .mepc => (.ok, { s with mepc := val &&& ~~~1 })
  | .mcause => (.ok, { s with mcause := val })
  | .mtval => (.ok, { s with mtval := val })
  | .mip => (.ok, { s with mip := merge s.mip (val.setWidth 32) s.mipMask })
  | .pmpaddr i => flushIf (s.setPmpaddr i val)
  | .ucycle | .time | .uinstret | .mvendorid | .marchid | .mimpid | .mhartid | .mconfigptr =>
    (.error, s)

def csrWrite (s : CpuState t) (time : BitVec 64) (csr : BitVec 12) (val : BitVec 64) :
    CSRWriteResult × CpuState t :=
  if csr = 0x180 ∧ s.satpDenied then (.error, s)
  else
    match Csr.ofNumber csr with
    | some reg => s.writeCsr time val reg
    | none => (.error, s)

end CpuState

end Cpu
end Riscbox
