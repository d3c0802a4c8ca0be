import Riscbox.Cpu.Expansion
import Riscbox.Cpu.Runs

/-!
# The 16-bit instructions and their expansions

A 16-bit instruction leaves the core as the instruction that `expand` gives for it,
except for the program counter after it and the link, which count 2 bytes and not 4.
-/

namespace Riscbox
namespace Cpu

variable {t : Target} {π : Type} {env : Env t π}

/-! ## Accesses end in a value or in an exception -/

def Faulting {α : Type} (x : Exec t π α) : Prop :=
  ∀ c, (∃ a, (x c).1 = .ok a) ∨ (x c).1 = .err .exception

section

variable {α β : Type}

theorem Faulting.bind {x : Exec t π α} {f : α → Exec t π β} (hx : Faulting x)
    (hf : ∀ a, Faulting (f a)) : Faulting (x >>= f) := by
  intro c
  rcases h : x c with ⟨r, c₁⟩
  have hc := hx c
  rw [h] at hc
  rcases hc with ⟨a, rfl⟩ | rfl
  · rw [Op.bind_ok h]
    exact hf a c₁
  · exact .inr (by rw [Op.bind_err h])

theorem faulting_pure (a : α) : Faulting (pure a : Exec t π α) := fun _ => .inl ⟨a, rfl⟩

theorem faulting_read (f : CpuState t → α) : Faulting (Exec.read f : Exec t π α) :=
  fun c => .inl ⟨f c.cpu, rfl⟩

theorem faulting_modify (f : TinyemuCore t π → TinyemuCore t π) :
    Faulting (Op.modify f : Exec t π Unit) := fun _ => .inl ⟨(), rfl⟩

theorem faulting_update (f : CpuState t → CpuState t) :
    Faulting (Exec.update f : Exec t π Unit) := faulting_modify _

theorem faulting_fault (cause : BitVec 32) (tval : BitVec 64) :
    Faulting (Exec.fault cause tval : Exec t π α) := fun _ => .inr rfl

theorem faulting_ite {p : Prop} [Decidable p] {x y : Exec t π α} (hx : Faulting x)
    (hy : Faulting y) : Faulting (if p then x else y) := by
  by_cases h : p
  · rwa [if_pos h]
  · rwa [if_neg h]

theorem faulting_getPhysAddr (addr : BitVec 64) (access : Access) :
    Faulting (Exec.getPhysAddr env addr access) :=
  fun c => .inl ⟨(c.getPhysAddr env addr access).1, rfl⟩

theorem faulting_loadBytes (ptr : Ptr t) (sz : Size) :
    Faulting (Exec.loadBytes ptr sz : Exec t π (BitVec 64)) :=
  fun c => .inl ⟨c.ram.mem.load ptr sz.bytes, rfl⟩

theorem faulting_storeBytes (ptr : Ptr t) (sz : Size) (val : BitVec 64) :
    Faulting (Exec.storeBytes ptr sz val : Exec t π Unit) := faulting_modify _

theorem faulting_readDevice (base : BitVec 64) (offset : BitVec 32) (sizeLog2 : Nat) :
    Faulting (Exec.readDevice env base offset sizeLog2) := fun _ => .inl ⟨_, rfl⟩

theorem faulting_writeDevice (base : BitVec 64) (offset value : BitVec 32) (sizeLog2 : Nat) :
    Faulting (Exec.writeDevice env base offset value sizeLog2) := by
  intro c
  left
  unfold Exec.writeDevice
  dsimp only
  split <;> exact ⟨_, rfl⟩

theorem faulting_readIo (pr : PhysMemoryRange t) (paddr : BitVec 64) (sz : Size) :
    Faulting (Exec.readIo env pr paddr sz) := by
  apply faulting_ite
  · exact (faulting_readDevice _ _ _).bind fun _ => faulting_pure _
  apply faulting_ite
  · apply (faulting_readDevice _ _ _).bind
    intro low
    cases low with
    | none => exact faulting_pure _
    | some low => exact (faulting_readDevice _ _ _).bind fun _ => faulting_pure _
  · exact faulting_pure _

theorem faulting_writeIo (pr : PhysMemoryRange t) (paddr val : BitVec 64) (sz : Size) :
    Faulting (Exec.writeIo env pr paddr val sz) := by
  apply faulting_ite
  · exact faulting_writeDevice _ _ _ _
  apply faulting_ite
  · apply (faulting_writeDevice _ _ _ _).bind
    intro ok
    cases ok with
    | true => exact faulting_writeDevice _ _ _ _
    | false => exact faulting_pure _
  · exact faulting_pure _

theorem faulting_targetReadSlowAligned (sz : Size) (addr : BitVec 64) :
    Faulting (Exec.targetReadSlowAligned env sz addr) := by
  apply (faulting_getPhysAddr _ _).bind
  intro result
  cases result with
  | pageFault => exact faulting_fault _ _
  | accessFault => exact faulting_fault _ _
  | ok paddr =>
    dsimp only
    cases getPhysMemRange env.map paddr with
    | none => exact faulting_fault _ _
    | some found =>
      apply faulting_ite
      · exact (faulting_update _).bind fun _ => faulting_loadBytes _ _
      · apply (faulting_readIo _ _ _).bind
        intro val
        cases val with
        | none => exact faulting_fault _ _
        | some val => exact faulting_pure _

theorem faulting_targetReadAligned (sz : Size) (addr : BitVec 64) :
    Faulting (Exec.targetReadAligned env sz addr) :=
  (faulting_read _).bind fun _ =>
    faulting_ite (faulting_loadBytes _ _) (faulting_targetReadSlowAligned _ _)

theorem faulting_targetReadSlow (sz : Size) (addr : BitVec 64) :
    Faulting (Exec.targetReadSlow env sz addr) := by
  apply faulting_ite
  · exact faulting_targetReadSlowAligned _ _
  cases sz with
  | u8 => exact faulting_targetReadSlowAligned _ _
  | u16 | u32 | u64 =>
    exact (faulting_targetReadAligned _ _).bind fun _ =>
      (faulting_targetReadAligned _ _).bind fun _ => faulting_pure _

theorem faulting_targetRead (sz : Size) (addr : BitVec 64) :
    Faulting (Exec.targetRead env sz addr) :=
  (faulting_read _).bind fun _ =>
    faulting_ite (faulting_loadBytes _ _) (faulting_targetReadSlow _ _)

theorem faulting_targetWriteSlowAligned (sz : Size) (addr val : BitVec 64) :
    Faulting (Exec.targetWriteSlowAligned env sz addr val) := by
  apply (faulting_getPhysAddr _ _).bind
  intro result
  cases result with
  | pageFault => exact faulting_fault _ _
  | accessFault => exact faulting_fault _ _
  | ok paddr =>
    dsimp only
    cases getPhysMemRange env.map paddr with
    | none => exact faulting_fault _ _
    | some found =>
      apply faulting_ite
      · exact (faulting_modify _).bind fun _ => (faulting_update _).bind fun _ =>
          (faulting_storeBytes _ _ _).bind fun _ => faulting_read _
      · exact (faulting_writeIo _ _ _ _).bind fun _ =>
          faulting_ite (faulting_read _) (faulting_fault _ _)

theorem faulting_targetWriteByte (addr val : BitVec 64) :
    Faulting (Exec.targetWriteByte env addr val) :=
  (faulting_read _).bind fun _ =>
    faulting_ite ((faulting_storeBytes _ _ _).bind fun _ => faulting_pure _)
      (faulting_targetWriteSlowAligned _ _ _)

theorem faulting_targetWriteBytes (n : Nat) : ∀ addr val : BitVec 64,
    Faulting (Exec.targetWriteBytes env addr val n) := by
  induction n with
  | zero => exact fun _ _ => faulting_pure _
  | succ n ih => exact fun _ _ => (faulting_targetWriteByte _ _).bind fun _ => ih _ _

theorem faulting_targetWrite (sz : Size) (addr val : BitVec 64) :
    Faulting (Exec.targetWrite env sz addr val) := by
  apply (faulting_read _).bind
  intro tlb
  apply faulting_ite
  · exact (faulting_storeBytes _ _ _).bind fun _ => faulting_pure _
  apply faulting_ite
  · exact faulting_targetWriteSlowAligned _ _ _
  · exact (faulting_targetWriteBytes _ _ _).bind fun _ => faulting_read _

end

/-! ## Agreement -/

namespace TinyemuCore

def setReg (c : TinyemuCore t π) (rd : BitVec 5) (val : BitVec 64) : TinyemuCore t π :=
  c.onCpu fun s => { s with reg := s.reg.set rd val }

/-- The core after an instruction of `length` bytes that has retired in the middle of a
block. -/
def advance (c : TinyemuCore t π) (length : BitVec 64) : TinyemuCore t π :=
  c.onCpu fun s => { s with pc := s.pc + length }

theorem setReg_zero (c : TinyemuCore t π) (val : BitVec 64) : c.setReg 0 val = c := by
  have hset : c.cpu.reg.set 0 val = c.cpu.reg := by
    unfold Registers.set
    simp
  unfold setReg onCpu
  dsimp only
  rw [hset]

end TinyemuCore

/-- How a 16-bit instruction at `pc` ends, and how a 32-bit one that links to `link` does.
The whole core is the same but for the two values that count the length of the
instruction. -/
inductive Agrees (pc : BitVec 64) (link : BitVec 5) :
    Outcome Stop Flow × TinyemuCore t π → Outcome Stop Flow × TinyemuCore t π → Prop
  | next (c : TinyemuCore t π) : Agrees pc link (.ok (.next 2), c) (.ok (.next 4), c)
  | jump (c : TinyemuCore t π) :
      Agrees pc link (.ok .jump, c.setReg link (pc + 2)) (.ok .jump, c.setReg link (pc + 4))
  | retired (c : TinyemuCore t π) :
      Agrees pc link (.err .doneInterp, c.advance 2) (.err .doneInterp, c.advance 4)
  | illegal (c : TinyemuCore t π) : Agrees pc link (.err .illegalInsn, c) (.err .illegalInsn, c)
  | exception (c : TinyemuCore t π) : Agrees pc link (.err .exception, c) (.err .exception, c)

section

variable {pc : BitVec 64} {link : BitVec 5} {c : TinyemuCore t π}

theorem agrees_faulting {α : Type} {x : Exec t π α} {f g : α → Exec t π Flow}
    (hx : Faulting x) (h : ∀ a c, Agrees pc link (f a c) (g a c)) :
    Agrees pc link ((x >>= f) c) ((x >>= g) c) := by
  rcases hxc : x c with ⟨r, c₁⟩
  have hc := hx c
  rw [hxc] at hc
  rcases hc with ⟨a, rfl⟩ | rfl
  · rw [Op.bind_ok hxc, Op.bind_ok hxc]
    exact h a c₁
  · rw [Op.bind_err hxc, Op.bind_err hxc]
    exact .exception c₁

theorem agrees_storeInsn (sz : Size) (addr val : BitVec 64) :
    Agrees pc link ((Exec.storeInsn env sz addr val 2 >>= fun _ => pure (.next 2)) c)
      ((Exec.storeInsn env sz addr val 4 >>= fun _ => pure (.next 4)) c) := by
  have hassoc (length : BitVec 64) : (Exec.storeInsn env sz addr val length >>= fun _ =>
      (pure (.next length) : Exec t π Flow)) = (Exec.targetWrite env sz addr val >>= fun handoff =>
      (if handoff then Exec.done length else pure ()) >>= fun _ => pure (.next length)) := by
    funext c
    unfold Exec.storeInsn
    simp only [Op.bind_apply]
    rcases Exec.targetWrite env sz addr val c with ⟨_ | _ | _, _⟩ <;> rfl
  rw [hassoc, hassoc]
  apply agrees_faulting (faulting_targetWrite _ _ _)
  intro handoff c
  cases handoff with
  | false => exact .next c
  | true => exact .retired (c.onCpu CpuState.retired)

/-! ## Dispatch on the opcode -/

theorem and_three_eq_mod (insn : BitVec 32) : (insn &&& 3).toNat = opcodeOf insn % 4 := by
  have hlow := Nat.and_two_pow_sub_one_eq_mod insn.toNat 2
  have hopcode := Nat.and_two_pow_sub_one_eq_mod insn.toNat 7
  rw [opcodeOf, BitVec.toNat_and, BitVec.toNat_and]
  show insn.toNat &&& 3 = (insn.toNat &&& 127) % 4
  rw [show (3 : Nat) = 2 ^ 2 - 1 by decide, show (127 : Nat) = 2 ^ 7 - 1 by decide, hlow, hopcode]
  omega

theorem exec_eq_exec32 {insn : BitVec 32} (h : opcodeOf insn % 4 = 3) :
    Exec.exec env insn = Exec.exec32 env insn := by
  rw [Exec.exec, and_three_eq_mod, h]
  rfl

section

variable {insn : BitVec 32}

theorem exec_lui (h : opcodeOf insn = 0x37) :
    Exec.exec env insn c = Exec.setResult (rdOf insn) (some ((immU insn).signExtend 64)) c := by
  rw [exec_eq_exec32 (by rw [h])]
  unfold Exec.exec32
  rw [h]
  rfl

theorem exec_jal (h : opcodeOf insn = 0x6f) : Exec.exec env insn c = Exec.jal insn c := by
  rw [exec_eq_exec32 (by rw [h])]
  unfold Exec.exec32
  rw [h]
  rfl

theorem exec_jalr (h : opcodeOf insn = 0x67) : Exec.exec env insn c = Exec.jalr insn c := by
  rw [exec_eq_exec32 (by rw [h])]
  unfold Exec.exec32
  rw [h]
  rfl

theorem exec_branch (h : opcodeOf insn = 0x63) : Exec.exec env insn c = Exec.branch insn c := by
  rw [exec_eq_exec32 (by rw [h])]
  unfold Exec.exec32
  rw [h]
  rfl

theorem exec_load (h : opcodeOf insn = 0x03) : Exec.exec env insn c = Exec.load env insn c := by
  rw [exec_eq_exec32 (by rw [h])]
  unfold Exec.exec32
  rw [h]
  rfl

theorem exec_store (h : opcodeOf insn = 0x23) : Exec.exec env insn c = Exec.store env insn c := by
  rw [exec_eq_exec32 (by rw [h])]
  unfold Exec.exec32
  rw [h]
  rfl

theorem exec_opImm (h : opcodeOf insn = 0x13) : Exec.exec env insn c =
    Exec.setResult (rdOf insn) (opImm (funct3Of insn) (immI insn) (c.cpu.reg.get (rs1Of insn)))
      c := by
  rw [exec_eq_exec32 (by rw [h])]
  unfold Exec.exec32
  rw [h]
  rfl

theorem exec_opImm32 (h : opcodeOf insn = 0x1b) : Exec.exec env insn c =
    Exec.setResult (rdOf insn) (opImm32 (funct3Of insn) (immI insn) (c.cpu.reg.get (rs1Of insn)))
      c := by
  rw [exec_eq_exec32 (by rw [h])]
  unfold Exec.exec32
  rw [h]
  rfl

theorem exec_op (h : opcodeOf insn = 0x33) : Exec.exec env insn c =
    Exec.setResult (rdOf insn) (op t (insn >>> 25) (funct3Of insn) (c.cpu.reg.get (rs1Of insn))
      (c.cpu.reg.get (rs2Of insn))) c := by
  rw [exec_eq_exec32 (by rw [h])]
  unfold Exec.exec32
  rw [h]
  rfl

theorem exec_op32 (h : opcodeOf insn = 0x3b) : Exec.exec env insn c =
    Exec.setResult (rdOf insn) (op32 (insn >>> 25) (rs2Of insn) (funct3Of insn)
      (c.cpu.reg.get (rs1Of insn)) (c.cpu.reg.get (rs2Of insn))) c := by
  rw [exec_eq_exec32 (by rw [h])]
  unfold Exec.exec32
  rw [h]
  rfl

theorem exec_fpLoad (h : opcodeOf insn = 0x07) :
    Exec.exec env insn c = Exec.fpLoad env insn c := by
  rw [exec_eq_exec32 (by rw [h])]
  unfold Exec.exec32
  rw [h]
  rfl

theorem exec_fpStore (h : opcodeOf insn = 0x27) :
    Exec.exec env insn c = Exec.fpStore env insn c := by
  rw [exec_eq_exec32 (by rw [h])]
  unfold Exec.exec32
  rw [h]
  rfl

end

/-- What a 16-bit encoding asks of its execution: the effect of its expansion, or an
illegal instruction exception that changes nothing else. -/
def Means (env : Env t π) (c : TinyemuCore t π) (expansion : Option (BitVec 32))
    (result : Outcome Stop Flow × TinyemuCore t π) : Prop :=
  match expansion with
  | some wide => Agrees c.cpu.pc (Expansion.linkReg wide) result (Exec.exec env wide c)
  | none => result = (.err .illegalInsn, c)

/-! ## One form against another -/

section

variable {sz : Size} (rd rs1 rs2 : BitVec 5)

theorem means_value {wide : BitVec 32} {val : BitVec 64} {val' : Option (BitVec 64)}
    (hexec : Exec.exec env wide c = Exec.setResult rd val' c) (h : val' = some val) :
    Means env c (some wide) (.ok (.next 2), c.setReg rd val) := by
  show Agrees _ _ _ (Exec.exec env wide c)
  rw [hexec, h]
  exact .next (c.setReg rd val)

theorem means_lui (imm : BitVec 20) :
    Means env c (some (uType imm rd 0x37))
      (.ok (.next 2), c.setReg rd ((field imm 12).signExtend 64)) := by
  have hexec : Exec.exec env (uType imm rd 0x37) c =
      Exec.setResult rd (some ((field imm 12).signExtend 64)) c := by
    rw [exec_lui (by simp)]
    simp
  exact means_value rd hexec rfl

theorem means_opImm {imm : BitVec 12} {funct3 : BitVec 3} {val : BitVec 64}
    (h : opImm funct3.toNat (imm.signExtend 32) (c.cpu.reg.get rs1) = some val) :
    Means env c (some (iType imm rs1 funct3 rd 0x13)) (.ok (.next 2), c.setReg rd val) := by
  have hexec : Exec.exec env (iType imm rs1 funct3 rd 0x13) c =
      Exec.setResult rd (opImm funct3.toNat (imm.signExtend 32) (c.cpu.reg.get rs1)) c := by
    rw [exec_opImm (by simp)]
    simp
  exact means_value rd hexec h

theorem means_opImm32 {imm : BitVec 12} {funct3 : BitVec 3} {val : BitVec 64}
    (h : opImm32 funct3.toNat (imm.signExtend 32) (c.cpu.reg.get rs1) = some val) :
    Means env c (some (iType imm rs1 funct3 rd 0x1b)) (.ok (.next 2), c.setReg rd val) := by
  have hexec : Exec.exec env (iType imm rs1 funct3 rd 0x1b) c =
      Exec.setResult rd (opImm32 funct3.toNat (imm.signExtend 32) (c.cpu.reg.get rs1)) c := by
    rw [exec_opImm32 (by simp)]
    simp
  exact means_value rd hexec h

theorem means_op {funct7 : BitVec 7} {funct3 : BitVec 3} {val : BitVec 64}
    (h : op t (funct7.setWidth 32) funct3.toNat (c.cpu.reg.get rs1) (c.cpu.reg.get rs2) =
      some val) :
    Means env c (some (rType funct7 rs2 rs1 funct3 rd 0x33)) (.ok (.next 2), c.setReg rd val) := by
  have hexec : Exec.exec env (rType funct7 rs2 rs1 funct3 rd 0x33) c =
      Exec.setResult rd (op t (funct7.setWidth 32) funct3.toNat (c.cpu.reg.get rs1)
        (c.cpu.reg.get rs2)) c := by
    rw [exec_op (by simp)]
    simp
  exact means_value rd hexec h

theorem means_op32 {funct7 : BitVec 7} {funct3 : BitVec 3} {val : BitVec 64}
    (h : op32 (funct7.setWidth 32) rs2 funct3.toNat (c.cpu.reg.get rs1) (c.cpu.reg.get rs2) =
      some val) :
    Means env c (some (rType funct7 rs2 rs1 funct3 rd 0x3b)) (.ok (.next 2), c.setReg rd val) := by
  have hexec : Exec.exec env (rType funct7 rs2 rs1 funct3 rd 0x3b) c =
      Exec.setResult rd (op32 (funct7.setWidth 32) rs2 funct3.toNat (c.cpu.reg.get rs1)
        (c.cpu.reg.get rs2)) c := by
    rw [exec_op32 (by simp)]
    simp
  exact means_value rd hexec h

theorem means_load {funct3 : BitVec 3} {extend : BitVec 64 → BitVec 64}
    (h : Exec.loadValue funct3.toNat = some (sz, extend)) (imm : BitVec 12) :
    Means env c (some (iType imm rs1 funct3 rd 0x03))
      (Exec.cLoad env sz extend rd rs1 (imm.signExtend 32) c) := by
  show Agrees _ _ _ (Exec.exec env _ c)
  rw [exec_load (by simp)]
  unfold Exec.load
  rw [funct3Of_iType, h, rdOf_iType, rs1Of_iType, immI_iType]
  apply agrees_faulting (faulting_read _)
  intro base c
  exact agrees_faulting (faulting_targetRead _ _) fun rval c => .next (c.setReg rd (extend rval))

theorem means_store {funct3 : BitVec 3} (h : Exec.storeSize funct3.toNat = some sz)
    (imm : BitVec 12) :
    Means env c (some (sType imm rs2 rs1 funct3 0x23))
      (Exec.cStore env sz rs1 rs2 (imm.signExtend 32) c) := by
  show Agrees _ _ _ (Exec.exec env _ c)
  rw [exec_store (by simp)]
  unfold Exec.store
  rw [funct3Of_sType, h, rs1Of_sType, rs2Of_sType, immS_sType]
  exact agrees_storeInsn _ _ _

theorem means_fld (imm : BitVec 12) :
    Means env c (some (iType imm rs1 3 rd 0x07))
      (Exec.cFld env rd rs1 (imm.signExtend 32) c) := by
  show Agrees _ _ _ (Exec.exec env _ c)
  rw [exec_fpLoad (by simp)]
  unfold Exec.fpLoad
  rw [funct3Of_iType, rdOf_iType, rs1Of_iType, immI_iType]
  show Agrees _ _ ((if c.cpu.fs = 0 then Exec.illegal else _ : Exec t π Flow) c)
    ((if c.cpu.fs = 0 then Exec.illegal else _ : Exec t π Flow) c)
  by_cases hfs : c.cpu.fs = 0
  · rw [if_pos hfs, if_pos hfs]
    exact .illegal c
  · rw [if_neg hfs, if_neg hfs]
    exact agrees_faulting (faulting_targetRead _ _) fun rval c => .next _

theorem means_fsd (imm : BitVec 12) :
    Means env c (some (sType imm rs2 rs1 3 0x27))
      (Exec.cFsd env rs1 rs2 (imm.signExtend 32) c) := by
  show Agrees _ _ _ (Exec.exec env _ c)
  rw [exec_fpStore (by simp)]
  unfold Exec.fpStore
  rw [funct3Of_sType, rs1Of_sType, rs2Of_sType, immS_sType]
  show Agrees _ _ ((if c.cpu.fs = 0 then Exec.illegal else _ : Exec t π Flow) c)
    ((if c.cpu.fs = 0 then Exec.illegal else _ : Exec t π Flow) c)
  by_cases hfs : c.cpu.fs = 0
  · rw [if_pos hfs, if_pos hfs]
    exact .illegal c
  · rw [if_neg hfs, if_neg hfs]
    exact agrees_storeInsn _ _ _

theorem agrees_jumpTo (pc pc' : BitVec 64) (link : BitVec 5) :
    Agrees pc link (Exec.jumpTo pc' (c.setReg link (pc + 2)))
      (Exec.jumpTo pc' (c.setReg link (pc + 4))) :=
  .jump (c.onCpu fun s => { s with pc := pc' })

theorem means_jal {imm : BitVec 21} {offset : BitVec 32} (heven : imm.getLsbD 0 = false)
    (himm : imm.signExtend 32 = offset) :
    Means env c (some (jType imm 0 0x6f))
      (Exec.jumpTo (c.cpu.pc + offset.signExtend 64) c) := by
  show Agrees _ _ _ (Exec.exec env _ c)
  have hlink : Expansion.linkReg (jType imm 0 0x6f) = 0 := by simp [Expansion.linkReg]
  rw [hlink, exec_jal (by simp)]
  unfold Exec.jal
  rw [rdOf_jType, immJ_jType _ _ _ heven, himm]
  have hjump := agrees_jumpTo (c := c) c.cpu.pc (c.cpu.pc + offset.signExtend 64) 0
  rw [c.setReg_zero (c.cpu.pc + 2)] at hjump
  exact hjump

theorem means_jalr (link : BitVec 5) :
    Means env c (some (iType 0 rs1 0 link 0x67))
      (Exec.jumpTo (c.cpu.reg.get rs1 &&& ~~~1) (c.setReg link (c.cpu.pc + 2))) := by
  show Agrees _ _ _ (Exec.exec env _ c)
  have hlink : Expansion.linkReg (iType 0 rs1 0 link 0x67) = link := by
    simp [Expansion.linkReg]
  have hoffset (base : BitVec 64) :
      base + ((0 : BitVec 12).signExtend 32).signExtend 64 = base := by simp
  rw [hlink, exec_jalr (by simp)]
  unfold Exec.jalr
  simp only [rdOf_iType, rs1Of_iType, immI_iType, hoffset]
  exact agrees_jumpTo _ _ _

theorem branch_apply {insn : BitVec 32} {taken : Bool}
    (h : branchCond (funct3Of insn) (c.cpu.reg.get (rs1Of insn)) (c.cpu.reg.get (rs2Of insn)) =
      some taken) :
    Exec.branch insn c =
      if taken then Exec.jumpTo (c.cpu.pc + (immB insn).signExtend 64) c
      else (.ok (.next 4), c) := by
  have hreg (r : BitVec 5) : Exec.getReg r c = (.ok (c.cpu.reg.get r), c) := rfl
  unfold Exec.branch
  rw [Op.bind_ok (hreg _), Op.bind_ok (hreg _), h]
  cases taken <;> rfl

theorem means_branch {imm : BitVec 13} {offset : BitVec 32} {funct3 : BitVec 3}
    {taken : BitVec 64 → Bool} (heven : imm.getLsbD 0 = false)
    (himm : imm.signExtend 32 = offset)
    (h : ∀ val, branchCond funct3.toNat val 0 = some (taken val)) :
    Means env c (some (bType imm 0 rs1 funct3 0x63))
      ((do
        let val ← Exec.getReg rs1
        if taken val then
          let pc ← Exec.getPc
          Exec.jumpTo (pc + offset.signExtend 64)
        else Exec.cNext : Exec t π Flow) c) := by
  show Agrees _ _ ((if taken (c.cpu.reg.get rs1) then _ else Exec.cNext : Exec t π Flow) c)
    (Exec.exec env _ c)
  have hlink : Expansion.linkReg (bType imm 0 rs1 funct3 0x63) = 0 := by
    simp [Expansion.linkReg]
  have hcond : branchCond (funct3Of (bType imm 0 rs1 funct3 0x63))
      (c.cpu.reg.get (rs1Of (bType imm 0 rs1 funct3 0x63)))
      (c.cpu.reg.get (rs2Of (bType imm 0 rs1 funct3 0x63))) =
        some (taken (c.cpu.reg.get rs1)) := by
    rw [funct3Of_bType, rs1Of_bType, rs2Of_bType, Registers.get_zero]
    exact h _
  rw [hlink, exec_branch (by simp), branch_apply hcond, immB_bType _ _ _ _ _ heven, himm]
  cases taken (c.cpu.reg.get rs1) with
  | false => exact .next c
  | true =>
    have hjump := agrees_jumpTo (c := c) c.cpu.pc (c.cpu.pc + offset.signExtend 64) 0
    rw [TinyemuCore.setReg_zero, TinyemuCore.setReg_zero] at hjump
    exact hjump

end

/-! ## The quadrants -/

open Expansion

theorem and_bit_ne_zero_iff (insn : BitVec 32) {pos : Nat} (hpos : pos < 16) :
    insn &&& ((1 <<< pos : Nat) : BitVec 32) ≠ 0 ↔ (insn.setWidth 16).getLsbD pos = true := by
  have hnat := toNat_and_bit insn (show pos < 32 by omega)
  rw [BitVec.getLsbD_setWidth, decide_eq_true hpos, Bool.true_and]
  constructor
  · intro h
    cases hbit : insn.getLsbD pos with
    | true => rfl
    | false =>
      rw [hbit] at hnat
      exact absurd (BitVec.eq_of_toNat_eq hnat) h
  · intro hbit h
    rw [hbit, h] at hnat
    exact absurd hnat (Nat.two_pow_pos pos).ne

section

variable (insn : BitVec 32)

theorem means_zcb (c : TinyemuCore t π) :
    Means env c (expandZcb (insn.setWidth 16))
      (Exec.quadrant0Zcb env insn (creg (insn.setWidth 16) 2) c) := by
  have hselect : (insn >>> 10 &&& 7).toNat = ((insn.setWidth 16).extractLsb' 10 3).toNat :=
    toNat_shift_and insn (n := 3) rfl (by decide)
  have hlt := ((insn.setWidth 16).extractLsb' 10 3).isLt
  have hbit := and_bit_ne_zero_iff insn (show 6 < 16 by decide)
  unfold Exec.quadrant0Zcb expandZcb
  rw [hselect, reg3_eq insn 7 (by decide), immB_eq, half_eq]
  generalize ((insn.setWidth 16).extractLsb' 10 3).toNat = select at hlt
  interval_cases select
  · exact means_load _ _ rfl _
  · by_cases h : (insn.setWidth 16).getLsbD 6 = true
    · rw [if_pos h, if_pos (hbit.mpr h)]
      exact means_load _ _ rfl _
    · rw [if_neg h, if_neg (mt hbit.mp h)]
      exact means_load _ _ rfl _
  · exact means_store _ _ rfl _
  · show Means env c (if (insn.setWidth 16).getLsbD 6 = true then none else some _)
      ((if _ then Exec.illegal else _ : Exec t π Flow) c)
    by_cases h : (insn.setWidth 16).getLsbD 6 = true
    · rw [if_pos h, if_pos (hbit.mpr h)]
      rfl
    · rw [if_neg h, if_neg (mt hbit.mp h)]
      exact means_store _ _ rfl _
  all_goals rfl

theorem signExtend_eq_zero_iff {w : Nat} (hw : w ≤ 32) (x : BitVec w) :
    x.signExtend 32 = 0 ↔ x = 0 := by
  rw [← BitVec.toInt_inj, ← BitVec.toInt_inj, BitVec.toInt_signExtend_of_le hw]
  simp

theorem means_quadrant0 (c : TinyemuCore t π) :
    Means env c (expand0 (insn.setWidth 16)) (Exec.quadrant0 env insn c) := by
  have hlt : funct3 (insn.setWidth 16) < 8 := ((insn.setWidth 16).extractLsb' 13 3).isLt
  unfold Exec.quadrant0 expand0
  simp only [funct3Of_compressed, reg3_eq insn 2 (by decide), reg3_eq insn 7 (by decide),
    immAddi4spn_eq, immD_eq, immW_eq]
  generalize funct3 (insn.setWidth 16) = select at hlt
  interval_cases select
  · show Means env c (if spnImm (insn.setWidth 16) = 0 then none else some _)
      ((if (spnImm (insn.setWidth 16)).signExtend 32 = 0 then Exec.illegal
        else _ : Exec t π Flow) c)
    by_cases hzero : spnImm (insn.setWidth 16) = 0
    · rw [if_pos hzero, if_pos ((signExtend_eq_zero_iff (by decide) _).mpr hzero)]
      rfl
    · rw [if_neg hzero, if_neg (mt (signExtend_eq_zero_iff (by decide) _).mp hzero)]
      exact means_opImm _ _ rfl
  · exact means_fld _ _ _
  · exact means_load _ _ rfl _
  · exact means_load _ _ rfl _
  · exact means_zcb insn c
  · exact means_fsd _ _ _
  · exact means_store _ _ rfl _
  · exact means_store _ _ rfl _

theorem and_byte_mask (val : BitVec 64) :
    val &&& ((0xff : BitVec 12).signExtend 32).signExtend 64 =
      (val.setWidth 8).setWidth 64 := by
  have hmask : ((0xff : BitVec 12).signExtend 32).signExtend 64 = (0xff : BitVec 64) := by decide
  apply BitVec.eq_of_toNat_eq
  rw [hmask, BitVec.toNat_and, BitVec.toNat_setWidth, BitVec.toNat_setWidth]
  show val.toNat &&& (2 ^ 8 - 1) = _
  rw [Nat.and_two_pow_sub_one_eq_mod]
  omega

theorem means_unary (c : TinyemuCore t π) :
    Means env c (expandUnary (insn.setWidth 16))
      (Exec.zcbUnary insn (creg (insn.setWidth 16) 7) c) := by
  have hselect : (insn >>> 2 &&& 7).toNat = ((insn.setWidth 16).extractLsb' 2 3).toNat :=
    toNat_shift_and insn (n := 3) rfl (by decide)
  have hlt := ((insn.setWidth 16).extractLsb' 2 3).isLt
  unfold Exec.zcbUnary expandUnary
  rw [hselect]
  generalize ((insn.setWidth 16).extractLsb' 2 3).toNat = select at hlt
  interval_cases select
  · apply means_opImm
    exact congrArg some (and_byte_mask _)
  · exact means_opImm _ _ rfl
  · exact means_op32 _ _ _ rfl
  · exact means_opImm _ _ rfl
  · apply means_op32
    show some (zextWord _ + c.cpu.reg.get 0) = _
    rw [Registers.get_zero, add_zero]
  · apply means_opImm
    exact congrArg some BitVec.xor_allOnes
  all_goals rfl

/-- The selector that the interpreter makes of bits 5, 6 and 12. -/
theorem arith_select : ((insn >>> 5 &&& 3) ||| (insn >>> 10 &&& 4)).toNat =
    ((insn.setWidth 16).extractLsb' 5 2).toNat +
      if (insn.setWidth 16).getLsbD 12 then 4 else 0 := by
  have hlow : (insn >>> 5 &&& 3).toNat = ((insn.setWidth 16).extractLsb' 5 2).toNat :=
    toNat_shift_and insn (n := 2) rfl (by decide)
  have hhigh : (insn >>> 10 &&& 4).toNat = if (insn >>> 10).getLsbD 2 then 2 ^ 2 else 0 :=
    toNat_and_bit (insn >>> 10) (show 2 < 32 by decide)
  have hbit : (insn >>> 10).getLsbD 2 = (insn.setWidth 16).getLsbD 12 := by simp
  have hlt := ((insn.setWidth 16).extractLsb' 5 2).isLt
  show ((insn >>> 5 &&& (3 : BitVec 32)) ||| (insn >>> 10 &&& (4 : BitVec 32))).toNat = _
  rw [BitVec.toNat_or, hlow, hhigh, hbit]
  generalize ((insn.setWidth 16).extractLsb' 5 2).toNat = select at hlt
  cases (insn.setWidth 16).getLsbD 12 with
  | false => simp
  | true => interval_cases select <;> rfl

theorem means_arith (c : TinyemuCore t π) :
    Means env c (expandArith (insn.setWidth 16))
      (Exec.quadrant1Arith insn (creg (insn.setWidth 16) 7) c) := by
  have hselect : ((insn >>> 5 &&& 3) ||| (insn >>> 10 &&& 4)).toNat =
      ((insn.setWidth 16).extractLsb' 5 2).toNat +
        if (insn.setWidth 16).getLsbD 12 then 4 else 0 := arith_select insn
  have hlt := ((insn.setWidth 16).extractLsb' 5 2).isLt
  unfold Exec.quadrant1Arith expandArith
  rw [hselect, reg3_eq insn 2 (by decide)]
  generalize ((insn.setWidth 16).extractLsb' 5 2).toNat = select at hlt
  cases (insn.setWidth 16).getLsbD 12 with
  | false =>
    interval_cases select
    · exact means_op _ _ _ rfl
    · exact means_op _ _ _ rfl
    · exact means_op _ _ _ rfl
    · exact means_op _ _ _ rfl
  | true =>
    interval_cases select
    · exact means_op32 _ _ _ rfl
    · exact means_op32 _ _ _ rfl
    · exact means_op _ _ _ rfl
    · exact means_unary insn c

theorem signExtend_signExtend {u v w : Nat} (huv : u ≤ v) (hvw : v ≤ w) (x : BitVec u) :
    (x.signExtend v).signExtend w = x.signExtend w := by
  apply BitVec.eq_of_toInt_eq
  rw [BitVec.toInt_signExtend_of_le hvw, BitVec.toInt_signExtend_of_le huv,
    BitVec.toInt_signExtend_of_le (Nat.le_trans huv hvw)]

/-- `c.addiw` of `x0` and a zero `c.lui` of `x0`. -/
def runsReserved1 (half : BitVec 16) : Prop :=
  rd half = 0 ∧ (funct3 half = 1 ∨ funct3 half = 3 ∧ imm6 half = 0)

theorem field_eq_zero_iff : ∀ imm : BitVec 6, field (imm.signExtend 20) 12 = 0 ↔ imm = 0 := by
  decide

theorem isMop_iff : ∀ rd : BitVec 5,
    (rd &&& 1 = 0 ∨ rd > 15) ↔ ¬(rd.getLsbD 0 ∧ rd.getLsbD 4 = false) := by
  decide

/-- `c.lui` and `c.mop.n`. -/
theorem means_luiOrMop (c : TinyemuCore t π) {rd : BitVec 5} {imm : BitVec 6}
    (h : ¬(rd = 0 ∧ imm = 0)) :
    Means env c
      (if imm ≠ 0 then some (uType (imm.signExtend 20) rd 0x37)
        else if rd.getLsbD 0 ∧ rd.getLsbD 4 = false then some (iType 0 0 0 0 0x13)
        else none)
      ((if rd ≠ 0 then
        if field (imm.signExtend 20) 12 = 0 then
          if rd &&& 1 = 0 ∨ rd > 15 then Exec.illegal else Exec.cNext
        else Exec.cUnary rd fun _ => (field (imm.signExtend 20) 12).signExtend 64
      else Exec.cNext : Exec t π Flow) c) := by
  by_cases hrd : rd = 0
  · have himm : imm ≠ 0 := fun himm => h ⟨hrd, himm⟩
    have hlui : Means env c (some (uType (imm.signExtend 20) 0 0x37))
        (.ok (.next 2), c.setReg 0 ((field (imm.signExtend 20) 12).signExtend 64)) :=
      means_lui 0 (imm.signExtend 20)
    rw [c.setReg_zero] at hlui
    rw [if_pos himm, if_neg (not_not.mpr hrd), hrd]
    exact hlui
  · rw [if_pos hrd]
    by_cases himm : imm = 0
    · rw [if_neg (not_not.mpr himm), if_pos ((field_eq_zero_iff imm).mpr himm)]
      by_cases hmop : rd.getLsbD 0 ∧ rd.getLsbD 4 = false
      · have hnop : Means env c (some (iType 0 0 0 0 0x13)) (.ok (.next 2), c.setReg 0 0) := by
          apply means_opImm
          rw [Registers.get_zero]
          rfl
        rw [if_pos hmop, if_neg (fun hslot => (isMop_iff rd).mp hslot hmop)]
        rw [c.setReg_zero] at hnop
        exact hnop
      · rw [if_neg hmop, if_pos ((isMop_iff rd).mpr hmop)]
        rfl
    · rw [if_pos himm, if_neg (mt (field_eq_zero_iff imm).mp himm)]
      exact means_lui _ _

theorem means_luiForm (c : TinyemuCore t π) {half : BitVec 16}
    (h : ¬(rd half = 0 ∧ imm6 half = 0)) :
    Means env c (expandLui half)
      ((if rd half = 2 then
        if (sp16Imm half).signExtend 32 = 0 then Exec.illegal
        else Exec.cUnary 2 fun val => val + ((sp16Imm half).signExtend 32).signExtend 64
      else if rd half ≠ 0 then
        if field ((imm6 half).signExtend 20) 12 = 0 then
          if rd half &&& 1 = 0 ∨ rd half > 15 then Exec.illegal else Exec.cNext
        else Exec.cUnary (rd half) fun _ => (field ((imm6 half).signExtend 20) 12).signExtend 64
      else Exec.cNext : Exec t π Flow) c) := by
  unfold expandLui
  by_cases hsp : rd half = 2
  · rw [if_pos hsp, if_pos hsp]
    by_cases hzero : sp16Imm half = 0
    · rw [if_pos hzero, if_pos ((signExtend_eq_zero_iff (by decide) _).mpr hzero)]
      rfl
    · rw [if_neg hzero, if_neg (mt (signExtend_eq_zero_iff (by decide) _).mp hzero)]
      apply means_opImm
      rw [signExtend_signExtend (by decide) (by decide)]
      rfl
  · rw [if_neg hsp, if_neg hsp]
    exact means_luiOrMop c h

/-- A shift amount in the immediate of a shift. -/
theorem shamt_facts : ∀ shamt : BitVec 6,
    (shamt.setWidth 12).signExtend 32 &&& ~~~63 = 0 ∧
      (shamt.setWidth 12).signExtend 32 &&& ~~~(63 ||| 0x400) = 0 ∧
      (shamt.setWidth 12).signExtend 32 &&& 0x400 = 0 ∧
      ((shamt.setWidth 12).signExtend 32 &&& 63).toNat = (shamt.setWidth 32).toNat := by
  decide

theorem sra_facts : ∀ shamt : BitVec 6,
    (shamt.setWidth 12 ||| 0x400).signExtend 32 &&& ~~~(63 ||| 0x400) = 0 ∧
      (shamt.setWidth 12 ||| 0x400).signExtend 32 &&& 0x400 ≠ 0 ∧
      ((shamt.setWidth 12 ||| 0x400).signExtend 32 &&& 63).toNat = (shamt.setWidth 32).toNat := by
  decide

theorem opImm_slli (shamt : BitVec 6) (val : BitVec 64) :
    opImm 1 ((shamt.setWidth 12).signExtend 32) val =
      some (val <<< (shamt.setWidth 32).toNat) := by
  obtain ⟨hgroup, _, _, hshamt⟩ := shamt_facts shamt
  simp only [opImm]
  rw [if_pos hgroup, hshamt]

theorem opImm_srli (shamt : BitVec 6) (val : BitVec 64) :
    opImm 5 ((shamt.setWidth 12).signExtend 32) val =
      some (val >>> (shamt.setWidth 32).toNat) := by
  obtain ⟨_, hgroup, hlogical, hshamt⟩ := shamt_facts shamt
  simp only [opImm]
  rw [if_pos hgroup, if_neg (not_not.mpr hlogical), hshamt]

theorem opImm_srai (shamt : BitVec 6) (val : BitVec 64) :
    opImm 5 ((shamt.setWidth 12 ||| 0x400).signExtend 32) val =
      some (val.sshiftRight (shamt.setWidth 32).toNat) := by
  obtain ⟨hgroup, harith, hshamt⟩ := sra_facts shamt
  simp only [opImm]
  rw [if_pos hgroup, if_pos harith, hshamt]

theorem means_quadrant1 (c : TinyemuCore t π) (h : ¬ runsReserved1 (insn.setWidth 16)) :
    Means env c (expand1 (insn.setWidth 16)) (Exec.quadrant1 insn c) := by
  have hlt : funct3 (insn.setWidth 16) < 8 := ((insn.setWidth 16).extractLsb' 13 3).isLt
  have himm := signExtend_signExtend (v := 12) (w := 32) (by decide) (by decide)
    (imm6 (insn.setWidth 16))
  unfold Exec.quadrant1 expand1 Exec.cBranch
  simp only [funct3Of_compressed, rdOf_eq, sext_imm6_eq, reg3_eq insn 7 (by decide), immJ_eq,
    immAddi16sp_eq, immLui_eq, immBranch_eq]
  simp only [imm6_eq]
  generalize hselect : funct3 (insn.setWidth 16) = select at hlt
  unfold runsReserved1 at h
  rw [hselect] at h
  interval_cases select
  · apply means_opImm
    rw [himm]
    rfl
  · have hrd : rd (insn.setWidth 16) ≠ 0 := fun hrd => h ⟨hrd, .inl rfl⟩
    show Means env c (if rd (insn.setWidth 16) = 0 then none else some _) _
    rw [if_neg hrd]
    apply means_opImm32
    rw [himm]
    rfl
  · apply means_opImm
    rw [himm]
    show some (c.cpu.reg.get 0 + _) = _
    rw [Registers.get_zero, zero_add]
  · exact means_luiForm c fun hzero => h ⟨hzero.1, .inr ⟨rfl, hzero.2⟩⟩
  · have hsub : (insn >>> 10 &&& 3).toNat = ((insn.setWidth 16).extractLsb' 10 2).toNat :=
      toNat_shift_and insn (n := 2) rfl (by decide)
    have hlt := ((insn.setWidth 16).extractLsb' 10 2).isLt
    have harith : Means env c (expandArith (insn.setWidth 16))
        (Exec.quadrant1Arith insn (creg (insn.setWidth 16) 7) c) := means_arith insn c
    simp only [hsub]
    generalize ((insn.setWidth 16).extractLsb' 10 2).toNat = sub at hlt
    interval_cases sub
    · exact means_opImm _ _ (opImm_srli _ _)
    · exact means_opImm _ _ (opImm_srai _ _)
    · apply means_opImm
      rw [himm]
      rfl
    · exact harith
  · exact means_jal (jump_even _) (signExtend_signExtend (by decide) (by decide) _)
  · apply means_branch _ (branch_even _) (signExtend_signExtend (by decide) (by decide) _)
    intro val
    simp [branchCond]
  · apply means_branch _ (branch_even _) (signExtend_signExtend (by decide) (by decide) _)
    intro val
    simp [branchCond]

theorem privileged_ebreak :
    Exec.privileged (t := t) (π := π) 0x00100073 c = Exec.raise causeBreakpoint c := by
  have himm : ((0x00100073 : BitVec 32) >>> 20).toNat = 1 := by decide
  have hclean : decide ((0x00100073 : BitVec 32) &&& 0x000fff80 = 0) = true := by decide
  unfold Exec.privileged
  rw [himm, hclean]
  rfl

theorem means_ebreak :
    Means env c (some (iType 1 0 0 0 0x73)) (Exec.raise causeBreakpoint c) := by
  have hword : iType 1 0 0 0 0x73 = 0x00100073 := by decide
  have hsystem : Exec.system (iType 1 0 0 0 0x73) c =
      (Exec.privileged (iType 1 0 0 0 0x73) c : Outcome Stop Flow × TinyemuCore t π) := by
    unfold Exec.system
    rw [funct3Of_iType]
    rfl
  show Agrees _ _ _ (Exec.exec env _ c)
  rw [exec_eq_exec32 (by simp)]
  unfold Exec.exec32
  rw [opcodeOf_iType]
  show Agrees _ _ _ (Exec.system (iType 1 0 0 0 0x73) c)
  rw [hsystem, hword, privileged_ebreak]
  exact .exception _

theorem and_one_eq_zero_iff :
    insn >>> 12 &&& 1 = 0 ↔ ¬((insn.setWidth 16).getLsbD 12 = true) := by
  have hmove : (insn >>> 12).getLsbD 0 = (insn.setWidth 16).getLsbD 12 := by simp
  have hnat : (insn >>> 12 &&& 1).toNat = if (insn >>> 12).getLsbD 0 then 2 ^ 0 else 0 :=
    toNat_and_bit (insn >>> 12) (show 0 < 32 by decide)
  rw [hmove] at hnat
  rw [← BitVec.toNat_inj, hnat]
  cases (insn.setWidth 16).getLsbD 12 <;> simp

/-- `c.jr`, `c.mv`, `c.ebreak`, `c.jalr` and `c.add`. -/
theorem means_jump (c : TinyemuCore t π) :
    Means env c (expandJump (insn.setWidth 16)) (Exec.quadrant2Jump insn c) := by
  unfold Exec.quadrant2Jump expandJump
  rw [rdOf_eq, rs2Field_eq]
  generalize rd (insn.setWidth 16) = rd
  generalize rs2 (insn.setWidth 16) = rs2
  show Means env c _ ((if insn >>> 12 &&& 1 = 0 then
    if rs2 = 0 then if rd = 0 then Exec.illegal else _ else _
    else if rs2 = 0 then if rd = 0 then Exec.raise causeBreakpoint else _ else _ :
      Exec t π Flow) c)
  by_cases hbit : (insn.setWidth 16).getLsbD 12 = true
  · rw [if_pos hbit, if_neg (fun h => (and_one_eq_zero_iff insn).mp h hbit)]
    by_cases hrs2 : rs2 = 0
    · rw [if_pos hrs2, if_pos hrs2]
      by_cases hrd : rd = 0
      · rw [if_pos hrd, if_pos hrd]
        exact means_ebreak
      · rw [if_neg hrd, if_neg hrd]
        exact means_jalr _ _
    · rw [if_neg hrs2, if_neg hrs2]
      exact means_op _ _ _ rfl
  · rw [if_neg hbit, if_pos ((and_one_eq_zero_iff insn).mpr hbit)]
    by_cases hrs2 : rs2 = 0
    · rw [if_pos hrs2, if_pos hrs2]
      by_cases hrd : rd = 0
      · rw [if_pos hrd, if_pos hrd]
        rfl
      · have hjr : Means env c (some (iType 0 rd 0 0 0x67))
            (Exec.jumpTo (c.cpu.reg.get rd &&& ~~~1) c) := by
          have hjalr : Means env c (some (iType 0 rd 0 0 0x67))
              (Exec.jumpTo (c.cpu.reg.get rd &&& ~~~1) (c.setReg 0 (c.cpu.pc + 2))) :=
            means_jalr rd 0
          rw [c.setReg_zero] at hjalr
          exact hjalr
        rw [if_neg hrd, if_neg hrd]
        exact hjr
    · rw [if_neg hrs2, if_neg hrs2]
      apply means_op
      rw [Registers.get_zero]
      exact congrArg some (zero_add _)

/-- `c.lwsp` and `c.ldsp` of `x0`. -/
def runsReserved2 (half : BitVec 16) : Prop :=
  rd half = 0 ∧ (funct3 half = 2 ∨ funct3 half = 3)

theorem means_quadrant2 (c : TinyemuCore t π) (h : ¬ runsReserved2 (insn.setWidth 16)) :
    Means env c (expand2 (insn.setWidth 16)) (Exec.quadrant2 env insn c) := by
  have hlt : funct3 (insn.setWidth 16) < 8 := ((insn.setWidth 16).extractLsb' 13 3).isLt
  unfold Exec.quadrant2 expand2
  simp only [funct3Of_compressed, rdOf_eq, shamt_eq, immLdsp_eq, immLwsp_eq, immSdsp_eq,
    immSwsp_eq]
  simp only [rs2Field_eq]
  generalize hselect : funct3 (insn.setWidth 16) = select at hlt
  unfold runsReserved2 at h
  rw [hselect] at h
  interval_cases select
  · exact means_opImm _ _ (opImm_slli _ _)
  · exact means_fld _ _ _
  · have hrd : rd (insn.setWidth 16) ≠ 0 := fun hrd => h ⟨hrd, .inl rfl⟩
    show Means env c (if rd (insn.setWidth 16) = 0 then none else some _) _
    rw [if_neg hrd]
    exact means_load _ _ rfl _
  · have hrd : rd (insn.setWidth 16) ≠ 0 := fun hrd => h ⟨hrd, .inr rfl⟩
    show Means env c (if rd (insn.setWidth 16) = 0 then none else some _) _
    rw [if_neg hrd]
    exact means_load _ _ rfl _
  · exact means_jump insn c
  · exact means_fsd _ _ _
  · exact means_store _ _ rfl _
  · exact means_store _ _ rfl _

end

/-! ## Every encoding -/

/-- A word that the fetch gives for a 16-bit instruction: the instruction, with the code
after it in the upper half. -/
structure Encoding where
  insn : BitVec 32
  compressed : (insn.setWidth 16).extractLsb' 0 2 ≠ 3

def Encoding.half (e : Encoding) : BitVec 16 := e.insn.setWidth 16

/-- The encodings that the tables reserve and the interpreter executes: `c.addiw`, `c.lwsp`
and `c.ldsp` of `x0`, and the zero `c.lui` of `x0`. -/
def RunsReserved (half : BitVec 16) : Prop :=
  half.extractLsb' 0 2 = 1 ∧ runsReserved1 half ∨
    half.extractLsb' 0 2 = 2 ∧ runsReserved2 half

theorem toNat_and_three (insn : BitVec 32) :
    (insn &&& 3).toNat = ((insn.setWidth 16).extractLsb' 0 2).toNat := by
  have hshift : (insn >>> 0 &&& 3).toNat = ((insn.setWidth 16).extractLsb' 0 2).toNat :=
    toNat_shift_and insn (n := 2) rfl (by decide)
  simpa using hshift

theorem means_exec (c : TinyemuCore t π) (insn : BitVec 32)
    (hcompressed : (insn.setWidth 16).extractLsb' 0 2 ≠ 3)
    (h : ¬RunsReserved (insn.setWidth 16)) :
    Means env c (expand (insn.setWidth 16)) (Exec.exec env insn c) := by
  have hselect : (insn &&& 3).toNat = ((insn.setWidth 16).extractLsb' 0 2).toNat :=
    toNat_and_three insn
  have hlt := ((insn.setWidth 16).extractLsb' 0 2).isLt
  unfold RunsReserved at h
  unfold Exec.exec expand
  rw [hselect]
  rcases hquadrant : ((insn.setWidth 16).extractLsb' 0 2).toNat with _ | _ | _ | _ | n
  · exact means_quadrant0 insn c
  · apply means_quadrant1 insn c
    exact fun hruns => h (.inl ⟨BitVec.eq_of_toNat_eq hquadrant, hruns⟩)
  · apply means_quadrant2 insn c
    exact fun hruns => h (.inr ⟨BitVec.eq_of_toNat_eq hquadrant, hruns⟩)
  · exact absurd (BitVec.eq_of_toNat_eq hquadrant) hcompressed
  · omega

theorem faulting_cLoad (sz : Size) (extend : BitVec 64 → BitVec 64) (rd rs1 : BitVec 5)
    (offset : BitVec 32) : Faulting (Exec.cLoad env sz extend rd rs1 offset) :=
  (faulting_read _).bind fun _ => (faulting_targetRead _ _).bind fun _ =>
    (faulting_update _).bind fun _ => faulting_pure _

theorem Faulting.ne_illegal {α : Type} {x : Exec t π α} (hx : Faulting x)
    (c c' : TinyemuCore t π) : x c ≠ (.err .illegalInsn, c') := by
  intro h
  have hc := hx c
  rw [h] at hc
  rcases hc with ⟨a, ha⟩ | he
  · cases ha
  · cases he

/-- The encodings of `RunsReserved` have no expansion, and none of them is illegal. -/
theorem not_means_of_runsReserved (c : TinyemuCore t π) (insn : BitVec 32)
    (h : RunsReserved (insn.setWidth 16)) :
    ¬Means env c (expand (insn.setWidth 16)) (Exec.exec env insn c) := by
  have hselect : (insn &&& 3).toNat = ((insn.setWidth 16).extractLsb' 0 2).toNat :=
    toNat_and_three insn
  unfold Exec.exec expand
  rw [hselect]
  rcases h with ⟨hquadrant, hrd, hform⟩ | ⟨hquadrant, hrd, hform⟩
  · rw [hquadrant]
    show ¬Means env c (expand1 (insn.setWidth 16)) (Exec.quadrant1 insn c)
    unfold expand1 Exec.quadrant1
    rw [funct3Of_compressed, rdOf_eq]
    rcases hform with hselect | ⟨hselect, hzero⟩
    · rw [hselect]
      show ¬Means env c (if rd (insn.setWidth 16) = 0 then none else some _) _
      rw [if_pos hrd]
      intro hmeans
      cases hmeans
    · have hne : rd (insn.setWidth 16) ≠ 2 := by
        rw [hrd]
        decide
      rw [hselect]
      show ¬Means env c (expandLui (insn.setWidth 16))
        ((if rd (insn.setWidth 16) = 2 then _ else if rd (insn.setWidth 16) ≠ 0 then _
          else Exec.cNext : Exec t π Flow) c)
      unfold expandLui
      rw [if_neg hne, if_neg hne, if_neg (not_not.mpr hrd), if_neg (not_not.mpr hzero), hrd]
      intro hmeans
      cases hmeans
  · rw [hquadrant]
    show ¬Means env c (expand2 (insn.setWidth 16)) (Exec.quadrant2 env insn c)
    unfold expand2 Exec.quadrant2
    rw [funct3Of_compressed]
    rcases hform with hselect | hselect <;>
    · rw [hselect]
      show ¬Means env c (if rd (insn.setWidth 16) = 0 then none else some _) _
      rw [if_pos hrd]
      exact (faulting_cLoad _ _ _ _ _).ne_illegal c c

/-- A 16-bit instruction has the effect of its expansion, or is illegal where it is
reserved, except for the reserved encodings that run. -/
theorem Encoding.means_expand_iff (env : Env t π) (c : TinyemuCore t π) (e : Encoding) :
    Means env c (expand e.half) (Exec.exec env e.insn c) ↔ ¬RunsReserved e.half :=
  ⟨fun hmeans hruns => not_means_of_runsReserved c e.insn hruns hmeans,
    means_exec c e.insn e.compressed⟩

/-- `c.addiw x0, 1`. -/
def addiwZero : Encoding where
  insn := 0x2005
  compressed := by decide

/-- `c.addiw x0, 1` is reserved, and retires. -/
theorem not_means_addiwZero : ¬Means (bareEnv .native64) (bareCore .native64)
    (expand addiwZero.half) (Exec.exec (bareEnv .native64) addiwZero.insn
      (bareCore .native64)) := by
  have hruns : RunsReserved addiwZero.half := .inl ⟨by decide, by decide, .inl (by decide)⟩
  exact not_means_of_runsReserved _ _ hruns

end

end Cpu
end Riscbox
