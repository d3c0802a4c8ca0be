import Riscbox.Cpu.Effects

/-!
# What a step of the interpreter can do
-/

namespace Riscbox
namespace Cpu

variable {t : Target} {π : Type} {env : Env t π}

/-! ## The 32-bit instructions -/

theorem touching_setResult (rd : BitVec 5) (val : Option (BitVec 64)) :
    Touching env (Exec.setResult rd val) := by
  cases val with
  | none => exact touching_illegal
  | some val => exact (touching_setReg _ _).bind fun _ => touching_pure _

theorem touching_load (insn : BitVec 32) : Touching env (Exec.load env insn) := by
  apply (touching_getReg _).bind
  intro base
  cases Exec.loadValue (funct3Of insn) with
  | none => exact touching_illegal
  | some found =>
    exact (touching_targetRead _ _).bind fun _ => (touching_setReg _ _).bind fun _ =>
      touching_pure _

theorem touching_store' (insn : BitVec 32) : Touching env (Exec.store env insn) := by
  apply (touching_getReg _).bind
  intro base
  apply (touching_getReg _).bind
  intro val
  cases Exec.storeSize (funct3Of insn) with
  | none => exact touching_illegal
  | some sz => exact (touching_storeInsn _ _ _ _).bind fun _ => touching_pure _

theorem touching_jal (insn : BitVec 32) : Touching env (Exec.jal insn) :=
  touching_getPc.bind fun _ => (touching_setReg _ _).bind fun _ => touching_jumpTo _

theorem touching_jalr (insn : BitVec 32) : Touching env (Exec.jalr insn) :=
  touching_getPc.bind fun _ => (touching_getReg _).bind fun _ =>
    (touching_setReg _ _).bind fun _ => touching_jumpTo _

theorem touching_branch (insn : BitVec 32) : Touching env (Exec.branch insn) := by
  apply (touching_getReg _).bind
  intro a
  apply (touching_getReg _).bind
  intro b
  rcases branchCond (funct3Of insn) a b with _ | _ | _
  · exact touching_illegal
  · exact touching_pure _
  · exact touching_getPc.bind fun _ => touching_jumpTo _

theorem touching_loadReserved (sz : Size) (extend : BitVec 64 → BitVec 64)
    (insn : BitVec 32) : Touching env (Exec.loadReserved env sz extend insn) := by
  apply (touching_getReg _).bind
  intro addr
  apply touching_ite
  · exact fun _ => touching_illegal
  intro _
  apply touching_ite
  · exact fun _ => touching_fault _ _
  intro _
  apply (touching_targetRead _ _).bind
  intro rval
  apply Touching.bind
  · exact touching_update fun _ => rfl
  · exact fun _ => (touching_setReg _ _).bind fun _ => touching_pure _

theorem touching_storeConditional (sz : Size) (insn : BitVec 32) :
    Touching env (Exec.storeConditional env sz insn) := by
  apply (touching_getReg _).bind
  intro addr
  apply touching_ite
  · exact fun _ => touching_fault _ _
  intro _
  apply (touching_read _).bind
  intro reserved
  have hend : ∀ u : Unit, Touching env (do
      Exec.update fun s => { s with loadResValid := false }
      Exec.setReg (rdOf insn) (if reserved then 0 else 1)
      return Flow.next 4 : Exec t π Flow) := by
    intro _
    apply Touching.bind
    · exact touching_update fun _ => rfl
    · exact fun _ => (touching_setReg _ _).bind fun _ => touching_pure _
  apply touching_ite
  · intro _
    apply (touching_getReg _).bind
    intro val
    exact (touching_storeInsn _ _ _ _).bind hend
  · intro _
    exact (touching_targetWriteCheck _).bind hend

theorem touching_amo (sz : Size) (extend : BitVec 64 → BitVec 64) (insn : BitVec 32) :
    Touching env (Exec.amo env sz extend insn) := by
  apply (touching_getReg _).bind
  intro addr
  apply touching_ite
  · exact fun _ => touching_illegal
  intro _
  apply touching_ite
  · exact fun _ => touching_fault _ _
  intro _
  apply (touching_targetRead _ _).bind
  intro rval
  apply (touching_getReg _).bind
  intro val2
  cases amoValue (insn >>> 27).toNat (rval.setWidth (8 * sz.bytes))
      (val2.setWidth (8 * sz.bytes)) with
  | none => exact touching_illegal
  | some new =>
    exact (touching_storeInsn _ _ _ _).bind fun _ => (touching_setReg _ _).bind fun _ =>
      touching_pure _

theorem touching_atomic (insn : BitVec 32) : Touching env (Exec.atomic env insn) := by
  unfold Exec.atomic
  dsimp only
  split
  · split
    · exact touching_loadReserved _ _ _
    · exact touching_storeConditional _ _
    · exact touching_amo _ _ _
  · split
    · exact touching_loadReserved _ _ _
    · exact touching_storeConditional _ _
    · exact touching_amo _ _ _
  · exact touching_illegal

theorem touching_fpLoad (insn : BitVec 32) : Touching env (Exec.fpLoad env insn) := by
  apply (touching_read _).bind
  intro fs
  apply (touching_getReg _).bind
  intro base
  apply touching_ite
  · exact fun _ => touching_illegal
  intro _
  split
  · apply (touching_targetRead _ _).bind
    intro rval
    apply Touching.bind
    · exact touching_update fun _ => rfl
    · exact fun _ => touching_pure _
  · apply (touching_targetRead _ _).bind
    intro rval
    apply Touching.bind
    · exact touching_update fun _ => rfl
    · exact fun _ => touching_pure _
  · exact touching_illegal

theorem touching_fpStore (insn : BitVec 32) : Touching env (Exec.fpStore env insn) := by
  apply (touching_read _).bind
  intro fs
  apply (touching_getReg _).bind
  intro base
  apply (touching_read _).bind
  intro val
  apply touching_ite
  · exact fun _ => touching_illegal
  intro _
  split
  · exact (touching_storeInsn _ _ _ _).bind fun _ => touching_pure _
  · exact (touching_storeInsn _ _ _ _).bind fun _ => touching_pure _
  · exact touching_illegal

theorem touching_fpArith (insn : BitVec 32) : Touching env (Exec.fpArith env insn) := by
  intro c
  show Touches env c (Exec.fpArith env insn c).2
  unfold Exec.fpArith
  dsimp only
  by_cases hfs : c.cpu.fs = 0
  · rw [if_pos hfs]
    exact touches_refl c
  rw [if_neg hfs]
  cases env.fpu insn c.cpu.reg c.cpu.fpReg c.cpu.frm c.cpu.fflags with
  | none => exact touches_refl c
  | some result =>
    obtain ⟨reg, fpReg, fflags, dirty⟩ := result
    dsimp only
    apply Touch.touches
    apply Touch.quiet
    rfl

theorem touching_cbo (insn : BitVec 32) : Touching env (Exec.cbo env insn) := by
  apply (touching_read _).bind
  intro s
  apply touching_ite
  · exact fun _ => touching_illegal
  intro _
  apply touching_translated (touching_fault _ _) (touching_fault _ _)
  intro c paddr c₁ h
  dsimp only
  cases hrange : physRamAccessOk env.map paddr 64 with
  | none => exact touches_trans _ _ _ (touches_translated h) (touching_fault _ _ c₁)
  | some found =>
    obtain ⟨i, pr⟩ := found
    dsimp only
    by_cases himm : (insn >>> 20).toNat = 4
    · rw [if_pos himm] at h ⊢
      by_cases hrom : pr.isRom = true
      · rw [if_pos hrom]
        exact touches_trans _ _ _ (touches_translated h) (touching_fault _ _ c₁)
      · rw [if_neg hrom]
        have halign : (s.reg.get (rs1Of insn) &&& ~~~63) &&& 63 = 0 := by
          rw [BitVec.and_assoc]
          exact BitVec.and_zero
        exact (Touch.zero halign h hrange).touches
    · rw [if_neg himm] at h ⊢
      exact touches_translated h

theorem touching_miscMem (insn : BitVec 32) : Touching env (Exec.miscMem env insn) := by
  unfold Exec.miscMem
  split
  · exact touching_ite (fun _ => touching_pure _) fun _ => touching_illegal
  · exact touching_ite (fun _ => touching_pure _) fun _ => touching_illegal
  · exact touching_cbo _
  · exact touching_illegal

/-- Every 32-bit instruction but those of the `SYSTEM` opcode. -/
theorem touching_exec32 {insn : BitVec 32} (h : opcodeOf insn ≠ 0x73) :
    Touching env (Exec.exec32 env insn) := by
  apply (touching_getReg _).bind
  intro val
  apply (touching_getReg _).bind
  intro val2
  split
  · exact touching_setResult _ _
  · exact touching_getPc.bind fun _ => touching_setResult _ _
  · exact touching_jal _
  · exact touching_jalr _
  · exact touching_branch _
  · exact touching_load _
  · exact touching_store' _
  · exact touching_setResult _ _
  · exact touching_setResult _ _
  · exact touching_setResult _ _
  · exact touching_setResult _ _
  next hsystem => exact absurd hsystem h
  · exact touching_miscMem _
  · exact touching_atomic _
  · exact touching_fpLoad _
  · exact touching_fpStore _
  · exact touching_fpArith _
  · exact touching_fpArith _
  · exact touching_fpArith _
  · exact touching_fpArith _
  · exact touching_fpArith _
  · exact touching_illegal

/-! ## The 16-bit instructions -/

theorem touching_cNext : Touching env (Exec.cNext : Exec t π Flow) := touching_pure _

theorem touching_cLoad (sz : Size) (extend : BitVec 64 → BitVec 64) (rd rs1 : BitVec 5)
    (offset : BitVec 32) : Touching env (Exec.cLoad env sz extend rd rs1 offset) :=
  (touching_getReg _).bind fun _ => (touching_targetRead _ _).bind fun _ =>
    (touching_setReg _ _).bind fun _ => touching_cNext

theorem touching_cStore (sz : Size) (rs1 rs2 : BitVec 5) (offset : BitVec 32) :
    Touching env (Exec.cStore env sz rs1 rs2 offset) :=
  (touching_getReg _).bind fun _ => (touching_getReg _).bind fun _ =>
    (touching_storeInsn _ _ _ _).bind fun _ => touching_cNext

theorem touching_cFld (rd rs1 : BitVec 5) (offset : BitVec 32) :
    Touching env (Exec.cFld env rd rs1 offset) := by
  apply (touching_read _).bind
  intro fs
  apply touching_ite
  · exact fun _ => touching_illegal
  intro _
  apply (touching_getReg _).bind
  intro base
  apply (touching_targetRead _ _).bind
  intro rval
  apply Touching.bind
  · exact touching_update fun _ => rfl
  · exact fun _ => touching_cNext

theorem touching_cFsd (rs1 rs2 : BitVec 5) (offset : BitVec 32) :
    Touching env (Exec.cFsd env rs1 rs2 offset) := by
  apply (touching_read _).bind
  intro fs
  apply touching_ite
  · exact fun _ => touching_illegal
  intro _
  exact (touching_getReg _).bind fun _ => (touching_read _).bind fun _ =>
    (touching_storeInsn _ _ _ _).bind fun _ => touching_cNext

theorem touching_quadrant0Zcb (insn : BitVec 32) (rd : BitVec 5) :
    Touching env (Exec.quadrant0Zcb env insn rd) := by
  unfold Exec.quadrant0Zcb
  dsimp only
  split
  · exact touching_cLoad _ _ _ _ _
  · exact touching_ite (fun _ => touching_cLoad _ _ _ _ _) fun _ => touching_cLoad _ _ _ _ _
  · exact touching_cStore _ _ _ _
  · exact touching_ite (fun _ => touching_illegal) fun _ => touching_cStore _ _ _ _
  · exact touching_illegal

theorem touching_quadrant0 (insn : BitVec 32) : Touching env (Exec.quadrant0 env insn) := by
  unfold Exec.quadrant0
  dsimp only
  split
  · apply touching_ite
    · exact fun _ => touching_illegal
    · exact fun _ => (touching_getReg _).bind fun _ => (touching_setReg _ _).bind fun _ =>
        touching_cNext
  · exact touching_cFld _ _ _
  · exact touching_cLoad _ _ _ _ _
  · exact touching_cLoad _ _ _ _ _
  · exact touching_quadrant0Zcb _ _
  · exact touching_cFsd _ _ _
  · exact touching_cStore _ _ _ _
  · exact touching_cStore _ _ _ _

theorem touching_cUnary (rd : BitVec 5) (f : BitVec 64 → BitVec 64) :
    Touching env (Exec.cUnary rd f) :=
  (touching_getReg _).bind fun _ => (touching_setReg _ _).bind fun _ => touching_cNext

theorem touching_cBinary (rd rs2 : BitVec 5) (f : BitVec 64 → BitVec 64 → BitVec 64) :
    Touching env (Exec.cBinary rd rs2 f) :=
  (touching_getReg _).bind fun _ => (touching_getReg _).bind fun _ =>
    (touching_setReg _ _).bind fun _ => touching_cNext

theorem touching_zcbUnary (insn : BitVec 32) (rd : BitVec 5) :
    Touching env (Exec.zcbUnary insn rd) := by
  unfold Exec.zcbUnary
  split
  iterate 6 exact touching_cUnary _ _
  exact touching_illegal

theorem touching_quadrant1Arith (insn : BitVec 32) (rd : BitVec 5) :
    Touching env (Exec.quadrant1Arith insn rd) := by
  unfold Exec.quadrant1Arith
  dsimp only
  split
  iterate 7 exact touching_cBinary _ _ _
  exact touching_zcbUnary _ _

theorem touching_cBranch (insn : BitVec 32) (taken : BitVec 64 → Bool) :
    Touching env (Exec.cBranch insn taken) := by
  apply (touching_getReg _).bind
  intro val
  apply touching_ite
  · exact fun _ => touching_getPc.bind fun _ => touching_jumpTo _
  · exact fun _ => touching_cNext

theorem touching_quadrant1 (insn : BitVec 32) : Touching env (Exec.quadrant1 insn) := by
  unfold Exec.quadrant1
  dsimp only
  split
  · exact touching_cUnary _ _
  · exact touching_cUnary _ _
  · exact touching_cUnary _ _
  · apply touching_ite
    · intro _
      exact touching_ite (fun _ => touching_illegal) fun _ => touching_cUnary _ _
    intro _
    apply touching_ite
    · intro _
      apply touching_ite
      · exact fun _ => touching_ite (fun _ => touching_illegal) fun _ => touching_cNext
      · exact fun _ => touching_cUnary _ _
    · exact fun _ => touching_cNext
  · split
    · exact touching_cUnary _ _
    · exact touching_cUnary _ _
    · exact touching_cUnary _ _
    · exact touching_quadrant1Arith _ _
  · exact touching_getPc.bind fun _ => touching_jumpTo _
  · exact touching_cBranch _ _
  · exact touching_cBranch _ _

theorem touching_raise {α : Type} (cause : BitVec 32) :
    Touching env (Exec.raise cause : Exec t π α) := by
  apply Touching.bind
  · exact touching_update fun _ => rfl
  · exact fun _ => touching_fail _

theorem touching_quadrant2Jump (insn : BitVec 32) :
    Touching env (Exec.quadrant2Jump insn) := by
  apply (touching_getReg _).bind
  intro target
  apply touching_ite
  · intro _
    apply touching_ite
    · exact fun _ => touching_ite (fun _ => touching_illegal) fun _ => touching_jumpTo _
    · exact fun _ => (touching_getReg _).bind fun _ => (touching_setReg _ _).bind fun _ =>
        touching_cNext
  intro _
  apply touching_ite
  · intro _
    apply touching_ite
    · exact fun _ => touching_raise _
    · exact fun _ => touching_getPc.bind fun _ => (touching_setReg _ _).bind fun _ =>
        touching_jumpTo _
  · exact fun _ => touching_cBinary _ _ _

theorem touching_quadrant2 (insn : BitVec 32) : Touching env (Exec.quadrant2 env insn) := by
  unfold Exec.quadrant2
  dsimp only
  split
  · exact touching_cUnary _ _
  · exact touching_cFld _ _ _
  · exact touching_cLoad _ _ _ _ _
  · exact touching_cLoad _ _ _ _ _
  · exact touching_quadrant2Jump _
  · exact touching_cFsd _ _ _
  · exact touching_cStore _ _ _ _
  · exact touching_cStore _ _ _ _

/-- Every instruction but those of the `SYSTEM` opcode is a sequence of accesses. -/
theorem touching_exec {insn : BitVec 32} (h : opcodeOf insn ≠ 0x73) :
    Touching env (Exec.exec env insn) := by
  unfold Exec.exec
  split
  · exact touching_quadrant0 _
  · exact touching_quadrant1 _
  · exact touching_quadrant2 _
  · exact touching_exec32 h

/-! ## Control steps -/

/-- The register that an instruction writes, and the value, where its access checks
pass. -/
def TinyemuCore.csrWriteOf (c : TinyemuCore t π) (insn : BitVec 32) :
    Option (BitVec 12 × BitVec 64) :=
  let csr : BitVec 12 := insn.extractLsb' 20 12
  let rs1 := rs1Of insn
  let val := if funct3Of insn / 4 = 1 then rs1.setWidth 64 else c.cpu.reg.get rs1
  let old := c.cpu.csrRead c.guestTimerTicks csr true
  if opcodeOf insn ≠ 0x73 ∨ (funct3Of insn = 4 ∧ Exec.isMop insn) then none
  else
    match funct3Of insn % 4 with
    | 0 => none
    | 1 => old.map fun _ => (csr, val)
    | 2 => if rs1 = 0 then none else old.map fun old => (csr, old ||| val)
    | _ => if rs1 = 0 then none else old.map fun old => (csr, old &&& ~~~val)

open TinyemuCore (onCpu)

/-- The steps of the `SYSTEM` instructions that reach beyond quiet registers. -/
inductive Control (c : TinyemuCore t π) (insn : BitVec 32) : TinyemuCore t π → Prop
  | csrWrite {csr : BitVec 12} {val : BitVec 64} {result : CSRWriteResult}
      {c' : TinyemuCore t π} :
      c.csrWriteOf insn = some (csr, val) → Exec.csrWrite csr val c = (.ok result, c') →
      result ≠ .error → Control c insn c'
  | sret : Privilege.S.code ≤ c.cpu.priv.code →
      Control c insn (c.onCpu fun s => s.setPriv (handleSret s.toRiscvCpuState))
  | mret : c.cpu.priv = .M →
      Control c insn (c.onCpu fun s => s.setPriv (handleMret s.toRiscvCpuState))
  | sleep : c.cpu.mip &&& c.cpu.mie = 0 →
      Control c insn (c.onCpu fun s => { s with powerDownFlag := true })
  | fence : Control c insn { c with cpu := c.cpu.tlbFlushAll, ram := c.ram.fence }

/-- How a `SYSTEM` instruction ends: it reaches quiet registers only, or it takes a
control step and does not fail. -/
inductive SystemEnd (c : TinyemuCore t π) (insn : BitVec 32) :
    Outcome Stop Flow × TinyemuCore t π → Prop
  | quiet {r : Outcome Stop Flow} {s : CpuState t} :
      Quiet c.cpu s → SystemEnd c insn (r, { c with cpu := s })
  | next {m : TinyemuCore t π} {s : CpuState t} {flow : Flow} :
      Control c insn m → Quiet m.cpu s → SystemEnd c insn (.ok flow, { m with cpu := s })
  | done {m : TinyemuCore t π} {s : CpuState t} :
      Control c insn m → Quiet m.cpu s →
      SystemEnd c insn (.err .doneInterp, { m with cpu := s })

theorem fst_ite_ne {α β : Type} {p : Prop} [Decidable p] {a b : α × β} {e : α} (ha : a.1 ≠ e)
    (hb : b.1 ≠ e) : (if p then a else b).1 ≠ e := by
  by_cases hp : p
  · rw [if_pos hp]
    exact ha
  · rw [if_neg hp]
    exact hb

theorem CpuState.writeSstatus_ne_error (s : CpuState t) (val : BitVec 64) :
    (s.writeSstatus val).1 ≠ .error :=
  fst_ite_ne CSRWriteResult.noConfusion CSRWriteResult.noConfusion

theorem CpuState.writeMstatus_ne_error (s : CpuState t) (val : BitVec 64) :
    (s.writeMstatus val).1 ≠ .error :=
  fst_ite_ne CSRWriteResult.noConfusion CSRWriteResult.noConfusion

theorem CpuState.writeMenvcfg_ne_error (s : CpuState t) (time val : BitVec 64) :
    (s.writeMenvcfg time val).1 ≠ .error :=
  fst_ite_ne CSRWriteResult.noConfusion
    (fst_ite_ne CSRWriteResult.noConfusion CSRWriteResult.noConfusion)

theorem CpuState.flushIf_ne_error (x : Bool × CpuState t) : (CpuState.flushIf x).1 ≠ .error := by
  obtain ⟨changed, s⟩ := x
  cases changed <;> exact CSRWriteResult.noConfusion

/-- A write that fails leaves the CPU as it was. -/
theorem CpuState.csrWrite_error {s s' : CpuState t} {time val : BitVec 64} {csr : BitVec 12}
    (h : s.csrWrite time csr val = (.error, s')) : s' = s := by
  unfold CpuState.csrWrite at h
  by_cases hdenied : csr = 0x180 ∧ s.satpDenied
  · rw [if_pos hdenied] at h
    cases h
    rfl
  rw [if_neg hdenied] at h
  cases hcsr : Csr.ofNumber csr with
  | none =>
    rw [hcsr] at h
    cases h
    rfl
  | some reg =>
    rw [hcsr] at h
    dsimp only at h
    cases reg with
    | stimecmp =>
      dsimp only [CpuState.writeCsr] at h
      split at h
      · cases h
        rfl
      · cases h
    | sstatus => exact absurd (congrArg Prod.fst h) (CpuState.writeSstatus_ne_error s val)
    | mstatus => exact absurd (congrArg Prod.fst h) (CpuState.writeMstatus_ne_error s val)
    | menvcfg => exact absurd (congrArg Prod.fst h) (CpuState.writeMenvcfg_ne_error s time val)
    | pmpcfg0 | pmpcfg2 | pmpaddr =>
      exact absurd (congrArg Prod.fst h) (CpuState.flushIf_ne_error _)
    | _ => cases h <;> rfl

/-- The instruction `insn`, carried out by `x` in the state `c`. -/
def EndsSystem (c : TinyemuCore t π) (insn : BitVec 32) (x : Exec t π Flow) : Prop :=
  SystemEnd c insn (x c)

section SystemEnds

variable {c : TinyemuCore t π} {insn : BitVec 32} {x y : Exec t π Flow}

/-- An instruction that only goes on, or fails, with the state as it is. -/
theorem endsSystem_still {r : Outcome Stop Flow} (h : x c = (r, c)) : EndsSystem c insn x := by
  unfold EndsSystem
  rw [h]
  exact .quiet (Quiet.refl c.cpu)

theorem endsSystem_pure (flow : Flow) : EndsSystem c insn (pure flow) := endsSystem_still rfl

theorem endsSystem_illegal : EndsSystem c insn Exec.illegal := endsSystem_still rfl

theorem endsSystem_ite {p : Prop} [Decidable p] (hx : p → EndsSystem c insn x)
    (hy : ¬p → EndsSystem c insn y) : EndsSystem c insn (if p then x else y) := by
  by_cases hp : p
  · rw [if_pos hp]
    exact hx hp
  · rw [if_neg hp]
    exact hy hp

theorem endsSystem_bind {α : Type} {z : Exec t π α} {f : α → Exec t π Flow} {a : α}
    (hz : z c = (.ok a, c)) (hf : EndsSystem c insn (f a)) : EndsSystem c insn (z >>= f) := by
  unfold EndsSystem
  rw [Op.bind_ok hz]
  exact hf

theorem csrWrite_apply (csr : BitVec 12) (val : BitVec 64) (c : TinyemuCore t π) :
    Exec.csrWrite csr val c =
      (.ok (c.cpu.csrWrite c.guestTimerTicks csr val).1, { c with
        cpu :=
          if (c.cpu.csrWrite c.guestTimerTicks csr val).1 = .minstret then
            { (c.cpu.csrWrite c.guestTimerTicks csr val).2 with minstretWrite := true }
          else (c.cpu.csrWrite c.guestTimerTicks csr val).2
        ram :=
          if csr = 0x180 ∧ (c.cpu.csrWrite c.guestTimerTicks csr val).1 = .flushTlb then
            c.ram.fence
          else c.ram }) := rfl

theorem TinyemuCore.with_cpu {c : TinyemuCore t π} {s : CpuState t} (h : s = c.cpu) :
    { c with cpu := s } = c := by
  rw [h]

/-- A write that fails leaves the core as it was. -/
theorem csrWrite_still {csr : BitVec 12} {val : BitVec 64}
    (h : (c.cpu.csrWrite c.guestTimerTicks csr val).1 = .error) :
    Exec.csrWrite csr val c = (.ok .error, c) := by
  have hcpu := CpuState.csrWrite_error
    (show c.cpu.csrWrite c.guestTimerTicks csr val = (.error, _) from Prod.ext h rfl)
  rw [csrWrite_apply, h, if_neg (by decide), if_neg (fun h => by cases h.2)]
  exact Prod.ext rfl (TinyemuCore.with_cpu hcpu)

/-- The end of a write to a control register. -/
theorem endsSystem_csrDone {csr : BitVec 12} {val old : BitVec 64} {rd : BitVec 5}
    (hwrite : c.csrWriteOf insn = some (csr, val)) :
    EndsSystem c insn
      (Exec.csrWrite csr val >>= fun result => Exec.csrDone rd old result) := by
  rcases hcsr : Exec.csrWrite csr val c with ⟨r, c'⟩
  have hr : .ok (c.cpu.csrWrite c.guestTimerTicks csr val).1 = r := congrArg Prod.fst hcsr
  cases hresult : (c.cpu.csrWrite c.guestTimerTicks csr val).1 with
  | error => exact endsSystem_bind (csrWrite_still hresult) endsSystem_illegal
  | ok | minstret | flushTlb =>
    rw [hresult] at hr
    rw [← hr] at hcsr
    unfold EndsSystem
    rw [Op.bind_ok hcsr]
    exact SystemEnd.next (m := c') (.csrWrite hwrite hcsr (by decide)) rfl
  | interrupt =>
    rw [hresult] at hr
    rw [← hr] at hcsr
    unfold EndsSystem
    rw [Op.bind_ok hcsr]
    exact SystemEnd.done (m := c') (.csrWrite hwrite hcsr (by decide)) rfl

theorem endsSystem_raise (cause : BitVec 32) : EndsSystem c insn (Exec.raise cause) :=
  SystemEnd.quiet rfl

theorem endsSystem_wfi : EndsSystem c insn Exec.wfi := by
  have hread : Exec.read (fun s : CpuState t => decide (s.mip &&& s.mie = 0)) c =
      (.ok (decide (c.cpu.mip &&& c.cpu.mie = 0)), c) := rfl
  apply endsSystem_bind hread
  apply endsSystem_ite
  · intro hidle
    exact SystemEnd.done (m := c.onCpu fun s => { s with powerDownFlag := true })
      (.sleep (of_decide_eq_true hidle)) rfl
  · exact fun _ => endsSystem_pure _

theorem endsSystem_sret (h : Privilege.S.code ≤ c.cpu.priv.code) :
    EndsSystem c insn Exec.sret := SystemEnd.done (.sret h) rfl

theorem endsSystem_mret (h : Privilege.M.code ≤ c.cpu.priv.code) :
    EndsSystem c insn Exec.mret := by
  have hmachine : c.cpu.priv = .M := by
    cases hp : c.cpu.priv <;> rw [hp] at h <;> simp [Privilege.code] at h
  exact SystemEnd.done (.mret hmachine) rfl

theorem endsSystem_privileged : EndsSystem c insn (Exec.privileged insn) := by
  have hread : Exec.read id c = (.ok c.cpu, c) := rfl
  apply endsSystem_bind hread
  dsimp only
  split
  · exact endsSystem_ite (fun _ => endsSystem_raise _) fun _ => endsSystem_illegal
  · exact endsSystem_ite (fun _ => endsSystem_raise _) fun _ => endsSystem_illegal
  · exact endsSystem_ite (fun _ => endsSystem_pure _) fun _ => endsSystem_illegal
  · exact endsSystem_ite (fun _ => endsSystem_pure _) fun _ => endsSystem_illegal
  · exact endsSystem_ite (fun h => endsSystem_sret h.2.1) fun _ => endsSystem_illegal
  · exact endsSystem_ite (fun h => endsSystem_mret h.2) fun _ => endsSystem_illegal
  · exact endsSystem_ite (fun _ => endsSystem_wfi) fun _ => endsSystem_illegal
  · exact endsSystem_ite (fun _ => endsSystem_pure _) fun _ => endsSystem_illegal
  · exact endsSystem_ite (fun _ => endsSystem_pure _) fun _ => endsSystem_illegal
  · apply endsSystem_ite
    · intro _
      exact endsSystem_ite (fun _ => SystemEnd.next .fence rfl) fun _ => endsSystem_illegal
    · exact fun _ => endsSystem_illegal

theorem csrRead_none {csr : BitVec 12} {willWrite : Bool}
    (h : c.cpu.csrRead c.guestTimerTicks csr willWrite = none) :
    Exec.csrRead csr willWrite c = (.err .illegalInsn, c) := by
  rw [Exec.csrRead, Op.reading_apply, h, Outcome.okOr_none]

theorem csrRead_some {csr : BitVec 12} {willWrite : Bool} {old : BitVec 64}
    (h : c.cpu.csrRead c.guestTimerTicks csr willWrite = some old) :
    Exec.csrRead csr willWrite c = (.ok old, c) := by
  rw [Exec.csrRead, Op.reading_apply, h, Outcome.okOr_some]

theorem endsSystem_csrrw {csr : BitVec 12} {val : BitVec 64} (rd : BitVec 5)
    (hwrite : c.csrWriteOf insn =
      (c.cpu.csrRead c.guestTimerTicks csr true).map fun _ => (csr, val)) :
    EndsSystem c insn (Exec.csrrw rd csr val) := by
  cases hread : c.cpu.csrRead c.guestTimerTicks csr true with
  | none => exact endsSystem_still (Op.bind_err (csrRead_none hread))
  | some old =>
    apply endsSystem_bind (csrRead_some hread)
    rw [hread] at hwrite
    exact endsSystem_csrDone hwrite

theorem endsSystem_csrrsc {csr : BitVec 12} {f : BitVec 64 → BitVec 64} (rd rs1 : BitVec 5)
    (hwrite : rs1 ≠ 0 → c.csrWriteOf insn =
      (c.cpu.csrRead c.guestTimerTicks csr true).map fun old => (csr, f old)) :
    EndsSystem c insn (Exec.csrrsc rd csr rs1 f) := by
  cases hread : c.cpu.csrRead c.guestTimerTicks csr (decide (rs1 ≠ 0)) with
  | none => exact endsSystem_still (Op.bind_err (csrRead_none hread))
  | some old =>
    apply endsSystem_bind (csrRead_some hread)
    apply endsSystem_ite
    · exact fun _ => SystemEnd.quiet rfl
    · intro hrs1
      rw [decide_eq_true hrs1] at hread
      have hw := hwrite hrs1
      rw [hread] at hw
      exact endsSystem_csrDone hw

/-- Every instruction of the `SYSTEM` opcode. -/
theorem endsSystem_system (hop : opcodeOf insn = 0x73) :
    EndsSystem c insn (Exec.system insn) := by
  apply endsSystem_ite
  · exact fun _ => SystemEnd.quiet rfl
  intro hmop
  have hread : Exec.getReg (rs1Of insn) c = (.ok (c.cpu.reg.get (rs1Of insn)), c) := rfl
  apply endsSystem_bind hread
  have hguard : ¬(opcodeOf insn ≠ 0x73 ∨ (funct3Of insn = 4 ∧ Exec.isMop insn)) := by
    rintro (h | h)
    · exact h hop
    · exact hmop h
  dsimp only
  split
  · exact endsSystem_privileged
  next hfunct =>
    apply endsSystem_csrrw
    rw [TinyemuCore.csrWriteOf, if_neg hguard, hfunct]
    rfl
  next hfunct =>
    apply endsSystem_csrrsc
    intro hrs1
    rw [TinyemuCore.csrWriteOf, if_neg hguard, hfunct]
    exact if_neg hrs1
  next hzero hone htwo =>
    apply endsSystem_csrrsc
    intro hrs1
    have hthree : funct3Of insn % 4 = 3 := by
      have hlt : funct3Of insn % 4 < 4 := Nat.mod_lt _ (by decide)
      have h₀ : funct3Of insn % 4 ≠ 0 := hzero
      have h₁ : funct3Of insn % 4 ≠ 1 := hone
      have h₂ : funct3Of insn % 4 ≠ 2 := htwo
      omega
    rw [TinyemuCore.csrWriteOf, if_neg hguard, hthree]
    exact if_neg hrs1

end SystemEnds

end Cpu
end Riscbox
