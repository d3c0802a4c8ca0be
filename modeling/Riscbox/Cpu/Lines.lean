import Riscbox.Cpu.Status
import Riscbox.Cpu.Writes

/-!
# The interrupt lines under `sip`

`sip` shows the delegated lines.  A write to it reaches every delegated one, except the
timer line under `menvcfg.STCE`.
-/

namespace Riscbox
namespace Cpu

variable {t : Target} {π : Type}

open TinyemuCore

/-! ## Delegation -/

/-- The interrupts that can be delegated: `SSIP`, `STIP` and `SEIP`. -/
def CpuState.DelegatesSupervisor (s : CpuState t) : Prop :=
  ∀ i, s.mideleg.getLsbD i = true → i = 1 ∨ i = 5 ∨ i = 9

theorem delegable_bit (i : Nat) :
    (mipSsip ||| mipStip ||| mipSeip).getLsbD i = true → i = 1 ∨ i = 5 ∨ i = 9 := by
  intro h
  have hi : i < 32 := BitVec.lt_of_getLsbD h
  have hall : ∀ i < 32, (mipSsip ||| mipStip ||| mipSeip).getLsbD i = true →
      i = 1 ∨ i = 5 ∨ i = 9 := by decide
  exact hall i hi h

theorem Controls.write_mideleg (k : Controls) (val : BitVec 64) {reg : Csr}
    (h : reg ≠ .mideleg) : (k.write val reg).mideleg = k.mideleg := by
  cases reg with
  | mideleg => exact absurd rfl h
  | _ => rfl

theorem raiseException2_mideleg (s : CpuState t) (cause : BitVec 32) (tval : BitVec 64) :
    (s.raiseException2 cause tval).mideleg = s.mideleg := by
  unfold CpuState.raiseException2
  rw [CpuState.setPriv_toRiscvCpuState]
  unfold Cpu.raiseException2
  split <;> rfl

theorem delegatesSupervisor_kept (env : Env t π) (allowed : TinyemuCore t π → Event π → Prop) :
    KeptByControls env allowed CpuState.DelegatesSupervisor where
  init := by
    intro i h
    rw [show (CpuState.init : CpuState t).mideleg = 0#32 from rfl, BitVec.getLsbD_zero] at h
    cases h
  same := by
    intro s s' hsame h i hi
    rw [hsame.mideleg] at hi
    exact h i hi
  trap := by
    intro s cause tval h i hi
    rw [raiseException2_mideleg] at hi
    exact h i hi
  sret := by
    intro s h i hi
    rw [CpuState.setPriv_toRiscvCpuState] at hi
    exact h i hi
  mret := by
    intro s _ h i hi
    rw [CpuState.setPriv_toRiscvCpuState] at hi
    exact h i hi
  write := by
    intro c insn csr val reg _ _ _ h i hi
    revert hi
    apply writeCsr_keeps (P := fun k => k.mideleg.getLsbD i = true → i = 1 ∨ i = 5 ∨ i = 9)
    · intro hi
      by_cases hreg : reg = .mideleg
      · subst hreg
        have hlt : i < 32 := BitVec.lt_of_getLsbD hi
        have hbit : (CpuState.merge c.cpu.mideleg (val.setWidth 32)
            (mipSsip ||| mipStip ||| mipSeip)).getLsbD i = true := hi
        unfold CpuState.merge at hbit
        rw [getLsbD_merge _ _ _ hlt] at hbit
        by_cases hmask : (mipSsip ||| mipStip ||| mipSeip).getLsbD i = true
        · exact delegable_bit i hmask
        · rw [if_neg hmask] at hbit
          exact h i hbit
      · rw [Controls.write_mideleg _ val hreg] at hi
        exact h i hi
    · exact fun _ => h i

/-! ## Accesses to `sip` -/

/-- A `csrrw`, `csrrs` or `csrrc` of `sip`, in its register or immediate form. -/
def AccessesSip (insn : BitVec 32) : Prop :=
  opcodeOf insn = 0x73 ∧ funct3Of insn % 4 ≠ 0 ∧ insn.extractLsb' 20 12 = 0x144

/-- The operand of the access: a register, or an immediate. -/
def CpuState.csrOperand (s : CpuState t) (insn : BitVec 32) : BitVec 64 :=
  if funct3Of insn / 4 = 1 then (rs1Of insn).setWidth 64 else s.reg.get (rs1Of insn)

/-- The value that the access writes to `sip`. -/
def CpuState.sipValue (s : CpuState t) (insn : BitVec 32) : BitVec 64 :=
  let old := (s.mip &&& s.mideleg).setWidth 64
  match funct3Of insn % 4 with
  | 1 => s.csrOperand insn
  | 2 => old ||| s.csrOperand insn
  | _ => old &&& ~~~s.csrOperand insn

/-- `mip` after the access. -/
def CpuState.sipWritten (s : CpuState t) (insn : BitVec 32) : BitVec 32 :=
  merge s.mip ((s.sipValue insn).setWidth 32) s.sipMask

variable {env : Env t π}

theorem csrOperand_zero (s : CpuState t) {insn : BitVec 32} (h : rs1Of insn = 0) :
    s.csrOperand insn = 0 := by
  unfold CpuState.csrOperand
  rw [h, Registers.get_zero]
  split <;> rfl

/-- Supervisor and machine mode may read and write `sip`. -/
theorem csrRead_sip {s : CpuState t} (time : BitVec 64) (hpriv : s.priv ≠ .U)
    (willWrite : Bool) :
    s.csrRead time 0x144 willWrite = some ((s.mip &&& s.mideleg).setWidth 64) := by
  have hcode : ¬s.priv.code < 1 := by
    cases hp : s.priv with
    | U => exact absurd hp hpriv
    | S | H | M => decide
  unfold CpuState.csrRead
  rw [if_neg (fun h => absurd h.1 (by decide)),
    if_neg (show ¬s.priv.code < ((0x144 : BitVec 12) >>> 8 &&& 3).toNat from hcode),
    if_neg (fun h => absurd h.1 (by decide)), if_neg (fun h => absurd h.1 (by decide))]
  rfl

theorem sipMask_bit {s : CpuState t} {i : Nat} :
    s.sipMask.getLsbD i = true ↔
      s.mideleg.getLsbD i = true ∧ (i = 5 → s.menvcfg &&& menvcfgStce = 0) := by
  unfold CpuState.sipMask
  by_cases hstce : s.menvcfg &&& menvcfgStce = 0
  · rw [if_neg (fun h => h hstce)]
    exact ⟨fun h => ⟨h, fun _ => hstce⟩, fun h => h.1⟩
  · rw [if_pos hstce]
    show (s.mideleg &&& ~~~BitVec.twoPow 32 5).getLsbD i = true ↔ _
    rw [BitVec.getLsbD_and, BitVec.getLsbD_not, BitVec.getLsbD_twoPow]
    constructor
    · intro h
      rw [Bool.and_eq_true] at h
      refine ⟨h.1, ?_⟩
      rintro rfl
      simp at h
    · intro h
      have hi : i < 32 := BitVec.lt_of_getLsbD h.1
      have hne : i ≠ 5 := fun h5 => hstce (h.2 h5)
      simp [h.1, hi, hne.symm]

/-- An access that names `x0` and does not write leaves `mip`. -/
theorem sipWritten_zero {s : CpuState t} {insn : BitVec 32} (hfunct : funct3Of insn % 4 ≠ 1)
    (hrs1 : rs1Of insn = 0) : s.sipWritten insn = s.mip := by
  have hvalue : s.sipValue insn = (s.mip &&& s.mideleg).setWidth 64 := by
    unfold CpuState.sipValue
    rw [csrOperand_zero s hrs1]
    split
    next h => exact absurd h hfunct
    · exact BitVec.or_zero
    · exact BitVec.and_allOnes
  unfold CpuState.sipWritten
  rw [hvalue]
  apply BitVec.eq_of_getLsbD_eq
  intro i hi
  unfold CpuState.merge
  rw [getLsbD_merge _ _ _ hi]
  by_cases hmask : s.sipMask.getLsbD i = true
  · rw [if_pos hmask]
    have hdelegated := (sipMask_bit.mp hmask).1
    simp [hi, hdelegated]
  · rw [if_neg hmask]

theorem AccessesSip.not_mop {insn : BitVec 32} (h : AccessesSip insn) : funct3Of insn ≠ 4 := by
  intro hmop
  apply h.2.1
  rw [hmop]

theorem csrWriteOf_sip {c : TinyemuCore t π} {insn : BitVec 32} (hsip : AccessesSip insn)
    (hpriv : c.cpu.priv ≠ .U) (hwrites : funct3Of insn % 4 = 1 ∨ rs1Of insn ≠ 0) :
    c.csrWriteOf insn = some (0x144, c.cpu.sipValue insn) := by
  have hguard : ¬(opcodeOf insn ≠ 0x73 ∨ (funct3Of insn = 4 ∧ Exec.isMop insn)) := by
    rintro (h | h)
    · exact h hsip.1
    · exact hsip.not_mop h.1
  have hkind : funct3Of insn % 4 = 1 ∨ funct3Of insn % 4 = 2 ∨ funct3Of insn % 4 = 3 := by
    have hfunct := hsip.2.1
    omega
  unfold csrWriteOf CpuState.sipValue
  dsimp only
  rw [if_neg hguard, hsip.2.2, csrRead_sip _ hpriv]
  rcases hkind with h | h | h
  · rw [h]
    rfl
  · have hrs1 : rs1Of insn ≠ 0 := hwrites.resolve_left (by omega)
    rw [h, if_neg hrs1]
    rfl
  · have hrs1 : rs1Of insn ≠ 0 := hwrites.resolve_left (by omega)
    rw [h]
    exact if_neg hrs1

/-- An access that does not write. -/
theorem system_csrrsc_zero {c : TinyemuCore t π} {insn : BitVec 32} (hsip : AccessesSip insn)
    (hpriv : c.cpu.priv ≠ .U) (hfunct : funct3Of insn % 4 ≠ 1) (hrs1 : rs1Of insn = 0) :
    ∃ old, Exec.system insn c = Exec.csrDone (rdOf insn) old .ok c := by
  have hread : Exec.getReg (rs1Of insn) c = (.ok (c.cpu.reg.get (rs1Of insn)), c) := rfl
  have hcsr : ∀ f : BitVec 64 → BitVec 64, Exec.csrrsc (rdOf insn) 0x144 (rs1Of insn) f c =
      Exec.csrDone (rdOf insn) ((c.cpu.mip &&& c.cpu.mideleg).setWidth 64) .ok c := by
    intro f
    unfold Exec.csrrsc
    rw [Op.bind_ok (csrRead_some (csrRead_sip _ hpriv _)), if_pos hrs1]
  have hkind : funct3Of insn % 4 = 2 ∨ funct3Of insn % 4 = 3 := by
    have hne := hsip.2.1
    omega
  unfold Exec.system
  rw [if_neg (fun hmop => hsip.not_mop hmop.1), Op.bind_ok hread, hsip.2.2]
  rcases hkind with h | h
  · rw [h]
    exact ⟨_, hcsr _⟩
  · rw [h]
    exact ⟨_, hcsr _⟩

/-- The registers after an access to `sip`. -/
theorem runInsn_sip {c : TinyemuCore t π} {insn : BitVec 32} (hsip : AccessesSip insn)
    (hpriv : c.cpu.priv ≠ .U) :
    Quiet { c.cpu.tick with mip := c.cpu.sipWritten insn } (c.runInsn env insn).cpu := by
  by_cases hwrites : funct3Of insn % 4 = 1 ∨ rs1Of insn ≠ 0
  · have hwrite := csrWriteOf_sip (c := c.onCpu CpuState.tick) hsip hpriv hwrites
    exact runInsn_of_csrWriteOf hwrite rfl (by decide) CSRWriteResult.noConfusion
  · have hfunct : funct3Of insn % 4 ≠ 1 := fun h => hwrites (.inl h)
    have hrs1 : rs1Of insn = 0 := Classical.not_not.mp fun h => hwrites (.inr h)
    obtain ⟨old, hsystem⟩ :=
      system_csrrsc_zero (c := c.onCpu CpuState.tick) hsip hpriv hfunct hrs1
    unfold runInsn
    rw [exec_system hsip.1, hsystem, sipWritten_zero hfunct hrs1]
    exact csrDone_quiet (by decide) (c.onCpu CpuState.tick)

/-! ## What software may move -/

/-- The access leaves the line `i` as it is, where a write to `sip` reaches it: `csrrw`
gives it the value that it has, `csrrs` does not set a clear line, and `csrrc` does not
clear a set one. -/
def CpuState.LeavesLine (s : CpuState t) (insn : BitVec 32) (i : Nat) : Prop :=
  s.sipMask.getLsbD i = true →
    match funct3Of insn % 4 with
    | 1 => (s.csrOperand insn).getLsbD i = s.mip.getLsbD i
    | 2 => (s.csrOperand insn).getLsbD i = true → s.mip.getLsbD i = true
    | _ => (s.csrOperand insn).getLsbD i = true → s.mip.getLsbD i = false

/-- The access changes no line but `SSIP`, and that only where it is delegated. -/
def TinyemuCore.KeepsLines (env : Env t π) (c : TinyemuCore t π) (insn : BitVec 32) : Prop :=
  (∀ i, i ≠ 1 → (c.runInsn env insn).cpu.mip.getLsbD i = c.cpu.mip.getLsbD i) ∧
    ((c.runInsn env insn).cpu.mip.getLsbD 1 ≠ c.cpu.mip.getLsbD 1 →
      c.cpu.mideleg.getLsbD 1 = true)

/-- A line that the access does not leave alone changes. -/
theorem sipWritten_bit {s : CpuState t} {insn : BitVec 32} (hsip : AccessesSip insn) (i : Nat) :
    (s.sipWritten insn).getLsbD i = s.mip.getLsbD i ↔ s.LeavesLine insn i := by
  by_cases hi : i < 32
  · unfold CpuState.sipWritten CpuState.merge CpuState.LeavesLine
    rw [getLsbD_merge _ _ _ hi]
    by_cases hmask : s.sipMask.getLsbD i = true
    · rw [if_pos hmask]
      have hdelegated := (sipMask_bit.mp hmask).1
      have hkind : funct3Of insn % 4 = 1 ∨ funct3Of insn % 4 = 2 ∨ funct3Of insn % 4 = 3 := by
        have hfunct := hsip.2.1
        omega
      have hold : ((s.mip &&& s.mideleg).setWidth 64).getLsbD i = s.mip.getLsbD i := by
        rw [BitVec.getLsbD_setWidth, BitVec.getLsbD_and, hdelegated, Bool.and_true,
          decide_eq_true (show i < 64 by omega), Bool.true_and]
      rw [BitVec.getLsbD_setWidth, decide_eq_true hi, Bool.true_and]
      unfold CpuState.sipValue
      rcases hkind with h | h | h
      · rw [h]
        exact ⟨fun hbit _ => hbit, fun hleaves => hleaves hmask⟩
      · rw [h]
        show BitVec.getLsbD (_ ||| _) i = _ ↔ _
        rw [BitVec.getLsbD_or, hold]
        cases s.mip.getLsbD i <;> simp [hmask]
      · rw [h]
        show BitVec.getLsbD (_ &&& ~~~_) i = _ ↔ _
        rw [BitVec.getLsbD_and, BitVec.getLsbD_not, hold]
        cases s.mip.getLsbD i <;> simp [hmask, show i < 64 by omega]
    · rw [if_neg hmask]
      exact ⟨fun _ h => absurd h hmask, fun _ => rfl⟩
  · rw [BitVec.getLsbD_of_ge _ i (by omega), BitVec.getLsbD_of_ge _ i (by omega)]
    refine ⟨fun _ hmask => ?_, fun _ => rfl⟩
    rw [BitVec.getLsbD_of_ge _ i (by omega)] at hmask
    cases hmask

variable {c : TinyemuCore t π} {insn : BitVec 32}

theorem runInsn_sip_mip (hsip : AccessesSip insn) (hpriv : c.cpu.priv ≠ .U) :
    (c.runInsn env insn).cpu.mip = c.cpu.sipWritten insn :=
  (congrArg Checks.mip (runInsn_sip hsip hpriv).checks :)

theorem runInsn_sip_sameControls (hsip : AccessesSip insn) (hpriv : c.cpu.priv ≠ .U) :
    SameControls c.cpu (c.runInsn env insn).cpu := by
  have h : SameControls c.cpu { c.cpu.tick with mip := c.cpu.sipWritten insn } := rfl
  exact h.trans (runInsn_sip hsip hpriv).sameControls

/-- One access keeps the lines exactly when it leaves the two that a write can reach
beside `SSIP`. -/
theorem keepsLines_iff (hsip : AccessesSip insn) (hpriv : c.cpu.priv ≠ .U)
    (hdelegates : c.cpu.DelegatesSupervisor) :
    c.KeepsLines env insn ↔ c.cpu.LeavesLine insn 5 ∧ c.cpu.LeavesLine insn 9 := by
  unfold KeepsLines
  rw [runInsn_sip_mip hsip hpriv]
  constructor
  · intro h
    exact ⟨(sipWritten_bit hsip 5).mp (h.1 5 (by decide)),
      (sipWritten_bit hsip 9).mp (h.1 9 (by decide))⟩
  · intro h
    constructor
    · intro i hi
      apply (sipWritten_bit hsip i).mpr
      intro hmask
      rcases hdelegates i (sipMask_bit.mp hmask).1 with rfl | rfl | rfl
      · exact absurd rfl hi
      · exact h.1 hmask
      · exact h.2 hmask
    · intro hmoved
      by_contra hdelegated
      apply hmoved
      apply (sipWritten_bit hsip 1).mpr
      intro hmask
      exact absurd (sipMask_bit.mp hmask).1 hdelegated

/-- A sequence of accesses to `sip` that each leave the lines. -/
def TinyemuCore.SipSequence (env : Env t π) : TinyemuCore t π → List (BitVec 32) → Prop
  | _, [] => True
  | c, insn :: insns => AccessesSip insn ∧ c.cpu.LeavesLine insn 5 ∧ c.cpu.LeavesLine insn 9 ∧
      SipSequence env (c.runInsn env insn) insns

theorem sipSequence_lines {insns : List (BitVec 32)} {c : TinyemuCore t π}
    (h : c.SipSequence env insns) (hpriv : c.cpu.priv ≠ .U)
    (hdelegates : c.cpu.DelegatesSupervisor) {i : Nat} (hi : i ≠ 1) :
    (c.runInsns env insns).cpu.mip.getLsbD i = c.cpu.mip.getLsbD i := by
  induction insns generalizing c with
  | nil => rfl
  | cons insn insns ih =>
    obtain ⟨hsip, h₅, h₉, hrest⟩ := h
    have hsame : SameControls c.cpu (c.runInsn env insn).cpu :=
      runInsn_sip_sameControls hsip hpriv
    have hkeeps : c.KeepsLines env insn :=
      (keepsLines_iff hsip hpriv hdelegates).mpr ⟨h₅, h₉⟩
    have hpriv' : (c.runInsn env insn).cpu.priv ≠ .U := by
      rw [hsame.priv]
      exact hpriv
    have hdelegates' : (c.runInsn env insn).cpu.DelegatesSupervisor := by
      intro j hj
      rw [hsame.mideleg] at hj
      exact hdelegates j hj
    show ((c.runInsn env insn).runInsns env insns).cpu.mip.getLsbD i = _
    rw [ih hrest hpriv' hdelegates', hkeeps.1 i hi]

/-- An access to `sip` in supervisor or machine mode keeps every line but `SSIP` exactly
when it leaves `SEIP` and `STIP`; after a sequence of such accesses an external interrupt
is still pending. -/
theorem sip_keepsLines (h : Reached env (fun _ _ => True) c)
    (hpriv : c.cpu.priv = .S ∨ c.cpu.priv = .M) :
    (∀ insn, AccessesSip insn →
      (c.KeepsLines env insn ↔ c.cpu.LeavesLine insn 5 ∧ c.cpu.LeavesLine insn 9)) ∧
    ∀ insns, c.SipSequence env insns → c.cpu.mip &&& mipSeip ≠ 0 →
      (c.runInsns env insns).cpu.mip &&& mipSeip ≠ 0 := by
  have hdelegates := (delegatesSupervisor_kept env _).reached h
  have hnotUser : c.cpu.priv ≠ .U := by
    intro huser
    rw [huser] at hpriv
    cases hpriv <;> contradiction
  have hseip : ∀ mip : BitVec 32, mip &&& mipSeip ≠ 0 ↔ mip.getLsbD 9 = true :=
    and_twoPow_ne_zero (by decide)
  constructor
  · exact fun insn hsip => keepsLines_iff hsip hnotUser hdelegates
  · intro insns hsequence hpending
    rw [hseip] at hpending ⊢
    rw [sipSequence_lines hsequence hnotUser hdelegates (by decide)]
    exact hpending

/-- `csrsi sip, 2` after reset. -/
theorem sip_keepsLines_ssip : (bareCore .native64).KeepsLines (bareEnv .native64) 0x14416073 := by
  have hreached : Reached (bareEnv .native64) (fun _ _ => True) (bareCore .native64) :=
    .init (initial_bareCore .native64)
  have hsip : AccessesSip 0x14416073 := ⟨by decide, by decide, by decide⟩
  apply ((sip_keepsLines hreached (.inr rfl)).1 _ hsip).mpr
  exact ⟨fun hmask => absurd hmask (by decide), fun hmask => absurd hmask (by decide)⟩

/-- Machine mode delegates `SEIP` and enters supervisor mode, where the platform raises
the line: `addi x1, x0, 0x200`, `csrw mideleg, x1`, `lui x2, 1`, `srli x2, x2, 1`,
`csrw mstatus, x2`, `mret`. -/
def raiseDelegatedLine : List (Event Unit) :=
  [0x20000093, 0x30309073, 0x00001137, 0x00115113, 0x30011073, 0x30200073].map .insn ++
    [.setInterrupts 0x200]

/-- `csrc sip, x1` then clears it. -/
theorem sip_keepsLines_cleared :
    ¬∀ c, Reached (bareEnv .native64) (fun _ _ => True) c →
      c.cpu.priv = .S ∨ c.cpu.priv = .M →
      ∀ insn, AccessesSip insn → c.KeepsLines (bareEnv .native64) insn := by
  intro h
  have hrun : ((bareCore .native64).runEvents (bareEnv .native64) raiseDelegatedLine).map
      (fun c => (c.cpu.priv, c.cpu.mip.getLsbD 9,
        (c.runInsn (bareEnv .native64) 0x1440b073).cpu.mip.getLsbD 9)) =
      some (.S, true, false) := by decide
  obtain ⟨c, hrun, hc⟩ := Option.map_eq_some_iff.mp hrun
  rw [Prod.mk.injEq, Prod.mk.injEq] at hc
  obtain ⟨hpriv, hraised, hcleared⟩ := hc
  have hreached := reached_runEvents (.init (initial_bareCore .native64)) hrun
  have hkeeps := h c hreached (.inl hpriv) 0x1440b073 ⟨by decide, by decide, by decide⟩
  have hline := hkeeps.1 9 (by decide)
  rw [hraised, hcleared] at hline
  cases hline

end Cpu
end Riscbox
