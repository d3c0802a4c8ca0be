import Riscbox.Cpu.Interp
import Riscbox.Program.Steps

/-!
# What an instruction can do

Every instruction is a sequence of touches (accesses to memory, to devices and to
registers that no check reads), or one control step: a write to a control register, a
return from a trap, a fence or a sleep.
-/

namespace Riscbox
namespace Cpu

variable {t : Target} {π : Type}

/-- `s'` differs from `s` only in registers that no translation, interrupt or privilege
check reads. -/
def Quiet (s s' : CpuState t) : Prop :=
  { s' with
    pc := s.pc, fs := s.fs, reg := s.reg, fpReg := s.fpReg, fflags := s.fflags, frm := s.frm
    cycleCounter := s.cycleCounter, minstretCounter := s.minstretCounter
    minstretWrite := s.minstretWrite, pendingException := s.pendingException
    pendingTval := s.pendingTval, loadRes := s.loadRes, loadResSize := s.loadResSize
    loadResValid := s.loadResValid } = s

theorem Quiet.refl (s : CpuState t) : Quiet s s := rfl

theorem Quiet.trans {s s' s'' : CpuState t} (h : Quiet s s') (h' : Quiet s' s'') :
    Quiet s s'' := by
  unfold Quiet at h h' ⊢
  rw [← h'] at h
  exact h

open TinyemuCore (onCpu)

/-- One access. -/
inductive Touch (env : Env t π) (c : TinyemuCore t π) : TinyemuCore t π → Prop
  | quiet {s : CpuState t} : Quiet c.cpu s → Touch env c { c with cpu := s }
  | translate (addr : BitVec 64) (access : Access) :
      Touch env c (c.getPhysAddr env addr access).2
  | readFill {addr paddr : BitVec 64} {i : Nat} {pr : PhysMemoryRange t}
      {c₁ : TinyemuCore t π} :
      c.getPhysAddr env addr .read = (.ok paddr, c₁) →
      getPhysMemRange env.map paddr = some (i, pr) → pr.isRam →
      Touch env c (onCpu (fun s => { s with tlbRead := s.tlbRead.fill addr (pr.ptr paddr) }) c₁)
  | codeFill {addr paddr : BitVec 64} {i : Nat} {pr : PhysMemoryRange t}
      {c₁ : TinyemuCore t π} :
      c.getPhysAddr env addr .code = (.ok paddr, c₁) →
      getPhysMemRange env.map paddr = some (i, pr) → pr.isRam →
      Touch env c (onCpu (fun s => { s with tlbCode := s.tlbCode.fill addr (pr.ptr paddr) }) c₁)
  | writeFill {addr paddr : BitVec 64} {i : Nat} {pr : PhysMemoryRange t}
      {c₁ : TinyemuCore t π} (sz : Size) (val : BitVec 64) :
      addr &&& sz.alignMask = 0 → c.getPhysAddr env addr .write = (.ok paddr, c₁) →
      getPhysMemRange env.map paddr = some (i, pr) → pr.isRam →
      Touch env c
        { c₁ with
          cpu := { c₁.cpu with tlbWrite := c₁.cpu.tlbWrite.fill addr (pr.ptr paddr) }
          ram := (c₁.ram.setDirtyBit i pr (paddr - pr.addr)).storeBytes (pr.ptr paddr)
            sz.bytes val }
  | storeHit {addr : BitVec 64} (sz : Size) (val : BitVec 64) :
      c.cpu.tlbWrite.hits sz addr →
      Touch env c { c with ram := c.ram.storeBytes (c.cpu.tlbWrite.ptr addr) sz.bytes val }
  | zero {addr paddr : BitVec 64} {i : Nat} {pr : PhysMemoryRange t} {c₁ : TinyemuCore t π} :
      addr &&& 63 = 0 → c.getPhysAddr env addr .write = (.ok paddr, c₁) →
      physRamAccessOk env.map paddr 64 = some (i, pr) →
      Touch env c
        { c₁ with
          ram := (c₁.ram.setDirtyBit i pr (paddr - pr.addr)).storeBytes (pr.ptr paddr) 64 0 }
  | readDevice (base : BitVec 64) (offset : BitVec 32) (sizeLog2 : Nat) :
      Touch env c (Exec.readDevice env base offset sizeLog2 c).2
  | writeDevice (base : BitVec 64) (offset value : BitVec 32) (sizeLog2 : Nat) :
      Touch env c (Exec.writeDevice env base offset value sizeLog2 c).2

/-- Accesses one after the other. -/
def Touches (env : Env t π) : TinyemuCore t π → TinyemuCore t π → Prop :=
  Relation.ReflTransGen (Touch env)

/-- An invariant of single accesses. -/
theorem Touches.keeps {env : Env t π} {P : TinyemuCore t π → Prop}
    (hP : ∀ c c', Touch env c c' → P c → P c') {c c' : TinyemuCore t π}
    (h : Touches env c c') (hc : P c) : P c' := by
  induction h with
  | refl => exact hc
  | tail _ hstep ih => exact hP _ _ hstep ih

section Rules

variable {env : Env t π} {α β : Type}

theorem touches_refl (c : TinyemuCore t π) : Touches env c c := Relation.ReflTransGen.refl

theorem touches_trans (c c' c'' : TinyemuCore t π) (h : Touches env c c')
    (h' : Touches env c' c'') : Touches env c c'' := Relation.ReflTransGen.trans h h'

theorem Touch.touches {c c' : TinyemuCore t π} (h : Touch env c c') : Touches env c c' :=
  Relation.ReflTransGen.single h

/-- The call is a sequence of accesses. -/
def Touching (env : Env t π) (x : Exec t π α) : Prop := Op.Along (Touches env) x

theorem Touching.bind {x : Exec t π α} {f : α → Exec t π β} (hx : Touching env x)
    (hf : ∀ a, Touching env (f a)) : Touching env (x >>= f) :=
  Op.Along.bind touches_trans hx hf

theorem touching_pure (a : α) : Touching env (pure a : Exec t π α) := Op.along_pure touches_refl a

theorem touching_read (f : CpuState t → α) : Touching env (Exec.read f) :=
  Op.along_reading touches_refl _

theorem touching_loadBytes (ptr : Ptr t) (sz : Size) : Touching env (Exec.loadBytes ptr sz) :=
  Op.along_reading touches_refl _

theorem touching_update {f : CpuState t → CpuState t} (hf : ∀ s, Quiet s (f s)) :
    Touching env (Exec.update f) := fun c => (Touch.quiet (hf c.cpu)).touches

theorem touching_fail (e : Stop) : Touching env (Op.fail e : Exec t π α) :=
  Op.along_fail touches_refl e

theorem touching_illegal : Touching env (Exec.illegal : Exec t π α) := touching_fail _

theorem touching_getReg (r : BitVec 5) : Touching env (Exec.getReg r) := touching_read _

theorem touching_setReg (rd : BitVec 5) (val : BitVec 64) : Touching env (Exec.setReg rd val) :=
  touching_update fun _ => rfl

theorem touching_fault (cause : BitVec 32) (tval : BitVec 64) :
    Touching env (Exec.fault cause tval : Exec t π α) := by
  apply Touching.bind
  · exact touching_update fun _ => rfl
  · exact fun _ => touching_fail _

theorem touching_retire : Touching env (Exec.retire : Exec t π Unit) :=
  touching_update fun _ => rfl

theorem touching_done (length : BitVec 64) : Touching env (Exec.done length : Exec t π α) := by
  apply touching_retire.bind
  intro _
  apply Touching.bind
  · exact touching_update fun _ => rfl
  · exact fun _ => touching_fail _

theorem touching_jumpTo (pc : BitVec 64) : Touching env (Exec.jumpTo pc) := by
  apply Touching.bind
  · exact touching_update fun _ => rfl
  · exact fun _ => touching_pure _

theorem touching_getPc : Touching env (Exec.getPc : Exec t π (BitVec 64)) := touching_read _

theorem touching_ite {p : Prop} [Decidable p] {x y : Exec t π α} (hx : p → Touching env x)
    (hy : ¬p → Touching env y) : Touching env (if p then x else y) := Op.along_ite hx hy

end Rules

/-! ## Loads and stores -/

section Memory

variable {env : Env t π}

theorem touching_getPhysAddr (addr : BitVec 64) (access : Access) :
    Touching env (Exec.getPhysAddr env addr access) := fun _ => (Touch.translate addr access).touches

theorem touching_readDevice (base : BitVec 64) (offset : BitVec 32) (sizeLog2 : Nat) :
    Touching env (Exec.readDevice env base offset sizeLog2) := fun _ =>
  (Touch.readDevice base offset sizeLog2).touches

theorem touching_writeDevice (base : BitVec 64) (offset value : BitVec 32) (sizeLog2 : Nat) :
    Touching env (Exec.writeDevice env base offset value sizeLog2) := fun _ =>
  (Touch.writeDevice base offset value sizeLog2).touches

theorem touching_readIo (pr : PhysMemoryRange t) (paddr : BitVec 64) (sz : Size) :
    Touching env (Exec.readIo env pr paddr sz) := by
  apply touching_ite
  · intro _
    exact (touching_readDevice _ _ _).bind fun _ => touching_pure _
  intro _
  apply touching_ite
  · intro _
    apply (touching_readDevice _ _ _).bind
    intro low
    cases low with
    | none => exact touching_pure _
    | some low => exact (touching_readDevice _ _ _).bind fun _ => touching_pure _
  · intro _
    exact touching_pure _

theorem touching_writeIo (pr : PhysMemoryRange t) (paddr val : BitVec 64) (sz : Size) :
    Touching env (Exec.writeIo env pr paddr val sz) := by
  apply touching_ite
  · intro _
    exact touching_writeDevice _ _ _ _
  intro _
  apply touching_ite
  · intro _
    apply (touching_writeDevice _ _ _ _).bind
    intro ok
    cases ok with
    | true => exact touching_writeDevice _ _ _ _
    | false => exact touching_pure _
  · intro _
    exact touching_pure _

/-- A call that goes on from the result of a translation.  The state after a translation
that succeeded is given to what follows. -/
theorem touching_translated {α : Type} {addr : BitVec 64} {access : Access}
    {f : TinyemuCore.TranslationResult → Exec t π α}
    (hpage : Touching env (f .pageFault)) (haccess : Touching env (f .accessFault))
    (hok : ∀ c paddr c₁, c.getPhysAddr env addr access = (.ok paddr, c₁) →
      Touches env c (f (.ok paddr) c₁).2) :
    Touching env (Exec.getPhysAddr env addr access >>= f) := by
  intro c
  rcases hresult : c.getPhysAddr env addr access with ⟨result, c₁⟩
  have hstep : Exec.getPhysAddr env addr access c = (.ok result, c₁) := by
    rw [Exec.getPhysAddr, hresult]
  have htouch : Touches env c c₁ := by
    have htranslate := (Touch.translate addr access : Touch env c _).touches
    rw [hresult] at htranslate
    exact htranslate
  rw [Op.bind_ok hstep]
  cases result with
  | pageFault => exact touches_trans _ _ _ htouch (hpage c₁)
  | accessFault => exact touches_trans _ _ _ htouch (haccess c₁)
  | ok paddr => exact hok c paddr c₁ hresult

/-- The accesses up to a translation that succeeded. -/
theorem touches_translated {addr : BitVec 64} {access : Access} {c c₁ : TinyemuCore t π}
    {paddr : BitVec 64} (h : c.getPhysAddr env addr access = (.ok paddr, c₁)) :
    Touches env c c₁ := by
  have htranslate := (Touch.translate addr access : Touch env c _).touches
  rw [h] at htranslate
  exact htranslate

theorem touching_targetReadSlowAligned (sz : Size) (addr : BitVec 64) :
    Touching env (Exec.targetReadSlowAligned env sz addr) := by
  apply touching_translated (touching_fault _ _) (touching_fault _ _)
  intro c paddr c₁ h
  dsimp only
  cases hrange : getPhysMemRange env.map paddr with
  | none => exact touches_trans _ _ _ (touches_translated h) (touching_fault _ _ c₁)
  | some found =>
    obtain ⟨i, pr⟩ := found
    dsimp only
    by_cases hram : pr.isRam = true
    · rw [if_pos hram]
      exact (Touch.readFill h hrange hram).touches
    · rw [if_neg hram]
      apply touches_trans _ _ _ (touches_translated h)
      refine ((touching_readIo pr paddr sz).bind fun val => ?_) c₁
      cases val with
      | none => exact touching_fault _ _
      | some val => exact touching_pure _

theorem touching_targetReadAligned (sz : Size) (addr : BitVec 64) :
    Touching env (Exec.targetReadAligned env sz addr) :=
  (touching_read _).bind fun _ =>
    touching_ite (fun _ => touching_loadBytes _ _) fun _ => touching_targetReadSlowAligned _ _

theorem touching_targetReadSlow (sz : Size) (addr : BitVec 64) :
    Touching env (Exec.targetReadSlow env sz addr) := by
  apply touching_ite
  · intro _
    exact touching_targetReadSlowAligned _ _
  intro _
  cases sz with
  | u8 => exact touching_targetReadSlowAligned _ _
  | u16 | u32 | u64 =>
    exact (touching_targetReadAligned _ _).bind fun _ =>
      (touching_targetReadAligned _ _).bind fun _ => touching_pure _

theorem touching_targetRead (sz : Size) (addr : BitVec 64) :
    Touching env (Exec.targetRead env sz addr) :=
  (touching_read _).bind fun _ =>
    touching_ite (fun _ => touching_loadBytes _ _) fun _ => touching_targetReadSlow _ _

theorem touching_targetWriteSlowAligned {sz : Size} {addr : BitVec 64}
    (halign : addr &&& sz.alignMask = 0) (val : BitVec 64) :
    Touching env (Exec.targetWriteSlowAligned env sz addr val) := by
  apply touching_translated (touching_fault _ _) (touching_fault _ _)
  intro c paddr c₁ h
  dsimp only
  cases hrange : getPhysMemRange env.map paddr with
  | none => exact touches_trans _ _ _ (touches_translated h) (touching_fault _ _ c₁)
  | some found =>
    obtain ⟨i, pr⟩ := found
    dsimp only
    by_cases hram : pr.isRam = true
    · rw [if_pos hram]
      exact (Touch.writeFill sz val halign h hrange hram).touches
    · rw [if_neg hram]
      apply touches_trans _ _ _ (touches_translated h)
      refine ((touching_writeIo pr paddr val sz).bind fun ok => ?_) c₁
      cases ok with
      | true => exact touching_read _
      | false => exact touching_fault _ _

/-- The fast path of a store. -/
theorem touching_store {sz : Size} {addr val : BitVec 64} {slow : Exec t π Bool}
    (hslow : Touching env slow) :
    Touching env (Exec.read (fun s : CpuState t => s.tlbWrite) >>= fun tlb =>
      if tlb.hits sz addr then
        Exec.storeBytes (tlb.ptr addr) sz val >>= fun _ => pure false
      else slow) := by
  intro c
  show Touches env c
    ((if c.cpu.tlbWrite.hits sz addr then
      Exec.storeBytes (c.cpu.tlbWrite.ptr addr) sz val >>= fun _ => pure false
      else slow) c).2
  by_cases hhit : c.cpu.tlbWrite.hits sz addr
  · rw [if_pos hhit]
    exact (Touch.storeHit sz val hhit).touches
  · rw [if_neg hhit]
    exact hslow c

theorem touching_targetWriteByte (addr val : BitVec 64) :
    Touching env (Exec.targetWriteByte env addr val) :=
  touching_store (touching_targetWriteSlowAligned (BitVec.and_zero) val)

theorem touching_targetWriteBytes (n : Nat) : ∀ addr val : BitVec 64,
    Touching env (Exec.targetWriteBytes env addr val n) := by
  induction n with
  | zero => exact fun _ _ => touching_pure _
  | succ n ih =>
    intro addr val
    exact (touching_targetWriteByte _ _).bind fun _ => ih _ _

theorem touching_targetWrite (sz : Size) (addr val : BitVec 64) :
    Touching env (Exec.targetWrite env sz addr val) := by
  apply touching_store
  apply touching_ite
  · intro halign
    exact touching_targetWriteSlowAligned halign val
  · intro _
    exact (touching_targetWriteBytes _ _ _).bind fun _ => touching_read _

theorem touching_targetWriteCheck (addr : BitVec 64) :
    Touching env (Exec.targetWriteCheck env addr) :=
  touching_translated (touching_fault _ _) (touching_fault _ _) fun _ _ _ h => touches_translated h

theorem touching_storeInsn (sz : Size) (addr val length : BitVec 64) :
    Touching env (Exec.storeInsn env sz addr val length) := by
  apply (touching_targetWrite _ _ _).bind
  intro handoff
  cases handoff with
  | true => exact touching_done _
  | false => exact touching_pure _

theorem touching_targetReadInsnSlow (addr : BitVec 64) :
    Touching env (Exec.targetReadInsnSlow env addr) := by
  apply touching_translated (touching_fault _ _) (touching_fault _ _)
  intro c paddr c₁ h
  dsimp only
  cases hrange : getPhysMemRange env.map paddr with
  | none => exact touches_trans _ _ _ (touches_translated h) (touching_fault _ _ c₁)
  | some found =>
    obtain ⟨i, pr⟩ := found
    dsimp only
    by_cases hram : pr.isRam = true
    · rw [if_pos hram]
      exact (Touch.codeFill h hrange hram).touches
    · rw [if_neg hram]
      exact touches_trans _ _ _ (touches_translated h) (touching_fault _ _ c₁)

theorem touching_codePtr (addr : BitVec 64) : Touching env (Exec.codePtr env addr) :=
  (touching_read _).bind fun _ =>
    touching_ite (fun _ => touching_pure _) fun _ => touching_targetReadInsnSlow _

theorem touching_fetchInsn : Touching env (Exec.fetchInsn env) := by
  apply (touching_read _).bind
  intro addr
  apply (touching_codePtr _).bind
  intro ptr
  apply (touching_loadBytes _ _).bind
  intro low
  apply touching_ite
  · intro _
    apply touching_ite
    · intro _
      exact (touching_codePtr _).bind fun _ => (touching_loadBytes _ _).bind fun _ =>
        touching_pure _
    · intro _
      exact touching_pure _
  · intro _
    exact (touching_loadBytes _ _).bind fun _ => touching_pure _

end Memory

end Cpu
end Riscbox
