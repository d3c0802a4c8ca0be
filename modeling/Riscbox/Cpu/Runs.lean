import Riscbox.Cpu.Instructions

/-!
# What an event can do

The inversion of a step: touches, a trap after touches, one control step, or a call of
the host.
-/

namespace Riscbox
namespace Cpu

variable {t : Target} {π : Type}

/-! ## What touches leave alone -/

/-- `s'` differs from `s` only in quiet registers, in the interrupt lines with the sleep
that they end, in the requests to the host and in the TLBs. -/
def SameControls (s s' : CpuState t) : Prop :=
  Quiet s { s' with
    mip := s.mip, powerDownFlag := s.powerDownFlag
    hostServiceRequested := s.hostServiceRequested, timerReprogrammed := s.timerReprogrammed
    tlbRead := s.tlbRead, tlbWrite := s.tlbWrite, tlbCode := s.tlbCode }

namespace SameControls

variable {s s' s'' : CpuState t}

theorem refl (s : CpuState t) : SameControls s s := rfl

theorem trans (h : SameControls s s') (h' : SameControls s' s'') : SameControls s s'' := by
  unfold SameControls Quiet at h h' ⊢
  rw [← h'] at h
  exact h

theorem priv (h : SameControls s s') : s'.priv = s.priv :=
  (congrArg (fun s : CpuState t => s.priv) h :)

theorem mstatus (h : SameControls s s') : s'.mstatus = s.mstatus :=
  (congrArg (fun s : CpuState t => s.mstatus) h :)

theorem mideleg (h : SameControls s s') : s'.mideleg = s.mideleg :=
  (congrArg (fun s : CpuState t => s.mideleg) h :)

theorem mie (h : SameControls s s') : s'.mie = s.mie :=
  (congrArg (fun s : CpuState t => s.mie) h :)

theorem mieWritten (h : SameControls s s') : s'.mieWritten = s.mieWritten :=
  (congrArg (fun s : CpuState t => s.mieWritten) h :)

theorem menvcfg (h : SameControls s s') : s'.menvcfg = s.menvcfg :=
  (congrArg (fun s : CpuState t => s.menvcfg) h :)

theorem stimecmp (h : SameControls s s') : s'.stimecmp = s.stimecmp :=
  (congrArg (fun s : CpuState t => s.stimecmp) h :)

theorem satp (h : SameControls s s') : s'.satp = s.satp :=
  (congrArg (fun s : CpuState t => s.satp) h :)

end SameControls

theorem Quiet.sameControls {s s' : CpuState t} (h : Quiet s s') : SameControls s s' := by
  unfold SameControls Quiet at *
  rw [← h]

namespace TinyemuCore

@[simp] theorem getPhysAddr_cpu (env : Env t π) (vaddr : BitVec 64) (access : Access)
    (c : TinyemuCore t π) : (c.getPhysAddr env vaddr access).2.cpu = c.cpu := by
  unfold getPhysAddr
  split
  · rfl
  · rfl
  · rfl
  · split <;> rfl

@[simp] theorem getPhysAddr_ticks (env : Env t π) (vaddr : BitVec 64) (access : Access)
    (c : TinyemuCore t π) :
    (c.getPhysAddr env vaddr access).2.guestTimerTicks = c.guestTimerTicks := by
  unfold getPhysAddr
  split
  · rfl
  · rfl
  · rfl
  · split <;> rfl

@[simp] theorem getPhysAddr_platform (env : Env t π) (vaddr : BitVec 64) (access : Access)
    (c : TinyemuCore t π) :
    (c.getPhysAddr env vaddr access).2.platform = c.platform := by
  unfold getPhysAddr
  split
  · rfl
  · rfl
  · rfl
  · split <;> rfl

theorem getPhysAddr_still {env : Env t π} {vaddr : BitVec 64} {access : Access}
    {c c₁ : TinyemuCore t π} {result : TranslationResult}
    (h : c.getPhysAddr env vaddr access = (result, c₁)) :
    c₁.cpu = c.cpu ∧ c₁.guestTimerTicks = c.guestTimerTicks ∧ c₁.platform = c.platform := by
  have hcpu := getPhysAddr_cpu env vaddr access c
  have hticks := getPhysAddr_ticks env vaddr access c
  have hplatform := getPhysAddr_platform env vaddr access c
  rw [h] at hcpu hticks hplatform
  exact ⟨hcpu, hticks, hplatform⟩

/-- A call for a range of RAM, or a write through it, changes RAM only. -/
def OnlyRam (c c' : TinyemuCore t π) : Prop := c' = { c with ram := c'.ram }

theorem OnlyRam.refl (c : TinyemuCore t π) : OnlyRam c c := rfl

theorem OnlyRam.trans {c c' c'' : TinyemuCore t π} (h : OnlyRam c c') (h' : OnlyRam c' c'') :
    OnlyRam c c'' := by
  unfold OnlyRam at *
  rw [h'] at *
  rw [h]

theorem onlyRam_ramRangeForWrite {env : Env t π} {c c' : TinyemuCore t π} {address : BitVec 64}
    {len : Nat} {ptr : Ptr t} (h : c.ramRangeForWrite env address len = some (ptr, c')) :
    OnlyRam c c' := by
  unfold ramRangeForWrite at h
  split at h
  · cases h
  · split at h
    · cases h
    · cases h
      rfl

theorem onlyRam_writeRam (env : Env t π) (c : TinyemuCore t π) (address : BitVec 64)
    (bytes : List (BitVec 8)) : OnlyRam c (c.writeRam env address bytes) := by
  unfold writeRam
  split
  · exact OnlyRam.refl c
  next hrange => exact (onlyRam_ramRangeForWrite hrange).trans rfl

theorem onlyRam_writes (env : Env t π) (writes : List (BitVec 64 × List (BitVec 8))) :
    ∀ c : TinyemuCore t π,
      OnlyRam c (writes.foldl (fun c (address, bytes) => c.writeRam env address bytes) c) := by
  induction writes with
  | nil => exact OnlyRam.refl
  | cons write writes ih =>
    intro c
    rw [List.foldl_cons]
    exact (onlyRam_writeRam env c write.1 write.2).trans (ih _)

end TinyemuCore

open TinyemuCore (Event onCpu OnlyRam onlyRam_writes)

variable {env : Env t π}

/-- The lines that a device access gives the CPU, with the request for the host. -/
theorem readDevice_cpu (base : BitVec 64) (offset : BitVec 32) (sizeLog2 : Nat)
    (c : TinyemuCore t π) :
    (Exec.readDevice env base offset sizeLog2 c).2.cpu =
      c.cpu.setInterrupts
        (env.platformInterrupts (Exec.readDevice env base offset sizeLog2 c).2.platform) := rfl

theorem readDevice_ticks (base : BitVec 64) (offset : BitVec 32) (sizeLog2 : Nat)
    (c : TinyemuCore t π) :
    (Exec.readDevice env base offset sizeLog2 c).2.guestTimerTicks = c.guestTimerTicks := rfl

theorem writeDevice_cpu (env : Env t π) (base : BitVec 64) (offset value : BitVec 32) (sizeLog2 : Nat)
    (c : TinyemuCore t π) : ∃ requested : Bool,
    (Exec.writeDevice env base offset value sizeLog2 c).2.cpu =
      { c.cpu.setInterrupts
          (env.platformInterrupts
            (Exec.writeDevice env base offset value sizeLog2 c).2.platform) with
        hostServiceRequested := requested } := by
  unfold Exec.writeDevice
  dsimp only
  have hwrites := onlyRam_writes env
    (env.platformWrite c.platform c.ram.mem (base + offset.setWidth 64) (2 ^ sizeLog2) value).writes
    { c with platform :=
      (env.platformWrite c.platform c.ram.mem (base + offset.setWidth 64) (2 ^ sizeLog2)
        value).platform }
  split
  · rw [hwrites]
    exact ⟨true, rfl⟩
  · rw [hwrites]
    exact ⟨c.cpu.hostServiceRequested, rfl⟩

theorem writeDevice_ticks (base : BitVec 64) (offset value : BitVec 32) (sizeLog2 : Nat)
    (c : TinyemuCore t π) :
    (Exec.writeDevice env base offset value sizeLog2 c).2.guestTimerTicks =
      c.guestTimerTicks := by
  unfold Exec.writeDevice
  dsimp only
  split
  · rw [onlyRam_writes]
    rfl
  · rw [onlyRam_writes]
    rfl

/-- An access keeps the control registers and the clock. -/
theorem Touch.sameControls {c c' : TinyemuCore t π} (h : Touch env c c') :
    SameControls c.cpu c'.cpu ∧ c'.guestTimerTicks = c.guestTimerTicks := by
  cases h with
  | quiet hquiet => exact ⟨hquiet.sameControls, rfl⟩
  | translate addr access =>
    rw [TinyemuCore.getPhysAddr_cpu, TinyemuCore.getPhysAddr_ticks]
    exact ⟨SameControls.refl _, rfl⟩
  | readFill hresult | codeFill hresult =>
    obtain ⟨hcpu, hticks, -⟩ := TinyemuCore.getPhysAddr_still hresult
    rw [← hcpu]
    exact ⟨rfl, hticks⟩
  | writeFill sz val haligned hresult =>
    obtain ⟨hcpu, hticks, -⟩ := TinyemuCore.getPhysAddr_still hresult
    rw [← hcpu]
    exact ⟨rfl, hticks⟩
  | storeHit sz val hhits => exact ⟨SameControls.refl _, rfl⟩
  | zero haligned hresult =>
    obtain ⟨hcpu, hticks, -⟩ := TinyemuCore.getPhysAddr_still hresult
    rw [← hcpu]
    exact ⟨rfl, hticks⟩
  | readDevice base offset sizeLog2 => exact ⟨rfl, rfl⟩
  | writeDevice base offset value sizeLog2 =>
    obtain ⟨requested, hcpu⟩ := writeDevice_cpu env base offset value sizeLog2 c
    rw [hcpu]
    exact ⟨rfl, writeDevice_ticks base offset value sizeLog2 c⟩

theorem Touches.sameControls {c c' : TinyemuCore t π} (h : Touches env c c') :
    SameControls c.cpu c'.cpu ∧ c'.guestTimerTicks = c.guestTimerTicks := by
  induction h with
  | refl => exact ⟨SameControls.refl _, rfl⟩
  | tail _ hstep ih =>
    have hnext := hstep.sameControls
    exact ⟨ih.1.trans hnext.1, hnext.2.trans ih.2⟩

/-- An access keeps the interrupt lines, or takes them from the platform. -/
theorem Touch.lines {c c' : TinyemuCore t π} (h : Touch env c c') :
    (c'.cpu.mip = c.cpu.mip ∧ c'.cpu.powerDownFlag = c.cpu.powerDownFlag ∧
        c'.platform = c.platform) ∨
      (c'.cpu.mip = (c.cpu.setInterrupts (env.platformInterrupts c'.platform)).mip ∧
        c'.cpu.powerDownFlag =
          (c.cpu.setInterrupts (env.platformInterrupts c'.platform)).powerDownFlag) := by
  cases h with
  | quiet hquiet =>
    exact .inl ⟨(congrArg (fun s : CpuState t => s.mip) hquiet :),
      (congrArg (fun s : CpuState t => s.powerDownFlag) hquiet :), rfl⟩
  | translate addr access =>
    rw [TinyemuCore.getPhysAddr_cpu, TinyemuCore.getPhysAddr_platform]
    exact .inl ⟨rfl, rfl, rfl⟩
  | readFill hresult | codeFill hresult =>
    obtain ⟨hcpu, -, hplatform⟩ := TinyemuCore.getPhysAddr_still hresult
    rw [← hcpu]
    exact .inl ⟨rfl, rfl, hplatform⟩
  | writeFill sz val haligned hresult =>
    obtain ⟨hcpu, -, hplatform⟩ := TinyemuCore.getPhysAddr_still hresult
    rw [← hcpu]
    exact .inl ⟨rfl, rfl, hplatform⟩
  | storeHit sz val hhits => exact .inl ⟨rfl, rfl, rfl⟩
  | zero haligned hresult =>
    obtain ⟨hcpu, -, hplatform⟩ := TinyemuCore.getPhysAddr_still hresult
    rw [← hcpu]
    exact .inl ⟨rfl, rfl, hplatform⟩
  | readDevice base offset sizeLog2 => exact .inr ⟨rfl, rfl⟩
  | writeDevice base offset value sizeLog2 =>
    obtain ⟨requested, hcpu⟩ := writeDevice_cpu env base offset value sizeLog2 c
    rw [hcpu]
    exact .inr ⟨rfl, rfl⟩

/-- A write that succeeds is the write of a register that exists. -/
theorem csrWrite_cases {csr : BitVec 12} {val : BitVec 64} {result : CSRWriteResult}
    {c c' : TinyemuCore t π} (h : Exec.csrWrite csr val c = (.ok result, c'))
    (hresult : result ≠ .error) : ∃ reg, Csr.ofNumber csr = some reg ∧
      (c.cpu.writeCsr c.guestTimerTicks val reg).1 = result ∧
      Quiet (c.cpu.writeCsr c.guestTimerTicks val reg).2 c'.cpu ∧
      c' = { c with
        cpu := c'.cpu
        ram := if csr = 0x180 ∧ result = .flushTlb then c.ram.fence else c.ram } := by
  rw [csrWrite_apply] at h
  unfold CpuState.csrWrite at h
  by_cases hdenied : csr = 0x180 ∧ c.cpu.satpDenied
  · rw [if_pos hdenied] at h
    cases h
    exact absurd rfl hresult
  rw [if_neg hdenied] at h
  cases hreg : Csr.ofNumber csr with
  | none =>
    rw [hreg] at h
    cases h
    exact absurd rfl hresult
  | some reg =>
    rw [hreg] at h
    cases h
    refine ⟨reg, rfl, rfl, ?_, rfl⟩
    dsimp only
    split <;> rfl

/-! ## Inversion of a step -/

/-- The event ends in a trap. -/
def TinyemuCore.Traps (env : Env t π) (c : TinyemuCore t π) : Event π → Prop
  | .insn insn =>
    (Exec.exec env insn (c.onCpu CpuState.tick)).1 = .err .illegalInsn ∨
      (Exec.exec env insn (c.onCpu CpuState.tick)).1 = .err .exception
  | .fetch => ∃ e, (Exec.fetchInsn env c).1 = .err e
  | .interrupt => c.cpu.getPendingIrqMask ≠ 0
  | _ => False

/-- How an event moves the core. -/
inductive Turn (env : Env t π) (c : TinyemuCore t π) (e : Event π) : TinyemuCore t π → Prop
  | touches {c' : TinyemuCore t π} : e.isCpu = true → Touches env c c' → Turn env c e c'
  | trap {m : TinyemuCore t π} (cause : BitVec 32) (tval : BitVec 64) :
      c.Traps env e → Touches env c m →
      Turn env c e (m.onCpu fun s => s.raiseException2 cause tval)
  | control {insn : BitVec 32} {m : TinyemuCore t π} {s : CpuState t} :
      e = .insn insn → Control (c.onCpu CpuState.tick) insn m → Quiet m.cpu s →
      Turn env c e { m with cpu := s }
  | host {c' : TinyemuCore t π} : e.isCpu = false → c.next env e = some c' → Turn env c e c'

theorem raiseException2_tick (s : CpuState t) (cause : BitVec 32) (tval : BitVec 64) :
    (s.raiseException2 cause tval).tick = s.tick.raiseException2 cause tval := by
  unfold CpuState.raiseException2 CpuState.setPriv CpuState.tick
  dsimp only
  split <;> rfl

theorem touches_quiet {c : TinyemuCore t π} {s : CpuState t} (h : Quiet c.cpu s) :
    Touches env c { c with cpu := s } := (Touch.quiet h).touches

theorem touches_tick (c : TinyemuCore t π) : Touches env c (c.onCpu CpuState.tick) :=
  touches_quiet rfl

/-- Where touches and a trap lead. -/
theorem turn_takeException {c m : TinyemuCore t π} {e : Event π} (htraps : c.Traps env e)
    (h : Touches env c m) : Turn env c e (m.onCpu CpuState.takeException) := by
  have hticked : Touches env c (m.onCpu CpuState.tick) :=
    touches_trans _ _ _ h (touches_tick m)
  exact Turn.trap _ _ htraps hticked

theorem turn_fetch (c : TinyemuCore t π) : Turn env c .fetch (c.runFetch env) := by
  have htouching : Touches env c (Exec.fetchInsn env c).2 := touching_fetchInsn c
  unfold TinyemuCore.runFetch
  split
  next hfetch =>
    rw [hfetch] at htouching
    exact .touches rfl htouching
  next e _ hfetch =>
    have htraps : c.Traps env .fetch := ⟨e, by rw [hfetch]⟩
    rw [hfetch] at htouching
    exact turn_takeException htraps htouching
  next hfetch =>
    rw [hfetch] at htouching
    exact .touches rfl htouching

theorem turn_interrupt {c : TinyemuCore t π} {s : CpuState t}
    (h : c.cpu.raiseInterrupt = some s) : Turn env c .interrupt { c with cpu := s.tick } := by
  unfold CpuState.raiseInterrupt at h
  by_cases hmask : c.cpu.getPendingIrqMask = 0
  · rw [if_pos hmask] at h
    cases h
  · rw [if_neg hmask] at h
    cases h
    rw [raiseException2_tick]
    exact Turn.trap (m := c.onCpu CpuState.tick) _ _ hmask (touches_tick c)

/-- The end of an instruction of touches. -/
theorem turn_touching {c m : TinyemuCore t π} {insn : BitVec 32} {r : Outcome Stop Flow}
    (hexec : Exec.exec env insn (c.onCpu CpuState.tick) = (r, m)) (h : Touches env c m) :
    Turn env c (.insn insn) (TinyemuCore.afterInsn insn (r, m)) := by
  have hr : (Exec.exec env insn (c.onCpu CpuState.tick)).1 = r := congrArg Prod.fst hexec
  cases r with
  | ok flow =>
    cases flow with
    | next length =>
      exact .touches rfl (touches_trans _ _ _ h (touches_quiet rfl))
    | jump => exact .touches rfl (touches_trans _ _ _ h (touches_quiet rfl))
  | err e =>
    cases e with
    | doneInterp => exact .touches rfl h
    | exception => exact turn_takeException (Or.inr hr) h
    | illegalInsn =>
      have hpending : Touches env c (m.onCpu fun s =>
          { s with
            pendingException := causeIllegalInstruction
            pendingTval := TinyemuCore.illegalTval insn }) :=
        touches_trans _ _ _ h (touches_quiet rfl)
      have htraps : c.Traps env (.insn insn) := Or.inl hr
      exact turn_takeException htraps hpending
  | panic => exact .touches rfl h

/-- An instruction of the `SYSTEM` opcode has 32 bits. -/
theorem exec_system {insn : BitVec 32} (hop : opcodeOf insn = 0x73) (c : TinyemuCore t π) :
    Exec.exec env insn c = Exec.system insn c := by
  have hlow : insn &&& 0x7f = 0x73 := BitVec.eq_of_toNat_eq hop
  have hquadrant : insn &&& 3 = 3 := by
    rw [show (3 : BitVec 32) = 0x7f &&& 3 by decide, ← BitVec.and_assoc, hlow]
    decide
  unfold Exec.exec
  rw [hquadrant]
  show Exec.exec32 env insn c = _
  unfold Exec.exec32
  rw [hop]
  rfl

theorem turn_insn (c : TinyemuCore t π) (insn : BitVec 32) :
    Turn env c (.insn insn) (c.runInsn env insn) := by
  have hticked : Touches env c (c.onCpu CpuState.tick) := touches_tick c
  by_cases hop : opcodeOf insn = 0x73
  · have hend := endsSystem_system (c := c.onCpu CpuState.tick) hop
    unfold EndsSystem at hend
    unfold TinyemuCore.runInsn
    have hexec : Exec.exec env insn (c.onCpu CpuState.tick) =
        Exec.system insn (c.onCpu CpuState.tick) := exec_system hop _
    rcases hresult : Exec.system insn (c.onCpu CpuState.tick) with ⟨r, m⟩
    rw [hresult] at hend hexec
    rw [hexec]
    cases hend with
    | quiet hquiet =>
      exact turn_touching hexec (touches_trans _ _ _ hticked (touches_quiet hquiet))
    | next hcontrol hquiet =>
      rename_i m s flow
      cases flow with
      | next length => exact .control (m := m) rfl hcontrol (hquiet.trans rfl)
      | jump => exact .control (m := m) rfl hcontrol (hquiet.trans rfl)
    | done hcontrol hquiet => exact .control rfl hcontrol hquiet
  · have htouching : Touching env (Exec.exec env insn) := touching_exec hop
    exact turn_touching rfl (touches_trans _ _ _ hticked (htouching _))

/-- Every step of the core. -/
theorem TinyemuCore.Step.turn {c c' : TinyemuCore t π} {e : Event π} (h : Step env c e c') :
    Turn env c e c' := by
  obtain ⟨-, h⟩ := h
  cases e with
  | enterInterp =>
    cases h
    exact .touches rfl (touches_quiet rfl)
  | interrupt =>
    rw [next, Option.map_eq_some_iff] at h
    obtain ⟨s, hraise, h⟩ := h
    subst h
    exact turn_interrupt hraise
  | fetch =>
    rw [next] at h
    split at h
    · cases h
      exact turn_fetch c
    · cases h
  | insn insn =>
    cases h
    exact turn_insn c insn
  | _ => exact .host rfl h

/-! ## Calls of the host -/

theorem updateTime_sameControls (s : CpuState t) (time : BitVec 64) :
    SameControls s (s.updateTime time) := by
  unfold CpuState.updateTime
  split
  · rfl
  · split <;> rfl

/-- A snapshot changes only the write TLB and what belongs to RAM. -/
theorem takeDirty_eq (env : Env t π) (c : TinyemuCore t π) (region count : Nat) :
    ∃ tlbWrite ram,
    (c.takeDirty env region count).2 =
      { c with cpu := { c.cpu with tlbWrite := tlbWrite }, ram := ram } := by
  unfold TinyemuCore.takeDirty
  split
  · exact ⟨_, _, rfl⟩
  · split
    · exact ⟨_, _, rfl⟩
    · unfold TinyemuCore.getDirtyBits
      dsimp only
      split
      · exact ⟨_, _, rfl⟩
      · exact ⟨_, _, rfl⟩

theorem clearDirty_eq (env : Env t π) (c : TinyemuCore t π) (region : Nat)
    (offset : BitVec 64) : ∃ tlbWrite ram, (c.clearDirty env region offset).2 =
      { c with cpu := { c.cpu with tlbWrite := tlbWrite }, ram := ram } := by
  unfold TinyemuCore.clearDirty
  split
  · exact ⟨_, _, rfl⟩
  · split
    · exact ⟨_, _, rfl⟩
    · unfold TinyemuCore.resetDirtyBit
      dsimp only
      split
      · exact ⟨_, _, rfl⟩
      · exact ⟨_, _, rfl⟩

/-- A call of the host resets the CPU or keeps its control registers. -/
theorem host_sameControls {c c' : TinyemuCore t π} {e : Event π} (he : e.isCpu = false)
    (h : c.next env e = some c') : c'.cpu = .init ∨ SameControls c.cpu c'.cpu := by
  cases e with
  | enterInterp | interrupt | fetch | insn => cases he
  | setGuestTimerTicks ticks =>
    cases h
    exact .inr (updateTime_sameControls c.cpu ticks)
  | resetCpu =>
    cases h
    exact .inl rfl
  | takeDirty region count =>
    cases h
    obtain ⟨tlb, ram, htake⟩ := takeDirty_eq env c region count
    rw [htake]
    exact .inr rfl
  | clearDirty region offset =>
    cases h
    obtain ⟨tlb, ram, hclear⟩ := clearDirty_eq env c region offset
    rw [hclear]
    exact .inr rfl
  | ramRange address len =>
    rw [TinyemuCore.next, Option.map_eq_some_iff] at h
    obtain ⟨⟨ptr, c₁⟩, hrange, h⟩ := h
    cases h
    rw [TinyemuCore.onlyRam_ramRangeForWrite hrange]
    exact .inr rfl
  | writeRam address bytes =>
    cases h
    rw [TinyemuCore.onlyRam_writeRam env c address bytes]
    exact .inr rfl
  | setInterrupts | startRun | platform =>
    cases h
    exact .inr rfl

/-! ## Writes that an instruction makes -/

theorem csrrsc_apply {c : TinyemuCore t π} {csr : BitVec 12} {rs1 : BitVec 5} {old : BitVec 64}
    (rd : BitVec 5) (f : BitVec 64 → BitVec 64) (hrs1 : rs1 ≠ 0)
    (hold : c.cpu.csrRead c.guestTimerTicks csr true = some old) :
    Exec.csrrsc rd csr rs1 f c =
      (Exec.csrWrite csr (f old) >>= fun result => Exec.csrDone rd old result) c := by
  have hread : Exec.csrRead csr (decide (rs1 ≠ 0)) c = (.ok old, c) := by
    rw [decide_eq_true hrs1]
    exact csrRead_some hold
  unfold Exec.csrrsc
  rw [Op.bind_ok hread, if_neg hrs1]

/-- An instruction that writes a register reads it first, and then writes it. -/
theorem map_eq_some_of_guard {α β : Type} {p : Prop} [Decidable p] {x : Option α} {f : α → β}
    {b : β} (h : (if p then none else x.map f) = some b) : ¬p ∧ ∃ a, x = some a ∧ f a = b := by
  by_cases hp : p
  · rw [if_pos hp] at h
    cases h
  · rw [if_neg hp] at h
    exact ⟨hp, Option.map_eq_some_iff.mp h⟩

theorem system_of_csrWriteOf {c : TinyemuCore t π} {insn : BitVec 32} {csr : BitVec 12}
    {val : BitVec 64} (h : c.csrWriteOf insn = some (csr, val)) : ∃ old,
    Exec.system insn c =
      (Exec.csrWrite csr val >>= fun result => Exec.csrDone (rdOf insn) old result) c := by
  unfold TinyemuCore.csrWriteOf at h
  dsimp only at h
  by_cases hguard : opcodeOf insn ≠ 0x73 ∨ (funct3Of insn = 4 ∧ Exec.isMop insn)
  · rw [if_pos hguard] at h
    cases h
  rw [if_neg hguard] at h
  have hread : Exec.getReg (rs1Of insn) c = (.ok (c.cpu.reg.get (rs1Of insn)), c) := rfl
  unfold Exec.system
  rw [if_neg (fun hmop => hguard (.inr hmop)), Op.bind_ok hread]
  have hkind : funct3Of insn % 4 < 4 := Nat.mod_lt _ (by decide)
  generalize funct3Of insn % 4 = kind at h hkind ⊢
  rcases show kind = 0 ∨ kind = 1 ∨ kind = 2 ∨ kind = 3 by omega with rfl | rfl | rfl | rfl
  · cases h
  · obtain ⟨old, hold, h⟩ := Option.map_eq_some_iff.mp h
    cases h
    exact ⟨old, Op.bind_ok (csrRead_some hold)⟩
  · obtain ⟨hrs1, old, hold, h⟩ := map_eq_some_of_guard h
    cases h
    exact ⟨old, csrrsc_apply _ _ hrs1 hold⟩
  · obtain ⟨hrs1, old, hold, h⟩ := map_eq_some_of_guard h
    cases h
    exact ⟨old, csrrsc_apply _ _ hrs1 hold⟩

theorem opcode_of_csrWriteOf {c : TinyemuCore t π} {insn : BitVec 32} {w : BitVec 12 × BitVec 64}
    (h : c.csrWriteOf insn = some w) : opcodeOf insn = 0x73 := by
  by_contra hop
  unfold TinyemuCore.csrWriteOf at h
  dsimp only at h
  rw [if_pos (.inl hop)] at h
  cases h

theorem csrDone_quiet {insn : BitVec 32} {rd : BitVec 5} {old : BitVec 64}
    {result : CSRWriteResult} (hresult : result ≠ .error) (c : TinyemuCore t π) :
    Quiet c.cpu (TinyemuCore.afterInsn insn (Exec.csrDone rd old result c)).cpu := by
  cases result with
  | error => exact absurd rfl hresult
  | ok | minstret | flushTlb | interrupt => rfl

/-- The registers after an instruction that writes `reg`. -/
theorem runInsn_of_csrWriteOf {c : TinyemuCore t π} {insn : BitVec 32} {csr : BitVec 12}
    {val : BitVec 64} {reg : Csr} (h : (c.onCpu CpuState.tick).csrWriteOf insn = some (csr, val))
    (hreg : Csr.ofNumber csr = some reg) (hsatp : reg ≠ .satp)
    (hok : (c.cpu.tick.writeCsr c.guestTimerTicks val reg).1 ≠ .error) :
    Quiet (c.cpu.tick.writeCsr c.guestTimerTicks val reg).2 (c.runInsn env insn).cpu := by
  obtain ⟨old, hsystem⟩ := system_of_csrWriteOf h
  have hcsr : ¬(csr = 0x180 ∧ (c.onCpu CpuState.tick).cpu.satpDenied) := by
    intro hdenied
    rw [hdenied.1] at hreg
    exact hsatp (Option.some.inj hreg).symm
  have hwrite := csrWrite_apply csr val (c.onCpu CpuState.tick)
  unfold CpuState.csrWrite at hwrite
  rw [if_neg hcsr, hreg] at hwrite
  unfold TinyemuCore.runInsn
  rw [exec_system (opcode_of_csrWriteOf h), hsystem, Op.bind_ok hwrite]
  refine Quiet.trans ?_ (csrDone_quiet hok _)
  dsimp only
  split <;> rfl

/-- The events `es` in turn; nothing where one of them cannot happen. -/
def TinyemuCore.runEvents (env : Env t π) :
    TinyemuCore t π → List (Event π) → Option (TinyemuCore t π)
  | c, [] => some c
  | c, e :: es =>
    if e.isCpu ∧ c.cpu.powerDownFlag then none
    else (c.next env e).bind fun c => c.runEvents env es

theorem TinyemuCore.reached_runEvents {es : List (Event π)} {c c' : TinyemuCore t π}
    (h : Reached env (fun _ _ => True) c) (hrun : c.runEvents env es = some c') :
    Reached env (fun _ _ => True) c' := by
  induction es generalizing c with
  | nil =>
    cases hrun
    exact h
  | cons e es ih =>
    unfold runEvents at hrun
    by_cases hsleep : e.isCpu ∧ c.cpu.powerDownFlag
    · rw [if_pos hsleep] at hrun
      cases hrun
    rw [if_neg hsleep, Option.bind_eq_some_iff] at hrun
    obtain ⟨c₁, hnext, hrun⟩ := hrun
    have hawake : e.isCpu → c.cpu.powerDownFlag = false := by
      intro he
      exact Bool.eq_false_iff.mpr fun hpower => hsleep ⟨he, hpower⟩
    exact ih (h.step trivial ⟨hawake, hnext⟩) hrun

/-! ## A core without memory or devices -/

/-- The surroundings of a core whose platform has registered nothing. -/
def bareEnv (t : Target) : Env t Unit where
  map :=
    { ranges := []
      size_eq := by simp
      noWrap := by simp
      paged := by simp
      ramFirst := .nil
      block := by simp
      disjoint := .nil }
  platformRead := fun _ _ _ _ => (false, 0, ())
  platformWrite := fun _ _ _ _ _ => ⟨false, (), []⟩
  platformInterrupts := fun _ => 0
  platformServiceRequested := fun _ => false
  fpu := fun _ _ _ _ _ => none

def bareCore (t : Target) : TinyemuCore t Unit where
  cpu := .init
  ram := ⟨fun _ => 0, fun _ => ⟨false, fun _ => []⟩, fun _ => false, fun _ => false⟩
  guestTimerTicks := 0
  platform := ()

theorem initial_bareCore (t : Target) : TinyemuCore.Initial (bareEnv t) (bareCore t) where
  cpu := rfl
  ticks := rfl
  dirty := by
    intro i pr h
    cases h
  changed := rfl
  stored := rfl

/-- The core after the instructions `insns`. -/
def TinyemuCore.runInsns (env : Env t π) (insns : List (BitVec 32)) (c : TinyemuCore t π) :
    TinyemuCore t π := insns.foldl (fun c insn => c.runInsn env insn) c

end Cpu
end Riscbox
