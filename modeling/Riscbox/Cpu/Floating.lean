import Riscbox.Cpu.Float
import Riscbox.SoftFloat.Best

/-!
# What the floating-point instructions change
-/

namespace Riscbox
namespace SoftFloat

open Format

variable {F : Format} {fflags : BitVec 32}

/-! ## Flags are only raised -/

/-- The flags `r` are those of `fflags` with some of the five exceptions raised. -/
def Raised (fflags r : BitVec 32) : Prop := ∃ e : BitVec 5, r = fflags ||| e.setWidth 32

namespace Raised

theorem refl (fflags : BitVec 32) : Raised fflags fflags := ⟨0, BitVec.or_zero.symm⟩

theorem trans {a b c : BitVec 32} (h : Raised a b) (h' : Raised b c) : Raised a c := by
  obtain ⟨e, rfl⟩ := h
  obtain ⟨e', rfl⟩ := h'
  exact ⟨e ||| e', by rw [BitVec.setWidth_or, BitVec.or_assoc]⟩

theorem invalidOp {a b : BitVec 32} (h : Raised a b) : Raised a (b ||| fflagInvalidOp) :=
  h.trans ⟨16, rfl⟩

theorem divideZero {a b : BitVec 32} (h : Raised a b) : Raised a (b ||| fflagDivideZero) :=
  h.trans ⟨8, rfl⟩

theorem overflow {a b : BitVec 32} (h : Raised a b) :
    Raised a (b ||| (fflagOverflow ||| fflagInexact)) :=
  h.trans ⟨5, rfl⟩

theorem underflow {a b : BitVec 32} (h : Raised a b) : Raised a (b ||| fflagUnderflow) :=
  h.trans ⟨2, rfl⟩

theorem inexact {a b : BitVec 32} (h : Raised a b) : Raised a (b ||| fflagInexact) :=
  h.trans ⟨1, rfl⟩

theorem ite {p : Prop} [Decidable p] {a b c : BitVec 32} (hb : Raised a b) (hc : Raised a c) :
    Raised a (if p then b else c) := by
  split
  · exact hb
  · exact hc

end Raised

variable {a b c : F.Word} {rm : RoundingMode}

theorem roundPackSf_raised (s : Bool) (e : Int) (m : F.Word) :
    Raised fflags (roundPackSf F s e m rm fflags).2 := by
  unfold roundPackSf
  generalize (if e ≤ 0 then rshiftRnd m (1 - e).toNat else m) = shifted
  generalize (if e ≤ 0 then 1 else e) = low
  dsimp only
  have hunder := (Raised.refl fflags).underflow.ite (Raised.refl fflags)
    (p := (e ≤ 0 ∧ (e < 0 ∨ m + addend F s rm < F.bit (F.fSize - 1))) ∧ rndBits shifted ≠ 0)
  have hflags := hunder.inexact.ite hunder (p := rndBits shifted ≠ 0)
  simp only [apply_ite Prod.snd]
  exact hflags.ite ((hflags.overflow.ite hflags.overflow).ite hflags)

theorem normalizeSf_raised (s : Bool) (e : Int) (m : F.Word) :
    Raised fflags (normalizeSf F s e m rm fflags).2 := roundPackSf_raised _ _ _

theorem normalize2Sf_raised (s : Bool) (e : Int) (m1 m0 : F.Word) :
    Raised fflags (normalize2Sf F s e m1 m0 rm fflags).2 := roundPackSf_raised _ _ _

/-- The flags of an operation that may have met a signaling NaN. -/
theorem Raised.signaling (fflags : BitVec 32) (p : Prop) [Decidable p] :
    Raised fflags (if p then fflags ||| fflagInvalidOp else fflags) :=
  (Raised.refl fflags).invalidOp.ite (Raised.refl fflags)

theorem addSf_raised : Raised fflags (addSf a b rm fflags).2 := by
  have hrefl := Raised.refl fflags
  have hfinite : ∀ a b : F.Word, Raised fflags (addFinite a b rm fflags).2 := by
    intro a b
    unfold addFinite
    simp only [apply_ite Prod.snd]
    exact (normalizeSf_raised _ _ _).ite (normalizeSf_raised _ _ _)
  have hordered : ∀ a b : F.Word, Raised fflags (addOrdered a b rm fflags).2 := by
    intro a b
    unfold addOrdered
    simp only [apply_ite Prod.snd]
    exact ((hrefl.invalidOp.ite hrefl).ite (hrefl.invalidOp.ite hrefl)).ite (hfinite a b)
  unfold addSf
  simp only [apply_ite Prod.snd]
  exact (hordered b a).ite (hordered a b)

theorem subSf_raised : Raised fflags (subSf a b rm fflags).2 := addSf_raised

theorem mulSf_raised : Raised fflags (mulSf a b rm fflags).2 := by
  have hrefl := Raised.refl fflags
  have hfinite : Raised fflags (mulFinite a b rm fflags).2 := normalizeSf_raised _ _ _
  unfold mulSf
  simp only [apply_ite Prod.snd]
  exact ((Raised.signaling _ _).ite (hrefl.invalidOp.ite hrefl)).ite
    (hrefl.ite (hrefl.ite hfinite))

theorem divSf_raised : Raised fflags (divSf a b rm fflags).2 := by
  have hrefl := Raised.refl fflags
  have hfinite : Raised fflags (divFinite a b rm fflags).2 := normalizeSf_raised _ _ _
  have hnan := Raised.signaling fflags (issignanSf a ∨ issignanSf b)
  unfold divSf
  simp only [apply_ite Prod.snd]
  exact (hnan.ite (hrefl.invalidOp.ite hrefl)).ite ((hnan.ite hrefl).ite
    ((hrefl.invalidOp.ite hrefl.divideZero).ite (hrefl.ite hfinite)))

theorem sqrtSf_raised : Raised fflags (sqrtSf a rm fflags).2 := by
  have hrefl := Raised.refl fflags
  have hfinite : Raised fflags (sqrtFinite a rm fflags).2 := normalizeSf_raised _ _ _
  unfold sqrtSf
  simp only [apply_ite Prod.snd]
  exact ((Raised.signaling _ _).ite (hrefl.invalidOp.ite hrefl)).ite
    ((hrefl.ite hrefl.invalidOp).ite (hrefl.ite hfinite))

theorem fmaSf_raised : Raised fflags (fmaSf a b c rm fflags).2 := by
  have hrefl := Raised.refl fflags
  have hsum : ∀ r c : Term F, Raised fflags (fmaSum r c rm fflags).2 := by
    intro r c
    unfold fmaSum
    simp only [apply_ite Prod.snd]
    exact (normalize2Sf_raised _ _ _ _).ite (normalize2Sf_raised _ _ _ _)
  have hfinite : Raised fflags (fmaFinite a b c rm fflags).2 := by
    unfold fmaFinite
    simp only [apply_ite Prod.snd]
    exact (normalizeSf_raised _ _ _).ite ((hsum _ _).ite (hsum _ _))
  unfold fmaSf
  simp only [apply_ite Prod.snd]
  exact ((Raised.signaling _ _).ite (hrefl.invalidOp.ite (hrefl.ite hrefl))).ite
    ((hrefl.ite hrefl).ite hfinite)

theorem minMaxNanSf_raised (t : MinMaxType) : Raised fflags (minMaxNanSf a b fflags t).2 := by
  have hflags := Raised.signaling fflags ((issignanSf a || issignanSf b) = true)
  unfold minMaxNanSf
  simp only [apply_ite Prod.snd]
  exact hflags.ite (hflags.ite ((hflags.ite hflags).ite hflags))

theorem minSf_raised (t : MinMaxType) : Raised fflags (minSf a b fflags t).2 := by
  have hrefl := Raised.refl fflags
  unfold minSf
  simp only [apply_ite Prod.snd]
  exact (minMaxNanSf_raised t).ite ((hrefl.ite hrefl).ite (hrefl.ite hrefl))

theorem maxSf_raised (t : MinMaxType) : Raised fflags (maxSf a b fflags t).2 := by
  have hrefl := Raised.refl fflags
  unfold maxSf
  simp only [apply_ite Prod.snd]
  exact (minMaxNanSf_raised t).ite ((hrefl.ite hrefl).ite (hrefl.ite hrefl))

theorem eqQuietSf_raised : Raised fflags (eqQuietSf a b fflags).2 := by
  have hrefl := Raised.refl fflags
  unfold eqQuietSf
  simp only [apply_ite Prod.snd]
  exact (Raised.signaling _ _).ite (hrefl.ite hrefl)

theorem leSf_raised : Raised fflags (leSf a b fflags).2 := by
  have hrefl := Raised.refl fflags
  unfold leSf
  simp only [apply_ite Prod.snd]
  exact hrefl.invalidOp.ite (hrefl.ite (hrefl.ite hrefl))

theorem ltSf_raised : Raised fflags (ltSf a b fflags).2 := by
  have hrefl := Raised.refl fflags
  unfold ltSf
  simp only [apply_ite Prod.snd]
  exact hrefl.invalidOp.ite (hrefl.ite (hrefl.ite hrefl))

theorem internalCvtSfI_raised (I : IcvtSize) (isUnsigned : Bool) :
    Raised fflags (internalCvtSfI I a rm fflags isUnsigned).2 := by
  have hrefl := Raised.refl fflags
  unfold internalCvtSfI
  simp only [apply_ite Prod.snd]
  exact ((hrefl.invalidOp.ite hrefl).ite hrefl.invalidOp).ite
    (hrefl.invalidOp.ite (hrefl.inexact.ite hrefl))

theorem internalCvtISf_raised (I : IcvtSize) (r : I.Word) (isUnsigned : Bool) :
    Raised fflags (internalCvtISf I F r rm fflags isUnsigned).2 := by
  unfold internalCvtISf
  simp only [apply_ite Prod.snd]
  exact (normalizeSf_raised _ _ _).ite (normalizeSf_raised _ _ _)

theorem cvtWiden_raised {G : Format} (a : G.Word) : Raised fflags (cvtWiden G F a fflags).2 := by
  have hrefl := Raised.refl fflags
  unfold cvtWiden
  simp only [apply_ite Prod.snd]
  exact ((Raised.signaling _ _).ite hrefl).ite (hrefl.ite hrefl)

theorem cvtNarrow_raised {G : Format} : Raised fflags (cvtNarrow F G a rm fflags).2 := by
  have hrefl := Raised.refl fflags
  unfold cvtNarrow
  simp only [apply_ite Prod.snd]
  exact ((Raised.signaling _ _).ite hrefl).ite (hrefl.ite (normalizeSf_raised _ _ _))

/-! ## Injected signs -/

theorem and_signMask (b : F.Word) : b &&& F.signMask = if signOf b then F.signMask else 0 := by
  have hsize := F.fSize_eq
  apply BitVec.eq_of_toNat_eq
  have hsign := signOf_toNat b
  rw [BitVec.toNat_and, signMask, bit_toNat (by omega), Nat.and_two_pow, Nat.testBit_eq_decide_div_mod_eq,
    Nat.mod_eq_of_lt (Nat.div_lt_of_lt_mul (by have := word_lt b; omega)), ← hsign]
  cases signOf b
  · simp
  · simpa using (bit_toNat (by omega)).symm

/-- A magnitude with another sign. -/
theorem withSign_fields (a : F.Word) (s : Bool) :
    signOf (absSf a ||| if s then F.signMask else 0) = s ∧
      magnitude (absSf a ||| if s then F.signMask else 0) = magnitude a := by
  have hsize := F.fSize_eq
  have hlt : a.toNat % 2 ^ (F.fSize - 1) < 2 ^ (F.fSize - 1) := Nat.mod_lt _ (Nat.two_pow_pos _)
  have hword : (absSf a ||| if s then F.signMask else 0).toNat =
      a.toNat % 2 ^ (F.fSize - 1) + s.toNat * 2 ^ (F.fSize - 1) := by
    cases s with
    | false => simp [absSf_toNat]
    | true =>
      rw [if_pos rfl, signMask, or_leading_toNat (by rwa [absSf_toNat]) (by omega), absSf_toNat,
        Nat.add_comm, Bool.toNat_true, Nat.one_mul]
  constructor
  · have hsign := signOf_toNat (absSf a ||| if s then F.signMask else 0)
    rw [hword, Nat.add_mul_div_right _ _ (Nat.two_pow_pos _), Nat.div_eq_of_lt hlt, Nat.zero_add]
      at hsign
    generalize signOf (absSf a ||| if s then F.signMask else 0) = sign at hsign ⊢
    cases s <;> cases sign <;> simp at hsign ⊢
  · rw [magnitude_eq_iff, hword, Nat.add_mul_mod_self_right, Nat.mod_mod]


/-- The sign that `fsgnj`, `fsgnjn` and `fsgnjx` inject. -/
def injectedSign (rm : Nat) (s t : Bool) : Bool :=
  if rm = 0 then t else if rm = 1 then !t else s ^^ t

def injected (rm : Nat) (a b : F.Word) : F.Word :=
  absSf a ||| if injectedSign rm (signOf a) (signOf b) then F.signMask else 0

theorem injected_fields (rm : Nat) (a b : F.Word) :
    signOf (injected rm a b) = injectedSign rm (signOf a) (signOf b) ∧
      magnitude (injected rm a b) = magnitude a := withSign_fields a _

end SoftFloat

namespace Cpu
namespace Fpu

open SoftFloat

attribute [local instance] Rounding.atLeastTwo

variable {z : FSize} {s : State} {d : Done} {rd : BitVec 5}

/-! ## The frame of an instruction -/

/-- All that an instruction for `rd` may change. -/
structure Frame (s : State) (rd : BitVec 5) (d : Done) : Prop where
  flags : Raised s.fflags d.2.2.1
  target : d.1 = s.reg ∧ (∀ i, i ≠ rd → d.2.1 i = s.fpReg i) ∨
    d.2.1 = s.fpReg ∧ ∃ val, d.1 = s.reg.set rd val
  clean : d.2.2.2 = false → d.2.1 = s.fpReg ∧ d.2.2.1 = s.fflags

theorem setF_frame {r : z.format.Result} (hflags : Raised s.fflags r.2) (h : setF s rd z r = some d) :
    Frame s rd d := by
  cases h
  exact {
    flags := hflags
    target := Or.inl ⟨rfl, fun i hi => Function.update_of_ne hi _ _⟩
    clean := fun h => Bool.noConfusion h }

theorem setX_frame {val : BitVec 64} {fflags : BitVec 32} (hflags : Raised s.fflags fflags)
    (h : setX s rd val fflags true = some d) : Frame s rd d := by
  cases h
  exact {
    flags := hflags
    target := Or.inr ⟨rfl, val, rfl⟩
    clean := fun h => Bool.noConfusion h }

theorem setX_clean_frame {val : BitVec 64} (h : setX s rd val s.fflags false = some d) :
    Frame s rd d := by
  cases h
  exact {
    flags := Raised.refl _
    target := Or.inr ⟨rfl, val, rfl⟩
    clean := fun _ => ⟨rfl, rfl⟩ }

theorem toInteger_raised {rs2 : Nat} {a : z.format.Word} {rm : RoundingMode} {fflags : BitVec 32}
    {r : BitVec 64 × BitVec 32} (h : toInteger z rs2 a rm fflags = some r) : Raised fflags r.2 := by
  unfold toInteger at h
  split at h <;> cases h <;> exact internalCvtSfI_raised _ _

theorem ofInteger_raised {rs2 : Nat} {val : BitVec 64} {rm : RoundingMode} {fflags : BitVec 32}
    {r : z.format.Result} (h : ofInteger z rs2 val rm fflags = some r) : Raised fflags r.2 := by
  unfold ofInteger at h
  split at h <;> cases h <;> exact internalCvtISf_raised _ _ _

theorem compare_raised {rm : Nat} {a b : z.format.Word} {fflags : BitVec 32}
    {r : Bool × BitVec 32} (h : compare z rm a b fflags = some r) : Raised fflags r.2 := by
  unfold compare at h
  split at h
  · cases h
    exact leSf_raised
  · cases h
    exact ltSf_raised
  · cases h
    exact eqQuietSf_raised
  · cases h

theorem convert_raised {rs1 : BitVec 5} {rs2 : Nat} {rm : RoundingMode} {r : z.format.Result}
    (h : convert z s rs1 rs2 rm = some r) : Raised s.fflags r.2 := by
  unfold convert at h
  split at h
  · cases h
    exact cvtNarrow_raised
  · cases h
    exact cvtWiden_raised _
  · cases h

theorem fpOp_frame {funct5 rm : Nat} {rs1 rs2 : BitVec 5} (h : fpOp z funct5 rm rd rs1 rs2 s = some d) :
    Frame s rd d := by
  unfold fpOp at h
  dsimp only at h
  split at h
  · obtain ⟨mode, -, h⟩ := Option.bind_eq_some_iff.mp h
    exact setF_frame addSf_raised h
  · obtain ⟨mode, -, h⟩ := Option.bind_eq_some_iff.mp h
    exact setF_frame subSf_raised h
  · obtain ⟨mode, -, h⟩ := Option.bind_eq_some_iff.mp h
    exact setF_frame mulSf_raised h
  · obtain ⟨mode, -, h⟩ := Option.bind_eq_some_iff.mp h
    exact setF_frame divSf_raised h
  · obtain ⟨mode, -, h⟩ := Option.bind_eq_some_iff.mp h
    split at h
    · cases h
    · exact setF_frame sqrtSf_raised h
  · obtain ⟨val, -, h⟩ := Option.bind_eq_some_iff.mp h
    cases h
    exact {
      flags := Raised.refl _
      target := Or.inl ⟨rfl, fun i hi => Function.update_of_ne hi _ _⟩
      clean := fun h => Bool.noConfusion h }
  · split at h
    · exact setF_frame (minSf_raised _) h
    · exact setF_frame (maxSf_raised _) h
    · cases h
  · obtain ⟨mode, -, h⟩ := Option.bind_eq_some_iff.mp h
    obtain ⟨r, hr, h⟩ := Option.bind_eq_some_iff.mp h
    exact setX_frame (toInteger_raised hr) h
  · obtain ⟨r, hr, h⟩ := Option.bind_eq_some_iff.mp h
    exact setX_frame (compare_raised hr) h
  · obtain ⟨mode, -, h⟩ := Option.bind_eq_some_iff.mp h
    obtain ⟨r, hr, h⟩ := Option.bind_eq_some_iff.mp h
    exact setF_frame (ofInteger_raised hr) h
  · obtain ⟨mode, -, h⟩ := Option.bind_eq_some_iff.mp h
    obtain ⟨r, hr, h⟩ := Option.bind_eq_some_iff.mp h
    exact setF_frame (convert_raised hr) h
  · split at h
    · cases h
    · split at h
      · exact setX_clean_frame h
      · exact setX_clean_frame h
      · cases h
  · split at h
    · cases h
    · exact setF_frame (Raised.refl _) h
  · cases h

theorem fpFma_frame {flip1 flip3 : Bool} {rm : Nat} {rs1 rs2 rs3 : BitVec 5}
    (h : fpFma z flip1 flip3 rm rd rs1 rs2 rs3 s = some d) : Frame s rd d := by
  obtain ⟨mode, -, h⟩ := Option.bind_eq_some_iff.mp h
  exact setF_frame fmaSf_raised h

/-- Registers that hold the single `1`. -/
def unitState : State := ⟨Registers.init, fun _ => 0xffffffff3f800000, 0, 0⟩

theorem step_frame {insn : BitVec 32} (h : step insn s = some d) : Frame s (rdOf insn) d := by
  obtain ⟨z, -, h⟩ := Option.bind_eq_some_iff.mp h
  dsimp only at h
  split at h
  · exact fpFma_frame h
  · exact fpFma_frame h
  · exact fpFma_frame h
  · exact fpFma_frame h
  · exact fpOp_frame h
  · cases h

/-- `fsgnjn.s f1, f2, f3`. -/
theorem step_frame_fsgnjn : ∃ d, step 0x203110d3 unitState = some d ∧
    Frame unitState (rdOf 0x203110d3) d := by
  have h : step 0x203110d3 unitState = some _ := rfl
  exact ⟨_, h, step_frame h⟩

/-! ## Reading back -/

theorem boxed_upper (a : BitVec 32) : (a.setWidth 64 ||| f32High) &&& f32High = f32High := by
  ext i hi
  rw [BitVec.getElem_and, BitVec.getElem_or]
  exact Bool.and_eq_right_iff_imp.mpr fun h => Bool.or_eq_true_iff.mpr (Or.inr h)

theorem boxed_lower (a : BitVec 32) : (a.setWidth 64 ||| f32High).setWidth 32 = a := by
  have hlow : f32High.setWidth 32 = (0 : BitVec 32) := rfl
  rw [BitVec.setWidth_or, hlow, BitVec.setWidth_setWidth_of_le _ (by decide), BitVec.setWidth_eq]
  exact BitVec.or_zero

theorem boxed_double (a : BitVec 64) : (a.setWidth 64 ||| 0).setWidth 64 = a := by
  rw [BitVec.setWidth_eq, BitVec.setWidth_eq]
  exact BitVec.or_zero

/-- A number is read back as it was written. -/
theorem operand_boxed (a : z.format.Word) {fpReg : FpRegisters} {i : BitVec 5}
    (h : fpReg i = boxed z a) : operand z (fRead z fpReg i) = a := by
  cases z with
  | f32 =>
    have hread : fRead .f32 fpReg i = boxed .f32 a := by
      rw [fRead, h]
      exact if_pos (boxed_upper a)
    rw [hread]
    exact boxed_lower a
  | f64 =>
    rw [fRead, h]
    exact boxed_double a

/-- The number that an instruction of the format finds in a register. -/
def State.number (z : FSize) (s : State) (i : BitVec 5) : z.format.Word :=
  operand z (fRead z s.fpReg i)

theorem operand_flip (val : BitVec 64) :
    operand z (val ^^^ z.signMask) = operand z val ^^^ z.format.signMask := by
  cases z with
  | f32 => exact BitVec.setWidth_xor
  | f64 => exact BitVec.setWidth_xor

/-! ## Arithmetic -/

/-- The result is a real number rounded, with its own sign where it has one. -/
def Rounds (F : Format) (rm : RoundingMode) (v : ℝ) (fflags : BitVec 32) (r : F.Result) : Prop :=
  ∃ sign, IsRounded F rm sign |v| fflags r ∧ (v ≠ 0 → sign = decide (v < 0))

/-- The instructions that round a real function of their operands. -/
inductive Arith
  | add
  | sub
  | mul
  | div
  | sqrt
  | madd
  | msub
  | nmsub
  | nmadd

namespace Arith

/-- The function without rounding. -/
noncomputable def exact (a b c : ℝ) : Arith → ℝ
  | add => a + b
  | sub => a - b
  | mul => a * b
  | div => a / b
  | sqrt => Real.sqrt a
  | madd => a * b + c
  | msub => a * b - c
  | nmsub => -(a * b) + c
  | nmadd => -(a * b) - c

def opcode : Arith → Nat
  | madd => 0x43
  | msub => 0x47
  | nmsub => 0x4b
  | nmadd => 0x4f
  | _ => 0x53

def funct5 : Arith → BitVec 5
  | add => 0x00
  | sub => 0x01
  | mul => 0x02
  | div => 0x03
  | sqrt => 0x0b
  | _ => 0

/-- The instruction is the one of a format. -/
structure Encodes (op : Arith) (z : FSize) (insn : BitVec 32) : Prop where
  size : FSize.ofOpid (insn.extractLsb' 25 2) = some z
  opcode : (insn &&& 0x7f).toNat = op.opcode
  funct5 : op.opcode = 0x53 → insn.extractLsb' 27 5 = op.funct5

/-- The operands are numbers of which the function has a value. -/
structure Defined (op : Arith) {F : Format} (a b c : F.Word) : Prop where
  left : IsFinite a
  right : op ≠ sqrt → IsFinite b
  addend : op.opcode ≠ 0x53 → IsFinite c
  divisor : op = div → value b ≠ 0
  radicand : op = sqrt → 0 ≤ value a

end Arith

section

variable {F : Format} {a b c : F.Word} {rm : RoundingMode} {fflags : BitVec 32}

theorem sumSign_eq {t u : Bool} {x : ℝ} (h : x ≠ 0) : sumSign rm t u x = decide (x < 0) := by
  unfold sumSign
  rw [if_neg h]

/-- A rounded magnitude with its sign. -/
theorem Rounds.of_signed {r : F.Result} {t : Bool} {m : ℝ} (h : IsRounded F rm t m fflags r)
    (hm : 0 ≤ m) : Rounds F rm (signed t m) fflags r := by
  have habs : |signed t m| = m := by
    cases t
    · exact abs_of_nonneg hm
    · exact (abs_neg m).trans (abs_of_nonneg hm)
  rw [← habs] at h
  refine ⟨t, h, fun hne => ?_⟩
  cases t
  · exact (decide_eq_false (not_lt.mpr hm)).symm
  · have hpos : 0 < m := lt_of_le_of_ne hm fun hzero => hne (by rw [← hzero]; exact neg_zero)
    exact (decide_eq_true (neg_neg_of_pos hpos)).symm

theorem rounds_sum (ha : IsFinite a) (hb : IsFinite b) :
    Rounds F rm (value a + value b) fflags (addSf a b rm fflags) :=
  ⟨_, addSf_finite ha hb, sumSign_eq⟩

theorem rounds_difference (ha : IsFinite a) (hb : IsFinite b) :
    Rounds F rm (value a - value b) fflags (subSf a b rm fflags) :=
  ⟨_, subSf_finite ha hb, sumSign_eq⟩

theorem rounds_fused (ha : IsFinite a) (hb : IsFinite b) (hc : IsFinite c) :
    Rounds F rm (value a * value b + value c) fflags (fmaSf a b c rm fflags) :=
  ⟨_, fmaSf_finite ha hb hc, sumSign_eq⟩

theorem rounds_product (ha : IsFinite a) (hb : IsFinite b) :
    Rounds F rm (value a * value b) fflags (mulSf a b rm fflags) := by
  have hvalue : value a * value b = signed (signOf a ^^ signOf b) (magnitude a * magnitude b) := by
    rw [value_eq, value_eq]
    cases signOf a <;> cases signOf b <;> simp [signed]
  rw [hvalue]
  exact Rounds.of_signed (mulSf_finite ha hb)
    (mul_nonneg (magnitude_nonneg a) (magnitude_nonneg b))

theorem rounds_quotient (ha : IsFinite a) (hb : IsFinite b) (hne : value b ≠ 0) :
    Rounds F rm (value a / value b) fflags (divSf a b rm fflags) := by
  have hzero : ¬ IsZero b := by
    intro h
    rw [value_eq, magnitude_eq_zero_iff.mpr h] at hne
    cases signOf b <;> simp [signed] at hne
  have hvalue : value a / value b = signed (signOf a ^^ signOf b) (magnitude a / magnitude b) := by
    rw [value_eq, value_eq]
    cases signOf a <;> cases signOf b <;> simp [signed, neg_div, div_neg]
  rw [hvalue]
  exact Rounds.of_signed (divSf_finite ha hb hzero)
    (div_nonneg (magnitude_nonneg a) (magnitude_nonneg b))

theorem rounds_root (ha : IsFinite a) (hnonneg : 0 ≤ value a) :
    Rounds F rm (Real.sqrt (value a)) fflags (sqrtSf a rm fflags) := by
  cases hsign : signOf a with
  | false =>
    rw [value_eq, hsign]
    exact Rounds.of_signed (sqrtSf_finite ha hsign) (Real.sqrt_nonneg _)
  | true =>
    -- The only such number is the negative zero.
    rw [value_eq, hsign] at hnonneg
    have hmagnitude : magnitude a = 0 :=
      le_antisymm (neg_nonneg.mp hnonneg) (magnitude_nonneg a)
    have hzero := magnitude_eq_zero_iff.mp hmagnitude
    have hself : IsRounded F rm (signOf a) (magnitude a) fflags (a, fflags) := isRounded_self ha
    rw [value_eq, hmagnitude, hsign, signed, if_pos rfl, neg_zero, Real.sqrt_zero,
      sqrtSf_zero hzero]
    rw [hmagnitude] at hself
    refine ⟨signOf a, ?_, fun hne => absurd rfl hne⟩
    rw [abs_zero]
    exact hself

end

/-- What `setF` leaves in the register. -/
theorem setF_number {r : z.format.Result} (h : setF s rd z r = some d) :
    (operand z (fRead z d.2.1 rd), d.2.2.1) = r ∧ d.1 = s.reg ∧ ∀ i, i ≠ rd → d.2.1 i = s.fpReg i := by
  cases h
  have hread := operand_boxed (i := rd) r.1 (Function.update_self rd (boxed z r.1) s.fpReg)
  exact ⟨Prod.ext hread rfl, rfl, fun i hi => Function.update_of_ne hi _ _⟩

/-- A step for the operations of opcode `0x53`. -/
theorem step_fpOp {insn : BitVec 32} (hsize : FSize.ofOpid (insn.extractLsb' 25 2) = some z)
    (hopcode : (insn &&& 0x7f).toNat = 0x53) :
    step insn s = fpOp z (insn.extractLsb' 27 5).toNat (funct3Of insn) (rdOf insn) (rs1Of insn)
      (rs2Of insn) s := by
  unfold step
  simp only [hsize, hopcode]
  rfl

/-- The signs that an opcode flips. -/
def Arith.flips : Arith → Bool × Bool
  | .msub => (false, true)
  | .nmsub => (true, false)
  | .nmadd => (true, true)
  | _ => (false, false)

/-- A step for one of the fused opcodes. -/
theorem step_fpFma {op : Arith} {insn : BitVec 32} (hop : op.Encodes z insn)
    (hfused : op.opcode ≠ 0x53) :
    step insn s = fpFma z op.flips.1 op.flips.2 (funct3Of insn) (rdOf insn) (rs1Of insn)
      (rs2Of insn) (insn.extractLsb' 27 5) s := by
  have hsize := hop.size
  have hopcode := hop.opcode
  cases op with
  | add | sub | mul | div | sqrt => exact absurd rfl hfused
  | madd | msub | nmsub | nmadd =>
    unfold step
    rw [Arith.opcode] at hopcode
    simp only [hsize, hopcode]
    rfl

theorem rounds_flipped {f1 f3 : Bool} {rm : Nat} {rs1 rs2 rs3 : BitVec 5}
    (h : fpFma z f1 f3 rm rd rs1 rs2 rs3 s = some d) (ha : IsFinite (s.number z rs1))
    (hb : IsFinite (s.number z rs2)) (hc : IsFinite (s.number z rs3)) :
    ∃ mode r, getInsnRm s rm = some mode ∧ setF s rd z r = some d ∧
      Rounds z.format mode
        (signed f1 (value (s.number z rs1)) * value (s.number z rs2) +
          signed f3 (value (s.number z rs3))) s.fflags r := by
  have hflip : ∀ (f : Bool) (i : BitVec 5), IsFinite (s.number z i) →
      IsFinite (operand z (if f then fRead z s.fpReg i ^^^ z.signMask else fRead z s.fpReg i)) ∧
        value (operand z (if f then fRead z s.fpReg i ^^^ z.signMask else fRead z s.fpReg i)) =
          signed f (value (s.number z i)) := by
    intro f i hi
    cases f with
    | false => exact ⟨hi, rfl⟩
    | true =>
      rw [if_pos rfl, operand_flip]
      exact ⟨finite_flip.mpr hi, value_flip _⟩
  obtain ⟨mode, hmode, h⟩ := Option.bind_eq_some_iff.mp h
  obtain ⟨hfinite1, hvalue1⟩ := hflip f1 rs1 ha
  obtain ⟨hfinite3, hvalue3⟩ := hflip f3 rs3 hc
  rw [← hvalue1, ← hvalue3]
  exact ⟨mode, _, hmode, h, rounds_fused hfinite1 hb hfinite3⟩

theorem step_rounds {op : Arith} {insn : BitVec 32} (hop : op.Encodes z insn)
    (h : step insn s = some d)
    (hdef : op.Defined (s.number z (rs1Of insn)) (s.number z (rs2Of insn))
      (s.number z (insn.extractLsb' 27 5))) :
    ∃ mode r, getInsnRm s (funct3Of insn) = some mode ∧ setF s (rdOf insn) z r = some d ∧
      Rounds z.format mode
        (op.exact (value (s.number z (rs1Of insn))) (value (s.number z (rs2Of insn)))
          (value (s.number z (insn.extractLsb' 27 5)))) s.fflags r := by
  have hsize := hop.size
  have hopcode := hop.opcode
  have hfunct5 := hop.funct5
  cases op with
  | add =>
    rw [step_fpOp hsize hopcode, hfunct5 rfl] at h
    obtain ⟨mode, hmode, h⟩ := Option.bind_eq_some_iff.mp h
    exact ⟨mode, _, hmode, h, rounds_sum hdef.left (hdef.right Arith.noConfusion)⟩
  | sub =>
    rw [step_fpOp hsize hopcode, hfunct5 rfl] at h
    obtain ⟨mode, hmode, h⟩ := Option.bind_eq_some_iff.mp h
    exact ⟨mode, _, hmode, h, rounds_difference hdef.left (hdef.right Arith.noConfusion)⟩
  | mul =>
    rw [step_fpOp hsize hopcode, hfunct5 rfl] at h
    obtain ⟨mode, hmode, h⟩ := Option.bind_eq_some_iff.mp h
    exact ⟨mode, _, hmode, h, rounds_product hdef.left (hdef.right Arith.noConfusion)⟩
  | div =>
    rw [step_fpOp hsize hopcode, hfunct5 rfl] at h
    obtain ⟨mode, hmode, h⟩ := Option.bind_eq_some_iff.mp h
    exact ⟨mode, _, hmode, h,
      rounds_quotient hdef.left (hdef.right Arith.noConfusion) (hdef.divisor rfl)⟩
  | sqrt =>
    rw [step_fpOp hsize hopcode, hfunct5 rfl] at h
    obtain ⟨mode, hmode, h⟩ := Option.bind_eq_some_iff.mp h
    obtain ⟨-, h⟩ := Option.ite_none_left_eq_some.mp h
    exact ⟨mode, _, hmode, h, rounds_root hdef.left (hdef.radicand rfl)⟩
  | madd | msub | nmsub | nmadd =>
    rw [step_fpFma hop (by decide)] at h
    obtain ⟨mode, r, hmode, hset, hrounds⟩ := rounds_flipped h hdef.left
      (hdef.right Arith.noConfusion) (hdef.addend (by decide))
    refine ⟨mode, r, hmode, hset, ?_⟩
    simpa [Arith.flips, Arith.exact, signed, sub_eq_add_neg] using hrounds

/-- An arithmetic instruction leaves the correctly rounded value of its function, boxed, with
its flags, and nothing else. -/
theorem arithmetic_rounds {op : Arith} {insn : BitVec 32} (hop : op.Encodes z insn)
    (hstep : step insn s = some d)
    (hdef : op.Defined (s.number z (rs1Of insn)) (s.number z (rs2Of insn))
      (s.number z (insn.extractLsb' 27 5))) :
    ∃ mode, getInsnRm s (funct3Of insn) = some mode ∧
      Rounds z.format mode
        (op.exact (value (s.number z (rs1Of insn))) (value (s.number z (rs2Of insn)))
          (value (s.number z (insn.extractLsb' 27 5)))) s.fflags
        (operand z (fRead z d.2.1 (rdOf insn)), d.2.2.1) ∧
      d.1 = s.reg ∧ ∀ i, i ≠ rdOf insn → d.2.1 i = s.fpReg i := by
  obtain ⟨mode, r, hmode, hset, hrounds⟩ := step_rounds hop hstep hdef
  obtain ⟨hresult, hreg, hothers⟩ := setF_number hset
  rw [← hresult] at hrounds
  exact ⟨mode, hmode, hrounds, hreg, hothers⟩

theorem encodes_fadd : Arith.add.Encodes .f32 0x003100d3 where
  size := rfl
  opcode := by decide
  funct5 := fun _ => by decide

theorem defined_fadd : Arith.add.Defined (unitState.number .f32 2) (unitState.number .f32 3)
    (unitState.number .f32 0) where
  left := by decide
  right := fun _ => by decide
  addend := fun h => absurd rfl h
  divisor := fun h => Arith.noConfusion h
  radicand := fun h => Arith.noConfusion h

/-- `fadd.s f1, f2, f3`. -/
theorem arithmetic_rounds_fadd : ∃ d, step 0x003100d3 unitState = some d ∧
    ∃ mode, getInsnRm unitState 0 = some mode ∧
      Rounds sf32 mode (value (unitState.number .f32 2) + value (unitState.number .f32 3)) 0
        (operand .f32 (fRead .f32 d.2.1 1), d.2.2.1) ∧
      d.1 = Registers.init ∧ ∀ i, i ≠ 1 → d.2.1 i = unitState.fpReg i := by
  have h : step 0x003100d3 unitState = some _ := rfl
  exact ⟨_, h, arithmetic_rounds encodes_fadd h defined_fadd⟩

/-- The conversions of the instructions to and from integers. -/
theorem integer_conversions (z : FSize) (I : IcvtSize) (a : z.format.Word) (r : I.Word)
    (rm : RoundingMode) (fflags : BitVec 32) (isUnsigned : Bool) :
    IsConverted I isUnsigned rm a fflags (internalCvtSfI I a rm fflags isUnsigned) ∧
      IsRounded z.format rm (decide (asInt isUnsigned r < 0)) |(asInt isUnsigned r : ℝ)| fflags
        (internalCvtISf I z.format r rm fflags isUnsigned) := by
  have hbits : (I.bits : ℤ) ≤ z.format.bias + 1 := by cases z <;> cases I <;> decide
  have hmant : (z.format.mantSize : ℤ) ≤ z.format.bias + 1 := by cases z <;> decide
  exact ⟨internalCvtSfI_isConverted hbits hmant a,
    internalCvtISf_isRounded z.format r rm fflags isUnsigned⟩
/-! ## Sign injection -/

theorem operand_and (x y : BitVec 64) : operand z (x &&& y) = operand z x &&& operand z y :=
  BitVec.setWidth_and

theorem operand_or (x y : BitVec 64) : operand z (x ||| y) = operand z x ||| operand z y :=
  BitVec.setWidth_or ..

theorem operand_signMask : operand z z.signMask = z.format.signMask := by cases z <;> rfl

theorem operand_not (x : BitVec 64) : operand z (~~~x) = ~~~operand z x := by
  cases z with
  | f32 => exact BitVec.setWidth_not (by decide)
  | f64 => exact BitVec.setWidth_not (by decide)

/-- The lower word is always right. -/
theorem signInject_number {rm : Nat} {val val2 r : BitVec 64} (h : signInject z rm val val2 = some r) :
    operand z r = injected rm (operand z val) (operand z val2) := by
  unfold signInject at h
  split at h
  · cases h
    rw [operand_or, operand_and, operand_and, operand_not, operand_signMask, and_signMask]
    rfl
  · cases h
    rw [operand_or, operand_and, operand_flip, operand_and, operand_not, operand_signMask,
      and_signMask]
    unfold injected injectedSign
    cases signOf (operand z val2) with
    | false => simp [absSf]
    | true => simp [absSf]
  · cases h
    have hsigns := operand_and (z := z) val2 z.signMask
    have hxor : operand z (val ^^^ (val2 &&& z.signMask)) =
        operand z val ^^^ operand z (val2 &&& z.signMask) := BitVec.setWidth_xor
    rw [hxor, hsigns, operand_signMask, and_signMask]
    have hfields := injected_fields 2 (operand z val) (operand z val2)
    apply eq_of_magnitude
    · rw [hfields.1, injectedSign]
      cases signOf (operand z val2) with
      | false => simp
      | true => simp [signOf_flip]
    · rw [hfields.2]
      cases signOf (operand z val2) with
      | false => simp
      | true => simp [magnitude_flip]
  · cases h

/-- A register holds a single. -/
def isBoxed (val : BitVec 64) : Bool := val &&& f32High = f32High

/-- The injection leaves a single where its operands are singles or not. -/
def staysBoxed (rm : Nat) (p q : Bool) : Bool :=
  if rm = 0 then q else if rm = 1 then !q else p ^^ q

theorem fRead_upper (fpReg : FpRegisters) (i : BitVec 5) :
    fRead .f32 fpReg i &&& f32High = if isBoxed (fpReg i) then f32High else 0 := by
  unfold fRead isBoxed
  by_cases h : fpReg i &&& f32High = f32High
  · simp [h]
  · simp [h]
    rfl

/-- The sign mask of the singles covers the upper word. -/
theorem signMask_upper {i : ℕ} (hi : i < 64) (h : f32High[i] = true) :
    FSize.f32.signMask[i] = true := by
  have hand : FSize.f32.signMask &&& f32High = f32High := rfl
  have hbit := congrArg (fun v : BitVec 64 => v[i]) hand
  simpa [h] using hbit

theorem select_upper (v w : BitVec 64) :
    (v &&& ~~~FSize.f32.signMask ||| w &&& FSize.f32.signMask) &&& f32High = w &&& f32High := by
  ext i hi
  have hmask := signMask_upper hi
  cases hhigh : f32High[i] with
  | false => simp [hhigh]
  | true => simp [hhigh, hmask hhigh]

theorem select_upper' (v w : BitVec 64) :
    (v &&& ~~~FSize.f32.signMask ||| (w &&& FSize.f32.signMask ^^^ FSize.f32.signMask)) &&& f32High =
      w &&& f32High ^^^ f32High := by
  ext i hi
  have hmask := signMask_upper hi
  cases hhigh : f32High[i] with
  | false => simp [hhigh]
  | true => simp [hhigh, hmask hhigh]

theorem flip_upper (v w : BitVec 64) :
    (v ^^^ (w &&& FSize.f32.signMask)) &&& f32High = v &&& f32High ^^^ (w &&& f32High) := by
  ext i hi
  have hmask := signMask_upper hi
  cases hhigh : f32High[i] with
  | false => simp [hhigh]
  | true => simp [hhigh, hmask hhigh]

theorem signInject_boxed {rm : Nat} {fpReg : FpRegisters} {i j : BitVec 5} {r : BitVec 64}
    (h : signInject .f32 rm (fRead .f32 fpReg i) (fRead .f32 fpReg j) = some r) :
    isBoxed r = staysBoxed rm (isBoxed (fpReg i)) (isBoxed (fpReg j)) := by
  have hi := fRead_upper fpReg i
  have hj := fRead_upper fpReg j
  have hupper : r &&& f32High = if staysBoxed rm (isBoxed (fpReg i)) (isBoxed (fpReg j))
      then f32High else 0 := by
    unfold signInject at h
    split at h
    · cases h
      rw [select_upper, hj]
      rfl
    · cases h
      rw [select_upper', hj]
      cases isBoxed (fpReg j) <;> rfl
    · cases h
      rw [flip_upper, hi, hj]
      cases isBoxed (fpReg i) <;> cases isBoxed (fpReg j) <;> rfl
    · cases h
  unfold isBoxed at hupper ⊢
  rw [hupper]
  split
  case isTrue hboxed => simp [hboxed]
  case isFalse hboxed =>
    rw [Bool.not_eq_true] at hboxed
    rw [hboxed]
    rfl

/-- What a single instruction finds in a register. -/
theorem fRead_unboxed {fpReg : FpRegisters} {i : BitVec 5} (h : isBoxed (fpReg i) = false) :
    operand .f32 (fRead .f32 fpReg i) = sf32.qnan := by
  unfold isBoxed at h
  unfold fRead
  dsimp only
  rw [if_neg (of_decide_eq_false h)]
  apply BitVec.eq_of_toNat_eq
  decide

theorem fRead_boxed {z : FSize} {fpReg : FpRegisters} {i : BitVec 5}
    (h : z = .f64 ∨ isBoxed (fpReg i) = true) : operand z (fRead z fpReg i) = operand z (fpReg i) := by
  cases z with
  | f32 =>
    obtain h | h := h
    · cases h
    · unfold isBoxed at h
      unfold fRead
      rw [if_pos (of_decide_eq_true h)]
  | f64 => rfl

/-- The sign injections are right for doubles.  Of a single the lower word is right, but the
register holds a single only where the upper words of the operands happen to make one, and
else is read as the canonical NaN. -/
theorem sign_injection {insn : BitVec 32} (hsize : FSize.ofOpid (insn.extractLsb' 25 2) = some z)
    (hopcode : (insn &&& 0x7f).toNat = 0x53) (hfunct5 : insn.extractLsb' 27 5 = 0x04)
    (h : step insn s = some d) :
    operand z (d.2.1 (rdOf insn)) =
        injected (funct3Of insn) (s.number z (rs1Of insn)) (s.number z (rs2Of insn)) ∧
      operand z (fRead z d.2.1 (rdOf insn)) =
        (if z = .f64 ∨ staysBoxed (funct3Of insn) (isBoxed (s.fpReg (rs1Of insn)))
            (isBoxed (s.fpReg (rs2Of insn))) = true
          then injected (funct3Of insn) (s.number z (rs1Of insn)) (s.number z (rs2Of insn))
          else z.format.qnan) ∧
      d.1 = s.reg ∧ d.2.2.1 = s.fflags ∧ ∀ i, i ≠ rdOf insn → d.2.1 i = s.fpReg i := by
  rw [step_fpOp hsize hopcode, hfunct5] at h
  obtain ⟨val, hval, h⟩ := Option.bind_eq_some_iff.mp h
  cases h
  have hlower := signInject_number hval
  have hself : Function.update s.fpReg (rdOf insn) val (rdOf insn) = val :=
    Function.update_self _ _ _
  refine ⟨?_, ?_, rfl, rfl, fun i hi => Function.update_of_ne hi _ _⟩
  · dsimp only
    rw [hself]
    exact hlower
  dsimp only
  cases z with
  | f32 =>
    have hboxed := signInject_boxed hval
    split
    case isTrue hstays =>
      have hstays := hstays.resolve_left FSize.noConfusion
      rw [fRead_boxed (Or.inr (by rw [hself, hboxed, hstays])), hself]
      exact hlower
    case isFalse hstays =>
      apply fRead_unboxed
      rw [hself, hboxed]
      exact Bool.eq_false_iff.mpr fun h => hstays (Or.inr h)
  | f64 =>
    rw [if_pos (Or.inl rfl), fRead_boxed (Or.inl rfl), hself]
    exact hlower

/-- `fsgnjn.s f1, f2, f3` of two singles is read as a NaN. -/
theorem sign_injection_fsgnjn : ∃ d, step 0x203110d3 unitState = some d ∧
    operand .f32 (d.2.1 1) = injected 1 (unitState.number .f32 2) (unitState.number .f32 3) ∧
    operand .f32 (fRead .f32 d.2.1 1) = sf32.qnan := by
  have h : step 0x203110d3 unitState = some _ := rfl
  obtain ⟨hlower, hread, -⟩ := sign_injection (z := .f32) rfl (by decide) (by decide) h
  exact ⟨_, h, hlower, hread.trans (if_neg (by decide))⟩

end Fpu
end Cpu
end Riscbox
