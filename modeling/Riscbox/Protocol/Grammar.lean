import Riscbox.Protocol.Wire

/-!
# Grammars of messages

A grammar says which bytes are a code of a value.  An operation of the reader reads a
grammar if it takes exactly the codes: whatever stands before and after them.
-/

namespace Riscbox

/-- Which bytes are a code of which value. -/
abbrev Grammar (α : Type) : Type := List UInt8 → α → Prop

namespace Grammar

variable {α β : Type}

/-- Values with a code of their own, of those that are `allowed`. -/
def field (allowed : α → Prop) (code : α → List UInt8) : Grammar α := fun bytes a =>
  allowed a ∧ bytes = code a

/-- One value and then another, which may depend on it. -/
def andThen (g : Grammar α) (h : α → Grammar β) : Grammar β := fun bytes b =>
  ∃ a code rest, g code a ∧ h a rest b ∧ bytes = code ++ rest

def map (f : α → β) (g : Grammar α) : Grammar β := fun bytes b => ∃ a, g bytes a ∧ b = f a

variable {allowed : α → Prop} {code : α → List UInt8} {bytes : List UInt8} {b : β}

theorem andThen_field {h : α → Grammar β} : (field allowed code).andThen h bytes b ↔
    ∃ a, allowed a ∧ ∃ rest, h a rest b ∧ bytes = code a ++ rest := by
  constructor
  · rintro ⟨a, _, rest, ⟨hallowed, rfl⟩, hrest, rfl⟩
    exact ⟨a, hallowed, rest, hrest, rfl⟩
  · rintro ⟨a, hallowed, rest, hrest, rfl⟩
    exact ⟨a, code a, rest, ⟨hallowed, rfl⟩, hrest, rfl⟩

theorem map_field {f : α → β} : (field allowed code).map f bytes b ↔
    ∃ a, allowed a ∧ bytes = code a ∧ b = f a := by
  constructor
  · rintro ⟨a, ⟨hallowed, rfl⟩, rfl⟩
    exact ⟨a, hallowed, rfl, rfl⟩
  · rintro ⟨a, hallowed, rfl, rfl⟩
    exact ⟨a, ⟨hallowed, rfl⟩, rfl⟩

end Grammar

namespace Reader

variable {α β : Type}

/-- A reader in the middle of its bytes. -/
def between (before rest : List UInt8) : Reader := { bytes := before ++ rest, offset := before.length }

/-- The operation accepts every code of the grammar, and nothing else. -/
structure Reads (x : ReaderOp α) (g : Grammar α) : Prop where
  complete : ∀ {code : List UInt8} {a : α}, g code a → ∀ before after,
    (before ++ code ++ after).length ≤ usizeMax →
      x (between before (code ++ after)) = (.ok a, between (before ++ code) after)
  sound : ∀ {before rest : List UInt8} {a : α} {r : Reader}, x (between before rest) = (.ok a, r) →
    ∃ code after, g code a ∧ rest = code ++ after ∧ r = between (before ++ code) after

theorem Reads.congr {x : ReaderOp α} {g g' : Grammar α} (h : Reads x g)
    (hsame : ∀ code a, g code a ↔ g' code a) : Reads x g' where
  complete := fun hcode => h.complete ((hsame _ _).mpr hcode)
  sound := by
    intro before rest a r hread
    obtain ⟨code, after, hcode, hrest⟩ := h.sound hread
    exact ⟨code, after, (hsame _ _).mp hcode, hrest⟩

theorem reads_pure (a : α) : Reads (pure a) (fun code b => code = [] ∧ b = a) where
  complete := by
    rintro code b ⟨rfl, rfl⟩ before after -
    rw [List.append_nil, List.nil_append]
    rfl
  sound := by
    intro before rest b r h
    cases h
    exact ⟨[], rest, ⟨rfl, rfl⟩, rfl, by rw [List.append_nil]⟩

theorem Reads.bind {x : ReaderOp α} {f : α → ReaderOp β} {g : Grammar α} {h : α → Grammar β}
    (hx : Reads x g) (hf : ∀ a, Reads (f a) (h a)) : Reads (x >>= f) (g.andThen h) where
  complete := by
    rintro _ b ⟨a, code, rest, hcode, hrest, rfl⟩ before after hlength
    have hfirst : (before ++ code ++ (rest ++ after)).length ≤ usizeMax := by
      rw [← List.append_assoc, List.append_assoc before]
      exact hlength
    have hsecond : (before ++ code ++ rest ++ after).length ≤ usizeMax := by
      rw [List.append_assoc before]
      exact hlength
    rw [List.append_assoc, Op.bind_ok (hx.complete hcode before (rest ++ after) hfirst),
      (hf a).complete hrest (before ++ code) after hsecond, List.append_assoc]
  sound := by
    intro before rest b r hread
    obtain ⟨a, t, hfirst, hsecond⟩ := Op.bind_eq_ok hread
    obtain ⟨code, after, hcode, hrest, ht⟩ := hx.sound hfirst
    rw [ht] at hsecond
    obtain ⟨code', after', hcode', hafter, hr⟩ := (hf a).sound hsecond
    refine ⟨code ++ code', after', ⟨a, code, code', hcode, hcode', rfl⟩, ?_, ?_⟩
    · rw [hrest, hafter, List.append_assoc]
    · rw [hr, List.append_assoc]

/-- The last field of a message. -/
theorem Reads.last {x : ReaderOp α} {g : Grammar α} (hx : Reads x g) (f : α → β) :
    Reads (x >>= fun a => pure (f a)) (g.map f) where
  complete := by
    rintro code _ ⟨a, hcode, rfl⟩ before after hlength
    rw [Op.bind_ok (hx.complete hcode before after hlength)]
    rfl
  sound := by
    intro before rest b r hread
    obtain ⟨a, t, hfirst, hsecond⟩ := Op.bind_eq_ok hread
    obtain ⟨code, after, hcode, hrest, ht⟩ := hx.sound hfirst
    cases hsecond
    exact ⟨code, after, ⟨a, hcode, rfl⟩, hrest, ht⟩

/-! ## Fields -/

theorem take_ok {r : Reader} {size : Nat} (hmax : r.offset + size ≤ usizeMax)
    (hfits : r.offset + size ≤ r.bytes.length) :
    take size r = (.ok ((r.bytes.drop r.offset).take size),
      { r with offset := r.offset + size }) := by
  have hadd : checkedAdd usizeMax r.offset size = some (r.offset + size) :=
    checkedAdd_eq_some.mpr ⟨hmax, rfl⟩
  unfold take
  rw [Op.bind_ok (Op.get_apply r), hadd, Outcome.okOr_some, Op.bind_ok (Op.lift_apply _ r),
    if_pos hfits]
  rfl

theorem take_eq_ok {r t : Reader} {size : Nat} {bytes : List UInt8}
    (h : take size r = (.ok bytes, t)) :
    r.offset + size ≤ r.bytes.length ∧ bytes = (r.bytes.drop r.offset).take size ∧
      t = { r with offset := r.offset + size } := by
  unfold take at h
  rw [Op.bind_ok (Op.get_apply r)] at h
  obtain ⟨finish, hfinish, h⟩ := Op.lift_bind_eq_ok h
  obtain ⟨-, rfl⟩ := checkedAdd_eq_some.mp (Outcome.okOr_eq_ok.mp hfinish)
  by_cases hfits : r.offset + size ≤ r.bytes.length
  · rw [if_pos hfits] at h
    cases h
    exact ⟨hfits, rfl, rfl⟩
  · rw [if_neg hfits] at h
    cases h

theorem take_between (before code after : List UInt8)
    (hlength : (before ++ code ++ after).length ≤ usizeMax) :
    take code.length (between before (code ++ after)) =
      (.ok code, between (before ++ code) after) := by
  rw [List.length_append, List.length_append] at hlength
  have hmax : before.length + code.length ≤ usizeMax := by omega
  have hfits : before.length + code.length ≤ (before ++ (code ++ after)).length := by
    rw [List.length_append, List.length_append]
    omega
  have htake : take code.length (between before (code ++ after)) = _ := take_ok hmax hfits
  rw [htake]
  show (Outcome.ok (((before ++ (code ++ after)).drop before.length).take code.length),
    ({ bytes := before ++ (code ++ after), offset := before.length + code.length } : Reader)) = _
  rw [List.drop_left, List.take_left, ← List.append_assoc, ← List.length_append]
  rfl

/-- The taken bytes, of a length given. -/
theorem reads_take (size : Nat) : Reads (take size) (fun code bytes =>
    code = bytes ∧ bytes.length = size) where
  complete := by
    rintro code _ ⟨rfl, rfl⟩ before after hlength
    exact take_between before code after hlength
  sound := by
    intro before rest bytes r h
    obtain ⟨hfits, hbytes, hr⟩ := take_eq_ok h
    have hfits : before.length + size ≤ (before ++ rest).length := hfits
    have hbytes : bytes = ((before ++ rest).drop before.length).take size := hbytes
    have hr : r = { bytes := before ++ rest, offset := before.length + size } := hr
    rw [List.length_append] at hfits
    rw [List.drop_left] at hbytes
    have hsize : (rest.take size).length = size := by
      rw [List.length_take]
      omega
    refine ⟨bytes, rest.drop size, ⟨rfl, by rw [hbytes, hsize]⟩, ?_, ?_⟩
    · rw [hbytes, List.take_append_drop]
    · rw [hr, hbytes]
      unfold between
      rw [List.append_assoc, List.take_append_drop, List.length_append, hsize]

theorem reads_word (size : Nat) :
    Reads (word size) (Grammar.field (· < 256 ^ size) (LittleEndian.encode size)) where
  complete := by
    rintro _ n ⟨hn, rfl⟩ before after hlength
    have hsize := LittleEndian.length_encode size n
    have htake := take_between before (LittleEndian.encode size n) after hlength
    rw [hsize] at htake
    unfold word
    rw [Op.bind_ok htake, if_pos hsize, LittleEndian.decode_encode hn]
    rfl
  sound := by
    intro before rest n r h
    unfold word at h
    obtain ⟨bytes, t, htake, h⟩ := Op.bind_eq_ok h
    obtain ⟨code, after, ⟨rfl, hsize⟩, hrest, ht⟩ := (reads_take size).sound htake
    rw [if_pos hsize] at h
    cases h
    have hlt := LittleEndian.decode_lt code
    have hcode := LittleEndian.encode_decode code
    rw [hsize] at hlt hcode
    exact ⟨code, after, ⟨hlt, hcode.symm⟩, hrest, ht⟩

def any (_ : α) : Prop := True

/-- Words of a type of their own. -/
theorem reads_ofNat {ofNat : Nat → α} {toNat : α → Nat} {size : Nat}
    (hof : ∀ a, ofNat (toNat a) = a) (hto : ∀ n, n < 256 ^ size → toNat (ofNat n) = n)
    (hlt : ∀ a, toNat a < 256 ^ size) :
    Reads (ofNat <$> word size) (Grammar.field any fun a => LittleEndian.encode size (toNat a)) := by
  refine ((reads_word size).last ofNat).congr fun code a => ⟨?_, ?_⟩
  · rintro ⟨n, ⟨hn, rfl⟩, rfl⟩
    refine ⟨trivial, ?_⟩
    show _ = LittleEndian.encode size (toNat (ofNat n))
    rw [hto n hn]
  · rintro ⟨-, rfl⟩
    exact ⟨toNat a, ⟨hlt a, rfl⟩, (hof a).symm⟩

def byteCode (value : UInt8) : List UInt8 := LittleEndian.encode 1 value.toNat

def halfCode (value : UInt16) : List UInt8 := LittleEndian.encode 2 value.toNat

def wordCode (value : UInt32) : List UInt8 := LittleEndian.encode 4 value.toNat

def longCode (value : UInt64) : List UInt8 := LittleEndian.encode 8 value.toNat

theorem reads_u8 : Reads u8 (Grammar.field any byteCode) :=
  reads_ofNat (fun _ => UInt8.ofNat_toNat) (fun _ hn => UInt8.toNat_ofNat_of_lt' hn)
    UInt8.toNat_lt

theorem reads_u16 : Reads u16 (Grammar.field any halfCode) :=
  reads_ofNat (fun _ => UInt16.ofNat_toNat) (fun _ hn => UInt16.toNat_ofNat_of_lt' hn)
    UInt16.toNat_lt

theorem reads_u32 : Reads u32 (Grammar.field any wordCode) :=
  reads_ofNat (fun _ => UInt32.ofNat_toNat) (fun _ hn => UInt32.toNat_ofNat_of_lt' hn)
    UInt32.toNat_lt

theorem reads_u64 : Reads u64 (Grammar.field any longCode) :=
  reads_ofNat (fun _ => UInt64.ofNat_toNat) (fun _ hn => UInt64.toNat_ofNat_of_lt' hn)
    UInt64.toNat_lt

/-! ## Strings -/

/-- The strings of the wire. -/
def Text (value : String) : Prop := '\x00' ∉ value.toList ∧ value.utf8ByteSize ≤ 65535

/-- Their length and their bytes. -/
def textCode (value : String) : List UInt8 :=
  LittleEndian.encode 2 value.utf8ByteSize ++ Writer.utf8 value

theorem length_utf8 (value : String) : (Writer.utf8 value).length = value.utf8ByteSize := rfl

theorem fromUTF8_utf8 (value : String) :
    String.fromUTF8? ⟨(Writer.utf8 value).toArray⟩ = some value := by
  unfold Writer.utf8 String.fromUTF8?
  have hvalid : ByteArray.IsValidUTF8 ⟨value.toUTF8.data.toList.toArray⟩ := value.isValidUTF8
  rw [dif_pos hvalid]
  rfl

theorem utf8_of_fromUTF8 {bytes : List UInt8} {value : String}
    (h : String.fromUTF8? ⟨bytes.toArray⟩ = some value) : bytes = Writer.utf8 value := by
  unfold String.fromUTF8? at h
  split at h
  next hvalid =>
    rw [← Option.some.inj h]
    rfl
  · cases h

/-- The check of the bytes of a string takes none. -/
theorem reads_checked (bytes : List UInt8) :
    Reads (do
      let value ← Op.lift (.okOr EPROTO (String.fromUTF8? ⟨bytes.toArray⟩))
      if '\x00' ∈ value.toList then Op.fail EPROTO
      else return value)
    (fun code value => code = [] ∧ '\x00' ∉ value.toList ∧ bytes = Writer.utf8 value) where
  complete := by
    rintro code value ⟨rfl, hnul, rfl⟩ before after -
    rw [fromUTF8_utf8, Outcome.okOr_some, Op.bind_ok (Op.lift_apply _ _), if_neg hnul,
      List.append_nil, List.nil_append]
    rfl
  sound := by
    intro before rest value r h
    obtain ⟨value', hutf8, h⟩ := Op.lift_bind_eq_ok h
    have hbytes := utf8_of_fromUTF8 (Outcome.okOr_eq_ok.mp hutf8)
    by_cases hnul : '\x00' ∈ value'.toList
    · rw [if_pos hnul] at h
      cases h
    · rw [if_neg hnul] at h
      cases h
      exact ⟨[], rest, ⟨rfl, hnul, hbytes⟩, rfl, by rw [List.append_nil]⟩

theorem reads_string : Reads string (Grammar.field Text textCode) := by
  refine (reads_u16.bind fun size => (reads_take size.toNat).bind reads_checked).congr
    fun code value => ⟨?_, ?_⟩
  · rintro ⟨size, _, _, ⟨-, rfl⟩, ⟨_, bytes, _, ⟨rfl, hsize⟩, ⟨rfl, hnul, rfl⟩, rfl⟩, rfl⟩
    have hlt := size.toNat_lt
    rw [length_utf8] at hsize
    refine ⟨⟨hnul, by omega⟩, ?_⟩
    rw [List.append_nil, textCode, hsize]
    rfl
  · rintro ⟨⟨hnul, hsize⟩, rfl⟩
    have hword : (UInt16.ofNat value.utf8ByteSize).toNat = value.utf8ByteSize :=
      UInt16.toNat_ofNat_of_lt' (Nat.lt_succ_of_le hsize)
    refine ⟨UInt16.ofNat value.utf8ByteSize, LittleEndian.encode 2 value.utf8ByteSize,
      Writer.utf8 value, ⟨trivial, congrArg (LittleEndian.encode 2) hword.symm⟩, ?_, rfl⟩
    refine ⟨Writer.utf8 value, Writer.utf8 value, [], ⟨rfl, ?_⟩, ⟨rfl, hnul, rfl⟩,
      (List.append_nil _).symm⟩
    rw [hword, length_utf8]

/-- Several strings in a row. -/
theorem reads_strings (count : Nat) : Reads (strings count)
    (Grammar.field (fun values => (∀ value ∈ values, Text value) ∧ values.length = count)
      (·.flatMap textCode)) := by
  induction count with
  | zero =>
    refine (reads_pure []).congr fun code values => ⟨?_, ?_⟩
    · rintro ⟨rfl, rfl⟩
      exact ⟨⟨fun _ h => absurd h List.not_mem_nil, rfl⟩, rfl⟩
    · rintro ⟨⟨-, hnone⟩, rfl⟩
      rw [List.length_eq_zero_iff] at hnone
      exact ⟨by rw [hnone]; rfl, hnone⟩
  | succ count ih =>
    refine (reads_string.bind fun value => ih.last (value :: ·)).congr
      fun code values => ⟨?_, ?_⟩
    · rintro ⟨value, _, _, ⟨hvalue, rfl⟩, ⟨rest, ⟨⟨hrest, hlength⟩, rfl⟩, rfl⟩, rfl⟩
      exact ⟨⟨List.forall_mem_cons.mpr ⟨hvalue, hrest⟩, congrArg (· + 1) hlength⟩, rfl⟩
    · rintro ⟨⟨hvalues, hlength⟩, rfl⟩
      obtain ⟨value, rest, rfl⟩ := List.exists_cons_of_length_eq_add_one hlength
      obtain ⟨hvalue, hrest⟩ := List.forall_mem_cons.mp hvalues
      exact ⟨value, _, _, ⟨hvalue, rfl⟩, ⟨rest, ⟨⟨hrest, Nat.succ.inj hlength⟩, rfl⟩, rfl⟩, rfl⟩

end Reader
end Riscbox
