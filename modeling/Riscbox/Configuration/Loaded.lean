import Riscbox.Configuration.Address

/-!
# Addresses that are loaded

A quoted address is loaded as the address that it is.  An integer beyond the parser's
range ends the parsing, and all of RAM lies beyond it.
-/

namespace Riscbox
namespace Configuration

open Numerals Parser

variable {α β : Type} {x : Parse α} {f : α → Parse β} {a : α} {text text' after rest gap : List UInt8}
  {fuel n : Nat} {v : Value} {name : String} {spelling digits : List UInt8}
  {members members' bindings : List (String × Value)}

/-! ## Texts of a setting -/

theorem MembersBefore.append (h : MembersBefore members text) (h' : MembersText members' text') :
    MembersText (members ++ members') (text ++ text') := by
  induction h with
  | nil => exact h'
  | cons hmember hgap hrest ih =>
    rw [List.append_assoc, List.append_assoc]
    exact .cons hmember hgap ih

theorem MembersAfter.member {member : List UInt8} (h : MembersAfter members text)
    (hmember : MemberText name v member) : MembersText ((name, v) :: members) (member ++ text) := by
  cases h with
  | close hgap => exact .last hmember hgap
  | cons hgap hrest => exact .cons hmember hgap hrest

/-- A setting is what is bound to its name. -/
theorem Written.document (h : Written name spelling text) (hvalue : ValueText v spelling) :
    ∃ values, DocumentText (.object values) text ∧ values.lookup name = some v := by
  obtain ⟨gap, before, gap₁, key, gap₂, gap₃, after, trailing, members, members', rfl, hgap, hbefore,
    hgap₁, hkey, hgap₂, hgap₃, hafter, htrailing, hlast⟩ := h.parts
  have hmembers : MembersText (members ++ (name, v) :: members')
      (before ++ (gap₁ ++ (key ++ (gap₂ ++ ':'.toUInt8 :: (gap₃ ++ spelling))) ++ after)) :=
    hbefore.append (hafter.member (.mk hgap₁ hkey hgap₂ hgap₃ hvalue))
  obtain ⟨values, hvalues⟩ := Bindings.exists_lastOf (members ++ (name, v) :: members')
  refine ⟨values, ⟨gap, _, trailing, hgap, .object hmembers hvalues, htrailing, ?_⟩, ?_⟩
  · simp only [List.append_assoc, List.cons_append]
  · have hnone : members'.reverse.lookup name = none := by
      rw [List.lookup_eq_none_iff] at hlast ⊢
      intro member hmember
      exact hlast member (List.mem_reverse.mp hmember)
    rw [hvalues.lookup, List.reverse_append, List.reverse_cons, List.append_assoc, List.lookup_append,
      hnone, Option.none_or, List.singleton_append, Bindings.lookup_cons, if_pos rfl]

/-! ## Integers out of range -/

namespace Parser

/-- The call ends with an error on what is left. -/
def Fails (x : Parse α) (rest : List UInt8) : Prop := ∀ before, ∃ e p,
  x (between before rest) = (.err e, p)

theorem Fails.bind (h : Fails x rest) (f : α → Parse β) : Fails (x >>= f) rest := by
  intro before
  obtain ⟨e, p, hcall⟩ := h before
  exact ⟨e, p, Op.bind_err hcall⟩

theorem Consumes.fails (hx : Consumes x text rest a) (hf : Fails (f a) rest) :
    Fails (x >>= f) (text ++ rest) := by
  intro before
  obtain ⟨e, p, hcall⟩ := hf (before ++ text)
  exact ⟨e, p, (Op.bind_ok (hx before)).trans hcall⟩

/-- A call that reads nothing. -/
theorem Consumes.fails_then (hx : Consumes x [] rest a) (hf : Fails (f a) rest) :
    Fails (x >>= f) rest :=
  hx.fails hf

end Parser

theorem integer_fails (h : IntegerText n text) (hrange : ¬n < 2 ^ 31) (hafter : Bounded after) :
    Fails integer (text ++ after) := by
  intro before
  rw [integer_text h hafter, if_neg hrange]
  exact ⟨_, _, rfl⟩

theorem value_fails (hgap : Gap gap) (h : IntegerText n text) (hrange : ¬n < 2 ^ 31)
    (hafter : Bounded after) : Fails (value (fuel + 1)) (gap ++ (text ++ after)) := by
  have hread := integer_fails h hrange hafter
  obtain ⟨byte, rest, rfl, hdigit⟩ := isAsciiDigit_of_integer h
  have hopening := opening_of_identifierByte (by rw [identifierByte, hdigit, Bool.or_true])
  have hne : ∀ mark, isAsciiDigit mark = false → byte ≠ mark := by
    rintro mark hmark rfl
    rw [hdigit] at hmark
    cases hmark
  have hpeek : Consumes peek [] (byte :: rest ++ after) (some byte) := consumes_peek _
  refine (skip_gap hgap hopening.solid).fails (hpeek.fails_then ?_)
  dsimp only
  rw [if_neg (hne _ rfl), if_neg (hne _ rfl), if_neg (hne _ rfl), if_pos hdigit]
  exact hread

/-- A member whose value is out of range. -/
theorem objectLoop_fails {key gap₁ gap₂ gap₃ : List UInt8} (hgap₁ : Gap gap₁) (hkey : KeyText name key)
    (hgap₂ : Gap gap₂) (hgap₃ : Gap gap₃) (h : IntegerText n text) (hrange : ¬n < 2 ^ 31)
    (hafter : Bounded after) (hfuel : 2 ≤ fuel) :
    Fails (objectLoop fuel bindings)
      (gap₁ ++ (key ++ (gap₂ ++ [':'.toUInt8]) ++ (gap₃ ++ (text ++ after)))) := by
  obtain ⟨fuel, rfl⟩ := Nat.exists_eq_add_of_le' hfuel
  have hvalue : Fails (value (fuel + 1)) (gap₃ ++ (text ++ after)) := value_fails hgap₃ h hrange hafter
  have hname := consumes_propertyKey (gap₃ ++ (text ++ after)) hkey hgap₂
  obtain ⟨byte, tail, rfl, hopening⟩ := hkey.opening
  have hpeek : Consumes peek []
      (byte :: tail ++ (gap₂ ++ [':'.toUInt8]) ++ (gap₃ ++ (text ++ after))) (some byte) :=
    consumes_peek _
  have hskip : Consumes skipSpaceAndComments gap₁
      (byte :: tail ++ (gap₂ ++ [':'.toUInt8]) ++ (gap₃ ++ (text ++ after))) () :=
    skip_gap hgap₁ hopening.solid
  refine hskip.fails (hpeek.fails_then ?_)
  rw [if_neg fun h => hopening.2.2.2 (Option.some.inj h)]
  exact hname.fails (hvalue.bind _)

theorem members_fails (hbefore : MembersBefore members text)
    (hrest : ∀ fuel bindings, 2 ≤ fuel → Fails (objectLoop fuel bindings) rest)
    (hfuel : 3 * text.length + 2 ≤ fuel) : Fails (objectLoop fuel bindings) (text ++ rest) := by
  induction hbefore generalizing fuel bindings with
  | nil => exact hrest fuel bindings hfuel
  | @cons name v members member gap text hmember hgap htext ih =>
    cases hmember with
    | @mk _ _ gap₁ key gap₂ gap₃ text' hgap₁ hkey hgap₂ hgap₃ hvalue =>
      cases fuel with
      | zero => exact absurd hfuel (by omega)
      | succ fuel =>
        have hlength : 3 * (gap₃ ++ text').length + 1 ≤ fuel := by
          simp at hfuel
          simp
          omega
        have hlength' : 3 * text.length + 2 ≤ fuel := by
          simp at hfuel
          omega
        have hbounded : Bounded (gap ++ ([','.toUInt8] ++ (text ++ rest))) :=
          bounded_gap hgap (bounded_cons (by decide))
        have hread : Consumes (value fuel) (gap₃ ++ text')
            (gap ++ ([','.toUInt8] ++ (text ++ rest))) v :=
          (readsWithin fuel).value _ hvalue hgap₃ hbounded hlength
        have hname := consumes_propertyKey
          (gap₃ ++ text' ++ (gap ++ ([','.toUInt8] ++ (text ++ rest)))) hkey hgap₂
        have hseparator : Consumes (separator '\x7d'.toUInt8 "expected ',' or '\x7d'")
            (gap ++ [','.toUInt8]) (text ++ rest) () := consumes_separator_comma hgap
        have hloop : Fails (objectLoop fuel (Bindings.insert name v bindings)) (text ++ rest) :=
          ih hlength'
        obtain ⟨byte, tail, rfl, hopening⟩ := hkey.opening
        have hpeek : Consumes peek [] (byte :: tail ++ (gap₂ ++ [':'.toUInt8]) ++
            (gap₃ ++ text' ++ (gap ++ ([','.toUInt8] ++ (text ++ rest))))) (some byte) :=
          consumes_peek _
        have hskip : Consumes skipSpaceAndComments gap₁ (byte :: tail ++ (gap₂ ++ [':'.toUInt8]) ++
            (gap₃ ++ text' ++ (gap ++ ([','.toUInt8] ++ (text ++ rest))))) () :=
          skip_gap hgap₁ hopening.solid
        have htail : Fails (do
            separator '\x7d'.toUInt8 "expected ',' or '\x7d'"
            objectLoop fuel (Bindings.insert name v bindings))
            (gap ++ [','.toUInt8] ++ (text ++ rest)) := hseparator.fails hloop
        rw [List.append_assoc gap] at htail
        have hall : Fails (objectLoop (fuel + 1) bindings) (gap₁ ++ (byte :: tail ++
            (gap₂ ++ [':'.toUInt8]) ++ (gap₃ ++ text' ++ (gap ++ ([','.toUInt8] ++ (text ++ rest)))))) := by
          refine hskip.fails (hpeek.fails_then ?_)
          rw [if_neg fun h => hopening.2.2.2 (Option.some.inj h)]
          exact hname.fails (hread.fails htail)
        simp only [List.append_assoc, List.cons_append, List.nil_append] at hall ⊢
        exact hall

theorem bounded_after (h : MembersAfter members text) : Bounded (text ++ after) := by
  cases h with
  | close hgap =>
    rw [List.append_assoc]
    exact bounded_gap hgap (bounded_cons (by decide))
  | cons hgap hrest =>
    rw [List.append_assoc]
    exact bounded_gap hgap (bounded_cons (by decide))

theorem object_fails (hgap : Gap gap) (h : Fails (objectLoop fuel []) rest) :
    Fails (value (fuel + 2)) (gap ++ '\x7b'.toUInt8 :: rest) := by
  have hpeek : Consumes peek [] ('\x7b'.toUInt8 :: rest) (some '\x7b'.toUInt8) := consumes_peek _
  have hskip : Consumes skipSpaceAndComments gap ('\x7b'.toUInt8 :: rest) () :=
    skip_gap hgap (solid_of_head (by decide) (by decide) rest)
  refine hskip.fails (hpeek.fails_then ?_)
  dsimp only
  rw [if_pos rfl]
  exact (consumes_take '\x7b'.toUInt8).fails h

/-- A setting that is an integer out of range ends the parsing. -/
theorem Written.fails {source : String} (h : Written name spelling (utf8 source))
    (hinteger : IntegerText n spelling) (hrange : ¬n < 2 ^ 31) :
    ∃ e, parseValue source = .err e := by
  obtain ⟨gap, before, gap₁, key, gap₂, gap₃, after, trailing, members, members', hsource, hgap,
    hbefore, hgap₁, hkey, hgap₂, hgap₃, hafter, -, -⟩ := h.parts
  have hbounded : Bounded (after ++ trailing) := bounded_after hafter
  have hmembers : ∀ fuel, 3 * before.length + 2 ≤ fuel → Fails (objectLoop fuel [])
      (before ++ (gap₁ ++ (key ++ (gap₂ ++ [':'.toUInt8]) ++ (gap₃ ++ (spelling ++ (after ++ trailing)))))) :=
    fun fuel hfuel => members_fails hbefore
      (fun fuel bindings hfuel => objectLoop_fails hgap₁ hkey hgap₂ hgap₃ hinteger hrange hbounded hfuel)
      hfuel
  have hlength : 3 * before.length + 4 ≤ 3 * (utf8 source).length + 1 := by
    rw [hsource]
    simp
    omega
  have hfuel : 3 * (utf8 source).length + 1 = 3 * (utf8 source).length - 1 + 2 := by omega
  have hvalue := object_fails hgap (hmembers (3 * (utf8 source).length - 1) (by omega))
  rw [← hfuel] at hvalue
  simp only [List.append_assoc, List.cons_append, List.nil_append] at hvalue
  rw [← hsource] at hvalue
  obtain ⟨e, p, hread⟩ := hvalue []
  exact ⟨e, congrArg Prod.fst (Op.bind_err hread)⟩

/-! ## Strings of digits -/

theorem char_of_ascii {byte : UInt8} (h : byte.toNat < 128) :
    String.utf8EncodeChar (Char.ofNat byte.toNat) = [byte] := by
  have hcode : (Char.ofNat byte.toNat).val.toNat = byte.toNat :=
    (Char.toNat_ofNat _).trans (if_pos (.inl (lt_trans h (by decide))))
  unfold String.utf8EncodeChar
  simp only [hcode]
  rw [if_pos (by omega), UInt8.ofNat_toNat]

theorem ascii_of_identifierByte {byte : UInt8} (h : identifierByte byte = true) : byte.toNat < 128 := by
  have hz : 'z'.toUInt8.toNat < 128 := by decide
  have hZ : 'Z'.toUInt8.toNat < 128 := by decide
  have h9 : '9'.toUInt8.toNat < 128 := by decide
  unfold identifierByte identifierStart isAsciiAlphabetic isAsciiDigit at h
  simp only [Bool.or_eq_true, decide_eq_true_eq] at h
  rcases h with ((⟨-, h⟩ | ⟨-, h⟩) | rfl | rfl) | ⟨-, h⟩
  · exact lt_of_le_of_lt (UInt8.le_iff_toNat_le.mp h) hz
  · exact lt_of_le_of_lt (UInt8.le_iff_toNat_le.mp h) hZ
  · decide
  · decide
  · exact lt_of_le_of_lt (UInt8.le_iff_toNat_le.mp h) h9

/-- The bytes of an identifier are its text in a string. -/
theorem charactersText_identifier (h : ∀ byte ∈ text, identifierByte byte = true) :
    CharactersText (text.map fun byte => Char.ofNat byte.toNat) text := by
  induction text with
  | nil => exact .nil
  | cons byte text ih =>
    have hbyte := h byte List.mem_cons_self
    have hencode := char_of_ascii (ascii_of_identifierByte hbyte)
    have hne : ∀ mark : Char, String.utf8EncodeChar mark = [mark.toUInt8] →
        identifierByte mark.toUInt8 = false → Char.ofNat byte.toNat ≠ mark := by
      intro mark hmark hno he
      rw [he, hmark] at hencode
      rw [(List.cons.inj hencode).1, hbyte] at hno
      cases hno
    have hcharacter : CharacterText (Char.ofNat byte.toNat) [byte] := by
      rw [← hencode]
      exact .raw (hne '"' rfl rfl) (hne '\\' rfl rfl) (hne '\n' rfl rfl) (hne '\r' rfl rfl)
    exact .cons hcharacter (ih fun byte hbyte => h byte (List.mem_cons_of_mem _ hbyte))

theorem exists_stringText (h : ∀ byte ∈ text, identifierByte byte = true) :
    ∃ value, utf8 value = text ∧ StringText value (quote text) := by
  refine ⟨String.ofList (text.map fun byte => Char.ofNat byte.toNat), ?_, text, ?_, rfl⟩
  · rw [utf8_eq, String.toList_ofList]
    induction text with
    | nil => rfl
    | cons byte text ih =>
      rw [List.map_cons, List.flatMap_cons,
        char_of_ascii (ascii_of_identifierByte (h byte List.mem_cons_self)),
        ih fun byte hbyte => h byte (List.mem_cons_of_mem _ hbyte)]
      rfl
  · rw [String.toList_ofList]
    exact charactersText_identifier h

/-! ## Addresses -/

variable {setting : AddressSetting} {address : Nat} {source : String}

theorem AddressText.integer (h : AddressText address digits) : IntegerText address digits := by
  rcases h with ⟨hvalue, hzero⟩ | ⟨rest, rfl, hvalue⟩
  · exact .decimal hvalue hzero
  · exact .hexadecimal (.inl rfl) hvalue

theorem AddressText.identifierBytes (h : AddressText address digits) :
    ∀ byte ∈ digits, identifierByte byte = true := by
  have hall : ∀ {radix : Nat} {text : List UInt8}, numeral radix text = some address →
      ∀ byte ∈ text, identifierByte byte = true := by
    intro radix text hvalue byte hbyte
    obtain ⟨d, hd⟩ := digit_of_digits (digits_of_numeral hvalue) hbyte
    exact identifierByte_of_digit hd
  rcases h with ⟨hvalue, -⟩ | ⟨rest, rfl, hvalue⟩
  · exact hall hvalue
  · intro byte hbyte
    rcases List.mem_append.mp hbyte with hmark | hbyte
    · exact List.all_eq_true.mp (rfl : (ascii "0x").all identifierByte = true) byte hmark
    · exact hall hvalue byte hbyte

/-- A quoted address is loaded. -/
theorem loadAddress_quoted (hdigits : AddressText address digits) (hrange : address < 2 ^ 64)
    (h : Written setting.name (quote digits) (utf8 source)) :
    loadAddress source setting = .ok (some address) := by
  obtain ⟨value, hvalue, htext⟩ := exists_stringText hdigits.identifierBytes
  obtain ⟨values, hdocument, hlookup⟩ := h.document (.string htext)
  unfold loadAddress
  rw [parseValue_text hdocument]
  show optionalAddress values setting.name = _
  unfold optionalAddress
  rw [hlookup]
  dsimp only
  rw [hvalue]
  rcases hdigits with ⟨hnumeral, hzero⟩ | ⟨rest, rfl, hnumeral⟩
  · have hmark : digits.take 2 ≠ ascii "0x" := by
      intro htake
      apply hzero
      cases digits with
      | nil => cases htake
      | cons byte digits =>
        rw [List.head?_cons, (List.cons.inj htake).1]
        rfl
    rw [if_neg hmark, u64FromStrRadix_numeral hnumeral, if_pos hrange]
    rfl
  · have htake : (ascii "0x" ++ rest).take 2 = ascii "0x" := rfl
    have hdrop : (ascii "0x" ++ rest).drop 2 = rest := rfl
    rw [if_pos htake, hdrop, u64FromStrRadix_numeral hnumeral, if_pos hrange]
    rfl

/-- An address beyond the range of the parser's integers is refused as one. -/
theorem loadAddress_integer (hdigits : AddressText address digits) (hrange : ¬address < 2 ^ 31)
    (h : Written setting.name digits (utf8 source)) : ∃ e, loadAddress source setting = .err e := by
  obtain ⟨e, hparse⟩ := h.fails hdigits.integer hrange
  unfold loadAddress
  rw [hparse]
  exact ⟨_, rfl⟩

/-- A configuration of one setting. -/
theorem exists_written (setting : AddressSetting) (hdigits : AddressText address digits) :
    ∃ source, Written setting.name digits (utf8 source) := by
  obtain ⟨first, rest, hname, hfirst, hrest⟩ : ∃ first rest, utf8 setting.name = first :: rest ∧
      identifierStart first = true ∧ rest.all identifierByte = true := by
    cases setting <;> exact ⟨_, _, rfl, rfl, rfl⟩
  have hall : ∀ byte ∈ '\x7b'.toUInt8 :: (first :: rest ++ ':'.toUInt8 :: (digits ++ ['\x7d'.toUInt8])),
      byte.toNat < 128 := by
    intro byte hbyte
    simp only [List.mem_cons, List.mem_append, List.not_mem_nil, or_false] at hbyte
    rcases hbyte with rfl | (rfl | hbyte) | rfl | hbyte | rfl
    · decide
    · exact ascii_of_identifierByte (by rw [identifierByte, hfirst, Bool.true_or])
    · exact ascii_of_identifierByte (List.all_eq_true.mp hrest byte hbyte)
    · decide
    · exact ascii_of_identifierByte (hdigits.identifierBytes byte hbyte)
    · decide
  obtain ⟨source, hsource⟩ := exists_utf8 hall
  refine ⟨source, ⟨[], [], [], first :: rest, [], [], ['\x7d'.toUInt8], [], [], [], ?_, .nil, .nil,
    .nil, .identifier hname hfirst (List.all_eq_true.mp hrest), .nil, .nil, .close .nil, .gap .nil, rfl⟩⟩
  rw [hsource]
  simp

theorem InRam.range (h : InRam address) : ¬address < 2 ^ 31 ∧ 0 < address ∧ address < 2 ^ 64 := by
  obtain ⟨size, -, hsize, hlow, hhigh⟩ := h
  refine ⟨by omega, by omega, ?_⟩
  have hproduct : size * 2 ^ 20 < 2 ^ 31 * 2 ^ 20 := Nat.mul_lt_mul_of_pos_right hsize (by decide)
  omega

theorem not_agrees (setting : AddressSetting) (h : InRam address) : ¬Agrees setting address := by
  intro hagrees
  have hdigits : AddressText address (decimal address) :=
    .inl ⟨numeral_decimal address, decimal_head h.range.2.1⟩
  obtain ⟨source, hwritten⟩ := exists_written setting hdigits
  obtain ⟨e, hload⟩ := loadAddress_integer hdigits h.range.1 hwritten
  rw [hagrees.loaded _ _ source hdigits (.inl rfl) hwritten] at hload
  cases hload

/-- No address of RAM means the same in both of its forms: the quoted one is loaded, the
integer is beyond the parser's integers and refused. -/
theorem address_forms (setting : AddressSetting) (h : InRam address) :
    (∀ digits source, AddressText address digits → Written setting.name (quote digits) (utf8 source) →
        loadAddress source setting = .ok (some address)) ∧
      (∀ digits source, AddressText address digits → Written setting.name digits (utf8 source) →
        ∃ e, loadAddress source setting = .err e) ∧
      ¬Agrees setting address :=
  ⟨fun _ _ hdigits hwritten => loadAddress_quoted hdigits h.range.2.2 hwritten,
    fun _ _ hdigits hwritten => loadAddress_integer hdigits h.range.1 hwritten, not_agrees setting h⟩

theorem inRam_base : InRam 0x80000000 := ⟨1, by decide, by decide, by decide, by decide⟩

theorem address_forms_base : InRam 0x80000000 ∧ ¬Agrees .kernel 0x80000000 :=
  ⟨inRam_base, (address_forms .kernel inRam_base).2.2⟩

/-- The default address of the firmware, as an integer. -/
theorem not_agrees_base : InRam 0x80000000 ∧ ¬Agrees .bios 0x80000000 :=
  ⟨inRam_base, not_agrees .bios inRam_base⟩

end Configuration
end Riscbox
