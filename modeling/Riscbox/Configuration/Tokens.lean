import Riscbox.Configuration.Scanning
import Riscbox.Configuration.Grammar

/-!
# The tokens that the parser reads

Every text of a gap, a string, a key or an integer is read, and as what it stands for.
-/

namespace Riscbox
namespace Configuration

open Numerals Parser

variable {gap text text' after rest body bytes : List UInt8} {byte : UInt8} {fuel n radix value : Nat}
  {c : Char} {name message : String}

/-! ## Gaps -/

/-- What does not go on with a gap. -/
def Solid (rest : List UInt8) : Prop :=
  (∀ byte, rest.head? = some byte → isAsciiWhitespace byte = false) ∧
    rest.take 2 ≠ ascii "//" ∧ rest.take 2 ≠ ascii "/*"

theorem solid_of_head {byte : UInt8} (hspace : isAsciiWhitespace byte = false)
    (hslash : byte ≠ '/'.toUInt8) (rest : List UInt8) : Solid (byte :: rest) := by
  refine ⟨fun first hfirst => ?_, fun h => ?_, fun h => ?_⟩
  · rw [← Option.some.inj hfirst]
    exact hspace
  · exact hslash (List.cons.inj h).1
  · exact hslash (List.cons.inj h).1

theorem solid_nil : Solid [] := ⟨by simp, by decide, by decide⟩

/-- The first end of a comment in front of a text. -/
theorem commentEnd_append (hbody : ¬ascii "*/" <:+: body) (rest : List UInt8) :
    commentEnd (body ++ ascii "*/" ++ rest) = some body.length := by
  induction body with
  | nil => rfl
  | cons byte body ih =>
    have hrest : ¬ascii "*/" <:+: body := fun h => hbody (List.infix_cons h)
    have htake : (byte :: (body ++ ascii "*/" ++ rest)).take 2 ≠ ascii "*/" := by
      intro h
      cases body with
      | nil =>
        obtain ⟨-, hnext⟩ := List.cons.inj h
        cases hnext
      | cons next body =>
        apply hbody
        refine ⟨[], body, ?_⟩
        rw [← h]
        rfl
    show (if (byte :: (body ++ ascii "*/" ++ rest)).take 2 = ascii "*/" then some 0
      else (commentEnd (body ++ ascii "*/" ++ rest)).map (· + 1)) = _
    rw [if_neg htake, ih hrest]
    rfl

theorem skipLoop_solid (h : Solid rest) : Consumes (skipLoop (fuel + 1)) [] rest () := by
  obtain ⟨hspace, hline, hblock⟩ := h
  have hwhile : Consumes (advanceWhile isAsciiWhitespace) [] ([] ++ rest) () :=
    consumes_advanceWhile (by simp) hspace
  have hslash : Consumes (startsWith (ascii "//")) [] ([] ++ rest) false := by
    rw [← decide_eq_false hline]
    exact consumes_startsWith _ rest
  have hstar : Consumes (startsWith (ascii "/*")) [] ([] ++ rest) false := by
    rw [← decide_eq_false hblock]
    exact consumes_startsWith _ rest
  exact hwhile.then (hslash.then (hstar.then (consumes_pure ())))

/-- A space in front of what the loop skips. -/
theorem skipLoop_space (hbyte : isAsciiWhitespace byte = true)
    (h : Consumes (skipLoop fuel) text rest ()) :
    Consumes (skipLoop fuel) (byte :: text) rest () := by
  cases fuel with
  | zero => exact absurd (h []) (by simp [skipLoop, Op.abort])
  | succ fuel =>
    intro before
    have hloop := h (before ++ [byte])
    have hwhile : advanceWhile isAsciiWhitespace (between before (byte :: text ++ rest)) =
        advanceWhile isAsciiWhitespace (between (before ++ [byte]) (text ++ rest)) := by
      simp [advanceWhile, between, advance, hbyte, Nat.add_assoc, Nat.add_comm 1]
    have hsplit : before ++ [byte] ++ text = before ++ byte :: text := by simp
    rw [hsplit] at hloop
    rw [← hloop]
    unfold skipLoop
    rw [Op.bind_apply, hwhile, ← Op.bind_apply]

theorem consumes_marked {mark : List UInt8} (hlength : mark.length = 2) :
    Consumes (startsWith mark) [] (mark ++ rest) true := by
  have htake : (mark ++ rest).take mark.length = mark := List.take_left
  rw [← decide_eq_true htake]
  exact consumes_startsWith mark (mark ++ rest)

theorem skipLoop_line (hbody : '\n'.toUInt8 ∉ body)
    (hend : ∀ byte, (text ++ rest).head? = some byte → byte = '\n'.toUInt8)
    (h : Consumes (skipLoop fuel) text rest ()) :
    Consumes (skipLoop (fuel + 1)) (ascii "//" ++ body ++ text) rest () := by
  have hspace : Consumes (advanceWhile isAsciiWhitespace) []
      (ascii "//" ++ body ++ text ++ rest) () :=
    consumes_advanceWhile (by simp) fun byte hbyte => by
      rw [← Option.some.inj hbyte]
      decide
  have hmark : Consumes (startsWith (ascii "//")) [] (ascii "//" ++ body ++ text ++ rest) true := by
    rw [List.append_assoc, List.append_assoc]
    exact consumes_marked rfl
  have hopen : Consumes (advance 2) (ascii "//") (body ++ text ++ rest) () :=
    consumes_advance (ascii "//")
  have hwhile : Consumes (advanceWhile (· ≠ '\n'.toUInt8)) body (text ++ rest) () :=
    consumes_advanceWhile (fun byte hbyte => decide_eq_true fun he => hbody (he ▸ hbyte))
      fun byte hbyte => decide_eq_false fun hne => hne (hend byte hbyte)
  rw [List.append_assoc]
  exact hspace.then (hmark.then (hopen.bind (hwhile.bind h)))

theorem skipLoop_block (hbody : ¬ascii "*/" <:+: body) (h : Consumes (skipLoop fuel) text rest ()) :
    Consumes (skipLoop (fuel + 1)) (ascii "/*" ++ body ++ ascii "*/" ++ text) rest () := by
  have hspace : Consumes (advanceWhile isAsciiWhitespace) []
      (ascii "/*" ++ body ++ ascii "*/" ++ text ++ rest) () :=
    consumes_advanceWhile (by simp) fun byte hbyte => by
      rw [← Option.some.inj hbyte]
      decide
  have hline : Consumes (startsWith (ascii "//")) []
      (ascii "/*" ++ body ++ ascii "*/" ++ text ++ rest) false := consumes_startsWith _ _
  have hmark : Consumes (startsWith (ascii "/*")) []
      (ascii "/*" ++ body ++ ascii "*/" ++ text ++ rest) true := consumes_startsWith _ _
  have hopen : Consumes (advance 2) (ascii "/*") (body ++ ascii "*/" ++ text ++ rest) () :=
    consumes_advance (ascii "/*")
  have hclose : Consumes (advance (body.length + 2)) (body ++ ascii "*/") (text ++ rest) () := by
    have hlength : (body ++ ascii "*/").length = body.length + 2 := List.length_append
    rw [← hlength]
    exact consumes_advance _
  have hskip : Consumes (do advance (body.length + 2); skipLoop fuel) (body ++ ascii "*/" ++ text)
      rest () := hclose.bind h
  rw [List.append_assoc, List.append_assoc, ← List.append_assoc body]
  refine hspace.then (hline.then (hmark.then (hopen.bind ?_)))
  have hremaining : Consumes remaining [] (body ++ ascii "*/" ++ text ++ rest)
      (body ++ ascii "*/" ++ text ++ rest) := consumes_remaining _
  refine hremaining.then ?_
  rw [List.append_assoc _ text, commentEnd_append hbody]
  exact hskip

/-- A gap in front of what the loop skips. -/
theorem skipLoop_gap (hgap : Gap gap)
    (htext : ∀ fuel, text.length < fuel → Consumes (skipLoop fuel) text rest ())
    (hfuel : (gap ++ text).length < fuel) : Consumes (skipLoop fuel) (gap ++ text) rest () := by
  induction hgap generalizing fuel with
  | nil => exact htext fuel hfuel
  | space hbyte hgap ih =>
    exact skipLoop_space hbyte (ih (lt_trans (Nat.lt_succ_self _) hfuel))
  | @line body gap hbody hgap ih =>
    cases fuel with
    | zero => exact absurd hfuel (Nat.not_lt_zero _)
    | succ fuel =>
      have hlength : (gap ++ text).length < fuel := by
        simp at hfuel
        simp
        omega
      have hbreak : Consumes (skipLoop fuel) ('\n'.toUInt8 :: (gap ++ text)) rest () :=
        skipLoop_space (by decide) (ih hlength)
      rw [List.append_assoc (ascii "//" ++ body)]
      exact skipLoop_line hbody (fun byte hbyte => (Option.some.inj hbyte).symm) hbreak
  | @block body gap hbody hgap ih =>
    cases fuel with
    | zero => exact absurd hfuel (Nat.not_lt_zero _)
    | succ fuel =>
      have hlength : (gap ++ text).length < fuel := by
        have hclose : (ascii "*/").length = 2 := rfl
        simp at hfuel
        simp
        omega
      rw [List.append_assoc _ gap]
      exact skipLoop_block hbody (ih hlength)

theorem skip_of_loop (h : ∀ fuel, text.length < fuel → Consumes (skipLoop fuel) text rest ()) :
    Consumes skipSpaceAndComments text rest () := by
  intro before
  exact h _ (by simp [between]; omega) before

theorem skipLoop_end (hrest : Solid rest) (hfuel : ([] : List UInt8).length < fuel) :
    Consumes (skipLoop fuel) [] rest () := by
  cases fuel with
  | zero => exact absurd hfuel (Nat.not_lt_zero _)
  | succ fuel => exact skipLoop_solid hrest

theorem skip_gap (hgap : Gap gap) (hrest : Solid rest) :
    Consumes skipSpaceAndComments gap rest () := by
  apply skip_of_loop
  intro fuel hfuel
  rw [← List.append_nil gap] at hfuel ⊢
  exact skipLoop_gap hgap (fun _ hfuel => skipLoop_end hrest hfuel) hfuel

/-- The text may end in a line of a comment. -/
theorem skip_trailing (h : Trailing text) : Consumes skipSpaceAndComments text [] () := by
  cases h with
  | gap hgap => exact skip_gap hgap solid_nil
  | @line gap body hgap hbody =>
    apply skip_of_loop
    intro fuel hfuel
    refine skipLoop_gap hgap (fun fuel hfuel => ?_) hfuel
    cases fuel with
    | zero => exact absurd hfuel (Nat.not_lt_zero _)
    | succ fuel =>
      have hmark : (ascii "//").length = 2 := rfl
      have hlength : ([] : List UInt8).length < fuel := by
        simp at hfuel
        simp
        omega
      have hline : Consumes (skipLoop (fuel + 1)) (ascii "//" ++ body ++ []) [] () :=
        skipLoop_line hbody (by simp) (skipLoop_end solid_nil hlength)
      rw [List.append_nil] at hline
      exact hline

/-! ## Strings -/

/-- A byte that a string has as it is. -/
def Plain (byte : UInt8) : Prop :=
  byte ≠ '"'.toUInt8 ∧ byte ≠ '\n'.toUInt8 ∧ byte ≠ '\r'.toUInt8 ∧ byte ≠ '\\'.toUInt8

/-- An ASCII byte of a character is all of it. -/
theorem ascii_of_mem_encode (hbyte : byte ∈ String.utf8EncodeChar c) (hascii : byte.toNat < 128) :
    byte.toNat = c.toNat := by
  unfold String.utf8EncodeChar at hbyte
  by_cases h₁ : c.val.toNat ≤ 0x7f
  · simp only [h₁, if_true, List.mem_singleton] at hbyte
    rw [hbyte, UInt8.toNat_ofNat']
    exact Nat.mod_eq_of_lt (by omega)
  · exfalso
    by_cases h₂ : c.val.toNat ≤ 0x7ff
    · simp only [h₁, h₂, if_true, if_false, List.mem_cons, List.not_mem_nil, or_false] at hbyte
      rcases hbyte with rfl | rfl
      · rw [UInt8.toNat_ofNat'] at hascii; omega
      · rw [UInt8.toNat_ofNat'] at hascii; omega
    · by_cases h₃ : c.val.toNat ≤ 0xffff
      · simp only [h₁, h₂, h₃, if_true, if_false, List.mem_cons, List.not_mem_nil, or_false] at hbyte
        rcases hbyte with rfl | rfl | rfl
        · rw [UInt8.toNat_ofNat'] at hascii; omega
        · rw [UInt8.toNat_ofNat'] at hascii; omega
        · rw [UInt8.toNat_ofNat'] at hascii; omega
      · simp only [h₁, h₂, h₃, if_false, List.mem_cons, List.not_mem_nil, or_false] at hbyte
        rcases hbyte with rfl | rfl | rfl | rfl
        · rw [UInt8.toNat_ofNat'] at hascii; omega
        · rw [UInt8.toNat_ofNat'] at hascii; omega
        · rw [UInt8.toNat_ofNat'] at hascii; omega
        · rw [UInt8.toNat_ofNat'] at hascii; omega

theorem plain_of_raw (hquote : c ≠ '"') (hbackslash : c ≠ '\\') (hline : c ≠ '\n')
    (hreturn : c ≠ '\r') (hbyte : byte ∈ String.utf8EncodeChar c) : Plain byte := by
  have hne : ∀ mark : Char, c ≠ mark → mark.toUInt8.toNat = mark.toNat → mark.toNat < 128 →
      byte ≠ mark.toUInt8 := by
    intro mark hmark hcode hascii he
    rw [← hcode, ← he] at hascii
    have hc := ascii_of_mem_encode hbyte hascii
    rw [he, hcode] at hc
    exact hmark (Char.toNat_inj.mp hc.symm)
  exact ⟨hne _ hquote rfl (by decide), hne _ hline rfl (by decide), hne _ hreturn rfl (by decide),
    hne _ hbackslash rfl (by decide)⟩

theorem consumes_hexDigit {d : Nat} (h : digit 16 byte = some d) :
    Consumes hexDigit [byte] after d := by
  refine (consumes_take byte).last ?_
  rw [Option.bind_some, h]
  exact consumes_pure d

theorem shift_or {a d : Nat} (h : d < 16) : a <<< 4 ||| d = a * 16 + d := by
  rw [← Nat.shiftLeft_add_eq_or_of_lt (show d < 2 ^ 4 from h), Nat.shiftLeft_eq]

theorem consumes_hexQuad (h : Quad n text) : Consumes hexQuad text after n := by
  obtain ⟨hlength, hvalue⟩ := h
  match text, hlength with
  | [byte₁, byte₂, byte₃, byte₄], _ =>
    obtain ⟨a, ha, hvalue⟩ := Option.bind_eq_some_iff.mp hvalue
    obtain ⟨b, hb, hvalue⟩ := Option.bind_eq_some_iff.mp hvalue
    obtain ⟨c, hc, hvalue⟩ := Option.bind_eq_some_iff.mp hvalue
    obtain ⟨d, hd, hvalue⟩ := Option.bind_eq_some_iff.mp hvalue
    have hn : ((a <<< 4 ||| b) <<< 4 ||| c) <<< 4 ||| d = n := by
      rw [shift_or (digit_lt hb), shift_or (digit_lt hc), shift_or (digit_lt hd),
        ← Option.some.inj hvalue]
      omega
    rw [← hn]
    exact (consumes_hexDigit ha).cons ((consumes_hexDigit hb).cons ((consumes_hexDigit hc).cons
      (consumes_hexDigit hd).map))

theorem consumes_encodeScalar (c : Char) :
    Consumes (encodeScalar c.toNat) [] after (String.utf8EncodeChar c) := by
  have hvalid : c.toNat.isValidChar := c.valid
  unfold encodeScalar charFromU32
  rw [if_pos hvalid, Char.ofNat_toNat]
  exact consumes_pure _

theorem consumes_unicode (h : Quad c.toNat text) :
    Consumes unicodeEscape text after (String.utf8EncodeChar c) := by
  have hhigh : ¬(0xd800 ≤ c.toNat ∧ c.toNat ≤ 0xdbff) := by
    have hvalid : c.toNat.isValidChar := c.valid
    unfold Nat.isValidChar at hvalid
    omega
  rw [← List.append_nil text]
  refine (consumes_hexQuad h).bind ?_
  rw [if_neg hhigh]
  exact consumes_encodeScalar c

theorem consumes_surrogates {high low : Nat} {first second : List UInt8} (hfirst : Quad high first)
    (hsecond : Quad low second) (hhigh : 0xd800 ≤ high ∧ high ≤ 0xdbff)
    (hlow : 0xdc00 ≤ low ∧ low ≤ 0xdfff)
    (hvalue : c.toNat = 0x10000 + (high - 0xd800) * 0x400 + (low - 0xdc00)) :
    Consumes unicodeEscape (first ++ (ascii "\\u" ++ second)) after (String.utf8EncodeChar c) := by
  have hscalar : 0x10000 + ((high - 0xd800) <<< 10) + low - 0xdc00 = c.toNat := by
    rw [Nat.shiftLeft_eq, hvalue]
    omega
  have hlowSurrogate : Consumes (lowSurrogate high) (ascii "\\u" ++ second) after c.toNat := by
    refine (consumes_take '\\'.toUInt8).cons ?_
    rw [if_neg (by simp)]
    refine (consumes_take 'u'.toUInt8).bind ?_
    rw [if_neg (by simp), ← List.append_nil second]
    refine (consumes_hexQuad hsecond).bind ?_
    rw [if_neg (not_not.mpr hlow), hscalar]
    exact consumes_pure _
  refine (consumes_hexQuad hfirst).bind ?_
  rw [if_pos hhigh, ← List.append_nil (ascii "\\u" ++ second)]
  exact hlowSurrogate.bind (consumes_encodeScalar c)

/-- An escape that stands for its own letter. -/
theorem consumes_self {letter : UInt8} (hletter : letter = '\''.toUInt8 ∨ letter = '"'.toUInt8 ∨
    letter = '\\'.toUInt8) : Consumes escape [letter] after [letter] := by
  intro before
  have hlength : (before ++ [letter]).length - 1 = before.length := by simp
  have hslice := slice_between before [letter] after
  rw [← hlength] at hslice
  unfold escape
  rw [Op.bind_ok (consumes_take letter before), if_pos (by simpa using hletter)]
  exact hslice

theorem consumes_named {letter : Char} (h : (c, letter) ∈ namedEscapes) :
    Consumes escape [letter.toUInt8] after (String.utf8EncodeChar c) := by
  simp only [namedEscapes, List.mem_cons, Prod.mk.injEq, List.not_mem_nil, or_false] at h
  rcases h with ⟨rfl, rfl⟩ | ⟨rfl, rfl⟩ | ⟨rfl, rfl⟩ | ⟨rfl, rfl⟩ | ⟨rfl, rfl⟩ | ⟨rfl, rfl⟩ |
    ⟨rfl, rfl⟩ | ⟨rfl, rfl⟩ | ⟨rfl, rfl⟩
  · exact consumes_self (.inl rfl)
  · exact consumes_self (.inr (.inl rfl))
  · exact consumes_self (.inr (.inr rfl))
  all_goals exact (consumes_take _).last (consumes_pure _)

theorem stringLoop_plain {value : String} (hplain : ∀ byte ∈ text, Plain byte)
    (hrest : ∀ fuel, rest.length < fuel → Consumes (stringLoop fuel (bytes ++ text)) rest after value)
    (hfuel : (text ++ rest).length < fuel) :
    Consumes (stringLoop fuel bytes) (text ++ rest) after value := by
  induction text generalizing bytes fuel with
  | nil =>
    rw [List.append_nil] at hrest
    exact hrest fuel hfuel
  | cons byte text ih =>
    cases fuel with
    | zero => exact absurd hfuel (Nat.not_lt_zero _)
    | succ fuel =>
      obtain ⟨hquote, hline, hreturn, hbackslash⟩ := hplain byte List.mem_cons_self
      refine (consumes_take byte).cons ?_
      dsimp only
      rw [if_neg hquote, if_neg (not_or.mpr ⟨hline, hreturn⟩), if_neg hbackslash]
      refine ih (fun byte hbyte => hplain byte (List.mem_cons_of_mem _ hbyte)) ?_
        (Nat.lt_of_succ_lt_succ hfuel)
      simpa using hrest

theorem stringLoop_escape {value : String} {escaped : List UInt8}
    (hescape : Consumes escape text (rest ++ after) escaped)
    (hrest : ∀ fuel, rest.length < fuel →
      Consumes (stringLoop fuel (bytes ++ escaped)) rest after value)
    (hfuel : ('\\'.toUInt8 :: text ++ rest).length < fuel) :
    Consumes (stringLoop fuel bytes) ('\\'.toUInt8 :: text ++ rest) after value := by
  cases fuel with
  | zero => exact absurd hfuel (Nat.not_lt_zero _)
  | succ fuel =>
    refine (consumes_take '\\'.toUInt8).cons ?_
    dsimp only
    rw [if_neg (by decide), if_neg (by decide), if_pos rfl]
    refine hescape.bind (hrest fuel ?_)
    simp at hfuel
    omega

/-- Every text of a character adds its bytes to the string. -/
theorem stringLoop_character {value : String} (h : CharacterText c text)
    (hrest : ∀ fuel, rest.length < fuel →
      Consumes (stringLoop fuel (bytes ++ String.utf8EncodeChar c)) rest after value)
    (hfuel : (text ++ rest).length < fuel) :
    Consumes (stringLoop fuel bytes) (text ++ rest) after value := by
  cases h with
  | raw hquote hbackslash hline hreturn =>
    exact stringLoop_plain (fun byte hbyte => plain_of_raw hquote hbackslash hline hreturn hbyte)
      hrest hfuel
  | named hmem => exact stringLoop_escape (consumes_named hmem) hrest hfuel
  | @unicode text hquad =>
    have hescape : Consumes escape ('u'.toUInt8 :: text) (rest ++ after) (String.utf8EncodeChar c) :=
      (consumes_take 'u'.toUInt8).cons (consumes_unicode hquad)
    exact stringLoop_escape hescape hrest hfuel
  | @surrogates high low first second hfirst hsecond hhigh hlow hvalue =>
    have htext : ascii "\\u" ++ first ++ ascii "\\u" ++ second =
        '\\'.toUInt8 :: 'u'.toUInt8 :: (first ++ (ascii "\\u" ++ second)) := by
      simp [ascii]
    rw [htext] at hfuel ⊢
    have hescape : Consumes escape ('u'.toUInt8 :: (first ++ (ascii "\\u" ++ second))) (rest ++ after)
        (String.utf8EncodeChar c) :=
      (consumes_take 'u'.toUInt8).cons (consumes_surrogates hfirst hsecond hhigh hlow hvalue)
    exact stringLoop_escape hescape hrest hfuel

theorem stringLoop_characters {value : String} {cs : List Char} (h : CharactersText cs text)
    (hvalue : utf8 value = bytes ++ cs.flatMap String.utf8EncodeChar)
    (hfuel : (text ++ ['"'.toUInt8]).length < fuel) :
    Consumes (stringLoop fuel bytes) (text ++ ['"'.toUInt8]) after value := by
  induction h generalizing bytes fuel with
  | nil =>
    cases fuel with
    | zero => exact absurd hfuel (Nat.not_lt_zero _)
    | succ fuel =>
      refine (consumes_take '"'.toUInt8).last ?_
      dsimp only
      rw [if_pos rfl]
      rw [List.flatMap_nil, List.append_nil] at hvalue
      rw [← hvalue]
      exact consumes_fromUtf8 value _ after
  | @cons c cs text rest hfirst hrest ih =>
    rw [List.append_assoc] at hfuel ⊢
    refine stringLoop_character hfirst (fun fuel hlength => ih ?_ hlength) hfuel
    rw [hvalue, List.flatMap_cons, List.append_assoc]

theorem utf8_eq (text : String) : utf8 text = text.toList.flatMap String.utf8EncodeChar := by
  show text.toByteArray.data.toList = _
  rw [← String.utf8Encode_toList, List.utf8Encode, List.data_toByteArray]

theorem consumes_string {value : String} (h : StringText value text) :
    Consumes string text after value := by
  obtain ⟨body, hbody, rfl⟩ := h
  refine (consumes_take '"'.toUInt8).cons ?_
  intro before
  exact stringLoop_characters hbody (utf8_eq value) (by simp [between]; omega) before

/-! ## Keys -/

/-- What does not go on with an identifier or an integer. -/
def Bounded (rest : List UInt8) : Prop :=
  ∀ byte, rest.head? = some byte → identifierByte byte = false

theorem consumes_identifier {first : UInt8} {rest : List UInt8} (hname : utf8 name = first :: rest)
    (hrest : ∀ byte ∈ rest, identifierByte byte = true) (hafter : Bounded after) :
    Consumes identifier (first :: rest) after name := by
  intro before
  rw [identifier_between hrest hafter, ← hname]
  have hread := consumes_fromUtf8 name "invalid identifier" after
    (before ++ utf8 name)
  rw [List.append_nil] at hread
  exact hread

theorem consumes_propertyName (h : KeyText name text) (hafter : Bounded after) :
    Consumes propertyName text after name := by
  cases h with
  | quoted hname htext =>
    have hstring : Consumes string text after name := consumes_string htext
    obtain ⟨body, -, rfl⟩ := htext
    refine (consumes_peek _).then ?_
    exact hstring
  | @identifier first rest hname hfirst hrest =>
    have hquote : first ≠ '"'.toUInt8 := by
      intro he
      rw [he] at hfirst
      cases hfirst
    refine (consumes_peek _).then ?_
    show Consumes (if first = '"'.toUInt8 then _ else if identifierStart first = true then _ else _) _
      _ _
    rw [if_neg hquote, if_pos hfirst]
    exact consumes_identifier hname hrest hafter

/-! ## Integers -/

theorem identifierByte_of_digit {d : Nat} (h : digit radix byte = some d) :
    identifierByte byte = true := by
  obtain ⟨hvalue, -⟩ := Option.filter_eq_some_iff.mp h
  unfold identifierByte identifierStart isAsciiAlphabetic isAsciiDigit
  by_cases hdigit : '0'.toUInt8 ≤ byte ∧ byte ≤ '9'.toUInt8
  · simp [hdigit]
  · rw [if_neg hdigit] at hvalue
    have hz : 'f'.toUInt8 ≤ 'z'.toUInt8 := by decide
    have hZ : 'F'.toUInt8 ≤ 'Z'.toUInt8 := by decide
    by_cases hlower : 'a'.toUInt8 ≤ byte ∧ byte ≤ 'f'.toUInt8
    · have hall := And.intro hlower.1 (UInt8.le_trans hlower.2 hz)
      simp [hall]
    · rw [if_neg hlower] at hvalue
      by_cases hupper : 'A'.toUInt8 ≤ byte ∧ byte ≤ 'F'.toUInt8
      · have hall := And.intro hupper.1 (UInt8.le_trans hupper.2 hZ)
        simp [hall]
      · rw [if_neg hupper] at hvalue
        cases hvalue

theorem Bounded.no_digit (h : Bounded after) :
    ∀ byte, after.head? = some byte → (digit radix byte).isSome = false := by
  intro byte hbyte
  cases hd : digit radix byte with
  | none => rfl
  | some d =>
    have hfalse := h byte hbyte
    rw [identifierByte_of_digit hd] at hfalse
    cases hfalse

theorem integer_between (before : List UInt8) {mark : List UInt8}
    (hradix : Consumes integerRadix mark (text ++ after) radix)
    (htext : ∀ byte ∈ text, (digit radix byte).isSome = true)
    (hafter : ∀ byte, after.head? = some byte → (digit radix byte).isSome = false) :
    integer (between before (mark ++ text ++ after)) =
      integerOf radix before.length (before ++ mark).length (before ++ mark ++ text).length
        (between (before ++ mark ++ text) after) := by
  have hwhile := consumes_advanceWhile htext hafter (before ++ mark)
  unfold integer
  rw [List.append_assoc mark,
    Op.bind_ok (show position _ = (.ok before.length, _) from rfl), Op.bind_ok (hradix before),
    Op.bind_ok (show position _ = (.ok (before ++ mark).length, _) from rfl), Op.bind_ok hwhile,
    Op.bind_ok (show position _ = (.ok (before ++ mark ++ text).length, _) from rfl)]

theorem ascii_of_digit {d : Nat} (h : digit radix byte = some d) : byte.toNat < 128 := by
  obtain ⟨hvalue, -⟩ := Option.filter_eq_some_iff.mp h
  by_cases hdigit : '0'.toUInt8 ≤ byte ∧ byte ≤ '9'.toUInt8
  · exact lt_of_le_of_lt hdigit.2 (by decide : '9'.toUInt8.toNat < 128)
  · rw [if_neg hdigit] at hvalue
    by_cases hlower : 'a'.toUInt8 ≤ byte ∧ byte ≤ 'f'.toUInt8
    · exact lt_of_le_of_lt hlower.2 (by decide : 'f'.toUInt8.toNat < 128)
    · rw [if_neg hlower] at hvalue
      by_cases hupper : 'A'.toUInt8 ≤ byte ∧ byte ≤ 'F'.toUInt8
      · exact lt_of_le_of_lt hupper.2 (by decide : 'F'.toUInt8.toNat < 128)
      · rw [if_neg hupper] at hvalue
        cases hvalue

/-- A text of ASCII bytes is one of UTF-8. -/
theorem exists_utf8 (h : ∀ byte ∈ text, byte.toNat < 128) : ∃ value, utf8 value = text := by
  refine ⟨String.ofList (text.map fun byte => Char.ofNat byte.toNat), ?_⟩
  rw [utf8_eq, String.toList_ofList]
  induction text with
  | nil => rfl
  | cons byte text ih =>
    have hbyte := h byte List.mem_cons_self
    have hencode : String.utf8EncodeChar (Char.ofNat byte.toNat) = [byte] := by
      have hcode : (Char.ofNat byte.toNat).val.toNat = byte.toNat :=
        (Char.toNat_ofNat _).trans (if_pos (.inl (lt_trans hbyte (by decide))))
      unfold String.utf8EncodeChar
      simp only [hcode]
      rw [if_pos (by omega), UInt8.ofNat_toNat]
    rw [List.map_cons, List.flatMap_cons, hencode,
      ih fun byte hbyte => h byte (List.mem_cons_of_mem _ hbyte)]
    rfl

/-- What the digits of an integer are read as. -/
theorem integerOf_numeral (before mark after : List UInt8) (hmark : 0 < (mark ++ text).length)
    (h : numeral radix text = some n) :
    integerOf radix before.length (before ++ mark).length (before ++ mark ++ text).length
        (between (before ++ mark ++ text) after) =
      if n < 2 ^ 31 then (.ok (.integer n), between (before ++ mark ++ text) after)
      else error "integer out of range" (between (before ++ mark ++ text) after) := by
  have hne : text ≠ [] := by
    rintro rfl
    cases h
  have hdigits : digits radix 0 text = some n := by
    unfold numeral at h
    rw [if_neg hne] at h
    exact h
  obtain ⟨value, hvalue⟩ := exists_utf8 fun byte hbyte => by
    obtain ⟨d, hd⟩ := digit_of_digits hdigits hbyte
    exact ascii_of_digit hd
  have hlength : (before ++ mark ++ text).length ≠ (before ++ mark).length := by
    have hpos := List.length_pos_of_ne_nil hne
    have hall : (before ++ mark ++ text).length = (before ++ mark).length + text.length :=
      List.length_append
    omega
  have hstart : (before ++ mark ++ text).length ≠ before.length := by
    rw [List.append_assoc, List.length_append]
    omega
  have hread := consumes_fromUtf8 value "invalid integer" after
    (before ++ mark ++ text)
  rw [List.append_nil, List.nil_append, hvalue] at hread
  unfold integerOf
  rw [if_neg fun hzero => hlength hzero.2, if_neg hlength,
    Op.bind_ok (slice_between (before ++ mark) text after), Op.bind_ok hread, hvalue,
    i32FromStrRadix_numeral h]
  by_cases hrange : n < 2 ^ 31
  · rw [if_pos hrange, if_pos hrange]
    dsimp only
    rw [if_neg hstart]
    rfl
  · rw [if_neg hrange, if_neg hrange]

theorem radix_decimal (hzero : rest.head? ≠ some '0'.toUInt8) :
    Consumes integerRadix [] rest 10 := by
  have hmark : ∀ letter : UInt8, rest.take 2 ≠ ['0'.toUInt8, letter] := by
    intro letter h
    apply hzero
    cases rest with
    | nil => cases h
    | cons first rest =>
      rw [List.head?_cons, (List.cons.inj h).1]
  have hlower : Consumes (startsWith (ascii "0x")) [] ([] ++ rest) false := by
    rw [← decide_eq_false (hmark 'x'.toUInt8)]
    exact consumes_startsWith (ascii "0x") rest
  have hupper : Consumes (startsWith (ascii "0X")) [] ([] ++ rest) false := by
    rw [← decide_eq_false (hmark 'X'.toUInt8)]
    exact consumes_startsWith (ascii "0X") rest
  have hpeek : Consumes peek [] ([] ++ rest) rest.head? := consumes_peek _
  refine hlower.then (hupper.then ?_)
  rw [if_neg (by simp)]
  refine hpeek.then ?_
  rw [if_neg hzero]
  exact consumes_pure 10

theorem radix_octal (hhead : ∀ byte, rest.head? = some byte → byte ≠ 'x'.toUInt8 ∧ byte ≠ 'X'.toUInt8) :
    Consumes integerRadix ['0'.toUInt8] rest 8 := by
  have hmark : ∀ letter : UInt8, letter = 'x'.toUInt8 ∨ letter = 'X'.toUInt8 →
      ('0'.toUInt8 :: rest).take 2 ≠ ['0'.toUInt8, letter] := by
    intro letter hletter h
    cases rest with
    | nil => cases h
    | cons first rest =>
      obtain ⟨hx, hX⟩ := hhead first rfl
      have hfirst := (List.cons.inj (List.cons.inj h).2).1
      rcases hletter with rfl | rfl
      · exact hx hfirst
      · exact hX hfirst
  have hlower : Consumes (startsWith (ascii "0x")) [] ('0'.toUInt8 :: rest) false := by
    rw [← decide_eq_false (hmark 'x'.toUInt8 (.inl rfl))]
    exact consumes_startsWith (ascii "0x") ('0'.toUInt8 :: rest)
  have hupper : Consumes (startsWith (ascii "0X")) [] ('0'.toUInt8 :: rest) false := by
    rw [← decide_eq_false (hmark 'X'.toUInt8 (.inr rfl))]
    exact consumes_startsWith (ascii "0X") ('0'.toUInt8 :: rest)
  have hpeek : Consumes peek [] ('0'.toUInt8 :: rest) (some '0'.toUInt8) := consumes_peek _
  have hadvance : Consumes (advance 1) ['0'.toUInt8] rest () := consumes_advance ['0'.toUInt8]
  have hnone : Consumes integerRadix ([] ++ ['0'.toUInt8]) rest 8 ↔
      Consumes integerRadix ['0'.toUInt8] rest 8 := Iff.rfl
  refine hnone.mp (Consumes.bind hlower (Consumes.then hupper ?_))
  rw [if_neg (by simp)]
  refine Consumes.then hpeek ?_
  rw [if_pos rfl]
  exact hadvance.map (f := fun _ => 8)

theorem radix_hexadecimal {mark : List UInt8} (rest : List UInt8) (hmark : mark = ascii "0x" ∨ mark = ascii "0X") :
    Consumes integerRadix mark rest 16 := by
  have hlower : Consumes (startsWith (ascii "0x")) [] (mark ++ rest) (decide (mark = ascii "0x")) := by
    have hread := consumes_startsWith (ascii "0x") (mark ++ rest)
    rcases hmark with rfl | rfl
    · exact hread
    · exact hread
  have hupper : Consumes (startsWith (ascii "0X")) [] (mark ++ rest) (decide (mark = ascii "0X")) := by
    have hread := consumes_startsWith (ascii "0X") (mark ++ rest)
    rcases hmark with rfl | rfl
    · exact hread
    · exact hread
  have hadvance : Consumes (advance 2) mark rest () := by
    have hread : Consumes (advance mark.length) mark rest () := consumes_advance mark
    rcases hmark with rfl | rfl
    · exact hread
    · exact hread
  refine hlower.then (hupper.then ?_)
  rw [if_pos (by simpa using hmark)]
  exact hadvance.map (f := fun _ => 16)

theorem all_digits (h : digits radix value text = some n) :
    ∀ byte ∈ text, (digit radix byte).isSome = true := by
  intro byte hbyte
  obtain ⟨d, hd⟩ := digit_of_digits h hbyte
  rw [hd]
  rfl

theorem digits_of_numeral (h : numeral radix text = some n) : digits radix 0 text = some n := by
  unfold numeral at h
  by_cases hnil : text = []
  · rw [if_pos hnil] at h
    cases h
  · rw [if_neg hnil] at h
    exact h

theorem head_append_of_ne_nil (hne : text ≠ []) : (text ++ after).head? = text.head? := by
  cases text with
  | nil => exact absurd rfl hne
  | cons byte text => rfl

/-- Every text of an integer is read, and is its value, unless that is out of range. -/
theorem integer_text (h : IntegerText n text) (hafter : Bounded after) (before : List UInt8) :
    integer (between before (text ++ after)) =
      if n < 2 ^ 31 then (.ok (.integer n), between (before ++ text) after)
      else error "integer out of range" (between (before ++ text) after) := by
  cases h with
  | decimal hvalue hzero =>
    have hne : text ≠ [] := by
      rintro rfl
      cases hvalue
    have hhead : (text ++ after).head? ≠ some '0'.toUInt8 := by rwa [head_append_of_ne_nil hne]
    have hread := integer_between before (radix_decimal hhead) (all_digits (digits_of_numeral hvalue))
      hafter.no_digit
    have hof := integerOf_numeral before [] after
      (List.length_pos_of_ne_nil hne) hvalue
    rw [List.append_nil] at hread hof
    exact hread.trans hof
  | @octal text hvalue =>
    have hall := all_digits hvalue
    have hhead : ∀ byte, (text ++ after).head? = some byte →
        byte ≠ 'x'.toUInt8 ∧ byte ≠ 'X'.toUInt8 := by
      intro byte hbyte
      cases text with
      | nil =>
        have hbound := hafter byte hbyte
        constructor
        · rintro rfl; cases hbound
        · rintro rfl; cases hbound
      | cons first text =>
        have hfirst := hall first List.mem_cons_self
        rw [Option.some.inj hbyte] at hfirst
        constructor
        · rintro rfl; cases hfirst
        · rintro rfl; cases hfirst
    have hread := integer_between before (radix_octal hhead) hall hafter.no_digit
    have hsplit : before ++ ['0'.toUInt8] ++ text = before ++ '0'.toUInt8 :: text := by simp
    by_cases hnil : text = []
    · subst hnil
      cases hvalue
      rw [List.append_nil, List.append_nil] at hread
      refine hread.trans ?_
      unfold integerOf
      rw [if_pos ⟨rfl, rfl⟩]
      rfl
    · have hnumeral : numeral 8 text = some n := (if_neg hnil).trans hvalue
      have hof := integerOf_numeral before ['0'.toUInt8] after
        (by simp) hnumeral
      rw [hsplit] at hread hof
      exact hread.trans hof
  | @hexadecimal text mark hmark hvalue =>
    have hne : text ≠ [] := by
      rintro rfl
      cases hvalue
    have hread := integer_between before
      (radix_hexadecimal (text ++ after) hmark) (all_digits (digits_of_numeral hvalue))
      hafter.no_digit
    have hof := integerOf_numeral before mark after
      (by have := List.length_pos_of_ne_nil hne; simp; omega) hvalue
    rw [List.append_assoc before] at hread hof
    exact hread.trans hof

end Configuration
end Riscbox
