import Riscbox.Configuration.Tokens

/-!
# The values that the parser reads

Every text of a value is read, and as that value.
-/

namespace Riscbox
namespace Configuration

open Parser

variable {gap gap' text text' after rest body key trailing : List UInt8} {byte close : UInt8}
  {fuel n : Nat} {name message : String} {v : Value} {values : List Value}
  {members seen bindings : List (String × Value)}

/-! ## Where the tokens start and end -/

theorem solid_gap_head (hgap : Gap gap) :
    gap = [] ∨ ∃ byte, (∀ rest, (gap ++ rest).head? = some byte) ∧ identifierByte byte = false := by
  cases hgap with
  | nil => exact .inl rfl
  | @space byte gap hbyte hgap =>
    refine .inr ⟨byte, fun rest => rfl, ?_⟩
    cases hid : identifierByte byte with
    | false => rfl
    | true =>
      unfold isAsciiWhitespace at hbyte
      rcases of_decide_eq_true hbyte with rfl | rfl | rfl | rfl | rfl <;> cases hid
  | line hbody hgap => exact .inr ⟨'/'.toUInt8, fun rest => rfl, rfl⟩
  | block hbody hgap => exact .inr ⟨'/'.toUInt8, fun rest => rfl, rfl⟩

theorem bounded_gap (hgap : Gap gap) (hrest : Bounded rest) : Bounded (gap ++ rest) := by
  rcases solid_gap_head hgap with rfl | ⟨first, hfirst, hid⟩
  · exact hrest
  · intro byte hbyte
    rw [← Option.some.inj ((hfirst rest).symm.trans hbyte)]
    exact hid

theorem bounded_cons (h : identifierByte byte = false) : Bounded (byte :: rest) := by
  intro first hfirst
  rw [← Option.some.inj hfirst]
  exact h

theorem bounded_trailing (h : Trailing trailing) : Bounded trailing := by
  cases h with
  | gap hgap =>
    rw [← List.append_nil trailing]
    exact bounded_gap hgap fun byte hbyte => by cases hbyte
  | line hgap hbody => exact bounded_gap hgap (bounded_cons rfl)

/-- A byte that a value or a key may start with. -/
def Opening (byte : UInt8) : Prop :=
  isAsciiWhitespace byte = false ∧ byte ≠ '/'.toUInt8 ∧ byte ≠ ']'.toUInt8 ∧ byte ≠ '\x7d'.toUInt8

theorem opening_of_identifierByte (h : identifierByte byte = true) : Opening byte := by
  refine ⟨?_, ?_, ?_, ?_⟩
  · cases hspace : isAsciiWhitespace byte with
    | false => rfl
    | true =>
      unfold isAsciiWhitespace at hspace
      rcases of_decide_eq_true hspace with rfl | rfl | rfl | rfl | rfl <;> cases h
  · rintro rfl; cases h
  · rintro rfl; cases h
  · rintro rfl; cases h

theorem opening_quote : Opening '"'.toUInt8 := ⟨by decide, by decide, by decide, by decide⟩

theorem Opening.solid (h : Opening byte) : Solid (byte :: rest) := solid_of_head h.1 h.2.1 rest

theorem isAsciiDigit_of_integer (h : IntegerText n text) :
    ∃ byte rest, text = byte :: rest ∧ isAsciiDigit byte = true := by
  cases h with
  | @decimal text hvalue hzero =>
    cases text with
    | nil => cases hvalue
    | cons byte rest =>
      refine ⟨byte, rest, rfl, ?_⟩
      obtain ⟨d, hd⟩ := Numerals.digit_of_digits (digits_of_numeral hvalue) List.mem_cons_self
      cases hdigit : isAsciiDigit byte with
      | true => rfl
      | false =>
        exfalso
        have hno := of_decide_eq_false hdigit
        obtain ⟨hsome, hlt⟩ := Option.filter_eq_some_iff.mp hd
        have hsmall := of_decide_eq_true hlt
        rw [if_neg hno] at hsome
        by_cases hlower : 'a'.toUInt8 ≤ byte ∧ byte ≤ 'f'.toUInt8
        · rw [if_pos hlower] at hsome
          have := Option.some.inj hsome
          omega
        · rw [if_neg hlower] at hsome
          by_cases hupper : 'A'.toUInt8 ≤ byte ∧ byte ≤ 'F'.toUInt8
          · rw [if_pos hupper] at hsome
            have := Option.some.inj hsome
            omega
          · rw [if_neg hupper] at hsome
            cases hsome
  | octal hvalue => exact ⟨_, _, rfl, rfl⟩
  | hexadecimal hmark hvalue =>
    rcases hmark with rfl | rfl
    · exact ⟨_, _, rfl, rfl⟩
    · exact ⟨_, _, rfl, rfl⟩

theorem ValueText.opening (h : ValueText v text) :
    ∃ byte rest, text = byte :: rest ∧ Opening byte := by
  cases h with
  | null => exact ⟨_, _, rfl, opening_of_identifierByte rfl⟩
  | true => exact ⟨_, _, rfl, opening_of_identifierByte rfl⟩
  | false => exact ⟨_, _, rfl, opening_of_identifierByte rfl⟩
  | integer htext hrange =>
    obtain ⟨byte, rest, rfl, hdigit⟩ := isAsciiDigit_of_integer htext
    refine ⟨byte, rest, rfl, opening_of_identifierByte ?_⟩
    rw [identifierByte, hdigit, Bool.or_true]
  | string htext =>
    obtain ⟨body, -, rfl⟩ := htext
    exact ⟨_, _, rfl, opening_quote⟩
  | array htext => exact ⟨_, _, rfl, by decide, by decide, by decide, by decide⟩
  | object htext hvalues => exact ⟨_, _, rfl, by decide, by decide, by decide, by decide⟩

theorem KeyText.opening (h : KeyText name key) :
    ∃ byte rest, key = byte :: rest ∧ Opening byte := by
  cases h with
  | quoted hname htext =>
    obtain ⟨body, -, rfl⟩ := htext
    exact ⟨_, _, rfl, opening_quote⟩
  | @identifier first rest hname hfirst hrest =>
    refine ⟨first, rest, rfl, opening_of_identifierByte ?_⟩
    rw [identifierByte, hfirst, Bool.true_or]

theorem KeyText.name_ne (h : KeyText name key) : name ≠ "" := by
  cases h with
  | quoted hname htext => exact hname
  | identifier hname hfirst hrest =>
    rintro rfl
    cases hname

/-! ## What stands between the values -/

theorem consumes_separator_comma (hgap : Gap gap) :
    Consumes (separator close message) (gap ++ [','.toUInt8]) after () := by
  have hpeek : Consumes peek [] ([','.toUInt8] ++ after) (some ','.toUInt8) := consumes_peek _
  have hadvance : Consumes (advance 1) [','.toUInt8] after () := consumes_advance [','.toUInt8]
  refine (skip_gap hgap (solid_of_head (by decide) (by decide) after)).bind (hpeek.then ?_)
  rw [if_pos rfl]
  exact hadvance

theorem consumes_separator_close (hgap : Gap gap) (hclose : Solid (close :: after))
    (hcomma : close ≠ ','.toUInt8) :
    Consumes (separator close message) gap (close :: after) () := by
  have hpeek : Consumes peek [] ([] ++ close :: after) (some close) := consumes_peek _
  rw [← List.append_nil gap]
  refine (skip_gap hgap hclose).bind (hpeek.then ?_)
  rw [if_neg fun h => hcomma (Option.some.inj h), if_pos rfl]
  exact consumes_pure ()

theorem consumes_propertyKey (after : List UInt8) (hkey : KeyText name key) (hgap : Gap gap) :
    Consumes propertyKey (key ++ (gap ++ [':'.toUInt8])) after name := by
  have hbounded : Bounded (gap ++ [':'.toUInt8] ++ after) := by
    rw [List.append_assoc]
    exact bounded_gap hgap (bounded_cons rfl)
  refine (consumes_propertyName hkey hbounded).bind ?_
  rw [if_neg hkey.name_ne]
  refine (skip_gap hgap (solid_of_head (by decide) (by decide) after)).bind ?_
  refine (consumes_take ':'.toUInt8).last ?_
  rw [if_neg (by simp)]
  exact consumes_pure name

theorem consumes_word {first : UInt8} {rest : List UInt8} (hname : utf8 name = first :: rest)
    (hrest : ∀ byte ∈ rest, identifierByte byte = true) (hafter : Bounded after)
    (hword : (if name = "null" then pure Value.null else if name = "true" then pure (.bool true)
      else if name = "false" then pure (.bool false)
      else error "unknown identifier" : Parse Value) = pure v) :
    Consumes word (first :: rest) after v := by
  rw [← List.append_nil (first :: rest)]
  refine (consumes_identifier hname hrest hafter).bind ?_
  rw [hword]
  exact consumes_pure v

/-! ## Values -/

/-- The branch that the first byte of a value selects. -/
theorem value_head (hgap : Gap gap) (hopening : Opening byte)
    (hbranch : Consumes (if byte = '\x7b'.toUInt8 then object fuel
      else if byte = '['.toUInt8 then array fuel
      else if byte = '"'.toUInt8 then do return .string (← string)
      else if isAsciiDigit byte = true then integer
      else if identifierStart byte = true then word
      else error "unexpected character") (byte :: text) after v) :
    Consumes (value (fuel + 1)) (gap ++ byte :: text) after v := by
  have hpeek : Consumes peek [] (byte :: text ++ after) (some byte) := consumes_peek _
  exact (skip_gap hgap hopening.solid).bind (hpeek.then hbranch)

theorem value_word (ident : String) (first : UInt8) (text : List UInt8) (hgap : Gap gap)
    (hname : utf8 ident = first :: text) (hfirst : identifierStart first = true)
    (hrest : text.all identifierByte = true) (hafter : Bounded after)
    (hword : (if ident = "null" then pure Value.null else if ident = "true" then pure (.bool true)
      else if ident = "false" then pure (.bool false)
      else error "unknown identifier" : Parse Value) = pure v)
    (hother : first ≠ '\x7b'.toUInt8 ∧ first ≠ '['.toUInt8 ∧ first ≠ '"'.toUInt8 ∧
      isAsciiDigit first = false) :
    Consumes (value (fuel + 1)) (gap ++ first :: text) after v := by
  obtain ⟨hbrace, hbracket, hquote, hdigit⟩ := hother
  refine value_head hgap (opening_of_identifierByte (by rw [identifierByte, hfirst, Bool.true_or])) ?_
  rw [if_neg hbrace, if_neg hbracket, if_neg hquote, if_neg (by simp [hdigit]), if_pos hfirst]
  exact consumes_word hname (List.all_eq_true.mp hrest) hafter hword

theorem value_integer (hgap : Gap gap) (htext : IntegerText n text) (hrange : n < 2 ^ 31)
    (hafter : Bounded after) : Consumes (value (fuel + 1)) (gap ++ text) after (.integer n) := by
  have hread : Consumes integer text after (.integer n) := by
    intro before
    rw [integer_text htext hafter, if_pos hrange]
  obtain ⟨byte, rest, rfl, hdigit⟩ := isAsciiDigit_of_integer htext
  refine value_head hgap (opening_of_identifierByte (by rw [identifierByte, hdigit, Bool.or_true])) ?_
  have hne : ∀ mark, isAsciiDigit mark = false → byte ≠ mark := by
    rintro mark hmark rfl
    rw [hdigit] at hmark
    cases hmark
  rw [if_neg (hne _ rfl), if_neg (hne _ rfl), if_neg (hne _ rfl), if_pos hdigit]
  exact hread

theorem value_string {value₀ : String} (hgap : Gap gap) (htext : StringText value₀ text) :
    Consumes (value (fuel + 1)) (gap ++ text) after (.string value₀) := by
  have hread : Consumes string text after value₀ := consumes_string htext
  obtain ⟨body, -, rfl⟩ := htext
  refine value_head hgap opening_quote ?_
  rw [if_neg (by decide), if_neg (by decide), if_pos rfl]
  exact hread.map

theorem arrayLoop_close (fuel : Nat) (values : List Value) (hgap : Gap gap) :
    Consumes (arrayLoop (fuel + 1) values) (gap ++ [']'.toUInt8]) after (.array values) := by
  have hpeek : Consumes peek [] ([']'.toUInt8] ++ after) (some ']'.toUInt8) := consumes_peek _
  refine (skip_gap hgap (solid_of_head (by decide) (by decide) after)).bind (hpeek.then ?_)
  rw [if_pos rfl]
  exact (consumes_take _).map (f := fun _ => Value.array values)

theorem arrayLoop_item {w : Value} (fuel : Nat) (values : List Value) (hgap : Gap gap) (htext : ValueText v text)
    (hvalue : Consumes (value fuel) text (gap' ++ (rest ++ after)) v)
    (hseparator : Consumes (separator ']'.toUInt8 "expected ',' or ']'") gap' (rest ++ after) ())
    (hrest : Consumes (arrayLoop fuel (values ++ [v])) rest after w) :
    Consumes (arrayLoop (fuel + 1) values) (gap ++ (text ++ (gap' ++ rest))) after w := by
  obtain ⟨byte, tail, rfl, hopening⟩ := htext.opening
  have hpeek : Consumes peek [] (byte :: tail ++ (gap' ++ rest) ++ after) (some byte) :=
    consumes_peek _
  refine (skip_gap hgap hopening.solid).bind (hpeek.then ?_)
  rw [if_neg fun h => hopening.2.2.1 (Option.some.inj h)]
  rw [← List.append_assoc] at hvalue
  exact hvalue.bind (hseparator.bind hrest)

theorem objectLoop_close (fuel : Nat) (bindings : List (String × Value)) (hgap : Gap gap) :
    Consumes (objectLoop (fuel + 1) bindings) (gap ++ ['\x7d'.toUInt8]) after (.object bindings) := by
  have hpeek : Consumes peek [] (['\x7d'.toUInt8] ++ after) (some '\x7d'.toUInt8) :=
    consumes_peek _
  refine (skip_gap hgap (solid_of_head (by decide) (by decide) after)).bind (hpeek.then ?_)
  rw [if_pos rfl]
  exact (consumes_take _).map (f := fun _ => Value.object bindings)

theorem objectLoop_item {w : Value} (fuel : Nat) (bindings : List (String × Value))
    (hgap : Gap gap) (hkey : KeyText name key) (hgap' : Gap gap')
    (hvalue : Consumes (value fuel) text (body ++ (rest ++ after)) v)
    (hseparator : Consumes (separator '\x7d'.toUInt8 "expected ',' or '\x7d'") body (rest ++ after) ())
    (hrest : Consumes (objectLoop fuel (Bindings.insert name v bindings)) rest after w) :
    Consumes (objectLoop (fuel + 1) bindings)
      (gap ++ (key ++ (gap' ++ [':'.toUInt8]) ++ (text ++ (body ++ rest)))) after w := by
  have hname := consumes_propertyKey (text ++ (body ++ rest) ++ after) hkey hgap'
  obtain ⟨byte, tail, rfl, hopening⟩ := hkey.opening
  have hpeek : Consumes peek []
      (byte :: tail ++ (gap' ++ [':'.toUInt8]) ++ (text ++ (body ++ rest)) ++ after) (some byte) :=
    consumes_peek _
  refine (skip_gap hgap hopening.solid).bind (hpeek.then ?_)
  rw [if_neg fun h => hopening.2.2.2 (Option.some.inj h)]
  rw [← List.append_assoc] at hvalue
  exact hname.bind (hvalue.bind (hseparator.bind hrest))

/-- What is read with some fuel. -/
structure ReadsWithin (fuel : Nat) : Prop where
  value : ∀ {v text gap} (after : List UInt8), ValueText v text → Gap gap → Bounded after →
    3 * (gap ++ text).length + 1 ≤ fuel → Consumes (Parser.value fuel) (gap ++ text) after v
  elements : ∀ {values text} (after : List UInt8), ElementsText values text → ∀ seen,
    3 * text.length + 2 ≤ fuel →
      Consumes (arrayLoop fuel seen) text after (.array (seen ++ values))
  members : ∀ {members seen bindings text} (after : List UInt8), MembersText members text →
    Bindings.LastOf seen bindings → 3 * text.length + 2 ≤ fuel →
      ∃ values, Bindings.LastOf (seen ++ members) values ∧
        Consumes (objectLoop fuel bindings) text after (.object values)

theorem value_text (ih : ∀ k, k < fuel → ReadsWithin k) (after : List UInt8)
    (h : ValueText v text) (hgap : Gap gap) (hafter : Bounded after)
    (hfuel : 3 * (gap ++ text).length + 1 ≤ fuel) : Consumes (value fuel) (gap ++ text) after v := by
  cases fuel with
  | zero => exact absurd hfuel (by omega)
  | succ fuel =>
    cases h with
    | null => exact value_word "null" 'n'.toUInt8 ['u'.toUInt8, 'l'.toUInt8, 'l'.toUInt8] hgap rfl rfl rfl hafter (by simp) (by decide)
    | true => exact value_word "true" 't'.toUInt8 ['r'.toUInt8, 'u'.toUInt8, 'e'.toUInt8] hgap rfl rfl rfl hafter (by simp) (by decide)
    | false =>
      exact value_word "false" 'f'.toUInt8 ['a'.toUInt8, 'l'.toUInt8, 's'.toUInt8, 'e'.toUInt8] hgap rfl rfl rfl hafter (by simp) (by decide)
    | integer htext hrange => exact value_integer hgap htext hrange hafter
    | string htext => exact value_string hgap htext
    | @array values text htext =>
      refine value_head hgap ⟨by decide, by decide, by decide, by decide⟩ ?_
      rw [if_neg (by decide), if_pos rfl]
      cases fuel with
      | zero => simp at hfuel
      | succ fuel =>
        have hlength : 3 * text.length + 2 ≤ fuel := by
          simp at hfuel
          omega
        exact (consumes_take '['.toUInt8).bind ((ih fuel (by omega)).elements after htext [] hlength)
    | @object members values text htext hvalues =>
      refine value_head hgap ⟨by decide, by decide, by decide, by decide⟩ ?_
      rw [if_pos rfl]
      cases fuel with
      | zero => simp at hfuel
      | succ fuel =>
        have hlength : 3 * text.length + 2 ≤ fuel := by
          simp at hfuel
          omega
        obtain ⟨bindings, hbindings, hread⟩ := 
          (ih fuel (by omega)).members after htext Bindings.lastOf_nil hlength
        rw [hvalues.unique hbindings]
        exact (consumes_take '\x7b'.toUInt8).bind hread

theorem elements_text (ih : ∀ k, k < fuel → ReadsWithin k) (after : List UInt8)
    (h : ElementsText values text) (seen : List Value)
    (hfuel : 3 * text.length + 2 ≤ fuel) :
    Consumes (arrayLoop fuel seen) text after (.array (seen ++ values)) := by
  cases fuel with
  | zero => exact absurd hfuel (by omega)
  | succ fuel =>
    cases h with
    | close hgap =>
      rw [List.append_nil]
      exact arrayLoop_close fuel seen hgap
    | @last v gap text gap' hgap hvalue hgap' =>
      have hlength : 3 * ([] ++ text).length + 1 ≤ fuel := by
        simp at hfuel
        simp
        omega
      have hbounded : Bounded (gap' ++ (']'.toUInt8 :: after)) :=
        bounded_gap hgap' (bounded_cons (by decide))
      have hread : Consumes (value fuel) text (gap' ++ ([']'.toUInt8] ++ after)) v :=
        (ih fuel (by omega)).value _ hvalue .nil hbounded hlength
      have hseparator : Consumes (separator ']'.toUInt8 "expected ',' or ']'") gap'
          ([']'.toUInt8] ++ after) () :=
        consumes_separator_close hgap' (solid_of_head (by decide) (by decide) after) (by decide)
      cases fuel with
      | zero => omega
      | succ fuel =>
        have hclose : Consumes (arrayLoop (fuel + 1) (seen ++ [v])) [']'.toUInt8] after
            (.array (seen ++ [v])) := by
          have hnil : Consumes _ ([] ++ [']'.toUInt8]) after _ :=
            arrayLoop_close fuel (seen ++ [v]) Gap.nil
          exact hnil
        exact arrayLoop_item (fuel + 1) seen hgap hvalue hread hseparator hclose
    | @cons v values gap text gap' rest hgap hvalue hgap' hrest =>
      have hlength : 3 * ([] ++ text).length + 1 ≤ fuel := by
        simp at hfuel
        simp
        omega
      have hlength' : 3 * rest.length + 2 ≤ fuel := by
        simp at hfuel
        omega
      have hbounded : Bounded (gap' ++ [','.toUInt8] ++ (rest ++ after)) := by
        rw [List.append_assoc]
        exact bounded_gap hgap' (bounded_cons (by decide))
      have hread : Consumes (value fuel) text (gap' ++ [','.toUInt8] ++ (rest ++ after)) v :=
        (ih fuel (by omega)).value _ hvalue .nil hbounded hlength
      have htail := (ih fuel (by omega)).elements after hrest (seen ++ [v]) hlength'
      rw [List.append_assoc] at htail
      have hitem := arrayLoop_item fuel seen hgap hvalue hread (consumes_separator_comma hgap') htail
      rw [List.append_assoc gap'] at hitem
      exact hitem

theorem members_text (ih : ∀ k, k < fuel → ReadsWithin k) (after : List UInt8)
    (h : MembersText members text)
    (hseen : Bindings.LastOf seen bindings) (hfuel : 3 * text.length + 2 ≤ fuel) :
    ∃ values, Bindings.LastOf (seen ++ members) values ∧
      Consumes (objectLoop fuel bindings) text after (.object values) := by
  cases fuel with
  | zero => exact absurd hfuel (by omega)
  | succ fuel =>
    cases h with
    | close hgap =>
      refine ⟨bindings, ?_, objectLoop_close fuel bindings hgap⟩
      rw [List.append_nil]
      exact hseen
    | @last name v member gap hmember hgap =>
      cases hmember with
      | @mk _ _ gap₁ key gap₂ gap₃ text hgap₁ hkey hgap₂ hgap₃ hvalue =>
        have hlength : 3 * (gap₃ ++ text).length + 1 ≤ fuel := by
          simp at hfuel
          simp
          omega
        have hbounded : Bounded (gap ++ ('\x7d'.toUInt8 :: after)) :=
          bounded_gap hgap (bounded_cons (by decide))
        have hread : Consumes (value fuel) (gap₃ ++ text) (gap ++ (['\x7d'.toUInt8] ++ after)) v :=
          (ih fuel (by omega)).value _ hvalue hgap₃ hbounded hlength
        have hseparator : Consumes (separator '\x7d'.toUInt8 "expected ',' or '\x7d'") gap
            (['\x7d'.toUInt8] ++ after) () :=
          consumes_separator_close hgap (solid_of_head (by decide) (by decide) after) (by decide)
        refine ⟨_, hseen.insert name v, ?_⟩
        cases fuel with
        | zero => omega
        | succ fuel =>
          have hclose : Consumes (objectLoop (fuel + 1) (Bindings.insert name v bindings))
              ['\x7d'.toUInt8] after (.object (Bindings.insert name v bindings)) := by
            have hnil : Consumes _ ([] ++ ['\x7d'.toUInt8]) after _ :=
              objectLoop_close fuel (Bindings.insert name v bindings) Gap.nil
            exact hnil
          have hitem := objectLoop_item (fuel + 1) bindings hgap₁ hkey hgap₂ hread hseparator hclose
          simp only [List.append_assoc, List.cons_append, List.nil_append] at hitem ⊢
          exact hitem
    | @cons name v members member gap rest hmember hgap hrest =>
      cases hmember with
      | @mk _ _ gap₁ key gap₂ gap₃ text hgap₁ hkey hgap₂ hgap₃ hvalue =>
        have hlength : 3 * (gap₃ ++ text).length + 1 ≤ fuel := by
          simp at hfuel
          simp
          omega
        have hlength' : 3 * rest.length + 2 ≤ fuel := by
          simp at hfuel
          omega
        have hbounded : Bounded (gap ++ [','.toUInt8] ++ (rest ++ after)) := by
          rw [List.append_assoc]
          exact bounded_gap hgap (bounded_cons (by decide))
        have hread : Consumes (value fuel) (gap₃ ++ text) (gap ++ [','.toUInt8] ++ (rest ++ after)) v :=
          (ih fuel (by omega)).value _ hvalue hgap₃ hbounded hlength
        obtain ⟨values, hvalues, htail⟩ := 
          (ih fuel (by omega)).members after hrest (hseen.insert name v) hlength'
        rw [List.append_assoc] at hvalues
        refine ⟨values, hvalues, ?_⟩
        have hitem := objectLoop_item fuel bindings hgap₁ hkey hgap₂ hread (consumes_separator_comma hgap) htail
        simp only [List.append_assoc, List.cons_append, List.nil_append] at hitem ⊢
        exact hitem

theorem readsWithin (fuel : Nat) : ReadsWithin fuel := by
  induction fuel using Nat.strong_induction_on with
  | _ fuel ih => exact ⟨value_text ih, elements_text ih, members_text ih⟩

/-- Every text that stands for a value is read as it. -/
theorem parseValue_text {source : String} (h : DocumentText v (utf8 source)) :
    parseValue source = .ok v := by
  obtain ⟨gap, body, trailing, hgap, hbody, htrailing, hsource⟩ := h
  have hlength : 3 * (gap ++ body).length + 1 ≤ 3 * (utf8 source).length + 1 := by
    rw [hsource]
    simp
  have hvalue := (readsWithin (3 * (utf8 source).length + 1)).value trailing hbody hgap
    (bounded_trailing htrailing) hlength
  have hskip : Consumes skipSpaceAndComments trailing [] () := skip_trailing htrailing
  have hpeek : Consumes peek [] [] none := consumes_peek []
  have hdocument : Consumes (do
      let value ← value (3 * (utf8 source).length + 1)
      skipSpaceAndComments
      if (← peek).isSome then error "unexpected characters after value" else return value)
      (gap ++ body ++ trailing) [] v := by
    rw [← List.append_nil trailing] at hvalue
    refine hvalue.bind (hskip.last (hpeek.then ?_))
    rw [if_neg (by simp)]
    exact consumes_pure v
  have hread := hdocument []
  rw [List.append_nil, List.append_assoc, ← hsource] at hread
  exact congrArg Prod.fst hread

end Configuration
end Riscbox
