import Riscbox.Configuration.Parser

/-!
# The syntax of configuration files

The texts of every token and of every value, as bytes.
-/

namespace Riscbox
namespace Configuration

open Numerals
open Parser (identifierByte)

/-- What may stand between two tokens. -/
inductive Gap : List UInt8 → Prop where
  | nil : Gap []
  | space {byte : UInt8} {gap : List UInt8} (hbyte : isAsciiWhitespace byte = true)
      (hgap : Gap gap) : Gap (byte :: gap)
  | line {body gap : List UInt8} (hbody : '\n'.toUInt8 ∉ body) (hgap : Gap gap) :
      Gap (ascii "//" ++ body ++ '\n'.toUInt8 :: gap)
  | block {body gap : List UInt8} (hbody : ¬ascii "*/" <:+: body) (hgap : Gap gap) :
      Gap (ascii "/*" ++ body ++ ascii "*/" ++ gap)

/-- What may stand after the last token, where the text may end a line. -/
inductive Trailing : List UInt8 → Prop where
  | gap {gap : List UInt8} (hgap : Gap gap) : Trailing gap
  | line {gap body : List UInt8} (hgap : Gap gap) (hbody : '\n'.toUInt8 ∉ body) :
      Trailing (gap ++ (ascii "//" ++ body))

inductive IntegerText : Nat → List UInt8 → Prop where
  | decimal {n : Nat} {text : List UInt8} (hvalue : numeral 10 text = some n)
      (hzero : text.head? ≠ some '0'.toUInt8) : IntegerText n text
  | octal {n : Nat} {text : List UInt8} (hvalue : digits 8 0 text = some n) :
      IntegerText n ('0'.toUInt8 :: text)
  | hexadecimal {n : Nat} {text mark : List UInt8} (hmark : mark = ascii "0x" ∨ mark = ascii "0X")
      (hvalue : numeral 16 text = some n) : IntegerText n (mark ++ text)

/-- Four hexadecimal digits. -/
def Quad (n : Nat) (text : List UInt8) : Prop := text.length = 4 ∧ digits 16 0 text = some n

/-- The characters that have an escape of their own, and its letter. -/
def namedEscapes : List (Char × Char) :=
  [('\'', '\''), ('"', '"'), ('\\', '\\'), ('/', '/'), ('\x08', 'b'), ('\x0c', 'f'), ('\n', 'n'),
    ('\r', 'r'), ('\t', 't')]

inductive CharacterText : Char → List UInt8 → Prop where
  | raw {c : Char} (hquote : c ≠ '"') (hbackslash : c ≠ '\\') (hline : c ≠ '\n')
      (hreturn : c ≠ '\r') : CharacterText c (String.utf8EncodeChar c)
  | named {c letter : Char} (hmem : (c, letter) ∈ namedEscapes) :
      CharacterText c ['\\'.toUInt8, letter.toUInt8]
  | unicode {c : Char} {text : List UInt8} (hquad : Quad c.toNat text) :
      CharacterText c (ascii "\\u" ++ text)
  | surrogates {c : Char} {high low : Nat} {first second : List UInt8} (hfirst : Quad high first)
      (hsecond : Quad low second) (hhigh : 0xd800 ≤ high ∧ high ≤ 0xdbff)
      (hlow : 0xdc00 ≤ low ∧ low ≤ 0xdfff)
      (hvalue : c.toNat = 0x10000 + (high - 0xd800) * 0x400 + (low - 0xdc00)) :
      CharacterText c (ascii "\\u" ++ first ++ ascii "\\u" ++ second)

inductive CharactersText : List Char → List UInt8 → Prop where
  | nil : CharactersText [] []
  | cons {c : Char} {cs : List Char} {text rest : List UInt8} (hfirst : CharacterText c text)
      (hrest : CharactersText cs rest) : CharactersText (c :: cs) (text ++ rest)

def StringText (value : String) (text : List UInt8) : Prop :=
  ∃ body, CharactersText value.toList body ∧ text = '"'.toUInt8 :: (body ++ ['"'.toUInt8])

inductive KeyText : String → List UInt8 → Prop where
  | quoted {name : String} {text : List UInt8} (hname : name ≠ "") (htext : StringText name text) :
      KeyText name text
  | identifier {name : String} {first : UInt8} {rest : List UInt8}
      (hname : utf8 name = first :: rest) (hfirst : identifierStart first = true)
      (hrest : ∀ byte ∈ rest, identifierByte byte = true) : KeyText name (first :: rest)

mutual

inductive ValueText : Value → List UInt8 → Prop where
  | null : ValueText .null (ascii "null")
  | true : ValueText (.bool true) (ascii "true")
  | false : ValueText (.bool false) (ascii "false")
  | integer {n : Nat} {text : List UInt8} (htext : IntegerText n text) (hrange : n < 2 ^ 31) :
      ValueText (.integer n) text
  | string {value : String} {text : List UInt8} (htext : StringText value text) :
      ValueText (.string value) text
  | array {values : List Value} {text : List UInt8} (htext : ElementsText values text) :
      ValueText (.array values) ('['.toUInt8 :: text)
  | object {members values : List (String × Value)} {text : List UInt8}
      (htext : MembersText members text) (hvalues : Bindings.LastOf members values) :
      ValueText (.object values) ('\x7b'.toUInt8 :: text)

/-- The elements of an array, and the bracket after them. -/
inductive ElementsText : List Value → List UInt8 → Prop where
  | close {gap : List UInt8} (hgap : Gap gap) : ElementsText [] (gap ++ [']'.toUInt8])
  | last {value : Value} {gap text gap' : List UInt8} (hgap : Gap gap)
      (hvalue : ValueText value text) (hgap' : Gap gap') :
      ElementsText [value] (gap ++ (text ++ (gap' ++ [']'.toUInt8])))
  | cons {value : Value} {values : List Value} {gap text gap' rest : List UInt8} (hgap : Gap gap)
      (hvalue : ValueText value text) (hgap' : Gap gap') (hrest : ElementsText values rest) :
      ElementsText (value :: values) (gap ++ (text ++ (gap' ++ ','.toUInt8 :: rest)))

/-- The members of an object, and the brace after them. -/
inductive MembersText : List (String × Value) → List UInt8 → Prop where
  | close {gap : List UInt8} (hgap : Gap gap) : MembersText [] (gap ++ ['\x7d'.toUInt8])
  | last {name : String} {value : Value} {member gap : List UInt8}
      (hmember : MemberText name value member) (hgap : Gap gap) :
      MembersText [(name, value)] (member ++ (gap ++ ['\x7d'.toUInt8]))
  | cons {name : String} {value : Value} {members : List (String × Value)}
      {member gap rest : List UInt8} (hmember : MemberText name value member) (hgap : Gap gap)
      (hrest : MembersText members rest) :
      MembersText ((name, value) :: members) (member ++ (gap ++ ','.toUInt8 :: rest))

/-- A key and its value, up to the end of the value. -/
inductive MemberText : String → Value → List UInt8 → Prop where
  | mk {name : String} {value : Value} {gap key gap' gap'' text : List UInt8} (hgap : Gap gap)
      (hkey : KeyText name key) (hgap' : Gap gap') (hgap'' : Gap gap'')
      (hvalue : ValueText value text) :
      MemberText name value (gap ++ (key ++ (gap' ++ ':'.toUInt8 :: (gap'' ++ text))))

end

/-- A whole text. -/
def DocumentText (value : Value) (text : List UInt8) : Prop :=
  ∃ gap body trailing, Gap gap ∧ ValueText value body ∧ Trailing trailing ∧
    text = gap ++ (body ++ trailing)

/-! ## Nesting -/

/-- What the end of a text is in. -/
inductive Mode where
  | code
  | slash
  | line
  | block
  | star
  | string
  | escape
  deriving DecidableEq, Repr

/-- The mode, and the brackets that are open. -/
structure Nesting where
  mode : Mode
  brackets : List UInt8
  deriving DecidableEq, Repr

namespace Nesting

/-- The bracket that a closing one ends. -/
def close (bracket : UInt8) (brackets : List UInt8) : List UInt8 :=
  if brackets.head? = some bracket then brackets.tail else brackets

/-- A byte outside of strings and comments. -/
def code (brackets : List UInt8) (byte : UInt8) : Nesting :=
  if byte = '"'.toUInt8 then ⟨.string, brackets⟩
  else if byte = '/'.toUInt8 then ⟨.slash, brackets⟩
  else if byte = '['.toUInt8 ∨ byte = '\x7b'.toUInt8 then ⟨.code, byte :: brackets⟩
  else if byte = ']'.toUInt8 then ⟨.code, close '['.toUInt8 brackets⟩
  else if byte = '\x7d'.toUInt8 then ⟨.code, close '\x7b'.toUInt8 brackets⟩
  else ⟨.code, brackets⟩

def step (nesting : Nesting) (byte : UInt8) : Nesting :=
  match nesting.mode with
  | .code => code nesting.brackets byte
  | .slash =>
    if byte = '/'.toUInt8 then { nesting with mode := .line }
    else if byte = '*'.toUInt8 then { nesting with mode := .block }
    else code nesting.brackets byte
  | .line => if byte = '\n'.toUInt8 then { nesting with mode := .code } else nesting
  | .block => if byte = '*'.toUInt8 then { nesting with mode := .star } else nesting
  | .star =>
    if byte = '/'.toUInt8 then { nesting with mode := .code }
    else if byte = '*'.toUInt8 then nesting
    else { nesting with mode := .block }
  | .string =>
    if byte = '"'.toUInt8 then { nesting with mode := .code }
    else if byte = '\\'.toUInt8 then { nesting with mode := .escape }
    else nesting
  | .escape => { nesting with mode := .string }

def after (text : List UInt8) : Nesting := text.foldl step ⟨.code, []⟩

end Nesting

end Configuration
end Riscbox
