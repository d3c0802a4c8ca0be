import Riscbox.Program.Outcome
import Riscbox.Collections.Bindings
import Riscbox.Collections.Numerals

/-!
# The parser of configuration files

`Value`, `Parser` and `parse_value` of `src/config.rs`.  The recursion has fuel that
every call uses up; a call without any panics.
-/

namespace Riscbox
namespace Configuration

/-- An object is the list of its bindings in the order of their keys. -/
inductive Value where
  | null
  | bool (value : Bool)
  | integer (value : Int)
  | string (value : String)
  | array (values : List Value)
  | object (values : List (String × Value))

structure ParseError where
  offset : Nat
  message : String
  deriving DecidableEq, Repr

structure Parser where
  source : List UInt8
  offset : Nat
  deriving DecidableEq, Repr

abbrev Parse (α : Type) : Type := Op Parser ParseError α

def ascii (text : String) : List UInt8 := text.toList.map Char.toUInt8

def utf8 (text : String) : List UInt8 := text.toUTF8.data.toList

def isAsciiWhitespace (byte : UInt8) : Bool :=
  byte = ' '.toUInt8 ∨ byte = '\t'.toUInt8 ∨ byte = '\n'.toUInt8 ∨ byte = 0x0c ∨
    byte = '\r'.toUInt8

def isAsciiDigit (byte : UInt8) : Bool := '0'.toUInt8 ≤ byte ∧ byte ≤ '9'.toUInt8

def isAsciiAlphabetic (byte : UInt8) : Bool :=
  ('a'.toUInt8 ≤ byte ∧ byte ≤ 'z'.toUInt8) ∨ ('A'.toUInt8 ≤ byte ∧ byte ≤ 'Z'.toUInt8)

def identifierStart (byte : UInt8) : Bool :=
  isAsciiAlphabetic byte ∨ byte = '_'.toUInt8 ∨ byte = '$'.toUInt8

/-- `char::from_u32`. -/
def charFromU32 (scalar : Nat) : Option Char :=
  if scalar.isValidChar then some (Char.ofNat scalar) else none

namespace Parser

variable {α : Type}

def new (source : String) : Parser where
  source := utf8 source
  offset := 0

def error (message : String) : Parse α := fun p => (.err ⟨p.offset, message⟩, p)

def peek : Parse (Option UInt8) := fun p => (.ok p.source[p.offset]?, p)

def advance (count : Nat) : Parse Unit := fun p => (.ok (), { p with offset := p.offset + count })

def take : Parse (Option UInt8) := do
  match ← peek with
  | none => return none
  | some byte => do
    advance 1
    return some byte

/-- `self.source.get(self.offset..self.offset + n) == Some(text)`, for a text of `n` bytes. -/
def startsWith (text : List UInt8) : Parse Bool := fun p =>
  (.ok (decide ((p.source.drop p.offset).take text.length = text)), p)

/-- The loop that goes on while a byte has the property. -/
def advanceWhile (property : UInt8 → Bool) : Parse Unit := fun p =>
  advance ((p.source.drop p.offset).takeWhile property).length p

def position : Parse Nat := fun p => (.ok p.offset, p)

/-- `self.source[start..end]`, which panics beyond the source. -/
def slice (start stop : Nat) : Parse (List UInt8) := fun p =>
  if start ≤ stop ∧ stop ≤ p.source.length then
    (.ok ((p.source.drop start).take (stop - start)), p)
  else (.panic, p)

def remaining : Parse (List UInt8) := fun p => slice p.offset p.source.length p

/-- `String::from_utf8`. -/
def fromUtf8 (bytes : List UInt8) (message : String) : Parse String :=
  match String.fromUTF8? ⟨bytes.toArray⟩ with
  | some text => pure text
  | none => error message

/-! ## Comments -/

/-- The place of the first end of a comment. -/
def commentEnd : List UInt8 → Option Nat
  | [] => none
  | byte :: rest =>
    if (byte :: rest).take 2 = ascii "*/" then some 0 else (commentEnd rest).map (· + 1)

def skipLoop : Nat → Parse Unit
  | 0 => .abort
  | fuel + 1 => do
    advanceWhile isAsciiWhitespace
    if (← startsWith (ascii "//")) = true then do
      advance 2
      advanceWhile (· ≠ '\n'.toUInt8)
      skipLoop fuel
    else if (← startsWith (ascii "/*")) = true then do
      advance 2
      match commentEnd (← remaining) with
      | none => error "unterminated comment"
      | some stop => do
        advance (stop + 2)
        skipLoop fuel
    else pure ()

def skipSpaceAndComments : Parse Unit := fun p => skipLoop (p.source.length + 1) p

/-! ## Strings -/

def hexDigit : Parse Nat := do
  let start ← take
  match start.bind (Numerals.digit 16) with
  | some d => pure d
  | none => error "invalid hex digit"

def hexQuad : Parse Nat := do
  let a ← hexDigit
  let b ← hexDigit
  let c ← hexDigit
  let d ← hexDigit
  return ((a <<< 4 ||| b) <<< 4 ||| c) <<< 4 ||| d

/-- The low half of a surrogate pair, and the scalar of the pair. -/
def lowSurrogate (high : Nat) : Parse Nat := do
  if (← take) ≠ some '\\'.toUInt8 then error "missing low Unicode surrogate"
  else if (← take) ≠ some 'u'.toUInt8 then error "missing low Unicode surrogate"
  else
    let low ← hexQuad
    if ¬(0xdc00 ≤ low ∧ low ≤ 0xdfff) then error "invalid low Unicode surrogate"
    else return 0x10000 + ((high - 0xd800) <<< 10) + low - 0xdc00

/-- The bytes of the character that a scalar is. -/
def encodeScalar (scalar : Nat) : Parse (List UInt8) :=
  match charFromU32 scalar with
  | some character => pure (String.utf8EncodeChar character)
  | none => error "invalid Unicode escape"

def unicodeEscape : Parse (List UInt8) := do
  let high ← hexQuad
  if 0xd800 ≤ high ∧ high ≤ 0xdbff then do
    let scalar ← lowSurrogate high
    encodeScalar scalar
  else encodeScalar high

/-- The bytes of an escape, after its backslash. -/
def escape : Parse (List UInt8) := do
  let letter ← take
  if letter = some '\''.toUInt8 ∨ letter = some '"'.toUInt8 ∨ letter = some '\\'.toUInt8 then do
    let stop ← position
    slice (stop - 1) stop
  else if letter = some '/'.toUInt8 then return ['/'.toUInt8]
  else if letter = some 'b'.toUInt8 then return [8]
  else if letter = some 'f'.toUInt8 then return [12]
  else if letter = some 'n'.toUInt8 then return ['\n'.toUInt8]
  else if letter = some 'r'.toUInt8 then return ['\r'.toUInt8]
  else if letter = some 't'.toUInt8 then return ['\t'.toUInt8]
  else if letter = some 'u'.toUInt8 then unicodeEscape
  else if letter = some 'x'.toUInt8 then do
    let high ← hexDigit
    let low ← hexDigit
    return [UInt8.ofNat (high <<< 4 ||| low)]
  else error "unknown escape code"

def stringLoop : Nat → List UInt8 → Parse String
  | 0, _ => .abort
  | fuel + 1, bytes => do
    match ← take with
    | none => error "unterminated string"
    | some byte =>
      if byte = '"'.toUInt8 then fromUtf8 bytes "string is not valid UTF-8"
      else if byte = '\n'.toUInt8 ∨ byte = '\r'.toUInt8 then error "unterminated string"
      else if byte = '\\'.toUInt8 then do
        let escaped ← escape
        stringLoop fuel (bytes ++ escaped)
      else stringLoop fuel (bytes ++ [byte])

def string : Parse String := do
  let _ ← take
  let p ← .get
  stringLoop (p.source.length + 1) []

/-! ## Identifiers and integers -/

/-- A byte of an identifier, after the first. -/
def identifierByte (byte : UInt8) : Bool := identifierStart byte || isAsciiDigit byte

def identifier : Parse String := do
  let start ← position
  advance 1
  advanceWhile identifierByte
  let stop ← position
  fromUtf8 (← slice start stop) "invalid identifier"

/-- The radix that the start of an integer selects. -/
def integerRadix : Parse Nat := do
  if (← startsWith (ascii "0x")) = true ∨ (← startsWith (ascii "0X")) = true then do
    advance 2
    return 16
  else if (← peek) = some '0'.toUInt8 then do
    advance 1
    return 8
  else return 10

/-- The integer that the digits between two places are. -/
def integerOf (radix start digits stop : Nat) : Parse Value := do
  if radix = 8 ∧ stop = digits then return .integer 0
  else if stop = digits then error "integer has no digits"
  else
    let text ← fromUtf8 (← slice digits stop) "invalid integer"
    match Numerals.i32FromStrRadix (utf8 text) radix with
    | none => error "integer out of range"
    | some value => if stop = start then error "invalid integer" else return .integer value

def integer : Parse Value := do
  let start ← position
  let radix ← integerRadix
  let digits ← position
  advanceWhile fun byte => (Numerals.digit radix byte).isSome
  let stop ← position
  integerOf radix start digits stop

/-! ## Values -/

def propertyName : Parse String := do
  match ← peek with
  | none => error "invalid property name"
  | some byte =>
    if byte = '"'.toUInt8 then string
    else if identifierStart byte = true then identifier
    else error "invalid property name"

/-- The key of a property, and the colon after it. -/
def propertyKey : Parse String := do
  let name ← propertyName
  if name = "" then error "invalid property name"
  else
    skipSpaceAndComments
    if (← take) ≠ some ':'.toUInt8 then error "expected ':'" else return name

/-- What follows an element: a comma, or the bracket that ends the loop. -/
def separator (close : UInt8) (message : String) : Parse Unit := do
  skipSpaceAndComments
  let next ← peek
  if next = some ','.toUInt8 then advance 1
  else if next = some close then pure ()
  else error message

/-- The value of a word. -/
def word : Parse Value := do
  let ident ← identifier
  if ident = "null" then return .null
  else if ident = "true" then return .bool true
  else if ident = "false" then return .bool false
  else error "unknown identifier"

mutual

def value : Nat → Parse Value
  | 0 => .abort
  | fuel + 1 => do
    skipSpaceAndComments
    match ← peek with
    | none => error "unexpected end of input"
    | some byte =>
      if byte = '\x7b'.toUInt8 then object fuel
      else if byte = '['.toUInt8 then array fuel
      else if byte = '"'.toUInt8 then return .string (← string)
      else if isAsciiDigit byte = true then integer
      else if identifierStart byte = true then word
      else error "unexpected character"

def object : Nat → Parse Value
  | 0 => .abort
  | fuel + 1 => do
    let _ ← take
    objectLoop fuel []

def objectLoop : Nat → List (String × Value) → Parse Value
  | 0, _ => .abort
  | fuel + 1, values => do
    skipSpaceAndComments
    if (← peek) = some '\x7d'.toUInt8 then do
      let _ ← take
      return .object values
    else
      let name ← propertyKey
      let item ← value fuel
      separator '\x7d'.toUInt8 "expected ',' or '\x7d'"
      objectLoop fuel (Bindings.insert name item values)

def array : Nat → Parse Value
  | 0 => .abort
  | fuel + 1 => do
    let _ ← take
    arrayLoop fuel []

def arrayLoop : Nat → List Value → Parse Value
  | 0, _ => .abort
  | fuel + 1, values => do
    skipSpaceAndComments
    if (← peek) = some ']'.toUInt8 then do
      let _ ← take
      return .array values
    else
      let item ← value fuel
      separator ']'.toUInt8 "expected ',' or ']'"
      arrayLoop fuel (values ++ [item])

end

/-- A value, and nothing after it. -/
def document : Parse Value := do
  let p ← .get
  let value ← value (3 * p.source.length + 1)
  skipSpaceAndComments
  if (← peek).isSome then error "unexpected characters after value" else return value

end Parser

def parseValue (source : String) : Outcome ParseError Value := (Parser.document (.new source)).1

end Configuration
end Riscbox
