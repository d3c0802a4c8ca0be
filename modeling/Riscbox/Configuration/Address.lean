import Riscbox.Configuration.Spellings

/-!
# Load addresses

The address settings of a configuration: `optional_address` of `src/config.rs`, and the
way of a setting through `parseConfig`, `resolveConfig` and `JSON.stringify` of
`js/riscbox.js`.
-/

namespace Riscbox
namespace Configuration

open Numerals

inductive AddressSetting where
  | bios
  | kernel
  | initrd
  | fdt
  deriving DecidableEq, Repr

def AddressSetting.name : AddressSetting → String
  | .bios => "bios_address"
  | .kernel => "kernel_address"
  | .initrd => "initrd_address"
  | .fdt => "fdt_address"

structure ConfigError where
  message : String
  deriving DecidableEq, Repr

def ConfigError.ofParseError (error : ParseError) : ConfigError :=
  ⟨error.message ++ " at byte " ++ toString error.offset⟩

def physicalAddress (name : String) : ConfigError := ⟨name ++ " must be a physical address"⟩

def optionalAddress (object : List (String × Value)) (name : String) :
    Outcome ConfigError (Option Nat) :=
  match object.lookup name with
  | none => .ok none
  | some (.integer number) =>
    if 0 ≤ number then .ok (some number.toNat) else .err (physicalAddress name)
  | some (.string source) =>
    let address :=
      if (utf8 source).take 2 = ascii "0x" then u64FromStrRadix ((utf8 source).drop 2) 16
      else u64FromStrRadix (utf8 source) 10
    address.elim (.err (physicalAddress name)) fun address => .ok (some address)
  | some _ => .err (physicalAddress name)

/-- What `VmConfig::parse` makes of a setting, if the other settings are in order. -/
def loadAddress (source : String) (setting : AddressSetting) : Outcome ConfigError (Option Nat) :=
  match parseValue source with
  | .err error => .err (.ofParseError error)
  | .panic => .panic
  | .ok (.object object) => optionalAddress object setting.name
  | .ok _ => .err ⟨"configuration must be an object"⟩

/-! ## JavaScript -/

/-- A setting in JavaScript. -/
inductive JsValue where
  | number (value : Nat)
  | string (value : String)
  deriving DecidableEq, Repr

/-- What `parseConfig` makes of a token.  Its integers are those of the other parser, and
`Number` is exact up to `2 ^ 53`; a string here is one without escapes. -/
inductive JsValue.Reads : List UInt8 → JsValue → Prop where
  | number {n : Nat} {text : List UInt8} (htext : IntegerText n text) (hexact : n ≤ 2 ^ 53) :
      Reads text (.number n)
  | string {value : String} (hplain : ∀ byte ∈ utf8 value, byte ≠ '"'.toUInt8 ∧
      byte ≠ '\\'.toUInt8 ∧ byte ≠ '\n'.toUInt8 ∧ byte ≠ '\r'.toUInt8) :
      Reads ('"'.toUInt8 :: (utf8 value ++ ['"'.toUInt8])) (.string value)

/-- A lower case hexadecimal digit. -/
def hexDigitOf (d : Nat) : UInt8 := if d < 10 then decimalDigit d else UInt8.ofNat (87 + d)

/-- A character in a string that `JSON.stringify` writes. -/
def jsonCharacter (c : Char) : List UInt8 :=
  match namedEscapes.drop 1 |>.find? fun escape => escape.1 = c ∧ c ≠ '/' with
  | some escape => ['\\'.toUInt8, escape.2.toUInt8]
  | none =>
    if c.toNat < 0x20 then
      ascii "\\u00" ++ [hexDigitOf (c.toNat / 16), hexDigitOf (c.toNat % 16)]
    else String.utf8EncodeChar c

/-- `JSON.stringify`. -/
def JsValue.stringify : JsValue → List UInt8
  | .number value => decimal value
  | .string value => '"'.toUInt8 :: (value.toList.flatMap jsonCharacter ++ ['"'.toUInt8])

/-- The address settings that `resolveConfig` returns: those of its source. -/
def resolveConfig (source : AddressSetting → Option JsValue) : AddressSetting → Option JsValue :=
  fun setting => source setting

/-! ## Texts of a setting -/

/-- Members that commas follow. -/
inductive MembersBefore : List (String × Value) → List UInt8 → Prop where
  | nil : MembersBefore [] []
  | cons {name : String} {value : Value} {members : List (String × Value)}
      {member gap rest : List UInt8} (hmember : MemberText name value member) (hgap : Gap gap)
      (hrest : MembersBefore members rest) :
      MembersBefore ((name, value) :: members) (member ++ (gap ++ ','.toUInt8 :: rest))

/-- The members after one, and the brace after them. -/
inductive MembersAfter : List (String × Value) → List UInt8 → Prop where
  | close {gap : List UInt8} (hgap : Gap gap) : MembersAfter [] (gap ++ ['\x7d'.toUInt8])
  | cons {members : List (String × Value)} {gap rest : List UInt8} (hgap : Gap gap)
      (hrest : MembersText members rest) : MembersAfter members (gap ++ ','.toUInt8 :: rest)

/-- The text of a configuration with the setting written as given, and nowhere after
that. -/
structure Written (name : String) (spelling text : List UInt8) : Prop where
  parts : ∃ gap before gap₁ key gap₂ gap₃ after trailing members members',
    text = gap ++ '\x7b'.toUInt8 :: (before ++ (gap₁ ++ (key ++ (gap₂ ++ ':'.toUInt8 ::
      (gap₃ ++ (spelling ++ (after ++ trailing))))))) ∧
    Gap gap ∧ MembersBefore members before ∧ Gap gap₁ ∧ KeyText name key ∧ Gap gap₂ ∧ Gap gap₃ ∧
    MembersAfter members' after ∧ Trailing trailing ∧ members'.lookup name = none

/-- The digits of a number as an address: decimal without leading zeros, or hexadecimal. -/
def AddressText (a : Nat) (digits : List UInt8) : Prop :=
  (numeral 10 digits = some a ∧ digits.head? ≠ some '0'.toUInt8) ∨
    ∃ rest, digits = ascii "0x" ++ rest ∧ numeral 16 rest = some a

def quote (text : List UInt8) : List UInt8 := '"'.toUInt8 :: (text ++ ['"'.toUInt8])

/-- A text that is the number of an address, also with leading zeros. -/
def IsNumber (text : List UInt8) : Prop :=
  ∃ n < 2 ^ 64, numeral 10 text = some n ∨ ∃ rest, text = ascii "0x" ++ rest ∧ numeral 16 rest = some n

/-- The address means the same however it is written, whether a configuration is loaded or
prepared, and no other text is taken for a number. -/
structure Agrees (setting : AddressSetting) (a : Nat) : Prop where
  loaded : ∀ digits spelling source, AddressText a digits → spelling = digits ∨ spelling = quote digits →
    Written setting.name spelling (utf8 source) → loadAddress source setting = .ok (some a)
  prepared : ∀ digits spelling settings value resolved, AddressText a digits →
    spelling = digits ∨ spelling = quote digits → JsValue.Reads spelling value →
    resolveConfig settings setting = some value →
    Written setting.name value.stringify (utf8 resolved) → loadAddress resolved setting = .ok (some a)
  refused : ∀ text source, ¬IsNumber text → Written setting.name (quote text) (utf8 source) →
    ∃ e, loadAddress source setting = .err e

/-- An address inside of the RAM of some accepted size, in MiB. -/
def InRam (a : Nat) : Prop :=
  ∃ size : Nat, 0 < size ∧ size < 2 ^ 31 ∧ 0x80000000 ≤ a ∧ a < 0x80000000 + size * 2 ^ 20

end Configuration
end Riscbox
