import Riscbox.Configuration.Spellings

/-!
# Texts that end too early

Whatever the parser reads leaves the nesting of the text as it was, so a text that ends
inside a comment, a string, an array or an object has no value.  No call panics.
-/

namespace Riscbox
namespace Configuration

open Numerals Parser

variable {α β : Type} {text text' after rest tail body bytes brackets : List UInt8}
  {byte bracket : UInt8} {fuel radix n : Nat} {v : Value} {message : String}
  {values : List Value} {bindings : List (String × Value)}

/-! ## The nesting after a part of a text -/

def Nesting.over (nesting : Nesting) (text : List UInt8) : Nesting := text.foldl Nesting.step nesting

@[simp] theorem Nesting.over_nil (nesting : Nesting) : nesting.over [] = nesting := rfl

@[simp] theorem Nesting.over_cons (nesting : Nesting) (byte : UInt8) (text : List UInt8) :
    nesting.over (byte :: text) = (nesting.step byte).over text := rfl

@[simp] theorem Nesting.over_append (nesting : Nesting) (text text' : List UInt8) :
    nesting.over (text ++ text') = (nesting.over text).over text' := List.foldl_append

/-- A byte that changes nothing outside of strings and comments. -/
def Neutral (byte : UInt8) : Prop :=
  byte ≠ '"'.toUInt8 ∧ byte ≠ '/'.toUInt8 ∧ byte ≠ '['.toUInt8 ∧ byte ≠ '\x7b'.toUInt8 ∧
    byte ≠ ']'.toUInt8 ∧ byte ≠ '\x7d'.toUInt8

theorem Neutral.step (h : Neutral byte) : Nesting.step ⟨.code, brackets⟩ byte = ⟨.code, brackets⟩ := by
  obtain ⟨hquote, hslash, hbracket, hbrace, hclose, hend⟩ := h
  show Nesting.code brackets byte = _
  unfold Nesting.code
  rw [if_neg hquote, if_neg hslash, if_neg (not_or.mpr ⟨hbracket, hbrace⟩), if_neg hclose,
    if_neg hend]

/-- The text leaves the nesting as it was, or it is the last and ends in a line of a
comment. -/
def Settled (text after : List UInt8) : Prop := ∀ brackets,
  Nesting.over ⟨.code, brackets⟩ text = ⟨.code, brackets⟩ ∨
    (after = [] ∧ Nesting.over ⟨.code, brackets⟩ text = ⟨.line, brackets⟩)

/-- The text ends the bracket that is open. -/
def Closes (bracket : UInt8) (text : List UInt8) : Prop := ∀ brackets,
  Nesting.over ⟨.code, bracket :: brackets⟩ text = ⟨.code, brackets⟩

/-- A part of a string. -/
def Quoted (text : List UInt8) : Prop := ∀ brackets,
  Nesting.over ⟨.string, brackets⟩ text = ⟨.string, brackets⟩

theorem settled_nil : Settled [] after := fun _ => .inl rfl

theorem Settled.append (h : Settled text (text' ++ after)) (h' : Settled text' after) :
    Settled (text ++ text') after := by
  intro brackets
  rw [Nesting.over_append]
  rcases h brackets with hcode | ⟨hnil, hline⟩
  · rw [hcode]
    exact h' brackets
  · obtain ⟨rfl, rfl⟩ := List.append_eq_nil_iff.mp hnil
    exact .inr ⟨rfl, hline⟩

theorem Quoted.append (h : Quoted text) (h' : Quoted text') : Quoted (text ++ text') := by
  intro brackets
  rw [Nesting.over_append, h, h']

/-! ## More rules -/

namespace Parser

variable {x : Parse α} {f : α → Parse β} {a : α} {post : β → List UInt8 → List UInt8 → Prop}

end Parser

/-! ## Comments -/

/-- What the loop of a gap has read. -/
def Skipped (text after : List UInt8) : Prop :=
  Settled text after ∧ ∀ byte, after.head? = some byte → isAsciiWhitespace byte = false

/-- A line of a comment, up to what is skipped after it. -/
theorem Skipped.line (h : Skipped text after) (hbody : ∀ byte ∈ body, byte ≠ '\n'.toUInt8)
    (hend : ∀ byte, (text ++ after).head? = some byte → byte = '\n'.toUInt8) :
    Settled (ascii "//" ++ body ++ text) after := by
  intro brackets
  have hopen : Nesting.over ⟨.code, brackets⟩ (ascii "//" ++ body) = ⟨.line, brackets⟩ := by
    show Nesting.over ⟨.line, brackets⟩ body = _
    induction body with
    | nil => rfl
    | cons byte body ih =>
      rw [Nesting.over_cons]
      have hstep : Nesting.step ⟨.line, brackets⟩ byte = ⟨.line, brackets⟩ :=
        if_neg (hbody byte List.mem_cons_self)
      rw [hstep]
      exact ih fun byte hbyte => hbody byte (List.mem_cons_of_mem _ hbyte)
  rw [Nesting.over_append, hopen]
  cases text with
  | nil =>
    cases after with
    | nil => exact .inr ⟨rfl, rfl⟩
    | cons byte after =>
      have hbyte := h.2 byte rfl
      rw [hend byte rfl] at hbyte
      cases hbyte
  | cons byte text =>
    have hbyte := hend byte rfl
    subst hbyte
    exact h.1 brackets

/-- A letter of an escape, and what follows it. -/
def Escaped (text : List UInt8) : Prop := ∀ brackets,
  Nesting.over ⟨.escape, brackets⟩ text = ⟨.string, brackets⟩

theorem Quoted.escaped (h : Quoted text) : Escaped (byte :: text) := h

/-- What a token is. -/
def Token (text : List UInt8) : Prop :=
  text ≠ [] ∧ ∀ brackets, Nesting.over ⟨.code, brackets⟩ text = ⟨.code, brackets⟩

theorem Token.settled (h : Token text) : Settled text after := fun brackets => .inl (h.2 brackets)

end Configuration
end Riscbox
