import Riscbox.Configuration.Parser

/-!
# The calls of the parser

A parser stands between what it has read and what it has not.  `Consumes` says what a
call reads and what it makes of it, `Safe` that it does not panic and, where it has a
value, what it has read.
-/

namespace Riscbox
namespace Configuration

open Numerals

theorem fromUTF8_utf8 (text : String) : String.fromUTF8? ⟨(utf8 text).toArray⟩ = some text := by
  unfold utf8 String.fromUTF8?
  have hvalid : ByteArray.IsValidUTF8 ⟨text.toUTF8.data.toList.toArray⟩ := text.isValidUTF8
  rw [dif_pos hvalid]
  rfl

theorem utf8_of_fromUTF8 {bytes : List UInt8} {text : String}
    (h : String.fromUTF8? ⟨bytes.toArray⟩ = some text) : utf8 text = bytes := by
  unfold String.fromUTF8? at h
  by_cases hvalid : ByteArray.IsValidUTF8 ⟨bytes.toArray⟩
  · rw [dif_pos hvalid] at h
    rw [← Option.some.inj h]
    rfl
  · rw [dif_neg hvalid] at h
    cases h

namespace Parser

variable {α β : Type}

/-- The parser that has read `before`. -/
def between (before rest : List UInt8) : Parser := ⟨before ++ rest, before.length⟩

/-- The call reads the text in front of `after`, as a value. -/
def Consumes (x : Parse α) (text after : List UInt8) (a : α) : Prop := ∀ before,
  x (between before (text ++ after)) = (.ok a, between (before ++ text) after)

/-- The call does not panic on what is left, and `post` holds of its value, of the text
that it has read and of what is left after that. -/
def Safe (x : Parse α) (rest : List UInt8) (post : α → List UInt8 → List UInt8 → Prop) : Prop :=
  ∀ before, match x (between before rest) with
    | (.ok a, p) => ∃ text after, rest = text ++ after ∧ p = between (before ++ text) after ∧
        post a text after
    | (.err _, _) => True
    | (.panic, _) => False

variable {x : Parse α} {f : α → Parse β} {a : α} {b : β} {before text text' after rest : List UInt8}
  {byte : UInt8} {post post' : α → List UInt8 → List UInt8 → Prop}
  {post₂ : β → List UInt8 → List UInt8 → Prop} {message : String} {property : UInt8 → Bool}

/-! ## Rules -/

theorem Consumes.bind (hx : Consumes x text (text' ++ after) a) (hf : Consumes (f a) text' after b) :
    Consumes (x >>= f) (text ++ text') after b := by
  intro before
  rw [List.append_assoc, Op.bind_ok (hx before), hf, List.append_assoc]

/-- A call that reads nothing. -/
theorem Consumes.then (hx : Consumes x [] (text ++ after) a) (hf : Consumes (f a) text after b) :
    Consumes (x >>= f) text after b :=
  hx.bind hf

/-- A call that reads one byte. -/
theorem Consumes.cons (hx : Consumes x [byte] (text ++ after) a) (hf : Consumes (f a) text after b) :
    Consumes (x >>= f) (byte :: text) after b :=
  hx.bind hf

/-- A call after which nothing is read. -/
theorem Consumes.last (hx : Consumes x text after a) (hf : Consumes (f a) [] after b) :
    Consumes (x >>= f) text after b := by
  have hall : Consumes (x >>= f) (text ++ []) after b := Consumes.bind hx hf
  rw [List.append_nil] at hall
  exact hall

theorem Consumes.map {f : α → β} (hx : Consumes x text after a) :
    Consumes (do return f (← x)) text after (f a) := by
  intro before
  exact Op.bind_ok (hx before)

theorem consumes_pure (a : α) : Consumes (pure a) [] after a := by
  intro before
  rw [List.append_nil]
  rfl

theorem Safe.bind (hx : Safe x rest post)
    (hf : ∀ a text after, rest = text ++ after → post a text after →
      Safe (f a) after fun b text' after' => post₂ b (text ++ text') after') :
    Safe (x >>= f) rest post₂ := by
  intro before
  have hfirst := hx before
  rw [Op.bind_apply]
  cases hcall : x (between before rest) with
  | mk result p =>
    rw [hcall] at hfirst
    cases result with
    | err e => trivial
    | panic => exact hfirst
    | ok a =>
      obtain ⟨text, after, hrest, rfl, hpost⟩ := hfirst
      have hsecond := hf a text after hrest hpost (before ++ text)
      show match f a (between (before ++ text) after) with
        | (.ok a, p) => ∃ text after, rest = text ++ after ∧ p = between (before ++ text) after ∧
            post₂ a text after
        | (.err _, _) => True
        | (.panic, _) => False
      cases hcall' : f a (between (before ++ text) after) with
      | mk result p =>
        rw [hcall'] at hsecond
        cases result with
        | err e => trivial
        | panic => exact hsecond
        | ok b =>
          obtain ⟨text', after', rfl, rfl, hpost'⟩ := hsecond
          exact ⟨text ++ text', after', by rw [hrest, List.append_assoc],
            by rw [List.append_assoc], hpost'⟩

theorem Safe.mono (hx : Safe x rest post)
    (hpost : ∀ a text after, rest = text ++ after → post a text after → post' a text after) :
    Safe x rest post' := by
  intro before
  have hfirst := hx before
  cases hcall : x (between before rest) with
  | mk result p =>
    rw [hcall] at hfirst
    cases result with
    | err e => trivial
    | panic => exact hfirst
    | ok a =>
      obtain ⟨text, after, hrest, hp, ha⟩ := hfirst
      exact ⟨text, after, hrest, hp, hpost a text after hrest ha⟩

theorem Consumes.safe (hx : Consumes x text after a) (h : post a text after) :
    Safe x (text ++ after) post := by
  intro before
  rw [hx before]
  exact ⟨text, after, rfl, rfl, h⟩

theorem consumes_peek (rest : List UInt8) : Consumes peek [] rest rest.head? := by
  intro before
  show (Outcome.ok (before ++ rest)[before.length]?, between before rest) = _
  rw [List.getElem?_append_right (le_refl _), Nat.sub_self, List.append_nil,
    List.head?_eq_getElem?]

theorem consumes_advance (text : List UInt8) : Consumes (advance text.length) text after () := by
  intro before
  simp [advance, between]

theorem consumes_take (byte : UInt8) : Consumes take [byte] after (some byte) := by
  have hpeek : Consumes peek [] ([byte] ++ after) (some byte) := consumes_peek (byte :: after)
  have hadvance : Consumes (advance 1) [byte] after () := consumes_advance [byte]
  exact hpeek.then (hadvance.map (f := fun _ => some byte))

theorem consumes_take_nil : Consumes take [] [] none :=
  (consumes_peek []).then (consumes_pure _)

theorem safe_take (rest : List UInt8) : Safe take rest fun byte text after =>
    (byte = none ∧ text = [] ∧ after = []) ∨ ∃ first, byte = some first ∧ text = [first] := by
  cases rest with
  | nil => exact consumes_take_nil.safe (.inl ⟨rfl, rfl, rfl⟩)
  | cons first rest => exact (consumes_take first).safe (.inr ⟨first, rfl, rfl⟩)

theorem consumes_startsWith (text rest : List UInt8) :
    Consumes (startsWith text) [] rest (decide (rest.take text.length = text)) := by
  intro before
  simp [startsWith, between]

theorem consumes_advanceWhile (htext : ∀ byte ∈ text, property byte = true)
    (hafter : ∀ byte, after.head? = some byte → property byte = false) :
    Consumes (advanceWhile property) text after () := by
  intro before
  have hwhile : (text ++ after).takeWhile property = text := by
    rw [List.takeWhile_append_of_pos htext]
    cases after with
    | nil => simp
    | cons byte after => simp [hafter byte rfl]
  unfold advanceWhile
  rw [between, List.drop_left, hwhile]
  exact consumes_advance text before

theorem slice_between (before text after : List UInt8) :
    slice before.length (before ++ text).length (between (before ++ text) after) =
      (.ok text, between (before ++ text) after) := by
  unfold slice
  rw [if_pos (by simp [between])]
  simp [between]

theorem consumes_remaining (rest : List UInt8) : Consumes remaining [] rest rest := by
  intro before
  unfold remaining slice
  rw [if_pos (by simp [between])]
  simp [between]

theorem consumes_fromUtf8 (text message : String) (after : List UInt8) :
    Consumes (fromUtf8 (utf8 text) message) [] after text := by
  intro before
  unfold fromUtf8
  rw [fromUTF8_utf8]
  exact consumes_pure text before

theorem identifier_between (htext : ∀ byte ∈ text, identifierByte byte = true)
    (hafter : ∀ byte, after.head? = some byte → identifierByte byte = false) :
    identifier (between before (byte :: text ++ after)) =
      fromUtf8 (byte :: text) "invalid identifier" (between (before ++ byte :: text) after) := by
  have hadvance : advance 1 (between before (byte :: text ++ after)) =
      (.ok (), between (before ++ [byte]) (text ++ after)) := consumes_advance [byte] before
  have hwhile := consumes_advanceWhile htext hafter (before ++ [byte])
  have hsplit : before ++ [byte] ++ text = before ++ byte :: text := by simp
  rw [hsplit] at hwhile
  unfold identifier
  rw [Op.bind_ok (show position _ = (.ok before.length, _) from rfl), Op.bind_ok hadvance,
    Op.bind_ok hwhile,
    Op.bind_ok (show position _ = (.ok (before ++ byte :: text).length, _) from rfl),
    Op.bind_ok (slice_between before (byte :: text) after)]

end Parser
end Configuration
end Riscbox
