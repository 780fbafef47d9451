import LoginRegistry.Json.Number

/-! # Skipping a value

    A member that no record knows is checked for its JSON structure only: its
    strings need not be valid Unicode, its numbers may have any size, and it may
    be nested to any depth.  The brackets that are still open are kept in a list,
    so the depth costs no recursion.
-/

namespace LoginRegistry.Json

open Ascii

/-- A bracket that is open. -/
inductive Bracket where
  | array
  | object
  deriving DecidableEq, Repr

/-- What is due next in the text. -/
inductive Due where
  /-- A value. -/
  | value
  /-- The first element or member after an opening bracket, or the closing one. -/
  | first
  /-- A comma or a closing bracket after a value. -/
  | next
  deriving DecidableEq, Repr

/-- The byte that closes a bracket. -/
def Bracket.closing : Bracket → UInt8
  | .array => closeBracket
  | .object => closeBrace

/-- The text after a member name and its colon. -/
def skipName (text : Bytes) : Except Error Bytes :=
  match skipSpace text with
  | [] => .error .endOfText
  | quote :: text => do
    let text ← skipString text
    match skipSpace text with
    | [] => .error .endOfText
    | colon :: text => return text
    | _ => .error .malformed
  | _ => .error .malformed

/-- The text where the next value of the innermost bracket starts. -/
def skipToValue : Bracket → Bytes → Except Error Bytes
  | .array, text => .ok text
  | .object, text => skipName text

/-- Skips from what is due to the end of the outermost value.  Two steps a byte
    suffice as fuel: a step that reads nothing comes right after an opening bracket. -/
def skipFrom : Nat → Due → List Bracket → Bytes → Except Error Bytes
  | 0, _, _, _ => .error .malformed
  | fuel + 1, .value, brackets, text =>
    match skipSpace text with
    | [] => .error .endOfText
    | openBracket :: text => skipFrom fuel .first (.array :: brackets) text
    | openBrace :: text => skipFrom fuel .first (.object :: brackets) text
    | quote :: text => do
      let text ← skipString text
      skipFrom fuel .next brackets text
    | minus :: text => do
      let text ← skipNumber text
      skipFrom fuel .next brackets text
    | b :: text =>
      if isDigit b then do
        let text ← skipNumber (b :: text)
        skipFrom fuel .next brackets text
      else if b = byte 'n' then do
        let text ← expectWord [byte 'u', byte 'l', byte 'l'] text
        skipFrom fuel .next brackets text
      else if b = byte 't' then do
        let text ← expectWord [byte 'r', byte 'u', byte 'e'] text
        skipFrom fuel .next brackets text
      else if b = byte 'f' then do
        let text ← expectWord [byte 'a', byte 'l', byte 's', byte 'e'] text
        skipFrom fuel .next brackets text
      else .error .malformed
  -- Without an open bracket the value is complete.
  | _ + 1, .first, [], text => .ok text
  | fuel + 1, .first, bracket :: brackets, text =>
    match skipSpace text with
    | [] => .error .endOfText
    | b :: rest =>
      if b = bracket.closing then skipFrom fuel .next brackets rest
      else do
        let text ← skipToValue bracket text
        skipFrom fuel .value (bracket :: brackets) text
  | _ + 1, .next, [], text => .ok text
  | fuel + 1, .next, bracket :: brackets, text =>
    match skipSpace text with
    | [] => .error .endOfText
    | b :: rest =>
      if b = bracket.closing then skipFrom fuel .next brackets rest
      else if b = comma then do
        let text ← skipToValue bracket rest
        skipFrom fuel .value (bracket :: brackets) text
      else .error .malformed

/-- A digit is no other byte of the syntax. -/
theorem ne_of_isDigit {b c : UInt8} (hb : isDigit b = true) (hc : isDigit c = false) : b ≠ c := by
  rintro rfl
  rw [hb] at hc
  cases hc

section step

variable {fuel : Nat} {bracket : Bracket} {brackets : List Bracket} {text rest : Bytes}

theorem skipFrom_first {b : UInt8} (htext : skipSpace text = b :: rest)
    (hb : b ≠ bracket.closing) :
    skipFrom (fuel + 1) .first (bracket :: brackets) text
      = (skipToValue bracket text >>= skipFrom fuel .value (bracket :: brackets)) := by
  rw [skipFrom, htext]
  simp only [if_neg hb]

theorem skipFrom_comma (htext : skipSpace text = comma :: rest) :
    skipFrom (fuel + 1) .next (bracket :: brackets) text
      = (skipToValue bracket rest >>= skipFrom fuel .value (bracket :: brackets)) := by
  have hclose : comma ≠ bracket.closing := by cases bracket <;> decide
  rw [skipFrom, htext]
  simp only [if_neg hclose, if_true]

theorem skipFrom_digit {b : UInt8} (htext : skipSpace text = b :: rest) (hb : isDigit b = true) :
    skipFrom (fuel + 1) .value brackets text
      = (skipNumber (b :: rest) >>= skipFrom fuel .next brackets) := by
  rw [skipFrom, htext]
  -- A digit opens neither a string nor a bracket nor a literal.
  split
  · next heq => cases heq
  · next heq => exact absurd (List.cons.inj heq).1 (ne_of_isDigit hb (by decide))
  · next heq => exact absurd (List.cons.inj heq).1 (ne_of_isDigit hb (by decide))
  · next heq => exact absurd (List.cons.inj heq).1 (ne_of_isDigit hb (by decide))
  · next heq => exact absurd (List.cons.inj heq).1 (ne_of_isDigit hb (by decide))
  · next heq =>
    obtain ⟨rfl, rfl⟩ := List.cons.inj heq
    rw [if_pos hb]

end step

/-- The text after the value that comes next. -/
def skipValue (text : Bytes) : Except Error Bytes :=
  skipFrom (2 * text.length + 2) .value [] text

end LoginRegistry.Json
