import LoginRegistry.Json.Error
import LoginRegistry.Text.Ascii

/-! # Blanks, words and strings

    The parts of a JSON text below the level of values.  A string is read in one
    of two ways: `scanString` decodes it, and insists on paired surrogates and
    valid UTF-8; `skipString` only finds its end.
-/

namespace LoginRegistry.Json

open Ascii

/-! ### Blanks and words -/

/-- A blank between tokens. -/
def isSpace (b : UInt8) : Bool := b == 0x20 || b == 0x0a || b == 0x09 || b == 0x0d

/-- The text from its first byte that is not blank. -/
def skipSpace (text : Bytes) : Bytes := text.dropWhile isSpace

/-- The text after the given bytes, which it has to start with. -/
def expectWord : Bytes → Bytes → Except Error Bytes
  | [], text => .ok text
  | _ :: _, [] => .error .endOfText
  | w :: word, b :: text => if b = w then expectWord word text else .error .malformed

/-! ### Escapes -/

/-- The byte written by a backslash and one more byte. -/
def shortEscape? (b : UInt8) : Option UInt8 :=
  if b = quote || b = backslash || b = slash then some b
  else if b = byte 'b' then some 0x08
  else if b = byte 'f' then some 0x0c
  else if b = byte 'n' then some 0x0a
  else if b = byte 'r' then some 0x0d
  else if b = byte 't' then some 0x09
  else none

/-- The number written by four hexadecimal digits. -/
def hexQuad? (a b c d : UInt8) : Option Nat := do
  let a ← hexValue? a
  let b ← hexValue? b
  let c ← hexValue? c
  let d ← hexValue? d
  return 4096 * a + 256 * b + 16 * c + d

/-- The first half of a surrogate pair. -/
def isHighSurrogate (n : Nat) : Bool := 0xD800 ≤ n && n ≤ 0xDBFF

/-- The second half of a surrogate pair. -/
def isLowSurrogate (n : Nat) : Bool := 0xDC00 ≤ n && n ≤ 0xDFFF

/-- The code point of a surrogate pair. -/
def pairedSurrogates (high low : Nat) : Nat := 0x10000 + 1024 * (high - 0xD800) + (low - 0xDC00)

/-- The UTF-8 bytes of a code point. -/
def codePointBytes (n : Nat) : Bytes := String.utf8EncodeChar (Char.ofNat n)

/-! ### Strings -/

/-- Collects the bytes of a string up to its closing quote, escapes decoded.
    `seen` holds the bytes so far, last one first. -/
def scanString (seen : Bytes) : Bytes → Except Error (Bytes × Bytes)
  | [] => .error .endOfText
  | b :: text =>
    if b = quote then .ok (seen.reverse, text)
    else if b = backslash then
      match text with
      | [] => .error .endOfText
      | e :: text =>
        if e = byte 'u' then
          match text with
          | h₁ :: h₂ :: h₃ :: h₄ :: text =>
            match hexQuad? h₁ h₂ h₃ h₄ with
            | none => .error .malformed
            | some n =>
              if isLowSurrogate n then .error .malformed
              else if isHighSurrogate n then
                -- The other half has to follow at once, as an escape of its own.
                match text with
                | [] => .error .endOfText
                | s :: text =>
                  if s ≠ backslash then .error .malformed
                  else
                    match text with
                    | [] => .error .endOfText
                    | u :: text =>
                      if u ≠ byte 'u' then .error .malformed
                      else
                        match text with
                        | l₁ :: l₂ :: l₃ :: l₄ :: text =>
                          match hexQuad? l₁ l₂ l₃ l₄ with
                          | none => .error .malformed
                          | some m =>
                            if isLowSurrogate m then
                              scanString
                                ((codePointBytes (pairedSurrogates n m)).reverse ++ seen) text
                            else .error .malformed
                        | _ => .error .endOfText
              else scanString ((codePointBytes n).reverse ++ seen) text
          | _ => .error .endOfText
        else
          match shortEscape? e with
          | some c => scanString (c :: seen) text
          | none => .error .malformed
    else if b < 0x20 then .error .malformed
    else scanString (b :: seen) text

theorem scanString_quote (seen text : Bytes) :
    scanString seen (quote :: text) = .ok (seen.reverse, text) := by
  rw [scanString.eq_def]
  rfl

/-- After the first half of a pair an escape by number is the second half or nothing. -/
theorem scanString_high_unit {a b c d a' b' c' d' : UInt8} {n m : Nat}
    (h : hexQuad? a b c d = some n) (hlow : isLowSurrogate n = false)
    (hhigh : isHighSurrogate n = true) (h' : hexQuad? a' b' c' d' = some m) (seen text : Bytes) :
    scanString seen (backslash :: byte 'u' :: a :: b :: c :: d
        :: backslash :: byte 'u' :: a' :: b' :: c' :: d' :: text)
      = if isLowSurrogate m then
          scanString ((codePointBytes (pairedSurrogates n m)).reverse ++ seen) text
        else .error .malformed := by
  rw [scanString.eq_def]
  simp only [show backslash ≠ quote by decide, if_false, if_true, h, hlow, hhigh,
    Bool.false_eq_true, ne_eq, not_true_eq_false, h']

/-- Reads the rest of a string after its opening quote. -/
def readString (text : Bytes) : Except Error (String × Bytes) :=
  match scanString [] text with
  | .error e => .error e
  | .ok (bytes, rest) =>
    match Text.ofUtf8? bytes with
    | some s => .ok (s, rest)
    | none => .error .malformed

/-- The text after the string whose opening quote has been read. -/
def skipString : Bytes → Except Error Bytes
  | [] => .error .endOfText
  | b :: text =>
    if b = quote then .ok text
    else if b = backslash then
      match text with
      | [] => .error .endOfText
      | e :: text =>
        if e = byte 'u' then
          match text with
          | h₁ :: h₂ :: h₃ :: h₄ :: text =>
            if (hexQuad? h₁ h₂ h₃ h₄).isSome then skipString text else .error .malformed
          | _ => .error .endOfText
        else if (shortEscape? e).isSome then skipString text
        else .error .malformed
    else if b < 0x20 then .error .malformed
    else skipString text

theorem skipString_quote (text : Bytes) : skipString (quote :: text) = .ok text := by
  rw [skipString.eq_def]
  rfl

theorem skipString_unit {a b c d : UInt8} {n : Nat} (h : hexQuad? a b c d = some n)
    (text : Bytes) :
    skipString (backslash :: byte 'u' :: a :: b :: c :: d :: text) = skipString text := by
  rw [skipString.eq_def]
  simp only [show backslash ≠ quote by decide, if_false, if_true, h, Option.isSome_some]

end LoginRegistry.Json
