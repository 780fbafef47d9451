import LoginRegistry.Json.Lexeme

/-! # Numbers

    A number without fraction and exponent that fits 64 bits is an integer; any
    other number is a double.  The double is the integer significand, cut to
    64 bits, multiplied or divided once by a power of ten, so its last bits may
    differ from those of the nearest double.
-/

namespace LoginRegistry.Json

open Ascii

/-- A number as read. -/
inductive Number where
  | natural (value : Nat)
  | negative (value : Int)
  | float (value : Float)

/-- The found value that a number is. -/
def Number.found : Number → Found
  | .natural value => .integer value
  | .negative value => .integer value
  | .float value => .float value

/-! ### Digits -/

/-- Appends digits to a significand while it stays below `2 ^ 64`: the new
    significand, the number of digits taken and the text from the first digit left. -/
def takeDigits (significand taken : Nat) : Bytes → Nat × Nat × Bytes
  | [] => (significand, taken, [])
  | b :: text =>
    if isDigit b && 10 * significand + digitValue b < UInt64.size then
      takeDigits (10 * significand + digitValue b) (taken + 1) text
    else (significand, taken, b :: text)

/-- The number of digits that the text starts with. -/
def countDigits (text : Bytes) : Nat := (text.takeWhile isDigit).length

/-- The text after the digits that it starts with. -/
def dropDigits (text : Bytes) : Bytes := text.dropWhile isDigit

/-- Whether the text goes on with an exponent. -/
def startsExponent : Bytes → Bool
  | b :: _ => b == byte 'e' || b == byte 'E'
  | [] => false

/-! ### Doubles -/

/-- The double nearest to a power of ten. -/
def tenToThe (n : Nat) : Float := Float.ofScientific 1 false n

/-- Divides by `10 ^ n`, in steps of `10 ^ 308` as long as anything is left. -/
def divideByTens : Nat → Float → Nat → Float
  | 0, x, _ => x
  | fuel + 1, x, n =>
    if n ≤ 308 then x / tenToThe n
    else if x == 0 then x
    else divideByTens fuel (x / tenToThe 308) (n - 308)

/-- The double `significand * 10 ^ exponent` with a sign; refused when it is too large. -/
def makeFloat (positive : Bool) (significand : Nat) (exponent : Int) : Except Error Float :=
  let x := Float.ofNat significand
  let signed (x : Float) := if positive then x else -x
  if exponent < 0 then
    .ok (signed (divideByTens (exponent.natAbs + 1) x exponent.natAbs))
  else if 308 < exponent then
    if significand = 0 then .ok (signed x) else .error .malformed
  else
    let x := x * tenToThe exponent.toNat
    if x.isInf then .error .malformed else .ok (signed x)

/-- Exponents from here on count as unbounded. -/
def exponentLimit : Nat := 2147483648

/-- Reads an exponent from its first digit on. -/
def readExponentDigits (positive : Bool) (significand : Nat) (scale : Int) (upward : Bool)
    (text : Bytes) : Except Error (Float × Bytes) :=
  match text with
  | [] => .error .endOfText
  | b :: rest =>
    if !isDigit b then .error .malformed
    else
      let power := Nat.ofDigitChars 10 ((text.takeWhile isDigit).map fun b => Char.ofNat b.toNat) 0
      let rest := dropDigits rest
      if exponentLimit ≤ power then
        if significand ≠ 0 ∧ upward then .error .malformed
        else .ok (if positive then 0 else -0, rest)
      else do
        let x ← makeFloat positive significand (if upward then scale + power else scale - power)
        return (x, rest)

/-- Reads an exponent after its letter. -/
def readExponent (positive : Bool) (significand : Nat) (scale : Int) :
    Bytes → Except Error (Float × Bytes)
  | plus :: text => readExponentDigits positive significand scale true text
  | minus :: text => readExponentDigits positive significand scale false text
  | text => readExponentDigits positive significand scale true text

/-- What may follow the digits of a number: an exponent or nothing. -/
def readScaled (positive : Bool) (significand : Nat) (scale : Int) (text : Bytes) :
    Except Error (Float × Bytes) :=
  if startsExponent text then readExponent positive significand scale (text.drop 1)
  else do
    let x ← makeFloat positive significand scale
    return (x, text)

/-- Reads a fraction after its point. -/
def readFraction (positive : Bool) (significand : Nat) (scale : Int) (text : Bytes) :
    Except Error (Float × Bytes) :=
  if countDigits text = 0 then
    .error (if text.isEmpty then .endOfText else .malformed)
  else
    let (significand, taken, rest) := takeDigits significand 0 text
    readScaled positive significand (scale - taken) (dropDigits rest)

/-! ### Numbers -/

/-- The integer of a sign and a significand, if it is one of the signed or
    unsigned 64-bit integers; minus zero is not. -/
def integer? (positive : Bool) (significand : Nat) : Option Number :=
  if positive then some (.natural significand)
  else if 0 < significand ∧ Int64.minValue.toInt ≤ -significand then some (.negative (-significand))
  else none

/-- Reads a number from its first digit on. -/
def readNumber (positive : Bool) : Bytes → Except Error (Number × Bytes)
  | [] => .error .endOfText
  | b :: text =>
    if !isDigit b then .error .malformed
    else if b = byte '0' ∧ 0 < countDigits text then .error .malformed
    else
      let (significand, _, rest) := takeDigits (digitValue b) 0 text
      let dropped := countDigits rest
      match dropDigits rest with
      | point :: rest => do
        let (x, rest) ← readFraction positive significand dropped rest
        return (.float x, rest)
      | rest =>
        -- An integer as long as no digit was dropped and no exponent follows.
        if dropped = 0 ∧ startsExponent rest = false then
          match integer? positive significand with
          | some n => .ok (n, rest)
          | none => .ok (.float (-(Float.ofNat significand)), rest)
        else do
          let (x, rest) ← readScaled positive significand dropped rest
          return (.float x, rest)

/-- The text after a number that is only checked for its form, from its first
    digit on.  Wherever a digit is due, anything else is malformed, the end too. -/
def skipNumber : Bytes → Except Error Bytes
  | [] => .error .malformed
  | b :: text =>
    if !isDigit b then .error .malformed
    else if b = byte '0' ∧ 0 < countDigits text then .error .malformed
    else
      match dropDigits text with
      | point :: text =>
        if countDigits text = 0 then .error .malformed
        else skipExponent (dropDigits text)
      | text => skipExponent text
where
  /-- The text after an optional exponent. -/
  skipExponent (text : Bytes) : Except Error Bytes :=
    if startsExponent text then
      let digits :=
        match text.drop 1 with
        | plus :: text => text
        | minus :: text => text
        | text => text
      if countDigits digits = 0 then .error .malformed else .ok (dropDigits digits)
    else .ok text

end LoginRegistry.Json
