/-! # Hexadecimal text of bytes

    Two lower-case digits a byte, the high half first.
-/

namespace LoginRegistry.Text

/-- The lower-case digit of a number below 16. -/
def hexDigit (n : Nat) : Char := Nat.digitChar n

/-- The value of a hexadecimal digit of either case. -/
def hexValue? (c : Char) : Option Nat :=
  if '0' ≤ c ∧ c ≤ '9' then some (c.toNat - '0'.toNat)
  else if 'a' ≤ c ∧ c ≤ 'f' then some (c.toNat - 'a'.toNat + 10)
  else if 'A' ≤ c ∧ c ≤ 'F' then some (c.toNat - 'A'.toNat + 10)
  else none

/-- The two digits of a byte. -/
def hexByte (b : UInt8) : List Char := [hexDigit (b.toNat / 16), hexDigit (b.toNat % 16)]

/-- The digits of a row of bytes. -/
def hexBytes (bytes : List UInt8) : List Char := bytes.flatMap hexByte

/-- The bytes written by a row of digit pairs. -/
def readHexBytes? : List Char → Option (List UInt8)
  | [] => some []
  | [_] => none
  | h :: l :: rest => do
    let high ← hexValue? h
    let low ← hexValue? l
    let bytes ← readHexBytes? rest
    return UInt8.ofNat (16 * high + low) :: bytes

end LoginRegistry.Text
