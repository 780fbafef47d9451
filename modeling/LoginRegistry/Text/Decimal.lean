/-! # Decimal numerals

    Signed decimal numerals as stored in text attributes: an optional sign and
    at least one ASCII digit, nothing else.
-/

namespace LoginRegistry.Text

/-- An ASCII digit. -/
def isDigit (c : Char) : Bool := '0' ≤ c && c ≤ '9'

/-- The number written by a non-empty row of digits. -/
def readNatural? (cs : List Char) : Option Nat :=
  if cs ≠ [] ∧ cs.all isDigit then some (Nat.ofDigitChars 10 cs 0) else none

/-- The number written by an optional sign and a row of digits. -/
def readInteger? : List Char → Option Int
  | '-' :: cs => (readNatural? cs).map fun n => -(n : Int)
  | '+' :: cs => (readNatural? cs).map Int.ofNat
  | cs => (readNatural? cs).map Int.ofNat

/-- The 64-bit number written by a signed numeral; `none` outside the range. -/
def readInt64? (s : String) : Option Int64 :=
  (readInteger? s.toList).bind fun i =>
    if Int64.minValue.toInt ≤ i ∧ i ≤ Int64.maxValue.toInt then some (Int64.ofInt i) else none

/-- The numeral of a 64-bit number: digits, after a minus sign if negative. -/
def writeInt64 (n : Int64) : String :=
  let i := n.toInt
  let digits := Nat.toDigits 10 i.natAbs
  String.ofList (if i < 0 then '-' :: digits else digits)

end LoginRegistry.Text
