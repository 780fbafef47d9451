import LoginRegistry.Text.Unprintable

/-! # Quoted text

    The rendering of a string and of a byte list inside a message: a string
    stands in double quotes with escapes for everything that would not show,
    a byte list is written in brackets.
-/

namespace LoginRegistry.Text

/-- A number in lower-case hexadecimal without leading zeros. -/
def hexNumeral (n : Nat) : List Char := Nat.toDigits 16 n

/-- One character inside quotes: the quote, the backslash and the common
    controls have short escapes, other unprintable characters a numeric one. -/
def quoteChar (c : Char) : List Char :=
  if c = '"' then ['\\', '"']
  else if c = '\\' then ['\\', '\\']
  else if c = '\t' then ['\\', 't']
  else if c = '\r' then ['\\', 'r']
  else if c = '\n' then ['\\', 'n']
  else if c.toNat = 0 then ['\\', '0']
  else if isUnprintable c then ['\\', 'u', '\x7b'] ++ hexNumeral c.toNat ++ ['\x7d']
  else [c]

/-- A string in double quotes. -/
def quote (s : String) : String :=
  String.ofList ('"' :: s.toList.flatMap quoteChar ++ ['"'])

/-- A list of bytes as decimal numbers in brackets. -/
def bracketed (bytes : List UInt8) : String :=
  "[" ++ ", ".intercalate (bytes.map fun b => toString b.toNat) ++ "]"

end LoginRegistry.Text
