import LoginRegistry.Text.Ascii

/-! # Compact JSON

    JSON values as trees and their text without blanks, members in the order of
    the tree.
-/

namespace LoginRegistry.Json

open Ascii

/-- A JSON value.  Numbers are natural: nothing that is written needs others. -/
inductive Value where
  | null
  | boolean (value : Bool)
  | natural (value : Nat)
  | string (value : String)
  | array (elements : List Value)
  | object (members : List (String × Value))

/-- The bytes of ASCII characters. -/
def ascii (cs : List Char) : Bytes := cs.map byte

/-- One character inside a string.  Only the quote, the backslash and the
    control characters below the blank are escaped. -/
def escapeChar (c : Char) : Bytes :=
  if c = '"' then ascii ['\\', '"']
  else if c = '\\' then ascii ['\\', '\\']
  else if c = '\n' then ascii ['\\', 'n']
  else if c = '\r' then ascii ['\\', 'r']
  else if c = '\t' then ascii ['\\', 't']
  else if c.toNat = 0x08 then ascii ['\\', 'b']
  else if c.toNat = 0x0c then ascii ['\\', 'f']
  else if c.toNat < 0x20 then
    ascii ['\\', 'u', '0', '0', Nat.digitChar (c.toNat / 16), Nat.digitChar (c.toNat % 16)]
  else String.utf8EncodeChar c

/-- A string in quotes. -/
def renderString (s : String) : Bytes :=
  quote :: (s.toList.flatMap escapeChar ++ [quote])

/-- A natural number in decimal. -/
def renderNatural (n : Nat) : Bytes := ascii (Nat.toDigits 10 n)

mutual

/-- The compact text of a value. -/
def Value.render : Value → Bytes
  | .null => ascii ['n', 'u', 'l', 'l']
  | .boolean true => ascii ['t', 'r', 'u', 'e']
  | .boolean false => ascii ['f', 'a', 'l', 's', 'e']
  | .natural n => renderNatural n
  | .string s => renderString s
  | .array elements => openBracket :: renderElements true elements ++ [closeBracket]
  | .object members => openBrace :: renderMembers true members ++ [closeBrace]

/-- The elements of an array, a comma before each but the first. -/
def renderElements (first : Bool) : List Value → Bytes
  | [] => []
  | v :: rest => (if first then [] else [comma]) ++ v.render ++ renderElements false rest

/-- The members of an object, a comma before each but the first. -/
def renderMembers (first : Bool) : List (String × Value) → Bytes
  | [] => []
  | (name, v) :: rest =>
    (if first then [] else [comma]) ++ renderString name ++ colon :: v.render
      ++ renderMembers false rest

end

end LoginRegistry.Json
