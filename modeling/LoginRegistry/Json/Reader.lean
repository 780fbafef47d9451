import LoginRegistry.Json.Skip

/-! # Reading typed values

    Readers consume a JSON text from the front and stop at the first problem in
    it.  `Reader.record` reads a record either as an object, whose members may
    come in any order and may be left out if they have a default, or as an array
    of its fields in order, whose tail may be left out.
-/

namespace LoginRegistry.Json

open Ascii

/-- A reader takes a value from the front of a text and leaves the rest. -/
abbrev Reader := StateT Bytes (Except Error)

namespace Reader

/-! ### Scalars -/

/-- Lifts a function on texts. -/
def ofScan (f : Bytes → Except Error (α × Bytes)) : Reader α := f

/-- The first byte that is not blank, left in the text; `none` at the end. -/
def peek : Reader (Option UInt8) := fun text =>
  let text := skipSpace text
  .ok (text.head?, text)

/-- Passes over one byte. -/
def advance : Reader Unit := modify (List.drop 1)

/-- Passes over the rest of a word. -/
def word (s : String) : Reader Unit := fun text => do
  let text ← expectWord (Text.utf8 s) text
  return ((), text)

/-- Names the value that comes next.  A scalar is read in full first, so a
    scalar that is itself malformed is reported as such. -/
def found : Reader Found := do
  match ← get with
  | [] => throw .malformed
  | quote :: _ =>
    advance
    return .string (← ofScan readString)
  | openBracket :: _ => return .sequence
  | openBrace :: _ => return .map
  | minus :: _ =>
    advance
    return (← ofScan (readNumber false)).found
  | b :: _ =>
    if isDigit b then return (← ofScan (readNumber true)).found
    else if b = byte 'n' then advance; word "ull"; return .null
    else if b = byte 't' then advance; word "rue"; return .boolean true
    else if b = byte 'f' then advance; word "alse"; return .boolean false
    else throw .malformed

/-- Refuses the value that comes next. -/
def refuse (expected : Expected) : Reader α := do
  throw (.wrongType (← found) expected)

/-- Reads `true` or `false`. -/
def boolean : Reader Bool := do
  match ← peek with
  | none => throw .endOfText
  | some b =>
    if b = byte 't' then advance; word "rue"; return true
    else if b = byte 'f' then advance; word "alse"; return false
    else refuse .boolean

/-- Reads a string. -/
def string : Reader String := do
  match ← peek with
  | none => throw .endOfText
  | some quote =>
    advance
    ofScan readString
  | some _ => refuse .string

/-- Takes a number that was read as a natural number below `limit`. -/
def inRange (limit : Nat) (expected : Expected) : Number → Reader Nat
  | .natural n => if n < limit then return n else throw (.outOfRange n expected)
  | .negative n => throw (.outOfRange n expected)
  | .float x => throw (.wrongType (.float x) expected)

/-- Reads a natural number below `limit`. -/
def natural (limit : Nat) (expected : Expected) : Reader Nat := do
  match ← peek with
  | none => throw .endOfText
  | some minus =>
    advance
    inRange limit expected (← ofScan (readNumber false))
  | some b =>
    if isDigit b then inRange limit expected (← ofScan (readNumber true))
    else refuse expected

/-- Reads an 8-bit number. -/
def uint8 : Reader UInt8 := return UInt8.ofNat (← natural UInt8.size (.unsigned 8))

/-- Reads a 16-bit number. -/
def uint16 : Reader UInt16 := return UInt16.ofNat (← natural UInt16.size (.unsigned 16))

/-- Reads a 32-bit number. -/
def uint32 : Reader UInt32 := return UInt32.ofNat (← natural UInt32.size (.unsigned 32))

/-- Reads a 64-bit number. -/
def uint64 : Reader UInt64 := return UInt64.ofNat (← natural UInt64.size (.unsigned 64))

/-- Reads a 64-bit number that counts things. -/
def size : Reader UInt64 := return UInt64.ofNat (← natural UInt64.size .size)

/-- Reads `null` as `none` and any other value by `r`. -/
def optional (r : Reader α) : Reader (Option α) := do
  match ← peek with
  | some b =>
    if b = byte 'n' then advance; word "ull"; return none
    else return some (← r)
  | none => return some (← r)

/-! ### Lists -/

/-- Moves to the next element of an array; `false` at the closing bracket. -/
def nextElement (first : Bool) : Reader Bool := do
  match ← peek with
  | none => throw .endOfText
  | some closeBracket => return false
  | some b =>
    if first then return true
    else if b = comma then
      advance
      match ← peek with
      | none => throw .endOfText
      | some closeBracket => throw .malformed
      | some _ => return true
    else throw .malformed

/-- Reads the elements up to the closing bracket.  Each takes at least one byte,
    so the length of the text bounds their number. -/
def elements (r : Reader α) : Nat → Bool → Reader (List α)
  | 0, _ => throw .malformed
  | fuel + 1, first => do
    if ← nextElement first then
      let a ← r
      let rest ← elements r fuel false
      return a :: rest
    else return []

/-- Reads an array of values. -/
def list (r : Reader α) : Reader (List α) := do
  match ← peek with
  | none => throw .endOfText
  | some openBracket =>
    advance
    let all ← elements r ((← get).length + 1) true
    advance
    return all
  | some _ => refuse .sequence

end Reader

/-! ### Records -/

/-- A field of a record: reading it gives the change it makes to a draft. -/
structure Field (σ : Type) where
  /-- The member name. -/
  name : String
  /-- Reads the field's value. -/
  read : Reader (σ → σ)
  /-- Whether the field has to be there. -/
  required : Bool := false

/-- The shape of a record: its fields in order, and the draft that has every
    field at its default. -/
structure Record (σ : Type) where
  /-- The name that messages use. -/
  name : String
  /-- The draft to start from. -/
  start : σ
  /-- The fields in order. -/
  fields : List (Field σ)

namespace Reader

/-- Moves to the name of the next member; `false` at the closing brace. -/
def nextMember (first : Bool) : Reader Bool := do
  match ← peek with
  | none => throw .endOfText
  | some closeBrace => return false
  | some b =>
    if first then
      if b = quote then return true else throw .malformed
    else if b = comma then
      advance
      match ← peek with
      | none => throw .endOfText
      | some quote => return true
      | some _ => throw .malformed
    else throw .malformed

/-- Passes over the colon between a name and its value. -/
def colon : Reader Unit := do
  match ← peek with
  | none => throw .endOfText
  | some Ascii.colon => advance
  | some _ => throw .malformed

/-- Passes over a value. -/
def skip : Reader Unit := fun text => do
  let text ← skipValue text
  return ((), text)

/-- Reads the members of an object up to the closing brace into a draft.  `seen`
    holds the names of the fields read so far; a second one is refused at its name. -/
def members (r : Record σ) : Nat → Bool → List String → σ → Reader (List String × σ)
  | 0, _, _, _ => throw .malformed
  | fuel + 1, first, seen, draft => do
    if ← nextMember first then
      advance
      let name ← ofScan readString
      match r.fields.find? (·.name == name) with
      | none =>
        colon
        skip
        members r fuel false seen draft
      | some field =>
        -- A second occurrence counts before its value is looked at.
        if seen.contains name then throw (.duplicateField name)
        colon
        let change ← field.read
        members r fuel false (name :: seen) (change draft)
    else return (seen, draft)

/-- Reads the fields of a record given as an array, from field number `index` on. -/
def positional (r : Record σ) (index : Nat) : List (Field σ) → σ → Reader σ
  | [], draft => return draft
  | field :: fields, draft => do
    if ← nextElement (index == 0) then
      let change ← field.read
      positional r (index + 1) fields (change draft)
    else if field.required then
      throw (.wrongLength index r.name r.fields.length)
    else
      -- The closing bracket is still ahead, so the other fields are left out too.
      positional r (index + 1) fields draft

/-- Passes over the closing bracket of a record given as an array. -/
def closePositional : Reader Unit := do
  match ← peek with
  | none => throw .endOfText
  | some closeBracket => advance
  | some _ => throw .malformed

/-- Reads a record, as an object or as an array of its fields. -/
def record (r : Record σ) : Reader σ := do
  match ← peek with
  | none => throw .endOfText
  | some openBrace =>
    advance
    let (seen, draft) ← members r ((← get).length + 1) true [] r.start
    match r.fields.find? fun f => f.required && !seen.contains f.name with
    | some missing => throw (.missingField missing.name)
    | none =>
      advance
      return draft
  | some openBracket =>
    advance
    let draft ← positional r 0 r.fields r.start
    closePositional
    return draft
  | some _ => refuse (.record r.name)

/-- Reads a whole text: one value and blanks around it. -/
def parse (r : Reader α) (text : Bytes) : Except Error α := do
  let (a, rest) ← r text
  match skipSpace rest with
  | [] => return a
  | _ => throw .malformed

end Reader

end LoginRegistry.Json
