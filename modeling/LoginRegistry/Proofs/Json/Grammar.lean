import LoginRegistry.Json.Number
import LoginRegistry.Json.Value
import Mathlib.Data.List.Forall2
import Mathlib.Data.List.TakeWhile

/-! # The grammar of JSON texts

    A text is a row of tokens with blanks between them, and the tokens nest as a tree.
    `Tree` holds the tokens of numbers and strings as they are written, so it stands for
    every well-formed text, also for one that no reader accepts.

    * `IsString`, `IsNumber`: the tokens, byte by byte.  Whether the bytes of a string are
      UTF-8 is no matter of the grammar.
    * `Quotes s token`: a token that is a string of Unicode characters, each written in one of
      the ways there are.
    * `Tree.Valid`, `Tree.HasText`: well-formed trees and their texts.
-/

namespace LoginRegistry.Json

open Ascii

/-! ### Strings -/

/-- A byte that stands for itself inside a string. -/
def IsPlain (b : UInt8) : Prop := b ≠ quote ∧ b ≠ backslash ∧ ¬ b < 0x20

/-- The characters that a backslash and a letter stand for. -/
def letterEscapes : List (Char × Char) :=
  [('"', '"'), ('\\', '\\'), ('/', '/'), ('b', Char.ofNat 0x08), ('f', Char.ofNat 0x0c),
    ('n', '\n'), ('r', '\r'), ('t', '\t')]

/-- A part of a string: a byte that stands for itself or an escape. -/
inductive IsPart : Bytes → Prop where
  | plain {b : UInt8} : IsPlain b → IsPart [b]
  | letter {e c : Char} : (e, c) ∈ letterEscapes → IsPart [backslash, byte e]
  | unit {a b c d : UInt8} {n : Nat} : hexQuad? a b c d = some n →
    IsPart [backslash, byte 'u', a, b, c, d]

/-- A string token. -/
def IsString (token : Bytes) : Prop :=
  ∃ parts : List Bytes, (∀ part ∈ parts, IsPart part) ∧ token = quote :: (parts.flatten ++ [quote])

/-- The ways to write a character inside a string. -/
inductive Writes : Char → Bytes → Prop where
  /-- It stands for itself. -/
  | plain {c : Char} : c ≠ '"' → c ≠ '\\' → 0x20 ≤ c.toNat → Writes c (String.utf8EncodeChar c)
  /-- It has an escape of its own. -/
  | letter {e c : Char} : (e, c) ∈ letterEscapes → Writes c [backslash, byte e]
  /-- It is written by number. -/
  | unit {a b c d : UInt8} {n : Nat} : hexQuad? a b c d = some n → isLowSurrogate n = false →
    isHighSurrogate n = false → Writes (Char.ofNat n) [backslash, byte 'u', a, b, c, d]
  /-- It is written by a surrogate pair. -/
  | pair {a b c d a' b' c' d' : UInt8} {high low : Nat} : hexQuad? a b c d = some high →
    isHighSurrogate high = true → hexQuad? a' b' c' d' = some low → isLowSurrogate low = true →
    Writes (Char.ofNat (pairedSurrogates high low))
      [backslash, byte 'u', a, b, c, d, backslash, byte 'u', a', b', c', d']

/-- The token is the string in quotes, each character written in one of the ways there are. -/
def Quotes (s : String) (token : Bytes) : Prop :=
  ∃ pieces : List Bytes, List.Forall₂ Writes s.toList pieces ∧
    token = quote :: (pieces.flatten ++ [quote])

/-! ### Numbers -/

/-- One digit or more. -/
def IsDigits (ds : Bytes) : Prop := ds ≠ [] ∧ ∀ b ∈ ds, isDigit b = true

/-- Digits without a leading zero. -/
def IsWhole (ds : Bytes) : Prop := IsDigits ds ∧ (ds.head? = some (byte '0') → ds.length = 1)

/-- Nothing, or a point and digits. -/
inductive IsFraction : Bytes → Prop where
  | none : IsFraction []
  | some {ds : Bytes} : IsDigits ds → IsFraction (point :: ds)

/-- Nothing, or the letter of an exponent, perhaps a sign, and digits. -/
inductive IsExponent : Bytes → Prop where
  | none : IsExponent []
  | some {e : UInt8} {sign ds : Bytes} : e = byte 'e' ∨ e = byte 'E' →
    sign = [] ∨ sign = [plus] ∨ sign = [minus] → IsDigits ds → IsExponent (e :: (sign ++ ds))

/-- A number token without its sign. -/
def IsUnsigned (token : Bytes) : Prop :=
  ∃ whole fraction exponent, IsWhole whole ∧ IsFraction fraction ∧ IsExponent exponent ∧
    token = whole ++ (fraction ++ exponent)

/-- A number token. -/
inductive IsNumber : Bytes → Prop where
  | positive {token : Bytes} : IsUnsigned token → IsNumber token
  | negative {token : Bytes} : IsUnsigned token → IsNumber (minus :: token)

/-! ### Trees -/

/-- A JSON value by its tokens, without the blanks between them. -/
inductive Tree where
  | null
  | boolean (value : Bool)
  | number (token : Bytes)
  | string (token : Bytes)
  | array (elements : List Tree)
  /-- The members come with the tokens of their names. -/
  | object (members : List (Bytes × Tree))

/-- The tokens of a tree are well formed. -/
inductive Tree.Valid : Tree → Prop where
  | null : Valid .null
  | boolean (value : Bool) : Valid (.boolean value)
  | number {token : Bytes} : IsNumber token → Valid (.number token)
  | string {token : Bytes} : IsString token → Valid (.string token)
  | array {elements : List Tree} : (∀ t ∈ elements, t.Valid) → Valid (.array elements)
  | object {members : List (Bytes × Tree)} : (∀ m ∈ members, IsString m.1) →
    (∀ m ∈ members, m.2.Valid) → Valid (.object members)

/-- The tokens of elements or members with commas between them, and one before the first as
    well unless it comes first. -/
def separated (first : Bool) : List (List Bytes) → List Bytes
  | [] => []
  | item :: items => (if first then item else [comma] :: item) ++ separated false items

mutual

/-- The tokens of a value. -/
def Tree.tokens : Tree → List Bytes
  | .null => [ascii ['n', 'u', 'l', 'l']]
  | .boolean true => [ascii ['t', 'r', 'u', 'e']]
  | .boolean false => [ascii ['f', 'a', 'l', 's', 'e']]
  | .number token => [token]
  | .string token => [token]
  | .array elements => [openBracket] :: (separated true (elementTokens elements) ++ [[closeBracket]])
  | .object members => [openBrace] :: (separated true (memberTokens members) ++ [[closeBrace]])

/-- The tokens of the elements of an array, one by one. -/
def elementTokens : List Tree → List (List Bytes)
  | [] => []
  | t :: ts => t.tokens :: elementTokens ts

/-- The tokens of the members of an object, one by one. -/
def memberTokens : List (Bytes × Tree) → List (List Bytes)
  | [] => []
  | (name, t) :: ms => (name :: [colon] :: t.tokens) :: memberTokens ms

end

/-! ### Texts -/

/-- There are only blanks. -/
def IsBlank (text : Bytes) : Prop := ∀ b ∈ text, isSpace b = true

/-- The text is the tokens, each after blanks, and then the rest. -/
inductive Spells : List Bytes → Bytes → Bytes → Prop where
  | nil {rest : Bytes} : Spells [] rest rest
  | cons {blanks token text rest : Bytes} {tokens : List Bytes} : IsBlank blanks →
    Spells tokens text rest → Spells (token :: tokens) (blanks ++ (token ++ text)) rest

/-- The text is the tokens of a tree with blanks before, between and after them. -/
def Tree.HasText (t : Tree) (text : Bytes) : Prop :=
  ∃ rest, Spells t.tokens text rest ∧ IsBlank rest

/-- The text is a JSON object. -/
def IsObject (text : Bytes) : Prop :=
  ∃ members, (Tree.object members).Valid ∧ (Tree.object members).HasText text

/-! ### Rows of tokens -/

namespace Spells

variable {tokens more : List Bytes} {text mid rest : Bytes}

theorem append (h : Spells tokens text mid) (hmore : Spells more mid rest) :
    Spells (tokens ++ more) text rest := by
  induction h with
  | nil => exact hmore
  | cons hblanks _ ih => exact .cons hblanks (ih hmore)

theorem exists_of_append (h : Spells (tokens ++ more) text rest) :
    ∃ mid, Spells tokens text mid ∧ Spells more mid rest := by
  induction tokens generalizing text with
  | nil => exact ⟨text, .nil, h⟩
  | cons token tokens ih =>
    cases h with
    | cons hblanks h =>
      obtain ⟨mid, hmid, hmore⟩ := ih h
      exact ⟨mid, .cons hblanks hmid, hmore⟩

/-- Each token takes at least a byte. -/
theorem length_le (h : Spells tokens text rest) (htokens : ∀ token ∈ tokens, token ≠ []) :
    tokens.length + rest.length ≤ text.length := by
  induction h with
  | nil => exact Nat.le_of_eq (Nat.zero_add _)
  | cons _ _ ih =>
    obtain ⟨htoken, htokens⟩ := List.forall_mem_cons.mp htokens
    have hrest := ih htokens
    have hpositive := List.length_pos_iff.mpr htoken
    simp only [List.length_append, List.length_cons]
    omega

/-- No blank has to come before a token. -/
theorem token {token : Bytes} (h : Spells tokens text rest) :
    Spells (token :: tokens) (token ++ text) rest := cons (fun _ hb => absurd hb List.not_mem_nil) h

/-- Tokens spell themselves without blanks. -/
theorem flatten (tokens : List Bytes) (rest : Bytes) :
    Spells tokens (tokens.flatten ++ rest) rest := by
  induction tokens with
  | nil => exact .nil
  | cons token tokens ih =>
    rw [List.flatten_cons, List.append_assoc]
    exact ih.token

end Spells

/-- A tree has its tokens without blanks as a text. -/
theorem Tree.hasText_flatten (t : Tree) : t.HasText t.tokens.flatten := by
  refine ⟨[], ?_, nofun⟩
  have hspells := Spells.flatten t.tokens []
  rwa [List.append_nil] at hspells

theorem skipSpace_blanks {blanks : Bytes} (h : IsBlank blanks) (text : Bytes) :
    skipSpace (blanks ++ text) = skipSpace text :=
  List.dropWhile_append_of_pos h

theorem skipSpace_cons {b : UInt8} (hb : isSpace b = false) (text : Bytes) :
    skipSpace (b :: text) = b :: text := by
  rw [skipSpace, List.dropWhile_cons, hb]
  rfl

/-- The text up to its first byte that is no blank. -/
theorem exists_blanks (text : Bytes) : ∃ blanks, IsBlank blanks ∧ text = blanks ++ skipSpace text :=
  ⟨text.takeWhile isSpace, fun _ => List.mem_takeWhile_imp, List.takeWhile_append_dropWhile.symm⟩

theorem skipSpace_eq_nil_iff {text : Bytes} : skipSpace text = [] ↔ IsBlank text :=
  List.dropWhile_eq_nil_iff

/-- After its blanks a row of tokens goes on with the first of them. -/
theorem Spells.skipSpace_eq {b : UInt8} {token text rest : Bytes} {tokens : List Bytes}
    (h : Spells ((b :: token) :: tokens) text rest) (hb : isSpace b = false) :
    ∃ text', skipSpace text = b :: (token ++ text') ∧ Spells tokens text' rest := by
  cases h with
  | @cons blanks _ text' _ _ hblanks h =>
    refine ⟨text', ?_, h⟩
    rw [skipSpace_blanks hblanks, List.cons_append, skipSpace_cons hb]

/-- A single token is all that comes before the rest. -/
theorem Spells.skipSpace_single {b : UInt8} {tail text rest : Bytes}
    (h : Spells [b :: tail] text rest) (hb : isSpace b = false) :
    skipSpace text = b :: (tail ++ rest) := by
  obtain ⟨after, htext, h⟩ := h.skipSpace_eq hb
  cases h
  exact htext

/-- Blanks may come before the first token. -/
theorem Spells.blanks {blanks token text rest : Bytes} {tokens : List Bytes}
    (hblanks : IsBlank blanks) (h : Spells (token :: tokens) text rest) :
    Spells (token :: tokens) (blanks ++ text) rest := by
  cases h with
  | cons hmore h =>
    rw [← List.append_assoc]
    exact .cons (List.forall_mem_append.mpr ⟨hblanks, hmore⟩) h

/-- Blanks may stand in front of a text. -/
theorem Tree.HasText.blanks {t : Tree} {text : Bytes} (h : t.HasText text) {blanks : Bytes}
    (hblanks : IsBlank blanks) : t.HasText (blanks ++ text) := by
  obtain ⟨rest, hspells, hrest⟩ := h
  have hsome : ∃ token tokens, t.tokens = token :: tokens := by
    cases t with
    | boolean value => cases value <;> exact ⟨_, _, rfl⟩
    | _ => exact ⟨_, _, rfl⟩
  obtain ⟨token, tokens, htokens⟩ := hsome
  rw [htokens] at hspells
  exact ⟨rest, htokens ▸ hspells.blanks hblanks, hrest⟩

/-- A token that the text goes on with after its blanks can be told off. -/
theorem Spells.of_skipSpace {token text text' rest : Bytes} {tokens : List Bytes}
    (htext : skipSpace text = token ++ text') (h : Spells tokens text' rest) :
    Spells (token :: tokens) text rest := by
  obtain ⟨blanks, hblanks, heq⟩ := exists_blanks text
  rw [heq, htext]
  exact .cons hblanks h

theorem Spells.of_byte {b : UInt8} {text text' rest : Bytes} {tokens : List Bytes}
    (htext : skipSpace text = b :: text') (h : Spells tokens text' rest) :
    Spells ([b] :: tokens) text rest := .of_skipSpace htext h

end LoginRegistry.Json
