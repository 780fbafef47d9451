import LoginRegistry.SortedMap
import LoginRegistry.Text.Quoted

/-! # Attributes and items

    A table stores items, which map attribute names to values.  Values of one
    kind are ordered as usual (strings by code point, byte lists
    lexicographically); across kinds strings come first and byte lists last.
-/

namespace LoginRegistry.Store

/-- The value of an attribute. -/
inductive AttributeValue where
  | string (value : String)
  | number (value : Int64)
  | bytes (value : List UInt8)
  deriving DecidableEq, Repr, Inhabited

namespace AttributeValue

/-- The string, if the value is one. -/
def string? : AttributeValue → Option String
  | .string s => some s
  | _ => none

/-- The number, if the value is one. -/
def number? : AttributeValue → Option Int64
  | .number n => some n
  | _ => none

/-- The bytes, if the value is a byte list. -/
def bytes? : AttributeValue → Option (List UInt8)
  | .bytes b => some b
  | _ => none

/-- The order of table keys. -/
protected def compare : AttributeValue → AttributeValue → Ordering
  | .string a, .string b => Ord.compare a b
  | .string _, _ => .lt
  | .number _, .string _ => .gt
  | .number a, .number b => Ord.compare a b
  | .number _, .bytes _ => .lt
  | .bytes a, .bytes b => Ord.compare a b
  | .bytes _, _ => .gt

instance : Ord AttributeValue := ⟨AttributeValue.compare⟩

instance : Std.TransOrd AttributeValue where
  eq_swap {a b} :=
    match a, b with
    | .string x, .string y => (Std.OrientedCmp.eq_swap : Ord.compare x y = (Ord.compare y x).swap)
    | .number x, .number y => (Std.OrientedCmp.eq_swap : Ord.compare x y = (Ord.compare y x).swap)
    | .bytes x, .bytes y => (Std.OrientedCmp.eq_swap : Ord.compare x y = (Ord.compare y x).swap)
    | .string _, .number _ | .string _, .bytes _ | .number _, .string _ | .number _, .bytes _
    | .bytes _, .string _ | .bytes _, .number _ => rfl
  isLE_trans {a b c} h₁ h₂ :=
    match a, b, c with
    | .string x, .string y, .string z =>
      have h₁ : (Ord.compare x y).isLE = true := h₁
      have h₂ : (Ord.compare y z).isLE = true := h₂
      (Std.TransCmp.isLE_trans h₁ h₂ : (Ord.compare x z).isLE = true)
    | .number x, .number y, .number z =>
      have h₁ : (Ord.compare x y).isLE = true := h₁
      have h₂ : (Ord.compare y z).isLE = true := h₂
      (Std.TransCmp.isLE_trans h₁ h₂ : (Ord.compare x z).isLE = true)
    | .bytes x, .bytes y, .bytes z =>
      have h₁ : (Ord.compare x y).isLE = true := h₁
      have h₂ : (Ord.compare y z).isLE = true := h₂
      (Std.TransCmp.isLE_trans h₁ h₂ : (Ord.compare x z).isLE = true)
    | .string _, _, .number _ | .string _, _, .bytes _ | .number _, _, .bytes _ => rfl
    | .number _, .string _, _ | .bytes _, .string _, _ | .bytes _, .number _, _ =>
      nomatch (h₁ : false = true)
    | _, .number _, .string _ | _, .bytes _, .string _ | _, .bytes _, .number _ =>
      nomatch (h₂ : false = true)

instance : Std.LawfulEqOrd AttributeValue where
  compare_self {a} :=
    match a with
    | .string x => (Std.ReflCmp.compare_self : Ord.compare x x = .eq)
    | .number x => (Std.ReflCmp.compare_self : Ord.compare x x = .eq)
    | .bytes x => (Std.ReflCmp.compare_self : Ord.compare x x = .eq)
  eq_of_compare {a b} h :=
    match a, b with
    | .string x, .string y =>
      have h : Ord.compare x y = .eq := h
      congrArg _ (Std.LawfulEqCmp.eq_of_compare h)
    | .number x, .number y =>
      have h : Ord.compare x y = .eq := h
      congrArg _ (Std.LawfulEqCmp.eq_of_compare h)
    | .bytes x, .bytes y =>
      have h : Ord.compare x y = .eq := h
      congrArg _ (Std.LawfulEqCmp.eq_of_compare h)
    | .string _, .number _ | .string _, .bytes _ | .number _, .bytes _ =>
      nomatch (h : Ordering.lt = .eq)
    | .number _, .string _ | .bytes _, .string _ | .bytes _, .number _ =>
      nomatch (h : Ordering.gt = .eq)

/-- Strictly smaller, between values of one kind only. -/
def lessThan : AttributeValue → AttributeValue → Bool
  | .string a, .string b => compare a b == .lt
  | .number a, .number b => compare a b == .lt
  | .bytes a, .bytes b => compare a b == .lt
  | _, _ => false

/-- Values in key order. -/
def sort (values : List AttributeValue) : List AttributeValue :=
  values.mergeSort fun a b => (compare a b).isLE

/-- A value inside a message. -/
def text : AttributeValue → String
  | .string s => s!"S({Text.quote s})"
  | .number n => s!"N({n})"
  | .bytes b => s!"B({Text.bracketed b})"

end AttributeValue

/-- Attributes by name. -/
abbrev Item := SortedMap String AttributeValue

/-- The item with a single attribute. -/
def Item.key (name : String) (value : AttributeValue) : Item := SortedMap.single name value

end LoginRegistry.Store
