import LoginRegistry.Store.Item

/-! # Conditions

    A write can be made to depend on the stored item.  An item that is not there
    has no attributes, so only `absent` holds of it.
-/

namespace LoginRegistry.Store

/-- A condition on the stored item. -/
inductive Condition where
  /-- The attribute is there. -/
  | present (name : String)
  /-- The attribute is not there. -/
  | absent (name : String)
  /-- The attribute has the value. -/
  | equals (name : String) (value : AttributeValue)
  /-- The attribute is below the value and of its kind. -/
  | lessThan (name : String) (value : AttributeValue)
  /-- Both hold. -/
  | and (left right : Condition)
  /-- At least one holds. -/
  | or (left right : Condition)
  deriving DecidableEq

/-- An attribute of an item that may be missing as a whole. -/
def attribute? (item : Option Item) (name : String) : Option AttributeValue :=
  item.bind fun i => i.get? name

/-- Whether the condition holds of the stored item. -/
def Condition.holds : Condition → Option Item → Bool
  | .present name, item => (attribute? item name).isSome
  | .absent name, item => (attribute? item name).isNone
  | .equals name value, item => attribute? item name == some value
  | .lessThan name value, item => (attribute? item name).any (·.lessThan value)
  | .and left right, item => left.holds item && right.holds item
  | .or left right, item => left.holds item || right.holds item

end LoginRegistry.Store
