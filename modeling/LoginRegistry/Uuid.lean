import LoginRegistry.Text.Ascii
import LoginRegistry.Text.Hex

/-! # Account ids

    An account id is sixteen bytes.  Its text has the bytes in hexadecimal, in
    five groups joined by hyphens.
-/

namespace LoginRegistry

/-- A 128-bit account id. -/
structure Uuid where
  /-- The bytes, most significant first. -/
  bytes : Bytes
  /-- There are sixteen of them. -/
  length_bytes : bytes.length = 16
  deriving DecidableEq

namespace Uuid

/-- The id of sixteen bytes; `none` for any other number of bytes. -/
def ofBytes? (bytes : Bytes) : Option Uuid :=
  if h : bytes.length = 16 then some ⟨bytes, h⟩ else none

theorem ofBytes?_bytes (u : Uuid) : ofBytes? u.bytes = some u := by
  simp [ofBytes?, u.length_bytes]

/-- Ids are ordered by their bytes. -/
instance : Ord Uuid := ⟨fun u v => compare u.bytes v.bytes⟩

instance : Std.TransOrd Uuid where
  eq_swap {u v} := (Std.OrientedCmp.eq_swap : compare u.bytes v.bytes = _)
  isLE_trans {u v w} h₁ h₂ :=
    have h₁ : (compare u.bytes v.bytes).isLE = true := h₁
    have h₂ : (compare v.bytes w.bytes).isLE = true := h₂
    (Std.TransCmp.isLE_trans h₁ h₂ : (compare u.bytes w.bytes).isLE = true)

instance : Std.LawfulEqOrd Uuid where
  compare_self {u} := (Std.ReflCmp.compare_self : compare u.bytes u.bytes = .eq)
  eq_of_compare {u v} h := by
    obtain ⟨u, hu⟩ := u
    obtain ⟨v, hv⟩ := v
    have : u = v := Std.LawfulEqCmp.eq_of_compare (h : compare u v = .eq)
    subst this
    rfl

/-- The lower-case hyphenated text of an id. -/
def text (u : Uuid) : String :=
  let digits (start count : Nat) := Text.hexBytes ((u.bytes.drop start).take count)
  String.ofList (digits 0 4 ++ '-' :: digits 4 2 ++ '-' :: digits 6 2 ++ '-' :: digits 8 2
    ++ '-' :: digits 10 6)

/-- The id of a hyphenated text. -/
def ofText? (s : String) : Option Uuid := do
  let bytes ← Text.readHexBytes? (s.toList.filter (· ≠ '-'))
  ofBytes? bytes

end Uuid

end LoginRegistry
