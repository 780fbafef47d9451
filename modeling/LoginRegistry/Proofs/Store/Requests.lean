import LoginRegistry.Proofs.SortedMap
import LoginRegistry.Store.Handler

/-! # Requests to one table

    A put, an update and a delete each work on one item.  All three are an `edit`: it finds its
    table, then its key, then checks its condition, and only then changes the table.

    * `edit_of_some`: what an edit makes of a table and a key that are there.
    * `edit_eq_ok_iff`: when an edit succeeds, and what it leaves.
    * `scan_of_some`: the page that is read of a table that is there.
-/

namespace LoginRegistry.Store

/-! ### Conditions -/

/-- Whether the condition of a write, if it has one, holds of the stored item. -/
def Condition.permits (c : Option Condition) (stored : Option Item) : Bool :=
  c.all (·.holds stored)

theorem Table.check_eq (t : Table) (name : String) (key : AttributeValue)
    (c : Option Condition) (returnOld : Bool) :
    t.check name key c returnOld =
      if Condition.permits c (t.items.get? key) then .ok ()
      else .error (.conditionFailed name (if returnOld then t.items.get? key else none)) := by
  cases c with
  | none => rfl
  | some c => rfl

theorem Item.get?_key (name : String) (value : AttributeValue) :
    (Item.key name value).get? name = some value := by
  rw [Item.key, SortedMap.get?_single, if_pos rfl]

namespace Database

/-! ### Looking at one item -/

/-- The value that an item has for the partition attribute of a table. -/
def keyOf? (d : Database) (name : String) (item : Item) : Option AttributeValue :=
  (d.get? name).bind fun t => item.get? t.partition

/-- The item under a key of a table. -/
def item? (d : Database) (name : String) (key : AttributeValue) : Option Item :=
  (d.get? name).bind fun t => t.items.get? key

/-! ### Edits -/

/-- A write of one item. -/
def edit (d : Database) (name : String) (item : Item) (condition : Option Condition)
    (returnOld : Bool) (f : Table → AttributeValue → Table) : Except Error Database := do
  let t ← d.table name
  let key ← t.keyOf name item
  t.check name key condition returnOld
  return d.insert name (f t key)

theorem put_eq_edit (d : Database) (r : Put) :
    d.put r = d.edit r.table r.item r.condition r.returnOld fun t key => t.put key r.item := rfl

theorem update_eq_edit (d : Database) (r : Update) :
    d.update r = d.edit r.table r.key r.condition false fun t key =>
      t.put key (((t.items.get? key).getD r.key).union r.set) := rfl

theorem delete_eq_edit (d : Database) (r : Delete) :
    d.delete r = d.edit r.table r.key r.condition false fun t key => t.delete key := rfl

section edit

variable {d d' : Database} {name : String} {item : Item} {condition : Option Condition}
  {returnOld : Bool} {f : Table → AttributeValue → Table}

/-- With its table and key an edit changes the table or is refused. -/
theorem edit_of_some {t : Table} {key : AttributeValue} (ht : d.get? name = some t)
    (hkey : item.get? t.partition = some key) :
    d.edit name item condition returnOld f =
      if Condition.permits condition (t.items.get? key) then .ok (d.insert name (f t key))
      else .error (.conditionFailed name (if returnOld then t.items.get? key else none)) := by
  unfold edit
  simp only [table, ht, Table.keyOf, hkey, Table.check_eq, bind, Except.bind, pure, Except.pure]
  by_cases hpermits : Condition.permits condition (t.items.get? key) = true <;> simp [hpermits]

/-- Without its table or its key an edit fails. -/
theorem edit_ne_ok (h : d.keyOf? name item = none) :
    d.edit name item condition returnOld f ≠ .ok d' := by
  unfold edit
  cases ht : d.get? name with
  | none => simp [table, ht, bind, Except.bind]
  | some t =>
    have hkey : item.get? t.partition = none := by simpa [keyOf?, ht] using h
    simp [table, ht, Table.keyOf, hkey, bind, Except.bind]

/-- An edit succeeds if its table is there, its item holds the key and its condition holds, and
    not otherwise. -/
theorem edit_eq_ok_iff :
    d.edit name item condition returnOld f = .ok d' ↔
      ∃ t key, d.get? name = some t ∧ item.get? t.partition = some key ∧
        Condition.permits condition (t.items.get? key) = true ∧ d' = d.insert name (f t key) := by
  constructor
  · intro h
    cases ht : d.get? name with
    | none => exact absurd h (edit_ne_ok (by simp [keyOf?, ht]))
    | some t =>
      cases hkey : item.get? t.partition with
      | none => exact absurd h (edit_ne_ok (by simp [keyOf?, ht, hkey]))
      | some key =>
        rw [edit_of_some ht hkey] at h
        by_cases hpermits : Condition.permits condition (t.items.get? key) = true
        · rw [if_pos hpermits] at h
          exact ⟨t, key, rfl, hkey, hpermits, (Except.ok.inj h).symm⟩
        · rw [if_neg hpermits] at h
          cases h
  · rintro ⟨t, key, ht, hkey, hpermits, rfl⟩
    rw [edit_of_some ht hkey, if_pos hpermits]

end edit

/-! ### Pages -/

/-- A page of a table that is there goes on after the key that it starts from. -/
theorem scan_of_some {d : Database} {name : String} {t : Table} (ht : d.get? name = some t)
    (limit : Nat) (start : Option AttributeValue) :
    d.scan { table := name, limit := limit, start := start.map (Item.key t.partition) }
      = .ok (t.page (max limit 1) start) := by
  unfold scan
  cases start with
  | none =>
    simp only [table, ht, bind, Except.bind]
    rfl
  | some key =>
    have hkey : t.keyOf name (Item.key t.partition key) = .ok key := by
      simp only [Table.keyOf, Item.get?_key]
    simp only [table, ht, bind, Except.bind, Option.map_some, Option.mapM_some, hkey]
    rfl

end Database

end LoginRegistry.Store
