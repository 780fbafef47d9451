import LoginRegistry.Proofs.Config.Validating
import LoginRegistry.Proofs.Store.Requests
import LoginRegistry.Registry.Basic
import LoginRegistry.Testbed.Basic
import Mathlib.Data.List.Nodup
import Mathlib.Logic.Function.Basic

/-! # The tables of a registry

    A registry works on five tables.  `TableNames.database` is the database that
    holds them and nothing else, and the lemmas on requests say what a request to
    one of them answers and which of the five it leaves changed. -/

namespace LoginRegistry

open Store (AttributeValue Condition Database Item Table)

/-! ### Names -/

/-- The tables of a registry. -/
inductive TableId where
  | accounts
  | logins
  | misc
  | tombstones
  | retries
  deriving DecidableEq

/-- The partition attribute of a table. -/
def TableId.partition : TableId → String
  | .accounts | .tombstones | .retries => Row.uuidName
  | .logins => Row.loginName
  | .misc => Row.parameterName

/-- The tables in the order of the layout. -/
def TableId.all : List TableId := [.accounts, .logins, .misc, .tombstones, .retries]

namespace TableNames

/-- The name of a table. -/
def name (n : TableNames) : TableId → String
  | .accounts => n.accounts
  | .logins => n.logins
  | .misc => n.misc
  | .tombstones => n.tombstones
  | .retries => n.retries

/-- Accepted table names are different. -/
theorem name_injective {n : TableNames} (h : n.validate = .ok ()) : Function.Injective n.name := by
  obtain ⟨-, hnodup⟩ := validate_eq_ok_iff.mp h
  have hnames : n.names = TableId.all.map n.name := rfl
  have hall : ∀ i, i ∈ TableId.all := by
    intro i
    cases i <;> decide
  rw [hnames] at hnodup
  exact fun i j hij => List.inj_on_of_nodup_map hnodup (hall i) (hall j) hij

end TableNames

/-! ### Contents -/

/-- The items of a table by key. -/
abbrev Rows := SortedMap AttributeValue Item

/-- The items of each of the tables. -/
abbrev Tables := TableId → Rows

namespace Tables

/-- No items at all. -/
def empty : Tables := fun _ => .empty

/-- The tables with other items in one of them. -/
def set (t : Tables) (i : TableId) (rows : Rows) : Tables := fun j => if j = i then rows else t j

@[simp] theorem set_self (t : Tables) (i : TableId) (rows : Rows) : t.set i rows i = rows := by
  simp [set]

@[simp] theorem set_ne (t : Tables) {i j : TableId} (h : j ≠ i) (rows : Rows) :
    t.set i rows j = t j := by
  simp [set, h]

/-- The items that a table gets last count. -/
theorem set_set (t : Tables) (i : TableId) (rows rows' : Rows) :
    (t.set i rows).set i rows' = t.set i rows' := by
  funext k
  by_cases hk : k = i
  · rw [hk, set_self, set_self]
  · rw [set_ne _ hk, set_ne t hk, set_ne t hk]

/-- Different tables get their items in any order. -/
theorem set_comm (t : Tables) {i j : TableId} (h : i ≠ j) (rows rows' : Rows) :
    (t.set i rows).set j rows' = (t.set j rows').set i rows := by
  funext k
  by_cases hj : k = j
  · rw [hj, set_self, set_ne _ h.symm, set_self]
  by_cases hi : k = i
  · rw [hi, set_ne _ h, set_self, set_self]
  · rw [set_ne _ hj, set_ne t hi, set_ne _ hi, set_ne t hj]

theorem get?_set_insert (t : Tables) {i j : TableId} {key key' : AttributeValue} {row : Item} :
    (t.set i ((t i).insert key row) j).get? key'
      = if j = i ∧ key' = key then some row else (t j).get? key' := by
  by_cases hj : j = i
  · subst hj
    simp only [set_self, SortedMap.get?_insert_eq, true_and]
  · rw [set_ne t hj, if_neg fun h => hj h.1]

theorem get?_set_erase (t : Tables) {i j : TableId} {key key' : AttributeValue} :
    (t.set i ((t i).erase key) j).get? key'
      = if j = i ∧ key' = key then none else (t j).get? key' := by
  by_cases hj : j = i
  · subst hj
    simp only [set_self, SortedMap.get?_erase_eq, true_and]
  · rw [set_ne t hj, if_neg fun h => hj h.1]

end Tables

namespace TableNames

variable (n : TableNames)

/-- The database of the five tables. -/
def database (t : Tables) : Database :=
  SortedMap.ofList (TableId.all.map fun i => (n.name i, { partition := i.partition, items := t i }))

section valid

variable {n} (hn : Function.Injective n.name)

include hn

theorem get?_database (t : Tables) (i : TableId) :
    (n.database t).get? (n.name i) = some { partition := i.partition, items := t i } := by
  cases i <;>
    simp [database, TableId.all, SortedMap.ofList, Std.LawfulEqCmp.compare_eq_iff_eq, hn.eq_iff]

omit hn in
theorem get?_database_of_ne (t : Tables) {name : String} (h : ∀ i, name ≠ n.name i) :
    (n.database t).get? name = none := by
  simp [database, TableId.all, SortedMap.ofList, Std.LawfulEqCmp.compare_eq_iff_eq, h]

theorem insert_database (t : Tables) (i : TableId) (rows : Rows) :
    (n.database t).insert (n.name i) { partition := i.partition, items := rows }
      = n.database (t.set i rows) := by
  apply SortedMap.ext_get?
  intro name
  -- Either one of the five tables is looked up or no table at all.
  by_cases h : ∃ j, name = n.name j
  · obtain ⟨j, rfl⟩ := h
    rw [SortedMap.get?_insert_eq, get?_database hn, get?_database hn]
    by_cases hj : j = i
    · subst hj
      simp
    · simp [hj, hn.eq_iff]
  · have hne : ∀ j, name ≠ n.name j := fun j hj => h ⟨j, hj⟩
    rw [SortedMap.get?_insert_ne _ (hne i), get?_database_of_ne _ hne, get?_database_of_ne _ hne]

/-- Tables that are not there yet are added empty. -/
theorem foldl_createTable {l : List TableId} (hl : l.Nodup) {d : Database}
    (hd : ∀ i ∈ l, d.get? (n.name i) = none) :
    l.foldl (fun d i => d.createTable (n.name i) i.partition) d
      = l.foldl (fun d i => d.insert (n.name i) { partition := i.partition }) d := by
  induction l generalizing d with
  | nil => rfl
  | cons i rest ih =>
    obtain ⟨hi, hrest⟩ := List.nodup_cons.mp hl
    have hfresh : d.contains (n.name i) = false := by
      rw [SortedMap.contains, hd i List.mem_cons_self]
      rfl
    simp only [List.foldl_cons, Database.createTable, hfresh, Bool.false_eq_true, if_false]
    refine ih hrest fun j hj => ?_
    -- The tables have different names, so the rest is still not there.
    have hne : j ≠ i := fun h => hi (h ▸ hj)
    rw [SortedMap.get?_insert_ne _ (hn.ne hne)]
    exact hd j (List.mem_cons_of_mem _ hj)

/-- A fresh testbed holds the five tables, all empty. -/
theorem database_ofTables : (Testbed.ofTables n).database = n.database .empty := by
  have hfold := foldl_createTable hn (l := TableId.all) (by decide) (d := .empty)
    fun i _ => SortedMap.get?_empty _
  have hlayout : Registry.layout n = TableId.all.map fun i => (n.name i, i.partition) := rfl
  rw [database, SortedMap.ofList, List.foldl_map, Testbed.ofTables, Testbed.createTables, hlayout,
    List.foldl_map]
  dsimp only
  exact hfold

end valid

end TableNames

/-! ### Requests -/

namespace TableNames

variable {n : TableNames} (hn : Function.Injective n.name) (t : Tables) (i : TableId)
  {key : AttributeValue}

include hn

theorem table_database : (n.database t).table (n.name i)
    = .ok { partition := i.partition, items := t i } := by
  rw [Database.table, get?_database hn]

/-- A put stores its item, or is refused and reports the stored one if it is asked to. -/
theorem put_database {q : Store.Put} (hq : q.table = n.name i)
    (hkey : q.item.get? i.partition = some key) :
    (n.database t).put q =
      if Condition.permits q.condition ((t i).get? key) then
        .ok (n.database (t.set i ((t i).insert key q.item)))
      else .error (.conditionFailed q.table (if q.returnOld then (t i).get? key else none)) := by
  rw [Database.put_eq_edit, hq, Database.edit_of_some (get?_database hn t i) hkey, ← hq]
  simp only [Table.put, hq, insert_database hn]

/-- An update changes the stored item or starts one from its key. -/
theorem update_database {q : Store.Update} (hq : q.table = n.name i)
    (hkey : q.key.get? i.partition = some key) :
    (n.database t).update q =
      if Condition.permits q.condition ((t i).get? key) then
        .ok (n.database (t.set i ((t i).insert key ((((t i).get? key).getD q.key).union q.set))))
      else .error (.conditionFailed q.table none) := by
  rw [Database.update_eq_edit, hq, Database.edit_of_some (get?_database hn t i) hkey, ← hq]
  simp only [Table.put, hq, insert_database hn]
  rfl

/-- A delete removes the item under its key. -/
theorem delete_database {q : Store.Delete} (hq : q.table = n.name i)
    (hkey : q.key.get? i.partition = some key) :
    (n.database t).delete q =
      if Condition.permits q.condition ((t i).get? key) then
        .ok (n.database (t.set i ((t i).erase key)))
      else .error (.conditionFailed q.table none) := by
  rw [Database.delete_eq_edit, hq, Database.edit_of_some (get?_database hn t i) hkey, ← hq]
  simp only [Table.delete, hq, insert_database hn]
  rfl

/-- A read finds the item under its key. -/
theorem get_database {q : Store.Get} (hq : q.table = n.name i)
    (hkey : q.key.get? i.partition = some key) :
    (n.database t).get q = .ok ((t i).get? key) := by
  simp only [Database.get, hq, table_database hn, Table.keyOf, hkey, bind, Except.bind, pure,
    Except.pure]

/-- A paged read goes on after the key that it starts from. -/
theorem scan_database (limit : Nat) (start : Option AttributeValue) :
    (n.database t).scan
        { table := n.name i, limit := limit, start := start.map (Item.key i.partition) }
      = .ok (({ partition := i.partition, items := t i } : Table).page (max limit 1) start) :=
  Database.scan_of_some (get?_database hn t i) limit start

end TableNames

end LoginRegistry
