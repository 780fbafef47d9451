import LoginRegistry.Proofs.Store.Atomicity
import Mathlib.Data.List.Induction

/-! # Items under their own keys

    A table is keyed if each item holds the partition attribute with the value under which it is
    stored.  Looking up an item and going on after a page both rely on it.

    * `Call.keyed_perform_iff`: what one call does to a keyed database.  Only an update can spoil
      it, by setting the partition attribute to something else than its key (`Update.Moves`).
    * `Call.keyed_iff_not_moved`: over every run from no tables at all.
-/

namespace LoginRegistry.Store

/-- Each item holds the partition attribute with the value under which it is stored. -/
def Table.Keyed (t : Table) : Prop :=
  ∀ key item, t.items.get? key = some item → item.get? t.partition = some key

/-- Every table is keyed. -/
def Database.Keyed (d : Database) : Prop := ∀ name t, d.get? name = some t → t.Keyed

/-- The update is applied, and it sets the partition attribute to something else than its key. -/
def Update.Moves (r : Update) (d : Database) : Prop :=
  (∃ d', d.update r = .ok d') ∧
    ∃ key value, d.keyOf? r.table r.key = some key ∧ d.keyOf? r.table r.set = some value ∧
      value ≠ key

/-! ### Tables -/

namespace Table

variable {t : Table}

theorem keyed_empty (partition : String) : Table.Keyed { partition := partition } := nofun

/-- A keyed table stays keyed by an item just if that is stored under its own key. -/
theorem keyed_put_iff (h : t.Keyed) (key : AttributeValue) (item : Item) :
    (t.put key item).Keyed ↔ item.get? t.partition = some key := by
  constructor
  · intro hput
    exact hput key item (SortedMap.get?_insert_self t.items key item)
  · intro hitem k i hget
    show i.get? t.partition = some k
    simp only [put, SortedMap.get?_insert_eq] at hget
    split at hget
    · next hk =>
      rw [hk, ← Option.some.inj hget]
      exact hitem
    · exact h k i hget

theorem Keyed.delete (h : t.Keyed) (key : AttributeValue) : (t.delete key).Keyed := by
  intro k i hget
  simp only [Table.delete, SortedMap.get?_erase_eq] at hget
  split at hget
  · cases hget
  · exact h k i hget

theorem Keyed.apply (h : t.Keyed) (w : Write) : (t.apply w).Keyed := by
  unfold Table.apply
  cases hkey : w.item.get? t.partition with
  | none => exact h
  | some key =>
    cases w with
    | put item => exact (keyed_put_iff h key item).mpr hkey
    | delete item => exact h.delete key

end Table

namespace Database

variable {d d' : Database}

theorem keyed_empty : Database.Keyed .empty := nofun

/-- A keyed database stays keyed by a table just if that is keyed. -/
theorem keyed_insert_iff (h : d.Keyed) (name : String) (t : Table) :
    Database.Keyed (d.insert name t) ↔ t.Keyed := by
  constructor
  · intro hinsert
    exact hinsert name t (SortedMap.get?_insert_self d name t)
  · intro ht n t' hget
    rw [SortedMap.get?_insert_eq] at hget
    split at hget
    · rw [← Option.some.inj hget]
      exact ht
    · exact h n t' hget

theorem Keyed.createTable (h : d.Keyed) (name partition : String) :
    (d.createTable name partition).Keyed := by
  unfold Database.createTable
  split
  · exact h
  · exact (keyed_insert_iff h name _).mpr (Table.keyed_empty partition)

theorem keyed_clear (d : Database) : d.clear.Keyed := by
  intro name t hget
  rw [Database.clear, SortedMap.get?_mapValues] at hget
  obtain ⟨t', -, rfl⟩ := Option.map_eq_some_iff.mp hget
  exact Table.keyed_empty t'.partition

/-! ### Requests -/

theorem Keyed.put {r : Put} (h : d.Keyed) (hput : d.put r = .ok d') : d'.Keyed := by
  rw [put_eq_edit] at hput
  obtain ⟨t, key, ht, hkey, -, rfl⟩ := edit_eq_ok_iff.mp hput
  exact (keyed_insert_iff h _ _).mpr ((Table.keyed_put_iff (h _ t ht) key r.item).mpr hkey)

theorem Keyed.delete {r : Delete} (h : d.Keyed) (hdelete : d.delete r = .ok d') : d'.Keyed := by
  rw [delete_eq_edit] at hdelete
  obtain ⟨t, key, ht, -, -, rfl⟩ := edit_eq_ok_iff.mp hdelete
  exact (keyed_insert_iff h _ _).mpr ((h _ t ht).delete key)

theorem Keyed.applyWrite (h : d.Keyed) (e : String × Write) : (d.applyWrite e).Keyed := by
  unfold Database.applyWrite
  cases ht : d.get? e.1 with
  | none => exact h
  | some t => exact (keyed_insert_iff h _ _).mpr ((h _ t ht).apply e.2)

theorem Keyed.bulkWrite {w : Writes} (h : d.Keyed) (hbulk : d.bulkWrite w = .ok d') :
    d'.Keyed := by
  rw [eq_of_bulkWrite hbulk]
  exact List.foldlRecOn _ _ h fun d hd e _ => hd.applyWrite e

/-- An update keeps a keyed database keyed unless it moves an item away from its key. -/
theorem keyed_update_iff {r : Update} (h : d.Keyed) (hupdate : d.update r = .ok d') :
    d'.Keyed ↔ ¬ r.Moves d := by
  rw [update_eq_edit] at hupdate
  obtain ⟨t, key, ht, hkey, -, rfl⟩ := edit_eq_ok_iff.mp hupdate
  have hkeyOf : ∀ item : Item, d.keyOf? r.table item = item.get? t.partition := by
    intro item
    simp [keyOf?, ht]
  -- Before the update the item holds its key, whether it was there or starts out as the key item.
  have hbefore : ((t.items.get? key).getD r.key).get? t.partition = some key := by
    cases hstored : t.items.get? key with
    | none => exact hkey
    | some item => exact h _ t ht key item hstored
  have happlied : ∃ d', d.update r = .ok d' := ⟨_, hupdate⟩
  rw [keyed_insert_iff h, Table.keyed_put_iff (h _ t ht), SortedMap.get?_union, hbefore]
  unfold Update.Moves
  simp only [happlied, hkeyOf, hkey, true_and]
  cases r.set.get? t.partition with
  | none => simp
  | some value => simp

end Database

/-! ### Runs -/

/-- A call of the store: what sets up its tables, and every request. -/
inductive Call where
  /-- Adds an empty table, unless there is one of that name. -/
  | createTable (name partition : String)
  /-- Removes every item. -/
  | clear
  /-- Makes a request. -/
  | send (request : Request)

namespace Call

/-- The database after a call, whatever its answer. -/
def perform (d : Database) : Call → Database
  | .createTable name partition => d.createTable name partition
  | .clear => d.clear
  | .send request => (d.respond request).2

/-- The call is an update that moves an item away from its key. -/
def Moves (d : Database) : Call → Prop
  | .send (.update r) => r.Moves d
  | _ => False

/-- The database after some calls in turn, with no tables to start with. -/
def run (calls : List Call) : Database := calls.foldl perform .empty

/-- A call keeps a keyed database keyed unless it moves an item away from its key. -/
theorem keyed_perform_iff {d : Database} (h : d.Keyed) (call : Call) :
    (call.perform d).Keyed ↔ ¬ call.Moves d := by
  -- Only an applied update can be a move, so of any other call it is to be shown that it keeps.
  have hkeeps : ∀ {call : Call}, ¬ call.Moves d → (call.perform d).Keyed →
      ((call.perform d).Keyed ↔ ¬ call.Moves d) := fun hnot hd => ⟨fun _ => hnot, fun _ => hd⟩
  have hwritten : ∀ result, (∀ d', result = .ok d' → Database.Keyed d') →
      Database.Keyed (d.written result).2 := by
    intro result hresult
    cases result with
    | ok d' => exact hresult d' rfl
    | error e => exact h
  have hlooked : ∀ {α : Type} (result : Except Error α), Database.Keyed (d.looked result).2 := by
    intro α result
    rw [Database.looked_snd]
    exact h
  cases call with
  | createTable name partition => exact hkeeps id (h.createTable name partition)
  | clear => exact hkeeps id (Database.keyed_clear d)
  | send request =>
    cases request with
    | put r => exact hkeeps id (hwritten _ fun _ => h.put)
    | delete r => exact hkeeps id (hwritten _ fun _ => h.delete)
    | get r => exact hkeeps id (hlooked _)
    | scan r => exact hkeeps id (hlooked _)
    | bulkWrite w =>
      refine hkeeps id ?_
      show Database.Keyed (d.respond (.bulkWrite w)).2
      simp only [Database.respond]
      cases hbulk : d.bulkWrite w with
      | ok d' => exact h.bulkWrite hbulk
      | error e => exact h
    | update r =>
      show Database.Keyed (d.written (d.update r)).2 ↔ ¬ r.Moves d
      cases hupdate : d.update r with
      | ok d' => exact Database.keyed_update_iff h hupdate
      | error e =>
        have hnot : ¬ r.Moves d := by
          rintro ⟨⟨d', hok⟩, -⟩
          rw [hupdate] at hok
          cases hok
        exact ⟨fun _ => hnot, fun _ => h⟩

/-- Take any calls of the store, with any arguments and conditions.  Every item is stored under
    its own key in every state on the way just if no call is an update that is applied and sets
    the partition attribute of its table to something else than its key. -/
theorem keyed_iff_not_moved (calls : List Call) :
    (∀ before, before <+: calls → (run before).Keyed) ↔
      ∀ before call, before ++ [call] <+: calls → ¬ call.Moves (run before) := by
  have hrun : ∀ before call, run (before ++ [call]) = call.perform (run before) := by
    intro before call
    simp [run]
  constructor
  · intro hkeyed before call hprefix
    have hbefore := hkeyed before ((List.prefix_append before [call]).trans hprefix)
    have hafter := hkeyed _ hprefix
    rw [hrun] at hafter
    exact (keyed_perform_iff hbefore call).mp hafter
  · intro hmoves before hprefix
    induction before using List.reverseRecOn with
    | nil => exact Database.keyed_empty
    | append_singleton before call ih =>
      have hbefore := ih ((List.prefix_append before [call]).trans hprefix)
      rw [hrun]
      exact (keyed_perform_iff hbefore call).mpr (hmoves before call hprefix)

/-- An update sets the partition attribute.  Its item stays under the key that it no longer holds,
    and a reader who goes on after the first page misses the item that the next key has. -/
theorem update_moves_item :
    let key (value : String) := Item.key "K" (.string value)
    let second := (key "b").insert "N" (.number 1)
    let calls : List Call := [.createTable "t" "K", .send (.put { table := "t", item := key "a" }),
      .send (.put { table := "t", item := second }),
      .send (.update { table := "t", key := key "a", set := key "b" })]
    let d := run calls
    d.item? "t" (.string "a") = some (key "b") ∧ ¬ Database.Keyed d ∧
      d.scan { table := "t", limit := 1 } = .ok ⟨[key "b"], some (key "b")⟩ ∧
      d.scan { table := "t", limit := 1, start := some (key "b") } = .ok ⟨[], none⟩ ∧
      d.item? "t" (.string "b") = some second := by
  intro key second calls d
  have hmoved : d.item? "t" (.string "a") = some (key "b") := by
    unfold d calls second key
    decide +kernel
  refine ⟨hmoved, ?_, ?_, ?_, ?_⟩
  · intro hkeyed
    obtain ⟨t, ht, hitem⟩ := Option.bind_eq_some_iff.mp hmoved
    have hpartition : (d.get? "t").map Table.partition = some "K" := by
      unfold d calls second key
      decide +kernel
    rw [ht, Option.map_some, Option.some.injEq] at hpartition
    have hown := hkeyed "t" t ht _ _ hitem
    rw [hpartition] at hown
    revert hown
    unfold key
    decide +kernel
  all_goals
    unfold d calls second key
    decide +kernel

end Call

end LoginRegistry.Store
