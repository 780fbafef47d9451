import LoginRegistry.Proofs.Registry.Resending
import LoginRegistry.Proofs.Registry.Rows
import LoginRegistry.Proofs.Store.Parting
import Mathlib.Data.List.Perm.Subperm
import Mathlib.Data.Set.List

/-! # Removing queue entries

    What becomes of a queue when some removals of a list of ids are applied and others are
    not.  An id can be listed twice, so the removals are counted.

    * `Removes`: the removals but for some were applied.
    * `Emptied`: the entries that are gone, and those that are still there.  It follows
      for a queue that is there and keyed on ids (`Removes.emptied`).
-/

namespace LoginRegistry

open Store (AttributeValue Database Item Table Write Writes)

namespace Queue

variable {q : Queue} {us vs rest held : List Uuid} {d d' d'' : Database} {t : Table}

/-! ### Removals -/

theorem deletion_injective (q : Queue) : Function.Injective q.deletion := by
  intro u v h
  exact Row.uuidKey_inj.mp (Write.delete.inj (Prod.mk.inj h).2)

/-- Removals in two parts are the removals of two parts of the ids. -/
theorem exists_of_perm_map {writes others : List (String × Write)}
    (h : (writes ++ others).Perm (us.map q.deletion)) :
    ∃ vs rest : List Uuid, writes = vs.map q.deletion ∧ others = rest.map q.deletion ∧
      (vs ++ rest).Perm us := by
  have hrange : writes ++ others ∈ Set.range (List.map q.deletion) := by
    rw [Set.range_list_map]
    intro e he
    obtain ⟨u, -, hu⟩ := List.mem_map.mp (h.mem_iff.mp he)
    exact ⟨u, hu⟩
  obtain ⟨all, hall⟩ := hrange
  obtain ⟨vs, rest, rfl, rfl, rfl⟩ := List.map_eq_append_iff.mp hall
  rw [← List.map_append] at h
  exact ⟨vs, rest, rfl, rfl, (List.map_perm_map_iff q.deletion_injective).mp h⟩

/-- The removals of the ids but for those of `rest` were applied, in some order. -/
def Removes (q : Queue) (us rest : List Uuid) (d d' : Database) : Prop :=
  ∃ removed : List Uuid, (removed ++ rest).Perm us ∧
    d' = (removed.map q.deletion).foldl Database.applyWrite d

namespace Removes

theorem refl (us : List Uuid) (d : Database) : q.Removes us us d d := ⟨[], .refl us, rfl⟩

/-- What was left is removed in turn. -/
theorem trans (h : q.Removes us rest d d') (h' : q.Removes rest held d' d'') :
    q.Removes us held d d'' := by
  obtain ⟨removed, hremoved, rfl⟩ := h
  obtain ⟨more, hmore, rfl⟩ := h'
  refine ⟨removed ++ more, ?_, by rw [List.map_append, List.foldl_append]⟩
  rw [List.append_assoc]
  exact (hmore.append_left removed).trans hremoved

/-- Other ids are removed in turn. -/
theorem append (h : q.Removes us rest d d') (h' : q.Removes vs held d' d'') :
    q.Removes (us ++ vs) (rest ++ held) d d'' := by
  obtain ⟨removed, hremoved, rfl⟩ := h
  obtain ⟨more, hmore, rfl⟩ := h'
  refine ⟨removed ++ more, ?_, by rw [List.map_append, List.foldl_append]⟩
  refine List.Perm.trans ?_ (hremoved.append hmore)
  rw [List.append_assoc, List.append_assoc]
  exact (List.perm_append_comm_assoc more rest held).append_left removed

theorem subperm (h : q.Removes us rest d d') : rest.Subperm us := by
  obtain ⟨removed, hremoved, -⟩ := h
  exact (List.sublist_append_right removed rest).subperm.trans hremoved.subperm

end Removes

/-! ### Entries -/

/-- The entry of a queue under a key. -/
def row? (q : Queue) (d : Database) (key : AttributeValue) : Option Item :=
  (d.get? q.table).bind fun t => t.items.get? key

/-- Just the entries of some ids are gone, and of these ids those that `rest` has as often are
    still there. -/
structure Emptied (q : Queue) (us rest : List Uuid) (d d' : Database) : Prop where
  /-- What is left are some of the ids. -/
  subperm : rest.Subperm us
  /-- No other table has changed. -/
  others : ∀ name, name ≠ q.table → d'.get? name = d.get? name
  /-- An entry that is not listed is as before. -/
  unlisted : ∀ key, (∀ u ∈ us, key ≠ Row.uuidValue u) → q.row? d' key = q.row? d key
  /-- A listed entry is gone unless all its removals are left, and then it is as before. -/
  listed : ∀ u ∈ us, q.row? d' (Row.uuidValue u)
    = if rest.count u = us.count u then q.row? d (Row.uuidValue u) else none

section table

variable (htable : d.get? q.table = some t) (hkey : t.partition = Row.uuidName)

include htable hkey

theorem get?_foldl_deletion (us : List Uuid) :
    ((us.map q.deletion).foldl Database.applyWrite d).get? q.table
      = some { t with items := (us.map Row.uuidValue).foldl SortedMap.erase t.items } := by
  induction us generalizing d t with
  | nil => exact htable
  | cons u us ih =>
    have hvalue : (q.deletion u).2.item.get? t.partition = some (Row.uuidValue u) := by
      rw [hkey]
      exact Row.uuid_uuidKey u
    have hfirst : (d.applyWrite (q.deletion u)).get? q.table
        = some { t with items := t.items.erase (Row.uuidValue u) } := by
      have hdeletion : d.get? (q.deletion u).1 = some t := htable
      simp only [Database.applyWrite, hdeletion, Table.apply, hvalue]
      exact SortedMap.get?_insert_self d q.table _
    rw [List.map_cons, List.foldl_cons, ih hfirst hkey, List.map_cons, List.foldl_cons]

omit htable hkey in
theorem get?_foldl_deletion_ne {name : String} (hname : name ≠ q.table) (us : List Uuid)
    (d : Database) : ((us.map q.deletion).foldl Database.applyWrite d).get? name = d.get? name := by
  induction us generalizing d with
  | nil => rfl
  | cons u us ih =>
    rw [List.map_cons, List.foldl_cons, ih, Database.applyWrite]
    split
    · exact SortedMap.get?_insert_ne d hname _
    · rfl

/-- A queue stays a table of ids. -/
theorem Removes.table (h : q.Removes us rest d d') :
    ∃ t', d'.get? q.table = some t' ∧ t'.partition = Row.uuidName := by
  obtain ⟨removed, -, rfl⟩ := h
  exact ⟨_, get?_foldl_deletion htable hkey removed, hkey⟩

theorem Removes.emptied (h : q.Removes us rest d d') : q.Emptied us rest d d' := by
  have hsubperm := h.subperm
  obtain ⟨removed, hremoved, rfl⟩ := h
  have hentry : ∀ key, q.row? ((removed.map q.deletion).foldl Database.applyWrite d) key
      = if key ∈ removed.map Row.uuidValue then none else q.row? d key := by
    intro key
    rw [row?, row?, get?_foldl_deletion htable hkey, htable]
    exact SortedMap.get?_foldl_erase _ _ _
  refine ⟨hsubperm, fun name hname => get?_foldl_deletion_ne hname removed d, ?_, ?_⟩
  · intro key hunlisted
    rw [hentry, if_neg]
    intro hmem
    obtain ⟨u, hu, rfl⟩ := List.mem_map.mp hmem
    exact hunlisted u (hremoved.mem_iff.mp (List.mem_append_left rest hu)) rfl
  · intro u _
    have hcount := hremoved.count_eq u
    have hmem : Row.uuidValue u ∈ removed.map Row.uuidValue ↔ u ∈ removed :=
      List.mem_map_of_injective fun u v => Row.uuidValue_inj.mp
    rw [List.count_append] at hcount
    rw [hentry]
    by_cases hu : u ∈ removed
    · have hpos := List.count_pos_iff.mpr hu
      rw [if_pos (hmem.mpr hu), if_neg (by omega)]
    · rw [if_neg (mt hmem.mp hu), if_pos]
      rw [← hcount, List.count_eq_zero.mpr hu, Nat.zero_add]

end table

end Queue

end LoginRegistry
