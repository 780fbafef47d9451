import LoginRegistry.Proofs.SortedMap
import LoginRegistry.Store.Database

/-! # Writes in bulk

    Grouping writes by table, and leaving out tables without writes, neither adds, changes
    nor loses a write.  Grouping can reorder them (`perm_flatten_ofFlat`), and leaving out
    tables without writes does not even do that (`flatten_compact`).
-/

namespace LoginRegistry.Store.Writes

theorem mem_flatten {w : Writes} {e : String × Write} :
    e ∈ w.flatten ↔ ∃ writes, (e.1, writes) ∈ w.toList ∧ e.2 ∈ writes := by
  simp only [flatten, List.mem_flatMap, List.mem_map]
  constructor
  · rintro ⟨⟨table, writes⟩, htable, write, hwrite, rfl⟩
    exact ⟨writes, htable, hwrite⟩
  · rintro ⟨writes, htable, hwrite⟩
    exact ⟨(e.1, writes), htable, e.2, hwrite, rfl⟩

/-! ### Tables without writes -/

/-- Each table has a write. -/
def Full (w : Writes) : Prop := ∀ e ∈ w.toList, e.2 ≠ []

theorem full_compact (w : Writes) : w.compact.Full := by
  intro e he hnil
  have hwrites := (List.mem_filter.mp he).2
  rw [hnil] at hwrites
  cases hwrites

theorem flatten_compact (w : Writes) : w.compact.flatten = w.flatten := by
  unfold flatten compact SortedMap.filterValues
  dsimp only
  induction w.toList with
  | nil => rfl
  | cons e l ih =>
    rw [List.flatMap_cons, ← ih]
    by_cases he : e.2.isEmpty = true
    · rw [List.filter_cons_of_neg (by simp [he]), List.isEmpty_iff.mp he]
      rfl
    · rw [List.filter_cons_of_pos (by simp [he]), List.flatMap_cons]

/-- Once the tables without writes are left out, no table is left just if there is no
    write. -/
theorem isEmpty_compact {w : Writes} : w.compact.isEmpty = true ↔ w.flatten = [] := by
  constructor
  · intro h
    rw [← flatten_compact, flatten, List.isEmpty_iff.mp h, List.flatMap_nil]
  · intro h
    refine List.isEmpty_iff.mpr (List.filter_eq_nil_iff.mpr fun e he hwrites => ?_)
    -- A table that is left has a first write.
    cases hlist : e.2 with
    | nil => simp [hlist] at hwrites
    | cons write writes =>
      have hmem : (e.1, write) ∈ w.flatten := mem_flatten.mpr ⟨e.2, he, by simp [hlist]⟩
      rw [h] at hmem
      cases hmem

theorem flatten_ne_nil_of_isEmpty_compact {w : Writes} (h : w.compact.isEmpty = false) :
    w.flatten ≠ [] := by
  intro hnil
  rw [isEmpty_compact.mpr hnil] at h
  cases h

/-! ### Grouping -/

/-- Writes added at the end of a table's list come somewhere among the others. -/
theorem perm_flatten_append (w : Writes) (table : String) (writes : List Write) :
    (w.append table writes).flatten.Perm (w.flatten ++ writes.map (table, ·)) := by
  unfold flatten append SortedMap.insert SortedMap.get?
  dsimp only
  have hsorted := w.sorted
  generalize w.toList = l at hsorted ⊢
  -- The list of the table is found where the entry is put.
  induction l with
  | nil => simp [SortedMap.insertEntry]
  | cons e l ih =>
    obtain ⟨hfirst, hrest⟩ := List.pairwise_cons.mp hsorted
    rw [SortedMap.insertEntry]
    cases hcompare : compare table e.1 with
    | lt =>
      have hnone : (e :: l).find? (fun e => compare table e.1 == .eq) = none := by
        refine List.find?_eq_none.mpr fun d hd => ?_
        have hlt : compare table d.1 = .lt := by
          rcases List.mem_cons.mp hd with rfl | hd
          · exact hcompare
          · exact Std.TransCmp.lt_trans hcompare (hfirst d hd)
        simp [hlt]
      rw [hnone]
      simp only [Option.map_none, Option.getD_none, List.nil_append, List.flatMap_cons]
      exact List.perm_append_comm
    | eq =>
      obtain rfl := Std.LawfulEqCmp.eq_of_compare hcompare
      simp only [List.find?_cons, hcompare, beq_self_eq_true, Option.map_some, Option.getD_some,
        List.flatMap_cons, List.map_append, List.append_assoc]
      exact List.perm_append_comm.append_left _
    | gt =>
      have hne : (compare table e.1 == .eq) = false := by simp [hcompare]
      simp only [List.find?_cons, hne, List.flatMap_cons, List.append_assoc]
      exact (ih hrest).append_left _

/-- Writes grouped by table are the writes given, each as often. -/
theorem perm_flatten_ofFlat (l : List (String × Write)) : (ofFlat l).flatten.Perm l := by
  have hfold : ∀ w : Writes,
      (l.foldl (fun w e => append w e.1 [e.2]) w).flatten.Perm (w.flatten ++ l) := by
    induction l with
    | nil => exact fun w => by simp
    | cons e l ih =>
      intro w
      rw [List.foldl_cons]
      refine (ih _).trans ?_
      have hfirst := (perm_flatten_append w e.1 [e.2]).append_right l
      rwa [List.append_assoc] at hfirst
  exact hfold .empty

theorem mem_of_mem_ofFlat {l : List (String × Write)} {e : String × Write}
    (h : e ∈ (ofFlat l).flatten) : e ∈ l := (perm_flatten_ofFlat l).mem_iff.mp h

theorem full_ofFlat (l : List (String × Write)) : (ofFlat l).Full := by
  refine List.foldlRecOn (motive := Full) l _ (fun _ => nofun) fun w hw e _ d hd => ?_
  rcases SortedMap.mem_insertEntry hd with rfl | hd
  · simp
  · exact hw d hd

end LoginRegistry.Store.Writes

namespace LoginRegistry.Store.Database

/-! ### Applying -/

theorem forM_eq_ok {f : α → Except ε PUnit} {l : List α} (h : ∀ a ∈ l, f a = .ok ⟨⟩) :
    l.forM f = .ok ⟨⟩ := by
  induction l with
  | nil => rfl
  | cons a l ih =>
    obtain ⟨ha, hl⟩ := List.forall_mem_cons.mp h
    rw [List.forM, ha]
    exact ih hl

/-- A bulk request of not too many writes is applied if its tables are there and the writes
    hold their partition attributes. -/
theorem bulkWrite_eq_ok {d : Database} {w : Writes} (hlower : 1 ≤ w.count)
    (hupper : w.count ≤ maxBulkWrites)
    (htables : ∀ e ∈ w.toList, ∃ t, d.get? e.1 = some t ∧
      ∀ write ∈ e.2, (write.item.get? t.partition).isSome = true) :
    d.bulkWrite w = .ok (w.flatten.foldl applyWrite d) := by
  have hcount : ¬(w.count = 0 ∨ maxBulkWrites < w.count) := by omega
  have hcheck : (w.toList.forM fun e => d.checkWrites e.1 e.2) = .ok () := by
    refine forM_eq_ok fun e he => ?_
    obtain ⟨t, htable, hkeys⟩ := htables e he
    rw [checkWrites, table, htable]
    refine forM_eq_ok fun write hwrite => ?_
    obtain ⟨key, hkey⟩ := Option.isSome_iff_exists.mp (hkeys write hwrite)
    simp only [Table.keyOf, hkey]
    rfl
  simp only [bulkWrite, if_neg hcount, hcheck]
  rfl

/-- A bulk request that is not refused is applied as a whole. -/
theorem eq_of_bulkWrite {d d' : Database} {w : Writes} (h : d.bulkWrite w = .ok d') :
    d' = w.flatten.foldl applyWrite d := by
  unfold bulkWrite at h
  split at h
  · cases h
  · cases hcheck : w.toList.forM fun e => d.checkWrites e.1 e.2 with
    | error e =>
      rw [hcheck] at h
      cases h
    | ok _ =>
      rw [hcheck] at h
      exact (Except.ok.inj h).symm

end LoginRegistry.Store.Database
