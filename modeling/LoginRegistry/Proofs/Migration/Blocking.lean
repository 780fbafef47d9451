import LoginRegistry.Proofs.Migration.Reconciling
import Mathlib.Data.List.TakeWhile

/-! # A row that cannot be read blocks a sweep

    A sweep takes the tombstones in the order of their keys, and a delete that fails ends
    it.  So it gets as far as the first row that cannot be read, and reports that
    (`reconcile_stops_at_unreadable`).  The accounts after it are not reached, whether
    their rows can be read or not (`reconcile_blocked`).
-/

namespace LoginRegistry

open Store (Database)

namespace Tables

/-- The row of the account can be read, or there is none. -/
def isReadable (t : Tables) (u : Uuid) : Bool := (t.deletion u).isOk

variable {t : Tables} {us before : List Uuid} {u : Uuid} {e : RegistryError}

theorem isReadable_of_deletion (h : t.deletion u = .ok ()) : t.isReadable u = true := by
  rw [isReadable, h]
  rfl

theorem not_isReadable_of_deletion (h : t.deletion u = .error e) : ¬ t.isReadable u = true := by
  rw [isReadable, h]
  exact nofun

/-- The accounts before the first row that cannot be read. -/
theorem Blocked.takeWhile_eq (h : t.Blocked us before u e) :
    us.takeWhile t.isReadable = before := by
  obtain ⟨after, rfl⟩ := h.split
  rw [List.takeWhile_append_of_pos fun v hv => isReadable_of_deletion (h.readable v hv),
    List.takeWhile_cons_of_neg (not_isReadable_of_deletion h.unreadable), List.append_nil]

theorem Blocked.getElem?_eq (h : t.Blocked us before u e) : us[before.length]? = some u := by
  obtain ⟨after, rfl⟩ := h.split
  rw [List.getElem?_append_right (Nat.le_refl _), Nat.sub_self, List.getElem?_cons_zero]

end Tables

namespace Registry

/-- A sweep stops at the first row that cannot be read.  Take any tables whose tombstones can be
    listed, and the ids of the tombstones in the order of their keys.  A sweep that nothing
    befalls reaches those before the first one whose row cannot be read, unless the largest page
    of the tombstones cannot be drained.

    * It deletes the accounts that it reaches: their rows are gone, and so are the logins that
      they have had last.  Everything else but tombstones is as before.
    * If it reaches all, it succeeds and leaves no tombstone.
    * If not, it fails with the error of the row that it does not get past.  The tombstones of
      the full pages that it has reached are gone, all others are left. -/
theorem reconcile_stops_at_unreadable {config : Config} {r : Registry} (h : ofConfig config = .ok r)
    {t : Tables} (hkeyed : t.KeyedOnIds .tombstones) (hfits : t.PageFits config) {ids : List Uuid}
    (hids : ids.map Row.uuidValue = (t .tombstones).keys) :
    let pageSize := config.migration.reconcilePageSize.toNat
    let reached := ids.takeWhile t.isReadable
    let run := r.reconcile.run Database.handler (config.tables.database t)
    ∃ t', run.state = config.tables.database t' ∧ t.Reconciled (· ∈ reached) t' ∧
      match ids[reached.length]? with
      | none => run.result = some (.ok ids.length) ∧ t' .tombstones = .empty
      | some u => ∃ e, t.deletion u = .error e ∧ run.result = some (.error (.reconcile e)) ∧
        ∀ v, t'.Tombstoned v ↔ v ∈ ids.drop (reached.length / pageSize * pageSize) := by
  have hsize := one_le_reconcilePageSize_of_ofConfig h
  obtain ⟨rfl, -, hbulk⟩ := validate_of_ofConfig h
  obtain ⟨-, hr⟩ := name_injective_of_ofConfig h
  intro pageSize reached run
  obtain ⟨t', hstate, hpost⟩ := Script.run_of_within (TableNames.obeys_database hr .calm)
    (within_reconcile_exact hr hbulk hsize hkeyed hids) rfl
  refine ⟨t', hstate, ?_⟩
  rcases hpost with
    ⟨-, hreadable, hresult, ht', hempty⟩ | ⟨hlarge, -⟩ |
      ⟨before, u, e, hblocked, hresult, ht', hleft⟩
  · have hall : reached = ids := List.takeWhile_eq_self_iff.mpr fun u hu =>
      Tables.isReadable_of_deletion (hreadable u hu)
    rw [hall, List.getElem?_eq_none (Nat.le_refl _)]
    exact ⟨ht', hresult, hempty⟩
  · exact absurd hfits hlarge
  · have hbefore : reached = before := hblocked.takeWhile_eq
    rw [hbefore, hblocked.getElem?_eq]
    exact ⟨ht', e, hblocked.unreadable, hresult, fun v => Tables.tombstoned_iff_mem hleft⟩

/-- Three tombstones on pages of one; the row of the second account has no login. -/
theorem reconcile_stops_at_second :
    let a : Account := ⟨⟨.replicate 16 1, rfl⟩, "+1", 1, {}⟩
    let b : Uuid := ⟨.replicate 16 2, rfl⟩
    let c : Account := ⟨⟨.replicate 16 3, rfl⟩, "+3", 1, {}⟩
    let t := (((((Tables.empty.register a).setAccount b (Row.uuidKey b)).register c).bury
      a.uuid).bury b).bury c.uuid
    let ids := [a.uuid, b, c.uuid]
    let config : Config := { migration := { reconcilePageSize := 1 } }
    let r : Registry := ⟨config⟩
    Registry.ofConfig config = .ok r ∧ t.KeyedOnIds .tombstones ∧ t.PageFits config ∧
      ids.map Row.uuidValue = (t .tombstones).keys ∧
      let pageSize := config.migration.reconcilePageSize.toNat
      let reached := ids.takeWhile t.isReadable
      let run := r.reconcile.run Database.handler (config.tables.database t)
      reached = [a.uuid] ∧
      ∃ t', run.state = config.tables.database t' ∧ t.Reconciled (· ∈ reached) t' ∧
        match ids[reached.length]? with
        | none => run.result = some (.ok ids.length) ∧ t' .tombstones = .empty
        | some u => ∃ e, t.deletion u = .error e ∧ run.result = some (.error (.reconcile e)) ∧
          ∀ v, t'.Tombstoned v ↔ v ∈ ids.drop (reached.length / pageSize * pageSize) := by
  intro a b c t ids config r
  have hconfig : Registry.ofConfig config = .ok r := rfl
  have hkeyed : t.KeyedOnIds .tombstones := by
    refine .bury (.bury (.bury (fun key row hkey => ?_) _) _) _
    change SortedMap.empty.get? key = some row at hkey
    rw [SortedMap.get?_empty] at hkey
    cases hkey
  have hfits : t.PageFits config := .of_pageSize (by decide) t
  have hids : ids.map Row.uuidValue = (t .tombstones).keys := by
    unfold ids t a b c
    decide +kernel
  have hreached : ids.takeWhile t.isReadable = [a.uuid] := by
    unfold ids t a b c
    decide +kernel
  exact ⟨hconfig, hkeyed, hfits, hids, hreached,
    reconcile_stops_at_unreadable hconfig hkeyed hfits hids⟩

/-- An account whose row can be read, after one whose row cannot: the sweep leaves its row and its
    tombstone. -/
theorem reconcile_blocked :
    let b : Uuid := ⟨.replicate 16 1, rfl⟩
    let a : Account := ⟨⟨.replicate 16 2, rfl⟩, "+2", 1, {}⟩
    let t := (((Tables.empty.setAccount b (Row.uuidKey b)).register a).bury b).bury a.uuid
    let r : Registry := ⟨{}⟩
    let run := r.reconcile.run Database.handler (({} : Config).tables.database t)
    Registry.ofConfig {} = .ok r ∧ t.isReadable b = false ∧ t.isReadable a.uuid = true ∧
      t.accountRow? a.uuid = some (Row.ofAccount a) ∧ t.Tombstoned a.uuid ∧
      run.state.items "accounts" = [Row.uuidKey b, Row.ofAccount a] ∧
      run.state.items "migration_deleted_accounts" = [Row.uuidKey b, Row.uuidKey a.uuid] := by
  intro b a t r run
  have htombstoned : t.Tombstoned a.uuid := Tables.tombstoned_bury.mpr (.inl rfl)
  have hrow : t.accountRow? a.uuid = some (Row.ofAccount a) :=
    Tables.accountRow?_register.trans (if_pos rfl)
  have hreadable : t.isReadable b = false ∧ t.isReadable a.uuid = true := by
    unfold t a b
    decide +kernel
  refine ⟨rfl, hreadable.1, hreadable.2, hrow, htombstoned, ?_⟩
  unfold run r t a b
  decide +kernel

end Registry

end LoginRegistry
