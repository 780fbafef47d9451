import LoginRegistry.Proofs.Registry.Writing

/-! # The guard of a migration and the version of a read

    A row without a version attribute is read with version 0.  The guard of a migration
    compares the attribute itself, and an attribute that is missing is below no version.
    So the guard goes by the version that is read as long as there is an attribute, or
    version 0 would be refused as well (`migration_guard_iff`).
-/

namespace LoginRegistry

open Store (AttributeValue Condition Database Item)

/-! ### Versions of rows -/

theorem Int64.toInt64_toInt32 {n : Int64} (hmin : Int32.minValue.toInt ≤ n.toInt)
    (hmax : n.toInt ≤ Int32.maxValue.toInt) : n.toInt32.toInt64 = n := by
  have hlow : Int32.minValue.toInt = -2147483648 := rfl
  have hhigh : Int32.maxValue.toInt = 2147483647 := rfl
  apply Int64.toInt_inj.mp
  rw [Int32.toInt_toInt64, Int64.toInt_toInt32]
  apply Int.bmod_eq_of_le
  · omega
  · omega

namespace Row

/-- The version attribute of a row that is read with a version. -/
theorem get?_versionName_of_version? {row : Item} {version : Int32}
    (h : version? row = some version) :
    row.get? versionName = none ∧ version = 0 ∨
      row.get? versionName = some (.number version.toInt64) := by
  unfold version? at h
  split at h
  · next hmissing =>
    left
    exact ⟨hmissing, (Option.some.inj h).symm⟩
  · next n hnumber =>
    right
    split at h
    · next hrange =>
      obtain rfl := Option.some.inj h
      rw [hnumber, Int64.toInt64_toInt32 hrange.1 hrange.2]
    · cases h
  · cases h

/-- The row of an account of version 0 is read the same without its version attribute. -/
theorem account_erase_versionName {a : Account} (h : a.migrationVersion = 0) :
    account ((ofAccount a).erase versionName) = .ok a := by
  have hother : ∀ name, name ≠ versionName →
      ((ofAccount a).erase versionName).get? name = (ofAccount a).get? name := by
    intro name hne
    rw [SortedMap.get?_erase_eq, if_neg hne]
  have hversion : version? ((ofAccount a).erase versionName) = some a.migrationVersion := by
    rw [version?, SortedMap.get?_erase_eq, if_pos rfl, h]
  have hfull := account_ofAccount a
  unfold account uuid login? at hfull ⊢
  rw [hversion]
  rw [version?_ofAccount] at hfull
  rw [hother _ (by decide), hother _ (by decide), hother _ (by decide)]
  exact hfull

/-- The guard of a migration passes a row that is read as an account if the row has a
    version attribute and the account a lower version. -/
theorem permits_migrate_of_account {row : Item} {b : Account} (h : account row = .ok b)
    (version : Int32) :
    Condition.permits (some (.or (.absent uuidName)
        (.lessThan versionName (.number version.toInt64)))) (some row)
      = decide (row.get? versionName ≠ none ∧ b.migrationVersion < version) := by
  obtain ⟨huuid, -, hversion⟩ := read_of_account h
  have hkey := uuid_eq_ok_iff.mp huuid
  simp only [Condition.permits, Option.all_some, Condition.holds, Store.attribute?,
    Option.bind_some, hkey, Option.isNone_some, Bool.false_or]
  rcases get?_versionName_of_version? hversion with ⟨hmissing, -⟩ | hnumber
  · simp [hmissing]
  · rw [hnumber, Bool.eq_iff_iff, Option.any_some, decide_eq_true_iff]
    simp only [AttributeValue.lessThan, beq_iff_eq, Std.compare_eq_lt, Int32.toInt64_lt]
    simp

end Row

/-! ### Guards and reads -/

namespace Registry

variable {r : Registry} {t : Tables}

section valid

variable (hr : Function.Injective r.config.tables.name)

include hr

/-- An account is found if it has a row that is read as the account. -/
theorem result_getByUuid_iff {u : Uuid} {b : Account} :
    ((r.getByUuid u).run.run Database.handler (r.config.tables.database t)).result
        = some (.ok (some b)) ↔
      ∃ row, t.accountRow? u = some row ∧ Row.account row = .ok b := by
  have hget : (r.getByUuid u).Within (r.config.tables.behaviour .calm) t
      (fun found _ => found = some b ↔ ∃ row, t.accountRow? u = some row ∧ Row.account row = .ok b)
      fun _ _ => ∃ row e, t.accountRow? u = some row ∧ Row.account row = .error e := by
    apply Action.within_timed
    apply within_accounts_get hr
    · intro hnone
      simp [hnone]
    · intro row a hrow ha
      simp [hrow, ha]
    · exact fun row e hrow he => ⟨row, e, hrow, he⟩
    · exact fun _ _ _ hm _ => (Exposure.not_calm hm).elim
  obtain ⟨_, -, hpost⟩ := Script.run_of_within (TableNames.obeys_database hr .calm) hget rfl
  split at hpost
  · next found hresult =>
    rw [hresult]
    simpa using hpost
  · next e hresult =>
    obtain ⟨row, e, hrow, he⟩ := hpost
    simp [hresult, hrow, he]
  · next hresult =>
    obtain ⟨row, e, hrow, he⟩ := hpost
    simp [hresult, hrow, he]

/-- A migration of a row that nothing befalls does what its guard says. -/
theorem run_accounts_migrate (a : Account) (t : Tables) :
    let run := (r.accounts.migrate a).run.run Database.handler (r.config.tables.database t)
    run.result = some (.ok (t.precedes a)) ∧
      run.state = r.config.tables.database (if t.precedes a then t.putAccount a else t) := by
  have hmigrate : (r.accounts.migrate a).Within (r.config.tables.behaviour .calm) t
      (fun applied t' => applied = t.precedes a ∧ t' = if t.precedes a then t.putAccount a else t)
      fun _ _ => False := by
    apply Action.within_of_once
    apply once_accounts_migrate hr (Exposure.isGenuine_genuine _)
    · intro hprecedes
      exact ⟨hprecedes.symm, (if_pos hprecedes).symm⟩
    · intro hrefused
      exact ⟨hrefused.symm, (if_neg (Bool.eq_false_iff.mp hrefused)).symm⟩
    · exact fun _ _ _ hm _ => Exposure.not_calm hm
  obtain ⟨_, _, hresult, hstate, rfl, rfl⟩ :=
    Action.run_of_within (TableNames.obeys_database hr .calm) hmigrate rfl
  exact ⟨hresult, hstate⟩

end valid

/-- Take any rows in the tables, and an account whose id is found with version `v`.  If
    nothing befalls it, a migration of the row is applied if and only if the row has a
    version attribute and `v` is lower, and otherwise it leaves the tables.  So what the
    migration returns is whether `v` is lower, unless the row has no version attribute and
    the version of the migration is above 0. -/
theorem migration_guard_iff {config : Config} (h : ofConfig config = .ok r) {a b : Account}
    (hfound : ((r.getByUuid a.uuid).run.run Database.handler (config.tables.database t)).result
      = some (.ok (some b))) :
    ∃ row, t.accountRow? a.uuid = some row ∧
      let run := (r.accounts.migrate a).run.run Database.handler (config.tables.database t)
      let applied := row.get? Row.versionName ≠ none ∧ b.migrationVersion < a.migrationVersion
      run.result = some (.ok (decide applied)) ∧
        run.state = config.tables.database (if applied then t.putAccount a else t) ∧
        (run.result = some (.ok (decide (b.migrationVersion < a.migrationVersion))) ↔
          row.get? Row.versionName ≠ none ∨ a.migrationVersion ≤ 0) := by
  obtain ⟨rfl, hr⟩ := name_injective_of_ofConfig h
  obtain ⟨row, hrow, hread⟩ := (result_getByUuid_iff hr).mp hfound
  refine ⟨row, hrow, ?_⟩
  intro run applied
  have hguard : t.precedes a = decide applied := by
    unfold Tables.precedes
    rw [hrow]
    exact Row.permits_migrate_of_account hread a.migrationVersion
  obtain ⟨hresult, hstate⟩ := run_accounts_migrate hr a t
  rw [hguard] at hresult hstate
  refine ⟨hresult, ?_, ?_⟩
  · simpa only [decide_eq_true_eq] using hstate
  · -- A row without the attribute is read with version 0, which is the only doubtful case.
    unfold run
    rw [hresult]
    have hversion := (Row.read_of_account hread).2.2
    rcases Row.get?_versionName_of_version? hversion with ⟨hmissing, hzero⟩ | hnumber
    · simp [applied, hmissing, hzero]
    · simp [applied, hnumber]

/-- A row of version 1 is replaced by one of version 2. -/
theorem migration_guard_iff_default :
    let a (version : Int32) : Account := ⟨⟨.replicate 16 1, rfl⟩, "+1", version, {}⟩
    let t := Tables.empty.putAccount (a 1)
    let r : Registry := ⟨{}⟩
    let start := ({} : Config).tables.database t
    ofConfig {} = .ok r ∧
      ((r.getByUuid (a 2).uuid).run.run Database.handler start).result = some (.ok (some (a 1))) ∧
      ∃ row, t.accountRow? (a 2).uuid = some row ∧
        let run := (r.accounts.migrate (a 2)).run.run Database.handler start
        let applied := row.get? Row.versionName ≠ none ∧
          (a 1).migrationVersion < (a 2).migrationVersion
        run.result = some (.ok (decide applied)) ∧
          run.state = ({} : Config).tables.database (if applied then t.putAccount (a 2) else t) ∧
          (run.result = some (.ok (decide ((a 1).migrationVersion < (a 2).migrationVersion))) ↔
            row.get? Row.versionName ≠ none ∨ (a 2).migrationVersion ≤ 0) := by
  intro a t r start
  have hconfig : ofConfig {} = .ok r := rfl
  obtain ⟨-, hr⟩ := name_injective_of_ofConfig hconfig
  have hfound : ((r.getByUuid (a 2).uuid).run.run Database.handler start).result
      = some (.ok (some (a 1))) := by
    apply (result_getByUuid_iff hr).mpr
    exact ⟨Row.ofAccount (a 1), rfl, Row.account_ofAccount (a 1)⟩
  exact ⟨hconfig, hfound, migration_guard_iff hconfig hfound⟩

/-- A row that has lost its version attribute is found with version 0, but a migration with
    version 1 is refused and leaves it. -/
theorem migration_refuses_unversioned :
    let u : Uuid := ⟨.replicate 16 1, rfl⟩
    let a (version : Int32) : Account := ⟨u, "+1", version, {}⟩
    let r : Registry := ⟨{}⟩
    let t := Tables.empty.setAccount u ((Row.ofAccount (a 0)).erase Row.versionName)
    let start := ({} : Config).tables.database t
    let run := (r.accounts.migrate (a 1)).run.run Database.handler start
    ((r.getByUuid u).run.run Database.handler start).result = some (.ok (some (a 0))) ∧
      (a 0).migrationVersion < (a 1).migrationVersion ∧
      run.result = some (.ok false) ∧ run.state = start := by
  intro u a r t start run
  have hconfig : ofConfig {} = .ok r := rfl
  obtain ⟨-, hr⟩ := name_injective_of_ofConfig hconfig
  have hrefused : t.precedes (a 1) = false := by
    unfold t a u
    decide +kernel
  obtain ⟨hresult, hstate⟩ := run_accounts_migrate hr (a 1) t
  rw [hrefused] at hresult hstate
  refine ⟨?_, by decide, hresult, hstate⟩
  apply (result_getByUuid_iff hr).mpr
  exact ⟨_, rfl, Row.account_erase_versionName rfl⟩

end Registry

end LoginRegistry
