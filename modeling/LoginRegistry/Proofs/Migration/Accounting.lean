import LoginRegistry.Proofs.Migration.Driving

/-! # What becomes of the entries of a re-drive

    A re-drive lists the first entries of the retry queue and works on several of them at a
    time.  Loading, migrating, deleting and the removal of the entry can all fail or panic, and
    a migration that fails queues its account again while the pass is under way.

    An entry is removed if and only if it has been driven (`within_driveAll`), and then its
    account has caught up with the legacy source (`Settled`).  The report counts every entry
    once, as one that was removed or as a failure (`exists_driven`).
-/

namespace LoginRegistry

open Store (AttributeValue Condition Item)

/-! ### Versions -/

namespace Tables

/-- The rows of accounts have numbers for versions. -/
def Versioned (t : Tables) : Prop :=
  ∀ u row, t.accountRow? u = some row → ∃ n, row.get? Row.versionName = some (.number n)

/-- The account has a row of this version or a higher one. -/
def HasVersion (t : Tables) (u : Uuid) (version : Int32) : Prop :=
  ∃ row n, t.accountRow? u = some row ∧ row.get? Row.versionName = some (.number n) ∧
    version.toInt64 ≤ n

/-- The account is as new as in the legacy source, or in neither. -/
def Settled (t : Tables) (source : LegacySource) (u : Uuid) : Prop :=
  (∃ a, source.accounts.get? u = some a ∧ t.HasVersion u a.migrationVersion) ∨
    source.accounts.get? u = none ∧ t.accountRow? u = none

variable {t t' : Tables} {a : Account}

/-- A migration is refused by a row that is not of a lower version. -/
theorem hasVersion_of_not_precedes (h : t.Versioned) (hrefused : t.precedes a = false) :
    t.HasVersion a.uuid a.migrationVersion := by
  obtain ⟨row, hrow⟩ := Option.ne_none_iff_exists'.mp (accountRow?_ne_none_of_precedes hrefused)
  obtain ⟨n, hn⟩ := h _ row hrow
  refine ⟨row, n, hrow, hn, ?_⟩
  simp only [precedes, hrow, Condition.permits, Option.all_some, Condition.holds,
    Store.attribute?, Option.bind_some, hn, Option.any_some, AttributeValue.lessThan,
    Bool.or_eq_false_iff, beq_eq_false_iff_ne, ne_eq, Std.compare_eq_lt] at hrefused
  exact Int64.not_lt.mp hrefused.2

theorem versioned_empty : Tables.empty.Versioned := fun _ _ => nofun

theorem Versioned.congr (h : t.Versioned) (haccounts : t' .accounts = t .accounts) :
    t'.Versioned := by
  intro u row
  rw [accountRow?_congr haccounts]
  exact h u row

theorem Versioned.putAccount (h : t.Versioned) (a : Account) : (t.putAccount a).Versioned := by
  intro u row hrow
  rw [accountRow?_putAccount] at hrow
  split at hrow
  · rw [← Option.some.inj hrow]
    exact ⟨_, Row.version_ofAccount a⟩
  · exact h u row hrow

theorem Versioned.eraseAccount (h : t.Versioned) (u : Uuid) : (t.eraseAccount u).Versioned := by
  intro v row hrow
  rw [accountRow?_eraseAccount] at hrow
  split at hrow
  · cases hrow
  · exact h v row hrow

/-- A row that is stored has a number for its version. -/
theorem Versioned.driveStep {source : LegacySource} {u : Uuid} (h : t.Versioned)
    (hstep : t.DriveStep source u t') : t'.Versioned := by
  cases hstep with
  | @half a k _ _ =>
    cases k with
    | login b => exact h.congr (migrateLogin_ne (by decide))
    | row b =>
      rw [Half.apply, migrateRow]
      split
      · exact h.putAccount b
      · exact h
  | queue _ => exact h.congr (queueRetry_ne (by decide))
  | release _ _ => exact h.congr (release_ne (by decide))
  | erase _ => exact h.eraseAccount u
  | drop => exact h

/-- An account that is driven has caught up with the source. -/
theorem Drove.settled {start : Tables} {source : LegacySource} {entries : List Uuid}
    {spoilt : Prop} {u : Uuid} {outcome : RedriveOutcome}
    (h : start.Drove source entries spoilt t u outcome) (hdriven : outcome.isDriven = true)
    (hsource : source.Keyed) (hversioned : t.Versioned) : t.Settled source u := by
  cases h with
  | @migrated a _ ha hrow _ _ =>
    have hfound := LegacySource.get?_of_loadInWorker ha
    have hversion := hasVersion_of_not_precedes hversioned hrow
    rw [hsource u a hfound] at hversion
    exact .inl ⟨a, hfound, hversion⟩
  | dropped hnone hrow _ _ _ => exact .inr ⟨LegacySource.get?_of_loadInWorker hnone, hrow⟩
  | kept _ => cases hdriven

end Tables

/-! ### The report -/

namespace RedriveReport

theorem count_of_driven (report : RedriveReport) {outcome : RedriveOutcome}
    (h : outcome.isDriven = true) :
    (report.count outcome).migrated + (report.count outcome).dropped
        = report.migrated + report.dropped + 1 ∧
      (report.count outcome).failures = report.failures := by
  cases outcome with
  | kept e => cases h
  | migrated => exact ⟨Nat.add_right_comm _ _ _, rfl⟩
  | dropped => exact ⟨rfl, rfl⟩

theorem count_of_not_driven (report : RedriveReport) {outcome : RedriveOutcome}
    (h : outcome.isDriven = false) :
    (report.count outcome).migrated + (report.count outcome).dropped
        = report.migrated + report.dropped ∧
      (report.count outcome).failures.length = report.failures.length + 1 := by
  cases outcome with
  | kept e => exact ⟨rfl, List.length_append⟩
  | migrated | dropped => cases h

/-- A report counts every entry once: as migrated or dropped if it is driven, and as a failure
    if not. -/
theorem exists_driven {R : RedriveOutcome → Uuid → Prop} {outcomes : List RedriveOutcome}
    {entries : List Uuid} (h : List.Forall₂ R outcomes entries) (report : RedriveReport) :
    let after := outcomes.foldl count report
    ∃ driven : List Uuid, driven.Sublist entries ∧
      after.migrated + after.dropped = report.migrated + report.dropped + driven.length ∧
      after.failures.length + driven.length = report.failures.length + entries.length ∧
      (∀ u ∈ driven, ∃ outcome, R outcome u ∧ outcome.isDriven = true) ∧
      ∀ u ∈ entries, u ∈ driven ∨ ∃ outcome, R outcome u ∧ outcome.isDriven = false := by
  induction h generalizing report with
  | nil => exact ⟨[], .slnil, rfl, rfl, nofun, nofun⟩
  | @cons outcome u outcomes entries hu _ ih =>
    obtain ⟨driven, hsublist, hremoved, hfailed, hdriven, hrest⟩ := ih (report.count outcome)
    cases hout : outcome.isDriven with
    | true =>
      obtain ⟨hcount, hfailures⟩ := report.count_of_driven hout
      rw [hfailures] at hfailed
      refine ⟨u :: driven, hsublist.cons_cons u, ?_, ?_, ?_, ?_⟩
      · rw [List.foldl_cons, hremoved, hcount, List.length_cons]
        omega
      · rw [List.foldl_cons, List.length_cons, List.length_cons]
        omega
      · exact List.forall_mem_cons.mpr ⟨⟨outcome, hu, hout⟩, hdriven⟩
      · refine List.forall_mem_cons.mpr ⟨.inl List.mem_cons_self, fun v hv => ?_⟩
        exact (hrest v hv).imp_left (List.mem_cons_of_mem u)
    | false =>
      obtain ⟨hcount, hfailures⟩ := report.count_of_not_driven hout
      refine ⟨driven, hsublist.cons u, ?_, ?_, hdriven, ?_⟩
      · rw [List.foldl_cons, hremoved, hcount]
      · rw [List.foldl_cons, hfailed, hfailures, List.length_cons]
        omega
      · exact List.forall_mem_cons.mpr ⟨.inr ⟨outcome, hu, hout⟩, hrest⟩

end RedriveReport

namespace Registry

variable {r : Registry} {x : Exposure} {t : Tables} {source : LegacySource}

/-- A re-drive on any tables whose account rows have numbers for versions and whose queue
    rows are stored under their ids, from any source in memory and whatever befalls the
    requests, as long as it is no refusal out of nothing.

    It ends with an error and has changed nothing, or it returns a report.  With the report
    go the `entries` that were driven, the first ones of the queue up to the maximum, and
    among them those that were `driven` to the end:

    * every entry is counted, and as migrated or dropped if and only if it is in `driven`;
    * the queue has the entries it had except those of `driven`;
    * an account of `driven` is in the source and has a row of that version at least, or it
      is not in the source and has no row. -/
theorem redrive_accounts_for_entries {config : Config} (h : ofConfig config = .ok r)
    (hx : x.IsGenuine) (hkeyed : t.KeyedAt .retries) (hversioned : t.Versioned)
    (hsource : source.Keyed) (max : Option Nat) (turns : Turns) (schedule : Schedule) :
    let limit := max.getD config.migration.redriveBatchSize.toNat
    let run := (r.redrive source max turns).run (Schedule.handler x)
      (schedule, config.tables.database t)
    (∃ e, run.result = some (.error e) ∧ run.state.2 = config.tables.database t) ∨
      ∃ report t', ∃ entries driven : List Uuid, run.result = some (.ok report) ∧
        run.state.2 = config.tables.database t' ∧
        entries.map Row.uuidValue = (t .retries).keys.take limit ∧
        report.migrated + report.dropped + report.failures.length = entries.length ∧
        driven.Sublist entries ∧ driven.length = report.migrated + report.dropped ∧
        (∀ key, key ∈ (t' .retries).keys ↔
          key ∈ (t .retries).keys ∧ key ∉ driven.map Row.uuidValue) ∧
        ∀ u ∈ driven, t'.Settled source u := by
  obtain ⟨rfl, hr⟩ := name_injective_of_ofConfig h
  intro limit run
  obtain ⟨t', hstate, hend⟩ := Script.run_of_within (TableNames.obeys_schedule hr x)
    (within_redrive hr hx (fun _ _ _ => trivial) hkeyed max
      (fun u _ a ha => hsource u a (LegacySource.get?_of_loadInWorker ha)) turns)
    (show (schedule, r.config.tables.database t).2 = r.config.tables.database t from rfl)
  rcases hend with ⟨e, hresult, rfl, -⟩ | ⟨entries, outcomes, hresult, -, hentries, hdrives, hdrove⟩
  · exact .inl ⟨e, hresult, hstate⟩
  have hloaded : ∀ u a, source.loadInWorker u = .account (some a) → a.uuid = u :=
    fun u a ha => hsource u a (LegacySource.get?_of_loadInWorker ha)
  have hversioned' : t'.Versioned :=
    hdrives.keeps (fun _ _ _ _ hstep hversioned => hversioned.driveStep hstep) hversioned
  obtain ⟨driven, hsublist, hremoved, hfailed, hdriven, hrest⟩ :=
    RedriveReport.exists_driven hdrove {}
  have hremoved : (outcomes.foldl RedriveReport.count {}).migrated
      + (outcomes.foldl RedriveReport.count {}).dropped = driven.length :=
    hremoved.trans (Nat.zero_add _)
  have hfailed : (outcomes.foldl RedriveReport.count {}).failures.length + driven.length
      = entries.length := hfailed.trans (Nat.zero_add _)
  refine .inr ⟨_, t', entries, driven, hresult, hstate, hentries, ?_, hsublist, ?_, ?_, ?_⟩
  · omega
  · omega
  · intro key
    by_cases hkey : key ∈ entries.map Row.uuidValue
    · -- The entry was in the queue and has left it if it has been driven.
      have hbefore : key ∈ (t .retries).keys := List.mem_of_mem_take (hentries ▸ hkey)
      obtain ⟨u, hu, rfl⟩ := List.mem_map.mp hkey
      have hmem : Row.uuidValue u ∈ driven.map Row.uuidValue ↔ u ∈ driven :=
        List.mem_map_of_injective fun _ _ => Row.uuidValue_inj.mp
      rw [and_iff_right hbefore, hmem]
      rcases hrest u hu with hu | ⟨outcome, ⟨-, hqueued⟩, hout⟩
      · obtain ⟨outcome, ⟨-, hqueued⟩, hout⟩ := hdriven u hu
        refine iff_of_false (fun hleft => ?_) (not_not_intro hu)
        rw [hqueued.mp hleft] at hout
        cases hout
      · refine iff_of_true (hqueued.mpr hout) fun hu => ?_
        obtain ⟨outcome', ⟨-, hqueued'⟩, hout'⟩ := hdriven u hu
        rw [hqueued'.mp (hqueued.mpr hout)] at hout'
        cases hout'
    · -- Other entries are not touched.
      have hsame : (t' .retries).get? key = (t .retries).get? key := by
        refine hdrives.keeps (P := fun t' => (t' .retries).get? key = (t .retries).get? key)
          (fun u hu t₁ t₂ hstep h => ?_) rfl
        have hne : key ≠ Row.uuidValue u := fun heq => hkey (heq.symm ▸ List.mem_map_of_mem hu)
        exact (hstep.get?_retries (hloaded u) hne).trans h
      rw [SortedMap.mem_keys_iff, SortedMap.mem_keys_iff, hsame]
      exact (and_iff_left fun h => hkey ((hsublist.map _).subset h)).symm
  · intro u hu
    obtain ⟨outcome, ⟨hdrove, -⟩, hout⟩ := hdriven u hu
    exact hdrove.settled hout hsource hversioned'

/-- Two entries: one of an account with a row that the source has in a later version, one of
    an account that is nowhere.  A request of the second one panics. -/
theorem redrive_accounts_for_entries_default :
    let u : Uuid := ⟨.replicate 16 1, rfl⟩
    let v : Uuid := ⟨.replicate 16 2, rfl⟩
    let t := ((Tables.empty.putAccount ⟨u, "+1", 1, {}⟩).queueRetry u "+1").queueRetry v "+2"
    let source := ({} : LegacySource).insert ⟨u, "+1", 2, {}⟩
    let x : Exposure := .genuine fun _ _ => true
    let turns : Turns := { accounts := [1, 0, 1, 0] }
    let schedule : Schedule := [none, none, none, none, some .panic]
    let r : Registry := ⟨{}⟩
    ofConfig {} = .ok r ∧ x.IsGenuine ∧ t.KeyedAt .retries ∧ t.Versioned ∧ source.Keyed ∧
      let limit := (some 5).getD ({} : Config).migration.redriveBatchSize.toNat
      let run := (r.redrive source (some 5) turns).run (Schedule.handler x)
        (schedule, ({} : Config).tables.database t)
      (∃ e, run.result = some (.error e) ∧ run.state.2 = ({} : Config).tables.database t) ∨
        ∃ report t', ∃ entries driven : List Uuid, run.result = some (.ok report) ∧
          run.state.2 = ({} : Config).tables.database t' ∧
          entries.map Row.uuidValue = (t .retries).keys.take limit ∧
          report.migrated + report.dropped + report.failures.length = entries.length ∧
          driven.Sublist entries ∧ driven.length = report.migrated + report.dropped ∧
          (∀ key, key ∈ (t' .retries).keys ↔
            key ∈ (t .retries).keys ∧ key ∉ driven.map Row.uuidValue) ∧
          ∀ w ∈ driven, t'.Settled source w := by
  intro u v t source x turns schedule r
  have hconfig : ofConfig {} = .ok r := rfl
  have hx : x.IsGenuine := Exposure.isGenuine_genuine _
  have hempty : (Tables.empty.putAccount ⟨u, "+1", 1, {}⟩).KeyedAt .retries := fun _ _ => nofun
  have hkeyed : t.KeyedAt .retries := (hempty.queueRetry u "+1").queueRetry v "+2"
  have hversioned : t.Versioned :=
    (Tables.versioned_empty.putAccount ⟨u, "+1", 1, {}⟩).congr rfl
  have hsource : source.Keyed := (LegacySource.keyed_empty none []).insert _
  exact ⟨hconfig, hx, hkeyed, hversioned, hsource,
    redrive_accounts_for_entries hconfig hx hkeyed hversioned hsource (some 5) turns schedule⟩

end Registry

end LoginRegistry
