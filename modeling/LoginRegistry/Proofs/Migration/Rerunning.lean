import LoginRegistry.Proofs.Migration.Batching
import LoginRegistry.Proofs.Migration.Working

/-! # A batch that is run again

    An account that is as new as in the batch and a login that is bound stay as they are,
    so a batch that is run again changes nothing unless its sweep has taken something from
    it in between.  A sweep removes the accounts that have a tombstone, and then their
    tombstones.  After it nothing tells these accounts from accounts that never were, and
    a second run writes them again (`rerun_changes_nothing_iff`).
-/

namespace LoginRegistry

open Store (AttributeValue Condition Database Item)

/-! ### Accounts that are up to date -/

namespace Tables

variable {t t' : Tables} {a : Account} {accounts : List Account} {u : Uuid}

/-- A login that is bound is granted to its owner. -/
theorem grants_of_loginRow? {l : String} {v : Uuid} (h : t.loginRow? l = some (Row.ofLogin l v)) :
    t.grants l u = true ↔ v = u := by
  simp only [grants, h, Condition.permits, Option.all_some, Condition.holds, Store.attribute?,
    Option.bind_some, Row.login_ofLogin, Row.uuid_ofLogin, Option.isNone_some, Bool.false_or,
    beq_iff_eq, Option.some.injEq, Row.uuidValue_inj]

theorem migrateLogin_of_loginRow? (h : t.Proper) (hrow : t.loginRow? a.login ≠ none) :
    t.migrateLogin a = t := by
  obtain ⟨u, -, hget⟩ := h.exists_owner hrow
  unfold migrateLogin
  split
  · next hgrants =>
    apply bindLogin_of_loginRow?
    rwa [← (grants_of_loginRow? hget).mp hgrants]
  · rfl

/-- Migrations of accounts that are up to date change nothing. -/
theorem Works.eq_of_upToDate (h : t.Works accounts False t') (hproper : t.Proper)
    (hdate : ∀ a ∈ accounts, t.UpToDate a) : t' = t := by
  refine h.keeps (P := fun t' => t' = t) ?_ False.elim rfl
  rintro _ k hk rfl
  have hdate := hdate _ (Half.account_mem hk)
  cases k with
  | row a => exact if_neg (Bool.eq_false_iff.mp hdate.row)
  | login a => exact migrateLogin_of_loginRow? hproper hdate.login

/-- Migrations write no rows but those of their accounts. -/
theorem Works.accountRow? (h : t.Works accounts False t') (hu : ∀ a ∈ accounts, a.uuid ≠ u) :
    t'.accountRow? u = t.accountRow? u := by
  refine h.keeps (P := fun t' => t'.accountRow? u = t.accountRow? u) ?_ False.elim rfl
  intro t' k hk ht'
  exact (k.accountRow?_apply (hu _ (Half.account_mem hk))).trans ht'

theorem Works.tombstones (h : t.Works accounts False t') : t' .tombstones = t .tombstones := by
  refine h.keeps (P := fun t' => t' .tombstones = t .tombstones) ?_ False.elim rfl
  exact fun _ k _ => (k.apply_ne (by decide) (by decide)).trans

/-- Migrations with no delete in between leave their accounts up to date, and so they have
    come to what is said of a batch. -/
theorem Works.migrated (h : t.Works accounts False t') (hproper : t.Proper)
    (hdate : ∀ a ∈ accounts, t'.UpToDate a) : t.Migrated accounts [] t' where
  toAmid := h.keeps (P := Amid accounts [] t) (fun _ _ hk ht => ht.write hk) False.elim
    (.refl hproper)
  deleted _ _ := nofun
  done k hk := by
    have hdate := hdate _ (Half.account_mem hk)
    cases k with
    | row a => exact .inr hdate.row
    | login a => exact .inl hdate.login

/-! ### The sweep of a batch -/

/-- The tables since a sweep has begun on `b`. -/
structure Clearing (b t : Tables) : Prop where
  proper : t.Proper
  /-- Rows of accounts with a tombstone may be gone. -/
  rows : ∀ u, t.accountRow? u = b.accountRow? u ∨ b.Tombstoned u ∧ t.accountRow? u = none
  /-- Logins of accounts with a tombstone may be free. -/
  logins : ∀ l, t.loginRow? l = b.loginRow? l ∨ ∃ u, b.Tombstoned u ∧ b.owner? l = some u
  /-- There is no new tombstone. -/
  buried : ∀ u, t.Tombstoned u → b.Tombstoned u
  /-- An account that had a tombstone and has a row has its tombstone still. -/
  queued : ∀ u, b.Tombstoned u → t.accountRow? u = none ∨ t.Tombstoned u
  /-- No login has a new owner. -/
  owners : ∀ l u, t.owner? l = some u → b.owner? l = some u

namespace Clearing

variable {b t : Tables} {u : Uuid}

theorem refl (h : t.Proper) : t.Clearing t where
  proper := h
  rows _ := .inl rfl
  logins _ := .inl rfl
  buried _ := id
  queued _ := .inr
  owners _ _ := id

theorem release (h : b.Clearing t) (hu : b.Tombstoned u) (login : String) :
    b.Clearing (t.release login u) where
  proper := h.proper.release login u
  rows v := by
    rw [accountRow?_congr (release_ne nofun)]
    exact h.rows v
  logins l := by
    rw [loginRow?_release]
    split
    · next hl => exact .inr ⟨u, hu, hl.1 ▸ h.owners _ _ hl.2⟩
    · exact h.logins l
  buried v hv := h.buried v ((tombstoned_congr (release_ne nofun) v).mp hv)
  queued v hv := by
    rw [accountRow?_congr (release_ne nofun), tombstoned_congr (release_ne nofun)]
    exact h.queued v hv
  owners l v howner := h.owners l v (owner?_release_eq_some_iff.mp howner).1

theorem releaseRecorded (h : b.Clearing t) (hu : b.Tombstoned u) :
    b.Clearing (t.releaseRecorded u) := by
  unfold Tables.releaseRecorded
  split
  · exact h.release hu _
  · exact h

theorem eraseAccount (h : b.Clearing t) (hu : b.Tombstoned u) : b.Clearing (t.eraseAccount u) where
  proper := h.proper.eraseAccount u
  rows v := by
    rw [accountRow?_eraseAccount]
    split
    · next hv => exact .inr ⟨hv ▸ hu, rfl⟩
    · exact h.rows v
  logins := h.logins
  buried := h.buried
  queued v hv := by
    rw [accountRow?_eraseAccount]
    split
    · exact .inl rfl
    · exact h.queued v hv
  owners := h.owners

theorem unbury (h : b.Clearing t) {us : List Uuid} (hus : ∀ u ∈ us, t.accountRow? u = none) :
    b.Clearing (t.unbury us) where
  proper := h.proper.congr rfl rfl (h.proper.keyed.unbury us)
  rows := h.rows
  logins := h.logins
  buried v hv := h.buried v (tombstoned_unbury.mp hv).1
  queued v hv := by
    rcases h.queued v hv with hrow | hburied
    · exact .inl hrow
    · by_cases hmem : v ∈ us
      · exact .inl (hus v hmem)
      · exact .inr (tombstoned_unbury.mpr ⟨hburied, hmem⟩)
  owners := h.owners

/-- Once no tombstone is left, the accounts that had one have no row. -/
theorem accountRow?_eq_none (h : b.Clearing t) (hempty : t .tombstones = .empty)
    (hu : b.Tombstoned u) : t.accountRow? u = none :=
  (h.queued u hu).resolve_right (not_tombstoned_of_empty hempty u)

end Clearing

end Tables

namespace Registry

variable {r : Registry} {b t : Tables} {accounts : List Account}

section valid

variable (hr : Function.Injective r.config.tables.name)

include hr

/-- A sweep that nothing befalls clears tables. -/
theorem sweepable_clearing :
    Sweepable r .calm b.Clearing fun t u => t.accountRow? u = none where
  keyed h := h.proper.keyed
  unbury h hus := h.unbury hus
  delete {t u} h hburied := by
    have hu := h.buried u hburied
    have hstart : t = if DeleteOptions.reconcile.tombstone then t.bury u else t := rfl
    apply within_deleteWith hr (Exposure.isGenuine_genuine _) hstart
    · intro hrow
      exact ⟨h.releaseRecorded hu, Tables.releaseRecorded_ne nofun,
        fun v => Tables.accountRow?_releaseRecorded_eq_none hrow⟩
    · intro row a hrow ha
      exact ⟨(h.release hu a.login).eraseAccount hu, Tables.release_ne (i := .tombstones) nofun,
        fun v => Tables.accountRow?_remove_eq_none a.login⟩
    · intro row e hrow he
      obtain ⟨a, ha⟩ := h.proper.restorable u row hrow
      rw [ha] at he
      cases he
    · exact fun _ _ _ hm _ => (Exposure.not_calm hm).elim
    · exact fun _ _ _ hm _ _ _ => (Exposure.not_calm hm).elim

omit hr in
/-- A sweep without tombstones changes nothing. -/
theorem sweepable_of_empty (h : t.Proper) (hempty : t .tombstones = .empty) :
    Sweepable r .calm (fun t' => t' = t) fun _ _ => False where
  keyed := by
    rintro _ rfl
    exact h.keyed
  delete := by
    rintro _ u rfl hburied
    exact absurd hburied (Tables.not_tombstoned_of_empty hempty u)
  unbury := by
    rintro _ us rfl hus
    cases us with
    | nil => exact Tables.unbury_nil
    | cons u us => exact (hus u List.mem_cons_self).elim

/-! ### Runs of a batch -/

/-- A batch succeeds if its sweep does. -/
theorem within_migrateBatch_calm (workers : UInt64) (turns : Turns) {post : Tables → Prop}
    (hsweep : ∀ b, t.Works accounts False b → (∀ a ∈ accounts, b.UpToDate a) →
      r.reconcile.Within (r.config.tables.behaviour .calm)
        (fun o t' => (∃ swept, o = some (.ok swept)) ∧ post t') b) :
    (r.migrateBatch accounts workers turns).Within (r.config.tables.behaviour .calm)
      (fun o t' => (∃ report, o = some (.ok report)) ∧ post t') t := by
  apply Script.within_bind
  apply Script.Within.mono (within_migrateAll hr (Exposure.isGenuine_genuine _)
    (fun _ _ => Exposure.not_calm) (fun _ : True => fun _ _ _ => rfl) workers turns t)
  rintro _ b ⟨hworks, outcomes, rfl, houtcomes⟩
  have hdate : ∀ a ∈ accounts, b.UpToDate a := by
    intro a ha
    obtain ⟨_, -, houtcome⟩ := Script.exists_of_forall₂ houtcomes ha
    cases houtcome with
    | served hdate => exact hdate
    | failed hspoilt => exact hspoilt.elim
  apply Script.within_bind
  apply Script.Within.mono (hsweep b hworks hdate)
  rintro _ t' ⟨⟨swept, rfl⟩, ht'⟩
  exact ⟨⟨_, rfl⟩, ht'⟩

variable (hbulk : r.config.bulk.validate = .ok ())

include hbulk

/-- A sweep clears tables until no tombstone is left. -/
theorem within_reconcile_clearing
    (hpage : r.config.migration.reconcilePageSize.toNat ≤ r.config.bulk.maxRemovals) (h : b.Proper) :
    r.reconcile.Within (r.config.tables.behaviour .calm)
      (fun o t' => (∃ swept, o = some (.ok swept)) ∧ b.Clearing t' ∧ t' .tombstones = .empty) b :=
  (sweepable_clearing hr).within_reconcile_calm hr hbulk (.refl h) (.of_pageSize hpage b)

/-- A batch that is on its own succeeds, and its sweep clears what it has written. -/
theorem run_migrateBatch
    (hpage : r.config.migration.reconcilePageSize.toNat ≤ r.config.bulk.maxRemovals) (h : t.Proper)
    (accounts : List Account) (workers : UInt64) (turns : Turns) :
    let run := (r.migrateBatch accounts workers turns).run Database.handler
      (r.config.tables.database t)
    (∃ report, run.result = some (.ok report)) ∧
      ∃ b t', run.state = r.config.tables.database t' ∧ t.Migrated accounts [] b ∧
        b.Clearing t' ∧ t' .tombstones = .empty := by
  intro run
  let post (t' : Tables) : Prop :=
    ∃ b, t.Migrated accounts [] b ∧ b.Clearing t' ∧ t' .tombstones = .empty
  have hbatch : (r.migrateBatch accounts workers turns).Within (r.config.tables.behaviour .calm)
      (fun o t' => (∃ report, o = some (.ok report)) ∧ post t') t := by
    refine within_migrateBatch_calm hr workers turns fun b hworks hdate => ?_
    have hmigrated := hworks.migrated h hdate
    refine Script.Within.mono (within_reconcile_clearing hr hbulk hpage hmigrated.proper) ?_
    exact fun _ _ ⟨hswept, hcleared⟩ => ⟨hswept, b, hmigrated, hcleared⟩
  obtain ⟨t', hstate, hresult, b, hmigrated, hcleared, hempty⟩ := Script.run_of_within
    (TableNames.obeys_database hr .calm) hbatch rfl
  exact ⟨hresult, b, t', hstate, hmigrated, hcleared, hempty⟩

/-- Where there are no tombstones, a batch is its writes. -/
theorem run_migrateBatch_of_empty (h : t.Proper) (hempty : t .tombstones = .empty)
    (accounts : List Account) (workers : UInt64) (turns : Turns) :
    let run := (r.migrateBatch accounts workers turns).run Database.handler
      (r.config.tables.database t)
    (∃ report, run.result = some (.ok report)) ∧
      ∃ t', run.state = r.config.tables.database t' ∧ t.Works accounts False t' ∧
        ∀ a ∈ accounts, t'.UpToDate a := by
  intro run
  let post (t' : Tables) : Prop := t.Works accounts False t' ∧ ∀ a ∈ accounts, t'.UpToDate a
  have hbatch : (r.migrateBatch accounts workers turns).Within (r.config.tables.behaviour .calm)
      (fun o t' => (∃ report, o = some (.ok report)) ∧ post t') t := by
    refine within_migrateBatch_calm hr workers turns fun b hworks hdate => ?_
    have hswept : b .tombstones = .empty := hworks.tombstones.trans hempty
    have hproper := (hworks.migrated h hdate).proper
    refine Script.Within.mono ((sweepable_of_empty hproper hswept).within_reconcile_calm hr hbulk rfl
      (.of_empty hswept)) ?_
    rintro _ _ ⟨hresult, rfl, -⟩
    exact ⟨hresult, hworks, hdate⟩
  obtain ⟨t', hstate, hresult, hworks, hdate⟩ := Script.run_of_within
    (TableNames.obeys_database hr .calm) hbatch rfl
  exact ⟨hresult, t', hstate, hworks, hdate⟩

end valid

/-- A batch of accounts can take a database to another while accounts are deleted. -/
inductive RunsBatch (r : Registry) (accounts : List Account) (d : Database) :
    List (Uuid × Int64) → Database → Prop where
  /-- The batch is run as it is, and nothing is deleted meanwhile. -/
  | alone (workers : UInt64) (turns : Turns) :
    RunsBatch r accounts d [] ((r.migrateBatch accounts workers turns).run Database.handler d).state
  /-- The halves of its accounts and the deletes make their requests in any order, and the
      sweep comes after all of them. -/
  | amid {deletes : List (Uuid × Int64)}
    {order : List (Fin (Task.ofBatch accounts deletes).length)} :
    (∀ i, ((r.raceBatch accounts deletes d order).racers i).ended? ≠ none) →
      RunsBatch r accounts d deletes
        (r.reconcile.run Database.handler (r.raceBatch accounts deletes d order).state).state

variable {deletes : List (Uuid × Int64)}

/-- Either way the sweep clears what the batch and the deletes have left. -/
theorem clearing_of_runsBatch (hr : Function.Injective r.config.tables.name)
    (hbulk : r.config.bulk.validate = .ok ())
    (hpage : r.config.migration.reconcilePageSize.toNat ≤ r.config.bulk.maxRemovals) (h : t.Proper)
    {d : Database}
    (hrun : r.RunsBatch accounts (r.config.tables.database t) deletes d) :
    ∃ b t', d = r.config.tables.database t' ∧ t.Migrated accounts deletes b ∧ b.Clearing t' ∧
      t' .tombstones = .empty := by
  cases hrun with
  | alone workers turns =>
    obtain ⟨-, b, t', hstate, hmigrated, hcleared, hempty⟩ :=
      run_migrateBatch hr hbulk hpage h accounts workers turns
    exact ⟨b, t', hstate, hmigrated, hcleared, hempty⟩
  | amid hended =>
    obtain ⟨b, hb, hmigrated⟩ := migrated_of_raceBatch hr h hended
    rw [hb]
    obtain ⟨t', hstate, -, hcleared, hempty⟩ := Script.run_of_within
      (TableNames.obeys_database hr .calm)
      (within_reconcile_clearing hr hbulk hpage hmigrated.proper) rfl
    exact ⟨b, t', hstate, hmigrated, hcleared, hempty⟩

end Registry

/-! ### After the first run -/

namespace Tables.Clearing

variable {accounts : List Account} {deletes : List (Uuid × Int64)} {t₀ b t : Tables} {a : Account}

/-- An account of the batch has a row unless it is dead. -/
theorem dead_of_accountRow? (h : b.Clearing t) (hmigrated : t₀.Migrated accounts deletes b)
    (ha : a ∈ accounts) (hrow : t.accountRow? a.uuid = none) : t₀.Dead deletes a.uuid := by
  rcases h.rows a.uuid with hsame | ⟨hburied, -⟩
  · rcases hmigrated.done _ (Half.row_mem ha) with hburied | hcurrent
    · exact hmigrated.buried _ hburied
    · exact absurd (hsame.symm.trans hrow) (accountRow?_ne_none_of_precedes hcurrent)
  · exact hmigrated.buried _ hburied

/-- A login of the batch is bound unless one that may have owned it is dead. -/
theorem dead_of_loginRow? (h : b.Clearing t) (hmigrated : t₀.Migrated accounts deletes b)
    (ha : a ∈ accounts) (hrow : t.loginRow? a.login = none) :
    ∃ u, t₀.Dead deletes u ∧ t₀.Claims accounts a.login u := by
  rcases h.logins a.login with hsame | ⟨u, hburied, howner⟩
  · rcases hmigrated.done _ (Half.login_mem ha) with hbound | ⟨u, hburied, hclaims⟩
    · exact absurd (hsame.symm.trans hrow) hbound
    · exact ⟨u, hmigrated.buried u hburied, hclaims⟩
  · exact ⟨u, hmigrated.buried u hburied, hmigrated.claimed _ u howner⟩

/-- A dead account has no row once the sweep is over. -/
theorem accountRow?_of_dead (h : b.Clearing t) (hmigrated : t₀.Migrated accounts deletes b)
    (hempty : t .tombstones = .empty) {u : Uuid} (hu : t₀.Dead deletes u) :
    t.accountRow? u = none := by
  apply h.accountRow?_eq_none hempty
  rcases hu with hburied | ⟨version, hdeleted⟩
  · exact hmigrated.kept u hburied
  · exact hmigrated.deleted u version hdeleted

/-- An account of the batch that has a row is as new as in the batch. -/
theorem upToDate_iff (h : b.Clearing t) (hmigrated : t₀.Migrated accounts deletes b)
    (hempty : t .tombstones = .empty) (ha : a ∈ accounts) :
    t.UpToDate a ↔ t.accountRow? a.uuid ≠ none ∧ t.loginRow? a.login ≠ none := by
  constructor
  · intro hdate
    exact ⟨accountRow?_ne_none_of_precedes hdate.row, hdate.login⟩
  · rintro ⟨hrow, hlogin⟩
    refine ⟨?_, hlogin⟩
    have hsame := (h.rows a.uuid).resolve_right fun hgone => hrow hgone.2
    rcases hmigrated.done _ (Half.row_mem ha) with hburied | hcurrent
    · exact absurd (h.accountRow?_eq_none hempty hburied) hrow
    · exact (precedes_congr hsame).trans hcurrent

end Tables.Clearing

namespace Registry

variable {r : Registry} {accounts : List Account} {deletes : List (Uuid × Int64)}

/-- A batch is run again.  Take any jobs but re-drives on a fresh registry, any accounts, and
    any deletes while the batch is run for the first time.  However the workers take turns, both
    runs of it succeed.  Call an account dead if it has a tombstone when the first run begins or
    is deleted in its course.

    * If no account of the batch is dead, and none whose login is in the batch, the second
      run changes nothing.
    * The second run changes nothing if and only if after the first one each account of the
      batch has a row and each of their logins is bound.
    * A dead account has no row after the first run, and none after the second one exactly
      if it is not in the batch.
    * A third run changes nothing. -/
theorem rerun_changes_nothing_iff {config : Config} (h : ofConfig config = .ok r)
    (hpage : config.migration.reconcilePageSize.toNat ≤ config.bulk.maxRemovals)
    {jobs : List Job} (hjobs : ∀ source max turns, Job.redrive source max turns ∉ jobs)
    {first : Database}
    (hfirst : r.RunsBatch accounts (r.leaves jobs (Testbed.ofTables config.tables).database)
      deletes first) (workers : UInt64) (turns : Turns) :
    let start := r.leaves jobs (Testbed.ofTables config.tables).database
    let run (turns : Turns) (d : Database) :=
      (r.migrateBatch accounts workers turns).run Database.handler d
    let second := (run turns first).state
    ∃ t₀ t₁ t₂ : Tables, start = config.tables.database t₀ ∧
      first = config.tables.database t₁ ∧ second = config.tables.database t₂ ∧
      (∃ report, (run turns start).result = some (.ok report)) ∧
      (∃ report, (run turns first).result = some (.ok report)) ∧
      ((∀ a ∈ accounts, ¬ t₀.Dead deletes a.uuid ∧
        ∀ u, t₀.owner? a.login = some u → ¬ t₀.Dead deletes u) → second = first) ∧
      (second = first ↔
        ∀ a ∈ accounts, t₁.accountRow? a.uuid ≠ none ∧ t₁.loginRow? a.login ≠ none) ∧
      (∀ u, t₀.Dead deletes u → t₁.accountRow? u = none ∧
        (t₂.accountRow? u = none ↔ ∀ a ∈ accounts, a.uuid ≠ u)) ∧
      ∀ turns', (run turns' second).state = second := by
  obtain ⟨rfl, -, hbulk⟩ := validate_of_ofConfig h
  obtain ⟨-, hr⟩ := name_injective_of_ofConfig h
  intro start run second
  obtain ⟨c, hstart, -⟩ := exists_visits_of_prefix hr hjobs (List.prefix_refl jobs)
  have hstart : start = r.config.tables.database c.tables := hstart
  have hproper := c.proper_tables
  rw [show r.leaves jobs (Testbed.ofTables r.config.tables).database
    = r.config.tables.database c.tables from hstart] at hfirst
  obtain ⟨b, t₁, rfl, hmigrated, hcleared, hempty⟩ :=
    clearing_of_runsBatch hr hbulk hpage hproper hfirst
  obtain ⟨hresult, t₂, hsecond, hworks, hdate⟩ :=
    run_migrateBatch_of_empty hr hbulk hcleared.proper hempty accounts workers turns
  have hsecond : second = r.config.tables.database t₂ := hsecond
  have hproper₂ : t₂.Proper := (hworks.migrated hcleared.proper hdate).proper
  have hempty₂ : t₂ .tombstones = .empty := hworks.tombstones.trans hempty
  have hsame : second = r.config.tables.database t₁ ↔
      ∀ a ∈ accounts, t₁.accountRow? a.uuid ≠ none ∧ t₁.loginRow? a.login ≠ none := by
    rw [hsecond, (TableNames.database_injective hr).eq_iff]
    constructor
    · rintro rfl a ha
      exact (hcleared.upToDate_iff hmigrated hempty ha).mp (hdate a ha)
    · intro hthere
      exact hworks.eq_of_upToDate hcleared.proper fun a ha =>
        (hcleared.upToDate_iff hmigrated hempty ha).mpr (hthere a ha)
  refine ⟨c.tables, t₁, t₂, hstart, rfl, hsecond, ?_, hresult, ?_, hsame, ?_, fun turns' => ?_⟩
  · rw [hstart]
    exact (run_migrateBatch hr hbulk hpage hproper accounts workers turns).1
  · intro halive
    refine hsame.mpr fun a ha => ⟨fun hrow => ?_, fun hrow => ?_⟩
    · exact (halive a ha).1 (hcleared.dead_of_accountRow? hmigrated ha hrow)
    · obtain ⟨u, hu, howner | ⟨a', ha', -, rfl⟩⟩ := hcleared.dead_of_loginRow? hmigrated ha hrow
      · exact (halive a ha).2 u howner hu
      · exact (halive a' ha').1 hu
  · intro u hu
    have hgone := hcleared.accountRow?_of_dead hmigrated hempty hu
    refine ⟨hgone, fun hnone a ha => ?_, fun hother => (hworks.accountRow? hother).trans hgone⟩
    rintro rfl
    exact Tables.accountRow?_ne_none_of_precedes (hdate a ha).row hnone
  · rw [hsecond]
    obtain ⟨-, t₃, hthird, hworks₃, -⟩ :=
      run_migrateBatch_of_empty hr hbulk hproper₂ hempty₂ accounts workers turns'
    rw [hworks₃.eq_of_upToDate hproper₂ hdate] at hthird
    exact hthird

/-- An account whose login another has is deleted after its row is written and before its
    login is asked for. -/
theorem rerun_changes_nothing_iff_default :
    let a : Account := ⟨⟨.replicate 16 1, rfl⟩, "+1", 1, {}⟩
    let b : Account := ⟨⟨.replicate 16 2, rfl⟩, "+1", 1, {}⟩
    let r : Registry := ⟨{}⟩
    let jobs : List Job := [.call (.create b 1)]
    let accounts := [a]
    let deletes : List (Uuid × Int64) := [(a.uuid, 2)]
    let order : List (Fin (Task.ofBatch accounts deletes).length) :=
      ([0, 2, 2, 2, 2, 2, 1] : List (Fin 3))
    let start := r.leaves jobs (Testbed.ofTables ({} : Config).tables).database
    let first := (r.reconcile.run Database.handler
      (r.raceBatch accounts deletes start order).state).state
    ofConfig {} = .ok r ∧
      ({} : Config).migration.reconcilePageSize.toNat ≤ ({} : Config).bulk.maxRemovals ∧
      (∀ source max turns, Job.redrive source max turns ∉ jobs) ∧
      r.RunsBatch accounts start deletes first ∧
      let run (turns : Turns) (d : Database) :=
        (r.migrateBatch accounts 2 turns).run Database.handler d
      let second := (run {} first).state
      ∃ t₀ t₁ t₂ : Tables, start = ({} : Config).tables.database t₀ ∧
        first = ({} : Config).tables.database t₁ ∧ second = ({} : Config).tables.database t₂ ∧
        (∃ report, (run {} start).result = some (.ok report)) ∧
        (∃ report, (run {} first).result = some (.ok report)) ∧
        ((∀ a ∈ accounts, ¬ t₀.Dead deletes a.uuid ∧
          ∀ u, t₀.owner? a.login = some u → ¬ t₀.Dead deletes u) → second = first) ∧
        (second = first ↔
          ∀ a ∈ accounts, t₁.accountRow? a.uuid ≠ none ∧ t₁.loginRow? a.login ≠ none) ∧
        (∀ u, t₀.Dead deletes u → t₁.accountRow? u = none ∧
          (t₂.accountRow? u = none ↔ ∀ a ∈ accounts, a.uuid ≠ u)) ∧
        ∀ turns', (run turns' second).state = second := by
  intro a b r jobs accounts deletes order start first
  have hconfig : ofConfig {} = .ok r := rfl
  have hjobs : ∀ source max turns, Job.redrive source max turns ∉ jobs :=
    fun _ _ _ hmem => nomatch List.mem_singleton.mp hmem
  have hended : ∀ i, ((r.raceBatch accounts deletes start order).racers i).ended? ≠ none := by
    unfold start order deletes accounts jobs r a b
    decide +kernel
  have hfirst : r.RunsBatch accounts start deletes first := .amid hended
  have hpage : ({} : Config).migration.reconcilePageSize.toNat ≤ ({} : Config).bulk.maxRemovals := by
    decide
  exact ⟨hconfig, hpage, hjobs, hfirst,
    rerun_changes_nothing_iff hconfig hpage hjobs hfirst 2 {}⟩

/-- An account is created and deleted.  A batch with it writes its row, which the sweep of
    the batch removes together with the tombstone.  When the batch is run again, the row is
    back. -/
theorem rerun_restores_deleted :
    let a : Account := ⟨⟨.replicate 16 1, rfl⟩, "+1", 1, {}⟩
    let r : Registry := ⟨{}⟩
    let jobs : List Job := [.call (.create a 1), .call (.delete a.uuid 2)]
    let start := r.leaves jobs (Testbed.ofTables ({} : Config).tables).database
    let first := (r.migrateBatch [a] 1).run Database.handler start
    let second := (r.migrateBatch [a] 1).run Database.handler first.state
    first.result.any (·.isOk) = true ∧ second.result.any (·.isOk) = true ∧
      first.state.items "accounts" = [] ∧ second.state.items "accounts" = [Row.ofAccount a] ∧
      second.state ≠ first.state := by
  intro a r jobs start first second
  have hruns : first.result.any (·.isOk) = true ∧ second.result.any (·.isOk) = true ∧
      first.state.items "accounts" = [] ∧
      second.state.items "accounts" = [Row.ofAccount a] := by
    unfold second first start jobs r a
    decide +kernel
  obtain ⟨hfirst, hsecond, hgone, hback⟩ := hruns
  refine ⟨hfirst, hsecond, hgone, hback, fun hsame => ?_⟩
  rw [hsame, hgone] at hback
  cases hback

end Registry

end LoginRegistry
