import LoginRegistry.Proofs.Migration.Rerunning

/-! # Versions that go down

    A migration replaces a row by a newer one only.  A create compares no versions: it
    stores the account in place of a row that has its login, and if the login belongs to
    another account, that one takes over its payload and version.  So while a row is
    there, its version goes down exactly at the creates that bring an older one
    (`version_goes_down_iff`).

    Without deletes there are no tombstones, so the sweep of a batch changes nothing, and a
    batch is its migrations, in whatever order its workers make them.
-/

namespace LoginRegistry

open Store (Database)

/-- Creates and migrations, one by one or in batches. -/
def Job.isImport : Job → Bool
  | .call (.create ..) | .migrate .. | .migrateBatch .. => true
  | .call _ | .reconcile | .redrive .. => false

/-! ### Rows that a create lowers -/

namespace Contents

variable {c c' : Contents} {a : Account} {u : Uuid}

/-- A create of the account is stored in the row of an id: in its own, unless its login
    belongs to another. -/
def Receives (c : Contents) (a : Account) (u : Uuid) : Prop :=
  c.Admits a ∧ (c.logins.get? a.login).getD a.uuid = u

/-- A create of the account is stored in the row of an id, and the row is newer. -/
def Lowers (c : Contents) (a : Account) (u : Uuid) : Prop :=
  c.Receives a u ∧ ∃ b, c.accounts.get? u = some b ∧ a.migrationVersion < b.migrationVersion

/-- What a create of the account leaves of the rows that stay. -/
structure Receipt (c : Contents) (a : Account) (c' : Contents) : Prop where
  tombstones : c'.tombstones = c.tombstones
  /-- The row that receives the account has its version. -/
  received : ∀ u b', c.Receives a u → c'.accounts.get? u = some b' →
    b'.migrationVersion = a.migrationVersion
  /-- The others are as they were, or gone. -/
  other : ∀ u b', ¬ c.Receives a u → c'.accounts.get? u = some b' →
    c.accounts.get? u = some b'

theorem receives_of_free (hadmits : c.Admits a)
    (hfree : ∀ v, c.logins.get? a.login = some v → v = a.uuid) : c.Receives a a.uuid := by
  refine ⟨hadmits, ?_⟩
  cases hv : c.logins.get? a.login with
  | none => rfl
  | some v => exact hfree v hv

theorem receives_of_owned {v : Uuid} (hadmits : c.Admits a) (hv : c.logins.get? a.login = some v) :
    c.Receives a v := ⟨hadmits, by rw [hv, Option.getD_some]⟩

theorem Receives.eq {v : Uuid} (hu : c.Receives a u) (hv : c.Receives a v) : u = v :=
  hu.2.symm.trans hv.2

/-- The login is the account's or free, so the account is stored in its own row. -/
theorem receipt_of_claimed (hadmits : c.Admits a)
    (hfree : ∀ v, c.logins.get? a.login = some v → v = a.uuid) (version : Int64) :
    c.Receipt a (((c.putAccount a).bindLogin a.login a.uuid).setVersion version) where
  tombstones := rfl
  received u b' hu hb' := by
    obtain rfl := (receives_of_free hadmits hfree).eq hu
    rw [setVersion_accounts, bindLogin_accounts, putAccount_accounts, AccountMap.get?_put_self] at hb'
    rw [← Option.some.inj hb']
  other u b' hu hb' := by
    have hne : u ≠ a.uuid := by
      rintro rfl
      exact hu (receives_of_free hadmits hfree)
    rwa [setVersion_accounts, bindLogin_accounts, putAccount_accounts,
      AccountMap.get?_put_ne _ hne] at hb'

/-- The login is another's, so the row that was written is withdrawn. -/
theorem get?_withdrawn {b : Account}
    (h : ((c.putAccount a).eraseAccount a.uuid).accounts.get? u = some b) :
    c.accounts.get? u = some b := by
  rw [eraseAccount_accounts, AccountMap.get?_erase] at h
  split at h
  · cases h
  · next hne => rwa [putAccount_accounts, AccountMap.get?_put_ne _ hne] at h

/-- The login is another's, so the account is stored in the row of that one. -/
theorem receipt_of_owned (hadmits : c.Admits a) {v : Uuid} (hv : c.logins.get? a.login = some v)
    {b : Account} (hb : c.accounts.get? v = some b) :
    c.Receipt a (((c.putAccount a).eraseAccount a.uuid).putAccount (b.revised a)) where
  tombstones := rfl
  received u b' hu hb' := by
    obtain rfl := (receives_of_owned hadmits hv).eq hu
    -- The account that is revised keeps its id, so this is its row.
    rw [← AccountMap.uuid_eq hb] at hb'
    obtain rfl := Option.some.inj ((AccountMap.get?_put_self _ (b.revised a)).symm.trans hb')
    rfl
  other u b' hu hb' := by
    have hne : u ≠ (b.revised a).uuid := by
      rintro rfl
      exact hu (AccountMap.uuid_eq hb ▸ receives_of_owned hadmits hv)
    exact get?_withdrawn ((AccountMap.get?_put_ne _ hne).symm.trans hb')

/-- The login is another's, who has no row. -/
theorem receipt_of_missing (hadmits : c.Admits a) {v : Uuid} (hv : c.logins.get? a.login = some v)
    (hb : c.accounts.get? v = none) : c.Receipt a ((c.putAccount a).eraseAccount a.uuid) where
  tombstones := rfl
  received u b' hu hb' := by
    obtain rfl := (receives_of_owned hadmits hv).eq hu
    have hrow := get?_withdrawn hb'
    rw [hb] at hrow
    cases hrow
  other u b' _ hb' := get?_withdrawn hb'

/-- The id is taken, so nothing is stored. -/
theorem receipt_of_not_admits (h : ¬ c.Admits a) : c.Receipt a c where
  tombstones := rfl
  received _ _ hu := absurd hu.1 h
  other _ _ _ := id

/-- A row that stays is older than before exactly if the create lowers it. -/
theorem Receipt.lower_iff (h : c.Receipt a c') {b b' : Account} (hb : c.accounts.get? u = some b)
    (hb' : c'.accounts.get? u = some b') :
    b'.migrationVersion < b.migrationVersion ↔ c.Lowers a u := by
  constructor
  · intro hlower
    have hu : c.Receives a u := by
      by_contra hnot
      obtain rfl := Option.some.inj (hb.symm.trans (h.other u b' hnot hb'))
      exact Int32.lt_irrefl hlower
    exact ⟨hu, b, hb, h.received u b' hu hb' ▸ hlower⟩
  · rintro ⟨hu, b₀, hb₀, hlower⟩
    obtain rfl := Option.some.inj (hb.symm.trans hb₀)
    exact (h.received u b' hu hb').symm ▸ hlower

end Contents

/-! ### Jobs without deletes -/

namespace Registry

variable {r : Registry} {jobs : List Job} {c : Contents} {u : Uuid}

/-- After the jobs on a fresh registry there is a row of an account, and it has the
    version. -/
def VersionAt (r : Registry) (jobs : List Job) (u : Uuid) (version : Int32) : Prop :=
  ∃ c b, r.Reaches jobs c ∧ c.accounts.get? u = some b ∧ b.migrationVersion = version

/-- After the jobs on a fresh registry the job is a create that lowers the row of an
    account. -/
def LowersAt (r : Registry) (jobs : List Job) (job : Job) (u : Uuid) : Prop :=
  ∃ a version c, job = .call (.create a version) ∧ r.Reaches jobs c ∧ c.Lowers a u

/-- After some jobs there is a row of an account, and the others leave it there and do not
    lower it. -/
structure Retains (r : Registry) (first rest : List Job) (u : Uuid) : Prop where
  /-- There is a row all the time. -/
  row : ∀ done, done <+: rest → ∃ version, r.VersionAt (first ++ done) u version
  /-- No job lowers it. -/
  kept : ∀ done job, done ++ [job] <+: rest → ¬ r.LowersAt (first ++ done) job u

theorem Retains.of_prefix {first rest done : List Job} (h : r.Retains first rest u)
    (hdone : done <+: rest) : r.Retains first done u where
  row before hbefore := h.row before (hbefore.trans hdone)
  kept before job hbefore := h.kept before job (hbefore.trans hdone)

section valid

variable (hr : Function.Injective r.config.tables.name)

include hr

/-- A create that nothing befalls leaves a receipt. -/
theorem ends_work_create (a : Account) (version : Int64) (c : Contents) :
    r.Ends (fun _ _ => false) (r.work (.call (.create a version))) c fun _ c' =>
      c.Receipt a c' := by
  have hcreate : r.Leads (fun _ _ => false) (r.create a version) c
      (fun _ c' => c.Receipt a c') fun _ c' => c.Receipt a c' := by
    refine leads_create hr ?_ ?_ ?_ ?_ nofun
    · intro b hb hne
      exact Contents.receipt_of_not_admits fun hadmits => hne (hadmits b hb)
    · exact fun hadmits hfree => Contents.receipt_of_claimed hadmits hfree version
    · exact fun hadmits v hv _ b hb => Contents.receipt_of_owned hadmits hv hb
    · exact fun hadmits v hv _ hnone => Contents.receipt_of_missing hadmits hv hnone
  have hperform : r.Leads (fun _ _ => false) (r.perform (.create a version)) c
      (fun _ c' => c.Receipt a c') fun _ c' => c.Receipt a c' := leads_map hcreate
  refine ends_discard (Ends.mono hperform fun o c' hc' => ?_)
  match o with
  | some (.ok _) => exact hc'
  | some (.error _) => exact hc'
  | none => exact hc'

variable (hbulk : r.config.bulk.validate = .ok ())

include hbulk

/-- Without tombstones a batch is its migrations. -/
theorem Reaches.migrateBatch (h : r.Reaches jobs c) (hempty : c.tombstones = .empty)
    (accounts : List Account) (workers : UInt64) (turns : Turns) :
    ∃ c', r.Reaches (jobs ++ [.migrateBatch accounts workers turns]) c' ∧ c.Migrated accounts c' := by
  have htombstones : c.tables .tombstones = .empty := by
    rw [Contents.tables, hempty]
    rfl
  obtain ⟨-, t, hstate, hworks, hdate⟩ :=
    run_migrateBatch_of_empty hr hbulk c.proper_tables htombstones accounts workers turns
  obtain ⟨c', rfl, hc'⟩ := Contents.works_tables hworks
  refine ⟨c', ?_, hc', fun a ha => Contents.upToDate_of_tables (hdate a ha)⟩
  rw [Reaches, leaves_append, h]
  exact (Script.state_run_discard _ (r.migrateBatch accounts workers turns) _).trans hstate

omit hbulk in
theorem lowersAt_create_iff (h : r.Reaches jobs c) {a : Account} {version : Int64} :
    r.LowersAt jobs (.call (.create a version)) u ↔ c.Lowers a u := by
  constructor
  · rintro ⟨a', version', c', heq, hc', hlowers⟩
    cases heq
    rwa [h.eq hr hc']
  · exact fun hlowers => ⟨a, version, c, rfl, h, hlowers⟩

/-- One more job leaves no tombstones.  A row that stays is older than before exactly if
    the job lowers it. -/
theorem Reaches.exists_import (h : r.Reaches jobs c) (hempty : c.tombstones = .empty) {job : Job}
    (hjob : job.isImport = true) :
    ∃ c', r.Reaches (jobs ++ [job]) c' ∧ c'.tombstones = .empty ∧
      ∀ u b b', c.accounts.get? u = some b → c'.accounts.get? u = some b' →
        (b'.migrationVersion < b.migrationVersion ↔ r.LowersAt jobs job u) := by
  -- A job that is no create lowers nothing, and neither do migrations.
  have hmigrated : ∀ {accounts c'}, c.Migrated accounts c' →
      (∀ a version, job ≠ .call (.create a version)) →
      c'.tombstones = .empty ∧ ∀ u b b', c.accounts.get? u = some b → c'.accounts.get? u = some b' →
        (b'.migrationVersion < b.migrationVersion ↔ r.LowersAt jobs job u) := by
    intro accounts c' hc' hcreate
    refine ⟨hc'.works.tombstones.trans hempty, fun u b b' hb hb' => ?_⟩
    obtain ⟨b₁, hb₁, hle⟩ := hc'.works.exists_row hb
    obtain rfl := Option.some.inj (hb'.symm.trans hb₁)
    refine iff_of_false (Int32.not_lt.mpr hle) ?_
    rintro ⟨a, version, _, heq, -⟩
    exact hcreate a version heq
  match job, hjob with
  | .call (.create a version), _ =>
    obtain ⟨c', hc', hreceipt⟩ := h.step (ends_work_create hr a version c)
    refine ⟨c', hc', hreceipt.tombstones.trans hempty, fun u b b' hb hb' => ?_⟩
    rw [lowersAt_create_iff hr h]
    exact hreceipt.lower_iff hb hb'
  | .migrate a turns, _ =>
    exact ⟨_, h.migrate hr a turns, hmigrated (Contents.migrated_singleton_iff.mpr rfl) nofun⟩
  | .migrateBatch accounts workers turns, _ =>
    obtain ⟨c', hc', hserved⟩ := h.migrateBatch hr hbulk hempty accounts workers turns
    exact ⟨c', hc', hmigrated hserved nofun⟩

theorem exists_reaches_import (hjobs : ∀ job ∈ jobs, job.isImport = true) :
    ∃ c, r.Reaches jobs c ∧ c.tombstones = .empty := by
  induction jobs using List.reverseRecOn with
  | nil => exact ⟨{}, reaches_nil hr, rfl⟩
  | append_singleton jobs job ih =>
    obtain ⟨hfirst, hlast⟩ := List.forall_mem_append.mp hjobs
    obtain ⟨c, hc, hempty⟩ := ih hfirst
    obtain ⟨c', hc', hempty', -⟩ := hc.exists_import hr hbulk hempty (hlast job List.mem_cons_self)
    exact ⟨c', hc', hempty'⟩

theorem version_lower_iff {job : Job} (hjobs : ∀ job' ∈ jobs ++ [job], job'.isImport = true)
    {v w : Int32} (hv : r.VersionAt jobs u v) (hw : r.VersionAt (jobs ++ [job]) u w) :
    w < v ↔ r.LowersAt jobs job u := by
  obtain ⟨hfirst, hlast⟩ := List.forall_mem_append.mp hjobs
  obtain ⟨c, hc, hempty⟩ := exists_reaches_import hr hbulk hfirst
  obtain ⟨c', hc', -, hiff⟩ := hc.exists_import hr hbulk hempty (hlast job List.mem_cons_self)
  obtain ⟨d, b, hd, hb, rfl⟩ := hv
  obtain ⟨d', b', hd', hb', rfl⟩ := hw
  obtain rfl := hc.eq hr hd
  obtain rfl := hc'.eq hr hd'
  exact hiff u b b' hb hb'

/-- A row that stays while no create lowers it does not become older. -/
theorem Retains.version_le {rest : List Job} (h : r.Retains jobs rest u)
    (hjobs : ∀ job ∈ jobs ++ rest, job.isImport = true) {v w : Int32} (hv : r.VersionAt jobs u v)
    (hw : r.VersionAt (jobs ++ rest) u w) : v ≤ w := by
  -- By the last job: it finds a row, which is not older than the first one was.
  induction rest using List.reverseRecOn generalizing w with
  | nil =>
    obtain ⟨c, b, hc, hb, rfl⟩ := hv
    obtain ⟨c', b', hc', hb', rfl⟩ := hw
    rw [List.append_nil] at hc'
    obtain rfl := hc.eq hr hc'
    obtain rfl := Option.some.inj (hb.symm.trans hb')
    exact Int32.le_refl _
  | append_singleton rest job ih =>
    have hpart : rest <+: rest ++ [job] := List.prefix_append rest [job]
    obtain ⟨w₁, hw₁⟩ := h.row rest hpart
    rw [← List.append_assoc] at hjobs hw
    have hfirst : v ≤ w₁ := ih (h.of_prefix hpart) (List.forall_mem_append.mp hjobs).1 hw₁
    have hlast : ¬ w < w₁ := by
      rw [version_lower_iff hr hbulk hjobs hw₁ hw]
      exact h.kept rest job (List.prefix_refl _)
    exact Int32.le_trans hfirst (Int32.not_lt.mp hlast)

omit hbulk in
/-- A migration leaves a row that is not older as it is. -/
theorem Reaches.migrate_of_le (h : r.Reaches jobs c) {a : Account} {v : Int32}
    (hv : r.VersionAt jobs a.uuid v) (ha : a.migrationVersion ≤ v) (turns : List Bool) :
    ∃ c', r.Reaches (jobs ++ [.migrate a turns]) c' ∧ c'.accounts = c.accounts := by
  obtain ⟨d, b, hd, hb, rfl⟩ := hv
  obtain rfl := h.eq hr hd
  exact ⟨_, h.migrate hr a turns, AccountMap.migrate_of_current _ _ hb (Int32.not_lt.mpr ha)⟩

end valid

/-- Accounts are created on a fresh registry and migrated to it, one by one or in batches, and
    the workers take any turns.  All these jobs leave contents, and while the row of an account
    is there:

    * Its version goes down at a job if and only if the job is a create that lowers it.
    * As long as there is no such create its version does not go down, and a migration of
      the account that is not newer than the row has been leaves all rows as they are. -/
theorem version_goes_down_iff {config : Config} (h : ofConfig config = .ok r)
    (hjobs : ∀ job ∈ jobs, job.isImport = true) :
    (∀ done, done <+: jobs → ∃ c, r.Reaches done c) ∧
      (∀ done job, done ++ [job] <+: jobs → ∀ u v w, r.VersionAt done u v →
        r.VersionAt (done ++ [job]) u w → (w < v ↔ r.LowersAt done job u)) ∧
      ∀ first rest, first ++ rest <+: jobs → ∀ u v, r.VersionAt first u v →
        r.Retains first rest u → (∀ w, r.VersionAt (first ++ rest) u w → v ≤ w) ∧
          ∀ a turns c, a.uuid = u → a.migrationVersion ≤ v → r.Reaches (first ++ rest) c →
            ∃ c', r.Reaches (first ++ rest ++ [.migrate a turns]) c' ∧ c'.accounts = c.accounts := by
  obtain ⟨rfl, -, hbulk⟩ := validate_of_ofConfig h
  obtain ⟨-, hr⟩ := name_injective_of_ofConfig h
  have himport : ∀ done, done <+: jobs → ∀ job ∈ done, job.isImport = true :=
    fun done hdone job hjob => hjobs job (hdone.subset hjob)
  refine ⟨fun done hdone => ?_, fun done job hdone u v w => ?_, ?_⟩
  · obtain ⟨c, hc, -⟩ := exists_reaches_import hr hbulk (himport done hdone)
    exact ⟨c, hc⟩
  · exact version_lower_iff hr hbulk (himport _ hdone)
  · intro first rest hpart u v hv hretains
    have hle : ∀ w, r.VersionAt (first ++ rest) u w → v ≤ w :=
      fun w => hretains.version_le hr hbulk (himport _ hpart) hv
    refine ⟨hle, ?_⟩
    rintro a turns c rfl ha hc
    obtain ⟨w, hw⟩ := hretains.row rest (List.prefix_refl rest)
    exact hc.migrate_of_le hr hw (Int32.le_trans ha (hle w hw)) turns

/-- A newer version comes with a batch, and an older one that is under way with it leaves it. -/
theorem version_goes_down_iff_default :
    let a (version : Int32) : Account := ⟨⟨.replicate 16 1, rfl⟩, "+1", version, {}⟩
    let r : Registry := ⟨{}⟩
    let batch : Job := .migrateBatch [a 4, a 2] 2 { accounts := [1] }
    let jobs : List Job := [.migrate (a 3), batch]
    ofConfig {} = .ok r ∧ (∀ job ∈ jobs, job.isImport = true) ∧
      r.VersionAt [.migrate (a 3)] (a 3).uuid 3 ∧ r.VersionAt jobs (a 3).uuid 4 ∧
      ((4 : Int32) < 3 ↔ r.LowersAt [.migrate (a 3)] batch (a 3).uuid) := by
  intro a r batch jobs
  have hconfig : ofConfig {} = .ok r := rfl
  obtain ⟨-, -, hbulk⟩ := validate_of_ofConfig hconfig
  obtain ⟨-, hr⟩ := name_injective_of_ofConfig hconfig
  have hjobs : ∀ job ∈ jobs, job.isImport = true := by
    intro job hjob
    simp only [jobs, List.mem_cons, List.not_mem_nil, or_false] at hjob
    rcases hjob with rfl | rfl <;> rfl
  have hfirst := (reaches_nil hr).migrate hr (a 3)
  have hthree : r.VersionAt [.migrate (a 3)] (a 3).uuid 3 :=
    ⟨_, a 3, hfirst, by decide +kernel, rfl⟩
  have hfour : r.VersionAt jobs (a 3).uuid 4 := by
    obtain ⟨c, hc, hmigrated⟩ := hfirst.migrateBatch hr hbulk rfl [a 4, a 2] 2 { accounts := [1] }
    obtain ⟨b, hb, hle⟩ := (hmigrated.upToDate (a 4) List.mem_cons_self).row
    refine ⟨c, b, hc, hb, ?_⟩
    rcases hmigrated.works.row hb with hmem | hrow
    · simp only [List.mem_cons, List.not_mem_nil, or_false] at hmem
      obtain rfl | rfl := hmem
      · rfl
      · exact absurd hle (by decide)
    · obtain rfl : a 3 = b := Option.some.inj (Eq.trans (by decide +kernel) hrow)
      exact absurd hle (by decide)
  refine ⟨hconfig, hjobs, hthree, hfour, ?_⟩
  exact (version_goes_down_iff hconfig hjobs).2.1 _ _ (List.prefix_refl jobs) _ _ _ hthree hfour

/-- An account is migrated with version 3.  A create stores it once more with version 0, and
    then a migration with version 2 replaces it. -/
theorem create_lowers_version :
    let a (version : Int32) : Account := ⟨⟨.replicate 16 1, rfl⟩, "+1", version, {}⟩
    let r : Registry := ⟨{}⟩
    let rows (jobs : List Job) :=
      (r.leaves jobs (Testbed.ofTables ({} : Config).tables).database).items "accounts"
    rows [.migrate (a 3)] = [Row.ofAccount (a 3)] ∧
      rows [.migrate (a 3), .call (.create (a 0) 1)] = [Row.ofAccount (a 0)] ∧
      rows [.migrate (a 3), .call (.create (a 0) 1), .migrate (a 2)] = [Row.ofAccount (a 2)] := by
  intro a r rows
  unfold rows r a
  decide +kernel

end Registry

end LoginRegistry
