import LoginRegistry.Proofs.Migration.Migrating
import LoginRegistry.Proofs.Migration.Redriving
import LoginRegistry.Proofs.Registry.Runs

/-! # Failed migrations heal

    However the writes of a migration fail, each account ends queued or held: its
    row is as new as it or newer, and its login is bound (`Contents.Attempted`).
    Accounts that are all held determine the account and login tables, whatever the
    order in which they got there.  So once the queue is driven empty, the tables are
    those of a migration that nothing befell (`redrive_heals`).
-/

namespace LoginRegistry

open Store (Operation)

/-! ### Accounts to migrate -/

/-- Accounts that agree with each other: an id has one login, a login has one id, and
    an id and a version stand for one account. -/
structure Coherent (accounts : List Account) : Prop where
  /-- An id comes with one login. -/
  login_eq : ∀ a ∈ accounts, ∀ b ∈ accounts, a.uuid = b.uuid → a.login = b.login
  /-- A login comes with one id. -/
  uuid_eq : ∀ a ∈ accounts, ∀ b ∈ accounts, a.login = b.login → a.uuid = b.uuid
  /-- An id and a version come with one account. -/
  eq : ∀ a ∈ accounts, ∀ b ∈ accounts, a.uuid = b.uuid →
    a.migrationVersion = b.migrationVersion → a = b

/-- The source loads for the id of each account the latest of the accounts. -/
def LegacySource.HasLatest (source : LegacySource) (accounts : List Account) : Prop :=
  ∀ a ∈ accounts, ∃ b ∈ accounts, source.loadInWorker a.uuid = .account (some b) ∧
    b.uuid = a.uuid ∧
    ∀ a' ∈ accounts, a'.uuid = a.uuid → a'.migrationVersion ≤ b.migrationVersion

namespace Contents

variable {c c' : Contents} {a b : Account} {accounts done : List Account}

/-! ### Held accounts -/

/-- An account is held: its row is not older, and its login is bound to it. -/
structure Holds (c : Contents) (a : Account) : Prop where
  /-- There is a row that is not older. -/
  row : ∃ b, c.accounts.get? a.uuid = some b ∧ a.migrationVersion ≤ b.migrationVersion
  /-- The login is the account's. -/
  login : c.logins.get? a.login = some a.uuid

/-- A held account stays held, whatever is attempted. -/
theorem Holds.attempt (h : c.Holds b) (row login queued : Bool) :
    (c.attempt a row login queued).Holds b := by
  constructor
  · obtain ⟨b', hb', hle⟩ := h.row
    cases row with
    | false => exact ⟨b', hb', hle⟩
    | true =>
      obtain ⟨b'', hb'', hle'⟩ := c.accounts.exists_get?_migrate a hb'
      exact ⟨b'', hb'', Int32.le_trans hle hle'⟩
  · cases login with
    | false => exact h.login
    | true => exact c.get?_migratedLogins_of_some a h.login

/-- A migrated account is held. -/
theorem holds_attempt (hfree : ∀ v, c.logins.get? a.login = some v → v = a.uuid) (queued : Bool) :
    (c.attempt a true true queued).Holds a := by
  constructor
  · exact c.accounts.exists_get?_migrate_self a
  · rw [attempt_logins, if_pos rfl, c.migratedLogins_of_free a hfree,
      SortedMap.get?_insert_self]

/-- With an account every earlier one is held. -/
theorem Holds.of_le (h : c.Holds b) (huuid : a.uuid = b.uuid) (hlogin : a.login = b.login)
    (hle : a.migrationVersion ≤ b.migrationVersion) : c.Holds a := by
  constructor
  · obtain ⟨b', hb', hle'⟩ := h.row
    exact ⟨b', huuid ▸ hb', Int32.le_trans hle hle'⟩
  · rw [hlogin, huuid, h.login]

/-! ### Attempted accounts -/

/-- Nothing is stored, bound or queued but for these accounts. -/
structure Drawn (accounts : List Account) (c : Contents) : Prop where
  /-- Each row is one of the accounts. -/
  row_mem : ∀ u a, c.accounts.get? u = some a → a ∈ accounts
  /-- Each login is bound for one of the accounts. -/
  login_mem : ∀ l u, c.logins.get? l = some u → ∃ a ∈ accounts, a.login = l ∧ a.uuid = u
  /-- Each entry is queued for one of the accounts. -/
  retry_mem : ∀ u l, c.retries.get? u = some l → ∃ a ∈ accounts, a.uuid = u

/-- Some accounts were attempted: nothing is stored, bound or queued but for them, and each of
    them is queued or held. -/
structure Attempted (accounts : List Account) (c : Contents) : Prop extends Drawn accounts c where
  /-- Each account that is not queued is held. -/
  holds : ∀ a ∈ accounts, c.retries.get? a.uuid = none → c.Holds a

theorem attempted_nil : Attempted [] {} where
  row_mem := nofun
  login_mem := nofun
  retry_mem := nofun
  holds := nofun

theorem Drawn.subset (h : Drawn done c) (hdone : done ⊆ accounts) : Drawn accounts c where
  row_mem u b hb := hdone (h.row_mem u b hb)
  login_mem l u hu := by
    obtain ⟨b, hb, hbound⟩ := h.login_mem l u hu
    exact ⟨b, hdone hb, hbound⟩
  retry_mem u l hu := by
    obtain ⟨b, hb, huuid⟩ := h.retry_mem u l hu
    exact ⟨b, hdone hb, huuid⟩

/-- The login of one of the accounts is free or bound to it. -/
theorem Drawn.free (h : Drawn accounts c) (hcoherent : Coherent accounts) (ha : a ∈ accounts)
    {v : Uuid} (hv : c.logins.get? a.login = some v) : v = a.uuid := by
  obtain ⟨b, hb, hlogin, rfl⟩ := h.login_mem _ _ hv
  exact hcoherent.uuid_eq b hb a ha hlogin

/-- An account may be attempted in any part. -/
theorem Drawn.attempt (h : Drawn accounts c) (ha : a ∈ accounts) (row login queued : Bool) :
    Drawn accounts (c.attempt a row login queued) where
  row_mem u b hb := by
    cases row with
    | false => exact h.row_mem u b hb
    | true =>
      rcases c.accounts.eq_or_get?_of_get?_migrate a hb with rfl | hb
      · exact ha
      · exact h.row_mem u b hb
  login_mem l u hu := by
    cases login with
    | false => exact h.login_mem l u hu
    | true =>
      rcases c.eq_or_get?_of_get?_migratedLogins a hu with ⟨rfl, rfl⟩ | hu
      · exact ⟨a, ha, rfl, rfl⟩
      · exact h.login_mem l u hu
  retry_mem u l hu := by
    cases queued with
    | false => exact h.retry_mem u l hu
    | true =>
      rw [attempt_retries, if_pos rfl, SortedMap.get?_insert_eq] at hu
      split at hu
      · next heq => exact ⟨a, ha, heq.symm⟩
      · exact h.retry_mem u l hu

theorem Drawn.dropRetry (h : Drawn accounts c) (u : Uuid) : Drawn accounts (c.dropRetry u) where
  row_mem := h.row_mem
  login_mem := h.login_mem
  retry_mem v l hv := by
    rw [dropRetry_retries, SortedMap.get?_erase_eq] at hv
    split at hv
    · cases hv
    · exact h.retry_mem v l hv

/-- One more attempt, served or queued. -/
theorem Attempted.attempt (h : Attempted done c) (hcoherent : Coherent accounts)
    (hdone : done ++ [a] ⊆ accounts) {row login queued : Bool}
    (hqueued : queued = false → row = true ∧ login = true) :
    Attempted (done ++ [a]) (c.attempt a row login queued) where
  toDrawn := (h.subset (List.subset_append_left done [a])).attempt
    (List.mem_append_right done List.mem_cons_self) row login queued
  holds b hb hnone := by
    have hdrawn : Drawn accounts c :=
      h.subset (List.Subset.trans (List.subset_append_left done [a]) hdone)
    have ha : a ∈ accounts := hdone (List.mem_append_right done List.mem_cons_self)
    cases queued with
    | false =>
      -- Both halves were served, so the account is held like those before it.
      obtain ⟨rfl, rfl⟩ := hqueued rfl
      rcases List.mem_append.mp hb with hb | hb
      · exact (h.holds b hb hnone).attempt true true false
      · obtain rfl := List.mem_singleton.mp hb
        exact holds_attempt (fun v => hdrawn.free hcoherent ha) false
    | true =>
      -- The account itself is queued now, so this is another one.
      rw [attempt_retries, if_pos rfl, SortedMap.get?_insert_eq] at hnone
      split at hnone
      · cases hnone
      · next hne =>
        rcases List.mem_append.mp hb with hb | hb
        · exact (h.holds b hb hnone).attempt row login true
        · exact absurd (congrArg Account.uuid (List.mem_singleton.mp hb)) hne

/-! ### Healed tables -/

section healed

variable (hcoherent : Coherent accounts) (h : Attempted accounts c) (h' : Attempted accounts c')
  (hempty : c.retries = .empty) (hempty' : c'.retries = .empty)

include hcoherent h h' hempty hempty'

/-- The row of an id is the latest of its accounts, so both have it. -/
theorem Attempted.get?_accounts_of_healed {u : Uuid} {a : Account}
    (ha : c.accounts.get? u = some a) : c'.accounts.get? u = some a := by
  have hmem := h.row_mem u a ha
  have hu := AccountMap.uuid_eq ha
  subst hu
  -- The other row is one of the accounts too, and neither is older than the other.
  obtain ⟨b, hb, hle⟩ := (h'.holds a hmem (by rw [hempty']; rfl)).row
  have hbmem := h'.row_mem _ b hb
  have huuid := AccountMap.uuid_eq hb
  obtain ⟨a', ha', hle'⟩ := (h.holds b hbmem (by rw [hempty]; rfl)).row
  rw [huuid, ha] at ha'
  obtain rfl := Option.some.inj ha'
  rw [hb, hcoherent.eq a hmem b hbmem huuid.symm (Int32.le_antisymm hle hle')]

omit hcoherent hempty in
theorem Attempted.get?_logins_of_healed {l : String} {u : Uuid}
    (hu : c.logins.get? l = some u) : c'.logins.get? l = some u := by
  obtain ⟨a, ha, rfl, rfl⟩ := h.login_mem l u hu
  exact (h'.holds a ha (by rw [hempty']; rfl)).login

theorem Attempted.accounts_eq : c.accounts = c'.accounts := by
  apply AccountMap.ext_get?
  intro u
  refine Option.ext fun a => ⟨?_, ?_⟩
  · exact h.get?_accounts_of_healed hcoherent h' hempty hempty'
  · exact h'.get?_accounts_of_healed hcoherent h hempty' hempty

omit hcoherent in
theorem Attempted.logins_eq : c.logins = c'.logins := by
  apply SortedMap.ext_get?
  intro l
  refine Option.ext fun u => ⟨?_, ?_⟩
  · exact h.get?_logins_of_healed h' hempty'
  · exact h'.get?_logins_of_healed h hempty

end healed

end Contents

namespace Registry

variable {r : Registry} {exposed : Operation → String → Bool} {c : Contents}
  {accounts done rest : List Account}

/-- Exposes the writes of a migration: puts on the account table and on the login index. -/
def migrationWrites (r : Registry) (operation : Operation) (table : String) : Bool :=
  operation == .put &&
    (table == r.config.tables.accounts || table == r.config.tables.logins)

section valid

variable (hr : Function.Injective r.config.tables.name)

include hr

theorem migrationWrites_retries :
    r.migrationWrites .put r.config.tables.retries = false := by
  have haccounts : r.config.tables.retries ≠ r.config.tables.accounts :=
    hr.ne (nofun : TableId.retries ≠ .accounts)
  have hlogins : r.config.tables.retries ≠ r.config.tables.logins :=
    hr.ne (nofun : TableId.retries ≠ .logins)
  simp only [migrationWrites, beq_eq_false_iff_ne.mpr haccounts, beq_eq_false_iff_ne.mpr hlogins,
    Bool.or_false, Bool.and_false]

/-! ### Migrating from an empty registry -/

/-- The accounts before a point of a migration are attempted, and none is queued if
    nothing is exposed. -/
def Migrating (exposed : Operation → String → Bool) (accounts : List Account) (jobs : List Job)
    (c : Contents) : Prop :=
  ∃ done rest, accounts = done ++ rest ∧
    List.Forall₂ (fun job a => ∃ turns, job = .migrate a turns) jobs rest ∧ c.Attempted done ∧
    (¬ Exposes exposed → c.retries = .empty)

theorem ends_work_migrating (hqueue : exposed .put r.config.tables.retries = false)
    (hcoherent : Coherent accounts) {job : Job} {jobs : List Job}
    (hc : Migrating exposed accounts (job :: jobs) c) :
    r.Ends exposed (r.work job) c fun _ c' => Migrating exposed accounts jobs c' := by
  obtain ⟨done, rest, rfl, hjobs, hdone, hcalm⟩ := hc
  obtain ⟨a, rest, ⟨turns, rfl⟩, hrest, rfl⟩ := List.forall₂_cons_left_iff.mp hjobs
  have hsubset : done ++ [a] ⊆ done ++ a :: rest :=
    List.append_subset.mpr ⟨List.subset_append_left _ _, List.cons_subset.mpr
      ⟨List.mem_append_right _ List.mem_cons_self, List.nil_subset _⟩⟩
  have hlater : ∀ {c'}, c'.Attempted (done ++ [a]) → (¬ Exposes exposed → c'.retries = .empty) →
      Migrating exposed (done ++ a :: rest) jobs c' :=
    fun hdone hcalm => ⟨done ++ [a], rest, by rw [List.append_assoc]; rfl, hrest, hdone, hcalm⟩
  refine ends_discard (ends_migrate hr hqueue ?_ ?_)
  · intro applied queued hqueued
    refine hlater (hdone.attempt hcoherent hsubset fun _ => ⟨rfl, rfl⟩) fun hnone => ?_
    cases queued with
    | false => exact hcalm hnone
    | true => exact absurd (hqueued rfl) hnone
  · intro hexposes e row login
    exact hlater (hdone.attempt hcoherent hsubset nofun) fun hnone => absurd hexposes hnone

theorem after_migrations (hqueue : exposed .put r.config.tables.retries = false)
    (hcoherent : Coherent accounts) (turns : Nat → List Bool) (schedule : Schedule) :
    ∃ c, (r.after (.genuine exposed) (accounts.mapIdx fun i a => .migrate a (turns i))
        (schedule, r.store {})).2 = r.store c ∧
      c.Attempted accounts ∧ (¬ Exposes exposed → c.retries = .empty) := by
  have hstart : Migrating exposed accounts (accounts.mapIdx fun i a => .migrate a (turns i)) {} :=
    ⟨[], accounts, rfl, Script.forall₂_mapIdx fun i _ _ => ⟨turns i, rfl⟩,
      Contents.attempted_nil, fun _ => rfl⟩
  obtain ⟨c, hstate, done, _, rfl, ⟨⟩, hdone, hcalm⟩ := after_induction
    (fun _ _ _ => ends_work_migrating hr hqueue hcoherent) hstart schedule
  rw [List.append_nil] at hstate ⊢
  exact ⟨c, hstate, hdone, hcalm⟩

/-! ### Driving the queue empty -/

/-- What holds while entries are driven: those that are left are among them, and accounts of
    other ids are held. -/
structure Draining (accounts : List Account) (entries : List Uuid) (c : Contents) : Prop where
  /-- Nothing is stored but for the accounts. -/
  drawn : c.Drawn accounts
  /-- Each account that is not driven is held. -/
  holds : ∀ a ∈ accounts, a.uuid ∉ entries → c.Holds a
  /-- Each entry is driven. -/
  queued : ∀ u, c.retries.get? u ≠ none → u ∈ entries

omit hr in
/-- Each entry is that of an account, which the source has. -/
theorem Draining.driveStep {source : LegacySource} {entries : List Uuid}
    (hloaded : ∀ u ∈ entries, ∃ b ∈ accounts, source.loadInWorker u = .account (some b) ∧
      b.uuid = u) {u : Uuid} (hu : u ∈ entries) {c' : Contents}
    (h : Draining accounts entries c) (hstep : c.DriveStep source u c') :
    Draining accounts entries c' := by
  obtain ⟨b, hb, hload, huuid⟩ := hloaded u hu
  cases hstep with
  | @attempt a row login queued ha =>
    obtain rfl : a = b := Option.some.inj (Loaded.account.inj (ha.symm.trans hload))
    refine ⟨h.drawn.attempt hb row login queued, fun a' ha' hnot => ?_, fun v hv => ?_⟩
    · exact (h.holds a' ha' hnot).attempt row login queued
    · cases queued with
      | false => exact h.queued v hv
      | true =>
        rw [Contents.attempt_retries, if_pos rfl, SortedMap.get?_insert_eq] at hv
        split at hv
        · next heq => exact (heq.trans huuid) ▸ hu
        · exact h.queued v hv
  | drop =>
    refine ⟨h.drawn.dropRetry u, fun a ha hnot => ?_, fun v hv => ?_⟩
    · exact ⟨(h.holds a ha hnot).row, (h.holds a ha hnot).login⟩
    · rw [Contents.dropRetry_retries, SortedMap.get?_erase_eq] at hv
      split at hv
      · exact absurd rfl hv
      · exact h.queued v hv
  | release _ hnone | erase hnone =>
    rw [hload] at hnone
    cases hnone

omit hr in
/-- An account that was driven is held. -/
theorem Draining.holds_of_drove (hcoherent : Coherent accounts) {source : LegacySource}
    {entries : List Uuid}
    (hloaded : ∀ u ∈ entries, ∃ b ∈ accounts, source.loadInWorker u = .account (some b) ∧
      b.uuid = u) {u : Uuid} {b : Account} (hb : b ∈ accounts)
    (hload : source.loadInWorker u = .account (some b)) {outcome : RedriveOutcome}
    {c' : Contents} (h : Draining accounts entries c)
    (hdrove : c.Drove source entries False c' u outcome) :
    c'.Holds b ∧ outcome.isDriven = true := by
  cases hdrove with
  | kept hspoilt => exact (hspoilt b hload).elim
  | dropped hnone =>
    rw [hload] at hnone
    cases hnone
  | @migrated a c₁ ha hrow hbefore hafter =>
    obtain rfl : a = b := Option.some.inj (Loaded.account.inj (ha.symm.trans hload))
    have hbound := hbefore.keeps (fun _ hu _ _ hstep h => Draining.driveStep hloaded hu h hstep) h
    have hheld : (c₁.attempt a false true false).logins.get? a.login = some a.uuid := by
      rw [Contents.attempt_logins, if_pos rfl,
        c₁.migratedLogins_of_free a fun v => hbound.drawn.free hcoherent hb,
        SortedMap.get?_insert_self]
    refine ⟨⟨hrow, ?_⟩, rfl⟩
    -- A login that is bound stays bound, as nothing is deleted.
    refine hafter.keeps (P := fun c => c.logins.get? a.login = some a.uuid) ?_ hheld
    intro v hv c₂ c₃ hstep hlogin
    obtain ⟨_, -, hsome, -⟩ := hloaded v hv
    cases hstep with
    | attempt row login queued _ =>
      cases login with
      | false => exact hlogin
      | true => exact c₂.get?_migratedLogins_of_some _ hlogin
    | drop => exact hlogin
    | release _ hnone | erase hnone =>
      rw [hsome] at hnone
      cases hnone

theorem ends_redrive_draining (hcoherent : Coherent accounts) {source : LegacySource}
    (hsource : source.HasLatest accounts) {max : Option Nat} {turns : Turns}
    (hmax : c.retries.size ≤ max.getD r.config.migration.redriveBatchSize.toNat)
    (hc : c.Attempted accounts) :
    r.Ends (fun _ _ => false) (r.redrive source max turns) c
      fun _ c' => c'.Attempted accounts ∧ c'.retries = .empty := by
  have hentry : ∀ u, (c.retries.get? u).isSome → ∃ b ∈ accounts,
      source.loadInWorker u = .account (some b) ∧ b.uuid = u ∧
      ∀ a ∈ accounts, a.uuid = u → a.migrationVersion ≤ b.migrationVersion := by
    intro u hu
    obtain ⟨l, hl⟩ := Option.isSome_iff_exists.mp hu
    obtain ⟨a, ha, rfl⟩ := hc.retry_mem u l hl
    exact hsource a ha
  refine Ends.mono (ends_redrive hr (fun u hu a ha => ?_) turns) ?_
  · obtain ⟨b, -, hload, huuid, -⟩ := hentry u hu
    rw [hload] at ha
    rwa [← Option.some.inj (Loaded.account.inj ha)]
  rintro o c' (⟨_, -, -, _, _, ⟨⟩⟩ | ⟨entries, report, outcomes, -, hentries, hdrives, houtcomes⟩)
  -- The list is long enough for the whole queue.
  rw [List.take_of_length_le (by rwa [SortedMap.keys, List.length_map])] at hentries
  have hmem : ∀ u, u ∈ entries ↔ (c.retries.get? u).isSome := by
    intro u
    rw [hentries]
    exact SortedMap.mem_keys_iff _ u
  have hloaded : ∀ u ∈ entries, ∃ b ∈ accounts, source.loadInWorker u = .account (some b) ∧
      b.uuid = u := by
    intro u hu
    obtain ⟨b, hb, hload, huuid, -⟩ := hentry u ((hmem u).mp hu)
    exact ⟨b, hb, hload, huuid⟩
  have hstart : Draining accounts entries c := by
    refine ⟨hc.toDrawn, fun a ha hnot => hc.holds a ha ?_, fun u hu => ?_⟩
    · exact Option.not_isSome_iff_eq_none.mp (mt (hmem _).mpr hnot)
    · exact (hmem u).mpr (Option.isSome_iff_ne_none.mpr hu)
  have hend := hdrives.keeps (fun _ hu _ _ hstep h => Draining.driveStep hloaded hu h hstep) hstart
  have hdriven : ∀ u ∈ entries, ∃ b ∈ accounts, b.uuid = u ∧ c'.Holds b ∧
      (∀ a ∈ accounts, a.uuid = u → a.migrationVersion ≤ b.migrationVersion) ∧
      c'.retries.get? u = none := by
    intro u hu
    obtain ⟨b, hb, hload, huuid, hlatest⟩ := hentry u ((hmem u).mp hu)
    obtain ⟨outcome, -, hdrove, hqueued⟩ := Script.exists_of_forall₂ houtcomes hu
    rw [eq_false not_exposes] at hdrove
    obtain ⟨hholds, hdriven⟩ :=
      hstart.holds_of_drove hcoherent hloaded hb hload hdrove
    refine ⟨b, hb, huuid, hholds, hlatest, Option.not_isSome_iff_eq_none.mp fun hsome => ?_⟩
    rw [hqueued.mp hsome] at hdriven
    cases hdriven
  have hempty : c'.retries = .empty := by
    refine SortedMap.ext_get? fun u => ?_
    by_contra hu
    obtain ⟨-, -, -, -, -, hnone⟩ := hdriven u (hend.queued u hu)
    exact hu hnone
  refine ⟨{ hend.drawn with holds := fun a ha _ => ?_ }, hempty⟩
  by_cases ha' : a.uuid ∈ entries
  · obtain ⟨b, hb, huuid, hholds, hlatest, -⟩ := hdriven _ ha'
    exact hholds.of_le huuid.symm (hcoherent.login_eq a ha b hb huuid.symm) (hlatest a ha rfl)
  · exact hend.holds a ha ha'

end valid

/-! ### Healing -/

/-- Accounts that agree with each other are migrated from an empty registry one by one,
    while puts on the account table and the login index fail or panic at will.  If then
    the source has the latest of the accounts of each id, one re-drive of the whole queue
    that nothing befalls leaves the queue empty, and the account table and the login
    index as they are after the same migration if nothing befalls it.  The order in which the
    workers of the migrations and of the re-drive move does not matter. -/
theorem redrive_heals {config : Config} {r : Registry} (h : ofConfig config = .ok r)
    {accounts : List Account} (hcoherent : Coherent accounts) {source : LegacySource}
    (hsource : source.HasLatest accounts) (schedule : Schedule) (max : Option Nat)
    (failedTurns healthyTurns : Nat → List Bool) (turns : Turns) :
    let fresh := (Testbed.ofTables config.tables).database
    let jobs := fun turns : Nat → List Bool => accounts.mapIdx fun i a => .migrate a (turns i)
    let failed := (r.after (.genuine r.migrationWrites) (jobs failedTurns) (schedule, fresh)).2
    let healed := ((r.redrive source max turns).run Store.Database.handler failed).state
    let healthy := (r.after .calm (jobs healthyTurns) ([], fresh)).2
    failed.itemCount config.tables.retries
        ≤ max.getD config.migration.redriveBatchSize.toNat →
      healed.itemCount config.tables.retries = 0 ∧
        healed.get? config.tables.accounts = healthy.get? config.tables.accounts ∧
        healed.get? config.tables.logins = healthy.get? config.tables.logins := by
  obtain ⟨rfl, hr⟩ := name_injective_of_ofConfig h
  rw [store_empty hr]
  intro fresh jobs failed healed healthy hmax
  obtain ⟨c, hfailed, hattempted, -⟩ :=
    after_migrations hr (migrationWrites_retries hr) hcoherent failedTurns schedule
  have hcalm : ∃ d, healthy = r.store d ∧ d.Attempted accounts ∧
      (¬ Exposes (fun (_ : Operation) (_ : String) => false) → d.retries = .empty) :=
    after_migrations hr rfl hcoherent healthyTurns []
  obtain ⟨d, hhealthy, hattempted', hempty'⟩ := hcalm
  have hempty' := hempty' fun ⟨_, _, hx⟩ => by cases hx
  have hfailed : failed = r.store c := hfailed
  rw [hfailed, itemCount_retries hr] at hmax
  obtain ⟨c', hhealed, hdriven, hempty⟩ :=
    (ends_redrive_draining hr hcoherent hsource hmax hattempted).run_calm
  rw [← hfailed] at hhealed
  have hhealed : healed = r.store c' := hhealed
  rw [hhealed, hhealthy]
  refine ⟨?_, ?_, ?_⟩
  · rw [itemCount_retries hr, hempty]
    rfl
  · have haccounts : c'.accounts = d.accounts :=
      hdriven.accounts_eq hcoherent hattempted' hempty hempty'
    exact get?_store_congr hr (i := .accounts) (by simp only [Contents.tables, haccounts])
  · have hlogins : c'.logins = d.logins := hdriven.logins_eq hattempted' hempty hempty'
    exact get?_store_congr hr (i := .logins) (by simp only [Contents.tables, hlogins])

/-- Two versions of an account, the first of which fails in both halves and the second
    at its login.  The workers take turns in the first migration. -/
theorem redrive_heals_default :
    let a : Account := ⟨⟨.replicate 16 1, rfl⟩, "+1", 1, {}⟩
    let b : Account := { a with migrationVersion := 2 }
    let source : LegacySource := ({} : LegacySource).insert b
    let failedTurns : Nat → List Bool := fun i => if i = 0 then [true, false] else []
    let jobs : List Job := [a, b].mapIdx fun i a => .migrate a (failedTurns i)
    let schedule : Schedule := [some .panic, some (.failure (.throttled "accounts_logins")), none,
      none, none, some .panic]
    let fresh := (Testbed.ofTables ({} : Config).tables).database
    let failed := ((⟨{}⟩ : Registry).after (.genuine (migrationWrites ⟨{}⟩)) jobs
      (schedule, fresh)).2
    let healed := (((⟨{}⟩ : Registry).redrive source (some 1)).run
      Store.Database.handler failed).state
    Registry.ofConfig {} = .ok ⟨{}⟩ ∧ Coherent [a, b] ∧ source.HasLatest [a, b] ∧
      failed.itemCount ({} : Config).tables.retries = 1 ∧
      healed.itemCount ({} : Config).tables.retries = 0 := by
  intro a b source failedTurns jobs schedule fresh failed healed
  have hconfig : Registry.ofConfig {} = .ok ⟨{}⟩ := rfl
  have hcoherent : Coherent [a, b] := ⟨by decide, by decide, by decide⟩
  have hsource : source.HasLatest [a, b] := by
    have huuid : ∀ a' ∈ [a, b], a'.uuid = b.uuid := by decide
    have hlatest : ∀ a' ∈ [a, b], a'.migrationVersion ≤ b.migrationVersion := by decide
    intro a' ha'
    refine ⟨b, by decide, ?_, (huuid a' ha').symm, fun c hc _ => hlatest c hc⟩
    rw [huuid a' ha']
    rfl
  have hqueued : failed.itemCount ({} : Config).tables.retries = 1 := by decide +kernel
  have hhealed := redrive_heals hconfig hcoherent hsource schedule (some 1) failedTurns
    (fun _ => []) {} (Nat.le_of_eq hqueued)
  exact ⟨hconfig, hcoherent, hsource, hqueued, hhealed.1⟩

end Registry

end LoginRegistry
