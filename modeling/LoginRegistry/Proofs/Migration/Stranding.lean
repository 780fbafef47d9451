import LoginRegistry.Proofs.Migration.Recording
import LoginRegistry.Proofs.Registry.Backing
import LoginRegistry.Proofs.Registry.Stepwise

/-! # Stranded logins

    A migration looks at the version of the row and at the owner of the login, each by
    itself, and never at the login that the row had.  So an account whose login has
    changed in the source strands a login: the new row goes in over a row that still
    owns its old login, or the old login is bound although the row has moved on.  In a
    batch the two may also be of different entries for the account, and the order of the
    requests tells which of them are left.

    `backed_migrated_iff`: on contents in which logins are backed, migrations leave them
    backed exactly if they strand none, in whatever order they are made.  So a run keeps its
    logins backed exactly as long as it strands none (`logins_backed_iff_not_stranded`).
-/

namespace LoginRegistry

open Store (Database)

namespace Contents

variable {c c' : Contents} {a b : Account} {u : Uuid} {accounts : List Account}

/-- Migrations strand a login of an account: the row that they leave has another login than
    the account, to which its login is bound by now, or than the row that they have found,
    which owned its login. -/
def Strands (c c' : Contents) (a : Account) : Prop :=
  ∃ b', c'.accounts.get? a.uuid = some b' ∧
    (b'.login ≠ a.login ∧ c'.logins.get? a.login = some a.uuid ∨
      ∃ b, c.accounts.get? a.uuid = some b ∧ b'.login ≠ b.login ∧
        c.logins.get? b.login = some a.uuid)

/-- What is stranded is not backed. -/
theorem Strands.not_backed (h : c.Strands c' a) {spoilt : Prop}
    (hworks : c.Works accounts spoilt c') : ¬ c'.Backed := by
  intro hbacked
  obtain ⟨b', hb', ⟨hne, hbound⟩ | ⟨b, -, hne, hbound⟩⟩ := h
  · obtain ⟨d, hd, hlogin⟩ := hbacked a.login a.uuid hbound
    obtain rfl := Option.some.inj (hb'.symm.trans hd)
    exact hne hlogin
  · obtain ⟨d, hd, hlogin⟩ := hbacked b.login a.uuid (hworks.get?_logins hbound)
    obtain rfl := Option.some.inj (hb'.symm.trans hd)
    exact hne hlogin

/-- What is not stranded stays backed. -/
theorem Backed.migrated (h : c.Backed) (hmigrated : c.Migrated accounts c')
    (hnot : ∀ a ∈ accounts, ¬ c.Strands c' a) : c'.Backed := by
  intro l u hu
  rcases hmigrated.works.login hu with ⟨a, ha, rfl, rfl⟩ | hbound
  · obtain ⟨b', hb', -⟩ := (hmigrated.upToDate a ha).row
    refine ⟨b', hb', ?_⟩
    by_contra hne
    exact hnot a ha ⟨b', hb', .inl ⟨hne, hu⟩⟩
  · obtain ⟨b, hb, rfl⟩ := h l u hbound
    obtain ⟨b', hb', -⟩ := hmigrated.works.exists_row hb
    refine ⟨b', hb', ?_⟩
    rcases hmigrated.works.row hb' with hmem | hsame
    · -- The row is that of an account, and has the login that the row before it owned.
      obtain rfl := AccountMap.uuid_eq hb'
      by_contra hne
      exact hnot b' hmem ⟨b', hb', .inr ⟨b, hb, hne, hbound⟩⟩
    · rw [Option.some.inj (hb.symm.trans hsame)]

/-- Migrations leave backed logins backed exactly if they strand none. -/
theorem backed_migrated_iff (h : c.Backed) (hmigrated : c.Migrated accounts c') :
    c'.Backed ↔ ∀ a ∈ accounts, ¬ c.Strands c' a :=
  ⟨fun hbacked _ _ hstrands => hstrands.not_backed hmigrated.works hbacked,
    h.migrated hmigrated⟩

/-! ### Accounts that strand a login -/

/-- The login of the account has changed: its row has another one, which the row
    owns while a newer row replaces it, or the account's login is free while a row that
    is not older stays. -/
def Diverges (c : Contents) (a : Account) : Prop :=
  ∃ b, c.accounts.get? a.uuid = some b ∧ b.login ≠ a.login ∧
    if b.migrationVersion < a.migrationVersion then c.logins.get? b.login = some a.uuid
    else c.logins.get? a.login = none

/-- A single migration strands a login exactly if that of the account has changed. -/
theorem strands_attempt_iff (h : c.Backed) :
    c.Strands (c.attempt a true true false) a ↔ c.Diverges a := by
  by_cases hold : ∀ b, c.accounts.get? a.uuid = some b → b.migrationVersion < a.migrationVersion
  · -- The row is the account's in the end.
    have hrow : (c.attempt a true true false).accounts.get? a.uuid = some a := by
      rw [attempt_accounts, if_pos rfl, AccountMap.migrate_of_outdated _ _ hold,
        AccountMap.get?_put_self]
    constructor
    · rintro ⟨b', hb', hcase⟩
      obtain rfl := Option.some.inj (hrow.symm.trans hb')
      rcases hcase with ⟨hne, -⟩ | ⟨b, hb, hne, hbound⟩
      · exact absurd rfl hne
      · exact ⟨b, hb, hne.symm, by rwa [if_pos (hold b hb)]⟩
    · rintro ⟨b, hb, hne, hbound⟩
      rw [if_pos (hold b hb)] at hbound
      exact ⟨a, hrow, .inr ⟨b, hb, hne.symm, hbound⟩⟩
  · push Not at hold
    obtain ⟨b, hb, hle⟩ := hold
    have hcurrent : ¬ b.migrationVersion < a.migrationVersion := hle
    have hrow : (c.attempt a true true false).accounts.get? a.uuid = some b := by
      rw [attempt_accounts, if_pos rfl, AccountMap.migrate_of_current _ _ hb hcurrent, hb]
    constructor
    · rintro ⟨b', hb', hcase⟩
      obtain rfl := Option.some.inj (hrow.symm.trans hb')
      rcases hcase with ⟨hne, hbound⟩ | ⟨d, hd, hne, -⟩
      · refine ⟨b, hb, hne, ?_⟩
        rw [if_neg hcurrent]
        -- If the login was not free it was the account's, since that is whose it is now.
        by_contra hsome
        obtain ⟨v, hv⟩ := Option.ne_none_iff_exists'.mp hsome
        have hown := (c.get?_migratedLogins_of_some a hv).symm.trans hbound
        obtain ⟨d, hd, hlogin⟩ := h a.login a.uuid (hv.trans hown)
        obtain rfl := Option.some.inj (hb.symm.trans hd)
        exact hne hlogin
      · exact absurd (congrArg Account.login (Option.some.inj (hb.symm.trans hd))) hne
    · rintro ⟨d, hd, hne, hfree⟩
      obtain rfl := Option.some.inj (hb.symm.trans hd)
      rw [if_neg hcurrent] at hfree
      refine ⟨b, hrow, .inl ⟨hne, ?_⟩⟩
      rw [attempt_logins, if_pos rfl, migratedLogins_of_free c a (by rw [hfree]; exact nofun),
        SortedMap.get?_insert_self]

/-- The accounts have the logins that their rows have, and each has one login only. -/
def Agrees (c : Contents) (accounts : List Account) : Prop :=
  ∀ a ∈ accounts, (∀ b ∈ c.accounts.get? a.uuid, b.login = a.login) ∧
    ∀ b ∈ accounts, b.uuid = a.uuid → b.login = a.login

instance (c : Contents) (accounts : List Account) : Decidable (c.Agrees accounts) :=
  inferInstanceAs (Decidable (∀ a ∈ accounts, (∀ b ∈ c.accounts.get? a.uuid, b.login = a.login) ∧
    ∀ b ∈ accounts, b.uuid = a.uuid → b.login = a.login))

/-- Accounts whose logins have not changed strand none, in whatever order they are migrated. -/
theorem Agrees.not_strands (h : c.Agrees accounts) {spoilt : Prop}
    (hworks : c.Works accounts spoilt c') (ha : a ∈ accounts) : ¬ c.Strands c' a := by
  rintro ⟨b', hb', hcase⟩
  have hlogin : b'.login = a.login := by
    rcases hworks.row hb' with hmem | hsame
    · exact (h a ha).2 b' hmem (AccountMap.uuid_eq hb')
    · exact (h a ha).1 b' hsame
  rcases hcase with ⟨hne, -⟩ | ⟨b, hb, hne, -⟩
  · exact hne hlogin
  · exact hne (hlogin.trans ((h a ha).1 b hb).symm)

/-! ### Deleted accounts -/

/-- In backed contents an account without a row has no login. -/
theorem Backed.gone_of_releaseRecorded (h : c.Backed) (hrow : c.accounts.get? u = none) :
    (c.releaseRecorded u).Gone u := by
  refine ⟨by rw [releaseRecorded_accounts, hrow], fun l hl => ?_⟩
  obtain ⟨b, hb, -⟩ := h.releaseRecorded u l u hl
  rw [releaseRecorded_accounts, hrow] at hb
  cases hb

theorem Backed.gone_of_removed (h : c.Backed) (ha : c.accounts.get? u = some a) :
    ((c.release a.login u).eraseAccount u).Gone u :=
  ⟨AccountMap.get?_erase_self _ u, h.free_of_release ha⟩

end Contents

namespace Registry

variable {r : Registry} {c : Contents}

section valid

variable (hr : Function.Injective r.config.tables.name)

include hr

/-- A delete that nothing befalls leaves nothing of an account whose logins are backed. -/
theorem ends_delete_backed (hc : c.Backed) (u : Uuid) (version : Int64) :
    r.Ends (fun _ _ => false) (r.delete u version).run c fun o c' =>
      o = some (.ok ()) ∧ c'.Gone u := by
  have hdelete : r.Leads (fun _ _ => false) (r.delete u version) c
      (fun _ c' => c'.Backed ∧ c'.Gone u)
      fun _ c' => (∃ operation table, false = true) ∧ c'.Backed :=
    leads_deleteWith_of_steady hr Contents.steady_backed (.steady version) hc
      (fun _ hstart => hstart.gone_of_releaseRecorded) (fun _ _ hstart => hstart.gone_of_removed)
      fun _ _ hgone => { hgone with }
  refine Ends.mono hdelete fun o c' hc' => ?_
  match o with
  | some (.ok ()) => exact ⟨rfl, hc'.2⟩
  | some (.error e) => exact nomatch hc'.1
  | none => exact nomatch hc'.1

end valid

/-- A run of calls and migrations on a fresh registry that nothing befalls, with any turns for
    the workers of its batches, keeps every login backed by a row of its owner that has it,
    exactly if none of its migrations strands a login.  The contents after each job are among
    those that the run comes through.

    * A single migration strands a login exactly if that of the account has changed, and a
      batch of accounts whose logins have not changed strands none.
    * On contents in which logins are backed, a lookup by login answers no account or one
      that has the login, and a delete leaves neither row nor login. -/
theorem logins_backed_iff_not_stranded {config : Config} {r : Registry}
    (h : ofConfig config = .ok r) {jobs : List Job}
    (hjobs : ∀ source max turns, Job.redrive source max turns ∉ jobs) :
    (∀ done, done <+: jobs → ∃ c, r.Reaches done c ∧ r.Visits jobs c) ∧
    ((∀ c, r.Visits jobs c → c.Backed) ↔
      ∀ c accounts c', r.Migrates jobs c accounts c' → ∀ a ∈ accounts, ¬ c.Strands c' a) ∧
    (∀ c accounts c', r.Migrates jobs c accounts c' →
      (∀ a, accounts = [a] → c.Backed → (c.Strands c' a ↔ c.Diverges a)) ∧
        (c.Agrees accounts → ∀ a ∈ accounts, ¬ c.Strands c' a)) ∧
    ∀ c, r.Visits jobs c → c.Backed →
      (∀ login a, ((r.getByLogin login).run.run Database.handler (r.store c)).result
        = some (.ok (some a)) → a.login = login) ∧
      ∀ u version,
        let run := (r.delete u version).run.run Database.handler (r.store c)
        run.result = some (.ok ()) ∧ ∃ c', run.state = r.store c' ∧
          c'.accounts.get? u = none ∧ ∀ login, c'.logins.get? login ≠ some u := by
  obtain ⟨rfl, hr⟩ := name_injective_of_ofConfig h
  refine ⟨?_, ⟨?_, ?_⟩, ?_, ?_⟩
  · exact fun done hdone => exists_visits_of_prefix hr hjobs hdone
  · intro hbacked c accounts c' hmigrates
    obtain ⟨hbefore, hafter⟩ := hmigrates.visits
    exact (Contents.backed_migrated_iff (hbacked c hbefore) (hmigrates.migrated hr)).mp
      (hbacked c' hafter)
  · intro hnot
    exact forall_visits hr hjobs Contents.backed_empty
      (upholds_of_steady hr Contents.steady_backed) fun c accounts c' hmigrates hc =>
        hc.migrated (hmigrates.migrated hr) (hnot c accounts c' hmigrates)
  · intro c accounts c' hmigrates
    have hmigrated := hmigrates.migrated hr
    refine ⟨?_, fun hagrees a ha => hagrees.not_strands hmigrated.works ha⟩
    rintro a rfl hc
    rw [Contents.migrated_singleton_iff.mp hmigrated]
    exact Contents.strands_attempt_iff hc
  · intro c _ hc
    constructor
    · intro login a heq
      obtain ⟨c', -, hresult⟩ := Ends.run_calm (leads_getByLogin_of_backed hr hc login)
      rw [heq] at hresult
      exact hresult a rfl
    · intro u version run
      obtain ⟨c', hstate, hresult, hgone⟩ := (ends_delete_backed hr hc u version).run_calm
      exact ⟨hresult, c', hstate, hgone.row, hgone.login⟩

/-- An account that is created and then migrated in a batch, in a later version. -/
theorem logins_backed_iff_not_stranded_default :
    let a : Account := ⟨⟨.replicate 16 1, rfl⟩, "+1", 0, {}⟩
    let b : Account := ⟨⟨.replicate 16 2, rfl⟩, "+2", 1, {}⟩
    let jobs : List Job := [.call (.create a 1),
      .migrateBatch [{ a with migrationVersion := 1 }, b] 2 { accounts := [1, 0, 1, 0] }]
    Registry.ofConfig {} = .ok ⟨{}⟩ ∧ (∀ source max turns, Job.redrive source max turns ∉ jobs) ∧
      ∃ c, (⟨{}⟩ : Registry).Reaches jobs c ∧ c.Backed := by
  intro a b jobs
  have hconfig : Registry.ofConfig {} = .ok ⟨{}⟩ := rfl
  have hjobs : ∀ source max turns, Job.redrive source max turns ∉ jobs := by
    intro source max turns h
    simp only [jobs, List.mem_cons, reduceCtorEq, List.not_mem_nil, or_self] at h
  have hr := (name_injective_of_ofConfig hconfig).2
  have hcreated : (⟨{}⟩ : Registry).Reaches ([] ++ [.call (.create a 1)])
      ((({} : Contents).putAccount a).bindLogin a.login a.uuid |>.setVersion 1) := by
    change _ = _
    decide +kernel
  obtain ⟨hvisits, hbacked, hstrands, -⟩ := logins_backed_iff_not_stranded hconfig hjobs
  obtain ⟨c, hc, hvisited⟩ := hvisits jobs (List.prefix_refl jobs)
  refine ⟨hconfig, hjobs, c, hc, hbacked.mpr (fun d accounts d' hmigrates => ?_) c hvisited⟩
  refine (hstrands d accounts d' hmigrates).2 ?_
  have hlast : (⟨{}⟩ : Registry).Migrates (([] ++ [.call (.create a 1)]) ++
      [.migrateBatch [{ a with migrationVersion := 1 }, b] 2 { accounts := [1, 0, 1, 0] }])
      d accounts d' := hmigrates
  rcases migrates_concat.mp hlast with ⟨hd, _, ⟨⟩, -⟩ | hearlier
  · rw [hd.eq hr hcreated]
    decide +kernel
  · exact absurd ((migrates_concat_of_steady rfl).mp hearlier) not_migrates_nil

/-- The order of a batch tells whether it strands a login.  Of two entries for the second
    account the newer one prevails, but the login of the older one is bound to it if it is
    migrated before the first account, whose login this is. -/
example :
    let a : Account := ⟨⟨.replicate 16 1, rfl⟩, "+1", 1, {}⟩
    let b : Account := ⟨⟨.replicate 16 2, rfl⟩, "+2", 2, {}⟩
    let r : Registry := ⟨{}⟩
    let left (turns : Turns) :=
      r.leaves [.migrateBatch [a, b, { b with login := "+1", migrationVersion := 1 }] 3 turns]
        (Testbed.ofTables ({} : Config).tables).database
    (∀ turns ∈ [{}, { accounts := .replicate 9 2 }],
      (left turns).items "accounts" = [Row.ofAccount a, Row.ofAccount b]) ∧
    (left {}).items "accounts_logins" = [Row.ofLogin "+1" a.uuid, Row.ofLogin "+2" b.uuid] ∧
    (left { accounts := .replicate 9 2 }).items "accounts_logins"
      = [Row.ofLogin "+1" b.uuid, Row.ofLogin "+2" b.uuid] := by
  decide +kernel

/-- An account that is migrated and then once more, in a later version with another
    login: the old login still finds it, and stays bound after it is deleted. -/
theorem migration_strands_login :
    let a : Account := ⟨⟨.replicate 16 1, rfl⟩, "+1", 1, {}⟩
    let b : Account := ⟨⟨.replicate 16 1, rfl⟩, "+2", 2, {}⟩
    ∃ c, (⟨{}⟩ : Registry).Reaches [.migrate a, .migrate b] c ∧ ¬ c.Backed ∧
      (((⟨{}⟩ : Registry).getByLogin a.login).run.run Database.handler
          ((⟨{}⟩ : Registry).store c)).result = some (.ok (some b)) ∧
      ∃ c', (((⟨{}⟩ : Registry).delete a.uuid 1).run.run Database.handler
          ((⟨{}⟩ : Registry).store c)).state = (⟨{}⟩ : Registry).store c' ∧
        c'.accounts.get? a.uuid = none ∧ c'.logins.get? a.login = some a.uuid := by
  intro a b
  have hconfig : Registry.ofConfig {} = .ok ⟨{}⟩ := rfl
  have hr := (name_injective_of_ofConfig hconfig).2
  have hreaches := ((reaches_nil hr).migrate hr a).migrate hr b
  obtain ⟨c, hc⟩ : ∃ c, c = (Contents.attempt {} a true true false).attempt b true true false :=
    ⟨_, rfl⟩
  have hrow : c.accounts.get? a.uuid = some b := by
    rw [hc]
    decide +kernel
  have hold : c.logins.get? a.login = some a.uuid := by
    rw [hc]
    decide +kernel
  rw [List.nil_append, List.singleton_append, ← hc] at hreaches
  refine ⟨c, hreaches, ?_, ?_, ?_⟩
  · intro hbacked
    obtain ⟨d, hd, hlogin⟩ := hbacked a.login a.uuid hold
    obtain rfl : b = d := Option.some.inj (hrow.symm.trans hd)
    exact absurd hlogin (by decide)
  · have hlookup : (⟨{}⟩ : Registry).Leads (fun _ _ => false) ((⟨{}⟩ : Registry).getByLogin a.login)
        c (fun found _ => found = some b) fun _ _ => False := by
      refine leads_getByLogin hr ?_ fun _ _ hx => absurd hx Bool.false_ne_true
      rw [hold, Option.bind_some, hrow]
    obtain ⟨found, _, hresult, -, rfl⟩ := hlookup.run_calm
    exact hresult
  · -- The delete releases the login of the row only.
    have hdelete : (⟨{}⟩ : Registry).Leads (fun _ _ => false)
        ((⟨{}⟩ : Registry).delete a.uuid 1) c
        (fun _ c' => c'.accounts.get? a.uuid = none ∧ c'.logins.get? a.login = some a.uuid)
        fun _ _ => False := by
      refine leads_deleteWith hr rfl (fun hnone => absurd (hnone.symm.trans hrow) nofun) ?_
        (fun _ _ hx => absurd hx Bool.false_ne_true) fun _ _ hx => absurd hx Bool.false_ne_true
      intro d hd
      obtain rfl : d = b := Option.some.inj (hd.symm.trans hrow)
      refine ⟨AccountMap.get?_erase_self _ _, ?_⟩
      exact (Contents.get?_release_eq_some_iff (c.bury a.uuid) _ _).mpr
        ⟨hold, fun heq => absurd heq.1 (by decide)⟩
    obtain ⟨_, c', -, hstate, hdeleted⟩ := hdelete.run_calm
    exact ⟨c', hstate, hdeleted⟩

end Registry

end LoginRegistry
