import LoginRegistry.Proofs.Registry.Backing
import LoginRegistry.Proofs.Registry.Stepwise

/-! # Clashing logins

    Only the login index keeps logins apart.  A create whose login is another's
    withdraws its row again, but a migration writes its row whatever becomes of its
    login.  So a migration whose login is another's leaves a row whose login is not
    bound to it, besides the row of the owner.

    As long as no migration clashes, the login of every row is bound to the row's
    account (`Bound`), which the calls and sweeps of a run that nothing befalls uphold,
    and so no two rows have one login (`logins_distinct`).  Accounts of a batch may clash
    with each other, and the order of their requests tells whether they do.
-/

namespace LoginRegistry

open Store (Database)

namespace Contents

variable {c c' : Contents} {a b : Account} {u v : Uuid} {accounts : List Account}

/-- Migrations clash in an account: they have written its row, and its login is bound to
    another account. -/
def Clashes (c c' : Contents) (a : Account) : Prop :=
  c.accounts.get? a.uuid ≠ some a ∧ c'.accounts.get? a.uuid = some a ∧
    ∃ v, c'.logins.get? a.login = some v ∧ v ≠ a.uuid

/-- No two rows have one login. -/
def Distinct (c : Contents) : Prop :=
  ∀ u v a b, c.accounts.get? u = some a → c.accounts.get? v = some b → a.login = b.login → u = v

/-- The login of each row is bound to the account of the row. -/
def Bound (c : Contents) : Prop :=
  ∀ u a, c.accounts.get? u = some a → c.logins.get? a.login = some u

theorem bound_empty : ({} : Contents).Bound := by
  intro u a h
  cases h

/-- What is bound to one account is bound to no other. -/
theorem Bound.distinct (h : c.Bound) : c.Distinct := by
  intro u v a b ha hb hlogin
  have hu := h u a ha
  rw [hlogin, h v b hb] at hu
  exact (Option.some.inj hu).symm

/-- A clash leaves two rows with one login, if the owner of the login has a row. -/
theorem Clashes.not_distinct (h : c.Clashes c' a) (hbacked : c'.Backed) : ¬ c'.Distinct := by
  intro hdistinct
  obtain ⟨-, hrow, v, hv, hne⟩ := h
  obtain ⟨b, hb, hlogin⟩ := hbacked a.login v hv
  exact hne (hdistinct v a.uuid b a hb hrow hlogin)

/-- A single migration clashes exactly if its login is another's, and the row is new or older
    than the account. -/
theorem clashes_attempt_iff :
    c.Clashes (c.attempt a true true false) a ↔
      (∃ v, c.logins.get? a.login = some v ∧ v ≠ a.uuid) ∧
        ∀ b, c.accounts.get? a.uuid = some b → b.migrationVersion < a.migrationVersion := by
  constructor
  · rintro ⟨hnew, hrow, v, hv, hne⟩
    constructor
    · exact ⟨v, (c.eq_or_get?_of_get?_migratedLogins a hv).resolve_left fun h => hne h.2, hne⟩
    · -- A row that is not older would have stayed.
      intro b hb
      by_contra hcurrent
      rw [attempt_accounts, if_pos rfl, AccountMap.migrate_of_current _ a hb hcurrent] at hrow
      exact hnew hrow
  · rintro ⟨⟨v, hv, hne⟩, hold⟩
    refine ⟨fun hrow => Int32.lt_irrefl (hold a hrow), ?_,
      v, c.get?_migratedLogins_of_some a hv, hne⟩
    rw [attempt_accounts, if_pos rfl, AccountMap.migrate_of_outdated _ _ hold,
      AccountMap.get?_put_self]

/-- No login of the accounts is bound to another account or is that of another one of them. -/
def Apart (c : Contents) (accounts : List Account) : Prop :=
  ∀ a ∈ accounts, (∀ v ∈ c.logins.get? a.login, v = a.uuid) ∧
    ∀ b ∈ accounts, b.login = a.login → b.uuid = a.uuid

instance (c : Contents) (accounts : List Account) : Decidable (c.Apart accounts) :=
  inferInstanceAs (Decidable (∀ a ∈ accounts, (∀ v ∈ c.logins.get? a.login, v = a.uuid) ∧
    ∀ b ∈ accounts, b.login = a.login → b.uuid = a.uuid))

/-- Accounts with logins of their own do not clash, in whatever order they are migrated. -/
theorem Apart.not_clashes (h : c.Apart accounts) {spoilt : Prop}
    (hworks : c.Works accounts spoilt c') (ha : a ∈ accounts) : ¬ c.Clashes c' a := by
  rintro ⟨-, -, v, hv, hne⟩
  rcases hworks.login hv with ⟨b, hb, hlogin, rfl⟩ | hbound
  · exact hne ((h a ha).2 b hb hlogin)
  · exact hne ((h a ha).1 v hbound)

namespace Bound

/-! ### Writes -/

/-- An account may be stored together with its login, if that is free or its own. -/
theorem store (h : c.Bound) (hfree : ∀ v, c.logins.get? a.login = some v → v = a.uuid) :
    ((c.putAccount a).bindLogin a.login a.uuid).Bound := by
  intro u b hb
  rw [bindLogin_accounts, putAccount_accounts, AccountMap.get?_put] at hb
  rw [bindLogin_logins, putAccount_logins]
  split at hb
  · next hu =>
    obtain rfl := Option.some.inj hb
    rw [SortedMap.get?_insert_self, hu]
  · next hu =>
    -- Another row has another login, since its login is bound to it.
    have hne : b.login ≠ a.login := fun heq => hu (hfree u (heq ▸ h u b hb))
    rw [SortedMap.get?_insert_ne _ hne]
    exact h u b hb

theorem revise (h : c.Bound) (hb : c.accounts.get? b.uuid = some b) :
    (c.putAccount (b.revised a)).Bound := by
  intro u d hd
  rw [putAccount_accounts, AccountMap.get?_put] at hd
  split at hd
  · next hu =>
    obtain rfl := Option.some.inj hd
    rw [hu]
    exact h b.uuid b hb
  · exact h u d hd

/-- A row that loses its login to another account was not there before. -/
theorem withdrawn (h : c.Bound) (hadmits : c.Admits a) (hv : c.logins.get? a.login = some v)
    (hne : v ≠ a.uuid) : (c.putAccount a).eraseAccount a.uuid = c := by
  refine eraseAccount_putAccount (Option.eq_none_iff_forall_ne_some.mpr fun b hb => hne ?_)
  have hbound := h a.uuid b hb
  rw [hadmits b hb, hv] at hbound
  exact Option.some.inj hbound

theorem remove (h : c.Bound) (login : String) (u : Uuid) :
    ((c.release login u).eraseAccount u).Bound := by
  intro w b hb
  rw [eraseAccount_accounts, AccountMap.get?_erase, release_accounts] at hb
  split at hb
  · cases hb
  · next hne =>
    refine (get?_release_eq_some_iff c login u).mpr ⟨h w b hb, ?_⟩
    rintro ⟨-, rfl⟩
    exact hne rfl

theorem releaseRecorded (h : c.Bound) (hrow : c.accounts.get? u = none) :
    (c.releaseRecorded u).Bound := by
  intro w b hb
  rw [releaseRecorded_accounts] at hb
  have hne : w ≠ u := by
    rintro rfl
    rw [hrow] at hb
    cases hb
  unfold Contents.releaseRecorded
  split
  · exact (get?_release_eq_some_iff c _ u).mpr ⟨h w b hb, fun heq => hne heq.2⟩
  · exact h w b hb

/-- Migrations that do not clash keep logins bound. -/
theorem migrated (h : c.Bound) (hmigrated : c.Migrated accounts c')
    (hnot : ∀ a ∈ accounts, ¬ c.Clashes c' a) : c'.Bound := by
  intro u b hb
  obtain rfl := AccountMap.uuid_eq hb
  by_cases hsame : c.accounts.get? b.uuid = some b
  · exact hmigrated.works.get?_logins (h b.uuid b hsame)
  · -- The row has been written, and by then the login is bound to someone.
    have hmem : b ∈ accounts := (hmigrated.works.row hb).resolve_right hsame
    obtain ⟨v, hv⟩ := Option.ne_none_iff_exists'.mp (hmigrated.upToDate b hmem).login
    by_cases hv' : v = b.uuid
    · rw [hv, hv']
    · exact absurd ⟨hsame, hb, v, hv, hv'⟩ (hnot b hmem)

end Bound

end Contents

namespace Registry

variable {r : Registry} {c : Contents}

section valid

variable (hr : Function.Injective r.config.tables.name)

include hr

/-! ### Operations that nothing befalls -/

/-- The operations keep logins bound, if nothing befalls them.  A create that is cut
    off would not: its row may be left without the login. -/
theorem upholds_bound : r.Upholds (fun _ _ => false) (fun _ => True) Contents.Bound where
  create {a} _ version := by
    intro c hc
    refine leads_create hr (fun _ _ _ => hc) (fun _ => hc.store) ?_ ?_ ?_
    · intro hadmits v hv hne b hb
      rw [hc.withdrawn hadmits hv hne]
      exact hc.revise (by rwa [AccountMap.uuid_eq hb])
    · intro hadmits v hv hne _
      rwa [hc.withdrawn hadmits hv hne]
    · exact fun _ _ hx => absurd hx Bool.false_ne_true
  update a := by
    refine fun c hc => leads_timed (leads_accounts_update hr ?_ (fun _ => hc) fun _ _ _ => hc)
    exact fun b hb => hc.revise (by rwa [AccountMap.uuid_eq hb])
  deleteWith u options := by
    intro c hc
    obtain ⟨start, hstart⟩ : ∃ start, start = if options.tombstone then c.bury u else c :=
      ⟨_, rfl⟩
    have hburied : start.Bound := by
      rw [hstart]
      split
      · exact hc
      · exact hc
    refine leads_deleteWith hr hstart hburied.releaseRecorded ?_
      (fun _ _ hx => absurd hx Bool.false_ne_true) fun _ _ hx => absurd hx Bool.false_ne_true
    intro a _
    cases options.version with
    | none => exact hburied.remove a.login u
    | some version => exact hburied.remove a.login u
  withTombstones _ hc := hc

end valid

/-- After a run of calls and migrations on a fresh registry that nothing befalls, with any turns
    for the workers of its batches, no two rows have one login, if none of its migrations
    clashes.  Conversely a run that keeps its logins distinct and backed has no migration that
    clashes.  The contents after each job are among those that the run comes through.

    A single migration clashes exactly if its login is another's, and its row is new or older
    than the account.  A batch of accounts with logins of their own does not clash. -/
theorem logins_distinct {config : Config} {r : Registry} (h : ofConfig config = .ok r)
    {jobs : List Job} (hjobs : ∀ source max turns, Job.redrive source max turns ∉ jobs) :
    (∀ done, done <+: jobs → ∃ c, r.Reaches done c ∧ r.Visits jobs c) ∧
    ((∀ c accounts c', r.Migrates jobs c accounts c' → ∀ a ∈ accounts, ¬ c.Clashes c' a) →
      ∀ c, r.Visits jobs c → c.Distinct) ∧
    ((∀ c, r.Visits jobs c → c.Backed ∧ c.Distinct) →
      ∀ c accounts c', r.Migrates jobs c accounts c' → ∀ a ∈ accounts, ¬ c.Clashes c' a) ∧
    ∀ c accounts c', r.Migrates jobs c accounts c' →
      (∀ a, accounts = [a] → (c.Clashes c' a ↔
        (∃ v, c.logins.get? a.login = some v ∧ v ≠ a.uuid) ∧
          ∀ b, c.accounts.get? a.uuid = some b → b.migrationVersion < a.migrationVersion)) ∧
        (c.Apart accounts → ∀ a ∈ accounts, ¬ c.Clashes c' a) := by
  obtain ⟨rfl, hr⟩ := name_injective_of_ofConfig h
  refine ⟨fun done => exists_visits_of_prefix hr hjobs, ?_, ?_, ?_⟩
  · intro hnot c hc
    have hbound := forall_visits hr hjobs Contents.bound_empty (upholds_bound hr)
      (fun c accounts c' hmigrates hc =>
        hc.migrated (hmigrates.migrated hr) (hnot c accounts c' hmigrates)) c hc
    exact hbound.distinct
  · intro hvisits c accounts c' hmigrates a _ hclashes
    obtain ⟨hbacked, hdistinct⟩ := hvisits c' hmigrates.visits.2
    exact hclashes.not_distinct hbacked hdistinct
  · intro c accounts c' hmigrates
    have hmigrated := hmigrates.migrated hr
    refine ⟨?_, fun hapart a ha => hapart.not_clashes hmigrated.works ha⟩
    rintro a rfl
    rw [Contents.migrated_singleton_iff.mp hmigrated]
    exact Contents.clashes_attempt_iff

/-- An account that is created, and two that are migrated in a batch, with different logins. -/
theorem logins_distinct_default :
    let a : Account := ⟨⟨.replicate 16 1, rfl⟩, "+1", 0, {}⟩
    let b : Account := ⟨⟨.replicate 16 2, rfl⟩, "+2", 1, {}⟩
    let d : Account := ⟨⟨.replicate 16 3, rfl⟩, "+3", 1, {}⟩
    let jobs : List Job :=
      [.call (.create a 1), .migrateBatch [b, d] 2 { accounts := [1, 0, 1, 0] }]
    Registry.ofConfig {} = .ok ⟨{}⟩ ∧ (∀ source max turns, Job.redrive source max turns ∉ jobs) ∧
      ∃ c, (⟨{}⟩ : Registry).Reaches jobs c ∧ c.Distinct := by
  intro a b d jobs
  have hconfig : Registry.ofConfig {} = .ok ⟨{}⟩ := rfl
  have hjobs : ∀ source max turns, Job.redrive source max turns ∉ jobs := by
    intro source max turns h
    simp only [jobs, List.mem_cons, reduceCtorEq, List.not_mem_nil, or_self] at h
  have hr := (name_injective_of_ofConfig hconfig).2
  have hcreated : (⟨{}⟩ : Registry).Reaches ([] ++ [.call (.create a 1)])
      ((({} : Contents).putAccount a).bindLogin a.login a.uuid |>.setVersion 1) := by
    change _ = _
    decide +kernel
  obtain ⟨hvisits, hdistinct, -, hclashes⟩ := logins_distinct hconfig hjobs
  obtain ⟨c, hc, hvisited⟩ := hvisits jobs (List.prefix_refl jobs)
  refine ⟨hconfig, hjobs, c, hc, hdistinct (fun e accounts e' hmigrates => ?_) c hvisited⟩
  refine (hclashes e accounts e' hmigrates).2 ?_
  have hlast : (⟨{}⟩ : Registry).Migrates (([] ++ [.call (.create a 1)]) ++
      [.migrateBatch [b, d] 2 { accounts := [1, 0, 1, 0] }]) e accounts e' := hmigrates
  rcases migrates_concat.mp hlast with ⟨he, _, ⟨⟩, -⟩ | hearlier
  · rw [he.eq hr hcreated]
    decide +kernel
  · exact absurd ((migrates_concat_of_steady rfl).mp hearlier) not_migrates_nil

/-- The order of a batch tells whether it clashes.  Two entries for the second account are of
    one version, and the one that has the login of the first account prevails if it comes
    first. -/
example :
    let a : Account := ⟨⟨.replicate 16 1, rfl⟩, "+1", 1, {}⟩
    let b : Account := ⟨⟨.replicate 16 2, rfl⟩, "+2", 1, {}⟩
    let b' : Account := { b with login := "+1" }
    let r : Registry := ⟨{}⟩
    let rows (turns : Turns) := (r.leaves [.migrateBatch [a, b, b'] 3 turns]
      (Testbed.ofTables ({} : Config).tables).database).items "accounts"
    rows {} = [Row.ofAccount a, Row.ofAccount b] ∧
      rows { accounts := .replicate 9 2 } = [Row.ofAccount a, Row.ofAccount b'] := by
  decide +kernel

/-- An account that is created, and another that is migrated with its login: both have
    a row with the login. -/
theorem migration_duplicates_login :
    let a : Account := ⟨⟨.replicate 16 1, rfl⟩, "+1", 0, {}⟩
    let b : Account := ⟨⟨.replicate 16 2, rfl⟩, "+1", 1, {}⟩
    ∃ c, (⟨{}⟩ : Registry).Reaches [.call (.create a 1), .migrate b] c ∧
      c.accounts.get? a.uuid = some a ∧ c.accounts.get? b.uuid = some b ∧
      a.login = b.login ∧ ¬ c.Distinct := by
  intro a b
  have hr := (name_injective_of_ofConfig (rfl : Registry.ofConfig {} = .ok ⟨{}⟩)).2
  obtain ⟨c, hc⟩ : ∃ c, c = ((({} : Contents).putAccount a).bindLogin a.login a.uuid
    |>.setVersion 1) := ⟨_, rfl⟩
  have hcreated : (⟨{}⟩ : Registry).Reaches [.call (.create a 1)] c := by
    rw [hc]
    change _ = _
    decide +kernel
  have ha : (c.attempt b true true false).accounts.get? a.uuid = some a := by
    rw [hc]
    decide +kernel
  have hb : (c.attempt b true true false).accounts.get? b.uuid = some b := by
    rw [hc]
    decide +kernel
  refine ⟨_, hcreated.migrate hr b, ha, hb, rfl, fun hdistinct => ?_⟩
  exact absurd (hdistinct a.uuid b.uuid a b ha hb rfl) (by decide)

end Registry

end LoginRegistry
