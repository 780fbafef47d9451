import LoginRegistry.Proofs.Migration.Driving
import LoginRegistry.Proofs.Migration.Migrating

/-! # What driving a queue leaves of contents

    A re-drive lists the first entries of the queue and drives them in any order.  What its
    requests keep holds in the end (`Drives.keeps`), and so does what has come of each entry
    (`Drove`). -/

namespace LoginRegistry

open Store (Operation)

namespace Contents

/-- What a request for an entry does. -/
inductive DriveStep (source : LegacySource) (u : Uuid) (c : Contents) : Contents → Prop where
  /-- The account is migrated or queued again. -/
  | attempt {a : Account} (row login queued : Bool) :
    source.loadInWorker u = .account (some a) →
    DriveStep source u c (c.attempt a row login queued)
  /-- A login of an account that is gone is freed. -/
  | release (login : String) : source.loadInWorker u = .account none →
    DriveStep source u c (c.release login u)
  /-- The row of an account that is gone is removed. -/
  | erase : source.loadInWorker u = .account none → DriveStep source u c (c.eraseAccount u)
  /-- The entry is removed. -/
  | drop : DriveStep source u c (c.dropRetry u)

/-- What requests for some entries do. -/
def Drives (source : LegacySource) (entries : List Uuid) : Contents → Contents → Prop :=
  Relation.ReflTransGen fun c c' => ∃ u ∈ entries, c.DriveStep source u c'

/-- The login is that of the row of an account, or is recorded with its entry. -/
def Knows (c : Contents) (u : Uuid) (login : String) : Prop :=
  (∃ a, c.accounts.get? u = some a ∧ a.login = login) ∨ c.retries.get? u = some login

/-- What has come of an entry since the contents were `start`. -/
inductive Drove (start : Contents) (source : LegacySource) (entries : List Uuid) (spoilt : Prop)
    (c : Contents) (u : Uuid) : RedriveOutcome → Prop where
  | migrated {a : Account} {c₁ : Contents} : source.loadInWorker u = .account (some a) →
    (∃ b, c.accounts.get? a.uuid = some b ∧ a.migrationVersion ≤ b.migrationVersion) →
    start.Drives source entries c₁ → (c₁.attempt a false true false).Drives source entries c →
    Drove start source entries spoilt c u .migrated
  | dropped {c₁ : Contents} {login : String} : source.loadInWorker u = .account none →
    c.accounts.get? u = none → start.Drives source entries c₁ → c₁.Knows u login →
    c.logins.get? login ≠ some u → Drove start source entries spoilt c u .dropped
  | kept {e : MigrationError} : (∀ a, source.loadInWorker u = .account (some a) → spoilt) →
    Drove start source entries spoilt c u (.kept e)

variable {start c c' : Contents} {source : LegacySource} {entries : List Uuid} {u : Uuid}
  {spoilt : Prop}

/-- What requests for the entries keep is kept. -/
theorem Drives.keeps (h : c.Drives source entries c') {P : Contents → Prop}
    (hstep : ∀ u ∈ entries, ∀ c c', c.DriveStep source u c' → P c → P c') (hc : P c) : P c' := by
  induction h with
  | refl => exact hc
  | tail _ hlast ih =>
    obtain ⟨u, hu, hlast⟩ := hlast
    exact hstep u hu _ _ hlast ih

/-! ### From tables to contents -/

theorem driveStep_tables {t : Tables} (h : c.tables.DriveStep source u t) :
    ∃ c', t = c'.tables ∧ c.DriveStep source u c' := by
  cases h with
  | @half a k ha hk =>
    have hk : k.account = a := by
      have hk : k ∈ [a].flatMap Account.halves := by simpa using hk
      exact List.mem_singleton.mp (Half.account_mem hk)
    subst hk
    cases k with
    | row a => exact ⟨_, c.apply_tables _, .attempt true false false ha⟩
    | login a => exact ⟨_, c.apply_tables _, .attempt false true false ha⟩
  | @queue a ha => exact ⟨_, c.queueRetry_tables a, .attempt false false true ha⟩
  | release login hnone => exact ⟨_, (c.release_tables login u).symm, .release login hnone⟩
  | erase hnone => exact ⟨_, c.set_erase u, .erase hnone⟩
  | drop => exact ⟨_, c.set_eraseRetry u, .drop⟩

theorem drives_tables {t : Tables} (h : c.tables.Drives source entries t) :
    ∃ c', t = c'.tables ∧ c.Drives source entries c' := by
  refine h.keeps (P := fun t => ∃ c', t = c'.tables ∧ c.Drives source entries c') ?_
    ⟨c, rfl, .refl⟩
  rintro u hu _ t hstep ⟨c₁, rfl, hc₁⟩
  obtain ⟨c₂, rfl, hc₂⟩ := driveStep_tables hstep
  exact ⟨c₂, rfl, hc₁.tail ⟨u, hu, hc₂⟩⟩

theorem exists_get?_of_precedes {a : Account} (h : c.tables.precedes a = false) :
    ∃ b, c.accounts.get? a.uuid = some b ∧ a.migrationVersion ≤ b.migrationVersion := by
  rw [precedes_tables] at h
  obtain ⟨b, hb, hlower⟩ := (Option.all_eq_false _ _).mp h
  exact ⟨b, hb, Int32.not_lt.mp (of_decide_eq_false hlower)⟩

theorem queued_tables : c.tables.Queued u ↔ (c.retries.get? u).isSome := by
  rw [Tables.queued_iff_get?, get?_retries, Option.isSome_map]

/-- Of a queued account a delete knows the login. -/
theorem exists_knows (h : c.tables.Queued u) :
    ∃ login, c.tables.knownLogin? u = some login ∧ c.Knows u login := by
  rw [Tables.knownLogin?, accountRow?_tables, recorded?_tables]
  cases ha : c.accounts.get? u with
  | some a =>
    refine ⟨a.login, ?_, .inl ⟨a, ha, rfl⟩⟩
    simp only [Option.map_some, Row.account_ofAccount]
    rfl
  | none =>
    obtain ⟨login, hlogin⟩ := Option.isSome_iff_exists.mp (queued_tables.mp h)
    exact ⟨login, hlogin, .inr hlogin⟩

theorem drove_tables {outcome : RedriveOutcome}
    (h : start.tables.Drove source entries spoilt c.tables u outcome) :
    start.Drove source entries spoilt c u outcome := by
  cases h with
  | migrated ha hrow hbefore hafter =>
    obtain ⟨c₁, rfl, hc₁⟩ := drives_tables hbefore
    rw [apply_tables] at hafter
    obtain ⟨c₂, hsame, hc₂⟩ := drives_tables hafter
    obtain rfl := tables_injective hsame
    exact .migrated ha (exists_get?_of_precedes hrow) hc₁ hc₂
  | dropped hnone hrow hbefore hqueued hfree =>
    obtain ⟨c₁, rfl, hc₁⟩ := drives_tables hbefore
    obtain ⟨login, hlogin, hknows⟩ := exists_knows hqueued
    rw [accountRow?_tables, Option.map_eq_none_iff] at hrow
    have hfree := hfree login hlogin
    rw [owner?_tables] at hfree
    exact .dropped hnone hrow hc₁ hknows hfree
  | kept h => exact .kept h

end Contents

namespace Registry

variable {r : Registry} {exposed : Operation → String → Bool} {c : Contents}

/-- A re-drive ends with an error and has changed nothing, or it has driven the first entries
    of the queue. -/
theorem ends_redrive (hr : Function.Injective r.config.tables.name) {source : LegacySource}
    {max : Option Nat}
    (hloaded : ∀ u, (c.retries.get? u).isSome →
      ∀ a, source.loadInWorker u = .account (some a) → a.uuid = u) (turns : Turns) :
    r.Ends exposed (r.redrive source max turns) c fun o c' =>
      (∃ e, o = some (.error e) ∧ c' = c ∧ Exposes exposed) ∨
        ∃ entries report outcomes, o = some (.ok report) ∧
          entries = c.retries.keys.take
            (max.getD r.config.migration.redriveBatchSize.toNat) ∧
          c.Drives source entries c' ∧
          List.Forall₂ (fun outcome u => c.Drove source entries (Exposes exposed) c' u outcome ∧
            ((c'.retries.get? u).isSome ↔ outcome.isDriven = false)) outcomes entries := by
  have hlists : Lists r c r.retries .retries c.retries Row.ofRetry := lists_retries
  refine Script.Always.mono (TableNames.always_of_within hr (within_redrive hr
    (Exposure.isGenuine_genuine exposed) (fun _ _ => exposes_of_genuine) hlists.keyedAt max
    (fun u hu => hloaded u (Contents.queued_tables.mp hu)) turns)) ?_
  rintro o _ ⟨t, rfl, ⟨e, rfl, rfl, hspoilt | ⟨row, hrow, e', he⟩⟩ |
    ⟨entries, outcomes, rfl, -, hentries, hdrives, houtcomes⟩⟩
  · exact ⟨c, rfl, .inl ⟨e, rfl, rfl, hspoilt⟩⟩
  · exact absurd he (hlists.uuid_ne_error hrow e')
  · obtain ⟨c', rfl, hc'⟩ := Contents.drives_tables hdrives
    refine ⟨c', rfl, .inr ⟨entries, _, outcomes, rfl, hlists.eq_take hentries, hc',
      houtcomes.imp fun outcome u h => ?_⟩⟩
    exact ⟨Contents.drove_tables h.1, Contents.queued_tables.symm.trans h.2⟩

end Registry

end LoginRegistry
