import LoginRegistry.Proofs.Migration.Working
import LoginRegistry.Proofs.Registry.Operations

/-! # What migrating accounts leaves of contents

    Each half of a migration is served or spoiled, and a spoiled half puts the
    account into the retry queue, whether its worker reports an error or panics.
    So as long as the queue can be written, a migration ends with both halves
    served, or with an error and the account queued (`ends_migrate`).  Migrations
    that are under way together do the same in any order (`ends_migrateAll`).
-/

namespace LoginRegistry

open Store (Operation)

/-! ### Halves of a migration -/

namespace AccountMap

/-- The accounts after an account is migrated: one that is not older stays. -/
def migrate (m : AccountMap) (a : Account) : AccountMap :=
  if (m.get? a.uuid).all (·.migrationVersion < a.migrationVersion) then m.put a else m

variable (m : AccountMap) (a : Account)

theorem get?_migrate (u : Uuid) :
    (m.migrate a).get? u
      = if u = a.uuid ∧ (m.get? u).all (·.migrationVersion < a.migrationVersion) then some a
        else m.get? u := by
  by_cases hu : u = a.uuid
  · subst hu
    simp only [true_and]
    unfold migrate
    split
    · exact get?_put_self m a
    · rfl
  · rw [if_neg fun h => hu h.1]
    unfold migrate
    split
    · exact get?_put_ne m hu
    · rfl

theorem migrate_of_outdated
    (h : ∀ b, m.get? a.uuid = some b → b.migrationVersion < a.migrationVersion) :
    m.migrate a = m.put a :=
  if_pos ((Option.all_eq_true _ _).mpr fun b hb => decide_eq_true (h b hb))

theorem migrate_of_current {b : Account} (hb : m.get? a.uuid = some b)
    (h : ¬ b.migrationVersion < a.migrationVersion) : m.migrate a = m := by
  refine if_neg fun hall => h ?_
  exact of_decide_eq_true ((Option.all_eq_true _ _).mp hall b hb)

/-- A migrated account has a row that is not older. -/
theorem exists_get?_migrate_self :
    ∃ b, (m.migrate a).get? a.uuid = some b ∧ a.migrationVersion ≤ b.migrationVersion := by
  unfold migrate
  split
  · exact ⟨a, get?_put_self m a, Int32.le_refl _⟩
  · next hnot =>
    obtain ⟨b, hb, hlower⟩ := (Option.all_eq_false _ _).mp (Bool.eq_false_iff.mpr hnot)
    exact ⟨b, hb, Int32.not_lt.mp (of_decide_eq_false hlower)⟩

/-- A row is written by the migration or was there before. -/
theorem eq_or_get?_of_get?_migrate {u : Uuid} {b : Account} (h : (m.migrate a).get? u = some b) :
    b = a ∨ m.get? u = some b := by
  rw [get?_migrate] at h
  split at h
  · exact .inl (Option.some.inj h).symm
  · exact .inr h

/-- A migration leaves no row older than it was. -/
theorem exists_get?_migrate {u : Uuid} {b : Account} (h : m.get? u = some b) :
    ∃ b', (m.migrate a).get? u = some b' ∧ b.migrationVersion ≤ b'.migrationVersion := by
  unfold migrate
  split
  · next hall =>
    by_cases hu : u = a.uuid
    · subst hu
      have hlower := of_decide_eq_true ((Option.all_eq_true _ _).mp hall b h)
      exact ⟨a, get?_put_self m a, Int32.le_of_lt hlower⟩
    · exact ⟨b, (get?_put_ne m hu).trans h, Int32.le_refl _⟩
  · exact ⟨b, h, Int32.le_refl _⟩

/-- The row of another id stays. -/
theorem get?_migrate_ne {u : Uuid} (h : u ≠ a.uuid) : (m.migrate a).get? u = m.get? u := by
  rw [get?_migrate, if_neg fun hu => h hu.1]

end AccountMap

namespace Contents

/-- The logins after the login of an account is migrated: that of another stays. -/
def migratedLogins (c : Contents) (a : Account) : SortedMap String Uuid :=
  if (c.logins.get? a.login).all (· = a.uuid) then c.logins.insert a.login a.uuid else c.logins

/-- The contents after an attempt to migrate an account, if its row and its login are
    served and if it is queued. -/
@[simps] def attempt (c : Contents) (a : Account) (row login queued : Bool) : Contents :=
  { c with
    accounts := if row then c.accounts.migrate a else c.accounts
    logins := if login then c.migratedLogins a else c.logins
    retries := if queued then c.retries.insert a.uuid a.login else c.retries }

section attempt

variable (c : Contents) (a : Account)

theorem migratedLogins_of_free (h : ∀ v, c.logins.get? a.login = some v → v = a.uuid) :
    c.migratedLogins a = c.logins.insert a.login a.uuid :=
  if_pos ((Option.all_eq_true _ _).mpr fun v hv => decide_eq_true (h v hv))

theorem migratedLogins_of_owned {v : Uuid} (hv : c.logins.get? a.login = some v)
    (h : v ≠ a.uuid) : c.migratedLogins a = c.logins := by
  refine if_neg fun hall => h ?_
  exact of_decide_eq_true ((Option.all_eq_true _ _).mp hall v hv)

theorem get?_migratedLogins (l : String) :
    (c.migratedLogins a).get? l
      = if l = a.login ∧ (c.logins.get? l).all (· = a.uuid) then some a.uuid
        else c.logins.get? l := by
  by_cases hl : l = a.login
  · subst hl
    simp only [true_and]
    unfold migratedLogins
    split
    · exact SortedMap.get?_insert_self _ _ _
    · rfl
  · rw [if_neg fun h => hl h.1]
    unfold migratedLogins
    split
    · rw [SortedMap.get?_insert_eq, if_neg hl]
    · rfl

/-- A login is bound by the migration or was bound before. -/
theorem eq_or_get?_of_get?_migratedLogins {l : String} {u : Uuid}
    (h : (c.migratedLogins a).get? l = some u) :
    l = a.login ∧ u = a.uuid ∨ c.logins.get? l = some u := by
  rw [get?_migratedLogins] at h
  split at h
  · next hbound => exact .inl ⟨hbound.1, (Option.some.inj h).symm⟩
  · exact .inr h

/-- A login that is bound stays bound to its owner. -/
theorem get?_migratedLogins_of_some {l : String} {u : Uuid} (h : c.logins.get? l = some u) :
    (c.migratedLogins a).get? l = some u := by
  rw [get?_migratedLogins, h]
  split
  · next hbound => rw [of_decide_eq_true hbound.2]
  · rfl

/-- Attempts of one account add up. -/
theorem attempt_attempt (row login queued row' login' queued' : Bool) :
    (c.attempt a row login queued).attempt a row' login' queued'
      = c.attempt a (row || row') (login || login') (queued || queued') := by
  have hrow : (c.accounts.migrate a).migrate a = c.accounts.migrate a := by
    obtain ⟨b, hb, hle⟩ := c.accounts.exists_get?_migrate_self a
    exact AccountMap.migrate_of_current _ a hb (Int32.not_lt.mpr hle)
  have hlogin : (c.attempt a row true queued).migratedLogins a = c.migratedLogins a := by
    by_cases hfree : ∀ v, c.logins.get? a.login = some v → v = a.uuid
    · -- The login is bound to the account by now.
      have hbound : (c.migratedLogins a).get? a.login = some a.uuid := by
        rw [c.migratedLogins_of_free a hfree, SortedMap.get?_insert_self]
      have hown : ∀ v, (c.migratedLogins a).get? a.login = some v → v = a.uuid :=
        fun v hv => Option.some.inj (hv.symm.trans hbound)
      rw [migratedLogins_of_free _ a hown, attempt_logins, if_pos rfl,
        SortedMap.insert_of_get? _ hbound]
    · obtain ⟨v, hv, hne⟩ : ∃ v, c.logins.get? a.login = some v ∧ v ≠ a.uuid := by
        simpa only [not_forall, exists_prop] using hfree
      have hsame := c.migratedLogins_of_owned a hv hne
      have hv' : (c.attempt a row true queued).logins.get? a.login = some v := by
        rw [attempt_logins, if_pos rfl, hsame, hv]
      rw [migratedLogins_of_owned _ a hv' hne, attempt_logins, if_pos rfl]
  have hretries : (c.retries.insert a.uuid a.login).insert a.uuid a.login
      = c.retries.insert a.uuid a.login :=
    SortedMap.insert_of_get? _ (SortedMap.get?_insert_self _ _ _)
  refine (Contents.mk.injEq ..).mpr ⟨?_, ?_, rfl, rfl, ?_⟩
  · cases row <;> cases row' <;> simp [hrow]
  · cases login with
    | false => rfl
    | true =>
      simp only [attempt_logins, if_true, Bool.true_or]
      split
      · exact hlogin
      · rfl
  · cases queued <;> cases queued' <;> simp [hretries]

/-- Queueing an account that is queued changes nothing. -/
theorem queueRetry_of_get? {u : Uuid} {login : String} (h : c.retries.get? u = some login) :
    c.queueRetry u login = c := by
  unfold queueRetry
  rw [SortedMap.insert_of_get? _ h]

/-- Queueing the account again changes nothing. -/
theorem queueRetry_attempt (row login queued : Bool) :
    (c.attempt a row login queued).queueRetry a.uuid a.login = c.attempt a row login true := by
  have := c.attempt_attempt a row login queued false false true
  rwa [Bool.or_false, Bool.or_false, Bool.or_true] at this

/-- Attempting an account that is as new as it was to be changes nothing. -/
theorem attempt_of_upToDate {b : Account} (hrow : c.accounts.get? a.uuid = some b)
    (hle : a.migrationVersion ≤ b.migrationVersion) (hlogin : c.logins.get? a.login ≠ none) :
    c.attempt a true true false = c := by
  have hlogins : c.migratedLogins a = c.logins := by
    obtain ⟨v, hv⟩ := Option.ne_none_iff_exists'.mp hlogin
    by_cases hva : v = a.uuid
    · rw [c.migratedLogins_of_free a fun w hw => (Option.some.inj (hw.symm.trans hv)).trans hva,
        SortedMap.insert_of_get? _ (hva ▸ hv)]
    · exact c.migratedLogins_of_owned a hv hva
  have haccounts := AccountMap.migrate_of_current _ a hrow (Int32.not_lt.mpr hle)
  simp only [attempt, haccounts, hlogins, if_true, Bool.false_eq_true, if_false]

end attempt

/-! ### Attempts that are under way together -/

variable {c c' : Contents} {accounts : List Account} {spoilt : Prop}

/-- What attempts to migrate some accounts do.  An account is queued only if a write was
    spoilt. -/
def Works (accounts : List Account) (spoilt : Prop) : Contents → Contents → Prop :=
  Relation.ReflTransGen fun c c' => ∃ a ∈ accounts, ∃ row login queued,
    (queued = true → spoilt) ∧ c' = c.attempt a row login queued

/-- What attempts keep is kept. -/
theorem Works.keeps (h : c.Works accounts spoilt c') {P : Contents → Prop}
    (hattempt : ∀ c, ∀ a ∈ accounts, ∀ row login queued, (queued = true → spoilt) → P c →
      P (c.attempt a row login queued)) (hc : P c) : P c' := by
  induction h with
  | refl => exact hc
  | tail _ hstep ih =>
    obtain ⟨a, ha, row, login, queued, hqueued, rfl⟩ := hstep
    exact hattempt _ a ha row login queued hqueued ih

/-- Attempts of one account come to one attempt. -/
theorem exists_attempt_of_works {a : Account} (h : c.Works [a] spoilt c') :
    ∃ row login queued, (queued = true → spoilt) ∧ c' = c.attempt a row login queued := by
  refine h.keeps (P := fun c' => ∃ row login queued, (queued = true → spoilt) ∧
    c' = c.attempt a row login queued) ?_ ⟨false, false, false, nofun, rfl⟩
  rintro _ b hb row' login' queued' hqueued' ⟨row, login, queued, hqueued, rfl⟩
  obtain rfl := List.mem_singleton.mp hb
  refine ⟨_, _, _, fun hor => ?_, c.attempt_attempt b row login queued row' login' queued'⟩
  exact (Bool.or_eq_true _ _ ▸ hor).elim hqueued hqueued'

/-- The account is as new as it was to be. -/
structure UpToDate (c : Contents) (a : Account) : Prop where
  row : ∃ b, c.accounts.get? a.uuid = some b ∧ a.migrationVersion ≤ b.migrationVersion
  login : c.logins.get? a.login ≠ none

/-- What a migration has come to: the account is as new as it was to be, or a write was spoilt
    and the account is queued. -/
inductive CameTo (c : Contents) (accounts : List Account) (spoilt : Prop) (a : Account) :
    Except MigrationError Bool → Prop where
  | served {applied : Bool} : c.UpToDate a → CameTo c accounts spoilt a (.ok applied)
  | failed {e : MigrationError} {b : Account} : spoilt → b ∈ accounts → b.uuid = a.uuid →
    c.retries.get? a.uuid = some b.login → CameTo c accounts spoilt a (.error e)

/-! ### Migrations that nothing befalls -/

/-- What migrations leave of contents that nothing befalls: no account is queued, and all of
    them are as new as they were to be. -/
structure Migrated (accounts : List Account) (c c' : Contents) : Prop where
  works : c.Works accounts False c'
  upToDate : ∀ a ∈ accounts, c'.UpToDate a

theorem Works.imp {spoilt' : Prop} (h : c.Works accounts spoilt c') (himp : spoilt → spoilt') :
    c.Works accounts spoilt' c' :=
  h.keeps (P := c.Works accounts spoilt') (fun _ a ha row login queued hqueued h =>
    h.tail ⟨a, ha, row, login, queued, fun hq => himp (hqueued hq), rfl⟩) .refl

theorem Works.version (h : c.Works accounts spoilt c') : c'.version = c.version :=
  h.keeps (P := fun c' => c'.version = c.version) (fun _ _ _ _ _ _ _ h => h) rfl

theorem Works.tombstones (h : c.Works accounts spoilt c') : c'.tombstones = c.tombstones :=
  h.keeps (P := fun c' => c'.tombstones = c.tombstones) (fun _ _ _ _ _ _ _ h => h) rfl

/-- A row is that of an account or was there before. -/
theorem Works.row (h : c.Works accounts spoilt c') {u : Uuid} {b : Account}
    (hb : c'.accounts.get? u = some b) : b ∈ accounts ∨ c.accounts.get? u = some b := by
  refine h.keeps (P := fun c' => ∀ b, c'.accounts.get? u = some b →
    b ∈ accounts ∨ c.accounts.get? u = some b) ?_ (fun _ => .inr) b hb
  intro c' a ha row login queued _ ih b hb
  rw [attempt_accounts] at hb
  split at hb
  · rcases c'.accounts.eq_or_get?_of_get?_migrate a hb with rfl | hb
    · exact .inl ha
    · exact ih b hb
  · exact ih b hb

/-- No row becomes older. -/
theorem Works.exists_row (h : c.Works accounts spoilt c') {u : Uuid} {b : Account}
    (hb : c.accounts.get? u = some b) :
    ∃ b', c'.accounts.get? u = some b' ∧ b.migrationVersion ≤ b'.migrationVersion := by
  refine h.keeps (P := fun c' => ∃ b', c'.accounts.get? u = some b' ∧
    b.migrationVersion ≤ b'.migrationVersion) ?_ ⟨b, hb, Int32.le_refl _⟩
  rintro c' a _ row login queued _ ⟨b', hb', hle⟩
  rw [attempt_accounts]
  split
  · obtain ⟨b₂, hb₂, hle₂⟩ := c'.accounts.exists_get?_migrate a hb'
    exact ⟨b₂, hb₂, Int32.le_trans hle hle₂⟩
  · exact ⟨b', hb', hle⟩

/-- A login is that of an account or was bound before. -/
theorem Works.login (h : c.Works accounts spoilt c') {l : String} {u : Uuid}
    (hl : c'.logins.get? l = some u) :
    (∃ a ∈ accounts, a.login = l ∧ a.uuid = u) ∨ c.logins.get? l = some u := by
  refine h.keeps (P := fun c' => c'.logins.get? l = some u →
    (∃ a ∈ accounts, a.login = l ∧ a.uuid = u) ∨ c.logins.get? l = some u) ?_ .inr hl
  intro c' a ha row login queued _ ih hl
  rw [attempt_logins] at hl
  split at hl
  · rcases c'.eq_or_get?_of_get?_migratedLogins a hl with ⟨rfl, rfl⟩ | hl
    · exact .inl ⟨a, ha, rfl, rfl⟩
    · exact ih hl
  · exact ih hl

/-- What is bound stays bound. -/
theorem Works.get?_logins (h : c.Works accounts spoilt c') {l : String} {u : Uuid}
    (hl : c.logins.get? l = some u) : c'.logins.get? l = some u := by
  refine h.keeps (P := fun c' => c'.logins.get? l = some u) ?_ hl
  intro c' a _ row login queued _ ih
  rw [attempt_logins]
  split
  · exact c'.get?_migratedLogins_of_some a ih
  · exact ih

/-- A single account is attempted once. -/
theorem migrated_singleton_iff {a : Account} :
    c.Migrated [a] c' ↔ c' = c.attempt a true true false := by
  constructor
  · intro h
    obtain ⟨row, login, queued, hqueued, rfl⟩ := exists_attempt_of_works h.works
    obtain rfl : queued = false := Bool.eq_false_iff.mpr hqueued
    obtain ⟨⟨b, hb, hle⟩, hlogin⟩ := h.upToDate a (List.mem_singleton_self a)
    rw [← attempt_of_upToDate _ a hb hle hlogin, attempt_attempt, Bool.or_true, Bool.or_true,
      Bool.or_false]
  · rintro rfl
    refine ⟨.single ⟨a, List.mem_singleton_self a, true, true, false, nofun, rfl⟩, fun b hb => ?_⟩
    obtain rfl := List.mem_singleton.mp hb
    refine ⟨c.accounts.exists_get?_migrate_self b, ?_⟩
    rw [attempt_logins, if_pos rfl, get?_migratedLogins]
    split
    · exact Option.some_ne_none _
    · next hnot => exact fun hnone => hnot ⟨rfl, by rw [hnone]; rfl⟩

/-! ### From tables to contents -/

theorem precedes_tables (c : Contents) (a : Account) :
    c.tables.precedes a
      = (c.accounts.get? a.uuid).all (·.migrationVersion < a.migrationVersion) := by
  unfold Tables.precedes
  rw [accountRow?_tables, permits_migrate]

theorem grants_tables (c : Contents) (login : String) (u : Uuid) :
    c.tables.grants login u = (c.logins.get? login).all (· = u) := by
  unfold Tables.grants Tables.loginRow?
  rw [get?_logins, permits_bind]

theorem apply_tables (c : Contents) (k : Half) :
    k.apply c.tables = (match k with
      | .row a => c.attempt a true false false
      | .login a => c.attempt a false true false).tables := by
  cases k with
  | row a =>
    simp only [Half.apply, Tables.migrateRow, precedes_tables, attempt, AccountMap.migrate, if_true,
      Bool.false_eq_true, if_false]
    split
    · exact c.set_put a
    · rfl
  | login a =>
    simp only [Half.apply, Tables.migrateLogin, grants_tables, attempt, migratedLogins, if_true,
      Bool.false_eq_true, if_false]
    split
    · exact c.set_bind a.login a.uuid
    · rfl

theorem queueRetry_tables (c : Contents) (a : Account) :
    c.tables.queueRetry a.uuid a.login = (c.attempt a false false true).tables :=
  c.set_retry a.uuid a.login

/-- Attempts on the tables of contents are attempts on the contents. -/
theorem works_tables {t : Tables} (h : c.tables.Works accounts spoilt t) :
    ∃ c', t = c'.tables ∧ c.Works accounts spoilt c' := by
  refine h.keeps (P := fun t => ∃ c', t = c'.tables ∧ c.Works accounts spoilt c') ?_ ?_
    ⟨c, rfl, .refl⟩
  · rintro _ k hk ⟨c', rfl, hc'⟩
    have ha := Half.account_mem hk
    cases k with
    | row a => exact ⟨_, c'.apply_tables _, hc'.tail ⟨a, ha, true, false, false, nofun, rfl⟩⟩
    | login a => exact ⟨_, c'.apply_tables _, hc'.tail ⟨a, ha, false, true, false, nofun, rfl⟩⟩
  · rintro hspoilt _ a ha ⟨c', rfl, hc'⟩
    exact ⟨_, c'.queueRetry_tables a, hc'.tail ⟨a, ha, false, false, true, fun _ => hspoilt, rfl⟩⟩

theorem upToDate_of_tables {a : Account} (h : c.tables.UpToDate a) : c.UpToDate a where
  row := by
    have hrow := h.row
    rw [precedes_tables] at hrow
    obtain ⟨b, hb, hlower⟩ := (Option.all_eq_false _ _).mp hrow
    exact ⟨b, hb, Int32.not_lt.mp (of_decide_eq_false hlower)⟩
  login := by
    have hlogin := h.login
    rw [Tables.loginRow?, get?_logins] at hlogin
    exact fun hnone => hlogin (by rw [hnone]; rfl)

theorem cameTo_of_tables {spared : Prop} (hspared : spared) {a : Account}
    {outcome : Except MigrationError Bool} (h : c.tables.CameTo accounts spoilt spared a outcome) :
    c.CameTo accounts spoilt a outcome := by
  cases h with
  | served h => exact .served (upToDate_of_tables h)
  | failed hspoilt hqueued =>
    obtain ⟨b, hb, hu, hrow⟩ := hqueued hspared
    rw [get?_retries, Option.map_eq_some_iff] at hrow
    obtain ⟨l, hl, hlogin⟩ := hrow
    exact .failed hspoilt hb hu (by rw [hl, Row.ofRetry_injective a.uuid hlogin])

end Contents

namespace Registry

variable {r : Registry} {exposed : Operation → String → Bool} {c : Contents}

/-- Some requests are exposed. -/
def Exposes (exposed : Operation → String → Bool) : Prop :=
  ∃ operation table, exposed operation table = true

theorem not_exposes : ¬ Exposes fun _ _ => false := by
  rintro ⟨_, _, hx⟩
  cases hx

theorem exposes_of_genuine {request : Store.Request} {m : Mishap}
    (h : Exposure.genuine exposed request m = true) : Exposes exposed := by
  simp only [Exposure.genuine, Bool.and_eq_true] at h
  obtain ⟨table, -, hx⟩ := List.any_eq_true.mp h.1
  exact ⟨_, table, hx⟩

theorem spared_of_genuine {table : String} (h : exposed .put table = false) {q : Store.Put}
    (hq : q.table = table) (m : Mishap) : Exposure.genuine exposed (.put q) m = false := by
  simp only [Exposure.genuine, Store.Request.tables, Store.Request.operation, hq, h,
    List.any_cons, List.any_nil, Bool.or_false, Bool.false_and]

section valid

variable (hr : Function.Injective r.config.tables.name)
  (hqueue : exposed .put r.config.tables.retries = false)

include hr hqueue

/-- Accounts are migrated in any order, and each of them is as new as it was to be or queued. -/
theorem ends_migrateAll (accounts : List Account) (workers : UInt64) (turns : Turns) :
    r.Ends exposed (r.migrateAll accounts workers turns) c fun o c' =>
      c.Works accounts (Exposes exposed) c' ∧ ∃ outcomes, o = some outcomes ∧
        List.Forall₂ (fun outcome a => c'.CameTo accounts (Exposes exposed) a outcome) outcomes
          accounts := by
  refine Script.Always.mono (TableNames.always_of_within hr (within_migrateAll hr
    (Exposure.isGenuine_genuine exposed) (fun _ _ => exposes_of_genuine)
    (fun _ : True => fun q hq m => spared_of_genuine hqueue hq m) workers turns c.tables)) ?_
  rintro o _ ⟨t, rfl, hworks, outcomes, rfl, houtcomes⟩
  obtain ⟨c', rfl, hc'⟩ := Contents.works_tables hworks
  exact ⟨c', rfl, hc', outcomes, rfl, houtcomes.imp fun _ _ => Contents.cameTo_of_tables trivial⟩

/-- A migration ends with both halves served, or with an error and the account
    queued. -/
theorem ends_migrate {a : Account} {turns : List Bool}
    {post : Option (Except MigrationError Bool) → Contents → Prop}
    (hserved : ∀ applied queued, (queued = true → Exposes exposed) →
      post (some (.ok applied)) (c.attempt a true true queued))
    (hspoiled : Exposes exposed → ∀ e row login,
      post (some (.error e)) (c.attempt a row login true)) :
    r.Ends exposed (r.migrate a turns) c post := by
  refine Script.Always.mono (TableNames.always_of_within hr (within_migrate hr
    (Exposure.isGenuine_genuine exposed) (fun _ _ => exposes_of_genuine)
    (fun _ : True => fun q hq m => spared_of_genuine hqueue hq m) a turns c.tables)) ?_
  rintro o _ ⟨t, rfl, hworks, outcome, rfl, houtcome⟩
  obtain ⟨c', rfl, hc'⟩ := Contents.works_tables hworks
  obtain ⟨row, login, queued, hqueued, rfl⟩ := Contents.exists_attempt_of_works hc'
  refine ⟨_, rfl, ?_⟩
  cases Contents.cameTo_of_tables trivial houtcome with
  | @served applied hdate =>
    obtain ⟨b, hb, hle⟩ := hdate.row
    rw [← Contents.attempt_of_upToDate _ a hb hle hdate.login, Contents.attempt_attempt,
      Bool.or_true, Bool.or_true, Bool.or_false]
    exact hserved applied queued hqueued
  | @failed e b hspoilt hb hu hretry =>
    obtain rfl := List.mem_singleton.mp hb
    rw [← Contents.queueRetry_of_get? _ hretry, Contents.queueRetry_attempt]
    exact hspoiled hspoilt e row login

omit hqueue in
/-- Migrations that nothing befalls serve every account. -/
theorem ends_migrateAll_calm (accounts : List Account) (workers : UInt64) (turns : Turns) :
    r.Ends (fun _ _ => false) (r.migrateAll accounts workers turns) c fun o c' =>
      o ≠ none ∧ c.Migrated accounts c' := by
  refine Ends.mono (ends_migrateAll hr rfl accounts workers turns) ?_
  rintro o c' ⟨hworks, outcomes, rfl, houtcomes⟩
  refine ⟨nofun, hworks.imp not_exposes, fun a ha => ?_⟩
  obtain ⟨outcome, -, houtcome⟩ := Script.exists_of_forall₂ houtcomes ha
  cases houtcome with
  | served hdate => exact hdate
  | failed hspoilt => exact absurd hspoilt not_exposes

omit hqueue in
theorem ends_migrate_calm (a : Account) (turns : List Bool) :
    r.Ends (fun _ _ => false) (r.migrate a turns) c fun o c' =>
      o ≠ none ∧ c' = c.attempt a true true false := by
  refine ends_migrate hr rfl ?_ fun hspoilt => absurd hspoilt not_exposes
  intro applied queued hqueued
  obtain rfl : queued = false := Bool.eq_false_iff.mpr fun h => not_exposes (hqueued h)
  exact ⟨nofun, rfl⟩

end valid

end Registry

end LoginRegistry
