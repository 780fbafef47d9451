import LoginRegistry.Proofs.Registry.Requests
import LoginRegistry.Proofs.Registry.Serving

/-! # Operations of the registry

    One rule for each operation, in terms of contents: what it answers and leaves
    when every request is served, and the stages at which a spoiled request can cut
    it off.  Claims about operations argue from these rules, not from the order of
    the requests.
-/

namespace LoginRegistry

open Store (Operation)

/-! ### Stages -/

/-- The id of an account is new or has its login already. -/
def Contents.Admits (c : Contents) (a : Account) : Prop :=
  ∀ b, c.accounts.get? a.uuid = some b → b.login = a.login

/-- What a create can leave when it is cut off. -/
inductive CreateStage (c : Contents) (a : Account) : Contents → Prop where
  /-- Nothing is written. -/
  | start : CreateStage c a c
  /-- The row is written. -/
  | stored : c.Admits a → CreateStage c a (c.putAccount a)
  /-- The login is bound too. -/
  | bound : c.Admits a → (∀ v, c.logins.get? a.login = some v → v = a.uuid) →
    CreateStage c a ((c.putAccount a).bindLogin a.login a.uuid)
  /-- The row is withdrawn, because the login is another's. -/
  | withdrawn {v : Uuid} : c.Admits a → c.logins.get? a.login = some v → v ≠ a.uuid →
    CreateStage c a ((c.putAccount a).eraseAccount a.uuid)

/-- What the removal of an account can leave when it is cut off. -/
inductive RemoveStage (c : Contents) (u : Uuid) : Contents → Prop where
  /-- Nothing is removed. -/
  | start : RemoveStage c u c
  /-- The login is free or another's. -/
  | released {a : Account} : c.accounts.get? u = some a →
    RemoveStage c u (c.release a.login u)
  /-- The row is removed too. -/
  | removed {a : Account} : c.accounts.get? u = some a →
    RemoveStage c u ((c.release a.login u).eraseAccount u)

/-- The contents with a version, if there is one to store. -/
def Contents.setVersion? (c : Contents) : Option Int64 → Contents
  | some version => c.setVersion version
  | none => c

/-- The contents without the login that is recorded with the retry entry of an account. -/
def Contents.releaseRecorded (c : Contents) (u : Uuid) : Contents :=
  match c.retries.get? u with
  | some login => c.release login u
  | none => c

@[simp] theorem Contents.releaseRecorded_accounts (c : Contents) (u : Uuid) :
    (c.releaseRecorded u).accounts = c.accounts := by
  unfold releaseRecorded
  split
  · exact release_accounts ..
  · rfl

@[simp] theorem Contents.releaseRecorded_version (c : Contents) (u : Uuid) :
    (c.releaseRecorded u).version = c.version := by
  unfold releaseRecorded
  split
  · exact release_version ..
  · rfl

/-! ### Stages of tables -/

namespace Contents

variable (c : Contents)

theorem accountRow?_tables (u : Uuid) :
    c.tables.accountRow? u = (c.accounts.get? u).map Row.ofAccount := c.get?_accounts u

theorem owner?_tables (login : String) : c.tables.owner? login = c.logins.get? login := by
  rw [Tables.owner?, Tables.loginRow?, c.get?_logins]
  cases c.logins.get? login with
  | none => rfl
  | some u =>
    rw [Option.map_some, Option.bind_some, Row.read_ofLogin]
    rfl

theorem release_tables (login : String) (u : Uuid) :
    (c.release login u).tables = c.tables.release login u := by
  rw [release, Tables.release, owner?_tables]
  split
  · exact (c.set_release login).symm
  · rfl

theorem recorded?_tables (u : Uuid) : c.tables.recorded? u = c.retries.get? u := by
  rw [Tables.recorded?, c.get?_retries]
  cases c.retries.get? u with
  | none => rfl
  | some login => exact Row.login?_ofRetry u login

theorem releaseRecorded_tables (u : Uuid) :
    c.tables.releaseRecorded u = (c.releaseRecorded u).tables := by
  rw [Tables.releaseRecorded, releaseRecorded, recorded?_tables]
  cases c.retries.get? u with
  | none => rfl
  | some login => exact (c.release_tables login u).symm

theorem setVersion?_tables (version? : Option Int64) :
    (c.setVersion? version?).tables = c.tables.setVersion? version? := by
  cases version? with
  | none => rfl
  | some version => exact (c.set_version version).symm

/-- The row of an account is that of the account. -/
theorem get?_of_accountRow? {u : Uuid} {row : Store.Item} {a : Account}
    (hrow : c.tables.accountRow? u = some row) (ha : Row.account row = .ok a) :
    c.accounts.get? u = some a ∧ row = Row.ofAccount a := by
  rw [accountRow?_tables] at hrow
  obtain ⟨b, hb, rfl⟩ := Option.map_eq_some_iff.mp hrow
  rw [Row.account_ofAccount] at ha
  obtain rfl := Except.ok.inj ha
  exact ⟨hb, rfl⟩

/-- A removal that is cut off on the tables of contents leaves those of contents. -/
theorem exists_of_removeStage {c : Contents} {u : Uuid} {t : Tables}
    (h : c.tables.RemoveStage u t) : ∃ c', t = c'.tables ∧ RemoveStage c u c' := by
  cases h with
  | start => exact ⟨c, rfl, .start⟩
  | released hrow ha =>
    exact ⟨_, (c.release_tables _ u).symm, .released (c.get?_of_accountRow? hrow ha).1⟩
  | removed hrow ha =>
    refine ⟨_, ?_, .removed (c.get?_of_accountRow? hrow ha).1⟩
    rw [← set_erase, release_tables]
    rfl

end Contents

namespace Registry

variable {r : Registry} {exposed : Operation → String → Bool} {c : Contents}
  {bad : Option RegistryError → Contents → Prop}

section valid

variable (hr : Function.Injective r.config.tables.name)

include hr

/-! ### Create -/

theorem leads_create {a : Account} {version : Int64} {ok : Creation → Contents → Prop}
    (hcollision : ∀ b, c.accounts.get? a.uuid = some b → b.login ≠ a.login →
      bad (some (.identifierCollision a.uuid)) c)
    (hclaimed : c.Admits a → (∀ v, c.logins.get? a.login = some v → v = a.uuid) →
      ok .created (((c.putAccount a).bindLogin a.login a.uuid).setVersion version))
    (howned : c.Admits a → ∀ v, c.logins.get? a.login = some v → v ≠ a.uuid →
      ∀ b, c.accounts.get? v = some b →
        ok (.updatedOwner v) (((c.putAccount a).eraseAccount a.uuid).putAccount (b.revised a)))
    (hmissing : c.Admits a → ∀ v, c.logins.get? a.login = some v → v ≠ a.uuid →
      c.accounts.get? v = none →
        bad (some (.loginOwnerMissing a.login)) ((c.putAccount a).eraseAccount a.uuid))
    (hspoiled : ∀ operation table, exposed operation table = true → ∀ o, Spoiled o →
      ∀ c', CreateStage c a c' → bad o c') :
    r.Leads exposed (r.create a version) c ok bad := by
  refine leads_timed (leads_bind (leads_accounts_create hr ?_ hcollision ?_))
  · intro hadmits
    refine leads_bind (leads_logins_claim hr ?_ ?_ ?_)
    · intro hfree
      refine leads_bind (leads_counter_set hr ?_ ?_)
      · exact leads_pure (hclaimed hadmits hfree)
      · intro hx o ho
        exact hspoiled _ _ hx o ho _ (.bound hadmits hfree)
    · intro v hv hne
      -- The login is another's: the row is withdrawn and the owner updated.
      have hwithdrawn := CreateStage.withdrawn hadmits hv hne
      refine leads_bind (leads_accounts_deleteIfLogin hr ?_ ?_ ?_)
      · intro _ _ _
        have hother : ((c.putAccount a).eraseAccount a.uuid).accounts.get? v
            = c.accounts.get? v := by
          rw [Contents.eraseAccount_accounts, AccountMap.get?_erase_ne _ hne,
            Contents.putAccount_accounts, AccountMap.get?_put_ne _ hne]
        refine leads_bind (leads_tryCatch (leads_accounts_update hr ?_ ?_ ?_))
        · intro b hb
          exact leads_pure (howned hadmits v hv hne b (hother.symm.trans hb))
        · intro hnone
          exact leads_throw (hmissing hadmits v hv hne (hother.symm.trans hnone))
        · intro hx o ho
          cases ho with
          | panicked => exact hspoiled _ _ hx _ .panicked _ hwithdrawn
          | failed he => exact leads_throw (hspoiled _ _ hx _ (.failed he) _ hwithdrawn)
      · -- The row to be withdrawn was written a moment ago, so it has its login.
        intro hnone
        exact absurd rfl (hnone a (AccountMap.get?_put_self _ _))
      · intro hx o ho
        exact hspoiled _ _ hx o ho _ (.stored hadmits)
    · intro hx o ho
      exact hspoiled _ _ hx o ho _ (.stored hadmits)
  · intro hx o ho
    exact hspoiled _ _ hx o ho _ .start

/-! ### Delete -/

/-- The rule of a delete on the tables of some contents. -/
theorem leads_deleteWith {u : Uuid} {options : DeleteOptions} {ok : Unit → Contents → Prop}
    {start : Contents} (hstart : start = if options.tombstone then c.bury u else c)
    (hgone : start.accounts.get? u = none → ok () (start.releaseRecorded u))
    (hremoved : ∀ a, start.accounts.get? u = some a →
      ok () (((start.release a.login u).eraseAccount u).setVersion? options.version))
    (hunburied : ∀ operation table, exposed operation table = true → ∀ o, Spoiled o → bad o c)
    (hspoiled : ∀ operation table, exposed operation table = true → ∀ o, Spoiled o →
      ∀ c', RemoveStage start u c' → bad o c') :
    r.Leads exposed (r.deleteWith u options) c ok bad := by
  have htables : start.tables = if options.tombstone then c.tables.bury u else c.tables := by
    rw [hstart]
    split
    · exact (c.set_tombstone u).symm
    · rfl
  refine leads_of_within hr
    (within_deleteWith hr (Exposure.isGenuine_genuine exposed) htables ?_ ?_ ?_ ?_ ?_)
  · intro hrow
    rw [start.accountRow?_tables] at hrow
    exact ⟨_, start.releaseRecorded_tables u, hgone (Option.map_eq_none_iff.mp hrow)⟩
  · intro row a hrow ha
    obtain ⟨hfound, rfl⟩ := start.get?_of_accountRow? hrow ha
    refine ⟨_, ?_, hremoved a hfound⟩
    rw [Contents.setVersion?_tables, ← Contents.set_erase, ← Contents.release_tables]
    rfl
  · -- Rows of contents can be read.
    intro row e hrow he
    rw [start.accountRow?_tables] at hrow
    obtain ⟨a, -, rfl⟩ := Option.map_eq_some_iff.mp hrow
    rw [Row.account_ofAccount] at he
    cases he
  · intro request m o hm ho
    obtain ⟨hspoilt, operation, table, hx⟩ := spoiled_of_brings hm ho
    exact ⟨c, rfl, hunburied operation table hx o hspoilt⟩
  · intro request m o hm ho t' hstage
    obtain ⟨hspoilt, operation, table, hx⟩ := spoiled_of_brings hm ho
    obtain ⟨c', rfl, hstage'⟩ := Contents.exists_of_removeStage hstage
    exact ⟨c', rfl, hspoiled operation table hx o hspoilt c' hstage'⟩

/-! ### Reads -/

theorem leads_getByLogin {login : String} {ok : Option Account → Contents → Prop}
    (hok : ok ((c.logins.get? login).bind c.accounts.get?) c)
    (hspoiled : ∀ operation table, exposed operation table = true → ∀ o, Spoiled o → bad o c) :
    r.Leads exposed (r.getByLogin login) c ok bad := by
  refine leads_timed (leads_bind (leads_logins_get hr ?_ (hspoiled _ _)))
  cases hu : c.logins.get? login with
  | none =>
    rw [hu] at hok
    exact leads_pure hok
  | some u =>
    rw [hu] at hok
    exact leads_accounts_get hr hok (hspoiled _ _)

end valid

end Registry

end LoginRegistry
