import LoginRegistry.Proofs.Registry.Leads

/-! # Requests of the registry

    One rule for each request that the registry makes.  Each says on which contents
    the request is applied, what it then changes, and what it answers; `hspoiled`
    is what has to hold if the request is exposed.
-/

namespace LoginRegistry

open Store (AttributeValue Condition Item Operation)

/-! ### Conditions -/

/-- A row passes if it is not there or has the login. -/
theorem permits_create (o : Option Account) (login : String) :
    Condition.permits (some (.or (.absent Row.uuidName) (.equals Row.loginName (.string login))))
      (o.map Row.ofAccount) = o.all (·.login = login) := by
  cases o with
  | none => rfl
  | some b =>
    simp only [Condition.permits, Option.all_some, Condition.holds, Store.attribute?,
      Option.map_some, Option.bind_some, Row.uuid_ofAccount, Row.login_ofAccount,
      Option.isNone_some, Bool.false_or, Option.some_beq_some]
    rw [Bool.eq_iff_iff, beq_iff_eq, decide_eq_true_iff, AttributeValue.string.injEq]

/-- A row passes if it is there. -/
theorem permits_present (o : Option Account) :
    Condition.permits (some (.present Row.loginName)) (o.map Row.ofAccount) = o.isSome := by
  cases o with
  | none => rfl
  | some b =>
    simp only [Condition.permits, Option.all_some, Condition.holds, Store.attribute?,
      Option.map_some, Option.bind_some, Row.login_ofAccount, Option.isSome_some]

/-- A row passes if it has the login. -/
theorem permits_login (o : Option Account) (login : String) :
    Condition.permits (some (.equals Row.loginName (.string login))) (o.map Row.ofAccount)
      = o.any (·.login = login) := by
  cases o with
  | none => rfl
  | some b =>
    simp only [Condition.permits, Option.all_some, Condition.holds, Store.attribute?,
      Option.map_some, Option.bind_some, Row.login_ofAccount, Option.any_some,
      Option.some_beq_some]
    rw [Bool.eq_iff_iff, beq_iff_eq, decide_eq_true_iff, AttributeValue.string.injEq]

/-- A row passes if it is not there or of a lower version. -/
theorem permits_migrate (o : Option Account) (version : Int32) :
    Condition.permits (some (.or (.absent Row.uuidName)
        (.lessThan Row.versionName (.number version.toInt64))))
      (o.map Row.ofAccount) = o.all (·.migrationVersion < version) := by
  cases o with
  | none => rfl
  | some b =>
    simp only [Condition.permits, Option.all_some, Condition.holds, Store.attribute?,
      Option.map_some, Option.bind_some, Row.uuid_ofAccount, Row.version_ofAccount,
      Option.isNone_some, Bool.false_or, Option.any_some, AttributeValue.lessThan]
    rw [Bool.eq_iff_iff, beq_iff_eq, decide_eq_true_iff, ← Int32.toInt64_lt]
    exact Std.compare_eq_lt

/-- A login passes if it is free or the account's. -/
theorem permits_bind (login : String) (o : Option Uuid) (u : Uuid) :
    Condition.permits (some (.or (.absent Row.loginName) (.equals Row.uuidName (Row.uuidValue u))))
      (o.map (Row.ofLogin login)) = o.all (· = u) := by
  cases o with
  | none => rfl
  | some v =>
    simp only [Condition.permits, Option.all_some, Condition.holds, Store.attribute?,
      Option.map_some, Option.bind_some, Row.login_ofLogin, Row.uuid_ofLogin,
      Option.isNone_some, Bool.false_or, Option.some_beq_some]
    rw [Bool.eq_iff_iff, beq_iff_eq, decide_eq_true_iff, Row.uuidValue_inj]

namespace Registry

variable {r : Registry} {exposed : Operation → String → Bool} {c : Contents}
  {bad : Option RegistryError → Contents → Prop}

section valid

variable (hr : Function.Injective r.config.tables.name)

include hr

/-! ### The account table -/

theorem leads_accounts_create {a : Account} {ok : Unit → Contents → Prop}
    (happlied : (∀ b, c.accounts.get? a.uuid = some b → b.login = a.login) →
      ok () (c.putAccount a))
    (hrefused : ∀ b, c.accounts.get? a.uuid = some b → b.login ≠ a.login →
      bad (some (.identifierCollision a.uuid)) c)
    (hspoiled : exposed .put r.config.tables.accounts = true → ∀ o, Spoiled o → bad o c) :
    r.Leads exposed (r.accounts.create a) c ok bad := by
  have hput := TableNames.put_database hr c.tables .accounts
    (q := {
      table := r.accounts.name
      item := Row.ofAccount a
      condition := some (.or (.absent Row.uuidName) (.equals Row.loginName (.string a.login))) })
    rfl (Row.uuid_ofAccount a)
  rw [Contents.get?_accounts, permits_create, Contents.set_put] at hput
  refine leads_bind (leads_unlessRefused (asks_put _) hput (fun _ => rfl) ?_ ?_ hspoiled)
  · intro hall
    exact leads_pure (happlied fun b hb => of_decide_eq_true ((Option.all_eq_true _ _).mp hall b hb))
  · intro hnot
    obtain ⟨b, hb, hlogin⟩ := (Option.all_eq_false _ _).mp hnot
    exact leads_throw (hrefused b hb (of_decide_eq_false hlogin))

theorem leads_accounts_update {a : Account} {ok : Unit → Contents → Prop}
    (happlied : ∀ b, c.accounts.get? a.uuid = some b →
      ok () (c.putAccount (b.revised a)))
    (hrefused : c.accounts.get? a.uuid = none → bad (some (.accountNotFound a.uuid)) c)
    (hspoiled : exposed .update r.config.tables.accounts = true → ∀ o, Spoiled o → bad o c) :
    r.Leads exposed (r.accounts.update a) c ok bad := by
  have hupdate := TableNames.update_database hr c.tables .accounts
    (q := {
      table := r.accounts.name
      key := Row.uuidKey a.uuid
      set := Row.changes a
      condition := some (.present Row.loginName) })
    rfl (Row.uuid_uuidKey a.uuid)
  rw [Contents.get?_accounts, permits_present] at hupdate
  cases hb : c.accounts.get? a.uuid with
  | none =>
    rw [hb] at hupdate
    refine leads_bind (leads_unlessRefused (asks_update _) hupdate
      (fun h => (nomatch h : _ = r.store c)) nofun ?_ hspoiled)
    exact fun _ => leads_throw (hrefused hb)
  | some b =>
    have huuid : (b.revised a).uuid = a.uuid := (AccountMap.uuid_eq hb : b.uuid = a.uuid)
    have hset := c.set_put (b.revised a)
    rw [hb] at hupdate
    -- The row is there, and changing its payload and version gives the revised row.
    refine leads_bind (leads_unlessRefused (asks_update _) hupdate
      (fun _ => (?_ : _ = r.store (c.putAccount (b.revised a)))) ?_ nofun
      hspoiled)
    · rw [Option.map_some, Option.getD_some, Row.union_changes, store, ← hset, huuid]
      rfl
    · exact fun _ => leads_pure (happlied b hb)

theorem leads_accounts_get {u : Uuid} {ok : Option Account → Contents → Prop}
    (hok : ok (c.accounts.get? u) c)
    (hspoiled : exposed .get r.config.tables.accounts = true → ∀ o, Spoiled o → bad o c) :
    r.Leads exposed (r.accounts.get u) c ok bad := by
  have hget := TableNames.get_database hr c.tables .accounts
    (q := { table := r.accounts.name, key := Row.uuidKey u }) rfl (Row.uuid_uuidKey u)
  rw [Contents.get?_accounts] at hget
  refine leads_bind (leads_ofStore (asks_get _) (congrArg (r.store c).looked hget) ?_ hspoiled)
  cases h : c.accounts.get? u with
  | none =>
    rw [h] at hok
    exact leads_pure hok
  | some a =>
    rw [h] at hok
    rw [Option.map_some]
    simp only [Row.account_ofAccount]
    exact leads_pure hok

theorem leads_accounts_deleteIfLogin {u : Uuid} {login : String} {ok : Bool → Contents → Prop}
    (happlied : ∀ b, c.accounts.get? u = some b → b.login = login →
      ok true (c.eraseAccount u))
    (hrefused : (∀ b, c.accounts.get? u = some b → b.login ≠ login) → ok false c)
    (hspoiled : exposed .delete r.config.tables.accounts = true → ∀ o, Spoiled o → bad o c) :
    r.Leads exposed (r.accounts.deleteIfLogin u login) c ok bad := by
  have hdelete := TableNames.delete_database hr c.tables .accounts
    (q := {
      table := r.accounts.name
      key := Row.uuidKey u
      condition := some (.equals Row.loginName (.string login)) })
    rfl (Row.uuid_uuidKey u)
  rw [Contents.get?_accounts, permits_login, Contents.set_erase] at hdelete
  refine leads_unlessRefused (asks_delete _) hdelete (fun _ => rfl) ?_ ?_ hspoiled
  · intro hany
    obtain ⟨b, hb, hlogin⟩ := (Option.any_eq_true _ _).mp hany
    exact happlied b hb (of_decide_eq_true hlogin)
  · intro hnone
    exact hrefused fun b hb => of_decide_eq_false ((Option.any_eq_false _ _).mp hnone b hb)

/-! ### The login index -/

theorem leads_logins_get {login : String} {ok : Option Uuid → Contents → Prop}
    (hok : ok (c.logins.get? login) c)
    (hspoiled : exposed .get r.config.tables.logins = true → ∀ o, Spoiled o → bad o c) :
    r.Leads exposed (r.logins.get login) c ok bad := by
  have hget := TableNames.get_database hr c.tables .logins
    (q := { table := r.logins.name, key := Row.loginKey login }) rfl (Row.login_loginKey login)
  rw [Contents.get?_logins] at hget
  refine leads_bind (leads_ofStore (asks_get _) (congrArg (r.store c).looked hget) ?_ hspoiled)
  cases h : c.logins.get? login with
  | none =>
    rw [h] at hok
    exact leads_pure hok
  | some u =>
    rw [h] at hok
    rw [Option.map_some]
    simp only [Row.read_ofLogin]
    exact leads_pure hok

theorem leads_logins_claim {login : String} {u : Uuid} {ok : Claim → Contents → Prop}
    (hclaimed : (∀ v, c.logins.get? login = some v → v = u) →
      ok .claimed (c.bindLogin login u))
    (howned : ∀ v, c.logins.get? login = some v → v ≠ u → ok (.owned v) c)
    (hspoiled : exposed .put r.config.tables.logins = true → ∀ o, Spoiled o → bad o c) :
    r.Leads exposed (r.logins.claim login u) c ok bad := by
  have hput := TableNames.put_database hr c.tables .logins (q := r.logins.bindRequest login u)
    rfl (Row.login_ofLogin login u)
  have hitem : (r.logins.bindRequest login u).item = Row.ofLogin login u := rfl
  have hcondition : (r.logins.bindRequest login u).condition
      = some (.or (.absent Row.loginName) (.equals Row.uuidName (Row.uuidValue u))) := rfl
  rw [Contents.get?_logins, hcondition, permits_bind, hitem, Contents.set_bind] at hput
  have hpanic := fun hx => hspoiled hx _ .panicked
  refine leads_bind (leads_lift ?_)
  -- The general rule for conditional writes does not apply: a refusal is not just
  -- told from an application, its reported row is read.
  by_cases hall : (c.logins.get? login).all (· = u) = true
  · rw [if_pos hall] at hput
    refine ends_asks (asks_put _) (congrArg (r.store c).written hput) ?_ ?_ hpanic
    · exact leads_pure (hclaimed fun v hv =>
        of_decide_eq_true ((Option.all_eq_true _ _).mp hall v hv))
    · intro hx e he
      cases e with
      | conditionFailed => cases he
      | _ => exact leads_throw (hspoiled hx _ (.failed rfl))
  · rw [if_neg hall] at hput
    obtain ⟨v, hv, hne⟩ := (Option.all_eq_false _ _).mp (Bool.eq_false_iff.mpr hall)
    rw [hv] at hput
    refine ends_asks (asks_put _) (congrArg (r.store c).written hput) ?_ ?_ hpanic
    · -- The refusal reports the row of the owner.
      have howner : Row.uuid (Row.ofLogin login v) = .ok v := Row.read_ofLogin login v
      change r.Leads exposed (do
        let owner ← (Row.uuid (Row.ofLogin login v) : Except _ _)
        return Claim.owned owner) c ok bad
      rw [howner]
      exact leads_pure (howned v hv (of_decide_eq_false hne))
    · intro hx e he
      cases e with
      | conditionFailed => cases he
      | _ => exact leads_throw (hspoiled hx _ (.failed rfl))

/-! ### The directory version -/

theorem leads_counter_set {version : Int64} {ok : Unit → Contents → Prop}
    (hok : ok () (c.setVersion version))
    (hspoiled : exposed .put r.config.tables.misc = true → ∀ o, Spoiled o → bad o c) :
    r.Leads exposed (r.counter.set version) c ok bad := by
  have hput := TableNames.put_database hr c.tables .misc
    (q := { table := r.counter.table, item := Row.ofVersion version })
    rfl (Row.parameter_ofVersion version)
  rw [Contents.set_version] at hput
  exact leads_ofStore (asks_put _) (congrArg (r.store c).written hput) hok hspoiled

theorem leads_counter_get {ok : Option Int64 → Contents → Prop} (hok : ok c.version c)
    (hspoiled : exposed .get r.config.tables.misc = true → ∀ o, Spoiled o → bad o c) :
    r.Leads exposed r.counter.get c ok bad := by
  have hget := TableNames.get_database hr c.tables .misc
    (q := { table := r.counter.table, key := Row.versionKey }) rfl Row.parameter_versionKey
  rw [Contents.get?_misc] at hget
  refine leads_bind (leads_ofStore (asks_get _) (congrArg (r.store c).looked hget) ?_ hspoiled)
  cases h : c.version with
  | none =>
    rw [h] at hok
    exact leads_pure hok
  | some version =>
    rw [h] at hok
    rw [Option.map_some]
    simp only [Row.read_ofVersion]
    exact leads_pure hok

/-! ### The queues -/

end valid

end Registry

end LoginRegistry
