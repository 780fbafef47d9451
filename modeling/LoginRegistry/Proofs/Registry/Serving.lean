import LoginRegistry.Proofs.Registry.Lookups
import LoginRegistry.Proofs.Store.Behaviour

/-! # Deletes on any tables

    One rule for each request that a delete makes, whatever rows the tables hold, and
    from these the rule of a delete (`within_deleteWith`): what it leaves when every
    request is served, and the stages at which a spoiled request can cut it off.

    Refusals have to be those of the database here, because a delete takes the refusal
    of a release for the login being another's.
-/

namespace LoginRegistry

open Store (Item)

/-- What befalls requests is no refusal. -/
def Exposure.IsGenuine (x : Exposure) : Prop :=
  ∀ request m, x request m = true → m.isGenuine = true

theorem Exposure.isGenuine_genuine (exposed : Store.Operation → String → Bool) :
    (genuine exposed).IsGenuine :=
  fun _ _ h => (Bool.and_eq_true_iff.mp h).2

/-! ### Stages -/

namespace Tables

/-- The tables without the login that is recorded with the retry entry of an account. -/
def releaseRecorded (t : Tables) (u : Uuid) : Tables :=
  match t.recorded? u with
  | some login => t.release login u
  | none => t

/-- Only the login index changes. -/
theorem releaseRecorded_ne {t : Tables} {u : Uuid} {i : TableId} (hi : i ≠ .logins) :
    t.releaseRecorded u i = t i := by
  rw [releaseRecorded]
  cases t.recorded? u with
  | none => rfl
  | some login => exact release_ne hi

theorem owner?_releaseRecorded_eq_some_iff {t : Tables} {u v : Uuid} {l : String} :
    (t.releaseRecorded u).owner? l = some v ↔
      t.owner? l = some v ∧ (t.recorded? u = some l → v ≠ u) := by
  rw [releaseRecorded]
  cases t.recorded? u with
  | none => exact (and_iff_left nofun).symm
  | some login =>
    rw [owner?_release_eq_some_iff, Option.some.injEq, eq_comm (a := l)]

/-- The tables with a version, if there is one to store. -/
def setVersion? (t : Tables) : Option Int64 → Tables
  | some version => t.setVersion version
  | none => t

/-- Only the parameters change. -/
theorem setVersion?_ne {t : Tables} {version? : Option Int64} {i : TableId} (hi : i ≠ .misc) :
    t.setVersion? version? i = t i := by
  cases version? with
  | none => rfl
  | some version => exact set_ne t hi _

/-- What the removal of an account can leave when it is cut off. -/
inductive RemoveStage (t : Tables) (u : Uuid) : Tables → Prop where
  /-- Nothing is removed. -/
  | start : RemoveStage t u t
  /-- The login is free or another's. -/
  | released {row : Item} {a : Account} : t.accountRow? u = some row → Row.account row = .ok a →
    RemoveStage t u (t.release a.login u)
  /-- The row is removed too. -/
  | removed {row : Item} {a : Account} : t.accountRow? u = some row → Row.account row = .ok a →
    RemoveStage t u ((t.release a.login u).eraseAccount u)

/-- A delete that finds no row leaves none. -/
theorem accountRow?_releaseRecorded_eq_none {t : Tables} {u v : Uuid}
    (hrow : t.accountRow? u = none) (hv : v = u ∨ t.accountRow? v = none) :
    (t.releaseRecorded u).accountRow? v = none := by
  rw [accountRow?_congr (releaseRecorded_ne nofun)]
  exact hv.elim (fun hv => hv ▸ hrow) id

/-- A delete that finds a row removes it. -/
theorem accountRow?_remove_eq_none {t : Tables} {u v : Uuid} (login : String)
    (hv : v = u ∨ t.accountRow? v = none) :
    ((t.release login u).eraseAccount u).accountRow? v = none := by
  rw [accountRow?_eraseAccount]
  split
  · rfl
  · next hne =>
    rw [accountRow?_congr (release_ne nofun)]
    exact hv.resolve_left hne

/-- The removal of an account does nothing to the tombstones. -/
theorem RemoveStage.tombstones_eq {t t' : Tables} {u : Uuid} (h : t.RemoveStage u t') :
    t' .tombstones = t .tombstones := by
  cases h with
  | start => rfl
  | released => exact release_ne nofun
  | removed => exact release_ne (i := .tombstones) nofun

end Tables

namespace Registry

/-- What a delete does after its tombstone. -/
def removal (r : Registry) (u : Uuid) (version? : Option Int64) : Action Unit := do
  match ← r.accounts.get u with
  | none => r.releaseRecorded u
  | some account =>
    let _ ← r.logins.release account.login u
    r.accounts.delete u
    match version? with
    | some version => r.counter.set version
    | none => return

theorem deleteWith_eq (r : Registry) (u : Uuid) (options : DeleteOptions) :
    r.deleteWith u options = Action.timed .delete
      (if options.tombstone then r.tombstones.put u >>= fun _ => r.removal u options.version
        else r.removal u options.version) := rfl

variable {r : Registry} {x : Exposure} {t : Tables} {bad : Option RegistryError → Tables → Prop}

section valid

variable (hr : Function.Injective r.config.tables.name)

include hr

/-! ### Requests -/

theorem within_accounts_get {u : Uuid} {ok : Option Account → Tables → Prop}
    (hnone : t.accountRow? u = none → ok none t)
    (hsome : ∀ row a, t.accountRow? u = some row → Row.account row = .ok a → ok (some a) t)
    (hcorrupt : ∀ row e, t.accountRow? u = some row → Row.account row = .error e → bad (some e) t)
    (hspoiled : ∀ request m o, x request m = true → m.Brings o → bad o t) :
    (r.accounts.get u).Within (r.config.tables.behaviour x) t ok bad := by
  have hget := TableNames.get_database hr t .accounts
    (q := { table := r.accounts.name, key := Row.uuidKey u }) rfl (Row.uuid_uuidKey u)
  refine Action.within_bind (TableNames.within_ofStore_send hr nofun
    (congrArg (r.config.tables.database t).looked hget) ?_ (hspoiled _))
  cases hrow : (t .accounts).get? (Row.uuidValue u) with
  | none => exact Action.within_pure (hnone hrow)
  | some row =>
    cases ha : Row.account row with
    | ok a =>
      simp only [ha]
      exact Action.within_pure (hsome row a hrow ha)
    | error e =>
      simp only [ha]
      exact Action.within_throw (hcorrupt row e hrow ha)

theorem within_accounts_delete {u : Uuid} {ok : Unit → Tables → Prop}
    (hok : ok () (t.eraseAccount u))
    (hspoiled : ∀ request m o, x request m = true → m.Brings o → bad o t) :
    (r.accounts.delete u).Within (r.config.tables.behaviour x) t ok bad := by
  have hdelete := TableNames.delete_database hr t .accounts
    (q := { table := r.accounts.name, key := Row.uuidKey u }) rfl (Row.uuid_uuidKey u)
  exact TableNames.within_ofStore_send hr nofun
    (congrArg (r.config.tables.database t).written hdelete) hok (hspoiled _)

theorem within_counter_set {version : Int64} {ok : Unit → Tables → Prop}
    (hok : ok () (t.setVersion version))
    (hspoiled : ∀ request m o, x request m = true → m.Brings o → bad o t) :
    (r.counter.set version).Within (r.config.tables.behaviour x) t ok bad := by
  have hput := TableNames.put_database hr t .misc
    (q := { table := r.counter.table, item := Row.ofVersion version })
    rfl (Row.parameter_ofVersion version)
  exact TableNames.within_ofStore_send hr nofun
    (congrArg (r.config.tables.database t).written hput) hok (hspoiled _)

theorem within_tombstones_put {u : Uuid} {ok : Unit → Tables → Prop} (hok : ok () (t.bury u))
    (hspoiled : ∀ request m o, x request m = true → m.Brings o → bad o t) :
    (r.tombstones.put u).Within (r.config.tables.behaviour x) t ok bad := by
  have hput := TableNames.put_database hr t .tombstones
    (q := { table := r.tombstones.table, item := Row.uuidKey u }) rfl (Row.uuid_uuidKey u)
  exact TableNames.within_ofStore_send hr nofun
    (congrArg (r.config.tables.database t).written hput) hok (hspoiled _)

theorem within_retries_login {u : Uuid} {ok : Option String → Tables → Prop}
    (hok : ok (t.recorded? u) t)
    (hspoiled : ∀ request m o, x request m = true → m.Brings o → bad o t) :
    (r.retries.login u).Within (r.config.tables.behaviour x) t ok bad := by
  have hget := TableNames.get_database hr t .retries
    (q := { table := r.retries.table, key := Row.uuidKey u }) rfl (Row.uuid_uuidKey u)
  exact Action.within_bind (TableNames.within_ofStore_send hr nofun
    (congrArg (r.config.tables.database t).looked hget) (Action.within_pure hok) (hspoiled _))

/-- A release frees its login if that is the account's. -/
theorem within_logins_release (hx : x.IsGenuine) {login : String} {u : Uuid}
    {ok : Bool → Tables → Prop} (hok : ∀ released, ok released (t.release login u))
    (hspoiled : ∀ request m o, x request m = true → m.Brings o → bad o t) :
    (r.logins.release login u).Within (r.config.tables.behaviour x) t ok bad := by
  have hdelete := TableNames.delete_database hr t .logins
    (q := {
      table := r.logins.name
      key := Row.loginKey login
      condition := some (.equals Row.uuidName (Row.uuidValue u)) })
    rfl (Row.login_loginKey login)
  have howner := t.permits_owner login u
  rw [Tables.loginRow?] at howner
  rw [howner] at hdelete
  refine Action.within_bind (Action.within_lift (Script.within_send fun answer t' h => ?_))
  rcases TableNames.respond_or_eq_of_behaviour hr h (fun h => by cases h) with
    h | ⟨rfl, ⟨e, hm, rfl⟩ | ⟨hm, rfl⟩⟩
  · simp only [Store.Database.respond, hdelete] at h
    split at h
    · next hbound =>
      obtain ⟨rfl, hd⟩ := Prod.mk.inj h
      have hfree := hok true
      rw [Tables.release, if_pos (of_decide_eq_true hbound)] at hfree
      rw [← TableNames.database_injective hr hd]
      exact Action.within_pure hfree
    · next hbound =>
      obtain ⟨rfl, hd⟩ := Prod.mk.inj h
      have hkeep := hok false
      rw [Tables.release, if_neg fun howner => hbound (decide_eq_true howner)] at hkeep
      rw [← TableNames.database_injective hr hd]
      exact Action.within_pure hkeep
  · have hgenuine := hx _ _ hm
    have hbad := hspoiled _ _ _ hm (.failure e)
    cases e with
    | conditionFailed => cases hgenuine
    | tableNotFound | invalid | throttled | unavailable => exact Action.within_throw hbad
  · exact hspoiled _ _ _ hm .panic

/-! ### Deletes -/

variable (hx : x.IsGenuine)

include hx

theorem within_releaseRecorded {u : Uuid} {ok : Unit → Tables → Prop}
    (hok : ok () (t.releaseRecorded u))
    (hspoiled : ∀ request m o, x request m = true → m.Brings o → bad o t) :
    (r.releaseRecorded u).Within (r.config.tables.behaviour x) t ok bad := by
  refine Action.within_bind (within_retries_login hr ?_ hspoiled)
  unfold Tables.releaseRecorded at hok
  split
  · next login hlogin =>
    rw [hlogin] at hok
    exact Action.within_bind
      (within_logins_release hr hx (fun _ => Action.within_pure hok) hspoiled)
  · next hlogin =>
    rw [hlogin] at hok
    exact Action.within_pure hok

theorem within_removal {u : Uuid} {version? : Option Int64} {ok : Unit → Tables → Prop}
    (hgone : t.accountRow? u = none → ok () (t.releaseRecorded u))
    (hremoved : ∀ row a, t.accountRow? u = some row → Row.account row = .ok a →
      ok () (((t.release a.login u).eraseAccount u).setVersion? version?))
    (hcorrupt : ∀ row e, t.accountRow? u = some row → Row.account row = .error e → bad (some e) t)
    (hspoiled : ∀ request m o, x request m = true → m.Brings o → ∀ t', t.RemoveStage u t' →
      bad o t') :
    (r.removal u version?).Within (r.config.tables.behaviour x) t ok bad := by
  have hstart : ∀ request m o, x request m = true → m.Brings o → bad o t :=
    fun request m o hm ho => hspoiled request m o hm ho t .start
  refine Action.within_bind (within_accounts_get hr ?_ ?_ hcorrupt hstart)
  · exact fun hrow => within_releaseRecorded hr hx (hgone hrow) hstart
  · intro row a hrow ha
    have hremoved := hremoved row a hrow ha
    refine Action.within_bind (within_logins_release hr hx (fun _ => ?_) hstart)
    refine Action.within_bind (within_accounts_delete hr ?_
      fun request m o hm ho => hspoiled request m o hm ho _ (.released hrow ha))
    cases version? with
    | none => exact Action.within_pure hremoved
    | some version =>
      exact within_counter_set hr hremoved
        fun request m o hm ho => hspoiled request m o hm ho _ (.removed hrow ha)

theorem within_deleteWith {u : Uuid} {options : DeleteOptions} {ok : Unit → Tables → Prop}
    {start : Tables} (hstart : start = if options.tombstone then t.bury u else t)
    (hgone : start.accountRow? u = none → ok () (start.releaseRecorded u))
    (hremoved : ∀ row a, start.accountRow? u = some row → Row.account row = .ok a →
      ok () (((start.release a.login u).eraseAccount u).setVersion? options.version))
    (hcorrupt : ∀ row e, start.accountRow? u = some row → Row.account row = .error e →
      bad (some e) start)
    (hunburied : ∀ request m o, x request m = true → m.Brings o → bad o t)
    (hspoiled : ∀ request m o, x request m = true → m.Brings o → ∀ t', start.RemoveStage u t' →
      bad o t') :
    (r.deleteWith u options).Within (r.config.tables.behaviour x) t ok bad := by
  have hremoval := within_removal hr hx hgone hremoved hcorrupt hspoiled
  rw [deleteWith_eq]
  refine Action.within_timed ?_
  split at hstart
  · next htombstone =>
    subst hstart
    rw [if_pos htombstone]
    exact Action.within_bind (within_tombstones_put hr hremoval hunburied)
  · next htombstone =>
    subst hstart
    rw [if_neg htombstone]
    exact hremoval

end valid

end Registry

end LoginRegistry
