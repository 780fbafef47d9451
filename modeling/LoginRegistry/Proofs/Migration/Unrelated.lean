import LoginRegistry.Proofs.Migration.Commuting
import LoginRegistry.Proofs.Registry.Retrying

/-! # Operations on unrelated accounts

    An operation looks at few places: the row and the queue entries of its account, the
    login that it asks for and the one that the row has, and, if the login is another's, the
    row of the owner (`Deed.Place`).  It depends on nothing else and changes nothing else.

    This is said by two runs side by side (`Twins`): started on tables that hold the same at
    the places, an operation returns the same on both and again leaves the same there
    (`Deed.exists_twins`).  Where accounts and logins agree, operations on different
    accounts with different logins have no place in common, so they commute
    (`unrelated_deeds_commute`).
-/

namespace LoginRegistry

open Store (AttributeValue Database Item)

/-! ### Two runs side by side -/

/-- Two runs of an operation for the account `u`, started on `t₀` and `t₀'`, have come to `t`
    and `t'`.  They hold the same at the places.  Other places are left, apart from the
    directory version, and only logins of the account are bound. -/
structure Twins (place : TableId → AttributeValue → Prop) (u : Uuid) (t₀ t₀' t t' : Tables) :
    Prop where
  /-- The places hold the same. -/
  same : ∀ i key, place i key → (t' i).get? key = (t i).get? key
  /-- The first run leaves the others. -/
  left : ∀ i key, ¬ place i key → i ≠ .misc → (t i).get? key = (t₀ i).get? key
  /-- The second run leaves the others. -/
  left' : ∀ i key, ¬ place i key → i ≠ .misc → (t' i).get? key = (t₀' i).get? key
  /-- The first run binds logins to the account only. -/
  bound : ∀ l v, t.owner? l = some v → v = u ∨ t₀.owner? l = some v

namespace Twins

variable {place : TableId → AttributeValue → Prop} {u v : Uuid} {t₀ t₀' t t' : Tables}
  {login : String}

/-! ### Lookups -/

theorem accountRow? (h : Twins place u t₀ t₀' t t') (hv : place .accounts (Row.uuidValue v)) :
    t'.accountRow? v = t.accountRow? v := h.same _ _ hv

theorem loginRow? (h : Twins place u t₀ t₀' t t') (hlogin : place .logins (.string login)) :
    t'.loginRow? login = t.loginRow? login := h.same _ _ hlogin

theorem owner? (h : Twins place u t₀ t₀' t t') (hlogin : place .logins (.string login)) :
    t'.owner? login = t.owner? login := by
  unfold Tables.owner?
  rw [h.loginRow? hlogin]

theorem recorded? (h : Twins place u t₀ t₀' t t') (hv : place .retries (Row.uuidValue v)) :
    t'.recorded? v = t.recorded? v := by
  unfold Tables.recorded?
  rw [h.same _ _ hv]

theorem admits (h : Twins place u t₀ t₀' t t') {a : Account}
    (ha : place .accounts (Row.uuidValue a.uuid)) : t'.admits a = t.admits a := by
  unfold Tables.admits
  rw [h.accountRow? ha]

theorem precedes (h : Twins place u t₀ t₀' t t') {a : Account}
    (ha : place .accounts (Row.uuidValue a.uuid)) : t'.precedes a = t.precedes a :=
  Tables.precedes_congr (h.accountRow? ha)

theorem hasLogin (h : Twins place u t₀ t₀' t t') (hv : place .accounts (Row.uuidValue v)) :
    t'.hasLogin v = t.hasLogin v := by
  unfold Tables.hasLogin
  rw [h.accountRow? hv]

theorem hasThisLogin (h : Twins place u t₀ t₀' t t') (hv : place .accounts (Row.uuidValue v)) :
    t'.hasThisLogin v login = t.hasThisLogin v login := by
  unfold Tables.hasThisLogin
  rw [h.accountRow? hv]

theorem grants (h : Twins place u t₀ t₀' t t') (hlogin : place .logins (.string login)) :
    t'.grants login v = t.grants login v :=
  Tables.grants_congr (h.loginRow? hlogin)

/-! ### Updates -/

theorem start (hsame : ∀ i key, place i key → (t₀' i).get? key = (t₀ i).get? key) :
    Twins place u t₀ t₀' t₀ t₀' where
  same := hsame
  left _ _ _ _ := rfl
  left' _ _ _ _ := rfl
  bound _ _ := .inr

/-- An item is stored at a place. -/
theorem insert (h : Twins place u t₀ t₀' t t') {i : TableId} {key : AttributeValue}
    (hplace : place i key ∨ i = .misc) {row : Item}
    (hbound : ∀ l v, (t.set i ((t i).insert key row)).owner? l = some v →
      v = u ∨ t.owner? l = some v) :
    Twins place u t₀ t₀' (t.set i ((t i).insert key row)) (t'.set i ((t' i).insert key row)) where
  same j key' hkey' := by
    rw [Tables.get?_set_insert, Tables.get?_set_insert, h.same _ _ hkey']
  left j key' hkey' hmisc := by
    rw [Tables.get?_set_insert, if_neg, h.left _ _ hkey' hmisc]
    rintro ⟨rfl, rfl⟩
    exact hplace.elim hkey' hmisc
  left' j key' hkey' hmisc := by
    rw [Tables.get?_set_insert, if_neg, h.left' _ _ hkey' hmisc]
    rintro ⟨rfl, rfl⟩
    exact hplace.elim hkey' hmisc
  bound l v hl := (hbound l v hl).elim .inl (h.bound l v)

/-- A place is cleared. -/
theorem erase (h : Twins place u t₀ t₀' t t') {i : TableId} {key : AttributeValue}
    (hplace : place i key)
    (hbound : ∀ l v, (t.set i ((t i).erase key)).owner? l = some v → t.owner? l = some v) :
    Twins place u t₀ t₀' (t.set i ((t i).erase key)) (t'.set i ((t' i).erase key)) where
  same j key' hkey' := by
    rw [Tables.get?_set_erase, Tables.get?_set_erase, h.same _ _ hkey']
  left j key' hkey' hmisc := by
    rw [Tables.get?_set_erase, if_neg, h.left _ _ hkey' hmisc]
    rintro ⟨rfl, rfl⟩
    exact hkey' hplace
  left' j key' hkey' hmisc := by
    rw [Tables.get?_set_erase, if_neg, h.left' _ _ hkey' hmisc]
    rintro ⟨rfl, rfl⟩
    exact hkey' hplace
  bound l v hl := h.bound l v (hbound l v hl)

theorem setAccount (h : Twins place u t₀ t₀' t t') (hv : place .accounts (Row.uuidValue v))
    (row : Item) : Twins place u t₀ t₀' (t.setAccount v row) (t'.setAccount v row) :=
  h.insert (.inl hv) fun _ _ => .inr

theorem eraseAccount (h : Twins place u t₀ t₀' t t') (hv : place .accounts (Row.uuidValue v)) :
    Twins place u t₀ t₀' (t.eraseAccount v) (t'.eraseAccount v) :=
  h.erase hv fun _ _ => id

theorem reviseAccount (h : Twins place u t₀ t₀' t t') (hv : place .accounts (Row.uuidValue v))
    (a : Account) : Twins place u t₀ t₀' (t.reviseAccount v a) (t'.reviseAccount v a) := by
  unfold Tables.reviseAccount
  rw [h.accountRow? hv]
  exact h.setAccount hv _

theorem withdraw (h : Twins place u t₀ t₀' t t') (hv : place .accounts (Row.uuidValue v)) :
    Twins place u t₀ t₀' (t.withdraw v login) (t'.withdraw v login) := by
  unfold Tables.withdraw
  rw [h.hasThisLogin hv]
  split
  · exact h.eraseAccount hv
  · exact h

theorem bindLogin (h : Twins place u t₀ t₀' t t') (hlogin : place .logins (.string login)) :
    Twins place u t₀ t₀' (t.bindLogin login u) (t'.bindLogin login u) := by
  apply h.insert (.inl hlogin)
  intro l v hl
  have hl : (t.bindLogin login u).owner? l = some v := hl
  rw [Tables.owner?_bindLogin] at hl
  split at hl
  · exact .inl (Option.some.inj hl).symm
  · exact .inr hl

/-- A login is released at a place, or it is not the account's in either run. -/
theorem release (h : Twins place u t₀ t₀' t t')
    (hlogin : t.owner? login = some u ∨ t'.owner? login = some u →
      place .logins (.string login)) :
    Twins place u t₀ t₀' (t.release login u) (t'.release login u) := by
  by_cases hplace : place .logins (.string login)
  · unfold Tables.release
    rw [h.owner? hplace]
    split
    · next howner =>
      apply h.erase hplace
      intro l v hl
      have hl : (t.freeLogin login).owner? l = some v := hl
      unfold Tables.owner? at hl
      rw [Tables.loginRow?_freeLogin] at hl
      split at hl
      · cases hl
      · exact hl
    · exact h
  · rw [Tables.release_of_ne fun howner => hplace (hlogin (.inl howner)),
      Tables.release_of_ne fun howner => hplace (hlogin (.inr howner))]
    exact h

theorem bury (h : Twins place u t₀ t₀' t t') (hv : place .tombstones (Row.uuidValue v)) :
    Twins place u t₀ t₀' (t.bury v) (t'.bury v) :=
  h.insert (.inl hv) fun _ _ => .inr

theorem setVersion (h : Twins place u t₀ t₀' t t') (version : Int64) :
    Twins place u t₀ t₀' (t.setVersion version) (t'.setVersion version) :=
  h.insert (.inr rfl) fun _ _ => .inr

end Twins

/-! ### Creates side by side -/

namespace Creating

variable {place : TableId → AttributeValue → Prop} {a : Account} {version : Int64}
  {t₀ t₀' t t' : Tables}

/-- As long as a create may still come to update the owner of its login, the row of the owner
    is at a place. -/
def OwnerPlaced (place : TableId → AttributeValue → Prop) (a : Account) : Creating → Tables → Prop
  | .start, t | .stored, t =>
    ∀ v, t.owner? a.login = some v → place .accounts (Row.uuidValue v)
  | .lost owner, _ | .withdrawn owner, _ => place .accounts (Row.uuidValue owner)
  | .bound, _ | .ended _, _ => True

/-- A step of two creates that are at one stage takes both of them to one stage. -/
theorem twins_step {stage : Creating} (h : Twins place a.uuid t₀ t₀' t t')
    (haccount : place .accounts (Row.uuidValue a.uuid))
    (hlogin : place .logins (.string a.login)) (howner : OwnerPlaced place a stage t) :
    (stage.step a version t').1 = (stage.step a version t).1 ∧
      Twins place a.uuid t₀ t₀' (stage.step a version t).2 (stage.step a version t').2 ∧
      OwnerPlaced place a (stage.step a version t).1 (stage.step a version t).2 := by
  cases stage with
  | ended result => exact ⟨rfl, h, trivial⟩
  | start =>
    cases hadmits : t.admits a with
    | true =>
      rw [step_start_of_admits hadmits, step_start_of_admits ((h.admits haccount).trans hadmits)]
      exact ⟨rfl, h.setAccount haccount _, howner⟩
    | false =>
      rw [step_start_of_not_admits hadmits,
        step_start_of_not_admits ((h.admits haccount).trans hadmits)]
      exact ⟨rfl, h, trivial⟩
  | stored =>
    cases hgrants : t.grants a.login a.uuid with
    | true =>
      rw [step_stored_of_grants hgrants, step_stored_of_grants ((h.grants hlogin).trans hgrants)]
      exact ⟨rfl, h.bindLogin hlogin, trivial⟩
    | false =>
      rw [step_stored_of_not_grants hgrants,
        step_stored_of_not_grants ((h.grants hlogin).trans hgrants), h.loginRow? hlogin]
      refine ⟨rfl, h, ?_⟩
      rcases refused_cases a.login (t.loginRow? a.login) with
        ⟨row, owner, hrow, huuid, hrefused⟩ | ⟨-, hrefused⟩ | ⟨_, _, -, -, hrefused⟩
      · rw [hrefused]
        apply howner
        rw [Tables.owner?, hrow, Option.bind_some, huuid]
        rfl
      · rw [hrefused]
        trivial
      · rw [hrefused]
        trivial
  | bound => exact ⟨rfl, h.setVersion version, trivial⟩
  | lost owner => exact ⟨rfl, h.withdraw haccount, howner⟩
  | withdrawn owner =>
    have howner : place .accounts (Row.uuidValue owner) := howner
    cases hhas : t.hasLogin owner with
    | true =>
      rw [step_withdrawn_of_hasLogin hhas,
        step_withdrawn_of_hasLogin ((h.hasLogin howner).trans hhas)]
      exact ⟨rfl, h.reviseAccount howner a, trivial⟩
    | false =>
      rw [step_withdrawn_of_not_hasLogin hhas,
        step_withdrawn_of_not_hasLogin ((h.hasLogin howner).trans hhas)]
      exact ⟨rfl, h, trivial⟩

theorem twins_iterate (version : Int64) (h : Twins place a.uuid t₀ t₀' t t')
    (haccount : place .accounts (Row.uuidValue a.uuid))
    (hlogin : place .logins (.string a.login)) (howner : OwnerPlaced place a .start t) (k : Nat) :
    let p := (advance a version)^[k] (.start, t)
    let p' := (advance a version)^[k] (.start, t')
    p'.1 = p.1 ∧ Twins place a.uuid t₀ t₀' p.2 p'.2 ∧ OwnerPlaced place a p.1 p.2 := by
  induction k with
  | zero => exact ⟨rfl, h, howner⟩
  | succ k ih =>
    simp only [Function.iterate_succ_apply', advance] at ih ⊢
    obtain ⟨hstage, htwins, howner⟩ := ih
    rw [hstage]
    exact twins_step htwins haccount hlogin howner

end Creating

/-! ### Operations on one account -/

/-- An operation on one account. -/
inductive Deed where
  | create (a : Account) (version : Int64)
  | update (a : Account)
  | delete (u : Uuid) (version : Int64)
  | migrate (a : Account) (turns : List Bool)

namespace Deed

/-- What an operation returns; `none` is for a panic. -/
inductive Outcome where
  | created (result : Option (Except RegistryError Creation))
  | done (result : Option (Except RegistryError Unit))
  | migrated (result : Option (Except MigrationError Bool))

/-- The id of the account. -/
def uuid : Deed → Uuid
  | create a _ | update a | migrate a _ => a.uuid
  | delete u _ => u

/-- The login that is asked for. -/
def login? : Deed → Option String
  | create a _ | migrate a _ => some a.login
  | update _ | delete _ _ => none

/-- Does the operation on a database that nothing befalls. -/
def run (r : Registry) (d : Database) : Deed → Outcome × Database
  | create a version =>
    let run := (r.create a version).run.run Database.handler d
    (.created run.result, run.state)
  | update a =>
    let run := (r.update a).run.run Database.handler d
    (.done run.result, run.state)
  | delete u version =>
    let run := (r.delete u version).run.run Database.handler d
    (.done run.result, run.state)
  | migrate a turns =>
    let run := (r.migrate a turns).run Database.handler d
    (.migrated run.result, run.state)

/-- The login is asked for, or the row of the account has it. -/
def Concerns (w : Deed) (t : Tables) (l : String) : Prop :=
  w.login? = some l ∨ ∃ row, t.accountRow? w.uuid = some row ∧ Row.login? row = some l

/-- Where an operation looks, apart from the directory version. -/
def Place (w : Deed) (t : Tables) : TableId → AttributeValue → Prop
  | .accounts, key => key = Row.uuidValue w.uuid ∨
    ∃ l v, w.login? = some l ∧ t.owner? l = some v ∧ key = Row.uuidValue v
  | .logins, key => ∃ l, w.Concerns t l ∧ key = .string l
  | .tombstones, key | .retries, key => key = Row.uuidValue w.uuid
  | .misc, _ => False

end Deed

/-! ### Updates on any tables -/

namespace Tables

/-- The tables after an update that nothing befalls. -/
def afterUpdate (t : Tables) (a : Account) : Tables :=
  if t.hasLogin a.uuid then t.reviseAccount a.uuid a else t

/-- What an update that nothing befalls returns: it fails if there is no row with a login. -/
def revision (t : Tables) (a : Account) : Except RegistryError Unit :=
  if t.hasLogin a.uuid then .ok () else .error (.accountNotFound a.uuid)

end Tables

namespace Registry

variable {r : Registry}

section valid

variable (hr : Function.Injective r.config.tables.name)

include hr

/-- An update that nothing befalls, whatever rows there are. -/
theorem run_update (a : Account) (t : Tables) :
    let run := (r.update a).run.run Database.handler (r.config.tables.database t)
    run.result = some (t.revision a) ∧ run.state = r.config.tables.database (t.afterUpdate a) := by
  have hupdate : (r.update a).Within (r.config.tables.behaviour .calm) t
      (fun _ t' => t.revision a = .ok () ∧ t' = t.afterUpdate a)
      fun o t' => ∃ e, o = some e ∧ t.revision a = .error e ∧ t' = t.afterUpdate a := by
    apply Action.within_timed
    apply Action.within_of_once
    apply once_accounts_update hr (Exposure.isGenuine_genuine _)
    · exact fun hlogin => ⟨if_pos hlogin, (if_pos hlogin).symm⟩
    · intro hlogin
      have hlogin : ¬ t.hasLogin a.uuid = true := Bool.eq_false_iff.mp hlogin
      exact ⟨_, rfl, if_neg hlogin, (if_neg hlogin).symm⟩
    · exact fun _ _ _ hm _ => (Exposure.not_calm hm).elim
  exact run_of_ends hr hupdate

end valid

end Registry

namespace Deed

variable {r : Registry} {t t' : Tables} {place : TableId → AttributeValue → Prop}

/-- An update looks at the row of its account. -/
theorem twins_update {a : Account}
    (hsame : ∀ i key, (update a).Place t i key → (t' i).get? key = (t i).get? key) :
    t'.revision a = t.revision a ∧
      Twins ((update a).Place t) a.uuid t t' (t.afterUpdate a) (t'.afterUpdate a) := by
  have haccount : (update a).Place t .accounts (Row.uuidValue a.uuid) := .inl rfl
  have hstart : Twins ((update a).Place t) a.uuid t t' t t' := .start hsame
  refine ⟨by rw [Tables.revision, hstart.hasLogin haccount]; rfl, ?_⟩
  unfold Tables.afterUpdate
  rw [hstart.hasLogin haccount]
  split
  · exact hstart.reviseAccount haccount a
  · exact hstart

/-- A delete looks at the places of its account and at the login of its row, and at a recorded
    login only if that is the account's. -/
theorem twins_delete {u : Uuid} {version : Int64}
    (hsame : ∀ i key, (delete u version).Place t i key → (t' i).get? key = (t i).get? key)
    (howned : ∀ l, t.owner? l = some u ∨ t'.owner? l = some u → (delete u version).Concerns t l) :
    t'.deletion u = t.deletion u ∧
      Twins ((delete u version).Place t) u t t' (t.afterDelete u version)
        (t'.afterDelete u version) := by
  have haccount : (delete u version).Place t .accounts (Row.uuidValue u) := .inl rfl
  have hrow : t'.accountRow? u = t.accountRow? u := hsame _ _ haccount
  have hbury : Twins ((delete u version).Place t) u t t' (t.bury u) (t'.bury u) :=
    (Twins.start hsame).bury rfl
  refine ⟨by rw [Tables.deletion, hrow]; rfl, ?_⟩
  cases hrow? : t.accountRow? u with
  | none =>
    have hrecorded : (t'.bury u).recorded? u = (t.bury u).recorded? u := hbury.recorded? rfl
    rw [Tables.afterDelete_of_none hrow?, Tables.afterDelete_of_none (hrow.trans hrow?)]
    unfold Tables.releaseRecorded
    rw [hrecorded]
    split
    · next login _ => exact hbury.release fun howner => ⟨login, howned login howner, rfl⟩
    · exact hbury
  | some row =>
    cases hread : Row.account row with
    | error e =>
      rw [Tables.afterDelete_of_error hrow? hread,
        Tables.afterDelete_of_error (hrow.trans hrow?) hread]
      exact hbury
    | ok a =>
      rw [Tables.afterDelete_of_some hrow? hread,
        Tables.afterDelete_of_some (hrow.trans hrow?) hread]
      have hlogin : (delete u version).Concerns t a.login :=
        .inr ⟨row, hrow?, Row.login?_of_account hread⟩
      have hrelease := hbury.release fun _ => ⟨a.login, hlogin, rfl⟩
      exact (hrelease.eraseAccount haccount).setVersion version

/-- A migration looks at the row of its account and at the row of its login. -/
theorem twins_migrate {a : Account} {turns : List Bool}
    (hsame : ∀ i key, (migrate a turns).Place t i key → (t' i).get? key = (t i).get? key) :
    (t'.precedes a && t'.grants a.login a.uuid) = (t.precedes a && t.grants a.login a.uuid) ∧
      Twins ((migrate a turns).Place t) a.uuid t t' ((t.migrateRow a).migrateLogin a)
        ((t'.migrateRow a).migrateLogin a) := by
  have haccount : (migrate a turns).Place t .accounts (Row.uuidValue a.uuid) := .inl rfl
  have hlogin : (migrate a turns).Place t .logins (.string a.login) := ⟨a.login, .inl rfl, rfl⟩
  have hstart : Twins ((migrate a turns).Place t) a.uuid t t' t t' := .start hsame
  have hrow : Twins ((migrate a turns).Place t) a.uuid t t' (t.migrateRow a) (t'.migrateRow a) := by
    unfold Tables.migrateRow
    rw [hstart.precedes haccount]
    split
    · exact hstart.setAccount haccount _
    · exact hstart
  refine ⟨by rw [hstart.precedes haccount, hstart.grants hlogin], ?_⟩
  unfold Tables.migrateLogin
  rw [hrow.grants hlogin]
  split
  · exact hrow.bindLogin hlogin
  · exact hrow

/-- On tables that hold the same at its places, and in which it is concerned with all logins
    of its account, an operation does the same. -/
theorem exists_twins (hr : Function.Injective r.config.tables.name) (w : Deed)
    (hsame : ∀ i key, w.Place t i key → (t' i).get? key = (t i).get? key)
    (howned : ∀ l, t.owner? l = some w.uuid ∨ t'.owner? l = some w.uuid → w.Concerns t l) :
    ∃ outcome t₁ t₁',
      w.run r (r.config.tables.database t) = (outcome, r.config.tables.database t₁) ∧
      w.run r (r.config.tables.database t') = (outcome, r.config.tables.database t₁') ∧
      Twins (w.Place t) w.uuid t t' t₁ t₁' := by
  cases w with
  | create a version =>
    have hlogin : (create a version).Place t .logins (.string a.login) := ⟨a.login, .inl rfl, rfl⟩
    have howner : Creating.OwnerPlaced ((create a version).Place t) a .start t :=
      fun v hv => .inr ⟨a.login, v, rfl, hv, rfl⟩
    obtain ⟨result, t₁, hfinish, hresult, hstate⟩ := Registry.run_create hr a version t
    obtain ⟨result', t₁', hfinish', hresult', hstate'⟩ := Registry.run_create hr a version t'
    obtain ⟨hstage, htwins, -⟩ :=
      Creating.twins_iterate version (Twins.start hsame) (.inl rfl) hlogin howner 4
    rw [Creating.finish] at hfinish hfinish'
    rw [hfinish, hfinish'] at hstage htwins
    obtain rfl := Creating.ended.inj hstage
    refine ⟨.created (some result'), t₁, t₁', ?_, ?_, htwins⟩
    · rw [run, hresult, hstate]
    · rw [run, hresult', hstate']
  | update a =>
    obtain ⟨hrevision, htwins⟩ := twins_update hsame
    obtain ⟨hresult, hstate⟩ := Registry.run_update hr a t
    obtain ⟨hresult', hstate'⟩ := Registry.run_update hr a t'
    rw [hrevision] at hresult'
    refine ⟨.done (some (t.revision a)), t.afterUpdate a, t'.afterUpdate a, ?_, ?_, htwins⟩
    · rw [run, hresult, hstate]
    · rw [run, hresult', hstate']
  | delete u version =>
    obtain ⟨hdeletion, htwins⟩ := twins_delete hsame howned
    obtain ⟨hresult, hstate⟩ := Registry.run_deletion hr u version t
    obtain ⟨hresult', hstate'⟩ := Registry.run_deletion hr u version t'
    rw [hdeletion] at hresult'
    refine ⟨.done (some (t.deletion u)), t.afterDelete u version, t'.afterDelete u version, ?_, ?_,
      htwins⟩
    · rw [run, hresult, hstate]
    · rw [run, hresult', hstate']
  | migrate a turns =>
    obtain ⟨hmigration, htwins⟩ := twins_migrate hsame
    obtain ⟨hresult, hstate⟩ := Registry.run_migrate hr a turns t
    obtain ⟨hresult', hstate'⟩ := Registry.run_migrate hr a turns t'
    rw [hmigration] at hresult'
    refine ⟨.migrated (some (.ok (t.precedes a && t.grants a.login a.uuid))),
      (t.migrateRow a).migrateLogin a, (t'.migrateRow a).migrateLogin a, ?_, ?_, htwins⟩
    · rw [run, hresult, hstate]
    · rw [run, hresult', hstate']

/-- Where accounts and logins agree, operations on different accounts with different logins
    have no place in common. -/
theorem not_place_of_place {w w' : Deed} (hagree : t.Agree) (huuid : w.uuid ≠ w'.uuid)
    (hlogins : ∀ l, w.Concerns t l → ¬ w'.Concerns t l) {i : TableId} {key : AttributeValue}
    (h : w.Place t i key) : ¬ w'.Place t i key := by
  intro h'
  cases i with
  | accounts =>
    rcases h with rfl | ⟨l, v, hl, hv, rfl⟩
    · rcases h' with heq | ⟨l', v', hl', hv', heq⟩
      · exact huuid (Row.uuidValue_inj.mp heq)
      · -- The account of the one owns the login that the other asks for.
        rw [← Row.uuidValue_inj.mp heq] at hv'
        exact hlogins l' (.inr ((hagree l' _).mp hv')) (.inl hl')
    · rcases h' with heq | ⟨l', v', hl', hv', heq⟩
      · rw [Row.uuidValue_inj.mp heq] at hv
        exact hlogins l (.inl hl) (.inr ((hagree l _).mp hv))
      · -- A third account owns both logins, but its row has one of them.
        rw [← Row.uuidValue_inj.mp heq] at hv'
        obtain ⟨row, hrow, hlogin⟩ := (hagree l v).mp hv
        obtain ⟨row', hrow', hlogin'⟩ := (hagree l' v).mp hv'
        obtain rfl := Option.some.inj (hrow.symm.trans hrow')
        obtain rfl := Option.some.inj (hlogin.symm.trans hlogin')
        exact hlogins l (.inl hl) (.inl hl')
  | logins =>
    obtain ⟨l, hl, rfl⟩ := h
    obtain ⟨l', hl', heq⟩ := h'
    obtain rfl := AttributeValue.string.inj heq
    exact hlogins l hl hl'
  | misc => exact h
  | tombstones => exact huuid (Row.uuidValue_inj.mp (h.symm.trans h'))
  | retries => exact huuid (Row.uuidValue_inj.mp (h.symm.trans h'))

section agree

variable (hr : Function.Injective r.config.tables.name) (hagree : t.Agree)

include hr hagree

/-- An operation beside itself. -/
theorem exists_twins_self (w : Deed) :
    ∃ outcome t₁, w.run r (r.config.tables.database t) = (outcome, r.config.tables.database t₁) ∧
      Twins (w.Place t) w.uuid t t t₁ t₁ := by
  have howned : ∀ l, t.owner? l = some w.uuid ∨ t.owner? l = some w.uuid → w.Concerns t l :=
    fun l hl => .inr ((hagree l w.uuid).mp (or_self_iff.mp hl))
  obtain ⟨outcome, t₁, t₁', hrun, hrun', htwins⟩ := exists_twins hr w (fun _ _ _ => rfl) howned
  obtain rfl : t₁ = t₁' :=
    TableNames.database_injective hr (congrArg Prod.snd (hrun.symm.trans hrun'))
  exact ⟨outcome, t₁, hrun, htwins⟩

/-- After an operation on another account with other logins, an operation does what it does
    without it. -/
theorem exists_twins_after {w w' : Deed} (huuid : w.uuid ≠ w'.uuid)
    (hlogins : ∀ l, w.Concerns t l → ¬ w'.Concerns t l) {t₁ t₂ : Tables} {outcome : Outcome}
    (h : Twins (w.Place t) w.uuid t t t₁ t₁)
    (hrun : w'.run r (r.config.tables.database t) = (outcome, r.config.tables.database t₂)) :
    ∃ t₃, w'.run r (r.config.tables.database t₁) = (outcome, r.config.tables.database t₃) ∧
      Twins (w'.Place t) w'.uuid t t₁ t₂ t₃ := by
  have hsame : ∀ i key, w'.Place t i key → (t₁ i).get? key = (t i).get? key := by
    intro i key hkey
    have hmisc : i ≠ .misc := by
      rintro rfl
      exact hkey
    exact h.left i key (fun hplace => not_place_of_place hagree huuid hlogins hplace hkey) hmisc
  have howned : ∀ l, t.owner? l = some w'.uuid ∨ t₁.owner? l = some w'.uuid →
      w'.Concerns t l := by
    rintro l (hl | hl)
    · exact .inr ((hagree l _).mp hl)
    · -- The other operation has not bound the login to this account.
      exact .inr ((hagree l _).mp ((h.bound l _ hl).resolve_left huuid.symm))
  obtain ⟨outcome', t₂', t₃, hrun', hafter, htwins⟩ := exists_twins hr w' hsame howned
  obtain ⟨rfl, hstate⟩ := Prod.mk.inj (hrun.symm.trans hrun')
  obtain rfl := TableNames.database_injective hr hstate
  exact ⟨t₃, hafter, htwins⟩

end agree

end Deed

namespace Registry

/-- Operations on unrelated accounts commute.  In any tables in which accounts and logins
    agree, take two operations, each of them a create, an update, a delete or a migration, on
    different accounts, and let no login be one that the first asks for or finds in the row
    of its account and also one that the second does.  Then it does not matter which comes
    first: each of them returns the same, and the tables are the same in the end, apart from
    the directory version. -/
theorem unrelated_deeds_commute {config : Config} {r : Registry} (h : ofConfig config = .ok r)
    {t : Tables} (hagree : t.Agree) {w w' : Deed} (huuid : w.uuid ≠ w'.uuid)
    (hlogins : ∀ l, w.Concerns t l → ¬ w'.Concerns t l) :
    let start := config.tables.database t
    let first := w.run r start
    let second := w'.run r first.2
    let first' := w'.run r start
    let second' := w.run r first'.2
    second'.1 = first.1 ∧ second.1 = first'.1 ∧
      ∃ t₁ t₂, second.2 = config.tables.database t₁ ∧ second'.2 = config.tables.database t₂ ∧
        ∀ i, i ≠ .misc → t₁ i = t₂ i := by
  obtain ⟨rfl, hr⟩ := name_injective_of_ofConfig h
  have hlogins' : ∀ l, w'.Concerns t l → ¬ w.Concerns t l := fun l hl' hl => hlogins l hl hl'
  intro start first second first' second'
  obtain ⟨outcome, a, ha, halone⟩ := Deed.exists_twins_self hr hagree w
  obtain ⟨outcome', b, hb, hbalone⟩ := Deed.exists_twins_self hr hagree w'
  obtain ⟨c, hc, hsecond⟩ := Deed.exists_twins_after hr hagree huuid hlogins halone hb
  obtain ⟨d, hd, hsecond'⟩ := Deed.exists_twins_after hr hagree huuid.symm hlogins' hbalone ha
  have hfirst : first = (outcome, r.config.tables.database a) := ha
  have hfirst' : first' = (outcome', r.config.tables.database b) := hb
  have hthen : second = (outcome', r.config.tables.database c) := by
    show w'.run r first.2 = _
    rw [hfirst]
    exact hc
  have hthen' : second' = (outcome, r.config.tables.database d) := by
    show w.run r first'.2 = _
    rw [hfirst']
    exact hd
  refine ⟨by rw [hthen', hfirst], by rw [hthen, hfirst'], c, d, congrArg Prod.snd hthen,
    congrArg Prod.snd hthen', fun i hi => SortedMap.ext_get? fun key => ?_⟩
  by_cases hplace : w.Place t i key
  · have hplace' := Deed.not_place_of_place hagree huuid hlogins hplace
    rw [hsecond.left' i key hplace' hi, hsecond'.same i key hplace]
  by_cases hplace' : w'.Place t i key
  · rw [hsecond.same i key hplace', hsecond'.left' i key hplace hi]
  · rw [hsecond.left' i key hplace' hi, halone.left i key hplace hi,
      hsecond'.left' i key hplace hi, hbalone.left i key hplace' hi]

/-- A create that loses its login to another account, and a delete of a third one. -/
theorem unrelated_deeds_commute_default :
    let a : Account := ⟨⟨.replicate 16 1, rfl⟩, "+1", 0, {}⟩
    let b : Account := ⟨⟨.replicate 16 2, rfl⟩, "+1", 0, {}⟩
    let c : Account := ⟨⟨.replicate 16 3, rfl⟩, "+3", 0, {}⟩
    let t := (Tables.empty.register a).register c
    let w : Deed := .create b 7
    let w' : Deed := .delete c.uuid 8
    ofConfig {} = .ok ⟨{}⟩ ∧ t.Agree ∧ w.uuid ≠ w'.uuid ∧
      (∀ l, w.Concerns t l → ¬ w'.Concerns t l) ∧
      let r : Registry := ⟨{}⟩
      let start := ({} : Config).tables.database t
      let first := w.run r start
      let second := w'.run r first.2
      let first' := w'.run r start
      let second' := w.run r first'.2
      second'.1 = first.1 ∧ second.1 = first'.1 ∧
        ∃ t₁ t₂, second.2 = ({} : Config).tables.database t₁ ∧
          second'.2 = ({} : Config).tables.database t₂ ∧ ∀ i, i ≠ .misc → t₁ i = t₂ i := by
  intro a b c t w w'
  have hconfig : ofConfig {} = .ok ⟨{}⟩ := rfl
  have hfree : (Tables.empty.register a).owner? c.login = none := by
    rw [Tables.owner?_register, if_neg (by decide)]
    rfl
  have hagree : t.Agree := (Tables.agree_empty.register rfl rfl).register rfl hfree
  have huuid : w.uuid ≠ w'.uuid := by decide
  have hlogins : ∀ l, w.Concerns t l → ¬ w'.Concerns t l := by
    rintro l (hl | ⟨row, hrow, -⟩) (hl' | ⟨row', hrow', hread⟩)
    · cases hl'
    · obtain rfl := Option.some.inj hl
      obtain rfl : Row.ofAccount c = row' := Option.some.inj hrow'
      rw [Row.login?_of_account (Row.account_ofAccount c)] at hread
      revert hread
      decide
    · cases hl'
    · cases hrow
  exact ⟨hconfig, hagree, huuid, hlogins,
    unrelated_deeds_commute hconfig hagree huuid hlogins⟩

end Registry

end LoginRegistry
