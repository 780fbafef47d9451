import LoginRegistry.Proofs.Migration.Finishing
import LoginRegistry.Proofs.Script.Racing

/-! # Conditional writes on any tables

    Creates, updates and migrations write under a condition, and a refusal is no failure
    but tells the operation how to go on.  For each of these writes there is the test that
    its condition makes of the tables, what it leaves of them if it is applied, and the
    rule of its one request.

    Refusals have to be those of the database here, so what befalls requests is genuine.
-/

namespace LoginRegistry

open Store (AttributeValue Condition Item)

/-! ### Tests and updates -/

namespace Tables

/-- The row of an account, where it is changed by a write under its id. -/
def setAccount (t : Tables) (u : Uuid) (row : Item) : Tables :=
  t.set .accounts ((t .accounts).insert (Row.uuidValue u) row)

/-- Stores the row of an account. -/
def putAccount (t : Tables) (a : Account) : Tables := t.setAccount a.uuid (Row.ofAccount a)

/-- A create may write its row: the id is new or has the login. -/
def admits (t : Tables) (a : Account) : Bool :=
  Condition.permits (some (.or (.absent Row.uuidName) (.equals Row.loginName (.string a.login))))
    (t.accountRow? a.uuid)

/-- A migration may write its row: the id is new or of a lower version. -/
def precedes (t : Tables) (a : Account) : Bool :=
  Condition.permits (some (.or (.absent Row.uuidName)
    (.lessThan Row.versionName (.number a.migrationVersion.toInt64)))) (t.accountRow? a.uuid)

/-- The row of the account has a login. -/
def hasLogin (t : Tables) (u : Uuid) : Bool :=
  Condition.permits (some (.present Row.loginName)) (t.accountRow? u)

/-- The row of the account has this login. -/
def hasThisLogin (t : Tables) (u : Uuid) (login : String) : Bool :=
  Condition.permits (some (.equals Row.loginName (.string login))) (t.accountRow? u)

/-- The login may be bound to the account: it is free or the account's. -/
def grants (t : Tables) (login : String) (u : Uuid) : Bool :=
  Condition.permits (some (.or (.absent Row.loginName) (.equals Row.uuidName (Row.uuidValue u))))
    (t.loginRow? login)

/-- Replaces payload and version of the row of an account. -/
def reviseAccount (t : Tables) (u : Uuid) (a : Account) : Tables :=
  t.setAccount u (((t.accountRow? u).getD (Row.uuidKey u)).union (Row.changes a))

/-- Removes the row of an account while it has this login. -/
def withdraw (t : Tables) (u : Uuid) (login : String) : Tables :=
  if t.hasThisLogin u login then t.eraseAccount u else t

variable {t : Tables} {login : String} {u v : Uuid}

theorem accountRow?_setAccount {row : Item} :
    (t.setAccount u row).accountRow? v = if v = u then some row else t.accountRow? v := by
  rw [accountRow?, setAccount, set_self, SortedMap.get?_insert_eq]
  simp only [Row.uuidValue_inj]
  rfl

theorem accountRow?_putAccount {a : Account} :
    (t.putAccount a).accountRow? v
      = if v = a.uuid then some (Row.ofAccount a) else t.accountRow? v :=
  accountRow?_setAccount

/-- A row that is there already may be stored again. -/
theorem setAccount_of_accountRow? {row : Item} (h : t.accountRow? u = some row) :
    t.setAccount u row = t := by
  funext i
  by_cases hi : i = .accounts
  · rw [hi, setAccount, set_self]
    exact SortedMap.insert_of_get? _ h
  · exact set_ne t hi _

/-- A login that is bound already may be bound again. -/
theorem bindLogin_of_loginRow? (h : t.loginRow? login = some (Row.ofLogin login u)) :
    t.bindLogin login u = t := by
  funext i
  by_cases hi : i = .logins
  · rw [hi, bindLogin, set_self]
    exact SortedMap.insert_of_get? _ h
  · exact set_ne t hi _

/-- Erasing a row that was not there undoes storing it. -/
theorem eraseAccount_setAccount {row : Item} (h : t.accountRow? u = none) :
    (t.setAccount u row).eraseAccount u = t := by
  funext i
  by_cases hi : i = .accounts
  · rw [hi, eraseAccount, setAccount, set_self, set_self]
    refine SortedMap.ext_get? fun key => ?_
    rw [SortedMap.get?_erase_eq, SortedMap.get?_insert_eq]
    split
    · next hkey => rw [hkey]; exact h.symm
    · rfl
  · rw [eraseAccount, set_ne _ hi, setAccount, set_ne _ hi]

theorem admits_of_accountRow?_eq_none {a : Account} (h : t.accountRow? a.uuid = none) :
    t.admits a = true := by
  rw [admits, h]
  rfl

theorem precedes_of_accountRow?_eq_none {a : Account} (h : t.accountRow? a.uuid = none) :
    t.precedes a = true := by
  rw [precedes, h]
  rfl

/-- Refused is only a row where there is one. -/
theorem accountRow?_ne_none_of_precedes {a : Account} (h : t.precedes a = false) :
    t.accountRow? a.uuid ≠ none := by
  intro hrow
  rw [precedes_of_accountRow?_eq_none hrow] at h
  cases h

/-- A row with the login of the account is admitted. -/
theorem admits_of_login {a : Account} {row : Item} (h : t.accountRow? a.uuid = some row)
    (hlogin : row.get? Row.loginName = some (.string a.login)) : t.admits a = true := by
  simp only [admits, h, Condition.permits, Option.all_some, Condition.holds, Store.attribute?,
    Option.bind_some, hlogin, BEq.rfl, Bool.or_true]

theorem grants_of_loginRow?_eq_none (h : t.loginRow? login = none) : t.grants login u = true := by
  rw [grants, h]
  rfl

/-- A login of the account is granted. -/
theorem grants_of_owner? (h : t.owner? login = some u) : t.grants login u = true := by
  obtain ⟨row, hrow, huuid⟩ := owner?_eq_some_iff.mp h
  simp only [grants, hrow, Condition.permits, Option.all_some, Condition.holds, Store.attribute?,
    Option.bind_some, huuid, BEq.rfl, Bool.or_true]

theorem hasThisLogin_of_login {row : Item} (h : t.accountRow? u = some row)
    (hlogin : row.get? Row.loginName = some (.string login)) : t.hasThisLogin u login = true := by
  simp only [hasThisLogin, h, Condition.permits, Option.all_some, Condition.holds,
    Store.attribute?, Option.bind_some, hlogin, BEq.rfl]

theorem hasLogin_of_login {row : Item} {value : AttributeValue} (h : t.accountRow? u = some row)
    (hlogin : row.get? Row.loginName = some value) : t.hasLogin u = true := by
  simp only [hasLogin, h, Condition.permits, Option.all_some, Condition.holds, Store.attribute?,
    Option.bind_some, hlogin, Option.isSome_some]

theorem withdraw_of_hasThisLogin (h : t.hasThisLogin u login = true) :
    t.withdraw u login = t.eraseAccount u := if_pos h

theorem withdraw_of_not_hasThisLogin (h : t.hasThisLogin u login = false) :
    t.withdraw u login = t := if_neg (Bool.eq_false_iff.mp h)

/-! ### Adding an account -/

/-- The tables with one more account and its login. -/
def register (t : Tables) (a : Account) : Tables :=
  (t.putAccount a).bindLogin a.login a.uuid

theorem accountRow?_register {a : Account} :
    (t.register a).accountRow? v
      = if v = a.uuid then some (Row.ofAccount a) else t.accountRow? v :=
  accountRow?_putAccount

theorem owner?_register {a : Account} {l : String} :
    (t.register a).owner? l = if l = a.login then some a.uuid else t.owner? l :=
  owner?_bindLogin

/-- A new account with a new login keeps accounts and logins in agreement. -/
theorem Agree.register (h : t.Agree) {a : Account} (hrow : t.accountRow? a.uuid = none)
    (hlogin : t.owner? a.login = none) : (t.register a).Agree := by
  intro l u
  have hread : Row.login? (Row.ofAccount a) = some a.login :=
    Row.login?_of_account (Row.account_ofAccount a)
  rw [owner?_register, accountRow?_register]
  by_cases hl : l = a.login
  · subst hl
    rw [if_pos rfl]
    constructor
    · intro hu
      rw [if_pos (Option.some.inj hu).symm]
      exact ⟨_, rfl, hread⟩
    · rintro ⟨row, hrow', hl'⟩
      split at hrow'
      · next hu => rw [hu]
      · exact absurd ((h a.login u).mpr ⟨row, hrow', hl'⟩) (by rw [hlogin]; exact nofun)
  · rw [if_neg hl, h l u]
    split
    · next hu =>
      subst hu
      constructor
      · rintro ⟨row, hrow', -⟩
        rw [hrow] at hrow'
        cases hrow'
      · rintro ⟨row, hrow', hl'⟩
        obtain rfl := Option.some.inj hrow'
        exact absurd (Option.some.inj (hread.symm.trans hl')).symm hl
    · exact Iff.rfl

theorem Restorable.putAccount (h : t.Restorable) (a : Account) : (t.putAccount a).Restorable := by
  intro v row hrow
  rw [accountRow?_putAccount] at hrow
  split at hrow
  · obtain rfl := Option.some.inj hrow
    exact ⟨a, Row.account_ofAccount a⟩
  · exact h v row hrow

theorem Restorable.register (h : t.Restorable) (a : Account) : (t.register a).Restorable :=
  h.putAccount a

theorem agree_empty : Tables.empty.Agree :=
  fun _ _ => ⟨nofun, fun ⟨_, hrow, _⟩ => nomatch hrow⟩

theorem restorable_empty : Tables.empty.Restorable := fun _ _ => nofun

end Tables

/-! ### Logins of rows -/

theorem Store.AttributeValue.string?_eq_some_iff {value : AttributeValue} {s : String} :
    value.string? = some s ↔ value = .string s := by
  cases value with
  | string s' => exact ⟨fun h => congrArg _ (Option.some.inj h), fun h => by cases h; rfl⟩
  | number | bytes => exact ⟨nofun, nofun⟩

theorem Row.login?_eq_some_iff {row : Item} {login : String} :
    login? row = some login ↔ row.get? loginName = some (.string login) := by
  rw [login?, Option.bind_eq_some_iff]
  simp only [AttributeValue.string?_eq_some_iff, exists_eq_right]

/-- Changing payload and version of a row leaves its other attributes. -/
theorem Row.get?_union_changes {row : Item} {a : Account} {name : String}
    (hdata : name ≠ dataName) (hversion : name ≠ versionName) :
    (row.union (changes a)).get? name = row.get? name := by
  rw [SortedMap.union, toList_changes]
  simp only [List.foldl_cons, List.foldl_nil, SortedMap.get?_insert_eq, if_neg hdata,
    if_neg hversion]

namespace Tables

/-- The login attribute of the row of an account, if it has a row. -/
def loginOf? (t : Tables) (u : Uuid) : Option (Option AttributeValue) :=
  (t.accountRow? u).map (·.get? Row.loginName)

/-- Each row of a login tells its owner. -/
def Named (t : Tables) : Prop := ∀ l, t.loginRow? l ≠ none → t.owner? l ≠ none

variable {t t' : Tables} {login : String} {u v : Uuid}

theorem loginOf?_congr (h : t' .accounts = t .accounts) (u : Uuid) :
    t'.loginOf? u = t.loginOf? u := by
  rw [loginOf?, accountRow?_congr h]
  rfl

theorem loginOf?_eq_some_iff :
    t.loginOf? u = some (some (.string login))
      ↔ ∃ row, t.accountRow? u = some row ∧ Row.login? row = some login := by
  rw [loginOf?, Option.map_eq_some_iff]
  simp only [Row.login?_eq_some_iff]

theorem loginOf?_putAccount {a : Account} :
    (t.putAccount a).loginOf? v
      = if v = a.uuid then some (some (.string a.login)) else t.loginOf? v := by
  rw [loginOf?, accountRow?_putAccount]
  split
  · rw [Option.map_some, Row.login_ofAccount]
  · rfl

theorem loginOf?_eraseAccount :
    (t.eraseAccount u).loginOf? v = if v = u then none else t.loginOf? v := by
  rw [loginOf?, accountRow?_eraseAccount]
  split <;> rfl

/-- A row that is revised keeps its login. -/
theorem loginOf?_reviseAccount {a : Account} (h : t.accountRow? u ≠ none) :
    (t.reviseAccount u a).loginOf? v = t.loginOf? v := by
  obtain ⟨row, hrow⟩ := Option.ne_none_iff_exists'.mp h
  rw [loginOf?, reviseAccount, accountRow?_setAccount]
  split
  · next hv =>
    rw [hv, loginOf?, hrow, Option.getD_some, Option.map_some, Option.map_some,
      Row.get?_union_changes (by decide) (by decide)]
  · rfl

/-- Among rows that hold their keys an account is admitted if its id is new or has its
    login. -/
theorem admits_iff (h : t.KeyedAt .accounts) {a : Account} :
    t.admits a = true ↔
      t.loginOf? a.uuid = none ∨ t.loginOf? a.uuid = some (some (.string a.login)) := by
  rw [loginOf?]
  cases hrow : t.accountRow? a.uuid with
  | none => exact ⟨fun _ => .inl rfl, fun _ => admits_of_accountRow?_eq_none hrow⟩
  | some row =>
    have hkey : row.get? Row.uuidName = some (Row.uuidValue a.uuid) := h _ row hrow
    simp only [admits, hrow, Condition.permits, Option.all_some, Condition.holds,
      Store.attribute?, Option.bind_some, hkey, Option.isNone_some, Bool.false_or, beq_iff_eq,
      Option.map_some, reduceCtorEq, false_or, Option.some.injEq]

theorem KeyedAt.setAccount (h : t.KeyedAt .accounts) {row : Item}
    (hrow : row.get? Row.uuidName = some (Row.uuidValue u)) :
    (t.setAccount u row).KeyedAt .accounts := by
  intro key row' hget
  rw [Tables.setAccount, set_self, SortedMap.get?_insert_eq] at hget
  split at hget
  · next hkey =>
    obtain rfl := Option.some.inj hget
    rw [hkey]
    exact hrow
  · exact h key row' hget

theorem KeyedAt.eraseAccount (h : t.KeyedAt .accounts) : (t.eraseAccount u).KeyedAt .accounts := by
  intro key row hget
  rw [Tables.eraseAccount, set_self, SortedMap.get?_erase_eq] at hget
  split at hget
  · cases hget
  · exact h key row hget

theorem KeyedAt.reviseAccount (h : t.KeyedAt .accounts) (a : Account) :
    (t.reviseAccount u a).KeyedAt .accounts := by
  refine h.setAccount ?_
  rw [Row.get?_union_changes (by decide) (by decide)]
  cases hrow : t.accountRow? u with
  | none => exact Row.uuid_uuidKey u
  | some row => exact h _ row hrow

theorem Named.congr (h : t.Named) (hlogins : t' .logins = t .logins) : t'.Named := by
  intro l
  rw [loginRow?_congr hlogins, owner?_congr hlogins]
  exact h l

theorem Named.bindLogin (h : t.Named) : (t.bindLogin login u).Named := by
  intro l
  rw [loginRow?_bindLogin, owner?_bindLogin]
  split
  · exact fun _ => nofun
  · exact h l

theorem Named.register (h : t.Named) (a : Account) : (t.register a).Named := Named.bindLogin h

theorem named_empty : Tables.empty.Named := fun _ h => absurd rfl h

theorem Keyed.register (h : t.Keyed) (a : Account) : (t.register a).Keyed := by
  intro i
  cases i with
  | accounts => exact (h .accounts).setAccount (Row.uuid_ofAccount a)
  | logins => exact (h .logins).bindLogin
  | misc => exact h .misc
  | tombstones => exact h .tombstones
  | retries => exact h .retries

theorem keyed_empty : Tables.empty.Keyed := fun _ _ _ => nofun

/-- A login is granted if it is free or the account's. -/
theorem owner?_of_grants (hkeyed : t.KeyedAt .logins) (h : t.grants login u = true)
    (howner : t.owner? login = some v) : v = u := by
  rw [grants, permits_claim hkeyed, decide_eq_true_iff] at h
  rcases h with hnone | hu
  · rw [owner?_of_loginRow?_eq_none hnone] at howner
    cases howner
  · exact Option.some.inj (howner.symm.trans hu)

end Tables

/-! ### Writes -/

namespace TableNames

/-- What can come of a write on the tables `t` that leaves `t'` if it is permitted and
    reports `old` if it is not. -/
inductive Tried (x : Exposure) (t t' : Tables) (permitted : Bool) (old : Option Item) :
    Option (Except Store.Error Unit) → Tables → Prop where
  /-- It is applied. -/
  | applied : permitted = true → Tried x t t' permitted old (some (.ok ())) t'
  /-- It is refused. -/
  | refused (table : String) : permitted = false →
    Tried x t t' permitted old (some (.error (.conditionFailed table old))) t
  /-- It fails. -/
  | failed {request : Store.Request} {e : Store.Error} : x request (.failure e) = true →
    Tried x t t' permitted old (some (.error e)) t
  /-- It panics. -/
  | panicked {request : Store.Request} : x request .panic = true →
    Tried x t t' permitted old none t

variable {n : TableNames} {x : Exposure} {t t' : Tables} {permitted : Bool} {old : Option Item}

section valid

variable (hn : Function.Injective n.name)

include hn

/-- The database applies or refuses a write. -/
theorem tried_of_written (table : String) {answer : Answer Unit} {t'' : Tables}
    (h : (n.database t).written (if permitted = true then .ok (n.database t')
      else .error (.conditionFailed table old)) = (answer, n.database t'')) :
    Tried x t t' permitted old answer.result t'' := by
  cases permitted with
  | true =>
    obtain ⟨rfl, hd⟩ := Prod.mk.inj h
    rw [← database_injective hn hd]
    exact .applied rfl
  | false =>
    obtain ⟨rfl, hd⟩ := Prod.mk.inj h
    rw [← database_injective hn hd]
    exact .refused table rfl

omit hn in
/-- A write that is befallen leaves the tables. -/
theorem tried_of_spoiled {request : Store.Request} {answer : Answer Unit} {t'' : Tables}
    (h : t'' = t ∧ ((∃ e, x request (.failure e) = true ∧ answer = .failed e) ∨
      x request .panic = true ∧ answer = .panicked)) :
    Tried x t t' permitted old answer.result t'' := by
  obtain ⟨rfl, ⟨e, hx, rfl⟩ | ⟨hx, rfl⟩⟩ := h
  · exact .failed hx
  · exact .panicked hx

variable {i : TableId} {key : AttributeValue}

theorem once_put {q : Store.Put} (hq : q.table = n.name i)
    (hkey : q.item.get? i.partition = some key) :
    (Script.put q).Once (n.behaviour x) (Tried x t (t.set i ((t i).insert key q.item))
      (Condition.permits q.condition ((t i).get? key))
      (if q.returnOld then (t i).get? key else none)) t := by
  refine Script.once_send fun answer t'' h => ?_
  rcases respond_or_eq_of_behaviour hn h nofun with h | h
  · refine tried_of_written hn q.table ?_
    rw [← put_database hn t i hq hkey]
    exact h
  · exact tried_of_spoiled h

theorem once_update {q : Store.Update} (hq : q.table = n.name i)
    (hkey : q.key.get? i.partition = some key) :
    (Script.update q).Once (n.behaviour x)
      (Tried x t (t.set i ((t i).insert key ((((t i).get? key).getD q.key).union q.set)))
        (Condition.permits q.condition ((t i).get? key)) none) t := by
  refine Script.once_send fun answer t'' h => ?_
  rcases respond_or_eq_of_behaviour hn h nofun with h | h
  · refine tried_of_written hn q.table ?_
    rw [← update_database hn t i hq hkey]
    exact h
  · exact tried_of_spoiled h

theorem once_delete {q : Store.Delete} (hq : q.table = n.name i)
    (hkey : q.key.get? i.partition = some key) :
    (Script.delete q).Once (n.behaviour x) (Tried x t (t.set i ((t i).erase key))
      (Condition.permits q.condition ((t i).get? key)) none) t := by
  refine Script.once_send fun answer t'' h => ?_
  rcases respond_or_eq_of_behaviour hn h nofun with h | h
  · refine tried_of_written hn q.table ?_
    rw [← delete_database hn t i hq hkey]
    exact h
  · exact tried_of_spoiled h

end valid

variable {bad : Option RegistryError → Tables → Prop}

/-- A conditional write is applied or refused, or it is spoiled. -/
theorem once_unlessRefused (hx : x.IsGenuine) {b : Behaviour Tables}
    {s : Script (Except Store.Error Unit)} {ok : Bool → Tables → Prop}
    (hs : s.Once b (Tried x t t' permitted old) t)
    (happlied : permitted = true → ok true t') (hrefused : permitted = false → ok false t)
    (hspoiled : ∀ request m o, x request m = true → m.Brings o → bad o t) :
    Action.Once b (Action.unlessRefused s) t ok bad := by
  refine Action.once_bind (Action.once_lift (Script.Once.mono hs fun o t'' htried => ?_))
  cases htried with
  | applied h => exact .inl ⟨true, rfl, happlied h⟩
  | refused table h => exact .inl ⟨false, rfl, hrefused h⟩
  | panicked hm => exact hspoiled _ _ _ hm .panic
  | @failed request e hm =>
    have hbad := hspoiled _ _ _ hm (.failure e)
    have hgenuine := hx _ _ hm
    cases e with
    | conditionFailed => cases hgenuine
    | tableNotFound | invalid | throttled | unavailable => exact .inr ⟨_, rfl, hbad⟩

end TableNames

namespace Registry

variable {r : Registry} {x : Exposure} {t : Tables} {bad : Option RegistryError → Tables → Prop}

section valid

variable (hr : Function.Injective r.config.tables.name) (hx : x.IsGenuine)

include hr hx

/-! ### The account table -/

theorem once_accounts_create {a : Account} {ok : Unit → Tables → Prop}
    (happlied : t.admits a = true → ok () (t.putAccount a))
    (hrefused : t.admits a = false → bad (some (.identifierCollision a.uuid)) t)
    (hspoiled : ∀ request m o, x request m = true → m.Brings o → bad o t) :
    Action.Once (r.config.tables.behaviour x) (r.accounts.create a) t ok bad := by
  refine Action.once_bind (TableNames.once_unlessRefused hx
    (TableNames.once_put hr (i := .accounts) rfl (Row.uuid_ofAccount a)) ?_ ?_ hspoiled)
  · exact fun hadmits => .inl ⟨(), rfl, happlied hadmits⟩
  · exact fun hadmits => .inr ⟨_, rfl, hrefused hadmits⟩

theorem once_accounts_update {a : Account} {ok : Unit → Tables → Prop}
    (happlied : t.hasLogin a.uuid = true → ok () (t.reviseAccount a.uuid a))
    (hrefused : t.hasLogin a.uuid = false → bad (some (.accountNotFound a.uuid)) t)
    (hspoiled : ∀ request m o, x request m = true → m.Brings o → bad o t) :
    Action.Once (r.config.tables.behaviour x) (r.accounts.update a) t ok bad := by
  refine Action.once_bind (TableNames.once_unlessRefused hx
    (TableNames.once_update hr (i := .accounts) rfl (Row.uuid_uuidKey a.uuid)) ?_ ?_ hspoiled)
  · exact fun hlogin => .inl ⟨(), rfl, happlied hlogin⟩
  · exact fun hlogin => .inr ⟨_, rfl, hrefused hlogin⟩

/-- The owner of a login is updated with the body of an account, if it has a row. -/
theorem once_updateOwner {a : Account} {owner : Uuid} {ok : Unit → Tables → Prop}
    (happlied : t.hasLogin owner = true → ok () (t.reviseAccount owner a))
    (hrefused : t.hasLogin owner = false → bad (some (.loginOwnerMissing a.login)) t)
    (hspoiled : ∀ request m o, x request m = true → m.Brings o → bad o t) :
    Action.Once (r.config.tables.behaviour x) (r.updateOwner a owner) t ok bad := by
  refine Action.once_tryCatch (once_accounts_update hr hx happlied ?_ ?_)
  · exact fun hlogin => .inr ⟨_, rfl, hrefused hlogin⟩
  · intro request m o hm ho
    have hbad := hspoiled request m o hm ho
    cases ho with
    | failure e => exact .inr ⟨_, rfl, hbad⟩
    | panic => exact hbad

theorem once_accounts_deleteIfLogin {u : Uuid} {login : String} {ok : Bool → Tables → Prop}
    (hok : ∀ removed, ok removed (t.withdraw u login))
    (hspoiled : ∀ request m o, x request m = true → m.Brings o → bad o t) :
    Action.Once (r.config.tables.behaviour x) (r.accounts.deleteIfLogin u login) t ok bad := by
  refine TableNames.once_unlessRefused hx
    (TableNames.once_delete hr (i := .accounts) rfl (Row.uuid_uuidKey u)) ?_ ?_ hspoiled
  · intro hlogin
    have hok := hok true
    rwa [Tables.withdraw_of_hasThisLogin hlogin] at hok
  · intro hlogin
    have hok := hok false
    rwa [Tables.withdraw_of_not_hasThisLogin hlogin] at hok

theorem once_accounts_migrate {a : Account} {ok : Bool → Tables → Prop}
    (happlied : t.precedes a = true → ok true (t.putAccount a))
    (hrefused : t.precedes a = false → ok false t)
    (hspoiled : ∀ request m o, x request m = true → m.Brings o → bad o t) :
    Action.Once (r.config.tables.behaviour x) (r.accounts.migrate a) t ok bad :=
  TableNames.once_unlessRefused hx
    (TableNames.once_put hr (i := .accounts) rfl (Row.uuid_ofAccount a)) happlied hrefused hspoiled

/-! ### The login index -/

theorem once_logins_migrate {login : String} {u : Uuid} {ok : Bool → Tables → Prop}
    (happlied : t.grants login u = true → ok true (t.bindLogin login u))
    (hrefused : t.grants login u = false → ok false t)
    (hspoiled : ∀ request m o, x request m = true → m.Brings o → bad o t) :
    Action.Once (r.config.tables.behaviour x) (r.logins.migrate login u) t ok bad :=
  TableNames.once_unlessRefused hx
    (TableNames.once_put hr (q := r.logins.bindRequest login u) (i := .logins) rfl
      (Row.login_ofLogin login u)) happlied hrefused hspoiled

/-- A claim that is refused names the owner in the row that is reported. -/
theorem once_logins_claim {login : String} {u : Uuid} {ok : Claim → Tables → Prop}
    (hclaimed : t.grants login u = true → ok .claimed (t.bindLogin login u))
    (howned : t.grants login u = false → ∀ row v, t.loginRow? login = some row →
      Row.uuid row = .ok v → ok (.owned v) t)
    (hcorrupt : t.grants login u = false → ∀ row e, t.loginRow? login = some row →
      Row.uuid row = .error e → bad (some e) t)
    (hspoiled : ∀ request m o, x request m = true → m.Brings o → bad o t) :
    Action.Once (r.config.tables.behaviour x) (r.logins.claim login u) t ok bad := by
  have hput := TableNames.once_put hr (x := x) (t := t) (q := r.logins.bindRequest login u)
    (i := .logins) rfl (Row.login_ofLogin login u)
  refine Action.once_bind (Action.once_lift (Script.Once.mono hput fun o t'' htried => ?_))
  cases htried with
  | applied h => exact .inl ⟨_, rfl, hclaimed h⟩
  | panicked hm => exact hspoiled _ _ _ hm .panic
  | refused table h =>
    -- A login without a row is free, so there is a row to report.
    cases hrow : t.loginRow? login with
    | none => exact absurd (Tables.grants_of_loginRow?_eq_none hrow) (Bool.eq_false_iff.mp h)
    | some row =>
      have hold : (t .logins).get? (.string login) = some row := hrow
      simp only [LoginIndex.bindRequest, if_true, hold]
      cases hv : Row.uuid row with
      | ok v => exact .inl ⟨.owned v, rfl, howned h row v hrow hv⟩
      | error e => exact .inr ⟨e, rfl, hcorrupt h row e hrow hv⟩
  | @failed request e hm =>
    have hbad := hspoiled _ _ _ hm (.failure e)
    have hgenuine := hx _ _ hm
    cases e with
    | conditionFailed => cases hgenuine
    | tableNotFound | invalid | throttled | unavailable => exact .inr ⟨_, rfl, hbad⟩

end valid

end Registry

end LoginRegistry
