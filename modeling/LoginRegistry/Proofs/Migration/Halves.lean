import LoginRegistry.Migration.Account
import LoginRegistry.Proofs.Registry.Writing

/-! # The writes of a migration

    An account is migrated by two conditional writes, its halves.  A row gives way to
    higher versions only, and a login that is bound stays so.  So what a half has achieved
    is not undone by other halves (`Half.precedes_apply`, `Half.loginRow?_apply`).
-/

namespace LoginRegistry

open Store (AttributeValue Condition Database)

namespace Tables

/-- A migration writes its row if there is none of its version yet. -/
def migrateRow (t : Tables) (a : Account) : Tables := if t.precedes a then t.putAccount a else t

/-- A migration binds its login if that is free or the account's. -/
def migrateLogin (t : Tables) (a : Account) : Tables :=
  if t.grants a.login a.uuid then t.bindLogin a.login a.uuid else t

variable {t : Tables} {a : Account}

/-- Refused is only a row where there is one. -/
theorem accountRow?_migrateRow_ne_none : (t.migrateRow a).accountRow? a.uuid ≠ none := by
  rw [migrateRow]
  split
  · rw [accountRow?_putAccount, if_pos rfl]
    exact nofun
  · next hrefused => exact accountRow?_ne_none_of_precedes (Bool.eq_false_iff.mpr hrefused)

/-- Only the account table changes. -/
theorem migrateRow_ne {i : TableId} (hi : i ≠ .accounts) : t.migrateRow a i = t i := by
  rw [migrateRow]
  split
  · exact set_ne t hi _
  · rfl

/-- Only the login index changes. -/
theorem migrateLogin_ne {i : TableId} (hi : i ≠ .logins) : t.migrateLogin a i = t i := by
  rw [migrateLogin]
  split
  · exact set_ne t hi _
  · rfl

/-- A login that is not granted is not the account's. -/
theorem owner?_migrateLogin :
    (t.migrateLogin a).owner? a.login = some a.uuid ↔ t.grants a.login a.uuid = true := by
  rw [migrateLogin]
  split
  · next hgrants => exact iff_of_true (owner?_bindLogin.trans (if_pos rfl)) hgrants
  · next hrefused => exact iff_of_false (fun howner => hrefused (grants_of_owner? howner)) hrefused

theorem grants_migrateLogin :
    (t.migrateLogin a).grants a.login a.uuid = t.grants a.login a.uuid := by
  cases hgrants : t.grants a.login a.uuid with
  | true => exact grants_of_owner? (owner?_migrateLogin.mpr hgrants)
  | false => rwa [migrateLogin, if_neg (Bool.eq_false_iff.mp hgrants)]

/-! ### Rows -/

variable {b : Account}

theorem precedes_congr {t' : Tables} (h : t'.accountRow? a.uuid = t.accountRow? a.uuid) :
    t'.precedes a = t.precedes a := by
  unfold precedes
  rw [h]

/-- A row that was migrated gives way to higher versions. -/
theorem precedes_putAccount (huuid : b.uuid = a.uuid) :
    (t.putAccount a).precedes b = true ↔ a.migrationVersion < b.migrationVersion := by
  unfold precedes
  rw [accountRow?_putAccount, if_pos huuid]
  simp only [Condition.permits, Option.all_some, Condition.holds, Store.attribute?,
    Option.bind_some, Row.uuid_ofAccount, Row.version_ofAccount, Option.isNone_some, Option.any_some,
    AttributeValue.lessThan, Bool.false_or, beq_iff_eq]
  rw [Std.compare_eq_lt, Int32.toInt64_lt]

theorem precedes_putAccount_ne (huuid : b.uuid ≠ a.uuid) :
    (t.putAccount a).precedes b = t.precedes b := by
  apply precedes_congr
  rw [accountRow?_putAccount, if_neg huuid]

/-- A row that gives way to a version gives way to those above it. -/
theorem precedes_of_le (huuid : a.uuid = b.uuid) (hle : a.migrationVersion ≤ b.migrationVersion)
    (h : t.precedes a = true) : t.precedes b = true := by
  unfold precedes at h ⊢
  rw [huuid] at h
  simp only [Condition.permits, Option.all_some, Condition.holds, Bool.or_eq_true,
    Option.any_eq_true] at h ⊢
  apply h.imp_right
  rintro ⟨value, hvalue, hbelow⟩
  use value, hvalue
  -- Below a number are only numbers.
  cases value with
  | number n =>
    simp only [AttributeValue.lessThan, beq_iff_eq, Std.compare_eq_lt] at hbelow ⊢
    exact Int64.lt_of_lt_of_le hbelow (Int32.toInt64_le.mpr hle)
  | _ => cases hbelow

theorem grants_congr {t' : Tables} {login : String} {u : Uuid}
    (h : t'.loginRow? login = t.loginRow? login) : t'.grants login u = t.grants login u := by
  unfold grants
  rw [h]

/-- A row does not give way to what it has given way to. -/
theorem precedes_migrateRow {a : Account} : (t.migrateRow a).precedes a = false := by
  unfold migrateRow
  split
  · rw [← Bool.not_eq_true, precedes_putAccount rfl]
    exact Int32.lt_irrefl
  · next h => exact Bool.eq_false_iff.mpr h

theorem loginRow?_migrateLogin_ne_none {a : Account} :
    (t.migrateLogin a).loginRow? a.login ≠ none := by
  unfold migrateLogin
  split
  · rw [loginRow?_bindLogin, if_pos rfl]
    exact nofun
  · next h => exact fun hfree => h (grants_of_loginRow?_eq_none hfree)

end Tables

/-! ### Halves -/

/-- One of the two writes that migrate an account. -/
inductive Half where
  /-- The row is written. -/
  | row (a : Account)
  /-- The login is bound. -/
  | login (a : Account)

/-- The two writes that migrate an account. -/
def Account.halves (a : Account) : List Half := [.row a, .login a]

namespace Half

/-- The write. -/
def write (r : Registry) : Half → Action Bool
  | .row a => r.accounts.migrate a
  | .login a => r.logins.migrate a.login a.uuid

/-- The write may be made. -/
def permitted (t : Tables) : Half → Bool
  | .row a => t.precedes a
  | .login a => t.grants a.login a.uuid

/-- What the write leaves of the tables. -/
def apply (t : Tables) : Half → Tables
  | .row a => t.migrateRow a
  | .login a => t.migrateLogin a

/-- The account whose half it is. -/
def account : Half → Account
  | .row a => a
  | .login a => a

end Half

/-- The halves of an account of a list are among those of the list. -/
theorem Half.row_mem {accounts : List Account} {a : Account} (ha : a ∈ accounts) :
    .row a ∈ accounts.flatMap Account.halves :=
  List.mem_flatMap.mpr ⟨a, ha, List.mem_cons_self⟩

theorem Half.login_mem {accounts : List Account} {a : Account} (ha : a ∈ accounts) :
    .login a ∈ accounts.flatMap Account.halves :=
  List.mem_flatMap.mpr ⟨a, ha, List.mem_cons_of_mem _ List.mem_cons_self⟩

/-- The writes of a list are those of its accounts. -/
theorem Half.account_mem {accounts : List Account} {h : Half}
    (hh : h ∈ accounts.flatMap Account.halves) : h.account ∈ accounts := by
  obtain ⟨a, ha, hmem⟩ := List.mem_flatMap.mp hh
  simp only [Account.halves, List.mem_cons, List.not_mem_nil, or_false] at hmem
  rcases hmem with rfl | rfl
  · exact ha
  · exact ha

namespace Half

variable {t : Tables} (k : Half)

/-- The table that the half is about. -/
def table : Half → TableId
  | .row _ => .accounts
  | .login _ => .logins

theorem apply_of_ne_table {i : TableId} (hi : i ≠ k.table) : k.apply t i = t i := by
  cases k with
  | row a => exact Tables.migrateRow_ne hi
  | login a => exact Tables.migrateLogin_ne hi

/-- A half is about rows and logins. -/
theorem apply_ne {i : TableId} (haccounts : i ≠ .accounts) (hlogins : i ≠ .logins) :
    k.apply t i = t i := by
  cases k with
  | row a => exact apply_of_ne_table _ haccounts
  | login a => exact apply_of_ne_table _ hlogins

/-- The other tables have no say in a half. -/
theorem permitted_congr {t' : Tables} (h : t' k.table = t k.table) :
    k.permitted t' = k.permitted t := by
  cases k with
  | row a => exact Tables.precedes_congr (Tables.accountRow?_congr h a.uuid)
  | login a => exact Tables.grants_congr (Tables.loginRow?_congr h a.login)

theorem apply_congr {t' : Tables} (h : t' k.table = t k.table) :
    k.apply t' k.table = k.apply t k.table := by
  have hpermitted := k.permitted_congr h
  cases k with
  | row a =>
    simp only [permitted] at hpermitted
    simp only [apply, Tables.migrateRow, hpermitted, table] at h ⊢
    split
    · simp only [Tables.putAccount, Tables.setAccount, Tables.set_self, h]
    · exact h
  | login a =>
    simp only [permitted] at hpermitted
    simp only [apply, Tables.migrateLogin, hpermitted, table] at h ⊢
    split
    · simp only [Tables.bindLogin, Tables.set_self, h]
    · exact h

/-- The row of an account that the half is not about stays. -/
theorem accountRow?_apply {u : Uuid} (hu : k.account.uuid ≠ u) :
    (k.apply t).accountRow? u = t.accountRow? u := by
  cases k with
  | login a => exact Tables.accountRow?_congr (Tables.migrateLogin_ne (by decide)) u
  | row a =>
    rw [apply, Tables.migrateRow]
    split
    · exact Tables.accountRow?_putAccount.trans (if_neg (Ne.symm hu))
    · rfl

/-- A row gives way to higher versions only. -/
theorem precedes_apply {a : Account} (h : t.precedes a = false) :
    (k.apply t).precedes a = false := by
  cases k with
  | login b =>
    have hrow : (t.migrateLogin b).accountRow? a.uuid = t.accountRow? a.uuid :=
      Tables.accountRow?_congr (Tables.migrateLogin_ne (by decide)) _
    exact (Tables.precedes_congr hrow).trans h
  | row b =>
    rw [apply, Tables.migrateRow]
    split
    · next hb =>
      by_cases huuid : a.uuid = b.uuid
      · -- The row that gave way to `b` would have given way to a higher version.
        rw [← Bool.not_eq_true, Tables.precedes_putAccount huuid]
        intro hlt
        have ha := Tables.precedes_of_le huuid.symm (Int32.le_of_lt hlt) hb
        rw [h] at ha
        cases ha
      · exact (Tables.precedes_putAccount_ne huuid).trans h
    · exact h

theorem loginRow?_apply {l : String} (h : t.loginRow? l ≠ none) :
    (k.apply t).loginRow? l ≠ none := by
  cases k with
  | row b =>
    have hrow : (t.migrateRow b).loginRow? l = t.loginRow? l :=
      Tables.loginRow?_congr (Tables.migrateRow_ne (by decide)) l
    exact hrow.symm ▸ h
  | login b =>
    rw [apply, Tables.migrateLogin]
    split
    · rw [Tables.loginRow?_bindLogin]
      split
      · exact Option.some_ne_none _
      · exact h
    · exact h

/-- A login is bound by the half or was bound before. -/
theorem owner?_apply {l : String} {u : Uuid} (h : (k.apply t).owner? l = some u) :
    t.owner? l = some u ∨ k.account.login = l ∧ k.account.uuid = u := by
  cases k with
  | row b => exact .inl ((Tables.owner?_congr (Tables.migrateRow_ne (by decide)) l).symm.trans h)
  | login b =>
    rw [apply, Tables.migrateLogin] at h
    split at h
    · rw [Tables.owner?_bindLogin] at h
      split at h
      · next hl => exact .inr ⟨hl.symm, Option.some.inj h⟩
      · exact .inl h
    · exact .inl h

end Half

/-! ### Runs -/

namespace Registry

variable {r : Registry} {x : Exposure}

/-- The write of a half is applied or refused, or it is spoilt. -/
theorem once_write (hr : Function.Injective r.config.tables.name) (hx : x.IsGenuine)
    {spoilt : Prop} (hspoilt : ∀ request m, x request m = true → spoilt) (k : Half) (t : Tables) :
    Action.Once (r.config.tables.behaviour x) (k.write r) t
      (fun applied t' => applied = k.permitted t ∧ t' = k.apply t)
      fun _ t' => spoilt ∧ t' = t := by
  match k with
  | .row a =>
    apply once_accounts_migrate hr hx
    · exact fun hprecedes => ⟨hprecedes.symm, (if_pos hprecedes).symm⟩
    · exact fun hrefused => ⟨hrefused.symm, (if_neg (Bool.eq_false_iff.mp hrefused)).symm⟩
    · exact fun request m _ hm _ => ⟨hspoilt request m hm, rfl⟩
  | .login a =>
    apply once_logins_migrate hr hx
    · exact fun hgrants => ⟨hgrants.symm, (if_pos hgrants).symm⟩
    · exact fun hrefused => ⟨hrefused.symm, (if_neg (Bool.eq_false_iff.mp hrefused)).symm⟩
    · exact fun request m _ hm _ => ⟨hspoilt request m hm, rfl⟩

/-- A write that nothing befalls is made if it is permitted. -/
theorem once_write_calm (hr : Function.Injective r.config.tables.name) (k : Half) (t : Tables) :
    Action.Once (r.config.tables.behaviour .calm) (k.write r) t
      (fun applied t' => applied = k.permitted t ∧ t' = k.apply t) fun _ _ => False :=
  Action.Once.mono (once_write hr (Exposure.isGenuine_genuine _) (fun _ _ => Exposure.not_calm) k t)
    (fun _ _ => id) fun _ _ => And.left

end Registry

end LoginRegistry
