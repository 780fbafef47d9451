import LoginRegistry.Proofs.Migration.Parties
import LoginRegistry.Proofs.Registry.Stepwise

/-! # The writes of migrations in any order

    The workers of a batch take their accounts as they come, and each account is written
    in two halves that do not wait for each other.  So what a batch writes is some
    permutation of the halves of its accounts.

    Any two halves commute (`Half.apply_comm`): a row gives way to the highest version and
    a login stays with the only account that asks for it.  So all permutations leave the
    same tables, those of the accounts taken one after the other
    (`migration_halves_commute`).  The tables at the start may hold any rows at all, also
    such as the registry never writes.
-/

namespace LoginRegistry

open Store (AttributeValue Condition Database)

namespace Tables

variable {t : Tables} {a b : Account}

/-! ### Rows -/

theorem putAccount_putAccount (huuid : a.uuid = b.uuid) :
    (t.putAccount a).putAccount b = t.putAccount b := by
  unfold putAccount setAccount
  rw [set_set, set_self, huuid, SortedMap.insert_insert]

theorem putAccount_comm (huuid : a.uuid ≠ b.uuid) :
    (t.putAccount a).putAccount b = (t.putAccount b).putAccount a := by
  have hkey : Row.uuidValue a.uuid ≠ Row.uuidValue b.uuid := mt Row.uuidValue_inj.mp huuid
  unfold putAccount setAccount
  rw [set_set, set_self, set_set, set_self, SortedMap.insert_comm _ hkey]

/-- Whatever row is stored, the higher of two versions ends up in it or neither does. -/
theorem migrateRow_migrateRow_of_lt (huuid : a.uuid = b.uuid)
    (hlt : a.migrationVersion < b.migrationVersion) :
    (t.migrateRow a).migrateRow b = t.migrateRow b ∧
      (t.migrateRow b).migrateRow a = t.migrateRow b := by
  have hle := Int32.le_of_lt hlt
  by_cases hb : t.precedes b = true
  · have hlate : ¬ (t.putAccount b).precedes a = true := by
      rw [precedes_putAccount huuid]
      exact Int32.lt_asymm hlt
    have hsecond : (t.migrateRow b).migrateRow a = t.migrateRow b := by
      simp only [migrateRow, if_pos hb, if_neg hlate]
    refine ⟨?_, hsecond⟩
    by_cases ha : t.precedes a = true
    · have hnext : (t.putAccount a).precedes b = true := (precedes_putAccount huuid.symm).mpr hlt
      simp only [migrateRow, if_pos ha, if_pos hnext, if_pos hb, putAccount_putAccount huuid]
    · simp only [migrateRow, if_neg ha]
  · -- A row that is too high for the higher version is too high for the lower one.
    have ha : ¬ t.precedes a = true := fun ha => hb (precedes_of_le huuid hle ha)
    simp only [migrateRow, if_neg ha, if_neg hb, and_self]

/-- The rows of two migrations commute, unless they are of one version and differ. -/
theorem migrateRow_comm
    (hsame : a.uuid = b.uuid → a.migrationVersion = b.migrationVersion → a = b) :
    (t.migrateRow a).migrateRow b = (t.migrateRow b).migrateRow a := by
  by_cases huuid : a.uuid = b.uuid
  · by_cases hab : a.migrationVersion < b.migrationVersion
    · have hboth := migrateRow_migrateRow_of_lt (t := t) huuid hab
      rw [hboth.1, hboth.2]
    by_cases hba : b.migrationVersion < a.migrationVersion
    · have hboth := migrateRow_migrateRow_of_lt (t := t) huuid.symm hba
      rw [hboth.1, hboth.2]
    · have hversion := Int32.le_antisymm (Int32.not_lt.mp hba) (Int32.not_lt.mp hab)
      rw [hsame huuid hversion]
  · have hb := precedes_putAccount_ne (t := t) (Ne.symm huuid)
    have ha := precedes_putAccount_ne (t := t) huuid
    unfold migrateRow
    by_cases hpa : t.precedes a = true <;> by_cases hpb : t.precedes b = true <;>
      simp only [hpa, hpb, ha, hb, if_true, if_false, Bool.false_eq_true, putAccount_comm huuid]

/-! ### Logins -/

/-- A login that is bound does not change what is granted of another. -/
theorem grants_bindLogin_ne {l login : String} {u v : Uuid} (hlogin : l ≠ login) :
    (t.bindLogin login u).grants l v = t.grants l v := by
  apply grants_congr
  rw [loginRow?_bindLogin, if_neg hlogin]

theorem bindLogin_comm {l login : String} {u v : Uuid} (hlogin : l ≠ login) :
    (t.bindLogin l v).bindLogin login u = (t.bindLogin login u).bindLogin l v := by
  have hkey : AttributeValue.string l ≠ .string login := mt AttributeValue.string.inj hlogin
  unfold bindLogin
  rw [set_set, set_self, set_set, set_self, SortedMap.insert_comm _ hkey]

/-- The logins of two migrations commute, unless two accounts ask for one login. -/
theorem migrateLogin_comm (hsame : a.login = b.login → a.uuid = b.uuid) :
    (t.migrateLogin a).migrateLogin b = (t.migrateLogin b).migrateLogin a := by
  by_cases hlogin : a.login = b.login
  · have hwrite : ∀ t : Tables, t.migrateLogin b = t.migrateLogin a := by
      intro t
      simp only [migrateLogin, hlogin, hsame hlogin]
    rw [hwrite, hwrite]
  · have hb := grants_bindLogin_ne (t := t) (u := a.uuid) (v := b.uuid) (Ne.symm hlogin)
    have ha := grants_bindLogin_ne (t := t) (u := b.uuid) (v := a.uuid) hlogin
    unfold migrateLogin
    by_cases hga : t.grants a.login a.uuid = true <;>
      by_cases hgb : t.grants b.login b.uuid = true <;>
      simp only [hga, hgb, ha, hb, if_true, if_false, Bool.false_eq_true, bindLogin_comm hlogin]

/-- A row and a login are in different tables. -/
theorem migrateRow_migrateLogin_comm :
    (t.migrateLogin b).migrateRow a = (t.migrateRow a).migrateLogin b := by
  have hrow : (t.migrateLogin b).precedes a = t.precedes a := by
    apply precedes_congr
    exact accountRow?_congr (migrateLogin_ne (by decide)) a.uuid
  have hlogin : (t.migrateRow a).grants b.login b.uuid = t.grants b.login b.uuid := by
    apply grants_congr
    exact loginRow?_congr (migrateRow_ne (by decide)) b.login
  have hwrites : (t.bindLogin b.login b.uuid).putAccount a
      = (t.putAccount a).bindLogin b.login b.uuid := by
    unfold bindLogin putAccount setAccount
    rw [set_ne t (by decide), set_ne t (by decide), set_comm t (by decide)]
  rw [migrateRow, hrow, migrateLogin, migrateLogin, hlogin, migrateRow]
  by_cases ha : t.precedes a = true <;> by_cases hb : t.grants b.login b.uuid = true <;>
    simp only [ha, hb, hwrites, if_true, if_false, Bool.false_eq_true]

end Tables

/-! ### Halves -/

namespace Half

/-- Any two halves commute, if equal version means equal row and equal login means equal
    account. -/
theorem apply_comm {h k : Half}
    (hversion : h.account.uuid = k.account.uuid →
      h.account.migrationVersion = k.account.migrationVersion → h.account = k.account)
    (hlogin : h.account.login = k.account.login → h.account.uuid = k.account.uuid) (t : Tables) :
    k.apply (h.apply t) = h.apply (k.apply t) := by
  match h, k with
  | .row a, .row b => exact Tables.migrateRow_comm hversion
  | .login a, .login b => exact Tables.migrateLogin_comm hlogin
  | .row a, .login b => exact Tables.migrateRow_migrateLogin_comm.symm
  | .login a, .row b => exact Tables.migrateRow_migrateLogin_comm

/-- What a permutation of some writes leaves of the tables. -/
theorem foldl_apply_perm {order halves : List Half} (hperm : order.Perm halves)
    (hversion : ∀ h ∈ halves, ∀ k ∈ halves, h.account.uuid = k.account.uuid →
      h.account.migrationVersion = k.account.migrationVersion → h.account = k.account)
    (hlogin : ∀ h ∈ halves, ∀ k ∈ halves, h.account.login = k.account.login →
      h.account.uuid = k.account.uuid) (t : Tables) :
    order.foldl apply t = halves.foldl apply t := by
  symm
  apply hperm.symm.foldl_eq'
  intro h hh k hk t
  exact apply_comm (hversion h hh k hk) (hlogin h hh k hk) t

end Half

/-! ### Runs -/

/-- The script changes one table, and the others another one. -/
def Terms.apart (own other : TableId) : Terms Tables where
  others t t' := ∀ i, i ≠ other → t' i = t i
  own t t' := ∀ i, i ≠ own → t' i = t i
  refl _ _ _ := rfl
  trans h h' i hi := (h' i hi).trans (h i hi)

namespace Registry

/-- Makes writes of migrations one after the other, up to the first failure. -/
def writeHalves (r : Registry) (order : List Half) : Action Unit :=
  order.forM fun h => discard (h.write r)

variable {r : Registry}

section valid

variable (hr : Function.Injective r.config.tables.name)

include hr

theorem within_writeHalves (order : List Half) (t : Tables) :
    Action.Within (r.config.tables.behaviour .calm) (r.writeHalves order) t
      (fun _ t' => t' = order.foldl Half.apply t) fun _ _ => False := by
  -- What is left to be written, written to the tables so far, comes to the same.
  apply Action.within_forM (J := fun rest t' => rest.foldl Half.apply t' = order.foldl Half.apply t)
  · intro h rest t' hrest
    apply Action.within_map
    apply Action.Within.mono (Action.within_of_once (once_write_calm hr h t'))
    · rintro _ _ ⟨-, rfl⟩
      exact hrest
    · exact fun _ _ => False.elim
  · rfl

/-- A half is written among others that are about another table. -/
theorem among_write_apart (k : Half) (i : TableId) (hi : k.table ≠ i) (t : Tables) :
    Action.Among (r.config.tables.behaviour .calm) (.apart k.table i) (k.write r) t
      (fun applied t' => applied = k.permitted t ∧ ∀ j, j ≠ i → t' j = k.apply t j)
      fun _ _ => False := by
  refine Action.among_of_once fun t₁ ht₁ => Action.Once.mono (once_write_calm hr k t₁) ?_
    fun _ _ => False.elim
  rintro applied _ ⟨rfl, rfl⟩
  refine ⟨fun j => k.apply_of_ne_table, fun t₂ ht₂ => ⟨k.permitted_congr (ht₁ _ hi), ?_⟩⟩
  intro j hj
  rw [ht₂ j hj]
  by_cases htable : j = k.table
  · rw [htable, k.apply_congr (ht₁ _ hi)]
  · rw [k.apply_of_ne_table htable, k.apply_of_ne_table htable, ht₁ j hj]

/-- A migration that nothing befalls makes the two writes in any order, and tells whether both
    of them were permitted. -/
theorem within_migrate_halves (a : Account) (turns : List Bool) (t : Tables) :
    (r.migrate a turns).Within (r.config.tables.behaviour .calm)
      (fun o t' => o = some (.ok (t.precedes a && t.grants a.login a.uuid)) ∧
        t' = a.halves.foldl Half.apply t) t := by
  have hallow : ∀ i j : TableId, (Terms.apart i j).Allow (.apart j i) := fun _ _ _ _ => id
  have hready : ∀ {terms : Terms Tables}, Readies r (r.config.tables.behaviour .calm) a False
      (fun _ => True) (fun _ => True) terms := ⟨fun _ => id, fun _ => id, False.elim⟩
  refine Script.Within.mono (among_migrate ⟨hallow .accounts .logins, hallow .logins .accounts⟩
    ⟨Terms.suit_alone _, Terms.suit_alone _⟩ hready hready hready
    (among_write_apart hr (.row a) .logins nofun t)
    (among_write_apart hr (.login a) .accounts nofun t) trivial turns).within ?_
  intro o t' hconcluded
  cases hconcluded with
  | served hrow hlogin =>
    obtain ⟨rfl, haccounts⟩ := hrow
    obtain ⟨rfl, hlogins⟩ := hlogin
    refine ⟨rfl, funext fun i => ?_⟩
    show t' i = (Half.login a).apply ((Half.row a).apply t) i
    by_cases hi : i = .logins
    · subst hi
      rw [hlogins _ (by decide)]
      exact ((Half.login a).apply_congr ((Half.row a).apply_of_ne_table nofun)).symm
    · rw [haccounts i hi, (Half.login a).apply_of_ne_table hi]
  | failed hspoilt _ => exact hspoilt.elim

/-- A migration leaves what its two writes leave, and tells whether both were permitted. -/
theorem run_migrate (a : Account) (turns : List Bool) (t : Tables) :
    let run := (r.migrate a turns).run Database.handler (r.config.tables.database t)
    run.result = some (.ok (t.precedes a && t.grants a.login a.uuid)) ∧
      run.state = r.config.tables.database ((t.migrateRow a).migrateLogin a) := by
  obtain ⟨_, hstate, hresult, rfl⟩ := Script.run_of_within (TableNames.obeys_database hr .calm)
    (within_migrate_halves hr a turns t) rfl
  exact ⟨hresult, hstate⟩

/-- Migrations one after the other leave what their writes in order leave. -/
theorem leaves_migrations (accounts : List Account) (turns : Nat → List Bool) (t : Tables) :
    r.leaves (accounts.mapIdx fun i a => .migrate a (turns i)) (r.config.tables.database t)
      = r.config.tables.database ((accounts.flatMap Account.halves).foldl Half.apply t) := by
  induction accounts using List.reverseRecOn with
  | nil => rfl
  | append_singleton accounts a ih =>
    have hlast : ∀ d, r.leaves [.migrate a (turns accounts.length)] d
        = ((r.migrate a (turns accounts.length)).run Database.handler d).state :=
      Script.state_run_discard _ _
    rw [List.mapIdx_concat, leaves_append, ih, hlast, (run_migrate hr a _ _).2, List.flatMap_append,
      List.foldl_append]
    rfl

end valid

/-- Take any list of accounts in which equal id and version mean equal account and equal
    login means equal id, and any rows in the tables.  The writes that migrate the accounts,
    two for each of them, can be made in any order: each of them ends without an error, and
    they leave the tables that the migrations of the accounts leave when these come one
    after the other as listed. -/
theorem migration_halves_commute {config : Config} (h : ofConfig config = .ok r) (t : Tables)
    {accounts : List Account}
    (hversion : ∀ a ∈ accounts, ∀ b ∈ accounts, a.uuid = b.uuid →
      a.migrationVersion = b.migrationVersion → a = b)
    (hlogin : ∀ a ∈ accounts, ∀ b ∈ accounts, a.login = b.login → a.uuid = b.uuid)
    {order : List Half} (horder : order.Perm (accounts.flatMap Account.halves)) :
    let run := (r.writeHalves order).run.run Database.handler (config.tables.database t)
    run.result = some (.ok ()) ∧ ∀ turns : Nat → List Bool,
      run.state = r.leaves (accounts.mapIdx fun i a => .migrate a (turns i))
        (config.tables.database t) := by
  obtain ⟨rfl, hr⟩ := name_injective_of_ofConfig h
  intro run
  obtain ⟨_, _, hresult, hstate, rfl⟩ := Action.run_of_within (TableNames.obeys_database hr .calm)
    (within_writeHalves hr order t) rfl
  have hfold : order.foldl Half.apply t
      = (accounts.flatMap Account.halves).foldl Half.apply t := by
    apply Half.foldl_apply_perm horder
    · exact fun h hh k hk => hversion _ (Half.account_mem hh) _ (Half.account_mem hk)
    · exact fun h hh k hk => hlogin _ (Half.account_mem hh) _ (Half.account_mem hk)
  refine ⟨hresult, fun turns => ?_⟩
  rw [leaves_migrations hr, ← hfold]
  exact hstate

/-- Two versions of an account, of which the later one has another login, and an account
    with a login that somebody has already.  The writes come in reverse. -/
theorem migration_halves_commute_default :
    let u : Uuid := ⟨.replicate 16 1, rfl⟩
    let v : Uuid := ⟨.replicate 16 2, rfl⟩
    let accounts : List Account := [⟨u, "+1", 1, {}⟩, ⟨u, "+2", 2, {}⟩, ⟨v, "+3", 1, {}⟩]
    let order := (accounts.flatMap Account.halves).reverse
    let t := Tables.empty.bindLogin "+3" ⟨.replicate 16 3, rfl⟩
    ofConfig {} = .ok ⟨{}⟩ ∧
      (∀ a ∈ accounts, ∀ b ∈ accounts, a.uuid = b.uuid →
        a.migrationVersion = b.migrationVersion → a = b) ∧
      (∀ a ∈ accounts, ∀ b ∈ accounts, a.login = b.login → a.uuid = b.uuid) ∧
      order.Perm (accounts.flatMap Account.halves) ∧
      let r : Registry := ⟨{}⟩
      let run := (r.writeHalves order).run.run Database.handler (({} : Config).tables.database t)
      run.result = some (.ok ()) ∧ ∀ turns : Nat → List Bool,
        run.state = r.leaves (accounts.mapIdx fun i a => .migrate a (turns i))
          (({} : Config).tables.database t) := by
  intro u v accounts order t
  have hconfig : ofConfig {} = .ok ⟨{}⟩ := rfl
  have hversion : ∀ a ∈ accounts, ∀ b ∈ accounts, a.uuid = b.uuid →
      a.migrationVersion = b.migrationVersion → a = b := by decide
  have hlogin : ∀ a ∈ accounts, ∀ b ∈ accounts, a.login = b.login → a.uuid = b.uuid := by decide
  have horder : order.Perm (accounts.flatMap Account.halves) := List.reverse_perm _
  exact ⟨hconfig, hversion, hlogin, horder,
    migration_halves_commute hconfig t hversion hlogin horder⟩

end Registry

end LoginRegistry
