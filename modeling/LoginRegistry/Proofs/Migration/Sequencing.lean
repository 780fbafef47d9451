import LoginRegistry.Proofs.Migration.Commuting
import Mathlib.Data.List.Find

/-! # Migrations one after the other

    The row of a migration goes by the version alone, its login by the owner alone.  So of
    accounts that are migrated to a fresh registry one after the other, each id keeps the
    first of its highest version (`latest?`), and each login stays with the first that asks
    for it (`claimant?`).

    * `get?_migrateAll_accounts`, `get?_migrateAll_logins`: the closed form, by one more
      account at the end of the list.
    * `migrations_in_sequence`: what each migration returns and what they leave.
-/

namespace LoginRegistry

open Store (Database)

/-! ### Closed forms -/

namespace Account

/-- No account of a list with the id of this one is of a higher version. -/
def Highest (accounts : List Account) (a : Account) : Prop :=
  ∀ b ∈ accounts, b.uuid = a.uuid → b.migrationVersion ≤ a.migrationVersion

instance (accounts : List Account) (a : Account) : Decidable (Highest accounts a) :=
  inferInstanceAs (Decidable (∀ b ∈ accounts, _))

/-- The first account of an id among those of its highest version. -/
def latest? (u : Uuid) (accounts : List Account) : Option Account :=
  accounts.find? fun a => a.uuid = u ∧ Highest accounts a

/-- The id of the first account with a login. -/
def claimant? (login : String) (accounts : List Account) : Option Uuid :=
  (accounts.find? (·.login = login)).map (·.uuid)

variable (accounts : List Account) (a : Account)

/-- If an id has accounts, one of them is of its highest version. -/
theorem exists_highest {accounts : List Account} {a : Account} (ha : a ∈ accounts) :
    ∃ m ∈ accounts, m.uuid = a.uuid ∧ Highest accounts m := by
  induction accounts generalizing a with
  | nil => cases ha
  | cons first rest ih =>
    by_cases hrest : ∃ b ∈ rest, b.uuid = a.uuid ∧ first.migrationVersion ≤ b.migrationVersion
    · -- The first account is no higher than some other, so the highest of the others will do.
      obtain ⟨b, hb, hu, hle⟩ := hrest
      obtain ⟨m, hm, hmu, hmax⟩ := ih hb
      refine ⟨m, List.mem_cons_of_mem first hm, hmu.trans hu, ?_⟩
      intro c hc hcu
      rcases List.mem_cons.mp hc with rfl | hc
      · exact Int32.le_trans hle (hmax b hb hmu.symm)
      · exact hmax c hc hcu
    · by_cases hfirst : first.uuid = a.uuid
      · refine ⟨first, List.mem_cons_self, hfirst, ?_⟩
        intro c hc hcu
        rcases List.mem_cons.mp hc with rfl | hc
        · exact Int32.le_refl _
        · apply (Int32.le_total _ _).resolve_left
          exact fun hle => hrest ⟨c, hc, hcu.trans hfirst, hle⟩
      · have ha : a ∈ rest := (List.mem_cons.mp ha).resolve_left fun h => hfirst (h ▸ rfl)
        obtain ⟨m, hm, hmu, hmax⟩ := ih ha
        refine ⟨m, List.mem_cons_of_mem first hm, hmu, ?_⟩
        intro c hc hcu
        rcases List.mem_cons.mp hc with rfl | hc
        · exact absurd (hcu.trans hmu) hfirst
        · exact hmax c hc hcu

theorem highest_of_latest? {u : Uuid} {accounts : List Account} {m : Account}
    (h : latest? u accounts = some m) : m ∈ accounts ∧ m.uuid = u ∧ Highest accounts m := by
  have hhighest := List.find?_some h
  exact ⟨List.mem_of_find?_eq_some h, of_decide_eq_true hhighest⟩

/-- The latest account of an id is of a lower version if all of them are. -/
theorem all_latest?_iff {u : Uuid} {version : Int32} :
    (latest? u accounts).all (·.migrationVersion < version) = true ↔
      ∀ b ∈ accounts, b.uuid = u → b.migrationVersion < version := by
  simp only [Option.all_eq_true, decide_eq_true_eq]
  constructor
  · rintro h b hb rfl
    have hsome : latest? b.uuid accounts ≠ none := by
      intro hnone
      obtain ⟨m, hm, hmu, hmax⟩ := exists_highest hb
      exact List.find?_eq_none.mp hnone m hm (decide_eq_true ⟨hmu, hmax⟩)
    obtain ⟨m, hlatest⟩ := Option.ne_none_iff_exists'.mp hsome
    obtain ⟨-, hmu, hmax⟩ := highest_of_latest? hlatest
    exact Int32.lt_of_le_of_lt (hmax b hb hmu.symm) (h m hlatest)
  · intro h m hlatest
    obtain ⟨hm, hmu, -⟩ := highest_of_latest? hlatest
    exact h m hm hmu

/-- One more account leaves an account the highest if it is no higher or of another id. -/
theorem highest_concat {b : Account} :
    Highest (accounts ++ [a]) b ↔
      Highest accounts b ∧ (a.uuid = b.uuid → a.migrationVersion ≤ b.migrationVersion) := by
  unfold Highest
  simp only [List.forall_mem_append, List.forall_mem_singleton]

/-- The latest account, as one more comes to the list. -/
theorem latest?_append (u : Uuid) :
    latest? u (accounts ++ [a])
      = (accounts.find? fun b => b.uuid = u ∧ Highest accounts b ∧
          (a.uuid = b.uuid → a.migrationVersion ≤ b.migrationVersion)).or
        (if a.uuid = u ∧ Highest accounts a then some a else none) := by
  unfold latest?
  rw [List.find?_append, List.find?_singleton]
  simp only [highest_concat, decide_eq_true_eq, Int32.le_refl, implies_true, and_true]

/-- One more account is the latest of its id if it is of a higher version. -/
theorem latest?_concat (u : Uuid) :
    latest? u (accounts ++ [a])
      = if u = a.uuid ∧ (latest? u accounts).all (·.migrationVersion < a.migrationVersion)
        then some a else latest? u accounts := by
  rw [latest?_append]
  by_cases hu : u = a.uuid
  · subst hu
    by_cases hall : (latest? a.uuid accounts).all (·.migrationVersion < a.migrationVersion) = true
    · -- No account that came before is as high.
      have hlower := (all_latest?_iff accounts).mp hall
      have hself : Highest accounts a := fun b hb hbu => Int32.le_of_lt (hlower b hb hbu)
      rw [if_pos ⟨rfl, hself⟩, if_pos ⟨rfl, hall⟩, List.find?_eq_none.mpr, Option.none_or]
      intro b hb hhighest
      obtain ⟨hbu, -, hle⟩ := of_decide_eq_true hhighest
      exact Int32.not_le.mpr (hlower b hb hbu) (hle hbu.symm)
    · -- Some account is as high, and then so is every one that was the highest.
      obtain ⟨m, hlatest, hle⟩ : ∃ m, latest? a.uuid accounts = some m ∧
          a.migrationVersion ≤ m.migrationVersion := by
        cases hlatest : latest? a.uuid accounts with
        | none => simp [hlatest] at hall
        | some m => exact ⟨m, rfl, by simpa [hlatest] using hall⟩
      obtain ⟨hm, hmu, -⟩ := highest_of_latest? hlatest
      have hsame : (accounts.find? fun b => b.uuid = a.uuid ∧ Highest accounts b ∧
          (a.uuid = b.uuid → a.migrationVersion ≤ b.migrationVersion))
            = latest? a.uuid accounts := by
        apply List.find?_congr
        intro b _
        rw [decide_eq_decide]
        refine and_congr_right fun hbu => and_iff_left_of_imp fun hmax _ => ?_
        exact Int32.le_trans hle (hmax m hm (hmu.trans hbu.symm))
      rw [hsame, hlatest, Option.some_or, ← hlatest, if_neg fun h => hall h.2]
  · have hne : ¬ a.uuid = u := fun h => hu h.symm
    rw [if_neg fun h => hne h.1, if_neg fun h => hu h.1, Option.or_none]
    apply List.find?_congr
    intro b _
    rw [decide_eq_decide]
    refine and_congr_right fun hbu => and_iff_left fun hab => ?_
    exact absurd (hab.trans hbu) hne

/-- One more account comes after those that have the login already. -/
theorem claimant?_concat (login : String) :
    claimant? login (accounts ++ [a])
      = (claimant? login accounts).or (if login = a.login then some a.uuid else none) := by
  unfold claimant?
  rw [List.find?_append, Option.map_or]
  by_cases hlogin : login = a.login
  · simp [hlogin]
  · have hne : ¬ a.login = login := fun h => hlogin h.symm
    simp [hlogin, hne]

/-- The first account with the login of one is of the same id if nobody of another id has
    come before. -/
theorem claimant?_eq_some_iff (before rest : List Account) :
    claimant? a.login (before ++ a :: rest) = some a.uuid ↔
      (claimant? a.login before).all (· = a.uuid) = true := by
  have hsplit : before ++ a :: rest = (before ++ [a]) ++ rest := by simp
  have hhere : claimant? a.login (before ++ a :: rest) = claimant? a.login (before ++ [a]) := by
    unfold claimant?
    simp [List.find?_append]
  rw [hhere, claimant?_concat, if_pos rfl]
  cases claimant? a.login before with
  | none => simp
  | some u => simp

end Account

/-! ### Contents -/

namespace Contents

/-- The contents after accounts are migrated one by one. -/
def migrateAll (c : Contents) (accounts : List Account) : Contents :=
  accounts.foldl (fun c a => c.attempt a true true false) c

variable (accounts : List Account)

theorem migrateAll_concat (c : Contents) (a : Account) :
    c.migrateAll (accounts ++ [a]) = (c.migrateAll accounts).attempt a true true false :=
  List.foldl_append

/-- Migrations leave the version, the tombstones and the queue. -/
theorem migrateAll_eq (c : Contents) :
    c.migrateAll accounts = { c with
      accounts := (c.migrateAll accounts).accounts
      logins := (c.migrateAll accounts).logins } := by
  induction accounts using List.reverseRecOn with
  | nil => rfl
  | append_singleton accounts a ih =>
    rw [migrateAll_concat, ih]
    rfl

theorem get?_migrateAll_accounts (u : Uuid) :
    (({} : Contents).migrateAll accounts).accounts.get? u = Account.latest? u accounts := by
  induction accounts using List.reverseRecOn with
  | nil => rfl
  | append_singleton accounts a ih =>
    rw [migrateAll_concat, attempt_accounts, if_pos rfl, AccountMap.get?_migrate, ih,
      Account.latest?_concat]

theorem get?_migrateAll_logins (login : String) :
    (({} : Contents).migrateAll accounts).logins.get? login
      = Account.claimant? login accounts := by
  induction accounts using List.reverseRecOn with
  | nil => rfl
  | append_singleton accounts a ih =>
    rw [migrateAll_concat, attempt_logins, if_pos rfl, get?_migratedLogins, ih,
      Account.claimant?_concat]
    by_cases hlogin : login = a.login
    · cases Account.claimant? login accounts with
      | none => simp [hlogin]
      | some u =>
        by_cases hu : u = a.uuid
        · simp [hu]
        · simp [hlogin, hu]
    · simp [hlogin]

end Contents

/-! ### Runs -/

namespace Registry

variable {r : Registry} {jobs : List Job} {c : Contents}

theorem Reaches.migrateAll (hr : Function.Injective r.config.tables.name) (h : r.Reaches jobs c)
    (accounts : List Account) (turns : Nat → List Bool) :
    r.Reaches (jobs ++ accounts.mapIdx fun i a => .migrate a (turns i)) (c.migrateAll accounts) := by
  induction accounts using List.reverseRecOn with
  | nil => rwa [List.mapIdx_nil, List.append_nil]
  | append_singleton accounts a ih =>
    rw [List.mapIdx_concat, ← List.append_assoc, Contents.migrateAll_concat]
    exact ih.migrate hr a _

/-- Take any list of accounts that are migrated one after the other to a fresh registry, and
    nothing befalls them.  However the two writes of each of them take turns, each migration is
    applied in both halves if and only if all that came before with its id are of a lower
    version, and the first account of the list with its login has its id.  In the end each id
    has the row of the first of its accounts of the highest version, each login is bound to the
    id of the first account with it, and nothing else is stored. -/
theorem migrations_in_sequence {config : Config} (h : ofConfig config = .ok r)
    (accounts : List Account) (turns : Nat → List Bool) :
    let fresh := (Testbed.ofTables config.tables).database
    let migrations (accounts : List Account) : List Job :=
      accounts.mapIdx fun i a => .migrate a (turns i)
    (∀ before a rest, accounts = before ++ a :: rest →
      ((r.migrate a (turns before.length)).run Database.handler
          (r.leaves (migrations before) fresh)).result
        = some (.ok (decide ((∀ b ∈ before, b.uuid = a.uuid →
            b.migrationVersion < a.migrationVersion) ∧
          Account.claimant? a.login accounts = some a.uuid)))) ∧
      ∃ c, r.leaves (migrations accounts) fresh = r.store c ∧
        (∀ u, c.accounts.get? u = Account.latest? u accounts) ∧
        (∀ login, c.logins.get? login = Account.claimant? login accounts) ∧
        c.version = none ∧ c.tombstones = .empty ∧ c.retries = .empty := by
  obtain ⟨rfl, hr⟩ := name_injective_of_ofConfig h
  intro fresh migrations
  constructor
  · rintro before a rest rfl
    have hbefore : r.leaves (migrations before) fresh
        = r.store (({} : Contents).migrateAll before) := (reaches_nil hr).migrateAll hr before turns
    have hresult := (run_migrate hr a (turns before.length)
      (({} : Contents).migrateAll before).tables).1
    rw [Contents.precedes_tables, Contents.grants_tables, Contents.get?_migrateAll_accounts,
      Contents.get?_migrateAll_logins] at hresult
    rw [hbefore]
    refine hresult.trans ?_
    congr 2
    rw [Bool.eq_iff_iff, Bool.and_eq_true, decide_eq_true_iff, Account.all_latest?_iff,
      Account.claimant?_eq_some_iff]
  · refine ⟨({} : Contents).migrateAll accounts, (reaches_nil hr).migrateAll hr accounts turns,
      Contents.get?_migrateAll_accounts accounts, Contents.get?_migrateAll_logins accounts, ?_⟩
    rw [Contents.migrateAll_eq]
    exact ⟨rfl, rfl, rfl⟩

/-- The second account loses its login to the first.  The third is of no higher version than
    the first, and the fourth is.  Each login is asked for before its row is written. -/
theorem migrations_in_sequence_default :
    let u : Uuid := ⟨.replicate 16 1, rfl⟩
    let v : Uuid := ⟨.replicate 16 2, rfl⟩
    let a : Account := ⟨u, "+1", 1, {}⟩
    let b : Account := ⟨v, "+1", 2, {}⟩
    let a' (version : Int32) : Account := ⟨u, "+2", version, {}⟩
    let r : Registry := ⟨{}⟩
    let fresh := (Testbed.ofTables ({} : Config).tables).database
    let migrations (accounts : List Account) : List Job := accounts.map (.migrate · [true])
    let outcome (before : List Account) (a : Account) :=
      ((r.migrate a [true]).run Database.handler (r.leaves (migrations before) fresh)).result
    ofConfig {} = .ok r ∧ outcome [a] b = some (.ok false) ∧
      outcome [a, b] (a' 1) = some (.ok false) ∧ outcome [a, b, a' 1] (a' 3) = some (.ok true) ∧
      ∃ c, r.leaves (migrations [a, b, a' 1, a' 3]) fresh = r.store c ∧
        c.accounts.get? u = some (a' 3) ∧ c.logins.get? "+1" = some u := by
  intro u v a b a' r fresh migrations outcome
  have hconfig : ofConfig {} = .ok r := rfl
  obtain ⟨houtcome, c, hc, haccounts, hlogins, -⟩ :=
    migrations_in_sequence hconfig [a, b, a' 1, a' 3] fun _ => [true]
  refine ⟨hconfig, ?_, ?_, ?_, c, hc, ?_, ?_⟩
  · exact houtcome [a] b [a' 1, a' 3] rfl
  · exact houtcome [a, b] (a' 1) [a' 3] rfl
  · exact houtcome [a, b, a' 1] (a' 3) [] rfl
  · rw [haccounts]
    decide +kernel
  · rw [hlogins]
    decide +kernel

end Registry

end LoginRegistry
