import LoginRegistry.Proofs.Registry.Rows
import LoginRegistry.Proofs.Store.Tables
import Mathlib.Tactic.Simps.Basic

/-! # Contents of a registry

    `Contents` is what the five tables hold, as typed maps: accounts by id, owners
    by login, the directory version, the tombstones, and the retry entries with
    their logins.  `Contents.tables` lays it out as rows.  Every write that the
    registry makes of rows is one of the updates below made of contents.
-/

namespace LoginRegistry

open Store (AttributeValue Database Item)

/-! ### Accounts by id -/

/-- The account with the payload and version of another. -/
def Account.revised (b a : Account) : Account :=
  { b with migrationVersion := a.migrationVersion, body := a.body }

/-- Accounts, each under its own id. -/
structure AccountMap where
  /-- The accounts by id. -/
  byUuid : SortedMap Uuid Account
  /-- An account stands under its own id. -/
  keyed : ∀ {u a}, byUuid.get? u = some a → a.uuid = u

namespace AccountMap

/-- No accounts. -/
def empty : AccountMap := ⟨.empty, fun h => nomatch h⟩

instance : Inhabited AccountMap := ⟨empty⟩

/-- The account of an id. -/
def get? (m : AccountMap) (u : Uuid) : Option Account := m.byUuid.get? u

/-- Stores an account under its id. -/
def put (m : AccountMap) (a : Account) : AccountMap where
  byUuid := m.byUuid.insert a.uuid a
  keyed {u b} h := by
    rw [SortedMap.get?_insert_eq] at h
    split at h
    · next hu =>
      obtain rfl := Option.some.inj h
      exact hu.symm
    · exact m.keyed h

/-- Removes the account of an id. -/
def erase (m : AccountMap) (u : Uuid) : AccountMap where
  byUuid := m.byUuid.erase u
  keyed {v a} h := by
    rw [SortedMap.get?_erase_eq] at h
    split at h
    · cases h
    · exact m.keyed h

theorem uuid_eq {m : AccountMap} {u : Uuid} {a : Account} (h : m.get? u = some a) : a.uuid = u :=
  m.keyed h

theorem ext_get? {m n : AccountMap} (h : ∀ u, m.get? u = n.get? u) : m = n := by
  cases m
  cases n
  congr 1
  exact SortedMap.ext_get? h

theorem get?_put (m : AccountMap) (a : Account) (u : Uuid) :
    (m.put a).get? u = if u = a.uuid then some a else m.get? u :=
  SortedMap.get?_insert_eq _ _ _ _

@[simp] theorem get?_put_self (m : AccountMap) (a : Account) : (m.put a).get? a.uuid = some a := by
  rw [get?_put, if_pos rfl]

theorem get?_put_ne (m : AccountMap) {a : Account} {u : Uuid} (h : u ≠ a.uuid) :
    (m.put a).get? u = m.get? u := by
  rw [get?_put, if_neg h]

theorem get?_erase (m : AccountMap) (u v : Uuid) :
    (m.erase u).get? v = if v = u then none else m.get? v :=
  SortedMap.get?_erase_eq _ _ _

@[simp] theorem get?_erase_self (m : AccountMap) (u : Uuid) : (m.erase u).get? u = none := by
  rw [get?_erase, if_pos rfl]

theorem get?_erase_ne (m : AccountMap) {u v : Uuid} (h : v ≠ u) :
    (m.erase u).get? v = m.get? v := by
  rw [get?_erase, if_neg h]

theorem erase_put {m : AccountMap} {a : Account} (h : m.get? a.uuid = none) :
    (m.put a).erase a.uuid = m := by
  apply ext_get?
  intro u
  rw [get?_erase, get?_put]
  split
  · next hu => rw [hu, h]
  · rfl

end AccountMap

/-! ### Contents -/

/-- What the tables of a registry hold. -/
structure Contents where
  /-- The accounts. -/
  accounts : AccountMap := .empty
  /-- The owner of each login. -/
  logins : SortedMap String Uuid := .empty
  /-- The directory version. -/
  version : Option Int64 := none
  /-- The ids of deleted accounts. -/
  tombstones : SortedMap Uuid Unit := .empty
  /-- The login of each account to be migrated again. -/
  retries : SortedMap Uuid String := .empty

namespace Contents

/-! ### Updates -/

/-- Stores an account. -/
@[simps] def putAccount (c : Contents) (a : Account) : Contents :=
  { c with accounts := c.accounts.put a }

/-- Removes the account of an id. -/
@[simps] def eraseAccount (c : Contents) (u : Uuid) : Contents :=
  { c with accounts := c.accounts.erase u }

/-- Binds a login to an account. -/
@[simps] def bindLogin (c : Contents) (login : String) (u : Uuid) : Contents :=
  { c with logins := c.logins.insert login u }

/-- Frees a login. -/
@[simps] def freeLogin (c : Contents) (login : String) : Contents :=
  { c with logins := c.logins.erase login }

/-- Frees a login if it is bound to an account. -/
def release (c : Contents) (login : String) (u : Uuid) : Contents :=
  if c.logins.get? login = some u then c.freeLogin login else c

/-- Stores the directory version. -/
@[simps] def setVersion (c : Contents) (version : Int64) : Contents :=
  { c with version := some version }

/-- Leaves the tombstone of an account. -/
@[simps] def bury (c : Contents) (u : Uuid) : Contents :=
  { c with tombstones := c.tombstones.insert u () }

/-- Leaves other tombstones. -/
@[simps] def withTombstones (c : Contents) (tombstones : SortedMap Uuid Unit) : Contents :=
  { c with tombstones := tombstones }

/-- Puts an account into the retry queue. -/
@[simps] def queueRetry (c : Contents) (u : Uuid) (login : String) : Contents :=
  { c with retries := c.retries.insert u login }

/-- Removes the retry entry of an account. -/
@[simps] def dropRetry (c : Contents) (u : Uuid) : Contents :=
  { c with retries := c.retries.erase u }

/-! ### Releasing a login -/

section release

variable (c : Contents) (login : String) (u : Uuid)

@[simp] theorem release_accounts : (c.release login u).accounts = c.accounts := by
  unfold release
  split <;> rfl

@[simp] theorem release_retries : (c.release login u).retries = c.retries := by
  unfold release
  split <;> rfl

@[simp] theorem release_version : (c.release login u).version = c.version := by
  unfold release
  split <;> rfl

/-- What is bound after a release was bound before, and is not the released login of
    the account. -/
theorem get?_release_eq_some_iff {l : String} {v : Uuid} :
    (c.release login u).logins.get? l = some v ↔
      c.logins.get? l = some v ∧ ¬ (l = login ∧ v = u) := by
  unfold release
  split
  · next hbound =>
    rw [freeLogin_logins, SortedMap.get?_erase_eq]
    split
    · next hl =>
      subst hl
      rw [hbound]
      constructor
      · intro h
        cases h
      · rintro ⟨hv, hnot⟩
        exact absurd ⟨rfl, (Option.some.inj hv).symm⟩ hnot
    · next hl => exact ⟨fun h => ⟨h, fun hnot => hl hnot.1⟩, And.left⟩
  · next hother =>
    refine ⟨fun h => ⟨h, ?_⟩, And.left⟩
    rintro ⟨rfl, rfl⟩
    exact hother h

end release

/-! ### Taking back an addition -/

theorem eraseAccount_putAccount {c : Contents} {a : Account} (h : c.accounts.get? a.uuid = none) :
    (c.putAccount a).eraseAccount a.uuid = c := by
  cases c
  simp only [putAccount, eraseAccount]
  rw [AccountMap.erase_put h]

end Contents

/-- The key of the row of an id keeps the order of ids. -/
theorem compare_uuidValue (u v : Uuid) :
    compare (Row.uuidValue u) (Row.uuidValue v) = compare u v := rfl

theorem compare_string (l m : String) :
    compare (AttributeValue.string l) (AttributeValue.string m) = compare l m := rfl

namespace Contents

/-- The rows of each table. -/
def tables (c : Contents) : Tables
  | .accounts => c.accounts.byUuid.rekey Row.uuidValue compare_uuidValue fun _ a => Row.ofAccount a
  | .logins => c.logins.rekey .string compare_string Row.ofLogin
  | .misc =>
    match c.version with
    | none => .empty
    | some version => .single (.string "directory_version") (Row.ofVersion version)
  | .tombstones => c.tombstones.rekey Row.uuidValue compare_uuidValue fun u _ => Row.uuidKey u
  | .retries => c.retries.rekey Row.uuidValue compare_uuidValue Row.ofRetry

theorem tables_empty : ({} : Contents).tables = .empty := by
  funext i
  cases i <;> rfl

/-! ### Rows -/

section rows

variable (c : Contents)

theorem get?_accounts (u : Uuid) :
    (c.tables .accounts).get? (Row.uuidValue u) = (c.accounts.get? u).map Row.ofAccount :=
  SortedMap.get?_rekey _ compare_uuidValue (fun _ a => Row.ofAccount a) _ _

theorem get?_logins (login : String) :
    (c.tables .logins).get? (.string login) = (c.logins.get? login).map (Row.ofLogin login) :=
  SortedMap.get?_rekey _ compare_string Row.ofLogin _ _

theorem get?_misc :
    (c.tables .misc).get? (.string "directory_version") = c.version.map Row.ofVersion := by
  cases h : c.version with
  | none => simp only [tables, h, SortedMap.get?_empty, Option.map_none]
  | some version => simp only [tables, h, SortedMap.get?_single, if_true, Option.map_some]

theorem get?_tombstones (u : Uuid) :
    (c.tables .tombstones).get? (Row.uuidValue u)
      = (c.tombstones.get? u).map fun _ => Row.uuidKey u :=
  SortedMap.get?_rekey _ compare_uuidValue (fun u _ => Row.uuidKey u) _ _

theorem get?_retries (u : Uuid) :
    (c.tables .retries).get? (Row.uuidValue u) = (c.retries.get? u).map (Row.ofRetry u) :=
  SortedMap.get?_rekey _ compare_uuidValue Row.ofRetry _ _

omit c in
/-- Every row is read back, so the tables determine the contents. -/
theorem tables_injective : Function.Injective tables := by
  intro c d h
  have haccounts : c.accounts = d.accounts := by
    refine AccountMap.ext_get? fun u => Option.map_injective Row.ofAccount_injective ?_
    rw [← get?_accounts, ← get?_accounts, h]
  have hlogins : c.logins = d.logins := by
    refine SortedMap.ext_get? fun l => Option.map_injective (Row.ofLogin_injective l) ?_
    rw [← get?_logins, ← get?_logins, h]
  have hversion : c.version = d.version := by
    refine Option.map_injective Row.ofVersion_injective ?_
    rw [← get?_misc, ← get?_misc, h]
  have htombstones : c.tombstones = d.tombstones := by
    refine SortedMap.ext_get? fun u => ?_
    have hrow := c.get?_tombstones u
    rw [h, get?_tombstones] at hrow
    exact Option.map_injective (fun _ _ _ => rfl) hrow.symm
  have hretries : c.retries = d.retries := by
    refine SortedMap.ext_get? fun u => Option.map_injective (Row.ofRetry_injective u) ?_
    rw [← get?_retries, ← get?_retries, h]
  cases c
  cases d
  simp_all only

/-! ### Writes -/

/-- Other rows in one table are other contents if they are the rows of these and the
    other tables stay. -/
theorem set_tables {c c' : Contents} {i : TableId} {rows : Rows} (hi : c'.tables i = rows)
    (hother : ∀ j, j ≠ i → c'.tables j = c.tables j) : c.tables.set i rows = c'.tables := by
  funext j
  by_cases hj : j = i
  · rw [hj, Tables.set_self, hi]
  · rw [Tables.set_ne _ hj, hother j hj]

theorem set_put (a : Account) :
    c.tables.set .accounts ((c.tables .accounts).insert (Row.uuidValue a.uuid) (Row.ofAccount a))
      = (c.putAccount a).tables :=
  set_tables (SortedMap.rekey_insert _ compare_uuidValue (fun _ a => Row.ofAccount a) _ _ _)
    fun j hj => by cases j <;> trivial

theorem set_erase (u : Uuid) :
    c.tables.set .accounts ((c.tables .accounts).erase (Row.uuidValue u))
      = (c.eraseAccount u).tables :=
  set_tables (SortedMap.rekey_erase _ compare_uuidValue (fun _ a => Row.ofAccount a) _ _)
    fun j hj => by cases j <;> trivial

theorem set_bind (login : String) (u : Uuid) :
    c.tables.set .logins ((c.tables .logins).insert (.string login) (Row.ofLogin login u))
      = (c.bindLogin login u).tables :=
  set_tables (SortedMap.rekey_insert _ compare_string Row.ofLogin _ _ _)
    fun j hj => by cases j <;> trivial

theorem set_release (login : String) :
    c.tables.set .logins ((c.tables .logins).erase (.string login))
      = (c.freeLogin login).tables :=
  set_tables (SortedMap.rekey_erase _ compare_string Row.ofLogin _ _)
    fun j hj => by cases j <;> trivial

theorem set_version (version : Int64) :
    c.tables.set .misc ((c.tables .misc).insert (.string "directory_version")
        (Row.ofVersion version))
      = (c.setVersion version).tables := by
  refine set_tables ?_ fun j hj => by cases j <;> trivial
  apply SortedMap.ext_get?
  intro key
  cases hversion : c.version <;>
    simp only [tables, setVersion, hversion, SortedMap.get?_insert_eq, SortedMap.get?_single,
      SortedMap.get?_empty]
  split <;> rfl

theorem set_tombstone (u : Uuid) :
    c.tables.set .tombstones ((c.tables .tombstones).insert (Row.uuidValue u) (Row.uuidKey u))
      = (c.bury u).tables :=
  set_tables (SortedMap.rekey_insert _ compare_uuidValue (fun u _ => Row.uuidKey u) _ _ _)
    fun j hj => by cases j <;> trivial

theorem set_eraseTombstone (u : Uuid) :
    c.tables.set .tombstones ((c.tables .tombstones).erase (Row.uuidValue u))
      = (c.withTombstones (c.tombstones.erase u)).tables :=
  set_tables (SortedMap.rekey_erase _ compare_uuidValue (fun u _ => Row.uuidKey u) _ _)
    fun j hj => by cases j <;> trivial

theorem set_retry (u : Uuid) (login : String) :
    c.tables.set .retries ((c.tables .retries).insert (Row.uuidValue u) (Row.ofRetry u login))
      = (c.queueRetry u login).tables :=
  set_tables (SortedMap.rekey_insert _ compare_uuidValue Row.ofRetry _ _ _)
    fun j hj => by cases j <;> trivial

theorem set_eraseRetry (u : Uuid) :
    c.tables.set .retries ((c.tables .retries).erase (Row.uuidValue u))
      = (c.dropRetry u).tables :=
  set_tables (SortedMap.rekey_erase _ compare_uuidValue Row.ofRetry _ _)
    fun j hj => by cases j <;> trivial

end rows

end Contents

/-! ### The store of a registry -/

namespace Registry

/-- The database that holds some contents in the tables of a registry. -/
def store (r : Registry) (c : Contents) : Database := r.config.tables.database c.tables

/-- The sections of the configuration of a registry are valid. -/
theorem validate_of_ofConfig {config : Config} {r : Registry}
    (h : Registry.ofConfig config = .ok r) :
    r.config = config ∧ config.tables.validate = .ok () ∧ config.bulk.validate = .ok () := by
  obtain ⟨hvalid, rfl⟩ := Registry.ofConfig_eq_ok_iff.mp h
  obtain ⟨htables, hbulk, -⟩ := Config.validate_eq_ok_iff.mp hvalid
  exact ⟨rfl, htables, hbulk⟩

/-- The tables of a registry with a valid configuration have different names. -/
theorem name_injective_of_ofConfig {config : Config} {r : Registry}
    (h : Registry.ofConfig config = .ok r) :
    r.config = config ∧ Function.Injective r.config.tables.name := by
  obtain ⟨rfl, htables, -⟩ := validate_of_ofConfig h
  exact ⟨rfl, TableNames.name_injective htables⟩

section valid

variable {r : Registry} (hr : Function.Injective r.config.tables.name)

include hr

/-- The database of a new registry holds nothing. -/
theorem store_empty : (Testbed.ofTables r.config.tables).database = r.store {} := by
  rw [TableNames.database_ofTables hr, Registry.store, Contents.tables_empty]

theorem get?_store (c : Contents) (i : TableId) :
    (r.store c).get? (r.config.tables.name i)
      = some { partition := i.partition, items := c.tables i } :=
  TableNames.get?_database hr c.tables i

theorem get?_store_congr {c d : Contents} {i : TableId} (h : c.tables i = d.tables i) :
    (r.store c).get? (r.config.tables.name i) = (r.store d).get? (r.config.tables.name i) := by
  rw [get?_store hr, get?_store hr, h]

theorem itemCount_retries (c : Contents) :
    (r.store c).itemCount r.config.tables.retries = c.retries.size := by
  have hget : (r.store c).get? r.config.tables.retries
      = some { partition := Row.uuidName, items := c.tables .retries } :=
    get?_store hr c .retries
  simp only [Database.itemCount, hget, Contents.tables, SortedMap.size, SortedMap.toList_rekey,
    List.length_map]

end valid

end Registry

end LoginRegistry
