import LoginRegistry.Proofs.Payload
import LoginRegistry.Proofs.SortedMap
import LoginRegistry.Proofs.Text.Decimal
import LoginRegistry.Registry.Basic
import Mathlib.Logic.Function.Basic

/-! # Reading back rows

    The rows that a registry writes: the attributes that conditions look at, and
    the value that is read back from each.
-/

namespace LoginRegistry

open Store (AttributeValue Item)

namespace Row

theorem uuidValue_inj {u v : Uuid} : uuidValue u = uuidValue v ↔ u = v := by
  rw [uuidValue, uuidValue, AttributeValue.bytes.injEq, Uuid.mk.injEq]

/-! ### Accounts -/

/-- The attributes of an account row. -/
theorem get?_ofAccount (a : Account) (name : String) :
    (ofAccount a).get? name
      = if name = visibilityName then some (.string "default")
        else if name = versionName then some (.number a.migrationVersion.toInt64)
        else if name = dataName then some (.bytes (Payload.encode a.body))
        else if name = loginName then some (.string a.login)
        else if name = uuidName then some (uuidValue a.uuid)
        else none := by
  simp only [ofAccount, SortedMap.ofList, List.foldl_cons, List.foldl_nil,
    SortedMap.get?_insert_eq, SortedMap.get?_empty]

@[simp] theorem uuid_ofAccount (a : Account) :
    (ofAccount a).get? uuidName = some (uuidValue a.uuid) := by
  rw [get?_ofAccount]
  rfl

@[simp] theorem login_ofAccount (a : Account) :
    (ofAccount a).get? loginName = some (.string a.login) := by
  rw [get?_ofAccount]
  rfl

@[simp] theorem data_ofAccount (a : Account) :
    (ofAccount a).get? dataName = some (.bytes (Payload.encode a.body)) := by
  rw [get?_ofAccount]
  rfl

@[simp] theorem version_ofAccount (a : Account) :
    (ofAccount a).get? versionName = some (.number a.migrationVersion.toInt64) := by
  rw [get?_ofAccount]
  rfl

theorem version?_ofAccount (a : Account) : version? (ofAccount a) = some a.migrationVersion := by
  have hrange : Int32.minValue.toInt ≤ a.migrationVersion.toInt64.toInt ∧
      a.migrationVersion.toInt64.toInt ≤ Int32.maxValue.toInt := by
    rw [Int32.toInt_toInt64]
    exact ⟨a.migrationVersion.minValue_le_toInt, a.migrationVersion.toInt_le⟩
  simp only [version?, version_ofAccount, if_pos hrange, Int32.toInt32_toInt64]

/-- The row of an account is read back as that account. -/
theorem account_ofAccount (a : Account) : account (ofAccount a) = .ok a := by
  have huuid : uuid (ofAccount a) = .ok a.uuid := by
    simp only [uuid, uuid_ofAccount, Option.bind_some, uuidValue, AttributeValue.bytes?,
      Uuid.ofBytes?_bytes]
  have hlogin : login? (ofAccount a) = some a.login := by
    simp only [login?, login_ofAccount, Option.bind_some, AttributeValue.string?]
  simp only [account, huuid, hlogin, data_ofAccount, Option.bind_some, AttributeValue.bytes?,
    version?_ofAccount, Payload.decode_encode]
  rfl

/-- What is stored is read back.  This goes for any devices and any texts in the body of an
    account, and for any id, login and version. -/
theorem stored_accounts_are_read_back :
    (∀ b : AccountBody, Payload.decode (Payload.encode b) = .ok b) ∧
      ∀ a : Account, account (ofAccount a) = .ok a :=
  ⟨Payload.decode_encode, account_ofAccount⟩

theorem ofAccount_injective : Function.Injective ofAccount := by
  intro a b h
  have hread := account_ofAccount a
  rw [h, account_ofAccount] at hread
  exact (Except.ok.inj hread).symm

theorem toList_changes (a : Account) :
    (changes a).toList = [(dataName, .bytes (Payload.encode a.body)),
      (versionName, .number a.migrationVersion.toInt64)] := by
  have hcompare : compare versionName dataName = .gt := by decide
  simp only [changes, SortedMap.ofList, List.foldl_cons, List.foldl_nil, SortedMap.insert,
    SortedMap.toList_empty, SortedMap.insertEntry, hcompare]

/-- Changing payload and version of a row gives the row of the changed account. -/
theorem union_changes (a b : Account) :
    (ofAccount b).union (changes a)
      = ofAccount { b with migrationVersion := a.migrationVersion, body := a.body } := by
  apply SortedMap.ext_get?
  intro name
  rw [SortedMap.union, toList_changes]
  simp only [List.foldl_cons, List.foldl_nil, SortedMap.get?_insert_eq, get?_ofAccount]
  by_cases hversion : name = versionName
  · rw [if_pos hversion, hversion, if_neg (by decide), if_pos rfl]
  by_cases hdata : name = dataName
  · rw [if_neg hversion, if_pos hdata, hdata, if_neg (by decide), if_neg (by decide), if_pos rfl]
  simp only [if_neg hversion, if_neg hdata]

/-! ### Logins -/

@[simp] theorem login_ofLogin (login : String) (u : Uuid) :
    (ofLogin login u).get? loginName = some (.string login) := by
  rw [ofLogin, loginKey, Item.key, SortedMap.get?_insert_eq, SortedMap.get?_single]
  rfl

@[simp] theorem uuid_ofLogin (login : String) (u : Uuid) :
    (ofLogin login u).get? uuidName = some (uuidValue u) := by
  rw [ofLogin, SortedMap.get?_insert_self]

/-- The owner of a login is read back. -/
theorem read_ofLogin (login : String) (u : Uuid) : uuid (ofLogin login u) = .ok u := by
  simp only [uuid, uuid_ofLogin, Option.bind_some, uuidValue, AttributeValue.bytes?,
    Uuid.ofBytes?_bytes]

theorem ofLogin_injective (login : String) : Function.Injective (ofLogin login) := by
  intro u v h
  have hread := read_ofLogin login u
  rw [h, read_ofLogin] at hread
  exact (Except.ok.inj hread).symm

@[simp] theorem login_loginKey (login : String) :
    (loginKey login).get? loginName = some (.string login) := by
  rw [loginKey, Item.key, SortedMap.get?_single]
  rfl

/-! ### Queue entries -/

@[simp] theorem uuid_uuidKey (u : Uuid) : (uuidKey u).get? uuidName = some (uuidValue u) := by
  rw [uuidKey, Item.key, SortedMap.get?_single]
  rfl

theorem uuidKey_inj {u v : Uuid} : uuidKey u = uuidKey v ↔ u = v := by
  constructor
  · intro h
    have hvalue := uuid_uuidKey u
    rw [h, uuid_uuidKey] at hvalue
    exact (uuidValue_inj.mp (Option.some.inj hvalue)).symm
  · exact congrArg uuidKey

@[simp] theorem uuid_ofRetry (u : Uuid) (login : String) :
    (ofRetry u login).get? uuidName = some (uuidValue u) := by
  rw [ofRetry, SortedMap.get?_insert_eq, uuid_uuidKey]
  rfl

/-- The login recorded with a retry entry is read back. -/
theorem login?_ofRetry (u : Uuid) (login : String) : login? (ofRetry u login) = some login := by
  rw [login?, ofRetry, SortedMap.get?_insert_self]
  rfl

theorem ofRetry_injective (u : Uuid) : Function.Injective (ofRetry u) := by
  intro l m h
  have hread := login?_ofRetry u l
  rw [h, login?_ofRetry] at hread
  exact (Option.some.inj hread).symm

/-! ### The directory version -/

/-- The row of a directory version. -/
def ofVersion (version : Int64) : Item :=
  versionKey.insert parameterValue (.string (Text.writeInt64 version))

@[simp] theorem parameter_versionKey :
    versionKey.get? parameterName = some (.string "directory_version") := by
  rw [versionKey, Item.key, SortedMap.get?_single]
  rfl

@[simp] theorem parameter_ofVersion (version : Int64) :
    (ofVersion version).get? parameterName = some (.string "directory_version") := by
  rw [ofVersion, SortedMap.get?_insert_eq, parameter_versionKey]
  rfl

/-- A stored directory version is read back. -/
theorem read_ofVersion (version : Int64) :
    VersionCounter.read ((ofVersion version).get? parameterValue) = .ok version := by
  rw [ofVersion, SortedMap.get?_insert_self]
  simp only [VersionCounter.read, Text.readInt64?_writeInt64]

theorem ofVersion_injective : Function.Injective ofVersion := by
  intro v w h
  have hread := read_ofVersion v
  rw [h, read_ofVersion] at hread
  exact (Except.ok.inj hread).symm

end Row

end LoginRegistry
