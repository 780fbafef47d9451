import LoginRegistry.Proofs.Registry.Rows
import LoginRegistry.Proofs.Store.Tables

/-! # Lookups in tables

    What the five tables say of an account or a login, whatever rows they hold: rows
    may lack attributes, and the tables may disagree.  The updates are those that the
    registry makes of rows, each with what it changes of the lookups.
-/

namespace LoginRegistry

open Store (AttributeValue Condition Item)

theorem Uuid.bytes_of_ofBytes? {bytes : Bytes} {u : Uuid} (h : ofBytes? bytes = some u) :
    u.bytes = bytes := by
  unfold ofBytes? at h
  split at h
  · rw [← Option.some.inj h]
  · cases h

theorem Store.AttributeValue.eq_bytes_of_bytes? {value : AttributeValue} {bytes : List UInt8}
    (h : value.bytes? = some bytes) : value = .bytes bytes := by
  cases value with
  | bytes b => rw [Option.some.inj h]
  | string | number => cases h

/-- The id in a row is read from its bytes. -/
theorem Row.uuid_eq_ok_iff {row : Item} {u : Uuid} :
    uuid row = .ok u ↔ row.get? uuidName = some (uuidValue u) := by
  constructor
  · intro h
    cases hbytes : (row.get? uuidName).bind (·.bytes?) with
    | none =>
      rw [uuid, hbytes] at h
      cases h
    | some bytes =>
      cases hv : Uuid.ofBytes? bytes with
      | none =>
        simp only [uuid, hbytes, hv] at h
        cases h
      | some v =>
        simp only [uuid, hbytes, hv] at h
        obtain rfl := Except.ok.inj h
        obtain ⟨value, hvalue, hread⟩ := Option.bind_eq_some_iff.mp hbytes
        rw [hvalue, uuidValue, Uuid.bytes_of_ofBytes? hv, AttributeValue.eq_bytes_of_bytes? hread]
  · intro h
    simp only [uuid, h, Option.bind_some, uuidValue, AttributeValue.bytes?, Uuid.ofBytes?_bytes]

/-- A row that does not tell its id is corrupt. -/
theorem Row.exists_fault_of_uuid {row : Item} {e : RegistryError} (h : uuid row = .error e) :
    ∃ fault, e = .corruptAccount fault := by
  unfold uuid at h
  split at h
  · exact ⟨_, (Except.error.inj h).symm⟩
  · split at h
    · cases h
    · exact ⟨_, (Except.error.inj h).symm⟩

namespace Tables

/-! ### Lookups -/

/-- The row of an account. -/
def accountRow? (t : Tables) (u : Uuid) : Option Item := (t .accounts).get? (Row.uuidValue u)

/-- The row of a login. -/
def loginRow? (t : Tables) (login : String) : Option Item := (t .logins).get? (.string login)

/-- The account that a login is bound to. -/
def owner? (t : Tables) (login : String) : Option Uuid :=
  (t.loginRow? login).bind fun row => (Row.uuid row).toOption

/-- The account has a tombstone. -/
def Tombstoned (t : Tables) (u : Uuid) : Prop :=
  ((t .tombstones).get? (Row.uuidValue u)).isSome = true

/-- The login that is recorded with the retry entry of an account. -/
def recorded? (t : Tables) (u : Uuid) : Option String :=
  ((t .retries).get? (Row.uuidValue u)).bind Row.login?

/-- Each row of a table holds its own key. -/
def KeyedAt (t : Tables) (i : TableId) : Prop :=
  ∀ key row, (t i).get? key = some row → row.get? i.partition = some key

/-- Each row holds its own key. -/
def Keyed (t : Tables) : Prop := ∀ i, t.KeyedAt i

variable {t t' : Tables} {login : String} {u v : Uuid}

theorem owner?_eq_some_iff :
    t.owner? login = some u ↔
      ∃ row, t.loginRow? login = some row ∧ row.get? Row.uuidName = some (Row.uuidValue u) := by
  rw [owner?, Option.bind_eq_some_iff]
  refine exists_congr fun row => and_congr_right fun _ => ?_
  rw [← Row.uuid_eq_ok_iff]
  cases Row.uuid row with
  | ok v => exact ⟨fun h => congrArg _ (Option.some.inj h), fun h => congrArg _ (Except.ok.inj h)⟩
  | error e => exact ⟨nofun, nofun⟩

theorem owner?_of_loginRow?_eq_none (h : t.loginRow? login = none) : t.owner? login = none := by
  rw [owner?, h]
  rfl

theorem accountRow?_congr (h : t' .accounts = t .accounts) (u : Uuid) :
    t'.accountRow? u = t.accountRow? u := by
  rw [accountRow?, h]
  rfl

theorem KeyedAt.congr {i : TableId} (h : t.KeyedAt i) (hi : t' i = t i) : t'.KeyedAt i := by
  intro key row
  rw [hi]
  exact h key row

/-- The lookups of logins see the login index only. -/
theorem loginRow?_congr (h : t' .logins = t .logins) (login : String) :
    t'.loginRow? login = t.loginRow? login := by
  rw [loginRow?, h]
  rfl

theorem owner?_congr (h : t' .logins = t .logins) (login : String) :
    t'.owner? login = t.owner? login := by
  rw [owner?, loginRow?_congr h]
  rfl

theorem tombstoned_congr (h : t' .tombstones = t .tombstones) (u : Uuid) :
    t'.Tombstoned u ↔ t.Tombstoned u := by
  rw [Tombstoned, h]
  rfl

theorem not_tombstoned_of_empty (h : t .tombstones = .empty) (u : Uuid) : ¬ t.Tombstoned u := by
  rw [Tombstoned, h, SortedMap.get?_empty]
  exact nofun

/-! ### Conditions on logins -/

/-- A login passes if it is the account's. -/
theorem permits_owner (t : Tables) (login : String) (u : Uuid) :
    Condition.permits (some (.equals Row.uuidName (Row.uuidValue u))) (t.loginRow? login)
      = decide (t.owner? login = some u) := by
  rw [Bool.eq_iff_iff, decide_eq_true_iff, owner?_eq_some_iff]
  simp only [Condition.permits, Option.all_some, Condition.holds, Store.attribute?, beq_iff_eq,
    Option.bind_eq_some_iff]

/-- Among rows that hold their keys a login passes if it is free or the account's. -/
theorem permits_claim (h : t.KeyedAt .logins) (login : String) (u : Uuid) :
    Condition.permits (some (.or (.absent Row.loginName) (.equals Row.uuidName (Row.uuidValue u))))
      (t.loginRow? login) = decide (t.loginRow? login = none ∨ t.owner? login = some u) := by
  cases hrow : t.loginRow? login with
  | none => simp only [Condition.permits, Option.all_some, Condition.holds, Store.attribute?,
      Option.bind_none, Option.isNone_none, Bool.true_or, true_or, decide_true]
  | some row =>
    have hkey : row.get? Row.loginName = some (.string login) := h _ row hrow
    rw [Bool.eq_iff_iff, decide_eq_true_iff, owner?_eq_some_iff]
    simp only [Condition.permits, Option.all_some, Condition.holds, Store.attribute?,
      Option.bind_some, hkey, Option.isNone_some, Bool.false_or, beq_iff_eq, reduceCtorEq, false_or,
      hrow, Option.some.injEq, exists_eq_left']

/-! ### Updates -/

/-- Removes the row of an account. -/
def eraseAccount (t : Tables) (u : Uuid) : Tables :=
  t.set .accounts ((t .accounts).erase (Row.uuidValue u))

/-- Frees a login. -/
def freeLogin (t : Tables) (login : String) : Tables :=
  t.set .logins ((t .logins).erase (.string login))

/-- Frees a login if it is bound to an account. -/
def release (t : Tables) (login : String) (u : Uuid) : Tables :=
  if t.owner? login = some u then t.freeLogin login else t

/-- Binds a login to an account. -/
def bindLogin (t : Tables) (login : String) (u : Uuid) : Tables :=
  t.set .logins ((t .logins).insert (.string login) (Row.ofLogin login u))

/-- Leaves the tombstone of an account. -/
def bury (t : Tables) (u : Uuid) : Tables :=
  t.set .tombstones ((t .tombstones).insert (Row.uuidValue u) (Row.uuidKey u))

/-- Removes the tombstones of some accounts. -/
def unbury (t : Tables) (us : List Uuid) : Tables :=
  t.set .tombstones (us.foldl (fun rows u => rows.erase (Row.uuidValue u)) (t .tombstones))

/-- Stores the directory version. -/
def setVersion (t : Tables) (version : Int64) : Tables :=
  t.set .misc ((t .misc).insert (.string "directory_version") (Row.ofVersion version))

theorem accountRow?_eraseAccount :
    (t.eraseAccount u).accountRow? v = if v = u then none else t.accountRow? v := by
  rw [accountRow?, eraseAccount, set_self, SortedMap.get?_erase_eq]
  simp only [Row.uuidValue_inj]
  rfl

theorem loginRow?_freeLogin {l : String} :
    (t.freeLogin login).loginRow? l = if l = login then none else t.loginRow? l := by
  rw [loginRow?, freeLogin, set_self, SortedMap.get?_erase_eq]
  simp only [AttributeValue.string.injEq]
  rfl

theorem loginRow?_bindLogin {l : String} :
    (t.bindLogin login u).loginRow? l
      = if l = login then some (Row.ofLogin login u) else t.loginRow? l := by
  rw [loginRow?, bindLogin, set_self, SortedMap.get?_insert_eq]
  simp only [AttributeValue.string.injEq]
  rfl

theorem owner?_bindLogin {l : String} :
    (t.bindLogin login u).owner? l = if l = login then some u else t.owner? l := by
  rw [owner?, loginRow?_bindLogin]
  split
  · rw [Option.bind_some, Row.read_ofLogin]
    rfl
  · rfl

theorem KeyedAt.bindLogin (h : t.KeyedAt .logins) : (t.bindLogin login u).KeyedAt .logins := by
  intro key row hrow
  rw [Tables.bindLogin, set_self, SortedMap.get?_insert_eq] at hrow
  split at hrow
  · next hkey =>
    obtain rfl := Option.some.inj hrow
    rw [hkey]
    exact Row.login_ofLogin login u
  · exact h key row hrow

/-- A release takes the row of the login if it is the account's, and no other. -/
theorem loginRow?_release {l : String} :
    (t.release login u).loginRow? l
      = if l = login ∧ t.owner? login = some u then none else t.loginRow? l := by
  unfold release
  split
  · next h => simp only [loginRow?_freeLogin, h, and_true]
  · next h => simp only [h, and_false, if_false]

/-- A release changes the login index only. -/
theorem release_ne {i : TableId} (hi : i ≠ .logins) : t.release login u i = t i := by
  unfold release
  split
  · exact set_ne t hi _
  · rfl

theorem owner?_release {l : String} :
    (t.release login u).owner? l
      = if l = login ∧ t.owner? login = some u then none else t.owner? l := by
  rw [owner?, loginRow?_release]
  split
  · rfl
  · rfl

/-- A release takes one login, and from one account only. -/
theorem owner?_release_eq_some_iff {l : String} :
    (t.release login u).owner? l = some v ↔ t.owner? l = some v ∧ (l = login → v ≠ u) := by
  rw [owner?_release]
  split
  · next h =>
    refine iff_of_false nofun fun ⟨howner, hne⟩ => hne h.1 ?_
    rw [h.1, h.2] at howner
    exact (Option.some.inj howner).symm
  · next h =>
    refine (and_iff_left_of_imp fun howner hl hv => h ⟨hl, ?_⟩).symm
    rw [← hl, howner, hv]

theorem tombstoned_bury : (t.bury u).Tombstoned v ↔ v = u ∨ t.Tombstoned v := by
  rw [Tombstoned, bury, set_self, SortedMap.get?_insert_eq]
  simp only [Row.uuidValue_inj]
  split
  · next h => simp only [Option.isSome_some, h, true_or]
  · next h => simp only [h, false_or, Tombstoned]

/-- Ids that are the first keys of the tombstones have one. -/
theorem tombstoned_of_map_eq {us : List Uuid} {count : Nat}
    (hkeys : us.map Row.uuidValue = (t .tombstones).keys.take count) (hu : u ∈ us) :
    t.Tombstoned u := by
  have hkey : Row.uuidValue u ∈ (t .tombstones).keys.take count := hkeys ▸ List.mem_map_of_mem hu
  exact (SortedMap.mem_keys_iff _ _).mp (List.mem_of_mem_take hkey)

theorem KeyedAt.bury (h : t.KeyedAt .tombstones) : (t.bury u).KeyedAt .tombstones := by
  intro key row hrow
  rw [Tables.bury, set_self, SortedMap.get?_insert_eq] at hrow
  split at hrow
  · next hkey =>
    obtain rfl := Option.some.inj hrow
    rw [hkey]
    exact Row.uuid_uuidKey u
  · exact h key row hrow

theorem get?_unbury {us : List Uuid} {key : AttributeValue} :
    ((t.unbury us) .tombstones).get? key
      = if key ∈ us.map Row.uuidValue then none else (t .tombstones).get? key := by
  rw [unbury, set_self, ← SortedMap.get?_foldl_erase, List.foldl_map]

theorem KeyedAt.unbury (h : t.KeyedAt .tombstones) (us : List Uuid) :
    (t.unbury us).KeyedAt .tombstones := by
  intro key row hrow
  rw [get?_unbury] at hrow
  split at hrow
  · cases hrow
  · exact h key row hrow

theorem tombstoned_unbury {us : List Uuid} :
    (t.unbury us).Tombstoned v ↔ t.Tombstoned v ∧ v ∉ us := by
  have hmem : Row.uuidValue v ∈ us.map Row.uuidValue ↔ v ∈ us :=
    List.mem_map_of_injective fun u w => Row.uuidValue_inj.mp
  rw [Tombstoned, get?_unbury]
  split
  · next h => exact ⟨nofun, fun hv => absurd (hmem.mp h) hv.2⟩
  · next h => exact ⟨fun hv => ⟨hv, mt hmem.mpr h⟩, And.left⟩

/-- A drain changes the tombstones only. -/
theorem unbury_ne {us : List Uuid} {i : TableId} (hi : i ≠ .tombstones) : t.unbury us i = t i :=
  set_ne t hi _

theorem unbury_nil : t.unbury [] = t := by
  funext i
  by_cases hi : i = .tombstones
  · rw [hi, unbury, set_self, List.foldl_nil]
  · exact unbury_ne hi

theorem unbury_append (us vs : List Uuid) : (t.unbury us).unbury vs = t.unbury (us ++ vs) := by
  funext i
  by_cases hi : i = .tombstones
  · rw [hi]
    simp only [unbury, set_self, List.foldl_append]
  · simp only [unbury, set_ne _ hi]

end Tables

end LoginRegistry
