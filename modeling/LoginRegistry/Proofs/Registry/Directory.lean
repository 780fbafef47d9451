import LoginRegistry.Proofs.Registry.Contents
import LoginRegistry.Proofs.Registry.Runs

/-! # The abstract directory

    What the registry means while nothing fails: a map of accounts by id in which
    no two accounts have one login, the ids of deleted accounts, and the version.
    Each call is a function on it.  There is no second table to keep in step: the
    owner of a login is the account that has it.

    * `Directory.step`: one call.
    * `Directory.contents`: the contents of the tables that stand for a directory.
-/

namespace LoginRegistry

/-- The directory of accounts. -/
structure Directory where
  /-- The accounts by id. -/
  accounts : AccountMap
  /-- A login belongs to one account at most. -/
  unique : ∀ {u v a b}, accounts.get? u = some a → accounts.get? v = some b →
    a.login = b.login → u = v
  /-- The ids of deleted accounts. -/
  tombstones : SortedMap Uuid Unit
  /-- The version that the last change of membership stored. -/
  version : Option Int64

namespace Directory

/-! ### Owners of logins -/

/-- The account with a login. -/
def withLogin? (m : Directory) (login : String) : Option Account :=
  (m.accounts.byUuid.toList.find? fun e => e.2.login = login).map Prod.snd

theorem withLogin?_eq_some_iff (m : Directory) (login : String) (a : Account) :
    m.withLogin? login = some a ↔ m.accounts.get? a.uuid = some a ∧ a.login = login := by
  have hfound : ∀ e, (m.accounts.byUuid.toList.find? fun e => e.2.login = login) = some e →
      m.accounts.get? e.1 = some e.2 ∧ e.2.login = login := by
    intro e he
    have hmem : (e.1, e.2) ∈ m.accounts.byUuid.toList := List.mem_of_find?_eq_some he
    exact ⟨(SortedMap.get?_eq_some_iff _ _ _).mpr hmem, of_decide_eq_true (List.find?_some he :)⟩
  constructor
  · intro h
    obtain ⟨e, he, rfl⟩ := Option.map_eq_some_iff.mp h
    obtain ⟨hget, hlogin⟩ := hfound e he
    exact ⟨by rwa [AccountMap.uuid_eq hget], hlogin⟩
  · rintro ⟨ha, hlogin⟩
    have hmem : (a.uuid, a) ∈ m.accounts.byUuid.toList :=
      (SortedMap.get?_eq_some_iff _ _ _).mp ha
    cases he : m.accounts.byUuid.toList.find? fun e => e.2.login = login with
    | none => exact absurd hlogin (by simpa using List.find?_eq_none.mp he _ hmem)
    | some e =>
      -- Whatever is found has the login too, so it is the account.
      obtain ⟨hget, heq⟩ := hfound e he
      rw [m.unique hget ha (heq.trans hlogin.symm), ha] at hget
      rw [withLogin?, he, Option.map_some, Option.some.inj hget]

/-- The account that has the login of `a` without being `a`. -/
def rival? (m : Directory) (a : Account) : Option Account :=
  (m.withLogin? a.login).filter (·.uuid ≠ a.uuid)

theorem rival?_eq_some_iff (m : Directory) (a b : Account) :
    m.rival? a = some b ↔ m.accounts.get? b.uuid = some b ∧ b.login = a.login ∧ b.uuid ≠ a.uuid := by
  rw [rival?, Option.filter_eq_some_iff, withLogin?_eq_some_iff, decide_eq_true_iff, and_assoc]

/-- Without a rival only the account itself can have its login. -/
theorem eq_uuid_of_rival? {m : Directory} {a b : Account} {u : Uuid} (h : m.rival? a = none)
    (hb : m.accounts.get? u = some b) (hlogin : b.login = a.login) : u = a.uuid := by
  have hu : b.uuid = u := AccountMap.uuid_eq hb
  by_contra hne
  have hrival := (m.rival?_eq_some_iff a b).mpr ⟨by rwa [hu], hlogin, by rwa [hu]⟩
  rw [h] at hrival
  cases hrival

/-! ### Changes -/

/-- No accounts, no tombstones, no version. -/
def empty : Directory where
  accounts := .empty
  unique h := nomatch h
  tombstones := .empty
  version := none

/-- Stores an account that has no rival, and a version. -/
def insert (m : Directory) (a : Account) (h : m.rival? a = none) (version : Int64) : Directory where
  accounts := m.accounts.put a
  unique {u v b₁ b₂} h₁ h₂ heq := by
    rw [AccountMap.get?_put] at h₁ h₂
    split at h₁ <;> split at h₂
    · next hu hv => rw [hu, hv]
    · next hu _ =>
      obtain rfl := Option.some.inj h₁
      exact hu.trans (eq_uuid_of_rival? h h₂ heq.symm).symm
    · next hv =>
      obtain rfl := Option.some.inj h₂
      exact (eq_uuid_of_rival? h h₁ heq).trans hv.symm
    · exact m.unique h₁ h₂ heq
  tombstones := m.tombstones
  version := some version

/-- Gives an account the payload and version of another; its login stays. -/
def revise (m : Directory) (b a : Account) (hb : m.accounts.get? b.uuid = some b) : Directory where
  accounts := m.accounts.put (b.revised a)
  unique {u v b₁ b₂} h₁ h₂ heq := by
    rw [AccountMap.get?_put] at h₁ h₂
    split at h₁ <;> split at h₂
    · next hu hv => rw [hu, hv]
    · next hu _ =>
      obtain rfl := Option.some.inj h₁
      exact hu.trans (m.unique hb h₂ heq)
    · next hv =>
      obtain rfl := Option.some.inj h₂
      exact (m.unique h₁ hb heq).trans hv.symm
    · exact m.unique h₁ h₂ heq
  tombstones := m.tombstones
  version := m.version

/-- Removes an account. -/
def erase (m : Directory) (u : Uuid) : Directory where
  accounts := m.accounts.erase u
  unique h₁ h₂ heq := by
    rw [AccountMap.get?_erase] at h₁ h₂
    split at h₁
    · cases h₁
    · split at h₂
      · cases h₂
      · exact m.unique h₁ h₂ heq
  tombstones := m.tombstones
  version := m.version

/-! ### Calls -/

/-- Creates an account, unless its id has another login or its login another owner.
    Such an owner takes over the payload and version of the account. -/
def create (m : Directory) (a : Account) (version : Int64) :
    Except RegistryError Creation × Directory :=
  if (m.accounts.get? a.uuid).any (·.login ≠ a.login) then (.error (.identifierCollision a.uuid), m)
  else
    match h : m.rival? a with
    | none => (.ok .created, m.insert a h version)
    | some b =>
      (.ok (.updatedOwner b.uuid), m.revise b a ((m.rival?_eq_some_iff a b).mp h).1)

/-- Gives the account of an id another payload and version. -/
def update (m : Directory) (a : Account) : Except RegistryError Unit × Directory :=
  match h : m.accounts.get? a.uuid with
  | none => (.error (.accountNotFound a.uuid), m)
  | some b => (.ok (), m.revise b a (by rwa [AccountMap.uuid_eq h]))

/-- Leaves the tombstone of an account. -/
def bury (m : Directory) (u : Uuid) : Directory :=
  { m with tombstones := m.tombstones.insert u () }

/-- Removes an account, if it is there, and then stores a version, if there is one. -/
def remove (m : Directory) (u : Uuid) (version : Option Int64) : Directory :=
  if (m.accounts.get? u).isSome then { m.erase u with version := version.or m.version } else m

/-- Removes an account; a tombstone is left even if there was none. -/
def delete (m : Directory) (u : Uuid) (options : DeleteOptions) : Directory :=
  (if options.tombstone then m.bury u else m).remove u options.version

/-- What a call returns and leaves. -/
def step (m : Directory) : Call → Except RegistryError Reply × Directory
  | .create a version => ((m.create a version).1.map .creation, (m.create a version).2)
  | .update a => ((m.update a).1.map fun _ => .done, (m.update a).2)
  | .delete u version => (.ok .done, m.delete u (.steady version))
  | .deleteWith u options => (.ok .done, m.delete u options)
  | .getByUuid u => (.ok (.account (m.accounts.get? u)), m)
  | .getByLogin login => (.ok (.account (m.withLogin? login)), m)
  | .directoryVersion => (.ok (.version m.version), m)

/-- What calls return one after the other, and what they leave. -/
def replies (m : Directory) : List Call → List (Except RegistryError Reply) × Directory
  | [] => ([], m)
  | call :: calls =>
    let (results, m') := (m.step call).2.replies calls
    ((m.step call).1 :: results, m')

/-! ### Cases of a call -/

theorem create_of_collision {m : Directory} {a b : Account} (hb : m.accounts.get? a.uuid = some b)
    (hlogin : b.login ≠ a.login) (version : Int64) :
    m.create a version = (.error (.identifierCollision a.uuid), m) := by
  rw [create, hb, Option.any_some, if_pos (decide_eq_true hlogin)]

theorem create_of_rival {m : Directory} {a b : Account}
    (hown : ∀ b, m.accounts.get? a.uuid = some b → b.login = a.login)
    (hrival : m.rival? a = some b) (version : Int64) :
    ∃ hb, m.create a version = (.ok (.updatedOwner b.uuid), m.revise b a hb) := by
  have hfits : ¬ (m.accounts.get? a.uuid).any (·.login ≠ a.login) = true := by
    intro hany
    obtain ⟨b, hb, hne⟩ := (Option.any_eq_true _ _).mp hany
    exact of_decide_eq_true hne (hown b hb)
  rw [create, if_neg hfits]
  split
  · next hnone =>
    rw [hrival] at hnone
    cases hnone
  · next b' hb' =>
    obtain rfl : b = b' := Option.some.inj (hrival.symm.trans hb')
    exact ⟨((m.rival?_eq_some_iff a b).mp hrival).1, rfl⟩

theorem create_of_not_rival {m : Directory} {a : Account}
    (hown : ∀ b, m.accounts.get? a.uuid = some b → b.login = a.login)
    (hrival : m.rival? a = none) (version : Int64) :
    m.create a version = (.ok .created, m.insert a hrival version) := by
  have hfits : ¬ (m.accounts.get? a.uuid).any (·.login ≠ a.login) = true := by
    intro hany
    obtain ⟨b, hb, hne⟩ := (Option.any_eq_true _ _).mp hany
    exact of_decide_eq_true hne (hown b hb)
  rw [create, if_neg hfits]
  split
  · rfl
  · next b hb =>
    rw [hrival] at hb
    cases hb

theorem update_of_get? {m : Directory} {a b : Account} (hb : m.accounts.get? a.uuid = some b) :
    ∃ hb', m.update a = (.ok (), m.revise b a hb') := by
  unfold update
  split
  · next hnone =>
    rw [hb] at hnone
    cases hnone
  · next b' hb' =>
    obtain rfl : b = b' := Option.some.inj (hb.symm.trans hb')
    exact ⟨by rwa [AccountMap.uuid_eq hb], rfl⟩

theorem update_of_none {m : Directory} {a : Account} (h : m.accounts.get? a.uuid = none) :
    m.update a = (.error (.accountNotFound a.uuid), m) := by
  unfold update
  split
  · rfl
  · next b hb =>
    rw [h] at hb
    cases hb

theorem remove_of_none {m : Directory} {u : Uuid} (h : m.accounts.get? u = none)
    (version : Option Int64) : m.remove u version = m := by
  rw [remove, h, Option.isSome_none, if_neg Bool.false_ne_true]

end Directory

end LoginRegistry
