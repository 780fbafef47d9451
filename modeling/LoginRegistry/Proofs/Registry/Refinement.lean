import LoginRegistry.Proofs.Registry.Directory
import LoginRegistry.Proofs.Registry.Operations

/-! # The registry refines the directory

    While nothing fails, the registry answers as the abstract directory does, and
    its tables hold exactly the contents that stand for it (`replies_store`).  The
    login table is the second place that says who has a login; `Directory.loginMap`
    derives it from the accounts, and each change of the directory is one change of
    it.
-/

namespace LoginRegistry

open Store (Database)

namespace Directory

/-! ### The login table -/

/-- The owner of each login. -/
def loginMap (m : Directory) : SortedMap String Uuid :=
  .ofList (m.accounts.byUuid.toList.map fun e => (e.2.login, e.1))

theorem get?_loginMap_eq_some_iff (m : Directory) (login : String) (u : Uuid) :
    m.loginMap.get? login = some u ↔ ∃ a, m.accounts.get? u = some a ∧ a.login = login := by
  have hfound : ∀ v, m.loginMap.get? login = some v →
      ∃ a, m.accounts.get? v = some a ∧ a.login = login := by
    intro v hv
    obtain ⟨e, he, heq⟩ := List.mem_map.mp (SortedMap.mem_of_get?_ofList hv)
    obtain ⟨rfl, rfl⟩ := Prod.mk.inj heq
    exact ⟨e.2, (SortedMap.get?_eq_some_iff _ _ _).mpr he, rfl⟩
  constructor
  · exact hfound u
  · rintro ⟨a, ha, hlogin⟩
    have hmem : (login, u) ∈ m.accounts.byUuid.toList.map fun e => (e.2.login, e.1) :=
      List.mem_map.mpr ⟨(u, a), (SortedMap.get?_eq_some_iff _ _ _).mp ha, by rw [hlogin]⟩
    obtain ⟨v, hv⟩ := Option.isSome_iff_exists.mp (SortedMap.isSome_get?_ofList hmem)
    obtain ⟨b, hb, hlogin'⟩ := hfound v hv
    rw [m.unique ha hb (hlogin.trans hlogin'.symm)]
    exact hv

/-- A login map is determined by the accounts that have each login. -/
theorem loginMap_eq {m : Directory} {logins : SortedMap String Uuid}
    (h : ∀ login u, logins.get? login = some u ↔
      ∃ a, m.accounts.get? u = some a ∧ a.login = login) : m.loginMap = logins :=
  SortedMap.ext_get? fun login => Option.ext fun u =>
    (m.get?_loginMap_eq_some_iff login u).trans (h login u).symm

/-- An account that has no rival and does not change its login takes its login. -/
theorem loginMap_insert {m : Directory} {a : Account} (h : m.rival? a = none)
    (hown : ∀ b, m.accounts.get? a.uuid = some b → b.login = a.login) (version : Int64) :
    (m.insert a h version).loginMap = m.loginMap.insert a.login a.uuid := by
  refine loginMap_eq fun login u => ?_
  have haccounts : (m.insert a h version).accounts.get? u
      = if u = a.uuid then some a else m.accounts.get? u := AccountMap.get?_put _ _ _
  rw [SortedMap.get?_insert_eq, haccounts]
  by_cases hlogin : login = a.login
  · -- Nobody else has the login, since there is no rival.
    rw [if_pos hlogin, hlogin]
    constructor
    · intro hu
      exact ⟨a, by rw [if_pos (Option.some.inj hu).symm], rfl⟩
    · rintro ⟨b, hb, hbl⟩
      split at hb
      · next hu => rw [hu]
      · rw [eq_uuid_of_rival? h hb hbl]
  · -- Whoever has another login is another account, since the account keeps its login.
    rw [if_neg hlogin, get?_loginMap_eq_some_iff]
    constructor
    · rintro ⟨b, hb, rfl⟩
      have hu : u ≠ a.uuid := by
        rintro rfl
        exact hlogin (hown b hb)
      exact ⟨b, by rwa [if_neg hu], rfl⟩
    · rintro ⟨b, hb, rfl⟩
      split at hb
      · rw [Option.some.inj hb] at hlogin
        exact absurd rfl hlogin
      · exact ⟨b, hb, rfl⟩

theorem loginMap_revise {m : Directory} {b : Account} (a : Account)
    (hb : m.accounts.get? b.uuid = some b) : (m.revise b a hb).loginMap = m.loginMap := by
  refine loginMap_eq fun login u => ?_
  have haccounts : (m.revise b a hb).accounts.get? u
      = if u = b.uuid then some (b.revised a) else m.accounts.get? u := AccountMap.get?_put _ _ _
  rw [get?_loginMap_eq_some_iff, haccounts]
  constructor
  · rintro ⟨b', hb', rfl⟩
    split
    · next hu =>
      rw [hu, hb] at hb'
      exact ⟨_, rfl, by rw [← Option.some.inj hb']; rfl⟩
    · exact ⟨b', hb', rfl⟩
  · rintro ⟨b', hb', rfl⟩
    split at hb'
    · next hu => exact ⟨b, by rw [hu, hb], by rw [← Option.some.inj hb']; rfl⟩
    · exact ⟨b', hb', rfl⟩

theorem loginMap_erase {m : Directory} {u : Uuid} {a : Account} (h : m.accounts.get? u = some a) :
    (m.erase u).loginMap = m.loginMap.erase a.login := by
  refine loginMap_eq fun login v => ?_
  have haccounts : (m.erase u).accounts.get? v = if v = u then none else m.accounts.get? v :=
    AccountMap.get?_erase _ _ _
  rw [SortedMap.get?_erase_eq, haccounts]
  constructor
  · intro hget
    split at hget
    · cases hget
    · next hlogin =>
      obtain ⟨b, hb, rfl⟩ := (m.get?_loginMap_eq_some_iff login v).mp hget
      have hv : v ≠ u := by
        rintro rfl
        rw [h] at hb
        exact hlogin (by rw [Option.some.inj hb])
      exact ⟨b, by rwa [if_neg hv], rfl⟩
  · rintro ⟨b, hb, rfl⟩
    split at hb
    · cases hb
    · next hv =>
      have hlogin : b.login ≠ a.login := fun heq => hv (m.unique hb h heq)
      rw [if_neg hlogin]
      exact (m.get?_loginMap_eq_some_iff _ v).mpr ⟨b, hb, rfl⟩

/-! ### Contents -/

/-- What the tables hold for a directory. -/
def contents (m : Directory) : Contents where
  accounts := m.accounts
  logins := m.loginMap
  version := m.version
  tombstones := m.tombstones

theorem contents_empty : empty.contents = {} := by
  rw [contents, show empty.loginMap = .empty from rfl]
  rfl

theorem contents_insert {m : Directory} {a : Account} (h : m.rival? a = none)
    (hown : ∀ b, m.accounts.get? a.uuid = some b → b.login = a.login) (version : Int64) :
    (m.insert a h version).contents
      = ((m.contents.putAccount a).bindLogin a.login a.uuid).setVersion version := by
  rw [contents, loginMap_insert h hown]
  rfl

theorem contents_revise {m : Directory} {b : Account} (a : Account)
    (hb : m.accounts.get? b.uuid = some b) :
    (m.revise b a hb).contents = m.contents.putAccount (b.revised a) := by
  rw [contents, loginMap_revise]
  rfl

theorem contents_remove {m : Directory} {u : Uuid} {a : Account} (h : m.accounts.get? u = some a)
    (version : Option Int64) :
    (m.remove u version).contents
      = ((m.contents.release a.login u).eraseAccount u).setVersion? version := by
  have hbound : m.contents.logins.get? a.login = some u :=
    (m.get?_loginMap_eq_some_iff _ _).mpr ⟨a, h, rfl⟩
  have hmap := loginMap_erase h
  rw [remove, h, Option.isSome_some, if_pos rfl, Contents.release, if_pos hbound]
  cases version with
  | none =>
    change ({ (m.erase u).contents with version := m.version } : Contents) = _
    rw [contents, hmap]
    rfl
  | some version =>
    change ({ (m.erase u).contents with version := some version } : Contents) = _
    rw [contents, hmap]
    rfl

end Directory

/-! ### One call -/

namespace Registry

/-- An action that nothing befalls returns what the directory returns and leaves the
    contents of the directory after it. -/
def Matches (r : Registry) (m : Directory) (a : Action α)
    (next : Except RegistryError α × Directory) : Prop :=
  r.Leads (fun _ _ => false) a m.contents
    (fun v c' => next.1 = .ok v ∧ c' = next.2.contents)
    (fun o c' => (∃ e, o = some e ∧ next.1 = .error e) ∧ c' = next.2.contents)

variable {r : Registry} (hr : Function.Injective r.config.tables.name)

include hr

theorem matches_update (m : Directory) (a : Account) : r.Matches m (r.update a) (m.update a) := by
  refine leads_timed (leads_accounts_update hr ?_ ?_ nofun)
  · intro b hb
    obtain ⟨hb', hupdate⟩ := Directory.update_of_get? hb
    rw [hupdate, Directory.contents_revise]
    exact ⟨rfl, rfl⟩
  · intro hnone
    rw [Directory.update_of_none hnone]
    exact ⟨⟨_, rfl, rfl⟩, rfl⟩

theorem matches_create (m : Directory) (a : Account) (version : Int64) :
    r.Matches m (r.create a version) (m.create a version) := by
  refine leads_create hr ?_ ?_ ?_ ?_ nofun
  · intro b hb hlogin
    rw [Directory.create_of_collision hb hlogin]
    exact ⟨⟨_, rfl, rfl⟩, rfl⟩
  · -- A rival would have the login bound to it.
    intro hown hfree
    have hrival : m.rival? a = none := by
      rw [Option.eq_none_iff_forall_ne_some]
      intro b hb
      obtain ⟨hget, hlogin, hne⟩ := (m.rival?_eq_some_iff a b).mp hb
      exact hne (hfree _ ((m.get?_loginMap_eq_some_iff _ _).mpr ⟨b, hget, hlogin⟩))
    rw [Directory.create_of_not_rival hown hrival, Directory.contents_insert hrival hown]
    exact ⟨rfl, rfl⟩
  · intro hown v hv hne b hb
    obtain ⟨b', hb', hlogin⟩ := (m.get?_loginMap_eq_some_iff _ _).mp hv
    obtain rfl : b = b' := Option.some.inj (hb.symm.trans hb')
    have huuid : b.uuid = v := AccountMap.uuid_eq hb
    have hrival : m.rival? a = some b :=
      (m.rival?_eq_some_iff a b).mpr ⟨by rwa [huuid], hlogin, by rwa [huuid]⟩
    -- The account itself cannot be there, since the login is another's.
    have hnew : m.accounts.get? a.uuid = none := by
      rw [Option.eq_none_iff_forall_ne_some]
      intro b' hb'
      exact hne (m.unique hb hb' (hlogin.trans (hown b' hb').symm))
    obtain ⟨hrow, hcreate⟩ := Directory.create_of_rival hown hrival version
    have hback : (m.contents.putAccount a).eraseAccount a.uuid = m.contents :=
      Contents.eraseAccount_putAccount hnew
    rw [hcreate, huuid, hback, Directory.contents_revise]
    exact ⟨rfl, rfl⟩
  · -- A directory binds no login without an account.
    intro _ v hv _ hnone
    obtain ⟨b, hb, -⟩ := (m.get?_loginMap_eq_some_iff _ _).mp hv
    exact absurd (hb.symm.trans hnone) nofun

theorem matches_deleteWith (m : Directory) (u : Uuid) (options : DeleteOptions) :
    r.Matches m (r.deleteWith u options) (.ok (), m.delete u options) := by
  have hstart : (if options.tombstone then m.bury u else m).contents
      = if options.tombstone then m.contents.bury u else m.contents := by
    split <;> rfl
  refine leads_deleteWith hr hstart ?_ ?_ nofun nofun
  · intro hnone
    refine ⟨rfl, ?_⟩
    rw [Directory.delete, Directory.remove_of_none hnone]
    rfl
  · intro a ha
    refine ⟨rfl, ?_⟩
    rw [Directory.delete, Directory.contents_remove ha]

theorem matches_getByLogin (m : Directory) (login : String) :
    r.Matches m (r.getByLogin login) (.ok (m.withLogin? login), m) := by
  have hfound : (m.loginMap.get? login).bind m.accounts.get? = m.withLogin? login := by
    refine Option.ext fun a => ?_
    rw [Option.bind_eq_some_iff, Directory.withLogin?_eq_some_iff]
    constructor
    · rintro ⟨u, hu, ha⟩
      obtain ⟨b, hb, hlogin⟩ := (m.get?_loginMap_eq_some_iff _ _).mp hu
      obtain rfl : a = b := Option.some.inj (ha.symm.trans hb)
      exact ⟨by rwa [AccountMap.uuid_eq ha], hlogin⟩
    · rintro ⟨ha, hlogin⟩
      exact ⟨a.uuid, (m.get?_loginMap_eq_some_iff _ _).mpr ⟨a, ha, hlogin⟩, ha⟩
  exact leads_getByLogin hr ⟨congrArg Except.ok hfound.symm, rfl⟩ nofun

omit hr in
theorem Matches.map {m : Directory} {a : Action α} {next : Except RegistryError α × Directory}
    (h : r.Matches m a next) (f : α → β) : r.Matches m (f <$> a) (next.1.map f, next.2) := by
  refine leads_map (Leads.mono h ?_ ?_)
  · rintro v c' ⟨hv, hc⟩
    rw [hv]
    exact ⟨rfl, hc⟩
  · rintro o c' ⟨⟨e, ho, he⟩, hc⟩
    rw [he]
    exact ⟨⟨e, ho, rfl⟩, hc⟩

/-- A call that nothing befalls returns and leaves what the directory says. -/
theorem matches_perform (m : Directory) (call : Call) :
    r.Matches m (r.perform call) (m.step call) := by
  cases call with
  | create a version => exact (matches_create hr m a version).map _
  | update a => exact (matches_update hr m a).map _
  | delete u version => exact (matches_deleteWith hr m u _).map _
  | deleteWith u options => exact (matches_deleteWith hr m u options).map _
  | getByUuid u =>
    have hget : r.Matches m (r.getByUuid u) (.ok (m.accounts.get? u), m) :=
      leads_timed (leads_accounts_get hr ⟨rfl, rfl⟩ nofun)
    exact hget.map _
  | getByLogin login => exact (matches_getByLogin hr m login).map _
  | directoryVersion =>
    have hget : r.Matches m r.directoryVersion (.ok m.version, m) :=
      leads_counter_get hr ⟨rfl, rfl⟩ nofun
    exact hget.map _

/-! ### Runs -/

omit hr in
theorem Matches.run {m : Directory} {a : Action α} {next : Except RegistryError α × Directory}
    (h : r.Matches m a next) :
    (a.run.run Database.handler (r.store m.contents)).result = some next.1 ∧
      (a.run.run Database.handler (r.store m.contents)).state = r.store next.2.contents := by
  obtain ⟨c', hstate, hresult⟩ := Ends.run_calm h
  rw [hstate]
  revert hresult
  cases (a.run.run Database.handler (r.store m.contents)).result with
  | none =>
    rintro ⟨⟨e, he, -⟩, -⟩
    cases he
  | some o =>
    cases o with
    | ok v =>
      rintro ⟨hv, hc⟩
      rw [hv, hc]
      exact ⟨rfl, rfl⟩
    | error e =>
      rintro ⟨⟨e', he, hnext⟩, hc⟩
      rw [hnext, hc, Option.some.inj he]
      exact ⟨rfl, rfl⟩

/-- Calls return what the directory returns, and the database stays that of the
    directory. -/
theorem replies_store (m : Directory) (calls : List Call) :
    r.replies calls (r.store m.contents)
      = ((m.replies calls).1.map some, r.store (m.replies calls).2.contents) := by
  induction calls generalizing m with
  | nil => rfl
  | cons call calls ih =>
    obtain ⟨hresult, hstate⟩ := (matches_perform hr m call).run
    simp only [replies, Directory.replies, hresult, hstate, ih, List.map_cons]

end Registry

/-! ### Fresh registries -/

namespace Registry

/-- On a fresh registry every run of calls returns what the abstract directory
    returns, and leaves in the five tables exactly the contents of the directory:
    a row for each account, a login row for each account's login, a tombstone for
    each deleted id, the version, and no retry entry. -/
theorem replies_refine_directory {config : Config} {r : Registry} (h : ofConfig config = .ok r)
    (calls : List Call) :
    r.replies calls (Testbed.ofTables config.tables).database
      = ((Directory.empty.replies calls).1.map some,
        r.store (Directory.empty.replies calls).2.contents) := by
  obtain ⟨rfl, hr⟩ := name_injective_of_ofConfig h
  rw [store_empty hr, ← Directory.contents_empty]
  exact replies_store hr Directory.empty calls

/-- An account that is created and found by its login, with the default configuration. -/
theorem replies_refine_directory_default :
    Registry.ofConfig {} = .ok ⟨{}⟩ ∧
      (⟨{}⟩ : Registry).replies
          [.create ⟨⟨.replicate 16 1, rfl⟩, "+1", 0, {}⟩ 1, .getByLogin "+1"]
          (Testbed.ofTables ({} : Config).tables).database
        = ((Directory.empty.replies
            [.create ⟨⟨.replicate 16 1, rfl⟩, "+1", 0, {}⟩ 1, .getByLogin "+1"]).1.map some,
          (⟨{}⟩ : Registry).store (Directory.empty.replies
            [.create ⟨⟨.replicate 16 1, rfl⟩, "+1", 0, {}⟩ 1, .getByLogin "+1"]).2.contents) :=
  ⟨rfl, replies_refine_directory rfl _⟩

end Registry

end LoginRegistry
