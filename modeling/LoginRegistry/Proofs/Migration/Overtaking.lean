import LoginRegistry.Proofs.Migration.Parties

/-! # A migration that races with a delete

    The two writes of a migration can fall anywhere between the requests of a delete of
    the same account.  What is left of row and login depends on how far the delete had
    come when they were written, so a `Tally` is kept of that, and `Tally.Standing` says
    for each stage of the delete what the tables hold.

    `Tally.Overtaken` is the one case in which a login is left without a row: the row was
    written so early that the delete has removed it, and the login so late that the delete
    had released it (`Standing.stranded_iff`).
-/

namespace LoginRegistry

open Store (Item)

/-! ### When the writes were made -/

/-- The turns that the delete has taken, and how many of them came before the writes, as
    far as these are made. -/
structure Tally where
  turns : Nat := 0
  row : Option Nat := none
  login : Option Nat := none

namespace Tally

/-- One more turn. -/
def turn (tally : Tally) : Party → Tally
  | .delete => { tally with turns := tally.turns + 1 }
  | .row => { tally with row := tally.row.or (some tally.turns) }
  | .login => { tally with login := tally.login.or (some tally.turns) }

/-- The tally of an order of turns. -/
def of (order : List Party) : Tally := order.foldl turn {}

theorem of_concat (order : List Party) (p : Party) : of (order ++ [p]) = (of order).turn p :=
  List.foldl_append

theorem turns_of (order : List Party) : (of order).turns = order.count .delete := by
  induction order using List.reverseRecOn with
  | nil => rfl
  | append_singleton order p ih =>
    rw [of_concat, List.count_append, ← ih]
    cases p with
    | delete => rfl
    | row => rfl
    | login => rfl

/-- Whose turn has come, has written. -/
theorem row_of_ne_none {order : List Party} (h : .row ∈ order) : (of order).row ≠ none := by
  induction order using List.reverseRecOn with
  | nil => cases h
  | append_singleton order p ih =>
    rw [of_concat]
    cases p with
    | row => exact fun hnone => Option.some_ne_none _ (Option.or_eq_none_iff.mp hnone).2
    | delete => exact ih (by simpa using h)
    | login => exact ih (by simpa using h)

theorem login_of_ne_none {order : List Party} (h : .login ∈ order) : (of order).login ≠ none := by
  induction order using List.reverseRecOn with
  | nil => cases h
  | append_singleton order p ih =>
    rw [of_concat]
    cases p with
    | login => exact fun hnone => Option.some_ne_none _ (Option.or_eq_none_iff.mp hnone).2
    | delete => exact ih (by simpa using h)
    | row => exact ih (by simpa using h)

/-- The migration has overtaken the delete: its row was written before the delete removed
    it (and, if there was none before, before the delete looked), its login bound after
    the delete had released it, and no retry entry tells of the login. -/
structure Overtaken (a : Account) (t : Tables) (tally : Tally) : Prop where
  row : ∃ n ∈ tally.row, n < 4 ∧ (t.accountRow? a.uuid = none → n < 2)
  login : ∃ n ∈ tally.login, 3 ≤ n
  granted : t.grants a.login a.uuid = true
  unrecorded : t.recorded? a.uuid ≠ some a.login

end Tally

/-! ### One login -/

namespace Tables

/-- The tables since `t₀`, in which the account has no login but that of the migration. -/
structure OneLogin (a : Account) (t₀ t : Tables) : Prop where
  /-- Rows can be read. -/
  restorable : t.Restorable
  /-- Tombstones can be listed. -/
  keyed : t.KeyedOnIds .tombstones
  /-- The retry entry of the account is as before. -/
  recorded : t.recorded? a.uuid = t₀.recorded? a.uuid
  /-- No other login is bound to the account. -/
  owned : ∀ l, t.owner? l = some a.uuid → l = a.login
  /-- The row of the account has no other login. -/
  login : ∀ row, t.accountRow? a.uuid = some row → Row.login? row = some a.login

namespace OneLogin

variable {a : Account} {t₀ t t' : Tables}

theorem refl (hagree : t.Agree) (hrestorable : t.Restorable) (hkeyed : t.KeyedOnIds .tombstones)
    (hlogin : ∀ row, t.accountRow? a.uuid = some row → Row.login? row = some a.login) :
    OneLogin a t t where
  restorable := hrestorable
  keyed := hkeyed
  recorded := rfl
  owned l howner := by
    obtain ⟨row, hrow, hl⟩ := (hagree l a.uuid).mp howner
    exact Option.some.inj (hl.symm.trans (hlogin row hrow))
  login := hlogin

/-- Neither tombstones nor parameters matter. -/
theorem congr (h : OneLogin a t₀ t) (haccounts : t' .accounts = t .accounts)
    (hlogins : t' .logins = t .logins) (hretries : t' .retries = t .retries)
    (hkeyed : t'.KeyedOnIds .tombstones) : OneLogin a t₀ t' where
  restorable := h.restorable.congr haccounts
  keyed := hkeyed
  recorded := by
    rw [recorded?, hretries]
    exact h.recorded
  owned l howner := h.owned l ((owner?_congr hlogins l).symm.trans howner)
  login row hrow := h.login row ((accountRow?_congr haccounts _).symm.trans hrow)

theorem migrateRow (h : OneLogin a t₀ t) : OneLogin a t₀ (t.migrateRow a) := by
  rw [Tables.migrateRow]
  split
  · refine ⟨h.restorable.putAccount a, h.keyed, h.recorded, h.owned, fun row hrow => ?_⟩
    rw [accountRow?_putAccount, if_pos rfl] at hrow
    obtain rfl := Option.some.inj hrow
    exact Row.login?_of_account (Row.account_ofAccount a)
  · exact h

theorem migrateLogin (h : OneLogin a t₀ t) : OneLogin a t₀ (t.migrateLogin a) := by
  rw [Tables.migrateLogin]
  split
  · refine ⟨h.restorable, h.keyed, h.recorded, fun l howner => ?_, h.login⟩
    rw [owner?_bindLogin] at howner
    split at howner
    · next hl => exact hl
    · exact h.owned l howner
  · exact h

theorem release (h : OneLogin a t₀ t) (login : String) (u : Uuid) :
    OneLogin a t₀ (t.release login u) where
  restorable := h.restorable.congr (release_ne nofun)
  keyed := h.keyed.congr (release_ne nofun)
  recorded := by
    rw [recorded?, release_ne (i := .retries) nofun]
    exact h.recorded
  owned l howner := by
    rw [owner?_release] at howner
    split at howner
    · cases howner
    · exact h.owned l howner
  login row hrow := by
    rw [accountRow?_congr (release_ne nofun)] at hrow
    exact h.login row hrow

theorem releaseRecorded (h : OneLogin a t₀ t) (u : Uuid) : OneLogin a t₀ (t.releaseRecorded u) := by
  rw [Tables.releaseRecorded]
  split
  · exact h.release _ u
  · exact h

theorem eraseAccount (h : OneLogin a t₀ t) (u : Uuid) : OneLogin a t₀ (t.eraseAccount u) where
  restorable := h.restorable.eraseAccount u
  keyed := h.keyed
  recorded := h.recorded
  owned := h.owned
  login row hrow := by
    rw [accountRow?_eraseAccount] at hrow
    split at hrow
    · cases hrow
    · exact h.login row hrow

/-- A delete of the account gives it no login. -/
theorem step (h : OneLogin a t₀ t) (stage : Deleting) (version : Int64) :
    OneLogin a t₀ (stage.step a.uuid version t).2 := by
  cases stage with
  | start => exact h.congr rfl rfl rfl (h.keyed.bury a.uuid)
  | found login => exact h.release login a.uuid
  | recorded login => exact h.release login a.uuid
  | released => exact h.eraseAccount a.uuid
  | removed => exact h.congr rfl rfl rfl h.keyed
  | gone =>
    rw [Deleting.step]
    split
    · exact h
    · exact h
  | buried => exact h
  | ended result => exact h

/-- The row of the account, as it is read. -/
theorem exists_account (h : OneLogin a t₀ t) {row : Item} (hrow : t.accountRow? a.uuid = some row) :
    ∃ b, Row.account row = .ok b ∧ b.login = a.login := by
  obtain ⟨b, hb⟩ := h.restorable _ row hrow
  exact ⟨b, hb, Option.some.inj ((Row.login?_of_account hb).symm.trans (h.login row hrow))⟩

end OneLogin

end Tables

/-! ### How the race stands -/

namespace Tally

variable (a : Account) (t₀ : Tables) (tally : Tally) (t : Tables)

/-- The delete has found a row: that from before, or one written before it looked. -/
def Caught : Prop := t₀.accountRow? a.uuid ≠ none ∨ ∃ n ∈ tally.row, n < 2

/-- The delete has found no row, and has removed none. -/
def Missed : Prop :=
  t₀.accountRow? a.uuid = none ∧ (∀ n ∈ tally.row, 2 ≤ n) ∧
    (t.accountRow? a.uuid ≠ none ↔ tally.row ≠ none)

/-- The row is there as if there were no delete. -/
def RowKept : Prop :=
  t.accountRow? a.uuid ≠ none ↔ t₀.accountRow? a.uuid ≠ none ∨ tally.row ≠ none

/-- The row is there only if it was written after it was removed. -/
def RowRemoved : Prop := t.accountRow? a.uuid ≠ none ↔ ∃ n ∈ tally.row, 4 ≤ n

/-- The login is bound as if there were no delete. -/
def LoginKept : Prop :=
  t.owner? a.login = some a.uuid ↔
    t₀.accountRow? a.uuid ≠ none ∨ t₀.grants a.login a.uuid = true ∧ tally.login ≠ none

/-- The login is bound only if it was bound after it was released. -/
def LoginReleased : Prop :=
  t.owner? a.login = some a.uuid ↔
    t₀.grants a.login a.uuid = true ∧ ∃ n ∈ tally.login, 3 ≤ n

/-- What holds of row and login when the delete is at a stage. -/
inductive Standing : Deleting → Prop where
  | start : tally.turns = 0 → tally.RowKept a t₀ t → tally.LoginKept a t₀ t → Standing .start
  | buried : tally.turns = 1 → tally.RowKept a t₀ t → tally.LoginKept a t₀ t → Standing .buried
  | found : tally.turns = 2 → tally.Caught a t₀ → t.accountRow? a.uuid ≠ none →
    tally.LoginKept a t₀ t → Standing (.found a.login)
  | released : tally.turns = 3 → tally.Caught a t₀ → t.accountRow? a.uuid ≠ none →
    tally.LoginReleased a t₀ t → Standing .released
  | removed : tally.turns = 4 → tally.Caught a t₀ → tally.RowRemoved a t →
    tally.LoginReleased a t₀ t → Standing .removed
  | deleted {result : Except RegistryError Unit} : 5 ≤ tally.turns → tally.Caught a t₀ →
    tally.RowRemoved a t → tally.LoginReleased a t₀ t → Standing (.ended result)
  | gone : tally.turns = 2 → tally.Missed a t₀ t → Standing .gone
  | recorded {login : String} : tally.turns = 3 → tally.Missed a t₀ t → Standing (.recorded login)
  | missed {result : Except RegistryError Unit} : 3 ≤ tally.turns → tally.Missed a t₀ t →
    Standing (.ended result)

variable {a t₀ tally t} {t' : Tables} {stage : Deleting}

/-- The row is written, or there is one already. -/
theorem Standing.writeRow (h : tally.Standing a t₀ t stage) (hrow : tally.row = none)
    (hrow' : t'.accountRow? a.uuid ≠ none) (howner : t'.owner? a.login = t.owner? a.login) :
    ({ tally with row := some tally.turns } : Tally).Standing a t₀ t' stage := by
  have hcaught : ∀ {m}, tally.Caught a t₀ → ({ tally with row := m } : Tally).Caught a t₀ := by
    rintro m (hbefore | ⟨n, hn, -⟩)
    · exact .inl hbefore
    · rw [hrow] at hn
      cases hn
  have hmissed : 2 ≤ tally.turns → tally.Missed a t₀ t →
      ({ tally with row := some tally.turns } : Tally).Missed a t₀ t' := by
    rintro hturns ⟨hbefore, -, -⟩
    refine ⟨hbefore, fun n hn => ?_, iff_of_true hrow' nofun⟩
    rwa [← Option.some.inj hn]
  have hkept : tally.LoginKept a t₀ t →
      ({ tally with row := some tally.turns } : Tally).LoginKept a t₀ t' := by
    rw [LoginKept, LoginKept, howner]
    exact id
  have hreleased : tally.LoginReleased a t₀ t →
      ({ tally with row := some tally.turns } : Tally).LoginReleased a t₀ t' := by
    rw [LoginReleased, LoginReleased, howner]
    exact id
  have hremoved : 4 ≤ tally.turns →
      ({ tally with row := some tally.turns } : Tally).RowRemoved a t' :=
    fun hturns => iff_of_true hrow' ⟨tally.turns, rfl, hturns⟩
  cases h with
  | start hturns _ hlogin => exact .start hturns (iff_of_true hrow' (.inr nofun)) (hkept hlogin)
  | buried hturns _ hlogin => exact .buried hturns (iff_of_true hrow' (.inr nofun)) (hkept hlogin)
  | found hturns h _ hlogin => exact .found hturns (hcaught h) hrow' (hkept hlogin)
  | released hturns h _ hlogin => exact .released hturns (hcaught h) hrow' (hreleased hlogin)
  | removed hturns h _ hlogin =>
    exact .removed hturns (hcaught h) (hremoved hturns.ge) (hreleased hlogin)
  | deleted hturns h _ hlogin =>
    exact .deleted hturns (hcaught h) (hremoved (by omega)) (hreleased hlogin)
  | gone hturns h => exact .gone hturns (hmissed hturns.ge h)
  | recorded hturns h => exact .recorded hturns (hmissed (by omega) h)
  | missed hturns h => exact .missed hturns (hmissed (by omega) h)

/-- The login is bound if it is granted. -/
theorem Standing.bindLogin (h : tally.Standing a t₀ t stage)
    (hbefore : t₀.accountRow? a.uuid ≠ none → t₀.grants a.login a.uuid = true)
    (hrow : t'.accountRow? a.uuid = t.accountRow? a.uuid)
    (howner : t'.owner? a.login = some a.uuid ↔ t₀.grants a.login a.uuid = true) :
    ({ tally with login := some tally.turns } : Tally).Standing a t₀ t' stage := by
  have hmissed : tally.Missed a t₀ t →
      ({ tally with login := some tally.turns } : Tally).Missed a t₀ t' := by
    rw [Missed, Missed, hrow]
    exact id
  have hrowKept : tally.RowKept a t₀ t →
      ({ tally with login := some tally.turns } : Tally).RowKept a t₀ t' := by
    rw [RowKept, RowKept, hrow]
    exact id
  have hrowRemoved : tally.RowRemoved a t →
      ({ tally with login := some tally.turns } : Tally).RowRemoved a t' := by
    rw [RowRemoved, RowRemoved, hrow]
    exact id
  have hkept : ({ tally with login := some tally.turns } : Tally).LoginKept a t₀ t' := by
    rw [LoginKept, howner]
    exact ⟨fun h => .inr ⟨h, nofun⟩, fun h => h.elim hbefore And.left⟩
  have hreleased : 3 ≤ tally.turns →
      ({ tally with login := some tally.turns } : Tally).LoginReleased a t₀ t' := by
    intro hturns
    rw [LoginReleased, howner]
    exact ⟨fun h => ⟨h, tally.turns, rfl, hturns⟩, And.left⟩
  cases h with
  | start hturns h _ => exact .start hturns (hrowKept h) hkept
  | buried hturns h _ => exact .buried hturns (hrowKept h) hkept
  | found hturns hcaught h _ => exact .found hturns hcaught (hrow.symm ▸ h) hkept
  | released hturns hcaught h _ =>
    exact .released hturns hcaught (hrow.symm ▸ h) (hreleased hturns.ge)
  | removed hturns hcaught h _ =>
    exact .removed hturns hcaught (hrowRemoved h) (hreleased (by omega))
  | deleted hturns hcaught h _ =>
    exact .deleted hturns hcaught (hrowRemoved h) (hreleased (by omega))
  | gone hturns h => exact .gone hturns (hmissed h)
  | recorded hturns h => exact .recorded hturns (hmissed h)
  | missed hturns h => exact .missed hturns (hmissed h)

/-- A delete without a turn is at its start. -/
theorem Standing.eq_start (h : tally.Standing a t₀ t stage) (hturns : tally.turns = 0) :
    stage = .start := by
  cases h with
  | start => rfl
  | buried | found | released | removed | deleted | gone | recorded | missed => omega

/-- After five turns the delete has ended. -/
theorem Standing.exists_ended (h : tally.Standing a t₀ t stage) (hturns : 5 ≤ tally.turns) :
    ∃ result, stage = .ended result := by
  cases h with
  | deleted => exact ⟨_, rfl⟩
  | missed => exact ⟨_, rfl⟩
  | start | buried | found | released | removed | gone | recorded => omega

/-- At the end there is a login without a row only if the migration has overtaken. -/
theorem Standing.stranded_iff {result : Except RegistryError Unit}
    (h : tally.Standing a t₀ t (.ended result)) (hwritten : tally.row ≠ none) :
    (t.owner? a.login = some a.uuid ∧ t.accountRow? a.uuid = none ∧
        t₀.recorded? a.uuid ≠ some a.login) ↔ tally.Overtaken a t₀ := by
  obtain ⟨n, hn⟩ := Option.ne_none_iff_exists'.mp hwritten
  have honly : ∀ m ∈ tally.row, m = n := fun m hm => Option.some.inj (hm.symm.trans hn)
  cases h with
  | deleted _ hcaught hremoved hreleased =>
    constructor
    · rintro ⟨howner, hrow, hunrecorded⟩
      obtain ⟨hgranted, hlate⟩ := hreleased.mp howner
      refine ⟨⟨n, hn, ?_, fun hnone => ?_⟩, hlate, hgranted, hunrecorded⟩
      · exact Nat.lt_of_not_le fun hlast => hremoved.mpr ⟨n, hn, hlast⟩ hrow
      · rcases hcaught with hsome | ⟨m, hm, hearly⟩
        · exact absurd hnone hsome
        · rwa [← honly m hm]
    · rintro ⟨⟨m, hm, hearly, -⟩, hlate, hgranted, hunrecorded⟩
      refine ⟨hreleased.mpr ⟨hgranted, hlate⟩, ?_, hunrecorded⟩
      refine not_not.mp fun hrow => ?_
      obtain ⟨k, hk, hlast⟩ := hremoved.mp hrow
      rw [honly m hm] at hearly
      rw [honly k hk] at hlast
      omega
  | missed _ hmissed =>
    obtain ⟨hnone, hlast, hrow⟩ := hmissed
    refine iff_of_false (fun h => hrow.mpr hwritten h.2.1) fun h => ?_
    obtain ⟨m, hm, -, hearly⟩ := h.row
    exact Nat.not_lt.mpr (hlast m hm) (hearly hnone)

/-- What the delete finds when it looks. -/
theorem Standing.look (hsingle : t₀.OneLogin a t)
    (hrow : ∀ n ∈ tally.row, n ≤ 1) (hkept : tally.RowKept a t₀ t)
    (hlogin : tally.LoginKept a t₀ t) :
    ({ tally with turns := 2 } : Tally).Standing a t₀ t
      (Deleting.looked (t.accountRow? a.uuid)) := by
  cases hget : t.accountRow? a.uuid with
  | none =>
    have hnone := not_or.mp fun h => hkept.mpr h hget
    refine .gone rfl ⟨not_not.mp hnone.1, fun n hn => ?_, ?_⟩
    · exact absurd (by rw [hn]; exact nofun) hnone.2
    · exact iff_of_false (not_not.mpr hget) hnone.2
  | some row =>
    obtain ⟨b, hb, hl⟩ := hsingle.exists_account hget
    have hthere : t.accountRow? a.uuid ≠ none := by
      rw [hget]
      exact nofun
    rw [Deleting.looked_of_account hb, hl]
    refine .found rfl ((hkept.mp hthere).imp_right fun hsome => ?_) hthere hlogin
    obtain ⟨n, hn⟩ := Option.ne_none_iff_exists'.mp hsome
    exact ⟨n, hn, Nat.lt_succ_of_le (hrow n hn)⟩

/-- The delete takes a step. -/
theorem Standing.step (h : tally.Standing a t₀ t stage) (hsingle : t₀.OneLogin a t)
    (hrow : ∀ n ∈ tally.row, n ≤ tally.turns) (hlogin : ∀ n ∈ tally.login, n ≤ tally.turns)
    (version : Int64) :
    ({ tally with turns := tally.turns + 1 } : Tally).Standing a t₀
      (stage.step a.uuid version t).2 (stage.step a.uuid version t).1 := by
  have hreleaseRow : ∀ l, (t.release l a.uuid).accountRow? a.uuid = t.accountRow? a.uuid :=
    fun l => Tables.accountRow?_congr (Tables.release_ne nofun) _
  cases h with
  | start hturns hkept hlogin => exact .buried (congrArg (· + 1) hturns) hkept hlogin
  | buried hturns hkept hlogin =>
    rw [hturns] at hrow ⊢
    exact .look hsingle hrow hkept hlogin
  | found hturns hcaught hthere _ =>
    rw [hturns] at hlogin
    refine .released (congrArg (· + 1) hturns) hcaught ((hreleaseRow _).symm ▸ hthere) ?_
    -- The login was bound before it is released now, if at all.
    refine iff_of_false ?_ fun ⟨_, n, hn, hlate⟩ => Nat.not_succ_le_self 2 (hlate.trans (hlogin n hn))
    change (t.release a.login a.uuid).owner? a.login ≠ some a.uuid
    rw [Tables.owner?_release]
    split
    · exact nofun
    · next hne => exact fun howner => hne ⟨rfl, howner⟩
  | released hturns hcaught _ hreleased =>
    rw [hturns] at hrow
    refine .removed (congrArg (· + 1) hturns) hcaught ?_ hreleased
    -- The row was written before it is removed now, if at all.
    refine iff_of_false ?_ fun ⟨n, hn, hlate⟩ => Nat.not_succ_le_self 3 (hlate.trans (hrow n hn))
    rw [not_not]
    exact Tables.accountRow?_eraseAccount.trans (if_pos rfl)
  | removed hturns hcaught hremoved hreleased =>
    exact .deleted (Nat.succ_le_succ hturns.ge) hcaught hremoved hreleased
  | deleted hturns hcaught hremoved hreleased =>
    exact .deleted (Nat.le_succ_of_le hturns) hcaught hremoved hreleased
  | gone hturns hmissed =>
    rw [Deleting.step]
    split
    · exact .recorded (congrArg (· + 1) hturns) hmissed
    · exact .missed (Nat.succ_le_succ hturns.ge) hmissed
  | recorded hturns hmissed =>
    refine .missed (Nat.le_succ_of_le hturns.ge) ?_
    rw [Missed] at hmissed ⊢
    exact (hreleaseRow _).symm ▸ hmissed
  | missed hturns hmissed => exact .missed (Nat.le_succ_of_le hturns) hmissed

end Tally

/-! ### The race -/

/-- What holds at all times while a delete and a migration of the same account race: the
    tally of the turns, the tables `t₀` before the race, the stages of the parties and the
    tables since. -/
structure Overtaking (a : Account) (t₀ : Tables) (tally : Tally) (stages : Party → Party.Stage)
    (t : Tables) : Prop where
  /-- The account has no login but that of the migration. -/
  single : t₀.OneLogin a t
  /-- The migration may bind its login now if it might before. -/
  grants : t.grants a.login a.uuid = t₀.grants a.login a.uuid
  /-- Once the delete has taken a turn, there is a tombstone. -/
  buried : tally.turns ≠ 0 → t.Tombstoned a.uuid
  /-- The row is written once. -/
  row : stages .row = if tally.row = none then .write else .written
  /-- The login is bound once. -/
  login : stages .login = if tally.login = none then .write else .written
  /-- The row was written before the turns that are yet to come. -/
  rowTurns : ∀ n ∈ tally.row, n ≤ tally.turns
  /-- The login was bound before the turns that are yet to come. -/
  loginTurns : ∀ n ∈ tally.login, n ≤ tally.turns
  /-- Row and login are as the stage of the delete has it. -/
  delete : ∃ stage, stages .delete = .deleting stage ∧ tally.Standing a t₀ t stage

namespace Overtaking

open Party

variable {a : Account} {t₀ t : Tables} {tally : Tally} {stages : Party → Stage} {version : Int64}

/-- A login of the account is granted. -/
theorem granted_of_row (hagree : t.Agree)
    (hlogin : ∀ row, t.accountRow? a.uuid = some row → Row.login? row = some a.login)
    (hrow : t.accountRow? a.uuid ≠ none) : t.grants a.login a.uuid = true := by
  obtain ⟨row, hget⟩ := Option.ne_none_iff_exists'.mp hrow
  exact Tables.grants_of_owner? ((hagree _ _).mpr ⟨row, hget, hlogin row hget⟩)

/-- Before the race. -/
theorem start (hagree : t.Agree) (hrestorable : t.Restorable) (hkeyed : t.KeyedOnIds .tombstones)
    (hlogin : ∀ row, t.accountRow? a.uuid = some row → Row.login? row = some a.login) :
    Overtaking a t {} Party.start t where
  single := .refl hagree hrestorable hkeyed hlogin
  grants := rfl
  buried h := absurd rfl h
  row := rfl
  login := rfl
  rowTurns _ := nofun
  loginTurns _ := nofun
  delete := by
    refine ⟨.start, rfl, .start rfl ?_ ?_⟩
    · exact ⟨.inl, fun h => h.elim id fun h => absurd rfl h⟩
    · refine ⟨fun howner => .inl ?_, fun h => ?_⟩
      · obtain ⟨row, hrow, -⟩ := (hagree _ _).mp howner
        rw [hrow]
        exact nofun
      · rcases h with hrow | ⟨-, h⟩
        · obtain ⟨row, hget⟩ := Option.ne_none_iff_exists'.mp hrow
          exact (hagree _ _).mpr ⟨row, hget, hlogin row hget⟩
        · exact absurd rfl h

/-- The migration writes its row. -/
theorem turn_row (h : Overtaking a t₀ tally stages t) :
    Overtaking a t₀ (tally.turn .row)
      (Function.update stages .row (Party.step a version .row (stages .row) t).1)
      (Party.step a version .row (stages .row) t).2 := by
  obtain ⟨stage, hstage, hstanding⟩ := h.delete
  have hstages := h.row
  split at hstages
  · next hnone =>
    have hturn : tally.turn .row = { tally with row := some tally.turns } := by
      rw [Tally.turn, hnone, Option.none_or]
    have hlogins : (t.migrateRow a) .logins = t .logins := Tables.migrateRow_ne (by decide)
    rw [hstages, hturn]
    constructor
    · exact h.single.migrateRow
    · change (t.migrateRow a).grants a.login a.uuid = _
      rw [Tables.grants, Tables.loginRow?_congr hlogins]
      exact h.grants
    · exact fun hturns =>
        (Tables.tombstoned_congr (Tables.migrateRow_ne (by decide)) _).mpr (h.buried hturns)
    · rfl
    · exact h.login
    · exact fun n hn => (Option.some.inj hn).ge
    · exact h.loginTurns
    · exact ⟨stage, hstage, hstanding.writeRow hnone Tables.accountRow?_migrateRow_ne_none
        (Tables.owner?_congr hlogins _)⟩
  · next hsome =>
    obtain ⟨n, hn⟩ := Option.ne_none_iff_exists'.mp hsome
    have hturn : tally.turn .row = tally := by rw [Tally.turn, hn, Option.some_or, ← hn]
    have hstep : Party.step a version .row (stages .row) t = (stages .row, t) := by
      rw [hstages]
      rfl
    rw [hturn, hstep, Function.update_eq_self]
    exact h

/-- The migration binds its login. -/
theorem turn_login (h : Overtaking a t₀ tally stages t)
    (hgranted : t₀.accountRow? a.uuid ≠ none → t₀.grants a.login a.uuid = true) :
    Overtaking a t₀ (tally.turn .login)
      (Function.update stages .login (Party.step a version .login (stages .login) t).1)
      (Party.step a version .login (stages .login) t).2 := by
  obtain ⟨stage, hstage, hstanding⟩ := h.delete
  have hstages := h.login
  split at hstages
  · next hnone =>
    have hturn : tally.turn .login = { tally with login := some tally.turns } := by
      rw [Tally.turn, hnone, Option.none_or]
    rw [hstages, hturn]
    constructor
    · exact h.single.migrateLogin
    · exact Tables.grants_migrateLogin.trans h.grants
    · exact fun hturns =>
        (Tables.tombstoned_congr (Tables.migrateLogin_ne (by decide)) _).mpr (h.buried hturns)
    · exact h.row
    · rfl
    · exact h.rowTurns
    · exact fun n hn => (Option.some.inj hn).ge
    · refine ⟨stage, hstage, hstanding.bindLogin hgranted
        (Tables.accountRow?_congr (Tables.migrateLogin_ne (by decide)) _) ?_⟩
      rw [← h.grants]
      exact Tables.owner?_migrateLogin
  · next hsome =>
    obtain ⟨n, hn⟩ := Option.ne_none_iff_exists'.mp hsome
    have hturn : tally.turn .login = tally := by rw [Tally.turn, hn, Option.some_or, ← hn]
    have hstep : Party.step a version .login (stages .login) t = (stages .login, t) := by
      rw [hstages]
      rfl
    rw [hturn, hstep, Function.update_eq_self]
    exact h

/-- The delete takes a turn. -/
theorem turn_delete (h : Overtaking a t₀ tally stages t) :
    Overtaking a t₀ (tally.turn .delete)
      (Function.update stages .delete (Party.step a version .delete (stages .delete) t).1)
      (Party.step a version .delete (stages .delete) t).2 := by
  obtain ⟨stage, hstage, hstanding⟩ := h.delete
  rw [hstage]
  constructor
  · exact h.single.step stage version
  · exact (Tables.grants_step stage version).trans h.grants
  · refine fun _ => Deleting.tombstoned_step version fun hne => h.buried fun hturns => hne ?_
    exact hstanding.eq_start hturns
  · exact h.row
  · exact h.login
  · exact fun n hn => Nat.le_succ_of_le (h.rowTurns n hn)
  · exact fun n hn => Nat.le_succ_of_le (h.loginTurns n hn)
  · exact ⟨_, Function.update_self .., hstanding.step h.single h.rowTurns h.loginTurns version⟩

/-- Every turn keeps the invariant. -/
theorem turn (h : Overtaking a t₀ tally stages t)
    (hgranted : t₀.accountRow? a.uuid ≠ none → t₀.grants a.login a.uuid = true) (p : Party) :
    Overtaking a t₀ (tally.turn p) (Function.update stages p (p.step a version (stages p) t).1)
      (p.step a version (stages p) t).2 := by
  cases p with
  | delete => exact h.turn_delete
  | row => exact h.turn_row
  | login => exact h.turn_login hgranted

/-- Whatever the order, the invariant holds after a race. -/
theorem run (h : Overtaking a t₀ {} Party.start t₀)
    (hgranted : t₀.accountRow? a.uuid ≠ none → t₀.grants a.login a.uuid = true)
    (version : Int64) (order : List Party) :
    let race := Race.run (Party.step a version) ⟨Party.start, t₀⟩ order
    Overtaking a t₀ (Tally.of order) race.racers race.state := by
  refine Race.run_induction (J := fun taken race =>
    Overtaking a t₀ (Tally.of taken) race.racers race.state) ⟨Party.start, t₀⟩ h ?_ order
  intro taken race p hrace
  rw [Tally.of_concat]
  exact hrace.turn hgranted p

end Overtaking

end LoginRegistry
