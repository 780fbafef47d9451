import LoginRegistry.Proofs.Migration.Catching
import LoginRegistry.Proofs.Migration.Commuting
import LoginRegistry.Proofs.Registry.Stepwise

/-! # The writes of a batch amid deletes

    The writes of a batch race with one another and with deletes of any accounts, request
    by request, until the sweep of the batch comes.  A delete leaves its tombstone first,
    and before the sweep nothing removes a tombstone.  So when the sweep comes, an account
    of the batch is as new as in the batch or has a tombstone, and its login is bound or
    had an owner that has a tombstone (`Migrated`).

    What a turn keeps is said of tables (`Amid`), and what a turn leaves of earlier turns
    as well (`Later`); `Task.Stands` says how far a racer has come.
-/

namespace LoginRegistry

open Store (Database Item)

/-! ### Rows as the registry writes them -/

namespace Tables

/-- The rows that batches and sweeps depend on are such as the registry writes. -/
structure Proper (t : Tables) : Prop where
  /-- Account rows can be read. -/
  restorable : t.Restorable
  /-- Tombstones can be listed. -/
  keyed : t.KeyedOnIds .tombstones
  /-- The row of a login holds the login and its owner. -/
  bound : ∀ l row, t.loginRow? l = some row → ∃ u, row = Row.ofLogin l u

namespace Proper

variable {t t' : Tables}

/-- Parameters and retry entries do not matter. -/
theorem congr (h : t.Proper) (haccounts : t' .accounts = t .accounts)
    (hlogins : t' .logins = t .logins) (hkeyed : t'.KeyedOnIds .tombstones) : t'.Proper where
  restorable := h.restorable.congr haccounts
  keyed := hkeyed
  bound l row hrow := h.bound l row ((loginRow?_congr hlogins l).symm.trans hrow)

theorem putAccount (h : t.Proper) (a : Account) : (t.putAccount a).Proper where
  restorable := h.restorable.putAccount a
  keyed := h.keyed
  bound := h.bound

theorem eraseAccount (h : t.Proper) (u : Uuid) : (t.eraseAccount u).Proper where
  restorable := h.restorable.eraseAccount u
  keyed := h.keyed
  bound := h.bound

theorem bindLogin (h : t.Proper) (login : String) (u : Uuid) : (t.bindLogin login u).Proper where
  restorable := h.restorable
  keyed := h.keyed
  bound l row hrow := by
    rw [loginRow?_bindLogin] at hrow
    split at hrow
    · next hl => exact ⟨u, hl ▸ (Option.some.inj hrow).symm⟩
    · exact h.bound l row hrow

theorem release (h : t.Proper) (login : String) (u : Uuid) : (t.release login u).Proper where
  restorable := h.restorable.congr (release_ne nofun)
  keyed := h.keyed.congr (release_ne nofun)
  bound l row hrow := by
    rw [loginRow?_release] at hrow
    split at hrow
    · cases hrow
    · exact h.bound l row hrow

/-- A login that has a row has an owner, and the row tells just that. -/
theorem exists_owner (h : t.Proper) {l : String} (hrow : t.loginRow? l ≠ none) :
    ∃ u, t.owner? l = some u ∧ t.loginRow? l = some (Row.ofLogin l u) := by
  obtain ⟨row, hget⟩ := Option.ne_none_iff_exists'.mp hrow
  obtain ⟨u, rfl⟩ := h.bound l row hget
  refine ⟨u, ?_, hget⟩
  rw [owner?, hget, Option.bind_some, Row.read_ofLogin]
  rfl

end Proper

end Tables

theorem Contents.proper_tables (c : Contents) : c.tables.Proper where
  restorable u row hrow := by
    rw [c.accountRow?_tables] at hrow
    obtain ⟨a, -, rfl⟩ := Option.map_eq_some_iff.mp hrow
    exact ⟨a, Row.account_ofAccount a⟩
  keyed key row hrow := by
    have hlists := Registry.lists_tombstones (r := ⟨{}⟩) (c := c)
    exact hlists.exists_of_mem ((SortedMap.get?_eq_some_iff _ _ _).mp hrow)
  bound l row hrow := by
    rw [Tables.loginRow?, c.get?_logins] at hrow
    obtain ⟨u, -, rfl⟩ := Option.map_eq_some_iff.mp hrow
    exact ⟨u, rfl⟩

/-! ### What later turns leave -/

namespace Tables

/-- What becomes of tables when halves of migrations are written and accounts deleted:
    what is lost is lost by an account that has a tombstone. -/
structure Later (t t' : Tables) : Prop where
  /-- Tombstones stay. -/
  buried : ∀ u, t.Tombstoned u → t'.Tombstoned u
  /-- A row that does not give way to an account does not later. -/
  current : ∀ a, t.precedes a = false → t'.Tombstoned a.uuid ∨ t'.precedes a = false
  /-- A login that is bound stays so. -/
  bound : ∀ l, t.loginRow? l ≠ none →
    t'.loginRow? l ≠ none ∨ ∃ u, t.owner? l = some u ∧ t'.Tombstoned u

variable {t t' : Tables} {u : Uuid}

theorem later_of_eq (haccounts : t' .accounts = t .accounts) (hlogins : t' .logins = t .logins)
    (htombstones : ∀ u, t.Tombstoned u → t'.Tombstoned u) : t.Later t' where
  buried := htombstones
  current _ h := .inr ((precedes_congr (accountRow?_congr haccounts _)).trans h)
  bound l h := .inl ((loginRow?_congr hlogins l).symm ▸ h)

theorem later_release (hu : t.Tombstoned u) (login : String) : t.Later (t.release login u) where
  buried v := (tombstoned_congr (release_ne nofun) v).mpr
  current _ h := .inr ((precedes_congr (accountRow?_congr (release_ne nofun) _)).trans h)
  bound l h := by
    rw [loginRow?_release]
    split
    · next hl => exact .inr ⟨u, hl.1 ▸ hl.2, (tombstoned_congr (release_ne nofun) u).mpr hu⟩
    · exact .inl h

theorem later_eraseAccount (hu : t.Tombstoned u) : t.Later (t.eraseAccount u) where
  buried _ := id
  current a h := by
    by_cases ha : a.uuid = u
    · exact .inl (ha ▸ hu)
    · exact .inr ((precedes_congr (accountRow?_eraseAccount.trans (if_neg ha))).trans h)
  bound l := .inl

end Tables

namespace Half

variable {t : Tables} (k : Half)

theorem tombstoned_apply {u : Uuid} : (k.apply t).Tombstoned u ↔ t.Tombstoned u :=
  Tables.tombstoned_congr (k.apply_ne (by decide) (by decide)) u

theorem proper_apply (h : t.Proper) : (k.apply t).Proper := by
  cases k with
  | row a =>
    rw [apply, Tables.migrateRow]
    split
    · exact h.putAccount a
    · exact h
  | login a =>
    rw [apply, Tables.migrateLogin]
    split
    · exact h.bindLogin a.login a.uuid
    · exact h

theorem later_apply : t.Later (k.apply t) where
  buried _ := k.tombstoned_apply.mpr
  current _ h := .inr (k.precedes_apply h)
  bound _ h := .inl (k.loginRow?_apply h)

end Half

/-! ### Deletes -/

/-- The lookup of a recorded login leaves the tables. -/
theorem Deleting.step_gone (u : Uuid) (version : Int64) (t : Tables) :
    (gone.step u version t).2 = t := by
  rw [step]
  split
  · rfl
  · rfl

/-- All that a step of a delete can do. -/
theorem Deleting.step_cases (stage : Deleting) (u : Uuid) (version : Int64) (t : Tables) :
    stage = .start ∧ (stage.step u version t).2 = t.bury u ∨
      stage ≠ .start ∧ ((stage.step u version t).2 = t ∨
        (∃ login, (stage.step u version t).2 = t.release login u) ∨
        (stage.step u version t).2 = t.eraseAccount u ∨
        (stage.step u version t).2 = t.setVersion version) := by
  cases stage with
  | start => exact .inl ⟨rfl, rfl⟩
  | buried => exact .inr ⟨nofun, .inl rfl⟩
  | found login => exact .inr ⟨nofun, .inr (.inl ⟨login, rfl⟩)⟩
  | released => exact .inr ⟨nofun, .inr (.inr (.inl rfl))⟩
  | removed => exact .inr ⟨nofun, .inr (.inr (.inr rfl))⟩
  | gone => exact .inr ⟨nofun, .inl (step_gone u version t)⟩
  | recorded login => exact .inr ⟨nofun, .inr (.inl ⟨login, rfl⟩)⟩
  | ended result => exact .inr ⟨nofun, .inl rfl⟩

/-! ### What every turn keeps -/

namespace Tables

/-- The account has a tombstone when the batch begins, or is deleted meanwhile. -/
def Dead (t₀ : Tables) (deletes : List (Uuid × Int64)) (u : Uuid) : Prop :=
  t₀.Tombstoned u ∨ ∃ version, (u, version) ∈ deletes

/-- The account may own the login in the course of a batch: it did so before, or it is in
    the batch with this login. -/
def Claims (t₀ : Tables) (accounts : List Account) (l : String) (u : Uuid) : Prop :=
  t₀.owner? l = some u ∨ ∃ a ∈ accounts, a.login = l ∧ a.uuid = u

/-- The tables since `t₀`, while a batch of accounts is written and accounts are deleted. -/
structure Amid (accounts : List Account) (deletes : List (Uuid × Int64)) (t₀ t : Tables) :
    Prop where
  proper : t.Proper
  /-- Tombstones are of dead accounts. -/
  buried : ∀ u, t.Tombstoned u → t₀.Dead deletes u
  /-- The tombstones from before stay. -/
  kept : ∀ u, t₀.Tombstoned u → t.Tombstoned u
  /-- Nobody else owns a login. -/
  claimed : ∀ l u, t.owner? l = some u → t₀.Claims accounts l u

namespace Amid

variable {accounts : List Account} {deletes : List (Uuid × Int64)} {t₀ t t' : Tables} {u : Uuid}

theorem refl (h : t.Proper) : Amid accounts deletes t t where
  proper := h
  buried _ := .inl
  kept _ := id
  claimed _ _ := .inl

/-- A half of the batch is written. -/
theorem write (h : Amid accounts deletes t₀ t) {k : Half}
    (hk : k ∈ accounts.flatMap Account.halves) : Amid accounts deletes t₀ (k.apply t) where
  proper := k.proper_apply h.proper
  buried u hu := h.buried u (k.tombstoned_apply.mp hu)
  kept u hu := k.tombstoned_apply.mpr (h.kept u hu)
  claimed l u howner := by
    rcases k.owner?_apply howner with howner | hclaims
    · exact h.claimed l u howner
    · exact .inr ⟨k.account, Half.account_mem hk, hclaims⟩

theorem bury (h : Amid accounts deletes t₀ t) (hu : t₀.Dead deletes u) :
    Amid accounts deletes t₀ (t.bury u) where
  proper := h.proper.congr rfl rfl (h.proper.keyed.bury u)
  buried v hv := by
    rcases tombstoned_bury.mp hv with rfl | hv
    · exact hu
    · exact h.buried v hv
  kept v hv := tombstoned_bury.mpr (.inr (h.kept v hv))
  claimed := h.claimed

theorem release (h : Amid accounts deletes t₀ t) (login : String) (u : Uuid) :
    Amid accounts deletes t₀ (t.release login u) where
  proper := h.proper.release login u
  buried v hv := h.buried v ((tombstoned_congr (release_ne nofun) v).mp hv)
  kept v hv := (tombstoned_congr (release_ne nofun) v).mpr (h.kept v hv)
  claimed l v howner := h.claimed l v (owner?_release_eq_some_iff.mp howner).1

theorem eraseAccount (h : Amid accounts deletes t₀ t) (u : Uuid) :
    Amid accounts deletes t₀ (t.eraseAccount u) where
  proper := h.proper.eraseAccount u
  buried := h.buried
  kept := h.kept
  claimed := h.claimed

theorem setVersion (h : Amid accounts deletes t₀ t) (version : Int64) :
    Amid accounts deletes t₀ (t.setVersion version) where
  proper := h.proper.congr rfl rfl h.proper.keyed
  buried := h.buried
  kept := h.kept
  claimed := h.claimed

/-- A delete goes on that has left its tombstone or is about to do so. -/
theorem delete (h : Amid accounts deletes t₀ t) {version : Int64} (hu : (u, version) ∈ deletes)
    {stage : Deleting} (hstage : stage ≠ .start → t.Tombstoned u) :
    Amid accounts deletes t₀ (stage.step u version t).2 ∧
      t.Later (stage.step u version t).2 := by
  rcases stage.step_cases u version t with ⟨-, hstep⟩ | ⟨hstart, hstep⟩
  · rw [hstep]
    exact ⟨h.bury (.inr ⟨version, hu⟩), later_of_eq rfl rfl fun v hv => tombstoned_bury.mpr (.inr hv)⟩
  · have hburied := hstage hstart
    rcases hstep with hstep | ⟨login, hstep⟩ | hstep | hstep
    · rw [hstep]
      exact ⟨h, later_of_eq rfl rfl fun _ => id⟩
    · rw [hstep]
      exact ⟨h.release login u, later_release hburied login⟩
    · rw [hstep]
      exact ⟨h.eraseAccount u, later_eraseAccount hburied⟩
    · rw [hstep]
      exact ⟨h.setVersion version, later_of_eq rfl rfl fun _ => id⟩

end Amid

end Tables

/-! ### What a half that is written has come to -/

/-- What holds of a half once it is written, as long as nothing but halves and deletes come
    after it. -/
def Half.Done (accounts : List Account) (t₀ t : Tables) : Half → Prop
  | .row a => t.Tombstoned a.uuid ∨ t.precedes a = false
  | .login a => t.loginRow? a.login ≠ none ∨ ∃ u, t.Tombstoned u ∧ t₀.Claims accounts a.login u

theorem Half.done_apply (k : Half) (accounts : List Account) (t₀ t : Tables) :
    k.Done accounts t₀ (k.apply t) := by
  cases k with
  | row a => exact .inr Tables.precedes_migrateRow
  | login a => exact .inl Tables.loginRow?_migrateLogin_ne_none

theorem Half.Done.later {accounts : List Account} {deletes : List (Uuid × Int64)}
    {t₀ t t' : Tables} {k : Half} (h : k.Done accounts t₀ t)
    (hamid : Tables.Amid accounts deletes t₀ t) (hlater : t.Later t') :
    k.Done accounts t₀ t' := by
  cases k with
  | row a =>
    rcases h with hburied | hcurrent
    · exact .inl (hlater.buried _ hburied)
    · exact hlater.current a hcurrent
  | login a =>
    rcases h with hbound | ⟨u, hburied, hclaims⟩
    · rcases hlater.bound _ hbound with hbound | ⟨u, howner, hburied⟩
      · exact .inl hbound
      · exact .inr ⟨u, hburied, hamid.claimed _ _ howner⟩
    · exact .inr ⟨u, hlater.buried u hburied, hclaims⟩

/-- What a batch and the deletes meanwhile have left when the sweep comes. -/
structure Tables.Migrated (accounts : List Account) (deletes : List (Uuid × Int64))
    (t₀ t : Tables) : Prop extends Tables.Amid accounts deletes t₀ t where
  /-- Deletes leave tombstones. -/
  deleted : ∀ u version, (u, version) ∈ deletes → t.Tombstoned u
  /-- All halves are written. -/
  done : ∀ k ∈ accounts.flatMap Account.halves, k.Done accounts t₀ t

/-! ### The race -/

/-- What is done while a batch is under way. -/
inductive Task where
  /-- A worker writes a half. -/
  | write (k : Half)
  /-- An account is deleted. -/
  | delete (u : Uuid) (version : Int64)

namespace Task

/-- The halves of a batch, and deletes. -/
def ofBatch (accounts : List Account) (deletes : List (Uuid × Int64)) : List Task :=
  (accounts.flatMap Account.halves).map .write ++ deletes.map fun e => .delete e.1 e.2

/-- The script of a task. -/
def script (r : Registry) : Task → Script Unit
  | .write k => discard (r.guardedWrite k.account (k.write r))
  | .delete u version => discard (r.delete u version).run

/-- How far a task has come at the start. -/
def start : Task → Party.Stage
  | .write _ => .write
  | .delete .. => .deleting .start

/-- What the next request of a task does. -/
def step : Task → Party.Stage → Tables → Party.Stage × Tables
  | .write k, .write, t => (.written, k.apply t)
  | .delete u version, .deleting stage, t =>
    let (stage, t) := stage.step u version t
    (.deleting stage, t)
  | _, stage, t => (stage, t)

/-- The script of a task at a stage. -/
def scriptAt (r : Registry) : Task → Party.Stage → Script Unit
  | .write k, .write => script r (.write k)
  | .delete u version, .deleting stage => discard (r.deleteScript u version stage)
  | _, _ => .done ()

variable {r : Registry}

theorem scriptAt_start (task : Task) : task.scriptAt r task.start = task.script r := by
  cases task with
  | write k => rfl
  | delete u version => exact congrArg discard (Registry.delete_eq r u version).symm

/-- If nothing befalls their requests, tasks take one step after the other. -/
theorem follows_scriptAt (hr : Function.Injective r.config.tables.name) (task : Task) :
    Race.Follows (r.config.tables.behaviour .calm) (task.scriptAt r) task.step := by
  intro stage t
  match task, stage with
  | .write k, .write =>
    apply Or.inr
    apply Party.next_guardedWrite
    exact Action.Once.mono (Registry.once_write_calm hr k t) (fun _ _ => And.right) fun _ _ => id
  | .delete u version, .deleting stage =>
    rcases Registry.follows_deleteScript hr u version stage t with ⟨hended, hstep⟩ | hnext
    · refine .inl ⟨Script.ended?_discard_ne_none hended, ?_⟩
      simp only [step, hstep]
    · refine .inr (Script.next_bind (Script.Next.mono hnext ?_))
      rintro _ _ ⟨rfl, rfl⟩
      exact ⟨rfl, rfl⟩
  | .write _, .deleting _ => exact .inl ⟨nofun, rfl⟩
  | .write _, .written => exact .inl ⟨nofun, rfl⟩
  | .delete .., .write => exact .inl ⟨nofun, rfl⟩
  | .delete .., .written => exact .inl ⟨nofun, rfl⟩

/-- What holds of a task that has come to a stage. -/
inductive Stands (accounts : List Account) (t₀ t : Tables) : Task → Party.Stage → Prop where
  | pending {k : Half} : Stands accounts t₀ t (.write k) .write
  | written {k : Half} : k.Done accounts t₀ t → Stands accounts t₀ t (.write k) .written
  | deleting {u : Uuid} {version : Int64} {stage : Deleting} :
    (stage ≠ .start → t.Tombstoned u) → Stands accounts t₀ t (.delete u version) (.deleting stage)

variable {accounts : List Account} {deletes : List (Uuid × Int64)} {t₀ t t' : Tables}
  {task : Task} {stage : Party.Stage}

theorem stands_start (task : Task) : Stands accounts t₀ t task task.start := by
  cases task with
  | write k => exact .pending
  | delete u version => exact .deleting fun h => absurd rfl h

/-- What the other tasks do leaves it. -/
theorem Stands.later (h : Stands accounts t₀ t task stage)
    (hamid : Tables.Amid accounts deletes t₀ t) (hlater : t.Later t') :
    Stands accounts t₀ t' task stage := by
  cases h with
  | pending => exact .pending
  | written hdone => exact .written (hdone.later hamid hlater)
  | deleting hburied => exact .deleting fun hstage => hlater.buried _ (hburied hstage)

/-- A turn of a task. -/
theorem Stands.step (h : Stands accounts t₀ t task stage) (htask : task ∈ ofBatch accounts deletes)
    (hamid : Tables.Amid accounts deletes t₀ t) :
    Tables.Amid accounts deletes t₀ (task.step stage t).2 ∧ t.Later (task.step stage t).2 ∧
      Stands accounts t₀ (task.step stage t).2 task (task.step stage t).1 := by
  cases h with
  | @pending k =>
    have hk : k ∈ accounts.flatMap Account.halves := by
      simpa [ofBatch] using htask
    exact ⟨hamid.write hk, k.later_apply, .written (k.done_apply accounts t₀ t)⟩
  | written hdone => exact ⟨hamid, Tables.later_of_eq rfl rfl fun _ => id, .written hdone⟩
  | @deleting u version stage hburied =>
    have hu : (u, version) ∈ deletes := by
      simpa [ofBatch] using htask
    obtain ⟨hamid', hlater⟩ := hamid.delete hu hburied
    exact ⟨hamid', hlater, .deleting fun _ => Deleting.tombstoned_step version hburied⟩

/-- A task whose script has ended has done what it is there for. -/
theorem Stands.done_of_ended (h : Stands accounts t₀ t task stage)
    (hended : (task.scriptAt r stage).ended? ≠ none) :
    (∀ k, task = .write k → k.Done accounts t₀ t) ∧
      ∀ u version, task = .delete u version → t.Tombstoned u := by
  cases h with
  | @pending k =>
    cases k with
    | row a => exact absurd rfl hended
    | login a => exact absurd rfl hended
  | written hdone =>
    refine ⟨?_, fun _ _ => nofun⟩
    rintro _ ⟨⟩
    exact hdone
  | deleting hburied =>
    refine ⟨fun _ => nofun, ?_⟩
    rintro _ _ ⟨⟩
    apply hburied
    rintro rfl
    exact hended rfl

/-- Whatever the order, the tasks of a batch stand where they should. -/
theorem run (h : t.Proper) (order : List (Fin (ofBatch accounts deletes).length)) :
    let task := (ofBatch accounts deletes).get
    let race := Race.run (fun i => (task i).step) ⟨fun i => (task i).start, t⟩ order
    Tables.Amid accounts deletes t race.state ∧
      ∀ i, (task i).Stands accounts t race.state (race.racers i) := by
  intro task race
  apply Race.run_induction (J := fun _ race => Tables.Amid accounts deletes t race.state ∧
    ∀ i, (task i).Stands accounts t race.state (race.racers i))
  · exact ⟨.refl h, fun i => stands_start _⟩
  · rintro - race i ⟨hamid, hstands⟩
    obtain ⟨hamid', hlater, hstands'⟩ := (hstands i).step (List.get_mem _ i) hamid
    refine ⟨hamid', fun j => ?_⟩
    by_cases hj : j = i
    · subst hj
      simpa only [Race.turn, Function.update_self] using hstands'
    · simpa only [Race.turn, Function.update_of_ne hj] using (hstands j).later hamid hlater

end Task

namespace Registry

/-- The halves of a batch race with each other and with deletes. -/
def raceBatch (r : Registry) (accounts : List Account) (deletes : List (Uuid × Int64))
    (d : Database) (order : List (Fin (Task.ofBatch accounts deletes).length)) :
    Race (Fin (Task.ofBatch accounts deletes).length) (Script Unit) Database :=
  Race.runScripts Database.handler (fun i => ((Task.ofBatch accounts deletes).get i).script r) d
    order

variable {r : Registry} {accounts : List Account} {deletes : List (Uuid × Int64)} {t : Tables}

/-- When all have ended, the halves are written and the deletes have left their tombstones. -/
theorem migrated_of_raceBatch (hr : Function.Injective r.config.tables.name) (h : t.Proper)
    {order : List (Fin (Task.ofBatch accounts deletes).length)}
    (hended : ∀ i, ((r.raceBatch accounts deletes (r.config.tables.database t) order).racers
      i).ended? ≠ none) :
    ∃ t', (r.raceBatch accounts deletes (r.config.tables.database t) order).state
        = r.config.tables.database t' ∧ t.Migrated accounts deletes t' := by
  set task := (Task.ofBatch accounts deletes).get
  obtain ⟨hstate, hsame⟩ := Race.runScripts_of_follows (TableNames.obeys_database hr .calm)
    (fun i => Task.follows_scriptAt hr (task i)) (fun i => (task i).start)
    (d := r.config.tables.database t) rfl order
  simp only [Task.scriptAt_start] at hstate hsame
  obtain ⟨hamid, hstands⟩ := Task.run h order
  have hdone := fun i => (hstands i).done_of_ended (r := r) ((hsame i) ▸ hended i)
  refine ⟨_, hstate, { hamid with deleted := ?_, done := ?_ }⟩
  · intro u version hu
    have hmem : Task.delete u version ∈ Task.ofBatch accounts deletes :=
      List.mem_append_right _ (List.mem_map.mpr ⟨_, hu, rfl⟩)
    obtain ⟨i, hi⟩ := List.get_of_mem hmem
    exact (hdone i).2 u version hi
  · intro k hk
    have hmem : Task.write k ∈ Task.ofBatch accounts deletes :=
      List.mem_append_left _ (List.mem_map_of_mem hk)
    obtain ⟨i, hi⟩ := List.get_of_mem hmem
    exact (hdone i).1 k hi

end Registry

end LoginRegistry
