import LoginRegistry.Proofs.Registry.Writing

/-! # A delete, stage by stage

    A delete makes up to five requests.  It acts on a login that it has read earlier, so
    what comes between its requests matters.  `Deleting` says how far it has come,
    `Deleting.step` what its next request does to the tables, and `follows_deleteScript`
    that the script of each stage does just that.
-/

namespace LoginRegistry

open Store (Item)

/-! ### Stages -/

/-- How far a delete has come. -/
inductive Deleting where
  /-- Nothing is written. -/
  | start
  /-- The tombstone is written; the row is to be read. -/
  | buried
  /-- The row has a login, which is to be released. -/
  | found (login : String)
  /-- The login is released; the row is to be removed. -/
  | released
  /-- The row is removed; the version is to be stored. -/
  | removed
  /-- There was no row; the retry entry is to be read. -/
  | gone
  /-- There was no row, but a retry entry with a login, which is to be released. -/
  | recorded (login : String)
  /-- It has ended. -/
  | ended (result : Except RegistryError Unit)

namespace Deleting

/-- What the row that is read makes of a delete. -/
def looked : Option Item → Deleting
  | none => .gone
  | some row =>
    match Row.account row with
    | .ok a => .found a.login
    | .error e => .ended (.error e)

theorem looked_of_account {row : Item} {a : Account} (h : Row.account row = .ok a) :
    looked (some row) = .found a.login := by rw [looked, h]

theorem looked_of_error {row : Item} {e : RegistryError} (h : Row.account row = .error e) :
    looked (some row) = .ended (.error e) := by rw [looked, h]

/-- What the next request of a delete does. -/
def step (u : Uuid) (version : Int64) : Deleting → Tables → Deleting × Tables
  | .start, t => (.buried, t.bury u)
  | .buried, t => (looked (t.accountRow? u), t)
  | .found login, t => (.released, t.release login u)
  | .released, t => (.removed, t.eraseAccount u)
  | .removed, t => (.ended (.ok ()), t.setVersion version)
  | .gone, t =>
    match t.recorded? u with
    | some login => (.recorded login, t)
    | none => (.ended (.ok ()), t)
  | .recorded login, t => (.ended (.ok ()), t.release login u)
  | .ended result, t => (.ended result, t)

/-- After its first request a delete leaves the tombstones. -/
theorem tombstoned_step {stage : Deleting} {u : Uuid} {t : Tables} (version : Int64)
    (h : stage ≠ .start → t.Tombstoned u) : (stage.step u version t).2.Tombstoned u := by
  cases stage with
  | start => exact Tables.tombstoned_bury.mpr (.inl rfl)
  | found login => exact (Tables.tombstoned_congr (Tables.release_ne nofun) u).mpr (h nofun)
  | recorded login => exact (Tables.tombstoned_congr (Tables.release_ne nofun) u).mpr (h nofun)
  | gone =>
    rw [step]
    split
    · exact h nofun
    · exact h nofun
  | buried => exact h nofun
  | released => exact h nofun
  | removed => exact h nofun
  | ended result => exact h nofun

end Deleting

/-! ### Scripts of stages -/

namespace Registry

/-- What is left of a delete at a stage. -/
def restOfDelete (r : Registry) (u : Uuid) (version : Int64) : Deleting → Action Unit
  | .start => r.tombstones.put u >>= fun _ => r.removal u (some version)
  | .buried => r.removal u (some version)
  | .found login => do
    let _ ← r.logins.release login u
    r.accounts.delete u
    r.counter.set version
  | .released => do
    r.accounts.delete u
    r.counter.set version
  | .removed => r.counter.set version
  | .gone => r.releaseRecorded u
  | .recorded login => do
    let _ ← r.logins.release login u
  | .ended result => ExceptT.mk (pure result)

/-- The script of a delete at a stage. -/
def deleteScript (r : Registry) (u : Uuid) (version : Int64) (stage : Deleting) :
    Script (Except RegistryError Unit) :=
  (Action.timed .delete (r.restOfDelete u version stage)).run

theorem delete_eq (r : Registry) (u : Uuid) (version : Int64) :
    (r.delete u version).run = r.deleteScript u version .start := rfl

/-! ### Single requests -/

theorem single_accounts_get (r : Registry) (u : Uuid) : (r.accounts.get u).run.Single := by
  refine Action.single_bind (Action.single_ofStore (Script.single_send _)) fun row? => ?_
  cases row? with
  | none => exact .inl ⟨none, rfl⟩
  | some row =>
    cases ha : Row.account row with
    | ok a =>
      refine .inl ⟨some a, ?_⟩
      simp only [ha]
      rfl
    | error e =>
      refine .inr ⟨e, ?_⟩
      simp only [ha]
      rfl

theorem single_retries_login (r : Registry) (u : Uuid) : (r.retries.login u).run.Single :=
  Action.single_bind (Action.single_ofStore (Script.single_send _)) fun _ => .inl ⟨_, rfl⟩

theorem single_logins_release (r : Registry) (login : String) (u : Uuid) :
    (r.logins.release login u).run.Single :=
  Action.single_unlessRefused (Script.single_send _)

variable {r : Registry} {u : Uuid} {version : Int64}

/-- If nothing befalls its requests, a delete takes one step after the other. -/
theorem follows_deleteScript (hr : Function.Injective r.config.tables.name) (u : Uuid)
    (version : Int64) :
    Race.Follows (r.config.tables.behaviour .calm) (r.deleteScript u version)
      (Deleting.step u version) := by
  have hx : Exposure.calm.IsGenuine := Exposure.isGenuine_genuine _
  have hcalm : ∀ {bad : Option RegistryError → Prop} request m o,
      Exposure.calm request m = true → m.Brings o → bad o :=
    fun _ _ _ hm _ => (Exposure.not_calm hm).elim
  intro stage t
  cases stage with
  | ended result => exact .inl ⟨nofun, rfl⟩
  | start =>
    refine .inr (Action.next_timed (Action.next_bind (Action.once_of_within
      (Action.single_ofStore (Script.single_send _)) (within_tombstones_put hr ?_ hcalm))))
    exact ⟨rfl, rfl⟩
  | buried =>
    refine .inr (Action.next_timed (Action.next_bind (Action.once_of_within
      (single_accounts_get r u) (within_accounts_get hr ?_ ?_ ?_ hcalm))))
    · intro hrow
      rw [Deleting.step, hrow]
      exact ⟨rfl, rfl⟩
    · intro row a hrow ha
      rw [Deleting.step, hrow, Deleting.looked_of_account ha]
      exact ⟨rfl, rfl⟩
    · intro row e hrow he
      rw [Deleting.step, hrow, Deleting.looked_of_error he]
      exact ⟨rfl, rfl⟩
  | found login =>
    refine .inr (Action.next_timed (Action.next_bind (Action.once_of_within
      (single_logins_release r login u) (within_logins_release hr hx ?_ hcalm))))
    exact fun _ => ⟨rfl, rfl⟩
  | released =>
    refine .inr (Action.next_timed (Action.next_bind (Action.once_of_within
      (Action.single_ofStore (Script.single_send _)) (within_accounts_delete hr ?_ hcalm))))
    exact ⟨rfl, rfl⟩
  | removed =>
    refine .inr (Action.next_timed (Action.next_of_once (Action.once_of_within
      (Action.single_ofStore (Script.single_send _)) (within_counter_set hr ?_ hcalm))))
    exact ⟨rfl, rfl⟩
  | gone =>
    refine .inr (Action.next_timed (Action.next_bind (Action.once_of_within
      (single_retries_login r u) (within_retries_login hr ?_ hcalm))))
    rw [Deleting.step]
    cases t.recorded? u with
    | some login => exact ⟨rfl, rfl⟩
    | none => exact ⟨rfl, rfl⟩
  | recorded login =>
    refine .inr (Action.next_timed (Action.next_bind (Action.once_of_within
      (single_logins_release r login u) (within_logins_release hr hx ?_ hcalm))))
    exact fun _ => ⟨rfl, rfl⟩

end Registry

end LoginRegistry
