import LoginRegistry.Proofs.Migration.Halves
import LoginRegistry.Proofs.Registry.Deleting

/-! # A delete and a migration, request by request

    A migration makes two conditional writes that stand for themselves, each in a worker,
    so in a race with a delete of the same account there are three parties.
    `follows_scriptAt` says what the next request of each does to the tables.
-/

namespace LoginRegistry

/-! ### Logins that are released and granted -/

namespace Tables

variable {t : Tables} {a : Account}

/-- What is released is granted again. -/
theorem grants_release (login : String) :
    (t.release login a.uuid).grants a.login a.uuid = t.grants a.login a.uuid := by
  by_cases h : a.login = login ∧ t.owner? login = some a.uuid
  · rw [grants_of_loginRow?_eq_none (loginRow?_release.trans (if_pos h)),
      grants_of_owner? (h.1.symm ▸ h.2)]
  · rw [grants, loginRow?_release, if_neg h]
    rfl

/-- A delete of the account does not keep the migration from binding its login. -/
theorem grants_step (stage : Deleting) (version : Int64) :
    (stage.step a.uuid version t).2.grants a.login a.uuid = t.grants a.login a.uuid := by
  cases stage with
  | found login => exact grants_release login
  | recorded login => exact grants_release login
  | gone =>
    rw [Deleting.step]
    split
    · rfl
    · rfl
  | start => rfl
  | buried => rfl
  | released => rfl
  | removed => rfl
  | ended result => rfl

end Tables

/-! ### The parties -/

/-- Who takes turns: a delete, and the writes of a migration of the same account. -/
inductive Party where
  | delete
  /-- The worker that writes the row. -/
  | row
  /-- The worker that binds the login. -/
  | login
  deriving DecidableEq

namespace Party

/-- How far a party has come. -/
inductive Stage where
  /-- The delete is at a stage. -/
  | deleting (stage : Deleting)
  /-- A write is to be made. -/
  | write
  /-- A write is made or refused. -/
  | written

def start : Party → Stage
  | .delete => .deleting .start
  | .row => .write
  | .login => .write

/-- What the next request of a party does. -/
def step (a : Account) (version : Int64) : Party → Stage → Tables → Stage × Tables
  | .delete, .deleting stage, t =>
    let (stage, t) := stage.step a.uuid version t
    (.deleting stage, t)
  | .row, .write, t => (.written, t.migrateRow a)
  | .login, .write, t => (.written, t.migrateLogin a)
  | _, stage, t => (stage, t)

/-- The script of a party. -/
def script (r : Registry) (a : Account) (version : Int64) : Party → Script Unit
  | .delete => discard (r.delete a.uuid version).run
  | .row => discard (r.guardedWrite a (r.accounts.migrate a))
  | .login => discard (r.guardedWrite a (r.logins.migrate a.login a.uuid))

/-- The script of a party at a stage. -/
def scriptAt (r : Registry) (a : Account) (version : Int64) : Party → Stage → Script Unit
  | .delete, .deleting stage => discard (r.deleteScript a.uuid version stage)
  | .row, .write => script r a version .row
  | .login, .write => script r a version .login
  | _, _ => .done ()

theorem scriptAt_start (r : Registry) (a : Account) (version : Int64) (p : Party) :
    p.scriptAt r a version p.start = p.script r a version := by
  cases p with
  | delete => exact congrArg discard (Registry.delete_eq r a.uuid version).symm
  | row => rfl
  | login => rfl

variable {r : Registry} {a : Account} {version : Int64}

/-- A worker whose write is made or refused has nothing left to do. -/
theorem next_guardedWrite {b : Behaviour Tables} {write : Action Bool} {t t' : Tables}
    (h : Action.Once b write t (fun _ t'' => t'' = t') fun _ _ => False) :
    (discard (r.guardedWrite a write)).Next b (fun s t'' => s = .done () ∧ t'' = t') t := by
  refine Script.next_bind (Script.next_bind (Script.Next.mono h ?_))
  rintro _ t'' ⟨o, rfl, hpost⟩
  match o, hpost with
  | some (.ok applied), hpost => exact ⟨rfl, hpost⟩

/-- If nothing befalls their requests, the parties take one step after the other. -/
theorem follows_scriptAt (hr : Function.Injective r.config.tables.name) (a : Account)
    (version : Int64) (p : Party) :
    Race.Follows (r.config.tables.behaviour .calm) (p.scriptAt r a version) (p.step a version) := by
  have hx : Exposure.calm.IsGenuine := Exposure.isGenuine_genuine _
  have hcalm : ∀ request m (o : Option RegistryError),
      Exposure.calm request m = true → m.Brings o → False :=
    fun _ _ _ hm _ => Exposure.not_calm hm
  intro stage t
  match p, stage with
  | .delete, .deleting stage =>
    rcases Registry.follows_deleteScript hr a.uuid version stage t with
      ⟨hended, hstep⟩ | hnext
    · refine .inl ⟨Script.ended?_discard_ne_none hended, ?_⟩
      simp only [step, hstep]
    · refine .inr (Script.next_bind (Script.Next.mono hnext ?_))
      rintro _ _ ⟨rfl, rfl⟩
      exact ⟨rfl, rfl⟩
  | .row, .write =>
    refine .inr (next_guardedWrite (Registry.once_accounts_migrate hr hx ?_ ?_ hcalm))
    · exact fun h => (if_pos h).symm
    · exact fun h => (if_neg (Bool.eq_false_iff.mp h)).symm
  | .login, .write =>
    refine .inr (next_guardedWrite (Registry.once_logins_migrate hr hx ?_ ?_ hcalm))
    · exact fun h => (if_pos h).symm
    · exact fun h => (if_neg (Bool.eq_false_iff.mp h)).symm
  | .delete, .write => exact .inl ⟨nofun, rfl⟩
  | .delete, .written => exact .inl ⟨nofun, rfl⟩
  | .row, .deleting _ => exact .inl ⟨nofun, rfl⟩
  | .row, .written => exact .inl ⟨nofun, rfl⟩
  | .login, .deleting _ => exact .inl ⟨nofun, rfl⟩
  | .login, .written => exact .inl ⟨nofun, rfl⟩

end Party

end LoginRegistry
