import LoginRegistry.Proofs.Migration.Migrating
import LoginRegistry.Proofs.Migration.Sweeping
import LoginRegistry.Proofs.Store.Behaviour
import Mathlib.Data.List.Induction

/-! # Runs that nothing befalls

    A run on a fresh registry goes from contents to contents, job after job.  A batch is
    taken in two steps: its migrations, in the order that its turns give, and its sweep.
    `Migrates` tells what the migrations of a run find and what they leave, and `Visits`
    the contents that a run comes through.

    * `Migrates.migrated`: in every order, migrations serve all of their accounts.
    * `exists_reaches`: every first part of a run leaves contents, and what its operations
      and its migrations keep holds of them (`forall_visits`).
-/

namespace LoginRegistry

open Store (Database)

/-- What a job migrates: the accounts, and the script that does it.  A batch has still to
    sweep then. -/
def Job.migrations (r : Registry) : Job → Option (List Account × Script Unit)
  | .migrate a turns => some ([a], discard (r.migrate a turns))
  | .migrateBatch accounts workers turns =>
    some (accounts, discard (r.migrateAll accounts workers turns))
  | .call _ | .reconcile | .redrive .. => none

namespace Registry

/-- What jobs leave in a database if nothing befalls them. -/
def leaves (r : Registry) (jobs : List Job) (d : Database) : Database :=
  jobs.foldl (fun d job => ((r.work job).run Database.handler d).state) d

/-- On a fresh registry the jobs leave the contents, if nothing befalls them. -/
def Reaches (r : Registry) (jobs : List Job) (c : Contents) : Prop :=
  r.leaves jobs (Testbed.ofTables r.config.tables).database = r.store c

/-- One of the jobs on a fresh registry migrates the accounts, from contents to others. -/
def Migrates (r : Registry) (jobs : List Job) (c : Contents) (accounts : List Account)
    (c' : Contents) : Prop :=
  ∃ done job migrations, done ++ [job] <+: jobs ∧ r.Reaches done c ∧
    job.migrations r = some (accounts, migrations) ∧
    (migrations.run Database.handler (r.store c)).state = r.store c'

/-- The jobs on a fresh registry come through the contents: after one of them, or within a
    batch before its sweep. -/
def Visits (r : Registry) (jobs : List Job) (c : Contents) : Prop :=
  (∃ done, done <+: jobs ∧ r.Reaches done c) ∨ ∃ before accounts, r.Migrates jobs before accounts c

variable {r : Registry} {jobs : List Job} {c c' : Contents} {accounts : List Account}

theorem leaves_append (jobs rest : List Job) (d : Database) :
    r.leaves (jobs ++ rest) d = r.leaves rest (r.leaves jobs d) :=
  List.foldl_append

/-- One more job goes on from the contents that are reached. -/
theorem Reaches.step {job : Job} {I : Contents → Prop} (h : r.Reaches jobs c)
    (hjob : r.Ends (fun _ _ => false) (r.work job) c fun _ c' => I c') :
    ∃ c', r.Reaches (jobs ++ [job]) c' ∧ I c' := by
  obtain ⟨c', hstate, hc'⟩ := hjob.run_calm
  refine ⟨c', ?_, hc'⟩
  rw [Reaches, leaves_append, h]
  exact hstate

/-! ### Migrations of a run -/

theorem not_migrates_nil : ¬ r.Migrates [] c accounts c' := by
  rintro ⟨done, job, -, hdone, -⟩
  exact absurd (List.prefix_nil.mp hdone) (List.append_ne_nil_of_right_ne_nil _ nofun)

/-- One more job migrates what it finds. -/
theorem migrates_concat {job : Job} :
    r.Migrates (jobs ++ [job]) c accounts c' ↔
      (r.Reaches jobs c ∧ ∃ migrations, job.migrations r = some (accounts, migrations) ∧
        (migrations.run Database.handler (r.store c)).state = r.store c') ∨
      r.Migrates jobs c accounts c' := by
  constructor
  · rintro ⟨done, last, migrations, hdone, hc, hmigrations, hc'⟩
    rcases List.prefix_concat_iff.mp hdone with heq | hdone
    · obtain ⟨rfl, hlast⟩ := List.append_inj' heq rfl
      obtain rfl := List.singleton_injective hlast
      exact .inl ⟨hc, migrations, hmigrations, hc'⟩
    · exact .inr ⟨done, last, migrations, hdone, hc, hmigrations, hc'⟩
  · rintro (⟨hc, migrations, hmigrations, hc'⟩ | ⟨done, last, migrations, hdone, h⟩)
    · exact ⟨jobs, job, migrations, List.prefix_refl _, hc, hmigrations, hc'⟩
    · exact ⟨done, last, migrations, hdone.trans (List.prefix_append jobs [job]), h⟩

/-- Calls and sweeps add no migration to a run. -/
theorem migrates_concat_of_steady {job : Job} (hjob : job.isSteady = true) :
    r.Migrates (jobs ++ [job]) c accounts c' ↔ r.Migrates jobs c accounts c' := by
  rw [migrates_concat, or_iff_right]
  rintro ⟨-, migrations, hmigrations, -⟩
  cases job with
  | call | reconcile => cases hmigrations
  | migrate | migrateBatch | redrive => cases hjob

section valid

variable (hr : Function.Injective r.config.tables.name)

include hr

theorem store_injective : Function.Injective r.store :=
  (TableNames.database_injective hr).comp Contents.tables_injective

theorem Reaches.eq {d : Contents} (hc : r.Reaches jobs c) (hd : r.Reaches jobs d) : c = d :=
  store_injective hr (hc.symm.trans hd)

theorem reaches_nil : r.Reaches [] {} := store_empty hr

/-! ### What migrations leave -/

/-- A migration that nothing befalls is served in both halves. -/
theorem ends_work_migrate (a : Account) (turns : List Bool) :
    r.Ends (fun _ _ => false) (r.work (.migrate a turns)) c fun _ c' =>
      c' = c.attempt a true true false := by
  refine ends_discard (Ends.mono (ends_migrate_calm hr a turns) ?_)
  rintro o c' ⟨-, hc'⟩
  cases o <;> exact hc'

/-- In every order the accounts are served. -/
theorem ends_migrations {job : Job} {migrations : Script Unit}
    (h : job.migrations r = some (accounts, migrations)) :
    r.Ends (fun _ _ => false) migrations c fun _ c' => c.Migrated accounts c' := by
  match job, h with
  | .migrate a turns, rfl =>
    exact Ends.mono (ends_work_migrate hr a turns) fun _ _ => Contents.migrated_singleton_iff.mpr
  | .migrateBatch accounts workers turns, rfl =>
    refine ends_discard (Ends.mono (ends_migrateAll_calm hr accounts workers turns) ?_)
    rintro o c' ⟨-, hc'⟩
    cases o <;> exact hc'

theorem Migrates.migrated (h : r.Migrates jobs c accounts c') : c.Migrated accounts c' := by
  obtain ⟨done, job, migrations, -, -, hmigrations, hstate⟩ := h
  obtain ⟨d, hd, hmigrated⟩ := (ends_migrations hr hmigrations).run_calm
  rwa [store_injective hr (hstate.symm.trans hd)]

theorem Reaches.migrate (h : r.Reaches jobs c) (a : Account) (turns : List Bool := []) :
    r.Reaches (jobs ++ [.migrate a turns]) (c.attempt a true true false) := by
  obtain ⟨c', hc', rfl⟩ := h.step (ends_work_migrate hr a turns)
  exact hc'

/-- A batch goes on with its sweep from what its migrations leave. -/
theorem ends_work_migrateBatch {workers : UInt64} {turns : Turns} {I : Contents → Prop}
    (hI : r.Sweeps (fun _ _ => false) I)
    (hmigrated : ∀ c', ((discard (r.migrateAll accounts workers turns)).run Database.handler
      (r.store c)).state = r.store c' → c.Migrated accounts c' → I c') :
    r.Ends (fun _ _ => false) (r.work (.migrateBatch accounts workers turns)) c fun _ c' => I c' := by
  refine ends_discard (ends_bind (Ends.mono (ends_migrateAll_calm hr accounts workers turns).and_run
    ?_))
  rintro o c' ⟨-, hstate, hsome, hc'⟩
  obtain ⟨outcomes, rfl⟩ := Option.ne_none_iff_exists'.mp hsome
  have hI' : I c' := hmigrated c' ((Script.state_run_discard _ _ _).trans hstate) hc'
  refine ends_bind (Ends.mono (ends_reconcile hr hI hI') ?_)
  rintro o c'' ⟨hsome, hc''⟩
  match o with
  | some (.ok swept) => exact ends_pure hc''
  | some (.error e) => exact ends_pure hc''

/-! ### Visited contents -/

/-- Every first part of a run without re-drives leaves contents.  What holds at the start, is
    upheld by the operations and kept by the migrations of the run holds of these. -/
theorem exists_reaches (hjobs : ∀ source max turns, Job.redrive source max turns ∉ jobs)
    {I : Contents → Prop} (hstart : I {})
    (hI : r.Upholds (fun _ _ => false) (fun _ => True) I)
    (hmigrate : ∀ c accounts c', r.Migrates jobs c accounts c' → I c → I c')
    {done : List Job} (hdone : done <+: jobs) : ∃ c, r.Reaches done c ∧ I c := by
  induction done using List.reverseRecOn with
  | nil => exact ⟨{}, reaches_nil hr, hstart⟩
  | append_singleton done job ih =>
    obtain ⟨c, hc, hholds⟩ := ih ((List.prefix_append done [job]).trans hdone)
    have hkept : ∀ {accounts migrations}, job.migrations r = some (accounts, migrations) →
        ∀ c', (migrations.run Database.handler (r.store c)).state = r.store c' → I c' :=
      fun hmigrations c' hc' => hmigrate c _ c' ⟨done, job, _, hdone, hc, hmigrations, hc'⟩ hholds
    match job with
    | .call call => exact hc.step (ends_work_steady hr hI hholds rfl)
    | .reconcile => exact hc.step (ends_work_steady hr hI hholds rfl)
    | .migrate a turns =>
      refine hc.step (Ends.mono (ends_work_migrate hr a turns).and_run ?_)
      exact fun _ c' hc' => hkept rfl c' hc'.2.1
    | .migrateBatch accounts workers turns =>
      exact hc.step (ends_work_migrateBatch hr hI.sweeps fun c' hc' _ => hkept rfl c' hc')
    | .redrive source max turns =>
      exact absurd (hdone.subset (List.mem_append_right _ List.mem_cons_self))
        (hjobs source max turns)

theorem forall_visits (hjobs : ∀ source max turns, Job.redrive source max turns ∉ jobs)
    {I : Contents → Prop} (hstart : I {})
    (hI : r.Upholds (fun _ _ => false) (fun _ => True) I)
    (hmigrate : ∀ c accounts c', r.Migrates jobs c accounts c' → I c → I c') :
    ∀ c, r.Visits jobs c → I c := by
  have hreached : ∀ done c, done <+: jobs → r.Reaches done c → I c := by
    intro done c hdone hc
    obtain ⟨d, hd, hholds⟩ := exists_reaches hr hjobs hstart hI hmigrate hdone
    rwa [hc.eq hr hd]
  rintro c (⟨done, hdone, hc⟩ | ⟨before, accounts, hmigrates⟩)
  · exact hreached done c hdone hc
  · obtain ⟨done, job, -, hdone, hbefore, -⟩ := id hmigrates
    exact hmigrate before accounts c hmigrates
      (hreached done before ((List.prefix_append done [job]).trans hdone) hbefore)

/-- The contents after each job are among those that the run comes through. -/
theorem exists_visits_of_prefix (hjobs : ∀ source max turns, Job.redrive source max turns ∉ jobs)
    {done : List Job} (hdone : done <+: jobs) : ∃ c, r.Reaches done c ∧ r.Visits jobs c := by
  obtain ⟨c, hc, -⟩ := exists_reaches hr hjobs (I := fun _ => True) trivial
    (upholds_of_steady hr (steady_true _)) (fun _ _ _ _ _ => trivial) hdone
  exact ⟨c, hc, .inl ⟨done, hdone, hc⟩⟩

omit hr in
/-- The run comes through what its migrations find and what they leave. -/
theorem Migrates.visits (h : r.Migrates jobs c accounts c') :
    r.Visits jobs c ∧ r.Visits jobs c' := by
  obtain ⟨done, job, -, hdone, hc, -⟩ := id h
  exact ⟨.inl ⟨done, (List.prefix_append done [job]).trans hdone, hc⟩, .inr ⟨c, accounts, h⟩⟩

end valid

end Registry

end LoginRegistry
