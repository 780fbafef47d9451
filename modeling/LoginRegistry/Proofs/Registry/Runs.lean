import LoginRegistry.Migration.Batch
import LoginRegistry.Migration.Redrive
import LoginRegistry.Proofs.Registry.Leads

/-! # Runs of a registry

    What a registry can be asked to do, as data: `Call` for its operations and
    `Job` for these together with the operations of the migration.  A run does one
    after the other.

    * `replies`: a run of calls on the database itself, with its results.
    * `after`: a run of jobs behind a schedule of mishaps.
    * `after_invariant`: what every job keeps holds after every run.
    * `keeps_sweepPages_of_listed`: what the parts of a sweep keep holds after its pages.
-/

namespace LoginRegistry

open Store (Database Operation)

/-! ### Calls -/

/-- A call of a registry operation. -/
inductive Call where
  | create (a : Account) (version : Int64)
  | update (a : Account)
  | delete (u : Uuid) (version : Int64)
  | deleteWith (u : Uuid) (options : DeleteOptions)
  | getByUuid (u : Uuid)
  | getByLogin (login : String)
  | directoryVersion

/-- What a call returns. -/
inductive Reply where
  /-- How a create ended. -/
  | creation (outcome : Creation)
  /-- An update or a delete is done. -/
  | done
  /-- The account that was asked for. -/
  | account (found : Option Account)
  /-- The directory version. -/
  | version (found : Option Int64)

namespace Registry

/-- Makes a call. -/
def perform (r : Registry) : Call → Action Reply
  | .create a version => .creation <$> r.create a version
  | .update a => (fun _ => .done) <$> r.update a
  | .delete u version => (fun _ => .done) <$> r.delete u version
  | .deleteWith u options => (fun _ => .done) <$> r.deleteWith u options
  | .getByUuid u => .account <$> r.getByUuid u
  | .getByLogin login => .account <$> r.getByLogin login
  | .directoryVersion => .version <$> r.directoryVersion

/-- Makes calls one after the other on a database: their results (`none` for a
    panic) and the database in the end. -/
def replies (r : Registry) :
    List Call → Database → List (Option (Except RegistryError Reply)) × Database
  | [], d => ([], d)
  | call :: calls, d =>
    let run := (r.perform call).run.run Database.handler d
    let (results, d) := r.replies calls run.state
    (run.result :: results, d)

end Registry

/-! ### Jobs -/

/-- A call or an operation of the migration, with the turns that its workers take. -/
inductive Job where
  | call (call : Call)
  | reconcile
  | migrate (a : Account) (turns : List Bool := [])
  | migrateBatch (accounts : List Account) (workers : UInt64) (turns : Turns := {})
  | redrive (source : LegacySource) (max : Option Nat) (turns : Turns := {})

/-- The jobs of a registry after its migration: calls and sweeps. -/
def Job.isSteady : Job → Bool
  | .call _ | .reconcile => true
  | .migrate .. | .migrateBatch .. | .redrive .. => false

namespace Registry

/-- Does a job, whatever it returns. -/
def work (r : Registry) : Job → Script Unit
  | .call call => discard (r.perform call).run
  | .reconcile => discard r.reconcile
  | .migrate a turns => discard (r.migrate a turns)
  | .migrateBatch accounts workers turns => discard (r.migrateBatch accounts workers turns)
  | .redrive source max turns => discard (r.redrive source max turns)

/-- Does jobs one after the other behind a schedule of mishaps: the rest of the
    schedule and the database in the end. -/
def after (r : Registry) (x : Exposure) (jobs : List Job) (state : Schedule × Database) :
    Schedule × Database :=
  jobs.foldl (fun state job => ((r.work job).run (Schedule.handler x) state).state) state

/-! ### From one script to a run -/

variable {r : Registry} {exposed : Operation → String → Bool} {c : Contents}

/-- Where a script always ends, it ends on every schedule. -/
theorem Ends.run {s : Script α} {post : Option α → Contents → Prop}
    (h : r.Ends exposed s c post) (schedule : Schedule) :
    ∃ c', (s.run (Schedule.handler (.genuine exposed)) (schedule, r.store c)).state.2 = r.store c' ∧
      post (s.run (Schedule.handler (.genuine exposed)) (schedule, r.store c)).result c' :=
  Script.run_of_always h schedule

/-- Where a script always ends without exposure, it ends on the database. -/
theorem Ends.run_calm {s : Script α} {post : Option α → Contents → Prop}
    (h : r.Ends (fun _ _ => false) s c post) :
    ∃ c', (s.run Database.handler (r.store c)).state = r.store c' ∧
      post (s.run Database.handler (r.store c)).result c' :=
  Script.always_calm_iff.mp h

/-- What nothing befalls ends with the result and the database of its run. -/
theorem Ends.and_run {s : Script α} {post : Option α → Contents → Prop}
    (h : r.Ends (fun _ _ => false) s c post) :
    r.Ends (fun _ _ => false) s c fun o c' =>
      (s.run Database.handler (r.store c)).result = o ∧
        (s.run Database.handler (r.store c)).state = r.store c' ∧ post o c' := by
  obtain ⟨c', hstate, hpost⟩ := h.run_calm
  exact Script.always_calm_iff.mpr ⟨c', hstate, rfl, hstate, hpost⟩

/-- An action that has no other end runs to a value on the database. -/
theorem Leads.run_calm {a : Action α} {ok : α → Contents → Prop}
    (h : r.Leads (fun _ _ => false) a c ok fun _ _ => False) :
    ∃ v c', (a.run.run Database.handler (r.store c)).result = some (.ok v) ∧
      (a.run.run Database.handler (r.store c)).state = r.store c' ∧ ok v c' := by
  obtain ⟨c', hstate, hresult⟩ := Ends.run_calm h
  match hrun : (a.run.run Database.handler (r.store c)).result, hresult with
  | some (.ok v), hok => exact ⟨v, c', rfl, hstate, hok⟩

theorem ends_discard {s : Script α} {post : Option Unit → Contents → Prop}
    (h : r.Ends exposed s c fun o c' =>
      match o with
      | some _ => post (some ()) c'
      | none => post none c') :
    r.Ends exposed (discard s) c post := by
  refine ends_bind (Ends.mono h fun o c' hc => ?_)
  cases o with
  | none => exact hc
  | some a => exact ends_pure hc

/-- If every job, whatever befalls its requests, takes what holds with it still to be
    done to what holds with it done, a run ends where nothing is left to be done. -/
theorem after_induction {J : List Job → Contents → Prop}
    (hstep : ∀ job jobs c, J (job :: jobs) c →
      r.Ends exposed (r.work job) c fun _ c' => J jobs c')
    {jobs : List Job} (hc : J jobs c) (schedule : Schedule) :
    ∃ c', (r.after (.genuine exposed) jobs (schedule, r.store c)).2 = r.store c' ∧ J [] c' := by
  induction jobs generalizing c schedule with
  | nil => exact ⟨c, rfl, hc⟩
  | cons job jobs ih =>
    obtain ⟨c₁, hd, hc₁⟩ := (hstep job jobs c hc).run schedule
    have hrest := ih hc₁
      ((r.work job).run (Schedule.handler (.genuine exposed)) (schedule, r.store c)).state.1
    rw [← hd] at hrest
    exact hrest

/-- What every job of a run keeps, whatever befalls its requests, holds after the run. -/
theorem after_invariant {I : Contents → Prop} {jobs : List Job}
    (hkeeps : ∀ job ∈ jobs, ∀ c, I c → r.Ends exposed (r.work job) c fun _ c' => I c')
    (hc : I c) (schedule : Schedule) :
    ∃ c', (r.after (.genuine exposed) jobs (schedule, r.store c)).2 = r.store c' ∧ I c' := by
  have hstep : ∀ job rest c, job :: rest ⊆ jobs ∧ I c →
      r.Ends exposed (r.work job) c fun _ c' => rest ⊆ jobs ∧ I c' := by
    rintro job rest c ⟨hsubset, hc⟩
    obtain ⟨hjob, hrest⟩ := List.cons_subset.mp hsubset
    exact Ends.mono (hkeeps job hjob c hc) fun _ _ hc' => ⟨hrest, hc'⟩
  obtain ⟨c', hd, -, hc'⟩ := after_induction (J := fun rest c => rest ⊆ jobs ∧ I c) hstep
    ⟨List.Subset.refl jobs, hc⟩ schedule
  exact ⟨c', hd, hc'⟩

/-! ### Sweeps that are cut off -/

variable {b : Behaviour σ} {I : σ → Prop}

/-- The pages of a sweep keep what listing, the deletes of the accounts that are listed and
    draining keep. -/
theorem keeps_sweepPages_of_listed {Found : Uuid → Prop}
    (hlist : ∀ count st, I st → (r.tombstones.list count).Within b st
      (fun us st' => I st' ∧ ∀ u ∈ us, Found u) fun _ => I)
    (hdelete : ∀ u, Found u → (r.deleteWith u .reconcile).Keeps b I)
    (hdrain : ∀ us, (r.tombstones.removeAll us).Keeps b I) (pageSize pages processed : Nat) :
    (r.sweepPages pageSize pages processed).Keeps b I := by
  induction pages generalizing processed with
  | zero => exact .pure processed
  | succ pages ih =>
    refine Action.keeps_of_within fun st hst =>
      Action.within_bind (Action.Within.mono (hlist pageSize st hst) ?_ fun _ _ => id)
    rintro us st' ⟨hst', hus⟩
    refine Action.Keeps.within ?_ hst'
    split
    · exact .pure processed
    · have hpage : (r.sweepPage us).Keeps b I :=
        .bind (.forM fun u hu => hdelete u (hus u hu)) fun _ => hdrain us
      refine hpage.bind fun outcome => ?_
      simp only
      split
      · exact .pure _
      · exact ih _

/-- A sweep in a worker ends in every case: with its result, or with an error that says why
    there is none. -/
theorem within_reconcile_of_sweep {st : σ} {post : Option (Except MigrationError Nat) → σ → Prop}
    (h : r.sweep.Within b st (fun processed st' => post (some (.ok processed)) st')
      fun o st' => post (some (.error (o.elim .worker .reconcile))) st') :
    r.reconcile.Within b post st := by
  refine Script.within_bind (Action.within_isolate_run (Action.Within.mono h ?_ ?_))
  · exact fun processed st' hst' => hst'
  · intro o st' hst'
    cases o with
    | none => exact hst'
    | some e => exact hst'

theorem keeps_reconcile_of_sweep (hsweep : r.sweep.Keeps b I) : r.reconcile.Keeps b I := by
  refine .bind (.isolate hsweep) fun result => ?_
  match result with
  | none => exact .pure _
  | some (.error e) => exact .pure _
  | some (.ok processed) => exact .bind (.report _) fun _ => .pure _

end Registry

end LoginRegistry
