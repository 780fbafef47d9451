import LoginRegistry.Proofs.Migration.Asking
import LoginRegistry.Proofs.Registry.Stepwise

/-! # The version of the last change of membership

    Only a create that creates and a delete that finds a row store a directory version.
    Sweeps and re-drives delete as well, but without a version to store, and migrations
    store none.  So after a run the directory version is that of the last job that changed
    the membership (`directoryVersion_eq_lastChange`).
-/

namespace LoginRegistry

open Store (Database Operation)

/-! ### Changes of membership -/

/-- The version that a create stores, by how it ended. -/
def Creation.version? (version : Int64) : Option (Except RegistryError Creation) → Option Int64
  | some (.ok .created) => some version
  | _ => none

/-- The tables are those of contents with the version. -/
def Contents.HaveVersion (version : Option Int64) (t : Tables) : Prop :=
  ∃ c : Contents, t = c.tables ∧ c.version = version

namespace Registry

/-- The account has a row in the database. -/
def hasRow (r : Registry) (d : Database) (u : Uuid) : Bool :=
  (d.get? r.config.tables.accounts).any fun table => (table.items.get? (Row.uuidValue u)).isSome

/-- The version that a job stores on a database, because it changes the membership: it is a
    create that creates, or a delete that is given a version and finds a row. -/
def change? (r : Registry) (d : Database) : Job → Option Int64
  | .call (.create a version) =>
    Creation.version? version ((r.create a version).run.run Database.handler d).result
  | .call (.delete u version) => if r.hasRow d u then some version else none
  | .call (.deleteWith u options) => if r.hasRow d u then options.version else none
  | _ => none

/-- The version that the last change of membership among jobs stores. -/
def lastChange? (r : Registry) (d : Database) : List Job → Option Int64
  | [] => none
  | job :: jobs => (r.lastChange? (r.leaves [job] d) jobs).or (r.change? d job)

variable {r : Registry} {c : Contents}

theorem lastChange?_concat (jobs : List Job) (job : Job) (d : Database) :
    r.lastChange? d (jobs ++ [job])
      = (r.change? (r.leaves jobs d) job).or (r.lastChange? d jobs) := by
  induction jobs generalizing d with
  | nil => simp [lastChange?, leaves]
  | cons first jobs ih =>
    have hleaves : r.leaves (first :: jobs) d = r.leaves jobs (r.leaves [first] d) := rfl
    rw [List.cons_append, lastChange?, lastChange?, ih, hleaves, Option.or_assoc]

/-! ### What jobs do to the version -/

section valid

variable (hr : Function.Injective r.config.tables.name)

include hr

theorem hasRow_store (u : Uuid) : r.hasRow (r.store c) u = (c.accounts.get? u).isSome := by
  have hget := get?_store hr c .accounts
  unfold TableNames.name at hget
  unfold hasRow
  rw [hget, Option.any_some]
  show ((c.tables .accounts).get? (Row.uuidValue u)).isSome = _
  rw [c.get?_accounts, Option.isSome_map]

/-- A create stores the version if it creates. -/
theorem leads_create_version (a : Account) (version : Int64) (c : Contents) :
    r.Leads (fun _ _ => false) (r.create a version) c
      (fun outcome c' =>
        c'.version = (Creation.version? version (some (.ok outcome))).or c.version)
      fun _ c' => c'.version = c.version := by
  apply leads_create hr
  · intro _ _ _
    rfl
  · intro _ _
    rfl
  · intro _ _ _ _ _ _
    rfl
  · intro _ _ _ _ _
    rfl
  · exact nofun

/-- A delete stores the version that it is given if it finds a row. -/
theorem leads_deleteWith_version (u : Uuid) (options : DeleteOptions) (c : Contents) :
    r.Leads (fun _ _ => false) (r.deleteWith u options) c
      (fun _ c' => c'.version
        = (if r.hasRow (r.store c) u then options.version else none).or c.version)
      fun _ _ => False := by
  obtain ⟨start, hstart⟩ : ∃ start, start = if options.tombstone then c.bury u else c := ⟨_, rfl⟩
  -- The tombstone does not matter.
  have hburied : start.version = c.version ∧ start.accounts = c.accounts := by
    rw [hstart]
    split
    · exact ⟨rfl, rfl⟩
    · exact ⟨rfl, rfl⟩
  rw [hasRow_store hr, ← hburied.1, ← hburied.2]
  apply leads_deleteWith hr hstart
  · intro hgone
    simp [hgone]
  · intro a ha
    cases options.version with
    | none => simp [Contents.setVersion?]
    | some version => simp [Contents.setVersion?, ha]
  · exact nofun
  · exact nofun

/-- Calls store the version of the membership that they change, and no other. -/
theorem ends_perform_version (call : Call) (c : Contents) :
    r.Ends (fun _ _ => false) (r.perform call).run c fun _ c' =>
      c'.version = (r.change? (r.store c) (.call call)).or c.version := by
  have hkeeps : ∀ {α : Type} {a : Action α} (f : α → Reply),
      r.Keeps (fun _ _ => false) (fun c' => c'.version = c.version) a →
      r.Ends (fun _ _ => false) (f <$> a).run c fun _ c' => c'.version = c.version :=
    fun f ha => (ha.map f).ends rfl
  have hdelete : ∀ u options, r.Ends (fun _ _ => false)
      ((fun _ => Reply.done) <$> r.deleteWith u options : Action Reply).run c fun _ c' =>
        c'.version = (if r.hasRow (r.store c) u then options.version else none).or c.version := by
    intro u options
    apply ends_bind
    apply Ends.mono (leads_deleteWith_version hr u options c)
    intro o c' hversion
    match o, hversion with
    | some (.ok ()), hversion => exact ends_pure hversion
  cases call with
  | create a version =>
    show r.Ends _ (Reply.creation <$> r.create a version : Action Reply).run c fun _ c' =>
      c'.version = (Creation.version? version _).or c.version
    apply ends_bind
    apply Ends.mono (leads_create_version hr a version c).and_run
    rintro o c' ⟨hresult, -, hversion⟩
    rw [hresult]
    match o with
    | some (.ok outcome) => exact ends_pure hversion
    | some (.error e) => exact ends_pure hversion
    | none => exact hversion
  | delete u version => exact hdelete u (.steady version)
  | deleteWith u options => exact hdelete u options
  | update a =>
    apply hkeeps
    intro c' hc'
    exact leads_timed (leads_accounts_update hr (fun _ _ => hc') (fun _ => hc') nofun)
  | getByUuid u => exact hkeeps _ (keeps_getByUuid hr u)
  | getByLogin login => exact hkeeps _ (keeps_getByLogin hr login)
  | directoryVersion => exact hkeeps _ (keeps_directoryVersion hr)

/-- Sweeps give no version to store. -/
theorem sweeps_version (version : Option Int64) :
    r.Sweeps (fun _ _ => false) fun c => c.version = version where
  delete u := by
    intro c hc
    apply Leads.mono (leads_deleteWith_version hr u .reconcile c)
    · intro _ c' hc'
      show c'.version = version
      rw [hc', ← hc]
      split
      · rfl
      · rfl
    · intro _ _
      exact False.elim
  withTombstones _ := id

/-! ### Requests of a re-drive -/

section preserves

variable {version : Option Int64}

/-- A put preserves the version if the contents with its item have it. -/
theorem preserves_put {q : Store.Put} {i : TableId} {key : Store.AttributeValue}
    (hq : q.table = r.config.tables.name i) (hkey : q.item.get? i.partition = some key)
    (hput : ∀ c : Contents, ∃ c' : Contents,
      c.tables.set i ((c.tables i).insert key q.item) = c'.tables ∧ c'.version = c.version) :
    (r.config.tables.behaviour .calm).Preserves (Contents.HaveVersion version) (.put q) := by
  rintro _ answer t' hanswer ⟨c, rfl, hc⟩
  rcases TableNames.eq_or_insert_of_put hr hq hkey hanswer with rfl | ⟨-, rfl⟩
  · exact ⟨c, rfl, hc⟩
  · obtain ⟨c', ht', hc'⟩ := hput c
    exact ⟨c', ht', hc'.trans hc⟩

/-- A delete preserves the version if the contents without the item have it. -/
theorem preserves_delete {q : Store.Delete} {i : TableId} {key : Store.AttributeValue}
    (hq : q.table = r.config.tables.name i) (hkey : q.key.get? i.partition = some key)
    (hdelete : ∀ c : Contents, ∃ c' : Contents,
      c.tables.set i ((c.tables i).erase key) = c'.tables ∧ c'.version = c.version) :
    (r.config.tables.behaviour .calm).Preserves (Contents.HaveVersion version) (.delete q) := by
  rintro _ answer t' hanswer ⟨c, rfl, hc⟩
  rcases TableNames.eq_or_erase_of_delete hr hq hkey hanswer with rfl | ⟨-, rfl⟩
  · exact ⟨c, rfl, hc⟩
  · obtain ⟨c', ht', hc'⟩ := hdelete c
    exact ⟨c', ht', hc'.trans hc⟩

theorem preserves_get (q : Store.Get) :
    (r.config.tables.behaviour .calm).Preserves (Contents.HaveVersion version) (.get q) := by
  intro t answer t' hanswer ht
  rwa [TableNames.eq_of_get hr hanswer]

theorem preserves_scan (q : Store.Scan) :
    (r.config.tables.behaviour .calm).Preserves (Contents.HaveVersion version) (.scan q) := by
  intro t answer t' hanswer ht
  rwa [TableNames.eq_of_scan hr hanswer]

/-- What a migration writes leaves the version. -/
theorem asksFor_version (a : Account) :
    r.AsksFor ((r.config.tables.behaviour .calm).Preserves (Contents.HaveVersion version)) a where
  row := Action.asks_unlessRefused (Script.asks_send (preserves_put hr (i := .accounts) rfl
    (Row.uuid_ofAccount a) fun c => ⟨c.putAccount a, c.set_put a, rfl⟩))
  login := Action.asks_unlessRefused (Script.asks_send (preserves_put hr (i := .logins) rfl
    (Row.login_ofLogin _ _) fun c => ⟨_, c.set_bind a.login a.uuid, rfl⟩))
  retry := Action.asks_ofStore (Script.asks_send (preserves_put hr (i := .retries) rfl
    (Row.uuid_ofRetry _ _) fun c => ⟨_, c.set_retry a.uuid a.login, rfl⟩))

/-- What a delete without tombstone and version does leaves the version. -/
theorem asksToDelete_version (u : Uuid) :
    r.AsksToDelete ((r.config.tables.behaviour .calm).Preserves (Contents.HaveVersion version))
      u where
  row := by
    refine Action.asks_bind (Action.asks_ofStore (Script.asks_send (preserves_get hr _)))
      fun found => ?_
    match found with
    | none => exact Action.asks_pure none
    | some row => exact Action.asks_bind (Action.asks_ofExcept _) fun a => Action.asks_pure (some a)
  retry := Action.asks_bind (Action.asks_ofStore (Script.asks_send (preserves_get hr _)))
    fun _ => Action.asks_pure _
  release login := Action.asks_unlessRefused (Script.asks_send (preserves_delete hr (i := .logins)
    rfl (Row.login_loginKey login) fun c => ⟨_, c.set_release login, rfl⟩))
  erase := Action.asks_ofStore (Script.asks_send (preserves_delete hr (i := .accounts) rfl
    (Row.uuid_uuidKey u) fun c => ⟨_, c.set_erase u, rfl⟩))

end preserves

/-- A re-drive stores no version, whatever is loaded and in whatever order it is driven. -/
theorem ends_redrive_version (source : LegacySource) (max : Option Nat) (turns : Turns)
    (c : Contents) :
    r.Ends (fun _ _ => false) (r.redrive source max turns) c fun _ c' => c'.version = c.version := by
  have hasks : (r.redrive source max turns).Asks
      ((r.config.tables.behaviour .calm).Preserves (Contents.HaveVersion c.version)) :=
    asks_redrive (asksFor_version hr) (asksToDelete_version hr)
      (fun u => Action.asks_ofStore (Script.asks_send (preserves_delete hr (i := .retries) rfl
        (Row.uuid_uuidKey u) fun c => ⟨_, c.set_eraseRetry u, rfl⟩)))
      (asks_list fun _ _ => preserves_scan hr _) source max turns
  refine Script.Always.mono (TableNames.always_of_within hr (hasks.keeps c.tables ⟨c, rfl, rfl⟩)) ?_
  rintro _ _ ⟨_, rfl, c', rfl, hc'⟩
  exact ⟨c', rfl, hc'⟩

/-- A job stores the version of the membership that it changes, and no other. -/
theorem Reaches.exists_version {jobs : List Job} (h : r.Reaches jobs c) (job : Job) :
    ∃ c', r.Reaches (jobs ++ [job]) c' ∧
      c'.version = (r.change? (r.store c) job).or c.version := by
  match job with
  | .call call =>
    apply h.step
    apply ends_discard
    apply Ends.mono (ends_perform_version hr call c)
    intro o c' hc'
    cases o <;> exact hc'
  | .reconcile => exact h.step (ends_work_reconcile hr (sweeps_version hr c.version) rfl)
  | .migrate a turns => exact ⟨_, h.migrate hr a turns, rfl⟩
  | .migrateBatch accounts workers turns =>
    -- The migrations store no version, and then neither does the sweep.
    exact h.step (ends_work_migrateBatch hr (sweeps_version hr c.version) fun _ _ hmigrated =>
      hmigrated.works.version)
  | .redrive source max turns =>
    apply h.step
    apply ends_discard
    apply Ends.mono (ends_redrive_version hr source max turns c)
    intro o c' hc'
    cases o <;> exact hc'

/-- A run leaves the version of its last change of membership. -/
theorem exists_reaches_version (jobs : List Job) :
    ∃ c, r.Reaches jobs c ∧
      c.version = r.lastChange? (Testbed.ofTables r.config.tables).database jobs := by
  induction jobs using List.reverseRecOn with
  | nil => exact ⟨{}, reaches_nil hr, rfl⟩
  | append_singleton jobs job ih =>
    obtain ⟨c, hc, hversion⟩ := ih
    obtain ⟨c', hc', hstep⟩ := hc.exists_version hr job
    refine ⟨c', hc', ?_⟩
    rw [hstep, hversion, lastChange?_concat, show r.leaves jobs _ = r.store c from hc]

theorem result_directoryVersion (c : Contents) :
    (r.directoryVersion.run.run Database.handler (r.store c)).result
      = some (.ok c.version) := by
  have hget : r.Leads (fun _ _ => false) r.directoryVersion c
      (fun version _ => version = c.version) fun _ _ => False :=
    leads_counter_get hr rfl nofun
  obtain ⟨_, _, hresult, -, rfl⟩ := hget.run_calm
  exact hresult

end valid

/-- After any run of jobs on a fresh registry that nothing befalls, the directory version is
    that of the last of them which changed the membership of the directory, and there is none
    if there is no such job.  One more job that does not change the membership leaves it. -/
theorem directoryVersion_eq_lastChange {config : Config} (h : ofConfig config = .ok r)
    (jobs : List Job) :
    let fresh := (Testbed.ofTables config.tables).database
    let stored (jobs : List Job) :=
      (r.directoryVersion.run.run Database.handler (r.leaves jobs fresh)).result
    stored jobs = some (.ok (r.lastChange? fresh jobs)) ∧
      ∀ job, r.change? (r.leaves jobs fresh) job = none → stored (jobs ++ [job]) = stored jobs := by
  obtain ⟨rfl, hr⟩ := name_injective_of_ofConfig h
  intro fresh stored
  have hstored : ∀ jobs, stored jobs = some (.ok (r.lastChange? fresh jobs)) := by
    intro jobs
    obtain ⟨c, hc, hversion⟩ := exists_reaches_version hr jobs
    unfold stored
    rw [show r.leaves jobs fresh = r.store c from hc, result_directoryVersion hr c, hversion]
  refine ⟨hstored jobs, ?_⟩
  intro job hjob
  rw [hstored, hstored, lastChange?_concat, hjob, Option.none_or]

/-- A create stores version -5.  After it come an update, a create that loses its login, a
    delete of an account without a row, a migration, and a delete that finds its row. -/
theorem directoryVersion_eq_lastChange_default :
    let a : Account := ⟨⟨.replicate 16 1, rfl⟩, "+1", 0, {}⟩
    let b : Account := ⟨⟨.replicate 16 2, rfl⟩, "+1", 0, {}⟩
    let r : Registry := ⟨{}⟩
    let fresh := (Testbed.ofTables ({} : Config).tables).database
    let stored (jobs : List Job) :=
      (r.directoryVersion.run.run Database.handler (r.leaves jobs fresh)).result
    let jobs : List Job := [.call (.create a (-5)), .call (.update a), .call (.create b 6),
      .call (.delete b.uuid 7), .migrate a]
    ofConfig {} = .ok r ∧ stored jobs = some (.ok (some (-5))) ∧
      stored (jobs ++ [.call (.deleteWith a.uuid ⟨false, some 8⟩)]) = some (.ok (some 8)) := by
  intro a b r fresh stored jobs
  have hconfig : ofConfig {} = .ok r := rfl
  have hlast : r.lastChange? fresh jobs = some (-5) ∧
      r.lastChange? fresh (jobs ++ [.call (.deleteWith a.uuid ⟨false, some 8⟩)]) = some 8 := by
    unfold jobs fresh r b a
    decide +kernel
  have hfirst := (directoryVersion_eq_lastChange hconfig jobs).1
  have hsecond := (directoryVersion_eq_lastChange hconfig
    (jobs ++ [.call (.deleteWith a.uuid ⟨false, some 8⟩)])).1
  rw [hlast.1] at hfirst
  rw [hlast.2] at hsecond
  exact ⟨hconfig, hfirst, hsecond⟩

end Registry

end LoginRegistry
