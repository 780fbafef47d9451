import Mathlib.Data.List.Permutation
import LoginRegistry.Proofs.Config.Validating
import LoginRegistry.Proofs.Script.Weaving
import LoginRegistry.Proofs.Registry.Draining
import LoginRegistry.Proofs.Registry.Listing
import LoginRegistry.Proofs.Registry.Stepwise
import LoginRegistry.Proofs.Migration.Accounting
import LoginRegistry.Proofs.Migration.Commuting

/-! # What a batch reports

    A batch migrates each of its accounts once and then sweeps once, however many of the
    migrations fail.  It has as many migrations under way as there may be workers, so that its
    requests are those of the migrations woven together (`Script.exists_weaves`), and this need
    not come to any order of the migrations (`batch_has_no_order`).  It counts every account
    once, and an account whose migration fails is queued (`within_migrateAll`).

    The sweep deletes the accounts that have a tombstone, even those that the batch has just
    written, and it can fail after that.  All else that the migrations have left remains
    (`Tables.Remains`).
-/

namespace LoginRegistry

open Store (Item)

/-! ### The report -/

/-- Every outcome is counted once, and as failed if it is an error. -/
theorem BatchReport.counted_foldl (outcomes : List (Except MigrationError Bool))
    (report : BatchReport) :
    let counted := outcomes.foldl count report
    counted.migrated + counted.alreadyMigrated + counted.failed
        = report.migrated + report.alreadyMigrated + report.failed + outcomes.length ∧
      counted.failed = report.failed + outcomes.countP (!·.isOk) := by
  intro counted
  induction outcomes generalizing report with
  | nil => exact ⟨rfl, rfl⟩
  | cons outcome outcomes ih =>
    -- The first outcome is counted, and the rest on top of it.
    obtain ⟨hsum, hfailed⟩ := ih (report.count outcome)
    have hcounted : counted = outcomes.foldl count (report.count outcome) := rfl
    rw [hcounted, List.length_cons, List.countP_cons, hsum, hfailed]
    match outcome with
    | .ok true =>
      refine ⟨?_, rfl⟩
      simp only [count]
      omega
    | .ok false =>
      refine ⟨?_, rfl⟩
      simp only [count]
      omega
    | .error e =>
      simp only [count, Except.isOk, Except.toBool, Bool.not_false, if_true]
      omega

/-! ### What migrations ask -/

theorem Script.within_of_forall {b : Behaviour σ} {post : Option α → σ → Prop}
    (h : ∀ o st, post o st) (s : Script α) (st : σ) : s.Within b post st := by
  induction s generalizing st with
  | done a => exact h _ st
  | panic => exact h _ st
  | call request next ih => exact fun answer st' _ => ih answer st'
  | record event next ih => exact ih st

theorem Script.among_of_forall {b : Behaviour σ} {terms : Terms σ}
    {post : Option α → σ → Prop} (hown : ∀ st st', terms.own st st') (h : ∀ o st, post o st)
    (s : Script α) (st : σ) : s.Among b terms post st := by
  induction s generalizing st with
  | done a => exact fun st' _ => h _ st'
  | panic => exact fun st' _ => h _ st'
  | call request next ih => exact fun st' _ answer st'' _ => ⟨hown st' st'', ih answer st''⟩
  | record event next ih => exact ih st

theorem MigrationSettings.clampWorkers_pos {s : MigrationSettings} (h : s.validate = .ok ())
    (requested : UInt64) : 0 < (s.clampWorkers requested).toNat := by
  obtain ⟨-, hmax, -⟩ := MigrationSettings.validate_eq_ok_iff.mp h
  have hone : (1 : UInt64) ≤ max requested 1 := by
    rw [UInt64.le_iff_toNat_le, UInt64.toNat_max]
    exact Nat.le_max_right _ _
  rw [UInt64.lt_iff_toNat_lt] at hmax
  rw [UInt64.le_iff_toNat_le] at hone
  rw [clampWorkers, UInt64.toNat_min]
  exact Nat.lt_min.mpr ⟨hone, hmax⟩

namespace Registry

variable {r : Registry} {accounts : List Account}

/-- The migrations of a batch, with the turns that their workers take. -/
def migrations (r : Registry) (accounts : List Account) (turns : Turns) :
    List (Script (Except MigrationError Bool)) :=
  accounts.mapIdx fun i a => r.migrate a (turns.workers.getD i [])

/-- Whatever its requests come to, a migration does not panic. -/
theorem not_exchanges_migrate (a : Account) (turns : List Bool) (log : List Answered) :
    ¬ (r.migrate a turns).Exchanges log none := by
  intro hlog
  let terms : Terms Unit := .common (fun _ _ => True) (fun _ => trivial) fun _ _ => trivial
  have hallow : terms.Allow terms := fun _ _ => id
  have hready : Readies r (fun _ _ _ _ => True) a True (fun _ => True) (fun _ => True) terms :=
    ⟨fun _ => id, fun _ => id, fun _ _ _ =>
      Script.among_of_forall (fun _ _ => trivial) (fun _ _ => trivial) _ _⟩
  have hwrite : ∀ write : Action Bool, write.Among (fun _ _ _ _ => True) terms ()
      (fun _ _ => True) fun _ _ => True := by
    intro write
    refine Script.among_of_forall (fun _ _ => trivial) (fun o _ => ?_) _ _
    rcases o with _ | _ | _ <;> trivial
  have hended := among_migrate ⟨hallow, hallow⟩ ⟨.refl _, .refl _⟩ hready hready hready
    (hwrite (r.accounts.migrate a)) (hwrite (r.logins.migrate a.login a.uuid)) trivial turns
  have hquiet : (r.migrate a turns).Within (fun _ _ _ (_ : Unit) => True)
      (fun o _ => o ≠ none) () := by
    refine Script.Within.mono hended.within fun o _ hconcluded => ?_
    cases hconcluded with
    | served _ _ => exact nofun
    | failed _ _ => exact nofun
  exact hlog.of_within hquiet rfl

/-- A sweep ends with a result, whoever answers its requests. -/
theorem result_run_reconcile_ne_none (h : Handler σ) (st : σ) :
    (r.reconcile.run h st).result ≠ none := by
  have hended : r.reconcile.Within h.answers (fun o _ => o ≠ none) st := by
    refine within_reconcile_of_sweep (Script.within_of_forall (fun o st => ?_) _ st)
    rcases o with _ | _ | _ <;> nofun
  exact Script.within_answers_iff.mp hended

/-- A batch is its migrations, then a sweep, and then the report. -/
theorem migrateBatch_eq (accounts : List Account) (workers : UInt64) (turns : Turns) :
    r.migrateBatch accounts workers turns = do
      let outcomes ← r.migrateAll accounts workers turns
      let swept ← r.reconcile
      return swept.map fun swept => { outcomes.foldl BatchReport.count {} with swept := swept } := by
  refine bind_congr fun outcomes => bind_congr fun swept => ?_
  cases swept <;> rfl

/-- A batch leaves what its sweep leaves, and returns the report if the sweep succeeds. -/
theorem run_of_migrations {h : Handler σ} {d : σ} {workers : UInt64} {turns : Turns}
    {outcomes : List (Except MigrationError Bool)} {swept : Except MigrationError Nat}
    (hmigrations : ((r.migrateAll accounts workers turns).run h d).result = some outcomes)
    (hsweep : (r.reconcile.run h ((r.migrateAll accounts workers turns).run h d).state).result
      = some swept) :
    let batch := (r.migrateBatch accounts workers turns).run h d
    batch.state = (r.reconcile.run h ((r.migrateAll accounts workers turns).run h d).state).state ∧
      batch.result = some (swept.map fun swept =>
        { outcomes.foldl BatchReport.count {} with swept := swept }) := by
  intro batch
  have hbatch := migrateBatch_eq (r := r) accounts workers turns
  constructor
  · change ((r.migrateBatch accounts workers turns).run h d).state = _
    rw [hbatch, Script.state_run_bind, hmigrations]
    exact Script.state_run_bind_of_quiet (fun _ _ => rfl) _
  · change ((r.migrateBatch accounts workers turns).run h d).result = _
    rw [hbatch, Script.result_run_bind, hmigrations]
    simp only
    rw [Script.result_run_bind, hsweep]
    rfl

end Registry

/-! ### What remains under a sweep -/

namespace Tables

/-- A row of the tombstones holds the id. -/
def Listed (t : Tables) (u : Uuid) : Prop :=
  ∃ key row, (t .tombstones).get? key = some row ∧ Row.uuid row = .ok u

theorem listed_congr {t t' : Tables} (h : t' .tombstones = t .tombstones) {u : Uuid} :
    t'.Listed u ↔ t.Listed u := by
  unfold Listed
  rw [h]

/-- What remains of tables under a sweep, wherever it is cut off. -/
structure Remains (b t : Tables) : Prop where
  /-- No row is gone but of accounts that have a tombstone. -/
  rows : ∀ u, t.accountRow? u = b.accountRow? u ∨ b.Listed u ∧ t.accountRow? u = none
  /-- No login is free but of accounts that have a tombstone. -/
  logins : ∀ l, t.loginRow? l = b.loginRow? l ∨
    ∃ u, b.Listed u ∧ b.owner? l = some u ∧ t.loginRow? l = none
  /-- There is no new tombstone. -/
  listed : ∀ u, t.Listed u → b.Listed u
  misc : t .misc = b .misc
  retries : t .retries = b .retries

namespace Remains

variable {b t : Tables} {u : Uuid}

theorem refl (b : Tables) : b.Remains b where
  rows _ := .inl rfl
  logins _ := .inl rfl
  listed _ := id
  misc := rfl
  retries := rfl

theorem release (h : b.Remains t) (hu : b.Listed u) (login : String) :
    b.Remains (t.release login u) where
  rows v := by
    rw [accountRow?_congr (release_ne nofun)]
    exact h.rows v
  logins l := by
    rw [loginRow?_release]
    split
    · next hl =>
      obtain ⟨rfl, howner⟩ := hl
      rcases h.logins l with hsame | hfree
      · exact .inr ⟨u, hu, by rwa [owner?, ← hsame], rfl⟩
      · -- The login is free already.
        obtain ⟨v, hv, howner', -⟩ := hfree
        exact .inr ⟨v, hv, howner', rfl⟩
    · exact h.logins l
  listed v hv := h.listed v ((listed_congr (release_ne (by decide))).mp hv)
  misc := (release_ne (by decide)).trans h.misc
  retries := (release_ne (by decide)).trans h.retries

theorem releaseRecorded (h : b.Remains t) (hu : b.Listed u) : b.Remains (t.releaseRecorded u) := by
  unfold Tables.releaseRecorded
  split
  · exact h.release hu _
  · exact h

theorem eraseAccount (h : b.Remains t) (hu : b.Listed u) : b.Remains (t.eraseAccount u) where
  rows v := by
    rw [accountRow?_eraseAccount]
    split
    · next hv => exact .inr ⟨hv ▸ hu, rfl⟩
    · exact h.rows v
  logins := h.logins
  listed := h.listed
  misc := h.misc
  retries := h.retries

theorem unbury (h : b.Remains t) (us : List Uuid) : b.Remains (t.unbury us) where
  rows := h.rows
  logins := h.logins
  listed v hv := by
    obtain ⟨key, row, hrow, hv⟩ := hv
    rw [get?_unbury] at hrow
    split at hrow
    · cases hrow
    · exact h.listed v ⟨key, row, hrow, hv⟩
  misc := h.misc
  retries := h.retries

end Remains

end Tables

namespace TableNames

variable {n : TableNames} (hn : Function.Injective n.name) {x : Exposure} {t : Tables}

include hn

/-- A page has rows of its table. -/
theorem exists_of_scan {i : TableId} {q : Store.Scan} (hq : q.table = n.name i) {page : Store.Page}
    (h : (n.database t).scan q = .ok page) {row : Item} (hrow : row ∈ page.items) :
    ∃ key, (t i).get? key = some row := by
  have hafter : ∀ start, ∀ e ∈ (t i).after start, (t i).get? e.1 = some e.2 := by
    intro start e he
    rw [SortedMap.get?_eq_some_iff]
    cases start with
    | none => exact he
    | some key => exact (List.dropWhile_sublist _).subset he
  simp only [Store.Database.scan, hq, table_database hn, bind, Except.bind] at h
  split at h
  · cases h
  · next start _ =>
    obtain rfl := Except.ok.inj h
    obtain ⟨e, he, rfl⟩ := List.mem_map.mp hrow
    exact ⟨e.1, hafter start e (List.mem_of_mem_take he)⟩

/-- A page is read from the table, whatever befalls it, and nothing is changed. -/
theorem within_scan {i : TableId} {q : Store.Scan} (hq : q.table = n.name i) :
    Action.Within (n.behaviour x) (Action.ofStore (Script.scan q)) t
      (fun page t' => t' = t ∧ ∀ row ∈ page.items, ∃ key, (t i).get? key = some row)
      fun _ t' => t' = t := by
  apply Action.within_ofStore
  apply Script.within_send
  intro answer t' h
  rcases respond_or_eq_of_behaviour hn h nofun with h | ⟨rfl, ⟨e, -, rfl⟩ | ⟨-, rfl⟩⟩
  · cases hscan : (n.database t).scan q with
    | ok page =>
      simp only [Store.Database.respond, hscan] at h
      obtain ⟨rfl, hd⟩ := Prod.mk.inj h
      exact ⟨(database_injective hn hd).symm, fun row => exists_of_scan hn hq hscan⟩
    | error e =>
      simp only [Store.Database.respond, hscan] at h
      obtain ⟨rfl, hd⟩ := Prod.mk.inj h
      exact (database_injective hn hd).symm
  · exact rfl
  · exact rfl

variable {q : Queue} (hq : q.table = n.name .tombstones)

include hq

theorem within_collect_listed (count pages : Nat) {found : List Uuid}
    (hfound : ∀ u ∈ found, t.Listed u) (start : Option Item) :
    Action.Within (n.behaviour x) (q.collect count pages found start) t
      (fun us t' => t' = t ∧ ∀ u ∈ us, t.Listed u) fun _ t' => t' = t := by
  induction pages generalizing found start with
  | zero => exact Action.within_pure ⟨rfl, hfound⟩
  | succ pages ih =>
    rw [Queue.collect]
    split
    · refine Action.within_bind (Action.Within.mono (within_scan hn hq) ?_ fun _ _ => id)
      rintro page t' ⟨rfl, hpage⟩
      cases hread : page.items.mapM Row.uuid with
      | error e => exact Action.within_throw rfl
      | ok us =>
        have hmore : ∀ u ∈ found ++ us, t'.Listed u := by
          intro u hu
          rcases List.mem_append.mp hu with hu | hu
          · exact hfound u hu
          · -- The page has read it from a row of the table.
            obtain ⟨row, hmem, hrow⟩ := exists_of_mem_mapM_uuid hread hu
            obtain ⟨key, hkey⟩ := hpage row hmem
            exact ⟨key, row, hkey, hrow⟩
        refine Action.within_bind (Action.within_pure ?_)
        cases page.last with
        | some key => exact ih hmore (some key)
        | none => exact Action.within_pure ⟨rfl, hmore⟩
    · exact Action.within_pure ⟨rfl, hfound⟩

/-- Whatever befalls a listing of the tombstones, it finds ids of theirs only. -/
theorem within_list_listed (count : Nat) :
    Action.Within (n.behaviour x) (q.list count) t
      (fun us t' => t' = t ∧ ∀ u ∈ us, t.Listed u) fun _ t' => t' = t := by
  refine Action.within_bind (Action.Within.mono
    (within_collect_listed hn hq count count (fun _ hu => by cases hu) none) ?_ fun _ _ => id)
  rintro us t' ⟨ht', hus⟩
  exact Action.within_pure ⟨ht', fun u hu => hus u (List.mem_of_mem_take hu)⟩

end TableNames

namespace Registry

variable {r : Registry} {x : Exposure} {b t : Tables} {accounts : List Account}

section valid

variable (hr : Function.Injective r.config.tables.name) (hx : x.IsGenuine)

include hr hx

/-- A delete of a sweep takes nothing but what is of its account. -/
theorem keeps_deleteWith_remains {u : Uuid} (hu : b.Listed u) :
    (r.deleteWith u .reconcile).Keeps (r.config.tables.behaviour x) b.Remains := by
  refine Action.keeps_of_within fun t ht => within_deleteWith hr hx rfl ?_ ?_ ?_ ?_ ?_
  · exact fun _ => ht.releaseRecorded hu
  · exact fun _ a _ _ => (ht.release hu a.login).eraseAccount hu
  · exact fun _ _ _ _ => ht
  · exact fun _ _ _ _ _ => ht
  · intro _ _ _ _ _ t' hstage
    cases hstage with
    | start => exact ht
    | @released _ a => exact ht.release hu a.login
    | @removed _ a => exact (ht.release hu a.login).eraseAccount hu

omit hx in
/-- Draining takes tombstones only. -/
theorem keeps_removeAll_remains (us : List Uuid) :
    (r.tombstones.removeAll us).Keeps (r.config.tables.behaviour x) b.Remains := by
  refine Action.keeps_of_within fun t ht => TableNames.within_removeAll hr rfl us ?_ ?_
  · rintro _ _ ⟨gone, -, rfl⟩
    exact ht.unbury gone
  · rintro _ _ ⟨gone, -, rfl⟩
    exact ht.unbury gone

/-- Whatever befalls a sweep, it takes nothing but what is of accounts that have a
    tombstone. -/
theorem keeps_reconcile_remains :
    r.reconcile.Keeps (r.config.tables.behaviour x) b.Remains := by
  refine keeps_reconcile_of_sweep (keeps_sweepPages_of_listed (fun count t ht => ?_)
    (fun _ => keeps_deleteWith_remains hr hx) (keeps_removeAll_remains hr) _ _ _)
  refine Action.Within.mono (TableNames.within_list_listed hr rfl count) ?_ ?_
  · rintro us _ ⟨rfl, hus⟩
    exact ⟨ht, fun u hu => ht.listed u (hus u hu)⟩
  · rintro _ _ rfl
    exact ht

end valid

/-- A batch on any tables, with any number of workers, any turns for them and whatever befalls
    its requests, as long as it is no refusal out of nothing and spares the puts into the retry
    queue.

    * It makes the requests of the migrations of its accounts, one migration for each, where as
      many of these as there may be workers are under way at a time, and then it leaves what
      one sweep leaves.  With one worker the migrations come one after the other.
    * If the sweep succeeds, the batch returns a report.  It counts every account once, as
      failed those whose migration has failed, and has the number of the sweep.  If the sweep
      fails, so does the batch.
    * When the sweep comes, each account is as new as it was to be or its migration has failed.
      In the end those whose migration has failed are queued, and nothing that the migrations
      have left is gone but rows and logins of accounts that had a tombstone. -/
theorem batch_reports_migrations {config : Config} (h : ofConfig config = .ok r)
    (hx : x.IsGenuine)
    (hspared : ∀ q : Store.Put, q.table = config.tables.retries → ∀ m, x (.put q) m = false)
    (t : Tables) (accounts : List Account) (workers : UInt64) (turns : Turns)
    (schedule : Schedule) :
    let handler := Schedule.handler x
    let start := (schedule, config.tables.database t)
    let width := (config.migration.clampWorkers workers).toNat
    let batch := (r.migrateBatch accounts workers turns).run handler start
    ∃ (runs : List (List Answered × Except MigrationError Bool)) (woven : List Answered)
      (migrated : Schedule × Store.Database),
      List.Forall₂ (fun s run => s.Exchanges run.1 (some run.2)) (r.migrations accounts turns)
        runs ∧
      Weaves width (runs.map (·.1)) woven ∧ handler.Gives woven start migrated ∧
      (width = 1 →
        let serial := ((r.migrations accounts turns).mapM id).run handler start
        serial.result = some (runs.map (·.2)) ∧ serial.state = migrated) ∧
      let sweep := r.reconcile.run handler migrated
      batch.state = sweep.state ∧
      (∃ report : BatchReport,
        report.migrated + report.alreadyMigrated + report.failed = accounts.length ∧
        report.failed = runs.countP (!·.2.isOk) ∧
        ((∃ swept, sweep.result = some (.ok swept) ∧
            batch.result = some (.ok { report with swept := swept })) ∨
          ∃ e, sweep.result = some (.error e) ∧ batch.result = some (.error e))) ∧
      ∃ t₁ t₂, migrated.2 = config.tables.database t₁ ∧
        batch.state.2 = config.tables.database t₂ ∧ t₁ .tombstones = t .tombstones ∧
        t₁.Remains t₂ ∧
        List.Forall₂ (fun a run => if run.2.isOk then t₁.UpToDate a else t₂.Queued a.uuid)
          accounts runs := by
  obtain ⟨rfl, hr⟩ := name_injective_of_ofConfig h
  obtain ⟨-, -, hmigration⟩ := Config.validate_eq_ok_iff.mp (ofConfig_eq_ok_iff.mp h).1
  intro handler start width batch
  have hwidth : 0 < width := MigrationSettings.clampWorkers_pos hmigration workers
  have hquiet : ∀ s ∈ r.migrations accounts turns, ∀ log, ¬ s.Exchanges log none := by
    intro s hs
    obtain ⟨i, hi, rfl⟩ := List.mem_mapIdx.mp hs
    exact not_exchanges_migrate _ _
  obtain ⟨runs, woven, hruns, hwoven, hgives, hmigrations⟩ :=
    Script.exists_weaves handler hwidth hquiet turns.accounts start
  set migrated := ((r.migrateAll accounts workers turns).run handler start).state
  -- What is known of the accounts when the sweep comes.
  obtain ⟨t₁, hmigrated, hworks, outcomes, houtcomes, hcame⟩ := Script.run_of_within
    (TableNames.obeys_schedule hr x) (within_migrateAll hr hx (fun _ _ _ => trivial)
      (fun _ : True => hspared) workers turns t) (show start.2 = r.config.tables.database t from rfl)
  obtain rfl : runs.map (·.2) = outcomes := Option.some.inj (hmigrations.symm.trans houtcomes)
  obtain ⟨t₂, hswept, hremains⟩ := Script.run_of_within (TableNames.obeys_schedule hr x)
    (keeps_reconcile_remains hr hx t₁ (.refl t₁)) hmigrated
  obtain ⟨swept, hsweep⟩ := Option.ne_none_iff_exists'.mp
    (result_run_reconcile_ne_none (r := r) handler migrated)
  obtain ⟨hstate, hresult⟩ := run_of_migrations hmigrations hsweep
  obtain ⟨hsum, hfailed⟩ := BatchReport.counted_foldl (runs.map (·.2)) {}
  have hlength : runs.length = accounts.length := by
    rw [← List.length_map (f := (·.2)), hcame.length_eq]
  refine ⟨runs, woven, migrated, hruns, hwoven, hgives, ?_, hstate,
    ⟨(runs.map (·.2)).foldl BatchReport.count {}, ?_, ?_, ?_⟩, t₁, t₂, hmigrated,
    (congrArg Prod.snd hstate).trans hswept, ?_, hremains, ?_⟩
  · intro hone
    exact Script.run_mapM_of_weaves (hone ▸ hwoven) hruns hgives
  · rw [hsum, List.length_map, hlength]
    exact Nat.zero_add _
  · rw [hfailed, List.countP_map]
    exact Nat.zero_add _
  · cases swept with
    | ok swept => exact .inl ⟨swept, hsweep, hresult⟩
    | error e => exact .inr ⟨e, hsweep, hresult⟩
  · refine hworks.keeps (P := fun t' => t' .tombstones = t .tombstones) ?_ ?_ rfl
    · exact fun _ k _ => (k.apply_ne (by decide) (by decide)).trans
    · exact fun _ _ _ _ => (Tables.queueRetry_ne (by decide)).trans
  · refine (List.forall₂_map_left_iff.mp hcame).flip.imp fun a run hcame => ?_
    generalize run.2 = outcome at hcame
    cases hcame with
    | served hdate => exact hdate
    | failed _ hqueued =>
      -- The sweep leaves the queue.
      show t₂.Queued a.uuid
      rw [Tables.Queued, hremains.retries]
      exact (hqueued trivial).queued

/-- Two accounts take turns, and the bind of the first one fails.  The batch counts one failure,
    and the account is queued. -/
theorem batch_reports_migrations_default :
    let a : Account := ⟨⟨.replicate 16 1, rfl⟩, "+1", 1, {}⟩
    let b : Account := ⟨⟨.replicate 16 2, rfl⟩, "+2", 1, {}⟩
    let r : Registry := ⟨{}⟩
    let retries := ({} : Config).tables.retries
    let x : Exposure := .genuine fun operation table => !(operation == .put && table == retries)
    let schedule : Schedule := [none, none, some (.failure (.unavailable "down"))]
    let turns : Turns := { accounts := [0, 1, 0] }
    let batch := (r.migrateBatch [a, b] 2 turns).run (Schedule.handler x)
      (schedule, ({} : Config).tables.database .empty)
    ofConfig {} = .ok r ∧ x.IsGenuine ∧
      (∀ q : Store.Put, q.table = retries → ∀ m, x (.put q) m = false) ∧
      ∃ report t', batch.result = some (.ok report) ∧
        batch.state.2 = ({} : Config).tables.database t' ∧ report.failed = 1 ∧
        report.migrated + report.alreadyMigrated + report.failed = 2 ∧
        (t'.Queued a.uuid ∨ t'.Queued b.uuid) := by
  intro a b r retries x schedule turns batch
  have hconfig : ofConfig {} = .ok r := rfl
  have hx : x.IsGenuine := Exposure.isGenuine_genuine _
  have hspared : ∀ q : Store.Put, q.table = retries → ∀ m, x (.put q) m = false := by
    intro q hq m
    simp only [x, Exposure.genuine, Store.Request.tables, Store.Request.operation, hq,
      List.any_cons, List.any_nil, beq_self_eq_true, Bool.and_self, Bool.not_true, Bool.or_false,
      Bool.false_and]
  have hreport : (batch.result.bind Except.toOption).map (·.failed) = some 1 := by
    unfold batch turns schedule x retries r b a
    decide +kernel
  unfold batch at hreport ⊢
  obtain ⟨runs, _, _, -, -, -, -, -, ⟨report, hsum, hfailed, hresult⟩, _, t₂, -, hstate, -, -,
    hcame⟩ := batch_reports_migrations hconfig hx hspared .empty [a, b] 2 turns schedule
  rcases hresult with ⟨swept, -, hbatch⟩ | ⟨e, -, hbatch⟩
  · rw [hbatch] at hreport
    have hone : report.failed = 1 := Option.some.inj hreport
    refine ⟨hconfig, hx, hspared, _, t₂, hbatch, hstate, hone, hsum, ?_⟩
    obtain - | @⟨_, first, _, _, hfirst, hrest⟩ := hcame
    obtain - | @⟨_, second, _, _, hsecond, hnil⟩ := hrest
    cases hnil
    by_cases hserved : first.2.isOk
    · by_cases hserved' : second.2.isOk
      · -- Neither would have failed.
        simp only [List.countP_cons, List.countP_nil, hserved, hserved', Bool.not_true, if_neg,
          Bool.false_eq_true, not_false_eq_true] at hfailed
        exact absurd (hone.symm.trans hfailed) (by decide)
      · rw [if_neg hserved'] at hsecond
        exact .inr hsecond
    · rw [if_neg hserved] at hfirst
      exact .inl hfirst
  · rw [hbatch] at hreport
    cases hreport

/-- A batch may leave what no order of its migrations leaves, and its sweep may take what they
    have written though it fails.

    * Two workers migrate two accounts, and both accounts ask for the same two logins.  The
      first entry binds its login when all the others are done: by its row it comes before the
      second entry, which by its login comes before the third one, and so on round to the first.
    * An account that has a tombstone is migrated.  The sweep deletes it and then fails to remove
      the tombstone. -/
theorem batch_has_no_order :
    let u : Uuid := ⟨.replicate 16 1, rfl⟩
    let v : Uuid := ⟨.replicate 16 2, rfl⟩
    let r : Registry := ⟨{}⟩
    let n := ({} : Config).tables
    let rows (d : Store.Database) := (d.items n.accounts, d.items n.logins)
    let accounts : List Account := [⟨u, "+1", 1, {}⟩, ⟨u, "+2", 1, {}⟩, ⟨v, "+2", 1, {}⟩,
      ⟨v, "+1", 1, {}⟩]
    let overlapped := (r.migrateBatch accounts 2 { accounts := 0 :: .replicate 12 1 }).run
      Store.Database.handler (n.database .empty)
    let a : Account := ⟨u, "+1", 1, {}⟩
    let x : Exposure := .genuine fun operation _ => operation == .bulkWrite
    let schedule : Schedule := .replicate 7 (some (.failure (.unavailable "down")))
    let start := (schedule, n.database (Tables.empty.bury u))
    let migrated := (r.migrateAll [a] 1).run (Schedule.handler x) start
    let failed := (r.migrateBatch [a] 1).run (Schedule.handler x) start
    (overlapped.result.any (·.isOk) = true ∧
      ∀ order : List Account, order.Perm accounts → ∀ turns : Nat → List Bool,
        rows (r.leaves ((order.mapIdx fun i a => .migrate a (turns i)) ++ [.reconcile])
          (n.database .empty)) ≠ rows overlapped.state) ∧
      rows migrated.state.2 = ([Row.ofAccount a], [Row.ofLogin a.login u]) ∧
      failed.result.any (!·.isOk) = true ∧ rows failed.state.2 = ([], []) := by
  intro u v r n rows accounts overlapped a x schedule start migrated failed
  refine ⟨⟨?_, fun order horder turns => ?_⟩, ?_⟩
  · unfold overlapped accounts n r v u
    decide +kernel
  · -- A migration leaves the same whatever turns its two writes take, so the orders are all.
    have hr : Function.Injective r.config.tables.name :=
      (name_injective_of_ofConfig (show ofConfig {} = .ok r from rfl)).2
    have hall : ∀ order ∈ accounts.permutations',
        rows (r.leaves [.reconcile]
          (n.database ((order.flatMap Account.halves).foldl Half.apply .empty)))
            ≠ rows overlapped.state := by
      unfold overlapped accounts rows n r v u
      decide +kernel
    rw [leaves_append]
    rw [show n.database .empty = r.config.tables.database .empty from rfl, leaves_migrations hr]
    exact hall order (List.mem_permutations'.mpr horder)
  · unfold failed migrated start schedule x a rows n r u
    decide +kernel

end Registry

end LoginRegistry
