import LoginRegistry.Migration.Account
import LoginRegistry.Proofs.Migration.Asking
import LoginRegistry.Proofs.Registry.Contents
import LoginRegistry.Proofs.Script.Asking

/-! # Migrations whose writes fail

    The two writes of a migration stand for themselves: whatever becomes of one of them,
    the other is made as if it were alone, and the account is queued if one has failed
    (`failed_writes_are_queued`).

    A write fails because the store refuses the request, for instance for want of the
    table, because the request is befallen by an error, or because it panics.  An error is
    queued by the worker that met it, a panic by the migration itself once both workers have
    ended; either way the queue holds one entry in the end.

    The puts of the two workers are to different tables, or they are the same put into the
    retry queue.  So they commute, and it does not matter which turns the workers take
    (`run_migrate_eq_serial`).

    The store may be in any state that has a retry queue.  So the argument is about tables
    by name: a write looks at its own table and changes no other (`Confined`).
-/

namespace LoginRegistry

open Store (Condition Database Item Put Request Table)

/-! ### Fates -/

/-- What befalls each request, if anything does. -/
abbrev Fate := Request → Option Mishap

/-- Answers each request from the database or as its fate has it. -/
def Fate.handler (fate : Fate) : Handler Database where
  respond request d :=
    match fate request with
    | some m => m.respond request d
    | none => d.respond request

theorem Fate.respond_of_none {fate : Fate} {request : Request} (h : fate request = none)
    (d : Database) : fate.handler.respond request d = d.respond request := by
  simp only [handler, h]

theorem Fate.respond_of_some {fate : Fate} {request : Request} {m : Mishap}
    (h : fate request = some m) (d : Database) :
    fate.handler.respond request d = m.respond request d := by
  simp only [handler, h]

/-! ### Puts -/

/-- What a put makes of its table, if there is one. -/
def Store.Put.revise (q : Put) : Option Table → Except Store.Error Table
  | none => .error (.tableNotFound q.table)
  | some t => do
    let key ← t.keyOf q.table q.item
    t.check q.table key q.condition q.returnOld
    return t.put key q.item

/-- A put looks at its own table and changes no other. -/
theorem Store.Database.put_eq (d : Database) (q : Put) :
    d.put q = (q.revise (d.get? q.table)).map (d.insert q.table) := by
  unfold Database.put Database.table Store.Put.revise
  cases d.get? q.table with
  | none => rfl
  | some t =>
    simp only [bind, Except.bind, pure, Except.pure]
    cases t.keyOf q.table q.item with
    | error e => rfl
    | ok key =>
      simp only
      cases t.check q.table key q.condition q.returnOld with
      | error e => rfl
      | ok _ => rfl

/-- The answer to a put, and the database after it: the table is revised or all stays. -/
def Store.Database.revised (d : Database) (name : String) :
    Except (Answer Unit) Table → Answer Unit × Database
  | .ok t => (.ok (), d.insert name t)
  | .error answer => (answer, d)

/-- The end of a write that may be refused, by the answer to its put. -/
def Answer.unlessRefused : Answer Unit → Option (Except RegistryError Bool)
  | .ok () => some (.ok true)
  | .failed (.conditionFailed ..) => some (.ok false)
  | .failed e => some (.error (.store e))
  | .panicked => none

theorem run_unlessRefused_put (h : Handler Database) (q : Put) (d : Database) :
    let answered := h.respond (.put q) d
    let run := (Action.unlessRefused (Script.put q)).run.run h d
    run.result = answered.1.unlessRefused ∧ run.state = answered.2 := by
  intro answered run
  have hwithin : Action.Within h.answers (Action.unlessRefused (Script.put q)) d
      (fun applied d' => some (.ok applied) = answered.1.unlessRefused ∧ d' = answered.2)
      fun o d' => o.map Except.error = answered.1.unlessRefused ∧ d' = answered.2 := by
    apply Action.within_unlessRefused
    apply Script.within_send
    intro answer d' hd
    have hanswered : answered = (answer, d') := hd
    rw [hanswered]
    match answer with
    | .ok () => exact ⟨rfl, rfl⟩
    | .panicked => exact ⟨rfl, rfl⟩
    | .failed e =>
      cases e with
      | conditionFailed | tableNotFound | invalid | throttled | unavailable => exact ⟨rfl, rfl⟩
  have hrun := Script.within_answers_iff.mp hwithin
  split at hrun
  · next applied hresult => exact ⟨hresult.trans hrun.1, hrun.2⟩
  · next e hresult => exact ⟨hresult.trans hrun.1, hrun.2⟩
  · next hresult => exact ⟨hresult.trans hrun.1, hrun.2⟩

/-- A put that does not fail is answered by the database, unless it is refused out of
    nothing. -/
theorem Fate.run_of_not_failed {fate : Fate}
    (hgenuine : ∀ request m, fate request = some m → m.isGenuine = true) {q : Put} {d : Database}
    (hserved : ¬ ∀ applied, ((Action.unlessRefused (Script.put q)).run.run fate.handler d).result
      ≠ some (.ok applied)) :
    let run := (Action.unlessRefused (Script.put q)).run.run fate.handler d
    let served := (Action.unlessRefused (Script.put q)).run.run Database.handler d
    run.result = served.result ∧ run.state = served.state := by
  have hsame : fate.handler.respond (.put q) d = Database.handler.respond (.put q) d →
      let run := (Action.unlessRefused (Script.put q)).run.run fate.handler d
      let served := (Action.unlessRefused (Script.put q)).run.run Database.handler d
      run.result = served.result ∧ run.state = served.state := by
    intro hsame
    have hrun := run_unlessRefused_put fate.handler q d
    have hplain := run_unlessRefused_put Database.handler q d
    simp only [hsame] at hrun
    exact ⟨hrun.1.trans hplain.1.symm, hrun.2.trans hplain.2.symm⟩
  have hresult := (run_unlessRefused_put fate.handler q d).1
  cases hfate : fate (.put q) with
  | none => exact hsame (respond_of_none hfate d)
  | some m =>
    have hm := hgenuine _ _ hfate
    rw [respond_of_some hfate] at hresult
    cases m with
    | holdBack marks => exact hsame (respond_of_some hfate d)
    | panic =>
      rw [hresult] at hserved
      exact absurd (fun _ => nofun) hserved
    | failure e =>
      rw [hresult] at hserved
      cases e with
      | conditionFailed => cases hm
      | tableNotFound | invalid | throttled | unavailable => exact absurd (fun _ => nofun) hserved

/-- Whatever befalls the put, its answer and what becomes of its table depend on the table
    alone. -/
theorem Fate.exists_revise (fate : Fate) (q : Put) :
    ∃ revise : Option Table → Except (Answer Unit) Table, ∀ d : Database,
      fate.handler.respond (.put q) d = d.revised q.table (revise (d.get? q.table)) := by
  have hserved : ∀ d : Database, d.respond (.put q) =
      d.revised q.table ((q.revise (d.get? q.table)).mapError Answer.failed) := by
    intro d
    show d.written (d.put q) = _
    rw [Database.put_eq]
    cases q.revise (d.get? q.table) with
    | ok t => rfl
    | error e => rfl
  cases hfate : fate (.put q) with
  | none =>
    simp only [respond_of_none hfate]
    exact ⟨fun o => (q.revise o).mapError Answer.failed, hserved⟩
  | some m =>
    simp only [respond_of_some hfate]
    cases m with
    | failure e => exact ⟨fun _ => .error (.failed e), fun _ => rfl⟩
    | panic => exact ⟨fun _ => .error .panicked, fun _ => rfl⟩
    | holdBack marks => exact ⟨fun o => (q.revise o).mapError Answer.failed, hserved⟩

theorem Store.Database.get?_revised_ne (d : Database) {name name' : String} (h : name' ≠ name)
    (e : Except (Answer Unit) Table) : (d.revised name e).2.get? name' = d.get? name' := by
  cases e with
  | ok t => exact SortedMap.get?_insert_ne d h t
  | error answer => rfl

/-- Puts to different tables commute, whatever befalls them. -/
theorem Fate.commutes_put (fate : Fate) {q q' : Put} (h : q.table ≠ q'.table) (d : Database) :
    fate.handler.Commutes (.put q) (.put q') d := by
  obtain ⟨revise, hrevise⟩ := fate.exists_revise q
  obtain ⟨revise', hrevise'⟩ := fate.exists_revise q'
  constructor
  · simp only [hrevise, hrevise', Database.get?_revised_ne d h]
    cases revise (d.get? q.table) <;> rfl
  · simp only [hrevise, hrevise', Database.get?_revised_ne d h.symm]
    cases revise' (d.get? q'.table) <;> rfl
  · simp only [hrevise, hrevise', Database.get?_revised_ne d h, Database.get?_revised_ne d h.symm]
    cases revise (d.get? q.table) with
    | error answer => cases revise' (d.get? q'.table) <;> rfl
    | ok t =>
      cases revise' (d.get? q'.table) with
      | error answer => rfl
      | ok t' => exact SortedMap.insert_comm d h t t'

/-- A write looks at one table and changes no other, and it changes nothing if it fails. -/
structure Confined (h : Handler Database) (write : Action Bool) (table : String) : Prop where
  /-- The result depends on the table. -/
  result : ∀ {d d' : Database}, d'.get? table = d.get? table →
    (write.run.run h d').result = (write.run.run h d).result
  /-- What is left in the table depends on the table. -/
  get? : ∀ {d d' : Database}, d'.get? table = d.get? table →
    (write.run.run h d').state.get? table = (write.run.run h d).state.get? table
  /-- The other tables stay. -/
  get?_ne : ∀ {d : Database} {name : String}, name ≠ table →
    (write.run.run h d).state.get? name = d.get? name
  /-- A failure leaves everything. -/
  failed : ∀ {d : Database}, (∀ applied, (write.run.run h d).result ≠ some (.ok applied)) →
    (write.run.run h d).state = d

/-- A put that may be refused is confined to its table, whatever befalls it. -/
theorem confined_put (fate : Fate) (q : Put) :
    Confined fate.handler (Action.unlessRefused (Script.put q)) q.table := by
  obtain ⟨revise, hrevise⟩ := fate.exists_revise q
  have hrun := run_unlessRefused_put fate.handler q
  simp only [hrevise] at hrun
  constructor
  · intro d d' hd
    rw [(hrun d').1, (hrun d).1, hd]
    cases revise (d.get? q.table) with
    | ok t => rfl
    | error answer => rfl
  · intro d d' hd
    rw [(hrun d').2, (hrun d).2, hd]
    cases revise (d.get? q.table) with
    | ok t =>
      show (d'.insert q.table t).get? q.table = (d.insert q.table t).get? q.table
      rw [SortedMap.get?_insert_self, SortedMap.get?_insert_self]
    | error answer => exact hd
  · intro d name hname
    rw [(hrun d).2, Database.get?_revised_ne d hname]
  · intro d hfailed
    rw [(hrun d).1] at hfailed
    rw [(hrun d).2]
    cases hr : revise (d.get? q.table) with
    | ok t =>
      rw [hr] at hfailed
      exact absurd rfl (hfailed true)
    | error answer => rfl

/-! ### Workers -/

/-- The result of a migration write, by how its action ended. -/
def writeOutcome (u : Uuid) : Option (Except RegistryError Bool) → Except MigrationError Bool
  | some (.ok applied) => .ok applied
  | some (.error e) => .error (.write u e)
  | none => .error .worker

/-- Whether a migration write ended with an error; a panic is none. -/
def erred : Option (Except RegistryError Bool) → Bool
  | some (.error _) => true
  | _ => false

/-- A write has failed: it was not even refused. -/
def WriteFailed (o : Option (Except RegistryError Bool)) : Prop := ∀ applied, o ≠ some (.ok applied)

section outcomes

variable {o o' : Option (Except RegistryError Bool)} (u : Uuid)

theorem exists_of_not_writeFailed (h : ¬ WriteFailed o) : ∃ applied, o = some (.ok applied) := by
  simpa only [WriteFailed, not_forall, not_not] using h

theorem exists_writeOutcome (h : WriteFailed o) : ∃ e, writeOutcome u o = .error e := by
  match o with
  | none => exact ⟨_, rfl⟩
  | some (.error e) => exact ⟨_, rfl⟩
  | some (.ok applied) => exact absurd rfl (h applied)

theorem erred_or_isNone (h : WriteFailed o) : erred o = true ∨ o.isNone = true := by
  match o with
  | none => exact .inr rfl
  | some (.error e) => exact .inl rfl
  | some (.ok applied) => exact absurd rfl (h applied)

/-- The failure of the row comes first. -/
theorem exists_bothApplied_row (h : WriteFailed o) (login : Except MigrationError Bool) :
    ∃ e, writeOutcome u o = .error e ∧ Registry.bothApplied (writeOutcome u o) login = .error e := by
  obtain ⟨e, he⟩ := exists_writeOutcome u h
  rw [he]
  exact ⟨e, rfl, rfl⟩

/-- The failure of the login comes through if the row has none. -/
theorem exists_bothApplied_login (h : ¬ WriteFailed o) (h' : WriteFailed o') :
    ∃ e, writeOutcome u o' = .error e ∧
      Registry.bothApplied (writeOutcome u o) (writeOutcome u o') = .error e := by
  obtain ⟨applied, rfl⟩ := exists_of_not_writeFailed h
  obtain ⟨e, he⟩ := exists_writeOutcome u h'
  rw [he]
  exact ⟨e, rfl, rfl⟩

/-- Both results as one are a failure exactly if one of them is. -/
theorem exists_bothApplied_iff :
    (∃ e, Registry.bothApplied (writeOutcome u o) (writeOutcome u o') = .error e) ↔
      WriteFailed o ∨ WriteFailed o' := by
  by_cases hfailed : WriteFailed o
  · obtain ⟨e, -, he⟩ := exists_bothApplied_row u hfailed (writeOutcome u o')
    exact iff_of_true ⟨e, he⟩ (.inl hfailed)
  · by_cases hfailed' : WriteFailed o'
    · obtain ⟨e, -, he⟩ := exists_bothApplied_login u hfailed hfailed'
      exact iff_of_true ⟨e, he⟩ (.inr hfailed')
    · obtain ⟨b, rfl⟩ := exists_of_not_writeFailed hfailed
      obtain ⟨c, rfl⟩ := exists_of_not_writeFailed hfailed'
      exact iff_of_false nofun (not_or.mpr ⟨hfailed, hfailed'⟩)

/-- Whichever write has failed, a worker or the migration itself queues the account. -/
theorem queued_of_failed (h : WriteFailed o ∨ WriteFailed o') :
    (erred o || erred o' || o.isNone || o'.isNone) = true := by
  simp only [Bool.or_eq_true]
  rcases h with h | h
  · rcases erred_or_isNone h with herred | hnone
    · exact .inl (.inl (.inl herred))
    · exact .inl (.inr hnone)
  · rcases erred_or_isNone h with herred | hnone
    · exact .inl (.inl (.inr herred))
    · exact .inr hnone

end outcomes

namespace Registry

/-- A migration of `a` is under way that started on the database `start`, with `queue` in
    the retry queue: what the account table and the login index hold by now, and whether the
    account is queued. -/
structure Amid (r : Registry) (a : Account) (start : Database) (queue : Rows)
    (rows logins : Option Table) (queued : Bool) (d : Database) : Prop where
  rows : d.get? r.config.tables.accounts = rows
  logins : d.get? r.config.tables.logins = logins
  retries : d.get? r.config.tables.retries = some {
    partition := Row.uuidName
    items := if queued then queue.insert (Row.uuidValue a.uuid) (Row.ofRetry a.uuid a.login)
      else queue }
  others : ∀ name, name ≠ r.config.tables.accounts → name ≠ r.config.tables.logins →
    name ≠ r.config.tables.retries → d.get? name = start.get? name

variable {r : Registry} {a : Account} {start d : Database} {queue : Rows}
  {rows logins : Option Table} {queued : Bool} {fate : Fate}

section valid

variable (hr : Function.Injective r.config.tables.name)

include hr

theorem accounts_ne_logins : r.config.tables.accounts ≠ r.config.tables.logins :=
  hr.ne (show TableId.accounts ≠ .logins from nofun)

theorem accounts_ne_retries : r.config.tables.accounts ≠ r.config.tables.retries :=
  hr.ne (show TableId.accounts ≠ .retries from nofun)

theorem logins_ne_retries : r.config.tables.logins ≠ r.config.tables.retries :=
  hr.ne (show TableId.logins ≠ .retries from nofun)

/-- The account is queued, once however often it is put there. -/
theorem Amid.put (h : r.Amid a start queue rows logins queued d) {t : Table}
    (ht : d.get? r.config.tables.retries = some t) :
    r.Amid a start queue rows logins true (d.insert r.config.tables.retries
      (t.put (Row.uuidValue a.uuid) (Row.ofRetry a.uuid a.login))) := by
  constructor
  · rw [SortedMap.get?_insert_ne d (accounts_ne_retries hr), h.rows]
  · rw [SortedMap.get?_insert_ne d (logins_ne_retries hr), h.logins]
  · obtain rfl := Option.some.inj (ht.symm.trans h.retries)
    rw [SortedMap.get?_insert_self]
    cases queued with
    | false => rfl
    | true => simp only [Table.put, if_true, SortedMap.insert_insert]
  · intro name h₁ h₂ h₃
    rw [SortedMap.get?_insert_ne d h₃, h.others name h₁ h₂ h₃]

/-- The row is written, or refused or failed, as if it were written alone. -/
theorem Amid.writeRow
    (h : r.Amid a start queue (start.get? r.config.tables.accounts) logins queued d) :
    let alone := (r.accounts.migrate a).run.run fate.handler start
    let run := (r.accounts.migrate a).run.run fate.handler d
    run.result = alone.result ∧
      r.Amid a start queue (alone.state.get? r.config.tables.accounts) logins queued run.state := by
  intro alone run
  have hput : Confined fate.handler (r.accounts.migrate a) r.config.tables.accounts :=
    confined_put fate _
  refine ⟨hput.result h.rows, hput.get? h.rows, ?_, ?_, ?_⟩
  · exact (hput.get?_ne (accounts_ne_logins hr).symm).trans h.logins
  · exact (hput.get?_ne (accounts_ne_retries hr).symm).trans h.retries
  · intro name h₁ h₂ h₃
    exact (hput.get?_ne h₁).trans (h.others name h₁ h₂ h₃)

theorem Amid.bindLogin
    (h : r.Amid a start queue rows (start.get? r.config.tables.logins) queued d) :
    let alone := (r.logins.migrate a.login a.uuid).run.run fate.handler start
    let run := (r.logins.migrate a.login a.uuid).run.run fate.handler d
    run.result = alone.result ∧
      r.Amid a start queue rows (alone.state.get? r.config.tables.logins) queued run.state := by
  intro alone run
  have hput : Confined fate.handler (r.logins.migrate a.login a.uuid) r.config.tables.logins :=
    confined_put fate (r.logins.bindRequest a.login a.uuid)
  refine ⟨hput.result h.logins, ?_, hput.get? h.logins, ?_, ?_⟩
  · exact (hput.get?_ne (accounts_ne_logins hr)).trans h.rows
  · exact (hput.get?_ne (logins_ne_retries hr).symm).trans h.retries
  · intro name h₁ h₂ h₃
    exact (hput.get?_ne h₂).trans (h.others name h₁ h₂ h₃)

variable (hspared : ∀ q : Put, q.table = r.config.tables.retries → fate (.put q) = none)

include hspared

omit hr hspared in
/-- A put into the retry queue stores the entry in its table. -/
theorem put_ofRetry {t : Table} (ht : d.get? r.config.tables.retries = some t)
    (hpartition : t.partition = Row.uuidName) (u : Uuid) (login : String) :
    d.put { table := r.config.tables.retries, item := Row.ofRetry u login }
      = .ok (d.insert r.config.tables.retries
          (t.put (Row.uuidValue u) (Row.ofRetry u login))) := by
  have hkey : t.keyOf r.config.tables.retries (Row.ofRetry u login) = .ok (Row.uuidValue u) := by
    unfold Table.keyOf
    rw [hpartition, Row.uuid_ofRetry]
  rw [Database.put_eq]
  simp only [Store.Put.revise, ht, hkey, bind, Except.bind, Table.check, pure, Except.pure,
    Except.map]

/-- A put into the retry queue that is spared succeeds. -/
theorem within_queueRetry_spared (h : r.Amid a start queue rows logins queued d) :
    (r.queueRetry a.uuid a.login).Within fate.handler.answers
      (fun o d' => o = some () ∧ r.Amid a start queue rows logins true d') d := by
  have hwithin : Action.Within fate.handler.answers (r.retries.putWithLogin a.uuid a.login) d
      (fun _ d' => r.Amid a start queue rows logins true d') fun _ _ => False := by
    apply Action.within_ofStore
    apply Script.within_send
    intro answer d' hd
    -- The put is neither befallen nor refused.
    have hanswer := (Fate.respond_of_none (hspared _ rfl) d).symm.trans hd
    change d.written (d.put { table := r.config.tables.retries, item := _ }) = _ at hanswer
    rw [put_ofRetry h.retries rfl] at hanswer
    obtain ⟨rfl, rfl⟩ := Prod.mk.inj hanswer
    exact h.put hr h.retries
  apply Script.within_bind
  apply Script.Within.mono hwithin
  intro o d' hdone
  match o, hdone with
  | some (.ok ()), hdone => exact ⟨rfl, hdone⟩

/-- A worker ends as its write does, and queues the account if that is with an error. -/
theorem within_guardedWrite_spared {write : Action Bool}
    (hwrite : r.Amid a start queue rows logins queued (write.run.run fate.handler d).state) :
    (r.guardedWrite a write).Within fate.handler.answers
      (fun o d' => o = (write.run.run fate.handler d).result ∧
        r.Amid a start queue rows logins (queued || erred o) d') d := by
  apply Script.within_bind
  apply Script.within_answers_iff.mpr
  match (write.run.run fate.handler d).result with
  | none => exact ⟨rfl, (Bool.or_false queued).symm ▸ hwrite⟩
  | some (.ok applied) => exact ⟨rfl, (Bool.or_false queued).symm ▸ hwrite⟩
  | some (.error e) =>
    apply Script.within_bind
    apply Script.Within.mono (within_queueRetry_spared hr hspared hwrite)
    rintro _ d' ⟨rfl, hd'⟩
    exact ⟨rfl, (Bool.or_true queued).symm ▸ hd'⟩

/-- A worker that panicked is queued when its result is taken. -/
theorem within_resolve_spared (h : r.Amid a start queue rows logins queued d)
    (result : Option (Except RegistryError Bool)) :
    (r.resolve a result).Within fate.handler.answers
      (fun o d' => o = some (writeOutcome a.uuid result) ∧
        r.Amid a start queue rows logins (queued || result.isNone) d') d := by
  match result with
  | some (.ok applied) => exact ⟨rfl, (Bool.or_false queued).symm ▸ h⟩
  | some (.error e) => exact ⟨rfl, (Bool.or_false queued).symm ▸ h⟩
  | none =>
    apply Script.within_bind
    apply Script.within_isolate
    apply Script.Within.mono (within_queueRetry_spared hr hspared h)
    rintro _ d' ⟨rfl, hd'⟩
    exact ⟨rfl, (Bool.or_true queued).symm ▸ hd'⟩

/-- The two writes end as if each were alone, and the account is queued if one of them has
    failed. -/
theorem within_migrate_spared
    (h : r.Amid a start queue (start.get? r.config.tables.accounts)
      (start.get? r.config.tables.logins) false start) :
    let row := (r.accounts.migrate a).run.run fate.handler start
    let login := (r.logins.migrate a.login a.uuid).run.run fate.handler start
    (r.migrate a).Within fate.handler.answers
      (fun o d' =>
        o = some (bothApplied (writeOutcome a.uuid row.result) (writeOutcome a.uuid login.result)) ∧
          r.Amid a start queue (row.state.get? r.config.tables.accounts)
            (login.state.get? r.config.tables.logins)
            (erred row.result || erred login.result || row.result.isNone || login.result.isNone) d')
      start := by
  intro row login
  rw [migrate_eq]
  apply Script.within_bind
  apply Script.within_isolate
  apply Script.Within.mono (within_guardedWrite_spared hr hspared (h.writeRow hr).2)
  rintro _ d₁ ⟨rfl, h₁⟩
  apply Script.within_bind
  apply Script.within_isolate
  apply Script.Within.mono (within_guardedWrite_spared hr hspared (h₁.bindLogin hr).2)
  rintro _ d₂ ⟨rfl, h₂⟩
  rw [(h₁.bindLogin hr).1] at h₂ ⊢
  apply Script.within_bind
  apply Script.Within.mono (within_resolve_spared hr hspared h₂ _)
  rintro _ d₃ ⟨rfl, h₃⟩
  apply Script.within_bind
  apply Script.Within.mono (within_resolve_spared hr hspared h₃ _)
  rintro _ d₄ ⟨rfl, h₄⟩
  exact ⟨rfl, h₄⟩

/-! ### Turns of the two workers -/

/-- A put of a worker: to its table, or of the account into the retry queue. -/
inductive WorkerPut (r : Registry) (a : Account) (table : String) : Request → Prop where
  | write {q : Put} : q.table = table → WorkerPut r a table (.put q)
  | queue : WorkerPut r a table
    (.put { table := r.config.tables.retries, item := Row.ofRetry a.uuid a.login })

/-- There is a retry queue. -/
def HasQueue (r : Registry) (d : Database) : Prop :=
  ∃ items, d.get? r.config.tables.retries = some { partition := Row.uuidName, items := items }

omit hr in
/-- A put into the queue succeeds and leaves a queue. -/
theorem HasQueue.respond (h : r.HasQueue d) :
    let answered := fate.handler.respond
      (.put { table := r.config.tables.retries, item := Row.ofRetry a.uuid a.login }) d
    answered.1 = .ok () ∧ r.HasQueue answered.2 := by
  obtain ⟨items, hitems⟩ := h
  have hanswer : Database.handler.respond
      (.put { table := r.config.tables.retries, item := Row.ofRetry a.uuid a.login }) d
        = (.ok (), _) :=
    congrArg d.written (put_ofRetry hitems rfl a.uuid a.login)
  intro answered
  have hanswered : answered = (.ok (), _) :=
    (Fate.respond_of_none (hspared _ rfl) d).trans hanswer
  rw [hanswered]
  exact ⟨rfl, _, SortedMap.get?_insert_self _ _ _⟩

variable {table table' : String} {request request' : Request}

omit hr in
theorem WorkerPut.hasQueue (hput : r.WorkerPut a table request)
    (htable : table ≠ r.config.tables.retries) (h : r.HasQueue d) :
    r.HasQueue (fate.handler.respond request d).2 := by
  cases hput with
  | @write q hq =>
    obtain ⟨revise, hrevise⟩ := fate.exists_revise q
    rw [HasQueue, hrevise, Database.get?_revised_ne d (hq ▸ htable.symm)]
    exact h
  | queue => exact (h.respond hspared).2

omit hr in
theorem WorkerPut.commutes (hput : r.WorkerPut a table request)
    (hput' : r.WorkerPut a table' request') (hne : table ≠ table')
    (htable : table ≠ r.config.tables.retries) (htable' : table' ≠ r.config.tables.retries)
    (h : r.HasQueue d) : fate.handler.Commutes request request' d := by
  cases hput with
  | write hq =>
    cases hput' with
    | write hq' => exact fate.commutes_put (hq ▸ hq' ▸ hne) d
    | queue => exact fate.commutes_put (hq ▸ htable) d
  | queue =>
    cases hput' with
    | write hq' => exact fate.commutes_put (hq' ▸ htable'.symm) d
    | queue =>
      -- The same put twice.
      obtain ⟨hfirst, hleft⟩ := h.respond (a := a) hspared
      have hsecond := (hleft.respond (a := a) hspared).1
      exact ⟨hsecond.trans hfirst.symm, hsecond.trans hfirst.symm, rfl⟩

/-- Whatever turns the workers take, a migration comes to what it comes to if the login waits for
    the row. -/
theorem run_migrate_eq_serial (h : r.HasQueue d) (a : Account) (turns : List Bool) :
    let run := (r.migrate a turns).run fate.handler d
    let serial := (r.migrate a).run fate.handler d
    run.result = serial.result ∧ run.state = serial.state := by
  have hrow : (r.guardedWrite a (r.accounts.migrate a)).Asks
      (r.WorkerPut a r.config.tables.accounts) :=
    asks_guardedWrite (Action.asks_ofStore (Script.asks_send .queue))
      (Action.asks_unlessRefused (Script.asks_send (.write rfl)))
  have hlogin : (r.guardedWrite a (r.logins.migrate a.login a.uuid)).Asks
      (r.WorkerPut a r.config.tables.logins) :=
    asks_guardedWrite (Action.asks_ofStore (Script.asks_send .queue))
      (Action.asks_unlessRefused (Script.asks_send (.write rfl)))
  obtain ⟨hresult, hstate⟩ := Script.run_both_isolate (h := fate.handler)
    (fun hd hput hput' => hput.commutes hspared hput' (accounts_ne_logins hr)
      (accounts_ne_retries hr) (logins_ne_retries hr) hd)
    (fun hd hput => hput.hasQueue hspared (accounts_ne_retries hr) hd)
    (fun hd hput => hput.hasQueue hspared (logins_ne_retries hr) hd) hrow hlogin h turns
  intro run serial
  simp only [run, serial, migrate, Script.result_run_bind, Script.state_run_bind, hresult, hstate]
  exact ⟨trivial, trivial⟩

end valid

/-- A migration on any store with a retry queue, whatever turns its workers take and whatever
    befalls its requests, unless it is refusals out of nothing, or befalls the puts into that
    queue.  Compare it with its two writes, each made alone on the same store under the same
    fate.

    * The account table and the login index end up as the write to them leaves them.  A write
      that fails leaves its table as it was, another one has done what it does on the store
      itself.
    * The migration fails if and only if one of the writes does, with the failure of the row
      if that has failed.  Otherwise it returns whether both writes were applied.
    * If it fails the queue has the account with its login, and is as it was apart from that;
      if not the queue is as it was. -/
theorem failed_writes_are_queued {config : Config} (h : ofConfig config = .ok r) {d : Database}
    (hqueue : d.get? config.tables.retries = some { partition := Row.uuidName, items := queue })
    (a : Account) (hgenuine : ∀ request m, fate request = some m → m.isGenuine = true)
    (hspared : ∀ q : Put, q.table = config.tables.retries → fate (.put q) = none)
    (turns : List Bool) :
    let run := (r.migrate a turns).run fate.handler d
    let row := (r.accounts.migrate a).run.run fate.handler d
    let login := (r.logins.migrate a.login a.uuid).run.run fate.handler d
    let rowServed := (r.accounts.migrate a).run.run Database.handler d
    let loginServed := (r.logins.migrate a.login a.uuid).run.run Database.handler d
    let failed (write : Run (Except RegistryError Bool) Database) :=
      ∀ applied, write.result ≠ some (.ok applied)
    (run.state.get? config.tables.accounts = row.state.get? config.tables.accounts ∧
      run.state.get? config.tables.logins = login.state.get? config.tables.logins ∧
      (failed row → row.state = d) ∧
      (¬ failed row → row.result = rowServed.result ∧ row.state = rowServed.state) ∧
      (failed login → login.state = d) ∧
      (¬ failed login → login.result = loginServed.result ∧ login.state = loginServed.state)) ∧
    (((∃ e, run.result = some (.error e)) ↔ failed row ∨ failed login) ∧
      (failed row → run.result = some (writeOutcome a.uuid row.result)) ∧
      (¬ failed row → failed login → run.result = some (writeOutcome a.uuid login.result)) ∧
      ∀ b c, row.result = some (.ok b) → login.result = some (.ok c) →
        run.result = some (.ok (b && c))) ∧
    ((failed row ∨ failed login → run.state.get? config.tables.retries = some {
        partition := Row.uuidName
        items := queue.insert (Row.uuidValue a.uuid) (Row.ofRetry a.uuid a.login) }) ∧
      (¬ failed row → ¬ failed login →
        run.state.get? config.tables.retries = d.get? config.tables.retries) ∧
      ∀ name, name ≠ config.tables.accounts → name ≠ config.tables.logins →
        name ≠ config.tables.retries → run.state.get? name = d.get? name) := by
  obtain ⟨rfl, hr⟩ := name_injective_of_ofConfig h
  intro run row login rowServed loginServed failed
  have hstart : r.Amid a d queue (d.get? r.config.tables.accounts)
      (d.get? r.config.tables.logins) false d := ⟨rfl, rfl, hqueue, fun _ _ _ _ => rfl⟩
  obtain ⟨hresult, hamid⟩ := Script.within_answers_iff.mp
    (within_migrate_spared hr hspared hstart)
  obtain ⟨hsame, hsame'⟩ := run_migrate_eq_serial hr hspared ⟨queue, hqueue⟩ a turns
  rw [← hsame'] at hamid
  rw [← hsame] at hresult
  change run.result = some (bothApplied (writeOutcome a.uuid row.result)
    (writeOutcome a.uuid login.result)) at hresult
  refine ⟨⟨hamid.rows, hamid.logins, (confined_put fate _).failed, Fate.run_of_not_failed hgenuine,
    (confined_put fate (r.logins.bindRequest a.login a.uuid)).failed,
    Fate.run_of_not_failed hgenuine⟩, ⟨?_, ?_, ?_, ?_⟩, ?_, ?_, hamid.others⟩
  · rw [hresult]
    exact (exists_congr fun e => Option.some_inj).trans (exists_bothApplied_iff a.uuid)
  · intro hfailed
    obtain ⟨e, he, hboth⟩ := exists_bothApplied_row a.uuid hfailed (writeOutcome a.uuid login.result)
    rw [hresult, hboth, he]
  · intro hnot hfailed
    obtain ⟨e, he, hboth⟩ := exists_bothApplied_login a.uuid hnot hfailed
    rw [hresult, hboth, he]
  · intro b c hb hc
    rw [hresult, hb, hc]
    rfl
  · intro hfailed
    rw [hamid.retries, if_pos (queued_of_failed hfailed)]
  · intro hnot hnot'
    obtain ⟨b, hb⟩ := exists_of_not_writeFailed hnot
    obtain ⟨c, hc⟩ := exists_of_not_writeFailed hnot'
    have hretries := hamid.retries
    rw [hb, hc] at hretries
    exact hretries.trans hqueue.symm

/-- A store with a retry queue and no other table, and a panic on the bind, which comes first.
    The missing account table is reported, and the account is queued. -/
theorem failed_writes_are_queued_default :
    let a : Account := ⟨⟨.replicate 16 1, rfl⟩, "+1", 1, {}⟩
    let n := ({} : Config).tables
    let d : Database := SortedMap.empty.insert n.retries { partition := Row.uuidName }
    let fate : Fate := fun request => if request.tables = [n.logins] then some .panic else none
    let r : Registry := ⟨{}⟩
    let run := (r.migrate a [true]).run fate.handler d
    ofConfig {} = .ok r ∧
      d.get? n.retries = some { partition := Row.uuidName, items := .empty } ∧
      (∀ request m, fate request = some m → m.isGenuine = true) ∧
      (∀ q : Put, q.table = n.retries → fate (.put q) = none) ∧
      run.result = some (.error (.write a.uuid (.store (.tableNotFound n.accounts)))) ∧
      run.state.get? n.retries = some {
        partition := Row.uuidName
        items := SortedMap.empty.insert (Row.uuidValue a.uuid) (Row.ofRetry a.uuid a.login) } := by
  intro a n d fate r run
  have hconfig : ofConfig {} = .ok r := rfl
  have hqueue : d.get? n.retries = some { partition := Row.uuidName, items := .empty } :=
    SortedMap.get?_insert_self _ _ _
  have hgenuine : ∀ request m, fate request = some m → m.isGenuine = true := by
    intro request m hm
    simp only [fate, Option.ite_none_right_eq_some, Option.some.injEq] at hm
    rw [← hm.2]
    rfl
  have hfate : ∀ q : Put, q.table ≠ n.logins → fate (.put q) = none :=
    fun q hq => if_neg fun htables => hq (List.singleton_injective htables)
  have hspared : ∀ q : Put, q.table = n.retries → fate (.put q) = none := by
    intro q hq
    apply hfate
    rw [hq]
    decide
  have hmissing : ∀ q : Put, q.table = n.accounts →
      fate.handler.respond (.put q) d = (.failed (.tableNotFound n.accounts), d) := by
    intro q hq
    have haccounts : d.get? q.table = none := hq ▸ SortedMap.get?_insert_ne _ (by decide) _
    rw [Fate.respond_of_none (hfate q (by rw [hq]; decide))]
    show d.written (d.put q) = _
    rw [Database.put_eq, haccounts, ← hq]
    rfl
  have hrow : ((r.accounts.migrate a).run.run fate.handler d).result
      = some (.error (.store (.tableNotFound n.accounts))) := by
    refine (run_unlessRefused_put fate.handler ?_ d).1.trans ?_
    rw [hmissing _ rfl]
    rfl
  obtain ⟨-, ⟨-, hfirst, -⟩, hqueued, -⟩ :=
    failed_writes_are_queued hconfig hqueue a hgenuine hspared [true]
  have hfailed : ∀ applied, ((r.accounts.migrate a).run.run fate.handler d).result
      ≠ some (.ok applied) := by
    intro applied
    rw [hrow]
    exact nofun
  refine ⟨hconfig, hqueue, hgenuine, hspared, ?_, hqueued (.inl hfailed)⟩
  rw [hfirst hfailed, hrow]
  rfl

end Registry

end LoginRegistry
