import LoginRegistry.Migration.Batch
import LoginRegistry.Proofs.Migration.Migrating
import LoginRegistry.Proofs.Migration.Redriving
import LoginRegistry.Proofs.Migration.Sweeping

/-! # Logins are recorded

    The login half of a migration can land without the row.  The login is then
    recorded in the retry queue, from where a delete can release it.  So in runs in
    which an id always comes with one login, every login that is bound has a row or
    a retry entry behind it (`logins_recorded`).
-/

namespace LoginRegistry

open Store (Operation)

namespace AccountMap

theorem isSome_get?_put {m : AccountMap} {u : Uuid} (h : (m.get? u).isSome) (a : Account) :
    ((m.put a).get? u).isSome := by
  rw [get?_put]
  split
  · rfl
  · exact h

end AccountMap

namespace Contents

/-- An id comes with one login, where `loginOf` tells the login of each id. -/
structure Labelled (loginOf : Uuid → String) (c : Contents) : Prop where
  /-- A row has the login of its id. -/
  row : ∀ u a, c.accounts.get? u = some a → a.login = loginOf u
  /-- An entry has the login of its id. -/
  retry : ∀ u l, c.retries.get? u = some l → l = loginOf u
  /-- A bound login is that of its owner. -/
  login : ∀ l u, c.logins.get? l = some u → l = loginOf u

/-- Every login is recorded. -/
structure Recorded (loginOf : Uuid → String) (c : Contents) : Prop extends Labelled loginOf c where
  /-- The owner of a login has a row or an entry. -/
  owner : ∀ l u, c.logins.get? l = some u →
    (c.accounts.get? u).isSome ∨ (c.retries.get? u).isSome

/-- While some accounts are worked on, the logins of all others are recorded. -/
structure Working (loginOf : Uuid → String) (us : List Uuid) (c : Contents) : Prop
    extends Labelled loginOf c where
  /-- The owner of a login has a row or an entry, unless it is worked on. -/
  owner : ∀ l u, u ∉ us → c.logins.get? l = some u →
    (c.accounts.get? u).isSome ∨ (c.retries.get? u).isSome

variable {loginOf : Uuid → String} {c : Contents} {a : Account} {u : Uuid}

theorem recorded_empty : ({} : Contents).Recorded loginOf where
  row := nofun
  retry := nofun
  login := nofun
  owner := nofun

/-! ### Labels -/

namespace Labelled

theorem attempt (h : c.Labelled loginOf) (ha : a.login = loginOf a.uuid)
    (row login queued : Bool) : (c.attempt a row login queued).Labelled loginOf where
  row u b hb := by
    cases row with
    | false => exact h.row u b hb
    | true =>
      rcases c.accounts.eq_or_get?_of_get?_migrate a hb with rfl | hb'
      · rw [ha, AccountMap.uuid_eq hb]
      · exact h.row u b hb'
  retry u l hl := by
    cases queued with
    | false => exact h.retry u l hl
    | true =>
      rw [attempt_retries, if_pos rfl, SortedMap.get?_insert_eq] at hl
      split at hl
      · next hu => rw [hu, ← ha, Option.some.inj hl]
      · exact h.retry u l hl
  login l u hu := by
    cases login with
    | false => exact h.login l u hu
    | true =>
      rcases c.eq_or_get?_of_get?_migratedLogins a hu with ⟨rfl, rfl⟩ | hu
      · exact ha
      · exact h.login l u hu

theorem eraseAccount (h : c.Labelled loginOf) (u : Uuid) : (c.eraseAccount u).Labelled loginOf where
  row v b hb := by
    rw [eraseAccount_accounts, AccountMap.get?_erase] at hb
    split at hb
    · cases hb
    · exact h.row v b hb
  retry := h.retry
  login := h.login

theorem release (h : c.Labelled loginOf) (login : String) (u : Uuid) :
    (c.release login u).Labelled loginOf where
  row := by
    rw [release_accounts]
    exact h.row
  retry := by
    rw [release_retries]
    exact h.retry
  login l v hv := h.login l v ((get?_release_eq_some_iff c login u).mp hv).1

theorem dropRetry (h : c.Labelled loginOf) (u : Uuid) : (c.dropRetry u).Labelled loginOf where
  row := h.row
  retry v l hl := by
    rw [dropRetry_retries, SortedMap.get?_erase_eq] at hl
    split at hl
    · cases hl
    · exact h.retry v l hl
  login := h.login

/-- The login of an account that is known is that of its id. -/
theorem eq_of_knows (h : c.Labelled loginOf) {login : String} (hknows : c.Knows u login) :
    login = loginOf u := by
  rcases hknows with ⟨a, ha, rfl⟩ | hretry
  · exact h.row u a ha
  · exact h.retry u login hretry

end Labelled

namespace Recorded

/-! ### Writes to accounts -/

theorem putAccount (h : c.Recorded loginOf) (ha : a.login = loginOf a.uuid) :
    (c.putAccount a).Recorded loginOf := by
  refine { h with row := ?_, owner := ?_ }
  · intro u b hb
    rw [putAccount_accounts, AccountMap.get?_put] at hb
    split at hb
    · next hu =>
      obtain rfl := Option.some.inj hb
      rw [hu, ha]
    · exact h.row u b hb
  · intro l u hu
    exact (h.owner l u hu).imp_left (AccountMap.isSome_get?_put · a)

theorem revise (h : c.Recorded loginOf) {b : Account} (hb : c.accounts.get? b.uuid = some b) :
    (c.putAccount (b.revised a)).Recorded loginOf :=
  h.putAccount (h.row b.uuid b hb)

/-- A row may be removed once no login points at it. -/
theorem eraseAccount (h : c.Recorded loginOf) (hfree : ∀ l, c.logins.get? l ≠ some u) :
    (c.eraseAccount u).Recorded loginOf := by
  refine { h.toLabelled.eraseAccount u with owner := fun l v hv => ?_ }
  have hne : v ≠ u := by
    rintro rfl
    exact hfree l hv
  rw [eraseAccount_accounts, AccountMap.get?_erase_ne _ hne]
  exact h.owner l v hv

/-! ### Writes to logins -/

theorem bindLogin (h : c.Recorded loginOf) (ha : a.login = loginOf a.uuid)
    (hrow : (c.accounts.get? a.uuid).isSome) : (c.bindLogin a.login a.uuid).Recorded loginOf := by
  have hbefore : ∀ l u, (c.bindLogin a.login a.uuid).logins.get? l = some u →
      l = a.login ∧ u = a.uuid ∨ c.logins.get? l = some u := by
    intro l u hu
    rw [bindLogin_logins, SortedMap.get?_insert_eq] at hu
    split at hu
    · next hl => exact .inl ⟨hl, (Option.some.inj hu).symm⟩
    · exact .inr hu
  refine { h with login := ?_, owner := ?_ }
  · intro l u hu
    rcases hbefore l u hu with ⟨rfl, rfl⟩ | hu
    · exact ha
    · exact h.login l u hu
  · intro l u hu
    rcases hbefore l u hu with ⟨rfl, rfl⟩ | hu
    · exact .inl hrow
    · exact h.owner l u hu

theorem release (h : c.Recorded loginOf) (login : String) (u : Uuid) :
    (c.release login u).Recorded loginOf := by
  refine { h.toLabelled.release login u with owner := fun l v hv => ?_ }
  rw [release_accounts, release_retries]
  exact h.owner l v ((get?_release_eq_some_iff c login u).mp hv).1

/-- After the login of an id is released, no login points at the id. -/
theorem free_of_release (h : c.Recorded loginOf) (u : Uuid) (l : String) :
    (c.release (loginOf u) u).logins.get? l ≠ some u := by
  intro hu
  obtain ⟨hbound, hnot⟩ := (get?_release_eq_some_iff c (loginOf u) u).mp hu
  exact hnot ⟨h.login l u hbound, rfl⟩

/-- While the login of an id is another's, no login points at the id. -/
theorem free_of_owned (h : c.Recorded loginOf) {v : Uuid}
    (hv : c.logins.get? (loginOf u) = some v) (hne : v ≠ u) (l : String) :
    c.logins.get? l ≠ some u := by
  intro hu
  rw [h.login l u hu, hv] at hu
  exact hne (Option.some.inj hu)

/-! ### Operations -/

/-- A create can be cut off at any stage. -/
theorem createStage (h : c.Recorded loginOf) (ha : a.login = loginOf a.uuid) {c' : Contents}
    (hstage : CreateStage c a c') : c'.Recorded loginOf := by
  cases hstage with
  | start => exact h
  | stored _ => exact h.putAccount ha
  | bound _ _ =>
    refine (h.putAccount ha).bindLogin ha ?_
    rw [putAccount_accounts, AccountMap.get?_put_self]
    rfl
  | withdrawn _ hv hne =>
    -- The account may have had a row before, but never its login.
    rw [ha] at hv
    exact (h.putAccount ha).eraseAccount (h.free_of_owned hv hne)

/-- A removal can be cut off at any stage. -/
theorem removeStage (h : c.Recorded loginOf) {c' : Contents} (hstage : RemoveStage c u c') :
    c'.Recorded loginOf := by
  cases hstage with
  | start => exact h
  | released _ => exact h.release _ u
  | removed ha =>
    rw [h.row u _ ha]
    exact (h.release _ u).eraseAccount (h.free_of_release u)

theorem releaseRecorded (h : c.Recorded loginOf) (u : Uuid) :
    (c.releaseRecorded u).Recorded loginOf := by
  unfold Contents.releaseRecorded
  split
  · exact h.release _ u
  · exact h

end Recorded

/-! ### Accounts that are worked on -/

theorem Recorded.working (h : c.Recorded loginOf) (us : List Uuid) : c.Working loginOf us :=
  ⟨h.toLabelled, fun l u _ => h.owner l u⟩

namespace Working

variable {us : List Uuid}

/-- Once the logins of the accounts that were worked on are recorded as well, all are. -/
theorem recorded (h : c.Working loginOf us) (hdone : ∀ u ∈ us, ∀ l, c.logins.get? l = some u →
    (c.accounts.get? u).isSome ∨ (c.retries.get? u).isSome) : c.Recorded loginOf := by
  refine { h.toLabelled with owner := fun l u hu => ?_ }
  by_cases hmem : u ∈ us
  · exact hdone u hmem l hu
  · exact h.owner l u hmem hu

theorem attempt (h : c.Working loginOf us) (ha : a.login = loginOf a.uuid) (hmem : a.uuid ∈ us)
    (row login queued : Bool) : (c.attempt a row login queued).Working loginOf us := by
  refine { h.toLabelled.attempt ha row login queued with owner := fun l u hu hbound => ?_ }
  have hne : u ≠ a.uuid := by
    rintro rfl
    exact hu hmem
  have hbefore : c.logins.get? l = some u := by
    cases login with
    | false => exact hbound
    | true => exact (c.eq_or_get?_of_get?_migratedLogins a hbound).resolve_left fun h => hne h.2
  -- Rows and entries of other accounts stay.
  refine (h.owner l u hu hbefore).imp (fun hrow => ?_) fun hretry => ?_
  · cases row with
    | false => exact hrow
    | true => rwa [attempt_accounts, if_pos rfl, AccountMap.get?_migrate_ne _ a hne]
  · cases queued with
    | false => exact hretry
    | true => rwa [attempt_retries, if_pos rfl, SortedMap.get?_insert_ne _ hne]

/-- A request for an entry with which the source agrees. -/
theorem driveStep {source : LegacySource} (hsource : ∀ a, source.loadInWorker u = .account (some a) →
      a.uuid = u ∧ a.login = loginOf u) (hu : u ∈ us) {c' : Contents}
    (h : c.Working loginOf us) (hstep : c.DriveStep source u c') : c'.Working loginOf us := by
  have hother : ∀ {v}, v ∉ us → v ≠ u := by
    rintro v hv rfl
    exact hv hu
  cases hstep with
  | @attempt a row login queued ha =>
    obtain ⟨rfl, hlogin⟩ := hsource a ha
    exact h.attempt hlogin hu row login queued
  | release login _ =>
    refine { h.toLabelled.release login u with owner := fun l v hv hbound => ?_ }
    rw [release_accounts, release_retries]
    exact h.owner l v hv ((get?_release_eq_some_iff c login u).mp hbound).1
  | erase _ =>
    refine { h.toLabelled.eraseAccount u with owner := fun l v hv hbound => ?_ }
    rw [eraseAccount_accounts, AccountMap.get?_erase_ne _ (hother hv)]
    exact h.owner l v hv hbound
  | drop =>
    refine { h.toLabelled.dropRetry u with owner := fun l v hv hbound => ?_ }
    rw [dropRetry_retries, SortedMap.get?_erase_ne _ (hother hv)]
    exact h.owner l v hv hbound

end Working

/-- What has come of an entry: if a login is bound to the account, that is recorded. -/
theorem recorded_of_drove {source : LegacySource} {entries : List Uuid} {spoilt : Prop}
    {start : Contents} {outcome : RedriveOutcome}
    (hsource : ∀ a, source.loadInWorker u = .account (some a) → a.uuid = u)
    (hlabelled : ∀ c', start.Drives source entries c' → c'.Labelled loginOf)
    (hc : c.Labelled loginOf) (hdrove : start.Drove source entries spoilt c u outcome)
    (hqueued : (c.retries.get? u).isSome ↔ outcome.isDriven = false) {l : String}
    (hl : c.logins.get? l = some u) :
    (c.accounts.get? u).isSome ∨ (c.retries.get? u).isSome := by
  cases hdrove with
  | @migrated a _ ha hrow _ _ =>
    obtain ⟨b, hb, -⟩ := hrow
    rw [hsource a ha] at hb
    exact .inl (Option.isSome_iff_exists.mpr ⟨b, hb⟩)
  | dropped _ _ hbefore hknows hfree =>
    -- The login that was freed is the only one that the account can have had.
    rw [(hlabelled _ hbefore).eq_of_knows hknows, ← hc.login l u hl] at hfree
    exact absurd hl hfree
  | kept _ => exact .inr (hqueued.mpr rfl)

/-- Logins stay recorded at every stage of every operation. -/
theorem steady_recorded (loginOf : Uuid → String) :
    Steady (fun a => a.login = loginOf a.uuid) (Recorded loginOf) where
  create h ha := h.createStage ha
  revise h := h.revise
  remove h := h.removeStage
  releaseRecorded u h := h.releaseRecorded u
  setVersion _ h := { h with }
  withTombstones _ h := { h with }

/-! ### Deleted accounts -/

/-- An account is gone: it has no row and no login. -/
structure Gone (c : Contents) (u : Uuid) : Prop where
  /-- There is no row. -/
  row : c.accounts.get? u = none
  /-- No login is bound to it. -/
  login : ∀ l, c.logins.get? l ≠ some u

theorem Recorded.gone_of_releaseRecorded (h : c.Recorded loginOf)
    (hrow : c.accounts.get? u = none) : (c.releaseRecorded u).Gone u := by
  unfold Contents.releaseRecorded
  split
  · next l hl =>
    rw [h.retry u l hl]
    exact ⟨by rw [release_accounts, hrow], h.free_of_release u⟩
  · next hnone =>
    -- Neither row nor entry, so there was no login.
    refine ⟨hrow, fun l hl => ?_⟩
    rcases h.owner l u hl with hsome | hsome
    · rw [hrow] at hsome
      cases hsome
    · rw [hnone] at hsome
      cases hsome

theorem Recorded.gone_of_removed (h : c.Recorded loginOf) (ha : c.accounts.get? u = some a) :
    ((c.release a.login u).eraseAccount u).Gone u := by
  rw [h.row u a ha]
  exact ⟨AccountMap.get?_erase_self _ u, h.free_of_release u⟩

end Contents

/-! ### Jobs -/

/-- What the source has for an id is an account of that id with its login. -/
def LegacySource.Serves (loginOf : Uuid → String) (source : LegacySource) : Prop :=
  ∀ u a, source.accounts.get? u = some a → a.uuid = u ∧ a.login = loginOf u

theorem LegacySource.Serves.loaded {loginOf : Uuid → String} {source : LegacySource}
    (h : source.Serves loginOf) {u : Uuid} {a : Account}
    (ha : source.loadInWorker u = .account (some a)) : a.uuid = u ∧ a.login = loginOf u :=
  h u a (get?_of_loadInWorker ha)

theorem LegacySource.serves_empty (loginOf : Uuid → String) : LegacySource.Serves loginOf {} := by
  intro u a h
  cases h

/-- A source in memory serves what is put into it. -/
theorem LegacySource.Serves.insert {loginOf : Uuid → String} {source : LegacySource}
    (h : source.Serves loginOf) {a : Account} (ha : a.login = loginOf a.uuid) :
    (source.insert a).Serves loginOf := by
  intro u b hb
  rw [LegacySource.insert, SortedMap.get?_insert_eq] at hb
  split at hb
  · next hu =>
    obtain rfl := Option.some.inj hb
    rw [hu]
    exact ⟨rfl, ha⟩
  · exact h u b hb

/-- Every account that the job stores for an id comes with the login of the id. -/
def Job.Serves (loginOf : Uuid → String) : Job → Prop
  | .call made => made.IsAdmitted fun a => a.login = loginOf a.uuid
  | .reconcile => True
  | .migrate a _ => a.login = loginOf a.uuid
  | .migrateBatch accounts _ _ => ∀ a ∈ accounts, a.login = loginOf a.uuid
  | .redrive source _ _ => source.Serves loginOf

namespace Registry

variable {r : Registry} {exposed : Operation → String → Bool} {c : Contents}
  {loginOf : Uuid → String}

section valid

variable (hr : Function.Injective r.config.tables.name)

include hr

theorem upholds_recorded (loginOf : Uuid → String) :
    r.Upholds exposed (fun a => a.login = loginOf a.uuid) (Contents.Recorded loginOf) :=
  upholds_of_steady hr (Contents.steady_recorded loginOf)

/-- A delete that is done leaves nothing of the account. -/
theorem leads_deleteWith_recorded (hc : c.Recorded loginOf) (u : Uuid) (options : DeleteOptions) :
    r.Leads exposed (r.deleteWith u options) c (fun _ c' => c'.Recorded loginOf ∧ c'.Gone u)
      fun _ c' => (∃ operation table, exposed operation table = true) ∧ c'.Recorded loginOf := by
  refine leads_deleteWith_of_steady hr (Contents.steady_recorded loginOf) options hc ?_ ?_ ?_
  · intro start hstart
    exact hstart.gone_of_releaseRecorded
  · intro start a hstart
    exact hstart.gone_of_removed
  · intro c' version hgone
    exact { hgone with }

/-- A delete that nothing befalls is done. -/
theorem ends_delete_recorded (hc : c.Recorded loginOf) (u : Uuid) (version : Int64) :
    r.Ends (fun _ _ => false) (r.delete u version).run c fun o c' =>
      o = some (.ok ()) ∧ c'.Gone u := by
  refine Ends.mono (leads_deleteWith_recorded hr hc u _) fun o c' hc' => ?_
  match o with
  | some (.ok ()) => exact ⟨rfl, hc'.2⟩
  | some (.error e) => exact nomatch hc'.1
  | none => exact nomatch hc'.1

section queue

variable (hqueue : exposed .put r.config.tables.retries = false)

include hqueue

/-! ### Jobs -/

theorem ends_migrate_recorded (hc : c.Recorded loginOf) {a : Account}
    (ha : a.login = loginOf a.uuid) (turns : List Bool) :
    r.Ends exposed (r.migrate a turns) c fun o c' => o ≠ none ∧ c'.Recorded loginOf := by
  have hworking := hc.working [a.uuid]
  refine ends_migrate hr hqueue ?_ ?_
  · intro applied queued _
    refine ⟨nofun, (hworking.attempt ha List.mem_cons_self ..).recorded fun u hu l _ => .inl ?_⟩
    obtain ⟨b, hb, -⟩ := c.accounts.exists_get?_migrate_self a
    exact List.mem_singleton.mp hu ▸ Option.isSome_iff_exists.mpr ⟨b, hb⟩
  · intro _ e row login
    refine ⟨nofun, (hworking.attempt ha List.mem_cons_self ..).recorded fun u hu l _ => .inr ?_⟩
    rw [List.mem_singleton.mp hu, Contents.attempt_retries, if_pos rfl, SortedMap.get?_insert_self]
    rfl

theorem ends_migrateAll_recorded {accounts : List Account} (hc : c.Recorded loginOf)
    (haccounts : ∀ a ∈ accounts, a.login = loginOf a.uuid) (workers : UInt64) (turns : Turns) :
    r.Ends exposed (r.migrateAll accounts workers turns) c
      fun o c' => o ≠ none ∧ c'.Recorded loginOf := by
  refine Ends.mono (ends_migrateAll hr hqueue accounts workers turns) ?_
  rintro _ c' ⟨hworks, outcomes, rfl, houtcomes⟩
  have hworking : c'.Working loginOf (accounts.map (·.uuid)) :=
    hworks.keeps (fun _ a ha row login queued _ h =>
      h.attempt (haccounts a ha) (List.mem_map_of_mem ha) row login queued) (hc.working _)
  -- What is not as new as it was to be is queued.
  refine ⟨nofun, hworking.recorded fun u hu l _ => ?_⟩
  obtain ⟨a, ha, rfl⟩ := List.mem_map.mp hu
  obtain ⟨outcome, -, hcame⟩ := Script.exists_of_forall₂ houtcomes ha
  cases hcame with
  | served hdate =>
    obtain ⟨b, hb, -⟩ := hdate.row
    exact .inl (Option.isSome_iff_exists.mpr ⟨b, hb⟩)
  | failed _ _ _ hretry => exact .inr (Option.isSome_iff_exists.mpr ⟨_, hretry⟩)

theorem ends_migrateBatch_recorded {accounts : List Account} (hc : c.Recorded loginOf)
    (haccounts : ∀ a ∈ accounts, a.login = loginOf a.uuid) (workers : UInt64) (turns : Turns) :
    r.Ends exposed (r.migrateBatch accounts workers turns) c fun _ c' => c'.Recorded loginOf := by
  refine ends_bind (Ends.mono (ends_migrateAll_recorded hr hqueue hc haccounts workers turns) ?_)
  rintro (_ | outcomes) c' ⟨-, hc'⟩
  · exact hc'
  · refine ends_bind (Ends.mono (ends_reconcile hr (upholds_recorded hr loginOf).sweeps hc') ?_)
    rintro (_ | _ | swept) c'' ⟨-, hc''⟩
    · exact hc''
    · exact ends_pure hc''
    · exact ends_pure hc''

omit hqueue in
theorem ends_redrive_recorded {source : LegacySource} (hsource : source.Serves loginOf)
    (hc : c.Recorded loginOf) (max : Option Nat) (turns : Turns) :
    r.Ends exposed (r.redrive source max turns) c fun _ c' => c'.Recorded loginOf := by
  refine Ends.mono (ends_redrive hr (fun _ _ _ ha => (hsource.loaded ha).1) turns) ?_
  rintro o c' (⟨_, -, rfl, -⟩ | ⟨entries, _, outcomes, -, -, hdrives, houtcomes⟩)
  · exact hc
  have hworking : ∀ c', c.Drives source entries c' → c'.Working loginOf entries := fun c' h =>
    h.keeps (fun _ hu _ _ hstep h => h.driveStep (fun _ => hsource.loaded) hu hstep)
      (hc.working entries)
  have hlabelled := fun c' h => (hworking c' h).toLabelled
  refine (hworking c' hdrives).recorded fun u hu l hl => ?_
  obtain ⟨outcome, -, hdrove, hqueued⟩ := Script.exists_of_forall₂ houtcomes hu
  exact Contents.recorded_of_drove (fun _ ha => (hsource.loaded ha).1) hlabelled
    (hlabelled c' hdrives) hdrove hqueued hl

theorem ends_work_recorded (hc : c.Recorded loginOf) {job : Job} (hjob : job.Serves loginOf) :
    r.Ends exposed (r.work job) c fun _ c' => c'.Recorded loginOf := by
  cases job with
  | call call => exact ends_work_call hr (upholds_recorded hr loginOf) hjob hc
  | reconcile => exact ends_work_reconcile hr (upholds_recorded hr loginOf).sweeps hc
  | migrate a turns =>
    refine ends_discard (Ends.mono (ends_migrate_recorded hr hqueue hc hjob turns) ?_)
    rintro (_ | _) c' ⟨-, hc'⟩ <;> exact hc'
  | migrateBatch accounts workers turns =>
    refine ends_discard (Ends.mono
      (ends_migrateBatch_recorded hr hqueue hc hjob workers turns) ?_)
    rintro (_ | _) c' hc' <;> exact hc'
  | redrive source max turns =>
    refine ends_discard (Ends.mono (ends_redrive_recorded hr hjob hc max turns) ?_)
    rintro (_ | _) c' hc' <;> exact hc'

end queue

end valid

/-- In runs of calls and migrations on a fresh registry in which an id always comes
    with one login, with any request failing or panicking except puts on the retry
    queue, every login that is bound has the row of its owner or a retry entry that
    records it.  So a delete that nothing befalls leaves neither row nor login. -/
theorem logins_recorded {config : Config} {r : Registry} (h : ofConfig config = .ok r)
    {loginOf : Uuid → String} {jobs : List Job} (hjobs : ∀ job ∈ jobs, job.Serves loginOf)
    (schedule : Schedule) :
    let exposed := fun operation table =>
      !(operation == Operation.put && table == config.tables.retries)
    ∃ c, (r.after (.genuine exposed) jobs
          (schedule, (Testbed.ofTables config.tables).database)).2 = r.store c ∧
      (∀ login u, c.logins.get? login = some u →
        (∃ a, c.accounts.get? u = some a ∧ a.login = login) ∨ c.retries.get? u = some login) ∧
      ∀ u version,
        let run := (r.delete u version).run.run Store.Database.handler (r.store c)
        run.result = some (.ok ()) ∧ ∃ c', run.state = r.store c' ∧
          c'.accounts.get? u = none ∧ ∀ login, c'.logins.get? login ≠ some u := by
  obtain ⟨rfl, hr⟩ := name_injective_of_ofConfig h
  rw [store_empty hr]
  intro exposed
  have hqueue : exposed .put r.config.tables.retries = false := by
    simp only [exposed, beq_self_eq_true, Bool.and_self, Bool.not_true]
  obtain ⟨c, hstate, hc⟩ := after_invariant
    (fun job hjob c hc => ends_work_recorded hr hqueue hc (hjobs job hjob))
    Contents.recorded_empty schedule
  refine ⟨c, hstate, ?_, ?_⟩
  · intro login u hu
    have hlogin := hc.login login u hu
    rcases hc.owner login u hu with hrow | hretry
    · obtain ⟨a, ha⟩ := Option.isSome_iff_exists.mp hrow
      exact .inl ⟨a, ha, (hc.row u a ha).trans hlogin.symm⟩
    · obtain ⟨l, hl⟩ := Option.isSome_iff_exists.mp hretry
      exact .inr (hl.trans (congrArg some ((hc.retry u l hl).trans hlogin.symm)))
  · intro u version run
    obtain ⟨c', hstate, hresult, hgone⟩ := (ends_delete_recorded hr hc u version).run_calm
    exact ⟨hresult, c', hstate, hgone.row, hgone.login⟩

/-- A migration of which only the login lands, and a re-drive whose removal of the
    entry fails. -/
theorem logins_recorded_default :
    let a : Account := ⟨⟨.replicate 16 1, rfl⟩, "+1", 1, {}⟩
    let source : LegacySource := ({} : LegacySource).insert a
    let jobs : List Job := [.migrate a, .redrive source none]
    let schedule : Schedule := [some .panic, none, none, none, none, none,
      some (.failure (.throttled "migration_retry_accounts"))]
    let exposed := fun operation table =>
      !(operation == Operation.put && table == ({} : Config).tables.retries)
    Registry.ofConfig {} = .ok ⟨{}⟩ ∧ (∀ job ∈ jobs, job.Serves fun _ => "+1") ∧
      ∃ c, ((⟨{}⟩ : Registry).after (.genuine exposed) jobs
            (schedule, (Testbed.ofTables ({} : Config).tables).database)).2
          = (⟨{}⟩ : Registry).store c ∧
        ∀ login u, c.logins.get? login = some u →
          (∃ a, c.accounts.get? u = some a ∧ a.login = login) ∨
            c.retries.get? u = some login := by
  intro a source jobs schedule exposed
  have hconfig : Registry.ofConfig {} = .ok ⟨{}⟩ := rfl
  have hsource : source.Serves fun _ => "+1" :=
    (LegacySource.serves_empty _).insert rfl
  have hjobs : ∀ job ∈ jobs, job.Serves fun _ => "+1" := by
    simp only [jobs, List.forall_mem_cons, List.not_mem_nil, false_implies, implies_true, and_true]
    exact ⟨rfl, hsource⟩
  obtain ⟨c, hstate, hlogins, -⟩ := logins_recorded hconfig hjobs schedule
  exact ⟨hconfig, hjobs, c, hstate, hlogins⟩

end Registry

end LoginRegistry
