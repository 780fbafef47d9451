import LoginRegistry.Migration.Batch
import LoginRegistry.Proofs.Migration.Halves
import LoginRegistry.Proofs.Registry.Queueing
import LoginRegistry.Proofs.Script.Interleaving
import Mathlib.Logic.Relation

/-! # Migrations that are under way together

    The workers of several migrations make their requests in any order.  Each request writes
    a half of an account or puts an account into the retry queue (`Tables.Works`), and
    nothing that one of them has achieved is undone by the others.  So in the end an account
    is as new as it was to be, or its migration has failed and it is queued
    (`within_migrateAll`).

    `among_migrate` says what comes of a migration in general: of its two workers, whatever
    becomes of their writes, and of what is resolved after them.
-/

namespace LoginRegistry

namespace Registry

variable {r : Registry} {b : Behaviour σ} {terms : Terms σ} {a : Account} {spoilt : Prop}
  {ready queued : σ → Prop} {st : σ}

/-! ### The workers of an account -/

/-- What is known of the result of a worker: it has made its write and so come to `done`, or
    the write was spoilt.  Then the account is queued, unless the worker panicked. -/
inductive Worked (done : Bool → σ → Prop) (spoilt : Prop) (queued : σ → Prop) (st : σ) :
    Option (Except RegistryError Bool) → Prop where
  | served {applied : Bool} : done applied st → Worked done spoilt queued st (some (.ok applied))
  | failed {e : RegistryError} : spoilt → queued st → Worked done spoilt queued st (some (.error e))
  | panicked : spoilt → Worked done spoilt queued st none

/-- What holds before an account is queued, whoever queues it. -/
structure Readies (r : Registry) (b : Behaviour σ) (a : Account) (spoilt : Prop)
    (ready queued : σ → Prop) (terms : Terms σ) : Prop where
  others : ∀ {st st'}, terms.others st st' → ready st → ready st'
  own : ∀ {st st'}, terms.own st st' → ready st → ready st'
  /-- An account is queued if its write was spoilt. -/
  queue : spoilt → ∀ {st}, ready st →
    (r.queueRetry a.uuid a.login).Among b terms (fun _ => queued) st

namespace Readies

theorem lasts (h : Readies r b a spoilt ready queued terms) (hst : ready st) :
    terms.Lasts ready st := fun _ hst' => h.others hst' hst

theorem and (h : Readies r b a spoilt ready queued terms) {post : Option α → σ → Prop}
    {s : Script α} (hs : s.Among b terms post st) (hst : ready st) :
    s.Among b terms (fun o st' => post o st' ∧ ready st') st :=
  hs.and (h.lasts hst) fun _ _ hown hst => h.lasts (h.own hown hst.now)

/-- A worker does not panic. -/
theorem among_worker (h : Readies r b a spoilt ready queued terms) {write : Action Bool}
    {done : Bool → σ → Prop} (hwrite : write.Among b terms st done fun _ _ => spoilt)
    (hst : ready st) :
    (r.guardedWrite a write).isolate.Among b terms
      (fun o st' => ready st' ∧ ∃ result, o = some result ∧ Worked done spoilt queued st' result)
      st := by
  refine Script.among_isolate (Script.among_bind ((h.and hwrite hst).mono ?_))
  intro o st' hst'
  match o with
  | none => exact ⟨hst'.now.2, _, rfl, .panicked hst'.now.1⟩
  | some (.ok applied) =>
    exact fun st'' hst'' => ⟨(hst' st'' hst'').2, _, rfl, .served (hst' st'' hst'').1⟩
  | some (.error e) =>
    obtain ⟨hspoilt, hready⟩ := hst'.now
    refine Script.among_bind ((h.and (h.queue hspoilt hready) hready).mono ?_)
    intro o st'' hst''
    cases o with
    | none => exact ⟨hst''.now.2, _, rfl, .panicked hspoilt⟩
    | some _ =>
      exact fun st₃ hst₃ => ⟨(hst'' st₃ hst₃).2, _, rfl, .failed hspoilt (hst'' st₃ hst₃).1⟩

/-- The result of a worker is passed on, or the account is queued after all. -/
theorem among_resolve (h : Readies r b a spoilt ready queued terms)
    {result : Option (Except RegistryError Bool)} {post : Option (Except MigrationError Bool) →
      σ → Prop} (hst : ready st)
    (hserved : ∀ applied, result = some (.ok applied) →
      terms.Lasts (post (some (.ok applied))) st)
    (hfailed : ∀ e, result = some (.error e) →
      terms.Lasts (post (some (.error (.write a.uuid e)))) st)
    (hpanicked : result = none → spoilt ∧ ∀ st', ready st' → terms.Lasts queued st' →
      post (some (.error .worker)) st') :
    (r.resolve a result).Among b terms post st := by
  match result with
  | some (.ok applied) => exact hserved applied rfl
  | some (.error e) => exact hfailed e rfl
  | none =>
    obtain ⟨hspoilt, hpost⟩ := hpanicked rfl
    refine Script.among_bind (Script.among_isolate ((h.and (h.queue hspoilt hst) hst).mono ?_))
    intro o st' hst' st'' hst''
    exact hpost st'' (hst' st'' hst'').2 fun st₃ hst₃ => (hst' st₃ (terms.trans hst'' hst₃)).1

end Readies

/-! ### The migration of an account -/

/-- How a migration ends: with what both of its workers have come to, or with an error and the
    account queued. -/
inductive Concluded (row login : Bool → σ → Prop) (spoilt : Prop) (queued : σ → Prop) (st : σ) :
    Option (Except MigrationError Bool) → Prop where
  | served {v w : Bool} : row v st → login w st →
    Concluded row login spoilt queued st (some (.ok (v && w)))
  | failed {e : MigrationError} : spoilt → queued st →
    Concluded row login spoilt queued st (some (.error e))

variable {row login : Bool → σ → Prop}

/-- An outcome is reported and returned. -/
theorem among_conclude {outcome : Except MigrationError Bool}
    (h : terms.Lasts (fun st' => Concluded row login spoilt queued st' (some outcome)) st) :
    (do Script.report (outcomeEvent outcome); return outcome : Script _).Among b terms
      (fun o st' => Concluded row login spoilt queued st' o) st :=
  Script.among_bind (Script.among_report fun _ hst' => h.later hst')

namespace Readies

/-- Once the account is queued, it does not matter what becomes of the login. -/
theorem among_conclude_queued (h : Readies r b a spoilt ready queued terms) (hspoilt : spoilt)
    (hready : ready st) (hqueued : terms.Lasts queued st) (e : MigrationError)
    (result : Option (Except RegistryError Bool)) :
    (do let login ← r.resolve a result
        let outcome := bothApplied (.error e) login
        Script.report (outcomeEvent outcome)
        return outcome).Among b terms (fun o st' => Concluded row login spoilt queued st' o) st := by
  refine Script.among_bind (h.among_resolve hready ?_ ?_ ?_)
  · exact fun _ _ _ hst' => among_conclude fun st' hst'' =>
      .failed hspoilt (hqueued st' (terms.trans hst' hst''))
  · exact fun _ _ _ hst' => among_conclude fun st' hst'' =>
      .failed hspoilt (hqueued st' (terms.trans hst' hst''))
  · exact fun _ => ⟨hspoilt, fun _ _ hqueued => among_conclude fun st' hst' =>
      .failed hspoilt (hqueued st' hst')⟩

/-- If the row has been served, the login decides. -/
theorem among_conclude_served (h : Readies r b a spoilt ready queued terms) {v : Bool}
    {result : Option (Except RegistryError Bool)}
    (hworked : terms.Lasts (fun st' => ready st' ∧ row v st' ∧
      Worked login spoilt queued st' result) st) :
    (do let login ← r.resolve a result
        let outcome := bothApplied (.ok v) login
        Script.report (outcomeEvent outcome)
        return outcome).Among b terms (fun o st' => Concluded row login spoilt queued st' o) st := by
  refine Script.among_bind (h.among_resolve hworked.now.1 ?_ ?_ ?_)
  · rintro w rfl _ hst'
    refine among_conclude fun st'' hst'' => ?_
    obtain ⟨-, hrow, hlogin⟩ := hworked st'' (terms.trans hst' hst'')
    cases hlogin with
    | served hlogin => exact .served hrow hlogin
  · rintro e rfl _ hst'
    refine among_conclude fun st'' hst'' => ?_
    obtain ⟨-, -, hlogin⟩ := hworked st'' (terms.trans hst' hst'')
    cases hlogin with
    | failed hspoilt hqueued => exact .failed hspoilt hqueued
  · rintro rfl
    cases hworked.now.2.2 with
    | panicked hspoilt =>
      exact ⟨hspoilt, fun _ _ hqueued => among_conclude fun st'' hst'' =>
        .failed hspoilt (hqueued st'' hst'')⟩

end Readies

/-- A migration ends with what both of its workers have come to, or with an error and the
    account queued. -/
theorem among_migrate {terms₁ terms₂ : Terms σ}
    (hallow : terms₁.Allow terms₂ ∧ terms₂.Allow terms₁)
    (hsuit : terms₁.Suit terms ∧ terms₂.Suit terms)
    (h₁ : Readies r b a spoilt ready queued terms₁) (h₂ : Readies r b a spoilt ready queued terms₂)
    (h : Readies r b a spoilt ready queued terms)
    (hrow : (r.accounts.migrate a).Among b terms₁ st row fun _ _ => spoilt)
    (hlogin : (r.logins.migrate a.login a.uuid).Among b terms₂ st login fun _ _ => spoilt)
    (hst : ready st) (turns : List Bool) :
    (r.migrate a turns).Among b terms (fun o st' => Concluded row login spoilt queued st' o) st := by
  refine Script.among_bind (Script.Among.mono (Script.among_both hallow hsuit ?_ ?_
    (h₁.among_worker hrow hst) (h₂.among_worker hlogin hst) turns) ?_)
  · rintro st' ⟨-, _, ho, -⟩
    cases ho
  · rintro st' ⟨-, _, ho, -⟩
    cases ho
  intro o st' hst'
  obtain ⟨rowResult, loginResult, rfl, -⟩ := hst'.now
  -- What the workers have come to lasts while their results are resolved.
  have hworked : terms.Lasts (fun st'' => ready st'' ∧ Worked row spoilt queued st'' rowResult ∧
      Worked login spoilt queued st'' loginResult) st' := by
    intro st'' hst''
    obtain ⟨_, _, ⟨⟩, ⟨hready, _, ⟨⟩, hrow⟩, -, _, ⟨⟩, hlogin⟩ := hst' st'' hst''
    exact ⟨hready, hrow, hlogin⟩
  refine Script.among_bind (h.among_resolve hworked.now.1 ?_ ?_ ?_)
  · rintro v rfl st₁ hst₁
    refine h.among_conclude_served fun st₂ hst₂ => ?_
    obtain ⟨hready, hrow, hlogin⟩ := hworked st₂ (terms.trans hst₁ hst₂)
    cases hrow with
    | served hrow => exact ⟨hready, hrow, hlogin⟩
  · rintro e rfl st₁ hst₁
    have hfailed : terms.Lasts (fun st₂ => spoilt ∧ queued st₂) st₁ := by
      intro st₂ hst₂
      cases (hworked st₂ (terms.trans hst₁ hst₂)).2.1 with
      | failed hspoilt hqueued => exact ⟨hspoilt, hqueued⟩
    exact h.among_conclude_queued hfailed.now.1 (hworked st₁ hst₁).1
      (fun st₂ hst₂ => (hfailed st₂ hst₂).2) _ _
  · rintro rfl
    cases hworked.now.2.1 with
    | panicked hspoilt =>
      exact ⟨hspoilt, fun _ hready hqueued => h.among_conclude_queued hspoilt hready hqueued _ _⟩

end Registry

/-! ### What requests of migrations do -/

namespace Tables

/-- The account is as new as it was to be: its row is not of a lower version, and its login
    is bound. -/
structure UpToDate (t : Tables) (a : Account) : Prop where
  row : t.precedes a = false
  login : t.loginRow? a.login ≠ none

/-- A half has been written or was not needed. -/
def Achieves (t : Tables) : Half → Prop
  | .row a => t.precedes a = false
  | .login a => t.loginRow? a.login ≠ none

/-- What a request of a migration of the accounts does.  An account is queued only if a write
    was spoilt. -/
inductive WorkStep (accounts : List Account) (spoilt : Prop) (t : Tables) : Tables → Prop where
  | half {k : Half} : k ∈ accounts.flatMap Account.halves → WorkStep accounts spoilt t (k.apply t)
  | queue {a : Account} : a ∈ accounts → spoilt →
    WorkStep accounts spoilt t (t.queueRetry a.uuid a.login)

/-- What requests of migrations of the accounts do. -/
def Works (accounts : List Account) (spoilt : Prop) : Tables → Tables → Prop :=
  Relation.ReflTransGen (WorkStep accounts spoilt)

variable {t t' : Tables} {accounts : List Account} {spoilt : Prop}

/-- What halves and queued accounts keep is kept. -/
theorem Works.keeps (h : t.Works accounts spoilt t') {P : Tables → Prop}
    (hhalf : ∀ t, ∀ k ∈ accounts.flatMap Account.halves, P t → P (k.apply t))
    (hqueue : spoilt → ∀ t, ∀ a ∈ accounts, P t → P (t.queueRetry a.uuid a.login)) (ht : P t) :
    P t' := by
  induction h with
  | refl => exact ht
  | tail _ hstep ih =>
    cases hstep with
    | half hk => exact hhalf _ _ hk ih
    | queue ha hspoilt => exact hqueue hspoilt _ _ ha ih

theorem queueRetry_ne {i : TableId} (hi : i ≠ .retries) {u : Uuid} {login : String} :
    t.queueRetry u login i = t i := set_ne t hi _

theorem achieves_apply (k : Half) : (k.apply t).Achieves k := by
  cases k with
  | row a => exact precedes_migrateRow
  | login a => exact loginRow?_migrateLogin_ne_none

theorem Achieves.works {k : Half} (h : t.Achieves k) (hworks : t.Works accounts spoilt t') :
    t'.Achieves k := by
  cases k with
  | row a =>
    refine hworks.keeps (P := fun t => t.precedes a = false) ?_ ?_ h
    · exact fun _ k _ => k.precedes_apply
    · exact fun _ t _ _ => (precedes_congr (accountRow?_congr (queueRetry_ne (by decide)) _)).trans
  | login a =>
    refine hworks.keeps (P := fun t => t.loginRow? a.login ≠ none) ?_ ?_ h
    · exact fun _ k _ => k.loginRow?_apply
    · intro _ t b _ h
      rwa [loginRow?_congr (queueRetry_ne (by decide))]

/-- The account is queued, with the login of one of the accounts. -/
def QueuedBy (t : Tables) (accounts : List Account) (u : Uuid) : Prop :=
  ∃ a ∈ accounts, a.uuid = u ∧ (t .retries).get? (Row.uuidValue u) = some (Row.ofRetry u a.login)

theorem QueuedBy.queued {u : Uuid} (h : t.QueuedBy accounts u) : t.Queued u := by
  obtain ⟨a, -, -, hrow⟩ := h
  rw [Queued, SortedMap.mem_keys_iff, hrow]
  rfl

theorem queuedBy_queueRetry {a : Account} (ha : a ∈ accounts) :
    (t.queueRetry a.uuid a.login).QueuedBy accounts a.uuid := by
  refine ⟨a, ha, rfl, ?_⟩
  rw [queueRetry, set_self, SortedMap.get?_insert_self]

theorem QueuedBy.works {u : Uuid} (h : t.QueuedBy accounts u) (hworks : t.Works accounts spoilt t') :
    t'.QueuedBy accounts u := by
  refine hworks.keeps (P := fun t => t.QueuedBy accounts u) ?_ ?_ h
  · intro t k _ h
    rwa [QueuedBy, k.apply_ne (by decide) (by decide)]
  · intro _ t a ha h
    by_cases hu : a.uuid = u
    · exact hu ▸ queuedBy_queueRetry ha
    · rw [QueuedBy, queueRetry, set_self,
        SortedMap.get?_insert_ne _ (mt Row.uuidValue_inj.mp (Ne.symm hu))]
      exact h

/-- What a migration has come to: the account is as new as it was to be, or a write was spoilt
    and the account is queued, if the queue is spared. -/
inductive CameTo (t : Tables) (accounts : List Account) (spoilt spared : Prop) (a : Account) :
    Except MigrationError Bool → Prop where
  | served {applied : Bool} : t.UpToDate a → CameTo t accounts spoilt spared a (.ok applied)
  | failed {e : MigrationError} : spoilt → (spared → t.QueuedBy accounts a.uuid) →
    CameTo t accounts spoilt spared a (.error e)

end Tables

/-- Migrations of the accounts that are under way together. -/
def Terms.working (accounts : List Account) (spoilt : Prop) : Terms Tables :=
  .common (Tables.Works accounts spoilt) (fun _ => .refl) .trans

namespace Registry

variable {r : Registry} {x : Exposure} {accounts : List Account} {spoilt spared : Prop}

section valid

variable (hr : Function.Injective r.config.tables.name) (hx : x.IsGenuine)
  (hspoilt : ∀ request m, x request m = true → spoilt)
  (hspared : spared → ∀ q : Store.Put, q.table = r.config.tables.retries → ∀ m,
    x (.put q) m = false)

include hr hx hspoilt in
/-- What a half has achieved lasts. -/
theorem among_write {k : Half} (hk : k ∈ accounts.flatMap Account.halves) (t : Tables) :
    Action.Among (r.config.tables.behaviour x) (.working accounts spoilt) (k.write r) t
      (fun _ t' => t'.Achieves k) fun _ _ => spoilt := by
  refine Action.among_of_once fun t₁ _ => Action.Once.mono (once_write hr hx hspoilt k t₁) ?_ ?_
  · rintro applied _ ⟨-, rfl⟩
    exact ⟨.single (.half hk), fun _ hworks => (Tables.achieves_apply k).works hworks⟩
  · rintro o _ ⟨hspoilt, rfl⟩
    exact ⟨.refl, fun _ _ => hspoilt⟩

include hr hspared in
theorem readies_working {a : Account} (ha : a ∈ accounts) :
    Readies r (r.config.tables.behaviour x) a spoilt (fun _ => True)
      (fun t => spared → t.QueuedBy accounts a.uuid) (.working accounts spoilt) where
  others _ := id
  own _ := id
  queue hspoilt t _ := by
    refine among_queueRetry hr (fun t₁ _ => ⟨.single (.queue ha hspoilt), ?_⟩) ?_
    · exact fun t₂ hworks _ => (Tables.queuedBy_queueRetry ha).works hworks
    · intro t₁ _ q hq m hm
      refine ⟨.refl, fun _ _ h => ?_⟩
      rw [hspared h q hq m] at hm
      cases hm

include hr hx hspoilt hspared

/-- A migration among others. -/
theorem among_migrate_working {a : Account} (ha : a ∈ accounts) (turns : List Bool) (t : Tables) :
    (r.migrate a turns).Among (r.config.tables.behaviour x) (.working accounts spoilt)
      (fun o t' => ∃ outcome, o = some outcome ∧ t'.CameTo accounts spoilt spared a outcome) t := by
  have hallow : (Terms.working accounts spoilt).Allow (.working accounts spoilt) := fun _ _ => id
  have hready : Readies r (r.config.tables.behaviour x) a spoilt (fun _ => True)
    (fun t => spared → t.QueuedBy accounts a.uuid) (.working accounts spoilt) :=
      readies_working hr hspared ha
  refine (among_migrate ⟨hallow, hallow⟩ ⟨.refl _, .refl _⟩ hready hready hready
    (among_write hr hx hspoilt (Half.row_mem ha) t) (among_write hr hx hspoilt (Half.login_mem ha) t)
    trivial turns).mono ?_
  intro o t' ht'
  cases ht'.now with
  | served hrow hlogin => exact ⟨_, rfl, .served ⟨hrow, hlogin⟩⟩
  | failed hspoilt hqueued => exact ⟨_, rfl, .failed hspoilt hqueued⟩

/-- In whatever order the workers of some accounts make their requests, each of the accounts is
    as new as it was to be or its migration has failed. -/
theorem within_migrateAll (workers : UInt64) (turns : Turns) (t : Tables) :
    (r.migrateAll accounts workers turns).Within (r.config.tables.behaviour x)
      (fun o t' => t.Works accounts spoilt t' ∧ ∃ outcomes, o = some outcomes ∧
        List.Forall₂ (fun outcome a => t'.CameTo accounts spoilt spared a outcome) outcomes
          accounts) t := by
  let post (a : Account) (o : Option (Except MigrationError Bool)) (t' : Tables) : Prop :=
    ∃ outcome, o = some outcome ∧ t'.CameTo accounts spoilt spared a outcome
  have hscripts : List.Forall₂ (fun s a => s.Among (r.config.tables.behaviour x)
      (.working accounts spoilt) (post a) t)
      (accounts.mapIdx fun i a => r.migrate a (turns.workers.getD i [])) accounts :=
    Script.forall₂_mapIdx fun i a ha => among_migrate_working hr hx hspoilt hspared ha _ t
  have hallow : (Terms.working accounts spoilt).Allow (.working accounts spoilt) := fun _ _ => id
  have hpool : (r.migrateAll accounts workers turns).Within (r.config.tables.behaviour x)
      (fun o t' => t.Works accounts spoilt t' ∧ ∃ outcomes, o = some outcomes ∧
        List.Forall₂ (fun outcome a => post a (some outcome) t') outcomes accounts) t := by
    refine Script.within_pool (List.pairwise_of_forall fun _ _ => ⟨hallow, hallow⟩) ?_
      (fun _ _ _ _ hstep hworks => hworks.trans hstep) hscripts .refl turns.accounts
    rintro a t' ⟨_, ho, -⟩
    cases ho
  refine Script.Within.mono hpool ?_
  rintro o t' ⟨hworks, outcomes, rfl, houtcomes⟩
  refine ⟨hworks, outcomes, rfl, houtcomes.imp ?_⟩
  rintro outcome a ⟨_, ⟨⟩, h⟩
  exact h

/-- A migration on its own. -/
theorem within_migrate (a : Account) (turns : List Bool) (t : Tables) :
    (r.migrate a turns).Within (r.config.tables.behaviour x)
      (fun o t' => t.Works [a] spoilt t' ∧ ∃ outcome, o = some outcome ∧
        t'.CameTo [a] spoilt spared a outcome) t := by
  have hself := (among_migrate_working hr hx hspoilt hspared (List.mem_singleton_self a) turns t).and
    (Q := t.Works [a] spoilt) (fun _ => id) fun t₁ t₂ hown h t₃ hworks =>
      (h.now.trans hown).trans hworks
  exact Script.Within.mono hself.within fun o t' h => h.symm

end valid

end Registry

end LoginRegistry
