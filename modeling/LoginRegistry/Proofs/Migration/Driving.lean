import LoginRegistry.Migration.Redrive
import LoginRegistry.Proofs.Migration.Working
import LoginRegistry.Proofs.Registry.Deleting
import LoginRegistry.Proofs.Registry.Listing

/-! # Entries that are driven together

    The workers of a re-drive make their requests in any order.  Those for an entry are about
    one account (`Tables.DriveStep`): they change neither the row nor the entry of any other,
    and bind no login to it (`Tables.Spares`).  So what has come of an entry is not undone by
    the work on the others (`within_driveAll`).

    In the end an entry is removed if and only if it has been driven: its account is migrated
    as the source has it, or it is not in the source and has been deleted (`Tables.Drove`).
-/

namespace LoginRegistry

open Store (AttributeValue)

/-- An outcome with which an entry is removed. -/
def RedriveOutcome.isDriven : RedriveOutcome → Bool
  | .migrated | .dropped => true
  | .kept _ => false

namespace LegacySource

/-- Each account is stored under its id. -/
def Keyed (source : LegacySource) : Prop :=
  ∀ u a, source.accounts.get? u = some a → a.uuid = u

variable {source : LegacySource}

theorem keyed_empty (outage : Option LegacyError) (panics : List Uuid) :
    ({ outage := outage, panics := panics } : LegacySource).Keyed := fun _ _ => nofun

theorem Keyed.insert (h : source.Keyed) (a : Account) : (source.insert a).Keyed := by
  intro u b hb
  rw [LegacySource.insert, SortedMap.get?_insert_eq] at hb
  split at hb
  · next hu => rw [hu, Option.some.inj hb]
  · exact h u b hb

theorem Keyed.remove (h : source.Keyed) (u : Uuid) : (source.remove u).2.Keyed := by
  intro v b hb
  rw [LegacySource.remove, SortedMap.get?_erase_eq] at hb
  split at hb
  · cases hb
  · exact h v b hb

/-- What is loaded is what the source has. -/
theorem get?_of_loadInWorker {u : Uuid} {found : Option Account}
    (h : source.loadInWorker u = .account found) : source.accounts.get? u = found := by
  unfold loadInWorker at h
  split at h
  · cases h
  · unfold load at h
    cases houtage : source.outage with
    | some e =>
      rw [houtage] at h
      cases h
    | none =>
      rw [houtage] at h
      exact (Loaded.account.injEq ..).mp h

end LegacySource

/-! ### What requests of a re-drive do -/

namespace Tables

/-- Row and entry of an account stay, and no login is bound to it. -/
structure Spares (u : Uuid) (t t' : Tables) : Prop where
  row : t'.accountRow? u = t.accountRow? u
  entry : (t' .retries).get? (Row.uuidValue u) = (t .retries).get? (Row.uuidValue u)
  owner : ∀ l, t'.owner? l = some u → t.owner? l = some u

/-- What a request for an entry does. -/
inductive DriveStep (source : LegacySource) (u : Uuid) (t : Tables) : Tables → Prop where
  /-- A half of the account is written. -/
  | half {a : Account} {k : Half} : source.loadInWorker u = .account (some a) → k ∈ a.halves →
    DriveStep source u t (k.apply t)
  /-- The account is queued again. -/
  | queue {a : Account} : source.loadInWorker u = .account (some a) →
    DriveStep source u t (t.queueRetry a.uuid a.login)
  /-- A login of an account that is gone is freed. -/
  | release (login : String) : source.loadInWorker u = .account none →
    DriveStep source u t (t.release login u)
  /-- The row of an account that is gone is removed. -/
  | erase : source.loadInWorker u = .account none → DriveStep source u t (t.eraseAccount u)
  /-- The entry is removed. -/
  | drop : DriveStep source u t (t.dropRetry u)

/-- What requests for some entries do. -/
def Drives (source : LegacySource) (entries : List Uuid) : Tables → Tables → Prop :=
  Relation.ReflTransGen fun t t' => ∃ u ∈ entries, t.DriveStep source u t'

/-- The login that a delete of the account frees: that of its row, or the recorded one. -/
def knownLogin? (t : Tables) (u : Uuid) : Option String :=
  match t.accountRow? u with
  | some row => (Row.account row).toOption.map (·.login)
  | none => t.recorded? u

/-- What has come of an entry since the tables were `start`: the account is migrated as the
    source has it, or it is not in the source and has been deleted, or neither was done. -/
inductive Drove (start : Tables) (source : LegacySource) (entries : List Uuid) (spoilt : Prop)
    (t : Tables) (u : Uuid) : RedriveOutcome → Prop where
  | migrated {a : Account} {t₁ : Tables} : source.loadInWorker u = .account (some a) →
    t.precedes a = false → start.Drives source entries t₁ →
    ((Half.login a).apply t₁).Drives source entries t →
    Drove start source entries spoilt t u .migrated
  | dropped {t₁ : Tables} : source.loadInWorker u = .account none → t.accountRow? u = none →
    start.Drives source entries t₁ → t₁.Queued u →
    (∀ l, t₁.knownLogin? u = some l → t.owner? l ≠ some u) →
    Drove start source entries spoilt t u .dropped
  | kept {e : MigrationError} : (∀ a, source.loadInWorker u = .account (some a) → spoilt) →
    Drove start source entries spoilt t u (.kept e)

/-- What has come of an entry in the end, when the queue has it if and only if it has not been
    driven. -/
structure Driven (start : Tables) (source : LegacySource) (entries : List Uuid) (spoilt : Prop)
    (t : Tables) (u : Uuid) (outcome : RedriveOutcome) : Prop where
  drove : start.Drove source entries spoilt t u outcome
  queued : t.Queued u ↔ outcome.isDriven = false

variable {t t' t'' start : Tables} {source : LegacySource} {entries : List Uuid} {u v : Uuid}
  {spoilt : Prop}

theorem Spares.refl (u : Uuid) (t : Tables) : t.Spares u t := ⟨rfl, rfl, fun _ => id⟩

theorem Spares.trans (h : t.Spares u t') (h' : t'.Spares u t'') : t.Spares u t'' where
  row := h'.row.trans h.row
  entry := h'.entry.trans h.entry
  owner l := h.owner l ∘ h'.owner l

theorem queued_iff_get? : t.Queued u ↔ ((t .retries).get? (Row.uuidValue u)).isSome :=
  SortedMap.mem_keys_iff _ _

theorem Spares.queued_iff (h : t.Spares u t') : t'.Queued u ↔ t.Queued u := by
  rw [queued_iff_get?, queued_iff_get?, h.entry]

theorem not_queued_dropRetry : ¬ (t.dropRetry u).Queued u :=
  fun h => (mem_keys_dropRetry.mp h).2 rfl

/-- What has come of an entry lasts as long as the row does and no login is bound. -/
theorem Drove.mono {outcome : RedriveOutcome}
    (h : start.Drove source entries spoilt t u outcome)
    (hloaded : ∀ a, source.loadInWorker u = .account (some a) → a.uuid = u)
    (hrow : t'.accountRow? u = t.accountRow? u)
    (howner : ∀ l, t'.owner? l = some u → t.owner? l = some u)
    (hdrives : t.Drives source entries t') : start.Drove source entries spoilt t' u outcome := by
  cases h with
  | migrated ha hprecedes hbefore hafter =>
    refine .migrated ha ((precedes_congr ?_).trans hprecedes) hbefore (hafter.trans hdrives)
    rwa [hloaded _ ha]
  | dropped hnone hnorow hbefore hqueued hfree =>
    exact .dropped hnone (hrow.trans hnorow) hbefore hqueued fun l hl => mt (howner l) (hfree l hl)
  | kept h => exact .kept h

theorem owner?_release_ne_some {login : String} : (t.release login u).owner? login ≠ some u :=
  fun h => (owner?_release_eq_some_iff.mp h).2 rfl rfl

/-- A request for an entry is about no other entry. -/
theorem DriveStep.get?_retries (h : t.DriveStep source u t')
    (hloaded : ∀ a, source.loadInWorker u = .account (some a) → a.uuid = u)
    {key : AttributeValue} (hkey : key ≠ Row.uuidValue u) :
    (t' .retries).get? key = (t .retries).get? key := by
  cases h with
  | @half a k _ _ => rw [k.apply_ne (by decide) (by decide)]
  | @queue a ha =>
    rw [queueRetry, set_self, hloaded a ha]
    exact SortedMap.get?_insert_ne _ hkey _
  | release login _ => rw [release_ne (i := .retries) (by decide)]
  | erase _ => rfl
  | drop =>
    rw [dropRetry, set_self]
    exact SortedMap.get?_erase_ne _ hkey

/-- A request for an entry spares every other account. -/
theorem DriveStep.spares (h : t.DriveStep source u t')
    (hloaded : ∀ a, source.loadInWorker u = .account (some a) → a.uuid = u) (hv : v ≠ u) :
    t.Spares v t' := by
  have hentry := h.get?_retries hloaded (mt Row.uuidValue_inj.mp hv)
  cases h with
  | @half a k ha hk =>
    have huuid : k.account.uuid = u := by
      have hk : k ∈ [a].flatMap Account.halves := by simpa using hk
      rw [List.mem_singleton.mp (Half.account_mem hk)]
      exact hloaded a ha
    refine ⟨k.accountRow?_apply (huuid ▸ hv.symm), hentry, fun l hl => ?_⟩
    exact (k.owner?_apply hl).resolve_right fun hbound => hv (hbound.2.symm.trans huuid)
  | @queue a ha =>
    refine ⟨accountRow?_congr (queueRetry_ne (by decide)) v, hentry, fun l hl => ?_⟩
    rwa [owner?_congr (queueRetry_ne (by decide))] at hl
  | release login _ =>
    refine ⟨accountRow?_congr (release_ne (by decide)) v, hentry, fun l hl => ?_⟩
    exact (owner?_release_eq_some_iff.mp hl).1
  | erase _ => exact ⟨accountRow?_eraseAccount.trans (if_neg hv), hentry, fun _ => id⟩
  | drop => exact ⟨rfl, hentry, fun _ => id⟩

/-- What requests for the entries keep is kept. -/
theorem Drives.keeps (h : t.Drives source entries t') {P : Tables → Prop}
    (hstep : ∀ u ∈ entries, ∀ t t', t.DriveStep source u t' → P t → P t') (ht : P t) : P t' := by
  induction h with
  | refl => exact ht
  | tail _ hlast ih =>
    obtain ⟨u, hu, hlast⟩ := hlast
    exact hstep u hu _ _ hlast ih

/-- A row that is as new as the source has it stays so. -/
theorem Drives.precedes (h : t.Drives source entries t')
    (hloaded : ∀ u ∈ entries, ∀ a, source.loadInWorker u = .account (some a) → a.uuid = u)
    {a : Account} (hu : u ∈ entries) (ha : source.loadInWorker u = .account (some a))
    (hrow : t.precedes a = false) : t'.precedes a = false := by
  refine h.keeps (P := fun t => t.precedes a = false) (fun v hv t₁ t₂ hstep hrow => ?_) hrow
  have huuid := hloaded u hu a ha
  by_cases hvu : v = u
  · subst hvu
    cases hstep with
    | half _ _ => exact Half.precedes_apply _ hrow
    | queue _ => exact (precedes_congr (accountRow?_congr (queueRetry_ne (by decide)) _)).trans hrow
    | drop => exact hrow
    | release _ hnone | erase hnone =>
      rw [ha] at hnone
      cases hnone
  · have hspares := hstep.spares (hloaded v hv) (v := a.uuid) (huuid ▸ Ne.symm hvu)
    exact (precedes_congr hspares.row).trans hrow

end Tables

/-- An entry that is driven beside others. -/
def Terms.driving (source : LegacySource) (entries : List Uuid) (u : Uuid) : Terms Tables where
  others t t' := t.Spares u t' ∧ t.Drives source entries t'
  own t t' := (∀ v, v ≠ u → t.Spares v t') ∧ t.Drives source entries t'
  refl t := ⟨.refl u t, .refl⟩
  trans h h' := ⟨h.1.trans h'.1, h.2.trans h'.2⟩

/-- A worker that migrates the account of an entry: the other one may change row and entry, but
    the account stays queued. -/
def Terms.drivingHalf (source : LegacySource) (entries : List Uuid) (u : Uuid) : Terms Tables where
  others t t' := (t.Queued u → t'.Queued u) ∧ t.Drives source entries t'
  own t t' := (∀ v, v ≠ u → t.Spares v t') ∧ (t.Queued u → t'.Queued u) ∧
    t.Drives source entries t'
  refl _ := ⟨id, .refl⟩
  trans h h' := ⟨h'.1 ∘ h.1, h.2.trans h'.2⟩

theorem Terms.suit_drivingHalf (source : LegacySource) (entries : List Uuid) (u : Uuid) :
    (drivingHalf source entries u).Suit (driving source entries u) where
  others h := ⟨h.1.queued_iff.mpr, h.2⟩
  own h := ⟨h.1, h.2.2⟩

theorem Terms.allow_drivingHalf (source : LegacySource) (entries : List Uuid) (u : Uuid) :
    (drivingHalf source entries u).Allow (drivingHalf source entries u) := fun _ _ h => h.2

/-- Work on different entries is allowed. -/
theorem Terms.allow_driving (source : LegacySource) (entries : List Uuid) {u v : Uuid}
    (h : v ≠ u) : (driving source entries u).Allow (driving source entries v) :=
  fun _ _ hown => ⟨hown.1 v h, hown.2⟩

namespace Registry

open Tables (DriveStep)

variable {r : Registry} {x : Exposure} {source : LegacySource} {entries : List Uuid}
  {spoilt : Prop} {start t : Tables} {u : Uuid}

section valid

variable (hr : Function.Injective r.config.tables.name) (hx : x.IsGenuine)
  (hspoilt : ∀ request m, x request m = true → spoilt)
  (hloaded : ∀ u ∈ entries, ∀ a, source.loadInWorker u = .account (some a) → a.uuid = u)
  (hu : u ∈ entries)

/-! ### Migrations -/

section migration

variable {a : Account} (ha : source.loadInWorker u = .account (some a))

include hr hx hspoilt hloaded hu ha

/-- A half is written. -/
theorem among_half_driving {k : Half} (hk : k ∈ a.halves) (hstart : start.Drives source entries t) :
    Action.Among (r.config.tables.behaviour x) (.drivingHalf source entries u) (k.write r) t
      (fun _ t' => ∃ t₁, start.Drives source entries t₁ ∧ (k.apply t₁).Drives source entries t')
      fun _ _ => spoilt := by
  refine Action.among_of_once fun t₁ ht₁ =>
    Action.Once.mono (once_write hr hx hspoilt k t₁) ?_ ?_
  · rintro applied _ ⟨-, rfl⟩
    have hstep : t₁.DriveStep source u (k.apply t₁) := .half ha hk
    refine ⟨⟨fun _ => hstep.spares (hloaded u hu), fun hqueued => ?_, .single ⟨u, hu, hstep⟩⟩, ?_⟩
    · rwa [Tables.Queued, k.apply_ne (by decide) (by decide)]
    · exact fun _ ht₂ => ⟨t₁, hstart.trans ht₁.2, ht₂.2⟩
  · rintro o _ ⟨hspoilt, rfl⟩
    exact ⟨⟨fun v _ => .refl v _, id, .refl⟩, fun _ _ => hspoilt⟩

omit hx hspoilt in
/-- The account is in the queue and stays there. -/
theorem readies_drivingHalf :
    Readies r (r.config.tables.behaviour x) a spoilt (·.Queued u) (·.Queued u)
      (.drivingHalf source entries u) where
  others h := h.1
  own h := h.2.1
  queue _ _ hqueued := by
    refine among_queueRetry hr (fun t₁ _ => ?_) fun t₁ ht₁ _ _ _ _ => ?_
    · have hstep : t₁.DriveStep source u (t₁.queueRetry a.uuid a.login) := .queue ha
      have hagain : (t₁.queueRetry a.uuid a.login).Queued u :=
        hloaded u hu a ha ▸ Tables.queued_queueRetry
      exact ⟨⟨fun _ => hstep.spares (hloaded u hu), fun _ => hagain, .single ⟨u, hu, hstep⟩⟩,
        fun _ ht₂ => ht₂.1 hagain⟩
    · exact ⟨⟨fun v _ => .refl v t₁, id, .refl⟩, fun _ ht₂ => ht₂.1 (ht₁.1 hqueued)⟩

/-- The account is migrated, or a write was spoilt. -/
theorem among_migrate_driving (hstart : start.Drives source entries t) (hqueued : t.Queued u)
    (turns : List Bool) :
    (r.migrate a turns).Among (r.config.tables.behaviour x) (.driving source entries u)
      (fun o t' => t'.Queued u ∧ ((∃ applied, o = some (.ok applied) ∧
        start.Drove source entries spoilt t' u .migrated) ∨
          spoilt ∧ ∃ e, o = some (.error e))) t := by
  have hready : Readies r (r.config.tables.behaviour x) a spoilt (·.Queued u) (·.Queued u)
      (.drivingHalf source entries u) := readies_drivingHalf hr hloaded hu ha
  have hallow := Terms.allow_drivingHalf source entries u
  have hmigrate := among_migrate ⟨hallow, hallow⟩ ⟨.refl _, .refl _⟩ hready hready hready
    (among_half_driving hr hx hspoilt hloaded hu ha (k := .row a) List.mem_cons_self hstart)
    (among_half_driving hr hx hspoilt hloaded hu ha (k := .login a)
      (List.mem_cons_of_mem _ List.mem_cons_self) hstart) hqueued turns
  refine Script.Among.mono ((hready.and hmigrate hqueued).suit (Terms.suit_drivingHalf ..)) ?_
  intro o t' ht'
  obtain ⟨hmigrated, hqueued⟩ := ht'.now
  refine ⟨hqueued, ?_⟩
  cases hmigrated with
  | served hrow hlogin =>
    obtain ⟨t₁, -, hrow⟩ := hrow
    obtain ⟨t₂, hbefore, hafter⟩ := hlogin
    have hprecedes := hrow.precedes hloaded hu ha Tables.precedes_migrateRow
    exact .inl ⟨_, rfl, .migrated ha hprecedes hbefore hafter⟩
  | failed hspoilt _ => exact .inr ⟨hspoilt, _, rfl⟩

end migration

/-! ### Deletes -/

omit hspoilt hloaded in
theorem driving_idle : (Terms.driving source entries u).own t t := ⟨fun v _ => .refl v t, .refl⟩

theorem lasts_queued (h : t.Queued u) : (Terms.driving source entries u).Lasts (·.Queued u) t :=
  fun _ ht' => ht'.1.queued_iff.mpr h

section deletion

variable (hnone : source.loadInWorker u = .account none)

include hr hx hloaded hu hnone

/-- A login of the account is freed. -/
theorem among_release_driving (login : String) (hqueued : t.Queued u) :
    Action.Among (r.config.tables.behaviour x) (.driving source entries u)
      (r.logins.release login u) t
      (fun _ t' => t'.accountRow? u = t.accountRow? u ∧ t'.Queued u ∧ t'.owner? login ≠ some u)
      fun _ t' => t'.Queued u := by
  refine Action.among_of_once fun t₁ ht₁ => Action.once_of_within (single_logins_release r login u)
    (within_logins_release hr hx (fun released => ?_) fun _ _ o _ _ => ?_)
  · have hstep : t₁.DriveStep source u (t₁.release login u) := .release login hnone
    refine ⟨⟨fun _ => hstep.spares (hloaded u hu), .single ⟨u, hu, hstep⟩⟩, fun t₂ ht₂ => ?_⟩
    refine ⟨?_, ht₂.1.queued_iff.mpr ?_, mt (ht₂.1.owner login) Tables.owner?_release_ne_some⟩
    · rw [ht₂.1.row, Tables.accountRow?_congr (Tables.release_ne (by decide)), ht₁.1.row]
    · rw [Tables.Queued, Tables.release_ne (i := .retries) (by decide)]
      exact ht₁.1.queued_iff.mpr hqueued
  · exact ⟨driving_idle, lasts_queued (ht₁.1.queued_iff.mpr hqueued)⟩

variable (spoilt) in
/-- Without a row the login to be freed is that of the entry. -/
theorem among_releaseRecorded_driving (hstart : start.Drives source entries t)
    (hqueued : t.Queued u) (hrow : t.accountRow? u = none) :
    Action.Among (r.config.tables.behaviour x) (.driving source entries u) (r.releaseRecorded u) t
      (fun _ t' => t'.Queued u ∧ start.Drove source entries spoilt t' u .dropped)
      fun _ t' => t'.Queued u := by
  refine Action.among_bind (Action.among_of_once fun t₁ ht₁ =>
    Action.once_of_within (single_retries_login r u) (within_retries_login hr ?_ ?_))
  · have hqueued₁ := ht₁.1.queued_iff.mpr hqueued
    have hrow₁ := ht₁.1.row.trans hrow
    have hknown : t₁.knownLogin? u = t₁.recorded? u := by rw [Tables.knownLogin?, hrow₁]
    refine ⟨driving_idle, fun t₂ ht₂ => ?_⟩
    cases hlogin : t₁.recorded? u with
    | none =>
      refine Action.among_pure fun t₃ ht₃ => ?_
      have hlast := Terms.trans _ ht₂ ht₃
      refine ⟨hlast.1.queued_iff.mpr hqueued₁, .dropped hnone (hlast.1.row.trans hrow₁)
        (hstart.trans ht₁.2) hqueued₁ fun l hl => ?_⟩
      rw [hknown, hlogin] at hl
      cases hl
    | some login =>
      refine Action.among_bind (Action.Among.mono (among_release_driving hr hx hloaded hu hnone login
        (ht₂.1.queued_iff.mpr hqueued₁)) ?_ fun _ _ h => h.now)
      refine fun _ t₃ ht₃ => Action.among_pure fun t₄ ht₄ => ?_
      obtain ⟨hrow₄, hqueued₄, hfree⟩ := ht₃ t₄ ht₄
      refine ⟨hqueued₄, .dropped hnone (hrow₄.trans (ht₂.1.row.trans hrow₁)) (hstart.trans ht₁.2)
        hqueued₁ fun l hl => ?_⟩
      rw [hknown, hlogin] at hl
      rwa [← Option.some.inj hl]
  · exact fun _ _ o _ _ => ⟨driving_idle, lasts_queued (ht₁.1.queued_iff.mpr hqueued)⟩

variable (spoilt) in
/-- The account is deleted, or it stays in the queue. -/
theorem among_deleteWith_driving (hstart : start.Drives source entries t) (hqueued : t.Queued u) :
    Action.Among (r.config.tables.behaviour x) (.driving source entries u)
      (r.deleteWith u .reconcile) t
      (fun _ t' => t'.Queued u ∧ start.Drove source entries spoilt t' u .dropped)
      fun _ t' => t'.Queued u := by
  rw [deleteWith_eq]
  refine Action.among_timed (Action.among_bind (Action.among_of_once fun t₁ ht₁ =>
    Action.once_of_within (single_accounts_get r u) ?_))
  have hqueued₁ := ht₁.1.queued_iff.mpr hqueued
  have hstart₁ := hstart.trans ht₁.2
  have hspoiled : (Terms.driving source entries u).own t₁ t₁ ∧
      (Terms.driving source entries u).Lasts (·.Queued u) t₁ :=
    ⟨driving_idle, lasts_queued hqueued₁⟩
  refine within_accounts_get hr ?_ ?_ (fun _ _ _ _ => hspoiled) fun _ _ _ _ _ => hspoiled
  · intro hrow
    exact ⟨driving_idle, fun t₂ ht₂ => among_releaseRecorded_driving spoilt hr hx hloaded hu
      hnone (hstart₁.trans ht₂.2) (ht₂.1.queued_iff.mpr hqueued₁) (ht₂.1.row.trans hrow)⟩
  · intro row a hrow ha
    have hknown : t₁.knownLogin? u = some a.login := by
      rw [Tables.knownLogin?, hrow]
      simp only [ha]
      rfl
    refine ⟨driving_idle, fun t₂ ht₂ => Action.among_bind (Action.Among.mono
      (among_release_driving hr hx hloaded hu hnone a.login (ht₂.1.queued_iff.mpr hqueued₁)) ?_
      fun _ _ h => h.now)⟩
    refine fun _ t₃ ht₃ => Action.among_bind (Action.among_of_once fun t₄ ht₄ =>
      Action.once_of_within (Action.single_ofStore (Script.single_send _))
        (within_accounts_delete hr ?_ ?_))
    · have hstep : t₄.DriveStep source u (t₄.eraseAccount u) := .erase hnone
      refine ⟨⟨fun _ => hstep.spares (hloaded u hu), .single ⟨u, hu, hstep⟩⟩, fun t₅ ht₅ =>
        Action.among_pure fun t₆ ht₆ => ?_⟩
      have hlast := Terms.trans _ ht₅ ht₆
      obtain ⟨-, hqueued₄, hfree⟩ := ht₃ t₄ ht₄
      refine ⟨hlast.1.queued_iff.mpr hqueued₄, .dropped hnone ?_ hstart₁ hqueued₁ fun l hl => ?_⟩
      · rw [hlast.1.row, Tables.accountRow?_eraseAccount, if_pos rfl]
      · rw [hknown] at hl
        rw [← Option.some.inj hl]
        exact mt (hlast.1.owner a.login) hfree
    · exact fun _ _ o _ _ => ⟨driving_idle, lasts_queued (ht₃ t₄ ht₄).2.1⟩

end deletion

/-! ### Entries -/

include hr hx hspoilt hloaded hu

/-- The account is driven as loaded, and stays queued. -/
theorem among_driveLoaded (hstart : start.Drives source entries t) (hqueued : t.Queued u)
    (turns : List Bool) :
    (r.driveLoaded u turns (source.loadInWorker u)).Among (r.config.tables.behaviour x)
      (.driving source entries u) (fun o t' => t'.Queued u ∧ ∃ outcome, o = some outcome ∧
        start.Drove source entries spoilt t' u outcome) t := by
  have hkept : ∀ {e t'}, (∀ a, source.loadInWorker u = .account (some a) → spoilt) →
      (Terms.driving source entries u).Lasts (·.Queued u) t' →
      (Terms.driving source entries u).Lasts (fun t' => t'.Queued u ∧
        ∃ outcome, some (RedriveOutcome.kept e) = some outcome ∧
          start.Drove source entries spoilt t' u outcome) t' :=
    fun hcause hqueued t' ht' => ⟨hqueued t' ht', _, rfl, .kept hcause⟩
  cases hload : source.loadInWorker u with
  | failed e => exact hkept (by rw [hload]; exact nofun) (lasts_queued hqueued)
  | panicked => exact hkept (by rw [hload]; exact nofun) (lasts_queued hqueued)
  | account found =>
    cases found with
    | none =>
      have hcause : ∀ a, source.loadInWorker u = .account (some a) → spoilt := by
        rw [hload]
        exact nofun
      refine Script.among_bind (Action.among_isolate_run (Action.Among.mono
        (among_deleteWith_driving spoilt hr hx hloaded hu hload hstart hqueued) ?_ ?_))
      · exact fun _ t' ht' t'' ht'' => ⟨(ht' t'' ht'').1, _, rfl, (ht' t'' ht'').2⟩
      · intro o t' ht'
        cases o with
        | none => exact hkept hcause ht'
        | some e => exact hkept hcause ht'
    | some a =>
      refine Script.among_bind (Script.Among.mono
        (among_migrate_driving hr hx hspoilt hloaded hu hload hstart hqueued turns) ?_)
      intro o t' ht'
      rcases ht'.now.2 with ⟨applied, rfl, -⟩ | ⟨hspoilt, e, rfl⟩
      · intro t'' ht''
        rcases (ht' t'' ht'').2 with ⟨_, -, hdrove⟩ | ⟨-, _, ⟨⟩⟩
        exact ⟨(ht' t'' ht'').1, _, rfl, hdrove⟩
      · exact hkept (fun _ _ => hspoilt) fun t'' ht'' => (ht' t'' ht'').1

omit hx in
/-- The entry of an account that has been driven is removed, unless the removal is spoilt. -/
theorem among_remove {outcome : RedriveOutcome}
    {answer : Option (Except RegistryError Unit) → Script RedriveOutcome}
    (hok : answer (some (.ok ())) = pure outcome)
    (herror : ∀ e, ∃ e', answer (some (.error e)) = pure (.kept e'))
    (hpanic : ∃ e', answer none = pure (.kept e')) (hdriven : outcome.isDriven = true)
    (h : (Terms.driving source entries u).Lasts (fun t => t.Queued u ∧
      start.Drove source entries spoilt t u outcome) t) :
    ((r.retries.remove u).run.isolate >>= answer).Among
      (r.config.tables.behaviour x) (.driving source entries u)
      (fun o t' => ∃ outcome, o = some outcome ∧ start.Driven source entries spoilt t' u outcome)
      t := by
  refine Script.among_bind (Action.among_isolate_run (Action.among_of_once fun t₁ ht₁ =>
    once_retries_remove hr ?_ ?_))
  · have hstep : t₁.DriveStep source u (t₁.dropRetry u) := .drop
    refine ⟨⟨fun _ => hstep.spares (hloaded u hu), .single ⟨u, hu, hstep⟩⟩, fun t₂ ht₂ => ?_⟩
    change (answer (some (.ok ()))).Among _ _ _ t₂
    rw [hok]
    refine fun t₃ ht₃ => ⟨outcome, rfl, ?_, ?_⟩
    · have hlast := Terms.trans _ ht₂ ht₃
      have hdropped : start.Drove source entries spoilt (t₁.dropRetry u) u outcome :=
        (h t₁ ht₁).2.mono (hloaded u hu) rfl (fun _ => id) (.single ⟨u, hu, hstep⟩)
      exact hdropped.mono (hloaded u hu) hlast.1.row hlast.1.owner hlast.2
    · have hgone := mt (Terms.trans _ ht₂ ht₃).1.queued_iff.mp t₁.not_queued_dropRetry
      exact iff_of_false hgone (hdriven ▸ Bool.noConfusion)
  · intro request m o hm _
    refine ⟨driving_idle, fun t₂ ht₂ => ?_⟩
    have hqueued := (h t₂ (Terms.trans _ ht₁ ht₂)).1
    have hkept : ∀ {o}, (∃ e, answer o = pure (.kept e)) → (answer o).Among
        (r.config.tables.behaviour x) (.driving source entries u)
        (fun o t' => ∃ outcome, o = some outcome ∧
          start.Driven source entries spoilt t' u outcome) t₂ := by
      rintro o ⟨e, he⟩
      rw [he]
      exact fun t₃ ht₃ => ⟨_, rfl, .kept fun _ _ => hspoilt request m hm,
        iff_of_true (lasts_queued hqueued t₃ ht₃) rfl⟩
    cases o with
    | none => exact hkept hpanic
    | some e => exact hkept (herror e)

omit hx in
theorem among_settle {outcome : RedriveOutcome}
    (h : (Terms.driving source entries u).Lasts (fun t => t.Queued u ∧
      start.Drove source entries spoilt t u outcome) t) :
    (r.settle u outcome).Among (r.config.tables.behaviour x) (.driving source entries u)
      (fun o t' => ∃ outcome, o = some outcome ∧ start.Driven source entries spoilt t' u outcome)
      t := by
  cases outcome with
  | kept e => exact fun t' ht' => ⟨_, rfl, (h t' ht').2, iff_of_true (h t' ht').1 rfl⟩
  | migrated =>
    exact among_remove hr hspoilt hloaded hu rfl (fun e => ⟨_, rfl⟩) ⟨_, rfl⟩ rfl h
  | dropped =>
    exact among_remove hr hspoilt hloaded hu rfl (fun e => ⟨_, rfl⟩) ⟨_, rfl⟩ rfl h

/-- An entry is driven beside others. -/
theorem among_drive (hstart : start.Drives source entries t) (hqueued : t.Queued u)
    (turns : List Bool) :
    (r.drive source u turns).Among (r.config.tables.behaviour x) (.driving source entries u)
      (fun o t' => ∃ outcome, o = some outcome ∧ start.Driven source entries spoilt t' u outcome)
      t := by
  refine Script.among_bind (Script.Among.mono
    (among_driveLoaded hr hx hspoilt hloaded hu hstart hqueued turns) fun o t' ht' => ?_)
  obtain ⟨-, outcome, rfl, -⟩ := ht'.now
  refine among_settle hr hspoilt hloaded hu fun t'' ht'' => ?_
  obtain ⟨hqueued, _, ⟨⟩, hdrove⟩ := ht' t'' ht''
  exact ⟨hqueued, hdrove⟩

omit hu

/-- Different entries are driven in any order, each of them once.  An entry stays in the queue
    if and only if it has not been driven. -/
theorem within_driveAll (hnodup : entries.Nodup) (hqueued : ∀ u ∈ entries, t.Queued u)
    (turns : Turns) :
    (r.driveAll source entries turns).Within (r.config.tables.behaviour x)
      (fun o t' => t.Drives source entries t' ∧ ∃ outcomes, o = some outcomes ∧
        List.Forall₂ (fun outcome u => t.Driven source entries spoilt t' u outcome) outcomes
          entries) t := by
  let post (u : Uuid) (o : Option RedriveOutcome) (t' : Tables) : Prop :=
    ∃ outcome, o = some outcome ∧ t.Driven source entries spoilt t' u outcome
  have hscripts : List.Forall₂ (fun s u => s.Among (r.config.tables.behaviour x)
      (.driving source entries u) (post u) t)
      (entries.mapIdx fun i u => r.drive source u (turns.workers.getD i [])) entries :=
    Script.forall₂_mapIdx fun i u hu =>
      among_drive hr hx hspoilt hloaded hu .refl (hqueued u hu) _
  have hkeeps : ∀ u ∈ entries, ∀ t₁ t₂, (Terms.driving source entries u).own t₁ t₂ →
      t.Drives source entries t₁ → t.Drives source entries t₂ :=
    fun _ _ _ _ hown hdrives => hdrives.trans hown.2
  refine Script.Within.mono (Script.within_pool ?_ ?_ hkeeps hscripts .refl turns.accounts) ?_
  · exact hnodup.imp fun hne => ⟨Terms.allow_driving _ _ hne.symm, Terms.allow_driving _ _ hne⟩
  · rintro u t' ⟨_, ho, -⟩
    cases ho
  · rintro o t' ⟨hdrives, outcomes, rfl, houtcomes⟩
    refine ⟨hdrives, outcomes, rfl, houtcomes.imp ?_⟩
    rintro outcome u ⟨_, ⟨⟩, h⟩
    exact h

omit hloaded

/-- A re-drive ends with an error and has changed nothing, or it has driven the first entries
    of the queue. -/
theorem within_redrive (hkeyed : t.KeyedAt .retries) (max : Option Nat)
    (hloaded : ∀ u, t.Queued u → ∀ a, source.loadInWorker u = .account (some a) → a.uuid = u)
    (turns : Turns) :
    (r.redrive source max turns).Within (r.config.tables.behaviour x)
      (fun o t' => (∃ e, o = some (.error e) ∧ t' = t ∧
          (spoilt ∨ ∃ row ∈ (t .retries).values, ∃ e, Row.uuid row = .error e)) ∨
        ∃ entries outcomes,
          o = some (.ok (outcomes.foldl RedriveReport.count {})) ∧ entries.Nodup ∧
          entries.map Row.uuidValue = (t .retries).keys.take
            (max.getD r.config.migration.redriveBatchSize.toNat) ∧
          t.Drives source entries t' ∧
          List.Forall₂ (fun outcome u => t.Driven source entries spoilt t' u outcome) outcomes
            entries) t := by
  refine Script.within_bind (Action.within_isolate_run
    (TableNames.within_list hr rfl rfl hkeyed ?_ ?_ ?_))
  · intro entries hentries
    have hnodup : entries.Nodup := by
      refine List.Nodup.of_map Row.uuidValue ?_
      rw [hentries]
      exact (SortedMap.nodup_keys _).sublist (List.take_sublist _ _)
    have hqueued : ∀ u ∈ entries, t.Queued u := by
      intro u hu
      have hkey : Row.uuidValue u ∈ entries.map Row.uuidValue := List.mem_map_of_mem hu
      rw [hentries] at hkey
      exact List.mem_of_mem_take hkey
    refine Script.within_bind (Script.Within.mono (within_driveAll hr hx hspoilt
      (fun u hu => hloaded u (hqueued u hu)) hnodup hqueued turns) ?_)
    rintro _ t' ⟨hdrives, outcomes, rfl, houtcomes⟩
    exact .inr ⟨entries, outcomes, rfl, hnodup, hentries, hdrives, houtcomes⟩
  · exact fun row hrow e he => .inl ⟨_, rfl, rfl, .inr ⟨row, hrow, e, he⟩⟩
  · intro request m o hm _
    cases o with
    | none => exact .inl ⟨_, rfl, rfl, .inl (hspoilt request m hm)⟩
    | some e => exact .inl ⟨_, rfl, rfl, .inl (hspoilt request m hm)⟩

end valid

end Registry

end LoginRegistry
