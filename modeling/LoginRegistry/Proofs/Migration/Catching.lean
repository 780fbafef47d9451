import LoginRegistry.Proofs.Migration.Overtaking

/-! # The sweep after a race

    A delete leaves its tombstone first, so a sweep comes back to whatever a migration
    writes behind it, and it finds a row.  But a login without a row it finds only if a
    retry entry tells of it, and of a migration that has not failed there is none.

    * `racing_migration_swept`: the sweep leaves no row, and a login only if the migration
      has overtaken the delete.
    * `racing_migration_keeps_login`: this happens.
-/

namespace LoginRegistry

open Store (Database Item)

/-! ### One account in a sweep -/

namespace Tables

/-- A sweep has come by the account, which it has left without a row and, if it found a row
    or a retry entry with the login, without the login. -/
structure Swept (a : Account) (t₁ t : Tables) : Prop where
  row : t.accountRow? a.uuid = none
  login : t.owner? a.login = some a.uuid ↔ t₁.owner? a.login = some a.uuid ∧
    t₁.accountRow? a.uuid = none ∧ t₁.recorded? a.uuid ≠ some a.login

/-- What holds during a sweep of tables in which the account has one login: the account has
    its tombstone still, with row and login as before, or the sweep has come by. -/
structure Sweeping (a : Account) (t₁ t : Tables) : Prop where
  single : t₁.OneLogin a t
  swept : t.Tombstoned a.uuid ∧ t.accountRow? a.uuid = t₁.accountRow? a.uuid ∧
    (t.owner? a.login = some a.uuid ↔ t₁.owner? a.login = some a.uuid) ∨ Swept a t₁ t

variable {a : Account} {t₁ t t' : Tables} {u : Uuid}

theorem Swept.of_same (h : Swept a t₁ t) (hrow : t'.accountRow? a.uuid = t.accountRow? a.uuid)
    (howner : t'.owner? a.login = some a.uuid ↔ t.owner? a.login = some a.uuid) :
    Swept a t₁ t' :=
  ⟨hrow.trans h.row, howner.trans h.login⟩

namespace Sweeping

/-- What is done to other accounts does not matter. -/
theorem of_same (h : Sweeping a t₁ t) (hsingle : t₁.OneLogin a t')
    (htombstones : t' .tombstones = t .tombstones)
    (hrow : t'.accountRow? a.uuid = t.accountRow? a.uuid)
    (howner : t'.owner? a.login = some a.uuid ↔ t.owner? a.login = some a.uuid) :
    Sweeping a t₁ t' := by
  refine ⟨hsingle, h.swept.imp (fun ⟨hburied, hrow', howner'⟩ => ?_) (·.of_same hrow howner)⟩
  exact ⟨(tombstoned_congr htombstones _).mpr hburied, hrow.trans hrow', howner.trans howner'⟩

/-- The sweep comes by an account without a row. -/
theorem releaseRecorded (h : Sweeping a t₁ t) (hrow : t.accountRow? u = none) :
    Sweeping a t₁ (t.releaseRecorded u) ∧
      (a.uuid = u ∨ Swept a t₁ t → Swept a t₁ (t.releaseRecorded u)) := by
  have hsingle := h.single.releaseRecorded u
  have hsame : (t.releaseRecorded u).accountRow? a.uuid = t.accountRow? a.uuid :=
    accountRow?_congr (releaseRecorded_ne nofun) _
  by_cases hu : a.uuid = u
  · subst hu
    have howner : (t.releaseRecorded a.uuid).owner? a.login = some a.uuid ↔
        t.owner? a.login = some a.uuid ∧ t₁.recorded? a.uuid ≠ some a.login := by
      rw [owner?_releaseRecorded_eq_some_iff, h.single.recorded]
      exact and_congr_right fun _ => imp_congr_right fun _ => iff_of_false (absurd rfl) id
    have hswept : Swept a t₁ (t.releaseRecorded a.uuid) := by
      refine ⟨hsame.trans hrow, howner.trans ?_⟩
      rcases h.swept with ⟨-, hrow₁, howner₁⟩ | hswept
      · rw [howner₁, ← hrow₁, and_iff_right hrow]
      · rw [hswept.login, and_assoc, and_assoc, and_self]
    exact ⟨⟨hsingle, .inr hswept⟩, fun _ => hswept⟩
  · have howner : (t.releaseRecorded u).owner? a.login = some a.uuid ↔
        t.owner? a.login = some a.uuid :=
      owner?_releaseRecorded_eq_some_iff.trans (and_iff_left fun _ => hu)
    exact ⟨h.of_same hsingle (releaseRecorded_ne nofun) hsame howner,
      fun hswept => (hswept.resolve_left hu).of_same hsame howner⟩

/-- The sweep comes by an account with a row. -/
theorem remove (h : Sweeping a t₁ t) {row : Item} {b : Account} (hrow : t.accountRow? u = some row)
    (hb : Row.account row = .ok b) :
    Sweeping a t₁ ((t.release b.login u).eraseAccount u) ∧
      (a.uuid = u ∨ Swept a t₁ t → Swept a t₁ ((t.release b.login u).eraseAccount u)) := by
  have hsingle := (h.single.release b.login u).eraseAccount u
  have hget : ((t.release b.login u).eraseAccount u).accountRow? a.uuid
      = if a.uuid = u then none else t.accountRow? a.uuid := by
    rw [accountRow?_eraseAccount, accountRow?_congr (release_ne nofun)]
  by_cases hu : a.uuid = u
  · subst hu
    obtain ⟨b', hb', hl⟩ := h.single.exists_account hrow
    obtain rfl := Except.ok.inj (hb'.symm.trans hb)
    have hfree : (t.release b'.login a.uuid).owner? a.login ≠ some a.uuid := fun howner =>
      (owner?_release_eq_some_iff.mp howner).2 hl.symm rfl
    -- The account had its row before the sweep.
    have hrow₁ : t₁.accountRow? a.uuid ≠ none := by
      rcases h.swept with ⟨-, hrow₁, -⟩ | hswept
      · rw [← hrow₁, hrow]
        exact nofun
      · rw [hswept.row] at hrow
        cases hrow
    have hswept : Swept a t₁ ((t.release b'.login a.uuid).eraseAccount a.uuid) :=
      ⟨hget.trans (if_pos rfl), iff_of_false hfree fun h => hrow₁ h.2.1⟩
    exact ⟨⟨hsingle, .inr hswept⟩, fun _ => hswept⟩
  · have hsame := hget.trans (if_neg hu)
    have howner : (t.release b.login u).owner? a.login = some a.uuid ↔
        t.owner? a.login = some a.uuid :=
      owner?_release_eq_some_iff.trans (and_iff_left fun _ => hu)
    exact ⟨h.of_same hsingle (release_ne (i := .tombstones) nofun) hsame howner,
      fun hswept => (hswept.resolve_left hu).of_same hsame howner⟩

/-- Drained are tombstones of accounts that the sweep has come by. -/
theorem unbury (h : Sweeping a t₁ t) {us : List Uuid}
    (hus : ∀ u ∈ us, a.uuid = u → Swept a t₁ t) : Sweeping a t₁ (t.unbury us) := by
  refine ⟨h.single.congr rfl rfl rfl (h.single.keyed.unbury us), ?_⟩
  rcases h.swept with ⟨hburied, hrow, howner⟩ | hswept
  · by_cases hmem : a.uuid ∈ us
    · exact .inr ((hus _ hmem rfl).of_same rfl Iff.rfl)
    · exact .inl ⟨tombstoned_unbury.mpr ⟨hburied, hmem⟩, hrow, howner⟩
  · exact .inr (hswept.of_same rfl Iff.rfl)

end Sweeping

end Tables

namespace Registry

variable {r : Registry} {a : Account} {t₁ t : Tables}

/-- A sweep can be about one account. -/
theorem sweepable_sweeping (hr : Function.Injective r.config.tables.name) :
    Sweepable r .calm (t₁.Sweeping a) fun t u => a.uuid = u → t₁.Swept a t where
  keyed h := h.single.keyed
  unbury h hus := h.unbury hus
  delete {t u} h _ := by
    have hstart : t = if DeleteOptions.reconcile.tombstone then t.bury u else t := rfl
    refine within_deleteWith hr (Exposure.isGenuine_genuine _) hstart ?_ ?_ ?_ ?_ ?_
    · intro hrow
      obtain ⟨hsweeping, hswept⟩ := h.releaseRecorded hrow
      refine ⟨hsweeping, Tables.releaseRecorded_ne nofun, ?_⟩
      rintro _ hv rfl
      exact hswept (hv.imp_right (· rfl))
    · intro row b hrow hb
      obtain ⟨hsweeping, hswept⟩ := h.remove hrow hb
      refine ⟨hsweeping, Tables.release_ne (i := .tombstones) nofun, ?_⟩
      rintro _ hv rfl
      exact hswept (hv.imp_right (· rfl))
    · intro row e hrow he
      obtain ⟨b, hb⟩ := h.single.restorable u row hrow
      rw [hb] at he
      cases he
    · exact fun _ _ _ hm _ => (Exposure.not_calm hm).elim
    · exact fun _ _ _ hm _ _ _ => (Exposure.not_calm hm).elim

/-! ### The race and the sweep -/

/-- A delete whose script has ended has come to its end. -/
theorem exists_ended_of_deleteScript {u : Uuid} {version : Int64} {stage : Deleting}
    (h : (discard (r.deleteScript u version stage)).ended? ≠ none) :
    ∃ result, stage = .ended result := by
  cases stage with
  | ended result => exact ⟨result, rfl⟩
  | start => exact absurd rfl h
  | buried => exact absurd rfl h
  | found login => exact absurd rfl h
  | released => exact absurd rfl h
  | removed => exact absurd rfl h
  | gone => exact absurd rfl h
  | recorded login => exact absurd rfl h

/-- The scripts have ended once the delete has come to its end and both writes are made. -/
theorem ended_iff_of_overtaking {t₀ : Tables} {tally : Tally} {stages : Party → Party.Stage}
    (h : Overtaking a t₀ tally stages t) (version : Int64) :
    (∀ p, (Party.scriptAt r a version p (stages p)).ended? ≠ none) ↔
      (∃ result, stages .delete = .deleting (.ended result)) ∧
        tally.row ≠ none ∧ tally.login ≠ none := by
  constructor
  · intro hended
    refine ⟨?_, fun hnone => ?_, fun hnone => ?_⟩
    · obtain ⟨stage, hstage, -⟩ := h.delete
      have hdelete := hended .delete
      rw [hstage] at hdelete
      obtain ⟨result, rfl⟩ := exists_ended_of_deleteScript hdelete
      exact ⟨result, hstage⟩
    · have hrow := hended .row
      rw [h.row, if_pos hnone] at hrow
      exact hrow rfl
    · have hlogin := hended .login
      rw [h.login, if_pos hnone] at hlogin
      exact hlogin rfl
  · rintro ⟨⟨result, hdelete⟩, hrow, hlogin⟩ p
    cases p with
    | delete =>
      rw [hdelete]
      exact Option.some_ne_none _
    | row =>
      rw [h.row, if_neg hrow]
      exact Option.some_ne_none _
    | login =>
      rw [h.login, if_neg hlogin]
      exact Option.some_ne_none _

/-- A delete and a migration of the same account race, and a sweep comes after.  Start from
    any tables whose accounts and logins agree and whose account rows can be read, where
    the account has the login of the migration if it has a row, and let the requests of the
    delete and the two writes of the migration be made in any order.  The sweep succeeds,
    unless its largest page cannot be drained, and leaves no row of the account.  It leaves no
    login of the account either, except in just one case: the login of the migration stays bound
    if the migration has overtaken the delete. -/
theorem racing_migration_swept {config : Config} {r : Registry} (h : ofConfig config = .ok r)
    {t : Tables} (hagree : t.Agree) (hrestorable : t.Restorable)
    (hkeyed : t.KeyedOnIds .tombstones) {a : Account}
    (hlogin : ∀ row, t.accountRow? a.uuid = some row → Row.login? row = some a.login)
    (version : Int64) (order : List Party) :
    let race := Race.runScripts Database.handler (Party.script r a version)
      (config.tables.database t) order
    let swept := r.reconcile.run Database.handler race.state
    (.row ∈ order → .login ∈ order → 5 ≤ order.count .delete →
        ∀ p, (race.racers p).ended? ≠ none) ∧
      ((∀ p, (race.racers p).ended? ≠ none) →
        ∃ t₁ t₂, race.state = config.tables.database t₁ ∧
          swept.state = config.tables.database t₂ ∧
          (t₁.PageFits config →
            (∃ processed, swept.result = some (.ok processed)) ∧
            t₂.accountRow? a.uuid = none ∧
            ∀ l, t₂.owner? l = some a.uuid ↔ l = a.login ∧ (Tally.of order).Overtaken a t) ∧
          (¬ t₁.PageFits config → swept.result = some (.error .worker))) := by
  obtain ⟨rfl, -, hbulk⟩ := validate_of_ofConfig h
  obtain ⟨-, hr⟩ := name_injective_of_ofConfig h
  intro race swept
  have hrace := (Overtaking.start hagree hrestorable hkeyed hlogin).run
    (Overtaking.granted_of_row hagree hlogin) version order
  obtain ⟨hstate, hsame⟩ := Race.runScripts_of_follows (TableNames.obeys_database hr .calm)
    (Party.follows_scriptAt hr a version) Party.start
    (d := r.config.tables.database t) rfl order
  set stages := Race.run (Party.step a version) ⟨Party.start, t⟩ order
  simp only [Party.scriptAt_start] at hstate hsame
  have hended := ended_iff_of_overtaking (r := r) hrace version
  obtain ⟨stage, hstage, hstanding⟩ := hrace.delete
  refine ⟨fun hrow hlogin hturns p => ?_, fun hover => ?_⟩
  · rw [← Tally.turns_of] at hturns
    obtain ⟨result, rfl⟩ := hstanding.exists_ended hturns
    rw [hsame]
    exact hended.mpr
      ⟨⟨result, hstage⟩, Tally.row_of_ne_none hrow, Tally.login_of_ne_none hlogin⟩ p
  obtain ⟨⟨result, hdelete⟩, hwritten, -⟩ :=
    hended.mp fun p hp => hover p ((hsame p).trans hp)
  obtain rfl := Party.Stage.deleting.inj (hstage.symm.trans hdelete)
  have hsweeping : stages.state.Sweeping a stages.state := by
    refine ⟨{ hrace.single with recorded := rfl }, .inl ⟨hrace.buried fun hturns => ?_, rfl, Iff.rfl⟩⟩
    cases hstanding.eq_start hturns
  obtain ⟨t', hswept, houtcome⟩ := Script.run_of_within (TableNames.obeys_database hr .calm)
    ((sweepable_sweeping hr).within_reconcile_exact_calm hr hbulk hsweeping) hstate
  refine ⟨stages.state, t', hstate, hswept, fun hfits => ?_, fun hlarge =>
    (houtcome.resolve_left fun hgood => hlarge hgood.1).2⟩
  obtain ⟨-, hprocessed, hdone, hempty⟩ := houtcome.resolve_right fun hbad => hbad.1 hfits
  -- No tombstone is left, so the sweep has come by.
  have hgone : stages.state.Swept a t' := by
    rcases hdone.swept with ⟨hleft, -⟩ | hgone
    · rw [Tables.Tombstoned, hempty, SortedMap.get?_empty] at hleft
      cases hleft
    · exact hgone
  refine ⟨hprocessed, hgone.row, fun l => ?_⟩
  rw [← hstanding.stranded_iff hwritten, ← hrace.single.recorded, ← hgone.login]
  constructor
  · intro howner
    obtain rfl := hdone.single.owned l howner
    exact ⟨rfl, howner⟩
  · rintro ⟨rfl, howner⟩
    exact howner

/-- The delete finds the row of the migration, whose login is bound before the delete
    releases it. -/
theorem racing_migration_swept_default :
    let a : Account := ⟨⟨.replicate 16 1, rfl⟩, "+1", 1, {}⟩
    let other : Account := ⟨⟨.replicate 16 2, rfl⟩, "+2", 1, {}⟩
    let t := (Tables.empty.register other).bury other.uuid
    let order : List Party := [.row, .delete, .delete, .login, .delete, .delete, .delete]
    Registry.ofConfig {} = .ok ⟨{}⟩ ∧ t.Agree ∧ t.Restorable ∧ t.KeyedOnIds .tombstones ∧
      (∀ row, t.accountRow? a.uuid = some row → Row.login? row = some a.login) ∧
      let race := Race.runScripts Database.handler (Party.script ⟨{}⟩ a 1)
        (({} : Config).tables.database t) order
      let swept := (⟨{}⟩ : Registry).reconcile.run Database.handler race.state
      (.row ∈ order → .login ∈ order → 5 ≤ order.count .delete →
          ∀ p, (race.racers p).ended? ≠ none) ∧
        ((∀ p, (race.racers p).ended? ≠ none) →
          ∃ t₁ t₂, race.state = ({} : Config).tables.database t₁ ∧
            swept.state = ({} : Config).tables.database t₂ ∧
            (t₁.PageFits {} →
              (∃ processed, swept.result = some (.ok processed)) ∧
              t₂.accountRow? a.uuid = none ∧
              ∀ l, t₂.owner? l = some a.uuid ↔
                l = a.login ∧ (Tally.of order).Overtaken a t) ∧
            (¬ t₁.PageFits {} → swept.result = some (.error .worker))) := by
  intro a other t order
  have hconfig : Registry.ofConfig {} = .ok ⟨{}⟩ := rfl
  have hagree : t.Agree := Tables.agree_empty.register rfl rfl
  have hrestorable : t.Restorable := Tables.restorable_empty.register other
  have hkeyed : t.KeyedOnIds .tombstones := by
    refine Tables.KeyedOnIds.bury (fun key row hrow => ?_) other.uuid
    cases hrow
  have hlogin : ∀ row, t.accountRow? a.uuid = some row → Row.login? row = some a.login :=
    fun _ => nofun
  exact ⟨hconfig, hagree, hrestorable, hkeyed, hlogin,
    racing_migration_swept hconfig hagree hrestorable hkeyed hlogin 1 order⟩

/-- A migration overtakes a delete: its row is written before the delete, its login is bound
    after.  The sweep succeeds and leaves the login bound to the account, which has no
    row. -/
theorem racing_migration_keeps_login :
    let a : Account := ⟨⟨.replicate 16 1, rfl⟩, "+1", 1, {}⟩
    let order : List Party := [.row, .delete, .delete, .delete, .delete, .delete, .login]
    Tables.empty.Agree ∧ Tables.empty.accountRow? a.uuid = none ∧
      let race := Race.runScripts Database.handler (Party.script ⟨{}⟩ a 1)
        (({} : Config).tables.database .empty) order
      let swept := (⟨{}⟩ : Registry).reconcile.run Database.handler race.state
      (∀ p, (race.racers p).ended? ≠ none) ∧
        swept.result.any (·.isOk) = true ∧
        swept.state.items "accounts" = [] ∧
        swept.state.items "accounts_logins" = [Row.ofLogin a.login a.uuid] := by
  intro a order
  refine ⟨Tables.agree_empty, rfl, fun p => ?_, ?_⟩
  · unfold order a
    cases p with
    | delete => decide +kernel
    | row => decide +kernel
    | login => decide +kernel
  · unfold order a
    decide +kernel

end Registry

end LoginRegistry
