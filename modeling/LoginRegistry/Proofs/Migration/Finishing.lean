import LoginRegistry.Proofs.Migration.Paging

/-! # A sweep finishes every interrupted delete

    A delete that is cut off has left its tombstone before everything else, so a sweep
    comes back to it.  Sweeps may be cut off as well.  What holds at all times is
    `Unfinished`: with the accounts that had a tombstone once taken for dead, the tables
    are those from before but for rows and logins of dead accounts, a dead account
    without a row has no login, and one with a row still has its tombstone.  A sweep that
    nothing befalls goes on until no tombstone is left, and then all dead accounts are
    gone (`sweep_finishes_deletes`).
-/

namespace LoginRegistry

open Store (Database Item)

/-! ### Accounts read from rows -/

/-- An account is read attribute by attribute. -/
theorem Row.read_of_account {row : Item} {a : Account} (h : account row = .ok a) :
    uuid row = .ok a.uuid ∧ login? row = some a.login ∧
      version? row = some a.migrationVersion := by
  unfold account at h
  cases huuid : uuid row with
  | error e =>
    rw [huuid] at h
    cases h
  | ok u =>
    cases hlogin : login? row with
    | none =>
      simp only [huuid, hlogin] at h
      cases h
    | some login =>
      simp only [huuid, hlogin, bind, Except.bind] at h
      split at h
      · split at h
        · next version hversion =>
          -- Nothing that is read after the version changes it.
          split at h
          · obtain rfl := Except.ok.inj h
            exact ⟨rfl, rfl, hversion⟩
          · cases h
        · cases h
      · cases h

theorem Row.login?_of_account {row : Item} {a : Account} (h : account row = .ok a) :
    login? row = some a.login := (Row.read_of_account h).2.1

/-! ### Tables under a delete -/

namespace Tables

/-- A login is bound to an account exactly if the account's row has the login. -/
def Agree (t : Tables) : Prop :=
  ∀ l u, t.owner? l = some u ↔ ∃ row, t.accountRow? u = some row ∧ Row.login? row = some l

/-- Every account row can be read. -/
def Restorable (t : Tables) : Prop :=
  ∀ u row, t.accountRow? u = some row → ∃ a, Row.account row = .ok a

theorem Restorable.congr {t t' : Tables} (h : t.Restorable) (haccounts : t' .accounts = t .accounts) :
    t'.Restorable := by
  intro u row
  rw [accountRow?_congr haccounts]
  exact h u row

theorem Restorable.eraseAccount {t : Tables} (h : t.Restorable) (u : Uuid) :
    (t.eraseAccount u).Restorable := by
  intro v row hrow
  rw [accountRow?_eraseAccount] at hrow
  split at hrow
  · cases hrow
  · exact h v row hrow

/-- The tables since `t₀`, when nothing was done but to delete dead accounts. -/
structure Unfinished (dead : Uuid → Prop) (t₀ t : Tables) : Prop where
  /-- Rows of dead accounts may be gone. -/
  rows : ∀ u, t.accountRow? u = t₀.accountRow? u ∨ dead u ∧ t.accountRow? u = none
  /-- Logins of dead accounts may be free. -/
  logins : ∀ l, t.loginRow? l = t₀.loginRow? l ∨
    t.loginRow? l = none ∧ ∃ u, dead u ∧ t₀.owner? l = some u
  /-- An account without a row has no login. -/
  free : ∀ u, t.accountRow? u = none → ∀ l, t.owner? l ≠ some u
  /-- Tombstones are of dead accounts. -/
  buried : ∀ u, t.Tombstoned u → dead u
  /-- A dead account with a row has a tombstone. -/
  queued : ∀ u, dead u → t.accountRow? u = none ∨ t.Tombstoned u
  /-- Tombstones can be listed. -/
  keyed : t.KeyedOnIds .tombstones

/-- The tables since `t₀`, when dead accounts were deleted and nothing else was done. -/
structure Finished (dead : Uuid → Prop) (t₀ t : Tables) : Prop where
  /-- No tombstone is left. -/
  empty : t .tombstones = .empty
  /-- Dead accounts have neither a row nor a login. -/
  gone : ∀ u, dead u → t.accountRow? u = none ∧ ∀ l, t.owner? l ≠ some u
  /-- Rows of other accounts are as before. -/
  rows : ∀ u, ¬ dead u → t.accountRow? u = t₀.accountRow? u
  /-- Logins that were or are bound to other accounts are as before. -/
  logins : ∀ u, ¬ dead u → ∀ l, t₀.owner? l = some u ∨ t.owner? l = some u →
    t.loginRow? l = t₀.loginRow? l
  /-- The tables agree again. -/
  agree : t.Agree

namespace Unfinished

variable {dead : Uuid → Prop} {t₀ t t' : Tables} {u : Uuid}

theorem refl (hagree : t.Agree) (hkeyed : t.KeyedOnIds .tombstones) :
    t.Unfinished t.Tombstoned t where
  rows _ := .inl rfl
  logins _ := .inl rfl
  free u hrow l howner := by
    obtain ⟨row, hsome, -⟩ := (hagree l u).mp howner
    rw [hrow] at hsome
    cases hsome
  buried _ := id
  queued _ := .inr
  keyed := hkeyed

/-- Other tables do not matter. -/
theorem congr (h : t₀.Unfinished dead t) (haccounts : t' .accounts = t .accounts)
    (hlogins : t' .logins = t .logins) (htombstones : t' .tombstones = t .tombstones) :
    t₀.Unfinished dead t' := by
  have hrow : ∀ u, t'.accountRow? u = t.accountRow? u := accountRow?_congr haccounts
  constructor
  · intro u
    rw [hrow]
    exact h.rows u
  · intro l
    rw [loginRow?_congr hlogins]
    exact h.logins l
  · intro u hnone l
    rw [owner?_congr hlogins]
    exact h.free u ((hrow u).symm.trans hnone) l
  · exact fun u hu => h.buried u ((tombstoned_congr htombstones u).mp hu)
  · intro u hu
    rw [hrow, tombstoned_congr htombstones]
    exact h.queued u hu
  · exact h.keyed.congr htombstones

/-- A login that is still bound is bound as before. -/
theorem owner?_eq (h : t₀.Unfinished dead t) {l : String} (howner : t.owner? l = some u) :
    t.loginRow? l = t₀.loginRow? l ∧ t₀.owner? l = some u := by
  rcases h.logins l with hsame | ⟨hnone, -⟩
  · refine ⟨hsame, ?_⟩
    rwa [owner?, ← hsame]
  · rw [owner?_of_loginRow?_eq_none hnone] at howner
    cases howner

/-- One more dead account is buried. -/
theorem bury (h : t₀.Unfinished dead t) (u : Uuid) :
    t₀.Unfinished (fun v => v = u ∨ dead v) (t.bury u) where
  rows v := (h.rows v).imp_right fun hv => ⟨.inr hv.1, hv.2⟩
  logins l := (h.logins l).imp_right fun ⟨hnone, v, hv, howner⟩ => ⟨hnone, v, .inr hv, howner⟩
  free := h.free
  buried v hv := (tombstoned_bury.mp hv).imp_right (h.buried v)
  queued v hv := by
    rw [tombstoned_bury]
    rcases hv with rfl | hv
    · exact .inr (.inl rfl)
    · exact (h.queued v hv).imp_right .inr
  keyed := h.keyed.bury u

/-- A login of a dead account is released. -/
theorem release (h : t₀.Unfinished dead t) (hu : dead u) (login : String) :
    t₀.Unfinished dead (t.release login u) := by
  have hrow : ∀ v, (t.release login u).accountRow? v = t.accountRow? v :=
    accountRow?_congr (release_ne nofun)
  have htombstones : (t.release login u) .tombstones = t .tombstones := release_ne nofun
  constructor
  · intro v
    rw [hrow]
    exact h.rows v
  · intro l
    rw [loginRow?_release]
    split
    · next hl =>
      obtain ⟨rfl, howner⟩ := hl
      exact .inr ⟨rfl, u, hu, (h.owner?_eq howner).2⟩
    · exact h.logins l
  · intro v hnone l
    rw [owner?_release]
    split
    · exact nofun
    · exact h.free v ((hrow v).symm.trans hnone) l
  · exact fun v hv => h.buried v ((tombstoned_congr htombstones v).mp hv)
  · intro v hv
    rw [hrow, tombstoned_congr htombstones]
    exact h.queued v hv
  · exact h.keyed.congr htombstones

/-- The row of a dead account without a login is removed. -/
theorem eraseAccount (h : t₀.Unfinished dead t) (hu : dead u) (hfree : ∀ l, t.owner? l ≠ some u) :
    t₀.Unfinished dead (t.eraseAccount u) where
  rows v := by
    rw [accountRow?_eraseAccount]
    split
    · next hv =>
      subst hv
      exact .inr ⟨hu, rfl⟩
    · exact h.rows v
  logins := h.logins
  free v hnone l := by
    rw [accountRow?_eraseAccount] at hnone
    split at hnone
    · next hv =>
      subst hv
      exact hfree l
    · exact h.free v hnone l
  buried := h.buried
  queued v hv := by
    rw [accountRow?_eraseAccount]
    split
    · exact .inl rfl
    · exact h.queued v hv
  keyed := h.keyed

/-- Tombstones of accounts without a row are drained. -/
theorem unbury (h : t₀.Unfinished dead t) {gone : List Uuid}
    (hgone : ∀ u ∈ gone, t.accountRow? u = none) : t₀.Unfinished dead (t.unbury gone) where
  rows := h.rows
  logins := h.logins
  free := h.free
  buried u hu := h.buried u (tombstoned_unbury.mp hu).1
  queued u hu := by
    rcases h.queued u hu with hnone | hburied
    · exact .inl hnone
    · by_cases hmem : u ∈ gone
      · exact .inl (hgone u hmem)
      · exact .inr (tombstoned_unbury.mpr ⟨hburied, hmem⟩)
  keyed := h.keyed.unbury gone

/-- The only login of an account is that of its row, so once that is released the
    account has none. -/
theorem owner?_release_ne (h : t₀.Unfinished dead t) (hagree : t₀.Agree) {row : Item} {a : Account}
    (hrow : t.accountRow? u = some row) (ha : Row.account row = .ok a) (l : String) :
    (t.release a.login u).owner? l ≠ some u := by
  rw [owner?_release]
  split
  · exact nofun
  · next hne =>
    -- Another login of the account would be that of its row before, which is still there.
    intro howner
    obtain ⟨row', hrow', hlogin⟩ := (hagree l u).mp (h.owner?_eq howner).2
    have hsame : row' = row := by
      rcases h.rows u with hsame | ⟨-, hnone⟩
      · rw [hrow, hrow'] at hsame
        exact (Option.some.inj hsame).symm
      · rw [hrow] at hnone
        cases hnone
    rw [hsame, Row.login?_of_account ha] at hlogin
    obtain rfl := Option.some.inj hlogin
    exact hne ⟨rfl, howner⟩

/-- The removal of a dead account can be cut off at any stage. -/
theorem removeStage (h : t₀.Unfinished dead t) (hagree : t₀.Agree) (hu : dead u)
    (hstage : t.RemoveStage u t') : t₀.Unfinished dead t' := by
  cases hstage with
  | start => exact h
  | released hrow ha => exact h.release hu _
  | removed hrow ha => exact (h.release hu _).eraseAccount hu (h.owner?_release_ne hagree hrow ha)

/-- The login recorded with the retry entry of a dead account is released. -/
theorem releaseRecorded (h : t₀.Unfinished dead t) (hu : dead u) :
    t₀.Unfinished dead (t.releaseRecorded u) := by
  unfold Tables.releaseRecorded
  split
  · exact h.release hu _
  · exact h

/-- The rows that are left are those from before, so they can be read. -/
theorem readable (h : t₀.Unfinished dead t) (hrestorable : t₀.Restorable) {row : Item}
    (hrow : t.accountRow? u = some row) : ∃ a, Row.account row = .ok a := by
  rcases h.rows u with hsame | ⟨-, hnone⟩
  · exact hrestorable u row (hsame.symm.trans hrow)
  · rw [hnone] at hrow
    cases hrow

/-- Once no tombstone is left, the deletes are finished. -/
theorem finished (h : t₀.Unfinished dead t) (hagree : t₀.Agree)
    (hempty : t .tombstones = .empty) : t₀.Finished dead t := by
  -- A dead account with a row would have a tombstone.
  have hgone : ∀ u, dead u → t.accountRow? u = none := by
    intro u hu
    exact (h.queued u hu).resolve_right (not_tombstoned_of_empty hempty u)
  have hrows : ∀ u, ¬ dead u → t.accountRow? u = t₀.accountRow? u := fun u hu =>
    (h.rows u).resolve_right fun hrow => hu hrow.1
  have hlogin : ∀ u, ¬ dead u → ∀ l, t₀.owner? l = some u → t.loginRow? l = t₀.loginRow? l := by
    intro u hu l howner
    refine (h.logins l).resolve_right ?_
    rintro ⟨-, v, hv, howner'⟩
    rw [howner] at howner'
    exact hu (Option.some.inj howner' ▸ hv)
  refine ⟨hempty, fun u hu => ⟨hgone u hu, h.free u (hgone u hu)⟩, hrows, ?_, ?_⟩
  · rintro u hu l (howner | howner)
    · exact hlogin u hu l howner
    · exact (h.owner?_eq howner).1
  · intro l u
    constructor
    · intro howner
      have hu : ¬ dead u := fun hu => h.free u (hgone u hu) l howner
      rw [hrows u hu]
      exact (hagree l u).mp (h.owner?_eq howner).2
    · rintro ⟨row, hrow, hlog⟩
      have hu : ¬ dead u := by
        intro hu
        rw [hgone u hu] at hrow
        cases hrow
      rw [hrows u hu] at hrow
      have howner := (hagree l u).mpr ⟨row, hrow, hlog⟩
      rwa [owner?, hlogin u hu l howner]

end Unfinished

end Tables

/-! ### Deletes of dead accounts -/

namespace Registry

variable {r : Registry} {x : Exposure} {dead : Uuid → Prop} {t₀ t : Tables}

section valid

variable (hr : Function.Injective r.config.tables.name) (hx : x.IsGenuine) (hagree : t₀.Agree)
  (hrestorable : t₀.Restorable)

include hr hx hagree hrestorable

/-- A delete of a dead account removes its row, or it is spoiled and unfinished. -/
theorem within_deleteWith_unfinished (h : t₀.Unfinished dead t) {u : Uuid} (hu : dead u) :
    (r.deleteWith u .reconcile).Within (r.config.tables.behaviour x) t
      (fun _ t' => t₀.Unfinished dead t' ∧ t' .tombstones = t .tombstones ∧
        ∀ v, v = u ∨ t.accountRow? v = none → t'.accountRow? v = none)
      fun _ t' => (∃ request m, x request m = true) ∧ t₀.Unfinished dead t' := by
  have hstart : t = if DeleteOptions.reconcile.tombstone then t.bury u else t := rfl
  refine within_deleteWith hr hx hstart ?_ ?_ ?_ ?_ ?_
  · intro hrow
    exact ⟨h.releaseRecorded hu, Tables.releaseRecorded_ne nofun,
      fun v => Tables.accountRow?_releaseRecorded_eq_none hrow⟩
  · intro row a hrow ha
    exact ⟨h.removeStage hagree hu (.removed hrow ha), Tables.release_ne nofun,
      fun v => Tables.accountRow?_remove_eq_none a.login⟩
  · intro row e hrow he
    obtain ⟨a, ha⟩ := h.readable hrestorable hrow
    rw [ha] at he
    cases he
  · intro request m o hm _
    exact ⟨⟨request, m, hm⟩, h⟩
  · intro request m o hm _ t' hstage
    exact ⟨⟨request, m, hm⟩, h.removeStage hagree hu hstage⟩

/-- So a sweep can be about nothing but dead accounts. -/
theorem sweepable_unfinished :
    Sweepable r x (t₀.Unfinished dead) fun t u => t.accountRow? u = none where
  keyed h := h.keyed
  delete h hu := within_deleteWith_unfinished hr hx hagree hrestorable h (h.buried _ hu)
  unbury h hus := h.unbury hus

/-- Sweeps leave deletes unfinished at worst. -/
theorem unfinished_of_after (sweeps : Nat) {state : Schedule × Database}
    (hstate : state.2 = r.config.tables.database t) (h : t₀.Unfinished dead t) :
    ∃ t', (r.after x (List.replicate sweeps .reconcile) state).2 = r.config.tables.database t' ∧
      t₀.Unfinished dead t' := by
  induction sweeps generalizing t state with
  | zero => exact ⟨t, hstate, h⟩
  | succ sweeps ih =>
    obtain ⟨t', hstate', h'⟩ := Script.run_of_within (TableNames.obeys_schedule hr x)
      (((sweepable_unfinished hr hx hagree hrestorable).keeps_reconcile hr).discard t h) hstate
    exact ih hstate' h'

end valid

/-! ### The delete -/

/-- What a delete leaves of tables that agree, however it ends: the tombstones from
    before, perhaps one more, and the removal of its account at any stage. -/
structure Deleted (t₀ : Tables) (u : Uuid) (t : Tables) : Prop where
  /-- Only accounts with a tombstone are touched. -/
  unfinished : t₀.Unfinished t.Tombstoned t
  /-- There is no new tombstone but that of the account. -/
  tombstoned : ∀ v, t.Tombstoned v ↔ t₀.Tombstoned v ∨ v = u ∧ t.Tombstoned u

/-- Once its tombstone is left, the account counts as dead. -/
theorem deleted_of_buried {u : Uuid} (h : t₀.Unfinished (fun v => v = u ∨ t₀.Tombstoned v) t)
    (ht : t .tombstones = (t₀.bury u) .tombstones) : Deleted t₀ u t ∧ t.Tombstoned u := by
  have htombstoned : ∀ v, t.Tombstoned v ↔ v = u ∨ t₀.Tombstoned v := fun v =>
    (Tables.tombstoned_congr ht v).trans Tables.tombstoned_bury
  have hu : t.Tombstoned u := (htombstoned u).mpr (.inl rfl)
  have hdead : t.Tombstoned = fun v => v = u ∨ t₀.Tombstoned v :=
    funext fun v => propext (htombstoned v)
  refine ⟨⟨hdead ▸ h, fun v => ?_⟩, hu⟩
  rw [htombstoned v, or_comm, and_iff_left hu]

/-- A delete leaves what the removal leaves, once the tombstone is written. -/
theorem state_run_delete (h : Handler σ) (u : Uuid) (version : Int64) (d : σ) :
    ((r.work (.call (.delete u version))).run h d).state
      = match ((r.tombstones.put u).run.run h d).result with
        | some (.ok _) => ((r.removal u (some version)).run.run h
            ((r.tombstones.put u).run.run h d).state).state
        | _ => ((r.tombstones.put u).run.run h d).state := by
  -- Neither the latency that is sampled nor what is returned changes the state.
  have hquiet : ((r.work (.call (.delete u version))).run h d).state
      = ((r.tombstones.put u >>= fun _ => r.removal u (some version)).run.run h d).state := by
    rw [work, Script.state_run_discard, perform, delete, deleteWith_eq]
    refine (Script.state_run_bind_of_quiet (fun result _ => by cases result <;> rfl) d).trans ?_
    exact Script.state_run_bind_of_quiet (fun _ _ => rfl) d
  have hbind := Script.state_run_bind h (r.tombstones.put u).run
    (ExceptT.bindCont fun _ => r.removal u (some version)) d
  refine (hquiet.trans hbind).trans ?_
  match ((r.tombstones.put u).run.run h d).result with
  | none => rfl
  | some (.ok _) => rfl
  | some (.error _) => rfl

section valid

variable (hr : Function.Injective r.config.tables.name) (hx : x.IsGenuine) (hagree : t₀.Agree)
  (hrestorable : t₀.Restorable) (hkeyed : t₀.KeyedOnIds .tombstones)

include hr hx hagree hrestorable hkeyed

/-- After the tombstone the removal can be cut off at any stage. -/
theorem within_removal_deleted (u : Uuid) (version? : Option Int64) :
    (r.removal u version?).Within (r.config.tables.behaviour x) (t₀.bury u)
      (fun _ t => Deleted t₀ u t ∧ t.Tombstoned u) fun _ t => Deleted t₀ u t ∧ t.Tombstoned u := by
  have hstart : t₀.Unfinished (fun v => v = u ∨ t₀.Tombstoned v) (t₀.bury u) :=
    (Tables.Unfinished.refl hagree hkeyed).bury u
  refine within_removal hr hx ?_ ?_ ?_ ?_
  · intro _
    exact deleted_of_buried (hstart.releaseRecorded (.inl rfl)) (Tables.releaseRecorded_ne nofun)
  · intro row a hrow ha
    have hstage : (t₀.bury u).RemoveStage u _ := .removed hrow ha
    have hversion {i : TableId} (hi : i ≠ .misc) :
        (((t₀.bury u).release a.login u).eraseAccount u).setVersion? version? i
          = ((t₀.bury u).release a.login u).eraseAccount u i := Tables.setVersion?_ne hi
    exact deleted_of_buried ((hstart.removeStage hagree (.inl rfl) hstage).congr (hversion nofun)
      (hversion nofun) (hversion nofun)) ((hversion (i := .tombstones) nofun).trans
      hstage.tombstones_eq)
  · intro row e hrow he
    obtain ⟨a, ha⟩ := hstart.readable hrestorable hrow
    rw [ha] at he
    cases he
  · intro _ _ _ _ _ t hstage
    exact deleted_of_buried (hstart.removeStage hagree (.inl rfl) hstage) hstage.tombstones_eq

/-- However a delete ends, nothing else is done. -/
theorem within_work_delete (u : Uuid) (version : Int64) :
    (r.work (.call (.delete u version))).Within (r.config.tables.behaviour x)
      (fun _ => Deleted t₀ u) t₀ := by
  have hdelete : (r.delete u version).Within (r.config.tables.behaviour x) t₀
      (fun _ => Deleted t₀ u) fun _ => Deleted t₀ u := by
    rw [delete, deleteWith_eq]
    refine Action.within_timed (Action.within_bind (within_tombstones_put hr ?_ ?_))
    · exact Action.Within.mono (within_removal_deleted hr hx hagree hrestorable hkeyed u _)
        (fun _ _ => And.left) fun _ _ => And.left
    · intro _ _ _ _ _
      refine ⟨.refl hagree hkeyed, fun v => ⟨.inl, ?_⟩⟩
      rintro (hv | ⟨rfl, hv⟩)
      · exact hv
      · exact hv
  have hperform : (r.perform (.delete u version)).Within (r.config.tables.behaviour x) t₀
      (fun _ => Deleted t₀ u) fun _ => Deleted t₀ u :=
    Action.within_map hdelete
  refine Script.within_bind (Script.Within.mono hperform fun o t ht => ?_)
  match o with
  | none => exact ht
  | some (.ok _) => exact ht
  | some (.error _) => exact ht

/-- A tombstone that is written stays, whatever befalls the rest of the delete. -/
theorem tombstoned_of_put {u : Uuid} (version : Int64) (schedule : Schedule)
    (hput : ((r.tombstones.put u).run.run (Schedule.handler x)
      (schedule, r.config.tables.database t₀)).result = some (.ok ())) :
    ∃ t, ((r.work (.call (.delete u version))).run (Schedule.handler x)
        (schedule, r.config.tables.database t₀)).state.2 = r.config.tables.database t ∧
      t.Tombstoned u := by
  have hobeys := TableNames.obeys_schedule hr x
  obtain ⟨_, hburied, rfl⟩ : ∃ t, _ ∧ t = t₀.bury u := by
    have hwithin : (r.tombstones.put u).Within (r.config.tables.behaviour x) t₀
        (fun _ t => t = t₀.bury u) fun _ _ => True :=
      within_tombstones_put hr rfl fun _ _ _ _ _ => trivial
    have hrun := Script.run_of_within hobeys hwithin
      (x := (schedule, r.config.tables.database t₀)) rfl
    rwa [hput] at hrun
  have hremoval : (r.removal u (some version)).run.Within (r.config.tables.behaviour x)
      (fun _ t => t.Tombstoned u) (t₀.bury u) := by
    refine Script.Within.mono
      (within_removal_deleted hr hx hagree hrestorable hkeyed u (some version)) fun o t ht => ?_
    match o with
    | none => exact ht.2
    | some (.ok _) => exact ht.2
    | some (.error _) => exact ht.2
  obtain ⟨t, hremoved, ht⟩ := Script.run_of_within hobeys hremoval hburied
  refine ⟨t, ?_, ht⟩
  rw [state_run_delete, hput]
  exact hremoved

end valid

/-- A sweep finishes every interrupted delete.  Start from any tables whose accounts and
    logins agree and whose account rows can be read, with any tombstones and any retry
    entries.  Whatever befalls a delete and any number of sweeps after it, let one more sweep be
    made that nothing befalls.

    * It succeeds if the largest page of the tombstones that are left by then can be drained.
      Then it leaves no tombstone, and the accounts that had one after the delete are gone,
      while everything of other accounts is as before.  The account of the delete is among them
      if its tombstone was written.
    * If that page cannot be drained, because the requests that it takes cannot be counted,
      the sweep panics. -/
theorem sweep_finishes_deletes {config : Config} {r : Registry} (h : ofConfig config = .ok r)
    {t : Tables} (hagree : t.Agree) (hrestorable : t.Restorable)
    (hkeyed : t.KeyedOnIds .tombstones) (u : Uuid) (version : Int64) (sweeps : Nat)
    (schedule : Schedule) :
    let x : Exposure := .genuine fun _ _ => true
    let start := (schedule, config.tables.database t)
    let deleted := r.after x [.call (.delete u version)] start
    let swept := r.after x (List.replicate sweeps .reconcile) deleted
    let last := r.reconcile.run Database.handler swept.2
    ∃ t₁ t₂ t₃,
      deleted.2 = config.tables.database t₁ ∧
      (∀ v, t₁.Tombstoned v ↔ t.Tombstoned v ∨ v = u ∧ t₁.Tombstoned u) ∧
      (((r.tombstones.put u).run.run (Schedule.handler x) start).result = some (.ok ()) →
        t₁.Tombstoned u) ∧
      swept.2 = config.tables.database t₂ ∧
      last.state = config.tables.database t₃ ∧
      (t₂.PageFits config →
        (∃ processed, last.result = some (.ok processed)) ∧ t.Finished t₁.Tombstoned t₃) ∧
      (¬ t₂.PageFits config → last.result = some (.error .worker)) := by
  obtain ⟨rfl, -, hbulk⟩ := validate_of_ofConfig h
  obtain ⟨-, hr⟩ := name_injective_of_ofConfig h
  intro x start deleted swept last
  have hx : x.IsGenuine := Exposure.isGenuine_genuine _
  -- After the delete the accounts with a tombstone are dead, and sweeps do not change that.
  obtain ⟨t₁, hdeleted, ht₁⟩ := Script.run_of_within (TableNames.obeys_schedule hr x)
    (within_work_delete hr hx hagree hrestorable hkeyed u version) (x := start) rfl
  obtain ⟨t₂, hswept, ht₂⟩ :=
    unfinished_of_after hr hx hagree hrestorable sweeps hdeleted ht₁.unfinished
  -- The last sweep empties the queue.
  obtain ⟨t₃, hlast, hdone⟩ := Script.run_of_within (TableNames.obeys_database hr .calm)
    ((sweepable_unfinished hr (Exposure.isGenuine_genuine _) hagree
      hrestorable).within_reconcile_exact_calm hr hbulk ht₂) hswept
  refine ⟨t₁, t₂, t₃, hdeleted, ht₁.tombstoned, fun hput => ?_, hswept, hlast, fun hfits => ?_,
    fun hlarge => ?_⟩
  · obtain ⟨t', hstate, hburied⟩ := tombstoned_of_put hr hx hagree hrestorable hkeyed version
      schedule hput
    rwa [TableNames.database_injective hr (hstate.symm.trans hdeleted)] at hburied
  · obtain ⟨-, hresult, ht₃, hempty⟩ := hdone.resolve_right fun hbad => hbad.1 hfits
    exact ⟨hresult, ht₃.finished hagree hempty⟩
  · exact (hdone.resolve_left fun hgood => hlarge hgood.1).2

/-- One account, and the tombstone of another that is gone.  The delete fails after its
    tombstone is written, and the first sweep once the login is released. -/
theorem sweep_finishes_deletes_default :
    let a : Account := ⟨⟨.replicate 16 1, rfl⟩, "+1", 1, {}⟩
    let accounts : Rows := SortedMap.empty.insert (Row.uuidValue a.uuid) (Row.ofAccount a)
    let t := ((Tables.empty.set .accounts accounts).bindLogin a.login a.uuid).bury
      ⟨.replicate 16 2, rfl⟩
    let fault : Option Mishap := some (.failure (.unavailable ""))
    let schedule : Schedule := [none, fault, none, none, none, fault]
    Registry.ofConfig {} = .ok ⟨{}⟩ ∧ t.Agree ∧ t.Restorable ∧ t.KeyedOnIds .tombstones ∧
      let r : Registry := ⟨{}⟩
      let x : Exposure := .genuine fun _ _ => true
      let start := (schedule, ({} : Config).tables.database t)
      let deleted := r.after x [.call (.delete a.uuid 7)] start
      let swept := r.after x (List.replicate 1 .reconcile) deleted
      let last := r.reconcile.run Database.handler swept.2
      ((r.tombstones.put a.uuid).run.run (Schedule.handler x) start).result = some (.ok ()) ∧
      ∃ t₁ t₂ t₃,
        deleted.2 = ({} : Config).tables.database t₁ ∧
        (∀ v, t₁.Tombstoned v ↔ t.Tombstoned v ∨ v = a.uuid ∧ t₁.Tombstoned a.uuid) ∧
        (((r.tombstones.put a.uuid).run.run (Schedule.handler x) start).result = some (.ok ()) →
          t₁.Tombstoned a.uuid) ∧
        swept.2 = ({} : Config).tables.database t₂ ∧
        last.state = ({} : Config).tables.database t₃ ∧
        (t₂.PageFits {} →
          (∃ processed, last.result = some (.ok processed)) ∧ t.Finished t₁.Tombstoned t₃) ∧
        (¬ t₂.PageFits {} → last.result = some (.error .worker)) := by
  intro a accounts t fault schedule
  have hconfig : Registry.ofConfig {} = .ok ⟨{}⟩ := rfl
  have hrow : ∀ v, t.accountRow? v = if v = a.uuid then some (Row.ofAccount a) else none := by
    intro v
    change accounts.get? (Row.uuidValue v) = _
    rw [SortedMap.get?_insert_eq, SortedMap.get?_empty]
    simp only [Row.uuidValue_inj]
  have howner : ∀ l, t.owner? l = if l = a.login then some a.uuid else none := by
    intro l
    change ((Tables.empty.set .accounts accounts).bindLogin a.login a.uuid).owner? l = _
    rw [Tables.owner?_bindLogin]
    rfl
  have hagree : t.Agree := by
    intro l v
    have hlogin : Row.login? (Row.ofAccount a) = some a.login :=
      Row.login?_of_account (Row.account_ofAccount a)
    rw [howner, hrow]
    constructor
    · intro h
      split at h
      · next hl =>
        obtain rfl := Option.some.inj h
        exact ⟨_, if_pos rfl, hl ▸ hlogin⟩
      · cases h
    · rintro ⟨row, h, hl⟩
      split at h
      · next hv =>
        obtain rfl := Option.some.inj h
        rw [hlogin] at hl
        rw [if_pos (Option.some.inj hl).symm, hv]
      · cases h
  have hrestorable : t.Restorable := by
    intro v row hv
    rw [hrow] at hv
    split at hv
    · obtain rfl := Option.some.inj hv
      exact ⟨a, Row.account_ofAccount a⟩
    · cases hv
  have hkeyed : t.KeyedOnIds .tombstones := by
    refine Tables.KeyedOnIds.bury (fun key row hkey => ?_) _
    change SortedMap.empty.get? key = some row at hkey
    rw [SortedMap.get?_empty] at hkey
    cases hkey
  have hput : (((⟨{}⟩ : Registry).tombstones.put a.uuid).run.run
      (Schedule.handler (.genuine fun _ _ => true))
      (schedule, ({} : Config).tables.database t)).result = some (.ok ()) := by
    unfold schedule fault t accounts a
    rfl
  exact ⟨hconfig, hagree, hrestorable, hkeyed, hput,
    sweep_finishes_deletes hconfig hagree hrestorable hkeyed a.uuid 7 1 schedule⟩

end Registry

end LoginRegistry
