import LoginRegistry.Proofs.Registry.Creating
import LoginRegistry.Proofs.Script.Asking
import Mathlib.Logic.Function.Iterate

/-! # Creates and deletes that are tried again

    A create or a delete that fails has made some of its writes.  Trying again completes
    it as if nothing had failed, because each request recognises what it has done before.

    * `create_completes`: a create that is tried again, whatever rows there are.
    * `delete_completes`: a delete that is tried again, where accounts and logins agree.
      The directory version is the exception: once the row is gone, a delete takes the
      account for absent and does not come to it.
-/

namespace LoginRegistry

open Store (Database Item)

/-! ### Creates -/

namespace Creating

variable {a : Account} {version : Int64} {t : Tables}

/-! ### Running to the end -/

/-- The next stage with its tables. -/
def advance (a : Account) (version : Int64) (p : Creating × Tables) : Creating × Tables :=
  p.1.step a version p.2

/-- The end of a create with its tables. -/
def finish (a : Account) (version : Int64) : Creating × Tables → Creating × Tables :=
  (advance a version)^[4]

/-- After four requests a create has ended. -/
theorem exists_finish (a : Account) (version : Int64) (p : Creating × Tables) :
    ∃ result, (finish a version p).1 = .ended result := by
  have hdepth : ∀ k p, min 4 k ≤ ((advance a version)^[k] p).1.depth := by
    intro k p
    induction k with
    | zero => exact Nat.zero_le _
    | succ k ih =>
      rw [Function.iterate_succ_apply']
      have hstep := min_le_depth_step ((advance a version)^[k] p).1 a version
        ((advance a version)^[k] p).2
      exact (by omega : min 4 (k + 1) ≤ _).trans hstep
  exact exists_of_depth (hdepth 4 p)

theorem advance_finish (p : Creating × Tables) :
    advance a version (finish a version p) = finish a version p := by
  obtain ⟨result, hresult⟩ := exists_finish a version p
  rw [advance, hresult, ← hresult]
  exact Prod.ext (by rw [hresult]; rfl) (by rw [hresult]; rfl)

/-- The end does not depend on where the create is on its way there. -/
theorem finish_iterate (k : Nat) (p : Creating × Tables) :
    finish a version ((advance a version)^[k] p) = finish a version p := by
  rw [finish, ← Function.iterate_add_apply, Nat.add_comm, Function.iterate_add_apply]
  exact Function.iterate_fixed (advance_finish p) k

/-! ### Starting over -/

/-- What the tables hold of a create that has come to a stage. -/
def Left (a : Account) : Creating → Tables → Prop
  | .start, _ => True
  | .stored, t => t.accountRow? a.uuid = some (Row.ofAccount a)
  | .bound, t => t.accountRow? a.uuid = some (Row.ofAccount a) ∧
      t.loginRow? a.login = some (Row.ofLogin a.login a.uuid)
  | .lost owner, t => t.accountRow? a.uuid = some (Row.ofAccount a) ∧
      t.grants a.login a.uuid = false ∧ refused a.login (t.loginRow? a.login) = .lost owner
  | .withdrawn owner, t => t.accountRow? a.uuid = none ∧
      t.grants a.login a.uuid = false ∧ refused a.login (t.loginRow? a.login) = .lost owner
  | .ended _, _ => True

theorem left_step {stage : Creating} (h : Left a stage t) :
    Left a (stage.step a version t).1 (stage.step a version t).2 := by
  cases stage with
  | ended result => trivial
  | start =>
    cases hadmits : t.admits a with
    | false => rw [step_start_of_not_admits hadmits]; trivial
    | true =>
      rw [step_start_of_admits hadmits]
      exact Tables.accountRow?_putAccount.trans (if_pos rfl)
  | stored =>
    cases hgrants : t.grants a.login a.uuid with
    | true =>
      rw [step_stored_of_grants hgrants]
      exact ⟨h, Tables.loginRow?_bindLogin.trans (if_pos rfl)⟩
    | false =>
      rw [step_stored_of_not_grants hgrants]
      rcases refused_cases a.login (t.loginRow? a.login) with
        ⟨_, owner, -, -, hrefused⟩ | ⟨-, hrefused⟩ | ⟨_, _, -, -, hrefused⟩
      · rw [hrefused]
        exact ⟨h, hgrants, hrefused⟩
      · rw [hrefused]
        trivial
      · rw [hrefused]
        trivial
  | bound => trivial
  | lost owner =>
    obtain ⟨hrow, hgrants, hrefused⟩ := h
    have hlogin := Tables.hasThisLogin_of_login hrow (Row.login_ofAccount a)
    change Left a (.withdrawn owner) (t.withdraw a.uuid a.login)
    rw [Tables.withdraw_of_hasThisLogin hlogin]
    exact ⟨Tables.accountRow?_eraseAccount.trans (if_pos rfl), hgrants, hrefused⟩
  | withdrawn owner =>
    cases hlogin : t.hasLogin owner with
    | true => rw [step_withdrawn_of_hasLogin hlogin]; trivial
    | false => rw [step_withdrawn_of_not_hasLogin hlogin]; trivial

/-- On the tables that a create has left, another one comes to the same stage and leaves
    them as they are. -/
theorem exists_iterate_of_left (version : Int64) {stage : Creating} (h : Left a stage t)
    (hstage : ∀ result, stage ≠ .ended result) :
    ∃ k, (advance a version)^[k] (.start, t) = (stage, t) := by
  have hstored : t.accountRow? a.uuid = some (Row.ofAccount a) →
      advance a version (.start, t) = (.stored, t) := by
    intro hrow
    have hput : t.putAccount a = t := Tables.setAccount_of_accountRow? hrow
    rw [advance, step_start_of_admits (Tables.admits_of_login hrow (Row.login_ofAccount a)), hput]
  cases stage with
  | ended result => exact absurd rfl (hstage result)
  | start => exact ⟨0, rfl⟩
  | stored => exact ⟨1, hstored h⟩
  | bound =>
    obtain ⟨hrow, hlogin⟩ := h
    have howner : t.owner? a.login = some a.uuid :=
      Tables.owner?_eq_some_iff.mpr ⟨_, hlogin, Row.uuid_ofLogin ..⟩
    refine ⟨2, ?_⟩
    rw [Function.iterate_succ_apply, hstored hrow, Function.iterate_one, advance,
      step_stored_of_grants (Tables.grants_of_owner? howner), Tables.bindLogin_of_loginRow? hlogin]
  | lost owner =>
    obtain ⟨hrow, hgrants, hrefused⟩ := h
    refine ⟨2, ?_⟩
    rw [Function.iterate_succ_apply, hstored hrow, Function.iterate_one, advance,
      step_stored_of_not_grants hgrants, hrefused]
  | withdrawn owner =>
    -- The row is written and withdrawn once more.
    obtain ⟨hrow, hgrants, hrefused⟩ := h
    have hgrants' : (t.putAccount a).grants a.login a.uuid = false := hgrants
    have hrefused' : refused a.login ((t.putAccount a).loginRow? a.login) = .lost owner := hrefused
    have hput : (t.putAccount a).accountRow? a.uuid = some (Row.ofAccount a) :=
      Tables.accountRow?_putAccount.trans (if_pos rfl)
    have hwithdraw : (t.putAccount a).withdraw a.uuid a.login = t := by
      rw [Tables.withdraw_of_hasThisLogin
        (Tables.hasThisLogin_of_login hput (Row.login_ofAccount a))]
      exact Tables.eraseAccount_setAccount hrow
    have hfirst : advance a version (.start, t) = (.stored, t.putAccount a) :=
      step_start_of_admits (Tables.admits_of_accountRow?_eq_none hrow)
    have hsecond : advance a version (.stored, t.putAccount a) = (.lost owner, t.putAccount a) := by
      rw [advance, step_stored_of_not_grants hgrants', hrefused']
    have hthird : advance a version (.lost owner, t.putAccount a) = (.withdrawn owner, t) :=
      congrArg (Prod.mk _) hwithdraw
    refine ⟨3, ?_⟩
    rw [Function.iterate_succ_apply, Function.iterate_succ_apply, Function.iterate_one, hfirst,
      hsecond, hthird]

/-- A create that starts over on the tables that another has left comes to the same end. -/
theorem finish_of_left {k : Nat} {stage : Creating} {t' : Tables}
    (h : (advance a version)^[k] (.start, t) = (stage, t'))
    (hstage : ∀ result, stage ≠ .ended result) :
    finish a version (.start, t') = finish a version (.start, t) := by
  have hleft : ∀ k, Left a ((advance a version)^[k] (.start, t)).1
      ((advance a version)^[k] (.start, t)).2 := by
    intro k
    induction k with
    | zero => trivial
    | succ k ih =>
      rw [Function.iterate_succ_apply']
      exact left_step ih
  have hleft := hleft k
  rw [h] at hleft
  obtain ⟨j, hj⟩ := exists_iterate_of_left version hleft hstage
  rw [← finish_iterate j, hj, ← h, finish_iterate]

/-! ### Results -/

/-- The results of a create that nothing befalls. -/
inductive Settles (a : Account) : Except RegistryError Creation → Prop where
  /-- The account is new or was there already. -/
  | created : Settles a (.ok .created)
  /-- The login is another's, who is updated. -/
  | updatedOwner (owner : Uuid) : Settles a (.ok (.updatedOwner owner))
  /-- The id has another login. -/
  | collision : Settles a (.error (.identifierCollision a.uuid))
  /-- The login is bound to an account without a row. -/
  | ownerMissing : Settles a (.error (.loginOwnerMissing a.login))
  /-- The row of the login does not tell the owner. -/
  | corrupt (fault : RowFault) : Settles a (.error (.corruptAccount fault))

theorem settles_of_step {stage : Creating} (hstage : ∀ result, stage ≠ .ended result)
    {result : Except RegistryError Creation}
    (h : (stage.step a version t).1 = .ended result) : Settles a result := by
  cases stage with
  | ended result => exact absurd rfl (hstage result)
  | start =>
    cases hadmits : t.admits a with
    | true => rw [step_start_of_admits hadmits] at h; cases h
    | false => rw [step_start_of_not_admits hadmits] at h; cases h; exact .collision
  | stored =>
    cases hgrants : t.grants a.login a.uuid with
    | true => rw [step_stored_of_grants hgrants] at h; cases h
    | false =>
      rw [step_stored_of_not_grants hgrants] at h
      rcases refused_cases a.login (t.loginRow? a.login) with
        ⟨_, owner, -, -, hrefused⟩ | ⟨-, hrefused⟩ | ⟨row, e, -, he, hrefused⟩
      · rw [hrefused] at h
        cases h
      · rw [hrefused] at h
        cases h
        exact .ownerMissing
      · rw [hrefused] at h
        cases h
        obtain ⟨fault, rfl⟩ := Row.exists_fault_of_uuid he
        exact .corrupt fault
  | bound => cases h; exact .created
  | lost owner => cases h
  | withdrawn owner =>
    cases hlogin : t.hasLogin owner with
    | true => rw [step_withdrawn_of_hasLogin hlogin] at h; cases h; exact .updatedOwner owner
    | false => rw [step_withdrawn_of_not_hasLogin hlogin] at h; cases h; exact .ownerMissing

theorem settles_finish {result : Except RegistryError Creation}
    (h : (finish a version (.start, t)).1 = .ended result) : Settles a result := by
  have hend : ∀ k result, ((advance a version)^[k] (.start, t)).1 = .ended result →
      Settles a result := by
    intro k
    induction k with
    | zero => intro result hresult; cases hresult
    | succ k ih =>
      intro result hresult
      rw [Function.iterate_succ_apply'] at hresult
      by_cases hstage : ∃ result', ((advance a version)^[k] (.start, t)).1 = .ended result'
      · obtain ⟨result', hstage⟩ := hstage
        rw [advance, hstage] at hresult
        cases hresult
        exact ih result hstage
      · exact settles_of_step (fun result' h => hstage ⟨result', h⟩) hresult
  exact hend 4 result h

end Creating

namespace Registry

/-- Creates an account some times over, each time with the account that the time before has
    left: what came of each time, and the account in the end. -/
def createTimes (r : Registry) (version : Int64) :
    Nat → Account → Script (List (Option (Except RegistryError Creation)) × Account)
  | 0, a => return ([], a)
  | attempts + 1, a => do
    let (result, a) ← r.createFor a version
    let (results, a) ← r.createTimes version attempts a
    return (result :: results, a)

/-- The store failed, or a panic ended the call. -/
def Failed (result : Option (Except RegistryError α)) : Prop :=
  result = none ∨ ∃ e, result = some (.error (.store e))

instance : ∀ result : Option (Except RegistryError α), Decidable (Failed result)
  | none => .isTrue (.inl rfl)
  | some (.error (.store e)) => .isTrue (.inr ⟨e, rfl⟩)
  | some (.ok _) | some (.error (.identifierCollision _)) | some (.error (.accountNotFound _))
  | some (.error (.loginOwnerMissing _)) | some (.error (.corruptAccount _))
  | some (.error (.corruptCounter _)) | some (.error (.payload _)) =>
    .isFalse fun h => h.elim nofun nofun

variable {r : Registry} {x : Exposure} {a : Account} {version : Int64} {t : Tables}

section valid

variable (hr : Function.Injective r.config.tables.name) (hx : x.IsGenuine)

include hr hx

/-- A create comes to its end, or a spoiled request cuts it off at a stage on its way. -/
theorem within_createScript (stage : Creating) (t : Tables) :
    (r.createScript a version stage).Within (r.config.tables.behaviour x)
      (fun o t' =>
        (∃ result, o = some result ∧
          Creating.finish a version (stage, t) = (.ended result, t')) ∨
        (∃ request m, x request m = true) ∧ Failed o ∧
          ∃ k stage', (Creating.advance a version)^[k] (stage, t) = (stage', t') ∧
            ∀ result, stage' ≠ .ended result) t := by
  obtain ⟨left, hleft⟩ : ∃ left, 4 ≤ stage.depth + left := ⟨4, Nat.le_add_left ..⟩
  induction left generalizing stage t with
  | zero =>
    obtain ⟨result, rfl⟩ := Creating.exists_of_depth hleft
    exact .inl ⟨result, rfl, rfl⟩
  | succ left ih =>
    by_cases hstage : ∃ result, stage = .ended result
    · obtain ⟨result, rfl⟩ := hstage
      exact .inl ⟨result, rfl, rfl⟩
    have hstage : ∀ result, stage ≠ .ended result := fun result h => hstage ⟨result, h⟩
    refine Script.within_of_next (Script.Next.mono (next_createScript hr hx hstage) ?_)
    rintro s t' (⟨rfl, rfl⟩ | ⟨rfl, request, m, o, hm, ho, rfl⟩)
    · have hdepth := stage.min_le_depth_step a version t
      refine Script.Within.mono (ih _ _ (by omega)) ?_
      rintro o t' (⟨result, rfl, hfinish⟩ | ⟨hx, hfailed, k, stage', hk, hstage'⟩)
      · exact .inl ⟨result, rfl, (Creating.finish_iterate 1 (stage, t)).symm.trans hfinish⟩
      · exact .inr ⟨hx, hfailed, k + 1, stage', hk, hstage'⟩
    · cases ho with
      | failure e => exact .inr ⟨⟨_, _, hm⟩, .inr ⟨e, rfl⟩, 0, stage, rfl, hstage⟩
      | panic => exact .inr ⟨⟨_, _, hm⟩, .inl rfl, 0, stage, rfl, hstage⟩

/-- A create comes to its end, or it fails and another one would come to that end. -/
theorem within_create (a : Account) (version : Int64) (t : Tables) :
    (r.create a version).run.Within (r.config.tables.behaviour x)
      (fun o t' =>
        (∃ result, o = some result ∧
          Creating.finish a version (.start, t) = (.ended result, t')) ∨
        (∃ request m, x request m = true) ∧ Failed o ∧
          Creating.finish a version (.start, t') = Creating.finish a version (.start, t)) t := by
  rw [create_eq]
  refine Script.Within.mono (within_createScript hr hx .start t) fun o t' => Or.imp_right ?_
  rintro ⟨hx, hfailed, k, stage, hk, hstage⟩
  exact ⟨hx, hfailed, Creating.finish_of_left hk hstage⟩

omit hx in
/-- A create that nothing befalls comes to its end. -/
theorem run_create (a : Account) (version : Int64) (t : Tables) :
    ∃ result t', Creating.finish a version (.start, t) = (.ended result, t') ∧
      ((r.create a version).run.run Database.handler (r.config.tables.database t)).result
        = some result ∧
      ((r.create a version).run.run Database.handler (r.config.tables.database t)).state
        = r.config.tables.database t' := by
  obtain ⟨t', hstate, hpost⟩ := Script.run_of_within (TableNames.obeys_database hr .calm)
    (within_create hr (Exposure.isGenuine_genuine _) a version t) rfl
  rcases hpost with ⟨result, hresult, hfinish⟩ | ⟨⟨request, m, hm⟩, -⟩
  · exact ⟨result, t', hfinish, hresult, hstate⟩
  · exact (Exposure.not_calm hm).elim

omit hr hx in
/-- What a create comes to in the end is no failure. -/
theorem not_failed_of_finish {o : Option (Except RegistryError Creation)}
    {result : Except RegistryError Creation} {t' : Tables} (ho : o = some result)
    (h : Creating.finish a version (.start, t) = (.ended result, t')) : ¬ Failed o := by
  subst ho
  have hsettles := Creating.settles_finish (congrArg Prod.fst h)
  rintro (hfailed | ⟨e, hfailed⟩)
  · cases hfailed
  · obtain rfl := Option.some.inj hfailed
    cases hsettles

/-- A create for a caller comes to its end, or it fails and leaves the caller's account. -/
theorem within_createFor (a : Account) (version : Int64) (t : Tables) :
    (r.createFor a version).Within (r.config.tables.behaviour x)
      (fun o t' => ∃ result a', o = some (result, a') ∧
        ((∃ outcome, result = some outcome ∧
            Creating.finish a version (.start, t) = (.ended outcome, t')) ∨
          Failed result ∧ a' = a ∧
            Creating.finish a version (.start, t') = Creating.finish a version (.start, t))) t := by
  refine Script.within_bind (Script.within_isolate
    (Script.Within.mono (within_create hr hx a version t) ?_))
  rintro result t' (⟨outcome, rfl, hfinish⟩ | ⟨-, hfailed, hsame⟩)
  · cases outcome with
    | ok outcome => exact ⟨_, _, rfl, .inl ⟨_, rfl, hfinish⟩⟩
    | error e => exact ⟨_, _, rfl, .inl ⟨_, rfl, hfinish⟩⟩
  · rcases hfailed with rfl | ⟨e, rfl⟩
    · exact ⟨_, _, rfl, .inr ⟨.inl rfl, rfl, hsame⟩⟩
    · exact ⟨_, _, rfl, .inr ⟨.inr ⟨e, rfl⟩, rfl, hsame⟩⟩

omit hx in
/-- What comes of a create for a caller that nothing befalls. -/
theorem exists_run_createFor (a : Account) (version : Int64) :
    ∃ account : Except RegistryError Creation → Account, ∀ t, ∃ outcome t',
      let run := (r.createFor a version).run Database.handler (r.config.tables.database t)
      Creating.finish a version (.start, t) = (.ended outcome, t') ∧
        run.result = some (some outcome, account outcome) ∧
        run.state = r.config.tables.database t' := by
  refine ⟨fun | .ok outcome => { a with uuid := outcome.uuid a.uuid } | .error _ => a, fun t => ?_⟩
  obtain ⟨outcome, t', hfinish, hresult, hstate⟩ := run_create hr a version t
  obtain ⟨hisolated, hisolated'⟩ := Script.run_isolate Database.handler (r.create a version).run
    (r.config.tables.database t)
  rw [hresult] at hisolated
  rw [hstate] at hisolated'
  refine ⟨outcome, t', hfinish, ?_, ?_⟩
  · rw [createFor, Script.result_run_bind, hisolated]
    cases outcome <;> rfl
  · rw [createFor, Script.state_run_bind, hisolated, hisolated']
    cases outcome <;> rfl

/-- Creates that fail leave the caller's account, and tables from which a create comes to
    the same end. -/
theorem within_createTimes (attempts : Nat) (a : Account) (version : Int64) (t : Tables) :
    (r.createTimes version attempts a).Within (r.config.tables.behaviour x)
      (fun o t' => ∃ results a', o = some (results, a') ∧ ((∀ result ∈ results, Failed result) →
        a' = a ∧ Creating.finish a version (.start, t') = Creating.finish a version (.start, t)))
      t := by
  induction attempts generalizing a t with
  | zero => exact ⟨_, _, rfl, fun _ => ⟨rfl, rfl⟩⟩
  | succ attempts ih =>
    refine Script.within_bind (Script.Within.mono (within_createFor hr hx a version t) ?_)
    rintro _ t₁ ⟨result, a₁, rfl, hfirst⟩
    refine Script.within_bind (Script.Within.mono (ih a₁ t₁) ?_)
    rintro _ t' ⟨results, a', rfl, hrest⟩
    refine ⟨_, _, rfl, fun hfailed => ?_⟩
    obtain ⟨hfailed, hothers⟩ := List.forall_mem_cons.mp hfailed
    obtain ⟨haccount, hsame⟩ := hrest hothers
    rcases hfirst with ⟨outcome, hresult, hfinish⟩ | ⟨-, rfl, hfirst⟩
    · exact absurd hfailed (not_failed_of_finish hresult hfinish)
    · exact ⟨haccount, hsame.trans hfirst⟩

end valid

/-- A create that is tried again completes.  Whatever rows the five tables hold, and
    whatever befalls a number of creates that all fail, the caller's account is as before,
    and one more create that nothing befalls returns the same, leaves the caller the same
    account and leaves the same tables as a single create that nothing befalls. -/
theorem create_completes {config : Config} {r : Registry} (h : ofConfig config = .ok r)
    (t : Tables) (a : Account) (version : Int64) (attempts : Nat) (schedule : Schedule) :
    let x : Exposure := .genuine fun _ _ => true
    let start := config.tables.database t
    let once := (r.createFor a version).run Database.handler start
    let tried := (r.createTimes version attempts a).run (Schedule.handler x) (schedule, start)
    (∃ outcome a', once.result = some (some outcome, a') ∧ Creating.Settles a outcome) ∧
      ∃ results a', tried.result = some (results, a') ∧
        ((∀ result ∈ results, Failed result) → a' = a ∧
          let again := (r.createFor a' version).run Database.handler tried.state.2
          again.result = once.result ∧ again.state = once.state) := by
  obtain ⟨rfl, hr⟩ := name_injective_of_ofConfig h
  intro x start once tried
  obtain ⟨account, halone⟩ := exists_run_createFor hr a version
  obtain ⟨outcome, t₁, hfinish, hresult, hstate⟩ := halone t
  obtain ⟨t', htried, results, a', hresults, hsame⟩ := Script.run_of_within
    (TableNames.obeys_schedule hr x)
    (within_createTimes hr (Exposure.isGenuine_genuine _) attempts a version t)
    (show (schedule, start).2 = r.config.tables.database t from rfl)
  refine ⟨⟨outcome, _, hresult, Creating.settles_finish (congrArg Prod.fst hfinish)⟩, results, a',
    hresults, fun hfailed => ?_⟩
  obtain ⟨rfl, hsame⟩ := hsame hfailed
  obtain ⟨outcome', t₂, hfinish', hresult', hstate'⟩ := halone t'
  obtain ⟨hend, rfl⟩ := Prod.mk.inj (hfinish'.symm.trans (hsame.trans hfinish))
  obtain rfl := Creating.ended.inj hend
  have htried : tried.state.2 = r.config.tables.database t' := htried
  refine ⟨rfl, ?_, ?_⟩
  · rw [htried, hresult', ← hresult]
  · rw [htried, hstate', ← hstate]

/-- The login belongs to another account.  The first create fails when it withdraws its
    row, the second when it updates the owner. -/
theorem create_completes_default :
    let owner : Account := ⟨⟨.replicate 16 1, rfl⟩, "+1", 1, {}⟩
    let a : Account := ⟨⟨.replicate 16 2, rfl⟩, "+1", 0, {}⟩
    let t := (Tables.empty.putAccount owner).bindLogin owner.login owner.uuid
    let fault : Option Mishap := some (.failure (.unavailable ""))
    let schedule : Schedule := [none, none, fault, none, none, none, fault]
    Registry.ofConfig {} = .ok ⟨{}⟩ ∧
      let r : Registry := ⟨{}⟩
      let x : Exposure := .genuine fun _ _ => true
      let start := ({} : Config).tables.database t
      let once := (r.createFor a 7).run Database.handler start
      let tried := (r.createTimes 7 2 a).run (Schedule.handler x) (schedule, start)
      once.result.map (·.2) = some { a with uuid := owner.uuid } ∧
        ∃ results a', tried.result = some (results, a') ∧ (∀ result ∈ results, Failed result) ∧
          a' = a ∧
          let again := (r.createFor a' 7).run Database.handler tried.state.2
          again.result = once.result ∧ again.state = once.state := by
  intro owner a t fault schedule
  have hconfig : Registry.ofConfig {} = .ok ⟨{}⟩ := rfl
  have honce : (((⟨{}⟩ : Registry).createFor a 7).run Database.handler
      (({} : Config).tables.database t)).result.map (·.2) = some { a with uuid := owner.uuid } := by
    unfold t a owner
    decide +kernel
  have hall : (((⟨{}⟩ : Registry).createTimes 7 2 a).run
      (Schedule.handler (.genuine fun _ _ => true))
      (schedule, ({} : Config).tables.database t)).result.all
        (fun p => decide (∀ result ∈ p.1, Failed result)) = true := by
    unfold schedule fault t a owner
    decide +kernel
  obtain ⟨-, results, a', htried, hagain⟩ := create_completes hconfig t a 7 2 schedule
  rw [htried, Option.all_some, decide_eq_true_iff] at hall
  exact ⟨hconfig, honce, results, a', htried, hall, hagain hall⟩

end Registry

/-! ### Deletes -/

namespace Tables

variable {t t' : Tables} {u : Uuid} {version : Int64}

/-- The tables after a delete that nothing befalls, if the row of the account can be read. -/
def afterDelete (t : Tables) (u : Uuid) (version : Int64) : Tables :=
  match (t.bury u).accountRow? u with
  | none => (t.bury u).releaseRecorded u
  | some row =>
    match Row.account row with
    | .ok a => (((t.bury u).release a.login u).eraseAccount u).setVersion version
    | .error _ => t.bury u

theorem afterDelete_of_none (h : t.accountRow? u = none) :
    t.afterDelete u version = (t.bury u).releaseRecorded u := by
  have hrow : (t.bury u).accountRow? u = none := h
  rw [afterDelete, hrow]

theorem afterDelete_of_some {row : Item} {a : Account} (h : t.accountRow? u = some row)
    (ha : Row.account row = .ok a) :
    t.afterDelete u version
      = (((t.bury u).release a.login u).eraseAccount u).setVersion version := by
  have hrow : (t.bury u).accountRow? u = some row := h
  simp only [afterDelete, hrow, ha]

theorem afterDelete_of_error {row : Item} {e : RegistryError} (h : t.accountRow? u = some row)
    (he : Row.account row = .error e) : t.afterDelete u version = t.bury u := by
  have hrow : (t.bury u).accountRow? u = some row := h
  simp only [afterDelete, hrow, he]

/-- What a delete that nothing befalls returns: it fails if there is a row of the account that
    cannot be read. -/
def deletion (t : Tables) (u : Uuid) : Except RegistryError Unit :=
  match t.accountRow? u with
  | none => .ok ()
  | some row => (Row.account row).map fun _ => ()

theorem deletion_of_restorable (h : t.Restorable) : t.deletion u = .ok () := by
  unfold deletion
  split
  · rfl
  · next row hrow =>
    obtain ⟨a, ha⟩ := h u row hrow
    rw [ha]
    rfl

/-- An account that has its tombstone may be buried again. -/
theorem bury_of_tombstones (h : t .tombstones = (t'.bury u) .tombstones) : t.bury u = t := by
  funext i
  by_cases hi : i = .tombstones
  · rw [hi, bury, set_self, h]
    exact SortedMap.insert_of_get? _ (by rw [bury, set_self, SortedMap.get?_insert_self])
  · exact set_ne t hi _

/-- A login that is not the account's stays. -/
theorem release_of_ne {login : String} (h : t.owner? login ≠ some u) : t.release login u = t :=
  if_neg h

theorem release_release {login : String} :
    (t.release login u).release login u = t.release login u := by
  refine release_of_ne fun h => ?_
  rw [owner?_release] at h
  split at h
  · cases h
  · next hne => exact hne ⟨rfl, h⟩

/-- Deleting an account once more, after its delete was cut off, leaves the same tables.
    Only the version is not stored if the row is gone already. -/
theorem afterDelete_of_removeStage (version : Int64) (hagree : t.Agree)
    (hstage : (t.bury u).RemoveStage u t') :
    (t'.accountRow? u ≠ none ∨ t.accountRow? u = none →
      t'.afterDelete u version = t.afterDelete u version) ∧
    (t.accountRow? u ≠ none → t'.accountRow? u = none →
      t'.afterDelete u version = t' ∧ t.afterDelete u version = t'.setVersion version ∧
        t' .misc = t .misc) := by
  have hbury : t'.bury u = t' := bury_of_tombstones hstage.tombstones_eq
  cases hstage with
  | start =>
    have hsame : (t.bury u).afterDelete u version = t.afterDelete u version := by
      rw [afterDelete, hbury]
      rfl
    exact ⟨fun _ => hsame, fun hsome hnone => absurd hnone hsome⟩
  | @released row a hrow ha =>
    have hrow' : ((t.bury u).release a.login u).accountRow? u = some row :=
      (accountRow?_congr (release_ne (by decide)) u).trans hrow
    have hsame : ((t.bury u).release a.login u).afterDelete u version = t.afterDelete u version := by
      rw [afterDelete_of_some hrow' ha, hbury, release_release]
      exact (afterDelete_of_some (t := t) hrow ha).symm
    exact ⟨fun _ => hsame, fun _ hnone => absurd (hrow'.symm.trans hnone) (Option.some_ne_none row)⟩
  | @removed row a hrow ha =>
    have hgone : (((t.bury u).release a.login u).eraseAccount u).accountRow? u = none :=
      accountRow?_eraseAccount.trans (if_pos rfl)
    refine ⟨fun h => ?_, fun _ _ => ⟨?_, afterDelete_of_some hrow ha, ?_⟩⟩
    · rcases h with h | h
      · exact absurd hgone h
      · exact absurd (hrow.symm.trans h) (Option.some_ne_none row)
    · -- The only login of the account was that of its row, so a recorded login is not its.
      rw [afterDelete_of_none hgone, hbury, Tables.releaseRecorded]
      split
      · next login _ =>
        refine release_of_ne fun howner => ?_
        change ((t.bury u).release a.login u).owner? login = some u at howner
        rw [owner?_release] at howner
        split at howner
        · cases howner
        · next hne =>
          obtain ⟨row', hrow', hlogin⟩ := (hagree login u).mp howner
          obtain rfl := Option.some.inj (hrow'.symm.trans hrow)
          obtain rfl := Option.some.inj (hlogin.symm.trans (Row.login?_of_account ha))
          exact hne ⟨rfl, howner⟩
      · rfl
    · exact (release_ne (i := .misc) (by decide)).trans rfl

end Tables

namespace Registry

variable {r : Registry} {x : Exposure} {t : Tables} {u : Uuid} {version : Int64}

section valid

variable (hr : Function.Injective r.config.tables.name) (hx : x.IsGenuine)

include hr hx

/-- A delete is done, or a spoiled request cuts it off at a stage. -/
theorem within_delete (hrestorable : t.Restorable) (u : Uuid) (version : Int64) :
    (r.delete u version).run.Within (r.config.tables.behaviour x)
      (fun o t' => o = some (.ok ()) ∧ t' = t.afterDelete u version ∨
        (∃ request m, x request m = true) ∧ Failed o ∧ (t' = t ∨ (t.bury u).RemoveStage u t')) t := by
  have hfailed : ∀ {m : Mishap} {o : Option RegistryError}, m.Brings o →
      Failed (o.map (Except.error (α := Unit))) := by
    intro m o ho
    cases ho with
    | failure e => exact .inr ⟨e, rfl⟩
    | panic => exact .inl rfl
  have hdelete : (r.delete u version).Within (r.config.tables.behaviour x) t
      (fun _ t' => t' = t.afterDelete u version) fun o t' => (∃ request m, x request m = true) ∧
        Failed (o.map (Except.error (α := Unit))) ∧ (t' = t ∨ (t.bury u).RemoveStage u t') := by
    have hstart : t.bury u = if (DeleteOptions.steady version).tombstone then t.bury u else t := rfl
    refine within_deleteWith hr hx hstart ?_ ?_ ?_ ?_ ?_
    · exact fun hnone => (Tables.afterDelete_of_none (t := t) hnone).symm
    · exact fun row a hrow ha => (Tables.afterDelete_of_some (t := t) hrow ha).symm
    · intro row e hrow he
      obtain ⟨a, ha⟩ := hrestorable u row hrow
      rw [ha] at he
      cases he
    · exact fun request m o hm ho => ⟨⟨request, m, hm⟩, hfailed ho, .inl rfl⟩
    · exact fun request m o hm ho t' ht' => ⟨⟨request, m, hm⟩, hfailed ho, .inr ht'⟩
  refine Script.Within.mono hdelete fun o t' ht' => ?_
  match o with
  | some (.ok ()) => exact .inl ⟨rfl, ht'⟩
  | some (.error e) => exact .inr ht'
  | none => exact .inr ht'

omit hx in
/-- An action that comes to the same end whenever nothing befalls it runs to that end. -/
theorem run_of_ends {action : Action α} {result : Except RegistryError α} {t' : Tables}
    (h : action.Within (r.config.tables.behaviour .calm) t
      (fun v t'' => result = .ok v ∧ t'' = t')
      fun o t'' => ∃ e, o = some e ∧ result = .error e ∧ t'' = t') :
    (action.run.run Database.handler (r.config.tables.database t)).result = some result ∧
      (action.run.run Database.handler (r.config.tables.database t)).state
        = r.config.tables.database t' := by
  obtain ⟨t'', hstate, hpost⟩ := Script.run_of_within (TableNames.obeys_database hr .calm) h rfl
  rw [hstate]
  split at hpost
  · next hresult =>
    obtain ⟨hdone, rfl⟩ := hpost
    rw [hresult, hdone]
    exact ⟨rfl, rfl⟩
  · next hresult =>
    obtain ⟨_, heq, hfailed, rfl⟩ := hpost
    obtain rfl := Option.some.inj heq
    rw [hresult, hfailed]
    exact ⟨rfl, rfl⟩
  · obtain ⟨_, heq, -⟩ := hpost
    cases heq

omit hx in
/-- A delete that nothing befalls, whatever rows there are. -/
theorem run_deletion (u : Uuid) (version : Int64) (t : Tables) :
    ((r.delete u version).run.run Database.handler (r.config.tables.database t)).result
        = some (t.deletion u) ∧
      ((r.delete u version).run.run Database.handler (r.config.tables.database t)).state
        = r.config.tables.database (t.afterDelete u version) := by
  have hstart : t.bury u = if (DeleteOptions.steady version).tombstone then t.bury u else t := rfl
  have hdelete : (r.delete u version).Within (r.config.tables.behaviour .calm) t
      (fun _ t' => t.deletion u = .ok () ∧ t' = t.afterDelete u version)
      fun o t' => ∃ e, o = some e ∧ t.deletion u = .error e ∧ t' = t.afterDelete u version := by
    unfold Tables.deletion
    apply within_deleteWith hr (Exposure.isGenuine_genuine _) hstart
    · intro hnone
      have hnone : t.accountRow? u = none := hnone
      rw [hnone]
      exact ⟨rfl, (Tables.afterDelete_of_none hnone).symm⟩
    · intro row a hrow ha
      have hrow : t.accountRow? u = some row := hrow
      simp only [hrow, ha]
      exact ⟨rfl, (Tables.afterDelete_of_some hrow ha).symm⟩
    · intro row e hrow he
      have hrow : t.accountRow? u = some row := hrow
      simp only [hrow, he]
      exact ⟨e, rfl, rfl, (Tables.afterDelete_of_error hrow he).symm⟩
    · exact fun _ _ _ hm _ => (Exposure.not_calm hm).elim
    · exact fun _ _ _ hm _ _ _ => (Exposure.not_calm hm).elim
  exact run_of_ends hr hdelete

omit hx in
/-- A delete that nothing befalls is done. -/
theorem run_delete (hrestorable : t.Restorable) (u : Uuid) (version : Int64) :
    ((r.delete u version).run.run Database.handler (r.config.tables.database t)).result
        = some (.ok ()) ∧
      ((r.delete u version).run.run Database.handler (r.config.tables.database t)).state
        = r.config.tables.database (t.afterDelete u version) := by
  have hrun := run_deletion hr u version t
  rwa [Tables.deletion_of_restorable hrestorable] at hrun

end valid

/-- The rows that a delete leaves when it is cut off are those from before. -/
theorem restorable_of_removeStage {t' : Tables} (h : t.Restorable)
    (hstage : (t.bury u).RemoveStage u t') : t'.Restorable := by
  have hreleased : ∀ login, ((t.bury u).release login u).Restorable :=
    fun _ => h.congr (Tables.release_ne nofun)
  cases hstage with
  | start => exact h
  | released => exact hreleased _
  | removed => exact (hreleased _).eraseAccount u

/-- A delete that is tried again completes, but for the version.  Start from any tables
    whose accounts and logins agree and whose account rows can be read.  Whatever befalls a
    delete that fails, one more that nothing befalls succeeds and leaves the same tables as
    a single delete that nothing befalls.  Only if the failed delete came as far as to
    remove the row, the version is never stored: the other four tables are the same, and
    the parameters are those from before. -/
theorem delete_completes {config : Config} {r : Registry} (h : ofConfig config = .ok r)
    {t : Tables} (hagree : t.Agree) (hrestorable : t.Restorable) (u : Uuid) (version : Int64)
    (schedule : Schedule) :
    let x : Exposure := .genuine fun _ _ => true
    let start := config.tables.database t
    let tried := (r.delete u version).run.run (Schedule.handler x) (schedule, start)
    let once := (r.delete u version).run.run Database.handler start
    let again := (r.delete u version).run.run Database.handler tried.state.2
    Failed tried.result →
      ∃ t₁ t₂ t₃,
        tried.state.2 = config.tables.database t₁ ∧
        once.result = some (.ok ()) ∧ once.state = config.tables.database t₂ ∧
        again.result = some (.ok ()) ∧ again.state = config.tables.database t₃ ∧
        (∀ i, i ≠ .misc → t₃ i = t₂ i) ∧
        (t₁.accountRow? u ≠ none ∨ t.accountRow? u = none → t₃ = t₂) ∧
        (t.accountRow? u ≠ none → t₁.accountRow? u = none → t₃ .misc = t .misc) := by
  obtain ⟨rfl, -, -⟩ := validate_of_ofConfig h
  obtain ⟨-, hr⟩ := name_injective_of_ofConfig h
  intro x start tried once again hfailed
  obtain ⟨t₁, htried, hpost⟩ := Script.run_of_within (TableNames.obeys_schedule hr x)
    (within_delete hr (Exposure.isGenuine_genuine _) hrestorable u version)
    (x := (schedule, start)) rfl
  -- The failed delete was cut off, before its tombstone or after it.
  have hstage : t₁ = t ∨ (t.bury u).RemoveStage u t₁ := by
    rcases hpost with ⟨hresult, -⟩ | ⟨-, -, hstage⟩
    · have hresult : tried.result = some (.ok ()) := hresult
      rw [hresult] at hfailed
      exact hfailed.elim nofun nofun
    · exact hstage
  have hrestorable₁ : t₁.Restorable := by
    rcases hstage with rfl | hstage
    · exact hrestorable
    · exact restorable_of_removeStage hrestorable hstage
  have honce := run_delete hr hrestorable u version
  have hagain := run_delete hr hrestorable₁ u version
  rw [← htried] at hagain
  refine ⟨t₁, _, _, htried, honce.1, honce.2, hagain.1, hagain.2, ?_⟩
  rcases hstage with rfl | hstage
  · exact ⟨fun _ _ => rfl, fun _ => rfl, fun hsome hnone => absurd hnone hsome⟩
  obtain ⟨hsame, hlost⟩ := Tables.afterDelete_of_removeStage version hagree hstage
  refine ⟨fun i hi => ?_, hsame, fun hsome hnone => ?_⟩
  · by_cases hrows : t₁.accountRow? u ≠ none ∨ t.accountRow? u = none
    · rw [hsame hrows]
    · obtain ⟨hnone, hsome⟩ := not_or.mp hrows
      obtain ⟨hafter, hclean, -⟩ := hlost hsome (not_not.mp hnone)
      rw [hafter, hclean]
      exact (Tables.set_ne _ hi _).symm
  · obtain ⟨hafter, -, hmisc⟩ := hlost hsome hnone
    rw [hafter, hmisc]

/-- A delete that fails when it removes the row. -/
theorem delete_completes_default :
    let a : Account := ⟨⟨.replicate 16 1, rfl⟩, "+1", 1, {}⟩
    let t := Tables.empty.register a
    let schedule : Schedule := [none, none, none, some (.failure (.unavailable ""))]
    Registry.ofConfig {} = .ok ⟨{}⟩ ∧ t.Agree ∧ t.Restorable ∧
      let r : Registry := ⟨{}⟩
      let x : Exposure := .genuine fun _ _ => true
      let start := ({} : Config).tables.database t
      let tried := (r.delete a.uuid 7).run.run (Schedule.handler x) (schedule, start)
      let once := (r.delete a.uuid 7).run.run Database.handler start
      let again := (r.delete a.uuid 7).run.run Database.handler tried.state.2
      Failed tried.result ∧
        ∃ t₁ t₂ t₃,
          tried.state.2 = ({} : Config).tables.database t₁ ∧
          once.result = some (.ok ()) ∧ once.state = ({} : Config).tables.database t₂ ∧
          again.result = some (.ok ()) ∧ again.state = ({} : Config).tables.database t₃ ∧
          (∀ i, i ≠ .misc → t₃ i = t₂ i) ∧
          (t₁.accountRow? a.uuid ≠ none ∨ t.accountRow? a.uuid = none → t₃ = t₂) ∧
          (t.accountRow? a.uuid ≠ none → t₁.accountRow? a.uuid = none → t₃ .misc = t .misc) := by
  intro a t schedule
  have hconfig : Registry.ofConfig {} = .ok ⟨{}⟩ := rfl
  have hagree : t.Agree := Tables.agree_empty.register rfl rfl
  have hrestorable : t.Restorable := Tables.restorable_empty.register a
  have hfailed : Failed (((⟨{}⟩ : Registry).delete a.uuid 7).run.run
      (Schedule.handler (.genuine fun _ _ => true))
      (schedule, ({} : Config).tables.database t)).result := by
    unfold schedule t a
    decide +kernel
  exact ⟨hconfig, hagree, hrestorable, hfailed,
    delete_completes hconfig hagree hrestorable a.uuid 7 schedule hfailed⟩

/-- A delete that fails when it stores the version: the account is gone, so the next delete
    takes it for absent and succeeds, and the version is never stored. -/
theorem delete_loses_version :
    let a : Account := ⟨⟨.replicate 16 1, rfl⟩, "+1", 1, {}⟩
    let t := Tables.empty.register a
    let schedule : Schedule := [none, none, none, none, some (.failure (.unavailable ""))]
    t.Agree ∧ t.Restorable ∧
      let r : Registry := ⟨{}⟩
      let x : Exposure := .genuine fun _ _ => true
      let start := ({} : Config).tables.database t
      let tried := (r.delete a.uuid 7).run.run (Schedule.handler x) (schedule, start)
      let once := (r.delete a.uuid 7).run.run Database.handler start
      let again := (r.delete a.uuid 7).run.run Database.handler tried.state.2
      Failed tried.result ∧ again.result.any (·.isOk) = true ∧
        once.state.items "misc" = [Row.ofVersion 7] ∧ again.state.items "misc" = [] := by
  intro a t schedule
  refine ⟨Tables.agree_empty.register rfl rfl, Tables.restorable_empty.register a, ?_⟩
  unfold schedule t a
  decide +kernel

end Registry

end LoginRegistry
