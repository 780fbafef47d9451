import LoginRegistry.Proofs.Registry.Writing

/-! # A create, stage by stage

    A create makes up to four requests, and what it does next depends on nothing but the
    answers so far.  `Creating` says how far it has come, `Creating.step` what its next
    request does to the tables, and `Creating.next` that the script of each stage does
    just that, whatever rows the tables hold, unless its request is spoiled.

    What is proved of creates that fail or race is proved of stages.
-/

namespace LoginRegistry

open Store (Item)

/-! ### Stages -/

/-- How far a create has come. -/
inductive Creating where
  /-- Nothing is written. -/
  | start
  /-- The row is written. -/
  | stored
  /-- The login is bound too; the version is to be stored. -/
  | bound
  /-- The login belongs to another account; the row is to be withdrawn. -/
  | lost (owner : Uuid)
  /-- The row is withdrawn; the owner is to be updated. -/
  | withdrawn (owner : Uuid)
  /-- It has ended. -/
  | ended (result : Except RegistryError Creation)

namespace Creating

/-- What the row of a login that is not granted makes of a create. -/
def refused (login : String) : Option Item → Creating
  | none => .ended (.error (.loginOwnerMissing login))
  | some row =>
    match Row.uuid row with
    | .ok owner => .lost owner
    | .error e => .ended (.error e)

/-- What the next request of a create does. -/
def step (a : Account) (version : Int64) : Creating → Tables → Creating × Tables
  | .start, t =>
    if t.admits a then (.stored, t.putAccount a)
    else (.ended (.error (.identifierCollision a.uuid)), t)
  | .stored, t =>
    if t.grants a.login a.uuid then (.bound, t.bindLogin a.login a.uuid)
    else (refused a.login (t.loginRow? a.login), t)
  | .bound, t => (.ended (.ok .created), t.setVersion version)
  | .lost owner, t => (.withdrawn owner, t.withdraw a.uuid a.login)
  | .withdrawn owner, t =>
    if t.hasLogin owner then (.ended (.ok (.updatedOwner owner)), t.reviseAccount owner a)
    else (.ended (.error (.loginOwnerMissing a.login)), t)
  | .ended result, t => (.ended result, t)

section step

variable {a : Account} {version : Int64} {t : Tables}

theorem step_start_of_admits (h : t.admits a = true) :
    start.step a version t = (.stored, t.putAccount a) := if_pos h

theorem step_start_of_not_admits (h : t.admits a = false) :
    start.step a version t = (.ended (.error (.identifierCollision a.uuid)), t) :=
  if_neg (Bool.eq_false_iff.mp h)

theorem step_stored_of_grants (h : t.grants a.login a.uuid = true) :
    stored.step a version t = (.bound, t.bindLogin a.login a.uuid) := if_pos h

theorem step_stored_of_not_grants (h : t.grants a.login a.uuid = false) :
    stored.step a version t = (refused a.login (t.loginRow? a.login), t) :=
  if_neg (Bool.eq_false_iff.mp h)

theorem step_withdrawn_of_hasLogin {owner : Uuid} (h : t.hasLogin owner = true) :
    (withdrawn owner).step a version t
      = (.ended (.ok (.updatedOwner owner)), t.reviseAccount owner a) := if_pos h

theorem step_withdrawn_of_not_hasLogin {owner : Uuid} (h : t.hasLogin owner = false) :
    (withdrawn owner).step a version t = (.ended (.error (.loginOwnerMissing a.login)), t) :=
  if_neg (Bool.eq_false_iff.mp h)

end step

/-- How a create has ended, if it has. -/
def result? : Creating → Option (Except RegistryError Creation)
  | .ended result => some result
  | _ => none

theorem result?_eq_some_iff {stage : Creating} {result : Except RegistryError Creation} :
    stage.result? = some result ↔ stage = .ended result := by
  cases stage with
  | ended result' => rw [result?, Option.some.injEq, ended.injEq]
  | start | stored | bound | lost | withdrawn => exact ⟨nofun, nofun⟩

/-- The requests that a create has made at least to come to a stage; none are made after
    the end. -/
def depth : Creating → Nat
  | .start => 0
  | .stored => 1
  | .bound => 2
  | .lost _ => 2
  | .withdrawn _ => 3
  | .ended _ => 4

/-- A login that is not granted is another's, or it cannot be told whose. -/
theorem refused_cases (login : String) (row? : Option Item) :
    (∃ row owner, row? = some row ∧ Row.uuid row = .ok owner ∧
      refused login row? = .lost owner) ∨
    (row? = none ∧ refused login row? = .ended (.error (.loginOwnerMissing login))) ∨
    ∃ row e, row? = some row ∧ Row.uuid row = .error e ∧
      refused login row? = .ended (.error e) := by
  cases row? with
  | none => exact .inr (.inl ⟨rfl, rfl⟩)
  | some row =>
    cases h : Row.uuid row with
    | ok owner => exact .inl ⟨row, owner, rfl, h, by rw [refused, h]⟩
    | error e => exact .inr (.inr ⟨row, e, rfl, h, by rw [refused, h]⟩)

theorem two_le_depth_refused (login : String) (row? : Option Item) :
    2 ≤ (refused login row?).depth := by
  rcases refused_cases login row? with ⟨_, _, -, -, h⟩ | ⟨-, h⟩ | ⟨_, _, -, -, h⟩
  · rw [h]
    exact Nat.le_refl 2
  · rw [h]
    exact Nat.le_add_left 2 2
  · rw [h]
    exact Nat.le_add_left 2 2

/-- Every request brings a create closer to its end. -/
theorem min_le_depth_step (stage : Creating) (a : Account) (version : Int64) (t : Tables) :
    min 4 (stage.depth + 1) ≤ (stage.step a version t).1.depth := by
  cases stage with
  | ended result => exact Nat.min_le_left 4 5
  | start =>
    cases h : t.admits a with
    | true => simp only [step_start_of_admits h, depth]; omega
    | false => simp only [step_start_of_not_admits h, depth]; omega
  | stored =>
    cases h : t.grants a.login a.uuid with
    | true => simp only [step_stored_of_grants h, depth]; omega
    | false =>
      rw [step_stored_of_not_grants h]
      exact two_le_depth_refused _ _
  | bound => simp only [step, depth]; omega
  | lost owner => exact Nat.min_le_right 4 3
  | withdrawn owner =>
    cases h : t.hasLogin owner with
    | true => simp only [step_withdrawn_of_hasLogin h, depth]; omega
    | false => simp only [step_withdrawn_of_not_hasLogin h, depth]; omega

/-- No stage is as deep as the end. -/
theorem exists_of_depth {stage : Creating} (h : 4 ≤ stage.depth) :
    ∃ result, stage = .ended result := by
  cases stage with
  | ended result => exact ⟨result, rfl⟩
  | start | stored | bound | lost | withdrawn => simp only [depth] at h; omega

end Creating

/-! ### Scripts of stages -/

namespace Registry

/-- What a create does with the outcome of its claim. -/
def resolveClaim (r : Registry) (a : Account) (version : Int64) : Claim → Action Creation
  | .claimed => do
    r.counter.set version
    return .created
  | .owned owner => do
    let _ ← r.accounts.deleteIfLogin a.uuid a.login
    r.updateOwner a owner
    return .updatedOwner owner

/-- What is left of a create at a stage. -/
def restOfCreate (r : Registry) (a : Account) (version : Int64) : Creating → Action Creation
  | .start => do
    r.accounts.create a
    let claim ← r.logins.claim a.login a.uuid
    r.resolveClaim a version claim
  | .stored => do
    let claim ← r.logins.claim a.login a.uuid
    r.resolveClaim a version claim
  | .bound => r.resolveClaim a version .claimed
  | .lost owner => r.resolveClaim a version (.owned owner)
  | .withdrawn owner => do
    r.updateOwner a owner
    return .updatedOwner owner
  | .ended result => ExceptT.mk (pure result)

/-- The script of a create at a stage. -/
def createScript (r : Registry) (a : Account) (version : Int64) (stage : Creating) :
    Script (Except RegistryError Creation) :=
  (Action.timed .create (r.restOfCreate a version stage)).run

theorem create_eq (r : Registry) (a : Account) (version : Int64) :
    (r.create a version).run = r.createScript a version .start := rfl

variable {r : Registry} {x : Exposure} {a : Account} {version : Int64} {t : Tables}

/-- The script of a stage has ended if the stage has, and alike. -/
theorem ended?_createScript (stage : Creating) :
    (r.createScript a version stage).ended? = stage.result?.map some := by
  cases stage with
  | ended result => rfl
  | start => rfl
  | stored => rfl
  | bound => rfl
  | lost owner => rfl
  | withdrawn owner => rfl

/-- A create that its next request spoils: it fails, and the tables stay. -/
def SpoiledCreate (x : Exposure) (t : Tables) (s : Script (Except RegistryError Creation))
    (t' : Tables) : Prop :=
  t' = t ∧ ∃ request m o, x request m = true ∧ m.Brings o ∧
    s = (Action.timed .create (Action.failing o)).run

section valid

variable (hr : Function.Injective r.config.tables.name) (hx : x.IsGenuine)

include hr hx

/-- The next request of a create takes it to the next stage, or it is spoiled. -/
theorem next_createScript {stage : Creating} (hstage : ∀ result, stage ≠ .ended result) :
    (r.createScript a version stage).Next (r.config.tables.behaviour x)
      (fun s t' => s = r.createScript a version (stage.step a version t).1 ∧
          t' = (stage.step a version t).2 ∨
        SpoiledCreate x t s t') t := by
  refine Action.next_timed ?_
  have hspoiled : ∀ request m o, x request m = true → m.Brings o →
      SpoiledCreate x t (Action.timed .create (Action.failing o)).run t :=
    fun request m o hm ho => ⟨rfl, request, m, o, hm, ho, rfl⟩
  cases stage with
  | ended result => exact absurd rfl (hstage result)
  | start =>
    refine Action.next_bind (once_accounts_create hr hx ?_ ?_ ?_)
    · intro h
      rw [Creating.step_start_of_admits h]
      exact .inl ⟨rfl, rfl⟩
    · intro h
      rw [Creating.step_start_of_not_admits h]
      exact .inl ⟨rfl, rfl⟩
    · exact fun request m o hm ho => .inr (hspoiled request m o hm ho)
  | stored =>
    refine Action.next_bind (once_logins_claim hr hx ?_ ?_ ?_ ?_)
    · intro h
      rw [Creating.step_stored_of_grants h]
      exact .inl ⟨rfl, rfl⟩
    · intro h row v hrow hv
      rw [Creating.step_stored_of_not_grants h, hrow, Creating.refused, hv]
      exact .inl ⟨rfl, rfl⟩
    · intro h row e hrow he
      rw [Creating.step_stored_of_not_grants h, hrow, Creating.refused, he]
      exact .inl ⟨rfl, rfl⟩
    · exact fun request m o hm ho => .inr (hspoiled request m o hm ho)
  | bound =>
    refine Action.next_bind (Action.once_of_within
      (Action.single_ofStore (Script.single_send _)) (within_counter_set hr ?_ ?_))
    · exact .inl ⟨rfl, rfl⟩
    · exact fun request m o hm ho => .inr (hspoiled request m o hm ho)
  | lost owner =>
    refine Action.next_bind (once_accounts_deleteIfLogin hr hx ?_ ?_)
    · exact fun removed => .inl ⟨rfl, rfl⟩
    · exact fun request m o hm ho => .inr (hspoiled request m o hm ho)
  | withdrawn owner =>
    refine Action.next_bind (once_updateOwner hr hx ?_ ?_ ?_)
    · intro h
      rw [Creating.step_withdrawn_of_hasLogin h]
      exact .inl ⟨rfl, rfl⟩
    · intro h
      rw [Creating.step_withdrawn_of_not_hasLogin h]
      exact .inl ⟨rfl, rfl⟩
    · exact fun request m o hm ho => .inr (hspoiled request m o hm ho)

omit hx in
/-- If nothing befalls its requests, a create takes one step after the other. -/
theorem follows_createScript (a : Account) (version : Int64) :
    Race.Follows (r.config.tables.behaviour .calm) (r.createScript a version)
      (Creating.step a version) := by
  intro stage t
  by_cases hstage : ∃ result, stage = .ended result
  · obtain ⟨result, rfl⟩ := hstage
    exact .inl ⟨nofun, rfl⟩
  · refine .inr (Script.Next.mono (next_createScript hr (x := .calm)
      (Exposure.isGenuine_genuine _) fun result h => hstage ⟨result, h⟩) ?_)
    rintro s t' (hs | ⟨-, request, m, o, hm, -⟩)
    · exact hs
    · exact (Exposure.not_calm hm).elim

end valid

end Registry

end LoginRegistry
