import LoginRegistry.Proofs.Registry.Creating
import Mathlib.Data.Fin.VecNotation

/-! # Creates that race

    Any number of creates take turns, request by request.  Nobody holds a lock, and the
    row of a create that is about to lose its login stands beside that of the winner.
    What keeps them apart is what each turn guarantees to the others (`Guarantees`): a
    login that has an owner keeps it, and no row but the own gets another login.  What a
    create knows at its stage (`Creating.Knows`) is stable under that, and `Contending`
    holds at all times.

    * `racing_creates_settle`: each create ends as one of the winners, as an update of a
      winner, or with a collision, and in the end accounts and logins agree again.
-/

namespace LoginRegistry

open Store (AttributeValue Database)

/-! ### What a create knows -/

/-- How a create of a race may end, with the tables `t₀` before the race and `t` since. -/
inductive Creating.Outcome (t₀ t : Tables) (a : Account) : Except RegistryError Creation → Prop where
  /-- It has its login. -/
  | created : t₀.admits a = true → t.owner? a.login = some a.uuid → Outcome t₀ t a (.ok .created)
  /-- Another account has its login and is updated. -/
  | updatedOwner {owner : Uuid} : t₀.admits a = true → t.owner? a.login = some owner →
    owner ≠ a.uuid → Outcome t₀ t a (.ok (.updatedOwner owner))
  /-- Its id had another login before the race. -/
  | collision : t₀.admits a = false → Outcome t₀ t a (.error (.identifierCollision a.uuid))

namespace Creating

/-- What a create knows at its stage. -/
def Knows (t₀ : Tables) (a : Account) : Creating → Tables → Prop
  | .start, t => t.loginOf? a.uuid = t₀.loginOf? a.uuid
  | .stored, t => t₀.admits a = true ∧ t.loginOf? a.uuid = some (some (.string a.login))
  | .bound, t => t₀.admits a = true ∧ t.owner? a.login = some a.uuid
  | .lost owner, t => t₀.admits a = true ∧ t.loginOf? a.uuid = some (some (.string a.login)) ∧
      t.owner? a.login = some owner ∧ owner ≠ a.uuid
  | .withdrawn owner, t => t₀.admits a = true ∧ t.owner? a.login = some owner ∧ owner ≠ a.uuid
  | .ended result, t => Outcome t₀ t a result

/-- The create has bound its login. -/
def HasBound : Creating → Prop
  | .bound => True
  | .ended (.ok .created) => True
  | _ => False

/-- The row of the create may be without its login. -/
def Provisional : Creating → Prop
  | .stored => True
  | .lost _ => True
  | _ => False

/-- What a turn of a create guarantees to the others. -/
structure Guarantees (a : Account) (t t' : Tables) : Prop where
  /-- A login keeps its owner. -/
  owners : ∀ l u, t.owner? l = some u → t'.owner? l = some u
  /-- Rows of other accounts keep their login. -/
  rows : ∀ u, u ≠ a.uuid → t'.loginOf? u = t.loginOf? u

variable {t₀ t t' : Tables} {a b : Account}

theorem Outcome.of_guarantees {result : Except RegistryError Creation} (h : Outcome t₀ t a result)
    (hturn : Guarantees b t t') : Outcome t₀ t' a result := by
  cases h with
  | created hadmits howner => exact .created hadmits (hturn.owners _ _ howner)
  | updatedOwner hadmits howner hne => exact .updatedOwner hadmits (hturn.owners _ _ howner) hne
  | collision hadmits => exact .collision hadmits

/-- A login that has an owner is refused on behalf of it. -/
theorem refused_of_owner? {owner : Uuid} (h : t.owner? a.login = some owner) :
    refused a.login (t.loginRow? a.login) = .lost owner := by
  obtain ⟨row, hrow, huuid⟩ := Option.bind_eq_some_iff.mp h
  cases hread : Row.uuid row with
  | error e =>
    rw [hread] at huuid
    cases huuid
  | ok v =>
    rw [hread] at huuid
    obtain rfl := Option.some.inj huuid
    rw [hrow, refused, hread]

/-- What a create knows is stable under the turns of creates with other ids. -/
theorem Knows.of_guarantees {stage : Creating} (h : Knows t₀ a stage t) (hturn : Guarantees b t t')
    (hne : a.uuid ≠ b.uuid) : Knows t₀ a stage t' := by
  have hrow := hturn.rows a.uuid hne
  cases stage with
  | start => exact hrow.trans h
  | stored => exact ⟨h.1, hrow.trans h.2⟩
  | bound => exact ⟨h.1, hturn.owners _ _ h.2⟩
  | lost owner => exact ⟨h.1, hrow.trans h.2.1, hturn.owners _ _ h.2.2.1, h.2.2.2⟩
  | withdrawn owner => exact ⟨h.1, hturn.owners _ _ h.2.1, h.2.2⟩
  | ended result => exact Outcome.of_guarantees h hturn

end Creating

/-! ### The invariant -/

variable {ι : Type}

/-- What holds at all times while creates race: the accounts they create, the tables `t₀`
    before the race, the stages they have come to and the tables since. -/
structure Contending (a : ι → Account) (t₀ : Tables) (stages : ι → Creating) (t : Tables) :
    Prop where
  /-- Account rows hold their key. -/
  accountsKeyed : t.KeyedAt .accounts
  /-- Login rows hold their key. -/
  loginsKeyed : t.KeyedAt .logins
  /-- Login rows tell their owner. -/
  named : t.Named
  /-- A login that had an owner has it still. -/
  kept : ∀ l u, t₀.owner? l = some u → t.owner? l = some u
  /-- A login that had none may have been bound by a create. -/
  new : ∀ l u, t.owner? l = some u → t₀.owner? l = some u ∨
    ∃ i, (a i).login = l ∧ (a i).uuid = u ∧ (stages i).HasBound
  /-- The owner of a login has a row with it. -/
  backed : ∀ l u, t.owner? l = some u → t.loginOf? u = some (some (.string l))
  /-- A row without its login is that of a create on its way. -/
  provisional : ∀ l u, t.loginOf? u = some (some (.string l)) → t.owner? l = some u ∨
    ∃ i, (a i).login = l ∧ (a i).uuid = u ∧ (stages i).Provisional
  /-- The creates know what their stages say. -/
  knows : ∀ i, (stages i).Knows t₀ (a i) t

namespace Contending

open Creating

variable {a : ι → Account} {t₀ t t' : Tables} {stages : ι → Creating} {version : ι → Int64}

/-- Before the race. -/
theorem start (haccounts : t.KeyedAt .accounts) (hlogins : t.KeyedAt .logins) (hnamed : t.Named)
    (hagree : t.Agree) : Contending a t (fun _ => .start) t where
  accountsKeyed := haccounts
  loginsKeyed := hlogins
  named := hnamed
  kept _ _ h := h
  new _ _ h := .inl h
  backed l u h := Tables.loginOf?_eq_some_iff.mpr ((hagree l u).mp h)
  provisional l u h := .inl ((hagree l u).mpr (Tables.loginOf?_eq_some_iff.mp h))
  knows _ := rfl

/-- What a create at a stage knows. -/
theorem knows_at (h : Contending a t₀ stages t) {i : ι} {stage : Creating}
    (hstage : stages i = stage) : stage.Knows t₀ (a i) t := hstage ▸ h.knows i

/-- The row of an owner is one with a login. -/
theorem hasLogin (h : Contending a t₀ stages t) {l : String} {u : Uuid}
    (howner : t.owner? l = some u) : t.hasLogin u = true := by
  obtain ⟨row, hrow, hlogin⟩ := Tables.loginOf?_eq_some_iff.mp (h.backed l u howner)
  exact Tables.hasLogin_of_login hrow (Row.login?_eq_some_iff.mp hlogin)

/-- An id has one row, so it owns one login. -/
theorem login_eq (h : Contending a t₀ stages t) {l l' : String} {u : Uuid}
    (howner : t.owner? l = some u) (hrow : t.loginOf? u = some (some (.string l'))) : l = l' := by
  have hbacked := (h.backed l u howner).symm.trans hrow
  exact AttributeValue.string.inj (Option.some.inj (Option.some.inj hbacked))

variable [DecidableEq ι]

/-- A turn of one create keeps the invariant if it guarantees to the others what they need,
    binds no login but its own, and accounts for its own row. -/
theorem move (h : Contending a t₀ stages t) (ha : Function.Injective fun i => (a i).uuid) {i : ι}
    {stage : Creating} (haccounts : t'.KeyedAt .accounts) (hlogins : t'.KeyedAt .logins)
    (hnamed : t'.Named) (hturn : Guarantees (a i) t t')
    (hbound : (stages i).HasBound → stage.HasBound)
    (hnew : ∀ l u, t'.owner? l = some u → t.owner? l = some u ∨
      (a i).login = l ∧ (a i).uuid = u ∧ stage.HasBound)
    (hbacked : ∀ l, t'.owner? l = some (a i).uuid →
      t'.loginOf? (a i).uuid = some (some (.string l)))
    (hprovisional : ∀ l, t'.loginOf? (a i).uuid = some (some (.string l)) →
      t'.owner? l = some (a i).uuid ∨ (a i).login = l ∧ stage.Provisional)
    (hknows : stage.Knows t₀ (a i) t') :
    Contending a t₀ (Function.update stages i stage) t' where
  accountsKeyed := haccounts
  loginsKeyed := hlogins
  named := hnamed
  kept l u howner := hturn.owners l u (h.kept l u howner)
  new l u howner := by
    rcases hnew l u howner with howner' | ⟨hl, hu, hstage⟩
    · rcases h.new l u howner' with hold | ⟨j, hl, hu, hj⟩
      · exact .inl hold
      · refine .inr ⟨j, hl, hu, ?_⟩
        by_cases hji : j = i
        · subst hji
          rw [Function.update_self]
          exact hbound hj
        · rwa [Function.update_of_ne hji]
    · refine .inr ⟨i, hl, hu, ?_⟩
      rwa [Function.update_self]
  backed l u howner := by
    by_cases hu : u = (a i).uuid
    · subst hu
      exact hbacked l howner
    · rw [hturn.rows u hu]
      rcases hnew l u howner with howner' | ⟨-, hu', -⟩
      · exact h.backed l u howner'
      · exact absurd hu'.symm hu
  provisional l u hrow := by
    by_cases hu : u = (a i).uuid
    · subst hu
      rcases hprovisional l hrow with howner | ⟨hl, hstage⟩
      · exact .inl howner
      · refine .inr ⟨i, hl, rfl, ?_⟩
        rwa [Function.update_self]
    · rw [hturn.rows u hu] at hrow
      rcases h.provisional l u hrow with howner | ⟨j, hl, hu', hj⟩
      · exact .inl (hturn.owners l u howner)
      · have hji : j ≠ i := fun hji => hu (hji ▸ hu'.symm)
        refine .inr ⟨j, hl, hu', ?_⟩
        rwa [Function.update_of_ne hji]
  knows j := by
    by_cases hji : j = i
    · subst hji
      rwa [Function.update_self]
    · rw [Function.update_of_ne hji]
      exact (h.knows j).of_guarantees hturn fun huuid => hji (ha huuid)

/-- A turn that changes no owner and no login of a row keeps the invariant. -/
theorem move_of_same (h : Contending a t₀ stages t) (ha : Function.Injective fun i => (a i).uuid)
    {i : ι} {stage : Creating} (haccounts : t'.KeyedAt .accounts) (hlogins : t' .logins = t .logins)
    (hrows : ∀ u, t'.loginOf? u = t.loginOf? u) (hbound : (stages i).HasBound → stage.HasBound)
    (hprovisional : (stages i).Provisional → stage.Provisional)
    (hknows : stage.Knows t₀ (a i) t') :
    Contending a t₀ (Function.update stages i stage) t' := by
  have howners := Tables.owner?_congr hlogins
  refine h.move ha haccounts (h.loginsKeyed.congr hlogins) (h.named.congr hlogins)
    ⟨fun l u howner => (howners l).trans howner, fun u _ => hrows u⟩ hbound ?_ ?_ ?_ hknows
  · intro l u howner
    exact .inl ((howners l).symm.trans howner)
  · intro l howner
    exact (hrows _).trans (h.backed l _ ((howners l).symm.trans howner))
  · intro l hrow
    rw [hrows] at hrow
    rcases h.provisional l _ hrow with howner | ⟨j, hl, hu, hj⟩
    · exact .inl ((howners l).trans howner)
    · obtain rfl : j = i := ha hu
      exact .inr ⟨hl, hprovisional hj⟩

/-- A turn that leaves the tables keeps the invariant. -/
theorem move_of_eq (h : Contending a t₀ stages t) (ha : Function.Injective fun i => (a i).uuid)
    {i : ι} {stage : Creating} (hbound : (stages i).HasBound → stage.HasBound)
    (hprovisional : (stages i).Provisional → stage.Provisional)
    (hknows : stage.Knows t₀ (a i) t) :
    Contending a t₀ (Function.update stages i stage) t :=
  h.move_of_same ha h.accountsKeyed rfl (fun _ => rfl) hbound hprovisional hknows

/-! ### Turns -/

variable {i : ι}

/-- Storing the row. -/
theorem step_start (h : Contending a t₀ stages t) (ha : Function.Injective fun i => (a i).uuid)
    (haccounts : t₀.KeyedAt .accounts) (hstage : stages i = .start) :
    Contending a t₀ (Function.update stages i (Creating.start.step (a i) (version i) t).1)
      (Creating.start.step (a i) (version i) t).2 := by
  have hrow : t.loginOf? (a i).uuid = t₀.loginOf? (a i).uuid := h.knows_at hstage
  have hadmits₀ : t₀.admits (a i) = t.admits (a i) := by
    rw [Bool.eq_iff_iff, Tables.admits_iff haccounts, Tables.admits_iff h.accountsKeyed, hrow]
  cases hadmits : t.admits (a i) with
  | false =>
    rw [step_start_of_not_admits hadmits]
    refine h.move_of_eq ha ?_ ?_ (.collision (hadmits₀.trans hadmits))
    · rw [hstage]
      exact False.elim
    · rw [hstage]
      exact False.elim
  | true =>
    rw [step_start_of_admits hadmits]
    have howners : ∀ l, (t.putAccount (a i)).owner? l = t.owner? l :=
      Tables.owner?_congr rfl
    have hself : (t.putAccount (a i)).loginOf? (a i).uuid = some (some (.string (a i).login)) :=
      Tables.loginOf?_putAccount.trans (if_pos rfl)
    refine h.move ha (h.accountsKeyed.setAccount (Row.uuid_ofAccount _))
      (h.loginsKeyed.congr rfl) (h.named.congr rfl)
      ⟨fun l u howner => (howners l).trans howner,
        fun u hu => Tables.loginOf?_putAccount.trans (if_neg hu)⟩ ?_ ?_ ?_ ?_
      ⟨hadmits₀.trans hadmits, hself⟩
    · rw [hstage]
      exact False.elim
    · exact fun l u howner => .inl ((howners l).symm.trans howner)
    · intro l howner
      rw [howners] at howner
      -- The row that is replaced had this login, for its id owns one.
      rcases (Tables.admits_iff h.accountsKeyed).mp hadmits with hnone | hlogin
      · rw [h.backed l _ howner] at hnone
        cases hnone
      · rw [h.login_eq howner hlogin]
        exact hself
    · intro l hl
      rw [hself] at hl
      exact .inr ⟨AttributeValue.string.inj (Option.some.inj (Option.some.inj hl)), trivial⟩

/-- Claiming the login. -/
theorem step_stored (h : Contending a t₀ stages t) (ha : Function.Injective fun i => (a i).uuid)
    (hstage : stages i = .stored) :
    Contending a t₀ (Function.update stages i (Creating.stored.step (a i) (version i) t).1)
      (Creating.stored.step (a i) (version i) t).2 := by
  obtain ⟨hadmits, hrow⟩ := h.knows_at hstage
  cases hgrants : t.grants (a i).login (a i).uuid with
  | true =>
    rw [step_stored_of_grants hgrants]
    have howners : ∀ l, (t.bindLogin (a i).login (a i).uuid).owner? l
        = if l = (a i).login then some (a i).uuid else t.owner? l :=
      fun _ => Tables.owner?_bindLogin
    have hrows : ∀ u, (t.bindLogin (a i).login (a i).uuid).loginOf? u = t.loginOf? u :=
      Tables.loginOf?_congr rfl
    refine h.move ha (h.accountsKeyed.congr rfl) h.loginsKeyed.bindLogin
      h.named.bindLogin ⟨?_, fun u _ => hrows u⟩ (fun _ => trivial) ?_ ?_ ?_
      ⟨hadmits, (howners _).trans (if_pos rfl)⟩
    · intro l u howner
      rw [howners]
      split
      · next hl =>
        rw [hl] at howner
        rw [Tables.owner?_of_grants h.loginsKeyed hgrants howner]
      · exact howner
    · intro l u howner
      rw [howners] at howner
      split at howner
      · next hl => exact .inr ⟨hl.symm, Option.some.inj howner, trivial⟩
      · exact .inl howner
    · intro l howner
      rw [howners] at howner
      rw [hrows]
      split at howner
      · next hl =>
        rw [hl]
        exact hrow
      · exact h.backed l _ howner
    · intro l hl
      rw [hrows, hrow] at hl
      rw [howners, ← AttributeValue.string.inj (Option.some.inj (Option.some.inj hl)), if_pos rfl]
      exact .inl rfl
  | false =>
    rw [step_stored_of_not_grants hgrants]
    -- A login that is refused has a row, and so an owner.
    obtain ⟨owner, howner⟩ : ∃ owner, t.owner? (a i).login = some owner := by
      refine Option.ne_none_iff_exists'.mp (h.named _ fun hnone => ?_)
      rw [Tables.grants_of_loginRow?_eq_none hnone] at hgrants
      cases hgrants
    have hne : owner ≠ (a i).uuid := by
      rintro rfl
      rw [Tables.grants_of_owner? howner] at hgrants
      cases hgrants
    rw [refused_of_owner? howner]
    refine h.move_of_eq ha ?_ (fun _ => trivial) ⟨hadmits, hrow, howner, hne⟩
    rw [hstage]
    exact False.elim

/-- Storing the version. -/
theorem step_bound (h : Contending a t₀ stages t) (ha : Function.Injective fun i => (a i).uuid)
    (hstage : stages i = .bound) :
    Contending a t₀ (Function.update stages i (Creating.bound.step (a i) (version i) t).1)
      (Creating.bound.step (a i) (version i) t).2 := by
  obtain ⟨hadmits, howner⟩ := h.knows_at hstage
  have hlogins : t.setVersion (version i) .logins = t .logins := rfl
  refine h.move_of_same ha (h.accountsKeyed.congr rfl) hlogins
    (Tables.loginOf?_congr rfl) (fun _ => trivial) ?_
    (.created hadmits ((Tables.owner?_congr hlogins _).trans howner))
  rw [hstage]
  exact False.elim

/-- Withdrawing the row. -/
theorem step_lost {owner : Uuid} (h : Contending a t₀ stages t)
    (ha : Function.Injective fun i => (a i).uuid) (hstage : stages i = .lost owner) :
    Contending a t₀ (Function.update stages i ((Creating.lost owner).step (a i) (version i) t).1)
      ((Creating.lost owner).step (a i) (version i) t).2 := by
  obtain ⟨hadmits, hrow, howner, hne⟩ := h.knows_at hstage
  have hwithdraw : t.withdraw (a i).uuid (a i).login = t.eraseAccount (a i).uuid := by
    obtain ⟨row, hget, hlogin⟩ := Tables.loginOf?_eq_some_iff.mp hrow
    exact Tables.withdraw_of_hasThisLogin
      (Tables.hasThisLogin_of_login hget (Row.login?_eq_some_iff.mp hlogin))
  have howners : ∀ l, (t.eraseAccount (a i).uuid).owner? l = t.owner? l :=
    Tables.owner?_congr rfl
  change Contending a t₀ (Function.update stages i (.withdrawn owner))
    (t.withdraw (a i).uuid (a i).login)
  rw [hwithdraw]
  refine h.move ha h.accountsKeyed.eraseAccount (h.loginsKeyed.congr rfl)
    (h.named.congr rfl)
    ⟨fun l u hl => (howners l).trans hl,
      fun u hu => Tables.loginOf?_eraseAccount.trans (if_neg hu)⟩ ?_ ?_ ?_ ?_
    ⟨hadmits, (howners _).trans howner, hne⟩
  · rw [hstage]
    exact False.elim
  · exact fun l u hl => .inl ((howners l).symm.trans hl)
  · intro l hl
    -- Whoever loses a login owns none.
    rw [howners] at hl
    rw [h.login_eq hl hrow, howner] at hl
    exact absurd (Option.some.inj hl) hne
  · intro l hl
    rw [Tables.loginOf?_eraseAccount, if_pos rfl] at hl
    cases hl

/-- Updating the owner. -/
theorem step_withdrawn {owner : Uuid} (h : Contending a t₀ stages t)
    (ha : Function.Injective fun i => (a i).uuid) (hstage : stages i = .withdrawn owner) :
    Contending a t₀
      (Function.update stages i ((Creating.withdrawn owner).step (a i) (version i) t).1)
      ((Creating.withdrawn owner).step (a i) (version i) t).2 := by
  obtain ⟨hadmits, howner, hne⟩ := h.knows_at hstage
  have hrow : t.accountRow? owner ≠ none := by
    obtain ⟨row, hget, -⟩ := Tables.loginOf?_eq_some_iff.mp (h.backed _ _ howner)
    rw [hget]
    exact nofun
  have hlogins : t.reviseAccount owner (a i) .logins = t .logins := rfl
  rw [step_withdrawn_of_hasLogin (h.hasLogin howner)]
  refine h.move_of_same ha (h.accountsKeyed.reviseAccount _) hlogins
    (fun _ => Tables.loginOf?_reviseAccount hrow) ?_ ?_
    (.updatedOwner hadmits ((Tables.owner?_congr hlogins _).trans howner) hne)
  · rw [hstage]
    exact False.elim
  · rw [hstage]
    exact False.elim

/-- Every turn keeps the invariant. -/
theorem step (h : Contending a t₀ stages t) (ha : Function.Injective fun i => (a i).uuid)
    (haccounts : t₀.KeyedAt .accounts) (i : ι) :
    Contending a t₀ (Function.update stages i ((stages i).step (a i) (version i) t).1)
      ((stages i).step (a i) (version i) t).2 := by
  cases hstage : stages i with
  | start => exact h.step_start ha haccounts hstage
  | stored => exact h.step_stored ha hstage
  | bound => exact h.step_bound ha hstage
  | lost owner => exact h.step_lost ha hstage
  | withdrawn owner => exact h.step_withdrawn ha hstage
  | ended result =>
    change Contending a t₀ (Function.update stages i (.ended result)) t
    rw [← hstage, Function.update_eq_self]
    exact h

/-- Whatever the order, the invariant holds after a race, and every create has come as far as
    its turns bring it. -/
theorem run (h : Contending a t₀ (fun _ => .start) t₀) (ha : Function.Injective fun i => (a i).uuid)
    (version : ι → Int64) (order : List ι) :
    let race := Race.run (fun i => Creating.step (a i) (version i)) ⟨fun _ => .start, t₀⟩ order
    Contending a t₀ race.racers race.state ∧
      ∀ i, min 4 (order.count i) ≤ (race.racers i).depth := by
  refine Race.run_induction (J := fun taken race => Contending a t₀ race.racers race.state ∧
    ∀ i, min 4 (taken.count i) ≤ (race.racers i).depth) _ ⟨h, fun i => Nat.zero_le _⟩ ?_ order
  rintro taken race i ⟨hrace, hdepth⟩
  refine ⟨hrace.step ha h.accountsKeyed i, fun j => ?_⟩
  by_cases hj : j = i
  · subst hj
    have hstep := min_le_depth_step (race.racers j) (a j) (version j) race.state
    have hbefore := hdepth j
    simp only [Race.turn, Function.update_self]
    rw [List.count_append, List.count_singleton_self]
    omega
  · simp only [Race.turn, Function.update_of_ne hj]
    rw [List.count_append, List.count_singleton, if_neg (by simpa using fun h => hj h.symm)]
    exact hdepth j

end Contending

/-! ### The end of a race -/

namespace Contending

variable {a : ι → Account} {t₀ t : Tables} {stages : ι → Creating}

/-- After the race accounts and logins agree. -/
theorem agree (h : Contending a t₀ stages t) (hended : ∀ i, ∃ result, stages i = .ended result) :
    t.Agree := by
  intro l u
  rw [← Tables.loginOf?_eq_some_iff]
  refine ⟨h.backed l u, fun hrow => ?_⟩
  rcases h.provisional l u hrow with howner | ⟨i, -, -, hi⟩
  · exact howner
  · obtain ⟨result, hresult⟩ := hended i
    rw [hresult] at hi
    exact hi.elim

/-- Who wins owns its login, so there is one winner at most. -/
theorem eq_of_created (h : Contending a t₀ stages t) (ha : Function.Injective fun i => (a i).uuid)
    {i j : ι} (hi : stages i = .ended (.ok .created)) (hj : stages j = .ended (.ok .created))
    (hlogin : (a j).login = (a i).login) : j = i := by
  have howner : ∀ k, stages k = .ended (.ok .created) → t.owner? (a k).login = some (a k).uuid := by
    intro k hk
    cases h.knows_at hk with
    | created _ howner => exact howner
  refine ha (Option.some.inj ((howner j hj).symm.trans ?_))
  rw [hlogin]
  exact howner i hi

/-- A login that was free and is not any more has been bound by a winner. -/
theorem exists_created (h : Contending a t₀ stages t)
    (hended : ∀ i, ∃ result, stages i = .ended result) {l : String} {u : Uuid}
    (hfree : t₀.owner? l = none) (howner : t.owner? l = some u) :
    ∃ i, (a i).login = l ∧ (a i).uuid = u ∧ stages i = .ended (.ok .created) := by
  rcases h.new l u howner with hold | ⟨i, hl, hu, hi⟩
  · rw [hfree] at hold
    cases hold
  · obtain ⟨result, hresult⟩ := hended i
    rw [hresult] at hi
    match result, hi with
    | .ok .created, _ => exact ⟨i, hl, hu, hresult⟩

/-- A create that does not collide leaves its login with an owner. -/
theorem exists_owner (h : Contending a t₀ stages t) {i : ι} {result : Except RegistryError Creation}
    (hi : stages i = .ended result) (hresult : result ≠ .error (.identifierCollision (a i).uuid)) :
    ∃ u, t.owner? (a i).login = some u := by
  cases h.knows_at hi with
  | created _ howner => exact ⟨_, howner⟩
  | updatedOwner _ howner _ => exact ⟨_, howner⟩
  | collision => exact absurd rfl hresult

end Contending

namespace Registry

/-- Racing creates have one winner for each login.  Start from any tables in which accounts
    and logins agree and every row of a login tells its owner, and let creates of accounts
    with different ids take their requests in any order.  No create takes more than four.
    One that has ended has created its account and owns its login, or has updated the owner
    of its login, or its id had another login before.  Logins that had an owner keep it.
    Once all creates have ended, a login that was free and that one of them asked for
    without a collision has exactly one create that won it, and accounts and logins agree
    again. -/
theorem racing_creates_settle {config : Config} {r : Registry} (h : ofConfig config = .ok r)
    {ι : Type} [DecidableEq ι] {a : ι → Account} (ha : Function.Injective fun i => (a i).uuid)
    (version : ι → Int64) {t : Tables} (hkeyed : t.Keyed) (hagree : t.Agree) (hnamed : t.Named)
    (order : List ι) :
    let race := Race.runScripts Database.handler (fun i => (r.create (a i) (version i)).run)
      (config.tables.database t) order
    (∀ i, 4 ≤ order.count i → (race.racers i).ended? ≠ none) ∧
      ∃ t', race.state = config.tables.database t' ∧
        (∀ i o, (race.racers i).ended? = some o →
          ∃ result, o = some result ∧ Creating.Outcome t t' (a i) result) ∧
        (∀ l u, t.owner? l = some u → t'.owner? l = some u) ∧
        ((∀ i, (race.racers i).ended? ≠ none) →
          (∀ i, t.owner? (a i).login = none →
            (race.racers i).ended? ≠ some (some (.error (.identifierCollision (a i).uuid))) →
            ∃ winner, (a winner).login = (a i).login ∧
              (race.racers winner).ended? = some (some (.ok .created)) ∧
              t'.owner? (a i).login = some (a winner).uuid ∧
              ∀ j, (a j).login = (a i).login →
                (race.racers j).ended? = some (some (.ok .created)) → j = winner) ∧
          t'.Agree ∧ t'.Named) := by
  obtain ⟨rfl, -, -⟩ := validate_of_ofConfig h
  obtain ⟨-, hr⟩ := name_injective_of_ofConfig h
  intro race
  obtain ⟨hrace, hdepth⟩ := (Contending.start (a := a) (hkeyed .accounts) (hkeyed .logins) hnamed
    hagree).run ha version order
  obtain ⟨hstate, hsame⟩ := Race.runScripts_of_follows (TableNames.obeys_database hr .calm)
    (fun i => follows_createScript hr (a i) (version i)) (fun _ => .start)
    (d := r.config.tables.database t) rfl order
  set stages := Race.run (fun i => Creating.step (a i) (version i)) ⟨fun _ => .start, t⟩ order
  have hended : ∀ i, (race.racers i).ended? = (stages.racers i).result?.map some :=
    fun i => (hsame i).trans (ended?_createScript _)
  have hresult : ∀ i result, (race.racers i).ended? = some (some result) ↔
      stages.racers i = .ended result := by
    intro i result
    rw [hended, Option.map_eq_some_iff, ← Creating.result?_eq_some_iff]
    simp only [Option.some.injEq, exists_eq_right]
  have hends : ∀ i o, (race.racers i).ended? = some o →
      ∃ result, o = some result ∧ stages.racers i = .ended result := by
    intro i o ho
    rw [hended, Option.map_eq_some_iff] at ho
    obtain ⟨result, hi, rfl⟩ := ho
    exact ⟨result, rfl, Creating.result?_eq_some_iff.mp hi⟩
  refine ⟨fun i hi => ?_, stages.state, hstate, fun i o ho => ?_, hrace.kept, fun hall => ?_⟩
  · obtain ⟨result, hstage⟩ := Creating.exists_of_depth ((Nat.le_min.mpr ⟨le_rfl, hi⟩).trans
      (hdepth i))
    rw [(hresult i result).mpr hstage]
    exact nofun
  · obtain ⟨result, rfl, hstage⟩ := hends i o ho
    exact ⟨result, rfl, hrace.knows_at hstage⟩
  have hover : ∀ i, ∃ result, stages.racers i = .ended result := by
    intro i
    obtain ⟨o, ho⟩ := Option.ne_none_iff_exists'.mp (hall i)
    obtain ⟨result, -, hstage⟩ := hends i o ho
    exact ⟨result, hstage⟩
  refine ⟨fun i hfree hi => ?_, hrace.agree hover, hrace.named⟩
  obtain ⟨result, hstage⟩ := hover i
  have hne : result ≠ .error (.identifierCollision (a i).uuid) := by
    rintro rfl
    exact hi ((hresult i _).mpr hstage)
  obtain ⟨u, howner⟩ := hrace.exists_owner hstage hne
  obtain ⟨winner, hlogin, rfl, hwinner⟩ := hrace.exists_created hover hfree howner
  refine ⟨winner, hlogin, (hresult winner _).mpr hwinner, howner, fun j hj hcreated => ?_⟩
  exact hrace.eq_of_created ha hwinner ((hresult j _).mp hcreated) (hj.trans hlogin.symm)

/-- Two accounts contend for a login, and a third, whose id has one already, asks for it
    too. -/
theorem racing_creates_settle_default :
    let owner : Account := ⟨⟨.replicate 16 3, rfl⟩, "+3", 1, {}⟩
    let first : Account := ⟨⟨.replicate 16 1, rfl⟩, "+1", 1, {}⟩
    let second : Account := ⟨⟨.replicate 16 2, rfl⟩, "+1", 1, {}⟩
    let third : Account := ⟨⟨.replicate 16 3, rfl⟩, "+1", 1, {}⟩
    let a : Fin 3 → Account := ![first, second, third]
    let version : Fin 3 → Int64 := ![1, 2, 3]
    let t := Tables.empty.register owner
    let order : List (Fin 3) := [0, 1, 2, 1, 0, 1, 0, 2, 0, 1, 2, 2]
    Registry.ofConfig {} = .ok ⟨{}⟩ ∧ (Function.Injective fun i => (a i).uuid) ∧ t.Keyed ∧
      t.Agree ∧ t.Named ∧
      let race := Race.runScripts Database.handler
        (fun i => ((⟨{}⟩ : Registry).create (a i) (version i)).run)
        (({} : Config).tables.database t) order
      (∀ i, 4 ≤ order.count i → (race.racers i).ended? ≠ none) ∧
        ∃ t', race.state = ({} : Config).tables.database t' ∧
          (∀ i o, (race.racers i).ended? = some o →
            ∃ result, o = some result ∧ Creating.Outcome t t' (a i) result) ∧
          (∀ l u, t.owner? l = some u → t'.owner? l = some u) ∧
          ((∀ i, (race.racers i).ended? ≠ none) →
            (∀ i, t.owner? (a i).login = none →
              (race.racers i).ended? ≠ some (some (.error (.identifierCollision (a i).uuid))) →
              ∃ winner, (a winner).login = (a i).login ∧
                (race.racers winner).ended? = some (some (.ok .created)) ∧
                t'.owner? (a i).login = some (a winner).uuid ∧
                ∀ j, (a j).login = (a i).login →
                  (race.racers j).ended? = some (some (.ok .created)) → j = winner) ∧
            t'.Agree ∧ t'.Named) := by
  intro owner first second third a version t order
  have hconfig : Registry.ofConfig {} = .ok ⟨{}⟩ := rfl
  have ha : Function.Injective fun i => (a i).uuid := by
    unfold a first second third
    decide +kernel
  have hkeyed : t.Keyed := Tables.keyed_empty.register owner
  have hagree : t.Agree := Tables.agree_empty.register rfl rfl
  have hnamed : t.Named := Tables.named_empty.register owner
  exact ⟨hconfig, ha, hkeyed, hagree, hnamed,
    racing_creates_settle hconfig ha version hkeyed hagree hnamed order⟩

end Registry

end LoginRegistry
