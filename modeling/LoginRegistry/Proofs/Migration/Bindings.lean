import LoginRegistry.Proofs.Registry.Draining
import LoginRegistry.Proofs.Registry.Listing
import LoginRegistry.Proofs.Migration.Asking
import LoginRegistry.Proofs.Registry.Runs
import LoginRegistry.Proofs.Registry.Serving

/-! # How logins are bound and freed

    Three requests write the login index: a claim and a migration bind a login that is
    free or the account's, and a release frees one that is the account's.  So whatever
    the tables hold and whatever befalls the requests, refusals out of nothing among
    them, a job binds logins to the accounts that it stores and frees those of the
    accounts that it deletes or sweeps, and no login passes from one account to another
    (`logins_never_move`).

    A job that stores accounts only binds logins (`Tables.Grows`), a delete and a sweep
    only free logins (`Tables.Shrinks`).  A sweep frees logins of those accounts only
    whose rows it has asked for, so the judgements are about the tables together with
    the requests made so far.
-/

namespace LoginRegistry

open Store (Request)

/-! ### Bindings of two tables -/

namespace Tables

/-- Some logins are bound that were not, as `binds` allows. -/
def Grows (binds : String → Uuid → Prop) (t t' : Tables) : Prop :=
  ∀ l, t'.owner? l = t.owner? l ∨ t.owner? l = none ∧ ∃ w, t'.owner? l = some w ∧ binds l w

/-- Some logins are not bound that were, as `frees` allows. -/
def Shrinks (frees : Uuid → Prop) (t t' : Tables) : Prop :=
  ∀ l, t'.owner? l = t.owner? l ∨ t'.owner? l = none ∧ ∃ u, t.owner? l = some u ∧ frees u

/-- No login passes from one account to another, and logins are bound and freed as
    `binds` and `frees` allow. -/
structure Moves (binds : String → Uuid → Prop) (frees : Uuid → Prop) (t t' : Tables) : Prop where
  /-- A login that stays bound stays with its account. -/
  kept : ∀ l u w, t.owner? l = some u → t'.owner? l = some w → w = u
  /-- A login is freed with reason. -/
  freed : ∀ l u, t.owner? l = some u → t'.owner? l = none → frees u
  /-- A login is bound with reason. -/
  bound : ∀ l w, t.owner? l = none → t'.owner? l = some w → binds l w

variable {binds : String → Uuid → Prop} {frees frees' : Uuid → Prop} {t t' t'' : Tables}

theorem Grows.refl (t : Tables) : t.Grows binds t := fun _ => .inl rfl

theorem Shrinks.refl (t : Tables) : t.Shrinks frees t := fun _ => .inl rfl

theorem Shrinks.mono (h : t.Shrinks frees t') (hfrees : ∀ u, frees u → frees' u) :
    t.Shrinks frees' t' :=
  fun l => (h l).imp_right fun ⟨hnone, u, hu, hfree⟩ => ⟨hnone, u, hu, hfrees u hfree⟩

/-- Only the login index matters. -/
theorem Grows.congr (h : t.Grows binds t') (hlogins : t'' .logins = t' .logins) :
    t.Grows binds t'' := by
  intro l
  rw [owner?_congr hlogins]
  exact h l

theorem Shrinks.congr (h : t.Shrinks frees t') (hlogins : t'' .logins = t' .logins) :
    t.Shrinks frees t'' := by
  intro l
  rw [owner?_congr hlogins]
  exact h l

/-- A login that is free or the account's can be bound. -/
theorem Grows.bindLogin (h : t.Grows binds t') {login : String} {u : Uuid}
    (hfree : t'.loginRow? login = none ∨ t'.owner? login = some u) (hbinds : binds login u) :
    t.Grows binds (t'.bindLogin login u) := by
  intro l
  rw [owner?_bindLogin]
  split
  · next hl =>
    subst hl
    rcases hfree with hnone | howner
    · -- Whether or not the login was touched since `t`, it was not bound there.
      have howner := owner?_of_loginRow?_eq_none hnone
      rcases h l with hsame | ⟨hbefore, w, hw, -⟩
      · exact .inr ⟨hsame.symm.trans howner, u, rfl, hbinds⟩
      · exact .inr ⟨hbefore, u, rfl, hbinds⟩
    · rw [← howner]
      exact h l
  · exact h l

/-- A login of an account that may be freed can be released. -/
theorem Shrinks.release (h : t.Shrinks frees t') (login : String) {u : Uuid} (hu : frees u) :
    t.Shrinks frees (t'.release login u) := by
  intro l
  rw [owner?_release]
  split
  · next hl =>
    obtain ⟨rfl, howner⟩ := hl
    rcases h l with hsame | ⟨hnone, hbefore⟩
    · exact .inr ⟨rfl, u, hsame.symm.trans howner, hu⟩
    · exact .inr ⟨rfl, hbefore⟩
  · exact h l

/-- Logins are bound first and freed later. -/
theorem moves_of_grows_shrinks (hgrows : t.Grows binds t') (hshrinks : t'.Shrinks frees t'') :
    t.Moves binds frees t'' := by
  constructor
  · intro l u w hu hw
    rcases hgrows l with hsame | ⟨hnone, -⟩
    · rcases hshrinks l with hlast | ⟨hnone, -⟩
      · rw [hlast, hsame, hu] at hw
        exact (Option.some.inj hw).symm
      · rw [hnone] at hw
        cases hw
    · rw [hnone] at hu
      cases hu
  · intro l u hu hnone
    rcases hgrows l with hsame | ⟨hbefore, -⟩
    · rcases hshrinks l with hlast | ⟨-, v, hv, hfree⟩
      · rw [hlast, hsame, hu] at hnone
        cases hnone
      · rw [hsame, hu] at hv
        rwa [Option.some.inj hv]
    · rw [hbefore] at hu
      cases hu
  · intro l w hnone hw
    rcases hshrinks l with hlast | ⟨hgone, -⟩
    · rcases hgrows l with hsame | ⟨-, v, hv, hbind⟩
      · rw [hlast, hsame, hnone] at hw
        cases hw
      · rw [hlast, hv] at hw
        rwa [← Option.some.inj hw]
    · rw [hgone] at hw
      cases hw

end Tables

/-! ### Requests off the login index -/

namespace Registry

variable {r : Registry} {x : Exposure} {I J : List Request × Tables → Prop}

/-- A property of the requests made and the tables that sees neither the requests of
    other tables nor these tables, but the login index and the tombstones. -/
def Indifferent (I : List Request × Tables → Prop) : Prop :=
  ∀ {made : List Request} {t t' : Tables} (request : Request), t' .logins = t .logins →
    t' .tombstones = t .tombstones → I (made, t) → I (request :: made, t')

/-- What can come back from a request to the tables of the registry, together with the
    requests made. -/
abbrev recorded (r : Registry) (x : Exposure) : Behaviour (List Request × Tables) :=
  (r.config.tables.behaviour x).recorded

section valid

variable (hr : Function.Injective r.config.tables.name) (hI : Indifferent I)

include hr hI

theorem preserves_of_indifferent {request : Request} {i : TableId}
    (htables : request.tables = [r.config.tables.name i]) (hlogins : i ≠ .logins)
    (htombstones : i ≠ .tombstones) : (r.recorded x).Preserves I request := by
  refine Behaviour.preserves_recorded fun made t answer t' hst h => ?_
  have hframe : ∀ j, j ≠ i → t' j = t j := fun j hj =>
    TableNames.eq_of_behaviour hr h (by simpa [htables, hr.eq_iff] using hj)
  exact hI request (hframe _ hlogins.symm) (hframe _ htombstones.symm) hst

theorem keeps_send {request : Request} {i : TableId}
    (htables : request.tables = [r.config.tables.name i]) (hlogins : i ≠ .logins)
    (htombstones : i ≠ .tombstones) : (Script.send request).Keeps (r.recorded x) I :=
  (Script.asks_send (preserves_of_indifferent hr hI htables hlogins htombstones)).keeps

omit hr hI in
theorem keeps_unless (applied : Bool) (e : RegistryError) :
    Action.Keeps (r.recorded x) I (unless applied do throw e) := by
  cases applied with
  | true => exact .pure ()
  | false => exact .throw e

theorem keeps_accounts_create (a : Account) : (r.accounts.create a).Keeps (r.recorded x) I :=
  .bind (.unlessRefused (keeps_send hr hI (i := .accounts) rfl nofun nofun)) fun _ =>
    keeps_unless _ _

theorem keeps_accounts_update (a : Account) : (r.accounts.update a).Keeps (r.recorded x) I :=
  .bind (.unlessRefused (keeps_send hr hI (i := .accounts) rfl nofun nofun)) fun _ =>
    keeps_unless _ _

theorem keeps_accounts_get (u : Uuid) : (r.accounts.get u).Keeps (r.recorded x) I := by
  refine .bind (.ofStore (keeps_send hr hI (i := .accounts) rfl nofun nofun)) fun found => ?_
  match found with
  | none => exact .pure none
  | some row => exact .bind (.ofExcept _) fun a => .pure (some a)

theorem keeps_accounts_delete (u : Uuid) : (r.accounts.delete u).Keeps (r.recorded x) I :=
  .ofStore (keeps_send hr hI (i := .accounts) rfl nofun nofun)

theorem keeps_counter_set (version : Int64) : (r.counter.set version).Keeps (r.recorded x) I :=
  .ofStore (keeps_send hr hI (i := .misc) rfl nofun nofun)

theorem keeps_retries_login (u : Uuid) : (r.retries.login u).Keeps (r.recorded x) I :=
  .bind (.ofStore (keeps_send hr hI (i := .retries) rfl nofun nofun)) fun _ => .pure _

/-! ### Jobs that store accounts -/

theorem keeps_updateOwner (a : Account) (owner : Uuid) :
    (r.updateOwner a owner).Keeps (r.recorded x) I := by
  refine .tryCatch (keeps_accounts_update hr hI _) fun e => ?_
  cases e <;> exact .throw _

/-- A create keeps what its claim keeps. -/
theorem keeps_create_of_claim {a : Account}
    (hclaim : (r.logins.claim a.login a.uuid).Keeps (r.recorded x) I) (version : Int64) :
    (r.create a version).Keeps (r.recorded x) I := by
  refine .timed (.bind (keeps_accounts_create hr hI a) fun _ => .bind hclaim fun claim => ?_) _
  match claim with
  | .claimed => exact .bind (keeps_counter_set hr hI version) fun _ => .pure _
  | .owned owner =>
    refine .bind (.unlessRefused (keeps_send hr hI (i := .accounts) rfl nofun nofun)) fun _ => ?_
    exact .bind (keeps_updateOwner hr hI a owner) fun _ => .pure _

/-- A migration keeps what binding its login preserves. -/
theorem asksFor_of_bind {a : Account}
    (hbind : (r.recorded x).Preserves I (.put (r.logins.bindRequest a.login a.uuid))) :
    r.AsksFor ((r.recorded x).Preserves I) a where
  row := Action.asks_unlessRefused (Script.asks_send
    (preserves_of_indifferent hr hI (i := .accounts) rfl nofun nofun))
  login := Action.asks_unlessRefused (Script.asks_send hbind)
  retry := Action.asks_ofStore (Script.asks_send
    (preserves_of_indifferent hr hI (i := .retries) rfl nofun nofun))

end valid

/-- Since the tables `t₀` logins have been bound as `binds` allows, and the tombstones are
    the same. -/
structure Grown (binds : String → Uuid → Prop) (t₀ : Tables) (st : List Request × Tables) :
    Prop where
  /-- Each row of the login index holds its own key. -/
  keyed : st.2.KeyedAt .logins
  /-- Logins have been bound, and none was freed. -/
  grows : t₀.Grows binds st.2
  /-- The tombstones are the same. -/
  tombstones : st.2 .tombstones = t₀ .tombstones

variable {binds : String → Uuid → Prop} {t₀ : Tables}

theorem indifferent_grown : Indifferent (Grown binds t₀) := by
  intro made t t' request hlogins htombstones h
  exact ⟨h.keyed.congr hlogins, h.grows.congr hlogins, htombstones.trans h.tombstones⟩

section valid

variable (hr : Function.Injective r.config.tables.name)

include hr

/-- The request that binds a login passes for a free login and for one of the account. -/
theorem preserves_bindRequest {login : String} {u : Uuid} (hbinds : binds login u) :
    (r.recorded x).Preserves (Grown binds t₀) (.put (r.logins.bindRequest login u)) := by
  refine Behaviour.preserves_recorded fun made t answer t' hst h => ?_
  rcases TableNames.eq_or_insert_of_put hr (i := .logins) rfl (Row.login_ofLogin login u) h with
    rfl | ⟨hpermits, rfl⟩
  · exact ⟨hst.keyed, hst.grows, hst.tombstones⟩
  · have hfree := of_decide_eq_true ((Tables.permits_claim hst.keyed login u).symm.trans hpermits)
    exact ⟨hst.keyed.bindLogin, hst.grows.bindLogin hfree hbinds, hst.tombstones⟩

theorem asksFor_grown {a : Account} (hbinds : binds a.login a.uuid) :
    r.AsksFor ((r.recorded x).Preserves (Grown binds t₀)) a :=
  asksFor_of_bind hr indifferent_grown (preserves_bindRequest hr hbinds)

theorem keeps_logins_get (login : String) :
    (r.logins.get login).Keeps (r.recorded x) (Grown binds t₀) := by
  refine .bind (.ofStore (.send_recorded fun made t answer t' hst h => ?_)) fun found => ?_
  · obtain rfl := TableNames.eq_of_get hr h
    exact ⟨hst.keyed, hst.grows, hst.tombstones⟩
  · match found with
    | none => exact .pure none
    | some row => exact .bind (.ofExcept _) fun u => .pure (some u)

/-- A claim binds its login, or looks up who has it. -/
theorem keeps_logins_claim {login : String} {u : Uuid} (hbinds : binds login u) :
    (r.logins.claim login u).Keeps (r.recorded x) (Grown binds t₀) := by
  refine .bind (.lift (Script.asks_send (preserves_bindRequest hr hbinds)).keeps) fun result => ?_
  match result with
  | .ok () => exact .pure _
  | .error (.conditionFailed _ (some row)) => exact .bind (.ofExcept _) fun _ => .pure _
  | .error (.conditionFailed _ none) =>
    refine .bind (keeps_logins_get hr login) fun owner => ?_
    match owner with
    | some v => exact .pure _
    | none => exact .throw _
  | .error (.tableNotFound _) | .error (.invalid _) | .error (.throttled _)
  | .error (.unavailable _) => exact .throw _

/-! ### Jobs that delete accounts -/

theorem keeps_logins_release (hJ : Indifferent J) {login : String} {u : Uuid}
    (hrelease : ∀ made t request, J (made, t) → J (request :: made, t.release login u)) :
    (r.logins.release login u).Keeps (r.recorded x) J := by
  refine .unlessRefused (.send_recorded fun made t answer t' hst h => ?_)
  rcases TableNames.eq_or_erase_of_delete hr (i := .logins) rfl (Row.login_loginKey login) h with
    rfl | ⟨hpermits, rfl⟩
  · exact hJ _ rfl rfl hst
  · have howner := of_decide_eq_true ((Tables.permits_owner t login u).symm.trans hpermits)
    have hfreed : t.set .logins ((t .logins).erase (.string login)) = t.release login u :=
      (if_pos howner).symm
    rw [hfreed]
    exact hrelease made t _ hst

/-- The request that a delete makes for the row of its account. -/
def rowRequest (r : Registry) (u : Uuid) : Request :=
  .get { table := r.config.tables.accounts, key := Row.uuidKey u }

/-- What holds before the row of an account is asked for, and what the removal of the
    account keeps from there on. -/
structure Removes (r : Registry) (u : Uuid) (I J : List Request × Tables → Prop) : Prop where
  /-- Afterwards, only logins and tombstones matter. -/
  after : Indifferent J
  /-- The row is asked for. -/
  asked : ∀ made t, I (made, t) → J (r.rowRequest u :: made, t)
  /-- A login of the account is released. -/
  released : ∀ login made t request, J (made, t) → J (request :: made, t.release login u)
  /-- What held before holds afterwards. -/
  done : ∀ st, J st → I st

theorem keeps_deleteWith_of_removes {u : Uuid} (h : r.Removes u I J) {options : DeleteOptions}
    (hbury : options.tombstone = true → (r.tombstones.put u).Keeps (r.recorded x) I) :
    (r.deleteWith u options).Keeps (r.recorded x) I := by
  have hrelease : ∀ login, (r.logins.release login u).Keeps (r.recorded x) J :=
    fun login => keeps_logins_release hr h.after (h.released login)
  have hasked : ∀ st, I st →
      (r.accounts.get u).Within (r.recorded x) st (fun _ st' => J st') fun _ st' => J st' := by
    rintro ⟨made, t⟩ hst
    refine Action.within_bind (Action.within_ofStore
      (Script.within_send_recorded fun answer t' hb => ?_))
    obtain rfl := TableNames.eq_of_get hr hb
    have hst' := h.asked made t' hst
    match answer with
    | .ok none => exact hst'
    | .ok (some row) =>
      exact Action.Keeps.within (.bind (.ofExcept (Row.account row)) fun a => .pure (some a)) hst'
    | .failed e => exact hst'
    | .panicked => exact hst'
  -- From the request for the row on, the stronger property holds.
  have hremoval : (r.removal u options.version).Keeps (r.recorded x) I := by
    refine Action.keeps_of_within fun st hst =>
      Action.within_bind (Action.Within.mono (hasked st hst) ?_ fun _ => h.done)
    intro found st' hst'
    refine Action.Within.mono (Action.Keeps.within ?_ hst') (fun _ => h.done) fun _ => h.done
    cases found with
    | none =>
      refine .bind (keeps_retries_login hr h.after u) fun recorded => ?_
      cases recorded with
      | none => exact .pure ()
      | some login => exact .bind (hrelease login) fun _ => .pure ()
    | some account =>
      refine .bind (hrelease account.login) fun _ => ?_
      refine .bind (keeps_accounts_delete hr h.after u) fun _ => ?_
      cases options.version with
      | none => exact .pure ()
      | some version => exact keeps_counter_set hr h.after version
  rw [deleteWith_eq]
  refine .timed ?_ _
  split
  · next htombstone => exact .bind (hbury htombstone) fun _ => hremoval
  · exact hremoval

/-- A tombstone does not matter for the logins that a delete frees. -/
theorem keeps_tombstones_put {frees : Uuid → Prop} (u : Uuid) :
    (r.tombstones.put u).Keeps (r.recorded x) fun st => t₀.Shrinks frees st.2 := by
  refine .ofStore (.send_recorded fun made t answer t' hst h => ?_)
  have hname : r.config.tables.name .logins ∉ [r.config.tables.name .tombstones] := by
    simp [hr.eq_iff]
  exact hst.congr (TableNames.eq_of_behaviour hr h hname)

/-- A delete on request frees logins of its account. -/
theorem keeps_deleteWith_shrinks (u : Uuid) (options : DeleteOptions) :
    (r.deleteWith u options).Keeps (r.recorded x) fun st => t₀.Shrinks (· = u) st.2 := by
  have hindifferent : Indifferent fun st => t₀.Shrinks (· = u) st.2 :=
    fun _ hlogins _ hst => hst.congr hlogins
  refine keeps_deleteWith_of_removes hr ⟨hindifferent, ?_, ?_, fun _ => id⟩ fun _ =>
    keeps_tombstones_put hr u
  · exact fun _ _ => id
  · exact fun login _ _ _ hst => hst.release login rfl

/-! ### Sweeps -/

omit hr in
/-- Since the tables `t₀` a sweep has freed logins of accounts with a tombstone, after it
    had asked for their rows, and has left no new tombstones. -/
structure Swept (r : Registry) (t₀ : Tables) (st : List Request × Tables) : Prop where
  /-- Each tombstone holds its own key. -/
  keyed : st.2.KeyedAt .tombstones
  /-- There are no new tombstones. -/
  buried : ∀ u, st.2.Tombstoned u → t₀.Tombstoned u
  /-- Logins of accounts that are swept have been freed. -/
  shrinks : t₀.Shrinks (fun u => t₀.Tombstoned u ∧ r.rowRequest u ∈ st.1) st.2

omit hr in
/-- More requests and other tables do not matter. -/
theorem Swept.of_suffix {made made' : List Request} {t t' : Tables} (h : r.Swept t₀ (made, t))
    (hmade : made <:+ made') (hlogins : t' .logins = t .logins)
    (htombstones : t' .tombstones = t .tombstones) : r.Swept t₀ (made', t') := by
  refine ⟨h.keyed.congr htombstones, fun u hu => ?_, ?_⟩
  · exact h.buried u ((Tables.tombstoned_congr htombstones u).mp hu)
  · exact (h.shrinks.congr hlogins).mono fun u hu => ⟨hu.1, hmade.subset hu.2⟩

omit hr in
theorem indifferent_swept : Indifferent (r.Swept t₀) :=
  fun request hlogins htombstones h =>
    h.of_suffix (List.suffix_cons request _) hlogins htombstones

/-- The delete of an account with a tombstone. -/
theorem keeps_deleteWith_swept {u : Uuid} (hu : t₀.Tombstoned u) :
    (r.deleteWith u .reconcile).Keeps (r.recorded x) (r.Swept t₀) := by
  -- Once the row is asked for, the logins of the account can be freed.
  refine keeps_deleteWith_of_removes hr
    (J := fun st => r.Swept t₀ st ∧ r.rowRequest u ∈ st.1) ⟨?_, ?_, ?_, ?_⟩ nofun
  · intro made t t' request hlogins htombstones h
    exact ⟨indifferent_swept request hlogins htombstones h.1, List.mem_cons_of_mem _ h.2⟩
  · exact fun made t h => ⟨indifferent_swept _ rfl rfl h, List.mem_cons_self⟩
  · intro login made t request h
    obtain ⟨hswept, hasked⟩ := h
    have hnext := indifferent_swept request rfl rfl hswept
    have hmade : r.rowRequest u ∈ request :: made := List.mem_cons_of_mem _ hasked
    have htombstones : (t.release login u) .tombstones = t .tombstones := Tables.release_ne nofun
    refine ⟨⟨hnext.keyed.congr htombstones, fun v hv => ?_, ?_⟩, hmade⟩
    · exact hnext.buried v ((Tables.tombstoned_congr htombstones v).mp hv)
    · exact hnext.shrinks.release login ⟨hu, hmade⟩
  · exact fun _ => And.left

/-- Listing changes nothing, and finds accounts with a tombstone. -/
theorem within_list_swept (count : Nat) {st : List Request × Tables} (hst : r.Swept t₀ st) :
    (r.tombstones.list count).Within (r.recorded x) st
      (fun us st' => r.Swept t₀ st' ∧ ∀ u ∈ us, t₀.Tombstoned u) fun _ => r.Swept t₀ := by
  obtain ⟨made, t⟩ := st
  have hlist : (r.tombstones.list count).Within (r.config.tables.behaviour x) t
      (fun us t' => t' = t ∧ ∀ u ∈ us, t₀.Tombstoned u) fun _ t' => t' = t := by
    refine TableNames.within_list hr (i := .tombstones) rfl rfl hst.keyed (fun us hkeys => ?_)
      (fun _ _ _ _ => rfl) fun _ _ _ _ _ => rfl
    exact ⟨rfl, fun u hu => hst.buried u (Tables.tombstoned_of_map_eq hkeys hu)⟩
  refine Action.Within.mono (hlist.recorded made) ?_ ?_
  · rintro us ⟨made', t'⟩ ⟨hmade, rfl, hus⟩
    exact ⟨hst.of_suffix hmade rfl rfl, hus⟩
  · rintro o ⟨made', t'⟩ ⟨hmade, rfl⟩
    exact hst.of_suffix hmade rfl rfl

/-- A drain removes tombstones only. -/
theorem keeps_removeAll_swept (us : List Uuid) :
    (r.tombstones.removeAll us).Keeps (r.recorded x) (r.Swept t₀) := by
  refine Action.keeps_of_within ?_
  rintro ⟨made, t⟩ hst
  have hdrained : ∀ made' t', made <:+ made' → t.Drained us t' → r.Swept t₀ (made', t') := by
    rintro made' _ hmade ⟨gone, -, rfl⟩
    have hnext := hst.of_suffix hmade rfl rfl
    have hlogins : (t.unbury gone) .logins = t .logins := Tables.unbury_ne nofun
    refine ⟨hnext.keyed.unbury gone, fun u hu => ?_, hnext.shrinks.congr hlogins⟩
    exact hnext.buried u (Tables.tombstoned_unbury.mp hu).1
  have hremove : (r.tombstones.removeAll us).Within (r.config.tables.behaviour x) t
      (fun _ => t.Drained us) fun _ => t.Drained us :=
    TableNames.within_removeAll hr rfl us (fun _ _ => id) fun _ _ => id
  refine Action.Within.mono (hremove.recorded made) ?_ ?_
  · exact fun _ st' h => hdrained st'.1 st'.2 h.1 h.2
  · exact fun _ st' h => hdrained st'.1 st'.2 h.1 h.2

theorem keeps_reconcile_swept : r.reconcile.Keeps (r.recorded x) (r.Swept t₀) :=
  keeps_reconcile_of_sweep (keeps_sweepPages_of_listed
    (fun count _ => within_list_swept hr count) (fun _ => keeps_deleteWith_swept hr)
    (keeps_removeAll_swept hr) _ _ _)

end valid

/-! ### Jobs -/

end Registry

/-- The job is to delete the account. -/
def Job.Deletes (u : Uuid) : Job → Prop
  | .call (.delete v _) | .call (.deleteWith v _) => v = u
  | _ => False

/-- The job sweeps tombstones. -/
def Job.Sweeps : Job → Prop
  | .reconcile | .migrateBatch .. => True
  | _ => False

/-- The accounts that a job is to create or migrate. -/
def Job.accounts : Job → List Account
  | .call (.create a _) | .migrate a _ => [a]
  | .migrateBatch accounts _ _ => accounts
  | _ => []

/-- The job is to create or migrate an account with the login and the id. -/
def Job.Binds (job : Job) (login : String) (u : Uuid) : Prop :=
  ∃ a ∈ job.accounts, a.login = login ∧ a.uuid = u

namespace Registry

/-- A job on some tables that makes some requests may free the logins of the account: it
    is to delete the account, or it sweeps and has processed the account's tombstone. -/
def Frees (r : Registry) (job : Job) (t : Tables) (made : List Request) (u : Uuid) : Prop :=
  job.Deletes u ∨ job.Sweeps ∧ t.Tombstoned u ∧ r.rowRequest u ∈ made

variable {r : Registry} {x : Exposure} {t : Tables}

/-- A job that frees no login. -/
theorem within_work_of_grown (ht : t.Keyed) {job : Job}
    (h : (r.work job).Keeps (r.recorded x) (Grown job.Binds t)) :
    (r.work job).Within (r.recorded x)
      (fun _ st => t.Moves job.Binds (r.Frees job t st.1) st.2) ([], t) :=
  Script.Within.mono (h ([], t) ⟨ht .logins, .refl t, rfl⟩) fun _ st hst =>
    Tables.moves_of_grows_shrinks hst.grows (.refl st.2)

/-- A job that deletes an account. -/
theorem within_work_of_shrinks {job : Job} {u : Uuid} (hu : job.Deletes u)
    (h : (r.work job).Keeps (r.recorded x) fun st => t.Shrinks (· = u) st.2) :
    (r.work job).Within (r.recorded x)
      (fun _ st => t.Moves job.Binds (r.Frees job t st.1) st.2) ([], t) := by
  refine Script.Within.mono (h ([], t) (.refl t)) fun _ st hst => ?_
  refine Tables.moves_of_grows_shrinks (.refl t) (hst.mono ?_)
  rintro _ rfl
  exact .inl hu

section valid

variable (hr : Function.Injective r.config.tables.name)

include hr

/-- A batch binds logins while it migrates and frees logins while it sweeps. -/
theorem within_migrateBatch (ht : t.Keyed) (accounts : List Account) (workers : UInt64)
    (turns : Turns) :
    (r.migrateBatch accounts workers turns).Within (r.recorded x)
      (fun _ st => t.Moves (Job.migrateBatch accounts workers turns).Binds
        (r.Frees (.migrateBatch accounts workers turns) t st.1) st.2) ([], t) := by
  have hbinds : ∀ a ∈ accounts, (Job.migrateBatch accounts workers turns).Binds a.login a.uuid :=
    fun a ha => ⟨a, ha, rfl, rfl⟩
  have hmigrate := (asks_migrateAll (fun a ha => asksFor_grown hr (hbinds a ha)) workers
    turns).keeps (b := r.recorded x) ([], t) ⟨ht .logins, .refl t, rfl⟩
  refine Script.within_bind (Script.Within.mono hmigrate ?_)
  rintro o ⟨made, t'⟩ hgrown
  match o with
  | none => exact Tables.moves_of_grows_shrinks hgrown.grows (.refl t')
  | some report =>
    -- The migrations leave the tombstones, so the sweep processes those of `t`.
    have hkeyed : t'.KeyedAt .tombstones := (ht .tombstones).congr hgrown.tombstones
    have hswept : r.Swept t' (made, t') := ⟨hkeyed, fun _ => id, .refl t'⟩
    have hsweep := keeps_reconcile_swept hr (x := x) (made, t') hswept
    have hmoves : ∀ st, r.Swept t' st → t.Moves (Job.migrateBatch accounts workers turns).Binds
        (r.Frees (.migrateBatch accounts workers turns) t st.1) st.2 := by
      intro st hst
      refine Tables.moves_of_grows_shrinks hgrown.grows (hst.shrinks.mono fun u hu => ?_)
      exact .inr ⟨trivial, (Tables.tombstoned_congr hgrown.tombstones u).mp hu.1, hu.2⟩
    refine Script.within_bind (Script.Within.mono hsweep fun o st hst => ?_)
    match o with
    | none => exact hmoves st hst
    | some (.ok swept) => exact hmoves st hst
    | some (.error e) => exact hmoves st hst

/-- A call other than a delete only binds logins. -/
theorem keeps_perform_grown {call : Call} (hcall : ∀ u, ¬ (Job.call call).Deletes u) :
    (r.perform call).Keeps (r.recorded x) (Grown (Job.call call).Binds t) := by
  cases call with
  | create a version =>
    have hbinds : (Job.call (.create a version)).Binds a.login a.uuid :=
      ⟨a, List.mem_singleton_self a, rfl, rfl⟩
    exact .map (keeps_create_of_claim hr indifferent_grown (keeps_logins_claim hr hbinds) version) _
  | update a => exact .map (.timed (keeps_accounts_update hr indifferent_grown a) _) _
  | delete u version => exact absurd rfl (hcall u)
  | deleteWith u options => exact absurd rfl (hcall u)
  | getByUuid u => exact .map (.timed (keeps_accounts_get hr indifferent_grown u) _) _
  | getByLogin login =>
    refine .map (.timed (.bind (keeps_logins_get hr login) fun owner => ?_) _) _
    match owner with
    | none => exact .pure none
    | some u => exact keeps_accounts_get hr indifferent_grown u
  | directoryVersion =>
    have hget : Action.Keeps (r.recorded x) (Grown (Job.call .directoryVersion).Binds t)
        (Action.ofStore (Script.get { table := r.counter.table, key := Row.versionKey })) :=
      .ofStore (keeps_send hr indifferent_grown (i := .misc) rfl nofun nofun)
    refine .map (.bind hget fun found => ?_) _
    match found with
    | none => exact .pure none
    | some row => exact .bind (.ofExcept _) fun version => .pure (some version)

/-- Whatever the tables hold and whatever befalls its requests, a job moves no login
    from one account to another. -/
theorem within_work (ht : t.Keyed) {job : Job}
    (hjob : ∀ source max turns, job ≠ .redrive source max turns) :
    (r.work job).Within (r.recorded x)
      (fun _ st => t.Moves job.Binds (r.Frees job t st.1) st.2) ([], t) := by
  cases job with
  | call call =>
    by_cases hdelete : ∃ u, (Job.call call).Deletes u
    · obtain ⟨u, hu⟩ := hdelete
      refine within_work_of_shrinks hu (Script.Keeps.discard ?_)
      cases call with
      | delete v version =>
        obtain rfl : v = u := hu
        exact Action.Keeps.map (keeps_deleteWith_shrinks hr v (.steady version)) _
      | deleteWith v options =>
        obtain rfl : v = u := hu
        exact Action.Keeps.map (keeps_deleteWith_shrinks hr v options) _
      | create | update | getByUuid | getByLogin | directoryVersion => exact hu.elim
    · exact within_work_of_grown ht
        (Script.Keeps.discard (keeps_perform_grown hr fun u hu => hdelete ⟨u, hu⟩))
  | reconcile =>
    have hswept : r.Swept t ([], t) := ⟨ht .tombstones, fun _ => id, .refl t⟩
    have hsweep := (keeps_reconcile_swept hr (x := x)).discard ([], t) hswept
    refine Script.Within.mono hsweep fun _ st hst => ?_
    refine Tables.moves_of_grows_shrinks (.refl t) (hst.shrinks.mono fun u hu => ?_)
    exact .inr ⟨trivial, hu.1, hu.2⟩
  | migrate a turns =>
    have hbinds : (Job.migrate a turns).Binds a.login a.uuid :=
      ⟨a, List.mem_singleton_self a, rfl, rfl⟩
    exact within_work_of_grown ht (asks_migrate (asksFor_grown hr hbinds) turns).keeps.discard
  | migrateBatch accounts workers turns =>
    refine Script.within_bind (Script.Within.mono
      (within_migrateBatch hr ht accounts workers turns) ?_)
    intro o st hst
    cases o <;> exact hst
  | redrive source max turns => exact absurd rfl (hjob source max turns)

end valid

/-- A login binding never moves silently.  On any tables whose rows hold their own keys,
    whether or not they agree, and on every schedule of failures, refusals and panics, a
    job other than a re-drive leaves each login that stays bound with its account.  It
    frees logins of an account only if it is to delete the account, or if it sweeps and
    has processed the account's tombstone, and it binds a login to an account only if it
    is to create or migrate an account with this login and id. -/
theorem logins_never_move {config : Config} {r : Registry} (h : ofConfig config = .ok r)
    {t : Tables} (ht : t.Keyed) {job : Job}
    (hjob : ∀ source max turns, job ≠ .redrive source max turns) (schedule : Schedule) :
    let run := (r.work job).run (Schedule.handler fun _ _ => true).recorded
      ([], schedule, config.tables.database t)
    ∃ t', run.state.2.2 = config.tables.database t' ∧
      t.Moves job.Binds (r.Frees job t run.state.1) t' := by
  obtain ⟨rfl, hr⟩ := name_injective_of_ofConfig h
  intro run
  obtain ⟨⟨made, t'⟩, ⟨hmade, hstate⟩, hmoves⟩ := Script.run_of_within
    (TableNames.obeys_schedule hr fun _ _ => true).recorded (within_work hr ht hjob)
    (x := ([], schedule, r.config.tables.database t)) ⟨rfl, rfl⟩
  refine ⟨t', hstate, ?_⟩
  have hrun : run.state.1 = made := hmade
  rw [hrun]
  exact hmoves

/-- A batch on tables that do not agree: a login is bound to an account that has a
    tombstone and no row.  The first worker panics, and the second is told of a refusal
    that the database did not make. -/
theorem logins_never_move_default :
    let u : Uuid := ⟨.replicate 16 1, rfl⟩
    let a : Account := ⟨⟨.replicate 16 2, rfl⟩, "+2", 1, {}⟩
    let t := (Tables.empty.bindLogin "+1" u).bury u
    let job := Job.migrateBatch [a] 1
    let schedule : Schedule := [some .panic, none, some (.failure (.conditionFailed "" none))]
    Registry.ofConfig {} = .ok ⟨{}⟩ ∧ t.Keyed ∧
      (∀ source max turns, job ≠ .redrive source max turns) ∧
      let run := ((⟨{}⟩ : Registry).work job).run (Schedule.handler fun _ _ => true).recorded
        ([], schedule, ({} : Config).tables.database t)
      ∃ t', run.state.2.2 = ({} : Config).tables.database t' ∧
        t.Moves job.Binds (Frees ⟨{}⟩ job t run.state.1) t' := by
  intro u a t job schedule
  have hconfig : Registry.ofConfig {} = .ok ⟨{}⟩ := rfl
  have hempty : ∀ i, Tables.empty.KeyedAt i := by
    intro i key row hrow
    rw [Tables.empty, SortedMap.get?_empty] at hrow
    cases hrow
  have hkeyed : t.Keyed := by
    intro i
    cases i with
    | logins => exact (hempty .logins).bindLogin
    | tombstones => exact (hempty .tombstones).bury
    | accounts | misc | retries => exact hempty _
  have hjob : ∀ source max turns, job ≠ .redrive source max turns := fun _ _ _ => nofun
  exact ⟨hconfig, hkeyed, hjob, logins_never_move hconfig hkeyed hjob schedule⟩

end Registry

end LoginRegistry
