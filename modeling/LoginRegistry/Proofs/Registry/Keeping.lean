import LoginRegistry.Proofs.Registry.Operations
import LoginRegistry.Proofs.Registry.Runs

/-! # What operations keep

    A property of the contents is steady if it outlives every stage at which an
    operation can be cut off.  A steady property is upheld by the operations, whatever
    befalls their requests (`upholds_of_steady`), and what the operations that write
    uphold is kept by every call (`keeps_perform`).
-/

namespace LoginRegistry

open Store (Operation)

/-- A property of contents that outlives every stage of the operations, as long as only
    admitted accounts are created. -/
structure Steady (admitted : Account → Prop) (I : Contents → Prop) : Prop where
  /-- A create may be cut off. -/
  create : ∀ {c c' : Contents} {a : Account}, I c → admitted a → CreateStage c a c' → I c'
  /-- A row may get another payload and version. -/
  revise : ∀ {c : Contents} {a b : Account}, I c → c.accounts.get? b.uuid = some b →
    I (c.putAccount (b.revised a))
  /-- The removal of an account may be cut off. -/
  remove : ∀ {c c' : Contents} {u : Uuid}, I c → RemoveStage c u c' → I c'
  /-- The login of an account without a row may be released. -/
  releaseRecorded : ∀ {c : Contents} (u : Uuid), I c → I (c.releaseRecorded u)
  /-- The directory version does not matter. -/
  setVersion : ∀ {c : Contents} (version : Int64), I c → I (c.setVersion version)
  /-- The tombstones do not matter. -/
  withTombstones : ∀ {c : Contents} (tombstones : SortedMap Uuid Unit), I c →
    I (c.withTombstones tombstones)

theorem steady_true (admitted : Account → Prop) : Steady admitted fun _ => True := by
  constructor <;> intros <;> trivial

/-- The call creates no account but an admitted one. -/
def Call.IsAdmitted (admitted : Account → Prop) : Call → Prop
  | .create a _ => admitted a
  | _ => True

namespace Registry

/-! ### Actions that keep a property -/

/-- Whatever befalls its exposed requests, the action keeps a property of the contents. -/
def Keeps (r : Registry) (exposed : Operation → String → Bool) (I : Contents → Prop)
    (a : Action α) : Prop :=
  ∀ c, I c → r.Leads exposed a c (fun _ c' => I c') fun _ c' => I c'

variable {r : Registry} {exposed : Operation → String → Bool} {I : Contents → Prop}

theorem Keeps.pure (v : α) : r.Keeps exposed I (pure v : Action α) :=
  fun _ hc => leads_pure hc

theorem Keeps.bind {a : Action α} {f : α → Action β} (ha : r.Keeps exposed I a)
    (hf : ∀ v, r.Keeps exposed I (f v)) : r.Keeps exposed I (a >>= f) :=
  fun c hc => leads_bind (Leads.mono (ha c hc) (fun v c' hc' => hf v c' hc') fun _ _ => id)

theorem Keeps.map {a : Action α} (ha : r.Keeps exposed I a) (f : α → β) :
    r.Keeps exposed I (f <$> a) :=
  fun c hc => leads_map (ha c hc)

theorem Keeps.forM {f : α → Action PUnit} (hf : ∀ a, r.Keeps exposed I (f a)) (l : List α) :
    r.Keeps exposed I (l.forM f) := by
  induction l with
  | nil => exact .pure ()
  | cons a l ih => exact .bind (hf a) fun _ => ih

/-- However an action ends, what it keeps holds. -/
theorem Keeps.ends {a : Action α} (ha : r.Keeps exposed I a) {c : Contents} (hc : I c) :
    r.Ends exposed a.run c fun _ c' => I c' := by
  refine Ends.mono (ha c hc) fun o c' hc' => ?_
  match o with
  | some (.ok v) => exact hc'
  | some (.error e) => exact hc'
  | none => exact hc'

/-- The operations that write keep the property, as long as only admitted accounts are
    created. -/
structure Upholds (r : Registry) (exposed : Operation → String → Bool)
    (admitted : Account → Prop) (I : Contents → Prop) : Prop where
  /-- Creates keep it. -/
  create : ∀ {a : Account}, admitted a → ∀ version, r.Keeps exposed I (r.create a version)
  /-- Updates keep it. -/
  update : ∀ a, r.Keeps exposed I (r.update a)
  /-- Deletes keep it. -/
  deleteWith : ∀ u options, r.Keeps exposed I (r.deleteWith u options)
  /-- The tombstones do not matter. -/
  withTombstones : ∀ {c : Contents} (tombstones : SortedMap Uuid Unit), I c →
    I (c.withTombstones tombstones)

/-! ### Operations -/

section steady

variable (hr : Function.Injective r.config.tables.name) {admitted : Account → Prop}
  (hI : Steady admitted I)

include hr hI

theorem keeps_create {a : Account} (ha : admitted a) (version : Int64) :
    r.Keeps exposed I (r.create a version) := by
  intro c hc
  refine leads_create hr ?_ ?_ ?_ ?_ ?_
  · intro _ _ _
    exact hc
  · intro hadmits hfree
    exact hI.setVersion _ (hI.create hc ha (.bound hadmits hfree))
  · -- The row of the owner is not the one that was withdrawn.
    intro hadmits v hv hne b hb
    refine hI.revise (hI.create hc ha (.withdrawn hadmits hv hne)) ?_
    rw [AccountMap.uuid_eq hb, Contents.eraseAccount_accounts, AccountMap.get?_erase_ne _ hne,
      Contents.putAccount_accounts, AccountMap.get?_put_ne _ hne, hb]
  · intro hadmits v hv hne _
    exact hI.create hc ha (.withdrawn hadmits hv hne)
  · intro _ _ _ _ _ c' hstage
    exact hI.create hc ha hstage

theorem keeps_update (a : Account) : r.Keeps exposed I (r.update a) := by
  refine fun c hc => leads_timed (leads_accounts_update hr ?_ (fun _ => hc) fun _ _ _ => hc)
  intro b hb
  exact hI.revise hc (by rwa [AccountMap.uuid_eq hb])

/-- A delete keeps a steady property.  Once it is done, the login is released and the
    row is gone; otherwise it was spoiled. -/
theorem leads_deleteWith_of_steady {u : Uuid} (options : DeleteOptions) {c : Contents} (hc : I c)
    {P : Contents → Prop}
    (hgone : ∀ start, I start → start.accounts.get? u = none → P (start.releaseRecorded u))
    (hremoved : ∀ start a, I start → start.accounts.get? u = some a →
      P ((start.release a.login u).eraseAccount u))
    (hversion : ∀ c' version, P c' → P (c'.setVersion version)) :
    r.Leads exposed (r.deleteWith u options) c (fun _ c' => I c' ∧ P c')
      fun _ c' => (∃ operation table, exposed operation table = true) ∧ I c' := by
  obtain ⟨start, hstart⟩ : ∃ start, start = if options.tombstone then c.bury u else c := ⟨_, rfl⟩
  have hburied : I start := by
    rw [hstart]
    split
    · exact hI.withTombstones _ hc
    · exact hc
  -- From here on the tombstone does not matter.
  refine leads_deleteWith hr hstart ?_ ?_ ?_ ?_
  · exact fun hrow => ⟨hI.releaseRecorded u hburied, hgone start hburied hrow⟩
  · intro a ha
    have hkept := hI.remove hburied (.removed ha)
    have hdone := hremoved start a hburied ha
    cases options.version with
    | none => exact ⟨hkept, hdone⟩
    | some version => exact ⟨hI.setVersion version hkept, hversion _ version hdone⟩
  · intro _ _ hx _ _
    exact ⟨⟨_, _, hx⟩, hc⟩
  · intro _ _ hx _ _ _ hstage
    exact ⟨⟨_, _, hx⟩, hI.remove hburied hstage⟩

theorem keeps_deleteWith (u : Uuid) (options : DeleteOptions) :
    r.Keeps exposed I (r.deleteWith u options) := by
  refine fun c hc => Leads.mono (leads_deleteWith_of_steady hr hI options hc (P := fun _ => True)
    ?_ ?_ ?_) (fun _ _ => And.left) fun _ _ => And.right
  · intro _ _ _
    exact trivial
  · intro _ _ _ _
    exact trivial
  · intro _ _ _
    exact trivial

/-- A steady property is upheld, whatever befalls the requests. -/
theorem upholds_of_steady : r.Upholds exposed admitted I where
  create ha version := keeps_create hr hI ha version
  update a := keeps_update hr hI a
  deleteWith u options := keeps_deleteWith hr hI u options
  withTombstones := hI.withTombstones

end steady

/-! ### Calls -/

section upheld

variable (hr : Function.Injective r.config.tables.name) {admitted : Account → Prop}
  (hI : r.Upholds exposed admitted I)

include hr

theorem keeps_getByLogin (login : String) : r.Keeps exposed I (r.getByLogin login) :=
  fun _ hc => leads_getByLogin hr hc fun _ _ _ _ _ => hc

theorem keeps_getByUuid (u : Uuid) : r.Keeps exposed I (r.getByUuid u) :=
  fun _ hc => leads_timed (leads_accounts_get hr hc fun _ _ _ => hc)

theorem keeps_directoryVersion : r.Keeps exposed I r.directoryVersion :=
  fun _ hc => leads_counter_get hr hc fun _ _ _ => hc

include hI

/-- Every call of an operation keeps what the operations uphold. -/
theorem keeps_perform {call : Call} (hcall : call.IsAdmitted admitted) :
    r.Keeps exposed I (r.perform call) := by
  cases call with
  | create a version => exact (hI.create hcall version).map _
  | update a => exact (hI.update a).map _
  | delete u version => exact (hI.deleteWith u _).map _
  | deleteWith u options => exact (hI.deleteWith u options).map _
  | getByUuid u => exact (keeps_getByUuid hr u).map _
  | getByLogin login => exact (keeps_getByLogin hr login).map _
  | directoryVersion => exact (keeps_directoryVersion hr).map _

theorem ends_work_call {call : Call} (hcall : call.IsAdmitted admitted) {c : Contents} (hc : I c) :
    r.Ends exposed (r.work (.call call)) c fun _ c' => I c' := by
  refine ends_discard (Ends.mono ((keeps_perform hr hI hcall).ends hc) fun o c' hc' => ?_)
  cases o <;> exact hc'

end upheld

end Registry

end LoginRegistry
