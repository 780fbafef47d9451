import LoginRegistry.Proofs.Migration.Sweeping
import LoginRegistry.Proofs.Registry.Operations
import LoginRegistry.Proofs.Registry.Runs

/-! # Logins are backed by rows

    A login row never points at a missing account, whatever fails and wherever an
    operation is cut off (`logins_backed`).  What makes it so is the order of the
    writes: a create binds a login only after it has written the row, and a removal
    takes the row only after the login is free.

    The other half does not hold: a create that is cut off leaves a row without its
    login, and two rows may then have one login.
-/

namespace LoginRegistry

open Store (Operation)

namespace Contents

/-- Every login is backed by a row of its owner that has the login. -/
def Backed (c : Contents) : Prop :=
  ∀ login u, c.logins.get? login = some u → ∃ a, c.accounts.get? u = some a ∧ a.login = login

theorem backed_empty : ({} : Contents).Backed := by
  intro login u h
  cases h

namespace Backed

variable {c : Contents}

/-! ### Writes to accounts -/

/-- A row may be written over one that has the same login. -/
theorem putAccount (h : c.Backed) {a : Account} (hadmits : c.Admits a) :
    (c.putAccount a).Backed := by
  intro login u hu
  obtain ⟨b, hb, hlogin⟩ := h login u hu
  by_cases heq : u = a.uuid
  · -- The row that backed the login is replaced by one with the same login.
    subst heq
    exact ⟨a, AccountMap.get?_put_self _ _, (hadmits b hb).symm.trans hlogin⟩
  · exact ⟨b, (AccountMap.get?_put_ne _ heq).trans hb, hlogin⟩

theorem revise (h : c.Backed) {a b : Account} (hb : c.accounts.get? b.uuid = some b) :
    (c.putAccount (b.revised a)).Backed := by
  refine h.putAccount fun b' hb' => ?_
  obtain rfl : b = b' := Option.some.inj (hb.symm.trans hb')
  rfl

/-- A row may be removed once no login points at it. -/
theorem eraseAccount (h : c.Backed) {u : Uuid} (hfree : ∀ login, c.logins.get? login ≠ some u) :
    (c.eraseAccount u).Backed := by
  intro login v hv
  obtain ⟨b, hb, hlogin⟩ := h login v hv
  have hne : v ≠ u := by
    rintro rfl
    exact hfree login hv
  exact ⟨b, (AccountMap.get?_erase_ne _ hne).trans hb, hlogin⟩

/-! ### Writes to logins -/

/-- A login may be bound to an account whose row has it. -/
theorem bindLogin (h : c.Backed) {a : Account} (ha : c.accounts.get? a.uuid = some a) :
    (c.bindLogin a.login a.uuid).Backed := by
  intro login u hu
  rw [bindLogin_logins, SortedMap.get?_insert_eq] at hu
  split at hu
  · next heq =>
    obtain rfl := Option.some.inj hu
    exact ⟨a, ha, heq.symm⟩
  · exact h login u hu

theorem release (h : c.Backed) (login : String) (u : Uuid) : (c.release login u).Backed := by
  intro l v hv
  rw [release_accounts]
  exact h l v (get?_release_eq_some_iff c login u |>.mp hv).1

/-- After the login of a row is released, no login points at the row. -/
theorem free_of_release (h : c.Backed) {u : Uuid} {a : Account} (ha : c.accounts.get? u = some a)
    (login : String) : (c.release a.login u).logins.get? login ≠ some u := by
  intro hu
  obtain ⟨hbound, hnot⟩ := (get?_release_eq_some_iff c a.login u).mp hu
  obtain ⟨b, hb, hlogin⟩ := h login u hbound
  obtain rfl : a = b := Option.some.inj (ha.symm.trans hb)
  exact hnot ⟨hlogin.symm, rfl⟩

/-! ### Operations -/

/-- While a login is another's, no login points at the row that lost it. -/
theorem free_of_owned (h : c.Backed) {a : Account} {v : Uuid} (hadmits : c.Admits a)
    (hv : c.logins.get? a.login = some v) (hne : v ≠ a.uuid) (login : String) :
    c.logins.get? login ≠ some a.uuid := by
  intro hu
  obtain ⟨b, hb, hlogin⟩ := h login a.uuid hu
  rw [← hlogin, hadmits b hb, hv] at hu
  exact hne (Option.some.inj hu)

/-- A create can be cut off at any stage. -/
theorem createStage (h : c.Backed) {a : Account} {c' : Contents} (hstage : CreateStage c a c') :
    c'.Backed := by
  cases hstage with
  | start => exact h
  | stored hadmits => exact h.putAccount hadmits
  | bound hadmits _ => exact (h.putAccount hadmits).bindLogin (AccountMap.get?_put_self _ _)
  | withdrawn hadmits hv hne =>
    exact (h.putAccount hadmits).eraseAccount (h.free_of_owned hadmits hv hne)

/-- A removal can be cut off at any stage. -/
theorem removeStage (h : c.Backed) {u : Uuid} {c' : Contents} (hstage : RemoveStage c u c') :
    c'.Backed := by
  cases hstage with
  | start => exact h
  | released _ => exact h.release _ u
  | removed ha => exact (h.release _ u).eraseAccount (h.free_of_release ha)

theorem releaseRecorded (h : c.Backed) (u : Uuid) : (c.releaseRecorded u).Backed := by
  unfold Contents.releaseRecorded
  split
  · exact h.release _ u
  · exact h

end Backed

/-- Logins stay backed at every stage of every operation. -/
theorem steady_backed : Steady (fun _ => True) Backed where
  create h _ := h.createStage
  revise h := h.revise
  remove h := h.removeStage
  releaseRecorded u h := h.releaseRecorded u
  setVersion _ := id
  withTombstones _ := id

end Contents

namespace Registry

variable {r : Registry} {exposed : Operation → String → Bool} {c : Contents}

section valid

variable (hr : Function.Injective r.config.tables.name)

include hr

/-- A create never finds the owner of a login missing. -/
theorem leads_create_of_backed (hc : c.Backed) (a : Account) (version : Int64) :
    r.Leads exposed (r.create a version) c (fun _ _ => True)
      fun o _ => ∀ login, o ≠ some (.loginOwnerMissing login) := by
  refine leads_create hr ?_ ?_ ?_ ?_ ?_
  · intro _ _ _
    exact nofun
  · intro _ _
    exact trivial
  · intro _ _ _ _ _ _
    exact trivial
  · -- The owner of a bound login has a row.
    intro _ v hv _ hnone
    obtain ⟨b, hb, -⟩ := hc _ v hv
    rw [hnone] at hb
    cases hb
  · intro _ _ _ o ho _ _ login
    cases ho <;> exact nofun

/-- A login is answered with no account or with one that has it. -/
theorem leads_getByLogin_of_backed (hc : c.Backed) (login : String) :
    r.Leads exposed (r.getByLogin login) c
      (fun found _ => ∀ a, found = some a → a.login = login) fun _ _ => True := by
  refine leads_getByLogin hr ?_ fun _ _ _ _ _ => trivial
  intro a ha
  obtain ⟨u, hu, ha⟩ := Option.bind_eq_some_iff.mp ha
  obtain ⟨b, hb, hlogin⟩ := hc login u hu
  rw [Option.some.inj (ha.symm.trans hb), hlogin]

theorem ends_work_backed (hc : c.Backed) {job : Job} (hjob : job.isSteady = true) :
    r.Ends exposed (r.work job) c fun _ c' => c'.Backed :=
  ends_work_steady hr (upholds_of_steady hr Contents.steady_backed) hc hjob

end valid

/-- After any run of calls and sweeps from a fresh registry, with any request failing
    or panicking and any part of a drain held back, every login points at a row that
    has it.  So whatever fails next, a create finds the owner of its login, and a
    lookup by login answers no account or one that has the login. -/
theorem logins_backed {config : Config} {r : Registry} (h : ofConfig config = .ok r)
    {jobs : List Job} (hjobs : ∀ job ∈ jobs, job.isSteady = true) (schedule : Schedule) :
    let handler := Schedule.handler (.genuine fun _ _ => true)
    ∃ c, (r.after (.genuine fun _ _ => true) jobs
          (schedule, (Testbed.ofTables config.tables).database)).2 = r.store c ∧
      c.Backed ∧
      (∀ rest a version login,
        ((r.create a version).run.run handler (rest, r.store c)).result
          ≠ some (.error (.loginOwnerMissing login))) ∧
      ∀ rest login a, ((r.getByLogin login).run.run handler (rest, r.store c)).result
        = some (.ok (some a)) → a.login = login := by
  obtain ⟨rfl, hr⟩ := name_injective_of_ofConfig h
  rw [store_empty hr]
  obtain ⟨c, hstate, hc⟩ := after_invariant
    (fun job hjob c hc => ends_work_backed hr hc (hjobs job hjob)) Contents.backed_empty schedule
  refine ⟨c, hstate, hc, ?_, ?_⟩
  · intro rest a version login heq
    obtain ⟨c', -, hresult⟩ := (leads_create_of_backed hr hc a version).run rest
    rw [heq] at hresult
    exact hresult login rfl
  · intro rest login a heq
    obtain ⟨c', -, hresult⟩ := (leads_getByLogin_of_backed hr hc login).run rest
    rw [heq] at hresult
    exact hresult a rfl

/-- A create that fails at its login, and a sweep that finds nothing. -/
theorem logins_backed_default :
    Registry.ofConfig {} = .ok ⟨{}⟩ ∧
      (∀ job ∈ [Job.call (.create ⟨⟨.replicate 16 1, rfl⟩, "+1", 0, {}⟩ 1), .reconcile],
        job.isSteady = true) ∧
      ∃ c, ((⟨{}⟩ : Registry).after (.genuine fun _ _ => true)
          [.call (.create ⟨⟨.replicate 16 1, rfl⟩, "+1", 0, {}⟩ 1), .reconcile]
          ([none, some (.failure (.throttled "accounts_logins"))],
            (Testbed.ofTables ({} : Config).tables).database)).2 = (⟨{}⟩ : Registry).store c ∧
        c.Backed := by
  have hjobs : ∀ job ∈ [Job.call (.create ⟨⟨.replicate 16 1, rfl⟩, "+1", 0, {}⟩ 1), .reconcile],
      job.isSteady = true := by
    simp [Job.isSteady]
  have hconfig : Registry.ofConfig {} = .ok ⟨{}⟩ := rfl
  obtain ⟨c, hstate, hc, -⟩ := logins_backed hconfig hjobs
    [none, some (.failure (.throttled "accounts_logins"))]
  exact ⟨hconfig, hjobs, c, hstate, hc⟩

end Registry

end LoginRegistry
