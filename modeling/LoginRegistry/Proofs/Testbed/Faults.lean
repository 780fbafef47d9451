import LoginRegistry.Proofs.SortedMap
import LoginRegistry.Testbed.Basic
import Mathlib.Data.List.Basic

/-! # Faults strike exactly

    A fault plan fails the requests that it is told to fail and no others, and to all others it
    cannot be told from the database behind it.

    * `Meets`: the fault that a request meets.  The table decides first, the order of arming
      second.
    * `fares_respond`: a request is failed by the fault that it meets, or it is answered by the
      database.
    * `faults_foldl`: which faults are armed after some steps, and what they have left.
    * `deliveries_le`: a fault strikes no more often than it was armed for.
    * `run_eq_of_unarmed`: with no fault armed every script runs as on the database.
    * `faults_exact`: all of these, for every history of the plan.
-/

namespace LoginRegistry.Testbed

open Store (Database Operation Request)

/-! ### The fault that a request meets -/

/-- The fault is armed for the operation on the table, and it has deliveries left. -/
structure Fault.Strikes (f : Fault) (operation : Operation) (table : String) : Prop where
  operation : f.operation = operation
  table : f.table = none ∨ f.table = some table
  left : f.remaining ≠ some 0

/-- The request meets the fault at an index: no fault strikes a table of the request that comes
    before the table by name, and on the table no fault strikes that was armed earlier. -/
structure Meets (faults : List Fault) (request : Request) (table : String) (i : Nat) (f : Fault) :
    Prop where
  armed : faults[i]? = some f
  strikes : f.Strikes request.operation table
  earliest : ∀ j g, j < i → faults[j]? = some g → ¬ g.Strikes request.operation table
  named : table ∈ request.tables
  first : ∀ t ∈ request.tables, compare t table = .lt →
    ∀ g ∈ faults, ¬ g.Strikes request.operation t

/-- The index of the first fault that strikes the first table that is struck at all. -/
def due? (faults : List Fault) (operation : Operation) (tables : List String) : Option Nat :=
  tables.findSome? fun table => faults.findIdx? (·.hits operation table)

/-- How many tables are looked at, up to the first one that is struck. -/
def asked (faults : List Fault) (operation : Operation) : List String → Nat
  | [] => 0
  | table :: tables =>
    if faults.any (·.hits operation table) then 1 else asked faults operation tables + 1

theorem Fault.hits_iff {f : Fault} {operation : Operation} {table : String} :
    f.hits operation table = true ↔ f.Strikes operation table := by
  have htable : f.table.all (· == table) = true ↔ f.table = none ∨ f.table = some table := by
    cases f.table <;> simp
  simp only [hits, Bool.and_eq_true, beq_iff_eq, bne_iff_ne, htable]
  exact ⟨fun ⟨⟨h₁, h₂⟩, h₃⟩ => ⟨h₁, h₂, h₃⟩, fun ⟨h₁, h₂, h₃⟩ => ⟨⟨h₁, h₂⟩, h₃⟩⟩

/-- The tables of a request are in the order of their names. -/
theorem pairwise_tables (request : Request) :
    request.tables.Pairwise fun s t => compare s t = .lt := by
  cases request with
  | bulkWrite w => exact List.pairwise_map.mpr w.sorted
  | _ => exact List.pairwise_singleton _ _

/-- The tables that stand before a table of a request are those that come before it by name. -/
theorem mem_before_iff {request : Request} {before after : List String} {table t : String}
    (h : request.tables = before ++ table :: after) :
    t ∈ before ↔ t ∈ request.tables ∧ compare t table = .lt := by
  have hsorted := pairwise_tables request
  rw [h] at hsorted ⊢
  obtain ⟨-, htail, hbefore⟩ := List.pairwise_append.mp hsorted
  constructor
  · intro ht
    exact ⟨List.mem_append_left _ ht, hbefore t ht table List.mem_cons_self⟩
  · rintro ⟨ht, hlt⟩
    refine (List.mem_append.mp ht).resolve_right fun hafter => ?_
    rcases List.mem_cons.mp hafter with rfl | hafter
    · rw [SortedMap.compare_rfl] at hlt
      cases hlt
    · have hswap : compare table t = (compare t table).swap := Std.OrientedCmp.eq_swap
      rw [List.rel_of_pairwise_cons htail hafter, hlt] at hswap
      cases hswap

section due

variable {faults : List Fault} {operation : Operation} {request : Request} {tables : List String}

theorem findIdx?_hits_eq_none_iff {table : String} :
    faults.findIdx? (·.hits operation table) = none
      ↔ ∀ f ∈ faults, ¬ f.Strikes operation table := by
  simp only [List.findIdx?_eq_none_iff, ← Fault.hits_iff, Bool.not_eq_true]

theorem due?_eq_none_iff :
    due? faults operation tables = none
      ↔ ∀ table ∈ tables, ∀ f ∈ faults, ¬ f.Strikes operation table := by
  simp only [due?, List.findSome?_eq_none_iff, findIdx?_hits_eq_none_iff]

/-- The fault that is due is the one that the request meets. -/
theorem due?_eq_some_iff {i : Nat} :
    due? faults request.operation request.tables = some i ↔ ∃ table f,
      Meets faults request table i f := by
  rw [due?, List.findSome?_eq_some_iff]
  constructor
  · rintro ⟨before, table, after, htables, hindex, hbefore⟩
    obtain ⟨hi, hhit, hearlier⟩ := List.findIdx?_eq_some_iff_getElem.mp hindex
    refine ⟨table, faults[i], List.getElem?_eq_getElem hi, Fault.hits_iff.mp hhit, ?_, ?_, ?_⟩
    · intro j g hj hg hstrikes
      obtain ⟨hlt, rfl⟩ := List.getElem?_eq_some_iff.mp hg
      exact hearlier j hj (Fault.hits_iff.mpr hstrikes)
    · simp [htables]
    · intro t ht hlt
      exact findIdx?_hits_eq_none_iff.mp (hbefore t ((mem_before_iff htables).mpr ⟨ht, hlt⟩))
  · rintro ⟨table, f, hmeets⟩
    obtain ⟨before, after, htables⟩ := List.append_of_mem hmeets.named
    refine ⟨before, table, after, htables, ?_, fun t ht => ?_⟩
    · obtain ⟨hi, rfl⟩ := List.getElem?_eq_some_iff.mp hmeets.armed
      refine List.findIdx?_eq_some_iff_getElem.mpr ⟨hi, Fault.hits_iff.mpr hmeets.strikes, ?_⟩
      intro j hj hhit
      exact hmeets.earliest j _ hj (List.getElem?_eq_getElem _) (Fault.hits_iff.mp hhit)
    · obtain ⟨hmem, hlt⟩ := (mem_before_iff htables).mp ht
      exact findIdx?_hits_eq_none_iff.mpr (hmeets.first t hmem hlt)

end due

/-! ### Answering a request -/

namespace FaultPlan

/-- The plan with an operation logged a number of times. -/
def logged (p : FaultPlan) (operation : Operation) (count : Nat) : FaultPlan :=
  { p with log := List.replicate count operation ++ p.log }

variable {p : FaultPlan} {operation : Operation} {tables : List String}

theorem deliver?_eq (operation : Operation) (table : String) (faults : List Fault) :
    Fault.deliver? operation table faults
      = (faults.findIdx? (·.hits operation table)).bind fun i =>
          faults[i]?.map fun f => (f.error, faults.set i f.spend) := by
  induction faults with
  | nil => rfl
  | cons f faults ih =>
    rw [Fault.deliver?, List.findIdx?_cons]
    by_cases hhit : f.hits operation table
    · simp [hhit]
    · simp only [hhit, Bool.false_eq_true, if_false, ih]
      cases faults.findIdx? (·.hits operation table) with
      | none => rfl
      | some i => cases h : faults[i]? <;> simp [h]

theorem logged_cons (p : FaultPlan) (operation : Operation) (count : Nat) :
    ({ p with log := operation :: p.log } : FaultPlan).logged operation count
      = p.logged operation (count + 1) := by
  simp only [logged, List.replicate_succ', List.append_assoc, List.singleton_append]

theorem interceptAll_of_due?_eq_none (h : due? p.faults operation tables = none) :
    p.interceptAll operation tables
      = (none, p.logged operation (asked p.faults operation tables)) := by
  induction tables generalizing p with
  | nil => rfl
  | cons table tables ih =>
    obtain ⟨htable, htables⟩ := List.forall_mem_cons.mp (due?_eq_none_iff.mp h)
    have hindex := findIdx?_hits_eq_none_iff.mpr htable
    have hany : p.faults.any (·.hits operation table) = false := by
      simpa [← Fault.hits_iff] using htable
    have hrest := ih (p := { p with log := operation :: p.log }) (due?_eq_none_iff.mpr htables)
    simp only [interceptAll, intercept, deliver?_eq, hindex, Option.bind_none, asked, hany,
      Bool.false_eq_true, if_false]
    rw [hrest, logged_cons]

/-- Interception ends with the fault that is due. -/
theorem interceptAll_of_due?_eq_some {i : Nat} (h : due? p.faults operation tables = some i) :
    ∃ f, p.faults[i]? = some f ∧ p.interceptAll operation tables
      = (some f.error, { p.logged operation (asked p.faults operation tables) with
          faults := p.faults.set i f.spend }) := by
  induction tables generalizing p with
  | nil => cases h
  | cons table tables ih =>
    rw [due?, List.findSome?_cons] at h
    simp only [interceptAll, intercept, deliver?_eq, asked]
    cases hindex : p.faults.findIdx? (·.hits operation table) with
    | some j =>
      rw [hindex] at h
      obtain rfl : j = i := Option.some.inj h
      obtain ⟨hj, hhit, -⟩ := List.findIdx?_eq_some_iff_getElem.mp hindex
      have hany : p.faults.any (·.hits operation table) = true :=
        List.any_eq_true.mpr ⟨_, List.getElem_mem hj, hhit⟩
      refine ⟨p.faults[j], List.getElem?_eq_getElem hj, ?_⟩
      simp [hj, hany, logged]
    | none =>
      rw [hindex] at h
      have hany : p.faults.any (·.hits operation table) = false := by
        simpa [← Fault.hits_iff] using findIdx?_hits_eq_none_iff.mp hindex
      obtain ⟨f, hf, hrest⟩ := ih (p := { p with log := operation :: p.log }) h
      refine ⟨f, hf, ?_⟩
      simp only [Option.bind_none, hany, Bool.false_eq_true, if_false]
      rw [hrest, logged_cons]

/-! ### Passing it on -/

variable {σ : Type} {h : Handler σ} {request : Request} {x : σ}

/-- Passing a request on leaves the armed faults and the log. -/
theorem forward_leaves (p : FaultPlan) (request : Request) (x : σ) :
    (forward h request (p, x)).2.1.faults = p.faults ∧
      (forward h request (p, x)).2.1.log = p.log := by
  cases request with
  | bulkWrite w =>
    simp only [forward]
    split <;> exact ⟨rfl, rfl⟩
  | _ => exact ⟨rfl, rfl⟩

/-- Without rounds to be left unprocessed a request is passed on as it is. -/
theorem forward_of_rounds_eq_zero (hrounds : p.unprocessedRounds = 0) (request : Request) (x : σ) :
    (forward h request (p, x)).1 = (h.respond request x).1 ∧
      (forward h request (p, x)).2.2 = (h.respond request x).2 ∧
      (forward h request (p, x)).2.1.unprocessedRounds = 0 := by
  cases request with
  | bulkWrite w =>
    simp [forward, hrounds]
  | _ => exact ⟨rfl, rfl, hrounds⟩

/-- No fault is due, and the request is passed on. -/
theorem respond_of_due?_eq_none
    (hdue : due? p.faults request.operation request.tables = none) :
    (handler h).respond request (p, x) = forward h request
      (p.logged request.operation (asked p.faults request.operation request.tables), x) := by
  show respond h request (p, x) = _
  rw [respond, interceptAll_of_due?_eq_none hdue]

/-- The fault that is due fails the request, and the handler does not see it. -/
theorem respond_of_due?_eq_some {i : Nat}
    (hdue : due? p.faults request.operation request.tables = some i) :
    ∃ f, p.faults[i]? = some f ∧ (handler h).respond request (p, x)
      = (.failed f.error,
        { p.logged request.operation (asked p.faults request.operation request.tables) with
          faults := p.faults.set i f.spend }, x) := by
  obtain ⟨f, hf, hfailed⟩ := interceptAll_of_due?_eq_some hdue
  refine ⟨f, hf, ?_⟩
  show respond h request (p, x) = _
  rw [respond, hfailed]

/-- Without a fault that is due and rounds to be left unprocessed the handler answers. -/
theorem passes_of_due?_eq_none (hrounds : p.unprocessedRounds = 0)
    (hdue : due? p.faults request.operation request.tables = none) :
    let r := (handler h).respond request (p, x)
    r.1 = (h.respond request x).1 ∧ r.2.2 = (h.respond request x).2 ∧ r.2.1.faults = p.faults ∧
      r.2.1.unprocessedRounds = 0 := by
  intro r
  have hr : r = forward h request (p.logged _ _, x) := respond_of_due?_eq_none hdue
  obtain ⟨hanswer, hstate, hleft⟩ :=
    forward_of_rounds_eq_zero (p := p.logged _ _) (h := h) hrounds request x
  rw [hr]
  exact ⟨hanswer, hstate, (forward_leaves _ _ _).1, hleft⟩

end FaultPlan

/-- A database behind a fault plan. -/
def faulty : Handler (FaultPlan × Database) := FaultPlan.handler Database.handler

/-- What comes of a request to a database behind some armed faults: its answer, the database and
    the armed faults after it. -/
inductive Fares (faults : List Fault) (d : Database) (request : Request) :
    Answer request.Reply → Database → List Fault → Prop where
  /-- It fails with the error of the fault that it meets.  The database stays as it is, and this
      fault alone has one delivery less left. -/
  | failed {table : String} {i : Nat} {f : Fault} : Meets faults request table i f →
    Fares faults d request (.failed f.error) d
      (faults.set i { f with remaining := f.remaining.map (· - 1) })
  /-- No fault strikes any of its tables, and it is answered by the database. -/
  | passed : (∀ table ∈ request.tables, ∀ f ∈ faults, ¬ f.Strikes request.operation table) →
    Fares faults d request (d.respond request).1 (d.respond request).2 faults

theorem fares_respond {p : FaultPlan} (hrounds : p.unprocessedRounds = 0) (d : Database)
    (request : Request) :
    let r := faulty.respond request (p, d)
    Fares p.faults d request r.1 r.2.2 r.2.1.faults := by
  intro r
  cases hdue : due? p.faults request.operation request.tables with
  | none =>
    obtain ⟨hanswer, hstate, hfaults, -⟩ :=
      FaultPlan.passes_of_due?_eq_none (h := Database.handler) (x := d) hrounds hdue
    rw [show r.1 = _ from hanswer, show r.2.2 = _ from hstate, show r.2.1.faults = _ from hfaults]
    exact .passed (due?_eq_none_iff.mp hdue)
  | some i =>
    obtain ⟨table, f, hmeets⟩ := due?_eq_some_iff.mp hdue
    obtain ⟨f', hf', hr⟩ := FaultPlan.respond_of_due?_eq_some (h := Database.handler) (x := d) hdue
    obtain rfl : f = f' := Option.some.inj (hmeets.armed.symm.trans hf')
    rw [show r = _ from hr]
    exact .failed hmeets

/-! ### Histories -/

/-- What can be done to a database behind a fault plan. -/
inductive Step where
  /-- Arms a fault until it is cleared. -/
  | fail (operation : Operation) (table : Option String) (error : Store.Error)
  /-- Arms a fault for a number of deliveries. -/
  | failTimes (operation : Operation) (table : Option String) (error : Store.Error) (times : Nat)
  /-- Disarms every fault. -/
  | clear
  /-- Sets how many bulk writes are to be left unprocessed. -/
  | unprocess (rounds : Nat)
  /-- Marks the puts on a table as slow. -/
  | slow (table : String)
  /-- Makes a request. -/
  | send (request : Request)

namespace Step

/-- The plan and the database after a step. -/
def perform (s : FaultPlan × Database) : Step → FaultPlan × Database
  | .fail operation table error => (s.1.fail operation table error, s.2)
  | .failTimes operation table error times => (s.1.failTimes operation table error times, s.2)
  | .clear => (s.1.clear, s.2)
  | .unprocess rounds => ({ s.1 with unprocessedRounds := rounds }, s.2)
  | .slow table => ({ s.1 with slowTable := some table }, s.2)
  | .send request => (faulty.respond request s).2

/-- What some steps in turn make of a database, with a fresh plan before it. -/
def run (steps : List Step) (d : Database) : FaultPlan × Database := steps.foldl perform ({}, d)

/-- The fault that a step arms. -/
def arms? : Step → Option Fault
  | .fail operation table error => some ⟨operation, table, error, none⟩
  | .failTimes operation table error times => some ⟨operation, table, error, some times⟩
  | .clear | .unprocess _ | .slow _ | .send _ => none

/-- The step is a request, and it meets the fault at an index. -/
def Delivers (faults : List Fault) (i : Nat) : Step → Prop
  | .send request => ∃ table f, Meets faults request table i f
  | _ => False

instance (faults : List Fault) (i : Nat) : (step : Step) → Decidable (step.Delivers faults i)
  | .send _ => decidable_of_iff _ due?_eq_some_iff
  | .fail .. | .failTimes .. | .clear | .unprocess _ | .slow _ => inferInstanceAs (Decidable False)

/-- How often the fault at an index is delivered by some steps, until it is cleared.  After that
    another fault may have its index. -/
def deliveries (i : Nat) : List Step → FaultPlan × Database → Nat
  | [], _ => 0
  | .clear :: _, _ => 0
  | step :: later, s =>
    (if step.Delivers s.1.faults i then 1 else 0) + deliveries i later (step.perform s)

variable {s : FaultPlan × Database} {step : Step}

theorem rounds_perform (hrounds : s.1.unprocessedRounds = 0)
    (hstep : ∀ rounds, step ≠ .unprocess rounds) : (step.perform s).1.unprocessedRounds = 0 := by
  cases step with
  | unprocess rounds => exact absurd rfl (hstep rounds)
  | send request =>
    cases hdue : due? s.1.faults request.operation request.tables with
    | none =>
      exact (FaultPlan.passes_of_due?_eq_none (h := Database.handler) (x := s.2) hrounds hdue).2.2.2
    | some i =>
      obtain ⟨f, -, hr⟩ :=
        FaultPlan.respond_of_due?_eq_some (h := Database.handler) (x := s.2) hdue
      show (faulty.respond request s).2.1.unprocessedRounds = 0
      rw [show faulty.respond request s = _ from hr]
      exact hrounds
  | _ => exact hrounds

theorem rounds_run {steps : List Step} (hsteps : ∀ rounds, Step.unprocess rounds ∉ steps)
    (d : Database) : (run steps d).1.unprocessedRounds = 0 := by
  refine List.foldlRecOn (motive := fun s : FaultPlan × Database => s.1.unprocessedRounds = 0)
    _ _ rfl ?_
  intro s hs step hmem
  exact rounds_perform hs fun rounds heq => hsteps rounds (heq ▸ hmem)

/-! ### How often a fault is delivered -/

/-- A request spends the fault that it delivers, which is not used up, or it leaves the faults. -/
theorem faults_send_cases (s : FaultPlan × Database) (request : Request) :
    (∃ j f, s.1.faults[j]? = some f ∧ f.remaining ≠ some 0 ∧
        ((Step.send request).perform s).1.faults = s.1.faults.set j f.spend ∧
        ∀ i, (Step.send request).Delivers s.1.faults i ↔ j = i) ∨
      ((Step.send request).perform s).1.faults = s.1.faults ∧
        ∀ i, ¬ (Step.send request).Delivers s.1.faults i := by
  have hdelivers : ∀ i, (Step.send request).Delivers s.1.faults i
      ↔ due? s.1.faults request.operation request.tables = some i := fun _ => due?_eq_some_iff.symm
  simp only [hdelivers]
  show (∃ j f, _ ∧ _ ∧ (faulty.respond request s).2.1.faults = _ ∧ _)
    ∨ (faulty.respond request s).2.1.faults = _ ∧ _
  cases hdue : due? s.1.faults request.operation request.tables with
  | none =>
    have hr := FaultPlan.respond_of_due?_eq_none (h := Database.handler) (x := s.2) hdue
    refine .inr ⟨?_, nofun⟩
    rw [show faulty.respond request s = _ from hr, (FaultPlan.forward_leaves _ _ _).1]
    rfl
  | some j =>
    obtain ⟨f, hf, hr⟩ := FaultPlan.respond_of_due?_eq_some (h := Database.handler) (x := s.2) hdue
    obtain ⟨table, g, hmeets⟩ := due?_eq_some_iff.mp hdue
    obtain rfl : f = g := Option.some.inj (hf.symm.trans hmeets.armed)
    refine .inl ⟨j, f, hf, hmeets.strikes.left, ?_, fun i => Option.some_inj⟩
    rw [show faulty.respond request s = _ from hr]

/-- Unless it is a request or the faults are cleared, a step adds the fault that it arms. -/
theorem faults_perform (hclear : step ≠ .clear) (hsend : ∀ request, step ≠ .send request) :
    (step.perform s).1.faults = s.1.faults ++ step.arms?.toList ∧
      ∀ i, ¬ step.Delivers s.1.faults i := by
  cases step with
  | clear => exact absurd rfl hclear
  | send request => exact absurd rfl (hsend request)
  | fail | failTimes => exact ⟨rfl, fun _ => id⟩
  | unprocess | slow => exact ⟨(List.append_nil _).symm, fun _ => id⟩

theorem deliveries_cons (hclear : step ≠ .clear) (i : Nat) (later : List Step) :
    deliveries i (step :: later) s
      = (if step.Delivers s.1.faults i then 1 else 0) + deliveries i later (step.perform s) := by
  cases step with
  | clear => exact absurd rfl hclear
  | _ => rfl

/-- Some steps that do not clear the faults leave those that were armed before and then those that
    they arm themselves, in this order.  Each has as many deliveries less left as it was
    delivered. -/
theorem faults_foldl (s : FaultPlan × Database) {later : List Step} (hlater : .clear ∉ later) :
    (later.foldl perform s).1.faults
      = (s.1.faults ++ later.filterMap arms?).mapIdx fun i f =>
          { f with remaining := f.remaining.map (· - deliveries i later s) } := by
  induction later generalizing s with
  | nil =>
    refine List.ext_getElem? fun i => ?_
    simp [deliveries]
  | cons step later ih =>
    obtain ⟨hclear, hlater⟩ := not_or.mp (mt List.mem_cons.mpr hlater)
    have hclear : step ≠ .clear := fun h => hclear h.symm
    rw [List.foldl_cons, ih (step.perform s) hlater]
    refine List.ext_getElem? fun i => ?_
    rw [List.getElem?_mapIdx, List.getElem?_mapIdx, deliveries_cons hclear]
    by_cases hsend : ∀ request, step ≠ .send request
    · obtain ⟨hfaults, hnone⟩ := faults_perform (s := s) hclear hsend
      have harmed : step.arms?.toList ++ later.filterMap arms?
          = (step :: later).filterMap arms? := by
        rw [List.filterMap_cons]
        cases step.arms? <;> rfl
      rw [hfaults, List.append_assoc, harmed, if_neg (hnone i), Nat.zero_add]
    · obtain ⟨request, hrequest⟩ := not_forall_not.mp hsend
      subst hrequest
      rw [List.filterMap_cons_none rfl]
      obtain ⟨j, g, hg, -, hfaults, hdelivers⟩ | ⟨hfaults, hnone⟩ := faults_send_cases s request
      · obtain ⟨hj, rfl⟩ := List.getElem?_eq_some_iff.mp hg
        rw [hfaults]
        by_cases hij : j = i
        · -- The fault that is delivered.
          subst hij
          rw [if_pos ((hdelivers j).mpr rfl), List.getElem?_append_left (by simpa using hj),
            List.getElem?_append_left hj, List.getElem?_set_self hj, List.getElem?_eq_getElem hj]
          simp only [Option.map_some, Fault.spend, Option.map_map, Function.comp_def, Nat.sub_sub]
        · rw [if_neg (mt (hdelivers i).mp hij), Nat.zero_add]
          congr 1
          rw [List.getElem?_append, List.getElem?_append, List.length_set,
            List.getElem?_set_ne hij]
      · rw [hfaults, if_neg (hnone i), Nat.zero_add]

/-- Unless the faults are cleared, a step leaves a fault where it is, and if the step delivers it
    the fault has one delivery less left. -/
theorem remaining_perform (hstep : step ≠ .clear) {i : Nat} {f : Fault} {left : Nat}
    (hf : s.1.faults[i]? = some f) (hleft : f.remaining = some left) :
    ∃ f' left', (step.perform s).1.faults[i]? = some f' ∧ f'.remaining = some left' ∧
      (if step.Delivers s.1.faults i then 1 else 0) + left' = left := by
  obtain ⟨hi, -⟩ := List.getElem?_eq_some_iff.mp hf
  have harmed : ∀ g, (s.1.faults ++ [g])[i]? = some f := fun g => by
    rw [List.getElem?_append_left hi, hf]
  cases step with
  | clear => exact absurd rfl hstep
  | fail operation table error => exact ⟨f, left, harmed _, hleft, Nat.zero_add _⟩
  | failTimes operation table error times => exact ⟨f, left, harmed _, hleft, Nat.zero_add _⟩
  | unprocess rounds => exact ⟨f, left, hf, hleft, Nat.zero_add _⟩
  | slow table => exact ⟨f, left, hf, hleft, Nat.zero_add _⟩
  | send request =>
    obtain ⟨j, g, hg, hpositive, hfaults, hdelivers⟩ | ⟨hfaults, hnone⟩ :=
      faults_send_cases s request
    · rw [hfaults]
      by_cases hj : j = i
      · -- This fault is delivered, so it had a delivery left.
        subst hj
        obtain rfl : f = g := Option.some.inj (hf.symm.trans hg)
        refine ⟨f.spend, left - 1, by simp [hi], by simp [Fault.spend, hleft], ?_⟩
        have hmore : left ≠ 0 := fun hzero => hpositive (hzero ▸ hleft)
        rw [if_pos ((hdelivers j).mpr rfl)]
        omega
      · refine ⟨f, left, by rw [List.getElem?_set_ne hj, hf], hleft, ?_⟩
        rw [if_neg fun h => hj ((hdelivers i).mp h), Nat.zero_add]
    · refine ⟨f, left, hfaults ▸ hf, hleft, ?_⟩
      rw [if_neg (hnone i), Nat.zero_add]

/-- A fault is delivered at most as often as it has deliveries left. -/
theorem deliveries_le {i : Nat} {f : Fault} {left : Nat} (hf : s.1.faults[i]? = some f)
    (hleft : f.remaining = some left) (later : List Step) : deliveries i later s ≤ left := by
  induction later generalizing s f left with
  | nil => exact Nat.zero_le _
  | cons step later ih =>
    by_cases hclear : step = .clear
    · subst hclear
      exact Nat.zero_le _
    · obtain ⟨f', left', hf', hleft', hsum⟩ := remaining_perform hclear hf hleft
      have hrest := ih hf' hleft'
      rw [deliveries_cons hclear]
      omega

end Step

/-! ### Without faults -/

/-- With no fault armed every script runs as on the database. -/
theorem run_eq_of_unarmed {α : Type} (script : Script α) {p : FaultPlan} (hfaults : p.faults = [])
    (hrounds : p.unprocessedRounds = 0) (d : Database) :
    let run := script.run faulty (p, d)
    let bare := script.run Database.handler d
    run.result = bare.result ∧ run.events = bare.events ∧ run.state.2 = bare.state := by
  induction script generalizing p d with
  | done a => exact ⟨rfl, rfl, rfl⟩
  | panic => exact ⟨rfl, rfl, rfl⟩
  | record event next ih =>
    obtain ⟨hresult, hevents, hstate⟩ := ih hfaults hrounds d
    exact ⟨hresult, congrArg (event :: ·) hevents, hstate⟩
  | call request next ih =>
    have hdue : due? p.faults request.operation request.tables = none := by
      rw [due?_eq_none_iff, hfaults]
      exact fun _ _ _ hf => absurd hf List.not_mem_nil
    obtain ⟨hanswer, hstate, hleft, hnone⟩ :=
      FaultPlan.passes_of_due?_eq_none (h := Database.handler) (x := d) hrounds hdue
    obtain ⟨p', hr, hp', hrounds'⟩ : ∃ p', faulty.respond request (p, d)
        = ((d.respond request).1, p', (d.respond request).2) ∧ p'.faults = [] ∧
          p'.unprocessedRounds = 0 :=
      ⟨_, Prod.ext hanswer (Prod.ext rfl hstate), hleft.trans hfaults, hnone⟩
    -- The plan has logged the request, but it is still unarmed when the script goes on.
    simp only [Script.run, hr]
    exact ih _ hp' hrounds' _

/-! ### All of it -/

/-- Let faults be armed and cleared in any way between any requests, with no bulk write to be left
    unprocessed.

    * The faults that are armed are those that the steps since the last clear have armed, first
      one first, and each has as many deliveries less left as it was delivered.
    * Whatever the next request is, it is failed by the fault that it meets and by nothing else.
    * A fault that is armed for a number of deliveries is delivered at most that often, whatever
      comes later.
    * While no fault is armed every script runs as on the database. -/
theorem faults_exact {steps : List Step} (hsteps : ∀ rounds, Step.unprocess rounds ∉ steps)
    (d : Database) :
    let s := Step.run steps d
    (∀ before later, steps = before ++ later → (∀ last ∈ before.getLast?, last = .clear) →
      Step.clear ∉ later →
      s.1.faults = (later.filterMap Step.arms?).mapIdx fun i f =>
        { f with remaining := f.remaining.map (· - Step.deliveries i later (Step.run before d)) }) ∧
      (∀ request,
        let r := faulty.respond request s
        Fares s.1.faults s.2 request r.1 r.2.2 r.2.1.faults) ∧
      (∀ operation table error times later,
        Step.deliveries s.1.faults.length later
          (Step.perform s (.failTimes operation table error times)) ≤ times) ∧
      (s.1.faults = [] → ∀ {α : Type} (script : Script α),
        let run := script.run faulty s
        let bare := script.run Database.handler s.2
        run.result = bare.result ∧ run.events = bare.events ∧ run.state.2 = bare.state) := by
  intro s
  have hrounds := Step.rounds_run hsteps d
  refine ⟨?_, fun request => fares_respond hrounds s.2 request, ?_, ?_⟩
  · rintro before later rfl hlast hlater
    have hcleared : (Step.run before d).1.faults = [] := by
      rcases List.eq_nil_or_concat before with rfl | ⟨before, last, rfl⟩
      · rfl
      · obtain rfl := hlast last (by simp)
        rw [Step.run, List.concat_eq_append, List.foldl_append]
        rfl
    have harmed := Step.faults_foldl (Step.run before d) hlater
    rw [hcleared, List.nil_append] at harmed
    rw [show s = later.foldl Step.perform (Step.run before d) from List.foldl_append]
    exact harmed
  · intro operation table error times later
    refine Step.deliveries_le (f := ⟨operation, table, error, some times⟩) ?_ rfl later
    show (s.1.faults ++ [_])[s.1.faults.length]? = _
    simp
  · intro hfaults α script
    exact run_eq_of_unarmed script hfaults hrounds s.2

/-- A bulk write names two tables, and two faults are armed after a third one is cleared.  The
    fault for any table is delivered first, because it strikes the first of them, then the fault
    for the second table, though that was armed first.  After that both are used up and the write
    goes through. -/
theorem faults_exact_overlapping :
    let key : Store.Item := .key "K" (.string "a")
    let write : Request := .bulkWrite (.ofList [("t", [.put key]), ("u", [.put key])])
    let before : List Step := [.fail .bulkWrite none (.unavailable "down"), .clear]
    let later : List Step := [.failTimes .bulkWrite (some "u") (.throttled "u") 1,
      .failTimes .bulkWrite none (.unavailable "down") 1, .send write]
    let steps := before ++ later
    let d := (Database.createTable .empty "t" "K").createTable "u" "K"
    let s := Step.run steps d
    let r := faulty.respond write s
    let after := fun n : Nat => Step.run (steps ++ List.replicate n (.send write)) d
    (∀ rounds, Step.unprocess rounds ∉ steps) ∧
      s.1.faults = [⟨.bulkWrite, some "u", .throttled "u", some 1⟩,
        ⟨.bulkWrite, none, .unavailable "down", some 0⟩] ∧
      Fares s.1.faults s.2 write r.1 r.2.2 r.2.1.faults ∧
      (after 1).1.faults.map (·.remaining) = [some 0, some 0] ∧ (after 1).2 = d ∧
      (after 2).2.itemCount "u" = 1 := by
  intro key write before later steps d s r after
  have hsteps : ∀ rounds, Step.unprocess rounds ∉ steps := by
    simp [steps, before, later]
  have hlater : Step.clear ∉ later := by
    simp [later]
  obtain ⟨hfaults, hfares, -⟩ := faults_exact hsteps d
  refine ⟨hsteps, (hfaults before later rfl (by simp [before]) hlater).trans ?_, hfares write, ?_⟩
  · unfold later before d write key
    decide +kernel
  · unfold after steps later before d write key
    decide +kernel

end LoginRegistry.Testbed
