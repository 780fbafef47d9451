import LoginRegistry.Proofs.Testbed.Faults
import Mathlib.Data.List.Induction

/-! # How calls are counted

    A fault plan logs a request once for each table for which it looks for a fault.  A request to
    one table is logged once.  A bulk write is logged for every table that it names, up to the
    first that is struck, so it is counted as one call only if it is looked at once.

    * `calls_perform`: what a step adds to the count of an operation.
    * `calls_exact_iff`: over every history of the plan, when the counts are those of the calls.
    * `slowPutSeen_run_iff`: a slow put is seen if one is passed on.
-/

namespace LoginRegistry.Testbed

open Store (Database Operation Request)

/-- The plan looks for a fault once: the request names a table, and it names no other or a fault
    strikes the first one. -/
def AsksOnce (faults : List Fault) (request : Request) : Prop :=
  ∃ table rest, request.tables = table :: rest ∧
    (rest = [] ∨ ∃ f ∈ faults, f.Strikes request.operation table)

theorem asked_eq_zero_iff {faults : List Fault} {operation : Operation} {tables : List String} :
    asked faults operation tables = 0 ↔ tables = [] := by
  cases tables with
  | nil => simp [asked]
  | cons table tables =>
    unfold asked
    split <;> simp

theorem asked_eq_one_iff {faults : List Fault} {request : Request} :
    asked faults request.operation request.tables = 1 ↔ AsksOnce faults request := by
  unfold AsksOnce
  cases request.tables with
  | nil => simp [asked]
  | cons table tables =>
    have hany : faults.any (·.hits request.operation table) = true
        ↔ ∃ f ∈ faults, f.Strikes request.operation table := by
      simp [Fault.hits_iff]
    by_cases hstruck : ∃ f ∈ faults, f.Strikes request.operation table
    · simp only [asked, hany.mpr hstruck, if_true, true_iff]
      exact ⟨table, tables, rfl, .inr hstruck⟩
    · have hnone : asked faults request.operation (table :: tables)
          = asked faults request.operation tables + 1 := by
        simp only [asked, if_neg (hany.not.mpr hstruck)]
      rw [hnone]
      constructor
      · intro hone
        exact ⟨table, tables, rfl, .inl (asked_eq_zero_iff.mp (Nat.succ.inj hone))⟩
      · rintro ⟨table', rest, heq, hrest⟩
        obtain ⟨rfl, rfl⟩ := List.cons.inj heq
        rw [asked_eq_zero_iff.mpr (hrest.resolve_right hstruck)]

/-- A request that is no bulk write names one table. -/
theorem asksOnce_of_ne_bulkWrite {faults : List Fault} {request : Request}
    (h : request.operation ≠ .bulkWrite) : AsksOnce faults request := by
  cases request with
  | bulkWrite w => exact absurd rfl h
  | _ => exact ⟨_, [], rfl, .inl rfl⟩

namespace Step

/-- The operation that a step calls, if it is a request. -/
def operation? : Step → Option Operation
  | .send request => some request.operation
  | _ => none

/-- How often some steps call an operation. -/
def callsOf (operation : Operation) (steps : List Step) : Nat :=
  (steps.filterMap operation?).count operation

/-- What a step adds to the count of an operation: the tables that are looked at. -/
def counted (faults : List Fault) (operation : Operation) : Step → Nat
  | .send request =>
    if request.operation = operation then asked faults operation request.tables else 0
  | _ => 0

theorem callsOf_concat (operation : Operation) (steps : List Step) (step : Step) :
    callsOf operation (steps ++ [step])
      = callsOf operation steps + if step.operation? = some operation then 1 else 0 := by
  unfold callsOf
  rw [List.filterMap_append, List.count_append, List.filterMap_cons]
  cases step.operation? with
  | none => simp
  | some called => simp [List.count_singleton]

theorem run_concat (steps : List Step) (step : Step) (d : Database) :
    run (steps ++ [step]) d = step.perform (run steps d) := by
  simp [run]

variable {s : FaultPlan × Database}

theorem log_send (request : Request) :
    ((Step.send request).perform s).1.log
      = List.replicate (asked s.1.faults request.operation request.tables) request.operation
        ++ s.1.log := by
  show (faulty.respond request s).2.1.log = _
  cases hdue : due? s.1.faults request.operation request.tables with
  | none =>
    have hr := FaultPlan.respond_of_due?_eq_none (h := Database.handler) (x := s.2) hdue
    rw [show faulty.respond request s = _ from hr, (FaultPlan.forward_leaves _ _ _).2]
    rfl
  | some i =>
    obtain ⟨f, -, hr⟩ := FaultPlan.respond_of_due?_eq_some (h := Database.handler) (x := s.2) hdue
    rw [show faulty.respond request s = _ from hr]
    rfl

/-- A request counts for the tables that are looked at, and nothing else counts. -/
theorem calls_perform (step : Step) (operation : Operation) :
    (step.perform s).1.calls operation
      = s.1.calls operation + step.counted s.1.faults operation := by
  cases step with
  | send request =>
    show List.count operation ((Step.send request).perform s).1.log = _
    rw [log_send, List.count_append, List.count_replicate, Nat.add_comm]
    unfold counted FaultPlan.calls
    by_cases hoperation : request.operation = operation
    · simp [hoperation]
    · simp [hoperation]
  | _ => rfl

/-- A step counts as the call that it is if a fault is looked for once. -/
theorem counted_eq {step : Step} {faults : List Fault} {operation : Operation}
    (h : ∀ request, step = .send request → request.operation = operation →
      AsksOnce faults request) :
    step.counted faults operation = if step.operation? = some operation then 1 else 0 := by
  cases step with
  | send request =>
    simp only [counted, operation?, Option.some.injEq]
    by_cases hoperation : request.operation = operation
    · rw [if_pos hoperation, if_pos hoperation, ← hoperation, asked_eq_one_iff]
      exact h request rfl hoperation
    · rw [if_neg hoperation, if_neg hoperation]
  | _ => rfl

/-- An operation is counted right as long as a fault is looked for once in each of its calls. -/
theorem calls_run {operation : Operation} {steps : List Step} {d : Database}
    (h : ∀ before request, before ++ [.send request] <+: steps → request.operation = operation →
      AsksOnce (run before d).1.faults request) :
    (run steps d).1.calls operation = callsOf operation steps := by
  induction steps using List.reverseRecOn with
  | nil => rfl
  | append_singleton before step ih =>
    have hbefore := ih fun earlier request hearlier =>
      h earlier request (hearlier.trans (List.prefix_append before [step]))
    rw [run_concat, calls_perform, hbefore, callsOf_concat, counted_eq]
    rintro request rfl hoperation
    exact h before request (List.prefix_refl _) hoperation

/-- Let faults be armed and cleared and bulk writes be left unprocessed in any way between any
    requests.  An operation on single items or a page read is counted once for each call, whether
    it fails or not.  The count of bulk writes is right all the time just if each of them names a
    table, and names no other unless a fault strikes the first one. -/
theorem calls_exact_iff (steps : List Step) (d : Database) :
    (∀ operation, operation ≠ .bulkWrite →
      (run steps d).1.calls operation = callsOf operation steps) ∧
      ((∀ before, before <+: steps →
          (run before d).1.calls .bulkWrite = callsOf .bulkWrite before) ↔
        ∀ before w, before ++ [.send (.bulkWrite w)] <+: steps →
          AsksOnce (run before d).1.faults (.bulkWrite w)) := by
  refine ⟨fun operation hsingle => ?_, ?_, ?_⟩
  · refine calls_run fun before request _ hoperation => asksOnce_of_ne_bulkWrite ?_
    rwa [hoperation]
  · -- The counts are right before the bulk write and after it, so it has counted for one.
    intro hexact before w hprefix
    have hbefore := hexact before ((List.prefix_append before _).trans hprefix)
    have hafter := hexact _ hprefix
    rw [run_concat, calls_perform, hbefore, callsOf_concat] at hafter
    have hone : (Step.send (.bulkWrite w)).counted (run before d).1.faults .bulkWrite = 1 :=
      Nat.add_left_cancel hafter
    exact asked_eq_one_iff.mp hone
  · intro honce before hprefix
    refine calls_run fun earlier request hearlier hoperation => ?_
    cases request with
    | bulkWrite w => exact honce earlier w (hearlier.trans hprefix)
    | _ => cases hoperation

/-- One bulk write to two tables counts as two calls, and one that names no table as none. -/
theorem bulk_write_counts_tables :
    let key : Store.Item := .key "K" (.string "a")
    let d := (Database.createTable .empty "t" "K").createTable "u" "K"
    let both : List Step := [.send (.bulkWrite (.ofList [("t", [.put key]), ("u", [.put key])]))]
    let neither : List Step := [.send (.bulkWrite .empty)]
    callsOf .bulkWrite both = 1 ∧ (run both d).1.calls .bulkWrite = 2 ∧
      callsOf .bulkWrite neither = 1 ∧ (run neither d).1.calls .bulkWrite = 0 := by
  intro key d both neither
  unfold both neither d key
  decide +kernel

/-! ### Slow puts -/

/-- The step is a put on the slow table that no fault strikes. -/
def PutsSlowly (p : FaultPlan) (step : Step) : Prop :=
  ∃ q : Store.Put, step = .send (.put q) ∧ p.slowTable = some q.table ∧
    ∀ f ∈ p.faults, ¬ f.Strikes .put q.table

theorem slowPutSeen_forward_bulkWrite (p : FaultPlan) (w : Store.Writes) (d : Database) :
    (FaultPlan.forward Database.handler (.bulkWrite w) (p, d)).2.1.slowPutSeen
      = p.slowPutSeen := by
  simp only [FaultPlan.forward]
  split <;> rfl

theorem slowPutSeen_perform (step : Step) :
    (step.perform s).1.slowPutSeen = true ↔
      s.1.slowPutSeen = true ∨ step.PutsSlowly s.1 := by
  match step with
  | .fail .. | .failTimes .. | .clear | .unprocess _ | .slow _ =>
    exact ⟨.inl, fun h => h.resolve_right fun ⟨_, hstep, _⟩ => nomatch hstep⟩
  | .send request =>
    show (faulty.respond request s).2.1.slowPutSeen = true ↔ _
    cases hdue : due? s.1.faults request.operation request.tables with
    | some i =>
      obtain ⟨f, -, hr⟩ :=
        FaultPlan.respond_of_due?_eq_some (h := Database.handler) (x := s.2) hdue
      obtain ⟨table, g, hmeets⟩ := due?_eq_some_iff.mp hdue
      rw [show faulty.respond request s = _ from hr]
      refine ⟨.inl, fun h => h.resolve_right ?_⟩
      rintro ⟨q, ⟨⟩, -, hnone⟩
      obtain rfl := List.mem_singleton.mp hmeets.named
      exact hnone g (List.mem_of_getElem? hmeets.armed) hmeets.strikes
    | none =>
      have hr := FaultPlan.respond_of_due?_eq_none (h := Database.handler) (x := s.2) hdue
      rw [show faulty.respond request s = _ from hr]
      cases request with
      | put q =>
        have hnone := due?_eq_none_iff.mp hdue q.table (List.mem_singleton_self _)
        have hseen : (s.1.slowPutSeen || s.1.slowTable == some q.table) = true ↔
            s.1.slowPutSeen = true ∨ s.1.slowTable = some q.table := by
          rw [Bool.or_eq_true, beq_iff_eq]
        refine hseen.trans (or_congr_right ⟨fun htable => ⟨q, rfl, htable, hnone⟩, ?_⟩)
        rintro ⟨_, ⟨⟩, htable, -⟩
        exact htable
      | bulkWrite w =>
        rw [slowPutSeen_forward_bulkWrite]
        exact ⟨.inl, fun h => h.resolve_right fun ⟨_, hstep, _⟩ => nomatch hstep⟩
      | _ => exact ⟨.inl, fun h => h.resolve_right fun ⟨_, hstep, _⟩ => nomatch hstep⟩

/-- A slow put is seen just if there has been a put on the table that was slow at the time, and
    no fault struck it. -/
theorem slowPutSeen_run_iff (steps : List Step) (d : Database) :
    (run steps d).1.slowPutSeen = true ↔
      ∃ before step, before ++ [step] <+: steps ∧ step.PutsSlowly (run before d).1 := by
  induction steps using List.reverseRecOn with
  | nil =>
    refine ⟨nofun, ?_⟩
    rintro ⟨before, step, hprefix, -⟩
    simp at hprefix
  | append_singleton steps step ih =>
    rw [run_concat, slowPutSeen_perform, ih]
    constructor
    · rintro (⟨before, last, hprefix, hslow⟩ | hslow)
      · exact ⟨before, last, hprefix.trans (List.prefix_append steps [step]), hslow⟩
      · exact ⟨steps, step, List.prefix_refl _, hslow⟩
    · rintro ⟨before, last, hprefix, hslow⟩
      rcases List.prefix_concat_iff.mp hprefix with heq | hprefix
      · obtain ⟨rfl, rfl⟩ := List.append_inj' heq rfl |>.imp_right List.singleton_injective.eq_iff.mp
        exact .inr hslow
      · exact .inl ⟨before, last, hprefix, hslow⟩

end Step

end LoginRegistry.Testbed
