import LoginRegistry.Migration.Sweep
import LoginRegistry.Proofs.Registry.Draining
import LoginRegistry.Proofs.Registry.Keeping
import LoginRegistry.Proofs.Registry.Listing

/-! # What a sweep keeps

    A sweep is deletes and drains, page after page, however many pages there are and
    wherever it is cut off.  So it keeps what these keep (`ends_reconcile`), and in
    particular what the operations uphold.
-/

namespace LoginRegistry

open Store (Operation)

namespace Registry

/-- The deletes and drains of a sweep keep the property. -/
structure Sweeps (r : Registry) (exposed : Operation → String → Bool) (I : Contents → Prop) :
    Prop where
  /-- Deletes that finish others keep it. -/
  delete : ∀ u, r.Keeps exposed I (r.deleteWith u .reconcile)
  /-- The tombstones do not matter. -/
  withTombstones : ∀ {c : Contents} (tombstones : SortedMap Uuid Unit), I c →
    I (c.withTombstones tombstones)

variable {r : Registry} {exposed : Operation → String → Bool} {I : Contents → Prop}
  {admitted : Account → Prop}

theorem Upholds.sweeps (hI : r.Upholds exposed admitted I) : r.Sweeps exposed I where
  delete u := hI.deleteWith u .reconcile
  withTombstones := hI.withTombstones

section valid

variable (hr : Function.Injective r.config.tables.name) (hI : r.Sweeps exposed I)

include hr

theorem keeps_list (count : Nat) : r.Keeps exposed I (r.tombstones.list count) :=
  fun _ hc => leads_list hr lists_tombstones hc fun _ _ _ _ _ => hc

include hI

theorem keeps_removeAll (uuids : List Uuid) : r.Keeps exposed I (r.tombstones.removeAll uuids) :=
  fun _ hc => leads_removeAll hr uuids (fun _ t => hI.withTombstones t hc)
    fun _ t => hI.withTombstones t hc

theorem keeps_sweepPage (uuids : List Uuid) : r.Keeps exposed I (r.sweepPage uuids) :=
  .bind (.forM hI.delete uuids) fun _ => keeps_removeAll hr hI uuids

theorem keeps_sweepPages (pageSize pages processed : Nat) :
    r.Keeps exposed I (r.sweepPages pageSize pages processed) := by
  induction pages generalizing processed with
  | zero => exact .pure processed
  | succ pages ih =>
    refine .bind (keeps_list hr pageSize) fun uuids => ?_
    split
    · exact .pure processed
    · refine .bind (keeps_sweepPage hr hI uuids) fun outcome => ?_
      simp only
      split
      · exact .pure _
      · exact ih _

/-- A sweep ends, and keeps what its parts keep. -/
theorem ends_reconcile {c : Contents} (hc : I c) :
    r.Ends exposed r.reconcile c fun o c' => o ≠ none ∧ I c' := by
  have hsweep : r.Keeps exposed I r.sweep := keeps_sweepPages hr hI _ _ _
  refine ends_bind (ends_isolate_run (Leads.mono (hsweep c hc) ?_ ?_))
  · intro processed c' hc'
    exact ends_bind (ends_report (ends_pure ⟨nofun, hc'⟩))
  · intro o c' hc'
    cases o with
    | none => exact ends_pure ⟨nofun, hc'⟩
    | some e => exact ends_pure ⟨nofun, hc'⟩

theorem ends_work_reconcile {c : Contents} (hc : I c) :
    r.Ends exposed (r.work .reconcile) c fun _ c' => I c' := by
  refine ends_discard (Ends.mono (ends_reconcile hr hI hc) fun o c' hc' => ?_)
  cases o <;> exact hc'.2

omit hI in
/-- Calls and sweeps keep what the operations uphold for every account. -/
theorem ends_work_steady (hI : r.Upholds exposed (fun _ => True) I) {c : Contents} (hc : I c)
    {job : Job} (hjob : job.isSteady = true) : r.Ends exposed (r.work job) c fun _ c' => I c' := by
  cases job with
  | call call => exact ends_work_call hr hI (by cases call <;> trivial) hc
  | reconcile => exact ends_work_reconcile hr hI.sweeps hc
  | migrate | migrateBatch | redrive => cases hjob

end valid

end Registry

end LoginRegistry
