import LoginRegistry.Migration.Error
import LoginRegistry.Registry.Basic

/-! # Sweeping tombstones

    A sweep deletes the tombstoned accounts once more, so that interrupted
    deletes and rows that a migration wrote behind a delete are gone, and drains
    the tombstones.  It leaves no new tombstone and no version.
-/

namespace LoginRegistry.Registry

/-- The bound on the pages of a sweep.  A sweep goes on only after it has removed
    a full page of tombstones, and there are no more ids of 128 bits than this. -/
def maxSweepPages : Nat := UInt64.size * UInt64.size

/-- Deletes every account of a page and drains its tombstones. -/
def sweepPage (r : Registry) (uuids : List Uuid) : Action BulkOutcome := do
  uuids.forM fun u => r.deleteWith u .reconcile
  r.tombstones.removeAll uuids

/-- Sweeps page after page.  It ends at an empty or a short page, or when a drain
    leaves entries behind, and returns the number of tombstones processed. -/
def sweepPages (r : Registry) (pageSize : Nat) : Nat → Nat → Action Nat
  | 0, processed => return processed
  | pages + 1, processed => do
    let uuids ← r.tombstones.list pageSize
    if uuids.isEmpty then return processed
    else
      let outcome ← r.sweepPage uuids
      let processed := processed + uuids.length
      -- Entries left behind would come up again on the next page.
      if !outcome.isComplete || uuids.length < pageSize then return processed
      else sweepPages r pageSize pages processed

/-- Sweeps until no tombstone is left; the number of tombstones processed. -/
def sweep (r : Registry) : Action Nat :=
  r.sweepPages (max r.config.migration.reconcilePageSize.toNat 1) (maxSweepPages + 1) 0

/-- Sweeps in a worker and reports the number of tombstones processed. -/
def reconcile (r : Registry) : Script (Except MigrationError Nat) := do
  match ← r.sweep.run.isolate with
  | none => return .error .worker
  | some (.error e) => return .error (.reconcile e)
  | some (.ok processed) =>
    Script.report (.swept processed)
    return .ok processed

end LoginRegistry.Registry
