import LoginRegistry.Migration.Batch
import LoginRegistry.Migration.Redrive
import LoginRegistry.Proofs.Registry.Serving
import LoginRegistry.Proofs.Script.Asking

/-! # Requests of migrations

    The requests of a migration are the two writes of the account and those that queue it, in
    whatever order its workers move (`asks_migrate`).  Those of a batch are those of its
    accounts (`asks_migrateAll`), and a re-drive lists the queue, deletes accounts and removes
    entries as well (`asks_redrive`). -/

namespace LoginRegistry.Registry

open Store (Request)

variable {r : Registry} {P : Request → Prop}

/-- The requests for an account all meet `P`: its two writes, and its put into the queue. -/
structure AsksFor (r : Registry) (P : Request → Prop) (a : Account) : Prop where
  row : (r.accounts.migrate a).run.Asks P
  login : (r.logins.migrate a.login a.uuid).run.Asks P
  retry : (r.retries.putWithLogin a.uuid a.login).run.Asks P

/-- The requests of a delete without tombstone and version all meet `P`. -/
structure AsksToDelete (r : Registry) (P : Request → Prop) (u : Uuid) : Prop where
  row : (r.accounts.get u).run.Asks P
  retry : (r.retries.login u).run.Asks P
  release : ∀ login, (r.logins.release login u).run.Asks P
  erase : (r.accounts.delete u).run.Asks P

section account

variable {a : Account}

section queued

variable (hretry : (r.retries.putWithLogin a.uuid a.login).run.Asks P)

include hretry

theorem asks_queueRetry : (r.queueRetry a.uuid a.login).Asks P := by
  refine Script.Asks.bind hretry fun result => ?_
  match result with
  | .ok () => exact Script.asks_report _
  | .error e => exact Script.asks_pure ()

theorem asks_guardedWrite {write : Action Bool} (hwrite : write.run.Asks P) :
    (r.guardedWrite a write).Asks P := by
  refine Script.Asks.bind hwrite fun result => ?_
  match result with
  | .ok applied => exact Script.asks_pure _
  | .error e => exact (asks_queueRetry hretry).bind fun _ => Script.asks_pure _

theorem asks_resolve (result : Option (Except RegistryError Bool)) :
    (r.resolve a result).Asks P := by
  match result with
  | some (.ok applied) => exact Script.asks_pure _
  | some (.error e) => exact Script.asks_pure _
  | none => exact (asks_queueRetry hretry).isolate.bind fun _ => Script.asks_pure _

end queued

theorem asks_migrate (h : r.AsksFor P a) (turns : List Bool) : (r.migrate a turns).Asks P := by
  have hrow := (asks_guardedWrite h.retry h.row).isolate
  have hlogin := (asks_guardedWrite h.retry h.login).isolate
  exact (hrow.both hlogin turns).bind fun (row, login) => (asks_resolve h.retry row).bind fun _ =>
    (asks_resolve h.retry login).bind fun _ => (Script.asks_report _).bind fun _ => Script.asks_pure _

end account

theorem asks_migrateAll {accounts : List Account} (h : ∀ a ∈ accounts, r.AsksFor P a)
    (workers : UInt64) (turns : Turns) : (r.migrateAll accounts workers turns).Asks P := by
  refine Script.asks_pool (fun s hs => ?_) _ _
  obtain ⟨i, hi, rfl⟩ := List.mem_mapIdx.mp hs
  exact asks_migrate (h _ (List.getElem_mem hi)) _

theorem asks_deleteWith {u : Uuid} (h : r.AsksToDelete P u) :
    (r.deleteWith u .reconcile).run.Asks P := by
  rw [deleteWith_eq]
  refine Action.asks_timed (Action.asks_bind h.row fun found => ?_) _
  match found with
  | some a =>
    exact Action.asks_bind (h.release a.login) fun _ => Action.asks_bind h.erase fun _ =>
      Action.asks_pure ()
  | none =>
    refine Action.asks_bind h.retry fun recorded => ?_
    match recorded with
    | some login => exact Action.asks_bind (h.release login) fun _ => Action.asks_pure ()
    | none => exact Action.asks_pure ()

/-- Listing a queue reads pages. -/
theorem asks_list {q : Queue} (h : ∀ limit start, P (.scan ⟨q.table, limit, start⟩)) (count : Nat) :
    (q.list count).run.Asks P := by
  have hcollect : ∀ pages found start, (q.collect count pages found start).run.Asks P := by
    intro pages
    induction pages with
    | zero => exact fun found _ => Action.asks_pure found
    | succ pages ih =>
      intro found start
      rw [Queue.collect]
      split
      · refine Action.asks_bind (Action.asks_ofStore (Script.asks_send (h _ _))) fun page => ?_
        refine Action.asks_bind (Action.asks_ofExcept _) fun uuids => ?_
        split
        · exact ih _ _
        · exact Action.asks_pure _
      · exact Action.asks_pure found
  exact Action.asks_bind (hcollect _ _ _) fun _ => Action.asks_pure _

/-- A re-drive reads the queue and works on accounts and entries. -/
theorem asks_redrive (hmigrate : ∀ a, r.AsksFor P a) (hdelete : ∀ u, r.AsksToDelete P u)
    (hremove : ∀ u, (r.retries.remove u).run.Asks P)
    (hlist : ∀ count, (r.retries.list count).run.Asks P) (source : LegacySource)
    (max : Option Nat) (turns : Turns) : (r.redrive source max turns).Asks P := by
  have hsettle : ∀ u outcome, (r.settle u outcome).Asks P := by
    intro u outcome
    cases outcome with
    | kept e => exact Script.asks_pure _
    | migrated | dropped =>
      refine (hremove u).isolate.bind fun result => ?_
      match result with
      | some (.ok ()) => exact Script.asks_pure _
      | some (.error e) => exact Script.asks_pure _
      | none => exact Script.asks_pure _
  have hdrive : ∀ u turns, (r.drive source u turns).Asks P := by
    refine fun u turns => Script.Asks.bind ?_ fun outcome => hsettle u outcome
    match source.loadInWorker u with
    | .failed e => exact Script.asks_pure _
    | .panicked => exact Script.asks_pure _
    | .account (some a) =>
      refine (asks_migrate (hmigrate a) turns).bind fun outcome => ?_
      cases outcome <;> exact Script.asks_pure _
    | .account none =>
      refine (asks_deleteWith (hdelete u)).isolate.bind fun result => ?_
      match result with
      | some (.ok ()) => exact Script.asks_pure _
      | some (.error e) => exact Script.asks_pure _
      | none => exact Script.asks_pure _
  refine (hlist _).isolate.bind fun result => ?_
  match result with
  | none => exact Script.asks_pure _
  | some (.error e) => exact Script.asks_pure _
  | some (.ok entries) =>
    refine Script.Asks.bind (Script.asks_pool (fun s hs => ?_) _ _) fun _ => Script.asks_pure _
    obtain ⟨i, hi, rfl⟩ := List.mem_mapIdx.mp hs
    exact hdrive _ _

end LoginRegistry.Registry
