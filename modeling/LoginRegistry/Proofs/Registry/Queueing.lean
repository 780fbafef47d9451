import LoginRegistry.Migration.Account
import LoginRegistry.Proofs.Registry.Writing
import LoginRegistry.Proofs.Script.Interleaving

/-! # The retry queue -/

namespace LoginRegistry

open Store (AttributeValue)

namespace Tables

variable {t : Tables} {u : Uuid}

/-- The account has an entry in the retry queue. -/
def Queued (t : Tables) (u : Uuid) : Prop := Row.uuidValue u ∈ (t .retries).keys

/-- Puts an account into the retry queue. -/
def queueRetry (t : Tables) (u : Uuid) (login : String) : Tables :=
  t.set .retries ((t .retries).insert (Row.uuidValue u) (Row.ofRetry u login))

/-- Removes an account from the retry queue. -/
def dropRetry (t : Tables) (u : Uuid) : Tables :=
  t.set .retries ((t .retries).erase (Row.uuidValue u))

theorem queued_queueRetry {login : String} : (t.queueRetry u login).Queued u := by
  rw [Queued, queueRetry, set_self, SortedMap.mem_keys_iff, SortedMap.get?_insert_self]
  rfl

theorem KeyedAt.queueRetry (h : t.KeyedAt .retries) (u : Uuid) (login : String) :
    (t.queueRetry u login).KeyedAt .retries := by
  intro key row hrow
  rw [Tables.queueRetry, set_self, SortedMap.get?_insert_eq] at hrow
  split at hrow
  · next hkey =>
    rw [hkey, ← Option.some.inj hrow]
    exact Row.uuid_ofRetry u login
  · exact h key row hrow

theorem mem_keys_dropRetry {key : AttributeValue} :
    key ∈ ((t.dropRetry u) .retries).keys ↔ key ∈ (t .retries).keys ∧ key ≠ Row.uuidValue u := by
  rw [dropRetry, set_self, SortedMap.mem_keys_iff, SortedMap.mem_keys_iff, SortedMap.get?_erase_eq]
  split
  · next hkey => exact iff_of_false nofun fun h => h.2 hkey
  · next hkey => exact (and_iff_left hkey).symm

end Tables

namespace Registry

variable {r : Registry} {x : Exposure} {t : Tables}
  (hr : Function.Injective r.config.tables.name)

include hr

theorem once_retries_putWithLogin {u : Uuid} {login : String} {ok : Unit → Tables → Prop}
    {bad : Option RegistryError → Tables → Prop} (hok : ok () (t.queueRetry u login))
    (hspoiled : ∀ q : Store.Put, q.table = r.config.tables.retries → ∀ m o, x (.put q) m = true →
      m.Brings o → bad o t) :
    Action.Once (r.config.tables.behaviour x) (r.retries.putWithLogin u login) t ok bad := by
  have hput := TableNames.put_database hr t .retries
    (q := { table := r.retries.table, item := Row.ofRetry u login }) rfl (Row.uuid_ofRetry u login)
  exact Action.once_of_within (Action.single_ofStore (Script.single_send _))
    (TableNames.within_ofStore_send hr nofun
      (congrArg (r.config.tables.database t).written hput) hok (hspoiled _ rfl))

theorem once_retries_remove {u : Uuid} {ok : Unit → Tables → Prop}
    {bad : Option RegistryError → Tables → Prop} (hok : ok () (t.dropRetry u))
    (hspoiled : ∀ request m o, x request m = true → m.Brings o → bad o t) :
    Action.Once (r.config.tables.behaviour x) (r.retries.remove u) t ok bad := by
  have hdelete := TableNames.delete_database hr t .retries
    (q := { table := r.retries.table, key := Row.uuidKey u }) rfl (Row.uuid_uuidKey u)
  exact Action.once_of_within (Action.single_ofStore (Script.single_send _))
    (TableNames.within_ofStore_send hr nofun
      (congrArg (r.config.tables.database t).written hdelete) hok (hspoiled _))

/-- An account is put into the queue among others, or its put is spoiled and passed over. -/
theorem among_queueRetry {terms : Terms Tables} {u : Uuid} {login : String} {queued : Tables → Prop}
    (hqueued : terms.Lasts (fun t' => terms.own t' (t'.queueRetry u login) ∧
      terms.Lasts queued (t'.queueRetry u login)) t)
    (hspoiled : terms.Lasts (fun t' => ∀ q : Store.Put, q.table = r.config.tables.retries → ∀ m,
      x (.put q) m = true → terms.own t' t' ∧ terms.Lasts queued t') t) :
    (r.queueRetry u login).Among (r.config.tables.behaviour x) terms (fun _ => queued) t := by
  have hput : Action.Among (r.config.tables.behaviour x) terms (r.retries.putWithLogin u login) t
      (fun _ => queued) fun _ => queued :=
    Action.among_of_once fun t' ht' => once_retries_putWithLogin hr (hqueued t' ht')
      fun q hq m _ hm _ => hspoiled t' ht' q hq m hm
  refine Script.among_bind (Script.Among.mono hput fun o t' ht' => ?_)
  match o with
  | some (.ok ()) => exact Script.among_report ht'
  | some (.error e) => exact Script.among_pure ht'
  | none => exact ht'.now

end Registry

end LoginRegistry
