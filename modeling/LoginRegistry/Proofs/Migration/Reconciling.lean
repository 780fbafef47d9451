import LoginRegistry.Proofs.Migration.Terminating
import LoginRegistry.Proofs.Registry.Retrying

/-! # What a sweep does

    A sweep takes the tombstones in the order of their keys, page by page, and deletes
    their accounts once more.  It stops at the first account whose row cannot be read,
    and then the tombstones of the page that it is on are still there.

    `Tables.Reconciled` says what deleting some accounts once more makes of the tables:
    their rows and the logins that they have last had are gone, and everything else but
    tombstones is as before.  `within_sweepPages_exact` says which accounts these are.
-/

namespace LoginRegistry

open Store (AttributeValue Database Item)

/-! ### Deleted accounts -/

namespace Tables

/-- The ids in the keys of the tombstones are those that have one. -/
theorem tombstoned_iff_mem {t : Tables} {ids : List Uuid} {u : Uuid}
    (hids : ids.map Row.uuidValue = (t .tombstones).keys) : t.Tombstoned u ↔ u ∈ ids := by
  rw [Tombstoned, ← SortedMap.mem_keys_iff, ← hids]
  exact List.mem_map_of_injective fun v w => Row.uuidValue_inj.mp

/-- The login that an account has had last: that of its row or, if there is no row, that of
    its retry entry. -/
def lastLogin? (t : Tables) (u : Uuid) : Option String :=
  match t.accountRow? u with
  | some row => Row.login? row
  | none => t.recorded? u

/-- The key is that of a login that one of the accounts has had last and that is bound to it. -/
def Frees (t : Tables) (dead : Uuid → Prop) (key : AttributeValue) : Prop :=
  ∃ u login, dead u ∧ t.lastLogin? u = some login ∧ t.owner? login = some u ∧ key = .string login

/-- The tables since `t`, when the dead accounts were deleted and nothing else was done, but to
    drain tombstones. -/
structure Reconciled (dead : Uuid → Prop) (t t' : Tables) : Prop where
  /-- The dead accounts have no row. -/
  gone : ∀ u, dead u → t'.accountRow? u = none
  /-- Other account rows are as before. -/
  accounts : ∀ key, (∀ u, dead u → key ≠ Row.uuidValue u) →
    (t' .accounts).get? key = (t .accounts).get? key
  /-- The last logins of dead accounts are free. -/
  freed : ∀ key, t.Frees dead key → (t' .logins).get? key = none
  /-- Other login rows are as before. -/
  logins : ∀ key, ¬ t.Frees dead key → (t' .logins).get? key = (t .logins).get? key
  /-- The parameters are as before. -/
  misc : t' .misc = t .misc
  /-- The retry entries are as before. -/
  retries : t' .retries = t .retries

variable {dead dead' : Uuid → Prop} {t t' t'' : Tables} {u : Uuid}

namespace Reconciled

/-- Nothing is done. -/
theorem refl (hdead : ∀ u, ¬ dead u) : t.Reconciled dead t where
  gone u hu := absurd hu (hdead u)
  accounts _ _ := rfl
  freed _ := fun ⟨u, _, hu, _⟩ => absurd hu (hdead u)
  logins _ _ := rfl
  misc := rfl
  retries := rfl

/-- Tombstones do not matter. -/
theorem unbury (h : t.Reconciled dead t') (us : List Uuid) : t.Reconciled dead (t'.unbury us) where
  gone := h.gone
  accounts := h.accounts
  freed := h.freed
  logins := h.logins
  misc := h.misc
  retries := h.retries

theorem congr (h : t.Reconciled dead t') (hdead : ∀ u, dead' u ↔ dead u) :
    t.Reconciled dead' t' := by
  obtain rfl : dead' = dead := funext fun u => propext (hdead u)
  exact h

/-! ### Other accounts -/

theorem accountRow?_eq (h : t.Reconciled dead t') (hu : ¬ dead u) :
    t'.accountRow? u = t.accountRow? u :=
  h.accounts _ fun _ hv heq => hu (Row.uuidValue_inj.mp heq ▸ hv)

theorem deletion_eq (h : t.Reconciled dead t') (hu : ¬ dead u) : t'.deletion u = t.deletion u := by
  rw [deletion, h.accountRow?_eq hu]
  rfl

theorem lastLogin?_eq (h : t.Reconciled dead t') (hu : ¬ dead u) :
    t'.lastLogin? u = t.lastLogin? u := by
  rw [lastLogin?, h.accountRow?_eq hu, recorded?, h.retries]
  rfl

/-- The logins of other accounts are still theirs, and they have no others. -/
theorem owner?_iff (h : t.Reconciled dead t') (hu : ¬ dead u) (login : String) :
    t'.owner? login = some u ↔ t.owner? login = some u := by
  by_cases hfreed : t.Frees dead (.string login)
  · have hnone : t'.owner? login = none := owner?_of_loginRow?_eq_none (h.freed _ hfreed)
    obtain ⟨v, _, hv, -, howner, hlogin⟩ := hfreed
    obtain rfl := AttributeValue.string.inj hlogin
    rw [hnone, howner]
    refine iff_of_false nofun fun heq => hu ?_
    exact Option.some.inj heq ▸ hv
  · have hsame : t'.loginRow? login = t.loginRow? login := h.logins _ hfreed
    rw [owner?, hsame]
    rfl

/-- Deletes of some accounts come after those of others. -/
theorem trans (h : t.Reconciled dead t') (h' : t'.Reconciled dead' t'')
    (hdisjoint : ∀ u, dead' u → ¬ dead u) : t.Reconciled (fun u => dead u ∨ dead' u) t'' := by
  have hfrees : ∀ key, t.Frees (fun u => dead u ∨ dead' u) key ↔
      t.Frees dead key ∨ t'.Frees dead' key := by
    intro key
    constructor
    · rintro ⟨u, login, hu | hu, hlast, howner, hkey⟩
      · exact .inl ⟨u, login, hu, hlast, howner, hkey⟩
      · exact .inr ⟨u, login, hu, (h.lastLogin?_eq (hdisjoint u hu)).trans hlast,
          (h.owner?_iff (hdisjoint u hu) login).mpr howner, hkey⟩
    · rintro (⟨u, login, hu, hlast, howner, hkey⟩ | ⟨u, login, hu, hlast, howner, hkey⟩)
      · exact ⟨u, login, .inl hu, hlast, howner, hkey⟩
      · exact ⟨u, login, .inr hu, (h.lastLogin?_eq (hdisjoint u hu)).symm.trans hlast,
          (h.owner?_iff (hdisjoint u hu) login).mp howner, hkey⟩
  constructor
  · intro u hu
    by_cases hu' : dead' u
    · exact h'.gone u hu'
    · exact (h'.accountRow?_eq hu').trans (h.gone u (hu.resolve_right hu'))
  · intro key hkey
    exact (h'.accounts key fun u hu => hkey u (.inr hu)).trans
      (h.accounts key fun u hu => hkey u (.inl hu))
  · intro key hkey
    by_cases hlate : t'.Frees dead' key
    · exact h'.freed key hlate
    · exact (h'.logins key hlate).trans (h.freed key (((hfrees key).mp hkey).resolve_right hlate))
  · intro key hkey
    obtain ⟨hearly, hlate⟩ := not_or.mp (mt (hfrees key).mpr hkey)
    exact (h'.logins key hlate).trans (h.logins key hearly)
  · exact h'.misc.trans h.misc
  · exact h'.retries.trans h.retries

end Reconciled

/-- There is no row to be removed. -/
theorem eraseAccount_of_accountRow?_eq_none (h : t.accountRow? u = none) :
    t.eraseAccount u = t := by
  funext i
  by_cases hi : i = .accounts
  · subst hi
    apply SortedMap.ext_get?
    intro key
    rw [eraseAccount, set_self, SortedMap.get?_erase_eq]
    split
    · next hkey => rw [hkey]; exact h.symm
    · rfl
  · exact set_ne t hi _

/-- The tables without the login that an account has had last. -/
def releaseLast (t : Tables) (u : Uuid) : Tables :=
  match t.lastLogin? u with
  | some login => t.release login u
  | none => t

theorem releaseLast_ne {i : TableId} (hi : i ≠ .logins) : t.releaseLast u i = t i := by
  rw [releaseLast]
  cases t.lastLogin? u with
  | none => rfl
  | some login => exact release_ne hi

/-- An account is deleted with its last login. -/
theorem reconciled_releaseLast : t.Reconciled (· = u) ((t.releaseLast u).eraseAccount u) := by
  have hframe : ∀ i, i ≠ .accounts → i ≠ .logins →
      ((t.releaseLast u).eraseAccount u) i = t i := fun i haccounts hlogins =>
    (set_ne _ haccounts _).trans (releaseLast_ne hlogins)
  have hlogins : ((t.releaseLast u).eraseAccount u) .logins = (t.releaseLast u) .logins :=
    set_ne _ (by decide) _
  constructor
  · rintro _ rfl
    exact accountRow?_eraseAccount.trans (if_pos rfl)
  · intro key hkey
    rw [eraseAccount, set_self, SortedMap.get?_erase_ne _ (hkey u rfl), releaseLast_ne (by decide)]
  · rintro _ ⟨_, login, rfl, hlast, howner, rfl⟩
    rw [hlogins, releaseLast, hlast]
    exact loginRow?_release.trans (if_pos ⟨rfl, howner⟩)
  · intro key hkey
    rw [hlogins, releaseLast]
    cases hlast : t.lastLogin? u with
    | none => rfl
    | some login =>
      dsimp only
      unfold release
      split
      · next howner =>
        rw [freeLogin, set_self]
        exact SortedMap.get?_erase_ne _ fun heq => hkey ⟨u, login, rfl, hlast, howner, heq⟩
      · rfl
  · exact hframe .misc (by decide) (by decide)
  · exact hframe .retries (by decide) (by decide)

/-- An account whose row can be read is deleted. -/
theorem reconciled_of_row {row : Item} {a : Account} (hrow : t.accountRow? u = some row)
    (ha : Row.account row = .ok a) :
    t.Reconciled (· = u) ((t.release a.login u).eraseAccount u) := by
  have hlast : t.lastLogin? u = some a.login := by
    rw [lastLogin?, hrow]
    exact Row.login?_of_account ha
  have hdone := reconciled_releaseLast (t := t) (u := u)
  rwa [releaseLast, hlast] at hdone

/-- An account without a row is deleted. -/
theorem reconciled_of_none (hrow : t.accountRow? u = none) :
    t.Reconciled (· = u) (t.releaseRecorded u) := by
  have hlast : t.releaseLast u = t.releaseRecorded u := by
    rw [releaseLast, lastLogin?, hrow]
    rfl
  have hrow' : (t.releaseRecorded u).accountRow? u = none :=
    (accountRow?_congr (releaseRecorded_ne nofun) u).trans hrow
  have hdone := reconciled_releaseLast (t := t) (u := u)
  rwa [hlast, eraseAccount_of_accountRow?_eq_none hrow'] at hdone

/-! ### Unreadable rows -/

theorem deletion_of_none (hrow : t.accountRow? u = none) : t.deletion u = .ok () := by
  rw [deletion, hrow]

theorem deletion_of_account {row : Item} {a : Account} (hrow : t.accountRow? u = some row)
    (ha : Row.account row = .ok a) : t.deletion u = .ok () := by
  simp only [deletion, hrow, ha, Except.map]

theorem deletion_of_error {row : Item} {e : RegistryError} (hrow : t.accountRow? u = some row)
    (he : Row.account row = .error e) : t.deletion u = .error e := by
  simp only [deletion, hrow, he, Except.map]

theorem deletion_of_readable
    (h : ∀ row, t.accountRow? u = some row → ∃ a, Row.account row = .ok a) :
    t.deletion u = .ok () := by
  cases hrow : t.accountRow? u with
  | none => exact deletion_of_none hrow
  | some row =>
    obtain ⟨a, ha⟩ := h row hrow
    exact deletion_of_account hrow ha

/-- Among some accounts one is the first whose row cannot be read. -/
structure Blocked (t : Tables) (us before : List Uuid) (u : Uuid) (e : RegistryError) : Prop where
  /-- The account comes right after the others. -/
  split : ∃ after, us = before ++ u :: after
  /-- The rows before it can be read. -/
  readable : ∀ v ∈ before, t.deletion v = .ok ()
  /-- Its row cannot be read. -/
  unreadable : t.deletion u = .error e

theorem Blocked.append {us before rest : List Uuid} {e : RegistryError}
    (h : t.Blocked us before u e) : t.Blocked (us ++ rest) before u e where
  split := by
    obtain ⟨after, rfl⟩ := h.split
    exact ⟨after ++ rest, by rw [List.append_assoc, List.cons_append]⟩
  readable := h.readable
  unreadable := h.unreadable

theorem Blocked.mem {us before : List Uuid} {e : RegistryError} (h : t.Blocked us before u e) :
    u ∈ us := by
  obtain ⟨after, rfl⟩ := h.split
  exact List.mem_append_right _ List.mem_cons_self

theorem Blocked.subset {us before : List Uuid} {e : RegistryError} (h : t.Blocked us before u e) :
    before ⊆ us := by
  obtain ⟨after, rfl⟩ := h.split
  exact List.subset_append_left ..

/-- Deletes of other accounts do not matter. -/
theorem Blocked.of_reconciled {us before : List Uuid} {e : RegistryError}
    (h : t'.Blocked us before u e) (ht' : t.Reconciled dead t') (hus : ∀ v ∈ us, ¬ dead v) :
    t.Blocked us before u e where
  split := h.split
  readable v hv := (ht'.deletion_eq (hus v (h.subset hv))).symm.trans (h.readable v hv)
  unreadable := (ht'.deletion_eq (hus u h.mem)).symm.trans h.unreadable

/-- Accounts in front that can be read are no hindrance. -/
theorem Blocked.prepend {us before front : List Uuid} {e : RegistryError}
    (h : t.Blocked us before u e) (hfront : ∀ v ∈ front, t.deletion v = .ok ()) :
    t.Blocked (front ++ us) (front ++ before) u e where
  split := by
    obtain ⟨after, rfl⟩ := h.split
    exact ⟨after, (List.append_assoc ..).symm⟩
  readable v hv := (List.mem_append.mp hv).elim (hfront v) (h.readable v)
  unreadable := h.unreadable

end Tables

/-! ### A page that is too large -/

/-- The id with a number. -/
def numberedUuid (n : Nat) : Uuid :=
  ⟨(List.range 16).map fun i => UInt8.ofNat (n / 256 ^ i), by rw [List.length_map, List.length_range]⟩

/-- Four bytes tell the numbers of 32 bits apart. -/
theorem exists_ids_of_le {count : Nat} (hcount : count ≤ 2 ^ 32) :
    ∃ ids : List Uuid, ids.Nodup ∧ ids.length = count := by
  refine ⟨(List.range count).map numberedUuid, List.Nodup.map_on (fun n hn m hm h => ?_)
    List.nodup_range, by rw [List.length_map, List.length_range]⟩
  have hn : n < 2 ^ 32 := Nat.lt_of_lt_of_le (List.mem_range.mp hn) hcount
  have hm : m < 2 ^ 32 := Nat.lt_of_lt_of_le (List.mem_range.mp hm) hcount
  have hbytes : (List.range 16).map (fun i => UInt8.ofNat (n / 256 ^ i))
      = (List.range 16).map fun i => UInt8.ofNat (m / 256 ^ i) := congrArg Uuid.bytes h
  have hbyte (i : Nat) (hi : i < 16) : n / 256 ^ i % 256 = m / 256 ^ i % 256 :=
    congrArg UInt8.toNat (List.map_inj_left.mp hbytes i (List.mem_range.mpr hi))
  have h₀ := hbyte 0 (by decide)
  have h₁ := hbyte 1 (by decide)
  have h₂ := hbyte 2 (by decide)
  have h₃ := hbyte 3 (by decide)
  omega

namespace Tables

/-- The tombstones of some accounts, and nothing else. -/
def graveyard (ids : List Uuid) : Tables := ids.foldl bury empty

variable {ids : List Uuid}

theorem keyedOnIds_graveyard (ids : List Uuid) : (graveyard ids).KeyedOnIds .tombstones := by
  refine List.foldlRecOn (motive := fun t : Tables => t.KeyedOnIds .tombstones) ids bury ?_
    fun t ht u _ => ht.bury u
  intro key row hrow
  rw [empty, SortedMap.get?_empty] at hrow
  cases hrow

theorem tombstoned_graveyard {u : Uuid} : (graveyard ids).Tombstoned u ↔ u ∈ ids := by
  have hfold (t : Tables) : (ids.foldl bury t).Tombstoned u ↔ u ∈ ids ∨ t.Tombstoned u := by
    induction ids generalizing t with
    | nil => simp
    | cons v ids ih => simp only [List.foldl_cons, ih, tombstoned_bury, List.mem_cons, or_assoc,
        or_left_comm]
  rw [graveyard, hfold]
  exact or_iff_left (not_tombstoned_of_empty rfl u)

theorem accountRow?_graveyard (ids : List Uuid) (u : Uuid) : (graveyard ids).accountRow? u = none :=
  List.foldlRecOn (motive := fun t : Tables => t.accountRow? u = none) ids bury
    (SortedMap.get?_empty _) fun _ ht _ _ => ht

theorem size_graveyard (h : ids.Nodup) : ((graveyard ids) .tombstones).size = ids.length := by
  obtain ⟨us, hus⟩ := (keyedOnIds_graveyard ids).exists_ids
  have hnodup : us.Nodup := .of_map Row.uuidValue (hus ▸ SortedMap.nodup_keys _)
  rw [← SortedMap.length_of_keys hus]
  refine ((List.perm_ext_iff_of_nodup hnodup h).mpr fun u => ?_).length_eq
  rw [← tombstoned_iff_mem hus, tombstoned_graveyard]

end Tables

namespace Registry

variable {r : Registry} {t : Tables}

section valid

variable (hr : Function.Injective r.config.tables.name)

include hr

/-! ### Pages that nothing befalls -/

/-- A delete that nothing befalls deletes its account, or fails where the row cannot be read. -/
theorem within_deleteWith_exact (u : Uuid) :
    (r.deleteWith u .reconcile).Within (r.config.tables.behaviour .calm) t
      (fun _ t' => t.deletion u = .ok () ∧ t.Reconciled (· = u) t' ∧
        t' .tombstones = t .tombstones)
      fun o t' => ∃ e, o = some e ∧ t.deletion u = .error e ∧ t' = t := by
  have hstart : t = if DeleteOptions.reconcile.tombstone then t.bury u else t := rfl
  refine within_deleteWith hr (Exposure.isGenuine_genuine _) hstart ?_ ?_ ?_ ?_ ?_
  · intro hrow
    exact ⟨Tables.deletion_of_none hrow, Tables.reconciled_of_none hrow,
      Tables.releaseRecorded_ne nofun⟩
  · intro row a hrow ha
    exact ⟨Tables.deletion_of_account hrow ha, Tables.reconciled_of_row hrow ha,
      (Tables.RemoveStage.removed hrow ha).tombstones_eq⟩
  · exact fun row e hrow he => ⟨e, rfl, Tables.deletion_of_error hrow he, rfl⟩
  · exact fun _ _ _ hm _ => (Exposure.not_calm hm).elim
  · exact fun _ _ _ hm _ _ _ => (Exposure.not_calm hm).elim

/-- Deletes that nothing befalls go on up to the first row that cannot be read. -/
theorem within_deletes_exact {us : List Uuid} (hnodup : us.Nodup) :
    Action.Within (r.config.tables.behaviour .calm) (us.forM fun u => r.deleteWith u .reconcile) t
      (fun _ t' => (∀ u ∈ us, t.deletion u = .ok ()) ∧ t.Reconciled (· ∈ us) t' ∧
        t' .tombstones = t .tombstones)
      fun o t' => ∃ before u e, t.Blocked us before u e ∧ o = some e ∧
        t.Reconciled (· ∈ before) t' ∧ t' .tombstones = t .tombstones := by
  refine Action.Within.mono (Action.within_forM
    (J := fun left t' => ∃ before, us = before ++ left ∧ (∀ u ∈ before, t.deletion u = .ok ()) ∧
      t.Reconciled (· ∈ before) t' ∧ t' .tombstones = t .tombstones)
    ?_ ?_) ?_ fun _ _ => id
  · rintro u left t' ⟨before, rfl, hreadable, ht', htombstones⟩
    have hnew : u ∉ before := fun hmem =>
      (List.nodup_append.mp hnodup).2.2 u hmem u List.mem_cons_self rfl
    refine Action.Within.mono (within_deleteWith_exact hr u) ?_ ?_
    · rintro - t'' ⟨hok, ht'', hsame⟩
      rw [ht'.deletion_eq hnew] at hok
      refine ⟨before ++ [u], (List.append_assoc before [u] left).symm, ?_, ?_,
        hsame.trans htombstones⟩
      · intro v hv
        rcases List.mem_append.mp hv with hv | hv
        · exact hreadable v hv
        · rwa [List.mem_singleton.mp hv]
      · refine (ht'.trans ht'' ?_).congr fun v => ?_
        · rintro v rfl
          exact hnew
        · rw [List.mem_append, List.mem_singleton]
    · rintro o t'' ⟨e, ho, herror, rfl⟩
      rw [ht'.deletion_eq hnew] at herror
      exact ⟨before, u, e, ⟨⟨left, rfl⟩, hreadable, herror⟩, ho, ht', htombstones⟩
  · exact ⟨[], rfl, nofun, .refl fun _ => List.not_mem_nil, rfl⟩
  · rintro - t' ⟨before, hus, hreadable, ht', htombstones⟩
    rw [List.append_nil] at hus
    subst hus
    exact ⟨hreadable, ht', htombstones⟩

variable (hbulk : r.config.bulk.validate = .ok ())

include hbulk

/-- A page that nothing befalls is deleted and drained.  Or it fails and none of its tombstones
    is drained, or it panics because it is too large to be drained. -/
theorem within_sweepPage_exact {us rest : List Uuid} (hnodup : us.Nodup)
    (hkeyed : t.KeyedOnIds .tombstones)
    (hkeys : (us ++ rest).map Row.uuidValue = (t .tombstones).keys) :
    (r.sweepPage us).Within (r.config.tables.behaviour .calm) t
      (fun outcome t' => us.length ≤ r.config.bulk.maxRemovals ∧ outcome.isComplete = true ∧
        (∀ u ∈ us, t.deletion u = .ok ()) ∧
        t.Reconciled (· ∈ us) t' ∧ t'.KeyedOnIds .tombstones ∧
        rest.map Row.uuidValue = (t' .tombstones).keys)
      fun o t' => o = none ∧ r.config.bulk.maxRemovals < us.length ∨
        ∃ before u e, t.Blocked us before u e ∧ o = some e ∧
          t.Reconciled (· ∈ before) t' ∧ t' .tombstones = t .tombstones := by
  refine Action.within_bind (Action.Within.mono (within_deletes_exact hr hnodup) ?_
    fun _ _ => .inr)
  rintro - t' ⟨hreadable, ht', htombstones⟩
  refine TableNames.within_removeAll_calm hr rfl hbulk us (fun hdrain outcome hcomplete => ?_)
    fun hlarge _ => .inl ⟨rfl, hlarge⟩
  refine ⟨hdrain, hcomplete, hreadable, ht'.unbury us, (hkeyed.congr htombstones).unbury us, ?_⟩
  have hfirst : us.map Row.uuidValue = (t' .tombstones).keys.take us.length := by
    rw [htombstones, ← hkeys, List.map_append, ← List.length_map Row.uuidValue, List.take_left]
  rw [SortedMap.keys, Tables.toList_unbury hfirst, List.map_drop, ← SortedMap.keys, htombstones,
    ← hkeys, List.map_append, ← List.length_map Row.uuidValue, List.drop_left]

omit hr hbulk in
/-- A page holds the first ids. -/
theorem exists_rest_of_page {pageSize : Nat} {us ids : List Uuid}
    (h : us.map Row.uuidValue = (ids.map Row.uuidValue).take pageSize) :
    ∃ rest, ids = us ++ rest ∧ us.length = min pageSize (us.length + rest.length) := by
  obtain rfl : us = ids.take pageSize := by
    rw [← List.map_take] at h
    exact List.map_injective_iff.mpr (fun u v => Row.uuidValue_inj.mp) h
  refine ⟨ids.drop pageSize, (List.take_append_drop ..).symm, ?_⟩
  rw [List.length_take, List.length_drop]
  omega

/-- A sweep that nothing befalls deletes the accounts of all tombstones and drains them, or it
    goes up to the first row that cannot be read.  Then the tombstones of the full pages before
    are drained.  Or it panics at the first page, which is too large to be drained. -/
theorem within_sweepPages_exact {pageSize : Nat} (hsize : 1 ≤ pageSize) (pages processed : Nat)
    {ids : List Uuid} (hkeyed : t.KeyedOnIds .tombstones)
    (hkeys : ids.map Row.uuidValue = (t .tombstones).keys)
    (hpages : ids.length / pageSize < pages) :
    let fits := min pageSize ids.length ≤ r.config.bulk.maxRemovals
    (r.sweepPages pageSize pages processed).Within (r.config.tables.behaviour .calm) t
      (fun v t' => fits ∧ (∀ u ∈ ids, t.deletion u = .ok ()) ∧ v = processed + ids.length ∧
        t.Reconciled (· ∈ ids) t' ∧ t' .tombstones = .empty)
      fun o t' => o = none ∧ ¬ fits ∨
        ∃ before u e, t.Blocked ids before u e ∧ o = some e ∧
          t.Reconciled (· ∈ before) t' ∧
          (ids.drop (before.length / pageSize * pageSize)).map Row.uuidValue
            = (t' .tombstones).keys := by
  induction pages generalizing processed t ids with
  | zero => exact absurd hpages (Nat.not_lt_zero _)
  | succ pages ih =>
    have hnodup : ids.Nodup := .of_map Row.uuidValue (hkeys ▸ SortedMap.nodup_keys _)
    refine Action.within_bind (Action.Within.mono (Sweepable.within_list hr hkeyed pageSize) ?_ ?_)
    · rintro us _ ⟨rfl, hus, -⟩
      obtain ⟨rest, rfl, hlength⟩ := exists_rest_of_page (hkeys ▸ hus)
      have hdisjoint : ∀ u ∈ rest, u ∉ us := fun u hrest hmem =>
        (List.nodup_append.mp hnodup).2.2 u hmem u hrest rfl
      have hfits : min pageSize (us ++ rest).length ≤ r.config.bulk.maxRemovals ↔
          us.length ≤ r.config.bulk.maxRemovals := by
        rw [hlength, List.length_append]
      split
      · next hnone =>
        obtain rfl := List.isEmpty_iff.mp hnone
        rw [List.length_nil] at hlength
        obtain rfl : rest = [] := List.length_eq_zero_iff.mp (by omega)
        refine Action.within_pure
          ⟨hfits.mpr (Nat.zero_le _), nofun, rfl, .refl fun _ => List.not_mem_nil, ?_⟩
        exact SortedMap.ext_toList (List.map_eq_nil_iff.mp hkeys.symm)
      · refine Action.within_bind (Action.Within.mono
          (within_sweepPage_exact hr hbulk hnodup.of_append_left hkeyed hkeys) ?_ ?_)
        · rintro outcome t' ⟨hdrain, hcomplete, hreadable, ht', hkeyed', hrest⟩
          simp only [hcomplete, Bool.not_true, Bool.false_or, decide_eq_true_eq]
          split
          · -- A short page holds all ids that are left.
            obtain rfl : rest = [] := List.length_eq_zero_iff.mp (by omega)
            rw [List.append_nil] at hfits ⊢
            exact Action.within_pure ⟨hfits.mpr hdrain, hreadable, rfl, ht',
              SortedMap.ext_toList (List.map_eq_nil_iff.mp hrest.symm)⟩
          · next hfull =>
            obtain rfl : us.length = pageSize := by omega
            have hmore : rest.length / us.length < pages := by
              rw [List.length_append, Nat.add_div_left _ hsize] at hpages
              omega
            refine Action.Within.mono (ih _ hkeyed' hrest hmore) ?_ ?_
            · rintro v t'' ⟨-, hreadable', rfl, ht'', hempty⟩
              refine ⟨hfits.mpr hdrain, fun u hu => ?_, ?_, ?_, hempty⟩
              · rcases List.mem_append.mp hu with hu | hu
                · exact hreadable u hu
                · exact (ht'.deletion_eq (hdisjoint u hu)).symm.trans (hreadable' u hu)
              · rw [List.length_append, Nat.add_assoc]
              · exact (ht'.trans ht'' hdisjoint).congr fun u => List.mem_append
            · rintro o t'' (⟨-, hlarge⟩ | ⟨before, u, e, hblocked, ho, ht'', hkeys'⟩)
              · -- The pages after this one are no larger.
                exact absurd ((Nat.min_le_left ..).trans hdrain) hlarge
              refine .inr ⟨us ++ before, u, e,
                (hblocked.of_reconciled ht' hdisjoint).prepend hreadable, ho, ?_, ?_⟩
              · refine (ht'.trans ht'' fun u hu => hdisjoint u ?_).congr fun u => List.mem_append
                exact hblocked.subset hu
              · rw [← hkeys', List.length_append, Nat.add_div_left _ hsize, Nat.succ_mul,
                  Nat.add_comm, ← List.drop_drop, List.drop_left]
        · rintro o t' (⟨rfl, hlarge⟩ | ⟨before, u, e, hblocked, ho, ht', htombstones⟩)
          · exact .inl ⟨rfl, fun h => Nat.not_lt.mpr (hfits.mp h) hlarge⟩
          refine .inr ⟨before, u, e, hblocked.append, ho, ht', ?_⟩
          have hshort : before.length < pageSize := by
            obtain ⟨after, rfl⟩ := hblocked.split
            rw [List.length_append, List.length_cons] at hlength
            omega
          rw [Nat.div_eq_of_lt hshort, Nat.zero_mul, List.drop_zero, htombstones]
          exact hkeys
    · rintro o t' ⟨⟨_, _, hm⟩, -⟩
      exact (Exposure.not_calm hm).elim

/-- A sweep in a worker that nothing befalls, as `within_sweepPages_exact` has it. -/
theorem within_reconcile_exact (hsize : 1 ≤ r.config.migration.reconcilePageSize.toNat)
    {ids : List Uuid} (hkeyed : t.KeyedOnIds .tombstones)
    (hkeys : ids.map Row.uuidValue = (t .tombstones).keys) :
    r.reconcile.Within (r.config.tables.behaviour .calm)
      (fun o t' => t.PageFits r.config ∧ (∀ u ∈ ids, t.deletion u = .ok ()) ∧
          o = some (.ok ids.length) ∧ t.Reconciled (· ∈ ids) t' ∧ t' .tombstones = .empty ∨
        ¬ t.PageFits r.config ∧ o = some (.error .worker) ∨
        ∃ before u e, t.Blocked ids before u e ∧ o = some (.error (.reconcile e)) ∧
          t.Reconciled (· ∈ before) t' ∧
          (ids.drop (before.length / r.config.migration.reconcilePageSize.toNat
              * r.config.migration.reconcilePageSize.toNat)).map Row.uuidValue
            = (t' .tombstones).keys) t := by
  have hpages : ids.length / r.config.migration.reconcilePageSize.toNat < maxSweepPages + 1 := by
    have hnodup : ids.Nodup := .of_map Row.uuidValue (hkeys ▸ SortedMap.nodup_keys _)
    exact Nat.lt_succ_of_le ((Nat.div_le_self ..).trans (Uuid.length_le_of_nodup hnodup))
  have hfits : t.PageFits r.config ↔ min r.config.migration.reconcilePageSize.toNat ids.length
      ≤ r.config.bulk.maxRemovals := by
    rw [Tables.PageFits, ← SortedMap.length_of_keys hkeys]
  refine within_reconcile_of_sweep ?_
  rw [sweep_eq hsize]
  refine Action.Within.mono (within_sweepPages_exact hr hbulk hsize _ 0 hkeyed hkeys hpages) ?_ ?_
  · rintro processed t' ⟨hfit, hreadable, rfl, ht', hempty⟩
    exact .inl ⟨hfits.mpr hfit, hreadable, by rw [Nat.zero_add], ht', hempty⟩
  · rintro o t' (⟨rfl, hlarge⟩ | ⟨before, u, e, hblocked, rfl, ht', hleft⟩)
    · exact .inr (.inl ⟨mt hfits.mp hlarge, rfl⟩)
    · exact .inr (.inr ⟨before, u, e, hblocked, rfl, ht', hleft⟩)

end valid

/-- A sweep ends and does exactly its work.  Start from any tables whose tombstones can be
    listed and whose account rows, as far as they have a tombstone, can be read.

    Whatever the store makes of its requests, failures, panics and writes that are held back
    among them, the sweep returns, and it has begun at most one page more than there are full
    pages of tombstones.  For each page that may be begun it makes a bounded number of requests,
    whatever the maximum of attempts.  The pages that its definition allows do not matter.

    If nothing befalls it and its largest page can be drained, the sweep returns the number of
    tombstones and leaves none of them.  Of each account that had one, the row is gone and so is
    the login of the row, or without a row that of its retry entry, if it was bound to the
    account.  Everything else is as before.  If its largest page cannot be drained, because the
    requests that it takes cannot be counted, it panics, and its worker fails. -/
theorem reconcile_exact {config : Config} {r : Registry} (h : ofConfig config = .ok r)
    {t : Tables} (hkeyed : t.KeyedOnIds .tombstones)
    (hreadable : ∀ u row, t.Tombstoned u → t.accountRow? u = some row →
      ∃ a, Row.account row = .ok a) :
    let n := (t .tombstones).size
    let pageSize := config.migration.reconcilePageSize.toNat
    let maxAttempts := config.bulk.maxAttempts.toNat
    (∀ {τ : Type} (x : Exposure) (store : Handler τ) (R : τ → Tables → Prop) (start : τ),
      store.Obeys (config.tables.behaviour x) R → R start t →
      let run := r.reconcile.run store.recorded ([], start)
      let made := run.state.1
      run.result ≠ none ∧
      r.pagesBegun made ≤ n / pageSize + 1 ∧
      made.length ≤ (n / pageSize + 1) * (pageSize * (maxAttempts + 5)) ∧
      ∀ pages, n / pageSize < pages →
        (r.sweepPages pageSize pages 0).run.run store start = r.sweep.run.run store start) ∧
    let run := r.reconcile.run Database.handler (config.tables.database t)
    (t.PageFits config → ∃ t', run.result = some (.ok n) ∧
      run.state = config.tables.database t' ∧
      t' .tombstones = .empty ∧ t.Reconciled t.Tombstoned t') ∧
    (¬ t.PageFits config → run.result = some (.error .worker)) := by
  have hsize := one_le_reconcilePageSize_of_ofConfig h
  obtain ⟨rfl, -, hbulk⟩ := validate_of_ofConfig h
  obtain ⟨-, hr⟩ := name_injective_of_ofConfig h
  intro n pageSize maxAttempts
  refine ⟨?_, ?_⟩
  · intro τ x store R start hobeys hstart run made
    obtain ⟨hresult, hbegun, hlength⟩ := run_reconcile_ends hr hsize hobeys hstart hkeyed rfl rfl
    refine ⟨hresult, hbegun, hlength, fun pages hpages => ?_⟩
    exact run_sweepPages_eq_sweep hr hsize hobeys hstart hkeyed hpages
  · intro run
    obtain ⟨ids, hids⟩ := hkeyed.exists_ids
    obtain ⟨t', hstate, hpost⟩ := Script.run_of_within (TableNames.obeys_database hr .calm)
      (within_reconcile_exact hr hbulk hsize hkeyed hids) rfl
    have hn : ids.length = n := SortedMap.length_of_keys hids
    rcases hpost with
      ⟨hfits, -, hresult, ht', hempty⟩ | ⟨hlarge, hresult⟩ | ⟨before, u, e, hblocked, -⟩
    · exact ⟨fun _ => ⟨t', hn ▸ hresult, hstate, hempty,
        ht'.congr fun u => Tables.tombstoned_iff_mem hids⟩, absurd hfits⟩
    · exact ⟨fun hfits => absurd hfits hlarge, fun _ => hresult⟩
    · -- The first row that cannot be read would be that of a tombstone.
      have hok := Tables.deletion_of_readable
        (hreadable u · ((Tables.tombstoned_iff_mem hids).mpr hblocked.mem))
      rw [hblocked.unreadable] at hok
      cases hok

/-- The tombstones of an account with its row and of one that has only a retry entry, swept on
    pages of one. -/
theorem reconcile_exact_pages_of_one :
    let a : Account := ⟨⟨.replicate 16 1, rfl⟩, "+1", 1, {}⟩
    let b : Uuid := ⟨.replicate 16 2, rfl⟩
    let retries : Rows := SortedMap.single (Row.uuidValue b) (Row.ofRetry b "+2")
    let t :=
      ((((Tables.empty.register a).bindLogin "+2" b).set .retries retries).bury a.uuid).bury b
    let config : Config := { migration := { reconcilePageSize := 1 } }
    let r : Registry := ⟨config⟩
    Registry.ofConfig config = .ok r ∧ t.KeyedOnIds .tombstones ∧
      (∀ u row, t.Tombstoned u → t.accountRow? u = some row → ∃ a, Row.account row = .ok a) ∧
      let n := (t .tombstones).size
      let pageSize := config.migration.reconcilePageSize.toNat
      let maxAttempts := config.bulk.maxAttempts.toNat
      (∀ {τ : Type} (x : Exposure) (store : Handler τ) (R : τ → Tables → Prop) (start : τ),
        store.Obeys (config.tables.behaviour x) R → R start t →
        let run := r.reconcile.run store.recorded ([], start)
        let made := run.state.1
        run.result ≠ none ∧
        r.pagesBegun made ≤ n / pageSize + 1 ∧
        made.length ≤ (n / pageSize + 1) * (pageSize * (maxAttempts + 5)) ∧
        ∀ pages, n / pageSize < pages →
          (r.sweepPages pageSize pages 0).run.run store start = r.sweep.run.run store start) ∧
      let run := r.reconcile.run Database.handler (config.tables.database t)
      (t.PageFits config → ∃ t', run.result = some (.ok n) ∧
        run.state = config.tables.database t' ∧
        t' .tombstones = .empty ∧ t.Reconciled t.Tombstoned t') ∧
      (¬ t.PageFits config → run.result = some (.error .worker)) := by
  intro a b retries t config r
  have hconfig : Registry.ofConfig config = .ok r := rfl
  have hkeyed : t.KeyedOnIds .tombstones := by
    refine .bury (.bury (fun key row hkey => ?_) _) _
    change SortedMap.empty.get? key = some row at hkey
    rw [SortedMap.get?_empty] at hkey
    cases hkey
  have hrestorable : t.Restorable := Tables.restorable_empty.register a
  have hreadable : ∀ u row, t.Tombstoned u → t.accountRow? u = some row →
      ∃ a, Row.account row = .ok a := fun u row _ => hrestorable u row
  exact ⟨hconfig, hkeyed, hreadable, reconcile_exact hconfig hkeyed hreadable⟩

/-- There can be `2 ^ 32` tombstones on a page that are drained one at a time.  Their accounts
    have no rows and nothing befalls the sweep, and it panics. -/
theorem reconcile_panics :
    let config : Config := {
      migration := { reconcilePageSize := 4294967296 }
      bulk := { maxBatchSize := 1 } }
    Registry.ofConfig config = .ok ⟨config⟩ ∧
      ∃ t : Tables, t.KeyedOnIds .tombstones ∧ (∀ u, t.accountRow? u = none) ∧
        (t .tombstones).size = 4294967296 ∧
        ((⟨config⟩ : Registry).reconcile.run Database.handler
          (config.tables.database t)).result = some (.error .worker) := by
  intro config
  have hconfig : Registry.ofConfig config = .ok ⟨config⟩ := rfl
  obtain ⟨ids, hnodup, hlength⟩ := exists_ids_of_le (Nat.le_refl (2 ^ 32))
  have hkeyed : (Tables.graveyard ids).KeyedOnIds .tombstones := Tables.keyedOnIds_graveyard ids
  have hcount : ((Tables.graveyard ids) .tombstones).size = 4294967296 :=
    (Tables.size_graveyard hnodup).trans hlength
  have hrow := Tables.accountRow?_graveyard ids
  refine ⟨hconfig, Tables.graveyard ids, hkeyed, hrow, hcount, ?_⟩
  have hlarge : ¬ (Tables.graveyard ids).PageFits config := by
    rw [Tables.PageFits, hcount]
    decide
  have hsize := one_le_reconcilePageSize_of_ofConfig hconfig
  obtain ⟨-, -, hbulk⟩ := validate_of_ofConfig hconfig
  obtain ⟨-, hr⟩ := name_injective_of_ofConfig hconfig
  obtain ⟨us, hus⟩ := hkeyed.exists_ids
  obtain ⟨t', -, hpost⟩ := Script.run_of_within (TableNames.obeys_database hr .calm)
    (within_reconcile_exact hr hbulk hsize hkeyed hus) rfl
  rcases hpost with ⟨hfits, -⟩ | ⟨-, hresult⟩ | ⟨before, u, e, hblocked, -⟩
  · exact absurd hfits hlarge
  · exact hresult
  · have hunreadable := hblocked.unreadable
    rw [Tables.deletion_of_none (hrow u)] at hunreadable
    cases hunreadable

end Registry

end LoginRegistry
