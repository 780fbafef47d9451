import LoginRegistry.Proofs.Registry.Draining
import LoginRegistry.Proofs.Registry.Listing
import LoginRegistry.Proofs.Registry.Runs
import LoginRegistry.Proofs.Registry.Serving
import Mathlib.Data.Fintype.BigOperators

/-! # Sweeps on any tables

    A sweep deletes the accounts of a page once more and drains their tombstones, page
    after page.  What it keeps and when it ends is said once, for whatever a delete keeps
    (`Sweepable`):

    * `Sweepable.keeps_reconcile`: a sweep keeps it too, wherever it is cut off.
    * `Sweepable.within_reconcile_calm`: a sweep that nothing befalls goes on until no
      tombstone is left, and succeeds, if its pages are not too large to be drained
      (`Tables.PageFits`).  If they are, it panics at the first one.
-/

namespace LoginRegistry

open Store (AttributeValue Item)

/-! ### How many ids there are -/

/-- Different ids are no more than there are lists of sixteen bytes. -/
theorem Uuid.length_le_of_nodup {us : List Uuid} (h : us.Nodup) :
    us.length ≤ Registry.maxSweepPages := by
  let bytes (u : Uuid) : List.Vector (Fin 256) 16 :=
    ⟨u.bytes.map UInt8.toFin, by rw [List.length_map, u.length_bytes]⟩
  have hinjective : Function.Injective bytes := by
    intro u v huv
    have hmap : u.bytes.map UInt8.toFin = v.bytes.map UInt8.toFin := congrArg Subtype.val huv
    have hbytes := (List.map_injective_iff.mpr fun a b => UInt8.toFin_inj.mp) hmap
    exact Row.uuidValue_inj.mp (congrArg AttributeValue.bytes hbytes)
  have hcard := (h.map hinjective).length_le_card
  rw [List.length_map, card_vector, Fintype.card_fin] at hcard
  exact hcard.trans (by decide)

/-! ### The largest page -/

/-- The tombstones of the largest page of a sweep can be drained at once: the bulk requests that it
    takes can be counted. -/
def Tables.PageFits (t : Tables) (config : Config) : Prop :=
  min config.migration.reconcilePageSize.toNat (t .tombstones).size ≤ config.bulk.maxRemovals

theorem Tables.PageFits.of_pageSize {config : Config}
    (h : config.migration.reconcilePageSize.toNat ≤ config.bulk.maxRemovals) (t : Tables) :
    t.PageFits config :=
  (Nat.min_le_left ..).trans h

theorem Tables.PageFits.of_empty {config : Config} {t : Tables} (h : t .tombstones = .empty) :
    t.PageFits config := by
  rw [PageFits, h]
  exact (Nat.min_le_right ..).trans (Nat.zero_le _)

/-! ### Tables of ids -/

namespace Tables

/-- Each row of a table holds its own key, which is the id of an account. -/
def KeyedOnIds (t : Tables) (i : TableId) : Prop :=
  ∀ key row, (t i).get? key = some row →
    ∃ u, key = Row.uuidValue u ∧ row.get? Row.uuidName = some (Row.uuidValue u)

theorem KeyedOnIds.congr {t t' : Tables} {i : TableId} (h : t.KeyedOnIds i) (hi : t' i = t i) :
    t'.KeyedOnIds i := by
  intro key row
  rw [hi]
  exact h key row

theorem KeyedOnIds.bury {t : Tables} (h : t.KeyedOnIds .tombstones) (u : Uuid) :
    (t.bury u).KeyedOnIds .tombstones := by
  intro key row hrow
  rw [Tables.bury, set_self, SortedMap.get?_insert_eq] at hrow
  split at hrow
  · next hkey =>
    obtain rfl := Option.some.inj hrow
    exact ⟨u, hkey, Row.uuid_uuidKey u⟩
  · exact h key row hrow

/-- The keys of a table that is keyed on ids are those of some ids. -/
theorem KeyedOnIds.exists_ids {t : Tables} {i : TableId} (h : t.KeyedOnIds i) :
    ∃ us : List Uuid, us.map Row.uuidValue = (t i).keys := by
  refine (Set.ext_iff.mp (Set.range_list_map Row.uuidValue) (t i).keys).mpr fun key hkey => ?_
  obtain ⟨row, hrow⟩ := Option.isSome_iff_exists.mp ((SortedMap.mem_keys_iff _ _).mp hkey)
  obtain ⟨u, rfl, -⟩ := h key row hrow
  exact ⟨u, rfl⟩

/-- A table that is keyed on ids has no more rows than there are ids. -/
theorem KeyedOnIds.size_le {t : Tables} {i : TableId} (h : t.KeyedOnIds i) :
    (t i).size ≤ Registry.maxSweepPages := by
  obtain ⟨us, hus⟩ := h.exists_ids
  have hnodup : us.Nodup := .of_map Row.uuidValue (hus ▸ SortedMap.nodup_keys (t i))
  exact SortedMap.length_of_keys hus ▸ Uuid.length_le_of_nodup hnodup

/-- Removing the first tombstones leaves the others. -/
theorem toList_unbury {t : Tables} {us : List Uuid} {count : Nat}
    (h : us.map Row.uuidValue = (t .tombstones).keys.take count) :
    ((t.unbury us) .tombstones).toList = (t .tombstones).toList.drop us.length := by
  have hprefix : us.map Row.uuidValue <+: (t .tombstones).keys := h ▸ List.take_prefix ..
  have herase := SortedMap.toList_foldl_erase hprefix
  rwa [List.foldl_map, List.length_map] at herase

/-- Drained tombstones leave a table of ids. -/
theorem KeyedOnIds.unbury {t : Tables} (h : t.KeyedOnIds .tombstones) (us : List Uuid) :
    (t.unbury us).KeyedOnIds .tombstones := by
  intro key row hrow
  rw [get?_unbury] at hrow
  split at hrow
  · cases hrow
  · exact h key row hrow

end Tables

/-! ### What deletes keep -/

namespace Registry

variable {r : Registry} {x : Exposure} {I : Tables → Prop} {Gone : Tables → Uuid → Prop}
  {t : Tables}

/-- The deletes of a sweep keep `I`, and so does draining the tombstones of accounts that
    are gone.  If nothing befalls a delete, its account is gone. -/
structure Sweepable (r : Registry) (x : Exposure) (I : Tables → Prop)
    (Gone : Tables → Uuid → Prop) : Prop where
  /-- Tombstones can be listed. -/
  keyed : ∀ {t : Tables}, I t → t.KeyedOnIds .tombstones
  /-- Accounts with a tombstone can be deleted. -/
  delete : ∀ {t : Tables} {u : Uuid}, I t → t.Tombstoned u →
    (r.deleteWith u .reconcile).Within (r.config.tables.behaviour x) t
      (fun _ t' => I t' ∧ t' .tombstones = t .tombstones ∧ ∀ v, v = u ∨ Gone t v → Gone t' v)
      fun _ t' => (∃ request m, x request m = true) ∧ I t'
  /-- Tombstones of accounts that are gone can be drained. -/
  unbury : ∀ {t : Tables} {us : List Uuid}, I t → (∀ u ∈ us, Gone t u) → I (t.unbury us)

namespace Sweepable

/-- Deletes one after the other. -/
theorem within_deletes (hI : Sweepable r x I Gone) (ht : I t) {us : List Uuid}
    (hus : ∀ u ∈ us, t.Tombstoned u) :
    Action.Within (r.config.tables.behaviour x) (us.forM fun u => r.deleteWith u .reconcile) t
      (fun _ t' => I t' ∧ t' .tombstones = t .tombstones ∧ ∀ u ∈ us, Gone t' u)
      fun _ t' => (∃ request m, x request m = true) ∧ I t' := by
  -- Of the accounts of the page, those that are not left to be deleted are gone.
  refine Action.Within.mono (Action.within_forM
    (J := fun left t' => I t' ∧ t' .tombstones = t .tombstones ∧
      (∀ v ∈ left, v ∈ us) ∧ ∀ v ∈ us, v ∈ left ∨ Gone t' v)
    (fun u left t' => ?_) ⟨ht, rfl, fun _ => id, fun _ => .inl⟩) ?_ fun _ _ => id
  · rintro ⟨ht', htombstones, hleft, hgone⟩
    obtain ⟨hu, hleft⟩ := List.forall_mem_cons.mp hleft
    have hburied : t'.Tombstoned u := (Tables.tombstoned_congr htombstones u).mpr (hus u hu)
    refine Action.Within.mono (hI.delete ht' hburied) ?_ fun _ _ => id
    rintro - t'' ⟨ht'', hsame, hrows⟩
    refine ⟨ht'', hsame.trans htombstones, hleft, fun v hv => ?_⟩
    rcases hgone v hv with hmem | hv'
    · rcases List.mem_cons.mp hmem with rfl | hmem
      · exact .inr (hrows v (.inl rfl))
      · exact .inl hmem
    · exact .inr (hrows v (.inr hv'))
  · rintro - t' ⟨ht', htombstones, -, hgone⟩
    exact ⟨ht', htombstones, fun u hu => (hgone u hu).resolve_left List.not_mem_nil⟩

section valid

variable (hr : Function.Injective r.config.tables.name)

include hr

/-- Tombstones are listed. -/
theorem within_list (hkeyed : t.KeyedOnIds .tombstones) (count : Nat) :
    (r.tombstones.list count).Within (r.config.tables.behaviour x) t
      (fun us t' => t' = t ∧ us.map Row.uuidValue = (t .tombstones).keys.take count ∧
        ∀ u ∈ us, t.Tombstoned u)
      fun _ t' => (∃ request m, x request m = true) ∧ t' = t := by
  have hkeyedAt : t.KeyedAt .tombstones := by
    intro key row hrow
    obtain ⟨u, rfl, hu⟩ := hkeyed key row hrow
    exact hu
  refine TableNames.within_list hr rfl rfl hkeyedAt ?_ ?_ ?_
  · exact fun us hkeys => ⟨rfl, hkeys, fun u hu => Tables.tombstoned_of_map_eq hkeys hu⟩
  · intro row hrow e he
    obtain ⟨⟨key, row⟩, hmem, rfl⟩ := List.mem_map.mp hrow
    obtain ⟨u, -, hu⟩ := hkeyed key row ((SortedMap.get?_eq_some_iff _ _ _).mpr hmem)
    rw [Row.uuid_eq_ok_iff.mpr hu] at he
    cases he
  · intro request m o hm _
    exact ⟨⟨request, m, hm⟩, rfl⟩

/-! ### Sweeps that are cut off -/

theorem keeps_sweepPages (hI : Sweepable r x I Gone) (pageSize pages processed : Nat) :
    (r.sweepPages pageSize pages processed).Keeps (r.config.tables.behaviour x) I := by
  induction pages generalizing processed with
  | zero => exact .pure processed
  | succ pages ih =>
    refine Action.keeps_of_within fun t ht => Action.within_bind
      (Action.Within.mono (within_list hr (hI.keyed ht) pageSize) ?_ ?_)
    · rintro us _ ⟨rfl, -, hus⟩
      split
      · exact Action.within_pure ht
      · refine Action.within_bind (Action.within_bind (Action.Within.mono
          (hI.within_deletes ht hus) ?_ fun _ _ => And.right))
        rintro - t' ⟨ht', -, hgone⟩
        -- Whatever part of the page is drained, its accounts are gone.
        have hdrained : ∀ t'', t'.Drained us t'' → I t'' := by
          rintro _ ⟨gone, hsub, rfl⟩
          exact hI.unbury ht' fun u hu => hgone u (hsub hu)
        refine TableNames.within_removeAll hr rfl us ?_ fun _ => hdrained
        intro outcome t'' ht''
        simp only
        split
        · exact Action.within_pure (hdrained t'' ht'')
        · exact (ih _).within (hdrained t'' ht'')
    · rintro _ _ ⟨-, rfl⟩
      exact ht

theorem keeps_reconcile (hI : Sweepable r x I Gone) :
    r.reconcile.Keeps (r.config.tables.behaviour x) I :=
  keeps_reconcile_of_sweep (hI.keeps_sweepPages hr _ _ _)

/-! ### The sweep that nothing befalls -/

variable (hbulk : r.config.bulk.validate = .ok ())

include hbulk

/-- With a page for each tombstone and one more, pages are swept until no tombstone is
    left.  A page that is too large to be drained is the first one. -/
theorem within_sweepPages_calm (hI : Sweepable r .calm I Gone) {pageSize : Nat}
    (hsize : 1 ≤ pageSize) {pages : Nat} (processed : Nat) (ht : I t)
    (hpages : (t .tombstones).size < pages) :
    let fits := min pageSize (t .tombstones).size ≤ r.config.bulk.maxRemovals
    (r.sweepPages pageSize pages processed).Within (r.config.tables.behaviour .calm) t
      (fun _ t' => fits ∧ I t' ∧ t' .tombstones = .empty) fun o _ => o = none ∧ ¬ fits := by
  intro fits
  have hcalm : ∀ {P Q : Prop}, (∃ request m, Exposure.calm request m = true) ∧ P → Q :=
    fun ⟨⟨_, _, hm⟩, _⟩ => (Exposure.not_calm hm).elim
  induction pages generalizing processed t with
  | zero => exact absurd hpages (Nat.not_lt_zero _)
  | succ pages ih =>
    refine Action.within_bind (Action.Within.mono (within_list hr (hI.keyed ht) pageSize) ?_
      fun _ _ => hcalm)
    rintro us t' ⟨rfl, hkeys, hus⟩
    have hlength : us.length = min pageSize (t' .tombstones).size := by
      have hlength := congrArg List.length hkeys
      rwa [List.length_map, List.length_take, SortedMap.keys, List.length_map] at hlength
    have hfits : fits ↔ us.length ≤ r.config.bulk.maxRemovals := by rw [hlength]
    rw [SortedMap.size] at hpages hlength
    split
    · next hnone =>
      -- No tombstone is listed, so none is there.
      have hzero : us.length = 0 := congrArg List.length (List.isEmpty_iff.mp hnone)
      refine Action.within_pure ⟨hfits.mpr (hzero ▸ Nat.zero_le _), ht,
        SortedMap.ext_toList (List.length_eq_zero_iff.mp ?_)⟩
      omega
    · next hsome =>
      have hpositive : us.length ≠ 0 := fun hzero =>
        hsome (List.isEmpty_iff.mpr (List.length_eq_zero_iff.mp hzero))
      refine Action.within_bind (Action.within_bind (Action.Within.mono
        (hI.within_deletes ht hus) ?_ fun _ _ => hcalm))
      rintro - t'' ⟨ht'', htombstones, hgone⟩
      refine TableNames.within_removeAll_calm hr rfl hbulk us (fun hdrain outcome hcomplete => ?_)
        fun hlarge _ => ⟨rfl, fun h => Nat.not_lt.mpr (hfits.mp h) hlarge⟩
      have hdrained := hI.unbury ht'' hgone
      have hleft : ((t''.unbury us) .tombstones).toList
          = (t' .tombstones).toList.drop us.length := by
        rw [← htombstones] at hkeys ⊢
        exact Tables.toList_unbury hkeys
      have hleftLength := congrArg List.length hleft
      rw [List.length_drop] at hleftLength
      simp only [hcomplete, Bool.not_true, Bool.false_or, decide_eq_true_eq]
      split
      · -- A short page holds all tombstones.
        refine Action.within_pure ⟨hfits.mpr hdrain, hdrained,
          SortedMap.ext_toList (List.length_eq_zero_iff.mp ?_)⟩
        omega
      · -- The pages after this one are no larger.
        have hsmaller : min pageSize ((t''.unbury us) .tombstones).size ≤ us.length := by
          rw [SortedMap.size]
          omega
        refine Action.Within.mono (ih _ hdrained (by rw [SortedMap.size]; omega)) ?_ ?_
        · exact fun _ _ hdone => ⟨hfits.mpr hdrain, hdone.2⟩
        · exact fun _ _ hlarge => absurd (hsmaller.trans hdrain) hlarge.2

/-- A sweep that nothing befalls succeeds and leaves no tombstone, or it panics at a page that is
    too large to be drained. -/
theorem within_reconcile_exact_calm (hI : Sweepable r .calm I Gone) (ht : I t) :
    r.reconcile.Within (r.config.tables.behaviour .calm)
      (fun o t' => t.PageFits r.config ∧ (∃ processed, o = some (.ok processed)) ∧ I t' ∧
          t' .tombstones = .empty ∨
        ¬ t.PageFits r.config ∧ o = some (.error .worker)) t := by
  have hone := BulkSettings.one_le_maxRemovals hbulk
  -- A page size of zero would be read as one, and a page of one fits.
  have hfits : t.PageFits r.config ↔ min (max r.config.migration.reconcilePageSize.toNat 1)
      (t .tombstones).size ≤ r.config.bulk.maxRemovals := by
    unfold Tables.PageFits
    omega
  -- There are no more tombstones than ids, so the pages are enough.
  have hsweep := hI.within_sweepPages_calm hr hbulk (Nat.le_max_right
    r.config.migration.reconcilePageSize.toNat 1) 0 ht (Nat.lt_succ_of_le (hI.keyed ht).size_le)
  refine within_reconcile_of_sweep (Action.Within.mono hsweep ?_ ?_)
  · exact fun processed t' ⟨hfit, ht'⟩ => .inl ⟨hfits.mpr hfit, ⟨processed, rfl⟩, ht'⟩
  · rintro _ _ ⟨rfl, hlarge⟩
    exact .inr ⟨mt hfits.mp hlarge, rfl⟩

/-- A sweep that nothing befalls succeeds and leaves no tombstone, if its pages can be drained at
    once. -/
theorem within_reconcile_calm (hI : Sweepable r .calm I Gone) (ht : I t)
    (hfits : t.PageFits r.config) :
    r.reconcile.Within (r.config.tables.behaviour .calm)
      (fun o t' => (∃ processed, o = some (.ok processed)) ∧ I t' ∧ t' .tombstones = .empty) t := by
  refine Script.Within.mono (hI.within_reconcile_exact_calm hr hbulk ht) fun o t' hdone => ?_
  rcases hdone with ⟨-, hdone⟩ | ⟨hlarge, -⟩
  · exact hdone
  · exact absurd hfits hlarge

end valid

end Sweepable

end Registry

end LoginRegistry
