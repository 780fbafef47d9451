import LoginRegistry.Proofs.Registry.Leads
import LoginRegistry.Proofs.Registry.Lookups
import LoginRegistry.Proofs.Store.Behaviour
import LoginRegistry.Proofs.Store.Scanning
import Mathlib.Data.List.Forall2

/-! # Listing a queue

    Reading a queue page by page gives its first ids in key order, however they
    fall on pages, because each page goes on right after the key at which the page
    before ended.  All it takes is that each row holds its own key.

    * `Queue.within_list`: whatever answers the requests for pages, the ids of the first rows
      are listed, or the error is that of the first of these rows without an id.
    * `TableNames.within_list`: the ids are the first keys.
    * `Registry.leads_list`: the same for the queues of some contents.
-/

namespace LoginRegistry

open Store (AttributeValue Item Operation Page Table)

/-! ### Ids of rows -/

/-- Ids are read from rows one by one. -/
theorem forall₂_of_mapM_uuid {rows : List Item} {us : List Uuid}
    (h : rows.mapM Row.uuid = .ok us) :
    List.Forall₂ (fun row u => Row.uuid row = .ok u) rows us := by
  induction rows generalizing us with
  | nil =>
    obtain rfl := Except.ok.inj h
    exact .nil
  | cons row rows ih =>
    rw [List.mapM_cons] at h
    cases hu : Row.uuid row with
    | error e =>
      rw [hu] at h
      cases h
    | ok u =>
      cases hrest : rows.mapM Row.uuid with
      | error e =>
        rw [hu, hrest] at h
        cases h
      | ok us' =>
        rw [hu, hrest] at h
        obtain rfl := Except.ok.inj h
        exact .cons hu (ih hrest)

/-- Ids that are read from rows are the keys of the rows. -/
theorem keys_of_mapM_uuid {l : List (AttributeValue × Item)}
    (hkey : ∀ e ∈ l, e.2.get? Row.uuidName = some e.1) {us : List Uuid}
    (h : (l.map Prod.snd).mapM Row.uuid = .ok us) : l.map Prod.fst = us.map Row.uuidValue := by
  have hread := List.forall₂_map_left_iff.mp (forall₂_of_mapM_uuid h)
  clear h
  induction hread with
  | nil => rfl
  | cons hu _ ih =>
    obtain ⟨he, hl⟩ := List.forall_mem_cons.mp hkey
    have hfirst := Row.uuid_eq_ok_iff.mp hu
    rw [he] at hfirst
    rw [List.map_cons, List.map_cons, ih hl, Option.some.inj hfirst]

/-- Each id that is read is that of a row. -/
theorem exists_of_mem_mapM_uuid {rows : List Item} {us : List Uuid}
    (h : rows.mapM Row.uuid = .ok us) {u : Uuid} (hu : u ∈ us) :
    ∃ row ∈ rows, Row.uuid row = .ok u := by
  have hread := forall₂_of_mapM_uuid h
  clear h
  induction hread with
  | nil => cases hu
  | cons hfirst _ ih =>
    rcases List.mem_cons.mp hu with rfl | hu
    · exact ⟨_, List.mem_cons_self, hfirst⟩
    · obtain ⟨row, hmem, hrow⟩ := ih hu
      exact ⟨row, List.mem_cons_of_mem _ hmem, hrow⟩

/-- Where ids cannot be read there is a row whose id cannot. -/
theorem exists_of_mapM_uuid {l : List Item} {e : RegistryError} (h : l.mapM Row.uuid = .error e) :
    ∃ row ∈ l, Row.uuid row = .error e := by
  induction l with
  | nil => cases h
  | cons row l ih =>
    rw [List.mapM_cons] at h
    cases hu : Row.uuid row with
    | error err =>
      rw [hu] at h
      obtain rfl := Except.error.inj h
      exact ⟨row, List.mem_cons_self, hu⟩
    | ok u =>
      cases hrest : l.mapM Row.uuid with
      | ok us =>
        rw [hu, hrest] at h
        cases h
      | error err =>
        rw [hu, hrest] at h
        obtain rfl := Except.error.inj h
        obtain ⟨row', hmem, hrow'⟩ := ih hrest
        exact ⟨row', List.mem_cons_of_mem _ hmem, hrow'⟩

/-- Ids are read from rows and then from more rows. -/
theorem mapM_uuid_append {rows : List Item} {us : List Uuid} (h : rows.mapM Row.uuid = .ok us)
    (more : List Item) : (rows ++ more).mapM Row.uuid = (us ++ ·) <$> more.mapM Row.uuid := by
  rw [List.mapM_append, h]
  cases more.mapM Row.uuid with
  | ok vs => rfl
  | error e => rfl

/-- A row without an id among the first ones is the error, whatever follows. -/
theorem mapM_uuid_of_front {rows all : List Item} {e : RegistryError} (hrows : rows <+: all)
    (h : rows.mapM Row.uuid = .error e) : all.mapM Row.uuid = .error e := by
  obtain ⟨more, rfl⟩ := hrows
  rw [List.mapM_append, h]
  rfl

/-! ### Collecting pages -/

namespace Queue

variable {q : Queue} {b : Behaviour σ} {t : Table} {st : σ}
  {bad : Option RegistryError → σ → Prop}

/-- The queue lies in a table.  Each page of it that is asked for is read, and the state stays,
    unless it ends badly. -/
def ReadsPages (q : Queue) (b : Behaviour σ) (t : Table) (st : σ)
    (bad : Option RegistryError → σ → Prop) : Prop :=
  ∀ (limit : Nat) (start : Option AttributeValue), 1 ≤ limit →
    Action.Within b (Action.ofStore (Script.scan {
      table := q.table, limit := limit, start := start.map (Item.key t.partition) })) st
      (fun page st' => page = t.page limit start ∧ st' = st) bad

/-- The ids of the first `count` rows, once these have been read. -/
theorem mapM_first {count : Nat} {read rest : List (AttributeValue × Item)}
    (hitems : t.items.toList = read ++ rest) {found : List Uuid}
    (hfound : (read.map Prod.snd).mapM Row.uuid = .ok found) (hread : read.length = count) :
    (t.items.values.take count).mapM Row.uuid = .ok found := by
  rw [SortedMap.values, ← List.map_take, hitems, ← hread, List.take_left', hfound]
  rfl

/-- The ids of the first rows are the first keys where the table is keyed on ids. -/
theorem keys_of_mapM_first (h : t.Keyed) (hpartition : t.partition = Row.uuidName) {count : Nat}
    {us : List Uuid} (hus : (t.items.values.take count).mapM Row.uuid = .ok us) :
    us.map Row.uuidValue = t.items.keys.take count := by
  have hkey : ∀ e ∈ t.items.toList.take count, e.2.get? Row.uuidName = some e.1 := by
    intro e he
    rw [← hpartition]
    exact h e.1 e.2 ((SortedMap.get?_eq_some_iff _ _ _).mpr (List.mem_of_mem_take he))
  rw [SortedMap.values, ← List.map_take] at hus
  rw [← keys_of_mapM_uuid hkey hus, SortedMap.keys, List.map_take]

/-- Pages are collected until there are `count` ids or the table ends. -/
theorem within_collect (hpages : q.ReadsPages b t st bad) (h : t.Keyed) {count pages : Nat}
    {read rest : List (AttributeValue × Item)} (hitems : t.items.toList = read ++ rest)
    {found : List Uuid} (hfound : (read.map Prod.snd).mapM Row.uuid = .ok found)
    (hread : read.length ≤ count) (henough : count ≤ read.length + pages)
    {ok : List Uuid → σ → Prop}
    (hok : ∀ us, (t.items.values.take count).mapM Row.uuid = .ok us → ok us st)
    (hcorrupt : ∀ e, (t.items.values.take count).mapM Row.uuid = .error e → bad (some e) st) :
    Action.Within b (q.collect count pages found (t.resume read)) st ok bad := by
  induction pages generalizing read rest found with
  | zero =>
    exact Action.within_pure (hok _ (mapM_first hitems hfound (Nat.le_antisymm hread henough)))
  | succ pages ih =>
    have hlength : found.length = read.length := by
      rw [← (forall₂_of_mapM_uuid hfound).length_eq, List.length_map]
    rw [collect, hlength]
    by_cases hcount : read.length < count
    · -- A page is read, of one row at least, since there are not enough ids yet.
      obtain ⟨limit, hlimit⟩ : ∃ limit, limit = min (count - read.length) maxPage := ⟨_, rfl⟩
      have hpositive : 1 ≤ limit := by
        rw [hlimit, maxPage]
        omega
      have hpage := hpages limit (read.getLast?.map Prod.fst) hpositive
      rw [Table.page_after h hitems, Option.map_map] at hpage
      rw [if_pos hcount, ← hlimit]
      refine Action.within_bind (Action.Within.mono hpage ?_ fun _ _ => id)
      rintro _ _ ⟨rfl, rfl⟩
      have hnext := mapM_uuid_append hfound ((rest.take limit).map Prod.snd)
      rw [← List.map_append] at hnext
      -- The rows of the page are among the first `count`, so each of them matters.
      have hfront : read ++ rest.take limit <+: t.items.toList.take count := by
        rw [hitems, List.take_append, List.take_of_length_le hread]
        refine (List.prefix_append_right_inj read).mpr (List.take_prefix_take_left ?_)
        omega
      have hfirst : t.items.values.take count = (t.items.toList.take count).map Prod.snd := by
        rw [SortedMap.values, List.map_take]
      cases hus : ((rest.take limit).map Prod.snd).mapM Row.uuid with
      | error e =>
        rw [hus] at hnext
        refine Action.within_throw (hcorrupt e ?_)
        rw [hfirst]
        exact mapM_uuid_of_front (hfront.map Prod.snd) hnext
      | ok us =>
        rw [hus] at hnext
        by_cases hmore : limit < rest.length
        · -- More is to come, so the page has a last row, after which the next one starts.
          obtain ⟨key, hkey, hresume⟩ := Table.exists_resume (t := t) hpositive hmore read
          have hdrop : (rest.drop limit).isEmpty = false := by
            simpa using hmore
          have hlonger : (read ++ rest.take limit).length = read.length + limit := by
            rw [List.length_append, List.length_take_of_le (Nat.le_of_lt hmore)]
          have hih := ih (Table.append_take_drop hitems limit) hnext (by omega) (by omega)
          rw [hresume] at hih
          simp only [hdrop, Bool.false_eq_true, if_false, hkey]
          exact hih
        · -- This page was the last one, so all rows have been read.
          have hfits := Nat.le_of_not_lt hmore
          rw [List.take_of_length_le hfits, ← hitems] at hnext hfront
          have hall : t.items.toList.take count = t.items.toList :=
            (List.take_prefix ..).eq_of_length_le hfront.length_le
          rw [List.drop_of_length_le hfits]
          refine Action.within_pure (hok _ ?_)
          rw [hfirst, hall, hnext]
          rfl
    · rw [if_neg hcount]
      have hlast := Nat.le_antisymm hread (Nat.le_of_not_lt hcount)
      exact Action.within_pure (hok _ (mapM_first hitems hfound hlast))

/-- The ids of the first rows are listed. -/
theorem within_list (hpages : q.ReadsPages b t st bad) (h : t.Keyed) {count : Nat}
    {ok : List Uuid → σ → Prop}
    (hok : ∀ us, (t.items.values.take count).mapM Row.uuid = .ok us → ok us st)
    (hcorrupt : ∀ e, (t.items.values.take count).mapM Row.uuid = .error e → bad (some e) st) :
    Action.Within b (q.list count) st ok bad := by
  have hcollect : Action.Within b (q.collect count count [] none) st
      (fun us st' => us.length ≤ count ∧ ok us st') bad := by
    refine within_collect hpages h (List.nil_append _).symm rfl (Nat.zero_le count)
      (Nat.le_add_left ..) (fun us hus => ⟨?_, hok us hus⟩) hcorrupt
    rw [← (forall₂_of_mapM_uuid hus).length_eq]
    exact List.length_take_le ..
  refine Action.within_bind (Action.Within.mono hcollect ?_ fun _ _ => id)
  rintro us st' ⟨hlength, hus⟩
  rw [List.take_of_length_le hlength]
  exact Action.within_pure hus

end Queue

/-! ### Queues of a registry -/

namespace TableNames

variable {n : TableNames} (hn : Function.Injective n.name) {x : Exposure} {t : Tables}
  {bad : Option RegistryError → Tables → Prop} {i : TableId}

include hn

theorem readsPages {q : Queue} (hq : q.table = n.name i)
    (hspoiled : ∀ request m o, x request m = true → m.Brings o → bad o t) :
    q.ReadsPages (n.behaviour x) { partition := i.partition, items := t i } t bad := by
  intro limit start hlimit
  have hscan := scan_database hn t i limit start
  rw [Nat.max_eq_left hlimit, ← hq] at hscan
  exact within_ofStore_send hn nofun (congrArg (n.database t).looked hscan) ⟨rfl, rfl⟩
    (hspoiled _)

/-- The first ids of a queue are listed, and nothing is changed. -/
theorem within_list {q : Queue} (hq : q.table = n.name i) (hi : i.partition = Row.uuidName)
    (hkeyed : t.KeyedAt i) {count : Nat} {ok : List Uuid → Tables → Prop}
    (hok : ∀ us, us.map Row.uuidValue = (t i).keys.take count → ok us t)
    (hcorrupt : ∀ row ∈ (t i).values, ∀ e, Row.uuid row = .error e → bad (some e) t)
    (hspoiled : ∀ request m o, x request m = true → m.Brings o → bad o t) :
    Action.Within (n.behaviour x) (q.list count) t ok bad := by
  have htable : Table.Keyed { partition := i.partition, items := t i } := hkeyed
  refine Queue.within_list (readsPages hn hq hspoiled) htable ?_ fun e he => ?_
  · exact fun us hus => hok us (Queue.keys_of_mapM_first htable hi hus)
  · obtain ⟨row, hrow, hread⟩ := exists_of_mapM_uuid he
    exact hcorrupt row (List.mem_of_mem_take hrow) e hread

end TableNames

/-! ### Queues of contents -/

namespace Registry

variable {r : Registry} {exposed : Operation → String → Bool} {c : Contents}
  {bad : Option RegistryError → Contents → Prop}

/-- The rows of a queue: those of a map of ids, each with its id. -/
structure Lists (r : Registry) (c : Contents) (q : Queue) (i : TableId) (m : SortedMap Uuid ν)
    (row : Uuid → ν → Item) : Prop where
  /-- The queue lies in this table. -/
  table : q.table = r.config.tables.name i
  /-- The table is keyed on ids. -/
  partition : i.partition = Row.uuidName
  /-- The table holds these rows. -/
  rows : c.tables i = m.rekey Row.uuidValue compare_uuidValue row
  /-- The key of a row is its id. -/
  key : ∀ u v, (row u v).get? Row.uuidName = some (Row.uuidValue u)

theorem lists_tombstones :
    Lists r c r.tombstones .tombstones c.tombstones fun u _ => Row.uuidKey u :=
  ⟨rfl, rfl, rfl, fun u _ => Row.uuid_uuidKey u⟩

theorem lists_retries : Lists r c r.retries .retries c.retries Row.ofRetry :=
  ⟨rfl, rfl, rfl, Row.uuid_ofRetry⟩

/-- Each row of a queue is that of an entry. -/
theorem Lists.exists_of_mem {q : Queue} {i : TableId} {m : SortedMap Uuid ν}
    {row : Uuid → ν → Item} (hq : Lists r c q i m row) {e : AttributeValue × Item}
    (he : e ∈ (c.tables i).toList) :
    ∃ u, e.1 = Row.uuidValue u ∧ e.2.get? Row.uuidName = some (Row.uuidValue u) := by
  rw [hq.rows, SortedMap.toList_rekey] at he
  obtain ⟨⟨u, v⟩, -, rfl⟩ := List.mem_map.mp he
  exact ⟨u, rfl, hq.key u v⟩

theorem Lists.keyedAt {q : Queue} {i : TableId} {m : SortedMap Uuid ν} {row : Uuid → ν → Item}
    (hq : Lists r c q i m row) : c.tables.KeyedAt i := by
  intro key item hget
  obtain ⟨u, hkey, hitem⟩ := hq.exists_of_mem ((SortedMap.get?_eq_some_iff _ _ _).mp hget)
  rw [hq.partition, hitem, ← hkey]

theorem Lists.keys_eq {q : Queue} {i : TableId} {m : SortedMap Uuid ν} {row : Uuid → ν → Item}
    (hq : Lists r c q i m row) : (c.tables i).keys = m.keys.map Row.uuidValue := by
  simp only [SortedMap.keys, hq.rows, SortedMap.toList_rekey, List.map_map, Function.comp_def]

/-- The ids of the first rows are the first ids. -/
theorem Lists.eq_take {q : Queue} {i : TableId} {m : SortedMap Uuid ν} {row : Uuid → ν → Item}
    (hq : Lists r c q i m row) {us : List Uuid} {count : Nat}
    (hus : us.map Row.uuidValue = (c.tables i).keys.take count) : us = m.keys.take count := by
  rw [hq.keys_eq, ← List.map_take] at hus
  exact (List.map_injective_iff.mpr fun u v => Row.uuidValue_inj.mp) hus

/-- Every row of a queue can be read. -/
theorem Lists.uuid_ne_error {q : Queue} {i : TableId} {m : SortedMap Uuid ν}
    {row : Uuid → ν → Item} (hq : Lists r c q i m row) {item : Item}
    (hitem : item ∈ (c.tables i).values) (e : RegistryError) : Row.uuid item ≠ .error e := by
  intro he
  obtain ⟨e', hmem, rfl⟩ := List.mem_map.mp hitem
  obtain ⟨u, -, hkey⟩ := hq.exists_of_mem hmem
  rw [Row.uuid_eq_ok_iff.mpr hkey] at he
  cases he

/-- The first ids of a queue are listed, and nothing is changed. -/
theorem leads_list (hr : Function.Injective r.config.tables.name) {q : Queue} {i : TableId}
    {m : SortedMap Uuid ν} {row : Uuid → ν → Item} (hq : Lists r c q i m row) {count : Nat}
    {ok : List Uuid → Contents → Prop} (hok : ok (m.keys.take count) c)
    (hspoiled : ∀ operation table, exposed operation table = true → ∀ o, Spoiled o → bad o c) :
    r.Leads exposed (q.list count) c ok bad := by
  refine leads_of_within hr (TableNames.within_list hr hq.table hq.partition hq.keyedAt ?_ ?_ ?_)
  · intro us hus
    obtain rfl := hq.eq_take hus
    exact ⟨c, rfl, hok⟩
  · exact fun item hitem e he => absurd he (hq.uuid_ne_error hitem e)
  · intro request m o hm ho
    obtain ⟨hspoilt, operation, table, hx⟩ := spoiled_of_brings hm ho
    exact ⟨c, rfl, hspoiled operation table hx o hspoilt⟩

end Registry

end LoginRegistry
