import LoginRegistry.Proofs.Registry.Listing
import LoginRegistry.Proofs.Store.Scanning

/-! # Listing a queue exactly

    A queue is listed in pages of at most `Queue.maxPage` rows, of which the last one is cut to
    what is still wanted.  Whatever its table holds, the list is read from the first rows in key
    order, one id from each, and the first of these rows without an id is the error.

    * `Queue.run_list`: what a listing returns on a table whose items hold their own keys.
    * `pages_cover_table`: reading page by page gives the table, and so does listing a queue.
-/

namespace LoginRegistry

open Store (AttributeValue Database Item Page Table)

/-! ### Ids in rows -/

namespace Row

/-- A row holds an id: sixteen bytes. -/
def HoldsUuid (row : Item) : Prop :=
  ∃ bytes, row.get? uuidName = some (.bytes bytes) ∧ bytes.length = 16

theorem holdsUuid_iff {row : Item} : HoldsUuid row ↔ ∃ u, uuid row = .ok u := by
  simp only [uuid_eq_ok_iff]
  constructor
  · rintro ⟨bytes, hrow, hlength⟩
    exact ⟨⟨bytes, hlength⟩, hrow⟩
  · rintro ⟨u, hrow⟩
    exact ⟨u.bytes, hrow, u.length_bytes⟩

/-- Ids can be read from rows that hold them, and only from these. -/
theorem exists_mapM_uuid_iff {rows : List Item} :
    (∃ us, rows.mapM uuid = .ok us) ↔ ∀ row ∈ rows, HoldsUuid row := by
  induction rows with
  | nil => simp [pure, Except.pure]
  | cons row rows ih =>
    rw [List.forall_mem_cons, ← ih, holdsUuid_iff, List.mapM_cons]
    cases uuid row with
    | error e => simp [bind, Except.bind]
    | ok u =>
      cases rows.mapM uuid with
      | error e => simp [bind, Except.bind]
      | ok us => simp [bind, Except.bind, pure, Except.pure]

/-- Reading ids fails as a corrupt account if some row has none, and not otherwise. -/
theorem exists_fault_mapM_uuid_iff {rows : List Item} :
    (∃ fault, rows.mapM uuid = .error (.corruptAccount fault)) ↔ ∃ row ∈ rows, ¬ HoldsUuid row := by
  constructor
  · rintro ⟨fault, hread⟩
    by_contra hnone
    push Not at hnone
    obtain ⟨us, hus⟩ := exists_mapM_uuid_iff.mpr hnone
    rw [hread] at hus
    cases hus
  · rintro ⟨row, hrow, hnot⟩
    cases hread : rows.mapM uuid with
    | ok us => exact absurd (exists_mapM_uuid_iff.mp ⟨us, hread⟩ row hrow) hnot
    | error e =>
      obtain ⟨row, -, he⟩ := exists_of_mapM_uuid hread
      obtain ⟨fault, rfl⟩ := exists_fault_of_uuid he
      exact ⟨fault, rfl⟩

end Row

/-! ### Listing -/

namespace Queue

variable {q : Queue} {d : Database} {t : Table}

/-- A database answers each request for a page with the page. -/
theorem readsPages_answers (ht : d.get? q.table = some t)
    (bad : Option RegistryError → Database → Prop) :
    q.ReadsPages Database.handler.answers t d bad := by
  refine fun limit start hlimit => Action.within_ofStore (Script.within_send ?_)
  intro answer d' hanswer
  have hscan := Database.scan_of_some ht limit start
  rw [Nat.max_eq_left hlimit] at hscan
  obtain ⟨rfl, rfl⟩ := Prod.mk.inj ((congrArg d.looked hscan).symm.trans hanswer)
  exact ⟨rfl, rfl⟩

/-- What a listing returns, and that it changes nothing. -/
theorem run_list (ht : d.get? q.table = some t) (h : t.Keyed) (count : Nat) :
    let run := (q.list count).run.run Database.handler d
    run.result = some ((t.items.values.take count).mapM Row.uuid) ∧ run.state = d := by
  have hlist : Action.Within Database.handler.answers (q.list count) d
      (fun us d' => (t.items.values.take count).mapM Row.uuid = .ok us ∧ d' = d)
      (fun o d' => o.map .error = some ((t.items.values.take count).mapM Row.uuid) ∧ d' = d) :=
    within_list (readsPages_answers ht _) h (fun us hus => ⟨hus, rfl⟩)
      fun e he => ⟨congrArg some he.symm, rfl⟩
  have hrun := Script.within_answers_iff.mp hlist
  intro run
  split at hrun
  · next us hresult => exact ⟨hresult.trans (congrArg some hrun.1.symm), hrun.2⟩
  · next e hresult => exact ⟨hresult.trans hrun.1, hrun.2⟩
  · next hresult => exact ⟨hresult.trans hrun.1, hrun.2⟩

end Queue

/-! ### The whole table -/

/-- Take a table whose items hold their own keys.  Whatever the limits, reading it page by page
    comes to an end, each page keeps to its limit, and together they are the items in the order
    of their keys, each once.  So a queue in the table, as the tombstones and the retries are, is
    listed from its first rows: one id of each, or the error if some of these hold no id. -/
theorem pages_cover_table {d : Database} {name : String} {t : Table} (ht : d.get? name = some t)
    (h : t.Keyed) :
    (∀ limits : Nat → Nat, (∃ pages, d.Reads name limits none pages) ∧
      ∀ pages, d.Reads name limits none pages →
        pages.flatMap Page.items = t.items.values ∧
        (pages.flatMap Page.items).Pairwise (Item.Before t.partition) ∧
        ∀ i (page : Page), pages[i]? = some page → page.KeepsTo (limits i)) ∧
    ∀ (q : Queue) (count : Nat), q.table = name →
      let first := t.items.values.take count
      let run := (q.list count).run.run Database.handler d
      run.state = d ∧
      ((∀ row ∈ first, Row.HoldsUuid row) → ∃ us, run.result = some (.ok us) ∧
        us.length = min count t.items.size ∧
        List.Forall₂ (fun row u => row.get? Row.uuidName = some (Row.uuidValue u)) first us ∧
        (t.partition = Row.uuidName → us.Pairwise fun u v => compare u v = .lt)) ∧
      ((∃ fault, run.result = some (.error (.corruptAccount fault))) ↔
        ∃ row ∈ first, ¬ Row.HoldsUuid row) := by
  constructor
  · intro limits
    refine ⟨Database.exists_reads ht h limits, fun pages hpages => ?_⟩
    obtain ⟨hvalues, hlimits⟩ := hpages.items_eq ht h
    refine ⟨hvalues, ?_, hlimits⟩
    rw [hvalues]
    exact Database.sorted_values h
  · rintro q count rfl first run
    obtain ⟨hresult, hstate⟩ := Queue.run_list ht h count
    have hresult' : run.result = some (first.mapM Row.uuid) := hresult
    refine ⟨hstate, ?_, ?_⟩
    · intro hrows
      obtain ⟨us, hus⟩ := Row.exists_mapM_uuid_iff.mpr hrows
      have hread := forall₂_of_mapM_uuid hus
      refine ⟨us, hresult'.trans (congrArg some hus), ?_, ?_, fun hpartition => ?_⟩
      · rw [← hread.length_eq, List.length_take, SortedMap.values, List.length_map, SortedMap.size]
      · exact hread.imp fun row u => Row.uuid_eq_ok_iff.mp
      · have hsorted : (t.items.keys.take count).Pairwise fun k l => compare k l = .lt :=
          (List.pairwise_map.mpr t.items.sorted).sublist (List.take_sublist count _)
        rw [← Queue.keys_of_mapM_first h hpartition hus, List.pairwise_map] at hsorted
        simpa only [compare_uuidValue] using hsorted
    · rw [hresult']
      simp only [Option.some.injEq]
      exact Row.exists_fault_mapM_uuid_iff

/-- Two rows with ids are followed by one whose key is too short.  It is read in pages of one and
    of two rows, and only a listing that comes to the third row fails. -/
theorem pages_cover_table_short :
    let uuid (last : UInt8) : Uuid := ⟨List.replicate 15 0 ++ [last], rfl⟩
    let short := Item.key Row.uuidName (.bytes [1])
    let t : Table := Table.put (.put (.put { partition := Row.uuidName } (Row.uuidValue (uuid 7))
      (Row.uuidKey (uuid 7))) (.bytes [1]) short) (Row.uuidValue (uuid 4)) (Row.uuidKey (uuid 4))
    let d : Database := SortedMap.single "queue" t
    let q : Queue := { table := "queue", bulk := {} }
    d.get? "queue" = some t ∧ t.Keyed ∧
      (∃ pages, d.Reads "queue" (fun i => i) none pages ∧
        pages.flatMap Page.items = [Row.uuidKey (uuid 4), Row.uuidKey (uuid 7), short]) ∧
      (∃ us, ((q.list 2).run.run Database.handler d).result = some (.ok us) ∧ us.length = 2) ∧
      ∃ fault, ((q.list 3).run.run Database.handler d).result
        = some (.error (.corruptAccount fault)) := by
  intro uuid short t d q
  have ht : d.get? "queue" = some t := SortedMap.get?_single "queue" "queue" t
  have hkeyed : t.Keyed := by
    have hempty := Table.keyed_empty Row.uuidName
    refine (Table.keyed_put_iff ?_ _ _).mpr (Row.uuid_uuidKey _)
    refine (Table.keyed_put_iff ?_ _ _).mpr (Item.get?_key ..)
    exact (Table.keyed_put_iff hempty _ _).mpr (Row.uuid_uuidKey _)
  have hvalues : t.items.values = [Row.uuidKey (uuid 4), Row.uuidKey (uuid 7), short] := by
    decide +kernel
  have hholds : ∀ last, Row.HoldsUuid (Row.uuidKey (uuid last)) := fun last =>
    ⟨(uuid last).bytes, Row.uuid_uuidKey _, (uuid last).length_bytes⟩
  have hshort : ¬ Row.HoldsUuid short := by
    rintro ⟨bytes, hrow, hlength⟩
    rw [Item.get?_key, Option.some.injEq, AttributeValue.bytes.injEq] at hrow
    rw [← hrow] at hlength
    cases hlength
  obtain ⟨hpages, hlists⟩ := pages_cover_table ht hkeyed
  refine ⟨ht, hkeyed, ?_, ?_, ?_⟩
  · obtain ⟨⟨pages, hreads⟩, hall⟩ := hpages fun i => i
    exact ⟨pages, hreads, (hall pages hreads).1.trans hvalues⟩
  · obtain ⟨-, hlisted, -⟩ := hlists q 2 rfl
    obtain ⟨us, hresult, hlength, -⟩ := hlisted (by simp [hvalues, hholds])
    refine ⟨us, hresult, hlength.trans ?_⟩
    decide +kernel
  · obtain ⟨-, -, hfails⟩ := hlists q 3 rfl
    exact hfails.mpr ⟨short, by simp [hvalues], hshort⟩

end LoginRegistry
