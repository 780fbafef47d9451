import LoginRegistry.Proofs.Store.Parting
import LoginRegistry.Proofs.Store.Requests

/-! # All or nothing

    A write that fails leaves every table as it is.  One that succeeds and is no bulk write
    changes at most the item under its key.  A bulk write does what its writes do one by one.

    * `sameExcept_of_edit`: an edit changes at most the item under its key.
    * `bulkWrite_eq_ok_iff`: when a bulk write succeeds.
    * `run_bulkWriteInPlace`: also when the writes are applied in place, one after the other
      and each with its look-ups made again, nothing stops a bulk write after its first write.
-/

namespace LoginRegistry.Store

/-- The table that a write of one item names, and the item that holds its key. -/
def Request.target? : Request → Option (String × Item)
  | .put r => some (r.table, r.item)
  | .update r => some (r.table, r.key)
  | .delete r => some (r.table, r.key)
  | .get _ | .bulkWrite _ | .scan _ => none

namespace Database

/-! ### Writes of one item -/

/-- The same tables with the same items, but for what is stored under one key of one table. -/
structure SameExcept (name : String) (key : AttributeValue) (d d' : Database) : Prop where
  /-- The tables and their partition attributes are the same. -/
  partition : ∀ n, (d'.get? n).map Table.partition = (d.get? n).map Table.partition
  /-- The other items are the same. -/
  item : ∀ n k, ¬ (n = name ∧ k = key) → d'.item? n k = d.item? n k

variable {d d' : Database}

/-- Changing a table under one key changes the database under one key. -/
theorem sameExcept_insert {name : String} {key : AttributeValue} {t t' : Table}
    (ht : d.get? name = some t) (hpartition : t'.partition = t.partition)
    (hitems : ∀ k, k ≠ key → t'.items.get? k = t.items.get? k) :
    SameExcept name key d (d.insert name t') := by
  constructor
  · intro n
    rw [SortedMap.get?_insert_eq]
    by_cases hn : n = name
    · simp [hn, ht, hpartition]
    · simp [hn]
  · intro n k hother
    unfold item?
    rw [SortedMap.get?_insert_eq]
    by_cases hn : n = name
    · have hk : k ≠ key := fun hk => hother ⟨hn, hk⟩
      simp [hn, ht, hitems k hk]
    · simp [hn]

/-- An edit that changes its table under its key changes the database under that key. -/
theorem sameExcept_of_edit (f : Table → AttributeValue → Table) {name : String} {item : Item}
    {condition : Option Condition} {returnOld : Bool}
    (hpartition : ∀ t key, (f t key).partition = t.partition)
    (hitems : ∀ t key k, k ≠ key → (f t key).items.get? k = t.items.get? k)
    (h : d.edit name item condition returnOld f = .ok d') :
    ∃ key, d.keyOf? name item = some key ∧ SameExcept name key d d' := by
  obtain ⟨t, key, ht, hkey, -, rfl⟩ := edit_eq_ok_iff.mp h
  refine ⟨key, ?_, sameExcept_insert ht (hpartition t key) (hitems t key)⟩
  simp [keyOf?, ht, hkey]

theorem sameExcept_of_put {r : Put} (h : d.put r = .ok d') :
    ∃ key, d.keyOf? r.table r.item = some key ∧ SameExcept r.table key d d' := by
  rw [put_eq_edit] at h
  refine sameExcept_of_edit (fun t key => t.put key r.item) (fun _ _ => rfl) ?_ h
  exact fun t key k hk => SortedMap.get?_insert_ne t.items hk r.item

theorem sameExcept_of_update {r : Update} (h : d.update r = .ok d') :
    ∃ key, d.keyOf? r.table r.key = some key ∧ SameExcept r.table key d d' := by
  rw [update_eq_edit] at h
  refine sameExcept_of_edit (fun t key =>
    t.put key (((t.items.get? key).getD r.key).union r.set)) (fun _ _ => rfl) ?_ h
  exact fun t key k hk => SortedMap.get?_insert_ne t.items hk _

theorem sameExcept_of_delete {r : Delete} (h : d.delete r = .ok d') :
    ∃ key, d.keyOf? r.table r.key = some key ∧ SameExcept r.table key d d' := by
  rw [delete_eq_edit] at h
  refine sameExcept_of_edit (fun t key => t.delete key) (fun _ _ => rfl) ?_ h
  exact fun t key k hk => SortedMap.get?_erase_ne t.items hk

/-! ### Answers -/

theorem ok_of_written {result : Except Error Database}
    (h : (d.written result).1 = .ok ()) : result = .ok (d.written result).2 := by
  cases result with
  | ok d' => rfl
  | error e => cases h

/-- Looking leaves the database as it is. -/
theorem looked_snd (result : Except Error α) : (d.looked result).2 = d := by
  cases result <;> rfl

/-- A request that fails leaves the database as it is. -/
theorem eq_of_respond_failed {request : Request} {e : Error}
    (h : (d.respond request).1 = .failed e) : (d.respond request).2 = d := by
  have hwritten : ∀ result, (d.written result).1 = .failed e → (d.written result).2 = d := by
    intro result hresult
    cases result with
    | ok d' => cases hresult
    | error e' => rfl
  cases request with
  | put r => exact hwritten _ h
  | update r => exact hwritten _ h
  | delete r => exact hwritten _ h
  | get r => exact looked_snd _
  | scan r => exact looked_snd _
  | bulkWrite w =>
    simp only [respond] at h ⊢
    cases hbulk : d.bulkWrite w with
    | ok d' => simp [hbulk] at h
    | error e' => rfl

/-- A write of one item that succeeds changes at most the item under its key. -/
theorem sameExcept_of_respond {request : Request} {name : String} {item : Item}
    {reply : request.Reply} (htarget : request.target? = some (name, item))
    (h : (d.respond request).1 = .ok reply) :
    ∃ key, d.keyOf? name item = some key ∧ SameExcept name key d (d.respond request).2 := by
  cases request with
  | put r =>
    obtain ⟨rfl, rfl⟩ := Prod.mk.inj (Option.some.inj htarget)
    exact sameExcept_of_put (ok_of_written h)
  | update r =>
    obtain ⟨rfl, rfl⟩ := Prod.mk.inj (Option.some.inj htarget)
    exact sameExcept_of_update (ok_of_written h)
  | delete r =>
    obtain ⟨rfl, rfl⟩ := Prod.mk.inj (Option.some.inj htarget)
    exact sameExcept_of_delete (ok_of_written h)
  | get r => cases htarget
  | bulkWrite w => cases htarget
  | scan r => cases htarget

/-! ### Writes one by one -/

/-- Answers one write of a bulk request as an unconditional request of its own. -/
def write (d : Database) (e : String × Write) : Except Error Database :=
  match e.2 with
  | .put item => d.put { table := e.1, item := item }
  | .delete key => d.delete { table := e.1, key := key }

/-- A write that the database takes succeeds and is applied. -/
theorem write_of_takes {e : String × Write} (h : d.takes e = true) :
    d.write e = .ok (d.applyWrite e) := by
  obtain ⟨t, ht, hsome⟩ := (Option.any_eq_true _ _).mp h
  obtain ⟨key, hkey⟩ := Option.isSome_iff_exists.mp hsome
  have happly : d.applyWrite e = d.insert e.1 (t.apply e.2) := by
    simp only [applyWrite, ht]
  unfold write
  rw [happly]
  unfold Table.apply
  rw [hkey]
  cases hw : e.2 with
  | put item =>
    rw [hw] at hkey
    exact (put_eq_edit d _).trans (edit_of_some ht hkey)
  | delete item =>
    rw [hw] at hkey
    exact (delete_eq_edit d _).trans (edit_of_some ht hkey)

/-- Writes that the database takes succeed one after the other. -/
theorem foldlM_write {writes : List (String × Write)} (h : ∀ e ∈ writes, d.takes e = true) :
    writes.foldlM write d = .ok (writes.foldl applyWrite d) := by
  induction writes generalizing d with
  | nil => rfl
  | cons e writes ih =>
    obtain ⟨he, hrest⟩ := List.forall_mem_cons.mp h
    have htakes : ∀ e' ∈ writes, (d.applyWrite e).takes e' = true := by
      intro e' he'
      rw [show d.applyWrite e = [e].foldl applyWrite d from rfl, takes_foldl]
      exact hrest e' he'
    rw [List.foldlM_cons, write_of_takes he]
    exact ih htakes

/-! ### Bulk writes -/

/-- What a bulk request has to be like: one to twenty-five writes in total, every table that it
    names is there, and every write holds the partition attribute of its table. -/
structure Admits (d : Database) (w : Writes) : Prop where
  lower : 1 ≤ w.count
  upper : w.count ≤ 25
  tables : ∀ e ∈ w.toList, ∃ t, d.get? e.1 = some t ∧
    ∀ write ∈ e.2, (write.item.get? t.partition).isSome = true

theorem Admits.takes {w : Writes} (h : d.Admits w) : ∀ e ∈ w.flatten, d.takes e = true := by
  intro e he
  obtain ⟨writes, hmem, hwrite⟩ := Writes.mem_flatten.mp he
  obtain ⟨t, ht, hkeys⟩ := h.tables _ hmem
  simp [Database.takes, ht, hkeys _ hwrite]

theorem ok_of_forM {f : α → Except ε PUnit} {l : List α} (h : l.forM f = .ok ⟨⟩) :
    ∀ a ∈ l, f a = .ok ⟨⟩ := by
  induction l with
  | nil => exact List.forall_mem_nil _
  | cons a l ih =>
    rw [List.forM] at h
    cases ha : f a with
    | error e =>
      rw [ha] at h
      cases h
    | ok _ =>
      rw [ha] at h
      exact List.forall_mem_cons.mpr ⟨ha, ih h⟩

/-- A table is there and its writes hold its partition attribute if the check says so. -/
theorem exists_of_checkWrites {name : String} {writes : List Write}
    (h : d.checkWrites name writes = .ok ()) :
    ∃ t, d.get? name = some t ∧ ∀ write ∈ writes, (write.item.get? t.partition).isSome = true := by
  unfold checkWrites table at h
  cases ht : d.get? name with
  | none => simp [ht, bind, Except.bind] at h
  | some t =>
    simp only [ht, bind, Except.bind] at h
    refine ⟨t, rfl, fun write hwrite => ?_⟩
    have hkey := ok_of_forM h write hwrite
    unfold Table.keyOf at hkey
    cases hget : write.item.get? t.partition with
    | some key => rfl
    | none =>
      rw [hget] at hkey
      cases hkey

/-- A bulk write succeeds just if the request is as it has to be; then all is applied. -/
theorem bulkWrite_eq_ok_iff {w : Writes} :
    d.bulkWrite w = .ok d' ↔ d.Admits w ∧ d' = w.flatten.foldl applyWrite d := by
  constructor
  · intro h
    refine ⟨?_, eq_of_bulkWrite h⟩
    unfold bulkWrite at h
    split at h
    · cases h
    · next hcount =>
      have hmax : maxBulkWrites = 25 := rfl
      cases hcheck : w.toList.forM fun e => d.checkWrites e.1 e.2 with
      | error e =>
        rw [hcheck] at h
        cases h
      | ok _ =>
        exact ⟨by omega, by omega, fun e he => exists_of_checkWrites (ok_of_forM hcheck e he)⟩
  · rintro ⟨h, rfl⟩
    exact bulkWrite_eq_ok h.lower h.upper h.tables

/-- A bulk request that is as it has to be is applied as a whole, and nothing is left. -/
theorem respond_of_admits {w : Writes} (h : d.Admits w) :
    d.respond (.bulkWrite w) = (.ok .empty, w.flatten.foldl applyWrite d) := by
  simp only [respond, bulkWrite_eq_ok_iff.mpr ⟨h, rfl⟩]

/-- Any other bulk request fails. -/
theorem exists_respond_of_not_admits {w : Writes} (h : ¬ d.Admits w) :
    ∃ e, d.respond (.bulkWrite w) = (.failed e, d) := by
  cases hbulk : d.bulkWrite w with
  | ok d' => exact absurd (bulkWrite_eq_ok_iff.mp hbulk).1 h
  | error e => exact ⟨e, by simp only [respond, hbulk]⟩

/-! ### In place -/

/-- A result as a step of its own, which leaves the database as it is. -/
def step : Except Error α → EStateM Error Database α
  | .ok a => pure a
  | .error e => throw e

/-- One write in place: its table and its key are looked up in the database as it is by now. -/
def writeInPlace (name : String) (write : Write) : EStateM Error Database Unit := do
  set (← step ((← getThe Database).write (name, write)))

/-- The writes to one table in place, after the table is looked up. -/
def tableInPlace (e : String × List Write) : EStateM Error Database PUnit := do
  discard (step ((← getThe Database).table e.1))
  e.2.forM (writeInPlace e.1)

/-- A bulk write in place.  After the checks it changes the database write by write.  Each look-up
    is made again, so a write could still fail, with those before it applied. -/
def bulkWriteInPlace (w : Writes) : EStateM Error Database Writes := do
  if w.count = 0 ∨ maxBulkWrites < w.count then
    throw (.invalid (.bulkSize maxBulkWrites w.count))
  let checked ← getThe Database
  step (w.toList.forM fun e => checked.checkWrites e.1 e.2)
  w.toList.forM tableInPlace
  return .empty

/-- What comes back from a request in place. -/
def answered : EStateM.Result Error Database α → Answer α × Database
  | .ok a d => (.ok a, d)
  | .error e d => (.failed e, d)

theorem run_bind_of_ok {x : EStateM Error Database α} {f : α → EStateM Error Database β}
    {a : α} (h : x.run d = .ok a d') : (x >>= f).run d = (f a).run d' := by
  show EStateM.bind x f d = _
  unfold EStateM.bind
  rw [show x d = .ok a d' from h]
  rfl

theorem run_step_of_ok {result : Except Error α} {a : α} (h : result = .ok a) :
    (step result).run d = .ok a d := by
  rw [h]
  rfl

/-- Looking at the database goes on with it. -/
theorem run_look_bind (f : Database → EStateM Error Database α) :
    (getThe Database >>= f).run d = (f d).run d :=
  run_bind_of_ok rfl

theorem run_writeInPlace {name : String} {w : Write} (h : d.takes (name, w) = true) :
    (writeInPlace name w).run d = .ok () (d.applyWrite (name, w)) := by
  unfold writeInPlace
  rw [run_look_bind, run_bind_of_ok (run_step_of_ok (write_of_takes h))]
  rfl

/-- The writes to a table in place. -/
theorem run_forM_writeInPlace {name : String} {writes : List Write}
    (h : ∀ w ∈ writes, d.takes (name, w) = true) :
    (writes.forM (writeInPlace name)).run d
      = .ok () ((writes.map (name, ·)).foldl applyWrite d) := by
  induction writes generalizing d with
  | nil => rfl
  | cons w writes ih =>
    obtain ⟨hw, hrest⟩ := List.forall_mem_cons.mp h
    rw [List.forM, run_bind_of_ok (run_writeInPlace hw), List.map_cons, List.foldl_cons]
    refine ih fun w' hw' => ?_
    rw [show d.applyWrite (name, w) = [(name, w)].foldl applyWrite d from rfl, takes_foldl]
    exact hrest w' hw'

/-- Writes leave the tables where they are. -/
theorem isSome_foldl_applyWrite (writes : List (String × Write)) (name : String) :
    ((writes.foldl applyWrite d).get? name).isSome = (d.get? name).isSome := by
  induction writes generalizing d with
  | nil => rfl
  | cons e writes ih =>
    rw [List.foldl_cons, ih, ← Option.isSome_map, partition_applyWrite, Option.isSome_map]

/-- The writes to one table that is there, in place. -/
theorem run_tableInPlace {e : String × List Write} (htable : (d.get? e.1).isSome = true)
    (hwrites : ∀ w ∈ e.2, d.takes (e.1, w) = true) :
    (tableInPlace e).run d = .ok () ((e.2.map (e.1, ·)).foldl applyWrite d) := by
  obtain ⟨t, ht⟩ := Option.isSome_iff_exists.mp htable
  have hlook : (discard (step (d.table e.1)) : EStateM Error Database PUnit).run d = .ok () d := by
    rw [table, ht]
    rfl
  unfold tableInPlace
  rw [run_look_bind, run_bind_of_ok hlook]
  exact run_forM_writeInPlace hwrites

/-- The writes to some tables that are there, in place.  None of them fails, since writes keep
    every table and its partition attribute. -/
theorem run_forM_tableInPlace {l : List (String × List Write)}
    (htables : ∀ e ∈ l, (d.get? e.1).isSome = true)
    (hwrites : ∀ e ∈ l, ∀ w ∈ e.2, d.takes (e.1, w) = true) :
    (l.forM tableInPlace).run d
      = .ok () ((l.flatMap fun e => e.2.map (e.1, ·)).foldl applyWrite d) := by
  induction l generalizing d with
  | nil => rfl
  | cons e l ih =>
    obtain ⟨htable, htables⟩ := List.forall_mem_cons.mp htables
    obtain ⟨hwrite, hwrites⟩ := List.forall_mem_cons.mp hwrites
    rw [List.forM, run_bind_of_ok (run_tableInPlace htable hwrite), List.flatMap_cons,
      List.foldl_append]
    apply ih
    · intro e' he'
      rw [isSome_foldl_applyWrite]
      exact htables e' he'
    · intro e' he' w hw
      rw [takes_foldl]
      exact hwrites e' he' w hw

/-- A bulk write in place answers and does the same as one that is applied as a whole. -/
theorem run_bulkWriteInPlace (d : Database) (w : Writes) :
    answered ((bulkWriteInPlace w).run d) = d.respond (.bulkWrite w) := by
  by_cases hcount : w.count = 0 ∨ maxBulkWrites < w.count
  · -- The size is refused.
    have hbulk : d.bulkWrite w = .error (.invalid (.bulkSize maxBulkWrites w.count)) := by
      unfold bulkWrite
      rw [if_pos hcount]
      rfl
    unfold bulkWriteInPlace
    rw [if_pos hcount]
    simp only [respond, hbulk]
    rfl
  have hsize : (bulkWriteInPlace w).run d
      = (do
        step (w.toList.forM fun e => d.checkWrites e.1 e.2)
        w.toList.forM tableInPlace
        return .empty : EStateM Error Database Writes).run d := by
    unfold bulkWriteInPlace
    rw [if_neg hcount]
    rfl
  rw [hsize]
  cases hcheck : w.toList.forM fun e => d.checkWrites e.1 e.2 with
  | error e =>
    have hbulk : d.bulkWrite w = .error e := by
      unfold bulkWrite
      rw [if_neg hcount, hcheck]
      rfl
    simp only [respond, hbulk]
    rfl
  | ok _ =>
    have hbulk : d.bulkWrite w = .ok (w.flatten.foldl applyWrite d) := by
      unfold bulkWrite
      rw [if_neg hcount, hcheck]
      rfl
    have hadmits : d.Admits w := (bulkWrite_eq_ok_iff.mp hbulk).1
    have hrun : (w.toList.forM tableInPlace).run d = .ok () (w.flatten.foldl applyWrite d) := by
      refine run_forM_tableInPlace (fun e he => ?_) fun e he w hw => ?_
      · obtain ⟨t, ht, -⟩ := hadmits.tables e he
        simp [ht]
      · obtain ⟨t, ht, hkeys⟩ := hadmits.tables e he
        simp [Database.takes, ht, hkeys w hw]
    rw [respond_of_admits hadmits]
    show answered ((do
      w.toList.forM tableInPlace
      return .empty : EStateM Error Database Writes).run d) = _
    rw [run_bind_of_ok hrun]
    rfl

/-! ### All or nothing -/

/-- A request that fails leaves all tables as they are.  A put, an update or a delete that succeeds
    changes at most the item under its key.  A bulk write, which comes to the same when it is
    made in place, succeeds just if it holds one to twenty-five writes in total, all its tables
    are there and every write holds its table's partition attribute.  Then it leaves nothing
    unprocessed and the tables that its writes leave one by one, tables by name and the writes
    to a table as listed. -/
theorem writes_all_or_nothing (d : Database) :
    (∀ request e, (d.respond request).1 = .failed e → (d.respond request).2 = d) ∧
      (∀ (request : Request) name item reply, request.target? = some (name, item) →
        (d.respond request).1 = .ok reply →
          ∃ key, d.keyOf? name item = some key ∧
            SameExcept name key d (d.respond request).2) ∧
      ∀ w : Writes,
        answered ((bulkWriteInPlace w).run d) = d.respond (.bulkWrite w) ∧
          ((∃ left, (d.respond (.bulkWrite w)).1 = .ok left) ↔ d.Admits w) ∧
          ∀ left, (d.respond (.bulkWrite w)).1 = .ok left →
            left = .empty ∧ w.flatten.foldlM write d = .ok (d.respond (.bulkWrite w)).2 := by
  refine ⟨fun request e h => eq_of_respond_failed h,
    fun request name item reply htarget h => sameExcept_of_respond htarget h, fun w => ?_⟩
  refine ⟨run_bulkWriteInPlace d w, ?_⟩
  by_cases hadmits : d.Admits w
  · have hrespond := respond_of_admits hadmits
    rw [hrespond]
    refine ⟨⟨fun _ => hadmits, fun _ => ⟨_, rfl⟩⟩, fun left hleft => ⟨?_, ?_⟩⟩
    · exact (Answer.ok.inj hleft).symm
    · exact foldlM_write hadmits.takes
  · obtain ⟨e, hrespond⟩ := exists_respond_of_not_admits hadmits
    rw [hrespond]
    refine ⟨⟨?_, fun h => absurd h hadmits⟩, ?_⟩
    · rintro ⟨left, hleft⟩
      cases hleft
    · intro left hleft
      cases hleft

/-- Two tables are written together.  The second write under a key replaces the first one, and the
    third removes an item that was there.  With one write more, which lacks its key and comes
    last, the same request fails and nothing of it is done. -/
theorem writes_all_or_nothing_repeated :
    let item (name value : String) (n : Int64) : Item :=
      SortedMap.ofList [(name, .string value), ("N", .number n)]
    let rows (name value : String) (n : Int64) : SortedMap AttributeValue Item :=
      SortedMap.single (.string value) (item name value n)
    let d : Database := SortedMap.ofList [("a", ⟨"K", rows "K" "y" 0⟩), ("b", ⟨"P", .empty⟩)]
    let writes : List (String × Write) :=
      [("a", .put (item "K" "x" 1)), ("a", .put (item "K" "x" 2)), ("a", .delete (item "K" "y" 5)),
        ("b", .put (item "P" "z" 3))]
    let w := Writes.ofFlat writes
    let d' : Database := SortedMap.ofList
      [("a", ⟨"K", rows "K" "x" 2⟩), ("b", ⟨"P", rows "P" "z" 3⟩)]
    let short := Writes.ofFlat (writes ++ [("b", .put (item "K" "z" 4))])
    d.respond (.bulkWrite w) = (.ok .empty, d') ∧ d.Admits w ∧ w.flatten.foldlM write d = .ok d' ∧
      (d.respond (.bulkWrite short)).1 = .failed (.invalid (.missingKey "P" "b")) ∧
      (d.respond (.bulkWrite short)).2 = d := by
  intro item rows d writes w d' short
  obtain ⟨hfailed, -, hbulk⟩ := writes_all_or_nothing d
  have hok : d.bulkWrite w = .ok d' := by
    unfold d' d w writes rows item
    decide +kernel
  have hrefused : d.bulkWrite short = .error (.invalid (.missingKey "P" "b")) := by
    unfold d short writes rows item
    decide +kernel
  have hrespond : d.respond (.bulkWrite w) = (.ok .empty, d') := by
    simp only [respond, hok]
  have hanswer : (d.respond (.bulkWrite short)).1 = .failed (.invalid (.missingKey "P" "b")) := by
    simp only [respond, hrefused]
  obtain ⟨-, hadmits, heach⟩ := hbulk w
  rw [hrespond] at hadmits heach
  exact ⟨hrespond, hadmits.mp ⟨_, rfl⟩, (heach _ rfl).2, hanswer, hfailed _ _ hanswer⟩

end Database

end LoginRegistry.Store
