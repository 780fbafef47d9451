import LoginRegistry.Proofs.Script.Within
import LoginRegistry.Proofs.Store.Tables
import LoginRegistry.Proofs.Store.Writes

/-! # The behaviour of five tables

    `TableNames.behaviour` is what can come back from a request to the tables of a
    registry under an exposure, whatever rows the tables hold.

    * `obeys_schedule`: a schedule of mishaps over the database obeys it.
    * `eq_of_behaviour`: a request leaves the tables that it does not name.
    * `respond_or_eq_of_behaviour`: a request that is no bulk write is answered by the
      database, or it fails and leaves every table.
-/

namespace LoginRegistry

open Store (AttributeValue Database Operation Request Table Write Writes)

/-- What a mishap brings to the action of its request: an error of the store, or a
    panic. -/
inductive Mishap.Brings : Mishap → Option RegistryError → Prop where
  | failure (e : Store.Error) : Brings (.failure e) (some (.store e))
  | panic : Brings .panic none

namespace TableNames

variable {n : TableNames}

/-- What can come back from a request to the tables: the answer of the database, or that
    of a mishap to which the request is exposed. -/
def behaviour (n : TableNames) (x : Exposure) : Behaviour Tables :=
  fun request t answer t' =>
    (n.database t).respond request = (answer, n.database t') ∨
      ∃ m, x request m = true ∧ m.respond request (n.database t) = (answer, n.database t')

section valid

variable (hn : Function.Injective n.name)

include hn

theorem database_injective : Function.Injective n.database := by
  intro t t' h
  funext i
  have hget := get?_database hn t i
  rw [h, get?_database hn t' i] at hget
  exact (Table.mk.inj (Option.some.inj hget)).2.symm

/-! ### What requests leave -/

/-- The database is that of some tables, and only tables of these names have changed. -/
def Leaves (n : TableNames) (names : List String) (t : Tables) (d : Database) : Prop :=
  ∃ t', d = n.database t' ∧ ∀ i, n.name i ∉ names → t' i = t i

omit hn in
theorem leaves_self (names : List String) (t : Tables) : n.Leaves names t (n.database t) :=
  ⟨t, rfl, fun _ _ => rfl⟩

/-- A table that is there is one of the five. -/
theorem exists_of_get?_database {name : String} {t : Tables} {table : Table}
    (h : (n.database t).get? name = some table) :
    ∃ i, name = n.name i ∧ table = { partition := i.partition, items := t i } := by
  by_cases hname : ∃ i, name = n.name i
  · obtain ⟨i, rfl⟩ := hname
    rw [get?_database hn] at h
    exact ⟨i, rfl, (Option.some.inj h).symm⟩
  · rw [get?_database_of_ne t fun i hi => hname ⟨i, hi⟩] at h
    cases h

/-- Other items in a table that is there. -/
theorem leaves_insert {name : String} {t : Tables} {table : Table}
    (h : (n.database t).get? name = some table) (rows : Rows) :
    n.Leaves [name] t ((n.database t).insert name { table with items := rows }) := by
  obtain ⟨i, rfl, rfl⟩ := exists_of_get?_database hn h
  refine ⟨t.set i rows, insert_database hn t i rows, fun j hj => Tables.set_ne t ?_ rows⟩
  rintro rfl
  exact hj List.mem_cons_self

/-- A write of one item puts other items into its table. -/
theorem leaves_of_edit {name : String} {item : Store.Item} {condition : Option Store.Condition}
    {returnOld : Bool} {rows : Table → AttributeValue → Rows} {t : Tables} {d : Database}
    (h : (n.database t).edit name item condition returnOld
      (fun table key => { table with items := rows table key }) = .ok d) :
    n.Leaves [name] t d := by
  obtain ⟨table, key, htable, -, -, rfl⟩ := Database.edit_eq_ok_iff.mp h
  exact leaves_insert hn htable _

theorem leaves_foldl_applyWrite {writes : List (String × Write)} {names : List String} {t : Tables}
    (hnames : ∀ e ∈ writes, e.1 ∈ names) :
    n.Leaves names t (writes.foldl Database.applyWrite (n.database t)) := by
  induction writes generalizing t with
  | nil => exact leaves_self names t
  | cons e writes ih =>
    obtain ⟨he, hrest⟩ := List.forall_mem_cons.mp hnames
    have hfirst : n.Leaves [e.1] t ((n.database t).applyWrite e) := by
      unfold Database.applyWrite
      split
      · next table hget =>
        have hitems : table.apply e.2 = { table with items := (table.apply e.2).items } := by
          unfold Table.apply
          split <;> rfl
        rw [hitems]
        exact leaves_insert hn hget _
      · exact leaves_self _ t
    obtain ⟨t', hd, hframe⟩ := hfirst
    obtain ⟨t'', hd', hframe'⟩ := ih hrest (t := t')
    refine ⟨t'', by rw [List.foldl_cons, hd, hd'], fun i hi => (hframe' i hi).trans (hframe i ?_)⟩
    exact fun hmem => hi (List.mem_singleton.mp hmem ▸ he)

theorem leaves_bulkWrite {w : Writes} {names : List String} {t : Tables} {d : Database}
    (hnames : ∀ e ∈ w.flatten, e.1 ∈ names) (h : (n.database t).bulkWrite w = .ok d) :
    n.Leaves names t d := by
  rw [Database.eq_of_bulkWrite h]
  exact leaves_foldl_applyWrite hn hnames

omit hn in
/-- Every write of a bulk request is to a table that the request names. -/
theorem mem_tables_of_mem_flatten {w : Writes} {e : String × Write} (he : e ∈ w.flatten) :
    e.1 ∈ (Request.bulkWrite w).tables := by
  obtain ⟨writes, hmem, -⟩ := Store.Writes.mem_flatten.mp he
  exact List.mem_map_of_mem hmem

omit hn in
theorem leaves_written {names : List String} {t : Tables} {result : Except Store.Error Database}
    (h : ∀ d, result = .ok d → n.Leaves names t d) :
    n.Leaves names t ((n.database t).written result).2 := by
  cases result with
  | ok d => exact h d rfl
  | error e => exact leaves_self names t

omit hn in
theorem leaves_looked {names : List String} {t : Tables} (result : Except Store.Error α) :
    n.Leaves names t ((n.database t).looked result).2 := by
  cases result <;> exact leaves_self names t

/-- A request leaves the tables that it does not name. -/
theorem leaves_respond (request : Request) (t : Tables) :
    n.Leaves request.tables t ((n.database t).respond request).2 := by
  cases request with
  | put q => exact leaves_written fun _ => leaves_of_edit hn
  | update q => exact leaves_written fun _ => leaves_of_edit hn
  | delete q => exact leaves_written fun _ => leaves_of_edit hn
  | get q => exact leaves_looked _
  | scan q => exact leaves_looked _
  | bulkWrite w =>
    simp only [Database.respond]
    split
    · next d hd => exact leaves_bulkWrite hn (fun e => mem_tables_of_mem_flatten) hd
    · exact leaves_self _ t

/-- A mishap leaves the tables that its request does not name. -/
theorem leaves_mishap (m : Mishap) (request : Request) (t : Tables) :
    n.Leaves request.tables t (m.respond request (n.database t)).2 := by
  cases m with
  | failure e => exact leaves_self _ t
  | panic => exact leaves_self _ t
  | holdBack marks =>
    cases request with
    | bulkWrite w =>
      simp only [Mishap.respond, Mishap.respondPartly]
      split
      · exact leaves_self _ t
      · split
        · next d hd =>
          refine leaves_bulkWrite hn (fun e he => ?_) hd
          exact mem_tables_of_mem_flatten
            (Mishap.mem_of_mem_part (.inl (Store.Writes.mem_of_mem_ofFlat he)))
        · exact leaves_self _ t
    | put q => exact leaves_respond hn (.put q) t
    | update q => exact leaves_respond hn (.update q) t
    | delete q => exact leaves_respond hn (.delete q) t
    | get q => exact leaves_respond hn (.get q) t
    | scan q => exact leaves_respond hn (.scan q) t

/-! ### What comes back -/

variable {x : Exposure} {request : Request} {t t' : Tables} {answer : Answer request.Reply}

/-- A request leaves the tables that it does not name, whatever befalls it. -/
theorem eq_of_behaviour (h : n.behaviour x request t answer t') {i : TableId}
    (hi : n.name i ∉ request.tables) : t' i = t i := by
  rcases h with h | ⟨m, -, h⟩
  · obtain ⟨t'', hd, hframe⟩ := leaves_respond hn request t
    rw [h] at hd
    rw [database_injective hn hd, hframe i hi]
  · obtain ⟨t'', hd, hframe⟩ := leaves_mishap hn m request t
    rw [h] at hd
    rw [database_injective hn hd, hframe i hi]

/-- What befalls a request that is no bulk write leaves every table. -/
theorem respond_or_eq_of_behaviour (h : n.behaviour x request t answer t')
    (hsingle : request.operation ≠ .bulkWrite) :
    (n.database t).respond request = (answer, n.database t') ∨
      t' = t ∧ ((∃ e, x request (.failure e) = true ∧ answer = .failed e) ∨
        x request .panic = true ∧ answer = .panicked) := by
  rcases h with h | ⟨m, hm, h⟩
  · exact .inl h
  · cases m with
    | failure e =>
      obtain ⟨rfl, hd⟩ := Prod.mk.inj h
      exact .inr ⟨database_injective hn hd.symm, .inl ⟨e, hm, rfl⟩⟩
    | panic =>
      obtain ⟨rfl, hd⟩ := Prod.mk.inj h
      exact .inr ⟨database_injective hn hd.symm, .inr ⟨hm, rfl⟩⟩
    | holdBack marks =>
      left
      cases request <;> first | exact h | exact absurd rfl hsingle

omit hn in
theorem database_looked (result : Except Store.Error α) :
    ((n.database t).looked result).2 = n.database t := by
  cases result <;> rfl

/-- A read changes nothing. -/
theorem eq_of_get {q : Store.Get} {answer : Answer (Request.get q).Reply}
    (h : n.behaviour x (.get q) t answer t') : t' = t := by
  rcases respond_or_eq_of_behaviour hn h nofun with h | ⟨ht, -⟩
  · exact database_injective hn
      ((congrArg Prod.snd h).symm.trans (database_looked ((n.database t).get q)))
  · exact ht

theorem eq_of_scan {q : Store.Scan} {answer : Answer (Request.scan q).Reply}
    (h : n.behaviour x (.scan q) t answer t') : t' = t := by
  rcases respond_or_eq_of_behaviour hn h nofun with h | ⟨ht, -⟩
  · exact database_injective hn
      ((congrArg Prod.snd h).symm.trans (database_looked ((n.database t).scan q)))
  · exact ht

/-- A put changes nothing, or its condition holds and it stores its item. -/
theorem eq_or_insert_of_put {q : Store.Put} {i : TableId} {key : AttributeValue}
    (hq : q.table = n.name i) (hkey : q.item.get? i.partition = some key)
    {answer : Answer (Request.put q).Reply} (h : n.behaviour x (.put q) t answer t') :
    t' = t ∨ Store.Condition.permits q.condition ((t i).get? key) = true ∧
      t' = t.set i ((t i).insert key q.item) := by
  rcases respond_or_eq_of_behaviour hn h nofun with h | ⟨rfl, -⟩
  · simp only [Database.respond, put_database hn t i hq hkey] at h
    split at h
    · next hpermits => exact .inr ⟨hpermits, database_injective hn (Prod.mk.inj h).2.symm⟩
    · exact .inl (database_injective hn (Prod.mk.inj h).2.symm)
  · exact .inl rfl

/-- A delete changes nothing, or its condition holds and it removes the item. -/
theorem eq_or_erase_of_delete {q : Store.Delete} {i : TableId} {key : AttributeValue}
    (hq : q.table = n.name i) (hkey : q.key.get? i.partition = some key)
    {answer : Answer (Request.delete q).Reply} (h : n.behaviour x (.delete q) t answer t') :
    t' = t ∨ Store.Condition.permits q.condition ((t i).get? key) = true ∧
      t' = t.set i ((t i).erase key) := by
  rcases respond_or_eq_of_behaviour hn h nofun with h | ⟨rfl, -⟩
  · simp only [Database.respond, delete_database hn t i hq hkey] at h
    split at h
    · next hpermits => exact .inr ⟨hpermits, database_injective hn (Prod.mk.inj h).2.symm⟩
    · exact .inl (database_injective hn (Prod.mk.inj h).2.symm)
  · exact .inl rfl

/-- A request that the database answers with a reply brings it to its action, or the
    action gets what a mishap brings. -/
theorem within_ofStore_send {t' : Tables} {reply : request.Reply}
    {ok : request.Reply → Tables → Prop} {bad : Option RegistryError → Tables → Prop}
    (hsingle : request.operation ≠ .bulkWrite)
    (hrespond : (n.database t).respond request = (.ok reply, n.database t')) (hok : ok reply t')
    (hspoiled : ∀ m o, x request m = true → m.Brings o → bad o t) :
    Action.Within (n.behaviour x) (Action.ofStore (Script.send request)) t ok bad := by
  refine Action.within_ofStore (Script.within_send fun answer t'' h => ?_)
  rcases respond_or_eq_of_behaviour hn h hsingle with h | ⟨rfl, ⟨e, hx, rfl⟩ | ⟨hx, rfl⟩⟩
  · obtain ⟨rfl, hd⟩ := Prod.mk.inj (hrespond.symm.trans h)
    rwa [← database_injective hn hd]
  · exact hspoiled _ _ hx (.failure e)
  · exact hspoiled _ _ hx .panic

/-- What holds within the behaviour of the tables always holds on their database. -/
theorem always_of_within {post : Option α → Tables → Prop} {s : Script α}
    (h : s.Within (n.behaviour x) post t) :
    s.Always x (fun o d => ∃ t', d = n.database t' ∧ post o t') (n.database t) := by
  induction s generalizing t with
  | done a => exact ⟨t, rfl, h⟩
  | panic => exact ⟨t, rfl, h⟩
  | record event next ih => exact ih h
  | call request next ih =>
    refine ⟨?_, fun m hm => ?_⟩
    · obtain ⟨t', hd, -⟩ := leaves_respond hn request t
      rw [hd]
      exact ih _ (h _ t' (.inl (Prod.ext rfl hd)))
    · obtain ⟨t', hd, -⟩ := leaves_mishap hn m request t
      rw [hd]
      exact ih _ (h _ t' (.inr ⟨m, hm, Prod.ext rfl hd⟩))

/-! ### Handlers -/

/-- The database obeys the behaviour of its tables under every exposure. -/
theorem obeys_database (x : Exposure) :
    Database.handler.Obeys (n.behaviour x) fun d t => d = n.database t where
  respond request {d t} hd := by
    subst hd
    obtain ⟨t', hd, -⟩ := leaves_respond hn request t
    exact ⟨t', .inl (Prod.ext rfl hd), hd⟩

/-- The database behind a schedule of mishaps obeys the behaviour of its tables. -/
theorem obeys_schedule (x : Exposure) :
    (Schedule.handler x).Obeys (n.behaviour x) fun s t => s.2 = n.database t where
  respond request {s t} hs := by
    obtain ⟨schedule, d⟩ := s
    have hserved := (obeys_database hn x).respond request hs
    match schedule with
    | [] => exact hserved
    | none :: rest => exact hserved
    | some m :: rest =>
      obtain rfl : d = n.database t := hs
      simp only [Schedule.handler, Schedule.respond]
      split
      · next hm =>
        obtain ⟨t', hd, -⟩ := leaves_mishap hn m request t
        exact ⟨t', .inr ⟨m, hm, Prod.ext rfl hd⟩, hd⟩
      · exact hserved

end valid

end TableNames

end LoginRegistry
