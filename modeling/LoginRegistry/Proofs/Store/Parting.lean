import LoginRegistry.Proofs.Script.Within
import LoginRegistry.Proofs.Store.Writes

/-! # Stores that part bulk requests

    A store may apply some writes of a bulk request and return the others.
    `PartingStore` is any such store: which writes it applies, and in which order, can
    be different each time.  `Serves` says what it makes of requests one after the
    other, each with what the one before it left, and the lemmas on it what becomes of
    the writes of the first one.

    The database behind a schedule of held-back writes is such a store
    (`Schedule.parting`).

    A store may also fail.  `Handler.Parts` leaves open when it does, and how much of a
    failed request it has applied: so does the database behind any schedule
    (`Schedule.parts_handler`).
-/

namespace LoginRegistry

open Store (Database Write Writes)

/-- A bulk request and what became of it. -/
structure Round where
  /-- The writes sent. -/
  sent : Writes
  /-- The writes that the store has applied, in its order. -/
  applied : List (String × Write)
  /-- The writes that it has returned. -/
  left : Writes

/-- A store that applies some writes of each bulk request that it accepts, in any order,
    and returns exactly the others. -/
structure PartingStore (σ : Type) where
  /-- How it answers requests. -/
  handler : Handler σ
  /-- What it stores. -/
  tables : σ → Database
  /-- The bulk requests that it accepts. -/
  Accepts : σ → Writes → Prop
  /-- The writes that it applies. -/
  applied : σ → Writes → List (String × Write)
  /-- The writes that it returns. -/
  left : σ → Writes → Writes
  /-- It returns them. -/
  answer : ∀ {x : σ} {w : Writes}, Accepts x w →
    (handler.respond (.bulkWrite w) x).1 = .ok (left x w)
  /-- It applies the others. -/
  effect : ∀ {x : σ} {w : Writes}, Accepts x w →
    tables (handler.respond (.bulkWrite w) x).2 = (applied x w).foldl Database.applyWrite (tables x)
  /-- Each write is either applied or returned. -/
  parts : ∀ {x : σ} {w : Writes}, Accepts x w → (applied x w ++ (left x w).flatten).Perm w.flatten
  /-- It accepts what it has returned, if that is anything. -/
  again : ∀ {x : σ} {w : Writes}, Accepts x w → (left x w).flatten ≠ [] →
    Accepts (handler.respond (.bulkWrite w) x).2 (left x w).compact

namespace PartingStore

variable (p : PartingStore σ)

/-- The state after a bulk request. -/
def next (x : σ) (w : Writes) : σ := (p.handler.respond (.bulkWrite w) x).2

/-- The round of a bulk request. -/
def round (x : σ) (w : Writes) : Round := ⟨w, p.applied x w, p.left x w⟩

/-- The store together with the rounds of its bulk requests, in order. -/
def ledger : Handler (List Round × σ) where
  respond
    | .bulkWrite w, (rounds, x) =>
      ((p.handler.respond (.bulkWrite w) x).1, rounds ++ [p.round x w], p.next x w)
    | request, (rounds, x) =>
      ((p.handler.respond request x).1, rounds, (p.handler.respond request x).2)

/-! ### Requests one after the other -/

/-- From `x` on there were these rounds, first with `w` and then each with what the one
    before it returned; the store is in a state and this is what would be sent next. -/
inductive Serves (x : σ) (w : Writes) : List Round → σ → Writes → Prop where
  | start : Serves x w [] x w
  | round {rounds : List Round} {y : σ} {pending : Writes} : Serves x w rounds y pending →
    p.Accepts y pending →
    Serves x w (rounds ++ [p.round y pending]) (p.next y pending) (p.left y pending).compact

namespace Serves

variable {p} {x y : σ} {w pending : Writes} {rounds : List Round}

/-- What is sent is what the round before has returned. -/
theorem sent (h : p.Serves x w rounds y pending) :
    rounds.map Round.sent ++ [pending] = w :: rounds.map fun round => round.left.compact := by
  induction h with
  | start => rfl
  | round _ _ ih =>
    rw [List.map_append, List.map_append, ← List.cons_append, ← ih]
    rfl

/-- Each write is either applied in one of the rounds or left. -/
theorem perm (h : p.Serves x w rounds y pending) :
    (rounds.flatMap Round.applied ++ pending.flatten).Perm w.flatten := by
  induction h with
  | start => exact List.Perm.refl _
  | round _ haccepts ih =>
    refine List.Perm.trans ?_ ih
    simp only [List.flatMap_append, List.flatMap_singleton, List.append_assoc,
      Writes.flatten_compact]
    exact (p.parts haccepts).append_left _

/-- The tables are those after the writes that were applied. -/
theorem tables_eq (h : p.Serves x w rounds y pending) :
    p.tables y = (rounds.flatMap Round.applied).foldl Database.applyWrite (p.tables x) := by
  induction h with
  | start => rfl
  | round _ haccepts ih =>
    rw [List.flatMap_append, List.foldl_append, ← ih, List.flatMap_singleton]
    exact p.effect haccepts

/-- If each round applies the first of its writes in order, all of them do together. -/
theorem applied_append (h : p.Serves x w rounds y pending)
    (hrounds : ∀ round ∈ rounds, round.applied ++ round.left.flatten = round.sent.flatten) :
    rounds.flatMap Round.applied ++ pending.flatten = w.flatten := by
  induction h with
  | start => rfl
  | round _ _ ih =>
    obtain ⟨hearlier, hlast⟩ := List.forall_mem_append.mp hrounds
    have hround := hlast _ (List.mem_singleton_self _)
    rw [List.flatMap_append, List.flatMap_singleton, List.append_assoc, Writes.flatten_compact]
    exact (congrArg _ hround).trans (ih hearlier)

end Serves

end PartingStore

/-! ### Held-back writes -/

/-- Writes can be held back, and nothing else befalls a request. -/
def Exposure.held : Exposure := fun _ m =>
  match m with
  | .holdBack _ => true
  | .failure _ | .panic => false

namespace Store.Database

/-- The table of a write is there, and its item holds the partition attribute. -/
def takes (d : Database) (e : String × Write) : Bool :=
  (d.get? e.1).any fun t => (e.2.item.get? t.partition).isSome

/-- A write leaves every table and its partition attribute. -/
theorem partition_applyWrite (d : Database) (e : String × Write) (name : String) :
    ((d.applyWrite e).get? name).map Table.partition = (d.get? name).map Table.partition := by
  unfold applyWrite
  cases htable : d.get? e.1 with
  | none => rfl
  | some t =>
    rw [SortedMap.get?_insert_eq]
    split
    · next hname =>
      have hpartition : (t.apply e.2).partition = t.partition := by
        unfold Table.apply
        split <;> rfl
      rw [hname, htable, Option.map_some, Option.map_some, hpartition]
    · rfl

theorem takes_foldl (writes : List (String × Write)) (d : Database) (e : String × Write) :
    (writes.foldl applyWrite d).takes e = d.takes e := by
  have htakes : ∀ d : Database, d.takes e
      = ((d.get? e.1).map Table.partition).any fun partition =>
        (e.2.item.get? partition).isSome := by
    intro d
    rw [Option.any_map]
    rfl
  induction writes generalizing d with
  | nil => rfl
  | cons f writes ih => rw [List.foldl_cons, ih, htakes, partition_applyWrite, ← htakes]

/-- The database accepts bulk requests of writes that it takes, if they are not too many. -/
structure Accepts (d : Database) (w : Writes) : Prop where
  /-- No table comes without writes. -/
  full : w.Full
  /-- There is a write. -/
  lower : 1 ≤ w.count
  /-- There are not too many. -/
  upper : w.count ≤ maxBulkWrites
  /-- The database takes them. -/
  takes : ∀ e ∈ w.flatten, d.takes e = true

theorem Accepts.bulkWrite_eq_ok {d : Database} {w : Writes} (h : d.Accepts w) :
    d.bulkWrite w = .ok (w.flatten.foldl applyWrite d) := by
  refine Database.bulkWrite_eq_ok h.lower h.upper fun e he => ?_
  have htakes : ∀ write ∈ e.2, d.takes (e.1, write) = true := fun write hwrite =>
    h.takes _ (Writes.mem_flatten.mpr ⟨e.2, he, hwrite⟩)
  -- The first write tells that the table is there.
  obtain ⟨write, hwrite⟩ := List.exists_mem_of_ne_nil _ (h.full e he)
  obtain ⟨t, htable, -⟩ := (Option.any_eq_true _ _).mp (htakes write hwrite)
  refine ⟨t, htable, fun write hwrite => ?_⟩
  have hkey := htakes write hwrite
  rwa [Database.takes, htable, Option.any_some] at hkey

/-- The database accepts some of the writes of a request that it accepts. -/
theorem Accepts.part {d : Database} {w v : Writes} (h : d.Accepts w) (hfull : v.Full)
    (hlower : 1 ≤ v.count) {others : List (String × Write)}
    (hparts : (v.flatten ++ others).Perm w.flatten) : d.Accepts v := by
  refine ⟨hfull, hlower, ?_, fun e he => ?_⟩
  · have hlength := hparts.length_eq
    rw [List.length_append] at hlength
    exact Nat.le_trans (Nat.le.intro hlength) h.upper
  · exact h.takes e (hparts.mem_iff.mp (List.mem_append_left _ he))

end Store.Database

namespace Schedule

/-- What the next mishap of a schedule makes of a bulk request: the writes that are applied
    and those that are held back. -/
def parted (schedule : Schedule) (w : Writes) : List (String × Write) × Writes :=
  match schedule with
  | some (.holdBack marks) :: _ =>
    ((Writes.ofFlat (Mishap.part marks w.flatten).1).flatten,
      Writes.ofFlat (Mishap.part marks w.flatten).2)
  | _ => (w.flatten, .empty)

theorem perm_parted (schedule : Schedule) (w : Writes) :
    ((schedule.parted w).1 ++ (schedule.parted w).2.flatten).Perm w.flatten := by
  unfold parted
  split
  · exact ((Writes.perm_flatten_ofFlat _).append (Writes.perm_flatten_ofFlat _)).trans
      (Mishap.perm_part _ _)
  · exact (List.append_nil _) ▸ List.Perm.refl _

/-- A bulk request that the database accepts is applied but for what is held back. -/
theorem respond_of_accepts {schedule : Schedule} {d : Database} {w : Writes} (h : d.Accepts w) :
    respond .held (.bulkWrite w) (schedule, d)
      = (.ok (schedule.parted w).2, schedule.tail,
          (schedule.parted w).1.foldl Database.applyWrite d) := by
  have hserved : d.respond (.bulkWrite w)
      = (.ok .empty, w.flatten.foldl Database.applyWrite d) := by
    simp only [Database.respond, h.bulkWrite_eq_ok]
  match schedule with
  | [] | none :: _ | some (.failure _) :: _ | some .panic :: _ =>
    simp only [respond, Exposure.held, Bool.false_eq_true, if_false, hserved]
    rfl
  | some (.holdBack marks) :: rest =>
    simp only [respond, Exposure.held, if_true, Mishap.respond, Mishap.respondPartly]
    split
    · next hnone =>
      simp only [parted, List.isEmpty_iff.mp hnone]
      rfl
    · next hsome =>
      have hsent := Writes.perm_flatten_ofFlat (Mishap.part marks w.flatten).1
      have haccepts : d.Accepts (Writes.ofFlat (Mishap.part marks w.flatten).1) := by
        refine h.part (Writes.full_ofFlat _) ?_
          ((hsent.append_right _).trans (Mishap.perm_part marks w.flatten))
        rw [Writes.count, hsent.length_eq]
        exact List.length_pos_iff.mpr fun hnil => hsome (List.isEmpty_iff.mpr hnil)
      simp only [haccepts.bulkWrite_eq_ok]
      rfl

/-- The database behind a schedule of held-back writes. -/
def parting : PartingStore (Schedule × Database) where
  handler := Schedule.handler .held
  tables := Prod.snd
  Accepts x w := x.2.Accepts w
  applied x w := (x.1.parted w).1
  left x w := (x.1.parted w).2
  answer h := congrArg Prod.fst (respond_of_accepts h)
  effect h := congrArg (·.2.2) (respond_of_accepts h)
  parts _ := perm_parted _ _
  again {x w} h hleft := by
    have hrespond : ((Schedule.handler .held).respond (.bulkWrite w) x).2.2
        = (x.1.parted w).1.foldl Database.applyWrite x.2 :=
      congrArg (·.2.2) (respond_of_accepts h)
    have haccepts : x.2.Accepts (x.1.parted w).2.compact := by
      have hparts : ((x.1.parted w).2.compact.flatten ++ (x.1.parted w).1).Perm w.flatten := by
        rw [Writes.flatten_compact]
        exact List.perm_append_comm.trans (perm_parted _ _)
      refine h.part (Writes.full_compact _) ?_ hparts
      rw [Writes.count, Writes.flatten_compact]
      exact List.length_pos_iff.mpr hleft
    rw [hrespond]
    exact ⟨haccepts.full, haccepts.lower, haccepts.upper, fun e he =>
      (Database.takes_foldl _ _ e).trans (haccepts.takes e he)⟩

end Schedule

/-! ### Stores that may fail -/

/-- Of each bulk request the store applies some writes, in any order, and it returns the
    others unless it fails. -/
def Handler.Parts (h : Handler σ) (tables : σ → Database) : Prop :=
  ∀ (w : Writes) (x : σ), ∃ applied others : List (String × Write),
    (applied ++ others).Perm w.flatten ∧
      tables (h.respond (.bulkWrite w) x).2 = applied.foldl Database.applyWrite (tables x) ∧
      ∀ left, (h.respond (.bulkWrite w) x).1 = .ok left → left.flatten.Perm others

/-- The database applies all of a bulk request or fails. -/
theorem Store.Database.parts_handler : Database.handler.Parts id := by
  intro w d
  simp only [handler, respond]
  split
  · next d' h =>
    refine ⟨w.flatten, [], (List.append_nil _) ▸ .refl _, eq_of_bulkWrite h, ?_⟩
    rintro _ ⟨⟩
    exact .refl _
  · exact ⟨[], w.flatten, .refl _, rfl, nofun⟩

/-- So does the database under a mishap, but for the writes that are held back. -/
theorem Mishap.parts_respond (m : Mishap) (w : Writes) (d : Database) :
    ∃ applied others : List (String × Write), (applied ++ others).Perm w.flatten ∧
      (m.respond (.bulkWrite w) d).2 = applied.foldl Database.applyWrite d ∧
      ∀ left, (m.respond (.bulkWrite w) d).1 = .ok left → left.flatten.Perm others := by
  cases m with
  | failure e => exact ⟨[], w.flatten, .refl _, rfl, nofun⟩
  | panic => exact ⟨[], w.flatten, .refl _, rfl, nofun⟩
  | holdBack marks =>
    have hparts := Mishap.perm_part marks w.flatten
    have hheld := Writes.perm_flatten_ofFlat (Mishap.part marks w.flatten).2
    simp only [respond, respondPartly]
    split
    · next hnone =>
      rw [List.isEmpty_iff.mp hnone] at hparts
      refine ⟨[], _, hparts, rfl, ?_⟩
      rintro _ ⟨⟩
      exact hheld
    · split
      · next d' h =>
        refine ⟨_, _, ((Writes.perm_flatten_ofFlat _).append_right _).trans hparts,
          Database.eq_of_bulkWrite h, ?_⟩
        rintro _ ⟨⟩
        exact hheld
      · exact ⟨[], w.flatten, .refl _, rfl, nofun⟩

/-- So does the database behind a schedule. -/
theorem Schedule.parts_handler (x : Exposure) : (Schedule.handler x).Parts Prod.snd := by
  rintro w ⟨schedule, d⟩
  match schedule with
  | [] | none :: _ => exact Database.parts_handler w d
  | some m :: rest =>
    simp only [handler, respond]
    split
    · exact m.parts_respond w d
    · exact Database.parts_handler w d

end LoginRegistry
