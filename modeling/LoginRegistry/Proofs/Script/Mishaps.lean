import LoginRegistry.Store.Handler

/-! # Scripts under mishaps

    A request may meet a mishap on its way to the database: it fails or panics
    unseen by the database, or some writes of a bulk request are held back.  An
    `Exposure` says which mishaps can befall which requests, and a `Schedule` says
    for each request in turn which of them does.

    `Script.Always x post s d` says that `s`, started on the database `d`, ends in
    `post` whatever the exposure `x` does to its requests.  It is computed from the
    script, one request at a time, so it is proved rule by rule.

    * `run_of_always`: what holds always holds of the run on every schedule.
    * `always_calm_iff`: without exposure it is a statement about the one run on
      the database itself. -/

namespace LoginRegistry

open Store (Database Operation Request Write Writes)

/-! ### Mishaps -/

/-- What may befall a request. -/
inductive Mishap where
  /-- It fails with an error, and the database does not see it. -/
  | failure (error : Store.Error)
  /-- It panics, and the database does not see it. -/
  | panic
  /-- The marked writes of a bulk request, in the order of its writes, are held
      back and come back unprocessed.  Any other request is answered as usual. -/
  | holdBack (marks : List Bool)
  deriving DecidableEq

namespace Mishap

/-- The unmarked and the marked elements of a list. -/
def part : List Bool → List α → List α × List α
  | _, [] => ([], [])
  | [], rest => (rest, [])
  | mark :: marks, a :: rest =>
    let (sent, held) := part marks rest
    if mark then (sent, a :: held) else (a :: sent, held)

/-- Parting a list neither adds to it nor loses anything of it. -/
theorem perm_part (marks : List Bool) (l : List α) :
    ((part marks l).1 ++ (part marks l).2).Perm l := by
  induction l generalizing marks with
  | nil => simp [part]
  | cons a l ih =>
    cases marks with
    | nil => simp [part]
    | cons mark marks =>
      cases mark with
      | true => exact List.perm_middle.trans ((ih marks).cons a)
      | false => exact (ih marks).cons a

theorem mem_of_mem_part {marks : List Bool} {l : List α} {a : α}
    (h : a ∈ (part marks l).1 ∨ a ∈ (part marks l).2) : a ∈ l :=
  (perm_part marks l).mem_iff.mp (List.mem_append.mpr h)

/-- Answers a bulk write of which the marked writes are held back.  Nothing is
    sent when all are. -/
def respondPartly (marks : List Bool) (w : Writes) (d : Database) : Answer Writes × Database :=
  let (sent, held) := part marks w.flatten
  if sent.isEmpty then (.ok (Writes.ofFlat held), d)
  else
    match d.bulkWrite (Writes.ofFlat sent) with
    | .ok d => (.ok (Writes.ofFlat held), d)
    | .error e => (.failed e, d)

/-- What comes back from a request that a mishap befalls. -/
def respond : Mishap → (request : Request) → Database → Answer request.Reply × Database
  | .failure error, _, d => (.failed error, d)
  | .panic, _, d => (.panicked, d)
  | .holdBack marks, .bulkWrite w, d => respondPartly marks w d
  | .holdBack _, request, d => d.respond request

/-- A failure that is not a refused condition, or any other mishap. -/
def isGenuine : Mishap → Bool
  | .failure error => !error.isConditionFailed
  | _ => true

end Mishap

/-- Which mishaps can befall which requests. -/
abbrev Exposure := Request → Mishap → Bool

namespace Exposure

/-- Genuine mishaps can befall the requests of some operations on some tables. -/
def genuine (exposed : Operation → String → Bool) : Exposure :=
  fun request m => request.tables.any (exposed request.operation) && m.isGenuine

/-- No request meets a mishap. -/
def calm : Exposure := genuine fun _ _ => false

theorem calm_eq_false (request : Request) (m : Mishap) : calm request m = false := by
  simp [calm, genuine]

theorem not_calm {request : Request} {m : Mishap} (h : calm request m = true) : False := by
  rw [calm_eq_false] at h
  cases h

end Exposure

/-! ### Schedules -/

/-- For each request in turn the mishap that is to befall it, if any. -/
abbrev Schedule := List (Option Mishap)

namespace Schedule

/-- Answers a request from the database, or by the mishap that is next on the
    schedule if the request is exposed to it. -/
def respond (x : Exposure) (request : Request) :
    Schedule × Database → Answer request.Reply × (Schedule × Database)
  | (some m :: rest, d) =>
    let (answer, d) := if x request m then m.respond request d else d.respond request
    (answer, rest, d)
  | (none :: rest, d) =>
    let (answer, d) := d.respond request
    (answer, rest, d)
  | ([], d) =>
    let (answer, d) := d.respond request
    (answer, [], d)

/-- The database behind a schedule of mishaps. -/
def handler (x : Exposure) : Handler (Schedule × Database) := ⟨respond x⟩

end Schedule

/-! ### What a script always does -/

/-- The result that `send` makes of an answer; `none` for a panic. -/
def Answer.result : Answer α → Option (Except Store.Error α)
  | .ok reply => some (.ok reply)
  | .failed e => some (.error e)
  | .panicked => none

namespace Script

/-- However its requests fare under the exposure, the script ends with a result
    (`none` after a panic) and a database that meet `post`. -/
def Always (x : Exposure) (post : Option α → Database → Prop) : Script α → Database → Prop
  | .done a, d => post (some a) d
  | .panic, d => post none d
  | .call request next, d =>
    (next (d.respond request).1).Always x post (d.respond request).2 ∧
      ∀ m, x request m = true →
        (next (m.respond request d).1).Always x post (m.respond request d).2
  | .record _ next, d => next.Always x post d

theorem Always.mono {x : Exposure} {post post' : Option α → Database → Prop} {s : Script α}
    {d : Database} (h : s.Always x post d) (hpost : ∀ o d, post o d → post' o d) :
    s.Always x post' d := by
  induction s generalizing d with
  | done a => exact hpost _ _ h
  | panic => exact hpost _ _ h
  | call request next ih => exact ⟨ih _ h.1, fun m hm => ih _ (h.2 m hm)⟩
  | record event next ih => exact ih h

theorem always_bind {x : Exposure} {post : Option β → Database → Prop} {s : Script α}
    {f : α → Script β} {d : Database} :
    (s.bind f).Always x post d ↔
      s.Always x (fun o d => match o with
        | some a => (f a).Always x post d
        | none => post none d) d := by
  induction s generalizing d with
  | done a => exact Iff.rfl
  | panic => exact Iff.rfl
  | call request next ih =>
    simp only [Script.bind, Always, ih]
  | record event next ih => exact ih

theorem always_isolate {x : Exposure} {post : Option (Option α) → Database → Prop}
    {s : Script α} {d : Database} :
    s.isolate.Always x post d ↔ s.Always x (fun o d => post (some o) d) d := by
  induction s generalizing d with
  | done a => exact Iff.rfl
  | panic => exact Iff.rfl
  | call request next ih => simp only [isolate, Always, ih]
  | record event next ih => exact ih

/-- What a script always does it does on every schedule. -/
theorem run_of_always {x : Exposure} {post : Option α → Database → Prop} {s : Script α}
    {d : Database} (h : s.Always x post d) (schedule : Schedule) :
    post (s.run (Schedule.handler x) (schedule, d)).result
      (s.run (Schedule.handler x) (schedule, d)).state.2 := by
  induction s generalizing d schedule with
  | done a => exact h
  | panic => exact h
  | record event next ih => exact ih h schedule
  | call request next ih =>
    simp only [run, Schedule.handler]
    match schedule with
    | [] => exact ih _ h.1 []
    | none :: rest => exact ih _ h.1 rest
    | some m :: rest =>
      simp only [Schedule.respond]
      split
      · next hm => exact ih _ (h.2 m hm) rest
      · exact ih _ h.1 rest

/-- Without exposure a script always does what it does on the database. -/
theorem always_calm_iff {post : Option α → Database → Prop} {s : Script α} {d : Database} :
    s.Always .calm post d ↔
      post (s.run Database.handler d).result (s.run Database.handler d).state := by
  induction s generalizing d with
  | done a => exact Iff.rfl
  | panic => exact Iff.rfl
  | record event next ih => exact ih
  | call request next ih =>
    simp only [Always, run, ih]
    constructor
    · exact And.left
    · intro h
      exact ⟨h, fun m hm => (Exposure.not_calm hm).elim⟩

/-! ### Single requests -/

/-- Sending a request ends in the result of its answer, whoever gives it. -/
theorem always_send_iff {x : Exposure} (request : Request)
    {post : Option (Except Store.Error request.Reply) → Database → Prop} {d : Database} :
    (send request).Always x post d ↔
      post (d.respond request).1.result (d.respond request).2 ∧
        ∀ m, x request m = true →
          post (m.respond request d).1.result (m.respond request d).2 := by
  rw [send, Always]
  refine and_congr ?_ (forall_congr' fun m => imp_congr_right fun _ => ?_)
  · cases (d.respond request).1 <;> exact Iff.rfl
  · cases (m.respond request d).1 <;> exact Iff.rfl

/-- A request to one table is answered by the database, or it fails or panics if it
    is exposed.  A bulk write can also be held back, so it is left out. -/
theorem always_send (request : Request) {exposed : Operation → String → Bool} {table : String}
    (htables : request.tables = [table]) (hsingle : request.operation ≠ .bulkWrite)
    {post : Option (Except Store.Error request.Reply) → Database → Prop} {d : Database}
    (hanswer : post (d.respond request).1.result (d.respond request).2)
    (hfailed : exposed request.operation table = true → ∀ e, e.isConditionFailed = false →
      post (some (.error e)) d)
    (hpanic : exposed request.operation table = true → post none d) :
    (send request).Always (.genuine exposed) post d := by
  refine (always_send_iff request).mpr ⟨hanswer, fun m hm => ?_⟩
  simp only [Exposure.genuine, htables, List.any_cons, List.any_nil, Bool.or_false,
    Bool.and_eq_true] at hm
  obtain ⟨hexposed, hgenuine⟩ := hm
  cases m with
  | failure e => exact hfailed hexposed e (by simpa [Mishap.isGenuine] using hgenuine)
  | panic => exact hpanic hexposed
  | holdBack marks =>
    cases request <;> first | exact hanswer | exact absurd rfl hsingle

end Script

end LoginRegistry
