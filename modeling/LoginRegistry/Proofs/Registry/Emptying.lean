import LoginRegistry.Proofs.Registry.Removing
import Mathlib.Algebra.Group.Nat.Defs

/-! # Emptying a queue

    A drain cuts a list of ids into chunks and removes one chunk after the other, each
    with as many requests as it takes.  Of each request the store may leave a part, or
    fail.  Whatever it does, the drain accounts for what it has done (`drain_accounted`):

    * each chunk gets its own requests, and the database takes every one of them;
    * entries that are not listed stay, and of the others just those whose removals were
      all left, which the outcome counts;
    * after a failed request nothing more is sent.

    The requests are counted in 32 bits, so a drain panics when it has made `2 ^ 32` of them,
    even if nothing is left of any (`drain_count_overflows`).
-/

namespace LoginRegistry

open Store (AttributeValue Database Item Table Write Writes)

/-! ### Exchanges -/

/-- A bulk request, the tables that it meets, and what comes back. -/
structure Exchange where
  tables : Database
  sent : Writes
  answer : Answer Writes

/-- The request succeeds, and no write of it is left. -/
def Exchange.LeavesNothing (e : Exchange) : Prop := ∃ left, e.answer = .ok left ∧ left.flatten = []

/-- The store together with the bulk requests made to it, first one first. -/
def Handler.logged (h : Handler σ) (tables : σ → Database) : Handler (List Exchange × σ) where
  respond
    | .bulkWrite w, (log, x) =>
      let (answer, y) := h.respond (.bulkWrite w) x
      (answer, log ++ [⟨tables x, w, answer⟩], y)
    | request, (log, x) =>
      let (answer, y) := h.respond request x
      (answer, log, y)

/-- The requests in a log were answered by the store. -/
theorem Handler.exists_of_mem_log (h : Handler σ) (tables : σ → Database) {s : Script α}
    {log : List Exchange} {x : σ}
    (hlog : ∀ e ∈ log, ∃ y, tables y = e.tables ∧ (h.respond (.bulkWrite e.sent) y).1 = e.answer) :
    ∀ e ∈ (s.run (h.logged tables) (log, x)).state.1,
      ∃ y, tables y = e.tables ∧ (h.respond (.bulkWrite e.sent) y).1 = e.answer := by
  induction s generalizing log x with
  | done a => exact hlog
  | panic => exact hlog
  | record event next ih => exact ih hlog
  | call request next ih =>
    cases request with
    | bulkWrite w =>
      exact ih _ (List.forall_mem_append.mpr ⟨hlog, List.forall_mem_singleton.mpr ⟨x, rfl, rfl⟩⟩)
    | put r | update r | delete r | get r | scan r => exact ih _ hlog

namespace Queue

variable {q : Queue} {us vs rest held : List Uuid} {d d' d'' : Database} {t : Table}

/-! ### Chunks -/

/-- The requests for a chunk, first one first, and what is sent next: all of the chunk, and
    then what each request has left. -/
inductive Sends (q : Queue) (chunk : List Uuid) : List Exchange → Writes → Prop where
  | start : Sends q chunk [] (q.removal chunk)
  | again {exchanges : List Exchange} {pending left : Writes} {e : Exchange} :
    Sends q chunk exchanges pending → e.sent = pending → e.answer = .ok left →
    Sends q chunk (exchanges ++ [e]) left.compact

/-- There are requests for a chunk, one after the other, and all of them succeed; `rest` is left
    of the chunk. -/
structure Served (q : Queue) (chunk : List Uuid) (exchanges : List Exchange)
    (rest : List Uuid) : Prop where
  nonempty : exchanges ≠ []
  sends : ∃ left, q.Sends chunk exchanges left ∧ left.flatten.Perm (rest.map q.deletion)

/-- A chunk gets all the requests that it needs, or all that are allowed, and `rest` is left of
    it in the end. -/
structure Completes (q : Queue) (chunk : List Uuid) (exchanges : List Exchange)
    (rest : List Uuid) : Prop extends q.Served chunk exchanges rest where
  /-- Nothing is left, or there were as many requests as are allowed. -/
  ends : rest = [] ∨ exchanges.length = q.bulk.maxAttempts.toNat + 1

/-- The last of the requests for a chunk does not succeed. -/
def Fails (q : Queue) (chunk : List Uuid) (exchanges : List Exchange)
    (answer : Answer Writes) : Prop :=
  ∃ earlier last, exchanges = earlier ++ [last] ∧ q.Sends chunk earlier last.sent ∧
    last.answer = answer

/-- A request that removes some of the ids, and that the database takes. -/
structure Asks (q : Queue) (us : List Uuid) (e : Exchange) : Prop where
  accepts : e.tables.Accepts e.sent
  listed : e.sent.flatten ⊆ us.map q.deletion

theorem Asks.mono {e : Exchange} (h : q.Asks us e) (hus : us ⊆ vs) : q.Asks vs e :=
  ⟨h.accepts, List.Subset.trans h.listed (List.map_subset q.deletion hus)⟩

/-- What some requests have done: they ask for ids, and they remove the ids but for `rest`. -/
structure Underway (q : Queue) (us : List Uuid) (d : Database) (exchanges : List Exchange)
    (rest : List Uuid) (d' : Database) : Prop where
  asks : ∀ e ∈ exchanges, q.Asks us e
  removes : q.Removes us rest d d'

theorem Underway.refl (us : List Uuid) (d : Database) : q.Underway us d [] us d :=
  ⟨nofun, .refl us d⟩

theorem Underway.append {exchanges more : List Exchange} (h : q.Underway us d exchanges rest d')
    (h' : q.Underway vs d' more held d'') :
    q.Underway (us ++ vs) d (exchanges ++ more) (rest ++ held) d'' := by
  refine ⟨List.forall_mem_append.mpr ⟨fun e he => ?_, fun e he => ?_⟩, h.removes.append h'.removes⟩
  · exact (h.asks e he).mono (List.subset_append_left us vs)
  · exact (h'.asks e he).mono (List.subset_append_right us vs)

/-- The requests for a chunk so far, from `d` on: what is sent next removes `rest`, which is
    all that is left. -/
structure Pending (q : Queue) (chunk : List Uuid) (d : Database) (n : Nat) (pending : Writes)
    (exchanges : List Exchange) (rest : List Uuid) (d' : Database) : Prop
    extends q.Underway chunk d exchanges rest d' where
  length : exchanges.length = n
  sends : q.Sends chunk exchanges pending
  full : pending.Full
  nonempty : pending.flatten ≠ []
  flatten : pending.flatten.Perm (rest.map q.deletion)

namespace Pending

variable {chunk : List Uuid} {n : Nat} {pending left : Writes} {exchanges : List Exchange}
  {e : Exchange}

/-- One more request for the chunk has succeeded. -/
theorem served (h : q.Pending chunk d n pending exchanges rest d') (hsent : e.sent = pending)
    (hanswer : e.answer = .ok left) (hleft : left.flatten.Perm (held.map q.deletion)) :
    q.Served chunk (exchanges ++ [e]) held := by
  refine ⟨List.append_ne_nil_of_right_ne_nil _ (List.cons_ne_nil e []), ?_⟩
  refine ⟨left.compact, h.sends.again hsent hanswer, ?_⟩
  rw [Writes.flatten_compact]
  exact hleft

/-- What such a request has left is sent next. -/
theorem next (h : q.Pending chunk d n pending exchanges rest d')
    (hunderway : q.Underway chunk d (exchanges ++ [e]) held d'') (hsent : e.sent = pending)
    (hanswer : e.answer = .ok left) (hleft : left.flatten.Perm (held.map q.deletion))
    (hsome : left.flatten ≠ []) :
    q.Pending chunk d (n + 1) left.compact (exchanges ++ [e]) held d'' := by
  refine ⟨hunderway, ?_, h.sends.again hsent hanswer, Writes.full_compact left, ?_, ?_⟩
  · rw [List.length_append, h.length]
    rfl
  · rwa [Writes.flatten_compact]
  · rwa [Writes.flatten_compact]

end Pending

/-- The requests for a chunk when its result is there. -/
structure Handled (q : Queue) (chunk : List Uuid) (d : Database)
    (result : Option (Except Store.Error BulkOutcome)) (exchanges : List Exchange)
    (rest : List Uuid) (d' : Database) : Prop
    extends q.Underway chunk d exchanges rest d' where
  ends : match result with
    | some (.ok o) => q.Completes chunk exchanges rest ∧
        o.attempts.toNat = exchanges.length ∧ o.unprocessed = rest.length
    | some (.error e) => q.Fails chunk exchanges (.failed e)
    | none => q.Fails chunk exchanges .panicked ∨
        q.Served chunk exchanges rest ∧ UInt32.size ≤ exchanges.length

section chunk

variable (htable : d.get? q.table = some t) (hkey : t.partition = Row.uuidName)

include htable hkey

/-- The database takes the removals of some ids. -/
theorem accepts_of_perm {w : Writes} (hfull : w.Full) (hnonempty : w.flatten ≠ [])
    (hflatten : w.flatten.Perm (us.map q.deletion)) (hupper : us.length ≤ maxBulkWrites) :
    d.Accepts w := by
  refine ⟨hfull, List.length_pos_iff.mpr hnonempty, ?_, fun e he => ?_⟩
  · rw [Writes.count, hflatten.length_eq, List.length_map]
    exact hupper
  · obtain ⟨u, -, rfl⟩ := List.mem_map.mp (hflatten.mem_iff.mp he)
    have hdeletion : d.get? (q.deletion u).1 = some t := htable
    rw [Database.takes, hdeletion, Option.any_some, hkey]
    exact Option.isSome_iff_exists.mpr ⟨_, Row.uuid_uuidKey u⟩

variable {h : Handler σ} {tables : σ → Database} (hh : h.Parts tables) {chunk : List Uuid}
  (hupper : chunk.length ≤ maxBulkWrites) {log : List Exchange}

include hh hupper

/-- A request removes some of what was left. -/
theorem Pending.exchange {n : Nat} {pending : Writes} {exchanges : List Exchange}
    {st st' : List Exchange × σ} {answer : Answer Writes} (hlog : st.1 = log ++ exchanges)
    (hst : q.Pending chunk d n pending exchanges rest (tables st.2))
    (hst' : (h.logged tables).answers (.bulkWrite pending) st answer st') :
    ∃ e held, e.sent = pending ∧ e.answer = answer ∧ st'.1 = log ++ (exchanges ++ [e]) ∧
      q.Underway chunk d (exchanges ++ [e]) held (tables st'.2) ∧
      ∀ left, answer = .ok left → left.flatten.Perm (held.map q.deletion) := by
  obtain ⟨made, x⟩ := st
  obtain ⟨rfl, rfl⟩ := Prod.mk.inj hst'
  -- The store parts the writes that are pending, and so the ids that are left.
  obtain ⟨applied, others, hparts, htables, hleft⟩ := hh pending x
  obtain ⟨removed, held, rfl, rfl, hperm⟩ := exists_of_perm_map (hparts.trans hst.flatten)
  have hsubperm := hst.removes.subperm
  obtain ⟨t', htable', hkey'⟩ := hst.removes.table htable hkey
  have hasks : q.Asks chunk ⟨tables x, pending, (h.respond (.bulkWrite pending) x).1⟩ := by
    refine ⟨accepts_of_perm htable' hkey' hst.full hst.nonempty hst.flatten ?_, ?_⟩
    · exact hsubperm.length_le.trans hupper
    · exact List.Subset.trans hst.flatten.subset (List.map_subset q.deletion hsubperm.subset)
  refine ⟨⟨tables x, pending, _⟩, held, rfl, rfl, ?_, ⟨?_, ?_⟩, hleft⟩
  · exact (congrArg (· ++ _) hlog).trans (List.append_assoc ..)
  · exact List.forall_mem_append.mpr ⟨hst.asks, List.forall_mem_singleton.mpr hasks⟩
  · exact hst.removes.trans ⟨removed, hperm, htables⟩

theorem steps_removal :
    q.bulk.Steps (h.logged tables).answers
      (fun n pending st => ∃ exchanges rest, st.1 = log ++ exchanges ∧
        q.Pending chunk d n pending exchanges rest (tables st.2))
      fun result st => ∃ exchanges rest, st.1 = log ++ exchanges ∧
        q.Handled chunk d result exchanges rest (tables st.2) := by
  constructor
  -- Nothing is left.
  · intro n pending st left st' _ hpending hst' hempty hsmall
    obtain ⟨exchanges, rest, hlog, hst⟩ := hpending
    obtain ⟨e, held, hsent, hanswer, hlog', hunderway, hheld⟩ :=
      hst.exchange htable hkey hh hupper hlog hst'
    obtain rfl : held = [] := by
      have hnil := hheld left rfl
      rw [Writes.isEmpty_compact.mp hempty] at hnil
      exact List.map_eq_nil_iff.mp (List.nil_perm.mp hnil)
    refine ⟨_, [], hlog', hunderway, ⟨hst.served hsent hanswer (hheld left rfl), .inl rfl⟩, ?_, rfl⟩
    rw [UInt32.toNat_ofNat_of_lt' hsmall, List.length_append, hst.length]
    rfl
  -- Something is left of the last request that is allowed.
  · rintro n pending st left st' rfl hpending hst' _ hsmall
    obtain ⟨exchanges, rest, hlog, hst⟩ := hpending
    obtain ⟨e, held, hsent, hanswer, hlog', hunderway, hheld⟩ :=
      hst.exchange htable hkey hh hupper hlog hst'
    have hlength : (exchanges ++ [e]).length = q.bulk.maxAttempts.toNat + 1 := by
      rw [List.length_append, hst.length]
      rfl
    refine ⟨_, held, hlog', hunderway,
      ⟨hst.served hsent hanswer (hheld left rfl), .inr hlength⟩, ?_, ?_⟩
    · rw [UInt32.toNat_ofNat_of_lt' hsmall, hlength]
    · rw [Writes.count, Writes.flatten_compact, (hheld left rfl).length_eq, List.length_map]
  -- What is left is sent again.
  · intro n pending st left st' _ hpending hst' hsome
    obtain ⟨exchanges, rest, hlog, hst⟩ := hpending
    obtain ⟨e, held, hsent, hanswer, hlog', hunderway, hheld⟩ :=
      hst.exchange htable hkey hh hupper hlog hst'
    exact ⟨_, held, hlog', hst.next hunderway hsent hanswer (hheld left rfl)
      (Writes.flatten_ne_nil_of_isEmpty_compact hsome)⟩
  -- The request cannot be counted.
  · intro n pending st left st' _ hpending hst' hsize
    obtain ⟨exchanges, rest, hlog, hst⟩ := hpending
    obtain ⟨e, held, hsent, hanswer, hlog', hunderway, hheld⟩ :=
      hst.exchange htable hkey hh hupper hlog hst'
    refine ⟨_, held, hlog', hunderway, .inr ⟨hst.served hsent hanswer (hheld left rfl), ?_⟩⟩
    rw [List.length_append, hst.length]
    exact Nat.le_of_eq hsize.symm
  -- The request fails.
  · intro n pending st error st' _ hpending hst'
    obtain ⟨exchanges, rest, hlog, hst⟩ := hpending
    obtain ⟨last, held, hsent, hanswer, hlog', hunderway, -⟩ :=
      hst.exchange htable hkey hh hupper hlog hst'
    exact ⟨_, held, hlog', hunderway, exchanges, last, rfl, hsent ▸ hst.sends, hanswer⟩
  -- The store panics.
  · intro n pending st st' _ hpending hst'
    obtain ⟨exchanges, rest, hlog, hst⟩ := hpending
    obtain ⟨last, held, hsent, hanswer, hlog', hunderway, -⟩ :=
      hst.exchange htable hkey hh hupper hlog hst'
    exact ⟨_, held, hlog', hunderway, .inl ⟨exchanges, last, rfl, hsent ▸ hst.sends, hanswer⟩⟩

/-- What becomes of a chunk. -/
theorem within_complete_removal (hlower : 1 ≤ chunk.length) {x : σ} (hx : tables x = d) :
    (q.bulk.complete (q.removal chunk)).Within (h.logged tables).answers
      (fun result st => ∃ exchanges rest, st.1 = log ++ exchanges ∧
        q.Handled chunk d result exchanges rest (tables st.2)) (log, x) := by
  subst hx
  have hnonempty : chunk ≠ [] := List.length_pos_iff.mp hlower
  have hwrites : (q.removal chunk).flatten ≠ [] := by
    rw [flatten_removal]
    exact mt List.map_eq_nil_iff.mp hnonempty
  refine BulkSettings.within_complete_of_steps (steps_removal htable hkey hh hupper)
    (fun hnone => absurd hnone hwrites) fun _ => ?_
  rw [compact_removal hnonempty]
  refine ⟨[], chunk, (List.append_nil log).symm, ⟨.refl chunk _, rfl, .start, ?_, hwrites, ?_⟩⟩
  · rw [← compact_removal hnonempty]
    exact Writes.full_compact _
  · rw [flatten_removal]

end chunk

/-! ### Drains -/

/-- The chunks are done one after the other, with these requests, and `rest` is left of them. -/
inductive Finished (q : Queue) : List (List Uuid) → List Exchange → List Uuid → Prop where
  | start : Finished q [] [] []
  | chunk {chunks : List (List Uuid)} {log exchanges : List Exchange} {chunk rest held : List Uuid} :
    Finished q chunks log rest → q.Completes chunk exchanges held →
    Finished q (chunks ++ [chunk]) (log ++ exchanges) (rest ++ held)

/-- The requests for a chunk succeed, but the requests of the drain or the removals that are left
    cannot be counted any more. -/
structure Overflows (q : Queue) (chunk : List Uuid) (exchanges : List Exchange) (held : List Uuid)
    (requests unprocessed : Nat) : Prop extends q.Served chunk exchanges held where
  large : UInt32.size ≤ requests ∨ UInt64.size ≤ unprocessed

/-- A drain breaks off at a chunk: the chunks before it are done, and nothing of those after it
    is sent.  A request for the chunk fails with an error of the store or panics (`none`), or
    there is too much to count, which is a panic. -/
def BreaksOff (q : Queue) (chunks : List (List Uuid)) (d : Database) (error : Option Store.Error)
    (log : List Exchange) (d' : Database) : Prop :=
  ∃ earlier chunk later before exchanges rest held d₀,
    chunks = earlier ++ chunk :: later ∧ log = before ++ exchanges ∧
    q.Finished earlier before rest ∧ q.Emptied earlier.flatten rest d d₀ ∧
    (match error with
      | some e => q.Fails chunk exchanges (.failed e)
      | none => q.Fails chunk exchanges .panicked ∨
          q.Overflows chunk exchanges held log.length (rest.length + held.length)) ∧
    q.Emptied chunk held d₀ d' ∧
    ∀ e ∈ log, e.sent.flatten ⊆ (earlier.flatten ++ chunk).map q.deletion

/-! ### How a drain ends -/

section ends

variable {chunk : List Uuid} {chunks : List (List Uuid)} {exchanges log : List Exchange}

/-- What is followed by another request has succeeded. -/
theorem Sends.answered {pending : Writes} (h : q.Sends chunk exchanges pending) :
    ∀ e ∈ exchanges, ∃ left, e.answer = .ok left := by
  induction h with
  | start => nofun
  | again _ _ hanswer ih =>
    exact List.forall_mem_append.mpr ⟨ih, List.forall_mem_singleton.mpr ⟨_, hanswer⟩⟩

theorem Served.answered (h : q.Served chunk exchanges rest) :
    ∀ e ∈ exchanges, ∃ left, e.answer = .ok left := by
  obtain ⟨_, hsends, -⟩ := h.sends
  exact hsends.answered

theorem Finished.answered (h : q.Finished chunks log rest) :
    ∀ e ∈ log, ∃ left, e.answer = .ok left := by
  induction h with
  | start => nofun
  | chunk _ hcompletes ih => exact List.forall_mem_append.mpr ⟨ih, hcompletes.answered⟩

/-- A request that fails is the one that a drain gives up with. -/
theorem BreaksOff.eq_of_failed {error : Option Store.Error} (h : q.BreaksOff chunks d error log d')
    {e : Exchange} (he : e ∈ log) {e' : Store.Error} (hfailed : e.answer = .failed e') :
    error = some e' := by
  have hanswered : ∀ {made : List Exchange}, (∀ e ∈ made, ∃ left, e.answer = .ok left) →
      e ∉ made := by
    intro made hmade hmem
    obtain ⟨left, hleft⟩ := hmade e hmem
    rw [hfailed] at hleft
    cases hleft
  obtain ⟨earlier, chunk, later, before, exchanges, rest, held, d₀, -, rfl, hfinished, -, hends,
    -⟩ := h
  replace he := (List.mem_append.mp he).resolve_left (hanswered hfinished.answered)
  have hlast : ∀ {answer}, q.Fails chunk exchanges answer → answer = .failed e' := by
    -- The requests before the last one were followed by another one.
    rintro _ ⟨made, last, rfl, hsends, rfl⟩
    replace he := (List.mem_append.mp he).resolve_left (hanswered hsends.answered)
    rw [← List.mem_singleton.mp he, hfailed]
  match error with
  | some error => rw [Answer.failed.inj (hlast hends)]
  | none =>
    rcases hends with hpanic | hoverflows
    · cases hlast hpanic
    · exact absurd he (hanswered hoverflows.answered)

/-- If all requests succeed, a drain breaks off only because there is too much to count. -/
theorem BreaksOff.large {error : Option Store.Error} (h : q.BreaksOff chunks d error log d')
    (hlog : ∀ e ∈ log, ∃ left, e.answer = .ok left) :
    error = none ∧ ∃ earlier chunk later before exchanges rest held,
      chunks = earlier ++ chunk :: later ∧ log = before ++ exchanges ∧
      q.Finished earlier before rest ∧ rest.length + held.length ≤ chunks.flatten.length ∧
      q.Overflows chunk exchanges held log.length (rest.length + held.length) := by
  obtain ⟨earlier, chunk, later, before, exchanges, rest, held, d₀, rfl, rfl, hfinished, hrest,
    hends, hheld, -⟩ := h
  have hfails : ∀ answer : Answer Writes, (∀ left, answer ≠ .ok left) →
      ¬ q.Fails chunk exchanges answer := by
    rintro _ hanswer ⟨made, last, rfl, -, rfl⟩
    obtain ⟨left, hleft⟩ := hlog last
      (List.mem_append_right before (List.mem_append_right made (List.mem_singleton_self last)))
    exact hanswer left hleft
  match error with
  | some e => exact absurd hends (hfails _ nofun)
  | none =>
    refine ⟨rfl, earlier, chunk, later, before, exchanges, rest, held, rfl, rfl, hfinished, ?_,
      hends.resolve_left (hfails _ nofun)⟩
    have hlengths := Nat.add_le_add hrest.subperm.length_le hheld.subperm.length_le
    rw [List.flatten_append, List.flatten_cons, List.length_append, List.length_append]
    omega

/-- Of nothing there is nothing to send again. -/
theorem Sends.eq_nil_or {pending : Writes} (h : q.Sends chunk exchanges pending)
    (hcalm : ∀ e ∈ exchanges, e.LeavesNothing ∧ e.sent.flatten ≠ []) :
    exchanges = [] ∨ exchanges.length = 1 ∧ pending.flatten = [] := by
  induction h with
  | start => exact .inl rfl
  | @again exchanges pending left e _ hsent hanswer ih =>
    obtain ⟨hearlier, hlast⟩ := List.forall_mem_append.mp hcalm
    obtain ⟨⟨_, hleaves, hnone⟩, hsome⟩ := hlast e (List.mem_singleton_self e)
    obtain rfl := Answer.ok.inj (hanswer.symm.trans hleaves)
    rcases ih hearlier with rfl | ⟨-, hpending⟩
    · exact .inr ⟨rfl, (Writes.flatten_compact left).trans hnone⟩
    · -- A second request would have had nothing to send.
      exact absurd (hsent ▸ hpending) hsome

/-- If nothing is left of any request for a chunk, there is one. -/
theorem Served.length_eq (h : q.Served chunk exchanges rest)
    (hcalm : ∀ e ∈ exchanges, e.LeavesNothing ∧ e.sent.flatten ≠ []) :
    exchanges.length = 1 ∧ rest = [] := by
  obtain ⟨left, hsends, hleft⟩ := h.sends
  obtain ⟨hone, hnone⟩ := (hsends.eq_nil_or hcalm).resolve_left h.nonempty
  rw [hnone] at hleft
  exact ⟨hone, List.map_eq_nil_iff.mp (List.nil_perm.mp hleft)⟩

/-- If nothing is left of any request, there is one for each chunk. -/
theorem Finished.length_eq (h : q.Finished chunks log rest)
    (hcalm : ∀ e ∈ log, e.LeavesNothing ∧ e.sent.flatten ≠ []) :
    log.length = chunks.length ∧ rest = [] := by
  induction h with
  | start => exact ⟨rfl, rfl⟩
  | chunk _ hcompletes ih =>
    obtain ⟨hearlier, hlast⟩ := List.forall_mem_append.mp hcalm
    obtain ⟨hlength, rfl⟩ := ih hearlier
    obtain ⟨hone, rfl⟩ := hcompletes.length_eq hlast
    exact ⟨by rw [List.length_append, List.length_append, hlength, hone]; rfl, rfl⟩

/-- If nothing is left of any request, a drain breaks off only because there are too many
    chunks. -/
theorem BreaksOff.le_length {error : Option Store.Error} (h : q.BreaksOff chunks d error log d')
    (hcalm : ∀ e ∈ log, e.LeavesNothing ∧ e.sent.flatten ≠ []) :
    error = none ∧ UInt32.size ≤ chunks.length := by
  obtain ⟨rfl, earlier, chunk, later, before, exchanges, rest, held, rfl, rfl, hfinished, -,
    hoverflows⟩ := h.large fun e he => by
      obtain ⟨left, hleft, -⟩ := (hcalm e he).1
      exact ⟨left, hleft⟩
  obtain ⟨hearlier, hlast⟩ := List.forall_mem_append.mp hcalm
  obtain ⟨hbefore, rfl⟩ := hfinished.length_eq hearlier
  obtain ⟨hone, rfl⟩ := hoverflows.length_eq hlast
  have hlarge := hoverflows.large.resolve_right (Nat.not_le.mpr (UInt64.toNat_lt 0))
  rw [List.length_append, hbefore, hone] at hlarge
  refine ⟨rfl, ?_⟩
  rw [List.length_append, List.length_cons]
  omega

end ends

/-! ### What is reported -/

/-- A drain of some ids from `d` accounts for what it has done when `result` is there, with
    these requests and `d'` in the end. -/
structure Accounts (q : Queue) (uuids : List Uuid) (d : Database)
    (result : Option (Except RegistryError BulkOutcome)) (log : List Exchange)
    (d' : Database) : Prop where
  /-- The chunks are the list. -/
  flatten : (q.bulk.chunks uuids).flatten = uuids
  /-- No chunk is empty or larger than the size that is set. -/
  size : ∀ chunk ∈ q.bulk.chunks uuids,
    1 ≤ chunk.length ∧ chunk.length ≤ q.bulk.maxBatchSize.toNat
  /-- Only the last chunk can be smaller. -/
  full : ∀ chunk ∈ (q.bulk.chunks uuids).dropLast, chunk.length = q.bulk.maxBatchSize.toNat
  /-- There are as many chunks as it takes. -/
  length : (q.bulk.chunks uuids).length
    = (uuids.length + q.bulk.maxBatchSize.toNat - 1) / q.bulk.maxBatchSize.toNat
  /-- No request is empty or too large, and the database would apply each of them. -/
  taken : ∀ e ∈ log, 1 ≤ e.sent.count ∧ e.sent.count ≤ maxBulkWrites ∧
    e.tables.bulkWrite e.sent = .ok (e.sent.flatten.foldl Database.applyWrite e.tables)
  /-- An outcome comes after all chunks, and it counts the requests and the removals that are
      left.  With an error or a panic the drain breaks off. -/
  ends : match result with
    | some (.ok o) => ∃ rest, q.Finished (q.bulk.chunks uuids) log rest ∧
        q.Emptied uuids rest d d' ∧ o.attempts.toNat = log.length ∧ o.unprocessed = rest.length
    | some (.error e) => ∃ error, e = .store error ∧
        q.BreaksOff (q.bulk.chunks uuids) d (some error) log d'
    | none => q.BreaksOff (q.bulk.chunks uuids) d none log d'
  /-- A request that fails ends the drain with its error. -/
  fails : ∀ e ∈ log, ∀ error, e.answer = .failed error → result = some (.error (.store error))
  /-- If all requests succeed and there are not too many of them, there is an outcome. -/
  returns : (∀ e ∈ log, ∃ left, e.answer = .ok left) → log.length < 2 ^ 32 →
    uuids.length < 2 ^ 64 → ∃ o, result = some (.ok o)
  /-- If no request leaves anything and there are not too many chunks, there is an outcome: there
      was one request for each chunk, which is what the outcome says, and all listed entries are
      gone. -/
  calm : (∀ e ∈ log, e.LeavesNothing) → (q.bulk.chunks uuids).length < 2 ^ 32 →
    ∃ o, result = some (.ok o) ∧ o.unprocessed = 0 ∧
      o.attempts.toNat = (q.bulk.chunks uuids).length ∧
      log.length = (q.bulk.chunks uuids).length ∧
      ∀ u ∈ uuids, q.row? d' (Row.uuidValue u) = none
  /-- With too many chunks the drain panics although no request leaves anything. -/
  overflows : (∀ e ∈ log, e.LeavesNothing) → 2 ^ 32 ≤ (q.bulk.chunks uuids).length → result = none

section drain

variable {h : Handler σ} {tables : σ → Database} (hh : h.Parts tables)
  (hbulk : q.bulk.validate = .ok ()) {x : σ} (htable : (tables x).get? q.table = some t)
  (hkey : t.partition = Row.uuidName)

include hh hbulk htable hkey

/-- What becomes of a drain, one chunk after the other. -/
theorem within_removeAll_finished (uuids : List Uuid) :
    Action.Within (h.logged tables).answers (q.removeAll uuids) ([], x)
      (fun o st => ∃ rest, q.Finished (q.bulk.chunks uuids) st.1 rest ∧
        q.Underway uuids (tables x) st.1 rest (tables st.2) ∧
        o.attempts.toNat = st.1.length ∧ o.unprocessed = rest.length)
      fun e st => (∀ e ∈ st.1, q.Asks uuids e) ∧ ∃ error, e = error.map .store ∧
        q.BreaksOff (q.bulk.chunks uuids) (tables x) error st.1 (tables st.2) := by
  refine Action.Within.mono (within_removeAll_of_chunks
    (J := fun chunks total st => ∃ done rest, done ++ chunks = q.bulk.chunks uuids ∧
      q.Finished done st.1 rest ∧ q.Underway done.flatten (tables x) st.1 rest (tables st.2) ∧
      total.attempts.toNat = st.1.length ∧ total.unprocessed = rest.length) ?_ ?_) ?_ fun _ _ => id
  · -- One more chunk, from the tables that the chunks before it have left.
    rintro chunk chunks total ⟨log, y⟩
      ⟨done, rest, hchunks, hfinished, hunderway, hattempts, hunprocessed⟩
    have hmem : chunk ∈ q.bulk.chunks uuids := by
      rw [← hchunks]
      exact List.mem_append_right done List.mem_cons_self
    obtain ⟨hlower, hupper⟩ := BulkSettings.length_of_mem_chunks hbulk hmem
    obtain ⟨t', htable', hkey'⟩ := hunderway.removes.table htable hkey
    refine Script.Within.mono
      (within_complete_removal htable' hkey' hh hupper hlower rfl) ?_
    rintro result ⟨log', z⟩ ⟨exchanges, held, rfl, hhandled⟩
    have hboth := hunderway.append hhandled.toUnderway
    have hsub : done.flatten ++ chunk ⊆ uuids := by
      have hall := q.bulk.flatten_chunks uuids
      rw [← hchunks, List.flatten_append, List.flatten_cons, ← List.append_assoc] at hall
      exact hall ▸ List.subset_append_left _ _
    have hasks : ∀ e ∈ log ++ exchanges, q.Asks uuids e := fun e he => (hboth.asks e he).mono hsub
    have hbefore := hunderway.removes.emptied htable hkey
    have hafter := hhandled.removes.emptied htable' hkey'
    have hlisted := fun e (he : e ∈ log ++ exchanges) => (hboth.asks e he).listed
    have hoverflows : q.Served chunk exchanges held →
        UInt32.size ≤ (log ++ exchanges).length ∨ UInt64.size ≤ rest.length + held.length →
        q.BreaksOff (q.bulk.chunks uuids) (tables x) none (log ++ exchanges) (tables z) :=
      fun hserved hlarge => ⟨done, chunk, chunks, log, exchanges, rest, held, tables y,
        hchunks.symm, rfl, hfinished, hbefore, .inr ⟨hserved, hlarge⟩, hafter, hlisted⟩
    have hends := hhandled.ends
    match result with
    | some (.ok o) =>
      obtain ⟨hcompletes, hattempts', hunprocessed'⟩ := hends
      dsimp only at hattempts ⊢
      have hlength : total.attempts.toNat + o.attempts.toNat = (log ++ exchanges).length := by
        rw [List.length_append, hattempts, hattempts']
      have hleft : total.unprocessed + o.unprocessed = rest.length + held.length := by
        rw [hunprocessed, hunprocessed']
      cases hsum : total.merge? o with
      | none =>
        have hlarge := BulkOutcome.large_of_merge? hsum
        rw [hlength, hleft] at hlarge
        exact ⟨hasks, none, rfl, hoverflows hcompletes.toServed hlarge⟩
      | some sum =>
        obtain ⟨hsumAttempts, hsumLeft⟩ := BulkOutcome.counts_of_merge? hsum
        refine ⟨done ++ [chunk], _, ?_, hfinished.chunk hcompletes, ?_,
          hsumAttempts.trans hlength, (hsumLeft.trans hleft).trans List.length_append.symm⟩
        · rw [List.append_assoc, List.singleton_append, hchunks]
        · rw [List.flatten_append, List.flatten_singleton]
          exact hboth
    | some (.error e) =>
      exact ⟨hasks, some e, rfl, done, chunk, chunks, log, exchanges, rest, held, tables y,
        hchunks.symm, rfl, hfinished, hbefore, hends, hafter, hlisted⟩
    | none =>
      refine ⟨hasks, none, rfl, ?_⟩
      rcases hends with hpanicked | ⟨hserved, hlarge⟩
      · exact ⟨done, chunk, chunks, log, exchanges, rest, held, tables y, hchunks.symm, rfl,
          hfinished, hbefore, .inl hpanicked, hafter, hlisted⟩
      · refine hoverflows hserved (.inl (Nat.le_trans hlarge ?_))
        rw [List.length_append]
        exact Nat.le_add_left ..
  · exact ⟨[], [], rfl, .start, .refl [] (tables x), rfl, rfl⟩
  · rintro o st ⟨done, rest, hchunks, hfinished, hunderway, hcounts⟩
    rw [List.append_nil] at hchunks
    subst hchunks
    rw [BulkSettings.flatten_chunks] at hunderway
    exact ⟨rest, hfinished, hunderway, hcounts⟩

/-- A drain gets through all chunks, or it breaks off at one of them. -/
theorem run_removeAll_cases (uuids : List Uuid) :
    let run := (q.removeAll uuids).run.run (h.logged tables) ([], x)
    (∀ e ∈ run.state.1, q.Asks uuids e) ∧
      ((∃ o rest, run.result = some (.ok o) ∧ o.attempts.toNat = run.state.1.length ∧
          o.unprocessed = rest.length ∧ q.Finished (q.bulk.chunks uuids) run.state.1 rest ∧
          q.Removes uuids rest (tables x) (tables run.state.2)) ∨
        ∃ error : Option Store.Error, run.result = error.map (fun e => .error (.store e)) ∧
          q.BreaksOff (q.bulk.chunks uuids) (tables x) error run.state.1 (tables run.state.2)) := by
  intro run
  have hrun := Script.within_answers_iff.mp (within_removeAll_finished hh hbulk htable hkey uuids)
  split at hrun
  · next o hresult =>
    obtain ⟨rest, hfinished, hunderway, hattempts, hunprocessed⟩ := hrun
    exact ⟨hunderway.asks,
      .inl ⟨o, rest, hresult, hattempts, hunprocessed, hfinished, hunderway.removes⟩⟩
  · next e hresult =>
    obtain ⟨hasks, error, herror, hbreaks⟩ := hrun
    obtain ⟨error, rfl, rfl⟩ := Option.map_eq_some_iff.mp herror.symm
    exact ⟨hasks, .inr ⟨some error, hresult, hbreaks⟩⟩
  · next hresult =>
    obtain ⟨hasks, error, herror, hbreaks⟩ := hrun
    obtain rfl := Option.map_eq_none_iff.mp herror.symm
    exact ⟨hasks, .inr ⟨none, hresult, hbreaks⟩⟩

/-- What a drain reports if nothing is left of any of its requests. -/
theorem run_removeAll_of_calm (uuids : List Uuid) :
    let run := (q.removeAll uuids).run.run (h.logged tables) ([], x)
    (∀ e ∈ run.state.1, e.LeavesNothing) →
      (∃ o, run.result = some (.ok o) ∧ o.unprocessed = 0 ∧
          o.attempts.toNat = (q.bulk.chunks uuids).length ∧
          run.state.1.length = (q.bulk.chunks uuids).length ∧
          q.Removes uuids [] (tables x) (tables run.state.2)) ∨
        run.result = none ∧ UInt32.size ≤ (q.bulk.chunks uuids).length := by
  intro run hcalm
  obtain ⟨hasks, hcases⟩ := run_removeAll_cases hh hbulk htable hkey uuids
  have hnonempty : ∀ e ∈ run.state.1, e.LeavesNothing ∧ e.sent.flatten ≠ [] := fun e he =>
    ⟨hcalm e he, List.length_pos_iff.mp (hasks e he).accepts.lower⟩
  rcases hcases with ⟨o, rest, hresult, hattempts, hunprocessed, hfinished, hremoves⟩ |
    ⟨error, hresult, hbreaks⟩
  · obtain ⟨hlength, rfl⟩ := hfinished.length_eq hnonempty
    exact .inl ⟨o, hresult, hunprocessed, hattempts.trans hlength, hlength, hremoves⟩
  · obtain ⟨rfl, hlarge⟩ := hbreaks.le_length hnonempty
    exact .inr ⟨hresult, hlarge⟩

/-- A drain accounts for what it has done, whichever writes the store leaves and whichever
    requests fail. -/
theorem drain_accounted (uuids : List Uuid) :
    let run := (q.removeAll uuids).run.run (h.logged tables) ([], x)
    q.Accounts uuids (tables x) run.result run.state.1 (tables run.state.2) := by
  intro run
  obtain ⟨hasks, hcases⟩ := run_removeAll_cases hh hbulk htable hkey uuids
  have hsize := (BulkSettings.batchSize_of_validate hbulk).1
  have hchunks := BulkSettings.chunks_eq_cut hbulk uuids
  constructor
  · exact BulkSettings.flatten_chunks q.bulk uuids
  · rw [hchunks]
    exact fun chunk hchunk => BulkSettings.length_of_mem_cut (by rwa [List.length_nil]) hchunk
  · rw [hchunks]
    exact fun chunk => BulkSettings.length_of_mem_dropLast_cut
  · rw [hchunks, BulkSettings.length_cut (by rwa [List.length_nil]), List.length_nil, Nat.zero_add]
  · intro e he
    have haccepts := (hasks e he).accepts
    exact ⟨haccepts.lower, haccepts.upper, haccepts.bulkWrite_eq_ok⟩
  · rcases hcases with ⟨o, rest, hresult, hattempts, hunprocessed, hfinished, hremoves⟩ |
      ⟨error, hresult, hbreaks⟩
    · rw [hresult]
      exact ⟨rest, hfinished, hremoves.emptied htable hkey, hattempts, hunprocessed⟩
    · rw [hresult]
      cases error with
      | some error => exact ⟨error, rfl, hbreaks⟩
      | none => exact hbreaks
  · intro e he error hfailed
    rcases hcases with ⟨_, rest, -, -, -, hfinished, -⟩ | ⟨_, hresult, hbreaks⟩
    · obtain ⟨left, hleft⟩ := hfinished.answered e he
      rw [hfailed] at hleft
      cases hleft
    · obtain rfl := hbreaks.eq_of_failed he hfailed
      exact hresult
  · intro hanswered hrequests hlisted
    rcases hcases with ⟨o, -, hresult, -⟩ | ⟨error, -, hbreaks⟩
    · exact ⟨o, hresult⟩
    · obtain ⟨-, _, _, _, _, _, _, _, -, -, -, hleft, hoverflows⟩ := hbreaks.large hanswered
      rw [BulkSettings.flatten_chunks] at hleft
      rcases hoverflows.large with hlarge | hlarge
      · exact absurd hrequests (Nat.not_lt.mpr hlarge)
      · exact absurd hlisted (Nat.not_lt.mpr (Nat.le_trans hlarge hleft))
  · intro hcalm hsmall
    obtain ⟨o, hresult, hunprocessed, hattempts, hlength, hremoves⟩ :=
      (run_removeAll_of_calm hh hbulk htable hkey uuids hcalm).resolve_right
        fun hlarge => absurd hsmall (Nat.not_lt.mpr hlarge.2)
    refine ⟨o, hresult, hunprocessed, hattempts, hlength, fun u hu => ?_⟩
    have hcount : ([] : List Uuid).count u ≠ uuids.count u := by
      have hpos := List.count_pos_iff.mpr hu
      rw [List.count_nil]
      omega
    rw [(hremoves.emptied htable hkey).listed u hu, if_neg hcount]
  · intro hcalm hlarge
    rcases run_removeAll_of_calm hh hbulk htable hkey uuids hcalm with ⟨o, -, -, hattempts, -⟩ | h
    · exact absurd (hattempts ▸ o.attempts.toNat_lt) (Nat.not_lt.mpr hlarge)
    · exact h.1

end drain

/-- An id is listed twice.  The store holds back the second removal of the first chunk both
    times, and the one retry that is allowed is used up; it takes the second chunk.  The entry
    whose removal is left is still there, and so is one that is not listed. -/
theorem drain_accounted_held :
    let u : Uuid := ⟨.replicate 16 1, rfl⟩
    let v : Uuid := ⟨.replicate 16 2, rfl⟩
    let w : Uuid := ⟨.replicate 16 3, rfl⟩
    let q : Queue := ⟨"migration_deleted_accounts", ⟨1, 2⟩⟩
    let t : Table := ⟨Row.uuidName, SortedMap.ofList
      ([u, v, w].map fun u => (Row.uuidValue u, Row.uuidKey u))⟩
    let d : Database := SortedMap.single q.table t
    let x : Schedule × Database :=
      ([some (.holdBack [false, true]), some (.holdBack [true])], d)
    let run := (q.removeAll [u, v, u]).run.run ((Schedule.handler .held).logged Prod.snd) ([], x)
    (Schedule.handler .held).Parts Prod.snd ∧ q.bulk.validate = .ok () ∧
      d.get? q.table = some t ∧ t.partition = Row.uuidName ∧
      run.result.bind Except.toOption = some ⟨3, 1⟩ ∧
      [u, v, w].map (fun u => (q.row? run.state.2.2 (Row.uuidValue u)).isSome)
        = [false, true, true] ∧
      q.Accounts [u, v, u] d run.result run.state.1 run.state.2.2 := by
  intro u v w q t d x run
  have hparts := Schedule.parts_handler .held
  have hbulk : q.bulk.validate = .ok () := by decide
  have htable : d.get? q.table = some t := (SortedMap.get?_single ..).trans (if_pos rfl)
  refine ⟨hparts, hbulk, htable, rfl, ?_, ?_, ?_⟩
  · unfold run x d t q w v u
    decide +kernel
  · unfold run x d t q w v u
    decide +kernel
  · exact drain_accounted (x := x) hparts hbulk htable rfl [u, v, u]

/-! ### The count of requests -/

/-- A drain of the database itself leaves nothing of any request. -/
theorem leavesNothing_of_run_database (hbulk : q.bulk.validate = .ok ())
    (htable : d.get? q.table = some t) (hkey : t.partition = Row.uuidName) (uuids : List Uuid) :
    let run := (q.removeAll uuids).run.run (Database.handler.logged id) ([], d)
    ∀ e ∈ run.state.1, e.LeavesNothing := by
  intro run e he
  have hasks := (run_removeAll_cases Database.parts_handler hbulk htable hkey uuids).1
  obtain ⟨y, rfl, hanswer⟩ :=
    Handler.exists_of_mem_log Database.handler id (List.forall_mem_nil _) e he
  refine ⟨.empty, ?_, rfl⟩
  rw [← hanswer]
  simp only [Database.handler, Database.respond, (hasks e he).accepts.bulkWrite_eq_ok]

/-- The requests for `2 ^ 32` chunks of one id each do not fail and leave nothing, and the drain
    panics all the same. -/
theorem drain_count_overflows :
    let u : Uuid := ⟨.replicate 16 1, rfl⟩
    let q : Queue := ⟨"migration_deleted_accounts", ⟨25, 1⟩⟩
    let uuids := List.replicate 4294967296 u
    let d : Database := SortedMap.single q.table ⟨Row.uuidName, .empty⟩
    let run := (q.removeAll uuids).run.run (Database.handler.logged id) ([], d)
    q.bulk.validate = .ok () ∧ (∀ e ∈ run.state.1, e.LeavesNothing) ∧
      (uuids.length + q.bulk.maxBatchSize.toNat - 1) / q.bulk.maxBatchSize.toNat = 4294967296 ∧
      run.result = none := by
  intro u q uuids d run
  have hbulk : q.bulk.validate = .ok () := by decide
  have htable : d.get? q.table = some ⟨Row.uuidName, .empty⟩ :=
    (SortedMap.get?_single ..).trans (if_pos rfl)
  have hsize : q.bulk.maxBatchSize.toNat = 1 := rfl
  have hlength : uuids.length = 4294967296 := List.length_replicate
  have hchunks : (q.bulk.chunks uuids).length = 4294967296 := by
    rw [BulkSettings.chunks_eq_cut hbulk, hsize, BulkSettings.length_cut Nat.one_pos, hlength]
    rfl
  have hcalm := leavesNothing_of_run_database hbulk htable rfl uuids
  refine ⟨hbulk, hcalm, by rw [hsize, hlength], ?_⟩
  rcases run_removeAll_of_calm Database.parts_handler hbulk htable rfl uuids hcalm with
    ⟨o, -, -, hattempts, -⟩ | ⟨hresult, -⟩
  · rw [hchunks] at hattempts
    exact absurd o.attempts.toNat_lt (Nat.not_lt.mpr (Nat.le_of_eq hattempts.symm))
  · exact hresult

end Queue

end LoginRegistry
