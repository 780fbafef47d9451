import LoginRegistry.Proofs.Registry.Resending
import LoginRegistry.Proofs.Store.Parting
import LoginRegistry.Testbed.Basic
import Mathlib.Algebra.Group.Nat.Defs

/-! # Bulk writes are conserved

    Over any store that parts bulk requests no write is lost, and none is applied twice: each
    is applied by one of the requests or counted as unprocessed in the end
    (`complete_conserves`).
-/

namespace LoginRegistry

open Store (Database Writes)

namespace BulkSettings

variable {s : BulkSettings}

/-- What a store that parts bulk requests makes of writes in bulk: `left` is what the last of
    the rounds has left. -/
structure Conserves (s : BulkSettings) (p : PartingStore σ) (x : σ) (w : Writes)
    (o : BulkOutcome) (left : Writes) (rounds : List Round) (y : σ) : Prop where
  serves : p.Serves x w rounds y left
  attempts : o.attempts = UInt32.ofNat rounds.length
  bound : rounds.length ≤ s.maxAttempts.toNat + 1
  unprocessed : o.unprocessed = left.count
  ceiling : 0 < o.unprocessed → rounds.length = s.maxAttempts.toNat + 1

theorem steps_ledger (hmax : s.maxAttempts.toNat + 1 < UInt32.size) (p : PartingStore σ) (x : σ)
    (w : Writes) :
    s.Steps p.ledger.answers
      (fun n pending st => st.1.length = n ∧ p.Serves x w st.1 st.2 pending ∧
        p.Accepts st.2 pending)
      (fun result st => ∃ o left, result = some (.ok o) ∧
        s.Conserves p x w o left st.1 st.2) := by
  -- A request of what is pending is one more round.
  have hround : ∀ {n pending st answer st'}, st.1.length = n ∧ p.Serves x w st.1 st.2 pending ∧
      p.Accepts st.2 pending → p.ledger.answers (.bulkWrite pending) st answer st' →
      answer = .ok (p.left st.2 pending) ∧ st'.1.length = n + 1 ∧
        p.Serves x w st'.1 st'.2 (p.left st.2 pending).compact ∧
        ((p.left st.2 pending).flatten ≠ [] →
          p.Accepts st'.2 (p.left st.2 pending).compact) := by
    rintro n pending ⟨rounds, y⟩ answer st' ⟨hlength, hserves, haccepts⟩ h
    obtain ⟨hanswer, rfl⟩ := Prod.mk.inj h
    refine ⟨hanswer.symm.trans (p.answer haccepts), ?_, hserves.round haccepts, p.again haccepts⟩
    rw [List.length_append, hlength]
    rfl
  constructor
  · intro n pending st left st' hn hst h hleft _
    obtain ⟨hanswer, hlength, hserves, -⟩ := hround hst h
    obtain rfl := Answer.ok.inj hanswer
    have hcount : (p.left st.2 pending).compact.count = 0 := by
      rw [Writes.count, Writes.flatten_compact, Writes.isEmpty_compact.mp hleft]
      rfl
    refine ⟨_, _, rfl, hserves, congrArg UInt32.ofNat hlength.symm, ?_, hcount.symm, nofun⟩
    omega
  · intro n pending st left st' hn hst h _ _
    obtain ⟨hanswer, hlength, hserves, -⟩ := hround hst h
    obtain rfl := Answer.ok.inj hanswer
    refine ⟨_, _, rfl, hserves, congrArg UInt32.ofNat hlength.symm, ?_, rfl, fun _ => ?_⟩
    · omega
    · omega
  · intro n pending st left st' _ hst h hleft
    obtain ⟨hanswer, hlength, hserves, hagain⟩ := hround hst h
    obtain rfl := Answer.ok.inj hanswer
    exact ⟨hlength, hserves, hagain (Writes.flatten_ne_nil_of_isEmpty_compact hleft)⟩
  · intro n pending st left st' hn _ _ hsize
    omega
  · intro n pending st e st' _ hst h
    cases (hround hst h).1
  · intro n pending st st' _ hst h
    cases (hround hst h).1

/-- Writes in bulk over a store that parts bulk requests, below the largest maximum.  They
    succeed.

    * The outcome counts the requests, which are at most one more than the maximum.
    * The first request sends all writes, and each other one what the one before it left.
    * Each write is either applied once or counted as unprocessed, and the tables are those
      after the writes that were applied.
    * Writes are left unprocessed only after the last request that is allowed.
    * If each request applies the first of its writes in order, all of them together do, and
      the last writes are left.
    * Without writes there is no request. -/
theorem complete_conserves (p : PartingStore σ) (hmax : s.maxAttempts.toNat < 2 ^ 32 - 1) {x : σ}
    {w : Writes} (haccepts : w.flatten ≠ [] → p.Accepts x w.compact) :
    let run := (s.complete w).run p.ledger ([], x)
    let rounds := run.state.1
    let applied := rounds.flatMap Round.applied
    ∃ o left, run.result = some (.ok o) ∧
      o.attempts.toNat = rounds.length ∧ rounds.length ≤ s.maxAttempts.toNat + 1 ∧
      rounds.map Round.sent ++ [left] = w.compact :: rounds.map (fun round => round.left.compact) ∧
      (applied ++ left.flatten).Perm w.flatten ∧ o.unprocessed = left.count ∧
      p.tables run.state.2 = applied.foldl Database.applyWrite (p.tables x) ∧
      (0 < o.unprocessed → o.attempts.toNat = s.maxAttempts.toNat + 1) ∧
      ((∀ round ∈ rounds, round.applied ++ round.left.flatten = round.sent.flatten) →
        p.tables run.state.2 =
          (w.flatten.take (w.count - o.unprocessed)).foldl Database.applyWrite (p.tables x)) ∧
      (w.flatten = [] → rounds = []) := by
  intro run rounds applied
  have hbound : s.maxAttempts.toNat + 1 < UInt32.size := Nat.add_lt_of_lt_sub hmax
  have hrun : (s.complete w).Within p.ledger.answers (fun result st => ∃ o left,
      result = some (.ok o) ∧ s.Conserves p x w.compact o left st.1 st.2) ([], x) := by
    refine within_complete_of_steps (steps_ledger hbound p x w.compact) (fun hnone => ?_)
      fun hsome => ?_
    · have hcount : w.compact.count = 0 := by
        rw [Writes.count, Writes.flatten_compact, hnone]
        rfl
      exact ⟨_, _, rfl, .start, rfl, Nat.zero_le _, hcount.symm, nofun⟩
    · exact ⟨rfl, .start, haccepts hsome⟩
  obtain ⟨o, left, hresult, hconserves⟩ := Script.within_answers_iff.mp hrun
  have hserves := hconserves.serves
  have hperm := hserves.perm
  have htables := hserves.tables_eq
  rw [Writes.flatten_compact] at hperm
  have hattempts : o.attempts.toNat = rounds.length := by
    rw [hconserves.attempts]
    exact UInt32.toNat_ofNat_of_lt' (Nat.lt_of_le_of_lt hconserves.bound hbound)
  refine ⟨o, left, hresult, hattempts, hconserves.bound, hserves.sent, hperm,
    hconserves.unprocessed, htables, ?_, ?_, ?_⟩
  · exact fun hleft => hattempts.trans (hconserves.ceiling hleft)
  · intro hrounds
    have hfirst := hserves.applied_append hrounds
    rw [Writes.flatten_compact] at hfirst
    rw [htables, hconserves.unprocessed, Writes.count, Writes.count, ← hfirst, List.length_append,
      Nat.add_sub_cancel, List.take_left]
  · intro hnone
    unfold rounds run
    simp only [complete, Writes.isEmpty_compact.mpr hnone, if_true]
    rfl

/-- Two tables get writes and a third one none.  The first request leaves the last two writes,
    and the second request, the last one that is allowed, leaves the last one. -/
theorem complete_conserves_held :
    let u : Uuid := ⟨.replicate 16 1, rfl⟩
    let s : BulkSettings := ⟨1, 25⟩
    let w : Writes := SortedMap.ofList [
      ("accounts", [.put (Row.uuidKey u), .delete (Row.uuidKey u)]), ("misc", []),
      ("migration_deleted_accounts", [.put (Row.uuidKey u)])]
    let p := Schedule.parting
    let x : Schedule × Database :=
      ([some (.holdBack [false, true, true]), some (.holdBack [false, true])],
        (Testbed.ofTables ({} : Config).tables).database)
    let run := (s.complete w).run p.ledger ([], x)
    let rounds := run.state.1
    let applied := rounds.flatMap Round.applied
    s.maxAttempts.toNat < 2 ^ 32 - 1 ∧ (w.flatten ≠ [] → p.Accepts x w.compact) ∧
    (∀ round ∈ rounds, round.applied ++ round.left.flatten = round.sent.flatten) ∧
    rounds.length = 2 ∧
    ∃ o left, run.result = some (.ok o) ∧
      o.attempts.toNat = rounds.length ∧ rounds.length ≤ s.maxAttempts.toNat + 1 ∧
      rounds.map Round.sent ++ [left] = w.compact :: rounds.map (fun round => round.left.compact) ∧
      (applied ++ left.flatten).Perm w.flatten ∧ o.unprocessed = left.count ∧
      p.tables run.state.2 = applied.foldl Database.applyWrite (p.tables x) ∧
      (0 < o.unprocessed → o.attempts.toNat = s.maxAttempts.toNat + 1) ∧
      ((∀ round ∈ rounds, round.applied ++ round.left.flatten = round.sent.flatten) →
        p.tables run.state.2 =
          (w.flatten.take (w.count - o.unprocessed)).foldl Database.applyWrite (p.tables x)) ∧
      (w.flatten = [] → rounds = []) := by
  intro u s w p x run rounds applied
  have hmax : s.maxAttempts.toNat < 2 ^ 32 - 1 := by decide
  have haccepts : p.Accepts x w.compact := by
    refine ⟨Writes.full_compact w, ?_, ?_, ?_⟩
    · unfold w u
      decide +kernel
    · unfold w u
      decide +kernel
    · unfold x w u
      decide +kernel
  have hrounds : (∀ round ∈ rounds, round.applied ++ round.left.flatten = round.sent.flatten) ∧
      rounds.length = 2 := by
    unfold rounds run x p w s u
    decide +kernel
  exact ⟨hmax, fun _ => haccepts, hrounds.1, hrounds.2, complete_conserves p hmax fun _ => haccepts⟩

end BulkSettings

end LoginRegistry
