import LoginRegistry.Proofs.Registry.Resending
import Mathlib.Algebra.Group.Nat.Defs

/-! # The counter of bulk requests

    Writes in bulk count their requests in 32 bits, and a drain adds the counts of its
    chunks in 32 bits.  A count that is too large for them is a panic, so whatever the store
    answers an outcome counts the requests that were made, and no more of them are made than
    the settings allow.  But with some settings a store that only leaves writes often enough
    makes a counter overflow, and which settings these are is told exactly
    (`ceiling_holds_iff`).
-/

namespace LoginRegistry

open Store (Request Writes)

/-- A store that never panics.  It leaves fewer than `2 ^ 32` writes of a request, so that only the
    requests can be too many to count: sizes have 64 bits. -/
structure Handler.Responds (h : Handler σ) : Prop where
  responds : ∀ request x, (h.respond request x).1 ≠ .panicked
  leaves : ∀ w x left, (h.respond (.bulkWrite w) x).1 = .ok left → left.compact.count < UInt32.size

namespace Script

/-- However its requests are answered, the script makes at most so many. -/
def MakesAtMost (s : Script α) (bound : Nat) : Prop :=
  ∀ {σ : Type} (h : Handler σ) (x : σ), (s.run h.recorded ([], x)).state.1.length ≤ bound

/-- However its requests are answered, an outcome of the script counts them. -/
def CountsRequests (s : Script (Except ε BulkOutcome)) : Prop :=
  ∀ {σ : Type} (h : Handler σ) (x : σ) {o : BulkOutcome},
    (s.run h.recorded ([], x)).result = some (.ok o) →
      o.attempts.toNat = (s.run h.recorded ([], x)).state.1.length

/-- The script does not panic by itself. -/
def NeverPanics (s : Script α) : Prop :=
  ∀ {σ : Type} (h : Handler σ) (x : σ), h.Responds → (s.run h x).result ≠ none

end Script

/-- A store that leaves the first write of as many bulk requests as its state says, then takes
    all of one request, and then starts again with a given number. -/
def Handler.holding (times : Nat) : Handler Nat where
  respond
    | .bulkWrite w, i =>
      if i = 0 then (.ok .empty, times) else (.ok (.ofFlat (w.flatten.take 1)), i - 1)
    | _, i => (.failed (.unavailable ""), i)

namespace BulkSettings

variable {s : BulkSettings}

/-! ### Any store -/

section counted

variable {h : Handler σ} {made : List Request}

/-- Writes in bulk have come to a result after `n` requests. -/
structure Counted (s : BulkSettings) (h : Handler σ) (n : Nat)
    (result : Option (Except Store.Error BulkOutcome)) : Prop where
  bound : n ≤ s.maxAttempts.toNat + 1
  counts : ∀ o, result = some (.ok o) → o.attempts.toNat = n
  leaves : h.Responds → ∀ o, result = some (.ok o) → o.unprocessed < UInt32.size
  panics : h.Responds → result = none → s.maxAttempts.toNat + 1 = UInt32.size

theorem steps_counted :
    s.Steps h.recorded.answers (fun n _ st => st.1.length = made.length + n)
      fun result st => ∃ n, st.1.length = made.length + n ∧ s.Counted h n result := by
  have hrequest : ∀ {n pending st answer st'}, st.1.length = made.length + n →
      h.recorded.answers (.bulkWrite pending) st answer st' →
      (h.respond (.bulkWrite pending) st.2).1 = answer ∧
        st'.1.length = made.length + (n + 1) := by
    intro n pending st answer st' hlength hst'
    obtain ⟨hanswer, rfl⟩ := Prod.mk.inj hst'
    exact ⟨hanswer, congrArg (· + 1) hlength⟩
  constructor
  · intro n pending st left st' hn hst hst' _ hsmall
    refine ⟨n + 1, (hrequest hst hst').2, Nat.succ_le_succ hn, ?_, ?_, nofun⟩
    · rintro _ ⟨⟩
      exact UInt32.toNat_ofNat_of_lt' hsmall
    · rintro - _ ⟨⟩
      exact UInt32.toNat_lt 0
  · intro n pending st left st' hn hst hst' _ hsmall
    obtain ⟨hanswer, hlength⟩ := hrequest hst hst'
    refine ⟨n + 1, hlength, Nat.succ_le_succ (Nat.le_of_eq hn), ?_, ?_, nofun⟩
    · rintro _ ⟨⟩
      exact UInt32.toNat_ofNat_of_lt' hsmall
    · rintro hresponds _ ⟨⟩
      exact hresponds.leaves _ _ _ hanswer
  · exact fun _ hst hst' _ => (hrequest hst hst').2
  · intro n pending st left st' hn hst hst' hsize
    exact ⟨n + 1, (hrequest hst hst').2, Nat.succ_le_succ (Nat.le_of_eq hn), nofun, nofun,
      fun _ _ => hn ▸ hsize⟩
  · exact fun hn hst hst' =>
      ⟨_, (hrequest hst hst').2, Nat.succ_le_succ hn, nofun, nofun, nofun⟩
  · intro n pending st st' hn hst hst'
    obtain ⟨hanswer, hlength⟩ := hrequest hst hst'
    exact ⟨n + 1, hlength, Nat.succ_le_succ hn, nofun, nofun,
      fun hresponds => absurd hanswer (hresponds.responds _ _)⟩

theorem within_complete_counted (s : BulkSettings) (w : Writes) (made : List Request) (x : σ) :
    (s.complete w).Within h.recorded.answers
      (fun result st => ∃ n, st.1.length = made.length + n ∧ s.Counted h n result) (made, x) := by
  refine within_complete_of_steps steps_counted (fun _ => ⟨0, rfl, Nat.zero_le _, ?_, ?_, nofun⟩)
    fun _ => rfl
  · rintro _ ⟨⟩
    rfl
  · rintro - _ ⟨⟩
    exact UInt32.toNat_lt 0

end counted

/-! ### A store that leaves something up to the last request -/

theorem responds_holding (times : Nat) : (Handler.holding times).Responds where
  responds request i := by
    cases request with
    | bulkWrite w =>
      simp only [Handler.holding]
      split <;> nofun
    | put r | update r | delete r | get r | scan r => nofun
  leaves w i left h := by
    simp only [Handler.holding] at h
    split at h
    · obtain rfl := Answer.ok.inj h
      exact by decide
    · obtain rfl := Answer.ok.inj h
      rw [Writes.count, Writes.flatten_compact, (Writes.perm_flatten_ofFlat _).length_eq]
      exact Nat.lt_of_le_of_lt (List.length_take_le ..) (by decide)

/-- Such a store takes what is pending, or it leaves something. -/
theorem holding_answers {times : Nat} {pending : Writes} {st st' : List Request × Nat}
    {answer : Answer Writes}
    (h : (Handler.holding times).recorded.answers (.bulkWrite pending) st answer st') :
    st'.1.length = st.1.length + 1 ∧
      (st.2 = 0 ∧ answer = .ok .empty ∧ st'.2 = times ∨ st.2 = st'.2 + 1 ∧
        ∃ left : Writes, answer = .ok left ∧ (pending.flatten ≠ [] → left.flatten ≠ [])) := by
  obtain ⟨made, i⟩ := st
  simp only [Handler.answers, Handler.recorded, Handler.holding] at h
  split at h
  · next hi =>
    obtain ⟨rfl, rfl⟩ := Prod.mk.inj h
    exact ⟨rfl, .inl ⟨hi, rfl, rfl⟩⟩
  · next hi =>
    obtain ⟨rfl, rfl⟩ := Prod.mk.inj h
    refine ⟨rfl, .inr ⟨(Nat.succ_pred_eq_of_ne_zero hi).symm, _, rfl, fun hpending hnone => ?_⟩⟩
    have hlength := (Writes.perm_flatten_ofFlat (pending.flatten.take 1)).length_eq
    have hpositive := List.length_pos_iff.mpr hpending
    rw [hnone, List.length_take, List.length_nil] at hlength
    omega

/-- A store that takes the writes with the last request that is allowed makes writes in bulk
    succeed then, unless this request cannot be counted. -/
theorem within_complete_holding (s : BulkSettings) {w : Writes} (hw : w.flatten ≠ [])
    (made : List Request) :
    (s.complete w).Within (Handler.holding s.maxAttempts.toNat).recorded.answers
      (fun result st => (result = none ∧ s.maxAttempts.toNat + 1 = UInt32.size ∨
          result = some (.ok ⟨UInt32.ofNat (s.maxAttempts.toNat + 1), 0⟩) ∧
            s.maxAttempts.toNat + 1 < UInt32.size) ∧
        st.1.length = made.length + (s.maxAttempts.toNat + 1) ∧ st.2 = s.maxAttempts.toNat)
      (made, s.maxAttempts.toNat) := by
  refine within_complete_of_steps (J := fun n pending st => st.1.length = made.length + n ∧
    n + st.2 = s.maxAttempts.toNat ∧ pending.flatten ≠ []) ?_ (fun hnone => absurd hnone hw)
    fun _ => ⟨rfl, Nat.zero_add _, by rwa [Writes.flatten_compact]⟩
  constructor
  · rintro n pending st left st' - ⟨hmade, hst, hpending⟩ h hleft hsmall
    obtain ⟨hlength, ⟨hzero, -, hstate⟩ | ⟨-, left, hanswer, hsome⟩⟩ := holding_answers h
    · obtain rfl : n = s.maxAttempts.toNat := by omega
      exact ⟨.inr ⟨rfl, hsmall⟩, by omega, hstate⟩
    · obtain rfl := Answer.ok.inj hanswer
      exact absurd (Writes.isEmpty_compact.mp hleft) (hsome hpending)
  · -- There is no request left, so all is taken.
    rintro n pending st left st' hn ⟨-, hst, -⟩ h hleft -
    obtain ⟨-, ⟨-, hanswer, -⟩ | ⟨hmore, -⟩⟩ := holding_answers h
    · rw [Answer.ok.inj hanswer] at hleft
      cases hleft
    · omega
  · rintro n pending st left st' hn ⟨hmade, hst, hpending⟩ h -
    obtain ⟨hlength, ⟨hzero, -, -⟩ | ⟨hmore, left, hanswer, hsome⟩⟩ := holding_answers h
    · omega
    · obtain rfl := Answer.ok.inj hanswer
      refine ⟨by omega, by omega, ?_⟩
      rw [Writes.flatten_compact]
      exact hsome hpending
  · rintro n pending st left st' rfl ⟨hmade, hst, -⟩ h hsize
    obtain ⟨hlength, ⟨-, -, hstate⟩ | ⟨hmore, -⟩⟩ := holding_answers h
    · exact ⟨.inl ⟨rfl, hsize⟩, by omega, hstate⟩
    · omega
  · rintro n pending st e st' - - h
    obtain ⟨-, ⟨-, hanswer, -⟩ | ⟨-, left, hanswer, -⟩⟩ := holding_answers h <;> cases hanswer
  · rintro n pending st st' - - h
    obtain ⟨-, ⟨-, hanswer, -⟩ | ⟨-, left, hanswer, -⟩⟩ := holding_answers h <;> cases hanswer

theorem run_complete_holding (s : BulkSettings) {w : Writes} (hw : w.flatten ≠ []) {times : Nat}
    (htimes : s.maxAttempts.toNat = times) (hmax : times + 1 = UInt32.size) :
    let run := (s.complete w).run (Handler.holding times).recorded ([], times)
    run.result = none ∧ run.state.1.length = times + 1 := by
  subst htimes
  intro run
  obtain ⟨⟨hresult, -⟩ | ⟨-, hsmall⟩, hlength, -⟩ :=
    Script.within_answers_iff.mp (s.within_complete_holding hw [])
  · exact ⟨hresult, hlength.trans (Nat.zero_add _)⟩
  · omega

/-! ### Writes in bulk -/

theorem makesAtMost (s : BulkSettings) (w : Writes) :
    (s.complete w).MakesAtMost (s.maxAttempts.toNat + 1) := by
  intro σ h x
  obtain ⟨n, hlength, hcounted⟩ :=
    Script.within_answers_iff.mp (s.within_complete_counted w [] x (h := h))
  rw [hlength, List.length_nil, Nat.zero_add]
  exact hcounted.bound

theorem countsRequests (s : BulkSettings) (w : Writes) : (s.complete w).CountsRequests := by
  intro σ h x o ho
  obtain ⟨n, hlength, hcounted⟩ :=
    Script.within_answers_iff.mp (s.within_complete_counted w [] x (h := h))
  rw [hlength, List.length_nil, Nat.zero_add]
  exact hcounted.counts o ho

/-- Only the largest maximum lets the counter of requests overflow. -/
theorem neverPanics_iff (s : BulkSettings) (w : Writes) :
    (s.complete w).NeverPanics ↔ w.flatten = [] ∨ s.maxAttempts.toNat + 1 < 2 ^ 32 := by
  constructor
  · intro hnever
    by_contra hnot
    obtain ⟨hw, hlarge⟩ := not_or.mp hnot
    have hmax := Nat.le_antisymm s.maxAttempts.toNat_lt (Nat.le_of_not_lt hlarge)
    have hresult := (s.run_complete_holding hw rfl hmax).1
    rw [Script.result_run_recorded] at hresult
    exact hnever _ _ (responds_holding _) hresult
  · rintro hsmall σ h x hresponds hresult
    rw [← Script.result_run_recorded h _ []] at hresult
    rcases hsmall with hnone | hmax
    · simp only [complete, Writes.isEmpty_compact.mpr hnone, if_true] at hresult
      cases hresult
    · obtain ⟨n, -, hcounted⟩ :=
        Script.within_answers_iff.mp (s.within_complete_counted w [] x (h := h))
      exact absurd (hcounted.panics hresponds hresult) (Nat.ne_of_lt hmax)

end BulkSettings

/-! ### Drains -/

namespace Queue

variable (q : Queue)

/-- A drain counts its requests. -/
theorem countsRequests (uuids : List Uuid) : (q.removeAll uuids).run.CountsRequests := by
  intro σ h x o ho
  have hwithin : Action.Within h.recorded.answers (q.removeAll uuids) ([], x)
      (fun (total : BulkOutcome) st => total.attempts.toNat = st.1.length) fun _ _ => True := by
    let J (_ : List (List Uuid)) (total : BulkOutcome) (st : List Request × σ) : Prop :=
      total.attempts.toNat = st.1.length
    refine within_removeAll_of_chunks (J := J) ?_ rfl
    rintro chunk chunks total ⟨made, x⟩ htotal
    refine Script.Within.mono (q.bulk.within_complete_counted _ made x) ?_
    rintro result ⟨made', x'⟩ ⟨n, hlength, hcounted⟩
    match result with
    | some (.ok outcome) =>
      dsimp only
      cases hsum : total.merge? outcome with
      | none => exact trivial
      | some sum =>
        exact (BulkOutcome.counts_of_merge? hsum).1.trans
          ((congrArg₂ (· + ·) htotal (hcounted.counts outcome rfl)).trans hlength.symm)
    | some (.error e) => exact trivial
    | none => exact trivial
  have hrun := Script.within_answers_iff.mp hwithin
  rw [ho] at hrun
  exact hrun

/-- Where the requests of all chunks can be counted, no sum of outcomes overflows. -/
theorem neverPanics_removeAll {uuids : List Uuid}
    (hsmall : (q.bulk.chunks uuids).length * (q.bulk.maxAttempts.toNat + 1) < UInt32.size) :
    (q.removeAll uuids).run.NeverPanics := by
  intro σ h x hresponds
  rw [← Script.result_run_recorded h _ []]
  have hchunks : (q.bulk.chunks uuids).length
      ≤ (q.bulk.chunks uuids).length * (q.bulk.maxAttempts.toNat + 1) :=
    Nat.le_mul_of_pos_right _ (Nat.succ_pos _)
  have hwithin : Action.Within h.recorded.answers (q.removeAll uuids) ([], x)
      (fun _ _ => True) fun e _ => e ≠ none := by
    refine Action.Within.mono (within_removeAll_of_chunks
      (J := fun chunks total _ => ∃ done, done + chunks.length = (q.bulk.chunks uuids).length ∧
        total.attempts.toNat ≤ done * (q.bulk.maxAttempts.toNat + 1) ∧
        total.unprocessed ≤ done * UInt32.size) ?_ ?_) (fun _ _ _ => trivial) fun _ _ => id
    · rintro chunk chunks total ⟨made, x⟩ ⟨done, hdone, hattempts, hunprocessed⟩
      rw [List.length_cons] at hdone
      have hall := Nat.mul_le_mul_right (q.bulk.maxAttempts.toNat + 1)
        (show done + 1 ≤ (q.bulk.chunks uuids).length by omega)
      rw [Nat.succ_mul] at hall
      refine Script.Within.mono (q.bulk.within_complete_counted _ made x) ?_
      rintro result ⟨made', x'⟩ ⟨n, -, hcounted⟩
      match result with
      | some (.ok outcome) =>
        have hcount := hcounted.counts outcome rfl
        have hleaves := hcounted.leaves hresponds outcome rfl
        have hbound := hcounted.bound
        unfold UInt32.size at hsmall hleaves hunprocessed
        obtain ⟨sum, hsum⟩ := BulkOutcome.exists_merge? (o := total) (p := outcome)
          (by unfold UInt32.size; omega) (by unfold UInt64.size; omega)
        obtain ⟨hattempts', hunprocessed'⟩ := BulkOutcome.counts_of_merge? hsum
        simp only [hsum, Option.elim_some]
        refine ⟨done + 1, by omega, ?_, ?_⟩
        · rw [Nat.succ_mul]
          omega
        · rw [Nat.succ_mul]
          unfold UInt32.size
          omega
      | some (.error e) => nofun
      | none =>
        -- There is a chunk, so the requests for it alone can be counted.
        have hmax := hcounted.panics hresponds rfl
        have hone := Nat.le_mul_of_pos_left (q.bulk.maxAttempts.toNat + 1)
          (show 0 < (q.bulk.chunks uuids).length by omega)
        omega
    · exact ⟨0, Nat.zero_add _, Nat.zero_le _, Nat.zero_le _⟩
  have hrun := Script.within_answers_iff.mp hwithin
  intro hnone
  rw [hnone] at hrun
  exact hrun rfl

/-- If each chunk of a drain makes all requests that are allowed, the drain panics as soon as
    they cannot be counted any more. -/
theorem within_removeAll_holding (uuids : List Uuid) :
    Action.Within (Handler.holding q.bulk.maxAttempts.toNat).recorded.answers (q.removeAll uuids)
      ([], q.bulk.maxAttempts.toNat)
      (fun _ _ => (q.bulk.chunks uuids).length * (q.bulk.maxAttempts.toNat + 1) < UInt32.size)
      fun e st => e = none ∧ ∃ done, done ≤ (q.bulk.chunks uuids).length ∧
        UInt32.size ≤ done * (q.bulk.maxAttempts.toNat + 1) ∧
        st.1.length = done * (q.bulk.maxAttempts.toNat + 1) := by
  refine Action.Within.mono (within_removeAll_of_chunks
    (J := fun chunks total st => (∀ chunk ∈ chunks, 1 ≤ chunk.length) ∧
      st.2 = q.bulk.maxAttempts.toNat ∧ total.unprocessed = 0 ∧
      ∃ done, done + chunks.length = (q.bulk.chunks uuids).length ∧
        total.attempts.toNat = done * (q.bulk.maxAttempts.toNat + 1) ∧
        st.1.length = done * (q.bulk.maxAttempts.toNat + 1)) ?_ ?_) ?_ fun _ _ => id
  · rintro chunk chunks total ⟨made, x⟩ ⟨hchunks, rfl, htotal, done, hdone, hattempts, hlength⟩
    obtain ⟨hchunk, hrest⟩ := List.forall_mem_cons.mp hchunks
    have hwrites : (q.removal chunk).flatten ≠ [] := by
      rw [flatten_removal, ← List.length_pos_iff, List.length_map]
      exact hchunk
    refine Script.Within.mono (q.bulk.within_complete_holding hwrites made) ?_
    rw [List.length_cons] at hdone
    rintro result ⟨made', x'⟩ ⟨hresult, hlength', rfl⟩
    dsimp only at hlength hlength' hresult ⊢
    have hmore : made'.length = (done + 1) * (q.bulk.maxAttempts.toNat + 1) := by
      rw [Nat.succ_mul, ← hlength]
      exact hlength'
    rcases hresult with ⟨rfl, hsize⟩ | ⟨rfl, hsmall⟩
    · refine ⟨rfl, done + 1, by omega, ?_, hmore⟩
      rw [Nat.succ_mul, hsize]
      exact Nat.le_add_left ..
    · dsimp only
      cases hsum : total.merge? ⟨UInt32.ofNat (q.bulk.maxAttempts.toNat + 1), 0⟩ with
      | some sum =>
        obtain ⟨hattempts', hunprocessed'⟩ := BulkOutcome.counts_of_merge? hsum
        rw [UInt32.toNat_ofNat_of_lt' hsmall, hattempts] at hattempts'
        refine ⟨hrest, rfl, hunprocessed'.trans htotal, done + 1, by omega, ?_, hmore⟩
        rw [hattempts', Nat.succ_mul]
      | none =>
        refine ⟨rfl, done + 1, by omega, ?_, hmore⟩
        -- No write is left, so it is the requests that cannot be added.
        rcases BulkOutcome.large_of_merge? hsum with hattempts' | hunprocessed'
        · rwa [UInt32.toNat_ofNat_of_lt' hsmall, hattempts, ← Nat.succ_mul] at hattempts'
        · rw [htotal] at hunprocessed'
          exact absurd hunprocessed' (Nat.not_le.mpr (UInt64.toNat_lt 0))
  · exact ⟨fun chunk hchunk => (BulkSettings.length_of_mem_cut
      (Nat.zero_lt_of_lt (Nat.le_max_right ..)) hchunk).1, rfl, rfl, 0, Nat.zero_add _,
      (Nat.zero_mul _).symm, (Nat.zero_mul _).symm⟩
  · rintro outcome st ⟨-, -, -, done, hdone, hattempts, -⟩
    rw [List.length_nil, Nat.add_zero] at hdone
    rw [← hdone, ← hattempts]
    exact outcome.attempts.toNat_lt

theorem run_removeAll_holding {uuids : List Uuid} {times : Nat}
    (htimes : q.bulk.maxAttempts.toNat = times)
    (hlarge : UInt32.size ≤ (q.bulk.chunks uuids).length * (times + 1)) :
    let run := (q.removeAll uuids).run.run (Handler.holding times).recorded ([], times)
    run.result = none ∧ ∃ done, done ≤ (q.bulk.chunks uuids).length ∧
      UInt32.size ≤ done * (times + 1) ∧ run.state.1.length = done * (times + 1) := by
  subst htimes
  intro run
  have hrun := Script.within_answers_iff.mp (q.within_removeAll_holding uuids)
  split at hrun
  · exact absurd hrun (Nat.not_lt.mpr hlarge)
  · cases hrun.1
  · next hresult => exact ⟨hresult, hrun.2⟩

/-- A drain can add up its outcomes exactly if all the requests that its settings allow can be
    counted. -/
theorem neverPanics_removeAll_iff (uuids : List Uuid) :
    (q.removeAll uuids).run.NeverPanics ↔
      (q.bulk.chunks uuids).length * (q.bulk.maxAttempts.toNat + 1) < 2 ^ 32 := by
  refine ⟨fun hnever => ?_, q.neverPanics_removeAll⟩
  by_contra hlarge
  have hresult := (q.run_removeAll_holding rfl (Nat.le_of_not_lt hlarge)).1
  rw [Script.result_run_recorded] at hresult
  exact hnever _ _ (BulkSettings.responds_holding _) hresult

/-- The ceiling on requests holds, and they are counted.  Take any settings and any store.

    * Writes in bulk make at most one request more than the maximum.
    * Their outcome counts the requests, and so does that of a drain.
    * The counter does not overflow, which is a panic, if and only if there is nothing to write
      or the maximum is not the largest number of 32 bits.
    * The sum over the chunks of a drain does not overflow if and only if the requests that
      all chunks together may make are less than `2 ^ 32`. -/
theorem ceiling_holds_iff (q : Queue) :
    (∀ w, (q.bulk.complete w).MakesAtMost (q.bulk.maxAttempts.toNat + 1)) ∧
    (∀ w, (q.bulk.complete w).CountsRequests) ∧
    (∀ uuids, (q.removeAll uuids).run.CountsRequests) ∧
    (∀ w, (q.bulk.complete w).NeverPanics ↔
      w.flatten = [] ∨ q.bulk.maxAttempts.toNat + 1 < 2 ^ 32) ∧
    ∀ uuids, (q.removeAll uuids).run.NeverPanics ↔
      (q.bulk.chunks uuids).length * (q.bulk.maxAttempts.toNat + 1) < 2 ^ 32 :=
  ⟨q.bulk.makesAtMost, q.bulk.countsRequests, q.countsRequests, q.bulk.neverPanics_iff,
    q.neverPanics_removeAll_iff⟩

/-- With the largest maximum writes in bulk panic after `2 ^ 32` requests, and with the next
    smaller one a drain of two chunks does after `2 ^ 33 - 2` requests, when the sum of the two
    outcomes is formed.  The store does not panic. -/
theorem ceiling_overflows :
    let u : Uuid := ⟨.replicate 16 1, rfl⟩
    let v : Uuid := ⟨.replicate 16 2, rfl⟩
    let largest : BulkSettings := ⟨4294967295, 25⟩
    let q : Queue := ⟨"migration_deleted_accounts", ⟨4294967294, 1⟩⟩
    let write := (largest.complete (q.removal [u])).run (Handler.holding 4294967295).recorded
      ([], 4294967295)
    let drain := (q.removeAll [u, v]).run.run (Handler.holding 4294967294).recorded ([], 4294967294)
    largest.validate = .ok () ∧ write.result = none ∧ write.state.1.length = 4294967296 ∧
      q.bulk.validate = .ok () ∧ drain.result = none ∧ drain.state.1.length = 8589934590 ∧
      (⟨4294967295, 1⟩ : BulkOutcome).merge? ⟨4294967295, 1⟩ = none := by
  intro u v largest q write drain
  have hwrites : (q.removal [u]).flatten ≠ [] := by
    rw [flatten_removal]
    exact List.cons_ne_nil _ _
  have hchunks : (q.bulk.chunks [u, v]).length = 2 := by decide
  have hmax : q.bulk.maxAttempts.toNat = 4294967294 := by decide
  have htimes : largest.maxAttempts.toNat = 4294967295 := by decide
  obtain ⟨hwrite, hmade⟩ := largest.run_complete_holding hwrites htimes (by decide)
  have hcount : UInt32.size ≤ (q.bulk.chunks [u, v]).length * (4294967294 + 1) := by
    rw [hchunks]
    decide
  obtain ⟨hdrain, done, hdone, hlarge, hlength⟩ := q.run_removeAll_holding hmax hcount
  -- One chunk is not enough.
  obtain rfl : done = 2 := by
    unfold UInt32.size at hlarge
    omega
  exact ⟨by decide, hwrite, hmade, by decide, hdrain, hlength, by decide⟩

end Queue

end LoginRegistry
