import LoginRegistry.Proofs.Config.Validating
import LoginRegistry.Proofs.Script.Within
import LoginRegistry.Proofs.Store.Writes
import LoginRegistry.Registry.Queue

/-! # Requests in bulk, one after the other

    What a bulk request leaves is sent again until nothing is left or the counter of requests
    is above its maximum, and a queue removes its entries chunk by chunk.  There is one rule
    for each of the two loops.

    * `within_complete_of_steps`: writes in bulk.  At most one request more is made than the
      maximum, and only the largest maximum lets the counter overflow.
    * `within_removeAll_of_chunks`: the removal of entries, with the sum of their outcomes.
-/

namespace LoginRegistry

open Store (Write Writes)

namespace BulkSettings

/-! ### Sending again -/

/-- What requests in bulk do, one after the other: `J n pending st` holds in the state `st`
    when `n` requests were made, which never are more than the maximum, and `pending` is to be
    sent next, and `post` holds in the end. -/
structure Steps (s : BulkSettings) (b : Behaviour σ) (J : Nat → Writes → σ → Prop)
    (post : Option (Except Store.Error BulkOutcome) → σ → Prop) : Prop where
  /-- Nothing is left. -/
  finished : ∀ {n pending st left st'}, n ≤ s.maxAttempts.toNat → J n pending st →
    b (.bulkWrite pending) st (.ok left) st' → left.compact.isEmpty = true →
    n + 1 < UInt32.size → post (some (.ok ⟨UInt32.ofNat (n + 1), 0⟩)) st'
  /-- Something is left of the last request that is allowed. -/
  stopped : ∀ {n pending st left st'}, n = s.maxAttempts.toNat → J n pending st →
    b (.bulkWrite pending) st (.ok left) st' → left.compact.isEmpty = false →
    n + 1 < UInt32.size → post (some (.ok ⟨UInt32.ofNat (n + 1), left.compact.count⟩)) st'
  /-- Something is left and is sent again. -/
  again : ∀ {n pending st left st'}, n < s.maxAttempts.toNat → J n pending st →
    b (.bulkWrite pending) st (.ok left) st' → left.compact.isEmpty = false →
    J (n + 1) left.compact st'
  /-- The counter overflows. -/
  overflows : ∀ {n pending st left st'}, n = s.maxAttempts.toNat → J n pending st →
    b (.bulkWrite pending) st (.ok left) st' → n + 1 = UInt32.size → post none st'
  /-- The request fails. -/
  failed : ∀ {n pending st e st'}, n ≤ s.maxAttempts.toNat → J n pending st →
    b (.bulkWrite pending) st (.failed e) st' → post (some (.error e)) st'
  /-- The request panics. -/
  panicked : ∀ {n pending st st'}, n ≤ s.maxAttempts.toNat → J n pending st →
    b (.bulkWrite pending) st .panicked st' → post none st'

variable {s : BulkSettings} {b : Behaviour σ} {J : Nat → Writes → σ → Prop}
  {post : Option (Except Store.Error BulkOutcome) → σ → Prop}

theorem within_resend_of_steps (hsteps : s.Steps b J post) {room n : Nat} {pending : Writes}
    {st : σ} (hroom : n + room = counterRoom) (hn : n ≤ s.maxAttempts.toNat)
    (hst : J n pending st) : (s.resend room (UInt32.ofNat n) pending).Within b post st := by
  have hlargest : counterRoom + 1 = UInt32.size := rfl
  have hmax : s.maxAttempts.toNat < UInt32.size := s.maxAttempts.toNat_lt
  induction room generalizing n pending st with
  | zero =>
    unfold resend
    refine Script.within_bind (Script.within_bind (Script.within_send fun answer st' hst' => ?_))
    match answer with
    | .failed e => exact hsteps.failed hn hst hst'
    | .panicked => exact hsteps.panicked hn hst hst'
    | .ok left => exact hsteps.overflows (by omega) hst hst' (by omega)
  | succ room ih =>
    unfold resend
    refine Script.within_bind (Script.within_bind (Script.within_send fun answer st' hst' => ?_))
    match answer with
    | .failed e => exact hsteps.failed hn hst hst'
    | .panicked => exact hsteps.panicked hn hst hst'
    | .ok left =>
      have hsucc : UInt32.ofNat n + 1 = UInt32.ofNat (n + 1) := (UInt32.ofNat_add n 1).symm
      have hsmall : n + 1 < UInt32.size := by omega
      have habove : s.maxAttempts < UInt32.ofNat (n + 1) ↔ s.maxAttempts.toNat < n + 1 := by
        rw [UInt32.lt_iff_toNat_lt, UInt32.toNat_ofNat_of_lt' hsmall]
      simp only [Answer.result, hsucc, habove]
      split
      · next hleft => exact hsteps.finished hn hst hst' hleft hsmall
      · next hleft =>
        have hleft := Bool.eq_false_iff.mpr hleft
        split
        · exact hsteps.stopped (by omega) hst hst' hleft hsmall
        · exact ih (by omega) (by omega) (hsteps.again (by omega) hst hst' hleft)

/-- The rule of writes in bulk. -/
theorem within_complete_of_steps (hsteps : s.Steps b J post) {w : Writes} {st : σ}
    (hnone : w.flatten = [] → post (some (.ok {})) st)
    (hsome : w.flatten ≠ [] → J 0 w.compact st) :
    (s.complete w).Within b post st := by
  unfold complete
  dsimp only
  split
  · next hempty => exact hnone (Writes.isEmpty_compact.mp hempty)
  · next hnonempty =>
    exact within_resend_of_steps hsteps (Nat.zero_add _) (Nat.zero_le _)
      (hsome (mt Writes.isEmpty_compact.mpr hnonempty))

/-! ### Chunks -/

/-- The chunks of a list are the list, after the chunk begun. -/
theorem flatten_cut (size : Nat) (chunk l : List α) :
    (cut size chunk l).flatten = chunk.reverse ++ l := by
  induction l generalizing chunk with
  | nil =>
    cases chunk with
    | nil => rfl
    | cons a chunk => simp only [cut, List.isEmpty_cons, Bool.false_eq_true, if_false,
        List.flatten_cons, List.flatten_nil]
  | cons a l ih =>
    rw [cut]
    split
    · rw [List.flatten_cons, ih, List.reverse_nil, List.nil_append, List.reverse_cons,
        List.append_assoc, List.singleton_append]
    · rw [ih, List.reverse_cons, List.append_assoc, List.singleton_append]

/-- No chunk is empty or too long. -/
theorem length_of_mem_cut {size : Nat} {chunk l c : List α} (hchunk : chunk.length < size)
    (hc : c ∈ cut size chunk l) : 1 ≤ c.length ∧ c.length ≤ size := by
  induction l generalizing chunk with
  | nil =>
    cases chunk with
    | nil => cases hc
    | cons a chunk =>
      obtain rfl := List.mem_singleton.mp hc
      rw [List.length_reverse, List.length_cons]
      rw [List.length_cons] at hchunk
      exact ⟨Nat.le_add_left .., Nat.le_of_lt hchunk⟩
  | cons a l ih =>
    rw [cut] at hc
    split at hc
    · next hfull =>
      rcases List.mem_cons.mp hc with rfl | hc
      · rw [List.length_reverse, List.length_cons, hfull]
        exact ⟨Nat.zero_lt_of_lt hchunk, Nat.le_refl _⟩
      · exact ih (by rw [List.length_nil]; exact Nat.zero_lt_of_lt hchunk) hc
    · next hfull => exact ih (by rw [List.length_cons]; omega) hc

/-- Only the last chunk can be short. -/
theorem length_of_mem_dropLast_cut {size : Nat} {chunk l c : List α}
    (hc : c ∈ (cut size chunk l).dropLast) : c.length = size := by
  induction l generalizing chunk with
  | nil =>
    cases chunk with
    | nil => cases hc
    | cons a chunk => cases hc
  | cons a l ih =>
    rw [cut] at hc
    split at hc
    · next hfull =>
      cases hrest : cut size [] l with
      | nil =>
        rw [hrest] at hc
        cases hc
      | cons next rest =>
        rw [hrest, List.dropLast_cons_cons, ← hrest] at hc
        rcases List.mem_cons.mp hc with rfl | hc
        · rw [List.length_reverse, List.length_cons, hfull]
        · exact ih hc
    · exact ih hc

/-- There are as many chunks as it takes. -/
theorem length_cut {size : Nat} {chunk l : List α} (hchunk : chunk.length < size) :
    (cut size chunk l).length = (chunk.length + l.length + size - 1) / size := by
  induction l generalizing chunk with
  | nil =>
    rw [List.length_nil, Nat.add_zero]
    cases chunk with
    | nil => exact (Nat.div_eq_of_lt (by rw [List.length_nil]; omega)).symm
    | cons a chunk =>
      have hone : (cut size (a :: chunk) []).length = 1 := rfl
      rw [hone]
      refine (Nat.div_eq_of_lt_le ?_ ?_).symm
      · rw [List.length_cons]
        omega
      · omega
  | cons a l ih =>
    rw [cut]
    split
    · next hfull =>
      have hsum : chunk.length + (a :: l).length + size - 1 = (l.length + size - 1) + size := by
        rw [List.length_cons]
        omega
      have hsize : 0 < size := Nat.zero_lt_of_lt hchunk
      rw [List.length_cons, ih (by rwa [List.length_nil]), List.length_nil, Nat.zero_add, hsum,
        Nat.add_div_right _ hsize]
    · next hpart =>
      rw [ih (by rw [List.length_cons]; omega), List.length_cons, List.length_cons]
      congr 1
      omega

/-- The chunks of a list are the list. -/
theorem flatten_chunks (s : BulkSettings) (l : List α) : (s.chunks l).flatten = l :=
  flatten_cut _ [] l

/-- The store takes a chunk of the size that is set. -/
theorem batchSize_of_validate {s : BulkSettings} (hs : s.validate = .ok ()) :
    1 ≤ s.maxBatchSize.toNat ∧ s.maxBatchSize.toNat ≤ maxBulkWrites := by
  obtain ⟨-, hpositive, hmax⟩ := validate_eq_ok_iff.mp hs
  exact ⟨UInt64.lt_iff_toNat_lt.mp hpositive, UInt64.le_iff_toNat_le.mp hmax⟩

/-- A valid size is the size of the chunks. -/
theorem chunks_eq_cut {s : BulkSettings} (hs : s.validate = .ok ()) (l : List α) :
    s.chunks l = cut s.maxBatchSize.toNat [] l := by
  rw [chunks, Nat.max_eq_left (batchSize_of_validate hs).1]

/-- The store takes every chunk. -/
theorem length_of_mem_chunks {s : BulkSettings} (hs : s.validate = .ok ()) {l c : List α}
    (hc : c ∈ s.chunks l) : 1 ≤ c.length ∧ c.length ≤ maxBulkWrites := by
  obtain ⟨hsize, hmax⟩ := batchSize_of_validate hs
  rw [chunks_eq_cut hs] at hc
  obtain ⟨hpositive, hle⟩ := length_of_mem_cut (by rwa [List.length_nil]) hc
  exact ⟨hpositive, Nat.le_trans hle hmax⟩

/-- The most entries that can be removed at once if each chunk of them takes one request: the
    requests are counted in 32 bits. -/
def maxRemovals (s : BulkSettings) : Nat := (UInt32.size - 1) * s.maxBatchSize.toNat

theorem one_le_maxRemovals {s : BulkSettings} (hs : s.validate = .ok ()) : 1 ≤ s.maxRemovals :=
  Nat.mul_pos (by decide) (batchSize_of_validate hs).1

theorem length_chunks_lt_iff {s : BulkSettings} (hs : s.validate = .ok ()) {l : List α} :
    (s.chunks l).length < UInt32.size ↔ l.length ≤ s.maxRemovals := by
  obtain ⟨hsize, -⟩ := batchSize_of_validate hs
  have hmore : UInt32.size * s.maxBatchSize.toNat = s.maxRemovals + s.maxBatchSize.toNat :=
    Nat.succ_mul (UInt32.size - 1) _
  rw [chunks_eq_cut hs, length_cut (by rwa [List.length_nil]), List.length_nil, Nat.zero_add,
    Nat.div_lt_iff_lt_mul hsize, hmore]
  omega

end BulkSettings

/-! ### Sums of outcomes -/

namespace BulkOutcome

variable {o p sum : BulkOutcome}

theorem exists_merge? (hattempts : o.attempts.toNat + p.attempts.toNat < UInt32.size)
    (hunprocessed : o.unprocessed + p.unprocessed < UInt64.size) : ∃ sum, o.merge? p = some sum :=
  ⟨_, if_pos ⟨hattempts, hunprocessed⟩⟩

/-- A sum that is there counts what the two outcomes count. -/
theorem counts_of_merge? (h : o.merge? p = some sum) :
    sum.attempts.toNat = o.attempts.toNat + p.attempts.toNat ∧
      sum.unprocessed = o.unprocessed + p.unprocessed := by
  unfold merge? at h
  split at h
  · next hsmall =>
    obtain rfl := Option.some.inj h
    exact ⟨(UInt32.toNat_add ..).trans (Nat.mod_eq_of_lt hsmall.1), rfl⟩
  · cases h

/-- A sum that is not there is too large. -/
theorem large_of_merge? (h : o.merge? p = none) :
    UInt32.size ≤ o.attempts.toNat + p.attempts.toNat ∨
      UInt64.size ≤ o.unprocessed + p.unprocessed := by
  by_contra hsmall
  obtain ⟨hattempts, hunprocessed⟩ := not_or.mp hsmall
  obtain ⟨sum, hsum⟩ := exists_merge? (Nat.lt_of_not_le hattempts) (Nat.lt_of_not_le hunprocessed)
  rw [h] at hsum
  cases hsum

end BulkOutcome

namespace Queue

/-- The write that removes an entry. -/
def deletion (q : Queue) (u : Uuid) : String × Write := (q.table, .delete (Row.uuidKey u))

theorem flatten_removal (q : Queue) (uuids : List Uuid) :
    (q.removal uuids).flatten = uuids.map q.deletion := by
  simp only [Writes.flatten, removal, SortedMap.single, List.flatMap_singleton, List.map_map,
    Function.comp_def]
  rfl

theorem compact_removal {q : Queue} {uuids : List Uuid} (huuids : uuids ≠ []) :
    (q.removal uuids).compact = q.removal uuids := by
  apply SortedMap.ext_toList
  cases uuids with
  | nil => exact absurd rfl huuids
  | cons u uuids => rfl

/-- The rule of the removal of entries: `J chunks total st` holds in the state `st` with these
    chunks still to be removed and this total of the outcomes so far.  An outcome that cannot be
    added to the total is a panic. -/
theorem within_removeAll_of_chunks {q : Queue} {b : Behaviour σ}
    {J : List (List Uuid) → BulkOutcome → σ → Prop} {bad : Option RegistryError → σ → Prop}
    (hchunk : ∀ {chunk chunks total st}, J (chunk :: chunks) total st →
      (q.bulk.complete (q.removal chunk)).Within b
        (fun (result : Option (Except Store.Error BulkOutcome)) st' =>
        match result with
        | some (.ok outcome) => (total.merge? outcome).elim (bad none st') fun o => J chunks o st'
        | some (.error e) => bad (some (.store e)) st'
        | none => bad none st') st)
    {uuids : List Uuid} {st : σ} (hst : J (q.bulk.chunks uuids) {} st) :
    Action.Within b (q.removeAll uuids) st (J []) bad := by
  unfold removeAll
  generalize q.bulk.chunks uuids = chunks at hst ⊢
  generalize ({} : BulkOutcome) = total at hst ⊢
  induction chunks generalizing total st with
  | nil => exact hst
  | cons chunk chunks ih =>
    rw [List.foldlM_cons]
    refine Action.within_bind (Action.within_bind (Action.within_ofStore
      (Script.Within.mono (hchunk hst) fun result st' hst' => ?_)))
    match result with
    | some (.ok outcome) =>
      dsimp only at hst' ⊢
      cases hmerge : total.merge? outcome with
      | none =>
        rw [hmerge] at hst'
        exact hst'
      | some o =>
        rw [hmerge] at hst'
        exact ih _ hst'
    | some (.error e) => exact hst'
    | none => exact hst'

end Queue

end LoginRegistry
