import LoginRegistry.Proofs.Migration.Bindings
import LoginRegistry.Proofs.Migration.Paging
import LoginRegistry.Proofs.Script.Spending

/-! # Sweeps end

    A sweep goes on only after it has removed a full page of tombstones, and it leaves no new
    ones.  So it begins no more pages than there are full pages of tombstones, and one more,
    whatever befalls its requests (`within_sweepPages_begun`).

    The pages of a sweep are bounded in its definition.  The bound is never met: with any two
    bounds above the number of full pages a sweep is the same (`run_sweepPages_congr`).
-/

namespace LoginRegistry

open Store (Request Writes)

/-! ### Requests that a sweep makes -/

namespace Registry

/-- The request begins to list a page of tombstones: it reads their table from the start. -/
def beginsPage (r : Registry) : Request → Bool
  | .scan q => q.table == r.tombstones.table && q.start.isNone
  | _ => false

/-- The pages of tombstones that requests have begun to list. -/
def pagesBegun (r : Registry) (made : List Request) : Nat := made.countP r.beginsPage

variable {r : Registry}

theorem pagesBegun_cons_of_not {request : Request} {made : List Request}
    (h : r.beginsPage request = false) : r.pagesBegun (request :: made) = r.pagesBegun made := by
  rw [pagesBegun, List.countP_cons, h]
  rfl

/-- Requests that begin no page keep what sees only the pages. -/
theorem keeps_send_of_not_begin {b : Behaviour σ} {begun : Nat} {request : Request}
    (h : r.beginsPage request = false) :
    (Script.send request).Keeps b.recorded fun st => r.pagesBegun st.1 = begun :=
  .send_recorded fun _ _ _ _ hst _ => (pagesBegun_cons_of_not h).trans hst

/-- The deletes of a sweep keep what is kept by requests that neither read pages nor name the
    tombstones. -/
theorem keeps_deleteWith_of_send {b : Behaviour σ} {I : σ → Prop}
    (hsend : ∀ {request : Request}, request.operation ≠ .scan →
      r.config.tables.name .tombstones ∉ request.tables → (Script.send request).Keeps b I)
    (hr : Function.Injective r.config.tables.name) (u : Uuid) :
    (r.deleteWith u .reconcile).Keeps b I := by
  have hother : ∀ {request : Request} (i : TableId), request.operation ≠ .scan →
      request.tables = [r.config.tables.name i] → i ≠ .tombstones →
      (Script.send request).Keeps b I := by
    intro request i hscan htables hi
    exact hsend hscan (by simpa [htables, hr.eq_iff] using hi.symm)
  have hrelease : ∀ login, (r.logins.release login u).Keeps b I :=
    fun login => .unlessRefused (hother .logins (by nofun) rfl nofun)
  rw [deleteWith_eq]
  refine .timed (.bind (.bind (.ofStore (hother .accounts (by nofun) rfl nofun)) fun row? => ?_)
    fun account? => ?_) _
  · match row? with
    | none => exact .pure none
    | some row => exact .bind (.ofExcept _) fun a => .pure (some a)
  · match account? with
    | none =>
      refine .bind (.bind (.ofStore (hother .retries (by nofun) rfl nofun)) fun _ => .pure _)
        fun login? => ?_
      match login? with
      | none => exact .pure ()
      | some login => exact .bind (hrelease login) fun _ => .pure ()
    | some a =>
      exact .bind (hrelease a.login) fun _ =>
        .bind (.ofStore (hother .accounts (by nofun) rfl nofun)) fun _ => .pure ()

/-- A drain begins no page. -/
theorem keeps_removeAll_begun {b : Behaviour σ} {begun : Nat} (us : List Uuid) :
    (r.tombstones.removeAll us).Keeps b.recorded fun st => r.pagesBegun st.1 = begun := by
  have hrequest : ∀ {w : Store.Writes} {st answer st'}, r.pagesBegun st.1 = begun →
      b.recorded (.bulkWrite w) st answer st' → r.pagesBegun st'.1 = begun := by
    rintro w ⟨made, st⟩ answer ⟨_, st'⟩ hst ⟨rfl, -⟩
    exact (pagesBegun_cons_of_not rfl).trans hst
  have hcomplete : ∀ w, (r.tombstones.bulk.complete w).Keeps b.recorded
      fun st : List Request × σ => r.pagesBegun st.1 = begun := by
    refine fun w st hst => BulkSettings.within_complete_of_steps
      (J := fun _ _ (st : List Request × σ) => r.pagesBegun st.1 = begun) ?_ (fun _ => hst)
      fun _ => hst
    exact {
      finished := fun _ hst h _ _ => hrequest hst h
      stopped := fun _ hst h _ _ => hrequest hst h
      again := fun _ hst h _ => hrequest hst h
      overflows := fun _ hst h _ => hrequest hst h
      failed := fun _ hst h => hrequest hst h
      panicked := fun _ hst h => hrequest hst h }
  refine Action.keeps_of_within fun st hst => Queue.within_removeAll_of_chunks
    (J := fun _ _ (st : List Request × σ) => r.pagesBegun st.1 = begun)
    (fun {chunk chunks total st} hst => ?_) hst
  refine Script.Within.mono (hcomplete _ st hst) fun o st' hst' => ?_
  match o with
  | some (.ok outcome) =>
    dsimp only
    cases total.merge? outcome <;> exact hst'
  | some (.error e) => exact hst'
  | none => exact hst'

/-- A listing that goes on begins no page. -/
theorem keeps_collect_begun {b : Behaviour σ} {begun : Nat} (count pages : Nat)
    (found : List Uuid) (key : Store.Item) :
    (r.tombstones.collect count pages found (some key)).Keeps b.recorded
      fun st => r.pagesBegun st.1 = begun := by
  induction pages generalizing found key with
  | zero => exact .pure found
  | succ pages ih =>
    rw [Queue.collect]
    split
    · refine .bind (.ofStore (keeps_send_of_not_begin ?_)) fun page => .bind (.ofExcept _)
        fun us => ?_
      · simp [beginsPage]
      · cases page.last with
        | some key => exact ih _ key
        | none => exact .pure _
    · exact .pure found

/-- A listing begins one page. -/
theorem within_list_begun {b : Behaviour σ} {count : Nat} (hcount : 1 ≤ count)
    (made : List Request) (st : σ) :
    (r.tombstones.list count).Within b.recorded (made, st)
      (fun _ st' => r.pagesBegun st'.1 = r.pagesBegun made + 1)
      fun _ st' => r.pagesBegun st'.1 = r.pagesBegun made + 1 := by
  obtain ⟨pages, rfl⟩ := Nat.exists_eq_add_of_le' hcount
  have hfirst : ∀ limit, r.pagesBegun (.scan ⟨r.tombstones.table, limit, none⟩ :: made)
      = r.pagesBegun made + 1 := by
    intro limit
    rw [pagesBegun, List.countP_cons_of_pos (by simp [beginsPage])]
    rfl
  have hroom : ([] : List Uuid).length < pages + 1 := Nat.succ_pos pages
  refine Action.within_bind ?_
  rw [Queue.collect, if_pos hroom]
  refine Action.within_bind (Action.within_ofStore
    (Script.within_send_recorded fun answer st' _ => ?_))
  cases answer with
  | failed e => exact hfirst _
  | panicked => exact hfirst _
  | ok page =>
    refine Action.Within.mono (Action.Keeps.within (.bind (.ofExcept _) fun us => ?_) (hfirst _))
      (fun us st' hst' => Action.within_pure hst') fun _ _ => id
    -- The rest of the page goes on where the first request ended.
    cases page.last with
    | some key => exact keeps_collect_begun _ _ _ key
    | none => exact .pure _

end Registry

/-! ### Pages -/

/-- If a drain has removed all tombstones that were listed, the others are left. -/
theorem Tables.Drained.size_eq {t t' : Tables} {us : List Uuid} {count : Nat}
    (hkeys : us.map Row.uuidValue = (t .tombstones).keys.take count) (h : t.Drained us t')
    (hgone : ∀ u ∈ us, ¬ t'.Tombstoned u) :
    (t' .tombstones).size + us.length = (t .tombstones).size := by
  obtain ⟨gone, hsub, rfl⟩ := h
  have hsame : (t.unbury gone) .tombstones = (t.unbury us) .tombstones := by
    apply SortedMap.ext_get?
    intro key
    by_cases hkey : key ∈ us.map Row.uuidValue
    · obtain ⟨u, hu, rfl⟩ := List.mem_map.mp hkey
      have hnone : ((t.unbury gone) .tombstones).get? (Row.uuidValue u) = none :=
        Option.not_isSome_iff_eq_none.mp (hgone u hu)
      rw [hnone, get?_unbury, if_pos hkey]
    · rw [get?_unbury, get?_unbury, if_neg hkey,
        if_neg fun hmem => hkey (List.map_subset _ hsub hmem)]
  have hlength := congrArg List.length (toList_unbury hkeys)
  have htotal := congrArg List.length hkeys
  rw [List.length_map, List.length_take, SortedMap.keys, List.length_map] at htotal
  rw [hsame, SortedMap.size, SortedMap.size]
  rw [List.length_drop] at hlength
  omega

namespace Registry

variable {r : Registry} {x : Exposure} {t : Tables}

section valid

variable (hr : Function.Injective r.config.tables.name)

include hr

/-- A page leaves no new tombstones, and removes all its own if its drain is complete. -/
theorem within_sweepPage_of_complete {us : List Uuid} {count : Nat}
    (hkeyed : t.KeyedOnIds .tombstones)
    (hkeys : us.map Row.uuidValue = (t .tombstones).keys.take count) :
    (r.sweepPage us).Within (r.config.tables.behaviour x) t
      (fun outcome t' => t'.KeyedOnIds .tombstones ∧ (outcome.isComplete = true →
        (t' .tombstones).size + us.length = (t .tombstones).size))
      fun _ _ => True := by
  have hdelete : ∀ u, (r.deleteWith u .reconcile).Keeps (r.config.tables.behaviour x)
      fun t' => t' .tombstones = t .tombstones := by
    refine keeps_deleteWith_of_send (fun {request} _ htables t' ht' => ?_) hr
    exact Script.within_send fun answer t'' h =>
      (TableNames.eq_of_behaviour hr h htables).trans ht'
  refine Action.within_bind (Action.Within.mono
    (Action.Keeps.within (.forM fun u _ => hdelete u) rfl) ?_ fun _ _ _ => trivial)
  intro _ t' ht'
  refine TableNames.within_removeAll_of_complete hr rfl us ?_ fun _ _ _ => trivial
  intro outcome t'' hdrained hgone
  refine ⟨?_, fun hcomplete => ?_⟩
  · obtain ⟨gone, -, rfl⟩ := hdrained
    exact (hkeyed.congr ht').unbury gone
  · rw [← ht'] at hkeys ⊢
    exact hdrained.size_eq hkeys (hgone hcomplete)

/-- The deletes and the drain of a page begin no other. -/
theorem within_sweepPage_begun {b : Behaviour σ} (us : List Uuid) (made : List Request) (st : σ) :
    (r.sweepPage us).Within b.recorded (made, st)
      (fun _ st' => r.pagesBegun st'.1 = r.pagesBegun made)
      fun _ st' => r.pagesBegun st'.1 = r.pagesBegun made := by
  refine Action.Keeps.within (.bind (.forM fun u _ => ?_) fun _ => keeps_removeAll_begun us) rfl
  refine keeps_deleteWith_of_send (fun {request} hscan _ => ?_) hr u
  exact keeps_send_of_not_begin (by cases request <;> first | rfl | exact absurd rfl hscan)

/-- A sweep begins no more pages than there are full pages of tombstones, and one more. -/
theorem within_sweepPages_begun {pageSize n : Nat} (hsize : 1 ≤ pageSize) (pages processed : Nat)
    (made : List Request) (hkeyed : t.KeyedOnIds .tombstones)
    (hn : r.pagesBegun made * pageSize + (t .tombstones).size ≤ n) :
    (r.sweepPages pageSize pages processed).Within (r.recorded x) (made, t)
      (fun _ st' => r.pagesBegun st'.1 ≤ n / pageSize + 1)
      fun _ st' => r.pagesBegun st'.1 ≤ n / pageSize + 1 := by
  -- Each page before this one has removed as many tombstones as it can hold.
  induction pages generalizing processed made t with
  | zero =>
    have hle : r.pagesBegun made ≤ n / pageSize :=
      (Nat.le_div_iff_mul_le hsize).mpr (Nat.le_trans (Nat.le_add_right ..) hn)
    exact Action.within_pure (Nat.le_succ_of_le hle)
  | succ pages ih =>
    have hbegun : r.pagesBegun made + 1 ≤ n / pageSize + 1 :=
      Nat.succ_le_succ ((Nat.le_div_iff_mul_le hsize).mpr (by omega))
    refine Action.within_bind (Action.Within.mono
      ((within_list_begun hsize made t).and
        ((Sweepable.within_list hr hkeyed pageSize).recorded made)) ?_ ?_)
    · rintro us ⟨made', t'⟩ ⟨hmade, -, rfl, hkeys, -⟩
      dsimp only at hmade
      rw [← hmade] at hbegun
      split
      · exact Action.within_pure hbegun
      · refine Action.within_bind (Action.Within.mono (Action.Within.and
          (within_sweepPage_begun hr us made' t')
          ((within_sweepPage_of_complete hr hkeyed hkeys).recorded made')) ?_ ?_)
        · rintro outcome ⟨made'', t''⟩ ⟨hsame, -, hkeyed', hremoved⟩
          dsimp only at hsame hremoved hn
          simp only
          split
          · exact Action.within_pure (hsame.trans_le hbegun)
          · next hmore =>
            simp only [Bool.or_eq_true, Bool.not_eq_true', decide_eq_true_eq, not_or,
              Bool.not_eq_false, Nat.not_lt] at hmore
            have hsize' := hremoved hmore.1
            refine ih _ _ hkeyed' ?_
            rw [hsame, hmade, Nat.succ_mul]
            omega
        · rintro o st ⟨hsame, -⟩
          exact hsame.trans_le hbegun
    · rintro o st ⟨hmade, -⟩
      exact hmade.trans_le hbegun

/-- With any two bounds on its pages above the number of full pages, a sweep is the same. -/
theorem run_sweepPages_congr {h : Handler τ} {R : τ → Tables → Prop}
    (hh : h.Obeys (r.config.tables.behaviour x) R) {pageSize : Nat} (hsize : 1 ≤ pageSize)
    {pages pages' : Nat} (processed : Nat) {y : τ} (hy : R y t)
    (hkeyed : t.KeyedOnIds .tombstones) (hpages : (t .tombstones).size / pageSize < pages)
    (hpages' : (t .tombstones).size / pageSize < pages') :
    (r.sweepPages pageSize pages processed).run.run h y
      = (r.sweepPages pageSize pages' processed).run.run h y := by
  induction pages generalizing pages' processed y t with
  | zero => exact absurd hpages (Nat.not_lt_zero _)
  | succ pages ih =>
    obtain ⟨pages', rfl⟩ := Nat.exists_eq_succ_of_ne_zero (Nat.ne_of_gt (Nat.zero_lt_of_lt hpages'))
    refine Action.run_bind_congr hh hy (Action.Within.mono
      (Sweepable.within_list hr hkeyed pageSize) ?_ fun _ _ _ => trivial)
    rintro us _ ⟨rfl, hkeys, -⟩ y hy
    split
    · rfl
    · refine Action.run_bind_congr hh hy (Action.Within.mono
        (within_sweepPage_of_complete hr hkeyed hkeys) ?_ fun _ _ _ => trivial)
      rintro outcome t' ⟨hkeyed', hremoved⟩ y hy
      simp only
      split
      · rfl
      · next hmore =>
        -- A full page is gone, so one page less is enough.
        simp only [Bool.or_eq_true, Bool.not_eq_true', decide_eq_true_eq, not_or,
          Bool.not_eq_false, Nat.not_lt] at hmore
        have hsize' := hremoved hmore.1
        rw [Nat.div_lt_iff_lt_mul hsize, Nat.succ_mul] at hpages hpages'
        refine ih _ hy hkeyed' ?_ ?_
        · rw [Nat.div_lt_iff_lt_mul hsize]
          omega
        · rw [Nat.div_lt_iff_lt_mul hsize]
          omega

end valid

end Registry

/-! ### How many requests a bulk write makes -/

/-- Writes in bulk make at most one request more than the maximum. -/
theorem BulkSettings.spends_complete {s : BulkSettings} {b : Behaviour σ} (w : Writes) :
    (s.complete w).Spends b (s.maxAttempts.toNat + 1) := by
  intro made st
  have hnext : ∀ {n : Nat} {request : Request} {st : List Request × σ}
      {answer : Answer request.Reply} {st' : List Request × σ},
      st.1.length = made.length + n → b.recorded request st answer st' →
      st'.1.length = made.length + n + 1 :=
    fun hlength h => (congrArg List.length h.1).trans (congrArg (· + 1) hlength)
  have hlast : ∀ {n : Nat} {request : Request} {st : List Request × σ}
      {answer : Answer request.Reply} {st' : List Request × σ},
      n ≤ s.maxAttempts.toNat → st.1.length = made.length + n → b.recorded request st answer st' →
      st'.1.length ≤ made.length + (s.maxAttempts.toNat + 1) := by
    intro n request st answer st' hn hlength h
    have hmore := hnext hlength h
    omega
  refine within_complete_of_steps (J := fun n _ st => st.1.length = made.length + n) ?_
    (fun _ => Nat.le_add_right ..) fun _ => rfl
  exact {
    finished := fun hn hst h _ _ => hlast hn hst h
    stopped := fun hn hst h _ _ => hlast hn.le hst h
    again := fun _ hst h _ => hnext hst h
    overflows := fun hn hst h _ => hlast hn.le hst h
    failed := hlast
    panicked := hlast }

namespace Registry

variable {r : Registry} {x : Exposure} {t : Tables}

/-! ### How many requests a sweep makes -/

section spending

variable {b : Behaviour σ}

/-- A listing makes no more requests than ids are asked for, and lists no more ids. -/
theorem within_list_spent (q : Queue) (count : Nat) (made : List Request) (st : σ) :
    (q.list count).Within b.recorded (made, st)
      (fun us st' => us.length ≤ count ∧ st'.1.length ≤ made.length + count)
      fun _ st' => st'.1.length ≤ made.length + count := by
  have hcollect : ∀ pages found start, (q.collect count pages found start).Spends b pages := by
    intro pages
    induction pages with
    | zero => exact fun found _ => .pure found 0
    | succ pages ih =>
      intro found start
      rw [Queue.collect, Nat.add_comm]
      split
      · refine .bind (.ofStore (.send _)) fun page => ?_
        refine (Action.Spends.bind (.ofExcept _ 0) fun us => ?_).mono (Nat.zero_add pages).le
        cases page.last with
        | some key => exact ih _ _
        | none => exact .pure _ _
      · exact .pure found _
  refine Action.within_bind (Action.Within.mono ((hcollect count [] none).within made st) ?_
    fun _ _ => id)
  exact fun us st' hst' => Action.within_pure ⟨List.length_take_le count us, hst'⟩

/-- A delete of a sweep makes three requests at most. -/
theorem spends_deleteWith (u : Uuid) : (r.deleteWith u .reconcile).Spends b 3 := by
  rw [deleteWith_eq]
  refine .timed (.bind (n := 1) (m := 2) (.bind (m := 0) (.ofStore (.send _)) fun row? => ?_)
    fun account? => ?_) _
  · match row? with
    | none => exact .pure none 0
    | some row => exact .bind (m := 0) (.ofExcept _ 0) fun a => .pure (some a) 0
  · match account? with
    | none =>
      refine .bind (n := 1) (m := 1) (.bind (m := 0) (.ofStore (.send _)) fun _ => .pure _ 0)
        fun login? => ?_
      match login? with
      | none => exact .pure () 1
      | some login => exact .bind (m := 0) (.unlessRefused (.send _)) fun _ => .pure () 0
    | some a =>
      exact .bind (.unlessRefused (.send _)) fun _ =>
        .bind (m := 0) (.ofStore (.send _)) fun _ => .pure () 0

/-- A drain makes as many requests for each entry as one bulk write at most. -/
theorem spends_removeAll (q : Queue) (us : List Uuid) :
    (q.removeAll us).Spends b (us.length * (q.bulk.maxAttempts.toNat + 1)) := by
  have hchunks : (q.bulk.chunks us).length ≤ us.length := by
    have hflatten := congrArg List.length (q.bulk.flatten_chunks us)
    rw [List.length_flatten] at hflatten
    rw [← hflatten, ← List.length_map List.length]
    refine List.length_le_sum_of_one_le _ fun i hi => ?_
    obtain ⟨chunk, hchunk, rfl⟩ := List.mem_map.mp hi
    exact (BulkSettings.length_of_mem_cut (Nat.zero_lt_of_lt (Nat.le_max_right ..)) hchunk).1
  refine (Action.Spends.foldlM (n := q.bulk.maxAttempts.toNat + 1) (fun total chunk => ?_)
    _ _).mono (Nat.mul_le_mul_right _ hchunks)
  exact .bind (m := 0) (.ofStore (BulkSettings.spends_complete _)) fun _ => .orPanic _ 0

theorem spends_sweepPage (us : List Uuid) :
    (r.sweepPage us).Spends b (us.length * (r.config.bulk.maxAttempts.toNat + 4)) := by
  refine (Action.Spends.bind (.forM spends_deleteWith us)
    fun _ => spends_removeAll r.tombstones us).mono (Nat.le_of_eq ?_)
  rw [← Nat.mul_add, Nat.add_comm]
  rfl

/-- A sweep makes a bounded number of requests for each page that it begins. -/
theorem within_sweepPages_spent (hr : Function.Injective r.config.tables.name) {pageSize : Nat}
    (hsize : 1 ≤ pageSize) (pages processed : Nat) (made : List Request) (st : σ) :
    (r.sweepPages pageSize pages processed).Within b.recorded (made, st)
      (fun _ st' => st'.1.length
          + r.pagesBegun made * (pageSize * (r.config.bulk.maxAttempts.toNat + 5))
        ≤ made.length + r.pagesBegun st'.1 * (pageSize * (r.config.bulk.maxAttempts.toNat + 5)))
      fun _ st' => st'.1.length
          + r.pagesBegun made * (pageSize * (r.config.bulk.maxAttempts.toNat + 5))
        ≤ made.length + r.pagesBegun st'.1 * (pageSize * (r.config.bulk.maxAttempts.toNat + 5)) := by
  -- A page costs its listing, and its deletes and its drain.
  have hcost : pageSize * (r.config.bulk.maxAttempts.toNat + 5)
      = pageSize * (r.config.bulk.maxAttempts.toNat + 4) + pageSize := Nat.mul_succ ..
  generalize pageSize * (r.config.bulk.maxAttempts.toNat + 5) = cost at hcost ⊢
  induction pages generalizing processed made st with
  | zero => exact Action.within_pure (Nat.le_refl _)
  | succ pages ih =>
    refine Action.within_bind (Action.Within.mono ((within_list_begun hsize made st).and
      (within_list_spent r.tombstones pageSize made st)) ?_ ?_)
    · rintro us ⟨made', st'⟩ ⟨hbegun, hlength, hspent⟩
      dsimp only at hbegun hspent
      have hmore : r.pagesBegun made' * cost = r.pagesBegun made * cost + cost := by
        rw [hbegun, Nat.succ_mul]
      split
      · exact Action.within_pure (by dsimp only; omega)
      · have hpage : us.length * (r.config.bulk.maxAttempts.toNat + 4)
            ≤ pageSize * (r.config.bulk.maxAttempts.toNat + 4) := Nat.mul_le_mul_right _ hlength
        refine Action.within_bind (Action.Within.mono (Action.Within.and
          (within_sweepPage_begun hr us made' st') ((spends_sweepPage us).within made' st')) ?_ ?_)
        · rintro outcome ⟨made'', st''⟩ ⟨hsame, hspent'⟩
          dsimp only at hsame hspent'
          rw [← hsame] at hmore
          simp only
          split
          · exact Action.within_pure (by dsimp only; omega)
          · refine Action.Within.mono (ih _ _ _) (fun _ st h => ?_) fun _ st h => ?_
            · omega
            · omega
        · rintro o ⟨made'', st''⟩ ⟨hsame, hspent'⟩
          dsimp only at hsame hspent' ⊢
          rw [← hsame] at hmore
          omega
    · rintro o ⟨made', st'⟩ ⟨hbegun, hspent⟩
      dsimp only at hbegun hspent ⊢
      rw [hbegun, Nat.succ_mul]
      omega

end spending

/-! ### Sweeps in a worker -/

theorem sweep_eq (hsize : 1 ≤ r.config.migration.reconcilePageSize.toNat) :
    r.sweep = r.sweepPages r.config.migration.reconcilePageSize.toNat (maxSweepPages + 1) 0 := by
  rw [sweep, Nat.max_eq_left hsize]

/-- Valid settings have a positive page size. -/
theorem one_le_reconcilePageSize_of_ofConfig {config : Config} (h : ofConfig config = .ok r) :
    1 ≤ config.migration.reconcilePageSize.toNat := by
  have hvalid := exists_ofConfig_iff.mp ⟨r, h⟩
  obtain ⟨-, -, -, hpage⟩ := hvalid.positive
  exact UInt64.lt_iff_toNat_lt.mp hpage

section valid

variable (hr : Function.Injective r.config.tables.name)
  (hsize : 1 ≤ r.config.migration.reconcilePageSize.toNat)

include hr hsize

theorem within_reconcile_begun (hkeyed : t.KeyedOnIds .tombstones) :
    r.reconcile.Within (r.recorded x)
      (fun o st => o ≠ none ∧ r.pagesBegun st.1
        ≤ (t .tombstones).size / r.config.migration.reconcilePageSize.toNat + 1) ([], t) := by
  refine within_reconcile_of_sweep ?_
  rw [sweep_eq hsize]
  refine Action.Within.mono (within_sweepPages_begun hr hsize _ 0 [] hkeyed
    (Nat.le_of_eq ?_)) (fun _ _ h => ⟨nofun, h⟩) fun _ _ h => ⟨nofun, h⟩
  exact (congrArg (· + _) (Nat.zero_mul _)).trans (Nat.zero_add _)

theorem within_reconcile_spent {b : Behaviour σ} (st : σ) :
    r.reconcile.Within b.recorded
      (fun _ st' => st'.1.length ≤ r.pagesBegun st'.1
        * (r.config.migration.reconcilePageSize.toNat * (r.config.bulk.maxAttempts.toNat + 5)))
      ([], st) := by
  refine within_reconcile_of_sweep ?_
  rw [sweep_eq hsize]
  refine Action.Within.mono (within_sweepPages_spent hr hsize _ 0 [] st) ?_ ?_
  · exact fun _ _ h => Nat.le_trans (Nat.le_add_right ..) (h.trans_eq (Nat.zero_add _))
  · exact fun _ _ h => Nat.le_trans (Nat.le_add_right ..) (h.trans_eq (Nat.zero_add _))

/-- A sweep in a worker ends, whatever befalls its requests: it returns, it begins at most one
    page more than there are full pages of tombstones, and it makes a bounded number of
    requests for each. -/
theorem run_reconcile_ends {h : Handler τ} {R : τ → Tables → Prop}
    (hh : h.Obeys (r.config.tables.behaviour x) R) {y : τ} (hy : R y t)
    (hkeyed : t.KeyedOnIds .tombstones) {n pageSize : Nat} (hn : (t .tombstones).size = n)
    (hpageSize : r.config.migration.reconcilePageSize.toNat = pageSize) :
    let run := r.reconcile.run h.recorded ([], y)
    run.result ≠ none ∧ r.pagesBegun run.state.1 ≤ n / pageSize + 1 ∧
      run.state.1.length
        ≤ (n / pageSize + 1) * (pageSize * (r.config.bulk.maxAttempts.toNat + 5)) := by
  subst hn hpageSize
  intro run
  obtain ⟨⟨_, _⟩, ⟨rfl, -⟩, hresult, hbegun⟩ := Script.run_of_within hh.recorded
    (within_reconcile_begun hr hsize hkeyed) (x := ([], y)) ⟨rfl, hy⟩
  obtain ⟨⟨_, _⟩, ⟨rfl, -⟩, hlength⟩ := Script.run_of_within h.obeys_answers.recorded
    (within_reconcile_spent hr hsize y) (x := ([], y)) ⟨rfl, rfl⟩
  exact ⟨hresult, hbegun, hlength.trans (Nat.mul_le_mul_right _ hbegun)⟩

/-- The pages that the definition of a sweep allows do not matter. -/
theorem run_sweepPages_eq_sweep {h : Handler τ} {R : τ → Tables → Prop}
    (hh : h.Obeys (r.config.tables.behaviour x) R) {y : τ} (hy : R y t)
    (hkeyed : t.KeyedOnIds .tombstones) {pages : Nat}
    (hpages : (t .tombstones).size / r.config.migration.reconcilePageSize.toNat < pages) :
    (r.sweepPages r.config.migration.reconcilePageSize.toNat pages 0).run.run h y
      = r.sweep.run.run h y := by
  rw [sweep_eq hsize]
  exact run_sweepPages_congr hr hh hsize 0 hy hkeyed hpages
    (Nat.lt_succ_of_le ((Nat.div_le_self ..).trans hkeyed.size_le))

end valid

end Registry

end LoginRegistry
