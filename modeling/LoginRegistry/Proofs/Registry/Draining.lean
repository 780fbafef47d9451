import LoginRegistry.Proofs.Registry.Leads
import LoginRegistry.Proofs.Registry.Lookups
import LoginRegistry.Proofs.Registry.Resending
import LoginRegistry.Proofs.Store.Behaviour

/-! # Draining the tombstones

    Tombstones are removed in bulk.  Of a bulk request any part can be held back,
    and what is left over is sent again or given up, so little can be said about
    which tombstones are gone.  What a drain does otherwise can be said: nothing
    (`within_removeAll`).  If its outcome is complete, its tombstones are gone
    (`within_removeAll_of_complete`), and so they are when nothing befalls it and its
    requests can be counted (`within_removeAll_calm`).
-/

namespace LoginRegistry

open Store (Database Operation Write Writes)

/-- Some tombstones of these accounts are gone, and nothing else has changed. -/
def Tables.Drained (us : List Uuid) (t t' : Tables) : Prop :=
  ∃ gone, gone ⊆ us ∧ t' = t.unbury gone

namespace Tables.Drained

variable {us vs : List Uuid} {t t' t'' : Tables}

theorem refl (us : List Uuid) (t : Tables) : t.Drained us t :=
  ⟨[], List.nil_subset us, unbury_nil.symm⟩

theorem trans (h : t.Drained us t') (h' : t'.Drained us t'') : t.Drained us t'' := by
  obtain ⟨gone, hgone, rfl⟩ := h
  obtain ⟨more, hmore, rfl⟩ := h'
  exact ⟨gone ++ more, List.append_subset.mpr ⟨hgone, hmore⟩, unbury_append gone more⟩

theorem mono (h : t.Drained us t') (hus : us ⊆ vs) : t.Drained vs t' := by
  obtain ⟨gone, hgone, ht'⟩ := h
  exact ⟨gone, fun _ hu => hus (hgone hu), ht'⟩

/-- A tombstone that is gone stays gone. -/
theorem not_tombstoned (h : t.Drained us t') {u : Uuid} (hu : ¬ t.Tombstoned u) :
    ¬ t'.Tombstoned u := by
  obtain ⟨gone, -, rfl⟩ := h
  exact fun hburied => hu (tombstoned_unbury.mp hburied).1

end Tables.Drained

/-- Of the tombstones of these accounts all are gone but some of those of `rest`, and nothing
    else has changed. -/
def Tables.DrainedBut (us rest : List Uuid) (t t' : Tables) : Prop :=
  rest ⊆ us ∧ ∃ gone, gone ⊆ us ∧ us ⊆ gone ++ rest ∧ t' = t.unbury gone

namespace Tables.DrainedBut

variable {us rest rest' : List Uuid} {t t' t'' : Tables}

theorem drained (h : t.DrainedBut us rest t') : t.Drained us t' := by
  obtain ⟨-, gone, hgone, -, ht'⟩ := h
  exact ⟨gone, hgone, ht'⟩

theorem refl (us : List Uuid) (t : Tables) : t.DrainedBut us us t :=
  ⟨List.Subset.refl us, [], List.nil_subset us, List.Subset.refl us, unbury_nil.symm⟩

/-- What is still to be drained is drained in turn. -/
theorem trans (h : t.DrainedBut us rest t') (h' : t'.DrainedBut rest rest' t'') :
    t.DrainedBut us rest' t'' := by
  obtain ⟨hrest, gone, hgone, hus, rfl⟩ := h
  obtain ⟨hrest', more, hmore, hus', rfl⟩ := h'
  refine ⟨List.Subset.trans hrest' hrest, gone ++ more,
    List.append_subset.mpr ⟨hgone, List.Subset.trans hmore hrest⟩, ?_, unbury_append gone more⟩
  intro u hu
  rw [List.append_assoc]
  rcases List.mem_append.mp (hus hu) with hu | hu
  · exact List.mem_append_left _ hu
  · exact List.mem_append_right _ (hus' hu)

theorem not_tombstoned (h : t.DrainedBut us [] t') {u : Uuid} (hu : u ∈ us) :
    ¬ t'.Tombstoned u := by
  obtain ⟨-, gone, -, hus, rfl⟩ := h
  rw [List.append_nil] at hus
  exact fun hburied => (tombstoned_unbury.mp hburied).2 (hus hu)

end Tables.DrainedBut

/-! ### Writes -/

namespace TableNames

/-- The write removes the tombstone of one of these accounts. -/
def Unburies (n : TableNames) (us : List Uuid) (e : String × Write) : Prop :=
  ∃ u ∈ us, e = (n.name .tombstones, .delete (Row.uuidKey u))

/-- The writes remove the tombstones of these accounts. -/
def Drains (n : TableNames) (us : List Uuid) (w : Writes) : Prop :=
  ∀ e, e ∈ w.flatten ↔ n.Unburies us e

variable {n : TableNames} {us : List Uuid} {t : Tables}

theorem unburies_iff {u : Uuid} :
    n.Unburies us (n.name .tombstones, .delete (Row.uuidKey u)) ↔ u ∈ us := by
  constructor
  · rintro ⟨v, hv, heq⟩
    rwa [Row.uuidKey_inj.mp (Write.delete.inj (Prod.mk.inj heq).2)]
  · exact fun hu => ⟨u, hu, rfl⟩

theorem Drains.compact {w : Writes} (h : n.Drains us w) : n.Drains us w.compact := by
  intro e
  rw [Writes.flatten_compact]
  exact h e

theorem drains_ofFlat (us : List Uuid) : n.Drains us
    (Writes.ofFlat (us.map fun u => (n.name .tombstones, .delete (Row.uuidKey u)))) := by
  intro e
  rw [(Writes.perm_flatten_ofFlat _).mem_iff, List.mem_map]
  exact exists_congr fun u => and_congr_right fun _ => eq_comm

/-- Writes that remove tombstones do so for a list of accounts. -/
theorem exists_of_unburies {l : List (String × Write)} (h : ∀ e ∈ l, n.Unburies us e) :
    ∃ gone, gone ⊆ us ∧ l = gone.map fun u => (n.name .tombstones, .delete (Row.uuidKey u)) := by
  induction l with
  | nil => exact ⟨[], List.nil_subset us, rfl⟩
  | cons e l ih =>
    obtain ⟨⟨u, hu, rfl⟩, hrest⟩ := List.forall_mem_cons.mp h
    obtain ⟨gone, hgone, rfl⟩ := ih hrest
    exact ⟨u :: gone, List.cons_subset.mpr ⟨hu, hgone⟩, rfl⟩

theorem drains_empty : n.Drains [] .empty := by
  intro e
  constructor
  · intro he
    obtain ⟨_, hmem, _⟩ := Writes.mem_flatten.mp he
    cases hmem
  · rintro ⟨u, hu, -⟩
    cases hu

theorem flatten_removal {q : Queue} (hq : q.table = n.name .tombstones) (us : List Uuid) :
    (q.removal us).flatten = us.map fun u => (n.name .tombstones, .delete (Row.uuidKey u)) := by
  rw [Queue.flatten_removal, ← hq]
  rfl

theorem drains_removal {q : Queue} (hq : q.table = n.name .tombstones) (us : List Uuid) :
    n.Drains us (q.removal us) := by
  intro e
  rw [flatten_removal hq, List.mem_map]
  exact exists_congr fun u => and_congr_right fun _ => eq_comm

/-- What a bulk request of a drain leads to: tombstones are gone, and what is left would
    remove the others. -/
def Draining (n : TableNames) (us : List Uuid) (t : Tables) (answer : Answer Writes)
    (t' : Tables) : Prop :=
  t.Drained us t' ∧
    ∀ left, answer = .ok left → ∃ rest, n.Drains rest left ∧ t.DrainedBut us rest t'

theorem draining_failed (e : Store.Error) : n.Draining us t (.failed e) t :=
  ⟨.refl us t, fun _ h => by cases h⟩

theorem draining_panicked : n.Draining us t .panicked t :=
  ⟨.refl us t, fun _ h => by cases h⟩

theorem draining_ok {rest : List Uuid} {left : Writes} {t' : Tables} (hleft : n.Drains rest left)
    (h : t.DrainedBut us rest t') : n.Draining us t (.ok left) t' := by
  refine ⟨h.drained, fun left' hleft' => ⟨rest, ?_, h⟩⟩
  rwa [← Answer.ok.inj hleft']

section valid

variable (hn : Function.Injective n.name)

include hn

/-- Removing tombstones one by one. -/
theorem foldl_applyWrite_database (us : List Uuid) :
    (us.map fun u => (n.name .tombstones, Write.delete (Row.uuidKey u))).foldl
      Database.applyWrite (n.database t) = n.database (t.unbury us) := by
  induction us generalizing t with
  | nil => exact congrArg _ Tables.unbury_nil.symm
  | cons u us ih =>
    have hkey : (Write.delete (Row.uuidKey u)).item.get? Row.uuidName = some (Row.uuidValue u) :=
      Row.uuid_uuidKey u
    have hfirst : (n.database t).applyWrite (n.name .tombstones, .delete (Row.uuidKey u))
        = n.database (t.unbury [u]) := by
      simp only [Database.applyWrite, get?_database hn, Store.Table.apply, TableId.partition, hkey]
      exact insert_database hn t .tombstones _
    rw [List.map_cons, List.foldl_cons, hfirst, ih, Tables.unbury_append, List.singleton_append]

/-- A bulk request that is applied removes its tombstones. -/
theorem drained_bulkWrite {w : Writes} (hw : n.Drains us w) {d : Database}
    (h : (n.database t).bulkWrite w = .ok d) :
    ∃ t', t.DrainedBut us [] t' ∧ d = n.database t' := by
  obtain ⟨gone, hgone, hflat⟩ := exists_of_unburies fun e he => (hw e).mp he
  refine ⟨_, ⟨List.nil_subset us, gone, hgone, fun u hu => ?_, rfl⟩, ?_⟩
  · have hwrite := (hw _).mpr (unburies_iff.mpr hu)
    rw [hflat] at hwrite
    obtain ⟨v, hv, heq⟩ := List.mem_map.mp hwrite
    rw [List.append_nil]
    exact unburies_iff.mp ⟨v, hv, heq.symm⟩
  · rw [Database.eq_of_bulkWrite h, hflat, foldl_applyWrite_database hn]

/-- The database answers a drain with nothing left over, or refuses it. -/
theorem draining_respond {w : Writes} (hw : n.Drains us w) :
    ∃ t', ((n.database t).respond (.bulkWrite w)).2 = n.database t' ∧
      n.Draining us t ((n.database t).respond (.bulkWrite w)).1 t' := by
  simp only [Database.respond]
  cases h : (n.database t).bulkWrite w with
  | ok d =>
    obtain ⟨t', ht', rfl⟩ := drained_bulkWrite hn hw h
    exact ⟨t', rfl, draining_ok drains_empty ht'⟩
  | error e => exact ⟨t, rfl, draining_failed e⟩

/-- A mishap leaves over a part of a drain at most. -/
theorem draining_mishap (m : Mishap) {w : Writes} (hw : n.Drains us w) :
    ∃ t', (m.respond (.bulkWrite w) (n.database t)).2 = n.database t' ∧
      n.Draining us t (m.respond (.bulkWrite w) (n.database t)).1 t' := by
  cases m with
  | failure error => exact ⟨t, rfl, draining_failed error⟩
  | panic => exact ⟨t, rfl, draining_panicked⟩
  | holdBack marks =>
    -- What is sent and what is held back are the removals of two parts of the accounts.
    obtain ⟨sent, hsent, hflatSent⟩ := exists_of_unburies
      fun e (he : e ∈ (Mishap.part marks w.flatten).1) =>
        (hw e).mp (Mishap.mem_of_mem_part (.inl he))
    obtain ⟨held, hheld, hflatHeld⟩ := exists_of_unburies
      fun e (he : e ∈ (Mishap.part marks w.flatten).2) =>
        (hw e).mp (Mishap.mem_of_mem_part (.inr he))
    have hparts : us ⊆ sent ++ held := by
      intro u hu
      have hwrite := (Mishap.perm_part marks w.flatten).mem_iff.mpr
        ((hw _).mpr (unburies_iff.mpr hu))
      rw [hflatSent, hflatHeld, ← List.map_append] at hwrite
      obtain ⟨v, hv, heq⟩ := List.mem_map.mp hwrite
      exact unburies_iff.mp ⟨v, hv, heq.symm⟩
    simp only [Mishap.respond, Mishap.respondPartly, hflatSent, hflatHeld]
    split
    · next hnone =>
      obtain rfl := List.map_eq_nil_iff.mp (List.isEmpty_iff.mp hnone)
      exact ⟨t, rfl, draining_ok (drains_ofFlat held)
        ⟨hheld, [], hsent, hparts, Tables.unbury_nil.symm⟩⟩
    · cases h : (n.database t).bulkWrite (Writes.ofFlat
          (sent.map fun u => (n.name .tombstones, Write.delete (Row.uuidKey u)))) with
      | ok d =>
        obtain ⟨t', ⟨-, gone, hgone, hall, rfl⟩, rfl⟩ := drained_bulkWrite hn (drains_ofFlat sent) h
        refine ⟨_, rfl, draining_ok (drains_ofFlat held)
          ⟨hheld, gone, List.Subset.trans hgone hsent, fun u hu => ?_, rfl⟩⟩
        rw [List.append_nil] at hall
        rcases List.mem_append.mp (hparts hu) with hu | hu
        · exact List.mem_append_left _ (hall hu)
        · exact List.mem_append_right _ hu
      | error e => exact ⟨t, rfl, draining_failed e⟩

/-! ### Drains -/

variable {x : Exposure}

/-- One bulk request of a drain removes tombstones, and its remainder would remove the
    others. -/
theorem draining_of_behaviour {w : Writes} (hw : n.Drains us w) {answer : Answer Writes}
    {t' : Tables} (h : n.behaviour x (.bulkWrite w) t answer t') : n.Draining us t answer t' := by
  rcases h with h | ⟨m, -, h⟩
  · obtain ⟨t'', hd, hdraining⟩ := draining_respond hn hw (t := t)
    rw [h] at hd hdraining
    rwa [database_injective hn hd]
  · obtain ⟨t'', hd, hdraining⟩ := draining_mishap hn m hw (t := t)
    rw [h] at hd hdraining
    rwa [database_injective hn hd]

/-- A drain in one piece removes tombstones only, and all of them if no write is left. -/
theorem within_complete (settings : BulkSettings) {w : Writes} (hw : n.Drains us w)
    {post : Option (Except Store.Error BulkOutcome) → Tables → Prop}
    (hpost : ∀ o t', t.Drained us t' →
      (∀ attempts, o = some (.ok ⟨attempts, 0⟩) → ∀ u ∈ us, ¬ t'.Tombstoned u) → post o t') :
    (settings.complete w).Within (n.behaviour x) post t := by
  -- What is pending would remove the tombstones that are left.
  have hrequest : ∀ {pending t' answer t''},
      (∃ rest, n.Drains rest pending ∧ t.DrainedBut us rest t') →
      n.behaviour x (.bulkWrite pending) t' answer t'' → n.Draining us t answer t'' := by
    rintro pending t' answer t'' ⟨rest, hpending, ht'⟩ h
    obtain ⟨hdrained, hleft⟩ := draining_of_behaviour hn hpending h
    refine ⟨ht'.drained.trans (hdrained.mono ht'.1), fun left hanswer => ?_⟩
    obtain ⟨rest', hrest', ht''⟩ := hleft left hanswer
    exact ⟨rest', hrest', ht'.trans ht''⟩
  have hnothing : ∀ {rest left}, n.Drains rest left → left.flatten = [] → rest = [] := by
    intro rest left hleft hnil
    refine List.eq_nil_iff_forall_not_mem.mpr fun u hu => ?_
    have hwrite := (hleft _).mpr (unburies_iff.mpr hu)
    rw [hnil] at hwrite
    cases hwrite
  refine BulkSettings.within_complete_of_steps
    (J := fun _ pending t' => ∃ rest, n.Drains rest pending ∧ t.DrainedBut us rest t') ?_ ?_ ?_
  · constructor
    · intro _ pending t' left t'' _ hst h hempty _
      obtain ⟨hdrained, hleft⟩ := hrequest hst h
      obtain ⟨rest, hrest, ht''⟩ := hleft left rfl
      obtain rfl := hnothing hrest (Writes.isEmpty_compact.mp hempty)
      exact hpost _ _ hdrained fun _ _ u => ht''.not_tombstoned
    · intro _ pending t' left t'' _ hst h hsome _
      refine hpost _ _ (hrequest hst h).1 fun attempts ho => ?_
      have hcount : left.compact.count = 0 :=
        (BulkOutcome.mk.inj (Except.ok.inj (Option.some.inj ho))).2
      rw [Writes.count, Writes.flatten_compact] at hcount
      exact absurd (List.length_eq_zero_iff.mp hcount)
        (Writes.flatten_ne_nil_of_isEmpty_compact hsome)
    · intro _ pending t' left t'' _ hst h _
      obtain ⟨rest, hrest, ht''⟩ := (hrequest hst h).2 left rfl
      exact ⟨rest, hrest.compact, ht''⟩
    · exact fun _ hst h _ => hpost _ _ (hrequest hst h).1 fun _ ho => by cases ho
    · exact fun _ hst h => hpost _ _ (hrequest hst h).1 fun _ ho => by cases ho
    · exact fun _ hst h => hpost _ _ (hrequest hst h).1 fun _ ho => by cases ho
  · intro hnone
    obtain rfl := hnothing hw hnone
    exact hpost _ t (.refl [] t) fun _ _ u hu => absurd hu List.not_mem_nil
  · exact fun _ => ⟨us, hw.compact, .refl us t⟩

variable {q : Queue} (hq : q.table = n.name .tombstones)

include hq

/-- A drain removes tombstones only, however it ends, and all of them if its outcome is
    complete. -/
theorem within_removeAll_of_complete (us : List Uuid) {ok : BulkOutcome → Tables → Prop}
    {bad : Option RegistryError → Tables → Prop}
    (hok : ∀ outcome t', t.Drained us t' →
      (outcome.isComplete = true → ∀ u ∈ us, ¬ t'.Tombstoned u) → ok outcome t')
    (hbad : ∀ o t', t.Drained us t' → bad o t') :
    Action.Within (n.behaviour x) (q.removeAll us) t ok bad := by
  refine Action.Within.mono (Queue.within_removeAll_of_chunks
    (J := fun chunks total t' => (∀ chunk ∈ chunks, chunk ⊆ us) ∧ t.Drained us t' ∧
      (total.unprocessed = 0 → ∀ u ∈ us, u ∈ chunks.flatten ∨ ¬ t'.Tombstoned u))
    ?_ ?_) ?_ fun _ _ => id
  · rintro chunk chunks total t' ⟨hsub, ht', hgone⟩
    obtain ⟨hchunk, hrest⟩ := List.forall_mem_cons.mp hsub
    refine within_complete hn _ (drains_removal hq chunk) fun o t'' ht'' hcomplete => ?_
    have hdrained : t.Drained us t'' := ht'.trans (ht''.mono hchunk)
    match o with
    | some (.ok ⟨attempts, unprocessed⟩) =>
      dsimp only
      cases hsum : total.merge? ⟨attempts, unprocessed⟩ with
      | none => exact hbad _ t'' hdrained
      | some sum =>
      refine ⟨hrest, hdrained, fun htotal u hu => ?_⟩
      rw [(BulkOutcome.counts_of_merge? hsum).2] at htotal
      obtain ⟨hbefore, rfl⟩ := Nat.add_eq_zero_iff.mp htotal
      rcases hgone hbefore u hu with hmem | hfree
      · rcases List.mem_append.mp (List.flatten_cons ▸ hmem) with hmem | hmem
        · exact .inr (hcomplete attempts rfl u hmem)
        · exact .inl hmem
      · exact .inr (ht''.not_tombstoned hfree)
    | some (.error e) => exact hbad _ t'' hdrained
    | none => exact hbad _ t'' hdrained
  · refine ⟨fun chunk hchunk u hu => ?_, .refl us t, fun _ u hu => .inl ?_⟩
    · rw [← BulkSettings.flatten_chunks q.bulk us]
      exact List.mem_flatten_of_mem hchunk hu
    · rwa [BulkSettings.flatten_chunks]
  · rintro outcome t' ⟨-, ht', hgone⟩
    refine hok outcome t' ht' fun hcomplete u hu => ?_
    exact (hgone (beq_iff_eq.mp hcomplete) u hu).resolve_left List.not_mem_nil

/-- A drain removes tombstones only, however it ends. -/
theorem within_removeAll (us : List Uuid) {ok : BulkOutcome → Tables → Prop}
    {bad : Option RegistryError → Tables → Prop}
    (hok : ∀ outcome t', t.Drained us t' → ok outcome t')
    (hbad : ∀ o t', t.Drained us t' → bad o t') :
    Action.Within (n.behaviour x) (q.removeAll us) t ok bad :=
  within_removeAll_of_complete hn hq us (fun outcome t' ht' _ => hok outcome t' ht') hbad

/-! ### Drains that nothing befalls -/

omit hn hq in
/-- Without exposure the database answers. -/
theorem respond_of_behaviour_calm {request : Store.Request} {answer : Answer request.Reply}
    {t' : Tables} (h : n.behaviour .calm request t answer t') :
    (n.database t).respond request = (answer, n.database t') := by
  rcases h with h | ⟨m, hm, -⟩
  · exact h
  · exact (Exposure.not_calm hm).elim

/-- The store takes a removal of some entries, if they are not too many. -/
theorem bulkWrite_removal {us : List Uuid} (hlower : 1 ≤ us.length)
    (hupper : us.length ≤ maxBulkWrites) :
    (n.database t).bulkWrite (q.removal us) = .ok (n.database (t.unbury us)) := by
  have hcount : (q.removal us).count = us.length := by
    rw [Writes.count, flatten_removal hq, List.length_map]
  rw [Database.bulkWrite_eq_ok (hcount ▸ hlower) (hcount ▸ hupper) fun e he => ?_,
    flatten_removal hq, foldl_applyWrite_database hn]
  obtain rfl := List.mem_singleton.mp he
  refine ⟨_, hq ▸ get?_database hn t .tombstones, fun w hw => ?_⟩
  obtain ⟨u, -, rfl⟩ := List.mem_map.mp hw
  exact Option.isSome_iff_exists.mpr ⟨_, Row.uuid_uuidKey u⟩

/-- A drain in one piece that nothing befalls leaves no write. -/
theorem within_complete_calm (settings : BulkSettings) {us : List Uuid} (hlower : 1 ≤ us.length)
    (hupper : us.length ≤ maxBulkWrites) :
    (settings.complete (q.removal us)).Within (n.behaviour .calm)
      (fun o t' => o = some (.ok ⟨1, 0⟩) ∧ t' = t.unbury us) t := by
  simp only [BulkSettings.complete, Queue.compact_removal (List.length_pos_iff.mp hlower)]
  unfold BulkSettings.resend
  refine Script.within_bind (Script.within_bind (Script.within_send fun answer t' h => ?_))
  have hrespond := respond_of_behaviour_calm h
  simp only [Database.respond, bulkWrite_removal hn hq hlower hupper] at hrespond
  obtain ⟨rfl, hd⟩ := Prod.mk.inj hrespond
  exact ⟨rfl, (database_injective hn hd).symm⟩

/-- A drain that nothing befalls is complete, and its tombstones are gone, if its requests can be
    counted.  If not, it panics. -/
theorem within_removeAll_calm (hbulk : q.bulk.validate = .ok ()) (us : List Uuid)
    {ok : BulkOutcome → Tables → Prop} {bad : Option RegistryError → Tables → Prop}
    (hok : us.length ≤ q.bulk.maxRemovals →
      ∀ outcome, outcome.isComplete = true → ok outcome (t.unbury us))
    (hbad : q.bulk.maxRemovals < us.length → ∀ t', bad none t') :
    Action.Within (n.behaviour .calm) (q.removeAll us) t ok bad := by
  have hcounted := BulkSettings.length_chunks_lt_iff hbulk (l := us)
  refine Action.Within.mono (Queue.within_removeAll_of_chunks
    (J := fun chunks total t' => ∃ done, done ++ chunks = q.bulk.chunks us ∧
      total.attempts.toNat = done.length ∧ total.unprocessed = 0 ∧ t' = t.unbury done.flatten)
    ?_ ?_) ?_ fun _ _ => id
  · -- A chunk starts where the chunks before it have removed all of theirs.
    rintro chunk chunks total _ ⟨done, hdone, hattempts, hunprocessed, rfl⟩
    have hmem : chunk ∈ q.bulk.chunks us := hdone ▸ List.mem_append_right done List.mem_cons_self
    obtain ⟨hlower, hupper⟩ := BulkSettings.length_of_mem_chunks hbulk hmem
    refine Script.Within.mono (within_complete_calm hn hq _ hlower hupper) ?_
    rintro _ _ ⟨rfl, rfl⟩
    dsimp only
    cases hsum : total.merge? ⟨1, 0⟩ with
    | none =>
      refine hbad (Nat.lt_of_not_le (mt hcounted.mpr (Nat.not_lt.mpr ?_))) _
      have hlarge := (BulkOutcome.large_of_merge? hsum).resolve_right
        (Nat.not_le.mpr (by rw [hunprocessed]; exact UInt64.toNat_lt 0))
      rw [hattempts] at hlarge
      rw [← hdone, List.length_append, List.length_cons]
      exact Nat.le_trans hlarge (Nat.add_le_add_left (Nat.le_add_left ..) _)
    | some sum =>
      obtain ⟨hsumAttempts, hsumUnprocessed⟩ := BulkOutcome.counts_of_merge? hsum
      refine ⟨done ++ [chunk], ?_, ?_, hsumUnprocessed.trans hunprocessed, ?_⟩
      · rw [List.append_assoc, List.singleton_append, hdone]
      · rw [hsumAttempts, hattempts, List.length_append]
        rfl
      · rw [Tables.unbury_append, List.flatten_append, List.flatten_singleton]
  · exact ⟨[], rfl, rfl, rfl, Tables.unbury_nil.symm⟩
  · rintro outcome _ ⟨done, hdone, hattempts, hunprocessed, rfl⟩
    rw [List.append_nil] at hdone
    subst hdone
    rw [BulkSettings.flatten_chunks]
    exact hok (hcounted.mp (hattempts ▸ outcome.attempts.toNat_lt)) outcome
      (beq_iff_eq.mpr hunprocessed)

end valid

end TableNames

/-! ### The tombstones of contents -/

namespace Registry

variable {r : Registry} {c : Contents}

theorem Contents.tables_unbury (us : List Uuid) :
    ∃ tombstones, c.tables.unbury us = (c.withTombstones tombstones).tables := by
  induction us generalizing c with
  | nil => exact ⟨c.tombstones, Tables.unbury_nil⟩
  | cons u us ih =>
    obtain ⟨tombstones, htables⟩ := ih (c := c.withTombstones (c.tombstones.erase u))
    refine ⟨tombstones, ?_⟩
    have hfirst : c.tables.unbury [u] = (c.withTombstones (c.tombstones.erase u)).tables :=
      Contents.set_eraseTombstone c u
    rw [← List.singleton_append, ← Tables.unbury_append, hfirst, htables]
    rfl

/-- A drain changes the tombstones only, however it ends. -/
theorem leads_removeAll (hr : Function.Injective r.config.tables.name)
    {exposed : Operation → String → Bool} (us : List Uuid) {ok : BulkOutcome → Contents → Prop}
    {bad : Option RegistryError → Contents → Prop}
    (hok : ∀ outcome tombstones, ok outcome (c.withTombstones tombstones))
    (hbad : ∀ o tombstones, bad o (c.withTombstones tombstones)) :
    r.Leads exposed (r.tombstones.removeAll us) c ok bad := by
  refine leads_of_within hr (TableNames.within_removeAll hr rfl us ?_ ?_)
  · rintro outcome _ ⟨gone, -, rfl⟩
    obtain ⟨tombstones, htables⟩ := Contents.tables_unbury gone (c := c)
    exact ⟨_, htables, hok outcome tombstones⟩
  · rintro o _ ⟨gone, -, rfl⟩
    obtain ⟨tombstones, htables⟩ := Contents.tables_unbury gone (c := c)
    exact ⟨_, htables, hbad o tombstones⟩

end Registry

end LoginRegistry
