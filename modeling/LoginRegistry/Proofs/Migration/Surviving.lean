import LoginRegistry.Proofs.Migration.Batching
import LoginRegistry.Proofs.Migration.Bindings
import LoginRegistry.Proofs.Migration.Paging
import LoginRegistry.Proofs.Registry.Refinement
import LoginRegistry.Proofs.Registry.Stepwise

/-! # Accounts that come back

    A delete leaves a tombstone, which stays until a sweep, whether or not the delete was
    complete.  A create looks at no tombstones.  So an account that is created once more
    under the id of a deleted one survives every job but a delete, up to the first sweep:
    that removes it if the tombstone is still there (`created_survives_iff`).

    The argument is about the abstract directory, on which a sweep is one function
    (`Directory.sweep`, `run_reconcile`).
-/

namespace LoginRegistry

open Store (Database)

namespace Directory

variable {m m' : Directory} {u v : Uuid} {login : String}

/-! ### Sweeps -/

/-- The account has a tombstone. -/
def Buried (m : Directory) (u : Uuid) : Prop := (m.tombstones.get? u).isSome = true

instance (m : Directory) (u : Uuid) : Decidable (m.Buried u) :=
  inferInstanceAs (Decidable (_ = true))

/-- Removes the accounts that have a tombstone, and then the tombstones. -/
def sweep (m : Directory) : Directory :=
  { m.tombstones.keys.foldl erase m with tombstones := .empty }

theorem ext_get? (haccounts : ∀ u, m.accounts.get? u = m'.accounts.get? u)
    (htombstones : m.tombstones = m'.tombstones) (hversion : m.version = m'.version) : m = m' := by
  have haccounts := AccountMap.ext_get? haccounts
  cases m
  cases m'
  simp only at haccounts htombstones hversion
  subst haccounts htombstones hversion
  rfl

theorem get?_foldl_erase (us : List Uuid) (m : Directory) (v : Uuid) :
    (us.foldl erase m).accounts.get? v = if v ∈ us then none else m.accounts.get? v := by
  induction us generalizing m with
  | nil => rw [List.foldl_nil, if_neg List.not_mem_nil]
  | cons u us ih =>
    have hfirst : (m.erase u).accounts.get? v = if v = u then none else m.accounts.get? v :=
      AccountMap.get?_erase _ _ _
    rw [List.foldl_cons, ih, hfirst]
    by_cases hmem : v ∈ us
    · rw [if_pos hmem, if_pos (List.mem_cons_of_mem u hmem)]
    · simp only [if_neg hmem, List.mem_cons, or_iff_left hmem]

theorem version_foldl_erase (us : List Uuid) (m : Directory) :
    (us.foldl erase m).version = m.version := by
  induction us generalizing m with
  | nil => rfl
  | cons u us ih => exact ih (m.erase u)

/-- A sweep removes an account exactly if it has a tombstone. -/
theorem get?_sweep (m : Directory) (u : Uuid) :
    m.sweep.accounts.get? u = if m.Buried u then none else m.accounts.get? u := by
  have hfold := get?_foldl_erase m.tombstones.keys m u
  simp only [SortedMap.mem_keys_iff] at hfold
  exact hfold

theorem get?_remove (m : Directory) (u v : Uuid) (version : Option Int64) :
    (m.remove u version).accounts.get? v = if v = u then none else m.accounts.get? v := by
  rw [remove]
  split
  · exact AccountMap.get?_erase _ _ _
  · next hnone =>
    split
    · next hv => rw [hv, Option.not_isSome_iff_eq_none.mp hnone]
    · rfl

theorem tombstones_remove (m : Directory) (u : Uuid) (version : Option Int64) :
    (m.remove u version).tombstones = m.tombstones := by
  rw [remove]
  split <;> rfl

/-- A removal stores the version that it brings. -/
theorem version_remove_none (m : Directory) (u : Uuid) :
    (m.remove u none).version = m.version := by
  rw [remove]
  split <;> rfl

/-- A sweep of `m` is under way. -/
structure Sweeping (m m' : Directory) : Prop where
  /-- Accounts with a tombstone may be gone. -/
  accounts : ∀ u, m'.accounts.get? u = m.accounts.get? u ∨ m.Buried u ∧ m'.accounts.get? u = none
  /-- There is no new tombstone. -/
  buried : ∀ u, m'.Buried u → m.Buried u
  /-- An account whose tombstone is drained is gone. -/
  queued : ∀ u, m.Buried u → m'.accounts.get? u = none ∨ m'.Buried u
  version : m'.version = m.version

namespace Sweeping

theorem refl (m : Directory) : m.Sweeping m := ⟨fun _ => .inl rfl, fun _ => id, fun _ => .inr, rfl⟩

theorem remove (h : m.Sweeping m') (hu : m.Buried u) : m.Sweeping (m'.remove u none) where
  accounts v := by
    rw [get?_remove]
    split
    · next hv => exact .inr ⟨hv ▸ hu, rfl⟩
    · exact h.accounts v
  buried v hv := by
    rw [Buried, tombstones_remove] at hv
    exact h.buried v hv
  queued v hv := by
    rw [Buried, tombstones_remove, get?_remove]
    split
    · exact .inl rfl
    · exact h.queued v hv
  version := (version_remove_none m' u).trans h.version

/-- Tombstones of accounts that are gone are drained. -/
theorem drain (h : m.Sweeping m') {tombstones : SortedMap Uuid Unit}
    (hsub : ∀ u, (tombstones.get? u).isSome = true → m'.Buried u)
    (hgone : ∀ u, m'.Buried u → m'.accounts.get? u = none ∨ (tombstones.get? u).isSome = true) :
    m.Sweeping { m' with tombstones := tombstones } where
  accounts := h.accounts
  buried u hu := h.buried u (hsub u hu)
  queued u hu := (h.queued u hu).elim .inl (hgone u)
  version := h.version

/-- Once no tombstone is left, the sweep is over. -/
theorem eq_sweep (h : m.Sweeping m') (hempty : m'.tombstones = .empty) : m' = m.sweep := by
  have hnone : ∀ u, ¬ m'.Buried u := by
    intro u hu
    rw [Buried, hempty, SortedMap.get?_empty] at hu
    cases hu
  refine ext_get? (fun u => ?_) hempty (h.version.trans (version_foldl_erase _ m).symm)
  rw [get?_sweep]
  split
  · next hu => exact (h.queued u hu).resolve_right (hnone u)
  · next hu => exact (h.accounts u).resolve_right fun hgone => hu hgone.1

end Sweeping

/-! ### Jobs -/

/-- What is left after a call or a sweep. -/
def work (m : Directory) : Job → Directory
  | .call call => (m.step call).2
  | .reconcile => m.sweep
  | .migrate .. | .migrateBatch .. | .redrive .. => m

end Directory

namespace Registry

variable {r : Registry} {m m' : Directory}

/-! ### The sweep of a registry -/

theorem tombstoned_contents {u : Uuid} : m.contents.tables.Tombstoned u ↔ m.Buried u := by
  rw [Tables.Tombstoned, Contents.get?_tombstones, Option.isSome_map]
  rfl

theorem accountRow?_contents_eq_none {u : Uuid} :
    m.contents.tables.accountRow? u = none ↔ m.accounts.get? u = none := by
  rw [Contents.accountRow?_tables, Option.map_eq_none_iff]
  rfl

section valid

variable (hr : Function.Injective r.config.tables.name)

include hr

/-- A delete of a sweep removes its account, if it is there. -/
theorem within_deleteWith_directory (m : Directory) (u : Uuid) :
    (r.deleteWith u .reconcile).Within (r.config.tables.behaviour .calm) m.contents.tables
      (fun _ t => t = (m.remove u none).contents.tables) fun _ _ => False := by
  have hstart : m.contents.tables
      = if DeleteOptions.reconcile.tombstone then m.contents.tables.bury u else m.contents.tables :=
    rfl
  apply within_deleteWith hr (Exposure.isGenuine_genuine _) hstart
  · intro hrow
    rw [Directory.remove_of_none (accountRow?_contents_eq_none.mp hrow),
      Contents.releaseRecorded_tables]
    rfl
  · intro row a hrow ha
    obtain ⟨hfound, -⟩ := m.contents.get?_of_accountRow? hrow ha
    rw [Directory.contents_remove hfound, Contents.setVersion?_tables, ← Contents.set_erase,
      ← Contents.release_tables]
    rfl
  · intro row e hrow he
    obtain ⟨a, ha⟩ := m.contents.proper_tables.restorable u row hrow
    rw [ha] at he
    cases he
  · exact fun _ _ _ hm _ => Exposure.not_calm hm
  · exact fun _ _ _ hm _ _ _ => Exposure.not_calm hm

/-- While a sweep is under way, the tables are those of a directory. -/
theorem sweepable_directory (m : Directory) :
    Sweepable r .calm (fun t => ∃ m', t = m'.contents.tables ∧ m.Sweeping m')
      fun t u => t.accountRow? u = none where
  keyed := by
    rintro _ ⟨m', rfl, -⟩
    exact m'.contents.proper_tables.keyed
  delete := by
    rintro _ u ⟨m', rfl, h⟩ hburied
    have hu : m.Buried u := h.buried u (tombstoned_contents.mp hburied)
    refine Action.Within.mono (within_deleteWith_directory hr m' u) ?_ fun _ _ => False.elim
    rintro - _ rfl
    refine ⟨⟨_, rfl, h.remove hu⟩, ?_, fun v hv => ?_⟩
    · simp only [Contents.tables, Directory.contents, Directory.tombstones_remove]
    · rw [accountRow?_contents_eq_none, Directory.get?_remove]
      split
      · rfl
      · next hne => exact accountRow?_contents_eq_none.mp (hv.resolve_left hne)
  unbury := by
    rintro _ us ⟨m', rfl, h⟩ hgone
    obtain ⟨tombstones, htables⟩ := Contents.tables_unbury us (c := m'.contents)
    -- What is left is a directory with fewer tombstones.
    set left : Directory := { m' with tombstones := tombstones }
    have hleft : m'.contents.tables.unbury us = left.contents.tables := htables
    have hburied : ∀ u, left.Buried u ↔ m'.Buried u ∧ u ∉ us := by
      intro u
      rw [← tombstoned_contents, ← hleft, Tables.tombstoned_unbury, tombstoned_contents]
    refine ⟨left, hleft, h.drain (fun u hu => ((hburied u).mp hu).1) fun u hu => ?_⟩
    by_cases hmem : u ∈ us
    · exact .inl (accountRow?_contents_eq_none.mp (hgone u hmem))
    · exact .inr ((hburied u).mpr ⟨hu, hmem⟩)

variable (hbulk : r.config.bulk.validate = .ok ())
  (hpage : r.config.migration.reconcilePageSize.toNat ≤ r.config.bulk.maxRemovals)

include hbulk hpage

/-- A sweep that nothing befalls succeeds, and its tables are those of the swept
    directory. -/
theorem run_reconcile (m : Directory) :
    let run := r.reconcile.run Database.handler (r.store m.contents)
    (∃ swept, run.result = some (.ok swept)) ∧ run.state = r.store m.sweep.contents := by
  intro run
  obtain ⟨_, hstate, hresult, ⟨m', rfl, hswept⟩, hempty⟩ := Script.run_of_within
    (TableNames.obeys_database hr .calm)
    ((sweepable_directory hr m).within_reconcile_calm hr hbulk ⟨m, rfl, .refl m⟩
      (.of_pageSize hpage _)) rfl
  refine ⟨hresult, hstate.trans ?_⟩
  rw [← hswept.eq_sweep ?_]
  · rfl
  · -- No tombstone row is left, so no tombstone is.
    apply SortedMap.ext_get?
    intro u
    have hnone : ¬ m'.Buried u :=
      mt tombstoned_contents.mpr (Tables.not_tombstoned_of_empty hempty u)
    rw [SortedMap.get?_empty, ← Option.not_isSome_iff_eq_none]
    exact hnone

/-- Calls and sweeps leave the contents of what they leave of the directory. -/
theorem leaves_store (m : Directory) {jobs : List Job} (hjobs : ∀ job ∈ jobs, job.isSteady = true) :
    r.leaves jobs (r.store m.contents) = r.store (jobs.foldl Directory.work m).contents := by
  induction jobs generalizing m with
  | nil => rfl
  | cons job jobs ih =>
    obtain ⟨hjob, hrest⟩ := List.forall_mem_cons.mp hjobs
    have hfirst : ((r.work job).run Database.handler (r.store m.contents)).state
        = r.store (m.work job).contents := by
      cases job with
      | call call =>
        exact (Script.state_run_discard _ (r.perform call).run _).trans
          (matches_perform hr m call).run.2
      | reconcile =>
        exact (Script.state_run_discard _ r.reconcile _).trans (run_reconcile hr hbulk hpage m).2
      | migrate | migrateBatch | redrive => cases hjob
    exact (congrArg (r.leaves jobs) hfirst).trans (ih _ hrest)

end valid

end Registry

/-! ### Jobs on an account -/

/-- The job leaves the tombstone of an account. -/
def Job.Buries (u : Uuid) : Job → Prop
  | .call (.delete v _) => v = u
  | .call (.deleteWith v options) => v = u ∧ options.tombstone = true
  | _ => False

/-- One of the jobs has left the tombstone of an account, and none after it was a sweep. -/
def Job.Pending (u : Uuid) (jobs : List Job) : Prop :=
  ∃ front job rest, jobs = front ++ job :: rest ∧ job.Buries u ∧ .reconcile ∉ rest

theorem Job.Buries.deletes {u : Uuid} {job : Job} (h : job.Buries u) : job.Deletes u := by
  cases job with
  | call call =>
    cases call with
    | delete v version => exact h
    | deleteWith v options => exact h.1
    | create | update | getByUuid | getByLogin | directoryVersion => exact h.elim
  | reconcile | migrate | migrateBatch | redrive => exact h.elim

theorem Job.Pending.append {u : Uuid} {jobs rest : List Job} (h : Pending u jobs)
    (hrest : .reconcile ∉ rest) : Pending u (jobs ++ rest) := by
  obtain ⟨front, burial, later, rfl, hburies, hlater⟩ := h
  refine ⟨front, burial, later ++ rest, by rw [List.append_assoc, List.cons_append], hburies, ?_⟩
  exact List.not_mem_append hlater hrest

theorem Job.pending_concat {u : Uuid} {jobs : List Job} {job : Job} :
    Pending u (jobs ++ [job]) ↔ job.Buries u ∨ job ≠ .reconcile ∧ Pending u jobs := by
  constructor
  · rintro ⟨front, burial, rest, heq, hburies, hrest⟩
    rcases List.eq_nil_or_concat rest with rfl | ⟨rest, last, rfl⟩
    · obtain ⟨-, hlast⟩ := List.append_inj' heq rfl
      exact .inl (List.singleton_injective hlast ▸ hburies)
    · rw [List.concat_eq_append] at heq hrest
      rw [← List.cons_append, ← List.append_assoc] at heq
      obtain ⟨hjobs, hlast⟩ := List.append_inj' heq rfl
      obtain rfl := List.singleton_injective hlast
      refine .inr ⟨?_, front, burial, rest, hjobs, hburies, ?_⟩
      · rintro rfl
        exact hrest (List.mem_append_right _ List.mem_cons_self)
      · exact fun hmem => hrest (List.mem_append_left _ hmem)
  · rintro (hburies | ⟨hjob, hpending⟩)
    · exact ⟨jobs, job, [], rfl, hburies, List.not_mem_nil⟩
    · exact hpending.append (mt List.mem_singleton.mp hjob.symm)

namespace Directory

variable {m m' : Directory} {u v : Uuid} {login : String} {job : Job} {jobs : List Job}

theorem tombstones_create (m : Directory) (a : Account) (version : Int64) :
    (m.create a version).2.tombstones = m.tombstones := by
  unfold create
  split
  · rfl
  · split <;> rfl

theorem tombstones_update (m : Directory) (a : Account) :
    (m.update a).2.tombstones = m.tombstones := by
  unfold update
  split <;> rfl

theorem buried_bury : (m.bury v).Buried u ↔ u = v ∨ m.Buried u := by
  rw [Buried, bury, SortedMap.get?_insert_eq]
  split
  · next hu => exact iff_of_true rfl (.inl hu)
  · next hu => exact (or_iff_right hu).symm

theorem buried_delete {options : DeleteOptions} :
    (m.delete v options).Buried u ↔ v = u ∧ options.tombstone = true ∨ m.Buried u := by
  rw [Buried, delete, tombstones_remove]
  split
  · next htombstone => exact buried_bury.trans (by simp only [htombstone, and_true, eq_comm])
  · next htombstone => exact (or_iff_right fun h => htombstone h.2).symm

/-- Deletes leave tombstones, sweeps drain them, and nothing else touches them. -/
theorem buried_work : (m.work job).Buried u ↔ job.Buries u ∨ job ≠ .reconcile ∧ m.Buried u := by
  have hsame : (m.work job).tombstones = m.tombstones → ¬ job.Buries u → job ≠ .reconcile →
      ((m.work job).Buried u ↔ job.Buries u ∨ job ≠ .reconcile ∧ m.Buried u) := by
    intro htombstones hburies hjob
    rw [Buried, htombstones, or_iff_right hburies, and_iff_right hjob]
    rfl
  cases job with
  | reconcile =>
    refine iff_of_false ?_ ?_
    · rw [work, Buried, sweep, SortedMap.get?_empty]
      exact nofun
    · rintro (hburies | ⟨hjob, -⟩)
      · exact hburies
      · exact hjob rfl
  | migrate | migrateBatch | redrive => exact hsame rfl id nofun
  | call call =>
    cases call with
    | create a version => exact hsame (tombstones_create m a version) id nofun
    | update a => exact hsame (tombstones_update m a) id nofun
    | delete v version =>
      refine buried_delete.trans (or_congr (and_iff_left rfl) ?_)
      exact (and_iff_right nofun).symm
    | deleteWith v options => exact buried_delete.trans (or_congr_right (and_iff_right nofun).symm)
    | getByUuid | getByLogin | directoryVersion => exact hsame rfl id nofun

/-- On a fresh directory the accounts with a tombstone are those with a pending one. -/
theorem buried_foldl_work :
    (jobs.foldl work empty).Buried u ↔ Job.Pending u jobs := by
  induction jobs using List.reverseRecOn with
  | nil =>
    refine iff_of_false nofun ?_
    rintro ⟨front, job, rest, heq, -⟩
    exact List.append_ne_nil_of_right_ne_nil _ (List.cons_ne_nil _ _) heq.symm
  | append_singleton jobs job ih =>
    rw [List.foldl_append, List.foldl_cons, List.foldl_nil, buried_work, ih, Job.pending_concat]

/-- There is an account of the id, and it has the login. -/
def Has (m : Directory) (u : Uuid) (login : String) : Prop :=
  ∃ b, m.accounts.get? u = some b ∧ b.login = login

/-- An account that is stored in place of one of its login has the login. -/
theorem Has.of_put {a : Account} (h : m.Has u login)
    (haccounts : m'.accounts = m.accounts.put a) (hown : a.uuid = u → a.login = login) :
    m'.Has u login := by
  by_cases hu : u = a.uuid
  · exact ⟨a, by rw [haccounts, hu, AccountMap.get?_put_self], hown hu.symm⟩
  · obtain ⟨b, hb, hlogin⟩ := h
    exact ⟨b, by rw [haccounts, AccountMap.get?_put_ne _ hu, hb], hlogin⟩

theorem Has.revise {b : Account} (h : m.Has u login) (a : Account)
    (hb : m.accounts.get? b.uuid = some b) : (m.revise b a hb).Has u login := by
  refine h.of_put rfl fun hu => ?_
  obtain ⟨b', hb', hlogin⟩ := h
  rw [show b.uuid = u from hu, hb'] at hb
  exact Option.some.inj hb ▸ hlogin

theorem Has.create (h : m.Has u login) (a : Account) (version : Int64) :
    (m.create a version).2.Has u login := by
  unfold Directory.create
  split
  · exact h
  · next hfits =>
    split
    · -- The account was there already if it has this id, and its login is the same.
      refine h.of_put rfl fun hu => ?_
      obtain ⟨b, hb, rfl⟩ := h
      rw [hu, hb, Option.any_some, decide_eq_true_iff, not_not] at hfits
      exact hfits.symm
    · next b hrival => exact h.revise a ((m.rival?_eq_some_iff a b).mp hrival).1

theorem Has.update (h : m.Has u login) (a : Account) : (m.update a).2.Has u login := by
  unfold Directory.update
  split
  · exact h
  · next b hb => exact h.revise a (by rwa [AccountMap.uuid_eq hb])

theorem Has.delete (h : m.Has u login) (hv : v ≠ u) (options : DeleteOptions) :
    (m.delete v options).Has u login := by
  obtain ⟨b, hb, hlogin⟩ := h
  refine ⟨b, ?_, hlogin⟩
  rw [Directory.delete, get?_remove, if_neg hv.symm]
  split
  · exact hb
  · exact hb

/-- An account keeps its id and login under every job but a delete, or a sweep while it has
    a tombstone. -/
theorem Has.work (h : m.Has u login) (hkept : ¬ job.Deletes u)
    (hswept : job = .reconcile → ¬ m.Buried u) : (m.work job).Has u login := by
  cases job with
  | reconcile =>
    obtain ⟨b, hb, hlogin⟩ := h
    exact ⟨b, by rw [Directory.work, get?_sweep, if_neg (hswept rfl), hb], hlogin⟩
  | migrate | migrateBatch | redrive => exact h
  | call call =>
    cases call with
    | create a version => exact h.create a version
    | update a => exact h.update a
    | delete v version => exact h.delete hkept _
    | deleteWith v options => exact h.delete hkept options
    | getByUuid | getByLogin | directoryVersion => exact h

theorem Has.foldl_work (h : m.Has u login) (hkept : ∀ job ∈ jobs, ¬ job.Deletes u)
    (hswept : .reconcile ∈ jobs → ¬ m.Buried u) : (jobs.foldl Directory.work m).Has u login := by
  induction jobs generalizing m with
  | nil => exact h
  | cons job jobs ih =>
    obtain ⟨hjob, hrest⟩ := List.forall_mem_cons.mp hkept
    refine ih (h.work hjob fun heq => hswept (heq ▸ List.mem_cons_self)) hrest fun hmem => ?_
    rw [buried_work, not_or]
    exact ⟨mt Job.Buries.deletes hjob,
      fun hburied => hswept (List.mem_cons_of_mem _ hmem) hburied.2⟩

/-- An account that is created has its login. -/
theorem has_of_created {a : Account} {version : Int64}
    (h : (m.create a version).1 = .ok .created) : (m.create a version).2.Has a.uuid a.login := by
  unfold Directory.create at h ⊢
  split at h
  · cases h
  · next hfits =>
    rw [if_neg hfits]
    split at h
    · exact ⟨a, AccountMap.get?_put_self _ _, rfl⟩
    · cases h

/-- An account whose id and login are new is created. -/
theorem created_of_new {a : Account} (hrow : m.accounts.get? a.uuid = none)
    (hrival : m.rival? a = none) (version : Int64) : (m.create a version).1 = .ok .created := by
  rw [create_of_not_rival ?_ hrival]
  intro b hb
  rw [hrow] at hb
  cases hb

/-- Nobody has a login whose account is swept. -/
theorem withLogin?_sweep (h : m.Has u login) (hburied : m.Buried u) :
    m.sweep.withLogin? login = none := by
  rw [Option.eq_none_iff_forall_ne_some]
  intro b hb
  obtain ⟨hget, hlogin⟩ := (m.sweep.withLogin?_eq_some_iff login b).mp hb
  rw [get?_sweep] at hget
  split at hget
  · cases hget
  · next hnot =>
    obtain ⟨b', hb', hlogin'⟩ := h
    rw [m.unique hget hb' (hlogin.trans hlogin'.symm)] at hnot
    exact hnot hburied

end Directory

/-! ### Reads -/

namespace Registry

variable {r : Registry} {m : Directory} {u : Uuid} {login : String} {a : Account}
  {before after : List Job}

/-- Both reads find the account of the id, and it has the login. -/
def Finds (r : Registry) (d : Database) (u : Uuid) (login : String) : Prop :=
  ∃ b, ((r.getByUuid u).run.run Database.handler d).result = some (.ok (some b)) ∧
    ((r.getByLogin login).run.run Database.handler d).result = some (.ok (some b)) ∧
    b.uuid = u ∧ b.login = login

/-- Both reads succeed and find nothing. -/
def Misses (r : Registry) (d : Database) (u : Uuid) (login : String) : Prop :=
  ((r.getByUuid u).run.run Database.handler d).result = some (.ok none) ∧
    ((r.getByLogin login).run.run Database.handler d).result = some (.ok none)

theorem Finds.not_misses {d : Database} (h : r.Finds d u login) : ¬ r.Misses d u login := by
  rintro ⟨hnone, -⟩
  obtain ⟨b, hb, -⟩ := h
  rw [hb] at hnone
  cases hnone

section valid

variable (hr : Function.Injective r.config.tables.name)

include hr

theorem result_getByUuid (m : Directory) (u : Uuid) :
    ((r.getByUuid u).run.run Database.handler (r.store m.contents)).result
      = some (.ok (m.accounts.get? u)) := by
  have hget : r.Matches m (r.getByUuid u) (.ok (m.accounts.get? u), m) :=
    leads_timed (leads_accounts_get hr ⟨rfl, rfl⟩ nofun)
  exact hget.run.1

theorem finds_of_has (h : m.Has u login) : r.Finds (r.store m.contents) u login := by
  obtain ⟨b, hb, hlogin⟩ := h
  have huuid : b.uuid = u := AccountMap.uuid_eq hb
  have hfound : m.withLogin? login = some b :=
    (m.withLogin?_eq_some_iff login b).mpr ⟨huuid ▸ hb, hlogin⟩
  refine ⟨b, ?_, ?_, huuid, hlogin⟩
  · rw [result_getByUuid hr, hb]
  · rw [(matches_getByLogin hr m login).run.1, hfound]

/-- A sweep removes an account that has a tombstone. -/
theorem misses_sweep (h : m.Has u login) (hburied : m.Buried u) :
    r.Misses (r.store m.sweep.contents) u login := by
  constructor
  · rw [result_getByUuid hr, Directory.get?_sweep, if_pos hburied]
  · rw [(matches_getByLogin hr m.sweep login).run.1, Directory.withLogin?_sweep h hburied]

/-- An account that is created while it has a tombstone is found until the next sweep. -/
theorem create_of_buried (hbulk : r.config.bulk.validate = .ok ())
    (hpage : r.config.migration.reconcilePageSize.toNat ≤ r.config.bulk.maxRemovals)
    (hrow : m.accounts.get? a.uuid = none) (hrival : m.rival? a = none) (hburied : m.Buried a.uuid)
    (version : Int64) :
    let created := (r.create a version).run.run Database.handler (r.store m.contents)
    created.result = some (.ok .created) ∧ r.Finds created.state a.uuid a.login ∧
      r.Misses (r.leaves [.reconcile] created.state) a.uuid a.login := by
  intro created
  have hcreate := Directory.created_of_new hrow hrival version
  have hhas := Directory.has_of_created hcreate
  obtain ⟨hresult, hstate⟩ := (matches_create hr m a version).run
  refine ⟨hresult.trans (congrArg some hcreate), ?_, ?_⟩
  · rw [hstate]
    exact finds_of_has hr hhas
  · rw [hstate, leaves_store hr hbulk hpage _ (by decide)]
    refine misses_sweep hr hhas ?_
    rw [Directory.Buried, Directory.tombstones_create]
    exact hburied

end valid

/-- On a fresh registry calls and sweeps leave what they leave of the empty directory. -/
theorem leaves_fresh {config : Config} (h : ofConfig config = .ok r)
    (hpage : config.migration.reconcilePageSize.toNat ≤ config.bulk.maxRemovals) {jobs : List Job}
    (hjobs : ∀ job ∈ jobs, job.isSteady = true) :
    r.leaves jobs (Testbed.ofTables config.tables).database
      = r.store (jobs.foldl Directory.work .empty).contents := by
  obtain ⟨rfl, -, hbulk⟩ := validate_of_ofConfig h
  obtain ⟨-, hr⟩ := name_injective_of_ofConfig h
  rw [store_empty hr, ← Directory.contents_empty, leaves_store hr hbulk hpage _ hjobs]

/-- An account is created on what calls and sweeps have left, and calls and sweeps without a
    delete of its id go on from there.  The page size is one that a sweep can drain.

    * It is found by its id and by its login at all times if and only if no tombstone of the
      id was pending when it was created, or there is no sweep after that.
    * If one was pending, the first sweep removes the account. -/
theorem created_survives_iff {config : Config} (h : ofConfig config = .ok r)
    (hpage : config.migration.reconcilePageSize.toNat ≤ config.bulk.maxRemovals) {version : Int64}
    (hbefore : ∀ job ∈ before, job.isSteady = true)
    (hafter : ∀ job ∈ after, job.isSteady = true ∧ ¬ job.Deletes a.uuid)
    (hcreated : ((r.create a version).run.run Database.handler
      (r.leaves before (Testbed.ofTables config.tables).database)).result = some (.ok .created)) :
    let left (jobs : List Job) := r.leaves (before ++ .call (.create a version) :: jobs)
      (Testbed.ofTables config.tables).database
    ((∀ done, done <+: after → r.Finds (left done) a.uuid a.login) ↔
        ¬ (Job.Pending a.uuid before ∧ .reconcile ∈ after)) ∧
      (Job.Pending a.uuid before → ∀ quiet, quiet ++ [.reconcile] <+: after →
        .reconcile ∉ quiet → r.Misses (left (quiet ++ [.reconcile])) a.uuid a.login) := by
  obtain ⟨rfl, -, hbulk⟩ := validate_of_ofConfig h
  obtain ⟨-, hr⟩ := name_injective_of_ofConfig h
  intro left
  have hjobs : ∀ done, done <+: after →
      ∀ job ∈ before ++ Job.call (.create a version) :: done, job.isSteady = true := by
    intro done hdone job hjob
    rcases List.mem_append.mp hjob with hjob | hjob
    · exact hbefore job hjob
    · rcases List.mem_cons.mp hjob with rfl | hjob
      · rfl
      · exact (hafter job (hdone.subset hjob)).1
  -- The account is there when it is created, and its tombstone is if one is pending.
  set m := before.foldl Directory.work .empty with hm
  rw [leaves_fresh h hpage hbefore, (matches_create hr m a version).run.1] at hcreated
  have hhas : (m.create a version).2.Has a.uuid a.login :=
    Directory.has_of_created (Option.some.inj hcreated)
  have hleft : ∀ done, done <+: after → left done
      = r.store (done.foldl Directory.work (m.create a version).2).contents := by
    intro done hdone
    have hrun := leaves_fresh h hpage (hjobs done hdone)
    rw [List.foldl_append] at hrun
    exact hrun
  have hburied : ∀ rest, (rest.foldl Directory.work (m.create a version).2).Buried a.uuid ↔
      Job.Pending a.uuid (before ++ .call (.create a version) :: rest) := by
    intro rest
    rw [← Directory.buried_foldl_work, List.foldl_append]
    rfl
  have hswept : Job.Pending a.uuid before → ∀ quiet, quiet ++ [.reconcile] <+: after →
      .reconcile ∉ quiet → r.Misses (left (quiet ++ [.reconcile])) a.uuid a.login := by
    intro hpending quiet hpart hquiet
    have hkept : ∀ job ∈ quiet, ¬ job.Deletes a.uuid := fun job hjob =>
      (hafter job (hpart.subset (List.mem_append_left _ hjob))).2
    rw [hleft _ hpart, List.foldl_append]
    refine misses_sweep hr (hhas.foldl_work hkept fun hmem => absurd hmem hquiet) ?_
    exact (hburied quiet).mpr (hpending.append (List.not_mem_cons_of_ne_of_not_mem nofun hquiet))
  refine ⟨⟨?_, ?_⟩, hswept⟩
  · rintro hall ⟨hpending, hmem⟩
    obtain ⟨quiet, rest, rfl, hquiet⟩ := List.eq_append_cons_of_mem hmem
    have hpart : quiet ++ [.reconcile] <+: quiet ++ .reconcile :: rest :=
      ⟨rest, by rw [List.append_assoc, List.singleton_append]⟩
    exact (hall _ hpart).not_misses (hswept hpending quiet hpart hquiet)
  · intro hnot done hdone
    rw [hleft done hdone]
    refine finds_of_has hr (hhas.foldl_work (fun job hjob => (hafter job (hdone.subset hjob)).2) ?_)
    intro hmem hfirst
    have hpending := (hburied []).mp hfirst
    rw [Job.pending_concat] at hpending
    exact hnot ⟨(hpending.resolve_left id).2, hdone.subset hmem⟩

/-- The tombstone is drained before the account is created once more, so the next sweep
    leaves it. -/
theorem created_survives_iff_default :
    let a : Account := ⟨⟨.replicate 16 1, rfl⟩, "+1", 0, {}⟩
    let r : Registry := ⟨{}⟩
    let fresh := (Testbed.ofTables ({} : Config).tables).database
    let before : List Job := [.call (.create a 1), .call (.delete a.uuid 2), .reconcile]
    let after : List Job := [.call (.update a), .reconcile]
    ofConfig {} = .ok r ∧
      ({} : Config).migration.reconcilePageSize.toNat ≤ ({} : Config).bulk.maxRemovals ∧
      (∀ job ∈ before, job.isSteady = true) ∧
      (∀ job ∈ after, job.isSteady = true ∧ ¬ job.Deletes a.uuid) ∧
      ((r.create a 3).run.run Database.handler (r.leaves before fresh)).result
        = some (.ok .created) ∧
      ¬ Job.Pending a.uuid before ∧
      r.Finds (r.leaves (before ++ .call (.create a 3) :: after) fresh) a.uuid a.login := by
  intro a r fresh before after
  have hconfig : ofConfig {} = .ok r := rfl
  have hpage : ({} : Config).migration.reconcilePageSize.toNat ≤ ({} : Config).bulk.maxRemovals := by
    decide
  have hbefore : ∀ job ∈ before, job.isSteady = true := by
    unfold before
    decide
  have hafter : ∀ job ∈ after, job.isSteady = true ∧ ¬ job.Deletes a.uuid := by
    intro job hjob
    simp only [after, List.mem_cons, List.not_mem_nil, or_false] at hjob
    rcases hjob with rfl | rfl <;> exact ⟨rfl, id⟩
  have hcreated : ((r.create a 3).run.run Database.handler (r.leaves before fresh)).result
      = some (.ok .created) := by
    obtain ⟨m, hm⟩ : ∃ m, m = before.foldl Directory.work .empty := ⟨_, rfl⟩
    have hnew : m.accounts.get? a.uuid = none ∧ m.rival? a = none := by
      rw [hm]
      unfold before a
      decide +kernel
    rw [leaves_fresh hconfig hpage hbefore, ← hm,
      (matches_create (name_injective_of_ofConfig hconfig).2 m a 3).run.1,
      Directory.created_of_new hnew.1 hnew.2]
  have hpending : ¬ Job.Pending a.uuid before := by
    unfold before
    rw [← Directory.buried_foldl_work]
    decide +kernel
  refine ⟨hconfig, hpage, hbefore, hafter, hcreated, hpending, ?_⟩
  exact (created_survives_iff hconfig hpage hbefore hafter hcreated).1.mpr
    (fun h => hpending h.1) after (List.prefix_refl after)

/-- An account is created, deleted and created once more, which succeeds.  A sweep removes
    it, and neither its id nor its login finds it any more. -/
theorem sweep_removes_recreated :
    let a : Account := ⟨⟨.replicate 16 1, rfl⟩, "+1", 0, {}⟩
    let r : Registry := ⟨{}⟩
    let fresh := (Testbed.ofTables ({} : Config).tables).database
    let deleted := r.leaves [.call (.create a 1), .call (.delete a.uuid 2)] fresh
    let created := (r.create a 3).run.run Database.handler deleted
    created.result = some (.ok .created) ∧ r.Finds created.state a.uuid a.login ∧
      r.Misses (r.leaves [.reconcile] created.state) a.uuid a.login := by
  intro a r fresh deleted created
  have hconfig : ofConfig {} = .ok r := rfl
  obtain ⟨-, -, hbulk⟩ := validate_of_ofConfig hconfig
  obtain ⟨-, hr⟩ := name_injective_of_ofConfig hconfig
  obtain ⟨m, hm⟩ : ∃ m, m = List.foldl Directory.work .empty
    [.call (.create a 1), .call (.delete a.uuid 2)] := ⟨_, rfl⟩
  have hnew : m.accounts.get? a.uuid = none ∧ m.rival? a = none ∧ m.Buried a.uuid := by
    rw [hm]
    unfold a
    decide +kernel
  have hdeleted : deleted = r.store m.contents := by
    rw [hm]
    exact leaves_fresh hconfig (by decide) (by decide)
  unfold created
  rw [hdeleted]
  exact create_of_buried hr hbulk (by decide) hnew.1 hnew.2.1 hnew.2.2 3

end Registry

end LoginRegistry
