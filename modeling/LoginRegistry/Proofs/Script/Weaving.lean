import LoginRegistry.Proofs.Script.Interleaving
import Mathlib.Data.List.Count

/-! # What scripts ask side by side

    A script on its own asks one request after the other, and each answer tells how it goes on:
    these are its `Exchanges`.  Scripts that run side by side each do the same, and the requests
    that are made are woven of theirs (`Weaves`), where only so many of the scripts are begun
    and not finished at a time.

    * `exists_weaves`: what a pool asks is woven of what its scripts ask.
    * `Weaves.perm`, `Weaves.eq_flatten`: each request is made once, and one script after the
      other if only one may run at a time.
-/

namespace LoginRegistry

open Store (Request)

/-- A request and the answer to it. -/
abbrev Answered := (request : Request) × Answer request.Reply

/-- The handler gives the answers one after the other, and this takes it from a state to
    another. -/
def Handler.Gives (h : Handler σ) : List Answered → σ → σ → Prop
  | [], st, st' => st' = st
  | e :: log, st, st' => (h.respond e.1 st).1 = e.2 ∧ h.Gives log (h.respond e.1 st).2 st'

theorem Handler.Gives.append {h : Handler σ} {log log' : List Answered} {st st' st'' : σ}
    (hlog : h.Gives log st st') (hlog' : h.Gives log' st' st'') : h.Gives (log ++ log') st st'' := by
  induction log generalizing st with
  | nil =>
    obtain rfl := hlog
    exact hlog'
  | cons e log ih => exact ⟨hlog.1, ih hlog.2⟩

theorem Handler.Gives.of_append {h : Handler σ} {log log' : List Answered} {st st' : σ}
    (hgives : h.Gives (log ++ log') st st') : ∃ st₁, h.Gives log st st₁ ∧ h.Gives log' st₁ st' := by
  induction log generalizing st with
  | nil => exact ⟨st, rfl, hgives⟩
  | cons e log ih =>
    obtain ⟨st₁, hlog, hlog'⟩ := ih hgives.2
    exact ⟨st₁, ⟨hgives.1, hlog⟩, hlog'⟩

/-! ### Woven lists -/

/-- A list is woven of others: again and again one of the first `width` of them that have
    elements left gives its next one. -/
inductive Weaves {ε : Type} (width : Nat) : List (List ε) → List ε → Prop where
  | nil {lists : List (List ε)} : (∀ l ∈ lists, l = []) → Weaves width lists []
  | cons {lists : List (List ε)} {i : Nat} {e : ε} {rest woven : List ε} :
    lists[i]? = some (e :: rest) → (lists.take i).countP (!·.isEmpty) < width →
      Weaves width (lists.set i rest) woven → Weaves width lists (e :: woven)

theorem set_of_getElem? {l : List α} {i : Nat} {a : α} (h : l[i]? = some a) : l.set i a = l := by
  obtain ⟨hi, rfl⟩ := List.getElem?_eq_some_iff.mp h
  exact List.set_getElem_self hi

namespace Weaves

variable {ε : Type} {width : Nat} {lists : List (List ε)} {woven : List ε}

theorem flatten_set {i : Nat} (hi : i < lists.length) (l : List ε) :
    (lists.set i l).flatten = (lists.take i).flatten ++ l ++ (lists.drop (i + 1)).flatten := by
  rw [List.set_eq_take_append_cons_drop, if_pos hi, List.flatten_append, List.flatten_cons,
    List.append_assoc]

/-- Each element is taken once. -/
theorem perm (h : Weaves width lists woven) : woven.Perm lists.flatten := by
  induction h with
  | nil hnil => rw [List.flatten_eq_nil_iff.mpr hnil]
  | @cons lists i e rest woven hi _ _ ih =>
    obtain ⟨hlt, -⟩ := List.getElem?_eq_some_iff.mp hi
    rw [flatten_set hlt, List.append_assoc] at ih
    rw [← set_of_getElem? hi, flatten_set hlt, List.append_assoc]
    exact (ih.cons e).trans List.perm_middle.symm

/-- One at a time, the lists are taken one after the other. -/
theorem eq_flatten (h : Weaves 1 lists woven) : woven = lists.flatten := by
  induction h with
  | nil hnil => exact (List.flatten_eq_nil_iff.mpr hnil).symm
  | @cons lists i e rest woven hi hfirst _ ih =>
    obtain ⟨hlt, -⟩ := List.getElem?_eq_some_iff.mp hi
    -- The lists before the one that is taken up are empty.
    have hempty : (lists.take i).flatten = [] := by
      refine List.flatten_eq_nil_iff.mpr fun l hl => List.isEmpty_iff.mp ?_
      by_contra hne
      exact List.countP_eq_zero.mp (Nat.lt_one_iff.mp hfirst) l hl (by simpa using hne)
    have hlists : lists.flatten = e :: rest ++ (lists.drop (i + 1)).flatten := by
      conv_lhs => rw [← set_of_getElem? hi]
      rw [flatten_set hlt, hempty, List.nil_append]
    rw [ih, flatten_set hlt, hlists, hempty]
    rfl

/-- The next list goes on from where the first ones are taken up. -/
theorem append_nil (h : Weaves width lists woven) : Weaves width ([] :: lists) woven := by
  induction h with
  | nil hnil => exact .nil (List.forall_mem_cons.mpr ⟨rfl, hnil⟩)
  | @cons lists i e rest woven hi hfirst _ ih =>
    refine .cons (i := i + 1) hi ?_ ih
    simpa using hfirst

/-- The first list may be taken before the others. -/
theorem cons_append (hwidth : 0 < width) (h : Weaves width lists woven) (l : List ε) :
    Weaves width (l :: lists) (l ++ woven) := by
  induction l with
  | nil => exact h.append_nil
  | cons e l ih => exact .cons (i := 0) rfl hwidth ih

end Weaves

namespace Script

variable {h : Handler σ} {width : Nat}

/-! ### Exchanges -/

/-- The requests of a script with the answers to them, and how it ends then (`none` for a
    panic). -/
inductive Exchanges : Script α → List Answered → Option α → Prop where
  | done {a : α} : Exchanges (.done a) [] (some a)
  | panic : Exchanges .panic [] none
  | call {request : Request} {next : Answer request.Reply → Script α}
    {answer : Answer request.Reply} {log : List Answered} {o : Option α} :
    Exchanges (next answer) log o → Exchanges (.call request next) (⟨request, answer⟩ :: log) o
  | record {event : Event} {next : Script α} {log : List Answered} {o : Option α} :
    Exchanges next log o → Exchanges (.record event next) log o

/-- A run makes exchanges. -/
theorem exists_exchanges (h : Handler σ) (s : Script α) (st : σ) :
    ∃ log, s.Exchanges log (s.run h st).result ∧ h.Gives log st (s.run h st).state := by
  induction s generalizing st with
  | done a => exact ⟨[], .done, rfl⟩
  | panic => exact ⟨[], .panic, rfl⟩
  | record event next ih =>
    obtain ⟨log, hlog, hgives⟩ := ih st
    exact ⟨log, .record hlog, hgives⟩
  | call request next ih =>
    obtain ⟨log, hlog, hgives⟩ := ih (h.respond request st).1 (h.respond request st).2
    exact ⟨_ :: log, .call hlog, rfl, hgives⟩

/-- The answers of a handler decide the run with it. -/
theorem Exchanges.run_eq {s : Script α} {log : List Answered} {o : Option α}
    (hlog : s.Exchanges log o) {st st' : σ} (hgives : h.Gives log st st') :
    (s.run h st).result = o ∧ (s.run h st).state = st' := by
  induction hlog generalizing st with
  | done => exact ⟨rfl, hgives.symm⟩
  | panic => exact ⟨rfl, hgives.symm⟩
  | record _ ih => exact ih hgives
  | @call request next answer log o _ ih =>
    obtain ⟨hanswer, hgives⟩ := hgives
    simp only at hanswer hgives
    subst hanswer
    exact ih hgives

/-- What a script ends in whatever comes back, it ends in by its exchanges. -/
theorem Exchanges.of_within {s : Script α} {log : List Answered} {o : Option α}
    (hlog : s.Exchanges log o) {post : Option α → Prop}
    (h : s.Within (fun _ _ _ _ => True) (fun o _ => post o) ()) : post o := by
  induction hlog with
  | done => exact h
  | panic => exact h
  | record _ ih => exact ih h
  | call _ ih => exact ih (h _ () trivial)

/-! ### Pools -/

/-- Scripts without moves left ask nothing. -/
theorem Exchanges.eq_nil_of_isOver {s : Script α} {log : List Answered} {o : Option α}
    (hlog : s.Exchanges log o) (hs : s.isOver = true) : log = [] := by
  cases hlog with
  | done | panic => rfl
  | call | record => cases hs

/-- Before a script that is under way there are only so many that are not over. -/
theorem countP_lt_of_mem_underWay {scripts : List (Script α)} {i : Nat}
    (hi : i ∈ underWay width scripts) : (scripts.take i).countP (!·.isOver) < width := by
  set open? : Nat → Bool := fun i => scripts[i]?.any (!·.isOver)
  have hcount : ∀ i, ((List.range i).filter open?).length = (scripts.take i).countP (!·.isOver) := by
    intro i
    induction i with
    | zero => rfl
    | succ i ih =>
      rw [List.range_succ, List.filter_append, List.length_append, ih, List.take_add_one,
        List.countP_append]
      congr 1
      cases hs : scripts[i]? with
      | none => simp [open?, hs]
      | some s => cases hover : s.isOver <;> simp [open?, hs, hover]
  -- Otherwise the places would be taken up by those before it.
  by_contra hmany
  rw [Nat.not_lt, ← hcount] at hmany
  have hlt : i < scripts.length :=
    List.mem_range.mp (List.mem_of_mem_filter (List.mem_of_mem_take hi))
  obtain ⟨n, hn⟩ := Nat.exists_eq_add_of_lt hlt
  rw [underWay, hn, Nat.add_assoc, List.range_add, List.filter_append,
    List.take_append_of_le_length hmany] at hi
  exact Nat.lt_irrefl i (List.mem_range.mp (List.mem_of_mem_filter (List.mem_of_mem_take hi)))

/-- Scripts one after the other ask one after the other. -/
theorem exists_weaves_mapM (h : Handler σ) (hwidth : 0 < width) {scripts : List (Script α)}
    (hquiet : ∀ s ∈ scripts, ∀ log, ¬ s.Exchanges log none) (st : σ) :
    ∃ (runs : List (List Answered × α)) (woven : List Answered),
      List.Forall₂ (fun s run => s.Exchanges run.1 (some run.2)) scripts runs ∧
        Weaves width (runs.map (·.1)) woven ∧
        h.Gives woven st ((scripts.mapM id).run h st).state ∧
        ((scripts.mapM id).run h st).result = some (runs.map (·.2)) := by
  induction scripts generalizing st with
  | nil => exact ⟨[], [], .nil, .nil nofun, rfl, rfl⟩
  | cons s scripts ih =>
    obtain ⟨hs, hrest⟩ := List.forall_mem_cons.mp hquiet
    obtain ⟨log, hlog, hgives⟩ := exists_exchanges h s st
    obtain ⟨a, hresult⟩ := Option.ne_none_iff_exists'.mp fun hnone => hs log (hnone ▸ hlog)
    obtain ⟨runs, woven, hruns, hwoven, hgives', hresult'⟩ := ih hrest (s.run h st).state
    have hstate : (((s :: scripts).mapM id).run h st).state
        = ((scripts.mapM id).run h (s.run h st).state).state := by
      rw [List.mapM_cons, id, state_run_bind, hresult]
      exact state_run_bind_of_quiet (fun _ _ => rfl) _
    refine ⟨(log, a) :: runs, log ++ woven, .cons (hresult ▸ hlog) hruns,
      hwoven.cons_append hwidth log, hstate ▸ hgives.append hgives', ?_⟩
    rw [List.mapM_cons, id, result_run_bind, hresult]
    simp only
    rw [result_run_bind, hresult']
    rfl

/-- If one of the scripts has come to another, what follows from that one is put in its place. -/
theorem forall₂_of_set {ι : Type} {R : α → ι → Prop} {l : List α} {items : List ι} {i : Nat}
    {a a' : α} (hi : l[i]? = some a) (h : List.Forall₂ R (l.set i a') items) :
    ∃ item, items[i]? = some item ∧ R a' item ∧
      ∀ item', R a item' → List.Forall₂ R l (items.set i item') := by
  obtain ⟨hlength, hat⟩ := forall₂_iff_getElem?.mp h
  rw [List.length_set] at hlength
  obtain ⟨hlt, rfl⟩ := List.getElem?_eq_some_iff.mp hi
  have hitem := List.getElem?_eq_getElem (hlength ▸ hlt : i < items.length)
  refine ⟨_, hitem, hat i a' _ (List.getElem?_set_self hlt) hitem, fun item' ha => ?_⟩
  refine forall₂_iff_getElem?.mpr ⟨by rw [List.length_set, hlength], fun j b item hb hj => ?_⟩
  by_cases hij : i = j
  · subst hij
    rw [List.getElem?_set_self (hlength ▸ hlt)] at hj
    obtain rfl := Option.some.inj hj
    rwa [← Option.some.inj (hi.symm.trans hb)]
  · rw [List.getElem?_set_ne hij] at hj
    exact hat j b item ((List.getElem?_set_ne hij).trans hb) hj

/-- As many of the lists have elements as scripts are not over, at most. -/
theorem countP_exchanges_le {scripts : List (Script α)} {runs : List (List Answered × α)}
    (h : List.Forall₂ (fun s run => s.Exchanges run.1 (some run.2)) scripts runs) :
    (runs.map (·.1)).countP (!·.isEmpty) ≤ scripts.countP (!·.isOver) := by
  induction h with
  | nil => exact Nat.le_refl 0
  | @cons s run scripts runs hrun _ ih =>
    rw [List.map_cons, List.countP_cons, List.countP_cons]
    refine Nat.add_le_add ih ?_
    cases hover : s.isOver with
    | true => simp [hrun.eq_nil_of_isOver hover]
    | false => split <;> simp

/-- What a pool asks is woven of what its scripts ask, each on its own, and its result is made of
    theirs. -/
theorem exists_weaves (h : Handler σ) (hwidth : 0 < width) {scripts : List (Script α)}
    (hquiet : ∀ s ∈ scripts, ∀ log, ¬ s.Exchanges log none) (turns : List Nat) (st : σ) :
    ∃ (runs : List (List Answered × α)) (woven : List Answered),
      List.Forall₂ (fun s run => s.Exchanges run.1 (some run.2)) scripts runs ∧
        Weaves width (runs.map (·.1)) woven ∧
        h.Gives woven st ((pool width turns scripts).run h st).state ∧
        ((pool width turns scripts).run h st).result = some (runs.map (·.2)) := by
  -- By the turns: what a move asks is put before what the script that made it asks later.
  induction turns generalizing scripts st with
  | nil => exact exists_weaves_mapM h hwidth hquiet st
  | cons turn turns ih =>
    rw [pool]
    split
    · exact ih hquiet st
    · next i hturn =>
      split
      · exact ih hquiet st
      · next s hs =>
        have hi := List.mem_of_getElem? hturn
        have hmem := List.mem_of_getElem? hs
        have hquiet' : ∀ s', (∀ log, ¬ s'.Exchanges log none) →
            ∀ t ∈ scripts.set i s', ∀ log, ¬ t.Exchanges log none := by
          intro s' hs' t ht
          rcases List.mem_or_eq_of_mem_set ht with ht | rfl
          · exact hquiet t ht
          · exact hs'
        cases s with
        | done a => cases isOver_of_mem_underWay hi hs
        | panic => cases isOver_of_mem_underWay hi hs
        | record event next =>
          obtain ⟨runs, woven, hruns, hrest⟩ := ih (hquiet' next fun log hlog =>
            hquiet _ hmem log (.record hlog)) st
          obtain ⟨run, hrun, hnext, hset⟩ := forall₂_of_set hs hruns
          refine ⟨runs, woven, ?_, hrest⟩
          have hruns' := hset run (.record hnext)
          rwa [set_of_getElem? hrun] at hruns'
        | call request next =>
          obtain ⟨runs, woven, hruns, hwoven, hgives, hresult⟩ :=
            ih (hquiet' (next (h.respond request st).1) fun log hlog => hquiet _ hmem _ (.call hlog))
              (h.respond request st).2
          obtain ⟨run, hrun, hnext, hset⟩ := forall₂_of_set hs hruns
          -- The request comes before those that the script goes on with.
          let e : Answered := ⟨request, (h.respond request st).1⟩
          have hfst : (runs.map (·.1))[i]? = some run.1 := by rw [List.getElem?_map, hrun]; rfl
          have hsnd : (runs.map (·.2))[i]? = some run.2 := by rw [List.getElem?_map, hrun]; rfl
          have hopen : ((runs.map (·.1)).take i).countP (!·.isEmpty) < width := by
            have hle := countP_exchanges_le (List.forall₂_take i hruns)
            rw [List.take_set_of_le (Nat.le_refl i), List.map_take] at hle
            exact Nat.lt_of_le_of_lt hle (countP_lt_of_mem_underWay hi)
          refine ⟨runs.set i (e :: run.1, run.2), e :: woven, hset _ (.call hnext), ?_, ?_, ?_⟩
          · rw [List.map_set]
            refine Weaves.cons (i := i) (?_ : _ = some (e :: run.1)) ?_ ?_
            · exact List.getElem?_set_self (List.getElem?_eq_some_iff.mp hfst).1
            · rwa [List.take_set_of_le (Nat.le_refl i)]
            · rwa [List.set_set, set_of_getElem? hfst]
          · exact ⟨rfl, hgives⟩
          · rwa [List.map_set, set_of_getElem? hsnd]

/-- Exchanges one after the other are those of scripts one after the other. -/
theorem run_mapM_of_gives {scripts : List (Script α)} {runs : List (List Answered × α)}
    (hruns : List.Forall₂ (fun s run => s.Exchanges run.1 (some run.2)) scripts runs) {st st' : σ}
    (hgives : h.Gives (runs.map (·.1)).flatten st st') :
    ((scripts.mapM id).run h st).result = some (runs.map (·.2)) ∧
      ((scripts.mapM id).run h st).state = st' := by
  induction hruns generalizing st with
  | nil => exact ⟨rfl, hgives.symm⟩
  | @cons s run scripts runs hrun _ ih =>
    obtain ⟨st₁, hfirst, hrest⟩ := Handler.Gives.of_append hgives
    obtain ⟨hresult, rfl⟩ := hrun.run_eq hfirst
    obtain ⟨hresults, rfl⟩ := ih hrest
    rw [List.mapM_cons, id, result_run_bind, state_run_bind, hresult]
    simp only
    rw [result_run_bind, hresults, state_run_bind_of_quiet fun _ _ => rfl]
    exact ⟨rfl, rfl⟩

/-- If one script may run at a time, a pool runs one after the other. -/
theorem run_mapM_of_weaves {scripts : List (Script α)} {runs : List (List Answered × α)}
    {woven : List Answered} (hwoven : Weaves 1 (runs.map (·.1)) woven)
    (hruns : List.Forall₂ (fun s run => s.Exchanges run.1 (some run.2)) scripts runs) {st st' : σ}
    (hgives : h.Gives woven st st') :
    ((scripts.mapM id).run h st).result = some (runs.map (·.2)) ∧
      ((scripts.mapM id).run h st).state = st' :=
  run_mapM_of_gives hruns (hwoven.eq_flatten ▸ hgives)

end Script

end LoginRegistry
