import LoginRegistry.Proofs.Script.Racing
import LoginRegistry.Workers
import Mathlib.Data.List.Forall2

/-! # Scripts side by side

    Scripts that run side by side share a state, and between two requests of a script the
    others may have changed it.  What they may do to it, and what the script itself may do,
    are its `Terms`.  `Script.Among` says that a script keeps to its terms and ends in `post`
    if the others keep to them.  It is proved of each script on its own.

    * `among_both`: two scripts that allow each other, side by side.
    * `within_pool_of_moves`: what every move keeps holds in the end.
    * `within_pool`: scripts that allow each other end in what each of them ends in.
-/

namespace LoginRegistry

/-- What a script and those beside it may do to the state that they share. -/
structure Terms (σ : Type) where
  /-- What the others may have done, by any number of requests. -/
  others : σ → σ → Prop
  /-- What a request of the script may do. -/
  own : σ → σ → Prop
  refl : ∀ st, others st st
  trans : ∀ {st st' st''}, others st st' → others st' st'' → others st st''

namespace Terms

/-- What one script may do is what the other one reckons with. -/
def Allow (terms terms' : Terms σ) : Prop := ∀ st st', terms.own st st' → terms'.others st st'

/-- The terms reckon with what others may do by `terms'`, and ask for no more than these. -/
structure Suit (terms terms' : Terms σ) : Prop where
  others : ∀ {st st'}, terms'.others st st' → terms.others st st'
  own : ∀ {st st'}, terms.own st st' → terms'.own st st'

theorem Suit.refl (terms : Terms σ) : terms.Suit terms := ⟨id, id⟩

/-- The terms of a script that is on its own. -/
def alone (σ : Type) : Terms σ where
  others := Eq
  own _ _ := True
  refl := .refl
  trans := .trans

theorem suit_alone (terms : Terms σ) : terms.Suit (alone σ) where
  others := by
    rintro st _ rfl
    exact terms.refl st
  own _ := trivial

/-- The property holds, whatever the others do. -/
def Lasts (terms : Terms σ) (P : σ → Prop) (st : σ) : Prop := ∀ st', terms.others st st' → P st'

variable {terms : Terms σ} {P : σ → Prop} {st st' : σ}

theorem Lasts.now (h : terms.Lasts P st) : P st := h st (terms.refl st)

theorem Lasts.later (h : terms.Lasts P st) (hst' : terms.others st st') : terms.Lasts P st' :=
  fun _ hst'' => h _ (terms.trans hst' hst'')

theorem Lasts.suit {terms' : Terms σ} (h : terms.Lasts P st) (hsuit : terms.Suit terms') :
    terms'.Lasts P st := fun _ hst' => h _ (hsuit.others hst')

/-- All scripts may do the same. -/
def common (R : σ → σ → Prop) (hrefl : ∀ st, R st st)
    (htrans : ∀ {st st' st''}, R st st' → R st' st'' → R st st'') : Terms σ where
  others := R
  own := R
  refl := hrefl
  trans := htrans

end Terms

namespace Script

variable {b : Behaviour σ} {terms : Terms σ} {st st' : σ}

/-! ### A script among others -/

/-- Whatever comes back from its requests and whatever the others do meanwhile, as long as
    they keep to the terms, the script keeps to them and ends with a result (`none` after a
    panic) and a state that meet `post`, also later on. -/
def Among (b : Behaviour σ) (terms : Terms σ) (post : Option α → σ → Prop) : Script α → σ → Prop
  | .done a, st => terms.Lasts (post (some a)) st
  | .panic, st => terms.Lasts (post none) st
  | .call request next, st =>
    terms.Lasts (fun st' => ∀ answer st'', b request st' answer st'' →
      terms.own st' st'' ∧ (next answer).Among b terms post st'') st
  | .record _ next, st => next.Among b terms post st

theorem Among.later {post : Option α → σ → Prop} {s : Script α} (h : s.Among b terms post st)
    (hst' : terms.others st st') : s.Among b terms post st' := by
  induction s with
  | done a => exact Terms.Lasts.later h hst'
  | panic => exact Terms.Lasts.later h hst'
  | call request next ih => exact Terms.Lasts.later h hst'
  | record event next ih => exact ih h

theorem Among.mono {post post' : Option α → σ → Prop} {s : Script α}
    (h : s.Among b terms post st) (hpost : ∀ o st', terms.Lasts (post o) st' → post' o st') :
    s.Among b terms post' st := by
  induction s generalizing st with
  | done a => exact fun st' hst' => hpost _ _ (Terms.Lasts.later h hst')
  | panic => exact fun st' hst' => hpost _ _ (Terms.Lasts.later h hst')
  | record event next ih => exact ih h
  | call request next ih =>
    intro st' hst' answer st'' hanswer
    obtain ⟨hown, hnext⟩ := h st' hst' answer st'' hanswer
    exact ⟨hown, ih answer hnext⟩

/-- A script keeps to all terms that its own ones suit. -/
theorem Among.suit {terms' : Terms σ} {post : Option α → σ → Prop} {s : Script α}
    (h : s.Among b terms post st) (hsuit : terms.Suit terms') : s.Among b terms' post st := by
  induction s generalizing st with
  | done a => exact Terms.Lasts.suit h hsuit
  | panic => exact Terms.Lasts.suit h hsuit
  | record event next ih => exact ih h
  | call request next ih =>
    intro st' hst' answer st'' hanswer
    obtain ⟨hown, hnext⟩ := h st' (hsuit.others hst') answer st'' hanswer
    exact ⟨hsuit.own hown, ih answer hnext⟩

/-- On its own the script ends in what it ends in among others. -/
theorem Among.within {post : Option α → σ → Prop} {s : Script α} (h : s.Among b terms post st) :
    s.Within b post st := by
  induction s generalizing st with
  | done a => exact Terms.Lasts.now h
  | panic => exact Terms.Lasts.now h
  | record event next ih => exact ih h
  | call request next ih =>
    exact fun answer st' hanswer => ih answer (Terms.Lasts.now h answer st' hanswer).2

theorem among_pure {post : Option α → σ → Prop} {a : α} (h : terms.Lasts (post (some a)) st) :
    (pure a : Script α).Among b terms post st := h

theorem among_report {event : Event} {post : Option Unit → σ → Prop}
    (h : terms.Lasts (post (some ())) st) : (report event).Among b terms post st := h

theorem among_bind {post : Option β → σ → Prop} {s : Script α} {f : α → Script β}
    (h : s.Among b terms (fun o st' =>
      match o with
      | some a => (f a).Among b terms post st'
      | none => post none st') st) : (s >>= f).Among b terms post st := by
  rw [bind_eq]
  induction s generalizing st with
  | done a => exact Terms.Lasts.now h
  | panic => exact h
  | record event next ih => exact ih h
  | call request next ih =>
    intro st' hst' answer st'' hanswer
    obtain ⟨hown, hnext⟩ := h st' hst' answer st'' hanswer
    exact ⟨hown, ih answer hnext⟩

theorem among_isolate {post : Option (Option α) → σ → Prop} {s : Script α}
    (h : s.Among b terms (fun o st' => post (some o) st') st) :
    s.isolate.Among b terms post st := by
  induction s generalizing st with
  | done a => exact h
  | panic => exact h
  | record event next ih => exact ih h
  | call request next ih =>
    intro st' hst' answer st'' hanswer
    obtain ⟨hown, hnext⟩ := h st' hst' answer st'' hanswer
    exact ⟨hown, ih answer hnext⟩

/-- A script of one request is among others what it is after anything that they can do. -/
theorem among_of_once {post : Option α → σ → Prop} {s : Script α}
    (h : terms.Lasts (fun st' => s.Once b
      (fun o st'' => terms.own st' st'' ∧ terms.Lasts (post o) st'') st') st) :
    s.Among b terms post st := by
  induction s with
  | done a => exact h.now.elim
  | panic => exact h.now.elim
  | record event next ih => exact ih h
  | call request next ih =>
    intro st' hst' answer st'' hanswer
    obtain ⟨o, ho, hown, hpost⟩ := h st' hst' answer st'' hanswer
    rw [ho]
    cases o with
    | some a => exact ⟨hown, hpost⟩
    | none => exact ⟨hown, hpost⟩

/-- What others leave alone holds in the end as well. -/
theorem Among.and {post : Option α → σ → Prop} {s : Script α} (h : s.Among b terms post st)
    {Q : σ → Prop} (hQ : terms.Lasts Q st)
    (hown : ∀ st st', terms.own st st' → terms.Lasts Q st → terms.Lasts Q st') :
    s.Among b terms (fun o st' => post o st' ∧ Q st') st := by
  induction s generalizing st with
  | done a => exact fun st' hst' => ⟨h st' hst', hQ st' hst'⟩
  | panic => exact fun st' hst' => ⟨h st' hst', hQ st' hst'⟩
  | record event next ih => exact ih h hQ
  | call request next ih =>
    intro st' hst' answer st'' hanswer
    obtain ⟨hdone, hnext⟩ := h st' hst' answer st'' hanswer
    exact ⟨hdone, ih answer hnext (hown _ _ hdone (hQ.later hst'))⟩

/-- Two scripts side by side that allow each other and keep to common terms. -/
theorem among_both {terms₁ terms₂ : Terms σ} (hallow : terms₁.Allow terms₂ ∧ terms₂.Allow terms₁)
    (hsuit : terms₁.Suit terms ∧ terms₂.Suit terms) {p : Option α → σ → Prop}
    {q : Option β → σ → Prop} (hp : ∀ st, ¬ p none st) (hq : ∀ st, ¬ q none st) {s : Script α}
    {t : Script β} (hs : s.Among b terms₁ p st) (ht : t.Among b terms₂ q st) (turns : List Bool) :
    (both turns s t).Among b terms
      (fun o st' => ∃ a c, o = some (a, c) ∧ p (some a) st' ∧ q (some c) st') st := by
  -- By the turns: a move of one script leaves what is known of the other one, which allows it.
  induction turns generalizing s t st with
  | nil =>
    -- The second script waits for the first one, whose result then lasts.
    have hfirst : s.Among b { terms with own := terms₁.own } (fun o => terms₁.Lasts (p o)) st :=
      (hs.mono fun _ _ => id).suit ⟨hsuit.1.others, id⟩
    have hboth := hfirst.and (Q := t.Among b terms₂ q)
      (fun _ hst' => ht.later (hsuit.2.others hst'))
      fun _ _ hown h _ hst' => (h.now.later (hallow.1 _ _ hown)).later (hsuit.2.others hst')
    refine among_bind (Among.mono (hboth.suit ⟨id, hsuit.1.own⟩) fun o st' hst' => ?_)
    cases o with
    | none => exact absurd hst'.now.1.now (hp st')
    | some a =>
      have hsecond : t.Among b { terms with own := terms₂.own } q st' :=
        hst'.now.2.suit ⟨hsuit.2.others, id⟩
      have hdone := hsecond.and (Q := terms₁.Lasts (p (some a)))
        (fun _ hst'' => hst'.now.1.later (hsuit.1.others hst''))
        fun _ _ hown h _ hst'' => (h.now.later (hallow.2 _ _ hown)).later (hsuit.1.others hst'')
      refine among_bind (Among.mono (hdone.suit ⟨id, hsuit.2.own⟩) fun o st'' hst'' => ?_)
      cases o with
      | none => exact absurd hst''.now.1 (hq st'')
      | some c => exact fun st₃ hst₃ => ⟨a, c, rfl, (hst'' st₃ hst₃).2.now, (hst'' st₃ hst₃).1⟩
  | cons turn turns ih =>
    cases turn with
    | false =>
      cases s with
      | done a => exact ih hs ht
      | panic => exact ih hs ht
      | record event next => exact ih (s := next) hs ht
      | call request next =>
        intro st' hst' answer st'' hanswer
        obtain ⟨hown, hnext⟩ := hs st' (hsuit.1.others hst') answer st'' hanswer
        exact ⟨hsuit.1.own hown,
          ih hnext ((ht.later (hsuit.2.others hst')).later (hallow.1 _ _ hown))⟩
    | true =>
      cases t with
      | done a => exact ih hs ht
      | panic => exact ih hs ht
      | record event next => exact ih (t := next) hs ht
      | call request next =>
        intro st' hst' answer st'' hanswer
        obtain ⟨hown, hnext⟩ := ht st' (hsuit.2.others hst') answer st'' hanswer
        exact ⟨hsuit.2.own hown,
          ih ((hs.later (hsuit.1.others hst')).later (hallow.2 _ _ hown)) hnext⟩

end Script

/-! ### Actions -/

namespace Action

/-- The same of an action, which ends with a value and a state that meet `ok`, or with an
    error (`none` for a panic) and a state that meet `bad`. -/
def Among (b : Behaviour σ) (terms : Terms σ) (a : Action α) (st : σ) (ok : α → σ → Prop)
    (bad : Option RegistryError → σ → Prop) : Prop :=
  a.run.Among b terms (fun (o : Option (Except RegistryError α)) st' =>
    match o with
    | some (.ok v) => ok v st'
    | some (.error e) => bad (some e) st'
    | none => bad none st') st

variable {b : Behaviour σ} {terms : Terms σ} {st : σ}

theorem Among.mono {ok ok' : α → σ → Prop} {bad bad' : Option RegistryError → σ → Prop}
    {a : Action α} (h : Among b terms a st ok bad)
    (hok : ∀ v st', terms.Lasts (ok v) st' → ok' v st')
    (hbad : ∀ o st', terms.Lasts (bad o) st' → bad' o st') : Among b terms a st ok' bad' := by
  refine Script.Among.mono h fun o st' hst' => ?_
  match o with
  | some (.ok v) => exact hok v st' hst'
  | some (.error e) => exact hbad (some e) st' hst'
  | none => exact hbad none st' hst'

theorem among_pure {v : α} {ok : α → σ → Prop} {bad : Option RegistryError → σ → Prop}
    (h : terms.Lasts (ok v) st) : Among b terms (pure v) st ok bad := h

theorem among_bind {ok : β → σ → Prop} {bad : Option RegistryError → σ → Prop} {a : Action α}
    {f : α → Action β}
    (h : Among b terms a st (fun v st' => Among b terms (f v) st' ok bad) bad) :
    Among b terms (a >>= f) st ok bad := by
  refine Script.among_bind (Script.Among.mono h fun o st' hst' => ?_)
  match o with
  | some (.ok v) => exact hst'.now
  | some (.error e) => exact hst'
  | none => exact hst'.now

/-- Sampling changes nothing. -/
theorem among_timed {operation : TimedOperation} {a : Action α} {ok : α → σ → Prop}
    {bad : Option RegistryError → σ → Prop} (h : Among b terms a st ok bad) :
    Among b terms (timed operation a) st ok bad := by
  refine Script.among_bind (Script.Among.mono h fun o st' hst' => ?_)
  match o with
  | some result => exact hst'
  | none => exact hst'.now

/-- An action of one request is among others what it is after anything that they can do. -/
theorem among_of_once {ok : α → σ → Prop} {bad : Option RegistryError → σ → Prop} {a : Action α}
    (h : terms.Lasts (fun st' => Once b a st'
      (fun v st'' => terms.own st' st'' ∧ terms.Lasts (ok v) st'')
      fun o st'' => terms.own st' st'' ∧ terms.Lasts (bad o) st'') st) :
    Among b terms a st ok bad := by
  refine Script.among_of_once fun st' hst' => Script.Once.mono (h st' hst') fun o st'' hst'' => ?_
  match o with
  | some (.ok v) => exact hst''
  | some (.error e) => exact hst''
  | none => exact hst''

/-- An action that runs apart ends in every case. -/
theorem among_isolate_run {a : Action α}
    {post : Option (Option (Except RegistryError α)) → σ → Prop}
    (h : Among b terms a st (fun v st' => post (some (some (.ok v))) st') fun o st' =>
      match o with
      | some e => post (some (some (.error e))) st'
      | none => post (some none) st') :
    a.run.isolate.Among b terms post st := by
  refine Script.among_isolate (Script.Among.mono h fun o st' hst' => ?_)
  match o with
  | some (.ok v) => exact hst'.now
  | some (.error e) => exact hst'.now
  | none => exact hst'.now

end Action

/-! ### Pools -/

namespace Script

variable {b : Behaviour σ} {st : σ} {width : Nat}

/-- The script makes a move, and whatever comes back, what is left of it and the state meet
    `P`. -/
def Moves (b : Behaviour σ) (P : Script α → σ → Prop) : Script α → σ → Prop
  | .call request next, st => ∀ answer st', b request st answer st' → P (next answer) st'
  | .record _ next, st => P next st
  | .done _, _ => True
  | .panic, _ => True

/-- A script that is under way is not over. -/
theorem isOver_of_mem_underWay {scripts : List (Script α)} {i : Nat} {s : Script α}
    (hi : i ∈ underWay width scripts) (hs : scripts[i]? = some s) : s.isOver = false := by
  have hany := (List.mem_filter.mp (List.mem_of_mem_take hi)).2
  rw [hs] at hany
  exact Bool.not_eq_true' _ ▸ hany

/-- The first script that is not over is under way. -/
theorem length_mem_underWay (hwidth : 0 < width) {past rest : List (Script α)} {s : Script α}
    (hover : ∀ s ∈ past, s.isOver = true) (hs : s.isOver = false) :
    past.length ∈ underWay width (past ++ s :: rest) := by
  set open? : Nat → Bool := fun i => (past ++ s :: rest)[i]?.any (!·.isOver)
  have hfirst : (List.range past.length).filter open? = [] := by
    refine List.filter_eq_nil_iff.mpr fun i hi => ?_
    have hi := List.mem_range.mp hi
    simp only [open?, List.getElem?_append_left hi, List.getElem?_eq_getElem hi, Option.any_some,
      hover _ (List.getElem_mem hi)]
    exact Bool.false_ne_true
  have hnext : open? past.length = true := by
    simp only [open?, List.getElem?_append_right (Nat.le_refl _), Nat.sub_self,
      List.getElem?_cons_zero, Option.any_some, hs, Bool.not_false]
  have hrange : List.range (past ++ s :: rest).length
      = List.range past.length
        ++ past.length :: (List.range rest.length).map (past.length + 1 + ·) := by
    rw [List.length_append, List.length_cons, List.range_add, List.range_succ_eq_map, List.map_cons,
      List.map_map]
    congr 2
    refine List.map_congr_left fun i _ => ?_
    simp only [Function.comp_apply]
    omega
  obtain ⟨width, rfl⟩ := Nat.exists_eq_succ_of_ne_zero (Nat.ne_of_gt hwidth)
  have hmem : past.length ∈ ((List.range (past ++ s :: rest).length).filter open?).take
      (width + 1) := by
    rw [hrange, List.filter_append, hfirst, List.nil_append, List.filter_cons_of_pos hnext,
      List.take_succ_cons]
    exact List.mem_cons_self
  exact hmem

section moves

variable {J : List (Script α) → σ → Prop}
  (hmoves : ∀ scripts st i s, J scripts st → (0 < width → i ∈ underWay width scripts) →
    scripts[i]? = some s → s.Moves b (fun s' st' => J (scripts.set i s') st') st)
  (hpanic : ∀ scripts st, J scripts st → .panic ∉ scripts)

include hmoves hpanic

/-- The first script that is not over is finished. -/
theorem within_of_moves {ended : List α} {rest : List (Script α)} {s : Script α}
    (h : J (ended.map .done ++ s :: rest) st) :
    s.Within b (fun o st' => ∃ a, o = some a ∧ J ((ended ++ [a]).map .done ++ rest) st') st := by
  have hover : ∀ s ∈ ended.map Script.done, s.isOver = true := by
    intro s hs
    obtain ⟨a, -, rfl⟩ := List.mem_map.mp hs
    rfl
  have hnext : ∀ s, (ended.map Script.done ++ s :: rest)[ended.length]? = some s := by
    intro s
    rw [List.getElem?_append_right (Nat.le_of_eq (List.length_map _)), List.length_map, Nat.sub_self,
      List.getElem?_cons_zero]
  have hset : ∀ s s', (ended.map Script.done ++ s :: rest).set ended.length s'
      = ended.map Script.done ++ s' :: rest := by
    intro s s'
    rw [List.set_append_right _ _ (Nat.le_of_eq (List.length_map _)), List.length_map, Nat.sub_self,
      List.set_cons_zero]
  have hmem : ∀ s : Script α, s.isOver = false → 0 < width →
      ended.length ∈ underWay width (ended.map Script.done ++ s :: rest) := by
    intro s hs hwidth
    have hmem : (ended.map Script.done).length
        ∈ underWay width (ended.map Script.done ++ s :: rest) := length_mem_underWay hwidth hover hs
    rwa [List.length_map] at hmem
  induction s generalizing st with
  | done a =>
    refine ⟨a, rfl, ?_⟩
    rwa [List.map_append, List.append_assoc]
  | panic => exact absurd (List.mem_append_right _ List.mem_cons_self) (hpanic _ _ h)
  | call request next ih =>
    intro answer st' hanswer
    have hJ := hmoves _ st _ _ h (hmem _ rfl) (hnext _) answer st' hanswer
    simp only [hset] at hJ
    exact ih answer hJ
  | record event next ih =>
    have hJ : J _ st := hmoves _ st _ _ h (hmem _ rfl) (hnext _)
    rw [hset] at hJ
    exact ih hJ

/-- What every move of a script keeps holds when all scripts have ended. -/
theorem within_pool_of_moves {scripts : List (Script α)} (h : J scripts st) (turns : List Nat) :
    (pool width turns scripts).Within b
      (fun o st' => ∃ outcomes, o = some outcomes ∧ J (outcomes.map .done) st') st := by
  -- When the turns are used up, the scripts that are not over are finished in order.
  have htail : ∀ (rest : List (Script α)) (ended : List α) st, J (ended.map .done ++ rest) st →
      (rest.mapM id).Within b
        (fun o st' => ∃ outcomes, o = some outcomes ∧ J ((ended ++ outcomes).map .done) st') st := by
    intro rest
    induction rest with
    | nil =>
      intro ended st hJ
      exact ⟨[], rfl, by rwa [List.append_nil, ← List.append_nil (ended.map _)]⟩
    | cons s rest ih =>
      intro ended st hJ
      rw [List.mapM_cons]
      refine within_bind (Within.mono (within_of_moves hmoves hpanic hJ) ?_)
      rintro _ st' ⟨a, rfl, hJ'⟩
      refine within_bind (Within.mono (ih _ _ hJ') ?_)
      rintro _ st'' ⟨outcomes, rfl, hJ''⟩
      exact ⟨a :: outcomes, rfl, by rwa [List.append_cons]⟩
  induction turns generalizing scripts st with
  | nil => exact htail scripts [] st h
  | cons turn turns ih =>
    rw [pool]
    split
    · exact ih h
    · next i hturn =>
      split
      · exact ih h
      · next s hs =>
        have hi := List.mem_of_getElem? hturn
        have hopen := isOver_of_mem_underWay hi hs
        have hmove := hmoves scripts st i s h (fun _ => hi) hs
        cases s with
        | done a => cases hopen
        | panic => cases hopen
        | call request next => exact fun answer st' hanswer => ih (hmove answer st' hanswer)
        | record event next => exact ih hmove

end moves

/-- Two lists correspond place by place. -/
theorem forall₂_iff_getElem? {ι : Type} {R : α → ι → Prop} {l : List α} {items : List ι} :
    List.Forall₂ R l items ↔ l.length = items.length ∧
      ∀ (i : Nat) a item, l[i]? = some a → items[i]? = some item → R a item := by
  rw [List.forall₂_iff_get]
  refine and_congr_right fun _ => ⟨fun h i a item ha hitem => ?_, fun h i hl hitems => ?_⟩
  · obtain ⟨hl, rfl⟩ := List.getElem?_eq_some_iff.mp ha
    obtain ⟨hitems, rfl⟩ := List.getElem?_eq_some_iff.mp hitem
    exact h i hl hitems
  · exact h i _ _ (List.getElem?_eq_getElem hl) (List.getElem?_eq_getElem hitems)

/-- To every element of the one list there is one in the other. -/
theorem exists_of_forall₂ {ι : Type} {R : α → ι → Prop} {l : List α} {items : List ι}
    (h : List.Forall₂ R l items) {item : ι} (hitem : item ∈ items) : ∃ a ∈ l, R a item := by
  induction h with
  | nil => cases hitem
  | cons ha _ ih =>
    rcases List.mem_cons.mp hitem with rfl | hitem
    · exact ⟨_, List.mem_cons_self, ha⟩
    · obtain ⟨a, hmem, ha⟩ := ih hitem
      exact ⟨a, List.mem_cons_of_mem _ hmem, ha⟩

/-- What holds of an element and of what it is mapped to, holds of the lists. -/
theorem forall₂_mapIdx {ι : Type} {R : α → ι → Prop} {f : Nat → ι → α} {items : List ι}
    (h : ∀ i, ∀ item ∈ items, R (f i item) item) : List.Forall₂ R (items.mapIdx f) items := by
  refine forall₂_iff_getElem?.mpr ⟨List.length_mapIdx, fun i a item ha hitem => ?_⟩
  rw [List.getElem?_mapIdx, hitem] at ha
  obtain rfl := Option.some.inj ha
  exact h i item (List.mem_of_getElem? hitem)

section pool

variable {ι : Type} {items : List ι} {terms : ι → Terms σ} {post : ι → Option α → σ → Prop}
  {I : σ → Prop} {scripts : List (Script α)}

/-- Each of the scripts keeps to the terms of its item and ends in what is to come of it. -/
def AmongAll (b : Behaviour σ) (terms : ι → Terms σ) (post : ι → Option α → σ → Prop)
    (scripts : List (Script α)) (items : List ι) (st : σ) : Prop :=
  List.Forall₂ (fun s i => s.Among b (terms i) (post i) st) scripts items

theorem allow_of_pairwise
    (hallow : items.Pairwise fun i j => (terms i).Allow (terms j) ∧ (terms j).Allow (terms i))
    {i j : Nat} {x y : ι} (hij : i ≠ j) (hx : items[i]? = some x) (hy : items[j]? = some y) :
    (terms x).Allow (terms y) := by
  obtain ⟨hi, rfl⟩ := List.getElem?_eq_some_iff.mp hx
  obtain ⟨hj, rfl⟩ := List.getElem?_eq_some_iff.mp hy
  rcases Nat.lt_or_gt_of_ne hij with hlt | hgt
  · exact (List.pairwise_iff_getElem.mp hallow i j hi hj hlt).1
  · exact (List.pairwise_iff_getElem.mp hallow j i hj hi hgt).2

namespace AmongAll

theorem exists_item (h : AmongAll b terms post scripts items st) {i : Nat} {s : Script α}
    (hs : scripts[i]? = some s) :
    ∃ item, items[i]? = some item ∧ s.Among b (terms item) (post item) st := by
  obtain ⟨hlength, hat⟩ := forall₂_iff_getElem?.mp h
  obtain ⟨hi, -⟩ := List.getElem?_eq_some_iff.mp hs
  have hitem := List.getElem?_eq_getElem (hlength ▸ hi : i < items.length)
  exact ⟨_, hitem, hat i s _ hs hitem⟩

/-- One of the scripts has moved to `s'`, and the others have seen it do so. -/
theorem set (h : AmongAll b terms post scripts items st) {i : Nat} {item : ι}
    (hitem : items[i]? = some item) {s' : Script α} (hs' : s'.Among b (terms item) (post item) st')
    (hothers : ∀ j x, i ≠ j → items[j]? = some x → (terms x).others st st') :
    AmongAll b terms post (scripts.set i s') items st' := by
  obtain ⟨hlength, hat⟩ := forall₂_iff_getElem?.mp h
  obtain ⟨hi, -⟩ := List.getElem?_eq_some_iff.mp hitem
  refine forall₂_iff_getElem?.mpr ⟨List.length_set.trans hlength, fun j t x ht hx => ?_⟩
  by_cases hij : i = j
  · subst hij
    rw [List.getElem?_set_self (hlength ▸ hi)] at ht
    obtain rfl := Option.some.inj ht
    obtain rfl := Option.some.inj (hx.symm.trans hitem)
    exact hs'
  · rw [List.getElem?_set_ne hij] at ht
    exact (hat j t x ht hx).later (hothers j x hij hx)

/-- A move of one of the scripts leaves all of them as they are to be. -/
theorem moves (h : AmongAll b terms post scripts items st)
    (hallow : items.Pairwise fun i j => (terms i).Allow (terms j) ∧ (terms j).Allow (terms i))
    (hkeeps : ∀ i ∈ items, ∀ st st', (terms i).own st st' → I st → I st') (hst : I st) {i : Nat}
    {s : Script α} (hs : scripts[i]? = some s) :
    s.Moves b (fun s' st' => I st' ∧ AmongAll b terms post (scripts.set i s') items st') st := by
  obtain ⟨item, hitem, hamong⟩ := h.exists_item hs
  cases s with
  | done a => trivial
  | panic => trivial
  | record event next => exact ⟨hst, h.set hitem hamong fun _ x _ _ => (terms x).refl st⟩
  | call request next =>
    intro answer st' hanswer
    obtain ⟨hown, hnext⟩ := Terms.Lasts.now hamong answer st' hanswer
    refine ⟨hkeeps item (List.mem_of_getElem? hitem) st st' hown hst, h.set hitem hnext ?_⟩
    exact fun j x hij hx => allow_of_pairwise hallow hij hitem hx _ _ hown

theorem panic_notMem (h : AmongAll b terms post scripts items st)
    (hpanic : ∀ i st, ¬ post i none st) : .panic ∉ scripts := by
  intro hmem
  obtain ⟨i, hs⟩ := List.mem_iff_getElem?.mp hmem
  obtain ⟨item, -, hamong⟩ := h.exists_item hs
  exact hpanic _ _ (Terms.Lasts.now hamong)

end AmongAll

/-- Scripts that allow each other, up to `width` of them at a time, end in what each of them
    ends in among the others.  What the requests of all of them keep is kept. -/
theorem within_pool
    (hallow : items.Pairwise fun i j => (terms i).Allow (terms j) ∧ (terms j).Allow (terms i))
    (hpanic : ∀ i st, ¬ post i none st)
    (hkeeps : ∀ i ∈ items, ∀ st st', (terms i).own st st' → I st → I st')
    (h : List.Forall₂ (fun s i => s.Among b (terms i) (post i) st) scripts items) (hst : I st)
    (turns : List Nat) :
    (pool width turns scripts).Within b (fun o st' => I st' ∧ ∃ outcomes, o = some outcomes ∧
      List.Forall₂ (fun a i => post i (some a) st') outcomes items) st := by
  refine Within.mono (within_pool_of_moves
    (J := fun scripts st => I st ∧ AmongAll b terms post scripts items st)
    (fun scripts st i s hJ _ hs => hJ.2.moves hallow hkeeps hJ.1 hs)
    (fun scripts st hJ => hJ.2.panic_notMem hpanic) ⟨hst, h⟩ turns) ?_
  rintro o st' ⟨outcomes, rfl, hst', hJ⟩
  refine ⟨hst', outcomes, rfl, (List.forall₂_map_left_iff.mp hJ).imp fun a i ha => ?_⟩
  exact Terms.Lasts.now ha

end pool

end Script

end LoginRegistry
