import LoginRegistry.Proofs.Script.Mishaps
import LoginRegistry.Registry.Action

/-! # Scripts within a behaviour

    A behaviour says what can come back from a request: an answer, and the state after
    it.  `Script.Within b post s st` says that `s`, started in the state `st`, ends in
    `post` whatever comes back within `b`.  For an action `Action.Within` tells values
    from errors.  The state is whatever the behaviour is about: the tables, or the
    tables together with the requests made so far.

    * `run_of_within`: a handler that obeys a behaviour runs within it.
    * `Within.recorded`: what holds within a behaviour also holds with a record of the
      requests.
    * `Keeps`: whatever comes back, a property of the state is kept.
-/

namespace LoginRegistry

open Store (Request)

/-- What can come back from a request in a state: an answer, and the state after it. -/
abbrev Behaviour (σ : Type) := (request : Request) → σ → Answer request.Reply → σ → Prop

/-- Whatever the handler answers is within the behaviour, where `R` relates the states
    of the two. -/
structure Handler.Obeys (h : Handler τ) (b : Behaviour σ) (R : τ → σ → Prop) : Prop where
  /-- Every request is answered within the behaviour. -/
  respond : ∀ (request : Request) {s : τ} {st : σ}, R s st →
    ∃ st', b request st (h.respond request s).1 st' ∧ R (h.respond request s).2 st'

/-- The answers of a handler. -/
def Handler.answers (h : Handler σ) : Behaviour σ :=
  fun request s answer s' => h.respond request s = (answer, s')

theorem Handler.obeys_answers (h : Handler σ) : h.Obeys h.answers Eq where
  respond request := by
    rintro st _ rfl
    exact ⟨_, rfl, rfl⟩

/-! ### Scripts -/

namespace Script

/-- Whatever comes back from its requests, the script ends with a result (`none` after
    a panic) and a state that meet `post`. -/
def Within (b : Behaviour σ) (post : Option α → σ → Prop) : Script α → σ → Prop
  | .done a, st => post (some a) st
  | .panic, st => post none st
  | .call request next, st =>
    ∀ answer st', b request st answer st' → (next answer).Within b post st'
  | .record _ next, st => next.Within b post st

variable {b : Behaviour σ} {st : σ}

theorem Within.mono {post post' : Option α → σ → Prop} {s : Script α} (h : s.Within b post st)
    (hpost : ∀ o st', post o st' → post' o st') : s.Within b post' st := by
  induction s generalizing st with
  | done a => exact hpost _ _ h
  | panic => exact hpost _ _ h
  | call request next ih => exact fun answer st' hst' => ih answer (h answer st' hst')
  | record event next ih => exact ih h

theorem within_bind {post : Option β → σ → Prop} {s : Script α} {f : α → Script β}
    (h : s.Within b (fun o st' =>
      match o with
      | some a => (f a).Within b post st'
      | none => post none st') st) :
    (s >>= f).Within b post st := by
  rw [bind_eq]
  induction s generalizing st with
  | done a => exact h
  | panic => exact h
  | call request next ih => exact fun answer st' hst' => ih answer (h answer st' hst')
  | record event next ih => exact ih h

theorem within_isolate {post : Option (Option α) → σ → Prop} {s : Script α}
    (h : s.Within b (fun o st' => post (some o) st') st) : s.isolate.Within b post st := by
  induction s generalizing st with
  | done a => exact h
  | panic => exact h
  | call request next ih => exact fun answer st' hst' => ih answer (h answer st' hst')
  | record event next ih => exact ih h

/-- Sending a request ends in the result of its answer. -/
theorem within_send {request : Request}
    {post : Option (Except Store.Error request.Reply) → σ → Prop}
    (h : ∀ answer st', b request st answer st' → post answer.result st') :
    (send request).Within b post st := by
  intro answer st' hst'
  have hpost := h answer st' hst'
  cases answer <;> exact hpost

/-- A handler that obeys a behaviour runs a script within it. -/
theorem run_of_within {h : Handler τ} {R : τ → σ → Prop} (hh : h.Obeys b R)
    {post : Option α → σ → Prop} {s : Script α} (hs : s.Within b post st) {x : τ} (hx : R x st) :
    ∃ st', R (s.run h x).state st' ∧ post (s.run h x).result st' := by
  induction s generalizing st x with
  | done a => exact ⟨st, hx, hs⟩
  | panic => exact ⟨st, hx, hs⟩
  | call request next ih =>
    obtain ⟨st', hst', hx'⟩ := hh.respond request hx
    exact ih _ (hs _ st' hst') hx'
  | record event next ih => exact ih hs hx

/-- Within the answers of a handler there is one run. -/
theorem within_answers_iff {h : Handler σ} {post : Option α → σ → Prop} {s : Script α} :
    s.Within h.answers post st ↔ post (s.run h st).result (s.run h st).state := by
  induction s generalizing st with
  | done a => exact Iff.rfl
  | panic => exact Iff.rfl
  | record event next ih => exact ih
  | call request next ih =>
    constructor
    · exact fun hs => (ih _).mp (hs _ _ rfl)
    · intro hs answer st' hst'
      have hanswer : (h.respond request st).1 = answer := congrArg Prod.fst hst'
      have hstate : (h.respond request st).2 = st' := congrArg Prod.snd hst'
      subst hanswer hstate
      exact (ih _).mpr hs

/-- Two things that hold in the end hold together. -/
theorem Within.and {post post' : Option α → σ → Prop} {s : Script α} (h : s.Within b post st)
    (h' : s.Within b post' st) : s.Within b (fun o st' => post o st' ∧ post' o st') st := by
  induction s generalizing st with
  | done a => exact ⟨h, h'⟩
  | panic => exact ⟨h, h'⟩
  | call request next ih =>
    exact fun answer st' hst' => ih answer (h answer st' hst') (h' answer st' hst')
  | record event next ih => exact ih h h'

/-! ### One script after another -/

/-- What follows a script matters only where the script can end. -/
theorem run_bind_congr {h : Handler τ} {R : τ → σ → Prop} (hh : h.Obeys b R) {s : Script α}
    {f g : α → Script β} {x : τ} (hx : R x st)
    (hs : s.Within b (fun o st' =>
      ∀ a, o = some a → ∀ y, R y st' → (f a).run h y = (g a).run h y) st) :
    (s >>= f).run h x = (s >>= g).run h x := by
  rw [bind_eq, bind_eq]
  induction s generalizing st x with
  | done a => exact hs a rfl x hx
  | panic => rfl
  | call request next ih =>
    obtain ⟨st', hst', hx'⟩ := hh.respond request hx
    exact ih _ hx' (hs _ st' hst')
  | record event next ih =>
    have hnext := ih hx hs
    simp only [Script.bind, run, hnext]

/-- What follows a script runs where the script has ended. -/
theorem state_run_bind (h : Handler σ) (s : Script α) (f : α → Script β) (d : σ) :
    ((s >>= f).run h d).state = match (s.run h d).result with
      | some a => ((f a).run h (s.run h d).state).state
      | none => (s.run h d).state := by
  rw [bind_eq]
  induction s generalizing d with
  | done a => rfl
  | panic => rfl
  | call request next ih => exact ih _ _
  | record event next ih => exact ih d

theorem result_run_bind (h : Handler σ) (s : Script α) (f : α → Script β) (d : σ) :
    ((s >>= f).run h d).result = match (s.run h d).result with
      | some a => ((f a).run h (s.run h d).state).result
      | none => none := by
  rw [bind_eq]
  induction s generalizing d with
  | done a => rfl
  | panic => rfl
  | call request next ih => exact ih _ _
  | record event next ih => exact ih d

/-- What follows a script and makes no request leaves the state. -/
theorem state_run_bind_of_quiet {h : Handler σ} {s : Script α} {f : α → Script β}
    (hf : ∀ a d, ((f a).run h d).state = d) (d : σ) :
    ((s >>= f).run h d).state = (s.run h d).state := by
  rw [state_run_bind]
  cases (s.run h d).result with
  | some a => exact hf a _
  | none => rfl

/-- What a script returns does not matter. -/
theorem state_run_discard (h : Handler σ) (s : Script α) (d : σ) :
    ((discard s).run h d).state = (s.run h d).state :=
  state_run_bind_of_quiet (f := fun _ => pure ()) (fun _ _ => rfl) d

/-! ### Keeping a property -/

/-- Whatever comes back from its requests, the script keeps a property of the state. -/
def Keeps (b : Behaviour σ) (I : σ → Prop) (s : Script α) : Prop :=
  ∀ st, I st → s.Within b (fun _ st' => I st') st

variable {I : σ → Prop}

theorem Keeps.pure (a : α) : Keeps b I (Pure.pure a : Script α) := fun _ hst => hst

theorem Keeps.report (event : Event) : Keeps b I (report event) := fun _ hst => hst

theorem Keeps.bind {s : Script α} {f : α → Script β} (hs : Keeps b I s)
    (hf : ∀ a, Keeps b I (f a)) : Keeps b I (s >>= f) := by
  intro st hst
  refine within_bind (Within.mono (hs st hst) fun o st' hst' => ?_)
  cases o with
  | none => exact hst'
  | some a => exact hf a st' hst'

theorem Keeps.discard {s : Script α} (hs : Keeps b I s) : Keeps b I (discard s) :=
  .bind hs fun _ => .pure ()

theorem Keeps.isolate {s : Script α} (hs : Keeps b I s) : Keeps b I s.isolate :=
  fun st hst => within_isolate (hs st hst)

end Script

/-! ### Actions -/

namespace Action

/-- Whatever comes back from its requests, the action ends with a value and a state that
    meet `ok`, or with an error (`none` for a panic) and a state that meet `bad`. -/
def Within (b : Behaviour σ) (a : Action α) (st : σ) (ok : α → σ → Prop)
    (bad : Option RegistryError → σ → Prop) : Prop :=
  a.run.Within b (fun (o : Option (Except RegistryError α)) st' =>
    match o with
    | some (.ok v) => ok v st'
    | some (.error e) => bad (some e) st'
    | none => bad none st') st

variable {b : Behaviour σ} {st : σ} {ok : β → σ → Prop} {bad : Option RegistryError → σ → Prop}

theorem Within.mono {ok' : β → σ → Prop} {bad' : Option RegistryError → σ → Prop} {a : Action β}
    (h : Within b a st ok bad) (hok : ∀ v st', ok v st' → ok' v st')
    (hbad : ∀ o st', bad o st' → bad' o st') : Within b a st ok' bad' := by
  refine Script.Within.mono h fun o st' hst' => ?_
  match o with
  | some (.ok v) => exact hok v st' hst'
  | some (.error e) => exact hbad (some e) st' hst'
  | none => exact hbad none st' hst'

/-- An action that cannot fail returns a value. -/
theorem run_of_within {h : Handler τ} {R : τ → σ → Prop} (hh : h.Obeys b R) {a : Action β}
    (ha : Within b a st ok fun _ _ => False) {x : τ} (hx : R x st) :
    ∃ v st', (a.run.run h x).result = some (.ok v) ∧ R (a.run.run h x).state st' ∧ ok v st' := by
  obtain ⟨st', hstate, hdone⟩ := Script.run_of_within hh ha hx
  split at hdone
  · next v hresult => exact ⟨v, st', hresult, hstate, hdone⟩
  · exact hdone.elim
  · exact hdone.elim

theorem Within.and {ok' : β → σ → Prop} {bad' : Option RegistryError → σ → Prop} {a : Action β}
    (h : Within b a st ok bad) (h' : Within b a st ok' bad') :
    Within b a st (fun v st' => ok v st' ∧ ok' v st') fun o st' => bad o st' ∧ bad' o st' := by
  refine Script.Within.mono (Script.Within.and h h') fun o st' hst' => ?_
  match o with
  | some (.ok v) => exact hst'
  | some (.error e) => exact hst'
  | none => exact hst'

/-- What follows an action matters only where the action can return. -/
theorem run_bind_congr {h : Handler τ} {R : τ → σ → Prop} (hh : h.Obeys b R) {a : Action α}
    {f g : α → Action β} {x : τ} (hx : R x st)
    (ha : Within b a st (fun v st' => ∀ y, R y st' → (f v).run.run h y = (g v).run.run h y)
      fun _ _ => True) :
    (a >>= f).run.run h x = (a >>= g).run.run h x := by
  refine Script.run_bind_congr hh hx (Script.Within.mono ha fun o st' hst' result ho y hy => ?_)
  obtain rfl := ho
  match result with
  | .ok v => exact hst' y hy
  | .error e => rfl

theorem within_pure {v : β} (h : ok v st) : Within b (pure v) st ok bad := h

theorem within_throw {e : RegistryError} (h : bad (some e) st) :
    Within b (throw e : Action β) st ok bad := h

theorem within_bind {a : Action α} {f : α → Action β}
    (h : Within b a st (fun v st' => Within b (f v) st' ok bad) bad) :
    Within b (a >>= f) st ok bad := by
  refine Script.within_bind (Script.Within.mono h fun o st' hst' => ?_)
  match o with
  | some (.ok v) => exact hst'
  | some (.error e) => exact hst'
  | none => exact hst'

theorem within_map {a : Action α} {f : α → β} (h : Within b a st (fun v => ok (f v)) bad) :
    Within b (f <$> a) st ok bad :=
  within_bind (f := fun v => pure (f v)) h

/-- A script as an action ends as it does, without errors of its own. -/
theorem within_lift {s : Script β}
    (h : s.Within b (fun o st' =>
      match o with
      | some v => ok v st'
      | none => bad none st') st) : Within b (liftM s) st ok bad := by
  refine Script.within_bind (Script.Within.mono h fun o st' hst' => ?_)
  match o with
  | some v => exact hst'
  | none => exact hst'

/-- A script that may fail in the store, as an action. -/
theorem within_ofStore {s : Script (Except Store.Error β)}
    (h : s.Within b (fun (o : Option (Except Store.Error β)) st' =>
      match o with
      | some (.ok v) => ok v st'
      | some (.error e) => bad (some (.store e)) st'
      | none => bad none st') st) : Within b (ofStore s) st ok bad := by
  refine within_bind (within_lift (Script.Within.mono h fun o st' hst' => ?_))
  match o with
  | some (.ok v) => exact hst'
  | some (.error e) => exact hst'
  | none => exact hst'

/-- A write that may be refused: a refusal is no error. -/
theorem within_unlessRefused {s : Script (Except Store.Error Unit)} {ok : Bool → σ → Prop}
    (h : s.Within b (fun (o : Option (Except Store.Error Unit)) st' =>
      match o with
      | some (.ok ()) => ok true st'
      | some (.error (.conditionFailed ..)) => ok false st'
      | some (.error e) => bad (some (.store e)) st'
      | none => bad none st') st) : Within b (unlessRefused s) st ok bad := by
  refine within_bind (within_lift (Script.Within.mono h fun o st' hst' => ?_))
  match o with
  | none => exact hst'
  | some (.ok ()) => exact hst'
  | some (.error e) =>
    cases e with
    | conditionFailed | tableNotFound | invalid | throttled | unavailable => exact hst'

/-- Sampling changes nothing. -/
theorem within_timed {operation : TimedOperation} {a : Action β} (h : Within b a st ok bad) :
    Within b (timed operation a) st ok bad := by
  refine Script.within_bind (Script.Within.mono h fun o st' hst' => ?_)
  match o with
  | some result => exact hst'
  | none => exact hst'

/-- An action that runs apart ends in every case. -/
theorem within_isolate_run {a : Action α}
    {post : Option (Option (Except RegistryError α)) → σ → Prop}
    (h : Within b a st (fun v st' => post (some (some (.ok v))) st') fun o st' =>
      match o with
      | some e => post (some (some (.error e))) st'
      | none => post (some none) st') :
    a.run.isolate.Within b post st := by
  refine Script.within_isolate (Script.Within.mono h fun o st' hst' => ?_)
  match o with
  | some (.ok v) => exact hst'
  | some (.error e) => exact hst'
  | none => exact hst'

/-- Doing an action for each element of a list, where `J` tells what holds with some
    elements still to be done. -/
theorem within_forM {f : α → Action PUnit} {J : List α → σ → Prop} {l : List α}
    {bad : Option RegistryError → σ → Prop}
    (hstep : ∀ a l st, J (a :: l) st → Within b (f a) st (fun _ st' => J l st') bad)
    (hst : J l st) : Within b (l.forM f) st (fun _ st' => J [] st') bad := by
  induction l generalizing st with
  | nil => exact hst
  | cons a l ih => exact within_bind (Within.mono (hstep a l st hst) (fun _ _ => ih) fun _ _ => id)

/-! ### Keeping a property -/

/-- Whatever comes back from its requests, the action keeps a property of the state. -/
def Keeps (b : Behaviour σ) (I : σ → Prop) (a : Action α) : Prop := Script.Keeps b I a.run

variable {I : σ → Prop}

theorem Keeps.within {a : Action α} (h : Keeps b I a) {st : σ} (hst : I st) :
    Within b a st (fun _ st' => I st') fun _ st' => I st' := by
  refine Script.Within.mono (h st hst) fun o st' hst' => ?_
  match o with
  | some (.ok v) => exact hst'
  | some (.error e) => exact hst'
  | none => exact hst'

theorem keeps_of_within {a : Action α}
    (h : ∀ st, I st → Within b a st (fun _ st' => I st') fun _ st' => I st') : Keeps b I a := by
  refine fun st hst => Script.Within.mono (h st hst) fun o st' hst' => ?_
  match o, hst' with
  | some (.ok v), hst' => exact hst'
  | some (.error e), hst' => exact hst'
  | none, hst' => exact hst'

theorem Keeps.pure (v : α) : Keeps b I (Pure.pure v : Action α) := fun _ hst => hst

theorem Keeps.throw (e : RegistryError) : Keeps b I (MonadExcept.throw e : Action α) :=
  fun _ hst => hst

theorem Keeps.ofExcept (e : Except RegistryError α) : Keeps b I (liftM e : Action α) :=
  fun _ hst => hst

theorem Keeps.bind {a : Action α} {f : α → Action β} (ha : Keeps b I a)
    (hf : ∀ v, Keeps b I (f v)) : Keeps b I (a >>= f) :=
  keeps_of_within fun _ hst =>
    within_bind (Within.mono (ha.within hst) (fun v _ => (hf v).within) fun _ _ => id)

theorem Keeps.forM {f : α → Action PUnit} {l : List α} (hf : ∀ a ∈ l, Keeps b I (f a)) :
    Keeps b I (l.forM f) := by
  induction l with
  | nil => exact .pure ()
  | cons a l ih =>
    obtain ⟨ha, hl⟩ := List.forall_mem_cons.mp hf
    exact .bind ha fun _ => ih hl

theorem Keeps.map {a : Action α} (ha : Keeps b I a) (f : α → β) : Keeps b I (f <$> a) :=
  ha.bind fun v => .pure (f v)

theorem Keeps.lift {s : Script α} (hs : s.Keeps b I) : Keeps b I (liftM s : Action α) :=
  Script.Keeps.bind hs fun v => Script.Keeps.pure (Except.ok v)

theorem Keeps.tryCatch {a : Action α} {f : RegistryError → Action α} (ha : Keeps b I a)
    (hf : ∀ e, Keeps b I (f e)) : Keeps b I (MonadExcept.tryCatch a f) := by
  refine Script.Keeps.bind ha fun result => ?_
  match result with
  | .ok v => exact Script.Keeps.pure (Except.ok v)
  | .error e => exact hf e

theorem Keeps.timed {a : Action α} (ha : Keeps b I a) (operation : TimedOperation) :
    Keeps b I (Action.timed operation a) :=
  Script.Keeps.bind ha fun result => (Script.Keeps.report _).bind fun _ => Script.Keeps.pure result

theorem Keeps.ofStore {s : Script (Except Store.Error α)} (hs : s.Keeps b I) :
    Keeps b I (Action.ofStore s) := by
  refine (Keeps.lift hs).bind fun result => ?_
  match result with
  | .ok v => exact .pure v
  | .error e => exact .throw _

theorem Keeps.unlessRefused {s : Script (Except Store.Error Unit)} (hs : s.Keeps b I) :
    Keeps b I (Action.unlessRefused s) := by
  refine (Keeps.lift hs).bind fun result => ?_
  match result with
  | .ok () => exact .pure true
  | .error (.conditionFailed ..) => exact .pure false
  | .error (.tableNotFound _) | .error (.invalid _) | .error (.throttled _)
  | .error (.unavailable _) => exact .throw _

end Action

/-! ### Recording requests -/

/-- The handler together with the requests made to it, last one first. -/
def Handler.recorded (h : Handler τ) : Handler (List Request × τ) where
  respond request s :=
    let (answer, t) := h.respond request s.2
    (answer, request :: s.1, t)

/-- The behaviour together with the requests made, last one first. -/
def Behaviour.recorded (b : Behaviour σ) : Behaviour (List Request × σ) :=
  fun request st answer st' => st'.1 = request :: st.1 ∧ b request st.2 answer st'.2

theorem Handler.Obeys.recorded {h : Handler τ} {b : Behaviour σ} {R : τ → σ → Prop}
    (hh : h.Obeys b R) :
    h.recorded.Obeys b.recorded fun s st => s.1 = st.1 ∧ R s.2 st.2 where
  respond request {s st} hst := by
    obtain ⟨st', hb, hR⟩ := hh.respond request hst.2
    exact ⟨(request :: st.1, st'), ⟨rfl, hb⟩, congrArg _ hst.1, hR⟩

/-- The record does not change the result. -/
theorem Script.result_run_recorded (h : Handler τ) (s : Script α) (made : List Request) (x : τ) :
    (s.run h.recorded (made, x)).result = (s.run h x).result := by
  induction s generalizing made x with
  | done a => rfl
  | panic => rfl
  | call request next ih => exact ih _ _ _
  | record event next ih => exact ih made x

theorem Script.within_send_recorded {b : Behaviour σ} {request : Request} {made : List Request}
    {st : σ} {post : Option (Except Store.Error request.Reply) → List Request × σ → Prop}
    (h : ∀ answer st', b request st answer st' → post answer.result (request :: made, st')) :
    (send request).Within b.recorded post (made, st) := by
  refine within_send fun answer st' hst' => ?_
  obtain ⟨_, st'⟩ := st'
  obtain ⟨rfl, hst'⟩ := hst'
  exact h answer st' hst'

theorem Script.Keeps.send_recorded {b : Behaviour σ} {request : Request}
    {I : List Request × σ → Prop}
    (h : ∀ made st answer st', I (made, st) → b request st answer st' → I (request :: made, st')) :
    Script.Keeps b.recorded I (Script.send request) :=
  fun (made, st) hst => within_send_recorded fun answer st' => h made st answer st' hst

/-- What holds within a behaviour holds with a record of the requests, which only grows. -/
theorem Script.Within.recorded {b : Behaviour σ} {post : Option α → σ → Prop} {s : Script α}
    {st : σ} (h : s.Within b post st) (made : List Request) :
    s.Within b.recorded (fun o st' => made <:+ st'.1 ∧ post o st'.2) (made, st) := by
  induction s generalizing st made with
  | done a => exact ⟨List.suffix_refl made, h⟩
  | panic => exact ⟨List.suffix_refl made, h⟩
  | record event next ih => exact ih h made
  | call request next ih =>
    rintro answer ⟨_, st'⟩ ⟨rfl, hst'⟩
    refine Within.mono (ih answer (h answer st' hst') (request :: made)) fun o st'' hst'' => ?_
    exact ⟨(List.suffix_cons request made).trans hst''.1, hst''.2⟩

theorem Action.Within.recorded {b : Behaviour σ} {a : Action α} {st : σ} {ok : α → σ → Prop}
    {bad : Option RegistryError → σ → Prop} (h : Action.Within b a st ok bad)
    (made : List Request) :
    Action.Within b.recorded a (made, st) (fun v st' => made <:+ st'.1 ∧ ok v st'.2)
      fun o st' => made <:+ st'.1 ∧ bad o st'.2 := by
  refine Script.Within.mono (Script.Within.recorded h made) fun o st' hst' => ?_
  match o with
  | some (.ok v) => exact hst'
  | some (.error e) => exact hst'
  | none => exact hst'

end LoginRegistry
