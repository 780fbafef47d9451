import LoginRegistry.Proofs.Script.Within
import Mathlib.Data.List.Induction
import Mathlib.Logic.Function.Basic

/-! # Scripts that race

    Racers share a state and take turns in any order.  A racer can be a script, whose
    turn is its next request, or a stage of a protocol, whose turn is a step.  So a race
    of scripts can be followed as a race of stages, which is plain data.

    * `Script.turn`: one request of a script, and the events before it.
    * `Script.Next`: what one turn can come to within a behaviour.  `Action.Once` is the
      same for an action that makes a single request.
    * `Race.runScripts_of_follows`: scripts that follow stages race as these do.
-/

namespace LoginRegistry

open Store (Request)

/-! ### Turns of a script -/

namespace Script

/-- How a script has ended (`some none` by a panic), if it has; events may be left to be
    reported. -/
def ended? : Script α → Option (Option α)
  | .done a => some (some a)
  | .panic => some none
  | .call _ _ => none
  | .record _ next => next.ended?

/-- Reports the events that are due and makes the next request.  A script that has ended
    makes none. -/
def turn (h : Handler σ) : Script α → σ → Script α × σ
  | .done a, s => (.done a, s)
  | .panic, s => (.panic, s)
  | .call request next, s =>
    let (answer, s) := h.respond request s
    (next answer, s)
  | .record _ next, s => next.turn h s

/-- The script that ends at once; by a panic if there is no result. -/
def ending : Option α → Script α
  | some a => .done a
  | none => .panic

variable {h : Handler σ}

/-- A script that has ended stays as it is, and so does the state. -/
theorem turn_of_ended {s : Script α} {o : Option α} (hs : s.ended? = some o) (d : σ) :
    (s.turn h d).1.ended? = some o ∧ (s.turn h d).2 = d := by
  induction s with
  | done a => exact ⟨hs, rfl⟩
  | panic => exact ⟨hs, rfl⟩
  | call request next ih => cases hs
  | record event next ih => exact ih hs

theorem ended?_discard_ne_none {s : Script α} (hs : s.ended? ≠ none) :
    (discard s).ended? ≠ none := by
  induction s with
  | done a => exact nofun
  | panic => exact nofun
  | call request next ih => exact absurd rfl hs
  | record event next ih => exact ih hs

/-! ### Turns within a behaviour -/

/-- The script makes a request, and whatever comes back, what is left of it and the state
    meet `post`. -/
def Next (b : Behaviour σ) (post : Script α → σ → Prop) : Script α → σ → Prop
  | .done _, _ => False
  | .panic, _ => False
  | .call request next, st => ∀ answer st', b request st answer st' → post (next answer) st'
  | .record _ next, st => next.Next b post st

/-- The script makes one request and ends, with a result (`none` after a panic) and a state
    that meet `post`. -/
def Once (b : Behaviour σ) (post : Option α → σ → Prop) (s : Script α) (st : σ) : Prop :=
  s.Next b (fun s' st' => ∃ o, s' = ending o ∧ post o st') st

/-- The script makes one request, whatever comes back. -/
def Single : Script α → Prop
  | .call _ next => ∀ answer, ∃ o, next answer = ending o
  | _ => False

variable {b : Behaviour σ} {st : σ}

theorem Next.mono {post post' : Script α → σ → Prop} {s : Script α} (h : s.Next b post st)
    (hpost : ∀ s' st', post s' st' → post' s' st') : s.Next b post' st := by
  induction s with
  | done a => exact h
  | panic => exact h
  | call request next ih => exact fun answer st' hst' => hpost _ _ (h answer st' hst')
  | record event next ih => exact ih h

theorem Next.ended?_eq_none {post : Script α → σ → Prop} {s : Script α} (h : s.Next b post st) :
    s.ended? = none := by
  induction s with
  | done a => exact False.elim h
  | panic => exact False.elim h
  | call request next ih => rfl
  | record event next ih => exact ih h

theorem next_bind {post : Script β → σ → Prop} {s : Script α} {f : α → Script β}
    (h : s.Next b (fun s' st' => post (s' >>= f) st') st) : (s >>= f).Next b post st := by
  rw [bind_eq]
  induction s with
  | done a => exact False.elim h
  | panic => exact False.elim h
  | call request next ih => exact h
  | record event next ih => exact ih h

theorem Once.mono {post post' : Option α → σ → Prop} {s : Script α} (h : s.Once b post st)
    (hpost : ∀ o st', post o st' → post' o st') : s.Once b post' st :=
  Next.mono h fun _ st' ⟨o, ho, hst'⟩ => ⟨o, ho, hpost o st' hst'⟩

/-- A single request stays one if what follows makes none. -/
theorem once_bind {post : Option β → σ → Prop} {s : Script α} {f : α → Script β}
    (h : s.Once b (fun o st' =>
      match o with
      | some a => ∃ o', f a = ending o' ∧ post o' st'
      | none => post none st') st) : (s >>= f).Once b post st := by
  refine next_bind (Next.mono h ?_)
  rintro _ st' ⟨o, rfl, hst'⟩
  cases o with
  | none => exact ⟨none, rfl, hst'⟩
  | some a => exact hst'

theorem once_send {request : Request}
    {post : Option (Except Store.Error request.Reply) → σ → Prop}
    (h : ∀ answer st', b request st answer st' → post answer.result st') :
    (send request).Once b post st := by
  intro answer st' hst'
  have hpost := h answer st' hst'
  cases answer <;> exact ⟨_, rfl, hpost⟩

theorem single_send (request : Request) : (send request).Single := by
  intro answer
  cases answer with
  | ok reply => exact ⟨some (.ok reply), rfl⟩
  | failed e => exact ⟨some (.error e), rfl⟩
  | panicked => exact ⟨none, rfl⟩

theorem single_bind {s : Script α} {f : α → Script β} (hs : s.Single)
    (hf : ∀ a, ∃ o, f a = ending o) : (s >>= f).Single := by
  cases s with
  | done a => cases hs
  | panic => cases hs
  | record event next => cases hs
  | call request next =>
    intro answer
    obtain ⟨o, ho⟩ := hs answer
    change ∃ o', (next answer).bind f = ending o'
    rw [ho]
    cases o with
    | none => exact ⟨none, rfl⟩
    | some a => exact hf a

/-- A single request comes to what the script comes to. -/
theorem once_of_within {post : Option α → σ → Prop} {s : Script α} (hs : s.Single)
    (h : s.Within b post st) : s.Once b post st := by
  cases s with
  | done a => cases hs
  | panic => cases hs
  | record event next => cases hs
  | call request next =>
    intro answer st' hst'
    have hrest := h answer st' hst'
    obtain ⟨o, ho⟩ := hs answer
    rw [ho] at hrest
    cases o <;> exact ⟨_, ho, hrest⟩

/-- A script within a behaviour: one turn, and what is left after it. -/
theorem within_of_next {post : Option α → σ → Prop} {s : Script α}
    (h : s.Next b (fun s' st' => s'.Within b post st') st) : s.Within b post st := by
  induction s with
  | done a => cases h
  | panic => cases h
  | call request next ih => exact h
  | record event next ih => exact ih h

/-- What a script comes to by its one request it comes to. -/
theorem within_of_once {post : Option α → σ → Prop} {s : Script α} (h : s.Once b post st) :
    s.Within b post st := by
  refine within_of_next (Next.mono h ?_)
  rintro _ st' ⟨o, rfl, hpost⟩
  cases o with
  | some a => exact hpost
  | none => exact hpost

/-- A handler that obeys a behaviour takes a turn within it. -/
theorem turn_of_next {h : Handler τ} {R : τ → σ → Prop} (hh : h.Obeys b R)
    {post : Script α → σ → Prop} {s : Script α} (hs : s.Next b post st) {x : τ} (hx : R x st) :
    ∃ st', R (s.turn h x).2 st' ∧ post (s.turn h x).1 st' := by
  induction s with
  | done a => cases hs
  | panic => cases hs
  | call request next ih =>
    obtain ⟨st', hst', hx'⟩ := hh.respond request hx
    exact ⟨st', hx', hs _ st' hst'⟩
  | record event next ih => exact ih hs

end Script

/-! ### Turns of an action -/

namespace Action

/-- The action that fails at once; by a panic if there is no error. -/
def failing : Option RegistryError → Action α
  | some e => throw e
  | none => ExceptT.mk .panic

/-- The action makes one request and ends, with a value and a state that meet `ok`, or with
    an error (`none` for a panic) and a state that meet `bad`. -/
def Once (b : Behaviour σ) (a : Action α) (st : σ) (ok : α → σ → Prop)
    (bad : Option RegistryError → σ → Prop) : Prop :=
  a.run.Once b (fun (o : Option (Except RegistryError α)) st' =>
    match o with
    | some (.ok v) => ok v st'
    | some (.error e) => bad (some e) st'
    | none => bad none st') st

variable {b : Behaviour σ} {st : σ}

/-- The first request of a sequence. -/
theorem next_bind {post : Script (Except RegistryError β) → σ → Prop} {a : Action α}
    {f : α → Action β}
    (h : Once b a st (fun v st' => post (f v).run st') fun o st' => post (failing o).run st') :
    (a >>= f).run.Next b post st := by
  refine Script.next_bind (Script.Next.mono h ?_)
  rintro _ st' ⟨o, rfl, hpost⟩
  match o with
  | some (.ok v) => exact hpost
  | some (.error e) => exact hpost
  | none => exact hpost

/-- The last request of a sequence. -/
theorem next_of_once {post : Script (Except RegistryError α) → σ → Prop} {a : Action α}
    (h : Once b a st (fun v st' => post (pure v : Action α).run st')
      fun o st' => post (failing o).run st') : a.run.Next b post st := by
  refine Script.Next.mono h ?_
  rintro _ st' ⟨o, rfl, hpost⟩
  match o with
  | some (.ok v) => exact hpost
  | some (.error e) => exact hpost
  | none => exact hpost

/-- Sampling waits for the end. -/
theorem next_timed {post : Script (Except RegistryError α) → σ → Prop} {operation : TimedOperation}
    {a : Action α}
    (h : a.run.Next b (fun s st' => post (timed operation (ExceptT.mk s)).run st') st) :
    (timed operation a).run.Next b post st :=
  Script.next_bind h

theorem Once.mono {ok ok' : α → σ → Prop} {bad bad' : Option RegistryError → σ → Prop}
    {a : Action α} (h : Once b a st ok bad) (hok : ∀ v st', ok v st' → ok' v st')
    (hbad : ∀ o st', bad o st' → bad' o st') : Once b a st ok' bad' := by
  refine Script.Once.mono h fun o st' hst' => ?_
  match o with
  | some (.ok v) => exact hok v st' hst'
  | some (.error e) => exact hbad (some e) st' hst'
  | none => exact hbad none st' hst'

/-- A script of one request, as an action. -/
theorem once_lift {s : Script α} {ok : α → σ → Prop} {bad : Option RegistryError → σ → Prop}
    (h : s.Once b (fun o st' =>
      match o with
      | some v => ok v st'
      | none => bad none st') st) : Once b (liftM s) st ok bad := by
  refine Script.once_bind (Script.Once.mono h fun o st' hst' => ?_)
  match o with
  | some v => exact ⟨some (.ok v), rfl, hst'⟩
  | none => exact hst'

/-- An action of one request stays one if what follows just ends. -/
theorem once_bind {ok : β → σ → Prop} {bad : Option RegistryError → σ → Prop} {a : Action α}
    {f : α → Action β}
    (h : Once b a st (fun v st' => (∃ w, f v = pure w ∧ ok w st') ∨
      ∃ e, f v = throw e ∧ bad (some e) st') bad) : Once b (a >>= f) st ok bad := by
  refine Script.once_bind (Script.Once.mono h fun o st' hst' => ?_)
  match o, hst' with
  | some (.ok v), .inl ⟨w, hw, hok⟩ => exact ⟨some (.ok w), hw, hok⟩
  | some (.ok v), .inr ⟨e, he, hbad⟩ => exact ⟨some (.error e), he, hbad⟩
  | some (.error e), hbad => exact ⟨some (.error e), rfl, hbad⟩
  | none, hbad => exact hbad

/-- An action of one request stays one if errors are just handled. -/
theorem once_tryCatch {ok : α → σ → Prop} {bad : Option RegistryError → σ → Prop} {a : Action α}
    {f : RegistryError → Action α}
    (h : Once b a st ok fun o st' =>
      match o with
      | some e => (∃ w, f e = pure w ∧ ok w st') ∨ ∃ e', f e = throw e' ∧ bad (some e') st'
      | none => bad none st') : Once b (tryCatch a f) st ok bad := by
  refine Script.once_bind (Script.Once.mono h fun o st' hst' => ?_)
  match o, hst' with
  | some (.ok v), hok => exact ⟨some (.ok v), rfl, hok⟩
  | some (.error e), .inl ⟨w, hw, hok⟩ => exact ⟨some (.ok w), hw, hok⟩
  | some (.error e), .inr ⟨e', he, hbad⟩ => exact ⟨some (.error e'), he, hbad⟩
  | none, hbad => exact hbad

theorem single_bind {a : Action α} {f : α → Action β} (ha : a.run.Single)
    (hf : ∀ v, (∃ w, f v = pure w) ∨ ∃ e, f v = throw e) : (a >>= f).run.Single := by
  refine Script.single_bind ha fun result => ?_
  match result with
  | .error e => exact ⟨some (.error e), rfl⟩
  | .ok v =>
    rcases hf v with ⟨w, hw⟩ | ⟨e, he⟩
    · exact ⟨some (.ok w), hw⟩
    · exact ⟨some (.error e), he⟩

theorem single_ofStore {s : Script (Except Store.Error α)} (hs : s.Single) :
    (ofStore s).run.Single := by
  refine single_bind (Script.single_bind hs fun result => ⟨some (.ok result), rfl⟩) fun result => ?_
  cases result with
  | ok v => exact .inl ⟨v, rfl⟩
  | error e => exact .inr ⟨_, rfl⟩

theorem single_unlessRefused {s : Script (Except Store.Error Unit)} (hs : s.Single) :
    (unlessRefused s).run.Single := by
  refine single_bind (Script.single_bind hs fun result => ⟨some (.ok result), rfl⟩) fun result => ?_
  match result with
  | .ok () => exact .inl ⟨true, rfl⟩
  | .error (.conditionFailed ..) => exact .inl ⟨false, rfl⟩
  | .error (.tableNotFound _) | .error (.invalid _) | .error (.throttled _)
  | .error (.unavailable _) => exact .inr ⟨_, rfl⟩

theorem once_of_within {a : Action α} {ok : α → σ → Prop} {bad : Option RegistryError → σ → Prop}
    (ha : a.run.Single) (h : Within b a st ok bad) : Once b a st ok bad :=
  Script.once_of_within ha h

theorem within_of_once {a : Action α} {ok : α → σ → Prop} {bad : Option RegistryError → σ → Prop}
    (h : Once b a st ok bad) : Within b a st ok bad :=
  Script.within_of_once h

end Action

/-! ### Races -/

/-- Racers, each somewhere on its way, and the state that they share. -/
structure Race (ι S σ : Type) where
  /-- Where each racer is. -/
  racers : ι → S
  /-- The shared state. -/
  state : σ

namespace Race

variable {ι S S' σ σ' : Type} [DecidableEq ι]

/-- One racer takes a turn. -/
def turn (step : ι → S → σ → S × σ) (race : Race ι S σ) (i : ι) : Race ι S σ :=
  let (racer, state) := step i (race.racers i) race.state
  ⟨Function.update race.racers i racer, state⟩

/-- The racers take turns in an order. -/
def run (step : ι → S → σ → S × σ) (race : Race ι S σ) (order : List ι) : Race ι S σ :=
  order.foldl (turn step) race

/-- Scripts race for the answers of a handler. -/
def runScripts (h : Handler σ) (scripts : ι → Script α) (state : σ) (order : List ι) :
    Race ι (Script α) σ :=
  run (fun _ => Script.turn h) ⟨scripts, state⟩ order

variable {step : ι → S → σ → S × σ} {step' : ι → S' → σ' → S' × σ'}

theorem run_concat (race : Race ι S σ) (order : List ι) (i : ι) :
    run step race (order ++ [i]) = turn step (run step race order) i :=
  List.foldl_append

/-- What every turn keeps, with the turns taken so far, holds of a race. -/
theorem run_induction {J : List ι → Race ι S σ → Prop} (race : Race ι S σ) (hstart : J [] race)
    (hturn : ∀ taken race i, J taken race → J (taken ++ [i]) (turn step race i))
    (order : List ι) : J order (run step race order) := by
  induction order using List.reverseRecOn with
  | nil => exact hstart
  | append_singleton taken i ih =>
    rw [run_concat]
    exact hturn taken _ i ih

/-- If the turns of two races correspond, so do the races. -/
theorem run_of_simulates (step : ι → S → σ → S × σ) (step' : ι → S' → σ' → S' × σ')
    {At : ι → S → S' → Prop} {R : σ → σ' → Prop}
    (hsteps : ∀ i s s' x x', At i s s' → R x x' →
      At i (step i s x).1 (step' i s' x').1 ∧ R (step i s x).2 (step' i s' x').2)
    (race : Race ι S σ) (race' : Race ι S' σ')
    (hracers : ∀ i, At i (race.racers i) (race'.racers i)) (hstate : R race.state race'.state)
    (order : List ι) :
    (∀ i, At i ((run step race order).racers i) ((run step' race' order).racers i)) ∧
      R (run step race order).state (run step' race' order).state := by
  induction order using List.reverseRecOn with
  | nil => exact ⟨hracers, hstate⟩
  | append_singleton taken i ih =>
    rw [run_concat, run_concat]
    obtain ⟨hat, hR⟩ := ih
    obtain ⟨hat', hR'⟩ := hsteps i _ _ _ _ (hat i) hR
    refine ⟨fun j => ?_, hR'⟩
    by_cases hj : j = i
    · subst hj
      simpa only [turn, Function.update_self] using hat'
    · simpa only [turn, Function.update_of_ne hj] using hat j

/-! ### Scripts that follow stages -/

/-- Whatever comes back within the behaviour, the script of a stage goes on as that of the
    next stage, and the state follows; a stage without a step is that of an ended script. -/
def Follows (b : Behaviour σ) (script : S → Script α) (step : S → σ → S × σ) : Prop :=
  ∀ stage st, (script stage).ended? ≠ none ∧ step stage st = (stage, st) ∨
    (script stage).Next b
      (fun s' st' => s' = script (step stage st).1 ∧ st' = (step stage st).2) st

/-- Scripts that follow stages race as these do, and those whose stage is that of an ended
    script have ended alike. -/
theorem runScripts_of_follows {h : Handler σ} {b : Behaviour σ'} {R : σ → σ' → Prop}
    (hh : h.Obeys b R) {script : ι → S → Script α} {step : ι → S → σ' → S × σ'}
    (hfollows : ∀ i, Follows b (script i) (step i)) (start : ι → S) {d : σ} {st : σ'}
    (hd : R d st) (order : List ι) :
    let scripts := runScripts h (fun i => script i (start i)) d order
    let stages := run step ⟨start, st⟩ order
    R scripts.state stages.state ∧
      ∀ i, (scripts.racers i).ended? = (script i (stages.racers i)).ended? := by
  -- A turn of an ended script can drop events that are left to be reported.
  let At (i : ι) (s : Script α) (stage : S) : Prop :=
    s = script i stage ∨
      (script i stage).ended? ≠ none ∧ s.ended? = (script i stage).ended?
  have hturns : ∀ i s stage d st, At i s stage → R d st →
      At i (s.turn h d).1 (step i stage st).1 ∧ R (s.turn h d).2 (step i stage st).2 := by
    intro i s stage d st hat hR
    have hsame : s.ended? = (script i stage).ended? := by
      rcases hat with rfl | ⟨-, hsame⟩
      · rfl
      · exact hsame
    rcases hfollows i stage st with ⟨hended, hstep⟩ | hnext
    · obtain ⟨o, ho⟩ := Option.ne_none_iff_exists'.mp hended
      obtain ⟨hturn, hstate⟩ := Script.turn_of_ended (h := h) (hsame.trans ho) d
      rw [hstep, hstate]
      exact ⟨.inr ⟨hended, hturn.trans ho.symm⟩, hR⟩
    · rcases hat with rfl | ⟨hended, -⟩
      · obtain ⟨st', hR', hs', rfl⟩ := Script.turn_of_next hh hnext hR
        exact ⟨.inl hs', hR'⟩
      · exact absurd hnext.ended?_eq_none hended
  obtain ⟨hracers, hstate⟩ := run_of_simulates (fun _ => Script.turn h) step hturns
    ⟨fun i => script i (start i), d⟩ ⟨start, st⟩ (fun i => .inl rfl) hd order
  refine ⟨hstate, fun i => ?_⟩
  rcases hracers i with hracer | ⟨-, hracer⟩
  · exact congrArg _ hracer
  · exact hracer

end Race

end LoginRegistry
