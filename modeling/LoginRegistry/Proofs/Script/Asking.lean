import LoginRegistry.Proofs.Script.Racing
import LoginRegistry.Workers

/-! # Requests of a script

    `Script.Asks P s` says that every request that the script can make meets `P`, whatever
    comes back.  Scripts that run side by side make no other requests than on their own
    (`Asks.both`, `asks_pool`), so what every request preserves they keep in any order
    (`Asks.keeps`).  If the requests of two scripts commute, it does not matter which turns
    they take (`run_both_isolate`).
-/

namespace LoginRegistry

open Store (Request)

/-- The request takes states with the property to states with the property. -/
def Behaviour.Preserves (b : Behaviour σ) (I : σ → Prop) (request : Request) : Prop :=
  ∀ st answer st', b request st answer st' → I st → I st'

theorem Behaviour.preserves_recorded {b : Behaviour σ} {request : Request}
    {I : List Request × σ → Prop}
    (h : ∀ made st answer st', I (made, st) → b request st answer st' → I (request :: made, st')) :
    b.recorded.Preserves I request := by
  rintro ⟨made, st⟩ answer ⟨_, st'⟩ ⟨rfl, hst'⟩ hst
  exact h made st answer st' hst hst'

/-- Neither request changes the answer to the other one, and both orders leave the same. -/
structure Handler.Commutes (h : Handler σ) (q q' : Request) (st : σ) : Prop where
  first : (h.respond q (h.respond q' st).2).1 = (h.respond q st).1
  second : (h.respond q' (h.respond q st).2).1 = (h.respond q' st).1
  state : (h.respond q' (h.respond q st).2).2 = (h.respond q (h.respond q' st).2).2

namespace Script

variable {P : Request → Prop} {b : Behaviour σ} {I : σ → Prop}

/-- Whatever comes back, each request of the script meets `P`. -/
def Asks (P : Request → Prop) : Script α → Prop
  | .done _ => True
  | .panic => True
  | .call request next => P request ∧ ∀ answer, (next answer).Asks P
  | .record _ next => next.Asks P

/-- What every request preserves is kept. -/
theorem Asks.keeps {s : Script α} (h : s.Asks (b.Preserves I)) : s.Keeps b I := by
  intro st hst
  induction s generalizing st with
  | done a => exact hst
  | panic => exact hst
  | call request next ih =>
    exact fun answer st' hst' => ih answer (h.2 answer) st' (h.1 st answer st' hst' hst)
  | record event next ih => exact ih h st hst

theorem asks_pure (a : α) : (pure a : Script α).Asks P := trivial

theorem asks_report (event : Event) : (report event).Asks P := trivial

theorem asks_send {request : Request} (h : P request) : (send request).Asks P :=
  ⟨h, fun answer => by cases answer <;> trivial⟩

theorem Asks.bind {s : Script α} {f : α → Script β} (hs : s.Asks P) (hf : ∀ a, (f a).Asks P) :
    (s >>= f).Asks P := by
  rw [bind_eq]
  induction s with
  | done a => exact hf a
  | panic => trivial
  | call request next ih => exact ⟨hs.1, fun answer => ih answer (hs.2 answer)⟩
  | record event next ih => exact ih hs

theorem Asks.isolate {s : Script α} (hs : s.Asks P) : s.isolate.Asks P := by
  induction s with
  | done a => trivial
  | panic => trivial
  | call request next ih => exact ⟨hs.1, fun answer => ih answer (hs.2 answer)⟩
  | record event next ih => exact ih hs

/-- A move makes at most one request, and what is left of the script makes the others. -/
theorem Asks.move {s : Script α} {f : Script α → Script β} (hs : s.Asks P)
    (hf : ∀ s', s'.Asks P → (f s').Asks P) : (s.move f).Asks P := by
  cases s with
  | done a => exact hf _ hs
  | panic => exact hf _ hs
  | call request next => exact ⟨hs.1, fun answer => hf _ (hs.2 answer)⟩
  | record event next => exact hf next hs

theorem Asks.both {s : Script α} {t : Script β} (hs : s.Asks P) (ht : t.Asks P)
    (turns : List Bool) : (Script.both turns s t).Asks P := by
  induction turns generalizing s t with
  | nil => exact hs.bind fun _ => ht.bind fun _ => asks_pure _
  | cons turn turns ih =>
    cases turn with
    | false => exact hs.move fun _ hs' => ih hs' ht
    | true => exact ht.move fun _ ht' => ih hs ht'

theorem asks_mapM {scripts : List (Script α)} (h : ∀ s ∈ scripts, s.Asks P) :
    (scripts.mapM id).Asks P := by
  induction scripts with
  | nil => exact asks_pure []
  | cons s scripts ih =>
    obtain ⟨hs, hrest⟩ := List.forall_mem_cons.mp h
    rw [List.mapM_cons]
    exact hs.bind fun _ => (ih hrest).bind fun _ => asks_pure _

theorem asks_pool {scripts : List (Script α)} (h : ∀ s ∈ scripts, s.Asks P) (width : Nat)
    (turns : List Nat) : (pool width turns scripts).Asks P := by
  induction turns generalizing scripts with
  | nil => exact asks_mapM h
  | cons turn turns ih =>
    rw [pool]
    split
    · exact ih h
    · split
      · exact ih h
      · next i _ s hs =>
        refine Asks.move (h s (List.mem_of_getElem? hs)) fun s' hs' => ih fun t ht => ?_
        rcases List.mem_or_eq_of_mem_set ht with ht | rfl
        · exact h t ht
        · exact hs'

theorem run_isolate (h : Handler σ) (s : Script α) (st : σ) :
    (s.isolate.run h st).result = some (s.run h st).result ∧
      (s.isolate.run h st).state = (s.run h st).state := by
  induction s generalizing st with
  | done a => exact ⟨rfl, rfl⟩
  | panic => exact ⟨rfl, rfl⟩
  | call request next ih => exact ih _ _
  | record event next ih => exact ih st

/-- Without turns the second script starts from what the first one leaves. -/
theorem run_both_nil_isolate (h : Handler σ) (s : Script α) (t : Script β) (st : σ) :
    let serial := (both [] s.isolate t.isolate).run h st
    let first := s.run h st
    let second := t.run h first.state
    serial.result = some (first.result, second.result) ∧ serial.state = second.state := by
  intro serial first second
  obtain ⟨hfirst, hstate⟩ := run_isolate h s st
  obtain ⟨hsecond, hstate'⟩ := run_isolate h t (s.run h st).state
  simp only [serial, both, result_run_bind, state_run_bind, hfirst, hstate, hsecond]
  exact ⟨rfl, hstate'⟩

section commuting

variable {Q : Request → Prop} {h : Handler σ}
  (hcommutes : ∀ {st q q'}, I st → P q → Q q' → h.Commutes q q' st)
  (hleft : ∀ {st q}, I st → P q → I (h.respond q st).2)

include hcommutes hleft

/-- A request that commutes with those of a script comes before it or after it. -/
theorem Asks.respond_run {s : Script α} (hs : s.Asks P) {q : Request} (hq : Q q) {st : σ}
    (hst : I st) :
    let ahead := h.respond q st
    (s.run h ahead.2).result = (s.run h st).result ∧
      h.respond q (s.run h st).state = (ahead.1, (s.run h ahead.2).state) := by
  intro ahead
  -- The request passes those of the script one by one, from the first one on.
  induction s generalizing st with
  | done a => exact ⟨rfl, rfl⟩
  | panic => exact ⟨rfl, rfl⟩
  | record event next ih => exact ih hs hst
  | call request next ih =>
    have hcommutes := hcommutes hst hs.1 hq
    obtain ⟨hresult, hlast⟩ := ih (h.respond request st).1 (hs.2 _) (hleft hst hs.1)
    rw [hcommutes.second, hcommutes.state] at hlast
    rw [hcommutes.state] at hresult
    simp only [run, ahead, hcommutes.first]
    exact ⟨hresult, hlast⟩

variable (hright : ∀ {st q}, I st → Q q → I (h.respond q st).2)

include hright

/-- If the requests of two scripts commute, the turns that these take do not matter. -/
theorem run_both_isolate {s : Script α} {t : Script β} (hs : s.Asks P) (ht : t.Asks Q) {st : σ}
    (hst : I st) (turns : List Bool) :
    let run := (both turns s.isolate t.isolate).run h st
    let serial := (both [] s.isolate t.isolate).run h st
    run.result = serial.result ∧ run.state = serial.state := by
  intro run serial
  -- After each turn the rest of the turns comes to what is left of both scripts in order.
  induction turns generalizing s t st with
  | nil => exact ⟨rfl, rfl⟩
  | cons turn turns ih =>
    cases turn with
    | false =>
      cases s with
      | done a => exact ih (s := .done a) hs ht hst
      | panic => exact ih (s := .panic) hs ht hst
      | record event next => exact ih (s := next) hs ht hst
      | call request next => exact ih (hs.2 _) ht (hleft hst hs.1)
    | true =>
      cases t with
      | done a => exact ih (t := .done a) hs ht hst
      | panic => exact ih (t := .panic) hs ht hst
      | record event next =>
        obtain ⟨hresult, hstate⟩ := ih (t := next) hs ht hst
        have hserial := run_both_nil_isolate h s (.record event next) st
        rw [(run_both_nil_isolate _ _ _ _).1] at hresult
        rw [(run_both_nil_isolate _ _ _ _).2] at hstate
        exact ⟨hresult.trans hserial.1.symm, hstate.trans hserial.2.symm⟩
      | call request next =>
        -- The request comes ahead of those of the first script.
        obtain ⟨hresult, hstate⟩ := ih hs (ht.2 (h.respond request st).1) (hright hst ht.1)
        obtain ⟨hsame, hlast⟩ := hs.respond_run hcommutes hleft ht.1 hst
        have hserial := run_both_nil_isolate h s (.call request next) st
        simp only [Script.run, hlast] at hserial
        rw [(run_both_nil_isolate _ _ _ _).1, hsame] at hresult
        rw [(run_both_nil_isolate _ _ _ _).2] at hstate
        exact ⟨hresult.trans hserial.1.symm, hstate.trans hserial.2.symm⟩

end commuting

end Script

namespace Action

variable {P : Request → Prop} {b : Behaviour σ} {I : σ → Prop}

theorem asks_pure (v : α) : (pure v : Action α).run.Asks P := trivial

theorem asks_throw (e : RegistryError) : (throw e : Action α).run.Asks P := trivial

theorem asks_bind {a : Action α} {f : α → Action β} (ha : a.run.Asks P)
    (hf : ∀ v, (f v).run.Asks P) : (a >>= f).run.Asks P := by
  refine Script.Asks.bind ha fun result => ?_
  match result with
  | .ok v => exact hf v
  | .error e => exact Script.asks_pure (Except.error e)

theorem asks_lift {s : Script α} (hs : s.Asks P) : (liftM s : Action α).run.Asks P :=
  hs.bind fun v => Script.asks_pure (Except.ok v)

theorem asks_ofExcept (e : Except RegistryError α) : (liftM e : Action α).run.Asks P := trivial

theorem asks_timed {a : Action α} (ha : a.run.Asks P) (operation : TimedOperation) :
    (timed operation a).run.Asks P :=
  ha.bind fun result => (Script.asks_report _).bind fun _ => Script.asks_pure result

theorem asks_ofStore {s : Script (Except Store.Error α)} (hs : s.Asks P) :
    (ofStore s).run.Asks P := by
  refine asks_bind (asks_lift hs) fun result => ?_
  match result with
  | .ok v => exact asks_pure v
  | .error e => exact asks_throw _

theorem asks_unlessRefused {s : Script (Except Store.Error Unit)} (hs : s.Asks P) :
    (unlessRefused s).run.Asks P := by
  refine asks_bind (asks_lift hs) fun result => ?_
  match result with
  | .ok () => exact asks_pure true
  | .error (.conditionFailed ..) => exact asks_pure false
  | .error (.tableNotFound _) | .error (.invalid _) | .error (.throttled _)
  | .error (.unavailable _) => exact asks_throw _

end Action

end LoginRegistry
