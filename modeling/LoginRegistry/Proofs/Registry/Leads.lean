import LoginRegistry.Proofs.Registry.Contents
import LoginRegistry.Proofs.Store.Behaviour

/-! # What an action leads to

    `Registry.Leads` says where an action started on some contents ends, whatever
    befalls its exposed requests: with a value and contents that meet `ok`, or with
    an error (`none` for a panic) and contents that meet `bad`.  There is one rule
    for each way to build an action and one for each request of the registry.  A
    proof about an operation applies the rules in the order of its requests.
-/

namespace LoginRegistry

open Store (Condition Database Operation)

namespace Registry

/-! ### Judgements -/

/-- However its exposed requests fare, the script ends with a result (`none` after a
    panic) and contents that meet `post`. -/
def Ends (r : Registry) (exposed : Operation → String → Bool) (s : Script α) (c : Contents)
    (post : Option α → Contents → Prop) : Prop :=
  s.Always (.genuine exposed) (fun o d => ∃ c', d = r.store c' ∧ post o c') (r.store c)

/-- However its exposed requests fare, the action ends with a value and contents that
    meet `ok`, or with an error (`none` for a panic) and contents that meet `bad`. -/
def Leads (r : Registry) (exposed : Operation → String → Bool) (a : Action α) (c : Contents)
    (ok : α → Contents → Prop) (bad : Option RegistryError → Contents → Prop) : Prop :=
  r.Ends exposed a.run c fun o c' =>
    match o with
    | some (.ok v) => ok v c'
    | some (.error e) => bad (some e) c'
    | none => bad none c'

/-- What a spoiled request brings to its action: a panic, or an error of the store
    that is no refusal. -/
inductive Spoiled : Option RegistryError → Prop where
  | panicked : Spoiled none
  | failed {e : Store.Error} : e.isConditionFailed = false → Spoiled (some (.store e))

variable {r : Registry} {exposed : Operation → String → Bool} {c : Contents}

/-! ### Building scripts -/

section scripts

variable {post : Option β → Contents → Prop}

theorem Ends.mono {post' : Option β → Contents → Prop} {s : Script β}
    (h : r.Ends exposed s c post) (hpost : ∀ o c', post o c' → post' o c') :
    r.Ends exposed s c post' :=
  Script.Always.mono h fun o _ ⟨c', hd, hc⟩ => ⟨c', hd, hpost o c' hc⟩

theorem ends_pure {a : β} (h : post (some a) c) : r.Ends exposed (pure a) c post :=
  ⟨c, rfl, h⟩

theorem ends_bind {s : Script α} {f : α → Script β}
    (h : r.Ends exposed s c fun o c' =>
      match o with
      | some a => r.Ends exposed (f a) c' post
      | none => post none c') :
    r.Ends exposed (s >>= f) c post := by
  refine Script.always_bind.mpr (Script.Always.mono h fun o d ⟨c', hd, hc⟩ => ?_)
  subst hd
  cases o with
  | none => exact ⟨c', rfl, hc⟩
  | some a => exact hc

theorem ends_report {event : Event} {post : Option Unit → Contents → Prop}
    (h : post (some ()) c) : r.Ends exposed (Script.report event) c post :=
  ⟨c, rfl, h⟩

theorem ends_isolate {s : Script α} {post : Option (Option α) → Contents → Prop}
    (h : r.Ends exposed s c fun o c' => post (some o) c') : r.Ends exposed s.isolate c post :=
  Script.always_isolate.mpr h

end scripts

/-! ### Building actions -/

section actions

variable {ok : β → Contents → Prop} {bad : Option RegistryError → Contents → Prop}

theorem Leads.mono {ok' : β → Contents → Prop} {bad' : Option RegistryError → Contents → Prop}
    {a : Action β} (h : r.Leads exposed a c ok bad) (hok : ∀ v c', ok v c' → ok' v c')
    (hbad : ∀ o c', bad o c' → bad' o c') : r.Leads exposed a c ok' bad' := by
  refine Ends.mono h fun o c' hc => ?_
  match o with
  | some (.ok v) => exact hok v c' hc
  | some (.error e) => exact hbad (some e) c' hc
  | none => exact hbad none c' hc

theorem leads_pure {v : β} (h : ok v c) : r.Leads exposed (pure v) c ok bad :=
  ⟨c, rfl, h⟩

theorem leads_throw {e : RegistryError} (h : bad (some e) c) :
    r.Leads exposed (throw e : Action β) c ok bad :=
  ⟨c, rfl, h⟩

theorem leads_bind {a : Action α} {f : α → Action β}
    (h : r.Leads exposed a c (fun v c' => r.Leads exposed (f v) c' ok bad) bad) :
    r.Leads exposed (a >>= f) c ok bad := by
  refine ends_bind (Ends.mono h fun o c' hc => ?_)
  match o with
  | some (.ok v) => exact hc
  | some (.error e) => exact ⟨c', rfl, hc⟩
  | none => exact hc

theorem leads_map {a : Action α} {f : α → β}
    (h : r.Leads exposed a c (fun v c' => ok (f v) c') bad) :
    r.Leads exposed (f <$> a) c ok bad := by
  refine ends_bind (Ends.mono h fun o c' hc => ?_)
  match o with
  | some (.ok v) => exact ⟨c', rfl, hc⟩
  | some (.error e) => exact ⟨c', rfl, hc⟩
  | none => exact hc

/-- A script as an action ends as it does, without errors of its own. -/
theorem leads_lift {s : Script β}
    (h : r.Ends exposed s c fun o c' =>
      match o with
      | some v => ok v c'
      | none => bad none c') :
    r.Leads exposed (liftM s) c ok bad := by
  refine ends_bind (Ends.mono h fun o c' hc => ?_)
  match o with
  | some v => exact ends_pure hc
  | none => exact hc

/-- A script that may fail in the store, as an action. -/
theorem leads_ofStore_of_ends {s : Script (Except Store.Error β)}
    (h : r.Ends exposed s c fun o c' =>
      match o with
      | some (.ok v) => ok v c'
      | some (.error e) => bad (some (.store e)) c'
      | none => bad none c') :
    r.Leads exposed (Action.ofStore s) c ok bad := by
  refine leads_bind (leads_lift (Ends.mono h fun o c' hc => ?_))
  match o with
  | some (.ok v) => exact leads_pure hc
  | some (.error e) => exact leads_throw hc
  | none => exact hc

/-- Errors are handed to a handler, panics are not. -/
theorem leads_tryCatch {a : Action β} {f : RegistryError → Action β}
    (h : r.Leads exposed a c ok fun o c' =>
      match o with
      | some e => r.Leads exposed (f e) c' ok bad
      | none => bad none c') :
    r.Leads exposed (tryCatch a f) c ok bad := by
  refine ends_bind (Ends.mono h fun o c' hc => ?_)
  match o with
  | some (.ok v) => exact ⟨c', rfl, hc⟩
  | some (.error e) => exact hc
  | none => exact hc

/-- Sampling changes nothing. -/
theorem leads_timed {operation : TimedOperation} {a : Action β}
    (h : r.Leads exposed a c ok bad) : r.Leads exposed (Action.timed operation a) c ok bad := by
  refine ends_bind (Ends.mono h fun o c' hc => ?_)
  match o with
  | some result => exact ends_bind (ends_report (ends_pure hc))
  | none => exact hc

/-- An action that runs apart ends in every case. -/
theorem ends_isolate_run {a : Action α} {post : Option (Option (Except RegistryError α)) →
    Contents → Prop}
    (h : r.Leads exposed a c (fun v c' => post (some (some (.ok v))) c') fun o c' =>
      match o with
      | some e => post (some (some (.error e))) c'
      | none => post (some none) c') :
    r.Ends exposed a.run.isolate c post := by
  refine ends_isolate (Ends.mono h fun o c' hc => ?_)
  match o with
  | some (.ok v) => exact hc
  | some (.error e) => exact hc
  | none => exact hc

end actions

/-! ### From tables to contents -/

theorem spoiled_of_brings {request : Store.Request} {m : Mishap} {o : Option RegistryError}
    (hm : Exposure.genuine exposed request m = true) (h : m.Brings o) :
    Spoiled o ∧ ∃ operation table, exposed operation table = true := by
  simp only [Exposure.genuine, Bool.and_eq_true] at hm
  obtain ⟨hexposed, hgenuine⟩ := hm
  obtain ⟨table, -, hx⟩ := List.any_eq_true.mp hexposed
  refine ⟨?_, _, table, hx⟩
  cases h with
  | failure e => exact .failed (by simpa [Mishap.isGenuine] using hgenuine)
  | panic => exact .panicked

/-- What holds within the behaviour of the tables of some contents holds of the contents,
    if it leaves such tables again. -/
theorem leads_of_within (hr : Function.Injective r.config.tables.name) {a : Action β}
    {ok : β → Contents → Prop} {bad : Option RegistryError → Contents → Prop}
    (h : Action.Within (r.config.tables.behaviour (.genuine exposed)) a c.tables
      (fun v t => ∃ c', t = c'.tables ∧ ok v c') fun o t => ∃ c', t = c'.tables ∧ bad o c') :
    r.Leads exposed a c ok bad := by
  refine Script.Always.mono (TableNames.always_of_within hr h) fun o d ⟨t, hd, hpost⟩ => ?_
  match o, hpost with
  | some (.ok v), ⟨c', ht, hok⟩ => exact ⟨c', by rw [hd, ht]; rfl, hok⟩
  | some (.error e), ⟨c', ht, hbad⟩ => exact ⟨c', by rw [hd, ht]; rfl, hbad⟩
  | none, ⟨c', ht, hbad⟩ => exact ⟨c', by rw [hd, ht]; rfl, hbad⟩

/-! ### Requests -/

/-- The script makes one request, which the database answers by `respond`. -/
def Asks (s : Script (Except Store.Error α)) (operation : Operation) (table : String)
    (respond : Database → Answer α × Database) : Prop :=
  ∀ {exposed : Operation → String → Bool} {post : Option (Except Store.Error α) → Database → Prop}
    {d : Database}, post (respond d).1.result (respond d).2 →
    (exposed operation table = true → ∀ e, e.isConditionFailed = false → post (some (.error e)) d) →
    (exposed operation table = true → post none d) → s.Always (.genuine exposed) post d

theorem asks_put (q : Store.Put) :
    Asks (Script.put q) .put q.table fun d => d.written (d.put q) :=
  fun h hfailed hpanic =>
    Script.always_send (.put q) rfl nofun h hfailed hpanic

theorem asks_update (q : Store.Update) :
    Asks (Script.update q) .update q.table fun d => d.written (d.update q) :=
  fun h hfailed hpanic =>
    Script.always_send (.update q) rfl nofun h hfailed hpanic

theorem asks_delete (q : Store.Delete) :
    Asks (Script.delete q) .delete q.table fun d => d.written (d.delete q) :=
  fun h hfailed hpanic =>
    Script.always_send (.delete q) rfl nofun h hfailed hpanic

theorem asks_get (q : Store.Get) :
    Asks (Script.get q) .get q.table fun d => d.looked (d.get q) :=
  fun h hfailed hpanic =>
    Script.always_send (.get q) rfl nofun h hfailed hpanic

section asking

variable {operation : Operation} {table : String}

theorem ends_asks {s : Script (Except Store.Error α)} {respond : Database → Answer α × Database}
    (hs : Asks s operation table respond) {answer : Answer α} {c' : Contents}
    {post : Option (Except Store.Error α) → Contents → Prop}
    (hrespond : respond (r.store c) = (answer, r.store c')) (hanswer : post answer.result c')
    (hfailed : exposed operation table = true → ∀ e, e.isConditionFailed = false →
      post (some (.error e)) c)
    (hpanic : exposed operation table = true → post none c) :
    r.Ends exposed s c post := by
  refine hs ?_ (fun hx e he => ⟨c, rfl, hfailed hx e he⟩) fun hx => ⟨c, rfl, hpanic hx⟩
  rw [hrespond]
  exact ⟨c', rfl, hanswer⟩

/-- A request that is not refused brings its reply, or it is spoiled. -/
theorem leads_ofStore {s : Script (Except Store.Error α)}
    {respond : Database → Answer α × Database} (hs : Asks s operation table respond) {v : α}
    {c' : Contents} {ok : α → Contents → Prop} {bad : Option RegistryError → Contents → Prop}
    (hrespond : respond (r.store c) = (.ok v, r.store c')) (hok : ok v c')
    (hspoiled : exposed operation table = true → ∀ o, Spoiled o → bad o c) :
    r.Leads exposed (Action.ofStore s) c ok bad := by
  refine leads_ofStore_of_ends (ends_asks hs hrespond hok ?_ ?_)
  · intro hx e he
    exact hspoiled hx _ (.failed he)
  · exact fun hx => hspoiled hx _ .panicked

/-- An error that is no refusal is passed on. -/
theorem leads_notRefused {e : Store.Error} (he : e.isConditionFailed = false)
    {ok : Bool → Contents → Prop} {bad : Option RegistryError → Contents → Prop}
    (h : bad (some (.store e)) c) :
    r.Leads exposed (match (.error e : Except Store.Error Unit) with
      | .ok () => pure true
      | .error (.conditionFailed ..) => pure false
      | .error e => throw (.store e)) c ok bad := by
  cases e with
  | conditionFailed => cases he
  | _ => exact leads_throw h

/-- A conditional write is applied or refused, or it is spoiled. -/
theorem leads_unlessRefused {s : Script (Except Store.Error Unit)}
    {write : Database → Except Store.Error Database}
    (hs : Asks s operation table fun d => d.written (write d)) {permitted : Bool} {d' : Database}
    {c' : Contents} {name : String} {old : Option Store.Item}
    {ok : Bool → Contents → Prop} {bad : Option RegistryError → Contents → Prop}
    (hwrite : write (r.store c)
      = if permitted = true then .ok d' else .error (.conditionFailed name old))
    (hstored : permitted = true → d' = r.store c')
    (happlied : permitted = true → ok true c') (hrefused : permitted = false → ok false c)
    (hspoiled : exposed operation table = true → ∀ o, Spoiled o → bad o c) :
    r.Leads exposed (Action.unlessRefused s) c ok bad := by
  refine leads_bind (leads_lift ?_)
  have hpanic := fun hx => hspoiled hx _ .panicked
  -- The database either applies the write or refuses it by its condition.
  cases permitted with
  | true =>
    have hrespond : (r.store c).written (write (r.store c)) = (.ok (), r.store c') := by
      rw [hwrite, hstored rfl]
      rfl
    exact ends_asks hs hrespond (leads_pure (happlied rfl))
      (fun hx e he => leads_notRefused he (hspoiled hx _ (.failed he))) hpanic
  | false =>
    have hrespond : (r.store c).written (write (r.store c))
        = (.failed (.conditionFailed name old), r.store c) := by
      rw [hwrite]
      rfl
    exact ends_asks hs hrespond (leads_pure (hrefused rfl))
      (fun hx e he => leads_notRefused he (hspoiled hx _ (.failed he))) hpanic

end asking

end Registry

end LoginRegistry
