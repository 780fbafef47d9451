import LoginRegistry.Proofs.Json.Reader

/-! # What a record is read as

    A record given as an object is a fold over the members (`Record.take`), closed by a look at
    the required fields (`Record.finish`); given as an array it is filled field by field
    (`Record.takeAll`).  The reader of a record does just that (`yields_record_object`,
    `yields_record_array`), so it is local if those of its fields are.
-/

namespace LoginRegistry.Json

open Ascii

namespace Record

/-- A member changes the draft if it is a field that is not seen yet. -/
def take (r : Record σ) (state : List String × σ) (m : Bytes × Tree) :
    Except Error (List String × σ) := do
  let name ← Reader.string.on (.string m.1)
  match r.fields.find? (·.name == name) with
  | none => return state
  | some field =>
    if state.1.contains name then throw (.duplicateField name)
    let change ← field.read.on m.2
    return (name :: state.1, change state.2)

/-- The draft is the record if no required field is missing. -/
def finish (r : Record σ) (state : List String × σ) : Except Error σ :=
  match r.fields.find? fun f => f.required && !state.1.contains f.name with
  | some missing => throw (.missingField missing.name)
  | none => return state.2

/-- Values fill the fields in order; fields that are left over need a default, values that are
    left over are an error. -/
def takeAll (r : Record σ) (index : Nat) : List (Field σ) → List Tree → σ → Except Error σ
  | [], [], draft => return draft
  | [], _ :: _, _ => throw .malformed
  | field :: fields, [], draft =>
    if field.required then throw (.wrongLength index r.name r.fields.length)
    else r.takeAll (index + 1) fields [] draft
  | field :: fields, t :: ts, draft => do
    let change ← field.read.on t
    r.takeAll (index + 1) fields ts (change draft)

/-! ### Folding over members -/

variable {r : Record σ} {name : String} {m : Bytes × Tree}

/-- A member of another name leaves the draft as it is. -/
theorem take_of_find?_eq_none (hname : Quotes name m.1)
    (hfind : r.fields.find? (·.name == name) = none) (state : List String × σ) :
    r.take state m = .ok state := by
  rw [take, Reader.on_string_of_quotes hname]
  change (match r.fields.find? (·.name == name) with
    | none => _ | some field => _ : Except Error (List String × σ)) = _
  rw [hfind]
  rfl

/-- A field that is not seen yet is changed. -/
theorem take_of_find?_eq_some {field : Field σ} {change : σ → σ} (hname : Quotes name m.1)
    (hfind : r.fields.find? (·.name == name) = some field) (hread : field.read.on m.2 = .ok change)
    (state : List String × σ) (hseen : name ∉ state.1) :
    r.take state m = .ok (name :: state.1, change state.2) := by
  rw [take, Reader.on_string_of_quotes hname]
  change (match r.fields.find? (·.name == name) with
    | none => _ | some field => _ : Except Error (List String × σ)) = _
  rw [hfind]
  simp only [List.contains_eq_mem, hseen, decide_false, Bool.false_eq_true, if_false, hread]
  rfl

/-- Members of other names leave the draft as it is. -/
theorem foldlM_take_of_find?_eq_none {ms : List (Bytes × Tree)} (h : ∀ m ∈ ms, ∃ name,
    Quotes name m.1 ∧ r.fields.find? (·.name == name) = none) (state : List String × σ) :
    ms.foldlM r.take state = .ok state := by
  induction ms with
  | nil => rfl
  | cons m ms ih =>
    obtain ⟨⟨name, hname, hfind⟩, hms⟩ := List.forall_mem_cons.mp h
    rw [List.foldlM_cons, take_of_find?_eq_none hname hfind]
    exact ih hms

/-- The name of a member if it is a field. -/
def fieldName? (r : Record σ) (m : Bytes × Tree) : Option String :=
  (Reader.string.on (.string m.1)).toOption.filter fun name =>
    (r.fields.find? (·.name == name)).isSome

theorem fieldName?_eq (hname : Quotes name m.1) : r.fieldName? m
    = if (r.fields.find? (·.name == name)).isSome then some name else none := by
  rw [fieldName?, Reader.on_string_of_quotes hname]
  rfl

/-- A member of the name is no field, or its value is read and fills in what the family of drafts
    lacks. -/
def Fills (r : Record σ) (upTo : List String → σ) (name : String) (t : Tree) : Prop :=
  r.fields.find? (·.name == name) = none ∨ ∃ field change,
    r.fields.find? (·.name == name) = some field ∧ field.read.on t = .ok change ∧
      ∀ seen, change (upTo seen) = upTo (name :: seen)

/-- Members that fill in what a family of drafts lacks end in the draft of what they have filled
    in, in whatever order they stand. -/
theorem foldlM_take (upTo : List String → σ) {ms : List (Bytes × Tree)}
    (h : ∀ m ∈ ms, ∃ name, Quotes name m.1 ∧ r.Fills upTo name m.2)
    (hnodup : (ms.filterMap r.fieldName?).Nodup) (seen : List String)
    (hseen : ∀ name ∈ ms.filterMap r.fieldName?, name ∉ seen) :
    ms.foldlM r.take (seen, upTo seen) = .ok ((ms.filterMap r.fieldName?).reverse ++ seen,
      upTo ((ms.filterMap r.fieldName?).reverse ++ seen)) := by
  induction ms generalizing seen with
  | nil => rfl
  | cons m ms ih =>
    obtain ⟨⟨name, hname, hfield⟩, hms⟩ := List.forall_mem_cons.mp h
    rw [List.foldlM_cons]
    obtain hfind | ⟨field, change, hfind, hread, hchange⟩ := hfield
    · have hnone : r.fieldName? m = none := by rw [fieldName?_eq hname, hfind]; rfl
      rw [List.filterMap_cons_none hnone] at hnodup hseen ⊢
      rw [take_of_find?_eq_none hname hfind]
      exact ih hms hnodup seen hseen
    · have hsome : r.fieldName? m = some name := by rw [fieldName?_eq hname, hfind]; rfl
      rw [List.filterMap_cons_some hsome] at hnodup hseen ⊢
      obtain ⟨hfresh, hnodup⟩ := List.nodup_cons.mp hnodup
      obtain ⟨hunseen, hseen⟩ := List.forall_mem_cons.mp hseen
      rw [take_of_find?_eq_some hname hfind hread _ hunseen, List.reverse_cons, List.append_assoc]
      have hnew : ∀ other ∈ ms.filterMap r.fieldName?, other ∉ name :: seen :=
        fun other hother hmem =>
          (List.mem_cons.mp hmem).elim (fun heq => hfresh (heq ▸ hother)) (hseen other hother)
      have hstep : ms.foldlM r.take (name :: seen, change (upTo seen))
          = ms.foldlM r.take (name :: seen, upTo (name :: seen)) := by rw [hchange]
      exact hstep.trans (ih hms hnodup (name :: seen) hnew)

theorem finish_eq {state : List String × σ}
    (h : ∀ f ∈ r.fields, f.required = true → f.name ∈ state.1) : r.finish state = .ok state.2 := by
  have hmissing : r.fields.find? (fun f => f.required && !state.1.contains f.name) = none := by
    refine List.find?_eq_none.mpr fun f hf hdue => ?_
    rw [Bool.and_eq_true, Bool.not_eq_true', List.contains_eq_mem, decide_eq_false_iff_not] at hdue
    exact hdue.2 (h f hf hdue.1)
  rw [finish, hmissing]
  rfl

end Record

namespace Reader

variable {r : Record σ} {text rest : Bytes}

/-! ### Steps between members -/

theorem bind_advance (b : UInt8) (f : Unit → Reader β) :
    (advance >>= f) (b :: text) = f () text := rfl

theorem nextMember_close {first : Bool} (htext : skipSpace text = closeBrace :: rest) :
    nextMember first text = .ok (false, closeBrace :: rest) := by
  rw [nextMember, bind_peek htext]
  rfl

/-- Moves to the name that has to follow a comma. -/
def nameDue : Reader Bool := do
  match ← peek with
  | none => throw .endOfText
  | some quote => return true
  | some _ => throw .malformed

theorem nextMember_comma (htext : skipSpace text = comma :: rest) :
    nextMember false text = nameDue rest := by
  rw [nextMember, bind_peek htext]
  rfl

/-- The name of the next member is reached. -/
theorem exists_nextMember (first : Bool) {tail : Bytes} {tokens : List Bytes}
    (h : Spells (if first then (quote :: tail) :: tokens
      else [comma] :: (quote :: tail) :: tokens) text rest) :
    ∃ after, nextMember first text = .ok (true, quote :: (tail ++ after)) ∧
      Spells tokens after rest := by
  cases first with
  | true =>
    obtain ⟨after, htext, h⟩ := h.skipSpace_eq (by decide)
    refine ⟨after, ?_, h⟩
    rw [nextMember, bind_peek htext]
    rfl
  | false =>
    obtain ⟨text', hcomma, h⟩ := h.skipSpace_eq (by decide)
    obtain ⟨after, htext, h⟩ := h.skipSpace_eq (by decide)
    refine ⟨after, ?_, h⟩
    rw [nextMember_comma hcomma, List.nil_append, nameDue, bind_peek htext]
    rfl

theorem exists_colon {tokens : List Bytes} (h : Spells ([Ascii.colon] :: tokens) text rest) :
    ∃ after, Reader.colon text = .ok ((), after) ∧ Spells tokens after rest := by
  obtain ⟨after, htext, h⟩ := h.skipSpace_eq (by decide)
  refine ⟨after, ?_, h⟩
  rw [Reader.colon, bind_peek htext]
  rfl

theorem yields_skip {t : Tree} (ht : t.Valid) : skip.Yields t (.ok ()) := by
  intro text rest hspells hstops
  rw [skip, skipValue_of_spells ht hspells hstops]
  rfl

/-! ### Objects -/

/-- One member is taken, and the members after it are read. -/
theorem exists_members_eq (hr : ∀ f ∈ r.fields, f.read.Local) {token : Bytes} {t : Tree}
    (htoken : IsString token) (ht : t.Valid) (ms : List (Bytes × Tree)) (first : Bool)
    (h : Spells (separated first (memberTokens ((token, t) :: ms)) ++ [[closeBrace]]) text rest) :
    ∃ after, Spells (separated false (memberTokens ms) ++ [[closeBrace]]) after rest ∧
      ∀ fuel seen draft, members r (fuel + 1) first seen draft text
        = (r.take (seen, draft) (token, t) >>= fun s => members r fuel false s.1 s.2 after) := by
  obtain ⟨tail, rfl, hname⟩ := htoken.exists_tail
  have hitem : Spells (if first then (quote :: tail) :: ([Ascii.colon] :: t.tokens
        ++ (separated false (memberTokens ms) ++ [[closeBrace]]))
      else [comma] :: (quote :: tail) :: ([Ascii.colon] :: t.tokens
        ++ (separated false (memberTokens ms) ++ [[closeBrace]]))) text rest := by
    cases first <;> simpa [memberTokens, separated] using h
  obtain ⟨afterName, hnext, hcolon⟩ := exists_nextMember first hitem
  obtain ⟨mid, hpass, hvalue⟩ := exists_colon hcolon
  obtain ⟨after, hspells, hrest⟩ := hvalue.exists_of_append
  have hstops := stops_separated .object hrest
  obtain ⟨o, ho⟩ := exists_readString hname
  have hon : string.on (.string (quote :: tail)) = o := (yields_string ho).on_eq
  refine ⟨after, hrest, fun fuel seen draft => ?_⟩
  rw [members, bind_ok hnext, Record.take]
  simp only [if_true, hon]
  rw [bind_advance]
  cases o with
  | error e => exact bind_error (r := ofScan readString) (ho afterName) _
  | ok name =>
    rw [bind_ok (r := ofScan readString) (ho afterName)]
    change _ = ((match r.fields.find? (·.name == name) with
      | none => _
      | some field => _ : Except Error (List String × σ)) >>= _)
    cases hfind : r.fields.find? (·.name == name) with
    | none =>
      -- No reader looks at the value of an unknown member.
      dsimp only
      rw [bind_ok hpass, bind_ok (yields_skip ht mid after hspells hstops)]
      rfl
    | some field =>
      have hchange := hr field (List.mem_of_find?_eq_some hfind) t ht mid after hspells hstops
      dsimp only
      split
      · rfl
      · rw [bind_ok hpass, bind_eq hchange]
        cases field.read.on t <;> rfl

/-- Members are taken one by one up to the closing brace. -/
theorem members_eq {ms : List (Bytes × Tree)} (hr : ∀ f ∈ r.fields, f.read.Local)
    (hnames : ∀ m ∈ ms, IsString m.1) (hms : ∀ m ∈ ms, m.2.Valid) {fuel : Nat}
    (hfuel : ms.length < fuel) (first : Bool) (seen : List String) (draft : σ)
    (h : Spells (separated first (memberTokens ms) ++ [[closeBrace]]) text rest) :
    members r fuel first seen draft text
      = (ms.foldlM r.take (seen, draft)).map (·, closeBrace :: rest) := by
  induction ms generalizing fuel first seen draft text with
  | nil =>
    obtain ⟨fuel, rfl⟩ := Nat.exists_eq_add_one_of_ne_zero (Nat.ne_of_gt hfuel)
    rw [members, bind_ok (nextMember_close (h.skipSpace_single (by decide)))]
    rfl
  | cons m ms ih =>
    obtain ⟨fuel, rfl⟩ := Nat.exists_eq_add_one_of_ne_zero (Nat.ne_of_gt (Nat.zero_lt_of_lt hfuel))
    obtain ⟨htoken, htokens⟩ := List.forall_mem_cons.mp hnames
    obtain ⟨ht, hts⟩ := List.forall_mem_cons.mp hms
    obtain ⟨after, hrest, hstep⟩ := exists_members_eq hr htoken ht ms first h
    rw [hstep, List.foldlM_cons]
    cases r.take (seen, draft) m with
    | error e => rfl
    | ok state =>
      exact ih htokens hts (Nat.lt_of_succ_lt_succ hfuel) false state.1 state.2 hrest

theorem isItem_of_mem_memberTokens {ms : List (Bytes × Tree)} (hnames : ∀ m ∈ ms, IsString m.1)
    (hms : ∀ m ∈ ms, m.2.Valid) : ∀ item ∈ memberTokens ms, IsItem .object item := by
  intro item hitem
  rw [memberTokens_eq_map] at hitem
  obtain ⟨m, hm, rfl⟩ := List.mem_map.mp hitem
  exact .mk (.member (hnames m hm)) (hms m hm)

/-- Reads the rest of a record's object after the opening brace. -/
def objectRest (r : Record σ) (fuel : Nat) : Reader σ := do
  let (seen, draft) ← members r fuel true [] r.start
  match r.fields.find? fun f => f.required && !seen.contains f.name with
  | some missing => throw (.missingField missing.name)
  | none =>
    advance
    return draft

/-- A record given as an object is a fold over its members. -/
theorem yields_record_object {ms : List (Bytes × Tree)} (hr : ∀ f ∈ r.fields, f.read.Local)
    (hnames : ∀ m ∈ ms, IsString m.1) (hms : ∀ m ∈ ms, m.2.Valid) :
    (record r).Yields (.object ms) (ms.foldlM r.take ([], r.start) >>= r.finish) := by
  refine .of_peek rfl (by decide) fun after rest hspells hstops => ?_
  have hfuel := length_lt_of_spells .object (isItem_of_mem_memberTokens hnames hms)
    hspells
  rw [memberTokens_eq_map, List.length_map] at hfuel
  have hread := members_eq hr hnames hms hfuel true [] r.start hspells
  change objectRest r (after.length + 1) after = _
  refine (bind_eq hread _).trans ?_
  cases ms.foldlM r.take ([], r.start) with
  | error e => rfl
  | ok state =>
    change (match r.fields.find? fun f => f.required && !state.1.contains f.name with
      | some missing => _ | none => _ : Reader σ) (closeBrace :: rest)
        = (r.finish state).map (·, rest)
    rw [Record.finish]
    cases r.fields.find? fun f => f.required && !state.1.contains f.name <;> rfl

/-! ### Arrays -/

/-- After the fields the closing bracket is due. -/
theorem closePositional_eq {ts : List Tree} (hts : ∀ t ∈ ts, t.Valid) (first : Bool)
    (h : Spells (separated first (elementTokens ts) ++ [[closeBracket]]) text rest) :
    closePositional text = if ts = [] then .ok ((), rest) else .error .malformed := by
  have hother : ∀ {b : UInt8} {after : Bytes}, skipSpace text = b :: after → b ≠ closeBracket →
      closePositional text = .error .malformed := by
    intro b after htext hb
    rw [closePositional, bind_peek htext]
    refine (congrFun (g := (throw .malformed : Reader Unit)) ?_ _).trans rfl
    split
    · next heq => cases heq
    · next heq => exact absurd (Option.some.inj heq) hb
    · rfl
  cases ts with
  | nil =>
    rw [if_pos rfl, closePositional, bind_peek (h.skipSpace_single (by decide))]
    rfl
  | cons t ts =>
    rw [if_neg (List.cons_ne_nil _ _)]
    obtain ⟨ht, -⟩ := List.forall_mem_cons.mp hts
    obtain ⟨b, tail, more, htokens, hspace, hclose⟩ := ht.tokens_eq_cons
    cases first with
    | true =>
      rw [elementTokens, htokens] at h
      obtain ⟨after, htext, -⟩ := h.skipSpace_eq hspace
      exact hother htext hclose
    | false =>
      obtain ⟨after, htext, -⟩ := h.skipSpace_eq (by decide)
      exact hother htext (by decide)

/-- The fields are filled one by one, and nothing is left over. -/
theorem positional_eq {fields : List (Field σ)} (hfields : ∀ f ∈ fields, f.read.Local)
    {ts : List Tree} (hts : ∀ t ∈ ts, t.Valid) (index : Nat) (draft : σ)
    (h : Spells (separated (index == 0) (elementTokens ts) ++ [[closeBracket]]) text rest) :
    (positional r index fields draft text >>= fun p => (closePositional p.2).map fun q => (p.1, q.2))
      = (r.takeAll index fields ts draft).map (·, rest) := by
  induction fields generalizing ts index draft text with
  | nil =>
    change (closePositional text).map (fun q => (draft, q.2)) = _
    rw [closePositional_eq hts _ h]
    cases ts <;> rfl
  | cons field fields ih =>
    obtain ⟨hfield, hfields⟩ := List.forall_mem_cons.mp hfields
    cases ts with
    | nil =>
      rw [positional, bind_ok (nextElement_close (h.skipSpace_single (by decide))),
        Record.takeAll]
      simp only [Bool.false_eq_true, if_false]
      split
      · rfl
      · have hclose : Spells (separated false (elementTokens []) ++ [[closeBracket]])
            (closeBracket :: rest) rest := Spells.nil.token
        exact ih hfields hts (index + 1) draft hclose
    | cons t ts =>
      obtain ⟨ht, hts⟩ := List.forall_mem_cons.mp hts
      rw [elementTokens, separated, List.append_assoc] at h
      obtain ⟨mid, hnext, h⟩ := exists_nextElement ht _ h
      obtain ⟨after, hspells, h⟩ := h.exists_of_append
      have hread := hfield t ht mid after hspells (stops_separated .array h)
      rw [positional, bind_ok hnext, Record.takeAll]
      simp only [if_true]
      rw [bind_eq hread]
      cases field.read.on t with
      | error e => rfl
      | ok change => exact ih hfields hts (index + 1) (change draft) h

/-- A record given as an array is filled field by field. -/
theorem yields_record_array {ts : List Tree} (hr : ∀ f ∈ r.fields, f.read.Local)
    (hts : ∀ t ∈ ts, t.Valid) :
    (record r).Yields (.array ts) (r.takeAll 0 r.fields ts r.start) := by
  refine .of_peek rfl (by decide) fun after rest hspells hstops => ?_
  rw [← positional_eq hr hts 0 r.start hspells]
  have hrecord : ∀ text : Bytes, (do
      advance
      let draft ← positional r 0 r.fields r.start
      closePositional
      return draft : Reader σ) (openBracket :: text)
        = (positional r 0 r.fields r.start text >>= fun p =>
            (closePositional >>= fun _ => return p.1 : Reader σ) p.2) := fun _ => rfl
  refine (hrecord after).trans (congrArg _ (funext fun p => ?_))
  cases h : closePositional p.2 with
  | error e => exact bind_error h _
  | ok q => exact bind_ok h _

/-! ### Other values -/

theorem refuses_record {t : Tree} (ht : t.Valid) (hobject : ∀ ms, t ≠ .object ms)
    (harray : ∀ ts, t ≠ .array ts) : (record r).Refuses t := by
  have hstart : t.starts openBrace = false ∧ t.starts openBracket = false := by
    cases t with
    | object ms => exact absurd rfl (hobject ms)
    | array ts => exact absurd rfl (harray ts)
    | boolean value => cases value <;> exact ⟨rfl, rfl⟩
    | _ => exact ⟨rfl, rfl⟩
  refine refuses_of_starts (.record r.name) ht fun b hb => ?_
  split
  · next heq => cases heq
  · next heq => exact absurd (Option.some.inj heq) (ne_of_starts hb hstart.1)
  · next heq => exact absurd (Option.some.inj heq) (ne_of_starts hb hstart.2)
  · rfl

theorem Local.record (hr : ∀ f ∈ r.fields, f.read.Local) : (record r).Local := by
  refine local_of_yields fun t ht => ?_
  by_cases hobject : ∃ ms, t = .object ms
  · obtain ⟨ms, rfl⟩ := hobject
    cases ht with
    | object hnames hms => exact ⟨_, yields_record_object hr hnames hms⟩
  · by_cases harray : ∃ ts, t = .array ts
    · obtain ⟨ts, rfl⟩ := harray
      cases ht with
      | array hts => exact ⟨_, yields_record_array hr hts⟩
    · obtain ⟨e, he⟩ := refuses_record ht (not_exists.mp hobject) (not_exists.mp harray)
      exact ⟨_, he⟩

end Reader

end LoginRegistry.Json
