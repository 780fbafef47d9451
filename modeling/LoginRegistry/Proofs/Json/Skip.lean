import LoginRegistry.Json.Skip
import LoginRegistry.Proofs.Json.Lexeme
import LoginRegistry.Proofs.Json.Number

/-! # Skipping a value

    Any well-formed value is skipped up to exactly its end (`skipValue_of_spells`), to any depth
    and whatever its strings and numbers are, and only well-formed values are skipped
    (`exists_of_skipValue`).  Elements and members are treated alike: an item of a bracket is a
    head, empty or a name with a colon, and a value.
-/

namespace LoginRegistry.Json

open Ascii

/-! ### First bytes -/

theorem isSpace_of_isDigit {b : UInt8} (hb : isDigit b = true) : isSpace b = false := by
  have hne : ∀ c, isDigit c = false → (b == c) = false := fun c hc =>
    beq_false_of_ne (ne_of_isDigit hb hc)
  rw [isSpace, hne _ (by decide), hne _ (by decide), hne _ (by decide), hne _ (by decide)]
  rfl

/-- A number token without its sign starts with a digit. -/
theorem IsUnsigned.exists_digit {token : Bytes} (h : IsUnsigned token) :
    ∃ b tail, token = b :: tail ∧ isDigit b = true := by
  obtain ⟨b, ds, fraction, exponent, hb, -, -, -, -, rfl⟩ := h.exists_cons
  exact ⟨b, _, rfl, hb⟩

/-- A value starts with a byte that is not blank and closes nothing. -/
theorem Tree.Valid.tokens_eq_cons {t : Tree} (h : t.Valid) :
    ∃ b tail more, t.tokens = (b :: tail) :: more ∧ isSpace b = false ∧ b ≠ closeBracket := by
  cases h with
  | null => exact ⟨_, _, _, rfl, by decide, by decide⟩
  | boolean value => cases value <;> exact ⟨_, _, _, rfl, by decide, by decide⟩
  | number h =>
    cases h with
    | positive h =>
      obtain ⟨b, tail, rfl, hb⟩ := h.exists_digit
      exact ⟨b, tail, _, rfl, isSpace_of_isDigit hb, ne_of_isDigit hb (by decide)⟩
    | negative h => exact ⟨_, _, _, rfl, by decide, by decide⟩
  | string h =>
    obtain ⟨tail, rfl, -⟩ := h.exists_tail
    exact ⟨_, tail, _, rfl, by decide, by decide⟩
  | array _ => exact ⟨_, _, _, rfl, by decide, by decide⟩
  | object _ _ => exact ⟨_, _, _, rfl, by decide, by decide⟩

/-! ### Items -/

/-- The byte that opens a bracket. -/
def Bracket.opening : Bracket → UInt8
  | .array => openBracket
  | .object => openBrace

/-- What comes before the value of an element or a member. -/
inductive IsHead : Bracket → List Bytes → Prop where
  | element : IsHead .array []
  | member {name : Bytes} : IsString name → IsHead .object [name, [colon]]

/-- The tokens of an element or a member. -/
inductive IsItem : Bracket → List Bytes → Prop where
  | mk {bracket : Bracket} {head : List Bytes} {t : Tree} : IsHead bracket head → t.Valid →
    IsItem bracket (head ++ t.tokens)

theorem elementTokens_eq_map (ts : List Tree) : elementTokens ts = ts.map Tree.tokens := by
  induction ts with
  | nil => rfl
  | cons t ts ih => rw [elementTokens, List.map_cons, ih]

theorem memberTokens_eq_map (ms : List (Bytes × Tree)) :
    memberTokens ms = ms.map fun m => [m.1, [colon]] ++ m.2.tokens := by
  induction ms with
  | nil => rfl
  | cons m ms ih =>
    rw [memberTokens, List.map_cons, ih]
    rfl

/-- Items between brackets make up a value. -/
theorem exists_tree_of_items {bracket : Bracket} {items : List (List Bytes)}
    (h : ∀ item ∈ items, IsItem bracket item) : ∃ t : Tree, t.Valid ∧
      t.tokens = [bracket.opening] :: (separated true items ++ [[bracket.closing]]) := by
  cases bracket with
  | array =>
    have hts : ∃ ts : List Tree, (∀ t ∈ ts, t.Valid) ∧ items = elementTokens ts := by
      induction items with
      | nil => exact ⟨[], nofun, rfl⟩
      | cons item items ih =>
        obtain ⟨hitem, hitems⟩ := List.forall_mem_cons.mp h
        obtain ⟨ts, hts, rfl⟩ := ih hitems
        cases hitem with
        | @mk _ t hhead ht =>
          cases hhead
          exact ⟨t :: ts, List.forall_mem_cons.mpr ⟨ht, hts⟩, rfl⟩
    obtain ⟨ts, hts, rfl⟩ := hts
    exact ⟨.array ts, .array hts, rfl⟩
  | object =>
    have hms : ∃ ms : List (Bytes × Tree), (∀ m ∈ ms, IsString m.1) ∧ (∀ m ∈ ms, m.2.Valid) ∧
        items = memberTokens ms := by
      induction items with
      | nil => exact ⟨[], nofun, nofun, rfl⟩
      | cons item items ih =>
        obtain ⟨hitem, hitems⟩ := List.forall_mem_cons.mp h
        obtain ⟨ms, hnames, hms, rfl⟩ := ih hitems
        cases hitem with
        | @mk _ t hhead ht =>
          cases hhead with
          | @member name hname =>
            exact ⟨(name, t) :: ms, List.forall_mem_cons.mpr ⟨hname, hnames⟩,
              List.forall_mem_cons.mpr ⟨ht, hms⟩, rfl⟩
    obtain ⟨ms, hnames, hms, rfl⟩ := hms
    exact ⟨.object ms, .object hnames hms, rfl⟩

/-- An item starts with a byte that is not blank and does not close the bracket. -/
theorem IsItem.eq_cons {bracket : Bracket} {item : List Bytes} (h : IsItem bracket item) :
    ∃ b tail more, item = (b :: tail) :: more ∧ isSpace b = false ∧ b ≠ bracket.closing := by
  cases h with
  | mk hhead ht =>
    cases hhead with
    | element => exact ht.tokens_eq_cons
    | member hname =>
      obtain ⟨tail, rfl, -⟩ := hname.exists_tail
      exact ⟨_, tail, _, rfl, by decide, by decide⟩

/-- No number goes on after an item. -/
theorem stops_separated (bracket : Bracket) {items : List (List Bytes)} {text rest : Bytes}
    (h : Spells (separated false items ++ [[bracket.closing]]) text rest) : Stops text := by
  cases items with
  | nil => exact h.stops (by cases bracket <;> decide)
  | cons item items => exact h.stops (.inl rfl)

/-! ### Tokens take space -/

theorem IsHead.ne_nil {bracket : Bracket} {head : List Bytes} (h : IsHead bracket head) :
    ∀ token ∈ head, token ≠ [] := by
  cases h with
  | element => exact nofun
  | member hname =>
    obtain ⟨tail, rfl, -⟩ := hname.exists_tail
    exact List.forall_mem_cons.mpr ⟨List.cons_ne_nil _ _,
      List.forall_mem_singleton.mpr (List.cons_ne_nil _ _)⟩

theorem ne_nil_of_mem_separated {items : List (List Bytes)}
    (h : ∀ item ∈ items, ∀ token ∈ item, token ≠ []) (first : Bool) :
    ∀ token ∈ separated first items, token ≠ [] := by
  induction items generalizing first with
  | nil => exact nofun
  | cons item items ih =>
    obtain ⟨hitem, hitems⟩ := List.forall_mem_cons.mp h
    refine List.forall_mem_append.mpr ⟨?_, ih hitems false⟩
    cases first with
    | true => exact hitem
    | false => exact List.forall_mem_cons.mpr ⟨List.cons_ne_nil _ _, hitem⟩

/-- No token of a value is empty. -/
theorem Tree.Valid.ne_nil {t : Tree} (h : t.Valid) : ∀ token ∈ t.tokens, token ≠ [] := by
  have hbracket : ∀ {items : List (List Bytes)} {opening closing : UInt8},
      (∀ item ∈ items, ∀ token ∈ item, token ≠ []) →
      ∀ token ∈ [opening] :: (separated true items ++ [[closing]]), token ≠ [] :=
    fun hitems => List.forall_mem_cons.mpr ⟨List.cons_ne_nil _ _,
      List.forall_mem_append.mpr ⟨ne_nil_of_mem_separated hitems true,
        List.forall_mem_singleton.mpr (List.cons_ne_nil _ _)⟩⟩
  induction h with
  | null => exact List.forall_mem_singleton.mpr (List.cons_ne_nil _ _)
  | boolean value => cases value <;> exact List.forall_mem_singleton.mpr (List.cons_ne_nil _ _)
  | number h =>
    refine List.forall_mem_singleton.mpr ?_
    cases h with
    | positive h =>
      obtain ⟨b, tail, rfl, -⟩ := h.exists_digit
      exact List.cons_ne_nil _ _
    | negative _ => exact List.cons_ne_nil _ _
  | string h =>
    obtain ⟨tail, rfl, -⟩ := h.exists_tail
    exact List.forall_mem_singleton.mpr (List.cons_ne_nil _ _)
  | array _ ih =>
    refine hbracket fun item hitem => ?_
    rw [elementTokens_eq_map] at hitem
    obtain ⟨t, ht, rfl⟩ := List.mem_map.mp hitem
    exact ih t ht
  | object hnames _ ih =>
    refine hbracket fun item hitem => ?_
    rw [memberTokens_eq_map] at hitem
    obtain ⟨m, hm, rfl⟩ := List.mem_map.mp hitem
    exact List.forall_mem_append.mpr ⟨(IsHead.member (hnames m hm)).ne_nil, ih m hm⟩

/-! ### Steps over heads and words -/

theorem eq_of_expectWord {word text rest : Bytes} (h : expectWord word text = .ok rest) :
    text = word ++ rest := by
  induction word generalizing text with
  | nil => exact Except.ok.inj h
  | cons w word ih =>
    cases text with
    | nil => cases h
    | cons b text =>
      rw [expectWord] at h
      split at h
      · next hb => rw [hb, ih h, List.cons_append]
      · cases h

/-- A head is passed over. -/
theorem skipToValue_of_isHead {bracket : Bracket} {head tokens : List Bytes} {text rest : Bytes}
    (hhead : IsHead bracket head) (h : Spells (head ++ tokens) text rest) :
    ∃ text', skipToValue bracket text = .ok text' ∧ Spells tokens text' rest := by
  cases hhead with
  | element => exact ⟨text, rfl, h⟩
  | member hname =>
    obtain ⟨tail, rfl, hname⟩ := hname.exists_tail
    obtain ⟨after, hquote, hcolon⟩ := h.skipSpace_eq (by decide)
    obtain ⟨text', hskip, h⟩ := hcolon.skipSpace_eq (by decide)
    refine ⟨text', ?_, h⟩
    rw [skipToValue, skipName, hquote]
    change (skipString (tail ++ after) >>= _) = _
    rw [skipString_of_isString hname]
    simp only [bind, Except.bind, hskip]
    rfl

/-- The tokens before a value, with a comma in front of them unless the item comes first, lead
    from one place of the text to another where more tokens follow. -/
def Reaches (first : Bool) (head : List Bytes) (text mid : Bytes) : Prop :=
  ∀ token tokens rest, Spells (token :: tokens) mid rest →
    Spells ((if first then head else [comma] :: head) ++ token :: tokens) text rest

theorem Reaches.comma {head : List Bytes} {text text' mid : Bytes}
    (htext : skipSpace text = comma :: text') (h : Reaches true head text' mid) :
    Reaches false head text mid :=
  fun token tokens rest hspells => .of_byte htext (h token tokens rest hspells)

/-- Only heads are passed over. -/
theorem exists_isHead_of_skipToValue {bracket : Bracket} {text text' : Bytes}
    (h : skipToValue bracket text = .ok text') :
    ∃ head, IsHead bracket head ∧ Reaches true head text text' := by
  cases bracket with
  | array =>
    obtain rfl := Except.ok.inj h
    exact ⟨[], .element, fun _ _ _ h => h⟩
  | object =>
    rw [skipToValue, skipName] at h
    split at h
    · cases h
    · next name hname =>
      obtain ⟨after, hskip, hrest⟩ := exists_of_bind_ok h
      obtain ⟨tail, rfl, htoken⟩ := isString_of_skipString hskip
      split at hrest
      · cases hrest
      · next hcolon =>
        obtain rfl := Except.ok.inj hrest
        exact ⟨_, .member htoken, fun _ _ _ htokens =>
          .of_skipSpace hname (.of_byte hcolon htokens)⟩
      · cases hrest
    · cases h

/-! ### Passing over tokens -/

/-- The tokens are passed over in so many steps, whatever follows them and whatever brackets are
    open outside. -/
def Passes (tokens : List Bytes) (due : Due) (inside : List Bracket) (steps : Nat) : Prop :=
  ∀ fuel brackets text rest, Spells tokens text rest → Stops rest →
    skipFrom (fuel + steps) due (inside ++ brackets) text = skipFrom fuel .next brackets rest

/-- What is due before an item. -/
def Due.before (first : Bool) : Due := if first then .first else .next

section step

variable {fuel : Nat} {bracket : Bracket} {brackets : List Bracket} {text rest : Bytes}

theorem skipFrom_close (first : Bool) (htext : skipSpace text = bracket.closing :: rest) :
    skipFrom (fuel + 1) (.before first) (bracket :: brackets) text
      = skipFrom fuel .next brackets rest := by
  cases first with
  | true =>
    rw [Due.before, if_pos rfl, skipFrom, htext]
    simp only [if_true]
  | false =>
    rw [Due.before, if_neg Bool.false_ne_true, skipFrom, htext]
    simp only [if_true]

end step

/-- An item is passed over up to its value. -/
theorem exists_skipFrom_item {bracket : Bracket} {head : List Bytes} {t : Tree}
    (hhead : IsHead bracket head) (ht : t.Valid) (first : Bool) {tokens : List Bytes}
    {text rest : Bytes} (h : Spells ((if first then head ++ t.tokens
      else [comma] :: (head ++ t.tokens)) ++ tokens) text rest) :
    ∃ mid, Spells (t.tokens ++ tokens) mid rest ∧
      ∀ fuel brackets, skipFrom (fuel + 1) (.before first) (bracket :: brackets) text
        = skipFrom fuel .value (bracket :: brackets) mid := by
  cases first with
  | true =>
    -- Without a comma the item itself has to show that it does not close the bracket.
    obtain ⟨b, tail, more, heq, hspace, hclose⟩ := (IsItem.mk hhead ht).eq_cons
    have hitem := h
    rw [if_pos rfl, heq] at hitem
    obtain ⟨after, htext, -⟩ := hitem.skipSpace_eq hspace
    rw [if_pos rfl, List.append_assoc] at h
    obtain ⟨mid, hmid, h⟩ := skipToValue_of_isHead hhead h
    refine ⟨mid, h, fun fuel brackets => ?_⟩
    rw [Due.before, if_pos rfl, skipFrom_first htext hclose, hmid]
    rfl
  | false =>
    rw [if_neg Bool.false_ne_true, List.cons_append, List.append_assoc] at h
    obtain ⟨after, htext, h⟩ := h.skipSpace_eq (by decide)
    obtain ⟨mid, hmid, h⟩ := skipToValue_of_isHead hhead h
    refine ⟨mid, h, fun fuel brackets => ?_⟩
    rw [Due.before, if_neg Bool.false_ne_true, skipFrom_comma htext, List.nil_append, hmid]
    rfl

/-- The items of a bracket are passed over with its end.  The comma before an item pays for the
    step that leads to its value. -/
theorem exists_passes_items {bracket : Bracket} {items : List (List Bytes × Tree)}
    (h : ∀ item ∈ items, IsHead bracket item.1 ∧ item.2.Valid ∧
      ∃ steps ≤ 2 * item.2.tokens.length, Passes item.2.tokens .value [] steps) (first : Bool) :
    ∃ steps ≤ 2 * (separated first (items.map fun item => item.1 ++ item.2.tokens)).length
        + if first then 2 else 1,
      Passes (separated first (items.map fun item => item.1 ++ item.2.tokens)
        ++ [[bracket.closing]]) (.before first) [bracket] steps := by
  induction items generalizing first with
  | nil =>
    refine ⟨1, by cases first <;> decide, fun fuel brackets text rest h _ => ?_⟩
    exact skipFrom_close first (h.skipSpace_single (by cases bracket <;> decide))
  | cons item items ih =>
    obtain ⟨⟨hhead, ht, n, hn, hvalue⟩, hitems⟩ := List.forall_mem_cons.mp h
    obtain ⟨m, hm, hrest⟩ := ih hitems false
    refine ⟨m + n + 1, ?_, fun fuel brackets text rest h hstops => ?_⟩
    · rw [if_neg Bool.false_ne_true] at hm
      cases first <;>
        simp only [List.map_cons, separated, List.length_append, List.length_cons,
          Bool.false_eq_true, if_false, if_true] <;> omega
    · rw [List.map_cons, separated, List.append_assoc] at h
      obtain ⟨mid, h, hskip⟩ := exists_skipFrom_item hhead ht first h
      obtain ⟨after, hspells, h⟩ := h.exists_of_append
      have hstep := hvalue (fuel + m) (bracket :: brackets) mid after hspells (stops_separated bracket h)
      rw [List.nil_append] at hstep
      rw [← Nat.add_assoc, ← Nat.add_assoc, List.singleton_append, hskip, hstep]
      exact hrest fuel brackets after rest h hstops

/-- A value without brackets is passed over in one step. -/
theorem exists_passes_token {b : UInt8} {tail : Bytes} (hb : isSpace b = false)
    (h : ∀ fuel brackets text rest, skipSpace text = b :: (tail ++ rest) → Stops rest →
      skipFrom (fuel + 1) .value brackets text = skipFrom fuel .next brackets rest) :
    ∃ steps ≤ 2 * [b :: tail].length, Passes [b :: tail] .value [] steps :=
  ⟨1, Nat.le_succ 1, fun fuel brackets text rest hspells hstops =>
    h fuel brackets text rest (hspells.skipSpace_single hb) hstops⟩

/-- Brackets are passed over with their items. -/
theorem exists_passes_brackets (bracket : Bracket) (items : List (List Bytes × Tree))
    (h : ∀ item ∈ items, IsHead bracket item.1 ∧ item.2.Valid ∧
      ∃ steps ≤ 2 * item.2.tokens.length, Passes item.2.tokens .value [] steps) :
    ∃ steps ≤ 2 * ([bracket.opening] :: (separated true
        (items.map fun item => item.1 ++ item.2.tokens) ++ [[bracket.closing]])).length,
      Passes ([bracket.opening] :: (separated true
        (items.map fun item => item.1 ++ item.2.tokens) ++ [[bracket.closing]])) .value [] steps := by
  obtain ⟨n, hn, hpasses⟩ := exists_passes_items h true
  refine ⟨n + 1, ?_, fun fuel brackets text rest h hstops => ?_⟩
  · rw [if_pos rfl] at hn
    rw [List.length_cons, List.length_append, List.length_singleton]
    omega
  · obtain ⟨after, htext, h⟩ := h.skipSpace_eq (by cases bracket <;> decide)
    have hopen : skipFrom (fuel + n + 1) .value brackets text
        = skipFrom (fuel + n) .first (bracket :: brackets) after := by
      rw [skipFrom, htext]
      cases bracket <;> rfl
    exact hopen.trans (hpasses fuel brackets after rest h hstops)

/-- A value is passed over, in two steps a token at most. -/
theorem exists_passes {t : Tree} (h : t.Valid) :
    ∃ steps ≤ 2 * t.tokens.length, Passes t.tokens .value [] steps := by
  -- What the hypotheses say of elements and of members' values is what `Passes` asks of items.
  induction h with
  | null =>
    refine exists_passes_token (by decide) fun fuel brackets text rest htext _ => ?_
    rw [skipFrom, htext]
    rfl
  | boolean value =>
    cases value with
    | true =>
      refine exists_passes_token (by decide) fun fuel brackets text rest htext _ => ?_
      rw [skipFrom, htext]
      rfl
    | false =>
      refine exists_passes_token (by decide) fun fuel brackets text rest htext _ => ?_
      rw [skipFrom, htext]
      rfl
  | number h =>
    cases h with
    | positive h =>
      obtain ⟨b, tail, rfl, hb⟩ := h.exists_digit
      refine exists_passes_token (isSpace_of_isDigit hb) fun fuel brackets text rest htext ht => ?_
      rw [skipFrom_digit htext hb, ← List.cons_append, skipNumber_of_isUnsigned h ht]
      rfl
    | @negative token h =>
      refine exists_passes_token (by decide) fun fuel brackets text rest htext ht => ?_
      have hminus : skipFrom (fuel + 1) .value brackets text
          = (skipNumber (token ++ rest) >>= skipFrom fuel .next brackets) := by
        rw [skipFrom, htext]
        rfl
      rw [hminus, skipNumber_of_isUnsigned h ht]
      rfl
  | string h =>
    obtain ⟨tail, rfl, h⟩ := h.exists_tail
    refine exists_passes_token (by decide) fun fuel brackets text rest htext _ => ?_
    have hquote : skipFrom (fuel + 1) .value brackets text
        = (skipString (tail ++ rest) >>= skipFrom fuel .next brackets) := by
      rw [skipFrom, htext]
      rfl
    rw [hquote, skipString_of_isString h]
    rfl
  | @array ts hts ih =>
    have hpasses := exists_passes_brackets .array (ts.map fun t => ([], t))
      fun item hitem => by
        obtain ⟨t, ht, rfl⟩ := List.mem_map.mp hitem
        exact ⟨.element, hts t ht, ih t ht⟩
    rw [List.map_map] at hpasses
    rw [Tree.tokens, elementTokens_eq_map]
    exact hpasses
  | @object ms hnames hms ih =>
    have hpasses := exists_passes_brackets .object (ms.map fun m => ([m.1, [colon]], m.2))
      fun item hitem => by
        obtain ⟨m, hm, rfl⟩ := List.mem_map.mp hitem
        exact ⟨.member (hnames m hm), hms m hm, ih m hm⟩
    rw [List.map_map] at hpasses
    rw [Tree.tokens, memberTokens_eq_map]
    exact hpasses

/-- A value is skipped, whatever follows it. -/
theorem skipValue_of_spells {t : Tree} (ht : t.Valid) {text rest : Bytes}
    (h : Spells t.tokens text rest) (hstops : Stops rest) : skipValue text = .ok rest := by
  obtain ⟨steps, hsteps, hpasses⟩ := exists_passes ht
  have hlength := h.length_le ht.ne_nil
  -- The fuel is two steps a byte and two more.
  obtain ⟨fuel, hfuel⟩ : ∃ fuel, 2 * text.length + 2 = fuel + 1 + steps :=
    ⟨2 * text.length + 1 - steps, by omega⟩
  have hskip := hpasses (fuel + 1) [] text rest h hstops
  rw [List.nil_append] at hskip
  rw [skipValue, hfuel, hskip, skipFrom]

/-! ### Only values are skipped -/

/-- The text goes on with what closes the open brackets, the innermost one first.  Before the
    first item of the innermost bracket there is no comma. -/
def Closes (first : Bool) : List Bracket → Bytes → Bytes → Prop
  | [], text, rest => text = rest
  | bracket :: brackets, text, rest => ∃ items mid, (∀ item ∈ items, IsItem bracket item) ∧
    Spells (separated first items ++ [[bracket.closing]]) text mid ∧ Closes false brackets mid rest

/-- The text completes what is due. -/
def Completes : Due → List Bracket → Bytes → Bytes → Prop
  | .value, brackets, text, rest => ∃ (t : Tree) (mid : Bytes), t.Valid ∧
    Spells t.tokens text mid ∧ Closes false brackets mid rest
  | .first, brackets, text, rest => Closes true brackets text rest
  | .next, brackets, text, rest => Closes false brackets text rest

section completes

variable {fuel : Nat} {bracket : Bracket} {brackets : List Bracket} {text rest : Bytes}

/-- What one step from a value does. -/
theorem skipFrom_value_cases (h : skipFrom (fuel + 1) .value brackets text = .ok rest) :
    (∃ (t : Tree) (text' : Bytes), t.Valid ∧ Spells t.tokens text text' ∧
      skipFrom fuel .next brackets text' = .ok rest) ∨
    ∃ bracket text', skipSpace text = Bracket.opening bracket :: text' ∧
      skipFrom fuel .first (bracket :: brackets) text' = .ok rest := by
  have hspells : ∀ {b : UInt8} {after tail text' : Bytes}, skipSpace text = b :: after →
      after = tail ++ text' → Spells [b :: tail] text text' := fun htext hafter =>
    .of_skipSpace (htext.trans (congrArg _ hafter)) .nil
  rw [skipFrom] at h
  split at h
  · cases h
  · next htext => exact .inr ⟨.array, _, htext, h⟩
  · next htext => exact .inr ⟨.object, _, htext, h⟩
  · next htext =>
    obtain ⟨text', hskip, hnext⟩ := exists_of_bind_ok h
    obtain ⟨tail, hafter, htoken⟩ := isString_of_skipString hskip
    exact .inl ⟨.string _, text', .string htoken, hspells htext hafter, hnext⟩
  · next htext =>
    obtain ⟨text', hskip, hnext⟩ := exists_of_bind_ok h
    obtain ⟨token, htoken, hafter⟩ := isUnsigned_of_skipNumber hskip
    exact .inl ⟨.number _, text', .number (.negative htoken), hspells htext hafter, hnext⟩
  · next b after _ _ _ _ htext =>
    split at h
    · obtain ⟨text', hskip, hnext⟩ := exists_of_bind_ok h
      obtain ⟨token, htoken, hafter⟩ := isUnsigned_of_skipNumber hskip
      exact .inl ⟨.number token, text', .number (.positive htoken),
        .of_skipSpace (htext.trans hafter) .nil, hnext⟩
    · split at h
      · next hb =>
        obtain ⟨text', hskip, hnext⟩ := exists_of_bind_ok h
        exact .inl ⟨.null, text', .null, hspells (hb ▸ htext) (eq_of_expectWord hskip), hnext⟩
      · split at h
        · next hb =>
          obtain ⟨text', hskip, hnext⟩ := exists_of_bind_ok h
          exact .inl ⟨.boolean true, text', .boolean true,
            hspells (hb ▸ htext) (eq_of_expectWord hskip), hnext⟩
        · split at h
          · next hb =>
            obtain ⟨text', hskip, hnext⟩ := exists_of_bind_ok h
            exact .inl ⟨.boolean false, text', .boolean false,
              hspells (hb ▸ htext) (eq_of_expectWord hskip), hnext⟩
          · cases h

/-- What one step inside a bracket does. -/
theorem skipFrom_before_cases {first : Bool}
    (h : skipFrom (fuel + 1) (.before first) (bracket :: brackets) text = .ok rest) :
    (∃ text', skipSpace text = bracket.closing :: text' ∧
      skipFrom fuel .next brackets text' = .ok rest) ∨
    ∃ head text', IsHead bracket head ∧ Reaches first head text text' ∧
      skipFrom fuel .value (bracket :: brackets) text' = .ok rest := by
  cases first with
  | true =>
    rw [Due.before, if_pos rfl, skipFrom] at h
    split at h
    · cases h
    · next b after htext =>
      split at h
      · next hb => exact .inl ⟨after, hb ▸ htext, h⟩
      · obtain ⟨text', hskip, hvalue⟩ := exists_of_bind_ok h
        obtain ⟨head, hhead, hreaches⟩ := exists_isHead_of_skipToValue hskip
        exact .inr ⟨head, text', hhead, hreaches, hvalue⟩
  | false =>
    rw [Due.before, if_neg Bool.false_ne_true, skipFrom] at h
    split at h
    · cases h
    · next b after htext =>
      split at h
      · next hb => exact .inl ⟨after, hb ▸ htext, h⟩
      · split at h
        · next hb =>
          obtain ⟨text', hskip, hvalue⟩ := exists_of_bind_ok h
          obtain ⟨head, hhead, hreaches⟩ := exists_isHead_of_skipToValue hskip
          exact .inr ⟨head, text', hhead, .comma (hb ▸ htext) hreaches, hvalue⟩
        · cases h

/-- No bracket is open. -/
theorem Closes.nil (first : Bool) : Closes first [] text text := rfl

/-- A bracket that is closed at once. -/
theorem Closes.of_closing {text' : Bytes} (htext : skipSpace text = bracket.closing :: text')
    (h : Closes false brackets text' rest) (first : Bool) :
    Closes first (bracket :: brackets) text rest :=
  ⟨[], text', nofun, .of_byte htext .nil, h⟩

/-- Nothing but the closing bracket closes an array that has come to it. -/
theorem Closes.eq_of_closing {brackets : List Bracket}
    (h : Closes false (.array :: brackets) (closeBracket :: text) rest) :
    Closes false brackets text rest := by
  obtain ⟨items, mid, hitems, hspells, hcloses⟩ := h
  cases items with
  | nil =>
    have heq := hspells.skipSpace_single (by decide)
    obtain rfl := (List.cons.inj heq).2
    exact hcloses
  | cons item items =>
    obtain ⟨after, heq, -⟩ := hspells.skipSpace_eq (by decide)
    exact absurd (List.cons.inj heq).1 (by decide)

/-- An item before what closes the bracket. -/
theorem Closes.cons {first : Bool} {head : List Bytes} {t : Tree} {text' mid : Bytes}
    (hhead : IsHead bracket head) (ht : t.Valid) (htext : Reaches first head text text')
    (hvalue : Spells t.tokens text' mid) (h : Closes false (bracket :: brackets) mid rest) :
    Closes first (bracket :: brackets) text rest := by
  obtain ⟨items, end', hitems, hspells, hcloses⟩ := h
  refine ⟨(head ++ t.tokens) :: items, end', List.forall_mem_cons.mpr ⟨.mk hhead ht, hitems⟩, ?_,
    hcloses⟩
  obtain ⟨b, tail, more, htokens, -⟩ := ht.tokens_eq_cons
  rw [htokens] at hvalue ⊢
  have hitem := htext _ _ _ (hvalue.append hspells)
  cases first <;> simpa [separated] using hitem

/-- A text that is passed over completes what is due. -/
theorem completes_of_skipFrom {due : Due} (h : skipFrom fuel due brackets text = .ok rest) :
    Completes due brackets text rest := by
  -- A step pushes or pops a bracket, so the induction is on the fuel and for all brackets.
  induction fuel generalizing due brackets text with
  | zero => cases h
  | succ fuel ih =>
    have hbefore : ∀ (first : Bool) {bracket : Bracket} {brackets : List Bracket} {text : Bytes},
        skipFrom (fuel + 1) (.before first) (bracket :: brackets) text = .ok rest →
        Closes first (bracket :: brackets) text rest := by
      intro first bracket brackets text h
      obtain ⟨text', htext, hnext⟩ | ⟨head, text', hhead, htext, hvalue⟩ := skipFrom_before_cases h
      · exact .of_closing htext (ih hnext) first
      · obtain ⟨t, mid, ht, hspells, hcloses⟩ := ih hvalue
        exact .cons hhead ht htext hspells hcloses
    cases due with
    | value =>
      obtain ⟨t, text', ht, hspells, hnext⟩ | ⟨bracket, text', htext, hfirst⟩ :=
        skipFrom_value_cases h
      · exact ⟨t, text', ht, hspells, ih hnext⟩
      · obtain ⟨items, mid, hitems, hspells, hcloses⟩ := ih hfirst
        obtain ⟨t, ht, htokens⟩ := exists_tree_of_items hitems
        refine ⟨t, mid, ht, ?_, hcloses⟩
        rw [htokens]
        exact .of_byte htext hspells
    | first =>
      cases brackets with
      | nil => exact Except.ok.inj h
      | cons bracket brackets => exact hbefore true h
    | next =>
      cases brackets with
      | nil => exact Except.ok.inj h
      | cons bracket brackets => exact hbefore false h

end completes

/-- Only values are skipped. -/
theorem exists_of_skipValue {text rest : Bytes} (h : skipValue text = .ok rest) :
    ∃ t : Tree, t.Valid ∧ Spells t.tokens text rest := by
  obtain ⟨t, mid, ht, hspells, rfl⟩ := completes_of_skipFrom h
  exact ⟨t, ht, hspells⟩

end LoginRegistry.Json
