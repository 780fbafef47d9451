import LoginRegistry.Json.Reader
import LoginRegistry.Proofs.Json.Skip

/-! # What a reader makes of a tree

    A reader is run on texts, but what it makes of a value hangs on the tree of the value only:
    not on the blanks between the tokens, and not on the text after it.  `Reader.on` is what it
    makes of a tree, `Reader.Local` says that it makes the same of every text of the tree, and
    the rules below are one for each way to build a reader.
-/

namespace LoginRegistry.Json

open Ascii

/-! ### First bytes -/

/-- Whether a value of this kind may start with the byte. -/
def Tree.starts : Tree → UInt8 → Bool
  | .null, b => b == byte 'n'
  | .boolean true, b => b == byte 't'
  | .boolean false, b => b == byte 'f'
  | .number _, b => isDigit b || b == minus
  | .string _, b => b == quote
  | .array _, b => b == openBracket
  | .object _, b => b == openBrace

theorem Tree.Valid.exists_starts {t : Tree} (h : t.Valid) :
    ∃ b tail more, t.tokens = (b :: tail) :: more ∧ t.starts b = true := by
  cases h with
  | boolean value => cases value <;> exact ⟨_, _, _, rfl, rfl⟩
  | number h =>
    cases h with
    | positive h =>
      obtain ⟨b, tail, rfl, hb⟩ := h.exists_digit
      exact ⟨b, tail, _, rfl, by rw [Tree.starts, hb, Bool.true_or]⟩
    | negative h => exact ⟨_, _, _, rfl, rfl⟩
  | string h =>
    obtain ⟨tail, rfl, -⟩ := h.exists_tail
    exact ⟨_, tail, _, rfl, rfl⟩
  | _ => exact ⟨_, _, _, rfl, rfl⟩

theorem ne_of_starts {t : Tree} {b c : UInt8} (hb : t.starts b = true)
    (hc : t.starts c = false) : b ≠ c := by
  rintro rfl
  rw [hb] at hc
  cases hc

theorem isSpace_of_starts {t : Tree} {b : UInt8} (h : t.starts b = true) : isSpace b = false := by
  have hne : ∀ c, t.starts c = false → (b == c) = false := fun c hc =>
    beq_false_of_ne (ne_of_starts h hc)
  have hspace : ∀ c, isSpace c = true → t.starts c = false := by
    intro c hc
    simp only [isSpace, Bool.or_eq_true, beq_iff_eq, or_assoc] at hc
    cases t with
    | boolean value => cases value <;> rcases hc with rfl | rfl | rfl | rfl <;> rfl
    | _ => rcases hc with rfl | rfl | rfl | rfl <;> rfl
  rw [isSpace, hne _ (hspace _ (by decide)), hne _ (hspace _ (by decide)),
    hne _ (hspace _ (by decide)), hne _ (hspace _ (by decide))]
  rfl

namespace Reader

variable {r : Reader α} {t : Tree} {o : Except Error α} {text rest : Bytes}

/-! ### Steps of a reader -/

theorem bind_eq {x : Except Error (α × Bytes)} (h : r text = x) (f : α → Reader β) :
    (r >>= f) text = (x >>= fun p => f p.1 p.2) := by
  rw [← h]
  rfl

theorem bind_ok {a : α} (h : r text = .ok (a, rest)) (f : α → Reader β) :
    (r >>= f) text = f a rest := bind_eq h f

theorem bind_error {e : Error} (h : r text = .error e) (f : α → Reader β) :
    (r >>= f) text = .error e := bind_eq h f

theorem bind_peek {b : UInt8} (h : skipSpace text = b :: rest) (f : Option UInt8 → Reader β) :
    (peek >>= f) text = f (some b) (b :: rest) := by
  refine bind_ok ?_ f
  rw [peek, h]
  rfl

/-! ### Reading a tree -/

/-- The reader makes `o` of the tree in whatever text it is written, and leaves what comes after. -/
def Yields (r : Reader α) (t : Tree) (o : Except Error α) : Prop :=
  ∀ text rest, Spells t.tokens text rest → Stops rest → r text = o.map (·, rest)

/-- What the reader makes of a tree. -/
def on (r : Reader α) (t : Tree) : Except Error α := (r t.tokens.flatten).map Prod.fst

/-- What the reader makes of a well-formed value hangs on its tree only. -/
def Local (r : Reader α) : Prop := ∀ t : Tree, t.Valid → r.Yields t (r.on t)

theorem Yields.on_eq (h : r.Yields t o) : r.on t = o := by
  have htext := h (t.tokens.flatten ++ []) [] (Spells.flatten _ []) stops_nil
  rw [List.append_nil] at htext
  rw [on, htext]
  cases o <;> rfl

theorem local_of_yields (h : ∀ t : Tree, t.Valid → ∃ o, r.Yields t o) : r.Local := by
  intro t ht
  obtain ⟨o, ho⟩ := h t ht
  rwa [ho.on_eq]

theorem Local.map (h : r.Local) (f : α → β) : (f <$> r).Local := by
  refine local_of_yields fun t ht => ⟨(r.on t).map f, fun text rest hspells hstops => ?_⟩
  have hmap : (f <$> r) text = (r text >>= fun p => pure (f p.1, p.2)) := rfl
  rw [hmap, h t ht text rest hspells hstops]
  cases r.on t <;> rfl

theorem on_map (r : Reader α) (f : α → β) (t : Tree) : (f <$> r).on t = (r.on t).map f := by
  have hmap : (f <$> r) t.tokens.flatten
      = (r t.tokens.flatten >>= fun p => pure (f p.1, p.2)) := rfl
  rw [on, on, hmap]
  cases r t.tokens.flatten <;> rfl

/-- A whole text is read as its tree. -/
theorem parse_eq_on (h : r.Local) (ht : t.Valid) (htext : t.HasText text) :
    r.parse text = r.on t := by
  obtain ⟨rest, hspells, hblank⟩ := htext
  rw [parse, h t ht text rest hspells (stops_blank hblank)]
  cases r.on t with
  | error e => rfl
  | ok a =>
    simp only [bind, Except.bind, Except.map, skipSpace_eq_nil_iff.mpr hblank]
    rfl

/-- What comes next is decided by the first byte. -/
theorem Yields.of_peek {f : Option UInt8 → Reader α} {b : UInt8} {tail : Bytes}
    {more : List Bytes} (htokens : t.tokens = (b :: tail) :: more) (hb : isSpace b = false)
    (h : ∀ after rest, Spells more after rest → Stops rest →
      f (some b) (b :: (tail ++ after)) = o.map (·, rest)) : (peek >>= f).Yields t o := by
  intro text rest hspells hstops
  rw [htokens] at hspells
  obtain ⟨after, htext, hspells⟩ := hspells.skipSpace_eq hb
  rw [bind_peek htext]
  exact h after rest hspells hstops

/-- A token that is a value of its own. -/
theorem Yields.of_token {f : Option UInt8 → Reader α} {b : UInt8} {tail : Bytes}
    (htokens : t.tokens = [b :: tail]) (hb : isSpace b = false)
    (h : ∀ rest, Stops rest → f (some b) (b :: (tail ++ rest)) = o.map (·, rest)) :
    (peek >>= f).Yields t o :=
  .of_peek htokens hb fun after rest hspells hstops => by
    cases hspells
    exact h after hstops

/-! ### Refusing -/

/-- A digit is the start of a number. -/
theorem found_digit {b : UInt8} (hb : isDigit b = true) (rest : Bytes) :
    found (b :: rest) = (ofScan (readNumber true) >>= fun n => return n.found) (b :: rest) := by
  change (match b :: rest with
    | [] => _ | quote :: _ => _ | openBracket :: _ => _ | openBrace :: _ => _ | minus :: _ => _
    | b :: _ => _ : Reader Found) (b :: rest) = _
  refine congrFun (g := ofScan (readNumber true) >>= fun n => return n.found) ?_ (b :: rest)
  split
  · next heq => cases heq
  · next heq => exact absurd (List.cons.inj heq).1 (ne_of_isDigit hb (by decide))
  · next heq => exact absurd (List.cons.inj heq).1 (ne_of_isDigit hb (by decide))
  · next heq => exact absurd (List.cons.inj heq).1 (ne_of_isDigit hb (by decide))
  · next heq => exact absurd (List.cons.inj heq).1 (ne_of_isDigit hb (by decide))
  · next heq =>
    obtain ⟨rfl, rfl⟩ := List.cons.inj heq
    rw [if_pos hb]

/-- What a value is named as hangs on its tree only. -/
theorem exists_found (ht : t.Valid) {b : UInt8} {tail : Bytes} {more : List Bytes}
    (htokens : t.tokens = (b :: tail) :: more) : ∃ o : Except Error Found,
      ∀ after rest, Spells more after rest → Stops rest →
        ∃ left, found (b :: (tail ++ after)) = o.map (·, left) := by
  cases ht with
  | null =>
    cases htokens
    exact ⟨.ok .null, fun after _ _ _ => ⟨after, rfl⟩⟩
  | boolean value =>
    cases value with
    | true =>
      cases htokens
      exact ⟨.ok (.boolean true), fun after _ _ _ => ⟨after, rfl⟩⟩
    | false =>
      cases htokens
      exact ⟨.ok (.boolean false), fun after _ _ _ => ⟨after, rfl⟩⟩
  | number h =>
    cases htokens
    cases h with
    | positive h =>
      obtain ⟨c, ds, heq, hc⟩ := h.exists_digit
      obtain ⟨o, ho⟩ := (readsOff_readNumber h true).map Number.found
      obtain ⟨rfl, rfl⟩ := List.cons.inj heq
      refine ⟨o, fun after rest hspells hstops => ⟨rest, ?_⟩⟩
      cases hspells
      rw [found_digit hc]
      exact ho after hstops
    | negative h =>
      obtain ⟨o, ho⟩ := (readsOff_readNumber h false).map Number.found
      refine ⟨o, fun after rest hspells hstops => ⟨rest, ?_⟩⟩
      cases hspells
      exact ho after hstops
  | string h =>
    cases htokens
    obtain ⟨tail', heq, h⟩ := h.exists_tail
    obtain ⟨rfl, rfl⟩ := List.cons.inj heq
    obtain ⟨o, ho⟩ := exists_readString h
    refine ⟨o.map .string, fun after rest _ _ => ⟨after, ?_⟩⟩
    have hquote : found (quote :: (tail ++ after))
        = (readString (tail ++ after) >>= fun p => pure (.string p.1, p.2)) := rfl
    rw [hquote, ho]
    cases o <;> rfl
  | array _ =>
    obtain ⟨hb, -⟩ := List.cons.inj htokens
    obtain ⟨rfl, rfl⟩ := List.cons.inj hb
    exact ⟨.ok .sequence, fun _ _ _ _ => ⟨_, rfl⟩⟩
  | object _ _ =>
    obtain ⟨hb, -⟩ := List.cons.inj htokens
    obtain ⟨rfl, rfl⟩ := List.cons.inj hb
    exact ⟨.ok .map, fun _ _ _ _ => ⟨_, rfl⟩⟩

/-- The reader makes nothing of the tree. -/
def Refuses (r : Reader α) (t : Tree) : Prop := ∃ e, r.Yields t (.error e)

/-- A value is refused for its first byte. -/
theorem refuses_of_starts {f : Option UInt8 → Reader α} (expected : Expected)
    (ht : t.Valid) (h : ∀ b, t.starts b = true → f (some b) = refuse expected) :
    (peek >>= f).Refuses t := by
  obtain ⟨b, tail, more, htokens, hb⟩ := ht.exists_starts
  obtain ⟨o, hfound⟩ := exists_found ht htokens
  cases o with
  | error e =>
    refine ⟨e, .of_peek htokens (isSpace_of_starts hb) fun after rest hspells hstops => ?_⟩
    obtain ⟨left, hleft⟩ := hfound after rest hspells hstops
    rw [h b hb]
    exact bind_error hleft _
  | ok found =>
    refine ⟨.wrongType found expected,
      .of_peek htokens (isSpace_of_starts hb) fun after rest hspells hstops => ?_⟩
    obtain ⟨left, hleft⟩ := hfound after rest hspells hstops
    rw [h b hb]
    exact bind_ok hleft _

theorem Refuses.map (h : r.Refuses t) (f : α → β) : (f <$> r).Refuses t := by
  obtain ⟨e, he⟩ := h
  refine ⟨e, fun text rest hspells hstops => ?_⟩
  have hmap : (f <$> r) text = (r text >>= fun p => pure (f p.1, p.2)) := rfl
  rw [hmap, he text rest hspells hstops]
  rfl

/-! ### Scalars -/

theorem yields_boolean (value : Bool) : boolean.Yields (.boolean value) (.ok value) := by
  cases value with
  | true => exact .of_token rfl (by decide) fun _ _ => rfl
  | false => exact .of_token rfl (by decide) fun _ _ => rfl

theorem refuses_boolean (ht : t.Valid) (h : ∀ value, t ≠ .boolean value) : boolean.Refuses t := by
  have hstart : t.starts (byte 't') = false ∧ t.starts (byte 'f') = false := by
    cases t with
    | boolean value => exact absurd rfl (h value)
    | _ => exact ⟨rfl, rfl⟩
  refine refuses_of_starts .boolean ht fun b hb => ?_
  dsimp only
  rw [if_neg (ne_of_starts hb hstart.1), if_neg (ne_of_starts hb hstart.2)]

theorem local_boolean : boolean.Local := by
  refine local_of_yields fun t ht => ?_
  by_cases h : ∃ value, t = .boolean value
  · obtain ⟨value, rfl⟩ := h
    exact ⟨_, yields_boolean value⟩
  · obtain ⟨e, he⟩ := refuses_boolean ht (not_exists.mp h)
    exact ⟨_, he⟩

theorem yields_string {tail : Bytes} {o : Except Error String}
    (h : ∀ text, readString (tail ++ text) = o.map (·, text)) :
    string.Yields (.string (quote :: tail)) o :=
  .of_token rfl (by decide) fun rest _ => h rest

/-- A string is read as the characters that it quotes. -/
theorem on_string_of_quotes {s : String} {token : Bytes} (h : Quotes s token) :
    string.on (.string token) = .ok s := by
  obtain ⟨tail, rfl, -⟩ := h.isString.exists_tail
  exact (yields_string fun text => readString_of_quotes h text).on_eq

theorem refuses_string (ht : t.Valid) (h : ∀ token, t ≠ .string token) : string.Refuses t := by
  have hstart : t.starts quote = false := by
    cases t with
    | string token => exact absurd rfl (h token)
    | boolean value => cases value <;> rfl
    | _ => rfl
  refine refuses_of_starts .string ht fun b hb => ?_
  split
  · next heq => cases heq
  · next heq => exact absurd (Option.some.inj heq) (ne_of_starts hb hstart)
  · rfl

theorem local_string : string.Local := by
  refine local_of_yields fun t ht => ?_
  by_cases h : ∃ token, t = .string token
  · obtain ⟨token, rfl⟩ := h
    cases ht with
    | string htoken =>
      obtain ⟨tail, rfl, htoken⟩ := htoken.exists_tail
      obtain ⟨o, ho⟩ := exists_readString htoken
      exact ⟨o, yields_string ho⟩
  · obtain ⟨e, he⟩ := refuses_string ht (not_exists.mp h)
    exact ⟨_, he⟩

/-- Whether a number is in range has nothing to do with the text. -/
theorem exists_inRange (limit : Nat) (expected : Expected) (n : Number) :
    ∃ o : Except Error Nat, ∀ text, inRange limit expected n text = o.map (·, text) := by
  cases n with
  | natural n =>
    by_cases hn : n < limit
    · exact ⟨.ok n, fun text => by rw [inRange, if_pos hn]; rfl⟩
    · exact ⟨.error (.outOfRange n expected), fun text => by rw [inRange, if_neg hn]; rfl⟩
  | negative n => exact ⟨.error (.outOfRange n expected), fun _ => rfl⟩
  | float x => exact ⟨.error (.wrongType (.float x) expected), fun _ => rfl⟩

section natural

variable {limit : Nat} {expected : Expected}

theorem refuses_natural (ht : t.Valid) (h : ∀ token, t ≠ .number token) :
    (natural limit expected).Refuses t := by
  have hstart : t.starts minus = false ∧ ∀ b, t.starts b = true → isDigit b = false := by
    cases t with
    | number token => exact absurd rfl (h token)
    | boolean value => cases value <;> exact ⟨rfl, fun b hb => eq_of_beq hb ▸ by decide⟩
    | _ => exact ⟨rfl, fun b hb => eq_of_beq hb ▸ by decide⟩
  refine refuses_of_starts expected ht fun b hb => ?_
  split
  · next heq => cases heq
  · next heq => exact absurd (Option.some.inj heq) (ne_of_starts hb hstart.1)
  · next heq =>
    obtain rfl := Option.some.inj heq
    rw [hstart.2 b hb, if_neg Bool.false_ne_true]

/-- A number is read off its first byte. -/
theorem natural_digit {b : UInt8} (hb : isDigit b = true) {text rest : Bytes}
    (htext : skipSpace text = b :: rest) : natural limit expected text
      = (ofScan (readNumber true) >>= inRange limit expected) (b :: rest) := by
  rw [natural, bind_peek htext]
  refine congrFun (g := ofScan (readNumber true) >>= inRange limit expected) ?_ _
  split
  · next heq => cases heq
  · next heq => exact absurd (Option.some.inj heq) (ne_of_isDigit hb (by decide))
  · next heq =>
    obtain rfl := Option.some.inj heq
    rw [if_pos hb]

theorem local_natural : (natural limit expected).Local := by
  -- A number that is read off is then checked.
  have hcheck : ∀ (positive : Bool) {token : Bytes}, IsUnsigned token →
      ∃ o : Except Error Nat, ∀ text, Stops text →
        (ofScan (readNumber positive) >>= inRange limit expected) (token ++ text)
          = o.map (·, text) := by
    intro positive token h
    obtain ⟨o, ho⟩ := readsOff_readNumber h positive
    cases o with
    | error e => exact ⟨.error e, fun text ht => bind_error (ho text ht) _⟩
    | ok n =>
      obtain ⟨o, hn⟩ := exists_inRange limit expected n
      exact ⟨o, fun text ht => (bind_ok (ho text ht) _).trans (hn text)⟩
  refine local_of_yields fun t ht => ?_
  by_cases h : ∃ token, t = .number token
  · obtain ⟨token, rfl⟩ := h
    cases ht with
    | number h =>
      cases h with
      | positive h =>
        obtain ⟨o, ho⟩ := hcheck true h
        obtain ⟨b, tail, rfl, hb⟩ := h.exists_digit
        refine ⟨o, fun text rest hspells hstops => ?_⟩
        rw [natural_digit hb (hspells.skipSpace_single (isSpace_of_isDigit hb))]
        exact ho rest hstops
      | negative h =>
        obtain ⟨o, ho⟩ := hcheck false h
        exact ⟨o, .of_token rfl (by decide) fun rest hstops => ho rest hstops⟩
  · obtain ⟨e, he⟩ := refuses_natural ht (not_exists.mp h)
    exact ⟨_, he⟩

/-- A written number below the limit is read back. -/
theorem on_natural_renderNatural {n : Nat} (hn : n < limit) (hlimit : limit ≤ UInt64.size) :
    (natural limit expected).on (.number (renderNatural n)) = .ok n := by
  obtain ⟨b, tail, heq, hb⟩ := (isUnsigned_renderNatural n).exists_digit
  refine Yields.on_eq fun text rest hspells hstops => ?_
  have hread := readNumber_renderNatural (Nat.lt_of_lt_of_le hn hlimit) hstops
  rw [Tree.tokens, heq] at hspells
  rw [heq] at hread
  rw [natural_digit hb (hspells.skipSpace_single (isSpace_of_isDigit hb))]
  refine (bind_ok hread _).trans ?_
  rw [inRange, if_pos hn]
  rfl

end natural

theorem local_uint8 : uint8.Local := local_natural.map UInt8.ofNat

theorem local_uint16 : uint16.Local := local_natural.map UInt16.ofNat

theorem local_uint32 : uint32.Local := local_natural.map UInt32.ofNat

theorem local_uint64 : uint64.Local := local_natural.map UInt64.ofNat

theorem local_size : size.Local := local_natural.map UInt64.ofNat

theorem refuses_uint16 (ht : t.Valid) (h : ∀ token, t ≠ .number token) : uint16.Refuses t :=
  (refuses_natural ht h).map UInt16.ofNat

theorem on_uint8 (n : UInt8) : uint8.on (.number (renderNatural n.toNat)) = .ok n := by
  refine (on_map (natural UInt8.size (.unsigned 8)) UInt8.ofNat _).trans ?_
  rw [on_natural_renderNatural n.toNat_lt (by decide), Except.map, UInt8.ofNat_toNat]

theorem on_uint16 (n : UInt16) : uint16.on (.number (renderNatural n.toNat)) = .ok n := by
  refine (on_map (natural UInt16.size (.unsigned 16)) UInt16.ofNat _).trans ?_
  rw [on_natural_renderNatural n.toNat_lt (by decide), Except.map, UInt16.ofNat_toNat]

theorem on_uint32 (n : UInt32) : uint32.on (.number (renderNatural n.toNat)) = .ok n := by
  refine (on_map (natural UInt32.size (.unsigned 32)) UInt32.ofNat _).trans ?_
  rw [on_natural_renderNatural n.toNat_lt (by decide), Except.map, UInt32.ofNat_toNat]

theorem on_uint64 (n : UInt64) : uint64.on (.number (renderNatural n.toNat)) = .ok n := by
  refine (on_map (natural UInt64.size (.unsigned 64)) UInt64.ofNat _).trans ?_
  rw [on_natural_renderNatural n.toNat_lt (by decide), Except.map, UInt64.ofNat_toNat]

theorem on_size (n : UInt64) : size.on (.number (renderNatural n.toNat)) = .ok n := by
  refine (on_map (natural UInt64.size .size) UInt64.ofNat _).trans ?_
  rw [on_natural_renderNatural n.toNat_lt (by decide), Except.map, UInt64.ofNat_toNat]

/-! ### Optional values -/

theorem yields_optional_null (r : Reader α) : (optional r).Yields .null (.ok none) :=
  .of_token rfl (by decide) fun _ _ => rfl

theorem yields_optional (ht : t.Valid) (hnull : t ≠ .null) (h : r.Yields t o) :
    (optional r).Yields t (o.map some) := by
  obtain ⟨b, tail, more, htokens, hb⟩ := ht.exists_starts
  have hstart : t.starts (byte 'n') = false := by
    cases t with
    | null => exact absurd rfl hnull
    | boolean value => cases value <;> rfl
    | _ => rfl
  refine .of_peek htokens (isSpace_of_starts hb) fun after rest hspells hstops => ?_
  dsimp only
  rw [if_neg (ne_of_starts hb hstart)]
  -- The value is read from its first byte, which the reader has only looked at.
  have hread : Spells t.tokens (b :: (tail ++ after)) rest :=
    htokens ▸ hspells.token
  refine (bind_eq (h _ rest hread hstops) fun a => return some a).trans ?_
  cases o <;> rfl

theorem Local.optional (h : r.Local) : (optional r).Local := by
  refine local_of_yields fun t ht => ?_
  by_cases hnull : t = .null
  · exact ⟨_, hnull ▸ yields_optional_null r⟩
  · exact ⟨_, yields_optional ht hnull (h t ht)⟩

/-! ### Arrays -/

theorem nextElement_close {first : Bool} (htext : skipSpace text = closeBracket :: rest) :
    nextElement first text = .ok (false, closeBracket :: rest) := by
  rw [nextElement, bind_peek htext]
  rfl

/-- Moves to the element that has to follow a comma. -/
def elementDue : Reader Bool := do
  match ← peek with
  | none => throw .endOfText
  | some closeBracket => throw .malformed
  | some _ => return true

theorem nextElement_comma (htext : skipSpace text = comma :: rest) :
    nextElement false text = elementDue rest := by
  rw [nextElement, bind_peek htext]
  rfl

/-- The next element is reached. -/
theorem exists_nextElement (ht : t.Valid) (first : Bool) {tokens : List Bytes}
    (h : Spells ((if first then t.tokens else [comma] :: t.tokens) ++ tokens) text rest) :
    ∃ mid, nextElement first text = .ok (true, mid) ∧ Spells (t.tokens ++ tokens) mid rest := by
  obtain ⟨b, tail, more, htokens, hspace, hclose⟩ := ht.tokens_eq_cons
  have hmid : ∀ {text}, Spells (t.tokens ++ tokens) text rest → ∃ after,
      skipSpace text = b :: after ∧ Spells (t.tokens ++ tokens) (b :: after) rest := by
    intro text h
    rw [htokens, List.cons_append] at h ⊢
    obtain ⟨after, htext, h⟩ := h.skipSpace_eq hspace
    exact ⟨_, htext, h.token⟩
  cases first with
  | true =>
    obtain ⟨after, htext, h⟩ := hmid h
    refine ⟨b :: after, ?_, h⟩
    rw [nextElement, bind_peek htext]
    refine (congrFun (g := (pure true : Reader Bool)) ?_ _).trans rfl
    split
    · next heq => cases heq
    · next heq => exact absurd (Option.some.inj heq) hclose
    · rfl
  | false =>
    rw [if_neg Bool.false_ne_true, List.cons_append] at h
    obtain ⟨text', hcomma, h⟩ := h.skipSpace_eq (by decide)
    obtain ⟨after, htext, h⟩ := hmid h
    refine ⟨b :: after, ?_, h⟩
    rw [nextElement_comma hcomma, List.nil_append, elementDue, bind_peek htext]
    refine (congrFun (g := (pure true : Reader Bool)) ?_ _).trans rfl
    split
    · next heq => cases heq
    · next heq => exact absurd (Option.some.inj heq) hclose
    · rfl

/-- Elements are read one by one up to the closing bracket. -/
theorem elements_eq {ts : List Tree} (hr : r.Local) (hts : ∀ t ∈ ts, t.Valid) {fuel : Nat}
    (hfuel : ts.length < fuel) (first : Bool)
    (h : Spells (separated first (elementTokens ts) ++ [[closeBracket]]) text rest) :
    elements r fuel first text = (ts.mapM r.on).map (·, closeBracket :: rest) := by
  induction ts generalizing fuel first text with
  | nil =>
    obtain ⟨fuel, rfl⟩ := Nat.exists_eq_add_one_of_ne_zero (Nat.ne_of_gt hfuel)
    rw [elements, bind_ok (nextElement_close (h.skipSpace_single (by decide)))]
    rfl
  | cons t ts ih =>
    obtain ⟨fuel, rfl⟩ := Nat.exists_eq_add_one_of_ne_zero (Nat.ne_of_gt (Nat.zero_lt_of_lt hfuel))
    obtain ⟨ht, hts⟩ := List.forall_mem_cons.mp hts
    rw [elementTokens, separated, List.append_assoc] at h
    obtain ⟨mid, hnext, h⟩ := exists_nextElement ht first h
    obtain ⟨after, hspells, h⟩ := h.exists_of_append
    have hread := hr t ht mid after hspells (stops_separated .array h)
    have hrest := ih hts (Nat.lt_of_succ_lt_succ hfuel) false h
    rw [elements, bind_ok hnext, List.mapM_cons]
    simp only [if_true]
    rw [bind_eq hread]
    cases r.on t with
    | error e => rfl
    | ok a =>
      change (elements r fuel false >>= fun as => return a :: as) after = _
      rw [bind_eq hrest]
      cases ts.mapM r.on <;> rfl

theorem length_le_separated {items : List (List Bytes)} (h : ∀ item ∈ items, item ≠ [])
    (first : Bool) : items.length ≤ (separated first items).length := by
  induction items generalizing first with
  | nil => exact Nat.zero_le _
  | cons item items ih =>
    obtain ⟨hitem, hitems⟩ := List.forall_mem_cons.mp h
    have hrest := ih hitems false
    have hpositive := List.length_pos_iff.mpr hitem
    cases first <;>
      simp only [separated, Bool.false_eq_true, if_false, if_true, List.length_append,
        List.length_cons] <;> omega

/-- There are no more items than bytes. -/
theorem length_lt_of_spells (bracket : Bracket) {items : List (List Bytes)}
    (hitems : ∀ item ∈ items, IsItem bracket item)
    (h : Spells (separated true items ++ [[bracket.closing]]) text rest) :
    items.length < text.length + 1 := by
  have hsome : ∀ item ∈ items, item ≠ [] := by
    intro item hitem
    obtain ⟨b, tail, more, rfl, -⟩ := (hitems item hitem).eq_cons
    exact List.cons_ne_nil _ _
  have htokens : ∀ item ∈ items, ∀ token ∈ item, token ≠ [] := by
    intro item hitem
    cases hitems item hitem with
    | mk hhead ht => exact List.forall_mem_append.mpr ⟨hhead.ne_nil, ht.ne_nil⟩
  have hcount := length_le_separated hsome true
  have hlength := h.length_le (List.forall_mem_append.mpr
    ⟨ne_nil_of_mem_separated htokens true, List.forall_mem_singleton.mpr (List.cons_ne_nil _ _)⟩)
  rw [List.length_append, List.length_singleton] at hlength
  omega

theorem isItem_of_mem_elementTokens {ts : List Tree} (hts : ∀ t ∈ ts, t.Valid) :
    ∀ item ∈ elementTokens ts, IsItem .array item := by
  intro item hitem
  rw [elementTokens_eq_map] at hitem
  obtain ⟨t, ht, rfl⟩ := List.mem_map.mp hitem
  exact .mk .element (hts t ht)

/-- An array is read element by element. -/
theorem yields_list {ts : List Tree} (hr : r.Local) (hts : ∀ t ∈ ts, t.Valid) :
    (list r).Yields (.array ts) (ts.mapM r.on) := by
  refine .of_peek rfl (by decide) fun after rest hspells hstops => ?_
  have hfuel := length_lt_of_spells .array (isItem_of_mem_elementTokens hts) hspells
  rw [elementTokens_eq_map, List.length_map] at hfuel
  have hread := elements_eq hr hts hfuel true hspells
  have hlist : ∀ text : Bytes, (do
      advance
      let all ← elements r ((← get).length + 1) true
      advance
      return all : Reader (List α)) (openBracket :: text) = (do
      let all ← elements r (text.length + 1) true
      advance
      return all : Reader (List α)) text := fun _ => rfl
  refine (hlist after).trans ((bind_eq hread _).trans ?_)
  cases ts.mapM r.on <;> rfl

theorem refuses_list (ht : t.Valid) (h : ∀ ts, t ≠ .array ts) : (list r).Refuses t := by
  have hstart : t.starts openBracket = false := by
    cases t with
    | array ts => exact absurd rfl (h ts)
    | boolean value => cases value <;> rfl
    | _ => rfl
  refine refuses_of_starts .sequence ht fun b hb => ?_
  split
  · next heq => cases heq
  · next heq => exact absurd (Option.some.inj heq) (ne_of_starts hb hstart)
  · rfl

theorem Local.list (hr : r.Local) : (list r).Local := by
  refine local_of_yields fun t ht => ?_
  by_cases h : ∃ ts, t = .array ts
  · obtain ⟨ts, rfl⟩ := h
    cases ht with
    | array hts => exact ⟨_, yields_list hr hts⟩
  · obtain ⟨e, he⟩ := refuses_list ht (not_exists.mp h)
    exact ⟨_, he⟩

end Reader

end LoginRegistry.Json
