import LoginRegistry.Proofs.Json.Record

/-! # Only well-formed values are read

    A reader that gives a result has read a well-formed value (`Reader.Sound`).  For records
    this is one induction over the members and one over the fields, with the same predicate as
    for skipping (`Closes`): every member or element that is read is one more item of the
    bracket.
-/

namespace LoginRegistry.Json

open Ascii

namespace Reader

variable {r : Reader α} {text rest : Bytes}

/-- What the reader has read to give a result is a well-formed value. -/
def Sound (r : Reader α) : Prop :=
  ∀ ⦃text rest : Bytes⦄ ⦃a : α⦄, r text = .ok (a, rest) →
    ∃ t : Tree, t.Valid ∧ Spells t.tokens text rest

/-! ### Steps of a reader that gives a result -/

theorem exists_of_bind {f : α → Reader β} {p : β × Bytes} (h : (r >>= f) text = .ok p) :
    ∃ a mid, r text = .ok (a, mid) ∧ f a mid = .ok p := by
  obtain ⟨⟨a, mid⟩, hread, hrest⟩ := exists_of_bind_ok h
  exact ⟨a, mid, hread, hrest⟩

/-- What comes next is decided by the first byte. -/
theorem cases_of_bind_peek {f : Option UInt8 → Reader β} {p : β × Bytes}
    (h : (peek >>= f) text = .ok p) : skipSpace text = [] ∧ f none [] = .ok p ∨
      ∃ b after next, skipSpace text = b :: after ∧ f (some b) = next ∧
        next (b :: after) = .ok p := by
  obtain ⟨o, mid, hpeek, h⟩ := exists_of_bind h
  obtain ⟨rfl, rfl⟩ := Prod.mk.inj (Except.ok.inj hpeek)
  cases htext : skipSpace text with
  | nil =>
    rw [htext] at h
    exact .inl ⟨rfl, h⟩
  | cons b after =>
    rw [htext] at h
    exact .inr ⟨b, after, _, rfl, rfl, h⟩

theorem refuse_ne_ok {expected : Expected} {p : α × Bytes} : refuse expected text ≠ .ok p := by
  intro h
  obtain ⟨found, mid, -, h⟩ := exists_of_bind h
  cases h

/-! ### Numbers -/

theorem Sound.map {f : α → β} (h : r.Sound) : (f <$> r).Sound := by
  intro text rest b hmap
  obtain ⟨a, mid, hread, hrest⟩ := exists_of_bind (f := fun a => return f a) hmap
  obtain ⟨-, rfl⟩ := Prod.mk.inj (Except.ok.inj hrest)
  exact h hread

theorem sound_natural {limit : Nat} {expected : Expected} : (natural limit expected).Sound := by
  have hnumber : ∀ {positive : Bool} {text rest : Bytes} {n : Nat},
      (ofScan (readNumber positive) >>= inRange limit expected) text = .ok (n, rest) →
      ∃ token, IsUnsigned token ∧ text = token ++ rest := by
    intro positive text rest n h
    obtain ⟨number, mid, hread, hrange⟩ := exists_of_bind h
    obtain ⟨o, ho⟩ := exists_inRange limit expected number
    rw [ho] at hrange
    cases o with
    | error e => cases hrange
    | ok n =>
      obtain ⟨-, rfl⟩ := Prod.mk.inj (Except.ok.inj hrange)
      exact isUnsigned_of_skipNumber (skipNumber_of_readNumber hread)
  intro text rest n h
  obtain ⟨-, h⟩ | ⟨b, after, next, htext, hnext, h⟩ := cases_of_bind_peek h
  · cases h
  · split at hnext
    · next heq => cases heq
    · next heq =>
      obtain rfl := Option.some.inj heq
      subst hnext
      obtain ⟨token, htoken, rfl⟩ := hnumber h
      exact ⟨.number (minus :: token), .number (.negative htoken), .of_skipSpace htext .nil⟩
    · next heq =>
      obtain rfl := Option.some.inj heq
      split at hnext <;> subst hnext
      · obtain ⟨token, htoken, hafter⟩ := hnumber h
        exact ⟨.number token, .number (.positive htoken), .of_skipSpace (htext.trans hafter) .nil⟩
      · exact absurd h refuse_ne_ok

theorem sound_uint16 : uint16.Sound := sound_natural.map (f := UInt16.ofNat)

theorem sound_skip : skip.Sound := by
  intro text rest _ h
  obtain ⟨mid, hskip, hrest⟩ := exists_of_bind_ok h
  obtain ⟨-, rfl⟩ := Prod.mk.inj (Except.ok.inj hrest)
  exact exists_of_skipValue hskip

/-! ### Steps between items -/

/-- Tokens can be told off from the first byte that is no blank. -/
theorem reaches_skipSpace (text : Bytes) : Reaches true [] text (skipSpace text) := by
  intro token tokens rest h
  obtain ⟨blanks, hblanks, heq⟩ := exists_blanks text
  rw [heq]
  exact h.blanks hblanks

/-- After a comma an element comes next. -/
theorem eq_of_elementDue {more : Bool} {mid : Bytes} (h : elementDue text = .ok (more, mid)) :
    more = true ∧ mid = skipSpace text := by
  obtain ⟨-, h⟩ | ⟨b, after, next, htext, hnext, hrun⟩ := cases_of_bind_peek h
  · cases h
  · split at hnext
    · next heq => cases heq
    · subst hnext
      cases hrun
    · subst hnext
      obtain ⟨rfl, rfl⟩ := Prod.mk.inj (Except.ok.inj hrun)
      exact ⟨rfl, htext.symm⟩

/-- An element comes next, or the closing bracket. -/
theorem cases_of_nextElement {first more : Bool} {mid : Bytes}
    (h : nextElement first text = .ok (more, mid)) :
    (more = false ∧ ∃ after, mid = closeBracket :: after ∧ skipSpace text = mid) ∨
    (more = true ∧ Reaches first [] text mid) := by
  obtain ⟨-, h⟩ | ⟨b, after, next, htext, hnext, hrun⟩ := cases_of_bind_peek h
  · cases h
  · split at hnext
    · next heq => cases heq
    · next heq =>
      obtain rfl := Option.some.inj heq
      subst hnext
      obtain ⟨rfl, rfl⟩ := Prod.mk.inj (Except.ok.inj hrun)
      exact .inl ⟨rfl, after, rfl, htext⟩
    · next heq =>
      obtain rfl := Option.some.inj heq
      split at hnext
      · next hfirst =>
        subst hnext hfirst
        obtain ⟨rfl, rfl⟩ := Prod.mk.inj (Except.ok.inj hrun)
        exact .inr ⟨rfl, htext ▸ reaches_skipSpace text⟩
      · next hfirst =>
        obtain rfl := Bool.eq_false_iff.mpr hfirst
        split at hnext
        · next hcomma =>
          subst hnext hcomma
          have hdue : elementDue after = .ok (more, mid) := hrun
          obtain ⟨rfl, rfl⟩ := eq_of_elementDue hdue
          exact .inr ⟨rfl, .comma htext (reaches_skipSpace after)⟩
        · subst hnext
          cases hrun

/-- After a comma the name of a member comes next. -/
theorem eq_of_nameDue {more : Bool} {mid : Bytes} (h : nameDue text = .ok (more, mid)) :
    more = true ∧ mid = skipSpace text ∧ ∃ after, mid = quote :: after := by
  obtain ⟨-, h⟩ | ⟨b, after, next, htext, hnext, hrun⟩ := cases_of_bind_peek h
  · cases h
  · split at hnext
    · next heq => cases heq
    · next heq =>
      obtain rfl := Option.some.inj heq
      subst hnext
      obtain ⟨rfl, rfl⟩ := Prod.mk.inj (Except.ok.inj hrun)
      exact ⟨rfl, htext.symm, after, rfl⟩
    · subst hnext
      cases hrun

/-- The name of a member comes next, or the closing brace. -/
theorem cases_of_nextMember {first more : Bool} {mid : Bytes}
    (h : nextMember first text = .ok (more, mid)) :
    (more = false ∧ ∃ after, mid = closeBrace :: after ∧ skipSpace text = mid) ∨
    (more = true ∧ (∃ after, mid = quote :: after) ∧ Reaches first [] text mid) := by
  obtain ⟨-, h⟩ | ⟨b, after, next, htext, hnext, hrun⟩ := cases_of_bind_peek h
  · cases h
  · split at hnext
    · next heq => cases heq
    · next heq =>
      obtain rfl := Option.some.inj heq
      subst hnext
      obtain ⟨rfl, rfl⟩ := Prod.mk.inj (Except.ok.inj hrun)
      exact .inl ⟨rfl, after, rfl, htext⟩
    · next heq =>
      obtain rfl := Option.some.inj heq
      split at hnext
      · next hfirst =>
        split at hnext
        · next hquote =>
          subst hnext hfirst hquote
          obtain ⟨rfl, rfl⟩ := Prod.mk.inj (Except.ok.inj hrun)
          exact .inr ⟨rfl, ⟨after, rfl⟩, htext ▸ reaches_skipSpace text⟩
        · subst hnext
          cases hrun
      · next hfirst =>
        obtain rfl := Bool.eq_false_iff.mpr hfirst
        split at hnext
        · next hcomma =>
          subst hnext hcomma
          have hdue : nameDue after = .ok (more, mid) := hrun
          obtain ⟨rfl, rfl, hquote⟩ := eq_of_nameDue hdue
          exact .inr ⟨rfl, hquote, .comma htext (reaches_skipSpace after)⟩
        · subst hnext
          cases hrun

/-- A single byte that has to come next. -/
theorem skipSpace_of_colon {mid : Bytes} {u : Unit} (h : Reader.colon text = .ok (u, mid)) :
    skipSpace text = Ascii.colon :: mid := by
  obtain ⟨-, h⟩ | ⟨b, after, next, htext, hnext, hrun⟩ := cases_of_bind_peek h
  · cases h
  · split at hnext
    · next heq => cases heq
    · next heq =>
      obtain rfl := Option.some.inj heq
      subst hnext
      obtain ⟨-, rfl⟩ := Prod.mk.inj (Except.ok.inj hrun)
      exact htext
    · subst hnext
      cases hrun

theorem skipSpace_of_closePositional {mid : Bytes} {u : Unit}
    (h : closePositional text = .ok (u, mid)) : skipSpace text = closeBracket :: mid := by
  obtain ⟨-, h⟩ | ⟨b, after, next, htext, hnext, hrun⟩ := cases_of_bind_peek h
  · cases h
  · split at hnext
    · next heq => cases heq
    · next heq =>
      obtain rfl := Option.some.inj heq
      subst hnext
      obtain ⟨-, rfl⟩ := Prod.mk.inj (Except.ok.inj hrun)
      exact htext
    · subst hnext
      cases hrun

/-! ### Records -/

section record

variable {σ : Type} {r : Record σ}

/-- Members that are read, and the closing brace after them, close an object. -/
theorem closes_of_members (hr : ∀ f ∈ r.fields, f.read.Sound) {fuel : Nat} {first : Bool}
    {seen : List String} {draft : σ} {state : List String × σ}
    (h : members r fuel first seen draft text = .ok (state, rest)) :
    ∃ after, rest = closeBrace :: after ∧ Closes first [.object] text after := by
  induction fuel generalizing first seen draft text with
  | zero => cases h
  | succ fuel ih =>
    obtain ⟨more, mid, hnext, hrest⟩ := exists_of_bind h
    obtain ⟨rfl, after, rfl, htext⟩ | ⟨rfl, ⟨quoted, rfl⟩, hreaches⟩ := cases_of_nextMember hnext
    · obtain ⟨-, rfl⟩ := Prod.mk.inj (Except.ok.inj hrest)
      exact ⟨after, rfl, .of_closing htext (.nil false) first⟩
    · rw [if_pos rfl, bind_advance] at hrest
      obtain ⟨name, afterName, hname, hmember⟩ := exists_of_bind hrest
      obtain ⟨tail, rfl, htoken⟩ := isString_of_readString hname
      -- Whether it is read or skipped, a value follows the colon.
      have hvalue : ∀ {mid after : Bytes} {t : Tree} {seen : List String} {draft : σ} {u : Unit},
          Reader.colon afterName = .ok (u, mid) → t.Valid → Spells t.tokens mid after →
          members r fuel false seen draft after = .ok (state, rest) →
          ∃ end', rest = closeBrace :: end' ∧ Closes first [.object] text end' := by
        intro mid after t seen draft u hcolon ht hspells hread
        obtain ⟨end', hend, hcloses⟩ := ih hread
        refine ⟨end', hend, .cons (.member htoken) ht (fun token tokens rest h => ?_) hspells
          hcloses⟩
        have hcolon : Spells ([Ascii.colon] :: token :: tokens) afterName rest :=
          .of_byte (skipSpace_of_colon hcolon) h
        have hhead := hreaches (quote :: tail) _ _ hcolon.token
        cases first <;> exact hhead
      cases hfind : r.fields.find? (·.name == name) with
      | none =>
        rw [hfind] at hmember
        obtain ⟨_, mid, hcolon, hmember⟩ := exists_of_bind hmember
        obtain ⟨_, after, hskip, hmember⟩ := exists_of_bind hmember
        obtain ⟨t, ht, hspells⟩ := sound_skip hskip
        exact hvalue hcolon ht hspells hmember
      | some field =>
        rw [hfind] at hmember
        dsimp only at hmember
        split at hmember
        · cases hmember
        · obtain ⟨_, mid, hcolon, hmember⟩ := exists_of_bind hmember
          obtain ⟨change, after, hread, hmember⟩ := exists_of_bind hmember
          obtain ⟨t, ht, hspells⟩ := hr field (List.mem_of_find?_eq_some hfind) hread
          exact hvalue hcolon ht hspells hmember

/-- Fields that are filled one by one, and the closing bracket after them, close an array. -/
theorem closes_of_positional {fields : List (Field σ)} (hr : ∀ f ∈ fields, f.read.Sound)
    {index : Nat} {draft result : σ} {u : Unit} {mid : Bytes}
    (h : positional r index fields draft text = .ok (result, mid))
    (hclose : closePositional mid = .ok (u, rest)) :
    Closes (index == 0) [.array] text rest := by
  -- Once the array has ended, the fields that are left over stay at its closing bracket.
  induction fields generalizing index draft text with
  | nil =>
    obtain ⟨-, rfl⟩ := Prod.mk.inj (Except.ok.inj h)
    exact .of_closing (skipSpace_of_closePositional hclose) (.nil false) _
  | cons field fields ih =>
    obtain ⟨hfield, hfields⟩ := List.forall_mem_cons.mp hr
    obtain ⟨more, next, hnext, hrest⟩ := exists_of_bind h
    obtain ⟨rfl, after, rfl, htext⟩ | ⟨rfl, hreaches⟩ := cases_of_nextElement hnext
    · rw [if_neg Bool.false_ne_true] at hrest
      split at hrest
      · cases hrest
      · exact .of_closing htext (Closes.eq_of_closing (ih hfields hrest)) _
    · rw [if_pos rfl] at hrest
      obtain ⟨change, after, hread, hrest⟩ := exists_of_bind hrest
      obtain ⟨t, ht, hspells⟩ := hfield hread
      exact .cons .element ht hreaches hspells (ih hfields hrest)

/-- Only objects and arrays are read as records. -/
theorem Sound.record (hr : ∀ f ∈ r.fields, f.read.Sound) : (record r).Sound := by
  -- What closes the bracket that has just been opened makes up a value.
  have htree : ∀ (bracket : Bracket) {text after rest : Bytes},
      skipSpace text = bracket.opening :: after → Closes true [bracket] after rest →
      ∃ t : Tree, t.Valid ∧ Spells t.tokens text rest := by
    intro bracket text after rest htext hcloses
    obtain ⟨items, mid, hitems, hspells, rfl⟩ := hcloses
    obtain ⟨t, ht, htokens⟩ := exists_tree_of_items hitems
    exact ⟨t, ht, htokens ▸ .of_byte htext hspells⟩
  intro text rest a h
  obtain ⟨-, h⟩ | ⟨b, after, next, htext, hnext, hrun⟩ := cases_of_bind_peek h
  · cases h
  · split at hnext
    · next heq => cases heq
    · next heq =>
      obtain rfl := Option.some.inj heq
      subst hnext
      have hobject : objectRest r (after.length + 1) after = .ok (a, rest) := hrun
      obtain ⟨⟨seen, draft⟩, mid, hread, hrun⟩ := exists_of_bind hobject
      obtain ⟨after', rfl, hcloses⟩ := closes_of_members hr hread
      dsimp only at hrun
      cases hfind : r.fields.find? fun f => f.required && !seen.contains f.name with
      | some missing =>
        rw [hfind] at hrun
        cases hrun
      | none =>
        rw [hfind] at hrun
        obtain ⟨-, rfl⟩ := Prod.mk.inj (Except.ok.inj hrun)
        exact htree .object htext hcloses
    · next heq =>
      obtain rfl := Option.some.inj heq
      subst hnext
      rw [bind_advance] at hrun
      obtain ⟨draft, mid, hread, hrun⟩ := exists_of_bind hrun
      obtain ⟨_, after', hclose, hrun⟩ := exists_of_bind hrun
      obtain ⟨-, rfl⟩ := Prod.mk.inj (Except.ok.inj hrun)
      exact htree .array htext (closes_of_positional hr hread hclose)
    · subst hnext
      exact absurd hrun refuse_ne_ok

end record

/-- A whole text that is read is a value with blanks around it. -/
theorem Sound.exists_tree {a : α} (hr : r.Sound) (h : r.parse text = .ok a) :
    ∃ t : Tree, t.Valid ∧ t.HasText text := by
  obtain ⟨⟨a, rest⟩, hread, hrest⟩ := exists_of_bind_ok h
  obtain ⟨t, ht, hspells⟩ := hr hread
  refine ⟨t, ht, rest, hspells, skipSpace_eq_nil_iff.mp ?_⟩
  cases hspace : skipSpace rest with
  | nil => rfl
  | cons b after =>
    simp only [hspace] at hrest
    cases hrest

end Reader

end LoginRegistry.Json
