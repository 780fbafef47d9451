import LoginRegistry.Proofs.Json.Grammar
import Mathlib.Tactic.SplitIfs
import Mathlib.Tactic.Common

/-! # Strings, read and skipped

    A string that quotes Unicode characters is read as these characters, whatever text
    follows it (`readString_of_quotes`), and the compact writer quotes (`quotes_renderString`).
    Any string token is skipped (`skipString_of_isString`), only string tokens are skipped or
    read (`isString_of_skipString`, `isString_of_readString`), and what a token is read as, or
    why not, does not hang on the text after it (`exists_readString`).
-/

namespace LoginRegistry.Json

open Ascii

/-! ### UTF-8 -/

theorem ofUtf8?_utf8 (s : String) : Text.ofUtf8? (Text.utf8 s) = some s := by
  have hbytes : (Text.utf8 s).toByteArray = s.toByteArray := String.utf8Encode_toList
  have hvalid : s.toByteArray.IsValidUTF8 := s.isValidUTF8
  simp only [Text.ofUtf8?, hbytes, String.fromUTF8?, hvalid, dif_pos]
  rfl

/-! ### Plain bytes -/

theorem scanString_plain {b : UInt8} (hb : IsPlain b) (seen text : Bytes) :
    scanString seen (b :: text) = scanString (b :: seen) text := by
  obtain ⟨hq, hs, hc⟩ := hb
  rw [scanString.eq_def]
  simp only [if_neg hq, if_neg hs, if_neg hc]

theorem scanString_plains {bs : Bytes} (hbs : ∀ b ∈ bs, IsPlain b) (seen text : Bytes) :
    scanString seen (bs ++ text) = scanString (bs.reverse ++ seen) text := by
  induction bs generalizing seen with
  | nil => rfl
  | cons b bs ih =>
    rw [List.cons_append, scanString_plain (hbs b List.mem_cons_self),
      ih fun c hc => hbs c (List.mem_cons_of_mem _ hc)]
    simp

theorem skipString_plain {b : UInt8} (hb : IsPlain b) (text : Bytes) :
    skipString (b :: text) = skipString text := by
  obtain ⟨hq, hs, hc⟩ := hb
  rw [skipString.eq_def]
  simp only [if_neg hq, if_neg hs, if_neg hc]

theorem isPlain_ofNat {n : Nat} (h₁ : 0x20 ≤ n) (h₂ : n < 256) (h₃ : n ≠ 0x22) (h₄ : n ≠ 0x5c) :
    IsPlain (UInt8.ofNat n) := by
  refine ⟨fun h => ?_, fun h => ?_, fun h => ?_⟩
  · have := congrArg UInt8.toNat h
    simp [Nat.mod_eq_of_lt h₂] at this
    exact h₃ this
  · have := congrArg UInt8.toNat h
    simp [Nat.mod_eq_of_lt h₂] at this
    exact h₄ this
  · have := UInt8.lt_iff_toNat_lt.mp h
    simp [Nat.mod_eq_of_lt h₂] at this
    omega

theorem toNat_ne_of_ne {c d : Char} (h : c ≠ d) : c.toNat ≠ d.toNat := by
  intro he
  exact h (Char.toNat_inj.mp he)

/-- The bytes of a character that is not escaped stand for themselves. -/
theorem isPlain_utf8EncodeChar {c : Char} (hq : c ≠ '"') (hs : c ≠ '\\') (hc : 0x20 ≤ c.toNat)
    {b : UInt8} (hb : b ∈ String.utf8EncodeChar c) : IsPlain b := by
  have hq' : c.toNat ≠ 0x22 := toNat_ne_of_ne hq
  have hs' : c.toNat ≠ 0x5c := toNat_ne_of_ne hs
  have hv : c.val.toNat = c.toNat := rfl
  simp only [String.utf8EncodeChar, hv] at hb
  split at hb
  · -- The one byte of a short encoding is the character itself.
    simp only [List.mem_singleton] at hb
    subst hb
    exact isPlain_ofNat hc (by omega) hq' hs'
  · -- All bytes of a longer encoding are 0x80 or above.
    have high : ∀ n, 0x80 ≤ n → n < 256 → IsPlain (UInt8.ofNat n) := fun n h h' =>
      isPlain_ofNat (by omega) h' (by omega) (by omega)
    split at hb
    · simp only [List.mem_cons, List.not_mem_nil, or_false] at hb
      rcases hb with rfl | rfl <;> exact high _ (by omega) (by omega)
    · split at hb
      · simp only [List.mem_cons, List.not_mem_nil, or_false] at hb
        rcases hb with rfl | rfl | rfl <;> exact high _ (by omega) (by omega)
      · simp only [List.mem_cons, List.not_mem_nil, or_false] at hb
        rcases hb with rfl | rfl | rfl | rfl <;> exact high _ (by omega) (by omega)

/-! ### Escapes -/

/-- A letter escape is one byte, and the letter is not the one of an escape by number. -/
theorem shortEscape?_of_letter {e c : Char} (h : (e, c) ∈ letterEscapes) :
    shortEscape? (byte e) = some (byte c) ∧ byte e ≠ byte 'u' ∧
      String.utf8EncodeChar c = [byte c] := by
  revert h
  generalize he : (e, c) = entry
  intro h
  simp only [letterEscapes, List.mem_cons, List.not_mem_nil, or_false] at h
  rcases h with rfl | rfl | rfl | rfl | rfl | rfl | rfl | rfl <;>
    (obtain ⟨rfl, rfl⟩ := Prod.mk.inj he; exact ⟨by decide, by decide, by decide⟩)

theorem exists_letter_of_shortEscape? {e : UInt8} (h : (shortEscape? e).isSome = true) :
    ∃ l c, (l, c) ∈ letterEscapes ∧ e = byte l := by
  unfold shortEscape? at h
  split_ifs at h with h₁ h₂ h₃ h₄ h₅ h₆
  · simp only [Bool.or_eq_true, decide_eq_true_eq, or_assoc] at h₁
    rcases h₁ with rfl | rfl | rfl
    · exact ⟨'"', '"', by decide, rfl⟩
    · exact ⟨'\\', '\\', by decide, rfl⟩
    · exact ⟨'/', '/', by decide, rfl⟩
  · exact ⟨'b', Char.ofNat 0x08, by decide, h₂⟩
  · exact ⟨'f', Char.ofNat 0x0c, by decide, h₃⟩
  · exact ⟨'n', '\n', by decide, h₄⟩
  · exact ⟨'r', '\r', by decide, h₅⟩
  · exact ⟨'t', '\t', by decide, h₆⟩
  · cases h

/-- An escape by a single letter. -/
theorem scanString_letter {e c : Char} (h : (e, c) ∈ letterEscapes) (seen text : Bytes) :
    scanString seen (backslash :: byte e :: text) = scanString (byte c :: seen) text := by
  obtain ⟨he, hu, -⟩ := shortEscape?_of_letter h
  rw [scanString.eq_def]
  simp only [show backslash ≠ quote by decide, if_false, if_true, if_neg hu, he]

theorem skipString_letter {e c : Char} (h : (e, c) ∈ letterEscapes) (text : Bytes) :
    skipString (backslash :: byte e :: text) = skipString text := by
  obtain ⟨he, hu, -⟩ := shortEscape?_of_letter h
  rw [skipString.eq_def]
  simp only [show backslash ≠ quote by decide, if_false, if_true, if_neg hu, he,
    Option.isSome_some]

section unit

variable {a b c d : UInt8} {n : Nat} (h : hexQuad? a b c d = some n)

include h

/-- An escape by number that is no half of a pair. -/
theorem scanString_unit (hlow : isLowSurrogate n = false) (hhigh : isHighSurrogate n = false)
    (seen text : Bytes) :
    scanString seen (backslash :: byte 'u' :: a :: b :: c :: d :: text)
      = scanString ((codePointBytes n).reverse ++ seen) text := by
  rw [scanString.eq_def]
  simp only [show backslash ≠ quote by decide, if_false, if_true, h, hlow, hhigh,
    Bool.false_eq_true]

/-- The second half of a pair cannot come first. -/
theorem scanString_low (hlow : isLowSurrogate n = true) (seen text : Bytes) :
    scanString seen (backslash :: byte 'u' :: a :: b :: c :: d :: text) = .error .malformed := by
  rw [scanString.eq_def]
  simp only [show backslash ≠ quote by decide, if_false, if_true, h, hlow]

variable (hlow : isLowSurrogate n = false) (hhigh : isHighSurrogate n = true)

include hlow hhigh

/-- The first half of a pair needs a backslash after it. -/
theorem scanString_high_ne {s : UInt8} (hs : s ≠ backslash) (seen text : Bytes) :
    scanString seen (backslash :: byte 'u' :: a :: b :: c :: d :: s :: text)
      = .error .malformed := by
  rw [scanString.eq_def]
  simp only [show backslash ≠ quote by decide, if_false, if_true, h, hlow, hhigh,
    Bool.false_eq_true]
  rw [if_pos hs]

/-- The first half of a pair needs an escape by number after it. -/
theorem scanString_high_letter {u : UInt8} (hu : u ≠ byte 'u') (seen text : Bytes) :
    scanString seen (backslash :: byte 'u' :: a :: b :: c :: d :: backslash :: u :: text)
      = .error .malformed := by
  rw [scanString.eq_def]
  simp only [show backslash ≠ quote by decide, if_false, if_true, h, hlow, hhigh,
    Bool.false_eq_true, ne_eq, not_true_eq_false]
  rw [if_pos hu]

end unit

/-- No number is both halves of a pair. -/
theorem isLowSurrogate_of_isHighSurrogate {n : Nat} (h : isHighSurrogate n = true) :
    isLowSurrogate n = false := by
  simp only [isHighSurrogate, isLowSurrogate, Bool.and_eq_true, decide_eq_true_eq,
    Bool.and_eq_false_iff, decide_eq_false_iff_not] at h ⊢
  omega

/-! ### Quoted characters -/

/-- A written character is read back as its UTF-8 bytes. -/
theorem scanString_writes {c : Char} {piece : Bytes} (h : Writes c piece) (seen text : Bytes) :
    scanString seen (piece ++ text)
      = scanString ((String.utf8EncodeChar c).reverse ++ seen) text := by
  cases h with
  | plain hq hs hc =>
    exact scanString_plains (fun b hb => isPlain_utf8EncodeChar hq hs hc hb) seen text
  | letter h =>
    rw [(shortEscape?_of_letter h).2.2]
    exact scanString_letter h seen text
  | unit h hlow hhigh => exact scanString_unit h hlow hhigh seen text
  | pair h hhigh h' hlow =>
    refine (scanString_high_unit h (isLowSurrogate_of_isHighSurrogate hhigh) hhigh h' seen
      text).trans ?_
    rw [if_pos hlow]
    rfl

theorem scanString_pieces {cs : List Char} {pieces : List Bytes}
    (h : List.Forall₂ Writes cs pieces) (seen text : Bytes) :
    scanString seen (pieces.flatten ++ quote :: text)
      = .ok (seen.reverse ++ cs.flatMap String.utf8EncodeChar, text) := by
  induction h generalizing seen with
  | nil =>
    rw [List.flatten_nil, List.nil_append, scanString_quote]
    simp
  | cons hc _ ih =>
    rw [List.flatten_cons, List.append_assoc, scanString_writes hc, ih]
    simp

/-- A string is read as the characters that it quotes. -/
theorem readString_of_quotes {s : String} {tail : Bytes} (h : Quotes s (quote :: tail))
    (text : Bytes) : readString (tail ++ text) = .ok (s, text) := by
  obtain ⟨pieces, hpieces, heq⟩ := h
  obtain rfl := (List.cons.inj heq).2
  have hscan := scanString_pieces hpieces [] text
  simp only [List.reverse_nil, List.nil_append] at hscan
  have hutf : s.toList.flatMap String.utf8EncodeChar = Text.utf8 s := rfl
  rw [List.append_assoc, readString, List.singleton_append, hscan, hutf]
  simp only [ofUtf8?_utf8]

/-- The digits written for a control character stand for its number. -/
theorem hexQuad?_control {n : Nat} (h : n < 0x20) :
    hexQuad? (byte '0') (byte '0') (byte (Nat.digitChar (n / 16))) (byte (Nat.digitChar (n % 16)))
      = some n := by
  revert n
  decide

/-- The compact writer writes characters. -/
theorem writes_escapeChar (c : Char) : Writes c (escapeChar c) := by
  have hnumber : ∀ n, c.toNat = n → c = Char.ofNat n := fun n hn => by rw [← hn, Char.ofNat_toNat]
  unfold escapeChar
  -- Seven characters have an escape of their own, the other control characters are
  -- written by number, and the rest stands for itself.
  split_ifs with h₁ h₂ h₃ h₄ h₅ h₆ h₇ h₈
  · subst h₁
    exact .letter (e := '"') (by decide)
  · subst h₂
    exact .letter (e := '\\') (by decide)
  · subst h₃
    exact .letter (e := 'n') (by decide)
  · subst h₄
    exact .letter (e := 'r') (by decide)
  · subst h₅
    exact .letter (e := 't') (by decide)
  · rw [hnumber _ h₆]
    exact .letter (e := 'b') (by decide)
  · rw [hnumber _ h₇]
    exact .letter (e := 'f') (by decide)
  · have hlow : isLowSurrogate c.toNat = false := by simp [isLowSurrogate]; omega
    have hhigh : isHighSurrogate c.toNat = false := by simp [isHighSurrogate]; omega
    have hwrites := Writes.unit (hexQuad?_control h₈) hlow hhigh
    rwa [Char.ofNat_toNat] at hwrites
  · exact .plain h₁ h₂ (Nat.le_of_not_lt h₈)

/-- The compact writer quotes strings. -/
theorem quotes_renderString (s : String) : Quotes s (renderString s) := by
  refine ⟨s.toList.map escapeChar, ?_, ?_⟩
  · induction s.toList with
    | nil => exact .nil
    | cons c cs ih => exact .cons (writes_escapeChar c) ih
  · rw [renderString, List.flatMap_def]

/-! ### String tokens -/

theorem IsString.exists_tail {token : Bytes} (h : IsString token) :
    ∃ tail, token = quote :: tail ∧ IsString (quote :: tail) := by
  obtain ⟨parts, hparts, rfl⟩ := h
  exact ⟨_, rfl, parts, hparts, rfl⟩

theorem skipString_parts {parts : List Bytes} (h : ∀ part ∈ parts, IsPart part) (text : Bytes) :
    skipString (parts.flatten ++ quote :: text) = .ok text := by
  induction parts with
  | nil => exact skipString_quote text
  | cons part parts ih =>
    obtain ⟨hpart, hparts⟩ := List.forall_mem_cons.mp h
    rw [List.flatten_cons, List.append_assoc, ← ih hparts]
    cases hpart with
    | plain hb => exact skipString_plain hb _
    | letter he => exact skipString_letter he _
    | unit hn => exact skipString_unit hn _

/-- A string token is skipped. -/
theorem skipString_of_isString {tail : Bytes} (h : IsString (quote :: tail)) (text : Bytes) :
    skipString (tail ++ text) = .ok text := by
  obtain ⟨parts, hparts, heq⟩ := h
  rw [(List.cons.inj heq).2, List.append_assoc]
  exact skipString_parts hparts text

/-- The parts of a written character. -/
theorem Writes.exists_parts {c : Char} {piece : Bytes} (h : Writes c piece) :
    ∃ parts : List Bytes, (∀ part ∈ parts, IsPart part) ∧ piece = parts.flatten := by
  cases h with
  | plain hq hs hc =>
    refine ⟨(String.utf8EncodeChar c).map fun b => [b], fun part hpart => ?_, ?_⟩
    · obtain ⟨b, hb, rfl⟩ := List.mem_map.mp hpart
      exact .plain (isPlain_utf8EncodeChar hq hs hc hb)
    · induction String.utf8EncodeChar c with
      | nil => rfl
      | cons b bs ih => exact congrArg (b :: ·) ih
  | letter h => exact ⟨[_], List.forall_mem_singleton.mpr (.letter h), rfl⟩
  | unit h => exact ⟨[_], List.forall_mem_singleton.mpr (.unit h), rfl⟩
  | @pair a b c d a' b' c' d' _ _ h _ h' _ =>
    refine ⟨[[backslash, byte 'u', a, b, c, d], [backslash, byte 'u', a', b', c', d']], ?_, rfl⟩
    exact List.forall_mem_cons.mpr ⟨.unit h, List.forall_mem_singleton.mpr (.unit h')⟩

/-- Quoted characters are a string token. -/
theorem Quotes.isString {s : String} {token : Bytes} (h : Quotes s token) : IsString token := by
  obtain ⟨pieces, hpieces, rfl⟩ := h
  have hparts : ∃ parts : List Bytes, (∀ part ∈ parts, IsPart part) ∧
      pieces.flatten = parts.flatten := by
    generalize s.toList = cs at hpieces
    induction hpieces with
    | nil => exact ⟨[], nofun, rfl⟩
    | cons hc _ ih =>
      obtain ⟨parts, hparts, rfl⟩ := hc.exists_parts
      obtain ⟨rest, hrest, heq⟩ := ih
      refine ⟨parts ++ rest, List.forall_mem_append.mpr ⟨hparts, hrest⟩, ?_⟩
      rw [List.flatten_cons, heq, List.flatten_append]
  obtain ⟨parts, hparts, heq⟩ := hparts
  exact ⟨parts, hparts, by rw [heq]⟩

/-- Only string tokens are skipped. -/
theorem isString_of_skipString {text rest : Bytes} (h : skipString text = .ok rest) :
    ∃ tail, text = tail ++ rest ∧ IsString (quote :: tail) := by
  have hmore : ∀ {part text : Bytes}, IsPart part →
      (∃ tail, text = tail ++ rest ∧ IsString (quote :: tail)) →
      ∃ tail, part ++ text = tail ++ rest ∧ IsString (quote :: tail) := by
    rintro part text hpart ⟨tail, rfl, parts, hparts, heq⟩
    obtain rfl := (List.cons.inj heq).2
    exact ⟨part ++ (parts.flatten ++ [quote]), (List.append_assoc ..).symm, part :: parts,
      List.forall_mem_cons.mpr ⟨hpart, hparts⟩, by rw [List.flatten_cons, List.append_assoc]⟩
  fun_induction skipString text with
  | case1 => cases h
  | case2 text =>
    obtain rfl := Except.ok.inj h
    exact ⟨[quote], rfl, [], nofun, rfl⟩
  | case3 => cases h
  | case4 a b c d text hn _ ih =>
    obtain ⟨n, hn⟩ := Option.isSome_iff_exists.mp hn
    exact hmore (.unit hn) (ih h)
  | case5 => cases h
  | case6 => cases h
  | case7 e text _ he _ ih =>
    obtain ⟨l, c, hl, rfl⟩ := exists_letter_of_shortEscape? he
    exact hmore (.letter hl) (ih h)
  | case8 => cases h
  | case9 => cases h
  | case10 b text hq hs hc ih => exact hmore (.plain ⟨hq, hs, hc⟩) (ih h)

/-- What is read as bytes is skipped. -/
theorem skipString_of_scanString {seen text bytes rest : Bytes}
    (h : scanString seen text = .ok (bytes, rest)) : skipString text = .ok rest := by
  fun_induction scanString seen text with
  | case2 seen text =>
    obtain ⟨-, rfl⟩ := Prod.mk.inj (Except.ok.inj h)
    exact skipString_quote _
  | case11 _ _ _ _ _ _ hn _ _ _ hs _ hu _ _ _ _ _ _ hm _ _ ih =>
    obtain rfl := not_not.mp hs
    obtain rfl := not_not.mp hu
    rw [skipString_unit hn, skipString_unit hm]
    exact ih h
  | case14 _ _ _ _ _ _ _ hn _ _ _ ih =>
    rw [skipString_unit hn]
    exact ih h
  | case16 _ e text hu c he _ ih =>
    obtain ⟨l, c, hl, rfl⟩ := exists_letter_of_shortEscape? (by rw [he]; rfl)
    rw [skipString_letter hl]
    exact ih h
  | case19 _ b text hq hs hc ih =>
    rw [skipString_plain ⟨hq, hs, hc⟩]
    exact ih h
  | _ => cases h

/-- Only string tokens are read. -/
theorem isString_of_readString {text rest : Bytes} {s : String}
    (h : readString text = .ok (s, rest)) :
    ∃ tail, text = tail ++ rest ∧ IsString (quote :: tail) := by
  unfold readString at h
  split at h
  · cases h
  · next bytes rest' hscan =>
    split at h
    · obtain ⟨-, rfl⟩ := Prod.mk.inj (Except.ok.inj h)
      exact isString_of_skipString (skipString_of_scanString hscan)
    · cases h

/-- What a string token is read as does not hang on what follows it. -/
theorem exists_scanString : (parts : List Bytes) → (∀ part ∈ parts, IsPart part) →
    (seen : Bytes) → ∃ o : Except Error Bytes, ∀ text,
      scanString seen (parts.flatten ++ quote :: text) = o.map (·, text)
  | [], _, seen => ⟨.ok seen.reverse, fun text => scanString_quote seen text⟩
  | part :: parts, h, seen => by
    obtain ⟨hpart, hparts⟩ := List.forall_mem_cons.mp h
    -- An escape may be the first half of a pair, so the part after it is looked at as well.
    cases hpart with
    | @plain b hb =>
      obtain ⟨o, ho⟩ := exists_scanString parts hparts (b :: seen)
      exact ⟨o, fun text => (scanString_plain hb seen _).trans (ho text)⟩
    | @letter e c he =>
      obtain ⟨o, ho⟩ := exists_scanString parts hparts (byte c :: seen)
      exact ⟨o, fun text => (scanString_letter he seen _).trans (ho text)⟩
    | @unit _ _ _ _ n hn =>
      cases hlow : isLowSurrogate n with
      | true => exact ⟨.error .malformed, fun text => scanString_low hn hlow seen _⟩
      | false =>
        cases hhigh : isHighSurrogate n with
        | false =>
          obtain ⟨o, ho⟩ := exists_scanString parts hparts ((codePointBytes n).reverse ++ seen)
          exact ⟨o, fun text => (scanString_unit hn hlow hhigh seen _).trans (ho text)⟩
        | true =>
          match parts, hparts with
          | [], _ =>
            exact ⟨.error .malformed, fun text =>
              scanString_high_ne hn hlow hhigh (by decide) seen _⟩
          | next :: parts, hparts =>
            obtain ⟨hnext, hrest⟩ := List.forall_mem_cons.mp hparts
            cases hnext with
            | plain hb =>
              exact ⟨.error .malformed, fun text =>
                scanString_high_ne hn hlow hhigh hb.2.1 seen _⟩
            | letter he =>
              exact ⟨.error .malformed, fun text =>
                scanString_high_letter hn hlow hhigh (shortEscape?_of_letter he).2.1 seen _⟩
            | @unit _ _ _ _ m hm =>
              have hpair := scanString_high_unit hn hlow hhigh hm seen
              cases hsecond : isLowSurrogate m with
              | false => exact ⟨.error .malformed, fun text => (hpair _).trans (by rw [hsecond]; rfl)⟩
              | true =>
                obtain ⟨o, ho⟩ := exists_scanString parts hrest
                  ((codePointBytes (pairedSurrogates n m)).reverse ++ seen)
                exact ⟨o, fun text => (hpair _).trans (by rw [hsecond]; exact ho text)⟩

theorem exists_readString {tail : Bytes} (h : IsString (quote :: tail)) :
    ∃ o : Except Error String, ∀ text, readString (tail ++ text) = o.map (·, text) := by
  obtain ⟨parts, hparts, heq⟩ := h
  obtain rfl := (List.cons.inj heq).2
  obtain ⟨o, ho⟩ := exists_scanString parts hparts []
  cases o with
  | error e =>
    refine ⟨.error e, fun text => ?_⟩
    rw [List.append_assoc, readString, List.singleton_append, ho]
    rfl
  | ok bytes =>
    cases hutf : Text.ofUtf8? bytes with
    | none =>
      refine ⟨.error .malformed, fun text => ?_⟩
      rw [List.append_assoc, readString, List.singleton_append, ho]
      simp only [Except.map, hutf]
    | some s =>
      refine ⟨.ok s, fun text => ?_⟩
      rw [List.append_assoc, readString, List.singleton_append, ho]
      simp only [Except.map, hutf]

end LoginRegistry.Json
