import LoginRegistry.Proofs.Json.Grammar
import Mathlib.Tactic.SplitIfs
import Mathlib.Tactic.Common

/-! # Numbers, read and skipped

    A number ends where it cannot go on (`Stops`).  Any number token before such a text is
    skipped (`skipNumber_of_isUnsigned`), only number tokens are skipped or read
    (`isUnsigned_of_skipNumber`, `skipNumber_of_readNumber`), and what a token is read as, or
    why not, does not hang on the text after it (`readsOff_readNumber`).  A natural number that
    the compact writer writes is read as this number (`readNumber_renderNatural`).
-/

namespace LoginRegistry.Json

open Ascii

/-! ### Where a number ends -/

/-- No digit comes first. -/
def NoDigit (text : Bytes) : Prop := ∀ b ∈ text.head?, isDigit b = false

/-- A number does not go on into this text. -/
def Stops (text : Bytes) : Prop :=
  ∀ b ∈ text.head?, isDigit b = false ∧ b ≠ point ∧ b ≠ byte 'e' ∧ b ≠ byte 'E'

theorem Stops.noDigit {text : Bytes} (h : Stops text) : NoDigit text := fun b hb => (h b hb).1

theorem Stops.startsExponent_eq_false {text : Bytes} (h : Stops text) :
    startsExponent text = false := by
  cases text with
  | nil => rfl
  | cons b text =>
    obtain ⟨-, -, he, hE⟩ := h b rfl
    rw [startsExponent, beq_false_of_ne he, beq_false_of_ne hE]
    rfl

theorem stops_nil : Stops [] := nofun

theorem stops_blank {text : Bytes} (h : IsBlank text) : Stops text := by
  intro b hb
  have hspace := h b (List.mem_of_mem_head? hb)
  simp only [isSpace, Bool.or_eq_true, beq_iff_eq, or_assoc] at hspace
  rcases hspace with rfl | rfl | rfl | rfl <;> decide

/-- A number ends before the tokens that follow a value inside brackets. -/
theorem Spells.stops {b : UInt8} {token text rest : Bytes} {tokens : List Bytes}
    (h : Spells ((b :: token) :: tokens) text rest)
    (hb : b = comma ∨ b = closeBracket ∨ b = closeBrace) : Stops text := by
  cases h with
  | @cons blanks _ text' _ _ hblanks _ =>
    cases blanks with
    | nil =>
      intro c hc
      obtain rfl : b = c := Option.some.inj hc
      rcases hb with rfl | rfl | rfl <;> decide
    | cons c blanks =>
      have hstops : Stops [c] :=
        stops_blank (List.forall_mem_singleton.mpr (hblanks c List.mem_cons_self))
      exact hstops

/-! ### Runs of digits -/

theorem countDigits_of_noDigit {text : Bytes} (h : NoDigit text) : countDigits text = 0 := by
  cases text with
  | nil => rfl
  | cons b text => simp [countDigits, h b rfl]

theorem dropDigits_of_noDigit {text : Bytes} (h : NoDigit text) : dropDigits text = text := by
  cases text with
  | nil => rfl
  | cons b text => simp [dropDigits, h b rfl]

theorem takeWhile_digits {ds : Bytes} (hds : ∀ b ∈ ds, isDigit b = true) {text : Bytes}
    (ht : NoDigit text) : (ds ++ text).takeWhile isDigit = ds := by
  rw [List.takeWhile_append_of_pos hds]
  cases text with
  | nil => exact List.append_nil ds
  | cons b text => simp [ht b rfl]

theorem countDigits_digits {ds : Bytes} (hds : ∀ b ∈ ds, isDigit b = true) {text : Bytes}
    (ht : NoDigit text) : countDigits (ds ++ text) = ds.length := by
  rw [countDigits, takeWhile_digits hds ht]

theorem dropDigits_digits {ds : Bytes} (hds : ∀ b ∈ ds, isDigit b = true) {text : Bytes}
    (ht : NoDigit text) : dropDigits (ds ++ text) = text := by
  rw [dropDigits, List.dropWhile_append_of_pos hds]
  exact dropDigits_of_noDigit ht

/-- A text is the digits that it starts with and what follows them. -/
theorem exists_digits (text : Bytes) :
    ∃ ds, (∀ b ∈ ds, isDigit b = true) ∧ ds.length = countDigits text ∧
      text = ds ++ dropDigits text :=
  ⟨text.takeWhile isDigit, fun _ => List.mem_takeWhile_imp, rfl,
    List.takeWhile_append_dropWhile.symm⟩

/-- Which digits of a run are taken does not hang on what follows the run. -/
theorem exists_takeDigits {ds : Bytes} (hds : ∀ b ∈ ds, isDigit b = true)
    (significand taken : Nat) : ∃ value count left, (∀ b ∈ left, isDigit b = true) ∧
      ∀ text, NoDigit text →
        takeDigits significand taken (ds ++ text) = (value, count, left ++ text) := by
  induction ds generalizing significand taken with
  | nil =>
    refine ⟨significand, taken, [], nofun, fun text ht => ?_⟩
    cases text with
    | nil => rfl
    | cons b text => simp [takeDigits, ht b rfl]
  | cons b ds ih =>
    obtain ⟨hb, hrest⟩ := List.forall_mem_cons.mp hds
    by_cases hfit : 10 * significand + digitValue b < UInt64.size
    · obtain ⟨value, count, left, hleft, htake⟩ :=
        ih hrest (10 * significand + digitValue b) (taken + 1)
      refine ⟨value, count, left, hleft, fun text ht => ?_⟩
      rw [List.cons_append, takeDigits, hb, decide_eq_true hfit]
      exact htake text ht
    · refine ⟨significand, taken, b :: ds, hds, fun text _ => ?_⟩
      rw [List.cons_append, takeDigits, decide_eq_false hfit, Bool.and_false]
      rfl

/-- Digits that are not taken are dropped with the others. -/
theorem dropDigits_takeDigits (significand taken : Nat) (text : Bytes) :
    dropDigits (takeDigits significand taken text).2.2 = dropDigits text := by
  induction text generalizing significand taken with
  | nil => rfl
  | cons b text ih =>
    rw [takeDigits]
    split
    · next hfit =>
      rw [ih, dropDigits, dropDigits, List.dropWhile_cons_of_pos (Bool.and_eq_true_iff.mp hfit).1]
    · rfl

/-! ### Number tokens -/

section tokens

variable {fraction exponent text : Bytes}

theorem IsExponent.noDigit (h : IsExponent exponent) (ht : Stops text) :
    NoDigit (exponent ++ text) := by
  cases h with
  | none => exact ht.noDigit
  | some he =>
    intro b hb
    obtain rfl := Option.some.inj hb
    rcases he with rfl | rfl <;> decide

theorem IsFraction.noDigit (h : IsFraction fraction) (hexponent : IsExponent exponent)
    (ht : Stops text) : NoDigit (fraction ++ (exponent ++ text)) := by
  cases h with
  | none => exact hexponent.noDigit ht
  | some =>
    intro b hb
    obtain rfl := Option.some.inj hb
    decide

/-- What follows the digits of a number goes on with a point only if it has a fraction. -/
theorem IsExponent.head?_ne_point (h : IsExponent exponent) (ht : Stops text) (more : Bytes) :
    exponent ++ text ≠ point :: more := by
  intro heq
  cases h with
  | none => exact (ht point (by rw [← List.nil_append text, heq]; rfl)).2.1 rfl
  | some he =>
    rcases he with rfl | rfl <;> exact absurd (List.cons.inj heq).1 (by decide)

theorem IsDigits.exists_cons {ds : Bytes} (h : IsDigits ds) :
    ∃ b rest, ds = b :: rest ∧ isDigit b = true ∧ ∀ c ∈ rest, isDigit c = true := by
  obtain ⟨hne, hds⟩ := h
  cases ds with
  | nil => exact absurd rfl hne
  | cons b rest => exact ⟨b, rest, rfl, List.forall_mem_cons.mp hds⟩

theorem IsDigits.length_pos {ds : Bytes} (h : IsDigits ds) : 0 < ds.length :=
  List.length_pos_iff.mpr h.1

/-- The parts of a number token without its sign. -/
theorem IsUnsigned.exists_cons {token : Bytes} (h : IsUnsigned token) :
    ∃ b ds fraction exponent, isDigit b = true ∧ (∀ c ∈ ds, isDigit c = true) ∧
      (b = byte '0' → ds = []) ∧ IsFraction fraction ∧ IsExponent exponent ∧
      token = b :: (ds ++ (fraction ++ exponent)) := by
  obtain ⟨whole, fraction, exponent, ⟨hdigits, hzero⟩, hfraction, hexponent, rfl⟩ := h
  obtain ⟨b, ds, rfl, hb, hds⟩ := hdigits.exists_cons
  refine ⟨b, ds, fraction, exponent, hb, hds, fun hb0 => ?_, hfraction, hexponent, rfl⟩
  exact List.length_eq_zero_iff.mp (Nat.succ.inj (hzero (congrArg some hb0)))

theorem isUnsigned_cons {b : UInt8} {ds : Bytes} (hb : isDigit b = true)
    (hds : ∀ c ∈ ds, isDigit c = true) (hzero : b = byte '0' → ds = [])
    (hfraction : IsFraction fraction) (hexponent : IsExponent exponent) :
    IsUnsigned (b :: (ds ++ (fraction ++ exponent))) := by
  refine ⟨b :: ds, fraction, exponent, ⟨⟨List.cons_ne_nil _ _, List.forall_mem_cons.mpr ⟨hb, hds⟩⟩,
    fun hhead => ?_⟩, hfraction, hexponent, rfl⟩
  rw [hzero (Option.some.inj hhead)]
  rfl

/-- A zero comes first only if it is the only digit. -/
theorem not_leadingZero {b : UInt8} {ds : Bytes} (hzero : b = byte '0' → ds = [])
    (ht : NoDigit text) : ¬ (b = byte '0' ∧ 0 < countDigits (ds ++ text)) := by
  intro hlead
  obtain ⟨hb, hcount⟩ := hlead
  rw [hzero hb, List.nil_append, countDigits_of_noDigit ht] at hcount
  exact Nat.lt_irrefl 0 hcount

/-! ### Skipping -/

/-- The text after the digits of an exponent, which has to have some. -/
def skipPower (text : Bytes) : Except Error Bytes :=
  if countDigits text = 0 then .error .malformed else .ok (dropDigits text)

theorem skipPower_of_isDigits {ds : Bytes} (hds : IsDigits ds) (ht : Stops text) :
    skipPower (ds ++ text) = .ok text := by
  rw [skipPower, countDigits_digits hds.2 ht.noDigit, dropDigits_digits hds.2 ht.noDigit,
    if_neg (Nat.ne_of_gt hds.length_pos)]

theorem isDigits_of_countDigits {ds : Bytes} (hds : ∀ b ∈ ds, isDigit b = true)
    (hlength : ds.length = countDigits text) (hcount : ¬ countDigits text = 0) : IsDigits ds := by
  refine ⟨fun hnil => hcount ?_, hds⟩
  rw [← hlength, hnil]
  rfl

theorem isDigits_of_skipPower {rest : Bytes} (h : skipPower text = .ok rest) :
    ∃ ds, IsDigits ds ∧ text = ds ++ rest := by
  rw [skipPower] at h
  split at h
  · cases h
  · next hcount =>
    obtain rfl := Except.ok.inj h
    obtain ⟨ds, hds, hlength, htext⟩ := exists_digits text
    exact ⟨ds, isDigits_of_countDigits hds hlength hcount, htext⟩

theorem skipExponent_of_isExponent (h : IsExponent exponent) (ht : Stops text) :
    skipNumber.skipExponent (exponent ++ text) = .ok text := by
  cases h with
  | none => rw [List.nil_append, skipNumber.skipExponent, ht.startsExponent_eq_false]; rfl
  | @some e sign ds he hsign hds =>
    have hstarts : startsExponent (e :: (sign ++ ds) ++ text) = true := by
      rcases he with rfl | rfl <;> rfl
    have hdigits := skipPower_of_isDigits hds ht
    rw [skipNumber.skipExponent, hstarts, if_pos rfl, List.cons_append, List.drop_one,
      List.tail_cons]
    rcases hsign with rfl | rfl | rfl
    · -- Without a sign the first byte is a digit.
      obtain ⟨b, rest, rfl, hb, -⟩ := hds.exists_cons
      rw [List.nil_append]
      split
      · next heq => exact absurd ((List.cons.inj heq).1 ▸ hb) (by decide)
      · next heq => exact absurd ((List.cons.inj heq).1 ▸ hb) (by decide)
      · exact hdigits
    · exact hdigits
    · exact hdigits

/-- A number token is skipped. -/
theorem skipNumber_of_isUnsigned {token : Bytes} (h : IsUnsigned token) (ht : Stops text) :
    skipNumber (token ++ text) = .ok text := by
  obtain ⟨b, ds, fraction, exponent, hb, hds, hzero, hfraction, hexponent, rfl⟩ := h.exists_cons
  have hnodigit := hfraction.noDigit hexponent ht
  rw [List.cons_append, List.append_assoc, List.append_assoc, skipNumber, hb, if_neg nofun,
    if_neg (not_leadingZero hzero hnodigit), dropDigits_digits hds hnodigit]
  cases hfraction with
  | none =>
    split
    · next heq => exact absurd heq (hexponent.head?_ne_point ht _)
    · exact skipExponent_of_isExponent hexponent ht
  | @some fs hfs =>
    have hexp := hexponent.noDigit ht
    have hskip : (if countDigits (fs ++ (exponent ++ text)) = 0 then Except.error Error.malformed
        else skipNumber.skipExponent (dropDigits (fs ++ (exponent ++ text)))) = .ok text := by
      rw [countDigits_digits hfs.2 hexp, dropDigits_digits hfs.2 hexp,
        if_neg (Nat.ne_of_gt hfs.length_pos)]
      exact skipExponent_of_isExponent hexponent ht
    exact hskip

theorem isExponent_of_skipExponent {rest : Bytes} (h : skipNumber.skipExponent text = .ok rest) :
    ∃ exponent, IsExponent exponent ∧ text = exponent ++ rest := by
  have hdigits : ∀ {e : UInt8} {text : Bytes} (sign : Bytes),
      startsExponent (e :: (sign ++ text)) = true → sign = [] ∨ sign = [plus] ∨ sign = [minus] →
      skipPower text = .ok rest →
      ∃ exponent, IsExponent exponent ∧ e :: (sign ++ text) = exponent ++ rest := by
    intro e text sign hstarts hsign h
    obtain ⟨ds, hds, rfl⟩ := isDigits_of_skipPower h
    rw [startsExponent, Bool.or_eq_true, beq_iff_eq, beq_iff_eq] at hstarts
    refine ⟨e :: (sign ++ ds), .some hstarts hsign hds, ?_⟩
    rw [List.cons_append, List.append_assoc]
  rw [skipNumber.skipExponent] at h
  split at h
  · next hstarts =>
    cases text with
    | nil => cases hstarts
    | cons e text =>
      rw [List.drop_one, List.tail_cons] at h
      split at h
      · exact hdigits [plus] hstarts (.inr (.inl rfl)) h
      · exact hdigits [minus] hstarts (.inr (.inr rfl)) h
      · exact hdigits [] hstarts (.inl rfl) h
  · obtain rfl := Except.ok.inj h
    exact ⟨[], .none, rfl⟩

/-- Only number tokens are skipped. -/
theorem isUnsigned_of_skipNumber {rest : Bytes} (h : skipNumber text = .ok rest) :
    ∃ token, IsUnsigned token ∧ text = token ++ rest := by
  cases text with
  | nil => cases h
  | cons b text =>
    rw [skipNumber] at h
    split at h
    · cases h
    · next hb =>
      split at h
      · cases h
      · next hlead =>
        obtain ⟨ds, hds, hlength, htext⟩ := exists_digits text
        have hb : isDigit b = true := by simpa using hb
        have hzero : b = byte '0' → ds = [] := fun hb0 => by
          rw [not_and, ← hlength] at hlead
          exact List.length_eq_zero_iff.mp (Nat.eq_zero_of_not_pos (hlead hb0))
        split at h
        · next fractional hpoint =>
          split at h
          · cases h
          · next hcount =>
            obtain ⟨fs, hfs, hfslength, hfstext⟩ := exists_digits fractional
            obtain ⟨exponent, hexponent, hrest⟩ := isExponent_of_skipExponent h
            refine ⟨_, isUnsigned_cons hb hds hzero
              (.some (isDigits_of_countDigits hfs hfslength hcount)) hexponent, ?_⟩
            rw [htext, hpoint, hfstext, hrest]
            simp only [List.cons_append, List.append_assoc]
            rfl
        · obtain ⟨exponent, hexponent, hrest⟩ := isExponent_of_skipExponent h
          refine ⟨_, isUnsigned_cons hb hds hzero .none hexponent, ?_⟩
          rw [htext, hrest]
          simp only [List.cons_append, List.append_assoc, List.nil_append]

/-! ### Reading -/

/-- What is read off the token, or why nothing is, does not hang on what follows it. -/
def ReadsOff (f : Bytes → Except Error (α × Bytes)) (token : Bytes) : Prop :=
  ∃ o : Except Error α, ∀ text, Stops text → f (token ++ text) = o.map (·, text)

theorem ReadsOff.map {f : Bytes → Except Error (α × Bytes)} {token : Bytes} (h : ReadsOff f token)
    (g : α → β) : ReadsOff (fun text => do let (a, rest) ← f text; return (g a, rest)) token := by
  obtain ⟨o, ho⟩ := h
  refine ⟨o.map g, fun text ht => ?_⟩
  dsimp only
  rw [ho text ht]
  cases o <;> rfl

theorem readsOff_readExponentDigits {ds : Bytes} (hds : IsDigits ds) (positive : Bool)
    (significand : Nat) (scale : Int) (upward : Bool) :
    ReadsOff (readExponentDigits positive significand scale upward) ds := by
  obtain ⟨b, rest, rfl, hb, hrest⟩ := hds.exists_cons
  let power := Nat.ofDigitChars 10 ((b :: rest).map fun b => Char.ofNat b.toNat) 0
  refine ⟨if exponentLimit ≤ power then
      if significand ≠ 0 ∧ upward = true then .error .malformed
      else .ok (if positive then 0 else -0)
    else makeFloat positive significand (if upward then scale + power else scale - power),
    fun text ht => ?_⟩
  have htake : (b :: (rest ++ text)).takeWhile isDigit = b :: rest :=
    takeWhile_digits hds.2 ht.noDigit
  rw [List.cons_append, readExponentDigits, htake, dropDigits_digits hrest ht.noDigit, hb,
    if_neg nofun]
  dsimp only
  split
  · split <;> rfl
  · cases makeFloat positive significand _ <;> rfl

theorem readsOff_readScaled (h : IsExponent exponent) (positive : Bool) (significand : Nat)
    (scale : Int) : ReadsOff (readScaled positive significand scale) exponent := by
  cases h with
  | none =>
    refine ⟨makeFloat positive significand scale, fun text ht => ?_⟩
    rw [List.nil_append, readScaled, ht.startsExponent_eq_false]
    cases makeFloat positive significand scale <;> rfl
  | @some e sign ds he hsign hds =>
    have hstarts : ∀ text, readScaled positive significand scale (e :: (sign ++ ds) ++ text)
        = readExponent positive significand scale (sign ++ ds ++ text) := by
      rcases he with rfl | rfl <;> exact fun _ => rfl
    rcases hsign with rfl | rfl | rfl
    · obtain ⟨o, ho⟩ := readsOff_readExponentDigits hds positive significand scale true
      refine ⟨o, fun text ht => (hstarts text).trans (Eq.trans ?_ (ho text ht))⟩
      -- Without a sign the first byte is a digit.
      obtain ⟨b, rest, rfl, hb, -⟩ := hds.exists_cons
      rw [List.nil_append, List.cons_append]
      unfold readExponent
      split
      · next heq => exact absurd ((List.cons.inj heq).1 ▸ hb) (by decide)
      · next heq => exact absurd ((List.cons.inj heq).1 ▸ hb) (by decide)
      · rfl
    · obtain ⟨o, ho⟩ := readsOff_readExponentDigits hds positive significand scale true
      exact ⟨o, fun text ht => (hstarts text).trans (ho text ht)⟩
    · obtain ⟨o, ho⟩ := readsOff_readExponentDigits hds positive significand scale false
      exact ⟨o, fun text ht => (hstarts text).trans (ho text ht)⟩

theorem readsOff_readFraction {fs : Bytes} (hfs : IsDigits fs) (hexponent : IsExponent exponent)
    (positive : Bool) (significand : Nat) (scale : Int) :
    ReadsOff (readFraction positive significand scale) (fs ++ exponent) := by
  obtain ⟨value, count, left, hleft, htake⟩ := exists_takeDigits hfs.2 significand 0
  obtain ⟨o, ho⟩ := readsOff_readScaled hexponent positive value (scale - count)
  refine ⟨o, fun text ht => ?_⟩
  have hnodigit := hexponent.noDigit ht
  rw [List.append_assoc, readFraction, countDigits_digits hfs.2 hnodigit,
    if_neg (Nat.ne_of_gt hfs.length_pos), htake _ hnodigit]
  simp only [dropDigits_digits hleft hnodigit]
  exact ho text ht

theorem IsExponent.startsExponent_eq (h : IsExponent exponent) (ht : Stops text) :
    startsExponent (exponent ++ text) = !exponent.isEmpty := by
  cases h with
  | none => exact ht.startsExponent_eq_false
  | some he => rcases he with rfl | rfl <;> rfl

theorem readsOff_readNumber {token : Bytes} (h : IsUnsigned token) (positive : Bool) :
    ReadsOff (readNumber positive) token := by
  obtain ⟨b, ds, fraction, exponent, hb, hds, hzero, hfraction, hexponent, rfl⟩ := h.exists_cons
  obtain ⟨value, count, left, hleft, htake⟩ := exists_takeDigits hds (digitValue b) 0
  -- Up to its digits a number is read in the same way whatever follows them.
  cases hfraction with
  | some hfs =>
    obtain ⟨o, ho⟩ := (readsOff_readFraction hfs hexponent positive value left.length).map
      Number.float
    refine ⟨o, fun text ht => ?_⟩
    have hnodigit := (IsFraction.some hfs).noDigit hexponent ht
    rw [List.cons_append, List.append_assoc, List.append_assoc, readNumber, hb, if_neg nofun,
      if_neg (not_leadingZero hzero hnodigit), htake _ hnodigit]
    simp only [countDigits_digits hleft hnodigit, dropDigits_digits hleft hnodigit]
    rw [← ho text ht, List.append_assoc]
    rfl
  | none =>
    obtain ⟨o, ho⟩ := (readsOff_readScaled hexponent positive value left.length).map Number.float
    refine ⟨if left.length = 0 ∧ exponent.isEmpty = true then
        .ok ((integer? positive value).getD (.float (-(Float.ofNat value))))
      else o, fun text ht => ?_⟩
    have hnodigit := hexponent.noDigit ht
    rw [List.cons_append, List.append_assoc, List.nil_append, readNumber, hb, if_neg nofun,
      if_neg (not_leadingZero hzero hnodigit), htake _ hnodigit]
    simp only [countDigits_digits hleft hnodigit, dropDigits_digits hleft hnodigit]
    split
    · next heq => exact absurd heq (hexponent.head?_ne_point ht _)
    · simp only [hexponent.startsExponent_eq ht, Bool.not_eq_eq_eq_not, Bool.not_false]
      split
      · next hinteger =>
        rw [List.isEmpty_iff.mp hinteger.2]
        cases integer? positive value <;> rfl
      · exact ho text ht

theorem exists_of_bind_ok {x : Except ε α} {f : α → Except ε β} {b : β} (h : x >>= f = .ok b) :
    ∃ a, x = .ok a ∧ f a = .ok b := by
  cases x with
  | error e => cases h
  | ok a => exact ⟨a, rfl, h⟩

section skipping

variable {positive : Bool} {significand : Nat} {scale : Int} {x : Float} {rest : Bytes}

theorem skipPower_of_readExponentDigits {upward : Bool}
    (h : readExponentDigits positive significand scale upward text = .ok (x, rest)) :
    skipPower text = .ok rest := by
  unfold readExponentDigits at h
  split at h
  · cases h
  · next b more =>
    split at h
    · cases h
    · next hb =>
      have hb : isDigit b = true := by simpa using hb
      have hcount : ¬ countDigits (b :: more) = 0 := by
        rw [countDigits, List.takeWhile_cons_of_pos hb]
        exact Nat.succ_ne_zero _
      rw [skipPower, if_neg hcount, dropDigits, List.dropWhile_cons_of_pos hb]
      -- Whatever the exponent is, the digits are dropped.
      dsimp only at h
      split at h
      · split at h
        · cases h
        · rw [← (Prod.mk.inj (Except.ok.inj h)).2]
          rfl
      · obtain ⟨y, -, hy⟩ := exists_of_bind_ok h
        rw [← (Prod.mk.inj (Except.ok.inj hy)).2]
        rfl

theorem skipExponent_of_readScaled
    (h : readScaled positive significand scale text = .ok (x, rest)) :
    skipNumber.skipExponent text = .ok rest := by
  unfold readScaled at h
  rw [skipNumber.skipExponent]
  split at h
  · next hstarts =>
    rw [if_pos hstarts]
    unfold readExponent at h
    split at h
    · next heq =>
      rw [heq]
      exact skipPower_of_readExponentDigits h
    · next heq =>
      rw [heq]
      exact skipPower_of_readExponentDigits h
    · next hplus hminus =>
      split
      · next heq => exact absurd heq (hplus _)
      · next heq => exact absurd heq (hminus _)
      · exact skipPower_of_readExponentDigits h
  · next hstarts =>
    rw [if_neg hstarts]
    obtain ⟨y, -, hy⟩ := exists_of_bind_ok h
    rw [← (Prod.mk.inj (Except.ok.inj hy)).2]

end skipping

/-- A number that is read is skipped as well. -/
theorem skipNumber_of_readNumber {positive : Bool} {n : Number} {rest : Bytes}
    (h : readNumber positive text = .ok (n, rest)) : skipNumber text = .ok rest := by
  cases text with
  | nil => cases h
  | cons b text =>
    rw [readNumber] at h
    rw [skipNumber]
    split at h
    · cases h
    · next hb =>
      rw [if_neg hb]
      split at h
      · cases h
      · next hlead =>
        rw [if_neg hlead]
        have hdrop := dropDigits_takeDigits (digitValue b) 0 text
        generalize takeDigits (digitValue b) 0 text = taken at h hdrop
        obtain ⟨value, count, left⟩ := taken
        dsimp only at h hdrop
        rw [hdrop] at h
        split at h
        · next fractional heq =>
          obtain ⟨⟨x, more⟩, hread, hx⟩ := exists_of_bind_ok h
          obtain ⟨-, rfl⟩ := Prod.mk.inj (Except.ok.inj hx)
          unfold readFraction at hread
          split at hread
          · cases hread
          · next hcount =>
            have hskip := skipExponent_of_readScaled hread
            rw [dropDigits_takeDigits] at hskip
            exact (if_neg hcount).trans hskip
        · split at h
          · next hinteger =>
            rw [skipNumber.skipExponent, hinteger.2]
            split at h
            all_goals exact congrArg Except.ok (Prod.mk.inj (Except.ok.inj h)).2
          · obtain ⟨⟨x, more⟩, hread, hx⟩ := exists_of_bind_ok h
            obtain ⟨-, rfl⟩ := Prod.mk.inj (Except.ok.inj hx)
            exact skipExponent_of_readScaled hread

end tokens

/-! ### Natural numbers as they are written -/

theorem toNat_byte_of_isDigit {c : Char} (h : c.isDigit = true) :
    (byte c).toNat = c.toNat ∧ 48 ≤ c.toNat ∧ c.toNat ≤ 57 := by
  obtain ⟨hlow, hhigh⟩ := Char.isDigit_iff_toNat.mp h
  have hlow' : 48 ≤ c.toNat := hlow
  have hhigh' : c.toNat ≤ 57 := hhigh
  refine ⟨?_, hlow', hhigh'⟩
  rw [byte, UInt8.toNat_ofNat']
  exact Nat.mod_eq_of_lt (by omega)

/-- The byte of a decimal digit. -/
theorem isDigit_byte {c : Char} (h : c.isDigit = true) :
    isDigit (byte c) = true ∧ digitValue (byte c) = c.toNat - '0'.toNat := by
  obtain ⟨hbyte, hlow, hhigh⟩ := toNat_byte_of_isDigit h
  constructor
  · rw [isDigit, Bool.and_eq_true, decide_eq_true_iff, decide_eq_true_iff,
      UInt8.le_iff_toNat_le, UInt8.le_iff_toNat_le, hbyte]
    exact ⟨hlow, hhigh⟩
  · rw [digitValue, hbyte]
    rfl

theorem le_ofDigitChars (cs : List Char) (init : Nat) : init ≤ Nat.ofDigitChars 10 cs init := by
  induction cs generalizing init with
  | nil => simp
  | cons c cs ih =>
    rw [Nat.ofDigitChars_cons]
    have := ih (10 * init + (c.toNat - '0'.toNat))
    omega

/-- The digits of a number below the limit are all taken. -/
theorem takeDigits_ascii {cs : List Char} (hcs : ∀ c ∈ cs, c.isDigit = true) {text : Bytes}
    (ht : NoDigit text) (init taken : Nat) (hlimit : Nat.ofDigitChars 10 cs init < UInt64.size) :
    takeDigits init taken (ascii cs ++ text)
      = (Nat.ofDigitChars 10 cs init, taken + cs.length, text) := by
  induction cs generalizing init taken with
  | nil =>
    simp only [ascii, List.map_nil, List.nil_append, Nat.ofDigitChars_nil, List.length_nil,
      Nat.add_zero]
    cases text with
    | nil => rfl
    | cons b text => simp [takeDigits, ht b rfl]
  | cons c cs ih =>
    obtain ⟨hdigit, hvalue⟩ := isDigit_byte (hcs c List.mem_cons_self)
    rw [Nat.ofDigitChars_cons] at hlimit ⊢
    -- The value only grows, so it is below the limit after every digit.
    have hfit := Nat.lt_of_le_of_lt (le_ofDigitChars cs _) hlimit
    have hstep := ih (fun d hd => hcs d (List.mem_cons_of_mem _ hd))
      (10 * init + (c.toNat - '0'.toNat)) (taken + 1) hlimit
    simp only [ascii, List.map_cons, List.cons_append, takeDigits, hdigit, hvalue, hfit,
      Bool.true_and, decide_true, if_true] at hstep ⊢
    rw [hstep, List.length_cons]
    congr 2
    omega

/-- A numeral starts with a digit, and with zero only if that is all of it. -/
theorem toDigits_eq_cons (n : Nat) :
    ∃ c cs, Nat.toDigits 10 n = c :: cs ∧ (∀ d ∈ c :: cs, d.isDigit = true) ∧
      (c = '0' → cs = []) := by
  have hdigits : ∀ d ∈ Nat.toDigits 10 n, d.isDigit = true := fun d hd =>
    Nat.isDigit_of_mem_toDigits (by decide) (by decide) hd
  induction n using Nat.strongRecOn with
  | _ n ih =>
    by_cases hn : n < 10
    · refine ⟨n.digitChar, [], Nat.toDigits_of_lt_base hn, ?_, fun _ => rfl⟩
      rwa [Nat.toDigits_of_lt_base hn] at hdigits
    · have hsplit : Nat.toDigits 10 n = Nat.toDigits 10 (n / 10) ++ [(n % 10).digitChar] :=
        Nat.toDigits_of_base_le (by decide) (by omega)
      obtain ⟨c, cs, hcs, -, hzero⟩ := ih (n / 10) (by omega) fun d hd =>
        Nat.isDigit_of_mem_toDigits (by decide) (by decide) hd
      refine ⟨c, cs ++ [(n % 10).digitChar], by rw [hsplit, hcs, List.cons_append], ?_, ?_⟩
      · rwa [hsplit, hcs, List.cons_append] at hdigits
      · -- A leading zero would make the upper digits the number zero.
        intro hc
        have hval : Nat.ofDigitChars 10 (Nat.toDigits 10 (n / 10)) 0 = n / 10 :=
          Nat.ofDigitChars_ten_toDigits
        rw [hcs, hc, hzero hc] at hval
        have hzero' : n / 10 = 0 := hval.symm
        omega

/-- A written number starts with a digit and has no leading zero. -/
theorem renderNatural_eq_cons (n : Nat) :
    ∃ c cs, renderNatural n = byte c :: ascii cs ∧ (∀ d ∈ c :: cs, d.isDigit = true) ∧
      Nat.ofDigitChars 10 cs (c.toNat - '0'.toNat) = n ∧ (byte c = byte '0' → cs = []) := by
  obtain ⟨c, cs, hcs, hdigits, hzero⟩ := toDigits_eq_cons n
  have hvalue : Nat.ofDigitChars 10 (c :: cs) 0 = n := by
    rw [← hcs, Nat.ofDigitChars_ten_toDigits]
  rw [Nat.ofDigitChars_cons, Nat.mul_zero, Nat.zero_add] at hvalue
  refine ⟨c, cs, by rw [renderNatural, hcs]; rfl, hdigits, hvalue, fun hb => hzero ?_⟩
  have hnat := congrArg UInt8.toNat hb
  rw [(toNat_byte_of_isDigit (hdigits c List.mem_cons_self)).1] at hnat
  exact Char.toNat_inj.mp hnat

/-- A written natural number is a number token. -/
theorem isUnsigned_renderNatural (n : Nat) : IsUnsigned (renderNatural n) := by
  obtain ⟨c, cs, hcs, hdigits, -, hzero⟩ := renderNatural_eq_cons n
  have hrest : ∀ b ∈ ascii cs, isDigit b = true := fun b hb => by
    obtain ⟨d, hd, rfl⟩ := List.mem_map.mp hb
    exact (isDigit_byte (hdigits d (List.mem_cons_of_mem _ hd))).1
  have htoken := isUnsigned_cons (isDigit_byte (hdigits c List.mem_cons_self)).1 hrest
    (fun hb => by rw [hzero hb]; rfl) .none .none
  rwa [List.append_nil, List.append_nil, ← hcs] at htoken

/-- A written natural number below the limit is read back. -/
theorem readNumber_renderNatural {n : Nat} (hn : n < UInt64.size) {text : Bytes} (ht : Stops text) :
    readNumber true (renderNatural n ++ text) = .ok (.natural n, text) := by
  obtain ⟨c, cs, hcs, hdigits, hvalue, hzero⟩ := renderNatural_eq_cons n
  obtain ⟨hc, hcv⟩ := isDigit_byte (hdigits c List.mem_cons_self)
  have hrest : ∀ d ∈ cs, d.isDigit = true := fun d hd => hdigits d (List.mem_cons_of_mem _ hd)
  have htake := takeDigits_ascii hrest ht.noDigit (c.toNat - '0'.toNat) 0 (by rw [hvalue]; exact hn)
  have hlead : ¬ (byte c = byte '0' ∧ 0 < countDigits (ascii cs ++ text)) := by
    rintro ⟨hb, hcount⟩
    rw [hzero hb] at hcount
    exact Nat.lt_irrefl 0 ((countDigits_of_noDigit ht.noDigit).symm ▸ hcount)
  rw [hcs, List.cons_append, readNumber, if_neg (by simp [hc]), if_neg hlead, hcv, htake, hvalue]
  simp only [dropDigits_of_noDigit ht.noDigit, countDigits_of_noDigit ht.noDigit]
  -- Neither a fraction nor an exponent follows, so the number is a natural one.
  split
  · exact absurd rfl (ht _ rfl).2.1
  · rw [if_pos ⟨trivial, ht.startsExponent_eq_false⟩]
    rfl

end LoginRegistry.Json
