import LoginRegistry.Proofs.Payload

/-! # The schema and the shape of a payload

    Two passes read a payload.  The first one looks for the schema and at nothing else, so a newer
    schema is named whatever the other members are, and an older one makes no difference
    (`schema_gate`).  Each pass takes a record as an object or as an array of its fields; of the
    texts that are no objects only the empty array gets through both, and it is read as the
    body with nothing in it (`decode_ok_iff_of_not_isObject`).
-/

namespace LoginRegistry.Payload

open Json (Reader Record Tree Quotes IsObject renderNatural renderString)
open Json.Reader

/-! ### The schema member -/

/-- The members of an object around its only member that is named `schema`. -/
structure OneSchema (token : Bytes) (before after : List (Bytes × Tree)) : Prop where
  /-- The member's name. -/
  schema : Quotes "schema" token
  /-- The names of the others. -/
  others : ∀ m ∈ before ++ after, ∃ name, Quotes name m.1 ∧ name ≠ "schema"
  /-- The values of the others. -/
  valid : ∀ m ∈ before ++ after, m.2.Valid

/-- The members with the schema among them. -/
def withSchema (token : Bytes) (schema : UInt16) (before after : List (Bytes × Tree)) :
    List (Bytes × Tree) :=
  before ++ (token, .number (renderNatural schema.toNat)) :: after

theorem finish_schemaRecord (state : List String × UInt16) :
    schemaRecord.finish state = .ok state.2 :=
  Record.finish_eq fun f hf hrequired => by
    rw [List.mem_singleton.mp hf] at hrequired
    cases hrequired

section gate

variable {token : Bytes} {schema : UInt16} {before after : List (Bytes × Tree)}
  (h : OneSchema token before after)

include h

theorem OneSchema.valid_without : (Tree.object (before ++ after)).Valid :=
  .object (fun m hm => have ⟨_, hname, _⟩ := h.others m hm; hname.isString) h.valid

theorem OneSchema.valid_with : (Tree.object (withSchema token schema before after)).Valid := by
  have hmem : ∀ m ∈ withSchema token schema before after,
      m ∈ before ++ after ∨ m = (token, .number (renderNatural schema.toNat)) := by
    intro m hm
    obtain hm | hm := List.mem_append.mp hm
    · exact .inl (List.mem_append_left _ hm)
    · obtain rfl | hm := List.mem_cons.mp hm
      · exact .inr rfl
      · exact .inl (List.mem_append_right _ hm)
  refine .object (fun m hm => ?_) fun m hm => ?_
  · obtain hm | rfl := hmem m hm
    · obtain ⟨_, hname, -⟩ := h.others m hm
      exact hname.isString
    · exact h.schema.isString
  · obtain hm | rfl := hmem m hm
    · exact h.valid m hm
    · exact .number (.positive (Json.isUnsigned_renderNatural _))

/-- No other member is one that the schema pass knows. -/
theorem OneSchema.unknown : ∀ m ∈ before ++ after, ∃ name, Quotes name m.1 ∧
    schemaRecord.fields.find? (·.name == name) = none := fun m hm =>
  have ⟨name, hname, hne⟩ := h.others m hm
  ⟨name, hname, List.find?_eq_none.mpr fun f hf heq =>
    hne (by rw [List.mem_singleton.mp hf] at heq; exact (eq_of_beq heq).symm)⟩

/-- The first pass finds the schema wherever it stands. -/
theorem OneSchema.on_schema :
    (record schemaRecord).on (.object (withSchema token schema before after)) = .ok schema := by
  have hbefore := Record.foldlM_take_of_find?_eq_none fun m hm =>
    h.unknown m (List.mem_append_left _ hm)
  have hafter := Record.foldlM_take_of_find?_eq_none fun m hm =>
    h.unknown m (List.mem_append_right _ hm)
  have hread : ((fun (v : UInt16) (_ : UInt16) => v) <$> uint16).on
      (.number (renderNatural schema.toNat)) = .ok fun _ => schema := by
    rw [on_map, on_uint16]
    rfl
  have htake := Record.take_of_find?_eq_some (r := schemaRecord)
    (m := (token, .number (renderNatural schema.toNat))) h.schema rfl hread
    ([], schemaRecord.start) List.not_mem_nil
  cases (h.valid_with : (Tree.object (withSchema token schema before after)).Valid) with
  | object hnames hvalues =>
    rw [(yields_record_object local_schemaRecord hnames hvalues).on_eq, withSchema,
      List.foldlM_append, hbefore]
    change (List.foldlM _ _ _ >>= _) = _
    rw [List.foldlM_cons, htake]
    change (List.foldlM _ _ _ >>= _) = _
    rw [hafter]
    exact finish_schemaRecord _

/-- Without a schema the payload is of the first one. -/
theorem OneSchema.on_schema_without :
    (record schemaRecord).on (.object (before ++ after)) = .ok schemaVersion := by
  cases h.valid_without with
  | object hnames hvalues =>
    rw [(yields_record_object local_schemaRecord hnames hvalues).on_eq,
      Record.foldlM_take_of_find?_eq_none h.unknown]
    exact finish_schemaRecord _

/-- The second pass does not see the schema. -/
theorem OneSchema.on_body :
    (record bodyRecord).on (.object (withSchema token schema before after))
      = (record bodyRecord).on (.object (before ++ after)) := by
  have htake : ∀ state, bodyRecord.take state (token, .number (renderNatural schema.toNat))
      = .ok state := Record.take_of_find?_eq_none h.schema rfl
  have hfold : (withSchema token schema before after).foldlM bodyRecord.take ([], bodyRecord.start)
      = (before ++ after).foldlM bodyRecord.take ([], bodyRecord.start) := by
    rw [withSchema, List.foldlM_append, List.foldlM_append]
    refine congrArg _ (funext fun state => ?_)
    rw [List.foldlM_cons, htake]
    rfl
  cases (h.valid_with : (Tree.object (withSchema token schema before after)).Valid) with
  | object hnames hvalues =>
    cases h.valid_without with
    | object hnames' hvalues' =>
      rw [(yields_record_object local_bodyRecord hnames hvalues).on_eq,
        (yields_record_object local_bodyRecord hnames' hvalues').on_eq, hfold]

/-- A newer schema is named, wherever it stands and whatever the other members are; an older one
    makes no difference. -/
theorem schema_gate {text : Bytes}
    (htext : (Tree.object (withSchema token schema before after)).HasText text) :
    (1 < schema → decode text = .error (.unsupportedSchema schema)) ∧
    (schema ≤ 1 → ∀ text', (Tree.object (before ++ after)).HasText text' →
      decode text = decode text') := by
  rw [decode_eq_decodeTree h.valid_with htext, decodeTree, h.on_schema]
  constructor
  · intro hnewer
    exact if_pos hnewer
  · intro holder text' htext'
    rw [decode_eq_decodeTree h.valid_without htext', decodeTree, h.on_schema_without, h.on_body]
    exact (if_neg (UInt16.not_lt.mpr holder)).trans (if_neg (by decide)).symm

end gate

/-- Devices that cannot be read, before and after the schema: a newer schema is named all the same,
    and with an older one the refusal is that of the devices. -/
theorem schema_gate_bad_devices :
    let before : List (Bytes × Tree) := [(renderString "devices", .boolean true)]
    let after : List (Bytes × Tree) := [(renderString "devices", .null)]
    let text := fun schema =>
      (Tree.object (withSchema (renderString "schema") schema before after)).tokens.flatten
    decode (text 9) = .error (.unsupportedSchema 9) ∧
      decode (text 0) = decode (Tree.object (before ++ after)).tokens.flatten := by
  intro before after text
  have h : OneSchema (renderString "schema") before after :=
    { schema := Json.quotes_renderString _
      others := List.forall_mem_cons.mpr ⟨⟨"devices", Json.quotes_renderString _, by decide⟩,
        List.forall_mem_singleton.mpr ⟨"devices", Json.quotes_renderString _, by decide⟩⟩
      valid := List.forall_mem_cons.mpr ⟨.boolean true, List.forall_mem_singleton.mpr .null⟩ }
  exact ⟨(schema_gate h (Tree.hasText_flatten _)).1 (by decide),
    (schema_gate h (Tree.hasText_flatten _)).2 (by decide) _ (Tree.hasText_flatten _)⟩

/-! ### Texts that are no objects -/

theorem sound_schema : (record schemaRecord).Sound :=
  .record fun f hf => by
    rw [List.mem_singleton.mp hf]
    exact sound_uint16.map

/-- A text starts with the first byte of its value. -/
theorem exists_starts_of_hasText {t : Tree} {text : Bytes} (ht : t.Valid) (h : t.HasText text) :
    ∃ b, t.starts b = true ∧ (Json.skipSpace text).head? = some b := by
  obtain ⟨rest, hspells, -⟩ := h
  obtain ⟨b, tail, more, htokens, hb⟩ := ht.exists_starts
  rw [htokens] at hspells
  obtain ⟨after, htext, -⟩ := hspells.skipSpace_eq (Json.isSpace_of_starts hb)
  exact ⟨b, hb, by rw [htext]; rfl⟩

/-- An array is no object. -/
theorem not_isObject_of_array {ts : List Tree} {text : Bytes} (ht : (Tree.array ts).Valid)
    (h : (Tree.array ts).HasText text) : ¬ IsObject text := by
  intro hisObject
  obtain ⟨ms, hms, hobject⟩ := hisObject
  obtain ⟨b, hb, hhead⟩ := exists_starts_of_hasText ht h
  obtain ⟨c, hc, hhead'⟩ := exists_starts_of_hasText hms hobject
  obtain rfl := Option.some.inj (hhead.symm.trans hhead')
  exact absurd ((eq_of_beq hb).symm.trans (eq_of_beq hc)) (by decide)

/-- A body comes out of both passes. -/
theorem ok_of_decodeTree {t : Tree} {b : AccountBody} (h : decodeTree t = .ok b) :
    (∃ schema, (record schemaRecord).on t = .ok schema) ∧ (record bodyRecord).on t = .ok b := by
  rw [decodeTree] at h
  split at h
  · cases h
  · next schema hschema =>
    split at h
    · cases h
    · split at h
      · cases h
      · next body hbody =>
        obtain rfl := Except.ok.inj h
        exact ⟨⟨schema, hschema⟩, hbody⟩

/-- The empty array gets through both passes. -/
theorem decodeTree_empty : decodeTree (.array []) = .ok {} := by
  have hnone : ∀ t ∈ ([] : List Tree), t.Valid := List.forall_mem_nil _
  rw [decodeTree, (yields_record_array local_schemaRecord hnone).on_eq,
    (yields_record_array local_bodyRecord hnone).on_eq]
  rfl

/-- Of the arrays no other one does: the first field is a number to the first pass and a list of
    devices to the second. -/
theorem eq_nil_of_decodeTree {ts : List Tree} {b : AccountBody} (ht : (Tree.array ts).Valid)
    (h : decodeTree (.array ts) = .ok b) : ts = [] := by
  obtain ⟨⟨schema, hschema⟩, hbody⟩ := ok_of_decodeTree h
  cases ht with
  | array hts =>
    rw [(yields_record_array local_schemaRecord hts).on_eq] at hschema
    rw [(yields_record_array local_bodyRecord hts).on_eq] at hbody
    cases ts with
    | nil => rfl
    | cons t ts =>
      obtain ⟨ht, -⟩ := List.forall_mem_cons.mp hts
      obtain ⟨_, hnumber, -⟩ := Json.exists_of_bind_ok hschema
      obtain ⟨_, hlist, -⟩ := Json.exists_of_bind_ok hbody
      -- No value is both, so one of the two passes refuses the first element.
      by_cases harray : ∃ ts, t = .array ts
      · obtain ⟨ts, rfl⟩ := harray
        obtain ⟨e, he⟩ : uint16.Refuses (.array ts) := refuses_uint16 ht nofun
        have hread := (on_map uint16 _ _).symm.trans hnumber
        rw [he.on_eq] at hread
        cases hread
      · obtain ⟨e, he⟩ := refuses_list (r := record deviceRecord) ht (not_exists.mp harray)
        have hread := (on_map (list (record deviceRecord)) _ t).symm.trans hlist
        rw [he.on_eq] at hread
        cases hread

theorem decode_empty {text : Bytes} (htext : (Tree.array []).HasText text) :
    decode text = .ok {} ∧ ¬ IsObject text := by
  have ht : (Tree.array []).Valid := .array (List.forall_mem_nil _)
  exact ⟨(decode_eq_decodeTree ht htext).trans decodeTree_empty, not_isObject_of_array ht htext⟩

/-- Only well-formed values are read. -/
theorem exists_tree_of_decode {text : Bytes} {b : AccountBody} (h : decode text = .ok b) :
    ∃ t : Tree, t.Valid ∧ t.HasText text := by
  rw [decode] at h
  cases hparse : (record schemaRecord).parse text with
  | error e =>
    rw [hparse] at h
    cases h
  | ok schema => exact sound_schema.exists_tree hparse

/-- A text that is no object is read as a body exactly if it is the empty array, and then the
    body has nothing in it. -/
theorem decode_ok_iff_of_not_isObject {text : Bytes} {b : AccountBody} :
    (decode text = .ok b ∧ ¬ IsObject text) ↔ (Tree.array []).HasText text ∧ b = {} := by
  constructor
  · intro hread
    obtain ⟨h, hobject⟩ := hread
    obtain ⟨t, ht, htext⟩ := exists_tree_of_decode h
    rw [decode_eq_decodeTree ht htext] at h
    have hrecord := (ok_of_decodeTree h).2
    by_cases harray : ∃ ts, t = .array ts
    · obtain ⟨ts, rfl⟩ := harray
      obtain rfl := eq_nil_of_decodeTree ht h
      exact ⟨htext, (Except.ok.inj (decodeTree_empty.symm.trans h)).symm⟩
    · obtain ⟨e, he⟩ := refuses_record (r := bodyRecord) ht
        (fun ms heq => hobject ⟨ms, heq ▸ ht, heq ▸ htext⟩) (not_exists.mp harray)
      rw [he.on_eq] at hrecord
      cases hrecord
  · intro hempty
    obtain ⟨htext, rfl⟩ := hempty
    exact decode_empty htext

/-- Two brackets are no object, and they are read as a body with nothing in it. -/
theorem decode_brackets : decode [Ascii.openBracket, Ascii.closeBracket] = .ok {} ∧
    ¬ IsObject [Ascii.openBracket, Ascii.closeBracket] :=
  decode_empty (Tree.hasText_flatten (.array []))

end LoginRegistry.Payload
