import LoginRegistry.Payload
import LoginRegistry.Proofs.Json.Accepting
import LoginRegistry.Proofs.Json.Reshaping

/-! # Reading back a payload

    What is stored for an account body is read back as that body (`decode_encode`), so no write
    of the registry leaves a row that it cannot read.  The reader does not hang on how the writer
    lays the members out: the same body is read from any text whose objects have these members
    in any order, members of other names between them, and blanks between the tokens
    (`decode_of_reshapes`).
-/

namespace LoginRegistry.Payload

open Json (Value Reader Record Tree Reshapes)
open Json.Reader

/-! ### The records -/

theorem local_deviceRecord : ∀ f ∈ deviceRecord.fields, f.read.Local := by
  simp only [deviceRecord, List.forall_mem_cons, List.not_mem_nil, false_imp_iff, implies_true,
    and_true]
  exact ⟨local_uint64.map _, local_string.optional.map _, local_uint32.map _, local_uint64.map _,
    local_uint64.map _, local_string.optional.map _, local_boolean.map _⟩

theorem local_device : (record deviceRecord).Local := .record local_deviceRecord

theorem local_bodyRecord : ∀ f ∈ bodyRecord.fields, f.read.Local := by
  simp only [bodyRecord, List.forall_mem_cons, List.not_mem_nil, false_imp_iff, implies_true,
    and_true]
  exact ⟨local_device.list.map _, local_string.optional.map _, local_string.optional.map _,
    local_string.optional.map _, local_string.optional.map _, local_string.optional.map _,
    local_uint8.list.optional.map _, local_boolean.map _, local_boolean.map _⟩

theorem local_schemaRecord : ∀ f ∈ schemaRecord.fields, f.read.Local := by
  simp only [schemaRecord, List.forall_mem_cons, List.not_mem_nil, false_imp_iff, implies_true,
    and_true]
  exact local_uint16.map _

/-- What the two passes make of a tree. -/
def decodeTree (t : Tree) : Except Error AccountBody :=
  match (record schemaRecord).on t with
  | .error e => .error (.decode e)
  | .ok schema =>
    if schemaVersion < schema then .error (.unsupportedSchema schema)
    else
      match (record bodyRecord).on t with
      | .error e => .error (.decode e)
      | .ok body => .ok body

/-- Reading a payload hangs on its tree only. -/
theorem decode_eq_decodeTree {t : Tree} {text : Bytes} (ht : t.Valid) (h : t.HasText text) :
    decode text = decodeTree t := by
  rw [decode, readBody, parse_eq_on (.record local_schemaRecord) ht h,
    parse_eq_on (.record local_bodyRecord) ht h]
  rfl

/-! ### Devices -/

/-- The member names that a device knows. -/
def deviceNames : List String := deviceRecord.fields.map (·.name)

/-- The device with only the named fields filled in. -/
def deviceUpTo (d : Device) (seen : List String) : Device where
  id := if "id" ∈ seen then d.id else 0
  name := if "name" ∈ seen then d.name else none
  registrationId := if "registrationId" ∈ seen then d.registrationId else 0
  created := if "created" ∈ seen then d.created else 0
  lastSeen := if "lastSeen" ∈ seen then d.lastSeen else 0
  userAgent := if "userAgent" ∈ seen then d.userAgent else none
  enabled := if "enabled" ∈ seen then d.enabled else false

theorem forall_mem_optionalMember {P : String × Value → Prop} {name : String} {write : α → Value}
    {o : Option α} : (∀ m ∈ optionalMember name write o, P m) ↔ ∀ a, o = some a → P (name, write a) := by
  cases o <;> simp [optionalMember]

/-- Every written member fills in the field of its name. -/
theorem filledBy_deviceMembers (d : Device) :
    ∀ m ∈ deviceMembers d, deviceRecord.FilledBy (deviceUpTo d) [] m := by
  simp only [deviceMembers, List.cons_append, List.forall_mem_cons, List.forall_mem_append,
    List.not_mem_nil, false_imp_iff, implies_true, and_true, and_assoc, forall_mem_optionalMember]
  refine ⟨?_, fun s hs => ?_, ?_, ?_, ?_, fun s hs => ?_, ?_⟩
  · exact .of_read rfl (fun _ => on_uint64_of_reshapes) fun _ => by simp [deviceUpTo]
  · exact .of_read rfl (fun _ => on_optionalString_of_reshapes) fun _ => by simp [deviceUpTo, hs]
  · exact .of_read rfl (fun _ => on_uint32_of_reshapes) fun _ => by simp [deviceUpTo]
  · exact .of_read rfl (fun _ => on_uint64_of_reshapes) fun _ => by simp [deviceUpTo]
  · exact .of_read rfl (fun _ => on_uint64_of_reshapes) fun _ => by simp [deviceUpTo]
  · exact .of_read rfl (fun _ => on_optionalString_of_reshapes) fun _ => by simp [deviceUpTo, hs]
  · exact .of_read rfl (fun _ => on_boolean_of_reshapes) fun _ => by simp [deviceUpTo]

/-- What is not written is at its default. -/
theorem ite_mem_optional {name : String} {o : Option α} {seen : List String}
    (h : ∀ a, o = some a → name ∈ seen) : (if name ∈ seen then o else none) = o := by
  cases o with
  | none => exact ite_self none
  | some a => exact if_pos (h a rfl)

/-- With all that is written the device is complete. -/
theorem deviceUpTo_eq {d : Device} {seen : List String} (h : ∀ m ∈ deviceMembers d, m.1 ∈ seen) :
    deviceUpTo d seen = d := by
  simp only [deviceMembers, List.cons_append, List.forall_mem_cons, List.forall_mem_append,
    List.not_mem_nil, false_imp_iff, implies_true, and_true, and_assoc, forall_mem_optionalMember]
    at h
  obtain ⟨hid, hname, hregistration, hcreated, hlast, hagent, henabled⟩ := h
  rw [deviceUpTo, if_pos hid, ite_mem_optional hname, if_pos hregistration, if_pos hcreated,
    if_pos hlast, ite_mem_optional hagent, if_pos henabled]

theorem sublist_optionalMember (name : String) (write : α → Value) (o : Option α) :
    ((optionalMember name write o).map Prod.fst).Sublist [name] := by
  cases o with
  | none => exact List.nil_sublist _
  | some a => exact .refl _

theorem sublist_deviceMembers (d : Device) :
    ((deviceMembers d).map Prod.fst).Sublist deviceNames := by
  simp only [deviceMembers, List.map_cons, List.map_append, List.cons_append, List.map_nil,
    List.append_assoc, List.nil_append]
  refine .cons_cons _ ((sublist_optionalMember "name" .string d.name).append ?_)
  refine .cons_cons _ (.cons_cons _ (.cons_cons _ ?_))
  exact (sublist_optionalMember "userAgent" .string d.userAgent).append (.refl ["enabled"])

/-- A device is read from whatever its object is reshaped to. -/
theorem on_device_of_reshapes {d : Device} {t : Tree}
    (h : Reshapes [deviceNames] (.object (deviceMembers d)) t) :
    (record deviceRecord).on t = .ok d := by
  obtain ⟨seen, hread, hseen⟩ := Record.on_object_of_reshapes local_deviceRecord
    (fun f hf => List.mem_map_of_mem hf) rfl h (filledBy_deviceMembers d)
    ((sublist_deviceMembers d).nodup (by decide)) (fun f hf hrequired => by
      simp only [deviceRecord, List.mem_cons, List.not_mem_nil, or_false] at hf
      rcases hf with rfl | rfl | rfl | rfl | rfl | rfl | rfl
      · exact List.mem_cons_self
      all_goals cases hrequired)
  have hnames := (sublist_deviceMembers d).subset
  rw [hread, deviceUpTo_eq fun m hm =>
    (hseen m.1 (hnames (List.mem_map_of_mem hm))).mpr (List.mem_map_of_mem hm)]

/-! ### Bodies -/

/-- The member names that a payload knows. -/
def payloadNames : List String := "schema" :: bodyRecord.fields.map (·.name)

/-- The body with only the named fields filled in. -/
def bodyUpTo (b : AccountBody) (seen : List String) : AccountBody where
  devices := if "devices" ∈ seen then b.devices else []
  identityKey := if "identityKey" ∈ seen then b.identityKey else none
  profileName := if "name" ∈ seen then b.profileName else none
  avatar := if "avatar" ∈ seen then b.avatar else none
  registrationLock := if "registrationLock" ∈ seen then b.registrationLock else none
  registrationLockSalt := if "registrationLockSalt" ∈ seen then b.registrationLockSalt else none
  accessKey := if "uak" ∈ seen then b.accessKey else none
  unrestrictedAccess := if "uua" ∈ seen then b.unrestrictedAccess else false
  discoverable := if "inCds" ∈ seen then b.discoverable else true

theorem on_devices_of_reshapes {b : AccountBody} {t : Tree}
    (h : Reshapes [deviceNames] (.array (b.devices.map fun d => .object (deviceMembers d))) t) :
    (list (record deviceRecord)).on t = .ok b.devices :=
  on_list_of_reshapes local_device h fun _ _ _ => on_device_of_reshapes

theorem on_accessKey_of_reshapes {k : Bytes} {levels : List (List String)} {t : Tree}
    (h : Reshapes levels (.array (k.map fun n => .natural n.toNat)) t) :
    (optional (list uint8)).on t = .ok (some k) :=
  on_optional_of_reshapes local_uint8.list h nofun
    (on_list_of_reshapes local_uint8 h fun _ _ _ => on_uint8_of_reshapes)

/-- Every written member fills in the field of its name. -/
theorem filledBy_bodyMembers (b : AccountBody) :
    ∀ m ∈ bodyMembers b, bodyRecord.FilledBy (bodyUpTo b) [deviceNames] m := by
  simp only [bodyMembers, List.cons_append, List.forall_mem_cons, List.forall_mem_append,
    List.not_mem_nil, false_imp_iff, implies_true, and_true, and_assoc, forall_mem_optionalMember]
  refine ⟨?_, fun s hs => ?_, fun s hs => ?_, fun s hs => ?_, fun s hs => ?_, fun s hs => ?_,
    fun k hk => ?_, ?_, ?_⟩
  · exact .of_read rfl (fun _ => on_devices_of_reshapes) fun _ => by simp [bodyUpTo]
  · exact .of_read rfl (fun _ => on_optionalString_of_reshapes) fun _ => by simp [bodyUpTo, hs]
  · exact .of_read rfl (fun _ => on_optionalString_of_reshapes) fun _ => by simp [bodyUpTo, hs]
  · exact .of_read rfl (fun _ => on_optionalString_of_reshapes) fun _ => by simp [bodyUpTo, hs]
  · exact .of_read rfl (fun _ => on_optionalString_of_reshapes) fun _ => by simp [bodyUpTo, hs]
  · exact .of_read rfl (fun _ => on_optionalString_of_reshapes) fun _ => by simp [bodyUpTo, hs]
  · exact .of_read rfl (fun _ => on_accessKey_of_reshapes) fun _ => by simp [bodyUpTo, hk]
  · exact .of_read rfl (fun _ => on_boolean_of_reshapes) fun _ => by simp [bodyUpTo]
  · exact .of_read rfl (fun _ => on_boolean_of_reshapes) fun _ => by simp [bodyUpTo]

/-- With all that is written the body is complete. -/
theorem bodyUpTo_eq {b : AccountBody} {seen : List String} (h : ∀ m ∈ bodyMembers b, m.1 ∈ seen) :
    bodyUpTo b seen = b := by
  simp only [bodyMembers, List.cons_append, List.forall_mem_cons, List.forall_mem_append,
    List.not_mem_nil, false_imp_iff, implies_true, and_true, and_assoc, forall_mem_optionalMember]
    at h
  obtain ⟨hdevices, hkey, hname, havatar, hlock, hsalt, haccess, hopen, hlisted⟩ := h
  rw [bodyUpTo, if_pos hdevices, ite_mem_optional hkey, ite_mem_optional hname,
    ite_mem_optional havatar, ite_mem_optional hlock, ite_mem_optional hsalt,
    ite_mem_optional haccess, if_pos hopen, if_pos hlisted]

theorem sublist_bodyMembers (b : AccountBody) :
    ((bodyMembers b).map Prod.fst).Sublist (bodyRecord.fields.map (·.name)) := by
  simp only [bodyMembers, List.map_cons, List.map_append, List.cons_append, List.map_nil,
    List.append_assoc]
  refine .cons_cons _ ((sublist_optionalMember "identityKey" .string b.identityKey).append ?_)
  refine (sublist_optionalMember "name" .string b.profileName).append ?_
  refine (sublist_optionalMember "avatar" .string b.avatar).append ?_
  refine (sublist_optionalMember "registrationLock" .string b.registrationLock).append ?_
  refine (sublist_optionalMember "registrationLockSalt" .string b.registrationLockSalt).append ?_
  exact (sublist_optionalMember "uak" _ b.accessKey).append (.refl ["uua", "inCds"])

/-- What is left of a written payload: all of it, or all but the schema. -/
inductive Keeps (b : AccountBody) : List (String × Value) → Prop where
  | all : Keeps b (members b)
  | body : Keeps b (bodyMembers b)

section keeps

variable {b : AccountBody} {ms : List (String × Value)}

theorem Keeps.of_bodyMembers (h : Keeps b ms) {m : String × Value} (hm : m ∈ bodyMembers b) :
    m ∈ ms := by
  cases h with
  | all => exact List.mem_cons_of_mem _ hm
  | body => exact hm

theorem Keeps.nodup (h : Keeps b ms) : (ms.map Prod.fst).Nodup := by
  have hnodup : payloadNames.Nodup := by decide
  cases h with
  | all => exact ((sublist_bodyMembers b).cons_cons "schema").nodup hnodup
  | body => exact ((sublist_bodyMembers b).cons "schema").nodup hnodup

/-- The body is read from whatever its object is reshaped to. -/
theorem on_body_of_reshapes (hms : Keeps b ms) {t : Tree}
    (h : Reshapes [payloadNames, deviceNames] (.object ms) t) :
    (record bodyRecord).on t = .ok b := by
  have hfilled : ∀ m ∈ ms, bodyRecord.FilledBy (bodyUpTo b) [deviceNames] m := by
    cases hms with
    | all => exact List.forall_mem_cons.mpr ⟨fun _ _ => .inl rfl, filledBy_bodyMembers b⟩
    | body => exact filledBy_bodyMembers b
  obtain ⟨seen, hread, hseen⟩ := Record.on_object_of_reshapes local_bodyRecord
    (fun f hf => List.mem_cons_of_mem _ (List.mem_map_of_mem hf)) rfl h hfilled hms.nodup
    (fun f hf hrequired => by
      simp only [bodyRecord, List.mem_cons, List.not_mem_nil, or_false] at hf
      rcases hf with rfl | rfl | rfl | rfl | rfl | rfl | rfl | rfl | rfl <;> cases hrequired)
  have hnames := (sublist_bodyMembers b).subset
  rw [hread, bodyUpTo_eq fun m hm => (hseen m.1 (hnames (List.mem_map_of_mem hm))).mpr
    (List.mem_map_of_mem (hms.of_bodyMembers hm))]

theorem find?_schema_of_mem {m : String × Value} (hm : m ∈ bodyMembers b) :
    schemaRecord.fields.find? (·.name == m.1) = none := by
  have hname : m.1 ∈ bodyRecord.fields.map (·.name) :=
    (sublist_bodyMembers b).subset (List.mem_map_of_mem hm)
  have hne : "schema" ∉ bodyRecord.fields.map (·.name) := by decide
  refine List.find?_eq_none.mpr fun f hf heq => hne ?_
  rw [List.mem_singleton.mp hf] at heq
  exact (show "schema" = m.1 from eq_of_beq heq) ▸ hname

/-- The schema pass finds the schema that is written, with and without the member. -/
theorem on_schema_of_reshapes (hms : Keeps b ms) {t : Tree}
    (h : Reshapes [payloadNames, deviceNames] (.object ms) t) :
    (record schemaRecord).on t = .ok schemaVersion := by
  have hother : ∀ m ∈ bodyMembers b, schemaRecord.FilledBy (fun _ => schemaVersion) [deviceNames] m :=
    fun m hm _ _ => .inl (find?_schema_of_mem hm)
  have hfilled : ∀ m ∈ ms, schemaRecord.FilledBy (fun _ => schemaVersion) [deviceNames] m := by
    cases hms with
    | all =>
      exact List.forall_mem_cons.mpr
        ⟨.of_read rfl (fun _ => on_uint16_of_reshapes) fun _ => rfl, hother⟩
    | body => exact hother
  obtain ⟨seen, hread, -⟩ := Record.on_object_of_reshapes local_schemaRecord
    (fun f hf => by rw [List.mem_singleton.mp hf]; exact List.mem_cons_self) rfl h hfilled hms.nodup
    (fun f hf hrequired => by rw [List.mem_singleton.mp hf] at hrequired; cases hrequired)
  exact hread

/-! ### Whole payloads -/

theorem decodeTree_of_reshapes (hms : Keeps b ms) {t : Tree}
    (h : Reshapes [payloadNames, deviceNames] (.object ms) t) : decodeTree t = .ok b := by
  rw [decodeTree, on_schema_of_reshapes hms h, on_body_of_reshapes hms h]
  rfl

end keeps

/-- A stored account body is read back. -/
theorem decode_encode (b : AccountBody) : decode (encode b) = .ok b := by
  have h := Json.reshapes_tree [payloadNames, deviceNames] (.object (members b))
  rw [encode, decode_eq_decodeTree h.valid (Json.hasText_render _)]
  exact decodeTree_of_reshapes .all h

/-- A stored account body is read from any text in which the members of every object stand in
    some order, perhaps with members of other names among them and without the schema. -/
theorem decode_of_reshapes {b : AccountBody} {ms : List (String × Value)} (hms : Keeps b ms)
    {t : Tree} (h : Reshapes [payloadNames, deviceNames] (.object ms) t) {text : Bytes}
    (htext : t.HasText text) : decode text = .ok b := by
  rw [decode_eq_decodeTree h.valid htext]
  exact decodeTree_of_reshapes hms h

/-- A body with a device, the members of both turned around, with a member of another name in
    each, without the schema and with a blank in front. -/
theorem decode_turned_around :
    let b : AccountBody := { devices := [{ id := 7 }], profileName := some "n" }
    let device : Tree := .object ((Json.renderString "later", .null)
      :: (Json.memberTrees (deviceMembers { id := 7 })).reverse)
    let t : Tree := .object ((Json.renderString "future", .array [.object []])
      :: [(Json.renderString "devices", .array [device]),
        (Json.renderString "name", .string (Json.renderString "n")),
        (Json.renderString "uua", .boolean false),
        (Json.renderString "inCds", .boolean true)].reverse)
    Keeps b (bodyMembers b) ∧
      Reshapes [payloadNames, deviceNames] (.object (bodyMembers b)) t ∧
      t.HasText (0x20 :: t.tokens.flatten) ∧ decode (0x20 :: t.tokens.flatten) = .ok b := by
  intro b device t
  have hforeign : ∀ {known : List String} {name : String} {t : Tree}, name ∉ known → t.Valid →
      ∀ m ∈ [(Json.renderString name, t)], Json.IsForeign known m := fun hname ht =>
    List.forall_mem_singleton.mpr (Json.isForeign_renderString hname ht)
  have hturned : ∀ (m : Bytes × Tree) (ms : List (Bytes × Tree)),
      (m :: ms.reverse).Perm (ms ++ [m]) := fun m ms =>
    ((List.reverse_perm ms).cons m).trans (List.perm_append_singleton m ms).symm
  have hdevice : Reshapes [deviceNames] (.object (deviceMembers { id := 7 })) device :=
    .object (Json.membersReshape_trees [] _) (hforeign (by decide) .null) (hturned _ _)
  have hbody : Reshapes [payloadNames, deviceNames] (.object (bodyMembers b)) t := by
    refine .object (.cons (Json.quotes_renderString _) (.array (.cons hdevice .nil))
      (Json.membersReshape_trees _ [_, _, _])) (hforeign (by decide) ?_) (hturned _ _)
    exact .array (List.forall_mem_singleton.mpr (.object (List.forall_mem_nil _) (List.forall_mem_nil _)))
  have htext : t.HasText (0x20 :: t.tokens.flatten) :=
    Tree.HasText.blanks t.hasText_flatten (List.forall_mem_singleton.mpr rfl : Json.IsBlank [0x20])
  exact ⟨.body, hbody, htext, decode_of_reshapes .body hbody htext⟩

end LoginRegistry.Payload
