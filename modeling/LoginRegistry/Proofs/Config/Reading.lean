import LoginRegistry.Proofs.Config.Validating
import LoginRegistry.Proofs.Json.Reshaping

/-! # Reading a configuration

    A configuration is read from any text in which some sections and fields are left out and all
    that is there may stand in any order, with members of other names among it.  What is left out
    has its default.

    * `Record.Describes`: a record whose fields all have defaults, with the members that are
      written for it.  `Describes.on_of_reshapes` reads it off whatever is left of these members.
    * `on_of_tells`: the same for the sections of a configuration.
    * `decode_fills_defaults`: reading, and which configurations a registry is made of.
-/

namespace LoginRegistry

open Json (Value Tree Record Reader Reshapes IsForeign Quotes)
open Json.Reader

/-! ### Records with defaults -/

/-- The fields of a record all have defaults, and it is written as the members: what the members
    of some names fill in is the value with only these fields kept. -/
structure Json.Record.Describes {σ : Type} (r : Record σ) (ms : List (String × Value))
    (keeping : List String → σ) : Prop where
  reads : ∀ f ∈ r.fields, f.read.Local
  optional : ∀ f ∈ r.fields, f.required = false
  names : ms.map Prod.fst = r.fields.map (·.name)
  nodup : (ms.map Prod.fst).Nodup
  start : keeping [] = r.start
  filled : ∀ m ∈ ms, r.FilledBy keeping [] m
  congr : ∀ seen kept, (∀ name ∈ ms.map Prod.fst, name ∈ seen ↔ name ∈ kept) →
    keeping seen = keeping kept

/-- Whatever members are left, the record is read with the other fields at their defaults. -/
theorem Json.Record.Describes.on_of_reshapes {σ : Type} {r : Record σ} {ms : List (String × Value)}
    {keeping : List String → σ} (h : r.Describes ms keeping) {kept : List String} {t : Tree}
    (ht : Reshapes [ms.map Prod.fst] (.object (ms.filter (·.1 ∈ kept))) t) :
    (record r).on t = .ok (keeping kept) := by
  have hnames : (ms.filter (·.1 ∈ kept)).map Prod.fst = (ms.map Prod.fst).filter (· ∈ kept) := by
    rw [List.filter_map]
    rfl
  obtain ⟨seen, hread, hseen⟩ := Record.on_object_of_reshapes h.reads
    (fun f hf => h.names ▸ List.mem_map_of_mem hf) h.start ht
    (fun m hm => h.filled m (List.mem_of_mem_filter hm)) (hnames ▸ h.nodup.filter _)
    (fun f hf hrequired => by rw [h.optional f hf] at hrequired; cases hrequired)
  -- What was seen is what is kept, up to names that are kept but are no fields.
  rw [hread, h.congr seen kept fun name hname => ?_]
  rw [hseen name (h.names ▸ hname), hnames, List.mem_filter, decide_eq_true_eq]
  exact and_iff_right hname

/-! ### Sections -/

/-- The table names of the fields that are kept, and the default names of the others. -/
def TableNames.keeping (t : TableNames) (kept : List String) : TableNames :=
  let d : TableNames := {}
  { accounts := if "accounts" ∈ kept then t.accounts else d.accounts
    logins := if "logins" ∈ kept then t.logins else d.logins
    misc := if "misc" ∈ kept then t.misc else d.misc
    tombstones := if "tombstones" ∈ kept then t.tombstones else d.tombstones
    retries := if "retries" ∈ kept then t.retries else d.retries }

/-- The bulk settings of the fields that are kept, and the defaults of the others. -/
def BulkSettings.keeping (s : BulkSettings) (kept : List String) : BulkSettings :=
  let d : BulkSettings := {}
  { maxAttempts := if "max_attempts" ∈ kept then s.maxAttempts else d.maxAttempts
    maxBatchSize := if "max_batch_size" ∈ kept then s.maxBatchSize else d.maxBatchSize }

/-- The migration settings of the fields that are kept, and the defaults of the others. -/
def MigrationSettings.keeping (s : MigrationSettings) (kept : List String) : MigrationSettings :=
  let d : MigrationSettings := {}
  { defaultWorkers := if "default_worker_count" ∈ kept then s.defaultWorkers else d.defaultWorkers
    maxWorkers := if "max_worker_count" ∈ kept then s.maxWorkers else d.maxWorkers
    redriveBatchSize :=
      if "redrive_batch_size" ∈ kept then s.redriveBatchSize else d.redriveBatchSize
    reconcilePageSize :=
      if "reconcile_page_size" ∈ kept then s.reconcilePageSize else d.reconcilePageSize }

namespace Config

theorem describes_tables (t : TableNames) : tableRecord.Describes (tableMembers t) t.keeping where
  reads := by
    simp only [tableRecord, List.forall_mem_cons, List.not_mem_nil, false_imp_iff, implies_true,
      and_true]
    exact ⟨local_string.map _, local_string.map _, local_string.map _, local_string.map _,
      local_string.map _⟩
  optional := by simp [tableRecord]
  names := rfl
  nodup := (by decide : (tableRecord.fields.map (·.name)).Nodup)
  start := rfl
  filled := by
    simp only [tableMembers, List.forall_mem_cons, List.not_mem_nil, false_imp_iff, implies_true,
      and_true]
    refine ⟨?_, ?_, ?_, ?_, ?_⟩ <;>
      exact .of_read rfl (fun _ => on_string_of_reshapes) fun _ => by simp [TableNames.keeping]
  congr seen kept h := by
    simp only [tableMembers, List.map_cons, List.forall_mem_cons] at h
    simp only [TableNames.keeping, h]

theorem describes_bulk (s : BulkSettings) : bulkRecord.Describes (bulkMembers s) s.keeping where
  reads := by
    simp only [bulkRecord, List.forall_mem_cons, List.not_mem_nil, false_imp_iff, implies_true,
      and_true]
    exact ⟨local_uint32.map _, local_size.map _⟩
  optional := by simp [bulkRecord]
  names := rfl
  nodup := (by decide : (bulkRecord.fields.map (·.name)).Nodup)
  start := rfl
  filled := by
    simp only [bulkMembers, List.forall_mem_cons, List.not_mem_nil, false_imp_iff, implies_true,
      and_true]
    constructor
    · exact .of_read rfl (fun _ => on_uint32_of_reshapes) fun _ => by simp [BulkSettings.keeping]
    · exact .of_read rfl (fun _ => on_size_of_reshapes) fun _ => by simp [BulkSettings.keeping]
  congr seen kept h := by
    simp only [bulkMembers, List.map_cons, List.forall_mem_cons] at h
    simp only [BulkSettings.keeping, h]

theorem describes_migration (s : MigrationSettings) :
    migrationRecord.Describes (migrationMembers s) s.keeping where
  reads := by
    simp only [migrationRecord, List.forall_mem_cons, List.not_mem_nil, false_imp_iff,
      implies_true, and_true]
    exact ⟨local_size.map _, local_size.map _, local_size.map _, local_size.map _⟩
  optional := by simp [migrationRecord]
  names := rfl
  nodup := (by decide : (migrationRecord.fields.map (·.name)).Nodup)
  start := rfl
  filled := by
    simp only [migrationMembers, List.forall_mem_cons, List.not_mem_nil, false_imp_iff,
      implies_true, and_true]
    refine ⟨?_, ?_, ?_, ?_⟩ <;>
      exact .of_read rfl (fun _ => on_size_of_reshapes) fun _ => by
        simp [MigrationSettings.keeping]
  congr seen kept h := by
    simp only [migrationMembers, List.map_cons, List.forall_mem_cons] at h
    simp only [MigrationSettings.keeping, h]

/-! ### Whole configurations -/

/-- What is left of the text of a configuration: for each section the names of the fields that
    are kept, or nothing if the section is left out. -/
structure Kept where
  tables : Option (List String)
  bulk : Option (List String)
  migration : Option (List String)

/-- The configuration of what is kept, with defaults for all that is left out. -/
def keeping (c : Config) (kept : Kept) : Config where
  tables := kept.tables.elim {} c.tables.keeping
  bulk := kept.bulk.elim {} c.bulk.keeping
  migration := kept.migration.elim {} c.migration.keeping

/-- A section that is kept: its name, the members that are written for it, and the names of those
    that are kept. -/
structure Section where
  name : String
  members : List (String × Value)
  kept : List String

/-- The tree is the object of a section with the members that are kept, in any order, and members
    of names that the section does not know. -/
def Section.HasTree (s : Section) (t : Tree) : Prop :=
  Reshapes [s.members.map Prod.fst] (.object (s.members.filter (·.1 ∈ s.kept))) t

/-- The sections that are kept. -/
def sections (c : Config) (kept : Kept) : List Section :=
  (kept.tables.map (Section.mk "tables" (tableMembers c.tables))).toList
    ++ (kept.bulk.map (Section.mk "batch_write" (bulkMembers c.bulk))).toList
    ++ (kept.migration.map (Section.mk "migration" (migrationMembers c.migration))).toList

/-- The names of all sections. -/
def sectionNames : List String := ["tables", "batch_write", "migration"]

/-- The tree is an object of the sections that are kept, in any order, and members of names that
    are not those of sections. -/
inductive Tells (c : Config) (kept : Kept) : Tree → Prop where
  | object {sections extra all : List (Bytes × Tree)} :
    List.Forall₂ (fun s m => Quotes s.name m.1 ∧ s.HasTree m.2) (c.sections kept) sections →
    (∀ m ∈ extra, IsForeign sectionNames m) → all.Perm (sections ++ extra) →
    Tells c kept (.object all)

/-- The configuration with only the named sections filled in. -/
def upTo (c : Config) (seen : List String) : Config where
  tables := if "tables" ∈ seen then c.tables else {}
  bulk := if "batch_write" ∈ seen then c.bulk else {}
  migration := if "migration" ∈ seen then c.migration else {}

theorem local_configRecord : ∀ f ∈ configRecord.fields, f.read.Local := by
  simp only [configRecord, List.forall_mem_cons, List.not_mem_nil, false_imp_iff, implies_true,
    and_true]
  exact ⟨(Local.record (describes_tables {}).reads).map _,
    (Local.record (describes_bulk {}).reads).map _,
    (Local.record (describes_migration {}).reads).map _⟩

section tells

variable {c : Config} {kept : Kept} {t : Tree}

/-- A section that is kept is read, and fills in the field of its name. -/
theorem fills_of_mem_sections {s : Section} (hs : s ∈ c.sections kept) (ht : s.HasTree t) :
    configRecord.Fills (c.keeping kept).upTo s.name t := by
  -- The sections go the same way, but each is read as a value of its own type.
  simp only [sections, List.mem_append, Option.mem_toList, Option.map_eq_some_iff, or_assoc] at hs
  obtain ⟨names, hkept, rfl⟩ | ⟨names, hkept, rfl⟩ | ⟨names, hkept, rfl⟩ := hs
  · exact .of_read rfl ((describes_tables c.tables).on_of_reshapes ht) fun _ => by
      simp [upTo, keeping, hkept]
  · exact .of_read rfl ((describes_bulk c.bulk).on_of_reshapes ht) fun _ => by
      simp [upTo, keeping, hkept]
  · exact .of_read rfl ((describes_migration c.migration).on_of_reshapes ht) fun _ => by
      simp [upTo, keeping, hkept]

theorem sublist_sections (c : Config) (kept : Kept) :
    ((c.sections kept).map (·.name)).Sublist sectionNames := by
  have hone : ∀ (name : String) (members : List (String × Value)) (names : Option (List String)),
      ((names.map (Section.mk name members)).toList.map (·.name)).Sublist [name] := by
    intro name members names
    cases names with
    | none => exact List.nil_sublist _
    | some _ => exact .refl _
  simp only [sections, List.map_append]
  exact ((hone "tables" _ _).append (hone "batch_write" _ _)).append (hone "migration" _ _)

/-- With the sections that are kept the configuration is complete, as the others are at their
    defaults. -/
theorem upTo_eq {seen : List String}
    (h : ∀ name ∈ sectionNames, name ∈ seen ↔ name ∈ (c.sections kept).map (·.name)) :
    (c.keeping kept).upTo seen = c.keeping kept := by
  obtain ⟨tables, bulk, migration⟩ := kept
  simp only [sectionNames, List.forall_mem_cons] at h
  cases tables <;> cases bulk <;> cases migration <;> simp [upTo, keeping, sections, h]

theorem Tells.valid (h : c.Tells kept t) : t.Valid := by
  cases h with
  | @object sections extra all hsections hextra hperm =>
    have hall : ∀ m ∈ all, Json.IsString m.1 ∧ m.2.Valid := by
      intro m hm
      obtain hm | hm := List.mem_append.mp (hperm.mem_iff.mp hm)
      · obtain ⟨s, -, hname, hvalue⟩ := Record.exists_of_mem_members hsections hm
        exact ⟨hname.isString, hvalue.valid⟩
      · exact (hextra m hm).valid
    exact .object (fun m hm => (hall m hm).1) fun m hm => (hall m hm).2

/-- A configuration is read from whatever is left of it. -/
theorem on_of_tells (h : c.Tells kept t) : (record configRecord).on t = .ok (c.keeping kept) := by
  have hvalid := h.valid
  have hnodup : sectionNames.Nodup := by decide
  cases h with
  | object hsections hextra hperm =>
    obtain ⟨seen, hread, hseen⟩ := Record.on_object_of_fills local_configRecord rfl hvalid hperm
      hsections (fun s hs t ht => fills_of_mem_sections hs ht)
      (fun m hm => Record.exists_of_isForeign (fun f hf => List.mem_map_of_mem hf) (hextra m hm))
      ((sublist_sections c kept).nodup hnodup)
      (fun f hf hrequired => by
        simp only [configRecord, List.mem_cons, List.not_mem_nil, or_false] at hf
        rcases hf with rfl | rfl | rfl <;> cases hrequired)
    rw [hread, upTo_eq hseen]

/-- A configuration is read from any text in which some of it is left out and the rest stands in
    any order with other members among it. -/
theorem decode_of_tells (h : c.Tells kept t) {text : Bytes} (htext : t.HasText text) :
    decode text = .ok (c.keeping kept) := by
  rw [decode, parse_eq_on (.record local_configRecord) h.valid htext]
  exact on_of_tells h

end tells

/-! ### Writing -/

/-- Nothing is left out. -/
def Kept.all : Kept where
  tables := some (tableRecord.fields.map (·.name))
  bulk := some (bulkRecord.fields.map (·.name))
  migration := some (migrationRecord.fields.map (·.name))

theorem keeping_all (c : Config) : c.keeping .all = c := rfl

/-- A section that is written leaves nothing out. -/
theorem Section.hasTree_tree {s : Section} (h : s.members.map Prod.fst = s.kept) :
    s.HasTree (Value.object s.members).tree := by
  have hall : s.members.filter (·.1 ∈ s.kept) = s.members :=
    List.filter_eq_self.mpr fun m hm => decide_eq_true (h ▸ List.mem_map_of_mem hm)
  rw [HasTree, hall]
  exact Json.reshapes_tree _ _

/-- The written text leaves nothing out. -/
theorem tells_tree (c : Config) : c.Tells .all (Value.object c.members).tree := by
  have hsections : List.Forall₂ (fun s m => Quotes s.name m.1 ∧ s.HasTree m.2) (c.sections .all)
      (Json.memberTrees c.members) := by
    refine .cons ⟨Json.quotes_renderString _, ?tables⟩ (.cons ⟨Json.quotes_renderString _, ?bulk⟩
      (.cons ⟨Json.quotes_renderString _, ?migration⟩ .nil))
    case tables => exact Section.hasTree_tree (describes_tables c.tables).names
    case bulk => exact Section.hasTree_tree (describes_bulk c.bulk).names
    case migration => exact Section.hasTree_tree (describes_migration c.migration).names
  exact .object hsections (List.forall_mem_nil _) (.of_eq (List.append_nil _).symm)

/-- What is written of a configuration is read back. -/
theorem decode_encode (c : Config) : decode c.encode = .ok c :=
  (decode_of_tells c.tells_tree (Json.hasText_render _)).trans (congrArg _ c.keeping_all)

/-- What is written of a configuration is read back, valid or not.  From a text in which sections
    and fields are left out, the members stand in any order and others stand among them, it is read
    with defaults for what is left out, and a registry is made of it just if it is valid. -/
theorem decode_fills_defaults {c : Config} {kept : Kept} {t : Tree} (h : c.Tells kept t)
    {text : Bytes} (htext : t.HasText text) :
    decode c.encode = .ok c ∧ decode text = .ok (c.keeping kept) ∧
      ((∃ r, Registry.ofConfig (c.keeping kept) = .ok r) ↔ (c.keeping kept).IsValid) :=
  ⟨decode_encode c, decode_of_tells h htext, Registry.exists_ofConfig_iff⟩

/-- Only two table names and the largest number of workers are left, in the order turned around,
    with members of other names in the configuration and in one section, one of them named like a
    field of another section, and with a blank in front. -/
theorem decode_fills_defaults_turned_around :
    let c : Config := { tables := { accounts := "a", misc := "", retries := "r" },
                        bulk := { maxAttempts := 0 }, migration := { maxWorkers := 8 } }
    let kept : Kept := ⟨some ["accounts", "retries"], none, some ["max_worker_count"]⟩
    let left : Config := { tables := { accounts := "a", retries := "r" },
                           migration := { maxWorkers := 8 } }
    let tables : Tree := .object [(Json.renderString "max_attempts", .null),
      (Json.renderString "retries", .string (Json.renderString "r")),
      (Json.renderString "accounts", .string (Json.renderString "a"))]
    let migration : Tree := .object [(Json.renderString "max_worker_count",
      .number (Json.renderNatural 8))]
    let t : Tree := .object [(Json.renderString "later", .array [.object []]),
      (Json.renderString "migration", migration), (Json.renderString "tables", tables)]
    c.Tells kept t ∧ t.HasText (0x20 :: t.tokens.flatten) ∧ decode c.encode = .ok c ∧
      decode (0x20 :: t.tokens.flatten) = .ok left ∧
      ((∃ r, Registry.ofConfig left = .ok r) ↔ left.IsValid) := by
  intro c kept left tables migration t
  have htables : (Section.mk "tables" (tableMembers c.tables) ["accounts", "retries"]).HasTree
      tables :=
    .object (Json.membersReshape_trees [] [("accounts", .string "a"), ("retries", .string "r")])
      (List.forall_mem_singleton.mpr (Json.isForeign_renderString (by decide) .null))
      (List.reverse_perm [_, _, _])
  have hmigration : (Section.mk "migration" (migrationMembers c.migration)
      ["max_worker_count"]).HasTree migration :=
    .object (Json.membersReshape_trees [] [("max_worker_count", .natural 8)])
      (List.forall_mem_nil _) (.refl _)
  have hlater : (Tree.array [.object []]).Valid :=
    .array (List.forall_mem_singleton.mpr (.object (List.forall_mem_nil _) (List.forall_mem_nil _)))
  have htells : c.Tells kept t :=
    .object (.cons ⟨Json.quotes_renderString _, htables⟩
      (.cons ⟨Json.quotes_renderString _, hmigration⟩ .nil))
      (List.forall_mem_singleton.mpr (Json.isForeign_renderString (by decide) hlater))
      (List.reverse_perm [_, _, _])
  have htext : t.HasText (0x20 :: t.tokens.flatten) :=
    Tree.HasText.blanks t.hasText_flatten (List.forall_mem_singleton.mpr rfl : Json.IsBlank [0x20])
  exact ⟨htells, htext, decode_fills_defaults htells htext⟩

end Config

end LoginRegistry
