import LoginRegistry.Proofs.Json.Record

/-! # Other texts for a written value

    A written value has a tree (`Value.tree`), and its compact text is one of the texts of this
    tree.  `Reshapes` relates the value to the trees that say the same to a reader that knows only
    some member names: members may stand in any order, members of other names may be added to any
    object, whatever their values are, and strings may be written with other escapes.
-/

namespace LoginRegistry.Json

open Ascii

/-! ### The tree of a value -/

mutual

/-- The tokens of a value as the compact writer writes them. -/
def Value.tree : Value → Tree
  | .null => .null
  | .boolean value => .boolean value
  | .natural n => .number (renderNatural n)
  | .string s => .string (renderString s)
  | .array elements => .array (elementTrees elements)
  | .object members => .object (memberTrees members)

/-- The trees of the elements of an array. -/
def elementTrees : List Value → List Tree
  | [] => []
  | v :: vs => v.tree :: elementTrees vs

/-- The trees of the members of an object, with the tokens of their names. -/
def memberTrees : List (String × Value) → List (Bytes × Tree)
  | [] => []
  | (name, v) :: ms => (renderString name, v.tree) :: memberTrees ms

end

mutual

/-- The compact text of a value is the tokens of its tree without blanks. -/
theorem render_eq_flatten : (v : Value) → v.render = v.tree.tokens.flatten
  | .null => rfl
  | .boolean true => rfl
  | .boolean false => rfl
  | .natural n => (List.flatten_singleton).symm
  | .string s => (List.flatten_singleton).symm
  | .array elements => by
    simp [Value.render, Value.tree, Tree.tokens, renderElements_eq_flatten]
  | .object members => by
    simp [Value.render, Value.tree, Tree.tokens, renderMembers_eq_flatten]

theorem renderElements_eq_flatten (first : Bool) : (vs : List Value) →
    renderElements first vs = (separated first (elementTokens (elementTrees vs))).flatten
  | [] => rfl
  | v :: vs => by
    cases first <;>
      simp [renderElements, elementTrees, elementTokens, separated, render_eq_flatten v,
        renderElements_eq_flatten false vs]

theorem renderMembers_eq_flatten (first : Bool) : (ms : List (String × Value)) →
    renderMembers first ms = (separated first (memberTokens (memberTrees ms))).flatten
  | [] => rfl
  | (name, v) :: ms => by
    cases first <;>
      simp [renderMembers, memberTrees, memberTokens, separated, render_eq_flatten v,
        renderMembers_eq_flatten false ms]

end

/-- The compact text of a value is a text of its tree. -/
theorem hasText_render (v : Value) : v.tree.HasText v.render := by
  rw [render_eq_flatten]
  exact v.tree.hasText_flatten

/-! ### Reshaping -/

/-- A member of another name, with any well-formed value. -/
def IsForeign (known : List String) (m : Bytes × Tree) : Prop :=
  (∃ name, Quotes name m.1 ∧ name ∉ known) ∧ m.2.Valid

theorem IsForeign.valid {known : List String} {m : Bytes × Tree} (h : IsForeign known m) :
    IsString m.1 ∧ m.2.Valid := by
  obtain ⟨⟨_, hname, -⟩, hvalue⟩ := h
  exact ⟨hname.isString, hvalue⟩

/-- A member of another name as the writer writes it. -/
theorem isForeign_renderString {known : List String} {name : String} {t : Tree}
    (hname : name ∉ known) (ht : t.Valid) : IsForeign known (renderString name, t) :=
  ⟨⟨name, quotes_renderString name, hname⟩, ht⟩

mutual

/-- The tree is the value, up to the order of members, members of names that are not known, and
    escapes.  The lists hold the known names of the outermost objects, of those inside these, and
    so on. -/
inductive Reshapes : List (List String) → Value → Tree → Prop where
  | null {levels : List (List String)} : Reshapes levels .null .null
  | boolean {levels : List (List String)} (value : Bool) :
    Reshapes levels (.boolean value) (.boolean value)
  | natural {levels : List (List String)} (n : Nat) :
    Reshapes levels (.natural n) (.number (renderNatural n))
  | string {levels : List (List String)} {s : String} {token : Bytes} : Quotes s token →
    Reshapes levels (.string s) (.string token)
  | array {levels : List (List String)} {vs : List Value} {ts : List Tree} :
    ElementsReshape levels vs ts → Reshapes levels (.array vs) (.array ts)
  | object {levels : List (List String)} {ms : List (String × Value)}
    {kept extra all : List (Bytes × Tree)} : MembersReshape levels.tail ms kept →
    (∀ m ∈ extra, IsForeign (levels.headD []) m) → all.Perm (kept ++ extra) →
    Reshapes levels (.object ms) (.object all)

/-- Elements, one by one. -/
inductive ElementsReshape : List (List String) → List Value → List Tree → Prop where
  | nil {levels : List (List String)} : ElementsReshape levels [] []
  | cons {levels : List (List String)} {v : Value} {t : Tree} {vs : List Value} {ts : List Tree} :
    Reshapes levels v t → ElementsReshape levels vs ts → ElementsReshape levels (v :: vs) (t :: ts)

/-- Members, one by one. -/
inductive MembersReshape : List (List String) → List (String × Value) → List (Bytes × Tree) →
    Prop where
  | nil {levels : List (List String)} : MembersReshape levels [] []
  | cons {levels : List (List String)} {name : String} {token : Bytes} {v : Value} {t : Tree}
    {ms : List (String × Value)} {kept : List (Bytes × Tree)} : Quotes name token →
    Reshapes levels v t → MembersReshape levels ms kept →
    MembersReshape levels ((name, v) :: ms) ((token, t) :: kept)

end

mutual

/-- The tree of a value itself. -/
theorem reshapes_tree (levels : List (List String)) : (v : Value) → Reshapes levels v v.tree
  | .null => .null
  | .boolean value => .boolean value
  | .natural n => .natural n
  | .string s => .string (quotes_renderString s)
  | .array elements => .array (elementsReshape_trees levels elements)
  | .object members => .object (membersReshape_trees levels.tail members)
      (fun _ hm => absurd hm List.not_mem_nil) (.of_eq (List.append_nil _).symm)

theorem elementsReshape_trees (levels : List (List String)) : (vs : List Value) →
    ElementsReshape levels vs (elementTrees vs)
  | [] => .nil
  | v :: vs => .cons (reshapes_tree levels v) (elementsReshape_trees levels vs)

theorem membersReshape_trees (levels : List (List String)) : (ms : List (String × Value)) →
    MembersReshape levels ms (memberTrees ms)
  | [] => .nil
  | (name, v) :: ms =>
    .cons (quotes_renderString name) (reshapes_tree levels v) (membersReshape_trees levels ms)

end

mutual

/-- Reshaping leaves a value well formed. -/
theorem Reshapes.valid : {levels : List (List String)} → {v : Value} → {t : Tree} →
    Reshapes levels v t → t.Valid
  | _, _, _, .null => .null
  | _, _, _, .boolean value => .boolean value
  | _, _, _, .natural n => .number (.positive (isUnsigned_renderNatural n))
  | _, _, _, .string hs => .string hs.isString
  | _, _, _, .array h => .array h.valid
  | _, _, .object all, .object h hextra hperm => by
    have hall : ∀ m ∈ all, IsString m.1 ∧ m.2.Valid := fun m hm =>
      (List.mem_append.mp (hperm.mem_iff.mp hm)).elim (h.valid m) fun hm => (hextra m hm).valid
    exact .object (fun m hm => (hall m hm).1) fun m hm => (hall m hm).2

theorem ElementsReshape.valid : {levels : List (List String)} → {vs : List Value} →
    {ts : List Tree} → ElementsReshape levels vs ts → ∀ t ∈ ts, t.Valid
  | _, _, _, .nil => nofun
  | _, _, _, .cons h hrest => List.forall_mem_cons.mpr ⟨h.valid, hrest.valid⟩

theorem MembersReshape.valid : {levels : List (List String)} → {ms : List (String × Value)} →
    {kept : List (Bytes × Tree)} → MembersReshape levels ms kept →
    ∀ m ∈ kept, IsString m.1 ∧ m.2.Valid
  | _, _, _, .nil => nofun
  | _, _, _, .cons hname h hrest =>
    List.forall_mem_cons.mpr ⟨⟨hname.isString, h.valid⟩, hrest.valid⟩

end

/-- The members that are left stand for those of the value, one by one. -/
theorem MembersReshape.forall₂ {levels : List (List String)} {ms : List (String × Value)}
    {kept : List (Bytes × Tree)} (h : MembersReshape levels ms kept) :
    List.Forall₂ (fun m m' => Quotes m.1 m'.1 ∧ Reshapes levels m.2 m'.2) ms kept := by
  induction ms generalizing kept with
  | nil =>
    cases h
    exact .nil
  | cons m ms ih =>
    cases h with
    | cons hname hvalue hrest => exact .cons ⟨hname, hvalue⟩ (ih hrest)

/-! ### Reading -/

namespace Reader

variable {levels : List (List String)}

theorem on_boolean_of_reshapes {b : Bool} {t : Tree} (h : Reshapes levels (.boolean b) t) :
    boolean.on t = .ok b := by
  cases h
  exact (yields_boolean b).on_eq

theorem on_uint8_of_reshapes {n : UInt8} {t : Tree} (h : Reshapes levels (.natural n.toNat) t) :
    uint8.on t = .ok n := by
  cases h
  exact on_uint8 n

theorem on_uint16_of_reshapes {n : UInt16} {t : Tree} (h : Reshapes levels (.natural n.toNat) t) :
    uint16.on t = .ok n := by
  cases h
  exact on_uint16 n

theorem on_uint32_of_reshapes {n : UInt32} {t : Tree} (h : Reshapes levels (.natural n.toNat) t) :
    uint32.on t = .ok n := by
  cases h
  exact on_uint32 n

theorem on_uint64_of_reshapes {n : UInt64} {t : Tree} (h : Reshapes levels (.natural n.toNat) t) :
    uint64.on t = .ok n := by
  cases h
  exact on_uint64 n

theorem on_size_of_reshapes {n : UInt64} {t : Tree} (h : Reshapes levels (.natural n.toNat) t) :
    size.on t = .ok n := by
  cases h
  exact on_size n

theorem on_string_of_reshapes {s : String} {t : Tree} (h : Reshapes levels (.string s) t) :
    string.on t = .ok s := by
  cases h with
  | string hs => exact on_string_of_quotes hs

/-- A value that is written, and not as `null`, is read as present. -/
theorem on_optional_of_reshapes {r : Reader α} (hr : r.Local) {v : Value} {t : Tree} {a : α}
    (h : Reshapes levels v t) (hnull : v ≠ .null) (hread : r.on t = .ok a) :
    (optional r).on t = .ok (some a) := by
  have htree : t ≠ .null := by
    rintro rfl
    cases h
    exact hnull rfl
  rw [(yields_optional h.valid htree (hr t h.valid)).on_eq, hread]
  rfl

theorem on_optionalString_of_reshapes {s : String} {t : Tree} (h : Reshapes levels (.string s) t) :
    (optional string).on t = .ok (some s) :=
  on_optional_of_reshapes local_string h nofun (on_string_of_reshapes h)

/-- An array is read if its elements are. -/
theorem on_list_of_reshapes {r : Reader α} (hr : r.Local) {write : α → Value} {as : List α}
    {t : Tree} (h : Reshapes levels (.array (as.map write)) t)
    (hread : ∀ a ∈ as, ∀ t, Reshapes levels (write a) t → r.on t = .ok a) :
    (list r).on t = .ok as := by
  cases h with
  | @array _ _ ts h =>
    rw [(yields_list hr h.valid).on_eq]
    induction as generalizing ts with
    | nil =>
      cases h
      rfl
    | cons a as ih =>
      obtain ⟨ha, has⟩ := List.forall_mem_cons.mp hread
      cases h with
      | cons h hrest => rw [List.mapM_cons, ha _ h, ih has hrest]; rfl

end Reader

namespace Record

variable {r : Record σ} {levels : List (List String)}

section members

variable {ι : Type} {name : ι → String} {P : ι → Tree → Prop} {items : List ι}
  {kept extra all : List (Bytes × Tree)}

theorem exists_of_mem_members
    (h : List.Forall₂ (fun i m => Quotes (name i) m.1 ∧ P i m.2) items kept) {m : Bytes × Tree}
    (hm : m ∈ kept) : ∃ i ∈ items, Quotes (name i) m.1 ∧ P i m.2 := by
  induction h with
  | nil => cases hm
  | @cons i m' items kept hfirst hrest ih =>
    rcases List.mem_cons.mp hm with rfl | hm
    · exact ⟨i, List.mem_cons_self, hfirst⟩
    · obtain ⟨j, hj, h⟩ := ih hm
      exact ⟨j, List.mem_cons_of_mem _ hj, h⟩

/-- The fields among the members are those among their names. -/
theorem filterMap_fieldName?
    (h : List.Forall₂ (fun i m => Quotes (name i) m.1 ∧ P i m.2) items kept) :
    kept.filterMap r.fieldName?
      = (items.map name).filter fun s => (r.fields.find? (·.name == s)).isSome := by
  induction h with
  | nil => rfl
  | @cons i m items kept hfirst hrest ih =>
    rw [List.filterMap_cons, fieldName?_eq hfirst.1, ih, List.map_cons, List.filter_cons]
    cases (r.fields.find? (·.name == name i)).isSome <;> rfl

/-- An object is read as the draft that its members end in, whatever their order is and whatever
    members that are no fields stand among them. -/
theorem on_object_of_fills {upTo : List String → σ} (hr : ∀ f ∈ r.fields, f.read.Local)
    (hstart : upTo [] = r.start) (hvalid : (Tree.object all).Valid)
    (hperm : all.Perm (kept ++ extra))
    (hkept : List.Forall₂ (fun i m => Quotes (name i) m.1 ∧ P i m.2) items kept)
    (hfills : ∀ i ∈ items, ∀ t, P i t → r.Fills upTo (name i) t)
    (hextra : ∀ m ∈ extra, ∃ s, Quotes s m.1 ∧ r.fields.find? (·.name == s) = none)
    (hnodup : (items.map name).Nodup)
    (hrequired : ∀ f ∈ r.fields, f.required = true → f.name ∈ items.map name) :
    ∃ seen, (Reader.record r).on (.object all) = .ok (upTo seen) ∧
      ∀ s ∈ r.fields.map (·.name), s ∈ seen ↔ s ∈ items.map name := by
  -- The fields among the members are those of the items, in some order.
  have hnone : extra.filterMap r.fieldName? = [] := List.filterMap_eq_nil_iff.mpr fun m hm => by
    obtain ⟨s, hname, hfind⟩ := hextra m hm
    rw [fieldName?_eq hname, hfind]
    rfl
  have hnames := hperm.filterMap r.fieldName?
  rw [List.filterMap_append, hnone, List.append_nil, filterMap_fieldName? hkept] at hnames
  have hfold := foldlM_take upTo (fun m (hm : m ∈ all) => by
      obtain hm | hm := List.mem_append.mp (hperm.mem_iff.mp hm)
      · obtain ⟨i, hi, hname, hvalue⟩ := exists_of_mem_members hkept hm
        exact ⟨name i, hname, hfills i hi m.2 hvalue⟩
      · obtain ⟨s, hname, hfind⟩ := hextra m hm
        exact ⟨s, hname, .inl hfind⟩)
    (hnames.nodup_iff.mpr (hnodup.filter _)) [] (fun _ _ => List.not_mem_nil)
  rw [List.append_nil, hstart] at hfold
  have hseen : ∀ s ∈ r.fields.map (·.name),
      s ∈ (all.filterMap r.fieldName?).reverse ↔ s ∈ items.map name := by
    intro s hfield
    obtain ⟨f, hf, rfl⟩ := List.mem_map.mp hfield
    have hfind : (r.fields.find? (·.name == f.name)).isSome :=
      List.find?_isSome.mpr ⟨f, hf, beq_self_eq_true _⟩
    rw [List.mem_reverse, hnames.mem_iff, List.mem_filter]
    exact and_iff_left hfind
  refine ⟨_, ?_, hseen⟩
  cases hvalid with
  | object hquoted hvalues =>
    rw [(Reader.yields_record_object hr hquoted hvalues).on_eq, hfold]
    refine finish_eq fun f hf hdue => ?_
    exact (hseen f.name (List.mem_map_of_mem hf)).mpr (hrequired f hf hdue)

end members

/-- Once it is reshaped the member is no field, or it is read and fills in what the family of
    drafts lacks. -/
def FilledBy (r : Record σ) (upTo : List String → σ) (levels : List (List String))
    (m : String × Value) : Prop :=
  ∀ t, Reshapes levels m.2 t → r.Fills upTo m.1 t

theorem Fills.of_read {upTo : List String → σ} {name : String} {t : Tree} {read : Reader α}
    {f : α → σ → σ} {required : Bool} {a : α}
    (hfind : r.fields.find? (·.name == name) = some ⟨name, f <$> read, required⟩)
    (hread : read.on t = .ok a) (hstep : ∀ seen, f a (upTo seen) = upTo (name :: seen)) :
    r.Fills upTo name t :=
  .inr ⟨_, f a, hfind, by rw [Reader.on_map, hread]; rfl, hstep⟩

theorem FilledBy.of_read {upTo : List String → σ} {name : String} {v : Value} {read : Reader α}
    {f : α → σ → σ} {required : Bool} {a : α}
    (hfind : r.fields.find? (·.name == name) = some ⟨name, f <$> read, required⟩)
    (hread : ∀ t, Reshapes levels v t → read.on t = .ok a)
    (hstep : ∀ seen, f a (upTo seen) = upTo (name :: seen)) : r.FilledBy upTo levels (name, v) :=
  fun t ht => .of_read hfind (hread t ht) hstep

/-- A member of a name that is not known is no field. -/
theorem exists_of_isForeign {known : List String} (hknown : ∀ f ∈ r.fields, f.name ∈ known)
    {m : Bytes × Tree} (hm : IsForeign known m) :
    ∃ s, Quotes s m.1 ∧ r.fields.find? (·.name == s) = none := by
  obtain ⟨⟨s, hname, hnot⟩, -⟩ := hm
  refine ⟨s, hname, List.find?_eq_none.mpr fun f hf heq => hnot ?_⟩
  exact eq_of_beq heq ▸ hknown f hf

/-- An object is read as the draft that the members of the value end in, whatever their order
    is and whatever members of other names it has. -/
theorem on_object_of_reshapes {known : List String} {upTo : List String → σ}
    {ms : List (String × Value)} {t : Tree} (hr : ∀ f ∈ r.fields, f.read.Local)
    (hknown : ∀ f ∈ r.fields, f.name ∈ known) (hstart : upTo [] = r.start)
    (h : Reshapes (known :: levels) (.object ms) t)
    (hms : ∀ m ∈ ms, r.FilledBy upTo levels m) (hnodup : (ms.map Prod.fst).Nodup)
    (hrequired : ∀ f ∈ r.fields, f.required = true → f.name ∈ ms.map Prod.fst) :
    ∃ seen, (Reader.record r).on t = .ok (upTo seen) ∧
      ∀ s ∈ r.fields.map (·.name), s ∈ seen ↔ s ∈ ms.map Prod.fst := by
  have hvalid := h.valid
  cases h with
  | object hkept hextra hperm =>
    exact on_object_of_fills hr hstart hvalid hperm hkept.forall₂ hms
      (fun m hm => exists_of_isForeign hknown (hextra m hm)) hnodup hrequired

end Record

end LoginRegistry.Json
