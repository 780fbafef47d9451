import LoginRegistry.SortedMap
import Mathlib.Data.List.Basic

/-! # More laws of sorted maps

    Four groups of laws, beyond the lookup laws that stand beside the definitions.

    * Lookup after an update, with keys told apart by `=`.
    * Removing the first keys leaves the other entries.
    * `rekey`: the entries of a map under other keys of the same order.  It
      commutes with lookup, insertion and removal, so a table of rows can be
      worked on as the typed map that it encodes.
    * `after`: resuming after a key drops exactly the entries up to that key. -/

namespace LoginRegistry.SortedMap

variable {κ : Type u} {ν : Type v} [Ord κ]

@[simp] theorem toList_empty : (empty : SortedMap κ ν).toList = [] := rfl

section lawful

variable [Std.TransOrd κ] [Std.LawfulEqOrd κ]

/-! ### Lookup -/

theorem mem_keys_iff (m : SortedMap κ ν) (k : κ) : k ∈ m.keys ↔ (m.get? k).isSome := by
  constructor
  · intro h
    obtain ⟨e, he, rfl⟩ := List.mem_map.mp h
    rw [(m.get?_eq_some_iff e.1 e.2).mpr he]
    rfl
  · intro h
    obtain ⟨v, hv⟩ := Option.isSome_iff_exists.mp h
    exact List.mem_map.mpr ⟨(k, v), (m.get?_eq_some_iff k v).mp hv, rfl⟩

theorem get?_insert_eq [DecidableEq κ] (m : SortedMap κ ν) (k j : κ) (v : ν) :
    (m.insert k v).get? j = if j = k then some v else m.get? j := by
  simp [Std.LawfulEqCmp.compare_eq_iff_eq]

theorem get?_insert_ne (m : SortedMap κ ν) {k j : κ} (h : j ≠ k) (v : ν) :
    (m.insert k v).get? j = m.get? j := by
  simp [Std.LawfulEqCmp.compare_eq_iff_eq, h]

theorem get?_erase_eq [DecidableEq κ] (m : SortedMap κ ν) (k j : κ) :
    (m.erase k).get? j = if j = k then none else m.get? j := by
  simp [Std.LawfulEqCmp.compare_eq_iff_eq]

theorem get?_erase_ne (m : SortedMap κ ν) {k j : κ} (h : j ≠ k) :
    (m.erase k).get? j = m.get? j := by
  simp [Std.LawfulEqCmp.compare_eq_iff_eq, h]

theorem get?_foldl_erase [DecidableEq κ] (ks : List κ) (m : SortedMap κ ν) (j : κ) :
    (ks.foldl erase m).get? j = if j ∈ ks then none else m.get? j := by
  induction ks generalizing m with
  | nil => rfl
  | cons k ks ih =>
    rw [List.foldl_cons, ih, get?_erase_eq]
    by_cases hrest : j ∈ ks
    · rw [if_pos hrest, if_pos (List.mem_cons_of_mem _ hrest)]
    · simp only [hrest, if_false, List.mem_cons, or_false]

theorem get?_single [DecidableEq κ] (k j : κ) (v : ν) :
    (single k v).get? j = if j = k then some v else none := by
  have h : (single k v : SortedMap κ ν) = empty.insert k v := rfl
  rw [h, get?_insert_eq, get?_empty]

/-- Inserting what is there already changes nothing. -/
theorem insert_of_get? (m : SortedMap κ ν) {k : κ} {v : ν} (h : m.get? k = some v) :
    m.insert k v = m := by
  apply ext_get?
  intro j
  by_cases hj : j = k
  · rw [hj, get?_insert_self, h]
  · rw [get?_insert_ne m hj]

/-- The later of two insertions under a key counts. -/
theorem insert_insert (m : SortedMap κ ν) (k : κ) (v w : ν) :
    (m.insert k v).insert k w = m.insert k w := by
  apply ext_get?
  intro j
  by_cases hj : j = k
  · rw [hj, get?_insert_self, get?_insert_self]
  · rw [get?_insert_ne _ hj, get?_insert_ne m hj, get?_insert_ne m hj]

/-- Insertions under different keys commute. -/
theorem insert_comm (m : SortedMap κ ν) {k j : κ} (h : k ≠ j) (v w : ν) :
    (m.insert k v).insert j w = (m.insert j w).insert k v := by
  apply ext_get?
  intro i
  by_cases hj : i = j
  · rw [hj, get?_insert_self, get?_insert_ne _ h.symm, get?_insert_self]
  by_cases hk : i = k
  · rw [hk, get?_insert_ne _ h, get?_insert_self, get?_insert_self]
  · rw [get?_insert_ne _ hj, get?_insert_ne m hk, get?_insert_ne _ hk, get?_insert_ne m hj]

/-- Lookup in a map with the entries of another one put over it. -/
theorem get?_union (m n : SortedMap κ ν) (k : κ) :
    (m.union n).get? k = (n.get? k).or (m.get? k) := by
  have hfold : ∀ (l : List (κ × ν)) (m : SortedMap κ ν),
      l.Pairwise (fun a b => compare a.1 b.1 = .lt) →
      (l.foldl (fun m e => m.insert e.1 e.2) m).get? k
        = ((l.find? fun e => compare k e.1 == .eq).map Prod.snd).or (m.get? k) := by
    intro l
    induction l with
    | nil => exact fun m _ => rfl
    | cons e l ih =>
      intro m hl
      obtain ⟨he, hl⟩ := List.pairwise_cons.mp hl
      rw [List.foldl_cons, ih _ hl, get?_insert, List.find?_cons]
      by_cases hk : compare k e.1 = .eq
      · -- Keys increase, so the key does not occur again.
        obtain rfl := Std.LawfulEqCmp.eq_of_compare hk
        have hlater : l.find? (fun d => compare e.1 d.1 == .eq) = none :=
          List.find?_eq_none.mpr fun d hd => by simp [he d hd]
        simp [hlater]
      · have hne : (compare k e.1 == .eq) = false := by simpa using hk
        simp [hk, hne]
  exact hfold n.toList m n.sorted

/-! ### Removal from the front -/

omit [Std.LawfulEqOrd κ] in
/-- Keys occur once. -/
theorem nodup_keys (m : SortedMap κ ν) : m.keys.Nodup := by
  refine List.pairwise_map.mpr (m.sorted.imp fun {a b} hlt heq => ?_)
  rw [heq, compare_rfl] at hlt
  cases hlt

omit [Std.TransOrd κ] [Std.LawfulEqOrd κ] in
/-- A list whose image are the keys is as long as the map. -/
theorem length_of_keys {m : SortedMap κ ν} {l : List α} {f : α → κ} (h : l.map f = m.keys) :
    l.length = m.size := by
  rw [← List.length_map f, h, keys, List.length_map, size]

omit [Std.LawfulEqOrd κ] in
/-- Removing the first entry leaves the others. -/
theorem toList_erase_of_cons {m : SortedMap κ ν} {e : κ × ν} {rest : List (κ × ν)}
    (h : m.toList = e :: rest) : (m.erase e.1).toList = rest := by
  have hsorted := m.sorted
  rw [h] at hsorted
  have hlater : ∀ d ∈ rest, (compare e.1 d.1 != .eq) = true := by
    intro d hd
    rw [(List.pairwise_cons.mp hsorted).1 d hd]
    rfl
  have herase : (m.erase e.1).toList = m.toList.filter fun d => compare e.1 d.1 != .eq := rfl
  rw [herase, h, List.filter_cons_of_neg (by simp only [compare_rfl]; decide),
    List.filter_eq_self.mpr hlater]

omit [Std.LawfulEqOrd κ] in
/-- Removing the first entries leaves the others. -/
theorem toList_foldl_erase {ks : List κ} {m : SortedMap κ ν} (h : ks <+: m.keys) :
    (ks.foldl erase m).toList = m.toList.drop ks.length := by
  induction ks generalizing m with
  | nil => rfl
  | cons k ks ih =>
    obtain ⟨e, rest, hm⟩ : ∃ e rest, m.toList = e :: rest := by
      cases hm : m.toList with
      | nil =>
        rw [keys, hm] at h
        cases List.prefix_nil.mp h
      | cons e rest => exact ⟨e, rest, rfl⟩
    rw [keys, hm, List.map_cons] at h
    obtain ⟨rfl, hrest⟩ := List.cons_prefix_cons.mp h
    have herase := toList_erase_of_cons hm
    rw [List.foldl_cons, ih (by rwa [keys, herase]), herase, hm, List.length_cons,
      List.drop_succ_cons]

/-! ### Maps of lists -/

/-- What lookup finds after some insertions is one of them or was there before. -/
theorem get?_foldl_insert {l : List (κ × ν)} {m : SortedMap κ ν} {k : κ} {v : ν}
    (h : (l.foldl (fun m e => m.insert e.1 e.2) m).get? k = some v) :
    (k, v) ∈ l ∨ m.get? k = some v := by
  induction l generalizing m with
  | nil => exact .inr h
  | cons e l ih =>
    rcases ih h with hmem | hget
    · exact .inl (List.mem_cons_of_mem _ hmem)
    · by_cases hk : compare k e.1 = .eq
      · rw [get?_insert, if_pos hk] at hget
        obtain rfl := Std.LawfulEqCmp.eq_of_compare hk
        obtain rfl := Option.some.inj hget
        exact .inl List.mem_cons_self
      · rw [get?_insert, if_neg hk] at hget
        exact .inr hget

/-- A key stays found by later insertions. -/
theorem isSome_foldl_insert {l : List (κ × ν)} {m : SortedMap κ ν} {k : κ}
    (h : k ∈ l.map Prod.fst ∨ (m.get? k).isSome) :
    ((l.foldl (fun m e => m.insert e.1 e.2) m).get? k).isSome := by
  induction l generalizing m with
  | nil => exact h.resolve_left List.not_mem_nil
  | cons e l ih =>
    -- An insertion under another key keeps what is found, one under this key finds its own.
    refine ih ?_
    rcases h with hmem | hsome
    · rcases List.mem_cons.mp hmem with rfl | hmem
      · right
        rw [get?_insert_self]
        rfl
      · exact .inl hmem
    · right
      rw [get?_insert]
      split
      · rfl
      · exact hsome

theorem mem_of_get?_ofList {l : List (κ × ν)} {k : κ} {v : ν} (h : (ofList l).get? k = some v) :
    (k, v) ∈ l :=
  (get?_foldl_insert h).resolve_right (by rw [get?_empty]; exact nofun)

theorem isSome_get?_ofList {l : List (κ × ν)} {k : κ} {v : ν} (h : (k, v) ∈ l) :
    ((ofList l).get? k).isSome :=
  isSome_foldl_insert (.inl (List.mem_map_of_mem h))

end lawful

/-! ### Other values -/

/-- Lookup after every value is changed. -/
theorem get?_mapValues (f : ν → ν') (m : SortedMap κ ν) (k : κ) :
    (m.mapValues f).get? k = (m.get? k).map f := by
  simp only [get?, mapValues, List.find?_map, Option.map_map]
  rfl

/-! ### Other keys of the same order -/

section rekey

variable {κ' : Type u'} {ν' : Type v'} [Ord κ']

/-- The map with every key changed by `f`, which keeps the order, and every value by `g`. -/
def rekey (f : κ → κ') (hf : ∀ a b, compare (f a) (f b) = compare a b) (g : κ → ν → ν')
    (m : SortedMap κ ν) : SortedMap κ' ν' :=
  ⟨m.toList.map fun e => (f e.1, g e.1 e.2), by
    simpa only [List.pairwise_map, hf] using m.sorted⟩

variable (f : κ → κ') (hf : ∀ a b, compare (f a) (f b) = compare a b) (g : κ → ν → ν')

@[simp] theorem toList_rekey (m : SortedMap κ ν) :
    (m.rekey f hf g).toList = m.toList.map fun e => (f e.1, g e.1 e.2) := rfl

include hf in
theorem find?_rekey (k : κ) (l : List (κ × ν)) :
    ((l.map fun e => (f e.1, g e.1 e.2)).find? fun e => compare (f k) e.1 == .eq)
      = (l.find? fun e => compare k e.1 == .eq).map fun e => (f e.1, g e.1 e.2) := by
  rw [List.find?_map]
  congr 2
  funext e
  simp [hf]

/-- Lookup of a changed key. -/
theorem get?_rekey [Std.LawfulEqOrd κ] (m : SortedMap κ ν) (k : κ) :
    (m.rekey f hf g).get? (f k) = (m.get? k).map (g k) := by
  simp only [get?, toList_rekey, find?_rekey f hf g]
  cases h : m.toList.find? fun e => compare k e.1 == .eq with
  | none => rfl
  | some e =>
    have hk : k = e.1 := by simpa using List.find?_some h
    simp [hk]

include hf in
theorem insertEntry_map (k : κ) (v : ν) (l : List (κ × ν)) :
    insertEntry (f k) (g k v) (l.map fun e => (f e.1, g e.1 e.2))
      = (insertEntry k v l).map fun e => (f e.1, g e.1 e.2) := by
  induction l with
  | nil => rfl
  | cons e rest ih =>
    simp only [List.map_cons, insertEntry, hf]
    cases compare k e.1 with
    | lt => rfl
    | eq => rfl
    | gt => simp only [List.map_cons, ih]

theorem rekey_insert [Std.TransOrd κ] [Std.LawfulEqOrd κ] [Std.TransOrd κ'] [Std.LawfulEqOrd κ']
    (m : SortedMap κ ν) (k : κ) (v : ν) :
    (m.insert k v).rekey f hf g = (m.rekey f hf g).insert (f k) (g k v) :=
  ext_toList (insertEntry_map f hf g k v m.toList).symm

theorem rekey_erase (m : SortedMap κ ν) (k : κ) :
    (m.erase k).rekey f hf g = (m.rekey f hf g).erase (f k) := by
  apply ext_toList
  simp only [toList_rekey, erase, List.filter_map]
  congr 2
  funext e
  simp [hf]

end rekey

/-! ### Resuming after a key -/

section after

variable [Std.TransOrd κ]

/-- What comes after the last key of a first part is the other part. -/
theorem after_append {m : SortedMap κ ν} {l r : List (κ × ν)} {e : κ × ν}
    (h : m.toList = (l ++ [e]) ++ r) : m.after (some e.1) = r := by
  have hsorted := m.sorted
  rw [h] at hsorted
  obtain ⟨hle, -, hlt⟩ := List.pairwise_append.mp hsorted
  obtain ⟨-, -, hbelow⟩ := List.pairwise_append.mp hle
  have hdrop : ∀ d ∈ l ++ [e], (compare d.1 e.1 != .gt) = true := by
    intro d hd
    rcases List.mem_append.mp hd with hd | hd
    · rw [hbelow d hd e (List.mem_singleton_self e)]
      rfl
    · rw [List.mem_singleton.mp hd, compare_rfl]
      rfl
  have hkeep : ∀ d ∈ r, (compare d.1 e.1 != .gt) = false := by
    intro d hd
    have hed : compare e.1 d.1 = .lt := hlt e (by simp) d hd
    have hgt : compare d.1 e.1 = .gt := Std.OrientedCmp.gt_of_lt hed
    rw [hgt]
    rfl
  simp only [after, h]
  -- All of the first part is dropped, and the first key of the other part is kept.
  rw [List.dropWhile_append_of_pos hdrop]
  cases r with
  | nil => rfl
  | cons d r => rw [List.dropWhile_cons_of_neg (by simp [hkeep d (by simp)])]

/-- What comes after the last key of a first part, which may be empty. -/
theorem after_getLast? {m : SortedMap κ ν} {l r : List (κ × ν)} (h : m.toList = l ++ r) :
    m.after (l.getLast?.map Prod.fst) = r := by
  rcases List.eq_nil_or_concat l with rfl | ⟨l', e, rfl⟩
  · exact h
  · rw [List.concat_eq_append] at h ⊢
    rw [List.getLast?_concat, Option.map_some]
    exact after_append h

end after

end LoginRegistry.SortedMap
