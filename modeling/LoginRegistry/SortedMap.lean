/-! # Sorted maps

    A finite map kept as the list of its entries in strictly increasing key
    order.  The order makes the representation canonical: two maps with the
    same lookups are equal (`ext_get?`), so "the table is unchanged" can be
    said with `=`.

    * `get?_insert`, `get?_erase`: lookup after each update.
    * `ext_get?`: a map is determined by its lookups.
-/

namespace LoginRegistry

/-- Finite map with entries in strictly increasing key order. -/
structure SortedMap (κ : Type u) (ν : Type v) [Ord κ] where
  /-- The entries, smallest key first. -/
  toList : List (κ × ν)
  /-- Keys increase strictly, so no key occurs twice. -/
  sorted : toList.Pairwise fun a b => compare a.1 b.1 = .lt

namespace SortedMap

variable {κ : Type u} {ν : Type v} [Ord κ]

/-! ### Construction and lookup -/

/-- The map without entries. -/
def empty : SortedMap κ ν := ⟨[], .nil⟩

instance : Inhabited (SortedMap κ ν) := ⟨empty⟩

instance : EmptyCollection (SortedMap κ ν) := ⟨empty⟩

@[ext] theorem ext_toList {m n : SortedMap κ ν} (h : m.toList = n.toList) : m = n := by
  cases m; cases n; cases h; rfl

instance [DecidableEq κ] [DecidableEq ν] : DecidableEq (SortedMap κ ν) := fun m n =>
  decidable_of_iff (m.toList = n.toList) ⟨ext_toList, fun h => h ▸ rfl⟩

/-- The value stored under `k`. -/
def get? (m : SortedMap κ ν) (k : κ) : Option ν :=
  (m.toList.find? fun e => compare k e.1 == .eq).map Prod.snd

/-- Whether `k` has a value. -/
def contains (m : SortedMap κ ν) (k : κ) : Bool := (m.get? k).isSome

/-- The keys in increasing order. -/
def keys (m : SortedMap κ ν) : List κ := m.toList.map Prod.fst

/-- The values in key order. -/
def values (m : SortedMap κ ν) : List ν := m.toList.map Prod.snd

/-- The number of entries. -/
def size (m : SortedMap κ ν) : Nat := m.toList.length

/-- Whether there is no entry. -/
def isEmpty (m : SortedMap κ ν) : Bool := m.toList.isEmpty

/-! ### Updates -/

/-- Puts `(k, v)` at its place in an increasing list, over an entry of the same key. -/
def insertEntry (k : κ) (v : ν) : List (κ × ν) → List (κ × ν)
  | [] => [(k, v)]
  | e :: rest =>
    match compare k e.1 with
    | .lt => (k, v) :: e :: rest
    | .eq => (k, v) :: rest
    | .gt => e :: insertEntry k v rest

theorem mem_insertEntry {k : κ} {v : ν} {e : κ × ν} {l : List (κ × ν)}
    (h : e ∈ insertEntry k v l) : e = (k, v) ∨ e ∈ l := by
  induction l with
  | nil => simpa [insertEntry] using h
  | cons d rest ih =>
    simp only [insertEntry] at h
    split at h
    · simpa using h
    · simp only [List.mem_cons] at h ⊢
      rcases h with h | h
      · exact .inl h
      · exact .inr (.inr h)
    · simp only [List.mem_cons] at h ⊢
      rcases h with h | h
      · exact .inr (.inl h)
      · rcases ih h with h | h
        · exact .inl h
        · exact .inr (.inr h)

section lawful

variable [Std.TransOrd κ] [Std.LawfulEqOrd κ]

theorem pairwise_insertEntry {k : κ} {v : ν} {l : List (κ × ν)}
    (h : l.Pairwise fun a b => compare a.1 b.1 = .lt) :
    (insertEntry k v l).Pairwise fun a b => compare a.1 b.1 = .lt := by
  induction l with
  | nil => simp [insertEntry]
  | cons d rest ih =>
    obtain ⟨hd, hrest⟩ := List.pairwise_cons.mp h
    simp only [insertEntry]
    split
    · next hlt =>
      refine List.pairwise_cons.mpr ⟨fun b hb => ?_, h⟩
      rcases List.mem_cons.mp hb with rfl | hb
      · exact hlt
      · exact Std.TransCmp.lt_trans hlt (hd b hb)
    · next heq =>
      have hkey : k = d.1 := Std.LawfulEqCmp.eq_of_compare heq
      exact List.pairwise_cons.mpr ⟨fun b hb => by rw [hkey]; exact hd b hb, hrest⟩
    · next hgt =>
      refine List.pairwise_cons.mpr ⟨fun b hb => ?_, ih hrest⟩
      rcases mem_insertEntry hb with rfl | hb
      · exact Std.OrientedCmp.lt_of_gt hgt
      · exact hd b hb

/-- Stores `v` under `k`, in place of any value there. -/
def insert (m : SortedMap κ ν) (k : κ) (v : ν) : SortedMap κ ν :=
  ⟨insertEntry k v m.toList, pairwise_insertEntry m.sorted⟩

/-- The map of the given entries; a later entry wins over an earlier one of the same key. -/
def ofList (l : List (κ × ν)) : SortedMap κ ν :=
  l.foldl (fun m e => m.insert e.1 e.2) empty

/-- The map with the single entry `(k, v)`. -/
def single (k : κ) (v : ν) : SortedMap κ ν := ⟨[(k, v)], List.pairwise_singleton _ _⟩

/-- `m` with every entry of `n` put over it. -/
def union (m n : SortedMap κ ν) : SortedMap κ ν :=
  n.toList.foldl (fun m e => m.insert e.1 e.2) m

end lawful

/-- Removes the entry under `k`, if any. -/
def erase (m : SortedMap κ ν) (k : κ) : SortedMap κ ν :=
  ⟨m.toList.filter fun e => compare k e.1 != .eq, m.sorted.filter _⟩

/-- Keeps the entries whose value passes `p`. -/
def filterValues (p : ν → Bool) (m : SortedMap κ ν) : SortedMap κ ν :=
  ⟨m.toList.filter fun e => p e.2, m.sorted.filter _⟩

/-- Changes every value by `f`, keeping the keys. -/
def mapValues (f : ν → ν') (m : SortedMap κ ν) : SortedMap κ ν' :=
  ⟨m.toList.map fun e => (e.1, f e.2), by
    simpa only [List.pairwise_map] using m.sorted⟩

/-- The entries with a key above `k`, in key order; all of them without a bound. -/
def after (m : SortedMap κ ν) : Option κ → List (κ × ν)
  | none => m.toList
  | some k => m.toList.dropWhile fun e => compare e.1 k != .gt

/-! ### Lookup laws -/

@[simp] theorem get?_empty (k : κ) : (empty : SortedMap κ ν).get? k = none := rfl

section lawful

variable [Std.TransOrd κ] [Std.LawfulEqOrd κ]

omit [Std.LawfulEqOrd κ] in
theorem compare_rfl (k : κ) : compare k k = .eq := Std.ReflCmp.compare_self

omit [Std.TransOrd κ] in
theorem find?_insertEntry {k : κ} {v : ν} {l : List (κ × ν)} (j : κ) :
    ((insertEntry k v l).find? fun e => compare j e.1 == .eq).map Prod.snd
      = if compare j k = .eq then some v
        else (l.find? fun e => compare j e.1 == .eq).map Prod.snd := by
  induction l with
  | nil => by_cases h : compare j k = .eq <;> simp [insertEntry, h]
  | cons d rest ih =>
    simp only [insertEntry]
    split
    · by_cases h : compare j k = .eq <;> simp [h]
    · next heq =>
      have hkey : k = d.1 := Std.LawfulEqCmp.eq_of_compare heq
      subst hkey
      by_cases h : compare j d.1 = .eq <;> simp [h]
    · next hgt =>
      by_cases hd : compare j d.1 = .eq
      · have hne : compare j k ≠ .eq := by
          intro hjk
          have e1 : j = k := Std.LawfulEqCmp.eq_of_compare hjk
          subst e1
          rw [hd] at hgt
          exact absurd hgt (by decide)
        simp [hd, hne]
      · have hb : (compare j d.1 == .eq) = false := by simpa using hd
        simp only [List.find?_cons, hb]
        exact ih

/-- Lookup after an insertion. -/
@[simp] theorem get?_insert (m : SortedMap κ ν) (k j : κ) (v : ν) :
    (m.insert k v).get? j = if compare j k = .eq then some v else m.get? j :=
  find?_insertEntry j

/-- The inserted key answers the inserted value. -/
theorem get?_insert_self (m : SortedMap κ ν) (k : κ) (v : ν) :
    (m.insert k v).get? k = some v := by
  simp

/-- Lookup after a removal. -/
@[simp] theorem get?_erase (m : SortedMap κ ν) (k j : κ) :
    (m.erase k).get? j = if compare j k = .eq then none else m.get? j := by
  simp only [get?, erase, List.find?_filter]
  by_cases h : compare j k = .eq
  · have hjk : j = k := Std.LawfulEqCmp.eq_of_compare h
    subst hjk
    rw [if_pos h]
    rw [List.find?_eq_none.mpr]
    · rfl
    · intro e _
      cases compare j e.1 <;> decide
  · rw [if_neg h]
    congr 2
    funext e
    by_cases he : compare j e.1 = .eq
    · have hje : j = e.1 := Std.LawfulEqCmp.eq_of_compare he
      have hk : compare k e.1 ≠ .eq := fun hk => h (by
        have : k = e.1 := Std.LawfulEqCmp.eq_of_compare hk
        rw [hje, this]; exact compare_rfl _)
      simp [he, hk]
    · have hb : (compare j e.1 == .eq) = false := by simpa using he
      simp [hb]

/-- An entry of the list is what lookup finds under its key. -/
theorem get?_eq_some_iff (m : SortedMap κ ν) (k : κ) (v : ν) :
    m.get? k = some v ↔ (k, v) ∈ m.toList := by
  obtain ⟨l, hl⟩ := m
  simp only [get?]
  induction l with
  | nil => simp
  | cons d rest ih =>
    obtain ⟨hd, hrest⟩ := List.pairwise_cons.mp hl
    by_cases h : compare k d.1 = .eq
    · have hk : k = d.1 := Std.LawfulEqCmp.eq_of_compare h
      subst hk
      simp only [List.find?_cons, h, beq_self_eq_true, Option.map_some, Option.some.injEq,
        List.mem_cons]
      constructor
      · rintro rfl; exact .inl rfl
      · rintro (he | he)
        · rw [← he]
        · have := hd _ he
          rw [compare_rfl] at this
          exact absurd this (by decide)
    · have hb : (compare k d.1 == .eq) = false := by simpa using h
      simp only [List.find?_cons, hb, List.mem_cons, ih hrest]
      constructor
      · exact .inr
      · rintro (he | he)
        · exact absurd (by rw [← he]; exact compare_rfl _) h
        · exact he

omit [Std.LawfulEqOrd κ] in
/-- Two increasing lists with the same members are equal. -/
theorem eq_of_mem_iff {l r : List (κ × ν)}
    (hl : l.Pairwise fun a b => compare a.1 b.1 = .lt)
    (hr : r.Pairwise fun a b => compare a.1 b.1 = .lt)
    (h : ∀ e, e ∈ l ↔ e ∈ r) : l = r := by
  induction l generalizing r with
  | nil =>
    cases r with
    | nil => rfl
    | cons d r => exact absurd ((h d).mpr (List.mem_cons_self ..)) (by simp)
  | cons a l ih =>
    cases r with
    | nil => exact absurd ((h a).mp (List.mem_cons_self ..)) (by simp)
    | cons b r =>
      obtain ⟨ha, hl'⟩ := List.pairwise_cons.mp hl
      obtain ⟨hb, hr'⟩ := List.pairwise_cons.mp hr
      have irrefl : ∀ x : κ, compare x x ≠ .lt := fun x hx => by
        rw [compare_rfl] at hx; exact absurd hx (by decide)
      have hab : a = b := by
        rcases List.mem_cons.mp ((h a).mp (List.mem_cons_self ..)) with e | hin
        · exact e
        · rcases List.mem_cons.mp ((h b).mpr (List.mem_cons_self ..)) with e | hin'
          · exact e.symm
          · exact absurd (Std.TransCmp.lt_trans (hb a hin) (ha b hin')) (irrefl _)
      subst hab
      refine congrArg _ (ih hl' hr' fun e => ?_)
      constructor
      · intro he
        rcases List.mem_cons.mp ((h e).mp (List.mem_cons_of_mem _ he)) with e' | he'
        · exact absurd (e' ▸ ha e he) (irrefl _)
        · exact he'
      · intro he
        rcases List.mem_cons.mp ((h e).mpr (List.mem_cons_of_mem _ he)) with e' | he'
        · exact absurd (e' ▸ hb e he) (irrefl _)
        · exact he'

/-- A map is determined by its lookups. -/
theorem ext_get? {m n : SortedMap κ ν} (h : ∀ k, m.get? k = n.get? k) : m = n := by
  refine ext_toList (eq_of_mem_iff m.sorted n.sorted fun e => ?_)
  rw [show e = (e.1, e.2) from rfl, ← get?_eq_some_iff, ← get?_eq_some_iff, h]

end lawful

end SortedMap

end LoginRegistry
