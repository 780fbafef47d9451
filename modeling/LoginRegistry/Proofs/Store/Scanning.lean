import LoginRegistry.Proofs.Store.Keying

/-! # Reading a table page by page

    A reader asks for a page, goes on after the key that the page ends with, and stops at a page
    without one.  Each page can have a limit of its own.

    * `scan_after`: the page after a first part of the entries, where items hold their own keys.
    * `exists_reads`: the reader comes to an end.
    * `Reads.items_eq`: what it has read by then are the items of the table.
-/

namespace LoginRegistry.Store

/-- Reading a table page by page from a key on, or from the start.  These are the pages, of which
    each has the limit that is next and the last one tells no key to go on after. -/
inductive Database.Reads (d : Database) (name : String) :
    (Nat → Nat) → Option Item → List Page → Prop where
  /-- The page ends the table. -/
  | last {limits : Nat → Nat} {start : Option Item} {page : Page} :
    d.scan { table := name, limit := limits 0, start := start } = .ok page →
    page.last = none → Reads d name limits start [page]
  /-- The page tells the key to go on after. -/
  | more {limits : Nat → Nat} {start : Option Item} {page : Page} {key : Item}
    {pages : List Page} :
    d.scan { table := name, limit := limits 0, start := start } = .ok page →
    page.last = some key → Reads d name (fun i => limits (i + 1)) (some key) pages →
    Reads d name limits start (page :: pages)

/-- The page holds at most as many items as its limit, which counts as 1 if it is 0, and exactly
    as many if more are to come. -/
def Page.KeepsTo (page : Page) (limit : Nat) : Prop :=
  page.items.length ≤ max limit 1 ∧ (page.last ≠ none → page.items.length = max limit 1)

/-- The items hold an attribute each, with a smaller value in the first one. -/
def Item.Before (name : String) (x y : Item) : Prop :=
  ∃ k l, x.get? name = some k ∧ y.get? name = some l ∧ compare k l = .lt

/-! ### Pages -/

namespace Table

variable {t : Table}

/-- The key item to go on after when some entries have been read. -/
def resume (t : Table) (read : List (AttributeValue × Item)) : Option Item :=
  read.getLast?.map fun e => Item.key t.partition e.1

/-- The page of a keyed table after a first part of its entries: the next entries up to the limit,
    and the key to go on after if there are more. -/
theorem page_after (h : t.Keyed) {read rest : List (AttributeValue × Item)}
    (hitems : t.items.toList = read ++ rest) (limit : Nat) :
    t.page limit (read.getLast?.map Prod.fst)
      = { items := (rest.take limit).map Prod.snd
          last := if (rest.drop limit).isEmpty then none else t.resume (rest.take limit) } := by
  simp only [page, resume, SortedMap.after_getLast? hitems, List.getLast?_map]
  congr 2
  cases hlast : (rest.take limit).getLast? with
  | none => rfl
  | some e =>
    have hmem : e ∈ rest := List.mem_of_mem_take (List.mem_of_getLast? hlast)
    have hget : t.items.get? e.1 = some e.2 :=
      (SortedMap.get?_eq_some_iff _ _ _).mpr (hitems ▸ List.mem_append_right read hmem)
    simp only [Option.map_some, Option.bind_some, h _ _ hget]

/-- The entries before and after the next page. -/
theorem append_take_drop {read rest : List (AttributeValue × Item)}
    (hitems : t.items.toList = read ++ rest) (n : Nat) :
    t.items.toList = (read ++ rest.take n) ++ rest.drop n := by
  rw [hitems, List.append_assoc, List.take_append_drop]

/-- With more entries to come than the limit there is a key to go on after, which is that of the
    last entry read. -/
theorem exists_resume {rest : List (AttributeValue × Item)} {limit : Nat} (hpositive : 1 ≤ limit)
    (hmore : limit < rest.length) (read : List (AttributeValue × Item)) :
    ∃ key, t.resume (rest.take limit) = some key ∧
      t.resume (read ++ rest.take limit) = some key := by
  have hne : rest.take limit ≠ [] := by
    have hlength := List.length_take_of_le (Nat.le_of_lt hmore)
    intro hnil
    rw [hnil, List.length_nil] at hlength
    omega
  obtain ⟨e, he⟩ := Option.ne_none_iff_exists'.mp (mt List.getLast?_eq_none_iff.mp hne)
  refine ⟨Item.key t.partition e.1, ?_, ?_⟩
  · simp [resume, he]
  · simp [resume, List.getLast?_append, he]

end Table

namespace Database

variable {d : Database} {name : String} {t : Table} {read rest : List (AttributeValue × Item)}

/-- The page that is read after a first part of the entries. -/
theorem scan_after (ht : d.get? name = some t) (h : t.Keyed)
    (hitems : t.items.toList = read ++ rest) (limit : Nat) :
    d.scan { table := name, limit := limit, start := t.resume read }
      = .ok { items := (rest.take (max limit 1)).map Prod.snd
              last := if (rest.drop (max limit 1)).isEmpty then none
                else t.resume (rest.take (max limit 1)) } := by
  have hscan := scan_of_some ht limit (read.getLast?.map Prod.fst)
  rw [Option.map_map, Table.page_after h hitems] at hscan
  exact hscan

/-- The page that ends the table. -/
theorem scan_end (ht : d.get? name = some t) (h : t.Keyed) (hitems : t.items.toList = read ++ rest)
    {limit : Nat} (hfits : rest.length ≤ max limit 1) :
    d.scan { table := name, limit := limit, start := t.resume read }
      = .ok ⟨rest.map Prod.snd, none⟩ := by
  rw [scan_after ht h hitems, List.take_of_length_le hfits, List.drop_of_length_le hfits]
  rfl

/-- A page before the end. -/
theorem scan_more (ht : d.get? name = some t) (h : t.Keyed)
    (hitems : t.items.toList = read ++ rest) {limit : Nat} (hmore : max limit 1 < rest.length) :
    ∃ key, t.resume (read ++ rest.take (max limit 1)) = some key ∧
      d.scan { table := name, limit := limit, start := t.resume read }
        = .ok ⟨(rest.take (max limit 1)).map Prod.snd, some key⟩ := by
  obtain ⟨key, hpage, hread⟩ := Table.exists_resume (t := t) (Nat.le_max_right limit 1) hmore read
  have hdrop : (rest.drop (max limit 1)).isEmpty = false := by
    simpa using hmore
  refine ⟨key, hread, ?_⟩
  rw [scan_after ht h hitems, hdrop, hpage]
  rfl

/-! ### The whole table -/

/-- From any first part of the entries on the reader comes to an end, whatever the limits. -/
theorem exists_reads_after (ht : d.get? name = some t) (h : t.Keyed)
    (hitems : t.items.toList = read ++ rest) (limits : Nat → Nat) :
    ∃ pages, d.Reads name limits (t.resume read) pages := by
  -- A page that does not end the table has an item, so fewer are left after it.
  induction hlength : rest.length using Nat.strongRecOn generalizing read rest limits with
  | ind n ih =>
    by_cases hfits : rest.length ≤ max (limits 0) 1
    · exact ⟨_, .last (scan_end ht h hitems hfits) rfl⟩
    · obtain ⟨key, hkey, hscan⟩ := scan_more ht h hitems (Nat.lt_of_not_le hfits)
      have hless : (rest.drop (max (limits 0) 1)).length < n := by
        rw [List.length_drop]
        omega
      obtain ⟨pages, hpages⟩ :=
        ih _ hless (Table.append_take_drop hitems _) (fun i => limits (i + 1)) rfl
      rw [hkey] at hpages
      exact ⟨_, .more hscan rfl hpages⟩

/-- What the reader has got from a first part of the entries on, once it has come to an end. -/
theorem Reads.items_after (ht : d.get? name = some t) (h : t.Keyed) {limits : Nat → Nat}
    {start : Option Item} {pages : List Page} (hreads : d.Reads name limits start pages)
    (hitems : t.items.toList = read ++ rest) (hstart : start = t.resume read) :
    pages.flatMap Page.items = rest.map Prod.snd ∧
      ∀ i (page : Page), pages[i]? = some page → page.KeepsTo (limits i) := by
  induction hreads generalizing read rest with
  | @last limits start page hpage hlast =>
    rw [hstart] at hpage
    by_cases hfits : rest.length ≤ max (limits 0) 1
    · rw [scan_end ht h hitems hfits] at hpage
      obtain rfl := Except.ok.inj hpage
      refine ⟨by simp, fun i page hi => ?_⟩
      obtain ⟨rfl, rfl⟩ : i = 0 ∧ page = _ := by
        cases i with
        | zero => exact ⟨rfl, by simpa using hi.symm⟩
        | succ i => simp at hi
      exact ⟨by simpa using hfits, fun hnone => absurd rfl hnone⟩
    · -- There would be a key to go on after.
      obtain ⟨key, -, hscan⟩ := scan_more ht h hitems (Nat.lt_of_not_le hfits)
      rw [hscan] at hpage
      obtain rfl := Except.ok.inj hpage
      cases hlast
  | @more limits start page key pages hpage hlast hmore ih =>
    rw [hstart] at hpage
    by_cases hfits : rest.length ≤ max (limits 0) 1
    · rw [scan_end ht h hitems hfits] at hpage
      obtain rfl := Except.ok.inj hpage
      cases hlast
    · have hlonger := Nat.lt_of_not_le hfits
      obtain ⟨key', hkey, hscan⟩ := scan_more ht h hitems hlonger
      rw [hscan] at hpage
      obtain rfl := Except.ok.inj hpage
      obtain ⟨hrest, hlimits⟩ := ih (Table.append_take_drop hitems _) (hlast.symm.trans hkey.symm)
      constructor
      · rw [List.flatMap_cons, hrest, ← List.map_append, List.take_append_drop]
      · intro i page hi
        cases i with
        | zero =>
          obtain rfl : _ = page := by simpa using hi
          simp [Page.KeepsTo, Nat.le_of_lt hlonger]
        | succ i => exact hlimits i page hi

/-- A reader who starts at the beginning comes to an end. -/
theorem exists_reads (ht : d.get? name = some t) (h : t.Keyed) (limits : Nat → Nat) :
    ∃ pages, d.Reads name limits none pages :=
  exists_reads_after ht h (List.nil_append _).symm limits

/-- By the end the reader has got all items, from pages that keep to their limits. -/
theorem Reads.items_eq (ht : d.get? name = some t) (h : t.Keyed) {limits : Nat → Nat}
    {pages : List Page} (hreads : d.Reads name limits none pages) :
    pages.flatMap Page.items = t.items.values ∧
      ∀ i (page : Page), pages[i]? = some page → page.KeepsTo (limits i) :=
  hreads.items_after ht h (List.nil_append _).symm rfl

/-- Items that hold their own keys are kept in the order of these. -/
theorem sorted_values (h : t.Keyed) : t.items.values.Pairwise (Item.Before t.partition) := by
  rw [SortedMap.values, List.pairwise_map]
  refine t.items.sorted.imp_of_mem fun {x y} hx hy hlt => ⟨x.1, y.1, ?_, ?_, hlt⟩
  · exact h x.1 x.2 ((SortedMap.get?_eq_some_iff _ _ _).mpr hx)
  · exact h y.1 y.2 ((SortedMap.get?_eq_some_iff _ _ _).mpr hy)

end Database

end LoginRegistry.Store
