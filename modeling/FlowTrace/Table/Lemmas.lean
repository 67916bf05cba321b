import FlowTrace.Table

/-!
# Laws of tables

Tables are determined by their look-ups.  Main statements:
- `Table.ext_get?`: two tables with the same look-ups are equal;
- `Table.get?_insertMany` and `Table.get?_extend`: what is laid over a table is found first;
- `Table.ofList_entries`: a table is rebuilt from its own entries.
-/

namespace FlowTrace

namespace Table

variable {α : Type}

/-! ## Entries and look-ups -/

/-- No name has two entries. -/
theorem nodup_names (table : Table α) : table.names.Nodup := by
  unfold names
  rw [List.nodup_iff_pairwise_ne, List.pairwise_map]
  apply table.ordered.imp
  intro a b hlt heq
  rw [heq] at hlt
  exact String.lt_irrefl _ hlt

/-- In a list without repeated names an entry is found under its name. -/
theorem lookup_eq_some_iff_mem {name : String} {value : α} :
    ∀ {list : List (String × α)}, (list.map Prod.fst).Nodup →
      (list.lookup name = some value ↔ (name, value) ∈ list)
  | [], _ => by
      simp
  | (other, held) :: rest, hnodup => by
      obtain ⟨hfresh, hrest⟩ := List.nodup_cons.1 hnodup
      by_cases hname : name = other
      · subst hname
        have hnot : (name, value) ∉ rest := fun hmem =>
          hfresh (List.mem_map.2 ⟨(name, value), hmem, rfl⟩)
        simp [hnot, eq_comm]
      · have hbeq : (name == other) = false := by simpa using hname
        simp [List.lookup_cons, hbeq, hname, lookup_eq_some_iff_mem hrest]

theorem get?_eq_some_iff {table : Table α} {name : String} {value : α} :
    table.get? name = some value ↔ (name, value) ∈ table.entries :=
  lookup_eq_some_iff_mem table.nodup_names

/-- The order in which distinct names are listed makes no difference to a look-up. -/
theorem lookup_reverse {list : List (String × α)} (hnodup : (list.map Prod.fst).Nodup)
    (name : String) : list.reverse.lookup name = list.lookup name := by
  apply Option.ext
  intro value
  have hreverse : (list.reverse.map Prod.fst).Nodup := by
    rw [List.map_reverse, List.nodup_iff_pairwise_ne, List.pairwise_reverse]
    exact hnodup.imp fun hne heq => hne heq.symm
  rw [lookup_eq_some_iff_mem hnodup, lookup_eq_some_iff_mem hreverse, List.mem_reverse]

/-! ## Several entries at once -/

/-- Of several entries of a name the last counts, and a name without any keeps its value. -/
theorem get?_insertMany (table : Table α) (list : List (String × α)) (name : String) :
    (table.insertMany list).get? name = (list.reverse.lookup name).or (table.get? name) := by
  induction list generalizing table with
  | nil => simp [insertMany]
  | cons entry rest ih =>
      rcases entry with ⟨key, value⟩
      have hstep : table.insertMany ((key, value) :: rest) =
          (table.insert key value).insertMany rest := rfl
      rw [hstep, ih, get?_insert, List.reverse_cons, List.lookup_append, List.lookup_cons]
      by_cases hname : name = key
      · subst hname
        cases rest.reverse.lookup name <;> simp
      · have hbeq : (name == key) = false := by simpa using hname
        cases rest.reverse.lookup name <;> simp [hbeq, hname]

theorem get?_ofList (list : List (String × α)) (name : String) :
    (ofList list).get? name = list.reverse.lookup name := by
  unfold ofList
  simp [get?_insertMany]

/-- Where both tables hold a name, the upper one counts. -/
theorem get?_extend (lower upper : Table α) (name : String) :
    (lower.extend upper).get? name = (upper.get? name).or (lower.get? name) := by
  unfold extend
  rw [get?_insertMany, lookup_reverse upper.nodup_names]
  rfl

/-! ## Extensionality -/

/-- Lists in order with the same entries are equal. -/
theorem eq_of_ordered_of_mem_iff :
    ∀ {a b : List (String × α)}, a.Pairwise (fun x y => x.1 < y.1) →
      b.Pairwise (fun x y => x.1 < y.1) → (∀ entry, entry ∈ a ↔ entry ∈ b) → a = b
  | [], [], _, _, _ => rfl
  | [], y :: _, _, _, h => absurd ((h y).2 List.mem_cons_self) List.not_mem_nil
  | x :: _, [], _, _, h => absurd ((h x).1 List.mem_cons_self) List.not_mem_nil
  | x :: xs, y :: ys, ha, hb, h => by
      obtain ⟨hx, hxs⟩ := List.pairwise_cons.1 ha
      obtain ⟨hy, hys⟩ := List.pairwise_cons.1 hb
      have hhead : x = y := by
        rcases List.mem_cons.1 ((h x).1 List.mem_cons_self) with hxy | hxy
        · exact hxy
        · rcases List.mem_cons.1 ((h y).2 List.mem_cons_self) with hyx | hyx
          · exact hyx.symm
          · exact absurd (hx y hyx) (String.lt_asymm (hy x hxy))
      subst hhead
      have htail : ∀ entry, entry ∈ xs ↔ entry ∈ ys := by
        intro entry
        constructor
        · intro hmem
          rcases List.mem_cons.1 ((h entry).1 (List.mem_cons_of_mem _ hmem)) with heq | hin
          · exact absurd (heq ▸ hx entry hmem) (String.lt_irrefl _)
          · exact hin
        · intro hmem
          rcases List.mem_cons.1 ((h entry).2 (List.mem_cons_of_mem _ hmem)) with heq | hin
          · exact absurd (heq ▸ hy entry hmem) (String.lt_irrefl _)
          · exact hin
      rw [eq_of_ordered_of_mem_iff hxs hys htail]

/-- Tables with the same look-ups are equal. -/
theorem ext_get? {a b : Table α} (h : ∀ name, a.get? name = b.get? name) : a = b := by
  have hentries : a.entries = b.entries := by
    apply eq_of_ordered_of_mem_iff a.ordered b.ordered
    rintro ⟨name, value⟩
    rw [← get?_eq_some_iff, ← get?_eq_some_iff, h]
  cases a
  cases b
  simp_all

/-- A table is rebuilt from its own entries. -/
theorem ofList_entries (table : Table α) : ofList table.entries = table := by
  apply ext_get?
  intro name
  rw [get?_ofList, lookup_reverse table.nodup_names]
  rfl

end Table
end FlowTrace
