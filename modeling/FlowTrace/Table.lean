/-!
# Tables

A table is a finite map from names to values, held as a list of entries in strictly ascending order
of names.  The order is part of the type, so two tables with the same look-ups are equal and every
listing of a table is sorted without further work.

This file defines:
- `Table` and its look-up `Table.get?`;
- the updates `insert`, `insertIfNew` and `erase`, with what each does to a look-up;
- `ofList` and `extend`, where a later entry of a name wins over an earlier one.
-/

namespace FlowTrace

/-- A finite map from names to values, in ascending order of names. -/
structure Table (α : Type) where
  entries : List (String × α)
  ordered : entries.Pairwise (fun a b => a.1 < b.1)

namespace Table

variable {α β : Type}

/-! ## Entry lists -/

/-- Puts an entry at its place in an ascending list, replacing the entry of the same name. -/
def insertEntry (name : String) (value : α) : List (String × α) → List (String × α)
  | [] => [(name, value)]
  | (other, held) :: rest =>
      if name < other then
        (name, value) :: (other, held) :: rest
      else if name = other then
        (name, value) :: rest
      else
        (other, held) :: insertEntry name value rest

theorem mem_insertEntry {name : String} {value : α} {entry : String × α} :
    ∀ {list : List (String × α)},
      entry ∈ insertEntry name value list → entry = (name, value) ∨ entry ∈ list
  | [], h => by
      simpa [insertEntry] using h
  | (other, held) :: rest, h => by
      unfold insertEntry at h
      split at h
      · simpa using h
      · split at h
        · rcases List.mem_cons.1 h with h | h
          · exact Or.inl h
          · exact Or.inr (List.mem_cons_of_mem _ h)
        · rcases List.mem_cons.1 h with h | h
          · exact Or.inr (h ▸ List.mem_cons_self)
          · rcases mem_insertEntry h with h | h
            · exact Or.inl h
            · exact Or.inr (List.mem_cons_of_mem _ h)

theorem insertEntry_ordered (name : String) (value : α) :
    ∀ {list : List (String × α)}, list.Pairwise (fun a b => a.1 < b.1) →
      (insertEntry name value list).Pairwise (fun a b => a.1 < b.1)
  | [], _ => by
      simp [insertEntry]
  | (other, held) :: rest, h => by
      obtain ⟨hhead, htail⟩ := List.pairwise_cons.1 h
      unfold insertEntry
      split
      · next hlt =>
          refine List.pairwise_cons.2 ⟨?_, h⟩
          intro entry hmem
          rcases List.mem_cons.1 hmem with rfl | hmem
          · exact hlt
          · exact String.lt_trans hlt (hhead _ hmem)
      · next hnlt =>
          split
          · next heq =>
              subst heq
              exact List.pairwise_cons.2 ⟨fun entry hmem => hhead entry hmem, htail⟩
          · next hne =>
              refine List.pairwise_cons.2 ⟨?_, insertEntry_ordered name value htail⟩
              intro entry hmem
              rcases mem_insertEntry hmem with rfl | hmem
              · have hle : other ≤ name := String.not_lt.1 hnlt
                apply Decidable.byContradiction
                intro hge
                exact hne (String.le_antisymm (String.not_lt.1 hge) hle)
              · exact hhead entry hmem

theorem lookup_insertEntry_self (name : String) (value : α) :
    ∀ list : List (String × α), (insertEntry name value list).lookup name = some value
  | [] => by
      simp [insertEntry]
  | (other, held) :: rest => by
      unfold insertEntry
      split
      · simp
      · split
        · simp
        · next hne =>
            have hbeq : (name == other) = false := by simpa using hne
            rw [List.lookup_cons, hbeq]
            exact lookup_insertEntry_self name value rest

theorem lookup_insertEntry_of_ne {name key : String} (value : α) (hne : key ≠ name) :
    ∀ list : List (String × α), (insertEntry name value list).lookup key = list.lookup key
  | [] => by
      have hbeq : (key == name) = false := by simpa using hne
      simp [insertEntry, List.lookup_cons, hbeq]
  | (other, held) :: rest => by
      have hbeq : (key == name) = false := by simpa using hne
      unfold insertEntry
      split
      · simp [List.lookup_cons, hbeq]
      · split
        · next heq =>
            subst heq
            simp [List.lookup_cons, hbeq]
        · rw [List.lookup_cons, List.lookup_cons]
          split
          · rfl
          · exact lookup_insertEntry_of_ne value hne rest

theorem lookup_filter_ne (key name : String) :
    ∀ list : List (String × α),
      (list.filter (fun entry => entry.1 ≠ name)).lookup key =
        if key = name then none else list.lookup key
  | [] => by
      simp
  | (other, held) :: rest => by
      by_cases hother : other = name
      · subst hother
        by_cases hkey : key = other
        · simpa [hkey] using lookup_filter_ne key other rest
        · have hbeq : (key == other) = false := by simpa using hkey
          simpa [hkey, List.lookup_cons, hbeq] using lookup_filter_ne key other rest
      · by_cases hkey : key = name
        · have hbeq : (key == other) = false := by
            simpa [hkey] using fun h : name = other => hother h.symm
          simpa [hkey, hother, List.lookup_cons, hkey ▸ hbeq] using lookup_filter_ne key name rest
        · by_cases hsame : key = other
          · subst hsame
            simp [hother]
          · have hbeq : (key == other) = false := by simpa using hsame
            simpa [hkey, hother, List.lookup_cons, hbeq] using lookup_filter_ne key name rest

theorem lookup_map_snd (f : α → β) (name : String) :
    ∀ list : List (String × α),
      (list.map fun entry => (entry.1, f entry.2)).lookup name = (list.lookup name).map f
  | [] => rfl
  | (other, held) :: rest => by
      cases h : name == other with
      | true => simp [List.lookup_cons, h]
      | false => simpa [List.lookup_cons, h] using lookup_map_snd f name rest

/-! ## Operations -/

def empty : Table α where
  entries := []
  ordered := List.Pairwise.nil

instance : EmptyCollection (Table α) := ⟨empty⟩

instance : Inhabited (Table α) := ⟨empty⟩

def get? (table : Table α) (name : String) : Option α :=
  table.entries.lookup name

def contains (table : Table α) (name : String) : Bool :=
  (table.get? name).isSome

def insert (table : Table α) (name : String) (value : α) : Table α where
  entries := insertEntry name value table.entries
  ordered := insertEntry_ordered name value table.ordered

/-- Binds a name that is free, and leaves the table alone otherwise: the first binding wins. -/
def insertIfNew (table : Table α) (name : String) (value : α) : Table α :=
  if table.contains name then table else table.insert name value

def erase (table : Table α) (name : String) : Table α where
  entries := table.entries.filter (fun entry => entry.1 ≠ name)
  ordered := table.ordered.filter _

/-- Binds the given names one after another, so a later entry of a name wins. -/
def insertMany (table : Table α) (list : List (String × α)) : Table α :=
  list.foldl (fun acc entry => acc.insert entry.1 entry.2) table

/-- The table of a list of entries; of two entries with one name the later wins. -/
def ofList (list : List (String × α)) : Table α :=
  (empty : Table α).insertMany list

/-- Lays the entries of `upper` over those of `lower`. -/
def extend (lower upper : Table α) : Table α :=
  lower.insertMany upper.entries

def names (table : Table α) : List String :=
  table.entries.map Prod.fst

def isEmpty (table : Table α) : Bool :=
  table.entries.isEmpty

def map (f : α → β) (table : Table α) : Table β where
  entries := table.entries.map fun entry => (entry.1, f entry.2)
  ordered := List.pairwise_map.2 table.ordered

/-! ## Look-ups after an operation -/

@[simp] theorem get?_empty (name : String) : (empty : Table α).get? name = none := rfl

@[simp] theorem get?_emptyCollection (name : String) : (∅ : Table α).get? name = none := rfl

@[simp] theorem get?_insert_self (table : Table α) (name : String) (value : α) :
    (table.insert name value).get? name = some value :=
  lookup_insertEntry_self name value table.entries

theorem get?_insert_of_ne (table : Table α) {name key : String} (value : α) (hne : key ≠ name) :
    (table.insert name value).get? key = table.get? key :=
  lookup_insertEntry_of_ne value hne table.entries

/-- Binding a name changes what is held under that name only. -/
theorem get?_insert (table : Table α) (name key : String) (value : α) :
    (table.insert name value).get? key = if key = name then some value else table.get? key := by
  split
  · next h => rw [h, get?_insert_self]
  · next h => exact get?_insert_of_ne table value h

/-- A free name is bound; one that is bound keeps its value. -/
theorem get?_insertIfNew (table : Table α) (name key : String) (value : α) :
    (table.insertIfNew name value).get? key =
      if key = name then some ((table.get? name).getD value) else table.get? key := by
  unfold insertIfNew contains
  cases h : table.get? name with
  | none => simp [get?_insert]
  | some held =>
      by_cases hkey : key = name
      · simp [hkey, h]
      · simp [hkey]

theorem get?_erase (table : Table α) (name key : String) :
    (table.erase name).get? key = if key = name then none else table.get? key :=
  lookup_filter_ne key name table.entries

theorem get?_map (f : α → β) (table : Table α) (name : String) :
    (table.map f).get? name = (table.get? name).map f :=
  lookup_map_snd f name table.entries

instance [DecidableEq α] : DecidableEq (Table α) := fun a b =>
  if h : a.entries = b.entries then
    isTrue (by cases a; cases b; simp_all)
  else
    isFalse (fun hab => h (hab ▸ rfl))

end Table
end FlowTrace
