import FlowTrace.Graph.Editing
import Mathlib.Data.List.Nodup
import Mathlib.Order.Bounds.Basic

/-!
# New ids

A new id is a stem with a number behind it.  Whatever the stems, the number can be read off the id,
so ids with different numbers are different.  The search for a number that is not in use gives one:
the ids in use are too few to take all numbers that are tried.

* `Graph.numbered_injective` — an id determines its number;
* `Graph.length_le_of_covered` — ids with consecutive numbers need as many places;
* `Graph.nextNumber_unused` — the next number gives an id that is not in use;
* `Graph.IdSearch` — the search round by round, with no bound on the rounds;
* `Graph.freshId_least` — the search ends within as many rounds as there are ids and one more, and
  gives the least number above the counter whose id is not in use.
-/

namespace FlowTrace

namespace Graph

/-! ## Numbers in ids -/

theorem toList_numbered (stem : String) (number : Nat) :
    (numbered stem number).toList = stem.toList ++ '-' :: Nat.toDigits 10 number := by
  have hhyphen : (toString "-").toList = ['-'] := rfl
  have hstem : toString stem = stem := rfl
  simp [numbered, hhyphen, hstem]

/-- What stands behind the last mark of two equal texts is equal. -/
theorem eq_of_append_cons_eq {mark : Char} {before after front back : List Char}
    (hafter : mark ∉ after) (hback : mark ∉ back)
    (h : before ++ mark :: after = front ++ mark :: back) : after = back := by
  rcases List.append_eq_append_iff.1 h with ⟨middle, -, hmiddle⟩ | ⟨middle, -, hmiddle⟩
  · cases middle with
    | nil => exact (List.cons.inj hmiddle).2
    | cons first rest =>
        have hsplit : after = rest ++ mark :: back := (List.cons.inj hmiddle).2
        simp [hsplit] at hafter
  · cases middle with
    | nil => exact (List.cons.inj hmiddle).2.symm
    | cons first rest =>
        have hsplit : back = rest ++ mark :: after := (List.cons.inj hmiddle).2
        simp [hsplit] at hback

/-- An id determines its number, whatever the stems look like. -/
theorem numbered_injective {stem other : String} {first second : Nat}
    (h : numbered stem first = numbered other second) : first = second := by
  -- A numeral has no hyphen in it, so it is what stands behind the last one.
  have hdigits : ∀ number : Nat, '-' ∉ Nat.toDigits 10 number := by
    intro number hmem
    have hdigit := Nat.isDigit_of_mem_toDigits (by decide) (by decide) hmem
    cases hdigit
  have htexts : stem.toList ++ '-' :: Nat.toDigits 10 first =
      other.toList ++ '-' :: Nat.toDigits 10 second := by
    simpa [toList_numbered] using congrArg String.toList h
  have hnumerals := eq_of_append_cons_eq (hdigits first) (hdigits second) htexts
  calc first
      = Nat.ofDigitChars 10 (Nat.toDigits 10 first) 0 := Nat.ofDigitChars_ten_toDigits.symm
    _ = Nat.ofDigitChars 10 (Nat.toDigits 10 second) 0 := by rw [hnumerals]
    _ = second := Nat.ofDigitChars_ten_toDigits

/-! ## Ids in use -/

/-- The ids in use, those of the nodes first. -/
def ids (graph : Graph) : List String :=
  graph.nodes.map Node.id ++ graph.connections.map Connection.id

variable {graph : Graph}

theorem uses_iff {id : String} : graph.uses id = true ↔ id ∈ graph.ids := by
  simp [uses, ids, List.any_eq_true]

theorem not_mem_ids_iff {id : String} :
    id ∉ graph.ids ↔ (∀ node ∈ graph.nodes, node.id ≠ id) ∧
      ∀ connection ∈ graph.connections, connection.id ≠ id := by
  simp [ids]

/-- Ids with consecutive numbers are different, so they need as many places as there are numbers. -/
theorem length_le_of_covered {stem : String} {first count : Nat} {used : List String}
    (hcovered : ∀ number, first ≤ number → number < first + count →
      numbered stem number ∈ used) : count ≤ used.length := by
  have hdistinct : ((List.range' first count).map (numbered stem)).Nodup :=
    List.Nodup.map (fun _ _ h => numbered_injective h) List.nodup_range'
  have hsubset : (List.range' first count).map (numbered stem) ⊆ used := by
    intro id hid
    rcases List.mem_map.1 hid with ⟨number, hnumber, rfl⟩
    rcases List.mem_range'_1.1 hnumber with ⟨hge, hlt⟩
    exact hcovered number hge hlt
  simpa using hdistinct.length_le_of_subset hsubset

/-- The search gives the first unused number, or the one after all that it has tried. -/
theorem freeNumber_spec (graph : Graph) (stem : String) :
    ∀ rounds first,
      first ≤ graph.freeNumber stem rounds first ∧
      (∀ number, first ≤ number → number < graph.freeNumber stem rounds first →
        numbered stem number ∈ graph.ids) ∧
      (numbered stem (graph.freeNumber stem rounds first) ∈ graph.ids →
        graph.freeNumber stem rounds first = first + rounds) := by
  intro rounds
  induction rounds with
  | zero =>
      intro first
      refine ⟨Nat.le_refl _, ?_, fun _ => rfl⟩
      intro number hge hlt
      exact absurd hlt (Nat.not_lt.2 hge)
  | succ rounds ih =>
      intro first
      by_cases hused : numbered stem first ∈ graph.ids
      · have hnext : graph.freeNumber stem (rounds + 1) first =
            graph.freeNumber stem rounds (first + 1) := by
          simp [freeNumber, uses_iff.2 hused]
        rcases ih (first + 1) with ⟨hge, htried, hlast⟩
        rw [hnext]
        refine ⟨by omega, ?_, ?_⟩
        · intro number hnumber hlt
          rcases Nat.eq_or_lt_of_le hnumber with rfl | hlater
          · exact hused
          · exact htried number hlater hlt
        · intro hmem
          have hend := hlast hmem
          omega
      · have hfound : graph.freeNumber stem (rounds + 1) first = first := by
          simp [freeNumber, mt uses_iff.1 hused]
        rw [hfound]
        refine ⟨Nat.le_refl _, ?_, ?_⟩
        · intro number hge hlt
          exact absurd hlt (Nat.not_lt.2 hge)
        · intro hmem
          exact absurd hmem hused

theorem counter_lt_nextNumber (graph : Graph) (stem : String) :
    graph.counter < graph.nextNumber stem :=
  (graph.freeNumber_spec stem _ (graph.counter + 1)).1

/-- The next number gives an id that is not in use. -/
theorem nextNumber_unused (graph : Graph) (stem : String) :
    numbered stem (graph.nextNumber stem) ∉ graph.ids := by
  intro hmem
  rcases graph.freeNumber_spec stem (graph.nodes.length + graph.connections.length)
    (graph.counter + 1) with ⟨-, htried, hlast⟩
  have hend : graph.nextNumber stem =
      graph.counter + 1 + (graph.nodes.length + graph.connections.length) := hlast hmem
  -- One number more has been tried than there are ids.
  have hcovered : ∀ number, graph.counter + 1 ≤ number →
      number < graph.counter + 1 + (graph.ids.length + 1) → numbered stem number ∈ graph.ids := by
    intro number hge hlt
    have hlength : graph.ids.length = graph.nodes.length + graph.connections.length := by
      simp [ids]
    rcases Nat.lt_or_ge number (graph.nextNumber stem) with hbefore | hafter
    · exact htried number hge hbefore
    · have hsame : number = graph.nextNumber stem := by omega
      rw [hsame]
      exact hmem
  have hlong := length_le_of_covered hcovered
  omega

/-- The search does not get beyond the numbers that it may try. -/
theorem freeNumber_le (graph : Graph) (stem : String) :
    ∀ rounds first, graph.freeNumber stem rounds first ≤ first + rounds := by
  intro rounds
  induction rounds with
  | zero =>
      intro first
      exact Nat.le_refl first
  | succ rounds ih =>
      intro first
      unfold freeNumber
      split
      · have hrest := ih (first + 1)
        omega
      · exact Nat.le_add_right _ _

/-- Every number between the counter and the next number gives an id in use. -/
theorem mem_ids_of_lt_nextNumber {stem : String} {number : Nat} (hcounter : graph.counter < number)
    (hnext : number < graph.nextNumber stem) : numbered stem number ∈ graph.ids :=
  (graph.freeNumber_spec stem _ (graph.counter + 1)).2.1 number hcounter hnext

/-- The next number is the one after the counter, if its id is not in use. -/
theorem nextNumber_of_unused {stem : String}
    (hunused : numbered stem (graph.counter + 1) ∉ graph.ids) :
    graph.nextNumber stem = graph.counter + 1 := by
  have hcounter := graph.counter_lt_nextNumber stem
  by_contra hother
  exact hunused (mem_ids_of_lt_nextNumber (Nat.lt_succ_self _) (by omega))

/-! ## The search -/

def counted (graph : Graph) : Graph :=
  { graph with counter := graph.counter + 1 }

/-- The search for a new id, with the rounds that it takes and what it leaves.  In each round the
counter moves on by one, for which a word of 64 bits must have room; the search ends if the id with
that number is not in use, and goes on otherwise.  Nothing bounds the number of rounds. -/
inductive IdSearch (stem : String) : Graph → Nat → Graph × String → Prop where
  | found {graph : Graph} :
      graph.counter + 1 < UInt64.size →
      graph.counted.uses (numbered stem graph.counted.counter) = false →
      IdSearch stem graph 1 (graph.counted, numbered stem graph.counted.counter)
  | again {graph : Graph} {rounds : Nat} {result : Graph × String} :
      graph.counter + 1 < UInt64.size →
      graph.counted.uses (numbered stem graph.counted.counter) = true →
      IdSearch stem graph.counted rounds result →
      IdSearch stem graph (rounds + 1) result

namespace IdSearch

variable {stem : String}

/-- A search can go one way only. -/
theorem unique {rounds others : Nat} {result other : Graph × String}
    (h : IdSearch stem graph rounds result) (hother : IdSearch stem graph others other) :
    others = rounds ∧ other = result := by
  induction h generalizing others with
  | found _ hfree =>
      cases hother with
      | found => exact ⟨rfl, rfl⟩
      | again _ hused => cases hfree.symm.trans hused
  | again _ hused _ ih =>
      cases hother with
      | found _ hfree => cases hfree.symm.trans hused
      | again _ _ hrest =>
          rcases ih hrest with ⟨rfl, rfl⟩
          exact ⟨rfl, rfl⟩

/-- A search passes the numbers whose ids are in use, one in each round, and stops at the first
whose id is not. -/
theorem of_used :
    ∀ {passed : Nat} {graph : Graph}, graph.counter + passed + 1 < UInt64.size →
      (∀ number, graph.counter < number → number < graph.counter + passed + 1 →
        numbered stem number ∈ graph.ids) →
      numbered stem (graph.counter + passed + 1) ∉ graph.ids →
      IdSearch stem graph (passed + 1)
        ({ graph with counter := graph.counter + passed + 1 },
          numbered stem (graph.counter + passed + 1)) := by
  intro passed
  induction passed with
  | zero =>
      intro graph hroom _ hfree
      refine IdSearch.found hroom ?_
      rw [Bool.eq_false_iff]
      intro hused
      exact hfree (uses_iff.1 hused)
  | succ passed ih =>
      intro graph hroom hpassed hfree
      have hnumber : graph.counted.counter + passed + 1 = graph.counter + (passed + 1) + 1 := by
        simp only [counted]
        omega
      -- The ids in use are the same in every round, so the rest is a search from the next number.
      have hrest : IdSearch stem graph.counted (passed + 1)
          ({ graph.counted with counter := graph.counted.counter + passed + 1 },
            numbered stem (graph.counted.counter + passed + 1)) := by
        apply ih
        · rw [hnumber]
          exact hroom
        · intro number hcounter hlt
          rw [hnumber] at hlt
          exact hpassed number (Nat.lt_of_succ_lt hcounter) hlt
        · rw [hnumber]
          exact hfree
      rw [hnumber] at hrest
      refine IdSearch.again (by omega) (uses_iff.2 ?_) hrest
      exact hpassed _ (Nat.lt_succ_self _) (by omega)

end IdSearch

/-- The search for a new id ends, in one way only, within as many rounds as the graph has nodes and
connections and one more.  It gives out the least number above the counter whose id belongs to no
node and no connection; the counter is set to that number, which fits into its word, and all else is
as before. -/
theorem freshId_least (graph : Graph) (stem : String)
    (hroom : graph.counter + graph.nodes.length + graph.connections.length + 1 < UInt64.size) :
    ∃ rounds number,
      IdSearch stem graph rounds (graph.freshId stem) ∧
      (∀ others result, IdSearch stem graph others result →
        others = rounds ∧ result = graph.freshId stem) ∧
      rounds ≤ graph.nodes.length + graph.connections.length + 1 ∧
      graph.freshId stem = ({ graph with counter := number }, numbered stem number) ∧
      number < UInt64.size ∧
      IsLeast
        { n | graph.counter < n ∧ (∀ node ∈ graph.nodes, node.id ≠ numbered stem n) ∧
          ∀ connection ∈ graph.connections, connection.id ≠ numbered stem n }
        number := by
  have hcounter := graph.counter_lt_nextNumber stem
  have hunused := graph.nextNumber_unused stem
  have hbound : graph.nextNumber stem ≤
      graph.counter + 1 + (graph.nodes.length + graph.connections.length) :=
    graph.freeNumber_le stem _ _
  obtain ⟨passed, hpassed⟩ : ∃ passed, graph.nextNumber stem = graph.counter + passed + 1 :=
    ⟨graph.nextNumber stem - graph.counter - 1, by omega⟩
  have hsearch : IdSearch stem graph (passed + 1) (graph.freshId stem) := by
    have hresult : graph.freshId stem = ({ graph with counter := graph.counter + passed + 1 },
        numbered stem (graph.counter + passed + 1)) := by
      rw [← hpassed]
      rfl
    rw [hresult]
    apply IdSearch.of_used
    · omega
    · intro number habove hbelow
      exact mem_ids_of_lt_nextNumber habove (hpassed ▸ hbelow)
    · rw [← hpassed]
      exact hunused
  refine ⟨passed + 1, graph.nextNumber stem, hsearch, fun _ _ => hsearch.unique, by omega, rfl,
    by omega, ?_, ?_⟩
  · exact ⟨hcounter, not_mem_ids_iff.1 hunused⟩
  · -- A smaller number above the counter was tried and found in use.
    rintro number ⟨habove, hfree⟩
    by_contra hsmaller
    exact not_mem_ids_iff.2 hfree
      (mem_ids_of_lt_nextNumber habove (Nat.lt_of_not_le hsmaller))

/-- A graph whose ids are in the way of new connections, as many as there can be, with a counter
that has hardly any room left. -/
def crowded : Graph where
  nodes :=
    [Node.new "conn-18446744073709551614" .start, Node.new "conn-18446744073709551612" .finish]
  connections :=
    [⟨⟨"conn-18446744073709551614", execOut, "conn-18446744073709551612", execIn⟩,
      "conn-18446744073709551613"⟩]
  counter := 18446744073709551611

/-- The search passes all three ids and ends at the last number of its word. -/
theorem freshId_least_crowded :
    crowded.counter + crowded.nodes.length + crowded.connections.length + 1 < UInt64.size ∧
      ∃ rounds ≤ 4,
        IdSearch "conn" crowded rounds
          ({ crowded with counter := UInt64.size - 1 }, "conn-18446744073709551615") := by
  have hroom :
      crowded.counter + crowded.nodes.length + crowded.connections.length + 1 < UInt64.size := by
    decide
  have hresult : crowded.freshId "conn" =
      ({ crowded with counter := UInt64.size - 1 }, "conn-18446744073709551615") := by
    decide +kernel
  rcases freshId_least crowded "conn" hroom with ⟨rounds, number, hsearch, -, hrounds, -⟩
  exact ⟨hroom, rounds, hrounds, hresult ▸ hsearch⟩

end Graph
end FlowTrace
