import FlowTrace.Json.Parser
import FlowTrace.Proofs.Number.Finite

/-!
# The numbers of a document

JSON text has room for two sorts of numbers: whole numbers of 64 bits, and finite doubles.  No other
number gets into a document that is read from text, so whatever is read from it as a double is
finite.

* `Document.InRange` — a document with no other numbers;
* `Json.Token.inRange_ofWord?` — the words of JSON text;
* `Json.Parser.InRange.step` — every token that is read keeps the open lists and objects in range;
* `Document.parse?_inRange` — so the document at the end of the text is in range.
-/

namespace FlowTrace

/-- A document whose whole numbers have 64 bits and whose doubles are finite. -/
inductive Document.InRange : Document → Prop where
  | null : InRange .null
  | bool {value : Bool} : InRange (.bool value)
  | int {n : Int} : -2 ^ 63 ≤ n → n < 2 ^ 64 → InRange (.int n)
  | float {x : Float} : x.isFinite = true → InRange (.float x)
  | string {text : String} : InRange (.string text)
  | array {items : List Document} : (∀ item ∈ items, InRange item) → InRange (.array items)
  | object {members : List (String × Document)} :
      (∀ member ∈ members, InRange member.2) → InRange (.object members)
  | unreadable : InRange .unreadable

/-! ## Folds and lists that may fail -/

/-- What holds at first and is kept by every step of a fold that may fail holds at its end. -/
theorem foldlM_invariant {σ α : Type} {invariant : σ → Prop} {step : σ → α → Option σ} :
    ∀ {items : List α} {first last : σ}, invariant first →
      (∀ state next, ∀ item ∈ items, invariant state → step state item = some next →
        invariant next) →
      items.foldlM step first = some last → invariant last
  | [], first, last, hfirst, _, hfold => by
      cases hfold
      exact hfirst
  | item :: items, first, last, hfirst, hstep, hfold => by
      rw [List.foldlM_cons] at hfold
      rcases Option.bind_eq_some_iff.1 hfold with ⟨middle, hmiddle, hrest⟩
      refine foldlM_invariant (hstep first middle item List.mem_cons_self hfirst hmiddle) ?_ hrest
      intro state next other hmem
      exact hstep state next other (List.mem_cons_of_mem _ hmem)

/-- What a list is read as comes from its items. -/
theorem exists_of_mem_mapM {α β : Type} {item? : α → Option β} :
    ∀ {items : List α} {results : List β}, items.mapM item? = some results →
      ∀ result ∈ results, ∃ item ∈ items, item? item = some result
  | [], results, hmap, result, hmem => by
      cases hmap
      exact absurd hmem List.not_mem_nil
  | item :: items, results, hmap, result, hmem => by
      rw [List.mapM_cons] at hmap
      rcases Option.bind_eq_some_iff.1 hmap with ⟨first, hfirst, hrest⟩
      rcases Option.bind_eq_some_iff.1 hrest with ⟨others, hothers, hresults⟩
      cases hresults
      rcases List.mem_cons.1 hmem with rfl | hmem
      · exact ⟨item, List.mem_cons_self, hfirst⟩
      · rcases exists_of_mem_mapM hothers result hmem with ⟨other, hother, hresult⟩
        exact ⟨other, List.mem_cons_of_mem _ hother, hresult⟩

/-! ## The parts of a document -/

namespace Document

attribute [simp] InRange.null InRange.string

@[simp] theorem inRange_array_iff {items : List Document} :
    (Document.array items).InRange ↔ ∀ item ∈ items, item.InRange := by
  refine ⟨?_, .array⟩
  rintro ⟨⟩
  assumption

@[simp] theorem inRange_object_iff {members : List (String × Document)} :
    (Document.object members).InRange ↔ ∀ member ∈ members, member.2.InRange := by
  refine ⟨?_, .object⟩
  rintro ⟨⟩
  assumption

/-- What is read as a double is finite. -/
theorem InRange.number? {document : Document} (h : document.InRange) {x : Float}
    (hnumber : document.number? = some x) : x.isFinite = true := by
  cases h with
  | int hlow hhigh =>
      cases hnumber
      exact Number.isFinite_ofInt hlow hhigh
  | float hfinite =>
      cases hnumber
      exact hfinite
  | _ => cases hnumber

/-- A list is read from documents in range. -/
theorem InRange.list? {α : Type} {item? : Document → Option α} {document : Document}
    {results : List α} (h : document.InRange) (hlist : document.list? item? = some results) :
    ∀ result ∈ results, ∃ item, item.InRange ∧ item? item = some result := by
  intro result hmem
  cases h with
  | array hitems =>
      rcases exists_of_mem_mapM hlist result hmem with ⟨item, hitem, hresult⟩
      exact ⟨item, hitems item hitem, hresult⟩
  | _ => cases hlist

theorem inRange_of_field? {members : List (String × Document)} {names : List String}
    {value : Document} (hmembers : ∀ member ∈ members, member.2.InRange)
    (hfield : field? members names = some (some value)) : value.InRange := by
  unfold field? at hfield
  split at hfield
  · cases hfield
  · next member hfilter =>
      cases hfield
      have hmem : member ∈ members.filter fun member => names.contains member.1 := by
        rw [hfilter]
        exact List.mem_singleton_self member
      exact hmembers member (List.mem_filter.1 hmem).1
  · cases hfield

/-- The fields of a record in range are in range. -/
theorem InRange.record? {fields : List (List String)} {document : Document}
    {values : List (Option Document)} (h : document.InRange)
    (hrecord : document.record? fields = some values) :
    ∀ value, some value ∈ values → value.InRange := by
  intro value hmem
  cases h with
  | object hmembers =>
      rcases exists_of_mem_mapM hrecord _ hmem with ⟨names, -, hfield⟩
      exact inRange_of_field? hmembers hfield
  | array hitems =>
      simp only [Document.record?] at hrecord
      split at hrecord
      · cases hrecord
        rcases List.mem_map.1 hmem with ⟨place, -, hplace⟩
        exact hitems value (List.mem_of_getElem? hplace)
      · cases hrecord
  | _ => cases hrecord

end Document

namespace Json

/-! ## Tokens -/

/-- A token that is no word, or one whose value is in range. -/
def Token.InRange : Token → Prop
  | .word value => value.InRange
  | _ => True

/-- The leading digits of a numeral have 64 bits. -/
theorem digits_leading_lt (n : Number.Numeral) : n.leading.digits < UInt64.size :=
  Number.takeFitting_lt (Number.takeFitting_lt (by decide) _) _

namespace Token

/-- The value of a numeral is in range. -/
theorem inRange_ofNumeral (n : Number.Numeral) : (ofNumeral n).InRange := by
  simp only [ofNumeral]
  split
  · -- A whole number without a sign.
    next hwhole =>
      have hlt : Number.ofDigits n.whole < UInt64.size := by
        simp only [Bool.and_eq_true, decide_eq_true_iff] at hwhole
        exact hwhole.2
      simp only [UInt64.size] at hlt
      exact .int (by omega) (by omega)
  · split
    · -- A whole number below zero.
      next hwhole =>
        have hle : Number.ofDigits n.whole ≤ UInt64.size / 2 := by
          simp only [Bool.and_eq_true, decide_eq_true_iff] at hwhole
          exact hwhole.2
        simp only [UInt64.size] at hle
        exact .int (by omega) (by omega)
    · split
      · -- Anything else is scaled, and what is too large is left unreadable.
        next x hscaled =>
          exact .float (Number.isFinite_withSign _
            (Number.isFinite_scaled? (digits_leading_lt n) hscaled))
      · exact .unreadable

theorem inRange_ofWord? {letters : List Char} {value : Document}
    (hword : ofWord? letters = some value) : value.InRange := by
  simp only [ofWord?] at hword
  split at hword
  · cases hword
    exact .null
  · split at hword
    · cases hword
      exact .bool
    · split at hword
      · cases hword
        exact .bool
      · rcases Option.bind_eq_some_iff.1 hword with ⟨n, -, hnumeral⟩
        split at hnumeral
        · cases hnumeral
          exact inRange_ofNumeral n
        · cases hnumeral

end Token

/-! ## The lexer -/

def Lexer.InRange (lexer : Lexer) : Prop :=
  ∀ token ∈ lexer.found, token.InRange

namespace Lexer

theorem inRange_single? {c : Char} {token : Token} (hsingle : single? c = some token) :
    token.InRange := by
  unfold single? at hsingle
  split at hsingle <;> cases hsingle <;> trivial

theorem inRange_stepBetween {found : List Token} (h : ∀ token ∈ found, token.InRange) (c : Char) :
    (stepBetween found c).InRange := by
  unfold stepBetween
  split
  · next token hsingle =>
      exact List.forall_mem_cons.2 ⟨inRange_single? hsingle, h⟩
  · split
    · exact h
    · split <;> exact h

theorem inRange_token (quoted : Quoted) : quoted.token.InRange := by
  unfold Quoted.token
  split <;> trivial

/-- Only the end of a word or a quoted text and a character by itself add a token. -/
theorem InRange.step {lexer next : Lexer} {c : Char} (h : lexer.InRange)
    (hstep : lexer.step c = some next) : next.InRange := by
  unfold Lexer.step at hstep
  split at hstep
  · cases hstep
    exact inRange_stepBetween h c
  · -- A word ends at a bracket, a separator, a blank or a quote.
    next letters hmode =>
      split at hstep
      · rcases Option.bind_eq_some_iff.1 hstep with ⟨value, hword, hnext⟩
        cases hnext
        have hvalue : Token.InRange (.word value) := Token.inRange_ofWord? hword
        exact inRange_stepBetween (List.forall_mem_cons.2 ⟨hvalue, h⟩) c
      · cases hstep
        exact h
  · next quoted hmode =>
      split at hstep
      · cases hstep
        exact List.forall_mem_cons.2 ⟨inRange_token quoted, h⟩
      · split at hstep
        · cases hstep
          exact h
        · split at hstep
          · cases hstep
          · cases hstep
            exact h
  · next quoted hmode =>
      split at hstep
      · cases hstep
        exact h
      · rcases Option.map_eq_some_iff.1 hstep with ⟨letter, -, hnext⟩
        cases hnext
        exact h
  · next quoted missing value hmode =>
      rcases Option.bind_eq_some_iff.1 hstep with ⟨digit, -, hnext⟩
      simp only at hnext
      split at hnext <;> cases hnext <;> exact h

theorem InRange.finish? {lexer : Lexer} {tokens : List Token} (h : lexer.InRange)
    (hfinish : lexer.finish? = some tokens) : ∀ token ∈ tokens, token.InRange := by
  unfold Lexer.finish? at hfinish
  split at hfinish
  · cases hfinish
    intro token hmem
    exact h token (List.mem_reverse.1 hmem)
  · rcases Option.bind_eq_some_iff.1 hfinish with ⟨value, hword, htokens⟩
    cases htokens
    have hvalue : Token.InRange (.word value) := Token.inRange_ofWord? hword
    intro token hmem
    exact List.forall_mem_cons.2 ⟨hvalue, h⟩ token (List.mem_reverse.1 hmem)
  · cases hfinish

end Lexer

/-- All tokens of a text are in range. -/
theorem inRange_of_tokens? {text : String} {tokens : List Token}
    (htokens : tokens? text = some tokens) : ∀ token ∈ tokens, token.InRange := by
  rcases Option.bind_eq_some_iff.1 htokens with ⟨lexer, hlexer, hfinish⟩
  have hfirst : Lexer.InRange {} := fun token hmem => absurd hmem List.not_mem_nil
  exact (foldlM_invariant hfirst (fun _ _ _ _ h => h.step) hlexer).finish? hfinish

/-! ## The parser -/

def Frame.InRange : Frame → Prop
  | .array items => ∀ item ∈ items, item.InRange
  | .object members => ∀ member ∈ members, member.2.InRange
  | .member _ members => ∀ member ∈ members, member.2.InRange

namespace Parser

/-- All open lists and objects are in range, and so is the result if there is one. -/
structure InRange (parser : Parser) : Prop where
  frames : ∀ frame ∈ parser.frames, frame.InRange
  result : ∀ result, parser.expected = .nothing result → result.InRange

theorem inRange_place? {frames : List Frame} {value : Document} {next : Parser}
    (hframes : ∀ frame ∈ frames, frame.InRange) (hvalue : value.InRange)
    (hplace : place? frames value = some next) : next.InRange := by
  unfold place? at hplace
  split at hplace
  · cases hplace
    refine ⟨hframes, ?_⟩
    rintro result ⟨⟩
    exact hvalue
  · next items outer =>
      cases hplace
      obtain ⟨hitems, houter⟩ := List.forall_mem_cons.1 hframes
      exact ⟨List.forall_mem_cons.2 ⟨List.forall_mem_cons.2 ⟨hvalue, hitems⟩, houter⟩, nofun⟩
  · next name members outer =>
      cases hplace
      obtain ⟨hmembers, houter⟩ := List.forall_mem_cons.1 hframes
      exact ⟨List.forall_mem_cons.2 ⟨List.forall_mem_cons.2 ⟨hvalue, hmembers⟩, houter⟩, nofun⟩
  · cases hplace

theorem inRange_limited {value : Document} (hvalue : value.InRange) (frames : List Frame) :
    (limited frames value).InRange := by
  unfold limited
  split
  · exact hvalue
  · exact .unreadable

theorem inRange_closeObject {members : List (Option String × Document)}
    (hmembers : ∀ member ∈ members, member.2.InRange) : (closeObject members).InRange := by
  unfold closeObject
  split
  · -- An object with all its names keeps the values that were gathered.
    next named hnamed =>
      refine .object ?_
      intro member hmem
      rcases exists_of_mem_mapM hnamed member hmem with ⟨given, hgiven, hname⟩
      rcases Option.map_eq_some_iff.1 hname with ⟨name, -, rfl⟩
      exact hmembers given (List.mem_reverse.1 hgiven)
  · exact .unreadable

theorem inRange_stepValue {frames : List Frame} {token : Token} {next : Parser}
    (hframes : ∀ frame ∈ frames, frame.InRange) (htoken : token.InRange)
    (hstep : stepValue frames token = some next) : next.InRange := by
  unfold stepValue at hstep
  split at hstep
  · cases hstep
    exact ⟨List.forall_mem_cons.2 ⟨nofun, hframes⟩, nofun⟩
  · cases hstep
    exact ⟨List.forall_mem_cons.2 ⟨nofun, hframes⟩, nofun⟩
  · exact inRange_place? hframes .string hstep
  · exact inRange_place? hframes .unreadable hstep
  · exact inRange_place? hframes htoken hstep
  · cases hstep

theorem inRange_stepClose {frames : List Frame} {token : Token} {next : Parser}
    (hframes : ∀ frame ∈ frames, frame.InRange)
    (hstep : stepClose frames token = some next) : next.InRange := by
  unfold stepClose at hstep
  split at hstep
  · split at hstep
    · next items outer =>
        obtain ⟨hitems, houter⟩ := List.forall_mem_cons.1 hframes
        refine inRange_place? houter (inRange_limited (.array ?_) outer) hstep
        intro item hmem
        exact hitems item (List.mem_reverse.1 hmem)
    · cases hstep
  · split at hstep
    · next members outer =>
        obtain ⟨hmembers, houter⟩ := List.forall_mem_cons.1 hframes
        exact inRange_place? houter (inRange_limited (inRange_closeObject hmembers) outer) hstep
    · cases hstep
  · cases hstep

theorem inRange_stepName {frames : List Frame} {token : Token} {next : Parser}
    (hframes : ∀ frame ∈ frames, frame.InRange)
    (hstep : stepName frames token = some next) : next.InRange := by
  unfold stepName at hstep
  split at hstep
  · split at hstep
    · cases hstep
      obtain ⟨hmembers, houter⟩ := List.forall_mem_cons.1 hframes
      exact ⟨List.forall_mem_cons.2 ⟨hmembers, houter⟩, nofun⟩
    · cases hstep
  · cases hstep

theorem inRange_stepComma {frames : List Frame} {next : Parser}
    (hframes : ∀ frame ∈ frames, frame.InRange)
    (hstep : stepComma frames = some next) : next.InRange := by
  unfold stepComma at hstep
  split at hstep <;> cases hstep <;> exact ⟨hframes, nofun⟩

/-- A token that is in range keeps the parser in range. -/
theorem InRange.step {parser next : Parser} {token : Token} (h : parser.InRange)
    (htoken : token.InRange) (hstep : parser.step token = some next) : next.InRange := by
  unfold Parser.step at hstep
  split at hstep
  · exact inRange_stepValue h.frames htoken hstep
  · exact inRange_stepClose h.frames hstep
  · exact inRange_stepValue h.frames htoken hstep
  · exact inRange_stepClose h.frames hstep
  · exact inRange_stepName h.frames hstep
  · exact inRange_stepName h.frames hstep
  · cases hstep
    exact ⟨h.frames, nofun⟩
  · exact inRange_stepComma h.frames hstep
  · exact inRange_stepClose h.frames hstep
  · cases hstep

theorem InRange.finish? {parser : Parser} {document : Document} (h : parser.InRange)
    (hfinish : parser.finish? = some document) : document.InRange := by
  unfold Parser.finish? at hfinish
  split at hfinish
  · next result hexpected =>
      cases hfinish
      exact h.result _ hexpected
  · cases hfinish

end Parser
end Json

/-- A document that is read from text is in range. -/
theorem Document.parse?_inRange {text : String} {document : Document}
    (hparse : Document.parse? text = some document) : document.InRange := by
  rcases Option.bind_eq_some_iff.1 hparse with ⟨tokens, htokens, hparser⟩
  rcases Option.bind_eq_some_iff.1 hparser with ⟨parser, hfold, hfinish⟩
  -- The parser starts with nothing open, and every token that it reads is in range.
  have hfirst : Json.Parser.InRange {} := ⟨nofun, nofun⟩
  refine Json.Parser.InRange.finish? (foldlM_invariant hfirst ?_ hfold) hfinish
  intro state next token hmem h
  exact h.step (Json.inRange_of_tokens? htokens token hmem)

end FlowTrace
