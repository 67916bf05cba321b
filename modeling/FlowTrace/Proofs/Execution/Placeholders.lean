import FlowTrace.Execution.Narration
import Mathlib.Data.List.Forall2
import Mathlib.Data.List.Infix
import Mathlib.Data.List.TakeWhile

/-!
# Placeholders in templates

A template is cut at its opening braces, and behind each of them a placeholder is read if there is
one.  This file says what a placeholder is without saying how it is found, and shows that the
placeholders of a template are replaced and nothing else is.

* `Narration.Placeholder` — a name in braces, blanks around it allowed;
* `Narration.placeholder?_eq_some_iff` — it is found behind its opening brace if and only if it is
  there;
* `Narration.Placeholder.same_or_behind` — no two placeholders overlap;
* `Narration.scan_induction` — a template is read from the front, placeholder by placeholder and
  else character by character;
* `Narration.Cut` — a template in pieces, with all its placeholders among them;
* `Context.narrate_replaces_placeholders` — a narration shows these pieces one by one.
-/

namespace FlowTrace

namespace Narration

/-! ## What a placeholder is -/

/-- A letter from A to Z, large or small, or an underscore. -/
def IsLetter (c : Char) : Prop :=
  ('A' ≤ c ∧ c ≤ 'Z') ∨ ('a' ≤ c ∧ c ≤ 'z') ∨ c = '_'

def IsDigit (c : Char) : Prop :=
  '0' ≤ c ∧ c ≤ '9'

/-- A letter and any number of letters and digits behind it. -/
def IsName : List Char → Prop
  | [] => False
  | first :: rest => IsLetter first ∧ ∀ c ∈ rest, IsLetter c ∨ IsDigit c

/-- What stands between the braces of a placeholder: its name, and blanks around it. -/
def Encloses (inner : List Char) (name : String) : Prop :=
  ∃ before after, (∀ c ∈ before, Text.isBlank c = true) ∧ IsName name.toList ∧
    (∀ c ∈ after, Text.isBlank c = true) ∧ inner = before ++ (name.toList ++ after)

def Placeholder (written : List Char) (name : String) : Prop :=
  ∃ inner, Encloses inner name ∧ written = '\x7b' :: (inner ++ ['\x7d'])

/-- A placeholder stands in a template, in front of one text and behind another. -/
def Occurs (template front written : List Char) (name : String) (back : List Char) : Prop :=
  Placeholder written name ∧ template = front ++ (written ++ back)

def Begins (template : List Char) : Prop :=
  ∃ written name back, Occurs template [] written name back

/-! ## Characters -/

variable {c : Char} {inner written other rest front back : List Char} {name otherName : String}

theorem isNameStart_iff : isNameStart c = true ↔ IsLetter c := by
  have hupper : c.isUpper = true ↔ 'A' ≤ c ∧ c ≤ 'Z' := decide_eq_true_iff
  have hlower : c.isLower = true ↔ 'a' ≤ c ∧ c ≤ 'z' :=
    Bool.and_eq_true_iff.trans (and_congr decide_eq_true_iff decide_eq_true_iff)
  have hletter : c.isAlpha = true ↔ c.isUpper = true ∨ c.isLower = true := Bool.or_eq_true_iff
  simp only [isNameStart, IsLetter, Bool.or_eq_true, decide_eq_true_eq, hletter, hupper, hlower,
    or_assoc]

theorem isNamePart_iff : isNamePart c = true ↔ IsLetter c ∨ IsDigit c := by
  have hstart := @isNameStart_iff c
  simp only [isNameStart, Bool.or_eq_true, decide_eq_true_eq] at hstart
  have hdigit : c.isDigit = true ↔ IsDigit c := by
    simp [Char.isDigit, IsDigit, Char.le_def]
  simp only [isNamePart, Char.isAlphanum, Bool.or_eq_true, decide_eq_true_eq, ← hstart, ← hdigit]
  exact or_right_comm

theorem isNamePart_of_isName {chars : List Char} (h : IsName chars) :
    ∀ c ∈ chars, isNamePart c = true := by
  cases chars with
  | nil => exact h.elim
  | cons first rest =>
      intro c hmem
      rcases List.mem_cons.1 hmem with rfl | hmem
      · exact isNamePart_iff.2 (Or.inl h.1)
      · exact isNamePart_iff.2 (h.2 c hmem)

theorem isBlank_of_isNamePart (h : isNamePart c = true) : Text.isBlank c = false := by
  -- The two classes are told apart by the numbers of their characters.
  have hnumber : (65 ≤ c.toNat ∧ c.toNat ≤ 90) ∨ (97 ≤ c.toNat ∧ c.toNat ≤ 122) ∨ c.toNat = 95 ∨
      (48 ≤ c.toNat ∧ c.toNat ≤ 57) := by
    rcases isNamePart_iff.1 h with (hupper | hlower | rfl) | hdigit
    · exact Or.inl hupper
    · exact Or.inr (Or.inl hlower)
    · exact Or.inr (Or.inr (Or.inl rfl))
    · exact Or.inr (Or.inr (Or.inr hdigit))
  rw [Bool.eq_false_iff]
  simp only [Text.isBlank, Text.blankRanges, List.any_cons, List.any_nil, Bool.or_false,
    Bool.or_eq_true, Bool.and_eq_true, decide_eq_true_eq, ne_eq]
  omega

theorem isNamePart_of_isBlank (h : Text.isBlank c = true) : isNamePart c = false := by
  rw [Bool.eq_false_iff]
  intro hpart
  cases h.symm.trans (isBlank_of_isNamePart hpart)

/-- There is no brace between the braces of a placeholder. -/
theorem Encloses.not_mem_brace (h : Encloses inner name) : '\x7b' ∉ inner ∧ '\x7d' ∉ inner := by
  rcases h with ⟨before, after, hbefore, hname, hafter, rfl⟩
  have hclass : ∀ c ∈ before ++ (name.toList ++ after),
      Text.isBlank c = true ∨ isNamePart c = true := by
    intro c hmem
    rcases List.mem_append.1 hmem with hmem | hmem
    · exact Or.inl (hbefore c hmem)
    · rcases List.mem_append.1 hmem with hmem | hmem
      · exact Or.inr (isNamePart_of_isName hname c hmem)
      · exact Or.inl (hafter c hmem)
  constructor
  · intro hmem
    exact absurd (hclass _ hmem) (by decide)
  · intro hmem
    exact absurd (hclass _ hmem) (by decide)

/-! ## Reading one placeholder -/

/-- Where characters of a class end, taking and dropping them ends too. -/
theorem takeWhile_dropWhile_append {p : Char → Bool} {passed stop : List Char}
    (hpassed : ∀ c ∈ passed, p c = true) (hstop : ∀ c ∈ stop.head?, p c = false) :
    (passed ++ stop).takeWhile p = passed ∧ (passed ++ stop).dropWhile p = stop := by
  rw [List.takeWhile_append_of_pos hpassed, List.dropWhile_append_of_pos hpassed]
  cases stop with
  | nil => simp
  | cons c rest => simp [hstop c rfl]

/-- A placeholder is found by what it encloses. -/
theorem placeholder?_of_encloses (h : Encloses inner name) (rest : List Char) :
    placeholder? (inner ++ '\x7d' :: rest) = some (name, rest) := by
  rcases h with ⟨before, after, hbefore, hname, hafter, rfl⟩
  have hparts := isNamePart_of_isName hname
  have hstart : name.toList.head?.any isNameStart = true := by
    cases hchars : name.toList with
    | nil => simp [hchars, IsName] at hname
    | cons first others =>
        rw [hchars] at hname
        simpa using isNameStart_iff.2 hname.1
  -- The blanks in front end where the name begins.
  have hfront : ∀ c ∈ (name.toList ++ (after ++ '\x7d' :: rest)).head?, Text.isBlank c = false := by
    cases hchars : name.toList with
    | nil => simp [hchars] at hstart
    | cons first others =>
        rintro c ⟨⟩
        exact isBlank_of_isNamePart (hparts first (by simp [hchars]))
  -- The name ends at a blank or at the brace.
  have hmiddle : ∀ c ∈ (after ++ '\x7d' :: rest).head?, isNamePart c = false := by
    cases after with
    | nil =>
        rintro c ⟨⟩
        decide
    | cons blank others =>
        rintro c ⟨⟩
        exact isNamePart_of_isBlank (hafter blank (by simp))
  have hbehind : ∀ c ∈ ('\x7d' :: rest).head?, Text.isBlank c = false := by
    rintro c ⟨⟩
    decide
  have hread : before ++ (name.toList ++ after) ++ '\x7d' :: rest =
      before ++ (name.toList ++ (after ++ '\x7d' :: rest)) := by
    simp only [List.append_assoc]
  simp only [placeholder?, hread, (takeWhile_dropWhile_append hbefore hfront).2,
    takeWhile_dropWhile_append hparts hmiddle, (takeWhile_dropWhile_append hafter hbehind).2,
    hstart, if_true, String.ofList_toList]

/-- The characters up to the first that no name goes on with are a name if they start like one. -/
theorem isName_takeWhile {chars : List Char}
    (h : (chars.takeWhile isNamePart).head?.any isNameStart = true) :
    IsName (chars.takeWhile isNamePart) := by
  have hparts : ∀ c ∈ chars.takeWhile isNamePart, isNamePart c = true := by
    intro c hmem
    exact List.mem_takeWhile_imp hmem
  cases htaken : chars.takeWhile isNamePart with
  | nil => simp [htaken] at h
  | cons first rest =>
      rw [htaken] at h hparts
      refine ⟨isNameStart_iff.1 (by simpa using h), ?_⟩
      intro c hmem
      exact isNamePart_iff.1 (hparts c (List.mem_cons_of_mem first hmem))

/-- What is found is there. -/
theorem encloses_of_placeholder? {piece : List Char} (h : placeholder? piece = some (name, rest)) :
    ∃ inner, Encloses inner name ∧ piece = inner ++ '\x7d' :: rest := by
  simp only [placeholder?] at h
  split at h
  · next behind hbehind =>
      split at h
      · next hstart =>
          cases h
          have hblank : ∀ {chars : List Char}, ∀ c ∈ chars.takeWhile Text.isBlank,
              Text.isBlank c = true := by
            intro chars c hmem
            exact List.mem_takeWhile_imp hmem
          refine ⟨_, ⟨piece.takeWhile Text.isBlank,
            ((piece.dropWhile Text.isBlank).dropWhile isNamePart).takeWhile Text.isBlank, hblank,
            by simpa using isName_takeWhile hstart, hblank, rfl⟩, ?_⟩
          simp only [String.toList_ofList, List.append_assoc, ← hbehind,
            List.takeWhile_append_dropWhile]
      · cases h
  · cases h

/-- The scanner reads a placeholder if and only if one is written there, up to its closing brace. -/
theorem placeholder?_eq_some_iff {piece : List Char} :
    placeholder? piece = some (name, rest) ↔
      ∃ inner, Encloses inner name ∧ piece = inner ++ '\x7d' :: rest := by
  constructor
  · exact encloses_of_placeholder?
  · rintro ⟨inner, hinner, rfl⟩
    exact placeholder?_of_encloses hinner rest

/-- What is read behind an opening brace up to the end is a placeholder together with the brace. -/
theorem placeholder_iff :
    Placeholder ('\x7b' :: rest) name ↔ placeholder? rest = some (name, []) := by
  rw [placeholder?_eq_some_iff]
  constructor
  · rintro ⟨inner, hinner, hwritten⟩
    exact ⟨inner, hinner, (List.cons.inj hwritten).2⟩
  · rintro ⟨inner, hinner, rfl⟩
    exact ⟨inner, hinner, rfl⟩

/-! ## Placeholders side by side -/

/-- Two placeholders at one place are the same. -/
theorem Placeholder.unique (hfirst : Placeholder written name)
    (hsecond : Placeholder other otherName) (h : written ++ front = other ++ back) :
    written = other ∧ name = otherName ∧ front = back := by
  rcases hfirst with ⟨inner, hinner, rfl⟩
  rcases hsecond with ⟨further, hfurther, rfl⟩
  have hpiece : inner ++ '\x7d' :: front = further ++ '\x7d' :: back := by simpa using h
  -- Both are found behind the same brace.
  have hfound : some (name, front) = some (otherName, back) := by
    rw [← placeholder?_of_encloses hinner front, ← placeholder?_of_encloses hfurther back, hpiece]
  cases hfound
  have hsame : inner = further := List.append_cancel_right hpiece
  exact ⟨by rw [hsame], rfl, rfl⟩

/-- A placeholder that stands no further left than another one is the same or ends before the
other begins. -/
theorem Placeholder.same_or_behind (hfirst : Placeholder written name)
    (hsecond : Placeholder other otherName) (h : written ++ rest = front ++ (other ++ back)) :
    (front = [] ∧ written = other ∧ name = otherName ∧ rest = back) ∨
      ∃ between, front = written ++ between ∧ rest = between ++ (other ++ back) := by
  rcases List.append_eq_append_iff.1 h with ⟨between, hfront, hrest⟩ | ⟨overlap, hwritten, hother⟩
  · exact Or.inr ⟨between, hfront, hrest⟩
  · cases front with
    | nil =>
        obtain ⟨hsame, hname, hback⟩ := hfirst.unique hsecond h
        exact Or.inl ⟨rfl, hsame, hname, hback⟩
    | cons c others =>
        rcases hfirst with ⟨inner, hinner, rfl⟩
        rcases hsecond with ⟨further, -, rfl⟩
        cases overlap with
        | nil => exact Or.inr ⟨[], by simpa using hwritten.symm, by simpa using hother.symm⟩
        | cons brace overlap =>
            -- The second one would begin inside of the first.
            cases (List.cons.inj hother).1
            have htail : inner ++ ['\x7d'] = others ++ '\x7b' :: overlap :=
              (List.cons.inj hwritten).2
            have hmem : '\x7b' ∈ inner ++ ['\x7d'] := by simp [htail]
            rcases List.mem_append.1 hmem with hinside | hlast
            · exact absurd hinside hinner.not_mem_brace.1
            · exact absurd hlast (by decide)

/-! ## Replacing placeholders -/

variable (lookup : String → Option String)

/-- What stands in place of a placeholder: the text of its name, or else the placeholder itself. -/
def replacement (written : List Char) (name : String) : List Char :=
  ((lookup name).map String.toList).getD written

theorem expand_of_not_mem (h : '\x7b' ∉ front) : expand lookup front = front := by
  simp [expand, List.splitOn_eq_singleton h]

/-- A template may be cut in front of any opening brace. -/
theorem expand_append_brace (front back : List Char) :
    expand lookup (front ++ '\x7b' :: back) =
      expand lookup front ++ expand lookup ('\x7b' :: back) := by
  have hback : ('\x7b' :: back).splitOn '\x7b' = [] :: back.splitOn '\x7b' := by
    simp [List.splitOn_cons_eq_if_modifyHead]
  unfold expand
  rw [List.splitOn_append_cons_self, hback]
  cases hpieces : front.splitOn '\x7b' with
  | nil => exact absurd hpieces (List.splitOn_ne_nil _ _)
  | cons first pieces => simp

/-- What is shown of the beginning of a template does not depend on what comes behind the next
opening brace. -/
theorem expand_append {beginning shown : List Char}
    (h : ∀ near far, rest = near ++ far → '\x7b' ∉ near →
      expand lookup (beginning ++ near) = shown ++ near) :
    expand lookup (beginning ++ rest) = shown ++ expand lookup rest := by
  by_cases hmem : '\x7b' ∈ rest
  · rcases List.eq_append_cons_of_mem hmem with ⟨near, far, rfl, hnear⟩
    calc expand lookup (beginning ++ (near ++ '\x7b' :: far))
        = expand lookup (beginning ++ near) ++ expand lookup ('\x7b' :: far) := by
          rw [← List.append_assoc, expand_append_brace]
      _ = shown ++ near ++ expand lookup ('\x7b' :: far) := by rw [h near _ rfl hnear]
      _ = shown ++ expand lookup (near ++ '\x7b' :: far) := by
          rw [expand_append_brace, expand_of_not_mem lookup hnear, List.append_assoc]
  · rw [h rest [] (by simp) hmem, expand_of_not_mem lookup hmem]

theorem expand_brace_of_not_mem (h : '\x7b' ∉ rest) :
    expand lookup ('\x7b' :: rest) = expandPiece lookup rest := by
  simp [expand, List.splitOn_cons_eq_if_modifyHead, List.splitOn_eq_singleton h]

/-- A placeholder at the beginning is replaced. -/
theorem expand_placeholder (h : Placeholder written name) (rest : List Char) :
    expand lookup (written ++ rest) = replacement lookup written name ++ expand lookup rest := by
  apply expand_append
  intro near far _ hnear
  rcases h with ⟨inner, hinner, rfl⟩
  have hpiece : '\x7b' ∉ inner ++ '\x7d' :: near := by
    simp [hinner.not_mem_brace.1, hnear]
  have hwritten : '\x7b' :: (inner ++ ['\x7d']) ++ near = '\x7b' :: (inner ++ '\x7d' :: near) := by
    simp
  rw [hwritten, expand_brace_of_not_mem lookup hpiece, expandPiece,
    placeholder?_of_encloses hinner near]
  cases hlookup : lookup name with
  | none => simp [replacement, hlookup]
  | some text => simp [replacement, hlookup]

/-- A character with which no placeholder begins stays as it is. -/
theorem expand_plain (h : ¬ Begins (c :: rest)) :
    expand lookup (c :: rest) = c :: expand lookup rest := by
  have hshown : ∀ near far, rest = near ++ far → '\x7b' ∉ near →
      expand lookup ([c] ++ near) = [c] ++ near := by
    intro near far hrest hnear
    by_cases hc : c = '\x7b'
    · subst hc
      have hnone : placeholder? near = none := by
        rw [Option.eq_none_iff_forall_ne_some]
        rintro ⟨name, behind⟩ hfound
        rcases encloses_of_placeholder? hfound with ⟨inner, hinner, rfl⟩
        exact h ⟨_, name, behind ++ far, ⟨inner, hinner, rfl⟩, by simp [hrest]⟩
      rw [List.singleton_append, expand_brace_of_not_mem lookup hnear, expandPiece, hnone]
    · have hpiece : '\x7b' ∉ [c] ++ near := by simp [Ne.symm hc, hnear]
      exact expand_of_not_mem lookup hpiece
  exact expand_append lookup hshown

/-- A template is empty, or it begins with a placeholder, or it does not and a single character is
passed. -/
theorem scan_induction {motive : List Char → Prop} (nil : motive [])
    (placeholder : ∀ written name rest, Placeholder written name → motive rest →
      motive (written ++ rest))
    (plain : ∀ c rest, ¬ Begins (c :: rest) → motive rest → motive (c :: rest)) :
    ∀ template, motive template := by
  intro template
  induction hlength : template.length using Nat.strong_induction_on generalizing template with
  | _ length ih =>
      subst hlength
      by_cases hbegins : Begins template
      · rcases hbegins with ⟨written, name, rest, hwritten, rfl⟩
        refine placeholder written name rest hwritten (ih rest.length ?_ rest rfl)
        rcases hwritten with ⟨inner, -, rfl⟩
        simp
        omega
      · cases template with
        | nil => exact nil
        | cons c rest => exact plain c rest hbegins (ih rest.length (by simp) rest rfl)

/-! ## Templates in pieces -/

/-- A piece of a template: a character that stands for itself, or a placeholder. -/
inductive Piece
  | plain (c : Char)
  | placeholder (written : List Char) (name : String)

namespace Piece

def asWritten : Piece → List Char
  | plain c => [c]
  | placeholder written _ => written

def asShown (lookup : String → Option String) : Piece → List Char
  | plain c => [c]
  | placeholder written name => replacement lookup written name

end Piece

/-- The pieces of a template.  One behind the other they are the template, and the placeholders
among them are those that occur in it, each at its place. -/
structure Cut (template : List Char) (pieces : List Piece) : Prop where
  joined : pieces.flatMap Piece.asWritten = template
  occurs_iff : ∀ front written name back, Occurs template front written name back ↔
    ∃ earlier later, pieces = earlier ++ .placeholder written name :: later ∧
      earlier.flatMap Piece.asWritten = front ∧ later.flatMap Piece.asWritten = back

namespace Cut

variable {pieces : List Piece}

theorem nil : Cut [] [] := by
  refine ⟨rfl, ?_⟩
  intro front written name back
  constructor
  · rintro ⟨⟨inner, -, rfl⟩, h⟩
    simp at h
  · rintro ⟨earlier, later, h, -⟩
    simp at h

theorem placeholder (hwritten : Placeholder written name) (hrest : Cut rest pieces) :
    Cut (written ++ rest) (.placeholder written name :: pieces) := by
  refine ⟨by simp [Piece.asWritten, hrest.joined], ?_⟩
  intro front other otherName back
  constructor
  · rintro ⟨hother, h⟩
    -- Another placeholder stands behind the first one, so it is found in the rest.
    rcases hwritten.same_or_behind hother h with ⟨rfl, rfl, rfl, rfl⟩ | ⟨between, rfl, hbetween⟩
    · exact ⟨[], pieces, rfl, rfl, hrest.joined⟩
    · obtain ⟨earlier, later, rfl, hearlier, hlater⟩ :=
        (hrest.occurs_iff between other otherName back).1 ⟨hother, hbetween⟩
      exact ⟨.placeholder written name :: earlier, later, rfl, by simp [Piece.asWritten, hearlier],
        hlater⟩
  · rintro ⟨earlier, later, hpieces, rfl, rfl⟩
    cases earlier with
    | nil =>
        cases hpieces
        exact ⟨hwritten, by simp [hrest.joined]⟩
    | cons first earlier =>
        obtain ⟨rfl, htail⟩ := List.cons.inj hpieces
        obtain ⟨hother, hsplit⟩ := (hrest.occurs_iff _ _ _ _).2 ⟨earlier, later, htail, rfl, rfl⟩
        exact ⟨hother, by simp [Piece.asWritten, hsplit]⟩

theorem plain (hnone : ¬ Begins (c :: rest)) (hrest : Cut rest pieces) :
    Cut (c :: rest) (.plain c :: pieces) := by
  refine ⟨by simp [Piece.asWritten, hrest.joined], ?_⟩
  intro front other otherName back
  constructor
  · rintro ⟨hother, h⟩
    cases front with
    | nil => exact absurd ⟨other, otherName, back, hother, h⟩ hnone
    | cons first front =>
        obtain ⟨rfl, htail⟩ := List.cons.inj h
        obtain ⟨earlier, later, rfl, hearlier, hlater⟩ :=
          (hrest.occurs_iff front other otherName back).1 ⟨hother, htail⟩
        exact ⟨.plain c :: earlier, later, rfl, by simp [Piece.asWritten, hearlier], hlater⟩
  · rintro ⟨earlier, later, hpieces, rfl, rfl⟩
    cases earlier with
    | nil => cases hpieces
    | cons first earlier =>
        obtain ⟨rfl, htail⟩ := List.cons.inj hpieces
        obtain ⟨hother, hsplit⟩ := (hrest.occurs_iff _ _ _ _).2 ⟨earlier, later, htail, rfl, rfl⟩
        exact ⟨hother, by simp [Piece.asWritten, hsplit]⟩

end Cut

/-- Every template can be cut up, and each piece is shown by itself. -/
theorem exists_cut (template : List Char) :
    ∃ pieces, Cut template pieces ∧
      expand lookup template = pieces.flatMap (Piece.asShown lookup) := by
  induction template using scan_induction with
  | nil => exact ⟨[], Cut.nil, expand_of_not_mem lookup List.not_mem_nil⟩
  | placeholder written name rest hwritten ih =>
      rcases ih with ⟨pieces, hcut, hshown⟩
      refine ⟨_, hcut.placeholder hwritten, ?_⟩
      rw [expand_placeholder lookup hwritten, hshown]
      rfl
  | plain c rest hnone ih =>
      rcases ih with ⟨pieces, hcut, hshown⟩
      refine ⟨_, hcut.plain hnone, ?_⟩
      rw [expand_plain lookup hnone, hshown]
      rfl

/-! ## Templates one behind the other -/

/-- Every opening brace is followed by a closing one. -/
def Closed (template : List Char) : Prop :=
  ∀ front back, template = front ++ '\x7b' :: back → '\x7d' ∈ back

theorem closed_iff {template : List Char} :
    Closed template ↔
      ∀ tail ∈ template.tails, tail.head? = some '\x7b' → '\x7d' ∈ tail.tail := by
  constructor
  · rintro h tail htail hhead
    rcases List.head?_eq_some_iff.1 hhead with ⟨back, rfl⟩
    rcases (List.mem_tails _ _).1 htail with ⟨front, hfront⟩
    exact h front back hfront.symm
  · intro h front back hsplit
    exact h ('\x7b' :: back) ((List.mem_tails _ _).2 ⟨front, hsplit.symm⟩) rfl

instance : DecidablePred Closed := fun _ => decidable_of_iff _ closed_iff.symm

theorem Closed.of_append (h : Closed (front ++ back)) : Closed back := by
  intro before after hback
  exact h (front ++ before) after (by simp [hback])

/-- Where every opening brace is closed, no placeholder reaches into what is added. -/
theorem Begins.of_append (hclosed : Closed (c :: rest)) (h : Begins (c :: rest ++ back)) :
    Begins (c :: rest) := by
  rcases h with ⟨written, name, behind, ⟨inner, hinner, rfl⟩, hsplit⟩
  have hplaces : c :: (rest ++ back) = '\x7b' :: (inner ++ '\x7d' :: behind) := by
    simpa using hsplit
  obtain ⟨rfl, htail⟩ := List.cons.inj hplaces
  have hclosing : '\x7d' ∈ rest := hclosed [] rest rfl
  -- The first closing brace is that of the placeholder, and it is not among what is added.
  rcases List.append_eq_append_iff.1 htail with ⟨beyond, hbeyond, -⟩ | ⟨within, hwithin, hbehind⟩
  · exact absurd (by simp [hbeyond, hclosing]) hinner.not_mem_brace.2
  · cases within with
    | nil => exact absurd (by simpa [hwithin] using hclosing) hinner.not_mem_brace.2
    | cons brace others =>
        cases (List.cons.inj hbehind).1
        exact ⟨_, name, others, ⟨inner, hinner, rfl⟩, by simp [hwithin]⟩

/-- A text in front in which every brace is closed is shown by itself. -/
theorem expand_append_of_closed (front back : List Char) :
    Closed front → expand lookup (front ++ back) = expand lookup front ++ expand lookup back := by
  induction front using scan_induction with
  | nil =>
      intro _
      rw [expand_of_not_mem lookup List.not_mem_nil]
      rfl
  | placeholder written name rest hwritten ih =>
      intro hclosed
      rw [List.append_assoc, expand_placeholder lookup hwritten, ih hclosed.of_append,
        expand_placeholder lookup hwritten, List.append_assoc]
  | plain c rest hnone ih =>
      intro hclosed
      have hnone' : ¬ Begins (c :: (rest ++ back)) := by
        intro hbegins
        exact hnone (hbegins.of_append hclosed)
      have hrest : Closed rest := @Closed.of_append [c] rest hclosed
      rw [List.cons_append, expand_plain lookup hnone', ih hrest, expand_plain lookup hnone]
      rfl

/-- Two placeholders of a template are the same, or one of them ends before the other begins. -/
theorem Occurs.same_or_apart {template rest : List Char}
    (hfirst : Occurs template front written name rest)
    (hsecond : Occurs template other inner otherName back) :
    (front = other ∧ written = inner ∧ name = otherName) ∨
      (∃ between, other = front ++ written ++ between) ∨
      ∃ between, front = other ++ inner ++ between := by
  rcases hfirst with ⟨hwritten, hfront⟩
  rcases hsecond with ⟨hinner, hother⟩
  rcases List.append_eq_append_iff.1 (hfront.symm.trans hother) with
    ⟨middle, rfl, hmiddle⟩ | ⟨middle, rfl, hmiddle⟩
  · rcases hwritten.same_or_behind hinner hmiddle with ⟨rfl, hsame, hname, -⟩ | ⟨between, rfl, -⟩
    · exact Or.inl ⟨by simp, hsame, hname⟩
    · exact Or.inr (Or.inl ⟨between, by simp⟩)
  · rcases hinner.same_or_behind hwritten hmiddle with ⟨rfl, hsame, hname, -⟩ | ⟨between, rfl, -⟩
    · exact Or.inl ⟨by simp, hsame.symm, hname.symm⟩
    · exact Or.inr (Or.inr ⟨between, by simp⟩)

end Narration

namespace Context

open Narration

/-- What a narration shows for a piece of its template: a character itself; for a placeholder the
value at hand, else the variable of its name, else, under the names for it, the value of the
innermost loop, and else the placeholder as it is written. -/
inductive Shows (context : Context) (value : Value) : Piece → List Char → Prop where
  | plain (c : Char) : Shows context value (.plain c) [c]
  | atHand (written : List Char) :
      Shows context value (.placeholder written "value") value.display.toList
  | variable {name : String} {bound : Value} (written : List Char) :
      name ≠ "value" → context.valueOf? name = some bound →
      Shows context value (.placeholder written name) bound.display.toList
  | loop {name : String} {frame : LoopFrame} (written : List Char) :
      name ∈ ["i", "index", "iteration"] → context.valueOf? name = none →
      context.innermost? = some frame →
      Shows context value (.placeholder written name) (formatNumber frame.current).toList
  | unknown {name : String} (written : List Char) :
      name ≠ "value" → context.valueOf? name = none →
      (name ∈ ["i", "index", "iteration"] → context.innermost? = none) →
      Shows context value (.placeholder written name) written

/-- A narration shows for each piece what it should. -/
theorem shows_asShown (context : Context) (value : Value) (piece : Piece) :
    context.Shows value piece (piece.asShown (context.placeholderText? value)) := by
  cases piece with
  | plain c => exact .plain c
  | placeholder written name =>
      have hnames : (decide (name = "i") || decide (name = "index") ||
          decide (name = "iteration")) = decide (name ∈ ["i", "index", "iteration"]) := by
        simp [Bool.or_assoc]
      simp only [Piece.asShown, replacement, placeholderText?, hnames]
      by_cases hvalue : name = "value"
      · subst hvalue
        exact .atHand written
      · cases hbound : context.valueOf? name with
        | some bound => simpa [hvalue] using Shows.variable written hvalue hbound
        | none =>
            by_cases hloop : name ∈ ["i", "index", "iteration"]
            · cases hframe : context.innermost? with
              | some frame =>
                  simpa only [hvalue, hloop, decide_true, if_true, if_false, Option.map_some,
                    Option.getD_some] using Shows.loop written hloop hbound hframe
              | none =>
                  simpa only [hvalue, hloop, decide_true, if_true, if_false, Option.map_none,
                    Option.getD_none] using Shows.unknown written hvalue hbound fun _ => hframe
            · simpa only [hvalue, hloop, decide_false, Bool.false_eq_true, if_false,
                Option.map_none, Option.getD_none] using
                Shows.unknown written hvalue hbound (absurd · hloop)

/-- A narration is its template with every placeholder replaced.  The template is cut into the
placeholders that occur in it and single characters, and the text is what these pieces show, one
behind the other.  No two placeholders overlap.  And what is put behind a template is narrated by
itself if every opening brace of the template is followed by a closing one. -/
theorem narrate_replaces_placeholders (context : Context) (value : Value) (template : String) :
    (∃ pieces texts, Cut template.toList pieces ∧ List.Forall₂ (context.Shows value) pieces texts ∧
      (context.narrate value template).toList = texts.flatten) ∧
    (∀ front written name rest other further otherName back,
      Occurs template.toList front written name rest →
      Occurs template.toList other further otherName back →
      (front = other ∧ written = further ∧ name = otherName) ∨
        (∃ between, other = front ++ written ++ between) ∨
        ∃ between, front = other ++ further ++ between) ∧
    ∀ behind : String, Closed template.toList →
      context.narrate value (template ++ behind) =
        context.narrate value template ++ context.narrate value behind := by
  refine ⟨?_, ?_, ?_⟩
  · rcases exists_cut (context.placeholderText? value) template.toList with ⟨pieces, hcut, hshown⟩
    refine ⟨pieces, pieces.map (Piece.asShown (context.placeholderText? value)), hcut, ?_, ?_⟩
    · rw [List.forall₂_map_right_iff, List.forall₂_same]
      intro piece _
      exact context.shows_asShown value piece
    · rw [narrate, String.toList_ofList, hshown, List.flatMap_def]
  · intro front written name rest other further otherName back hfirst hsecond
    exact hfirst.same_or_apart hsecond
  · intro behind hclosed
    simp only [narrate, String.toList_append]
    rw [expand_append_of_closed _ _ _ hclosed, String.ofList_append]

/-- A brace, a placeholder behind it, and another one right behind that. -/
def bracedTemplate : String := "\x7b\x7b x \x7d\x7bvalue\x7d"

/-- The brace in front stays, both placeholders are replaced, and the open brace in what is put
behind them does not matter. -/
theorem narrate_replaces_placeholders_braces :
    Occurs bracedTemplate.toList ['\x7b'] "\x7b x \x7d".toList "x" "\x7bvalue\x7d".toList ∧
      Occurs bracedTemplate.toList "\x7b\x7b x \x7d".toList "\x7bvalue\x7d".toList "value" [] ∧
      Closed bracedTemplate.toList ∧
      (∃ pieces texts, Cut bracedTemplate.toList pieces ∧
        List.Forall₂ (Shows { array := #[], bindings := .ofList [("x", .number 7.0)] } (.bool true))
          pieces texts ∧ texts.flatten = "\x7b7true".toList) ∧
      narrate { array := #[], bindings := .ofList [("x", .number 7.0)] } (.bool true)
        (bracedTemplate ++ "\x7bi") = "\x7b7true\x7bi" := by
  obtain ⟨⟨pieces, texts, hcut, hshows, htexts⟩, -, hbehind⟩ := narrate_replaces_placeholders
    { array := #[], bindings := .ofList [("x", .number 7.0)] } (.bool true) bracedTemplate
  have hvariable : Placeholder "\x7b x \x7d".toList "x" := placeholder_iff.2 (by decide +kernel)
  have hvalue : Placeholder "\x7bvalue\x7d".toList "value" := placeholder_iff.2 (by decide +kernel)
  have hclosed : Closed bracedTemplate.toList := by decide +kernel
  refine ⟨⟨hvariable, rfl⟩, ⟨hvalue, rfl⟩, hclosed, ⟨pieces, texts, hcut, hshows, ?_⟩, ?_⟩
  · rw [← htexts]
    decide +kernel
  · rw [hbehind "\x7bi" hclosed]
    decide +kernel

end Context
end FlowTrace
