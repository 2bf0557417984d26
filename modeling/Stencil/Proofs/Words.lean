import Stencil.Proofs.Scanning

/-! # Operators, names and numbers

What the scan makes of the spelling of an operator, of the path of an identifier and of the digits
of a number, as long as none of their characters opens a literal: `feed_symbol`, `feed_path` and
`feed_numeral`. A character that cannot go on with such a piece ends it as the end of the text
does, `endsAt_of_free`; a blank character always does, `offer_blank`.
-/

namespace Stencil

namespace Operator

theorem beginsSymbol_of_append {front rest : String}
    (begins : beginsSymbol (front ++ rest) = true) : beginsSymbol front = true := by
  rw [beginsSymbol, List.any_eq_true] at begins ⊢
  obtain ⟨operator, listed, isPrefix⟩ := begins
  refine ⟨operator, listed, ?_⟩
  rw [List.isPrefixOf_iff_prefix, String.toList_append] at isPrefix
  exact List.isPrefixOf_iff_prefix.mpr ((List.prefix_append _ _).trans isPrefix)

@[simp] theorem beginsSymbol_symbol (operator : Operator) :
    beginsSymbol operator.symbol = true := by
  rw [beginsSymbol, List.any_eq_true]
  exact ⟨operator, mem_all operator, List.isPrefixOf_iff_prefix.mpr (List.prefix_refl _)⟩

theorem symbol_of_ofSymbol? {text : String} {operator : Operator}
    (found : ofSymbol? text = some operator) : operator.symbol = text := by
  simpa using List.find?_some found

theorem ofSymbol?_of_not_beginsSymbol {text : String} (never : beginsSymbol text = false) :
    ofSymbol? text = none := by
  cases found : ofSymbol? text with
  | none => rfl
  | some operator =>
    rw [← symbol_of_ofSymbol? found, beginsSymbol_symbol] at never
    cases never

/-- A character of no spelling begins none. -/
theorem not_beginsSymbol_of_mem {c : Char} {text : String}
    (foreign : ∀ operator ∈ all, c ∉ operator.symbol.toList) (member : c ∈ text.toList) :
    beginsSymbol text = false := by
  rw [Bool.eq_false_iff]
  intro begins
  have found := Lexeme.exists_symbol_of_beginsSymbol begins member
  simp only [List.any_eq_true, List.contains_iff_mem] at found
  obtain ⟨operator, listed, inside⟩ := found
  exact foreign operator listed inside

theorem not_beginsSymbol_push_point (text : String) : beginsSymbol (text.push '.') = false :=
  not_beginsSymbol_of_mem (by decide) (c := '.') (by simp)

/-- A check of the characters of all spellings. -/
theorem forall_symbol {p : Char → Bool}
    (checked : (all.all fun operator => operator.symbol.toList.all p) = true)
    (operator : Operator) : ∀ c ∈ operator.symbol.toList, p c = true :=
  List.all_eq_true.mp (List.all_eq_true.mp checked operator (mem_all operator))

private theorem not_beginsSymbol_of_isDigit {c : Char} (digit : c.isDigit = true) :
    beginsSymbol c.toString = false := by
  refine not_beginsSymbol_of_mem (fun operator _ inside => ?_) (show c ∈ _ by simp)
  have noDigit := forall_symbol (p := fun c => !c.isDigit) (by decide) operator c inside
  rw [digit] at noDigit
  cases noDigit

theorem not_beginsSymbol_of_isBlank {c : Char} {text : String} (blank : Text.isBlank c = true)
    (member : c ∈ text.toList) : beginsSymbol text = false := by
  refine not_beginsSymbol_of_mem (fun operator _ inside => ?_) member
  have visible := forall_symbol (p := fun c => !Text.isBlank c) (by decide) operator c inside
  rw [blank] at visible
  cases visible

/-- An operator that is spelled like a name is a word. -/
theorem isWord_of_isName {operator : Operator} (name : Identifier.isName operator.symbol = true) :
    operator.isWord = true := by
  have spelled : ∀ operator ∈ all, Identifier.isName operator.symbol = true →
      operator.isWord = true := by
    decide
  exact spelled operator (mem_all operator) name

end Operator

namespace Identifier

theorem isUpper_iff {c : Char} : c.isUpper = true ↔ 65 ≤ c.toNat ∧ c.toNat ≤ 90 :=
  decide_eq_true_iff

theorem isLower_iff {c : Char} : c.isLower = true ↔ 97 ≤ c.toNat ∧ c.toNat ≤ 122 :=
  Bool.and_eq_true_iff.trans (and_congr decide_eq_true_iff decide_eq_true_iff)

theorem isAlpha_iff {c : Char} : c.isAlpha = true ↔ c.isUpper = true ∨ c.isLower = true :=
  Bool.or_eq_true_iff

/-- The characters of names by their code points. -/
theorem isNameChar_iff {first : Bool} {c : Char} : isNameChar first c = true ↔
    c.toNat = 95 ∨ (65 ≤ c.toNat ∧ c.toNat ≤ 90) ∨ (97 ≤ c.toNat ∧ c.toNat ≤ 122) ∨
      (first = false ∧ 48 ≤ c.toNat ∧ c.toNat ≤ 57) := by
  have underscore : c = '_' ↔ c.toNat = 95 :=
    ⟨fun same => same ▸ rfl, fun same => Char.toNat_inj.mp same⟩
  rw [isNameChar]
  simp only [Bool.or_eq_true, Bool.and_eq_true, Bool.not_eq_true', beq_iff_eq, isAlpha_iff,
    isUpper_iff, isLower_iff, Char.isDigit_iff_toNat, underscore, or_assoc]
  exact Iff.rfl

theorem not_isDigit_of_first {c : Char} (starts : isNameChar true c = true) :
    c.isDigit = false := by
  rw [Bool.eq_false_iff]
  intro digit
  have bounds : 48 ≤ c.toNat ∧ c.toNat ≤ 57 := Char.isDigit_iff_toNat.mp digit
  rw [isNameChar_iff] at starts
  simp only [Bool.true_eq_false, false_and, or_false] at starts
  omega

private theorem not_isNameChar_of_isBlank {first : Bool} {c : Char}
    (blank : Text.isBlank c = true) : isNameChar first c = false := by
  rw [Bool.eq_false_iff]
  intro name
  rw [isNameChar_iff] at name
  simp only [Text.isBlank, Text.blankRanges, List.any_cons, List.any_nil, Bool.or_eq_true,
    Bool.and_eq_true, decide_eq_true_eq, Bool.false_eq_true, or_false] at blank
  omega

private theorem not_isDigit_of_isBlank {c : Char} (blank : Text.isBlank c = true) :
    c.isDigit = false := by
  rw [Bool.eq_false_iff]
  intro digit
  have name := Lexeme.isNameChar_of_isDigit digit
  rw [not_isNameChar_of_isBlank blank] at name
  cases name

/-- The characters of a name. -/
theorem isName_iff {text : String} : isName text = true ↔
    ∃ first rest, text.toList = first :: rest ∧ isNameChar true first = true ∧
      ∀ c ∈ rest, isNameChar false c = true := by
  rw [isName, Bool.and_eq_true, Option.isNone_iff_eq_none]
  cases chars : text.toList with
  | nil =>
    rw [String.toList_eq_nil_iff.mp chars]
    simp
  | cons first rest =>
    have filled : text ≠ "" := by
      rintro rfl
      cases chars
    have shape : (misplaced? (first :: rest) = none ↔ isNameChar true first = true ∧
        ∀ c ∈ rest, isNameChar false c = true) := by
      rw [misplaced?]
      by_cases starts : isNameChar true first = true <;> simp [starts]
    rw [shape]
    constructor
    · rintro ⟨-, starts, follows⟩
      exact ⟨first, rest, rfl, starts, follows⟩
    · rintro ⟨_, _, ⟨⟩, starts, follows⟩
      exact ⟨by simpa using filled, starts, follows⟩

theorem isName_push {text : String} (name : isName text = true) (c : Char) :
    isName (text.push c) = isNameChar false c := by
  obtain ⟨first, rest, chars, starts, follows⟩ := isName_iff.mp name
  rw [Bool.eq_iff_iff, isName_iff, String.toList_push, chars]
  constructor
  · rintro ⟨_, _, ⟨⟩, -, all⟩
    exact all c (List.mem_append_right _ (List.mem_singleton_self c))
  · intro last
    refine ⟨first, rest ++ [c], rfl, starts, fun d member => ?_⟩
    rcases List.mem_append.mp member with member | member
    · exact follows d member
    · rw [List.mem_singleton.mp member]
      exact last

private theorem isName_of_append {text : String} {rest : List Char} (nonempty : text ≠ "")
    (name : isName (text ++ String.ofList rest) = true) : isName text = true := by
  obtain ⟨first, others, chars, starts, follows⟩ := isName_iff.mp name
  obtain ⟨head, tail, split⟩ := List.exists_cons_of_ne_nil fun none =>
    nonempty (String.toList_eq_nil_iff.mp none)
  rw [String.toList_append, split, List.cons_append] at chars
  cases chars
  exact isName_iff.mpr ⟨_, tail, split, starts, fun c member =>
    follows c (List.mem_append_left _ member)⟩

theorem isName_of_push {text : String} {c : Char} (nonempty : text ≠ "")
    (name : isName (text.push c) = true) : isName text = true := by
  have whole : text ++ String.ofList [c] = text.push c := by simp
  exact isName_of_append nonempty (by rwa [whole])

theorem not_point_mem_of_isName {text : String} (name : isName text = true) :
    '.' ∉ text.toList := by
  intro member
  have := Lexeme.isNameChar_of_isName name member
  revert this
  decide

/-- The attributes of a path, each behind a point. -/
def attributesText (attributes : List String) : List Char :=
  attributes.flatMap fun name => '.' :: name.toList

theorem toList_toText (path : Identifier) :
    path.toText.toList = path.name.toList ++ attributesText path.attributes := by
  rw [toText, segments, String.toList_intercalate, List.map_cons, attributesText]
  generalize path.name.toList = first
  induction path.attributes generalizing first with
  | nil => simp
  | cons name rest ih =>
    rw [List.map_cons, List.intercalate_cons_cons, ih, List.flatMap_cons]
    simp

/-- A path of names reads back. -/
theorem ofPath_toText {path : Identifier} (names : ∀ name ∈ path.segments, isName name = true) :
    ofPath path.toText = .ok path := by
  have split : path.toText.toList.splitOn '.' = path.segments.map String.toList := by
    rw [toText, String.toList_intercalate]
    refine List.splitOn_intercalate '.' (fun segment member => ?_) (by simp [segments])
    obtain ⟨name, listed, rfl⟩ := List.mem_map.mp member
    exact not_point_mem_of_isName (names name listed)
  have faultless : (path.segments.map String.toList).reverse.findSome?
      (segmentFault? path.toText) = none := by
    rw [List.findSome?_eq_none_iff]
    intro segment member
    obtain ⟨name, listed, rfl⟩ := List.mem_map.mp (List.mem_reverse.mp member)
    have isName := names name listed
    rw [Identifier.isName, Bool.and_eq_true, Option.isNone_iff_eq_none] at isName
    have filled : ¬ name.toList.isEmpty = true := by simpa using isName.1
    rw [segmentFault?, if_neg filled, isName.2]
    rfl
  have same : (path.segments.map String.toList).map String.ofList = path.segments := by
    simp
  rw [ofPath, split, faultless, same]
  rfl

end Identifier

namespace Lexeme

variable {delimiters : Delimiters}

section Spelled

theorem begin_of_find?_eq_none {c : Char} (free : delimiters.find? c = none) (position : Nat) :
    begin delimiters position c =
      if Operator.beginsSymbol c.toString then .ok (.operator c.toString position)
      else if c.isDigit then .ok (.number (.ofDigit c))
      else if Identifier.isNameChar true c then .ok (.word c.toString position)
      else if Text.isBlank c then .ok .nothing
      else .error ((SyntaxFault.unexpectedCharacter c).placed position) := by
  rw [begin, free]

theorem feed_cons_of_offer {position : Nat} {c : Char} {pending next : Pending} {rest : List Char}
    (offered : offer delimiters position c pending = .ok ([], next)) :
    feed delimiters position pending (c :: rest) = feed delimiters (position + 1) next rest := by
  rw [feed_cons, offered, Result.ok_bind]
  exact bind_pure _

theorem offer_of_step {position : Nat} {c : Char} {pending : Pending} {taken : Step}
    (stepped : step delimiters position c pending = .ok taken) (consumed : taken.consumed = true) :
    offer delimiters position c pending = .ok (taken.ended, taken.pending) := by
  rw [offer, stepped, Result.ok_bind, if_pos consumed]
  rfl

theorem offer_nothing {position : Nat} {c : Char} {next : Pending}
    (begun : begin delimiters position c = .ok next) :
    offer delimiters position c .nothing = .ok ([], next) := by
  have stepped : step delimiters position c .nothing = .ok ⟨[], next, true⟩ := by
    rw [step, begun]
    rfl
  exact offer_of_step stepped rfl

theorem append_ofList_cons (text : String) (c : Char) (rest : List Char) :
    text ++ String.ofList (c :: rest) = text.push c ++ String.ofList rest := by
  rw [← String.toList_inj]
  simp

private theorem feed_operator {position start : Nat} {text : String} {rest : List Char}
    (begins : Operator.beginsSymbol (text ++ String.ofList rest) = true) :
    feed delimiters position (.operator text start) rest =
      .ok ([], .operator (text ++ String.ofList rest) start) := by
  induction rest generalizing position text with
  | nil => rw [feed_nil, String.ofList_nil, String.append_empty]
  | cons c rest ih =>
    rw [append_ofList_cons] at begins ⊢
    have goesOn := Operator.beginsSymbol_of_append begins
    have stepped : step delimiters position c (.operator text start) =
        .ok ⟨[], .operator (text.push c) start, true⟩ := by
      rw [step, stepOperator, if_pos goesOn]
    rw [feed_cons_of_offer (offer_of_step stepped rfl)]
    exact ih begins

/-- The spelling of an operator is read as the beginning of an operator. -/
theorem feed_symbol (operator : Operator)
    (free : ∀ c ∈ operator.symbol.toList, delimiters.find? c = none) (position : Nat) :
    feed delimiters position .nothing operator.symbol.toList =
      .ok ([], .operator operator.symbol position) := by
  have begins := Operator.beginsSymbol_symbol operator
  obtain ⟨c, rest, chars⟩ : ∃ c rest, operator.symbol.toList = c :: rest := by
    have nonempty : ∀ operator ∈ Operator.all, operator.symbol.toList ≠ [] := by decide
    exact List.exists_cons_of_ne_nil (nonempty operator (Operator.mem_all operator))
  have split : operator.symbol = c.toString ++ String.ofList rest := by
    rw [← String.toList_inj, chars]
    simp [Char.toString]
  rw [split] at begins
  have begun : begin delimiters position c = .ok (.operator c.toString position) := by
    rw [begin_of_find?_eq_none (free c (chars ▸ List.mem_cons_self ..)),
      if_pos (Operator.beginsSymbol_of_append begins)]
  rw [chars, feed_cons_of_offer (offer_nothing begun), feed_operator begins, ← split]

/-- A name that is being read: the beginning of an operator as long as it can be one. -/
def Pending.ofName (text : String) (start : Nat) : Pending :=
  if Operator.beginsSymbol text then .operator text start else .word text start

private theorem step_word_of_goesOn {position start : Nat} {text : String} {c : Char}
    (free : delimiters.find? c = none)
    (goesOn : c = '.' ∨ Identifier.isNameChar (text.back? == some '.') c = true) :
    step delimiters position c (.word text start) =
      .ok ⟨[], .word (text.push c) start, true⟩ := by
  have notOpening : ¬ (delimiters.find? c).isSome = true := by simp [free]
  rw [step, stepWord, if_neg notOpening, if_pos goesOn]

private theorem step_operator_of_isName {position start : Nat} {text : String} {c : Char}
    (longer : Operator.beginsSymbol (text.push c) = false)
    (name : Identifier.isName (text.push c) = true) (before : Identifier.isName text = true) :
    step delimiters position c (.operator text start) =
      .ok ⟨[], .word (text.push c) start, true⟩ := by
  have ends : ¬ Operator.beginsSymbol (text.push c) = true := by simp [longer]
  rw [step, stepOperator, if_neg ends]
  split
  · next operator found =>
    have word : operator.isWord = true := by
      apply Operator.isWord_of_isName
      rwa [Operator.symbol_of_ofSymbol? found]
    simp only [word, name, Bool.and_self, if_true]
  · rw [if_pos name]

private theorem offer_ofName {position start : Nat} {text : String} {c : Char}
    (free : delimiters.find? c = none) (name : Identifier.isName (text.push c) = true)
    (before : Identifier.isName text = true) :
    offer delimiters position c (.ofName text start) = .ok ([], .ofName (text.push c) start) := by
  rcases longer : Operator.beginsSymbol (text.push c) with _ | _
  · have after : Pending.ofName (text.push c) start = .word (text.push c) start := by
      simp [Pending.ofName, longer]
    rw [after, Pending.ofName]
    split
    · exact offer_of_step (step_operator_of_isName longer name before) rfl
    · have inName : (text.back? == some '.') = false := by
        rw [String.back?_eq, beq_eq_false_iff_ne]
        intro last
        exact Identifier.not_point_mem_of_isName before (List.mem_of_getLast? last)
      refine offer_of_step (step_word_of_goesOn free (.inr ?_)) rfl
      rw [inName]
      rwa [Identifier.isName_push before] at name
  · have begins : Operator.beginsSymbol text = true := by
      apply Operator.beginsSymbol_of_append
      rwa [← String.push_eq_append]
    have stepped : step delimiters position c (.operator text start) =
        .ok ⟨[], .operator (text.push c) start, true⟩ := by
      rw [step, stepOperator, if_pos longer]
    rw [Pending.ofName, Pending.ofName, if_pos begins, if_pos longer]
    exact offer_of_step stepped rfl

private theorem feed_ofName {position start : Nat} {text : String} {rest : List Char}
    (free : ∀ c ∈ rest, delimiters.find? c = none) (before : Identifier.isName text = true)
    (name : Identifier.isName (text ++ String.ofList rest) = true) :
    feed delimiters position (.ofName text start) rest =
      .ok ([], .ofName (text ++ String.ofList rest) start) := by
  induction rest generalizing position text with
  | nil => rw [feed_nil, String.ofList_nil, String.append_empty]
  | cons c rest ih =>
    rw [append_ofList_cons] at name ⊢
    have goesOn : Identifier.isName (text.push c) = true :=
      Identifier.isName_of_append String.push_ne_empty name
    rw [feed_cons_of_offer (offer_ofName (free c List.mem_cons_self) goesOn before)]
    exact ih (fun d member => free d (List.mem_cons_of_mem c member)) goesOn name

private theorem begin_name {position : Nat} {c : Char} (free : delimiters.find? c = none)
    (starts : Identifier.isNameChar true c = true) :
    begin delimiters position c = .ok (.ofName c.toString position) := by
  rw [begin_of_find?_eq_none free, Pending.ofName]
  split
  · rfl
  · have noDigit : ¬ c.isDigit = true := by
      rw [Identifier.not_isDigit_of_first starts]
      exact Bool.false_ne_true
    rw [if_neg noDigit]

/-- A name is read as a word, or as the beginning of an operator if it can be one. -/
theorem feed_name {text : String} (free : ∀ c ∈ text.toList, delimiters.find? c = none)
    (name : Identifier.isName text = true) (position : Nat) :
    feed delimiters position .nothing text.toList = .ok ([], .ofName text position) := by
  obtain ⟨c, rest, chars, starts, -⟩ := Identifier.isName_iff.mp name
  have split : text = c.toString ++ String.ofList rest := by
    rw [← String.toList_inj, chars]
    simp [Char.toString]
  rw [chars] at free ⊢
  rw [split] at name ⊢
  have single : Identifier.isName c.toString = true :=
    Identifier.isName_of_append (by simp) name
  rw [feed_cons_of_offer (offer_nothing (begin_name (free c List.mem_cons_self) starts))]
  exact feed_ofName (fun d member => free d (List.mem_cons_of_mem c member)) single name

end Spelled

section Paths

@[simp] theorem back?_push (text : String) (c : Char) : (text.push c).back? = some c := by
  rw [String.back?_eq, String.toList_push, List.getLast?_append, List.getLast?_singleton]
  rfl

private theorem feed_word {position start : Nat} {text : String} {rest : List Char}
    (free : ∀ c ∈ rest, delimiters.find? c = none) (inside : text.back? ≠ some '.')
    (follows : ∀ c ∈ rest, Identifier.isNameChar false c = true) :
    feed delimiters position (.word text start) rest =
      .ok ([], .word (text ++ String.ofList rest) start) := by
  induction rest generalizing position text with
  | nil => rw [feed_nil, String.ofList_nil, String.append_empty]
  | cons c rest ih =>
    have goesOn : Identifier.isNameChar (text.back? == some '.') c = true := by
      rw [beq_eq_false_iff_ne.mpr inside]
      exact follows c List.mem_cons_self
    have stays : (text.push c).back? ≠ some '.' := by
      rw [back?_push]
      rintro ⟨⟩
      exact absurd (follows '.' List.mem_cons_self) (by decide)
    have stepped : step delimiters position c (.word text start) =
        .ok ⟨[], .word (text.push c) start, true⟩ :=
      step_word_of_goesOn (free c List.mem_cons_self) (.inr goesOn)
    rw [append_ofList_cons, feed_cons_of_offer (offer_of_step stepped rfl)]
    exact ih (fun d member => free d (List.mem_cons_of_mem c member)) stays
      fun d member => follows d (List.mem_cons_of_mem c member)

/-- A name behind a point is an attribute. -/
private theorem feed_attribute {position start : Nat} {text name : String}
    (free : ∀ c ∈ name.toList, delimiters.find? c = none)
    (isName : Identifier.isName name = true) :
    feed delimiters position (.word (text.push '.') start) name.toList =
      .ok ([], .word (text.push '.' ++ name) start) := by
  obtain ⟨c, rest, chars, starts, follows⟩ := Identifier.isName_iff.mp isName
  have split : name = String.ofList (c :: rest) := by rw [← chars, String.ofList_toList]
  rw [chars] at free ⊢
  have behindPoint : Identifier.isNameChar ((text.push '.').back? == some '.') c = true := by
    rw [back?_push, beq_self_eq_true]
    exact starts
  have inside : ((text.push '.').push c).back? ≠ some '.' := by
    rw [back?_push]
    rintro ⟨⟩
    exact absurd starts (by decide)
  have stepped : step delimiters position c (.word (text.push '.') start) =
      .ok ⟨[], .word ((text.push '.').push c) start, true⟩ :=
    step_word_of_goesOn (free c List.mem_cons_self) (.inr behindPoint)
  rw [split, append_ofList_cons, feed_cons_of_offer (offer_of_step stepped rfl)]
  exact feed_word (fun d member => free d (List.mem_cons_of_mem c member)) inside follows

private theorem feed_attributes {position start : Nat} {text : String} {attributes : List String}
    (point : delimiters.find? '.' = none)
    (free : ∀ name ∈ attributes, ∀ c ∈ name.toList, delimiters.find? c = none)
    (names : ∀ name ∈ attributes, Identifier.isName name = true) :
    feed delimiters position (.word text start) (Identifier.attributesText attributes) =
      .ok ([], .word (text ++ String.ofList (Identifier.attributesText attributes)) start) := by
  induction attributes generalizing position text with
  | nil =>
    rw [Identifier.attributesText, List.flatMap_nil, feed_nil, String.ofList_nil,
      String.append_empty]
  | cons name rest ih =>
    have stepped : step delimiters position '.' (.word text start) =
        .ok ⟨[], .word (text.push '.') start, true⟩ :=
      step_word_of_goesOn point (.inl rfl)
    have split : text ++ String.ofList (Identifier.attributesText (name :: rest)) =
        text.push '.' ++ name ++ String.ofList (Identifier.attributesText rest) := by
      rw [← String.toList_inj]
      simp [Identifier.attributesText]
    rw [split, Identifier.attributesText, List.flatMap_cons, List.cons_append,
      feed_cons_of_offer (offer_of_step stepped rfl), feed_append,
      feed_attribute (free name List.mem_cons_self) (names name List.mem_cons_self),
      Result.ok_bind, ← Identifier.attributesText,
      ih (fun other member => free other (List.mem_cons_of_mem name member))
        fun other member => names other (List.mem_cons_of_mem name member)]
    rfl

private theorem offer_point_ofName {position start : Nat} {name : String}
    (point : delimiters.find? '.' = none) (isName : Identifier.isName name = true)
    (noOperator : Operator.ofSymbol? name = none) :
    offer delimiters position '.' (.ofName name start) = .ok ([], .word (name.push '.') start) := by
  have asWord : step delimiters position '.' (.word name start) =
      .ok ⟨[], .word (name.push '.') start, true⟩ :=
    step_word_of_goesOn point (.inl rfl)
  rw [Pending.ofName]
  split
  · have noName : ¬ Identifier.isName (name.push '.') = true := by
      rw [Identifier.isName_push isName]
      decide
    have asOperator : step delimiters position '.' (.operator name start) =
        .ok ⟨[], .word name start, false⟩ := by
      rw [step, stepOperator, Operator.not_beginsSymbol_push_point, noOperator]
      simp only [Bool.false_eq_true, if_false, noName, isName, if_true]
    rw [offer, asOperator, Result.ok_bind, asWord]
    rfl
  · exact offer_of_step asWord rfl

/-- A path whose first name is no operator is read as an identifier. -/
theorem feed_path {path : Identifier} (point : delimiters.find? '.' = none)
    (free : ∀ name ∈ path.segments, ∀ c ∈ name.toList, delimiters.find? c = none)
    (names : ∀ name ∈ path.segments, Identifier.isName name = true)
    (noOperator : Operator.ofSymbol? path.name = none) (position : Nat) :
    ∃ last, feed delimiters position .nothing path.toText.toList = .ok ([], last) ∧
      finish last = .ok [.token (.identifier path)] := by
  have first : path.name ∈ path.segments := List.mem_cons_self
  have begun := feed_name (free path.name first) (names path.name first) position
  have word : ofWord path.toText position = .ok (.token (.identifier path)) := by
    rw [ofWord, Identifier.ofPath_toText names]
  rw [Identifier.toList_toText, feed_append, begun, Result.ok_bind]
  cases others : path.attributes with
  | nil =>
    have single : path.toText = path.name := by
      rw [← String.toList_inj, Identifier.toList_toText, others]
      simp [Identifier.attributesText]
    rw [single] at word
    refine ⟨.ofName path.name position, rfl, ?_⟩
    rw [Pending.ofName]
    split
    · rw [finish, noOperator, names path.name first, word]
      rfl
    · rw [finish, word]
      rfl
  | cons name rest =>
    have later : ∀ name ∈ path.attributes, name ∈ path.segments :=
      fun _ member => List.mem_cons_of_mem _ member
    have asWord : step delimiters (position + path.name.toList.length) '.'
        (.word path.name position) = .ok ⟨[], .word (path.name.push '.') position, true⟩ :=
      step_word_of_goesOn point (.inl rfl)
    have sameAsWord : feed delimiters (position + path.name.toList.length)
          (.ofName path.name position) (Identifier.attributesText path.attributes) =
        feed delimiters (position + path.name.toList.length)
          (.word path.name position) (Identifier.attributesText path.attributes) := by
      rw [others, Identifier.attributesText, List.flatMap_cons, List.cons_append, feed_cons,
        feed_cons, offer_point_ofName point (names path.name first) noOperator,
        offer_of_step asWord rfl]
    have whole : path.name ++ String.ofList (Identifier.attributesText path.attributes) =
        path.toText := by
      rw [← String.toList_inj, Identifier.toList_toText]
      simp
    refine ⟨.word path.toText position, ?_, ?_⟩
    · rw [← others, sameAsWord,
        feed_attributes point (fun name member => free name (later name member))
          fun name member => names name (later name member), whole]
      rfl
    · rw [finish, word]
      rfl

end Paths

section Numbers

private theorem feed_number {position : Nat} {numeral longer : Decimal.Numeral} {rest : List Char}
    (free : ∀ c ∈ rest, delimiters.find? c = none)
    (pushed : rest.foldlM Decimal.Numeral.push? numeral = some longer) :
    feed delimiters position (.number numeral) rest = .ok ([], .number longer) := by
  induction rest generalizing position numeral with
  | nil =>
    cases pushed
    rfl
  | cons c rest ih =>
    rw [List.foldlM_cons] at pushed
    obtain ⟨next, pushedHere, pushedLater⟩ := Option.bind_eq_some_iff.mp pushed
    have notOpening : ¬ (delimiters.find? c).isSome = true := by
      simp [free c List.mem_cons_self]
    have stepped : step delimiters position c (.number numeral) =
        .ok ⟨[], .number next, true⟩ := by
      rw [step, stepNumber, if_neg notOpening, pushedHere]
    rw [feed_cons_of_offer (offer_of_step stepped rfl)]
    exact ih (fun d member => free d (List.mem_cons_of_mem c member)) pushedLater

/-- Digits with at most one point are read as a number. -/
theorem feed_numeral {text : List Char} {numeral : Decimal.Numeral}
    (free : ∀ c ∈ text, delimiters.find? c = none)
    (read : Decimal.Numeral.ofDigits? text = some numeral) (position : Nat) :
    feed delimiters position .nothing text = .ok ([], .number numeral) := by
  cases text with
  | nil => cases read
  | cons c rest =>
    rw [Decimal.Numeral.ofDigits?] at read
    split at read
    · next digit =>
      have begun : begin delimiters position c = .ok (.number (.ofDigit c)) := by
        rw [begin_of_find?_eq_none (free c List.mem_cons_self),
          Operator.not_beginsSymbol_of_isDigit digit, if_neg Bool.false_ne_true, if_pos digit]
      rw [feed_cons_of_offer (offer_nothing begun)]
      exact feed_number (fun d member => free d (List.mem_cons_of_mem c member)) read
    · cases read

end Numbers

/-- A character ends a piece as the end of the text does, and the next piece starts with it. -/
def Pending.EndsAt (delimiters : Delimiters) (position : Nat) (c : Char) (pending : Pending) :
    Prop :=
  offer delimiters position c pending =
    finish pending >>= fun ended =>
      begin delimiters position c >>= fun next => .ok (ended, next)

theorem endsAt_nothing (position : Nat) (c : Char) :
    Pending.EndsAt delimiters position c .nothing := by
  rw [Pending.EndsAt, offer, step, finish]
  cases begin delimiters position c <;> rfl

/-- What stands behind a piece that has ended is read as if nothing stood before it. -/
theorem Pending.EndsAt.feed_cons {position : Nat} {c : Char} {pending : Pending}
    (ends : pending.EndsAt delimiters position c) (rest : List Char) :
    feed delimiters position pending (c :: rest) =
      finish pending >>= fun ended =>
        feed delimiters position .nothing (c :: rest) >>= fun later =>
          .ok (ended ++ later.1, later.2) := by
  have alone : offer delimiters position c .nothing =
      begin delimiters position c >>= fun next => .ok ([], next) :=
    endsAt_nothing position c
  rw [EndsAt] at ends
  simp only [Lexeme.feed_cons, ends, alone, bind_assoc, Result.ok_bind, List.nil_append]

/-- A number ends at a character that it cannot grow by. -/
theorem endsAt_number {c : Char} {numeral : Decimal.Numeral} (free : delimiters.find? c = none)
    (ends : numeral.push? c = none) (position : Nat) :
    (Pending.number numeral).EndsAt delimiters position c := by
  have notOpening : ¬ (delimiters.find? c).isSome = true := by simp [free]
  simp only [Pending.EndsAt, offer, step, stepNumber, if_neg notOpening, ends, Result.ok_bind,
    Bool.false_eq_true, if_false, finish]
  cases begin delimiters position c <;> rfl

section Ends

variable {c : Char} (free : delimiters.find? c = none)
  (noName : Identifier.isNameChar false c = false) (noPoint : c ≠ '.')
include free noName noPoint

private theorem step_word_of_ends (position start : Nat) (text : String) :
    step delimiters position c (.word text start) =
      ofWord text start >>= fun lexeme => endWith delimiters position c lexeme := by
  have notOpening : ¬ (delimiters.find? c).isSome = true := by simp [free]
  have ends : ¬ (c = '.' ∨ Identifier.isNameChar (text.back? == some '.') c = true) := by
    rintro (point | name)
    · exact noPoint point
    · rw [isNameChar_of_first name] at noName
      cases noName
  rw [step, stepWord, if_neg notOpening, if_neg ends]

/-- A character that can neither go on with the piece being read nor open a literal ends it. -/
theorem endsAt_of_free {pending : Pending} (plain : pending.isPlain = true)
    (never : ∀ text start, pending = .operator text start →
      Operator.beginsSymbol (text.push c) = false) (position : Nat) :
    pending.EndsAt delimiters position c := by
  cases pending with
  | enclosed => cases plain
  | nothing => exact endsAt_nothing position c
  | operator text start =>
    have noOperator := never text start rfl
    have noLongerName : Identifier.isName (text.push c) = false := by
      rw [Bool.eq_false_iff]
      intro name
      have inName := isNameChar_of_isName name (c := c) (by simp)
      rw [noName] at inName
      cases inName
    simp only [Pending.EndsAt, offer, step, stepOperator, noOperator, finish, noLongerName,
      Bool.and_false, Bool.false_eq_true, if_false, endWith]
    split
    · cases begin delimiters position c <;> rfl
    · split
      · simp only [Result.ok_bind, Bool.false_eq_true, if_false]
        rw [← step, step_word_of_ends free noName noPoint]
        cases ofWord text start with
        | error => rfl
        | ok lexeme =>
          simp only [Result.ok_bind, endWith]
          cases begin delimiters position c <;> rfl
      · rfl
  | word text start =>
    rw [Pending.EndsAt, offer, step_word_of_ends free noName noPoint, finish]
    cases ofWord text start with
    | error => rfl
    | ok lexeme =>
      simp only [Result.ok_bind, endWith]
      cases begin delimiters position c <;> rfl
  | number numeral =>
    have noDigit : ¬ c.isDigit = true := fun digit => by
      rw [isNameChar_of_isDigit digit] at noName
      cases noName
    refine endsAt_number free ?_ position
    rw [Decimal.Numeral.push?, if_neg noDigit, if_neg fun point => noPoint point.1]

end Ends

section Blank

variable {blank : Char} (isBlank : Text.isBlank blank = true)
  (free : delimiters.find? blank = none)
include isBlank free

theorem begin_blank (position : Nat) : begin delimiters position blank = .ok .nothing := by
  rw [begin_of_find?_eq_none free, Operator.not_beginsSymbol_of_isBlank isBlank (by simp),
    Identifier.not_isDigit_of_isBlank isBlank, Identifier.not_isNameChar_of_isBlank isBlank,
    isBlank]
  rfl

theorem endsAt_blank {pending : Pending} (plain : pending.isPlain = true) (position : Nat) :
    pending.EndsAt delimiters position blank := by
  have noPoint : blank ≠ '.' := by
    rintro rfl
    exact absurd isBlank (by decide)
  have never (text : String) : Operator.beginsSymbol (text.push blank) = false :=
    Operator.not_beginsSymbol_of_isBlank isBlank (by simp)
  exact endsAt_of_free free (Identifier.not_isNameChar_of_isBlank isBlank) noPoint plain
    (fun text _ _ => never text) position

/-- A blank character ends the piece being read as the end of the text does. -/
theorem offer_blank {pending : Pending} (plain : pending.isPlain = true) (position : Nat) :
    offer delimiters position blank pending =
      finish pending >>= fun ended => .ok (ended, .nothing) := by
  have ends := endsAt_blank isBlank free plain position
  rw [Pending.EndsAt, begin_blank isBlank free] at ends
  exact ends

end Blank

end Lexeme

end Stencil
