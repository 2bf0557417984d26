import Stencil.Proofs.Words

/-! # Tokens that are read

Not every token is the reading of a text. The names of an identifier are names, the first of them
is not spelled like an operator, integers are not negative, and no item of a list is empty:
`Expression.read_isReadable`.
-/

namespace Stencil

/-- A path of names of which the first is no operator. -/
def Identifier.IsReadable (path : Identifier) : Prop :=
  (∀ name ∈ path.segments, isName name = true) ∧ Operator.ofSymbol? path.name = none

namespace Token

mutual

/-- A token that can be read. -/
def IsReadable : Token → Prop
  | .identifier path => path.IsReadable
  | .operator _ => True
  | .str _ => True
  | .int n => 0 ≤ n.toInt
  | .float _ => True
  | .list items => AreReadableItems items
  | .group tokens => AreReadable tokens

/-- Tokens that can be read. -/
def AreReadable : List Token → Prop
  | [] => True
  | token :: rest => token.IsReadable ∧ AreReadable rest

/-- Items that can be read; there is no empty one. -/
def AreReadableItems : List (List Token) → Prop
  | [] => True
  | item :: rest => (item ≠ [] ∧ AreReadable item) ∧ AreReadableItems rest

end

@[simp] theorem areReadable_iff {tokens : List Token} :
    AreReadable tokens ↔ ∀ token ∈ tokens, token.IsReadable := by
  induction tokens with
  | nil => simp [AreReadable]
  | cons token rest ih => rw [AreReadable, List.forall_mem_cons, ih]

@[simp] theorem areReadableItems_iff {items : List (List Token)} :
    AreReadableItems items ↔ ∀ item ∈ items, item ≠ [] ∧ AreReadable item := by
  induction items with
  | nil => simp [AreReadableItems]
  | cons item rest ih => rw [AreReadableItems, List.forall_mem_cons, ih]

end Token

namespace Identifier

/-- The part of a dotted text in front of its first point, or all of it. -/
def IsFirstName (name text : String) : Prop :=
  '.' ∉ name.toList ∧ (text = name ∨ ∃ rest, text = name.push '.' ++ rest)

private theorem isFirstName_push {name text : String} {c : Char} (first : IsFirstName name text)
    (goesOn : name ≠ text ∨ c = '.') : IsFirstName name (text.push c) ∧ name ≠ text.push c := by
  obtain ⟨noPoint, rfl | ⟨rest, rfl⟩⟩ := first
  · obtain rfl := goesOn.resolve_left (absurd rfl)
    refine ⟨⟨noPoint, .inr ⟨"", by simp⟩⟩, fun same => ?_⟩
    simpa using congrArg String.length same
  · refine ⟨⟨noPoint, .inr ⟨rest.push c, by simp [← String.toList_inj]⟩⟩, fun same => ?_⟩
    have := congrArg String.length same
    simp at this
    omega

/-- A path that is read consists of the parts between the points. -/
theorem segments_of_ofPath {text : String} {path : Identifier} (read : ofPath text = .ok path) :
    path.segments = (text.toList.splitOn '.').map String.ofList ∧
      ∀ segment ∈ text.toList.splitOn '.', segmentFault? text segment = none := by
  simp only [ofPath] at read
  split at read
  · cases read
  · next faultless =>
    rw [List.findSome?_eq_none_iff] at faultless
    split at read
    · cases read
    · next name attributes parts =>
      cases read
      exact ⟨parts.symm, fun segment member => faultless segment (List.mem_reverse.mpr member)⟩

private theorem isName_of_ofPath {text : String} {path : Identifier}
    (read : ofPath text = .ok path) : ∀ name ∈ path.segments, isName name = true := by
  obtain ⟨parts, faultless⟩ := segments_of_ofPath read
  intro name member
  rw [parts] at member
  obtain ⟨segment, listed, rfl⟩ := List.mem_map.mp member
  have sound := faultless segment listed
  rw [segmentFault?] at sound
  split at sound
  · cases sound
  · next filled =>
    have placed : misplaced? segment = none := by simpa using sound
    have nonempty : (String.ofList segment).isEmpty = false := by simpa using filled
    rw [isName, nonempty, String.toList_ofList, placed]
    rfl

private theorem name_of_ofPath {name text : String} {path : Identifier}
    (first : IsFirstName name text) (read : ofPath text = .ok path) : path.name = name := by
  obtain ⟨parts, -⟩ := segments_of_ofPath read
  obtain ⟨noPoint, rfl | ⟨rest, rfl⟩⟩ := first
  · rw [List.splitOn_eq_singleton noPoint, List.map_singleton, String.ofList_toList] at parts
    exact (List.cons.inj parts).1
  · rw [String.toList_append, String.toList_push, List.append_assoc, List.singleton_append,
      List.splitOn_append_cons_self_of_not_mem noPoint, List.map_cons,
      String.ofList_toList] at parts
    exact (List.cons.inj parts).1

/-- A word is read as a path, whose first name is that of the word. -/
theorem isReadable_of_ofPath {name text : String} {path : Identifier}
    (first : IsFirstName name text) (noOperator : Operator.ofSymbol? name = none)
    (read : ofPath text = .ok path) : path.IsReadable := by
  refine ⟨isName_of_ofPath read, ?_⟩
  rw [name_of_ofPath first read]
  exact noOperator

end Identifier

namespace Lexeme

variable {delimiters : Delimiters}

section Readable

/-- A lexeme that gives a readable token, once its inner texts are read. -/
def IsReadable : Lexeme → Prop
  | .token complete => complete.IsReadable
  | .list items => ∀ item ∈ items, Enclosed.isBlankText item = false
  | .group _ => True

/-- A word whose first name is no operator, and cannot become one. -/
def IsWordText (text : String) : Prop :=
  ∃ name, Identifier.IsFirstName name text ∧ Operator.ofSymbol? name = none ∧
    (name = text → Operator.beginsSymbol text = false)

/-- A literal none of whose items so far is blank. -/
def Enclosed.IsReadable : Enclosed → Prop
  | .list _ items _ => ∀ item ∈ items, isBlankText item = false
  | _ => True

/-- An open literal without blank items, or a readable lexeme. -/
def Progress.IsReadable : Progress → Prop
  | .more literal => literal.IsReadable
  | .closed lexeme => lexeme.IsReadable

/-- A piece being read that gives a readable token. -/
def Pending.IsReadable : Pending → Prop
  | .word text _ => IsWordText text
  | .enclosed literal _ => literal.IsReadable
  | _ => True

private theorem isReadable_ofWord {name text : String} {start : Nat} {lexeme : Lexeme}
    (first : Identifier.IsFirstName name text) (noOperator : Operator.ofSymbol? name = none)
    (read : ofWord text start = .ok lexeme) : lexeme.IsReadable := by
  rw [ofWord] at read
  split at read
  · next path found =>
    cases read
    exact Identifier.isReadable_of_ofPath first noOperator found
  · cases read

private theorem isReadable_ofNumeral (numeral : Decimal.Numeral) :
    (ofNumeral numeral).IsReadable := by
  rw [ofNumeral]
  split
  · next fits =>
    rw [Nat.pow_eq] at fits
    have exact64 : (Int64.ofInt numeral.coefficient).toInt = numeral.coefficient :=
      Int64.toInt_ofInt_of_le (by omega) (by omega)
    change 0 ≤ (Int64.ofInt numeral.coefficient).toInt
    omega
  · trivial

private theorem isWordText_of_not_beginsSymbol {text : String} (noPoint : '.' ∉ text.toList)
    (never : Operator.beginsSymbol text = false) : IsWordText text :=
  ⟨text, ⟨noPoint, .inl rfl⟩, Operator.ofSymbol?_of_not_beginsSymbol never, fun _ => never⟩

/-- A word stays one when a name character or a point is added. -/
theorem isWordText_push {name text : String} {c : Char}
    (first : Identifier.IsFirstName name text) (noOperator : Operator.ofSymbol? name = none)
    (closed : name = text → c ≠ '.' → Operator.beginsSymbol text = false) :
    IsWordText (text.push c) := by
  by_cases goesOn : name ≠ text ∨ c = '.'
  · obtain ⟨stillFirst, longer⟩ := Identifier.isFirstName_push first goesOn
    exact ⟨name, stillFirst, noOperator, fun same => absurd same longer⟩
  · rw [not_or, Classical.not_not] at goesOn
    obtain ⟨rfl, noPoint⟩ := goesOn
    have never : Operator.beginsSymbol (name.push c) = false := by
      rw [Bool.eq_false_iff]
      intro begins
      rw [String.push_eq_append] at begins
      rw [Operator.beginsSymbol_of_append begins] at closed
      cases closed rfl noPoint
    refine isWordText_of_not_beginsSymbol ?_ never
    simpa [Ne.symm noPoint] using first.1

private theorem isReadable_begin {position : Nat} {c : Char} {next : Pending}
    (begun : begin delimiters position c = .ok next) : next.IsReadable := by
  rw [begin] at begun
  split at begun
  · next delimiter found =>
    cases begun
    rw [Pending.IsReadable, Enclosed.ofDelimiter]
    split <;> simp [Enclosed.IsReadable]
  · split at begun
    · cases begun
      trivial
    · next never =>
      split at begun
      · cases begun
        trivial
      · split at begun
        · next starts =>
          cases begun
          refine isWordText_of_not_beginsSymbol ?_ (by simpa using never)
          rw [Char.toString_eq_singleton, String.toList_singleton, List.mem_singleton]
          rintro rfl
          exact absurd starts (by decide)
        · split at begun <;> cases begun
          trivial

/-- What a step leaves: readable lexemes and a piece that gives a readable one. Nothing is being
read any more if the character was not consumed. -/
structure Step.IsReadable (taken : Step) : Prop where
  ended : ∀ lexeme ∈ taken.ended, lexeme.IsReadable
  pending : taken.pending.IsReadable
  again : taken.consumed = false → taken.pending = .nothing

private theorem isReadable_endWith {position : Nat} {c : Char} {lexeme : Lexeme} {taken : Step}
    (readable : lexeme.IsReadable) (ended : endWith delimiters position c lexeme = .ok taken) :
    taken.IsReadable := by
  obtain ⟨next, begun, same⟩ := Result.bind_eq_ok.mp ended
  cases same
  exact ⟨by simpa using readable, isReadable_begin begun, by simp⟩

private theorem isReadable_stepWord {position start : Nat} {c : Char} {name text : String}
    {taken : Step}
    (first : Identifier.IsFirstName name text) (noOperator : Operator.ofSymbol? name = none)
    (closed : name = text → Identifier.isNameChar false c = true →
      Operator.beginsSymbol text = false)
    (stepped : stepWord delimiters position c text start = .ok taken) : taken.IsReadable := by
  rw [stepWord] at stepped
  split at stepped
  · cases stepped
  · split at stepped
    · next goesOn =>
      cases stepped
      have word : IsWordText (text.push c) :=
        isWordText_push first noOperator fun same noPoint =>
          closed same (isNameChar_of_first (goesOn.resolve_left noPoint))
      exact ⟨by simp, word, by simp⟩
    · obtain ⟨lexeme, read, ended⟩ := Result.bind_eq_ok.mp stepped
      exact isReadable_endWith (isReadable_ofWord first noOperator read) ended

/-- A name that is no operator ends at a character that is offered to it once more as a word. -/
theorem isReadable_stepOperator {position start : Nat} {c : Char} {text : String} {taken : Step}
    (stepped : stepOperator delimiters position c text start = .ok taken) :
    taken.IsReadable ∨ taken = ⟨[], .word text start, false⟩ ∧ Operator.ofSymbol? text = none ∧
      Identifier.isName text = true ∧ Identifier.isNameChar false c = false := by
  have word (never : ¬ Operator.beginsSymbol (text.push c) = true)
      (name : Identifier.isName (text.push c) = true) : IsWordText (text.push c) :=
    isWordText_of_not_beginsSymbol (Identifier.not_point_mem_of_isName name) (by simpa using never)
  simp only [stepOperator] at stepped
  split at stepped
  · cases stepped
    exact .inl ⟨by simp, trivial, by simp⟩
  · next never =>
    split at stepped
    · split at stepped
      · next goesOn =>
        cases stepped
        rw [Bool.and_eq_true] at goesOn
        exact .inl ⟨by simp, word never goesOn.2, by simp⟩
      · have operatorToken : ∀ operator, (Lexeme.token (.operator operator)).IsReadable :=
          fun _ => trivial
        exact .inl (isReadable_endWith (operatorToken _) stepped)
    · next noOperator =>
      split at stepped
      · next name =>
        cases stepped
        exact .inl ⟨by simp, word never name, by simp⟩
      · next ends =>
        split at stepped <;> cases stepped
        next name =>
        rw [Identifier.isName_push name] at ends
        exact .inr ⟨rfl, noOperator, name, by simpa using ends⟩

private theorem isReadable_push {literal : Enclosed} {c : Char} {progress : Progress}
    (readable : literal.IsReadable) (pushed : literal.push delimiters c = .ok progress) :
    progress.IsReadable := by
  cases literal with
  | quote delimiter text escaped =>
    cases pushed
    rw [Enclosed.pushQuoted]
    repeat' split
    all_goals trivial
  | list delimiter items item =>
    have filled (blank : Enclosed.isBlankText item = false) :
        ∀ other ∈ items ++ [item], Enclosed.isBlankText other = false := by
      intro other member
      rcases List.mem_append.mp member with member | member
      · exact readable other member
      · rwa [List.mem_singleton.mp member]
    rcases Enclosed.pushListed_cases pushed with ⟨rfl, -⟩ | ⟨-, blank, -, rfl⟩ | ⟨-, -, rfl⟩
    · exact readable
    · exact filled blank
    · rw [Progress.IsReadable]
      split
      · exact readable
      · next blank => exact filled (by simpa using blank)
  | group delimiter body =>
    rcases Enclosed.pushGrouped_cases pushed with ⟨rfl, -⟩ | ⟨-, -, rfl⟩ <;> trivial

private theorem isReadable_begun {position : Nat} {c : Char} {taken : Step}
    (stepped : step delimiters position c .nothing = .ok taken) : taken.IsReadable := by
  obtain ⟨next, begun, same⟩ := Result.bind_eq_ok.mp stepped
  cases same
  exact ⟨by simp, isReadable_begin begun, by simp⟩

/-- A step keeps what is read readable, except that a name may be offered the character again. -/
theorem isReadable_step {position : Nat} {c : Char} {pending : Pending} {taken : Step}
    (readable : pending.IsReadable) (stepped : step delimiters position c pending = .ok taken) :
    taken.IsReadable ∨ ∃ text start, taken = ⟨[], .word text start, false⟩ ∧
      Operator.ofSymbol? text = none ∧ Identifier.isName text = true ∧
      Identifier.isNameChar false c = false := by
  cases pending with
  | nothing => exact .inl (isReadable_begun stepped)
  | operator text start =>
    rcases isReadable_stepOperator stepped with done | ⟨same, noOperator, name, ends⟩
    · exact .inl done
    · exact .inr ⟨text, start, same, noOperator, name, ends⟩
  | word text start =>
    obtain ⟨name, first, noOperator, never⟩ := readable
    exact .inl (isReadable_stepWord first noOperator (fun same _ => never same) stepped)
  | number numeral =>
    simp only [step, stepNumber] at stepped
    split at stepped
    · cases stepped
    · split at stepped <;> cases stepped
      · exact .inl ⟨by simp, trivial, by simp⟩
      · exact .inl ⟨by simpa using isReadable_ofNumeral numeral, trivial, fun _ => rfl⟩
  | enclosed literal start =>
    simp only [step, stepEnclosed] at stepped
    split at stepped <;> cases stepped
    · next longer pushed => exact .inl ⟨by simp, isReadable_push readable pushed, by simp⟩
    · next lexeme pushed =>
      have closed : lexeme.IsReadable := isReadable_push readable pushed
      exact .inl ⟨by simpa using closed, trivial, by simp⟩

private theorem isReadable_offer {position : Nat} {c : Char} {pending next : Pending}
    {ended : List Lexeme} (readable : pending.IsReadable)
    (offered : offer delimiters position c pending = .ok (ended, next)) :
    (∀ lexeme ∈ ended, lexeme.IsReadable) ∧ next.IsReadable := by
  obtain ⟨first, stepped, offered⟩ := Result.bind_eq_ok.mp offered
  rcases isReadable_step readable stepped with done | ⟨text, start, rfl, noOperator, name, ends⟩
  · split at offered
    · cases offered
      exact ⟨done.ended, done.pending⟩
    · next given =>
      obtain ⟨second, again, same⟩ := Result.bind_eq_ok.mp offered
      cases same
      rw [done.again (by simpa using given)] at again
      obtain ⟨secondEnded, secondPending, -⟩ := isReadable_begun again
      exact ⟨List.forall_mem_append.mpr ⟨done.ended, secondEnded⟩, secondPending⟩
  · obtain ⟨second, again, same⟩ := Result.bind_eq_ok.mp offered
    cases same
    have first : Identifier.IsFirstName text text :=
      ⟨Identifier.not_point_mem_of_isName name, .inl rfl⟩
    have closed : text = text → Identifier.isNameChar false c = true →
        Operator.beginsSymbol text = false := by
      intro _ goesOn
      rw [ends] at goesOn
      cases goesOn
    obtain ⟨secondEnded, secondPending, -⟩ :=
      isReadable_stepWord first noOperator closed again
    exact ⟨by simpa using secondEnded, secondPending⟩

private theorem isReadable_finish {pending : Pending} {lexemes : List Lexeme}
    (readable : pending.IsReadable) (finished : finish pending = .ok lexemes) :
    ∀ lexeme ∈ lexemes, lexeme.IsReadable := by
  cases pending with
  | nothing =>
    cases finished
    simp
  | operator text start =>
    rw [finish] at finished
    split at finished
    · cases finished
      simp [Lexeme.IsReadable, Token.IsReadable]
    · next noOperator =>
      split at finished
      · next name =>
        obtain ⟨lexeme, read, same⟩ := Result.bind_eq_ok.mp finished
        cases same
        have first : Identifier.IsFirstName text text :=
          ⟨Identifier.not_point_mem_of_isName name, .inl rfl⟩
        simpa using isReadable_ofWord first noOperator read
      · cases finished
  | word text start =>
    obtain ⟨name, first, noOperator, -⟩ := readable
    obtain ⟨lexeme, read, same⟩ := Result.bind_eq_ok.mp finished
    cases same
    simpa using isReadable_ofWord first noOperator read
  | number numeral =>
    cases finished
    simpa using isReadable_ofNumeral numeral
  | enclosed literal start => cases finished

/-- The lexemes of a scan are readable. -/
theorem isReadable_scan {text : String} :
    ∀ lexeme ∈ (scan delimiters text).lexemes, lexeme.IsReadable :=
  forall_mem_scanFrom (fun _ => isReadable_offer) isReadable_finish
    (show Pending.IsReadable .nothing from trivial)

end Readable

section Blank

private theorem isBlank_of_begin {position : Nat} {c : Char}
    (begun : begin delimiters position c = .ok .nothing) : Text.isBlank c = true := by
  rw [begin] at begun
  split at begun
  · cases begun
  · repeat' split at begun
    all_goals first | assumption | cases begun

/-- A step that ends a lexeme or is in the middle of a piece. -/
def Step.IsBusy (taken : Step) : Prop :=
  taken.ended ≠ [] ∨ taken.pending ≠ .nothing

private theorem isBusy_endWith {position : Nat} {c : Char} {lexeme : Lexeme} {taken : Step}
    (ended : endWith delimiters position c lexeme = .ok taken) : taken.IsBusy := by
  obtain ⟨next, -, same⟩ := Result.bind_eq_ok.mp ended
  cases same
  exact .inl (List.cons_ne_nil _ _)

private theorem isBusy_stepWord {position start : Nat} {c : Char} {text : String} {taken : Step}
    (stepped : stepWord delimiters position c text start = .ok taken) : taken.IsBusy := by
  rw [stepWord] at stepped
  split at stepped
  · cases stepped
  · split at stepped
    · cases stepped
      exact .inr fun same => by cases same
    · obtain ⟨lexeme, -, ended⟩ := Result.bind_eq_ok.mp stepped
      exact isBusy_endWith ended

private theorem isBusy_step {position : Nat} {c : Char} {pending : Pending} {taken : Step}
    (busy : pending ≠ .nothing) (stepped : step delimiters position c pending = .ok taken) :
    taken.IsBusy := by
  cases pending with
  | nothing => exact absurd rfl busy
  | operator text start =>
    simp only [step, stepOperator] at stepped
    repeat' split at stepped
    all_goals first | exact isBusy_endWith stepped | cases stepped
    all_goals exact .inr fun same => by cases same
  | word text start => exact isBusy_stepWord stepped
  | number numeral =>
    simp only [step, stepNumber] at stepped
    repeat' split at stepped
    all_goals cases stepped
    · exact .inr fun same => by cases same
    · exact .inl (List.cons_ne_nil _ _)
  | enclosed literal start =>
    simp only [step, stepEnclosed] at stepped
    split at stepped <;> cases stepped
    · exact .inr fun same => by cases same
    · exact .inl (List.cons_ne_nil _ _)

/-- A character that ends nothing and leaves nothing behind is blank and follows nothing. -/
theorem isBlank_of_offer {position : Nat} {c : Char} {pending : Pending}
    (offered : offer delimiters position c pending = .ok ([], .nothing)) :
    pending = .nothing ∧ Text.isBlank c = true := by
  obtain ⟨first, stepped, offered⟩ := Result.bind_eq_ok.mp offered
  by_cases free : pending = .nothing
  · subst free
    obtain ⟨next, begun, same⟩ := Result.bind_eq_ok.mp stepped
    cases same
    cases offered
    exact ⟨rfl, isBlank_of_begin begun⟩
  · exfalso
    have busy := isBusy_step free stepped
    split at offered
    · simp only [pure, Except.pure, Except.ok.injEq, Prod.mk.injEq] at offered
      rcases busy with ended | pending
      · exact ended offered.1
      · exact pending offered.2
    · obtain ⟨second, again, same⟩ := Result.bind_eq_ok.mp offered
      simp only [pure, Except.pure, Except.ok.injEq, Prod.mk.injEq, List.append_eq_nil_iff] at same
      obtain ⟨⟨firstEnded, secondEnded⟩, secondPending⟩ := same
      rcases isBusy_step (busy.resolve_left (absurd firstEnded)) again with ended | pending
      · exact ended secondEnded
      · exact pending secondPending

theorem isBlankText_of_feed {position : Nat} {pending : Pending} {text : List Char}
    (fed : feed delimiters position pending text = .ok ([], .nothing)) :
    pending = .nothing ∧ text.all Text.isBlank = true := by
  induction text generalizing position pending with
  | nil =>
    cases fed
    exact ⟨rfl, rfl⟩
  | cons c rest ih =>
    rw [feed_cons] at fed
    obtain ⟨⟨ended, next⟩, offered, fed⟩ := Result.bind_eq_ok.mp fed
    obtain ⟨⟨later, last⟩, fedRest, same⟩ := Result.bind_eq_ok.mp fed
    simp only [Except.ok.injEq, Prod.mk.injEq, List.append_eq_nil_iff] at same
    obtain ⟨⟨rfl, rfl⟩, rfl⟩ := same
    obtain ⟨rfl, blankRest⟩ := ih fedRest
    obtain ⟨rfl, blank⟩ := isBlank_of_offer offered
    exact ⟨rfl, by rw [List.all_cons, blank, blankRest]; rfl⟩

theorem eq_nothing_of_finish {pending : Pending} (finished : finish pending = .ok []) :
    pending = .nothing := by
  cases pending with
  | nothing => rfl
  | operator text start =>
    rw [finish] at finished
    split at finished
    · cases finished
    · split at finished
      · obtain ⟨_, -, same⟩ := Result.bind_eq_ok.mp finished
        cases same
      · cases finished
  | word text start =>
    obtain ⟨_, -, same⟩ := Result.bind_eq_ok.mp finished
    cases same
  | number numeral => cases finished
  | enclosed literal start => cases finished

end Blank

end Lexeme

namespace Expression

open Lexeme

variable {delimiters : Delimiters}

/-- Only a blank text is read without tokens. -/
theorem isBlankText_of_read {text : String} (answer : read delimiters text = .ok []) :
    Enclosed.isBlankText text = true := by
  obtain ⟨ended, last, lexemes, fed, finished, -, lexemesRead⟩ := exists_feed_of_read answer
  obtain ⟨rfl, rfl⟩ := List.append_eq_nil_iff.mp (Result.eq_nil_of_mapM_eq_ok lexemesRead)
  rw [eq_nothing_of_finish finished] at fed
  exact (isBlankText_of_feed fed).2

/-- Every token that is read from a text is readable. -/
theorem read_isReadable {text : String} {expression : Expression}
    (answer : read delimiters text = .ok expression) :
    ∀ token ∈ expression, token.IsReadable := by
  rw [read_eq] at answer
  obtain ⟨-, lexemesRead⟩ := Scan.read_eq_ok answer
  intro token member
  obtain ⟨lexeme, listed, tokenRead⟩ := Result.exists_of_mem_of_mapM_eq_ok lexemesRead member
  have readable := isReadable_scan lexeme listed
  have shorter : ∀ inner ∈ lexeme.inners, inner.length < text.length :=
    fun inner inside => (isCut_of_mem_scan listed inside).1
  cases lexeme with
  | token complete =>
    cases tokenRead
    exact readable
  | list items =>
    obtain ⟨expressions, itemsRead, same⟩ := Result.bind_eq_ok.mp tokenRead
    cases same
    rw [Token.IsReadable, Token.areReadableItems_iff]
    intro inner inside
    obtain ⟨item, itemListed, itemRead⟩ := Result.exists_of_mem_of_mapM_eq_ok itemsRead inside
    have smaller := shorter item itemListed
    refine ⟨?_, Token.areReadable_iff.mpr (read_isReadable itemRead)⟩
    rintro rfl
    have filled := readable item itemListed
    rw [isBlankText_of_read itemRead] at filled
    cases filled
  | group body =>
    obtain ⟨inner, bodyRead, same⟩ := Result.bind_eq_ok.mp tokenRead
    cases same
    have smaller := shorter body (List.mem_singleton_self body)
    rw [Token.IsReadable, Token.areReadable_iff]
    exact read_isReadable bodyRead
termination_by text.length

end Expression

end Stencil
