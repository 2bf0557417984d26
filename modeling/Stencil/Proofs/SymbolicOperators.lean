import Stencil.Proofs.Separation
import Stencil.Proofs.Trimming

/-! # Operators made of symbols

No operator holds both characters of names and symbols. A symbol therefore ends every piece that is
no symbol, as the end of the text does, and every character that cannot go on with a symbolic
operator ends that operator. Such an operator needs no blank characters around it,
`Expression.read_around_symbol`, unless another symbolic operator stands beside it.
-/

namespace Stencil

/-- An operator that is not spelled like a name. -/
def Operator.isSymbolic (operator : Operator) : Bool :=
  !operator.isWord

/-- A token that is such an operator. -/
def Token.isSymbolic : Token → Bool
  | .operator op => op.isSymbolic
  | _ => false

example : (Operator.all.filter Operator.isSymbolic).map Operator.symbol =
    ["+", "-", "*", "/", "//", "%", "**", "==", "!=", ">", ">=", "<", "<="] := by
  decide

namespace Operator

/-- A character that can stand in a symbolic operator: it stands in no name, is no point, is not
blank and opens no standard literal. -/
def isSymbolChar (c : Char) : Bool :=
  !Identifier.isNameChar false c && c != '.' && !Text.isBlank c &&
    (Delimiters.standard.find? c).isNone

private theorem isSymbolChar_iff {c : Char} : isSymbolChar c = true ↔
    Identifier.isNameChar false c = false ∧ c ≠ '.' ∧ Text.isBlank c = false ∧
      Delimiters.standard.find? c = none := by
  simp [isSymbolChar, and_assoc]

private theorem isSymbolChar_of_mem {operator : Operator} (symbolic : operator.isSymbolic = true) :
    ∀ c ∈ operator.symbol.toList, isSymbolChar c = true := by
  have checked : (all.all fun operator =>
      !operator.isSymbolic || operator.symbol.toList.all isSymbolChar) = true := by
    decide
  have symbols := List.all_eq_true.mp checked operator (mem_all operator)
  rw [symbolic] at symbols
  exact List.all_eq_true.mp symbols

private theorem isName_of_isWord {operator : Operator} (word : operator.isSymbolic = false) :
    Identifier.isName operator.symbol = true := by
  have checked : ∀ operator ∈ all, operator.isSymbolic = false →
      Identifier.isName operator.symbol = true := by decide
  exact checked operator (mem_all operator) word

/-- The beginning of an operator holds characters of names only or of symbols only. -/
theorem beginsSymbol_cases {text : String} (begins : beginsSymbol text = true) :
    (∀ c ∈ text.toList, Identifier.isNameChar false c = true) ∨
      ∀ c ∈ text.toList, isSymbolChar c = true := by
  rw [beginsSymbol, List.any_eq_true] at begins
  obtain ⟨operator, -, isPrefix⟩ := begins
  have inside := (List.isPrefixOf_iff_prefix.mp isPrefix).subset
  cases symbolic : operator.isSymbolic with
  | true => exact .inr fun c member => isSymbolChar_of_mem symbolic c (inside member)
  | false =>
    have name := isName_of_isWord symbolic
    exact .inl fun c member => Lexeme.isNameChar_of_isName name (inside member)

/-- No operator goes from characters of names to characters of symbols. -/
theorem not_beginsSymbol_push_of_isName {text : String} {c : Char}
    (name : Identifier.isName text = true) (symbol : isSymbolChar c = true) :
    beginsSymbol (text.push c) = false := by
  rw [Bool.eq_false_iff]
  intro begins
  obtain ⟨first, rest, chars, starts, -⟩ := Identifier.isName_iff.mp name
  rcases beginsSymbol_cases begins with names | symbols
  · have inName := names c (by simp)
    rw [(isSymbolChar_iff.mp symbol).1] at inName
    cases inName
  · have inSymbol := symbols first (by simp [chars])
    rw [isSymbolChar_iff, Lexeme.isNameChar_of_first starts] at inSymbol
    cases inSymbol.1

end Operator

namespace Lexeme

open Delimiters Operator

/-- The beginning of a symbolic operator. -/
def IsSymbolText (text : String) : Prop :=
  text ≠ "" ∧ ∀ c ∈ text.toList, isSymbolChar c = true

private theorem IsSymbolText.not_isName {text : String} (symbol : IsSymbolText text) :
    Identifier.isName text = false := by
  rw [Bool.eq_false_iff]
  intro name
  obtain ⟨first, rest, chars, starts, -⟩ := Identifier.isName_iff.mp name
  have inSymbol := symbol.2 first (by simp [chars])
  rw [isSymbolChar_iff, isNameChar_of_first starts] at inSymbol
  cases inSymbol.1

private theorem IsSymbolText.isSymbolic {text : String} {operator : Operator}
    (symbol : IsSymbolText text) (found : ofSymbol? text = some operator) :
    operator.isSymbolic = true := by
  rw [← Bool.not_eq_false]
  intro word
  have name := isName_of_isWord word
  rw [symbol_of_ofSymbol? found, symbol.not_isName] at name
  cases name

private theorem isSymbolText_symbol {operator : Operator} (symbolic : operator.isSymbolic = true) :
    IsSymbolText operator.symbol := by
  refine ⟨?_, isSymbolChar_of_mem symbolic⟩
  have filled : ∀ operator ∈ all, operator.symbol ≠ "" := by decide
  exact filled operator (mem_all operator)

/-- What goes on with the beginning of a symbolic operator is one. -/
theorem IsSymbolText.push {text : String} {c : Char} (symbol : IsSymbolText text)
    (begins : beginsSymbol (text.push c) = true) : IsSymbolText (text.push c) := by
  obtain ⟨filled, symbols⟩ := symbol
  refine ⟨String.push_ne_empty, ?_⟩
  rcases beginsSymbol_cases begins with names | symbols'
  · obtain ⟨first, rest, chars⟩ := List.exists_cons_of_ne_nil fun none =>
      filled (String.toList_eq_nil_iff.mp none)
    have inName := names first (by simp [chars])
    rw [(isSymbolChar_iff.mp (symbols first (by simp [chars]))).1] at inName
    cases inName
  · exact symbols'

private theorem isSymbolText_toString {c : Char} (symbol : isSymbolChar c = true) :
    IsSymbolText c.toString :=
  ⟨by simp, by simpa using symbol⟩

/-- A character that does not go on with a symbolic operator ends it. -/
theorem endsAt_of_symbolic {delimiters : Delimiters} {operator : Operator}
    (symbolic : operator.isSymbolic = true) {c : Char}
    (ends : beginsSymbol (operator.symbol.push c) = false) (position start : Nat) :
    Pending.EndsAt delimiters position c (.operator operator.symbol start) := by
  have noWord : operator.isWord = false := by simpa [isSymbolic] using symbolic
  simp only [Pending.EndsAt, offer, step, stepOperator, ends, ofSymbol?_symbol, noWord,
    Bool.false_and, Bool.false_eq_true, if_false, endWith, finish]
  cases begin delimiters position c <;> rfl

/-- A character goes on with a symbolic operator or ends it. -/
theorem IsSymbolText.offer {delimiters : Delimiters} {position start : Nat} {text : String}
    {c : Char} {ended : List Lexeme} {next : Pending} (symbol : IsSymbolText text)
    (offered : offer delimiters position c (.operator text start) = .ok (ended, next)) :
    (ended = [] ∧ next = .operator (text.push c) start ∧ IsSymbolText (text.push c)) ∨
      ∃ operator, operator.isSymbolic = true ∧ ended = [.token (.operator operator)] := by
  cases begins : beginsSymbol (text.push c) with
  | true =>
    have stepped : step delimiters position c (.operator text start) =
        .ok ⟨[], .operator (text.push c) start, true⟩ := by
      rw [step, stepOperator, if_pos begins]
    rw [offer_of_step stepped rfl] at offered
    cases offered
    exact .inl ⟨rfl, rfl, symbol.push begins⟩
  | false =>
    have noName : Identifier.isName (text.push c) = false := by
      rw [Bool.eq_false_iff]
      intro name
      have shorter := Identifier.isName_of_push symbol.1 name
      rw [symbol.not_isName] at shorter
      cases shorter
    cases found : ofSymbol? text with
    | none =>
      simp only [Lexeme.offer, step, stepOperator, begins, found, noName, symbol.not_isName,
        Bool.false_eq_true, if_false] at offered
      cases offered
    | some operator =>
      obtain rfl := symbol_of_ofSymbol? found
      have symbolic := symbol.isSymbolic found
      have ends : Pending.EndsAt delimiters position c (.operator operator.symbol start) :=
        endsAt_of_symbolic symbolic begins position start
      rw [Pending.EndsAt, finish, found, Result.ok_bind] at ends
      obtain ⟨next, -, same⟩ := Result.bind_eq_ok.mp (ends.symm.trans offered)
      cases same
      exact .inr ⟨operator, symbolic, rfl⟩

/-- What starts with a symbol is read as a symbolic operator. -/
private theorem exists_symbolic_of_feed {delimiters : Delimiters} {position start : Nat}
    {text : String}
    {rest : List Char} {ended lexemes : List Lexeme} {last : Pending} (symbol : IsSymbolText text)
    (fed : feed delimiters position (.operator text start) rest = .ok (ended, last))
    (finished : finish last = .ok lexemes) :
    ∃ operator later, operator.isSymbolic = true ∧
      ended ++ lexemes = .token (.operator operator) :: later := by
  induction rest generalizing position text ended with
  | nil =>
    cases fed
    rw [finish, symbol.not_isName] at finished
    split at finished
    · next operator found =>
      cases finished
      exact ⟨operator, [], symbol.isSymbolic found, rfl⟩
    · cases finished
  | cons c rest ih =>
    obtain ⟨⟨first, next⟩, offered, fed⟩ := Result.bind_eq_ok.mp fed
    obtain ⟨⟨later, last⟩, restFed, same⟩ := Result.bind_eq_ok.mp fed
    cases same
    rcases symbol.offer offered with ⟨rfl, rfl, longer⟩ | ⟨operator, symbolic, rfl⟩
    · exact ih longer restFed
    · exact ⟨operator, later ++ lexemes, symbolic, rfl⟩

/-- A symbol that starts a piece begins an operator. -/
private theorem eq_operator_of_offer {position : Nat} {c : Char} {ended : List Lexeme}
    {next : Pending} (symbol : isSymbolChar c = true)
    (offered : offer standard position c .nothing = .ok (ended, next)) :
    ended = [] ∧ next = .operator c.toString position := by
  obtain ⟨noName, -, visible, free⟩ := isSymbolChar_iff.mp symbol
  have noDigit : ¬ c.isDigit = true := fun digit => by
    rw [isNameChar_of_isDigit digit] at noName
    cases noName
  have noFirst : ¬ Identifier.isNameChar true c = true := fun first => by
    rw [isNameChar_of_first first] at noName
    cases noName
  have alone : Pending.EndsAt standard position c .nothing := endsAt_nothing position c
  rw [Pending.EndsAt, offered] at alone
  replace alone := alone.symm
  rw [finish, Result.ok_bind, begin_of_find?_eq_none free, if_neg noDigit, if_neg noFirst,
    visible, if_neg Bool.false_ne_true] at alone
  split at alone
  · cases alone
    exact ⟨rfl, rfl⟩
  · cases alone

/-- Behind a text that ends with a blank character nothing is being read. -/
private theorem eq_nothing_of_endsBlank {position : Nat} {text : List Char}
    {ended lexemes : List Lexeme} {last : Pending} (blank : Text.EndsBlank text)
    (fed : feed standard position .nothing text = .ok (ended, last))
    (finished : finish last = .ok lexemes) : last = .nothing := by
  rcases List.eq_nil_or_concat text with rfl | ⟨front, c, rfl⟩
  · cases fed
    rfl
  · have isBlank : Text.isBlank c = true := blank c (by simp)
    have free := Expression.find?_standard_of_isBlank isBlank
    rw [List.concat_eq_append, feed_append] at fed
    obtain ⟨⟨first, middle⟩, -, fed⟩ := Result.bind_eq_ok.mp fed
    obtain ⟨⟨later, behind⟩, lastFed, same⟩ := Result.bind_eq_ok.mp fed
    cases same
    obtain ⟨⟨closed, next⟩, offered, lastFed⟩ := Result.bind_eq_ok.mp lastFed
    cases lastFed
    cases middle with
    | nothing | operator | word | number =>
      rw [offer_blank isBlank free rfl] at offered
      obtain ⟨_, -, same⟩ := Result.bind_eq_ok.mp offered
      cases same
      rfl
    | enclosed literal start =>
      rw [offer_enclosed] at offered
      split at offered
      · cases offered
        cases finished
      · cases offered
        rfl
      · cases offered

end Lexeme

namespace Expression

open Delimiters Lexeme Operator

variable {operator : Operator}

/-- The beginning of an operator that a text ends with is a name unless the last token is a symbolic
operator. -/
private theorem isName_of_finish {inner : String → Result Expression} {ended lexemes : List Lexeme}
    {text : String} {start : Nat} {tokens : Expression}
    (finished : finish (.operator text start) = .ok lexemes)
    (lexemesRead : (ended ++ lexemes).mapM (Lexeme.read inner) = .ok tokens)
    (word : ∀ token, tokens.getLast? = some token → token.isSymbolic = false) :
    Identifier.isName text = true := by
  rw [finish] at finished
  split at finished
  · next operator found =>
    cases finished
    rw [List.mapM_append] at lexemesRead
    obtain ⟨earlier, -, lexemesRead⟩ := Result.bind_eq_ok.mp lexemesRead
    obtain ⟨final, finalRead, same⟩ := Result.bind_eq_ok.mp lexemesRead
    cases finalRead
    cases same
    rw [← symbol_of_ofSymbol? found]
    exact isName_of_isWord (word (.operator operator) (by simp))
  · split at finished
    · assumption
    · cases finished

/-- No symbolic operator goes on with the first character of a text that starts with a blank
character or another token. -/
private theorem not_beginsSymbol_push_of_read (symbolic : operator.isSymbolic = true)
    {text : String} {tokens : Expression} (answer : read standard text = .ok tokens)
    (word : Text.StartsBlank text.toList ∨
      ∀ token, tokens.head? = some token → token.isSymbolic = false)
    {c : Char} (head : text.toList.head? = some c) :
    beginsSymbol (operator.symbol.push c) = false := by
  rcases word with blank | word
  · exact not_beginsSymbol_of_isBlank (blank c head) (by simp)
  · rw [Bool.eq_false_iff]
    intro begins
    have symbol : isSymbolChar c = true :=
      ((isSymbolText_symbol symbolic).push begins).2 c (by simp)
    obtain ⟨ended, last, lexemes, fed, finished, -, lexemesRead⟩ := exists_feed_of_read answer
    obtain ⟨rest, chars⟩ := List.head?_eq_some_iff.mp head
    rw [chars] at fed
    obtain ⟨⟨before, next⟩, offered, fed⟩ := Result.bind_eq_ok.mp fed
    obtain ⟨rfl, rfl⟩ := eq_operator_of_offer symbol offered
    obtain ⟨⟨later, behind⟩, fed, same⟩ := Result.bind_eq_ok.mp fed
    cases same
    obtain ⟨first, others, firstSymbolic, all⟩ :=
      exists_symbolic_of_feed (isSymbolText_toString symbol) fed finished
    rw [List.nil_append, all] at lexemesRead
    obtain ⟨_, _, firstRead, -, rfl⟩ := Result.mapM_cons_eq_ok.mp lexemesRead
    cases firstRead
    have notSymbolic := word (.operator first) rfl
    rw [Token.isSymbolic, firstSymbolic] at notSymbolic
    cases notSymbolic

/-- A symbolic operator stands in front of a text that does not start with another one. -/
theorem spells_symbol_append (symbolic : operator.isSymbolic = true) {text : String}
    {tokens : Expression} (answer : read standard text = .ok tokens)
    (word : Text.StartsBlank text.toList ∨
      ∀ token, tokens.head? = some token → token.isSymbolic = false) :
    Spells (operator.symbol.toList ++ text.toList) (.operator operator :: tokens) := by
  refine (spells_operator operator).append (spells_of_read answer) ?_
  intro position ended last lexemes fed _ c head
  rw [feed_symbol operator fun c member =>
    (isSymbolChar_iff.mp (isSymbolChar_of_mem symbolic c member)).2.2.2] at fed
  cases fed
  exact endsAt_of_symbolic symbolic (not_beginsSymbol_push_of_read symbolic answer word head) _ _

/-- A symbol ends what stands last in a text that ends with a blank character or another token than
a symbolic operator. -/
theorem endsAt_symbol {text : String} {tokens : Expression}
    (answer : read standard text = .ok tokens)
    (word : Text.EndsBlank text.toList ∨
      ∀ token, tokens.getLast? = some token → token.isSymbolic = false)
    {position : Nat} {ended : List Lexeme} {last : Pending}
    (fed : feed standard position .nothing text.toList = .ok (ended, last)) {c : Char}
    (symbol : isSymbolChar c = true) (place : Nat) : last.EndsAt standard place c := by
  obtain ⟨again, same, lexemes, fedAgain, finished, lexemesRead⟩ := spells_of_read answer position
  rw [fed] at fedAgain
  cases fedAgain
  obtain ⟨noName, noPoint, -, free⟩ := isSymbolChar_iff.mp symbol
  refine endsAt_of_free free noName noPoint (isPlain_of_finish finished) ?_ place
  rintro front start rfl
  rcases word with blank | word
  · cases eq_nothing_of_endsBlank blank fed finished
  · exact not_beginsSymbol_push_of_isName (isName_of_finish finished lexemesRead word) symbol

/-- Symbolic operators need no blank characters around them: between two texts that are read, of
which the first one does not end and the second one does not start with another symbolic operator,
a symbolic operator is read as itself. -/
theorem read_around_symbol (symbolic : operator.isSymbolic = true) {front rest : String}
    {tokens others : Expression} (frontRead : read standard front = .ok tokens)
    (restRead : read standard rest = .ok others)
    (before : Text.EndsBlank front.toList ∨
      ∀ token, tokens.getLast? = some token → token.isSymbolic = false)
    (behind : Text.StartsBlank rest.toList ∨
      ∀ token, others.head? = some token → token.isSymbolic = false) :
    read standard (front ++ operator.symbol ++ rest) =
      .ok (tokens ++ .operator operator :: others) := by
  apply read_of_spells
  rw [String.toList_append, String.toList_append, List.append_assoc]
  refine (spells_of_read frontRead).append (spells_symbol_append symbolic restRead behind) ?_
  intro position ended last lexemes fed _ c head
  obtain ⟨filled, symbols⟩ := isSymbolText_symbol symbolic
  have member : c ∈ operator.symbol.toList := by
    obtain ⟨first, chars, split⟩ := List.exists_cons_of_ne_nil fun none =>
      filled (String.toList_eq_nil_iff.mp none)
    rw [split] at head ⊢
    cases head
    exact List.mem_cons_self
  exact endsAt_symbol frontRead before fed (symbols c member) _

/-- An operator between the beginning of a word operator and a literal, and two operators with a
space between them. -/
theorem read_around_symbol_division :
    read standard ("no" ++ "//" ++ "'/'") =
        .ok [.identifier ⟨"no", []⟩, .operator (.binary .floorDiv), .str "/"] ∧
      read standard ("2" ++ "**" ++ " /") =
        .ok [.int 2, .operator (.binary .pow), .operator (.binary .div)] := by
  have name : read standard "no" = .ok [.identifier ⟨"no", []⟩] := rfl
  have literal : read standard "'/'" = .ok [.str "/"] := rfl
  have number : read standard "2" = .ok [.int 2] := rfl
  have spaced : read standard " /" = .ok [.operator (.binary .div)] := rfl
  have division : Operator.isSymbolic (.binary .floorDiv) = true := by decide
  have power : Operator.isSymbolic (.binary .pow) = true := by decide
  exact ⟨read_around_symbol division name literal
      (.inr fun token last => by cases last; rfl) (.inr fun token first => by cases first; rfl),
    read_around_symbol power number spaced
      (.inr fun token last => by cases last; rfl) (.inl fun c first => by cases first; decide)⟩

end Expression

end Stencil
