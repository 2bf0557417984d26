import Stencil.Proofs.Separation

/-! # Words are read whole

A word is an operator only if it is spelled like one from its first character to its last. What is
the beginning of an operator, or goes on behind one, is an identifier, whatever attributes are
taken from it. No attribute is taken from an operator. All of this is `Expression.read_path`.
-/

namespace Stencil

namespace Operator

/-- The operators that are spelled like names. -/
def words : List String :=
  ["in", "not", "and", "or", "pi", "True", "False", "None"]

/-- A name is the spelling of an operator exactly if it is one of the words. -/
theorem mem_words_iff {name : String} (isName : Identifier.isName name = true) :
    name ∈ words ↔ ∃ operator : Operator, operator.symbol = name := by
  have spelled : ∀ word ∈ words, ∃ operator ∈ all, operator.symbol = word := by decide
  have listed : ∀ operator ∈ all, Identifier.isName operator.symbol = true →
      operator.symbol ∈ words := by decide
  constructor
  · intro word
    obtain ⟨operator, -, same⟩ := spelled name word
    exact ⟨operator, same⟩
  · rintro ⟨operator, rfl⟩
    exact listed operator (mem_all operator) isName

private theorem ofSymbol?_eq_none_iff {name : String} :
    ofSymbol? name = none ↔ ¬∃ operator : Operator, operator.symbol = name := by
  constructor
  · rintro none ⟨operator, rfl⟩
    rw [ofSymbol?_symbol] at none
    cases none
  · intro foreign
    cases found : ofSymbol? name with
    | none => rfl
    | some operator => exact absurd ⟨operator, symbol_of_ofSymbol? found⟩ foreign

end Operator

namespace Lexeme

/-- A point neither goes on with an operator nor starts anything. -/
private theorem offer_point_operator {delimiters : Delimiters} (point : delimiters.find? '.' = none)
    (operator : Operator) (position start : Nat) :
    offer delimiters position '.' (.operator operator.symbol start) =
      .error ((SyntaxFault.unexpectedCharacter '.').placed position) := by
  have noName : Identifier.isName (operator.symbol.push '.') = false := by
    rw [Bool.eq_false_iff]
    intro name
    exact Identifier.not_point_mem_of_isName name (by simp)
  rw [offer, step, stepOperator, Operator.not_beginsSymbol_push_point, Operator.ofSymbol?_symbol]
  simp only [Bool.false_eq_true, if_false, noName, Bool.and_false, endWith,
    begin_of_find?_eq_none point]
  rfl

end Lexeme

namespace Expression

open Lexeme Operator

/-- No attribute is taken from an operator. -/
theorem read_operator_point {path : Identifier} {operator : Operator}
    (same : operator.symbol = path.name) (further : path.attributes ≠ []) :
    read .standard path.toText =
      .error ((SyntaxFault.unexpectedCharacter '.').placed path.name.length) := by
  obtain ⟨first, rest, others⟩ := List.exists_cons_of_ne_nil further
  have fed := feed_symbol operator (find?_standard_of_mem_symbol operator) 0
  rw [same] at fed
  have point : Delimiters.standard.find? '.' = none := by decide
  have fails := offer_point_operator point operator path.name.length 0
  rw [same] at fails
  rw [read_eq, scan, Identifier.toList_toText, scanFrom_append fed, others,
    Identifier.attributesText, List.flatMap_cons, List.cons_append, scanFrom, Nat.zero_add,
    String.length_toList, fails]
  rfl

/-- A path of names is read as a whole: as an operator if it is a single name and a word, as an
identifier if its first name is no word, and not at all if attributes follow a word. -/
theorem read_path (path : Identifier)
    (names : ∀ name ∈ path.segments, Identifier.isName name = true) :
    (path.name ∈ words → path.attributes = [] →
      ∃ operator : Operator, operator.symbol = path.name ∧
        read .standard path.toText = .ok [.operator operator]) ∧
    (path.name ∈ words → path.attributes ≠ [] →
      read .standard path.toText =
        .error ((SyntaxFault.unexpectedCharacter '.').placed path.name.length)) ∧
    (path.name ∉ words → read .standard path.toText = .ok [.identifier path]) := by
  have isWord := mem_words_iff (names path.name List.mem_cons_self)
  refine ⟨fun word alone => ?_, fun word further => ?_, fun foreign => ?_⟩
  · obtain ⟨operator, same⟩ := isWord.mp word
    have single : path.toText = operator.symbol := by
      rw [Identifier.toText, Identifier.segments, alone, same]
      rfl
    exact ⟨operator, same, single ▸ read_of_spells (spells_operator operator)⟩
  · obtain ⟨operator, same⟩ := isWord.mp word
    exact read_operator_point same further
  · rw [isWord, ← ofSymbol?_eq_none_iff] at foreign
    exact read_of_spells (spells_identifier ⟨names, foreign⟩)

/-- The beginning of a word and what goes on behind one are names, in front of words too. -/
theorem read_path_begun :
    read .standard "no.not" = .ok [.identifier ⟨"no", ["not"]⟩] ∧
      read .standard "not_in.x" = .ok [.identifier ⟨"not_in", ["x"]⟩] ∧
      read .standard "not.x" = .error ((SyntaxFault.unexpectedCharacter '.').placed 3) :=
  ⟨(read_path ⟨"no", ["not"]⟩ (by decide)).2.2 (by decide),
    (read_path ⟨"not_in", ["x"]⟩ (by decide)).2.2 (by decide),
    (read_path ⟨"not", ["x"]⟩ (by decide)).2.1 (by decide) (by decide)⟩

/-- Attributes that are words themselves do not make an identifier of a word in front of them. -/
theorem not_read_path_of_words : ¬∀ path : Identifier,
    (∀ name ∈ path.segments, Identifier.isName name = true) →
    ¬(path.name ∈ words ∧ path.attributes = []) →
    ¬(path.name ∈ words ∧ ∀ name ∈ path.attributes, name ∉ words) →
    read .standard path.toText = .ok [.identifier path] := by
  intro whole
  have asPath := whole ⟨"in", ["not"]⟩ (by decide) (by decide) (by decide)
  have fails : read .standard (Identifier.toText ⟨"in", ["not"]⟩) =
      .error ((SyntaxFault.unexpectedCharacter '.').placed 2) := by decide
  rw [fails] at asPath
  cases asPath

end Expression

end Stencil
