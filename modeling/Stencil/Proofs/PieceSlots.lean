import Stencil.Proofs.LexemePlaces

/-! # Slots for the piece being read

A scan reads one piece at a time. Here the pieces are kept in three slots instead, one for the
beginning of an operator, one for a word and one for a literal, and a character is offered to one
slot after the other. Nothing in these definitions keeps two slots from being filled at once. The
rules do: a character that finds at most one piece leaves at most one, as it does what it does to
that piece alone, `Slots.step_ofPending`.
-/

namespace Stencil

namespace Lexeme

/-- A number or an enclosed literal that is being read. -/
inductive Literal
  | number (numeral : Decimal.Numeral)
  | enclosed (literal : Enclosed) (start : Nat)

/-- The beginning of an operator, a word and a literal that are being read, each with the position
of its first character where a failure may need it. -/
structure Slots where
  operator : Option (String × Nat) := none
  word : Option (String × Nat) := none
  literal : Option Literal := none

/-- The piece that a literal is. -/
def Literal.pending : Literal → Pending
  | .number numeral => .number numeral
  | .enclosed literal start => .enclosed literal start

namespace Slots

/-- What a character did: the lexemes that it ended, the slots after it, and whether it was
consumed. -/
structure Step where
  ended : List Lexeme
  slots : Slots
  consumed : Bool

/-- The pieces in the slots. -/
def pieces (slots : Slots) : List Pending :=
  (slots.operator.map fun (text, start) => Pending.operator text start).toList ++
    (slots.word.map fun (text, start) => Pending.word text start).toList ++
    (slots.literal.map Literal.pending).toList

section OneCharacter

/-- A character that no slot has taken, and that opens no enclosed literal. -/
def begin (slots : Slots) (position : Nat) (c : Char) : Result Slots :=
  if Operator.beginsSymbol c.toString then
    .ok { slots with operator := some (c.toString, position) }
  else if c.isDigit then .ok { slots with literal := some (.number (.ofDigit c)) }
  else if Identifier.isNameChar true c then .ok { slots with word := some (c.toString, position) }
  else if Text.isBlank c then .ok slots
  else .error ((SyntaxFault.unexpectedCharacter c).placed position)

/-- A character at the slot of the word. -/
def stepWord (slots : Slots) (position : Nat) (c : Char) : Result Step :=
  match slots.word with
  | none => do return ⟨[], ← slots.begin position c, true⟩
  | some (text, start) =>
    if c = '.' ∨ Identifier.isNameChar (text.back? == some '.') c then
      .ok ⟨[], { slots with word := some (text.push c, start) }, true⟩
    else do
      let lexeme ← ofWord text start
      return ⟨[lexeme], ← { slots with word := none : Slots }.begin position c, true⟩

/-- A character for the literal in its slot. -/
def stepLiteral (delimiters : Delimiters) (slots : Slots) (position : Nat) (c : Char) :
    Literal → Result Step
  | .number numeral =>
    if (delimiters.find? c).isSome then
      .error ((SyntaxFault.literalInsideNumber c).placed position)
    else
      match numeral.push? c with
      | some longer => .ok ⟨[], { slots with literal := some (.number longer) }, true⟩
      | none => .ok ⟨[ofNumeral numeral], { slots with literal := none }, false⟩
  | .enclosed literal start =>
    match literal.push delimiters c with
    | .ok (.more longer) =>
      .ok ⟨[], { slots with literal := some (.enclosed longer start) }, true⟩
    | .ok (.closed lexeme) => .ok ⟨[lexeme], { slots with literal := none }, true⟩
    | .error fault => .error (fault.placed position)

/-- A character at the slots of the literal and of the word. One that opens a literal may not
follow a word. -/
def stepBehind (delimiters : Delimiters) (slots : Slots) (position : Nat) (c : Char) :
    Result Step :=
  match delimiters.find? c, slots.word, slots.literal with
  | some _, some _, _ => .error ((SyntaxFault.literalInsideWord c).placed position)
  | some delimiter, none, none =>
    .ok ⟨[], { slots with literal := some (.enclosed (.ofDelimiter delimiter) position) }, true⟩
  | _, _, some literal => slots.stepLiteral delimiters position c literal
  | none, _, none => slots.stepWord position c

/-- A character at the slot of the operator, and at the others if the operator ends in front of
it. -/
def step (delimiters : Delimiters) (position : Nat) (c : Char) (slots : Slots) : Result Step :=
  match slots.operator with
  | none => slots.stepBehind delimiters position c
  | some (text, start) =>
    let extended := text.push c
    let others : Slots := { slots with operator := none }
    if Operator.beginsSymbol extended then
      .ok ⟨[], { slots with operator := some (extended, start) }, true⟩
    else
      match Operator.ofSymbol? text with
      | some operator =>
        if operator.isWord && Identifier.isName extended then
          .ok ⟨[], { others with word := some (extended, start) }, true⟩
        else do
          let taken ← others.stepBehind delimiters position c
          return { taken with ended := .token (.operator operator) :: taken.ended }
      | none =>
        if Identifier.isName extended then
          .ok ⟨[], { others with word := some (extended, start) }, true⟩
        else if Identifier.isName text then
          .ok ⟨[], { others with word := some (text, start) }, false⟩
        else .error (.unknownOperator text start)

/-- The lexemes that end with the text, one slot after the other. -/
def finish (slots : Slots) : Result (List Lexeme) := do
  return (← slots.pieces.mapM Lexeme.finish).flatten

end OneCharacter

section OnePiece

/-- The slots with one piece, or with none. -/
def ofPending : Pending → Slots
  | .nothing => { }
  | .operator text start => { operator := some (text, start) }
  | .word text start => { word := some (text, start) }
  | .number numeral => { literal := some (.number numeral) }
  | .enclosed literal start => { literal := some (.enclosed literal start) }

/-- A step of the piece being read, as one of the slots. -/
def ofStep (taken : Lexeme.Step) : Step :=
  ⟨taken.ended, ofPending taken.pending, taken.consumed⟩

private theorem pieces_ofPending (pending : Pending) :
    pending = .nothing ∧ (ofPending pending).pieces = [] ∨
      (ofPending pending).pieces = [pending] := by
  cases pending with
  | nothing => exact .inl ⟨rfl, rfl⟩
  | operator | word | number | enclosed => exact .inr rfl

theorem length_pieces_ofPending (pending : Pending) : (ofPending pending).pieces.length ≤ 1 := by
  rcases pieces_ofPending pending with ⟨-, none⟩ | one
  · rw [none]
    exact Nat.zero_le 1
  · rw [one]
    exact Nat.le_refl 1

@[simp] theorem finish_ofPending (pending : Pending) :
    (ofPending pending).finish = Lexeme.finish pending := by
  rw [finish]
  rcases pieces_ofPending pending with ⟨rfl, none⟩ | one
  · rw [none]
    rfl
  · rw [one, List.mapM_cons]
    cases Lexeme.finish pending with
    | ok lexemes => exact congrArg Except.ok (List.append_nil lexemes)
    | error failure => rfl

variable (delimiters : Delimiters) (position : Nat) (c : Char)

variable {delimiters c} in
private theorem begin_nothing (free : delimiters.find? c = none) :
    ({ } : Slots).begin position c = (Lexeme.begin delimiters position c).map ofPending := by
  rw [begin, Lexeme.begin, free]
  dsimp only
  repeat' split
  all_goals rfl

/-- A character that finds no piece begins one. -/
theorem stepBehind_nothing : ({ } : Slots).stepBehind delimiters position c =
    (Lexeme.begin delimiters position c).map fun next => ⟨[], ofPending next, true⟩ := by
  rw [stepBehind]
  cases found : delimiters.find? c with
  | some delimiter =>
    rw [Lexeme.begin, found]
    rfl
  | none =>
    change ({ } : Slots).stepWord position c = _
    rw [stepWord, begin_nothing position found]
    cases Lexeme.begin delimiters position c <;> rfl

private theorem step_operator (text : String) (start : Nat) :
    (ofPending (.operator text start)).step delimiters position c =
      (Lexeme.stepOperator delimiters position c text start).map ofStep := by
  simp only [step, ofPending, Lexeme.stepOperator]
  by_cases longer : Operator.beginsSymbol (text.push c) = true
  · rw [if_pos longer, if_pos longer]
    rfl
  · rw [if_neg longer, if_neg longer]
    cases Operator.ofSymbol? text with
    | some operator =>
      dsimp only
      split
      · rfl
      · rw [stepBehind_nothing, endWith]
        cases Lexeme.begin delimiters position c <;> rfl
    | none =>
      dsimp only
      repeat' split
      all_goals rfl

private theorem step_word (text : String) (start : Nat) :
    (ofPending (.word text start)).step delimiters position c =
      (Lexeme.stepWord delimiters position c text start).map ofStep := by
  simp only [step, ofPending, stepBehind, Lexeme.stepWord]
  cases found : delimiters.find? c with
  | some delimiter => rfl
  | none =>
    simp only [stepWord, Option.isSome_none, Bool.false_eq_true, if_false]
    split
    · rfl
    · rw [begin_nothing position found]
      cases ofWord text start with
      | error failure => rfl
      | ok lexeme =>
        simp only [Result.ok_bind, endWith]
        cases Lexeme.begin delimiters position c <;> rfl

private theorem step_number (numeral : Decimal.Numeral) :
    (ofPending (.number numeral)).step delimiters position c =
      (Lexeme.stepNumber delimiters position c numeral).map ofStep := by
  simp only [step, ofPending, Lexeme.stepNumber, stepBehind]
  cases found : delimiters.find? c with
  | some delimiter => simp only [stepLiteral, found]; rfl
  | none =>
    simp only [stepLiteral, found]
    cases numeral.push? c <;> rfl

private theorem step_enclosed (literal : Enclosed) (start : Nat) :
    (ofPending (.enclosed literal start)).step delimiters position c =
      (Lexeme.stepEnclosed delimiters position c literal start).map ofStep := by
  have offered : (ofPending (.enclosed literal start)).step delimiters position c =
      (ofPending (.enclosed literal start)).stepLiteral delimiters position c
        (.enclosed literal start) := by
    simp only [step, ofPending, stepBehind]
    cases delimiters.find? c <;> rfl
  rw [offered, stepLiteral, Lexeme.stepEnclosed]
  rcases literal.push delimiters c with fault | (longer | lexeme) <;> rfl

/-- A character does to slots that hold one piece what it does to the piece. -/
@[simp] theorem step_ofPending (pending : Pending) :
    (ofPending pending).step delimiters position c =
      (Lexeme.step delimiters position c pending).map ofStep := by
  cases pending with
  | nothing =>
    refine (stepBehind_nothing delimiters position c).trans ?_
    rw [Lexeme.step]
    cases Lexeme.begin delimiters position c <;> rfl
  | operator text start => exact step_operator delimiters position c text start
  | word text start => exact step_word delimiters position c text start
  | number numeral => exact step_number delimiters position c numeral
  | enclosed literal start => exact step_enclosed delimiters position c literal start

/-- Of two pieces in the slots each may refuse a character. -/
example :
    let number : Literal := .number ⟨1, none⟩
    step .empty 1 ' ' { operator := some ("n", 0), literal := some number } =
        .ok ⟨[], { word := some ("n", 0), literal := some number }, false⟩ ∧
      step .empty 1 ' ' { word := some ("n", 0), literal := some number } =
        .ok ⟨[ofNumeral ⟨1, none⟩], { word := some ("n", 0) }, false⟩ :=
  ⟨rfl, rfl⟩

end OnePiece

end Slots

end Lexeme

end Stencil
