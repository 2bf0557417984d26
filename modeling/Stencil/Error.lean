/-! # Failures and their texts

Everything that can go wrong while registering, reading, evaluating or rendering. A constructor
names a cause and carries what its text mentions; `Error.message` is the only place with wording.
Failures of an expression's form are `SyntaxFault`s, with the position of the fault when known.
-/

namespace Stencil

/-- What is wrong with the form of an expression. -/
inductive SyntaxFault
  | unexpectedCharacter (character : Char)
  /-- A literal is still open at the end; `pending` is its text so far. -/
  | unexpectedEnd (pending : String)
  /-- A literal starts in the middle of a word. -/
  | literalInsideWord (character : Char)
  /-- A literal starts in the middle of a number. -/
  | literalInsideNumber (character : Char)
  /-- A closing character has no opening one before it in the text. -/
  | unmatchedClose (character : Char) (text : String)
  | emptyListItem
  | invalidLiteral (text : String)
  | emptySegment (path : String)
  | missingLeftOperand (operator expression : String)
  | missingRightOperand (operator expression : String)
  | unexpectedOperator (operator : String)
  | adjacentOperands (expression : String)
  deriving DecidableEq, Repr

/-- A fault of form and the character offset at which it was found. -/
structure SyntaxError where
  position : Option Nat
  fault : SyntaxFault
  deriving DecidableEq, Repr

/-- Everything that can go wrong. -/
inductive Error
  | literalKindNotRegistrable (kind : String)
  | unknownOperator (operator : String) (position : Nat)
  | malformed (error : SyntaxError)
  | characterInUse (character : Char)
  | closeCharacterMissing (character : Char)
  | delimitersUnpaired (start close : String)
  | precedenceMissing (operator : String)
  | unsupportedOperand (operator left : String) (right : Option String)
  | divisionByZero (operator : String)
  | valueTooLarge (operator : String) (limit : Nat)
  | unknownTag (tag : String) (line column : Nat)
  | unknownConditional (tag : String)
  | unclosedBlock (tag : String) (line column : Nat)
  | tooManyArguments (tag : String) (expected found : Nat)
  | missingArguments (tag : String) (expected found : Nat)
  | invalidArgument (tag text : String)
  | tagExists (tag : String)
  | recursionLimit (limit : Nat)
  | templateExists (name : String)
  | templateMissing (name : String)
  | unreadable (path text : String)
  deriving DecidableEq, Repr

/-- The answer of an operation that can fail. -/
abbrev Result (α : Type) := Except Error α

namespace SyntaxFault

/-- The text of a fault. -/
def message : SyntaxFault → String
  | .unexpectedCharacter c => "Unexpected character '" ++ c.toString ++ "'"
  | .unexpectedEnd pending => "Unexpected end of expression: " ++ pending
  | .literalInsideWord c => "Unexpected literal character '" ++ c.toString ++ "'"
  | .literalInsideNumber c => "Unexpected literal match '" ++ c.toString ++ "'"
  | .unmatchedClose c text =>
    "Unexpected literal close character '" ++ c.toString ++ "' in " ++ text
  | .emptyListItem => "List item may not be empty"
  | .invalidLiteral text => "Invalid literal value: " ++ text
  | .emptySegment path => "Identifier '" ++ path ++ "' has an empty attribute"
  | .missingLeftOperand operator expression =>
    "Operator " ++ operator ++ " is missing a left operand near " ++ expression
  | .missingRightOperand operator expression =>
    "Operator " ++ operator ++ " is missing a right operand near " ++ expression
  | .unexpectedOperator operator => "Unexpected operator: " ++ operator
  | .adjacentOperands expression => "Expression \"" ++ expression ++ "\" is not valid"

/-- The fault found at a known position. -/
def placed (fault : SyntaxFault) (position : Nat) : Error :=
  .malformed ⟨some position, fault⟩

/-- The fault of an expression as a whole. -/
def unplaced (fault : SyntaxFault) : Error :=
  .malformed ⟨none, fault⟩

end SyntaxFault

/-- The text of a fault with its position. -/
def SyntaxError.message (error : SyntaxError) : String :=
  match error.position with
  | some position => "Syntax error at position " ++ toString position ++ ": " ++ error.fault.message
  | none => "Syntax error: " ++ error.fault.message

namespace Error

/-- The text of a failure. -/
def message : Error → String
  | .literalKindNotRegistrable kind => "Unknown literal type: " ++ kind
  | .unknownOperator operator position =>
    "Unknown operator: " ++ operator ++ " at position " ++ toString position
  | .malformed error => error.message
  | .characterInUse c => "Character \"" ++ c.toString ++ "\" is already in use"
  | .closeCharacterMissing c => "Literal started by \"" ++ c.toString ++ "\" needs an end character"
  | .delimitersUnpaired start close =>
    "Literal start characters \"" ++ start ++ "\" and end characters \"" ++ close ++
      "\" must pair up"
  | .precedenceMissing operator => "Missing operator precedence: " ++ operator
  | .unsupportedOperand operator left (some right) =>
    "Unsupported operand types for " ++ operator ++ ": " ++ left ++ " and " ++ right
  | .unsupportedOperand operator left none =>
    "Unsupported operand type for " ++ operator ++ ": " ++ left
  | .divisionByZero operator => "Division by zero in " ++ operator
  | .valueTooLarge operator limit =>
    "Result of " ++ operator ++ " exceeds the limit of " ++ toString limit ++ " items"
  | .unknownTag tag line column =>
    "Unknown tag " ++ tag ++ " at line " ++ toString line ++ ", column " ++ toString column
  | .unknownConditional tag => "Unknown conditional tag " ++ tag
  | .unclosedBlock tag line column =>
    "Unclosed block \"" ++ tag ++ "\" opened at line " ++ toString line ++ ", column " ++
      toString column
  | .tooManyArguments tag expected found =>
    "Too many arguments passed to " ++ tag ++ " tag. Expected " ++ toString expected ++
      " arguments, got " ++ toString found ++ "."
  | .missingArguments tag expected found =>
    "Missing arguments passed to " ++ tag ++ " tag. Expected " ++ toString expected ++
      " arguments, got " ++ toString found ++ "."
  | .invalidArgument tag text => "Invalid argument to " ++ tag ++ " tag: " ++ text
  | .tagExists tag => "Tag " ++ tag ++ " is already registered"
  | .recursionLimit limit => "Template recursion limit of " ++ toString limit ++ " exceeded"
  | .templateExists name => "Template already exists: " ++ name
  | .templateMissing name => "Template not found: " ++ name
  | .unreadable path text => "Failed to read " ++ path ++ ": " ++ text

/-- The texts of the failures that caused this one, the nearest first. -/
def causes : Error → List String
  | .malformed error => [error.message, error.fault.message]
  | _ => []

end Error

end Stencil
