import Stencil.Decimal.Numeral
import Stencil.Delimiter
import Stencil.Expression
import Stencil.Text.Blank

/-! # Lexemes

A text is cut into lexemes one character at a time. A lexeme is a token whose inner expressions,
the items of a list and the body of a group, are still text. At any time at most one piece is
being read: the beginning of an operator, a word, a number, or an enclosed literal.

`step` offers a character to the piece being read. It says whether the character was consumed; one
that was not belongs to the next piece and is offered once more. `scan` runs over a whole text
and stops at the first failure, keeping the lexemes found before it.
-/

namespace Stencil

/-- A token whose inner expressions are still text. -/
inductive Lexeme
  | token (complete : Token)
  | list (items : List String)
  | group (body : String)

namespace Lexeme

/-- An enclosed literal that has not been closed yet. -/
inductive Enclosed
  | quote (delimiter : Delimiter) (text : String) (escaped : Bool)
  | list (delimiter : Delimiter) (items : List String) (item : String)
  | group (delimiter : Delimiter) (body : String)

/-- What a character did to an enclosed literal. -/
inductive Progress
  | more (literal : Enclosed)
  | closed (lexeme : Lexeme)

namespace Enclosed

/-- The literal that a delimiter opens. -/
def ofDelimiter (delimiter : Delimiter) : Enclosed :=
  match delimiter.enclosure with
  | .quote => .quote delimiter "" false
  | .list => .list delimiter [] ""
  | .group => .group delimiter ""

/-- The text of the literal so far. -/
def source : Enclosed → String
  | .quote delimiter text _ => delimiter.start.toString ++ text
  | .list delimiter items item =>
    delimiter.start.toString ++ ",".intercalate items ++ (if items.isEmpty then "" else ",") ++ item
  | .group delimiter body => delimiter.start.toString ++ body

/-- Whether a text is blank. -/
def isBlankText (text : String) : Bool :=
  Text.isAllBlank text.toList

/-- A character inside quotes. An escaped character stands for itself, and the escape character
is kept unless it is followed by itself or by the closing one. -/
def pushQuoted (delimiter : Delimiter) (text : String) (escaped : Bool) (c : Char) : Progress :=
  if escaped then
    if delimiter.close = c ∨ delimiter.escape = some c then
      .more (.quote delimiter (text.push c) false)
    else
      .more (.quote delimiter ((delimiter.escape.elim text text.push).push c) false)
  else if delimiter.escape = some c then .more (.quote delimiter text true)
  else if delimiter.close = c then .closed (.token (.str text))
  else .more (.quote delimiter (text.push c) false)

/-- A character inside a list. A comma, or the closing character, ends the item unless the item
leaves a literal open. No item may be blank, except that nothing need follow the last comma. -/
def pushListed (delimiters : Delimiters) (delimiter : Delimiter) (items : List String)
    (item : String) (c : Char) : Except SyntaxFault Progress :=
  if c = ',' ∨ delimiter.close = c then do
    if ← delimiters.leavesOpen item then
      return .more (.list delimiter items (item.push c))
    else if c = ',' then
      if isBlankText item then throw .emptyListItem
      else return .more (.list delimiter (items ++ [item]) "")
    else if isBlankText item then return .closed (.list items)
    else return .closed (.list (items ++ [item]))
  else .ok (.more (.list delimiter items (item.push c)))

/-- A character inside a group. The closing character ends it unless the body leaves a literal
open. -/
def pushGrouped (delimiters : Delimiters) (delimiter : Delimiter) (body : String) (c : Char) :
    Except SyntaxFault Progress :=
  if delimiter.close = c then do
    if ← delimiters.leavesOpen body then
      return .more (.group delimiter (body.push c))
    else return .closed (.group body)
  else .ok (.more (.group delimiter (body.push c)))

/-- Offers a character to an enclosed literal. -/
def push (delimiters : Delimiters) (c : Char) : Enclosed → Except SyntaxFault Progress
  | .quote delimiter text escaped => .ok (pushQuoted delimiter text escaped c)
  | .list delimiter items item => pushListed delimiters delimiter items item c
  | .group delimiter body => pushGrouped delimiters delimiter body c

end Enclosed

/-- The piece being read, with the position of its first character where a failure may need it. -/
inductive Pending
  | nothing
  | operator (text : String) (start : Nat)
  | word (text : String) (start : Nat)
  | number (numeral : Decimal.Numeral)
  | enclosed (literal : Enclosed) (start : Nat)

/-- What a character did: the lexemes that it ended, the piece being read after it, and whether it
was consumed. -/
structure Step where
  ended : List Lexeme
  pending : Pending
  consumed : Bool

/-- The literal of a numeral: an integer if it has no point and fits into 64 bits. -/
def ofNumeral (numeral : Decimal.Numeral) : Lexeme :=
  .token <|
    if numeral.places = none ∧ numeral.coefficient < Nat.pow 2 63 then
      .int (Int64.ofInt numeral.coefficient)
    else .float numeral.toFloat

/-- The identifier of a word that starts at a position. -/
def ofWord (text : String) (start : Nat) : Result Lexeme :=
  match Identifier.ofPath text with
  | .ok path => .ok (.token (.identifier path))
  | .error fault => .error (fault.placed start)

/-- A character with which a new piece starts, or a blank one. -/
def begin (delimiters : Delimiters) (position : Nat) (c : Char) : Result Pending :=
  match delimiters.find? c with
  | some delimiter => .ok (.enclosed (.ofDelimiter delimiter) position)
  | none =>
    if Operator.beginsSymbol c.toString then .ok (.operator c.toString position)
    else if c.isDigit then .ok (.number (.ofDigit c))
    else if Identifier.isNameChar true c then .ok (.word c.toString position)
    else if Text.isBlank c then .ok .nothing
    else .error ((SyntaxFault.unexpectedCharacter c).placed position)

/-- A character that ends a lexeme and starts the next piece. -/
def endWith (delimiters : Delimiters) (position : Nat) (c : Char) (lexeme : Lexeme) :
    Result Step := do
  return ⟨[lexeme], ← begin delimiters position c, true⟩

/-- A character after the beginning of an operator. The longest operator is read. What turns out
to be the beginning of a name goes on as a word, and so does an operator spelled like a name when
a name goes on behind it. -/
def stepOperator (delimiters : Delimiters) (position : Nat) (c : Char) (text : String)
    (start : Nat) : Result Step :=
  let extended := text.push c
  if Operator.beginsSymbol extended then .ok ⟨[], .operator extended start, true⟩
  else
    match Operator.ofSymbol? text with
    | some operator =>
      if operator.isWord && Identifier.isName extended then .ok ⟨[], .word extended start, true⟩
      else endWith delimiters position c (.token (.operator operator))
    | none =>
      if Identifier.isName extended then .ok ⟨[], .word extended start, true⟩
      else if Identifier.isName text then .ok ⟨[], .word text start, false⟩
      else .error (.unknownOperator text start)

/-- A character after the beginning of a word. A point goes on with an attribute. -/
def stepWord (delimiters : Delimiters) (position : Nat) (c : Char) (text : String) (start : Nat) :
    Result Step :=
  if (delimiters.find? c).isSome then
    .error ((SyntaxFault.literalInsideWord c).placed position)
  else if c = '.' ∨ Identifier.isNameChar (text.back? == some '.') c then
    .ok ⟨[], .word (text.push c) start, true⟩
  else do endWith delimiters position c (← ofWord text start)

/-- A character after the beginning of a number. -/
def stepNumber (delimiters : Delimiters) (position : Nat) (c : Char)
    (numeral : Decimal.Numeral) : Result Step :=
  if (delimiters.find? c).isSome then
    .error ((SyntaxFault.literalInsideNumber c).placed position)
  else
    match numeral.push? c with
    | some longer => .ok ⟨[], .number longer, true⟩
    | none => .ok ⟨[ofNumeral numeral], .nothing, false⟩

/-- A character inside an enclosed literal. -/
def stepEnclosed (delimiters : Delimiters) (position : Nat) (c : Char) (literal : Enclosed)
    (start : Nat) : Result Step :=
  match literal.push delimiters c with
  | .ok (.more longer) => .ok ⟨[], .enclosed longer start, true⟩
  | .ok (.closed lexeme) => .ok ⟨[lexeme], .nothing, true⟩
  | .error fault => .error (fault.placed position)

/-- Offers a character to the piece being read. -/
def step (delimiters : Delimiters) (position : Nat) (c : Char) : Pending → Result Step
  | .nothing => do return ⟨[], ← begin delimiters position c, true⟩
  | .operator text start => stepOperator delimiters position c text start
  | .word text start => stepWord delimiters position c text start
  | .number numeral => stepNumber delimiters position c numeral
  | .enclosed literal start => stepEnclosed delimiters position c literal start

/-- Offers a character, and offers it once more if it was not consumed. -/
def offer (delimiters : Delimiters) (position : Nat) (c : Char) (pending : Pending) :
    Result (List Lexeme × Pending) := do
  let first ← step delimiters position c pending
  if first.consumed then return (first.ended, first.pending)
  else
    let second ← step delimiters position c first.pending
    return (first.ended ++ second.ended, second.pending)

/-- The lexemes that end with the text. -/
def finish : Pending → Result (List Lexeme)
  | .nothing => .ok []
  | .operator text start =>
    match Operator.ofSymbol? text with
    | some operator => .ok [.token (.operator operator)]
    | none =>
      if Identifier.isName text then do return [← ofWord text start]
      else .error (.unknownOperator text start)
  | .word text start => do return [← ofWord text start]
  | .number numeral => .ok [ofNumeral numeral]
  | .enclosed literal start => .error ((SyntaxFault.unexpectedEnd literal.source).placed start)

/-- The lexemes of a text up to its end or to the first failure. -/
structure Scan where
  lexemes : List Lexeme
  failure : Option Error

/-- Lexemes in front of a scan. -/
def Scan.prepend (lexemes : List Lexeme) (scan : Scan) : Scan :=
  ⟨lexemes ++ scan.lexemes, scan.failure⟩

/-- Scans the rest of a text, given the position of its first character and the piece being
read. -/
def scanFrom (delimiters : Delimiters) (position : Nat) (pending : Pending) : List Char → Scan
  | [] =>
    match finish pending with
    | .ok lexemes => ⟨lexemes, none⟩
    | .error failure => ⟨[], some failure⟩
  | c :: rest =>
    match offer delimiters position c pending with
    | .ok (lexemes, next) => (scanFrom delimiters (position + 1) next rest).prepend lexemes
    | .error failure => ⟨[], some failure⟩

/-- Scans a text. -/
def scan (delimiters : Delimiters) (text : String) : Scan :=
  scanFrom delimiters 0 .nothing text.toList

end Lexeme

end Stencil
