import Stencil.Expression.Lexeme

/-! # Reading expressions

The inner texts of a lexeme are read in turn where the lexeme stands, so that a failure inside a
list or a group comes before one that lies behind it. Inner texts are shorter than the text around
them, and the number of characters bounds how deep the reading goes.
-/

namespace Stencil

/-- The token of a lexeme, given how inner texts are read. -/
def Lexeme.read (inner : String → Result Expression) : Lexeme → Result Token
  | .token complete => .ok complete
  | .list items => do return .list (← items.mapM inner)
  | .group body => do return .group (← inner body)

/-- The expression of a scan, given how inner texts are read. -/
def Lexeme.Scan.read (inner : String → Result Expression) (scan : Lexeme.Scan) :
    Result Expression := do
  let tokens ← scan.lexemes.mapM (Lexeme.read inner)
  match scan.failure with
  | some failure => throw failure
  | none => return tokens

namespace Expression

/-- Reads a text of at most `size` characters. A text of no characters has no tokens. -/
def readWithin (delimiters : Delimiters) : Nat → String → Result Expression
  | 0, _ => .ok []
  | size + 1, text => (Lexeme.scan delimiters text).read (readWithin delimiters size)

/-- Reads a text. -/
def read (delimiters : Delimiters) (text : String) : Result Expression :=
  readWithin delimiters text.length text

end Expression

end Stencil
