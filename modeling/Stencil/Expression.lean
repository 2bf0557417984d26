import Stencil.Decimal.Layout
import Stencil.Identifier
import Stencil.Operator
import Stencil.Text.Escaping

/-! # Expressions

An expression is a sequence of tokens: identifiers, operators, and literals, of which lists and
groups hold expressions again. `Expression.toText` writes an expression with one space between
its tokens.
-/

namespace Stencil

/-- A word, an operator or a literal. -/
inductive Token
  | identifier (path : Identifier)
  | operator (op : Operator)
  | str (text : String)
  | int (n : Int64)
  | float (x : Float)
  | list (items : List (List Token))
  | group (tokens : List Token)

/-- A sequence of tokens. -/
abbrev Expression := List Token

namespace Token

/-- Floating point literals are written by position for leading exponents from -4 to 15 and with
an exponent otherwise; whole numbers written by position end in `.0`. -/
def floatLayout : Decimal.Layout where
  scientific leading := leading < -4 || 16 ≤ leading
  pointZero _ := true
  notANumber := "NaN"

/-- A text between double quotes, with a backslash before every double quote and backslash. -/
def quoted (text : String) : String :=
  Text.quote '"' (fun c => c == '"' || c == '\\') text

mutual

/-- The text of a token. -/
def toText : Token → String
  | .identifier path => path.toText
  | .operator op => op.symbol
  | .str text => quoted text
  | .int n => Decimal.integerText n.toInt
  | .float x => floatLayout.floatText x
  | .list items => "[" ++ ", ".intercalate (itemTexts items) ++ "]"
  | .group tokens => "(" ++ " ".intercalate (tokenTexts tokens) ++ ")"

/-- The texts of the tokens of an expression. -/
def tokenTexts : List Token → List String
  | [] => []
  | token :: rest => token.toText :: tokenTexts rest

/-- The texts of the items of a list. -/
def itemTexts : List (List Token) → List String
  | [] => []
  | item :: rest => " ".intercalate (tokenTexts item) :: itemTexts rest

end

end Token

namespace Expression

/-- The text of an expression: its tokens with one space between them. -/
def toText (expression : Expression) : String :=
  " ".intercalate (Token.tokenTexts expression)

end Expression

end Stencil
