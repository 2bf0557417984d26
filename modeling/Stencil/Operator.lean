/-! # Operators

The operators of expressions, their spellings and their precedence. Constants are spelled like
operators and take no operand; `not` takes the operand to its right; all others are binary.
-/

namespace Stencil

/-- Names with a fixed value. -/
inductive Constant
  | pi
  | truth
  | falsity
  | nothing
  deriving DecidableEq, Repr

/-- Operators between two operands. -/
inductive BinaryOperator
  | add
  | sub
  | mul
  | div
  | floorDiv
  | mod
  | pow
  | equal
  | unequal
  | greater
  | greaterEqual
  | less
  | lessEqual
  | contained
  | and
  | or
  deriving DecidableEq, Repr

/-- A constant, the negation, or a binary operator. -/
inductive Operator
  | constant (name : Constant)
  | negation
  | binary (operator : BinaryOperator)
  deriving DecidableEq, Repr

namespace Constant

/-- The spelling of a constant. -/
def symbol : Constant → String
  | .pi => "pi"
  | .truth => "True"
  | .falsity => "False"
  | .nothing => "None"

end Constant

namespace BinaryOperator

/-- The spelling of a binary operator. -/
def symbol : BinaryOperator → String
  | .add => "+"
  | .sub => "-"
  | .mul => "*"
  | .div => "/"
  | .floorDiv => "//"
  | .mod => "%"
  | .pow => "**"
  | .equal => "=="
  | .unequal => "!="
  | .greater => ">"
  | .greaterEqual => ">="
  | .less => "<"
  | .lessEqual => "<="
  | .contained => "in"
  | .and => "and"
  | .or => "or"

/-- Operators of higher precedence bind tighter. -/
def precedence : BinaryOperator → Nat
  | .pow => 7
  | .mul | .div | .floorDiv | .mod => 6
  | .add | .sub => 5
  | .equal | .unequal | .greater | .greaterEqual | .less | .lessEqual | .contained => 4
  | .and => 2
  | .or => 1

end BinaryOperator

namespace Operator

/-- All operators. -/
def all : List Operator :=
  [.constant .pi, .constant .truth, .constant .falsity, .constant .nothing,
    .binary .add, .binary .sub, .binary .mul, .binary .div, .binary .floorDiv, .binary .mod,
    .binary .pow, .binary .equal, .binary .unequal, .binary .greater, .binary .greaterEqual,
    .binary .less, .binary .lessEqual, .binary .contained, .negation, .binary .and, .binary .or]

/-- The spelling of an operator. -/
def symbol : Operator → String
  | .constant name => name.symbol
  | .negation => "not"
  | .binary operator => operator.symbol

/-- The number of operands. -/
def arity : Operator → Nat
  | .constant _ => 0
  | .negation => 1
  | .binary _ => 2

/-- Operators of higher precedence bind tighter; a constant binds tightest. -/
def precedence : Operator → Nat
  | .constant _ => 8
  | .negation => 3
  | .binary operator => operator.precedence

/-- The operator with the given spelling. -/
def ofSymbol? (text : String) : Option Operator :=
  all.find? fun operator => operator.symbol == text

/-- Whether the text is the beginning of the spelling of some operator. -/
def beginsSymbol (text : String) : Bool :=
  all.any fun operator => text.toList.isPrefixOf operator.symbol.toList

/-- Whether the operator is spelled like a name. -/
def isWord (operator : Operator) : Bool :=
  operator.symbol.toList.all Char.isAlpha

theorem mem_all (operator : Operator) : operator ∈ all := by
  cases operator with
  | constant name => cases name <;> decide
  | negation => decide
  | binary operator => cases operator <;> decide

/-- The spelling of an operator is read as that operator. -/
@[simp] theorem ofSymbol?_symbol (operator : Operator) :
    ofSymbol? operator.symbol = some operator := by
  cases operator with
  | constant name => cases name <;> decide
  | negation => decide
  | binary operator => cases operator <;> decide

end Operator

end Stencil
