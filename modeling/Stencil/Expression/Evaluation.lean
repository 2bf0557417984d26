import Stencil.Context
import Stencil.Expression
import Stencil.Operator.Meaning
import Stencil.Value.Text

/-! # Evaluating expressions

Operators wait on a stack until both operands are known. A binary operator first lets every
waiting operator of the same or a higher precedence compute, so equal precedence associates to the
left; `not` waits without letting any other compute.

An expression is first turned into atoms, in which every literal and identifier has been replaced
by its value or by the failure to compute it. A failure counts when its atom is reached.
-/

namespace Stencil

namespace Evaluation

/-- What the evaluation of an expression sees of a token. -/
inductive Atom
  | operand (value : Result Value)
  | negation
  | binary (operator : BinaryOperator)

/-- An operator that waits for its right operand. -/
inductive Waiting
  | negation
  | binary (operator : BinaryOperator)
  deriving DecidableEq, Repr

namespace Waiting

/-- The operator that waits. -/
def operator : Waiting → Operator
  | .negation => .negation
  | .binary operator => .binary operator

/-- The precedence of the operator that waits. -/
def precedence (waiting : Waiting) : Nat :=
  waiting.operator.precedence

/-- The failure of an operator without right operand in an expression. -/
def missingRight (expression : Expression) (waiting : Waiting) : Error :=
  (SyntaxFault.missingRightOperand waiting.operator.symbol expression.toText).unplaced

/-- Computes a waiting operator on the operands known so far, the last one first. -/
def reduce (expression : Expression) (waiting : Waiting) (operands : List Value) :
    Result (List Value) :=
  match waiting, operands with
  | .negation, value :: rest => .ok (value.negated :: rest)
  | .binary operator, right :: left :: rest => do return (← operator.apply left right) :: rest
  | _, _ => .error (waiting.missingRight expression)

end Waiting

/-- The operands known so far and the operators that wait, the last one first, and whether an
operand comes next. -/
structure State where
  operands : List Value
  waiting : List Waiting
  expecting : Bool

/-- Computes the waiting operators from the last one on, as long as their precedence is at least
the given one. -/
def reduceDownTo (expression : Expression) (precedence : Nat) :
    List Waiting → List Value → Result (List Value × List Waiting)
  | [], operands => .ok (operands, [])
  | waiting :: rest, operands =>
    if precedence ≤ waiting.precedence then do
      reduceDownTo expression precedence rest (← waiting.reduce expression operands)
    else .ok (operands, waiting :: rest)

/-- Takes one atom into account. -/
def step (expression : Expression) (state : State) : Atom → Result State
  | .operand result => do
    let value ← result
    if state.expecting then return ⟨value :: state.operands, state.waiting, false⟩
    else throw (SyntaxFault.adjacentOperands expression.toText).unplaced
  | .negation =>
    if state.expecting then .ok ⟨state.operands, .negation :: state.waiting, true⟩
    else .error (SyntaxFault.unexpectedOperator Operator.negation.symbol).unplaced
  | .binary operator =>
    if state.expecting then
      .error (SyntaxFault.missingLeftOperand operator.symbol expression.toText).unplaced
    else do
      let (operands, waiting) ←
        reduceDownTo expression operator.precedence state.waiting state.operands
      return ⟨operands, .binary operator :: waiting, true⟩

/-- Computes what still waits at the end. An expression without operands is nothing. -/
def finish (expression : Expression) (state : State) : Result Value :=
  match state.expecting, state.waiting with
  | true, waiting :: _ => .error (waiting.missingRight expression)
  | _, waiting => do
    let (operands, _) ← reduceDownTo expression 0 waiting state.operands
    return operands.headD .null

/-- Evaluates the atoms of an expression. -/
def run (expression : Expression) (atoms : List Atom) : Result Value := do
  finish expression (← atoms.foldlM (step expression) ⟨[], [], true⟩)

mutual

/-- The atom of a token. -/
def atom (context : Context) : Token → Atom
  | .identifier path => .operand (.ok (context.resolve path))
  | .operator (.constant name) => .operand (.ok name.value)
  | .operator .negation => .negation
  | .operator (.binary op) => .binary op
  | .str text => .operand (.ok (.str text))
  | .int n => .operand (.ok (.int n))
  | .float x => .operand (.ok (.float x))
  | .list items => .operand ((itemValues context items).map .list)
  | .group tokens => .operand (run tokens (atoms context tokens))

/-- The atoms of an expression. -/
def atoms (context : Context) : List Token → List Atom
  | [] => []
  | token :: rest => atom context token :: atoms context rest

/-- The values of the items of a list, or the failure of the first one that fails. -/
def itemValues (context : Context) : List (List Token) → Result (List Value)
  | [] => .ok []
  | item :: rest => do
    let value ← run item (atoms context item)
    return value :: (← itemValues context rest)

end

end Evaluation

namespace Expression

/-- The value of an expression in a context. -/
def evaluate (context : Context) (expression : Expression) : Result Value :=
  Evaluation.run expression (Evaluation.atoms context expression)

end Expression

end Stencil
