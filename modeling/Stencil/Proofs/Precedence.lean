import Stencil.Expression.Evaluation
import Stencil.Proofs.Result

/-! # Operator precedence as a tree

An expression in which operands and operators alternate has exactly one tree that respects
precedence: an operator only has operands whose open operators bind tighter, equal precedence
associates to the left, and a negation takes the longest run joined by operators that bind tighter
than it. Evaluation agrees with the walk over that tree that computes both operands before the
operator, and fails for every other sequence of tokens that is not empty.
-/

namespace Stencil

open Evaluation

/-- The spellings of the operators of each precedence that take operands. -/
def Operator.spellings : Nat → List String
  | 7 => ["**"]
  | 6 => ["*", "/", "//", "%"]
  | 5 => ["+", "-"]
  | 4 => ["==", "!=", ">", ">=", "<", "<=", "in"]
  | 3 => ["not"]
  | 2 => ["and"]
  | 1 => ["or"]
  | _ => []

private theorem Operator.symbol_mem_spellings {operator : Operator} (applied : operator.arity ≠ 0) :
    operator.symbol ∈ spellings operator.precedence := by
  cases operator with
  | constant name => exact absurd rfl applied
  | negation => decide
  | binary operator => cases operator <;> decide

/-- Whether a token stands for a value of its own. -/
def Token.isOperand : Token → Bool
  | .operator (.constant _) => true
  | .operator _ => false
  | _ => true

/-- The value of an operand. The expressions inside a list or a group are evaluated in turn. -/
def Token.value (context : Context) : (token : Token) → token.isOperand = true → Result Value
  | .identifier path, _ => .ok (context.resolve path)
  | .operator (.constant name), _ => .ok name.value
  | .str text, _ => .ok (.str text)
  | .int n, _ => .ok (.int n)
  | .float x, _ => .ok (.float x)
  | .list items, _ => .list <$> items.mapM (Expression.evaluate context)
  | .group tokens, _ => Expression.evaluate context tokens

/-- Operands with any number of negations in front of each, joined by binary operators. -/
inductive Expression.WellFormed : Expression → Prop
  | operand {token : Token} (valid : token.isOperand = true) : WellFormed [token]
  | negation {tokens : Expression} (rest : WellFormed tokens) :
      WellFormed (.operator .negation :: tokens)
  | binary {token : Token} {operator : BinaryOperator} {tokens : Expression}
      (valid : token.isOperand = true) (rest : WellFormed tokens) :
      WellFormed (token :: .operator (.binary operator) :: tokens)

/-- An expression with its operators applied to their operands. -/
inductive OperatorTree
  | operand (token : Token) (valid : token.isOperand = true)
  | negation (argument : OperatorTree)
  | binary (operator : BinaryOperator) (left right : OperatorTree)

namespace OperatorTree

/-- The tokens of a tree in the order in which they are written. -/
def tokens : OperatorTree → Expression
  | .operand token _ => [token]
  | .negation argument => .operator .negation :: argument.tokens
  | .binary operator left right => left.tokens ++ .operator (.binary operator) :: right.tokens

/-- All operators between the root and the first operand bind tighter than the given precedence.
A negation hides what stands behind it. -/
def leftEdgeAbove (precedence : Nat) : OperatorTree → Bool
  | .operand _ _ => true
  | .negation _ => true
  | .binary operator left _ =>
    decide (precedence < operator.precedence) && left.leftEdgeAbove precedence

/-- All operators between the root and the last operand bind at least as tight as the given
precedence. -/
def rightEdgeAtLeast (precedence : Nat) : OperatorTree → Bool
  | .operand _ _ => true
  | .negation argument =>
    decide (precedence ≤ Operator.negation.precedence) && argument.rightEdgeAtLeast precedence
  | .binary operator _ right =>
    decide (precedence ≤ operator.precedence) && right.rightEdgeAtLeast precedence

/-- Every operator takes the operands that its precedence gives it. -/
def IsOrdered : OperatorTree → Prop
  | .operand _ _ => True
  | .negation argument =>
    argument.IsOrdered ∧ argument.leftEdgeAbove Operator.negation.precedence = true
  | .binary operator left right =>
    left.IsOrdered ∧ right.IsOrdered ∧ left.rightEdgeAtLeast operator.precedence = true ∧
      right.leftEdgeAbove operator.precedence = true

/-- The value of a tree: both operands are computed from left to right, then the operator. -/
def evaluate (context : Context) : OperatorTree → Result Value
  | .operand token valid => token.value context valid
  | .negation argument => do
    let value ← argument.evaluate context
    return value.negated
  | .binary operator left right => do
    let first ← left.evaluate context
    let second ← right.evaluate context
    operator.apply first second

section OrderedTree

/-- Puts an operator in front of a tree: it takes the part at the left end of the tree that binds
tighter than the given precedence. -/
def attach (precedence : Nat) (apply : OperatorTree → OperatorTree) : OperatorTree → OperatorTree
  | .binary operator left right =>
    if (OperatorTree.binary operator left right).leftEdgeAbove precedence then
      apply (.binary operator left right)
    else .binary operator (attach precedence apply left) right
  | tree => apply tree

private theorem attach_of_leftEdgeAbove {precedence : Nat} (apply : OperatorTree → OperatorTree)
    {tree : OperatorTree} (tight : tree.leftEdgeAbove precedence = true) :
    attach precedence apply tree = apply tree := by
  cases tree with
  | operand | negation => rfl
  | binary operator left right => rw [attach, if_pos tight]

private theorem attach_of_loose {precedence : Nat} (apply : OperatorTree → OperatorTree)
    {operator : BinaryOperator} (left right : OperatorTree)
    (loose : operator.precedence ≤ precedence) :
    attach precedence apply (.binary operator left right) =
      .binary operator (attach precedence apply left) right := by
  have edge : ¬ (OperatorTree.binary operator left right).leftEdgeAbove precedence = true := by
    simp only [leftEdgeAbove, Bool.and_eq_true, decide_eq_true_eq, not_and]
    omega
  rw [attach, if_neg edge]

/-- Operators further down the left end of an ordered tree bind at least as tight as its root. -/
theorem precedence_le_of_not_leftEdgeAbove {operator : BinaryOperator} {left right : OperatorTree}
    {precedence : Nat} (ordered : (OperatorTree.binary operator left right).IsOrdered)
    (loose : ¬ (OperatorTree.binary operator left right).leftEdgeAbove precedence = true) :
    operator.precedence ≤ precedence := by
  induction left generalizing operator right with
  | operand => simpa [leftEdgeAbove] using loose
  | negation => simpa [leftEdgeAbove] using loose
  | binary inner first second ih _ =>
    obtain ⟨leftOrdered, -, edge, -⟩ := ordered
    simp only [rightEdgeAtLeast, Bool.and_eq_true, decide_eq_true_eq] at edge
    rcases Nat.lt_or_ge precedence operator.precedence with above | within
    · have innerLoose :
          ¬ (OperatorTree.binary inner first second).leftEdgeAbove precedence = true := by
        intro innerTight
        apply loose
        rw [leftEdgeAbove, innerTight, Bool.and_true, decide_eq_true_eq]
        exact above
      have := ih leftOrdered innerLoose
      omega
    · exact within

/-- Attaching an operator of the given precedence keeps a tree ordered, if the operator alone
does. -/
theorem isOrdered_attach (precedence : Nat) (apply : OperatorTree → OperatorTree)
    (applies : ∀ tree : OperatorTree, tree.IsOrdered → tree.leftEdgeAbove precedence = true →
      (apply tree).IsOrdered)
    (keeps : ∀ (bound : Nat) (tree : OperatorTree), bound ≤ precedence →
      tree.rightEdgeAtLeast bound = true → (apply tree).rightEdgeAtLeast bound = true)
    {tree : OperatorTree} (ordered : tree.IsOrdered) :
    (attach precedence apply tree).IsOrdered ∧
      ∀ bound ≤ precedence, tree.rightEdgeAtLeast bound = true →
        (attach precedence apply tree).rightEdgeAtLeast bound = true := by
  induction tree with
  | operand token valid => exact ⟨applies _ ordered rfl, fun bound small => keeps bound _ small⟩
  | negation argument => exact ⟨applies _ ordered rfl, fun bound small => keeps bound _ small⟩
  | binary operator left right ihLeft _ =>
    by_cases tight : (OperatorTree.binary operator left right).leftEdgeAbove precedence = true
    · rw [attach_of_leftEdgeAbove apply tight]
      exact ⟨applies _ ordered tight, fun bound small => keeps bound _ small⟩
    · have loose := precedence_le_of_not_leftEdgeAbove ordered tight
      rw [attach_of_loose apply left right loose]
      obtain ⟨leftOrdered, rightOrdered, leftEdge, rightEdge⟩ := ordered
      obtain ⟨attached, edge⟩ := ihLeft leftOrdered
      exact ⟨⟨attached, rightOrdered, edge _ loose leftEdge, rightEdge⟩, fun _ _ => id⟩

private theorem tokens_attach (precedence : Nat) (apply : OperatorTree → OperatorTree)
    (front : Expression) (applied : ∀ tree, (apply tree).tokens = front ++ tree.tokens)
    (tree : OperatorTree) : (attach precedence apply tree).tokens = front ++ tree.tokens := by
  induction tree with
  | operand token valid => exact applied _
  | negation argument => exact applied _
  | binary operator left right ihLeft _ =>
    rw [attach]
    split
    · exact applied _
    · rw [tokens, ihLeft, List.append_assoc, tokens]

private theorem leftEdgeAbove_attach_binary {bound : Nat} {operator : BinaryOperator}
    (loose : operator.precedence ≤ bound) (precedence : Nat) (left tree : OperatorTree) :
    (attach precedence (.binary operator left) tree).leftEdgeAbove bound = false := by
  have direct (right : OperatorTree) :
      (OperatorTree.binary operator left right).leftEdgeAbove bound = false := by
    rw [leftEdgeAbove, decide_eq_false (by omega), Bool.false_and]
  induction tree with
  | operand token valid => exact direct _
  | negation argument => exact direct _
  | binary root first second ih _ =>
    rw [attach]
    split
    · exact direct _
    · rw [leftEdgeAbove, ih, Bool.and_false]

/-- An operator attached in front of a looser one meets its left operand. -/
theorem attach_attach {precedence : Nat} (apply : OperatorTree → OperatorTree)
    {operator : BinaryOperator} {left : OperatorTree} (tree : OperatorTree)
    (loose : operator.precedence ≤ precedence) (tight : left.leftEdgeAbove precedence = true) :
    attach precedence apply (attach operator.precedence (.binary operator left) tree) =
      attach operator.precedence (.binary operator (apply left)) tree := by
  have direct (right : OperatorTree) :
      attach precedence apply (.binary operator left right) =
        .binary operator (apply left) right := by
    rw [attach_of_loose apply left right loose, attach_of_leftEdgeAbove apply tight]
  induction tree with
  | operand token valid => exact direct _
  | negation argument => exact direct _
  | binary root first second ih _ =>
    by_cases edge :
        (OperatorTree.binary root first second).leftEdgeAbove operator.precedence = true
    · rw [attach_of_leftEdgeAbove _ edge, attach_of_leftEdgeAbove _ edge]
      exact direct _
    · have hidden := leftEdgeAbove_attach_binary loose operator.precedence left
        (.binary root first second)
      simp only [attach, if_neg edge] at hidden ⊢
      rw [if_neg (by rw [hidden]; exact Bool.false_ne_true), ih]

/-- A negation in front of a tree. -/
def negate (tree : OperatorTree) : OperatorTree :=
  attach Operator.negation.precedence .negation tree

/-- A tree and a binary operator in front of another tree. -/
def join (left : OperatorTree) (operator : BinaryOperator) (tree : OperatorTree) : OperatorTree :=
  attach operator.precedence (.binary operator left) tree

private theorem isOrdered_negate {tree : OperatorTree} (ordered : tree.IsOrdered) :
    tree.negate.IsOrdered := by
  refine (isOrdered_attach _ .negation (fun _ argument edge => ⟨argument, edge⟩) ?_ ordered).1
  intro bound argument small edge
  rw [rightEdgeAtLeast, edge, Bool.and_true, decide_eq_true_eq]
  exact small

private theorem isOrdered_join {left tree : OperatorTree} {operator : BinaryOperator}
    (leftOrdered : left.IsOrdered) (edge : left.rightEdgeAtLeast operator.precedence = true)
    (ordered : tree.IsOrdered) : (left.join operator tree).IsOrdered := by
  refine (isOrdered_attach _ (.binary operator left)
    (fun _ right above => ⟨leftOrdered, right, edge, above⟩) ?_ ordered).1
  intro bound right small rightEdge
  rw [rightEdgeAtLeast, rightEdge, Bool.and_true, decide_eq_true_eq]
  exact small

private theorem tokens_negate (tree : OperatorTree) :
    tree.negate.tokens = .operator .negation :: tree.tokens :=
  tokens_attach _ .negation [.operator .negation] (fun _ => rfl) tree

private theorem tokens_join (left tree : OperatorTree) (operator : BinaryOperator) :
    (left.join operator tree).tokens =
      left.tokens ++ .operator (.binary operator) :: tree.tokens := by
  rw [join, tokens_attach _ (.binary operator left) (left.tokens ++ [.operator (.binary operator)])
    (fun _ => by rw [tokens, List.append_assoc]; rfl), List.append_assoc]
  rfl

/-- The tree of a sequence of tokens, built from its end. -/
def ofTokens? : Expression → Option OperatorTree
  | [] => none
  | token :: rest =>
    if valid : token.isOperand = true then
      match rest with
      | [] => some (.operand token valid)
      | .operator (.binary operator) :: rest =>
        (ofTokens? rest).map (join (.operand token valid) operator)
      | _ => none
    else
      match token with
      | .operator .negation => (ofTokens? rest).map negate
      | _ => none

private theorem ofTokens?_tokens_append {left : OperatorTree} (ordered : left.IsOrdered)
    {operator : BinaryOperator} (edge : left.rightEdgeAtLeast operator.precedence = true)
    (rest : Expression) :
    ofTokens? (left.tokens ++ .operator (.binary operator) :: rest) =
      (ofTokens? rest).map (join left operator) := by
  induction left generalizing operator rest with
  | operand token valid =>
    rw [tokens, List.singleton_append, ofTokens?, dif_pos valid]
  | negation argument ih =>
    simp only [rightEdgeAtLeast, Bool.and_eq_true, decide_eq_true_eq] at edge
    rw [tokens, List.cons_append, ofTokens?, dif_neg (by decide)]
    simp only [ih ordered.1 edge.2, Option.map_map]
    congr 1
    funext tree
    exact attach_attach .negation tree edge.1 ordered.2
  | binary inner first second ihFirst ihSecond =>
    obtain ⟨firstOrdered, secondOrdered, firstEdge, secondEdge⟩ := ordered
    simp only [rightEdgeAtLeast, Bool.and_eq_true, decide_eq_true_eq] at edge
    rw [tokens, List.append_assoc, List.cons_append, ihFirst firstOrdered firstEdge,
      ihSecond secondOrdered edge.2, Option.map_map]
    congr 1
    funext tree
    exact attach_attach (.binary inner first) tree edge.1 secondEdge

/-- An ordered tree is determined by its tokens. -/
theorem ofTokens?_tokens {tree : OperatorTree} (ordered : tree.IsOrdered) :
    ofTokens? tree.tokens = some tree := by
  induction tree with
  | operand token valid => rw [tokens, ofTokens?, dif_pos valid]
  | negation argument ih =>
    rw [tokens, ofTokens?, dif_neg (by decide)]
    simp only [ih ordered.1, Option.map_some, negate]
    rw [attach_of_leftEdgeAbove _ ordered.2]
  | binary operator left right _ ihRight =>
    obtain ⟨leftOrdered, rightOrdered, leftEdge, rightEdge⟩ := ordered
    rw [tokens, ofTokens?_tokens_append leftOrdered leftEdge, ihRight rightOrdered,
      Option.map_some, join, attach_of_leftEdgeAbove _ rightEdge]

private theorem eq_of_tokens_eq {tree other : OperatorTree} (ordered : tree.IsOrdered)
    (otherOrdered : other.IsOrdered) (same : other.tokens = tree.tokens) : other = tree := by
  have built := ofTokens?_tokens otherOrdered
  rw [same, ofTokens?_tokens ordered] at built
  exact (Option.some.inj built).symm

/-- Every well-formed expression has an ordered tree. -/
theorem exists_isOrdered {expression : Expression} (wellFormed : expression.WellFormed) :
    ∃ tree : OperatorTree, tree.IsOrdered ∧ tree.tokens = expression := by
  induction wellFormed with
  | @operand token valid => exact ⟨.operand token valid, trivial, rfl⟩
  | negation _ ih =>
    obtain ⟨tree, ordered, rfl⟩ := ih
    exact ⟨tree.negate, isOrdered_negate ordered, tokens_negate tree⟩
  | @binary token operator _ valid _ ih =>
    obtain ⟨tree, ordered, rfl⟩ := ih
    exact ⟨(OperatorTree.operand token valid).join operator tree,
      isOrdered_join trivial rfl ordered, tokens_join _ tree operator⟩

end OrderedTree

end OperatorTree

namespace Evaluation

variable (whole : Expression) (context : Context)

section Computation

private theorem itemValues_eq_mapM (context : Context) (items : List Expression) :
    itemValues context items = items.mapM (Expression.evaluate context) := by
  induction items with
  | nil => rfl
  | cons item rest ih =>
    rw [itemValues, List.mapM_cons, ih]
    rfl

theorem atom_of_isOperand (context : Context) {token : Token} (valid : token.isOperand = true) :
    atom context token = .operand (token.value context valid) := by
  cases token with
  | operator op =>
    cases op with
    | constant name => rfl
    | negation | binary => cases valid
  | list items =>
    rw [atom, itemValues_eq_mapM]
    rfl
  | identifier | str | int | float | group => rfl

/-- The state after the tokens of an expression. -/
def consume (state : State) (tokens : Expression) : Result State :=
  (atoms context tokens).foldlM (step whole) state

theorem consume_cons (state : State) (token : Token) (tokens : Expression) :
    consume whole context state (token :: tokens) =
      step whole state (atom context token) >>= fun next => consume whole context next tokens := by
  rw [consume, atoms, List.foldlM_cons]
  rfl

private theorem consume_append (state : State) (front rest : Expression) :
    consume whole context state (front ++ rest) =
      consume whole context state front >>= fun next => consume whole context next rest := by
  induction front generalizing state with
  | nil => rfl
  | cons token tokens ih =>
    simp only [List.cons_append, consume_cons, ih, bind_assoc]

theorem step_operand (state : State) (result : Result Value) :
    step whole state (.operand result) = result >>= fun value =>
      if state.expecting then .ok ⟨value :: state.operands, state.waiting, false⟩
      else .error (SyntaxFault.adjacentOperands whole.toText).unplaced := rfl

theorem step_binary {state : State} (complete : state.expecting = false)
    (operator : BinaryOperator) :
    step whole state (.binary operator) =
      reduceDownTo whole operator.precedence state.waiting state.operands >>= fun reduced =>
        .ok ⟨reduced.1, .binary operator :: reduced.2, true⟩ := by
  rw [step, if_neg (by rw [complete]; exact Bool.false_ne_true)]
  rfl

/-- After a whole tree an operator is expected. -/
theorem expecting_of_consume_tokens {tree : OperatorTree} {state next : State}
    (consumed : consume whole context state tree.tokens = .ok next) : next.expecting = false := by
  induction tree generalizing state with
  | operand token valid =>
    rw [OperatorTree.tokens, consume_cons, atom_of_isOperand context valid,
      step_operand] at consumed
    obtain ⟨after, taken, same⟩ := Result.bind_eq_ok.mp consumed
    obtain ⟨value, -, pushed⟩ := Result.bind_eq_ok.mp taken
    cases same
    split at pushed
    · cases pushed
      rfl
    · cases pushed
  | negation argument ih =>
    rw [OperatorTree.tokens, consume_cons] at consumed
    obtain ⟨after, -, rest⟩ := Result.bind_eq_ok.mp consumed
    exact ih rest
  | binary operator left right _ ihRight =>
    rw [OperatorTree.tokens, consume_append] at consumed
    obtain ⟨middle, -, rest⟩ := Result.bind_eq_ok.mp consumed
    rw [consume_cons] at rest
    obtain ⟨after, -, last⟩ := Result.bind_eq_ok.mp rest
    exact ihRight last

private theorem reduceDownTo_of_lt {precedence : Nat} {waiting : List Waiting}
    (operands : List Value) (looser : ∀ top ∈ waiting.head?, top.precedence < precedence) :
    reduceDownTo whole precedence waiting operands = .ok (operands, waiting) := by
  cases waiting with
  | nil => rfl
  | cons top rest =>
    have := looser top rfl
    rw [reduceDownTo, if_neg (by omega)]

private theorem reduceDownTo_negation {precedence : Nat}
    (small : precedence ≤ Operator.negation.precedence) (waiting : List Waiting) (value : Value)
    (operands : List Value) :
    reduceDownTo whole precedence (.negation :: waiting) (value :: operands) =
      reduceDownTo whole precedence waiting (value.negated :: operands) := by
  have within : precedence ≤ Waiting.negation.precedence := small
  rw [reduceDownTo, if_pos within]
  rfl

private theorem reduceDownTo_binary {precedence : Nat} {operator : BinaryOperator}
    (small : precedence ≤ operator.precedence) (waiting : List Waiting) (left right : Value)
    (operands : List Value) :
    reduceDownTo whole precedence (.binary operator :: waiting) (right :: left :: operands) =
      operator.apply left right >>= fun value =>
        reduceDownTo whole precedence waiting (value :: operands) := by
  have within : precedence ≤ (Waiting.binary operator).precedence := small
  rw [reduceDownTo, if_pos within, Waiting.reduce, bind_assoc]
  rfl

/-- Consuming an ordered tree, and then letting the operators down to some precedence compute,
amounts to computing the value of the tree. The operators that wait before the tree are looser
than those at its left end, and the precedence is at most that of those at its right end. -/
theorem consume_tokens {tree : OperatorTree} (ordered : tree.IsOrdered) {precedence : Nat}
    (rightEdge : tree.rightEdgeAtLeast precedence = true) (operands : List Value)
    (waiting : List Waiting)
    (leftEdge : ∀ top ∈ waiting.head?, tree.leftEdgeAbove top.precedence = true) :
    (consume whole context ⟨operands, waiting, true⟩ tree.tokens >>= fun state =>
        reduceDownTo whole precedence state.waiting state.operands) =
      tree.evaluate context >>= fun value =>
        reduceDownTo whole precedence waiting (value :: operands) := by
  induction tree generalizing precedence operands waiting with
  | operand token valid =>
    rw [OperatorTree.tokens, consume_cons, atom_of_isOperand context valid, step_operand,
      bind_assoc, bind_assoc]
    rfl
  | negation argument ih =>
    obtain ⟨argumentOrdered, tight⟩ := ordered
    simp only [OperatorTree.rightEdgeAtLeast, Bool.and_eq_true, decide_eq_true_eq] at rightEdge
    have taken := ih argumentOrdered rightEdge.2 operands (.negation :: waiting) (by
      rintro top ⟨⟩
      exact tight)
    rw [OperatorTree.tokens, consume_cons, atom, step, if_pos rfl, Result.ok_bind, taken,
      OperatorTree.evaluate, bind_assoc]
    apply bind_congr
    intro value
    exact reduceDownTo_negation whole rightEdge.1 waiting value operands
  | binary operator left right ihLeft ihRight =>
    obtain ⟨leftOrdered, rightOrdered, innerRight, innerLeft⟩ := ordered
    simp only [OperatorTree.rightEdgeAtLeast, Bool.and_eq_true, decide_eq_true_eq] at rightEdge
    simp only [OperatorTree.leftEdgeAbove, Bool.and_eq_true, decide_eq_true_eq] at leftEdge
    have first := ihLeft leftOrdered innerRight operands waiting fun top member =>
      (leftEdge top member).2
    have second (value : Value) := ihRight rightOrdered rightEdge.2 (value :: operands)
      (.binary operator :: waiting) (by
        rintro top ⟨⟩
        exact innerLeft)
    -- The operators before the tree are looser than its root and go on waiting.
    have kept (value : Value) :=
      reduceDownTo_of_lt whole (value :: operands) fun top member => (leftEdge top member).1
    let behind (reduced : List Value × List Waiting) :=
      consume whole context ⟨reduced.1, .binary operator :: reduced.2, true⟩ right.tokens >>=
        fun state => reduceDownTo whole precedence state.waiting state.operands
    calc
      _ = (consume whole context ⟨operands, waiting, true⟩ left.tokens >>= fun state =>
            reduceDownTo whole operator.precedence state.waiting state.operands) >>= behind := by
        rw [OperatorTree.tokens, consume_append, bind_assoc, bind_assoc]
        apply Result.bind_congr_of_ok
        intro state consumed
        rw [consume_cons, atom,
          step_binary whole (expecting_of_consume_tokens whole context consumed), bind_assoc,
          bind_assoc]
        rfl
      _ = left.evaluate context >>= fun value => behind (value :: operands, waiting) := by
        simp only [first, bind_assoc, kept, Result.ok_bind]
      _ = _ := by
        simp only [behind, second, OperatorTree.evaluate, bind_assoc,
          reduceDownTo_binary whole rightEdge.1]

theorem finish_of_not_expecting {state : State} (complete : state.expecting = false) :
    finish whole state =
      reduceDownTo whole 0 state.waiting state.operands >>= fun reduced =>
        .ok (reduced.1.headD .null) := by
  rw [finish, complete]
  rfl

private theorem rightEdgeAtLeast_zero (tree : OperatorTree) : tree.rightEdgeAtLeast 0 = true := by
  induction tree with
  | operand => rfl
  | negation argument ih => rw [OperatorTree.rightEdgeAtLeast, ih]; rfl
  | binary operator left right _ ihRight =>
    rw [OperatorTree.rightEdgeAtLeast, ihRight, decide_eq_true (Nat.zero_le _), Bool.and_self]

private theorem run_tokens {tree : OperatorTree} (ordered : tree.IsOrdered) :
    run whole (atoms context tree.tokens) = tree.evaluate context := by
  calc
    run whole (atoms context tree.tokens)
      = (consume whole context ⟨[], [], true⟩ tree.tokens >>= fun state =>
          reduceDownTo whole 0 state.waiting state.operands) >>= fun reduced =>
            .ok (reduced.1.headD .null) := by
      rw [bind_assoc]
      apply Result.bind_congr_of_ok
      intro state consumed
      exact finish_of_not_expecting whole (expecting_of_consume_tokens whole context consumed)
    _ = tree.evaluate context >>= fun value => .ok value := by
      rw [consume_tokens whole context ordered (rightEdgeAtLeast_zero tree) [] [] (by simp),
        bind_assoc]
      rfl
    _ = tree.evaluate context := bind_pure _

end Computation

section IllFormed

/-- What a step can do when it succeeds. -/
theorem step_cases {state next : State} {token : Token}
    (stepped : step whole state (atom context token) = .ok next) :
    (∃ (valid : token.isOperand = true) (value : Value), token.value context valid = .ok value ∧
      state.expecting = true ∧ next = ⟨value :: state.operands, state.waiting, false⟩) ∨
    (token = .operator .negation ∧ state.expecting = true ∧
      next = ⟨state.operands, .negation :: state.waiting, true⟩) ∨
    (∃ operator reduced, token = .operator (.binary operator) ∧ state.expecting = false ∧
      reduceDownTo whole operator.precedence state.waiting state.operands = .ok reduced ∧
      next = ⟨reduced.1, .binary operator :: reduced.2, true⟩) := by
  by_cases valid : token.isOperand = true
  · rw [atom_of_isOperand context valid, step_operand] at stepped
    obtain ⟨value, computed, pushed⟩ := Result.bind_eq_ok.mp stepped
    split at pushed
    · next expecting =>
      cases pushed
      exact .inl ⟨valid, value, computed, expecting, rfl⟩
    · cases pushed
  · match token, valid with
    | .operator .negation, _ =>
      rw [atom, step] at stepped
      split at stepped
      · next expecting =>
        cases stepped
        exact .inr (.inl ⟨rfl, expecting, rfl⟩)
      · cases stepped
    | .operator (.binary operator), _ =>
      cases expecting : state.expecting with
      | true =>
        rw [atom, step, if_pos expecting] at stepped
        cases stepped
      | false =>
        rw [atom, step_binary whole expecting] at stepped
        obtain ⟨reduced, computed, same⟩ := Result.bind_eq_ok.mp stepped
        cases same
        exact .inr (.inr ⟨operator, reduced, rfl, rfl, computed, rfl⟩)
    | .operator (.constant _), valid | .identifier _, valid | .str _, valid | .int _, valid
    | .float _, valid | .list _, valid | .group _, valid => exact absurd rfl valid

/-- Tokens after which an operator is expected are well formed where an operand was expected
before them, and go on with a binary operator elsewhere. -/
theorem wellFormed_of_consume {tokens : Expression} {state next : State}
    (consumed : consume whole context state tokens = .ok next) (complete : next.expecting = false) :
    (state.expecting = true → Expression.WellFormed tokens) ∧
      (state.expecting = false → tokens = [] ∨ ∃ operator rest,
        tokens = .operator (.binary operator) :: rest ∧ Expression.WellFormed rest) := by
  induction tokens generalizing state with
  | nil =>
    cases consumed
    simp [complete]
  | cons token rest ih =>
    rw [consume_cons] at consumed
    obtain ⟨middle, stepped, remaining⟩ := Result.bind_eq_ok.mp consumed
    obtain ⟨fromOperand, fromOperator⟩ := ih remaining
    rcases step_cases whole context stepped with ⟨valid, value, -, expecting, rfl⟩ |
      ⟨rfl, expecting, rfl⟩ | ⟨operator, reduced, rfl, expecting, -, rfl⟩
    · refine ⟨fun _ => ?_, by simp [expecting]⟩
      rcases fromOperator rfl with rfl | ⟨operator, behind, rfl, wellFormed⟩
      · exact .operand valid
      · exact .binary valid wellFormed
    · exact ⟨fun _ => .negation (fromOperand rfl), by simp [expecting]⟩
    · exact ⟨by simp [expecting], fun _ => .inr ⟨operator, rest, rfl, fromOperand rfl⟩⟩

/-- Where an operand is still expected behind some tokens, an operator waits for it. -/
theorem waiting_ne_nil_of_consume {tokens : Expression} {state next : State}
    (consumed : consume whole context state tokens = .ok next) (expecting : next.expecting = true)
    (nonempty : tokens ≠ []) : next.waiting ≠ [] := by
  induction tokens generalizing state with
  | nil => exact absurd rfl nonempty
  | cons token rest ih =>
    rw [consume_cons] at consumed
    obtain ⟨middle, stepped, remaining⟩ := Result.bind_eq_ok.mp consumed
    by_cases last : rest = []
    · subst last
      cases remaining
      rcases step_cases whole context stepped with ⟨_, _, -, -, rfl⟩ | ⟨-, -, rfl⟩ |
        ⟨_, _, -, -, -, rfl⟩
      · cases expecting
      · exact List.cons_ne_nil _ _
      · exact List.cons_ne_nil _ _
    · exact ih remaining last

private theorem wellFormed_of_run {tokens : Expression} {value : Value}
    (computed : run whole (atoms context tokens) = .ok value) (nonempty : tokens ≠ []) :
    Expression.WellFormed tokens := by
  obtain ⟨state, consumed, finished⟩ := Result.bind_eq_ok.mp computed
  cases expecting : state.expecting with
  | false => exact (wellFormed_of_consume whole context consumed expecting).1 rfl
  | true =>
    have waits := waiting_ne_nil_of_consume whole context consumed expecting nonempty
    obtain ⟨top, rest, same⟩ := List.exists_cons_of_ne_nil waits
    rw [finish, expecting, same] at finished
    cases finished

end IllFormed

end Evaluation

/-- The operators have seven precedences. Evaluation computes the one tree that respects them, from
left to right and without leaving out an operand. No tokens give nothing, and all other sequences of
tokens fail. -/
theorem Expression.evaluate_eq_orderedTree (context : Context) (expression : Expression) :
    (∀ operator : Operator, operator.arity ≠ 0 →
      operator.symbol ∈ Operator.spellings operator.precedence) ∧
    (expression.WellFormed → ∃ tree : OperatorTree, tree.IsOrdered ∧ tree.tokens = expression ∧
      (∀ other : OperatorTree, other.IsOrdered → other.tokens = expression → other = tree) ∧
      expression.evaluate context = tree.evaluate context) ∧
    (expression = [] → expression.evaluate context = .ok .null) ∧
    (¬ expression.WellFormed → expression ≠ [] →
      ∃ error, expression.evaluate context = .error error) := by
  refine ⟨fun _ => Operator.symbol_mem_spellings, fun wellFormed => ?_, fun empty => ?_,
    fun malformed nonempty => ?_⟩
  · obtain ⟨tree, ordered, rfl⟩ := OperatorTree.exists_isOrdered wellFormed
    exact ⟨tree, ordered, rfl, fun other => (OperatorTree.eq_of_tokens_eq ordered ·),
      Evaluation.run_tokens _ context ordered⟩
  · subst empty
    rfl
  · cases answer : expression.evaluate context with
    | ok value => exact absurd (Evaluation.wellFormed_of_run _ context answer nonempty) malformed
    | error error => exact ⟨error, rfl⟩

end Stencil
