import Stencil.Proofs.OperatorFailures
import Stencil.Proofs.Precedence

/-! # The balance of operands and operators

At the head of each loop of an evaluation there are as many operands as waiting operators that take
two of them, and one more where no operand is expected: `Evaluation.isBalanced_of_reached`.
Operators only compute where no operand is expected, so all the operands that they take are there,
and only the end of an expression can find that one is missing: `Evaluation.reached_isBalanced`.
-/

namespace Stencil

open Result

/-- A failure that says of some operator that its right operand is missing. -/
def Error.IsMissingRight (error : Error) : Prop :=
  ∃ symbol text, error = (SyntaxFault.missingRightOperand symbol text).unplaced

private theorem Error.not_isMissingRight_of_isOperatorFailure {error : Error}
    (failure : error.IsOperatorFailure) : ¬error.IsMissingRight := by
  rintro ⟨_, _, rfl⟩
  exact failure

namespace Token

/-- The expressions inside a token. -/
def inners : Token → List Expression
  | .list items => items
  | .group tokens => [tokens]
  | _ => []

private theorem sizeOf_lt_of_mem_inners {token : Token} {inner : Expression}
    (member : inner ∈ token.inners) : sizeOf inner < sizeOf token := by
  cases token with
  | list items =>
    have : sizeOf inner < sizeOf items := List.sizeOf_lt_of_mem member
    rw [list.sizeOf_spec]
    omega
  | group tokens =>
    obtain rfl := List.mem_singleton.mp member
    rw [group.sizeOf_spec]
    omega
  | identifier | operator | str | int | float => cases member

/-- An operand fails only if an expression inside it does. -/
theorem exists_of_value_eq_error {context : Context} {token : Token}
    {valid : token.isOperand = true} {error : Error}
    (failed : token.value context valid = .error error) :
    ∃ inner ∈ token.inners, inner.evaluate context = .error error := by
  cases token with
  | operator op =>
    cases op with
    | constant name => cases failed
    | negation | binary => cases valid
  | list items =>
    cases computed : items.mapM (Expression.evaluate context) with
    | ok values =>
      rw [value, computed] at failed
      cases failed
    | error other =>
      rw [value, computed] at failed
      cases failed
      exact exists_of_mapM_eq_error computed
  | group tokens => exact ⟨tokens, List.mem_singleton_self _, failed⟩
  | identifier | str | int | float => cases failed

end Token

namespace Evaluation

section Points

/-- Whether a waiting operator takes two operands. -/
def Waiting.isBinary : Waiting → Bool
  | .negation => false
  | .binary _ => true

/-- There is an operand for each operator that takes two, and one more if no operand comes next. -/
def State.IsBalanced (state : State) : Prop :=
  state.operands.length =
    state.waiting.countP Waiting.isBinary + if state.expecting then 0 else 1

/-- The last waiting operator computes before anything else happens: in front of a binary operator
that does not bind tighter, and behind the last token. In both places the evaluation has failed
before if an operand is expected, in the latter one at least if an operator waits for it. -/
inductive Computes (state : State) (top : Waiting) (below : List Waiting) : Expression → Prop
  | before {operator : BinaryOperator} {rest : Expression}
      (complete : ¬state.expecting = true) (stacked : state.waiting = top :: below)
      (binds : operator.precedence ≤ top.precedence) :
      Computes state top below (.operator (.binary operator) :: rest)
  | atEnd (complete : ¬(state.expecting = true ∧ state.waiting ≠ []))
      (stacked : state.waiting = top :: below) : Computes state top below []

/-- The states at the heads of the loops of an evaluation, with the tokens that are still to come:
of the loop over the tokens, and of the loops in which waiting operators compute. -/
inductive Reached (context : Context) (expression : Expression) : State → Expression → Prop
  | start : Reached context expression ⟨[], [], true⟩ expression
  | take {state next : State} {token : Token} {rest : Expression}
      (reached : Reached context expression state (token :: rest))
      (stepped : step expression state (atom context token) = .ok next) :
      Reached context expression next rest
  | compute {state : State} {top : Waiting} {below : List Waiting} {tokens : Expression}
      {operands : List Value} (reached : Reached context expression state tokens)
      (computes : Computes state top below tokens)
      (computed : top.reduce expression state.operands = .ok operands) :
      Reached context expression ⟨operands, below, state.expecting⟩ tokens

/-- An evaluation at whose end an operator waits for its right operand, or an evaluation inside it,
and the failure that says so. -/
inductive EndsExpecting (context : Context) : Expression → Error → Prop
  | here {expression : Expression} {operands : List Value} {top : Waiting} {below : List Waiting}
      (reached : Reached context expression ⟨operands, top :: below, true⟩ []) :
      EndsExpecting context expression (top.missingRight expression)
  | inside {expression inner : Expression} {token : Token} {error : Error}
      (member : token ∈ expression) (innerMember : inner ∈ token.inners)
      (ends : EndsExpecting context inner error) : EndsExpecting context expression error

end Points

variable {expression : Expression} {context : Context}

section Balance

private theorem Computes.stacked {state : State} {top : Waiting} {below : List Waiting}
    {tokens : Expression} (computes : Computes state top below tokens) :
    state.waiting = top :: below := by
  cases computes with
  | before _ stacked | atEnd _ stacked => exact stacked

/-- No operator computes where an operand is expected. -/
theorem Computes.complete {state : State} {top : Waiting} {below : List Waiting}
    {tokens : Expression} (computes : Computes state top below tokens) :
    state.expecting = false := by
  rw [← Bool.not_eq_true]
  cases computes with
  | before complete => exact complete
  | atEnd complete stacked =>
    intro expecting
    exact complete ⟨expecting, by rw [stacked]; exact List.cons_ne_nil _ _⟩

private theorem countP_binary_cons (operator : BinaryOperator) (below : List Waiting) :
    (.binary operator :: below : List Waiting).countP Waiting.isBinary =
      below.countP Waiting.isBinary + 1 :=
  List.countP_cons_of_pos rfl

private theorem isBalanced_start : State.IsBalanced ⟨[], [], true⟩ := rfl

/-- A waiting operator finds its operands. -/
theorem arity_le_of_isBalanced {operands : List Value} {top : Waiting} {below : List Waiting}
    (balanced : State.IsBalanced ⟨operands, top :: below, false⟩) :
    top.operator.arity ≤ operands.length := by
  rw [State.IsBalanced] at balanced
  cases top with
  | negation =>
    simp only [Bool.false_eq_true, if_false] at balanced
    change 1 ≤ operands.length
    omega
  | binary operator =>
    simp only [countP_binary_cons, Bool.false_eq_true, if_false] at balanced
    change 2 ≤ operands.length
    omega

/-- A waiting operator that computes keeps the balance, and can only fail on its operands. -/
theorem satisfies_reduce {operands : List Value} {top : Waiting} {below : List Waiting}
    (balanced : State.IsBalanced ⟨operands, top :: below, false⟩) :
    Satisfies (fun next => State.IsBalanced ⟨next, below, false⟩) Error.IsOperatorFailure
      (top.reduce expression operands) := by
  have enough := arity_le_of_isBalanced balanced
  cases top with
  | negation =>
    cases operands with
    | nil => cases enough
    | cons value rest => exact balanced
  | binary operator =>
    match operands, enough with
    | right :: left :: rest, _ =>
      have applied : FailsWith Error.IsOperatorFailure (operator.apply left right) :=
        operator.failsWith_apply left right
      refine Satisfies.bind applied fun value _ => ?_
      simp only [State.IsBalanced, countP_binary_cons, List.length_cons, Bool.false_eq_true,
        if_false] at balanced
      change (value :: rest).length = below.countP Waiting.isBinary + 1
      rw [List.length_cons]
      omega

/-- The operators that compute keep the balance, and none of them misses an operand. -/
theorem satisfies_reduceDownTo {operands : List Value} {waiting : List Waiting}
    (balanced : State.IsBalanced ⟨operands, waiting, false⟩) (precedence : Nat) :
    Satisfies (fun reduced => State.IsBalanced ⟨reduced.1, reduced.2, false⟩)
      Error.IsOperatorFailure (reduceDownTo expression precedence waiting operands) := by
  induction waiting generalizing operands with
  | nil => exact balanced
  | cons top below ih =>
    rw [reduceDownTo]
    split
    · exact (satisfies_reduce balanced).bind fun next stillBalanced => ih stillBalanced
    · exact balanced

private theorem isBalanced_of_step {state next : State} {token : Token}
    (balanced : state.IsBalanced)
    (stepped : step expression state (atom context token) = .ok next) : next.IsBalanced := by
  obtain ⟨operands, waiting, expecting⟩ := state
  rcases step_cases expression context stepped with ⟨_, value, -, rfl, rfl⟩ | ⟨-, rfl, rfl⟩ |
    ⟨operator, reduced, -, rfl, computed, rfl⟩
  · simpa [State.IsBalanced] using balanced
  · exact balanced
  · have kept := (satisfies_reduceDownTo balanced operator.precedence).of_ok computed
    rw [State.IsBalanced, countP_binary_cons]
    exact kept

/-- An evaluation is balanced at every point. -/
theorem isBalanced_of_reached {state : State} {tokens : Expression}
    (reached : Reached context expression state tokens) : state.IsBalanced := by
  induction reached with
  | start => exact isBalanced_start
  | take _ stepped ih => exact isBalanced_of_step ih stepped
  | @compute state top below tokens operands _ computes computed ih =>
    obtain ⟨values, waiting, expecting⟩ := state
    obtain rfl : waiting = top :: below := computes.stacked
    obtain rfl : expecting = false := computes.complete
    exact (satisfies_reduce ih).of_ok computed

end Balance

section Run

/-- A waiting operator that computes in front of a binary one belongs to the step of the latter. -/
theorem step_of_reduce {state : State} {top : Waiting} {below : List Waiting}
    {operator : BinaryOperator} {operands : List Value} (complete : state.expecting = false)
    (stacked : state.waiting = top :: below) (binds : operator.precedence ≤ top.precedence)
    (computed : top.reduce expression state.operands = .ok operands) :
    step expression state (.binary operator) =
      step expression ⟨operands, below, state.expecting⟩ (.binary operator) := by
  have stillComplete : (State.mk operands below state.expecting).expecting = false := complete
  rw [step_binary expression complete, step_binary expression stillComplete, stacked, reduceDownTo,
    if_pos binds, computed, Result.ok_bind]

private theorem finish_of_reduce {state : State} {top : Waiting} {below : List Waiting}
    {operands : List Value} (complete : state.expecting = false)
    (stacked : state.waiting = top :: below)
    (computed : top.reduce expression state.operands = .ok operands) :
    finish expression state = finish expression ⟨operands, below, state.expecting⟩ := by
  have stillComplete : (State.mk operands below state.expecting).expecting = false := complete
  rw [finish_of_not_expecting expression complete,
    finish_of_not_expecting expression stillComplete, stacked, reduceDownTo,
    if_pos (Nat.zero_le _), computed, Result.ok_bind]

/-- From every point the evaluation goes on to its answer. -/
theorem evaluate_eq_of_reached {state : State} {tokens : Expression}
    (reached : Reached context expression state tokens) :
    expression.evaluate context =
      consume expression context state tokens >>= finish expression := by
  induction reached with
  | start => rfl
  | take _ stepped ih => rw [ih, consume_cons, stepped, Result.ok_bind]
  | @compute state top below tokens operands _ computes computed ih =>
    have complete := computes.complete
    rw [ih]
    cases computes with
    | atEnd _ stacked => exact finish_of_reduce complete stacked computed
    | before _ stacked binds =>
      rw [consume_cons, consume_cons, atom, step_of_reduce complete stacked binds computed]

private theorem reached_of_consume {state next : State} {tokens : Expression}
    (reached : Reached context expression state tokens)
    (consumed : consume expression context state tokens = .ok next) :
    Reached context expression next [] := by
  induction tokens generalizing state with
  | nil =>
    cases consumed
    exact reached
  | cons token rest ih =>
    rw [consume_cons] at consumed
    obtain ⟨middle, stepped, remaining⟩ := Result.bind_eq_ok.mp consumed
    exact ih (reached.take stepped) remaining

/-- The waiting operators compute one after the other. -/
theorem reached_of_reduceDownTo {operands : List Value} {waiting : List Waiting}
    {reduced : List Value × List Waiting} (reached : Reached context expression
      ⟨operands, waiting, false⟩ []) (computed : reduceDownTo expression 0 waiting operands =
      .ok reduced) : Reached context expression ⟨reduced.1, [], false⟩ [] := by
  induction waiting generalizing operands with
  | nil =>
    cases computed
    exact reached
  | cons top below ih =>
    rw [reduceDownTo, if_pos (Nat.zero_le _)] at computed
    obtain ⟨next, first, computed⟩ := Result.bind_eq_ok.mp computed
    exact ih (reached.compute (.atEnd (by simp) rfl) first) computed

/-- An evaluation that succeeds ends with its value as the only operand. -/
theorem reached_of_evaluate {value : Value} (nonempty : expression ≠ [])
    (evaluated : expression.evaluate context = .ok value) :
    Reached context expression ⟨[value], [], false⟩ [] := by
  obtain ⟨state, consumed, finished⟩ := Result.bind_eq_ok.mp evaluated
  have reached := reached_of_consume .start consumed
  obtain ⟨operands, waiting, expecting⟩ := state
  cases expecting with
  | true =>
    have waits := waiting_ne_nil_of_consume expression context consumed rfl nonempty
    obtain ⟨top, below, rfl⟩ := List.exists_cons_of_ne_nil waits
    cases finished
  | false =>
    rw [finish_of_not_expecting expression rfl] at finished
    obtain ⟨reduced, computed, same⟩ := Result.bind_eq_ok.mp finished
    have last := reached_of_reduceDownTo reached computed
    have one : reduced.1.length = 1 := isBalanced_of_reached last
    obtain ⟨only, single⟩ := List.length_eq_one_iff.mp one
    rw [single] at same last
    cases same
    exact last

private theorem evaluate_of_reached {value : Value}
    (reached : Reached context expression ⟨[value], [], false⟩ []) :
    expression.evaluate context = .ok value :=
  evaluate_eq_of_reached reached

end Run

section MissingOperands

/-- While tokens are taken, an operand is found missing only inside of one of them. -/
theorem exists_of_step_eq_error {state : State} {token : Token} {error : Error}
    (balanced : state.IsBalanced)
    (failed : step expression state (atom context token) = .error error)
    (missing : error.IsMissingRight) :
    ∃ inner ∈ token.inners, inner.evaluate context = .error error := by
  obtain ⟨symbol, text, rfl⟩ := missing
  by_cases valid : token.isOperand = true
  · rw [atom_of_isOperand context valid, step_operand] at failed
    rcases Result.bind_eq_error.mp failed with inside | ⟨value, -, refused⟩
    · exact token.exists_of_value_eq_error inside
    · split at refused <;> cases refused
  · match token, valid with
    | .operator .negation, _ =>
      rw [atom, step] at failed
      split at failed <;> cases failed
    | .operator (.binary operator), _ =>
      obtain ⟨operands, waiting, expecting⟩ := state
      cases expecting with
      | true =>
        rw [atom, step, if_pos rfl] at failed
        cases failed
      | false =>
        rw [atom, step_binary expression rfl] at failed
        rcases Result.bind_eq_error.mp failed with computing | ⟨_, -, impossible⟩
        · have failure := (satisfies_reduceDownTo balanced operator.precedence).of_error computing
          exact (Error.not_isMissingRight_of_isOperatorFailure failure ⟨symbol, text, rfl⟩).elim
        · cases impossible
    | .operator (.constant _), valid | .identifier _, valid | .str _, valid | .int _, valid
    | .float _, valid | .list _, valid | .group _, valid => exact absurd rfl valid

private theorem exists_of_consume_eq_error {state : State} {tokens : Expression} {error : Error}
    (balanced : state.IsBalanced)
    (failed : consume expression context state tokens = .error error)
    (missing : error.IsMissingRight) :
    ∃ token ∈ tokens, ∃ inner ∈ token.inners, inner.evaluate context = .error error := by
  induction tokens generalizing state with
  | nil => cases failed
  | cons token rest ih =>
    rw [consume_cons] at failed
    rcases Result.bind_eq_error.mp failed with first | ⟨next, stepped, failed⟩
    · exact ⟨token, List.mem_cons_self, exists_of_step_eq_error balanced first missing⟩
    · obtain ⟨later, member, inside⟩ := ih (isBalanced_of_step balanced stepped) failed
      exact ⟨later, List.mem_cons_of_mem _ member, inside⟩

/-- Behind the tokens an operand is missing only if one is expected and an operator waits for
it. -/
theorem eq_missingRight_of_finish_eq_error {state : State} {error : Error}
    (balanced : state.IsBalanced) (failed : finish expression state = .error error)
    (missing : error.IsMissingRight) :
    ∃ operands top below, state = ⟨operands, top :: below, true⟩ ∧
      error = top.missingRight expression := by
  obtain ⟨operands, waiting, expecting⟩ := state
  cases expecting with
  | true =>
    cases waiting with
    | nil => cases failed
    | cons top below =>
      cases failed
      exact ⟨operands, top, below, rfl, rfl⟩
  | false =>
    rw [finish_of_not_expecting expression rfl] at failed
    rcases Result.bind_eq_error.mp failed with computing | ⟨_, -, impossible⟩
    · have failure := (satisfies_reduceDownTo balanced 0).of_error computing
      exact (error.not_isMissingRight_of_isOperatorFailure failure missing).elim
    · cases impossible

/-- An operand is found missing only at the end of an expression. -/
theorem endsExpecting_of_evaluate (context : Context) (expression : Expression) {error : Error}
    (failed : expression.evaluate context = .error error) (missing : error.IsMissingRight) :
    EndsExpecting context expression error := by
  rcases Result.bind_eq_error.mp failed with consuming | ⟨state, consumed, finishing⟩
  · obtain ⟨token, member, inner, innerMember, inside⟩ :=
      exists_of_consume_eq_error isBalanced_start consuming missing
    exact .inside member innerMember (endsExpecting_of_evaluate context inner inside missing)
  · have reached := reached_of_consume .start consumed
    obtain ⟨operands, top, below, rfl, rfl⟩ :=
      eq_missingRight_of_finish_eq_error (isBalanced_of_reached reached) finishing missing
    exact .here reached
termination_by sizeOf expression
decreasing_by
  exact Nat.lt_trans (Token.sizeOf_lt_of_mem_inners innerMember) (List.sizeOf_lt_of_mem member)

/-- At every point of an evaluation the operands are balanced. An operator computes only where no
operand is expected, and does not miss one; that one is missing is found at the end of an expression
only, by an operator that waits for it. An evaluation of tokens succeeds if it ends with one operand
and no operator, and then the operand is its value. -/
theorem reached_isBalanced (context : Context) (expression : Expression) :
    (∀ state tokens, Reached context expression state tokens → state.IsBalanced) ∧
    (∀ state tokens top below, Reached context expression state tokens →
      Computes state top below tokens →
      state.expecting = false ∧ top.operator.arity ≤ state.operands.length ∧
        ∀ symbol text, top.reduce expression state.operands ≠
          .error (SyntaxFault.missingRightOperand symbol text).unplaced) ∧
    (∀ symbol text,
      expression.evaluate context =
          .error (SyntaxFault.missingRightOperand symbol text).unplaced →
        EndsExpecting context expression
          (SyntaxFault.missingRightOperand symbol text).unplaced) ∧
    (expression ≠ [] → ∀ value, expression.evaluate context = .ok value ↔
      Reached context expression ⟨[value], [], false⟩ []) := by
  refine ⟨fun state tokens => isBalanced_of_reached, fun state tokens top below reached computes =>
    ?_, fun symbol text failed => ?_, fun nonempty value => ?_⟩
  · have balanced := isBalanced_of_reached reached
    have complete := computes.complete
    obtain ⟨operands, waiting, expecting⟩ := state
    obtain rfl : waiting = top :: below := computes.stacked
    obtain rfl : expecting = false := complete
    refine ⟨rfl, arity_le_of_isBalanced balanced, fun symbol text failed => ?_⟩
    have failure := (satisfies_reduce balanced).of_error failed
    exact Error.not_isMissingRight_of_isOperatorFailure failure ⟨symbol, text, rfl⟩
  · exact endsExpecting_of_evaluate context expression failed ⟨symbol, text, rfl⟩
  · exact ⟨reached_of_evaluate nonempty, evaluate_of_reached⟩

end MissingOperands

end Evaluation

end Stencil
