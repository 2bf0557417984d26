import Stencil.Expression.Evaluation
import Stencil.Proofs.ValueCharacters

/-! # What a value is made of

The value of an expression depends on the paths that it mentions, `Expression.evaluate_congr`, and
on nothing else of the context. Its characters come from the values of these paths and from the
text of the expression: a character that occurs in neither does not occur in the value,
`Expression.avoids_of_evaluate` and `Expression.avoid_of_read`.
-/

namespace Stencil

namespace Token

mutual

/-- The paths that a token mentions, those inside its inner expressions included. -/
def paths : Token → List Identifier
  | .identifier path => [path]
  | .list items => itemPaths items
  | .group tokens => tokenPaths tokens
  | _ => []

/-- The paths that the tokens of an expression mention. -/
def tokenPaths : List Token → List Identifier
  | [] => []
  | token :: rest => token.paths ++ tokenPaths rest

/-- The paths that the items of a list mention. -/
def itemPaths : List (List Token) → List Identifier
  | [] => []
  | item :: rest => tokenPaths item ++ itemPaths rest

end

@[simp] theorem mem_tokenPaths {path : Identifier} {tokens : List Token} :
    path ∈ tokenPaths tokens ↔ ∃ token ∈ tokens, path ∈ token.paths := by
  induction tokens with
  | nil => simp [tokenPaths]
  | cons token rest ih => simp [tokenPaths, ih]

@[simp] theorem mem_itemPaths {path : Identifier} {items : List (List Token)} :
    path ∈ itemPaths items ↔ ∃ item ∈ items, path ∈ tokenPaths item := by
  induction items with
  | nil => simp [itemPaths]
  | cons item rest ih => simp [itemPaths, ih]

end Token

/-- The paths that an expression mentions. -/
def Expression.paths (expression : Expression) : List Identifier :=
  Token.tokenPaths expression

namespace Evaluation

open Token

section Congruence

variable {context other : Context}

mutual

private theorem atom_congr : ∀ token : Token,
    (∀ path ∈ token.paths, context.resolve path = other.resolve path) →
    atom context token = atom other token
  | .identifier path, same => by rw [atom, atom, same path List.mem_cons_self]
  | .operator (.constant _), _ => rfl
  | .operator .negation, _ => rfl
  | .operator (.binary _), _ => rfl
  | .str _, _ => rfl
  | .int _, _ => rfl
  | .float _, _ => rfl
  | .list items, same => by rw [atom, atom, itemValues_congr items same]
  | .group tokens, same => by rw [atom, atom, atoms_congr tokens same]

private theorem atoms_congr : ∀ tokens : List Token,
    (∀ path ∈ tokenPaths tokens, context.resolve path = other.resolve path) →
    atoms context tokens = atoms other tokens
  | [], _ => rfl
  | token :: rest, same => by
    obtain ⟨here, later⟩ := List.forall_mem_append.mp same
    rw [atoms, atoms, atom_congr token here, atoms_congr rest later]

private theorem itemValues_congr : ∀ items : List (List Token),
    (∀ path ∈ itemPaths items, context.resolve path = other.resolve path) →
    itemValues context items = itemValues other items
  | [], _ => rfl
  | item :: rest, same => by
    obtain ⟨here, later⟩ := List.forall_mem_append.mp same
    rw [itemValues, itemValues, atoms_congr item here, itemValues_congr rest later]

end

end Congruence

end Evaluation

/-- Contexts in which the paths of an expression have the same values give it the same value. -/
theorem Expression.evaluate_congr {expression : Expression} {context other : Context}
    (same : ∀ path ∈ expression.paths, context.resolve path = other.resolve path) :
    expression.evaluate context = expression.evaluate other := by
  rw [evaluate, evaluate, Evaluation.atoms_congr expression same]

namespace Token

mutual

/-- A token in whose texts, or those of its inner expressions, a character does not occur. -/
def Avoids (c : Char) : Token → Prop
  | .str text => c ∉ text.toList
  | .list items => ItemsAvoid c items
  | .group tokens => TokensAvoid c tokens
  | _ => True

/-- Tokens in whose texts a character does not occur. -/
def TokensAvoid (c : Char) : List Token → Prop
  | [] => True
  | token :: rest => token.Avoids c ∧ TokensAvoid c rest

/-- Items in whose texts a character does not occur. -/
def ItemsAvoid (c : Char) : List (List Token) → Prop
  | [] => True
  | item :: rest => TokensAvoid c item ∧ ItemsAvoid c rest

end

@[simp] theorem tokensAvoid_iff {c : Char} {tokens : List Token} :
    TokensAvoid c tokens ↔ ∀ token ∈ tokens, token.Avoids c := by
  induction tokens with
  | nil => simp [TokensAvoid]
  | cons token rest ih => rw [TokensAvoid, List.forall_mem_cons, ih]

@[simp] theorem itemsAvoid_iff {c : Char} {items : List (List Token)} :
    ItemsAvoid c items ↔ ∀ item ∈ items, TokensAvoid c item := by
  induction items with
  | nil => simp [ItemsAvoid]
  | cons item rest ih => rw [ItemsAvoid, List.forall_mem_cons, ih]

end Token

/-- A path of a value goes on in what the value holds. -/
theorem Context.avoids_resolve {c : Char} {context : Context} {path : Identifier}
    (avoids : ∀ value, context.find? path.name = some value → value.Avoids c) :
    (context.resolve path).Avoids c := by
  have walk (attributes : List String) (found : Option Value)
      (foundAvoids : ∀ value, found = some value → value.Avoids c) :
      ((attributes.foldl (fun found name => found.bind (Value.attribute? name)) found).getD
        .null).Avoids c := by
    induction attributes generalizing found with
    | nil =>
      cases found with
      | none => trivial
      | some value => exact foundAvoids value rfl
    | cons name rest ih =>
      refine ih _ fun value isFound => ?_
      obtain ⟨outer, outerFound, inner⟩ := Option.bind_eq_some_iff.mp isFound
      exact Value.avoids_of_attribute? (foundAvoids outer outerFound) inner
  exact walk path.attributes _ avoids

namespace Evaluation

open Token

variable {c : Char} {expression : Expression}

/-- An atom whose value, if it has one, is without a character. -/
def Atom.Avoids (c : Char) : Atom → Prop
  | .operand result => ∀ value, result = .ok value → value.Avoids c
  | _ => True

/-- A state all of whose operands are without a character. -/
def State.Avoids (c : Char) (state : State) : Prop :=
  ∀ value ∈ state.operands, value.Avoids c

private theorem avoid_of_reduce {waiting : Waiting} {operands reduced : List Value}
    (avoid : ∀ value ∈ operands, value.Avoids c)
    (reduces : waiting.reduce expression operands = .ok reduced) :
    ∀ value ∈ reduced, value.Avoids c := by
  unfold Waiting.reduce at reduces
  split at reduces
  · cases reduces
    rw [List.forall_mem_cons] at avoid ⊢
    exact ⟨trivial, avoid.2⟩
  · obtain ⟨result, applied, same⟩ := Result.bind_eq_ok.mp reduces
    cases same
    rw [List.forall_mem_cons, List.forall_mem_cons] at avoid
    exact List.forall_mem_cons.mpr
      ⟨BinaryOperator.avoids_of_apply avoid.2.1 avoid.1 applied, avoid.2.2⟩
  · cases reduces

private theorem avoid_of_reduceDownTo {precedence : Nat} {waiting left : List Waiting}
    {operands reduced : List Value} (avoid : ∀ value ∈ operands, value.Avoids c)
    (reduces : reduceDownTo expression precedence waiting operands = .ok (reduced, left)) :
    ∀ value ∈ reduced, value.Avoids c := by
  induction waiting generalizing operands with
  | nil =>
    cases reduces
    exact avoid
  | cons first rest ih =>
    rw [reduceDownTo] at reduces
    split at reduces
    · obtain ⟨next, firstReduces, later⟩ := Result.bind_eq_ok.mp reduces
      exact ih (avoid_of_reduce avoid firstReduces) later
    · cases reduces
      exact avoid

/-- One atom brings in the characters of its own value only. -/
theorem avoids_of_step {state next : State} {atom : Atom} (avoids : state.Avoids c)
    (atomAvoids : atom.Avoids c) (stepped : step expression state atom = .ok next) :
    next.Avoids c := by
  cases atom with
  | operand result =>
    obtain ⟨value, computed, stepped⟩ := Result.bind_eq_ok.mp stepped
    split at stepped <;> cases stepped
    exact List.forall_mem_cons.mpr ⟨atomAvoids value computed, avoids⟩
  | negation =>
    rw [step] at stepped
    split at stepped <;> cases stepped
    exact avoids
  | binary operator =>
    rw [step] at stepped
    split at stepped
    · cases stepped
    · obtain ⟨⟨operands, waiting⟩, reduces, same⟩ := Result.bind_eq_ok.mp stepped
      cases same
      exact avoid_of_reduceDownTo avoids reduces

private theorem avoids_of_foldlM {atoms : List Atom} {state last : State}
    (avoid : ∀ atom ∈ atoms, atom.Avoids c) (avoids : state.Avoids c)
    (stepped : atoms.foldlM (step expression) state = .ok last) : last.Avoids c := by
  induction atoms generalizing state with
  | nil =>
    cases stepped
    exact avoids
  | cons atom rest ih =>
    rw [List.forall_mem_cons] at avoid
    obtain ⟨next, first, later⟩ := Result.bind_eq_ok.mp stepped
    exact ih avoid.2 (avoids_of_step avoids avoid.1 first) later

private theorem avoids_of_run {atoms : List Atom} {value : Value}
    (avoid : ∀ atom ∈ atoms, atom.Avoids c)
    (computed : run expression atoms = .ok value) : value.Avoids c := by
  obtain ⟨last, stepped, finished⟩ := Result.bind_eq_ok.mp computed
  have start : State.Avoids c ⟨[], [], true⟩ := List.forall_mem_nil _
  have lastAvoids := avoids_of_foldlM avoid start stepped
  rw [finish] at finished
  split at finished
  · cases finished
  · obtain ⟨⟨operands, waiting⟩, reduces, same⟩ := Result.bind_eq_ok.mp finished
    cases same
    have avoid := avoid_of_reduceDownTo lastAvoids reduces
    cases operands with
    | nil => trivial
    | cons first rest => exact avoid first List.mem_cons_self

section Tokens

variable {context : Context}

mutual

private theorem avoids_atom : ∀ token : Token, token.Avoids c →
    (∀ path ∈ token.paths, (context.resolve path).Avoids c) → (atom context token).Avoids c
  | .identifier path, _, values => by
    rintro value ⟨⟩
    exact values path List.mem_cons_self
  | .operator (.constant name), _, _ => by
    rintro value ⟨⟩
    cases name <;> trivial
  | .operator .negation, _, _ => trivial
  | .operator (.binary _), _, _ => trivial
  | .str text, avoids, _ => by
    rintro value ⟨⟩
    exact avoids
  | .int _, _, _ => by
    rintro value ⟨⟩
    trivial
  | .float _, _, _ => by
    rintro value ⟨⟩
    trivial
  | .list items, avoids, values => by
    intro value computed
    cases evaluated : itemValues context items with
    | error failure =>
      rw [evaluated] at computed
      cases computed
    | ok found =>
      rw [evaluated] at computed
      cases computed
      exact Value.avoids_list.mpr (avoid_itemValues items avoids values found evaluated)
  | .group tokens, avoids, values => fun _ computed =>
    avoids_of_run (avoid_atoms tokens avoids values) computed

private theorem avoid_atoms : ∀ tokens : List Token, TokensAvoid c tokens →
    (∀ path ∈ tokenPaths tokens, (context.resolve path).Avoids c) →
    ∀ atom ∈ atoms context tokens, atom.Avoids c
  | [], _, _ => List.forall_mem_nil _
  | token :: rest, ⟨here, later⟩, values => by
    obtain ⟨hereValues, laterValues⟩ := List.forall_mem_append.mp values
    exact List.forall_mem_cons.mpr
      ⟨avoids_atom token here hereValues, avoid_atoms rest later laterValues⟩

private theorem avoid_itemValues : ∀ items : List (List Token), ItemsAvoid c items →
    (∀ path ∈ itemPaths items, (context.resolve path).Avoids c) →
    ∀ found, itemValues context items = .ok found → ∀ value ∈ found, value.Avoids c
  | [], _, _, _, computed => by
    cases computed
    exact List.forall_mem_nil _
  | item :: rest, ⟨here, later⟩, values, _, computed => by
    obtain ⟨hereValues, laterValues⟩ := List.forall_mem_append.mp values
    obtain ⟨first, firstComputed, computed⟩ := Result.bind_eq_ok.mp computed
    obtain ⟨others, othersComputed, same⟩ := Result.bind_eq_ok.mp computed
    cases same
    exact List.forall_mem_cons.mpr
      ⟨avoids_of_run (avoid_atoms item here hereValues) firstComputed,
        avoid_itemValues rest later laterValues others othersComputed⟩

end

end Tokens

end Evaluation

/-- A character that occurs neither in an expression nor in the values of its paths does not occur
in its value. -/
theorem Expression.avoids_of_evaluate {c : Char} {expression : Expression} {context : Context}
    {value : Value} (avoid : ∀ token ∈ expression, token.Avoids c)
    (values : ∀ path ∈ expression.paths, (context.resolve path).Avoids c)
    (computed : expression.evaluate context = .ok value) : value.Avoids c :=
  Evaluation.avoids_of_run
    (Evaluation.avoid_atoms expression (Token.tokensAvoid_iff.mpr avoid) values) computed

namespace Lexeme

variable {c : Char} {delimiters : Delimiters}

/-- A lexeme in whose texts a character does not occur. -/
def Avoids (c : Char) : Lexeme → Prop
  | .token complete => complete.Avoids c
  | .list items => ∀ item ∈ items, c ∉ item.toList
  | .group body => c ∉ body.toList

/-- A literal so far in whose texts a character does not occur. An escape character that has been
read may still be added to the text. -/
def Enclosed.Avoids (c : Char) : Enclosed → Prop
  | .quote delimiter text escaped =>
    c ∉ text.toList ∧ (escaped = true → delimiter.escape ≠ some c)
  | .list _ items item => (∀ other ∈ items, c ∉ other.toList) ∧ c ∉ item.toList
  | .group _ body => c ∉ body.toList

/-- An open literal or a lexeme in which a character does not occur. -/
def Progress.Avoids (c : Char) : Progress → Prop
  | .more literal => literal.Avoids c
  | .closed lexeme => lexeme.Avoids c

/-- A piece being read in whose literal a character does not occur. -/
def Pending.Avoids (c : Char) : Pending → Prop
  | .enclosed literal _ => literal.Avoids c
  | _ => True

private theorem not_mem_push {text : String} {d : Char} (avoids : c ∉ text.toList)
    (differs : d ≠ c) : c ∉ (text.push d).toList := by
  rw [String.toList_push, List.mem_append, List.mem_singleton, not_or]
  exact ⟨avoids, Ne.symm differs⟩

private theorem avoids_unescaped {delimiter : Delimiter} {text : String}
    (absent : c ∉ text.toList) : (Enclosed.quote delimiter text false).Avoids c :=
  ⟨absent, fun escaped => absurd escaped Bool.false_ne_true⟩

private theorem avoids_of_pushQuoted {delimiter : Delimiter} {text : String} {escaped : Bool}
    {d : Char} (avoids : (Enclosed.quote delimiter text escaped).Avoids c) (differs : d ≠ c) :
    (Enclosed.pushQuoted delimiter text escaped d).Avoids c := by
  obtain ⟨noText, noEscape⟩ := avoids
  have pushed : c ∉ (text.push d).toList := not_mem_push noText differs
  rw [Enclosed.pushQuoted]
  split
  · next isEscaped =>
    -- an escape character that escapes nothing is added to the text after all
    split
    · exact avoids_unescaped pushed
    · refine avoids_unescaped (not_mem_push ?_ differs)
      cases escape : delimiter.escape with
      | none => exact noText
      | some e =>
        refine not_mem_push noText ?_
        rintro rfl
        exact noEscape isEscaped escape
  · split
    · next escapes =>
      refine ⟨noText, fun _ same => differs ?_⟩
      rw [escapes] at same
      exact Option.some.inj same
    · split
      · exact noText
      · exact avoids_unescaped pushed

/-- A character brings in nothing but itself. -/
theorem avoids_of_push {literal : Enclosed} {d : Char} {progress : Progress}
    (avoids : literal.Avoids c) (differs : d ≠ c)
    (pushed : literal.push delimiters d = .ok progress) : progress.Avoids c := by
  cases literal with
  | quote delimiter text escaped =>
    cases pushed
    exact avoids_of_pushQuoted avoids differs
  | list delimiter items item =>
    obtain ⟨noItems, noItem⟩ := avoids
    have all : ∀ other ∈ items ++ [item], c ∉ other.toList := by
      rw [List.forall_mem_append, List.forall_mem_singleton]
      exact ⟨noItems, noItem⟩
    rcases Enclosed.pushListed_cases pushed with ⟨rfl, -⟩ | ⟨-, -, -, rfl⟩ | ⟨-, -, rfl⟩
    · exact ⟨noItems, not_mem_push noItem differs⟩
    · exact ⟨all, by simp⟩
    · rw [Progress.Avoids]
      split
      · exact noItems
      · exact all
  | group delimiter body =>
    rcases Enclosed.pushGrouped_cases pushed with ⟨rfl, -⟩ | ⟨-, -, rfl⟩
    · exact not_mem_push avoids differs
    · exact avoids

private theorem avoids_ofWord {text : String} {start : Nat} {lexeme : Lexeme}
    (read : ofWord text start = .ok lexeme) : lexeme.Avoids c := by
  rw [ofWord] at read
  split at read <;> cases read
  trivial

private theorem avoids_ofNumeral (numeral : Decimal.Numeral) : (ofNumeral numeral).Avoids c := by
  rw [ofNumeral]
  split <;> trivial

private theorem avoid_of_endWith {position : Nat} {d : Char} {lexeme : Lexeme} {taken : Step}
    (avoids : lexeme.Avoids c) (ended : endWith delimiters position d lexeme = .ok taken) :
    ∀ other ∈ taken.ended, other.Avoids c := by
  obtain ⟨next, -, same⟩ := Result.bind_eq_ok.mp ended
  cases same
  exact List.forall_mem_singleton.mpr avoids

/-- Where no literal is open, no text ends. -/
theorem avoid_of_step {position : Nat} {d : Char} {pending : Pending} {taken : Step}
    (plain : pending.isPlain = true) (stepped : step delimiters position d pending = .ok taken) :
    ∀ lexeme ∈ taken.ended, lexeme.Avoids c := by
  cases pending with
  | nothing =>
    obtain ⟨next, -, same⟩ := Result.bind_eq_ok.mp stepped
    cases same
    exact List.forall_mem_nil _
  | operator text start =>
    have ofOperator (operator : Operator) : (Lexeme.token (.operator operator)).Avoids c := trivial
    simp only [step, stepOperator] at stepped
    repeat' split at stepped
    all_goals first | exact avoid_of_endWith (ofOperator _) stepped | cases stepped
    all_goals exact List.forall_mem_nil _
  | word text start =>
    simp only [step, stepWord] at stepped
    split at stepped
    · cases stepped
    · split at stepped
      · cases stepped
        exact List.forall_mem_nil _
      · obtain ⟨lexeme, read, ended⟩ := Result.bind_eq_ok.mp stepped
        exact avoid_of_endWith (avoids_ofWord read) ended
  | number numeral =>
    simp only [step, stepNumber] at stepped
    split at stepped
    · cases stepped
    · split at stepped <;> cases stepped
      · exact List.forall_mem_nil _
      · exact List.forall_mem_singleton.mpr (avoids_ofNumeral numeral)
  | enclosed literal start => cases plain

private theorem Pending.IsFresh.avoids {position : Nat} {d : Char} {pending : Pending}
    (fresh : pending.IsFresh delimiters position d) : pending.Avoids c := by
  rcases fresh with plain | ⟨delimiter, -, rfl⟩
  · cases pending with
    | enclosed => cases plain
    | nothing | operator | word | number => trivial
  · rw [Pending.Avoids, Enclosed.ofDelimiter]
    cases delimiter.enclosure with
    | quote => exact avoids_unescaped (by simp)
    | list => exact ⟨List.forall_mem_nil _, by simp⟩
    | group => simp [Enclosed.Avoids]

private theorem avoids_of_offer {position : Nat} {d : Char} {pending next : Pending}
    {ended : List Lexeme} (avoids : pending.Avoids c) (differs : d ≠ c)
    (offered : offer delimiters position d pending = .ok (ended, next)) :
    (∀ lexeme ∈ ended, lexeme.Avoids c) ∧ next.Avoids c := by
  cases plain : pending.isPlain with
  | true =>
    refine ⟨?_, (offer_isFresh delimiters plain offered).2.avoids⟩
    obtain ⟨first, stepped, offered⟩ := Result.bind_eq_ok.mp offered
    have firstAvoid := avoid_of_step (c := c) plain stepped
    split at offered
    · cases offered
      exact firstAvoid
    · next given =>
      obtain ⟨second, again, same⟩ := Result.bind_eq_ok.mp offered
      cases same
      obtain ⟨-, -, firstPlain⟩ := step_isFresh delimiters plain stepped
      exact List.forall_mem_append.mpr
        ⟨firstAvoid, avoid_of_step (firstPlain (by simpa using given)) again⟩
  | false =>
    match pending, plain with
    | .enclosed literal start, _ =>
      rw [offer_enclosed] at offered
      split at offered
      · next longer pushed =>
        cases offered
        exact ⟨List.forall_mem_nil _, avoids_of_push avoids differs pushed⟩
      · next lexeme pushed =>
        cases offered
        have closed : lexeme.Avoids c := avoids_of_push avoids differs pushed
        exact ⟨List.forall_mem_singleton.mpr closed, trivial⟩
      · cases offered

private theorem avoid_of_finish {pending : Pending} {lexemes : List Lexeme}
    (finished : finish pending = .ok lexemes) : ∀ lexeme ∈ lexemes, lexeme.Avoids c := by
  cases pending with
  | nothing =>
    cases finished
    exact List.forall_mem_nil _
  | operator text start =>
    rw [finish] at finished
    split at finished
    · cases finished
      exact List.forall_mem_singleton.mpr trivial
    · split at finished
      · obtain ⟨lexeme, read, same⟩ := Result.bind_eq_ok.mp finished
        cases same
        exact List.forall_mem_singleton.mpr (avoids_ofWord read)
      · cases finished
  | word text start =>
    obtain ⟨lexeme, read, same⟩ := Result.bind_eq_ok.mp finished
    cases same
    exact List.forall_mem_singleton.mpr (avoids_ofWord read)
  | number numeral =>
    cases finished
    exact List.forall_mem_singleton.mpr (avoids_ofNumeral numeral)
  | enclosed literal start => cases finished

/-- A character of a lexeme occurs in the text that was scanned. -/
theorem avoid_of_scan {text : String} (absent : c ∉ text.toList) :
    ∀ lexeme ∈ (scan delimiters text).lexemes, lexeme.Avoids c := by
  refine forall_mem_scanFrom (fun {_ d _ _ _} member avoids offered => ?_)
    (fun _ => avoid_of_finish) (show Pending.Avoids c .nothing from trivial)
  have differs : d ≠ c := fun same => absent (same ▸ member)
  exact avoids_of_offer avoids differs offered

end Lexeme

/-- A character of an expression occurs in the text that it was read from. -/
theorem Expression.avoid_of_read {c : Char} {delimiters : Delimiters} {text : String}
    {expression : Expression} (absent : c ∉ text.toList)
    (answer : read delimiters text = .ok expression) : ∀ token ∈ expression, token.Avoids c := by
  rw [read_eq] at answer
  obtain ⟨-, lexemesRead⟩ := Lexeme.Scan.read_eq_ok answer
  intro token member
  obtain ⟨lexeme, listed, tokenRead⟩ := Result.exists_of_mem_of_mapM_eq_ok lexemesRead member
  have avoids := Lexeme.avoid_of_scan absent lexeme listed
  have shorter : ∀ inner ∈ lexeme.inners, inner.length < text.length :=
    fun inner inside => (Lexeme.isCut_of_mem_scan listed inside).1
  cases lexeme with
  | token complete =>
    cases tokenRead
    exact avoids
  | list items =>
    obtain ⟨expressions, itemsRead, same⟩ := Result.bind_eq_ok.mp tokenRead
    cases same
    rw [Token.Avoids, Token.itemsAvoid_iff]
    intro inner inside
    obtain ⟨item, itemListed, itemRead⟩ := Result.exists_of_mem_of_mapM_eq_ok itemsRead inside
    have smaller := shorter item itemListed
    exact Token.tokensAvoid_iff.mpr (avoid_of_read (avoids item itemListed) itemRead)
  | group body =>
    obtain ⟨inner, bodyRead, same⟩ := Result.bind_eq_ok.mp tokenRead
    cases same
    have smaller := shorter body (List.mem_singleton_self body)
    rw [Token.Avoids, Token.tokensAvoid_iff]
    exact avoid_of_read avoids bodyRead
termination_by text.length

end Stencil
